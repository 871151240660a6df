/-
The write quorum of creates and updates.

`replication_manager.hpp` promises that a write is committed only when
`replicationFactor / 2 + 1` datanodes ACK it.  `propagateCreateFile` keeps the
promise.  `propagateUpdateFile` checks `min(quorum_, number of holders)`
instead, so it commits with fewer ACKs as soon as fewer holders are recorded
and all of them ACK, down to no holder at all.

* `write_quorum_iff` — the create side, and exactly when the update side holds;
* `update_without_quorum` — an update that is committed without any ACK.
-/
import SquidStorage.Replication
import Mathlib.Data.List.Perm.Subperm

open BigEndian LastWrite

namespace Squid

/-! ### The fan-out -/

theorem fanOut_ackedNodes (answer : Bytes → SessionId → WriteAnswer) (filePath : Bytes)
    (file : StoredFile) (targets : List (Bytes × SessionId)) (nodes : DataNodes) :
    (fanOut answer filePath file targets nodes).2
      = targets.filter fun t => (answer t.1 t.2).acks := by
  induction targets generalizing nodes with
  | nil => rfl
  | cons t targets ih =>
    simp only [fanOut, ih]
    by_cases hack : (answer t.1 t.2).acks <;> simp [hack]

/-- The fan-out touches one path, on the datanodes it is sent to. -/
theorem fanOut_nodes_of_ne (answer : Bytes → SessionId → WriteAnswer) {filePath : Bytes}
    (file : StoredFile) {targets : List (Bytes × SessionId)} (nodes : DataNodes) {n p : Bytes}
    (h : p = filePath → n ∉ targets.map Prod.fst) :
    (fanOut answer filePath file targets nodes).1 n p = nodes n p := by
  induction targets generalizing nodes with
  | nil => rfl
  | cons t targets ih =>
    simp only [List.map_cons, List.mem_cons, not_or] at h
    have htail : p = filePath → n ∉ targets.map Prod.fst := fun hp => (h hp).2
    have hne : ¬ (n = t.1 ∧ p = filePath) := fun hnp => (h hnp.2).1 hnp.1
    simp only [fanOut, ih _ htail, storeAt, if_neg hne]

/-- What a contacted datanode holds afterwards. -/
theorem fanOut_nodes_of_mem (answer : Bytes → SessionId → WriteAnswer) (filePath : Bytes)
    (file : StoredFile) {targets : List (Bytes × SessionId)} (nodes : DataNodes)
    (hnodup : (targets.map Prod.fst).Nodup) {n : Bytes} {s : SessionId} (h : (n, s) ∈ targets) :
    (fanOut answer filePath file targets nodes).1 n filePath
      = (answer n s).effect file (nodes n filePath) := by
  induction targets generalizing nodes with
  | nil => simp at h
  | cons t targets ih =>
    obtain ⟨hhead, htail⟩ := List.nodup_cons.mp hnodup
    simp only [fanOut]
    rcases List.mem_cons.mp h with rfl | hmem
    · rw [fanOut_nodes_of_ne answer file _ fun _ => hhead]
      simp [storeAt]
    · have hne : n ≠ t.1 := by
        rintro rfl
        exact hhead (List.mem_map.mpr ⟨_, hmem, rfl⟩)
      rw [ih _ htail hmem]
      simp [storeAt, hne]

theorem nodup_keys_toList {α : Type} (m : StrMap α) : (m.toList.map Prod.fst).Nodup := by
  rw [Std.ExtTreeMap.map_fst_toList_eq_keys]
  exact Std.ExtTreeMap.nodup_keys

/-! ### Quorums -/

/-- At least `quorum` distinct datanodes of those contacted have ACKed, and
store the file. -/
def QuorumStored (quorum : ℕ) (contacted : StrMap SessionId)
    (answer : Bytes → SessionId → WriteAnswer) (nodes : DataNodes) (filePath : Bytes)
    (file : StoredFile) : Prop :=
  ∃ names : List Bytes, names.Nodup ∧ quorum ≤ names.length ∧ ∀ n ∈ names, ∃ session,
    contacted[n]? = some session ∧ answer n session = .acked ∧ nodes n filePath = some file

section Quorum

variable (answer : Bytes → SessionId → WriteAnswer) (filePath : Bytes) (file : StoredFile)
  (contacted : StrMap SessionId) (nodes : DataNodes)

theorem acks_iff (a : WriteAnswer) : a.acks = true ↔ a = .acked := by
  cases a <;> simp [WriteAnswer.acks]

/-- Quorums are counted by the nodes that ACKed. -/
theorem quorumStored_iff (quorum : ℕ) :
    QuorumStored quorum contacted answer
        (fanOut answer filePath file contacted.toList nodes).1 filePath file
      ↔ quorum ≤ (fanOut answer filePath file contacted.toList nodes).2.length := by
  rw [fanOut_ackedNodes]
  set ackedNodes := contacted.toList.filter fun t => (answer t.1 t.2).acks with hacked
  have hmem : ∀ n s, (n, s) ∈ ackedNodes ↔ contacted[n]? = some s ∧ answer n s = .acked := by
    intro n s
    rw [hacked, List.mem_filter, Std.ExtTreeMap.mem_toList_iff_getElem?_eq_some, acks_iff]
  have hsub : (ackedNodes.map Prod.fst).Nodup :=
    (nodup_keys_toList contacted).sublist (List.filter_sublist.map _)
  constructor
  · -- distinct names among those that ACKed are no more than those
    rintro ⟨names, hnodup, hlen, hall⟩
    have hincl : names ⊆ ackedNodes.map Prod.fst := by
      intro n hn
      obtain ⟨s, hs, hans, -⟩ := hall n hn
      exact List.mem_map.mpr ⟨(n, s), (hmem n s).mpr ⟨hs, hans⟩, rfl⟩
    have hle := (hnodup.subperm hincl).length_le
    rw [List.length_map] at hle
    omega
  · intro hlen
    refine ⟨ackedNodes.map Prod.fst, hsub, by rwa [List.length_map], fun n hn => ?_⟩
    obtain ⟨⟨n', s⟩, hns, rfl⟩ := List.mem_map.mp hn
    obtain ⟨hs, hans⟩ := (hmem n' s).mp hns
    refine ⟨s, hs, hans, ?_⟩
    have hin : (n', s) ∈ contacted.toList :=
      Std.ExtTreeMap.mem_toList_iff_getElem?_eq_some.mpr hs
    rw [fanOut_nodes_of_mem answer filePath file nodes (nodup_keys_toList contacted) hin, hans]
    rfl

/-- All contacted datanodes have ACKed exactly when none of them has not. -/
theorem ackedNodes_length_lt_iff :
    (fanOut answer filePath file contacted.toList nodes).2.length < contacted.toList.length
      ↔ ∃ n s, contacted[n]? = some s ∧ answer n s ≠ .acked := by
  rw [fanOut_ackedNodes, List.length_filter_lt_length_iff_exists]
  constructor
  · rintro ⟨⟨n, s⟩, hmem, hnot⟩
    refine ⟨n, s, Std.ExtTreeMap.mem_toList_iff_getElem?_eq_some.mp hmem, fun hans => ?_⟩
    exact hnot ((acks_iff _).mpr hans)
  · rintro ⟨n, s, hs, hans⟩
    exact ⟨(n, s), Std.ExtTreeMap.mem_toList_iff_getElem?_eq_some.mpr hs,
      fun hack => hans ((acks_iff _).mp hack)⟩

end Quorum

/-! ### Creates and updates -/

namespace System

variable (sys : System) (answer : Bytes → SessionId → WriteAnswer)

/-- **A committed create has its quorum.** -/
theorem create_quorum (rollback : Bytes → SessionId → DeleteAnswer) (filePath : Bytes)
    (version : Int32) (origin fileData : Bytes)
    (h : (sys.propagateCreateFile answer rollback filePath version origin fileData).1 = true) :
    QuorumStored sys.rm.quorum sys.rm.dataNodeEndpointMap answer
      (sys.propagateCreateFile answer rollback filePath version origin fileData).2.1.nodes
      filePath ⟨fileData, version⟩ := by
  have hstored := quorumStored_iff answer filePath ⟨fileData, version⟩
    sys.rm.dataNodeEndpointMap sys.nodes sys.rm.quorum
  simp only [propagateCreateFile] at h ⊢
  split at h
  · simp at h
  · rename_i hlen
    rw [if_neg hlen]
    exact hstored.mpr (by omega)

/-- When an update is committed, and what it leaves behind. -/
theorem update_cases (filePath : Bytes) (seen : Int32) (origin fileData : Bytes) :
    let file : StoredFile := ⟨fileData, sys.newVersion filePath seen⟩
    let fan := fanOut answer filePath file (sys.rm.holders filePath).toList sys.nodes
    let result := sys.propagateUpdateFile answer filePath seen origin fileData
    result.2.1.nodes = fan.1 ∧
      result.1 = if fan.2.length < min sys.rm.quorum (sys.rm.holders filePath).toList.length
        then -1 else sys.newVersion filePath seen := by
  intro file fan result
  by_cases hlen : fan.2.length < min sys.rm.quorum (sys.rm.holders filePath).toList.length
  · have hresult : result = (-1, { sys with nodes := fan.1 }, []) := if_pos hlen
    rw [hresult, if_pos hlen]
    exact ⟨rfl, rfl⟩
  · have hresult : result
        = (_, { rm := sys.rm.commitUpdate filePath _, nodes := fan.1 }, _) := if_neg hlen
    rw [hresult, if_neg hlen]
    exact ⟨rfl, rfl⟩

/-- **Exactly when a committed update has its quorum**: there are enough
recorded holders, or one of them does not ACK, or the version has wrapped and
the update counts as rejected. -/
theorem update_quorum_iff (filePath : Bytes) (seen : Int32) (origin fileData : Bytes) :
    (0 ≤ (sys.propagateUpdateFile answer filePath seen origin fileData).1 →
      QuorumStored sys.rm.quorum (sys.rm.holders filePath) answer
        (sys.propagateUpdateFile answer filePath seen origin fileData).2.1.nodes filePath
        ⟨fileData, (sys.propagateUpdateFile answer filePath seen origin fileData).1⟩)
      ↔ sys.rm.quorum ≤ (sys.rm.holders filePath).toList.length ∨
        (∃ n s, (sys.rm.holders filePath)[n]? = some s ∧ answer n s ≠ .acked) ∨
        sys.newVersion filePath seen < 0 := by
  set holders := sys.rm.holders filePath with hholders
  set newVersion := sys.newVersion filePath seen with hnew
  set fan := fanOut answer filePath ⟨fileData, newVersion⟩ holders.toList sys.nodes with hfan
  obtain ⟨hnodes, hresult⟩ := update_cases sys answer filePath seen origin fileData
  rw [← hholders, ← hnew, ← hfan] at hnodes hresult
  have hstored := quorumStored_iff answer filePath ⟨fileData, newVersion⟩ holders sys.nodes
    sys.rm.quorum
  have hall := ackedNodes_length_lt_iff answer filePath ⟨fileData, newVersion⟩ holders sys.nodes
  rw [← hfan] at hstored hall
  have hle : fan.2.length ≤ holders.toList.length := by
    rw [hfan, fanOut_ackedNodes]
    exact List.length_filter_le _ _
  rw [hnodes, hresult, ← hall]
  by_cases hlen : fan.2.length < min sys.rm.quorum holders.toList.length
  · -- rejected: the left side is vacuous, and some holder has not ACKed
    rw [if_pos hlen]
    refine ⟨fun _ => Or.inr (Or.inl (by omega)), fun _ h => absurd h (by decide)⟩
  · rw [if_neg hlen, hstored]
    constructor
    · -- committed with a quorum: at least that many holders are recorded
      intro h
      by_cases hneg : newVersion < 0
      · exact Or.inr (Or.inr hneg)
      · exact Or.inl (le_trans (h (Int32.not_lt.mp hneg)) hle)
    · rintro (h | h | h) hpos
      · omega
      · omega
      · exact absurd h (Int32.not_lt.mpr hpos)

/-- **The write quorum.**  In every state, whatever the datanodes answer:
`propagateCreateFile` returns true only if `replicationFactor / 2 + 1` distinct
datanodes have ACKed and store the payload under the version; and the same
holds of a non-negative result of `propagateUpdateFile` exactly when that many
holders are recorded, or some recorded holder does not ACK, or the new version
is negative. -/
theorem write_quorum_iff (rollback : Bytes → SessionId → DeleteAnswer) (filePath : Bytes)
    (version seen : Int32) (origin fileData : Bytes) :
    ((sys.propagateCreateFile answer rollback filePath version origin fileData).1 = true →
      QuorumStored sys.rm.quorum sys.rm.dataNodeEndpointMap answer
        (sys.propagateCreateFile answer rollback filePath version origin fileData).2.1.nodes
        filePath ⟨fileData, version⟩) ∧
    ((0 ≤ (sys.propagateUpdateFile answer filePath seen origin fileData).1 →
      QuorumStored sys.rm.quorum (sys.rm.holders filePath) answer
        (sys.propagateUpdateFile answer filePath seen origin fileData).2.1.nodes filePath
        ⟨fileData, (sys.propagateUpdateFile answer filePath seen origin fileData).1⟩)
      ↔ sys.rm.quorum ≤ (sys.rm.holders filePath).toList.length ∨
        (∃ n s, (sys.rm.holders filePath)[n]? = some s ∧ answer n s ≠ .acked) ∨
        sys.newVersion filePath seen < 0) :=
  ⟨create_quorum sys answer rollback filePath version origin fileData,
    update_quorum_iff sys answer filePath seen origin fileData⟩

/-- With replication factor 3 and no recorded holder, an update of an unknown
path is committed as version 1 although no datanode has seen it. -/
theorem update_without_quorum :
    let sys : System := { rm := { replicationFactor := 3 }, nodes := fun _ _ => none }
    let result := sys.propagateUpdateFile (fun _ _ => .acked) [97] 0 [99] [1, 2, 3]
    result.1 = 1 ∧
      ¬ QuorumStored sys.rm.quorum (sys.rm.holders [97]) (fun _ _ => .acked) result.2.1.nodes [97]
        ⟨[1, 2, 3], result.1⟩ := by
  refine ⟨by decide, ?_⟩
  rintro ⟨names, -, hlen, hall⟩
  obtain ⟨n, hn⟩ : ∃ n, n ∈ names := List.exists_mem_of_length_pos (lt_of_lt_of_le (by decide) hlen)
  obtain ⟨s, hs, -⟩ := hall n hn
  simp [ReplicationManager.holders] at hs

end System

end Squid
