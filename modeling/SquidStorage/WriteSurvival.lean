/-
An acknowledged write survives the loss of datanodes.

A write is acknowledged when a quorum of datanodes has stored it, and each of those is
among the holders of the file.  Until the file is written again, a holder keeps its copy
through everything that happens to other files, to other datanodes and to the server's
maps: rebalances leave the copies of holders alone, and registrations only add holders.

* `System.Keeps` — a datanode is a holder of the file and stores this copy of it;
* `keeps_step` — only a write of the file or the eviction of the datanode ends that;
* `keeps_write` — an acknowledged write leaves a quorum of such datanodes;
* `acked_write_survives` — while fewer than a quorum of datanodes have been evicted or fail
  to answer, a read returns the bytes of the write.

A datanode keeps the version of a path that is not one word in a line that it cannot read back,
and two spellings of one path are one file on its disk, so the paths are those of `StoragePath`.
-/
import SquidStorage.ReadLastWrite
import SquidStorage.Rebalancing
import SquidStorage.DataNodeInventory
import SquidStorage.HolderReads

open BigEndian LastWrite RunningMax Runs

namespace Squid

namespace ServerEvent

/-- The file that a request writes or deletes. -/
def writtenPath : ServerEvent → Option Bytes
  | create filePath .. | update filePath .. | delete filePath .. => some filePath
  | read .. | register .. | loseEndpoint .. | evict .. => none

def evicted : ServerEvent → Option Bytes
  | evict name _ => some name
  | create .. | update .. | delete .. | read .. | register .. | loseEndpoint .. => none

end ServerEvent

namespace System

/-- The ACKs that a write waits for. -/
def acksNeeded (sys : System) : ServerEvent → ℕ
  | .create .. => sys.rm.quorum
  | .update filePath .. => min sys.rm.quorum (sys.rm.holders filePath).toList.length
  | .delete .. | .read .. | .register .. | .loseEndpoint .. | .evict .. => 0

/-- The datanode is a holder of the file, and `file` is its copy. -/
def Keeps (sys : System) (p : Bytes) (file : StoredFile) (n : Bytes) : Prop :=
  n ∈ sys.rm.holders p ∧ sys.nodes n p = some file

variable {sys : System} {p n : Bytes} {file : StoredFile}

/-! ### What ends a copy -/

theorem deleteAll_of_ne {answer : Bytes → SessionId → DeleteAnswer} {filePath : Bytes}
    (hp : p ≠ filePath) (targets : List (Bytes × SessionId)) (nodes : DataNodes) :
    deleteAll answer filePath targets nodes n p = nodes n p := by
  induction targets generalizing nodes with
  | nil => rfl
  | cons t targets ih =>
    rw [deleteAll, ih]
    split
    · simp [storeAt, hp]
    · rfl

theorem Keeps.create (h : sys.Keeps p file n) {filePath : Bytes} (hp : p ≠ filePath)
    (version : Int32) (origin fileData : Bytes) (answer : Bytes → SessionId → WriteAnswer)
    (rollback : Bytes → SessionId → DeleteAnswer) :
    (sys.step (.create filePath version origin fileData answer rollback)).Keeps p file n := by
  have hfan : (fanOut answer filePath ⟨fileData, version⟩ sys.rm.dataNodeEndpointMap.toList
      sys.nodes).1 n p = some file :=
    (fanOut_nodes_of_ne answer _ sys.nodes fun hpp => absurd hpp hp).trans h.2
  rw [step]
  by_cases hcommit : sys.createCommits filePath version fileData answer = true
  · rw [(create_of_commits sys answer rollback filePath version origin fileData hcommit).2]
    exact ⟨(ReplicationManager.mem_holders_commitCreate sys.rm).mpr (Or.inr h.1), hfan⟩
  · rw [(create_of_rejected sys answer rollback filePath version origin fileData hcommit).2]
    exact ⟨h.1, (deleteAll_of_ne hp _ _).trans hfan⟩

theorem Keeps.update (h : sys.Keeps p file n) {filePath : Bytes} (hp : p ≠ filePath)
    (seen : Int32) (origin fileData : Bytes) (answer : Bytes → SessionId → WriteAnswer) :
    (sys.step (.update filePath seen origin fileData answer)).Keeps p file n := by
  have hfan : (fanOut answer filePath ⟨fileData, sys.newVersion filePath seen⟩
      (sys.rm.holders filePath).toList sys.nodes).1 n p = some file :=
    (fanOut_nodes_of_ne answer _ sys.nodes fun hpp => absurd hpp hp).trans h.2
  rw [step]
  by_cases hcommit : sys.updateCommits filePath seen fileData answer = true
  · rw [(update_of_commits sys answer filePath seen origin fileData hcommit).2]
    exact ⟨h.1, hfan⟩
  · rw [(update_of_rejected sys answer filePath seen origin fileData hcommit).2]
    exact ⟨h.1, hfan⟩

theorem Keeps.delete (h : sys.Keeps p file n) {filePath : Bytes} (hp : p ≠ filePath)
    (origin : Bytes) (answer : Bytes → SessionId → DeleteAnswer) :
    (sys.step (.delete filePath origin answer)).Keeps p file n := by
  have hnodes : deleteAll answer filePath (sys.rm.holders filePath).toList sys.nodes n p
      = some file := (deleteAll_of_ne hp _ _).trans h.2
  rw [step]
  by_cases hcommit : sys.deleteCommits filePath answer = true
  · rw [delete_of_commits hcommit]
    refine ⟨?_, hnodes⟩
    rw [ReplicationManager.holders_commitDelete, if_neg (Ne.symm hp)]
    exact h.1
  · rw [delete_of_rejected hcommit]
    exact ⟨h.1, hnodes⟩

/-- A rebalance leaves the copies of the remaining holders alone. -/
theorem Keeps.evict (h : sys.Keeps p file n) {name : Bytes} (hn : n ≠ name)
    (answer : RebalanceAnswers) : (sys.step (.evict name answer)).Keeps p file n := by
  have hrefilled := refilled_evict sys answer name p
  have hholder : n ∈ ((sys.fileView p).without name).holders :=
    FileView.mem_without.mpr ⟨hn, h.1⟩
  refine ⟨?_, (hrefilled.untouched n (Or.inl hholder)).trans h.2⟩
  exact mem_of_entry (hrefilled.kept n _ (Std.ExtTreeMap.getElem?_eq_some_getElem hholder))

/-- **One step**: only a write of the file or the eviction of the datanode ends it. -/
theorem keeps_step (h : sys.Keeps p file n) {event : ServerEvent}
    (hwritten : event.writtenPath ≠ some p) (hevicted : event.evicted ≠ some n) :
    (sys.step event).Keeps p file n := by
  cases event with
  | create filePath version origin fileData answer rollback =>
    exact h.create (fun hp => hwritten (congrArg some hp.symm)) ..
  | update filePath seen origin fileData answer =>
    exact h.update (fun hp => hwritten (congrArg some hp.symm)) ..
  | delete filePath origin answer => exact h.delete (fun hp => hwritten (congrArg some hp.symm)) ..
  | evict name answer => exact h.evict (fun hn => hevicted (congrArg some hn.symm)) answer
  | register name session fileVersionMap replies =>
    exact ⟨(ReplicationManager.mem_holders_acceptDataNode sys.rm).mpr (Or.inr h.1), h.2⟩
  | read filePath answer | loseEndpoint name => exact h

/-! ### A quorum of copies -/

theorem keeps_create {filePath : Bytes} {version : Int32} {origin fileData : Bytes}
    {answer : Bytes → SessionId → WriteAnswer} {rollback : Bytes → SessionId → DeleteAnswer}
    (hcommit : sys.createCommits filePath version fileData answer = true) :
    ∃ names : List Bytes, names.Nodup ∧ sys.rm.quorum ≤ names.length ∧ ∀ n ∈ names,
      (sys.step (.create filePath version origin fileData answer rollback)).Keeps filePath
        ⟨fileData, version⟩ n := by
  have hquorum := (quorumStored_iff answer filePath ⟨fileData, version⟩ sys.rm.dataNodeEndpointMap
    sys.nodes sys.rm.quorum).mpr (of_decide_eq_true hcommit)
  obtain ⟨names, hnodup, hlength, hnames⟩ := hquorum
  refine ⟨names, hnodup, hlength, fun n hn => ?_⟩
  obtain ⟨session, hsession, hacked, hstored⟩ := hnames n hn
  rw [step, (create_of_commits sys answer rollback filePath version origin fileData hcommit).2]
  refine ⟨(ReplicationManager.mem_holders_commitCreate sys.rm).mpr (Or.inl ⟨rfl, ?_⟩), hstored⟩
  rw [fanOut_ackedNodes]
  refine List.mem_map.mpr ⟨(n, session), List.mem_filter.mpr ⟨?_, (acks_iff _).mpr hacked⟩, rfl⟩
  exact Std.ExtTreeMap.mem_toList_iff_getElem?_eq_some.mpr hsession

theorem keeps_update {filePath : Bytes} {seen : Int32} {origin fileData : Bytes}
    {answer : Bytes → SessionId → WriteAnswer}
    (hcommit : sys.updateCommits filePath seen fileData answer = true) :
    ∃ names : List Bytes, names.Nodup ∧
      min sys.rm.quorum (sys.rm.holders filePath).toList.length ≤ names.length ∧ ∀ n ∈ names,
      (sys.step (.update filePath seen origin fileData answer)).Keeps filePath
        ⟨fileData, sys.newVersion filePath seen⟩ n := by
  have hquorum := (quorumStored_iff answer filePath ⟨fileData, sys.newVersion filePath seen⟩
    (sys.rm.holders filePath) sys.nodes _).mpr (of_decide_eq_true hcommit)
  obtain ⟨names, hnodup, hlength, hnames⟩ := hquorum
  refine ⟨names, hnodup, hlength, fun n hn => ?_⟩
  obtain ⟨session, hsession, -, hstored⟩ := hnames n hn
  rw [step, (update_of_commits sys answer filePath seen origin fileData hcommit).2]
  exact ⟨mem_of_entry hsession, hstored⟩

end System

namespace Tracked

variable {s t : Tracked} {p fileData : Bytes} {event : ServerEvent}

/-- **An acknowledged write leaves a quorum of copies**, at the version that it persists. -/
theorem keeps_write (hacked : s.acked event = some (p, fileData)) :
    ∃ version, (s.sys.step event).rm.persistedVersionMap[p]? = some version ∧
      ∃ names : List Bytes, names.Nodup ∧ s.sys.acksNeeded event ≤ names.length ∧
        ∀ n ∈ names, (s.sys.step event).Keeps p ⟨fileData, version⟩ n := by
  cases event with
  | create filePath version origin fileData' answer rollback =>
    by_cases hcommit : s.sys.createCommits filePath version fileData' answer = true
    · obtain ⟨rfl, rfl⟩ : filePath = p ∧ fileData' = fileData := by
        simpa [acked, (System.create_of_commits s.sys answer rollback filePath version origin
          fileData' hcommit).1] using hacked
      refine ⟨version, ?_, System.keeps_create hcommit⟩
      rw [System.step, System.persistedVersionMap_create, if_pos hcommit,
        Std.ExtTreeMap.getElem?_insert_self]
    · simp [acked, (System.create_of_rejected s.sys answer rollback filePath version origin
        fileData' hcommit).1] at hacked
  | update filePath seen origin fileData' answer =>
    by_cases hcommit : s.sys.updateCommits filePath seen fileData' answer = true
    · obtain ⟨-, rfl, rfl⟩ : _ ∧ filePath = p ∧ fileData' = fileData := by
        simpa [acked] using hacked
      refine ⟨s.sys.newVersion filePath seen, ?_, System.keeps_update hcommit⟩
      rw [System.step, System.persistedVersionMap_update, if_pos hcommit,
        Std.ExtTreeMap.getElem?_insert_self]
    · simp [acked, (System.update_of_rejected s.sys answer filePath seen origin fileData'
        hcommit).1] at hacked
  | delete | read | register | loseEndpoint | evict => simp [acked] at hacked

theorem acked_writtenPath {q bytes : Bytes} (h : s.acked event = some (q, bytes)) :
    event.writtenPath = some q := by
  cases event with
  | create filePath version origin fileData answer rollback =>
    obtain ⟨-, rfl, -⟩ : _ ∧ filePath = q ∧ fileData = bytes := by simpa [acked] using h
    rfl
  | update filePath seen origin fileData answer =>
    obtain ⟨-, rfl, -⟩ : _ ∧ filePath = q ∧ fileData = bytes := by simpa [acked] using h
    rfl
  | delete | read | register | loseEndpoint | evict => simp [acked] at h

/-- What was acknowledged is remembered until the file is written again. -/
theorem lastAcked_step (hstep : s.step event = some t) (hwritten : event.writtenPath ≠ some p) :
    t.lastAcked[p]? = s.lastAcked[p]? := by
  obtain rfl := Option.some.inj hstep
  cases hacked : s.acked event with
  | none => rfl
  | some write =>
    have hne : write.1 ≠ p := by
      rintro rfl
      exact hwritten (acked_writtenPath hacked)
    simp [Std.ExtTreeMap.getElem?_insert, hne]

/-- The version of a file changes with a write of it only. -/
theorem persistedVersion_step (h : s.Current) (hclean : LeavesNoTrace s.sys event)
    (hwritten : event.writtenPath ≠ some p) :
    (s.sys.step event).rm.persistedVersionMap[p]? = s.sys.rm.persistedVersionMap[p]? := by
  cases event with
  | create filePath version origin fileData answer rollback =>
    have hne : filePath ≠ p := fun hp => hwritten (congrArg some hp)
    rw [System.step, System.persistedVersionMap_create]
    split
    · simp [Std.ExtTreeMap.getElem?_insert, hne]
    · rfl
  | update filePath seen origin fileData answer =>
    have hne : filePath ≠ p := fun hp => hwritten (congrArg some hp)
    rw [System.step, System.persistedVersionMap_update]
    split
    · simp [Std.ExtTreeMap.getElem?_insert, hne]
    · rfl
  | delete filePath origin answer =>
    exact System.persistedVersionMap_delete_of_ne s.sys answer origin
      fun hp => hwritten (congrArg some hp)
  | register name session fileVersionMap replies =>
    -- a datanode reports its own copies, and no copy is ahead
    refine congrArg (·[p]?) (persistedVersionMap_register s.sys.rm name session fileVersionMap
      replies fun file hfile => ?_)
    have hget := Std.ExtTreeMap.mem_toList_iff_getElem?_eq_some.mp hfile
    rcases hclean file.1 file.2 hget with ⟨bytes, hcopy⟩ | hle
    · obtain ⟨v, hv, hle, -⟩ := h.copies name file.1 _ hcopy
      rwa [hv, Option.getD_some]
    · exact hle
  | evict name answer =>
    rw [System.step, System.persistedVersionMap_eraseFromReplicationMap]
  | read | loseEndpoint => rfl

/-! ### Reads -/

/-- A holder that answers and is not behind is enough for a read. -/
theorem exists_read {sys : System} {answer : Bytes → SessionId → ReadAnswer} {n : Bytes}
    {session : SessionId} {file : StoredFile} (hholder : (sys.rm.holders p)[n]? = some session)
    (hserved : answer n session = .served) (hcopy : sys.nodes n p = some file)
    (hversion : sys.rm.persistedVersionMap[p]? = some file.version) :
    ∃ bytes, sys.getFileFromDataNode answer p = some bytes := by
  rw [← Option.isSome_iff_exists]
  simp only [System.getFileFromDataNode]
  rw [List.findSome?_isSome_iff]
  refine ⟨(n, session), List.mem_filter.mpr
    ⟨Std.ExtTreeMap.mem_toList_iff_getElem?_eq_some.mpr hholder, by simp [hserved]⟩, ?_⟩
  simp [hserved, hcopy, ReplicationManager.getKnownVersion, hversion]

/-- What lasts, with one of the holders, while the file is not written again. -/
structure Lasts (p : Bytes) (file : StoredFile) (n : Bytes) (s : Tracked) : Prop where
  current : s.Current
  acked : s.lastAcked[p]? = some file.bytes
  version : s.sys.rm.persistedVersionMap[p]? = some file.version
  keeps : s.sys.Keeps p file n

theorem Lasts.step {file : StoredFile} {n : Bytes} (h : Lasts p file n s)
    (hclean : LeavesNoTrace s.sys event) (hwritten : event.writtenPath ≠ some p)
    (hevicted : event.evicted ≠ some n) (hstep : s.step event = some t) : Lasts p file n t where
  current := current_step s event t h.current hclean hstep
  acked := (lastAcked_step hstep hwritten).trans h.acked
  version := by
    obtain rfl := Option.some.inj hstep
    exact (persistedVersion_step h.current hclean hwritten).trans h.version
  keeps := by
    obtain rfl := Option.some.inj hstep
    exact System.keeps_step h.keeps hwritten hevicted

/-- As long as it lasts and the holder answers, reads return the bytes. -/
theorem Lasts.read {file : StoredFile} {n : Bytes} (h : Lasts p file n s)
    {answer : Bytes → SessionId → ReadAnswer}
    (hserved : ∀ session, (s.sys.rm.holders p)[n]? = some session → answer n session = .served) :
    s.sys.getFileFromDataNode answer p = some file.bytes := by
  have hholder := Std.ExtTreeMap.getElem?_eq_some_getElem h.keeps.1
  obtain ⟨bytes, hread⟩ := exists_read hholder (hserved _ hholder) h.keeps.2 h.version
  have hbytes := h.current.readsLastAcked answer p bytes hread
  rw [hread, ← hbytes, h.acked]

end Tracked

open Tracked

/-- **An acknowledged write survives** the loss of datanodes.  In every run as in
`LeavesNoTrace` on paths that the datanodes store as they are, from an acknowledged write of a file
until the file is written again: as long as fewer datanodes than the write waited for have been
evicted or do not answer, a read of the file returns the bytes of the write. -/
theorem acked_write_survives (replicationFactor : ℕ) (before after : List ServerEvent)
    (event : ServerEvent) (s t : Tracked) (p fileData : Bytes) (failed : List Bytes)
    (answer : Bytes → SessionId → ReadAnswer)
    (hclean : Meets step (fun s e => LeavesNoTrace s.sys e) (start replicationFactor)
      (before ++ event :: after))
    (hpaths : ∀ e ∈ before ++ event :: after, ∀ q, e.writtenPath = some q → StoragePath q)
    (hbefore : run step (start replicationFactor) before = some s)
    (hafter : run step s (event :: after) = some t)
    (hacked : s.acked event = some (p, fileData))
    (hwritten : ∀ e ∈ after, e.writtenPath ≠ some p)
    (hevicted : ∀ e ∈ after, ∀ n, e.evicted = some n → n ∈ failed)
    (hserved : ∀ n session, (t.sys.rm.holders p)[n]? = some session → n ∉ failed →
      answer n session = .served)
    (hfew : failed.length < s.sys.acksNeeded event) :
    t.sys.rm.readFromHolders (t.sys.holderReply answer p) p = some fileData := by
  have hpath : StoragePath p := hpaths event (by simp) p (acked_writtenPath hacked)
  rw [← System.getFileFromDataNode_eq t.sys answer hpath.word]
  obtain ⟨hclean, hrest⟩ := hclean.split
  have hmeets := hrest s hbefore
  obtain ⟨u, hu, hafter⟩ := run_cons hafter
  have hcurrent : s.Current :=
    run_invariant (fun s e t => current_step s e t) (current_start replicationFactor) hclean hbefore
  -- of the datanodes that have ACKed, one has not failed
  obtain ⟨version, hversion, names, hnodup, hlength, hkeeps⟩ := keeps_write hacked
  obtain ⟨n, hn, halive⟩ : ∃ n ∈ names, n ∉ failed := by
    by_contra! hall
    have := (hnodup.subperm hall).length_le
    omega
  have hlasts : Lasts p ⟨fileData, version⟩ n u := by
    refine ⟨current_step s event u hcurrent hmeets.1 hu, ?_, ?_, ?_⟩ <;>
      obtain rfl := Option.some.inj hu
    · simp [hacked]
    · exact hversion
    · exact hkeeps n hn
  -- it keeps its copy until the read
  have hquiet : ∀ e ∈ after, e.writtenPath ≠ some p ∧ e.evicted ≠ some n := fun e he =>
    ⟨hwritten e he, fun hgone => halive (hevicted e he n hgone)⟩
  have hend : Lasts p ⟨fileData, version⟩ n t :=
    run_invariant (fun s e t h hC => h.step hC.1 hC.2.1 hC.2.2) hlasts
      ((hmeets.2 u hu).and_forall hquiet) hafter
  exact hend.read fun session hsession => hserved n session hsession halive

/-- Three datanodes and a replication factor of 3: `f` is created with three ACKs where two are
needed, the first datanode is evicted, and a read returns the bytes from the others. -/
theorem acked_write_survives_eviction :
    let answer : Bytes → SessionId → ReadAnswer := fun n _ => if n = [97] then .dead else .served
    let rebalance : System.RebalanceAnswers := ⟨fun _ _ _ => .nack, fun _ _ _ => .dead⟩
    let before : List ServerEvent :=
      [.register [97] 0 ∅ [], .register [98] 1 ∅ [], .register [99] 2 ∅ []]
    let create : ServerEvent :=
      .create [102] 1 [120] [121] (fun _ _ => .acked) (fun _ _ => .acked)
    let after : List ServerEvent := [.loseEndpoint [97], .evict [97] rebalance]
    ∃ t, run step (start 3) (before ++ create :: after) = some t ∧
      t.sys.rm.readFromHolders (t.sys.holderReply answer [102]) [102] = some [121] := by
  intro answer rebalance before create after
  obtain ⟨s, hs⟩ : ∃ s, run step (start 3) before = some s := ⟨_, rfl⟩
  have hs' := Option.some.inj hs
  have hcommit : s.sys.createCommits [102] 1 [121] (fun _ _ => .acked) = true := by
    subst hs'
    decide +kernel
  have hnone : s.sys.rm.persistedVersionMap = ∅ := by
    subst hs'
    rfl
  have hversions : ∀ (p : Bytes) (v : Int32),
      (s.sys.step create).rm.persistedVersionMap[p]? = some v → p = [102] := by
    intro p v hv
    rw [System.step, System.persistedVersionMap_create, if_pos hcommit, hnone] at hv
    by_contra hp
    simp [Ne.symm hp] at hv
  obtain ⟨t, ht⟩ : ∃ t, run step s (create :: after) = some t := ⟨_, rfl⟩
  have hclean : Meets step (fun s e => LeavesNoTrace s.sys e) (start 3)
      (before ++ create :: after) := by
    have hempty : ∀ name session sys, LeavesNoTrace sys (.register name session ∅ []) := by
      intro name session sys p v hv
      simp at hv
    have hrest : Meets step (fun s e => LeavesNoTrace s.sys e) s (create :: after) := by
      refine Meets.cons rfl ?_ (Meets.cons rfl True.intro (Meets.cons rfl ⟨?_, ?_⟩ True.intro))
      · rw [LeavesNoTrace, if_pos hcommit, hnone]
        exact ⟨by decide, by simp⟩
      · intro p v hv
        rw [hversions p v hv]
        decide +kernel
      · intro target _ source session rest _ hread
        simp [rebalance] at hread
    subst hs'
    exact Meets.cons rfl (hempty _ _ _) (Meets.cons rfl (hempty _ _ _)
      (Meets.cons rfl (hempty _ _ _) hrest))
  refine ⟨t, (run_append hs).trans ht, ?_⟩
  have hpaths : ∀ e ∈ before ++ create :: after, ∀ q, e.writtenPath = some q → StoragePath q := by
    simp only [before, create, after, List.cons_append, List.nil_append, List.forall_mem_cons,
      ServerEvent.writtenPath, reduceCtorEq, Option.some.injEq, forall_eq', false_imp_iff,
      implies_true, List.not_mem_nil, true_and, and_true]
    exact ⟨by decide, by decide, by decide⟩
  refine acked_write_survives 3 before after create s t [102] [121] [[97]] answer hclean hpaths hs
    ht ?_ ?_ ?_ ?_ ?_
  · subst hs'; decide +kernel
  · decide
  · simp [after, ServerEvent.evicted]
  · intro n session _ hn
    simp at hn
    simp [answer, hn]
  · subst hs'; decide +kernel

end Squid
