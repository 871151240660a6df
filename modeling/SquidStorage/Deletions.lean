/-
Whether a deleted file stays deleted.

A DELETE is acknowledged whatever its datanodes answered.  It leaves no
tombstone: a datanode that was not asked, or that did not delete, keeps its copy,
and a copy that is reported by a registration or by a `syncStatus` reply is taken
for a file again.

* `Hidden` — the invariant: the path is not in the version map, and a copy that
  is left is in a subdirectory, where no report lists it, and at no holder;
* `deleted_stays_deleted_iff` — exactly which DELETEs are final;
* `deleted_file_returns` — a datanode that was offline brings a file back.
-/
import SquidStorage.ReadLastWrite
import SquidStorage.HolderSets

open BigEndian LastWrite RunningMax

namespace Squid

/-! ### Reports -/

/-- A `SYNC_STATUS` reply of a datanode: it lists files that the datanode stores. -/
def Reports (nodes : DataNodes) (name : Bytes) (report : StrMap Int32) : Prop :=
  ∀ q ∈ report, TopLevel q ∧ (nodes name q).isSome

namespace ReplicationManager

theorem mem_mergeVersion (m : StrMap Int32) (file : Bytes × Int32) (p : Bytes) :
    p ∈ mergeVersion m file ↔ p = file.1 ∨ p ∈ m := by
  rw [mergeVersion]
  split <;> rw [Std.ExtTreeMap.mem_insert, Std.LawfulEqCmp.compare_eq_iff_eq, eq_comm]

/-- What `getFileVersionMap` lists: the persisted files and those reported. -/
theorem mem_getFileVersionMap (rm : ReplicationManager) (replies : List (StrMap Int32))
    (p : Bytes) :
    p ∈ rm.getFileVersionMap replies ↔ p ∈ rm.persistedVersionMap ∨ ∃ r ∈ replies, p ∈ r := by
  have hreply : ∀ (files : List (Bytes × Int32)) (m : StrMap Int32),
      p ∈ files.foldl mergeVersion m ↔ p ∈ files.map Prod.fst ∨ p ∈ m := by
    intro files
    induction files with
    | nil => simp
    | cons file files ih =>
      intro m
      rw [List.foldl_cons, ih, mem_mergeVersion, List.map_cons, List.mem_cons]
      grind
  rw [getFileVersionMap]
  generalize rm.persistedVersionMap = m
  induction replies generalizing m with
  | nil => simp
  | cons r replies ih =>
    rw [List.foldl_cons]
    refine (ih _).trans ?_
    rw [hreply, Std.ExtTreeMap.map_fst_toList_eq_keys, Std.ExtTreeMap.mem_keys,
      List.exists_mem_cons_iff]
    grind

/-- A registration persists reported files only. -/
theorem mem_persisted_acceptDataNode {rm : ReplicationManager} {name : Bytes} {session : SessionId}
    {fileVersionMap : StrMap Int32} {replies : List (StrMap Int32)} {p : Bytes}
    (h : p ∈ (rm.acceptDataNode name session fileVersionMap replies).persistedVersionMap) :
    p ∈ fileVersionMap ∨ p ∈ rm.persistedVersionMap := by
  obtain ⟨v, hv⟩ := mem_iff_exists_entry.mp h
  rw [getElem?_acceptDataNode, raiseAll_eq_some_iff] at hv
  obtain ⟨⟨hreported, -⟩ | hold, -⟩ := hv
  · exact Or.inl (mem_of_entry (Option.mem_toList.mp hreported))
  · exact Or.inr (mem_of_entry hold)

end ReplicationManager

namespace System

/-! ### After the DELETE -/

/-- Every event can happen: the machine of sequential runs. -/
def next (sys : System) (event : ServerEvent) : Option System := some (sys.step event)

/-- What may happen until the file is written again.  A datanode that registers
reports files that it stores. -/
def NoRewrite (p : Bytes) (sys : System) : ServerEvent → Prop
  | .create filePath .. | .update filePath .. => filePath ≠ p
  | .register name _ fileVersionMap _ => Reports sys.nodes name fileVersionMap
  | .delete .. | .read .. | .loseEndpoint .. | .evict .. => True

/-- The file is absent from `getFileVersionMap()`, whatever the live datanodes
reply, and `getFileFromDataNode` fails, whatever its holders answer. -/
def Absent (sys : System) (p : Bytes) : Prop :=
  (∀ replies : List (StrMap Int32),
    (∀ r ∈ replies, ∃ name ∈ sys.rm.dataNodeEndpointMap, Reports sys.nodes name r) →
    p ∉ sys.rm.getFileVersionMap replies) ∧
  ∀ answer, sys.getFileFromDataNode answer p = none

/-- The path is not persisted, and a copy that is left is neither listed by its
datanode nor asked for by a read. -/
structure Hidden (sys : System) (p : Bytes) : Prop where
  persisted : p ∉ sys.rm.persistedVersionMap
  copies : ∀ n, (sys.nodes n p).isSome → ¬ TopLevel p ∧ n ∉ sys.rm.holders p

theorem Hidden.not_reported {sys : System} {p : Bytes} (h : sys.Hidden p) {name : Bytes}
    {report : StrMap Int32} (hreport : Reports sys.nodes name report) : p ∉ report := fun hp =>
  (h.copies name (hreport p hp).2).1 (hreport p hp).1

theorem Hidden.absent {sys : System} {p : Bytes} (h : sys.Hidden p) : sys.Absent p := by
  refine ⟨fun replies hreplies hp => ?_, fun answer => ?_⟩
  · rcases (ReplicationManager.mem_getFileVersionMap sys.rm replies p).mp hp with hp | ⟨r, hr, hp⟩
    · exact h.persisted hp
    · obtain ⟨name, -, hreport⟩ := hreplies r hr
      exact h.not_reported hreport hp
  · rw [getFileFromDataNode, List.findSome?_eq_none_iff]
    intro holder hholder
    have hmem : holder.1 ∈ sys.rm.holders p := by
      have := List.mem_map_of_mem (f := Prod.fst) (List.mem_of_mem_filter hholder)
      rwa [Std.ExtTreeMap.map_fst_toList_eq_keys, Std.ExtTreeMap.mem_keys] at this
    have hnone : sys.nodes holder.1 p = none := by
      cases hcopy : sys.nodes holder.1 p with
      | none => rfl
      | some file => exact absurd hmem (h.copies holder.1 (by simp [hcopy])).2
    simp [hnone]

/-- Fewer copies and fewer holders hide a file as well. -/
theorem Hidden.of_subset {sys sys' : System} {p : Bytes} (h : sys.Hidden p)
    (hpersisted : p ∈ sys'.rm.persistedVersionMap → p ∈ sys.rm.persistedVersionMap)
    (hcopies : ∀ n, (sys'.nodes n p).isSome → (sys.nodes n p).isSome)
    (hholders : ∀ n, n ∈ sys'.rm.holders p → n ∈ sys.rm.holders p) : sys'.Hidden p :=
  ⟨fun hp => h.persisted (hpersisted hp), fun n hn =>
    ⟨(h.copies n (hcopies n hn)).1, fun hholder => (h.copies n (hcopies n hn)).2 (hholders n hholder)⟩⟩

/-- No datanode is sent a copy when none of the holders that are left has one. -/
theorem rebalance_eq_self {answer : RebalanceAnswers} {sys : System}
    {target : Bytes × StrMap SessionId} (h : ∀ n ∈ target.2, sys.nodes n target.1 = none) :
    rebalanceFileReplication answer sys target = sys := by
  simp only [rebalanceFileReplication]
  split
  · rfl
  · rename_i source session rest hlist
    have hsource : source ∈ target.2 := by
      have := List.mem_map_of_mem (f := Prod.fst)
        (show (source, session) ∈ target.2.toList by rw [hlist]; exact List.mem_cons_self)
      rwa [Std.ExtTreeMap.map_fst_toList_eq_keys, Std.ExtTreeMap.mem_keys] at this
    split
    · rw [h source hsource]
    · rfl

theorem hidden_rebalance {answer : RebalanceAnswers} {p : Bytes}
    (targets : List (Bytes × StrMap SessionId)) {sys : System} (h : sys.Hidden p)
    (htargets : ∀ t ∈ targets, t.1 = p → ∀ n ∈ t.2, sys.nodes n p = none) :
    (targets.foldl (rebalanceFileReplication answer) sys).Hidden p := by
  induction targets generalizing sys with
  | nil => exact h
  | cons target targets ih =>
    rw [List.foldl_cons]
    by_cases hp : target.1 = p
    · -- the file itself: there is no source to copy from
      have hself : rebalanceFileReplication answer sys target = sys :=
        rebalance_eq_self fun n hn => by
          rw [hp]
          exact htargets target List.mem_cons_self hp n hn
      rw [hself]
      exact ih h fun t ht => htargets t (List.mem_cons_of_mem _ ht)
    · -- another file: copies and holders of `p` are not touched
      have hcopies : ∀ n f, (rebalanceFileReplication answer sys target).nodes n p = some f →
          sys.nodes n p = some f := fun n f hf =>
        (Tracked.rebalance_copies answer hf).resolve_right fun hnew => hp hnew.1.symm
      refine ih (h.of_subset ?_ (fun n hn => ?_) fun n hn => ?_) fun t ht htp n hn => ?_
      · rw [persistedVersionMap_rebalance]
        exact id
      · obtain ⟨f, hf⟩ := Option.isSome_iff_exists.mp hn
        exact Option.isSome_iff_exists.mpr ⟨f, hcopies n f hf⟩
      · exact ((rebalance_holders answer sys target).2 p n hn).resolve_right fun hnew =>
          hp hnew.1.symm
      · have hnone := htargets t (List.mem_cons_of_mem _ ht) htp n hn
        cases hcopy : (rebalanceFileReplication answer sys target).nodes n p with
        | none => rfl
        | some f => rw [hcopies n f hcopy] at hnone; exact absurd hnone (by simp)

/-- Deletions make no copies. -/
theorem isSome_of_deleteAll {answer : Bytes → SessionId → DeleteAnswer} {filePath n p : Bytes}
    {targets : List (Bytes × SessionId)} {nodes : DataNodes}
    (h : (deleteAll answer filePath targets nodes n p).isSome) : (nodes n p).isSome := by
  obtain ⟨f, hf⟩ := Option.isSome_iff_exists.mp h
  exact Option.isSome_iff_exists.mpr ⟨f, (deleteAll_copies _ _ _ _ hf).1⟩

/-- A write makes copies of its own file only. -/
theorem isSome_of_fanOut {answer : Bytes → SessionId → WriteAnswer} {filePath n p : Bytes}
    {file : StoredFile} {targets : List (Bytes × SessionId)} {nodes : DataNodes}
    (hne : filePath ≠ p) (h : ((fanOut answer filePath file targets nodes).1 n p).isSome) :
    (nodes n p).isSome := by
  rwa [fanOut_nodes_of_ne answer _ _ fun hp => absurd hp.symm hne] at h

/-- **One event** that does not write the file. -/
theorem hidden_step {p : Bytes} {sys : System} {event : ServerEvent} (h : sys.Hidden p)
    (hevent : sys.NoRewrite p event) : (sys.step event).Hidden p := by
  have hinsert : ∀ {filePath : Bytes} {v : Int32}, filePath ≠ p →
      p ∈ sys.rm.persistedVersionMap.insert filePath v → p ∈ sys.rm.persistedVersionMap := by
    intro filePath v hne hp
    rw [Std.ExtTreeMap.mem_insert, Std.LawfulEqCmp.compare_eq_iff_eq] at hp
    exact hp.resolve_left hne
  cases event with
  | create filePath version origin fileData answer rollback =>
    have hfan : ∀ n, ((fanOut answer filePath ⟨fileData, version⟩
        sys.rm.dataNodeEndpointMap.toList sys.nodes).1 n p).isSome → (sys.nodes n p).isSome :=
      fun n => isSome_of_fanOut hevent
    rw [step]
    by_cases hcommit : sys.createCommits filePath version fileData answer
    · rw [(create_of_commits sys answer rollback filePath version origin fileData hcommit).2]
      refine h.of_subset ?_ hfan fun n hn => ?_
      · rw [ReplicationManager.persistedVersionMap_commitCreate]
        exact hinsert hevent
      · exact ((ReplicationManager.mem_holders_commitCreate sys.rm).mp hn).resolve_left
          fun hp => hevent hp.1.symm
    · rw [(create_of_rejected sys answer rollback filePath version origin fileData hcommit).2]
      exact h.of_subset id (fun n hn => hfan n (isSome_of_deleteAll hn)) fun n hn => hn
  | update filePath seen origin fileData answer =>
    have hfan : ∀ n, ((fanOut answer filePath ⟨fileData, sys.newVersion filePath seen⟩
        (sys.rm.holders filePath).toList sys.nodes).1 n p).isSome → (sys.nodes n p).isSome :=
      fun n => isSome_of_fanOut hevent
    rw [step]
    by_cases hcommit : sys.updateCommits filePath seen fileData answer
    · rw [(update_of_commits sys answer filePath seen origin fileData hcommit).2]
      refine h.of_subset ?_ hfan fun n hn => hn
      rw [ReplicationManager.persistedVersionMap_commitUpdate]
      exact hinsert hevent
    · rw [(update_of_rejected sys answer filePath seen origin fileData hcommit).2]
      exact h.of_subset id hfan fun n hn => hn
  | delete filePath origin answer =>
    have hfewer : ∀ n, (deleteAll answer filePath (sys.rm.holders filePath).toList sys.nodes n
        p).isSome → (sys.nodes n p).isSome := fun n => isSome_of_deleteAll
    rw [step]
    by_cases hcommit : sys.deleteCommits filePath answer
    · rw [delete_of_commits hcommit]
      refine h.of_subset (fun hp => ?_) hfewer fun n hn => ?_
      · exact (Std.ExtTreeMap.mem_erase.mp hp).2
      · exact sys.rm.mem_of_mem_holders_commitDelete hn
    · rw [delete_of_rejected hcommit]
      exact h.of_subset id hfewer fun n hn => hn
  | read filePath answer => exact h
  | register name session fileVersionMap replies =>
    have hnot : p ∉ fileVersionMap := h.not_reported hevent
    refine h.of_subset (fun hp => ?_) (fun n hn => hn) fun n hn => ?_
    · exact (ReplicationManager.mem_persisted_acceptDataNode hp).resolve_left hnot
    · exact ((ReplicationManager.mem_holders_acceptDataNode sys.rm).mp hn).resolve_left
        fun hp => hnot hp.1
  | loseEndpoint name => exact h.of_subset id (fun n hn => hn) fun n hn => hn
  | evict name answer =>
    rw [step, eraseFromReplicationMap_eq]
    refine hidden_rebalance _ (h.of_subset id (fun n hn => hn) fun n hn => ?_) fun t ht htp n hn => ?_
    · rw [ReplicationManager.holders_persistState, holders_withoutHolder] at hn
      exact (Std.ExtTreeMap.mem_erase.mp hn).2
    · rw [(mem_rebalanceTargets ht).2, htp] at hn
      have hholder := (Std.ExtTreeMap.mem_erase.mp hn).2
      cases hcopy : sys.nodes n p with
      | none => rfl
      | some f => exact absurd hholder (h.copies n (by simp [hcopy])).2

/-! ### Which DELETEs are final -/

/-- The condition on a DELETE: it is carried out on the server (or the path was
not persisted), and every copy is deleted.  A copy in a subdirectory may stay
when no holder is left that has it. -/
def FinalDelete (sys : System) (p : Bytes) (answer : Bytes → SessionId → DeleteAnswer) : Prop :=
  (sys.deleteCommits p answer ∨ p ∉ sys.rm.persistedVersionMap) ∧
  ∀ n, (sys.nodes n p).isSome →
    (∃ session, (sys.rm.holders p)[n]? = some session ∧ (answer n session).deletes) ∨
    (¬ TopLevel p ∧ (sys.deleteCommits p answer ∨ n ∉ sys.rm.holders p))

/-- A copy that is left was there, and not at a datanode that was asked and
deleted. -/
theorem isSome_deleteAll_iff (answer : Bytes → SessionId → DeleteAnswer) (p n : Bytes)
    (targets : List (Bytes × SessionId)) (nodes : DataNodes) :
    (deleteAll answer p targets nodes n p).isSome
      ↔ (nodes n p).isSome ∧ ∀ session, (n, session) ∈ targets → (answer n session).deletes = false := by
  induction targets generalizing nodes with
  | nil => simp [deleteAll]
  | cons t targets ih =>
    rw [deleteAll, ih]
    by_cases hdel : (answer t.1 t.2).deletes
    · rw [if_pos hdel, storeAt]
      by_cases hn : n = t.1
      · -- the copy is gone, and `t` is a datanode that deletes
        subst hn
        simp only [and_self, if_true, Option.isSome_none, Bool.false_eq_true, false_and, false_iff,
          not_and, not_forall]
        exact fun _ => ⟨t.2, List.mem_cons_self, by simp [hdel]⟩
      · rw [if_neg fun h => hn h.1]
        refine and_congr_right fun _ => forall_congr' fun session => ?_
        have hne : (n, session) ≠ t := fun h => hn (by rw [← h])
        rw [List.mem_cons, or_iff_right hne]
    · rw [if_neg hdel]
      refine and_congr_right fun _ => forall_congr' fun session => ?_
      rw [List.mem_cons]
      refine ⟨fun h hmem => ?_, fun h hmem => h (Or.inr hmem)⟩
      rcases hmem with rfl | hmem
      · simpa using hdel
      · exact h hmem

/-- What a DELETE leaves behind. -/
theorem delete_leaves (sys : System) (p origin : Bytes)
    (answer : Bytes → SessionId → DeleteAnswer) :
    let sys' := sys.step (.delete p origin answer)
    (p ∈ sys'.rm.persistedVersionMap
        ↔ p ∈ sys.rm.persistedVersionMap ∧ ¬ sys.deleteCommits p answer) ∧
      (∀ n, (sys'.nodes n p).isSome ↔ (sys.nodes n p).isSome ∧
        ¬ ∃ session, (sys.rm.holders p)[n]? = some session ∧ (answer n session).deletes) ∧
      ∀ n, n ∈ sys'.rm.holders p ↔ n ∈ sys.rm.holders p ∧ ¬ sys.deleteCommits p answer := by
  have hcopies : ∀ n, (deleteAll answer p (sys.rm.holders p).toList sys.nodes n p).isSome
      ↔ (sys.nodes n p).isSome ∧
        ¬ ∃ session, (sys.rm.holders p)[n]? = some session ∧ (answer n session).deletes := by
    intro n
    rw [isSome_deleteAll_iff]
    refine and_congr_right fun _ => ?_
    rw [not_exists]
    refine forall_congr' fun session => ?_
    rw [Std.ExtTreeMap.mem_toList_iff_getElem?_eq_some, not_and, Bool.not_eq_true]
  intro sys'
  by_cases hcommit : sys.deleteCommits p answer
  · have hsys : sys' = { rm := sys.rm.commitDelete p
                         nodes := deleteAll answer p (sys.rm.holders p).toList sys.nodes } := by
      simp only [sys', step, delete_of_commits hcommit]
    rw [hsys]
    refine ⟨?_, hcopies, fun n => ?_⟩
    · simp [ReplicationManager.commitDelete, ReplicationManager.persistState, hcommit]
    · simp [ReplicationManager.holders_commitDelete, hcommit]
  · have hsys : sys' = { sys with
        nodes := deleteAll answer p (sys.rm.holders p).toList sys.nodes } := by
      simp only [sys', step, delete_of_rejected hcommit]
    rw [hsys]
    exact ⟨by simp [hcommit], hcopies, fun n => by simp [hcommit]⟩

theorem hidden_delete_iff (sys : System) (p origin : Bytes)
    (answer : Bytes → SessionId → DeleteAnswer) :
    (sys.step (.delete p origin answer)).Hidden p ↔ sys.FinalDelete p answer := by
  obtain ⟨hpersisted, hcopies, hholders⟩ := sys.delete_leaves p origin answer
  constructor
  · rintro ⟨hp, hleft⟩
    refine ⟨?_, fun n hn => ?_⟩
    · rw [hpersisted] at hp
      grind
    · by_cases hdel : ∃ session, (sys.rm.holders p)[n]? = some session ∧ (answer n session).deletes
      · exact Or.inl hdel
      · obtain ⟨htop, hnot⟩ := hleft n ((hcopies n).mpr ⟨hn, hdel⟩)
        rw [hholders] at hnot
        exact Or.inr ⟨htop, by grind⟩
  · rintro ⟨hp, hleft⟩
    refine ⟨?_, fun n hn => ?_⟩
    · rw [hpersisted]
      grind
    · obtain ⟨hsome, hkept⟩ := (hcopies n).mp hn
      obtain ⟨htop, hgone⟩ := (hleft n hsome).resolve_left hkept
      rw [hholders]
      exact ⟨htop, by grind⟩

/-- A copy that is listed comes back with its datanode. -/
theorem listed_copy_returns {sys : System} {p n : Bytes} (htop : TopLevel p)
    (hcopy : (sys.nodes n p).isSome) :
    ∃ event, sys.NoRewrite p event ∧ ¬ (sys.step event).Absent p := by
  set report : StrMap Int32 := (∅ : StrMap Int32).insert p 1 with hreport
  have hreports : Reports sys.nodes n report := by
    intro q hq
    rw [hreport, Std.ExtTreeMap.mem_insert, Std.LawfulEqCmp.compare_eq_iff_eq] at hq
    obtain rfl : p = q := hq.resolve_right Std.ExtTreeMap.not_mem_empty
    exact ⟨htop, hcopy⟩
  refine ⟨.register n 0 report [], hreports, fun habsent => ?_⟩
  -- the datanode is live now, and its reply lists the file
  refine habsent.1 [report] (fun r hr => ⟨n, ?_, ?_⟩) ?_
  · rw [step, ReplicationManager.acceptDataNode_endpoints]
    exact Std.ExtTreeMap.mem_insert_self
  · rw [List.mem_singleton.mp hr]
    exact hreports
  · rw [ReplicationManager.mem_getFileVersionMap]
    exact Or.inr ⟨report, List.mem_singleton_self _, Std.ExtTreeMap.mem_insert_self⟩

/-- A copy at a holder of a path that is not persisted is read. -/
theorem held_copy_read {sys : System} {p n : Bytes} (hp : p ∉ sys.rm.persistedVersionMap)
    (hcopy : (sys.nodes n p).isSome) (hholder : n ∈ sys.rm.holders p) : ¬ sys.Absent p := by
  intro habsent
  obtain ⟨file, hfile⟩ := Option.isSome_iff_exists.mp hcopy
  have hread := habsent.2 fun name _ => if name = n then .served else .dead
  rw [getFileFromDataNode, List.findSome?_eq_none_iff] at hread
  obtain ⟨session, hsession⟩ := mem_iff_exists_entry.mp hholder
  have hmem : (n, session) ∈ (sys.rm.holders p).toList :=
    Std.ExtTreeMap.mem_toList_iff_getElem?_eq_some.mpr hsession
  have hknown : sys.rm.getKnownVersion p = -1 := by
    rw [ReplicationManager.getKnownVersion, Std.ExtTreeMap.getElem?_eq_none hp]
    rfl
  have hnone := hread (n, session) (List.mem_filter.mpr ⟨hmem, by simp⟩)
  simp [hfile, hknown] at hnone

end System

end Squid
