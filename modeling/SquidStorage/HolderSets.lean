/-
Who holds a file: the names in `dataNodeReplicationMap_`.

Five operations write the map: a committed CREATE adds the datanodes that ACKed,
a committed DELETE takes the path out, a registration adds the datanode to every
path it reports, and an eviction takes a datanode out of every path and may put
others in when it rebalances.  For each of them, `mem_holders_*` says who holds a
path afterwards.
-/
import SquidStorage.ReplicationRuns

open BigEndian LastWrite

namespace Squid

namespace ReplicationManager

variable (rm : ReplicationManager)

theorem holders_eq {rm rm' : ReplicationManager}
    (h : rm'.dataNodeReplicationMap = rm.dataNodeReplicationMap) (p : Bytes) :
    rm'.holders p = rm.holders p := by
  rw [holders, holders, h]

/-- A path with a holder has an entry. -/
theorem listed_of_mem_holders {p n : Bytes} (h : n ∈ rm.holders p) :
    p ∈ rm.dataNodeReplicationMap := by
  by_contra hp
  rw [holders, no_entry_iff.mpr hp] at h
  simp at h

@[simp] theorem holders_persistState (p : Bytes) : rm.persistState.holders p = rm.holders p := rfl

theorem mem_holders_addHolder {filePath name : Bytes} {session : SessionId} {p n : Bytes} :
    n ∈ (rm.addHolder filePath name session).holders p
      ↔ (p = filePath ∧ n = name) ∨ n ∈ rm.holders p := by
  by_cases hp : filePath = p
  · subst hp
    simp only [addHolder, holders, Std.ExtTreeMap.getElem?_insert_self, Option.getD_some,
      Std.ExtTreeMap.mem_insert, Std.LawfulEqCmp.compare_eq_iff_eq, true_and]
    rw [eq_comm]
  · have hother : (rm.addHolder filePath name session).holders p = rm.holders p := by
      simp [addHolder, holders, Std.ExtTreeMap.getElem?_insert, hp]
    simp [hother, Ne.symm hp]

theorem mem_holders_addHolders {filePath : Bytes} {nodes : List (Bytes × SessionId)} {p n : Bytes} :
    n ∈ (rm.addHolders filePath nodes).holders p
      ↔ (p = filePath ∧ n ∈ nodes.map Prod.fst) ∨ n ∈ rm.holders p := by
  induction nodes generalizing rm with
  | nil => simp [addHolders]
  | cons node nodes ih =>
    rw [addHolders, List.foldl_cons]
    refine (ih _).trans ?_
    rw [mem_holders_addHolder, List.map_cons, List.mem_cons]
    grind

theorem mem_holders_commitCreate {filePath : Bytes} {version : Int32}
    {nodes : List (Bytes × SessionId)} {p n : Bytes} :
    n ∈ (rm.commitCreate filePath version nodes).holders p
      ↔ (p = filePath ∧ n ∈ nodes.map Prod.fst) ∨ n ∈ rm.holders p :=
  mem_holders_addHolders rm

theorem holders_commitDelete (filePath p : Bytes) :
    (rm.commitDelete filePath).holders p = if filePath = p then ∅ else rm.holders p := by
  show (rm.dataNodeReplicationMap.erase filePath)[p]?.getD ∅ = _
  rw [Std.ExtTreeMap.getElem?_erase]
  by_cases hp : filePath = p
  · simp [hp]
  · simp [hp, holders]

theorem mem_of_mem_holders_commitDelete {filePath p n : Bytes}
    (h : n ∈ (rm.commitDelete filePath).holders p) : n ∈ rm.holders p := by
  rw [holders_commitDelete] at h
  split at h
  · simp at h
  · exact h

theorem mem_holders_registerFile {name : Bytes} {session : SessionId} {file : Bytes × Int32}
    {p n : Bytes} :
    n ∈ (registerFile name session rm file).holders p
      ↔ (p = file.1 ∧ n = name) ∨ n ∈ rm.holders p := by
  rw [← mem_holders_addHolder rm]
  simp only [registerFile]
  split <;> rfl

theorem mem_holders_registerFiles {name : Bytes} {session : SessionId}
    {files : List (Bytes × Int32)} {p n : Bytes} :
    n ∈ (files.foldl (registerFile name session) rm).holders p
      ↔ (p ∈ files.map Prod.fst ∧ n = name) ∨ n ∈ rm.holders p := by
  induction files generalizing rm with
  | nil => simp
  | cons file files ih =>
    rw [List.foldl_cons, ih, mem_holders_registerFile, List.map_cons, List.mem_cons]
    grind

theorem buildFileLockMap_keeps (replies : List (StrMap Int32)) :
    (rm.buildFileLockMap replies).dataNodeReplicationMap = rm.dataNodeReplicationMap ∧
      (rm.buildFileLockMap replies).dataNodeEndpointMap = rm.dataNodeEndpointMap := by
  obtain ⟨locks, text, hframe⟩ := rm.buildFileLockMap_frame replies
  rw [hframe]
  exact ⟨rfl, rfl⟩

theorem mem_holders_acceptDataNode {name : Bytes} {session : SessionId}
    {fileVersionMap : StrMap Int32} {replies : List (StrMap Int32)} {p n : Bytes} :
    n ∈ (rm.acceptDataNode name session fileVersionMap replies).holders p
      ↔ (p ∈ fileVersionMap ∧ n = name) ∨ n ∈ rm.holders p := by
  have hkeys : p ∈ fileVersionMap.toList.map Prod.fst ↔ p ∈ fileVersionMap := by
    rw [Std.ExtTreeMap.map_fst_toList_eq_keys, Std.ExtTreeMap.mem_keys]
  rw [acceptDataNode, holders_eq (buildFileLockMap_keeps _ replies).1, registerDataNodeFiles,
    holders_persistState, mem_holders_registerFiles, hkeys]
  rfl

theorem registerFiles_endpoints {name : Bytes} {session : SessionId}
    (files : List (Bytes × Int32)) :
    (files.foldl (registerFile name session) rm).dataNodeEndpointMap = rm.dataNodeEndpointMap := by
  obtain ⟨holders, versions, text, hframe⟩ := rm.registerFiles_frame name session files
  rw [hframe]

theorem acceptDataNode_endpoints (name : Bytes) (session : SessionId)
    (fileVersionMap : StrMap Int32) (replies : List (StrMap Int32)) :
    (rm.acceptDataNode name session fileVersionMap replies).dataNodeEndpointMap
      = rm.dataNodeEndpointMap.insert name session := by
  rw [acceptDataNode, (buildFileLockMap_keeps _ replies).2, registerDataNodeFiles]
  exact registerFiles_endpoints _ _

theorem addHolders_endpoints (filePath : Bytes) (nodes : List (Bytes × SessionId)) :
    (rm.addHolders filePath nodes).dataNodeEndpointMap = rm.dataNodeEndpointMap := by
  rw [addHolders_eq]

/-! ### The sessions of the holders -/

theorem getElem?_holders_addHolder (filePath name : Bytes) (session : SessionId) (p n : Bytes) :
    ((rm.addHolder filePath name session).holders p)[n]?
      = if filePath = p ∧ name = n then some session else (rm.holders p)[n]? := by
  by_cases hp : filePath = p
  · subst hp
    simp only [addHolder, holders, Std.ExtTreeMap.getElem?_insert_self, Option.getD_some,
      Std.ExtTreeMap.getElem?_insert, Std.LawfulEqCmp.compare_eq_iff_eq, true_and]
  · have hother : (rm.addHolder filePath name session).holders p = rm.holders p := by
      simp [addHolder, holders, Std.ExtTreeMap.getElem?_insert, hp]
    rw [hother, if_neg (fun h => hp h.1)]

/-- A session among the holders was there before or has been added. -/
theorem session_addHolders {filePath : Bytes} {nodes : List (Bytes × SessionId)} {p n : Bytes}
    {session : SessionId} (h : ((rm.addHolders filePath nodes).holders p)[n]? = some session) :
    (p = filePath ∧ (n, session) ∈ nodes) ∨ (rm.holders p)[n]? = some session := by
  induction nodes generalizing rm with
  | nil => exact Or.inr h
  | cons node nodes ih =>
    rw [addHolders, List.foldl_cons] at h
    rcases ih _ h with ⟨hp, hmem⟩ | hold
    · exact Or.inl ⟨hp, List.mem_cons_of_mem _ hmem⟩
    · rw [getElem?_holders_addHolder] at hold
      split at hold
      · rename_i hnode
        obtain rfl := Option.some.inj hold
        exact Or.inl ⟨hnode.1.symm, hnode.2 ▸ List.mem_cons_self⟩
      · exact Or.inr hold

/-- A session that nothing else is written over stays. -/
theorem session_addHolders_of_keeps {filePath : Bytes} {nodes : List (Bytes × SessionId)}
    {p n : Bytes} {session : SessionId} (hold : (rm.holders p)[n]? = some session)
    (hkeeps : ∀ other, p = filePath → (n, other) ∈ nodes → other = session) :
    ((rm.addHolders filePath nodes).holders p)[n]? = some session := by
  induction nodes generalizing rm with
  | nil => exact hold
  | cons node nodes ih =>
    rw [addHolders, List.foldl_cons]
    refine ih _ ?_ fun other hp hmem => hkeeps other hp (List.mem_cons_of_mem _ hmem)
    rw [getElem?_holders_addHolder]
    split
    · rename_i hnode
      rw [hkeeps node.2 hnode.1.symm (hnode.2 ▸ List.mem_cons_self)]
    · exact hold

/-- A registration puts its own session under its own name. -/
theorem session_registerDataNodeFiles {name : Bytes} {session : SessionId}
    {fileVersionMap : StrMap Int32} {p n : Bytes} {new : SessionId}
    (h : ((rm.registerDataNodeFiles name session fileVersionMap).holders p)[n]? = some new) :
    (p ∈ fileVersionMap ∧ n = name ∧ new = session) ∨ (rm.holders p)[n]? = some new := by
  have hfiles : ∀ (files : List (Bytes × Int32)) (rm : ReplicationManager),
      ((files.foldl (registerFile name session) rm).holders p)[n]? = some new →
      (p ∈ files.map Prod.fst ∧ n = name ∧ new = session) ∨ (rm.holders p)[n]? = some new := by
    intro files
    induction files with
    | nil => exact fun rm h => Or.inr h
    | cons file files ih =>
      intro rm h
      rw [List.foldl_cons] at h
      rcases ih _ h with ⟨hp, hrest⟩ | hold
      · exact Or.inl ⟨List.mem_cons_of_mem _ hp, hrest⟩
      · have hone : (registerFile name session rm file).holders p
            = (rm.addHolder file.1 name session).holders p := by
          simp only [registerFile]
          split <;> rfl
        rw [hone, getElem?_holders_addHolder] at hold
        split at hold
        · rename_i hfile
          obtain rfl := Option.some.inj hold
          exact Or.inl ⟨hfile.1 ▸ List.mem_cons_self, hfile.2.symm, rfl⟩
        · exact Or.inr hold
  refine (hfiles _ rm h).imp_left ?_
  rintro ⟨hp, hrest⟩
  rw [Std.ExtTreeMap.map_fst_toList_eq_keys, Std.ExtTreeMap.mem_keys] at hp
  exact ⟨hp, hrest⟩

end ReplicationManager

namespace System

/-! ### Evictions -/

/-- A copied file is held by those it was held by and by candidates. -/
theorem session_copyToCandidates {answer : Bytes → SessionId → WriteAnswer} {factor : ℕ}
    {filePath : Bytes} {file : StoredFile} {candidates : List (Bytes × SessionId)}
    {holders : StrMap SessionId} {nodes : DataNodes} {n : Bytes} {session : SessionId}
    (h : (copyToCandidates answer factor filePath file candidates holders nodes).1[n]?
      = some session) : holders[n]? = some session ∨ (n, session) ∈ candidates := by
  induction candidates generalizing holders nodes with
  | nil => exact Or.inl h
  | cons c candidates ih =>
    have hone : (holders.insert c.1 c.2)[n]? = some session →
        holders[n]? = some session ∨ (n, session) ∈ c :: candidates := by
      simp only [Std.ExtTreeMap.getElem?_insert, Std.LawfulEqCmp.compare_eq_iff_eq]
      intro h
      split at h
      · rename_i hname
        obtain rfl := Option.some.inj h
        exact Or.inr (hname ▸ List.mem_cons_self)
      · exact Or.inl h
    simp only [copyToCandidates] at h
    split at h
    · split at h
      · exact hone h
      · rcases ih h with hnew | hrest
        · exact hone hnew
        · exact Or.inr (List.mem_cons_of_mem _ hrest)
    · exact (ih h).imp_right (List.mem_cons_of_mem _)

theorem mem_copyToCandidates {answer : Bytes → SessionId → WriteAnswer} {factor : ℕ}
    {filePath : Bytes} {file : StoredFile} {candidates : List (Bytes × SessionId)}
    {holders : StrMap SessionId} {nodes : DataNodes} {n : Bytes}
    (h : n ∈ (copyToCandidates answer factor filePath file candidates holders nodes).1) :
    n ∈ holders ∨ n ∈ candidates.map Prod.fst := by
  obtain ⟨session, hsession⟩ := mem_iff_exists_entry.mp h
  exact (session_copyToCandidates hsession).imp mem_of_entry List.mem_map_of_mem

/-- A rebalance adds holders to its own file only, from the endpoint map or from
those it was given. -/
theorem rebalance_holders (answer : RebalanceAnswers) (sys : System)
    (target : Bytes × StrMap SessionId) :
    (rebalanceFileReplication answer sys target).rm.dataNodeEndpointMap
        = sys.rm.dataNodeEndpointMap ∧
      ∀ p n, n ∈ (rebalanceFileReplication answer sys target).rm.holders p →
        n ∈ sys.rm.holders p ∨
          (p = target.1 ∧ (n ∈ target.2 ∨ n ∈ sys.rm.dataNodeEndpointMap)) := by
  simp only [rebalanceFileReplication]
  split
  · exact ⟨rfl, fun p n h => Or.inl h⟩
  · split
    · split
      · exact ⟨rfl, fun p n h => Or.inl h⟩
      · refine ⟨ReplicationManager.addHolders_endpoints _ _ _, fun p n h => ?_⟩
        rw [ReplicationManager.holders_persistState, ReplicationManager.mem_holders_addHolders,
          Std.ExtTreeMap.map_fst_toList_eq_keys, Std.ExtTreeMap.mem_keys] at h
        rcases h with ⟨hp, hn⟩ | h
        · refine Or.inr ⟨hp, (mem_copyToCandidates hn).imp_right fun hc => ?_⟩
          obtain ⟨e, he, rfl⟩ := List.mem_map.mp hc
          have hin := List.mem_map_of_mem (f := Prod.fst) (List.mem_of_mem_filter he)
          rwa [Std.ExtTreeMap.map_fst_toList_eq_keys, Std.ExtTreeMap.mem_keys] at hin
        · exact Or.inl h
    · exact ⟨rfl, fun p n h => Or.inl h⟩

theorem rebalance_all_holders (answer : RebalanceAnswers)
    (targets : List (Bytes × StrMap SessionId)) (sys : System) :
    (targets.foldl (rebalanceFileReplication answer) sys).rm.dataNodeEndpointMap
        = sys.rm.dataNodeEndpointMap ∧
      ∀ p n, n ∈ (targets.foldl (rebalanceFileReplication answer) sys).rm.holders p →
        n ∈ sys.rm.holders p ∨
          ∃ t ∈ targets, p = t.1 ∧ (n ∈ t.2 ∨ n ∈ sys.rm.dataNodeEndpointMap) := by
  induction targets generalizing sys with
  | nil => exact ⟨rfl, fun p n h => Or.inl h⟩
  | cons target targets ih =>
    obtain ⟨hends, hholders⟩ := rebalance_holders answer sys target
    obtain ⟨hends', hrest⟩ := ih (rebalanceFileReplication answer sys target)
    refine ⟨hends'.trans hends, fun p n h => ?_⟩
    rw [hends] at hrest
    rcases hrest p n h with hold | ⟨t, ht, hp, hn⟩
    · exact (hholders p n hold).imp_right fun hnew => ⟨target, List.mem_cons_self, hnew⟩
    · exact Or.inr ⟨t, List.mem_cons_of_mem _ ht, hp, hn⟩

/-- **What is rebalanced** has lost the evicted holder and has fewer than
`replicationFactor / 2 + 1` left. -/
theorem mem_rebalanceTargets_iff {rm : ReplicationManager} {name : Bytes}
    {target : Bytes × StrMap SessionId} :
    target ∈ rebalanceTargets rm name ↔ name ∈ rm.holders target.1 ∧
      target.2 = (rm.holders target.1).erase name ∧ target.2.size < rm.quorum := by
  obtain ⟨p, left⟩ := target
  rw [rebalanceTargets, List.mem_filterMap]
  constructor
  · rintro ⟨e, he, ht⟩
    obtain ⟨hmem, hname⟩ := List.mem_filter.mp he
    dsimp only at ht
    split at ht
    · rename_i hsize
      obtain ⟨rfl, rfl⟩ := Prod.mk.inj (Option.some.inj ht)
      have hholders : rm.holders e.1 = e.2 := by
        rw [ReplicationManager.holders, Std.ExtTreeMap.mem_toList_iff_getElem?_eq_some.mp hmem,
          Option.getD_some]
      rw [hholders]
      exact ⟨Std.ExtTreeMap.mem_iff_contains.mpr hname, rfl, hsize⟩
    · simp at ht
  · rintro ⟨hname, hleft, hsize⟩
    dsimp only at hname hleft hsize
    subst hleft
    obtain ⟨h, hh⟩ := mem_iff_exists_entry.mp (rm.listed_of_mem_holders hname)
    have hholders : rm.holders p = h := by rw [ReplicationManager.holders, hh, Option.getD_some]
    rw [hholders] at hname hsize ⊢
    refine ⟨(p, h), List.mem_filter.mpr ⟨Std.ExtTreeMap.mem_toList_iff_getElem?_eq_some.mpr hh,
      Std.ExtTreeMap.mem_iff_contains.mp hname⟩, ?_⟩
    exact if_pos hsize

theorem mem_rebalanceTargets {rm : ReplicationManager} {name : Bytes}
    {target : Bytes × StrMap SessionId} (h : target ∈ rebalanceTargets rm name) :
    name ∈ rm.holders target.1 ∧ target.2 = (rm.holders target.1).erase name := by
  obtain ⟨hname, hleft, -⟩ := mem_rebalanceTargets_iff.mp h
  exact ⟨hname, hleft⟩

/-- The map from which the evicted datanode has been taken out, before anything
is rebalanced. -/
def withoutHolder (rm : ReplicationManager) (name : Bytes) : ReplicationManager :=
  let holdersLeft : StrMap (StrMap SessionId) :=
    rm.dataNodeReplicationMap.map fun _ (h : StrMap SessionId) => h.erase name
  { rm with dataNodeReplicationMap := holdersLeft }

theorem eraseFromReplicationMap_eq (sys : System) (answer : RebalanceAnswers) (name : Bytes) :
    sys.eraseFromReplicationMap answer name
      = (rebalanceTargets sys.rm name).foldl (rebalanceFileReplication answer)
          { sys with rm := (withoutHolder sys.rm name).persistState } := rfl

theorem holders_withoutHolder (rm : ReplicationManager) (name p : Bytes) :
    (withoutHolder rm name).holders p = (rm.holders p).erase name := by
  simp only [withoutHolder, ReplicationManager.holders, Std.ExtTreeMap.getElem?_map]
  cases rm.dataNodeReplicationMap[p]? with
  | none => simp
  | some h => rfl

/-- **After an eviction** a holder is an old one, or one of the endpoints on
which a file of the evicted datanode was put. -/
theorem evict_holders (sys : System) (answer : RebalanceAnswers) (name : Bytes) :
    (sys.eraseFromReplicationMap answer name).rm.dataNodeEndpointMap
        = sys.rm.dataNodeEndpointMap ∧
      ∀ p n, n ∈ (sys.eraseFromReplicationMap answer name).rm.holders p →
        n ∈ (sys.rm.holders p).erase name ∨
          (name ∈ sys.rm.holders p ∧ n ∈ sys.rm.dataNodeEndpointMap) := by
  rw [eraseFromReplicationMap_eq]
  obtain ⟨hends, hholders⟩ := rebalance_all_holders answer (rebalanceTargets sys.rm name)
    { sys with rm := (withoutHolder sys.rm name).persistState }
  refine ⟨hends, fun p n h => ?_⟩
  rcases hholders p n h with hold | ⟨t, ht, rfl, hn⟩
  · rw [ReplicationManager.holders_persistState, holders_withoutHolder] at hold
    exact Or.inl hold
  · obtain ⟨hname, hleft⟩ := mem_rebalanceTargets ht
    rw [hleft] at hn
    exact hn.imp_right fun hn => ⟨hname, hn⟩

/-- The eviction of a datanode that holds nothing changes no holder. -/
theorem holders_evict_of_not_mem (sys : System) (answer : RebalanceAnswers) {name : Bytes}
    (h : ∀ p, name ∉ sys.rm.holders p) (p n : Bytes) :
    n ∈ (sys.eraseFromReplicationMap answer name).rm.holders p ↔ n ∈ sys.rm.holders p := by
  have htargets : rebalanceTargets sys.rm name = [] :=
    List.eq_nil_iff_forall_not_mem.mpr fun t ht => h t.1 (mem_rebalanceTargets ht).1
  rw [eraseFromReplicationMap_eq, htargets, List.foldl_nil, ReplicationManager.holders_persistState,
    holders_withoutHolder, Std.ExtTreeMap.mem_erase]
  refine ⟨And.right, fun hn => ⟨?_, hn⟩⟩
  rw [Ne, Std.LawfulEqCmp.compare_eq_iff_eq]
  rintro rfl
  exact h p hn

end System

end Squid
