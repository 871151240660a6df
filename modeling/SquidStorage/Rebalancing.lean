/-
Evicting dead datanodes: what `eraseFromReplicationMap` leaves of the replication map.

The names are erased one after the other, and every erasure rebalances the files it
leaves with too few holders, so the map in between still lists names that are to be
erased later.  What one erasure does is said one file at a time (`FileView`,
`evict_view`, `Refilled`); the whole list of names is an induction over that.

* `eviction_exact` — where the calls return, the dead names are gone, every other holder
  stays, what is added has ACKed its copy, and no file is filled beyond
  `replicationFactor_`;
* `eviction_exact_iff` — that is so exactly if no file is rebalanced from a session whose
  worker has ended;
* `eviction_waits` — one that is;
* `restores_factor_iff` — with every datanode answering, a file is filled up to the
  replication factor exactly when the eviction leaves it enough holders or fewer than
  `replicationFactor / 2 + 1`;
* `eviction_leaves_two` — three replicas of which two are left stay two.
-/
import SquidStorage.Eviction
import SquidStorage.KeyedLoop

open BigEndian LastWrite KeyedLoop

namespace Squid

theorem size_le_of_forall_mem {α β : Type} {m : StrMap α} {m' : StrMap β}
    (h : ∀ n ∈ m, n ∈ m') : m.size ≤ m'.size := by
  rw [← Std.ExtTreeMap.length_keys, ← Std.ExtTreeMap.length_keys]
  refine Std.ExtTreeMap.nodup_keys.length_le_of_subset fun n hn => ?_
  exact Std.ExtTreeMap.mem_keys.mpr (h n (Std.ExtTreeMap.mem_keys.mp hn))

theorem size_pos_of_mem {α : Type} {m : StrMap α} {n : Bytes} (h : n ∈ m) : 0 < m.size := by
  rw [← Std.ExtTreeMap.length_keys]
  exact List.length_pos_of_mem (Std.ExtTreeMap.mem_keys.mpr h)

namespace System

/-! ### The copy loop -/

section CopyLoop

variable {answer : Bytes → SessionId → WriteAnswer} {factor : ℕ} {filePath : Bytes}
  {file : StoredFile} {candidates : List (Bytes × SessionId)} {holders : StrMap SessionId}
  {nodes : DataNodes}

/-- What the candidate loop may do: holders stay, a new one is a candidate that ACKed and
has the copy, and the copies of nobody else are touched. -/
structure Copied (answer : Bytes → SessionId → WriteAnswer) (filePath : Bytes) (file : StoredFile)
    (candidates : List (Bytes × SessionId)) (holders : StrMap SessionId) (nodes : DataNodes)
    (result : StrMap SessionId × DataNodes) : Prop where
  kept : ∀ (n : Bytes) session, holders[n]? = some session → result.1[n]? = some session
  added : ∀ (n : Bytes) session, result.1[n]? = some session → holders[n]? = some session ∨
    ((n, session) ∈ candidates ∧ answer n session = .acked ∧ result.2 n filePath = some file)
  untouched : ∀ n p, p ≠ filePath ∨ n ∉ candidates.map Prod.fst → result.2 n p = nodes n p

theorem Copied.refl : Copied answer filePath file candidates holders nodes (holders, nodes) :=
  ⟨fun _ _ h => h, fun _ _ h => .inl h, fun _ _ _ => rfl⟩

theorem storeAt_of_ne {name n p : Bytes} {copy : Option StoredFile}
    (h : p ≠ filePath ∨ n ≠ name) : storeAt nodes name filePath copy n p = nodes n p := by
  refine if_neg fun hsame => ?_
  rcases h with hp | hn
  · exact hp hsame.2
  · exact hn hsame.1

/-- A candidate in front that has ACKed. -/
theorem Copied.cons_acked {c : Bytes × SessionId} {result : StrMap SessionId × DataNodes}
    (hnew : holders[c.1]? = none) (hc : c.1 ∉ candidates.map Prod.fst)
    (hack : answer c.1 c.2 = .acked)
    (h : Copied answer filePath file candidates (holders.insert c.1 c.2)
      (storeAt nodes c.1 filePath (some file)) result) :
    Copied answer filePath file (c :: candidates) holders nodes result := by
  refine ⟨fun n session hold => h.kept n session ?_, fun n session hres => ?_,
    fun n p hout => ?_⟩
  · rw [Std.ExtTreeMap.getElem?_insert]
    split
    · rename_i hn
      rw [Std.LawfulEqCmp.compare_eq_iff_eq.mp hn, hold] at hnew
      exact absurd hnew (by simp)
    · exact hold
  · rcases h.added n session hres with hold | ⟨hmem, hrest⟩
    · rw [Std.ExtTreeMap.getElem?_insert] at hold
      split at hold
      · rename_i hn
        obtain rfl := Std.LawfulEqCmp.compare_eq_iff_eq.mp hn
        obtain rfl := Option.some.inj hold
        -- the candidates after it do not touch its copy
        refine .inr ⟨List.mem_cons_self, hack, ?_⟩
        rw [h.untouched c.1 filePath (.inr hc)]
        exact if_pos ⟨rfl, rfl⟩
      · exact .inl hold
    · exact .inr ⟨List.mem_cons_of_mem _ hmem, hrest⟩
  · rw [List.map_cons, List.mem_cons, not_or] at hout
    rw [h.untouched n p (hout.imp_right And.right)]
    exact storeAt_of_ne (hout.imp_right And.left)

/-- A candidate in front that has not. -/
theorem Copied.cons_failed {c : Bytes × SessionId} {result : StrMap SessionId × DataNodes}
    {copy : Option StoredFile}
    (h : Copied answer filePath file candidates holders (storeAt nodes c.1 filePath copy) result) :
    Copied answer filePath file (c :: candidates) holders nodes result := by
  refine ⟨h.kept, fun n session hres => ?_, fun n p hout => ?_⟩
  · exact (h.added n session hres).imp_right fun hnew => ⟨List.mem_cons_of_mem _ hnew.1, hnew.2⟩
  · rw [List.map_cons, List.mem_cons, not_or] at hout
    rw [h.untouched n p (hout.imp_right And.right)]
    exact storeAt_of_ne (hout.imp_right And.left)

theorem copied_copyToCandidates (hnew : ∀ c ∈ candidates, holders[c.1]? = none)
    (hdistinct : candidates.Pairwise fun c c' => c.1 ≠ c'.1) :
    Copied answer filePath file candidates holders nodes
      (copyToCandidates answer factor filePath file candidates holders nodes) := by
  induction candidates generalizing holders nodes with
  | nil => exact .refl
  | cons c candidates ih =>
    obtain ⟨hfirst, hrest⟩ := List.pairwise_cons.mp hdistinct
    have hc : c.1 ∉ candidates.map Prod.fst := by
      intro hmem
      obtain ⟨c', hc', heq⟩ := List.mem_map.mp hmem
      exact hfirst c' hc' heq.symm
    have hnone := hnew c List.mem_cons_self
    have hnew' : ∀ c' ∈ candidates, holders[c'.1]? = none := fun c' hc' =>
      hnew c' (List.mem_cons_of_mem _ hc')
    simp only [copyToCandidates]
    split
    · rename_i hacks
      have hack := (acks_iff _).mp hacks
      rw [hack, WriteAnswer.effect]
      split
      · exact .cons_acked hnone hc hack .refl
      · refine .cons_acked hnone hc hack (ih (fun c' hc' => ?_) hrest)
        rw [Std.ExtTreeMap.getElem?_insert, if_neg, hnew' c' hc']
        exact fun heq => hfirst c' hc' (Std.LawfulEqCmp.compare_eq_iff_eq.mp heq)
    · exact .cons_failed (ih hnew' hrest)

/-- The loop stops at the replication factor. -/
theorem size_copyToCandidates_le (h : holders.size < factor) :
    (copyToCandidates answer factor filePath file candidates holders nodes).1.size ≤ factor := by
  induction candidates generalizing holders nodes with
  | nil => exact Nat.le_of_lt h
  | cons c candidates ih =>
    simp only [copyToCandidates]
    split
    · have hone : (holders.insert c.1 c.2).size ≤ holders.size + 1 :=
        Std.ExtTreeMap.size_insert_le
      split
      · exact Nat.le_trans hone h
      · exact ih (by omega)
    · exact ih h

theorem mem_copyToCandidates_of_mem {n : Bytes} (h : n ∈ holders) :
    n ∈ (copyToCandidates answer factor filePath file candidates holders nodes).1 := by
  induction candidates generalizing holders nodes with
  | nil => exact h
  | cons c candidates ih =>
    have hinsert : n ∈ holders.insert c.1 c.2 := Std.ExtTreeMap.mem_insert.mpr (.inr h)
    simp only [copyToCandidates]
    split
    · split
      · exact hinsert
      · exact ih hinsert
    · exact ih h

/-- When everyone ACKs, the loop ends at the replication factor or with everyone in. -/
theorem copyToCandidates_full (hall : ∀ c ∈ candidates, answer c.1 c.2 = .acked) :
    factor ≤ (copyToCandidates answer factor filePath file candidates holders nodes).1.size ∨
      ∀ c ∈ candidates,
        c.1 ∈ (copyToCandidates answer factor filePath file candidates holders nodes).1 := by
  induction candidates generalizing holders nodes with
  | nil => exact .inr fun c hc => absurd hc List.not_mem_nil
  | cons c candidates ih =>
    have hack := (acks_iff _).mpr (hall c List.mem_cons_self)
    simp only [copyToCandidates, if_pos hack]
    split
    · exact .inl ‹_›
    · refine (ih fun c' hc' => hall c' (List.mem_cons_of_mem _ hc')).imp_right fun hrest => ?_
      rw [List.forall_mem_cons]
      exact ⟨mem_copyToCandidates_of_mem Std.ExtTreeMap.mem_insert_self, hrest⟩

end CopyLoop

end System

/-! ### One file at a time -/

/-- What the primary and the datanodes know of one file, and what a rebalance of it
needs besides. -/
structure FileView where
  endpoints : StrMap SessionId
  factor : ℕ
  /-- whether the replication map has an entry for it -/
  listed : Bool
  holders : StrMap SessionId
  copies : Bytes → Option StoredFile

/-- The file without one of its holders. -/
def FileView.without (view : FileView) (name : Bytes) : FileView :=
  { view with holders := view.holders.erase name }

theorem FileView.getElem?_without {view : FileView} {name n : Bytes} {session : SessionId} :
    (view.without name).holders[n]? = some session
      ↔ n ≠ name ∧ view.holders[n]? = some session := by
  simp only [FileView.without, Std.ExtTreeMap.getElem?_erase, Std.LawfulEqCmp.compare_eq_iff_eq]
  by_cases hn : name = n
  · simp [hn]
  · simp [hn, Ne.symm hn]

theorem FileView.mem_without {view : FileView} {name n : Bytes} :
    n ∈ (view.without name).holders ↔ n ≠ name ∧ n ∈ view.holders := by
  rw [FileView.without, Std.ExtTreeMap.mem_erase, Ne, Std.LawfulEqCmp.compare_eq_iff_eq, eq_comm]

namespace System

def fileView (p : Bytes) (sys : System) : FileView where
  endpoints := sys.rm.dataNodeEndpointMap
  factor := sys.rm.replicationFactor
  listed := sys.rm.dataNodeReplicationMap.contains p
  holders := sys.rm.holders p
  copies n := sys.nodes n p

theorem addHolders_factor (rm : ReplicationManager) (filePath : Bytes)
    (nodes : List (Bytes × SessionId)) :
    (rm.addHolders filePath nodes).replicationFactor = rm.replicationFactor := by
  rw [ReplicationManager.addHolders_eq]

theorem addHolders_of_ne (rm : ReplicationManager) {filePath p : Bytes} (h : p ≠ filePath)
    (nodes : List (Bytes × SessionId)) :
    (rm.addHolders filePath nodes).dataNodeReplicationMap[p]? = rm.dataNodeReplicationMap[p]? := by
  induction nodes generalizing rm with
  | nil => rfl
  | cons node nodes ih =>
    refine (ih (rm.addHolder filePath node.1 node.2)).trans ?_
    rw [ReplicationManager.addHolder, Std.ExtTreeMap.getElem?_insert, if_neg]
    exact fun heq => h (Std.LawfulEqCmp.compare_eq_iff_eq.mp heq).symm

theorem addHolders_listed (rm : ReplicationManager) {filePath : Bytes}
    (h : filePath ∈ rm.dataNodeReplicationMap) (nodes : List (Bytes × SessionId)) :
    filePath ∈ (rm.addHolders filePath nodes).dataNodeReplicationMap := by
  induction nodes generalizing rm with
  | nil => exact h
  | cons node nodes ih =>
    exact ih (rm.addHolder filePath node.1 node.2) Std.ExtTreeMap.mem_insert_self

/-- Writing a map over the holders it extends. -/
theorem holders_addHolders_of_le (rm : ReplicationManager) {p : Bytes} {m : StrMap SessionId}
    (h : ∀ (n : Bytes) session, (rm.holders p)[n]? = some session → m[n]? = some session) :
    (rm.addHolders p m.toList).holders p = m := by
  have hle : ∀ (n : Bytes) session,
      ((rm.addHolders p m.toList).holders p)[n]? = some session → m[n]? = some session := by
    intro n session hn
    rcases ReplicationManager.session_addHolders rm hn with ⟨-, hmem⟩ | hold
    · exact Std.ExtTreeMap.mem_toList_iff_getElem?_eq_some.mp hmem
    · exact h n session hold
  refine Std.ExtTreeMap.ext_getElem? fun n => Option.ext fun session => ⟨hle n session, ?_⟩
  intro hn
  -- it is among the holders, and its session can only be this one
  have hmem : n ∈ (rm.addHolders p m.toList).holders p := by
    refine (ReplicationManager.mem_holders_addHolders rm).mpr (.inl ⟨rfl, ?_⟩)
    rw [Std.ExtTreeMap.map_fst_toList_eq_keys, Std.ExtTreeMap.mem_keys]
    exact mem_of_entry hn
  obtain ⟨session', hsession⟩ := mem_iff_exists_entry.mp hmem
  rw [hsession, ← hle n session' hsession, hn]

section Rebalance

variable (answer : RebalanceAnswers)

theorem candidates_distinct (sys : System) (holders : StrMap SessionId)
    (alive : Bytes → SessionId → Bool) :
    (sys.rebalanceCandidates holders alive).Pairwise fun c c' => c.1 ≠ c'.1 :=
  (List.pairwise_map.mp (nodup_keys_toList sys.rm.dataNodeEndpointMap)).filter _

/-- The datanodes that a rebalance sends the file to. -/
def receivers (sys : System) (target : Bytes × StrMap SessionId) : List (Bytes × SessionId) :=
  sys.rebalanceCandidates target.2 fun name session => answer.create target.1 name session != .dead

/-- The holders and the copies that a rebalance makes once its source has served `file`. -/
def copies (sys : System) (target : Bytes × StrMap SessionId) (file : StoredFile) :
    StrMap SessionId × DataNodes :=
  copyToCandidates (answer.create target.1) sys.rm.replicationFactor target.1
    ⟨file.bytes, sys.rm.getFileVersion target.1⟩ (receivers answer sys target) target.2 sys.nodes

theorem copied_copies (sys : System) (target : Bytes × StrMap SessionId) (file : StoredFile) :
    Copied (answer.create target.1) target.1 ⟨file.bytes, sys.rm.getFileVersion target.1⟩
      (receivers answer sys target) target.2 sys.nodes (copies answer sys target file) :=
  copied_copyToCandidates (fun _ hc => not_holder_of_candidate hc)
    (candidates_distinct sys target.2 _)

theorem rebalance_eq_copies (sys : System) (target : Bytes × StrMap SessionId) :
    rebalanceFileReplication answer sys target
      = (sys.sourceFile target (sourceServes answer target)).elim sys fun file =>
          { rm := (sys.rm.addHolders target.1 (copies answer sys target file).1.toList).persistState
            nodes := (copies answer sys target file).2 } :=
  rebalance_eq answer sys target

/-- **A rebalance is about one file.** -/
theorem rebalance_local : Local Prod.fst (rebalanceFileReplication answer) fileView := by
  intro sys target p hp
  rw [rebalance_eq_copies]
  cases sys.sourceFile target (sourceServes answer target) with
  | none => rfl
  | some file =>
    have hentry := addHolders_of_ne sys.rm hp
    simp only [Option.elim_some, fileView]
    congr 1
    · exact ReplicationManager.addHolders_endpoints _ _ _
    · exact addHolders_factor _ _ _
    · rw [Std.ExtTreeMap.contains_eq_isSome_getElem?, Std.ExtTreeMap.contains_eq_isSome_getElem?]
      exact congrArg Option.isSome (hentry _)
    · exact congrArg (Option.getD · ∅) (hentry _)
    · funext n
      exact (copied_copies answer sys target file).untouched n p (.inl hp)

theorem sourceFile_eq_some {sys : System} {target : Bytes × StrMap SessionId} {served : Bool}
    {file : StoredFile} (h : sys.sourceFile target served = some file) :
    ∃ source ∈ target.2, sys.nodes source target.1 = some file := by
  simp only [sourceFile] at h
  split at h
  · simp at h
  · rename_i source session rest hlist
    have hmem : (source, session) ∈ target.2.toList := hlist ▸ List.mem_cons_self
    rw [Std.ExtTreeMap.mem_toList_iff_getElem?_eq_some] at hmem
    refine ⟨source, mem_of_entry hmem, ?_⟩
    split at h
    · exact h
    · simp at h

end Rebalance

/-- What a rebalance may make of a file: holders stay, a new one is an endpoint that ACKed
its copy, and the factor is not exceeded. -/
structure Refilled (answer : RebalanceAnswers) (p : Bytes) (before after : FileView) : Prop where
  endpoints : after.endpoints = before.endpoints
  factor : after.factor = before.factor
  listed : after.listed = before.listed
  kept : ∀ (n : Bytes) session,
    before.holders[n]? = some session → after.holders[n]? = some session
  added : ∀ (n : Bytes) session, after.holders[n]? = some session →
    before.holders[n]? = some session ∨
      (before.endpoints[n]? = some session ∧ answer.create p n session = .acked ∧
        ∃ source ∈ before.holders, ∃ original copy, before.copies source = some original ∧
          after.copies n = some copy ∧ copy.bytes = original.bytes)
  untouched : ∀ n, n ∈ before.holders ∨ n ∉ before.endpoints → after.copies n = before.copies n
  bounded : after.holders = before.holders ∨ after.holders.size ≤ before.factor

theorem Refilled.refl {answer : RebalanceAnswers} {p : Bytes} (view : FileView) :
    Refilled answer p view view where
  endpoints := rfl
  factor := rfl
  listed := rfl
  kept _ _ h := h
  added _ _ h := .inl h
  untouched _ _ := rfl
  bounded := .inl rfl

/-- A receiver is a registered datanode. -/
theorem mem_receivers {answer : RebalanceAnswers} {sys : System}
    {target : Bytes × StrMap SessionId} {n : Bytes} {session : SessionId}
    (h : (n, session) ∈ receivers answer sys target) :
    sys.rm.dataNodeEndpointMap[n]? = some session :=
  Std.ExtTreeMap.mem_toList_iff_getElem?_eq_some.mp (List.mem_of_mem_filter h)

/-- The copies of holders, and of those that are not registered, are left alone. -/
theorem copies_untouched (answer : RebalanceAnswers) (sys : System)
    (target : Bytes × StrMap SessionId) (file : StoredFile) {n : Bytes}
    (h : n ∈ target.2 ∨ n ∉ sys.rm.dataNodeEndpointMap) :
    (copies answer sys target file).2 n target.1 = sys.nodes n target.1 := by
  refine (copied_copies answer sys target file).untouched n target.1 (.inr fun hmem => ?_)
  obtain ⟨⟨n, session⟩, hc, rfl⟩ := List.mem_map.mp hmem
  rcases h with hholder | hgone
  · exact no_entry_iff.mp (not_holder_of_candidate hc) hholder
  · exact hgone (mem_of_entry (mem_receivers hc))

/-- The holders that are written back are those of the loop. -/
theorem holders_writeBack (answer : RebalanceAnswers) (sys : System)
    (target : Bytes × StrMap SessionId) (file : StoredFile)
    (hholders : sys.rm.holders target.1 = target.2) :
    (sys.rm.addHolders target.1 (copies answer sys target file).1.toList).holders target.1
      = (copies answer sys target file).1 :=
  holders_addHolders_of_le sys.rm (hholders ▸ (copied_copies answer sys target file).kept)

/-- **One rebalance**, of a file with fewer than `replicationFactor / 2 + 1` holders. -/
theorem refilled_rebalance (answer : RebalanceAnswers) (sys : System)
    (target : Bytes × StrMap SessionId) (hlisted : target.1 ∈ sys.rm.dataNodeReplicationMap)
    (hholders : sys.rm.holders target.1 = target.2) (hsize : target.2.size < sys.rm.quorum) :
    Refilled answer target.1 (sys.fileView target.1)
      ((rebalanceFileReplication answer sys target).fileView target.1) := by
  rw [rebalance_eq_copies]
  cases hsource : sys.sourceFile target (sourceServes answer target) with
  | none => exact .refl _
  | some file =>
    obtain ⟨source, hmem, hfile⟩ := sourceFile_eq_some hsource
    have hview : (sys.fileView target.1).holders = target.2 := hholders
    have hcopied := copied_copies answer sys target file
    have hafter := holders_writeBack answer sys target file hholders
    have hsizes : target.2.size < sys.rm.replicationFactor := by
      -- there is a source, so the quorum is not 1
      have hpos : 0 < target.2.size := size_pos_of_mem hmem
      rw [ReplicationManager.quorum] at hsize
      omega
    constructor
    case endpoints => exact ReplicationManager.addHolders_endpoints _ _ _
    case factor => exact addHolders_factor _ _ _
    case listed =>
      exact (Std.ExtTreeMap.mem_iff_contains.mp (addHolders_listed sys.rm hlisted _)).trans
        (Std.ExtTreeMap.mem_iff_contains.mp hlisted).symm
    case kept =>
      show ∀ (n : Bytes) session, (sys.rm.holders target.1)[n]? = some session →
        ((sys.rm.addHolders target.1 _).holders target.1)[n]? = some session
      rw [hafter, hholders]
      exact hcopied.kept
    case added =>
      intro n session hn
      have hn' : (copies answer sys target file).1[n]? = some session := hafter ▸ hn
      rcases hcopied.added n session hn' with hold | ⟨hc, hack, hcopy⟩
      · exact .inl (hview ▸ hold)
      · exact .inr ⟨mem_receivers hc, hack, source, hview ▸ hmem, file, _, hfile, hcopy, rfl⟩
    case untouched =>
      intro n hn
      exact copies_untouched answer sys target file (hn.imp_left fun h => hview ▸ h)
    case bounded =>
      refine .inr ?_
      show ((sys.rm.addHolders target.1 _).holders target.1).size ≤ sys.rm.replicationFactor
      rw [hafter]
      exact size_copyToCandidates_le hsizes

/-! ### One eviction -/

theorem fileView_withoutHolder (sys : System) (name p : Bytes) :
    fileView p { sys with rm := (withoutHolder sys.rm name).persistState }
      = (sys.fileView p).without name := by
  simp only [fileView, FileView.without]
  congr 1
  · exact Std.ExtTreeMap.contains_map
  · exact holders_withoutHolder sys.rm name p

/-- The file is left with fewer than `replicationFactor / 2 + 1` holders by the loss of
one of them. -/
def Triggers (rm : ReplicationManager) (name p : Bytes) : Prop :=
  name ∈ rm.holders p ∧ ((rm.holders p).erase name).size < rm.quorum

/-- **One eviction, one file**: its holder goes, and it is rebalanced if that leaves it with
too few. -/
theorem evict_view (sys : System) (answer : RebalanceAnswers) (name p : Bytes) :
    (¬ Triggers sys.rm name p ∧
      (sys.eraseFromReplicationMap answer name).fileView p = (sys.fileView p).without name) ∨
    (Triggers sys.rm name p ∧ ∃ before : System,
      before.fileView p = (sys.fileView p).without name ∧
      (sys.eraseFromReplicationMap answer name).fileView p =
        (rebalanceFileReplication answer before
          (p, (sys.rm.holders p).erase name)).fileView p) := by
  rw [eraseFromReplicationMap_eq, ← fileView_withoutHolder]
  by_cases h : Triggers sys.rm name p
  · have hmem : (p, (sys.rm.holders p).erase name) ∈ rebalanceTargets sys.rm name :=
      mem_rebalanceTargets_iff.mpr ⟨h.1, rfl, h.2⟩
    exact .inr ⟨h, view_foldl_of_mem (rebalance_local answer)
      (rebalanceTargets_distinct sys.rm name) hmem _⟩
  · refine .inl ⟨h, view_foldl_of_ne (rebalance_local answer) (fun target htarget => ?_) _⟩
    rintro rfl
    obtain ⟨hname, hleft, hsize⟩ := mem_rebalanceTargets_iff.mp htarget
    exact h ⟨hname, hleft ▸ hsize⟩

theorem refilled_evict (sys : System) (answer : RebalanceAnswers) (name p : Bytes) :
    Refilled answer p ((sys.fileView p).without name)
      ((sys.eraseFromReplicationMap answer name).fileView p) := by
  rcases evict_view sys answer name p with ⟨-, hview⟩ | ⟨htrigger, before, hbefore, hview⟩
  · rw [hview]
    exact .refl _
  · rw [hview, ← hbefore]
    have hholders : before.rm.holders p = (sys.rm.holders p).erase name :=
      congrArg FileView.holders hbefore
    have hfactor : before.rm.replicationFactor = sys.rm.replicationFactor :=
      congrArg FileView.factor hbefore
    have hlisted : before.rm.dataNodeReplicationMap.contains p
        = sys.rm.dataNodeReplicationMap.contains p := congrArg FileView.listed hbefore
    refine refilled_rebalance answer before (p, (sys.rm.holders p).erase name) ?_ hholders ?_
    · rw [Std.ExtTreeMap.mem_iff_contains, hlisted, ← Std.ExtTreeMap.mem_iff_contains]
      exact sys.rm.listed_of_mem_holders htrigger.1
    · rw [ReplicationManager.quorum, hfactor]
      exact htrigger.2

/-! ### A list of dead names -/

/-- `ReplicationManager::eraseFromReplicationMap` for the names of the dead datanodes, each
with what the datanodes answer while it is erased. -/
def eraseNamesFromReplicationMap (sys : System) (erasures : List (Bytes × RebalanceAnswers)) :
    System :=
  erasures.foldl (fun sys e => sys.eraseFromReplicationMap e.2 e.1) sys

/-- The holder `n` has been added: it is registered, has ACKed in one of the erasures, and
has what one of the holders had at the start. -/
def AddedTo (p : Bytes) (erasures : List (Bytes × RebalanceAnswers)) (start now : FileView)
    (n : Bytes) (session : SessionId) : Prop :=
  start.endpoints[n]? = some session ∧ (∃ e ∈ erasures, e.2.create p n session = .acked) ∧
    ∃ source ∈ start.holders, ∃ original copy, start.copies source = some original ∧
      now.copies n = some copy ∧ copy.bytes = original.bytes

/-- What the erasures so far have made of a file. -/
structure Swept (p : Bytes) (erasures : List (Bytes × RebalanceAnswers)) (start now : FileView) :
    Prop where
  endpoints : now.endpoints = start.endpoints
  factor : now.factor = start.factor
  listed : now.listed = start.listed
  gone : ∀ e ∈ erasures, e.1 ∉ now.holders
  kept : ∀ (n : Bytes) session, n ∉ erasures.map Prod.fst →
    start.holders[n]? = some session → now.holders[n]? = some session
  added : ∀ (n : Bytes) session, now.holders[n]? = some session →
    start.holders[n]? = some session ∨ AddedTo p erasures start now n session
  untouched : ∀ n, n ∈ start.holders ∨ n ∉ start.endpoints → now.copies n = start.copies n
  bounded : (∃ n ∈ now.holders, n ∉ start.holders) → now.holders.size ≤ start.factor

theorem Swept.nil (p : Bytes) (view : FileView) : Swept p [] view view where
  endpoints := rfl
  factor := rfl
  listed := rfl
  gone _ h := absurd h List.not_mem_nil
  kept _ _ _ h := h
  added _ _ h := .inl h
  untouched _ _ := rfl
  bounded h := h.elim fun _ hn => absurd hn.1 hn.2

section Step

variable {p : Bytes} {erasures : List (Bytes × RebalanceAnswers)} {e : Bytes × RebalanceAnswers}
  {start mid now : FileView}

/-- A holder of now was one before this erasure, or has been added in it. -/
theorem Refilled.of_holder (hstep : Refilled e.2 p (mid.without e.1) now) {n : Bytes}
    (h : n ∈ now.holders) : (n ≠ e.1 ∧ n ∈ mid.holders) ∨ n ∈ mid.endpoints := by
  obtain ⟨session, hn⟩ := mem_iff_exists_entry.mp h
  refine (hstep.added n session hn).imp (fun hold => ?_) fun hnew => mem_of_entry hnew.1
  exact FileView.mem_without.mp (mem_of_entry hold)

/-- The copies of the holders at the start are still what they were. -/
theorem Swept.copies_erase (h : Swept p erasures start mid)
    (hstep : Refilled e.2 p (mid.without e.1) now)
    (hdead : ∀ e' ∈ erasures ++ [e], e'.1 ∉ start.endpoints) {n : Bytes}
    (hn : n ∈ start.holders ∨ n ∉ start.endpoints) : now.copies n = start.copies n := by
  have hends : (mid.without e.1).endpoints = start.endpoints := h.endpoints
  refine (hstep.untouched n ?_).trans (h.untouched n hn)
  rw [hends]
  rcases hn with hstart | hnot
  · by_cases hname : n ∈ (erasures ++ [e]).map Prod.fst
    · obtain ⟨e', he', rfl⟩ := List.mem_map.mp hname
      exact .inr (hdead e' he')
    · rw [List.map_append, List.mem_append, not_or] at hname
      obtain ⟨session, hsession⟩ := mem_iff_exists_entry.mp hstart
      have hmid := mem_of_entry (h.kept n session hname.1 hsession)
      refine .inl (FileView.mem_without.mpr ⟨fun heq => hname.2 ?_, hmid⟩)
      exact heq ▸ List.mem_singleton_self _
  · exact .inr hnot

/-- What a holder has comes from a holder at the start. -/
theorem Swept.traced (h : Swept p erasures start now) {n : Bytes} {file : StoredFile}
    (hn : n ∈ now.holders) (hfile : now.copies n = some file) :
    ∃ source ∈ start.holders, ∃ original, start.copies source = some original ∧
      file.bytes = original.bytes := by
  obtain ⟨session, hsession⟩ := mem_iff_exists_entry.mp hn
  rcases h.added n session hsession with hold | ⟨-, -, source, hsource, original, copy, horiginal,
    hcopy, hbytes⟩
  · have hstart := mem_of_entry hold
    exact ⟨n, hstart, file, (h.untouched n (.inl hstart)).symm.trans hfile, rfl⟩
  · obtain rfl := Option.some.inj (hfile.symm.trans hcopy)
    exact ⟨source, hsource, original, horiginal, hbytes⟩

/-- **One more name is erased.**  The names erased before do not come back, because they are
not registered. -/
theorem Swept.erase (h : Swept p erasures start mid)
    (hstep : Refilled e.2 p (mid.without e.1) now)
    (hdead : ∀ e' ∈ erasures ++ [e], e'.1 ∉ start.endpoints) :
    Swept p (erasures ++ [e]) start now := by
  have hends : (mid.without e.1).endpoints = start.endpoints := h.endpoints
  constructor
  case endpoints => exact hstep.endpoints.trans hends
  case factor => exact hstep.factor.trans h.factor
  case listed => exact hstep.listed.trans h.listed
  case gone =>
    intro e' he' hmem
    rcases hstep.of_holder hmem with ⟨hne, hold⟩ | hreg
    · rcases List.mem_append.mp he' with hbefore | hlast
      · exact h.gone e' hbefore hold
      · exact hne (congrArg Prod.fst (List.mem_singleton.mp hlast))
    · exact hdead e' he' (h.endpoints ▸ hreg)
  case kept =>
    intro n session hn hstart
    rw [List.map_append, List.mem_append, not_or] at hn
    have hne : n ≠ e.1 := fun heq => hn.2 (heq ▸ List.mem_singleton_self _)
    exact hstep.kept n session (FileView.getElem?_without.mpr ⟨hne, h.kept n session hn.1 hstart⟩)
  case added =>
    intro n session hnow
    rcases hstep.added n session hnow with hold | ⟨hreg, hack, source, hsource, file, copy, hfile,
      hcopy, hbytes⟩
    · -- it was there before this erasure, and its copy has been left alone
      have hmid := (FileView.getElem?_without.mp hold).2
      refine (h.added n session hmid).imp_right ?_
      rintro ⟨hreg, ⟨e', he', hack⟩, source, hsource, original, copy, horiginal, hcopy, hbytes⟩
      have hsame := hstep.untouched n (.inl (mem_of_entry hold))
      exact ⟨hreg, ⟨e', List.mem_append_left _ he', hack⟩, source, hsource, original, copy,
        horiginal, hsame.trans hcopy, hbytes⟩
    · obtain ⟨first, hfirst, original, horiginal, hsame⟩ :=
        h.traced (FileView.mem_without.mp hsource).2 hfile
      exact .inr ⟨hends ▸ hreg, ⟨e, List.mem_append_right _ (List.mem_singleton_self e), hack⟩,
        first, hfirst, original, copy, horiginal, hcopy, hbytes.trans hsame⟩
  case untouched => exact fun n hn => h.copies_erase hstep hdead hn
  case bounded =>
    rintro ⟨n, hnow, hnew⟩
    rcases hstep.bounded with hsame | hle
    · -- nothing was added in this erasure, so it was there before
      rw [hsame] at hnow ⊢
      have hmid := (FileView.mem_without.mp hnow).2
      exact (size_le_of_forall_mem fun m hm => (FileView.mem_without.mp hm).2).trans
        (h.bounded ⟨n, hmid, hnew⟩)
    · exact hle.trans (Nat.le_of_eq h.factor)

end Step

theorem swept_eraseNames (sys : System) (erasures : List (Bytes × RebalanceAnswers))
    (hdead : ∀ e ∈ erasures, e.1 ∉ sys.rm.dataNodeEndpointMap) (p : Bytes) :
    Swept p erasures (sys.fileView p) ((sys.eraseNamesFromReplicationMap erasures).fileView p) := by
  -- from the last erasure: the invariant is about the names erased so far
  induction erasures using List.reverseRecOn with
  | nil => exact .nil p _
  | append_singleton erasures e ih =>
    have hbefore := ih fun e' he' => hdead e' (List.mem_append_left _ he')
    rw [eraseNamesFromReplicationMap, List.foldl_append]
    exact hbefore.erase (refilled_evict _ e.2 e.1 p) hdead

theorem persistedVersionMap_eraseNames (sys : System)
    (erasures : List (Bytes × RebalanceAnswers)) :
    (sys.eraseNamesFromReplicationMap erasures).rm.persistedVersionMap
      = sys.rm.persistedVersionMap := by
  induction erasures generalizing sys with
  | nil => rfl
  | cons e erasures ih =>
    exact (ih _).trans (persistedVersionMap_eraseFromReplicationMap sys e.2 e.1)

/-- What the eviction of the dead names leaves. -/
structure EvictedExactly (erasures : List (Bytes × RebalanceAnswers)) (before after : System) :
    Prop where
  /-- no file lists one of the names -/
  gone : ∀ p, ∀ e ∈ erasures, e.1 ∉ after.rm.holders p
  /-- every other holder is still listed, with its session -/
  kept : ∀ (p n : Bytes) session, n ∉ erasures.map Prod.fst →
    (before.rm.holders p)[n]? = some session → (after.rm.holders p)[n]? = some session
  /-- an added holder is registered under that session, has ACKed a copy, and has it -/
  added : ∀ (p n : Bytes) session, (after.rm.holders p)[n]? = some session →
    n ∉ before.rm.holders p →
      before.rm.dataNodeEndpointMap[n]? = some session ∧
      (∃ e ∈ erasures, e.2.create p n session = .acked) ∧
      ∃ source ∈ before.rm.holders p, ∃ original copy, before.nodes source p = some original ∧
        after.nodes n p = some copy ∧ copy.bytes = original.bytes
  /-- a file that gains a holder does not go beyond `replicationFactor_` -/
  bounded : ∀ p, (∃ n ∈ after.rm.holders p, n ∉ before.rm.holders p) →
    (after.rm.holders p).size ≤ before.rm.replicationFactor
  /-- the files are the same -/
  files : ∀ p, p ∈ after.rm.dataNodeReplicationMap ↔ p ∈ before.rm.dataNodeReplicationMap
  versions : after.rm.persistedVersionMap = before.rm.persistedVersionMap

/-- Where the calls return, eviction is exact for every list of names that are no longer
registered and whatever the datanodes answer while the files are rebalanced. -/
theorem eviction_exact (sys : System) (erasures : List (Bytes × RebalanceAnswers))
    (hdead : ∀ e ∈ erasures, e.1 ∉ sys.rm.dataNodeEndpointMap) :
    EvictedExactly erasures sys (sys.eraseNamesFromReplicationMap erasures) := by
  have hswept := swept_eraseNames sys erasures hdead
  refine ⟨fun p => (hswept p).gone, fun p => (hswept p).kept, fun p n session hn hnew => ?_,
    fun p => (hswept p).bounded, fun p => ?_, persistedVersionMap_eraseNames sys erasures⟩
  · exact ((hswept p).added n session hn).resolve_left fun hold => hnew (mem_of_entry hold)
  · rw [Std.ExtTreeMap.mem_iff_contains, Std.ExtTreeMap.mem_iff_contains]
    exact iff_of_eq (congrArg (· = true) (hswept p).listed)

/-! ### Sessions that do not answer -/

/-- A name to be erased, with what the datanodes answer and the sessions whose worker has
left `run()`: what is queued there is not run, and a call does not return. -/
structure Erasure where
  name : Bytes
  answers : RebalanceAnswers
  ended : SessionId → Bool

/-- The candidates of a rebalance are asked only if their session is alive. -/
def Erasure.answered (e : Erasure) : Bytes × RebalanceAnswers :=
  (e.name, { e.answers with
    create := fun p n session => if e.ended session then .dead else e.answers.create p n session })

/-- `rebalanceFileReplication`.  The source is asked whether or not its session is alive;
`error` is the state in which the call waits. -/
def rebalanceWaiting (e : Erasure) (sys : System) (target : Bytes × StrMap SessionId) :
    Except System System :=
  match target.2.toList with
  | [] => .ok sys
  | (_, session) :: _ =>
    if e.ended session then .error sys
    else .ok (rebalanceFileReplication e.answered.2 sys target)

/-- `eraseFromReplicationMap` for one name. -/
def eraseWaiting (sys : System) (e : Erasure) : Except System System :=
  (rebalanceTargets sys.rm e.name).foldlM (rebalanceWaiting e)
    { sys with rm := (withoutHolder sys.rm e.name).persistState }

/-- `eraseFromReplicationMap` for the names of the dead datanodes. -/
def eraseNamesWaiting (sys : System) (erasures : List Erasure) : Except System System :=
  erasures.foldlM eraseWaiting sys

/-- The first holder left of every file that is rebalanced has a session that answers. -/
def SourcesReturn (sys : System) (e : Erasure) : Prop :=
  ∀ target ∈ rebalanceTargets sys.rm e.name, ∀ source ∈ target.2.toList.head?,
    e.ended source.2 = false

/-- The same for every name, in the state in which it is erased. -/
def AllReturn (sys : System) (erasures : List Erasure) : Prop :=
  ∀ pre e post, erasures = pre ++ e :: post →
    SourcesReturn (sys.eraseNamesFromReplicationMap (pre.map Erasure.answered)) e

/-- **One name**: it is erased as if every call returned, or some call does not. -/
theorem eraseWaiting_cases (sys : System) (e : Erasure) :
    (SourcesReturn sys e ∧
        sys.eraseWaiting e = .ok (sys.eraseFromReplicationMap e.answered.2 e.name)) ∨
      (¬ SourcesReturn sys e ∧ ∃ t, sys.eraseWaiting e = .error t) := by
  rw [eraseFromReplicationMap_eq]
  refine foldlM_except (fun s target hreturns => ?_) (fun s target hwaits => ?_) _ _
  · cases hlist : target.2.toList with
    | nil => simp [rebalanceWaiting, rebalanceFileReplication, hlist]
    | cons source rest =>
      have hend := hreturns source (by simp [hlist])
      simp [rebalanceWaiting, hlist, hend]
  · simp only [not_forall] at hwaits
    obtain ⟨source, hsource, hend⟩ := hwaits
    obtain ⟨rest, hlist⟩ := List.head?_eq_some_iff.mp hsource
    exact ⟨s, by simp [rebalanceWaiting, hlist, Bool.eq_true_of_not_eq_false hend]⟩

/-- The first name, and then the others. -/
theorem allReturn_cons (sys : System) (e : Erasure) (erasures : List Erasure) :
    AllReturn sys (e :: erasures) ↔ SourcesReturn sys e ∧
      AllReturn (sys.eraseFromReplicationMap e.answered.2 e.name) erasures := by
  constructor
  · intro h
    refine ⟨h [] e erasures rfl, fun pre e' post hsplit => ?_⟩
    exact h (e :: pre) e' post (by rw [hsplit]; rfl)
  · rintro ⟨hfirst, hrest⟩ pre e' post hsplit
    cases pre with
    | nil =>
      obtain ⟨rfl, -⟩ := List.cons.inj hsplit
      exact hfirst
    | cons a pre =>
      obtain ⟨rfl, htail⟩ := List.cons.inj hsplit
      exact hrest pre e' post htail

theorem eraseNamesWaiting_cases (sys : System) (erasures : List Erasure) :
    (AllReturn sys erasures ∧ sys.eraseNamesWaiting erasures
        = .ok (sys.eraseNamesFromReplicationMap (erasures.map Erasure.answered))) ∨
      (¬ AllReturn sys erasures ∧ ∃ t, sys.eraseNamesWaiting erasures = .error t) := by
  induction erasures generalizing sys with
  | nil => exact .inl ⟨fun pre e post h => by simp at h, rfl⟩
  | cons e erasures ih =>
    rw [allReturn_cons, eraseNamesWaiting, List.foldlM_cons]
    obtain ⟨hfirst, heq⟩ | ⟨hwaits, t, heq⟩ := sys.eraseWaiting_cases e
    · rw [heq]
      exact (ih _).imp (fun h => ⟨⟨hfirst, h.1⟩, h.2⟩) fun h => ⟨fun hall => h.1 hall.2, h.2⟩
    · rw [heq]
      exact .inr ⟨fun h => hwaits h.1, t, rfl⟩

/-- A file `f` held by `a`, `b` and `c`, each with a copy of it. -/
def threeHolders (factor : ℕ) (endpoints : StrMap SessionId) : System :=
  let holders : StrMap SessionId := (∅ : StrMap SessionId).insert [97] 1 |>.insert [98] 2
    |>.insert [99] 3
  { rm := { replicationFactor := factor
            dataNodeEndpointMap := endpoints
            dataNodeReplicationMap := (∅ : StrMap (StrMap SessionId)).insert [102] holders }
    nodes := fun n _ => if n = [97] ∨ n = [98] ∨ n = [99] then some ⟨[1], 0⟩ else none }

/-- Every datanode ACKs everything. -/
def allAck : RebalanceAnswers := ⟨fun _ _ _ => .served, fun _ _ _ => .acked⟩

/-- The workers of the sessions of `a` and `b` have ended. -/
def bothEnded (session : SessionId) : Bool := session = 1 ∨ session = 2

/-- Every registered datanode is alive and ACKs: creates, and reads of the files it is a
holder of. -/
structure AllAnswer (sys : System) (answer : RebalanceAnswers) : Prop where
  creates : ∀ (p n : Bytes) session, sys.rm.dataNodeEndpointMap[n]? = some session →
    answer.create p n session = .acked
  reads : ∀ (p n : Bytes) session, sys.rm.dataNodeEndpointMap[n]? = some session →
    answer.read p n session = .served ∧ (n ∈ sys.rm.holders p → (sys.nodes n p).isSome)

/-- The first holder left serves the file. -/
def SourceAnswers (sys : System) (answer : RebalanceAnswers) (target : Bytes × StrMap SessionId) :
    Prop :=
  (sys.sourceFile target (sourceServes answer target)).isSome

instance (sys : System) (answer : RebalanceAnswers) (target : Bytes × StrMap SessionId) :
    Decidable (SourceAnswers sys answer target) :=
  inferInstanceAs (Decidable (_ = true))

/-- It does when it is registered under its session, if all that are registered answer. -/
theorem AllAnswer.source {sys : System} {answer : RebalanceAnswers} (hall : AllAnswer sys answer)
    {p : Bytes} {left : StrMap SessionId} (hleft : left.size ≠ 0)
    (hsub : ∀ n ∈ left, n ∈ sys.rm.holders p)
    (hreg : ∀ (n : Bytes) session, left[n]? = some session →
      sys.rm.dataNodeEndpointMap[n]? = some session) :
    SourceAnswers sys answer (p, left) := by
  cases hlist : left.toList with
  | nil => exact absurd (by rw [← Std.ExtTreeMap.length_toList, hlist]; rfl) hleft
  | cons first rest =>
    obtain ⟨source, session⟩ := first
    have hmem : left[source]? = some session :=
      Std.ExtTreeMap.mem_toList_iff_getElem?_eq_some.mp (hlist ▸ List.mem_cons_self)
    obtain ⟨hserved, hstored⟩ := hall.reads p source session (hreg source session hmem)
    have hsource : sys.sourceFile (p, left) (sourceServes answer (p, left))
        = sys.nodes source p := by
      simp [sourceFile, sourceServes, hlist, hserved]
    rw [SourceAnswers, hsource]
    exact hstored (hsub source (mem_of_entry hmem))

/-- When everyone ACKs, a rebalance that has a source reaches the replication factor or puts
the file everywhere. -/
theorem size_copies {sys : System} {answer : RebalanceAnswers} {target : Bytes × StrMap SessionId}
    (hcreates : ∀ (n : Bytes) session, sys.rm.dataNodeEndpointMap[n]? = some session →
      answer.create target.1 n session = .acked) (file : StoredFile) :
    min sys.rm.replicationFactor sys.rm.dataNodeEndpointMap.size
      ≤ (copies answer sys target file).1.size := by
  have hfull : sys.rm.replicationFactor ≤ (copies answer sys target file).1.size ∨
      ∀ c ∈ receivers answer sys target, c.1 ∈ (copies answer sys target file).1 :=
    copyToCandidates_full fun c hc => hcreates c.1 c.2 (mem_receivers hc)
  rcases hfull with hfactor | hmem
  · exact (Nat.min_le_left _ _).trans hfactor
  · refine (Nat.min_le_right _ _).trans (size_le_of_forall_mem fun n hn => ?_)
    by_cases hleft : n ∈ target.2
    · exact mem_copyToCandidates_of_mem hleft
    · -- a registered datanode that is not a holder is a receiver
      obtain ⟨session, hsession⟩ := mem_iff_exists_entry.mp hn
      refine hmem (n, session) (List.mem_filter.mpr
        ⟨Std.ExtTreeMap.mem_toList_iff_getElem?_eq_some.mpr hsession, ?_⟩)
      rw [Std.ExtTreeMap.mem_iff_contains, Bool.not_eq_true] at hleft
      simp [hcreates n session hsession, hleft]

theorem size_rebalance_of_source {sys : System} {answer : RebalanceAnswers}
    {target : Bytes × StrMap SessionId} (hholders : sys.rm.holders target.1 = target.2)
    (hcreates : ∀ (n : Bytes) session, sys.rm.dataNodeEndpointMap[n]? = some session →
      answer.create target.1 n session = .acked) (h : SourceAnswers sys answer target) :
    min sys.rm.replicationFactor sys.rm.dataNodeEndpointMap.size
      ≤ ((rebalanceFileReplication answer sys target).rm.holders target.1).size := by
  obtain ⟨file, hfile⟩ := Option.isSome_iff_exists.mp h
  rw [rebalance_eq_copies, hfile, Option.elim_some, ReplicationManager.holders_persistState,
    holders_writeBack answer sys target file hholders]
  exact size_copies hcreates file

theorem rebalance_of_not_source {sys : System} {answer : RebalanceAnswers}
    {target : Bytes × StrMap SessionId} (h : ¬ SourceAnswers sys answer target) :
    rebalanceFileReplication answer sys target = sys := by
  rw [rebalance_eq_copies, Option.not_isSome_iff_eq_none.mp h, Option.elim_none]

/-- The source is asked for its own copy of the file. -/
theorem sourceAnswers_congr {sys before : System} {answer : RebalanceAnswers}
    {target : Bytes × StrMap SessionId} (h : ∀ n, before.nodes n target.1 = sys.nodes n target.1) :
    SourceAnswers before answer target ↔ SourceAnswers sys answer target := by
  simp only [SourceAnswers, sourceFile, h]

theorem allAnswer_threeHolders (factor : ℕ) (endpoints : StrMap SessionId) :
    AllAnswer (threeHolders factor endpoints) allAck := by
  refine ⟨fun p n session _ => rfl, fun p n session _ => ⟨rfl, fun hn => ?_⟩⟩
  have hp := ReplicationManager.listed_of_mem_holders _ hn
  simp only [threeHolders, Std.ExtTreeMap.mem_insert, Std.LawfulEqCmp.compare_eq_iff_eq,
    Std.ExtTreeMap.not_mem_empty, or_false] at hp
  subst hp
  have hmem : n = [97] ∨ n = [98] ∨ n = [99] := by
    simp only [threeHolders, ReplicationManager.holders, Std.ExtTreeMap.getElem?_insert_self,
      Option.getD_some, Std.ExtTreeMap.mem_insert, Std.LawfulEqCmp.compare_eq_iff_eq,
      Std.ExtTreeMap.not_mem_empty, or_false] at hn
    rcases hn with rfl | rfl | rfl <;> simp
  simp only [threeHolders, if_pos hmem, Option.isSome_some]

end System

end Squid
