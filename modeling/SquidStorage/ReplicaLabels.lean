/-
The version that a rebalance writes on its copies.

`rebalanceFileReplication` takes the bytes from the first holder in the order of the
names, whatever version that holder has, and the version from the server's version file.
The reads of clients (`getFileFromDataNode`) pass over a holder that is behind; the
rebalance does not ask.

* `copyToCandidates_leaves`, `copyToCandidates_creates` — what the candidate loop leaves on the
  datanodes, and when it leaves a new replica;
* `rebalance_labels_iff` — every replica created stores a committed pair exactly if no
  candidate comes to store one, the source is not behind, or its bytes are those of a write
  committed under the version of the version file;
* `rebalance_mislabels` — a holder that missed a committed update is copied under the
  version of that update.
-/
import SquidStorage.Rebalancing
import SquidStorage.ReplicationRuns

open BigEndian LastWrite

namespace Squid

namespace System

/-! ### The replicas that a rebalance creates -/

section CopyLoop

variable {answer : Bytes → SessionId → WriteAnswer} {factor : ℕ} {filePath : Bytes}
  {file : StoredFile}

/-- The loop does not touch the copy of a datanode that is no candidate. -/
theorem copyToCandidates_of_not_mem {candidates : List (Bytes × SessionId)}
    {holders : StrMap SessionId} {nodes : DataNodes} {n : Bytes}
    (h : n ∉ candidates.map Prod.fst) :
    (copyToCandidates answer factor filePath file candidates holders nodes).2 n filePath
      = nodes n filePath := by
  induction candidates generalizing holders nodes with
  | nil => rfl
  | cons c candidates ih =>
    rw [List.map_cons, List.mem_cons, not_or] at h
    have hsame : storeAt nodes c.1 filePath ((answer c.1 c.2).effect file (nodes c.1 filePath)) n
        filePath = nodes n filePath := storeAt_of_ne (Or.inr h.1)
    simp only [copyToCandidates]
    split
    · split
      · exact hsame
      · exact (ih h.2).trans hsame
    · exact (ih h.2).trans hsame

/-- A datanode has the copy that was there, none, or the one that is sent, which it then stores
as a candidate. -/
def Leaves (answer : Bytes → SessionId → WriteAnswer) (filePath : Bytes) (file : StoredFile)
    (candidates : List (Bytes × SessionId)) (nodes result : DataNodes) (n : Bytes) : Prop :=
  result n filePath = nodes n filePath ∨ result n filePath = none ∨
    (result n filePath = some file ∧
      ∃ session, (n, session) ∈ candidates ∧ (answer n session).stores = true)

/-- **What the loop leaves.** -/
theorem copyToCandidates_leaves (candidates : List (Bytes × SessionId))
    (holders : StrMap SessionId) (nodes : DataNodes) (n : Bytes) :
    Leaves answer filePath file candidates nodes
      (copyToCandidates answer factor filePath file candidates holders nodes).2 n := by
  induction candidates generalizing holders nodes with
  | nil => exact .inl rfl
  | cons c candidates ih =>
    obtain ⟨name, session⟩ := c
    set sent := storeAt nodes name filePath
      ((answer name session).effect file (nodes name filePath)) with hsent
    -- the transfer to the first candidate
    have hone : Leaves answer filePath file ((name, session) :: candidates) nodes sent n := by
      by_cases hn : n = name
      · subst hn
        have hself : sent n filePath = (answer n session).effect file (nodes n filePath) :=
          if_pos ⟨rfl, rfl⟩
        rw [Leaves, hself]
        cases ha : answer n session with
        | dead | refused => exact .inl rfl
        | dropped => exact .inr (.inl rfl)
        | acked | ackLost =>
          refine .inr (.inr ⟨rfl, session, List.mem_cons_self, ?_⟩)
          rw [ha]
          rfl
      · exact .inl (storeAt_of_ne (Or.inr hn))
    have hmore : ∀ holders', Leaves answer filePath file ((name, session) :: candidates) nodes
        (copyToCandidates answer factor filePath file candidates holders' sent).2 n := by
      intro holders'
      rcases ih holders' sent with hsame | hnone | ⟨hcopy, session', hmem, hstores⟩
      · rw [Leaves, hsame]
        exact hone
      · exact .inr (.inl hnone)
      · exact .inr (.inr ⟨hcopy, session', List.mem_cons_of_mem _ hmem, hstores⟩)
    simp only [copyToCandidates]
    split
    · split
      · exact hone
      · exact hmore _
    · exact hmore _

/-- The transfer to a candidate makes a new replica: it is ACKed, and so listed, or it is stored
where another copy or none was. -/
def NewReplica (answer : Bytes → SessionId → WriteAnswer) (filePath : Bytes) (file : StoredFile)
    (nodes : DataNodes) (c : Bytes × SessionId) : Prop :=
  answer c.1 c.2 = .acked ∨ (answer c.1 c.2 = .ackLost ∧ nodes c.1 filePath ≠ some file)

/-- **When the loop makes a new replica**: the first candidate for which that is so is reached,
since the loop stops at an ACK only. -/
theorem copyToCandidates_creates {candidates : List (Bytes × SessionId)}
    {holders : StrMap SessionId} {nodes : DataNodes}
    (hdistinct : candidates.Pairwise fun c c' => c.1 ≠ c'.1)
    (hnew : ∀ c ∈ candidates, holders[c.1]? = none)
    (h : ∃ c ∈ candidates, NewReplica answer filePath file nodes c) :
    let result := copyToCandidates answer factor filePath file candidates holders nodes
    ∃ c ∈ candidates, result.2 c.1 filePath = some file ∧
      (c.1 ∈ result.1 ∧ c.1 ∉ holders ∨ nodes c.1 filePath ≠ some file) := by
  induction candidates generalizing nodes with
  | nil => simp at h
  | cons c candidates ih =>
    obtain ⟨hfirst, hrest⟩ := List.pairwise_cons.mp hdistinct
    have hc : c.1 ∉ candidates.map Prod.fst := by
      intro hmem
      obtain ⟨c', hc', heq⟩ := List.mem_map.mp hmem
      exact hfirst c' hc' heq.symm
    have hself : ∀ copy, storeAt nodes c.1 filePath copy c.1 filePath = copy :=
      fun _ => if_pos ⟨rfl, rfl⟩
    by_cases hack : answer c.1 c.2 = .acked
    · refine ⟨c, List.mem_cons_self, ?_⟩
      have hlisted : c.1 ∉ holders := no_entry_iff.mp (hnew c List.mem_cons_self)
      have hacks : WriteAnswer.acked.acks = true := rfl
      simp only [copyToCandidates, hack, WriteAnswer.effect, if_pos hacks]
      split
      · exact ⟨hself _, .inl ⟨Std.ExtTreeMap.mem_insert_self, hlisted⟩⟩
      · exact ⟨(copyToCandidates_of_not_mem hc).trans (hself _),
          .inl ⟨mem_copyToCandidates_of_mem Std.ExtTreeMap.mem_insert_self, hlisted⟩⟩
    · simp only [copyToCandidates, if_neg (mt (acks_iff _).mp hack)]
      by_cases hlost : answer c.1 c.2 = .ackLost ∧ nodes c.1 filePath ≠ some file
      · refine ⟨c, List.mem_cons_self, ?_, .inr hlost.2⟩
        rw [copyToCandidates_of_not_mem hc, hlost.1]
        exact hself _
      · -- the other candidates have the copies they had
        have hsame : ∀ c' ∈ candidates, storeAt nodes c.1 filePath
            ((answer c.1 c.2).effect file (nodes c.1 filePath)) c'.1 filePath
              = nodes c'.1 filePath :=
          fun c' hc' => storeAt_of_ne (Or.inr (hfirst c' hc').symm)
        obtain ⟨c', hmem, hcreates⟩ := h
        have hc' : c' ∈ candidates := by
          refine (List.mem_cons.mp hmem).resolve_left fun heq => ?_
          subst heq
          exact hcreates.elim hack hlost
        obtain ⟨d, hd, hcopy, hcase⟩ := ih hrest
          (fun c' hc' => hnew c' (List.mem_cons_of_mem _ hc'))
          ⟨c', hc', hcreates.imp_right fun hl => ⟨hl.1, (hsame c' hc').trans_ne hl.2⟩⟩
        exact ⟨d, List.mem_cons_of_mem _ hd, hcopy, by rwa [hsame d hd] at hcase⟩

end CopyLoop

/-! ### Their versions -/

section Rebalance

variable (answer : RebalanceAnswers) (sys : System) (filePath : Bytes)

/-- The copy that a rebalance sends: the bytes of its source, under the version of the server's
version file. -/
def sentCopy (file : StoredFile) : StoredFile := ⟨file.bytes, sys.rm.getFileVersion filePath⟩

/-- A datanode has a replica that the rebalance has created: it has become a holder, or has
another copy than before. -/
def CreatedAt (before after : System) (filePath n : Bytes) (copy : StoredFile) : Prop :=
  after.nodes n filePath = some copy ∧
    (n ∈ after.rm.holders filePath ∧ n ∉ before.rm.holders filePath ∨
      before.nodes n filePath ≠ some copy)

/-- Some registered datanode that is not a holder comes to have a new replica. -/
def SomeCandidateStores (copy : StoredFile) : Prop :=
  ∃ n session, sys.rm.dataNodeEndpointMap[n]? = some session ∧ n ∉ sys.rm.holders filePath ∧
    NewReplica (answer.create filePath) filePath copy sys.nodes (n, session)

/-- The datanodes that the file is sent to. -/
theorem mem_receivers_iff {target : Bytes × StrMap SessionId} {n : Bytes} {session : SessionId} :
    (n, session) ∈ receivers answer sys target ↔
      sys.rm.dataNodeEndpointMap[n]? = some session ∧ n ∉ target.2 ∧
        answer.create target.1 n session ≠ .dead := by
  rw [receivers, rebalanceCandidates, List.mem_filter,
    Std.ExtTreeMap.mem_toList_iff_getElem?_eq_some, Std.ExtTreeMap.mem_iff_contains,
    Bool.not_eq_true]
  simp

/-- What a rebalance with a source leaves of its file. -/
theorem rebalance_of_source {file : StoredFile}
    (hsource : sys.sourceFile (filePath, sys.rm.holders filePath)
      (sourceServes answer (filePath, sys.rm.holders filePath)) = some file) :
    let target := (filePath, sys.rm.holders filePath)
    let after := rebalanceFileReplication answer sys target
    after.rm.holders filePath = (copies answer sys target file).1 ∧
      after.nodes = (copies answer sys target file).2 := by
  intro target after
  have hafter : after = { rm := (sys.rm.addHolders filePath
      (copies answer sys target file).1.toList).persistState
                          nodes := (copies answer sys target file).2 } := by
    rw [show after = _ from rebalance_eq_copies answer sys target, hsource]
    rfl
  rw [hafter]
  exact ⟨holders_writeBack answer sys target file rfl, rfl⟩

variable {answer sys filePath} in
/-- A replica that is created has the copy that is sent, and a candidate has stored it. -/
theorem CreatedAt.stored {file f : StoredFile} {n : Bytes}
    (hsource : sys.sourceFile (filePath, sys.rm.holders filePath)
      (sourceServes answer (filePath, sys.rm.holders filePath)) = some file)
    (h : CreatedAt sys (rebalanceFileReplication answer sys (filePath, sys.rm.holders filePath))
      filePath n f) :
    f = sys.sentCopy filePath file ∧
      SomeCandidateStores answer sys filePath (sys.sentCopy filePath file) := by
  obtain ⟨hholders, hnodes⟩ := rebalance_of_source answer sys filePath hsource
  obtain ⟨hcopy, hcase⟩ := h
  rw [hnodes] at hcopy
  rw [hholders] at hcase
  set target := (filePath, sys.rm.holders filePath) with htarget
  set copy := sys.sentCopy filePath file with hsent
  -- a new holder has ACKed, any other new copy has been stored
  by_cases hlisted : n ∈ (copies answer sys target file).1 ∧ n ∉ sys.rm.holders filePath
  · obtain ⟨session, hsession⟩ := mem_iff_exists_entry.mp hlisted.1
    obtain hold | ⟨hc, hack, hnew⟩ :=
      (copied_copies answer sys target file).added n session hsession
    · exact absurd (mem_of_entry hold) hlisted.2
    · exact ⟨Option.some.inj (hcopy.symm.trans hnew), n, session, mem_receivers hc, hlisted.2,
        .inl hack⟩
  · have hchanged := hcase.resolve_left hlisted
    have hleaves : Leaves (answer.create filePath) filePath copy (receivers answer sys target)
        sys.nodes (copies answer sys target file).2 n := copyToCandidates_leaves _ _ _ n
    rcases hleaves with hsame | hnone | ⟨hnew, session, hc, hstores⟩
    · exact absurd (hsame.symm.trans hcopy) hchanged
    · exact absurd (hnone.symm.trans hcopy) (by simp)
    · obtain rfl : f = copy := Option.some.inj (hcopy.symm.trans hnew)
      obtain ⟨hend, hnot, -⟩ := (mem_receivers_iff answer sys).mp hc
      refine ⟨rfl, n, session, hend, hnot, ?_⟩
      cases ha : answer.create filePath n session with
      | acked => exact .inl ha
      | ackLost => exact .inr ⟨ha, hchanged⟩
      | dead | refused | dropped => simp [ha, WriteAnswer.stores] at hstores

/-- **The replicas that a rebalance creates** have the copy that it sends, and there are some
exactly if some candidate stores one. -/
theorem createdAt_iff {file : StoredFile}
    (hsource : sys.sourceFile (filePath, sys.rm.holders filePath)
      (sourceServes answer (filePath, sys.rm.holders filePath)) = some file) :
    let after := rebalanceFileReplication answer sys (filePath, sys.rm.holders filePath)
    let copy := sys.sentCopy filePath file
    (∀ n f, CreatedAt sys after filePath n f → f = copy) ∧
      ((∃ n, CreatedAt sys after filePath n copy) ↔ SomeCandidateStores answer sys filePath copy)
    := by
  intro after copy
  refine ⟨fun n f h => (h.stored hsource).1, fun ⟨n, h⟩ => (h.stored hsource).2, ?_⟩
  rintro ⟨n, session, hend, hnot, hnew⟩
  set target := (filePath, sys.rm.holders filePath) with htarget
  have hc : (n, session) ∈ receivers answer sys target := by
    refine (mem_receivers_iff answer sys).mpr ⟨hend, hnot, fun hdead => ?_⟩
    rcases hnew with hack | ⟨hlost, -⟩
    · rw [hdead] at hack
      cases hack
    · rw [hdead] at hlost
      cases hlost
  obtain ⟨c, -, hcopy, hcase⟩ : ∃ c ∈ receivers answer sys target,
      (copies answer sys target file).2 c.1 filePath = some copy ∧
        (c.1 ∈ (copies answer sys target file).1 ∧ c.1 ∉ target.2 ∨
          sys.nodes c.1 filePath ≠ some copy) :=
    copyToCandidates_creates (candidates_distinct sys target.2 _)
      (fun _ hc => not_holder_of_candidate hc) ⟨(n, session), hc, hnew⟩
  obtain ⟨hholders, hnodes⟩ := rebalance_of_source answer sys filePath hsource
  refine ⟨c.1, ?_, ?_⟩
  · rw [hnodes]
    exact hcopy
  · rw [hholders]
    exact hcase

/-- **Rebalancing copies what it labels**, where each holder has a committed pair of the file,
exactly if no candidate comes to store a replica, or the source is not behind the server's
version file, or a write with the source's bytes was committed under that version. -/
theorem rebalance_labels_iff (committed : List StoredFile)
    (hpast : ∀ n ∈ sys.rm.holders filePath, ∃ f ∈ committed, sys.nodes n filePath = some f) :
    let target := (filePath, sys.rm.holders filePath)
    (∀ n f, CreatedAt sys (rebalanceFileReplication answer sys target) filePath n f →
        f ∈ committed)
      ↔ ∀ file, sys.sourceFile target (sourceServes answer target) = some file →
        SomeCandidateStores answer sys filePath (sys.sentCopy filePath file) →
        file.version = sys.rm.getFileVersion filePath ∨
          ∃ c ∈ committed, c.version = sys.rm.getFileVersion filePath ∧ c.bytes = file.bytes := by
  intro target
  cases hsource : sys.sourceFile target (sourceServes answer target) with
  | none =>
    -- nothing is copied
    have hafter : rebalanceFileReplication answer sys target = sys := by
      rw [rebalance_eq_copies, hsource, Option.elim_none]
    refine iff_of_true (fun n f h => ?_) (by simp)
    rw [hafter] at h
    exact (h.2.elim (fun hnew => absurd hnew.1 hnew.2) fun hne => absurd h.1 hne)
  | some file =>
    obtain ⟨hcopy, hsome⟩ := createdAt_iff answer sys filePath hsource
    obtain ⟨source, hholder, hfile⟩ := sourceFile_eq_some hsource
    constructor
    · rintro h file' hfile' hstores
      obtain rfl := Option.some.inj hfile'
      obtain ⟨n, hn⟩ := hsome.mpr hstores
      exact .inr ⟨_, h n _ hn, rfl, rfl⟩
    · intro h n f hn
      obtain rfl := hcopy n f hn
      rcases h file rfl (hsome.mp ⟨n, hn⟩) with hlevel | ⟨c, hc, hversion, hbytes⟩
      · -- the holder's own pair
        obtain ⟨f, hf, hstored⟩ := hpast source hholder
        obtain rfl : f = file := Option.some.inj (hstored.symm.trans hfile)
        rw [sentCopy, ← hlevel]
        exact hf
      · rw [sentCopy, ← hversion, ← hbytes]
        exact hc

end Rebalance

/-- The datanode `a` has `f` under version 1, and `b` has joined: the source is not behind. -/
theorem rebalance_labels_level :
    let start : System := ⟨{ replicationFactor := 1 }, fun _ _ => none⟩
    let sys := [.register [97] 0 ∅ [],
      .create [102] 1 [] [120] (fun _ _ => .acked) (fun _ _ => .acked),
      .register [98] 1 ∅ []].foldl step start
    let after := rebalanceFileReplication allAck sys ([102], sys.rm.holders [102])
    after.nodes [98] [102] = some ⟨[120], 1⟩ ∧
      ∀ n f, CreatedAt sys after [102] n f → f ∈ [(⟨[120], 1⟩ : StoredFile)] := by
  intro start sys after
  refine ⟨by decide, (rebalance_labels_iff allAck sys [102] [⟨[120], 1⟩] fun n hn => ?_).mpr
    fun file hfile _ => .inl ?_⟩
  · obtain ⟨session, hsession⟩ := mem_iff_exists_entry.mp hn
    have hlist : (sys.rm.holders [102]).toList = [([97], 0)] := by decide
    have hmem := Std.ExtTreeMap.mem_toList_iff_getElem?_eq_some.mpr hsession
    rw [hlist, List.mem_singleton, Prod.mk.injEq] at hmem
    rw [hmem.1]
    exact ⟨_, List.mem_singleton_self _, by decide⟩
  · have hsource : sys.sourceFile ([102], sys.rm.holders [102])
        (sourceServes allAck ([102], sys.rm.holders [102])) = some ⟨[120], 1⟩ := by decide
    rw [← Option.some.inj (hsource.symm.trans hfile)]
    decide

/-- Four datanodes `a`, `b`, `c`, `d` have `f` with the bytes `x` under version 1.  The update to
`y` is refused by `a` and commits as version 2.  A datanode `e` joins, and `c` and `d` are lost:
`f` is rebalanced from `a`, and `e` has the bytes `x` under version 2. -/
theorem rebalance_mislabels :
    let start : System := ⟨{ replicationFactor := 4 }, fun _ _ => none⟩
    let update : Bytes → SessionId → WriteAnswer := fun n _ => if n = [97] then .refused else .acked
    let answer : RebalanceAnswers := ⟨fun _ _ _ => .served, fun _ _ _ => .acked⟩
    let created := [.register [97] 0 ∅ [], .register [98] 1 ∅ [], .register [99] 2 ∅ [],
      .register [100] 3 ∅ [],
      .create [102] 1 [] [120] (fun _ _ => .acked) (fun _ _ => .acked)].foldl step start
    let behind := [.update [102] 1 [] [121] update, .register [101] 4 ∅ [], .loseEndpoint [99],
      .evict [99] answer, .loseEndpoint [100]].foldl step created
    (created.propagateUpdateFile update [102] 1 [] [121]).1 = 2 ∧
    behind.nodes [97] [102] = some ⟨[120], 1⟩ ∧ behind.nodes [98] [102] = some ⟨[121], 2⟩ ∧
    behind.nodes [101] [102] = none ∧
    (behind.step (.evict [100] answer)).nodes [101] [102] = some ⟨[120], 2⟩ := by
  decide

end System

end Squid
