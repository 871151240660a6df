/-
Evictions by name, and sessions that register under the name again.

A heartbeat sweep copies the endpoint map, asks each session, and erases the names
whose sessions did not answer, first from the endpoint map and then, name by name,
from the holders of every file; a file that is left with too few holders is copied and
its holders are written back.  CLOSE has the client's name erased by a task of the
pool.  Each of these takes the mutex anew, and `handleAccept` may register a session
of the same name before any of them.

* `rebalance_eq`, `erase_alone` — with nothing in between, the steps of a sweep are
  `eraseFromReplicationMap`;
* `Clean` — what is still to be erased or written back meets no newer session;
* `eviction_spares_newer` — no sweep and no CLOSE removes a session that registered
  after the failed one, in every run whose registrations and failures are in order.
-/
import SquidStorage.HolderSets
import SquidStorage.Runs

open BigEndian

namespace Squid

/-! ### The machine -/

/-- A file that is being copied: its holders without the failed one, its contents, and
the endpoints it is offered to. -/
structure FileCopy where
  filePath : Bytes
  fileHoldersMap : StrMap SessionId
  fileData : Bytes
  candidates : List (Bytes × SessionId)

/-- The copy may make the session a holder. -/
def FileCopy.Writes (c : FileCopy) (filePath name : Bytes) (session : SessionId) : Prop :=
  filePath = c.filePath ∧
    (c.fileHoldersMap[name]? = some session ∨ (name, session) ∈ c.candidates)

/-- Where `sendHeartbeats` stands.  With each name of `deadNodes` goes the session that
did not answer, which the code does not keep; `failed` is that of the name whose files
are being rebalanced. -/
inductive Sweep where
  | idle
  | probing (datanodes deadNodes : List (Bytes × SessionId))
  /-- the endpoints are erased -/
  | erasing (deadNodes : List (Bytes × SessionId))
  | rebalancing (failed : SessionId) (targets : List (Bytes × StrMap SessionId))
      (deadNodes : List (Bytes × SessionId))
  | copying (failed : SessionId) (copy : FileCopy) (targets : List (Bytes × StrMap SessionId))
      (deadNodes : List (Bytes × SessionId))

namespace Sweep

/-- The names that are still to be erased from the holders. -/
def deadNodes : Sweep → List (Bytes × SessionId)
  | idle => []
  | probing _ deadNodes | erasing deadNodes | rebalancing _ _ deadNodes
  | copying _ _ _ deadNodes => deadNodes

/-- The names that are still to be erased from the endpoint map. -/
def evicting : Sweep → List (Bytes × SessionId)
  | probing _ deadNodes => deadNodes
  | idle | erasing _ | rebalancing _ _ _ | copying _ _ _ _ => []

/-- The holders that may still be written back, on behalf of `failed`. -/
def Writes : Sweep → SessionId → Bytes → Bytes → SessionId → Prop
  | rebalancing failed targets _, f, filePath, name, session =>
    f = failed ∧ ∃ h, (filePath, h) ∈ targets ∧ h[name]? = some session
  | copying failed copy targets _, f, filePath, name, session =>
    f = failed ∧ ((∃ h, (filePath, h) ∈ targets ∧ h[name]? = some session) ∨
      copy.Writes filePath name session)
  | idle, _, _, _, _ | probing _ _, _, _, _, _ | erasing _, _, _, _, _ => False

/-- The files whose holders are still to be written back. -/
def paths : Sweep → List Bytes
  | rebalancing _ targets _ => targets.map Prod.fst
  | copying _ copy targets _ => copy.filePath :: targets.map Prod.fst
  | idle | probing _ _ | erasing _ => []

end Sweep

/-- The maps of the server, with the sessions of the clients, and what is under way.
`closing` are the erasures that CLOSE has handed to the pool, each with the session the
CLOSE came on; sessions are numbered in the order in which they register. -/
structure Registry where
  sys : System
  clientEndpointMap : StrMap SessionId := ∅
  sweep : Sweep := .idle
  closing : List (Bytes × SessionId) := []
  datanodes : List (Bytes × SessionId) := []
  clients : List (Bytes × SessionId) := []
  next : SessionId := 0

inductive RegistryEvent where
  /-- `dataNodeEndpointMap_[peerProcessName] = datanodeSession` -/
  | acceptDataNode (name : Bytes)
  /-- `registerDataNodeFiles`, once the new session has answered `syncStatus` -/
  | registerFiles (name : Bytes) (session : SessionId) (fileVersionMap : StrMap Int32)
  | acceptClient (name : Bytes)
  /-- CLOSE is acknowledged on a session -/
  | close (name : Bytes) (session : SessionId)
  /-- a task of the pool -/
  | eraseClient (task : Bytes × SessionId)
  | snapshot
  | heartbeat (isAck : Bool)
  /-- `dataNodeEndpointMap_.erase(name)` for the dead nodes -/
  | evict
  /-- the critical section of `eraseFromReplicationMap` -/
  | eraseHolders
  /-- the first holder left is asked for the file, and the candidates are listed -/
  | readSource (served : Bool) (alive : Bytes → SessionId → Bool)
  /-- the candidates have answered; the holders are written -/
  | writeBack (answer : Bytes → SessionId → WriteAnswer)
  | rebalanced
  | finish

namespace System

/-- What the first holder left serves. -/
def sourceFile (sys : System) (target : Bytes × StrMap SessionId) (served : Bool) :
    Option StoredFile :=
  match target.2.toList with
  | [] => none
  | (source, _) :: _ => if served then sys.nodes source target.1 else none

/-- Whether the first holder left answers the read. -/
def sourceServes (answer : RebalanceAnswers) (target : Bytes × StrMap SessionId) : Bool :=
  match target.2.toList with
  | [] => false
  | (source, session) :: _ => answer.read target.1 source session = .served

/-- The live endpoints that do not hold the file. -/
def rebalanceCandidates (sys : System) (fileHoldersMap : StrMap SessionId)
    (alive : Bytes → SessionId → Bool) : List (Bytes × SessionId) :=
  sys.rm.dataNodeEndpointMap.toList.filter fun e => !fileHoldersMap.contains e.1 && alive e.1 e.2

theorem not_holder_of_candidate {sys : System} {fileHoldersMap : StrMap SessionId}
    {alive : Bytes → SessionId → Bool} {e : Bytes × SessionId}
    (h : e ∈ sys.rebalanceCandidates fileHoldersMap alive) : fileHoldersMap[e.1]? = none := by
  have hnot := (Bool.and_eq_true_iff.mp (List.mem_filter.mp h).2).1
  rw [Bool.not_eq_true', Std.ExtTreeMap.contains_eq_isSome_getElem?] at hnot
  exact Option.isNone_iff_eq_none.mp (Option.isSome_eq_false_iff.mp hnot)

/-- The session of a candidate is that of its name in the endpoint map. -/
theorem candidate_session {sys : System} {fileHoldersMap : StrMap SessionId}
    {alive : Bytes → SessionId → Bool} {name : Bytes} {session session' : SessionId}
    (h : (name, session) ∈ sys.rebalanceCandidates fileHoldersMap alive)
    (h' : (name, session') ∈ sys.rebalanceCandidates fileHoldersMap alive) :
    session = session' := by
  have hget := Std.ExtTreeMap.mem_toList_iff_getElem?_eq_some.mp (List.mem_of_mem_filter h)
  have hget' := Std.ExtTreeMap.mem_toList_iff_getElem?_eq_some.mp (List.mem_of_mem_filter h')
  rw [hget] at hget'
  exact Option.some.inj hget'

/-- What is to be done for a file whose source has served it. -/
def fileCopy (sys : System) (target : Bytes × StrMap SessionId) (file : StoredFile)
    (alive : Bytes → SessionId → Bool) : FileCopy :=
  ⟨target.1, target.2, file.bytes, sys.rebalanceCandidates target.2 alive⟩

/-- The copies are made and the holders written. -/
def writeHolders (sys : System) (answer : Bytes → SessionId → WriteAnswer) (c : FileCopy) :
    System :=
  let copied := copyToCandidates answer sys.rm.replicationFactor c.filePath
    ⟨c.fileData, sys.rm.getFileVersion c.filePath⟩ c.candidates c.fileHoldersMap sys.nodes
  { rm := (sys.rm.addHolders c.filePath copied.1.toList).persistState, nodes := copied.2 }

/-- A session among the holders was there before or is one that the copy writes. -/
theorem session_writeHolders {sys : System} {answer : Bytes → SessionId → WriteAnswer}
    {c : FileCopy} {p n : Bytes} {session : SessionId}
    (h : ((sys.writeHolders answer c).rm.holders p)[n]? = some session) :
    c.Writes p n session ∨ (sys.rm.holders p)[n]? = some session := by
  refine (ReplicationManager.session_addHolders _ h).imp_left ?_
  rintro ⟨hp, hmem⟩
  exact ⟨hp, session_copyToCandidates (Std.ExtTreeMap.mem_toList_iff_getElem?_eq_some.mp hmem)⟩

/-- A session that is a holder no more has been written over. -/
theorem writeHolders_over {sys : System} {answer : Bytes → SessionId → WriteAnswer}
    {c : FileCopy} {p n : Bytes} {session : SessionId}
    (hold : (sys.rm.holders p)[n]? = some session)
    (hnew : ((sys.writeHolders answer c).rm.holders p)[n]? ≠ some session) :
    ∃ other, c.Writes p n other ∧ other ≠ session := by
  by_contra hnone
  refine hnew (ReplicationManager.session_addHolders_of_keeps _ hold fun other hp hmem => ?_)
  by_contra hother
  exact hnone ⟨other, ⟨hp, session_copyToCandidates
    (Std.ExtTreeMap.mem_toList_iff_getElem?_eq_some.mp hmem)⟩, hother⟩

/-- `rebalanceFileReplication` is its two halves one after the other. -/
theorem rebalance_eq (answer : RebalanceAnswers) (sys : System)
    (target : Bytes × StrMap SessionId) :
    rebalanceFileReplication answer sys target
      = (sys.sourceFile target (sourceServes answer target)).elim sys fun file =>
          sys.writeHolders (answer.create target.1) (sys.fileCopy target file
            fun name session => answer.create target.1 name session != .dead) := by
  cases htarget : target.2.toList with
  | nil => simp [rebalanceFileReplication, sourceFile, htarget]
  | cons first rest =>
    obtain ⟨source, session⟩ := first
    have hsource : ∀ served, sys.sourceFile target served
        = if served then sys.nodes source target.1 else none := by
      intro served
      simp [sourceFile, htarget]
    have hserves : sourceServes answer target
        = decide (answer.read target.1 source session = .served) := by
      simp [sourceServes, htarget]
    rw [hsource, hserves]
    by_cases hserved : answer.read target.1 source session = .served
    · cases hfile : sys.nodes source target.1 with
      | none => simp [rebalanceFileReplication, htarget, hserved, hfile]
      | some file =>
        simp [rebalanceFileReplication, htarget, hserved, hfile, writeHolders, fileCopy,
          rebalanceCandidates]
    · simp [rebalanceFileReplication, htarget, hserved]

end System

namespace Registry

/-- The steps of the heartbeat thread. -/
def sweepStep (s : Registry) (event : RegistryEvent) : Option Registry :=
  match event, s.sweep with
  | .snapshot, .idle =>
    some { s with sweep := .probing s.sys.rm.dataNodeEndpointMap.toList [] }
  | .heartbeat isAck, .probing (node :: datanodes) deadNodes =>
    let deadNodes := if isAck then deadNodes else deadNodes ++ [node]
    some { s with sweep := .probing datanodes deadNodes }
  | .evict, .probing [] deadNodes =>
    let endpoints := deadNodes.foldl (fun m node => m.erase node.1) s.sys.rm.dataNodeEndpointMap
    some { s with
      sys := { s.sys with rm := { s.sys.rm with dataNodeEndpointMap := endpoints } }
      sweep := .erasing deadNodes }
  | .eraseHolders, .erasing (node :: deadNodes) =>
    some { s with
      sys := { s.sys with rm := (System.withoutHolder s.sys.rm node.1).persistState }
      sweep := .rebalancing node.2 (System.rebalanceTargets s.sys.rm node.1) deadNodes }
  | .readSource served alive, .rebalancing failed (target :: targets) deadNodes =>
    match s.sys.sourceFile target served with
    | none => some { s with sweep := .rebalancing failed targets deadNodes }
    | some file =>
      some { s with sweep := .copying failed (s.sys.fileCopy target file alive) targets deadNodes }
  | .writeBack answer, .copying failed copy targets deadNodes =>
    some { s with
      sys := s.sys.writeHolders answer copy
      sweep := .rebalancing failed targets deadNodes }
  | .rebalanced, .rebalancing _ [] deadNodes => some { s with sweep := .erasing deadNodes }
  | .finish, .erasing [] => some { s with sweep := .idle }
  | _, _ => none

def step (s : Registry) : RegistryEvent → Option Registry
  | .acceptDataNode name =>
    let endpoints := s.sys.rm.dataNodeEndpointMap.insert name s.next
    some { s with
      sys := { s.sys with rm := { s.sys.rm with dataNodeEndpointMap := endpoints } }
      datanodes := (name, s.next) :: s.datanodes
      next := s.next + 1 }
  | .registerFiles name session fileVersionMap =>
    if (name, session) ∈ s.datanodes then
      let rm := s.sys.rm.registerDataNodeFiles name session fileVersionMap
      some { s with sys := { s.sys with rm := rm } }
    else none
  | .acceptClient name =>
    some { s with
      clientEndpointMap := s.clientEndpointMap.insert name s.next
      clients := (name, s.next) :: s.clients
      next := s.next + 1 }
  | .close name session =>
    if (name, session) ∈ s.clients then some { s with closing := (name, session) :: s.closing }
    else none
  | .eraseClient task =>
    if task ∈ s.closing then
      some { s with
        clientEndpointMap := s.clientEndpointMap.erase task.1
        closing := s.closing.erase task }
    else none
  | event => s.sweepStep event

/-- A server that has just started. -/
def start (replicationFactor : ℕ) (versionFile : Option Bytes) (nodes : DataNodes) : Registry :=
  { sys := { rm := .start replicationFactor versionFile, nodes := nodes } }

/-- With nothing in between, the steps for one file are `rebalanceFileReplication`. -/
theorem rebalance_alone (s : Registry) (answer : System.RebalanceAnswers) {failed : SessionId}
    {target : Bytes × StrMap SessionId} {targets : List (Bytes × StrMap SessionId)}
    {deadNodes : List (Bytes × SessionId)}
    (hsweep : s.sweep = .rebalancing failed (target :: targets) deadNodes) :
    Runs.Reaches step s { s with
      sys := System.rebalanceFileReplication answer s.sys target
      sweep := .rebalancing failed targets deadNodes } := by
  obtain ⟨served, hserved⟩ : ∃ served, served = System.sourceServes answer target := ⟨_, rfl⟩
  obtain ⟨alive, halive⟩ : ∃ alive : Bytes → SessionId → Bool,
      alive = fun name session => answer.create target.1 name session != .dead := ⟨_, rfl⟩
  rw [System.rebalance_eq, ← halive, ← hserved]
  cases hfile : s.sys.sourceFile target served with
  | none =>
    refine .single (.readSource served alive) ?_
    simp only [step, sweepStep, hsweep, hfile]
    rfl
  | some file =>
    have hread : s.step (.readSource served alive) = some { s with
        sweep := .copying failed (s.sys.fileCopy target file alive) targets deadNodes } := by
      simp only [step, sweepStep, hsweep, hfile]
    exact (Runs.Reaches.single _ hread).trans (.single (.writeBack (answer.create target.1)) rfl)

/-- **A sweep by itself**: the steps for one dead name are `eraseFromReplicationMap`. -/
theorem erase_alone (s : Registry) (answer : System.RebalanceAnswers) {node : Bytes × SessionId}
    {deadNodes : List (Bytes × SessionId)} (hsweep : s.sweep = .erasing (node :: deadNodes)) :
    Runs.Reaches step s { s with
      sys := s.sys.eraseFromReplicationMap answer node.1
      sweep := .erasing deadNodes } := by
  have htargets : ∀ (targets : List (Bytes × StrMap SessionId)) (t : Registry),
      t.sweep = .rebalancing node.2 targets deadNodes →
      Runs.Reaches step t { t with
        sys := targets.foldl (System.rebalanceFileReplication answer) t.sys
        sweep := .erasing deadNodes } := by
    intro targets
    induction targets with
    | nil =>
      intro t ht
      refine .single .rebalanced ?_
      simp only [step, sweepStep, ht]
      rfl
    | cons target targets ih =>
      intro t ht
      exact (rebalance_alone t answer ht).trans (ih _ rfl)
  have herase : s.step .eraseHolders = some { s with
      sys := { s.sys with rm := (System.withoutHolder s.sys.rm node.1).persistState }
      sweep := .rebalancing node.2 (System.rebalanceTargets s.sys.rm node.1) deadNodes } := by
    simp only [step, sweepStep, hsweep]
  exact (Runs.Reaches.single _ herase).trans (htargets _ _ rfl)

/-! ### What is removed, and on whose behalf -/

/-- A place where a session is registered. -/
inductive Slot where
  | node (name : Bytes)
  | client (name : Bytes)
  | holder (filePath name : Bytes)
deriving DecidableEq, Repr

/-- The session that is registered there. -/
def session (s : Registry) : Slot → Option SessionId
  | .node name => s.sys.rm.dataNodeEndpointMap[name]?
  | .client name => s.clientEndpointMap[name]?
  | .holder filePath name => (s.sys.rm.holders filePath)[name]?

/-- The failed or closed session because of which the event touches the slot. -/
def FailedFor (s : Registry) : RegistryEvent → Slot → SessionId → Prop
  | .evict, .node name, failed => (name, failed) ∈ s.sweep.deadNodes
  | .eraseHolders, .holder _ name, failed => s.sweep.deadNodes.head? = some (name, failed)
  | .writeBack _, .holder _ _, failed =>
    ∃ copy targets deadNodes, s.sweep = .copying failed copy targets deadNodes
  | .eraseClient task, .client name, failed => task = (name, failed)
  | _, _, _ => False

/-- No session registers under a name, or as a holder, that is about to be erased or
written over on behalf of an older one; a heartbeat fails, and a CLOSE comes, only on a
session that has not been replaced; and the candidates of a copy are no newer sessions
of the file's holders or of names that are about to be erased. -/
def InOrder (s : Registry) : RegistryEvent → Prop
  | .acceptDataNode name => ∀ failed, (name, failed) ∉ s.sweep.evicting
  | .registerFiles name session fileVersionMap => ∀ filePath ∈ fileVersionMap,
    (∀ failed, (name, failed) ∈ s.sweep.deadNodes → session ≤ failed) ∧
      ∀ failed old, s.sweep.Writes failed filePath name old → session ≤ failed ∨ session = old
  | .acceptClient name => ∀ failed, (name, failed) ∉ s.closing
  | .close name session => ∀ new, s.clientEndpointMap[name]? = some new → new ≤ session
  | .heartbeat isAck => isAck = false → ∀ name session datanodes deadNodes,
    s.sweep = .probing ((name, session) :: datanodes) deadNodes →
      (∀ new, s.sys.rm.dataNodeEndpointMap[name]? = some new → new ≤ session) ∧
      ∀ filePath new, (s.sys.rm.holders filePath)[name]? = some new → new ≤ session
  | .readSource _ alive => ∀ failed target targets deadNodes,
    s.sweep = .rebalancing failed (target :: targets) deadNodes →
      ∀ name session, (name, session) ∈ s.sys.rebalanceCandidates target.2 alive →
        (∀ new, (s.sys.rm.holders target.1)[name]? = some new → new ≤ failed ∨ new = session) ∧
        ∀ dead, (name, dead) ∈ deadNodes → session ≤ dead
  | _ => True

/-! ### The invariant -/

/-- The session is, or may come to be, among the holders. -/
def Incoming (s : Registry) (filePath name : Bytes) (new : SessionId) : Prop :=
  (s.sys.rm.holders filePath)[name]? = some new ∨
    ∃ failed, s.sweep.Writes failed filePath name new

/-- What is still to be erased or written back meets no session that is newer than the
failed one. -/
structure Clean (s : Registry) : Prop where
  evicted : ∀ name failed new, (name, failed) ∈ s.sweep.evicting →
    s.sys.rm.dataNodeEndpointMap[name]? = some new → new ≤ failed
  closed : ∀ name failed new, (name, failed) ∈ s.closing →
    s.clientEndpointMap[name]? = some new → new ≤ failed
  erased : ∀ filePath name failed new, (name, failed) ∈ s.sweep.deadNodes →
    s.Incoming filePath name new → new ≤ failed
  written : ∀ filePath name failed old new, s.sweep.Writes failed filePath name old →
    s.Incoming filePath name new → new ≤ failed ∨ new = old
  paths : s.sweep.paths.Nodup

namespace Clean

variable {s s' : Registry}

theorem start (replicationFactor : ℕ) (versionFile : Option Bytes) (nodes : DataNodes) :
    Clean (Registry.start replicationFactor versionFile nodes) where
  evicted _ _ _ h := absurd h List.not_mem_nil
  closed _ _ _ h := absurd h List.not_mem_nil
  erased _ _ _ _ h := absurd h List.not_mem_nil
  written _ _ _ _ _ h := h.elim
  paths := List.nodup_nil

/-- Less is pending, and no other session is there. -/
theorem weaken (h : Clean s)
    (hevicted : ∀ name failed new, (name, failed) ∈ s'.sweep.evicting →
      s'.sys.rm.dataNodeEndpointMap[name]? = some new →
      (name, failed) ∈ s.sweep.evicting ∧ s.sys.rm.dataNodeEndpointMap[name]? = some new)
    (hclosed : ∀ name failed new, (name, failed) ∈ s'.closing →
      s'.clientEndpointMap[name]? = some new →
      (name, failed) ∈ s.closing ∧ s.clientEndpointMap[name]? = some new)
    (hdead : s'.sweep.deadNodes ⊆ s.sweep.deadNodes)
    (hincoming : ∀ filePath name new, s'.Incoming filePath name new → s.Incoming filePath name new)
    (hwrites : ∀ failed filePath name old, s'.sweep.Writes failed filePath name old →
      s.sweep.Writes failed filePath name old)
    (hpaths : s'.sweep.paths.Nodup) : Clean s' where
  evicted name failed new hmem hnew := by
    obtain ⟨hmem, hnew⟩ := hevicted name failed new hmem hnew
    exact h.evicted name failed new hmem hnew
  closed name failed new hmem hnew := by
    obtain ⟨hmem, hnew⟩ := hclosed name failed new hmem hnew
    exact h.closed name failed new hmem hnew
  erased filePath name failed new hmem hnew :=
    h.erased filePath name failed new (hdead hmem) (hincoming filePath name new hnew)
  written filePath name failed old new hw hnew :=
    h.written filePath name failed old new (hwrites failed filePath name old hw)
      (hincoming filePath name new hnew)
  paths := hpaths

/-- The sweep goes on without a look at the maps, and has less to do. -/
theorem moveOn (h : Clean s) {sweep : Sweep} (hevicting : sweep.evicting ⊆ s.sweep.evicting)
    (hdead : sweep.deadNodes ⊆ s.sweep.deadNodes)
    (hwrites : ∀ failed filePath name old, sweep.Writes failed filePath name old →
      s.sweep.Writes failed filePath name old)
    (hpaths : sweep.paths.Nodup) : Clean { s with sweep := sweep } := by
  refine h.weaken ?_ ?_ hdead ?_ hwrites hpaths
  · intro name failed new hmem hnew
    exact ⟨hevicting hmem, hnew⟩
  · intro name failed new hmem hnew
    exact ⟨hmem, hnew⟩
  · rintro filePath name new (hnew | ⟨failed, hw⟩)
    · exact Or.inl hnew
    · exact Or.inr ⟨failed, hwrites failed filePath name new hw⟩

/-! #### Registrations and CLOSE -/

theorem acceptDataNode (h : Clean s) {name : Bytes} (horder : s.InOrder (.acceptDataNode name))
    (hstep : s.step (.acceptDataNode name) = some s') : Clean s' := by
  obtain rfl := Option.some.inj hstep
  refine { h with evicted := ?_ }
  intro other failed new hmem hnew
  have hne : name ≠ other := by
    rintro rfl
    exact horder failed hmem
  refine h.evicted other failed new hmem ?_
  rw [← hnew]
  simp [Std.ExtTreeMap.getElem?_insert, hne]

theorem registerFiles (h : Clean s) {name : Bytes} {session : SessionId}
    {fileVersionMap : StrMap Int32} (horder : s.InOrder (.registerFiles name session fileVersionMap))
    (hstep : s.step (.registerFiles name session fileVersionMap) = some s') : Clean s' := by
  simp only [Registry.step] at hstep
  split at hstep
  swap
  · simp at hstep
  obtain rfl := Option.some.inj hstep
  -- what is new among the holders is the registered session
  have hincoming : ∀ filePath n new, Registry.Incoming { s with sys := { s.sys with
        rm := s.sys.rm.registerDataNodeFiles name session fileVersionMap } } filePath n new →
      (filePath ∈ fileVersionMap ∧ n = name ∧ new = session) ∨ s.Incoming filePath n new := by
    rintro filePath n new (hnew | hw)
    · rcases ReplicationManager.session_registerDataNodeFiles _ hnew with hreg | hold
      · exact Or.inl hreg
      · exact Or.inr (Or.inl hold)
    · exact Or.inr (Or.inr hw)
  refine ⟨?_, h.closed, ?_, ?_, h.paths⟩
  · intro other failed new hmem hnew
    refine h.evicted other failed new hmem ?_
    rw [← hnew]
    exact congrArg (·[other]?) (ReplicationManager.registerFiles_endpoints _ _).symm
  · intro filePath n failed new hmem hnew
    rcases hincoming filePath n new hnew with ⟨hfile, rfl, rfl⟩ | hold
    · exact (horder filePath hfile).1 failed hmem
    · exact h.erased filePath n failed new hmem hold
  · intro filePath n failed old new hw hnew
    rcases hincoming filePath n new hnew with ⟨hfile, rfl, rfl⟩ | hold
    · exact (horder filePath hfile).2 failed old hw
    · exact h.written filePath n failed old new hw hold

theorem acceptClient (h : Clean s) {name : Bytes} (horder : s.InOrder (.acceptClient name))
    (hstep : s.step (.acceptClient name) = some s') : Clean s' := by
  obtain rfl := Option.some.inj hstep
  refine { h with closed := ?_ }
  intro other failed new hmem hnew
  have hne : name ≠ other := by
    rintro rfl
    exact horder failed hmem
  refine h.closed other failed new hmem ?_
  rw [← hnew]
  simp [Std.ExtTreeMap.getElem?_insert, hne]

theorem close (h : Clean s) {name : Bytes} {session : SessionId}
    (horder : s.InOrder (.close name session)) (hstep : s.step (.close name session) = some s') :
    Clean s' := by
  simp only [Registry.step] at hstep
  split at hstep
  swap
  · simp at hstep
  obtain rfl := Option.some.inj hstep
  refine { h with closed := ?_ }
  intro other failed new hmem hnew
  rcases List.mem_cons.mp hmem with heq | hmem
  · obtain ⟨rfl, rfl⟩ := Prod.mk.inj heq
    exact horder new hnew
  · exact h.closed other failed new hmem hnew

theorem eraseClient (h : Clean s) {task : Bytes × SessionId}
    (hstep : s.step (.eraseClient task) = some s') : Clean s' := by
  simp only [Registry.step] at hstep
  split at hstep
  swap
  · simp at hstep
  obtain rfl := Option.some.inj hstep
  refine { h with closed := ?_ }
  intro other failed new hmem hnew
  refine h.closed other failed new (List.mem_of_mem_erase hmem) ?_
  simp only [Std.ExtTreeMap.getElem?_erase] at hnew
  split at hnew
  · simp at hnew
  · exact hnew

/-! #### The steps of a sweep -/

theorem heartbeat (h : Clean s) {isAck : Bool} {node : Bytes × SessionId}
    {datanodes deadNodes : List (Bytes × SessionId)}
    (hsweep : s.sweep = .probing (node :: datanodes) deadNodes)
    (horder : s.InOrder (.heartbeat isAck)) :
    Clean { s with sweep := .probing datanodes (if isAck then deadNodes else deadNodes ++ [node]) }
    := by
  have hevicting : s.sweep.evicting = deadNodes := by rw [hsweep]; rfl
  have hdead : s.sweep.deadNodes = deadNodes := by rw [hsweep]; rfl
  cases isAck with
  | true =>
    refine h.moveOn ?_ ?_ (fun _ _ _ _ hw => hw.elim) List.nodup_nil
    · rw [hevicting]
      exact List.Subset.refl deadNodes
    · rw [hdead]
      exact List.Subset.refl deadNodes
  | false =>
    obtain ⟨hnode, hholder⟩ := horder rfl node.1 node.2 datanodes deadNodes hsweep
    refine ⟨?_, h.closed, ?_, fun _ _ _ _ _ hw => hw.elim, List.nodup_nil⟩
    · intro name failed new hmem hnew
      rcases List.mem_append.mp hmem with hold | hlast
      · exact h.evicted name failed new (hevicting ▸ hold) hnew
      · obtain rfl := List.mem_singleton.mp hlast
        exact hnode new hnew
    · rintro filePath name failed new hmem (hnew | ⟨_, hw⟩)
      · rcases List.mem_append.mp hmem with hold | hlast
        · exact h.erased filePath name failed new (hdead ▸ hold) (Or.inl hnew)
        · obtain rfl := List.mem_singleton.mp hlast
          exact hholder filePath new hnew
      · exact hw.elim

theorem evict (h : Clean s) {deadNodes : List (Bytes × SessionId)}
    (hsweep : s.sweep = .probing [] deadNodes) (endpoints : StrMap SessionId) :
    Clean { s with
      sys := { s.sys with rm := { s.sys.rm with dataNodeEndpointMap := endpoints } }
      sweep := .erasing deadNodes } := by
  refine h.weaken ?_ (fun _ _ _ hmem hnew => ⟨hmem, hnew⟩) ?_ ?_ (fun _ _ _ _ hw => hw.elim)
    List.nodup_nil
  · intro name failed new hmem
    exact absurd hmem List.not_mem_nil
  · rw [hsweep]
    exact List.Subset.refl _
  · rintro filePath name new (hnew | ⟨_, hw⟩)
    · exact Or.inl hnew
    · exact hw.elim

/-- The holders that are to be written back are those that are left. -/
theorem holder_of_target {rm : ReplicationManager} {name : Bytes} {filePath n : Bytes}
    {h : StrMap SessionId} (htarget : (filePath, h) ∈ System.rebalanceTargets rm name) :
    h[n]? = ((System.withoutHolder rm name).holders filePath)[n]? := by
  have hleft : h = (rm.holders filePath).erase name := (System.mem_rebalanceTargets htarget).2
  rw [System.holders_withoutHolder, hleft]

theorem paths_rebalanceTargets (rm : ReplicationManager) (name : Bytes) :
    ((System.rebalanceTargets rm name).map Prod.fst).Nodup := by
  rw [List.Nodup, List.pairwise_map]
  exact System.rebalanceTargets_distinct rm name

theorem eraseHolders (h : Clean s) {node : Bytes × SessionId}
    {deadNodes : List (Bytes × SessionId)} (hsweep : s.sweep = .erasing (node :: deadNodes)) :
    Clean { s with
      sys := { s.sys with rm := (System.withoutHolder s.sys.rm node.1).persistState }
      sweep := .rebalancing node.2 (System.rebalanceTargets s.sys.rm node.1) deadNodes } := by
  -- whoever is or comes among the holders is there now, and was before
  have hleft : ∀ filePath name new, Registry.Incoming { s with
        sys := { s.sys with rm := (System.withoutHolder s.sys.rm node.1).persistState }
        sweep := .rebalancing node.2 (System.rebalanceTargets s.sys.rm node.1) deadNodes }
        filePath name new →
      ((System.withoutHolder s.sys.rm node.1).holders filePath)[name]? = some new := by
    rintro filePath name new (hnew | ⟨failed, -, holders, htarget, hnew⟩)
    · exact hnew
    · rw [← holder_of_target htarget]
      exact hnew
  have hbefore : ∀ (filePath name : Bytes) (new : SessionId),
      ((System.withoutHolder s.sys.rm node.1).holders filePath)[name]? = some new →
      (s.sys.rm.holders filePath)[name]? = some new := by
    intro filePath name new hnew
    rw [System.holders_withoutHolder, Std.ExtTreeMap.getElem?_erase] at hnew
    split at hnew
    · simp at hnew
    · exact hnew
  refine ⟨?_, h.closed, ?_, ?_, paths_rebalanceTargets _ _⟩
  · intro name failed new hmem
    exact absurd hmem List.not_mem_nil
  · intro filePath name failed new hmem hnew
    refine h.erased filePath name failed new ?_
      (Or.inl (hbefore filePath name new (hleft filePath name new hnew)))
    rw [hsweep]
    exact List.mem_cons_of_mem _ hmem
  · rintro filePath name failed old new ⟨-, holders, htarget, hold⟩ hnew
    have hnow := hleft filePath name new hnew
    rw [← holder_of_target htarget, hold] at hnow
    exact Or.inr (Option.some.inj hnow).symm

/-- New among what is to be written are the candidates. -/
theorem writes_fileCopy {failed : SessionId} {target : Bytes × StrMap SessionId}
    {targets : List (Bytes × StrMap SessionId)} {deadNodes : List (Bytes × SessionId)}
    (hsweep : s.sweep = .rebalancing failed (target :: targets) deadNodes) {file : StoredFile}
    {alive : Bytes → SessionId → Bool} {f : SessionId} {filePath name : Bytes} {session : SessionId}
    (hw : Sweep.Writes (.copying failed (s.sys.fileCopy target file alive) targets deadNodes)
      f filePath name session) :
    s.sweep.Writes f filePath name session ∨ (f = failed ∧ filePath = target.1 ∧
      (name, session) ∈ s.sys.rebalanceCandidates target.2 alive) := by
  rw [hsweep]
  obtain ⟨rfl, ⟨holders, hmem, hold⟩ | ⟨hpath, hold | hcand⟩⟩ := hw
  · exact Or.inl ⟨rfl, holders, List.mem_cons_of_mem _ hmem, hold⟩
  · refine Or.inl ⟨rfl, target.2, ?_, hold⟩
    rw [hpath]
    exact List.mem_cons_self
  · exact Or.inr ⟨rfl, hpath, hcand⟩

/-- A candidate is none of the holders that are to be written. -/
theorem candidate_not_written (h : Clean s) {failed : SessionId}
    {target : Bytes × StrMap SessionId} {targets : List (Bytes × StrMap SessionId)}
    {deadNodes : List (Bytes × SessionId)}
    (hsweep : s.sweep = .rebalancing failed (target :: targets) deadNodes)
    {alive : Bytes → SessionId → Bool} {f : SessionId} {name : Bytes} {session other : SessionId}
    (hw : s.sweep.Writes f target.1 name session) :
    (name, other) ∉ s.sys.rebalanceCandidates target.2 alive := by
  intro hcand
  have hpaths := h.paths
  rw [hsweep] at hw hpaths
  obtain ⟨-, holders, hmem, hold⟩ := hw
  rcases List.mem_cons.mp hmem with heq | hrest
  · have hmap : holders = target.2 := congrArg Prod.snd heq
    have hnone := System.not_holder_of_candidate hcand
    rw [← hmap, hold] at hnone
    simp at hnone
  · exact absurd (List.mem_map_of_mem hrest) (List.nodup_cons.mp hpaths).1

theorem readSource (h : Clean s) {failed : SessionId} {target : Bytes × StrMap SessionId}
    {targets : List (Bytes × StrMap SessionId)} {deadNodes : List (Bytes × SessionId)}
    (hsweep : s.sweep = .rebalancing failed (target :: targets) deadNodes) {served : Bool}
    {alive : Bytes → SessionId → Bool} (horder : s.InOrder (.readSource served alive))
    (file : StoredFile) :
    Clean { s with
      sweep := .copying failed (s.sys.fileCopy target file alive) targets deadNodes } := by
  have hpaths := h.paths
  rw [hsweep] at hpaths
  have hincoming : ∀ filePath name new, Registry.Incoming { s with
        sweep := .copying failed (s.sys.fileCopy target file alive) targets deadNodes }
        filePath name new →
      s.Incoming filePath name new ∨ (filePath = target.1 ∧
        (name, new) ∈ s.sys.rebalanceCandidates target.2 alive) := by
    rintro filePath name new (hnew | ⟨f, hw⟩)
    · exact Or.inl (Or.inl hnew)
    · exact (writes_fileCopy hsweep hw).imp (fun hw => Or.inr ⟨f, hw⟩) And.right
  have hcandidate := horder failed target targets deadNodes hsweep
  refine ⟨?_, h.closed, ?_, ?_, hpaths⟩
  · intro name failed new hmem
    exact absurd hmem List.not_mem_nil
  · intro filePath name dead new hmem hnew
    rcases hincoming filePath name new hnew with hold | ⟨-, hcand⟩
    · exact h.erased filePath name dead new (by rw [hsweep]; exact hmem) hold
    · exact (hcandidate name new hcand).2 dead hmem
  · intro filePath name f old new hw hnew
    rcases writes_fileCopy hsweep hw with hw | ⟨rfl, rfl, hcand⟩
    · rcases hincoming filePath name new hnew with hnew | ⟨rfl, hcand⟩
      · exact h.written filePath name f old new hw hnew
      · exact absurd hcand (h.candidate_not_written hsweep hw)
    · rcases hincoming _ name new hnew with (hnew | ⟨f, hw⟩) | ⟨-, hcand'⟩
      · exact (hcandidate name old hcand).1 new hnew
      · exact absurd hcand (h.candidate_not_written hsweep hw)
      · exact Or.inr (System.candidate_session hcand' hcand)

theorem writeBack (h : Clean s) {failed : SessionId} {copy : FileCopy}
    {targets : List (Bytes × StrMap SessionId)} {deadNodes : List (Bytes × SessionId)}
    (hsweep : s.sweep = .copying failed copy targets deadNodes)
    (answer : Bytes → SessionId → WriteAnswer) :
    Clean { s with
      sys := s.sys.writeHolders answer copy
      sweep := .rebalancing failed targets deadNodes } := by
  have hwrites : ∀ f filePath name old,
      Sweep.Writes (.rebalancing failed targets deadNodes) f filePath name old →
      s.sweep.Writes f filePath name old := by
    rintro f filePath name old ⟨hf, hold⟩
    rw [hsweep]
    exact ⟨hf, Or.inl hold⟩
  refine h.weaken ?_ (fun _ _ _ hmem hnew => ⟨hmem, hnew⟩) ?_ ?_ hwrites ?_
  · intro name failed new hmem
    exact absurd hmem List.not_mem_nil
  · rw [hsweep]
    exact List.Subset.refl _
  · rintro filePath name new (hnew | ⟨f, hw⟩)
    · -- a holder that has been written was to be written
      rcases System.session_writeHolders hnew with hw | hold
      · refine Or.inr ⟨failed, ?_⟩
        rw [hsweep]
        exact ⟨rfl, Or.inr hw⟩
      · exact Or.inl hold
    · exact Or.inr ⟨f, hwrites f filePath name new hw⟩
  · have hpaths := h.paths
    rw [hsweep] at hpaths
    exact (List.nodup_cons.mp hpaths).2

/-- **A step of the sweep.** -/
theorem sweepStep (h : Clean s) {event : RegistryEvent} (horder : s.InOrder event)
    (hstep : s.sweepStep event = some s') : Clean s' := by
  rw [Registry.sweepStep.eq_def] at hstep
  split at hstep
  · obtain rfl := Option.some.inj hstep
    exact h.moveOn (List.nil_subset _) (List.nil_subset _) (fun _ _ _ _ hw => hw.elim)
      List.nodup_nil
  · rename_i isAck node datanodes deadNodes hsweep
    obtain rfl := Option.some.inj hstep
    exact h.heartbeat hsweep horder
  · rename_i deadNodes hsweep
    obtain rfl := Option.some.inj hstep
    exact h.evict hsweep _
  · rename_i node deadNodes hsweep
    obtain rfl := Option.some.inj hstep
    exact h.eraseHolders hsweep
  · rename_i served alive failed target targets deadNodes hsweep
    split at hstep
    · -- the file is not copied
      obtain rfl := Option.some.inj hstep
      refine h.moveOn (List.nil_subset _) ?_ ?_ ?_
      · rw [hsweep]
        exact List.Subset.refl _
      · rintro f filePath name old ⟨hf, holders, hmem, hold⟩
        rw [hsweep]
        exact ⟨hf, holders, List.mem_cons_of_mem _ hmem, hold⟩
      · have hpaths := h.paths
        rw [hsweep] at hpaths
        exact (List.nodup_cons.mp hpaths).2
    · rename_i file _
      obtain rfl := Option.some.inj hstep
      exact h.readSource hsweep horder file
  · rename_i answer failed copy targets deadNodes hsweep
    obtain rfl := Option.some.inj hstep
    exact h.writeBack hsweep answer
  · rename_i failed deadNodes hsweep
    obtain rfl := Option.some.inj hstep
    refine h.moveOn (List.nil_subset _) ?_ (fun _ _ _ _ hw => hw.elim) List.nodup_nil
    rw [hsweep]
    exact List.Subset.refl _
  · obtain rfl := Option.some.inj hstep
    exact h.moveOn (List.nil_subset _) (List.nil_subset _) (fun _ _ _ _ hw => hw.elim)
      List.nodup_nil
  · simp at hstep

/-- **One step**, of any thread. -/
theorem step (h : Clean s) {event : RegistryEvent} (horder : s.InOrder event)
    (hstep : s.step event = some s') : Clean s' := by
  cases event with
  | acceptDataNode name => exact h.acceptDataNode horder hstep
  | registerFiles name session fileVersionMap => exact h.registerFiles horder hstep
  | acceptClient name => exact h.acceptClient horder hstep
  | close name session => exact h.close horder hstep
  | eraseClient task => exact h.eraseClient hstep
  | snapshot | heartbeat isAck | evict | eraseHolders | readSource served alive
  | writeBack answer | rebalanced | finish => exact h.sweepStep horder hstep

/-- What a sweep or a CLOSE removes is no newer than the session it is about. -/
theorem removes (h : Clean s) {event : RegistryEvent} (hstep : s.step event = some s')
    {slot : Slot} {new failed : SessionId} (hold : s.session slot = some new)
    (hgone : s'.session slot ≠ some new) (hfailed : s.FailedFor event slot failed) :
    new ≤ failed := by
  cases event with
  | evict =>
    cases slot with
    | node name =>
      have hevicting : s.sweep.evicting = s.sweep.deadNodes := by
        cases hsweep : s.sweep with
        | probing datanodes deadNodes => rfl
        | idle | erasing _ | rebalancing _ _ _ | copying _ _ _ _ =>
          simp [Registry.step, Registry.sweepStep, hsweep] at hstep
      exact h.evicted name failed new (hevicting ▸ hfailed) hold
    | client name | holder filePath name => exact hfailed.elim
  | eraseHolders =>
    cases slot with
    | holder filePath name =>
      exact h.erased filePath name failed new (List.mem_of_head? hfailed) (Or.inl hold)
    | client name | node name => exact hfailed.elim
  | writeBack answer =>
    cases slot with
    | holder filePath name =>
      obtain ⟨copy, targets, deadNodes, hsweep⟩ := hfailed
      simp only [Registry.step, Registry.sweepStep, hsweep, Option.some.injEq] at hstep
      subst hstep
      obtain ⟨other, hwrites, hne⟩ := System.writeHolders_over hold hgone
      have hpending : s.sweep.Writes failed filePath name other := by
        rw [hsweep]
        exact ⟨rfl, Or.inr hwrites⟩
      rcases h.written filePath name failed other new hpending (Or.inl hold) with hle | heq
      · exact hle
      · exact absurd heq.symm hne
    | client name | node name => exact hfailed.elim
  | eraseClient task =>
    cases slot with
    | client name =>
      simp only [Registry.step] at hstep
      split at hstep
      · rename_i hmem
        have htask : task = (name, failed) := hfailed
        exact h.closed name failed new (htask ▸ hmem) hold
      · simp at hstep
    | node name | holder filePath name => exact hfailed.elim
  | acceptDataNode _ | registerFiles _ _ _ | acceptClient _ | close _ _ | snapshot | heartbeat _
  | readSource _ _ | rebalanced | finish => exact hfailed.elim

end Clean

end Registry

open Registry in
/-- **Eviction removes only the failed session**: in every run whose events are in order,
whatever a sweep or a CLOSE removes from the endpoint maps or from the holders of a file
did not register after the session that failed or was closed. -/
theorem eviction_spares_newer (replicationFactor : ℕ) (versionFile : Option Bytes)
    (nodes : DataNodes) (events : List RegistryEvent)
    (hmeets : Runs.Meets step InOrder (start replicationFactor versionFile nodes) events)
    (s : Registry) (hrun : Runs.run step (start replicationFactor versionFile nodes) events = some s)
    (event : RegistryEvent) (s' : Registry) (hstep : s.step event = some s') (slot : Slot)
    (new failed : SessionId) (hold : s.session slot = some new)
    (hgone : s'.session slot ≠ some new) (hfailed : s.FailedFor event slot failed) :
    new ≤ failed := by
  have hclean : Clean s := by
    refine Runs.run_invariant ?_ (Clean.start replicationFactor versionFile nodes) hmeets hrun
    intro s event s' hclean horder hstep
    exact hclean.step horder hstep
  exact hclean.removes hstep hold hgone hfailed

/-- The datanode `d` registers its file `f`, connects again and fails the heartbeat on its new
session 1: what is erased from the holders of `f` is the old session 0. -/
theorem eviction_spares_newer_reconnected :
    let d : Bytes := [100]
    let f : Bytes := [102]
    let files : StrMap Int32 := (∅ : StrMap Int32).insert f 1
    let start := Registry.start 2 none fun _ _ => none
    let events : List RegistryEvent := [.acceptDataNode d, .registerFiles d 0 files,
      .acceptDataNode d, .snapshot, .heartbeat false, .evict]
    ∃ (s s' : Registry) (old failed : SessionId), Runs.run Registry.step start events = some s ∧
      s.step .eraseHolders = some s' ∧ s.session (.holder f d) = some old ∧
      s'.session (.holder f d) = none ∧ s.sweep.deadNodes = [(d, failed)] ∧ old ≤ failed ∧
      old ≠ failed := by
  intro d f files start events
  have hmeets : Runs.Meets Registry.step Registry.InOrder start events := by
    have hnone : ∀ failed : SessionId, (d, failed) ∉ ([] : List (Bytes × SessionId)) := by simp
    have hfresh : ∀ s : Registry, s.sweep = .idle → s.InOrder (.registerFiles d 0 files) := by
      intro s hidle _ _
      rw [hidle]
      exact ⟨by simp [Sweep.deadNodes], by simp [Sweep.Writes]⟩
    refine .cons rfl hnone (.cons rfl (hfresh _ rfl) (.cons rfl hnone (.cons rfl True.intro
      (.cons rfl ?_ (.cons rfl True.intro True.intro)))))
    intro _ name session datanodes deadNodes hsweep
    have hlist : (((∅ : StrMap SessionId).insert d 0).insert d 1).toList = [(d, 1)] := by decide
    obtain ⟨hnodes, -⟩ := Sweep.probing.inj hsweep
    obtain ⟨rfl, rfl⟩ : d = name ∧ 1 = session :=
      Prod.mk.inj (List.cons.inj (hlist.symm.trans hnodes)).1
    constructor
    · intro new hnew
      have hsome : (((∅ : StrMap SessionId).insert d 0).insert d 1)[d]? = some new := hnew
      rw [Std.ExtTreeMap.getElem?_insert_self] at hsome
      exact (Option.some.inj hsome).symm.le
    · intro filePath new hnew
      have hsome : (((∅ : StrMap (StrMap SessionId)).insert f
          ((∅ : StrMap SessionId).insert d 0))[filePath]?.getD ∅)[d]? = some new := hnew
      rw [Std.ExtTreeMap.getElem?_insert] at hsome
      split at hsome
      · rw [Option.getD_some, Std.ExtTreeMap.getElem?_insert_self] at hsome
        rw [← Option.some.inj hsome]
        exact Nat.zero_le 1
      · simp at hsome
  have hran : ((Runs.run Registry.step start events).bind fun s =>
      s.step .eraseHolders).isSome = true := by
    decide
  obtain ⟨s', hbind⟩ := Option.isSome_iff_exists.mp hran
  obtain ⟨s, hrun, hstep⟩ := Option.bind_eq_some_iff.mp hbind
  have hbefore : (Runs.run Registry.step start events).map
      (fun s => (s.session (.holder f d), s.sweep.deadNodes)) = some (some 0, [(d, 1)]) := by
    decide
  have hafter : ((Runs.run Registry.step start events).bind fun s => s.step .eraseHolders).map
      (fun s => s.session (.holder f d)) = some none := by decide
  rw [hrun] at hbefore
  rw [hbind] at hafter
  obtain ⟨hold, hdead⟩ := Prod.mk.inj (Option.some.inj hbefore)
  have hgone : s'.session (.holder f d) = none := Option.some.inj hafter
  have hfailed : s.FailedFor .eraseHolders (.holder f d) 1 := by
    show s.sweep.deadNodes.head? = some (d, 1)
    rw [hdead]
    rfl
  refine ⟨s, s', 0, 1, hrun, hstep, hold, hgone, hdead, ?_, by decide⟩
  exact eviction_spares_newer 2 none (fun _ _ => none) events hmeets s hrun .eraseHolders s' hstep
    (.holder f d) 0 1 hold (by simp [hgone]) hfailed

/-- The datanode `d` connects again, with its file `f`, after its session 0 has failed the
heartbeat and before its name is erased; the client `c` connects again after the CLOSE of
its session 2 and before the pool erases its name.  Both new sessions are removed. -/
theorem reconnected_evicted :
    let d : Bytes := [100]
    let c : Bytes := [99]
    let f : Bytes := [102]
    let files : StrMap Int32 := (∅ : StrMap Int32).insert f 1
    let failed : List RegistryEvent := [.acceptDataNode d, .snapshot, .heartbeat false,
      .acceptDataNode d, .registerFiles d 1 files]
    let closed : List RegistryEvent := [.acceptClient c, .close c 2, .acceptClient c]
    let start := Registry.start 2 none fun _ _ => none
    let sessions := fun s : Registry => (s.session (.node d), s.session (.holder f d),
      s.session (.client c))
    ((Runs.run Registry.step start (failed ++ closed)).map fun s =>
        (s.sweep.deadNodes, s.closing)) = some ([(d, 0)], [(c, 2)]) ∧
      ((Runs.run Registry.step start (failed ++ closed)).map sessions)
        = some (some 1, some 1, some 3) ∧
      ((Runs.run Registry.step start (failed ++ closed ++ [.evict, .eraseHolders,
        .eraseClient (c, 2)])).map sessions) = some (none, none, none) := by
  decide

end Squid
