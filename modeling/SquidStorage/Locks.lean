/-
The lock table (`LockManager`).

A lock is an entry with a holder and an expiration time.  `acquireLock` sets all
three, `releaseLock` clears the entry of whoever holds it, the expiry sweep clears
what has expired, and a committed DELETE takes the entry out.  Nothing happens to
the locks of a client that closes its connection.

* `lockHolder` — the table as a function: who holds the lock of a path;
* `lock_lifecycle_iff` — the table says what the history says exactly when every
  RELEASE_LOCK of a locked path comes from its holder and no client closes while
  it holds a lock;
* `release_by_stranger` — the two ways in which it goes wrong.
-/
import SquidStorage.HolderSets
import SquidStorage.Runs

open BigEndian

namespace Squid

/-! ### The lock manager -/

/-- `chrono::minutes(DEFAULT_LOCK_INTERVAL)` in nanoseconds. -/
def lockInterval : ℕ := 5 * 60 * 10 ^ 9

namespace ReplicationManager

/-- `LockManager::acquireLock`; `replies` answers the `buildFileLockMap` of an
unknown path. -/
def acquireLock (rm : ReplicationManager) (path clientName : Bytes) (now : ℕ)
    (replies : List (StrMap Int32)) : Bool × ReplicationManager :=
  let rm := if path ∈ rm.fileLockMap then rm else rm.buildFileLockMap replies
  match rm.fileLockMap[path]? with
  | none => (false, rm)
  | some lock =>
    if lock.locked then (false, rm)
    else
      let lock := { lock with
        locked := true, clientHolder := clientName, expiration := now + lockInterval }
      (true, { rm with fileLockMap := rm.fileLockMap.insert path lock })

/-- `fileLockMap_[path].setIsLocked(false)` on an entry that exists. -/
def unlock (rm : ReplicationManager) (path : Bytes) : ReplicationManager :=
  match rm.fileLockMap[path]? with
  | none => rm
  | some lock => { rm with fileLockMap := rm.fileLockMap.insert path { lock with locked := false } }

/-- `LockManager::releaseLock`: the caller is not asked for. -/
def releaseLock (rm : ReplicationManager) (path : Bytes) (replies : List (StrMap Int32)) :
    Bool × ReplicationManager :=
  if path ∈ rm.fileLockMap then (true, rm.unlock path) else (false, rm.buildFileLockMap replies)

/-- The locks that a sweep finds expired, with their holders. -/
def expiredLocks (rm : ReplicationManager) (now : ℕ) : List (Bytes × Bytes) :=
  (rm.fileLockMap.toList.filter fun e => e.2.locked && e.2.expiration < now).map fun e =>
    (e.1, e.2.clientHolder)

/-- `LockManager::checkFileLockExpiration`: the expired locks are cleared, and each
holder that is still connected is posted a `releaseLock` task. -/
def checkFileLockExpiration (rm : ReplicationManager) (now : ℕ) :
    ReplicationManager × List (Bytes × Bytes) :=
  let expired := rm.expiredLocks now
  (expired.foldl (fun rm e => rm.unlock e.1) rm,
    expired.filter fun e => rm.clientEndpointMap.contains e.2)

/-- The `CLOSE` case of `handleClientRequest`. -/
def closeClient (rm : ReplicationManager) (clientName : Bytes) : ReplicationManager :=
  { rm with clientEndpointMap := rm.clientEndpointMap.erase clientName }

/-- The holder of a path's lock, `none` when the path is not locked. -/
def lockHolder (rm : ReplicationManager) (path : Bytes) : Option Bytes :=
  rm.fileLockMap[path]?.bind fun lock => if lock.locked then some lock.clientHolder else none

/-- The lock of a path is held and has expired. -/
def Expired (rm : ReplicationManager) (now : ℕ) (path : Bytes) : Prop :=
  ∃ lock, rm.fileLockMap[path]? = some lock ∧ lock.locked = true ∧ lock.expiration < now

/-! ### What the operations do to the holders -/

theorem lockHolder_eq {rm rm' : ReplicationManager} (h : rm'.fileLockMap = rm.fileLockMap)
    (q : Bytes) : rm'.lockHolder q = rm.lockHolder q := by
  rw [lockHolder, lockHolder, h]

/-- A new entry is not locked. -/
theorem lockHolder_insertIfNew (rm : ReplicationManager) (path q : Bytes) :
    ({ rm with fileLockMap := rm.fileLockMap.insertIfNew path {} } :
      ReplicationManager).lockHolder q = rm.lockHolder q := by
  rw [lockHolder, lockHolder, Std.ExtTreeMap.getElem?_insertIfNew]
  split
  · rename_i h
    obtain ⟨hcmp, hnew⟩ := h
    obtain rfl := Std.LawfulEqCmp.compare_eq_iff_eq.mp hcmp
    rw [Std.ExtTreeMap.getElem?_eq_none hnew]
    rfl
  · rfl

theorem lockHolder_buildFileLockMap (rm : ReplicationManager) (replies : List (StrMap Int32))
    (q : Bytes) : (rm.buildFileLockMap replies).lockHolder q = rm.lockHolder q := by
  have hfile : ∀ (rm : ReplicationManager) (file : Bytes × Int32),
      (rm.buildFileLock file).lockHolder q = rm.lockHolder q := by
    intro rm file
    simp only [buildFileLock]
    split <;> exact lockHolder_insertIfNew rm file.1 q
  have hreply : ∀ (files : List (Bytes × Int32)) (rm : ReplicationManager),
      (files.foldl buildFileLock rm).lockHolder q = rm.lockHolder q := by
    intro files
    induction files with
    | nil => exact fun rm => rfl
    | cons file files ih =>
      intro rm
      rw [List.foldl_cons, ih, hfile]
  induction replies generalizing rm with
  | nil => rfl
  | cons reply replies ih =>
    rw [buildFileLockMap, List.foldl_cons]
    exact (ih _).trans (hreply _ rm)

/-- An ACKed ACQUIRE_LOCK finds the path free and gives it to the caller; any
other one changes no holder. -/
theorem lockHolder_acquireLock (rm : ReplicationManager) (path clientName : Bytes) (now : ℕ)
    (replies : List (StrMap Int32)) :
    ((rm.acquireLock path clientName now replies).1 = true → rm.lockHolder path = none) ∧
      ∀ q, (rm.acquireLock path clientName now replies).2.lockHolder q
        = if (rm.acquireLock path clientName now replies).1 = true ∧ path = q then some clientName
          else rm.lockHolder q := by
  set rm' := if path ∈ rm.fileLockMap then rm else rm.buildFileLockMap replies with hrm'
  have hsame : ∀ q, rm'.lockHolder q = rm.lockHolder q := by
    intro q
    rw [hrm']
    split
    · rfl
    · exact lockHolder_buildFileLockMap rm replies q
  simp only [acquireLock, ← hrm']
  cases hentry : rm'.fileLockMap[path]? with
  | none => simp [hsame]
  | some lock =>
    by_cases hlocked : lock.locked
    · simp [hlocked, hsame]
    · refine ⟨fun _ => ?_, fun q => ?_⟩
      · rw [← hsame, lockHolder, hentry]
        simp [hlocked]
      · simp only [hlocked, Bool.false_eq_true, if_false, true_and]
        rw [lockHolder, Std.ExtTreeMap.getElem?_insert]
        by_cases hq : path = q
        · simp [hq]
        · rw [if_neg hq, if_neg fun h => hq (Std.LawfulEqCmp.compare_eq_iff_eq.mp h)]
          exact hsame q

theorem lockHolder_unlock (rm : ReplicationManager) (path q : Bytes) :
    (rm.unlock path).lockHolder q = if path = q then none else rm.lockHolder q := by
  rw [unlock]
  cases hentry : rm.fileLockMap[path]? with
  | none =>
    by_cases hq : path = q
    · subst hq
      simp [lockHolder, hentry]
    · simp [hq]
  | some lock =>
    simp only
    rw [lockHolder, Std.ExtTreeMap.getElem?_insert]
    by_cases hq : path = q
    · simp [hq]
    · rw [if_neg hq, if_neg fun h => hq (Std.LawfulEqCmp.compare_eq_iff_eq.mp h)]
      rfl

/-- A RELEASE_LOCK frees the path, whoever sends it. -/
theorem lockHolder_releaseLock (rm : ReplicationManager) (path : Bytes)
    (replies : List (StrMap Int32)) (q : Bytes) :
    (rm.releaseLock path replies).2.lockHolder q = if path = q then none else rm.lockHolder q := by
  rw [releaseLock]
  split
  · exact lockHolder_unlock rm path q
  · rename_i hnew
    rw [lockHolder_buildFileLockMap]
    split
    · rename_i hq
      subst hq
      rw [lockHolder, Std.ExtTreeMap.getElem?_eq_none hnew]
      rfl
    · rfl

theorem mem_expiredLocks (rm : ReplicationManager) (now : ℕ) (path : Bytes) :
    path ∈ (rm.expiredLocks now).map Prod.fst ↔ rm.Expired now path := by
  rw [expiredLocks, List.map_map, List.mem_map]
  constructor
  · rintro ⟨e, he, rfl⟩
    obtain ⟨hmem, hexpired⟩ := List.mem_filter.mp he
    rw [Bool.and_eq_true, decide_eq_true_eq] at hexpired
    exact ⟨e.2, Std.ExtTreeMap.mem_toList_iff_getElem?_eq_some.mp hmem, hexpired⟩
  · rintro ⟨lock, hlock, hexpired⟩
    refine ⟨(path, lock), List.mem_filter.mpr
      ⟨Std.ExtTreeMap.mem_toList_iff_getElem?_eq_some.mpr hlock, ?_⟩, rfl⟩
    rw [Bool.and_eq_true, decide_eq_true_eq]
    exact hexpired

instance (rm : ReplicationManager) (now : ℕ) (path : Bytes) : Decidable (rm.Expired now path) :=
  match h : rm.fileLockMap[path]? with
  | none => isFalse fun ⟨lock, hlock, _⟩ => absurd (h ▸ hlock) (by simp)
  | some lock =>
    decidable_of_iff (lock.locked = true ∧ lock.expiration < now)
      ⟨fun hexpired => ⟨lock, h, hexpired⟩, fun ⟨_, hlock, hexpired⟩ =>
        Option.some.inj (h ▸ hlock) ▸ hexpired⟩

/-- A sweep frees the paths whose locks have expired. -/
theorem lockHolder_sweep (rm : ReplicationManager) (now : ℕ) (q : Bytes) :
    (rm.checkFileLockExpiration now).1.lockHolder q
      = if rm.Expired now q then none else rm.lockHolder q := by
  have hfold : ∀ (expired : List (Bytes × Bytes)) (rm : ReplicationManager),
      (expired.foldl (fun rm e => rm.unlock e.1) rm).lockHolder q
        = if q ∈ expired.map Prod.fst then none else rm.lockHolder q := by
    intro expired
    induction expired with
    | nil => simp
    | cons e expired ih =>
      intro rm
      rw [List.foldl_cons, ih, lockHolder_unlock]
      by_cases hq : e.1 = q
      · simp [hq]
      · have hmem : q ∈ (e :: expired).map Prod.fst ↔ q ∈ expired.map Prod.fst := by
          rw [List.map_cons, List.mem_cons, or_iff_right (Ne.symm hq)]
        simp only [hmem, if_neg hq]
  rw [checkFileLockExpiration, hfold]
  simp only [mem_expiredLocks]

end ReplicationManager

/-! ### Histories -/

/-- What can happen to the lock table. -/
inductive LockEvent where
  /-- an ACQUIRE_LOCK request, at a time of the system clock -/
  | acquire (clientName filePath : Bytes) (now : ℕ) (replies : List (StrMap Int32))
  /-- a RELEASE_LOCK request -/
  | release (clientName filePath : Bytes) (replies : List (StrMap Int32))
  /-- a CLOSE request -/
  | close (clientName : Bytes)
  /-- an expiry sweep -/
  | sweep (now : ℕ)
  /-- any other request, and datanodes that come and go -/
  | server (event : ServerEvent)

namespace System

/-- The server handles one event. -/
def handleLocks (sys : System) : LockEvent → Option System
  | .acquire clientName filePath now replies =>
    some { sys with rm := (sys.rm.acquireLock filePath clientName now replies).2 }
  | .release _ filePath replies => some { sys with rm := (sys.rm.releaseLock filePath replies).2 }
  | .close clientName => some { sys with rm := sys.rm.closeClient clientName }
  | .sweep now => some { sys with rm := (sys.rm.checkFileLockExpiration now).1 }
  | .server event => some (sys.step event)

/-- The event is an ACQUIRE_LOCK of the path by the client, and it is ACKed. -/
def Granted (clientName filePath : Bytes) (sys : System) : LockEvent → Prop
  | .acquire c p now replies =>
    c = clientName ∧ p = filePath ∧ (sys.rm.acquireLock p c now replies).1 = true
  | .release .. | .close .. | .sweep .. | .server .. => False

/-- The event ends the client's lock of the path: the client releases it or
closes, the sweep clears the lock, or the file is deleted. -/
def Ended (clientName filePath : Bytes) (sys : System) : LockEvent → Prop
  | .release c p _ => c = clientName ∧ p = filePath
  | .close c => c = clientName
  | .sweep now => sys.rm.Expired now filePath
  | .server (.delete p _ answer) => p = filePath ∧ sys.deleteCommits p answer = true
  | .acquire .. | .server .. => False

/-- The condition on an event: a RELEASE_LOCK of a locked path comes from its
holder, and a client that closes holds no lock. -/
def ByHolder (sys : System) : LockEvent → Prop
  | .release clientName filePath _ => ∀ c, sys.rm.lockHolder filePath = some c → c = clientName
  | .close clientName => ∀ p, sys.rm.lockHolder p ≠ some clientName
  | .acquire .. | .sweep .. | .server .. => True

theorem fileLockMap_addHolders (rm : ReplicationManager) (filePath : Bytes)
    (nodes : List (Bytes × SessionId)) :
    (rm.addHolders filePath nodes).fileLockMap = rm.fileLockMap := by
  rw [ReplicationManager.addHolders_eq]

theorem lockHolder_create (sys : System) (answer : Bytes → SessionId → WriteAnswer)
    (rollback : Bytes → SessionId → DeleteAnswer) (filePath : Bytes) (version : Int32)
    (origin fileData q : Bytes) :
    (sys.step (.create filePath version origin fileData answer rollback)).rm.lockHolder q
      = sys.rm.lockHolder q := by
  rw [step]
  by_cases hcommit : sys.createCommits filePath version fileData answer
  · rw [(create_of_commits sys answer rollback filePath version origin fileData hcommit).2]
    set acked := (fanOut answer filePath ⟨fileData, version⟩ sys.rm.dataNodeEndpointMap.toList
      sys.nodes).2
    -- the entry of a path that is known already stays as it is
    have hnew := ReplicationManager.lockHolder_insertIfNew (sys.rm.addHolders filePath acked)
      filePath q
    have hold : (sys.rm.addHolders filePath acked).lockHolder q = sys.rm.lockHolder q :=
      ReplicationManager.lockHolder_eq (fileLockMap_addHolders _ _ _) q
    exact hnew.trans hold
  · rw [(create_of_rejected sys answer rollback filePath version origin fileData hcommit).2]

/-- A DELETE that is carried out takes the entry out. -/
theorem lockHolder_delete (sys : System) (answer : Bytes → SessionId → DeleteAnswer)
    (filePath origin q : Bytes) :
    (sys.step (.delete filePath origin answer)).rm.lockHolder q
      = if filePath = q ∧ sys.deleteCommits filePath answer = true then none
        else sys.rm.lockHolder q := by
  rw [step]
  by_cases hcommit : sys.deleteCommits filePath answer
  · rw [delete_of_commits hcommit]
    show (sys.rm.fileLockMap.erase filePath)[q]?.bind _ = _
    rw [Std.ExtTreeMap.getElem?_erase]
    by_cases hq : filePath = q
    · rw [if_pos (Std.LawfulEqCmp.compare_eq_iff_eq.mpr hq), if_pos ⟨hq, hcommit⟩]
      rfl
    · rw [if_neg fun h => hq (Std.LawfulEqCmp.compare_eq_iff_eq.mp h), if_neg fun h => hq h.1]
      rfl
  · rw [delete_of_rejected hcommit, if_neg fun h => hcommit h.2]

theorem lockHolder_register (sys : System) (name : Bytes) (session : SessionId)
    (fileVersionMap : StrMap Int32) (replies : List (StrMap Int32)) (q : Bytes) :
    (sys.step (.register name session fileVersionMap replies)).rm.lockHolder q
      = sys.rm.lockHolder q := by
  rw [step]
  simp only [ReplicationManager.acceptDataNode, ReplicationManager.lockHolder_buildFileLockMap]
  refine ReplicationManager.lockHolder_eq ?_ q
  obtain ⟨holders, versions, text, hframe⟩ := ReplicationManager.registerFiles_frame
    { sys.rm with dataNodeEndpointMap := sys.rm.dataNodeEndpointMap.insert name session }
    name session fileVersionMap.toList
  rw [ReplicationManager.registerDataNodeFiles, hframe]
  rfl

theorem lockHolder_evict (sys : System) (name : Bytes) (answer : RebalanceAnswers) (q : Bytes) :
    (sys.step (.evict name answer)).rm.lockHolder q = sys.rm.lockHolder q := by
  obtain ⟨holders, text, hframe⟩ := evict_frame sys answer name
  rw [step, hframe]
  rfl

theorem lockHolder_update (sys : System) (answer : Bytes → SessionId → WriteAnswer)
    (filePath : Bytes) (seen : Int32) (origin fileData q : Bytes) :
    (sys.step (.update filePath seen origin fileData answer)).rm.lockHolder q
      = sys.rm.lockHolder q := by
  rw [step]
  by_cases hcommit : sys.updateCommits filePath seen fileData answer
  · rw [(update_of_commits sys answer filePath seen origin fileData hcommit).2]
    rfl
  · rw [(update_of_rejected sys answer filePath seen origin fileData hcommit).2]

/-! ### One event -/

/-- The table says what the history says. -/
def Tells (sys : System) (s : System) (events : List LockEvent) : Prop :=
  ∀ p c : Bytes, sys.rm.lockHolder p = some c
    ↔ Runs.Since handleLocks (Granted c p) (Ended c p) s events

/-- Of the server's other events only a DELETE touches a lock. -/
theorem lockHolder_step (sys : System) (event : ServerEvent) (p c : Bytes) :
    (sys.step event).rm.lockHolder p = some c
      ↔ sys.rm.lockHolder p = some c ∧ ¬ sys.Ended c p (.server event) := by
  cases event with
  | create => simp only [lockHolder_create, Ended, not_false_eq_true, and_true]
  | update => simp only [lockHolder_update, Ended, not_false_eq_true, and_true]
  | delete filePath origin answer =>
    rw [lockHolder_delete]
    simp only [Ended]
    split
    · rename_i hdel
      exact ⟨fun hc => absurd hc (by simp), fun hc => absurd hdel hc.2⟩
    · rename_i hkept
      simp [hkept]
  | read => simp only [step, Ended, not_false_eq_true, and_true]
  | register => simp only [lockHolder_register, Ended, not_false_eq_true, and_true]
  | loseEndpoint name =>
    have hsame : (sys.step (.loseEndpoint name)).rm.lockHolder p = sys.rm.lockHolder p :=
      ReplicationManager.lockHolder_eq rfl p
    simp only [hsame, Ended, not_false_eq_true, and_true]
  | evict => simp only [lockHolder_evict, Ended, not_false_eq_true, and_true]

/-- **One event keeps the table and the history together exactly when it meets
the condition.** -/
theorem tells_step {s sys sys' : System} {events : List LockEvent} {event : LockEvent}
    (hrun : Runs.run handleLocks s events = some sys) (h : sys.Tells s events)
    (hstep : sys.handleLocks event = some sys') :
    sys'.Tells s (events ++ [event]) ↔ sys.ByHolder event := by
  -- the history after the event, in terms of the table before it
  have hsince : ∀ p c : Bytes,
      Runs.Since handleLocks (Granted c p) (Ended c p) s (events ++ [event])
        ↔ sys.Granted c p event ∨ (sys.rm.lockHolder p = some c ∧ ¬ sys.Ended c p event) := by
    intro p c
    rw [Runs.since_concat hrun, h p c]
  simp only [Tells, hsince]
  cases event with
  | acquire clientName filePath now replies =>
    obtain rfl := Option.some.inj hstep
    obtain ⟨hfree, hholder⟩ := sys.rm.lockHolder_acquireLock filePath clientName now replies
    refine ⟨fun _ => trivial, fun _ p c => ?_⟩
    simp only [hholder, Granted, Ended, not_false_eq_true, and_true]
    by_cases hgrant : (sys.rm.acquireLock filePath clientName now replies).1 = true ∧ filePath = p
    · obtain ⟨hack, rfl⟩ := hgrant
      simp [hack, hfree hack]
    · rw [if_neg hgrant]
      grind
  | release clientName filePath replies =>
    obtain rfl := Option.some.inj hstep
    simp only [sys.rm.lockHolder_releaseLock filePath replies, Granted, Ended, false_or, ByHolder]
    constructor
    · intro htells c hc
      by_contra hne
      have := (htells filePath c).mpr ⟨hc, fun hend => hne hend.1.symm⟩
      simp at this
    · intro hby p c
      by_cases hp : filePath = p
      · subst hp
        simp only [if_true, reduceCtorEq, false_iff, not_and, not_not, and_true]
        exact fun hc => (hby c hc).symm
      · simp [hp]
  | close clientName =>
    obtain rfl := Option.some.inj hstep
    have hsame : ∀ p, (sys.rm.closeClient clientName).lockHolder p = sys.rm.lockHolder p :=
      fun p => ReplicationManager.lockHolder_eq rfl p
    simp only [hsame, Granted, Ended, false_or, ByHolder]
    constructor
    · intro htells p hp
      exact ((htells p clientName).mp hp).2 rfl
    · intro hby p c
      refine ⟨fun hc => ⟨hc, ?_⟩, And.left⟩
      rintro rfl
      exact hby p hc
  | sweep now =>
    obtain rfl := Option.some.inj hstep
    refine ⟨fun _ => trivial, fun _ p c => ?_⟩
    simp only [sys.rm.lockHolder_sweep now, Granted, Ended, false_or]
    by_cases hexp : sys.rm.Expired now p
    · simp [hexp]
    · simp [hexp]
  | server event =>
    obtain rfl := Option.some.inj hstep
    refine ⟨fun _ => trivial, fun _ p c => ?_⟩
    rw [lockHolder_step]
    simp only [Granted, false_or]

/-! ### Whole histories -/

/-- **The lock lifecycle.**  From the start of a server, throughout a history of
requests and sweeps, a path is locked by a client exactly when its ACQUIRE_LOCK
was ACKed and nothing has ended the lock since, and a RELEASE_LOCK by a client
that does not hold the path changes no lock: this is so exactly when every
RELEASE_LOCK of a locked path comes from its holder and no client closes while it
holds a lock. -/
theorem lock_lifecycle_iff (replicationFactor : ℕ) (versionFile : Option Bytes)
    (nodes : DataNodes) (events : List LockEvent) :
    let s : System := { rm := ReplicationManager.start replicationFactor versionFile, nodes := nodes }
    ((∀ pre post t, events = pre ++ post → Runs.run handleLocks s pre = some t →
        ∀ p c : Bytes, t.rm.lockHolder p = some c
          ↔ Runs.Since handleLocks (Granted c p) (Ended c p) s pre) ∧
      ∀ pre c p replies post t u, events = pre ++ .release c p replies :: post →
        Runs.run handleLocks s pre = some t → t.rm.lockHolder p ≠ some c →
        t.handleLocks (.release c p replies) = some u →
        ∀ q, u.rm.lockHolder q = t.rm.lockHolder q)
      ↔ ∀ pre e post t, events = pre ++ e :: post → Runs.run handleLocks s pre = some t →
        t.ByHolder e := by
  intro s
  have htotal : ∀ (t : System) e, ∃ u, t.handleLocks e = some u := fun t e => by
    cases e <;> exact ⟨_, rfl⟩
  have hnil : s.Tells s [] := by
    intro p c
    have hfree : s.rm.lockHolder p = none := by
      simp [s, ReplicationManager.lockHolder, ReplicationManager.start]
    simp [hfree, Runs.not_since_nil]
  have hexact : (∀ pre post t, events = pre ++ post → Runs.run handleLocks s pre = some t →
      t.Tells s pre) ↔ ∀ pre e post t, events = pre ++ e :: post →
        Runs.run handleLocks s pre = some t → t.ByHolder e :=
    Runs.always_iff htotal hnil fun pre e post t u _ hrun htells hu => tells_step hrun htells hu
  constructor
  · rintro ⟨htells, -⟩
    exact hexact.mp htells
  · intro hby
    refine ⟨hexact.mpr hby, fun pre c p replies post t u hsplit hrun hnot hu q => ?_⟩
    obtain rfl := Option.some.inj hu
    have hfree : t.rm.lockHolder p = none := by
      cases hholder : t.rm.lockHolder p with
      | none => rfl
      | some d =>
        rw [hby pre _ post t hsplit hrun d hholder] at hholder
        exact absurd hholder hnot
    rw [ReplicationManager.lockHolder_releaseLock]
    split
    · rename_i hq
      rw [← hq, hfree]
    · rfl

/-- A file `f` on one datanode.  The client `a` acquires its lock and the client
`b` releases it: it is free, although nothing has ended the lock of `a`.  And when
`a` closes instead, its lock stays. -/
theorem release_by_stranger :
    let s : System := { rm := ReplicationManager.start 1 none, nodes := fun _ _ => none }
    let created : List LockEvent :=
      [.server (.register [100] 0 ∅ []),
       .server (.create [102] 1 [97] [120] (fun _ _ => .acked) fun _ _ => .acked)]
    let acquire : LockEvent := .acquire [97] [102] 0 []
    let release : LockEvent := .release [98] [102] []
    (Runs.run handleLocks s (created ++ [acquire, release])).map (fun t => t.rm.lockHolder [102])
        = some none ∧
      Runs.Since handleLocks (Granted [97] [102]) (Ended [97] [102]) s
        (created ++ [acquire, release]) ∧
      (Runs.run handleLocks s (created ++ [acquire, .close [97]])).map
        (fun t => t.rm.lockHolder [102]) = some (some [97]) := by
  intro s created acquire release
  refine ⟨by decide, ?_, by decide⟩
  refine ⟨created, acquire, [release], _, rfl, rfl, ⟨rfl, rfl, by decide⟩, fun l e r u hl _ => ?_⟩
  obtain ⟨-, rfl, -⟩ : l = [] ∧ release = e ∧ r = [] := by
    cases l with
    | nil => simpa [eq_comm] using hl
    | cons a l => simp at hl
  exact fun hended => absurd hended.1 (by decide)

end System

end Squid
