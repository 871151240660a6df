/-
Several mounts of one server, and the locks between them.

Every client runs the FUSE layer of `SquidFS`.  A file that is opened for writing is locked on
the server, and the lock is given back with the last writable handle.  The server does not look
at the lock when it handles an UPDATE_FILE, nor at the client when it handles a RELEASE_LOCK, so
that two mounts do not write over each other rests on what each of them does in its windows.

`Mounts.step` is the machine of all the mounts and the server.  The server handles the request
of a call at some point before the call returns, or after the connection was lost and the call
has returned without it; the pushes come when they come.  An expiry sweep is the sections of
`LockTable`: what it has collected it clears later, whoever has the lock by then.  A lock request
is handled in the section that decides it, and the `buildFileLockMap` before or after that section
is one of the table's threads.

* `Claims` — a client has a writable handle of the path, or is between the grant of the lock and
  its handle, or between its last handle and the end of the lock;
* `claims_call`, `claims_resume` — no operation claims a path but by a grant;
* `Spares` — no delete, no sweep and no late RELEASE_LOCK takes a lock that is claimed;
* `writers_exclusive` — a path is open for writing on one mount only, which has its lock;
* `updates_isolated` — from the grant of a lock to the update that is written under it no other
  mount updates the file.
-/
import SquidStorage.HandleAccounting
import SquidStorage.LockSections
import SquidStorage.FileServer

open BigEndian

namespace Squid

/-! ### What a client takes itself to have locked -/

/-- The client has the lock of the path of its operation and has not given it back; `reply` is on
its way to the client. -/
def FuseThread.locked (reply : Option (Message × Bytes)) : FuseThread → Bool
  | .calling (.openLock _ _) | .calling (.createLock _ _) => reply.any fun r => r.1.isAck
  | .returned (.openLock _ _) r | .returned (.createLock _ _) r => r.1.isAck
  | .calling (.openFetch _ flags) | .returned (.openFetch _ flags) _ => flags.writable
  | .calling (.releaseUpdate _ _ _) | .returned (.releaseUpdate _ _ _) _ => true
  -- the lock is gone once the server has handled the RELEASE_LOCK
  | .calling (.openAbort _) | .calling (.releaseUnlock _) | .calling (.releaseOrphan _) =>
    reply.isNone
  | _ => false

/-- A call to the server returns. -/
def FsEvent.isReturn : FsEvent → Bool
  | .returns _ => true
  | _ => false

namespace SquidFS

/-- Only a call that is under way returns. -/
theorem next_returns {fs fs' : SquidFS} {reply : Message × Bytes}
    (hnext : fs.next (.returns reply) = some fs') :
    ∃ w, fs.thread = .calling w ∧ fs' = fs.returns w reply := by
  obtain ⟨o, hstep, rfl⟩ := Option.map_eq_some_iff.mp hnext
  rw [SquidFS.step.eq_def] at hstep
  cases hthread : fs.thread with
  | calling w =>
    rw [hthread] at hstep
    obtain rfl := Option.some.inj hstep
    exact ⟨w, rfl, rfl⟩
  | _ => simp [hthread] at hstep

/-- The client has a writable handle of the path, or is about to have one, or has just closed the
last one. -/
def Claims (fs : SquidFS) (reply : Option (Message × Bytes)) (p : Bytes) : Prop :=
  fs.writersOf p ≠ [] ∨ (fs.thread.path = some p ∧ fs.thread.locked reply = true)

section

variable {fs fs' : SquidFS} {p r : Bytes} {C : Prop}

theorem claims_leave (fs : SquidFS) {result : OpResult} (h : fs.writersOf p ≠ [] → C)
    (hclaims : (fs.leave result).1.Claims none p) : C := by
  rcases hclaims with hwriters | ⟨hpath, -⟩
  · exact h hwriters
  · simp [leave, FuseThread.path] at hpath

theorem claims_await (fs : SquidFS) {w : Window} (h : fs.writersOf p ≠ [] → C)
    (hw : (FuseThread.calling w).locked none = true → C)
    (hclaims : (fs.await w).1.Claims none p) : C := by
  rcases hclaims with hwriters | ⟨-, hlocked⟩
  · exact h hwriters
  · exact hw hlocked

/-- A new handle claims its path if it is writable. -/
theorem claims_addHandle (fs : SquidFS) {writable : Bool} {result : OpResult}
    (h : fs.writersOf p ≠ [] → C) (hwritable : writable = true → C)
    (hclaims : (leave { fs with handles := ⟨r, writable⟩ :: fs.handles } result).1.Claims none p) :
    C := by
  cases writable with
  | true => exact hwritable rfl
  | false =>
    refine claims_leave _ (fun hwriters => h ?_) hclaims
    intro hnone
    refine hwriters ?_
    rw [writersOf, handlesOf, List.filter_cons]
    split
    · exact (List.filter_cons_of_neg (by simp)).trans hnone
    · exact hnone

theorem claims_openFinish (fs : SquidFS) {flags : OpenFlags} (h : fs.writersOf p ≠ [] → C)
    (hwritable : flags.writable = true → C)
    (hclaims : (fs.openFinish r flags).1.Claims none p) : C :=
  claims_addHandle (fs.setEntry r _) h hwritable hclaims

theorem claims_openLocked (fs : SquidFS) {flags : OpenFlags} (h : fs.writersOf p ≠ [] → C)
    (hwritable : flags.writable = true → C)
    (hclaims : (fs.openLocked r flags).1.Claims none p) : C := by
  rw [openLocked] at hclaims
  split at hclaims
  · exact claims_await (fs.touch r) (w := .openFetch r flags) h hwritable hclaims
  · exact claims_openFinish (fs.touch r) h hwritable hclaims

theorem writersOf_eraseUnopened (fs : SquidFS) (r p : Bytes) :
    (fs.eraseUnopened r).writersOf p = fs.writersOf p := by
  rcases fs.eraseUnopened_eq r with heq | ⟨-, heq⟩
  · rw [heq]
  · rw [heq]
    rfl

/-- An operation on another path claims nothing new. -/
theorem claims_elsewhere {o : SquidFS × Option OpResult} (hconfined : Confined r fs o)
    (hp : p ≠ r) (hclaims : o.1.Claims none p) : fs.Claims none p := by
  rcases hclaims with hwriters | ⟨hpath, -⟩
  · refine Or.inl ?_
    rwa [writersOf, hconfined.onlyAt.handlesOf p hp, ← writersOf] at hwriters
  · exact absurd (hconfined.thread p hpath) hp

/-- `op_open` without a call for the lock is an open of a path that is open for writing already, or
a read-only one. -/
theorem claims_opOpen {flags : OpenFlags} (hcounted : Counted r fs)
    (hclaims : (fs.opOpen r flags).1.Claims none r) : fs.Claims none r := by
  rw [opOpen] at hclaims
  split at hclaims
  · exact claims_leave _ Or.inl hclaims
  · dsimp only at hclaims
    split at hclaims
    · exact claims_await (fs.touch r) Or.inl (by simp [FuseThread.locked]) hclaims
    · rename_i hlock
      refine claims_openLocked (fs.touch r) Or.inl (fun hwritable => Or.inl ?_) hclaims
      intro hnone
      refine hlock ⟨hwritable, ?_⟩
      rw [entry_touch_self, hcounted.writers, hnone, List.length_nil]

/-- The handle that is closed was a claim; what is left of it is what it was. -/
theorem claims_opRelease {fh : FileHandle}
    (hclaims : (fs.opRelease fh).1.Claims none fh.path) : fs.Claims none fh.path := by
  rw [opRelease] at hclaims
  split at hclaims
  · exact claims_leave _ Or.inl hclaims
  · rename_i hopen
    have hfh : fh ∈ fs.handles := not_not.mp hopen
    set fs₁ : SquidFS := { fs with handles := fs.handles.erase fh } with hfs₁
    have hkept : fs₁.writersOf fh.path ≠ [] → fs.Claims none fh.path := by
      intro hwriters
      refine Or.inl fun hnone => hwriters ?_
      rw [hfs₁, writersOf_dropHandle, hnone, List.erase_nil]
    have hclosed : fh.writable = true → fs.Claims none fh.path := fun hwritable =>
      Or.inl (List.ne_nil_of_mem (List.mem_filter.mpr ⟨mem_handlesOf hfh, hwritable⟩))
    dsimp only at hclaims
    split at hclaims
    · split at hclaims
      · rename_i hwritable
        exact claims_await _ hkept (fun _ => hclosed hwritable) hclaims
      · exact claims_leave _ hkept hclaims
    · rename_i e hfind
      split at hclaims
      · rename_i hlast
        split at hclaims
        · exact claims_await (fs₁.setEntry _ _) hkept (fun _ => hclosed hlast.1) hclaims
        · exact claims_await (fs₁.setEntry _ _) hkept (fun _ => hclosed hlast.1) hclaims
      · refine claims_leave _ (fun hwriters => hkept ?_) hclaims
        rwa [writersOf_eraseUnopened] at hwriters

/-- **A call** claims no path that was not claimed. -/
theorem claims_call (hcounted : ∀ p, Counted p fs) (op : FsOp)
    (hclaims : (fs.call op).1.Claims none p) : fs.Claims none p := by
  by_cases hp : p = op.path
  swap
  · exact claims_elsewhere (confined_call fs op) hp hclaims
  subst hp
  cases op with
  | opCreate path flags =>
    change (fs.opCreate path flags).1.Claims none path at hclaims
    rw [opCreate] at hclaims
    split at hclaims
    · exact claims_leave _ Or.inl hclaims
    · split at hclaims
      · rcases hclaims with hwriters | ⟨hpath, -⟩
        · exact Or.inl hwriters
        · simp [FuseThread.path] at hpath
      · rcases hclaims with hwriters | ⟨-, hlocked⟩
        · exact Or.inl hwriters
        · simp [FuseThread.locked] at hlocked
  | opOpen path flags => exact claims_opOpen (hcounted path) hclaims
  | opRead path size offset =>
    change (fs.opRead path size offset).1.Claims none path at hclaims
    rw [opRead] at hclaims
    split at hclaims
    · exact claims_await (fs.touch path) Or.inl (by simp [FuseThread.locked]) hclaims
    · exact claims_leave _ Or.inl hclaims
  | opWrite path buf offset =>
    change (fs.opWrite path buf offset).1.Claims none path at hclaims
    rw [opWrite] at hclaims
    split at hclaims
    · exact claims_leave _ Or.inl hclaims
    · exact claims_leave (fs.setEntry path _) Or.inl hclaims
  | opTruncate path size =>
    change (fs.opTruncate path size).1.Claims none path at hclaims
    rw [opTruncate] at hclaims
    split at hclaims
    · exact claims_leave _ Or.inl hclaims
    · exact claims_leave (fs.setEntry path _) Or.inl hclaims
  | opRelease fh => exact claims_opRelease hclaims

theorem claims_createUncached {flags : OpenFlags} (hcounted : ∀ p, Counted p fs)
    (hclaims : (fs.createUncached r flags).1.Claims none p) : fs.Claims none p := by
  by_cases hp : p = r
  swap
  · exact claims_elsewhere (confined_createUncached fs r flags) hp hclaims
  subst hp
  rw [createUncached] at hclaims
  split at hclaims
  · exact claims_opOpen (hcounted p) hclaims
  · exact claims_await _ Or.inl (by simp [FuseThread.locked]) hclaims

theorem writersOf_fetchIntoCache {reply : Message × Bytes}
    (hfetch : fs.fetchIntoCache r reply = some fs') : fs'.writersOf p = fs.writersOf p := by
  rw [fetchIntoCache] at hfetch
  split at hfetch
  · simp at hfetch
  · obtain rfl := Option.some.inj hfetch
    rfl

/-- **An operation that goes on** claims its path only if the lock has been granted to it. -/
theorem claims_resume {w : Window} {reply : Message × Bytes}
    (hthread : fs.thread = .returned w reply)
    (hclaims : (fs.resume w reply).1.Claims none p) : fs.Claims none p := by
  by_cases hp : p = w.path
  swap
  · exact claims_elsewhere (confined_resume fs w reply) hp hclaims
  subst hp
  have hlocked : (FuseThread.returned w reply).locked none = true → fs.Claims none w.path :=
    fun h => Or.inr (by rw [hthread]; exact ⟨rfl, h⟩)
  cases w with
  | openLock path flags =>
    simp only [resume] at hclaims
    split at hclaims
    · refine claims_leave _ (fun hwriters => Or.inl ?_) hclaims
      rwa [writersOf_eraseUnopened] at hwriters
    · rename_i hack
      have hgranted := hlocked (by simpa [FuseThread.locked] using hack)
      split at hclaims
      · exact claims_leave _ Or.inl hclaims
      · exact claims_openLocked _ Or.inl (fun _ => hgranted) hclaims
  | openFetch path flags =>
    simp only [resume] at hclaims
    split at hclaims
    · rename_i fetched hfetch
      refine claims_openFinish _ (fun hwriters => Or.inl ?_) hlocked hclaims
      rwa [writersOf_fetchIntoCache hfetch] at hwriters
    · split at hclaims
      · rename_i hwritable
        exact claims_await _ Or.inl (fun _ => hlocked hwritable) hclaims
      · refine claims_leave _ (fun hwriters => Or.inl ?_) hclaims
        rwa [writersOf_eraseUnopened] at hwriters
  | createFile path =>
    simp only [resume] at hclaims
    split at hclaims
    · exact claims_leave _ Or.inl hclaims
    · exact claims_await _ Or.inl (by simp [FuseThread.locked]) hclaims
  | createLock path version =>
    simp only [resume] at hclaims
    split at hclaims
    · exact claims_await _ Or.inl (by simp [FuseThread.locked]) hclaims
    · rename_i hack
      have hgranted := hlocked (by simpa [FuseThread.locked] using hack)
      exact claims_addHandle (fs.setEntry path _) Or.inl (fun _ => hgranted) hclaims
  | readFetch path size offset =>
    simp only [resume] at hclaims
    split at hclaims
    · rename_i fetched hfetch
      refine claims_leave _ (fun hwriters => Or.inl ?_) hclaims
      rwa [writersOf_fetchIntoCache hfetch] at hwriters
    · exact claims_leave _ Or.inl hclaims
  | releaseUpdate path data version =>
    refine claims_await _ (fun hwriters => Or.inl ?_) (fun _ => hlocked rfl) hclaims
    rwa [writersOf, handlesOf_flushed, ← writersOf] at hwriters
  | unlink path =>
    simp only [resume] at hclaims
    split at hclaims
    · exact claims_leave _ Or.inl hclaims
    · exact claims_leave (fs.erase path) Or.inl hclaims
  | openAbort path | releaseUnlock path =>
    refine claims_leave _ (fun hwriters => Or.inl ?_) hclaims
    rwa [writersOf_eraseUnopened] at hwriters
  | createAbort path | releaseOrphan path => exact claims_leave _ Or.inl hclaims

/-- **An event of the mount itself** claims no path that was not claimed. -/
theorem claims_next {event : FsEvent} (hcounted : ∀ p, Counted p fs) (hreturn : !event.isReturn)
    (hpush : !event.isPush) (hnext : fs.next event = some fs') (hclaims : fs'.Claims none p) :
    fs.Claims none p := by
  obtain ⟨o, ho, rfl⟩ := Option.map_eq_some_iff.mp hnext
  rw [SquidFS.step.eq_def] at ho
  split at ho
  · obtain rfl := Option.some.inj ho
    exact claims_call hcounted _ hclaims
  · obtain rfl := Option.some.inj ho
    exact claims_await _ Or.inl (by simp [FuseThread.locked]) hclaims
  · simp [FsEvent.isReturn] at hreturn
  · obtain rfl := Option.some.inj ho
    exact claims_createUncached hcounted hclaims
  · rename_i hthread
    obtain rfl := Option.some.inj ho
    exact claims_resume hthread hclaims
  · simp at ho
  · simp [FsEvent.isPush] at hpush
  · simp at ho

/-- A push claims nothing and gives nothing up. -/
theorem claims_push {msg : Message} {data : Bytes} {reply : Option (Message × Bytes)}
    (hnext : fs.next (.push msg data) = some fs') : fs'.Claims reply p ↔ fs.Claims reply p := by
  obtain ⟨o, ho, rfl⟩ := Option.map_eq_some_iff.mp hnext
  have hlive : fs.thread ≠ .deadlocked := by
    intro hthread
    simp [SquidFS.step.eq_def, hthread] at ho
  rw [step_push hlive] at ho
  obtain rfl := Option.some.inj ho
  rw [Claims, Claims, writersOf, handlesOf_handlePush, ← writersOf,
    (thread_handlePush fs msg data).1]

/-- A reply that reaches the client is no news to it, and a call that fails gives up at most what
the client had. -/
theorem claims_returns {w : Window} {returned : Message × Bytes} {reply : Option (Message × Bytes)}
    (hthread : fs.thread = .calling w) (hreply : reply = some returned ∨ returned.1.isAck = false)
    (hclaims : (fs.returns w returned).Claims none p) : fs.Claims reply p := by
  rcases hclaims with hwriters | ⟨hpath, hlocked⟩
  · refine Or.inl ?_
    rwa [writersOf, handlesOf_returns, ← writersOf] at hwriters
  · refine Or.inr ?_
    rw [hthread]
    refine ⟨hpath, ?_⟩
    rcases hreply with rfl | hnack
    · cases w <;> simp_all [FuseThread.locked, returns]
    · cases w <;> simp_all [FuseThread.locked, returns]

end

end SquidFS

/-! ### The server and its mounts -/

/-- The request of the call that a mount is in. -/
inductive RequestState where
  | sent
  | answered (reply : Message × Bytes)
  /-- the handler was left by an exception -/
  | unanswered
deriving DecidableEq

def RequestState.reply : RequestState → Option (Message × Bytes)
  | .answered reply => some reply
  | .sent | .unanswered => none

/-- `Server::handleClientRequest`, with what the server's own `fs::remove` throws in a
DELETE_FILE. -/
def System.handle (sys : System) (client : Bytes) (c : Circumstances)
    (removeError : Option String) : Rpc → System × RequestState
  | .deleteFile path =>
    let deleted := sys.propagateDeleteFileThrowing removeError c.delete path client
    (deleted.1, match deleted.2.2 with
      | none => .answered ((Response.ack true).message, [])
      | some _ => .unanswered)
  | rpc =>
    let served := sys.respond client c rpc
    (served.1, .answered served.2)

/-- The sections of the server's own threads: sweeps, and calls of `buildFileLockMap`. -/
def LockAction.ofServer : LockAction → Bool
  | .checkFileLockExpiration | .notify | .clear | .buildFileLockMap | .reply _ | .resume => true
  | .acquireLock .. | .releaseLock _ | .insertLock _ | .eraseLock _ => false

/-- The server, the mounts by the process names of their clients with the requests of their
calls, the requests whose calls have returned without them, and the threads in the sections of the
lock table. -/
structure Mounts where
  sys : System
  fs : Bytes → SquidFS
  request : Bytes → RequestState := fun _ => .sent
  late : List (Bytes × Rpc) := []
  threads : ℕ → LockPc := fun _ => .idle

inductive MountEvent where
  /-- an operation of a mount begins or goes on, or a push comes -/
  | fuse (client : Bytes) (event : FsEvent)
  /-- the server handles the request that the mount waits for -/
  | serve (client : Bytes) (c : Circumstances) (removeError : Option String)
  /-- the reply comes -/
  | deliver (client : Bytes)
  /-- the connection is lost in a call; a request that is not handled may still have arrived -/
  | lose (client : Bytes) (returned : Message × Bytes) (arrived : Bool)
  /-- the server handles a request whose call has returned -/
  | serveLate (client : Bytes) (rpc : Rpc) (c : Circumstances) (removeError : Option String)
  /-- a section of a thread of the server -/
  | enter (e : SectionEvent)
  /-- datanodes come and go -/
  | register (name : Bytes) (session : SessionId) (fileVersionMap : StrMap Int32)
      (replies : List (StrMap Int32))
  | loseEndpoint (name : Bytes)
  | evict (name : Bytes) (answer : System.RebalanceAnswers)

namespace Mounts

/-- Mounts that have just been made. -/
def start (sys : System) (versions : Bytes → StrMap Int32) : Mounts :=
  { sys, fs := fun client => { versions := versions client } }

/-- The lock table, as its sections see it. -/
def table (m : Mounts) : LockTable := { rm := m.sys.rm, threads := m.threads }

/-- The call of the mount returns. -/
def finishCall (m : Mounts) (client : Bytes) (returned : Message × Bytes) : Option Mounts :=
  ((m.fs client).next (.returns returned)).map fun fs =>
    { m with
      fs := Function.update m.fs client fs
      request := Function.update m.request client .sent }

/-- The request of the mount that the server has not handled. -/
def unhandled (m : Mounts) (client : Bytes) : List (Bytes × Rpc) :=
  match (m.fs client).thread, m.request client with
  | .calling w, .sent => [(client, w.request)]
  | _, _ => []

def step (m : Mounts) : MountEvent → Option Mounts
  | .fuse client event =>
    if event.isReturn then none
    else ((m.fs client).next event).map fun fs => { m with fs := Function.update m.fs client fs }
  | .serve client c removeError =>
    match (m.fs client).thread, m.request client with
    | .calling w, .sent =>
      let handled := m.sys.handle client c removeError w.request
      some { m with sys := handled.1, request := Function.update m.request client handled.2 }
    | _, _ => none
  | .deliver client => (m.request client).reply.bind (m.finishCall client)
  | .lose client returned arrived =>
    if returned.1.isAck then none
    else { m with late := m.late ++ if arrived then m.unhandled client else [] }.finishCall client
      returned
  | .serveLate client rpc c removeError =>
    if (client, rpc) ∈ m.late then
      some { m with
        sys := (m.sys.handle client c removeError rpc).1
        late := m.late.erase (client, rpc) }
    else none
  | .enter e =>
    if e.action.ofServer then
      (m.table.step e).map fun s => { m with sys.rm := s.rm, threads := s.threads }
    else none
  | .register name session fileVersionMap replies =>
    some { m with sys := m.sys.step (.register name session fileVersionMap replies) }
  | .loseEndpoint name => some { m with sys := m.sys.step (.loseEndpoint name) }
  | .evict name answer => some { m with sys := m.sys.step (.evict name answer) }

/-- The client claims the path. -/
def Claims (m : Mounts) (client p : Bytes) : Prop :=
  (m.fs client).Claims (m.request client).reply p

/-- The file that the server is about to delete for a mount. -/
def deleting (m : Mounts) (client : Bytes) : Option Bytes :=
  match (m.fs client).thread with
  | .calling (.unlink p) | .calling (.createAbort p) => some p
  | _ => none

/-- The path whose lock an event takes from whoever has it.  The RELEASE_LOCK of a call is not
among these events. -/
def freed (m : Mounts) : MountEvent → Option Bytes
  | .serve client _ _ => m.deleting client
  | .serveLate _ (.deleteFile p) _ _ | .serveLate _ (.releaseLock p) _ _ => some p
  | .enter e => m.table.cleared e
  | _ => none

/-- The event deletes no path on a mount that has it open. -/
def SparesHandles (m : Mounts) : MountEvent → Prop
  | .fuse client event => SparesOpen (m.fs client) event
  | _ => True

/-- The condition on an event: no path is deleted on a mount that has it open, and no lock that
its holder relies on is taken by a delete, a sweep or a RELEASE_LOCK that comes late. -/
def Spares (m : Mounts) (event : MountEvent) : Prop :=
  m.SparesHandles event ∧
    ∀ p ∈ m.freed event, ∀ holder ∈ m.sys.rm.lockHolder p, ¬ m.Claims holder p

/-- The event is no late UPDATE_FILE of a path that another client claims. -/
def SparesUpdates (m : Mounts) : MountEvent → Prop
  | .serveLate client (.updateFile p _ _) _ _ =>
    ∀ holder ∈ m.sys.rm.lockHolder p, m.Claims holder p → holder = client
  | _ => True

instance (m : Mounts) (client p : Bytes) : Decidable (m.Claims client p) :=
  inferInstanceAs (Decidable (_ ≠ _ ∨ (_ = _ ∧ _ = _)))

instance (m : Mounts) : (event : MountEvent) → Decidable (m.SparesHandles event)
  | .fuse client event => inferInstanceAs (Decidable (SparesOpen (m.fs client) event))
  | .serve .. | .deliver _ | .lose .. | .serveLate .. | .enter _ | .register .. | .loseEndpoint _
  | .evict .. => isTrue True.intro

instance (m : Mounts) (event : MountEvent) : Decidable (m.Spares event) :=
  inferInstanceAs (Decidable (_ ∧ ∀ p ∈ m.freed event, ∀ holder ∈ m.sys.rm.lockHolder p,
    ¬ m.Claims holder p))

instance (m : Mounts) : (event : MountEvent) → Decidable (m.SparesUpdates event)
  | .serveLate client (.updateFile p _ _) _ _ => inferInstanceAs (Decidable
      (∀ holder ∈ m.sys.rm.lockHolder p, m.Claims holder p → holder = client))
  | .serveLate _ (.createFile ..) _ _ | .serveLate _ (.readFile _) _ _
  | .serveLate _ (.deleteFile _) _ _ | .serveLate _ (.acquireLock _) _ _
  | .serveLate _ (.releaseLock _) _ _ | .serveLate _ .heartbeat _ _
  | .fuse .. | .serve .. | .deliver _ | .lose .. | .enter _ | .register .. | .loseEndpoint _
  | .evict .. => isTrue True.intro

/-- The event is an ACQUIRE_LOCK of the path by the client, and the lock is granted. -/
def Granted (client p : Bytes) (m : Mounts) : MountEvent → Prop
  | .serve d c _ => d = client ∧ (∃ w, (m.fs d).thread = .calling w ∧ w.request = .acquireLock p) ∧
    (m.sys.rm.acquireLock p d c.now c.replies).1 = true
  | _ => False

/-- The event is an UPDATE_FILE of the path that is handled for the client, in its call or
late. -/
def Updates (client p : Bytes) (m : Mounts) : MountEvent → Prop
  | .serve d _ _ => d = client ∧ m.request d = .sent ∧
    ∃ data version, (m.fs d).thread = .calling (.releaseUpdate p data version)
  | .serveLate d rpc _ _ => d = client ∧ ∃ version data, rpc = .updateFile p version data
  | _ => False

/-! ### One event -/

section

variable {m m' : Mounts} {client p : Bytes} {event : MountEvent}

theorem step_fuse {local' : FsEvent} (h : m.step (.fuse client local') = some m') :
    local'.isReturn = false ∧ ∃ fs, (m.fs client).next local' = some fs ∧
      m' = { m with fs := Function.update m.fs client fs } := by
  simp only [step] at h
  split at h
  · simp at h
  · rename_i hreturn
    obtain ⟨fs, hnext, rfl⟩ := Option.map_eq_some_iff.mp h
    exact ⟨Bool.eq_false_iff.mpr hreturn, fs, hnext, rfl⟩

theorem step_serve {c : Circumstances} {removeError : Option String}
    (h : m.step (.serve client c removeError) = some m') :
    ∃ w, (m.fs client).thread = .calling w ∧ m.request client = .sent ∧
      m' = { m with
        sys := (m.sys.handle client c removeError w.request).1
        request := Function.update m.request client
          (m.sys.handle client c removeError w.request).2 } := by
  simp only [step] at h
  split at h
  · rename_i w hthread hrequest
    exact ⟨w, hthread, hrequest, (Option.some.inj h).symm⟩
  · simp at h

theorem step_serveLate {c : Circumstances} {removeError : Option String} {rpc : Rpc}
    (h : m.step (.serveLate client rpc c removeError) = some m') :
    m' = { m with
      sys := (m.sys.handle client c removeError rpc).1
      late := m.late.erase (client, rpc) } := by
  simp only [step] at h
  split at h
  · exact (Option.some.inj h).symm
  · simp at h

theorem step_enter {e : SectionEvent} (h : m.step (.enter e) = some m') :
    e.action.ofServer = true ∧ ∃ s, m.table.step e = some s ∧
      m' = { m with sys.rm := s.rm, threads := s.threads } := by
  simp only [step] at h
  split at h
  · rename_i hserver
    obtain ⟨s, hstep, rfl⟩ := Option.map_eq_some_iff.mp h
    exact ⟨hserver, s, hstep, rfl⟩
  · simp at h

/-- A call returns with its reply, or with the connection lost. -/
theorem step_returns (client : Bytes) (h : m.step event = some m')
    (hevent : event = .deliver client ∨ ∃ returned arrived, event = .lose client returned arrived) :
    ∃ returned w late, ((m.request client).reply = some returned ∨ returned.1.isAck = false) ∧
      (m.fs client).thread = .calling w ∧
      m' = { m with
        fs := Function.update m.fs client ((m.fs client).returns w returned)
        request := Function.update m.request client .sent
        late } := by
  have hfinish : ∀ {m : Mounts} {returned : Message × Bytes},
      m.finishCall client returned = some m' → ∃ w, (m.fs client).thread = .calling w ∧
        m' = { m with
          fs := Function.update m.fs client ((m.fs client).returns w returned)
          request := Function.update m.request client .sent } := by
    intro m returned hcall
    obtain ⟨fs, hnext, rfl⟩ := Option.map_eq_some_iff.mp hcall
    obtain ⟨w, hthread, rfl⟩ := SquidFS.next_returns hnext
    exact ⟨w, hthread, rfl⟩
  rcases hevent with rfl | ⟨returned, arrived, rfl⟩
  · obtain ⟨returned, hreply, hcall⟩ := Option.bind_eq_some_iff.mp h
    obtain ⟨w, hthread, rfl⟩ := hfinish hcall
    exact ⟨returned, w, _, Or.inl hreply, hthread, rfl⟩
  · simp only [step] at h
    split at h
    · simp at h
    · rename_i hnack
      obtain ⟨w, hthread, rfl⟩ := hfinish h
      exact ⟨returned, w, _, Or.inr (Bool.eq_false_iff.mpr hnack), hthread, rfl⟩

/-! ### What is locked is what is claimed -/

/-- Each mount counts its handles, a reply is on its way only to a mount that waits for it, and
what a client claims it has the lock of. -/
structure Held (m : Mounts) : Prop where
  kept : ∀ client p, SquidFS.Kept p (m.fs client)
  awaited : ∀ client, m.request client ≠ .sent → ∃ w, (m.fs client).thread = .calling w
  holds : ∀ client p, m.Claims client p → m.sys.rm.lockHolder p = some client

theorem held_start (sys : System) (versions : Bytes → StrMap Int32) :
    (start sys versions).Held where
  kept client p := SquidFS.kept_start p (versions client)
  awaited client hrequest := absurd rfl hrequest
  holds client p hclaims := by
    rcases hclaims with hwriters | ⟨hpath, -⟩
    · exact absurd rfl hwriters
    · simp [start, FuseThread.path] at hpath

/-- A mount that waits does nothing but handle pushes. -/
theorem request_eq_sent (h : m.Held) {local' : FsEvent} {fs : SquidFS}
    (hreturn : local'.isReturn = false) (hpush : local'.isPush = false)
    (hnext : (m.fs client).next local' = some fs) : m.request client = .sent := by
  by_contra hrequest
  obtain ⟨w, hthread⟩ := h.awaited client hrequest
  obtain ⟨o, ho, -⟩ := Option.map_eq_some_iff.mp hnext
  rw [SquidFS.step.eq_def, hthread] at ho
  cases local' <;> simp_all [FsEvent.isReturn, FsEvent.isPush]

/-- **Nothing but a grant** adds to what a client claims. -/
theorem claims_step (h : m.Held) (hstep : m.step event = some m')
    (hclaims : m'.Claims client p) : m.Claims client p ∨ Granted client p m event := by
  cases event with
  | fuse d local' =>
    obtain ⟨hreturn, fs, hnext, rfl⟩ := step_fuse hstep
    refine Or.inl ?_
    by_cases hd : client = d
    swap
    · simpa only [Claims, Function.update_of_ne hd] using hclaims
    subst hd
    simp only [Claims, Function.update_self] at hclaims ⊢
    cases hpush : local'.isPush with
    | false =>
      rw [request_eq_sent h hreturn hpush hnext] at hclaims ⊢
      exact SquidFS.claims_next (fun p => (h.kept client p).sound.counted) (by simp [hreturn])
        (by simp [hpush]) hnext hclaims
    | true =>
      cases local' with
      | push msg data => exact (SquidFS.claims_push hnext).mp hclaims
      | _ => simp [FsEvent.isPush] at hpush
  | serve d c removeError =>
    obtain ⟨w, hthread, hrequest, rfl⟩ := step_serve hstep
    by_cases hd : client = d
    swap
    · refine Or.inl ?_
      simpa only [Claims, Function.update_of_ne hd] using hclaims
    subst hd
    simp only [Claims, Function.update_self] at hclaims ⊢
    rcases hclaims with hwriters | ⟨hpath, hlocked⟩
    · exact Or.inl (Or.inl hwriters)
    · rw [hthread] at hpath hlocked
      -- only the windows that ask for the lock look at what has been replied
      cases w with
      | openLock path flags | createLock path version =>
        obtain rfl : path = p := Option.some.inj hpath
        refine Or.inr ⟨rfl, ⟨_, hthread, rfl⟩, ?_⟩
        simpa [FuseThread.locked, System.handle, System.respond, Window.request,
          RequestState.reply, Response.isAck_ack] using hlocked
      | _ =>
        refine Or.inl (Or.inr ?_)
        rw [hthread, hrequest]
        refine ⟨hpath, ?_⟩
        simp_all [FuseThread.locked, RequestState.reply]
  | deliver d | lose d returned arrived =>
    obtain ⟨returned, w, late, hreturned, hthread, rfl⟩ := step_returns d hstep (by simp)
    refine Or.inl ?_
    by_cases hd : client = d
    swap
    · simpa only [Claims, Function.update_of_ne hd] using hclaims
    subst hd
    simp only [Claims, Function.update_self] at hclaims ⊢
    exact SquidFS.claims_returns hthread hreturned hclaims
  | serveLate d rpc c removeError =>
    obtain rfl := step_serveLate hstep
    exact Or.inl hclaims
  | enter e =>
    obtain ⟨-, s, -, rfl⟩ := step_enter hstep
    exact Or.inl hclaims
  | loseEndpoint name | register name session files replies | evict name answer =>
    obtain rfl := Option.some.inj hstep
    exact Or.inl hclaims

/-- A call that gives a lock back is made by a client that has it. -/
theorem claims_of_release {w : Window} {fs : SquidFS} (hthread : fs.thread = .calling w)
    (hrequest : w.request = .releaseLock p) : fs.Claims none p := by
  refine Or.inr ?_
  rw [hthread]
  cases w <;> simp_all [Window.request, FuseThread.path, Window.path, FuseThread.locked]

theorem not_claims_of_released {w : Window} {fs : SquidFS} (hkept : SquidFS.Kept p fs)
    (hthread : fs.thread = .calling w) (hrequest : w.request = .releaseLock p)
    (reply : Message × Bytes) : ¬ fs.Claims (some reply) p := by
  obtain ⟨hunlocking, hpath⟩ := Window.unlocking_of_request hrequest
  have hwriters : fs.writersOf p = [] := by
    refine hkept.unlocked ?_ ?_
    · rw [hthread, FuseThread.path, hpath]
    · rw [hthread]
      exact hunlocking
  rintro (hsome | ⟨-, hlocked⟩)
  · exact hsome hwriters
  · rw [hthread] at hlocked
    cases w <;> simp_all [Window.request, FuseThread.locked]

/-- A DELETE_FILE touches the lock of its own path only, whether it throws or not. -/
theorem lockHolder_deleteThrowing (sys : System) (removeError : Option String)
    (answer : Bytes → SessionId → DeleteAnswer) {path q : Bytes} (origin : Bytes) (hq : path ≠ q) :
    (sys.propagateDeleteFileThrowing removeError answer path origin).1.rm.lockHolder q
      = sys.rm.lockHolder q := by
  have hplain : (sys.propagateDeleteFileThrowing none answer path origin).1.rm.lockHolder q
      = sys.rm.lockHolder q := by
    rw [System.propagateDeleteFileThrowing_none]
    exact (System.lockHolder_delete sys answer path origin q).trans (if_neg fun h => hq h.1)
  cases removeError with
  | none => exact hplain
  | some error =>
    by_cases hcommit : sys.deleteCommits path answer = true
    · rw [System.throwing_of_commits hcommit]
      show (sys.rm.fileLockMap.erase path)[q]?.bind _ = _
      rw [Std.ExtTreeMap.getElem?_erase,
        if_neg fun h => hq (Std.LawfulEqCmp.compare_eq_iff_eq.mp h)]
      rfl
    · rw [System.throwing_of_rejected hcommit]
      exact hplain

/-- **What a request does to the lock** of a path that is locked: a grant finds it locked, and of
the other requests only a RELEASE_LOCK or a DELETE_FILE of the path touches it. -/
theorem lockHolder_handle (sys : System) (c : Circumstances) (removeError : Option String)
    {rpc : Rpc} {d q holder : Bytes} (hholder : sys.rm.lockHolder q = some holder)
    (hrelease : rpc ≠ .releaseLock q) (hdelete : rpc ≠ .deleteFile q) :
    (sys.handle d c removeError rpc).1.rm.lockHolder q = some holder := by
  rw [← hholder]
  cases rpc with
  | createFile path version data =>
    simp only [System.handle, System.respond]
    split
    · rfl
    · exact System.lockHolder_create sys c.write c.rollback path version d data q
  | readFile path =>
    simp only [System.handle, System.respond]
    split <;> rfl
  | updateFile path version data =>
    have hupdate := System.lockHolder_update sys c.write path version d data q
    simp only [System.handle, System.respond]
    split
    · rfl
    · split <;> exact hupdate
  | deleteFile path =>
    refine lockHolder_deleteThrowing sys removeError c.delete d ?_
    rintro rfl
    exact hdelete rfl
  | acquireLock path =>
    obtain ⟨hfree, hafter⟩ := sys.rm.lockHolder_acquireLock path d c.now c.replies
    refine (hafter q).trans (if_neg ?_)
    rintro ⟨hack, rfl⟩
    rw [hfree hack] at hholder
    simp at hholder
  | releaseLock path =>
    refine (sys.rm.lockHolder_releaseLock path c.replies q).trans (if_neg ?_)
    rintro rfl
    exact hrelease rfl
  | heartbeat => rfl

/-- A section of a sweep or of `buildFileLockMap` takes the lock of no path but the one it
clears. -/
theorem lockHolder_section {s u : LockTable} {e : SectionEvent} {q holder : Bytes}
    (hstep : s.step e = some u) (hholder : s.rm.lockHolder q = some holder)
    (hcleared : s.cleared e ≠ some q) : u.rm.lockHolder q = some holder := by
  obtain ⟨lock, hlock, hlocked⟩ := Option.bind_eq_some_iff.mp hholder
  have hheld : lock.locked = true := by
    by_contra hfree
    simp [hfree] at hlocked
  obtain ⟨r, henter⟩ := LockTable.enter_of_step hstep
  cases LockTable.entryChange henter q with
  | kept hsame hgrant hclear => rw [ReplicationManager.lockHolder, hsame, hlock]; exact hlocked
  | inserted hnew hin hgrant hclear =>
    rw [hlock] at hnew
    cases hnew
  | granted lock' clientName hlock' hfree hin hgrant hclear =>
    obtain rfl := Option.some.inj (hlock.symm.trans hlock')
    simp [hheld] at hfree
  | cleared hfree hgrant hclear => exact absurd hclear.1 hcleared

/-- A request that is handled in its call takes no lock from a client that still claims it. -/
theorem holds_serve (h : m.Held) {d : Bytes} {c : Circumstances} {removeError : Option String}
    {w : Window} (hthread : (m.fs d).thread = .calling w) (hsent : m.request d = .sent)
    (hspares : m.Spares (.serve d c removeError)) (hclaims : m.Claims client p)
    (hstill : client = d →
      (m.fs d).Claims (m.sys.handle d c removeError w.request).2.reply p) :
    (m.sys.handle d c removeError w.request).1.rm.lockHolder p = some client := by
  have hholder := h.holds client p hclaims
  refine lockHolder_handle m.sys c removeError hholder ?_ ?_
  · intro hrequest
    -- the lock that is given back is the caller's own
    have hown : m.Claims d p := by
      rw [Claims, hsent]
      exact claims_of_release hthread hrequest
    obtain rfl : client = d := Option.some.inj (hholder.symm.trans (h.holds d p hown))
    have hanswered := hstill rfl
    rw [hrequest] at hanswered
    exact not_claims_of_released (h.kept client p) hthread hrequest _ hanswered
  · intro hrequest
    have hdeleting : p ∈ m.freed (.serve d c removeError) := by
      rw [freed, deleting, hthread]
      cases w <;> simp_all [Window.request]
    exact hspares.2 p hdeleting client hholder hclaims

/-- **One event takes no lock** from a client that still claims it. -/
theorem holds_step (h : m.Held) (hspares : m.Spares event) (hstep : m.step event = some m')
    (hclaims : m.Claims client p) (hstill : m'.Claims client p) :
    m'.sys.rm.lockHolder p = some client := by
  have hholder := h.holds client p hclaims
  cases event with
  | fuse d local' =>
    obtain ⟨-, fs, -, rfl⟩ := step_fuse hstep
    exact hholder
  | serve d c removeError =>
    obtain ⟨w, hthread, hsent, rfl⟩ := step_serve hstep
    refine holds_serve h hthread hsent hspares hclaims ?_
    rintro rfl
    simpa only [Claims, Function.update_self] using hstill
  | deliver d | lose d returned arrived =>
    obtain ⟨returned, w, late, -, -, rfl⟩ := step_returns d hstep (by simp)
    exact hholder
  | serveLate d rpc c removeError =>
    obtain rfl := step_serveLate hstep
    refine lockHolder_handle m.sys c removeError hholder ?_ ?_
    · rintro rfl
      exact hspares.2 p rfl client hholder hclaims
    · rintro rfl
      exact hspares.2 p rfl client hholder hclaims
  | enter e =>
    obtain ⟨-, s, hsection, rfl⟩ := step_enter hstep
    refine lockHolder_section hsection hholder fun hcleared => ?_
    exact hspares.2 p hcleared client hholder hclaims
  | register name session files replies =>
    obtain rfl := Option.some.inj hstep
    exact (System.lockHolder_register m.sys name session files replies p).trans hholder
  | loseEndpoint name =>
    obtain rfl := Option.some.inj hstep
    exact hholder
  | evict name answer =>
    obtain rfl := Option.some.inj hstep
    exact (System.lockHolder_evict m.sys name answer p).trans hholder

/-- A grant gives the lock to the client. -/
theorem lockHolder_of_granted (hstep : m.step event = some m') (hgrant : Granted client p m event) :
    m'.sys.rm.lockHolder p = some client := by
  cases event with
  | serve d c removeError =>
    obtain ⟨rfl, ⟨w, hthread, hrequest⟩, hack⟩ := hgrant
    obtain ⟨w', hthread', -, rfl⟩ := step_serve hstep
    obtain rfl : w = w' := by simpa [hthread] using hthread'
    rw [hrequest]
    refine ((m.sys.rm.lockHolder_acquireLock p d c.now c.replies).2 p).trans ?_
    rw [if_pos ⟨hack, rfl⟩]
  | _ => exact hgrant.elim

/-- The handles stay counted. -/
theorem kept_step (h : m.Held) (hspares : m.Spares event) (hstep : m.step event = some m') :
    ∀ client p, SquidFS.Kept p (m'.fs client) := by
  cases event with
  | fuse d local' =>
    obtain ⟨-, fs, hnext, rfl⟩ := step_fuse hstep
    intro client p
    by_cases hd : client = d
    · subst hd
      simpa only [Function.update_self] using (h.kept client p).next hspares.1 hnext
    · simpa only [Function.update_of_ne hd] using h.kept client p
  | serve d c removeError =>
    obtain ⟨w, -, -, rfl⟩ := step_serve hstep
    exact h.kept
  | deliver d | lose d returned arrived =>
    obtain ⟨returned, w, late, -, hthread, rfl⟩ := step_returns d hstep (by simp)
    intro client p
    by_cases hd : client = d
    · subst hd
      simp only [Function.update_self]
      exact ⟨(h.kept client p).sound.returns hthread returned,
        (h.kept client p).unlocked.returns hthread returned⟩
    · simpa only [Function.update_of_ne hd] using h.kept client p
  | serveLate d rpc c removeError =>
    obtain rfl := step_serveLate hstep
    exact h.kept
  | enter e =>
    obtain ⟨-, s, -, rfl⟩ := step_enter hstep
    exact h.kept
  | loseEndpoint name | register name session files replies | evict name answer =>
    obtain rfl := Option.some.inj hstep
    exact h.kept

/-- A mount waits until its reply has come. -/
theorem awaited_step (h : m.Held) (hstep : m.step event = some m') (client : Bytes)
    (hrequest : m'.request client ≠ .sent) : ∃ w, (m'.fs client).thread = .calling w := by
  cases event with
  | fuse d local' =>
    obtain ⟨hreturn, fs, hnext, rfl⟩ := step_fuse hstep
    by_cases hd : client = d
    swap
    · simpa only [Function.update_of_ne hd] using h.awaited client hrequest
    subst hd
    simp only [Function.update_self]
    cases hpush : local'.isPush with
    | false => exact absurd (request_eq_sent h hreturn hpush hnext) hrequest
    | true =>
      cases local' with
      | push msg data =>
        obtain ⟨w, hthread⟩ := h.awaited client hrequest
        have hlive : (m.fs client).thread ≠ .deadlocked := by simp [hthread]
        rw [SquidFS.next, SquidFS.step_push hlive] at hnext
        obtain rfl := Option.some.inj hnext
        exact ⟨w, (SquidFS.thread_handlePush _ msg data).1.trans hthread⟩
      | _ => simp [FsEvent.isPush] at hpush
  | serve d c removeError =>
    obtain ⟨w, hthread, -, rfl⟩ := step_serve hstep
    by_cases hd : client = d
    · subst hd
      exact ⟨w, hthread⟩
    · simp only [Function.update_of_ne hd] at hrequest
      exact h.awaited client hrequest
  | deliver d | lose d returned arrived =>
    obtain ⟨returned, w, late, -, -, rfl⟩ := step_returns d hstep (by simp)
    by_cases hd : client = d
    · subst hd
      simp at hrequest
    · simp only [Function.update_of_ne hd] at hrequest ⊢
      exact h.awaited client hrequest
  | serveLate d rpc c removeError =>
    obtain rfl := step_serveLate hstep
    exact h.awaited client hrequest
  | enter e =>
    obtain ⟨-, s, -, rfl⟩ := step_enter hstep
    exact h.awaited client hrequest
  | loseEndpoint name | register name session files replies | evict name answer =>
    obtain rfl := Option.some.inj hstep
    exact h.awaited client hrequest

/-- **One event**, of any mount or of the server. -/
theorem Held.step (h : m.Held) (hspares : m.Spares event) (hstep : m.step event = some m') :
    m'.Held where
  kept := kept_step h hspares hstep
  awaited := awaited_step h hstep
  holds client p hclaims := by
    rcases claims_step h hstep hclaims with hbefore | hgrant
    · exact holds_step h hspares hstep hbefore hclaims
    · exact lockHolder_of_granted hstep hgrant

/-- An UPDATE_FILE is handled for nobody but a client that claims the path, as long as no late one
is handled that another client minds. -/
theorem eq_of_updates (h : m.Held) (hspares : m.SparesUpdates event) {other : Bytes}
    (hupdates : Updates other p m event) (hclaims : m.Claims client p) : other = client := by
  have hholder := h.holds client p hclaims
  cases event with
  | serve d c removeError =>
    obtain ⟨rfl, hsent, data, version, hthread⟩ := hupdates
    have hown : m.Claims d p := by
      refine Or.inr ?_
      rw [hthread]
      exact ⟨rfl, rfl⟩
    exact Option.some.inj ((h.holds d p hown).symm.trans hholder)
  | serveLate d rpc c removeError =>
    obtain ⟨rfl, version, data, rfl⟩ := hupdates
    exact (hspares client hholder hclaims).symm
  | _ => exact hupdates.elim

end

/-! ### Whole runs -/

theorem held_run {sys : System} {versions : Bytes → StrMap Int32} {events : List MountEvent}
    {m : Mounts} (hmeets : Runs.Meets step Spares (start sys versions) events)
    (hrun : Runs.run step (start sys versions) events = some m) : m.Held :=
  Runs.run_invariant (fun _ _ _ hheld hspares hstep => hheld.step hspares hstep)
    (held_start sys versions) hmeets hrun

/-- Whoever claims a path was granted its lock, and no other mount has updated the file since. -/
def Isolated (start : Mounts) (events : List MountEvent) (m : Mounts) : Prop :=
  ∀ client p, m.Claims client p → Runs.Since step (Granted client p)
    (fun m event => ∃ other, other ≠ client ∧ Updates other p m event) start events

/-- **The history** of a run: a grant begins a claim, and an update of another mount would be made
under the same lock. -/
theorem isolated_run {sys : System} {versions : Bytes → StrMap Int32} {events : List MountEvent}
    {m : Mounts}
    (hmeets : Runs.Meets step (fun m event => m.Spares event ∧ m.SparesUpdates event)
      (start sys versions) events)
    (hrun : Runs.run step (start sys versions) events = some m) :
    m.Held ∧ Isolated (start sys versions) events m := by
  refine Runs.run_history (P := fun pre m => m.Held ∧ Isolated (start sys versions) pre m)
    ?_ ?_ hmeets hrun
  · rintro pre event m m' hpre ⟨hheld, hisolated⟩ ⟨hspares, hupdates⟩ hstep
    refine ⟨hheld.step hspares hstep, fun client p hclaims => (Runs.since_concat hpre).mpr ?_⟩
    rcases claims_step hheld hstep hclaims with hbefore | hgrant
    · refine Or.inr ⟨hisolated client p hbefore, ?_⟩
      rintro ⟨other, hother, hupdated⟩
      exact hother (eq_of_updates hheld hupdates hupdated hbefore)
    · exact Or.inl hgrant
  · refine ⟨held_start sys versions, fun client p hclaims => ?_⟩
    rcases hclaims with hwriters | ⟨hpath, -⟩
    · exact absurd rfl hwriters
    · simp [start, FuseThread.path] at hpath

end Mounts

/-- A server with one datanode that stores one file. -/
def oneFileServer (node f : Bytes) : System where
  rm :=
    let files : StrMap Int32 := (∅ : StrMap Int32).insert f 1
    (ReplicationManager.start 1 none).acceptDataNode node 0 files [files]
  nodes name path := if name = node ∧ path = f then some ⟨[1, 2], 1⟩ else none

/-- The server handles the request of a mount, and the reply comes. -/
def servedCall (client : Bytes) : List MountEvent :=
  [.serve client {} none, .deliver client, .fuse client .resume]

/-- A mount opens a file for writing. -/
def openForWriting (client f : Bytes) : List MountEvent :=
  .fuse client (.call (.opOpen f ⟨true, false⟩)) :: servedCall client ++ servedCall client

/-- It writes to the file and closes it, up to its UPDATE_FILE. -/
def writeAndClose (client f : Bytes) : List MountEvent :=
  [.fuse client (.call (.opWrite f [7] 0)), .fuse client (.call (.opRelease ⟨f, true⟩))]

/-- The connection is lost in a call, and the server handles its request later. -/
def lateCall (client : Bytes) (rpc : Rpc) : List MountEvent :=
  [.lose client ({}, []) true, .fuse client .resume, .serveLate client rpc {} none]

end Squid
