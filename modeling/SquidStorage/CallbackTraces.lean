/-
The callbacks as runs of the machine of the two threads.

`FuseCallbacks` has the callbacks as programs that lock and unlock `cacheMutex_`, `SquidFS`
has a machine whose steps are the sections between two of these locks.  Every run of a
callback on a file is a run of the machine with the same replies and the same pushes, in
which one operation is called and its result is returned; the other callbacks let nothing
happen but the pushes.

* `Follows` — the rest of a program does what the machine does from where it stands;
* `Follows.rpc`, `Follows.unlockedRpc` — a call to the server is a window of the machine;
* `opOpen_follows`, `opRelease_follows`, … — the programs, section by section;
* `Callback.traced` — every callback that returns, `Callback.deadlock_traced` — and the one
  that does not.
-/
import SquidStorage.CacheCounts
import SquidStorage.FuseCallbacks
import SquidStorage.Runs

open BigEndian ScopedLock

namespace Squid

open FuseM

/-! ### The machine with a record of what is called and returned -/

inductive FsRecord where
  | call (op : FsOp)
  | unlink (path : Bytes)
  | result (result : OpResult)
deriving DecidableEq, Repr

def FsEvent.recorded : FsEvent → List FsRecord
  | .call op => [.call op]
  | .unlink path => [.unlink path]
  | .returns _ | .resume | .push _ _ => []

namespace SquidFS

/-- A step of the machine, with what it adds to the record. -/
def traced (s : SquidFS × List FsRecord) (event : FsEvent) : Option (SquidFS × List FsRecord) :=
  (s.1.step event).map fun o => (o.1, s.2 ++ event.recorded ++ o.2.toList.map .result)

/-- The FUSE thread stands elsewhere. -/
def withThread (fs : SquidFS) (thread : FuseThread) : SquidFS := { fs with thread := thread }

/-- Pushes that are handled one after the other. -/
def handlePushes (fs : SquidFS) (pushes : List (Message × Bytes)) : SquidFS :=
  pushes.foldl (fun fs push => fs.handlePush push.1 push.2) fs

/-! ### Where the thread stands does not matter to the operations -/

section WithThread

variable (fs : SquidFS) (thread : FuseThread) (p : Bytes)

theorem withThread_idle (h : fs.thread = .idle) : fs.withThread .idle = fs := by
  rw [withThread, ← h]

theorem handlePush_with (handles : List FileHandle) (msg : Message) (data : Bytes) :
    ({ fs with thread := thread, handles := handles } : SquidFS).handlePush msg data
      = { fs.handlePush msg data with thread := thread, handles := handles } := by
  by_cases hupsert : msg.opcode = .pushCreateFile ∨ msg.opcode = .pushUpdateFile
  · by_cases hpath : msg.getString .filePath = []
    · rcases hupsert with hop | hop <;>
        simp only [handlePush, pushHandler, hop, hpath] <;> rfl
    · rcases hupsert with hop | hop <;>
        simp only [handlePush, pushHandler, hop, ne_eq, hpath] <;> rfl
  · rw [not_or] at hupsert
    by_cases hdelete : msg.opcode = .pushDeleteFile
    · by_cases hpath : msg.getString .filePath = []
      · simp only [handlePush, pushHandler, hdelete, hpath]
        rfl
      · simp only [handlePush, pushHandler, hdelete, ne_eq, hpath]
        rfl
    · rw [handlePush_other _ data hupsert.1 hupsert.2 hdelete,
        handlePush_other fs data hupsert.1 hupsert.2 hdelete]

theorem handlePushes_with (handles : List FileHandle) (pushes : List (Message × Bytes)) :
    ({ fs with thread := thread, handles := handles } : SquidFS).handlePushes pushes
      = { fs.handlePushes pushes with thread := thread, handles := handles } := by
  induction pushes generalizing fs with
  | nil => rfl
  | cons push pushes ih =>
    have h := ih (fs.handlePush push.1 push.2)
    rw [handlePushes, List.foldl_cons, handlePush_with]
    exact h

theorem handlePush_withThread (msg : Message) (data : Bytes) :
    (fs.withThread thread).handlePush msg data = (fs.handlePush msg data).withThread thread := by
  refine (handlePush_with fs thread fs.handles msg data).trans ?_
  rw [withThread, ← (thread_handlePush fs msg data).2]

theorem thread_handlePushes (pushes : List (Message × Bytes)) :
    (fs.handlePushes pushes).thread = fs.thread ∧
      (fs.handlePushes pushes).handles = fs.handles := by
  induction pushes generalizing fs with
  | nil => exact ⟨rfl, rfl⟩
  | cons push pushes ih =>
    obtain ⟨hthread, hhandles⟩ := thread_handlePush fs push.1 push.2
    obtain ⟨ihthread, ihhandles⟩ := ih (fs.handlePush push.1 push.2)
    exact ⟨ihthread.trans hthread, ihhandles.trans hhandles⟩

theorem noteReply_withThread (ack : Message) (request : Rpc) :
    (fs.withThread thread).noteReply ack request
      = (fs.noteReply ack request).withThread thread := by
  cases request with
  | createFile path version data | readFile path | updateFile path version data =>
    simp only [noteReply, setVersionFromAck]
    split
    · rfl
    · split <;> rfl
  | deleteFile path =>
    simp only [noteReply]
    split <;> rfl
  | acquireLock path | releaseLock path | heartbeat => rfl

theorem thread_noteReply (ack : Message) (request : Rpc) :
    (fs.noteReply ack request).thread = fs.thread := by
  show ((fs.withThread fs.thread).noteReply ack request).thread = fs.thread
  rw [noteReply_withThread]
  rfl

theorem eraseUnopened_withThread :
    (fs.withThread thread).eraseUnopened p = (fs.eraseUnopened p).withThread thread := by
  have hfind : (fs.withThread thread).find p = fs.find p := rfl
  rw [eraseUnopened, eraseUnopened, hfind]
  cases fs.find p with
  | none => rfl
  | some e =>
    by_cases hopen : e.openCount = 0
    · simp only [if_pos hopen]
      rfl
    · simp only [if_neg hopen]

theorem thread_eraseUnopened : (fs.eraseUnopened p).thread = fs.thread := by
  show ((fs.withThread fs.thread).eraseUnopened p).thread = fs.thread
  rw [eraseUnopened_withThread]
  rfl

theorem flushed_withThread (ack : Message) :
    (fs.withThread thread).flushed p ack = (fs.flushed p ack).withThread thread := by
  have hfind : (fs.withThread thread).find p = fs.find p := rfl
  rw [flushed, flushed, hfind]
  cases fs.find p with
  | none => rfl
  | some e => rfl

theorem thread_flushed (ack : Message) : (fs.flushed p ack).thread = fs.thread := by
  show ((fs.withThread fs.thread).flushed p ack).thread = fs.thread
  rw [flushed_withThread]
  rfl

theorem openLocked_withThread (flags : OpenFlags) :
    (fs.withThread thread).openLocked p flags = fs.openLocked p flags := by
  have hentry : ((fs.withThread thread).touch p).entry p = (fs.touch p).entry p := rfl
  rw [openLocked, openLocked, hentry]
  by_cases hopen : ((fs.touch p).entry p).openCount = 0
  · simp only [if_pos hopen]
    rfl
  · simp only [if_neg hopen]
    rfl

theorem openFailed_withThread : (fs.withThread thread).openFailed p = fs.openFailed p := by
  rw [openFailed, openFailed, eraseUnopened_withThread]
  rfl

theorem fetchIntoCache_withThread (reply : Message × Bytes) :
    (fs.withThread thread).fetchIntoCache p reply
      = (fs.fetchIntoCache p reply).map fun fs => fs.withThread thread := by
  rw [fetchIntoCache, fetchIntoCache]
  cases reply.1.isAck with
  | false => rfl
  | true => rfl

/-- An operation goes on as if the thread had not moved. -/
theorem resume_withThread (w : Window) (reply : Message × Bytes) :
    (fs.withThread thread).resume w reply = fs.resume w reply := by
  cases w with
  | openLock path flags =>
    have hfind : (fs.withThread thread).find path = fs.find path := rfl
    simp only [resume, eraseUnopened_withThread, openLocked_withThread, hfind]
    rfl
  | openFetch path flags =>
    simp only [resume, fetchIntoCache_withThread, openFailed_withThread]
    cases fs.fetchIntoCache path reply with
    | none => rfl
    | some fs' => rfl
  | openAbort path => exact openFailed_withThread fs thread path
  | readFetch path size offset =>
    simp only [resume, fetchIntoCache_withThread]
    cases fs.fetchIntoCache path reply with
    | none => rfl
    | some fs' => rfl
  | releaseUpdate path data version =>
    simp only [resume, flushed_withThread]
    rfl
  | releaseUnlock path =>
    simp only [resume, eraseUnopened_withThread]
    rfl
  | createFile path | createLock path version | createAbort path | releaseOrphan path
  | unlink path => rfl

end WithThread

/-! ### Steps of the machine -/

section Steps

variable {fs : SquidFS}

theorem reaches_step {event : FsEvent} {o : SquidFS × Option OpResult}
    (h : fs.step event = some o) (log : List FsRecord) :
    Runs.Reaches traced (fs, log) (o.1, log ++ event.recorded ++ o.2.toList.map .result) := by
  refine Runs.Reaches.single event ?_
  rw [traced, h]
  rfl

/-- Pushes are handled while the thread stands somewhere. -/
theorem reaches_pushes (log : List FsRecord) {thread : FuseThread} (hthread : thread ≠ .deadlocked)
    (fs : SquidFS) (pushes : List (Message × Bytes)) :
    Runs.Reaches traced (fs.withThread thread, log)
      ((fs.handlePushes pushes).withThread thread, log) := by
  induction pushes generalizing fs with
  | nil => exact Runs.Reaches.refl _
  | cons push pushes ih =>
    have hstep : (fs.withThread thread).step (.push push.1 push.2)
        = some ((fs.handlePush push.1 push.2).withThread thread, none) := by
      rw [step_push hthread, handlePush_withThread]
    have hfirst := reaches_step hstep log
    simp only [FsEvent.recorded, List.append_nil, Option.toList_none, List.map_nil] at hfirst
    exact hfirst.trans (ih (fs.handlePush push.1 push.2))

end Steps

end SquidFS

/-! ### Programs that do what the machine does -/

/-- The cache, the version map and the handles. -/
def FuseState.fs (s : FuseState) : SquidFS := s.mount.toSquidFS

/-- The machine has come to `o`, and the program does what is left of the operation: it
returns, and the machine gets to where the program ends, with the same result. -/
def Follows (x : FuseM OpResult) (h h' : Hold) (s : FuseState) (o : SquidFS × Option OpResult) :
    Prop :=
  ∃ result t, x.run s h = (.returned result, t, h') ∧ t.fs.thread = .idle ∧
    ∀ log, Runs.Reaches SquidFS.traced (o.1, log ++ o.2.toList.map .result)
      (t.fs, log ++ [.result result])

section Follows

variable {x : FuseM OpResult} {h h' : Hold} {s : FuseState} {o : SquidFS × Option OpResult}

/-- The operation returns. -/
theorem follows_leave (hidle : s.fs.thread = .idle) (result : OpResult) :
    Follows (pure result) h h s (s.fs.leave result) := by
  refine ⟨result, s, rfl, hidle, fun log => ?_⟩
  have hleave : s.fs.leave result = (s.fs, some result) :=
    congrArg (·, some result) (s.fs.withThread_idle hidle)
  rw [hleave]
  exact Runs.Reaches.refl _

theorem Follows.of_run {y : FuseM OpResult} {k : Hold} {t : FuseState} (hy : Follows y k h' t o)
    (hrun : x.run s h = y.run t k) : Follows x h h' s o := by
  obtain ⟨result, u, hreturn, hidle, hreaches⟩ := hy
  exact ⟨result, u, hrun.trans hreturn, hidle, hreaches⟩

/-- The machine does something first. -/
theorem Follows.of_reaches (hx : Follows x h h' s o) {o' : SquidFS × Option OpResult}
    (hfirst : ∀ log, Runs.Reaches SquidFS.traced (o'.1, log ++ o'.2.toList.map .result)
      (o.1, log ++ o.2.toList.map .result)) : Follows x h h' s o' := by
  obtain ⟨result, t, hrun, hidle, hreaches⟩ := hx
  exact ⟨result, t, hrun, hidle, fun log => (hfirst log).trans (hreaches log)⟩

theorem Follows.ite {y : FuseM OpResult} {o' : SquidFS × Option OpResult} {c : Prop} [Decidable c]
    (hx : c → Follows x h h' s o) (hy : ¬ c → Follows y h h' s o') :
    Follows (if c then x else y) h h' s (if c then o else o') := by
  by_cases hc : c
  · rw [if_pos hc, if_pos hc]
    exact hx hc
  · rw [if_neg hc, if_neg hc]
    exact hy hc

theorem Follows.look {α : Type} {g : FuseMount → α} {k : α → FuseM OpResult}
    (hk : Follows (k (g s.mount)) h h' s o) : Follows (look g >>= k) h h' s o :=
  hk.of_run (bind_returned rfl)

/-- The state after a change to the cache, the version map or the handles. -/
def FuseState.onFS (s : FuseState) (f : SquidFS → SquidFS) : FuseState :=
  { s with mount := s.mount.onFS f }

theorem Follows.changeFS {f : SquidFS → SquidFS} {k : Unit → FuseM OpResult}
    (hk : Follows (k ()) h h' (s.onFS f) o) : Follows (changeFS f >>= k) h h' s o :=
  hk.of_run (bind_returned rfl)

/-- The operation changes something and returns. -/
theorem follows_changed {f : SquidFS → SquidFS} (hidle : (f s.fs).thread = .idle)
    (result : OpResult) :
    Follows (FuseM.changeFS f >>= fun _ => pure result) h h s ((f s.fs).leave result) :=
  Follows.changeFS (follows_leave (s := s.onFS f) hidle result)

theorem Follows.uniqueLock (hx : Follows x .owned .owned s o) :
    Follows (uniqueLock x) .free .free s o := by
  obtain ⟨result, t, hrun, hidle, hreaches⟩ := hx
  exact ⟨result, t, uniqueLock_returned hrun, hidle, hreaches⟩

theorem Follows.lockGuard (hx : Follows x .guarded .guarded s o) :
    Follows (lockGuard x) .free .free s o := by
  obtain ⟨result, t, hrun, hidle, hreaches⟩ := hx
  exact ⟨result, t, lockGuard_returned hrun, hidle, hreaches⟩

end Follows

/-! ### Calls to the server -/

/-- The state once the session's thread has had the mutex. -/
def FuseState.afterPushes (s : FuseState) : FuseState :=
  { s with mount := s.mount.handlePushes (s.around.pushes s.pauses), pauses := s.pauses + 1 }

theorem others_run (s : FuseState) (h : Hold) :
    others.run s h = (.returned (), s.afterPushes, h) := rfl

theorem FuseMount.toSquidFS_handlePushes (m : FuseMount) (pushes : List (Message × Bytes)) :
    (m.handlePushes pushes).toSquidFS = m.toSquidFS.handlePushes pushes := by
  induction pushes generalizing m with
  | nil => rfl
  | cons push pushes ih => exact ih (m.onFS fun fs => fs.handlePush push.1 push.2)

theorem FuseState.fs_afterPushes (s : FuseState) :
    s.afterPushes.fs = s.fs.handlePushes (s.around.pushes s.pauses) :=
  s.mount.toSquidFS_handlePushes _

theorem FuseState.idle_afterPushes {s : FuseState} (hidle : s.fs.thread = .idle) :
    s.afterPushes.fs.thread = .idle := by
  rw [s.fs_afterPushes, (SquidFS.thread_handlePushes _ _).1]
  exact hidle

section Calls

variable {h h' : Hold} {s : FuseState} {w : Window}

/-- The session's thread has the mutex while the machine is in a window. -/
theorem Follows.others {x : FuseM OpResult}
    (hx : Follows x h h' s.afterPushes (s.afterPushes.fs.await w)) :
    Follows (others >>= fun _ => x) h h' s (s.fs.await w) := by
  refine (Follows.of_run hx (bind_returned (others_run s h))).of_reaches fun log => ?_
  rw [s.fs_afterPushes]
  exact SquidFS.reaches_pushes _ (by simp) s.fs _

/-- The state once the server has replied. -/
def FuseState.answered (s : FuseState) (request : Rpc) : FuseState :=
  { s with
    mount := s.mount.onFS fun fs => fs.noteReply (s.around.reply s.calls).1 request
    calls := s.calls + 1 }

theorem rpc_run (request : Rpc) (s : FuseState) (h : Hold) :
    (rpc request).run s h
      = (.returned (s.around.reply s.calls), (s.answered request).afterPushes, h) := rfl

/-- **A call to the server** is a window of the machine. -/
theorem Follows.rpc {k : Message × Bytes → FuseM OpResult} (hidle : s.fs.thread = .idle)
    (hk : ∀ reply t, t.fs.thread = .idle → Follows (k reply) h h' t (t.fs.resume w reply)) :
    Follows (rpc w.request >>= k) h h' s (s.fs.await w) := by
  set reply := s.around.reply s.calls with hreply
  set t := (s.answered w.request).afterPushes with ht
  have hfs : (s.answered w.request).fs = s.fs.noteReply reply.1 w.request := rfl
  have hidle' : t.fs.thread = .idle := by
    refine FuseState.idle_afterPushes ?_
    rw [hfs, SquidFS.thread_noteReply]
    exact hidle
  refine (Follows.of_run (hk reply t hidle') (bind_returned (rpc_run _ s h))).of_reaches
    fun log => ?_
  -- the reply is noted, pushes are handled, and the thread takes the mutex again
  have hreturns : (s.fs.await w).1.step (.returns reply)
      = some ((s.answered w.request).fs.withThread (.returned w reply), none) := by
    have hnote := SquidFS.noteReply_withThread s.fs (.calling w) reply.1 w.request
    show some ((s.fs.withThread (.calling w)).returns w reply, none) = _
    rw [SquidFS.returns, hnote]
    rfl
  have hresume : (t.fs.withThread (.returned w reply)).step .resume
      = some (t.fs.resume w reply) :=
    congrArg some (SquidFS.resume_withThread t.fs (.returned w reply) w reply)
  have hfirst := SquidFS.reaches_step hreturns log
  have hlast := SquidFS.reaches_step hresume log
  have hpushes := SquidFS.reaches_pushes log
    (show FuseThread.returned w reply ≠ .deadlocked by simp)
    (s.answered w.request).fs ((s.answered w.request).around.pushes (s.answered w.request).pauses)
  rw [← FuseState.fs_afterPushes] at hpushes
  simp only [FsEvent.recorded, List.append_nil, Option.toList_none, List.map_nil] at hfirst hlast
  have hwindow : (s.fs.await w).2.toList.map FsRecord.result = [] := rfl
  rw [hwindow, List.append_nil]
  exact (hfirst.trans hpushes).trans hlast

/-- A call for which the mutex is dropped. -/
theorem Follows.unlockedRpc {k : Message × Bytes → FuseM OpResult} (hidle : s.fs.thread = .idle)
    (hk : ∀ reply t, t.fs.thread = .idle →
      Follows (k reply) .owned h' t (t.fs.resume w reply)) :
    Follows (unlockedRpc w.request >>= k) .owned h' s (s.fs.await w) := by
  have hdrop : (FuseM.unlockedRpc w.request >>= k).run s .owned
      = (FuseM.others >>= fun _ => FuseM.rpc w.request >>= fun reply =>
          retake >>= fun _ => k reply).run s .free := by
    simp only [FuseM.unlockedRpc, dropLock, bind_assoc, pure_bind]
    exact bind_returned (drop_run s)
  refine Follows.of_run (Follows.others ?_) hdrop
  refine Follows.rpc (FuseState.idle_afterPushes hidle) fun reply t ht => ?_
  exact Follows.of_run (hk reply t ht) (bind_returned (retake_run t))

end Calls

/-! ### The programs -/

section Programs

variable {s : FuseState}

/-- The mount once the contents of a file have arrived. -/
def SquidFS.fetched (fs : SquidFS) (path : Bytes) (reply : Message × Bytes) : SquidFS :=
  fs.setEntry path { fs.entry path with
    data := reply.2, version := toInt32 (reply.1.getUint32 .fileVersion 0), dirty := false }

theorem SquidFS.fetchIntoCache_eq (fs : SquidFS) (path : Bytes) (reply : Message × Bytes) :
    fs.fetchIntoCache path reply
      = if reply.1.isAck then some (fs.fetched path reply) else none := by
  rw [SquidFS.fetchIntoCache]
  cases reply.1.isAck with
  | false => rfl
  | true => rfl

/-- A fetch is the window of the READ_FILE. -/
theorem Follows.fetchIntoCache {r : Bytes} {k : Option Errno → FuseM OpResult} {w : Window}
    {h' : Hold} (hw : w.request = .readFile r) (hidle : s.fs.thread = .idle)
    (hfetched : ∀ (reply : Message × Bytes) (t : FuseState), t.fs.thread = .idle →
      reply.1.isAck = true →
      Follows (k none) .owned h' (t.onFS fun fs => fs.fetched r reply) (t.fs.resume w reply))
    (hfailed : ∀ (reply : Message × Bytes) (t : FuseState), t.fs.thread = .idle →
      reply.1.isAck = false →
      Follows (k (some .eio)) .owned h' t (t.fs.resume w reply)) :
    Follows (fetchIntoCache r >>= k) .owned h' s (s.fs.await w) := by
  simp only [Squid.fetchIntoCache, bind_assoc]
  rw [← hw]
  refine Follows.unlockedRpc hidle fun reply t ht => ?_
  cases hack : reply.1.isAck with
  | true =>
    simp only [Bool.not_true, Bool.false_eq_true, if_false, bind_assoc, pure_bind]
    exact Follows.changeFS (hfetched reply t ht hack)
  | false =>
    simp only [Bool.not_false, if_true, pure_bind]
    exact hfailed reply t ht hack

/-- The end of `op_open` after a fetch that failed. -/
theorem openFailed_follows (hidle : s.fs.thread = .idle) (r : Bytes) :
    Follows (changeFS (fun fs => fs.eraseUnopened r) >>= fun _ => pure (.failed .eio))
      .owned .owned s (s.fs.openFailed r) :=
  follows_changed ((SquidFS.thread_eraseUnopened s.fs r).trans hidle) _

theorem openLocked_follows (hidle : s.fs.thread = .idle) (r : Bytes) (flags : OpenFlags) :
    Follows (openLocked r flags) .owned .owned s (s.fs.openLocked r flags) := by
  have hfinish : ∀ t : FuseState, t.fs.thread = .idle →
      Follows (changeFS (fun fs =>
          let fs := fs.setEntry r (SquidFS.opened (fs.entry r) flags)
          { fs with handles := ⟨r, flags.writable⟩ :: fs.handles }) >>= fun _ =>
        pure (.opened ⟨r, flags.writable⟩)) .owned .owned t (t.fs.openFinish r flags) :=
    fun t ht => follows_changed ht _
  simp only [openLocked, fetchFirst, bind_assoc]
  refine Follows.changeFS (Follows.look ?_)
  by_cases hopen : ((s.onFS fun fs => fs.touch r).mount.entry r).openCount = 0
  · have hawait : s.fs.openLocked r flags
        = (s.onFS fun fs => fs.touch r).fs.await (.openFetch r flags) := if_pos hopen
    rw [if_pos hopen, hawait]
    refine Follows.fetchIntoCache rfl hidle (fun reply t ht hack => ?_) fun reply t ht hack => ?_
    · have hresume : t.fs.resume (.openFetch r flags) reply
          = (t.fs.fetched r reply).openFinish r flags := by
        rw [SquidFS.resume, SquidFS.fetchIntoCache_eq, if_pos hack]
      rw [hresume]
      exact hfinish (t.onFS fun fs => fs.fetched r reply) ht
    · have hresume : t.fs.resume (.openFetch r flags) reply
          = if flags.writable then t.fs.await (.openAbort r) else t.fs.openFailed r := by
        rw [SquidFS.resume, SquidFS.fetchIntoCache_eq, if_neg (by simp [hack])]
      rw [hresume]
      simp only [releaseIf]
      cases flags.writable with
      | true =>
        simp only [if_true, bind_assoc, pure_bind]
        exact Follows.unlockedRpc (w := .openAbort r) ht fun _ u hu => openFailed_follows hu r
      | false =>
        simp only [Bool.false_eq_true, if_false, pure_bind]
        exact openFailed_follows ht r
  · have hnow : s.fs.openLocked r flags
        = (s.onFS fun fs => fs.touch r).fs.openFinish r flags := if_neg hopen
    rw [if_neg hopen, hnow, pure_bind]
    exact hfinish _ hidle

theorem opOpen_follows (hidle : s.fs.thread = .idle) (path : Bytes) (flags : OpenFlags) :
    Follows (opOpen path flags) .free .free s (s.fs.opOpen (rel path) flags) := by
  simp only [opOpen]
  by_cases hroot : rel path = []
  · have hleave : s.fs.opOpen (rel path) flags = s.fs.leave (.failed .eisdir) := if_pos hroot
    rw [if_pos hroot, hleave]
    exact follows_leave hidle _
  · rw [if_neg hroot]
    refine Follows.uniqueLock (Follows.changeFS (Follows.look ?_))
    by_cases hlock : flags.writable = true ∧
        ((s.onFS fun fs => fs.touch (rel path)).mount.entry (rel path)).lockCount = 0
    · have hawait : s.fs.opOpen (rel path) flags
          = (s.onFS fun fs => fs.touch (rel path)).fs.await (.openLock (rel path) flags) :=
        (if_neg hroot).trans (if_pos hlock)
      rw [if_pos hlock, hawait]
      refine Follows.unlockedRpc (w := .openLock (rel path) flags) hidle fun ack t ht => ?_
      refine Follows.look ?_
      simp only [SquidFS.resume]
      refine Follows.ite (fun _ => ?_) fun _ => Follows.ite (fun _ => ?_) fun _ => ?_
      · exact follows_changed ((SquidFS.thread_eraseUnopened t.fs _).trans ht) _
      · exact follows_leave ht _
      · exact openLocked_follows ht _ flags
    · have hnow : s.fs.opOpen (rel path) flags
          = (s.onFS fun fs => fs.touch (rel path)).fs.openLocked (rel path) flags :=
        (if_neg hroot).trans (if_neg hlock)
      rw [if_neg hlock, hnow]
      exact openLocked_follows (s := s.onFS fun fs => fs.touch (rel path)) hidle _ flags

theorem opRead_follows (hidle : s.fs.thread = .idle) (path : Bytes) (size offset : ℕ) :
    Follows (opRead path size offset) .free .free s (s.fs.opRead (rel path) size offset) := by
  simp only [opRead, SquidFS.opRead]
  refine Follows.uniqueLock (Follows.look (Follows.ite (fun _ => ?_) fun _ => ?_))
  swap
  · exact follows_leave hidle _
  refine Follows.changeFS ?_
  refine Follows.fetchIntoCache (w := .readFetch (rel path) size offset) rfl hidle
    (fun reply t ht hack => ?_) fun reply t ht hack => ?_
  · have hresume : t.fs.resume (.readFetch (rel path) size offset) reply
        = (t.fs.fetched (rel path) reply).leave (.read (ByteFile.copyOut reply.2 size offset)) := by
      rw [SquidFS.resume, SquidFS.fetchIntoCache_eq, if_pos hack]
      simp only [SquidFS.fetched, SquidFS.entry_setEntry_self]
    have hfind : ((t.onFS fun fs => fs.fetched (rel path) reply).mount.find (rel path))
        = some ((t.fs.fetched (rel path) reply).entry (rel path)) := by
      show (t.fs.fetched (rel path) reply).find (rel path) = _
      rw [SquidFS.fetched, SquidFS.find_setEntry_self, SquidFS.entry_setEntry_self]
    rw [hresume]
    refine Follows.look ?_
    rw [hfind]
    simp only [SquidFS.fetched, SquidFS.entry_setEntry_self]
    exact follows_leave (s := t.onFS fun fs => fs.fetched (rel path) reply) ht _
  · have hresume : t.fs.resume (.readFetch (rel path) size offset) reply
        = t.fs.leave (.failed .eio) := by
      rw [SquidFS.resume, SquidFS.fetchIntoCache_eq, if_neg (by simp [hack])]
    rw [hresume]
    exact follows_leave ht _

theorem opWrite_follows (hidle : s.fs.thread = .idle) (path buf : Bytes) (offset : ℕ) :
    Follows (opWrite path buf offset) .free .free s (s.fs.opWrite (rel path) buf offset) := by
  refine Follows.lockGuard (Follows.look ?_)
  have hfind : s.mount.find (rel path) = s.fs.find (rel path) := rfl
  rw [hfind, SquidFS.opWrite]
  cases s.fs.find (rel path) with
  | none => exact follows_leave hidle _
  | some e => exact follows_changed hidle _

theorem opTruncate_follows (hidle : s.fs.thread = .idle) (path : Bytes) (size : ℕ) :
    Follows (opTruncate path size) .free .free s (s.fs.opTruncate (rel path) size) := by
  refine Follows.lockGuard (Follows.look ?_)
  have hfind : s.mount.find (rel path) = s.fs.find (rel path) := rfl
  rw [hfind, SquidFS.opTruncate]
  cases s.fs.find (rel path) with
  | none => exact follows_leave hidle _
  | some e => exact follows_changed hidle _

theorem opUnlink_follows (hidle : s.fs.thread = .idle) (path : Bytes) :
    Follows (opUnlink path) .free .free s (s.fs.opUnlink (rel path)) := by
  refine Follows.rpc (w := .unlink (rel path)) hidle fun ack t ht => ?_
  refine Follows.ite (fun _ => follows_leave ht _) fun _ => ?_
  have hguard : (lockGuard (changeFS fun fs => fs.erase (rel path))).run t .free
      = (.returned (), t.onFS fun fs => fs.erase (rel path), .free) := lockGuard_returned rfl
  exact Follows.of_run (follows_leave (s := t.onFS fun fs => fs.erase (rel path)) ht _)
    (bind_returned hguard)

/-- The last section of `op_release`. -/
theorem eraseUnopened_follows (hidle : s.fs.thread = .idle) (r : Bytes) :
    Follows (changeFS (fun fs => fs.eraseUnopened r) >>= fun _ => pure .done)
      .owned .owned s ((s.fs.eraseUnopened r).leave .done) :=
  follows_changed ((SquidFS.thread_eraseUnopened s.fs r).trans hidle) _

/-- `op_release` from the RELEASE_LOCK of the last writable handle on. -/
theorem releaseUnlock_follows (hidle : s.fs.thread = .idle) (r : Bytes) :
    Follows (dropLock >>= fun _ => rpc (.releaseLock r) >>= fun _ => retake >>= fun _ =>
        changeFS (fun fs => fs.eraseUnopened r) >>= fun _ => pure .done)
      .owned .owned s (s.fs.await (.releaseUnlock r)) := by
  have hcall := Follows.unlockedRpc (w := .releaseUnlock r)
    (k := fun _ => changeFS (fun fs => fs.eraseUnopened r) >>= fun _ => pure .done) hidle
    fun _ t ht => eraseUnopened_follows ht r
  simp only [unlockedRpc, bind_assoc, pure_bind] at hcall
  exact hcall

/-- `op_release` once the handle is taken out of the counts of the entry. -/
theorem closeLast_follows (hidle : s.fs.thread = .idle) (writable : Bool) (r : Bytes)
    (e : CacheEntry) :
    Follows (closeLast (writable && e.lockCount == 0) r e >>= fun _ =>
        changeFS (fun fs => fs.eraseUnopened r) >>= fun _ => pure .done) .owned .owned s
      (if writable = true ∧ e.lockCount = 0 then
        if e.dirty then s.fs.await (.releaseUpdate r e.data e.version)
        else s.fs.await (.releaseUnlock r)
      else (s.fs.eraseUnopened r).leave .done) := by
  by_cases hlast : writable = true ∧ e.lockCount = 0
  · have hflag : (writable && e.lockCount == 0) = true := by simpa using hlast
    rw [if_pos hlast, hflag]
    simp only [closeLast, if_true, writeBack, bind_assoc]
    cases hdirty : e.dirty with
    | true =>
      simp only [if_true, bind_assoc]
      refine Follows.unlockedRpc (w := .releaseUpdate r e.data e.version) hidle fun ack t ht => ?_
      have hidle' : (t.onFS fun fs => fs.flushed r ack.1).fs.thread = .idle :=
        (SquidFS.thread_flushed t.fs r ack.1).trans ht
      exact Follows.changeFS (releaseUnlock_follows hidle' r)
    | false => exact releaseUnlock_follows hidle r
  · have hflag : (writable && e.lockCount == 0) = false := by simpa using hlast
    rw [if_neg hlast, hflag]
    simp only [closeLast, Bool.false_eq_true, if_false, pure_bind]
    exact eraseUnopened_follows hidle r

theorem opRelease_follows (hidle : s.fs.thread = .idle) (fh : FileHandle) :
    Follows (opRelease fh) .free .free s (s.fs.opRelease fh) := by
  simp only [opRelease, SquidFS.opRelease]
  refine Follows.look (Follows.ite (fun _ => follows_leave hidle _) fun _ => ?_)
  refine Follows.changeFS (Follows.uniqueLock (Follows.look ?_))
  set t := s.onFS fun fs => { fs with handles := fs.handles.erase fh } with ht
  have hidle' : t.fs.thread = .idle := hidle
  have hfind : t.mount.find fh.path = s.fs.find fh.path := rfl
  have hfind' : SquidFS.find { s.fs with handles := s.fs.handles.erase fh } fh.path
      = s.fs.find fh.path := rfl
  rw [hfind, hfind']
  cases s.fs.find fh.path with
  | none =>
    simp only [releaseIf]
    cases fh.writable with
    | true =>
      simp only [if_true, bind_assoc, pure_bind]
      exact Follows.unlockedRpc (w := .releaseOrphan fh.path) hidle' fun _ u hu =>
        follows_leave hu _
    | false =>
      simp only [Bool.false_eq_true, if_false, pure_bind]
      exact follows_leave hidle' _
  | some e =>
    exact Follows.changeFS (closeLast_follows
      (s := t.onFS fun fs => fs.setEntry fh.path (SquidFS.closed e fh.writable)) hidle _ _ _)

/-- The last section of `op_create`; the handle is given out once the mutex is free again. -/
theorem createFinish_follows (hidle : s.fs.thread = .idle) (r : Bytes) (version : Int32) :
    Follows (guarded (changeFS fun fs => fs.setEntry r
        { data := [], version := version, dirty := false, lockCount := 1, openCount := 1 }) >>=
      fun _ => changeFS (fun fs => { fs with handles := ⟨r, true⟩ :: fs.handles }) >>=
      fun _ => pure (.opened ⟨r, true⟩)) .free .free s (s.fs.createFinish r version) := by
  set t := s.onFS fun fs => fs.setEntry r
    { data := [], version := version, dirty := false, lockCount := 1, openCount := 1 }
  set pushes := t.around.pushes t.pauses
  have hpushed : t.afterPushes.fs.thread = .idle := FuseState.idle_afterPushes hidle
  -- the machine gives the handle out before the pushes, which do not see it
  have hlast : ({ t.fs with thread := .idle, handles := ⟨r, true⟩ :: t.fs.handles } :
      SquidFS).handlePushes pushes
        = { t.afterPushes.fs with handles := ⟨r, true⟩ :: t.afterPushes.fs.handles } := by
    rw [SquidFS.handlePushes_with, t.fs_afterPushes, (SquidFS.thread_handlePushes t.fs pushes).2,
      ← hpushed, t.fs_afterPushes]
  refine ⟨.opened ⟨r, true⟩,
    t.afterPushes.onFS fun fs => { fs with handles := ⟨r, true⟩ :: fs.handles }, rfl, hpushed,
    fun log => ?_⟩
  have hreaches := SquidFS.reaches_pushes (log ++ [.result (.opened ⟨r, true⟩)])
    (show FuseThread.idle ≠ .deadlocked by simp)
    { t.fs with thread := .idle, handles := ⟨r, true⟩ :: t.fs.handles } pushes
  rw [hlast] at hreaches
  have hstill : ({ t.afterPushes.fs with
      handles := ⟨r, true⟩ :: t.afterPushes.fs.handles } : SquidFS).withThread .idle
        = { t.afterPushes.fs with handles := ⟨r, true⟩ :: t.afterPushes.fs.handles } :=
    SquidFS.withThread_idle _ hpushed
  rw [hstill] at hreaches
  exact hreaches

/-- `op_create` of a path that is neither cached nor known. -/
theorem createNew_follows (hidle : s.fs.thread = .idle) (r : Bytes) :
    Follows (createNew r) .free .free s (s.fs.await (.createFile r)) := by
  refine Follows.rpc (w := .createFile r) hidle fun cAck t ht => ?_
  refine Follows.ite (fun _ => follows_leave ht _) fun _ => ?_
  refine Follows.rpc (w := .createLock r _) ht fun lAck u hu => ?_
  refine Follows.ite (fun _ => ?_) fun _ => ?_
  · exact Follows.rpc (w := .createAbort r) hu fun _ v hv => follows_leave hv _
  · exact createFinish_follows hu r _

end Programs

/-! ### The callbacks -/

/-- What is recorded while a callback runs.  `op_create` of a known path is an `op_open`;
the callbacks on names call nothing. -/
def Callback.Records : Callback → CallbackResult → List FsRecord → Prop
  | .openFile path flags, .op result, log =>
    log = [.call (.opOpen (rel path) flags), .result result]
  | .create path flags, .op result, log =>
    log = [.call (.opCreate (rel path) flags), .result result] ∨
      log = [.call (.opOpen (rel path) flags), .result result]
  | .read path size offset, .op result, log =>
    log = [.call (.opRead (rel path) size offset), .result result]
  | .write path buf offset, .op result, log =>
    log = [.call (.opWrite (rel path) buf offset), .result result]
  | .truncate path size, .op result, log =>
    log = [.call (.opTruncate (rel path) size), .result result]
  | .release fh, .op result, log => log = [.call (.opRelease fh), .result result]
  | .unlink path, .op result, log => log = [.unlink (rel path), .result result]
  | _, _, log => log = []

/-- A run of a callback is a run of the machine. -/
def Traced (s t : FuseState) (log : List FsRecord) : Prop :=
  t.fs.thread = .idle ∧ Runs.Reaches SquidFS.traced (s.fs, []) (t.fs, log)

theorem Traced.trans {s t u : FuseState} {log : List FsRecord} (h : Traced s t [])
    (h' : Traced t u log) : Traced s u log := ⟨h'.1, h.2.trans h'.2⟩

/-- An operation that is called when the thread is idle. -/
theorem Follows.traced {x : FuseM OpResult} {s t : FuseState} {h h' k : Hold} {event : FsEvent}
    {o : SquidFS × Option OpResult} {result : OpResult} (hx : Follows x h h' s o)
    (hstep : s.fs.step event = some o) (hrun : x.run s h = (.returned result, t, k)) :
    Traced s t (event.recorded ++ [.result result]) := by
  obtain ⟨result', t', hrun', hidle, hreaches⟩ := hx
  obtain ⟨hresult, hstate⟩ := Prod.mk.inj (hrun'.symm.trans hrun)
  obtain rfl := Ending.returned.inj hresult
  obtain rfl := (Prod.mk.inj hstate).1
  exact ⟨hidle, (SquidFS.reaches_step hstep []).trans (hreaches event.recorded)⟩

theorem SquidFS.step_call {fs : SquidFS} (hidle : fs.thread = .idle) (op : FsOp) :
    fs.step (.call op) = some (fs.call op) := by
  rw [SquidFS.step.eq_def, hidle]

theorem call_traced {x : FuseM OpResult} {s t : FuseState} {h h' k : Hold} {result : OpResult}
    (op : FsOp) (hidle : s.fs.thread = .idle) (hx : Follows x h h' s (s.fs.call op))
    (hrun : x.run s h = (.returned result, t, k)) : Traced s t [.call op, .result result] :=
  hx.traced (SquidFS.step_call hidle op) hrun

theorem traced_afterPushes {s : FuseState} (hidle : s.fs.thread = .idle) :
    Traced s s.afterPushes [] := by
  refine ⟨FuseState.idle_afterPushes hidle, ?_⟩
  have h := SquidFS.reaches_pushes [] (show FuseThread.idle ≠ .deadlocked by simp) s.fs
    (s.around.pushes s.pauses)
  rw [← s.fs_afterPushes, SquidFS.withThread_idle _ hidle,
    SquidFS.withThread_idle _ (FuseState.idle_afterPushes hidle)] at h
  exact h

/-! ### The callbacks on names -/

/-- The program returns, and nothing has happened but pushes. -/
def OnlyPushes {α : Type} (x : FuseM α) : Prop :=
  ∀ s : FuseState, s.fs.thread = .idle →
    ∃ a t, x.run s .free = (.returned a, t, .free) ∧ Traced s t []

section OnlyPushes

variable {α β : Type} {x y : FuseM α}

theorem onlyPushes_pure (a : α) : OnlyPushes (pure a) :=
  fun s hidle => ⟨a, s, rfl, hidle, Runs.Reaches.refl _⟩

theorem OnlyPushes.bind {f : α → FuseM β} (hx : OnlyPushes x) (hf : ∀ a, OnlyPushes (f a)) :
    OnlyPushes (x >>= f) := by
  intro s hidle
  obtain ⟨a, t, hrun, htraced⟩ := hx s hidle
  obtain ⟨b, u, hrun', htraced'⟩ := hf a t htraced.1
  exact ⟨b, u, (bind_returned hrun).trans hrun', htraced.trans htraced'⟩

theorem OnlyPushes.ite {c : Prop} [Decidable c] (hx : OnlyPushes x) (hy : OnlyPushes y) :
    OnlyPushes (if c then x else y) := by
  by_cases hc : c
  · rw [if_pos hc]
    exact hx
  · rw [if_neg hc]
    exact hy

theorem OnlyPushes.traced (hx : OnlyPushes x) {s t : FuseState} {k : Hold} {a : α}
    (hidle : s.fs.thread = .idle) (hrun : x.run s .free = (.returned a, t, k)) :
    Traced s t [] := by
  obtain ⟨b, u, hrun', htraced⟩ := hx s hidle
  obtain ⟨-, hstate⟩ := Prod.mk.inj (hrun'.symm.trans hrun)
  obtain rfl := (Prod.mk.inj hstate).1
  exact htraced

theorem onlyPushes_peek (f : FuseMount → α) : OnlyPushes (peek f) :=
  fun s hidle => ⟨f s.mount, s.afterPushes, rfl, traced_afterPushes hidle⟩

theorem onlyPushes_guarded_look (f : FuseMount → α) : OnlyPushes (guarded (look f)) :=
  fun s hidle => ⟨f s.mount, s.afterPushes, rfl, traced_afterPushes hidle⟩

variable (path : Bytes)

theorem onlyPushes_opGetattr : OnlyPushes (opGetattr path) := by
  refine OnlyPushes.ite (onlyPushes_pure _) ?_
  refine (onlyPushes_guarded_look _).bind fun hit => ?_
  cases hit with
  | some entry => exact onlyPushes_pure _
  | none =>
    refine (onlyPushes_peek _).bind fun known => OnlyPushes.ite (onlyPushes_pure _) ?_
    exact (onlyPushes_peek _).bind fun _ => OnlyPushes.ite (onlyPushes_pure _) (onlyPushes_pure _)

theorem onlyPushes_opReaddir : OnlyPushes (opReaddir path) := by
  refine (onlyPushes_peek _).bind fun known => OnlyPushes.ite (onlyPushes_pure _) ?_
  exact (onlyPushes_peek _).bind fun _ => onlyPushes_pure _

theorem onlyPushes_opMkdir : OnlyPushes (opMkdir path) := by
  refine OnlyPushes.ite (onlyPushes_pure _) ?_
  refine (onlyPushes_peek _).bind fun known => OnlyPushes.ite (onlyPushes_pure _) ?_
  refine (onlyPushes_peek _).bind fun orphan => OnlyPushes.ite (onlyPushes_pure _) ?_
  -- the directories are no part of the machine
  exact fun s hidle => ⟨_, _, rfl, hidle, Runs.Reaches.refl _⟩

theorem onlyPushes_opRmdir : OnlyPushes (opRmdir path) := by
  refine (onlyPushes_peek _).bind fun known => OnlyPushes.ite (onlyPushes_pure _) ?_
  exact (onlyPushes_peek _).bind fun _ => OnlyPushes.ite (onlyPushes_pure _) (onlyPushes_pure _)

end OnlyPushes

/-! ### `op_create` -/

section Create

variable {s : FuseState} {path : Bytes} (flags : OpenFlags)

/-- `op_create` of a path that is not cached, up to its look into the version map. -/
theorem opCreate_uncached_run (hpath : rel path ≠ [])
    (hcached : ¬ (s.mount.find (rel path)).isSome) :
    (opCreate path flags).run s .free
      = (others >>= fun _ => if 0 ≤ s.afterPushes.fs.getFileVersion (rel path)
          then opOpen path flags else createNew (rel path)).run s.afterPushes .free := by
  have hguard : (guarded (delegate path flags)).run s .free
      = (.returned none, s.afterPushes, .free) := by
    rw [guarded, bind_returned (lockGuard_returned (delegate_uncached flags hcached)),
      bind_returned (others_run s .free), return_run]
  rw [opCreate]
  simp only [if_neg hpath]
  rw [bind_returned hguard]
  simp only [peek, bind_assoc, pure_bind]
  exact bind_returned rfl

/-- A path that is known is opened, two pauses later. -/
theorem opCreate_known_run (hpath : rel path ≠ []) (hcached : ¬ (s.mount.find (rel path)).isSome)
    (hknown : 0 ≤ s.afterPushes.fs.getFileVersion (rel path)) :
    (opCreate path flags).run s .free
      = (opOpen path flags).run s.afterPushes.afterPushes .free := by
  rw [opCreate_uncached_run flags hpath hcached, if_pos hknown]
  exact bind_returned (others_run _ _)

/-- A path that is not known is created. -/
theorem opCreate_new_follows (hidle : s.fs.thread = .idle) (hpath : rel path ≠ [])
    (hcached : ¬ (s.mount.find (rel path)).isSome)
    (hnew : ¬ 0 ≤ s.afterPushes.fs.getFileVersion (rel path)) :
    Follows (opCreate path flags) .free .free s (s.fs.opCreate (rel path) flags) := by
  have hidle₁ := FuseState.idle_afterPushes hidle
  have hidle₂ := FuseState.idle_afterPushes hidle₁
  have hcreate := Follows.others (createNew_follows hidle₂ (rel path))
  have hrun := opCreate_uncached_run flags hpath hcached
  rw [if_neg hnew] at hrun
  have hlookup : s.fs.opCreate (rel path) flags
      = (s.fs.withThread (.lookup (rel path) flags), none) := by
    rw [SquidFS.opCreate, if_neg hpath]
    exact if_neg hcached
  rw [hlookup]
  refine (hcreate.of_run hrun).of_reaches fun log => ?_
  -- pushes, and the look into the version map
  have hresume : (s.afterPushes.fs.withThread (.lookup (rel path) flags)).step .resume
      = some (s.afterPushes.fs.await (.createFile (rel path))) := by
    show some ((s.afterPushes.fs.withThread (.lookup (rel path) flags)).createUncached
      (rel path) flags) = _
    rw [SquidFS.createUncached]
    exact congrArg some (if_neg hnew)
  have hpushes := SquidFS.reaches_pushes log
    (show FuseThread.lookup (rel path) flags ≠ .deadlocked by simp) s.fs (s.around.pushes s.pauses)
  rw [← s.fs_afterPushes] at hpushes
  have hlast := SquidFS.reaches_step hresume log
  simp only [FsEvent.recorded, List.append_nil] at hlast
  simp only [Option.toList_none, List.map_nil, List.append_nil]
  exact hpushes.trans hlast

end Create

/-! ### All callbacks -/

theorem opCreate_traced {s t : FuseState} {path : Bytes} {flags : OpenFlags} {k : Hold}
    {result : OpResult} (hidle : s.fs.thread = .idle)
    (hrun : (opCreate path flags).run s .free = (.returned result, t, k)) :
    Traced s t [.call (.opCreate (rel path) flags), .result result] ∨
      Traced s t [.call (.opOpen (rel path) flags), .result result] := by
  by_cases hpath : rel path = []
  · have hx : Follows (opCreate path flags) .free .free s (s.fs.opCreate (rel path) flags) := by
      simp only [opCreate, SquidFS.opCreate, if_pos hpath]
      exact follows_leave hidle _
    exact Or.inl (call_traced (.opCreate (rel path) flags) hidle hx hrun)
  · by_cases hcached : (s.mount.find (rel path)).isSome
    · rw [opCreate_cached flags hpath hcached] at hrun
      cases hrun
    · by_cases hknown : 0 ≤ s.afterPushes.fs.getFileVersion (rel path)
      · rw [opCreate_known_run flags hpath hcached hknown] at hrun
        have hidle₁ := FuseState.idle_afterPushes hidle
        have hidle₂ := FuseState.idle_afterPushes hidle₁
        have hopen := call_traced (.opOpen (rel path) flags) hidle₂
          (opOpen_follows hidle₂ path flags) hrun
        exact Or.inr (((traced_afterPushes hidle).trans (traced_afterPushes hidle₁)).trans hopen)
      · exact Or.inl (call_traced (.opCreate (rel path) flags) hidle
          (opCreate_new_follows flags hidle hpath hcached hknown) hrun)

/-- **Every callback that returns** is a run of the machine. -/
theorem Callback.traced {callback : Callback} {s t : FuseState} {k : Hold} {result : CallbackResult}
    (hidle : s.fs.thread = .idle)
    (hrun : callback.program.run s .free = (.returned result, t, k)) :
    ∃ log, callback.Records result log ∧ Traced s t log := by
  have hunlink : ∀ path, s.fs.step (.unlink path) = some (s.fs.opUnlink path) := by
    intro path
    rw [SquidFS.step.eq_def, hidle]
  cases callback with
  | getattr path =>
    obtain ⟨a, hx, rfl⟩ := map_eq_returned hrun
    exact ⟨[], rfl, (onlyPushes_opGetattr path).traced hidle hx⟩
  | readdir path =>
    obtain ⟨a, hx, rfl⟩ := map_eq_returned hrun
    exact ⟨[], rfl, (onlyPushes_opReaddir path).traced hidle hx⟩
  | mkdir path =>
    obtain ⟨a, hx, rfl⟩ := map_eq_returned hrun
    exact ⟨[], rfl, (onlyPushes_opMkdir path).traced hidle hx⟩
  | rmdir path =>
    obtain ⟨a, hx, rfl⟩ := map_eq_returned hrun
    exact ⟨[], rfl, (onlyPushes_opRmdir path).traced hidle hx⟩
  | openFile path flags =>
    obtain ⟨a, hx, rfl⟩ := map_eq_returned hrun
    have hfollows := opOpen_follows hidle path flags
    exact ⟨_, rfl, call_traced (.opOpen (rel path) flags) hidle hfollows hx⟩
  | create path flags =>
    obtain ⟨a, hx, rfl⟩ := map_eq_returned hrun
    rcases opCreate_traced hidle hx with htraced | htraced
    · exact ⟨_, Or.inl rfl, htraced⟩
    · exact ⟨_, Or.inr rfl, htraced⟩
  | read path size offset =>
    obtain ⟨a, hx, rfl⟩ := map_eq_returned hrun
    have hfollows := opRead_follows hidle path size offset
    exact ⟨_, rfl, call_traced (.opRead (rel path) size offset) hidle hfollows hx⟩
  | write path buf offset =>
    obtain ⟨a, hx, rfl⟩ := map_eq_returned hrun
    have hfollows := opWrite_follows hidle path buf offset
    exact ⟨_, rfl, call_traced (.opWrite (rel path) buf offset) hidle hfollows hx⟩
  | release fh =>
    obtain ⟨a, hx, rfl⟩ := map_eq_returned hrun
    exact ⟨_, rfl, call_traced (.opRelease fh) hidle (opRelease_follows hidle fh) hx⟩
  | unlink path =>
    obtain ⟨a, hx, rfl⟩ := map_eq_returned hrun
    exact ⟨_, rfl, (opUnlink_follows hidle path).traced (hunlink _) hx⟩
  | truncate path size =>
    obtain ⟨a, hx, rfl⟩ := map_eq_returned hrun
    have hfollows := opTruncate_follows hidle path size
    exact ⟨_, rfl, call_traced (.opTruncate (rel path) size) hidle hfollows hx⟩

/-- The callback that deadlocks leaves the machine deadlocked. -/
theorem Callback.deadlock_traced {s : FuseState} {path : Bytes} (flags : OpenFlags)
    (hidle : s.fs.thread = .idle) (hpath : rel path ≠ [])
    (hcached : (s.mount.find (rel path)).isSome) :
    ((Callback.create path flags).program.run s .free).1 = .deadlocked ∧
      Runs.Reaches SquidFS.traced (s.fs, [])
        (s.fs.withThread .deadlocked, [.call (.opCreate (rel path) flags)]) := by
  have hdead : (Callback.create path flags).program.run s .free = (.deadlocked, s, .guarded) := by
    rw [Callback.program, map_eq_pure_bind]
    exact bind_deadlocked (opCreate_cached flags hpath hcached)
  have hstep : s.fs.step (.call (.opCreate (rel path) flags))
      = some (s.fs.withThread .deadlocked, none) := by
    rw [SquidFS.step_call hidle]
    show some (s.fs.opCreate (rel path) flags) = _
    rw [SquidFS.opCreate, if_neg hpath]
    exact congrArg some (if_pos hcached)
  exact ⟨congrArg Prod.fst hdead, SquidFS.reaches_step hstep []⟩

end Squid
