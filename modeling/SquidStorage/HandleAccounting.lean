/-
The counts of the cache entries and the locks that are given back.

A cache entry counts the handles of its path, and the last writable handle gives the
lock back.  Both rest on the entry staying in the cache while a handle is open.
`op_unlink` and the push handler take it out without a look at `openCount`: the
entry that comes next counts from zero, and each writable handle that is left takes
itself for an orphan and gives the lock back on its own.

* `Accounted` — the counts are those of the open handles, and the lock that is being
  given back has no writable handle left;
* `Unlocked.call`, `Unlocked.resume` — no operation gives a lock back early;
* `handles_accounted` — every run is accounted for as long as no open path is
  deleted, and a deletion of an open path leads out of it.
-/
import SquidStorage.UnflushedWrites

open BigEndian

namespace Squid

/-! ### The property -/

/-- Each entry counts the open handles and the open writable handles of its path, and
RELEASE_LOCK is called for a path that has no writable handle open. -/
structure Accounted (fs : SquidFS) : Prop where
  counts : ∀ p e, fs.find p = some e →
    e.openCount = (fs.handlesOf p).length ∧ e.lockCount = (fs.writersOf p).length
  unlocks : ∀ w p, fs.thread = .calling w → w.request = .releaseLock p → fs.writersOf p = []

/-- The event deletes no path that is open: neither a PUSH_DELETE_FILE does, nor
`op_unlink`. -/
def SparesOpen (fs : SquidFS) : FsEvent → Prop
  | .push msg _ => msg.opcode = .pushDeleteFile → fs.handlesOf (msg.getString .filePath) = []
  | .unlink path => fs.handlesOf path = []
  | .call _ | .returns _ | .resume => True

instance (fs : SquidFS) : DecidablePred (SparesOpen fs)
  | .push msg _ => inferInstanceAs (Decidable (msg.opcode = .pushDeleteFile →
      fs.handlesOf (msg.getString .filePath) = []))
  | .unlink path => inferInstanceAs (Decidable (fs.handlesOf path = []))
  | .call _ | .returns _ | .resume => isTrue True.intro

/-! ### Locks that are about to be given back -/

/-- In these windows the lock is being given back, or will be if the call fails. -/
def Window.unlocking : Window → Bool
  | openFetch _ _ | openAbort _ | releaseOrphan _ | releaseUpdate _ _ _ | releaseUnlock _ => true
  | _ => false

theorem Window.unlocking_of_request {w : Window} {p : Bytes} (h : w.request = .releaseLock p) :
    w.unlocking = true ∧ w.path = p := by
  cases w <;> simp_all [Window.request, Window.unlocking, Window.path]

def FuseThread.unlocking : FuseThread → Bool
  | idle | deadlocked | lookup _ _ => false
  | calling w | returned w _ => w.unlocking

namespace SquidFS

/-- An operation that is giving the lock of `p` back has found no writer left. -/
def Unlocked (p : Bytes) (fs : SquidFS) : Prop :=
  fs.thread.path = some p → fs.thread.unlocking = true → fs.writersOf p = []

theorem writersOf_eq_nil {fs : SquidFS} {p : Bytes} (h : fs.handlesOf p = []) :
    fs.writersOf p = [] := by
  rw [writersOf, h, List.filter_nil]

theorem Counted.writersOf_eq_nil {fs : SquidFS} {p : Bytes} (h : Counted p fs)
    (hlock : (fs.entry p).lockCount = 0) : fs.writersOf p = [] :=
  List.eq_nil_of_length_eq_zero (h.writers.symm.trans hlock)

section

variable {p : Bytes} {fs : SquidFS}

theorem unlocked_leave (result : OpResult) : Unlocked p (fs.leave result).1 := by
  intro hpath
  simp [SquidFS.leave, FuseThread.path] at hpath

theorem unlocked_await {w : Window} (hw : w.unlocking = true → fs.writersOf p = []) :
    Unlocked p (fs.await w).1 :=
  fun _ => hw

theorem Unlocked.elsewhere {r : Bytes} {o : SquidFS × Option OpResult}
    (hconfined : Confined r fs o) (hp : p ≠ r) : Unlocked p o.1 :=
  fun hpath => absurd (hconfined.thread p hpath) hp

/-- The first fetch of a path finds no handle of it. -/
theorem Unlocked.openLocked (h : Counted p fs) (flags : OpenFlags) :
    Unlocked p (fs.openLocked p flags).1 := by
  rw [SquidFS.openLocked]
  split
  · rename_i hopen
    refine unlocked_await fun _ => ?_
    exact SquidFS.writersOf_eq_nil (h.touch.handlesOf_eq_nil hopen)
  · exact unlocked_leave _

theorem Unlocked.opOpen (h : Counted p fs) (flags : OpenFlags) :
    Unlocked p (fs.opOpen p flags).1 := by
  rw [SquidFS.opOpen]
  split
  · exact unlocked_leave _
  · dsimp only
    split
    · exact unlocked_await (by simp [Window.unlocking])
    · exact Unlocked.openLocked h.touch flags

/-- The release that finds `lockCount` at zero has closed the last writer. -/
theorem Unlocked.opRelease (fh : FileHandle) (h : Counted fh.path fs) :
    Unlocked fh.path (fs.opRelease fh).1 := by
  rw [SquidFS.opRelease]
  split
  · exact unlocked_leave _
  · rename_i hopen
    have hfh : fh ∈ fs.handles := not_not.mp hopen
    obtain ⟨e, hentry⟩ := h.find_eq_some hfh
    have hfind : ({ fs with handles := fs.handles.erase fh } : SquidFS).find fh.path = some e :=
      hentry
    have hdrop := h.dropHandle hfh
    rw [entry_eq hentry] at hdrop
    dsimp only
    rw [hfind]
    dsimp only
    split
    · rename_i hlast
      have hwriters := hdrop.writersOf_eq_nil (by rw [entry_setEntry_self]; exact hlast.2)
      split
      · exact unlocked_await fun _ => hwriters
      · exact unlocked_await fun _ => hwriters
    · exact unlocked_leave _

/-- **A call** gives no lock back early. -/
theorem Unlocked.call (h : Counted p fs) (op : FsOp) : Unlocked p (fs.call op).1 := by
  by_cases hp : p = op.path
  swap
  · exact Unlocked.elsewhere (confined_call fs op) hp
  subst hp
  cases op with
  | opCreate path flags =>
    show Unlocked path (fs.opCreate path flags).1
    rw [SquidFS.opCreate]
    split
    · exact unlocked_leave _
    · split
      · intro hpath
        simp [FuseThread.path] at hpath
      · intro _ hunlocking
        simp [FuseThread.unlocking] at hunlocking
  | opOpen path flags => exact Unlocked.opOpen h flags
  | opRead path size offset =>
    show Unlocked path (fs.opRead path size offset).1
    rw [SquidFS.opRead]
    split
    · exact unlocked_await (by simp [Window.unlocking])
    · exact unlocked_leave _
  | opWrite path buf offset =>
    show Unlocked path (fs.opWrite path buf offset).1
    rw [SquidFS.opWrite]
    split <;> exact unlocked_leave _
  | opTruncate path size =>
    show Unlocked path (fs.opTruncate path size).1
    rw [SquidFS.opTruncate]
    split <;> exact unlocked_leave _
  | opRelease fh => exact Unlocked.opRelease fh h

theorem Unlocked.createUncached {path : Bytes} (h : Counted p fs) (flags : OpenFlags) :
    Unlocked p (fs.createUncached path flags).1 := by
  by_cases hp : p = path
  swap
  · exact Unlocked.elsewhere (confined_createUncached fs path flags) hp
  subst hp
  rw [SquidFS.createUncached]
  split
  · exact Unlocked.opOpen h flags
  · exact unlocked_await (by simp [Window.unlocking])

theorem Unlocked.returns {w : Window} (h : Unlocked p fs) (hthread : fs.thread = .calling w)
    (reply : Message × Bytes) : Unlocked p (fs.returns w reply) := by
  intro hpath hunlocking
  rw [writersOf, handlesOf_returns]
  refine h ?_ ?_
  · rw [hthread]
    exact hpath
  · rw [hthread]
    exact hunlocking

theorem handlesOf_flushed (fs : SquidFS) (path : Bytes) (ack : Message) (p : Bytes) :
    (fs.flushed path ack).handlesOf p = fs.handlesOf p := by
  rw [SquidFS.flushed]
  split <;> rfl

/-- **An operation that goes on** gives no lock back early: the windows that follow
one in which the path had no writer have none. -/
theorem Unlocked.resume {w : Window} {reply : Message × Bytes} (h : Unlocked p fs)
    (hcounted : Counted p fs) (hthread : fs.thread = .returned w reply) :
    Unlocked p (fs.resume w reply).1 := by
  by_cases hp : p = w.path
  swap
  · exact Unlocked.elsewhere (confined_resume fs w reply) hp
  subst hp
  have hwriters : w.unlocking = true → fs.writersOf w.path = [] := fun hw =>
    h (by rw [hthread]; rfl) (by rw [hthread]; exact hw)
  cases w with
  | openLock path flags =>
    simp only [SquidFS.resume]
    split
    · exact unlocked_leave _
    · split
      · exact unlocked_leave _
      · exact Unlocked.openLocked hcounted flags
  | openFetch path flags =>
    simp only [SquidFS.resume]
    split
    · exact unlocked_leave _
    · split
      · exact unlocked_await fun _ => hwriters rfl
      · exact unlocked_leave _
  | createFile path =>
    simp only [SquidFS.resume]
    split
    · exact unlocked_leave _
    · exact unlocked_await (by simp [Window.unlocking])
  | createLock path version =>
    simp only [SquidFS.resume]
    split
    · exact unlocked_await (by simp [Window.unlocking])
    · exact unlocked_leave _
  | readFetch path size offset =>
    simp only [SquidFS.resume]
    split <;> exact unlocked_leave _
  | releaseUpdate path data version =>
    refine unlocked_await fun _ => ?_
    rw [writersOf, handlesOf_flushed]
    exact hwriters rfl
  | unlink path =>
    simp only [SquidFS.resume]
    split <;> exact unlocked_leave _
  | openAbort path | createAbort path | releaseOrphan path | releaseUnlock path =>
    exact unlocked_leave _

theorem Unlocked.handlePush (h : Unlocked p fs) (msg : Message) (data : Bytes) :
    Unlocked p (fs.handlePush msg data) := by
  intro hpath hunlocking
  rw [(thread_handlePush fs msg data).1] at hpath hunlocking
  rw [writersOf, handlesOf_handlePush]
  exact h hpath hunlocking

end

/-! ### The run -/

/-- What is known of one path, whatever the thread is doing. -/
structure Kept (p : Bytes) (fs : SquidFS) : Prop where
  sound : Sound p fs
  unlocked : Unlocked p fs

theorem kept_start (p : Bytes) (versions : StrMap Int32) :
    Kept p { versions := versions } := by
  have hfind : ({ versions := versions } : SquidFS).find p = none :=
    Std.ExtTreeMap.getElem?_empty
  exact ⟨⟨.of_absent rfl hfind, fun hpath => by simp [FuseThread.path] at hpath⟩,
    fun hpath => by simp [FuseThread.path] at hpath⟩

/-- **One event**, of either thread. -/
theorem Kept.next {p : Bytes} {fs fs' : SquidFS} {event : FsEvent} (h : Kept p fs)
    (hspares : SparesOpen fs event) (hnext : fs.next event = some fs') : Kept p fs' := by
  obtain ⟨o, ho, rfl⟩ := Option.map_eq_some_iff.mp hnext
  have hcounted := h.sound.counted
  rw [SquidFS.step.eq_def] at ho
  split at ho
  · rename_i op hthread
    obtain rfl := Option.some.inj ho
    exact ⟨hcounted.call op, Unlocked.call hcounted op⟩
  · -- `op_unlink`
    rename_i path hthread
    obtain rfl := Option.some.inj ho
    have hunlocked : Unlocked p (fs.opUnlink path).1 :=
      unlocked_await (by simp [Window.unlocking])
    by_cases hp : p = path
    · subst hp
      exact ⟨hcounted.await fun _ => hspares, hunlocked⟩
    · have hconfined := (OnlyAt.refl path fs).await (w := .unlink path)
      exact ⟨Sound.elsewhere hcounted hconfined hp, hunlocked⟩
  · rename_i reply w hthread
    obtain rfl := Option.some.inj ho
    exact ⟨h.sound.returns hthread reply, h.unlocked.returns hthread reply⟩
  · rename_i path flags hthread
    obtain rfl := Option.some.inj ho
    exact ⟨h.sound.createUncached hthread, Unlocked.createUncached hcounted flags⟩
  · rename_i w reply hthread
    obtain rfl := Option.some.inj ho
    exact ⟨h.sound.resume hthread, h.unlocked.resume hcounted hthread⟩
  · simp at ho
  · -- a push
    rename_i msg data hthread
    obtain rfl := Option.some.inj ho
    refine ⟨h.sound.handlePush data ?_, h.unlocked.handlePush msg data⟩
    rintro ⟨hop, rfl⟩
    exact hspares hop
  · simp at ho

theorem accounted_of_kept {fs : SquidFS} (h : ∀ p, Kept p fs) : Accounted fs where
  counts p e hfind := by
    have hcounted := (h p).sound.counted
    rw [← entry_eq hfind]
    exact ⟨hcounted.opens, hcounted.writers⟩
  unlocks w p hthread hrequest := by
    obtain ⟨hunlocking, hpath⟩ := Window.unlocking_of_request hrequest
    refine (h p).unlocked ?_ ?_
    · rw [hthread, FuseThread.path, hpath]
    · rw [hthread]
      exact hunlocking

/-! ### A path that is deleted while it is open -/

/-- A PUSH_UPDATE_FILE of the path, as it follows when another client writes to the
file again. -/
def updatePush (p : Bytes) : Message := { opcode := .pushUpdateFile, fields := [⟨.filePath, p⟩] }

theorem getString_updatePush (p : Bytes) : (updatePush p).getString .filePath = p := by
  simp [updatePush, Message.getString, Message.findField]

/-- The entry that a PUSH_UPDATE_FILE makes where there was none counts nothing. -/
theorem find_updatePush {fs : SquidFS} {p : Bytes} (hfind : fs.find p = none) :
    ∃ e, (fs.handlePush (updatePush p) []).find p = some e ∧ e.openCount = 0 := by
  have hpush : fs.handlePush (updatePush p) [] = (if (updatePush p).getString .filePath ≠ []
      then fs.setFileVersion ((updatePush p).getString .filePath)
        (toInt32 ((updatePush p).getUint32 .fileVersion 0))
      else fs).pushHandler (updatePush p) [] := rfl
  have hmade : ∀ fs' : SquidFS, fs'.find p = none →
      ∃ e, (fs'.pushHandler (updatePush p) []).find p = some e ∧ e.openCount = 0 := by
    intro fs' hnone
    have hentry : fs'.entry p = {} := by
      rw [entry, hnone]
      rfl
    rw [find_pushHandler_upsert fs' _ [] p (Or.inr rfl), if_pos (getString_updatePush p), hentry]
    exact ⟨_, rfl, rfl⟩
  rw [hpush]
  split
  · exact hmade _ hfind
  · exact hmade fs hfind

theorem next_push (fs : SquidFS) (hthread : fs.thread ≠ .deadlocked) (msg : Message)
    (data : Bytes) : fs.next (.push msg data) = some (fs.handlePush msg data) := by
  rw [SquidFS.next, SquidFS.step_push hthread]
  rfl

/-- Once the entry of an open path is gone, the next PUSH_UPDATE_FILE makes one that
counts from zero. -/
theorem not_accounted_updatePush (fs : SquidFS) {p : Bytes} (hopen : fs.handlesOf p ≠ [])
    (hfind : fs.find p = none) : ¬ Accounted (fs.handlePush (updatePush p) []) := by
  intro haccounted
  obtain ⟨e, hmade, hzero⟩ := find_updatePush hfind
  have hopens := (haccounted.counts p e hmade).1
  rw [handlesOf_handlePush, hzero] at hopens
  exact hopen (List.eq_nil_of_length_eq_zero hopens.symm)

/-- A PUSH_DELETE_FILE takes the entry out, open or not. -/
theorem find_handlePush_delete (fs : SquidFS) {msg : Message} (data : Bytes)
    (hop : msg.opcode = .pushDeleteFile) :
    (fs.handlePush msg data).find (msg.getString .filePath) = none := by
  have hpush : fs.handlePush msg data = if msg.getString .filePath ≠ []
      then (fs.pushHandler msg []).deleteFileVersion (msg.getString .filePath)
      else fs.pushHandler msg [] := by
    simp only [handlePush, hop]
    rfl
  have herase : fs.pushHandler msg [] = fs.erase (msg.getString .filePath) := by
    simp only [pushHandler, hop]
    rfl
  have hnone : (fs.erase (msg.getString .filePath)).find (msg.getString .filePath) = none := by
    rw [find_erase, if_pos rfl]
  rw [hpush, herase]
  split <;> exact hnone

/-- **The condition is needed**: an event that does not meet it can be followed by
others up to a state that is not accounted for. -/
theorem unspared_miscounts {fs : SquidFS} {event : FsEvent} (hnot : ¬ SparesOpen fs event)
    (hcan : fs.next event ≠ none) :
    ∃ more fs', Runs.run next fs (event :: more) = some fs' ∧ ¬ Accounted fs' := by
  cases event with
  | call op => exact absurd True.intro hnot
  | returns reply => exact absurd True.intro hnot
  | resume => exact absurd True.intro hnot
  | push msg data =>
    obtain ⟨hop, hopen⟩ := Classical.not_imp.mp hnot
    have hthread : fs.thread ≠ .deadlocked := by
      intro hstuck
      refine hcan ?_
      simp only [SquidFS.next, SquidFS.step, hstuck]
      rfl
    have hthread' : (fs.handlePush msg data).thread ≠ .deadlocked := by
      rw [(thread_handlePush fs msg data).1]
      exact hthread
    refine ⟨[.push (updatePush (msg.getString .filePath)) []], _, ?_,
      not_accounted_updatePush (fs.handlePush msg data) ?_
        (find_handlePush_delete fs data hop)⟩
    · rw [Runs.run, next_push fs hthread, Option.bind_some, Runs.run, next_push _ hthread',
        Option.bind_some, Runs.run]
    · rw [handlesOf_handlePush]
      exact hopen
  | unlink path =>
    have hidle : fs.thread = .idle := by
      cases hthread : fs.thread with
      | idle => rfl
      | lookup _ _ | calling _ | returned _ _ | deadlocked =>
        refine absurd ?_ hcan
        simp only [SquidFS.next, SquidFS.step, hthread]
        rfl
    -- the call, its acknowledgement and the rest of `op_unlink`
    have hrun : ∃ fs', Runs.run next fs [.unlink path, .returns (ackWith []), .resume] = some fs' ∧
        fs'.thread = .idle ∧ fs'.handlesOf path = fs.handlesOf path ∧ fs'.find path = none := by
      have hcall : fs.next (.unlink path) = some (fs.opUnlink path).1 := by
        simp only [SquidFS.next, SquidFS.step, hidle]
        rfl
      rw [Runs.run, hcall]
      refine ⟨_, rfl, rfl, handlesOf_returns (fs.opUnlink path).1 (.unlink path) _ path, ?_⟩
      exact (find_erase _ path path).trans (if_pos rfl)
    obtain ⟨fs', hrun, hthread, hhandles, hfind⟩ := hrun
    refine ⟨[.returns (ackWith []), .resume, .push (updatePush path) []], _, ?_,
      not_accounted_updatePush fs' (by rw [hhandles]; exact hnot) hfind⟩
    have hpush := next_push fs' (by simp [hthread]) (updatePush path) []
    show Runs.run next fs ([.unlink path, .returns (ackWith []), .resume] ++
      [.push (updatePush path) []]) = _
    rw [Runs.run_append hrun, Runs.run, hpush, Option.bind_some, Runs.run]

end SquidFS

/-- **Handle accounting**: in every run that deletes no path while it is open, each
cache entry counts the open handles and the open writable handles of its path, and
RELEASE_LOCK is sent only once no writable handle is left; from any state of such a
run, the deletion of an open path can be followed up to a state where that fails. -/
theorem handles_accounted (versions : StrMap Int32) (events : List FsEvent)
    (hmeets : Runs.Meets SquidFS.next SparesOpen { versions := versions } events) (fs : SquidFS)
    (hrun : Runs.run SquidFS.next { versions := versions } events = some fs) :
    Accounted fs ∧ ∀ event, fs.next event ≠ none → ¬ SparesOpen fs event →
      ∃ more fs', Runs.run SquidFS.next fs (event :: more) = some fs' ∧ ¬ Accounted fs' := by
  have hkept : ∀ p, SquidFS.Kept p fs := by
    intro p
    refine Runs.run_invariant ?_ (SquidFS.kept_start p versions) hmeets hrun
    intro fs event fs' hkept hspares hnext
    exact hkept.next hspares hnext
  refine ⟨SquidFS.accounted_of_kept hkept, fun event hcan hnot => ?_⟩
  exact SquidFS.unspared_miscounts hnot hcan

/-- Two writers of one file; it is deleted once both handles are closed. -/
theorem handles_accounted_two_writers :
    let f : Bytes := [102]
    let gone : Message := { opcode := .pushDeleteFile, fields := [⟨.filePath, f⟩] }
    let events : List FsEvent := [.call (.opOpen f ⟨true, false⟩), .returns (ackWith []), .resume,
      .returns (ackWith [1, 2]), .resume, .call (.opOpen f ⟨true, false⟩),
      .call (.opRelease ⟨f, true⟩), .call (.opRelease ⟨f, true⟩), .returns (ackWith []), .resume,
      .push gone []]
    Runs.Meets SquidFS.next SparesOpen {} events ∧
      ∃ fs, Runs.run SquidFS.next {} events = some fs ∧ Accounted fs := by
  intro f gone events
  have hmeets : Runs.Meets SquidFS.next SparesOpen {} events := by decide
  have hran : (Runs.run SquidFS.next {} events).isSome = true := by decide
  obtain ⟨fs, hrun⟩ := Option.isSome_iff_exists.mp hran
  exact ⟨hmeets, fs, hrun, (handles_accounted ∅ events hmeets fs hrun).1⟩

/-- Two writable handles of a file are open when a PUSH_DELETE_FILE of it comes.  The
release of one of them sends RELEASE_LOCK while the other is open; and a
PUSH_UPDATE_FILE in place of the release makes an entry with no handle counted. -/
theorem deleted_while_open :
    let f : Bytes := [102]
    let gone : Message := { opcode := .pushDeleteFile, fields := [⟨.filePath, f⟩] }
    let written : Message := { opcode := .pushUpdateFile, fields := [⟨.filePath, f⟩] }
    let events : List FsEvent := [.call (.opOpen f ⟨true, false⟩), .returns (ackWith []), .resume,
      .returns (ackWith [1, 2]), .resume, .call (.opOpen f ⟨true, false⟩), .push gone []]
    ((Runs.run SquidFS.next {} (events ++ [.call (.opRelease ⟨f, true⟩)])).map fun fs =>
        (fs.thread, fs.writersOf f)) = some (.calling (.releaseOrphan f), [⟨f, true⟩]) ∧
      (Window.releaseOrphan f).request = .releaseLock f ∧
      ((Runs.run SquidFS.next {} (events ++ [.push written []])).map fun fs =>
        ((fs.find f).map fun e => (e.openCount, e.lockCount), fs.handlesOf f))
        = some (some (0, 0), [⟨f, true⟩, ⟨f, true⟩]) := by
  decide

end Squid
