/-
The FUSE layer against a plain file.

One client, no pushes, and a server that ACKs every request and keeps of each
file the last contents it was sent.  The reference is a plain file
(`ByteFile.write`, `truncate`, `read`, emptied by `O_TRUNC`), one for each path.

* `Presents` — the cached data, or without an entry the contents on the server,
  are those of the reference, and a clean entry is what the server has;
* `Session.Kept` — what a call must not do: read an empty dirty buffer, or drop or
  refetch a dirty buffer, over other contents on the server; truncate through a
  read-only open; create a file that the server has and the client does not know;
* `fuse_refines_file` — in every sequence of such calls each read returns what the
  reference returns, and the release of the last writable handle leaves the
  reference contents on the server;
* `truncated_file_reads_back` — a file opened with `O_TRUNC` whose first read
  returns the old bytes.
-/
import SquidStorage.CacheCounts
import SquidStorage.Runs
import Mathlib.Logic.Function.Basic

open BigEndian

namespace Squid

/-! ### The reference -/

/-- The reference after an open: `O_TRUNC` empties it. -/
def OpenFlags.emptied (flags : OpenFlags) (content : Bytes) : Bytes :=
  if flags.trunc then [] else content

/-- What an operation that succeeds makes of the contents of its path. -/
def FsOp.edit (content : Bytes) : FsOp → Bytes
  | .opCreate _ flags | .opOpen _ flags => flags.emptied content
  | .opWrite _ buf offset => ByteFile.write 0 content offset buf
  | .opTruncate _ size => ByteFile.truncate 0 content size
  | .opRead _ _ _ | .opRelease _ => content

def OpResult.success : OpResult → Bool
  | .failed _ => false
  | _ => true

/-! ### A server that ACKs everything -/

/-- The replies of a server that ACKs every request. -/
structure Acks where
  reply : ℕ → Message
  isAck : ∀ n, (reply n).isAck = true

/-- `SquidFS` and the contents that its server has of each file. -/
structure World where
  fs : SquidFS
  store : Bytes → Bytes

namespace World

/-- The file bytes that come with the reply. -/
def answer (store : Bytes → Bytes) : Rpc → Bytes
  | .readFile path => store path
  | _ => []

/-- What the server has once it has accepted a request. -/
def accept (store : Bytes → Bytes) : Rpc → Bytes → Bytes
  | .createFile path _ data | .updateFile path _ data => Function.update store path data
  | .deleteFile path => Function.update store path []
  | _ => store

/-- The FUSE thread has come to a stop; the server is left at `store`. -/
def under (store : Bytes → Bytes) (o : SquidFS × Option OpResult) : World × Option OpResult :=
  (⟨o.1, store⟩, o.2)

/-- The operation under way goes on to its next stop. -/
def advance (w : World) (ack : Message) : World × Option OpResult :=
  match w.fs.thread with
  | .calling win =>
    let reply := (ack, answer w.store win.request)
    under (accept w.store win.request) ((w.fs.returns win reply).resume win reply)
  | .lookup path flags => under w.store (w.fs.createUncached path flags)
  | _ => (w, none)

/-- The operation goes on until it returns, over at most `n` stops. -/
def settle (acks : Acks) : ℕ → World × Option OpResult → World × Option OpResult
  | 0, o => o
  | n + 1, o =>
    match o.2 with
    | some _ => o
    | none => settle acks n (o.1.advance (acks.reply n))

/-- An operation from its call to its return; none stops more than three times. -/
def exec (w : World) (op : FsOp) (acks : Acks) : World × Option OpResult :=
  settle acks 3 (under w.store (w.fs.call op))

theorem settle_leave (acks : Acks) (n : ℕ) (store : Bytes → Bytes) (fs : SquidFS)
    (result : OpResult) :
    settle acks n (under store (fs.leave result)) = under store (fs.leave result) := by
  cases n <;> rfl

theorem settle_await (acks : Acks) (n : ℕ) (store : Bytes → Bytes) (fs : SquidFS) (win : Window) :
    settle acks (n + 1) (under store (fs.await win))
      = settle acks n (under (accept store win.request)
          (((fs.await win).1.returns win (acks.reply n, answer store win.request)).resume win
            (acks.reply n, answer store win.request))) := rfl

/-- The FUSE thread goes from one state to the other by itself. -/
def RunsTo (fs fs' : SquidFS) : Prop :=
  ∃ events, (∀ e ∈ events, FsEvent.isPush e = false) ∧ Runs.run SquidFS.next fs events = some fs'

theorem RunsTo.trans {fs fs' fs'' : SquidFS} (h : RunsTo fs fs') (h' : RunsTo fs' fs'') :
    RunsTo fs fs'' := by
  obtain ⟨events, hquiet, hrun⟩ := h
  obtain ⟨events', hquiet', hrun'⟩ := h'
  refine ⟨events ++ events', fun e he => ?_, ?_⟩
  · exact (List.mem_append.mp he).elim (hquiet e) (hquiet' e)
  · rw [Runs.run_append hrun, hrun']

theorem runsTo_advance (w : World) (ack : Message) : RunsTo w.fs (w.advance ack).1.fs := by
  rw [advance]
  split
  · rename_i win hthread
    refine ⟨[.returns (ack, answer w.store win.request), .resume], by simp [FsEvent.isPush], ?_⟩
    simp only [Runs.run, SquidFS.next, SquidFS.step, hthread]
    rfl
  · rename_i path flags hthread
    refine ⟨[.resume], by simp [FsEvent.isPush], ?_⟩
    simp only [Runs.run, SquidFS.next, SquidFS.step, hthread]
    rfl
  · exact ⟨[], by simp, rfl⟩

theorem runsTo_settle (acks : Acks) (n : ℕ) (o : World × Option OpResult) :
    RunsTo o.1.fs (settle acks n o).1.fs := by
  induction n generalizing o with
  | zero => exact ⟨[], by simp, rfl⟩
  | succ n ih =>
    rw [settle]
    split
    · exact ⟨[], by simp, rfl⟩
    · exact (runsTo_advance o.1 _).trans (ih _)

/-- **An operation is a run of the machine** in which no push is handled. -/
theorem runsTo_exec (w : World) (op : FsOp) (acks : Acks) (hidle : w.fs.thread = .idle) :
    RunsTo w.fs (w.exec op acks).1.fs := by
  have hcall : RunsTo w.fs (under w.store (w.fs.call op)).1.fs := by
    refine ⟨[.call op], by simp [FsEvent.isPush], ?_⟩
    simp only [Runs.run, SquidFS.next, SquidFS.step, hidle]
    rfl
  exact hcall.trans (runsTo_settle acks 3 _)

/-! ### What an operation leaves alone -/

theorem accept_of_ne (store : Bytes → Bytes) {win : Window} {p : Bytes} (hp : p ≠ win.path) :
    accept store win.request p = store p := by
  cases win with
  | createFile path | createAbort path | releaseUpdate path data version | unlink path =>
    exact Function.update_of_ne hp _ _
  | openLock path flags | openFetch path flags | openAbort path | createLock path version
  | readFetch path size offset | releaseOrphan path | releaseUnlock path => rfl

/-- Nothing has changed but at `r`, on either side, and the thread stands at `r` if anywhere. -/
structure Local (r : Bytes) (w w' : World) : Prop where
  onlyAt : SquidFS.OnlyAt r w.fs w'.fs
  thread : ∀ p, w'.fs.thread.path = some p → p = r
  store : ∀ p, p ≠ r → w'.store p = w.store p

variable {r : Bytes} {w w' : World}

theorem Local.advance (h : Local r w w') (ack : Message) : Local r w (w'.advance ack).1 := by
  rw [World.advance]
  split
  · rename_i win hthread
    have hr : win.path = r := h.thread _ (by rw [hthread]; rfl)
    subst hr
    set reply := (ack, answer w'.store win.request) with hreply
    have hresume := SquidFS.confined_resume (w'.fs.returns win reply) win reply
    have hreturns : SquidFS.OnlyAt win.path w'.fs (w'.fs.returns win reply) :=
      ⟨fun p _ => SquidFS.find_returns _ _ _ p, fun p _ => SquidFS.handlesOf_returns _ _ _ p⟩
    exact ⟨h.onlyAt.trans (hreturns.trans hresume.onlyAt), hresume.thread,
      fun p hp => (accept_of_ne w'.store hp).trans (h.store p hp)⟩
  · rename_i path flags hthread
    have hr : path = r := h.thread _ (by rw [hthread]; rfl)
    subst hr
    have hcreate := SquidFS.confined_createUncached w'.fs path flags
    exact ⟨h.onlyAt.trans hcreate.onlyAt, hcreate.thread, h.store⟩
  · exact h

theorem Local.settle {o : World × Option OpResult} (h : Local r w o.1) (acks : Acks) (n : ℕ) :
    Local r w (settle acks n o).1 := by
  induction n generalizing o with
  | zero => exact h
  | succ n ih =>
    rw [World.settle]
    split
    · exact h
    · exact ih (h.advance _)

theorem local_exec (w : World) (op : FsOp) (acks : Acks) : Local op.path w (w.exec op acks).1 := by
  have hcall := SquidFS.confined_call w.fs op
  have hstart : Local op.path w (under w.store (w.fs.call op)).1 :=
    ⟨hcall.onlyAt, hcall.thread, fun _ _ => rfl⟩
  exact hstart.settle acks 3

theorem sound_advance {p : Bytes} (h : SquidFS.Sound p w.fs) (ack : Message) :
    SquidFS.Sound p (w.advance ack).1.fs := by
  rw [advance]
  split
  · rename_i win hthread
    exact (h.returns hthread _).resume rfl
  · rename_i path flags hthread
    exact h.createUncached hthread
  · exact h

theorem sound_settle {p : Bytes} {o : World × Option OpResult} (h : SquidFS.Sound p o.1.fs)
    (acks : Acks) (n : ℕ) : SquidFS.Sound p (settle acks n o).1.fs := by
  induction n generalizing o with
  | zero => exact h
  | succ n ih =>
    rw [settle]
    split
    · exact h
    · exact ih (sound_advance h _)

/-- **The counts stay those of the open handles.** -/
theorem sound_exec {p : Bytes} (h : SquidFS.Counted p w.fs) (op : FsOp) (acks : Acks) :
    SquidFS.Sound p (w.exec op acks).1.fs :=
  sound_settle (h.call op) acks 3

/-! ### Contents -/

/-- The path shows `content`: the cached data, or else what the server has; and a
clean entry has what the server has. -/
def Presents (e : Option CacheEntry) (stored content : Bytes) : Prop :=
  match e with
  | none => stored = content
  | some e => e.data = content ∧ (e.dirty = false → stored = content)

/-- The operation on `path` has returned, and the path shows `content`. -/
structure Ended (path content : Bytes) (result : OpResult) (o : World × Option OpResult) :
    Prop where
  result : o.2 = some result
  idle : o.1.fs.thread = .idle
  presents : Presents (o.1.fs.find path) (o.1.store path) content

section

variable (acks : Acks) (n : ℕ) {store : Bytes → Bytes} {fs : SquidFS} {path content : Bytes}

theorem ended_leave (h : Presents (fs.find path) (store path) content) (result : OpResult) :
    Ended path content result (settle acks n (under store (fs.leave result))) := by
  rw [settle_leave]
  exact ⟨rfl, rfl, h⟩

theorem presents_eraseUnopened (h : Presents (fs.find path) (store path) content)
    (hstored : (fs.entry path).openCount = 0 → store path = content) :
    Presents ((fs.eraseUnopened path).find path) (store path) content := by
  rcases fs.eraseUnopened_eq path with heq | ⟨hopen, heq⟩
  · rw [heq]
    exact h
  · rw [heq, SquidFS.find_erase, if_pos rfl]
    exact hstored hopen

/-- What `op_open` starts from: a path that it will not fetch shows its contents. -/
def Opening (e : CacheEntry) (stored content : Bytes) : Prop :=
  if e.openCount = 0 then stored = content
  else e.data = content ∧ (e.dirty = false → stored = content)

theorem opening_of_find_eq_none (hfind : fs.find path = none) {stored : Bytes}
    (h : stored = content) : Opening (fs.entry path) stored content := by
  simpa [Opening, SquidFS.entry, hfind] using h

variable {flags : OpenFlags}

theorem ended_openFinish
    (h : (fs.entry path).data = content ∧ ((fs.entry path).dirty = false → store path = content))
    (htrunc : flags.trunc = true → flags.writable = true ∨ content = []) :
    Ended path (flags.emptied content) (.opened ⟨path, flags.writable⟩)
      (settle acks n (under store (fs.openFinish path flags))) := by
  refine ended_leave acks n ?_ _
  show Presents ((fs.setEntry path (SquidFS.opened (fs.entry path) flags)).find path) _ _
  rw [SquidFS.find_setEntry_self]
  refine ⟨?_, ?_⟩
  · rw [SquidFS.opened_data, h.1]
    rcases flags with ⟨_ | _, _ | _⟩
    · rfl
    · exact (htrunc rfl).resolve_left (by simp)
    · rfl
    · rfl
  · rw [SquidFS.opened_dirty]
    rcases flags with ⟨_ | _, _ | _⟩
    · exact h.2
    · intro hclean
      rw [h.2 hclean]
      exact (htrunc rfl).resolve_left (by simp)
    · exact h.2
    · exact fun hclean => absurd hclean (by simp)

theorem fetchIntoCache_ack (fs : SquidFS) (path data : Bytes) :
    fs.fetchIntoCache path (acks.reply n, data)
      = some (fs.setEntry path { fs.entry path with
          data := data
          version := toInt32 ((acks.reply n).getUint32 .fileVersion 0)
          dirty := false }) := by
  rw [SquidFS.fetchIntoCache, acks.isAck n]
  rfl

theorem ended_openLocked (h : Opening (fs.entry path) (store path) content)
    (htrunc : flags.trunc = true → flags.writable = true ∨ content = []) :
    Ended path (flags.emptied content) (.opened ⟨path, flags.writable⟩)
      (settle acks (n + 1) (under store (fs.openLocked path flags))) := by
  rw [SquidFS.openLocked]
  rw [Opening] at h
  simp only [SquidFS.entry_touch_self]
  split
  · -- the fetch brings what the server has
    rename_i hopen
    rw [if_pos hopen] at h
    rw [settle_await]
    simp only [SquidFS.resume, Window.request, answer, accept, fetchIntoCache_ack]
    refine ended_openFinish acks n ?_ htrunc
    rw [SquidFS.entry_setEntry_self]
    exact ⟨h, fun _ => h⟩
  · rename_i hopen
    rw [if_neg hopen] at h
    refine ended_openFinish acks (n + 1) ?_ htrunc
    rw [SquidFS.entry_touch_self]
    exact h

theorem ended_opOpen (hpath : path ≠ []) (h : Opening (fs.entry path) (store path) content)
    (htrunc : flags.trunc = true → flags.writable = true ∨ content = []) :
    Ended path (flags.emptied content) (.opened ⟨path, flags.writable⟩)
      (settle acks (n + 2) (under store (fs.opOpen path flags))) := by
  rw [SquidFS.opOpen, if_neg hpath]
  dsimp only
  split
  · -- the lock is granted, and the entry is still there
    rw [settle_await]
    have hfind : ∀ reply, (((fs.touch path).await (.openLock path flags)).1.returns
        (.openLock path flags) reply).find path = some (fs.entry path) := by
      intro reply
      rw [SquidFS.find_returns]
      exact SquidFS.find_setEntry_self fs path _
    simp only [SquidFS.resume, Window.request, answer, accept, acks.isAck, hfind]
    refine ended_openLocked acks n ?_ htrunc
    rw [SquidFS.entry_eq (hfind _)]
    exact h
  · refine ended_openLocked acks (n + 1) ?_ htrunc
    rw [SquidFS.entry_touch_self]
    exact h

theorem ended_createUncached (hpath : path ≠ []) (hfind : fs.find path = none)
    (hstored : store path = content)
    (hknown : 0 ≤ fs.getFileVersion path → flags.trunc = true → flags.writable = true ∨ content = [])
    (hunknown : fs.getFileVersion path < 0 → flags.trunc = true ∨ content = []) :
    ∃ result, result.success = true ∧ Ended path (flags.emptied content) result
      (settle acks (n + 2) (under store (fs.createUncached path flags))) := by
  rw [SquidFS.createUncached]
  split
  · rename_i hversion
    exact ⟨_, rfl,
      ended_opOpen acks n hpath (opening_of_find_eq_none hfind hstored) (hknown hversion)⟩
  · -- the server is sent an empty file
    rename_i hversion
    rw [settle_await]
    simp only [SquidFS.resume, Window.request, answer, accept, acks.isAck, Bool.not_true,
      Bool.false_eq_true, if_false]
    rw [settle_await]
    simp only [SquidFS.resume, Window.request, answer, accept, acks.isAck, Bool.not_true,
      Bool.false_eq_true, if_false]
    have hempty : flags.emptied content = [] := by
      rw [OpenFlags.emptied]
      rcases hunknown (Int32.not_le.mp hversion) with htrunc | hnil
      · rw [if_pos htrunc]
      · rw [hnil, ite_self]
    refine ⟨.opened ⟨path, true⟩, rfl, ?_⟩
    rw [hempty]
    refine ended_leave acks n ?_ _
    show Presents (SquidFS.find (SquidFS.setEntry _ path _) path) _ _
    rw [SquidFS.find_setEntry_self, Function.update_self]
    exact ⟨rfl, fun _ => rfl⟩

end

/-- **The operations, from call to return.**  Only `op_create` of a cached path does
not return. -/
theorem ended_opCreate (w : World) (acks : Acks) {path content : Bytes} {flags : OpenFlags}
    (h : Presents (w.fs.find path) (w.store path) content)
    (hkept : (w.fs.find path).isNone = true →
      (0 ≤ w.fs.getFileVersion path → flags.trunc = true → flags.writable = true ∨ content = []) ∧
      (w.fs.getFileVersion path < 0 → flags.trunc = true ∨ content = [])) :
    (w.exec (.opCreate path flags) acks).2 = none ∨
      ∃ result, Ended path (if result.success then flags.emptied content else content) result
        (w.exec (.opCreate path flags) acks) := by
  rw [exec, SquidFS.call, SquidFS.opCreate]
  split
  · exact Or.inr ⟨.failed .einval, ended_leave acks 3 h _⟩
  · rename_i hpath
    split
    · exact Or.inl rfl
    · rename_i hcached
      have hfind : w.fs.find path = none := by simpa using hcached
      rw [hfind] at h
      have hlookup : SquidFS.find { w.fs with thread := .lookup path flags } path = none := hfind
      obtain ⟨hknown, hunknown⟩ := hkept (by rw [hfind]; rfl)
      obtain ⟨result, hsuccess, hended⟩ :=
        ended_createUncached acks 0 hpath hlookup h hknown hunknown
      refine Or.inr ⟨result, ?_⟩
      rw [if_pos hsuccess]
      exact hended

theorem ended_exec_opOpen (w : World) (acks : Acks) {path content : Bytes} {flags : OpenFlags}
    (h : Presents (w.fs.find path) (w.store path) content)
    (hload : (w.fs.entry path).openCount = 0 → (w.fs.entry path).dirty = true →
      (w.fs.entry path).data = w.store path)
    (htrunc : flags.trunc = true → flags.writable = true ∨ content = []) :
    ∃ result, Ended path (if result.success then flags.emptied content else content) result
      (w.exec (.opOpen path flags) acks) := by
  rw [exec, SquidFS.call]
  by_cases hpath : path = []
  · rw [SquidFS.opOpen, if_pos hpath]
    exact ⟨.failed .eisdir, ended_leave acks 3 h _⟩
  · refine ⟨.opened ⟨path, flags.writable⟩, ended_opOpen acks 1 hpath ?_ htrunc⟩
    cases hfind : w.fs.find path with
    | none =>
      rw [hfind] at h
      exact opening_of_find_eq_none hfind h
    | some e =>
      rw [hfind] at h
      rw [Opening]
      rw [SquidFS.entry_eq hfind] at hload ⊢
      split
      · rename_i hopen
        cases hdirty : e.dirty with
        | false => exact h.2 hdirty
        | true => exact (hload hopen hdirty).symm.trans h.1
      · exact h

theorem ended_opRead (w : World) (acks : Acks) {path content : Bytes} (size offset : ℕ)
    (h : Presents (w.fs.find path) (w.store path) content)
    (hkept : (w.fs.entry path).dirty = true → (w.fs.entry path).data = [] → w.store path = []) :
    Ended path content (.read (ByteFile.read 0 content size offset))
      (w.exec (.opRead path size offset) acks) := by
  rw [exec, SquidFS.call, SquidFS.opRead, ByteFile.read_eq]
  split
  · -- an empty buffer is fetched again
    rename_i hempty
    have hstored : w.store path = content := by
      cases hfind : w.fs.find path with
      | none =>
        rw [hfind] at h
        exact h
      | some e =>
        rw [hfind] at h
        rw [SquidFS.entry_eq hfind] at hempty hkept
        cases hdirty : e.dirty with
        | false => exact h.2 hdirty
        | true => exact (hkept hdirty hempty).trans (hempty.symm.trans h.1)
    rw [settle_await]
    simp only [SquidFS.resume, Window.request, answer, accept, fetchIntoCache_ack,
      SquidFS.entry_setEntry_self]
    rw [hstored]
    refine ended_leave acks 2 ?_ _
    rw [SquidFS.find_setEntry_self]
    exact ⟨rfl, fun _ => hstored⟩
  · rename_i hdata
    cases hfind : w.fs.find path with
    | none =>
      rw [SquidFS.entry, hfind] at hdata
      exact absurd rfl hdata
    | some e =>
      rw [SquidFS.entry_eq hfind]
      have hcontent : e.data = content := by
        rw [hfind] at h
        exact h.1
      rw [hcontent]
      exact ended_leave acks 3 h _

theorem ended_opWrite (w : World) (acks : Acks) {path content : Bytes} (buf : Bytes) (offset : ℕ)
    (h : Presents (w.fs.find path) (w.store path) content) :
    ∃ result, Ended path
      (if result.success then ByteFile.write 0 content offset buf else content) result
      (w.exec (.opWrite path buf offset) acks) := by
  rw [exec, SquidFS.call, SquidFS.opWrite]
  split
  · exact ⟨.failed .ebadf, ended_leave acks 3 h _⟩
  · rename_i e hfind
    rw [hfind] at h
    refine ⟨.written buf.length, ?_⟩
    show Ended path (ByteFile.write 0 content offset buf) _ _
    rw [ByteFile.write_eq, ← h.1]
    refine ended_leave acks 3 ?_ _
    rw [SquidFS.find_setEntry_self]
    exact ⟨rfl, fun hclean => by simp at hclean⟩

theorem ended_opTruncate (w : World) (acks : Acks) {path content : Bytes} (size : ℕ)
    (h : Presents (w.fs.find path) (w.store path) content) :
    ∃ result, Ended path
      (if result.success then ByteFile.truncate 0 content size else content) result
      (w.exec (.opTruncate path size) acks) := by
  rw [exec, SquidFS.call, SquidFS.opTruncate]
  split
  · exact ⟨.failed .enoent, ended_leave acks 3 h _⟩
  · rename_i e hfind
    rw [hfind] at h
    refine ⟨.done, ?_⟩
    show Ended path (ByteFile.truncate 0 content size) _ _
    rw [ByteFile.truncate_eq, ← h.1]
    refine ended_leave acks 3 ?_ _
    rw [SquidFS.find_setEntry_self]
    exact ⟨rfl, fun hclean => by simp at hclean⟩

/-- The last call of a release that unlocks: the server has the contents by now. -/
theorem ended_releaseUnlock (acks : Acks) (n : ℕ) {store : Bytes → Bytes} {fs : SquidFS}
    {path content : Bytes} (h : Presents (fs.find path) (store path) content)
    (hstored : store path = content) :
    Ended path content .done (settle acks (n + 1) (under store (fs.await (.releaseUnlock path)))) ∧
      (settle acks (n + 1) (under store (fs.await (.releaseUnlock path)))).1.store path
        = content := by
  rw [settle_await]
  simp only [SquidFS.resume, Window.request, answer, accept]
  refine ⟨ended_leave acks n (presents_eraseUnopened ?_ fun _ => hstored) _, ?_⟩
  · rw [SquidFS.find_returns]
    exact h
  · rw [settle_leave]
    exact hstored

/-- A buffer that has been sent is what the server has. -/
theorem presents_flushed {fs : SquidFS} {path content : Bytes} {e : CacheEntry} (ack : Message)
    (hfind : fs.find path = some e) (hdata : e.data = content) :
    Presents ((fs.flushed path ack).find path) content content := by
  rw [SquidFS.flushed, hfind]
  dsimp only
  rw [SquidFS.find_setEntry_self]
  exact ⟨hdata, fun _ => rfl⟩

theorem ended_opRelease (w : World) (acks : Acks) {fh : FileHandle} {content : Bytes}
    (h : Presents (w.fs.find fh.path) (w.store fh.path) content)
    (hcounted : SquidFS.Counted fh.path w.fs)
    (hkept : fh ∈ w.fs.handles → fh.writable = false → (w.fs.entry fh.path).openCount = 1 →
      (w.fs.entry fh.path).dirty = true → (w.fs.entry fh.path).data = w.store fh.path) :
    Ended fh.path content .done (w.exec (.opRelease fh) acks) ∧
      (fh ∈ w.fs.handles → fh.writable = true → (w.fs.writersOf fh.path).length = 1 →
        (w.exec (.opRelease fh) acks).1.store fh.path = content) := by
  rw [exec, SquidFS.call, SquidFS.opRelease]
  by_cases hfh : fh ∈ w.fs.handles
  swap
  · rw [if_pos hfh]
    exact ⟨ended_leave acks 3 h _, fun hmem => absurd hmem hfh⟩
  obtain ⟨e, hfind⟩ := hcounted.find_eq_some hfh
  rw [hfind] at h
  rw [SquidFS.entry_eq hfind] at hkept
  rw [if_neg (not_not.mpr hfh)]
  set fs := ({ w.fs with handles := w.fs.handles.erase fh } : SquidFS) with hfs
  have hfind' : fs.find fh.path = some e := hfind
  simp only [hfind']
  have hshown : Presents ((fs.setEntry fh.path (SquidFS.closed e fh.writable)).find fh.path)
      (w.store fh.path) content := by
    rw [SquidFS.find_setEntry_self]
    refine ⟨?_, ?_⟩
    · rw [SquidFS.closed_data]
      exact h.1
    · rw [SquidFS.closed_dirty]
      exact h.2
  split
  · -- the last writable handle
    split
    · -- the buffer goes to the server, and counts as clean from then on
      have hdata : (SquidFS.closed e fh.writable).data = content := by
        rw [SquidFS.closed_data]
        exact h.1
      have hstored : Function.update w.store fh.path content fh.path = content :=
        Function.update_self _ _ _
      rw [settle_await]
      simp only [SquidFS.resume, Window.request, answer, accept, hdata]
      refine And.imp_right (fun hstore _ _ _ => hstore) (ended_releaseUnlock acks 1 ?_ hstored)
      rw [hstored]
      refine presents_flushed _ ?_ hdata
      rw [SquidFS.find_returns]
      exact SquidFS.find_setEntry_self fs fh.path _
    · rename_i hclean
      rw [SquidFS.closed_dirty, Bool.not_eq_true] at hclean
      have hend := ended_releaseUnlock acks 2 hshown (h.2 hclean)
      exact ⟨hend.1, fun _ _ _ => hend.2⟩
  · rename_i hnotLast
    refine ⟨ended_leave acks 3 (presents_eraseUnopened hshown ?_) _, ?_⟩
    · -- the last handle of all: it cannot be writable here
      intro hopen
      rw [SquidFS.entry_setEntry_self] at hopen
      obtain ⟨hread, hone⟩ := hcounted.only_reader hfh hfind hnotLast hopen
      cases hdirty : e.dirty with
      | false => exact h.2 hdirty
      | true => exact (hkept hfh hread hone hdirty).symm.trans h.1
    · intro _ hwritable hone
      exact absurd ⟨hwritable, hcounted.lockCount_of_last hfind hwritable hone⟩ hnotLast

end World

/-! ### Sequences of calls -/

/-- A call, with the replies that its requests get. -/
structure FsCall where
  op : FsOp
  acks : Acks

/-- The mounted file system beside the reference. -/
structure Mount where
  world : World
  file : Bytes → Bytes

namespace Mount

/-- Nothing is cached or open; the server has the files that the reference has. -/
def start (versions : StrMap Int32) (store : Bytes → Bytes) : Mount :=
  ⟨⟨{ versions := versions }, store⟩, store⟩

def exec (m : Mount) (c : FsCall) : World × Option OpResult := m.world.exec c.op c.acks

/-- The call, if it returns; one that succeeds is also made on the reference. -/
def step (m : Mount) (c : FsCall) : Option Mount :=
  (m.exec c).2.map fun result =>
    { world := (m.exec c).1
      file := if result.success
        then Function.update m.file c.op.path (c.op.edit (m.file c.op.path)) else m.file }

/-- What a call must respect. -/
def Kept (m : Mount) (c : FsCall) : Prop :=
  let e := m.world.fs.entry c.op.path
  let stored := m.world.store c.op.path
  let content := m.file c.op.path
  match c.op with
  | .opCreate path flags =>
    -- a file that the client does not know is sent to the server empty
    (m.world.fs.find path).isNone = true →
      (0 ≤ m.world.fs.getFileVersion path → flags.trunc = true →
        flags.writable = true ∨ content = []) ∧
      (m.world.fs.getFileVersion path < 0 → flags.trunc = true ∨ content = [])
  | .opOpen _ flags =>
    -- the first handle fetches, over what is in the buffer
    (e.openCount = 0 → e.dirty = true → e.data = stored) ∧
      (flags.trunc = true → flags.writable = true ∨ content = [])
  | .opRead _ _ _ =>
    -- an empty buffer is fetched again
    e.dirty = true → e.data = [] → stored = []
  | .opRelease fh =>
    -- the last handle drops the buffer, which only a writable one flushes
    fh ∈ m.world.fs.handles → fh.writable = false → e.openCount = 1 → e.dirty = true →
      e.data = stored
  | .opWrite _ _ _ | .opTruncate _ _ => True

/-- The read returns the bytes of the reference; the release of the last writable
handle leaves the contents of the reference on the server. -/
def Faithful (m : Mount) (c : FsCall) : Prop :=
  (∀ path size offset bytes, c.op = .opRead path size offset →
    (m.exec c).2 = some (.read bytes) → bytes = ByteFile.read 0 (m.file path) size offset) ∧
  ∀ fh, c.op = .opRelease fh → fh ∈ m.world.fs.handles → fh.writable = true →
    (m.world.fs.writersOf fh.path).length = 1 → (m.exec c).2.isSome = true →
    (m.exec c).1.store fh.path = m.file fh.path

/-- The FUSE thread waits for a call, and every path shows the contents of the reference. -/
structure Tracks (m : Mount) : Prop where
  idle : m.world.fs.thread = .idle
  presents : ∀ p, World.Presents (m.world.fs.find p) (m.world.store p) (m.file p)
  counted : ∀ p, SquidFS.Counted p m.world.fs

theorem tracks_start (versions : StrMap Int32) (store : Bytes → Bytes) :
    (start versions store).Tracks := by
  have hfind : ∀ p, (start versions store).world.fs.find p = none := fun p =>
    Std.ExtTreeMap.getElem?_empty
  refine ⟨rfl, fun p => ?_, fun p => SquidFS.Counted.of_absent rfl (hfind p)⟩
  rw [hfind]
  rfl

variable {m : Mount} {c : FsCall}

/-- A call that respects the condition returns, unless it is an `op_create` of a
cached path, and edits its path as the reference does. -/
theorem Tracks.ended (h : m.Tracks) (hkept : m.Kept c) :
    (m.exec c).2 = none ∨ ∃ result, World.Ended c.op.path
      (if result.success then c.op.edit (m.file c.op.path) else m.file c.op.path) result
      (m.exec c) := by
  have hpresents := h.presents c.op.path
  obtain ⟨op, acks⟩ := c
  cases op with
  | opCreate path flags => exact World.ended_opCreate m.world acks hpresents hkept
  | opOpen path flags =>
    exact Or.inr (World.ended_exec_opOpen m.world acks hpresents hkept.1 hkept.2)
  | opRead path size offset =>
    refine Or.inr ⟨.read (ByteFile.read 0 (m.file path) size offset), ?_⟩
    exact World.ended_opRead m.world acks size offset hpresents hkept
  | opWrite path buf offset => exact Or.inr (World.ended_opWrite m.world acks buf offset hpresents)
  | opTruncate path size => exact Or.inr (World.ended_opTruncate m.world acks size hpresents)
  | opRelease fh =>
    refine Or.inr ⟨.done, ?_⟩
    exact (World.ended_opRelease m.world acks hpresents (h.counted fh.path) hkept).1

/-- What the call does to the machine. -/
theorem Tracks.runsTo (h : m.Tracks) (c : FsCall) : World.RunsTo m.world.fs (m.exec c).1.fs :=
  World.runsTo_exec m.world c.op c.acks h.idle

/-- **One call.** -/
theorem Tracks.step (h : m.Tracks) (hkept : m.Kept c) {m' : Mount} (hstep : m.step c = some m') :
    m'.Tracks := by
  obtain ⟨result, hresult, rfl⟩ := Option.map_eq_some_iff.mp hstep
  have hlocal : World.Local c.op.path m.world (m.exec c).1 := World.local_exec m.world c.op c.acks
  have hended : World.Ended c.op.path
      (if result.success then c.op.edit (m.file c.op.path) else m.file c.op.path) result
      (m.exec c) := by
    rcases h.ended hkept with hnone | ⟨result', hended⟩
    · rw [hnone] at hresult
      simp at hresult
    · obtain rfl : result = result' := Option.some.inj (hresult.symm.trans hended.result)
      exact hended
  refine ⟨hended.idle, fun p => ?_, fun p => (World.sound_exec (h.counted p) c.op c.acks).counted⟩
  dsimp only
  by_cases hp : p = c.op.path
  · subst hp
    have hpresents := hended.presents
    by_cases hsuccess : result.success = true
    · rw [if_pos hsuccess] at hpresents ⊢
      rw [Function.update_self]
      exact hpresents
    · rw [if_neg hsuccess] at hpresents ⊢
      exact hpresents
  · -- another path: neither side has touched it
    have hfile : (if result.success = true
        then Function.update m.file c.op.path (c.op.edit (m.file c.op.path)) else m.file) p
        = m.file p := by
      split
      · exact Function.update_of_ne hp _ _
      · rfl
    rw [hfile, hlocal.onlyAt.find p hp, hlocal.store p hp]
    exact h.presents p

theorem Tracks.faithful (h : m.Tracks) (hkept : m.Kept c) : m.Faithful c := by
  obtain ⟨op, acks⟩ := c
  refine ⟨?_, ?_⟩
  · rintro path size offset bytes rfl hread
    have hended := World.ended_opRead m.world acks size offset (h.presents path) hkept
    exact OpResult.read.inj (Option.some.inj (hread.symm.trans hended.result))
  · rintro fh rfl hfh hwritable hlast -
    exact (World.ended_opRelease m.world acks (h.presents _) (h.counted _) hkept).2 hfh hwritable
      hlast

instance : Decidable (m.Kept c) :=
  match c with
  | ⟨.opCreate path flags, _⟩ => inferInstanceAs (Decidable (
      (m.world.fs.find path).isNone = true →
      (0 ≤ m.world.fs.getFileVersion path → flags.trunc = true →
        flags.writable = true ∨ m.file path = []) ∧
      (m.world.fs.getFileVersion path < 0 → flags.trunc = true ∨ m.file path = [])))
  | ⟨.opOpen path flags, _⟩ => inferInstanceAs (Decidable (
      ((m.world.fs.entry path).openCount = 0 → (m.world.fs.entry path).dirty = true →
        (m.world.fs.entry path).data = m.world.store path) ∧
      (flags.trunc = true → flags.writable = true ∨ m.file path = [])))
  | ⟨.opRead path _ _, _⟩ => inferInstanceAs (Decidable (
      (m.world.fs.entry path).dirty = true → (m.world.fs.entry path).data = [] →
        m.world.store path = []))
  | ⟨.opRelease fh, _⟩ => inferInstanceAs (Decidable (
      fh ∈ m.world.fs.handles → fh.writable = false →
        (m.world.fs.entry fh.path).openCount = 1 → (m.world.fs.entry fh.path).dirty = true →
        (m.world.fs.entry fh.path).data = m.world.store fh.path))
  | ⟨.opWrite _ _ _, _⟩ | ⟨.opTruncate _ _, _⟩ => isTrue True.intro

end Mount

/-- **The FUSE layer refines a plain file**, in every sequence of calls that respect
the condition: each read returns the bytes of the reference, and after the release
of the last writable handle the server has its contents. -/
theorem fuse_refines_file (versions : StrMap Int32) (store : Bytes → Bytes) (calls : List FsCall)
    (hmeets : Runs.Meets Mount.step Mount.Kept (Mount.start versions store) calls) :
    ∀ pre c post m, calls = pre ++ c :: post →
      Runs.run Mount.step (Mount.start versions store) pre = some m → m.Faithful c := by
  rintro pre c post m rfl hrun
  obtain ⟨hpre, hrest⟩ := hmeets.split
  have htracks : m.Tracks := by
    refine Runs.run_invariant ?_ (Mount.tracks_start versions store) hpre hrun
    intro m c m' htracks hkept hstep
    exact htracks.step hkept hstep
  exact htracks.faithful (hrest m hrun).1

/-- The plain ACK, whatever is asked. -/
def plainAcks : Acks where
  reply _ := { flags := flagResponse, fields := [⟨.ack, [1]⟩] }
  isAck _ := by decide

/-- A file is created, written, read back and released; then it is opened for
reading, read again and released. -/
theorem fuse_refines_file_sample :
    let call := fun op => FsCall.mk op plainAcks
    let rdwr : FileHandle := ⟨[102], true⟩
    let before := [call (.opCreate [102] ⟨true, false⟩), call (.opWrite [102] [7, 8] 1),
      call (.opRead [102] 4 0), call (.opRelease rdwr), call (.opOpen [102] ⟨false, false⟩)]
    let last := call (.opRead [102] 4 0)
    Runs.Meets Mount.step Mount.Kept (Mount.start ∅ fun _ => []) (before ++ [last]) ∧
      ∃ m, Runs.run Mount.step (Mount.start ∅ fun _ => []) before = some m ∧
        (m.exec last).2 = some (.read [0, 7, 8]) ∧ m.Faithful last := by
  intro call rdwr before last
  have hmeets : Runs.Meets Mount.step Mount.Kept (Mount.start ∅ fun _ => []) (before ++ [last]) := by
    decide
  have hread : ((Runs.run Mount.step (Mount.start ∅ fun _ => []) before).bind
      fun m => (m.exec last).2) = some (.read [0, 7, 8]) := by
    decide
  obtain ⟨m, hrun, hlast⟩ := Option.bind_eq_some_iff.mp hread
  exact ⟨hmeets, m, hrun, hlast,
    fuse_refines_file ∅ (fun _ => []) _ hmeets before last [] m rfl hrun⟩

/-- The server has the bytes 1, 2, 3 of a file.  It is opened with
`O_RDWR | O_TRUNC`: the reference is empty, but the first read fetches the old bytes
again, and after the release they are still what the server has. -/
theorem truncated_file_reads_back :
    let call := fun op => FsCall.mk op plainAcks
    let start := Mount.start ∅ fun path => if path = [102] then [1, 2, 3] else []
    let opened := call (.opOpen [102] ⟨true, true⟩)
    let read := call (.opRead [102] 3 0)
    let release := call (.opRelease ⟨[102], true⟩)
    ((Runs.run Mount.step start [opened]).bind fun m => (m.exec read).2)
        = some (.read [1, 2, 3]) ∧
      ((Runs.run Mount.step start [opened]).map fun m => ByteFile.read 0 (m.file [102]) 3 0)
        = some [] ∧
      ((Runs.run Mount.step start [opened, read, release]).map fun m =>
        (m.world.store [102], m.file [102])) = some ([1, 2, 3], []) := by
  decide

end Squid
