/-
Unflushed writes against pushes.

The push handler leaves the data of a dirty entry alone, so that "release() will
win"; a PUSH_DELETE_FILE takes the entry out all the same.  `Watched` runs the
machine of `SquidFS.step` beside a record of one path: the buffer that its writes
have produced since the first one through a writable handle, until the last writable
handle is released.

* `Spared` — the path is not deleted, by a push or by `op_unlink`, while it has a
  handle, and `op_read` is not called on it while the buffer is empty;
* `unflushed_write_survives` — in every run that keeps to this, whatever the
  interleaving, the entry has the buffer, no push changes that, and the release of the
  last writable handle sends it;
* `push_delete_discards` — a push that makes a written buffer disappear.
-/
import SquidStorage.CacheCounts
import SquidStorage.Runs

open BigEndian

namespace Squid

/-! ### The buffer of one path -/

/-- The machine, and the unflushed buffer of one path. -/
structure Watched where
  fs : SquidFS
  unflushed : Option Bytes := none

namespace Watched

/-- What an operation that has come to a stop makes of the buffer of `p`.  The first
write starts from the bytes in the cache. -/
def record (p : Bytes) (s : Watched) (op : FsOp) (result : Option OpResult) : Option Bytes :=
  match op, result with
  | .opWrite path buf offset, some (.written _) =>
    if path = p ∧ s.fs.writersOf p ≠ [] then
      some (ByteFile.overwrite 0 (s.unflushed.getD (s.fs.entry p).data) offset buf)
    else s.unflushed
  | .opTruncate path size, some .done =>
    if path = p then s.unflushed.map fun buf => ByteFile.resize 0 buf size else s.unflushed
  | .opOpen path flags, some (.opened _) =>
    if path = p ∧ flags.trunc = true ∧ flags.writable = true then s.unflushed.map fun _ => []
    else s.unflushed
  | .opRelease fh, _ =>
    if fh ∈ s.fs.handles ∧ fh.path = p ∧ fh.writable = true ∧ (s.fs.writersOf p).length = 1 then none
    else s.unflushed
  | _, _ => s.unflushed

/-- The machine with the record of `p`. -/
def step (p : Bytes) (s : Watched) (event : FsEvent) : Option Watched :=
  (s.fs.step event).map fun o =>
    { fs := o.1
      unflushed := match event with
        | .call op => s.record p op o.2
        | _ => s.unflushed }

def start (versions : StrMap Int32) : Watched := { fs := { versions := versions } }

/-- What an event must respect. -/
def Spared (p : Bytes) (s : Watched) : FsEvent → Prop
  | .push msg _ => msg.opcode = .pushDeleteFile → msg.getString .filePath = p →
      s.fs.handlesOf p = []
  | .unlink path => path = p → s.fs.handlesOf p = []
  | .call (.opRead path _ _) => path = p → s.unflushed ≠ some []
  | _ => True

/-- The entry of `p` has the buffer, a writable handle is open, and no operation on
`p` is under way. -/
structure Holds (p : Bytes) (fs : SquidFS) (buf : Bytes) : Prop where
  entry : ∃ e, fs.find p = some e ∧ e.dirty = true ∧ e.data = buf
  writers : fs.writersOf p ≠ []
  elsewhere : fs.thread.path ≠ some p

namespace Holds

variable {p buf : Bytes} {fs fs' : SquidFS}

theorem congr (h : Holds p fs buf) (hfind : fs'.find p = fs.find p)
    (hhandles : fs'.handlesOf p = fs.handlesOf p) (hthread : fs'.thread.path ≠ some p) :
    Holds p fs' buf := by
  refine ⟨?_, ?_, hthread⟩
  · rw [hfind]
    exact h.entry
  · rw [SquidFS.writersOf, hhandles]
    exact h.writers

/-- An operation elsewhere. -/
theorem confined {r : Bytes} {o : SquidFS × Option OpResult} (h : Holds p fs buf)
    (hconfined : SquidFS.Confined r fs o) (hp : p ≠ r) : Holds p o.1 buf :=
  h.congr (hconfined.onlyAt.find p hp) (hconfined.onlyAt.handlesOf p hp) fun hpath =>
    hp (hconfined.thread p hpath)

theorem leave (h : Holds p fs buf) (result : OpResult) : Holds p (fs.leave result).1 buf :=
  h.congr rfl rfl (by simp [SquidFS.leave, FuseThread.path])

/-- A push leaves a dirty buffer alone, unless it deletes the path. -/
theorem handlePush (h : Holds p fs buf) {msg : Message} (data : Bytes)
    (hspared : ¬ SquidFS.Deletes p msg) : Holds p (fs.handlePush msg data) buf := by
  obtain ⟨e, hfind, hdirty, -⟩ := h.entry
  refine h.congr ?_ (SquidFS.handlesOf_handlePush fs msg data p) ?_
  · rcases SquidFS.find_handlePush fs msg data p with ⟨hdel, -⟩ | hsame | ⟨version, hpushed⟩
    · exact absurd hdel hspared
    · exact hsame
    · rw [hpushed, SquidFS.entry_eq hfind, hdirty, hfind]
      rfl
  · rw [(SquidFS.thread_handlePush fs msg data).1]
    exact h.elsewhere

theorem data (h : Holds p fs buf) : (fs.find p).map CacheEntry.data = some buf := by
  obtain ⟨e, hfind, -, hdata⟩ := h.entry
  rw [hfind, Option.map_some, hdata]

theorem handlesOf_ne (h : Holds p fs buf) : fs.handlesOf p ≠ [] := by
  intro hnil
  refine h.writers ?_
  rw [SquidFS.writersOf, hnil, List.filter_nil]

variable (h : Holds p fs buf) (hcounted : SquidFS.Counted p fs)

include h hcounted in
theorem lockCount_ne : (fs.entry p).lockCount ≠ 0 := by
  rw [hcounted.writers]
  exact fun hzero => h.writers (List.eq_nil_of_length_eq_zero hzero)

include h hcounted in
theorem openCount_ne : (fs.entry p).openCount ≠ 0 := by
  rw [hcounted.opens]
  exact fun hzero => h.handlesOf_ne (List.eq_nil_of_length_eq_zero hzero)

include h hcounted in
/-- A path that is open for writing is neither locked nor fetched again. -/
theorem opOpen_eq (hp : p ≠ []) (flags : OpenFlags) :
    fs.opOpen p flags = ((fs.touch p).touch p).openFinish p flags := by
  have hlock : ¬ (flags.writable = true ∧ (fs.entry p).lockCount = 0) := fun hboth =>
    h.lockCount_ne hcounted hboth.2
  rw [SquidFS.opOpen, if_neg hp]
  dsimp only
  rw [SquidFS.entry_touch_self, if_neg hlock, SquidFS.openLocked,
    SquidFS.entry_touch_self, SquidFS.entry_touch_self, if_neg (h.openCount_ne hcounted)]

include h in
theorem openFinish (flags : OpenFlags) :
    Holds p (((fs.touch p).touch p).openFinish p flags).1
      (if flags.trunc && flags.writable then [] else buf) := by
  obtain ⟨e, hfind, hdirty, hdata⟩ := h.entry
  refine ⟨⟨SquidFS.opened e flags, ?_, ?_, ?_⟩, ?_, ?_⟩
  · show SquidFS.find (SquidFS.setEntry _ p _) p = _
    rw [SquidFS.find_setEntry_self, SquidFS.entry_touch_self, SquidFS.entry_touch_self,
      SquidFS.entry_eq hfind]
  · rw [SquidFS.opened_dirty, hdirty, ite_self]
  · rw [SquidFS.opened_data, hdata]
  · -- the handles that were there are still there
    intro hnil
    refine h.writers (List.eq_nil_of_subset_nil ?_)
    rw [← hnil]
    intro fh hfh
    obtain ⟨hmem, hwritable⟩ := List.mem_filter.mp hfh
    obtain ⟨hhandle, hpath⟩ := List.mem_filter.mp hmem
    exact List.mem_filter.mpr
      ⟨List.mem_filter.mpr ⟨List.mem_cons_of_mem _ hhandle, hpath⟩, hwritable⟩
  · simp [SquidFS.openFinish, SquidFS.leave, FuseThread.path]

end Holds

/-- A write or a truncation in the buffer. -/
theorem Holds.update {p buf : Bytes} {fs : SquidFS} {e : CacheEntry} (hwriters : fs.writersOf p ≠ [])
    (hdirty : e.dirty = true) (hdata : e.data = buf) (result : OpResult) :
    Holds p ((fs.setEntry p e).leave result).1 buf :=
  ⟨⟨e, SquidFS.find_setEntry_self fs p e, hdirty, hdata⟩, hwriters,
    by simp [SquidFS.leave, FuseThread.path]⟩

/-- The release of the last writable handle sends the buffer. -/
theorem Holds.opRelease_last {buf : Bytes} {fs : SquidFS} {fh : FileHandle}
    (h : Holds fh.path fs buf) (hcounted : SquidFS.Counted fh.path fs) (hfh : fh ∈ fs.handles)
    (hwritable : fh.writable = true) (hlast : (fs.writersOf fh.path).length = 1) :
    ∃ version, (fs.opRelease fh).1.thread = .calling (.releaseUpdate fh.path buf version) := by
  obtain ⟨e, hfind, hdirty, hdata⟩ := h.entry
  have hfind' : SquidFS.find { fs with handles := fs.handles.erase fh } fh.path = some e := hfind
  have hzero := hcounted.lockCount_of_last hfind hwritable hlast
  refine ⟨(SquidFS.closed e fh.writable).version, ?_⟩
  rw [SquidFS.opRelease, if_neg (not_not.mpr hfh)]
  simp only [hfind']
  rw [if_pos ⟨hwritable, hzero⟩, if_pos ((SquidFS.closed_dirty e _).trans hdirty), SquidFS.closed_data, hdata]
  rfl

/-- Any other release keeps it. -/
theorem Holds.opRelease {buf : Bytes} {fs : SquidFS} {fh : FileHandle}
    (h : Holds fh.path fs buf) (hcounted : SquidFS.Counted fh.path fs) (hfh : fh ∈ fs.handles)
    (hlast : ¬ (fh.writable = true ∧ (fs.writersOf fh.path).length = 1)) :
    Holds fh.path (fs.opRelease fh).1 buf := by
  obtain ⟨e, hfind, hdirty, hdata⟩ := h.entry
  have hfind' : SquidFS.find { fs with handles := fs.handles.erase fh } fh.path = some e := hfind
  set closed := SquidFS.setEntry { fs with handles := fs.handles.erase fh } fh.path
    (SquidFS.closed e fh.writable) with hclosed
  have hwriters : (fs.writersOf fh.path).erase fh ≠ [] := by
    have hne : (fs.writersOf fh.path).length ≠ 0 := fun hzero =>
      h.writers (List.eq_nil_of_length_eq_zero hzero)
    intro hnil
    have hlength := congrArg List.length hnil
    rw [List.length_erase, List.length_nil] at hlength
    split at hlength
    · rename_i hmem
      have hwritable : fh.writable = true := (List.mem_filter.mp hmem).2
      exact hlast ⟨hwritable, by omega⟩
    · exact hne hlength
  have hholds : Holds fh.path closed buf := by
    refine ⟨⟨SquidFS.closed e fh.writable, SquidFS.find_setEntry_self _ _ _, ?_, ?_⟩, ?_, h.elsewhere⟩
    · rw [SquidFS.closed_dirty, hdirty]
    · rw [SquidFS.closed_data, hdata]
    · rw [← SquidFS.writersOf_dropHandle] at hwriters
      exact hwriters
  -- the counts that are left are not zero: nothing is flushed, nothing is dropped
  have hdrop := hcounted.dropHandle hfh
  rw [SquidFS.entry_eq hfind] at hdrop
  have hlock := hholds.lockCount_ne hdrop
  have hopen := hholds.openCount_ne hdrop
  rw [hclosed, SquidFS.entry_setEntry_self] at hlock
  rw [SquidFS.opRelease, if_neg (not_not.mpr hfh)]
  simp only [hfind']
  rw [if_neg (fun hboth => hlock hboth.2)]
  rcases closed.eraseUnopened_eq fh.path with heq | ⟨hzero, -⟩
  · rw [heq]
    exact hholds.leave _
  · exact absurd hzero hopen

/-! ### Runs -/

/-- The counts are right, and the entry has the unflushed buffer. -/
structure Guarded (p : Bytes) (s : Watched) : Prop where
  sound : SquidFS.Sound p s.fs
  holds : ∀ buf, s.unflushed = some buf → Holds p s.fs buf

variable {p : Bytes} {s : Watched}

theorem record_of_ne {op : FsOp} (hp : p ≠ op.path) (result : Option OpResult) :
    s.record p op result = s.unflushed := by
  unfold record
  split
  · exact if_neg fun h => hp h.1.symm
  · exact if_neg fun h => hp h.symm
  · exact if_neg fun h => hp h.1.symm
  · exact if_neg fun h => hp h.2.1.symm
  · rfl

namespace Guarded

theorem opOpen {path buf : Bytes} {flags : OpenFlags} (h : s.Guarded path)
    (hbuf : s.record path (.opOpen path flags) (s.fs.opOpen path flags).2 = some buf) :
    Holds path (s.fs.opOpen path flags).1 buf := by
  by_cases hpath : path = []
  · rw [SquidFS.opOpen, if_pos hpath] at hbuf ⊢
    exact (h.holds buf hbuf).leave _
  · cases hun : s.unflushed with
    | none =>
      have hnone : s.record path (.opOpen path flags) (s.fs.opOpen path flags).2 = none := by
        simp only [record, hun, Option.map_none, ite_self]
        split <;> simp_all
      rw [hnone] at hbuf
      simp at hbuf
    | some buffer =>
      have hholds := h.holds buffer hun
      rw [hholds.opOpen_eq h.sound.counted hpath] at hbuf ⊢
      have hnew : (if path = path ∧ flags.trunc = true ∧ flags.writable = true
          then s.unflushed.map fun _ => [] else s.unflushed) = some buf := hbuf
      have hbuffer : (if flags.trunc && flags.writable then [] else buffer) = buf := by
        rcases flags with ⟨_ | _, _ | _⟩ <;> simpa [hun] using hnew
      rw [← hbuffer]
      exact hholds.openFinish flags

theorem opWrite {path data buf : Bytes} {offset : ℕ} (h : s.Guarded path)
    (hbuf : s.record path (.opWrite path data offset) (s.fs.opWrite path data offset).2 = some buf) :
    Holds path (s.fs.opWrite path data offset).1 buf := by
  rw [SquidFS.opWrite] at hbuf ⊢
  cases hfind : s.fs.find path with
  | none =>
    rw [hfind] at hbuf
    obtain ⟨e, he, -⟩ := (h.holds buf hbuf).entry
    rw [hfind] at he
    simp at he
  | some e =>
    rw [hfind] at hbuf
    by_cases hwriters : s.fs.writersOf path = []
    · have hkept : s.unflushed = some buf := by
        rw [← hbuf]
        exact (if_neg fun hboth => hboth.2 hwriters).symm
      exact absurd hwriters (h.holds buf hkept).writers
    · have hnew : some (ByteFile.overwrite 0 (s.unflushed.getD (s.fs.entry path).data) offset data)
          = some buf := by
        rw [← hbuf]
        exact (if_pos ⟨rfl, hwriters⟩).symm
      refine Holds.update hwriters rfl ?_ _
      rw [← Option.some.inj hnew]
      -- the recorded buffer, or else the one in the cache, is that of the entry
      cases hun : s.unflushed with
      | none => rw [Option.getD_none, SquidFS.entry_eq hfind]
      | some buffer =>
        obtain ⟨e', he', -, hdata⟩ := (h.holds buffer hun).entry
        rw [hfind] at he'
        rw [Option.getD_some, ← hdata, ← Option.some.inj he']

theorem opTruncate {path buf : Bytes} {size : ℕ} (h : s.Guarded path)
    (hbuf : s.record path (.opTruncate path size) (s.fs.opTruncate path size).2 = some buf) :
    Holds path (s.fs.opTruncate path size).1 buf := by
  rw [SquidFS.opTruncate] at hbuf ⊢
  cases hfind : s.fs.find path with
  | none =>
    rw [hfind] at hbuf
    obtain ⟨e, he, -⟩ := (h.holds buf hbuf).entry
    rw [hfind] at he
    simp at he
  | some e =>
    rw [hfind] at hbuf
    have hmap : (s.unflushed.map fun buf => ByteFile.resize 0 buf size) = some buf := by
      rw [← hbuf]
      exact (if_pos rfl).symm
    obtain ⟨buffer, hun, rfl⟩ := Option.map_eq_some_iff.mp hmap
    have hholds := h.holds buffer hun
    obtain ⟨e', he', -, hdata⟩ := hholds.entry
    rw [hfind] at he'
    refine Holds.update hholds.writers rfl ?_ _
    rw [← hdata, ← Option.some.inj he']

theorem opRelease {fh : FileHandle} {buf : Bytes} (h : s.Guarded fh.path)
    (hbuf : s.record fh.path (.opRelease fh) (s.fs.opRelease fh).2 = some buf) :
    Holds fh.path (s.fs.opRelease fh).1 buf := by
  simp only [record] at hbuf
  split at hbuf
  · simp at hbuf
  · rename_i hnot
    have hholds := h.holds buf hbuf
    by_cases hfh : fh ∈ s.fs.handles
    · exact hholds.opRelease h.sound.counted hfh fun hlast => hnot ⟨hfh, True.intro, hlast.1, hlast.2⟩
    · rw [SquidFS.opRelease, if_pos hfh]
      exact hholds.leave _

/-- **A call.** -/
theorem call (h : s.Guarded p) {op : FsOp} (hspared : s.Spared p (.call op)) {buf : Bytes}
    (hbuf : s.record p op (s.fs.call op).2 = some buf) : Holds p (s.fs.call op).1 buf := by
  by_cases hp : p = op.path
  swap
  · rw [record_of_ne hp] at hbuf
    exact (h.holds buf hbuf).confined (SquidFS.confined_call s.fs op) hp
  subst hp
  cases op with
  | opCreate path flags =>
    -- the path is cached: the thread gets stuck
    have hholds := h.holds buf hbuf
    obtain ⟨e, hfind, -⟩ := hholds.entry
    have hcached : (s.fs.find path).isSome = true := Option.isSome_iff_exists.mpr ⟨e, hfind⟩
    show Holds path (s.fs.opCreate path flags).1 buf
    rw [SquidFS.opCreate, if_pos hcached]
    split
    · exact hholds.leave _
    · exact hholds.congr rfl rfl (by simp [FuseThread.path])
  | opOpen path flags => exact opOpen h hbuf
  | opRead path size offset =>
    have hholds := h.holds buf hbuf
    obtain ⟨e, hfind, -, hdata⟩ := hholds.entry
    have hentry : s.fs.entry path = e := SquidFS.entry_eq hfind
    have hne : (s.fs.entry path).data ≠ [] := by
      rw [hentry, hdata]
      rintro rfl
      exact hspared rfl hbuf
    show Holds path (s.fs.opRead path size offset).1 buf
    rw [SquidFS.opRead, if_neg hne]
    exact hholds.leave _
  | opWrite path data offset => exact opWrite h hbuf
  | opTruncate path size => exact opTruncate h hbuf
  | opRelease fh => exact opRelease h hbuf

/-- **One event**, of either thread. -/
theorem step (h : s.Guarded p) {event : FsEvent} (hspared : s.Spared p event) {s' : Watched}
    (hstep : s.step p event = some s') : s'.Guarded p := by
  obtain ⟨o, ho, rfl⟩ := Option.map_eq_some_iff.mp hstep
  rw [SquidFS.step.eq_def] at ho
  split at ho
  · -- a call
    rename_i op hthread
    obtain rfl := Option.some.inj ho
    exact ⟨h.sound.counted.call op, fun buf hbuf => h.call hspared hbuf⟩
  · -- `op_unlink`
    rename_i path hthread
    obtain rfl := Option.some.inj ho
    have hconfined := (SquidFS.OnlyAt.refl path s.fs).await (w := .unlink path)
    by_cases hp : p = path
    · subst hp
      have hnone := hspared rfl
      refine ⟨h.sound.counted.await fun _ => hnone, fun buf hbuf => ?_⟩
      exact absurd hnone (h.holds buf hbuf).handlesOf_ne
    · exact ⟨SquidFS.Sound.elsewhere h.sound.counted hconfined hp,
        fun buf hbuf => (h.holds buf hbuf).confined hconfined hp⟩
  · -- a call to the server returns
    rename_i reply w hthread
    obtain rfl := Option.some.inj ho
    refine ⟨h.sound.returns hthread reply, fun buf hbuf => ?_⟩
    have hholds := h.holds buf hbuf
    refine hholds.congr (SquidFS.find_returns _ _ _ p) (SquidFS.handlesOf_returns _ _ _ p) ?_
    have helsewhere := hholds.elsewhere
    rw [hthread] at helsewhere
    exact helsewhere
  · rename_i path flags hthread
    obtain rfl := Option.some.inj ho
    refine ⟨h.sound.createUncached hthread, fun buf hbuf => ?_⟩
    have hholds := h.holds buf hbuf
    refine hholds.confined (SquidFS.confined_createUncached s.fs path flags) ?_
    rintro rfl
    exact hholds.elsewhere (by rw [hthread]; rfl)
  · -- the thread takes the mutex again
    rename_i w reply hthread
    obtain rfl := Option.some.inj ho
    refine ⟨h.sound.resume hthread, fun buf hbuf => ?_⟩
    have hholds := h.holds buf hbuf
    refine hholds.confined (SquidFS.confined_resume s.fs w reply) ?_
    rintro rfl
    exact hholds.elsewhere (by rw [hthread]; rfl)
  · simp at ho
  · -- a push
    rename_i msg data hthread
    obtain rfl := Option.some.inj ho
    have hdel : SquidFS.Deletes p msg → s.fs.handlesOf p = [] := fun hd => hspared hd.1 hd.2
    refine ⟨h.sound.handlePush data hdel, fun buf hbuf => ?_⟩
    have hholds := h.holds buf hbuf
    exact hholds.handlePush data fun hd => hholds.handlesOf_ne (hdel hd)
  · simp at ho

end Guarded

theorem guarded_start (p : Bytes) (versions : StrMap Int32) : (start versions).Guarded p := by
  have hfind : (start versions).fs.find p = none := Std.ExtTreeMap.getElem?_empty
  have hcounted : SquidFS.Counted p (start versions).fs := .of_absent rfl hfind
  exact ⟨⟨hcounted, fun hpath => by simp [start, FuseThread.path] at hpath⟩,
    fun buf hbuf => by simp [start] at hbuf⟩

instance : DecidablePred (s.Spared p)
  | .push msg _ => inferInstanceAs (Decidable (msg.opcode = .pushDeleteFile →
      msg.getString .filePath = p → s.fs.handlesOf p = []))
  | .unlink path => inferInstanceAs (Decidable (path = p → s.fs.handlesOf p = []))
  | .call (.opRead path _ _) => inferInstanceAs (Decidable (path = p → s.unflushed ≠ some []))
  | .call (.opCreate _ _) | .call (.opOpen _ _) | .call (.opWrite _ _ _) | .call (.opTruncate _ _)
  | .call (.opRelease _) | .returns _ | .resume => isTrue True.intro

end Watched

/-- **Unflushed writes win**, in every run that spares the path, whatever the
interleaving: while a buffer is unflushed the entry of the path has it, after any
push as well, and the release of the last writable handle sends `updateFile` with it. -/
theorem unflushed_write_survives (p : Bytes) (versions : StrMap Int32) (events : List FsEvent)
    (hmeets : Runs.Meets (Watched.step p) (Watched.Spared p) (Watched.start versions) events)
    (s : Watched) (hrun : Runs.run (Watched.step p) (Watched.start versions) events = some s)
    (buf : Bytes) (hbuf : s.unflushed = some buf) :
    (s.fs.find p).map CacheEntry.data = some buf ∧
      (∀ msg data fs', s.Spared p (.push msg data) → s.fs.next (.push msg data) = some fs' →
        (fs'.find p).map CacheEntry.data = some buf) ∧
      ∀ fh ∈ s.fs.handles, fh.path = p → fh.writable = true → (s.fs.writersOf p).length = 1 →
        s.fs.thread = .idle → ∃ w version, (s.fs.step (.call (.opRelease fh))).map
          (fun o => o.1.thread) = some (.calling w) ∧ w.request = .updateFile p version buf := by
  have hguarded : s.Guarded p := by
    refine Runs.run_invariant ?_ (Watched.guarded_start p versions) hmeets hrun
    intro s event s' hguarded hspared hstep
    exact hguarded.step hspared hstep
  have hholds := hguarded.holds buf hbuf
  refine ⟨hholds.data, fun msg data fs' hspared hnext => ?_, ?_⟩
  · -- the state after the push is one of the run
    obtain ⟨o, ho, rfl⟩ := Option.map_eq_some_iff.mp hnext
    have hstep : s.step p (.push msg data) = some ⟨o.1, s.unflushed⟩ := by
      rw [Watched.step, ho]
      rfl
    exact ((hguarded.step hspared hstep).holds buf hbuf).data
  · rintro fh hfh rfl hwritable hlast hidle
    obtain ⟨version, hthread⟩ :=
      hholds.opRelease_last hguarded.sound.counted hfh hwritable hlast
    refine ⟨.releaseUpdate fh.path buf version, version, ?_, rfl⟩
    have hcall : s.fs.step (.call (.opRelease fh)) = some (s.fs.opRelease fh) := by
      simp only [SquidFS.step, hidle]
      rfl
    rw [hcall, Option.map_some, hthread]

/-- The reply that every call of the sample gets, with the given file bytes. -/
def ackWith (data : Bytes) : Message × Bytes :=
  ({ flags := flagResponse, fields := [⟨.ack, [1]⟩] }, data)

/-- The file is opened for writing and a byte is written; then a PUSH_UPDATE_FILE of
the same file is handled. -/
theorem unflushed_write_survives_update :
    let f : Bytes := [102]
    let push : Message := { opcode := .pushUpdateFile, fields := [⟨.filePath, f⟩] }
    let events : List FsEvent := [.call (.opOpen f ⟨true, false⟩), .returns (ackWith []), .resume,
      .returns (ackWith [1, 2]), .resume, .call (.opWrite f [9] 1), .push push [5]]
    Runs.Meets (Watched.step f) (Watched.Spared f) (Watched.start ∅) events ∧
      ∃ s, Runs.run (Watched.step f) (Watched.start ∅) events = some s ∧
        s.unflushed = some [1, 9] ∧ (s.fs.find f).map CacheEntry.data = some [1, 9] := by
  intro f push events
  have hmeets : Runs.Meets (Watched.step f) (Watched.Spared f) (Watched.start ∅) events := by
    decide
  have hrecord : ((Runs.run (Watched.step f) (Watched.start ∅) events).bind
      fun s => s.unflushed) = some [1, 9] := by
    decide
  obtain ⟨s, hrun, hbuf⟩ := Option.bind_eq_some_iff.mp hrecord
  exact ⟨hmeets, s, hrun, hbuf, (unflushed_write_survives f ∅ events hmeets s hrun _ hbuf).1⟩

/-- The same file, the same write, and a PUSH_DELETE_FILE: the entry is gone with
the written byte, and the release of the handle gives the lock back and sends
nothing. -/
theorem push_delete_discards :
    let f : Bytes := [102]
    let push : Message := { opcode := .pushDeleteFile, fields := [⟨.filePath, f⟩] }
    let written : List FsEvent := [.call (.opOpen f ⟨true, false⟩), .returns (ackWith []), .resume,
      .returns (ackWith [1, 2]), .resume, .call (.opWrite f [9] 1)]
    ((Runs.run (Watched.step f) (Watched.start ∅) written).map fun s =>
        ((s.fs.find f).map CacheEntry.data, s.unflushed, s.fs.writersOf f))
        = some (some [1, 9], some [1, 9], [⟨f, true⟩]) ∧
      ((Runs.run (Watched.step f) (Watched.start ∅) (written ++ [.push push []])).map fun s =>
        ((s.fs.find f).map CacheEntry.data, s.unflushed)) = some (none, some [1, 9]) ∧
      ((Runs.run (Watched.step f) (Watched.start ∅)
          (written ++ [.push push [], .call (.opRelease ⟨f, true⟩)])).map fun s => s.fs.thread)
        = some (.calling (.releaseOrphan f)) ∧
      (Window.releaseOrphan f).request = .releaseLock f := by
  decide

end Squid
