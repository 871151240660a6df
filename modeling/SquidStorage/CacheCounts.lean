/-
What the operations of the FUSE layer leave alone, and what the counts of a cache
entry count.

* `confined_call`, `confined_resume` — an operation touches the entry and the
  handles of its own path only, wherever it stops;
* `Sound` — the counts of the entry are those of the open handles, and an operation
  that takes its path to be closed is right about it;
* `Counted.call`, `Sound.resume`, `Sound.handlePush` — every step of either thread
  keeps that, unless a path that is open is deleted.
-/
import SquidStorage.SquidFS

open BigEndian

namespace Squid

namespace SquidFS

/-! ### What an operation leaves alone -/

/-- Nothing has changed but the entry and the handles of `r`. -/
structure OnlyAt (r : Bytes) (fs fs' : SquidFS) : Prop where
  find : ∀ p, p ≠ r → fs'.find p = fs.find p
  handlesOf : ∀ p, p ≠ r → fs'.handlesOf p = fs.handlesOf p

namespace OnlyAt

variable {r : Bytes} {fs fs' fs'' : SquidFS}

theorem refl (r : Bytes) (fs : SquidFS) : OnlyAt r fs fs := ⟨fun _ _ => rfl, fun _ _ => rfl⟩

theorem trans (h : OnlyAt r fs fs') (h' : OnlyAt r fs' fs'') : OnlyAt r fs fs'' where
  find p hp := (h'.find p hp).trans (h.find p hp)
  handlesOf p hp := (h'.handlesOf p hp).trans (h.handlesOf p hp)

theorem setEntry (h : OnlyAt r fs fs') (e : CacheEntry) : OnlyAt r fs (fs'.setEntry r e) where
  find p hp := by rw [find_setEntry, if_neg (Ne.symm hp), h.find p hp]
  handlesOf := h.handlesOf

theorem touch (h : OnlyAt r fs fs') : OnlyAt r fs (fs'.touch r) := h.setEntry _

theorem erase (h : OnlyAt r fs fs') : OnlyAt r fs (fs'.erase r) where
  find p hp := by rw [find_erase, if_neg (Ne.symm hp), h.find p hp]
  handlesOf := h.handlesOf

theorem eraseUnopened (h : OnlyAt r fs fs') : OnlyAt r fs (fs'.eraseUnopened r) := by
  rcases fs'.eraseUnopened_eq r with heq | ⟨-, heq⟩
  · rw [heq]
    exact h
  · rw [heq]
    exact h.erase

/-- Only the map of versions and the position of the thread differ. -/
theorem congr (h : OnlyAt r fs fs') (hcache : fs''.cache = fs'.cache)
    (hhandles : fs''.handles = fs'.handles) : OnlyAt r fs fs'' where
  find p hp := by
    rw [← h.find p hp, SquidFS.find, SquidFS.find, hcache]
  handlesOf p hp := by
    rw [← h.handlesOf p hp, SquidFS.handlesOf, SquidFS.handlesOf, hhandles]

theorem addHandle (h : OnlyAt r fs fs') {fh : FileHandle} (hfh : fh.path = r) :
    OnlyAt r fs { fs' with handles := fh :: fs'.handles } where
  find := h.find
  handlesOf p hp := by
    rw [← h.handlesOf p hp]
    exact List.filter_cons_of_neg (by simpa [hfh] using Ne.symm hp)

theorem dropHandle (h : OnlyAt r fs fs') (fh : FileHandle) (hfh : fh.path = r) :
    OnlyAt r fs { fs' with handles := fs'.handles.erase fh } where
  find := h.find
  handlesOf p hp := by
    have hnot : fh ∉ fs'.handlesOf p := by
      intro hmem
      have hpath := (List.mem_filter.mp hmem).2
      have hpr : r = p := by simpa [hfh] using hpath
      exact hp hpr.symm
    rw [← h.handlesOf p hp]
    show (fs'.handles.erase fh).filter _ = _
    rw [← List.erase_filter]
    exact List.erase_of_not_mem hnot

end OnlyAt

/-- What an operation on `r` does up to where it stops: nothing has changed but at
`r`, and if it is not over the thread stands in an operation on `r`. -/
structure Confined (r : Bytes) (fs : SquidFS) (o : SquidFS × Option OpResult) : Prop where
  onlyAt : OnlyAt r fs o.1
  thread : ∀ p, o.1.thread.path = some p → p = r

theorem OnlyAt.leave {r : Bytes} {fs fs' : SquidFS} (h : OnlyAt r fs fs') (result : OpResult) :
    Confined r fs (fs'.leave result) :=
  ⟨h.congr rfl rfl, fun p hp => by simp [SquidFS.leave, FuseThread.path] at hp⟩

theorem OnlyAt.await {fs fs' : SquidFS} {w : Window} (h : OnlyAt w.path fs fs') :
    Confined w.path fs (fs'.await w) :=
  ⟨h.congr rfl rfl, fun _ hp => (Option.some.inj hp).symm⟩

theorem OnlyAt.openFinish {r : Bytes} {fs fs' : SquidFS} (h : OnlyAt r fs fs')
    (flags : OpenFlags) : Confined r fs (fs'.openFinish r flags) :=
  ((h.setEntry _).addHandle rfl).leave _

theorem OnlyAt.openLocked {r : Bytes} {fs fs' : SquidFS} (h : OnlyAt r fs fs')
    (flags : OpenFlags) : Confined r fs (fs'.openLocked r flags) := by
  rw [SquidFS.openLocked]
  split
  · exact h.touch.await (w := .openFetch r flags)
  · exact h.touch.openFinish flags

theorem OnlyAt.opOpen {r : Bytes} {fs fs' : SquidFS} (h : OnlyAt r fs fs') (flags : OpenFlags) :
    Confined r fs (fs'.opOpen r flags) := by
  rw [SquidFS.opOpen]
  split
  · exact h.leave _
  · dsimp only
    split
    · exact h.touch.await (w := .openLock r flags)
    · exact h.touch.openLocked flags

theorem confined_opRelease (fs : SquidFS) (fh : FileHandle) :
    Confined fh.path fs (fs.opRelease fh) := by
  have hdrop := (OnlyAt.refl fh.path fs).dropHandle fh rfl
  rw [opRelease]
  split
  · exact (OnlyAt.refl fh.path fs).leave _
  · dsimp only
    split
    · split
      · exact hdrop.await (w := .releaseOrphan fh.path)
      · exact hdrop.leave _
    · rename_i e _
      have hclosed := hdrop.setEntry (closed e fh.writable)
      split
      · split
        · exact hclosed.await (w := .releaseUpdate fh.path _ _)
        · exact hclosed.await (w := .releaseUnlock fh.path)
      · exact hclosed.eraseUnopened.leave _

theorem confined_createUncached (fs : SquidFS) (path : Bytes) (flags : OpenFlags) :
    Confined path fs (fs.createUncached path flags) := by
  rw [createUncached]
  split
  · exact (OnlyAt.refl path fs).opOpen flags
  · exact (OnlyAt.refl path fs).await (w := .createFile path)

theorem confined_call (fs : SquidFS) (op : FsOp) : Confined op.path fs (fs.call op) := by
  have hrefl := OnlyAt.refl op.path fs
  cases op with
  | opCreate path flags =>
    show Confined path fs (fs.opCreate path flags)
    rw [opCreate]
    split
    · exact hrefl.leave _
    · split
      · exact ⟨hrefl.congr rfl rfl, fun p hp => by simp [FuseThread.path] at hp⟩
      · exact ⟨hrefl.congr rfl rfl, fun p hp => (Option.some.inj hp).symm⟩
  | opOpen path flags => exact hrefl.opOpen flags
  | opRead path size offset =>
    show Confined path fs (fs.opRead path size offset)
    rw [opRead]
    split
    · exact hrefl.touch.await (w := .readFetch path size offset)
    · exact hrefl.leave _
  | opWrite path buf offset =>
    show Confined path fs (fs.opWrite path buf offset)
    rw [opWrite]
    split
    · exact hrefl.leave _
    · exact (hrefl.setEntry _).leave _
  | opTruncate path size =>
    show Confined path fs (fs.opTruncate path size)
    rw [opTruncate]
    split
    · exact hrefl.leave _
    · exact (hrefl.setEntry _).leave _
  | opRelease fh => exact confined_opRelease fs fh

theorem OnlyAt.fetchIntoCache {r : Bytes} {fs fs' : SquidFS} {reply : Message × Bytes}
    (h : fs.fetchIntoCache r reply = some fs') : OnlyAt r fs fs' := by
  rw [SquidFS.fetchIntoCache] at h
  split at h
  · simp at h
  · obtain rfl := Option.some.inj h
    exact (OnlyAt.refl r fs).setEntry _

theorem onlyAt_flushed (fs : SquidFS) (path : Bytes) (ack : Message) :
    OnlyAt path fs (fs.flushed path ack) := by
  rw [flushed]
  split
  · exact OnlyAt.refl path fs
  · exact (OnlyAt.refl path fs).setEntry _

theorem confined_resume (fs : SquidFS) (w : Window) (reply : Message × Bytes) :
    Confined w.path fs (fs.resume w reply) := by
  have hrefl := OnlyAt.refl w.path fs
  cases w with
  | openLock path flags =>
    simp only [resume]
    split
    · exact hrefl.eraseUnopened.leave _
    · split
      · exact hrefl.leave _
      · exact hrefl.openLocked flags
  | openFetch path flags =>
    simp only [resume]
    split
    · rename_i fetched hfetch
      exact (OnlyAt.fetchIntoCache hfetch).openFinish flags
    · split
      · exact hrefl.await (w := .openAbort path)
      · exact hrefl.eraseUnopened.leave _
  | openAbort path => exact hrefl.eraseUnopened.leave _
  | createFile path =>
    simp only [resume]
    split
    · exact hrefl.leave _
    · exact hrefl.await (w := .createLock path _)
  | createLock path version =>
    simp only [resume]
    split
    · exact hrefl.await (w := .createAbort path)
    · exact ((hrefl.setEntry _).addHandle rfl).leave _
  | createAbort path => exact hrefl.leave _
  | readFetch path size offset =>
    simp only [resume]
    split
    · rename_i fetched hfetch
      exact (OnlyAt.fetchIntoCache hfetch).leave _
    · exact hrefl.leave _
  | releaseOrphan path => exact hrefl.leave _
  | releaseUpdate path data version =>
    exact (onlyAt_flushed fs path reply.1).await (w := .releaseUnlock path)
  | releaseUnlock path => exact hrefl.eraseUnopened.leave _
  | unlink path =>
    simp only [resume]
    split
    · exact hrefl.leave _
    · exact hrefl.erase.leave _

/-! ### The counts of an entry -/

/-- The counts of the entry of `p` are those of the open handles. -/
structure Counted (p : Bytes) (fs : SquidFS) : Prop where
  opens : (fs.entry p).openCount = (fs.handlesOf p).length
  writers : (fs.entry p).lockCount = (fs.writersOf p).length

/-- The counts are right, and an operation that takes the path to be closed is right
about it. -/
structure Sound (p : Bytes) (fs : SquidFS) : Prop where
  counted : Counted p fs
  unopened : fs.thread.path = some p → fs.thread.unopened = true → fs.handlesOf p = []

namespace Counted

variable {p : Bytes} {fs fs' : SquidFS}

theorem congr (h : Counted p fs) (hfind : fs'.find p = fs.find p)
    (hhandles : fs'.handlesOf p = fs.handlesOf p) : Counted p fs' where
  opens := by rw [entry, hfind, hhandles, ← h.opens, entry]
  writers := by rw [entry, hfind, writersOf, hhandles, ← writersOf, ← h.writers, entry]

theorem elsewhere (h : Counted p fs) {r : Bytes} (honly : OnlyAt r fs fs') (hp : p ≠ r) :
    Counted p fs' :=
  h.congr (honly.find p hp) (honly.handlesOf p hp)

theorem setEntry (h : Counted p fs) {e : CacheEntry} (hopen : e.openCount = (fs.entry p).openCount)
    (hlock : e.lockCount = (fs.entry p).lockCount) : Counted p (fs.setEntry p e) where
  opens := by
    rw [entry_setEntry_self, hopen]
    exact h.opens
  writers := by
    rw [entry_setEntry_self, hlock]
    exact h.writers

theorem touch (h : Counted p fs) : Counted p (fs.touch p) := h.setEntry rfl rfl

theorem update (h : Counted p fs) {e e' : CacheEntry} (hfind : fs.find p = some e)
    (hopen : e'.openCount = e.openCount) (hlock : e'.lockCount = e.lockCount) :
    Counted p (fs.setEntry p e') := by
  rw [← entry_eq hfind] at hopen hlock
  exact h.setEntry hopen hlock

/-- A path that is neither open nor cached. -/
theorem of_absent (hnone : fs.handlesOf p = []) (hfind : fs.find p = none) : Counted p fs := by
  have hentry : fs.entry p = {} := by
    rw [entry, hfind]
    rfl
  refine ⟨?_, ?_⟩
  · rw [hentry, hnone, List.length_nil]
  · rw [hentry, writersOf, hnone, List.filter_nil, List.length_nil]

theorem erase (hnone : fs.handlesOf p = []) : Counted p (fs.erase p) :=
  of_absent hnone (by rw [find_erase, if_pos rfl])

theorem handlesOf_eq_nil (h : Counted p fs) (hopen : (fs.entry p).openCount = 0) :
    fs.handlesOf p = [] :=
  List.eq_nil_of_length_eq_zero (h.opens.symm.trans hopen)

theorem eraseUnopened (h : Counted p fs) : Counted p (fs.eraseUnopened p) := by
  rcases fs.eraseUnopened_eq p with heq | ⟨hopen, heq⟩
  · rw [heq]
    exact h
  · rw [heq]
    exact erase (h.handlesOf_eq_nil hopen)

theorem leave (h : Counted p fs) (result : OpResult) : Sound p (fs.leave result).1 :=
  ⟨h.congr rfl rfl, fun hpath => by simp [SquidFS.leave, FuseThread.path] at hpath⟩

theorem await (h : Counted p fs) {w : Window} (hw : w.unopened = true → fs.handlesOf p = []) :
    Sound p (fs.await w).1 :=
  ⟨h.congr rfl rfl, fun _ => hw⟩

/-- One more handle, and one more of each count. -/
theorem addHandle (h : Counted p fs) (writable : Bool) {e : CacheEntry}
    (hopen : e.openCount = (fs.entry p).openCount + 1)
    (hlock : e.lockCount = (fs.entry p).lockCount + if writable then 1 else 0) :
    Counted p { fs.setEntry p e with handles := ⟨p, writable⟩ :: fs.handles } := by
  have hcons : ({ fs.setEntry p e with handles := ⟨p, writable⟩ :: fs.handles } :
      SquidFS).handlesOf p = ⟨p, writable⟩ :: fs.handlesOf p :=
    List.filter_cons_of_pos (by simp)
  have hentry : ({ fs.setEntry p e with handles := ⟨p, writable⟩ :: fs.handles } :
      SquidFS).entry p = e := entry_setEntry_self fs p e
  refine ⟨?_, ?_⟩
  · rw [hentry, hcons, hopen, List.length_cons, h.opens]
  · rw [hentry, hlock, h.writers, writersOf, writersOf, hcons, List.filter_cons]
    cases writable <;> rfl

theorem openFinish (h : Counted p fs) (flags : OpenFlags) :
    Sound p (fs.openFinish p flags).1 :=
  (h.addHandle flags.writable (opened_openCount _ flags) (opened_lockCount _ flags)).leave _

theorem openLocked (h : Counted p fs) (flags : OpenFlags) :
    Sound p (fs.openLocked p flags).1 := by
  rw [SquidFS.openLocked]
  split
  · exact h.touch.await (by simp [Window.unopened])
  · exact h.touch.openFinish flags

theorem opOpen (h : Counted p fs) (flags : OpenFlags) : Sound p (fs.opOpen p flags).1 := by
  rw [SquidFS.opOpen]
  split
  · exact h.leave _
  · dsimp only
    split
    · exact h.touch.await (by simp [Window.unopened])
    · exact h.touch.openLocked flags

theorem createFinish (hnone : fs.handlesOf p = []) (version : Int32) :
    Sound p (fs.createFinish p version).1 := by
  have hentry : (fs.createFinish p version).1.entry p
      = { data := [], version := version, dirty := false, lockCount := 1, openCount := 1 } :=
    entry_setEntry_self fs p _
  have hhandles : (fs.createFinish p version).1.handlesOf p = [⟨p, true⟩] := by
    rw [← hnone]
    exact List.filter_cons_of_pos (by simp)
  refine ⟨⟨?_, ?_⟩, ?_⟩
  · rw [hentry, hhandles]
    rfl
  · rw [hentry, writersOf, hhandles]
    rfl
  · intro hpath
    simp [SquidFS.createFinish, SquidFS.leave, FuseThread.path] at hpath

end Counted

/-- The handles of a path once one of them is closed. -/
theorem handlesOf_dropHandle (fs : SquidFS) (fh : FileHandle) :
    ({ fs with handles := fs.handles.erase fh } : SquidFS).handlesOf fh.path
      = (fs.handlesOf fh.path).erase fh := by
  show (fs.handles.erase fh).filter _ = _
  rw [← List.erase_filter]
  rfl

theorem mem_handlesOf {fs : SquidFS} {fh : FileHandle} (h : fh ∈ fs.handles) :
    fh ∈ fs.handlesOf fh.path :=
  List.mem_filter.mpr ⟨h, by simp⟩

theorem writersOf_dropHandle (fs : SquidFS) (fh : FileHandle) :
    ({ fs with handles := fs.handles.erase fh } : SquidFS).writersOf fh.path
      = (fs.writersOf fh.path).erase fh := by
  rw [writersOf, handlesOf_dropHandle, ← List.erase_filter]
  rfl

/-- One handle less, and one less of each count. -/
theorem Counted.dropHandle {fs : SquidFS} {fh : FileHandle} (h : Counted fh.path fs)
    (hfh : fh ∈ fs.handles) :
    Counted fh.path (({ fs with handles := fs.handles.erase fh } : SquidFS).setEntry fh.path
      (closed (fs.entry fh.path) fh.writable)) := by
  have hmem := mem_handlesOf hfh
  refine ⟨?_, ?_⟩
  · rw [entry_setEntry_self, closed_openCount, h.opens, ← List.length_erase_of_mem hmem,
      ← handlesOf_dropHandle]
    rfl
  · rw [entry_setEntry_self, closed_lockCount, h.writers]
    have hdrop := writersOf_dropHandle fs fh
    show _ = (({ fs with handles := fs.handles.erase fh } : SquidFS).writersOf fh.path).length
    rw [hdrop]
    by_cases hwritable : fh.writable = true
    · have hmemw : fh ∈ fs.writersOf fh.path := List.mem_filter.mpr ⟨hmem, hwritable⟩
      rw [List.length_erase_of_mem hmemw, if_pos hwritable]
    · have hnot : fh ∉ fs.writersOf fh.path := fun hmemw => hwritable (List.mem_filter.mp hmemw).2
      rw [List.erase_of_not_mem hnot, if_neg hwritable, Nat.sub_zero]

/-- A path that is open has an entry. -/
theorem Counted.find_eq_some {fs : SquidFS} {fh : FileHandle} (h : Counted fh.path fs)
    (hfh : fh ∈ fs.handles) : ∃ e, fs.find fh.path = some e := by
  cases hfind : fs.find fh.path with
  | some e => exact ⟨e, rfl⟩
  | none =>
    have hzero : (fs.entry fh.path).openCount = 0 := by
      rw [entry, hfind]
      rfl
    have hmem := mem_handlesOf hfh
    rw [h.handlesOf_eq_nil hzero] at hmem
    exact absurd hmem List.not_mem_nil

/-- The release of the last writable handle leaves no lock. -/
theorem Counted.lockCount_of_last {fs : SquidFS} {fh : FileHandle} {e : CacheEntry}
    (h : Counted fh.path fs) (hfind : fs.find fh.path = some e) (hwritable : fh.writable = true)
    (hlast : (fs.writersOf fh.path).length = 1) : (closed e fh.writable).lockCount = 0 := by
  have hlock : e.lockCount = 1 := by
    rw [← entry_eq hfind, h.writers, hlast]
  rw [closed_lockCount, hlock, hwritable, if_pos rfl]

/-- A release that leaves no handle, but is not that of the last writable one, is
the release of the only, read-only handle. -/
theorem Counted.only_reader {fs : SquidFS} {fh : FileHandle} {e : CacheEntry}
    (h : Counted fh.path fs) (hfh : fh ∈ fs.handles) (hfind : fs.find fh.path = some e)
    (hnot : ¬ (fh.writable = true ∧ (closed e fh.writable).lockCount = 0))
    (hopen : (closed e fh.writable).openCount = 0) :
    fh.writable = false ∧ e.openCount = 1 := by
  have hopens : e.openCount = (fs.handlesOf fh.path).length := by
    rw [← h.opens, entry_eq hfind]
  have hlocks : e.lockCount = (fs.writersOf fh.path).length := by
    rw [← h.writers, entry_eq hfind]
  have hpos := List.length_pos_of_mem (mem_handlesOf hfh)
  have hle : (fs.writersOf fh.path).length ≤ (fs.handlesOf fh.path).length :=
    List.length_filter_le _ _
  rw [closed_openCount] at hopen
  rw [closed_lockCount] at hnot
  refine ⟨?_, by omega⟩
  cases hwritable : fh.writable with
  | false => rfl
  | true =>
    rw [hwritable, if_pos rfl] at hnot
    exact absurd ⟨rfl, by omega⟩ hnot

theorem Counted.opRelease {fs : SquidFS} (fh : FileHandle) (h : Counted fh.path fs) :
    Sound fh.path (fs.opRelease fh).1 := by
  rw [SquidFS.opRelease]
  split
  · exact h.leave _
  · rename_i hopen
    have hfh : fh ∈ fs.handles := not_not.mp hopen
    obtain ⟨e, hentry⟩ := h.find_eq_some hfh
    have hfind : ({ fs with handles := fs.handles.erase fh } : SquidFS).find fh.path = some e :=
      hentry
    have hdrop := h.dropHandle hfh
    rw [entry_eq hentry] at hdrop
    dsimp only
    rw [hfind]
    dsimp only
    split
    · split
      · exact hdrop.await (by simp [Window.unopened])
      · exact hdrop.await (by simp [Window.unopened])
    · exact hdrop.eraseUnopened.leave _

theorem Counted.fetchIntoCache {p : Bytes} {fs fs' : SquidFS} {reply : Message × Bytes}
    (h : Counted p fs) (hfetch : fs.fetchIntoCache p reply = some fs') : Counted p fs' := by
  rw [SquidFS.fetchIntoCache] at hfetch
  split at hfetch
  · simp at hfetch
  · obtain rfl := Option.some.inj hfetch
    exact h.setEntry rfl rfl

theorem Counted.flushed {p : Bytes} {fs : SquidFS} (h : Counted p fs) (ack : Message) :
    Counted p (fs.flushed p ack) := by
  rw [SquidFS.flushed]
  split
  · exact h
  · rename_i e hfind
    exact h.update hfind rfl rfl

/-- An operation elsewhere does not matter to `p`. -/
theorem Sound.elsewhere {p r : Bytes} {fs : SquidFS} {o : SquidFS × Option OpResult}
    (h : Counted p fs) (hconfined : Confined r fs o) (hp : p ≠ r) : Sound p o.1 :=
  ⟨h.elsewhere hconfined.onlyAt hp, fun hpath => absurd (hconfined.thread p hpath) hp⟩

theorem Counted.call {p : Bytes} {fs : SquidFS} (h : Counted p fs) (op : FsOp) :
    Sound p (fs.call op).1 := by
  by_cases hp : p = op.path
  swap
  · exact Sound.elsewhere h (confined_call fs op) hp
  subst hp
  cases op with
  | opCreate path flags =>
    show Sound path (fs.opCreate path flags).1
    rw [SquidFS.opCreate]
    split
    · exact h.leave _
    · split
      · exact ⟨h.congr rfl rfl, fun hpath => by simp [FuseThread.path] at hpath⟩
      · -- a path that is not cached has no handles
        rename_i hnone
        refine ⟨h.congr rfl rfl, fun _ _ => ?_⟩
        have hfind : fs.find path = none := by simpa using hnone
        refine h.handlesOf_eq_nil ?_
        show (fs.entry path).openCount = 0
        rw [entry, hfind]
        rfl
  | opOpen path flags => exact h.opOpen flags
  | opRead path size offset =>
    show Sound path (fs.opRead path size offset).1
    rw [SquidFS.opRead]
    split
    · exact h.touch.await (by simp [Window.unopened])
    · exact h.leave _
  | opWrite path buf offset =>
    show Sound path (fs.opWrite path buf offset).1
    rw [SquidFS.opWrite]
    split
    · exact h.leave _
    · rename_i e hfind
      refine (h.update hfind ?_ ?_).leave _
      · rfl
      · rfl
  | opTruncate path size =>
    show Sound path (fs.opTruncate path size).1
    rw [SquidFS.opTruncate]
    split
    · exact h.leave _
    · rename_i e hfind
      refine (h.update hfind ?_ ?_).leave _
      · rfl
      · rfl
  | opRelease fh => exact Counted.opRelease fh h

theorem Sound.returns {p : Bytes} {fs : SquidFS} {w : Window} (h : Sound p fs)
    (hthread : fs.thread = .calling w) (reply : Message × Bytes) : Sound p (fs.returns w reply) := by
  refine ⟨h.counted.congr (find_returns fs w reply p) (handlesOf_returns fs w reply p), ?_⟩
  intro hpath hw
  rw [handlesOf_returns]
  refine h.unopened ?_ ?_
  · rw [hthread]
    exact hpath
  · rw [hthread]
    exact hw

theorem Sound.createUncached {p path : Bytes} {fs : SquidFS} {flags : OpenFlags} (h : Sound p fs)
    (hthread : fs.thread = .lookup path flags) : Sound p (fs.createUncached path flags).1 := by
  by_cases hp : p = path
  swap
  · exact Sound.elsewhere h.counted (confined_createUncached fs path flags) hp
  subst hp
  rw [SquidFS.createUncached]
  split
  · exact h.counted.opOpen flags
  · refine h.counted.await fun _ => h.unopened ?_ ?_
    · rw [hthread]
      rfl
    · rw [hthread]
      rfl

theorem Sound.resume {p : Bytes} {fs : SquidFS} {w : Window} {reply : Message × Bytes}
    (h : Sound p fs) (hthread : fs.thread = .returned w reply) :
    Sound p (fs.resume w reply).1 := by
  by_cases hp : p = w.path
  swap
  · exact Sound.elsewhere h.counted (confined_resume fs w reply) hp
  subst hp
  have hcounted := h.counted
  have hunopened : w.unopened = true → fs.handlesOf w.path = [] := fun hw =>
    h.unopened (by rw [hthread]; rfl) (by rw [hthread]; exact hw)
  cases w with
  | openLock path flags =>
    simp only [SquidFS.resume]
    split
    · exact hcounted.eraseUnopened.leave _
    · split
      · exact hcounted.leave _
      · exact hcounted.openLocked flags
  | openFetch path flags =>
    simp only [SquidFS.resume]
    split
    · rename_i fetched hfetch
      exact (hcounted.fetchIntoCache hfetch).openFinish flags
    · split
      · exact hcounted.await (by simp [Window.unopened])
      · exact hcounted.eraseUnopened.leave _
  | openAbort path => exact hcounted.eraseUnopened.leave _
  | createFile path =>
    simp only [SquidFS.resume]
    split
    · exact hcounted.leave _
    · exact hcounted.await fun _ => hunopened rfl
  | createLock path version =>
    simp only [SquidFS.resume]
    split
    · exact hcounted.await (by simp [Window.unopened])
    · exact Counted.createFinish (hunopened rfl) version
  | createAbort path => exact hcounted.leave _
  | readFetch path size offset =>
    simp only [SquidFS.resume]
    split
    · rename_i fetched hfetch
      exact (hcounted.fetchIntoCache hfetch).leave _
    · exact hcounted.leave _
  | releaseOrphan path => exact hcounted.leave _
  | releaseUpdate path data version =>
    exact (hcounted.flushed reply.1).await (by simp [Window.unopened])
  | releaseUnlock path => exact hcounted.eraseUnopened.leave _
  | unlink path =>
    simp only [SquidFS.resume]
    split
    · exact hcounted.leave _
    · exact (Counted.erase (hunopened rfl)).leave _

/-! ### What a push does -/

/-- A push that takes the entry of `p` out. -/
def Deletes (p : Bytes) (msg : Message) : Prop :=
  msg.opcode = .pushDeleteFile ∧ msg.getString .filePath = p

theorem thread_handlePush (fs : SquidFS) (msg : Message) (data : Bytes) :
    (fs.handlePush msg data).thread = fs.thread ∧
      (fs.handlePush msg data).handles = fs.handles := by
  simp only [handlePush, pushHandler]
  repeat' split
  all_goals exact ⟨rfl, rfl⟩

/-- A push that creates or updates a file fills the entry where it is clean. -/
theorem find_pushHandler_upsert (fs : SquidFS) (msg : Message) (data p : Bytes)
    (hop : msg.opcode = .pushCreateFile ∨ msg.opcode = .pushUpdateFile) :
    (fs.pushHandler msg data).find p = if msg.getString .filePath = p then some
        (if !(fs.entry p).dirty then
          { fs.entry p with data := data, version := toInt32 (msg.getUint32 .fileVersion 0) }
        else fs.entry p)
      else fs.find p := by
  have heq : (fs.pushHandler msg data).find p
      = (fs.setEntry (msg.getString .filePath) (if !(fs.entry (msg.getString .filePath)).dirty then
          { fs.entry (msg.getString .filePath) with
            data := data, version := toInt32 (msg.getUint32 .fileVersion 0) }
        else fs.entry (msg.getString .filePath))).find p := by
    rcases hop with hop | hop
    · simp only [pushHandler, hop]
      rfl
    · simp only [pushHandler, hop]
      rfl
  rw [heq, find_setEntry]
  by_cases hp : msg.getString .filePath = p
  · rw [if_pos hp, if_pos hp, hp]
  · rw [if_neg hp, if_neg hp]

/-- The other opcodes do not reach the cache. -/
theorem handlePush_other (fs : SquidFS) {msg : Message} (data : Bytes)
    (hcreate : msg.opcode ≠ .pushCreateFile) (hupdate : msg.opcode ≠ .pushUpdateFile)
    (hdelete : msg.opcode ≠ .pushDeleteFile) : fs.handlePush msg data = fs := by
  have hhandler : fs.pushHandler msg [] = fs := by
    simp only [pushHandler]
    split
    · exact absurd ‹msg.opcode = .pushCreateFile› hcreate
    · exact absurd ‹msg.opcode = .pushUpdateFile› hupdate
    · exact absurd ‹msg.opcode = .pushDeleteFile› hdelete
    · rfl
  simp only [handlePush]
  split
  · exact absurd ‹msg.opcode = .pushCreateFile› hcreate
  · exact absurd ‹msg.opcode = .pushUpdateFile› hupdate
  · exact absurd ‹msg.opcode = .pushDeleteFile› hdelete
  · exact hhandler
  · exact hhandler
  · rfl

/-- What `p` has after a push: nothing, what it had, or the entry it had with the
data of the push if it was clean. -/
theorem find_handlePush (fs : SquidFS) (msg : Message) (data p : Bytes) :
    (Deletes p msg ∧ (fs.handlePush msg data).find p = none) ∨
      (fs.handlePush msg data).find p = fs.find p ∨
      ∃ version, (fs.handlePush msg data).find p = some
        (if !(fs.entry p).dirty then { fs.entry p with data := data, version := version }
          else fs.entry p) := by
  have hupsert : (msg.opcode = .pushCreateFile ∨ msg.opcode = .pushUpdateFile) →
      (fs.handlePush msg data).find p = (fs.pushHandler msg data).find p := by
    intro hop
    have hpush : fs.handlePush msg data = (if msg.getString .filePath ≠ []
        then fs.setFileVersion (msg.getString .filePath) (toInt32 (msg.getUint32 .fileVersion 0))
        else fs).pushHandler msg data := by
      rcases hop with hop | hop
      · simp only [handlePush, hop]
        rfl
      · simp only [handlePush, hop]
        rfl
    rw [hpush]
    split
    · rw [find_pushHandler_upsert _ msg data p hop, find_pushHandler_upsert fs msg data p hop]
      rfl
    · rfl
  by_cases hop : msg.opcode = .pushCreateFile ∨ msg.opcode = .pushUpdateFile
  · right
    rw [hupsert hop, find_pushHandler_upsert fs msg data p hop]
    by_cases hp : msg.getString .filePath = p
    · rw [if_pos hp]
      exact Or.inr ⟨_, rfl⟩
    · rw [if_neg hp]
      exact Or.inl rfl
  · by_cases hdel : msg.opcode = .pushDeleteFile
    · have hfind : (fs.handlePush msg data).find p = (fs.erase (msg.getString .filePath)).find p := by
        simp only [handlePush, pushHandler, hdel]
        by_cases hpath : msg.getString .filePath = []
        · simp only [hpath]
          rfl
        · simp only [ne_eq, hpath]
          rfl
      rw [hfind, find_erase]
      by_cases hp : msg.getString .filePath = p
      · rw [if_pos hp]
        exact Or.inl ⟨⟨hdel, hp⟩, rfl⟩
      · rw [if_neg hp]
        exact Or.inr (Or.inl rfl)
    · rw [not_or] at hop
      rw [handlePush_other fs data hop.1 hop.2 hdel]
      exact Or.inr (Or.inl rfl)

theorem handlesOf_handlePush (fs : SquidFS) (msg : Message) (data p : Bytes) :
    (fs.handlePush msg data).handlesOf p = fs.handlesOf p :=
  congrArg (List.filter _) (thread_handlePush fs msg data).2

theorem Counted.handlePush {p : Bytes} {fs : SquidFS} {msg : Message} (h : Counted p fs)
    (data : Bytes) (hdel : Deletes p msg → fs.handlesOf p = []) :
    Counted p (fs.handlePush msg data) := by
  have hhandles := handlesOf_handlePush fs msg data p
  rcases find_handlePush fs msg data p with ⟨hdeletes, hfind⟩ | hfind | ⟨version, hfind⟩
  · exact of_absent (hhandles.trans (hdel hdeletes)) hfind
  · exact h.congr hfind hhandles
  · have hcounts : (fs.handlePush msg data).entry p = (if !(fs.entry p).dirty then
        { fs.entry p with data := data, version := version } else fs.entry p) := entry_eq hfind
    refine ⟨?_, ?_⟩
    · rw [hcounts, hhandles, ← h.opens]
      split <;> rfl
    · rw [hcounts, writersOf, hhandles, ← writersOf, ← h.writers]
      split <;> rfl

theorem Sound.handlePush {p : Bytes} {fs : SquidFS} {msg : Message} (h : Sound p fs)
    (data : Bytes) (hdel : Deletes p msg → fs.handlesOf p = []) :
    Sound p (fs.handlePush msg data) := by
  refine ⟨h.counted.handlePush data hdel, fun hpath hunopened => ?_⟩
  rw [(thread_handlePush fs msg data).1] at hpath hunopened
  rw [handlesOf_handlePush]
  exact h.unopened hpath hunopened

end SquidFS

end Squid
