/-
The callbacks of the mount, with every lock and unlock of `cacheMutex_` written out.

`SquidFS` cuts the file operations at the calls to the server and takes the mutex for
granted.  Here each of the eleven callbacks is the program that the FUSE thread runs:
where it locks, drops and retakes the mutex, what it asks the server, and what it reads
without the mutex.  The session's thread handles pushes whenever the mutex is free
(`others`); what the server replies and what is pushed are inputs (`Surroundings`).

* `leaves_fetchIntoCache`, `leaves_opOpen`, …, `leaves_opRelease` — the discipline of one
  program each, from the rules of `ScopedLock`;
* `opCreate_cached` — `op_create` of a cached path calls `op_open` under its own guard;
* `mutex_discipline_iff` — every callback returns with the mutex released, but for this
  one case.
-/
import SquidStorage.DirectoryListing
import SquidStorage.FileVersions
import SquidStorage.ScopedLock

open BigEndian PathNames ScopedLock

namespace Squid

/-! ### The thread and what surrounds it -/

/-- What the server replies to the `n`-th call, and what is pushed at the `n`-th time
that the mutex is free. -/
structure Surroundings where
  reply : ℕ → Message × Bytes
  pushes : ℕ → List (Message × Bytes)

/-- The mount in its surroundings. -/
structure FuseState where
  mount : FuseMount
  around : Surroundings
  calls : ℕ := 0
  pauses : ℕ := 0

abbrev FuseM (α : Type) : Type := Prog FuseState α

namespace FuseMount

/-- An operation on the cache or on the version map. -/
def onFS (m : FuseMount) (f : SquidFS → SquidFS) : FuseMount :=
  { m with toSquidFS := f m.toSquidFS }

/-- The pushes are handled one after the other. -/
def handlePushes (m : FuseMount) (pushes : List (Message × Bytes)) : FuseMount :=
  pushes.foldl (fun m push => m.onFS fun fs => fs.handlePush push.1 push.2) m

end FuseMount

namespace FuseM

/-- Read from the mount. -/
def look {α : Type} (f : FuseMount → α) : FuseM α := onState fun s => (f s.mount, s)

/-- Change the mount. -/
def change (f : FuseMount → FuseMount) : FuseM Unit :=
  onState fun s => ((), { s with mount := f s.mount })

/-- Change the cache or the version map. -/
def changeFS (f : SquidFS → SquidFS) : FuseM Unit := change fun m => m.onFS f

/-- The session's thread has the mutex for a while. -/
def others : FuseM Unit := onState fun s =>
  ((), { s with mount := s.mount.handlePushes (s.around.pushes s.pauses), pauses := s.pauses + 1 })

/-- Read from the mount while the mutex is free. -/
def peek {α : Type} (f : FuseMount → α) : FuseM α := do
  let a ← look f
  others
  pure a

/-- The next reply of the server, once the client has noted its version. -/
def answer (request : Rpc) : FuseM (Message × Bytes) := onState fun s =>
  let reply := s.around.reply s.calls
  (reply, { s with
    mount := s.mount.onFS fun fs => fs.noteReply reply.1 request
    calls := s.calls + 1 })

/-- A call to the server. -/
def rpc (request : Rpc) : FuseM (Message × Bytes) := do
  let reply ← answer request
  others
  pure reply

/-- `std::lock_guard<std::mutex> lk(cacheMutex_)` with the rest of its scope. -/
def guarded {α : Type} (x : FuseM α) : FuseM α := do
  let a ← lockGuard x
  others
  pure a

/-- `lock.unlock()`. -/
def dropLock : FuseM Unit := do
  drop
  others

/-- `lock.unlock()`, a call to the server, `lock.lock()`. -/
def unlockedRpc (request : Rpc) : FuseM (Message × Bytes) := do
  dropLock
  let reply ← rpc request
  retake
  pure reply

end FuseM

open FuseM

/-! ### Attributes and directories -/

/-- What `op_getattr` writes: a directory, or a file of some size. -/
inductive Stat where
  | dir
  | file (size : ℕ)
deriving DecidableEq, Repr

/-- The error codes of the operations on names. -/
inductive NameErrno where
  | enoent
  | eexist
  | enotempty
deriving DecidableEq, Repr

/-- `SquidFS::rel`. -/
def rel (path : Bytes) : Bytes :=
  match path with
  | b :: p => if b = slash then p else b :: p
  | [] => []

/-- `SquidFS::op_getattr`. -/
def opGetattr (path : Bytes) : FuseM (Except NameErrno Stat) := do
  if path = [slash] then pure (.ok .dir)
  else
    let r := rel path
    match ← guarded (look fun m => m.find r) with
    | some entry => pure (.ok (.file entry.data.length))
    | none =>
      if ← peek fun m => m.isKnownDir r then pure (.ok .dir)
      else
        let localVersion ← peek fun m => m.getFileVersion r
        if localVersion < 0 then pure (.error .enoent) else pure (.ok (.file 0))

/-- The name of a child without the slash of a directory. -/
def dirent (child : Bytes) : Bytes :=
  if child ≠ [] ∧ child.getLast? = some slash then child.dropLast else child

/-- `SquidFS::op_readdir`: the names that go to `filler`. -/
def opReaddir (path : Bytes) : FuseM (Except NameErrno (List Bytes)) := do
  let dirRel := rel path
  let known ← peek fun m => m.isKnownDir dirRel
  if dirRel ≠ [] ∧ known = false then pure (.error .enoent)
  else
    let children ← peek fun m => m.listChildren dirRel
    pure (.ok ([0x2e] :: [0x2e, 0x2e] :: children.toList.map dirent))

/-- The check of `op_mkdir` for the parent, which is skipped below the root. -/
def FuseMount.lacksParent (m : FuseMount) (r : Bytes) : Bool :=
  match splitLast slash r with
  | some (parent, _) => !m.isKnownDir parent
  | none => false

/-- `SquidFS::op_mkdir`. -/
def opMkdir (path : Bytes) : FuseM (Except NameErrno Unit) := do
  let r := rel path
  if r = [] then pure (.ok ())
  else
    let localVersion ← peek fun m => m.getFileVersion r
    if 0 ≤ localVersion then pure (.error .eexist)
    else
      if ← peek fun m => m.lacksParent r then pure (.error .enoent)
      else
        change fun m => { m with createdDirs := m.createdDirs.insert r }
        pure (.ok ())

/-- `SquidFS::op_rmdir`. -/
def opRmdir (path : Bytes) : FuseM (Except NameErrno Unit) := do
  let dirRel := rel path
  let known ← peek fun m => m.isKnownDir dirRel
  if !known then pure (.error .enoent)
  else
    let children ← peek fun m => m.listChildren dirRel
    if !children.isEmpty then pure (.error .enotempty) else pure (.ok ())

/-! ### Files -/

/-- `SquidFS::fetchIntoCache`: the error code, if there is one. -/
def fetchIntoCache (relPath : Bytes) : FuseM (Option Errno) := do
  let reply ← unlockedRpc (.readFile relPath)
  if !reply.1.isAck then pure (some .eio)
  else
    changeFS fun fs => fs.setEntry relPath { fs.entry relPath with
      data := reply.2
      version := toInt32 (reply.1.getUint32 .fileVersion 0)
      dirty := false }
    pure none

/-- `op_open`: the contents are fetched for the first handle. -/
def fetchFirst (r : Bytes) : FuseM (Option Errno) := do
  changeFS fun fs => fs.touch r
  let entry ← look fun m => m.entry r
  if entry.openCount = 0 then fetchIntoCache r else pure none

/-- `if (writable) { lock.unlock(); client_.releaseLock(r); lock.lock(); }`. -/
def releaseIf (writable : Bool) (r : Bytes) : FuseM Unit :=
  if writable then do
    let _ ← unlockedRpc (.releaseLock r)
    pure ()
  else pure ()

/-- The end of `op_open`, from the fetch on. -/
def openLocked (r : Bytes) (flags : OpenFlags) : FuseM OpResult := do
  match ← fetchFirst r with
  | some rc =>
    releaseIf flags.writable r
    changeFS fun fs => fs.eraseUnopened r
    pure (.failed rc)
  | none =>
    let fh : FileHandle := ⟨r, flags.writable⟩
    changeFS fun fs =>
      let fs := fs.setEntry r (SquidFS.opened (fs.entry r) flags)
      { fs with handles := fh :: fs.handles }
    pure (.opened fh)

/-- `SquidFS::op_open`. -/
def opOpen (path : Bytes) (flags : OpenFlags) : FuseM OpResult := do
  let r := rel path
  if r = [] then pure (.failed .eisdir)
  else
    uniqueLock do
      changeFS fun fs => fs.touch r
      let entry ← look fun m => m.entry r
      if flags.writable ∧ entry.lockCount = 0 then
        let ack ← unlockedRpc (.acquireLock r)
        let it ← look fun m => m.find r
        if !ack.1.isAck then
          changeFS fun fs => fs.eraseUnopened r
          pure (.failed .eacces)
        else if it.isNone then pure (.failed .eio)
        else openLocked r flags
      else openLocked r flags

/-- `op_create` of a path that is neither cached nor known. -/
def createNew (r : Bytes) : FuseM OpResult := do
  let cAck ← rpc (.createFile r 0 [])
  if !cAck.1.isAck then pure (.failed .eio)
  else
    let lAck ← rpc (.acquireLock r)
    if !lAck.1.isAck then
      let _ ← rpc (.deleteFile r)
      pure (.failed .eacces)
    else
      guarded (changeFS fun fs => fs.setEntry r
        { data := []
          version := toInt32 (cAck.1.getUint32 .fileVersion 0)
          dirty := false
          lockCount := 1
          openCount := 1 })
      changeFS fun fs => { fs with handles := ⟨r, true⟩ :: fs.handles }
      pure (.opened ⟨r, true⟩)

/-- The look of `op_create` into the cache, and the `op_open` of a path that is there. -/
def delegate (path : Bytes) (flags : OpenFlags) : FuseM (Option OpResult) := do
  if (← look fun m => m.find (rel path)).isSome then
    let result ← opOpen path flags
    pure (some result)
  else pure none

/-- `SquidFS::op_create`.  The guard of the look into the cache is still there while
`op_open` runs for a path that is cached. -/
def opCreate (path : Bytes) (flags : OpenFlags) : FuseM OpResult := do
  let r := rel path
  if r = [] then pure (.failed .einval)
  else
    match ← guarded (delegate path flags) with
    | some result => pure result
    | none =>
      let localVersion ← peek fun m => m.getFileVersion r
      if 0 ≤ localVersion then opOpen path flags else createNew r

/-- `SquidFS::op_read`. -/
def opRead (path : Bytes) (size offset : ℕ) : FuseM OpResult := do
  let r := rel path
  uniqueLock do
    let entry ← look fun m => m.entry r
    if entry.data = [] then
      changeFS fun fs => fs.touch r
      match ← fetchIntoCache r with
      | some rc => pure (.failed rc)
      | none =>
        match ← look fun m => m.find r with
        | none => pure (.failed .eio)
        | some e => pure (.read (ByteFile.copyOut e.data size offset))
    else pure (.read (ByteFile.copyOut entry.data size offset))

/-- `SquidFS::op_write`. -/
def opWrite (path buf : Bytes) (offset : ℕ) : FuseM OpResult := do
  let r := rel path
  lockGuard do
    match ← look fun m => m.find r with
    | none => pure (.failed .ebadf)
    | some e =>
      changeFS fun fs => fs.setEntry r
        { e with data := ByteFile.overwrite 0 e.data offset buf, dirty := true }
      pure (.written buf.length)

/-- The flush of the last writable handle in `op_release`; the mutex is dropped at the
end of either branch. -/
def writeBack (r : Bytes) (entry : CacheEntry) : FuseM Unit := do
  if entry.dirty then
    let ack ← unlockedRpc (.updateFile r entry.version entry.data)
    changeFS fun fs => fs.flushed r ack.1
    dropLock
  else dropLock

/-- What `op_release` does for the last writable handle. -/
def closeLast (last : Bool) (r : Bytes) (entry : CacheEntry) : FuseM Unit :=
  if last then do
    writeBack r entry
    let _ ← rpc (.releaseLock r)
    retake
  else pure ()

/-- `SquidFS::op_release`; a handle that is not open is a null `fi->fh`. -/
def opRelease (fh : FileHandle) : FuseM OpResult := do
  let handles ← look fun m => m.handles
  if fh ∉ handles then pure .done
  else
    changeFS fun fs => { fs with handles := fs.handles.erase fh }
    uniqueLock do
      match ← look fun m => m.find fh.path with
      | none =>
        releaseIf fh.writable fh.path
        pure .done
      | some e =>
        let e := SquidFS.closed e fh.writable
        changeFS fun fs => fs.setEntry fh.path e
        closeLast (fh.writable && e.lockCount == 0) fh.path e
        changeFS fun fs => fs.eraseUnopened fh.path
        pure .done

/-- `SquidFS::op_unlink`. -/
def opUnlink (path : Bytes) : FuseM OpResult := do
  let r := rel path
  let ack ← rpc (.deleteFile r)
  if !ack.1.isAck then pure (.failed .eio)
  else
    lockGuard (changeFS fun fs => fs.erase r)
    pure .done

/-- `SquidFS::op_truncate`. -/
def opTruncate (path : Bytes) (size : ℕ) : FuseM OpResult := do
  let r := rel path
  lockGuard do
    match ← look fun m => m.find r with
    | none => pure (.failed .enoent)
    | some e =>
      changeFS fun fs => fs.setEntry r
        { e with data := ByteFile.resize 0 e.data size, dirty := true }
      pure .done

/-! ### The callbacks together -/

/-- A call by FUSE. -/
inductive Callback where
  | getattr (path : Bytes)
  | readdir (path : Bytes)
  | mkdir (path : Bytes)
  | rmdir (path : Bytes)
  | openFile (path : Bytes) (flags : OpenFlags)
  | create (path : Bytes) (flags : OpenFlags)
  | read (path : Bytes) (size offset : ℕ)
  | write (path buf : Bytes) (offset : ℕ)
  | release (fh : FileHandle)
  | unlink (path : Bytes)
  | truncate (path : Bytes) (size : ℕ)

/-- What a callback returns. -/
inductive CallbackResult where
  | stat (result : Except NameErrno Stat)
  | names (result : Except NameErrno (List Bytes))
  | name (result : Except NameErrno Unit)
  | op (result : OpResult)

def Callback.program : Callback → FuseM CallbackResult
  | .getattr path => .stat <$> opGetattr path
  | .readdir path => .names <$> opReaddir path
  | .mkdir path => .name <$> opMkdir path
  | .rmdir path => .name <$> opRmdir path
  | .openFile path flags => .op <$> opOpen path flags
  | .create path flags => .op <$> opCreate path flags
  | .read path size offset => .op <$> opRead path size offset
  | .write path buf offset => .op <$> opWrite path buf offset
  | .release fh => .op <$> opRelease fh
  | .unlink path => .op <$> opUnlink path
  | .truncate path size => .op <$> opTruncate path size

/-! ### The discipline of each program -/

section Discipline

variable {α : Type} (h : Hold) (r path : Bytes) (flags : OpenFlags)

theorem leaves_look (f : FuseMount → α) : Leaves h (look f) h := leaves_onState _ h

theorem leaves_changeFS (f : SquidFS → SquidFS) : Leaves h (changeFS f) h := leaves_onState _ h

theorem leaves_others : Leaves h others h := leaves_onState _ h

theorem leaves_peek (f : FuseMount → α) : Leaves h (peek f) h :=
  (leaves_look h f).bind fun a => (leaves_others h).bind fun _ => leaves_pure a h

theorem leaves_rpc (request : Rpc) : Leaves h (rpc request) h :=
  (leaves_onState _ h).bind fun reply => (leaves_others h).bind fun _ => leaves_pure reply h

theorem leaves_guarded {x : FuseM α} (hx : Leaves .guarded x .guarded) :
    Leaves .free (guarded x) .free :=
  hx.lockGuard.bind fun a => (leaves_others _).bind fun _ => leaves_pure a _

theorem leaves_dropLock : Leaves .owned dropLock .free :=
  leaves_drop.bind fun _ => leaves_others _

theorem leaves_unlockedRpc (request : Rpc) : Leaves .owned (unlockedRpc request) .owned :=
  leaves_dropLock.bind fun _ => (leaves_rpc _ request).bind fun reply =>
    leaves_retake.bind fun _ => leaves_pure reply _

theorem leaves_opGetattr : Leaves .free (opGetattr path) .free := by
  refine Leaves.ite (fun _ => leaves_pure _ _) fun _ => ?_
  refine (leaves_guarded (leaves_look _ _)).bind fun hit => ?_
  cases hit with
  | some entry => exact leaves_pure _ _
  | none =>
    refine (leaves_peek _ _).bind fun known => ?_
    refine Leaves.ite (fun _ => leaves_pure _ _) fun _ => ?_
    refine (leaves_peek _ _).bind fun localVersion => ?_
    exact Leaves.ite (fun _ => leaves_pure _ _) fun _ => leaves_pure _ _

theorem leaves_opReaddir : Leaves .free (opReaddir path) .free := by
  refine (leaves_peek _ _).bind fun known => ?_
  refine Leaves.ite (fun _ => leaves_pure _ _) fun _ => ?_
  exact (leaves_peek _ _).bind fun children => leaves_pure _ _

theorem leaves_opMkdir : Leaves .free (opMkdir path) .free := by
  refine Leaves.ite (fun _ => leaves_pure _ _) fun _ => ?_
  refine (leaves_peek _ _).bind fun localVersion => ?_
  refine Leaves.ite (fun _ => leaves_pure _ _) fun _ => ?_
  refine (leaves_peek _ _).bind fun orphan => ?_
  refine Leaves.ite (fun _ => leaves_pure _ _) fun _ => ?_
  exact (leaves_onState _ _).bind fun _ => leaves_pure _ _

theorem leaves_opRmdir : Leaves .free (opRmdir path) .free := by
  refine (leaves_peek _ _).bind fun known => ?_
  refine Leaves.ite (fun _ => leaves_pure _ _) fun _ => ?_
  refine (leaves_peek _ _).bind fun children => ?_
  exact Leaves.ite (fun _ => leaves_pure _ _) fun _ => leaves_pure _ _

theorem leaves_fetchIntoCache : Leaves .owned (fetchIntoCache r) .owned := by
  refine (leaves_unlockedRpc _).bind fun reply => ?_
  refine Leaves.ite (fun _ => leaves_pure _ _) fun _ => ?_
  exact (leaves_changeFS _ _).bind fun _ => leaves_pure _ _

theorem leaves_fetchFirst : Leaves .owned (fetchFirst r) .owned := by
  refine (leaves_changeFS _ _).bind fun _ => ?_
  refine (leaves_look _ _).bind fun entry => ?_
  exact Leaves.ite (fun _ => leaves_fetchIntoCache r) fun _ => leaves_pure _ _

theorem leaves_releaseIf (writable : Bool) : Leaves .owned (releaseIf writable r) .owned := by
  refine Leaves.ite (fun _ => ?_) fun _ => leaves_pure _ _
  exact (leaves_unlockedRpc _).bind fun _ => leaves_pure _ _

theorem leaves_openLocked : Leaves .owned (openLocked r flags) .owned := by
  refine (leaves_fetchFirst r).bind fun failed => ?_
  cases failed with
  | none => exact (leaves_changeFS _ _).bind fun _ => leaves_pure _ _
  | some rc =>
    refine (leaves_releaseIf r flags.writable).bind fun _ => ?_
    exact (leaves_changeFS _ _).bind fun _ => leaves_pure _ _

theorem leaves_opOpen : Leaves .free (opOpen path flags) .free := by
  refine Leaves.ite (fun _ => leaves_pure _ _) fun _ => Leaves.uniqueLock ?_
  refine (leaves_changeFS _ _).bind fun _ => ?_
  refine (leaves_look _ _).bind fun entry => ?_
  refine Leaves.ite (fun _ => ?_) fun _ => leaves_openLocked _ flags
  refine (leaves_unlockedRpc _).bind fun ack => ?_
  refine (leaves_look _ _).bind fun it => ?_
  refine Leaves.ite (fun _ => ?_) fun _ => ?_
  · exact (leaves_changeFS _ _).bind fun _ => leaves_pure _ _
  · exact Leaves.ite (fun _ => leaves_pure _ _) fun _ => leaves_openLocked _ flags

theorem leaves_createNew : Leaves .free (createNew r) .free := by
  refine (leaves_rpc _ _).bind fun cAck => ?_
  refine Leaves.ite (fun _ => leaves_pure _ _) fun _ => ?_
  refine (leaves_rpc _ _).bind fun lAck => ?_
  refine Leaves.ite (fun _ => ?_) fun _ => ?_
  · exact (leaves_rpc _ _).bind fun _ => leaves_pure _ _
  · refine (leaves_guarded (leaves_changeFS _ _)).bind fun _ => ?_
    exact (leaves_changeFS _ _).bind fun _ => leaves_pure _ _

theorem leaves_opRead (size offset : ℕ) : Leaves .free (opRead path size offset) .free := by
  refine Leaves.uniqueLock ?_
  refine (leaves_look _ _).bind fun entry => ?_
  refine Leaves.ite (fun _ => ?_) fun _ => leaves_pure _ _
  refine (leaves_changeFS _ _).bind fun _ => ?_
  refine (leaves_fetchIntoCache _).bind fun failed => ?_
  cases failed with
  | some rc => exact leaves_pure _ _
  | none =>
    refine (leaves_look _ _).bind fun it => ?_
    cases it with
    | none => exact leaves_pure _ _
    | some e => exact leaves_pure _ _

theorem leaves_opWrite (buf : Bytes) (offset : ℕ) :
    Leaves .free (opWrite path buf offset) .free := by
  refine Leaves.lockGuard ?_
  refine (leaves_look _ _).bind fun it => ?_
  cases it with
  | none => exact leaves_pure _ _
  | some e => exact (leaves_changeFS _ _).bind fun _ => leaves_pure _ _

theorem leaves_opTruncate (size : ℕ) : Leaves .free (opTruncate path size) .free := by
  refine Leaves.lockGuard ?_
  refine (leaves_look _ _).bind fun it => ?_
  cases it with
  | none => exact leaves_pure _ _
  | some e => exact (leaves_changeFS _ _).bind fun _ => leaves_pure _ _

/-- The flush drops the mutex once or twice. -/
theorem leaves_writeBack (entry : CacheEntry) : Leaves .owned (writeBack r entry) .free := by
  refine Leaves.ite (fun _ => ?_) fun _ => leaves_dropLock
  refine (leaves_unlockedRpc _).bind fun ack => ?_
  exact (leaves_changeFS _ _).bind fun _ => leaves_dropLock

theorem leaves_closeLast (last : Bool) (entry : CacheEntry) :
    Leaves .owned (closeLast last r entry) .owned := by
  refine Leaves.ite (fun _ => ?_) fun _ => leaves_pure _ _
  exact (leaves_writeBack r entry).bind fun _ => (leaves_rpc _ _).bind fun _ => leaves_retake

theorem leaves_opRelease (fh : FileHandle) : Leaves .free (opRelease fh) .free := by
  refine (leaves_look _ _).bind fun handles => ?_
  refine Leaves.ite (fun _ => leaves_pure _ _) fun _ => ?_
  refine (leaves_changeFS _ _).bind fun _ => Leaves.uniqueLock ?_
  refine (leaves_look _ _).bind fun it => ?_
  cases it with
  | none => exact (leaves_releaseIf _ _).bind fun _ => leaves_pure _ _
  | some e =>
    refine (leaves_changeFS _ _).bind fun _ => ?_
    refine (leaves_closeLast _ _ _).bind fun _ => ?_
    exact (leaves_changeFS _ _).bind fun _ => leaves_pure _ _

theorem leaves_opUnlink : Leaves .free (opUnlink path) .free := by
  refine (leaves_rpc _ _).bind fun ack => ?_
  refine Leaves.ite (fun _ => leaves_pure _ _) fun _ => ?_
  exact (leaves_changeFS _ _).lockGuard.bind fun _ => leaves_pure _ _

end Discipline

/-! ### `op_create` -/

/-- Under the guard `op_open` waits for the mutex that its own caller holds. -/
theorem delegate_cached {s : FuseState} {path : Bytes} (flags : OpenFlags)
    (hpath : rel path ≠ []) (hcached : (s.mount.find (rel path)).isSome) :
    (delegate path flags).run s .guarded = (.deadlocked, s, .guarded) := by
  have hlook : (look fun m => m.find (rel path)).run s .guarded
      = (.returned (s.mount.find (rel path)), s, .guarded) := rfl
  have hopen : (opOpen path flags).run s .guarded = (.deadlocked, s, .guarded) := by
    rw [opOpen]
    simp only [if_neg hpath]
    exact uniqueLock_held s rfl _
  rw [delegate, bind_returned hlook, if_pos hcached]
  exact bind_deadlocked hopen

theorem delegate_uncached {s : FuseState} {path : Bytes} (flags : OpenFlags)
    (hcached : ¬ (s.mount.find (rel path)).isSome) :
    (delegate path flags).run s .guarded = (.returned none, s, .guarded) := by
  have hlook : (look fun m => m.find (rel path)).run s .guarded
      = (.returned (s.mount.find (rel path)), s, .guarded) := rfl
  rw [delegate, bind_returned hlook, if_neg hcached, return_run]

/-- `op_create` of a cached path deadlocks. -/
theorem opCreate_cached {s : FuseState} {path : Bytes} (flags : OpenFlags)
    (hpath : rel path ≠ []) (hcached : (s.mount.find (rel path)).isSome) :
    (opCreate path flags).run s .free = (.deadlocked, s, .guarded) := by
  have hguard := lockGuard_deadlocked (delegate_cached flags hpath hcached)
  have hscope : (guarded (delegate path flags)).run s .free = (.deadlocked, s, .guarded) :=
    bind_deadlocked hguard
  rw [opCreate]
  simp only [if_neg hpath]
  exact bind_deadlocked hscope

theorem opCreate_returns {s : FuseState} {path : Bytes} (flags : OpenFlags)
    (h : ¬ (rel path ≠ [] ∧ (s.mount.find (rel path)).isSome)) :
    ∃ result t, (opCreate path flags).run s .free = (.returned result, t, .free) := by
  rw [opCreate]
  by_cases hpath : rel path = []
  · simp only [if_pos hpath]
    exact ⟨_, s, rfl⟩
  · simp only [if_neg hpath]
    have hguard := lockGuard_returned (delegate_uncached flags fun hc => h ⟨hpath, hc⟩)
    obtain ⟨_, t, hothers⟩ := leaves_others .free s
    have hscope : (guarded (delegate path flags)).run s .free = (.returned none, t, .free) := by
      rw [guarded, bind_returned hguard, bind_returned hothers, return_run]
    have hrest : Leaves .free (do
        let localVersion ← peek fun m => m.getFileVersion (rel path)
        if 0 ≤ localVersion then opOpen path flags else createNew (rel path)) .free := by
      refine (leaves_peek _ _).bind fun localVersion => ?_
      exact Leaves.ite (fun _ => leaves_opOpen path flags) fun _ => leaves_createNew _
    obtain ⟨result, u, hrun⟩ := hrest t
    exact ⟨result, u, (bind_returned hscope).trans hrun⟩

/-! ### All callbacks -/

/-- The callback is `op_create` of a path that is in the cache. -/
def Callback.CreatesCached (s : FuseState) (callback : Callback) : Prop :=
  ∃ path flags, callback = .create path flags ∧ rel path ≠ [] ∧ (s.mount.find (rel path)).isSome

theorem leaves_program {callback : Callback} (h : ∀ path flags, callback ≠ .create path flags) :
    Leaves .free callback.program .free := by
  cases callback with
  | getattr path => exact (leaves_opGetattr path).map _
  | readdir path => exact (leaves_opReaddir path).map _
  | mkdir path => exact (leaves_opMkdir path).map _
  | rmdir path => exact (leaves_opRmdir path).map _
  | openFile path flags => exact (leaves_opOpen path flags).map _
  | create path flags => exact absurd rfl (h path flags)
  | read path size offset => exact (leaves_opRead path size offset).map _
  | write path buf offset => exact (leaves_opWrite path buf offset).map _
  | release fh => exact (leaves_opRelease fh).map _
  | unlink path => exact (leaves_opUnlink path).map _
  | truncate path size => exact (leaves_opTruncate path size).map _

/-- **The mutex discipline.**  Whatever the caches, the version map, the directories, the
replies and the pushes: a callback that is entered with `cacheMutex_` free locks it only
when it does not hold it, unlocks it only when it does, and returns with it released,
exactly when it is not `op_create` of a cached path. -/
theorem mutex_discipline_iff (s : FuseState) (callback : Callback) :
    (∃ result t, callback.program.run s .free = (.returned result, t, .free))
      ↔ ¬ callback.CreatesCached s := by
  constructor
  · rintro ⟨result, t, hrun⟩ ⟨path, flags, rfl, hpath, hcached⟩
    have hdead : (Callback.create path flags).program.run s .free = (.deadlocked, s, .guarded) :=
      bind_deadlocked (opCreate_cached flags hpath hcached)
    rw [hdead] at hrun
    simp at hrun
  · intro h
    by_cases hcreate : ∃ path flags, callback = .create path flags
    · obtain ⟨path, flags, rfl⟩ := hcreate
      obtain ⟨result, t, hrun⟩ := opCreate_returns flags fun hc =>
        h ⟨path, flags, rfl, hc⟩
      exact ⟨.op result, t, bind_returned hrun⟩
    · refine leaves_program (fun path flags heq => ?_) s
      exact hcreate ⟨path, flags, heq⟩

/-- The path `/f` is in the cache and is opened with `O_CREAT`. -/
theorem create_cached_deadlocks :
    let s : FuseState :=
      { mount := { cache := (∅ : StrMap CacheEntry).insert [102] {} }
        around := { reply := fun _ => ({}, []), pushes := fun _ => [] } }
    let callback : Callback := .create [47, 102] ⟨true, false⟩
    callback.CreatesCached s ∧ (callback.program.run s .free).1 = .deadlocked := by
  intro s callback
  have hpath : rel [47, 102] ≠ [] := by decide
  have hcached : (s.mount.find (rel [47, 102])).isSome := by decide
  refine ⟨⟨[47, 102], ⟨true, false⟩, rfl, hpath, hcached⟩, ?_⟩
  exact congrArg Prod.fst (bind_deadlocked (opCreate_cached _ hpath hcached))

end Squid
