/-
The FUSE layer of the client (`SquidFS`): a write-back cache over the calls of
`Client`.

The FUSE loop has one thread, so one operation is under way at a time.  Each
operation runs under `cacheMutex_` and drops it around its calls to the server;
the pushes of the server are handled by another thread, whenever the mutex is
free.  The model cuts every operation at the points where the mutex is dropped:
`FuseThread` says where the FUSE thread stands, `SquidFS.step` is the machine of
both threads.

`op_create` on a cached path calls `op_open`, which locks `cacheMutex_`, while it
holds that mutex itself: the thread never gets past it (`deadlocked`).
-/
import SquidStorage.ByteFile
import SquidStorage.ClientSession

open BigEndian

namespace Squid

/-! ### The cache -/

/-- `CacheEntry`. -/
structure CacheEntry where
  data : Bytes := []
  dirty : Bool := false
  lockCount : ℕ := 0
  openCount : ℕ := 0
  version : Int32 := 0
deriving DecidableEq, Repr

/-- `FileHandle`, what `fi->fh` points to. -/
structure FileHandle where
  path : Bytes
  writable : Bool
deriving DecidableEq, Repr

/-- What `fi->flags` says: the access mode is not `O_RDONLY`; `O_TRUNC` is set. -/
structure OpenFlags where
  writable : Bool
  trunc : Bool
deriving DecidableEq, Repr

inductive Errno where
  | eisdir | eacces | eio | einval | ebadf | enoent
deriving DecidableEq, Repr

/-- What an operation returns. -/
inductive OpResult where
  | opened (fh : FileHandle)
  | read (bytes : Bytes)
  | written (size : ℕ)
  | done
  | failed (code : Errno)
deriving DecidableEq, Repr

/-- The operations on files, by the path below the mount point. -/
inductive FsOp where
  | opCreate (path : Bytes) (flags : OpenFlags)
  | opOpen (path : Bytes) (flags : OpenFlags)
  | opRead (path : Bytes) (size offset : ℕ)
  | opWrite (path buf : Bytes) (offset : ℕ)
  | opTruncate (path : Bytes) (size : ℕ)
  | opRelease (fh : FileHandle)
deriving DecidableEq, Repr

def FsOp.path : FsOp → Bytes
  | .opCreate path _ | .opOpen path _ | .opRead path _ _ | .opWrite path _ _ | .opTruncate path _ =>
    path
  | .opRelease fh => fh.path

/-- A call to the server during which `cacheMutex_` is not held. -/
inductive Window where
  | openLock (path : Bytes) (flags : OpenFlags)
  | openFetch (path : Bytes) (flags : OpenFlags)
  | openAbort (path : Bytes)
  | createFile (path : Bytes)
  | createLock (path : Bytes) (version : Int32)
  | createAbort (path : Bytes)
  | readFetch (path : Bytes) (size offset : ℕ)
  | releaseOrphan (path : Bytes)
  | releaseUpdate (path data : Bytes) (version : Int32)
  | releaseUnlock (path : Bytes)
  | unlink (path : Bytes)
deriving DecidableEq, Repr

namespace Window

def path : Window → Bytes
  | openLock path _ | openFetch path _ | openAbort path | createFile path | createLock path _
  | createAbort path | readFetch path _ _ | releaseOrphan path | releaseUpdate path _ _
  | releaseUnlock path | unlink path => path

/-- The call that is made. -/
def request : Window → Rpc
  | openLock path _ | createLock path _ => .acquireLock path
  | openFetch path _ | readFetch path _ _ => .readFile path
  | openAbort path | releaseOrphan path | releaseUnlock path => .releaseLock path
  | createFile path => .createFile path 0 []
  | createAbort path | unlink path => .deleteFile path
  | releaseUpdate path data version => .updateFile path version data

/-- In these windows the operation takes it that the path is not open. -/
def unopened : Window → Bool
  | createFile _ | createLock _ _ | unlink _ => true
  | _ => false

end Window

/-- Where the FUSE thread stands.  `lookup`: `op_create` has found the path not
cached and is about to ask for its version; `returned`: a call has returned, the
mutex has not been taken again. -/
inductive FuseThread where
  | idle
  | lookup (path : Bytes) (flags : OpenFlags)
  | calling (w : Window)
  | returned (w : Window) (reply : Message × Bytes)
  | deadlocked
deriving DecidableEq, Repr

/-- The path of the operation under way. -/
def FuseThread.path : FuseThread → Option Bytes
  | idle | deadlocked => none
  | lookup path _ => some path
  | calling w | returned w _ => some w.path

def FuseThread.unopened : FuseThread → Bool
  | idle | deadlocked => false
  | lookup _ _ => true
  | calling w | returned w _ => w.unopened

/-- `SquidFS` with the version map of its `Client` and the file handles that are open. -/
structure SquidFS where
  cache : StrMap CacheEntry := ∅
  versions : StrMap Int32 := ∅
  handles : List FileHandle := []
  thread : FuseThread := .idle

namespace SquidFS

/-- `cache_.find(path)`. -/
def find (fs : SquidFS) (path : Bytes) : Option CacheEntry := fs.cache[path]?

/-- `cache_[path]` as a value. -/
def entry (fs : SquidFS) (path : Bytes) : CacheEntry := (fs.find path).getD {}

def setEntry (fs : SquidFS) (path : Bytes) (e : CacheEntry) : SquidFS :=
  { fs with cache := fs.cache.insert path e }

/-- `cache_[path]` as a reference: the entry is created if there is none. -/
def touch (fs : SquidFS) (path : Bytes) : SquidFS := fs.setEntry path (fs.entry path)

/-- `cache_.erase(path)`. -/
def erase (fs : SquidFS) (path : Bytes) : SquidFS := { fs with cache := fs.cache.erase path }

/-- `if (it != cache_.end() && it->second.openCount == 0) cache_.erase(r)`. -/
def eraseUnopened (fs : SquidFS) (path : Bytes) : SquidFS :=
  match fs.find path with
  | none => fs
  | some e => if e.openCount = 0 then fs.erase path else fs

/-- The open handles of a path. -/
def handlesOf (fs : SquidFS) (path : Bytes) : List FileHandle :=
  fs.handles.filter fun fh => fh.path = path

/-- The open writable handles of a path. -/
def writersOf (fs : SquidFS) (path : Bytes) : List FileHandle :=
  (fs.handlesOf path).filter fun fh => fh.writable

/-! ### The version map of the client -/

/-- `Client::getFileVersion`. -/
def getFileVersion (fs : SquidFS) (path : Bytes) : Int32 := fs.versions[path]?.getD (-1)

/-- `Client::setFileVersion`. -/
def setFileVersion (fs : SquidFS) (path : Bytes) (version : Int32) : SquidFS :=
  { fs with versions := fs.versions.insert path version }

/-- `Client::deleteFileVersion`. -/
def deleteFileVersion (fs : SquidFS) (path : Bytes) : SquidFS :=
  { fs with versions := fs.versions.erase path }

/-- `Client::setVersionFromAck`; `UINT32_MAX` is the mark of a missing field. -/
def setVersionFromAck (fs : SquidFS) (path : Bytes) (ack : Message) : SquidFS :=
  if !ack.isAck then fs
  else
    let v := ack.getUint32 .fileVersion 0xffffffff
    if v ≠ 0xffffffff then fs.setFileVersion path (toInt32 v) else fs

/-- What the call itself does to the version map once the reply is there. -/
def noteReply (fs : SquidFS) (ack : Message) : Rpc → SquidFS
  | .createFile path _ _ | .readFile path | .updateFile path _ _ => fs.setVersionFromAck path ack
  | .deleteFile path => if ack.isAck then fs.deleteFileVersion path else fs
  | .acquireLock _ | .releaseLock _ | .heartbeat => fs

/-! ### The operations -/

/-- The operation returns. -/
def leave (fs : SquidFS) (result : OpResult) : SquidFS × Option OpResult :=
  ({ fs with thread := .idle }, some result)

/-- The operation drops the mutex and calls the server. -/
def await (fs : SquidFS) (w : Window) : SquidFS × Option OpResult :=
  ({ fs with thread := .calling w }, none)

/-- The end of `fetchIntoCache`, once `readFile` has returned. -/
def fetchIntoCache (fs : SquidFS) (path : Bytes) (reply : Message × Bytes) : Option SquidFS :=
  if !reply.1.isAck then none
  else some (fs.setEntry path { fs.entry path with
    data := reply.2, version := toInt32 (reply.1.getUint32 .fileVersion 0), dirty := false })

/-- The entry that `op_open` leaves when it gives out a handle. -/
def opened (e : CacheEntry) (flags : OpenFlags) : CacheEntry :=
  let e := if flags.trunc && flags.writable then { e with data := [], dirty := true } else e
  let e := if flags.writable then { e with lockCount := e.lockCount + 1 } else e
  { e with openCount := e.openCount + 1 }

/-- The end of `op_open`: the handle is given out. -/
def openFinish (fs : SquidFS) (path : Bytes) (flags : OpenFlags) : SquidFS × Option OpResult :=
  let fh : FileHandle := ⟨path, flags.writable⟩
  let fs := fs.setEntry path (opened (fs.entry path) flags)
  leave { fs with handles := fh :: fs.handles } (.opened fh)

/-- `op_open` once the lock is held: the contents are fetched for the first handle. -/
def openLocked (fs : SquidFS) (path : Bytes) (flags : OpenFlags) : SquidFS × Option OpResult :=
  let fs := fs.touch path
  if (fs.entry path).openCount = 0 then fs.await (.openFetch path flags)
  else fs.openFinish path flags

/-- `SquidFS::op_open`. -/
def opOpen (fs : SquidFS) (path : Bytes) (flags : OpenFlags) : SquidFS × Option OpResult :=
  if path = [] then fs.leave (.failed .eisdir)
  else
    let fs := fs.touch path
    if flags.writable ∧ (fs.entry path).lockCount = 0 then fs.await (.openLock path flags)
    else fs.openLocked path flags

/-- `op_open` after a fetch that failed. -/
def openFailed (fs : SquidFS) (path : Bytes) : SquidFS × Option OpResult :=
  (fs.eraseUnopened path).leave (.failed .eio)

/-- `SquidFS::op_create`, up to the look into the cache. -/
def opCreate (fs : SquidFS) (path : Bytes) (flags : OpenFlags) : SquidFS × Option OpResult :=
  if path = [] then fs.leave (.failed .einval)
  else if (fs.find path).isSome then ({ fs with thread := .deadlocked }, none)
  else ({ fs with thread := .lookup path flags }, none)

/-- `op_create` of a path that was not cached. -/
def createUncached (fs : SquidFS) (path : Bytes) (flags : OpenFlags) : SquidFS × Option OpResult :=
  if 0 ≤ fs.getFileVersion path then fs.opOpen path flags else fs.await (.createFile path)

/-- `op_create` once the new file is created and locked on the server. -/
def createFinish (fs : SquidFS) (path : Bytes) (version : Int32) : SquidFS × Option OpResult :=
  let fh : FileHandle := ⟨path, true⟩
  let fs := fs.setEntry path
    { data := [], version := version, dirty := false, lockCount := 1, openCount := 1 }
  leave { fs with handles := fh :: fs.handles } (.opened fh)

/-- `SquidFS::op_read`. -/
def opRead (fs : SquidFS) (path : Bytes) (size offset : ℕ) : SquidFS × Option OpResult :=
  if (fs.entry path).data = [] then (fs.touch path).await (.readFetch path size offset)
  else fs.leave (.read (ByteFile.copyOut (fs.entry path).data size offset))

/-- `SquidFS::op_write`. -/
def opWrite (fs : SquidFS) (path buf : Bytes) (offset : ℕ) : SquidFS × Option OpResult :=
  match fs.find path with
  | none => fs.leave (.failed .ebadf)
  | some e =>
    let e := { e with data := ByteFile.overwrite 0 e.data offset buf, dirty := true }
    (fs.setEntry path e).leave (.written buf.length)

/-- `SquidFS::op_truncate`. -/
def opTruncate (fs : SquidFS) (path : Bytes) (size : ℕ) : SquidFS × Option OpResult :=
  match fs.find path with
  | none => fs.leave (.failed .enoent)
  | some e =>
    (fs.setEntry path { e with data := ByteFile.resize 0 e.data size, dirty := true }).leave .done

/-- The entry that `op_release` leaves when it closes a handle. -/
def closed (e : CacheEntry) (writable : Bool) : CacheEntry :=
  let e := if writable then { e with lockCount := e.lockCount - 1 } else e
  { e with openCount := e.openCount - 1 }

/-- `SquidFS::op_release`.  A handle that is not open is a null `fi->fh`. -/
def opRelease (fs : SquidFS) (fh : FileHandle) : SquidFS × Option OpResult :=
  if fh ∉ fs.handles then fs.leave .done
  else
    let fs := { fs with handles := fs.handles.erase fh }
    match fs.find fh.path with
    | none => if fh.writable then fs.await (.releaseOrphan fh.path) else fs.leave .done
    | some e =>
      let e := closed e fh.writable
      let fs := fs.setEntry fh.path e
      -- only the last writable handle flushes and unlocks
      if fh.writable ∧ e.lockCount = 0 then
        if e.dirty then fs.await (.releaseUpdate fh.path e.data e.version)
        else fs.await (.releaseUnlock fh.path)
      else (fs.eraseUnopened fh.path).leave .done

/-- `op_release` after `updateFile`: the buffer counts as flushed, ACK or NACK. -/
def flushed (fs : SquidFS) (path : Bytes) (ack : Message) : SquidFS :=
  match fs.find path with
  | none => fs
  | some e =>
    let v := ack.getUint32 .fileVersion 0
    let version := if ack.isAck && v != 0 then toInt32 v else e.version
    fs.setEntry path { e with version := version, dirty := false }

/-- `SquidFS::op_unlink`. -/
def opUnlink (fs : SquidFS) (path : Bytes) : SquidFS × Option OpResult := fs.await (.unlink path)

/-- An operation is called. -/
def call (fs : SquidFS) : FsOp → SquidFS × Option OpResult
  | .opCreate path flags => fs.opCreate path flags
  | .opOpen path flags => fs.opOpen path flags
  | .opRead path size offset => fs.opRead path size offset
  | .opWrite path buf offset => fs.opWrite path buf offset
  | .opTruncate path size => fs.opTruncate path size
  | .opRelease fh => fs.opRelease fh

/-- The call returns; the mutex is still to be taken. -/
def returns (fs : SquidFS) (w : Window) (reply : Message × Bytes) : SquidFS :=
  { fs.noteReply reply.1 w.request with thread := .returned w reply }

/-- The operation goes on after a call has returned `reply`. -/
def resume (fs : SquidFS) (w : Window) (reply : Message × Bytes) : SquidFS × Option OpResult :=
  match w with
  | .openLock path flags =>
    if !reply.1.isAck then (fs.eraseUnopened path).leave (.failed .eacces)
    else if (fs.find path).isNone then fs.leave (.failed .eio)
    else fs.openLocked path flags
  | .openFetch path flags =>
    match fs.fetchIntoCache path reply with
    | some fs => fs.openFinish path flags
    | none => if flags.writable then fs.await (.openAbort path) else fs.openFailed path
  | .openAbort path => fs.openFailed path
  | .createFile path =>
    if !reply.1.isAck then fs.leave (.failed .eio)
    else fs.await (.createLock path (toInt32 (reply.1.getUint32 .fileVersion 0)))
  | .createLock path version =>
    if !reply.1.isAck then fs.await (.createAbort path) else fs.createFinish path version
  | .createAbort _ => fs.leave (.failed .eacces)
  | .readFetch path size offset =>
    match fs.fetchIntoCache path reply with
    | some fs => fs.leave (.read (ByteFile.copyOut (fs.entry path).data size offset))
    | none => fs.leave (.failed .eio)
  | .releaseOrphan _ => fs.leave .done
  | .releaseUpdate path _ _ => (fs.flushed path reply.1).await (.releaseUnlock path)
  | .releaseUnlock path => (fs.eraseUnopened path).leave .done
  | .unlink path => if !reply.1.isAck then fs.leave (.failed .eio) else (fs.erase path).leave .done

/-! ### The pushes -/

/-- The push handler that `SquidFS` installs in its client. -/
def pushHandler (fs : SquidFS) (msg : Message) (data : Bytes) : SquidFS :=
  let path := msg.getString .filePath
  let version := toInt32 (msg.getUint32 .fileVersion 0)
  match msg.opcode with
  | .pushCreateFile | .pushUpdateFile =>
    let e := fs.entry path
    fs.setEntry path (if !e.dirty then { e with data := data, version := version } else e)
  | .pushDeleteFile => fs.erase path
  | _ => fs

/-- What `Client::handlePush` does to the cache and to the version map. -/
def handlePush (fs : SquidFS) (msg : Message) (data : Bytes) : SquidFS :=
  let path := msg.getString .filePath
  let version := toInt32 (msg.getUint32 .fileVersion 0)
  match msg.opcode with
  | .pushCreateFile | .pushUpdateFile =>
    (if path ≠ [] then fs.setFileVersion path version else fs).pushHandler msg data
  | .pushDeleteFile =>
    let fs := fs.pushHandler msg []
    if path ≠ [] then fs.deleteFileVersion path else fs
  | .releaseLock | .nackStaleEpoch => fs.pushHandler msg []
  | _ => fs

end SquidFS

/-! ### The machine -/

/-- What can happen next: the FUSE thread is given an operation, the call it makes
returns, it takes the mutex again; or the session's thread handles a push. -/
inductive FsEvent where
  | call (op : FsOp)
  | unlink (path : Bytes)
  | returns (reply : Message × Bytes)
  | resume
  | push (msg : Message) (data : Bytes)
deriving DecidableEq, Repr

def FsEvent.isPush : FsEvent → Bool
  | .push _ _ => true
  | _ => false

namespace SquidFS

def step (fs : SquidFS) (event : FsEvent) : Option (SquidFS × Option OpResult) :=
  match event, fs.thread with
  | .call op, .idle => some (fs.call op)
  | .unlink path, .idle => some (fs.opUnlink path)
  | .returns reply, .calling w => some (fs.returns w reply, none)
  | .resume, .lookup path flags => some (fs.createUncached path flags)
  | .resume, .returned w reply => some (fs.resume w reply)
  -- the mutex is free whenever the FUSE thread stands anywhere else
  | .push _ _, .deadlocked => none
  | .push msg data, _ => some (fs.handlePush msg data, none)
  | _, _ => none

/-- The state after an event. -/
def next (fs : SquidFS) (event : FsEvent) : Option SquidFS := (fs.step event).map Prod.fst

/-- A push is handled wherever the FUSE thread stands, unless it is stuck. -/
theorem step_push {fs : SquidFS} (hthread : fs.thread ≠ .deadlocked) (msg : Message)
    (data : Bytes) : fs.step (.push msg data) = some (fs.handlePush msg data, none) := by
  rw [step.eq_def]
  split <;> simp_all

/-! ### Looking things up -/

theorem find_setEntry (fs : SquidFS) (path p : Bytes) (e : CacheEntry) :
    (fs.setEntry path e).find p = if path = p then some e else fs.find p := by
  rw [find, setEntry, Std.ExtTreeMap.getElem?_insert]
  simp only [Std.LawfulEqCmp.compare_eq_iff_eq]
  rfl

@[simp] theorem find_setEntry_self (fs : SquidFS) (path : Bytes) (e : CacheEntry) :
    (fs.setEntry path e).find path = some e := by
  rw [find_setEntry, if_pos rfl]

@[simp] theorem entry_setEntry_self (fs : SquidFS) (path : Bytes) (e : CacheEntry) :
    (fs.setEntry path e).entry path = e := by
  rw [entry, find_setEntry_self, Option.getD_some]

@[simp] theorem entry_touch_self (fs : SquidFS) (path : Bytes) :
    (fs.touch path).entry path = fs.entry path :=
  entry_setEntry_self fs path _

theorem entry_eq {fs : SquidFS} {path : Bytes} {e : CacheEntry} (h : fs.find path = some e) :
    fs.entry path = e := by
  rw [entry, h, Option.getD_some]

theorem find_erase (fs : SquidFS) (path p : Bytes) :
    (fs.erase path).find p = if path = p then none else fs.find p := by
  rw [find, erase, Std.ExtTreeMap.getElem?_erase]
  simp only [Std.LawfulEqCmp.compare_eq_iff_eq]
  rfl

/-- An entry that nobody has open is dropped. -/
theorem eraseUnopened_eq (fs : SquidFS) (path : Bytes) :
    fs.eraseUnopened path = fs ∨
      ((fs.entry path).openCount = 0 ∧ fs.eraseUnopened path = fs.erase path) := by
  rw [eraseUnopened, entry]
  cases hfind : fs.find path with
  | none => exact Or.inl rfl
  | some e =>
    by_cases hopen : e.openCount = 0
    · exact Or.inr ⟨hopen, if_pos hopen⟩
    · exact Or.inl (if_neg hopen)

section

variable (e : CacheEntry) (flags : OpenFlags) (writable : Bool)

theorem opened_openCount : (opened e flags).openCount = e.openCount + 1 := by
  rcases flags with ⟨_ | _, _ | _⟩ <;> rfl

theorem opened_lockCount :
    (opened e flags).lockCount = e.lockCount + if flags.writable then 1 else 0 := by
  rcases flags with ⟨_ | _, _ | _⟩ <;> rfl

theorem opened_data :
    (opened e flags).data = if flags.trunc && flags.writable then [] else e.data := by
  rcases flags with ⟨_ | _, _ | _⟩ <;> rfl

theorem opened_dirty :
    (opened e flags).dirty = if flags.trunc && flags.writable then true else e.dirty := by
  rcases flags with ⟨_ | _, _ | _⟩ <;> rfl

theorem closed_openCount : (closed e writable).openCount = e.openCount - 1 := by
  cases writable <;> rfl

theorem closed_lockCount :
    (closed e writable).lockCount = e.lockCount - if writable then 1 else 0 := by
  cases writable <;> rfl

theorem closed_data : (closed e writable).data = e.data := by cases writable <;> rfl

theorem closed_dirty : (closed e writable).dirty = e.dirty := by cases writable <;> rfl

end

theorem cache_noteReply (fs : SquidFS) (ack : Message) (rpc : Rpc) :
    (fs.noteReply ack rpc).cache = fs.cache ∧ (fs.noteReply ack rpc).handles = fs.handles := by
  cases rpc with
  | createFile path version data | readFile path | updateFile path version data =>
    simp only [noteReply, setVersionFromAck]
    split
    · exact ⟨rfl, rfl⟩
    · split <;> exact ⟨rfl, rfl⟩
  | deleteFile path =>
    simp only [noteReply]
    split <;> exact ⟨rfl, rfl⟩
  | acquireLock path | releaseLock path | heartbeat => exact ⟨rfl, rfl⟩

@[simp] theorem find_returns (fs : SquidFS) (w : Window) (reply : Message × Bytes) (p : Bytes) :
    (fs.returns w reply).find p = fs.find p :=
  congrArg (·[p]?) (cache_noteReply fs reply.1 w.request).1

theorem handlesOf_returns (fs : SquidFS) (w : Window) (reply : Message × Bytes) (p : Bytes) :
    (fs.returns w reply).handlesOf p = fs.handlesOf p :=
  congrArg (List.filter _) (cache_noteReply fs reply.1 w.request).2

end SquidFS

end Squid
