/-
The files of a node: what `FileManager` and `FileTransfer` do on disk.

The regular files are kept by their name relative to the storage root.  What the
operating system decides (how a path resolves, whether an output file opens,
whether removing throws) is data of the `Disk`, so that every outcome of a file
operation is some disk.

* `receiveStoredFile_blob` — a transfer that arrives whole is what is stored;
* `receiveStoredFile_refused` — an output file that does not open leaves the
  transfer unread.
-/
import SquidStorage.FileVersions
import SquidStorage.Handshake

open BigEndian TextStream

namespace Squid

/-- What creating the directories of an output file and opening it gives. -/
inductive Opening where
  | opened
  | refused
  | threw (error : String)
deriving DecidableEq, Repr

/-- The storage of a node. -/
structure Disk where
  /-- the regular files, by their name relative to the storage root -/
  files : StrMap Bytes := ∅
  /-- `FileManager::resolvePath`, as such a name -/
  resolvePath : Bytes → Bytes := id
  openOutput : Bytes → Opening := fun _ => .opened
  /-- what `fs::remove` throws, as on a directory that is not empty -/
  removeError : Bytes → Option String := fun _ => none

/-- `.squid/fileVersions.txt`. -/
def versionFilePath : Bytes :=
  ascii ['.', 's', 'q', 'u', 'i', 'd', '/', 'f', 'i', 'l', 'e', 'V', 'e', 'r', 's', 'i', 'o', 'n',
    's', '.', 't', 'x', 't']

/-- The name that `isRuntimeFile` keeps out of the listings. -/
def runtimeFile : Bytes := ascii ['.', 's', 'q', 'u', 'i', 'd']

/-! ### `FileManager` -/

namespace FileManager

/-- The version file as `getFileVersionMap` reads it: the last line counts. -/
def savedFilesVersion (text : Bytes) : StrMap Int32 :=
  ((getlines newline text).filterMap parseLine).foldl (fun m e => m.insert e.1 e.2) ∅

/-- The version file as `deleteFileAndVersion` rewrites it. -/
def dropFileVersion (text path : Bytes) : Bytes :=
  let lines := (getlines newline text).filter fun line =>
    match parseLine line with
    | none => false
    | some entry => entry.1 ≠ path
  lines.flatMap fun line => line ++ [newline]

end FileManager

namespace Disk

/-- The text of the version file; a file that is not there reads as empty. -/
def versionText (disk : Disk) : Bytes := disk.files[versionFilePath]?.getD []

/-- `FileManager::getFileVersion`. -/
def getFileVersion (disk : Disk) (path : Bytes) : Int32 :=
  FileManager.getFileVersion disk.versionText path

/-- Write a regular file. -/
def store (disk : Disk) (name data : Bytes) : Disk :=
  { disk with files := disk.files.insert name data }

/-- Remove a regular file. -/
def discard (disk : Disk) (name : Bytes) : Disk := { disk with files := disk.files.erase name }

/-- Writing on where a file ends. -/
theorem store_append (disk : Disk) (name pre block : Bytes) :
    (disk.store name pre).store name ((disk.store name pre).files[name]?.getD [] ++ block)
      = disk.store name (pre ++ block) := by
  have hget : (disk.files.insert name pre)[name]? = some pre := by simp
  have hfiles : (disk.files.insert name pre).insert name (pre ++ block)
      = disk.files.insert name (pre ++ block) := by
    refine Std.ExtTreeMap.ext_getElem? fun k => ?_
    simp only [Std.ExtTreeMap.getElem?_insert]
    split <;> rfl
  simp only [store]
  rw [hget, Option.getD_some, hfiles]

/-- `FileManager::setFileVersion`. -/
def setFileVersion (disk : Disk) (path : Bytes) (version : Int32) : Disk :=
  disk.store versionFilePath (FileManager.setFileVersion disk.versionText path version)

/-- `FileManager::deleteFileAndVersion`: the version goes only with a file. -/
def deleteFileAndVersion (disk : Disk) (path : Bytes) : Except String Disk :=
  match disk.removeError (disk.resolvePath path) with
  | some e => .error e
  | none =>
    if disk.resolvePath path ∈ disk.files then
      let disk := disk.discard (disk.resolvePath path)
      .ok (disk.store versionFilePath (FileManager.dropFileVersion disk.versionText path))
    else .ok disk

/-- `FileManager::getFileVersionMap` of the storage root: the files directly
below it, with version `0` where none is saved. -/
def getFileVersionMap (disk : Disk) : StrMap Int32 :=
  let savedFilesVersion := FileManager.savedFilesVersion disk.versionText
  disk.files.filterMap fun file _ =>
    if TopLevel file ∧ file ≠ runtimeFile then some (savedFilesVersion[file]?.getD 0) else none

end Disk

/-! ### `FileTransfer` on stored files -/

/-- `FileTransfer::sendFile` of a stored file: one that does not open is not
sent, any other goes out as it would from memory. -/
def sendStoredFile (disk : Disk) (path : Bytes) : ProtoM Bool :=
  match disk.files[disk.resolvePath path]? with
  | none => pure false
  | some data => sendFile data

/-- An exception. -/
def raiseError {α : Type} (error : String) : ProtoM α := ⟨fun s => (.thrown error, s)⟩

/-- `FileTransfer::receiveFile` into a stored file.  The output file is opened
before anything is read, and removed when the transfer fails. -/
def receiveStoredFile (disk : Disk) (path : Bytes) : ProtoM (Bool × Disk) :=
  match disk.openOutput (disk.resolvePath path) with
  | .threw e => raiseError e
  | .refused => pure (false, disk)
  | .opened => do
    match ← receiveFile with
    | none => pure (false, disk.discard (disk.resolvePath path))
    | some data => pure (true, disk.store (disk.resolvePath path) data)

theorem receiveStoredFile_blob {disk : Disk} {path : Bytes}
    (hopen : disk.openOutput (disk.resolvePath path) = .opened) {data rest : Bytes} {s : Proto}
    (hsize : data.length ≤ fileTransferMaxSize)
    (hinp : s.inp = pushU64 data.length ++ data ++ rest) :
    (receiveStoredFile disk path).run s
      = (.done (true, disk.store (disk.resolvePath path) data), { s with inp := rest }) := by
  rw [receiveStoredFile, hopen]
  dsimp only
  rw [bind_done (receiveFile_blob hsize hinp)]
  rfl

theorem receiveStoredFile_refused {disk : Disk} {path : Bytes}
    (hopen : disk.openOutput (disk.resolvePath path) = .refused) (s : Proto) :
    (receiveStoredFile disk path).run s = (.done (false, disk), s) := by
  rw [receiveStoredFile, hopen]
  rfl

theorem receiveStoredFile_waiting {disk : Disk} {path : Bytes}
    (hopen : disk.openOutput (disk.resolvePath path) = .opened) {s : Proto} (hinp : s.inp = [])
    (hclosed : s.peerClosed = false) :
    (receiveStoredFile disk path).run s = (.waiting, s) := by
  rw [receiveStoredFile, hopen]
  exact bind_waiting (receiveFile_waiting hinp hclosed)

theorem silent_receiveStoredFile (disk : Disk) (path : Bytes) :
    Silent (receiveStoredFile disk path) := by
  rw [receiveStoredFile]
  split
  · exact fun _ => rfl
  · exact silent_pure _
  · refine silent_receiveFile.bind fun data => ?_
    cases data with
    | none => exact silent_pure _
    | some data => exact silent_pure _

end Squid
