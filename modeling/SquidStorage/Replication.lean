/-
The primary's replication manager and the datanodes it writes to.

The state of `ReplicationManager` is kept under the source's names; a session
(`shared_ptr<ConnectionSession>`) is an identity, so that an entry of an
endpoint or holder map is a name with a session.  What a datanode answers to an
RPC is an input: `WriteAnswer`, `ReadAnswer` and `DeleteAnswer` say whether the
session is dead, whether the datanode did what it was asked, and whether its ACK
arrived.  The calls return what they return in the source, the new state, and
what they send to standbys and clients.
-/
import SquidStorage.FileVersions
import SquidStorage.ClientSession

open BigEndian TextStream LastWrite

namespace Squid

/-! ### State -/

/-- The identity of a `ConnectionSession`. -/
abbrev SessionId : Type := ℕ

/-- A datanode's copy of a file: its bytes and the version of its line in the
datanode's version file. -/
structure StoredFile where
  bytes : Bytes
  version : Int32
deriving DecidableEq, Repr

/-- What each datanode stores under each path. -/
abbrev DataNodes : Type := Bytes → Bytes → Option StoredFile

/-- `FileLock`.  The expiration time (in ticks of the system clock) is read only
while the file is locked, so that of a new entry does not matter. -/
structure FileLock where
  locked : Bool := false
  clientHolder : Bytes := []
  expiration : ℕ := 0
deriving DecidableEq, Repr

structure ReplicationManager where
  replicationFactor : ℕ
  dataNodeEndpointMap : StrMap SessionId := ∅
  clientEndpointMap : StrSet := ∅
  dataNodeReplicationMap : StrMap (StrMap SessionId) := ∅
  persistedVersionMap : StrMap Int32 := ∅
  fileLockMap : StrMap FileLock := ∅
  /-- the text of the server's `.squid/fileVersions.txt` -/
  versionFile : Option Bytes := none

/-- The primary and the datanodes. -/
structure System where
  rm : ReplicationManager
  nodes : DataNodes

/-- What a committed write sends on. -/
inductive Output where
  /-- `StandbyReplicaManager::sendDelta` -/
  | delta (op : UInt8) (filePath : Bytes) (version : Int32) (holders : List Bytes)
  /-- a push task posted to a client's session -/
  | push (client : Bytes) (task : PushTask)
deriving DecidableEq, Repr

namespace ReplicationManager

/-- `quorum_`. -/
def quorum (rm : ReplicationManager) : ℕ := rm.replicationFactor / 2 + 1

/-- The constructor: only the version map is restored. -/
def start (replicationFactor : ℕ) (versionFile : Option Bytes) : ReplicationManager :=
  { replicationFactor := replicationFactor
    persistedVersionMap := StateManager.loadVersionMap versionFile
    versionFile := versionFile }

/-- The holders of a file, none when the path is not in the map. -/
def holders (rm : ReplicationManager) (filePath : Bytes) : StrMap SessionId :=
  rm.dataNodeReplicationMap[filePath]?.getD ∅

/-- `ReplicationManager::getKnownVersion`. -/
def getKnownVersion (rm : ReplicationManager) (filePath : Bytes) : Int32 :=
  rm.persistedVersionMap[filePath]?.getD (-1)

/-- `ReplicationManager::buildPersistableRepMap`. -/
def buildPersistableRepMap (rm : ReplicationManager) : StrMap StrSet :=
  rm.dataNodeReplicationMap.map fun _ (holders : StrMap SessionId) =>
    Std.ExtTreeSet.ofList holders.keys

/-- One file of a datanode's reply in `getFileVersionMap`: the higher version wins. -/
def mergeVersion (fileVersionMap : StrMap Int32) (file : Bytes × Int32) : StrMap Int32 :=
  match fileVersionMap[file.1]? with
  | none => fileVersionMap.insert file.1 file.2
  | some v => fileVersionMap.insert file.1 (if v < file.2 then file.2 else v)

/-- `ReplicationManager::getFileVersionMap` on the `syncStatus` replies of the
live datanodes. -/
def getFileVersionMap (rm : ReplicationManager) (replies : List (StrMap Int32)) : StrMap Int32 :=
  replies.foldl (fun m reply => reply.toList.foldl mergeVersion m) rm.persistedVersionMap

/-- `persistState`; the replication map file is written too, but nothing reads
it back into the state. -/
def persistState (rm : ReplicationManager) : ReplicationManager :=
  { rm with versionFile := some (StateManager.saveVersionMap rm.persistedVersionMap) }

/-- `fileManager_.getFileVersion`. -/
def getFileVersion (rm : ReplicationManager) (filePath : Bytes) : Int32 :=
  FileManager.getFileVersion (rm.versionFile.getD []) filePath

/-- `fileManager_.setFileVersion`. -/
def setFileVersion (rm : ReplicationManager) (filePath : Bytes) (version : Int32) :
    ReplicationManager :=
  let text := FileManager.setFileVersion (rm.versionFile.getD []) filePath version
  { rm with versionFile := some text }

/-- `dataNodeReplicationMap_[filePath][name] = session`. -/
def addHolder (rm : ReplicationManager) (filePath name : Bytes) (session : SessionId) :
    ReplicationManager :=
  let holders := (rm.holders filePath).insert name session
  { rm with dataNodeReplicationMap := rm.dataNodeReplicationMap.insert filePath holders }

/-- `dataNodeReplicationMap_[filePath][node.first] = node.second` for each node. -/
def addHolders (rm : ReplicationManager) (filePath : Bytes) (nodes : List (Bytes × SessionId)) :
    ReplicationManager :=
  nodes.foldl (fun rm node => rm.addHolder filePath node.1 node.2) rm

/-- A create that has its quorum: the holders, the version, the lock entry, and
the files on disk. -/
def commitCreate (rm : ReplicationManager) (filePath : Bytes) (version : Int32)
    (ackedNodes : List (Bytes × SessionId)) : ReplicationManager :=
  let rm := rm.addHolders filePath ackedNodes
  let rm := { rm with persistedVersionMap := rm.persistedVersionMap.insert filePath version }
  let rm := { rm with fileLockMap := rm.fileLockMap.insertIfNew filePath {} }
  (rm.setFileVersion filePath version).persistState

/-- An update that has its quorum. -/
def commitUpdate (rm : ReplicationManager) (filePath : Bytes) (newVersion : Int32) :
    ReplicationManager :=
  let rm := { rm with persistedVersionMap := rm.persistedVersionMap.insert filePath newVersion }
  (rm.setFileVersion filePath newVersion).persistState

/-- A delete that is carried out. -/
def commitDelete (rm : ReplicationManager) (filePath : Bytes) : ReplicationManager :=
  let rm := { rm with fileLockMap := rm.fileLockMap.erase filePath }
  let rm := { rm with
    dataNodeReplicationMap := rm.dataNodeReplicationMap.erase filePath
    persistedVersionMap := rm.persistedVersionMap.erase filePath }
  rm.persistState

/-- What a delete has done when it comes to `deleteFileAndVersion`. -/
def eraseFile (rm : ReplicationManager) (filePath : Bytes) : ReplicationManager :=
  let rm := { rm with fileLockMap := rm.fileLockMap.erase filePath }
  { rm with
    dataNodeReplicationMap := rm.dataNodeReplicationMap.erase filePath
    persistedVersionMap := rm.persistedVersionMap.erase filePath }

/-- One file of `registerDataNodeFiles`. -/
def registerFile (datanodeName : Bytes) (session : SessionId) (rm : ReplicationManager)
    (file : Bytes × Int32) : ReplicationManager :=
  let rm := rm.addHolder file.1 datanodeName session
  let currentBest := rm.persistedVersionMap[file.1]?.getD 0
  if currentBest < file.2 then
    let rm := { rm with persistedVersionMap := rm.persistedVersionMap.insert file.1 file.2 }
    rm.setFileVersion file.1 file.2
  else rm

/-- `ReplicationManager::registerDataNodeFiles`. -/
def registerDataNodeFiles (rm : ReplicationManager) (datanodeName : Bytes) (session : SessionId)
    (fileVersionMap : StrMap Int32) : ReplicationManager :=
  (fileVersionMap.toList.foldl (registerFile datanodeName session) rm).persistState

/-- One file of `LockManager::buildFileLockMap`. -/
def buildFileLock (rm : ReplicationManager) (file : Bytes × Int32) : ReplicationManager :=
  let rm := { rm with fileLockMap := rm.fileLockMap.insertIfNew file.1 {} }
  if rm.getFileVersion file.1 < file.2 then rm.setFileVersion file.1 file.2 else rm

/-- `LockManager::buildFileLockMap` on the replies of the live datanodes. -/
def buildFileLockMap (rm : ReplicationManager) (replies : List (StrMap Int32)) :
    ReplicationManager :=
  replies.foldl (fun rm reply => reply.toList.foldl buildFileLock rm) rm

/-- The `DATANODE` branch of `Server::handleAccept`, once `syncStatus` has been
answered with `fileVersionMap`. -/
def acceptDataNode (rm : ReplicationManager) (name : Bytes) (session : SessionId)
    (fileVersionMap : StrMap Int32) (replies : List (StrMap Int32)) : ReplicationManager :=
  let rm := { rm with dataNodeEndpointMap := rm.dataNodeEndpointMap.insert name session }
  (rm.registerDataNodeFiles name session fileVersionMap).buildFileLockMap replies

end ReplicationManager

/-! ### RPCs to datanodes -/

/-- What comes of a `createFile` or `updateFile` sent to a datanode. -/
inductive WriteAnswer where
  /-- the session is null or not alive: nothing is sent -/
  | dead
  /-- stored, and the ACK arrived -/
  | acked
  /-- stored, but no ACK arrived -/
  | ackLost
  /-- refused before the file was touched -/
  | refused
  /-- the transfer failed: `receiveFile` has removed the file -/
  | dropped
deriving DecidableEq, Repr

namespace WriteAnswer

def acks : WriteAnswer → Bool
  | .acked => true
  | .dead | .ackLost | .refused | .dropped => false

/-- Whether the datanode keeps the new file. -/
def stores : WriteAnswer → Bool
  | .acked | .ackLost => true
  | .dead | .refused | .dropped => false

/-- The datanode's copy afterwards. -/
def effect (file : StoredFile) (before : Option StoredFile) : WriteAnswer → Option StoredFile
  | .acked | .ackLost => some file
  | .dead | .refused => before
  | .dropped => none

end WriteAnswer

/-- What comes of a `readFile` sent to a holder. -/
inductive ReadAnswer where
  | dead
  | nack
  /-- the datanode answers from its disk -/
  | served
deriving DecidableEq, Repr

/-- What comes of a `deleteFile` sent to a holder. -/
inductive DeleteAnswer where
  | dead
  | acked
  | ackLost
  | refused
deriving DecidableEq, Repr

def DeleteAnswer.deletes : DeleteAnswer → Bool
  | .acked | .ackLost => true
  | .dead | .refused => false

/-- One datanode's copy of one file changes. -/
def storeAt (nodes : DataNodes) (name filePath : Bytes) (file : Option StoredFile) : DataNodes :=
  fun n p => if n = name ∧ p = filePath then file else nodes n p

/-- The loop over datanodes of a create or an update: the copies afterwards and
the nodes that ACKed, in the order of the loop. -/
def fanOut (answer : Bytes → SessionId → WriteAnswer) (filePath : Bytes) (file : StoredFile) :
    List (Bytes × SessionId) → DataNodes → DataNodes × List (Bytes × SessionId)
  | [], nodes => (nodes, [])
  | (name, session) :: targets, nodes =>
    let a := answer name session
    let nodes := storeAt nodes name filePath (a.effect file (nodes name filePath))
    let rest := fanOut answer filePath file targets nodes
    (rest.1, if a.acks then (name, session) :: rest.2 else rest.2)

/-- `deleteFile` to each of a list of datanodes. -/
def deleteAll (answer : Bytes → SessionId → DeleteAnswer) (filePath : Bytes) :
    List (Bytes × SessionId) → DataNodes → DataNodes
  | [], nodes => nodes
  | (name, session) :: targets, nodes =>
    deleteAll answer filePath targets
      (if (answer name session).deletes then storeAt nodes name filePath none else nodes)

/-- The pushes of a committed write: to every client but its origin. -/
def pushOthers (rm : ReplicationManager) (originProcessName : Bytes) (task : PushTask) :
    List Output :=
  (rm.clientEndpointMap.toList.filter fun c => c ≠ originProcessName).map (.push · task)

/-! ### The calls -/

namespace System

/-- `ReplicationManager::getFileFromDataNode`: the first live holder whose copy
is not behind the persisted version.  The datanode reports the version that it was
sent, as its version file does for a path that is one word. -/
def getFileFromDataNode (sys : System) (answer : Bytes → SessionId → ReadAnswer)
    (filePath : Bytes) : Option Bytes :=
  let expectedVersion := sys.rm.getKnownVersion filePath
  let live := (sys.rm.holders filePath).toList.filter fun h => answer h.1 h.2 ≠ .dead
  live.findSome? fun h =>
    if answer h.1 h.2 = .served then
      match sys.nodes h.1 filePath with
      | none => none
      | some file =>
        if expectedVersion < 0 ∨ expectedVersion ≤ file.version then some file.bytes else none
    else none

/-- `ReplicationManager::propagateCreateFile`; `rollback` answers the deletes
that are queued when the quorum is missed. -/
def propagateCreateFile (sys : System) (answer : Bytes → SessionId → WriteAnswer)
    (rollback : Bytes → SessionId → DeleteAnswer) (filePath : Bytes) (version : Int32)
    (originProcessName fileData : Bytes) : Bool × System × List Output :=
  let datanodes := sys.rm.dataNodeEndpointMap.toList
  let fan := fanOut answer filePath ⟨fileData, version⟩ datanodes sys.nodes
  let ackedNodes := fan.2
  if ackedNodes.length < sys.rm.quorum then
    (false, { sys with nodes := deleteAll rollback filePath ackedNodes fan.1 }, [])
  else
    (true, { rm := sys.rm.commitCreate filePath version ackedNodes, nodes := fan.1 },
      .delta 0 filePath version (ackedNodes.map Prod.fst) ::
        pushOthers sys.rm originProcessName (.pushCreateFile filePath version fileData))

/-- The version `propagateUpdateFile` assigns: an `int`, so it may wrap. -/
def newVersion (sys : System) (filePath : Bytes) (clientSeenVersion : Int32) : Int32 :=
  sys.rm.persistedVersionMap[filePath]?.getD clientSeenVersion + 1

/-- `ReplicationManager::propagateUpdateFile`. -/
def propagateUpdateFile (sys : System) (answer : Bytes → SessionId → WriteAnswer)
    (filePath : Bytes) (clientSeenVersion : Int32) (originProcessName fileData : Bytes) :
    Int32 × System × List Output :=
  let newVersion := sys.newVersion filePath clientSeenVersion
  let datanodes := (sys.rm.holders filePath).toList
  let fan := fanOut answer filePath ⟨fileData, newVersion⟩ datanodes sys.nodes
  let ackedNodes := fan.2
  let effectiveQuorum := min sys.rm.quorum datanodes.length
  if ackedNodes.length < effectiveQuorum then (-1, { sys with nodes := fan.1 }, [])
  else
    (newVersion, { rm := sys.rm.commitUpdate filePath newVersion, nodes := fan.1 },
      .delta 0 filePath newVersion (datanodes.map Prod.fst) ::
        pushOthers sys.rm originProcessName (.pushUpdateFile filePath newVersion fileData))

/-- `ReplicationManager::propagateDeleteFile`; the server stores no files, so
its `deleteFileAndVersion` finds nothing to delete.  Where that throws it is
`propagateDeleteFileThrowing`. -/
def propagateDeleteFile (sys : System) (answer : Bytes → SessionId → DeleteAnswer)
    (filePath originProcessName : Bytes) : System × List Output :=
  let datanodes := (sys.rm.holders filePath).toList
  let nodes := deleteAll answer filePath datanodes sys.nodes
  let total := (datanodes.filter fun d => answer d.1 d.2 ≠ .dead).length
  let acks := (datanodes.filter fun d => answer d.1 d.2 = .acked).length
  if 0 < total ∧ acks < min sys.rm.quorum total then ({ sys with nodes := nodes }, [])
  else
    ({ rm := sys.rm.commitDelete filePath, nodes := nodes },
      pushOthers sys.rm originProcessName (.pushDeleteFile filePath) ++ [.delta 1 filePath 0 []])

/-- `ReplicationManager::propagateDeleteFile` with what the server's own `fs::remove`
throws, as on a name that is too long or on a directory that is not empty.  By then the
maps have been erased; nothing is persisted and no standby hears of it. -/
def propagateDeleteFileThrowing (sys : System) (removeError : Option String)
    (answer : Bytes → SessionId → DeleteAnswer) (filePath originProcessName : Bytes) :
    System × List Output × Option String :=
  let datanodes := (sys.rm.holders filePath).toList
  let nodes := deleteAll answer filePath datanodes sys.nodes
  let total := (datanodes.filter fun d => answer d.1 d.2 ≠ .dead).length
  let acks := (datanodes.filter fun d => answer d.1 d.2 = .acked).length
  if 0 < total ∧ acks < min sys.rm.quorum total then ({ sys with nodes := nodes }, [], none)
  else
    let rm := sys.rm.eraseFile filePath
    let pushes := pushOthers sys.rm originProcessName (.pushDeleteFile filePath)
    match removeError with
    | some error => ({ rm := rm, nodes := nodes }, pushes, some error)
    | none => ({ rm := rm.persistState, nodes := nodes }, pushes ++ [.delta 1 filePath 0 []], none)

/-- The answers of the datanodes while files are rebalanced. -/
structure RebalanceAnswers where
  read : Bytes → Bytes → SessionId → ReadAnswer
  create : Bytes → Bytes → SessionId → WriteAnswer

/-- The candidate loop of `rebalanceFileReplication`: copies go out until there
are `replicationFactor` holders. -/
def copyToCandidates (answer : Bytes → SessionId → WriteAnswer) (replicationFactor : ℕ)
    (filePath : Bytes) (file : StoredFile) :
    List (Bytes × SessionId) → StrMap SessionId → DataNodes → StrMap SessionId × DataNodes
  | [], holders, nodes => (holders, nodes)
  | (name, session) :: candidates, holders, nodes =>
    let a := answer name session
    let nodes := storeAt nodes name filePath (a.effect file (nodes name filePath))
    if a.acks then
      let holders := holders.insert name session
      if replicationFactor ≤ holders.size then (holders, nodes)
      else copyToCandidates answer replicationFactor filePath file candidates holders nodes
    else copyToCandidates answer replicationFactor filePath file candidates holders nodes

/-- `ReplicationManager::rebalanceFileReplication`, where the call to the source
returns. -/
def rebalanceFileReplication (answer : RebalanceAnswers) (sys : System)
    (target : Bytes × StrMap SessionId) : System :=
  let filePath := target.1
  let fileHoldersMap := target.2
  match fileHoldersMap.toList with
  | [] => sys
  | (source, session) :: _ =>
    if answer.read filePath source session = .served then
      match sys.nodes source filePath with
      | none => sys
      | some file =>
        let candidates := sys.rm.dataNodeEndpointMap.toList.filter fun e =>
          !fileHoldersMap.contains e.1 && answer.create filePath e.1 e.2 != .dead
        let copy : StoredFile := ⟨file.bytes, sys.rm.getFileVersion filePath⟩
        let copied := copyToCandidates (answer.create filePath)
          sys.rm.replicationFactor filePath copy candidates fileHoldersMap sys.nodes
        { rm := (sys.rm.addHolders filePath copied.1.toList).persistState, nodes := copied.2 }
    else sys

/-- The files that lose the holder `name` and are left with fewer than
`replicationFactor / 2 + 1` holders. -/
def rebalanceTargets (rm : ReplicationManager) (name : Bytes) :
    List (Bytes × StrMap SessionId) :=
  (rm.dataNodeReplicationMap.toList.filter fun e => e.2.contains name).filterMap fun e =>
    let left := e.2.erase name
    if left.size < rm.quorum then some (e.1, left) else none

/-- `ReplicationManager::eraseFromReplicationMap` for one datanode. -/
def eraseFromReplicationMap (sys : System) (answer : RebalanceAnswers) (name : Bytes) : System :=
  let targets := rebalanceTargets sys.rm name
  let holdersLeft : StrMap (StrMap SessionId) :=
    sys.rm.dataNodeReplicationMap.map fun _ (h : StrMap SessionId) => h.erase name
  let rm := { sys.rm with dataNodeReplicationMap := holdersLeft }
  targets.foldl (rebalanceFileReplication answer) { sys with rm := rm.persistState }

end System

end Squid
