/-
One client and the server's session for it, with every thread that takes part.

The client's session worker makes the calls of `Client` one at a time and, between
them, hands what arrives to `Client::handlePush`.  On the server the session worker
runs the queued tasks and reads a frame when it has none; a request goes to a pool
thread (`Server::handleClientRequest`), which posts its sends to the session one by
one, with the reads suspended until it is done; and `checkFileLockExpiration` posts
`releaseLock` tasks.  What is on the way between the two ends is a list of frames
and transferred files, in order.

`Handling` and `Calling` are what the two ends do for a request, cut at every point
where they wait:

* `handleClientRequest_eq` — `Handling` is `handleClientRequest` without pushes;
* `Rpc.rest_eq` — `Calling` is what a call does once its request is sent.

`ClientLink.step` is the machine of all the threads.
-/
import SquidStorage.ClientSession
import SquidStorage.Locks

open BigEndian

namespace Squid

/-- What one end sends and the other has still to read. -/
inductive Parcel where
  | frame (msg : Message)
  | file (data : Bytes)
deriving DecidableEq, Repr

/-! ### The server's side of a request -/

/-- The response frames of `handleClientRequest`. -/
inductive Response where
  | ack (isAck : Bool)
  | version (isAck : Bool) (version : Int32)
  | versions (fileVersionMap : StrMap Int32)

namespace Response

def fields : Response → List BinaryField
  | ack isAck => [fieldBool .ack isAck]
  | version isAck ver => [fieldBool .ack isAck, fieldUint32 .fileVersion (toUint32 ver)]
  | versions fileVersionMap => fileVersionMap.toList.flatMap fun kv =>
    [fieldString .fileEntry kv.1, fieldUint32 .verEntry (toUint32 kv.2)]

def message (reply : Response) : Message :=
  { opcode := .response, flags := flagResponse, fields := reply.fields }

/-- Building the frame throws when it has too many or too long fields. -/
def format (reply : Response) : Except String Bytes :=
  buildFrame .response flagResponse reply.fields

theorem isAck_ack (isAck : Bool) : (ack isAck).message.isAck = isAck := by
  cases isAck <;> decide

theorem isAck_version (v : Int32) : (version true v).message.isAck = true := by
  simp [message, fields, Message.isAck, Message.isResponse, Message.getBool, Message.findField,
    fieldBool, flagResponse]

/-- The version that a reply carries. -/
theorem getUint32_version (isAck : Bool) (v : Int32) (default : UInt32) :
    (version isAck v).message.getUint32 .fileVersion default = toUint32 v := by
  simp [message, fields, Message.getUint32, Message.findField, fieldBool, fieldUint32,
    FieldID.ack, FieldID.fileVersion]

theorem isResponse_message (reply : Response) : reply.message.isResponse = true := by
  show (flagResponse &&& flagResponse != 0) = true
  decide

end Response

/-- What `handleClientRequest` still has to do: each send is a task of the session,
and `upload` is the task that ACKs and receives the file. -/
inductive Handling where
  | finish
  | close
  | respond (reply : Response) (next : Handling)
  | sendFile (data : Bytes) (next : Bool → Handling)
  | upload (next : Option Bytes → Handling)

namespace Handling

/-- The next thing to do is a task of the session. -/
def isTask : Handling → Bool
  | finish | close => false
  | respond _ _ | sendFile _ _ | upload _ => true

/-- On an end of the connection, with nothing else running. -/
def exec : Handling → ProtoM Unit
  | finish => pure ()
  | close => markDead
  | respond reply next => do
    Squid.sendFrame reply.format
    next.exec
  | sendFile data next => do
    let sent ← Squid.sendFile data
    (next sent).exec
  | upload next => do
    response true
    let fileData ← receiveFile
    (next fileData).exec

end Handling

/-- `Server::handleClientRequest`, cut at its session calls. -/
def handling (mg : Managers) (mex : Message) : Handling :=
  let filePath := mex.getString .filePath
  let fileVersion := toInt32 (mex.getUint32 .fileVersion 0)
  let done := fun reply => Handling.respond reply .finish
  match mex.opcode with
  | .createFile => .upload fun
    | none => done (.ack false)
    | some fileData => done (.ack (mg.propagateCreateFile filePath fileVersion fileData))
  | .readFile =>
    match mg.getFileFromDataNode filePath with
    | none => done (.ack false)
    | some fileData => .respond (.ack true) (.sendFile fileData fun sent =>
        done (.version sent (mg.getKnownVersion filePath)))
  | .updateFile => .upload fun
    | none => done (.ack false)
    | some fileData =>
      let newVersion := mg.propagateUpdateFile filePath fileVersion fileData
      if 0 ≤ newVersion then done (.version true newVersion) else done (.ack false)
  | .deleteFile => done (.ack true)
  | .syncStatus => done (.versions mg.getFileVersionMap)
  | .acquireLock => done (.ack (mg.acquireLock filePath))
  | .releaseLock => done (.ack (mg.releaseLock filePath))
  | .heartbeat => done (.ack true)
  | .close => .respond (.ack true) .close
  | _ => done (.ack false)

theorem Handling.exec_done (reply : Response) :
    (Handling.respond reply .finish).exec = sendFrame reply.format :=
  bind_pure_unit

/-- **The cut program is the handler** of a session that no push goes to. -/
theorem handleClientRequest_eq (mg : Managers) (mex : Message) :
    handleClientRequest mg (fun _ => []) mex = (handling mg mex).exec := by
  have hexecAll : execAll [] = pure () := rfl
  have hack : ∀ b, response b = (Handling.respond (.ack b) .finish).exec := fun b =>
    (Handling.exec_done (.ack b)).symm
  have hversion : ∀ b v, responseVersion b v = (Handling.respond (.version b v) .finish).exec :=
    fun b v => (Handling.exec_done (.version b v)).symm
  simp only [handleClientRequest, handling, receiveUpload, sendDownload, hexecAll, pure_bind]
  generalize mex.opcode = opcode
  split
  · -- CREATE_FILE
    simp only [Handling.exec]
    congr 1
    funext _
    congr 1
    funext fileData
    cases fileData with
    | none => exact hack false
    | some fileData => exact hack _
  · -- READ_FILE
    cases mg.getFileFromDataNode (mex.getString .filePath) with
    | none => exact hack false
    | some fileData =>
      simp only [hversion]
      rfl
  · -- UPDATE_FILE
    simp only [Handling.exec]
    congr 1
    funext _
    congr 1
    funext fileData
    cases fileData with
    | none => exact hack false
    | some fileData =>
      dsimp only
      split
      · exact hversion true _
      · exact hack false
  · exact hack true
  · exact (Handling.exec_done (.versions _)).symm
  · exact hack _
  · exact hack _
  · exact hack true
  · rfl
  · -- any other opcode: none of the cases of the right side
    simp [*]

/-! ### The client's side of a call -/

/-- What a call still has to do. -/
inductive Calling where
  | done (reply : Message) (data : Bytes)
  | receive (next : Message → Calling)
  | receiveFile (next : Option Bytes → Calling)
  | sendFile (data : Bytes) (next : Bool → Calling)

/-- On an end of the connection, with nothing else running. -/
def Calling.exec : Calling → ProtoM (Message × Bytes)
  | done reply data => pure (reply, data)
  | receive next => do
    let msg ← receiveAndParse
    (next msg).exec
  | receiveFile next => do
    let data ← Squid.receiveFile
    (next data).exec
  | sendFile data next => do
    let sent ← Squid.sendFile data
    (next sent).exec

/-- A call once its request is sent. -/
def Rpc.calling : Rpc → Calling
  | .createFile _ _ data | .updateFile _ _ data => .receive fun ack =>
    if !ack.isAck then .done ack []
    else .sendFile data fun
      | false => .done makeNack []
      | true => .receive fun result => .done result []
  | .readFile _ => .receive fun ack =>
    if !ack.isAck then .done ack []
    else .receiveFile fun
      | none => .done makeNack []
      | some data => .receive fun result => .done result data
  | .deleteFile _ | .acquireLock _ | .releaseLock _ | .heartbeat =>
    .receive fun reply => .done reply []

/-- **The cut call is the call.** -/
theorem Rpc.rest_eq (r : Rpc) : r.rest = r.calling.exec := by
  have hupload : ∀ data, uploadRest data = (Rpc.createFile [] 0 data).calling.exec := by
    intro data
    simp only [uploadRest, calling, Calling.exec]
    congr 1
    funext ack
    split
    · rfl
    · simp only [Calling.exec]
      congr 1
      funext sent
      cases sent <;> rfl
  cases r with
  | createFile path version data | updateFile path version data => exact hupload data
  | readFile path =>
    simp only [rest, readRest, calling, Calling.exec]
    congr 1
    funext ack
    split
    · rfl
    · simp only [Calling.exec]
      congr 1
      funext data
      cases data <;> rfl
  | deleteFile path | acquireLock path | releaseLock path | heartbeat => rfl

/-- What `Client` asks of its session. -/
inductive ClientCall where
  | rpc (r : Rpc)
  | syncStatus
  | closeConn
deriving DecidableEq, Repr

/-- The request frame. -/
def ClientCall.message : ClientCall → Message
  | rpc r => { opcode := r.opcode, fields := r.fields }
  | syncStatus => { opcode := .syncStatus }
  | closeConn => { opcode := .close }

/-- Where the client's worker stands.  `takingFile`: it receives the file of a push,
on its own or inside `syncStatus`; `gone`: the connection is closed; `garbled`: a
frame was read as a file or a file as a frame. -/
inductive ClientPhase where
  | idle
  | busy (call : Calling)
  | syncing
  | takingFile (insideSync : Bool)
  | gone
  | garbled

namespace ClientPhase

/-- The worker waits for something to arrive for a call. -/
def waits : ClientPhase → Bool
  | busy _ | syncing => true
  | _ => false

/-- The call goes on to where it waits; files over `FILETRANSFER_MAX_SIZE` are not sent. -/
def settle : Calling → ClientPhase × List Parcel
  | .done _ _ => (idle, [])
  | .sendFile data next =>
    if fileTransferMaxSize < data.length then settle (next false)
    else ((settle (next true)).1, .file data :: (settle (next true)).2)
  | call => (busy call, [])

/-- `Client::handlePush`, as far as the connection goes: only HEARTBEAT is answered. -/
def handlePush (msg : Message) : ClientPhase × List Parcel :=
  match msg.opcode with
  | .pushCreateFile | .pushUpdateFile => (takingFile false, [])
  | .heartbeat => (idle, [.frame (Response.ack true).message])
  | .close | .nackStaleEpoch => (gone, [])
  | _ => (idle, [])

/-- One pass of the loop of `SquidProtocol::syncStatus`. -/
def syncStatus (msg : Message) : ClientPhase × List Parcel :=
  if msg.isResponse || msg.isAck then (idle, [])
  else match msg.opcode with
    | .pushCreateFile | .pushUpdateFile => (takingFile true, [])
    | .pushDeleteFile => (syncing, [])
    | .heartbeat => (syncing, [.frame (Response.ack true).message])
    | _ => (gone, [])

/-- The worker reads what has arrived. -/
def read : ClientPhase → Parcel → ClientPhase × List Parcel
  | idle, .frame msg => handlePush msg
  | syncing, .frame msg => syncStatus msg
  | busy (.receive next), .frame msg => settle (next msg)
  | busy (.receiveFile next), .file data => settle (next (some data))
  | takingFile insideSync, .file _ => (if insideSync then syncing else idle, [])
  | _, _ => (garbled, [])

end ClientPhase

/-- Where the client stands once the request is sent. -/
def ClientCall.start : ClientCall → ClientPhase
  | rpc r => (ClientPhase.settle r.calling).1
  | syncStatus => .syncing
  | closeConn => .gone

/-! ### The machine -/

/-- A task in the queue of the server's session: a posted `releaseLock`, or the task
that the pool thread waits for. -/
inductive SessionTask where
  | releaseLock (filePath : Bytes)
  | handler
deriving DecidableEq, Repr

/-- Where the server's session worker stands. -/
inductive SessionWorker where
  | looping
  | inReleaseLock
  | inUpload
  | garbled
deriving DecidableEq, Repr

/-- The pool thread of the session's request.  `crashed`: an exception has left
`handleClientRequest`, and `resumeReads` with it. -/
inductive PoolThread where
  | free
  | submitted (msg : Message)
  | running (left : Handling)
  | waiting (left : Handling)
  | crashed

def PoolThread.isFree : PoolThread → Bool
  | free => true
  | _ => false

/-- A client named `name`, the server's session for it and what is on the way, with
the request frames the client has sent and those that `handleClientRequest` has got. -/
structure ClientLink where
  name : Bytes
  rm : ReplicationManager
  client : ClientPhase := .idle
  toServer : List Parcel := []
  toClient : List Parcel := []
  tasks : List SessionTask := []
  worker : SessionWorker := .looping
  pool : PoolThread := .free
  suspended : Bool := false
  alive : Bool := true
  sent : List Message := []
  dispatched : List Message := []

inductive LinkEvent where
  | call (c : ClientCall)
  | receive
  | work
  | serve (mg : Managers) (now : ℕ) (replies : List (StrMap Int32))
  | handle
  | throws
  | sweep (now : ℕ)
  | locks (rm : ReplicationManager)

namespace ClientLink

/-- The frame of `protocol.releaseLock`. -/
def releaseLockMessage (filePath : Bytes) : Message :=
  { opcode := .releaseLock, fields := [fieldString .filePath filePath] }

/-- The client's worker runs a call up to where it waits. -/
def call (l : ClientLink) (c : ClientCall) : Option ClientLink :=
  match l.client with
  | .idle => some { l with
      client := c.start
      toServer := l.toServer ++ [.frame c.message]
      sent := l.sent ++ [c.message] }
  | _ => none

/-- The client's worker reads what has arrived. -/
def receive (l : ClientLink) : Option ClientLink :=
  match l.client, l.toClient with
  | .gone, _ | .garbled, _ | _, [] => none
  | client, parcel :: rest => some { l with
      client := (client.read parcel).1
      toClient := rest
      toServer := l.toServer ++ (client.read parcel).2 }

/-- The worker runs the task that the pool thread waits for. -/
def runTask (l : ClientLink) : Option ClientLink :=
  match l.pool with
  | .waiting (.respond reply next) =>
    match reply.format with
    | .ok _ => some { l with
        toClient := l.toClient ++ [.frame reply.message], pool := .running next }
    | .error _ => some { l with pool := .crashed }
  | .waiting (.sendFile data next) =>
    if fileTransferMaxSize < data.length then some { l with pool := .running (next false) }
    else some { l with toClient := l.toClient ++ [.file data], pool := .running (next true) }
  | .waiting (.upload _) => some { l with
      toClient := l.toClient ++ [.frame (Response.ack true).message], worker := .inUpload }
  | _ => none

/-- One step of the worker's loop (`ConnectionSession::run`): a task, or else a frame
for the request handler, which suspends the reads and hands it to the pool.  Inside
`protocol.releaseLock` the next frame is the reply. -/
def work (l : ClientLink) : Option ClientLink :=
  if !l.alive then none
  else match l.worker, l.tasks, l.toServer with
    | .looping, .releaseLock filePath :: tasks, _ => some { l with
        tasks := tasks
        worker := .inReleaseLock
        toClient := l.toClient ++ [.frame (releaseLockMessage filePath)] }
    | .looping, .handler :: tasks, _ => runTask { l with tasks := tasks }
    | .looping, [], .frame msg :: rest =>
      if l.suspended then none
      else some { l with toServer := rest, suspended := true, pool := .submitted msg }
    | .looping, [], .file _ :: _ => if l.suspended then none else some { l with worker := .garbled }
    | .inReleaseLock, _, .frame _ :: rest => some { l with toServer := rest, worker := .looping }
    | .inReleaseLock, _, .file _ :: _ => some { l with worker := .garbled }
    | .inUpload, _, .file data :: rest =>
      match l.pool with
      | .waiting (.upload next) => some { l with
          toServer := rest, worker := .looping, pool := .running (next (some data)) }
      | _ => none
    | .inUpload, _, .frame _ :: _ => some { l with worker := .garbled }
    | _, _, [] => none
    | .garbled, _, _ => none

/-- What the managers answer, with the lock table of the server. -/
def managers (l : ClientLink) (mg : Managers) (now : ℕ) (replies : List (StrMap Int32)) :
    Managers :=
  { mg with
    acquireLock := fun path => (l.rm.acquireLock path l.name now replies).1
    releaseLock := fun path => (l.rm.releaseLock path replies).1 }

/-- The lock table after a request. -/
def lockTable (l : ClientLink) (msg : Message) (now : ℕ) (replies : List (StrMap Int32)) :
    ReplicationManager :=
  match msg.opcode with
  | .acquireLock => (l.rm.acquireLock (msg.getString .filePath) l.name now replies).2
  | .releaseLock => (l.rm.releaseLock (msg.getString .filePath) replies).2
  | _ => l.rm

/-- The pool thread calls `handleClientRequest`. -/
def serve (l : ClientLink) (mg : Managers) (now : ℕ) (replies : List (StrMap Int32)) :
    Option ClientLink :=
  match l.pool with
  | .submitted msg => some { l with
      pool := .running (handling (l.managers mg now replies) msg)
      rm := l.lockTable msg now replies
      dispatched := l.dispatched ++ [msg] }
  | _ => none

/-- The pool thread posts its next task, or returns and resumes the reads. -/
def handle (l : ClientLink) : Option ClientLink :=
  match l.pool with
  | .running .finish => some { l with pool := .free, suspended := false }
  | .running .close => some { l with alive := false, pool := .free, suspended := false }
  | .running left => some { l with pool := .waiting left, tasks := l.tasks ++ [.handler] }
  | _ => none

/-- A manager throws before the response. -/
def throws (l : ClientLink) : Option ClientLink :=
  match l.pool with
  | .running (.respond _ _) => some { l with pool := .crashed }
  | _ => none

/-- The `releaseLock` tasks that `checkFileLockExpiration` posts to this session. -/
def expiries (l : ClientLink) (now : ℕ) : List Bytes :=
  ((l.rm.checkFileLockExpiration now).2.filter fun e => e.2 = l.name).map Prod.fst

def sweep (l : ClientLink) (now : ℕ) : ClientLink :=
  { l with
    rm := (l.rm.checkFileLockExpiration now).1
    tasks := l.tasks ++ (l.expiries now).map .releaseLock }

/-- What happens next; `locks` is whatever the other sessions do to the lock table. -/
def step (l : ClientLink) : LinkEvent → Option ClientLink
  | .call c => l.call c
  | .receive => l.receive
  | .work => l.work
  | .serve mg now replies => l.serve mg now replies
  | .handle => l.handle
  | .throws => l.throws
  | .sweep now => some (l.sweep now)
  | .locks rm => some { l with rm := rm }

end ClientLink

end Squid
