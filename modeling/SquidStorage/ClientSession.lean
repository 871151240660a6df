/-
The server's session for a client, and the calls the client makes on it.

The server's session worker runs queued tasks one at a time, so push tasks can
run between the separate sends that make up a reply
(`Server::handleClientRequest`).  `serve mg w` is one request on the session
with the pushes `w k` run before the `k`-th send of the reply; `mg` stands for
what the managers answer.

* `execAll_cons_out` — a push that runs first is what is written first;
* `answers_handleClientRequest` — every request ends with a response frame;
* `Rpc.rest_of_not_ack` — a first message that is no ACK is what a call returns.
-/
import SquidStorage.Protocol

open BigEndian

namespace Squid

/-! ### The server's session -/

/-- The push tasks that `ConnectionSession` posts to a client. -/
inductive PushTask where
  | pushCreateFile (filePath : Bytes) (version : Int32) (fileData : Bytes)
  | pushUpdateFile (filePath : Bytes) (version : Int32) (fileData : Bytes)
  | pushDeleteFile (filePath : Bytes)
deriving DecidableEq, Repr

def PushTask.exec : PushTask → ProtoM Unit
  | .pushCreateFile p v d => Squid.pushCreateFile p v d
  | .pushUpdateFile p v d => Squid.pushUpdateFile p v d
  | .pushDeleteFile p => Squid.pushDeleteFile p

/-- Push tasks run one after the other. -/
def execAll : List PushTask → ProtoM Unit
  | [] => pure ()
  | t :: ts => do
    t.exec
    execAll ts

/-- What the managers answer to a request. -/
structure Managers where
  propagateCreateFile : Bytes → Int32 → Bytes → Bool
  getFileFromDataNode : Bytes → Option Bytes
  getKnownVersion : Bytes → Int32
  propagateUpdateFile : Bytes → Int32 → Bytes → Int32
  getFileVersionMap : StrMap Int32
  acquireLock : Bytes → Bool
  releaseLock : Bytes → Bool

/-- The CREATE and UPDATE branches: the ACK and the receiving of the bytes are
one task of the session, the final answer is another. -/
def receiveUpload (w : ℕ → List PushTask) (answer : Bytes → ProtoM Unit) : ProtoM Unit := do
  response true
  let fileData ← receiveFile
  execAll (w 1)
  match fileData with
  | none => response false
  | some fileData => answer fileData

/-- The READ branch once the file has been found: three tasks. -/
def sendDownload (w : ℕ → List PushTask) (fileData : Bytes) (ver : Int32) : ProtoM Unit := do
  response true
  execAll (w 1)
  let sent ← sendFile fileData
  execAll (w 2)
  responseVersion sent ver

/-- `Server::handleClientRequest`. -/
def handleClientRequest (mg : Managers) (w : ℕ → List PushTask) (mex : Message) : ProtoM Unit :=
  let filePath := mex.getString .filePath
  let fileVersion := toInt32 (mex.getUint32 .fileVersion 0)
  match mex.opcode with
  | .createFile => receiveUpload w fun fileData =>
      response (mg.propagateCreateFile filePath fileVersion fileData)
  | .readFile =>
    match mg.getFileFromDataNode filePath with
    | none => response false
    | some fileData => sendDownload w fileData (mg.getKnownVersion filePath)
  | .updateFile => receiveUpload w fun fileData =>
      let newVersion := mg.propagateUpdateFile filePath fileVersion fileData
      if 0 ≤ newVersion then responseVersion true newVersion else response false
  | .deleteFile => response true
  | .syncStatus => sendFrame (responseFileVersionMap mg.getFileVersionMap)
  | .acquireLock => response (mg.acquireLock filePath)
  | .releaseLock => response (mg.releaseLock filePath)
  | .heartbeat => response true
  | .close => do
    response true
    markDead
  | _ => response false

/-- One request on the session: the worker reads a frame, runs what is queued,
and runs the sends of the handler as they come. -/
def serve (mg : Managers) (w : ℕ → List PushTask) : ProtoM Unit := do
  let mex ← receiveAndParse
  execAll (w 0)
  handleClientRequest mg w mex

/-! ### The client's calls -/

inductive Rpc where
  | createFile (filePath : Bytes) (version : Int32) (fileData : Bytes)
  | readFile (filePath : Bytes)
  | updateFile (filePath : Bytes) (version : Int32) (fileData : Bytes)
  | deleteFile (filePath : Bytes)
  | acquireLock (filePath : Bytes)
  | releaseLock (filePath : Bytes)
  | heartbeat
deriving DecidableEq, Repr

/-- A call that delivers no file bytes. -/
def messageOnly (x : ProtoM Message) : ProtoM (Message × Bytes) := do
  let m ← x
  pure (m, [])

/-- A call, returning the reply and the file bytes it delivers. -/
def Rpc.call : Rpc → ProtoM (Message × Bytes)
  | .createFile p v d => messageOnly (Squid.createFile p v d)
  | .readFile p => Squid.readFile p
  | .updateFile p v d => messageOnly (Squid.updateFile p v d)
  | .deleteFile p => messageOnly (Squid.deleteFile p)
  | .acquireLock p => messageOnly (Squid.acquireLock p)
  | .releaseLock p => messageOnly (Squid.releaseLock p)
  | .heartbeat => messageOnly Squid.heartbeat

/-! ### What is written first, and last -/

def PushTask.opcode : PushTask → Opcode
  | .pushCreateFile .. => .pushCreateFile
  | .pushUpdateFile .. => .pushUpdateFile
  | .pushDeleteFile .. => .pushDeleteFile

def PushTask.fields : PushTask → List BinaryField
  | .pushCreateFile p v _ | .pushUpdateFile p v _ =>
    [fieldString .filePath p, fieldUint32 .fileVersion (toUint32 v)]
  | .pushDeleteFile p => [fieldString .filePath p]

theorem PushTask.opcode_ne_response (t : PushTask) : t.opcode ≠ .response := by
  cases t <;> simp [PushTask.opcode, Opcode.response, Opcode.pushCreateFile,
    Opcode.pushUpdateFile, Opcode.pushDeleteFile]

theorem PushTask.exec_eq (t : PushTask) :
    ∃ k, t.exec = (sendFrame (buildFrame t.opcode 0 t.fields) >>= fun _ => k) ∧ Appends k := by
  cases t with
  | pushCreateFile p v d | pushUpdateFile p v d =>
    exact ⟨_, rfl, (appends_sendFile d).bind fun _ => (silent_pure ()).appends⟩
  | pushDeleteFile p =>
    exact ⟨pure (), (bind_pure _).symm, (silent_pure ()).appends⟩

theorem appends_execAll (ts : List PushTask) : Appends (execAll ts) := by
  induction ts with
  | nil => exact (silent_pure ()).appends
  | cons t ts ih =>
    obtain ⟨k, hk, happ⟩ := t.exec_eq
    have ht : Appends t.exec := by
      rw [hk]
      exact (appends_sendFrame _).bind fun _ => happ
    exact ht.bind fun _ => ih

/-- Calls that start with a frame: it is what they write first. -/
theorem sendFrame_bind_out {α : Type} {k : ProtoM α} (hk : Appends k)
    {fields : List BinaryField} (h : Fits fields) (opcode : Opcode) (flags : UInt8) (s : Proto) :
    ∃ post, ((sendFrame (buildFrame opcode flags fields) >>= fun _ => k).run s).2.out
      = s.out ++ .frame (frameBytes opcode flags s.nextSendSeq 0 fields) :: post := by
  rw [bind_done (sendFrame_fits h opcode flags s)]
  obtain ⟨post, hpost⟩ := hk (s.framed (frameBytes opcode flags s.nextSendSeq 0 fields))
  exact ⟨post, by rw [hpost]; simp [Proto.framed]⟩

/-- If a push runs before `k` and all of it finishes, the frame of the push is
what is written first. -/
theorem execAll_cons_out {t : PushTask} {ts : List PushTask} {k : ProtoM Unit} (hk : Appends k)
    {s s' : Proto} (h : (execAll (t :: ts) >>= fun _ => k).run s = (.done (), s')) :
    Fits t.fields ∧ ∃ post,
      s'.out = s.out ++ .frame (frameBytes t.opcode 0 s.nextSendSeq 0 t.fields) :: post := by
  obtain ⟨k', hk', happ'⟩ := t.exec_eq
  -- everything after the frame of the push only appends
  have hrest : Appends (k' >>= fun _ => execAll ts >>= fun _ => k) :=
    happ'.bind fun _ => (appends_execAll ts).bind fun _ => hk
  have heq : (execAll (t :: ts) >>= fun _ => k)
      = (sendFrame (buildFrame t.opcode 0 t.fields) >>= fun _ =>
          k' >>= fun _ => execAll ts >>= fun _ => k) := by
    rw [execAll, hk']
    simp only [bind_assoc]
  rw [heq] at h
  -- a push that cannot be built would have thrown
  have hfit : Fits t.fields := by
    by_contra hfit
    obtain ⟨e, he⟩ := sendFrame_not_fits hfit t.opcode 0 s
    rw [bind_thrown he] at h
    simp at h
  obtain ⟨post, hpost⟩ := sendFrame_bind_out hrest hfit t.opcode 0 s
  rw [h] at hpost
  exact ⟨hfit, post, hpost⟩

/-- A call whose last write, if it finishes, is a response frame whose fields
satisfy `P`. -/
def Answers (P : List BinaryField → Prop) (x : ProtoM Unit) : Prop :=
  ∀ s s', x.run s = (.done (), s') → ∃ pre seq fields, Fits fields ∧ P fields ∧
    s'.out = pre ++ [.frame (frameBytes .response flagResponse seq 0 fields)]

section Answers

variable {P : List BinaryField → Prop}

theorem Answers.bind {α : Type} {x : ProtoM α} {f : α → ProtoM Unit}
    (hf : ∀ a, Answers P (f a)) : Answers P (x >>= f) := by
  intro s s' h
  obtain ⟨a, t, -, hft⟩ := bind_eq_done h
  exact hf a t s' hft

theorem answers_sendFrame {fields : List BinaryField} (hP : P fields) :
    Answers P (sendFrame (buildFrame .response flagResponse fields)) := by
  intro s s' h
  by_cases hfit : Fits fields
  · rw [sendFrame_fits hfit] at h
    obtain ⟨-, rfl⟩ := Prod.mk.inj h
    exact ⟨_, _, _, hfit, hP, rfl⟩
  · obtain ⟨e, he⟩ := sendFrame_not_fits hfit .response flagResponse s
    rw [he] at h
    simp at h

theorem answers_receiveUpload {w : ℕ → List PushTask} {answer : Bytes → ProtoM Unit}
    (hnack : P [fieldBool .ack false]) (h : ∀ d, Answers P (answer d)) :
    Answers P (receiveUpload w answer) := by
  refine Answers.bind fun _ => Answers.bind fun fileData => Answers.bind fun _ => ?_
  cases fileData with
  | none => exact answers_sendFrame hnack
  | some d => exact h d

/-- A download ends with an ACK bit and a version. -/
theorem answers_sendDownload {w : ℕ → List PushTask} {d : Bytes} {ver : Int32}
    (hP : ∀ b, P [fieldBool .ack b, fieldUint32 .fileVersion (toUint32 ver)]) :
    Answers P (sendDownload w d ver) :=
  Answers.bind fun _ => Answers.bind fun _ => Answers.bind fun b => Answers.bind fun _ =>
    answers_sendFrame (hP b)

end Answers

/-- **Every request ends with a response**, whatever its opcode. -/
theorem answers_handleClientRequest (mg : Managers) (w : ℕ → List PushTask) (mex : Message) :
    Answers (fun _ => True) (handleClientRequest mg w mex) := by
  rw [handleClientRequest]
  dsimp only
  split
  · exact answers_receiveUpload trivial fun _ => answers_sendFrame trivial
  · split
    · exact answers_sendFrame trivial
    · exact answers_sendDownload fun _ => trivial
  · refine answers_receiveUpload trivial fun d => ?_
    split
    · exact answers_sendFrame trivial
    · exact answers_sendFrame trivial
  · exact answers_sendFrame trivial
  · exact answers_sendFrame trivial
  · exact answers_sendFrame trivial
  · exact answers_sendFrame trivial
  · exact answers_sendFrame trivial
  · -- CLOSE: the session is marked dead after the answer
    intro s s' h
    obtain ⟨a, t, hresp, hdead⟩ := bind_eq_done h
    have hanswer := answers_sendFrame (P := fun _ => True) trivial s t hresp
    obtain ⟨-, rfl⟩ := Prod.mk.inj hdead
    exact hanswer
  · exact answers_sendFrame trivial

theorem appends_response (b : Bool) : Appends (response b) := appends_sendFrame _

theorem appends_responseVersion (b : Bool) (v : Int32) : Appends (responseVersion b v) :=
  appends_sendFrame _

theorem appends_receiveUpload {w : ℕ → List PushTask} {answer : Bytes → ProtoM Unit}
    (h : ∀ d, Appends (answer d)) : Appends (receiveUpload w answer) := by
  refine (appends_response true).bind fun _ => silent_receiveFile.appends.bind fun fileData =>
    (appends_execAll _).bind fun _ => ?_
  cases fileData with
  | none => exact appends_response false
  | some d => exact h d

theorem appends_sendDownload (w : ℕ → List PushTask) (d : Bytes) (ver : Int32) :
    Appends (sendDownload w d ver) :=
  (appends_response true).bind fun _ => (appends_execAll _).bind fun _ =>
    (appends_sendFile d).bind fun _ => (appends_execAll _).bind fun _ =>
      appends_responseVersion _ _

theorem appends_handleClientRequest (mg : Managers) (w : ℕ → List PushTask) (mex : Message) :
    Appends (handleClientRequest mg w mex) := by
  rw [handleClientRequest]
  dsimp only
  split
  · exact appends_receiveUpload fun _ => appends_response _
  · split
    · exact appends_response false
    · exact appends_sendDownload _ _ _
  · refine appends_receiveUpload fun d => ?_
    split
    · exact appends_responseVersion _ _
    · exact appends_response false
  · exact appends_response true
  · exact appends_sendFrame _
  · exact appends_response _
  · exact appends_response _
  · exact appends_response true
  · exact (appends_response true).bind fun _ => silent_markDead.appends
  · exact appends_response false

/-! ### The client's side of a call -/

def Rpc.opcode : Rpc → Opcode
  | .createFile .. => .createFile
  | .readFile .. => .readFile
  | .updateFile .. => .updateFile
  | .deleteFile .. => .deleteFile
  | .acquireLock .. => .acquireLock
  | .releaseLock .. => .releaseLock
  | .heartbeat => .heartbeat

def Rpc.fields : Rpc → List BinaryField
  | .createFile p v _ | .updateFile p v _ =>
    [fieldString .filePath p, fieldUint32 .fileVersion (toUint32 v)]
  | .readFile p | .deleteFile p | .acquireLock p | .releaseLock p => [fieldString .filePath p]
  | .heartbeat => []

/-- The bytes of a call's request. -/
def Rpc.request (r : Rpc) (c : Proto) : Bytes := frameBytes r.opcode 0 c.nextSendSeq 0 r.fields

/-- The message the server reads from a request. -/
def Rpc.message (r : Rpc) (c : Proto) : Message :=
  { opcode := r.opcode, flags := 0, seq := c.nextSendSeq, fields := r.fields }

/-- The rest of an upload once its request has been sent. -/
def uploadRest (fileData : Bytes) : ProtoM (Message × Bytes) := do
  let ack ← receiveAndParse
  if !ack.isAck then pure (ack, [])
  else if !(← sendFile fileData) then pure (makeNack, [])
  else do
    let result ← receiveAndParse
    pure (result, [])

/-- The rest of a `readFile` once its request has been sent. -/
def readRest : ProtoM (Message × Bytes) := do
  let ack ← receiveAndParse
  if !ack.isAck then pure (ack, [])
  else match ← receiveFile with
    | none => pure (makeNack, [])
    | some fileData => do
      let result ← receiveAndParse
      pure (result, fileData)

/-- What a call does after sending its request. -/
def Rpc.rest : Rpc → ProtoM (Message × Bytes)
  | .createFile _ _ d | .updateFile _ _ d => uploadRest d
  | .readFile _ => readRest
  | .deleteFile _ | .acquireLock _ | .releaseLock _ | .heartbeat => messageOnly receiveAndParse

theorem messageOnly_upload (request : Except String Bytes) (d : Bytes) :
    messageOnly (upload request d) = (sendFrame request >>= fun _ => uploadRest d) := by
  simp only [messageOnly, upload, uploadRest, bind_assoc]
  congr 1
  funext _
  congr 1
  funext ack
  split
  · rw [pure_bind]
  · simp only [bind_assoc]
    congr 1
    funext sent
    split
    · rw [pure_bind]
    · rfl

theorem Rpc.call_eq (r : Rpc) :
    r.call = (sendFrame (buildFrame r.opcode 0 r.fields) >>= fun _ => r.rest) := by
  cases r with
  | createFile p v d | updateFile p v d => exact messageOnly_upload _ d
  | readFile p => rfl
  | deleteFile p | acquireLock p | releaseLock p | heartbeat =>
    exact bind_assoc _ _ _

theorem silent_readRest : Silent readRest := by
  refine silent_receiveAndParse.bind fun ack => ?_
  split
  · exact silent_pure _
  · refine silent_receiveFile.bind fun fileData => ?_
    cases fileData with
    | none => exact silent_pure _
    | some d => exact silent_receiveAndParse.bind fun _ => silent_pure _

theorem Rpc.appends_rest (r : Rpc) : Appends r.rest := by
  have hupload : ∀ d, Appends (uploadRest d) := by
    intro d
    refine silent_receiveAndParse.appends.bind fun ack => ?_
    split
    · exact (silent_pure _).appends
    · refine (appends_sendFile d).bind fun sent => ?_
      split
      · exact (silent_pure _).appends
      · exact (silent_receiveAndParse.bind fun _ => silent_pure _).appends
  cases r with
  | createFile p v d | updateFile p v d => exact hupload d
  | readFile p => exact silent_readRest.appends
  | deleteFile p | acquireLock p | releaseLock p | heartbeat =>
    exact (silent_receiveAndParse.bind fun _ => silent_pure _).appends

/-- A first message that is not an ACK is what every call returns. -/
theorem Rpc.rest_of_not_ack (r : Rpc) {c : Proto} {opcode : Opcode} {flags : UInt8}
    {fields : List BinaryField} {unread : Bytes} (hfields : Fits fields)
    (hbuf : c.reorderBuffer = ∅)
    (hinp : c.inp = frameBytes opcode flags c.expectedRecvSeq 0 fields ++ unread)
    (hack : Message.isAck { opcode := opcode, flags := flags, seq := c.expectedRecvSeq,
                            fields := fields } = false) :
    r.rest.run c
      = (.done ({ opcode := opcode, flags := flags, seq := c.expectedRecvSeq,
                  fields := fields }, []), c.delivered unread) := by
  have hrecv := receiveAndParse_frame hfields hbuf hinp
  cases r with
  | createFile p v d | updateFile p v d =>
    rw [Rpc.rest, uploadRest, bind_done hrecv, hack]
    rfl
  | readFile p =>
    rw [Rpc.rest, readRest, bind_done hrecv, hack]
    rfl
  | deleteFile p | acquireLock p | releaseLock p | heartbeat =>
    rw [Rpc.rest, messageOnly, bind_done hrecv, pure_run]

end Squid
