/-
One end of a connection (`SquidProtocol` with its `FileTransfer`).

A call on a `SquidProtocol` reads bytes the peer has sent and appends frames
and file transfers to what this end has sent.  It is modelled as a state
transformer `ProtoM` over the end's state `Proto`; a call that needs more bytes
than have arrived is still `waiting`, and a frame that the formatter refuses to
build makes it `thrown`.

* `receiveFrame_frameBytes`, `receiveAndParse_frame` — a frame that arrives
  whole and in sequence is delivered, and exactly its bytes are consumed;
* `receiveFile_blob` — the same for a file transfer;
* `receiveAndParse_fuel` — the receiving loop never stops for lack of fuel.
-/
import SquidStorage.Formatter

open BigEndian

namespace Squid

/-- `MAX_PAYLOAD_SIZE`. -/
def maxPayloadSize : ℕ := 16 * 1024 * 1024

/-- `FILETRANSFER_MAX_SIZE`. -/
def fileTransferMaxSize : ℕ := 2 ^ 30

/-- What one end writes: a frame, or a file transfer (size and bytes). -/
inductive Sent where
  | frame (bytes : Bytes)
  | blob (bytes : Bytes)
deriving DecidableEq, Repr

/-- The bytes of one write. -/
def Sent.bytes : Sent → Bytes
  | .frame bs => bs
  | .blob bs => bs

/-- The byte stream of a sequence of writes. -/
def wire (sent : List Sent) : Bytes := sent.flatMap Sent.bytes

@[simp] theorem wire_nil : wire [] = [] := rfl

@[simp] theorem wire_cons (x : Sent) (xs : List Sent) : wire (x :: xs) = x.bytes ++ wire xs := by
  simp [wire]

@[simp] theorem wire_append (xs ys : List Sent) : wire (xs ++ ys) = wire xs ++ wire ys := by
  simp [wire]

/-- The state of a `SquidProtocol` and of its channel. -/
structure Proto where
  alive : Bool := true
  nextSendSeq : UInt32 := 0
  expectedRecvSeq : UInt32 := 0
  lastDeliveredSeq : UInt32 := 0
  reorderBuffer : Std.ExtTreeMap UInt32 Bytes := ∅
  /-- bytes that have arrived and are not read yet -/
  inp : Bytes := []
  /-- no byte will follow `inp`: the next read past it returns `0` or `-1` -/
  peerClosed : Bool := false
  /-- everything written so far -/
  out : List Sent := []

/-- The state once a frame has been written. -/
def Proto.framed (s : Proto) (frame : Bytes) : Proto :=
  { s with nextSendSeq := s.nextSendSeq + 1, out := s.out ++ [.frame frame] }

/-- The state once the expected frame has been delivered and `rest` is left. -/
def Proto.delivered (s : Proto) (rest : Bytes) : Proto :=
  { s with inp := rest, lastDeliveredSeq := s.expectedRecvSeq,
           expectedRecvSeq := s.expectedRecvSeq + 1 }

/-- The state once a file has been written. -/
def Proto.sentBlob (s : Proto) (data : Bytes) : Proto :=
  { s with out := s.out ++ [.blob (pushU64 data.length ++ data)] }

/-- How far a call has come. -/
inductive Outcome (α : Type) where
  | done (a : α)
  | waiting
  | thrown (e : String)
deriving DecidableEq, Repr

/-- A call on one end of the connection. -/
structure ProtoM (α : Type) where
  run : Proto → Outcome α × Proto

/-- Go on with the result of a finished call; an unfinished one stays unfinished. -/
def ProtoM.andThen {α β : Type} (x : ProtoM α) (f : α → ProtoM β) : ProtoM β := ⟨fun s =>
  match x.run s with
  | (.done a, s') => (f a).run s'
  | (.waiting, s') => (.waiting, s')
  | (.thrown e, s') => (.thrown e, s')⟩

instance : Monad ProtoM where
  pure a := ⟨fun s => (.done a, s)⟩
  bind := ProtoM.andThen

section Monad

variable {α β : Type} {x : ProtoM α} {f : α → ProtoM β} {s s' : Proto}

theorem bind_done {a : α} (h : x.run s = (.done a, s')) :
    (x >>= f).run s = (f a).run s' := by
  show (x.andThen f).run s = (f a).run s'
  simp only [ProtoM.andThen, h]

theorem bind_waiting (h : x.run s = (.waiting, s')) : (x >>= f).run s = (.waiting, s') := by
  show (x.andThen f).run s = (.waiting, s')
  simp only [ProtoM.andThen, h]

theorem bind_thrown {e : String} (h : x.run s = (.thrown e, s')) :
    (x >>= f).run s = (.thrown e, s') := by
  show (x.andThen f).run s = (.thrown e, s')
  simp only [ProtoM.andThen, h]

private theorem andThen_pure (x : ProtoM α) : x.andThen pure = x := by
  simp only [ProtoM.andThen]
  congr 1
  funext s
  rcases h : x.run s with ⟨a | _ | e, t⟩ <;> rfl

private theorem andThen_assoc {γ : Type} (x : ProtoM α) (f : α → ProtoM β) (g : β → ProtoM γ) :
    (x.andThen f).andThen g = x.andThen fun a => (f a).andThen g := by
  simp only [ProtoM.andThen]
  congr 1
  funext s
  rcases h : x.run s with ⟨a | _ | e, t⟩ <;> rfl

instance : LawfulMonad ProtoM :=
  LawfulMonad.mk' ProtoM andThen_pure (fun _ _ => rfl) andThen_assoc

/-- A finished sequence of two calls is two finished calls. -/
theorem bind_eq_done {b : β} (h : (x >>= f).run s = (.done b, s')) :
    ∃ a t, x.run s = (.done a, t) ∧ (f a).run t = (.done b, s') := by
  rcases hx : x.run s with ⟨a | _ | e, t⟩
  · rw [bind_done hx] at h
    exact ⟨a, t, rfl, h⟩
  · rw [bind_waiting hx] at h
    simp at h
  · rw [bind_thrown hx] at h
    simp at h

@[simp] theorem pure_run (a : α) (s : Proto) : (pure a : ProtoM α).run s = (.done a, s) := rfl

end Monad

/-! ### Reading and writing bytes -/

/-- Read exactly `n` bytes; `none` when the stream ends first, and then
`onEnd` says what happens to the state. -/
def readExact (onEnd : Proto → Proto) (n : ℕ) : ProtoM (Option Bytes) := ⟨fun s =>
  if n ≤ s.inp.length then (.done (some (s.inp.take n)), { s with inp := s.inp.drop n })
  else if s.peerClosed then (.done none, onEnd { s with inp := [] })
  else (.waiting, s)⟩

/-- `SquidProtocol::recvExact` with `handleRecvError`: the end of the stream
marks the connection dead. -/
def recvExact (n : ℕ) : ProtoM (Option Bytes) := readExact (fun s => { s with alive := false }) n

/-- `recvAll` of `filetransfer.cpp`: the end of the stream is only reported. -/
def recvAll (n : ℕ) : ProtoM (Option Bytes) := readExact id n

/-- `SquidProtocol::sendFrame` on a frame just built by the formatter. -/
def sendFrame (frame : Except String Bytes) : ProtoM Unit := ⟨fun s =>
  match frame with
  | .error e => (.thrown e, s)
  | .ok bs => (.done (), s.framed (stampSeq bs s.nextSendSeq))⟩

/-- `FileTransfer::sendFile` from memory: the size on eight bytes, then the
bytes (the source sends them in chunks of `BUFFER_SIZE`). -/
def sendFile (data : Bytes) : ProtoM Bool := ⟨fun s =>
  if fileTransferMaxSize < data.length then (.done false, s)
  else (.done true, s.sentBlob data)⟩

/-- `FileTransfer::receiveFile` into memory; `none` when it returns false. -/
def receiveFile : ProtoM (Option Bytes) := do
  match ← recvAll 8 with
  | none => pure none
  | some sizebuf =>
    let filesize := beNat sizebuf
    if fileTransferMaxSize < filesize then pure none else recvAll filesize

/-! ### Frames -/

/-- The field loop of `SquidProtocol::receiveFrame`; `frame` is what has been
read of the frame.  The empty result stands for a failed read. -/
def receiveFields : ℕ → Bytes → ProtoM Bytes
  | 0, frame => pure frame
  | n + 1, frame => do
    match ← recvExact 3 with
    | none => pure []
    | some fhdr =>
      match ← recvExact (readU16 (fhdr.drop 1)) with
      | none => pure []
      | some value => receiveFields n (frame ++ fhdr ++ value)

/-- `alive_.store(false)`. -/
def markDead : ProtoM Unit := ⟨fun s => (.done (), { s with alive := false })⟩

/-- The rest of `receiveFrame` once the header has been read. -/
def receiveBody (header : Bytes) : ProtoM Bytes := do
  if readU16 header ≠ squidMagic then
    markDead
    pure []
  else
    let payloadLen := (readU32 (header.drop 9)).toNat
    let frame ← receiveFields ((header.drop 4).headD 0).toNat header
    if frame = [] then pure []
    else if maxPayloadSize < payloadLen then
      markDead
      pure []
    else
      match ← recvExact payloadLen with
      | none => pure []
      | some payload => pure (frame ++ payload)

/-- `SquidProtocol::receiveFrame`; the empty frame stands for failure. -/
def receiveFrame : ProtoM Bytes := do
  match ← recvExact frameHeaderSize with
  | none => pure []
  | some header => receiveBody header

/-- `SquidProtocol::popNextBuffered`. -/
def popNextBuffered : ProtoM (Option Bytes) := ⟨fun s =>
  match s.reorderBuffer[s.expectedRecvSeq]? with
  | none => (.done none, s)
  | some frame =>
    (.done (some frame), { s with reorderBuffer := s.reorderBuffer.erase s.expectedRecvSeq })⟩

/-- The next frame: from the reorder buffer when it is there, else off the wire. -/
def nextFrame : ProtoM Bytes := do
  match ← popNextBuffered with
  | some frame => pure frame
  | none => receiveFrame

/-- What `receiveAndParse` does with one parsed frame: deliver it, or keep it
for later, or drop it (`none`: read on). -/
def sequenceMessage (raw : Bytes) (msg : Message) : ProtoM (Option Message) := ⟨fun s =>
  if msg.seq = s.expectedRecvSeq then (.done (some msg), s.delivered s.inp)
  else if s.expectedRecvSeq < msg.seq then
    (.done none, { s with reorderBuffer := s.reorderBuffer.insertIfNew msg.seq raw })
  else (.done none, s)⟩

/-- The loop of `SquidProtocol::receiveAndParse`.  Every round that delivers
nothing has taken a frame off the wire, so the fuel of `receiveAndParse` is
never used up (`receiveAndParse_fuel`). -/
def receiveAndParseLoop : ℕ → ProtoM Message
  | 0 => ⟨fun s => (.waiting, s)⟩
  | fuel + 1 => do
    let raw ← nextFrame
    if raw = [] then pure makeNack
    else match parseMessage raw with
      | .error _ => pure makeNack
      | .ok msg =>
        match ← sequenceMessage raw msg with
        | some msg => pure msg
        | none => receiveAndParseLoop fuel

/-- `SquidProtocol::receiveAndParse`. -/
def receiveAndParse : ProtoM Message := ⟨fun s =>
  (receiveAndParseLoop (s.inp.length + 2)).run s⟩

/-! ### Calls -/

/-- `SquidProtocol::response(bool)`. -/
def response (isAck : Bool) : ProtoM Unit := sendFrame (responseAck isAck)

/-- `SquidProtocol::response(bool, int)`. -/
def responseVersion (isAck : Bool) (version : Int32) : ProtoM Unit :=
  sendFrame (responseAckWithVersion isAck version)

/-- The upload of `createFile` and `updateFile`: the request, the ACK that asks
for the bytes, the bytes, the result. -/
def upload (request : Except String Bytes) (fileData : Bytes) : ProtoM Message := do
  sendFrame request
  let ack ← receiveAndParse
  if !ack.isAck then pure ack
  else if !(← sendFile fileData) then pure makeNack
  else receiveAndParse

/-- `SquidProtocol::createFile` with in-memory data. -/
def createFile (filePath : Bytes) (version : Int32) (fileData : Bytes) : ProtoM Message :=
  upload (createFileFormat filePath version) fileData

/-- `SquidProtocol::updateFile` with in-memory data. -/
def updateFile (filePath : Bytes) (version : Int32) (fileData : Bytes) : ProtoM Message :=
  upload (updateFileFormat filePath version) fileData

/-- `SquidProtocol::readFile`: the reply and the bytes received. -/
def readFile (filePath : Bytes) : ProtoM (Message × Bytes) := do
  sendFrame (readFileFormat filePath)
  let ack ← receiveAndParse
  if !ack.isAck then pure (ack, [])
  else match ← receiveFile with
    | none => pure (makeNack, [])
    | some fileData => do
      let result ← receiveAndParse
      pure (result, fileData)

/-- The one-frame calls `deleteFile`, `acquireLock`, `releaseLock` and
`heartbeat`: the request, then whatever message comes next. -/
def simpleCall (request : Except String Bytes) : ProtoM Message := do
  sendFrame request
  receiveAndParse

/-- `SquidProtocol::deleteFile`. -/
def deleteFile (filePath : Bytes) : ProtoM Message := simpleCall (deleteFileFormat filePath)

/-- `SquidProtocol::acquireLock`. -/
def acquireLock (filePath : Bytes) : ProtoM Message := simpleCall (acquireLockFormat filePath)

/-- `SquidProtocol::releaseLock`. -/
def releaseLock (filePath : Bytes) : ProtoM Message := simpleCall (releaseLockFormat filePath)

/-- `SquidProtocol::heartbeat`. -/
def heartbeat : ProtoM Message := simpleCall heartbeatFormat

/-- `SquidProtocol::pushCreateFile`. -/
def pushCreateFile (filePath : Bytes) (version : Int32) (fileData : Bytes) : ProtoM Unit := do
  sendFrame (pushCreateFileFormat filePath version)
  let _ ← sendFile fileData
  pure ()

/-- `SquidProtocol::pushUpdateFile`. -/
def pushUpdateFile (filePath : Bytes) (version : Int32) (fileData : Bytes) : ProtoM Unit := do
  sendFrame (pushUpdateFileFormat filePath version)
  let _ ← sendFile fileData
  pure ()

/-- `SquidProtocol::pushDeleteFile`. -/
def pushDeleteFile (filePath : Bytes) : ProtoM Unit := sendFrame (pushDeleteFileFormat filePath)

/-! ### What is sent -/

theorem sendFrame_fits {fields : List BinaryField} (h : Fits fields) (opcode : Opcode)
    (flags : UInt8) (s : Proto) :
    (sendFrame (buildFrame opcode flags fields)).run s
      = (.done (), s.framed (frameBytes opcode flags s.nextSendSeq 0 fields)) := by
  simp only [sendFrame]
  rw [buildFrame_eq_ok h]
  dsimp only
  rw [stampSeq_frameBytes]

theorem sendFrame_not_fits {fields : List BinaryField} (h : ¬ Fits fields) (opcode : Opcode)
    (flags : UInt8) (s : Proto) :
    ∃ e, (sendFrame (buildFrame opcode flags fields)).run s = (.thrown e, s) := by
  cases hframe : buildFrame opcode flags fields with
  | error e => exact ⟨e, rfl⟩
  | ok frame => exact absurd ((buildFrame_eq_ok_iff opcode flags fields 0).mp ⟨frame, hframe⟩) h

theorem sendFile_sized {data : Bytes} (h : data.length ≤ fileTransferMaxSize) (s : Proto) :
    (sendFile data).run s = (.done true, s.sentBlob data) := by
  simp only [sendFile]
  rw [if_neg (by omega)]

theorem sendFile_large {data : Bytes} (h : fileTransferMaxSize < data.length) (s : Proto) :
    (sendFile data).run s = (.done false, s) := by
  simp only [sendFile]
  rw [if_pos h]

/-! ### Responses -/

theorem fits_ack (b : Bool) : Fits [fieldBool .ack b] := by
  refine ⟨by simp, fun f hf => ?_⟩
  rw [List.mem_singleton.mp hf]
  simp [fieldBool]

theorem fits_ack_version (b : Bool) (v : UInt32) :
    Fits [fieldBool .ack b, fieldUint32 .fileVersion v] := by
  refine ⟨by simp, fun f hf => ?_⟩
  simp only [List.mem_cons, List.not_mem_nil, or_false] at hf
  rcases hf with rfl | rfl
  · simp [fieldBool]
  · simp [fieldUint32]

/-- A reply of one response frame. -/
def ackFrame (b : Bool) (seq : UInt32) : Bytes :=
  frameBytes .response flagResponse seq 0 [fieldBool .ack b]

def ackMessage (b : Bool) (seq : UInt32) : Message :=
  { opcode := .response, flags := flagResponse, seq := seq, fields := [fieldBool .ack b] }

theorem response_run (b : Bool) (s : Proto) :
    (response b).run s = (.done (), s.framed (ackFrame b s.nextSendSeq)) :=
  sendFrame_fits (fits_ack b) _ _ s

theorem isAck_ackMessage (b : Bool) (seq : UInt32) : (ackMessage b seq).isAck = b := by
  cases b <;>
    simp [ackMessage, Message.isAck, Message.isResponse, Message.getBool, Message.findField,
      fieldBool, flagResponse]

/-! ### What a call does to the state -/

/-- Wherever the call stops, the state is related to the one it started in. -/
def Keeps {α : Type} (R : Proto → Proto → Prop) (x : ProtoM α) : Prop := ∀ s, R s (x.run s).2

/-- A call that takes back nothing of what has been written. -/
def Appends {α : Type} (x : ProtoM α) : Prop := ∀ s, ∃ post, (x.run s).2.out = s.out ++ post

/-- A call that writes nothing. -/
def Silent {α : Type} (x : ProtoM α) : Prop := ∀ s, (x.run s).2.out = s.out

section Keeps

variable {α β : Type} {R : Proto → Proto → Prop} {x : ProtoM α} {f : α → ProtoM β}

theorem Keeps.bind (htrans : ∀ s t u, R s t → R t u → R s u) (hx : Keeps R x)
    (hf : ∀ a, Keeps R (f a)) : Keeps R (x >>= f) := by
  intro s
  have hs := hx s
  rcases h : x.run s with ⟨a | _ | e, t⟩ <;> rw [h] at hs
  · rw [bind_done h]
    exact htrans s t _ hs (hf a t)
  · rw [bind_waiting h]
    exact hs
  · rw [bind_thrown h]
    exact hs

theorem Silent.appends (hx : Silent x) : Appends x := fun s => ⟨[], by rw [hx s, List.append_nil]⟩

theorem silent_pure (a : α) : Silent (pure a : ProtoM α) := fun _ => rfl

theorem silent_markDead : Silent markDead := fun _ => rfl

theorem Silent.bind (hx : Silent x) (hf : ∀ a, Silent (f a)) : Silent (x >>= f) :=
  Keeps.bind (R := fun s t => t.out = s.out) (fun _ _ _ h h' => h'.trans h) hx hf

theorem Appends.bind (hx : Appends x) (hf : ∀ a, Appends (f a)) : Appends (x >>= f) := by
  refine Keeps.bind (R := fun s t => ∃ post, t.out = s.out ++ post) ?_ hx hf
  rintro s t u ⟨post, ht⟩ ⟨post', hu⟩
  exact ⟨post ++ post', by rw [hu, ht, List.append_assoc]⟩

theorem appends_sendFrame (frame : Except String Bytes) : Appends (sendFrame frame) := by
  intro s
  cases frame with
  | error e => exact ⟨[], by simp [sendFrame]⟩
  | ok bs => exact ⟨[.frame (stampSeq bs s.nextSendSeq)], by simp [sendFrame, Proto.framed]⟩

theorem appends_sendFile (data : Bytes) : Appends (sendFile data) := by
  intro s
  simp only [sendFile]
  split
  · exact ⟨[], by simp⟩
  · exact ⟨_, rfl⟩

end Keeps

/-! ### Reading off the wire -/

/-- What holds of a state and what is left of it when bytes have been read. -/
structure ReadRel (R : Proto → Proto → Prop) : Prop where
  refl : ∀ s, R s s
  trans : ∀ s t u, R s t → R t u → R s u
  read : ∀ s rest, rest.length ≤ s.inp.length → R s { s with inp := rest }
  dead : ∀ s, R s { s with alive := false }

section Reading

variable {R : Proto → Proto → Prop}

theorem keeps_recvExact (hR : ReadRel R) (n : ℕ) : Keeps R (recvExact n) := by
  intro s
  simp only [recvExact, readExact]
  split
  · exact hR.read s _ (by simp)
  · split
    · exact hR.trans _ _ _ (hR.read s [] (by simp)) (hR.dead _)
    · exact hR.refl s

theorem keeps_recvAll (hR : ReadRel R) (n : ℕ) : Keeps R (recvAll n) := by
  intro s
  simp only [recvAll, readExact]
  split
  · exact hR.read s _ (by simp)
  · split
    · exact hR.read s [] (by simp)
    · exact hR.refl s

theorem keeps_receiveFile (hR : ReadRel R) : Keeps R receiveFile := by
  refine (keeps_recvAll hR 8).bind hR.trans fun sizebuf => ?_
  cases sizebuf with
  | none => exact hR.refl
  | some sizebuf =>
    dsimp only
    split
    · exact hR.refl
    · exact keeps_recvAll hR _

theorem keeps_receiveFields (hR : ReadRel R) (n : ℕ) (frame : Bytes) :
    Keeps R (receiveFields n frame) := by
  induction n generalizing frame with
  | zero => exact hR.refl
  | succ n ih =>
    refine (keeps_recvExact hR 3).bind hR.trans fun fhdr => ?_
    cases fhdr with
    | none => exact hR.refl
    | some fhdr =>
      refine (keeps_recvExact hR _).bind hR.trans fun value => ?_
      cases value with
      | none => exact hR.refl
      | some value => exact ih _

theorem keeps_receiveBody (hR : ReadRel R) (header : Bytes) : Keeps R (receiveBody header) := by
  have hdead : Keeps R (markDead >>= fun _ => (pure [] : ProtoM Bytes)) := hR.dead
  rw [receiveBody]
  split
  · exact hdead
  · refine (keeps_receiveFields hR _ _).bind hR.trans fun frame => ?_
    split
    · exact hR.refl
    · split
      · exact hdead
      · refine (keeps_recvExact hR _).bind hR.trans fun payload => ?_
        cases payload <;> exact hR.refl

theorem keeps_receiveFrame (hR : ReadRel R) : Keeps R receiveFrame := by
  refine (keeps_recvExact hR _).bind hR.trans fun header => ?_
  cases header with
  | none => exact hR.refl
  | some header => exact keeps_receiveBody hR header

end Reading

theorem readRel_out : ReadRel fun s t => t.out = s.out where
  refl _ := rfl
  trans _ _ _ h h' := h'.trans h
  read _ _ _ := rfl
  dead _ := rfl

theorem silent_receiveFile : Silent receiveFile := keeps_receiveFile readRel_out

theorem silent_nextFrame : Silent nextFrame := by
  have hpop : Silent popNextBuffered := by
    intro s
    simp only [popNextBuffered]
    split <;> rfl
  refine hpop.bind fun frame => ?_
  cases frame with
  | none => exact keeps_receiveFrame readRel_out
  | some frame => exact silent_pure _

theorem silent_sequenceMessage (raw : Bytes) (msg : Message) :
    Silent (sequenceMessage raw msg) := by
  intro s
  simp only [sequenceMessage]
  split
  · rfl
  · split <;> rfl

/-- Receiving a message writes nothing. -/
theorem silent_receiveAndParse : Silent receiveAndParse := by
  have hloop : ∀ fuel, Silent (receiveAndParseLoop fuel) := by
    intro fuel
    induction fuel with
    | zero => exact fun _ => rfl
    | succ fuel ih =>
      refine silent_nextFrame.bind fun raw => ?_
      split
      · exact silent_pure _
      · cases parseMessage raw with
        | error e => exact silent_pure _
        | ok msg =>
          refine (silent_sequenceMessage raw msg).bind fun delivered => ?_
          cases delivered with
          | none => exact ih
          | some msg => exact silent_pure _
  intro s
  exact hloop (s.inp.length + 2) s

/-! ### The loop of `receiveAndParse` comes to an end -/

/-- Bytes may have gone from the wire; the sequencing is as before. -/
def Unsequenced (s t : Proto) : Prop :=
  t.inp.length ≤ s.inp.length ∧ t.reorderBuffer = s.reorderBuffer ∧
    t.expectedRecvSeq = s.expectedRecvSeq

theorem readRel_unsequenced : ReadRel Unsequenced where
  refl _ := ⟨le_rfl, rfl, rfl⟩
  trans _ _ _ h h' := ⟨h'.1.trans h.1, h'.2.1.trans h.2.1, h'.2.2.trans h.2.2⟩
  read _ _ h := ⟨h, rfl, rfl⟩
  dead _ := ⟨le_rfl, rfl, rfl⟩

/-- A received frame has taken its header off the wire. -/
theorem receiveFrame_shrinks {s t : Proto} {raw : Bytes}
    (h : receiveFrame.run s = (.done raw, t)) (hraw : raw ≠ []) :
    t.inp.length < s.inp.length ∧ t.reorderBuffer = s.reorderBuffer := by
  obtain ⟨header, u, hheader, hbody⟩ := bind_eq_done h
  cases header with
  | none =>
    -- without a header there is no frame
    obtain ⟨hempty, -⟩ := Prod.mk.inj hbody
    exact absurd (Outcome.done.inj hempty).symm hraw
  | some header =>
    have hu : Unsequenced u t := by
      have hkeeps := keeps_receiveBody readRel_unsequenced header u
      rwa [show (receiveBody header).run u = _ from hbody] at hkeeps
    simp only [recvExact, readExact] at hheader
    split at hheader
    · rename_i hlen
      obtain ⟨-, rfl⟩ := Prod.mk.inj hheader
      refine ⟨hu.1.trans_lt ?_, hu.2.1⟩
      simp only [List.length_drop, frameHeaderSize] at hlen ⊢
      omega
    · split at hheader
      · simp at hheader
      · simp at hheader

/-- Every frame in the reorder buffer is kept under its own number. -/
def Proto.BufferOk (s : Proto) : Prop :=
  ∀ (seq : UInt32) (raw : Bytes), s.reorderBuffer[seq]? = some raw →
    ∃ msg, parseMessage raw = .ok msg ∧ msg.seq = seq

/-- A round of the loop that delivers nothing has taken a frame off the wire. -/
theorem round_shrinks {s t u : Proto} {raw : Bytes} {msg : Message} (hs : s.BufferOk)
    (hnext : nextFrame.run s = (.done raw, t)) (hraw : raw ≠ []) (hmsg : parseMessage raw = .ok msg)
    (hseq : (sequenceMessage raw msg).run t = (.done none, u)) :
    u.BufferOk ∧ u.inp.length < s.inp.length := by
  obtain ⟨buffered, s', hpop, hrecv⟩ := bind_eq_done hnext
  simp only [popNextBuffered] at hpop
  split at hpop
  · -- nothing is buffered: the frame comes off the wire
    obtain ⟨hnone, rfl⟩ := Prod.mk.inj hpop
    obtain rfl := Outcome.done.inj hnone
    obtain ⟨hshrinks, hbuffer⟩ := receiveFrame_shrinks hrecv hraw
    simp only [sequenceMessage] at hseq
    split at hseq
    · simp at hseq
    · split at hseq
      · obtain ⟨-, rfl⟩ := Prod.mk.inj hseq
        refine ⟨fun seq kept hkept => ?_, hshrinks⟩
        dsimp only at hkept
        rw [Std.ExtTreeMap.getElem?_insertIfNew, hbuffer] at hkept
        split at hkept
        · rename_i hnew
          obtain rfl := Option.some.inj hkept
          exact ⟨msg, hmsg, Std.LawfulEqOrd.eq_of_compare hnew.1⟩
        · exact hs seq kept hkept
      · obtain ⟨-, rfl⟩ := Prod.mk.inj hseq
        refine ⟨fun seq kept hkept => hs seq kept ?_, hshrinks⟩
        rwa [hbuffer] at hkept
  · -- a buffered frame has the expected number, so it is delivered
    rename_i frame hframe
    obtain ⟨hsome, rfl⟩ := Prod.mk.inj hpop
    obtain rfl := Outcome.done.inj hsome
    obtain ⟨hraw', rfl⟩ := Prod.mk.inj hrecv
    obtain rfl := Outcome.done.inj hraw'
    obtain ⟨msg', hmsg', hexpected⟩ := hs _ _ hframe
    obtain rfl := Except.ok.inj (hmsg.symm.trans hmsg')
    simp [sequenceMessage, hexpected] at hseq

/-- **More fuel changes nothing**: `receiveAndParse` never stops for the lack of it. -/
theorem receiveAndParseLoop_fuel {fuel fuel' : ℕ} {s : Proto} (hs : s.BufferOk)
    (h : s.inp.length < fuel) (h' : s.inp.length < fuel') :
    (receiveAndParseLoop fuel).run s = (receiveAndParseLoop fuel').run s := by
  -- each round that goes on leaves fewer bytes, so the bound is kept by the induction
  induction fuel generalizing s fuel' with
  | zero => omega
  | succ fuel ih =>
    obtain ⟨fuel', rfl⟩ : ∃ k, fuel' = k + 1 := ⟨fuel' - 1, by omega⟩
    rw [receiveAndParseLoop, receiveAndParseLoop]
    rcases hnext : nextFrame.run s with ⟨raw | _ | e, t⟩
    · rw [bind_done hnext, bind_done hnext]
      by_cases hraw : raw = []
      · rw [if_pos hraw, if_pos hraw]
      · rw [if_neg hraw, if_neg hraw]
        cases hmsg : parseMessage raw with
        | error e => rfl
        | ok msg =>
          dsimp only
          rcases hseq : (sequenceMessage raw msg).run t with ⟨(_ | delivered) | _ | e, u⟩
          · obtain ⟨hu, hlt⟩ := round_shrinks hs hnext hraw hmsg hseq
            rw [bind_done hseq, bind_done hseq]
            exact ih hu (by omega) (by omega)
          · rw [bind_done hseq, bind_done hseq]
          · rw [bind_waiting hseq, bind_waiting hseq]
          · rw [bind_thrown hseq, bind_thrown hseq]
    · rw [bind_waiting hnext, bind_waiting hnext]
    · rw [bind_thrown hnext, bind_thrown hnext]

theorem receiveAndParse_fuel {fuel : ℕ} {s : Proto} (hs : s.BufferOk)
    (h : s.inp.length < fuel) : (receiveAndParseLoop fuel).run s = receiveAndParse.run s := by
  simp only [receiveAndParse]
  exact receiveAndParseLoop_fuel hs h (by omega)

/-! ### What arrives whole is delivered -/

theorem readExact_append {onEnd : Proto → Proto} {n : ℕ} {s : Proto} {bs rest : Bytes}
    (hinp : s.inp = bs ++ rest) (hn : bs.length = n) :
    (readExact onEnd n).run s = (.done (some bs), { s with inp := rest }) := by
  have hle : n ≤ s.inp.length := by
    rw [hinp, List.length_append]
    omega
  simp only [readExact]
  rw [if_pos hle, hinp, List.take_left' hn, List.drop_left' hn]

theorem readExact_zero (onEnd : Proto → Proto) (s : Proto) :
    (readExact onEnd 0).run s = (.done (some []), s) := by
  simp [readExact]

theorem receiveFields_fieldBytes {fields : List BinaryField}
    (h : ∀ f ∈ fields, f.value.length ≤ 65535) {s : Proto} {rest : Bytes} (frame : Bytes)
    (hinp : s.inp = fieldBytes fields ++ rest) :
    (receiveFields fields.length frame).run s
      = (.done (frame ++ fieldBytes fields), { s with inp := rest }) := by
  induction fields generalizing s frame with
  | nil =>
    have hs : s = { s with inp := rest } := by
      rw [show rest = s.inp by simpa [fieldBytes] using hinp.symm]
    rw [← hs]
    simp [receiveFields, fieldBytes]
  | cons f fs ih =>
    have hf : f.value.length ≤ 65535 := h f List.mem_cons_self
    -- three bytes of header, then the value, then the other fields
    set fhdr : Bytes := f.id.byte :: pushU16 f.value.length with hfhdr
    have hlen : fhdr.length = 3 := by simp [hfhdr]
    have hvlen : readU16 (fhdr.drop 1) = f.value.length := by
      have := readU16_pushU16_append (v := f.value.length) (by omega) []
      simpa [hfhdr] using this
    have hsplit : s.inp = fhdr ++ (f.value ++ (fieldBytes fs ++ rest)) := by
      rw [hinp]
      simp [fieldBytes, hfhdr]
    rw [List.length_cons, receiveFields, recvExact, bind_done (readExact_append hsplit hlen)]
    dsimp only
    rw [hvlen, recvExact, bind_done (readExact_append rfl rfl)]
    dsimp only
    rw [ih (fun g hg => h g (List.mem_cons_of_mem _ hg)) _ rfl]
    simp [fieldBytes, hfhdr]

/-- A frame and its payload are read exactly, up to the last byte. -/
theorem receiveFrame_payload {fields : List BinaryField} (h : Fits fields) {opcode : Opcode}
    {flags : UInt8} {seq : UInt32} {payload : Bytes} (hsize : payload.length ≤ maxPayloadSize)
    {s : Proto} {rest : Bytes}
    (hinp : s.inp = frameBytes opcode flags seq (UInt32.ofNat payload.length) fields
      ++ payload ++ rest) :
    receiveFrame.run s
      = (.done (frameBytes opcode flags seq (UInt32.ofNat payload.length) fields ++ payload),
          { s with inp := rest }) := by
  set payloadLen := UInt32.ofNat payload.length with hpayloadLen
  set header : Bytes := pushU16 squidMagic ++ [opcode.byte, flags, UInt8.ofNat fields.length]
    ++ pushU32 seq ++ pushU32 payloadLen with hheader
  have hframe : frameBytes opcode flags seq payloadLen fields = header ++ fieldBytes fields := rfl
  -- what `receiveFrame` reads from the header: the magic, the count, the payload's length
  have hlen : header.length = frameHeaderSize := by simp [hheader, frameHeaderSize]
  have hmagic : readU16 header = squidMagic := by
    rw [hheader, List.append_assoc, List.append_assoc]
    exact readU16_pushU16_append (by decide) _
  have hcount : ((header.drop 4).headD 0).toNat = fields.length := by
    have : (header.drop 4).headD 0 = UInt8.ofNat fields.length := by
      simp [hheader, pushU16, beBytes]
    have hle := h.1
    rw [this, UInt8.toNat_ofNat', Nat.mod_eq_of_lt (by omega)]
  have hpayload : (readU32 (header.drop 9)).toNat = payload.length := by
    have : header.drop 9 = pushU32 payloadLen := by
      rw [hheader, List.drop_left' (by simp)]
    rw [maxPayloadSize] at hsize
    rw [this, readU32_pushU32, hpayloadLen, UInt32.toNat_ofNat', Nat.mod_eq_of_lt (by omega)]
  have hinp' : s.inp = header ++ (fieldBytes fields ++ (payload ++ rest)) := by
    rw [hinp, hframe, List.append_assoc, List.append_assoc]
  have hne : header ++ fieldBytes fields ≠ [] := by simp [hheader]
  rw [receiveFrame, recvExact, bind_done (readExact_append hinp' hlen)]
  dsimp only
  rw [receiveBody, if_neg (not_not.mpr hmagic), hcount, hpayload,
    bind_done (receiveFields_fieldBytes h.2 header rfl), if_neg hne, if_neg (by omega), recvExact,
    bind_done (readExact_append rfl rfl)]
  dsimp only
  rw [pure_run, hframe]

/-- A frame of the formatter is read exactly, up to its last byte. -/
theorem receiveFrame_frameBytes {fields : List BinaryField} (h : Fits fields)
    {opcode : Opcode} {flags : UInt8} {seq : UInt32} {s : Proto} {rest : Bytes}
    (hinp : s.inp = frameBytes opcode flags seq 0 fields ++ rest) :
    receiveFrame.run s
      = (.done (frameBytes opcode flags seq 0 fields), { s with inp := rest }) := by
  have hsplit : s.inp
      = frameBytes opcode flags seq (UInt32.ofNat ([] : Bytes).length) fields ++ [] ++ rest := by
    rw [List.append_nil]
    exact hinp
  have hread := receiveFrame_payload h (Nat.zero_le _) hsplit
  rwa [List.append_nil] at hread

/-- **An in-sequence frame is delivered at once**, and exactly its bytes are
consumed. -/
theorem receiveAndParse_frame {fields : List BinaryField} (h : Fits fields)
    {opcode : Opcode} {flags : UInt8} {s : Proto} {rest : Bytes}
    (hbuf : s.reorderBuffer = ∅)
    (hinp : s.inp = frameBytes opcode flags s.expectedRecvSeq 0 fields ++ rest) :
    receiveAndParse.run s
      = (.done { opcode := opcode, flags := flags, seq := s.expectedRecvSeq, fields := fields },
          s.delivered rest) := by
  set frame := frameBytes opcode flags s.expectedRecvSeq 0 fields with hframe
  set msg : Message :=
    { opcode := opcode, flags := flags, seq := s.expectedRecvSeq, fields := fields } with hmsg
  have hpop : popNextBuffered.run s = (.done none, s) := by simp [popNextBuffered, hbuf]
  have hnext : nextFrame.run s = (.done frame, { s with inp := rest }) := by
    rw [nextFrame, bind_done hpop]
    exact receiveFrame_frameBytes h hinp
  have hparse : parseMessage frame = .ok msg := by
    have := parseMessage_frameBytes h opcode flags s.expectedRecvSeq 0 []
    rwa [List.append_nil] at this
  have hseq : (sequenceMessage frame msg).run { s with inp := rest }
      = (.done (some msg), s.delivered rest) := by
    simp [sequenceMessage, hmsg, Proto.delivered]
  have hne : frame ≠ [] := by simp [hframe, frameBytes]
  simp only [receiveAndParse]
  rw [receiveAndParseLoop, bind_done hnext, if_neg hne, hparse]
  dsimp only
  rw [bind_done hseq, pure_run]

/-- A file transfer is read exactly, up to its last byte. -/
theorem receiveFile_blob {data rest : Bytes} {s : Proto}
    (hsize : data.length ≤ fileTransferMaxSize)
    (hinp : s.inp = pushU64 data.length ++ data ++ rest) :
    receiveFile.run s = (.done (some data), { s with inp := rest }) := by
  have hlt : data.length < 256 ^ 8 := by
    rw [fileTransferMaxSize] at hsize
    omega
  have hval : beNat (pushU64 data.length) = data.length := beNat_beBytes_of_lt hlt
  have hinp' : s.inp = pushU64 data.length ++ (data ++ rest) := by rw [hinp, List.append_assoc]
  rw [receiveFile, recvAll, bind_done (readExact_append hinp' (length_pushU64 _))]
  dsimp only
  rw [hval, if_neg (by omega), recvAll, readExact_append rfl rfl]

/-- The first eight bytes of a frame do not pass for the size of a file. -/
theorem receiveFile_frame {opcode : Opcode} {flags : UInt8} {seq : UInt32}
    {fields : List BinaryField} {rest : Bytes} {s : Proto}
    (hinp : s.inp = frameBytes opcode flags seq 0 fields ++ rest) :
    receiveFile.run s = (.done none, { s with inp := s.inp.drop 8 }) := by
  -- the magic starts with `0x53`, and `0x53 * 2 ^ 56` is above the limit
  obtain ⟨bs, hlen, hbs⟩ : ∃ bs, bs.length = 7 ∧ s.inp = (0x53 :: bs) ++ s.inp.drop 8 := by
    refine ⟨(s.inp.take 8).tail, ?_, ?_⟩
    · simp [hinp, frameBytes]
      omega
    · have hhead : s.inp.take 8 = 0x53 :: (s.inp.take 8).tail := by
        rw [hinp]
        rfl
      rw [← hhead, List.take_append_drop]
  have hlarge : fileTransferMaxSize < beNat (0x53 :: bs) := by
    rw [beNat_cons, hlen, fileTransferMaxSize]
    have : (0x53 : UInt8).toNat = 83 := rfl
    omega
  rw [receiveFile, recvAll, bind_done (readExact_append hbs (by simp [hlen]))]
  dsimp only
  rw [if_pos hlarge, pure_run]

theorem receiveAndParse_waiting {s : Proto} (hinp : s.inp = []) (hbuf : s.reorderBuffer = ∅)
    (hopen : s.peerClosed = false) : receiveAndParse.run s = (.waiting, s) := by
  have hpop : popNextBuffered.run s = (.done none, s) := by simp [popNextBuffered, hbuf]
  have hrecv : (recvExact frameHeaderSize).run s = (.waiting, s) := by
    simp [recvExact, readExact, hinp, hopen, frameHeaderSize]
  have hnext : nextFrame.run s = (.waiting, s) := by
    rw [nextFrame, bind_done hpop]
    exact bind_waiting hrecv
  simp only [receiveAndParse]
  rw [receiveAndParseLoop, bind_waiting hnext]

theorem receiveFile_waiting {s : Proto} (hinp : s.inp = []) (hopen : s.peerClosed = false) :
    receiveFile.run s = (.waiting, s) := by
  have hrecv : (recvAll 8).run s = (.waiting, s) := by simp [recvAll, readExact, hinp, hopen]
  exact bind_waiting hrecv

end Squid
