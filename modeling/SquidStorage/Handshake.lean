/-
The handshake of a peer with a server, and the epoch that never travels.

`Peer::performHandshake` compares the EPOCH field of the server's ACK with the
highest epoch the peer has seen, so that a peer should never go back to an
older leader.  `Server::handleAccept` answers with `responseAck`, whose only
field is the ACK bit: whatever the server's epoch is, the peer reads `0`.

* `handshakeAt_fresh` — every handshake of a peer that has seen no epoch
  completes, and teaches the peer nothing;
* `completedEpochs_pairwise_iff` — so the epochs of the completed handshakes
  are in order only if the servers already came in that order.
-/
import SquidStorage.Protocol
import SquidStorage.Rounds

open BigEndian Rounds

namespace Squid

/-- The text of a node type on the wire. -/
def ascii (cs : List Char) : Bytes := cs.map fun c => UInt8.ofNat c.toNat

def nodeTypeClient : Bytes := ascii ['C', 'L', 'I', 'E', 'N', 'T']

def nodeTypeDataNode : Bytes := ascii ['D', 'A', 'T', 'A', 'N', 'O', 'D', 'E']

def nodeTypeStandby : Bytes := ascii ['S', 'T', 'A', 'N', 'D', 'B', 'Y']

/-- The two programs that are a `Peer`. -/
inductive PeerKind where
  | client
  | dataNode
deriving DecidableEq, Repr

def PeerKind.nodeType : PeerKind → Bytes
  | .client => nodeTypeClient
  | .dataNode => nodeTypeDataNode

/-- What of a `Peer` the handshake reads and writes. -/
structure Peer where
  kind : PeerKind
  processName : Bytes
  lastSeenEpoch : UInt32 := 0
deriving DecidableEq, Repr

/-- A `Server`, as far as `handleAccept` could tell one from another. -/
structure Server where
  epoch : UInt32
deriving DecidableEq, Repr

/-- `SquidProtocol::isAlive`. -/
def isAlive : ProtoM Bool := ⟨fun s => (.done s.alive, s)⟩

/-- `Peer::performHandshake`, with the peer as the handshake leaves it. -/
def performHandshake (peer : Peer) : ProtoM (Bool × Peer) := do
  let identify ← receiveAndParse
  if !(← isAlive) || identify.opcode != .identify then pure (false, peer)
  else do
    sendFrame (responseIdentity peer.kind.nodeType peer.processName)
    if !(← isAlive) then pure (false, peer)
    else do
      let ack ← receiveAndParse
      if !(← isAlive) || !ack.isAck then pure (false, peer)
      else
        let serverEpoch := ack.getUint32 .epoch 0
        if serverEpoch < peer.lastSeenEpoch then do
          sendFrame (nackStaleEpochFormat peer.lastSeenEpoch)
          pure (false, peer)
        else if peer.lastSeenEpoch < serverEpoch then
          pure (true, { peer with lastSeenEpoch := serverEpoch })
        else pure (true, peer)

/-- `Server::handleAccept` up to the end of the handshake: the node type and the
name of an accepted peer.  The server's epoch is not used. -/
def handleAccept (_server : Server) : ProtoM (Option (Bytes × Bytes)) := do
  sendFrame identifyFormat
  let mex ← receiveAndParse
  if !(← isAlive) then pure none
  else
    let peerProcessName := mex.getString .processName
    let peerNodeType := mex.getString .nodeType
    if peerNodeType ≠ nodeTypeDataNode ∧ peerNodeType ≠ nodeTypeClient ∧
        peerNodeType ≠ nodeTypeStandby then pure none
    else do
      response true
      if !(← isAlive) then pure none
      else pure (some (peerNodeType, peerProcessName))

/-- What the peer and the server have written after `n` rounds of a handshake on
a fresh connection. -/
def handshakeStreams (peer : Peer) (server : Server) (n : ℕ) : Bytes × Bytes :=
  rounds (fun y => wire ((performHandshake peer).run { inp := y }).2.out)
    (fun x => wire ((handleAccept server).run { inp := x }).2.out) n

/-- Where the peer is after `n` rounds. -/
def handshakeAt (peer : Peer) (server : Server) (n : ℕ) : Outcome (Bool × Peer) :=
  ((performHandshake peer).run { inp := (handshakeStreams peer server n).2 }).1

/-- The end of the handshake: nothing changes after the second round
(`handshakeAt_fresh`). -/
def handshake (peer : Peer) (server : Server) : Outcome (Bool × Peer) :=
  handshakeAt peer server 2

/-- Whether `performHandshake` returned true, and the peer it leaves behind. -/
def Outcome.completed (outcome : Outcome (Bool × Peer)) (peer : Peer) : Bool × Peer :=
  match outcome with
  | .done result => result
  | .waiting | .thrown _ => (false, peer)

/-- The epochs of the servers a peer completes a handshake with, in order. -/
def completedEpochs : Peer → List Server → List UInt32
  | _, [] => []
  | peer, server :: servers =>
    let (ok, peer') := (handshake peer server).completed peer
    if ok then server.epoch :: completedEpochs peer' servers else completedEpochs peer' servers

/-! ### The frames of a handshake -/

/-- The frame the peer identifies itself with. -/
def identityFields (peer : Peer) : List BinaryField :=
  [fieldString .nodeType peer.kind.nodeType, fieldString .processName peer.processName]

def identityFrame (peer : Peer) : Bytes :=
  frameBytes .response flagResponse 0 0 (identityFields peer)

def identifyFrame : Bytes := frameBytes .identify 0 0 0 []

theorem fits_identityFields (peer : Peer) :
    Fits (identityFields peer) ↔ peer.processName.length ≤ 65535 := by
  have hkind : peer.kind.nodeType.length ≤ 65535 := by
    cases peer.kind <;> decide
  simp [Fits, identityFields, fieldString, hkind]

theorem responseIdentity_eq (peer : Peer) :
    responseIdentity peer.kind.nodeType peer.processName
      = buildFrame .response flagResponse (identityFields peer) := rfl

theorem fits_nil : Fits [] := by decide

/-! ### The server's side -/

theorem handleAccept_nil (server : Server) :
    wire ((handleAccept server).run { inp := [] }).2.out = identifyFrame := by
  rw [handleAccept, identifyFormat, bind_done (sendFrame_fits fits_nil .identify 0 _),
    bind_waiting (receiveAndParse_waiting rfl rfl rfl)]
  simp [Proto.framed, Sent.bytes, identifyFrame]

theorem accepted_nodeType (peer : Peer) (seq : UInt32) :
    Message.getString { opcode := .response, flags := flagResponse, seq := seq,
                        fields := identityFields peer } .nodeType = peer.kind.nodeType := rfl

/-- The server acknowledges a peer that has identified itself. -/
theorem handleAccept_identity (server : Server) {peer : Peer}
    (hname : peer.processName.length ≤ 65535) :
    wire ((handleAccept server).run { inp := identityFrame peer }).2.out
      = identifyFrame ++ ackFrame true 1 := by
  have hfit := (fits_identityFields peer).mpr hname
  have hknown : ¬ (peer.kind.nodeType ≠ nodeTypeDataNode ∧ peer.kind.nodeType ≠ nodeTypeClient ∧
      peer.kind.nodeType ≠ nodeTypeStandby) := by
    cases peer.kind <;> decide
  set s₁ : Proto := ({ inp := identityFrame peer } : Proto).framed identifyFrame with hs₁
  have hrecv : receiveAndParse.run s₁
      = (.done { opcode := .response, flags := flagResponse, seq := 0,
                 fields := identityFields peer }, s₁.delivered []) :=
    receiveAndParse_frame hfit rfl (List.append_nil _).symm
  have hsend : (sendFrame identifyFormat).run { inp := identityFrame peer } = (.done (), s₁) :=
    sendFrame_fits fits_nil .identify 0 _
  have halive : isAlive.run (s₁.delivered []) = (.done true, s₁.delivered []) := rfl
  rw [handleAccept, bind_done hsend, bind_done hrecv, bind_done halive, if_neg (by simp)]
  dsimp only
  rw [accepted_nodeType, if_neg hknown, bind_done (response_run true _)]
  rfl

/-! ### The peer's side -/

/-- A peer with an oversized name cannot identify itself. -/
theorem performHandshake_long {peer : Peer} (hname : 65535 < peer.processName.length)
    {c c' : Proto} {result : Bool × Peer}
    (h : (performHandshake peer).run c = (.done result, c')) : result = (false, peer) := by
  have hfit : ¬ Fits (identityFields peer) := by
    rw [fits_identityFields]
    omega
  -- it returns before its answer to IDENTIFY, or throws there
  obtain ⟨identify, t, -, h⟩ := bind_eq_done h
  obtain ⟨alive, t₁, -, h⟩ := bind_eq_done h
  split at h
  · simp only [pure_run, Prod.mk.injEq, Outcome.done.injEq] at h
    exact h.1.symm
  · exfalso
    obtain ⟨_, t₂, hsend, -⟩ := bind_eq_done h
    obtain ⟨e, he⟩ := sendFrame_not_fits hfit .response flagResponse t₁
    rw [responseIdentity_eq, he] at hsend
    simp at hsend

/-- After the request to identify, the peer answers it, whatever follows. -/
theorem performHandshake_identify {peer : Peer} (hname : peer.processName.length ≤ 65535)
    (unread : Bytes) :
    (performHandshake peer).run { inp := identifyFrame ++ unread }
      = (do
          let ack ← receiveAndParse
          if !(← isAlive) || !ack.isAck then pure (false, peer)
          else
            let serverEpoch := ack.getUint32 .epoch 0
            if serverEpoch < peer.lastSeenEpoch then do
              sendFrame (nackStaleEpochFormat peer.lastSeenEpoch)
              pure (false, peer)
            else if peer.lastSeenEpoch < serverEpoch then
              pure (true, { peer with lastSeenEpoch := serverEpoch })
            else pure (true, peer) : ProtoM (Bool × Peer)).run
          ((({ inp := identifyFrame ++ unread } : Proto).delivered unread).framed
            (identityFrame peer)) := by
  have hfit := (fits_identityFields peer).mpr hname
  set c : Proto := { inp := identifyFrame ++ unread } with hc
  have hrecv : receiveAndParse.run c
      = (.done { opcode := .identify, flags := 0, seq := 0, fields := [] }, c.delivered unread) :=
    receiveAndParse_frame fits_nil rfl rfl
  have halive : isAlive.run (c.delivered unread) = (.done true, c.delivered unread) := rfl
  rw [performHandshake, bind_done hrecv, bind_done halive, if_neg (by decide),
    responseIdentity_eq, bind_done (sendFrame_fits hfit .response flagResponse _)]
  rfl

theorem performHandshake_nil (peer : Peer) :
    wire ((performHandshake peer).run { inp := [] }).2.out = [] := by
  rw [performHandshake, bind_waiting (receiveAndParse_waiting rfl rfl rfl)]
  rfl

theorem performHandshake_waiting {peer : Peer} (hname : peer.processName.length ≤ 65535) :
    wire ((performHandshake peer).run { inp := identifyFrame }).2.out = identityFrame peer := by
  rw [← List.append_nil identifyFrame, performHandshake_identify hname,
    bind_waiting (receiveAndParse_waiting rfl rfl rfl)]
  simp [Proto.framed, Proto.delivered, Sent.bytes]

/-- The ACK of the server carries no epoch: the peer reads `0`. -/
theorem getUint32_epoch_ackMessage (b : Bool) (seq : UInt32) :
    (ackMessage b seq).getUint32 .epoch 0 = 0 := rfl

theorem performHandshake_ack {peer : Peer} (hname : peer.processName.length ≤ 65535)
    (hfresh : peer.lastSeenEpoch = 0) :
    ∃ c, (performHandshake peer).run { inp := identifyFrame ++ ackFrame true 1 }
        = (.done (true, peer), c) ∧ wire c.out = identityFrame peer := by
  rw [performHandshake_identify hname]
  set c := (({ inp := identifyFrame ++ ackFrame true 1 } : Proto).delivered
    (ackFrame true 1)).framed (identityFrame peer) with hc
  have hrecv : receiveAndParse.run c = (.done (ackMessage true 1), c.delivered []) :=
    receiveAndParse_frame (fits_ack true) rfl (List.append_nil _).symm
  have halive : isAlive.run (c.delivered []) = (.done true, c.delivered []) := rfl
  refine ⟨c.delivered [], ?_, by simp [hc, Proto.framed, Proto.delivered, Sent.bytes]⟩
  rw [bind_done hrecv, bind_done halive, isAck_ackMessage, if_neg (by simp)]
  dsimp only
  rw [getUint32_epoch_ackMessage, hfresh, if_neg (by decide), if_neg (by decide), pure_run]

/-! ### Sequences of handshakes -/

theorem handshakeStreams_fst {peer : Peer} (hname : peer.processName.length ≤ 65535)
    (hfresh : peer.lastSeenEpoch = 0) (server : Server) {n : ℕ} (hn : 1 ≤ n) :
    (handshakeStreams peer server n).1 = identityFrame peer := by
  rw [handshakeStreams]
  -- the peer answers IDENTIFY, and writes nothing more when the ACK comes
  induction n, hn using Nat.le_induction with
  | base =>
    rw [rounds_succ, rounds]
    dsimp only
    rw [performHandshake_nil, handleAccept_nil, performHandshake_waiting hname]
  | succ n _ ih =>
    obtain ⟨c, hrun, hout⟩ := performHandshake_ack hname hfresh
    rw [rounds_succ, ih]
    dsimp only
    rw [handleAccept_identity server hname, hrun, hout]

/-- **A handshake with any server completes** and leaves the peer as it was. -/
theorem handshakeAt_fresh {peer : Peer} (hname : peer.processName.length ≤ 65535)
    (hfresh : peer.lastSeenEpoch = 0) (server : Server) {n : ℕ} (hn : 2 ≤ n) :
    handshakeAt peer server n = .done (true, peer) := by
  -- one round later both streams are complete
  have hstable := rounds_stable _ _ (fun m hm => handshakeStreams_fst hname hfresh server hm) hn
  obtain ⟨c, hrun, -⟩ := performHandshake_ack hname hfresh
  rw [handshakeAt, handshakeStreams, hstable, handleAccept_identity server hname, hrun]

theorem completedEpochs_fresh {peer : Peer} (hname : peer.processName.length ≤ 65535)
    (hfresh : peer.lastSeenEpoch = 0) (servers : List Server) :
    completedEpochs peer servers = servers.map Server.epoch := by
  have hdone : ∀ server, (handshake peer server).completed peer = (true, peer) := by
    intro server
    rw [handshake, handshakeAt_fresh hname hfresh server (le_refl 2), Outcome.completed]
  induction servers with
  | nil => rfl
  | cons server servers ih => simp only [completedEpochs, hdone, ih, List.map_cons, if_true]

theorem completed_long {peer : Peer} (hname : 65535 < peer.processName.length)
    (server : Server) : (handshake peer server).completed peer = (false, peer) := by
  rw [handshake, handshakeAt]
  rcases h : (performHandshake peer).run { inp := (handshakeStreams peer server 2).2 }
    with ⟨result | _ | e, c⟩
  · exact performHandshake_long hname h
  · rfl
  · rfl

theorem completedEpochs_long {peer : Peer} (hname : 65535 < peer.processName.length)
    (servers : List Server) : completedEpochs peer servers = [] := by
  induction servers with
  | nil => rfl
  | cons server servers ih =>
    simp only [completedEpochs, completed_long hname, ih, Bool.false_eq_true, if_false]

/-- **Which sequences of handshakes respect the epochs.**  A peer completes its
handshakes in the order of the epochs exactly when the servers it meets already
come in that order, or when it cannot identify itself at all. -/
theorem completedEpochs_pairwise_iff (kind : PeerKind) (name : Bytes) (servers : List Server) :
    (completedEpochs { kind := kind, processName := name } servers).Pairwise (· ≤ ·)
      ↔ (servers.map Server.epoch).Pairwise (· ≤ ·) ∨ 65535 < name.length := by
  by_cases hname : name.length ≤ 65535
  · rw [completedEpochs_fresh hname rfl]
    exact ⟨Or.inl, fun h => h.resolve_right (by omega)⟩
  · rw [completedEpochs_long (by simpa using hname)]
    exact ⟨fun _ => Or.inr (by omega), fun _ => List.Pairwise.nil⟩

/-- A client that has shaken hands with the leader of epoch 5 goes back to the
leader of epoch 3. -/
theorem stale_leader_accepted :
    completedEpochs { kind := .client, processName := [99] } [⟨5⟩, ⟨3⟩] = [5, 3] ∧
    ¬ (completedEpochs { kind := .client, processName := [99] } [⟨5⟩, ⟨3⟩]).Pairwise (· ≤ ·) := by
  decide

end Squid
