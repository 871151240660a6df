/-
When the server and a datanode are in step after an RPC.

Frames and unframed file bytes share one stream, so the two ends have to agree
on how many bytes follow the intermediate ACK.  They do exactly when the datanode
can carry the transfer through (`NodeRpc.Served`).

* `aligned_iff` — an RPC leaves both ends at a frame boundary exactly when it is
  served, or its request cannot be built and nothing is sent;
* `session_aligned_iff` — the same for every sequence of RPCs on one session;
* `missing_file_misaligns` — a `readFile` of a file that the datanode does not
  have leaves half of the NACK unread.
-/
import SquidStorage.RequestMatching
import SquidStorage.DataNodeSession

open BigEndian Rounds

namespace Squid

/-! ### The server's calls -/

/-- The calls the server makes on a datanode. -/
inductive NodeRpc where
  | rpc (r : Rpc)
  | syncStatus
deriving DecidableEq, Repr

namespace NodeRpc

def call : NodeRpc → ProtoM (Message × Bytes)
  | .rpc r => r.call
  | .syncStatus => messageOnly Squid.syncStatus

def opcode : NodeRpc → Opcode
  | .rpc r => r.opcode
  | .syncStatus => .syncStatus

def fields : NodeRpc → List BinaryField
  | .rpc r => r.fields
  | .syncStatus => []

/-- What a call does after sending its request. -/
def rest : NodeRpc → ProtoM (Message × Bytes)
  | .rpc r => r.rest
  | .syncStatus => messageOnly awaitStatus

def filePath : NodeRpc → Bytes
  | .rpc r => r.filePath
  | .syncStatus => []

/-- The bytes of a call's request. -/
def request (r : NodeRpc) (c : Proto) : Bytes := frameBytes r.opcode 0 c.nextSendSeq 0 r.fields

/-- The message the datanode reads from a request. -/
def message (r : NodeRpc) (c : Proto) : Message :=
  { opcode := r.opcode, flags := 0, seq := c.nextSendSeq, fields := r.fields }

theorem call_eq (r : NodeRpc) :
    r.call = (sendFrame (buildFrame r.opcode 0 r.fields) >>= fun _ => r.rest) := by
  cases r with
  | rpc r => exact r.call_eq
  | syncStatus => exact bind_assoc _ _ _

theorem fits_fields (r : NodeRpc) : Fits r.fields ↔ r.filePath.length ≤ 65535 := by
  cases r with
  | rpc r => exact r.fits_fields
  | syncStatus => simp [Fits, fields, filePath]

/-- The datanode carries the call through: the transfer fits and its file opens,
the file to read is there and fits, nothing throws. -/
def Served (disk : Disk) : NodeRpc → Prop
  | .rpc (.createFile p _ d) | .rpc (.updateFile p _ d) =>
    d.length ≤ fileTransferMaxSize ∧ disk.openOutput (disk.resolvePath p) = .opened
  | .rpc (.readFile p) =>
    ∃ d, disk.files[disk.resolvePath p]? = some d ∧ d.length ≤ fileTransferMaxSize
  | .rpc (.deleteFile p) => disk.removeError (disk.resolvePath p) = none
  | .rpc (.acquireLock _) | .rpc (.releaseLock _) | .rpc .heartbeat => True
  | .syncStatus =>
    disk.getFileVersionMap.size ≤ 127 ∧ ∀ file ∈ disk.getFileVersionMap, file.length ≤ 65535

/-- The datanode after a call that it has served. -/
def apply (node : DataNode) : NodeRpc → DataNode
  | .rpc (.createFile p v d) | .rpc (.updateFile p v d) =>
    node.stored p v d
  | .rpc (.deleteFile p) =>
    match node.disk.deleteFileAndVersion p with
    | .ok disk => { node with disk := disk }
    | .error _ => node
  | _ => node

end NodeRpc

/-! ### Two ends in step -/

/-- The two ends of a live connection between two calls. -/
structure Ready (c s : Proto) : Prop extends InSync c s where
  clientAlive : c.alive = true
  serverAlive : s.alive = true

/-- The end once what it has written has been read. -/
def Proto.settled (s : Proto) : Proto := { s with out := [] }

section Exchange

variable {α β : Type} (call : ProtoM α) (serve : ProtoM β) (c s : Proto)

/-- What the caller and the serving end have written after `n` rounds. -/
def exchange (n : ℕ) : Bytes × Bytes :=
  rounds (fun y => wire (call.run { c with inp := y }).2.out)
    (fun x => wire (serve.run { s with inp := x }).2.out) n

/-- With the caller's stream `x` and the other's stream `y`: both ends have
finished, each has read all that the other has written, and they are in step for
the next call.  A request that could not be built leaves nothing to serve. -/
structure AlignedOn (x y : Bytes) : Prop where
  callEnded : (call.run { c with inp := y }).1 ≠ .waiting
  serveEnded : x = [] ∨ ∃ b, (serve.run { s with inp := x }).1 = .done b
  callRead : (call.run { c with inp := y }).2.inp = []
  serveRead : (serve.run { s with inp := x }).2.inp = []
  ready : Ready (call.run { c with inp := y }).2.settled (serve.run { s with inp := x }).2.settled

/-- The exchange comes to an end that is aligned. -/
def Aligned : Prop :=
  ∃ N, ∀ n ≥ N, AlignedOn call serve c s (exchange call serve c s n).1 (exchange call serve c s n).2

variable {call serve c s}

/-- Once the caller's stream is complete, there is one point to look at. -/
theorem aligned_iff_of_fst {k : ℕ} {x : Bytes}
    (hx : ∀ n ≥ k, (exchange call serve c s n).1 = x) :
    Aligned call serve c s
      ↔ AlignedOn call serve c s x (wire (serve.run { s with inp := x }).2.out) := by
  have hstable : ∀ n ≥ k + 1, exchange call serve c s n
      = (x, wire (serve.run { s with inp := x }).2.out) :=
    fun n hn => rounds_stable _ _ hx hn
  constructor
  · rintro ⟨N, hN⟩
    have h := hN (max N (k + 1)) (le_max_left _ _)
    rwa [hstable _ (le_max_right _ _)] at h
  · intro h
    refine ⟨k + 1, fun n hn => ?_⟩
    rwa [hstable n hn]

end Exchange

/-! ### One RPC -/

section Rpc

variable {c s : Proto} {node node' : DataNode} {r : NodeRpc}

theorem NodeRpc.call_run (hfit : Fits r.fields) (y : Bytes) :
    r.call.run { c with inp := y }
      = r.rest.run (({ c with inp := y } : Proto).framed (r.request c)) := by
  rw [r.call_eq, bind_done (sendFrame_fits hfit r.opcode 0 _)]
  rfl

/-- The datanode dispatches the request that it is sent. -/
theorem serveNode_request (node : DataNode) (hready : Ready c s) (hfit : Fits r.fields) (unread : Bytes) :
    (serveNode node).run { s with inp := r.request c ++ unread }
      = (requestHandler node (r.message c)).run (s.delivered unread) := by
  have hinp : r.request c ++ unread
      = frameBytes r.opcode 0 s.expectedRecvSeq 0 r.fields ++ unread := by
    rw [NodeRpc.request, hready.toServer]
  have hrecv := receiveAndParse_frame (s := { s with inp := r.request c ++ unread }) hfit
    hready.serverBuffer hinp
  have halive : isAlive.run (s.delivered unread) = (.done true, s.delivered unread) := by
    simp [isAlive, Proto.delivered, hready.serverAlive]
  rw [serveNode, bind_done hrecv, NodeRpc.message, ← hready.toServer]
  exact bind_done halive

/-- The exchange is over after two rounds: both ends have read everything and are
in step, the datanode is `node'`, and the call has returned `a`. -/
def Returns (node : DataNode) (r : NodeRpc) (c s : Proto) (node' : DataNode)
    (a : Message × Bytes) : Prop :=
  ∃ x c' s', (∀ n ≥ 1, (exchange r.call (serveNode node) c s n).1 = x) ∧
    (serveNode node).run { s with inp := x } = (.done node', s') ∧
    r.call.run { c with inp := wire s'.out } = (.done a, c') ∧
    c'.inp = [] ∧ s'.inp = [] ∧ Ready c'.settled s'.settled

theorem Returns.aligned {a : Message × Bytes} (h : Returns node r c s node' a) :
    Aligned r.call (serveNode node) c s := by
  obtain ⟨x, c', s', hx, hserve, hcall, hc', hs', hready⟩ := h
  rw [aligned_iff_of_fst hx, hserve]
  dsimp only
  refine ⟨?_, Or.inr ⟨node', by rw [hserve]⟩, ?_, ?_, ?_⟩
  · rw [hcall]
    simp
  · rw [hcall]
    exact hc'
  · rw [hserve]
    exact hs'
  · rw [hcall, hserve]
    exact hready

/-! ### Calls that wait for one response -/

/-- The rest of a call that returns the next response. -/
structure AwaitsResponse (rest : ProtoM (Message × Bytes)) : Prop where
  waits : ∀ t, receiveAndParse.run t = (.waiting, t) → rest.run t = (.waiting, t)
  returns : ∀ t t' msg, receiveAndParse.run t = (.done msg, t') → msg.isResponse = true →
    rest.run t = (.done (msg, []), t')

theorem awaitsResponse_receive : AwaitsResponse (messageOnly receiveAndParse) where
  waits _ h := bind_waiting h
  returns _ _ _ h _ := bind_done h

theorem awaitsResponse_status : AwaitsResponse (messageOnly awaitStatus) where
  waits t h := by
    refine bind_waiting (?_ : awaitStatus.run t = (.waiting, t))
    simp only [awaitStatus]
    rw [syncStatusLoop, bind_waiting h]
  returns _ _ _ h hresp := bind_done (awaitStatus_response hresp h)

theorem isResponse_flag (seq : UInt32) (fields : List BinaryField) :
    Message.isResponse { opcode := .response, flags := flagResponse, seq := seq,
                         fields := fields } = true := by
  show (flagResponse &&& flagResponse != 0) = true
  decide

/-- Before the answer the call waits, and has sent its request. -/
theorem call_awaits (hready : Ready c s) (hfit : Fits r.fields) (hrest : AwaitsResponse r.rest) :
    r.call.run { c with inp := [] }
      = (.waiting, ({ c with inp := [] } : Proto).framed (r.request c)) := by
  rw [NodeRpc.call_run hfit]
  exact hrest.waits _ (receiveAndParse_waiting rfl hready.clientBuffer hready.clientOpen)

theorem exchange_fst_zero (node : DataNode) (hready : Ready c s) (hfit : Fits r.fields)
    (hrest : AwaitsResponse r.rest) :
    (exchange r.call (serveNode node) c s 0).1 = r.request c := by
  show wire (r.call.run { c with inp := [] }).2.out = _
  rw [call_awaits hready hfit hrest]
  simp [Proto.framed, hready.clientOut, Sent.bytes]

/-- A response as it is received. -/
def responseMessage (seq : UInt32) (fields : List BinaryField) : Message :=
  { opcode := .response, flags := flagResponse, seq := seq, fields := fields }

/-- One response frame completes the call. -/
theorem returns_answer (hready : Ready c s) (hfit : Fits r.fields)
    (hrest : AwaitsResponse r.rest) {fields : List BinaryField} (hfields : Fits fields)
    (hhandle : requestHandler node (r.message c)
      = answering node' (sendFrame (buildFrame .response flagResponse fields))) :
    Returns node r c s node' (responseMessage c.expectedRecvSeq fields, []) := by
  set reply := frameBytes .response flagResponse c.expectedRecvSeq 0 fields with hreply
  set s' := (s.delivered []).framed reply with hs'
  have hserve : (serveNode node).run { s with inp := r.request c } = (.done node', s') := by
    rw [← List.append_nil (r.request c), serveNode_request node hready hfit, hhandle, answering,
      bind_done (sendFrame_fits hfields _ _ _), hs', hreply, hready.toClient]
    rfl
  have hout : wire s'.out = reply := by
    simp [hs', Proto.framed, Proto.delivered, hready.serverOut, Sent.bytes]
  have hcall : r.call.run { c with inp := reply }
      = (.done (responseMessage c.expectedRecvSeq fields, []),
          (c.framed (r.request c)).delivered []) := by
    rw [NodeRpc.call_run hfit]
    exact hrest.returns _ _ _ (receiveAndParse_frame hfields hready.clientBuffer
      (List.append_nil reply).symm) (isResponse_flag _ _)
  -- the answer does not make the call write anything more
  have hstable : wire (r.call.run { c with inp := wire ((serveNode node).run
      { s with inp := r.request c }).2.out }).2.out = r.request c := by
    rw [hserve, hout, hcall]
    simp [Proto.framed, Proto.delivered, hready.clientOut, Sent.bytes]
  rw [← hout] at hcall
  refine ⟨r.request c, _, s', fun n _ => rounds_fst _ _ (exchange_fst_zero node hready hfit hrest)
    hstable (Nat.zero_le n), hserve, hcall, rfl, rfl, ?_⟩
  constructor
  · constructor <;>
      simp [hs', Proto.settled, Proto.framed, Proto.delivered, hready.toClient, hready.toServer,
        hready.clientBuffer, hready.serverBuffer, hready.clientOpen, hready.serverOpen]
  · exact hready.clientAlive
  · exact hready.serverAlive

/-- A handler that throws before it answers leaves the caller waiting. -/
theorem not_aligned_of_thrown (hready : Ready c s) (hfit : Fits r.fields)
    (hrest : AwaitsResponse r.rest) {e : String}
    (hhandle : (requestHandler node (r.message c)).run (s.delivered [])
      = (.thrown e, s.delivered [])) :
    ¬ Aligned r.call (serveNode node) c s := by
  have hserve : (serveNode node).run { s with inp := r.request c }
      = (.thrown e, s.delivered []) := by
    rw [← List.append_nil (r.request c), serveNode_request node hready hfit, hhandle]
  have hout : wire ((serveNode node).run { s with inp := r.request c }).2.out = [] := by
    rw [hserve]
    simp [Proto.delivered, hready.serverOut]
  have hstable : wire (r.call.run { c with inp := wire ((serveNode node).run
      { s with inp := r.request c }).2.out }).2.out = r.request c := by
    rw [hout]
    exact exchange_fst_zero node hready hfit hrest
  rw [aligned_iff_of_fst (k := 0) fun n hn =>
    rounds_fst _ _ (exchange_fst_zero node hready hfit hrest) hstable hn, hout]
  intro h
  exact h.callEnded (by rw [call_awaits hready hfit hrest])

/-! ### Uploads -/

variable {q : Rpc} {d path : Bytes} {version : Int32} {answer : ProtoM Unit}

theorem appends_finishStore (node : DataNode) (path : Bytes) (version : Int32)
    (hanswer : Appends answer) :
    Appends (finishStore node path version answer) := by
  refine (silent_receiveStoredFile _ _).appends.bind fun received => ?_
  dsimp only
  split
  · exact hanswer.bind fun _ => (silent_pure _).appends
  · exact (appends_response false).bind fun _ => (silent_pure _).appends

theorem serveNode_upload (hready : Ready c s) (hfit : Fits q.fields)
    (hhandle : requestHandler node (q.message c) = storeUpload node path version answer)
    (unread : Bytes) :
    (serveNode node).run { s with inp := q.request c ++ unread }
      = (finishStore node path version answer).run
          ((s.delivered unread).framed (ackFrame true c.expectedRecvSeq)) := by
  have hrequest := serveNode_request (r := .rpc q) node hready hfit unread
  rw [show (NodeRpc.rpc q).message c = q.message c from rfl, hhandle] at hrequest
  refine hrequest.trans ?_
  rw [hready.toClient]
  exact bind_done (response_run true _)

/-- From the first round on, an upload has written its request and its file. -/
theorem exchange_fst_upload (hready : Ready c s) (hfit : Fits q.fields)
    (hrest : q.rest = uploadRest d) (hanswer : Appends answer)
    (hhandle : requestHandler node (q.message c) = storeUpload node path version answer)
    {n : ℕ} (hn : 1 ≤ n) :
    (exchange q.call (serveNode node) c s n).1 = q.request c
      ++ if d.length ≤ fileTransferMaxSize then pushU64 d.length ++ d else [] := by
  -- whatever follows the request, the datanode first writes the ACK
  have hack : ∀ unread, ∃ post, wire ((serveNode node).run
      { s with inp := q.request c ++ unread }).2.out
        = ackFrame true c.expectedRecvSeq ++ wire post := by
    intro unread
    obtain ⟨post, hpost⟩ := appends_finishStore node path version hanswer
      ((s.delivered unread).framed (ackFrame true c.expectedRecvSeq))
    refine ⟨post, ?_⟩
    rw [serveNode_upload hready hfit hhandle, hpost]
    simp [Proto.framed, Proto.delivered, hready.serverOut, Sent.bytes]
  have hzero : (exchange q.call (serveNode node) c s 0).1 = q.request c := by
    have hwait : q.rest.run (({ c with inp := [] } : Proto).framed (q.request c))
        = (.waiting, ({ c with inp := [] } : Proto).framed (q.request c)) := by
      rw [hrest]
      exact bind_waiting (receiveAndParse_waiting rfl hready.clientBuffer hready.clientOpen)
    show wire (q.call.run { c with inp := [] }).2.out = _
    rw [call_run hfit, hwait]
    simp [Proto.framed, hready.clientOut, Sent.bytes]
  refine rounds_fst _ _ (k := 1) ?_ ?_ hn
  · show wire (q.call.run { c with inp := wire ((serveNode node).run
      { s with inp := (exchange q.call (serveNode node) c s 0).1 }).2.out }).2.out = _
    obtain ⟨post, hpost⟩ := hack []
    rw [hzero, ← List.append_nil (q.request c), hpost, List.append_nil]
    exact call_upload_out hready.toInSync hfit hrest _
  · obtain ⟨post, hpost⟩ := hack
      (if d.length ≤ fileTransferMaxSize then pushU64 d.length ++ d else [])
    rw [hpost]
    exact call_upload_out hready.toInSync hfit hrest _

/-- **When an upload leaves the streams aligned.** -/
theorem returns_upload (hready : Ready c s) (hfit : Fits q.fields)
    (hrest : q.rest = uploadRest d) {fields : List BinaryField} (hfields : Fits fields)
    (hhandle : requestHandler node (q.message c)
      = storeUpload node path version (sendFrame (buildFrame .response flagResponse fields)))
    (hsize : d.length ≤ fileTransferMaxSize)
    (hopen : node.disk.openOutput (node.disk.resolvePath path) = .opened) :
    Returns node (.rpc q) c s (node.stored path version d)
      (responseMessage (c.expectedRecvSeq + 1) fields, []) := by
  set reply := frameBytes .response flagResponse (c.expectedRecvSeq + 1) 0 fields with hreply
  set s' := ((s.delivered []).framed (ackFrame true c.expectedRecvSeq)).framed reply with hs'
  have hserve : (serveNode node).run { s with inp := q.request c ++ (pushU64 d.length ++ d) }
      = (.done (node.stored path version d), s') := by
    rw [serveNode_upload hready hfit hhandle, finishStore,
      bind_done (receiveStoredFile_blob hopen hsize (List.append_nil _).symm)]
    refine (bind_done (sendFrame_fits hfields _ _ _)).trans ?_
    rw [hs', hreply, hready.toClient]
    rfl
  have hout : wire s'.out = ackFrame true c.expectedRecvSeq ++ (reply ++ []) := by
    simp [hs', Proto.framed, Proto.delivered, hready.serverOut, Sent.bytes]
  have hcall : q.call.run { c with inp := ackFrame true c.expectedRecvSeq ++ (reply ++ []) }
      = (.done (responseMessage (c.expectedRecvSeq + 1) fields, []),
          (((c.framed (q.request c)).delivered (reply ++ [])).sentBlob d).delivered []) := by
    rw [call_upload hready.toInSync hfit hrest hsize]
    exact bind_done (receiveAndParse_frame hfields hready.clientBuffer rfl)
  have hfst : ∀ n ≥ 1, (exchange q.call (serveNode node) c s n).1
      = q.request c ++ (pushU64 d.length ++ d) := by
    intro n hn
    have h := exchange_fst_upload hready hfit hrest (appends_sendFrame _) hhandle hn
    rwa [if_pos hsize] at h
  rw [← hout] at hcall
  refine ⟨_, _, s', hfst, hserve, hcall, rfl, rfl, ?_⟩
  constructor
  · constructor <;>
      simp [hs', Proto.settled, Proto.framed, Proto.delivered, Proto.sentBlob, hready.toClient,
        hready.toServer, hready.clientBuffer, hready.serverBuffer, hready.clientOpen,
        hready.serverOpen]
  · exact hready.clientAlive
  · exact hready.serverAlive

theorem opened_of_aligned_upload (hready : Ready c s) (hfit : Fits q.fields)
    (hrest : q.rest = uploadRest d) (hanswer : Appends answer)
    (hhandle : requestHandler node (q.message c) = storeUpload node path version answer)
    (h : Aligned q.call (serveNode node) c s) :
    d.length ≤ fileTransferMaxSize ∧
      node.disk.openOutput (node.disk.resolvePath path) = .opened := by
  rw [aligned_iff_of_fst fun n hn => exchange_fst_upload hready hfit hrest hanswer hhandle hn] at h
  set file := if d.length ≤ fileTransferMaxSize then pushU64 d.length ++ d else [] with hfile
  set t := (s.delivered file).framed (ackFrame true c.expectedRecvSeq) with ht
  have hserve := serveNode_upload hready hfit hhandle file
  rw [← ht] at hserve
  have hne : q.request c ++ file ≠ [] := by simp [Rpc.request, frameBytes]
  cases hopen : node.disk.openOutput (node.disk.resolvePath path) with
  | threw e =>
    -- the exception ends the dispatcher
    have hthrow : (receiveStoredFile node.disk path).run t = (.thrown e, t) := by
      rw [receiveStoredFile, hopen]
      rfl
    obtain ⟨b, hb⟩ := h.serveEnded.resolve_left hne
    rw [hserve, finishStore, bind_thrown hthrow] at hb
    simp at hb
  | refused =>
    -- the NACK comes at once and nothing of the file is read
    have hnack : (finishStore node path version answer).run t
        = (.done node, t.framed (ackFrame false t.nextSendSeq)) := by
      rw [finishStore, bind_done (receiveStoredFile_refused hopen t)]
      exact bind_done (response_run false t)
    rw [hnack] at hserve
    exfalso
    by_cases hsize : d.length ≤ fileTransferMaxSize
    · have hread := h.serveRead
      rw [hserve] at hread
      simp [ht, Proto.framed, Proto.delivered, hfile, hsize, pushU64, beBytes] at hread
    · -- the file is not even sent, and the caller does not wait for the NACK
      have hread := h.callRead
      have hout : wire (t.framed (ackFrame false t.nextSendSeq)).out
          = ackFrame true c.expectedRecvSeq ++ ackFrame false t.nextSendSeq := by
        simp [ht, Proto.framed, Proto.delivered, hready.serverOut, Sent.bytes]
      rw [hserve] at hread
      dsimp only at hread
      rw [hout, call_upload_large hready.toInSync hfit hrest (by omega)] at hread
      simp [Proto.delivered, ackFrame, frameBytes] at hread
  | opened =>
    refine ⟨?_, rfl⟩
    by_contra hsize
    -- a file that is too large is never sent, and the datanode waits for it
    have hnil : file = [] := by rw [hfile, if_neg hsize]
    have hwait := receiveStoredFile_waiting hopen (s := t)
      (by rw [ht, hnil]; rfl) hready.serverOpen
    obtain ⟨b, hb⟩ := h.serveEnded.resolve_left hne
    rw [hserve, finishStore, bind_waiting hwait] at hb
    simp at hb

/-! ### Downloads -/

theorem exchange_fst_read (hready : Ready c s) (hfit : Fits q.fields) (hrest : q.rest = readRest)
    (n : ℕ) : (exchange q.call (serveNode node) c s n).1 = q.request c := by
  have hcall : ∀ y, wire (q.call.run { c with inp := y }).2.out = q.request c := by
    intro y
    rw [call_run hfit, hrest, silent_readRest]
    simp [Proto.framed, hready.clientOut, Sent.bytes]
  refine rounds_fst _ _ (k := 0) ?_ (hcall _) (Nat.zero_le n)
  exact hcall []

theorem serveNode_read (hready : Ready c s) (hfit : Fits q.fields)
    (hhandle : requestHandler node (q.message c) = sendStored node path) :
    (serveNode node).run { s with inp := q.request c }
      = (sendStoredFile node.disk path >>= fun sent => do
          if sent then responseVersion true (node.disk.getFileVersion path) else response false
          pure node).run ((s.delivered []).framed (ackFrame true c.expectedRecvSeq)) := by
  have hrequest := serveNode_request (r := .rpc q) node hready hfit []
  rw [show (NodeRpc.rpc q).message c = q.message c from rfl, hhandle, List.append_nil] at hrequest
  refine hrequest.trans ?_
  rw [hready.toClient]
  exact bind_done (response_run true _)

theorem returns_read (hready : Ready c s) (hfit : Fits q.fields) (hrest : q.rest = readRest)
    (hhandle : requestHandler node (q.message c) = sendStored node path)
    (hfile : node.disk.files[node.disk.resolvePath path]? = some d)
    (hsize : d.length ≤ fileTransferMaxSize) :
    Returns node (.rpc q) c s node (responseMessage (c.expectedRecvSeq + 1) [fieldBool .ack true,
      fieldUint32 .fileVersion (toUint32 (node.disk.getFileVersion path))], d) := by
  set fields := [fieldBool .ack true,
    fieldUint32 .fileVersion (toUint32 (node.disk.getFileVersion path))] with hfields
  set reply := frameBytes .response flagResponse (c.expectedRecvSeq + 1) 0 fields with hreply
  set s' := (((s.delivered []).framed (ackFrame true c.expectedRecvSeq)).sentBlob d).framed reply
    with hs'
  have hsend : ∀ t, (sendStoredFile node.disk path).run t = (.done true, t.sentBlob d) := by
    intro t
    rw [sendStoredFile, hfile]
    exact sendFile_sized hsize t
  have hserve : (serveNode node).run { s with inp := q.request c } = (.done node, s') := by
    rw [serveNode_read hready hfit hhandle, bind_done (hsend _), if_pos rfl, responseVersion,
      responseAckWithVersion, bind_done (sendFrame_fits (fits_ack_version _ _) _ _ _), hs', hreply,
      hready.toClient]
    rfl
  have hout : wire s'.out
      = ackFrame true c.expectedRecvSeq ++ (pushU64 d.length ++ d ++ (reply ++ [])) := by
    simp [hs', Proto.sentBlob, Proto.framed, Proto.delivered, hready.serverOut, Sent.bytes]
  have hcall := call_read_blob hready.toInSync hfit hrest hsize
    (fits_ack_version true (toUint32 (node.disk.getFileVersion path))) .response flagResponse []
  rw [← hfields, ← hreply, ← hout] at hcall
  refine ⟨_, _, s', fun n _ => exchange_fst_read hready hfit hrest n, hserve, hcall, rfl, rfl, ?_⟩
  constructor
  · constructor <;>
      simp [hs', Proto.settled, Proto.framed, Proto.delivered, Proto.sentBlob, hready.toClient,
        hready.toServer, hready.clientBuffer, hready.serverBuffer, hready.clientOpen,
        hready.serverOpen]
  · exact hready.clientAlive
  · exact hready.serverAlive

theorem file_of_aligned_read (hready : Ready c s) (hfit : Fits q.fields)
    (hrest : q.rest = readRest)
    (hhandle : requestHandler node (q.message c) = sendStored node path)
    (h : Aligned q.call (serveNode node) c s) :
    ∃ d, node.disk.files[node.disk.resolvePath path]? = some d ∧
      d.length ≤ fileTransferMaxSize := by
  rw [aligned_iff_of_fst (k := 0) fun n _ => exchange_fst_read hready hfit hrest n] at h
  by_contra hnone
  -- a file that is not sent: the NACK right after the ACK is taken for its size
  have hsend : ∀ t, (sendStoredFile node.disk path).run t = (.done false, t) := by
    intro t
    rw [sendStoredFile]
    cases hfile : node.disk.files[node.disk.resolvePath path]? with
    | none => rfl
    | some d =>
      refine sendFile_large ?_ t
      by_contra hsize
      exact hnone ⟨d, hfile, by omega⟩
  set t := (s.delivered []).framed (ackFrame true c.expectedRecvSeq) with ht
  have hserve : (serveNode node).run { s with inp := q.request c }
      = (.done node, t.framed (ackFrame false t.nextSendSeq)) := by
    rw [serveNode_read hready hfit hhandle, bind_done (hsend _), if_neg (by simp)]
    exact bind_done (response_run false _)
  have hout : wire (t.framed (ackFrame false t.nextSendSeq)).out
      = ackFrame true c.expectedRecvSeq ++ (ackFrame false t.nextSendSeq ++ []) := by
    simp [ht, Proto.framed, Proto.delivered, hready.serverOut, Sent.bytes]
  obtain ⟨c', hcall, hinp⟩ := call_read_frame hready.toInSync hfit hrest .response flagResponse
    t.nextSendSeq [fieldBool .ack false] []
  have hread := h.callRead
  rw [hserve] at hread
  dsimp only at hread
  rw [hout] at hread
  rw [show q.call.run { c with inp := ackFrame true c.expectedRecvSeq
    ++ (ackFrame false t.nextSendSeq ++ []) } = _ from hcall] at hread
  have hlen := congrArg List.length (hinp.symm.trans hread)
  simp [frameBytes, fieldBytes, fieldBool] at hlen

end Rpc

/-! ### Alignment -/

section Alignment

variable {c s : Proto}

theorem requestHandler_create (node : DataNode) (c : Proto) (p : Bytes) (v : Int32) (d : Bytes) :
    requestHandler node ((Rpc.createFile p v d).message c)
      = storeUpload node p v (sendFrame (responseAck true)) := by
  show storeUpload node _ _ _ = _
  rw [Rpc.getString_message, Rpc.message, Rpc.fields, getUint32_version, toInt32_toUint32]
  rfl

theorem requestHandler_update (node : DataNode) (c : Proto) (p : Bytes) (v : Int32) (d : Bytes) :
    requestHandler node ((Rpc.updateFile p v d).message c)
      = storeUpload node p v (sendFrame (responseAckWithVersion true v)) := by
  show storeUpload node _ _ _ = _
  rw [Rpc.getString_message, Rpc.message, Rpc.fields, getUint32_version, toInt32_toUint32]
  rfl

theorem requestHandler_delete (node : DataNode) (c : Proto) (p : Bytes) :
    requestHandler node ((Rpc.deleteFile p).message c)
      = match node.disk.deleteFileAndVersion p with
        | .error e => raiseError e
        | .ok disk => answering { node with disk := disk } (response true) := rfl

theorem Disk.deleteFileAndVersion_eq_ok {disk : Disk} {p : Bytes}
    (h : disk.removeError (disk.resolvePath p) = none) :
    ∃ disk', disk.deleteFileAndVersion p = .ok disk' := by
  rw [Disk.deleteFileAndVersion, h]
  dsimp only
  split
  · exact ⟨_, rfl⟩
  · exact ⟨_, rfl⟩

theorem Disk.deleteFileAndVersion_eq_error {disk : Disk} {p : Bytes} {e : String}
    (h : disk.removeError (disk.resolvePath p) = some e) :
    disk.deleteFileAndVersion p = .error e := by
  rw [Disk.deleteFileAndVersion, h]

/-- What a call that is served returns. -/
def NodeRpc.reply (node : DataNode) (c : Proto) : NodeRpc → Message × Bytes
  | .rpc (.createFile _ _ _) =>
    (responseMessage (c.expectedRecvSeq + 1) [fieldBool .ack true], [])
  | .rpc (.updateFile _ v _) => (responseMessage (c.expectedRecvSeq + 1)
      [fieldBool .ack true, fieldUint32 .fileVersion (toUint32 v)], [])
  | .rpc (.readFile p) => (responseMessage (c.expectedRecvSeq + 1)
      [fieldBool .ack true, fieldUint32 .fileVersion (toUint32 (node.disk.getFileVersion p))],
      node.disk.files[node.disk.resolvePath p]?.getD [])
  | .rpc (.acquireLock _) => (responseMessage c.expectedRecvSeq [fieldBool .ack false], [])
  | .rpc (.deleteFile _) | .rpc (.releaseLock _) | .rpc .heartbeat =>
    (responseMessage c.expectedRecvSeq [fieldBool .ack true], [])
  | .syncStatus =>
    (responseMessage c.expectedRecvSeq (fileVersionFields node.disk.getFileVersionMap), [])

/-- A call that is served returns its reply, and its effect is on the datanode's disk. -/
theorem returns_of_served (hready : Ready c s) (node : DataNode) (r : NodeRpc)
    (hpath : r.filePath.length ≤ 65535) (h : r.Served node.disk) :
    Returns node r c s (r.apply node) (r.reply node c) := by
  have hfit : Fits r.fields := r.fits_fields.mpr hpath
  cases r with
  | syncStatus =>
    exact returns_answer hready hfit awaitsResponse_status
      ((fits_fileVersionFields _).mpr h) rfl
  | rpc q =>
    cases q with
    | createFile p v d =>
      exact returns_upload (q := .createFile p v d) hready hfit rfl (fits_ack true)
        (requestHandler_create node c p v d) h.1 h.2
    | updateFile p v d =>
      exact returns_upload (q := .updateFile p v d) hready hfit rfl (fits_ack_version true _)
        (requestHandler_update node c p v d) h.1 h.2
    | readFile p =>
      obtain ⟨d, hfile, hsize⟩ := h
      rw [NodeRpc.reply, hfile, Option.getD_some]
      exact returns_read hready hfit rfl rfl hfile hsize
    | deleteFile p =>
      obtain ⟨disk', hdisk⟩ := Disk.deleteFileAndVersion_eq_ok h
      refine returns_answer hready hfit awaitsResponse_receive (fits_ack true) ?_
      show requestHandler node ((Rpc.deleteFile p).message c) = _
      rw [requestHandler_delete, NodeRpc.apply, hdisk]
      rfl
    | acquireLock p => exact returns_answer hready hfit awaitsResponse_receive (fits_ack false) rfl
    | releaseLock p => exact returns_answer hready hfit awaitsResponse_receive (fits_ack true) rfl
    | heartbeat => exact returns_answer hready hfit awaitsResponse_receive (fits_ack true) rfl

theorem served_of_aligned (hready : Ready c s) {node : DataNode} {r : NodeRpc}
    (hpath : r.filePath.length ≤ 65535) (h : Aligned r.call (serveNode node) c s) :
    r.Served node.disk := by
  have hfit : Fits r.fields := r.fits_fields.mpr hpath
  cases r with
  | syncStatus =>
    by_contra hnot
    have hfields : ¬ Fits (fileVersionFields node.disk.getFileVersionMap) := fun hf =>
      hnot ((fits_fileVersionFields _).mp hf)
    obtain ⟨e, he⟩ := sendFrame_not_fits hfields .response flagResponse (s.delivered [])
    exact not_aligned_of_thrown hready hfit awaitsResponse_status (bind_thrown he) h
  | rpc q =>
    cases q with
    | createFile p v d =>
      exact opened_of_aligned_upload (q := .createFile p v d) hready hfit rfl (appends_sendFrame _)
        (requestHandler_create node c p v d) h
    | updateFile p v d =>
      exact opened_of_aligned_upload (q := .updateFile p v d) hready hfit rfl (appends_sendFrame _)
        (requestHandler_update node c p v d) h
    | readFile p => exact file_of_aligned_read (q := .readFile p) hready hfit rfl rfl h
    | deleteFile p =>
      cases herror : node.disk.removeError (node.disk.resolvePath p) with
      | none => exact herror
      | some e =>
        refine absurd h (not_aligned_of_thrown hready hfit awaitsResponse_receive (e := e) ?_)
        show (requestHandler node ((Rpc.deleteFile p).message c)).run _ = _
        rw [requestHandler_delete, Disk.deleteFileAndVersion_eq_error herror]
        rfl
    | acquireLock p => trivial
    | releaseLock p => trivial
    | heartbeat => trivial

/-- A request that cannot be built is not sent: nobody writes anything, and the
datanode goes on waiting for a request. -/
theorem unsent_run (hready : Ready c s) (node : DataNode) {r : NodeRpc}
    (hpath : 65535 < r.filePath.length) :
    (∀ n ≥ 0, (exchange r.call (serveNode node) c s n).1 = []) ∧
    (∃ e, r.call.run { c with inp := [] } = (.thrown e, { c with inp := [] })) ∧
    (serveNode node).run { s with inp := [] } = (.waiting, { s with inp := [] }) := by
  have hfit : ¬ Fits r.fields := fun h => absurd (r.fits_fields.mp h) (by omega)
  have hcall : ∀ y, ∃ e, r.call.run { c with inp := y } = (.thrown e, { c with inp := y }) := by
    intro y
    obtain ⟨e, he⟩ := sendFrame_not_fits hfit r.opcode 0 { c with inp := y }
    exact ⟨e, by rw [r.call_eq, bind_thrown he]⟩
  have hout : ∀ y, wire (r.call.run { c with inp := y }).2.out = [] := by
    intro y
    obtain ⟨e, he⟩ := hcall y
    rw [he]
    simp [hready.clientOut]
  refine ⟨fun n hn => rounds_fst _ _ (k := 0) ?_ (hout _) hn, hcall [], ?_⟩
  · exact hout []
  · exact bind_waiting (receiveAndParse_waiting rfl hready.serverBuffer hready.serverOpen)

theorem ready_unsent (hready : Ready c s) :
    Ready ({ c with inp := [] } : Proto).settled ({ s with inp := [] } : Proto).settled :=
  ⟨⟨hready.toClient, hready.toServer, hready.clientBuffer, hready.serverBuffer, rfl, rfl,
    hready.clientOpen, hready.serverOpen⟩, hready.clientAlive, hready.serverAlive⟩

theorem aligned_of_unsent (hready : Ready c s) (node : DataNode) {r : NodeRpc}
    (hpath : 65535 < r.filePath.length) : Aligned r.call (serveNode node) c s := by
  obtain ⟨hfst, ⟨e, he⟩, hserve⟩ := unsent_run hready node hpath
  rw [aligned_iff_of_fst hfst, hserve]
  dsimp only
  rw [hready.serverOut, wire_nil]
  refine ⟨by rw [he]; simp, Or.inl rfl, by rw [he], by rw [hserve], ?_⟩
  rw [he, hserve]
  exact ready_unsent hready

theorem aligned_iff_served (hready : Ready c s) (node : DataNode) {r : NodeRpc}
    (hpath : r.filePath.length ≤ 65535) :
    Aligned r.call (serveNode node) c s ↔ r.Served node.disk :=
  ⟨served_of_aligned hready hpath, fun h => (returns_of_served hready node r hpath h).aligned⟩

/-- **When an RPC leaves the streams aligned.**  From any two live ends in step,
an RPC of the server on a datanode ends with every byte read on both sides and
both ends in step for the next RPC exactly when its request cannot be built (the
path is over 65535 bytes, and nothing is sent) or the datanode serves it: an
upload is not too large and its output file opens, the file of a `readFile` is
there and not too large, removing does not throw, the reply to `syncStatus` fits. -/
theorem aligned_iff (hready : Ready c s) (node : DataNode) (r : NodeRpc) :
    Aligned r.call (serveNode node) c s
      ↔ 65535 < r.filePath.length ∨ r.Served node.disk := by
  by_cases hpath : r.filePath.length ≤ 65535
  · rw [aligned_iff_served hready node hpath]
    exact ⟨Or.inr, fun h => h.resolve_left (by omega)⟩
  · have hlong : 65535 < r.filePath.length := by omega
    exact ⟨fun _ => Or.inl hlong, fun _ => aligned_of_unsent hready node hlong⟩

/-! ### Sessions -/

/-- The datanode and the two ends after a call. -/
def afterCall (node : DataNode) (c s : Proto) (r : NodeRpc) : DataNode × Proto × Proto :=
  let streams := exchange r.call (serveNode node) c s 2
  let served := (serveNode node).run { s with inp := streams.1 }
  (match served.1 with
    | .done node' => node'
    | _ => node,
    (r.call.run { c with inp := streams.2 }).2.settled, served.2.settled)

/-- Every call of a session leaves the streams aligned. -/
def SessionAligned : DataNode → Proto → Proto → List NodeRpc → Prop
  | _, _, _, [] => True
  | node, c, s, r :: rs =>
    Aligned r.call (serveNode node) c s ∧
      SessionAligned (afterCall node c s r).1 (afterCall node c s r).2.1 (afterCall node c s r).2.2 rs

/-- The datanode after a call that keeps the streams aligned. -/
def NodeRpc.next (node : DataNode) (r : NodeRpc) : DataNode :=
  if r.filePath.length ≤ 65535 then r.apply node else node

/-- Every call of a session is served, or cannot be sent, with what is on the
disk by then. -/
def SessionServed : DataNode → List NodeRpc → Prop
  | _, [] => True
  | node, r :: rs =>
    (65535 < r.filePath.length ∨ r.Served node.disk) ∧ SessionServed (r.next node) rs

/-- A call that keeps the streams aligned hands two ends in step to the next. -/
theorem afterCall_of_served (hready : Ready c s) (node : DataNode) (r : NodeRpc)
    (h : 65535 < r.filePath.length ∨ r.Served node.disk) :
    (afterCall node c s r).1 = r.next node ∧
      Ready (afterCall node c s r).2.1 (afterCall node c s r).2.2 := by
  by_cases hpath : r.filePath.length ≤ 65535
  · have hserved : r.Served node.disk := h.resolve_left (by omega)
    obtain ⟨x, c', s', hfst, hserve, hcall, -, -, hready'⟩ :=
      returns_of_served hready node r hpath hserved
    have hstreams : exchange r.call (serveNode node) c s 2 = (x, wire s'.out) := by
      have hstable := rounds_stable _ _ hfst (le_refl 2)
      rw [hserve] at hstable
      exact hstable
    rw [NodeRpc.next, if_pos hpath, afterCall, hstreams]
    dsimp only
    rw [hserve, hcall]
    exact ⟨rfl, hready'⟩
  · obtain ⟨hfst, ⟨e, he⟩, hserve⟩ := unsent_run hready node (r := r) (by omega)
    have hstreams : exchange r.call (serveNode node) c s 2 = ([], []) := by
      have hout : wire ((serveNode node).run { s with inp := [] }).2.out = [] := by
        rw [hserve]
        simp [hready.serverOut]
      exact (rounds_stable _ _ hfst (show 0 + 1 ≤ 2 by omega)).trans (congrArg (([] : Bytes), ·) hout)
    rw [NodeRpc.next, if_neg hpath, afterCall, hstreams]
    dsimp only
    rw [hserve, he]
    exact ⟨rfl, ready_unsent hready⟩

/-- **A session stays aligned exactly as long as its calls are served.** -/
theorem session_aligned_iff (hready : Ready c s) (node : DataNode) (rs : List NodeRpc) :
    SessionAligned node c s rs ↔ SessionServed node rs := by
  -- an aligned call leaves the next one two ends in step, and the same disk
  induction rs generalizing node c s with
  | nil => exact Iff.rfl
  | cons r rs ih =>
    have hnext : 65535 < r.filePath.length ∨ r.Served node.disk →
        (SessionAligned (afterCall node c s r).1 (afterCall node c s r).2.1
          (afterCall node c s r).2.2 rs ↔ SessionServed (r.next node) rs) := by
      intro hserved
      obtain ⟨hnode, hready'⟩ := afterCall_of_served hready node r hserved
      rw [ih hready', hnode]
    rw [SessionAligned, SessionServed]
    by_cases hpath : r.filePath.length ≤ 65535
    · rw [aligned_iff_served hready node hpath, or_iff_right (by omega)]
      exact and_congr_right fun hserved => hnext (Or.inr hserved)
    · have hlong : 65535 < r.filePath.length := by omega
      rw [iff_true_intro (aligned_of_unsent hready node hlong), iff_true_intro (Or.inl hlong),
        true_and, true_and, hnext (Or.inl hlong)]

end Alignment

/-! ### A missing file -/

/-- A datanode that stores nothing. -/
def emptyNode : DataNode := { peer := { kind := .dataNode, processName := [] }, disk := {} }

theorem ready_fresh : Ready {} {} := ⟨inSync_fresh, rfl, rfl⟩

/-- In the middle of a session the server reads the file `a`, which the datanode stores. -/
theorem read_aligned_mid_session :
    let node : DataNode :=
      { emptyNode with disk := { files := (∅ : StrMap Bytes).insert [97] [1, 2] } }
    let c : Proto := { nextSendSeq := 5, expectedRecvSeq := 9 }
    let s : Proto := { nextSendSeq := 9, expectedRecvSeq := 5 }
    Ready c s ∧ Aligned (NodeRpc.rpc (.readFile [97])).call (serveNode node) c s := by
  intro node c s
  have hready : Ready c s := ⟨by constructor <;> rfl, rfl, rfl⟩
  refine ⟨hready, (aligned_iff hready node (.rpc (.readFile [97]))).mpr (Or.inr ?_)⟩
  exact ⟨[1, 2], by decide, by decide⟩

/-- The server reads the file `a` from a datanode that does not have it.  Both
ends finish, the server's call with a NACK of its own; but the last nine bytes of
the datanode's NACK stay unread, and the next frame boundary is behind them. -/
theorem missing_file_misaligns :
    let r : NodeRpc := .rpc (.readFile [97])
    let streams := exchange r.call (serveNode emptyNode) {} {} 2
    ¬ Aligned r.call (serveNode emptyNode) {} {} ∧
    exchange r.call (serveNode emptyNode) {} {} 3 = streams ∧
    (r.call.run { inp := streams.2 }).1 = .done (makeNack, []) ∧
    (r.call.run { inp := streams.2 }).2.inp = (ackFrame false 1).drop 8 ∧
    ((serveNode emptyNode).run { inp := streams.1 }).2.out
      = [.frame (ackFrame true 0), .frame (ackFrame false 1)] := by
  intro r streams
  refine ⟨fun h => ?_, by decide, by decide, by decide, by decide⟩
  obtain ⟨d, hd, -⟩ := served_of_aligned ready_fresh (r := r) (by decide) h
  simp [emptyNode] at hd

end Squid
