/-
A call and the request it makes, as one conversation over two byte streams.

The client and the server each see what the other has written so far
(`streams`).  `Matched` says how a call should end: it returns the reply that
the server issued to it, with the bytes of the file, and the client's read
position is at a frame boundary.

* `quiet_zero_of_matched` — a push before the first send of the reply is
  returned in place of the reply;
* `matched_iff_of_fst` — once the client's stream is complete, one point decides.
-/
import SquidStorage.ClientSession
import SquidStorage.Rounds

open BigEndian Rounds

namespace Squid

/-! ### The conversation -/

/-- The two ends of an open connection between two requests: nothing is in
flight and each end expects the number the other will stamp next. -/
structure InSync (c s : Proto) : Prop where
  toClient : c.expectedRecvSeq = s.nextSendSeq
  toServer : s.expectedRecvSeq = c.nextSendSeq
  clientBuffer : c.reorderBuffer = ∅
  serverBuffer : s.reorderBuffer = ∅
  clientOut : c.out = []
  serverOut : s.out = []
  clientOpen : c.peerClosed = false
  serverOpen : s.peerClosed = false

/-- What the client and the server have written after `n` rounds of the call `r`. -/
def streams (mg : Managers) (w : ℕ → List PushTask) (r : Rpc) (c s : Proto) (n : ℕ) :
    Bytes × Bytes :=
  rounds (fun y => wire (r.call.run { c with inp := y }).2.out)
    (fun x => wire ((serve mg w).run { s with inp := x }).2.out) n

/-- The reader has consumed whole writes, and the next one, if any, is a frame. -/
def AtFrameBoundary (sent : List Sent) (unread : Bytes) : Prop :=
  ∃ pre post, sent = pre ++ post ∧ unread = wire post ∧ ∀ b, post.head? ≠ some (.blob b)

/-- The bytes a call should deliver: those of the file for `readFile`. -/
def Rpc.fileBytes (mg : Managers) : Rpc → Bytes
  | .readFile p => (mg.getFileFromDataNode p).getD []
  | _ => []

/-- With the client's stream `x` and the server's stream `y`, the server has
issued its reply, the call has returned that reply with the file's bytes, and
the client's read position is at a frame boundary. -/
def MatchedOn (mg : Managers) (w : ℕ → List PushTask) (r : Rpc) (c s : Proto) (x y : Bytes) :
    Prop :=
  ∃ m data c' s' frame,
    r.call.run { c with inp := y } = (.done (m, data), c') ∧
    (serve mg w).run { s with inp := x } = (.done (), s') ∧
    s'.out.getLast? = some (.frame frame) ∧ parseMessage frame = .ok m ∧
    data = r.fileBytes mg ∧ AtFrameBoundary s'.out c'.inp

/-- The conversation ends with the call and its reply matched. -/
def Matched (mg : Managers) (w : ℕ → List PushTask) (r : Rpc) (c s : Proto) : Prop :=
  ∃ N, ∀ n ≥ N, MatchedOn mg w r c s (streams mg w r c s n).1 (streams mg w r c s n).2

def Rpc.filePath : Rpc → Bytes
  | .createFile p _ _ | .readFile p | .updateFile p _ _ | .deleteFile p | .acquireLock p
  | .releaseLock p => p
  | .heartbeat => []

/-- The file whose bytes the call moves, in either direction. -/
def Rpc.fileData (mg : Managers) : Rpc → Bytes
  | .createFile _ _ d | .updateFile _ _ d => d
  | .readFile p => (mg.getFileFromDataNode p).getD []
  | .deleteFile _ | .acquireLock _ | .releaseLock _ | .heartbeat => []

/-- The sizes the formats carry: the path in one field, the file in at most
`FILETRANSFER_MAX_SIZE` bytes. -/
def Rpc.Sized (mg : Managers) (r : Rpc) : Prop :=
  r.filePath.length ≤ 65535 ∧ (r.fileData mg).length ≤ fileTransferMaxSize

/-- How many tasks of the session make up the reply. -/
def Rpc.sends (mg : Managers) : Rpc → ℕ
  | .createFile .. | .updateFile .. => 2
  | .readFile p => if (mg.getFileFromDataNode p).isSome then 3 else 1
  | _ => 1

/-- No push runs between the request and the end of its reply. -/
def Rpc.Quiet (mg : Managers) (w : ℕ → List PushTask) (r : Rpc) : Prop :=
  ∀ k < r.sends mg, w k = []

section Conversation

variable {mg : Managers} {w : ℕ → List PushTask} {r : Rpc} {c s : Proto}

theorem Rpc.quiet_of_one (h : r.sends mg = 1) : r.Quiet mg w ↔ w 0 = [] := by
  rw [Rpc.Quiet, h]
  exact Nat.forall_lt_succ_right.trans (and_iff_right fun k hk => absurd hk k.not_lt_zero)

theorem Rpc.quiet_of_two (h : r.sends mg = 2) : r.Quiet mg w ↔ w 0 = [] ∧ w 1 = [] := by
  rw [Rpc.Quiet, h]
  refine Nat.forall_lt_succ_right.trans (and_congr_left fun _ => ?_)
  exact Nat.forall_lt_succ_right.trans (and_iff_right fun k hk => absurd hk k.not_lt_zero)

theorem Rpc.quiet_of_three (h : r.sends mg = 3) :
    r.Quiet mg w ↔ w 0 = [] ∧ w 1 = [] ∧ w 2 = [] := by
  rw [Rpc.Quiet, h, ← and_assoc]
  refine Nat.forall_lt_succ_right.trans (and_congr_left fun _ => ?_)
  refine Nat.forall_lt_succ_right.trans (and_congr_left fun _ => ?_)
  exact Nat.forall_lt_succ_right.trans (and_iff_right fun k hk => absurd hk k.not_lt_zero)

/-- The server starts with the request: it runs what is queued and the handler. -/
theorem serve_request (hsync : InSync c s) (hfit : Fits r.fields) (unread : Bytes) :
    (serve mg w).run { s with inp := r.request c ++ unread }
      = (execAll (w 0) >>= fun _ => handleClientRequest mg w (r.message c)).run
          (s.delivered unread) := by
  -- the request carries the number the server expects
  have hinp : r.request c ++ unread
      = frameBytes r.opcode 0 s.expectedRecvSeq 0 r.fields ++ unread := by
    rw [Rpc.request, hsync.toServer]
  have hrecv := receiveAndParse_frame (s := { s with inp := r.request c ++ unread }) hfit
    hsync.serverBuffer hinp
  rw [serve, bind_done hrecv, Rpc.message, ← hsync.toServer]
  rfl

theorem call_thrown (hfit : ¬ Fits r.fields) (y : Bytes) :
    ∃ e, r.call.run { c with inp := y } = (.thrown e, { c with inp := y }) := by
  obtain ⟨e, he⟩ := sendFrame_not_fits hfit r.opcode 0 { c with inp := y }
  exact ⟨e, by rw [Rpc.call_eq, bind_thrown he]⟩

/-- A call starts with its request. -/
theorem call_run (hfit : Fits r.fields) (y : Bytes) :
    r.call.run { c with inp := y }
      = r.rest.run (({ c with inp := y } : Proto).framed (r.request c)) := by
  rw [Rpc.call_eq, bind_done (sendFrame_fits hfit r.opcode 0 _)]
  rfl

theorem call_of_not_ack (hfit : Fits r.fields) (hbuf : c.reorderBuffer = ∅) {opcode : Opcode}
    {flags : UInt8} {fields : List BinaryField} (hfields : Fits fields)
    (hack : Message.isAck { opcode := opcode, flags := flags, seq := c.expectedRecvSeq,
                            fields := fields } = false) (unread : Bytes) :
    r.call.run { c with inp := frameBytes opcode flags c.expectedRecvSeq 0 fields ++ unread }
      = (.done ({ opcode := opcode, flags := flags, seq := c.expectedRecvSeq,
                  fields := fields }, []), (c.framed (r.request c)).delivered unread) := by
  rw [call_run hfit]
  exact r.rest_of_not_ack hfields hbuf rfl hack

variable (mg w) in
theorem streams_fst (hsync : InSync c s) (hfit : Fits r.fields) (n : ℕ) :
    ∃ unread, (streams mg w r c s n).1 = r.request c ++ unread := by
  have hcall : ∀ y, ∃ unread, wire (r.call.run { c with inp := y }).2.out
      = r.request c ++ unread := by
    intro y
    obtain ⟨post, hpost⟩ := r.appends_rest (({ c with inp := y } : Proto).framed (r.request c))
    refine ⟨wire post, ?_⟩
    rw [call_run hfit, hpost]
    simp [Proto.framed, hsync.clientOut, Sent.bytes]
  cases n with
  | zero => exact hcall []
  | succ n => exact hcall _

/-- A request that the formatter refuses is never matched. -/
theorem fits_of_matched (h : Matched mg w r c s) : Fits r.fields := by
  by_contra hfit
  obtain ⟨N, hN⟩ := h
  obtain ⟨m, data, c', s', frame, hcall, -⟩ := hN N le_rfl
  obtain ⟨e, he⟩ := call_thrown hfit (streams mg w r c s N).2
  rw [he] at hcall
  simp at hcall

/-- The message of the last frame that a finished handler has written. -/
theorem answers_parse {P : List BinaryField → Prop} {x : ProtoM Unit} (hx : Answers P x)
    {t s' : Proto} (hrun : x.run t = (.done (), s')) {frame : Bytes} {m : Message}
    (hlast : s'.out.getLast? = some (.frame frame)) (hparse : parseMessage frame = .ok m) :
    m.opcode = .response ∧ P m.fields := by
  obtain ⟨pre, seq, fields, hfit, hP, hout⟩ := hx t s' hrun
  rw [hout, List.getLast?_append, List.getLast?_singleton, Option.some_or, Option.some.injEq,
    Sent.frame.injEq] at hlast
  have hresp := parseMessage_frameBytes hfit .response flagResponse seq 0 []
  rw [List.append_nil, hlast, hparse, Except.ok.injEq] at hresp
  rw [hresp]
  exact ⟨rfl, hP⟩

/-- With a push before the first send of the reply, the call returns the push. -/
theorem quiet_zero_of_matched (hsync : InSync c s) (h : Matched mg w r c s) : w 0 = [] := by
  have hfit := fits_of_matched h
  obtain ⟨N, hN⟩ := h
  cases hw : w 0 with
  | nil => rfl
  | cons t ts =>
    exfalso
    -- the server's whole output starts with the push
    obtain ⟨-, -, -, s₁, -, -, hserve₁, -⟩ := hN N le_rfl
    obtain ⟨unread, hx⟩ := streams_fst mg w hsync hfit N
    have hout := hserve₁
    rw [hx, serve_request hsync hfit, hw] at hout
    obtain ⟨hfitPush, post, hout⟩ :=
      execAll_cons_out (appends_handleClientRequest mg w _) hout
    have hy : (streams mg w r c s (N + 1)).2
        = frameBytes t.opcode 0 s.nextSendSeq 0 t.fields ++ wire post := by
      show wire ((serve mg w).run { s with inp := (streams mg w r c s N).1 }).2.out = _
      rw [hserve₁, hout]
      simp [Proto.delivered, hsync.serverOut, Sent.bytes]
    -- so one round later the call returns it, while the reply is a response
    obtain ⟨m, data, c', s', frame, hcall, hserve, hlast, hparse, -⟩ := hN (N + 1) (by omega)
    have hack : Message.isAck { opcode := t.opcode, flags := 0, seq := s.nextSendSeq,
                                fields := t.fields } = false := by
      simp [Message.isAck, Message.isResponse]
    rw [hy] at hcall
    rw [← hsync.toClient] at hcall hack
    rw [call_of_not_ack hfit hsync.clientBuffer hfitPush hack] at hcall
    obtain ⟨unread', hx'⟩ := streams_fst mg w hsync hfit (N + 1)
    rw [hx', serve_request hsync hfit] at hserve
    have hop := (answers_parse (Answers.bind fun _ => answers_handleClientRequest mg w _)
      hserve hlast hparse).1
    simp only [Prod.mk.injEq, Outcome.done.injEq] at hcall
    rw [← hcall.1.1] at hop
    exact t.opcode_ne_response hop

/-- Once the client's stream is complete, there is one point to look at. -/
theorem matched_iff_of_fst {k : ℕ} {x : Bytes} (hx : ∀ n ≥ k, (streams mg w r c s n).1 = x) :
    Matched mg w r c s
      ↔ MatchedOn mg w r c s x (wire ((serve mg w).run { s with inp := x }).2.out) := by
  have hstable : ∀ n ≥ k + 1, streams mg w r c s n
      = (x, wire ((serve mg w).run { s with inp := x }).2.out) :=
    fun n hn => rounds_stable _ _ hx hn
  constructor
  · rintro ⟨N, hN⟩
    have h := hN (max N (k + 1)) (le_max_left _ _)
    rwa [hstable _ (le_max_right _ _)] at h
  · intro h
    refine ⟨k + 1, fun n hn => ?_⟩
    rwa [hstable n hn]

/-- A call that only receives after its request. -/
theorem streams_fst_of_silent (hsync : InSync c s) (hfit : Fits r.fields)
    (hsilent : Silent r.rest) (n : ℕ) : (streams mg w r c s n).1 = r.request c := by
  have hcall : ∀ y, wire (r.call.run { c with inp := y }).2.out = r.request c := by
    intro y
    rw [call_run hfit, hsilent]
    simp [Proto.framed, hsync.clientOut, Sent.bytes]
  cases n with
  | zero => exact hcall []
  | succ n => exact hcall _

/-- The server has finished with a response, and the call has returned it after
reading everything. -/
theorem matchedOn_of_reply {x : Bytes} {c' s' : Proto} {pre : List Sent} {seq : UInt32}
    {fields : List BinaryField} (hfields : Fits fields)
    (hserve : (serve mg w).run { s with inp := x } = (.done (), s'))
    (hout : s'.out = pre ++ [.frame (frameBytes .response flagResponse seq 0 fields)])
    (hcall : r.call.run { c with inp := wire s'.out }
      = (.done ({ opcode := .response, flags := flagResponse, seq := seq, fields := fields },
          r.fileBytes mg), c'))
    (hinp : c'.inp = []) :
    MatchedOn mg w r c s x (wire ((serve mg w).run { s with inp := x }).2.out) := by
  have hparse := parseMessage_frameBytes hfields .response flagResponse seq 0 []
  rw [List.append_nil] at hparse
  rw [hserve]
  refine ⟨_, _, c', s', _, hcall, hserve, ?_, hparse, rfl, s'.out, [], (List.append_nil _).symm,
    hinp, by simp⟩
  rw [hout, List.getLast?_append, List.getLast?_singleton, Option.some_or]

/-- Without pushes, a one-frame answer that the call returns is matched. -/
theorem matchedOn_of_answer (hsync : InSync c s) (hfit : Fits r.fields) (hw : w 0 = [])
    {b : Bool} (hhandle : handleClientRequest mg w (r.message c) = response b)
    (hcall : r.call.run { c with inp := ackFrame b c.expectedRecvSeq ++ [] }
      = (.done (ackMessage b c.expectedRecvSeq, []), (c.framed (r.request c)).delivered []))
    (hbytes : r.fileBytes mg = []) :
    MatchedOn mg w r c s (r.request c)
      (wire ((serve mg w).run { s with inp := r.request c }).2.out) := by
  set s' := (s.delivered []).framed (ackFrame b s.nextSendSeq) with hs'
  have hserve : (serve mg w).run { s with inp := r.request c } = (.done (), s') := by
    rw [← List.append_nil (r.request c), serve_request hsync hfit, hw, hhandle]
    exact response_run b _
  have hout : s'.out = [] ++ [.frame (ackFrame b c.expectedRecvSeq)] := by
    simp [hs', Proto.framed, Proto.delivered, hsync.serverOut, hsync.toClient]
  have hreply : r.call.run { c with inp := wire s'.out }
      = (.done (ackMessage b c.expectedRecvSeq, r.fileBytes mg),
          (c.framed (r.request c)).delivered []) := by
    rw [hout, hbytes]
    exact hcall
  exact matchedOn_of_reply (fits_ack b) hserve hout hreply rfl

theorem matched_simple_iff (hsync : InSync c s) (hfit : Fits r.fields)
    (hrest : r.rest = messageOnly receiveAndParse) {b : Bool}
    (hhandle : handleClientRequest mg w (r.message c) = response b)
    (hbytes : r.fileBytes mg = []) : Matched mg w r c s ↔ w 0 = [] := by
  refine ⟨quiet_zero_of_matched hsync, fun hw => ?_⟩
  have hsilent : Silent r.rest := by
    rw [hrest]
    exact silent_receiveAndParse.bind fun _ => silent_pure _
  rw [matched_iff_of_fst (k := 0) fun n _ => streams_fst_of_silent hsync hfit hsilent n]
  refine matchedOn_of_answer hsync hfit hw hhandle ?_ hbytes
  rw [call_run hfit, hrest, messageOnly]
  exact bind_done (receiveAndParse_frame (fits_ack b) hsync.clientBuffer rfl)

end Conversation

end Squid
