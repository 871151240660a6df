/-
Which calls get their own reply.

`squidprotocol.hpp` says of the push helpers that "there is no ambiguity even if
a client request is in-flight".  What holds is `matched_iff`: a call returns the
reply issued to it exactly when no push runs between the request and the end of
the reply and nothing exceeds the sizes the formats carry.
`heartbeat_returns_push` is the smallest case where it fails.
-/
import SquidStorage.Conversation

open BigEndian Rounds

namespace Squid

section Conversation

variable {mg : Managers} {w : ℕ → List PushTask} {r : Rpc} {c s : Proto}

/-! ### Uploads -/

/-- What the handler of an upload does after the intermediate ACK. -/
def finishUpload (w : ℕ → List PushTask) (answer : Bytes → ProtoM Unit) : ProtoM Unit := do
  let fileData ← receiveFile
  execAll (w 1)
  match fileData with
  | none => response false
  | some fileData => answer fileData

theorem serve_upload (hsync : InSync c s) (hfit : Fits r.fields) (hw : w 0 = [])
    {answer : Bytes → ProtoM Unit}
    (hhandle : handleClientRequest mg w (r.message c) = receiveUpload w answer)
    (unread : Bytes) :
    (serve mg w).run { s with inp := r.request c ++ unread }
      = (finishUpload w answer).run
          ((s.delivered unread).framed (ackFrame true c.expectedRecvSeq)) := by
  rw [serve_request hsync hfit, hw, hhandle, hsync.toClient, execAll, pure_bind]
  exact bind_done (response_run true _)

/-- The first ACK as the client receives it after its request. -/
theorem receive_ack (hsync : InSync c s) (r : Rpc) (b : Bool) (unread : Bytes) :
    receiveAndParse.run
        (({ c with inp := ackFrame b c.expectedRecvSeq ++ unread } : Proto).framed (r.request c))
      = (.done (ackMessage b c.expectedRecvSeq), (c.framed (r.request c)).delivered unread) :=
  receiveAndParse_frame (fits_ack b) hsync.clientBuffer rfl

/-- After the intermediate ACK the client writes the file, whatever follows. -/
theorem call_upload (hsync : InSync c s) (hfit : Fits r.fields) {d : Bytes}
    (hrest : r.rest = uploadRest d) (hsize : d.length ≤ fileTransferMaxSize) (unread : Bytes) :
    r.call.run { c with inp := ackFrame true c.expectedRecvSeq ++ unread }
      = (messageOnly receiveAndParse).run
          (((c.framed (r.request c)).delivered unread).sentBlob d) := by
  rw [call_run hfit, hrest, uploadRest, bind_done (receive_ack hsync r true unread),
    isAck_ackMessage, if_neg (by simp), bind_done (sendFile_sized hsize _)]
  rfl

theorem call_upload_large (hsync : InSync c s) (hfit : Fits r.fields) {d : Bytes}
    (hrest : r.rest = uploadRest d) (hsize : fileTransferMaxSize < d.length) (unread : Bytes) :
    r.call.run { c with inp := ackFrame true c.expectedRecvSeq ++ unread }
      = (.done (makeNack, []), (c.framed (r.request c)).delivered unread) := by
  rw [call_run hfit, hrest, uploadRest, bind_done (receive_ack hsync r true unread),
    isAck_ackMessage, if_neg (by simp), bind_done (sendFile_large hsize _)]
  rfl

/-- All that an upload writes once it has its ACK: the request and the file, if
it is not too large. -/
theorem call_upload_out (hsync : InSync c s) (hfit : Fits r.fields) {d : Bytes}
    (hrest : r.rest = uploadRest d) (unread : Bytes) :
    wire (r.call.run { c with inp := ackFrame true c.expectedRecvSeq ++ unread }).2.out
      = r.request c ++ if d.length ≤ fileTransferMaxSize then pushU64 d.length ++ d else [] := by
  by_cases hsize : d.length ≤ fileTransferMaxSize
  · have hsilent : Silent (messageOnly receiveAndParse) :=
      silent_receiveAndParse.bind fun _ => silent_pure _
    rw [call_upload hsync hfit hrest hsize, hsilent, if_pos hsize]
    simp [Proto.framed, Proto.delivered, Proto.sentBlob, hsync.clientOut, Sent.bytes]
  · rw [call_upload_large hsync hfit hrest (by omega), if_neg hsize]
    simp [Proto.framed, Proto.delivered, hsync.clientOut, Sent.bytes]

theorem appends_finishUpload {answer : Bytes → ProtoM Unit} (h : ∀ d, Appends (answer d)) :
    Appends (finishUpload w answer) := by
  refine silent_receiveFile.appends.bind fun fileData => (appends_execAll _).bind fun _ => ?_
  cases fileData with
  | none => exact appends_sendFrame _
  | some d => exact h d

/-- From the first round on, the server's stream starts with the intermediate ACK. -/
theorem streams_snd_upload (hsync : InSync c s) (hfit : Fits r.fields) (hw : w 0 = [])
    {answer : Bytes → ProtoM Unit} (happ : ∀ d, Appends (answer d))
    (hhandle : handleClientRequest mg w (r.message c) = receiveUpload w answer) (n : ℕ) :
    ∃ unread, (streams mg w r c s (n + 1)).2 = ackFrame true c.expectedRecvSeq ++ unread := by
  obtain ⟨unread, hx⟩ := streams_fst mg w hsync hfit n
  obtain ⟨post, hpost⟩ := appends_finishUpload (w := w) happ
    ((s.delivered unread).framed (ackFrame true c.expectedRecvSeq))
  refine ⟨wire post, ?_⟩
  show wire ((serve mg w).run { s with inp := (streams mg w r c s n).1 }).2.out = _
  rw [hx, serve_upload hsync hfit hw hhandle, hpost]
  simp [Proto.framed, Proto.delivered, hsync.serverOut, Sent.bytes]

theorem streams_fst_upload (hsync : InSync c s) (hfit : Fits r.fields) (hw : w 0 = [])
    {answer : Bytes → ProtoM Unit} (happ : ∀ d, Appends (answer d))
    (hhandle : handleClientRequest mg w (r.message c) = receiveUpload w answer) {d : Bytes}
    (hrest : r.rest = uploadRest d) {n : ℕ} (hn : 1 ≤ n) :
    (streams mg w r c s n).1 = r.request c
      ++ if d.length ≤ fileTransferMaxSize then pushU64 d.length ++ d else [] := by
  obtain ⟨m, rfl⟩ : ∃ m, n = m + 1 := ⟨n - 1, by omega⟩
  obtain ⟨unread, hy⟩ := streams_snd_upload hsync hfit hw happ hhandle m
  show wire (r.call.run { c with inp := (streams mg w r c s (m + 1)).2 }).2.out = _
  rw [hy]
  exact call_upload_out hsync hfit hrest unread

/-- The call returns the message that follows the intermediate ACK. -/
theorem call_upload_frame (hsync : InSync c s) (hfit : Fits r.fields) {d : Bytes}
    (hrest : r.rest = uploadRest d) (hsize : d.length ≤ fileTransferMaxSize)
    {fields : List BinaryField} (hfields : Fits fields) (opcode : Opcode) (flags : UInt8)
    (unread : Bytes) :
    ∃ c', r.call.run { c with inp := ackFrame true c.expectedRecvSeq
        ++ (frameBytes opcode flags (c.expectedRecvSeq + 1) 0 fields ++ unread) }
      = (.done ({ opcode := opcode, flags := flags, seq := c.expectedRecvSeq + 1,
                  fields := fields }, []), c') ∧ c'.inp = unread := by
  rw [call_upload hsync hfit hrest hsize]
  exact ⟨_, bind_done (receiveAndParse_frame hfields hsync.clientBuffer rfl), rfl⟩

/-- The server has the whole upload: pushes, then the answer. -/
theorem serve_upload_blob (hsync : InSync c s) (hfit : Fits r.fields) (hw : w 0 = [])
    {answer : Bytes → ProtoM Unit}
    (hhandle : handleClientRequest mg w (r.message c) = receiveUpload w answer) {d : Bytes}
    (hsize : d.length ≤ fileTransferMaxSize) :
    (serve mg w).run { s with inp := r.request c ++ (pushU64 d.length ++ d) }
      = (execAll (w 1) >>= fun _ => answer d).run
          ((s.delivered []).framed (ackFrame true c.expectedRecvSeq)) := by
  rw [serve_upload hsync hfit hw hhandle]
  exact bind_done (receiveFile_blob hsize (List.append_nil _).symm)

/-- A push between the file and the result of an upload is the second frame, and the
call takes it for the result. -/
theorem quiet_one_of_upload (hsync : InSync c s) (hfit : Fits r.fields) {d : Bytes}
    (hrest : r.rest = uploadRest d) (hsize : d.length ≤ fileTransferMaxSize)
    {answer : Bytes → ProtoM Unit} (happ : Appends (answer d)) {s' c' : Proto} {m : Message}
    {data : Bytes}
    (hserve : (execAll (w 1) >>= fun _ => answer d).run
      ((s.delivered []).framed (ackFrame true c.expectedRecvSeq)) = (.done (), s'))
    (hcall : r.call.run { c with inp := wire s'.out } = (.done (m, data), c'))
    (hop : m.opcode = .response) : w 1 = [] := by
  cases hw₁ : w 1 with
  | nil => rfl
  | cons t ts =>
    exfalso
    rw [hw₁] at hserve
    obtain ⟨hpush, post, hout⟩ := execAll_cons_out happ hserve
    have hy : wire s'.out = ackFrame true c.expectedRecvSeq
        ++ (frameBytes t.opcode 0 (c.expectedRecvSeq + 1) 0 t.fields ++ wire post) := by
      rw [hout]
      simp [Proto.framed, Proto.delivered, hsync.serverOut, hsync.toClient, Sent.bytes]
    obtain ⟨c'', hpushed, -⟩ := call_upload_frame hsync hfit hrest hsize hpush t.opcode 0
      (wire post)
    rw [hy, hpushed] at hcall
    simp only [Prod.mk.injEq, Outcome.done.injEq] at hcall
    rw [← hcall.1.1] at hop
    exact t.opcode_ne_response hop

/-- Without pushes the call returns the result of its upload. -/
theorem matchedOn_upload (hsync : InSync c s) (hfit : Fits r.fields) (hw : w 0 = [])
    (hw₁ : w 1 = []) {answer : Bytes → ProtoM Unit}
    (hhandle : handleClientRequest mg w (r.message c) = receiveUpload w answer) {d : Bytes}
    (hrest : r.rest = uploadRest d) (hsize : d.length ≤ fileTransferMaxSize)
    {fields : List BinaryField} (hfields : Fits fields)
    (hreply : answer d = sendFrame (buildFrame .response flagResponse fields))
    (hbytes : r.fileBytes mg = []) :
    MatchedOn mg w r c s (r.request c ++ (pushU64 d.length ++ d))
      (wire ((serve mg w).run { s with inp := r.request c ++ (pushU64 d.length ++ d) }).2.out) := by
  set reply := frameBytes .response flagResponse (c.expectedRecvSeq + 1) 0 fields with hreplyDef
  set s' := ((s.delivered []).framed (ackFrame true c.expectedRecvSeq)).framed reply with hs'
  have hserve : (serve mg w).run { s with inp := r.request c ++ (pushU64 d.length ++ d) }
      = (.done (), s') := by
    rw [serve_upload_blob hsync hfit hw hhandle hsize, hw₁, execAll, pure_bind, hreply,
      sendFrame_fits hfields, hs', hreplyDef, hsync.toClient]
    rfl
  have hout : s'.out = [.frame (ackFrame true c.expectedRecvSeq)] ++ [.frame reply] := by
    simp [hs', Proto.framed, Proto.delivered, hsync.serverOut]
  obtain ⟨c', hcall, hinp⟩ := call_upload_frame hsync hfit hrest hsize hfields .response
    flagResponse []
  refine matchedOn_of_reply hfields hserve hout ?_ hinp
  rw [hout, hbytes, ← hcall]
  simp [Sent.bytes, hreplyDef]

theorem matched_upload_iff (hsync : InSync c s) (hfit : Fits r.fields)
    {answer : Bytes → ProtoM Unit}
    (hhandle : handleClientRequest mg w (r.message c) = receiveUpload w answer) {d : Bytes}
    (hanswer : ∀ d, ∃ fields, Fits fields ∧
      answer d = sendFrame (buildFrame .response flagResponse fields))
    (hrest : r.rest = uploadRest d) (hbytes : r.fileBytes mg = []) :
    Matched mg w r c s ↔ d.length ≤ fileTransferMaxSize ∧ w 0 = [] ∧ w 1 = [] := by
  have happ : ∀ d, Appends (answer d) := by
    intro d
    obtain ⟨fields, -, h⟩ := hanswer d
    rw [h]
    exact appends_sendFrame _
  obtain ⟨fields, hfields, hreply⟩ := hanswer d
  constructor
  · intro hm
    have hw := quiet_zero_of_matched hsync hm
    -- after the ACK the client has said all it will say
    rw [matched_iff_of_fst (k := 1) fun n hn =>
      streams_fst_upload hsync hfit hw happ hhandle hrest hn] at hm
    by_cases hsize : d.length ≤ fileTransferMaxSize
    · rw [if_pos hsize] at hm
      obtain ⟨m, data, c', s', frame, hcall, hserve, hlast, hparse, -⟩ := hm
      rw [hserve] at hcall
      rw [serve_upload_blob hsync hfit hw hhandle hsize] at hserve
      have hans : Answers (fun _ => True) (answer d) := by
        rw [hreply]
        exact answers_sendFrame trivial
      have hop := (answers_parse (Answers.bind fun _ => hans) hserve hlast hparse).1
      exact ⟨hsize, hw, quiet_one_of_upload hsync hfit hrest hsize (happ d) hserve hcall hop⟩
    · -- a file that is too large is never sent, and the server waits for it
      rw [if_neg hsize] at hm
      obtain ⟨m, data, c', s', frame, -, hserve, -⟩ := hm
      have hwait : receiveFile.run ((s.delivered []).framed (ackFrame true c.expectedRecvSeq))
          = (.waiting, _) := receiveFile_waiting rfl hsync.serverOpen
      rw [serve_upload hsync hfit hw hhandle, finishUpload, bind_waiting hwait] at hserve
      simp at hserve
  · rintro ⟨hsize, hw, hw₁⟩
    rw [matched_iff_of_fst (k := 1) fun n hn =>
      streams_fst_upload hsync hfit hw happ hhandle hrest hn, if_pos hsize]
    exact matchedOn_upload hsync hfit hw hw₁ hhandle hrest hsize hfields hreply hbytes

/-! ### Downloads -/

/-- Any frame right after the ACK is taken for the size of the file. -/
theorem call_read_frame (hsync : InSync c s) (hfit : Fits r.fields) (hrest : r.rest = readRest)
    (opcode : Opcode) (flags : UInt8) (seq : UInt32) (fields : List BinaryField)
    (unread : Bytes) :
    ∃ c', r.call.run { c with inp := ackFrame true c.expectedRecvSeq
        ++ (frameBytes opcode flags seq 0 fields ++ unread) }
      = (.done (makeNack, []), c') ∧
      c'.inp = (frameBytes opcode flags seq 0 fields ++ unread).drop 8 := by
  rw [call_run hfit, hrest, readRest, bind_done (receive_ack hsync r true _), isAck_ackMessage,
    if_neg (by simp)]
  exact ⟨_, bind_done (receiveFile_frame rfl), rfl⟩

/-- The call returns the bytes and the message after them. -/
theorem call_read_blob (hsync : InSync c s) (hfit : Fits r.fields) (hrest : r.rest = readRest)
    {d : Bytes} (hsize : d.length ≤ fileTransferMaxSize) {fields : List BinaryField}
    (hfields : Fits fields) (opcode : Opcode) (flags : UInt8) (unread : Bytes) :
    r.call.run { c with inp := ackFrame true c.expectedRecvSeq
        ++ (pushU64 d.length ++ d
          ++ (frameBytes opcode flags (c.expectedRecvSeq + 1) 0 fields ++ unread)) }
      = (.done ({ opcode := opcode, flags := flags, seq := c.expectedRecvSeq + 1,
                  fields := fields }, d), ((c.framed (r.request c)).delivered []).delivered unread) := by
  rw [call_run hfit, hrest, readRest, bind_done (receive_ack hsync r true _), isAck_ackMessage,
    if_neg (by simp)]
  -- past the bytes of the file only the result is left
  set t : Proto := { (c.framed (r.request c)).delivered [] with
    inp := frameBytes opcode flags (c.expectedRecvSeq + 1) 0 fields ++ unread } with ht
  have hresult : receiveAndParse.run t
      = (.done { opcode := opcode, flags := flags, seq := c.expectedRecvSeq + 1,
                 fields := fields }, t.delivered unread) :=
    receiveAndParse_frame hfields hsync.clientBuffer rfl
  exact (bind_done (receiveFile_blob hsize rfl)).trans (bind_done hresult)

/-- What the handler of a `readFile` does after its first two windows. -/
def finishDownload (w : ℕ → List PushTask) (d : Bytes) (ver : Int32) : ProtoM Unit := do
  let sent ← sendFile d
  execAll (w 2)
  responseVersion sent ver

theorem appends_finishDownload (d : Bytes) (ver : Int32) : Appends (finishDownload w d ver) :=
  (appends_sendFile d).bind fun _ => (appends_execAll _).bind fun _ => appends_sendFrame _

theorem serve_download (hsync : InSync c s) (hfit : Fits r.fields) (hw : w 0 = []) {d : Bytes}
    {ver : Int32} (hhandle : handleClientRequest mg w (r.message c) = sendDownload w d ver) :
    (serve mg w).run { s with inp := r.request c }
      = (execAll (w 1) >>= fun _ => finishDownload w d ver).run
          ((s.delivered []).framed (ackFrame true c.expectedRecvSeq)) := by
  rw [← List.append_nil (r.request c), serve_request hsync hfit, hw, hhandle, execAll, pure_bind,
    hsync.toClient]
  exact bind_done (response_run true _)

/-- A finished reply whose message the call has returned leaves no room for a
push, and its file has been sent. -/
theorem quiet_of_read (hsync : InSync c s) (hfit : Fits r.fields) (hrest : r.rest = readRest)
    {d : Bytes} {ver : Int32} {s' c' : Proto} {m : Message} {data : Bytes}
    (hserve : (execAll (w 1) >>= fun _ => finishDownload w d ver).run
      ((s.delivered []).framed (ackFrame true c.expectedRecvSeq)) = (.done (), s'))
    (hcall : r.call.run { c with inp := wire s'.out } = (.done (m, data), c'))
    (hop : m.opcode = .response) (hlen : m.fields.length = 2) :
    d.length ≤ fileTransferMaxSize ∧ w 1 = [] ∧ w 2 = [] := by
  set s₁ := (s.delivered []).framed (ackFrame true c.expectedRecvSeq) with hs₁
  have hout₁ : s₁.out = [.frame (ackFrame true c.expectedRecvSeq)] := by
    simp [hs₁, Proto.framed, Proto.delivered, hsync.serverOut]
  -- a frame right after the ACK turns the reply into a NACK of one field
  have hnoFrame : ∀ opcode flags seq fields post,
      s'.out ≠ s₁.out ++ .frame (frameBytes opcode flags seq 0 fields) :: post := by
    intro opcode flags seq fields post hout
    obtain ⟨c'', hnack, -⟩ := call_read_frame hsync hfit hrest opcode flags seq fields (wire post)
    rw [hout, hout₁] at hcall
    simp only [wire_append, wire_cons, wire_nil, Sent.bytes, List.append_nil] at hcall
    rw [hnack] at hcall
    simp only [Prod.mk.injEq, Outcome.done.injEq] at hcall
    rw [← hcall.1.1] at hlen
    exact absurd hlen (by decide)
  cases hw₁ : w 1 with
  | cons t ts =>
    -- a push between the ACK and the bytes is read as their size
    rw [hw₁] at hserve
    obtain ⟨-, post, hout⟩ := execAll_cons_out (appends_finishDownload d ver) hserve
    exact absurd hout (hnoFrame _ _ _ _ _)
  | nil =>
    rw [hw₁, execAll, pure_bind, finishDownload] at hserve
    by_cases hsize : d.length ≤ fileTransferMaxSize
    · rw [bind_done (sendFile_sized hsize _)] at hserve
      cases hw₂ : w 2 with
      | nil => exact ⟨hsize, rfl, rfl⟩
      | cons t ts =>
        -- a push after the bytes is returned in place of the final ACK
        exfalso
        rw [hw₂] at hserve
        obtain ⟨hpush, post, hout⟩ := execAll_cons_out (appends_sendFrame _) hserve
        have hy : wire s'.out = ackFrame true c.expectedRecvSeq ++ (pushU64 d.length ++ d
            ++ (frameBytes t.opcode 0 (c.expectedRecvSeq + 1) 0 t.fields ++ wire post)) := by
          rw [hout]
          simp [hs₁, Proto.sentBlob, Proto.framed, Proto.delivered, hsync.serverOut,
            hsync.toClient, Sent.bytes]
        rw [hy, call_read_blob hsync hfit hrest hsize hpush] at hcall
        simp only [Prod.mk.injEq, Outcome.done.injEq] at hcall
        rw [← hcall.1.1] at hop
        exact t.opcode_ne_response hop
    · -- nothing is sent of a file that is too large: a frame follows the ACK
      exfalso
      rw [bind_done (sendFile_large (by omega) _)] at hserve
      cases hw₂ : w 2 with
      | cons t ts =>
        rw [hw₂] at hserve
        obtain ⟨-, post, hout⟩ := execAll_cons_out (appends_sendFrame _) hserve
        exact hnoFrame _ _ _ _ _ hout
      | nil =>
        rw [hw₂, execAll, pure_bind, responseVersion, responseAckWithVersion,
          sendFrame_fits (fits_ack_version _ _)] at hserve
        obtain ⟨-, rfl⟩ := Prod.mk.inj hserve
        exact hnoFrame _ _ _ _ [] rfl

theorem matched_read_iff (hsync : InSync c s) (hfit : Fits r.fields) (hrest : r.rest = readRest)
    {d : Bytes} {ver : Int32}
    (hhandle : handleClientRequest mg w (r.message c) = sendDownload w d ver)
    (hbytes : r.fileBytes mg = d) :
    Matched mg w r c s
      ↔ d.length ≤ fileTransferMaxSize ∧ w 0 = [] ∧ w 1 = [] ∧ w 2 = [] := by
  have hfst : ∀ n ≥ 0, (streams mg w r c s n).1 = r.request c := by
    intro n _
    refine streams_fst_of_silent hsync hfit ?_ n
    rw [hrest]
    exact silent_readRest
  constructor
  · intro hm
    have hw := quiet_zero_of_matched hsync hm
    obtain ⟨m, data, c', s', frame, hcall, hserve, hlast, hparse, -⟩ :=
      (matched_iff_of_fst hfst).mp hm
    rw [hserve] at hcall
    rw [serve_download hsync hfit hw hhandle] at hserve
    obtain ⟨hop, hlen⟩ := answers_parse (P := fun fields => fields.length = 2)
      (Answers.bind fun _ => Answers.bind fun _ => Answers.bind fun _ => answers_sendFrame rfl)
      hserve hlast hparse
    obtain ⟨hsize, hw₁, hw₂⟩ := quiet_of_read hsync hfit hrest hserve hcall hop hlen
    exact ⟨hsize, hw, hw₁, hw₂⟩
  · rintro ⟨hsize, hw, hw₁, hw₂⟩
    rw [matched_iff_of_fst hfst]
    -- the ACK, the bytes and the final ACK, one after the other
    set reply := frameBytes .response flagResponse (c.expectedRecvSeq + 1) 0
      [fieldBool .ack true, fieldUint32 .fileVersion (toUint32 ver)] with hreply
    set s' := (((s.delivered []).framed (ackFrame true c.expectedRecvSeq)).sentBlob d).framed reply
      with hs'
    have hserve : (serve mg w).run { s with inp := r.request c } = (.done (), s') := by
      rw [serve_download hsync hfit hw hhandle, hw₁, execAll, pure_bind, finishDownload,
        bind_done (sendFile_sized hsize _), hw₂, execAll, pure_bind, responseVersion,
        responseAckWithVersion, sendFrame_fits (fits_ack_version _ _), hs', hreply, hsync.toClient]
      rfl
    have hout : s'.out = [.frame (ackFrame true c.expectedRecvSeq),
        .blob (pushU64 d.length ++ d)] ++ [.frame reply] := by
      simp [hs', Proto.sentBlob, Proto.framed, Proto.delivered, hsync.serverOut]
    have hcall := call_read_blob hsync hfit hrest hsize (fits_ack_version true (toUint32 ver))
      .response flagResponse []
    have hwire : wire s'.out = ackFrame true c.expectedRecvSeq
        ++ (pushU64 d.length ++ d ++ (reply ++ [])) := by
      rw [hout]
      simp [Sent.bytes]
    rw [← hreply, ← hwire, ← hbytes] at hcall
    exact matchedOn_of_reply (fits_ack_version true (toUint32 ver)) hserve hout hcall rfl

theorem matched_not_found_iff (hsync : InSync c s) (hfit : Fits r.fields)
    (hrest : r.rest = readRest)
    (hhandle : handleClientRequest mg w (r.message c) = response false)
    (hbytes : r.fileBytes mg = []) : Matched mg w r c s ↔ w 0 = [] := by
  refine ⟨quiet_zero_of_matched hsync, fun hw => ?_⟩
  have hsilent : Silent r.rest := by
    rw [hrest]
    exact silent_readRest
  rw [matched_iff_of_fst (k := 0) fun n _ => streams_fst_of_silent hsync hfit hsilent n]
  exact matchedOn_of_answer hsync hfit hw hhandle
    (call_of_not_ack hfit hsync.clientBuffer (fits_ack false) (isAck_ackMessage false _) []) hbytes

end Conversation

theorem Rpc.fits_fields (r : Rpc) : Fits r.fields ↔ r.filePath.length ≤ 65535 := by
  cases r <;> simp [Fits, Rpc.fields, Rpc.filePath, fieldString, fieldUint32]

theorem Rpc.getString_message (r : Rpc) (c : Proto) :
    (r.message c).getString .filePath = r.filePath := by
  cases r <;> rfl

theorem getUint32_version (opcode : Opcode) (seq : UInt32) (p : Bytes) (v : UInt32) :
    Message.getUint32
      { opcode := opcode, flags := 0, seq := seq,
        fields := [fieldString .filePath p, fieldUint32 .fileVersion v] } .fileVersion 0 = v := by
  simp [Message.getUint32, Message.findField, fieldString, fieldUint32, FieldID.filePath,
    FieldID.fileVersion]

/-- What the handler makes of each upload. -/
theorem handle_createFile (mg : Managers) (w : ℕ → List PushTask) (c : Proto) (p : Bytes)
    (v : Int32) (d : Bytes) :
    handleClientRequest mg w ((Rpc.createFile p v d).message c)
      = receiveUpload w fun fileData => response (mg.propagateCreateFile p v fileData) := by
  show receiveUpload w _ = _
  rw [Rpc.getString_message, Rpc.message, Rpc.fields, getUint32_version, toInt32_toUint32]
  rfl

theorem handle_updateFile (mg : Managers) (w : ℕ → List PushTask) (c : Proto) (p : Bytes)
    (v : Int32) (d : Bytes) :
    handleClientRequest mg w ((Rpc.updateFile p v d).message c)
      = receiveUpload w fun fileData =>
          if 0 ≤ mg.propagateUpdateFile p v fileData
          then responseVersion true (mg.propagateUpdateFile p v fileData)
          else response false := by
  show receiveUpload w _ = _
  rw [Rpc.getString_message, Rpc.message, Rpc.fields, getUint32_version, toInt32_toUint32]
  rfl

/-- **When a call gets its own reply.**  From any two ends in step, a call
returns the reply the server issues to it, at a frame boundary, exactly when no
push runs between the request and the end of the reply and the path and the
file have sizes that the formats carry. -/
theorem matched_iff {c s : Proto} (hsync : InSync c s) (mg : Managers)
    (w : ℕ → List PushTask) (r : Rpc) :
    Matched mg w r c s ↔ r.Sized mg ∧ r.Quiet mg w := by
  by_cases hpath : r.filePath.length ≤ 65535
  swap
  · -- the request cannot be built
    have hfit : ¬ Fits r.fields := fun h => hpath (r.fits_fields.mp h)
    exact ⟨fun h => absurd (fits_of_matched h) hfit, fun h => absurd h.1.1 hpath⟩
  have hfit : Fits r.fields := r.fits_fields.mpr hpath
  cases r with
  | createFile p v d =>
    rw [matched_upload_iff hsync hfit (handle_createFile mg w c p v d)
      (fun d => ⟨_, fits_ack _, rfl⟩) rfl rfl, Rpc.quiet_of_two rfl]
    simp [Rpc.Sized, hpath, Rpc.fileData]
  | updateFile p v d =>
    have hanswer : ∀ fileData, ∃ fields, Fits fields ∧
        (if 0 ≤ mg.propagateUpdateFile p v fileData
          then responseVersion true (mg.propagateUpdateFile p v fileData)
          else response false)
        = sendFrame (buildFrame .response flagResponse fields) := by
      intro fileData
      split
      · exact ⟨_, fits_ack_version _ _, rfl⟩
      · exact ⟨_, fits_ack _, rfl⟩
    rw [matched_upload_iff hsync hfit (handle_updateFile mg w c p v d) hanswer rfl rfl,
      Rpc.quiet_of_two rfl]
    simp [Rpc.Sized, hpath, Rpc.fileData]
  | readFile p =>
    cases hfile : mg.getFileFromDataNode p with
    | none =>
      have hhandle : handleClientRequest mg w ((Rpc.readFile p).message c) = response false := by
        show (match mg.getFileFromDataNode p with | none => _ | some fileData => _) = _
        rw [hfile]
      rw [matched_not_found_iff hsync hfit rfl hhandle (by simp [Rpc.fileBytes, hfile]),
        Rpc.quiet_of_one (by simp [Rpc.sends, hfile])]
      simp [Rpc.Sized, hpath, Rpc.fileData, hfile]
    | some d =>
      have hhandle : handleClientRequest mg w ((Rpc.readFile p).message c)
          = sendDownload w d (mg.getKnownVersion p) := by
        show (match mg.getFileFromDataNode p with | none => _ | some fileData => _) = _
        rw [hfile]
        rfl
      rw [matched_read_iff hsync hfit rfl hhandle (by simp [Rpc.fileBytes, hfile]),
        Rpc.quiet_of_three (by simp [Rpc.sends, hfile])]
      simp [Rpc.Sized, hpath, Rpc.fileData, hfile]
  | deleteFile p =>
    rw [matched_simple_iff hsync hfit rfl (b := true) rfl rfl, Rpc.quiet_of_one rfl]
    simp [Rpc.Sized, hpath, Rpc.fileData]
  | acquireLock p =>
    rw [matched_simple_iff hsync hfit rfl (b := mg.acquireLock p) rfl rfl, Rpc.quiet_of_one rfl]
    simp [Rpc.Sized, hpath, Rpc.fileData]
  | releaseLock p =>
    rw [matched_simple_iff hsync hfit rfl (b := mg.releaseLock p) rfl rfl, Rpc.quiet_of_one rfl]
    simp [Rpc.Sized, hpath, Rpc.fileData]
  | heartbeat =>
    rw [matched_simple_iff hsync hfit rfl (b := true) rfl rfl, Rpc.quiet_of_one rfl]
    simp [Rpc.Sized, hpath, Rpc.fileData]

/-- Managers that grant everything and store nothing. -/
def grantAll : Managers where
  propagateCreateFile _ _ _ := true
  getFileFromDataNode _ := some []
  getKnownVersion _ := 0
  propagateUpdateFile _ v _ := v + 1
  getFileVersionMap := ∅
  acquireLock _ := true
  releaseLock _ := true

/-- Two fresh ends are in step. -/
theorem inSync_fresh : InSync {} {} := by
  constructor <;> rfl

/-- A heartbeat that is answered while the deletion of `a` is being pushed: the
call returns the push, which is no ACK, and the ACK stays unread. -/
theorem heartbeat_returns_push :
    ¬ Matched grantAll (fun _ => [.pushDeleteFile [97]]) .heartbeat {} {} ∧
    (Rpc.heartbeat.call.run
      { inp := (streams grantAll (fun _ => [.pushDeleteFile [97]]) .heartbeat {} {} 2).2 }).1
      = .done ({ opcode := .pushDeleteFile, fields := [⟨.filePath, [97]⟩] }, []) ∧
    ((serve grantAll fun _ => [.pushDeleteFile [97]]).run
      { inp := (streams grantAll (fun _ => [.pushDeleteFile [97]]) .heartbeat {} {} 2).1 }
      ).2.out.getLast? = some (.frame (ackFrame true 1)) := by
  refine ⟨fun h => ?_, by decide, by decide⟩
  exact absurd (quiet_zero_of_matched inSync_fresh h) (by decide)

/-- Without pushes, an update in the middle of a session returns its ACK. -/
theorem update_matched_mid_session :
    let c : Proto := { nextSendSeq := 5, expectedRecvSeq := 9 }
    let s : Proto := { nextSendSeq := 9, expectedRecvSeq := 5 }
    InSync c s ∧ Matched grantAll (fun _ => []) (.updateFile [97] 4 [1, 2]) c s := by
  intro c s
  have hsync : InSync c s := by constructor <;> rfl
  refine ⟨hsync, (matched_iff hsync grantAll (fun _ => []) (.updateFile [97] 4 [1, 2])).mpr ?_⟩
  simp [Rpc.Sized, Rpc.filePath, Rpc.fileData, Rpc.Quiet, fileTransferMaxSize]

end Squid
