/-
`syncStatus` in the middle of a burst of pushes.

While a SYNC_STATUS is on its way the server may push the writes of other clients, each
followed by the bytes of the file, and send heartbeats.  The loop of `syncStatus` skips
them.  The bytes of a file are read by their number, so that what they look like does not
matter, and the loop is at the beginning of the next frame again.

* `receiveAndParse_wireFrame` — the expected frame, when it is not in the reorder buffer;
* `syncStatusLoop_skips` — one frame of the burst;
* `syncStatusLoop_burst` — the whole burst;
* `syncStatus_skips_burst` — the response, the bytes read, and what has been sent.
-/
import SquidStorage.DataNodeSession
import SquidStorage.Reordering

open BigEndian

namespace Squid

/-! ### Bursts -/

/-- A frame without the response flag. -/
structure PlainFrame extends WireFrame where
  notResponse : toWireFrame.message.isResponse = false

/-- What may come before the response: the push of a file, with the file; the push of a
deletion; a heartbeat. -/
inductive BurstItem where
  | file (frame : PlainFrame) (data : Bytes)
      (hop : frame.opcode = .pushCreateFile ∨ frame.opcode = .pushUpdateFile)
      (hsize : data.length ≤ fileTransferMaxSize)
  | deletion (frame : PlainFrame) (hop : frame.opcode = .pushDeleteFile)
  | heartbeat (frame : PlainFrame) (hop : frame.opcode = .heartbeat)

namespace BurstItem

def frame : BurstItem → PlainFrame
  | file frame _ _ _ => frame
  | deletion frame _ => frame
  | heartbeat frame _ => frame

/-- The file transfer that follows the frame. -/
def transfer : BurstItem → Bytes
  | file _ data _ _ => pushU64 data.length ++ data
  | _ => []

def bytes (item : BurstItem) : Bytes := item.frame.bytes ++ item.transfer

def isHeartbeat : BurstItem → Bool
  | heartbeat _ _ => true
  | _ => false

end BurstItem

/-- The frames have consecutive sequence numbers from `seq` on. -/
def Consecutive : UInt32 → List WireFrame → Prop
  | _, [] => True
  | seq, frame :: frames => frame.seq = seq ∧ Consecutive (seq + 1) frames

instance : (seq : UInt32) → (frames : List WireFrame) → Decidable (Consecutive seq frames)
  | _, [] => .isTrue trivial
  | seq, frame :: frames =>
    have := instDecidableConsecutive (seq + 1) frames
    inferInstanceAs (Decidable (frame.seq = seq ∧ Consecutive (seq + 1) frames))

/-- The ACKs of `n` heartbeats. -/
def ackFrames : ℕ → UInt32 → List Sent
  | 0, _ => []
  | n + 1, seq => .frame (ackFrame true seq) :: ackFrames n (seq + 1)

/-! ### One frame -/

/-- **The expected frame** comes off the wire when it is not in the reorder buffer. -/
theorem receiveAndParse_wireFrame {frame : WireFrame} {s : Proto} {rest : Bytes}
    (hseq : frame.seq = s.expectedRecvSeq) (hbuf : s.reorderBuffer[frame.seq]? = none)
    (hinp : s.inp = frame.bytes ++ rest) :
    receiveAndParse.run s = (.done frame.message, s.delivered rest) := by
  have hpop : popNextBuffered.run s = (.done none, s) := by
    rw [hseq] at hbuf
    simp only [popNextBuffered, hbuf]
  have hnext : nextFrame.run s = (.done frame.bytes, { s with inp := rest }) := by
    rw [nextFrame, bind_done hpop]
    exact frame.receiveFrame_bytes hinp
  simp only [receiveAndParse]
  exact loop_delivers hnext (sequenceMessage_expected hseq) _

/-- The state once a frame of the burst has been skipped. -/
def BurstItem.skipped (item : BurstItem) (s : Proto) (rest : Bytes) : Proto :=
  if item.isHeartbeat then (s.delivered rest).framed (ackFrame true s.nextSendSeq)
  else s.delivered rest

/-- **One frame of the burst**, with its file, costs one round of the loop. -/
theorem syncStatusLoop_skips {item : BurstItem} {s : Proto} {rest : Bytes} (fuel : ℕ)
    (hseq : item.frame.seq = s.expectedRecvSeq)
    (hbuf : s.reorderBuffer[item.frame.seq]? = none) (hinp : s.inp = item.bytes ++ rest) :
    (syncStatusLoop (fuel + 1)).run s = (syncStatusLoop fuel).run (item.skipped s rest) := by
  rw [BurstItem.bytes, List.append_assoc] at hinp
  have hplain : ¬ (item.frame.message.isResponse || item.frame.message.isAck) = true := by
    simp [Message.isAck, item.frame.notResponse]
  rw [syncStatusLoop, bind_done (receiveAndParse_wireFrame hseq hbuf hinp), if_neg hplain]
  cases item with
  | file frame data hop hsize =>
    -- the file is skipped by its length
    have hfile : receiveFile.run (s.delivered (pushU64 data.length ++ data ++ rest))
        = (.done (some data), s.delivered rest) := receiveFile_blob hsize rfl
    have hround : ∀ loop : ProtoM Message,
        (receiveFile >>= fun _ => loop).run (s.delivered (pushU64 data.length ++ data ++ rest))
          = loop.run (s.delivered rest) := fun _ => bind_done hfile
    rcases hop with hop | hop
    · have hop' : (BurstItem.file frame data (Or.inl hop) hsize).frame.message.opcode
          = .pushCreateFile := hop
      rw [hop']
      exact hround _
    · have hop' : (BurstItem.file frame data (Or.inr hop) hsize).frame.message.opcode
          = .pushUpdateFile := hop
      rw [hop']
      exact hround _
  | deletion frame hop =>
    have hop' : (BurstItem.deletion frame hop).frame.message.opcode = .pushDeleteFile := hop
    rw [hop']
    rfl
  | heartbeat frame hop =>
    have hop' : (BurstItem.heartbeat frame hop).frame.message.opcode = .heartbeat := hop
    rw [hop']
    exact bind_done (response_run true _)

/-! ### The whole burst -/

/-- The frames of a burst and its response. -/
def burstFrames (burst : List BurstItem) (status : WireFrame) : List WireFrame :=
  burst.map (fun item => item.frame.toWireFrame) ++ [status]

/-- What the loop leaves: everything up to the end of the response has been read, one ACK has
been sent for each heartbeat, and nothing else. -/
structure AfterBurst (burst : List BurstItem) (status : WireFrame) (rest : Bytes) (s t : Proto) :
    Prop where
  inp : t.inp = rest
  alive : t.alive = s.alive
  out : t.out = s.out ++ ackFrames (burst.countP BurstItem.isHeartbeat) s.nextSendSeq
  expectedRecvSeq : t.expectedRecvSeq = status.seq + 1

theorem AfterBurst.cons {item : BurstItem} {burst : List BurstItem} {status : WireFrame}
    {rest rest' : Bytes} {s t : Proto}
    (h : AfterBurst burst status rest (item.skipped s rest') t) :
    AfterBurst (item :: burst) status rest s t := by
  refine ⟨h.inp, ?_, ?_, h.expectedRecvSeq⟩
  · rw [h.alive, BurstItem.skipped]
    split <;> rfl
  · rw [h.out, BurstItem.skipped, List.countP_cons]
    cases item.isHeartbeat with
    | true => simp [ackFrames, Proto.framed, Proto.delivered]
    | false => simp [Proto.delivered]

theorem syncStatusLoop_burst {status : WireFrame} (hstatus : status.message.isResponse = true)
    (rest : Bytes) (burst : List BurstItem) : ∀ (s : Proto) (fuel : ℕ), burst.length < fuel →
      Consecutive s.expectedRecvSeq (burstFrames burst status) →
      (∀ frame ∈ burstFrames burst status, s.reorderBuffer[frame.seq]? = none) →
      s.inp = burst.flatMap BurstItem.bytes ++ status.bytes ++ rest →
      ∃ t, (syncStatusLoop fuel).run s = (.done status.message, t) ∧
        AfterBurst burst status rest s t := by
  induction burst with
  | nil =>
    intro s fuel hfuel hseq hbuf hinp
    obtain ⟨fuel, rfl⟩ : ∃ k, fuel = k + 1 := ⟨fuel - 1, by simp at hfuel; omega⟩
    have hrecv := receiveAndParse_wireFrame hseq.1 (hbuf status (by simp [burstFrames])) hinp
    refine ⟨s.delivered rest, ?_, rfl, rfl, by simp [ackFrames, Proto.delivered], ?_⟩
    · rw [syncStatusLoop, bind_done hrecv, hstatus, Bool.true_or, if_pos rfl, pure_run]
    · rw [hseq.1]
      rfl
  | cons item burst ih =>
    intro s fuel hfuel hseq hbuf hinp
    obtain ⟨fuel, rfl⟩ : ∃ k, fuel = k + 1 := ⟨fuel - 1, by simp at hfuel; omega⟩
    obtain ⟨hfirst, hnext⟩ := hseq
    set rest' := burst.flatMap BurstItem.bytes ++ status.bytes ++ rest with hrest'
    have hinp' : s.inp = item.bytes ++ rest' := by
      rw [hinp, hrest', List.flatMap_cons]
      simp
    have hskip := syncStatusLoop_skips fuel hfirst (hbuf _ (by simp [burstFrames])) hinp'
    have hstate : (item.skipped s rest').expectedRecvSeq = s.expectedRecvSeq + 1 ∧
        (item.skipped s rest').reorderBuffer = s.reorderBuffer ∧
        (item.skipped s rest').inp = rest' := by
      rw [BurstItem.skipped]
      split <;> exact ⟨rfl, rfl, rfl⟩
    obtain ⟨t, hrun, hafter⟩ := ih (item.skipped s rest') fuel (by simp at hfuel; omega)
      (hstate.1 ▸ hnext)
      (fun frame hframe => by rw [hstate.2.1]; exact hbuf frame (List.mem_cons_of_mem _ hframe))
      (hstate.2.2.trans hrest')
    exact ⟨t, hskip.trans hrun, hafter.cons⟩

/-- **`syncStatus` skips any burst of pushes.**  The frames of the burst and the response have
consecutive numbers from the expected one on, and none of these numbers is in the reorder
buffer. -/
theorem syncStatus_skips_burst (burst : List BurstItem) (status : WireFrame) (rest : Bytes)
    (s : Proto) (hstatus : status.message.isResponse = true) (halive : s.alive = true)
    (hseq : Consecutive s.expectedRecvSeq (burstFrames burst status))
    (hbuf : ∀ frame ∈ burstFrames burst status, s.reorderBuffer[frame.seq]? = none)
    (hinp : s.inp = burst.flatMap BurstItem.bytes ++ status.bytes ++ rest) :
    ∃ t, syncStatus.run s = (.done status.message, t) ∧ t.inp = rest ∧ t.alive = true ∧
      t.out = s.out ++ .frame (frameBytes .syncStatus 0 s.nextSendSeq 0 []) ::
        ackFrames (burst.countP BurstItem.isHeartbeat) (s.nextSendSeq + 1) ∧
      t.expectedRecvSeq = status.seq + 1 := by
  set s₁ := s.framed (frameBytes .syncStatus 0 s.nextSendSeq 0 []) with hs₁
  have hsend : (sendFrame syncStatusFormat).run s = (.done (), s₁) :=
    sendFrame_fits (by decide) .syncStatus 0 s
  obtain ⟨t, hrun, hafter⟩ := syncStatusLoop_burst hstatus rest burst s₁
    (s₁.pending + 1 + burst.length) (by omega) hseq hbuf hinp
  refine ⟨t, ?_, hafter.inp, hafter.alive.trans halive, ?_, hafter.expectedRecvSeq⟩
  · rw [syncStatus, bind_done hsend]
    show (syncStatusLoop (s₁.pending + 1)).run s₁ = _
    rw [← hrun]
    exact syncStatusLoop_fuel (by omega) (by omega)
  · rw [hafter.out, hs₁]
    simp [Proto.framed]

/-- A push of a file whose bytes are those of a frame, a deletion, a heartbeat. -/
def sampleBurst : List BurstItem :=
  [.file ⟨⟨.pushUpdateFile, 0, 0, [fieldString .filePath [102]], [], by decide, by decide⟩,
      by decide⟩ (ackFrame true 0) (Or.inr rfl) (by decide),
    .deletion ⟨⟨.pushDeleteFile, 0, 1, [fieldString .filePath [102]], [], by decide, by decide⟩,
      by decide⟩ rfl,
    .heartbeat ⟨⟨.heartbeat, 0, 2, [], [], by decide, by decide⟩, by decide⟩ rfl]

def sampleStatus : WireFrame :=
  ⟨.response, flagResponse, 3, [fieldBool .ack true], [], by decide, by decide⟩

theorem syncStatus_skips_burst_sample :
    ∃ t, syncStatus.run { inp := sampleBurst.flatMap BurstItem.bytes ++ sampleStatus.bytes ++ [7] }
        = (.done sampleStatus.message, t) ∧ t.inp = [7] ∧ t.alive = true ∧
      t.out = [] ++ .frame (frameBytes .syncStatus 0 0 0 []) :: ackFrames 1 1 ∧
      t.expectedRecvSeq = 4 :=
  syncStatus_skips_burst sampleBurst sampleStatus [7] _ (by decide) rfl (by decide)
    (fun _ _ => Std.ExtTreeMap.getElem?_empty) rfl

end Squid
