/-
Reading frames off an arbitrary byte stream.

`receiveFrame` pulls a frame from the channel field by field, `parseMessage`
walks through a buffer.  Neither knows the other's code; here is what the two
agree on, for streams that need not come from a formatter.

* `WireFrame` — a frame with its payload, small enough for both decoders;
* `receiveFields_closed`, `receiveFrame_closed` — on a stream that has ended, the
  reader finds a `WireFrame` or marks the connection dead;
* `receiveFrame_any_split` — the frame and the bytes it takes do not depend on how
  the channel cuts the stream.
-/
import SquidStorage.Channel
import SquidStorage.FrameCodec
import Mathlib.Algebra.Order.BigOperators.Group.List

open BigEndian

namespace Squid

/-! ### Frames with their payload -/

/-- A frame as both decoders accept it. -/
structure WireFrame where
  opcode : Opcode
  flags : UInt8
  seq : UInt32
  fields : List BinaryField
  payload : Bytes
  fits : Fits fields
  sized : payload.length ≤ maxPayloadSize

namespace WireFrame

/-- The bytes on the wire. -/
def bytes (f : WireFrame) : Bytes :=
  frameBytes f.opcode f.flags f.seq (UInt32.ofNat f.payload.length) f.fields ++ f.payload

/-- What `parseMessage` returns. -/
def message (f : WireFrame) : Message :=
  { opcode := f.opcode, flags := f.flags, seq := f.seq,
    payloadLen := UInt32.ofNat f.payload.length, fields := f.fields }

@[simp] theorem message_seq (f : WireFrame) : f.message.seq = f.seq := rfl

theorem bytes_ne_nil (f : WireFrame) : f.bytes ≠ [] := by
  simp [bytes, frameBytes]

theorem parseMessage_bytes (f : WireFrame) : parseMessage f.bytes = .ok f.message :=
  parseMessage_frameBytes f.fits f.opcode f.flags f.seq _ f.payload

theorem receiveFrame_bytes (f : WireFrame) {s : Proto} {rest : Bytes}
    (hinp : s.inp = f.bytes ++ rest) :
    receiveFrame.run s = (.done f.bytes, { s with inp := rest }) :=
  receiveFrame_payload f.fits f.sized hinp

theorem length_bytes_le (f : WireFrame) :
    f.bytes.length ≤ 13 + 255 * (3 + 65535) + maxPayloadSize := by
  have hfields : (f.fields.map fun g => 3 + g.value.length).sum ≤ f.fields.length * (3 + 65535) := by
    rw [← List.length_map (fun g : BinaryField => 3 + g.value.length)]
    refine List.sum_le_card_nsmul _ (3 + 65535) fun n hn => ?_
    obtain ⟨g, hg, rfl⟩ := List.mem_map.mp hn
    have := f.fits.2 g hg
    omega
  have hcount := f.fits.1
  have hsized := f.sized
  rw [bytes, List.length_append, length_frameBytes, frameSize, frameHeaderSize]
  have : f.fields.length * (3 + 65535) ≤ 255 * (3 + 65535) := Nat.mul_le_mul_right _ hcount
  omega

end WireFrame

/-! ### Streams that have ended -/

/-- The connection is dead and `rest` is left unread. -/
def Proto.ended (s : Proto) (rest : Bytes) : Proto := { s with inp := rest, alive := false }

theorem recvExact_closed {n : ℕ} {s : Proto} (hclosed : s.peerClosed = true)
    (hn : s.inp.length < n) : (recvExact n).run s = (.done none, s.ended []) := by
  simp only [recvExact, readExact]
  rw [if_neg (by omega), if_pos hclosed]
  rfl

/-- The field loop finds the bytes of `n` fields, or it reads to the end. -/
theorem receiveFields_closed (n : ℕ) (stream : Bytes) :
    (∃ fields rest, fields.length = n ∧ (∀ f ∈ fields, f.value.length ≤ 65535) ∧
        stream = fieldBytes fields ++ rest) ∨
      ∀ (frame : Bytes) (s : Proto), s.inp = stream → s.peerClosed = true →
        (receiveFields n frame).run s = (.done [], s.ended []) := by
  induction n generalizing stream with
  | zero => exact .inl ⟨[], stream, rfl, by simp, rfl⟩
  | succ n ih =>
    by_cases hshort : stream.length < 3
    · -- the header of the field is cut off
      refine .inr fun frame s hinp hclosed => ?_
      have hread := recvExact_closed hclosed (n := 3) (by rw [hinp]; exact hshort)
      rw [receiveFields, bind_done hread]
      rfl
    obtain ⟨id, l₁, l₀, body, rfl⟩ : ∃ id l₁ l₀ body, stream = id :: l₁ :: l₀ :: body := by
      rcases stream with _ | ⟨id, _ | ⟨l₁, _ | ⟨l₀, body⟩⟩⟩
      case cons.cons.cons => exact ⟨id, l₁, l₀, body, rfl⟩
      all_goals simp at hshort
    have hhead : ∀ {s : Proto}, s.inp = id :: l₁ :: l₀ :: body →
        (recvExact 3).run s = (.done (some [id, l₁, l₀]), { s with inp := body }) := by
      intro s hinp
      exact readExact_append hinp rfl
    by_cases hvalue : readU16 [l₁, l₀] ≤ body.length
    · rcases ih (body.drop (readU16 [l₁, l₀])) with ⟨fields, rest, hcount, hsmall, hdrop⟩ | hfail
      · obtain ⟨hlen, hbytes⟩ := @cons_field_read id _ _ _ _ _ hvalue hdrop
        refine .inl ⟨_, rest, by rw [List.length_cons, hcount], ?_, hbytes⟩
        intro f hf
        rcases List.mem_cons.mp hf with rfl | hf
        · exact hlen
        · exact hsmall f hf
      · refine .inr fun frame s hinp hclosed => ?_
        have hread : (recvExact (readU16 [l₁, l₀])).run { s with inp := body }
            = (.done (some (body.take (readU16 [l₁, l₀]))),
                { s with inp := body.drop (readU16 [l₁, l₀]) }) :=
          readExact_append (List.take_append_drop _ _).symm (by rw [List.length_take]; omega)
        rw [receiveFields, bind_done (hhead hinp)]
        show (recvExact (readU16 [l₁, l₀]) >>= _).run _ = _
        rw [bind_done hread]
        exact hfail _ _ rfl hclosed
    · -- the value is cut off
      refine .inr fun frame s hinp hclosed => ?_
      have hread := recvExact_closed (s := { s with inp := body }) hclosed
        (n := readU16 [l₁, l₀]) (by show body.length < _; omega)
      rw [receiveFields, bind_done (hhead hinp)]
      show (recvExact (readU16 [l₁, l₀]) >>= _).run _ = _
      rw [bind_done hread]
      rfl

/-- The parts of a header. -/
structure FrameHeader where
  magic : Bytes
  opcode : UInt8
  flags : UInt8
  nf : UInt8
  seq : Bytes
  payloadLen : Bytes
  length_magic : magic.length = 2
  length_seq : seq.length = 4
  length_payloadLen : payloadLen.length = 4

namespace FrameHeader

variable (h : FrameHeader)

def bytes : Bytes := h.magic ++ (h.opcode :: h.flags :: h.nf :: (h.seq ++ h.payloadLen))

theorem exists_append {stream : Bytes} (hlong : ¬ stream.length < frameHeaderSize) :
    ∃ (h : FrameHeader) (body : Bytes), stream = h.bytes ++ body := by
  obtain ⟨magic, opcode, flags, nf, seq, payloadLen, body, rfl, hmagic, hseq, hpay⟩ :=
    header_shape hlong
  exact ⟨⟨magic, opcode, flags, nf, seq, payloadLen, hmagic, hseq, hpay⟩, body, by simp [bytes]⟩

theorem length_bytes : h.bytes.length = frameHeaderSize := by
  simp [bytes, h.length_magic, h.length_seq, h.length_payloadLen, frameHeaderSize]

/-- The number of fields, where `receiveBody` looks for it. -/
theorem nf_bytes : (h.bytes.drop 4).headD 0 = h.nf := by
  obtain ⟨m₁, m₀, hmagic⟩ := List.length_eq_two.mp h.length_magic
  rw [bytes, hmagic]
  rfl

theorem payloadLen_bytes : h.bytes.drop 9 = h.payloadLen := by
  have hsplit : h.bytes = (h.magic ++ [h.opcode, h.flags, h.nf] ++ h.seq) ++ h.payloadLen := by
    simp [bytes]
  rw [hsplit, List.drop_left' (by simp [h.length_magic, h.length_seq])]

theorem receiveFrame_bytes {s : Proto} {body : Bytes} (hinp : s.inp = h.bytes ++ body) :
    receiveFrame.run s = (receiveBody h.bytes).run { s with inp := body } := by
  rw [receiveFrame, recvExact, bind_done (readExact_append hinp h.length_bytes)]

/-- With the fields and the payload that it announces, the header makes a frame. -/
theorem exists_wireFrame {fields : List BinaryField} {payload : Bytes}
    (hmagic : readU16 h.bytes = squidMagic) (hfields : fields.length = h.nf.toNat)
    (hsmall : ∀ f ∈ fields, f.value.length ≤ 65535)
    (hpayload : payload.length = (readU32 h.payloadLen).toNat)
    (hsized : payload.length ≤ maxPayloadSize) :
    ∃ f : WireFrame, f.bytes = h.bytes ++ (fieldBytes fields ++ payload) := by
  have hback : ∀ bs : Bytes, bs.length = 4 → pushU32 (readU32 bs) = bs := by
    intro bs hbs
    have := pushU32_readU32 hbs []
    rwa [List.append_nil] at this
  have hmagicBytes : pushU16 squidMagic = h.magic := by
    rw [readU16, bytes, List.take_left' h.length_magic] at hmagic
    have := beBytes_beNat h.magic
    rwa [h.length_magic, hmagic] at this
  have hnf : UInt8.ofNat fields.length = h.nf := by rw [hfields, UInt8.ofNat_toNat]
  have hlen : UInt32.ofNat payload.length = readU32 h.payloadLen := by
    rw [hpayload, UInt32.ofNat_toNat]
  have hfits : Fits fields := by
    have := h.nf.toNat_lt
    exact ⟨by omega, hsmall⟩
  refine ⟨⟨⟨h.opcode⟩, h.flags, readU32 h.seq, fields, payload, hfits, hsized⟩, ?_⟩
  show frameBytes ⟨h.opcode⟩ h.flags (readU32 h.seq) (UInt32.ofNat payload.length) fields
    ++ payload = _
  rw [hlen, frameBytes, hmagicBytes, hnf, hback h.seq h.length_seq,
    hback h.payloadLen h.length_payloadLen, bytes]
  simp

/-- What follows the header is the rest of a frame, or the connection dies. -/
theorem receiveBody_closed (hmagic : readU16 h.bytes = squidMagic) (body : Bytes) :
    (∃ (f : WireFrame) (rest : Bytes), h.bytes ++ body = f.bytes ++ rest) ∨
      ∃ consumed rest, h.bytes ++ body = consumed ++ rest ∧ ∀ s : Proto, s.inp = body →
        s.peerClosed = true → (receiveBody h.bytes).run s = (.done [], s.ended rest) := by
  have hok : ¬ readU16 h.bytes ≠ squidMagic := fun hne => hne hmagic
  rcases receiveFields_closed h.nf.toNat body with ⟨fields, rest, hfields, hsmall, rfl⟩ | hfail
  · have hne : h.bytes ++ fieldBytes fields ≠ [] := by
      intro hnil
      have hzero := congrArg List.length hnil
      rw [List.length_append, h.length_bytes, frameHeaderSize, List.length_nil] at hzero
      omega
    have hrun : ∀ s : Proto, s.inp = fieldBytes fields ++ rest →
        (receiveFields h.nf.toNat h.bytes).run s
          = (.done (h.bytes ++ fieldBytes fields), { s with inp := rest }) := by
      intro s hinp
      rw [← hfields]
      exact receiveFields_fieldBytes hsmall h.bytes hinp
    by_cases hlarge : maxPayloadSize < (readU32 h.payloadLen).toNat
    · refine .inr ⟨h.bytes ++ fieldBytes fields, rest, by rw [List.append_assoc], ?_⟩
      intro s hinp hclosed
      rw [receiveBody, if_neg hok]
      dsimp only
      rw [h.nf_bytes, h.payloadLen_bytes, bind_done (hrun s hinp), if_neg hne, if_pos hlarge]
      rfl
    by_cases hcut : rest.length < (readU32 h.payloadLen).toNat
    · refine .inr ⟨h.bytes ++ (fieldBytes fields ++ rest), [], by rw [List.append_nil], ?_⟩
      intro s hinp hclosed
      have hend := recvExact_closed (s := { s with inp := rest }) hclosed hcut
      rw [receiveBody, if_neg hok]
      dsimp only
      rw [h.nf_bytes, h.payloadLen_bytes, bind_done (hrun s hinp), if_neg hne, if_neg hlarge,
        bind_done hend]
      rfl
    · -- every read succeeds
      have htake : (rest.take (readU32 h.payloadLen).toNat).length
          = (readU32 h.payloadLen).toNat := by
        rw [List.length_take]
        omega
      obtain ⟨f, hf⟩ := h.exists_wireFrame hmagic hfields hsmall htake (by omega)
      refine .inl ⟨f, rest.drop (readU32 h.payloadLen).toNat, ?_⟩
      rw [hf, List.append_assoc, List.append_assoc, List.take_append_drop]
  · -- a field is cut off
    refine .inr ⟨h.bytes ++ body, [], by rw [List.append_nil], fun s hinp hclosed => ?_⟩
    rw [receiveBody, if_neg hok]
    dsimp only
    rw [h.nf_bytes, bind_done (hfail h.bytes s hinp hclosed), if_pos rfl]
    rfl

end FrameHeader

/-- **A closed stream starts with a frame or the connection dies.** -/
theorem receiveFrame_closed (stream : Bytes) :
    (∃ (f : WireFrame) (rest : Bytes), stream = f.bytes ++ rest) ∨
      ∃ consumed rest, stream = consumed ++ rest ∧ ∀ s : Proto, s.inp = stream →
        s.peerClosed = true → receiveFrame.run s = (.done [], s.ended rest) := by
  by_cases hshort : stream.length < frameHeaderSize
  · refine .inr ⟨stream, [], by rw [List.append_nil], fun s hinp hclosed => ?_⟩
    have hread := recvExact_closed hclosed (n := frameHeaderSize) (by rw [hinp]; exact hshort)
    rw [receiveFrame, bind_done hread]
    rfl
  obtain ⟨h, body, rfl⟩ := FrameHeader.exists_append hshort
  by_cases hmagic : readU16 h.bytes = squidMagic
  · rcases h.receiveBody_closed hmagic body with hframe | ⟨consumed, rest, hsplit, hdead⟩
    · exact .inl hframe
    · refine .inr ⟨consumed, rest, hsplit, fun s hinp hclosed => ?_⟩
      rw [h.receiveFrame_bytes hinp]
      exact hdead { s with inp := body } rfl hclosed
  · refine .inr ⟨h.bytes, body, rfl, fun s hinp hclosed => ?_⟩
    rw [h.receiveFrame_bytes hinp, receiveBody, if_pos hmagic]
    rfl

/-! ### Streams in pieces -/

/-- **The frame and its bytes do not depend on the split.**  For every stream that
ends, in whatever state the protocol is and however the channel cuts the bytes:
the same frame is returned and the same bytes are left.  A frame that is not
empty is what has been consumed, has a bounded length and is accepted by the other
decoder; an empty one leaves the connection dead. -/
theorem receiveFrame_any_split (stream : Bytes) :
    ∃ frame consumed rest, stream = consumed ++ rest ∧
      (∀ e : Endpoint, e.arrivals.flatten = stream → e.proto.peerClosed = true →
        ∃ e', StreamM.receiveFrame.run e = (.done frame, e') ∧ e'.arrivals.flatten = rest ∧
          (frame = [] → e'.proto.alive = false)) ∧
      (frame ≠ [] → frame = consumed ∧
        frame.length ≤ 13 + 255 * (3 + 65535) + maxPayloadSize ∧
        ∃ msg, parseMessage frame = .ok msg) := by
  rcases receiveFrame_closed stream with ⟨f, rest, rfl⟩ | ⟨consumed, rest, rfl, hdead⟩
  · refine ⟨f.bytes, f.bytes, rest, rfl, fun e hstream hclosed => ?_, fun _ =>
      ⟨rfl, f.length_bytes_le, f.message, f.parseMessage_bytes⟩⟩
    obtain ⟨e', hrun, hcut⟩ := StreamM.refines_receiveFrame.run_done (cut_whole e)
      (f.receiveFrame_bytes hstream)
    exact ⟨e', hrun, hcut.inp.symm, fun hnil => absurd hnil f.bytes_ne_nil⟩
  · refine ⟨[], consumed, rest, rfl, fun e hstream hclosed => ?_, fun hne => absurd rfl hne⟩
    obtain ⟨e', hrun, hcut⟩ := StreamM.refines_receiveFrame.run_done (cut_whole e)
      (hdead e.whole hstream hclosed)
    refine ⟨e', hrun, hcut.inp.symm, fun _ => ?_⟩
    obtain ⟨out, hended, -⟩ := hcut
    exact (congrArg Proto.alive hended).symm

/-- A heartbeat and one byte more, in two pieces and byte by byte. -/
theorem receiveFrame_any_split_heartbeat :
    let stream : Bytes := [0x53, 0x51, 0x04, 0, 0, 0, 0, 0, 7, 0, 0, 0, 0, 99]
    let coarse : Endpoint :=
      { proto := { peerClosed := true }, arrivals := [stream.take 5, stream.drop 5],
        quotas := fun _ => 0 }
    let fine : Endpoint := { coarse with arrivals := stream.map fun b => [b] }
    ∃ frame rest, (∃ e', StreamM.receiveFrame.run coarse = (.done frame, e') ∧
        e'.arrivals.flatten = rest) ∧
      ∃ e', StreamM.receiveFrame.run fine = (.done frame, e') ∧ e'.arrivals.flatten = rest := by
  intro stream coarse fine
  obtain ⟨frame, -, rest, -, hrun, -⟩ := receiveFrame_any_split stream
  obtain ⟨e₁, hrun₁, hrest₁, -⟩ := hrun coarse (by decide) rfl
  obtain ⟨e₂, hrun₂, hrest₂, -⟩ := hrun fine (by decide) rfl
  exact ⟨frame, rest, ⟨e₁, hrun₁, hrest₁⟩, e₂, hrun₂, hrest₂⟩

end Squid
