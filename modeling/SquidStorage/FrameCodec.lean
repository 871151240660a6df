/-
The frame codec as a bijection between messages and frames.

`Wire` shows that parsing undoes building.  Here is the other direction: what
`parseMessage` accepts is a frame that `buildFrame` and `stampSeq` write, up to
the bytes that follow its last field.

* `parseFields_sound` — the bytes that the field loop has consumed are the
  bytes of the fields it returns;
* `parseMessage_sound` — the same for a whole frame;
* `frame_codec` — the three laws of the codec.
-/
import SquidStorage.Wire

open BigEndian

namespace Squid

/-! ### What is accepted is well formed -/

theorem pushU16_readU16 (b₁ b₀ : UInt8) : pushU16 (readU16 [b₁, b₀]) = [b₁, b₀] :=
  beBytes_beNat [b₁, b₀]

theorem readU16_le (b₁ b₀ : UInt8) : readU16 [b₁, b₀] ≤ 65535 := by
  have hlt : readU16 [b₁, b₀] < 256 ^ 2 := beNat_lt [b₁, b₀]
  omega

theorem pushU32_readU32 {bs : Bytes} (h : bs.length = 4) (rest : Bytes) :
    pushU32 (readU32 (bs ++ rest)) = bs := by
  have hlt : beNat bs < 2 ^ 32 := by
    have := beNat_lt bs
    rw [h] at this
    exact this
  rw [readU32, List.take_left' h, pushU32, UInt32.toNat_ofNat_of_lt' hlt]
  have hback := beBytes_beNat bs
  rwa [h] at hback

/-- A field as it is read: id, two length bytes, and as many bytes as they say. -/
theorem cons_field_read {id l₁ l₀ : UInt8} {p rest : Bytes} {fs : List BinaryField}
    (hlen : readU16 [l₁, l₀] ≤ p.length)
    (hfs : p.drop (readU16 [l₁, l₀]) = fieldBytes fs ++ rest) :
    (p.take (readU16 [l₁, l₀])).length ≤ 65535 ∧
      id :: l₁ :: l₀ :: p
        = fieldBytes (⟨⟨id⟩, p.take (readU16 [l₁, l₀])⟩ :: fs) ++ rest := by
  -- the value is as long as its two length bytes say
  have hvalue : (p.take (readU16 [l₁, l₀])).length = readU16 [l₁, l₀] := by
    rw [List.length_take]
    omega
  have hhead : fieldBytes (⟨⟨id⟩, p.take (readU16 [l₁, l₀])⟩ :: fs)
      = id :: l₁ :: l₀ :: (p.take (readU16 [l₁, l₀]) ++ fieldBytes fs) := by
    simp [fieldBytes, hvalue, pushU16_readU16]
  refine ⟨?_, ?_⟩
  · rw [hvalue]
    exact readU16_le l₁ l₀
  · rw [hhead, List.cons_append, List.cons_append, List.cons_append, List.append_assoc, ← hfs,
      List.take_append_drop]

/-- The fields that the loop of `parseMessage` returns have been written by that
of `buildFrame`. -/
theorem parseFields_sound {n : ℕ} {p : Bytes} {fields : List BinaryField}
    (h : parseFields n p = .ok fields) :
    fields.length = n ∧ (∀ f ∈ fields, f.value.length ≤ 65535) ∧
      ∃ rest, p = fieldBytes fields ++ rest := by
  induction n generalizing p fields with
  | zero =>
    obtain rfl : [] = fields := Except.ok.inj h
    exact ⟨rfl, by simp, p, rfl⟩
  | succ n ih =>
    match p with
    | [] => exact absurd h (by simp [parseFields])
    | [id] => exact absurd h (by simp [parseFields])
    | [id, l₁] => exact absurd h (by simp [parseFields])
    | id :: l₁ :: l₀ :: p =>
      rw [parseFields] at h
      split at h
      · exact absurd h (by simp)
      · rename_i hlen
        rw [Nat.not_lt] at hlen
        cases hrest : parseFields n (p.drop (readU16 [l₁, l₀])) with
        | error e => simp [hrest] at h
        | ok fs =>
          simp only [hrest, Except.ok.injEq] at h
          subst h
          obtain ⟨hcount, hsmall, rest, hdrop⟩ := ih hrest
          obtain ⟨hvalue, hbytes⟩ := @cons_field_read id _ _ _ _ _ hlen hdrop
          refine ⟨by rw [List.length_cons, hcount], fun f hf => ?_, rest, hbytes⟩
          rcases List.mem_cons.mp hf with rfl | hf
          · exact hvalue
          · exact hsmall f hf

/-- The magic number, three bytes, the two 32-bit numbers, and the rest. -/
theorem header_shape {frame : Bytes} (h : ¬ frame.length < frameHeaderSize) :
    ∃ magic opcode flags nf seq payloadLen body,
      frame = magic ++ (opcode :: flags :: nf :: (seq ++ (payloadLen ++ body))) ∧
      magic.length = 2 ∧ seq.length = 4 ∧ payloadLen.length = 4 := by
  rw [frameHeaderSize] at h
  obtain ⟨opcode, flags, nf, p, hp⟩ : ∃ opcode flags nf p, frame.drop 2 = opcode :: flags :: nf :: p := by
    have hlen : (frame.drop 2).length = frame.length - 2 := List.length_drop
    rcases hdrop : frame.drop 2 with _ | ⟨opcode, _ | ⟨flags, _ | ⟨nf, p⟩⟩⟩
    case cons.cons.cons => exact ⟨opcode, flags, nf, p, rfl⟩
    -- a shorter rest is no header
    all_goals
      simp only [hdrop, List.length_cons, List.length_nil] at hlen
      omega
  have hpLen : p.length = frame.length - 5 := by
    have hlen := congrArg List.length hp
    simp only [List.length_drop, List.length_cons] at hlen
    omega
  refine ⟨frame.take 2, opcode, flags, nf, p.take 4, (p.drop 4).take 4, (p.drop 4).drop 4, ?_, ?_, ?_,
    ?_⟩
  · rw [List.take_append_drop, List.take_append_drop, ← hp, List.take_append_drop]
  all_goals
    simp only [List.length_take, List.length_drop]
    omega

/-- **A frame that is accepted is the frame of its message**, with some bytes
behind it. -/
theorem parseMessage_sound {frame : Bytes} {m : Message} (h : parseMessage frame = .ok m) :
    Fits m.fields ∧
      ∃ rest, frame = frameBytes m.opcode m.flags m.seq m.payloadLen m.fields ++ rest := by
  rw [parseMessage] at h
  split at h
  · exact absurd h (by simp)
  · rename_i hlen
    obtain ⟨magic, opcode, flags, nf, seq, payloadLen, body, rfl, hmagicLen, hseq, hpay⟩ :=
      header_shape hlen
    split at h
    · exact absurd h (by simp)
    · rename_i hmagic
      have hbody : (seq ++ (payloadLen ++ body)).drop 8 = body := by
        rw [← List.append_assoc, List.drop_left' (by simp [hseq, hpay])]
      rw [List.drop_left' hmagicLen] at h
      simp only [hbody, List.drop_left' hseq] at h
      cases hfields : parseFields nf.toNat body with
      | error e => simp [hfields] at h
      | ok fields =>
        simp only [hfields, Except.ok.injEq] at h
        subst h
        obtain ⟨hcount, hsmall, rest, rfl⟩ := parseFields_sound hfields
        have hnf : UInt8.ofNat fields.length = nf := by rw [hcount, UInt8.ofNat_toNat]
        have hmagicBytes : pushU16 squidMagic = magic := by
          rw [Classical.not_not, readU16, List.take_left' hmagicLen] at hmagic
          have hback := beBytes_beNat magic
          rwa [hmagicLen, hmagic] at hback
        refine ⟨⟨?_, hsmall⟩, rest, ?_⟩
        · have := nf.toNat_lt
          simp only
          omega
        · simp only [frameBytes, hmagicBytes, hnf, pushU32_readU32 hseq, pushU32_readU32 hpay]
          simp

/-! ### The laws of the codec -/

/-- The length of a frame that ends with its last field. -/
def frameSize (fields : List BinaryField) : ℕ :=
  frameHeaderSize + (fields.map fun f => 3 + f.value.length).sum

theorem length_frameBytes (opcode : Opcode) (flags : UInt8) (seq payloadLen : UInt32)
    (fields : List BinaryField) :
    (frameBytes opcode flags seq payloadLen fields).length = frameSize fields := by
  have hfields : (fieldBytes fields).length = (fields.map fun f => 3 + f.value.length).sum := by
    rw [fieldBytes, List.length_flatMap]
    congr 2
    funext f
    simp only [List.length_cons, List.length_append, length_pushU16]
    omega
  simp only [frameBytes, frameSize, frameHeaderSize, List.length_append, length_pushU16,
    length_pushU32, List.length_cons, List.length_nil, hfields]

theorem buildFrame_error_iff (opcode : Opcode) (flags : UInt8) (fields : List BinaryField) :
    (∃ e, buildFrame opcode flags fields = .error e)
      ↔ 255 < fields.length ∨ ∃ f ∈ fields, 65535 < f.value.length := by
  have hok := buildFrame_eq_ok_iff opcode flags fields 0
  have hfits : ¬ Fits fields ↔ 255 < fields.length ∨ ∃ f ∈ fields, 65535 < f.value.length := by
    rw [Fits, not_and_or]
    push Not
    rfl
  rw [← hfits, ← hok]
  cases buildFrame opcode flags fields with
  | error e => simp
  | ok frame => simp

/-- An accepted frame without payload and without trailing bytes is what the
formatter builds and stamps for its message. -/
theorem buildFrame_parseMessage {frame : Bytes} {m : Message} (hparse : parseMessage frame = .ok m)
    (hpayload : (frame.drop 9).take 4 = [0, 0, 0, 0]) (hsize : frame.length = frameSize m.fields) :
    ∃ built, buildFrame m.opcode m.flags m.fields = .ok built ∧ stampSeq built m.seq = frame := by
  obtain ⟨hfits, rest, hframe⟩ := parseMessage_sound hparse
  obtain rfl : rest = [] := by
    have hlen := congrArg List.length hframe
    rw [List.length_append, length_frameBytes, hsize] at hlen
    exact List.eq_nil_of_length_eq_zero (by omega)
  rw [List.append_nil] at hframe
  -- the payload bytes are those that the parser has read as `payloadLen`
  have hzero : m.payloadLen = 0 := by
    set head := pushU16 squidMagic ++ [m.opcode.byte, m.flags, UInt8.ofNat m.fields.length]
      ++ pushU32 m.seq with hhead
    have hsplit : frame = head ++ (pushU32 m.payloadLen ++ fieldBytes m.fields) := by
      rw [hframe, frameBytes, List.append_assoc]
    rw [hsplit, List.drop_left' (by simp [hhead]), List.take_left' (length_pushU32 _)] at hpayload
    rw [← readU32_pushU32 m.payloadLen, hpayload]
    decide
  refine ⟨_, buildFrame_eq_ok hfits m.opcode m.flags 0, ?_⟩
  rw [stampSeq_frameBytes, hframe, hzero]

/-- **The frame codec is a bijection on its image.**  What the formatter builds
is parsed back, the formatter throws on too many fields or too long a value and
on nothing else, and what the parser accepts without payload and trailing bytes
is what the formatter builds. -/
theorem frame_codec :
    (∀ (opcode : Opcode) (flags : UInt8) (seq : UInt32) (fields : List BinaryField),
      fields.length ≤ 255 → (∀ f ∈ fields, f.value.length ≤ 65535) →
      ∃ frame, buildFrame opcode flags fields = .ok frame ∧
        parseMessage (stampSeq frame seq)
          = .ok { opcode := opcode, flags := flags, seq := seq, payloadLen := 0,
                  fields := fields }) ∧
    (∀ (opcode : Opcode) (flags : UInt8) (fields : List BinaryField),
      (∃ e, buildFrame opcode flags fields = .error e)
        ↔ 255 < fields.length ∨ ∃ f ∈ fields, 65535 < f.value.length) ∧
    ∀ (frame : Bytes) (m : Message), parseMessage frame = .ok m →
      (frame.drop 9).take 4 = [0, 0, 0, 0] → frame.length = frameSize m.fields →
      ∃ built, buildFrame m.opcode m.flags m.fields = .ok built ∧ stampSeq built m.seq = frame := by
  refine ⟨fun opcode flags seq fields hcount hsmall => ?_, buildFrame_error_iff,
    fun frame m => buildFrame_parseMessage⟩
  have hbuilt := buildFrame_eq_ok ⟨hcount, hsmall⟩ opcode flags 0
  exact ⟨_, hbuilt, parseMessage_stampSeq hbuilt seq⟩

/-- The laws at a CREATE_FILE frame with a field of unknown id, and at the bytes of
a heartbeat. -/
theorem frame_codec_samples :
    (∃ frame, buildFrame .createFile 0 [⟨.filePath, [97]⟩, ⟨⟨0x99⟩, []⟩] = .ok frame ∧
      parseMessage (stampSeq frame 7)
        = .ok { opcode := .createFile, flags := 0, seq := 7, payloadLen := 0,
                fields := [⟨.filePath, [97]⟩, ⟨⟨0x99⟩, []⟩] }) ∧
    ∃ built, buildFrame .heartbeat 0 [] = .ok built ∧
      stampSeq built 7 = [0x53, 0x51, 0x04, 0, 0, 0, 0, 0, 7, 0, 0, 0, 0] :=
  ⟨frame_codec.1 .createFile 0 7 [⟨.filePath, [97]⟩, ⟨⟨0x99⟩, []⟩] (by decide) (by decide),
    frame_codec.2.2 [0x53, 0x51, 0x04, 0, 0, 0, 0, 0, 7, 0, 0, 0, 0]
      { opcode := .heartbeat, flags := 0, seq := 7 } (by decide) (by decide) (by decide)⟩

end Squid
