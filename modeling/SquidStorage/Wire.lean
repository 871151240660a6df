/-
The wire format: fields, messages and frames (`squidProtocolFormatter`).

A frame is a 13-byte header

  `[magic:2][opcode:1][flags:1][nfields:1][seq:4][payloadLen:4]`

followed by `nfields` fields, each `[id:1][len:2][value:len]`.  The formatter
builds a frame with sequence number `0`, `stampSeq` patches the real number in
before the frame is sent, and `parseMessage` reads a frame back.

* `parseMessage_stampSeq` — parsing a built and stamped frame gives back the
  opcode, the flags, the sequence number and the fields;
* `buildFrame_eq_ok_iff` — exactly when the formatter does not throw.
-/
import SquidStorage.BigEndian
import Mathlib.Data.List.Basic
import Std.Data.ExtTreeMap

open BigEndian

namespace Squid

/-- `SQUID_MAGIC`. -/
def squidMagic : ℕ := 0x5351

/-- `FLAG_RESPONSE`. -/
def flagResponse : UInt8 := 0x01

/-- `FRAME_HEADER_SIZE`. -/
def frameHeaderSize : ℕ := 13

/-- `enum class Opcode : uint8_t`.  Any byte can arrive on the wire, so the
type is the byte itself with the enumerators as named patterns. -/
structure Opcode where
  byte : UInt8
deriving DecidableEq, Repr

namespace Opcode

@[match_pattern] def connectServer : Opcode := ⟨0x01⟩
@[match_pattern] def identify : Opcode := ⟨0x02⟩
@[match_pattern] def close : Opcode := ⟨0x03⟩
@[match_pattern] def heartbeat : Opcode := ⟨0x04⟩
@[match_pattern] def syncStatus : Opcode := ⟨0x05⟩
@[match_pattern] def createFile : Opcode := ⟨0x10⟩
@[match_pattern] def readFile : Opcode := ⟨0x12⟩
@[match_pattern] def updateFile : Opcode := ⟨0x13⟩
@[match_pattern] def deleteFile : Opcode := ⟨0x14⟩
@[match_pattern] def acquireLock : Opcode := ⟨0x20⟩
@[match_pattern] def releaseLock : Opcode := ⟨0x21⟩
@[match_pattern] def pushCreateFile : Opcode := ⟨0x30⟩
@[match_pattern] def pushUpdateFile : Opcode := ⟨0x31⟩
@[match_pattern] def pushDeleteFile : Opcode := ⟨0x32⟩
@[match_pattern] def stateSnap : Opcode := ⟨0x40⟩
@[match_pattern] def stateDelta : Opcode := ⟨0x41⟩
@[match_pattern] def leaderHb : Opcode := ⟨0x42⟩
@[match_pattern] def nackStaleEpoch : Opcode := ⟨0x43⟩
@[match_pattern] def response : Opcode := ⟨0xFF⟩

end Opcode

/-- `enum class FieldID : uint8_t`, again the byte with named values. -/
structure FieldID where
  byte : UInt8
deriving DecidableEq, Repr

namespace FieldID

def filePath : FieldID := ⟨0x01⟩
def fileVersion : FieldID := ⟨0x02⟩
def nodeType : FieldID := ⟨0x03⟩
def processName : FieldID := ⟨0x04⟩
def ack : FieldID := ⟨0x06⟩
def fileEntry : FieldID := ⟨0x10⟩
def verEntry : FieldID := ⟨0x11⟩
def epoch : FieldID := ⟨0x20⟩
def deltaOp : FieldID := ⟨0x21⟩
def datanodeName : FieldID := ⟨0x22⟩
def snapEntry : FieldID := ⟨0x23⟩

end FieldID

/-- `struct BinaryField`. -/
structure BinaryField where
  id : FieldID
  value : Bytes
deriving DecidableEq, Repr

/-- `struct Message`, with the source's default values. -/
structure Message where
  opcode : Opcode := .response
  flags : UInt8 := 0
  seq : UInt32 := 0
  payloadLen : UInt32 := 0
  fields : List BinaryField := []
deriving DecidableEq, Repr

/-! ### Reading fields -/

/-- `pushU16` / `pushU32` / `pushU64`: a number on 2, 4 or 8 bytes. -/
def pushU16 (v : ℕ) : Bytes := beBytes 2 v

@[inherit_doc pushU16] def pushU32 (v : UInt32) : Bytes := beBytes 4 v.toNat

@[inherit_doc pushU16] def pushU64 (v : ℕ) : Bytes := beBytes 8 v

/-- `readU16`: the first two bytes at the pointer. -/
def readU16 (p : Bytes) : ℕ := beNat (p.take 2)

/-- `readU32`: the first four bytes at the pointer. -/
def readU32 (p : Bytes) : UInt32 := UInt32.ofNat (beNat (p.take 4))

namespace Message

/-- `Message::findField`: the first field with this id. -/
def findField (m : Message) (id : FieldID) : Option BinaryField :=
  m.fields.find? (fun f => f.id = id)

/-- `Message::getString`. -/
def getString (m : Message) (id : FieldID) (dflt : Bytes := []) : Bytes :=
  match m.findField id with
  | none => dflt
  | some f => f.value

/-- `Message::getUint32`: the default also stands for a value shorter than
four bytes. -/
def getUint32 (m : Message) (id : FieldID) (dflt : UInt32 := 0) : UInt32 :=
  match m.findField id with
  | none => dflt
  | some f => if f.value.length < 4 then dflt else readU32 f.value

/-- `Message::getBool`. -/
def getBool (m : Message) (id : FieldID) (dflt : Bool := false) : Bool :=
  match m.findField id with
  | none => dflt
  | some f =>
    match f.value with
    | [] => dflt
    | b :: _ => b != 0x00

/-- `Message::isResponse`. -/
def isResponse (m : Message) : Bool := m.flags &&& flagResponse != 0

/-- `Message::isAck`. -/
def isAck (m : Message) : Bool := m.isResponse && m.getBool .ack false

end Message

/-! ### Building frames -/

/-- `SquidProtocolFormatter::fieldString`. -/
def fieldString (id : FieldID) (s : Bytes) : BinaryField := ⟨id, s⟩

/-- `SquidProtocolFormatter::fieldUint32`. -/
def fieldUint32 (id : FieldID) (v : UInt32) : BinaryField := ⟨id, pushU32 v⟩

/-- `SquidProtocolFormatter::fieldBool`. -/
def fieldBool (id : FieldID) (v : Bool) : BinaryField := ⟨id, [if v then 0x01 else 0x00]⟩

/-- The field loop of `buildFrame`. -/
def buildFields : List BinaryField → Except String Bytes
  | [] => .ok []
  | f :: fs =>
    if f.value.length > 65535 then .error "Field value exceeds maximum length"
    else match buildFields fs with
      | .error e => .error e
      | .ok rest => .ok (f.id.byte :: pushU16 f.value.length ++ f.value ++ rest)

/-- `SquidProtocolFormatter::buildFrame`; the sequence number is a placeholder
that `stampSeq` overwrites. -/
def buildFrame (opcode : Opcode) (flags : UInt8) (fields : List BinaryField)
    (payloadLen : UInt32 := 0) : Except String Bytes :=
  if fields.length > 255 then .error "Too many fields for a single frame"
  else match buildFields fields with
    | .error e => .error e
    | .ok body =>
      .ok (pushU16 squidMagic ++ [opcode.byte, flags, UInt8.ofNat fields.length]
        ++ pushU32 0 ++ pushU32 payloadLen ++ body)

/-- `SquidProtocolFormatter::stampSeq`: patch bytes 5 to 8. -/
def stampSeq (frame : Bytes) (seq : UInt32) : Bytes :=
  if frame.length < frameHeaderSize then frame
  else frame.take 5 ++ pushU32 seq ++ frame.drop 9

/-! ### Parsing frames -/

/-- The field loop of `parseMessage`; `p` is what is left of the frame. -/
def parseFields : ℕ → Bytes → Except String (List BinaryField)
  | 0, _ => .ok []
  | n + 1, p =>
    match p with
    | id :: l₁ :: l₀ :: p =>
      let vlen := readU16 [l₁, l₀]
      if p.length < vlen then .error "Frame truncated in field value"
      else match parseFields n (p.drop vlen) with
        | .error e => .error e
        | .ok fs => .ok (⟨⟨id⟩, p.take vlen⟩ :: fs)
    | _ => .error "Frame truncated in field header"

/-- `SquidProtocolFormatter::parseMessage`. -/
def parseMessage (frame : Bytes) : Except String Message :=
  if frame.length < frameHeaderSize then .error "Frame too short"
  else if readU16 frame ≠ squidMagic then .error "Bad magic"
  else match frame.drop 2 with
    | opcode :: flags :: nf :: p =>
      match parseFields nf.toNat (p.drop 8) with
      | .error e => .error e
      | .ok fields =>
        .ok { opcode := ⟨opcode⟩, flags := flags, seq := readU32 p,
              payloadLen := readU32 (p.drop 4), fields := fields }
    | _ => .error "Frame too short"

/-! ### Parsing undoes building -/

@[simp] theorem length_pushU16 (v : ℕ) : (pushU16 v).length = 2 := length_beBytes 2 v

@[simp] theorem length_pushU32 (v : UInt32) : (pushU32 v).length = 4 := length_beBytes 4 _

@[simp] theorem length_pushU64 (v : ℕ) : (pushU64 v).length = 8 := length_beBytes 8 v

@[simp] theorem readU32_pushU32_append (v : UInt32) (rest : Bytes) :
    readU32 (pushU32 v ++ rest) = v := by
  have hv : v.toNat < 256 ^ 4 := v.toNat_lt
  rw [readU32, List.take_left' (length_pushU32 v), pushU32, beNat_beBytes_of_lt hv]
  exact UInt32.ofNat_toNat

@[simp] theorem readU32_pushU32 (v : UInt32) : readU32 (pushU32 v) = v := by
  have h := readU32_pushU32_append v []
  rwa [List.append_nil] at h

theorem readU16_pushU16_append {v : ℕ} (hv : v < 65536) (rest : Bytes) :
    readU16 (pushU16 v ++ rest) = v := by
  rw [readU16, List.take_left' (length_pushU16 v), pushU16]
  exact beNat_beBytes_of_lt hv

/-- The fields the formatter can carry: at most 255 of them, each value at
most 65535 bytes long. -/
def Fits (fields : List BinaryField) : Prop :=
  fields.length ≤ 255 ∧ ∀ f ∈ fields, f.value.length ≤ 65535

instance (fields : List BinaryField) : Decidable (Fits fields) :=
  inferInstanceAs (Decidable (_ ∧ _))

/-- The bytes of a field list, when every value fits. -/
def fieldBytes (fields : List BinaryField) : Bytes :=
  fields.flatMap fun f => f.id.byte :: (pushU16 f.value.length ++ f.value)

theorem buildFields_eq_ok {fields : List BinaryField}
    (h : ∀ f ∈ fields, f.value.length ≤ 65535) :
    buildFields fields = .ok (fieldBytes fields) := by
  induction fields with
  | nil => rfl
  | cons f fs ih =>
    have hf : ¬ f.value.length > 65535 := by
      have := h f List.mem_cons_self
      omega
    rw [buildFields, if_neg hf, ih (fun g hg => h g (List.mem_cons_of_mem _ hg))]
    simp [fieldBytes]

theorem buildFields_ne_ok {fields : List BinaryField}
    (h : ∃ f ∈ fields, 65535 < f.value.length) (body : Bytes) :
    buildFields fields ≠ .ok body := by
  induction fields generalizing body with
  | nil => simp at h
  | cons f fs ih =>
    obtain ⟨g, hg, hlen⟩ := h
    rw [buildFields]
    split
    · simp
    · -- the long value is in the tail
      rename_i hf
      have hgs : g ∈ fs := by
        rcases List.mem_cons.mp hg with rfl | hgs
        · exact absurd hlen hf
        · exact hgs
      cases hfs : buildFields fs with
      | error e => simp
      | ok rest => exact absurd hfs (ih ⟨g, hgs, hlen⟩ rest)

/-- The bytes of a built and stamped frame. -/
def frameBytes (opcode : Opcode) (flags : UInt8) (seq payloadLen : UInt32)
    (fields : List BinaryField) : Bytes :=
  pushU16 squidMagic ++ [opcode.byte, flags, UInt8.ofNat fields.length]
    ++ pushU32 seq ++ pushU32 payloadLen ++ fieldBytes fields

theorem buildFrame_eq_ok {fields : List BinaryField} (h : Fits fields) (opcode : Opcode)
    (flags : UInt8) (payloadLen : UInt32) :
    buildFrame opcode flags fields payloadLen
      = .ok (frameBytes opcode flags 0 payloadLen fields) := by
  rw [buildFrame, if_neg (by have := h.1; omega), buildFields_eq_ok h.2]
  rfl

/-- `buildFrame` throws exactly on more than 255 fields or an oversized value. -/
theorem buildFrame_eq_ok_iff (opcode : Opcode) (flags : UInt8) (fields : List BinaryField)
    (payloadLen : UInt32) :
    (∃ frame, buildFrame opcode flags fields payloadLen = .ok frame) ↔ Fits fields := by
  constructor
  · rintro ⟨frame, hframe⟩
    by_contra hfits
    rw [buildFrame] at hframe
    -- what does not fit is refused by the count or by the field loop
    by_cases hcount : fields.length > 255
    · rw [if_pos hcount] at hframe
      simp at hframe
    · rw [if_neg hcount] at hframe
      have hlong : ∃ f ∈ fields, 65535 < f.value.length := by
        by_contra hall
        push Not at hall
        exact hfits ⟨by omega, hall⟩
      cases hbody : buildFields fields with
      | error e => simp [hbody] at hframe
      | ok body => exact buildFields_ne_ok hlong body hbody
  · intro hfits
    exact ⟨_, buildFrame_eq_ok hfits opcode flags payloadLen⟩

theorem stampSeq_frameBytes (opcode : Opcode) (flags : UInt8) (seq seq' payloadLen : UInt32)
    (fields : List BinaryField) :
    stampSeq (frameBytes opcode flags seq payloadLen fields) seq'
      = frameBytes opcode flags seq' payloadLen fields := by
  have hlen : ¬ (frameBytes opcode flags seq payloadLen fields).length < frameHeaderSize := by
    simp [frameBytes, frameHeaderSize]
    omega
  -- split the frame around the four sequence bytes
  set head := pushU16 squidMagic ++ [opcode.byte, flags, UInt8.ofNat fields.length] with hhead
  set tail := pushU32 payloadLen ++ fieldBytes fields with htail
  have hheadLen : head.length = 5 := by simp [hhead]
  have hsplit : ∀ s : UInt32,
      frameBytes opcode flags s payloadLen fields = head ++ (pushU32 s ++ tail) := by
    intro s
    simp [frameBytes, hhead, htail]
  rw [stampSeq, if_neg hlen, hsplit, hsplit, List.take_left' hheadLen]
  have hdrop : (head ++ (pushU32 seq ++ tail)).drop 9 = tail := by
    rw [← List.append_assoc, List.drop_left' (by simp [hheadLen])]
  rw [hdrop, List.append_assoc]

theorem parseFields_fieldBytes {fields : List BinaryField}
    (h : ∀ f ∈ fields, f.value.length ≤ 65535) (rest : Bytes) :
    parseFields fields.length (fieldBytes fields ++ rest) = .ok fields := by
  induction fields with
  | nil => rfl
  | cons f fs ih =>
    have hf : f.value.length ≤ 65535 := h f List.mem_cons_self
    -- the two length bytes
    obtain ⟨l₁, l₀, hl⟩ : ∃ l₁ l₀, pushU16 f.value.length = [l₁, l₀] := ⟨_, _, rfl⟩
    have hvlen : readU16 [l₁, l₀] = f.value.length := by
      have := readU16_pushU16_append (v := f.value.length) (by omega) []
      rwa [List.append_nil, hl] at this
    have hshape : fieldBytes (f :: fs) ++ rest
        = f.id.byte :: l₁ :: l₀ :: (f.value ++ (fieldBytes fs ++ rest)) := by
      simp [fieldBytes, hl]
    rw [hshape, List.length_cons, parseFields]
    simp only [hvlen]
    rw [if_neg (by simp), List.drop_left' rfl, List.take_left' rfl,
      ih (fun g hg => h g (List.mem_cons_of_mem _ hg))]

/-- Parsing a stamped frame, whatever payload bytes follow its fields. -/
theorem parseMessage_frameBytes {fields : List BinaryField} (h : Fits fields)
    (opcode : Opcode) (flags : UInt8) (seq payloadLen : UInt32) (rest : Bytes) :
    parseMessage (frameBytes opcode flags seq payloadLen fields ++ rest)
      = .ok { opcode := opcode, flags := flags, seq := seq, payloadLen := payloadLen,
              fields := fields } := by
  set nf := UInt8.ofNat fields.length with hnfdef
  have hnf : nf.toNat = fields.length := by
    have := h.1
    rw [hnfdef, UInt8.toNat_ofNat', Nat.mod_eq_of_lt (by omega)]
  -- the layout as `parseMessage` walks through it
  have hshape : frameBytes opcode flags seq payloadLen fields ++ rest
      = pushU16 squidMagic ++ (opcode.byte :: flags :: nf ::
          (pushU32 seq ++ (pushU32 payloadLen ++ (fieldBytes fields ++ rest)))) := by
    simp [frameBytes, hnfdef]
  have hmagic : readU16 (frameBytes opcode flags seq payloadLen fields ++ rest) = squidMagic := by
    rw [hshape]
    exact readU16_pushU16_append (by decide) _
  have hlen : ¬ (frameBytes opcode flags seq payloadLen fields ++ rest).length < frameHeaderSize := by
    simp [frameBytes, frameHeaderSize]
    omega
  rw [parseMessage, if_neg hlen, if_neg (by simp [hmagic]), hshape,
    List.drop_left' (length_pushU16 _)]
  have hbody : (pushU32 seq ++ (pushU32 payloadLen ++ (fieldBytes fields ++ rest))).drop 8
      = fieldBytes fields ++ rest := by
    rw [← List.append_assoc, List.drop_left' (by simp)]
  simp only [hnf, hbody, parseFields_fieldBytes h.2, readU32_pushU32_append,
    List.drop_left' (length_pushU32 seq)]

/-- **Parsing undoes building and stamping.** -/
theorem parseMessage_stampSeq {opcode : Opcode} {flags : UInt8} {fields : List BinaryField}
    {frame : Bytes} (h : buildFrame opcode flags fields = .ok frame) (seq : UInt32) :
    parseMessage (stampSeq frame seq)
      = .ok { opcode := opcode, flags := flags, seq := seq, fields := fields } := by
  have hfits : Fits fields := (buildFrame_eq_ok_iff opcode flags fields 0).mp ⟨frame, h⟩
  rw [buildFrame_eq_ok hfits, Except.ok.injEq] at h
  rw [← h, stampSeq_frameBytes]
  have := parseMessage_frameBytes hfits opcode flags seq 0 []
  rwa [List.append_nil] at this

end Squid
