/-
The frames of the protocol: one builder for each kind of message
(`SquidProtocolFormatter::*Format`), and the packed entries of a snapshot.

Every builder is `buildFrame` at its own opcode, flags and fields, so one
lemma (`parseMessage_stampSeq`) reads all of them back.  A snapshot entry is a
text line `"path version dn1,dn2"`; `parseSnapEntry_snapEntry` says when the
standby reads the path and the version back.
-/
import SquidStorage.Wire
import SquidStorage.TextStream
import Std.Data.ExtTreeSet

open BigEndian TextStream

namespace Squid

/-- `std::map<std::string, T>`: keys in byte order, as the source iterates them. -/
abbrev StrMap (α : Type) : Type := Std.ExtTreeMap Bytes α

/-- `std::set<std::string>`. -/
abbrev StrSet : Type := Std.ExtTreeSet Bytes

/-- `static_cast<uint32_t>(int)`. -/
def toUint32 (v : Int32) : UInt32 := v.toUInt32

/-- `static_cast<int>(uint32_t)`. -/
def toInt32 (v : UInt32) : Int32 := v.toInt32

@[simp] theorem toInt32_toUint32 (v : Int32) : toInt32 (toUint32 v) = v := by
  simp [toInt32, toUint32]

/-! ### Requests and pushes -/

def identifyFormat : Except String Bytes := buildFrame .identify 0 []

def heartbeatFormat : Except String Bytes := buildFrame .heartbeat 0 []

def syncStatusFormat : Except String Bytes := buildFrame .syncStatus 0 []

/-- A frame that names a file: the shape of most requests. -/
def pathFormat (opcode : Opcode) (filePath : Bytes) : Except String Bytes :=
  buildFrame opcode 0 [fieldString .filePath filePath]

/-- A frame that names a file and a version. -/
def pathVersionFormat (opcode : Opcode) (filePath : Bytes) (version : Int32) :
    Except String Bytes :=
  buildFrame opcode 0
    [fieldString .filePath filePath, fieldUint32 .fileVersion (toUint32 version)]

def createFileFormat (filePath : Bytes) (version : Int32) : Except String Bytes :=
  pathVersionFormat .createFile filePath version

def readFileFormat (filePath : Bytes) : Except String Bytes := pathFormat .readFile filePath

def updateFileFormat (filePath : Bytes) (version : Int32) : Except String Bytes :=
  pathVersionFormat .updateFile filePath version

def deleteFileFormat (filePath : Bytes) : Except String Bytes := pathFormat .deleteFile filePath

def acquireLockFormat (filePath : Bytes) : Except String Bytes := pathFormat .acquireLock filePath

def releaseLockFormat (filePath : Bytes) : Except String Bytes := pathFormat .releaseLock filePath

def pushCreateFileFormat (filePath : Bytes) (version : Int32) : Except String Bytes :=
  pathVersionFormat .pushCreateFile filePath version

def pushUpdateFileFormat (filePath : Bytes) (version : Int32) : Except String Bytes :=
  pathVersionFormat .pushUpdateFile filePath version

def pushDeleteFileFormat (filePath : Bytes) : Except String Bytes :=
  pathFormat .pushDeleteFile filePath

/-! ### Responses -/

def responseAck (isAck : Bool) : Except String Bytes :=
  buildFrame .response flagResponse [fieldBool .ack isAck]

def responseAckWithVersion (isAck : Bool) (version : Int32) : Except String Bytes :=
  buildFrame .response flagResponse
    [fieldBool .ack isAck, fieldUint32 .fileVersion (toUint32 version)]

def responseIdentity (nodeType processName : Bytes) : Except String Bytes :=
  buildFrame .response flagResponse
    [fieldString .nodeType nodeType, fieldString .processName processName]

/-- Two fields for each file. -/
def fileVersionFields (map : StrMap Int32) : List BinaryField :=
  map.toList.flatMap fun kv =>
    [fieldString .fileEntry kv.1, fieldUint32 .verEntry (toUint32 kv.2)]

def responseFileVersionMap (map : StrMap Int32) : Except String Bytes :=
  buildFrame .response flagResponse (fileVersionFields map)

theorem length_fileVersionFields (map : StrMap Int32) :
    (fileVersionFields map).length = 2 * map.size := by
  rw [fileVersionFields, List.length_flatMap, ← Std.ExtTreeMap.length_toList]
  simp [Nat.mul_comm]

/-- The response has room for 127 files. -/
theorem fits_fileVersionFields (map : StrMap Int32) :
    Fits (fileVersionFields map) ↔ map.size ≤ 127 ∧ ∀ file ∈ map, file.length ≤ 65535 := by
  have hcount : (fileVersionFields map).length ≤ 255 ↔ map.size ≤ 127 := by
    rw [length_fileVersionFields]
    omega
  have hkeys : ∀ file, file ∈ map ↔ ∃ kv ∈ map.toList, kv.1 = file := by
    intro file
    rw [← Std.ExtTreeMap.mem_keys, ← Std.ExtTreeMap.map_fst_toList_eq_keys, List.mem_map]
  rw [Fits, hcount]
  refine and_congr_right fun _ => ⟨fun h file hfile => ?_, fun h f hf => ?_⟩
  · obtain ⟨kv, hkv, rfl⟩ := (hkeys file).mp hfile
    exact h (fieldString .fileEntry kv.1) (List.mem_flatMap.mpr ⟨kv, hkv, by simp⟩)
  · obtain ⟨kv, hkv, hf⟩ := List.mem_flatMap.mp hf
    simp only [List.mem_cons, List.not_mem_nil, or_false] at hf
    rcases hf with rfl | rfl
    · exact h kv.1 ((hkeys kv.1).mpr ⟨kv, hkv, rfl⟩)
    · simp [fieldUint32]

/-- `Message::getFileVersionMap`: the paths and the versions are collected apart and
paired by position. -/
def Message.getFileVersionMap (m : Message) : StrMap Int32 :=
  let files := m.fields.filterMap fun f => if f.id = .fileEntry then some f.value else none
  let versions := m.fields.filterMap fun f =>
    if f.id = .verEntry ∧ 4 ≤ f.value.length then some (readU32 f.value) else none
  (files.zip versions).foldl (fun result e => result.insert e.1 (toInt32 e.2)) ∅

/-- `SquidProtocolFormatter::makeNack`: built locally, never sent. -/
def makeNack : Message :=
  { opcode := .response, flags := flagResponse, fields := [fieldBool .ack false] }

/-! ### Standby replication -/

/-- The comma-separated list of holders that ends a snapshot entry. -/
def joinNames : List Bytes → Bytes
  | [] => []
  | [n] => n
  | n :: ns => n ++ 0x2c :: joinNames ns

/-- The packed text of one file in a snapshot. -/
def snapEntry (filePath : Bytes) (ver : Int32) (holders : Option StrSet) : Bytes :=
  let entry := filePath ++ space :: toStr ver
  match holders with
  | none => entry
  | some s => if s.isEmpty then entry else entry ++ space :: joinNames s.toList

/-- The fields of a `STATE_SNAP` frame: the epoch, then one entry for each file
of the version map. -/
def stateSnapFields (versionMap : StrMap Int32) (repMap : StrMap StrSet) (epoch : UInt32) :
    List BinaryField :=
  fieldUint32 .epoch epoch :: versionMap.toList.map fun e =>
    fieldString .snapEntry (snapEntry e.1 e.2 repMap[e.1]?)

def stateSnapFormat (versionMap : StrMap Int32) (repMap : StrMap StrSet) (epoch : UInt32) :
    Except String Bytes :=
  buildFrame .stateSnap 0 (stateSnapFields versionMap repMap epoch)

/-- The fields of a `STATE_DELTA` frame. -/
def stateDeltaFields (op : UInt8) (filePath : Bytes) (version : Int32) (datanodes : List Bytes)
    (epoch : UInt32) : List BinaryField :=
  fieldUint32 .epoch epoch :: ⟨.deltaOp, [op]⟩ :: fieldString .filePath filePath ::
    fieldUint32 .fileVersion (toUint32 version) ::
    datanodes.map fun dn => fieldString .datanodeName dn

def stateDeltaFormat (op : UInt8) (filePath : Bytes) (version : Int32) (datanodes : List Bytes)
    (epoch : UInt32) : Except String Bytes :=
  buildFrame .stateDelta 0 (stateDeltaFields op filePath version datanodes epoch)

def nackStaleEpochFormat (myEpoch : UInt32) : Except String Bytes :=
  buildFrame .nackStaleEpoch 0 [fieldUint32 .epoch myEpoch]

/-- `SquidProtocolFormatter::parseSnapEntry`; `none` when the entry is malformed. -/
def parseSnapEntry (entry : Bytes) : Option (Bytes × Int32 × StrSet) :=
  match extractWord entry with
  | none => none
  | some (filePath, rest) =>
    match extractInt32 rest with
    | none => none
    | some (version, rest) =>
      match extractWord rest with
      | none => some (filePath, version, ∅)
      | some (dnList, _) =>
        some (filePath, version,
          Std.ExtTreeSet.ofList ((getlines 0x2c dnList).filter fun dn => !dn.isEmpty))

/-- What is read of an entry: the path, the version, and the names in what
follows. -/
theorem parseSnapEntry_tail {filePath tail : Bytes} (hpath : IsWord filePath) (ver : Int32)
    (htail : BlankStart tail) :
    parseSnapEntry (filePath ++ (space :: (toStr ver ++ tail)))
      = match extractWord tail with
        | none => some (filePath, ver, ∅)
        | some (dnList, _) =>
          some (filePath, ver,
            Std.ExtTreeSet.ofList ((getlines 0x2c dnList).filter fun dn => !dn.isEmpty)) := by
  have hblank : BlankStart (space :: (toStr ver ++ tail)) := by
    intro b hb
    simp only [List.head?_cons, Option.mem_def, Option.some.injEq] at hb
    subst hb
    decide
  have hstop : ∀ b ∈ tail.head?, isDigit b = false := by
    intro b hb
    by_contra hdigit
    rw [Bool.not_eq_false] at hdigit
    have := isSpace_of_isDigit hdigit
    rw [htail b hb] at this
    exact absurd this (by decide)
  rw [parseSnapEntry, extractWord_append hpath hblank]
  simp only [extractInt32_space, extractInt32_toStr ver hstop]

/-- What follows the version in an entry: nothing, or a blank and the names. -/
def snapTail : Option StrSet → Bytes
  | none => []
  | some s => if s.isEmpty then [] else space :: joinNames s.toList

theorem snapEntry_eq (filePath : Bytes) (ver : Int32) (holders : Option StrSet) :
    snapEntry filePath ver holders = filePath ++ (space :: (toStr ver ++ snapTail holders)) := by
  cases holders with
  | none => simp [snapEntry, snapTail]
  | some s =>
    by_cases hs : s.isEmpty
    · simp [snapEntry, snapTail, hs]
    · simp [snapEntry, snapTail, hs]

theorem blankStart_snapTail (holders : Option StrSet) : BlankStart (snapTail holders) := by
  intro b hb
  cases holders with
  | none => simp [snapTail] at hb
  | some s =>
    rw [snapTail] at hb
    split at hb
    · simp at hb
    · simp only [List.head?_cons, Option.mem_def, Option.some.injEq] at hb
      subst hb
      decide

/-- The path and the version of an entry survive the packing, whatever the
names of the holders are. -/
theorem parseSnapEntry_snapEntry {filePath : Bytes} (hpath : IsWord filePath) (ver : Int32)
    (holders : Option StrSet) :
    ∃ dns, parseSnapEntry (snapEntry filePath ver holders) = some (filePath, ver, dns) := by
  rw [snapEntry_eq, parseSnapEntry_tail hpath ver (blankStart_snapTail holders)]
  cases extractWord (snapTail holders) with
  | none => exact ⟨∅, rfl⟩
  | some w => exact ⟨_, rfl⟩

/-- A name that survives in the comma-separated list. -/
def IsPlainName (name : Bytes) : Prop := IsWord name ∧ 0x2c ∉ name

instance (name : Bytes) : Decidable (IsPlainName name) := inferInstanceAs (Decidable (_ ∧ _))

theorem joinNames_plain {names : List Bytes} (hne : names ≠ [])
    (hplain : ∀ n ∈ names, IsPlainName n) :
    IsWord (joinNames names) ∧ getlines 0x2c (joinNames names) = names := by
  induction names with
  | nil => exact absurd rfl hne
  | cons n names ih =>
    obtain ⟨hword, hcomma⟩ := hplain n List.mem_cons_self
    cases names with
    | nil => exact ⟨hword, getlines_last hword.1 hcomma⟩
    | cons m names =>
      obtain ⟨hrest, hlines⟩ := ih (by simp) fun k hk => hplain k (List.mem_cons_of_mem _ hk)
      have hjoin : joinNames (n :: m :: names) = n ++ 0x2c :: joinNames (m :: names) := rfl
      rw [hjoin]
      refine ⟨⟨by simp, fun b hb => ?_⟩, by rw [getlines_line hcomma, hlines]⟩
      rcases List.mem_append.mp hb with hb | hb
      · exact hword.2 b hb
      · rcases List.mem_cons.mp hb with rfl | hb
        · decide
        · exact hrest.2 b hb

/-- **An entry of plain names is read back whole.** -/
theorem parseSnapEntry_plain {filePath : Bytes} (hpath : IsWord filePath) (ver : Int32)
    {holders : Option StrSet} (hplain : ∀ s ∈ holders, ∀ n ∈ s, IsPlainName n) :
    parseSnapEntry (snapEntry filePath ver holders) = some (filePath, ver, holders.getD ∅) := by
  rw [snapEntry_eq, parseSnapEntry_tail hpath ver (blankStart_snapTail holders)]
  cases holders with
  | none => rfl
  | some s =>
    by_cases hs : s.isEmpty
    · rw [Std.ExtTreeSet.isEmpty_iff] at hs
      subst hs
      rfl
    · have hne : s.toList ≠ [] := by
        rw [Ne, ← List.isEmpty_iff, Std.ExtTreeSet.isEmpty_toList]
        exact hs
      have hnames : ∀ n ∈ s.toList, IsPlainName n := fun n hn =>
        hplain s rfl n (Std.ExtTreeSet.mem_toList.mp hn)
      obtain ⟨hword, hlines⟩ := joinNames_plain hne hnames
      have htail : extractWord (space :: joinNames s.toList) = some (joinNames s.toList, []) := by
        have hnil : BlankStart [] := by
          intro b hb
          simp at hb
        have h := extractWord_append hword hnil
        rw [List.append_nil] at h
        rw [extractWord] at h ⊢
        rwa [List.dropWhile_cons_of_pos (by decide)]
      rw [snapTail, if_neg hs, htail]
      simp only [hlines, Option.getD_some, Option.some.injEq, Prod.mk.injEq, true_and]
      refine Std.ExtTreeSet.ext_mem fun k => ?_
      rw [Std.ExtTreeSet.mem_ofList, List.contains_iff_mem, List.mem_filter,
        Std.ExtTreeSet.mem_toList]
      refine ⟨And.left, fun hk => ⟨hk, ?_⟩⟩
      have := (hnames k (Std.ExtTreeSet.mem_toList.mpr hk)).1.1
      simpa using this

end Squid
