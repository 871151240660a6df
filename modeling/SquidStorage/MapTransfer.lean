/-
Whole maps in one frame.

Two replies carry a map: the `SYNC_STATUS` response has two fields for each file,
a `STATE_SNAP` frame has one packed text entry for each.  A frame counts its
fields on one byte.

* `getFileVersionMap_fields` — paired by position, the fields give the map back;
* `version_map_exchange_iff` — the response carries exactly the maps of at most
  127 files;
* `snapshot_transfer` — a snapshot of at most 254 files leaves the standby with the
  maps it was built from.
-/
import SquidStorage.HolderReplication

open BigEndian TextStream LastWrite

namespace Squid

/-! ### The response to `SYNC_STATUS` -/

/-- **The fields give the map back**, whatever its versions are. -/
theorem getFileVersionMap_fields (map : StrMap Int32) (msg : Message)
    (h : msg.fields = fileVersionFields map) : msg.getFileVersionMap = map := by
  -- the two lists that are zipped have one element for each file
  have hfiles : (fileVersionFields map).filterMap
        (fun f => if f.id = .fileEntry then some f.value else none)
      = map.toList.map Prod.fst := by
    rw [fileVersionFields, List.filterMap_flatMap, List.map_eq_flatMap]
    rfl
  have hversions : (fileVersionFields map).filterMap
        (fun f => if f.id = .verEntry ∧ 4 ≤ f.value.length then some (readU32 f.value) else none)
      = map.toList.map fun kv => toUint32 kv.2 := by
    rw [fileVersionFields, List.filterMap_flatMap, List.map_eq_flatMap]
    congr 1
    funext kv
    simp [fieldString, fieldUint32, FieldID.fileEntry, FieldID.verEntry]
  rw [Message.getFileVersionMap, h, hfiles, hversions, List.zip_map']
  refine Std.ExtTreeMap.ext_getElem? fun p => ?_
  rw [List.foldl_map]
  simp only [toInt32_toUint32]
  exact congrFun (look_foldl_toList map) p

/-- **Which version maps go into a response.**  For a map of paths of at most 65535
bytes, the response is built, and after any sequence number it is parsed back to the
same map, exactly when the map has at most 127 files. -/
theorem version_map_exchange_iff (map : StrMap Int32) (hpaths : ∀ p ∈ map, p.length ≤ 65535) :
    (∃ frame, responseFileVersionMap map = .ok frame ∧
      ∀ seq, ∃ msg, parseMessage (stampSeq frame seq) = .ok msg ∧ msg.getFileVersionMap = map)
      ↔ map.size ≤ 127 := by
  have hbuilt := buildFrame_eq_ok_iff .response flagResponse (fileVersionFields map) 0
  rw [← (fits_fileVersionFields map).trans (and_iff_left hpaths), ← hbuilt]
  constructor
  · rintro ⟨frame, hframe, -⟩
    exact ⟨frame, hframe⟩
  · rintro ⟨frame, hframe⟩
    refine ⟨frame, hframe, fun seq => ⟨_, parseMessage_stampSeq hframe seq, ?_⟩⟩
    exact getFileVersionMap_fields map _ rfl

/-- Two files, one of them at version `-3`. -/
theorem version_map_exchange_two :
    let map : StrMap Int32 := ((∅ : StrMap Int32).insert [97] 4).insert [98] (-3)
    (∀ p ∈ map, p.length ≤ 65535) ∧ ∃ frame, responseFileVersionMap map = .ok frame ∧
      ∀ seq, ∃ msg, parseMessage (stampSeq frame seq) = .ok msg ∧
        msg.getFileVersionMap = map := by
  intro map
  have hpaths : ∀ p ∈ map, p.length ≤ 65535 := by
    intro p hp
    simp only [map, Std.ExtTreeMap.mem_insert, Std.LawfulEqCmp.compare_eq_iff_eq] at hp
    rcases hp with rfl | rfl | hp
    · decide
    · decide
    · simp at hp
  exact ⟨hpaths, (version_map_exchange_iff map hpaths).mpr (by decide)⟩

/-- 128 files with names of one byte: the formatter throws. -/
theorem version_map_128_throws :
    let map : StrMap Int32 := (List.range 128).foldl (fun m i => m.insert [UInt8.ofNat i] 1) ∅
    (∀ p ∈ map.keys, p.length ≤ 65535) ∧
      responseFileVersionMap map = .error "Too many fields for a single frame" := by
  decide +kernel

/-! ### The snapshot -/

theorem applySnap_maps (w : Watcher) (msg : Message) :
    (w.applySnap msg).versionMap
        = (Watcher.snapEntries msg).foldl (fun (m : StrMap Int32) e => m.insert e.1 e.2.1) ∅ ∧
      (w.applySnap msg).repMap
        = (Watcher.snapEntries msg).foldl (fun (m : StrMap StrSet) e => m.insert e.1 e.2.2) ∅ := by
  rw [Watcher.applySnap, Watcher.raise]
  split <;> exact ⟨rfl, rfl⟩

theorem observedEpoch_applySnap_max (w : Watcher) (msg : Message) :
    (w.applySnap msg).observedEpoch.toNat = max w.observedEpoch.toNat msg.epoch.toNat := by
  rw [Watcher.applySnap, Watcher.raise]
  dsimp only
  split
  · rename_i hlt
    rw [UInt32.lt_iff_toNat_lt] at hlt
    show msg.epoch.toNat = _
    omega
  · rename_i hle
    rw [UInt32.lt_iff_toNat_lt] at hle
    show w.observedEpoch.toNat = _
    omega

/-- **A snapshot leaves the standby with the maps it was built from.**  For every
version map of at most 254 files whose paths are words, every holder map of plain
names, every epoch and every state of the standby: the frame is built and parsed, the
version map is the one that was sent, the holder map is defined on the same paths and
has the holders that were sent, and the observed epoch is the larger one. -/
theorem snapshot_transfer (versionMap : StrMap Int32) (repMap : StrMap StrSet) (epoch : UInt32)
    (w : Watcher) (hsize : versionMap.size ≤ 254) (hpaths : ∀ p ∈ versionMap, IsWord p)
    (hnames : ∀ (p : Bytes) (s : StrSet), repMap[p]? = some s → ∀ n ∈ s, IsPlainName n)
    (hentries : ∀ (p : Bytes) (v : Int32), versionMap[p]? = some v →
      (snapEntry p v repMap[p]?).length ≤ 65535) :
    ∃ frame msg, stateSnapFormat versionMap repMap epoch = .ok frame ∧
      parseMessage frame = .ok msg ∧
      (w.applySnap msg).versionMap = versionMap ∧
      (∀ p : Bytes, p ∈ (w.applySnap msg).repMap ↔ p ∈ versionMap) ∧
      (∀ p ∈ versionMap, (w.applySnap msg).repMap[p]? = some (repMap[p]?.getD ∅)) ∧
      (w.applySnap msg).observedEpoch.toNat = max w.observedEpoch.toNat epoch.toNat := by
  have hfits : Fits (stateSnapFields versionMap repMap epoch) := by
    refine ⟨?_, ?_⟩
    · show (versionMap.toList.map _).length + 1 ≤ 255
      rw [List.length_map, Std.ExtTreeMap.length_toList]
      omega
    · intro f hf
      rcases List.mem_cons.mp hf with rfl | hf
      · simp [fieldUint32]
      · obtain ⟨kv, hkv, rfl⟩ := List.mem_map.mp hf
        exact hentries kv.1 kv.2 (Std.ExtTreeMap.mem_toList_iff_getElem?_eq_some.mp hkv)
  have hframe : stateSnapFormat versionMap repMap epoch = .ok _ :=
    buildFrame_eq_ok hfits .stateSnap 0 0
  have hparse := parseMessage_frameBytes hfits .stateSnap 0 0 0 []
  rw [List.append_nil] at hparse
  refine ⟨_, _, hframe, hparse, ?_⟩
  have hentries := (snapEntries_snap versionMap repMap epoch 0).trans
    (filterMap_parseSnapEntry_plain hpaths hnames)
  obtain ⟨hversions, hholders⟩ := applySnap_maps w
    { opcode := .stateSnap, seq := 0, fields := stateSnapFields versionMap repMap epoch }
  rw [hentries] at hversions hholders
  have hlook := look_foldl_plain versionMap repMap
  rw [← hholders] at hlook
  refine ⟨?_, fun p => ?_, fun p hp => ?_, ?_⟩
  · rw [hversions, List.foldl_map]
    exact Std.ExtTreeMap.ext_getElem? fun p => congrFun (look_foldl_toList versionMap) p
  · rw [Std.ExtTreeMap.mem_iff_isSome_getElem?]
    show (look _ p).isSome ↔ _
    rw [hlook p]
    split <;> simp [*]
  · exact (hlook p).trans (if_pos hp)
  · rw [observedEpoch_applySnap_max, (frameWrite_snap versionMap repMap epoch 0).1]

/-- A file with two holders and one that the holder map does not have. -/
theorem snapshot_transfer_two :
    let versionMap : StrMap Int32 := ((∅ : StrMap Int32).insert [97] 4).insert [98] (-3)
    let holders : StrSet := ((∅ : StrSet).insert [110, 49]).insert [110, 50]
    let repMap : StrMap StrSet := (∅ : StrMap StrSet).insert [97] holders
    let w : Watcher := { observedEpoch := 9 }
    ∃ frame msg, stateSnapFormat versionMap repMap 7 = .ok frame ∧ parseMessage frame = .ok msg ∧
      (w.applySnap msg).versionMap = versionMap ∧
      (w.applySnap msg).repMap[([97] : Bytes)]? = some holders ∧
      (w.applySnap msg).repMap[([98] : Bytes)]? = some ∅ ∧
      (w.applySnap msg).observedEpoch.toNat = 9 := by
  intro versionMap holders repMap w
  have hpaths : ∀ p ∈ versionMap, p = [97] ∨ p = [98] := by
    intro p hp
    simp only [versionMap, Std.ExtTreeMap.mem_insert, Std.LawfulEqCmp.compare_eq_iff_eq] at hp
    rcases hp with rfl | rfl | hp
    · exact .inr rfl
    · exact .inl rfl
    · simp at hp
  have hnames : ∀ (p : Bytes) (s : StrSet), repMap[p]? = some s → ∀ n ∈ s, IsPlainName n := by
    intro p s hs n hn
    simp only [repMap, Std.ExtTreeMap.getElem?_insert] at hs
    split at hs
    · cases hs
      simp only [holders, Std.ExtTreeSet.mem_insert, Std.LawfulEqCmp.compare_eq_iff_eq] at hn
      rcases hn with rfl | rfl | hn
      · decide
      · decide
      · simp at hn
    · simp at hs
  obtain ⟨frame, msg, hframe, hparse, hversions, -, hholders, hepoch⟩ :=
    snapshot_transfer versionMap repMap 7 w (by decide)
      (fun p hp => by rcases hpaths p hp with rfl | rfl <;> decide) hnames
      (fun p v hv => by
        rcases hpaths p (mem_of_entry hv) with rfl | rfl <;> cases hv <;> decide)
  exact ⟨frame, msg, hframe, hparse, hversions, hholders [97] (by decide),
    hholders [98] (by decide), hepoch⟩

end Squid
