/-
The version file as a list of entries.

Both writers of `.squid/fileVersions.txt` write one line for each entry, so what they
do to the text is said here as what they do to the list.

* `setFileVersion_versionLines`, `dropFileVersion_versionLines` — the two rewrites,
  for any paths that keep to their line;
* `savedVersions_set`, `savedVersions_drop` — for paths that are words they set and
  drop one version and leave the others as they are.
-/
import SquidStorage.Disk

open BigEndian TextStream LastWrite

namespace Squid

/-- The text of some entries. -/
def versionLines (entries : List (Bytes × Int32)) : Bytes :=
  entries.flatMap fun e => versionLine e.1 e.2 ++ [newline]

/-- Every path keeps to its line. -/
def OneLine (entries : List (Bytes × Int32)) : Prop := ∀ e ∈ entries, newline ∉ e.1

section OneLine

variable {entries : List (Bytes × Int32)}

theorem OneLine.lines (h : OneLine entries) : ∀ e ∈ entries, newline ∉ versionLine e.1 e.2 :=
  fun e he => newline_not_mem_versionLine (h e he) e.2

theorem getlines_versionLines (h : OneLine entries) :
    getlines newline (versionLines entries) = entries.map fun e => versionLine e.1 e.2 :=
  getlines_flatMap _ _ h.lines

end OneLine

/-! ### What the writers do to the entries -/

namespace FileManager

/-- The path that `FileManager` reads in the line of an entry. -/
def namedPath (e : Bytes × Int32) : Option Bytes :=
  (parseLine (versionLine e.1 e.2)).map Prod.fst

/-- The line of an entry as `setFileVersion` writes it back. -/
def keptEntry (path : Bytes) (version : Int32) (e : Bytes × Int32) : Option (Bytes × Int32) :=
  (namedPath e).map fun named => if named = path then (path, version) else e

/-- The lines that parse, with the paths they name. -/
theorem parsed_versionLines {entries : List (Bytes × Int32)} (h : OneLine entries) :
    (getlines newline (versionLines entries)).filterMap
        (fun line => (parseLine line).map fun entry => (entry.1, line))
      = entries.filterMap fun e => (namedPath e).map fun named => (named, versionLine e.1 e.2) := by
  rw [getlines_versionLines h, List.filterMap_map]
  congr 1
  funext e
  rw [namedPath, Option.map_map]
  rfl

/-- **What `setFileVersion` does to the entries.** -/
theorem setFileVersion_versionLines {entries : List (Bytes × Int32)} (h : OneLine entries)
    (path : Bytes) (version : Int32) :
    setFileVersion (versionLines entries) path version
      = versionLines (entries.filterMap (keptEntry path version)
          ++ if entries.any (fun e => namedPath e = some path) then [] else [(path, version)]) := by
  have hfound : (entries.filterMap fun e => (namedPath e).map fun named =>
        (named, versionLine e.1 e.2)).any (fun entry => decide (entry.1 = path))
      = entries.any fun e => decide (namedPath e = some path) := by
    rw [List.any_filterMap]
    congr 1
    funext e
    cases namedPath e <;> simp
  have hkept : (entries.filterMap fun e => (namedPath e).map fun named =>
        (named, versionLine e.1 e.2)).map
          (fun entry => if entry.1 = path then versionLine path version else entry.2)
      = (entries.filterMap (keptEntry path version)).map fun e => versionLine e.1 e.2 := by
    rw [List.map_filterMap, List.map_filterMap]
    congr 1
    funext e
    rw [keptEntry, Option.map_map, Option.map_map]
    congr 1
    funext named
    simp only [Function.comp_apply]
    split <;> rfl
  simp only [setFileVersion, parsed_versionLines h]
  rw [hfound, hkept]
  split
  · rw [List.append_nil, List.flatMap_map]
    rfl
  · rw [versionLines, List.flatMap_append, List.flatMap_append, List.flatMap_map]
    rfl

/-- **What `deleteFileAndVersion` does to the entries.** -/
theorem dropFileVersion_versionLines {entries : List (Bytes × Int32)} (h : OneLine entries)
    (path : Bytes) :
    dropFileVersion (versionLines entries) path
      = versionLines (entries.filter fun e => (namedPath e).any (· ≠ path)) := by
  simp only [dropFileVersion]
  rw [getlines_versionLines h, List.filter_map, List.flatMap_map, versionLines]
  congr 1
  refine List.filter_congr fun e _ => ?_
  simp only [Function.comp_apply, namedPath]
  cases parseLine (versionLine e.1 e.2) <;> rfl

end FileManager

/-! ### Paths that are words -/

/-- Every path is a word, so that `FileManager` reads it in its line. -/
def Words (entries : List (Bytes × Int32)) : Prop := ∀ e ∈ entries, IsWord e.1

theorem newline_not_mem_word {path : Bytes} (h : IsWord path) : newline ∉ path :=
  fun hmem => absurd (h.2 newline hmem) (by decide)

theorem Words.oneLine {entries : List (Bytes × Int32)} (h : Words entries) : OneLine entries :=
  fun e he => newline_not_mem_word (h e he)

/-- The versions that entries give: the last one of a path counts. -/
def savedVersions (entries : List (Bytes × Int32)) : StrMap Int32 :=
  entries.foldl (fun m e => m.insert e.1 e.2) ∅

namespace FileManager

theorem namedPath_word {e : Bytes × Int32} (h : IsWord e.1) : namedPath e = some e.1 := by
  rw [namedPath, parseLine_word h]
  rfl

theorem savedFilesVersion_versionLines {entries : List (Bytes × Int32)} (h : Words entries) :
    savedFilesVersion (versionLines entries) = savedVersions entries := by
  rw [savedFilesVersion, getlines_versionLines h.oneLine, List.filterMap_map, savedVersions]
  congr 1
  refine (List.filterMap_congr fun e he => ?_).trans List.filterMap_some
  exact parseLine_word (h e he) e.2

end FileManager

/-- The last entry of a path counts. -/
theorem getElem?_savedVersions (entries : List (Bytes × Int32)) (q : Bytes) :
    (savedVersions entries)[q]? = (entries.reverse.find? fun e => e.1 = q).map Prod.snd := by
  rw [savedVersions, List.foldl_eq_foldr_reverse]
  induction entries.reverse with
  | nil => simp
  | cons e l ih =>
    rw [List.foldr_cons, Std.ExtTreeMap.getElem?_insert, List.find?_cons]
    by_cases he : e.1 = q
    · simp [he]
    · simp [he, ih]

theorem savedVersions_replace (entries : List (Bytes × Int32)) (path : Bytes) (version : Int32)
    (hfound : ∃ e ∈ entries, e.1 = path) :
    savedVersions (entries.map fun e => if e.1 = path then (path, version) else e)
      = (savedVersions entries).insert path version := by
  refine Std.ExtTreeMap.ext_getElem? fun q => ?_
  rw [Std.ExtTreeMap.getElem?_insert, getElem?_savedVersions, getElem?_savedVersions,
    ← List.map_reverse, List.find?_map, Option.map_map]
  by_cases hq : path = q
  · subst hq
    -- the entry that is found is one of the path, and it has been replaced
    rw [if_pos Std.ReflOrd.compare_self, Option.map_eq_some_iff]
    have hsome : (entries.reverse.find? ((fun e => decide (e.1 = path)) ∘
        fun e => if e.1 = path then (path, version) else e)).isSome := by
      obtain ⟨e, he, hpath⟩ := hfound
      rw [List.find?_isSome]
      exact ⟨e, List.mem_reverse.mpr he, by simp [hpath]⟩
    obtain ⟨e, he⟩ := Option.isSome_iff_exists.mp hsome
    refine ⟨e, he, ?_⟩
    have hpath := List.find?_some he
    by_cases heq : e.1 = path
    · simp [heq]
    · simp [heq] at hpath
  · have hpred : ((fun e : Bytes × Int32 => decide (e.1 = q)) ∘
        fun e => if e.1 = path then (path, version) else e) = fun e => decide (e.1 = q) := by
      funext e
      by_cases heq : e.1 = path
      · simp [heq, hq]
      · simp [heq]
    rw [if_neg fun h => hq (Std.LawfulEqOrd.eq_of_compare h), hpred]
    cases hfind : entries.reverse.find? fun e => decide (e.1 = q) with
    | none => rfl
    | some e =>
      have heq : e.1 = q := by simpa using List.find?_some hfind
      have hne : e.1 ≠ path := fun h => hq (h.symm.trans heq)
      simp [hne]

theorem savedVersions_filter (entries : List (Bytes × Int32)) (path : Bytes) :
    savedVersions (entries.filter fun e => e.1 ≠ path) = (savedVersions entries).erase path := by
  refine Std.ExtTreeMap.ext_getElem? fun q => ?_
  rw [Std.ExtTreeMap.getElem?_erase, getElem?_savedVersions, getElem?_savedVersions,
    ← List.filter_reverse, List.find?_filter]
  by_cases hq : path = q
  · subst hq
    rw [if_pos Std.ReflOrd.compare_self, Option.map_eq_none_iff, List.find?_eq_none]
    intro e _
    simp
  · rw [if_neg fun h => hq (Std.LawfulEqOrd.eq_of_compare h)]
    congr 2
    funext e
    by_cases heq : e.1 = q
    · simp [heq, Ne.symm hq]
    · simp [heq]

namespace FileManager

/-- The lines of the path are replaced, or a new one comes last. -/
theorem setFileVersion_words_eq {entries : List (Bytes × Int32)} (h : Words entries) (path : Bytes)
    (version : Int32) :
    setFileVersion (versionLines entries) path version
      = versionLines ((entries.map fun e => if e.1 = path then (path, version) else e)
          ++ if ∃ e ∈ entries, e.1 = path then [] else [(path, version)]) := by
  have hkept : entries.filterMap (keptEntry path version)
      = entries.map fun e => if e.1 = path then (path, version) else e := by
    rw [← List.filterMap_eq_map]
    refine List.filterMap_congr fun e he => ?_
    rw [keptEntry, namedPath_word (h e he)]
    rfl
  have hany : entries.any (fun e => namedPath e = some path) = true
      ↔ ∃ e ∈ entries, e.1 = path := by
    rw [List.any_eq_true]
    refine exists_congr fun e => and_congr_right fun he => ?_
    simp [namedPath_word (h e he)]
  rw [setFileVersion_versionLines h.oneLine, hkept]
  by_cases hfound : ∃ e ∈ entries, e.1 = path
  · rw [if_pos (hany.mpr hfound), if_pos hfound]
  · rw [if_neg (mt hany.mp hfound), if_neg hfound]

/-- An entry afterwards is the written one, or an old one of another path. -/
theorem mem_replaced (entries : List (Bytes × Int32)) (path : Bytes) (version : Int32)
    (e : Bytes × Int32) :
    e ∈ (entries.map fun e => if e.1 = path then (path, version) else e)
        ++ (if ∃ e ∈ entries, e.1 = path then [] else [(path, version)])
      ↔ e = (path, version) ∨ (e ∈ entries ∧ e.1 ≠ path) := by
  rw [List.mem_append, List.mem_map]
  constructor
  · rintro (⟨e', he', rfl⟩ | hlast)
    · split
      · exact .inl rfl
      · rename_i hne
        exact .inr ⟨he', hne⟩
    · split at hlast
      · simp at hlast
      · exact .inl (List.mem_singleton.mp hlast)
  · rintro (rfl | ⟨he, hne⟩)
    · by_cases hfound : ∃ e ∈ entries, e.1 = path
      · obtain ⟨e, he, heq⟩ := hfound
        exact .inl ⟨e, he, if_pos heq⟩
      · rw [if_neg hfound]
        exact .inr (List.mem_singleton_self _)
    · exact .inl ⟨e, he, if_neg hne⟩

/-- **`setFileVersion` sets one version.** -/
theorem setFileVersion_words {entries : List (Bytes × Int32)} (h : Words entries) {path : Bytes}
    (hpath : IsWord path) (version : Int32) :
    ∃ entries', Words entries' ∧
      setFileVersion (versionLines entries) path version = versionLines entries' ∧
      savedVersions entries' = (savedVersions entries).insert path version := by
  rw [setFileVersion_words_eq h]
  by_cases hfound : ∃ e ∈ entries, e.1 = path
  · rw [if_pos hfound, List.append_nil]
    refine ⟨_, fun e he => ?_, rfl, savedVersions_replace entries path version hfound⟩
    obtain ⟨e', he', rfl⟩ := List.mem_map.mp he
    split
    · exact hpath
    · exact h e' he'
  · -- no entry is replaced, and the new one comes last
    have hsame : (entries.map fun e => if e.1 = path then (path, version) else e) = entries := by
      refine (List.map_congr_left fun e he => ?_).trans (List.map_id entries)
      exact if_neg fun heq => hfound ⟨e, he, heq⟩
    rw [if_neg hfound, hsame]
    refine ⟨_, fun e he => ?_, rfl, List.foldl_append⟩
    rcases List.mem_append.mp he with hmem | hlast
    · exact h e hmem
    · rw [List.mem_singleton.mp hlast]
      exact hpath

/-- The lines of the path are dropped. -/
theorem dropFileVersion_words_eq {entries : List (Bytes × Int32)} (h : Words entries)
    (path : Bytes) :
    dropFileVersion (versionLines entries) path
      = versionLines (entries.filter fun e => e.1 ≠ path) := by
  have hkept : (entries.filter fun e => (namedPath e).any (· ≠ path))
      = entries.filter fun e => e.1 ≠ path := by
    refine List.filter_congr fun e he => ?_
    rw [namedPath_word (h e he)]
    rfl
  rw [dropFileVersion_versionLines h.oneLine, hkept]

/-- **`deleteFileAndVersion` drops one version.** -/
theorem dropFileVersion_words {entries : List (Bytes × Int32)} (h : Words entries) (path : Bytes) :
    ∃ entries', Words entries' ∧
      dropFileVersion (versionLines entries) path = versionLines entries' ∧
      savedVersions entries' = (savedVersions entries).erase path :=
  ⟨_, fun e he => h e (List.mem_filter.mp he).1, dropFileVersion_words_eq h path,
    savedVersions_filter entries path⟩

end FileManager

end Squid
