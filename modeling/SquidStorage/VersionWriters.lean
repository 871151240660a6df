/-
The two components that write `.squid/fileVersions.txt`, one after the other.

`StateManager` splits a line at its last blank; `FileManager` takes its first word for
the path and the number after it for the version, and rewrites the file from the lines
it could read.  A path of several words is one entry to the first and no entry, or an
entry of another path, to the second.

* `Holds` — the lines of the file are the entries of a map, and its paths are words;
* `Holds.agrees` — then both components read the map;
* `version_writers_agree` — that is so throughout every run whose paths are words, and a
  run in which both components read the map throughout writes no other path, unless with
  the version that stands for an absent one;
* `version_writers_differ` — a path with a blank is not found, and then lost.
-/
import SquidStorage.CrashAtomicity
import SquidStorage.PersistedMaps

open BigEndian TextStream

namespace Squid

/-! ### Calls -/

/-- The calls that write the version file. -/
inductive VersionCall where
  | setFileVersion (path : Bytes) (version : Int32)
  | saveVersionMap (versionMap : StrMap Int32)

namespace VersionCall

/-- The text afterwards. -/
def run (text : Bytes) : VersionCall → Bytes
  | setFileVersion path version => FileManager.setFileVersion text path version
  | saveVersionMap versionMap => StateManager.saveVersionMap versionMap

/-- The same write to a map. -/
def apply (m : StrMap Int32) : VersionCall → StrMap Int32
  | setFileVersion path version => m.insert path version
  | saveVersionMap versionMap => versionMap

/-- The entries that a call writes. -/
def written : VersionCall → List (Bytes × Int32)
  | setFileVersion path version => [(path, version)]
  | saveVersionMap versionMap => versionMap.toList

/-- The paths are not empty, have no newline and do not start with `#`. -/
def Legal (c : VersionCall) : Prop := ∀ e ∈ c.written, e.1 ≠ [] ∧ LegalPath e.1

/-- The condition: every path is one word. -/
def OneWord (c : VersionCall) : Prop := Words c.written

instance (c : VersionCall) : Decidable c.Legal :=
  inferInstanceAs (Decidable (∀ e ∈ c.written, _))

instance (c : VersionCall) : Decidable c.OneWord :=
  inferInstanceAs (Decidable (∀ e ∈ c.written, IsWord e.1))

/-- What is written is in the map afterwards. -/
theorem getElem?_apply {c : VersionCall} {e : Bytes × Int32} (he : e ∈ c.written)
    (m : StrMap Int32) : (c.apply m)[e.1]? = some e.2 := by
  cases c with
  | setFileVersion path version =>
    obtain rfl := List.mem_singleton.mp he
    exact Std.ExtTreeMap.getElem?_insert_self
  | saveVersionMap versionMap => exact Std.ExtTreeMap.mem_toList_iff_getElem?_eq_some.mp he

end VersionCall

/-- The file after some calls, which was empty before. -/
def versionFileAfter (calls : List VersionCall) : Bytes := calls.foldl VersionCall.run []

/-- The map after the same writes. -/
def versionMapAfter (calls : List VersionCall) : StrMap Int32 := calls.foldl VersionCall.apply ∅

/-- Both components read the map. -/
def ReadersAgree (text : Bytes) (m : StrMap Int32) : Prop :=
  StateManager.loadVersionMap (some text) = m ∧
    ∀ path, path ≠ [] → LegalPath path →
      FileManager.getFileVersion text path = m[path]?.getD (-1)

/-! ### Paths that are words -/

/-- The lines of the file are the entries of the map.  (A line may be there twice.) -/
def Holds (text : Bytes) (m : StrMap Int32) : Prop :=
  ∃ entries, text = versionLines entries ∧ Words entries ∧
    (∀ e ∈ entries, e.1.head? ≠ some hash) ∧ ∀ path v, (path, v) ∈ entries ↔ m[path]? = some v

theorem find_of_entries {l : List (Bytes × Int32)} {m : StrMap Int32}
    (h : ∀ path v, (path, v) ∈ l ↔ m[path]? = some v) (path : Bytes) :
    (l.find? fun e => e.1 = path).map Prod.snd = m[path]? := by
  cases hfind : l.find? fun e => e.1 = path with
  | some e =>
    have hpath : e.1 = path := by simpa using List.find?_some hfind
    exact ((h path e.2).mp (hpath ▸ List.mem_of_find?_eq_some hfind)).symm
  | none =>
    rw [List.find?_eq_none] at hfind
    cases hv : m[path]? with
    | none => rfl
    | some v =>
      have hne := hfind (path, v) ((h path v).mpr hv)
      simp at hne

/-- What `StateManager` loads from lines that are no comments. -/
theorem load_versionLines {entries : List (Bytes × Int32)} (h : OneLine entries)
    (hhash : ∀ e ∈ entries, e.1.head? ≠ some hash) :
    StateManager.loadVersionMap (some (versionLines entries)) = savedVersions entries := by
  have htext : versionLines entries = linesText (entries.map fun e => versionLine e.1 e.2) := by
    rw [versionLines, linesText, List.flatMap_map]
  have hparse : loadedEntries (entries.map fun e => versionLine e.1 e.2) = entries := by
    rw [loadedEntries, List.filterMap_map]
    exact (List.filterMap_congr fun e he =>
      StateManager.parseLine_versionLine (hhash e he) e.2).trans List.filterMap_some
  rw [htext, load_linesText, hparse]
  intro line hline
  obtain ⟨e, he, rfl⟩ := List.mem_map.mp hline
  exact h.lines e he

/-- What `FileManager` reads: the first line of the path. -/
theorem FileManager.getFileVersion_words {entries : List (Bytes × Int32)} (h : Words entries)
    (path : Bytes) :
    getFileVersion (versionLines entries) path
      = ((entries.find? fun e => e.1 = path).map Prod.snd).getD (-1) := by
  have hline : ∀ e ∈ entries, lineVersion path (versionLine e.1 e.2)
      = if e.1 = path then some e.2 else none := by
    intro e he
    rw [lineVersion, parseLine_word (h e he)]
    rfl
  rw [getFileVersion, getlines_versionLines h.oneLine, List.findSome?_map]
  congr 1
  induction entries with
  | nil => rfl
  | cons e entries ih =>
    have hrest := ih (fun e he => h e (List.mem_cons_of_mem _ he))
      fun e he => hline e (List.mem_cons_of_mem _ he)
    rw [List.findSome?_cons, Function.comp_apply, hline e List.mem_cons_self, List.find?_cons]
    by_cases he : e.1 = path
    · simp [he]
    · simpa [he] using hrest

/-- **Both components read the map.** -/
theorem Holds.agrees {text : Bytes} {m : StrMap Int32} (h : Holds text m) :
    ReadersAgree text m := by
  obtain ⟨entries, rfl, hwords, hhash, hgraph⟩ := h
  constructor
  · rw [load_versionLines hwords.oneLine hhash]
    refine Std.ExtTreeMap.ext_getElem? fun path => ?_
    rw [getElem?_savedVersions]
    exact find_of_entries (fun path v => by rw [List.mem_reverse]; exact hgraph path v) path
  · intro path _ _
    rw [FileManager.getFileVersion_words hwords, find_of_entries hgraph]

theorem holds_empty : Holds [] ∅ := ⟨[], rfl, by simp [Words], by simp, by simp⟩

theorem holds_saveVersionMap {m : StrMap Int32}
    (h : ∀ e ∈ m.toList, IsWord e.1 ∧ e.1.head? ≠ some hash) :
    Holds (StateManager.saveVersionMap m) m :=
  ⟨m.toList, rfl, fun e he => (h e he).1, fun e he => (h e he).2,
    fun _ _ => Std.ExtTreeMap.mem_toList_iff_getElem?_eq_some⟩

theorem Holds.setFileVersion {text : Bytes} {m : StrMap Int32} (h : Holds text m) {path : Bytes}
    (hword : IsWord path) (hpath : path.head? ≠ some hash) (version : Int32) :
    Holds (FileManager.setFileVersion text path version) (m.insert path version) := by
  obtain ⟨entries, rfl, hwords, hhash, hgraph⟩ := h
  rw [FileManager.setFileVersion_words_eq hwords]
  set entries' := (entries.map fun e => if e.1 = path then (path, version) else e)
    ++ if ∃ e ∈ entries, e.1 = path then [] else [(path, version)] with hentries
  have hmem : ∀ e, e ∈ entries' ↔ e = (path, version) ∨ (e ∈ entries ∧ e.1 ≠ path) :=
    FileManager.mem_replaced entries path version
  refine ⟨entries', rfl, fun e he => ?_, fun e he => ?_, fun p v => ?_⟩
  · rcases (hmem e).mp he with rfl | ⟨hold, -⟩
    · exact hword
    · exact hwords e hold
  · rcases (hmem e).mp he with rfl | ⟨hold, -⟩
    · exact hpath
    · exact hhash e hold
  · rw [hmem, hgraph]
    simp only [Std.ExtTreeMap.getElem?_insert, Std.LawfulEqCmp.compare_eq_iff_eq, Prod.mk.injEq]
    by_cases hp : path = p
    · subst hp
      simp [eq_comm]
    · simp [hp, Ne.symm hp]

/-- **One call** on paths that are words. -/
theorem Holds.run {text : Bytes} {m : StrMap Int32} (h : Holds text m) {c : VersionCall}
    (hlegal : c.Legal) (hword : c.OneWord) : Holds (c.run text) (c.apply m) := by
  cases c with
  | setFileVersion path version =>
    have hpath := hlegal (path, version) (List.mem_singleton_self _)
    exact h.setFileVersion (hword (path, version) (List.mem_singleton_self _)) hpath.2.2 version
  | saveVersionMap versionMap =>
    exact holds_saveVersionMap fun e he => ⟨hword e he, (hlegal e he).2.2⟩

/-- **All calls** on paths that are words. -/
theorem holds_after {calls : List VersionCall} (hlegal : ∀ c ∈ calls, c.Legal)
    (hword : ∀ c ∈ calls, c.OneWord) : Holds (versionFileAfter calls) (versionMapAfter calls) := by
  have hrun : ∀ (calls : List VersionCall) (text : Bytes) (m : StrMap Int32), Holds text m →
      (∀ c ∈ calls, c.Legal) → (∀ c ∈ calls, c.OneWord) →
      Holds (calls.foldl VersionCall.run text) (calls.foldl VersionCall.apply m) := by
    intro calls
    induction calls with
    | nil => exact fun text m h _ _ => h
    | cons c calls ih =>
      intro text m h hlegal hword
      exact ih _ _ (h.run (hlegal c List.mem_cons_self) (hword c List.mem_cons_self))
        (fun c hc => hlegal c (List.mem_cons_of_mem _ hc))
        fun c hc => hword c (List.mem_cons_of_mem _ hc)
  exact hrun calls [] ∅ holds_empty hlegal hword

/-! ### Other paths -/

/-- `FileManager` finds no version of a path that is not one word. -/
theorem FileManager.getFileVersion_of_not_word {path : Bytes} (h : ¬ IsWord path) (text : Bytes) :
    getFileVersion text path = -1 := by
  have hnone : ∀ line, lineVersion path line = none := by
    intro line
    by_contra hne
    obtain ⟨v, hv⟩ := Option.ne_none_iff_exists'.mp hne
    obtain ⟨entry, hentry, hif⟩ := Option.bind_eq_some_iff.mp hv
    obtain ⟨heq, -⟩ := Option.ite_none_right_eq_some.mp hif
    -- the path of a line that parses is the word that was read
    rw [parseLine] at hentry
    cases hextract : extractWord line with
    | none => simp [hextract] at hentry
    | some parts =>
      have hfirst : entry.1 = parts.1 := by
        simp only [hextract] at hentry
        split at hentry
        · simp at hentry
        · rw [← Option.some.inj hentry]
      rw [← heq, hfirst] at h
      exact h (isWord_of_extractWord hextract)
  rw [getFileVersion, List.findSome?_eq_none_iff.mpr fun line _ => hnone line, Option.getD_none]

/-- **The two writers of the version file.** -/
theorem version_writers_agree (calls : List VersionCall) (hlegal : ∀ c ∈ calls, c.Legal) :
    ((∀ c ∈ calls, c.OneWord) → ∀ pre, pre <+: calls →
      ReadersAgree (versionFileAfter pre) (versionMapAfter pre)) ∧
    ((∀ pre, pre <+: calls → ReadersAgree (versionFileAfter pre) (versionMapAfter pre)) →
      ∀ c ∈ calls, ∀ e ∈ c.written, IsWord e.1 ∨ e.2 = -1) := by
  constructor
  · intro hword pre hpre
    exact (holds_after (fun c hc => hlegal c (hpre.subset hc))
      fun c hc => hword c (hpre.subset hc)).agrees
  · intro hagree c hc e he
    by_contra hnot
    rw [not_or] at hnot
    obtain ⟨pre, post, rfl⟩ := List.append_of_mem hc
    -- right after the call that writes the path
    have hread := (hagree (pre ++ [c]) ⟨post, by simp⟩).2 e.1 (hlegal c hc e he).1
      (hlegal c hc e he).2
    have hmap : versionMapAfter (pre ++ [c]) = c.apply (versionMapAfter pre) := by
      simp [versionMapAfter]
    rw [FileManager.getFileVersion_of_not_word hnot.1, hmap, VersionCall.getElem?_apply he,
      Option.getD_some] at hread
    exact hnot.2 hread.symm

/-- Three writes of one-word paths, two of them by `FileManager`. -/
theorem version_writers_agree_words :
    let saved : StrMap Int32 := (∅ : StrMap Int32).insert [97] 2 |>.insert [98] 3
    let calls : List VersionCall :=
      [.setFileVersion [97] 1, .saveVersionMap saved, .setFileVersion [97] 4]
    (∀ c ∈ calls, c.Legal) ∧ ReadersAgree (versionFileAfter calls) (versionMapAfter calls) ∧
      (versionMapAfter calls)[([97] : Bytes)]? = some 4 := by
  intro saved calls
  have hlegal : ∀ c ∈ calls, c.Legal := by decide
  refine ⟨hlegal, ?_, by decide⟩
  exact (version_writers_agree calls hlegal).1 (by decide) calls (List.prefix_refl _)

/-- The versions of `a b` and `c` are saved, and then that of `c` is set: `FileManager`
does not find `a b`, and `StateManager` does not load it any more. -/
theorem version_writers_differ :
    let saved : VersionCall :=
      .saveVersionMap ((∅ : StrMap Int32).insert [97, 32, 98] 3 |>.insert [99] 1)
    let calls := [saved, .setFileVersion [99] 2]
    (∀ c ∈ calls, c.Legal) ∧
      FileManager.getFileVersion (versionFileAfter [saved]) [97, 32, 98] = -1 ∧
      (versionMapAfter [saved])[([97, 32, 98] : Bytes)]? = some 3 ∧
      [97, 32, 98] ∉ StateManager.loadVersionMap (some (versionFileAfter calls)) ∧
      (versionMapAfter calls)[([97, 32, 98] : Bytes)]? = some 3 := by
  decide

end Squid
