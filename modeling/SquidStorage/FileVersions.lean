/-
The text of `.squid/fileVersions.txt`, and the two components that share it.

`FileManager` reads a line as two blank-separated words, `StateManager` splits
it at its last blank.  Both are given on the whole text of the file, so that
what one writes is what the other reads.

* `loadVersionMap_eq_some_iff` — a path has the version of the last line that
  names it;
* `getFileVersion_saveVersionMap` — what `FileManager` reads of the versions that
  `StateManager` saves: the version of a path that is one word, and no version
  for any other path.
-/
import SquidStorage.Formatter
import SquidStorage.LastWrite

open BigEndian TextStream LastWrite

namespace Squid

def newline : UInt8 := 0x0a

/-- The byte `#` that starts a comment line. -/
def hash : UInt8 := 0x23

/-- A path without a slash: `FileManager::getFiles` lists the storage root only,
not its subdirectories. -/
def TopLevel (p : Bytes) : Prop := 0x2f ∉ p

instance (p : Bytes) : Decidable (TopLevel p) := inferInstanceAs (Decidable (¬ _))

/-- The two sides of the last `sep` of a line (`line.rfind(sep)`). -/
def splitLast (sep : UInt8) : Bytes → Option (Bytes × Bytes)
  | [] => none
  | b :: bs =>
    match splitLast sep bs with
    | some (left, right) => some (b :: left, right)
    | none => if b = sep then some ([], bs) else none

/-- One entry of the file as both writers print it. -/
def versionLine (path : Bytes) (version : Int32) : Bytes := path ++ space :: toStr version

namespace FileManager

/-- `iss >> filePath >> version` on a line. -/
def parseLine (line : Bytes) : Option (Bytes × Int32) :=
  match extractWord line with
  | none => none
  | some (filePath, rest) =>
    match extractInt32 rest with
    | none => none
    | some (version, _) => some (filePath, version)

/-- The version that a line gives to the path. -/
def lineVersion (path line : Bytes) : Option Int32 :=
  (parseLine line).bind fun entry => if entry.1 = path then some entry.2 else none

/-- `FileManager::getFileVersion`: the first line that names the path. -/
def getFileVersion (text path : Bytes) : Int32 :=
  ((getlines newline text).findSome? (lineVersion path)).getD (-1)

/-- `FileManager::setFileVersion`: lines that do not parse are dropped. -/
def setFileVersion (text path : Bytes) (version : Int32) : Bytes :=
  let parsed := (getlines newline text).filterMap fun line =>
    (parseLine line).map fun entry => (entry.1, line)
  let kept := parsed.map fun entry =>
    if entry.1 = path then versionLine path version else entry.2
  let lines := if parsed.any fun entry => entry.1 = path then kept
    else kept ++ [versionLine path version]
  lines.flatMap fun line => line ++ [newline]

end FileManager

namespace StateManager

/-- One line of `StateManager::loadVersionMap`. -/
def parseLine (line : Bytes) : Option (Bytes × Int32) :=
  if line = [] ∨ line.head? = some hash then none
  else match splitLast space line with
    | none => none
    | some (path, rest) =>
      match stoi rest with
      | none => none
      | some version => some (path, version)

/-- `StateManager::loadVersionMap` on the text of the file, if there is one. -/
def loadVersionMap (file : Option Bytes) : StrMap Int32 :=
  match file with
  | none => ∅
  | some text =>
    ((getlines newline text).filterMap parseLine).foldl (fun m e => m.insert e.1 e.2) ∅

/-- `StateManager::saveVersionMap`. -/
def saveVersionMap (versionMap : StrMap Int32) : Bytes :=
  versionMap.toList.flatMap fun e => versionLine e.1 e.2 ++ [newline]

end StateManager

/-- The last well-formed line that names `path` gives it this version. -/
def Stored (file : Option Bytes) (path : Bytes) (version : Int32) : Prop :=
  ∃ text pre post, file = some text ∧
    (getlines newline text).filterMap StateManager.parseLine = pre ++ (path, version) :: post ∧
    ∀ e ∈ post, e.1 ≠ path

/-- **What `loadVersionMap` loads.** -/
theorem loadVersionMap_eq_some_iff (file : Option Bytes) (path : Bytes) (version : Int32) :
    (StateManager.loadVersionMap file)[path]? = some version ↔ Stored file path version := by
  cases file with
  | none => simp [StateManager.loadVersionMap, Stored]
  | some text =>
    set entries := (getlines newline text).filterMap StateManager.parseLine with hentries
    have hlook : (StateManager.loadVersionMap (some text))[path]?
        = replay (fun _ => none) (entries.map fun e => .put e.1 e.2) path := by
      rw [← look_empty, ← look_foldl_insert]
      rfl
    rw [hlook, replay_map_eq_some_iff]
    constructor
    · rintro ⟨pre, ⟨path', version'⟩, post, hsplit, hput, hpost⟩
      obtain ⟨rfl, rfl⟩ : path' = path ∧ version' = version := by
        simpa [Write.at] using hput
      exact ⟨text, pre, post, rfl, hsplit, by simpa [Write.at] using hpost⟩
    · rintro ⟨text', pre, post, htext, hsplit, hpost⟩
      obtain rfl := Option.some.inj htext
      exact ⟨pre, (path, version), post, hsplit, by simp [Write.at],
        by simpa [Write.at] using hpost⟩

/-! ### Lines -/

theorem splitLast_append {sep : UInt8} {right : Bytes} (h : sep ∉ right) (left : Bytes) :
    splitLast sep (left ++ sep :: right) = some (left, right) := by
  have hnone : ∀ bs : Bytes, sep ∉ bs → splitLast sep bs = none := by
    intro bs hbs
    induction bs with
    | nil => rfl
    | cons b bs ih =>
      obtain ⟨hb, hbs⟩ : sep ≠ b ∧ sep ∉ bs := by simpa using hbs
      simp only [splitLast, ih hbs, if_neg (Ne.symm hb)]
  induction left with
  | nil => simp [splitLast, hnone right h]
  | cons b bs ih => simp only [List.cons_append, splitLast, ih]

/-- What is split at its last `sep` is put together again. -/
theorem eq_of_splitLast {sep : UInt8} {line left right : Bytes}
    (h : splitLast sep line = some (left, right)) :
    line = left ++ sep :: right ∧ sep ∉ right := by
  have hnone : ∀ bs : Bytes, splitLast sep bs = none → sep ∉ bs := by
    intro bs hbs
    induction bs with
    | nil => simp
    | cons b bs ih =>
      rw [splitLast] at hbs
      cases hrest : splitLast sep bs with
      | some parts => simp [hrest] at hbs
      | none =>
        simp only [hrest, ite_eq_right_iff, reduceCtorEq, imp_false] at hbs
        rw [List.mem_cons, not_or]
        exact ⟨Ne.symm hbs, ih hrest⟩
  induction line generalizing left with
  | nil => simp [splitLast] at h
  | cons b bs ih =>
    rw [splitLast] at h
    cases hrest : splitLast sep bs with
    | none =>
      simp only [hrest] at h
      split at h
      · rename_i hb
        obtain ⟨rfl, rfl⟩ := Prod.mk.inj (Option.some.inj h)
        exact ⟨by rw [hb, List.nil_append], hnone bs hrest⟩
      · simp at h
    | some parts =>
      obtain ⟨left', right'⟩ := parts
      simp only [hrest] at h
      obtain ⟨rfl, rfl⟩ := Prod.mk.inj (Option.some.inj h)
      obtain ⟨rfl, hright⟩ := ih hrest
      exact ⟨rfl, hright⟩

theorem space_not_mem_toStr (v : Int32) : space ∉ toStr v := by
  intro h
  exact absurd (not_isSpace_of_mem_toStr h) (by decide)

/-! ### What one component writes and the other reads -/

/-- A path that keeps to its line and starts it. -/
def PlainPath (path : Bytes) : Prop :=
  newline ∉ path ∧ ∀ b ∈ path.head?, isSpace b = false

instance (path : Bytes) : Decidable (PlainPath path) := inferInstanceAs (Decidable (_ ∧ _))

theorem newline_not_mem_versionLine {path : Bytes} (hpath : newline ∉ path) (version : Int32) :
    newline ∉ versionLine path version := by
  intro h
  rcases List.mem_append.mp h with hmem | hmem
  · exact hpath hmem
  · rcases List.mem_cons.mp hmem with heq | htail
    · exact absurd heq (by decide)
    · exact absurd (not_isSpace_of_mem_toStr htail) (by decide)

theorem compare_append_lt (path : Bytes) {rest : Bytes} (hrest : rest ≠ []) :
    compare path (path ++ rest) = .lt := by
  induction path with
  | nil =>
    obtain ⟨b, bs, rfl⟩ := List.exists_cons_of_ne_nil hrest
    rfl
  | cons b bs ih =>
    show List.compareLex compare (b :: bs) (b :: (bs ++ rest)) = .lt
    rw [List.compareLex_cons_cons, Std.ReflOrd.compare_self]
    exact ih

namespace FileManager

/-- The line of a path that is a word is read back whole. -/
theorem parseLine_word {path : Bytes} (hpath : IsWord path) (version : Int32) :
    parseLine (versionLine path version) = some (path, version) := by
  have hblank : BlankStart (space :: toStr version) := fun b hb => by
    obtain rfl : space = b := by simpa using hb
    decide
  have hint : extractInt32 (toStr version) = some (version, []) := by
    rw [← List.append_nil (toStr version)]
    exact extractInt32_toStr version (by simp)
  simp only [parseLine, versionLine, extractWord_append hpath hblank, extractInt32_space, hint]

theorem lineVersion_word {path : Bytes} (hpath : IsWord path) (version : Int32) :
    lineVersion path (versionLine path version) = some version := by
  rw [lineVersion, parseLine_word hpath, Option.bind_some, if_pos rfl]

/-- The word that a line starts with. -/
theorem extractWord_versionLine {path : Bytes} (hpath : PlainPath path) (hne : path ≠ [])
    (version : Int32) :
    ∃ rest, extractWord (versionLine path version)
      = some (path.takeWhile fun b => !isSpace b, rest) := by
  obtain ⟨c, cs, rfl⟩ := List.exists_cons_of_ne_nil hne
  have hc : isSpace c = false := hpath.2 c rfl
  have hstop : (space :: toStr version).takeWhile (fun b => !isSpace b) = [] := by
    simp [space, isSpace]
  -- the blank after the path ends the word at the latest
  have htake : (versionLine (c :: cs) version).takeWhile (fun b => !isSpace b)
      = (c :: cs).takeWhile fun b => !isSpace b := by
    rw [versionLine, List.takeWhile_append, hstop, List.append_nil]
    split
    · rename_i hlen
      exact ((List.takeWhile_prefix _).eq_of_length hlen).symm
    · rfl
  have hdrop : (versionLine (c :: cs) version).dropWhile isSpace
      = versionLine (c :: cs) version := by
    simp [versionLine, hc]
  have hword : (c :: cs).takeWhile (fun b => !isSpace b) ≠ [] := by simp [hc]
  simp only [extractWord, hdrop, htake, if_neg hword]
  exact ⟨_, rfl⟩

/-- A line gives a version only to the first word of its path. -/
theorem prefix_of_lineVersion {path key : Bytes} {version u : Int32} (hkey : PlainPath key)
    (h : lineVersion path (versionLine key version) = some u) :
    IsWord path ∧ ∃ rest, key = path ++ rest := by
  obtain ⟨entry, hentry, hif⟩ := Option.bind_eq_some_iff.mp h
  have hpath : entry.1 = path := by
    by_contra hne
    simp [hne] at hif
  by_cases hnil : key = []
  · -- the line of the empty path is a blank and one word: it has no version
    subst hnil
    have hword : IsWord (toStr version) := by
      refine ⟨?_, fun b hb => not_isSpace_of_mem_toStr hb⟩
      rw [toStr]
      split
      · simp
      · exact decimal_ne_nil _
    have hextract : extractWord (versionLine [] version) = some (toStr version, []) := by
      have hend : BlankStart [] := by simp [BlankStart]
      have h := extractWord_append hword hend
      simpa [extractWord, versionLine, space, isSpace] using h
    simp [parseLine, hextract, extractInt32, scanSign] at hentry
  · obtain ⟨rest, hextract⟩ := extractWord_versionLine hkey hnil version
    have hfirst : entry.1 = key.takeWhile fun b => !isSpace b := by
      simp only [parseLine, hextract] at hentry
      split at hentry
      · simp at hentry
      · rw [← Option.some.inj hentry]
    have hwordkey : key.takeWhile (fun b => !isSpace b) ≠ [] := by
      obtain ⟨c, cs, rfl⟩ := List.exists_cons_of_ne_nil hnil
      simp [hkey.2 c rfl]
    rw [← hpath, hfirst]
    refine ⟨⟨hwordkey, fun b hb => ?_⟩, _, (List.takeWhile_append_dropWhile).symm⟩
    simpa using List.mem_takeWhile_imp hb

/-- **What `FileManager` reads of the versions that `StateManager` saves.** -/
theorem getFileVersion_saveVersionMap (versionMap : StrMap Int32)
    (hplain : ∀ path v, versionMap[path]? = some v → PlainPath path) {path : Bytes} {v : Int32}
    (hv : versionMap[path]? = some v) :
    getFileVersion (StateManager.saveVersionMap versionMap) path
      = if IsWord path then v else -1 := by
  have hplain' : ∀ e ∈ versionMap.toList, PlainPath e.1 := fun e he =>
    hplain e.1 e.2 (Std.ExtTreeMap.mem_toList_iff_getElem?_eq_some.mp he)
  have hlines : getlines newline (StateManager.saveVersionMap versionMap)
      = versionMap.toList.map fun e => versionLine e.1 e.2 :=
    getlines_flatMap _ _ fun e he => newline_not_mem_versionLine (hplain' e he).1 e.2
  have hmem : (path, v) ∈ versionMap.toList := Std.ExtTreeMap.mem_toList_iff_getElem?_eq_some.mpr hv
  rw [getFileVersion, hlines, List.findSome?_map]
  cases hfind : versionMap.toList.findSome? (lineVersion path ∘ fun e => versionLine e.1 e.2) with
  | none =>
    -- not even its own line names the path, so it is not one word
    rw [List.findSome?_eq_none_iff] at hfind
    have hnot : ¬ IsWord path := fun hword => by
      have h := hfind (path, v) hmem
      rw [Function.comp_apply, lineVersion_word hword] at h
      simp at h
    rw [if_neg hnot, Option.getD_none]
  | some u =>
    obtain ⟨l₁, e, l₂, hsplit, hu, hl₁⟩ := List.findSome?_eq_some_iff.mp hfind
    have he : e ∈ versionMap.toList := by simp [hsplit]
    obtain ⟨hword, rest, hrest⟩ := prefix_of_lineVersion (hplain' e he) hu
    rw [if_pos hword, Option.getD_some]
    by_cases hnil : rest = []
    · -- the line of the path itself
      have hkey : e.1 = path := by rw [hrest, hnil, List.append_nil]
      have he2 : versionMap[e.1]? = some e.2 := Std.ExtTreeMap.mem_toList_iff_getElem?_eq_some.mp he
      rw [hkey, hv] at he2
      rw [Function.comp_apply, hkey, lineVersion_word hword] at hu
      rw [← Option.some.inj hu, ← Option.some.inj he2]
    · -- a longer path comes later in the file than the path itself
      have hlt : compare path e.1 = .lt := by
        rw [hrest]
        exact compare_append_lt path hnil
      have hown := hl₁ _ (mem_before_of_lt hsplit hmem hlt)
      rw [Function.comp_apply, lineVersion_word hword] at hown
      simp at hown

end FileManager

end Squid
