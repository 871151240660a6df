/-
The directories of the mount (`SquidFS::listChildren`, `SquidFS::isKnownDir`).

There is a directory where one was made (`createdDirs_`) and where some known file has it
on its path.  Listing a directory and asking whether a path is one are two scans over the
version map with conditions of their own.

* `mem_listChildren_iff`, `isKnownDir_iff` — what the scans find, without substrings;
* `dir_listed_iff`, `file_listed_iff` — a directory lists the directories and the files
  that are in it;
* `listing_agrees` — the same for a mount without made directories, with the test for a
  directory that has anything in it.
-/
import SquidStorage.LastWrite
import SquidStorage.PathNames
import SquidStorage.SquidFS

open BigEndian PathNames

namespace Squid

/-- The byte `/`. -/
def slash : UInt8 := 0x2f

/-- `SquidFS` with the directories that were made. -/
structure FuseMount extends SquidFS where
  createdDirs : StrSet := ∅

/-- `s.insert(c)` where there is something to insert. -/
def insertSome (s : StrSet) : Option Bytes → StrSet
  | none => s
  | some c => s.insert c

/-- One pass of the first loop of `listChildren`. -/
def dirChild (dirRel d : Bytes) : Option Bytes :=
  let start := under slash dirRel
  if d = dirRel then none
  else if start ≠ [] ∧ d.take start.length ≠ start then none
  else
    let rest := d.drop start.length
    if slash ∈ rest then none else some (rest ++ [slash])

/-- One pass of the second loop: a file, or the first component of a path further down
with a slash behind it. -/
def fileChild (dirRel filePath : Bytes) : Option Bytes :=
  let start := under slash dirRel
  if start ≠ [] ∧ filePath.take start.length ≠ start then none
  else
    let rest := filePath.drop start.length
    if slash ∈ rest then some (rest.takeWhile (· ≠ slash) ++ [slash]) else some rest

namespace FuseMount

/-- `SquidFS::listChildren`. -/
def listChildren (m : FuseMount) (dirRel : Bytes) : StrSet :=
  let children := m.createdDirs.toList.foldl (fun s d => insertSome s (dirChild dirRel d)) ∅
  m.versions.toList.foldl (fun s e => insertSome s (fileChild dirRel e.1)) children

/-- `SquidFS::isKnownDir`. -/
def isKnownDir (m : FuseMount) (dirRel : Bytes) : Bool :=
  m.createdDirs.contains dirRel ||
    m.versions.toList.any fun e =>
      let start := dirRel ++ [slash]
      start.length < e.1.length && e.1.take start.length == start

end FuseMount

/-! ### The scans -/

theorem mem_foldl_insertSome {α : Type} (f : α → Option Bytes) (l : List α) (s : StrSet)
    (c : Bytes) :
    c ∈ l.foldl (fun s x => insertSome s (f x)) s ↔ c ∈ s ∨ ∃ x ∈ l, f x = some c := by
  induction l generalizing s with
  | nil => simp
  | cons x l ih =>
    rw [List.foldl_cons, ih]
    cases hx : f x with
    | none => simp [insertSome, hx]
    | some c' =>
      simp only [insertSome, Std.ExtTreeSet.mem_insert, Std.LawfulEqCmp.compare_eq_iff_eq,
        List.exists_mem_cons_iff, hx, Option.some.injEq]
      tauto

theorem isEmpty_eq_false_iff {s : StrSet} : s.isEmpty = false ↔ ∃ c, c ∈ s := by
  rw [← Bool.not_eq_true, Std.ExtTreeSet.isEmpty_iff, Std.ExtTreeSet.eq_empty_iff_forall_not_mem,
    not_forall_not]

theorem take_length_eq_iff {start p : Bytes} :
    p.take start.length = start ↔ ∃ rest, p = start ++ rest := by
  rw [eq_comm, ← List.prefix_iff_eq_take]
  exact ⟨fun ⟨rest, h⟩ => ⟨rest, h.symm⟩, fun ⟨rest, h⟩ => ⟨rest, h.symm⟩⟩

/-- The test that both loops start with: the path is not below the directory. -/
theorem not_under_iff {dirRel p : Bytes} :
    ¬ (under slash dirRel ≠ [] ∧ p.take (under slash dirRel).length ≠ under slash dirRel)
      ↔ ∃ rest, p = under slash dirRel ++ rest := by
  rw [not_and_not_right, take_length_eq_iff]
  constructor
  · intro h
    by_cases hroot : under slash dirRel = []
    · exact ⟨p, by rw [hroot, List.nil_append]⟩
    · exact h hroot
  · exact fun h _ => h

theorem dirChild_eq_some_iff {dirRel d c : Bytes} :
    dirChild dirRel d = some c ↔ d ≠ dirRel ∧ ∃ rest, d = under slash dirRel ++ rest ∧
      slash ∉ rest ∧ c = rest ++ [slash] := by
  simp only [dirChild]
  by_cases hself : d = dirRel
  · simp [hself]
  · rw [if_neg hself]
    constructor
    · intro h
      split at h
      · simp at h
      · rename_i hunder
        obtain ⟨rest, rfl⟩ := not_under_iff.mp hunder
        rw [List.drop_left] at h
        split at h
        · simp at h
        · rename_i hrest
          exact ⟨hself, rest, rfl, hrest, (Option.some.inj h).symm⟩
    · rintro ⟨-, rest, rfl, hrest, rfl⟩
      rw [if_neg (not_under_iff.mpr ⟨rest, rfl⟩), List.drop_left, if_neg hrest]

theorem takeWhile_slash {name more : Bytes} (h : slash ∉ name) :
    (name ++ slash :: more).takeWhile (· ≠ slash) = name := by
  rw [List.takeWhile_append_of_pos]
  · simp
  · intro b hb
    rw [decide_eq_true_eq]
    rintro rfl
    exact h hb

theorem fileChild_eq_some_iff {dirRel filePath c : Bytes} :
    fileChild dirRel filePath = some c ↔ ∃ rest, filePath = under slash dirRel ++ rest ∧
      ((slash ∉ rest ∧ c = rest) ∨
        ∃ name more, slash ∉ name ∧ rest = name ++ slash :: more ∧ c = name ++ [slash]) := by
  simp only [fileChild]
  constructor
  · intro h
    split at h
    · simp at h
    · rename_i hunder
      obtain ⟨rest, rfl⟩ := not_under_iff.mp hunder
      rw [List.drop_left] at h
      refine ⟨rest, rfl, ?_⟩
      split at h
      · rename_i hrest
        obtain ⟨name, more, rfl, hname⟩ := List.eq_append_cons_of_mem hrest
        rw [takeWhile_slash hname] at h
        exact Or.inr ⟨name, more, hname, rfl, (Option.some.inj h).symm⟩
      · rename_i hrest
        exact Or.inl ⟨hrest, (Option.some.inj h).symm⟩
  · rintro ⟨rest, rfl, hrest⟩
    rw [if_neg (not_under_iff.mpr ⟨rest, rfl⟩), List.drop_left]
    rcases hrest with ⟨hrest, rfl⟩ | ⟨name, more, hname, rfl, rfl⟩
    · rw [if_neg hrest]
    · rw [if_pos (List.mem_append_right _ List.mem_cons_self), takeWhile_slash hname]

namespace FuseMount

variable {m : FuseMount} {d name : Bytes}

theorem mem_listChildren_iff {c : Bytes} :
    c ∈ m.listChildren d
      ↔ (∃ d' ∈ m.createdDirs, dirChild d d' = some c) ∨
        ∃ f ∈ m.versions, fileChild d f = some c := by
  rw [listChildren, mem_foldl_insertSome, mem_foldl_insertSome]
  simp only [Std.ExtTreeSet.mem_toList, Std.ExtTreeSet.not_mem_empty, false_or]
  refine or_congr_right ⟨?_, ?_⟩
  · rintro ⟨e, he, hchild⟩
    exact ⟨e.1, LastWrite.mem_of_entry
      (Std.ExtTreeMap.mem_toList_iff_getElem?_eq_some.mp he), hchild⟩
  · rintro ⟨f, hf, hchild⟩
    obtain ⟨v, hv⟩ := LastWrite.mem_iff_exists_entry.mp hf
    exact ⟨(f, v), Std.ExtTreeMap.mem_toList_iff_getElem?_eq_some.mpr hv, hchild⟩

theorem isKnownDir_iff :
    m.isKnownDir d = true
      ↔ d ∈ m.createdDirs ∨ ∃ f ∈ m.versions, ∃ more, more ≠ [] ∧ f = d ++ slash :: more := by
  rw [isKnownDir, Bool.or_eq_true, Std.ExtTreeSet.contains_iff_mem, List.any_eq_true]
  refine or_congr_right ⟨?_, ?_⟩
  · rintro ⟨e, he, htest⟩
    simp only [Bool.and_eq_true, decide_eq_true_eq, beq_iff_eq] at htest
    obtain ⟨hlong, hstart⟩ := htest
    obtain ⟨more, hmore⟩ := take_length_eq_iff.mp hstart
    refine ⟨e.1, LastWrite.mem_of_entry
      (Std.ExtTreeMap.mem_toList_iff_getElem?_eq_some.mp he), more, ?_, ?_⟩
    · rintro rfl
      rw [hmore, List.append_nil] at hlong
      omega
    · rw [hmore, List.append_assoc, List.singleton_append]
  · rintro ⟨f, hf, more, hne, rfl⟩
    obtain ⟨v, hv⟩ := LastWrite.mem_iff_exists_entry.mp hf
    refine ⟨(d ++ slash :: more, v), Std.ExtTreeMap.mem_toList_iff_getElem?_eq_some.mpr hv, ?_⟩
    have hlen : 0 < more.length := List.length_pos_iff.mpr hne
    have hsplit : d ++ slash :: more = (d ++ [slash]) ++ more := by
      rw [List.append_assoc, List.singleton_append]
    simp only [Bool.and_eq_true, decide_eq_true_eq, beq_iff_eq]
    refine ⟨?_, take_length_eq_iff.mpr ⟨more, hsplit⟩⟩
    simp only [List.length_append, List.length_cons, List.length_nil]
    omega

/-! ### What a directory lists -/

/-- A directory lists the files that are in it. -/
theorem file_listed_iff (hname : slash ∉ name) :
    name ∈ m.listChildren d ↔ join slash d name ∈ m.versions := by
  rw [mem_listChildren_iff]
  constructor
  · rintro (⟨d', -, hchild⟩ | ⟨f, hf, hchild⟩)
    · -- what the first loop finds ends in a slash
      obtain ⟨-, rest, -, -, rfl⟩ := dirChild_eq_some_iff.mp hchild
      exact absurd (List.mem_append_right _ (List.mem_singleton_self slash)) hname
    · obtain ⟨rest, rfl, ⟨-, rfl⟩ | ⟨n, more, -, -, rfl⟩⟩ := fileChild_eq_some_iff.mp hchild
      · exact hf
      · exact absurd (List.mem_append_right _ (List.mem_singleton_self slash)) hname
  · intro hf
    exact Or.inr ⟨_, hf, fileChild_eq_some_iff.mpr ⟨name, rfl, Or.inl ⟨hname, rfl⟩⟩⟩

/-- The paths of the known files end in a name. -/
def NoTrailingSlash (m : FuseMount) : Prop := ∀ dir, dir ++ [slash] ∉ m.versions

theorem noTrailingSlash_of_normalised (h : ∀ f ∈ m.versions, Normalised slash f) :
    m.NoTrailingSlash := by
  intro dir hdir
  exact (normalised_append_iff.mp (h _ hdir)).2.ne_nil rfl

/-- A directory lists the directories that are in it, made or not. -/
theorem dir_listed_iff (hkeys : m.NoTrailingSlash) (hname : IsComponent slash name) :
    name ++ [slash] ∈ m.listChildren d ↔ m.isKnownDir (join slash d name) = true := by
  rw [mem_listChildren_iff, isKnownDir_iff]
  constructor
  · rintro (⟨d', hd', hchild⟩ | ⟨f, hf, hchild⟩)
    · obtain ⟨-, rest, rfl, -, heq⟩ := dirChild_eq_some_iff.mp hchild
      obtain rfl := List.append_cancel_right heq
      exact Or.inl hd'
    · obtain ⟨rest, rfl, ⟨hrest, rfl⟩ | ⟨n, more, hn, rfl, heq⟩⟩ := fileChild_eq_some_iff.mp hchild
      · exact absurd (List.mem_append_right _ (List.mem_singleton_self slash)) hrest
      · obtain rfl := List.append_cancel_right heq
        refine Or.inr ⟨_, hf, more, ?_, ?_⟩
        · rintro rfl
          rw [← List.append_assoc] at hf
          exact hkeys _ hf
        · rw [join, List.append_assoc]
  · rintro (hd' | ⟨f, hf, more, -, rfl⟩)
    · refine Or.inl ⟨_, hd', dirChild_eq_some_iff.mpr ⟨?_, name, rfl, hname.2, rfl⟩⟩
      -- the path is longer than that of the directory
      intro heq
      have hlen := congrArg List.length heq
      have hpos : 0 < name.length := List.length_pos_iff.mpr hname.1
      rw [join, List.length_append, under] at hlen
      split at hlen
      · rename_i hroot
        rw [hroot] at hlen
        simp only [List.length_nil] at hlen
        omega
      · rw [List.length_append] at hlen
        omega
    · refine Or.inr ⟨_, hf, fileChild_eq_some_iff.mpr ⟨name ++ slash :: more, ?_, Or.inr ?_⟩⟩
      · rw [join, List.append_assoc]
      · exact ⟨name, more, hname.2, rfl, rfl⟩

/-- Without made directories, a directory other than the root is one that has something
in it. -/
theorem isKnownDir_iff_listed (hdirs : m.createdDirs = ∅) (hkeys : m.NoTrailingSlash)
    (hd : d ≠ []) : m.isKnownDir d = true ↔ (m.listChildren d).isEmpty = false := by
  have hnone : ∀ d', d' ∉ m.createdDirs := by
    rw [hdirs]
    exact fun d' => Std.ExtTreeSet.not_mem_empty
  rw [isKnownDir_iff, or_iff_right (hnone d), isEmpty_eq_false_iff]
  constructor
  · rintro ⟨f, hf, more, -, rfl⟩
    have hfile : ∃ c, fileChild d (d ++ slash :: more) = some c := by
      have hsplit : d ++ slash :: more = under slash d ++ more := by
        rw [under_of_ne_nil hd, List.append_assoc, List.singleton_append]
      by_cases hmore : slash ∈ more
      · obtain ⟨n, rest, rfl, hn⟩ := List.eq_append_cons_of_mem hmore
        exact ⟨_, fileChild_eq_some_iff.mpr ⟨_, hsplit, Or.inr ⟨n, rest, hn, rfl, rfl⟩⟩⟩
      · exact ⟨_, fileChild_eq_some_iff.mpr ⟨_, hsplit, Or.inl ⟨hmore, rfl⟩⟩⟩
    obtain ⟨c, hc⟩ := hfile
    exact ⟨c, mem_listChildren_iff.mpr (Or.inr ⟨_, hf, hc⟩)⟩
  · rintro ⟨c, hc⟩
    rcases mem_listChildren_iff.mp hc with ⟨d', hd', -⟩ | ⟨f, hf, hchild⟩
    · exact absurd hd' (hnone d')
    · obtain ⟨rest, rfl, -⟩ := fileChild_eq_some_iff.mp hchild
      rw [under_of_ne_nil hd] at hf
      refine ⟨_, hf, rest, ?_, ?_⟩
      · rintro rfl
        rw [List.append_nil] at hf
        exact hkeys d hf
      · rw [List.append_assoc, List.singleton_append]

/-- **Listing and directory test agree on implied directories.**  In a mount without made
directories whose version map has normalised paths, a directory lists the directories and
the files that are in it, and below the root a directory is what lists something. -/
theorem listing_agrees (m : FuseMount) (hdirs : m.createdDirs = ∅)
    (hkeys : ∀ f ∈ m.versions, Normalised slash f) (d : Bytes) :
    (∀ name, IsComponent slash name →
        (name ++ [slash] ∈ m.listChildren d ↔ m.isKnownDir (join slash d name) = true) ∧
        (name ∈ m.listChildren d ↔ join slash d name ∈ m.versions)) ∧
      (d ≠ [] → (m.isKnownDir d = true ↔ (m.listChildren d).isEmpty = false)) := by
  have hslash := noTrailingSlash_of_normalised hkeys
  refine ⟨fun name hname => ⟨?_, ?_⟩, fun hroot => ?_⟩
  · exact dir_listed_iff hslash hname
  · exact file_listed_iff hname.2
  · exact isKnownDir_iff_listed hdirs hslash hroot

/-- The files `a`, `ab/c` and `a/b`: the path `a` is a file and a directory. -/
def sampleMount : FuseMount :=
  { versions := (∅ : StrMap Int32).insert [97] 1 |>.insert [97, 98, 47, 99] 2
      |>.insert [97, 47, 98] 3 }

theorem listing_agrees_sample :
    ([97] ++ [slash] ∈ sampleMount.listChildren [] ↔ sampleMount.isKnownDir [97] = true) ∧
      ([98] ∈ sampleMount.listChildren [97] ↔ [97, 47, 98] ∈ sampleMount.versions) := by
  have hkeys : ∀ f ∈ sampleMount.versions, Normalised slash f := by
    have hall : ∀ f ∈ sampleMount.versions.keys, Normalised slash f := by decide
    exact fun f hf => hall f (Std.ExtTreeMap.mem_keys.mpr hf)
  exact ⟨((listing_agrees sampleMount rfl hkeys []).1 [97] (by decide)).1,
    ((listing_agrees sampleMount rfl hkeys [97]).1 [98] (by decide)).2⟩

end FuseMount

end Squid
