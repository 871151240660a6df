/-
The two files in which the server keeps its state.

`StateManager` writes a map as lines, one for each path: the path, a blank, and the
value as text.  It reads a line by splitting it at its last blank, and skips lines that
start with `#`.  Versions are printed as numbers, holders as a comma-separated list.

* `load_save_iff` — what is saved as lines is loaded again exactly when no path
  contains a newline or starts with `#` and every value is legal, for any way of
  printing values that is read back for the legal ones and gives legal ones only;
* `mem_nodeNames`, `nodeNames_joinNames` — the two directions for lists of names;
* `state_survives_restart_iff` — the version map and the replication map.
-/
import SquidStorage.FileVersions

open BigEndian TextStream LastWrite

namespace Squid

/-! ### Maps as lines -/

/-- A path that keeps to its line and is not taken for a comment. -/
def LegalPath (path : Bytes) : Prop := newline ∉ path ∧ path.head? ≠ some hash

instance (path : Bytes) : Decidable (LegalPath path) := inferInstanceAs (Decidable (_ ∧ _))

namespace StateManager

section Entries

variable {β : Type} (encode : β → Bytes) (decode : Bytes → Option β)

/-- One line of either file. -/
def parseEntry (line : Bytes) : Option (Bytes × β) :=
  if line = [] ∨ line.head? = some hash then none
  else match splitLast space line with
    | none => none
    | some (path, rest) => (decode rest).map fun value => (path, value)

/-- The map that is loaded from a file, if there is one. -/
def loadEntries (file : Option Bytes) : StrMap β :=
  match file with
  | none => ∅
  | some text =>
    ((getlines newline text).filterMap (parseEntry decode)).foldl (fun m e => m.insert e.1 e.2) ∅

/-- The text of a map. -/
def saveEntries (m : StrMap β) : Bytes :=
  m.toList.flatMap fun e => e.1 ++ space :: encode e.2 ++ [newline]

variable {encode decode}

/-- The entry of a line that is read. -/
theorem parseEntry_eq_some {line path : Bytes} {value : β}
    (h : parseEntry decode line = some (path, value)) :
    ∃ rest, line = path ++ space :: rest ∧ space ∉ rest ∧ path.head? ≠ some hash ∧
      decode rest = some value := by
  rw [parseEntry] at h
  split at h
  · simp at h
  · rename_i hline
    cases hsplit : splitLast space line with
    | none => simp [hsplit] at h
    | some parts =>
      obtain ⟨left, rest⟩ := parts
      simp only [hsplit] at h
      obtain ⟨v, hv, heq⟩ := Option.map_eq_some_iff.mp h
      obtain ⟨rfl, rfl⟩ := Prod.mk.inj heq
      obtain ⟨rfl, hrest⟩ := eq_of_splitLast hsplit
      refine ⟨rest, rfl, hrest, fun hhead => hline (.inr ?_), hv⟩
      rw [List.head?_append, hhead]
      rfl

/-- The line of a path that is no comment. -/
theorem parseEntry_line {path : Bytes} (hpath : path.head? ≠ some hash) {rest : Bytes}
    (hrest : space ∉ rest) :
    parseEntry decode (path ++ space :: rest) = (decode rest).map fun value => (path, value) := by
  have hline : ¬ (path ++ space :: rest = [] ∨ (path ++ space :: rest).head? = some hash) := by
    cases path with
    | nil => simp [space, hash]
    | cons b bs => simpa using hpath
  simp only [parseEntry, if_neg hline, splitLast_append hrest]

/-- What is loaded comes from some line. -/
theorem exists_line_of_load {text path : Bytes} {value : β}
    (h : (loadEntries decode (some text))[path]? = some value) :
    ∃ line ∈ getlines newline text, parseEntry decode line = some (path, value) := by
  have hlook : look (loadEntries decode (some text)) path = some value := h
  rw [loadEntries, look_foldl_insert, look_empty, replay_map_eq_some_iff] at hlook
  obtain ⟨pre, e, post, hsplit, hput, -⟩ := hlook
  obtain ⟨rfl, rfl⟩ : e.1 = path ∧ e.2 = value := by simpa [Write.at] using hput
  exact List.mem_filterMap.mp (show e ∈ _ by rw [hsplit]; simp)

/-- **A saved map is loaded again exactly on its legal domain.** -/
theorem load_save_iff (Legal : β → Prop)
    (hplain : ∀ value, Legal value → space ∉ encode value ∧ newline ∉ encode value)
    (hround : ∀ value, Legal value → decode (encode value) = some value)
    (hlegal : ∀ rest value, space ∉ rest → newline ∉ rest → decode rest = some value → Legal value)
    (m : StrMap β) :
    loadEntries decode (some (saveEntries encode m)) = m
      ↔ ∀ path value, m[path]? = some value → LegalPath path ∧ Legal value := by
  constructor
  · -- whatever is loaded is legal
    intro hload path value hvalue
    rw [← hload] at hvalue
    obtain ⟨line, hline, hparse⟩ := exists_line_of_load hvalue
    obtain ⟨rest, rfl, hspace, hhead, hdecode⟩ := parseEntry_eq_some hparse
    have hnewline := not_mem_of_mem_getlines hline
    rw [List.mem_append, List.mem_cons, not_or, not_or] at hnewline
    exact ⟨⟨hnewline.1, hhead⟩, hlegal rest value hspace hnewline.2.2 hdecode⟩
  · intro hm
    have hentry : ∀ e ∈ m.toList, LegalPath e.1 ∧ Legal e.2 := fun e he =>
      hm e.1 e.2 (Std.ExtTreeMap.mem_toList_iff_getElem?_eq_some.mp he)
    have hone : ∀ e ∈ m.toList, newline ∉ e.1 ++ space :: encode e.2 := by
      intro e he
      obtain ⟨⟨hpath, -⟩, hvalue⟩ := hentry e he
      rw [List.mem_append, List.mem_cons, not_or, not_or]
      exact ⟨hpath, by decide, (hplain e.2 hvalue).2⟩
    have hlines : getlines newline (saveEntries encode m)
        = m.toList.map fun e => e.1 ++ space :: encode e.2 := getlines_flatMap _ _ hone
    have hparsed : (getlines newline (saveEntries encode m)).filterMap (parseEntry decode)
        = m.toList := by
      rw [hlines, List.filterMap_map]
      refine (List.filterMap_congr fun e he => ?_).trans List.filterMap_some
      obtain ⟨⟨-, hhead⟩, hvalue⟩ := hentry e he
      rw [Function.comp_apply, parseEntry_line hhead (hplain e.2 hvalue).1, hround e.2 hvalue]
      rfl
    refine Std.ExtTreeMap.ext_getElem? fun path => ?_
    show (List.foldl _ ∅ _ : StrMap β)[path]? = _
    rw [hparsed]
    exact congrFun (look_foldl_toList m) path

end Entries

/-! ### The version file -/

theorem loadVersionMap_eq_loadEntries (file : Option Bytes) :
    loadVersionMap file = loadEntries stoi file := by
  have hparse : parseLine = parseEntry stoi := by
    funext line
    rw [parseLine, parseEntry]
    congr 1
    cases splitLast space line with
    | none => rfl
    | some parts =>
      obtain ⟨path, rest⟩ := parts
      dsimp only
      cases stoi rest <;> rfl
  cases file with
  | none => rfl
  | some text => rw [loadVersionMap, loadEntries, hparse]

theorem stoi_toStr (version : Int32) : stoi (toStr version) = some version := by
  have hint : extractInt32 (toStr version ++ []) = some (version, []) :=
    extractInt32_toStr version (by simp)
  rw [List.append_nil] at hint
  rw [stoi, hint]
  rfl

/-- The version map: every number is legal. -/
theorem loadVersionMap_saveVersionMap_iff (m : StrMap Int32) :
    loadVersionMap (some (saveVersionMap m)) = m ↔ ∀ path ∈ m, LegalPath path := by
  have hsave : saveVersionMap m = saveEntries toStr m := rfl
  have hnewline : ∀ version, newline ∉ toStr version := fun version hmem =>
    absurd (not_isSpace_of_mem_toStr hmem) (by decide)
  rw [loadVersionMap_eq_loadEntries, hsave, load_save_iff (fun _ => True)
    (fun version _ => ⟨space_not_mem_toStr version, hnewline version⟩)
    (fun version _ => stoi_toStr version) (fun _ _ _ _ _ => trivial)]
  constructor
  · intro h path hpath
    obtain ⟨version, hversion⟩ := mem_iff_exists_entry.mp hpath
    exact (h path version hversion).1
  · intro h path version hversion
    exact ⟨h path (mem_of_entry hversion), trivial⟩

/-! ### The replication file -/

/-- The byte between two names. -/
def comma : UInt8 := 0x2c

/-- The loop of `loadReplicationMap` over the names of a line. -/
def nodeNames : Bytes → Bytes → StrSet → StrSet
  | [], tok, nodes => if tok = [] then nodes else nodes.insert tok
  | c :: nodeList, tok, nodes =>
    if c = comma then
      if tok = [] then nodeNames nodeList tok nodes else nodeNames nodeList [] (nodes.insert tok)
    else nodeNames nodeList (tok ++ [c]) nodes

/-- `StateManager::loadReplicationMap` on the text of the file, if there is one. -/
def loadReplicationMap (file : Option Bytes) : StrMap StrSet :=
  loadEntries (fun nodeList => some (nodeNames nodeList [] ∅)) file

/-- `StateManager::saveReplicationMap`. -/
def saveReplicationMap (repMap : StrMap StrSet) : Bytes :=
  saveEntries (fun nodes => joinNames nodes.toList) repMap

/-- A datanode's name that is read back from the list. -/
def LegalName (name : Bytes) : Prop :=
  name ≠ [] ∧ space ∉ name ∧ comma ∉ name ∧ newline ∉ name

instance (name : Bytes) : Decidable (LegalName name) := inferInstanceAs (Decidable (_ ∧ _))

theorem mem_insert_name {nodes : StrSet} {tok name : Bytes} :
    name ∈ nodes.insert tok ↔ name = tok ∨ name ∈ nodes := by
  rw [Std.ExtTreeSet.mem_insert, Std.LawfulEqCmp.compare_eq_iff_eq, eq_comm]

/-- A name that is read has no comma, and consists of what was there to read. -/
theorem mem_nodeNames {nodeList tok name : Bytes} {nodes : StrSet} (htok : comma ∉ tok)
    (h : name ∈ nodeNames nodeList tok nodes) :
    name ∈ nodes ∨ (name ≠ [] ∧ comma ∉ name ∧ name ⊆ tok ++ nodeList) := by
  induction nodeList generalizing tok nodes with
  | nil =>
    rw [nodeNames] at h
    split at h
    · exact .inl h
    · rename_i hne
      rcases mem_insert_name.mp h with rfl | hold
      · exact .inr ⟨hne, htok, List.subset_append_left _ _⟩
      · exact .inl hold
  | cons c nodeList ih =>
    rw [nodeNames] at h
    have hlater : nodeList ⊆ tok ++ c :: nodeList :=
      List.Subset.trans (List.subset_cons_self c nodeList) (List.subset_append_right _ _)
    split at h
    · -- a comma ends the name, if one has been begun
      split at h
      · rename_i hnil
        subst hnil
        exact (ih htok h).imp_right fun hname =>
          ⟨hname.1, hname.2.1, List.Subset.trans hname.2.2 hlater⟩
      · rename_i hne
        rcases ih (by simp) h with hold | hname
        · rcases mem_insert_name.mp hold with rfl | hold
          · exact .inr ⟨hne, htok, List.subset_append_left _ _⟩
          · exact .inl hold
        · exact .inr ⟨hname.1, hname.2.1, List.Subset.trans hname.2.2 hlater⟩
    · rename_i hc
      have htok' : comma ∉ tok ++ [c] := by
        rw [List.mem_append, List.mem_singleton, not_or]
        exact ⟨htok, Ne.symm hc⟩
      have hsame := ih htok' h
      rwa [List.append_assoc, List.singleton_append] at hsame

/-- A name without a comma is taken whole. -/
theorem nodeNames_append {name : Bytes} (hname : comma ∉ name) (rest tok : Bytes) (nodes : StrSet) :
    nodeNames (name ++ rest) tok nodes = nodeNames rest (tok ++ name) nodes := by
  induction name generalizing tok with
  | nil => rw [List.nil_append, List.append_nil]
  | cons c name ih =>
    obtain ⟨hc, hrest⟩ : comma ≠ c ∧ comma ∉ name := by simpa using hname
    rw [List.cons_append, nodeNames, if_neg (Ne.symm hc), ih hrest, List.append_assoc,
      List.singleton_append]

/-- A printed list of names is read back. -/
theorem nodeNames_joinNames {names : List Bytes} (hnames : ∀ n ∈ names, LegalName n)
    (nodes : StrSet) (name : Bytes) :
    name ∈ nodeNames (joinNames names) [] nodes ↔ name ∈ names ∨ name ∈ nodes := by
  induction names generalizing nodes with
  | nil => simp [joinNames, nodeNames]
  | cons n names ih =>
    obtain ⟨hne, -, hcomma, -⟩ := hnames n List.mem_cons_self
    cases names with
    | nil =>
      have hlast := nodeNames_append hcomma [] [] nodes
      rw [List.append_nil, List.nil_append] at hlast
      rw [joinNames, hlast, nodeNames, if_neg hne, mem_insert_name, List.mem_singleton]
    | cons m names =>
      have hjoin : joinNames (n :: m :: names) = n ++ comma :: joinNames (m :: names) := rfl
      rw [hjoin, nodeNames_append hcomma, List.nil_append, nodeNames, if_pos rfl, if_neg hne,
        ih (fun k hk => hnames k (List.mem_cons_of_mem _ hk)), mem_insert_name,
        List.mem_cons (b := n), or_left_comm, or_assoc]

/-- The bytes of a printed list are those of its names, and commas. -/
theorem mem_joinNames {names : List Bytes} {b : UInt8} (h : b ∈ joinNames names) :
    b = comma ∨ ∃ n ∈ names, b ∈ n := by
  induction names with
  | nil => simp [joinNames] at h
  | cons n names ih =>
    cases names with
    | nil => exact .inr ⟨n, List.mem_cons_self, h⟩
    | cons m names =>
      have hjoin : joinNames (n :: m :: names) = n ++ comma :: joinNames (m :: names) := rfl
      rw [hjoin, List.mem_append, List.mem_cons] at h
      rcases h with hn | rfl | hrest
      · exact .inr ⟨n, List.mem_cons_self, hn⟩
      · exact .inl rfl
      · refine (ih hrest).imp_right ?_
        rintro ⟨k, hk, hb⟩
        exact ⟨k, List.mem_cons_of_mem _ hk, hb⟩

/-- The replication map. -/
theorem loadReplicationMap_saveReplicationMap_iff (r : StrMap StrSet) :
    loadReplicationMap (some (saveReplicationMap r)) = r
      ↔ ∀ path nodes, r[path]? = some nodes → LegalPath path ∧ ∀ n ∈ nodes, LegalName n := by
  refine load_save_iff (fun nodes : StrSet => ∀ n ∈ nodes, LegalName n) ?_ ?_ ?_ r
  · -- the list of legal names has neither a blank nor a newline
    intro nodes hnodes
    have hnot : ∀ b, b ≠ comma → (∀ n ∈ nodes, b ∉ n) → b ∉ joinNames nodes.toList := by
      intro b hb hbytes hmem
      rcases mem_joinNames hmem with rfl | ⟨n, hn, hbn⟩
      · exact hb rfl
      · exact hbytes n (Std.ExtTreeSet.mem_toList.mp hn) hbn
    exact ⟨hnot space (by decide) fun n hn => (hnodes n hn).2.1,
      hnot newline (by decide) fun n hn => (hnodes n hn).2.2.2⟩
  · intro nodes hnodes
    refine congrArg some (Std.ExtTreeSet.ext_mem fun name => ?_)
    rw [nodeNames_joinNames fun n hn => hnodes n (Std.ExtTreeSet.mem_toList.mp hn),
      Std.ExtTreeSet.mem_toList]
    simp
  · intro rest nodes hspace hnewline hdecode name hname
    obtain rfl := Option.some.inj hdecode
    obtain ⟨hne, hcomma, hsub⟩ := (mem_nodeNames (by simp) hname).resolve_left (by simp)
    rw [List.nil_append] at hsub
    exact ⟨hne, fun h => hspace (hsub h), hcomma, fun h => hnewline (hsub h)⟩

/-- **The persisted state survives a restart exactly on its legal domain.** -/
theorem state_survives_restart_iff :
    (∀ m : StrMap Int32, loadVersionMap (some (saveVersionMap m)) = m
      ↔ ∀ path ∈ m, LegalPath path) ∧
    ∀ r : StrMap StrSet, loadReplicationMap (some (saveReplicationMap r)) = r
      ↔ ∀ path nodes, r[path]? = some nodes → LegalPath path ∧ ∀ n ∈ nodes, LegalName n :=
  ⟨loadVersionMap_saveVersionMap_iff, loadReplicationMap_saveReplicationMap_iff⟩

end StateManager

end Squid
