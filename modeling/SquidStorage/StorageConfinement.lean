/-
Which files a datanode touches.

The path of a CREATE_FILE, UPDATE_FILE, READ_FILE or DELETE_FILE is a string of the peer.
`FileManager::resolvePath` takes an absolute path as it is and puts any other one below the
storage root, normalises it lexically, and checks nothing.  `requestDispatcher` then
creates, overwrites, reads or removes the file at the place that comes out.

* `locate_resolvePath` — the place, as a walk over the components of the string;
* `requestDispatcher_frame`, `readFile_frame` — no other file is touched or read, the version
  file apart;
* `storage_confined_iff` — for which strings the file is strictly inside the storage root and
  not in `.squid`;
* `confined_iff_of_no_dotdot`, `resolvePath_of_storagePath` — the paths of a well-behaved
  peer;
* `delete_outside_root` — a DELETE_FILE that removes a file outside of the storage root.
-/
import SquidStorage.DataNodeInventory
import SquidStorage.LexicalPath
import SquidStorage.PathNames

open BigEndian TextStream LexicalPath

namespace Squid

/-! ### The storage root -/

/-- What `FileManager::storageRoot` reads of its process. -/
structure Environment where
  /-- `SQUID_STORAGE_ROOT` -/
  overrideRoot : Option Bytes := none
  /-- `HOME` -/
  home : Option Bytes := none
  /-- the names of `fs::current_path()` -/
  currentPath : List Bytes := []

def separator : UInt8 := 0x2f

def dot : UInt8 := 0x2e

/-- `SquidStorage`, below `HOME`. -/
def homeDirectory : Bytes := ascii ['S', 'q', 'u', 'i', 'd', 'S', 't', 'o', 'r', 'a', 'g', 'e']

namespace FileManager

/-- `FileManager::storageRoot`; a variable that is set to nothing counts as not set. -/
def storageRoot (env : Environment) : Path UInt8 :=
  match env.overrideRoot.filter (· ≠ []), env.home.filter (· ≠ []) with
  | some overrideRoot, _ => (parse separator overrideRoot).normal dot
  | none, some home =>
    ((parse separator home).append (parse separator homeDirectory)).normal dot
  | none, none =>
    let currentPath : Path UInt8 := { rooted := true, names := env.currentPath, trailing := false }
    currentPath.normal dot

/-- `FileManager::resolvePath`. -/
def resolvePath (env : Environment) (path : Bytes) : Path UInt8 :=
  let p := parse separator path
  if p.rooted then p.normal dot else ((storageRoot env).append p).normal dot

end FileManager

namespace Environment

variable (env : Environment)

/-- The current directory. -/
def cwd : List Bytes := walk dot [] env.currentPath

/-- Where the storage root is. -/
def rootDirectory : List Bytes := (FileManager.storageRoot env).locate dot env.cwd

/-- Where the file of a request is. -/
def target (path : Bytes) : List Bytes := (FileManager.resolvePath env path).locate dot env.cwd

/-- Strictly inside the storage root, and not inside its metadata directory. -/
def Inside (place : List Bytes) : Prop :=
  ∃ first rest, place = env.rootDirectory ++ first :: rest ∧ first ≠ runtimeFile

/-- The file of a request is where the files are to be stored. -/
def Confined (path : Bytes) : Prop := env.Inside (env.target path)

/-- The components of a string. -/
def components (path : Bytes) : List Bytes := (path.splitOn separator).filter (· ≠ [])

/-- Where the components of a string lead: from the storage root, or from the root of the file
system if the string starts with a slash. -/
def walkOf (path : Bytes) : List Bytes :=
  walk dot (if path.head? = some separator then [] else env.rootDirectory) (components path)

/-- **Where the file is.** -/
theorem locate_resolvePath (path : Bytes) : env.target path = env.walkOf path := by
  rw [target, FileManager.resolvePath]
  by_cases habs : path.head? = some separator
  · have hrooted : (parse separator path).rooted = true := decide_eq_true habs
    simp only [hrooted, if_true]
    rw [Path.locate_normal, Path.locate, if_pos hrooted, walkOf, if_pos habs]
    rfl
  · have hrooted : (parse separator path).rooted = false := decide_eq_false habs
    simp only [hrooted, Bool.false_eq_true, if_false]
    rw [Path.locate_normal, Path.locate_append, hrooted, walkOf, if_neg habs]
    rfl

/-- The condition on the string.  Its components lead some levels up and then down; from there
the names of the storage root that were left have to come again, all of them if the string starts
with a slash, and then a name other than `.squid`. -/
def LeadsInside (path : Bytes) : Prop :=
  let (up, names) := reduced dot (components path)
  let left := if path.head? = some separator then env.rootDirectory.length else up
  ∃ first rest, names = env.rootDirectory.drop (env.rootDirectory.length - left) ++ first :: rest ∧
    first ≠ runtimeFile

theorem confined_iff (path : Bytes) : env.Confined path ↔ env.LeadsInside path := by
  rw [Confined, locate_resolvePath, walkOf, walk_reduced, Inside, LeadsInside]
  by_cases habs : path.head? = some separator
  · simp only [if_pos habs, List.take_nil, List.nil_append, Nat.sub_self, List.drop_zero]
  · simp only [if_neg habs]
    set kept := env.rootDirectory.length - (reduced dot (components path)).1
    -- what is left of the storage root stands on both sides
    have hroot : ∀ tail, env.rootDirectory ++ tail
        = env.rootDirectory.take kept ++ (env.rootDirectory.drop kept ++ tail) := by
      intro tail
      rw [← List.append_assoc, List.take_append_drop]
    simp only [hroot, List.append_cancel_left_eq]

/-- Relative paths without `..` lead down, and are confined if they lead somewhere other than
into `.squid`. -/
theorem confined_iff_of_no_dotdot {path : Bytes} (hrel : path.head? ≠ some separator)
    (hup : [dot, dot] ∉ components path) :
    env.Confined path ↔ ∃ first rest,
      (components path).filter (· ≠ [dot]) = first :: rest ∧ first ≠ runtimeFile := by
  rw [Confined, locate_resolvePath, walkOf, if_neg hrel, walk_of_no_up hup, Inside]
  simp only [List.append_cancel_left_eq]

/-! ### The requests -/

/-- The name of a file relative to the storage root; one outside of it keeps its absolute
name.  A name that ends in a separator is not the name of a regular file. -/
def nameOf (p : Path UInt8) : Bytes :=
  let place := p.locate dot env.cwd
  let name := if env.rootDirectory <+: place then
      [separator].intercalate (place.drop env.rootDirectory.length)
    else separator :: [separator].intercalate place
  if p.trailing then name ++ [separator] else name

/-- A disk on which paths are resolved in this environment. -/
def disk (base : Disk) : Disk :=
  { base with resolvePath path := env.nameOf (FileManager.resolvePath env path) }

/-- No separator is left at the end of a path that ends in a plain component. -/
theorem trailing_of_plain {path : Bytes} (hrel : path.head? ≠ some separator)
    (hne : components path ≠ []) (hslash : path.getLast? ≠ some separator)
    (hplain : ∀ part ∈ components path, IsPlain dot part) :
    (FileManager.resolvePath env path).trailing = false := by
  have hrooted : (parse separator path).rooted = false := decide_eq_false hrel
  have hend : (parse separator path).trailing = false := decide_eq_false fun h => hslash h.2
  obtain ⟨init, last, hlast⟩ := (List.eq_nil_or_concat (components path)).resolve_left hne
  have hpart : IsPlain dot last := hplain last (by simp [hlast])
  have hnames : (parse separator path).names = init ++ [last] := by
    rw [← List.concat_eq_append, ← hlast]
    rfl
  rw [FileManager.resolvePath]
  simp [Path.normal, Path.append, hrooted, hend, hnames, hpart.1, hpart.2]

/-- A path of the storage layout is its own name, and its file is confined. -/
theorem resolvePath_of_storagePath {path : Bytes} (h : StoragePath path) (base : Disk) :
    (env.disk base).resolvePath path = path ∧ env.Confined path := by
  have hrel : path.head? ≠ some separator := by
    intro hhead
    obtain ⟨rest, rfl⟩ : ∃ rest, path = [] ++ separator :: rest := List.head?_eq_some_iff.mp hhead
    refine (h.normal [] ?_).1 rfl
    rw [show (0x2f : UInt8) = separator from rfl, PathNames.splitOn_append_sep]
    exact List.mem_append_left _ List.mem_cons_self
  have hcomponents : components path = path.splitOn separator :=
    List.filter_eq_self.mpr fun part hpart => decide_eq_true (h.normal part hpart).1
  have hup : [dot, dot] ∉ components path := by
    rw [hcomponents]
    exact fun hmem => (h.normal _ hmem).2.2 rfl
  have hnames : (components path).filter (· ≠ [dot]) = path.splitOn separator := by
    rw [hcomponents]
    exact List.filter_eq_self.mpr fun part hpart => decide_eq_true (h.normal part hpart).2.1
  have htarget : env.target path = env.rootDirectory ++ path.splitOn separator := by
    rw [locate_resolvePath, walkOf, if_neg hrel, walk_of_no_up hup, hnames]
  have hslash : path.getLast? ≠ some separator := by
    intro hlast
    obtain ⟨init, rfl⟩ := List.getLast?_eq_some_iff.mp hlast
    refine (h.normal [] ?_).1 rfl
    rw [show (0x2f : UInt8) = separator from rfl, PathNames.splitOn_append_sep]
    exact List.mem_append_right _ List.mem_cons_self
  constructor
  · show env.nameOf (FileManager.resolvePath env path) = path
    have htrailing := env.trailing_of_plain hrel (hcomponents ▸ List.splitOn_ne_nil separator path)
      hslash fun part hpart => (h.normal part (hcomponents ▸ hpart)).2
    rw [nameOf, htrailing]
    simp only [Bool.false_eq_true, if_false]
    rw [show (FileManager.resolvePath env path).locate dot env.cwd = _ from htarget,
      if_pos (List.prefix_append ..), List.drop_left, List.intercalate_splitOn]
  · obtain ⟨first, rest, hsplit⟩ := List.exists_cons_of_ne_nil (List.splitOn_ne_nil separator path)
    refine ⟨first, rest, by rw [htarget, hsplit], fun hfirst => h.outside ?_⟩
    rw [show (0x2f : UInt8) = separator from rfl, hsplit, hfirst]
    rfl

end Environment

theorem Disk.getElem?_store {disk : Disk} {name n data : Bytes} (hn : n ≠ name) :
    (disk.store name data).files[n]? = disk.files[n]? := by
  rw [Disk.store, Std.ExtTreeMap.getElem?_insert, if_neg]
  exact fun hcmp => hn (Std.LawfulEqCmp.compare_eq_iff_eq.mp hcmp).symm

theorem Disk.getElem?_discard {disk : Disk} {name n : Bytes} (hn : n ≠ name) :
    (disk.discard name).files[n]? = disk.files[n]? := by
  rw [Disk.discard, Std.ExtTreeMap.getElem?_erase, if_neg]
  exact fun hcmp => hn (Std.LawfulEqCmp.compare_eq_iff_eq.mp hcmp).symm

/-- The transfer writes or removes no other file. -/
theorem receiveStoredFile_frame {disk disk' : Disk} {path : Bytes} {received : Bool} {s s' : Proto}
    (h : (receiveStoredFile disk path).run s = (.done (received, disk'), s')) {n : Bytes}
    (hn : n ≠ disk.resolvePath path) : disk'.files[n]? = disk.files[n]? := by
  rw [receiveStoredFile] at h
  cases hopen : disk.openOutput (disk.resolvePath path) with
  | threw e =>
    rw [hopen] at h
    simp [raiseError] at h
  | refused =>
    rw [hopen] at h
    obtain ⟨-, rfl⟩ := Prod.mk.inj (Outcome.done.inj (Prod.mk.inj h).1)
    rfl
  | opened =>
    rw [hopen] at h
    obtain ⟨data, t, -, hrest⟩ := bind_eq_done h
    cases data with
    | none =>
      obtain ⟨-, rfl⟩ := Prod.mk.inj (Outcome.done.inj (Prod.mk.inj hrest).1)
      exact Disk.getElem?_discard hn
    | some data =>
      obtain ⟨-, rfl⟩ := Prod.mk.inj (Outcome.done.inj (Prod.mk.inj hrest).1)
      exact Disk.getElem?_store hn

theorem storeUpload_frame {node node' : DataNode} {path : Bytes} {version : Int32}
    {answer : ProtoM Unit} {s s' : Proto}
    (h : (storeUpload node path version answer).run s = (.done node', s')) {n : Bytes}
    (hn : n ≠ node.disk.resolvePath path) (hv : n ≠ versionFilePath) :
    node'.disk.files[n]? = node.disk.files[n]? := by
  obtain ⟨-, t, -, hfinish⟩ := bind_eq_done h
  obtain ⟨⟨received, disk⟩, u, hreceive, hrest⟩ := bind_eq_done hfinish
  have hframe := receiveStoredFile_frame hreceive hn
  cases received with
  | true =>
    obtain ⟨-, v, -, hpure⟩ := bind_eq_done hrest
    obtain rfl := Outcome.done.inj (Prod.mk.inj hpure).1
    exact (Disk.getElem?_store hv).trans hframe
  | false =>
    obtain ⟨-, v, -, hpure⟩ := bind_eq_done hrest
    obtain rfl := Outcome.done.inj (Prod.mk.inj hpure).1
    exact hframe

theorem deleteFileAndVersion_frame {disk disk' : Disk} {path : Bytes}
    (h : disk.deleteFileAndVersion path = .ok disk') {n : Bytes} (hn : n ≠ disk.resolvePath path)
    (hv : n ≠ versionFilePath) : disk'.files[n]? = disk.files[n]? := by
  rw [Disk.deleteFileAndVersion] at h
  split at h
  · cases h
  · split at h
    · obtain rfl := Except.ok.inj h
      exact (Disk.getElem?_store hv).trans (Disk.getElem?_discard hn)
    · obtain rfl := Except.ok.inj h
      rfl

/-- A branch that answers leaves the datanode as it is. -/
theorem answering_node {node node' : DataNode} {answer : ProtoM Unit} {s s' : Proto}
    (h : (answering node answer).run s = (.done node', s')) : node' = node := by
  obtain ⟨-, t, -, hpure⟩ := bind_eq_done h
  exact (Outcome.done.inj (Prod.mk.inj hpure).1).symm

/-- **A request writes and removes no file but its own**, the version file apart. -/
theorem requestDispatcher_frame {node node' : DataNode} {message : Message} {s s' : Proto}
    (h : (requestDispatcher node message).run s = (.done node', s')) {n : Bytes}
    (hn : n ≠ node.disk.resolvePath (message.getString .filePath)) (hv : n ≠ versionFilePath) :
    node'.disk.files[n]? = node.disk.files[n]? := by
  have hanswer : ∀ {answer : ProtoM Unit}, (answering node answer).run s = (.done node', s') →
      node'.disk.files[n]? = node.disk.files[n]? := by
    intro answer hrun
    rw [answering_node hrun]
  simp only [requestDispatcher] at h
  split at h
  · exact storeUpload_frame h hn hv
  · -- READ_FILE
    obtain ⟨-, t, -, hrest⟩ := bind_eq_done h
    obtain ⟨sent, u, -, hrest⟩ := bind_eq_done hrest
    have hnode : node' = node := by
      cases sent with
      | true =>
        obtain ⟨_, v, -, hpure⟩ := bind_eq_done hrest
        exact (Outcome.done.inj (Prod.mk.inj hpure).1).symm
      | false =>
        obtain ⟨_, v, -, hpure⟩ := bind_eq_done hrest
        exact (Outcome.done.inj (Prod.mk.inj hpure).1).symm
    rw [hnode]
  · exact storeUpload_frame h hn hv
  · -- DELETE_FILE
    split at h
    · simp [raiseError] at h
    · rename_i disk hdelete
      rw [answering_node h]
      exact deleteFileAndVersion_frame hdelete hn hv
  · exact hanswer h
  · exact hanswer h
  · exact hanswer h
  · exact hanswer h
  · exact hanswer h
  · exact hanswer h
  · -- CLOSE
    obtain ⟨-, t, -, hrest⟩ := bind_eq_done h
    obtain ⟨-, u, -, hpure⟩ := bind_eq_done hrest
    rw [← Outcome.done.inj (Prod.mk.inj hpure).1]
  · exact hanswer h
  · rw [← Outcome.done.inj (Prod.mk.inj h).1]

/-- **A READ_FILE sends nothing of another file**, the version apart. -/
theorem readFile_frame {node node' : DataNode} {message : Message}
    (hop : message.opcode = .readFile) (hresolve : node'.disk.resolvePath = node.disk.resolvePath)
    (hfile : node'.disk.files[node.disk.resolvePath (message.getString .filePath)]?
      = node.disk.files[node.disk.resolvePath (message.getString .filePath)]?)
    (hversions : node'.disk.versionText = node.disk.versionText) (s : Proto) :
    ((requestDispatcher node' message).run s).2 = ((requestDispatcher node message).run s).2 := by
  set path := message.getString .filePath with hpath
  have hsend : sendStoredFile node'.disk path = sendStoredFile node.disk path := by
    rw [sendStoredFile, sendStoredFile, hresolve, hfile]
  have hversion : node'.disk.getFileVersion path = node.disk.getFileVersion path := by
    rw [Disk.getFileVersion, Disk.getFileVersion, hversions]
  -- the calls are the same, and only the datanode that is returned differs
  have hreturn : ∀ {x : ProtoM Unit} {t : Proto},
      ((x >>= fun _ => (pure node' : ProtoM DataNode)).run t).2
        = ((x >>= fun _ => (pure node : ProtoM DataNode)).run t).2 := by
    intro x t
    rcases hx : x.run t with ⟨a | _ | e, u⟩
    · rw [bind_done hx, bind_done hx]
      rfl
    · rw [bind_waiting hx, bind_waiting hx]
    · rw [bind_thrown hx, bind_thrown hx]
  have hread : ∀ n : DataNode, requestDispatcher n message = sendStored n path := by
    intro n
    simp only [requestDispatcher, hop]
    rfl
  rw [hread, hread, sendStored, sendStored, hsend, hversion, bind_done (response_run true s),
    bind_done (response_run true s)]
  set t := s.framed (ackFrame true s.nextSendSeq)
  rcases hx : (sendStoredFile node.disk path).run t with ⟨sent | _ | e, u⟩
  · rw [bind_done hx, bind_done hx]
    cases sent with
    | true => exact hreturn
    | false => exact hreturn
  · rw [bind_waiting hx, bind_waiting hx]
  · rw [bind_thrown hx, bind_thrown hx]

namespace Environment

/-- A request for `path` writes and removes at most the file at `place`, and a READ_FILE sends
nothing of another one; the version file is apart. -/
structure OnlyTouches (env : Environment) (path : Bytes) (place : Path UInt8) : Prop where
  writes : ∀ (base : Disk) (node node' : DataNode) (message : Message) (s s' : Proto)
    (n : Bytes), node.disk = env.disk base → message.getString .filePath = path →
      (requestDispatcher node message).run s = (.done node', s') →
      n ≠ env.nameOf place → n ≠ versionFilePath → node'.disk.files[n]? = node.disk.files[n]?
  reads : ∀ (base base' : Disk) (node node' : DataNode) (message : Message) (s : Proto),
    node.disk = env.disk base → node'.disk = env.disk base' →
      message.opcode = .readFile → message.getString .filePath = path →
      base'.files[env.nameOf place]? = base.files[env.nameOf place]? →
      node'.disk.versionText = node.disk.versionText →
      ((requestDispatcher node' message).run s).2 = ((requestDispatcher node message).run s).2

theorem onlyTouches_resolvePath (env : Environment) (path : Bytes) :
    env.OnlyTouches path (FileManager.resolvePath env path) where
  writes := by
    intro base node node' message s s' n hdisk hpath hrun hn hv
    refine requestDispatcher_frame hrun ?_ hv
    rw [hdisk, hpath]
    exact hn
  reads := by
    intro base base' node node' message s hdisk hdisk' hop hpath hfile hversions
    refine readFile_frame hop ?_ ?_ hversions s
    · rw [hdisk, hdisk']
      rfl
    · rw [hdisk, hdisk', hpath]
      exact hfile

/-- **Storage confinement.**  A request touches the file at the resolved path only, and this file
lies strictly inside the storage root and not in its metadata directory exactly if the string
leads there. -/
theorem storage_confined_iff (env : Environment) (path : Bytes) :
    env.OnlyTouches path (FileManager.resolvePath env path) ∧
      (env.Confined path ↔ env.LeadsInside path) :=
  ⟨env.onlyTouches_resolvePath path, env.confined_iff path⟩

end Environment

/-- A node with its storage root at `/srv`, and a file `/etc/x` outside of it. -/
def sampleEnvironment : Environment where
  overrideRoot := some [separator, 115, 114, 118]

def sampleNode : DataNode where
  peer := { kind := .dataNode, processName := [100] }
  disk := sampleEnvironment.disk
    { files := (∅ : StrMap Bytes).insert [separator, 101, 116, 99, separator, 120] [1] }

/-- A DELETE_FILE of `../etc/x` removes `/etc/x`, and a CREATE_FILE of `.squid/fileVersions.txt`
would write the version file. -/
theorem delete_outside_root :
    let path : Bytes := [dot, dot, separator, 101, 116, 99, separator, 120]
    let request : Message := { opcode := .deleteFile, fields := [fieldString .filePath path] }
    ¬ sampleEnvironment.Confined path ∧ ¬ sampleEnvironment.Confined versionFilePath ∧
    sampleNode.disk.files[([separator, 101, 116, 99, separator, 120] : Bytes)]? = some [1] ∧
    ∃ node' s', (requestDispatcher sampleNode request).run {} = (.done node', s') ∧
      node'.disk.files[([separator, 101, 116, 99, separator, 120] : Bytes)]? = none := by
  intro path request
  have hroot : sampleEnvironment.rootDirectory = [[115, 114, 118]] := by decide
  have hpath : sampleEnvironment.target path = [[101, 116, 99], [120]] := by decide
  have hmeta : sampleEnvironment.target versionFilePath = [[115, 114, 118], runtimeFile,
      ascii ['f', 'i', 'l', 'e', 'V', 'e', 'r', 's', 'i', 'o', 'n', 's', '.', 't', 'x', 't']] := by
    decide
  refine ⟨?_, ?_, by decide, _, _, rfl, by decide⟩
  · rintro ⟨first, rest, heq, -⟩
    rw [hpath, hroot] at heq
    simp at heq
  · rintro ⟨first, rest, heq, hne⟩
    rw [hmeta, hroot, List.singleton_append] at heq
    exact hne (List.cons.inj (List.cons.inj heq).2).1.symm

end Squid
