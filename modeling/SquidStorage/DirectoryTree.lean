/-
The directories of the mount over whole histories.

A directory exists because it was made or because some known file is below it.  The two
reasons are kept apart: `op_rmdir` takes nothing out of `createdDirs_`, and `op_unlink`
takes a file out of the version map without looking at the directories that only this
file holds up.  `op_create` puts the new file into the cache, and into the version map
if the ACK carries a version.

* `sound_iff` — the tree property and the agreement of `op_readdir` with `op_getattr`, in
  terms of the cache, the version map and the made directories;
* `sound_of_mono`, `sound_erase_iff` — what a change of one path's entries does to them;
* `namespace_tree_iff` — the exact condition on the operations of a history;
* `namespace_breaks` — the three ways in which it goes wrong.
-/
import SquidStorage.CacheCounts
import SquidStorage.ClientVersions
import SquidStorage.QuietCalls
import SquidStorage.Runs

open BigEndian PathNames ScopedLock

namespace Squid

/-! ### Histories -/

/-- A component of a normalised path. -/
def PlainName (c : Bytes) : Prop := c ≠ [] ∧ c ≠ [0x2e] ∧ c ≠ [0x2e, 0x2e]

instance (c : Bytes) : Decidable (PlainName c) := inferInstanceAs (Decidable (_ ∧ _))

/-- The path has no component that is empty, `.` or `..`. -/
def Plain (p : Bytes) : Prop := AllComponents slash PlainName p

instance (p : Bytes) : Decidable (Plain p) := inferInstanceAs (Decidable (AllComponents _ _ _))

/-- A normalised path below the root. -/
structure TreePath where
  path : Bytes
  plain : Plain path

/-- The operations on names; the replies are the server's, in the order of the calls.  What
the other clients create and unlink arrives as pushes. -/
inductive NameEvent where
  | mkdir (p : TreePath)
  | rmdir (p : TreePath)
  | create (p : TreePath) (flags : OpenFlags) (reply : ℕ → Message × Bytes)
  | unlink (p : TreePath) (reply : ℕ → Message × Bytes)
  | pushed (task : PushTask) (hplain : Plain task.path)

theorem Plain.normalised {p : Bytes} (h : Plain p) : Normalised slash p :=
  AllComponents.imp h fun _ hc => hc.1

theorem Plain.ne_nil {p : Bytes} (h : Plain p) : p ≠ [] := h.normalised.ne_nil

theorem plain_append_iff {a b : Bytes} : Plain (a ++ slash :: b) ↔ Plain a ∧ Plain b :=
  allComponents_append_iff

/-- A path is a name in a directory. -/
theorem Plain.exists_join {p : Bytes} (h : Plain p) : ∃ dir name, (dir = [] ∨ Plain dir) ∧
    IsComponent slash name ∧ PlainName name ∧ p = join slash dir name := by
  obtain ⟨dir, name, hdir, hname, rfl⟩ := PathNames.exists_join h.normalised
  rcases hdir with rfl | hdir
  · rw [join_root] at h ⊢
    exact ⟨[], name, Or.inl rfl, hname, (allComponents_of_not_mem hname.2).mp h,
      (join_root name).symm⟩
  · have hne := hdir.ne_nil
    rw [join_of_ne_nil hne, plain_append_iff] at h
    exact ⟨dir, name, Or.inr h.1, hname, (allComponents_of_not_mem hname.2).mp h.2, rfl⟩

theorem plain_join {dir name : Bytes} (hdir : dir = [] ∨ Plain dir) (hname : slash ∉ name)
    (hplain : PlainName name) : Plain (join slash dir name) := by
  have hone : Plain name := (allComponents_of_not_mem hname).mpr hplain
  rcases hdir with rfl | hdir
  · rwa [join_root]
  · rw [join_of_ne_nil hdir.ne_nil, plain_append_iff]
    exact ⟨hdir, hone⟩

/-- For the operations that make no call. -/
def noReply : ℕ → Message × Bytes := fun _ => ({}, [])

namespace FuseMount

/-- A push is handled. -/
def pushed (m : FuseMount) (task : PushTask) : FuseMount :=
  m.onFS fun fs => fs.handlePush task.message task.data

/-- One operation; `none` when it does not return. -/
def nameStep (m : FuseMount) : NameEvent → Option FuseMount
  | .mkdir p => (m.after noReply (opMkdir (slash :: p.path))).map Prod.snd
  | .rmdir p => (m.after noReply (opRmdir (slash :: p.path))).map Prod.snd
  | .create p flags reply => (m.after reply (opCreate (slash :: p.path) flags)).map Prod.snd
  | .unlink p reply => (m.after reply (opUnlink (slash :: p.path))).map Prod.snd
  | .pushed task _ => some (m.pushed task)

/-- The parent of a known directory is the root or a known directory. -/
def IsTree (m : FuseMount) : Prop := ∀ dir name, IsComponent slash name →
  m.isKnownDir (join slash dir name) = true → dir = [] ∨ m.isKnownDir dir = true

/-- `op_getattr` of a path succeeds. -/
def Stats (m : FuseMount) (p : Bytes) : Prop :=
  ∃ st m', m.after noReply (opGetattr (slash :: p)) = some (.ok st, m')

/-- A name is listed by `op_readdir` of a directory exactly when `op_getattr` of the joined
path succeeds. -/
def ListsWhatStats (m : FuseMount) : Prop := ∀ dir name, (dir = [] ∨ Plain dir) →
  IsComponent slash name → PlainName name →
  (m.Lists noReply dir name ↔ m.Stats (join slash dir name))

/-! ### The two properties in terms of the state -/

/-- The paths of the known files and of the made directories are normalised. -/
structure WellNamed (m : FuseMount) : Prop where
  versions : ∀ f ∈ m.versions, Plain f
  dirs : ∀ d ∈ m.createdDirs, Plain d

/-- A path that is no directory has an entry in the version map exactly when it is cached
or has a version. -/
def Agrees (m : FuseMount) (p : Bytes) : Prop :=
  m.isKnownDir p = true ∨ (p ∈ m.versions ↔ (m.find p).isSome ∨ 0 ≤ m.getFileVersion p)

structure Sound (m : FuseMount) : Prop where
  tree : ∀ dir name, IsComponent slash name → join slash dir name ∈ m.createdDirs →
    dir = [] ∨ m.isKnownDir dir = true
  agrees : ∀ p, Plain p → m.Agrees p

variable {m m' : FuseMount} {p : Bytes}

theorem WellNamed.noTrailingSlash (h : m.WellNamed) : m.NoTrailingSlash :=
  noTrailingSlash_of_normalised fun f hf => (h.versions f hf).normalised

/-- Only the made directories need to be looked at: the parent of a directory that is
implied is implied by the same file. -/
theorem isTree_iff : m.IsTree ↔ ∀ dir name, IsComponent slash name →
    join slash dir name ∈ m.createdDirs → dir = [] ∨ m.isKnownDir dir = true := by
  constructor
  · intro h dir name hname hdir
    exact h dir name hname (isKnownDir_iff.mpr (Or.inl hdir))
  · intro h dir name hname hknown
    rcases isKnownDir_iff.mp hknown with hdir | ⟨f, hf, more, hmore, hjoin⟩
    · exact h dir name hname hdir
    · by_cases hroot : dir = []
      · exact Or.inl hroot
      · refine Or.inr (isKnownDir_iff.mpr (Or.inr ⟨f, hf, name ++ slash :: more, ?_, ?_⟩))
        · simp
        · rw [hjoin, join_of_ne_nil hroot, List.append_assoc, List.cons_append]

theorem mem_versions_of_version (h : 0 ≤ m.getFileVersion p) : p ∈ m.versions := by
  by_contra hnot
  have hnone : m.getFileVersion p = -1 := by
    show m.versions[p]?.getD (-1) = -1
    rw [Std.ExtTreeMap.getElem?_eq_none hnot, Option.getD_none]
  rw [hnone] at h
  exact absurd h (by decide)

/-- In a tree, a name is listed when the joined path is a known file or directory. -/
theorem lists_join_iff (hnamed : m.WellNamed) (htree : m.IsTree) {dir name : Bytes}
    (hname : IsComponent slash name) (hplain : PlainName name) :
    m.Lists noReply dir name
      ↔ join slash dir name ∈ m.versions ∨ m.isKnownDir (join slash dir name) = true := by
  rw [lists_iff hnamed.noTrailingSlash hname hplain.2, and_iff_right_iff_imp]
  rintro (hfile | hdir)
  · by_cases hroot : dir = []
    · exact Or.inl hroot
    · refine Or.inr (isKnownDir_iff.mpr (Or.inr ⟨_, hfile, name, hname.1, ?_⟩))
      rw [join_of_ne_nil hroot]
  · exact htree dir name hname hdir

theorem stats_iff (hp : p ≠ []) : m.Stats p ↔ m.HasAttr p := by
  obtain ⟨result, hafter, hok⟩ := opGetattr_quiet m noReply hp
  rw [← hok, Stats, hafter]
  constructor
  · rintro ⟨st, m', heq⟩
    exact ⟨st, (Prod.mk.inj (Option.some.inj heq)).1⟩
  · rintro ⟨st, rfl⟩
    exact ⟨st, m, rfl⟩

/-- **The two properties in terms of the state.** -/
theorem sound_iff (hnamed : m.WellNamed) : m.Sound ↔ m.IsTree ∧ m.ListsWhatStats := by
  have hpath : m.IsTree → ∀ {dir name : Bytes}, IsComponent slash name → PlainName name →
      ((m.Lists noReply dir name ↔ m.Stats (join slash dir name))
        ↔ m.Agrees (join slash dir name)) := by
    intro htree dir name hname hplain
    rw [lists_join_iff hnamed htree hname hplain, stats_iff (join_ne_nil hname.1), HasAttr, Agrees]
    by_cases hdir : m.isKnownDir (join slash dir name) = true
    · simp [hdir]
    · simp [hdir]
  constructor
  · intro h
    have htree : m.IsTree := isTree_iff.mpr h.tree
    refine ⟨htree, fun dir name hdir hname hplain => ?_⟩
    exact (hpath htree hname hplain).mpr (h.agrees _ (plain_join hdir hname.2 hplain))
  · rintro ⟨htree, hlists⟩
    refine ⟨isTree_iff.mp htree, fun p hp => ?_⟩
    obtain ⟨dir, name, hdir, hname, hplain, rfl⟩ := hp.exists_join
    exact (hpath htree hname hplain).mp (hlists dir name hdir hname hplain)

/-! ### Changing the entries of one path -/

theorem mem_versions_congr {q : Bytes} (h : m'.versions[q]? = m.versions[q]?) :
    q ∈ m'.versions ↔ q ∈ m.versions := by
  rw [Std.ExtTreeMap.mem_iff_isSome_getElem?, Std.ExtTreeMap.mem_iff_isSome_getElem?, h]

/-- What is known of another path stays. -/
theorem Touches.agrees (htouch : m.Touches p m') {q : Bytes} (hq : q ≠ p) :
    (q ∈ m'.versions ↔ (m'.find q).isSome ∨ 0 ≤ m'.getFileVersion q)
      ↔ (q ∈ m.versions ↔ (m.find q).isSome ∨ 0 ≤ m.getFileVersion q) := by
  have hversion : m'.getFileVersion q = m.getFileVersion q :=
    congrArg (fun v : Option Int32 => v.getD (-1)) (htouch.versions q hq)
  rw [mem_versions_congr (htouch.versions q hq), htouch.cache q hq, hversion]

/-- The file is below the directory. -/
def Below (d f : Bytes) : Prop := ∃ more, more ≠ [] ∧ f = d ++ slash :: more

theorem not_below_self (d : Bytes) : ¬ Below d d := by
  rintro ⟨more, -, heq⟩
  have hlen := congrArg List.length heq
  rw [List.length_append, List.length_cons] at hlen
  omega

theorem isKnownDir_iff_below {d : Bytes} :
    m.isKnownDir d = true ↔ d ∈ m.createdDirs ∨ ∃ f ∈ m.versions, Below d f := isKnownDir_iff

/-- No directory is lost when the path is still known. -/
theorem Touches.isKnownDir_mono (htouch : m.Touches p m') (hkept : p ∈ m.versions → p ∈ m'.versions)
    {d : Bytes} (h : m.isKnownDir d = true) : m'.isKnownDir d = true := by
  rw [isKnownDir_iff_below, htouch.dirs]
  rcases isKnownDir_iff_below.mp h with hdir | ⟨f, hf, hbelow⟩
  · exact Or.inl hdir
  · refine Or.inr ⟨f, ?_, hbelow⟩
    by_cases hfp : f = p
    · rw [hfp] at hf ⊢
      exact hkept hf
    · exact (mem_versions_congr (htouch.versions f hfp)).mpr hf

/-- A file is not below itself. -/
theorem Touches.isKnownDir_self (htouch : m.Touches p m') :
    m'.isKnownDir p = true ↔ m.isKnownDir p = true := by
  rw [isKnownDir_iff_below, isKnownDir_iff_below, htouch.dirs]
  refine or_congr_right (exists_congr fun f => and_congr_left fun hbelow => ?_)
  have hfp : f ≠ p := by
    rintro rfl
    exact not_below_self f hbelow
  exact mem_versions_congr (htouch.versions f hfp)

/-- **A path that stays known, or becomes it**: only its own entries are in question. -/
theorem sound_of_mono (h : m.Sound) (hp : Plain p) (htouch : m.Touches p m')
    (hkept : p ∈ m.versions → p ∈ m'.versions) : m'.Sound ↔ m'.Agrees p := by
  constructor
  · intro h'
    exact h'.agrees p hp
  · intro hagrees
    refine ⟨fun dir name hname hdir => ?_, fun q hq => ?_⟩
    · rw [htouch.dirs] at hdir
      exact (h.tree dir name hname hdir).imp_right (htouch.isKnownDir_mono hkept)
    · by_cases hqp : q = p
      · rw [hqp]
        exact hagrees
      · exact (h.agrees q hq).imp (htouch.isKnownDir_mono hkept) (htouch.agrees hqp).mpr

/-- The directory is there because of this file only. -/
def HeldUpBy (m : FuseMount) (p d : Bytes) : Prop :=
  p ∈ m.versions ∧ d ∉ m.createdDirs ∧ Below d p ∧ ∀ f ∈ m.versions, Below d f → f = p

/-- No directory that only this file holds up has a made directory in it, and none is a
cached file that the version map does not list. -/
def NoOrphans (m : FuseMount) (p : Bytes) : Prop := ∀ d, m.HeldUpBy p d →
  (∀ name, IsComponent slash name → join slash d name ∉ m.createdDirs) ∧
    (d ∈ m.versions ↔ (m.find d).isSome ∨ 0 ≤ m.getFileVersion d)

/-- The directories that are lost with a file. -/
theorem isKnownDir_erase_iff (htouch : m.Touches p m') (hgone : m'.versions[p]? = none)
    {d : Bytes} : m.isKnownDir d = true ↔ m'.isKnownDir d = true ∨ m.HeldUpBy p d := by
  have hnot : p ∉ m'.versions := LastWrite.no_entry_iff.mp hgone
  have hmem : ∀ f, f ∈ m'.versions ↔ f ∈ m.versions ∧ f ≠ p := by
    intro f
    by_cases hfp : f = p
    · simp [hfp, hnot]
    · simp [hfp, mem_versions_congr (htouch.versions f hfp)]
  rw [isKnownDir_iff_below, isKnownDir_iff_below, htouch.dirs]
  constructor
  · rintro (hdir | ⟨f, hf, hbelow⟩)
    · exact Or.inl (Or.inl hdir)
    · by_cases hdir : d ∈ m.createdDirs
      · exact Or.inl (Or.inl hdir)
      · by_cases hother : ∃ f' ∈ m.versions, Below d f' ∧ f' ≠ p
        · obtain ⟨f', hf', hbelow', hne⟩ := hother
          exact Or.inl (Or.inr ⟨f', (hmem f').mpr ⟨hf', hne⟩, hbelow'⟩)
        · have honly : ∀ f' ∈ m.versions, Below d f' → f' = p := by
            intro f' hf' hbelow'
            by_contra hne
            exact hother ⟨f', hf', hbelow', hne⟩
          obtain rfl := honly f hf hbelow
          exact Or.inr ⟨hf, hdir, hbelow, honly⟩
  · rintro ((hdir | ⟨f, hf, hbelow⟩) | ⟨hf, -, hbelow, -⟩)
    · exact Or.inl hdir
    · exact Or.inr ⟨f, ((hmem f).mp hf).1, hbelow⟩
    · exact Or.inr ⟨p, hf, hbelow⟩

/-- **A path that is forgotten.** -/
theorem sound_erase_iff (h : m.Sound) (hp : Plain p) (htouch : m.Touches p m')
    (hfind : m'.find p = none) (hgone : m'.versions[p]? = none) : m'.Sound ↔ m.NoOrphans p := by
  have hknown := fun d => isKnownDir_erase_iff (d := d) htouch hgone
  have hne : ∀ {d}, m.HeldUpBy p d → d ≠ p := by
    rintro d ⟨-, -, hbelow, -⟩ rfl
    exact not_below_self d hbelow
  constructor
  · intro h' d hheld
    have hplain : Plain d := by
      obtain ⟨more, -, heq⟩ := hheld.2.2.1
      rw [heq, plain_append_iff] at hp
      exact hp.1
    have hlost : ¬ m'.isKnownDir d = true := by
      rw [isKnownDir_iff_below, htouch.dirs]
      rintro (hdir | ⟨f, hf, hbelow⟩)
      · exact hheld.2.1 hdir
      · by_cases hfp : f = p
        · rw [hfp] at hf
          exact LastWrite.no_entry_iff.mp hgone hf
        · exact hfp (hheld.2.2.2 f ((mem_versions_congr (htouch.versions f hfp)).mp hf) hbelow)
    refine ⟨fun name hname hdir => ?_, ?_⟩
    · rw [← htouch.dirs] at hdir
      rcases h'.tree d name hname hdir with hroot | hdir'
      · exact hplain.ne_nil hroot
      · exact hlost hdir'
    · exact (htouch.agrees (hne hheld)).mp ((h'.agrees d hplain).resolve_left hlost)
  · intro horphans
    refine ⟨fun dir name hname hdir => ?_, fun q hq => ?_⟩
    · rw [htouch.dirs] at hdir
      refine (h.tree dir name hname hdir).imp_right fun hdir' => ?_
      rcases (hknown dir).mp hdir' with hstill | hheld
      · exact hstill
      · exact absurd hdir ((horphans dir hheld).1 name hname)
    · by_cases hqp : q = p
      · refine Or.inr ?_
        have hnot : q ∉ m'.versions := LastWrite.no_entry_iff.mp (hqp ▸ hgone)
        have hversion : ¬ 0 ≤ m'.getFileVersion q := fun hv => hnot (mem_versions_of_version hv)
        rw [hqp] at hnot hversion ⊢
        simp [hnot, hversion, hfind]
      · rcases h.agrees q hq with hdir | hfile
        · rcases (hknown q).mp hdir with hstill | hheld
          · exact Or.inl hstill
          · exact Or.inr ((htouch.agrees hqp).mpr (horphans q hheld).2)
        · exact Or.inr ((htouch.agrees hqp).mpr hfile)

/-! ### One operation -/

theorem withDir_isKnownDir {d : Bytes} :
    (m.withDir p).isKnownDir d = true ↔ d = p ∨ m.isKnownDir d = true := by
  rw [isKnownDir_iff_below, isKnownDir_iff_below, ← or_assoc]
  refine or_congr_left ?_
  rw [withDir, Std.ExtTreeSet.mem_insert, Std.LawfulEqCmp.compare_eq_iff_eq, eq_comm]

/-- A directory is made only where its parent is known. -/
theorem Makes.parent {dir name : Bytes} (h : m.Makes (join slash dir name))
    (hname : IsComponent slash name) : dir = [] ∨ m.isKnownDir dir = true := by
  by_cases hroot : dir = []
  · exact Or.inl hroot
  · have hparent := h.2
    rw [join_of_ne_nil hroot, lacksParent, splitLast_append hname.2] at hparent
    simpa using Or.inr hparent

theorem Sound.withDir (h : m.Sound) (hmakes : m.Makes p) : (m.withDir p).Sound := by
  refine ⟨fun dir name hname hdir => ?_, fun q hq => ?_⟩
  · rw [withDir_isKnownDir]
    rw [FuseMount.withDir, Std.ExtTreeSet.mem_insert, Std.LawfulEqCmp.compare_eq_iff_eq] at hdir
    rcases hdir with rfl | hdir
    · exact (hmakes.parent hname).imp_right Or.inr
    · exact (h.tree dir name hname hdir).imp_right Or.inr
  · refine (h.agrees q hq).imp (fun hdir => ?_) id
    exact withDir_isKnownDir.mpr (Or.inr hdir)

/-- What a push leaves in the cache. -/
theorem find_pushed (m : FuseMount) {task : PushTask}
    (hname : task.message.getString .filePath ≠ []) (q : Bytes) :
    (q ≠ task.path → (m.pushed task).find q = m.find q) ∧
      (q = task.path → ((m.pushed task).find q).isSome = task.version.isSome) := by
  have hupsert : ∀ fs : SquidFS, fs.find q = m.find q →
      task.message.opcode = .pushCreateFile ∨ task.message.opcode = .pushUpdateFile →
      (q ≠ task.path → (fs.pushHandler task.message task.data).find q = m.find q) ∧
        (q = task.path → ((fs.pushHandler task.message task.data).find q).isSome = true) := by
    intro fs hfs hop
    rw [SquidFS.find_pushHandler_upsert fs task.message task.data q hop,
      PushTask.getString_message]
    exact ⟨fun hq => by rw [if_neg (Ne.symm hq), hfs], fun hq => by rw [if_pos hq.symm]; rfl⟩
  cases task with
  | pushCreateFile p v d =>
    simp only [pushed, onFS, SquidFS.handlePush, if_pos hname]
    exact hupsert _ rfl (Or.inl rfl)
  | pushUpdateFile p v d =>
    simp only [pushed, onFS, SquidFS.handlePush, if_pos hname]
    exact hupsert _ rfl (Or.inr rfl)
  | pushDeleteFile p =>
    simp only [pushed, onFS, SquidFS.handlePush, if_pos hname]
    show (q ≠ p → (m.toSquidFS.erase p).find q = m.find q) ∧
      (q = p → ((m.toSquidFS.erase p).find q).isSome = false)
    rw [SquidFS.find_erase]
    exact ⟨fun hq => if_neg (Ne.symm hq), fun hq => by rw [if_pos hq.symm]; rfl⟩

/-- What a push leaves of its path. -/
theorem touches_pushed (m : FuseMount) {task : PushTask} (hpath : task.path ≠ []) :
    m.Touches task.path (m.pushed task) ∧
      (m.pushed task).versions[task.path]? = task.version ∧
      ((m.pushed task).find task.path).isSome = task.version.isSome := by
  have hname : task.message.getString .filePath ≠ [] := by
    rw [PushTask.getString_message]
    exact hpath
  have hversions : (m.pushed task).versions = task.note m.versions := by
    cases task with
    | pushCreateFile p v d | pushUpdateFile p v d | pushDeleteFile p =>
      simp only [pushed, onFS, PushTask.note, SquidFS.handlePush, if_pos hname]
      rfl
  refine ⟨⟨rfl, fun q hq => (find_pushed m hname q).1 hq, fun q hq => ?_⟩, ?_,
    (find_pushed m hname task.path).2 rfl⟩
  · rw [hversions, PushTask.getElem?_note _ hpath, if_neg (Ne.symm hq)]
  · rw [hversions, PushTask.getElem?_note _ hpath, if_pos rfl]

/-- What each operation needs of the state before it, for the two properties to hold after
it; a file that is forgotten must leave no orphans. -/
def KeepsSound (m : FuseMount) : NameEvent → Prop
  | .mkdir _ => True
  | .rmdir _ => True
  | .create p _ reply =>
    (m.find p.path).isSome ∨ 0 ≤ m.getFileVersion p.path ∨ (reply 0).1.isAck = false ∨
      if (reply 1).1.isAck then
        m.isKnownDir p.path = true ∨ (notedVersion (reply 0).1).isSome
      else if (reply 2).1.isAck then m.NoOrphans p.path
      else m.isKnownDir p.path = true ∨ ∀ v, notedVersion (reply 0).1 = some v → 0 ≤ v
  | .unlink p reply => (reply 0).1.isAck = false ∨ m.NoOrphans p.path
  | .pushed task _ => task.version.isSome ∨ m.NoOrphans task.path

/-- A file that is there but not known has no entry in the version map, unless it is a
directory as well. -/
theorem Sound.not_mem_of_unknown (h : m.Sound) (hp : Plain p) (hcached : ¬ (m.find p).isSome)
    (hnew : ¬ 0 ≤ m.getFileVersion p) : m.isKnownDir p = true ∨ p ∉ m.versions :=
  (h.agrees p hp).imp_right fun hiff hmem => (hiff.mp hmem).elim hcached hnew

/-- The condition of `op_create`, outcome by outcome. -/
theorem sound_create_iff (h : m.Sound) {p : TreePath} {flags : OpenFlags}
    {reply : ℕ → Message × Bytes} (hcached : ¬ (m.find p.path).isSome)
    (hcreates : m.Creates reply p.path m') : m'.Sound ↔ m.KeepsSound (.create p flags reply) := by
  -- where the version of the ACK has been noted
  have hmem : ∀ {noted : Option Int32}, m'.versions[p.path]? = noted.or m.versions[p.path]? →
      (p.path ∈ m'.versions ↔ noted.isSome ∨ p.path ∈ m.versions) := by
    intro noted hversion
    rw [Std.ExtTreeMap.mem_iff_isSome_getElem?, Std.ExtTreeMap.mem_iff_isSome_getElem?, hversion,
      Option.isSome_or, Bool.or_eq_true]
  cases hcreates with
  | opened hknown hopens =>
    refine iff_of_true ?_ (Or.inr (Or.inl hknown))
    have hin : p.path ∈ m'.versions := hopens.known (mem_versions_of_version hknown)
    refine (sound_of_mono h p.plain hopens.toTouches fun _ => hin).mpr (Or.inr ?_)
    refine iff_of_true hin (hopens.cached.imp_right fun hsame => ?_)
    show 0 ≤ m'.versions[p.path]?.getD (-1)
    rw [hsame]
    exact hknown
  | refused hnew hcreate hm =>
    rw [hm]
    exact iff_of_true h (Or.inr (Or.inr (Or.inl hcreate)))
  | created hnew hcreate hlock htouch hcached' hversion =>
    have hin := hmem hversion
    rw [sound_of_mono h p.plain htouch fun hp => hin.mpr (Or.inr hp), Agrees,
      htouch.isKnownDir_self, hin]
    simp only [KeepsSound, hcached, hnew, hcreate, hlock, hcached']
    rcases h.not_mem_of_unknown p.plain hcached hnew with hdir | hnot
    · simp [hdir]
    · simp [hnot]
  | undone hnew hcreate hlock hdelete htouch hfind hversion =>
    have hgone : m'.find p.path = none := by
      rw [hfind]
      simpa using hcached
    rw [sound_erase_iff h p.plain htouch hgone hversion]
    simp [KeepsSound, hcached, hnew, hcreate, hlock, hdelete]
  | left hnew hcreate hlock hdelete htouch hfind hversion =>
    have hin := hmem hversion
    rw [sound_of_mono h p.plain htouch fun hp => hin.mpr (Or.inr hp), Agrees,
      htouch.isKnownDir_self, hin, hfind]
    simp only [KeepsSound, hcached, hnew, hcreate, hlock, hdelete]
    rcases h.not_mem_of_unknown p.plain hcached hnew with hdir | hnot
    · simp [hdir]
    · have hgetD : m'.getFileVersion p.path = (notedVersion (reply 0).1).getD (-1) := by
        show m'.versions[p.path]?.getD (-1) = _
        rw [hversion, Std.ExtTreeMap.getElem?_eq_none hnot, Option.or_none]
      rw [hgetD]
      cases notedVersion (reply 0).1 with
      | none => simp [hnot]
      | some v => simp

/-- The condition of an acknowledged `op_unlink`, which forgets the file. -/
theorem sound_unlink_iff (h : m.Sound) {p : TreePath} {reply : ℕ → Message × Bytes}
    (hack : (reply 0).1.isAck = true) :
    ((m.forgetting p.path).onFS fun fs => fs.erase p.path).Sound ↔
      m.KeepsSound (.unlink p reply) := by
  obtain ⟨htouch, hfind, hgone⟩ := touches_forgetting m p.path
  rw [sound_erase_iff h p.plain (htouch.trans (touches_erase _)) ?_ hgone]
  · simp [KeepsSound, hack]
  · exact (SquidFS.find_erase _ p.path p.path).trans (if_pos rfl)

/-- The condition of a push: only the push of a deletion has one. -/
theorem sound_pushed_iff (h : m.Sound) {task : PushTask} (hplain : Plain task.path) :
    (m.pushed task).Sound ↔ m.KeepsSound (.pushed task hplain) := by
  obtain ⟨htouch, hversion, hfind⟩ := touches_pushed m hplain.ne_nil
  cases hv : task.version with
  | some v =>
    have hin : task.path ∈ (m.pushed task).versions := by
      rw [Std.ExtTreeMap.mem_iff_isSome_getElem?, hversion, hv]
      rfl
    rw [hv] at hfind
    refine iff_of_true ?_ (Or.inl (by rw [hv]; rfl))
    refine (sound_of_mono h hplain htouch fun _ => hin).mpr (Or.inr ?_)
    exact iff_of_true hin (Or.inl hfind)
  | none =>
    rw [hv] at hfind hversion
    rw [sound_erase_iff h hplain htouch (by simpa using hfind) hversion]
    simp [KeepsSound, hv]

/-- The condition of a step. -/
theorem sound_step_iff (h : m.Sound) {e : NameEvent} (hstep : m.nameStep e = some m') :
    m'.Sound ↔ m.KeepsSound e := by
  cases e with
  | mkdir p =>
    refine iff_of_true ?_ trivial
    rcases opMkdir_quiet m noReply p.plain.ne_nil with ⟨hmakes, hafter⟩ | ⟨-, e, hafter⟩
    · rw [nameStep, hafter] at hstep
      obtain rfl : m.withDir p.path = m' := Option.some.inj hstep
      exact h.withDir hmakes
    · rw [nameStep, hafter] at hstep
      obtain rfl : m = m' := Option.some.inj hstep
      exact h
  | rmdir p =>
    refine iff_of_true ?_ trivial
    obtain ⟨result, hafter, -⟩ := opRmdir_quiet m noReply p.path
    rw [nameStep, hafter] at hstep
    obtain rfl : m = m' := Option.some.inj hstep
    exact h
  | create p flags reply =>
    by_cases hcached : (m.find p.path).isSome
    · rw [nameStep, opCreate_quiet_cached m reply p.plain.ne_nil flags hcached] at hstep
      simp at hstep
    · obtain ⟨result, m₁, hafter, hcreates⟩ :=
        opCreate_quiet m reply p.plain.ne_nil flags hcached
      rw [nameStep, hafter] at hstep
      obtain rfl : m₁ = m' := Option.some.inj hstep
      exact sound_create_iff h hcached hcreates
  | unlink p reply =>
    obtain ⟨result, hafter⟩ := opUnlink_quiet m reply p.path
    rw [nameStep, hafter] at hstep
    have hm' := Option.some.inj hstep
    cases hack : (reply 0).1.isAck with
    | false =>
      rw [hack] at hm'
      obtain rfl : m = m' := hm'
      exact iff_of_true h (Or.inl hack)
    | true =>
      rw [hack] at hm'
      obtain rfl : ((m.forgetting p.path).onFS fun fs => fs.erase p.path) = m' := hm'
      exact sound_unlink_iff h hack
  | pushed task hplain =>
    obtain rfl : m.pushed task = m' := Option.some.inj hstep
    exact sound_pushed_iff h hplain

/-! ### Histories from the empty namespace -/

theorem WellNamed.touches (h : m.WellNamed) (hp : Plain p) (htouch : m.Touches p m') :
    m'.WellNamed := by
  refine ⟨fun f hf => ?_, fun d hd => h.dirs d (htouch.dirs ▸ hd)⟩
  by_cases hfp : f = p
  · rw [hfp]
    exact hp
  · exact h.versions f ((mem_versions_congr (htouch.versions f hfp)).mp hf)

theorem Creates.touches {reply : ℕ → Message × Bytes} (h : m.Creates reply p m') :
    m.Touches p m' := by
  cases h with
  | opened hknown hopens => exact hopens.toTouches
  | refused hnew hcreate hm =>
    rw [hm]
    exact Touches.refl m
  | created hnew hcreate hlock htouch hcached hversion => exact htouch
  | undone hnew hcreate hlock hdelete htouch hfind hversion => exact htouch
  | left hnew hcreate hlock hdelete htouch hfind hversion => exact htouch

/-- An operation makes a directory or changes the entries of its path. -/
theorem nameStep_touches {e : NameEvent} (hstep : m.nameStep e = some m') :
    ∃ p, Plain p ∧ (m' = m.withDir p ∨ m.Touches p m') := by
  cases e with
  | mkdir p =>
    refine ⟨p.path, p.plain, ?_⟩
    rcases opMkdir_quiet m noReply p.plain.ne_nil with ⟨-, hafter⟩ | ⟨-, e, hafter⟩
    · rw [nameStep, hafter] at hstep
      exact Or.inl (Option.some.inj hstep).symm
    · rw [nameStep, hafter] at hstep
      obtain rfl : m = m' := Option.some.inj hstep
      exact Or.inr (Touches.refl m)
  | rmdir p =>
    obtain ⟨result, hafter, -⟩ := opRmdir_quiet m noReply p.path
    rw [nameStep, hafter] at hstep
    obtain rfl : m = m' := Option.some.inj hstep
    exact ⟨p.path, p.plain, Or.inr (Touches.refl m)⟩
  | create p flags reply =>
    by_cases hcached : (m.find p.path).isSome
    · rw [nameStep, opCreate_quiet_cached m reply p.plain.ne_nil flags hcached] at hstep
      simp at hstep
    · obtain ⟨result, m₁, hafter, hcreates⟩ :=
        opCreate_quiet m reply p.plain.ne_nil flags hcached
      rw [nameStep, hafter] at hstep
      obtain rfl : m₁ = m' := Option.some.inj hstep
      exact ⟨p.path, p.plain, Or.inr hcreates.touches⟩
  | unlink p reply =>
    obtain ⟨result, hafter⟩ := opUnlink_quiet m reply p.path
    rw [nameStep, hafter] at hstep
    obtain rfl := Option.some.inj hstep
    refine ⟨p.path, p.plain, Or.inr ?_⟩
    simp only
    split
    · exact (touches_forgetting m p.path).1.trans (touches_erase _)
    · exact Touches.refl m
  | pushed task hplain =>
    obtain rfl : m.pushed task = m' := Option.some.inj hstep
    exact ⟨task.path, hplain, Or.inr (touches_pushed m hplain.ne_nil).1⟩

theorem WellNamed.nameStep {e : NameEvent} (h : m.WellNamed) (hstep : m.nameStep e = some m') :
    m'.WellNamed := by
  obtain ⟨p, hp, rfl | htouch⟩ := nameStep_touches hstep
  · refine ⟨h.versions, fun d hd => ?_⟩
    rw [withDir, Std.ExtTreeSet.mem_insert, Std.LawfulEqCmp.compare_eq_iff_eq] at hd
    rcases hd with rfl | hd
    · exact hp
    · exact h.dirs d hd
  · exact h.touches hp htouch

/-- The empty namespace. -/
theorem wellNamed_empty : WellNamed {} :=
  ⟨fun _ hf => absurd hf Std.ExtTreeMap.not_mem_empty,
    fun _ hd => absurd hd Std.ExtTreeSet.not_mem_empty⟩

theorem sound_empty : Sound {} := by
  refine ⟨fun _ _ _ hdir => absurd hdir Std.ExtTreeSet.not_mem_empty, fun p _ => Or.inr ?_⟩
  have hnot : p ∉ (∅ : StrMap Int32) := Std.ExtTreeMap.not_mem_empty
  refine iff_of_false hnot ?_
  rintro (hcached | hversion)
  · have hnone : ({} : FuseMount).find p = none := Std.ExtTreeMap.getElem?_empty
    rw [hnone] at hcached
    simp at hcached
  · exact hnot (mem_versions_of_version (m := {}) hversion)

theorem wellNamed_run {es : List NameEvent} (hrun : Runs.run nameStep {} es = some m) :
    m.WellNamed :=
  Runs.run_invariant (fun _ _ _ h _ hstep => h.nameStep hstep) wellNamed_empty
    (Runs.Meets.trivial _ es) hrun

/-- Only `op_create` of a cached path does not return. -/
theorem keepsSound_of_refused {e : NameEvent} (hstep : m.nameStep e = none) :
    m.KeepsSound e := by
  cases e with
  | mkdir p => trivial
  | rmdir p => trivial
  | create p flags reply =>
    by_cases hcached : (m.find p.path).isSome
    · exact Or.inl hcached
    · obtain ⟨result, m₁, hafter, -⟩ := opCreate_quiet m reply p.plain.ne_nil flags hcached
      rw [nameStep, hafter] at hstep
      simp at hstep
  | unlink p reply =>
    obtain ⟨result, hafter⟩ := opUnlink_quiet m reply p.path
    rw [nameStep, hafter] at hstep
    simp at hstep
  | pushed task hplain => simp [nameStep] at hstep

/-- The two properties throughout a history. -/
theorem always_sound_iff (es : List NameEvent) :
    (∀ pre post m, es = pre ++ post → Runs.run nameStep {} pre = some m → m.Sound)
      ↔ ∀ pre e post m, es = pre ++ e :: post → Runs.run nameStep {} pre = some m →
        m.KeepsSound e :=
  Runs.always_iff_of_refused (P := fun _ m => m.Sound) (fun _ _ => keepsSound_of_refused)
    sound_empty fun _ _ _ _ _ _ _ h hstep => sound_step_iff h hstep

/-- A file may be created where the version map comes to know it, a file may be forgotten
where this leaves no orphans, and no directory may be removed. -/
def Keeps (m : FuseMount) (e : NameEvent) : Prop :=
  m.KeepsSound e ∧ ∀ p, e = .rmdir p → ¬ m.Removes p.path

/-- `op_rmdir` that returns 0 has changed nothing. -/
theorem rmdir_forgets_iff (m : FuseMount) (q : TreePath) :
    (∀ m', m.after noReply (opRmdir (slash :: q.path)) = some (.ok (), m') →
      m'.isKnownDir q.path = false) ↔ ¬ m.Removes q.path := by
  obtain ⟨result, hafter, hok⟩ := opRmdir_quiet m noReply q.path
  rw [hafter]
  constructor
  · intro h hremoves
    have hgone := h m (by rw [hok.mpr hremoves])
    rw [hremoves.1] at hgone
    simp at hgone
  · intro hnot m' heq
    exact absurd (hok.mp (Prod.mk.inj (Option.some.inj heq)).1) hnot

/-- **The directory namespace over a history.**  From the empty namespace, every state is a
tree whose listings agree with `op_getattr`, and every directory for which `op_rmdir` returns
0 is no longer known, exactly if each operation meets `Keeps`. -/
theorem namespace_tree_iff (es : List NameEvent) :
    ((∀ pre post m, es = pre ++ post → Runs.run nameStep {} pre = some m →
        m.IsTree ∧ m.ListsWhatStats) ∧
      ∀ pre q post m m', es = pre ++ .rmdir q :: post → Runs.run nameStep {} pre = some m →
        m.after noReply (opRmdir (slash :: q.path)) = some (.ok (), m') →
        m'.isKnownDir q.path = false)
      ↔ ∀ pre e post m, es = pre ++ e :: post → Runs.run nameStep {} pre = some m → m.Keeps e := by
  have hsound : (∀ pre post m, es = pre ++ post → Runs.run nameStep {} pre = some m →
      m.IsTree ∧ m.ListsWhatStats)
        ↔ ∀ pre post m, es = pre ++ post → Runs.run nameStep {} pre = some m → m.Sound :=
    forall₅_congr fun _ _ _ _ hrun => (sound_iff (wellNamed_run hrun)).symm
  rw [hsound, always_sound_iff]
  constructor
  · rintro ⟨hkeeps, hgone⟩ pre e post m hsplit hrun
    refine ⟨hkeeps pre e post m hsplit hrun, ?_⟩
    rintro q rfl
    exact (rmdir_forgets_iff m q).mp fun m' => hgone pre q post m m' hsplit hrun
  · intro h
    refine ⟨fun pre e post m hsplit hrun => (h pre e post m hsplit hrun).1, ?_⟩
    intro pre q post m m' hsplit hrun
    exact (rmdir_forgets_iff m q).mpr ((h pre _ post m hsplit hrun).2 q rfl) m'

/-- The paths `a`, `a/b` and `a/f`. -/
def pathA : TreePath := ⟨[97], by decide⟩
def pathAB : TreePath := ⟨[97, slash, 98], by decide⟩
def pathAF : TreePath := ⟨[97, slash, 102], by decide⟩

/-- The directory `a` is made and removed, and is still known.  A file `a/f` of another client
is all there is of `a`: once it is deleted, the directory `a/b` made in it has no parent.  And
a file whose CREATE_FILE is answered by an ACK without a version is there for `op_getattr`
and is not listed. -/
theorem namespace_breaks :
    ((Runs.run nameStep {} [.mkdir pathA]).bind fun m =>
      m.after noReply (opRmdir (slash :: pathA.path))).map
        (fun r => (r.1, r.2.isKnownDir pathA.path)) = some (.ok (), true) ∧
    (Runs.run nameStep {} [.pushed (.pushCreateFile pathAF.path 1 []) pathAF.plain, .mkdir pathAB,
      .pushed (.pushDeleteFile pathAF.path) pathAF.plain]).map
        (fun m => (m.isKnownDir pathAB.path, m.isKnownDir pathA.path)) = some (true, false) ∧
    (Runs.run nameStep {} [.create pathA ⟨true, false⟩ fun _ => (ackMessage true 0, [])]).map
        (fun m => ((m.after noReply (opGetattr (slash :: pathA.path))).map fun r => r.1.toBool,
          (m.after noReply (opReaddir [slash])).map fun r => r.1.toOption))
      = some (some true, some (some [[0x2e], [0x2e, 0x2e]])) := by
  decide

end FuseMount

end Squid
