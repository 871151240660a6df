/-
The callbacks on names, with no push in between.

In a quiet run nothing is pushed and the server answers the calls in turn with the given
replies.  Every callback then is a function of the mount: what it returns, and the mount
it leaves.

* `opGetattr_quiet`, `opReaddir_quiet`, `opMkdir_quiet`, `opRmdir_quiet`, `opUnlink_quiet`
  — these functions;
* `opOpen_quiet`, `opCreate_quiet` — what `op_create` leaves, from the replies to
  CREATE_FILE, ACQUIRE_LOCK and DELETE_FILE.
-/
import SquidStorage.FuseCallbacks

open BigEndian PathNames ScopedLock

namespace Squid

open FuseM

/-- Nothing is pushed. -/
def quiet (m : FuseMount) (reply : ℕ → Message × Bytes) (calls pauses : ℕ) : FuseState :=
  { mount := m
    around := { reply := reply, pushes := fun _ => [] }
    calls := calls
    pauses := pauses }

theorem rel_slash (p : Bytes) : rel (slash :: p) = p := by
  simp only [rel, if_true]

section Quiet

variable {α : Type} (m : FuseMount) (reply : ℕ → Message × Bytes) (c k : ℕ) (h : Hold)

theorem others_quiet :
    others.run (quiet m reply c k) h = (.returned (), quiet m reply c (k + 1), h) := rfl

theorem look_quiet (f : FuseMount → α) :
    (look f).run (quiet m reply c k) h = (.returned (f m), quiet m reply c k, h) := rfl

theorem peek_quiet (f : FuseMount → α) :
    (peek f).run (quiet m reply c k) h = (.returned (f m), quiet m reply c (k + 1), h) := rfl

theorem changeFS_quiet (f : SquidFS → SquidFS) :
    (changeFS f).run (quiet m reply c k) h = (.returned (), quiet (m.onFS f) reply c k, h) := rfl

theorem rpc_quiet (request : Rpc) :
    (rpc request).run (quiet m reply c k) h = (.returned (reply c),
      quiet (m.onFS fun fs => fs.noteReply (reply c).1 request) reply (c + 1) (k + 1), h) := rfl

theorem unlockedRpc_quiet (request : Rpc) :
    (unlockedRpc request).run (quiet m reply c k) .owned = (.returned (reply c),
      quiet (m.onFS fun fs => fs.noteReply (reply c).1 request) reply (c + 1) (k + 2), .owned) :=
  rfl

theorem guarded_quiet {x : FuseM α} {a : α} {m' : FuseMount}
    (hx : x.run (quiet m reply c k) .guarded = (.returned a, quiet m' reply c k, .guarded)) :
    (guarded x).run (quiet m reply c k) .free
      = (.returned a, quiet m' reply c (k + 1), .free) := by
  rw [guarded, bind_returned (lockGuard_returned hx), bind_returned (others_quiet ..), return_run]

end Quiet

namespace FuseMount

/-- A quiet run of a callback: what it returns and the mount it leaves. -/
def after {α : Type} (m : FuseMount) (reply : ℕ → Message × Bytes) (x : FuseM α) :
    Option (α × FuseMount) :=
  match x.run (quiet m reply 0 0) .free with
  | (.returned a, s, _) => some (a, s.mount)
  | (.deadlocked, _, _) | (.misused, _, _) => none

variable {α : Type} {m m' : FuseMount} {reply : ℕ → Message × Bytes} {x : FuseM α} {a : α} {c k : ℕ}
  {h : Hold}

theorem after_eq (hx : x.run (quiet m reply 0 0) .free = (.returned a, quiet m' reply c k, h)) :
    m.after reply x = some (a, m') := by
  rw [after, hx]
  rfl

/-! ### Names -/

/-- `op_getattr` finds the path below the root. -/
def HasAttr (m : FuseMount) (p : Bytes) : Prop :=
  (m.find p).isSome ∨ m.isKnownDir p = true ∨ 0 ≤ m.getFileVersion p

theorem opGetattr_quiet (m : FuseMount) (reply : ℕ → Message × Bytes) {p : Bytes} (hp : p ≠ []) :
    ∃ result, m.after reply (opGetattr (slash :: p)) = some (result, m) ∧
      ((∃ st, result = .ok st) ↔ m.HasAttr p) := by
  have hroot : slash :: p ≠ [slash] := by simpa using hp
  have hrel := rel_slash p
  have hguard := guarded_quiet m reply 0 0 (look_quiet m reply 0 0 .guarded fun m => m.find p)
  cases hfind : m.find p with
  | some entry =>
    refine ⟨.ok (.file entry.data.length), after_eq (c := 0) (k := 1) (h := .free) ?_, ?_⟩
    · simp only [opGetattr, if_neg hroot, hrel]
      rw [bind_returned hguard, hfind]
      rfl
    · simp [HasAttr, hfind]
  | none =>
    by_cases hdir : m.isKnownDir p = true
    · refine ⟨.ok .dir, after_eq (c := 0) (k := 2) (h := .free) ?_, ?_⟩
      · simp only [opGetattr, if_neg hroot, hrel]
        rw [bind_returned hguard, hfind]
        dsimp only
        rw [bind_returned (peek_quiet ..), if_pos hdir]
        rfl
      · simp [HasAttr, hdir]
    · have hrun : (opGetattr (slash :: p)).run (quiet m reply 0 0) .free
          = (.returned (if m.getFileVersion p < 0 then .error .enoent else .ok (.file 0)),
              quiet m reply 0 3, .free) := by
        simp only [opGetattr, if_neg hroot, hrel]
        rw [bind_returned hguard, hfind]
        dsimp only
        rw [bind_returned (peek_quiet ..), if_neg hdir, bind_returned (peek_quiet ..)]
        split <;> rfl
      refine ⟨_, after_eq hrun, ?_⟩
      by_cases hneg : m.getFileVersion p < 0
      · have hnot : ¬ 0 ≤ m.getFileVersion p := Int32.not_le.mpr hneg
        simp [HasAttr, hneg, hfind, hdir, hnot]
      · simp [HasAttr, hneg, Int32.not_lt.mp hneg]

/-- The names that are listed for a set of children. -/
theorem mem_dirents_iff {children : StrSet} {n : Bytes} (hn : slash ∉ n) :
    n ∈ children.toList.map dirent ↔ n ∈ children ∨ n ++ [slash] ∈ children := by
  have hfile : dirent n = n := by
    rw [dirent, if_neg]
    rintro ⟨-, hlast⟩
    exact hn (List.mem_of_getLast? hlast)
  have hdir : dirent (n ++ [slash]) = n := by
    rw [dirent, if_pos ⟨by simp, by simp⟩, List.dropLast_concat]
  simp only [List.mem_map, Std.ExtTreeSet.mem_toList]
  constructor
  · rintro ⟨child, hchild, rfl⟩
    rw [dirent] at hn ⊢
    split at hn
    · rename_i hslash
      rw [if_pos hslash]
      obtain ⟨front, rfl⟩ : ∃ front, child = front ++ [slash] := by
        obtain ⟨front, hfront⟩ := List.getLast?_eq_some_iff.mp hslash.2
        exact ⟨front, hfront⟩
      rw [List.dropLast_concat]
      exact Or.inr hchild
    · rename_i hslash
      rw [if_neg hslash]
      exact Or.inl hchild
  · rintro (hchild | hchild)
    · exact ⟨n, hchild, hfile⟩
    · exact ⟨n ++ [slash], hchild, hdir⟩

/-- `op_readdir` of a directory lists a name. -/
def Lists (m : FuseMount) (reply : ℕ → Message × Bytes) (d n : Bytes) : Prop :=
  ∃ names m', m.after reply (opReaddir (slash :: d)) = some (.ok names, m') ∧ n ∈ names

theorem opReaddir_quiet (m : FuseMount) (reply : ℕ → Message × Bytes) (d : Bytes) :
    m.after reply (opReaddir (slash :: d))
      = some (if d ≠ [] ∧ m.isKnownDir d = false then .error .enoent
          else .ok ([0x2e] :: [0x2e, 0x2e] :: (m.listChildren d).toList.map dirent), m) := by
  by_cases hunknown : d ≠ [] ∧ m.isKnownDir d = false
  · refine after_eq (c := 0) (k := 1) (h := .free) ?_
    rw [opReaddir]
    simp only [rel_slash]
    rw [bind_returned (peek_quiet ..), if_pos hunknown, if_pos hunknown]
    rfl
  · refine after_eq (c := 0) (k := 2) (h := .free) ?_
    rw [opReaddir]
    simp only [rel_slash]
    rw [bind_returned (peek_quiet ..), if_neg hunknown, if_neg hunknown,
      bind_returned (peek_quiet ..)]
    rfl

/-- A directory lists what is in it, `.` and `..` apart. -/
theorem lists_iff (hkeys : m.NoTrailingSlash) {d n : Bytes} (hn : IsComponent slash n)
    (hdot : n ≠ [0x2e] ∧ n ≠ [0x2e, 0x2e]) :
    m.Lists reply d n ↔ (d = [] ∨ m.isKnownDir d = true) ∧
      (join slash d n ∈ m.versions ∨ m.isKnownDir (join slash d n) = true) := by
  have hunknown : ¬ (d ≠ [] ∧ m.isKnownDir d = false) ↔ d = [] ∨ m.isKnownDir d = true := by
    rw [not_and_or, not_not, Bool.not_eq_false]
  rw [← file_listed_iff hn.2, ← dir_listed_iff hkeys hn, ← mem_dirents_iff hn.2, ← hunknown, Lists,
    opReaddir_quiet]
  constructor
  · rintro ⟨names, m', heq, hmem⟩
    obtain ⟨hresult, -⟩ := Prod.mk.inj (Option.some.inj heq)
    split at hresult
    · simp at hresult
    · rename_i hknown
      obtain rfl := Except.ok.inj hresult
      refine ⟨hknown, ?_⟩
      simpa [hdot.1, hdot.2] using hmem
  · rintro ⟨hknown, hmem⟩
    refine ⟨_, m, by rw [if_neg hknown], ?_⟩
    exact List.mem_cons_of_mem _ (List.mem_cons_of_mem _ hmem)

/-- `op_mkdir` makes the directory: the path is no file that has a version, and its parent
is there. -/
def Makes (m : FuseMount) (p : Bytes) : Prop := ¬ 0 ≤ m.getFileVersion p ∧ m.lacksParent p = false

/-- The mount once a directory has been made. -/
def withDir (m : FuseMount) (p : Bytes) : FuseMount :=
  { m with createdDirs := m.createdDirs.insert p }

theorem opMkdir_quiet (m : FuseMount) (reply : ℕ → Message × Bytes) {p : Bytes} (hp : p ≠ []) :
    (m.Makes p ∧ m.after reply (opMkdir (slash :: p)) = some (.ok (), m.withDir p)) ∨
      (¬ m.Makes p ∧ ∃ e, m.after reply (opMkdir (slash :: p)) = some (.error e, m)) := by
  have hrun : ∀ {k : ℕ} {result : Except NameErrno Unit} {m' : FuseMount},
      (opMkdir (slash :: p)).run (quiet m reply 0 0) .free
        = (.returned result, quiet m' reply 0 k, .free) →
      m.after reply (opMkdir (slash :: p)) = some (result, m') := after_eq
  rw [opMkdir] at hrun ⊢
  simp only [rel_slash, if_neg hp] at hrun ⊢
  rw [bind_returned (peek_quiet ..)] at hrun
  by_cases hfile : 0 ≤ m.getFileVersion p
  · refine Or.inr ⟨fun h => h.1 hfile, .eexist, hrun (k := 1) ?_⟩
    rw [if_pos hfile]
    rfl
  · rw [if_neg hfile, bind_returned (peek_quiet ..)] at hrun
    cases hparent : m.lacksParent p with
    | false =>
      refine Or.inl ⟨⟨hfile, hparent⟩, hrun (k := 2) ?_⟩
      rw [hparent]
      rfl
    | true =>
      refine Or.inr ⟨fun h => absurd h.2 (by simp [hparent]), .enoent, hrun (k := 2) ?_⟩
      rw [hparent]
      rfl

/-- `op_rmdir` returns 0: the directory is known and lists nothing. -/
def Removes (m : FuseMount) (p : Bytes) : Prop :=
  m.isKnownDir p = true ∧ (m.listChildren p).isEmpty = true

theorem opRmdir_quiet (m : FuseMount) (reply : ℕ → Message × Bytes) (p : Bytes) :
    ∃ result, m.after reply (opRmdir (slash :: p)) = some (result, m) ∧
      (result = .ok () ↔ m.Removes p) := by
  have hrun : ∀ {k : ℕ} {result : Except NameErrno Unit},
      (opRmdir (slash :: p)).run (quiet m reply 0 0) .free
        = (.returned result, quiet m reply 0 k, .free) →
      m.after reply (opRmdir (slash :: p)) = some (result, m) := after_eq
  rw [opRmdir] at hrun ⊢
  simp only [rel_slash] at hrun ⊢
  rw [bind_returned (peek_quiet ..)] at hrun
  cases hknown : m.isKnownDir p with
  | false =>
    refine ⟨.error .enoent, hrun (k := 1) ?_, by simp [Removes, hknown]⟩
    simp only [hknown]
    rfl
  | true =>
    simp only [hknown, Bool.not_true, Bool.false_eq_true, if_false] at hrun
    rw [bind_returned (peek_quiet ..)] at hrun
    cases hempty : (m.listChildren p).isEmpty with
    | false =>
      refine ⟨.error .enotempty, hrun (k := 2) ?_, by simp [Removes, hempty]⟩
      simp only [hempty]
      rfl
    | true =>
      refine ⟨.ok (), hrun (k := 2) ?_, by simp [Removes, hknown, hempty]⟩
      simp only [hempty]
      rfl

/-! ### Files -/

/-- Only the entries of one path in the cache and in the version map may differ. -/
structure Touches (p : Bytes) (m m' : FuseMount) : Prop where
  dirs : m'.createdDirs = m.createdDirs
  cache : ∀ q, q ≠ p → m'.find q = m.find q
  versions : ∀ q : Bytes, q ≠ p → m'.versions[q]? = m.versions[q]?

section Touches

variable {p : Bytes} {m'' : FuseMount}

theorem Touches.refl (m : FuseMount) : m.Touches p m := ⟨rfl, fun _ _ => rfl, fun _ _ => rfl⟩

theorem Touches.trans (h : m.Touches p m') (h' : m'.Touches p m'') : m.Touches p m'' where
  dirs := h'.dirs.trans h.dirs
  cache q hq := (h'.cache q hq).trans (h.cache q hq)
  versions q hq := (h'.versions q hq).trans (h.versions q hq)

theorem touches_setEntry (m : FuseMount) (e : CacheEntry) :
    m.Touches p (m.onFS fun fs => fs.setEntry p e) where
  dirs := rfl
  cache q hq := (SquidFS.find_setEntry m.toSquidFS p q e).trans (if_neg (Ne.symm hq))
  versions _ _ := rfl

theorem touches_erase (m : FuseMount) : m.Touches p (m.onFS fun fs => fs.erase p) where
  dirs := rfl
  cache q hq := (SquidFS.find_erase m.toSquidFS p q).trans (if_neg (Ne.symm hq))
  versions _ _ := rfl

theorem touches_eraseUnopened (m : FuseMount) :
    m.Touches p (m.onFS fun fs => fs.eraseUnopened p) ∧
      (m.onFS fun fs => fs.eraseUnopened p).versions = m.versions := by
  have heq : (m.onFS fun fs => fs.eraseUnopened p)
      = m ∨ (m.onFS fun fs => fs.eraseUnopened p) = m.onFS fun fs => fs.erase p := by
    rcases SquidFS.eraseUnopened_eq m.toSquidFS p with h | ⟨-, h⟩
    · exact Or.inl (congrArg (fun fs => ({ m with toSquidFS := fs } : FuseMount)) h)
    · exact Or.inr (congrArg (fun fs => ({ m with toSquidFS := fs } : FuseMount)) h)
  rcases heq with h | h
  · rw [h]
    exact ⟨Touches.refl m, rfl⟩
  · rw [h]
    exact ⟨touches_erase m, rfl⟩

end Touches

/-- The version that the client notes from an ACK. -/
def notedVersion (ack : Message) : Option Int32 :=
  let v := ack.getUint32 .fileVersion 0xffffffff
  if v ≠ 0xffffffff then some (toInt32 v) else none

/-- The mount once the version of an ACK has been noted. -/
def noting (m : FuseMount) (p : Bytes) (ack : Message) : FuseMount :=
  m.onFS fun fs => fs.setVersionFromAck p ack

theorem touches_noting (m : FuseMount) (p : Bytes) (ack : Message) :
    m.Touches p (m.noting p ack) ∧ (m.noting p ack).find p = m.find p ∧
      (m.noting p ack).versions[p]?
        = if ack.isAck then (notedVersion ack).or m.versions[p]? else m.versions[p]? := by
  simp only [noting, onFS, SquidFS.setVersionFromAck, notedVersion]
  cases hack : ack.isAck with
  | false =>
    simp only [Bool.not_false, if_true]
    exact ⟨Touches.refl m, by simp⟩
  | true =>
    simp only [Bool.not_true, Bool.false_eq_true, if_false]
    split
    · refine ⟨⟨rfl, fun _ _ => rfl, fun q hq => ?_⟩, rfl, ?_⟩
      · rw [SquidFS.setFileVersion, Std.ExtTreeMap.getElem?_insert, if_neg]
        exact fun h => hq (Std.LawfulEqCmp.compare_eq_iff_eq.mp h).symm
      · rw [SquidFS.setFileVersion, Std.ExtTreeMap.getElem?_insert_self]
        rfl
    · exact ⟨Touches.refl m, rfl, rfl⟩

/-- The mount once a file is forgotten. -/
def forgetting (m : FuseMount) (p : Bytes) : FuseMount := m.onFS fun fs => fs.deleteFileVersion p

theorem touches_forgetting (m : FuseMount) (p : Bytes) :
    m.Touches p (m.forgetting p) ∧ (m.forgetting p).find p = m.find p ∧
      (m.forgetting p).versions[p]? = none := by
  refine ⟨⟨rfl, fun _ _ => rfl, fun q hq => ?_⟩, rfl, Std.ExtTreeMap.getElem?_erase_self⟩
  show (m.versions.erase p)[q]? = m.versions[q]?
  rw [Std.ExtTreeMap.getElem?_erase, if_neg]
  exact fun h => hq (Std.LawfulEqCmp.compare_eq_iff_eq.mp h).symm

/-- `op_unlink`: an ACK takes the path out of the version map and of the cache. -/
theorem opUnlink_quiet (m : FuseMount) (reply : ℕ → Message × Bytes) (p : Bytes) :
    ∃ result, m.after reply (opUnlink (slash :: p)) = some (result,
      if (reply 0).1.isAck then (m.forgetting p).onFS fun fs => fs.erase p else m) := by
  have hrun : ∀ {k : ℕ} {result : OpResult} {m' : FuseMount},
      (opUnlink (slash :: p)).run (quiet m reply 0 0) .free
        = (.returned result, quiet m' reply 1 k, .free) →
      m.after reply (opUnlink (slash :: p)) = some (result, m') := after_eq
  rw [opUnlink] at hrun ⊢
  simp only [rel_slash] at hrun ⊢
  rw [bind_returned (rpc_quiet ..)] at hrun
  cases hack : (reply 0).1.isAck with
  | false =>
    refine ⟨.failed .eio, hrun (k := 1) ?_⟩
    simp only [hack, SquidFS.noteReply]
    rfl
  | true =>
    refine ⟨.done, hrun (k := 1) ?_⟩
    simp only [hack, SquidFS.noteReply]
    rfl

/-- What `op_open` of a path leaves: a version that was known still is, and it is the
same one unless the path is cached now. -/
structure Opens (p : Bytes) (m m' : FuseMount) : Prop extends m.Touches p m' where
  known : p ∈ m.versions → p ∈ m'.versions
  cached : (m'.find p).isSome ∨ m'.versions[p]? = m.versions[p]?

/-- What the fetch of `op_open` leaves. -/
structure Fetches (p : Bytes) (failed : Option Errno) (m m' : FuseMount) : Prop
    extends m.Touches p m' where
  known : p ∈ m.versions → p ∈ m'.versions
  same : failed ≠ none → m'.versions[p]? = m.versions[p]?

theorem mem_of_getElem?_eq {p : Bytes} (h : m'.versions[p]? = m.versions[p]?)
    (hp : p ∈ m.versions) : p ∈ m'.versions := by
  rwa [Std.ExtTreeMap.mem_iff_isSome_getElem?, h, ← Std.ExtTreeMap.mem_iff_isSome_getElem?]

theorem fetchIntoCache_quiet (m : FuseMount) (reply : ℕ → Message × Bytes) (c k : ℕ) (p : Bytes) :
    ∃ failed m', (fetchIntoCache p).run (quiet m reply c k) .owned
        = (.returned failed, quiet m' reply (c + 1) (k + 2), .owned) ∧
      m.Fetches p failed m' := by
  obtain ⟨htouch, -, hversion⟩ := touches_noting m p (reply c).1
  rw [fetchIntoCache, bind_returned (unlockedRpc_quiet ..)]
  have hnote : (m.onFS fun fs => fs.noteReply (reply c).1 (.readFile p)) = m.noting p (reply c).1 :=
    rfl
  rw [hnote]
  cases hack : (reply c).1.isAck with
  | false =>
    rw [hack] at hversion
    refine ⟨some .eio, _, rfl, { htouch with known := ?_, same := fun _ => hversion }⟩
    exact mem_of_getElem?_eq hversion
  | true =>
    rw [hack] at hversion
    refine ⟨none, _, rfl, { htouch.trans (touches_setEntry _ _) with known := ?_, same := ?_ }⟩
    · intro hp
      show p ∈ (m.noting p (reply c).1).versions
      rw [Std.ExtTreeMap.mem_iff_isSome_getElem?] at hp ⊢
      rw [hversion]
      simp [hp]
    · exact fun h => absurd rfl h

theorem fetchFirst_quiet (m : FuseMount) (reply : ℕ → Message × Bytes) (c k : ℕ) (p : Bytes) :
    ∃ failed m' c' k', (fetchFirst p).run (quiet m reply c k) .owned
        = (.returned failed, quiet m' reply c' k', .owned) ∧ m.Fetches p failed m' := by
  have htouch := touches_setEntry (p := p) m (m.entry p)
  rw [fetchFirst, bind_returned (changeFS_quiet ..), bind_returned (look_quiet ..)]
  split
  · obtain ⟨failed, m', hrun, hfetch⟩ :=
      fetchIntoCache_quiet (m.onFS fun fs => fs.touch p) reply c k p
    refine ⟨failed, m', c + 1, k + 2, hrun, ?_⟩
    exact { htouch.trans hfetch.toTouches with known := hfetch.known, same := hfetch.same }
  · refine ⟨none, _, c, k, rfl, { htouch with known := fun h => h, same := fun _ => rfl }⟩

theorem releaseIf_quiet (m : FuseMount) (reply : ℕ → Message × Bytes) (c k : ℕ) (writable : Bool)
    (p : Bytes) : ∃ c' k', (releaseIf writable p).run (quiet m reply c k) .owned
      = (.returned (), quiet m reply c' k', .owned) := by
  cases writable with
  | false => exact ⟨c, k, rfl⟩
  | true => exact ⟨c + 1, k + 2, rfl⟩

theorem openLocked_quiet (m : FuseMount) (reply : ℕ → Message × Bytes) (c k : ℕ) (p : Bytes)
    (flags : OpenFlags) : ∃ result m' c' k', (openLocked p flags).run (quiet m reply c k) .owned
        = (.returned result, quiet m' reply c' k', .owned) ∧ m.Opens p m' := by
  obtain ⟨failed, m₁, c₁, k₁, hrun, hfetch⟩ := fetchFirst_quiet m reply c k p
  rw [openLocked, bind_returned hrun]
  cases failed with
  | none =>
    refine ⟨_, _, c₁, k₁, rfl, ?_⟩
    exact { hfetch.toTouches.trans (touches_setEntry _ _) with
      known := hfetch.known
      cached := Or.inl (by
        show (SquidFS.find (m₁.toSquidFS.setEntry p _) p).isSome
        rw [SquidFS.find_setEntry_self, Option.isSome_some]) }
  | some rc =>
    obtain ⟨c₂, k₂, hrelease⟩ := releaseIf_quiet m₁ reply c₁ k₁ flags.writable p
    obtain ⟨herase, hversions⟩ := touches_eraseUnopened (p := p) m₁
    have hsame := hfetch.same (by simp)
    refine ⟨.failed rc, m₁.onFS fun fs => fs.eraseUnopened p, c₂, k₂, ?_, ?_⟩
    · dsimp only
      rw [bind_returned hrelease, bind_returned (changeFS_quiet ..)]
      rfl
    · exact { hfetch.toTouches.trans herase with
        known := fun h => by rw [hversions]; exact hfetch.known h
        cached := Or.inr (by rw [hversions]; exact hsame) }

theorem opOpen_quiet (m : FuseMount) (reply : ℕ → Message × Bytes) (c k : ℕ) {p : Bytes}
    (hp : p ≠ []) (flags : OpenFlags) : ∃ result m' c' k',
      (opOpen (slash :: p) flags).run (quiet m reply c k) .free
        = (.returned result, quiet m' reply c' k', .free) ∧ m.Opens p m' := by
  have htouch := touches_setEntry (p := p) m (m.entry p)
  set m₁ := m.onFS fun fs => fs.touch p
  -- from an open inside the scope of the lock to `op_open`
  have hscope : ∀ {result : OpResult} {m' : FuseMount} {c' k' : ℕ} {x : FuseM OpResult},
      x.run (quiet m reply c k) .owned = (.returned result, quiet m' reply c' k', .owned) →
      (uniqueLock x).run (quiet m reply c k) .free
        = (.returned result, quiet m' reply c' k', .free) := uniqueLock_returned
  have hlocked : ∀ c k, ∃ result m' c' k', (openLocked p flags).run (quiet m₁ reply c k) .owned
      = (.returned result, quiet m' reply c' k', .owned) ∧ m.Opens p m' := by
    intro c k
    obtain ⟨result, m', c', k', hrun, hopens⟩ := openLocked_quiet m₁ reply c k p flags
    exact ⟨result, m', c', k', hrun, { htouch.trans hopens.toTouches with
      known := hopens.known, cached := hopens.cached }⟩
  simp only [opOpen, rel_slash, if_neg hp]
  by_cases hlock : flags.writable = true ∧ (m₁.entry p).lockCount = 0
  · cases hack : (reply c).1.isAck with
    | false =>
      obtain ⟨herase, hversions⟩ := touches_eraseUnopened (p := p) m₁
      refine ⟨.failed .eacces, m₁.onFS fun fs => fs.eraseUnopened p, c + 1, k + 2, hscope ?_,
        { htouch.trans herase with
          known := fun h => by rw [hversions]; exact h
          cached := Or.inr (by rw [hversions]; rfl) }⟩
      rw [bind_returned (changeFS_quiet ..), bind_returned (look_quiet ..), if_pos hlock,
        bind_returned (unlockedRpc_quiet ..), bind_returned (look_quiet ..), hack]
      rfl
    | true =>
      have hfind : ((m₁.onFS fun fs => fs.noteReply (reply c).1 (.acquireLock p)).find p).isNone
          = false := by
        show (SquidFS.find (m.toSquidFS.touch p) p).isNone = false
        rw [SquidFS.touch, SquidFS.find_setEntry_self]
        rfl
      obtain ⟨result, m', c', k', hrun, hopens⟩ := hlocked (c + 1) (k + 2)
      refine ⟨result, m', c', k', hscope ?_, hopens⟩
      rw [bind_returned (changeFS_quiet ..), bind_returned (look_quiet ..), if_pos hlock,
        bind_returned (unlockedRpc_quiet ..), bind_returned (look_quiet ..), hack, hfind]
      exact hrun
  · obtain ⟨result, m', c', k', hrun, hopens⟩ := hlocked c k
    refine ⟨result, m', c', k', hscope ?_, hopens⟩
    rw [bind_returned (changeFS_quiet ..), bind_returned (look_quiet ..), if_neg hlock]
    exact hrun

/-- What `op_create` of a path that is not cached leaves, by the version that is known of
the path and by the replies to CREATE_FILE, ACQUIRE_LOCK and DELETE_FILE. -/
inductive Creates (m : FuseMount) (reply : ℕ → Message × Bytes) (p : Bytes) (m' : FuseMount) :
    Prop where
  /-- the file is known: it is opened -/
  | opened (hknown : 0 ≤ m.getFileVersion p) (hopens : m.Opens p m')
  /-- CREATE_FILE is refused -/
  | refused (hnew : ¬ 0 ≤ m.getFileVersion p) (hcreate : (reply 0).1.isAck = false) (hm : m' = m)
  /-- the file is created and locked -/
  | created (hnew : ¬ 0 ≤ m.getFileVersion p) (hcreate : (reply 0).1.isAck = true)
      (hlock : (reply 1).1.isAck = true) (htouch : m.Touches p m')
      (hcached : (m'.find p).isSome)
      (hversion : m'.versions[p]? = (notedVersion (reply 0).1).or m.versions[p]?)
  /-- the lock is refused and the file is deleted again -/
  | undone (hnew : ¬ 0 ≤ m.getFileVersion p) (hcreate : (reply 0).1.isAck = true)
      (hlock : (reply 1).1.isAck = false) (hdelete : (reply 2).1.isAck = true)
      (htouch : m.Touches p m') (hfind : m'.find p = m.find p) (hversion : m'.versions[p]? = none)
  /-- the lock is refused, and so is the DELETE_FILE -/
  | left (hnew : ¬ 0 ≤ m.getFileVersion p) (hcreate : (reply 0).1.isAck = true)
      (hlock : (reply 1).1.isAck = false) (hdelete : (reply 2).1.isAck = false)
      (htouch : m.Touches p m') (hfind : m'.find p = m.find p)
      (hversion : m'.versions[p]? = (notedVersion (reply 0).1).or m.versions[p]?)

theorem createNew_quiet (m : FuseMount) (reply : ℕ → Message × Bytes) (k : ℕ) (p : Bytes)
    (hnew : ¬ 0 ≤ m.getFileVersion p) : ∃ result m' c' k',
      (createNew p).run (quiet m reply 0 k) .free
        = (.returned result, quiet m' reply c' k', .free) ∧ m.Creates reply p m' := by
  obtain ⟨htouch, hfind, hversion⟩ := touches_noting m p (reply 0).1
  rw [createNew, bind_returned (rpc_quiet ..)]
  have hnote : (m.onFS fun fs => fs.noteReply (reply 0).1 (.createFile p 0 []))
      = m.noting p (reply 0).1 := rfl
  rw [hnote]
  cases hcreate : (reply 0).1.isAck with
  | false =>
    have hsame : m.noting p (reply 0).1 = m := by
      simp only [noting, onFS, SquidFS.setVersionFromAck, hcreate, Bool.not_false, if_true]
    rw [hsame]
    exact ⟨_, _, 1, k + 1, rfl, .refused hnew hcreate rfl⟩
  | true =>
    rw [hcreate] at hversion
    simp only [Bool.not_true, Bool.false_eq_true, if_false]
    rw [bind_returned (rpc_quiet ..)]
    cases hlock : (reply 1).1.isAck with
    | true =>
      have hset := htouch.trans (touches_setEntry (p := p) (m.noting p (reply 0).1)
        { version := toInt32 ((reply 0).1.getUint32 .fileVersion 0)
          lockCount := 1
          openCount := 1 })
      refine ⟨_, _, 2, k + 3, rfl, .created hnew hcreate hlock
        ⟨hset.dirs, hset.cache, hset.versions⟩ ?_ hversion⟩
      show (SquidFS.find ((m.noting p (reply 0).1).toSquidFS.setEntry p _) p).isSome
      rw [SquidFS.find_setEntry_self, Option.isSome_some]
    | false =>
      simp only [Bool.not_false, if_true]
      rw [bind_returned (rpc_quiet ..)]
      cases hdelete : (reply 2).1.isAck with
      | true =>
        obtain ⟨hforget, hfind', hgone⟩ := touches_forgetting (m.noting p (reply 0).1) p
        refine ⟨.failed .eacces, (m.noting p (reply 0).1).forgetting p, 3, k + 3, ?_,
          .undone hnew hcreate hlock hdelete (htouch.trans hforget) (hfind'.trans hfind) hgone⟩
        simp only [SquidFS.noteReply, hdelete]
        rfl
      | false =>
        refine ⟨.failed .eacces, m.noting p (reply 0).1, 3, k + 3, ?_,
          .left hnew hcreate hlock hdelete htouch hfind hversion⟩
        simp only [SquidFS.noteReply, hdelete]
        rfl

/-- `op_create` of a path that is not cached. -/
theorem opCreate_quiet (m : FuseMount) (reply : ℕ → Message × Bytes) {p : Bytes} (hp : p ≠ [])
    (flags : OpenFlags) (hcached : ¬ (m.find p).isSome) :
    ∃ result m', m.after reply (opCreate (slash :: p) flags) = some (result, m') ∧
      m.Creates reply p m' := by
  have hdelegate : (delegate (slash :: p) flags).run (quiet m reply 0 0) .guarded
      = (.returned none, quiet m reply 0 0, .guarded) := by
    refine delegate_uncached flags ?_
    rw [rel_slash]
    exact hcached
  have hrun : ∀ {result : OpResult} {m' : FuseMount} {c' k' : ℕ},
      (opCreate (slash :: p) flags).run (quiet m reply 0 0) .free
        = (.returned result, quiet m' reply c' k', .free) →
      m.after reply (opCreate (slash :: p) flags) = some (result, m') := after_eq
  rw [opCreate] at hrun ⊢
  simp only [rel_slash, if_neg hp] at hrun ⊢
  rw [bind_returned (guarded_quiet m reply 0 0 hdelegate)] at hrun
  dsimp only at hrun
  rw [bind_returned (peek_quiet ..)] at hrun
  by_cases hknown : 0 ≤ m.getFileVersion p
  · rw [if_pos hknown] at hrun
    obtain ⟨result, m', c', k', hopen, hopens⟩ := opOpen_quiet m reply 0 2 hp flags
    exact ⟨result, m', hrun hopen, .opened hknown hopens⟩
  · rw [if_neg hknown] at hrun
    obtain ⟨result, m', c', k', hcreate, hcreates⟩ := createNew_quiet m reply 2 p hknown
    exact ⟨result, m', hrun hcreate, hcreates⟩

/-- `op_create` of a path that is cached never returns. -/
theorem opCreate_quiet_cached (m : FuseMount) (reply : ℕ → Message × Bytes) {p : Bytes}
    (hp : p ≠ []) (flags : OpenFlags) (hcached : (m.find p).isSome) :
    m.after reply (opCreate (slash :: p) flags) = none := by
  have hdead : (opCreate (slash :: p) flags).run (quiet m reply 0 0) .free
      = (.deadlocked, quiet m reply 0 0, .guarded) := by
    refine opCreate_cached flags ?_ ?_
    · rw [rel_slash]
      exact hp
    · rw [rel_slash]
      exact hcached
  rw [after, hdead]

end FuseMount

end Squid
