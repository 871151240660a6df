/-
The lock table under any interleaving of the sections that hold `stateMutex_`.

A call of the lock manager is a sequence of sections: `acquireLock` and `releaseLock` of
an unknown path drop the mutex for a `buildFileLockMap`, which holds it once to read the
datanodes and once for each reply, and take it again; a sweep of
`checkFileLockExpiration` collects the expired locks in one section and clears each of
them in a section of its own, after a lookup of the holder's session.  Any thread may run
its next section at any time.

* `entryChange` — all that a section can do to one entry of the table;
* `held_of_since_grant` — a granted entry is locked until a section clears or erases it;
* `grants_exclusive` — between two grants of a path there is such a section, and the
  sections of `insertLock` and `buildFileLockMap` leave every locked entry as it is;
* `acquireLock_alone`, `releaseLock_alone`, `checkFileLockExpiration_alone` — the sections of
  one call, with no other thread in between, are the call.
-/
import SquidStorage.Locks
import Mathlib.Logic.Function.Basic

open BigEndian

namespace Squid

/-! ### The sections -/

/-- What a thread goes on with after a `buildFileLockMap`. -/
inductive AfterBuild where
  /-- nothing: it was called for itself -/
  | leave
  | acquire (path clientName : Bytes)
  | release (path : Bytes)
deriving DecidableEq, Repr

/-- Where a thread stands between two sections. -/
inductive LockPc where
  | idle
  /-- the mutex has been dropped, and `buildFileLockMap` is called -/
  | dropped (next : AfterBuild)
  /-- in the loop of `buildFileLockMap`, with the datanodes that are left -/
  | building (left : List SessionId) (next : AfterBuild)
  /-- in the loop of a sweep, before the lookup of the holder -/
  | notifying (now : ℕ) (left : List (Bytes × Bytes))
  /-- in the loop of a sweep, before the path is cleared -/
  | clearing (now : ℕ) (path : Bytes) (left : List (Bytes × Bytes))
deriving DecidableEq, Repr

/-- The next section of a thread.  The first six begin a call. -/
inductive LockAction where
  | acquireLock (path clientName : Bytes)
  | releaseLock (path : Bytes)
  | checkFileLockExpiration
  | insertLock (path : Bytes)
  | eraseLock (path : Bytes)
  | buildFileLockMap
  /-- a datanode has answered `syncStatus`; `none` when it is dead or sends no response -/
  | reply (fileMap : Option (StrMap Int32))
  /-- the loop of `buildFileLockMap` is over -/
  | resume
  | notify
  | clear

/-- A section, the thread that runs it and the time on the system clock. -/
structure SectionEvent where
  thread : ℕ
  clock : ℕ
  action : LockAction

/-- The value that a call returns at the end of a section. -/
inductive LockReturn where
  | acquireLock (path clientName : Bytes) (granted : Bool)
  | releaseLock (path : Bytes) (released : Bool)
deriving DecidableEq, Repr

/-- The shared state and the threads. -/
structure LockTable where
  rm : ReplicationManager
  threads : ℕ → LockPc := fun _ => .idle
  /-- the `releaseLock` tasks posted to the holders -/
  posted : List (Bytes × Bytes) := []

namespace LockTable

def goto (s : LockTable) (t : ℕ) (pc : LockPc) : LockTable :=
  { s with threads := Function.update s.threads t pc }

/-- The loop of a sweep goes on, or is over. -/
def sweeping (now : ℕ) : List (Bytes × Bytes) → LockPc
  | [] => .idle
  | e :: left => .notifying now (e :: left)

/-- The part of `acquireLock` that follows the lookup of the path. -/
def grant (s : LockTable) (path clientName : Bytes) (now : ℕ) : LockTable × Option LockReturn :=
  let r := s.rm.acquireLock path clientName now []
  ({ s with rm := r.2 }, some (.acquireLock path clientName r.1))

/-- A section; `none` when the thread stands elsewhere. -/
def enter (s : LockTable) (e : SectionEvent) : Option (LockTable × Option LockReturn) :=
  let t := e.thread
  match e.action, s.threads t with
  | .acquireLock path clientName, .idle =>
    some (if path ∈ s.rm.fileLockMap then s.grant path clientName e.clock
      else (s.goto t (.dropped (.acquire path clientName)), none))
  | .releaseLock path, .idle =>
    some (if path ∈ s.rm.fileLockMap then
        ({ s with rm := s.rm.unlock path }, some (.releaseLock path true))
      else (s.goto t (.dropped (.release path)), none))
  | .checkFileLockExpiration, .idle =>
    some (s.goto t (sweeping e.clock (s.rm.expiredLocks e.clock)), none)
  | .insertLock path, .idle =>
    some ({ s with rm := { s.rm with fileLockMap := s.rm.fileLockMap.insertIfNew path {} } }, none)
  | .eraseLock path, .idle =>
    some ({ s with rm := { s.rm with fileLockMap := s.rm.fileLockMap.erase path } }, none)
  | .buildFileLockMap, .idle =>
    some (s.goto t (.building (s.rm.dataNodeEndpointMap.toList.map Prod.snd) .leave), none)
  | .buildFileLockMap, .dropped next =>
    some (s.goto t (.building (s.rm.dataNodeEndpointMap.toList.map Prod.snd) next), none)
  | .reply fileMap, .building (_ :: left) next =>
    some ({ s with rm := s.rm.buildFileLockMap fileMap.toList }.goto t (.building left next), none)
  | .resume, .building [] .leave => some (s.goto t .idle, none)
  | .resume, .building [] (.acquire path clientName) =>
    some ((s.goto t .idle).grant path clientName e.clock)
  | .resume, .building [] (.release path) =>
    some (s.goto t .idle, some (.releaseLock path false))
  | .notify, .notifying now ((path, holder) :: left) =>
    some ({ s with posted := s.posted ++
      if s.rm.clientEndpointMap.contains holder then [(path, holder)] else [] }.goto t
        (.clearing now path left), none)
  | .clear, .clearing now path left =>
    some ({ s with rm := s.rm.unlock path }.goto t (sweeping now left), none)
  | _, _ => none

/-- The state after a section. -/
def step (s : LockTable) (e : SectionEvent) : Option LockTable := (s.enter e).map Prod.fst

/-- An `acquireLock` of the path returns true at the end of the section. -/
def Grants (p : Bytes) (s : LockTable) (e : SectionEvent) : Prop :=
  ∃ clientName u, s.enter e = some (u, some (.acquireLock p clientName true))

/-- The path whose entry a section clears or erases, if it has one. -/
def cleared (s : LockTable) (e : SectionEvent) : Option Bytes :=
  match e.action, s.threads e.thread with
  | .releaseLock path, .idle => some path
  | .eraseLock path, .idle => some path
  | .clear, .clearing _ path _ => some path
  | _, _ => none

/-- The section clears or erases the path's entry: a release, an expiry or an erase. -/
def Clears (p : Bytes) (s : LockTable) (e : SectionEvent) : Prop :=
  s.cleared e = some p ∧ p ∈ s.rm.fileLockMap

/-- The path is locked. -/
def Held (p : Bytes) (s : LockTable) : Prop :=
  ∃ lock, s.rm.fileLockMap[p]? = some lock ∧ lock.locked = true

/-! ### What a section does to one entry -/

/-- All that a section can do to the entry of a path. -/
inductive EntryChange (q : Bytes) (s : LockTable) (e : SectionEvent) (u : LockTable) : Prop where
  | kept (hsame : u.rm.fileLockMap[q]? = s.rm.fileLockMap[q]?) (hgrant : ¬ Grants q s e)
      (hclear : ¬ Clears q s e)
  | inserted (hnew : s.rm.fileLockMap[q]? = none) (hin : u.rm.fileLockMap[q]? = some {})
      (hgrant : ¬ Grants q s e) (hclear : ¬ Clears q s e)
  | granted (lock : FileLock) (clientName : Bytes) (hlock : s.rm.fileLockMap[q]? = some lock)
      (hfree : lock.locked = false)
      (hin : u.rm.fileLockMap[q]? = some ⟨true, clientName, e.clock + lockInterval⟩)
      (hgrant : Grants q s e) (hclear : ¬ Clears q s e)
  | cleared (hfree : ∀ lock, u.rm.fileLockMap[q]? = some lock → lock.locked = false)
      (hgrant : ¬ Grants q s e) (hclear : Clears q s e)

variable {s u : LockTable} {e : SectionEvent} {p q : Bytes} {r : Option LockReturn}

theorem grants_iff (h : s.enter e = some (u, r)) :
    Grants q s e ↔ ∃ clientName, r = some (.acquireLock q clientName true) := by
  constructor
  · rintro ⟨clientName, u', h'⟩
    exact ⟨clientName, (Prod.mk.inj (Option.some.inj (h.symm.trans h'))).2⟩
  · rintro ⟨clientName, rfl⟩
    exact ⟨clientName, u, h⟩

theorem not_grants (h : s.enter e = some (u, r))
    (hr : ∀ clientName, r ≠ some (.acquireLock q clientName true)) : ¬ Grants q s e := by
  rw [grants_iff h]
  rintro ⟨clientName, heq⟩
  exact hr clientName heq

theorem not_clears (hclear : s.cleared e = none) : ¬ Clears q s e := by
  rintro ⟨heq, -⟩
  rw [hclear] at heq
  cases heq

/-- A section that leaves the table alone. -/
theorem EntryChange.of_same (h : s.enter e = some (u, r))
    (hsame : u.rm.fileLockMap = s.rm.fileLockMap)
    (hr : ∀ p clientName, r ≠ some (.acquireLock p clientName true))
    (hclear : s.cleared e = some q → q ∉ s.rm.fileLockMap) : EntryChange q s e u :=
  .kept (by rw [hsame]) (not_grants h (hr q)) fun hc => hclear hc.1 hc.2

/-- The entry of a path is the one it was, or it is new and not locked. -/
def OnlyAdds (q : Bytes) (old new : StrMap FileLock) : Prop :=
  new[q]? = old[q]? ∨ (old[q]? = none ∧ new[q]? = some {})

/-- A section that only adds entries. -/
theorem EntryChange.of_new (h : s.enter e = some (u, none))
    (hnew : OnlyAdds q s.rm.fileLockMap u.rm.fileLockMap) (hclear : s.cleared e = none) :
    EntryChange q s e u := by
  have hgrant : ¬ Grants q s e := not_grants h (by simp)
  rcases hnew with hsame | ⟨hnone, hin⟩
  · exact .kept hsame hgrant (not_clears hclear)
  · exact .inserted hnone hin hgrant (not_clears hclear)

/-- A section that clears or erases the entry of `p`. -/
theorem EntryChange.of_cleared (h : s.enter e = some (u, r))
    (hr : ∀ p clientName, r ≠ some (.acquireLock p clientName true)) (hp : s.cleared e = some p)
    (hfree : ∀ lock, u.rm.fileLockMap[p]? = some lock → lock.locked = false)
    (hsame : (q ≠ p ∨ p ∉ s.rm.fileLockMap) → u.rm.fileLockMap[q]? = s.rm.fileLockMap[q]?) :
    EntryChange q s e u := by
  have hgrant : ¬ Grants q s e := not_grants h (hr q)
  by_cases hq : q = p ∧ p ∈ s.rm.fileLockMap
  · obtain ⟨rfl, hmem⟩ := hq
    exact .cleared hfree hgrant ⟨hp, hmem⟩
  · refine .kept (hsame (not_and_or.mp hq)) hgrant ?_
    rintro ⟨heq, hmem⟩
    rw [hp] at heq
    obtain rfl := Option.some.inj heq
    exact hq ⟨rfl, hmem⟩

/-- The entry that a grant leaves. -/
def granted (rm : ReplicationManager) (path clientName : Bytes) (now : ℕ) : ReplicationManager :=
  { rm with fileLockMap := rm.fileLockMap.insert path ⟨true, clientName, now + lockInterval⟩ }

/-- Without an answer `buildFileLockMap` adds nothing. -/
theorem rebuilt_nil (rm : ReplicationManager) (path : Bytes) :
    (if path ∈ rm.fileLockMap then rm else rm.buildFileLockMap []) = rm := by
  split <;> rfl

/-- The grant of `acquireLock`. -/
theorem acquireLock_entry (rm : ReplicationManager) (path clientName : Bytes) (now : ℕ) :
    (∃ lock, rm.fileLockMap[path]? = some lock ∧ lock.locked = false ∧
      rm.acquireLock path clientName now [] = (true, granted rm path clientName now)) ∨
    rm.acquireLock path clientName now [] = (false, rm) := by
  simp only [ReplicationManager.acquireLock, rebuilt_nil]
  cases hlock : rm.fileLockMap[path]? with
  | none => exact Or.inr rfl
  | some lock =>
    cases hlocked : lock.locked with
    | false => exact Or.inl ⟨lock, rfl, hlocked, by simp [hlocked, granted]⟩
    | true => exact Or.inr (by simp [hlocked])

theorem EntryChange.of_grant {clientName : Bytes} {t : LockTable}
    (h : s.enter e = some (t.grant p clientName e.clock)) (hrm : t.rm = s.rm)
    (hclear : s.cleared e = none) : EntryChange q s e (t.grant p clientName e.clock).1 := by
  have hno : ¬ Clears q s e := not_clears hclear
  rcases acquireLock_entry s.rm p clientName e.clock with ⟨lock, hlock, hfree, hgranted⟩ | hrefused
  · have heq : t.grant p clientName e.clock
        = ({ t with rm := LockTable.granted s.rm p clientName e.clock },
          some (.acquireLock p clientName true)) := by
      rw [grant, hrm, hgranted]
    rw [heq] at h ⊢
    by_cases hq : p = q
    · obtain rfl := hq
      exact .granted lock clientName hlock hfree Std.ExtTreeMap.getElem?_insert_self
        ((grants_iff h).mpr ⟨clientName, rfl⟩) hno
    · refine .kept ?_ ?_ hno
      · show (s.rm.fileLockMap.insert p _)[q]? = s.rm.fileLockMap[q]?
        rw [Std.ExtTreeMap.getElem?_insert, if_neg]
        exact fun hcmp => hq (Std.LawfulEqCmp.compare_eq_iff_eq.mp hcmp)
      · refine not_grants h fun clientName' heq' => ?_
        cases heq'
        exact hq rfl
  · have heq : t.grant p clientName e.clock
        = (t, some (.acquireLock p clientName false)) := by
      rw [grant, hrm, hrefused, ← hrm]
    rw [heq] at h ⊢
    exact .kept (by rw [hrm]) (not_grants h (by simp)) hno

theorem onlyAdds_insertIfNew (locks : StrMap FileLock) (p q : Bytes) :
    OnlyAdds q locks (locks.insertIfNew p {}) := by
  rw [OnlyAdds, Std.ExtTreeMap.getElem?_insertIfNew]
  split
  · rename_i h
    obtain ⟨hcmp, hnew⟩ := h
    obtain rfl := Std.LawfulEqCmp.compare_eq_iff_eq.mp hcmp
    exact Or.inr ⟨Std.ExtTreeMap.getElem?_eq_none hnew, rfl⟩
  · exact Or.inl rfl

theorem OnlyAdds.trans {a b c : StrMap FileLock} (h : OnlyAdds q a b) (h' : OnlyAdds q b c) :
    OnlyAdds q a c := by
  rcases h' with hsame' | ⟨hnone', hin'⟩
  · rw [OnlyAdds, hsame']
    exact h
  · rcases h with hsame | ⟨-, hin⟩
    · exact Or.inr ⟨hsame ▸ hnone', hin'⟩
    · -- an entry that has been added is there
      rw [hin] at hnone'
      cases hnone'

theorem onlyAdds_foldl {α : Type} {f : ReplicationManager → α → ReplicationManager}
    (hf : ∀ rm a, OnlyAdds q rm.fileLockMap (f rm a).fileLockMap) (l : List α)
    (rm : ReplicationManager) : OnlyAdds q rm.fileLockMap (l.foldl f rm).fileLockMap := by
  induction l generalizing rm with
  | nil => exact Or.inl rfl
  | cons a l ih => exact (hf rm a).trans (ih (f rm a))

/-- `buildFileLockMap` adds entries that are not locked. -/
theorem onlyAdds_buildFileLockMap (rm : ReplicationManager) (replies : List (StrMap Int32))
    (q : Bytes) : OnlyAdds q rm.fileLockMap (rm.buildFileLockMap replies).fileLockMap := by
  refine onlyAdds_foldl (fun rm reply => onlyAdds_foldl (fun rm file => ?_) reply.toList rm)
    replies rm
  have hfile : (rm.buildFileLock file).fileLockMap = rm.fileLockMap.insertIfNew file.1 {} := by
    simp only [ReplicationManager.buildFileLock]
    split <;> rfl
  rw [hfile]
  exact onlyAdds_insertIfNew _ _ _

theorem unlock_entry (rm : ReplicationManager) (p q : Bytes) :
    (∀ lock, (rm.unlock p).fileLockMap[p]? = some lock → lock.locked = false) ∧
      ((q ≠ p ∨ p ∉ rm.fileLockMap) →
        (rm.unlock p).fileLockMap[q]? = rm.fileLockMap[q]?) := by
  rw [ReplicationManager.unlock]
  cases hlock : rm.fileLockMap[p]? with
  | none =>
    refine ⟨fun lock heq => ?_, fun _ => rfl⟩
    rw [hlock] at heq
    cases heq
  | some old =>
    refine ⟨fun lock heq => ?_, fun hq => ?_⟩
    · rw [Std.ExtTreeMap.getElem?_insert_self] at heq
      rw [← Option.some.inj heq]
    · rcases hq with hq | hnot
      · rw [Std.ExtTreeMap.getElem?_insert, if_neg]
        exact fun hcmp => hq (Std.LawfulEqCmp.compare_eq_iff_eq.mp hcmp).symm
      · rw [Std.ExtTreeMap.getElem?_eq_none hnot] at hlock
        cases hlock

/-- **What a section does to one entry.** -/
theorem entryChange (h : s.enter e = some (u, r)) (q : Bytes) : EntryChange q s e u := by
  obtain ⟨t, clock, action⟩ := e
  have hu := h
  simp only [enter] at hu
  split at hu
  · -- acquireLock
    rename_i path clientName hpc
    have hclear : s.cleared ⟨t, clock, .acquireLock path clientName⟩ = none := rfl
    by_cases hmem : path ∈ s.rm.fileLockMap
    · rw [if_pos hmem] at hu
      rw [← hu] at h
      obtain rfl := (Prod.mk.inj (Option.some.inj hu)).1
      exact .of_grant h rfl hclear
    · rw [if_neg hmem] at hu
      obtain ⟨rfl, rfl⟩ := Prod.mk.inj (Option.some.inj hu)
      exact .of_new h (Or.inl rfl) hclear
  · -- releaseLock
    rename_i path hpc
    have hclear : s.cleared ⟨t, clock, .releaseLock path⟩ = some path := by simp [cleared, hpc]
    by_cases hmem : path ∈ s.rm.fileLockMap
    · rw [if_pos hmem] at hu
      obtain ⟨rfl, rfl⟩ := Prod.mk.inj (Option.some.inj hu)
      exact .of_cleared h (by simp) hclear (unlock_entry s.rm path q).1 (unlock_entry s.rm path q).2
    · rw [if_neg hmem] at hu
      obtain ⟨rfl, rfl⟩ := Prod.mk.inj (Option.some.inj hu)
      refine .of_same h rfl (by simp) fun heq => ?_
      rw [hclear] at heq
      rw [← Option.some.inj heq]
      exact hmem
  · -- checkFileLockExpiration
    obtain ⟨rfl, rfl⟩ := Prod.mk.inj (Option.some.inj hu)
    exact .of_new h (Or.inl rfl) rfl
  · -- insertLock
    rename_i path hpc
    obtain ⟨rfl, rfl⟩ := Prod.mk.inj (Option.some.inj hu)
    exact .of_new h (onlyAdds_insertIfNew s.rm.fileLockMap path q) rfl
  · -- eraseLock
    rename_i path hpc
    have hclear : s.cleared ⟨t, clock, .eraseLock path⟩ = some path := by simp [cleared, hpc]
    obtain ⟨rfl, rfl⟩ := Prod.mk.inj (Option.some.inj hu)
    refine .of_cleared h (by simp) hclear (fun lock heq => ?_) fun hq => ?_
    · rw [Std.ExtTreeMap.getElem?_erase_self] at heq
      cases heq
    · show (s.rm.fileLockMap.erase path)[q]? = s.rm.fileLockMap[q]?
      rw [Std.ExtTreeMap.getElem?_erase]
      split
      · rename_i hcmp
        obtain rfl := Std.LawfulEqCmp.compare_eq_iff_eq.mp hcmp
        rw [Std.ExtTreeMap.getElem?_eq_none (hq.resolve_left fun hne => hne rfl)]
      · rfl
  · -- buildFileLockMap, called for itself
    obtain ⟨rfl, rfl⟩ := Prod.mk.inj (Option.some.inj hu)
    exact .of_new h (Or.inl rfl) rfl
  · -- buildFileLockMap, called by acquireLock or releaseLock
    obtain ⟨rfl, rfl⟩ := Prod.mk.inj (Option.some.inj hu)
    exact .of_new h (Or.inl rfl) rfl
  · -- the reply of a datanode
    obtain ⟨rfl, rfl⟩ := Prod.mk.inj (Option.some.inj hu)
    exact .of_new h (onlyAdds_buildFileLockMap s.rm _ q) rfl
  · -- the end of buildFileLockMap
    obtain ⟨rfl, rfl⟩ := Prod.mk.inj (Option.some.inj hu)
    exact .of_new h (Or.inl rfl) rfl
  · -- the end of it, in acquireLock
    rename_i path clientName hpc
    rw [← hu] at h
    obtain rfl := (Prod.mk.inj (Option.some.inj hu)).1
    exact .of_grant h rfl rfl
  · -- the end of it, in releaseLock
    obtain ⟨rfl, rfl⟩ := Prod.mk.inj (Option.some.inj hu)
    exact .of_same h rfl (by simp) fun heq => by cases heq
  · -- the lookup of a sweep
    obtain ⟨rfl, rfl⟩ := Prod.mk.inj (Option.some.inj hu)
    exact .of_new h (Or.inl rfl) rfl
  · -- the clear of a sweep
    rename_i now path left hpc
    have hclear : s.cleared ⟨t, clock, .clear⟩ = some path := by simp [cleared, hpc]
    obtain ⟨rfl, rfl⟩ := Prod.mk.inj (Option.some.inj hu)
    exact .of_cleared h (by simp) hclear (unlock_entry s.rm path q).1 (unlock_entry s.rm path q).2
  · cases hu

/-! ### Exclusive grants -/

theorem enter_of_step (h : s.step e = some u) : ∃ r, s.enter e = some (u, r) := by
  obtain ⟨⟨u', r⟩, henter, rfl⟩ := Option.map_eq_some_iff.mp h
  exact ⟨r, henter⟩

/-- A path is granted only while it is not locked. -/
theorem not_held_of_grants (h : Grants p s e) : ¬ s.Held p := by
  obtain ⟨clientName, u, henter⟩ := h
  rintro ⟨lock, hlock, hlocked⟩
  have hgrants : Grants p s e := ⟨clientName, u, henter⟩
  cases entryChange henter p with
  | kept hsame hgrant hclear => exact hgrant hgrants
  | inserted hnew hin hgrant hclear => exact hgrant hgrants
  | granted lock' clientName' hlock' hfree hin hgrant hclear =>
    obtain rfl := Option.some.inj (hlock.symm.trans hlock')
    rw [hlocked] at hfree
    cases hfree
  | cleared hfree hgrant hclear => exact hgrant hgrants

/-- **One section**: it locks the path when it grants it, and unlocks it when it clears or
erases its entry. -/
theorem held_step (h : s.step e = some u) :
    u.Held p ↔ Grants p s e ∨ (s.Held p ∧ ¬ Clears p s e) := by
  obtain ⟨r, henter⟩ := enter_of_step h
  cases entryChange henter p with
  | kept hsame hgrant hclear => simp [Held, hsame, hgrant, hclear]
  | inserted hnew hin hgrant hclear => simp [Held, hnew, hin, hgrant]
  | granted lock clientName hlock hfree hin hgrant hclear => simp [Held, hin, hgrant]
  | cleared hfree hgrant hclear =>
    simp only [hgrant, hclear, not_true_eq_false, and_false, or_self, iff_false]
    rintro ⟨lock, hlock, hlocked⟩
    rw [hfree lock hlock] at hlocked
    cases hlocked

/-- **A whole run**: a granted path is locked until its entry is cleared or erased. -/
theorem held_of_since_grant {es : List SectionEvent} (hrun : Runs.run step s es = some u)
    (h : Runs.Since step (Grants p) (Clears p) s es) : u.Held p :=
  Runs.holds_of_since (fun _ _ _ hstep hgrants => (held_step hstep).mpr (Or.inl hgrants))
    (fun _ _ _ hstep hheld hclears => (held_step hstep).mpr (Or.inr ⟨hheld, hclears⟩)) hrun h

/-- The sections of `insertLock` and of `buildFileLockMap`. -/
def Adds : LockAction → Prop
  | .insertLock _ => True
  | .buildFileLockMap => True
  | .reply _ => True
  | _ => False

theorem returns_of_adds (hadds : Adds e.action) (h : s.enter e = some (u, r)) :
    r = none ∧ s.cleared e = none := by
  obtain ⟨t, clock, action⟩ := e
  simp only [enter] at h
  split at h <;> simp only [Adds] at hadds
  all_goals first
    | exact ⟨(Prod.mk.inj (Option.some.inj h)).2.symm, rfl⟩
    | cases h

/-- They leave every entry that is there as it is. -/
theorem getElem?_of_adds (hadds : Adds e.action) (h : s.step e = some u) {lock : FileLock}
    (hlock : s.rm.fileLockMap[p]? = some lock) : u.rm.fileLockMap[p]? = some lock := by
  obtain ⟨r, henter⟩ := enter_of_step h
  obtain ⟨rfl, hcleared⟩ := returns_of_adds hadds henter
  cases entryChange henter p with
  | kept hsame hgrant hclear => rw [hsame, hlock]
  | inserted hnew hin hgrant hclear =>
    rw [hlock] at hnew
    cases hnew
  | granted lock' clientName hlock' hfree hin hgrant hclear =>
    obtain ⟨clientName', heq⟩ := (grants_iff henter).mp hgrant
    cases heq
  | cleared hfree hgrant hclear =>
    rw [Clears, hcleared] at hclear
    cases hclear.1

/-- **Grants are exclusive.**  Whatever the threads and the table at the beginning, between two
sections in which an `acquireLock` of the same path returns true there is one that clears or
erases its entry; and the sections of `insertLock` and `buildFileLockMap` leave every locked
entry as it is. -/
theorem grants_exclusive (s : LockTable) (p : Bytes) :
    (∀ pre e mid e' s₁ s₂, Runs.run step s pre = some s₁ → Grants p s₁ e →
      Runs.run step s (pre ++ e :: mid) = some s₂ → Grants p s₂ e' →
      ∃ mid₁ c mid₂ u, mid = mid₁ ++ c :: mid₂ ∧
        Runs.run step s (pre ++ e :: mid₁) = some u ∧ Clears p u c) ∧
    ∀ es t e u lock, Runs.run step s es = some t → Adds e.action → t.step e = some u →
      t.rm.fileLockMap[p]? = some lock → lock.locked = true → u.rm.fileLockMap[p]? = some lock := by
  refine ⟨fun pre e mid e' s₁ s₂ hpre hgrant hmid hgrant' => ?_, ?_⟩
  · by_contra hno
    refine not_held_of_grants hgrant' (held_of_since_grant hmid ?_)
    refine ⟨pre, e, mid, s₁, rfl, hpre, hgrant, fun l c r u hsplit hu hclears => ?_⟩
    exact hno ⟨l, c, r, u, hsplit, hu, hclears⟩
  · intro es t e u lock _ hadds hstep hlock _
    exact getElem?_of_adds hadds hstep hlock

/-- A table with the file `f`, which nobody has locked. -/
def sampleLocks : LockTable where
  rm := { replicationFactor := 1, fileLockMap := (∅ : StrMap FileLock).insert [102] {} }

/-- Two clients are granted `f` one after the other, and the first one has released it in
between; while it had it, an `insertLock` of another thread changed nothing. -/
theorem grants_exclusive_sample :
    (∃ mid₁ c mid₂ u, [⟨1, 7, .releaseLock [102]⟩] = mid₁ ++ c :: mid₂ ∧
      Runs.run step sampleLocks ([] ++ ⟨0, 3, .acquireLock [102] [97]⟩ :: mid₁) = some u ∧
        Clears [102] u c) ∧
    ∃ t u, Runs.run step sampleLocks [⟨0, 3, .acquireLock [102] [97]⟩] = some t ∧
      t.step ⟨1, 5, .insertLock [102]⟩ = some u ∧
        u.rm.fileLockMap[([102] : Bytes)]? = some ⟨true, [97], 3 + lockInterval⟩ := by
  obtain ⟨hbetween, hadds⟩ := grants_exclusive sampleLocks [102]
  constructor
  · exact hbetween [] ⟨0, 3, .acquireLock [102] [97]⟩ [⟨1, 7, .releaseLock [102]⟩]
      ⟨2, 9, .acquireLock [102] [98]⟩ sampleLocks _ rfl ⟨[97], _, rfl⟩ rfl ⟨[98], _, rfl⟩
  · exact ⟨_, _, rfl, rfl, hadds [⟨0, 3, .acquireLock [102] [97]⟩] _ ⟨1, 5, .insertLock [102]⟩ _ _
      rfl trivial rfl rfl rfl⟩

/-! ### The sections of one call, with no other thread in between -/

theorem goto_goto (s : LockTable) (t : ℕ) (pc pc' : LockPc) :
    (s.goto t pc).goto t pc' = s.goto t pc' := by
  simp [goto, Function.update_idem]

theorem goto_of_eq {t : ℕ} {pc : LockPc} (h : s.threads t = pc) : s.goto t pc = s := by
  rw [goto, ← h, Function.update_eq_self]

theorem threads_goto (s : LockTable) (t : ℕ) (pc : LockPc) : (s.goto t pc).threads t = pc := by
  simp [goto]

/-- The answers of the datanodes to a `buildFileLockMap`. -/
def answered (t now : ℕ) (answers : List (Option (StrMap Int32))) : List SectionEvent :=
  answers.map fun fileMap => ⟨t, now, .reply fileMap⟩

/-- The loop of `buildFileLockMap`. -/
theorem run_answered {t now : ℕ} {next : AfterBuild} (answers : List (Option (StrMap Int32))) :
    ∀ (s : LockTable) (left : List SessionId), left.length = answers.length →
      Runs.run step (s.goto t (.building left next)) (answered t now answers)
        = some ({ s with rm := s.rm.buildFileLockMap (answers.filterMap id) }.goto t
            (.building [] next)) := by
  induction answers with
  | nil =>
    intro s left hleft
    obtain rfl := List.length_eq_zero_iff.mp hleft
    rfl
  | cons fileMap answers ih =>
    intro s left hleft
    cases left with
    | nil => simp at hleft
    | cons d left =>
      have hone : step (s.goto t (.building (d :: left) next)) ⟨t, now, .reply fileMap⟩
          = some ({ s with rm := s.rm.buildFileLockMap fileMap.toList }.goto t
              (.building left next)) := by
        simp only [step, enter, threads_goto, Option.map_some]
        exact congrArg some
          (goto_goto { s with rm := s.rm.buildFileLockMap fileMap.toList } t _ _)
      have hmerge : (s.rm.buildFileLockMap fileMap.toList).buildFileLockMap (answers.filterMap id)
          = s.rm.buildFileLockMap ((fileMap :: answers).filterMap id) := by
        simp only [ReplicationManager.buildFileLockMap]
        cases fileMap with
        | none => rfl
        | some files => rfl
      rw [answered, List.map_cons, Runs.run, hone, Option.bind_some, ← answered,
        ih _ left (Nat.succ.inj hleft), hmerge]

/-- The sections of a call that has found the path unknown, up to its last one. -/
theorem run_rebuild {t now : ℕ} {next : AfterBuild} {first : SectionEvent}
    (hfirst : s.step first = some (s.goto t (.dropped next)))
    (answers : List (Option (StrMap Int32)))
    (hlen : s.rm.dataNodeEndpointMap.toList.length = answers.length) :
    Runs.run step s (first :: ⟨t, now, .buildFileLockMap⟩ :: answered t now answers)
      = some ({ s with rm := s.rm.buildFileLockMap (answers.filterMap id) }.goto t
          (.building [] next)) := by
  have hsecond : (s.goto t (.dropped next)).step ⟨t, now, .buildFileLockMap⟩
      = some (s.goto t (.building (s.rm.dataNodeEndpointMap.toList.map Prod.snd) next)) := by
    simp only [step, enter, threads_goto, Option.map_some]
    exact congrArg some (goto_goto s t _ _)
  rw [Runs.run, hfirst, Option.bind_some, Runs.run, hsecond, Option.bind_some,
    run_answered answers s _ (by rw [List.length_map, hlen])]

/-- **`acquireLock`**: of a known path in one section, and else in those of the rebuild. -/
theorem acquireLock_alone {t now : ℕ} (hidle : s.threads t = .idle) (path clientName : Bytes)
    (answers : List (Option (StrMap Int32)))
    (hlen : s.rm.dataNodeEndpointMap.toList.length = answers.length) :
    let call := s.rm.acquireLock path clientName now (answers.filterMap id)
    let result := some (({ s with rm := call.2 } : LockTable),
      some (LockReturn.acquireLock path clientName call.1))
    if path ∈ s.rm.fileLockMap then s.enter ⟨t, now, .acquireLock path clientName⟩ = result
    else ∃ u, Runs.run step s (⟨t, now, .acquireLock path clientName⟩ ::
      ⟨t, now, .buildFileLockMap⟩ :: answered t now answers) = some u ∧
        u.enter ⟨t, now, .resume⟩ = result := by
  intro call result
  by_cases hmem : path ∈ s.rm.fileLockMap
  · have hcall : call = s.rm.acquireLock path clientName now [] := by
      simp only [call, ReplicationManager.acquireLock, if_pos hmem]
    rw [if_pos hmem]
    simp only [enter, hidle, if_pos hmem, grant, result, hcall]
  · rw [if_neg hmem]
    have hfirst : s.step ⟨t, now, .acquireLock path clientName⟩
        = some (s.goto t (.dropped (.acquire path clientName))) := by
      simp only [step, enter, hidle, if_neg hmem, Option.map_some]
    refine ⟨_, run_rebuild hfirst answers hlen, ?_⟩
    have hcall : call
        = (s.rm.buildFileLockMap (answers.filterMap id)).acquireLock path clientName now [] := by
      simp only [call, ReplicationManager.acquireLock, if_neg hmem, rebuilt_nil]
    simp only [enter, threads_goto, goto_goto]
    rw [goto_of_eq (s := { s with rm := s.rm.buildFileLockMap (answers.filterMap id) }) hidle]
    simp only [grant, result, hcall]

/-- **`releaseLock`**: of a known path in one section; of an unknown one it rebuilds the map and
returns false. -/
theorem releaseLock_alone {t now : ℕ} (hidle : s.threads t = .idle) (path : Bytes)
    (answers : List (Option (StrMap Int32)))
    (hlen : s.rm.dataNodeEndpointMap.toList.length = answers.length) :
    let call := s.rm.releaseLock path (answers.filterMap id)
    let result := some (({ s with rm := call.2 } : LockTable),
      some (LockReturn.releaseLock path call.1))
    if path ∈ s.rm.fileLockMap then s.enter ⟨t, now, .releaseLock path⟩ = result
    else ∃ u, Runs.run step s (⟨t, now, .releaseLock path⟩ ::
      ⟨t, now, .buildFileLockMap⟩ :: answered t now answers) = some u ∧
        u.enter ⟨t, now, .resume⟩ = result := by
  intro call result
  by_cases hmem : path ∈ s.rm.fileLockMap
  · rw [if_pos hmem]
    simp only [enter, hidle, if_pos hmem, result, call, ReplicationManager.releaseLock]
  · rw [if_neg hmem]
    have hfirst : s.step ⟨t, now, .releaseLock path⟩
        = some (s.goto t (.dropped (.release path))) := by
      simp only [step, enter, hidle, if_neg hmem, Option.map_some]
    refine ⟨_, run_rebuild hfirst answers hlen, ?_⟩
    simp only [enter, threads_goto, goto_goto]
    rw [goto_of_eq (s := { s with rm := s.rm.buildFileLockMap (answers.filterMap id) }) hidle]
    simp only [result, call, ReplicationManager.releaseLock, if_neg hmem]

/-- The two sections for each expired lock. -/
def sweptBy (t now : ℕ) (expired : List (Bytes × Bytes)) : List SectionEvent :=
  expired.flatMap fun _ => [⟨t, now, .notify⟩, ⟨t, now, .clear⟩]

/-- The loop of a sweep. -/
theorem run_sweptBy {t now : ℕ} (expired : List (Bytes × Bytes)) :
    ∀ s : LockTable, Runs.run step (s.goto t (sweeping now expired)) (sweptBy t now expired)
      = some ({ s with
          rm := expired.foldl (fun rm (e : Bytes × Bytes) => rm.unlock e.1) s.rm
          posted := s.posted ++
            expired.filter fun (e : Bytes × Bytes) => s.rm.clientEndpointMap.contains e.2 }.goto t
              .idle) := by
  induction expired with
  | nil =>
    intro s
    simp [sweptBy, sweeping, Runs.run]
  | cons e expired ih =>
    intro s
    obtain ⟨path, holder⟩ := e
    have hnotify : (s.goto t (sweeping now ((path, holder) :: expired))).step ⟨t, now, .notify⟩
        = some ({ s with posted := s.posted ++
            if s.rm.clientEndpointMap.contains holder then [(path, holder)] else [] }.goto t
              (.clearing now path expired)) := by
      simp only [step, enter, sweeping, threads_goto, Option.map_some]
      simp only [goto, Function.update_idem]
      rfl
    have hclear : ∀ s : LockTable, (s.goto t (.clearing now path expired)).step ⟨t, now, .clear⟩
        = some ({ s with rm := s.rm.unlock path }.goto t (sweeping now expired)) := by
      intro s
      simp only [step, enter, threads_goto, Option.map_some]
      exact congrArg some (goto_goto { s with rm := s.rm.unlock path } t _ _)
    have hclients : (s.rm.unlock path).clientEndpointMap = s.rm.clientEndpointMap := by
      rw [ReplicationManager.unlock]
      split <;> rfl
    rw [sweptBy, List.flatMap_cons, List.cons_append, List.cons_append, List.nil_append, Runs.run,
      hnotify, Option.bind_some, Runs.run, hclear, Option.bind_some, ← sweptBy, ih]
    simp only [hclients, List.foldl_cons, List.filter_cons, List.append_assoc]
    split <;> simp

/-- **`checkFileLockExpiration`**. -/
theorem checkFileLockExpiration_alone {t : ℕ} (hidle : s.threads t = .idle) (now : ℕ) :
    Runs.run step s (⟨t, now, .checkFileLockExpiration⟩ :: sweptBy t now (s.rm.expiredLocks now))
      = some { s with
          rm := (s.rm.checkFileLockExpiration now).1
          posted := s.posted ++ (s.rm.checkFileLockExpiration now).2 } := by
  have hfirst : s.step ⟨t, now, .checkFileLockExpiration⟩
      = some (s.goto t (sweeping now (s.rm.expiredLocks now))) := by
    simp only [step, enter, hidle, Option.map_some]
  rw [Runs.run, hfirst, Option.bind_some, run_sweptBy, ReplicationManager.checkFileLockExpiration]
  exact congrArg some (goto_of_eq hidle)

end LockTable

end Squid
