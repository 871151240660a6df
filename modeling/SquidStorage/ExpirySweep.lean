/-
What an expiry sweep clears.

A sweep of `checkFileLockExpiration` collects the expired locks under the mutex, with one
reading of the clock, and then takes the mutex again for each of them.  By then another
thread may have released the lock and a third may have been granted it; the sweep clears
the entry all the same.

* `expired_step` — how a section makes a lock expired for a given time, and ends it;
* `expired_iff_still` — a path that a sweep is about to clear is expired exactly if its
  history since the collection says so;
* `sweep_clears_expired_iff` — the exact condition, over a whole run of any threads;
* `sweep_clears_fresh_lock` — a sweep that takes away a lock granted a moment before.
-/
import SquidStorage.LockSections

open BigEndian

namespace Squid

namespace LockTable

variable {s u : LockTable} {e : SectionEvent} {p : Bytes} {now : ℕ}

/-! ### The history of an expired lock -/

/-- A sweep with the time stamp `now` collects the path. -/
def Collects (now : ℕ) (p : Bytes) (s : LockTable) (e : SectionEvent) : Prop :=
  e.action = .checkFileLockExpiration ∧ e.clock = now ∧ s.rm.Expired now p

/-- The path is granted at a time from which the lock has run out by `now`. -/
def GrantsExpired (now : ℕ) (p : Bytes) (s : LockTable) (e : SectionEvent) : Prop :=
  Grants p s e ∧ e.clock + lockInterval < now

/-- A sweep with the time stamp `now` has collected the path, or it has been granted so early
that the lock has run out by `now`; and no section has cleared or erased its entry since. -/
def StillExpired (now : ℕ) (p : Bytes) (s : LockTable) (es : List SectionEvent) : Prop :=
  Runs.Since step (fun t e => Collects now p t e ∨ GrantsExpired now p t e) (Clears p) s es

/-- **One section.** -/
theorem expired_step (h : s.step e = some u) :
    u.rm.Expired now p ↔ GrantsExpired now p s e ∨ (s.rm.Expired now p ∧ ¬ Clears p s e) := by
  obtain ⟨r, henter⟩ := enter_of_step h
  cases entryChange henter p with
  | kept hsame hgrant hclear =>
    simp [ReplicationManager.Expired, GrantsExpired, hsame, hgrant, hclear]
  | inserted hnew hin hgrant hclear =>
    simp [ReplicationManager.Expired, GrantsExpired, hnew, hin, hgrant]
  | granted lock clientName hlock hfree hin hgrant hclear =>
    simp [ReplicationManager.Expired, GrantsExpired, hlock, hin, hgrant, hfree]
  | cleared hfree hgrant hclear =>
    simp only [GrantsExpired, hgrant, hclear, false_and, not_true_eq_false, and_false, or_self,
      iff_false]
    rintro ⟨lock, hlock, hlocked, -⟩
    rw [hfree lock hlock] at hlocked
    cases hlocked

/-- The collection clears nothing. -/
theorem Collects.not_clears (h : Collects now p s e) : ¬ Clears p s e := by
  rintro ⟨hcleared, -⟩
  rw [LockTable.cleared, h.1] at hcleared
  cases hcleared

theorem expired_of_still {es : List SectionEvent} (hrun : Runs.run step s es = some u)
    (h : StillExpired now p s es) : u.rm.Expired now p := by
  refine Runs.holds_of_since (P := fun s => s.rm.Expired now p) ?_ ?_ hrun h
  · rintro s e t hstep (hcollects | hgrants)
    · exact (expired_step hstep).mpr (Or.inr ⟨hcollects.2.2, hcollects.not_clears⟩)
    · exact (expired_step hstep).mpr (Or.inl hgrants)
  · intro s e t hstep hexpired hclears
    exact (expired_step hstep).mpr (Or.inr ⟨hexpired, hclears⟩)

/-- A sweep with the time stamp `now` has collected the path. -/
def Collected (now : ℕ) (p : Bytes) (s : LockTable) (es : List SectionEvent) : Prop :=
  Runs.Since step (Collects now p) (fun _ _ => False) s es

theorem still_of_expired {es : List SectionEvent} (hrun : Runs.run step s es = some u)
    (hcollected : Collected now p s es) (hexpired : u.rm.Expired now p) :
    StillExpired now p s es := by
  induction es using List.reverseRecOn generalizing u with
  | nil => exact absurd hcollected (Runs.not_since_nil _ _ s)
  | append_singleton es e ih =>
    obtain ⟨t, ht, hstep⟩ := Runs.run_concat_eq_some.mp hrun
    rw [Collected, Runs.since_concat ht] at hcollected
    rw [StillExpired, Runs.since_concat ht]
    rcases hcollected with hcollects | ⟨hbefore, -⟩
    · exact Or.inl (Or.inl hcollects)
    · rcases (expired_step hstep).mp hexpired with hgrants | ⟨hexpired', hclears⟩
      · exact Or.inl (Or.inr hgrants)
      · exact Or.inr ⟨ih ht hbefore hexpired', hclears⟩

/-! ### What the sweeps have left to clear -/

/-- The paths that a thread has collected with the time stamp `now` and not cleared yet. -/
def todo (now : ℕ) : LockPc → List Bytes
  | .notifying now' left => if now' = now then left.map Prod.fst else []
  | .clearing now' path left => if now' = now then path :: left.map Prod.fst else []
  | _ => []

theorem todo_sweeping (now now' : ℕ) (left : List (Bytes × Bytes)) :
    todo now (sweeping now' left) = if now' = now then left.map Prod.fst else [] := by
  cases left with
  | nil => simp [sweeping, todo]
  | cons e left => rfl

/-- Where a section leaves its thread: a path is on its list because it was, or because the
section has collected it. -/
inductive ThreadChange (s : LockTable) (e : SectionEvent) (u : LockTable) : Prop where
  | stays (hsame : u.threads = s.threads)
  | goes (pc : LockPc) (hthreads : u.threads = Function.update s.threads e.thread pc)
      (htodo : ∀ now p, p ∈ todo now pc →
        p ∈ todo now (s.threads e.thread) ∨ Collects now p s e)

theorem ThreadChange.of_done {pc : LockPc}
    (hthreads : u.threads = Function.update s.threads e.thread pc)
    (hnone : ∀ now, todo now pc = []) : ThreadChange s e u := by
  refine .goes pc hthreads fun now p hp => ?_
  rw [hnone] at hp
  cases hp

/-- **What a section does to its thread.** -/
theorem threadChange {r : Option LockReturn} (h : s.enter e = some (u, r)) :
    ThreadChange s e u := by
  obtain ⟨t, clock, action⟩ := e
  simp only [enter] at h
  split at h
  · -- acquireLock
    split at h
    · obtain rfl := (Prod.mk.inj (Option.some.inj h)).1
      exact .stays rfl
    · obtain rfl := (Prod.mk.inj (Option.some.inj h)).1
      exact .of_done rfl fun _ => rfl
  · -- releaseLock
    split at h
    · obtain rfl := (Prod.mk.inj (Option.some.inj h)).1
      exact .stays rfl
    · obtain rfl := (Prod.mk.inj (Option.some.inj h)).1
      exact .of_done rfl fun _ => rfl
  · -- checkFileLockExpiration: the collection
    obtain rfl := (Prod.mk.inj (Option.some.inj h)).1
    refine .goes _ rfl fun now p hp => Or.inr ?_
    rw [todo_sweeping] at hp
    split at hp
    · rename_i hnow
      refine ⟨rfl, hnow, ?_⟩
      rw [← hnow]
      exact (s.rm.mem_expiredLocks clock p).mp hp
    · cases hp
  · -- insertLock
    obtain rfl := (Prod.mk.inj (Option.some.inj h)).1
    exact .stays rfl
  · -- eraseLock
    obtain rfl := (Prod.mk.inj (Option.some.inj h)).1
    exact .stays rfl
  iterate 6
    -- the sections of a `buildFileLockMap`
    · obtain rfl := (Prod.mk.inj (Option.some.inj h)).1
      exact .of_done rfl fun _ => rfl
  · -- the lookup of a sweep: the path goes from the list to the head
    rename_i now path holder left hpc
    obtain rfl := (Prod.mk.inj (Option.some.inj h)).1
    refine .goes _ rfl fun now' p hp => Or.inl ?_
    rw [hpc]
    exact hp
  · -- the clear of a sweep: the head is gone
    rename_i now path left hpc
    obtain rfl := (Prod.mk.inj (Option.some.inj h)).1
    refine .goes _ rfl fun now' p hp => Or.inl ?_
    rw [todo_sweeping] at hp
    rw [hpc, todo]
    split at hp
    · rename_i hnow
      rw [if_pos hnow]
      exact List.mem_cons_of_mem path hp
    · cases hp
  · cases h

theorem todo_step (h : s.step e = some u) {t : ℕ} (hp : p ∈ todo now (u.threads t)) :
    p ∈ todo now (s.threads t) ∨ Collects now p s e := by
  obtain ⟨r, henter⟩ := enter_of_step h
  cases threadChange henter with
  | stays hsame =>
    rw [hsame] at hp
    exact Or.inl hp
  | goes pc hthreads htodo =>
    rw [hthreads, Function.update_apply] at hp
    split at hp
    · rename_i ht
      rw [ht]
      exact htodo now p hp
    · exact Or.inl hp

theorem collected_of_todo (rm : ReplicationManager) {es : List SectionEvent} {t : ℕ}
    (hrun : Runs.run step { rm := rm } es = some u) (hp : p ∈ todo now (u.threads t)) :
    Collected now p { rm := rm } es := by
  induction es using List.reverseRecOn generalizing u with
  | nil =>
    obtain rfl := Option.some.inj hrun
    cases hp
  | append_singleton es e ih =>
    obtain ⟨s, hs, hstep⟩ := Runs.run_concat_eq_some.mp hrun
    rw [Collected, Runs.since_concat hs]
    rcases todo_step hstep hp with hbefore | hcollects
    · exact Or.inr ⟨ih hs hbefore, not_false⟩
    · exact Or.inl hcollects

/-- **The state and the history.**  When no thread is in a call at the beginning, a path that
a sweep is about to clear is expired exactly if it still is by its history. -/
theorem expired_iff_still (rm : ReplicationManager) {es : List SectionEvent} {t : ℕ}
    {left : List (Bytes × Bytes)} (hrun : Runs.run step { rm := rm } es = some u)
    (hpc : u.threads t = .clearing now p left) :
    u.rm.Expired now p ↔ StillExpired now p { rm := rm } es := by
  refine ⟨still_of_expired hrun (collected_of_todo rm (t := t) hrun ?_), expired_of_still hrun⟩
  rw [hpc]
  simp [todo]

/-- **What the sweeps clear.**  Over any run of any threads, every entry that a sweep clears
is at that moment locked and expired for the sweep's time stamp exactly if it still is by its
history: since the collection, or since a grant that had run out by then, no section has
cleared or erased it. -/
theorem sweep_clears_expired_iff (rm : ReplicationManager) (es : List SectionEvent) :
    (∀ pre t clock post s now p left, es = pre ++ ⟨t, clock, .clear⟩ :: post →
      Runs.run step { rm := rm } pre = some s → s.threads t = .clearing now p left →
      p ∈ s.rm.fileLockMap → s.rm.Expired now p)
    ↔ ∀ pre t clock post s now p left, es = pre ++ ⟨t, clock, .clear⟩ :: post →
      Runs.run step { rm := rm } pre = some s → s.threads t = .clearing now p left →
      p ∈ s.rm.fileLockMap → StillExpired now p { rm := rm } pre := by
  constructor
  · intro h pre t clock post s now p left hsplit hrun hpc hmem
    exact (expired_iff_still rm hrun hpc).mp (h pre t clock post s now p left hsplit hrun hpc hmem)
  · intro h pre t clock post s now p left hsplit hrun hpc hmem
    exact (expired_iff_still rm hrun hpc).mpr (h pre t clock post s now p left hsplit hrun hpc hmem)

/-- The lock of `f`, held by `a`, has expired at time 1. -/
def sampleExpired : ReplicationManager where
  replicationFactor := 1
  fileLockMap := (∅ : StrMap FileLock).insert [102] ⟨true, [97], 1⟩

/-- A sweep at time 10 collects `f`; `a` releases it and `b` is granted it; the sweep clears
it.  The lock it takes away has five minutes to go. -/
theorem sweep_clears_fresh_lock :
    let before := Runs.run step { rm := sampleExpired } [⟨0, 10, .checkFileLockExpiration⟩,
      ⟨1, 11, .releaseLock [102]⟩, ⟨2, 12, .acquireLock [102] [98]⟩, ⟨0, 13, .notify⟩]
    before.map (fun s => (s.threads 0, s.rm.fileLockMap[([102] : Bytes)]?))
      = some (.clearing 10 [102] [], some ⟨true, [98], 12 + lockInterval⟩) ∧
    (before.bind fun s => s.step ⟨0, 13, .clear⟩).map
        (fun s => s.rm.fileLockMap[([102] : Bytes)]?)
      = some (some ⟨false, [98], 12 + lockInterval⟩) := by
  decide

end LockTable

end Squid
