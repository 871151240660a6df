/-
Programs of one thread that lock and unlock a mutex.

A program runs on a state and on what the thread holds (`Hold`): the mutex, and whether
the scoped lock of the program owns it.  `lockGuard` and `uniqueLock` are the two kinds
of scoped locks; inside a `uniqueLock` the mutex may be dropped and taken again.  A
thread that locks the mutex it holds waits for itself for ever (`deadlocked`); unlocking
what is not held is an error (`misused`).

* `Leaves` — whatever the state, the program ends, and with this hold;
* `Leaves.bind`, `Leaves.lockGuard`, `Leaves.uniqueLock` — the rules, one for each way of
  putting programs together.
-/
import Mathlib.Logic.Basic

namespace ScopedLock

/-- How a program ends. -/
inductive Ending (α : Type) where
  | returned (a : α)
  | deadlocked
  | misused
deriving DecidableEq, Repr

/-- What the thread holds: the mutex, and the mutex as the owner of a `uniqueLock`. -/
structure Hold where
  held : Bool
  owns : Bool
deriving DecidableEq, Repr

/-- Nothing is held. -/
def Hold.free : Hold := ⟨false, false⟩

/-- The mutex is held by a `lockGuard`. -/
def Hold.guarded : Hold := ⟨true, false⟩

/-- The mutex is held by a `uniqueLock`. -/
def Hold.owned : Hold := ⟨true, true⟩

structure Prog (σ α : Type) where
  run : σ → Hold → Ending α × σ × Hold

variable {σ α β : Type}

namespace Prog

def andThen (x : Prog σ α) (f : α → Prog σ β) : Prog σ β := ⟨fun s h =>
  match x.run s h with
  | (.returned a, s', h') => (f a).run s' h'
  | (.deadlocked, s', h') => (.deadlocked, s', h')
  | (.misused, s', h') => (.misused, s', h')⟩

instance : Monad (Prog σ) where
  pure a := ⟨fun s h => (.returned a, s, h)⟩
  bind := andThen

theorem andThen_assoc {γ : Type} (x : Prog σ α) (f : α → Prog σ β) (g : β → Prog σ γ) :
    (x.andThen f).andThen g = x.andThen fun a => (f a).andThen g := by
  refine congrArg Prog.mk (funext fun s => funext fun h => ?_)
  rcases hx : x.run s h with ⟨a | _ | _, t, h'⟩ <;> simp only [andThen, hx]

theorem andThen_return (x : Prog σ α) : x.andThen pure = x := by
  refine congrArg Prog.mk (funext fun s => funext fun h => ?_)
  rcases hx : x.run s h with ⟨a | _ | _, t, h'⟩ <;> rfl

instance : LawfulMonad (Prog σ) :=
  LawfulMonad.mk' (Prog σ) andThen_return (fun _ _ => rfl) andThen_assoc

end Prog

/-- Look at the state and change it. -/
def onState (f : σ → α × σ) : Prog σ α := ⟨fun s h => (.returned (f s).1, (f s).2, h)⟩

def lock : Prog σ Unit := ⟨fun s h =>
  if h.held then (.deadlocked, s, h) else (.returned (), s, { h with held := true })⟩

def unlock : Prog σ Unit := ⟨fun s h =>
  if h.held then (.returned (), s, { h with held := false }) else (.misused, s, h)⟩

/-- The scoped lock becomes, or stops being, the owner. -/
def own (owns : Bool) : Prog σ Unit := ⟨fun s h => (.returned (), s, { h with owns := owns })⟩

def owns : Prog σ Bool := ⟨fun s h => (.returned h.owns, s, h)⟩

def misuse : Prog σ α := ⟨fun s h => (.misused, s, h)⟩

/-- `std::lock_guard`: the mutex is held until the end of the scope. -/
def lockGuard (x : Prog σ α) : Prog σ α := do
  lock
  let a ← x
  unlock
  pure a

/-- `unlock` of a `std::unique_lock`. -/
def drop : Prog σ Unit := do
  if ← owns then
    unlock
    own false
  else misuse

/-- `lock` of a `std::unique_lock`. -/
def retake : Prog σ Unit := do
  if ← owns then misuse
  else
    lock
    own true

/-- The end of the scope of a `std::unique_lock`: what it owns is unlocked. -/
def endScope : Prog σ Unit := do
  if ← owns then
    unlock
    own false

/-- `std::unique_lock`, locked at the start of its scope. -/
def uniqueLock (x : Prog σ α) : Prog σ α := do
  lock
  own true
  let a ← x
  endScope
  pure a

/-! ### Runs -/

section Runs

variable {x : Prog σ α} {f : α → Prog σ β} {s s' : σ} {h h' h'' : Hold} {a : α}

theorem return_run (a : α) (s : σ) (h : Hold) : (pure a : Prog σ α).run s h = (.returned a, s, h) :=
  rfl

theorem bind_returned (hx : x.run s h = (.returned a, s', h')) :
    (x >>= f).run s h = (f a).run s' h' := by
  show (x.andThen f).run s h = (f a).run s' h'
  simp only [Prog.andThen, hx]

theorem bind_deadlocked (hx : x.run s h = (.deadlocked, s', h')) :
    (x >>= f).run s h = (.deadlocked, s', h') := by
  show (x.andThen f).run s h = (.deadlocked, s', h')
  simp only [Prog.andThen, hx]

theorem map_eq_returned {g : α → β} {b : β} (h : (g <$> x).run s h' = (.returned b, s', h'')) :
    ∃ a, x.run s h' = (.returned a, s', h'') ∧ g a = b := by
  rw [map_eq_pure_bind] at h
  rcases hx : x.run s h' with ⟨a | _ | _, t, k⟩
  · rw [bind_returned hx, return_run] at h
    obtain ⟨hvalue, hrest⟩ := Prod.mk.inj h
    exact ⟨a, by rw [hrest], Ending.returned.inj hvalue⟩
  · rw [bind_deadlocked hx] at h
    cases h
  · have hmisused : (x >>= fun a => pure (g a)).run s h' = (.misused, t, k) := by
      show (x.andThen fun a => pure (g a)).run s h' = _
      simp only [Prog.andThen, hx]
    rw [hmisused] at h
    cases h

theorem lock_free (s : σ) : (lock : Prog σ Unit).run s .free = (.returned (), s, .guarded) := rfl

/-- The thread waits for itself. -/
theorem lock_held (s : σ) {h : Hold} (hheld : h.held = true) :
    (lock : Prog σ Unit).run s h = (.deadlocked, s, h) := by
  simp only [lock, hheld, if_true]

theorem unlock_guarded (s : σ) :
    (unlock : Prog σ Unit).run s .guarded = (.returned (), s, .free) := rfl

/-- A scope that starts while the mutex is held is never entered. -/
theorem uniqueLock_held (s : σ) {h : Hold} (hheld : h.held = true) (x : Prog σ α) :
    (uniqueLock x).run s h = (.deadlocked, s, h) :=
  bind_deadlocked (lock_held s hheld)

theorem lockGuard_returned (hx : x.run s .guarded = (.returned a, s', .guarded)) :
    (lockGuard x).run s .free = (.returned a, s', .free) := by
  rw [lockGuard, bind_returned (lock_free s), bind_returned hx,
    bind_returned (unlock_guarded s'), return_run]

theorem lockGuard_deadlocked (hx : x.run s .guarded = (.deadlocked, s', h')) :
    (lockGuard x).run s .free = (.deadlocked, s', h') := by
  rw [lockGuard, bind_returned (lock_free s), bind_deadlocked hx]

theorem drop_run (s : σ) : (drop : Prog σ Unit).run s .owned = (.returned (), s, .free) := rfl

theorem retake_run (s : σ) : (retake : Prog σ Unit).run s .free = (.returned (), s, .owned) := rfl

theorem endScope_owned (s : σ) : (endScope : Prog σ Unit).run s .owned = (.returned (), s, .free) :=
  rfl

theorem uniqueLock_returned (hx : x.run s .owned = (.returned a, s', .owned)) :
    (uniqueLock x).run s .free = (.returned a, s', .free) := by
  have hown : (own true : Prog σ Unit).run s .guarded = (.returned (), s, .owned) := rfl
  rw [uniqueLock, bind_returned (lock_free s), bind_returned hown, bind_returned hx,
    bind_returned (endScope_owned s'), return_run]

end Runs

/-! ### The discipline -/

/-- Started in this hold, the program returns from every state, and with that hold. -/
def Leaves (h : Hold) (x : Prog σ α) (h' : Hold) : Prop :=
  ∀ s, ∃ a s', x.run s h = (.returned a, s', h')

section Leaves

variable {x : Prog σ α} {f : α → Prog σ β} {h h' h'' : Hold}

theorem leaves_pure (a : α) (h : Hold) : Leaves h (pure a : Prog σ α) h := fun s => ⟨a, s, rfl⟩

theorem leaves_onState (f : σ → α × σ) (h : Hold) : Leaves h (onState f) h :=
  fun s => ⟨(f s).1, (f s).2, rfl⟩

theorem Leaves.bind (hx : Leaves h x h') (hf : ∀ a, Leaves h' (f a) h'') :
    Leaves h (x >>= f) h'' := by
  intro s
  obtain ⟨a, s', hrun⟩ := hx s
  rw [bind_returned hrun]
  exact hf a s'

theorem Leaves.map (hx : Leaves h x h') (g : α → β) : Leaves h (g <$> x) h' :=
  hx.bind fun a => leaves_pure (g a) h'

theorem Leaves.ite {y : Prog σ α} {c : Prop} [Decidable c] (hx : c → Leaves h x h')
    (hy : ¬ c → Leaves h y h') : Leaves h (if c then x else y) h' := by
  by_cases hc : c
  · rw [if_pos hc]
    exact hx hc
  · rw [if_neg hc]
    exact hy hc

theorem leaves_drop : Leaves .owned (drop : Prog σ Unit) .free := fun s => ⟨(), s, drop_run s⟩

theorem leaves_retake : Leaves .free (retake : Prog σ Unit) .owned := fun s => ⟨(), s, retake_run s⟩

theorem Leaves.lockGuard (hx : Leaves .guarded x .guarded) : Leaves .free (lockGuard x) .free := by
  intro s
  obtain ⟨a, s', hrun⟩ := hx s
  exact ⟨a, s', lockGuard_returned hrun⟩

theorem Leaves.uniqueLock (hx : Leaves .owned x .owned) : Leaves .free (uniqueLock x) .free := by
  intro s
  obtain ⟨a, s', hrun⟩ := hx s
  exact ⟨a, s', uniqueLock_returned hrun⟩

end Leaves

end ScopedLock
