/-
The server's `ThreadPool`: workers on one queue, one mutex and one condition variable.

A worker looks at `stopping_` and `tasks_` under the mutex and then sleeps, returns or
takes the first task.  `submit` puts a task into the queue under the mutex and makes
its `notify_one` behind it, so that another thread can get in between; the destructor
does the same with `stopping_` and `notify_all`.  A task may submit further tasks.

* `ThreadPool.step` — the workers, the submitting threads and the destructor;
* `Attentive.step` — while a worker sleeps, every queued task has a worker on its way
  to the queue or a `notify_one` that is still to come;
* `work_step` — every step of a worker, and every notification, uses up work;
* `pool_runs_all_tasks` — tasks are taken in the order of their submission, each once,
  and whatever the scheduler does the workers get through all of them.
-/
import SquidStorage.Runs
import Mathlib.Data.List.Perm.Basic

open Runs

namespace Squid

/-- Where a worker stands in `workerLoop`. -/
inductive Worker (τ : Type) where
  /-- about to lock `queueMutex_` and look -/
  | checking
  /-- blocked on `queueCv_` -/
  | asleep
  /-- in `task()` -/
  | running (task : τ)
  | returned
deriving DecidableEq, Repr

namespace Worker

variable {τ : Type}

def isChecking : Worker τ → Bool
  | checking => true
  | _ => false

def isAsleep : Worker τ → Bool
  | asleep => true
  | _ => false

def isReturned : Worker τ → Bool
  | returned => true
  | _ => false

def task : Worker τ → Option τ
  | running task => some task
  | _ => none

/-- The steps to the worker's next look, that one included, if nobody wakes it. -/
def load : Worker τ → ℕ
  | checking => 1
  | running _ => 2
  | asleep | returned => 0

/-- What `notify_all` does to a worker. -/
def wake : Worker τ → Worker τ
  | asleep => checking
  | worker => worker

@[simp] theorem isAsleep_wake (worker : Worker τ) : worker.wake.isAsleep = false := by
  cases worker <;> rfl

@[simp] theorem isReturned_wake (worker : Worker τ) :
    worker.wake.isReturned = worker.isReturned := by
  cases worker <;> rfl

theorem load_wake_le (worker : Worker τ) : worker.wake.load ≤ worker.load + 1 := by
  cases worker <;> simp [wake, load]

@[simp] theorem task_wake (worker : Worker τ) : worker.wake.task = worker.task := by
  cases worker <;> rfl

end Worker

/-- The pool, its workers and the calls under way.  `submitted`, `started` and `finished`
record the tasks in the order in which it happened to them. -/
structure ThreadPool (τ : Type) where
  workers : List (Worker τ)
  tasks : List τ := []
  stopping : Bool := false
  /-- the calls of `submit` that have yet to make their `notify_one` -/
  owed : ℕ := 0
  /-- the destructor is past its `notify_all` -/
  notified : Bool := false
  submitted : List τ := []
  started : List τ := []
  finished : List τ := []
deriving DecidableEq, Repr

inductive PoolEvent (τ : Type) where
  /-- `submit` up to the end of its locked block, by a worker's task or from outside -/
  | submit (task : τ) (submitter : Option ℕ)
  /-- the `notify_one` of a `submit`, and the sleeper it wakes if there is one -/
  | notifyOne (woken : Option ℕ)
  /-- the locked block of `workerLoop` up to the sleep, the return or the end of the block -/
  | look (worker : ℕ)
  /-- `task()` returns; a `packaged_task` keeps what it throws -/
  | finish (worker : ℕ)
  /-- a sleeper wakes up by itself -/
  | spurious (worker : ℕ)
  /-- the destructor's locked block -/
  | stop
  /-- the destructor's `notify_all` -/
  | notifyAll
deriving DecidableEq, Repr

def PoolEvent.task {τ : Type} : PoolEvent τ → Option τ
  | submit task _ => some task
  | _ => none

/-- An event that the workers and the calls under way owe by themselves. -/
def PoolEvent.isWork {τ : Type} : PoolEvent τ → Bool
  | notifyOne _ | look _ | finish _ | notifyAll => true
  | submit _ _ | spurious _ | stop => false

/-- The work that an event brings to a pool of `workers` workers. -/
def PoolEvent.brings {τ : Type} (workers : ℕ) : PoolEvent τ → ℕ
  | submit _ _ => 4
  | spurious _ => 1
  | stop => workers + 1
  | _ => 0

namespace ThreadPool

variable {τ ρ : Type}

/-- `ThreadPool(workerCount)`. -/
def start (workerCount : ℕ) : ThreadPool τ :=
  { workers := List.replicate (if workerCount = 0 then 1 else workerCount) .checking }

def setWorker (p : ThreadPool τ) (i : ℕ) (worker : Worker τ) : ThreadPool τ :=
  { p with workers := p.workers.set i worker }

/-- The locked block of `workerLoop`. -/
def lookAt (p : ThreadPool τ) (i : ℕ) : ThreadPool τ :=
  if !(p.stopping || !p.tasks.isEmpty) then p.setWorker i .asleep
  else match p.tasks with
    | [] => p.setWorker i .returned
    | task :: rest =>
      { p.setWorker i (.running task) with tasks := rest, started := p.started ++ [task] }

def step (p : ThreadPool τ) : PoolEvent τ → Option (ThreadPool τ)
  | .submit task submitter =>
    if submitter.all fun i => (p.workers[i]?.bind Worker.task).isSome then
      some { p with tasks := p.tasks ++ [task], owed := p.owed + 1
                    submitted := p.submitted ++ [task] }
    else none
  | .notifyOne woken =>
    if p.owed = 0 then none
    else match woken with
      | none => if p.workers.any Worker.isAsleep then none else some { p with owed := p.owed - 1 }
      | some i => match p.workers[i]? with
        | some .asleep => some { p.setWorker i .checking with owed := p.owed - 1 }
        | _ => none
  | .look i => match p.workers[i]? with
    | some .checking => some (p.lookAt i)
    | _ => none
  | .finish i => match p.workers[i]? with
    | some (.running task) =>
      some { p.setWorker i .checking with finished := p.finished ++ [task] }
    | _ => none
  | .spurious i => match p.workers[i]? with
    | some .asleep => some (p.setWorker i .checking)
    | _ => none
  | .stop => if p.stopping then none else some { p with stopping := true }
  | .notifyAll =>
    if p.stopping && !p.notified then
      some { p with workers := p.workers.map Worker.wake, notified := true }
    else none

/-- Nobody but the tasks themselves submits to a pool that is being destroyed. -/
def Open (p : ThreadPool τ) : PoolEvent τ → Prop
  | .submit _ none => p.stopping = false
  | _ => True

instance (p : ThreadPool τ) (e : PoolEvent τ) : Decidable (p.Open e) := by
  unfold Open
  split <;> infer_instance

def checkingCount (p : ThreadPool τ) : ℕ := p.workers.countP Worker.isChecking

def asleepCount (p : ThreadPool τ) : ℕ := p.workers.countP Worker.isAsleep

def returnedCount (p : ThreadPool τ) : ℕ := p.workers.countP Worker.isReturned

/-- The tasks that the workers are in. -/
def inWork (p : ThreadPool τ) : List τ := p.workers.filterMap Worker.task

/-- A bound on the steps that the pool still makes without a further `submit`: a worker
gets to the queue once more behind every task and every notification. -/
def work (p : ThreadPool τ) : ℕ :=
  2 * p.tasks.length + (p.workers.map Worker.load).sum + 2 * p.owed
    + if p.stopping && !p.notified then p.workers.length + 1 else 0

/-! ### The steps -/

/-- One worker of the list goes from `w` to `w'`. -/
def Moves (ws ws' : List (Worker τ)) (w w' : Worker τ) : Prop :=
  ∃ pre post, ws = pre ++ w :: post ∧ ws' = pre ++ w' :: post

theorem moves_set {ws : List (Worker τ)} {i : ℕ} {w : Worker τ} (h : ws[i]? = some w)
    (w' : Worker τ) : Moves ws (ws.set i w') w w' := by
  obtain ⟨hi, hw⟩ := List.getElem?_eq_some_iff.mp h
  refine ⟨ws.take i, ws.drop (i + 1), ?_, ?_⟩
  · rw [← hw, List.getElem_cons_drop, List.take_append_drop]
  · rw [List.set_eq_take_append_cons_drop, if_pos hi]

namespace Moves

variable {ws ws' : List (Worker τ)} {w w' : Worker τ}

theorem mem (h : Moves ws ws' w w') : w ∈ ws := by
  obtain ⟨pre, post, rfl, rfl⟩ := h
  simp

theorem length (h : Moves ws ws' w w') : ws'.length = ws.length := by
  obtain ⟨pre, post, rfl, rfl⟩ := h
  simp

theorem countP (h : Moves ws ws' w w') (f : Worker τ → Bool) :
    ws'.countP f + (f w).toNat = ws.countP f + (f w').toNat := by
  obtain ⟨pre, post, rfl, rfl⟩ := h
  cases hw : f w <;> cases hw' : f w' <;> simp [hw, hw'] <;> omega

theorem load (h : Moves ws ws' w w') :
    (ws'.map Worker.load).sum + w.load = (ws.map Worker.load).sum + w'.load := by
  obtain ⟨pre, post, rfl, rfl⟩ := h
  simp only [List.map_append, List.map_cons, List.sum_append, List.sum_cons]
  omega

theorem filterMap (h : Moves ws ws' w w') (f : Worker τ → Option ρ) :
    ((f w).toList ++ ws'.filterMap f).Perm ((f w').toList ++ ws.filterMap f) := by
  obtain ⟨pre, post, rfl, rfl⟩ := h
  have hsplit : ∀ v : Worker τ,
      ((pre ++ v :: post).filterMap f).Perm ((f v).toList ++ (pre ++ post).filterMap f) := by
    intro v
    refine (List.perm_middle.filterMap f).trans (List.Perm.of_eq ?_)
    cases hv : f v <;> simp [hv]
  refine (((hsplit w').append_left _).trans ?_).trans ((hsplit w).append_left _).symm
  simp only [← List.append_assoc]
  exact List.perm_append_comm.append_right _

end Moves

/-- What the pool can do in one step. -/
inductive Steps (p : ThreadPool τ) : PoolEvent τ → ThreadPool τ → Prop
  | submit {task : τ} {submitter : Option ℕ}
      (busy : ∀ i ∈ submitter, ∃ t, p.workers[i]? = some (.running t)) :
      Steps p (.submit task submitter)
        { p with tasks := p.tasks ++ [task], owed := p.owed + 1
                 submitted := p.submitted ++ [task] }
  | unheard (owed : 0 < p.owed) (awake : p.asleepCount = 0) :
      Steps p (.notifyOne none) { p with owed := p.owed - 1 }
  | heard {i : ℕ} {ws : List (Worker τ)} (owed : 0 < p.owed)
      (moves : Moves p.workers ws .asleep .checking) :
      Steps p (.notifyOne (some i)) { p with workers := ws, owed := p.owed - 1 }
  | sleep {i : ℕ} {ws : List (Worker τ)} (stopping : p.stopping = false) (tasks : p.tasks = [])
      (moves : Moves p.workers ws .checking .asleep) :
      Steps p (.look i) { p with workers := ws }
  | leave {i : ℕ} {ws : List (Worker τ)} (stopping : p.stopping = true) (tasks : p.tasks = [])
      (moves : Moves p.workers ws .checking .returned) :
      Steps p (.look i) { p with workers := ws }
  | take {i : ℕ} {ws : List (Worker τ)} {task : τ} {rest : List τ} (tasks : p.tasks = task :: rest)
      (moves : Moves p.workers ws .checking (.running task)) :
      Steps p (.look i) { p with workers := ws, tasks := rest, started := p.started ++ [task] }
  | finish {i : ℕ} {ws : List (Worker τ)} {task : τ}
      (moves : Moves p.workers ws (.running task) .checking) :
      Steps p (.finish i) { p with workers := ws, finished := p.finished ++ [task] }
  | spurious {i : ℕ} {ws : List (Worker τ)} (moves : Moves p.workers ws .asleep .checking) :
      Steps p (.spurious i) { p with workers := ws }
  | stop (stopping : p.stopping = false) : Steps p .stop { p with stopping := true }
  | notifyAll (stopping : p.stopping = true) (notified : p.notified = false) :
      Steps p .notifyAll { p with workers := p.workers.map Worker.wake, notified := true }

variable {p q : ThreadPool τ} {e : PoolEvent τ}

theorem steps_look {i : ℕ} (hi : p.workers[i]? = some .checking) :
    Steps p (.look i) (p.lookAt i) := by
  unfold lookAt
  cases htasks : p.tasks with
  | nil =>
    cases hstop : p.stopping with
    | false => exact .sleep hstop htasks (moves_set hi _)
    | true => exact .leave hstop htasks (moves_set hi _)
  | cons task rest =>
    simp only [List.isEmpty_cons, Bool.not_false, Bool.or_true, Bool.not_true, Bool.false_eq_true,
      if_false]
    exact .take htasks (moves_set hi _)

/-- **Every step is one of these.** -/
theorem steps_of_step (h : p.step e = some q) : Steps p e q := by
  cases e with
  | submit task submitter =>
    simp only [step, Option.ite_none_right_eq_some, Option.some.injEq] at h
    obtain ⟨hbusy, rfl⟩ := h
    refine .submit fun i hi => ?_
    rw [Option.mem_def] at hi
    subst hi
    obtain ⟨t, worker, hworker, ht⟩ : ∃ t worker, p.workers[i]? = some worker ∧
        worker.task = some t := by
      simpa [Option.isSome_iff_exists, Option.bind_eq_some_iff] using hbusy
    cases worker with
    | running t => exact ⟨t, hworker⟩
    | checking | asleep | returned => simp [Worker.task] at ht
  | notifyOne woken =>
    simp only [step, Option.ite_none_left_eq_some] at h
    obtain ⟨howed, h⟩ := h
    have hpos := Nat.pos_of_ne_zero howed
    cases woken with
    | none =>
      simp only [Option.ite_none_left_eq_some, Option.some.injEq] at h
      obtain ⟨hawake, rfl⟩ := h
      refine .unheard hpos (List.countP_eq_zero.mpr ?_)
      simpa using hawake
    | some i =>
      simp only at h
      split at h
      next hi =>
        obtain rfl := Option.some.inj h
        exact .heard hpos (moves_set hi _)
      next => simp at h
  | look i =>
    simp only [step] at h
    split at h
    next hi =>
      obtain rfl := Option.some.inj h
      exact steps_look hi
    next => simp at h
  | finish i =>
    simp only [step] at h
    split at h
    next task hi =>
      obtain rfl := Option.some.inj h
      exact .finish (moves_set hi _)
    next => simp at h
  | spurious i =>
    simp only [step] at h
    split at h
    next hi =>
      obtain rfl := Option.some.inj h
      exact .spurious (moves_set hi _)
    next => simp at h
  | stop =>
    simp only [step, Option.ite_none_left_eq_some, Option.some.injEq] at h
    obtain ⟨hstop, rfl⟩ := h
    exact .stop (eq_false_of_ne_true hstop)
  | notifyAll =>
    simp only [step, Option.ite_none_right_eq_some, Option.some.injEq] at h
    obtain ⟨hstop, rfl⟩ := h
    simp only [Bool.and_eq_true, Bool.not_eq_true'] at hstop
    exact .notifyAll hstop.1 hstop.2

/-! ### What every step keeps -/

/-- No task is lost, repeated or overtaken. -/
structure Recorded (p : ThreadPool τ) : Prop where
  order : p.started ++ p.tasks = p.submitted
  kept : (p.inWork ++ p.finished).Perm p.started

theorem recorded_start (workerCount : ℕ) : (start workerCount : ThreadPool τ).Recorded where
  order := rfl
  kept := by simp [start, inWork, Worker.task]

theorem Recorded.step (h : p.Recorded) (hstep : p.step e = some q) : q.Recorded := by
  obtain ⟨order, kept⟩ := h
  -- a move between two places without a task leaves `inWork` as it was
  have hidle {ws : List (Worker τ)} {w w' : Worker τ} (moves : Moves p.workers ws w w')
      (hw : w.task = none) (hw' : w'.task = none) :
      (ws.filterMap Worker.task ++ p.finished).Perm p.started := by
    have hsame := moves.filterMap Worker.task
    rw [hw, hw'] at hsame
    exact (hsame.append_right _).trans kept
  cases steps_of_step hstep with
  | submit busy => exact ⟨by simp [← order], kept⟩
  | unheard owed awake => exact ⟨order, kept⟩
  | heard owed moves => exact ⟨order, hidle moves rfl rfl⟩
  | sleep stopping tasks moves => exact ⟨order, hidle moves rfl rfl⟩
  | leave stopping tasks moves => exact ⟨order, hidle moves rfl rfl⟩
  | @take i ws task rest tasks moves =>
    refine ⟨by simp [← order, tasks], ?_⟩
    have htaken : (ws.filterMap Worker.task).Perm (task :: p.inWork) :=
      moves.filterMap Worker.task
    calc (ws.filterMap Worker.task ++ p.finished).Perm (task :: (p.inWork ++ p.finished)) :=
          htaken.append_right _
      _ |>.Perm (task :: p.started) := kept.cons task
      _ |>.Perm (p.started ++ [task]) := (List.perm_append_singleton task p.started).symm
  | @finish i ws task moves =>
    refine ⟨order, ?_⟩
    have hended : (task :: ws.filterMap Worker.task).Perm p.inWork := moves.filterMap Worker.task
    calc (ws.filterMap Worker.task ++ (p.finished ++ [task])).Perm
          (task :: (ws.filterMap Worker.task ++ p.finished)) := by
          rw [← List.append_assoc]
          exact List.perm_append_singleton task _
      _ |>.Perm (p.inWork ++ p.finished) := hended.append_right _
      _ |>.Perm p.started := kept
  | spurious moves => exact ⟨order, hidle moves rfl rfl⟩
  | stop stopping => exact ⟨order, kept⟩
  | notifyAll stopping notified =>
    refine ⟨order, ?_⟩
    have hsame : (p.workers.map Worker.wake).filterMap Worker.task = p.inWork := by
      rw [List.filterMap_map, inWork]
      exact congrArg (List.filterMap · p.workers) (funext Worker.task_wake)
    simpa only [inWork, hsame] using kept

/-- No task is left to workers that all sleep or have returned: while a worker sleeps, each
queued task has a worker that is about to look or a `notify_one` that is still to come. -/
structure Attentive (p : ThreadPool τ) : Prop where
  watched : 0 < p.asleepCount → p.tasks.length ≤ p.checkingCount + p.owed
  roused : p.notified = true → p.stopping = true ∧ p.asleepCount = 0
  parted : 0 < p.returnedCount → p.stopping = true
  manned : 0 < p.workers.length
  staffed : p.tasks ≠ [] → p.returnedCount < p.workers.length

theorem attentive_start (workerCount : ℕ) : (start workerCount : ThreadPool τ).Attentive where
  watched := by simp [start, asleepCount, List.countP_replicate, Worker.isAsleep]
  roused := by simp [start]
  parted := by simp [start, returnedCount, List.countP_replicate, Worker.isReturned]
  manned := by
    simp only [start, List.length_replicate]
    split <;> omega
  staffed := by simp [start]

/-- A worker in a task has not returned. -/
theorem returnedCount_lt_of_running {i : ℕ} {t : τ} (h : p.workers[i]? = some (.running t)) :
    p.returnedCount < p.workers.length := by
  refine Nat.lt_of_le_of_ne List.countP_le_length fun hall => ?_
  have := List.countP_eq_length.mp hall _ (List.mem_of_getElem? h)
  simp [Worker.isReturned] at this

namespace Attentive

/-- A worker goes back to look, and takes no more than one `notify_one` for it. -/
theorem rises (h : p.Attentive) {w : Worker τ} (moves : Moves p.workers q.workers w .checking)
    (hchecking : w.isChecking = false) (hreturned : w.isReturned = false)
    (hstopping : q.stopping = p.stopping) (hnotified : q.notified = p.notified)
    (htasks : q.tasks = p.tasks) (howed : p.owed ≤ q.owed + 1) : q.Attentive := by
  have hc : q.checkingCount = p.checkingCount + 1 := by
    have := moves.countP Worker.isChecking
    rwa [hchecking] at this
  have ha : q.asleepCount + w.isAsleep.toNat = p.asleepCount := moves.countP Worker.isAsleep
  have hr : q.returnedCount = p.returnedCount := by
    have := moves.countP Worker.isReturned
    rwa [hreturned] at this
  have hl := moves.length
  obtain ⟨watched, roused, parted, manned, staffed⟩ := h
  constructor <;> grind

theorem step (h : p.Attentive) (hopen : p.Open e) (hstep : p.step e = some q) : q.Attentive := by
  cases steps_of_step hstep with
  | @submit task submitter busy =>
    refine ⟨fun hsome => ?_, h.roused, h.parted, h.manned, fun _ => ?_⟩
    · have := h.watched hsome
      simp only [List.length_append, List.length_singleton, checkingCount] at this ⊢
      omega
    · cases submitter with
      | none =>
        have hnone : p.returnedCount = 0 := by
          by_contra hne
          have := h.parted (Nat.pos_of_ne_zero hne)
          simp [Open, this] at hopen
        exact hnone ▸ h.manned
      | some i =>
        obtain ⟨t, ht⟩ := busy i rfl
        exact returnedCount_lt_of_running ht
  | unheard owed awake =>
    exact ⟨fun hsome => absurd awake (Nat.ne_of_gt hsome), h.roused, h.parted, h.manned, h.staffed⟩
  | heard owed moves => exact h.rises moves rfl rfl rfl rfl rfl (by simp only; omega)
  | @sleep i ws stopping tasks moves =>
    have hr : ws.countP Worker.isReturned = p.returnedCount := moves.countP Worker.isReturned
    refine ⟨fun _ => by simp [tasks], fun hn => ?_, fun hsome => h.parted (hr ▸ hsome),
      moves.length ▸ h.manned, fun hne => absurd tasks hne⟩
    have := (h.roused hn).1
    simp [stopping] at this
  | @leave i ws stopping tasks moves =>
    have ha : ws.countP Worker.isAsleep = p.asleepCount := moves.countP Worker.isAsleep
    exact ⟨fun _ => by simp [tasks], fun hn => ⟨stopping, ha.trans (h.roused hn).2⟩,
      fun _ => stopping, moves.length ▸ h.manned, fun hne => absurd tasks hne⟩
  | @take i ws task rest tasks moves =>
    have hc : ws.countP Worker.isChecking + 1 = p.checkingCount := moves.countP Worker.isChecking
    have ha : ws.countP Worker.isAsleep = p.asleepCount := moves.countP Worker.isAsleep
    have hr : ws.countP Worker.isReturned = p.returnedCount := moves.countP Worker.isReturned
    refine ⟨fun hsome => ?_, fun hn => ⟨(h.roused hn).1, ha.trans (h.roused hn).2⟩,
      fun hsome => h.parted (hr ▸ hsome), moves.length ▸ h.manned, fun _ => ?_⟩
    · -- the worker takes itself and the task off the two sides of the bound
      have := h.watched (ha ▸ hsome)
      rw [tasks, List.length_cons] at this
      simp only [checkingCount] at hc this ⊢
      omega
    · have := h.staffed (by simp [tasks])
      simpa only [returnedCount, hr, moves.length] using this
  | finish moves => exact h.rises moves rfl rfl rfl rfl rfl (Nat.le_succ _)
  | spurious moves => exact h.rises moves rfl rfl rfl rfl rfl (Nat.le_succ _)
  | stop stopping =>
    exact ⟨h.watched, fun hn => ⟨rfl, (h.roused hn).2⟩, fun _ => rfl, h.manned, h.staffed⟩
  | notifyAll stopping notified =>
    have hasleep : (p.workers.map Worker.wake).countP Worker.isAsleep = 0 := by
      simp [List.countP_eq_zero]
    have hreturned : (p.workers.map Worker.wake).countP Worker.isReturned = p.returnedCount := by
      rw [List.countP_map, returnedCount]
      exact congrArg (List.countP · p.workers) (funext Worker.isReturned_wake)
    refine ⟨fun hsome => absurd hasleep (Nat.ne_of_gt hsome), fun _ => ⟨stopping, hasleep⟩,
      fun _ => stopping, ?_, fun hne => ?_⟩
    · simpa using h.manned
    · have := h.staffed hne
      simpa [returnedCount, hreturned] using this

end Attentive

/-! ### The work that is left -/

theorem length_step (h : p.step e = some q) : q.workers.length = p.workers.length := by
  cases steps_of_step h with
  | submit busy | unheard owed awake | stop stopping => rfl
  | heard owed moves => exact moves.length
  | sleep stopping tasks moves => exact moves.length
  | leave stopping tasks moves => exact moves.length
  | take tasks moves => exact moves.length
  | finish moves => exact moves.length
  | spurious moves => exact moves.length
  | notifyAll stopping notified => exact List.length_map _

/-- A worker's move shifts the work from its place to the next. -/
theorem work_of_moves {w w' : Worker τ} (moves : Moves p.workers q.workers w w')
    (hstopping : q.stopping = p.stopping) (hnotified : q.notified = p.notified) :
    q.work + w.load + 2 * p.tasks.length + 2 * p.owed
      = p.work + w'.load + 2 * q.tasks.length + 2 * q.owed := by
  have hload := moves.load
  simp only [work, hstopping, hnotified, moves.length]
  omega

theorem sum_load_wake_le (workers : List (Worker τ)) :
    ((workers.map Worker.wake).map Worker.load).sum
      ≤ (workers.map Worker.load).sum + workers.length := by
  induction workers with
  | nil => exact Nat.le_refl 0
  | cons worker workers ih =>
    have := worker.load_wake_le
    simp only [List.map_cons, List.sum_cons, List.length_cons]
    omega

/-- **Every step of a worker, and every notification, uses up work.** -/
theorem work_step (h : p.step e = some q) :
    q.work + e.isWork.toNat ≤ p.work + e.brings p.workers.length := by
  cases steps_of_step h with
  | submit busy =>
    simp only [work, List.length_append, List.length_singleton, PoolEvent.isWork, PoolEvent.brings,
      Bool.toNat_false]
    omega
  | unheard owed awake =>
    simp only [work, PoolEvent.isWork, PoolEvent.brings, Bool.toNat_true]
    omega
  | @heard i ws owed moves =>
    have := work_of_moves (q := { p with workers := ws, owed := p.owed - 1 }) moves rfl rfl
    simp only [PoolEvent.isWork, PoolEvent.brings, Bool.toNat_true, Worker.load] at this ⊢
    omega
  | @sleep i ws stopping tasks moves | @leave i ws stopping tasks moves =>
    have := work_of_moves (q := { p with workers := ws }) moves rfl rfl
    simp only [PoolEvent.isWork, PoolEvent.brings, Bool.toNat_true, Worker.load] at this ⊢
    omega
  | @take i ws task rest tasks moves =>
    have := work_of_moves
      (q := { p with workers := ws, tasks := rest, started := p.started ++ [task] }) moves rfl rfl
    simp only [PoolEvent.isWork, PoolEvent.brings, Bool.toNat_true, Worker.load, tasks,
      List.length_cons] at this ⊢
    omega
  | @finish i ws task moves =>
    have := work_of_moves
      (q := { p with workers := ws, finished := p.finished ++ [task] }) moves rfl rfl
    simp only [PoolEvent.isWork, PoolEvent.brings, Bool.toNat_true, Worker.load] at this ⊢
    omega
  | @spurious i ws moves =>
    have := work_of_moves (q := { p with workers := ws }) moves rfl rfl
    simp only [PoolEvent.isWork, PoolEvent.brings, Bool.toNat_false, Worker.load] at this ⊢
    omega
  | stop stopping =>
    cases hnotified : p.notified <;>
      simp [work, PoolEvent.isWork, PoolEvent.brings, stopping, hnotified]
  | notifyAll stopping notified =>
    have := sum_load_wake_le p.workers
    simp only [work, PoolEvent.isWork, PoolEvent.brings, stopping, notified, Bool.toNat_true,
      Bool.not_true, Bool.not_false, Bool.and_false, Bool.and_true, Bool.false_eq_true, if_false,
      if_true]
    omega

/-! ### Whole runs -/

/-- Neither a worker nor a call under way has anything left to do. -/
def Quiet (p : ThreadPool τ) : Prop := ∀ e, e.isWork = true → p.step e = none

theorem Quiet.idle (h : p.Quiet) {worker : Worker τ} (hmem : worker ∈ p.workers) :
    worker.load = 0 := by
  obtain ⟨i, hi⟩ := List.mem_iff_getElem?.mp hmem
  cases worker with
  | checking =>
    have := h (.look i) rfl
    simp [step, hi] at this
  | running task =>
    have := h (.finish i) rfl
    simp [step, hi] at this
  | asleep | returned => rfl

theorem Quiet.owed (h : p.Quiet) : p.owed = 0 := by
  by_contra hne
  have hnone := h (.notifyOne none) rfl
  simp only [step, hne, if_false, ite_eq_left_iff, reduceCtorEq, imp_false, not_not] at hnone
  obtain ⟨worker, hmem, hasleep⟩ := List.any_eq_true.mp hnone
  obtain ⟨i, hi⟩ := List.mem_iff_getElem?.mp hmem
  have hsome := h (.notifyOne (some i)) rfl
  cases worker <;> simp [Worker.isAsleep] at hasleep
  simp [step, hne, hi] at hsome

theorem quiet_iff : p.Quiet ↔ (∀ worker ∈ p.workers, worker.load = 0) ∧ p.owed = 0 ∧
    (p.stopping = true → p.notified = true) := by
  constructor
  · intro h
    refine ⟨fun worker hmem => h.idle hmem, h.owed, fun hstopping => ?_⟩
    have := h .notifyAll rfl
    simpa [step, hstopping] using this
  · rintro ⟨hidle, howed, hnotified⟩ e hwork
    by_contra hstep
    obtain ⟨q, hq⟩ := Option.ne_none_iff_exists'.mp hstep
    cases steps_of_step hq with
    | submit busy | spurious moves | stop stopping => simp [PoolEvent.isWork] at hwork
    | unheard owed awake | heard owed moves => exact absurd howed (Nat.ne_of_gt owed)
    | sleep stopping tasks moves | leave stopping tasks moves =>
      exact Nat.one_ne_zero (hidle _ moves.mem)
    | take tasks moves => exact Nat.one_ne_zero (hidle _ moves.mem)
    | finish moves => exact Nat.succ_ne_zero 1 (hidle _ moves.mem)
    | notifyAll stopping notified => simp [hnotified stopping] at notified

instance (p : ThreadPool τ) : Decidable p.Quiet := decidable_of_iff' _ quiet_iff

/-- At rest the queue is empty. -/
theorem Attentive.tasks_of_quiet (h : p.Attentive) (hquiet : p.Quiet) : p.tasks = [] := by
  by_contra hne
  obtain ⟨worker, hmem, hworker⟩ : ∃ worker ∈ p.workers, worker.isReturned ≠ true := by
    by_contra! hall
    exact absurd (List.countP_eq_length.mpr hall) (Nat.ne_of_lt (h.staffed hne))
  have hchecking : p.checkingCount = 0 := by
    refine List.countP_eq_zero.mpr fun worker hmem => ?_
    have := hquiet.idle hmem
    cases worker <;> simp_all [Worker.load, Worker.isChecking]
  have hasleep : 0 < p.asleepCount := by
    refine List.countP_pos_iff.mpr ⟨worker, hmem, ?_⟩
    have := hquiet.idle hmem
    cases worker <;> simp_all [Worker.load, Worker.isReturned, Worker.isAsleep]
  have := h.watched hasleep
  rw [hchecking, hquiet.owed] at this
  exact hne (List.length_eq_zero_iff.mp (Nat.le_zero.mp this))

/-- At rest nobody is in a task. -/
theorem Quiet.inWork (h : p.Quiet) : p.inWork = [] := by
  refine List.filterMap_eq_nil_iff.mpr fun worker hmem => ?_
  have := h.idle hmem
  cases worker <;> simp_all [Worker.load, Worker.task]

/-- At rest behind the destructor's `notify_all`, the threads can be joined. -/
theorem Attentive.returned_of_quiet (h : p.Attentive) (hquiet : p.Quiet)
    (hstopping : p.stopping = true) : ∀ worker ∈ p.workers, worker = .returned := by
  intro worker hmem
  have hnotified := (quiet_iff.mp hquiet).2.2 hstopping
  have hawake := List.countP_eq_zero.mp (h.roused hnotified).2 worker hmem
  have := hquiet.idle hmem
  cases worker <;> simp_all [Worker.load, Worker.isAsleep]

theorem submitted_step (h : p.step e = some q) : q.submitted = p.submitted ++ e.task.toList := by
  cases steps_of_step h <;> simp [PoolEvent.task]

theorem run_submitted {events : List (PoolEvent τ)} (hrun : run step p events = some q) :
    q.submitted = p.submitted ++ events.filterMap PoolEvent.task := by
  induction events generalizing p with
  | nil =>
    obtain rfl := Option.some.inj hrun
    simp
  | cons e events ih =>
    obtain ⟨t, ht, hrest⟩ := run_cons hrun
    rw [ih hrest, submitted_step ht, List.append_assoc]
    cases htask : e.task <;> simp [htask]

end ThreadPool

open ThreadPool

/-- **The pool runs every task**, in any interleaving of its workers, the threads that submit,
the tasks that submit more and the destructor.  The tasks are taken in the order of
submission and each once; the steps of the workers are bounded by what the other events
bring; and where nothing is left to do every task has been run to its end, and a pool that
is being destroyed has no worker left to wait for. -/
theorem pool_runs_all_tasks {τ : Type} (workerCount : ℕ) (events : List (PoolEvent τ))
    (p : ThreadPool τ) (hopen : Meets step Open (start workerCount) events)
    (hrun : run step (start workerCount) events = some p) :
    p.submitted = events.filterMap PoolEvent.task ∧ p.started ++ p.tasks = p.submitted ∧
      events.countP PoolEvent.isWork
        ≤ p.workers.length + (events.map fun e => e.brings p.workers.length).sum ∧
      (p.Quiet → p.started = p.submitted ∧ p.finished.Perm p.submitted ∧
        (p.stopping = true → ∀ worker ∈ p.workers, worker = .returned)) := by
  have hrecorded := run_invariant (C := Open) (fun _ _ _ h _ => h.step)
    (recorded_start workerCount) hopen hrun
  have hattentive := run_invariant (fun _ _ _ h => h.step) (attentive_start workerCount) hopen hrun
  have hstart : (start workerCount : ThreadPool τ).work
      = (start workerCount : ThreadPool τ).workers.length := by
    simp [start, work, Worker.load]
  have hwork := run_rank
    (P := fun p => p.workers.length = (start workerCount : ThreadPool τ).workers.length)
    work PoolEvent.isWork (PoolEvent.brings (start workerCount : ThreadPool τ).workers.length)
    (fun s e t hs _ ht => ⟨(length_step ht).trans hs, hs ▸ work_step ht⟩) rfl hopen hrun
  refine ⟨run_submitted hrun, hrecorded.order, ?_, fun hquiet => ?_⟩
  · rw [hstart] at hwork
    rw [hwork.1]
    exact Nat.le_trans (Nat.le_add_right _ _) hwork.2
  · have hstarted : p.started = p.submitted := by
      rw [← hrecorded.order, hattentive.tasks_of_quiet hquiet, List.append_nil]
    have hfinished := hrecorded.kept
    rw [hquiet.inWork, List.nil_append, hstarted] at hfinished
    exact ⟨hstarted, hfinished, hattentive.returned_of_quiet hquiet⟩

/-- Two workers; the task `7` submits `9` while the pool is being destroyed. -/
theorem pool_runs_all_tasks_two_workers :
    ∃ p : ThreadPool ℕ, run step (start 2)
        [.look 0, .look 1, .submit 7 none, .submit 8 none, .notifyOne (some 0), .look 0, .stop,
          .notifyAll, .submit 9 (some 0), .look 1, .finish 0, .look 0, .notifyOne none,
          .notifyOne none, .finish 1, .look 1, .finish 0, .look 0] = some p ∧
      p.finished.Perm [7, 8, 9] ∧ ∀ worker ∈ p.workers, worker = .returned := by
  have hrun : run step (start 2)
      [.look 0, .look 1, .submit 7 none, .submit 8 none, .notifyOne (some 0), .look 0, .stop,
        .notifyAll, .submit 9 (some 0), .look 1, .finish 0, .look 0, .notifyOne none,
        .notifyOne none, .finish 1, .look 1, .finish 0, .look 0]
      = some { workers := [.returned, .returned], stopping := true, notified := true,
               submitted := [7, 8, 9], started := [7, 8, 9], finished := [7, 8, 9] } := by
    decide +kernel
  obtain ⟨-, hfinished, hreturned⟩ :=
    (pool_runs_all_tasks 2 _ _ (by decide +kernel) hrun).2.2.2 (by decide)
  exact ⟨_, hrun, hfinished, hreturned rfl⟩

end Squid
