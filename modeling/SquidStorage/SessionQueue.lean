/-
The task queue of a `ConnectionSession` and the worker that serves it.

`call()` puts a task into `tasks_` and blocks until it has run; `post()` only puts
one there.  The worker empties the queue at the start of every round of `run()` and
then waits for a task or for a frame.  It looks at `alive_` and at the protocol once
a round and leaves for good when either has been cleared, by a task, a failed read,
`stop()` or `setIsAlive(false)`; what is in the queue by then is not looked at again,
and `call()` does not look at the worker.

* `ConnectionSession.step` — the worker and any number of other threads;
* `Attended` — every queued call is ahead of a drain;
* `Stranded.run` — a call that is queued behind the last drain stays there in
  every continuation;
* `no_caller_stranded` — no caller waits on a worker that has left, as long as the
  calls and the clearing of the flags are in time, and otherwise one does.
-/
import SquidStorage.Runs

namespace Squid

/-- An element of `tasks_`: that of a `call()`, by the thread that waits for it, or
that of a `post()`. -/
inductive QueuedTask where
  | call (caller : ℕ)
  | post
deriving DecidableEq, Repr

def QueuedTask.caller : QueuedTask → Option ℕ
  | call caller => some caller
  | post => none

/-- Where the worker stands in `ConnectionSession::run`. -/
inductive RunPoint where
  /-- at the condition of the loop -/
  | test
  /-- in `drainQueue`, about to take a task -/
  | drain
  /-- in `drainQueue`, running a task -/
  | running (task : QueuedTask)
  /-- behind `drainQueue`: on `queueCv_`, or at the socket test and `select` -/
  | idle
  /-- in `receiveAndParse` -/
  | reading
  /-- in `requestHandler_` -/
  | handling
  /-- behind the loop -/
  | leaving
  | terminated
deriving DecidableEq, Repr

/-- The caller whose task is running. -/
def RunPoint.caller : RunPoint → Option ℕ
  | running task => task.caller
  | _ => none

/-- From here the worker gets to `drainQueue` while `isAlive()` and the socket stay as
they are. -/
def RunPoint.willDrain (alive socket : Bool) : RunPoint → Bool
  | drain | running _ => true
  | test | reading | handling => alive
  | idle => alive && socket
  | leaving | terminated => false

theorem RunPoint.willDrain_mono {worker : RunPoint} {alive alive' socket socket' : Bool}
    (halive : alive' = true → alive = true) (hsocket : socket' = true → socket = true)
    (h : worker.willDrain alive' socket' = true) : worker.willDrain alive socket = true := by
  cases worker with
  | drain | running task => rfl
  | test | reading | handling => exact halive h
  | idle =>
    simp only [RunPoint.willDrain, Bool.and_eq_true] at h ⊢
    exact ⟨halive h.1, hsocket h.2⟩
  | leaving | terminated => exact h

/-- The steps that are left to a worker on its way out. -/
def RunPoint.remaining : RunPoint → ℕ
  | terminated => 0
  | leaving => 1
  | test => 2
  | idle | handling => 3
  | reading => 4
  | drain | running _ => 5

/-- What a task, a read, a handler or another thread brings down: `alive_`, the
protocol's own flag, the channel. -/
structure Cleared where
  alive : Bool := false
  protocol : Bool := false
  channel : Bool := false
deriving DecidableEq, Repr

/-- A session after `start`; `blocked` are the threads in `future.get()`. -/
structure ConnectionSession where
  readLoop : Bool
  alive : Bool := true
  protocolAlive : Bool := true
  socketOpen : Bool := true
  tasks : List QueuedTask := []
  worker : RunPoint := .test
  blocked : List ℕ := []
deriving DecidableEq, Repr

/-- What can happen next.  `clear` is done by another thread: `stop` clears `alive_`
and then closes the channel, `setIsAlive(false)` clears the two flags.  `advance` is
the worker's next step, where `ready` says that `select` finds a frame that is to be
read; `returned` ends the task, the read or the handler it is in. -/
inductive SessionEvent where
  | call (caller : ℕ)
  | post
  | clear (flags : Cleared)
  | advance (ready : Bool)
  | returned (flags : Cleared)
deriving DecidableEq, Repr

namespace ConnectionSession

def isAlive (s : ConnectionSession) : Bool := s.alive && s.protocolAlive

def clear (s : ConnectionSession) (flags : Cleared) : ConnectionSession :=
  { s with
    alive := s.alive && !flags.alive
    protocolAlive := s.protocolAlive && !flags.protocol
    socketOpen := s.socketOpen && !flags.channel }

def moveTo (s : ConnectionSession) (worker : RunPoint) : ConnectionSession :=
  { s with worker := worker }

/-- The worker's steps between two that take time. -/
def advance (s : ConnectionSession) (ready : Bool) : Option ConnectionSession :=
  match s.worker with
  | .test => some (s.moveTo (if s.isAlive then .drain else .leaving))
  | .drain =>
    match s.tasks with
    | [] => some (s.moveTo .idle)
    | task :: tasks => some { s with tasks := tasks, worker := .running task }
  | .idle =>
    if !s.readLoop then some (s.moveTo .test)
    else if !s.socketOpen then some (s.moveTo .leaving)
    else some (s.moveTo (if ready then .reading else .test))
  | .leaving => some { s with alive := false, worker := .terminated }
  | .running _ | .reading | .handling | .terminated => none

/-- The task, the read or the handler ends. -/
def returned (s : ConnectionSession) (flags : Cleared) : Option ConnectionSession :=
  match s.worker with
  | .running task =>
    -- the future of a `call()` is ready
    let blocked := task.caller.elim s.blocked s.blocked.erase
    some ({ s.clear flags with blocked := blocked, worker := .drain })
  | .reading =>
    let s := s.clear flags
    some (s.moveTo (if s.protocolAlive then .handling else .leaving))
  | .handling => some ((s.clear flags).moveTo .test)
  | .test | .drain | .idle | .leaving | .terminated => none

def step (s : ConnectionSession) : SessionEvent → Option ConnectionSession
  | .call caller =>
    -- a thread in `future.get()` makes no other call
    if caller ∈ s.blocked then none
    else some { s with tasks := s.tasks ++ [.call caller], blocked := s.blocked ++ [caller] }
  | .post => some { s with tasks := s.tasks ++ [.post] }
  | .clear flags => some (s.clear flags)
  | .advance ready => s.advance ready
  | .returned flags => s.returned flags

/-- The callers whose tasks are queued. -/
def callsQueued (s : ConnectionSession) : List ℕ := s.tasks.filterMap QueuedTask.caller

/-- The worker is in `drainQueue`, or gets there unless something is cleared first. -/
def willDrain (s : ConnectionSession) : Bool :=
  s.worker.willDrain s.isAlive (!s.readLoop || s.socketOpen)

/-- A call is made while the worker still gets to `drainQueue`, and what is cleared
leaves that so for the calls that are queued. -/
def InTime (s : ConnectionSession) : SessionEvent → Prop
  | .call _ => s.willDrain = true
  | .clear flags | .returned flags => s.callsQueued = [] ∨ (s.clear flags).willDrain = true
  | .post | .advance _ => True

instance (s : ConnectionSession) : DecidablePred s.InTime
  | .call _ => inferInstanceAs (Decidable (s.willDrain = true))
  | .clear flags | .returned flags =>
    inferInstanceAs (Decidable (s.callsQueued = [] ∨ (s.clear flags).willDrain = true))
  | .post | .advance _ => isTrue True.intro

/-! ### What is cleared stays cleared -/

theorem isAlive_of_clear {s : ConnectionSession} {flags : Cleared}
    (h : (s.clear flags).isAlive = true) : s.isAlive = true := by
  simp only [isAlive, clear, Bool.and_eq_true] at h ⊢
  exact ⟨h.1.1, h.2.1⟩

/-- Nothing that is cleared brings the worker back. -/
theorem willDrain_of_clear {s : ConnectionSession} {flags : Cleared}
    (h : (s.clear flags).willDrain = true) : s.willDrain = true := by
  refine RunPoint.willDrain_mono isAlive_of_clear ?_ h
  simp only [clear, Bool.or_eq_true, Bool.and_eq_true]
  rintro (hloop | ⟨hopen, -⟩)
  · exact Or.inl hloop
  · exact Or.inr hopen

/-! ### What the worker can do -/

/-- **The worker's own steps**: it takes a task, or moves without a task; a move keeps
what is to be drained, and only an empty queue ends the drain. -/
theorem advance_cases {s s' : ConnectionSession} {ready : Bool} (h : s.advance ready = some s') :
    (∃ task tasks, s.worker = .drain ∧ s.tasks = task :: tasks ∧
      s' = { s with tasks := tasks, worker := .running task }) ∨
    (s.worker.caller = none ∧ s'.worker.caller = none ∧ s'.blocked = s.blocked ∧
      s'.tasks = s.tasks ∧ (s'.willDrain = s.willDrain ∨ s.tasks = [])) := by
  rw [advance] at h
  cases hworker : s.worker with
  | test =>
    simp only [hworker, Option.some.injEq] at h
    subst h
    have hdrain : s.willDrain = s.isAlive := by
      rw [willDrain, hworker]
      rfl
    refine Or.inr ⟨rfl, ?_, rfl, rfl, Or.inl ?_⟩
    · split <;> rfl
    · rw [hdrain]
      cases halive : s.isAlive <;> rfl
  | drain =>
    simp only [hworker] at h
    cases htasks : s.tasks with
    | nil =>
      simp only [htasks, Option.some.injEq] at h
      subst h
      exact Or.inr ⟨rfl, rfl, rfl, htasks, Or.inr rfl⟩
    | cons task tasks =>
      simp only [htasks, Option.some.injEq] at h
      exact Or.inl ⟨task, tasks, rfl, rfl, h.symm⟩
  | idle =>
    have hdrain : s.willDrain = (s.isAlive && (!s.readLoop || s.socketOpen)) := by
      rw [willDrain, hworker]
      rfl
    simp only [hworker] at h
    refine Or.inr ⟨rfl, ?_⟩
    split at h
    · rename_i hloop
      obtain rfl := Option.some.inj h
      refine ⟨rfl, rfl, rfl, Or.inl ?_⟩
      rw [hdrain, hloop, Bool.true_or, Bool.and_true]
      rfl
    · rename_i hloop
      rw [Bool.not_eq_true] at hloop
      rw [hloop, Bool.false_or] at hdrain
      split at h
      · -- the channel has been closed
        rename_i hclosed
        obtain rfl := Option.some.inj h
        refine ⟨rfl, rfl, rfl, Or.inl ?_⟩
        rw [Bool.not_eq_true'] at hclosed
        rw [hdrain, hclosed, Bool.and_false]
        rfl
      · rename_i hopen
        rw [Bool.not_eq_true, Bool.not_eq_false'] at hopen
        rw [hopen, Bool.and_true] at hdrain
        obtain rfl := Option.some.inj h
        rw [hdrain]
        cases ready <;> exact ⟨rfl, rfl, rfl, Or.inl rfl⟩
  | leaving =>
    simp only [hworker, Option.some.injEq] at h
    subst h
    refine Or.inr ⟨rfl, rfl, rfl, rfl, Or.inl ?_⟩
    rw [willDrain, willDrain, hworker]
    rfl
  | running task | reading | handling | terminated => simp [hworker] at h

/-- **The end of a task, a read or a handler**: the caller of a task is released; a read
or a handler leaves the worker on its way to the next drain or out of the loop, as the
flags say. -/
theorem returned_cases {s s' : ConnectionSession} {flags : Cleared}
    (h : s.returned flags = some s') :
    (∃ task, s.worker = .running task ∧ s' = { s.clear flags with
      blocked := task.caller.elim s.blocked s.blocked.erase, worker := .drain }) ∨
    (s.worker.caller = none ∧ s'.worker.caller = none ∧ s'.blocked = s.blocked ∧
      s'.tasks = s.tasks ∧ s'.willDrain = (s.clear flags).willDrain) := by
  rw [returned] at h
  cases hworker : s.worker with
  | running task =>
    simp only [hworker, Option.some.injEq] at h
    exact Or.inl ⟨task, rfl, h.symm⟩
  | reading =>
    simp only [hworker, Option.some.injEq] at h
    subst h
    have hdrain : (s.clear flags).willDrain = (s.clear flags).isAlive := by
      have hclear : (s.clear flags).worker = .reading := hworker
      rw [willDrain, hclear]
      rfl
    refine Or.inr ⟨rfl, ?_, rfl, rfl, ?_⟩
    · split <;> rfl
    · rw [hdrain]
      split
      · rfl
      · rename_i hdead
        rw [Bool.not_eq_true] at hdead
        rw [isAlive, hdead, Bool.and_false]
        rfl
  | handling =>
    simp only [hworker, Option.some.injEq] at h
    subst h
    refine Or.inr ⟨rfl, rfl, rfl, rfl, ?_⟩
    have hclear : (s.clear flags).worker = .handling := hworker
    rw [willDrain, willDrain, hclear]
    rfl
  | test | drain | idle | leaving | terminated => simp [hworker] at h

/-! ### Calls ahead of a drain -/

/-- Every blocked thread waits for the running task or for a queued one, in the order
of the calls, and the queued ones will be taken. -/
structure Attended (s : ConnectionSession) : Prop where
  waiting : s.blocked = s.worker.caller.toList ++ s.callsQueued
  drained : s.callsQueued ≠ [] → s.willDrain = true

namespace Attended

variable {s s' : ConnectionSession}

theorem clear (h : Attended s) {flags : Cleared}
    (hflags : s.callsQueued = [] ∨ (s.clear flags).willDrain = true) :
    Attended (s.clear flags) := by
  refine ⟨h.waiting, fun hqueued => ?_⟩
  rcases hflags with hnone | hdrain
  · exact absurd hnone hqueued
  · exact hdrain

theorem call (h : Attended s) (hdrain : s.willDrain = true) (caller : ℕ) :
    Attended { s with tasks := s.tasks ++ [.call caller], blocked := s.blocked ++ [caller] } := by
  refine ⟨?_, fun _ => hdrain⟩
  show s.blocked ++ [caller] = s.worker.caller.toList ++ List.filterMap _ _
  rw [List.filterMap_append, h.waiting, List.append_assoc]
  rfl

theorem post (h : Attended s) : Attended { s with tasks := s.tasks ++ [.post] } := by
  have hqueued : ({ s with tasks := s.tasks ++ [.post] } : ConnectionSession).callsQueued
      = s.callsQueued := by
    show List.filterMap _ _ = _
    rw [List.filterMap_append]
    exact List.append_nil _
  refine ⟨?_, ?_⟩
  · rw [hqueued]
    exact h.waiting
  · rw [hqueued]
    exact h.drained

/-- The worker moves between two points at which it runs no task. -/
theorem move (h : Attended s) (hfrom : s.worker.caller = none) (hto : s'.worker.caller = none)
    (hblocked : s'.blocked = s.blocked) (htasks : s'.tasks = s.tasks)
    (hdrain : s.callsQueued ≠ [] → s'.willDrain = true) : Attended s' := by
  have hqueued : s'.callsQueued = s.callsQueued := by rw [callsQueued, htasks, callsQueued]
  refine ⟨?_, fun hcalls => hdrain (hqueued ▸ hcalls)⟩
  rw [hblocked, h.waiting, hfrom, hto, hqueued]

theorem advance (h : Attended s) {ready : Bool} (hstep : s.advance ready = some s') :
    Attended s' := by
  rcases advance_cases hstep with ⟨task, tasks, hworker, htasks, rfl⟩ |
    ⟨hfrom, hto, hblocked, htasks, hdrain⟩
  · refine ⟨?_, fun _ => rfl⟩
    show s.blocked = task.caller.toList ++ tasks.filterMap QueuedTask.caller
    rw [h.waiting, hworker, callsQueued, htasks, List.filterMap_cons]
    cases task.caller <;> rfl
  · refine h.move hfrom hto hblocked htasks fun hcalls => ?_
    rcases hdrain with hdrain | hempty
    · rw [hdrain]
      exact h.drained hcalls
    · rw [callsQueued, hempty] at hcalls
      exact absurd rfl hcalls

theorem returned (h : Attended s) {flags : Cleared}
    (hflags : s.callsQueued = [] ∨ (s.clear flags).willDrain = true)
    (hstep : s.returned flags = some s') : Attended s' := by
  rcases returned_cases hstep with ⟨task, hworker, rfl⟩ | ⟨hfrom, hto, hblocked, htasks, hdrain⟩
  · refine ⟨?_, fun _ => rfl⟩
    have hwaiting := h.waiting
    rw [hworker] at hwaiting
    show task.caller.elim s.blocked s.blocked.erase = s.callsQueued
    -- the first of the blocked threads is the one that is released
    cases task with
    | call caller =>
      show s.blocked.erase caller = s.callsQueued
      rw [hwaiting]
      show (caller :: s.callsQueued).erase caller = s.callsQueued
      rw [List.erase_cons_head]
    | post => exact hwaiting
  · refine h.move hfrom hto hblocked htasks fun hcalls => ?_
    rw [hdrain]
    exact (h.clear hflags).drained hcalls

/-- **One step**, of the worker or of another thread. -/
theorem step (h : Attended s) {event : SessionEvent} (htime : s.InTime event)
    (hstep : s.step event = some s') : Attended s' := by
  cases event with
  | call caller =>
    simp only [ConnectionSession.step] at hstep
    split at hstep
    · simp at hstep
    · obtain rfl := Option.some.inj hstep
      exact h.call htime caller
  | post =>
    obtain rfl := Option.some.inj hstep
    exact h.post
  | clear flags =>
    obtain rfl := Option.some.inj hstep
    exact h.clear htime
  | advance ready => exact h.advance hstep
  | returned flags => exact h.returned htime hstep

/-- Nobody waits on a worker that has left. -/
theorem terminated (h : Attended s) (hworker : s.worker = .terminated) :
    s.callsQueued = [] ∧ s.blocked = [] := by
  have hleft : s.willDrain = false := by
    rw [willDrain, hworker]
    rfl
  have hnone : s.callsQueued = [] := by
    by_contra hqueued
    exact absurd (h.drained hqueued) (by simp [hleft])
  refine ⟨hnone, ?_⟩
  rw [h.waiting, hnone, hworker]
  rfl

end Attended

/-! ### Calls behind the last drain -/

/-- The call of `caller` is queued, and the worker does not look at the queue again. -/
structure Stranded (caller : ℕ) (s : ConnectionSession) : Prop where
  queued : .call caller ∈ s.tasks
  left : s.willDrain = false

theorem mem_callsQueued {caller : ℕ} {s : ConnectionSession} :
    caller ∈ s.callsQueued ↔ .call caller ∈ s.tasks := by
  rw [callsQueued, List.mem_filterMap]
  constructor
  · rintro ⟨task, htask, hcaller⟩
    cases task with
    | call c =>
      obtain rfl := Option.some.inj hcaller
      exact htask
    | post => simp [QueuedTask.caller] at hcaller
  · intro htask
    exact ⟨_, htask, rfl⟩

namespace Stranded

variable {caller : ℕ} {s s' : ConnectionSession}

theorem clear (h : Stranded caller s) (flags : Cleared) : Stranded caller (s.clear flags) := by
  refine ⟨h.queued, ?_⟩
  by_contra hdrain
  rw [Bool.not_eq_false] at hdrain
  exact absurd (willDrain_of_clear hdrain) (by simp [h.left])

theorem not_draining (h : Stranded caller s) {worker : RunPoint} (hworker : s.worker = worker) :
    worker ≠ .drain ∧ ∀ task, worker ≠ .running task := by
  have hleft := h.left
  rw [willDrain, hworker] at hleft
  refine ⟨?_, fun task => ?_⟩
  · rintro rfl
    simp [RunPoint.willDrain] at hleft
  · rintro rfl
    simp [RunPoint.willDrain] at hleft

/-- **Whatever happens next**, the call stays where it is. -/
theorem step (h : Stranded caller s) {event : SessionEvent} (hstep : s.step event = some s') :
    Stranded caller s' := by
  cases event with
  | call other =>
    simp only [ConnectionSession.step] at hstep
    split at hstep
    · simp at hstep
    · obtain rfl := Option.some.inj hstep
      exact ⟨List.mem_append_left _ h.queued, h.left⟩
  | post =>
    obtain rfl := Option.some.inj hstep
    exact ⟨List.mem_append_left _ h.queued, h.left⟩
  | clear flags =>
    obtain rfl := Option.some.inj hstep
    exact h.clear flags
  | advance ready =>
    rcases advance_cases hstep with ⟨task, tasks, hworker, -, -⟩ | ⟨-, -, -, htasks, hdrain⟩
    · exact absurd rfl (h.not_draining hworker).1
    · rcases hdrain with hdrain | hempty
      · exact ⟨htasks ▸ h.queued, hdrain.trans h.left⟩
      · have hqueued := h.queued
        rw [hempty] at hqueued
        exact absurd hqueued List.not_mem_nil
  | returned flags =>
    rcases returned_cases hstep with ⟨task, hworker, -⟩ | ⟨-, -, -, htasks, hdrain⟩
    · exact absurd rfl ((h.not_draining hworker).2 task)
    · exact ⟨htasks ▸ h.queued, hdrain.trans (h.clear flags).left⟩

theorem run (h : Stranded caller s) {events : List SessionEvent}
    (hrun : Runs.run ConnectionSession.step s events = some s') : Stranded caller s' :=
  Runs.run_invariant (C := fun _ _ => True) (fun _ _ _ h _ hstep => h.step hstep) h
    (Runs.Meets.trivial s events) hrun

/-- The worker comes closer to its end. -/
theorem progress (h : Stranded caller s) (hworker : s.worker ≠ .terminated) :
    ∃ event s', s.step event = some s' ∧ s'.worker.remaining < s.worker.remaining := by
  have hleft := h.left
  rw [willDrain] at hleft
  cases hpoint : s.worker with
  | test =>
    rw [hpoint] at hleft
    refine ⟨.advance false, s.moveTo .leaving, ?_, Nat.lt_succ_self 1⟩
    have hdead : s.isAlive = false := hleft
    simp [ConnectionSession.step, ConnectionSession.advance, hpoint, hdead]
  | idle =>
    cases hloop : s.readLoop with
    | false =>
      refine ⟨.advance false, s.moveTo .test, ?_, Nat.lt_succ_self 2⟩
      simp [ConnectionSession.step, ConnectionSession.advance, hpoint, hloop]
    | true =>
      cases hopen : s.socketOpen with
      | false =>
        refine ⟨.advance false, s.moveTo .leaving, ?_, Nat.lt_of_sub_eq_succ rfl⟩
        simp [ConnectionSession.step, ConnectionSession.advance, hpoint, hloop, hopen]
      | true =>
        refine ⟨.advance false, s.moveTo .test, ?_, Nat.lt_succ_self 2⟩
        simp [ConnectionSession.step, ConnectionSession.advance, hpoint, hloop, hopen]
  | reading =>
    cases hproto : s.protocolAlive with
    | false =>
      refine ⟨.returned {}, (s.clear {}).moveTo .leaving, ?_, Nat.lt_of_sub_eq_succ rfl⟩
      simp [ConnectionSession.step, ConnectionSession.returned, hpoint, hproto,
        ConnectionSession.clear]
    | true =>
      refine ⟨.returned {}, (s.clear {}).moveTo .handling, ?_, Nat.lt_succ_self 3⟩
      simp [ConnectionSession.step, ConnectionSession.returned, hpoint, hproto,
        ConnectionSession.clear]
  | handling =>
    refine ⟨.returned {}, (s.clear {}).moveTo .test, ?_, Nat.lt_succ_self 2⟩
    simp [ConnectionSession.step, ConnectionSession.returned, hpoint]
  | leaving =>
    refine ⟨.advance false, { s with alive := false, worker := .terminated }, ?_,
      Nat.lt_succ_self 0⟩
    simp [ConnectionSession.step, ConnectionSession.advance, hpoint]
  | drain => exact absurd rfl (h.not_draining hpoint).1
  | running task => exact absurd rfl ((h.not_draining hpoint).2 task)
  | terminated => exact absurd hpoint hworker

/-- The worker ends, with the call in the queue. -/
theorem terminates (h : Stranded caller s) :
    ∃ events s', Runs.run ConnectionSession.step s events = some s' ∧
      s'.worker = .terminated ∧ caller ∈ s'.callsQueued := by
  induction hn : s.worker.remaining using Nat.strongRecOn generalizing s with
  | _ n ih =>
    by_cases hworker : s.worker = .terminated
    · exact ⟨[], s, rfl, hworker, mem_callsQueued.mpr h.queued⟩
    · obtain ⟨event, t, hstep, hlt⟩ := h.progress hworker
      obtain ⟨events, s', hrun, hend⟩ := ih _ (hn ▸ hlt) (h.step hstep) rfl
      refine ⟨event :: events, s', ?_, hend⟩
      rw [Runs.run, hstep]
      exact hrun

end Stranded

/-- **A step out of time** strands a caller. -/
theorem stranded_of_late {s s' : ConnectionSession} {event : SessionEvent}
    (hlate : ¬ s.InTime event) (hstep : s.step event = some s') : ∃ caller, Stranded caller s' := by
  cases event with
  | call caller =>
    have hleft : s.willDrain = false := (Bool.not_eq_true _).mp hlate
    simp only [step] at hstep
    split at hstep
    · simp at hstep
    · obtain rfl := Option.some.inj hstep
      exact ⟨caller, List.mem_append_right _ (List.mem_singleton.mpr rfl), hleft⟩
  | post | advance ready => exact absurd True.intro hlate
  | clear flags =>
    obtain ⟨hqueued, hleft⟩ := not_or.mp hlate
    obtain ⟨caller, hcaller⟩ := List.exists_mem_of_ne_nil _ hqueued
    obtain rfl := Option.some.inj hstep
    exact ⟨caller, mem_callsQueued.mp hcaller, (Bool.not_eq_true _).mp hleft⟩
  | returned flags =>
    obtain ⟨hqueued, hleft⟩ := not_or.mp hlate
    obtain ⟨caller, hcaller⟩ := List.exists_mem_of_ne_nil _ hqueued
    rcases returned_cases hstep with ⟨task, hworker, -⟩ | ⟨-, -, -, htasks, hdrain⟩
    · -- a task that ends is in the middle of a drain
      refine absurd ?_ hleft
      have hclear : (s.clear flags).worker = .running task := hworker
      rw [willDrain, hclear]
      rfl
    · rw [(Bool.not_eq_true _).mp hleft] at hdrain
      exact ⟨caller, htasks ▸ mem_callsQueued.mp hcaller, hdrain⟩

end ConnectionSession

open ConnectionSession in
/-- **No caller waits on a dead worker**, in every run whose calls are made while the
worker still gets to `drainQueue` and whose flags are cleared only so that it does, if
calls are queued.  From any state of such a run a step out of time leaves a call in
the queue for good: no continuation takes it out, and one ends the worker. -/
theorem no_caller_stranded (readLoop : Bool) (events : List SessionEvent)
    (hmeets : Runs.Meets step InTime { readLoop := readLoop } events) (s : ConnectionSession)
    (hrun : Runs.run step { readLoop := readLoop } events = some s) :
    (s.worker = .terminated → s.callsQueued = [] ∧ s.blocked = []) ∧
      ∀ event s', s.step event = some s' → ¬ s.InTime event → ∃ caller,
        (∀ more t, Runs.run step s' more = some t → caller ∈ t.callsQueued) ∧
        ∃ more t, Runs.run step s' more = some t ∧ t.worker = .terminated ∧
          caller ∈ t.callsQueued := by
  have hattended : Attended s := by
    refine Runs.run_invariant ?_ ⟨rfl, fun h => absurd rfl h⟩ hmeets hrun
    intro s event s' hattended htime hstep
    exact hattended.step htime hstep
  refine ⟨hattended.terminated, fun event s' hstep hlate => ?_⟩
  obtain ⟨caller, hstranded⟩ := stranded_of_late hlate hstep
  refine ⟨caller, fun more t hmore => ?_, hstranded.terminates⟩
  exact mem_callsQueued.mpr (hstranded.run hmore).queued

/-- A call is queued and run, another one brings the connection down while it runs; the
worker leaves with the queue empty. -/
theorem no_caller_stranded_two_calls :
    let events : List SessionEvent := [.call 0, .advance false, .advance false, .call 1,
      .returned {}, .advance false, .returned { protocol := true }, .advance false,
      .advance false, .advance false, .advance false]
    Runs.Meets ConnectionSession.step ConnectionSession.InTime { readLoop := true } events ∧
      ∃ s, Runs.run ConnectionSession.step { readLoop := true } events = some s ∧
        s.worker = .terminated ∧ s.blocked = [] := by
  intro events
  have hmeets : Runs.Meets ConnectionSession.step ConnectionSession.InTime { readLoop := true }
      events := by decide
  have hworker : ((Runs.run ConnectionSession.step { readLoop := true } events).map
      fun s => s.worker) = some .terminated := by decide
  obtain ⟨s, hrun, hend⟩ := Option.map_eq_some_iff.mp hworker
  exact ⟨hmeets, s, hrun, hend, ((no_caller_stranded true events hmeets s hrun).1 hend).2⟩

/-- A task brings the connection down, the worker finds the queue empty and leaves; then
a thread makes a call, as the next heartbeat does. -/
theorem call_after_worker_left :
    let died : List SessionEvent := [.call 0, .advance false, .advance false,
      .returned { protocol := true }, .advance false, .advance false, .advance false,
      .advance false]
    Runs.run ConnectionSession.step { readLoop := true } (died ++ [.call 1])
      = some { readLoop := true, alive := false, protocolAlive := false, tasks := [.call 1],
               worker := .terminated, blocked := [1] } := by
  decide

end Squid
