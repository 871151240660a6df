/-
A cluster of one configured primary and its standbys.

Every server runs `main`: the first one of the configuration starts a `Server`,
every other one a `ReplicaWatcher`, whose loop looks for a server to follow,
receives its frames, probes the servers of higher priority and promotes.  The
network is fault-free: a connection attempt succeeds exactly when the process
at the other end is running a `Server` at that moment.  `Cluster.step` is one
connection attempt, one frame, or one statement of `promote()`; a process may
crash between any two of them and be started again.

* `single_leader_per_epoch` — no two nodes promote with the same epoch as long
  as a node that takes a new epoch has observed those that others have taken;
  without that condition it holds of all runs exactly when there is at most
  one standby;
* `two_leaders_of_epoch_one` — both standbys of a crashed primary promote with
  epoch 1.
-/
import SquidStorage.ReplicaWatcher
import SquidStorage.Runs
import Mathlib.Data.List.TakeWhile

open BigEndian Runs

namespace Squid

/-! ### Configuration -/

/-- The names of the servers, highest priority first, and the two numbers of
attempts that the watcher reads (a negative one is as good as `0`). -/
structure ClusterConfig where
  servers : List Bytes
  reconnectAttempts : ℕ := 3
  promotionProbeAttempts : ℕ := 3

namespace ClusterConfig

variable (config : ClusterConfig)

def higherPriorityThan (name : Bytes) : List Bytes := config.servers.takeWhile (· ≠ name)

def isPrimary (name : Bytes) : Bool := config.servers.head? = some name

/-- A server that runs a `ReplicaWatcher`. -/
def IsStandby (name : Bytes) : Prop := name ∈ config.servers ∧ config.isPrimary name = false

end ClusterConfig

/-! ### Processes -/

/-- Where the watcher thread is. -/
inductive Pc where
  /-- looking for a server to follow -/
  | scan (todo : List Bytes)
  /-- `tryConnect` to the server found, and the handshake -/
  | connect (target : Bytes) (left : ℕ)
  /-- `receiveLoop`: whether the other end is still there, and the frames on
  their way -/
  | receive (target : Bytes) (live : Bool) (queue : List Message)
  /-- `allHigherPriorityDown`: the attempts left for each server, and whether
  some server has been reached -/
  | probe (left : Bytes → ℕ) (reachable : Bool)
  /-- `promote()` is called -/
  | promote
  | raised (newEpoch : UInt32)
  | saved (newEpoch : UInt32)
  /-- `Role::ACTIVE`, the `Server` not listening yet -/
  | active (newEpoch : UInt32)
  | serving (newEpoch : UInt32)

inductive Process where
  | down
  | primary (epoch : UInt32)
  | standby (watcher : Watcher) (pc : Pc)

namespace Process

/-- The epoch of the `Server` that the process is running, if it is. -/
def listening : Process → Option UInt32
  | .primary epoch => some epoch
  | .standby _ (.serving epoch) => some epoch
  | _ => none

/-- The epoch of a `promote()` that has been chosen and not yet published. -/
def pending : Process → Option UInt32
  | .standby _ (.raised newEpoch) => some newEpoch
  | .standby _ (.saved newEpoch) => some newEpoch
  | _ => none

/-- The highest epoch the watcher of the process has seen. -/
def observedEpoch : Process → Option UInt32
  | .standby w _ => some w.observedEpoch
  | .down | .primary _ => none

def isStandby : Process → Bool
  | .standby _ _ => true
  | .down | .primary _ => false

/-- The process at the other end of a connection is gone. -/
def peerGone (name : Bytes) : Process → Process
  | .standby w (.receive target live queue) =>
    .standby w (.receive target (live && target ≠ name) queue)
  | p => p

end Process

structure Node where
  epochFile : Option Bytes
  process : Process

/-- The nodes, and the epochs that nodes have taken in `promote()` and have
become active with, the latest first. -/
structure Cluster where
  nodes : Bytes → Node
  taken : List (Bytes × UInt32) := []
  promoted : List (Bytes × UInt32) := []

/-! ### Steps -/

/-- The steps of `watchLoop` up to the call of `promote()`. -/
inductive WatchStep where
  | scan
  | connect
  | deliver
  /-- the heartbeat deadline passes -/
  | timeout
  | disconnect
  /-- one connection attempt of `allHigherPriorityDown` -/
  | probe (server : Bytes)
  /-- all attempts have been made -/
  | conclude
deriving DecidableEq

/-- One step of the watcher `name`, where `up` tells which servers listen. -/
def Pc.next (config : ClusterConfig) (up : Bytes → Bool) (name : Bytes) (w : Watcher) :
    WatchStep → Pc → Option (Watcher × Pc)
  | .scan, .scan [] => some (w, .probe (fun _ => config.promotionProbeAttempts) false)
  | .scan, .scan (server :: todo) =>
    some (w, if up server then .connect server config.reconnectAttempts else .scan todo)
  | .connect, .connect target left =>
    match left with
    | 0 => some (w, .scan (config.higherPriorityThan name))
    | left + 1 => some (w, if up target then .receive target true [] else .connect target left)
  | .deliver, .receive target live (msg :: queue) =>
    some (w.handleFrame msg, .receive target live queue)
  | .timeout, .receive _ _ _ =>
    some (w, .probe (fun _ => config.promotionProbeAttempts) false)
  | .disconnect, .receive _ false [] => some (w, .scan (config.higherPriorityThan name))
  | .probe server, .probe left reachable =>
    if server ∉ config.higherPriorityThan name ∨ left server = 0 then none
    else if up server then some (w, .probe (Function.update left server 0) true)
    else some (w, .probe (Function.update left server (left server - 1)) reachable)
  | .conclude, .probe left reachable =>
    if (config.higherPriorityThan name).all (fun server => left server = 0) then
      some (w, if reachable then .scan (config.higherPriorityThan name) else .promote)
    else none
  | _, _ => none

inductive ClusterEvent where
  /-- `main` is started -/
  | start (name : Bytes)
  | crash (name : Bytes)
  /-- a server sends a frame to a standby that follows it -/
  | send (leader name : Bytes) (msg : Message)
  | watch (name : Bytes) (step : WatchStep)
  /-- the statements of `promote()` -/
  | raiseEpoch (name : Bytes)
  | saveEpoch (name : Bytes)
  | becomeActive (name : Bytes)
  /-- the `Server` of the promotion callback listens -/
  | listen (name : Bytes)

namespace Cluster

/-- All processes down. -/
def start (epochFiles : Bytes → Option Bytes) : Cluster :=
  { nodes := fun name => { epochFile := epochFiles name, process := .down } }

def listening (c : Cluster) (name : Bytes) : Option UInt32 := (c.nodes name).process.listening

def setNode (c : Cluster) (name : Bytes) (node : Node) : Cluster :=
  { c with nodes := Function.update c.nodes name node }

def setProcess (c : Cluster) (name : Bytes) (process : Process) : Cluster :=
  c.setNode name { c.nodes name with process := process }

def step (config : ClusterConfig) (c : Cluster) : ClusterEvent → Option Cluster
  | .start name =>
    match (c.nodes name).process with
    | .down =>
      let file := (c.nodes name).epochFile
      if name ∉ config.servers then none
      else if config.isPrimary name then some (c.setProcess name (.primary (EpochStore.load file)))
      else some (c.setProcess name
        (.standby (Watcher.start file) (.scan (config.higherPriorityThan name))))
    | _ => none
  | .crash name =>
    let others : Cluster := { c with nodes := fun m =>
      { c.nodes m with process := (c.nodes m).process.peerGone name } }
    some (others.setProcess name .down)
  | .send leader name msg =>
    match (c.nodes name).process with
    | .standby w (.receive target true queue) =>
      if target = leader ∧ c.listening leader = some msg.epoch ∧ Watcher.fromLeader msg then
        some (c.setProcess name (.standby w (.receive target true (queue ++ [msg]))))
      else none
    | _ => none
  | .watch name watchStep =>
    match (c.nodes name).process with
    | .standby w pc =>
      (pc.next config (fun s => (c.listening s).isSome) name w watchStep).map fun next =>
        c.setProcess name (.standby next.1 next.2)
    | _ => none
  | .raiseEpoch name =>
    match (c.nodes name).process with
    | .standby w .promote =>
      let newEpoch := w.observedEpoch + 1
      let w := { w with observedEpoch := newEpoch }
      some { c.setProcess name (.standby w (.raised newEpoch)) with
        taken := (name, newEpoch) :: c.taken }
    | _ => none
  | .saveEpoch name =>
    match (c.nodes name).process with
    | .standby w (.raised newEpoch) =>
      let file := EpochStore.save newEpoch
      some (c.setNode name { epochFile := file, process := .standby w (.saved newEpoch) })
    | _ => none
  | .becomeActive name =>
    match (c.nodes name).process with
    | .standby w (.saved newEpoch) =>
      some { c.setProcess name (.standby w (.active newEpoch)) with
        promoted := (name, newEpoch) :: c.promoted }
    | _ => none
  | .listen name =>
    match (c.nodes name).process with
    | .standby w (.active newEpoch) =>
      some (c.setProcess name (.standby w (.serving newEpoch)))
    | _ => none

/-- No two distinct nodes have promoted with the same epoch. -/
def SingleLeader (c : Cluster) : Prop :=
  ∀ n m epoch, (n, epoch) ∈ c.promoted → (m, epoch) ∈ c.promoted → n = m

/-- The condition on a step: a node that takes a new epoch has observed an epoch
as high as every one that another node has taken, and there is one above. -/
def HasObserved (c : Cluster) : ClusterEvent → Prop
  | .raiseEpoch name => ∀ observed ∈ (c.nodes name).process.observedEpoch,
    ∀ x ∈ c.taken, x.1 ≠ name → x.2 ≤ observed ∧ observed ≠ 0xFFFFFFFF
  | _ => True

instance (c : Cluster) : (event : ClusterEvent) → Decidable (c.HasObserved event)
  | .raiseEpoch _ => Option.decidableForallMem _
  | .start _ | .crash _ | .send _ _ _ | .watch _ _ | .saveEpoch _ | .becomeActive _ | .listen _ =>
    isTrue True.intro

/-! ### What a step can do -/

variable {config : ClusterConfig} {c t : Cluster}

/-- A step that takes no epoch and publishes none. -/
structure Quiet (config : ClusterConfig) (c t : Cluster) : Prop where
  taken : t.taken = c.taken
  promoted : t.promoted = c.promoted
  pending : ∀ n epoch, (t.nodes n).process.pending = some epoch →
    (c.nodes n).process.pending = some epoch
  standby : ∀ n, (t.nodes n).process.isStandby = true →
    (c.nodes n).process.isStandby = true ∨ config.IsStandby n

theorem nodes_setNode_self (c : Cluster) (name : Bytes) (node : Node) :
    (c.setNode name node).nodes name = node :=
  Function.update_self _ _ _

theorem nodes_setNode_of_ne (c : Cluster) {n name : Bytes} (h : n ≠ name) (node : Node) :
    (c.setNode name node).nodes n = c.nodes n :=
  Function.update_of_ne h _ _

/-- One node changes. -/
theorem Quiet.setNode {name : Bytes} {node : Node}
    (hpending : ∀ epoch, node.process.pending = some epoch →
      (c.nodes name).process.pending = some epoch)
    (hstandby : node.process.isStandby = true →
      (c.nodes name).process.isStandby = true ∨ config.IsStandby name) :
    Quiet config c (c.setNode name node) := by
  refine ⟨rfl, rfl, fun n epoch h => ?_, fun n h => ?_⟩
  · by_cases hn : n = name
    · subst hn
      rw [nodes_setNode_self] at h
      exact hpending epoch h
    · rwa [nodes_setNode_of_ne c hn] at h
  · by_cases hn : n = name
    · subst hn
      rw [nodes_setNode_self] at h
      exact hstandby h
    · rw [nodes_setNode_of_ne c hn] at h
      exact Or.inl h

theorem Quiet.trans {u : Cluster} (h : Quiet config c t) (h' : Quiet config t u) :
    Quiet config c u where
  taken := h'.taken.trans h.taken
  promoted := h'.promoted.trans h.promoted
  pending n epoch hn := h.pending n epoch (h'.pending n epoch hn)
  standby n hn := (h'.standby n hn).elim (h.standby n) Or.inr

/-- The loop up to `promote()` chooses no epoch. -/
theorem pending_next {up : Bytes → Bool} {name : Bytes} {w w' : Watcher} {s : WatchStep}
    {pc pc' : Pc} (h : pc.next config up name w s = some (w', pc')) :
    (Process.standby w' pc').pending = none := by
  revert h
  fun_cases Pc.next config up name w s pc
  case case8 | case12 | case13 => simp
  all_goals
    intro h
    obtain ⟨rfl, rfl⟩ := Prod.mk.inj (Option.some.inj h)
  case case2 | case4 | case11 => split <;> rfl
  all_goals rfl

theorem quiet_watch {name : Bytes} {s : WatchStep}
    (h : c.step config (.watch name s) = some t) : Quiet config c t := by
  simp only [step] at h
  split at h
  · -- the node stays a standby, and `next` never gets past `promote`
    rename_i w pc hproc
    obtain ⟨⟨w', pc'⟩, hnext, rfl⟩ := Option.map_eq_some_iff.mp h
    refine Quiet.setNode (fun epoch hp => ?_) fun _ => Or.inl (by rw [hproc]; rfl)
    rw [pending_next hnext] at hp
    simp at hp
  · simp at h

theorem quiet_crash {name : Bytes} (h : c.step config (.crash name) = some t) :
    Quiet config c t := by
  obtain rfl := Option.some.inj h
  refine Quiet.trans (t := { c with nodes := fun m =>
    { c.nodes m with process := (c.nodes m).process.peerGone name } }) ?_
    (Quiet.setNode (fun epoch hp => by simp [Process.pending] at hp)
      fun hs => by simp [Process.isStandby] at hs)
  -- a lost connection is neither a promotion nor a new standby
  refine ⟨rfl, rfl, fun n epoch hp => ?_, fun n hs => Or.inl ?_⟩
  · dsimp only at hp
    generalize (c.nodes n).process = p at hp ⊢
    unfold Process.peerGone at hp
    split at hp
    · simp [Process.pending] at hp
    · exact hp
  · dsimp only at hs
    generalize (c.nodes n).process = p at hs ⊢
    unfold Process.peerGone at hs
    split at hs
    · rfl
    · exact hs

theorem quiet_start {name : Bytes} (h : c.step config (.start name) = some t) :
    Quiet config c t := by
  simp only [step] at h
  split at h
  · split at h
    · simp at h
    · rename_i hmem
      split at h
      · obtain rfl := Option.some.inj h
        exact Quiet.setNode (fun epoch hp => by simp [Process.pending] at hp)
          fun hs => by simp [Process.isStandby] at hs
      · rename_i hprimary
        obtain rfl := Option.some.inj h
        exact Quiet.setNode (fun epoch hp => by simp [Process.pending] at hp)
          fun _ => Or.inr ⟨not_not.mp hmem, by simpa using hprimary⟩
  · simp at h

theorem quiet_send {leader name : Bytes} {msg : Message}
    (h : c.step config (.send leader name msg) = some t) : Quiet config c t := by
  simp only [step] at h
  split at h
  · rename_i w target queue hproc
    split at h
    · obtain rfl := Option.some.inj h
      exact Quiet.setNode (fun epoch hp => by simp [Process.pending] at hp)
        fun _ => Or.inl (by rw [hproc]; rfl)
    · simp at h
  · simp at h

theorem quiet_saveEpoch {name : Bytes} (h : c.step config (.saveEpoch name) = some t) :
    Quiet config c t := by
  simp only [step] at h
  split at h
  · rename_i w newEpoch hproc
    obtain rfl := Option.some.inj h
    refine Quiet.setNode (fun epoch hp => ?_) fun _ => Or.inl (by rw [hproc]; rfl)
    rw [hproc]
    exact hp
  · simp at h

theorem quiet_listen {name : Bytes} (h : c.step config (.listen name) = some t) :
    Quiet config c t := by
  simp only [step] at h
  split at h
  · rename_i w newEpoch hproc
    obtain rfl := Option.some.inj h
    exact Quiet.setNode (fun epoch hp => by simp [Process.pending] at hp)
      fun _ => Or.inl (by rw [hproc]; rfl)
  · simp at h

/-- **Every step** is quiet, takes an epoch, or publishes one. -/
theorem quiet_step {event : ClusterEvent} (hraise : ∀ name, event ≠ .raiseEpoch name)
    (hactive : ∀ name, event ≠ .becomeActive name) (h : c.step config event = some t) :
    Quiet config c t := by
  cases event with
  | start name => exact quiet_start h
  | crash name => exact quiet_crash h
  | send leader name msg => exact quiet_send h
  | watch name s => exact quiet_watch h
  | raiseEpoch name => exact absurd rfl (hraise name)
  | saveEpoch name => exact quiet_saveEpoch h
  | becomeActive name => exact absurd rfl (hactive name)
  | listen name => exact quiet_listen h

theorem step_raiseEpoch {name : Bytes} (h : c.step config (.raiseEpoch name) = some t) :
    ∃ w w', (c.nodes name).process = .standby w .promote ∧
      t = { c.setProcess name (.standby w' (.raised (w.observedEpoch + 1))) with
        taken := (name, w.observedEpoch + 1) :: c.taken } := by
  simp only [step] at h
  split at h
  · rename_i w hproc
    exact ⟨w, _, hproc, (Option.some.inj h).symm⟩
  · simp at h

theorem step_becomeActive {name : Bytes} (h : c.step config (.becomeActive name) = some t) :
    ∃ w newEpoch, (c.nodes name).process = .standby w (.saved newEpoch) ∧
      t = { c.setProcess name (.standby w (.active newEpoch)) with
        promoted := (name, newEpoch) :: c.promoted } := by
  simp only [step] at h
  split at h
  · rename_i w newEpoch hproc
    exact ⟨w, newEpoch, hproc, (Option.some.inj h).symm⟩
  · simp at h

/-! ### Invariants -/

/-- Whatever is published has been taken, and only standbys take epochs. -/
structure Inv (config : ClusterConfig) (c : Cluster) : Prop where
  promoted : ∀ x ∈ c.promoted, x ∈ c.taken
  pending : ∀ n epoch, (c.nodes n).process.pending = some epoch → (n, epoch) ∈ c.taken
  standby : ∀ n, (c.nodes n).process.isStandby = true → config.IsStandby n
  taken : ∀ x ∈ c.taken, config.IsStandby x.1

theorem inv_start (epochFiles : Bytes → Option Bytes) : Inv config (start epochFiles) where
  promoted x hx := by simp [start] at hx
  pending n epoch h := by simp [start, Process.pending] at h
  standby n h := by simp [start, Process.isStandby] at h
  taken x hx := by simp [start] at hx

theorem Inv.quiet (h : Inv config c) (hq : Quiet config c t) : Inv config t where
  promoted x hx := by
    rw [hq.taken]
    exact h.promoted x (hq.promoted ▸ hx)
  pending n epoch hn := by
    rw [hq.taken]
    exact h.pending n epoch (hq.pending n epoch hn)
  standby n hn := (hq.standby n hn).elim (h.standby n) id
  taken x hx := h.taken x (hq.taken ▸ hx)

theorem inv_raiseEpoch {name : Bytes} (h : Inv config c)
    (hstep : c.step config (.raiseEpoch name) = some t) : Inv config t := by
  obtain ⟨w, w', hproc, rfl⟩ := step_raiseEpoch hstep
  have hname : config.IsStandby name := h.standby name (by rw [hproc]; rfl)
  refine ⟨fun x hx => List.mem_cons_of_mem _ (h.promoted x hx), fun n epoch hn => ?_,
    fun n hn => ?_, fun x hx => ?_⟩
  · by_cases hne : n = name
    · subst hne
      dsimp only [setProcess] at hn
      rw [nodes_setNode_self] at hn
      obtain rfl := Option.some.inj hn
      exact List.mem_cons_self
    · dsimp only [setProcess] at hn
      rw [nodes_setNode_of_ne c hne] at hn
      exact List.mem_cons_of_mem _ (h.pending n epoch hn)
  · by_cases hne : n = name
    · exact hne ▸ hname
    · dsimp only [setProcess] at hn
      rw [nodes_setNode_of_ne c hne] at hn
      exact h.standby n hn
  · rcases List.mem_cons.mp hx with rfl | hold
    · exact hname
    · exact h.taken x hold

theorem inv_becomeActive {name : Bytes} (h : Inv config c)
    (hstep : c.step config (.becomeActive name) = some t) : Inv config t := by
  obtain ⟨w, newEpoch, hproc, rfl⟩ := step_becomeActive hstep
  have hquiet : Quiet config c (c.setProcess name (.standby w (.active newEpoch))) :=
    Quiet.setNode (fun epoch hp => by simp [Process.pending] at hp)
      fun _ => Or.inl (by rw [hproc]; rfl)
  have hrest := h.quiet hquiet
  refine ⟨fun x hx => ?_, hrest.pending, hrest.standby, hrest.taken⟩
  -- what is published was pending, and so has been taken
  rcases List.mem_cons.mp hx with rfl | hold
  · exact h.pending name newEpoch (by rw [hproc]; rfl)
  · exact h.promoted x hold

theorem inv_step {event : ClusterEvent} (h : Inv config c)
    (hstep : c.step config event = some t) : Inv config t := by
  by_cases hraise : ∃ name, event = .raiseEpoch name
  · obtain ⟨name, rfl⟩ := hraise
    exact inv_raiseEpoch h hstep
  by_cases hactive : ∃ name, event = .becomeActive name
  · obtain ⟨name, rfl⟩ := hactive
    exact inv_becomeActive h hstep
  · push Not at hraise hactive
    exact h.quiet (quiet_step hraise hactive hstep)

/-- No epoch has been taken by two nodes. -/
def DistinctTaken (c : Cluster) : Prop :=
  ∀ n m epoch, (n, epoch) ∈ c.taken → (m, epoch) ∈ c.taken → n = m

theorem distinctTaken_step {event : ClusterEvent} (h : c.DistinctTaken)
    (hobserved : c.HasObserved event) (hstep : c.step config event = some t) :
    t.DistinctTaken := by
  by_cases hraise : ∃ name, event = .raiseEpoch name
  · obtain ⟨name, rfl⟩ := hraise
    obtain ⟨w, w', hproc, rfl⟩ := step_raiseEpoch hstep
    -- the new epoch is above every epoch of another node
    have hnew : ∀ m, (m, w.observedEpoch + 1) ∈ c.taken → m = name := by
      intro m hm
      by_contra hne
      obtain ⟨hle, hmax⟩ := hobserved w.observedEpoch (by rw [hproc]; rfl) _ hm hne
      grind
    intro n m epoch hn hm
    rcases List.mem_cons.mp hn with heq | hnold
    · obtain ⟨rfl, rfl⟩ := Prod.mk.inj heq
      rcases List.mem_cons.mp hm with heq' | hmold
      · exact (Prod.mk.inj heq').1.symm
      · exact (hnew m hmold).symm
    · rcases List.mem_cons.mp hm with heq' | hmold
      · obtain ⟨rfl, rfl⟩ := Prod.mk.inj heq'
        exact hnew n hnold
      · exact h n m epoch hnold hmold
  by_cases hactive : ∃ name, event = .becomeActive name
  · obtain ⟨name, rfl⟩ := hactive
    obtain ⟨w, newEpoch, -, rfl⟩ := step_becomeActive hstep
    exact h
  · push Not at hraise hactive
    have hquiet := quiet_step hraise hactive hstep
    intro n m epoch hn hm
    rw [hquiet.taken] at hn hm
    exact h n m epoch hn hm

theorem Inv.singleLeader (h : Inv config c) (hd : c.DistinctTaken) : c.SingleLeader :=
  fun n m epoch hn hm => hd n m epoch (h.promoted _ hn) (h.promoted _ hm)

/-! ### A standby that promotes on its own -/

theorem mem_higherPriorityThan_ne {name s : Bytes} (h : s ∈ config.higherPriorityThan name) :
    s ≠ name := by
  simpa using List.mem_takeWhile_imp h

theorem setNode_setNode (c : Cluster) (name : Bytes) (node node' : Node) :
    (c.setNode name node).setNode name node' = c.setNode name node' := by
  simp [Cluster.setNode]

theorem setProcess_setProcess (c : Cluster) (name : Bytes) (p p' : Process) :
    (c.setProcess name p).setProcess name p' = c.setProcess name p' := by
  rw [setProcess, setProcess, setProcess, setNode_setNode, nodes_setNode_self]

/-- A step of the watcher, from where it is. -/
theorem step_watch {name : Bytes} {w w' : Watcher} {pc pc' : Pc} {s : WatchStep}
    (h : pc.next config (fun s => ((c.setProcess name (.standby w pc)).listening s).isSome) name w s
      = some (w', pc')) :
    (c.setProcess name (.standby w pc)).step config (.watch name s)
      = some (c.setProcess name (.standby w' pc')) := by
  have hproc : ((c.setProcess name (.standby w pc)).nodes name).process = .standby w pc := by
    rw [setProcess, nodes_setNode_self]
  simp only [step, hproc, h, Option.map_some, setProcess_setProcess]

theorem listening_setProcess {name s : Bytes} (hne : s ≠ name) (p : Process) :
    (c.setProcess name p).listening s = c.listening s := by
  rw [listening, setProcess, nodes_setNode_of_ne c hne]
  rfl

section Alone

variable {name : Bytes} {w : Watcher}

/-- It finds nobody to follow. -/
theorem reaches_scan {todo : List Bytes}
    (h : ∀ s ∈ todo, s ≠ name ∧ c.listening s = none) :
    Reaches (step config) (c.setProcess name (.standby w (.scan todo)))
      (c.setProcess name (.standby w (.scan []))) := by
  induction todo with
  | nil => exact Reaches.refl _
  | cons s todo ih =>
    obtain ⟨hne, hdown⟩ := h s List.mem_cons_self
    have hup :
        ((c.setProcess name (.standby w (.scan (s :: todo)))).listening s).isSome = false := by
      rw [listening_setProcess hne, hdown]
      rfl
    refine (Reaches.single (.watch name .scan) (step_watch ?_)).trans
      (ih fun s' hs' => h s' (List.mem_cons_of_mem _ hs'))
    simp [Pc.next, hup]

/-- All attempts on one server fail. -/
theorem reaches_probe_one {s : Bytes} (hs : s ∈ config.higherPriorityThan name)
    (hdown : c.listening s = none) (k : ℕ) (left : Bytes → ℕ) (hk : left s = k) :
    Reaches (step config) (c.setProcess name (.standby w (.probe left false)))
      (c.setProcess name (.standby w (.probe (Function.update left s 0) false))) := by
  -- on the attempts that are left for this server
  induction k generalizing left with
  | zero =>
    rw [← hk, Function.update_eq_self]
    exact Reaches.refl _
  | succ k ih =>
    have hup :
        ((c.setProcess name (.standby w (.probe left false))).listening s).isSome = false := by
      rw [listening_setProcess (mem_higherPriorityThan_ne hs), hdown]
      rfl
    have hrest := ih (Function.update left s k) (Function.update_self _ _ _)
    rw [Function.update_idem] at hrest
    refine (Reaches.single (.watch name (.probe s)) (step_watch ?_)).trans hrest
    simp [Pc.next, hs, hk, hup]

theorem reaches_probe (names : List Bytes) (left : Bytes → ℕ)
    (h : ∀ s ∈ names, s ∈ config.higherPriorityThan name ∧ c.listening s = none) :
    ∃ left', (∀ s ∈ names, left' s = 0) ∧
      Reaches (step config) (c.setProcess name (.standby w (.probe left false)))
        (c.setProcess name (.standby w (.probe left' false))) := by
  induction names with
  | nil => exact ⟨left, by simp, Reaches.refl _⟩
  | cons s names ih =>
    obtain ⟨left', hzero, hreach⟩ := ih fun s' hs' => h s' (List.mem_cons_of_mem _ hs')
    obtain ⟨hs, hdown⟩ := h s List.mem_cons_self
    refine ⟨Function.update left' s 0, fun s' hs' => ?_,
      hreach.trans (reaches_probe_one hs hdown _ left' rfl)⟩
    by_cases heq : s' = s
    · rw [heq, Function.update_self]
    · rw [Function.update_of_ne heq]
      exact hzero s' ((List.mem_cons.mp hs').resolve_left heq)

/-- The cluster once a standby has promoted. -/
def afterPromotion (c : Cluster) (name : Bytes) (w : Watcher) (epoch : UInt32) : Cluster :=
  let node : Node := { epochFile := EpochStore.save epoch, process := .standby w (.active epoch) }
  { c.setNode name node with
    taken := (name, epoch) :: c.taken
    promoted := (name, epoch) :: c.promoted }

/-- The three statements of `promote()`. -/
theorem reaches_promote :
    ∃ w', Reaches (step config) (c.setProcess name (.standby w .promote))
      (c.afterPromotion name w' (w.observedEpoch + 1)) := by
  refine ⟨{ w with observedEpoch := w.observedEpoch + 1 },
    [.raiseEpoch name, .saveEpoch name, .becomeActive name], ?_⟩
  simp [run, step, setProcess, Cluster.setNode, afterPromotion]

/-- **A standby that is started while no server of higher priority listens
promotes**, with the epoch after the one on its disk. -/
theorem reaches_afterPromotion (hname : config.IsStandby name)
    (hdown : (c.nodes name).process = .down)
    (hhigher : ∀ s ∈ config.higherPriorityThan name, c.listening s = none) :
    ∃ w', Reaches (step config) c
      (c.afterPromotion name w' (EpochStore.load (c.nodes name).epochFile + 1)) := by
  -- the path through `watchLoop`: scan, probe, conclude, promote
  set w := Watcher.start (c.nodes name).epochFile with hw
  have hstart : c.step config (.start name)
      = some (c.setProcess name (.standby w (.scan (config.higherPriorityThan name)))) := by
    simp [step, hdown, hname.1, hname.2, hw]
  have hscan : Reaches (step config)
      (c.setProcess name (.standby w (.scan (config.higherPriorityThan name))))
      (c.setProcess name (.standby w (.scan []))) :=
    reaches_scan fun s hs => ⟨mem_higherPriorityThan_ne hs, hhigher s hs⟩
  have hprobing : (c.setProcess name (.standby w (.scan []))).step config (.watch name .scan)
      = some (c.setProcess name
        (.standby w (.probe (fun _ => config.promotionProbeAttempts) false))) :=
    step_watch rfl
  obtain ⟨left, hzero, hprobed⟩ := reaches_probe (w := w) (config.higherPriorityThan name)
    (fun _ => config.promotionProbeAttempts) fun s hs => ⟨hs, hhigher s hs⟩
  have hconclude : (c.setProcess name (.standby w (.probe left false))).step config
      (.watch name .conclude) = some (c.setProcess name (.standby w .promote)) := by
    refine step_watch ?_
    have hall : (config.higherPriorityThan name).all (fun s => left s = 0) = true := by
      simpa using hzero
    simp only [Pc.next, hall, if_true, Bool.false_eq_true, if_false]
  obtain ⟨w', hpromote⟩ : ∃ w', Reaches (step config) (c.setProcess name (.standby w .promote))
      (c.afterPromotion name w' (w.observedEpoch + 1)) := reaches_promote
  refine ⟨w', ?_⟩
  exact (((((Reaches.single _ hstart).trans hscan).trans (Reaches.single _ hprobing)).trans
    hprobed).trans (Reaches.single _ hconclude)).trans hpromote

end Alone

/-- Two standbys that are started while nothing listens promote with epoch 1. -/
theorem reaches_two_leaders {a b : Bytes} (ha : config.IsStandby a) (hb : config.IsStandby b)
    (hab : a ≠ b) :
    ∃ t, Reaches (step config) (start fun _ => none) t ∧ ¬ t.SingleLeader := by
  obtain ⟨w, hfirst⟩ := reaches_afterPromotion (c := start fun _ => none) ha rfl fun s hs => rfl
  set c := (start fun _ => none).afterPromotion a w (EpochStore.load none + 1) with hc
  -- the first one has promoted, but its server does not listen yet
  have hlistening : ∀ s, c.listening s = none := by
    intro s
    by_cases hs : s = a
    · simp [hc, hs, listening, afterPromotion, Cluster.setNode, Process.listening]
    · simp [hc, hs, listening, afterPromotion, Cluster.setNode, start, Process.listening]
  have hdown : (c.nodes b).process = .down := by
    simp [hc, afterPromotion, Cluster.setNode, hab.symm, start]
  have hfile : (c.nodes b).epochFile = none := by
    simp [hc, afterPromotion, Cluster.setNode, hab.symm, start]
  obtain ⟨w', hsecond⟩ := reaches_afterPromotion hb hdown fun s _ => hlistening s
  refine ⟨_, hfirst.trans hsecond, fun hsingle => hab ?_⟩
  refine hsingle a b (EpochStore.load none + 1) ?_ ?_
  · simp [afterPromotion, hc]
  · simp [afterPromotion, hfile]

/-- **A single leader per epoch.**  No two distinct nodes promote with the same
epoch in any run in which each node that takes an epoch has observed those the
others have taken.  Without a condition on the run, it is true of all runs
exactly when the cluster has at most one standby. -/
theorem single_leader_per_epoch (config : ClusterConfig) :
    (∀ epochFiles events t, Meets (step config) HasObserved (start epochFiles) events →
      run (step config) (start epochFiles) events = some t → t.SingleLeader) ∧
    ((∀ epochFiles events t, run (step config) (start epochFiles) events = some t →
      t.SingleLeader) ↔ ∀ n m, config.IsStandby n → config.IsStandby m → n = m) := by
  refine ⟨fun epochFiles events t hmeets hrun => ?_, fun hall n m hn hm => ?_, fun hone => ?_⟩
  · have hinv : Inv config t ∧ t.DistinctTaken :=
      run_invariant (P := fun c => Inv config c ∧ c.DistinctTaken)
        (fun c event t h hobserved hstep =>
          ⟨inv_step h.1 hstep, distinctTaken_step h.2 hobserved hstep⟩)
        ⟨inv_start epochFiles, by simp [DistinctTaken, start]⟩ hmeets hrun
    exact hinv.1.singleLeader hinv.2
  · by_contra hne
    obtain ⟨t, ⟨events, hrun⟩, htwo⟩ := reaches_two_leaders hn hm hne
    exact htwo (hall _ events t hrun)
  · -- only standbys take epochs, so all of them have been taken by the same one
    intro epochFiles events t hrun
    have hinv : Inv config t :=
      run_invariant (fun c event t h _ hstep => inv_step h hstep) (inv_start epochFiles)
        (Meets.trivial _ events) hrun
    refine hinv.singleLeader fun n m epoch hn hm => ?_
    exact hone n m (hinv.taken _ hn) (hinv.taken _ hm)

/-- Three servers `p`, `a`, `b`: `a` promotes with epoch 1 and listens, `b` follows
it and hears of epoch 1, `a` crashes, and `b` promotes with epoch 2. -/
theorem single_leader_one_after_the_other :
    let config : ClusterConfig :=
      { servers := [[112], [97], [98]], reconnectAttempts := 1, promotionProbeAttempts := 1 }
    let first : List ClusterEvent := [.start [97], .watch [97] .scan, .watch [97] .scan,
      .watch [97] (.probe [112]), .watch [97] .conclude, .raiseEpoch [97], .saveEpoch [97],
      .becomeActive [97], .listen [97]]
    let second : List ClusterEvent := [.start [98], .watch [98] .scan, .watch [98] .scan,
      .watch [98] .connect, .send [97] [98] (leaderHb 1), .watch [98] .deliver, .crash [97],
      .watch [98] .disconnect, .watch [98] .scan, .watch [98] .scan, .watch [98] .scan,
      .watch [98] (.probe [112]), .watch [98] (.probe [97]), .watch [98] .conclude,
      .raiseEpoch [98], .saveEpoch [98], .becomeActive [98]]
    (run (step config) (start fun _ => none) (first ++ second)).map Cluster.promoted
      = some [([98], 2), ([97], 1)] ∧
    ∀ t, run (step config) (start fun _ => none) (first ++ second) = some t → t.SingleLeader := by
  intro config first second
  have hmeets : Meets (step config) HasObserved (start fun _ => none) (first ++ second) := by
    decide
  exact ⟨by decide, fun t => (single_leader_per_epoch config).1 _ _ t hmeets⟩

/-- Three servers `p`, `a`, `b`: both standbys follow `p`, which crashes.  They
probe the ports above them before either listens, and both promote with epoch 1. -/
theorem two_leaders_of_epoch_one :
    let config : ClusterConfig := { servers := [[112], [97], [98]] }
    let follow (name : Bytes) : List ClusterEvent := [.start name, .watch name .scan,
      .watch name .connect, .send [112] name (leaderHb 0), .watch name .deliver]
    let probe (name server : Bytes) : List ClusterEvent :=
      List.replicate 3 (.watch name (.probe server))
    let promote (name : Bytes) : List ClusterEvent :=
      [.raiseEpoch name, .saveEpoch name, .becomeActive name]
    let events := [.start [112]] ++ follow [97] ++ follow [98] ++ [.crash [112]]
      ++ [.watch [97] .disconnect, .watch [97] .scan, .watch [97] .scan] ++ probe [97] [112]
      ++ [.watch [98] .disconnect, .watch [98] .scan, .watch [98] .scan, .watch [98] .scan]
      ++ probe [98] [112] ++ probe [98] [97]
      ++ [.watch [97] .conclude, .watch [98] .conclude] ++ promote [97] ++ promote [98]
    (run (step config) (start fun _ => none) events).map Cluster.promoted
      = some [([98], 1), ([97], 1)] := by
  decide

end Cluster

end Squid
