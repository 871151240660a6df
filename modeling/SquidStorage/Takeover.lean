/-
A standby takes over.

While no server of higher priority listens, a running standby gets from any point of
`watchLoop` to `Role::ACTIVE` and a listening `Server`: every step of its own brings it
nearer, whatever the other nodes do meanwhile, and until it listens it has a step to make.

* `Pc.remaining` — a bound on the steps that are left;
* `Watching.step` — a standby follows only servers of higher priority, and a connection that
  is still open leads to a server that listens;
* `remaining_next` — every step of the loop uses up one;
* `standby_takes_over` — a standby without a server above it is serving after at most
  that many steps, with an epoch that its disk remembers.
-/
import SquidStorage.Cluster
import Mathlib.Algebra.Order.BigOperators.Group.List

open BigEndian Runs

namespace Squid

/-! ### The loop -/

namespace Pc

variable (config : ClusterConfig) (name : Bytes)

/-- The steps from `allHigherPriorityDown` on, when no server is reached. -/
def probeSteps : ℕ :=
  (config.higherPriorityThan name).length * config.promotionProbeAttempts + 5

/-- The steps from the top of the loop on, when no server is reached. -/
def scanSteps : ℕ := (config.higherPriorityThan name).length + 1 + probeSteps config name

/-- The steps that are left to the standby `name` while no server above it listens. -/
def remaining : Pc → ℕ
  | scan todo => todo.length + 1 + probeSteps config name
  | connect _ left => left + 1 + scanSteps config name
  | receive _ _ queue => queue.length + 1 + scanSteps config name
  | probe left reachable =>
    ((config.higherPriorityThan name).map left).sum + 1
      + if reachable then scanSteps config name else 4
  | promote => 4
  | raised _ => 3
  | saved _ => 2
  | active _ => 1
  | serving _ => 0

/-- The watcher looks only at servers of higher priority, and an open connection leads to a
server that is up. -/
def Sound (up : Bytes → Bool) : Pc → Prop
  | scan todo => ∀ server ∈ todo, server ∈ config.higherPriorityThan name
  | connect target _ => target ∈ config.higherPriorityThan name
  | receive target live _ =>
    target ∈ config.higherPriorityThan name ∧ (live = true → up target = true)
  | _ => True

/-- The epoch of a promotion is on disk before the role changes. -/
def Saved (epochFile : Option Bytes) : Pc → Prop
  | saved epoch | active epoch | serving epoch => EpochStore.load epochFile = epoch
  | _ => True

variable {config name}

theorem Sound.mono {up up' : Bytes → Bool} {pc : Pc} (h : pc.Sound config name up)
    (hup : ∀ server, up server = true → up' server = true) : pc.Sound config name up' := by
  cases pc with
  | receive target live queue => exact ⟨h.1, fun hlive => hup target (h.2 hlive)⟩
  | scan | connect | probe | promote | raised | saved | active | serving => exact h

variable {up : Bytes → Bool} {w w' : Watcher} {s : WatchStep} {pc pc' : Pc}

variable (config name up) in
/-- The steps of the loop, case by case. -/
inductive Goes : Pc → Pc → Prop
  | nobody : Goes (scan []) (probe (fun _ => config.promotionProbeAttempts) false)
  | found {server : Bytes} {todo : List Bytes} (hup : up server = true) :
      Goes (scan (server :: todo)) (connect server config.reconnectAttempts)
  | passed {server : Bytes} {todo : List Bytes} (hup : up server = false) :
      Goes (scan (server :: todo)) (scan todo)
  | gaveUp {target : Bytes} : Goes (connect target 0) (scan (config.higherPriorityThan name))
  | joined {target : Bytes} {left : ℕ} (hup : up target = true) :
      Goes (connect target (left + 1)) (receive target true [])
  | retried {target : Bytes} {left : ℕ} (hup : up target = false) :
      Goes (connect target (left + 1)) (connect target left)
  | delivered {target : Bytes} {live : Bool} {msg : Message} {queue : List Message} :
      Goes (receive target live (msg :: queue)) (receive target live queue)
  | timedOut {target : Bytes} {live : Bool} {queue : List Message} :
      Goes (receive target live queue) (probe (fun _ => config.promotionProbeAttempts) false)
  | disconnected {target : Bytes} :
      Goes (receive target false []) (scan (config.higherPriorityThan name))
  | reached {server : Bytes} {left : Bytes → ℕ} {reachable : Bool}
      (hserver : server ∈ config.higherPriorityThan name) (hup : up server = true) :
      Goes (probe left reachable) (probe (Function.update left server 0) true)
  | missed {server : Bytes} {left : Bytes → ℕ} {reachable : Bool}
      (hserver : server ∈ config.higherPriorityThan name) (hleft : left server ≠ 0) :
      Goes (probe left reachable) (probe (Function.update left server (left server - 1)) reachable)
  | again {left : Bytes → ℕ} : Goes (probe left true) (scan (config.higherPriorityThan name))
  | alone {left : Bytes → ℕ} : Goes (probe left false) promote

theorem goes_of_next (hnext : pc.next config up name w s = some (w', pc')) :
    Goes config name up pc pc' := by
  revert hnext
  fun_cases Pc.next config up name w s pc
  case case8 | case12 | case13 => simp
  all_goals
    intro h
    obtain ⟨rfl, rfl⟩ := Prod.mk.inj (Option.some.inj h)
  case case1 => exact .nobody
  case case2 server todo =>
    split
    next hup => exact .found hup
    next hup => exact .passed (eq_false_of_ne_true hup)
  case case3 => exact .gaveUp
  case case4 left target =>
    split
    next hup => exact .joined hup
    next hup => exact .retried (eq_false_of_ne_true hup)
  case case5 => exact .delivered
  case case6 => exact .timedOut
  case case7 => exact .disconnected
  case case9 server left reachable hleft hup =>
    exact .reached (not_not.mp (not_or.mp hleft).1) hup
  case case10 server left reachable hleft hup =>
    exact .missed (not_not.mp (not_or.mp hleft).1) (not_or.mp hleft).2
  case case11 left reachable hall =>
    cases reachable with
    | false => exact .alone
    | true => exact .again

theorem sound_next (h : pc.Sound config name up)
    (hnext : pc.next config up name w s = some (w', pc')) : pc'.Sound config name up := by
  cases goes_of_next hnext with
  | found hup => exact h _ List.mem_cons_self
  | passed hup => exact fun server hserver => h server (List.mem_cons_of_mem _ hserver)
  | joined hup => exact ⟨h, fun _ => hup⟩
  | gaveUp | disconnected | again => exact fun server hserver => hserver
  | retried hup | delivered => exact h
  | nobody | timedOut | reached hserver hup | missed hserver hleft | alone => exact True.intro

/-- The loop up to `promote()` does not touch the role. -/
theorem saved_next (hnext : pc.next config up name w s = some (w', pc'))
    (epochFile : Option Bytes) : pc'.Saved epochFile := by
  cases goes_of_next hnext <;> exact True.intro

theorem sum_update_lt {left : Bytes → ℕ} {server : Bytes} {servers : List Bytes}
    (hserver : server ∈ servers) (hleft : left server ≠ 0) :
    (servers.map (Function.update left server (left server - 1))).sum < (servers.map left).sum := by
  refine List.sum_lt_sum _ _ (fun other _ => ?_) ⟨server, hserver, ?_⟩
  · by_cases hother : other = server
    · subst hother
      rw [Function.update_self]
      exact Nat.sub_le _ _
    · rw [Function.update_of_ne hother]
  · rw [Function.update_self]
    exact Nat.sub_one_lt hleft

/-- **Every step of the loop uses up one** of those that are left. -/
theorem remaining_next (h : pc.Sound config name up)
    (hdown : ∀ server ∈ config.higherPriorityThan name, up server = false)
    (hnext : pc.next config up name w s = some (w', pc')) :
    pc'.remaining config name < pc.remaining config name := by
  cases goes_of_next hnext with
  | nobody => simp [remaining, probeSteps]
  | found hup =>
    have := hdown _ (h _ List.mem_cons_self)
    simp [hup] at this
  | joined hup =>
    have := hdown _ h
    simp [hup] at this
  | reached hserver hup =>
    have := hdown _ hserver
    simp [hup] at this
  | passed hup => simp [remaining]
  | gaveUp => simp [remaining, scanSteps]
  | disconnected => simp [remaining, scanSteps]
  | again => simp [remaining, scanSteps]
  | retried hup => simp [remaining]
  | delivered => simp [remaining]
  | timedOut =>
    simp [remaining, scanSteps, probeSteps]
    omega
  | missed hserver hleft =>
    have := sum_update_lt hserver hleft
    simp only [remaining]
    omega
  | alone => simp [remaining]

/-- Up to `promote()` the loop always has a step to make. -/
theorem exists_next (up : Bytes → Bool) (w : Watcher) (h : 4 < pc.remaining config name) :
    ∃ s next, pc.next config up name w s = some next := by
  cases pc with
  | scan todo => cases todo <;> exact ⟨.scan, _, rfl⟩
  | connect target left => cases left <;> exact ⟨.connect, _, rfl⟩
  | receive target live queue => exact ⟨.timeout, _, rfl⟩
  | probe left reachable =>
    by_cases hall : ∃ server ∈ config.higherPriorityThan name, left server ≠ 0
    · obtain ⟨server, hserver, hleft⟩ := hall
      refine ⟨.probe server, ?_⟩
      cases hup : up server <;> simp [Pc.next, hserver, hleft, hup]
    · refine ⟨.conclude, ?_⟩
      push Not at hall
      simpa [Pc.next] using hall
  | promote | raised epoch | saved epoch | active epoch | serving epoch => simp [remaining] at h

variable (name) in
/-- The process at the other end of the connection is gone. -/
def lose : Pc → Pc
  | receive target live queue => receive target (live && target ≠ name) queue
  | pc => pc

theorem peerGone_standby (server : Bytes) (w : Watcher) (pc : Pc) :
    (Process.standby w pc).peerGone server = .standby w (pc.lose server) := by
  cases pc <;> rfl

theorem remaining_lose (server : Bytes) (pc : Pc) :
    (pc.lose server).remaining config name = pc.remaining config name := by
  cases pc <;> rfl

theorem Saved.lose {epochFile : Option Bytes} (h : pc.Saved epochFile) (server : Bytes) :
    (pc.lose server).Saved epochFile := by
  cases pc <;> exact h

theorem Sound.lose {up' : Bytes → Bool} (h : pc.Sound config name up) {server : Bytes}
    (hup : ∀ other, other ≠ server → up' other = up other) :
    (pc.lose server).Sound config name up' := by
  cases pc with
  | receive target live queue =>
    refine ⟨h.1, fun hlive => ?_⟩
    simp only [Bool.and_eq_true, decide_eq_true_eq] at hlive
    rw [hup target hlive.2]
    exact h.2 hlive.1
  | scan | connect | probe | promote | raised | saved | active | serving => exact h

end Pc

/-! ### The cluster -/

/-- The node that an event happens to. -/
def ClusterEvent.node : ClusterEvent → Bytes
  | start name | crash name | send _ name _ | watch name _ | raiseEpoch name | saveEpoch name
  | becomeActive name | listen name => name

/-- A step of the node itself. -/
def ClusterEvent.isOwn (name : Bytes) : ClusterEvent → Bool
  | watch n _ | raiseEpoch n | saveEpoch n | becomeActive n | listen n => n = name
  | start _ | crash _ | send _ _ _ => false

namespace Cluster

variable {config : ClusterConfig} {c t : Cluster} {event : ClusterEvent} {name : Bytes}

def up (c : Cluster) (name : Bytes) : Bool := (c.listening name).isSome

variable (config c) in
/-- The node `name` after an event that happens to it, a crash apart. -/
inductive Becomes (name : Bytes) : ClusterEvent → Node → Prop
  | primary {epoch : UInt32} (hproc : (c.nodes name).process = .down) :
      Becomes name (.start name) { c.nodes name with process := .primary epoch }
  | standby {w : Watcher} (hproc : (c.nodes name).process = .down) :
      Becomes name (.start name)
        { c.nodes name with process := .standby w (.scan (config.higherPriorityThan name)) }
  | sent {leader target : Bytes} {msg : Message} {w : Watcher} {queue : List Message}
      (hproc : (c.nodes name).process = .standby w (.receive target true queue)) :
      Becomes name (.send leader name msg)
        { c.nodes name with process := .standby w (.receive target true (queue ++ [msg])) }
  | watched {s : WatchStep} {w w' : Watcher} {pc pc' : Pc}
      (hproc : (c.nodes name).process = .standby w pc)
      (hnext : pc.next config c.up name w s = some (w', pc')) :
      Becomes name (.watch name s) { c.nodes name with process := .standby w' pc' }
  | raised {w w' : Watcher} {epoch : UInt32}
      (hproc : (c.nodes name).process = .standby w .promote) :
      Becomes name (.raiseEpoch name) { c.nodes name with process := .standby w' (.raised epoch) }
  | saved {w : Watcher} {epoch : UInt32}
      (hproc : (c.nodes name).process = .standby w (.raised epoch)) :
      Becomes name (.saveEpoch name)
        { epochFile := EpochStore.save epoch, process := .standby w (.saved epoch) }
  | active {w : Watcher} {epoch : UInt32}
      (hproc : (c.nodes name).process = .standby w (.saved epoch)) :
      Becomes name (.becomeActive name)
        { c.nodes name with process := .standby w (.active epoch) }
  | listening {w : Watcher} {epoch : UInt32}
      (hproc : (c.nodes name).process = .standby w (.active epoch)) :
      Becomes name (.listen name) { c.nodes name with process := .standby w (.serving epoch) }

/-- **Every step** but a crash changes one node. -/
theorem becomes_of_step (h : c.step config event = some t) (hcrash : ∀ n, event ≠ .crash n) :
    ∃ node, Becomes config c event.node event node ∧
      t.nodes = Function.update c.nodes event.node node := by
  cases event with
  | crash name => exact absurd rfl (hcrash name)
  | start name =>
    simp only [step] at h
    split at h
    next hproc =>
      simp only [Option.ite_none_left_eq_some] at h
      obtain ⟨-, h⟩ := h
      split at h <;> obtain rfl := Option.some.inj h
      · exact ⟨_, .primary hproc, rfl⟩
      · exact ⟨_, .standby hproc, rfl⟩
    next => simp at h
  | send leader name msg =>
    simp only [step] at h
    split at h
    next w target queue hproc =>
      simp only [Option.ite_none_right_eq_some] at h
      obtain rfl := Option.some.inj h.2
      exact ⟨_, .sent hproc, rfl⟩
    next => simp at h
  | watch name s =>
    simp only [step] at h
    split at h
    next w pc hproc =>
      obtain ⟨⟨w', pc'⟩, hnext, rfl⟩ := Option.map_eq_some_iff.mp h
      exact ⟨_, .watched hproc hnext, rfl⟩
    next => simp at h
  | raiseEpoch name =>
    obtain ⟨w, w', hproc, rfl⟩ := step_raiseEpoch h
    exact ⟨_, .raised hproc, rfl⟩
  | saveEpoch name =>
    simp only [step] at h
    split at h
    next w epoch hproc =>
      obtain rfl := Option.some.inj h
      exact ⟨_, .saved hproc, rfl⟩
    next => simp at h
  | becomeActive name =>
    obtain ⟨w, epoch, hproc, rfl⟩ := step_becomeActive h
    exact ⟨_, .active hproc, rfl⟩
  | listen name =>
    simp only [step] at h
    split at h
    next w epoch hproc =>
      obtain rfl := Option.some.inj h
      exact ⟨_, .listening hproc, rfl⟩
    next => simp at h

/-- What a crash does to the nodes. -/
theorem nodes_crash (h : c.step config (.crash name) = some t) :
    (t.nodes name).process = .down ∧ ∀ n, n ≠ name →
      t.nodes n = { c.nodes n with process := (c.nodes n).process.peerGone name } := by
  obtain rfl := Option.some.inj h
  refine ⟨?_, fun n hn => ?_⟩
  · rw [setProcess, nodes_setNode_self]
  · rw [setProcess, nodes_setNode_of_ne _ hn]

/-! ### What every step keeps -/

/-- Every watcher is sound, and every epoch in use is on the disk of its node. -/
def Watching (config : ClusterConfig) (c : Cluster) : Prop :=
  ∀ n w pc, (c.nodes n).process = .standby w pc →
    pc.Sound config n c.up ∧ pc.Saved (c.nodes n).epochFile

theorem watching_start (epochFiles : Bytes → Option Bytes) :
    (start epochFiles).Watching config := by
  intro n w pc h
  simp [start] at h

/-- No step but a crash stops a server. -/
theorem Becomes.up {node : Node} (h : Becomes config c name event node) (hup : c.up name = true) :
    node.process.listening.isSome = true := by
  unfold Cluster.up Cluster.listening at hup
  cases h with
  | primary hproc => rfl
  | standby hproc | sent hproc | raised hproc | saved hproc | active hproc | listening hproc =>
    rw [hproc] at hup
    simp [Process.listening] at hup
  | @watched s w w' pc pc' hproc hnext =>
    rw [hproc] at hup
    cases pc <;> simp [Process.listening] at hup
    cases s <;> simp [Pc.next] at hnext

theorem Becomes.watching {node : Node} (h : Becomes config c name event node)
    (hc : c.Watching config) {w : Watcher} {pc : Pc} (hnode : node.process = .standby w pc) :
    pc.Sound config name c.up ∧ pc.Saved node.epochFile := by
  cases h with
  | primary hproc => simp at hnode
  | standby hproc =>
    obtain ⟨rfl, rfl⟩ := Process.standby.inj hnode
    exact ⟨fun server hserver => hserver, True.intro⟩
  | sent hproc =>
    obtain ⟨rfl, rfl⟩ := Process.standby.inj hnode
    have := hc name _ _ hproc
    exact this
  | watched hproc hnext =>
    obtain ⟨rfl, rfl⟩ := Process.standby.inj hnode
    exact ⟨Pc.sound_next (hc name _ _ hproc).1 hnext, Pc.saved_next hnext _⟩
  | raised hproc =>
    obtain ⟨rfl, rfl⟩ := Process.standby.inj hnode
    exact ⟨True.intro, True.intro⟩
  | saved hproc =>
    obtain ⟨rfl, rfl⟩ := Process.standby.inj hnode
    exact ⟨True.intro, EpochStore.load_save _⟩
  | active hproc | listening hproc =>
    obtain ⟨rfl, rfl⟩ := Process.standby.inj hnode
    have := hc name _ _ hproc
    exact this

theorem Watching.crash (h : c.Watching config) (hstep : c.step config (.crash name) = some t) :
    t.Watching config := by
  obtain ⟨hdown, hothers⟩ := nodes_crash hstep
  have hup : ∀ server, server ≠ name → t.up server = c.up server := by
    intro server hserver
    unfold up listening
    rw [hothers server hserver]
    cases (c.nodes server).process with
    | standby w pc => cases pc <;> rfl
    | down | primary epoch => rfl
  intro n w pc hproc
  have hn : n ≠ name := by
    rintro rfl
    simp [hdown] at hproc
  rw [hothers n hn] at hproc ⊢
  dsimp only at hproc
  cases hbefore : (c.nodes n).process with
  | down | primary epoch => simp [hbefore, Process.peerGone] at hproc
  | standby w' pc' =>
    rw [hbefore, Pc.peerGone_standby] at hproc
    obtain ⟨rfl, rfl⟩ := Process.standby.inj hproc
    obtain ⟨hsound, hsaved⟩ := h n _ _ hbefore
    exact ⟨hsound.lose hup, hsaved.lose name⟩

theorem Watching.step (h : c.Watching config) (hstep : c.step config event = some t) :
    t.Watching config := by
  by_cases hcrash : ∃ n, event = .crash n
  · obtain ⟨n, rfl⟩ := hcrash
    exact h.crash hstep
  push Not at hcrash
  obtain ⟨node, hbecomes, hnodes⟩ := becomes_of_step hstep hcrash
  have hmono : ∀ server, c.up server = true → t.up server = true := by
    intro server hserver
    unfold up listening
    rw [hnodes]
    by_cases hs : server = event.node
    · subst hs
      rw [Function.update_self]
      exact hbecomes.up hserver
    · rwa [Function.update_of_ne hs]
  intro n w pc hproc
  rw [hnodes] at hproc ⊢
  by_cases hn : n = event.node
  · subst hn
    rw [Function.update_self] at hproc ⊢
    obtain ⟨hsound, hsaved⟩ := hbecomes.watching h hproc
    exact ⟨hsound.mono hmono, hsaved⟩
  · rw [Function.update_of_ne hn] at hproc ⊢
    obtain ⟨hsound, hsaved⟩ := h n w pc hproc
    exact ⟨hsound.mono hmono, hsaved⟩

/-! ### The way to a listening server -/

/-- The steps that are left to the node. -/
def stepsLeft (config : ClusterConfig) (name : Bytes) (c : Cluster) : ℕ :=
  match (c.nodes name).process with
  | .standby _ pc => pc.remaining config name
  | _ => 0

/-- No server of higher priority listens, and the node itself stays up. -/
def Leaderless (config : ClusterConfig) (name : Bytes) (c : Cluster) (event : ClusterEvent) :
    Prop :=
  (∀ server ∈ config.higherPriorityThan name, c.listening server = none) ∧ event ≠ .crash name

theorem stepsLeft_standby {w : Watcher} {pc : Pc} (h : (c.nodes name).process = .standby w pc) :
    c.stepsLeft config name = pc.remaining config name := by
  rw [stepsLeft, h]

/-- A step of another node leaves the standby where it is. -/
theorem stepsLeft_other (hstep : c.step config event = some t) (hother : event.node ≠ name)
    {w : Watcher} {pc : Pc} (hproc : (c.nodes name).process = .standby w pc) :
    ∃ pc', (t.nodes name).process = .standby w pc' ∧
      pc'.remaining config name = pc.remaining config name := by
  by_cases hcrash : ∃ n, event = .crash n
  · obtain ⟨n, rfl⟩ := hcrash
    refine ⟨pc.lose n, ?_, Pc.remaining_lose n pc⟩
    rw [(nodes_crash hstep).2 name (Ne.symm hother)]
    dsimp only
    rw [hproc, Pc.peerGone_standby]
  · push Not at hcrash
    obtain ⟨node, -, hnodes⟩ := becomes_of_step hstep hcrash
    refine ⟨pc, ?_, rfl⟩
    rw [hnodes, Function.update_of_ne (Ne.symm hother), hproc]

/-- Nobody sends to a standby whose leader is gone, and each step of its own uses up one. -/
theorem Becomes.stepsLeft {node : Node} (h : Becomes config c name event node)
    (hc : c.Watching config) {w : Watcher} {pc : Pc}
    (hproc : (c.nodes name).process = .standby w pc)
    (hdown : ∀ server ∈ config.higherPriorityThan name, c.up server = false) :
    ∃ w' pc', node.process = .standby w' pc' ∧
      pc'.remaining config name < pc.remaining config name := by
  obtain ⟨hsound, -⟩ := hc name w pc hproc
  cases h with
  | primary hproc' | standby hproc' => simp [hproc] at hproc'
  | sent hproc' =>
    obtain ⟨rfl, rfl⟩ := Process.standby.inj (hproc.symm.trans hproc')
    have := hsound.2 rfl
    rw [hdown _ hsound.1] at this
    simp at this
  | watched hproc' hnext =>
    obtain ⟨rfl, rfl⟩ := Process.standby.inj (hproc.symm.trans hproc')
    exact ⟨_, _, rfl, Pc.remaining_next hsound hdown hnext⟩
  | raised hproc' | saved hproc' | active hproc' | listening hproc' =>
    obtain ⟨rfl, rfl⟩ := Process.standby.inj (hproc.symm.trans hproc')
    exact ⟨_, _, rfl, Nat.lt_succ_self _⟩

/-- **Its own steps bring the standby nearer**, and no other event sets it back. -/
theorem stepsLeft_step (hc : c.Watching config)
    (hstandby : (c.nodes name).process.isStandby = true) (hdown : Leaderless config name c event)
    (hstep : c.step config event = some t) :
    (t.nodes name).process.isStandby = true ∧
      t.stepsLeft config name + (event.isOwn name).toNat ≤ c.stepsLeft config name := by
  obtain ⟨w, pc, hproc⟩ : ∃ w pc, (c.nodes name).process = .standby w pc := by
    cases h : (c.nodes name).process with
    | standby w pc => exact ⟨w, pc, rfl⟩
    | down | primary epoch => simp [h, Process.isStandby] at hstandby
  by_cases hname : event.node = name
  · have hcrash : ∀ n, event ≠ .crash n := by
      rintro n rfl
      exact hdown.2 (congrArg ClusterEvent.crash hname)
    obtain ⟨node, hbecomes, hnodes⟩ := becomes_of_step hstep hcrash
    rw [hname] at hbecomes hnodes
    obtain ⟨w', pc', hnode, hless⟩ := hbecomes.stepsLeft hc hproc fun server hserver => by
      rw [up, hdown.1 server hserver]
      rfl
    have hproc' : (t.nodes name).process = .standby w' pc' := by
      rw [hnodes, Function.update_self, hnode]
    rw [stepsLeft_standby hproc, stepsLeft_standby hproc']
    refine ⟨by rw [hproc']; rfl, ?_⟩
    cases event.isOwn name <;> simp <;> omega
  · obtain ⟨pc', hproc', hleft⟩ := stepsLeft_other hstep hname hproc
    have hown : event.isOwn name = false := by
      cases event <;> simp_all [ClusterEvent.isOwn, ClusterEvent.node]
    rw [stepsLeft_standby hproc, stepsLeft_standby hproc', hleft, hown]
    exact ⟨by rw [hproc']; rfl, le_rfl⟩

/-- Until it listens, the standby has a step to make. -/
theorem exists_own (config : ClusterConfig) (hstandby : (c.nodes name).process.isStandby = true)
    (hquiet : c.listening name = none) :
    ∃ event, event.isOwn name = true ∧ c.step config event ≠ none := by
  cases hproc : (c.nodes name).process with
  | down | primary epoch => simp [hproc, Process.isStandby] at hstandby
  | standby w pc =>
    by_cases hloop : 4 < pc.remaining config name
    · obtain ⟨s, next, hnext⟩ := Pc.exists_next c.up w hloop
      refine ⟨.watch name s, by simp [ClusterEvent.isOwn], ?_⟩
      have hnext' :
          pc.next config (fun server => (c.listening server).isSome) name w s = some next := hnext
      simp [step, hproc, hnext']
    · cases pc with
      | promote => exact ⟨.raiseEpoch name, by simp [ClusterEvent.isOwn], by simp [step, hproc]⟩
      | raised epoch => exact ⟨.saveEpoch name, by simp [ClusterEvent.isOwn], by simp [step, hproc]⟩
      | saved epoch =>
        exact ⟨.becomeActive name, by simp [ClusterEvent.isOwn], by simp [step, hproc]⟩
      | active epoch => exact ⟨.listen name, by simp [ClusterEvent.isOwn], by simp [step, hproc]⟩
      | serving epoch => simp [listening, hproc, Process.listening] at hquiet
      | scan todo | connect target left | receive target live queue =>
        simp only [Pc.remaining, Pc.scanSteps, Pc.probeSteps] at hloop
        omega
      | probe left reachable =>
        simp only [Pc.remaining, Pc.scanSteps, Pc.probeSteps] at hloop
        split at hloop <;> omega

/-- A standby that listens finds its epoch on its disk. -/
theorem Watching.saved_of_listening (h : c.Watching config)
    (hstandby : (c.nodes name).process.isStandby = true) {epoch : UInt32}
    (hlistening : c.listening name = some epoch) :
    EpochStore.load (c.nodes name).epochFile = epoch := by
  unfold listening at hlistening
  cases hproc : (c.nodes name).process with
  | down | primary epoch => simp [hproc, Process.isStandby] at hstandby
  | standby w pc =>
    obtain ⟨-, hsaved⟩ := h name w pc hproc
    rw [hproc] at hlistening
    cases pc with
    | serving epoch' =>
      obtain rfl := Option.some.inj hlistening
      exact hsaved
    | _ => simp [Process.listening] at hlistening

end Cluster

open Cluster

/-- **A standby takes over.**  In every run of the cluster, from any point at which `name`
is a running standby, as long as no server of higher priority listens and `name` does not
crash, it makes no more steps of its own than `stepsLeft` says, whatever the other nodes do
in between; and when it has no step left it is listening, with an epoch that it reads back
from its disk when it is started again. -/
theorem standby_takes_over (config : ClusterConfig) (name : Bytes)
    (epochFiles : Bytes → Option Bytes) (before after : List ClusterEvent) (c t : Cluster)
    (hbefore : run (step config) (start epochFiles) before = some c)
    (hstandby : (c.nodes name).process.isStandby = true)
    (hdown : Meets (step config) (Leaderless config name) c after)
    (hafter : run (step config) c after = some t) :
    after.countP (ClusterEvent.isOwn name) ≤ c.stepsLeft config name ∧
      ((∀ event, event.isOwn name = true → t.step config event = none) →
        t.listening name = some (EpochStore.load (t.nodes name).epochFile)) := by
  have hwatching : c.Watching config :=
    run_invariant (fun c e t h _ hstep => h.step hstep) (watching_start epochFiles)
      (Meets.trivial _ before) hbefore
  obtain ⟨⟨ht, hstandby'⟩, hsteps⟩ := run_rank
    (P := fun c => c.Watching config ∧ (c.nodes name).process.isStandby = true)
    (stepsLeft config name) (ClusterEvent.isOwn name) (fun _ => 0)
    (fun c e t h hC hstep => by
      obtain ⟨hs, hle⟩ := stepsLeft_step h.1 h.2 hC hstep
      exact ⟨⟨h.1.step hstep, hs⟩, hle⟩) ⟨hwatching, hstandby⟩ hdown hafter
  refine ⟨?_, fun hquiet => ?_⟩
  · have hnothing : (after.map fun _ => 0).sum = 0 := by simp
    omega
  · cases hlistening : t.listening name with
    | none =>
      obtain ⟨event, hown, hstep⟩ := exists_own config hstandby' hlistening
      exact absurd (hquiet event hown) hstep
    | some epoch => rw [ht.saved_of_listening hstandby' hlistening]

/-- The primary `p` crashes while `a` follows it: `a` makes seven steps of its own, of the
nine that it has left, and serves with epoch 1. -/
theorem standby_takes_over_from_primary :
    let config : ClusterConfig :=
      { servers := [[112], [97]], reconnectAttempts := 1, promotionProbeAttempts := 1 }
    let before : List ClusterEvent := [.start [112], .start [97], .watch [97] .scan,
      .watch [97] .connect, .crash [112]]
    let after : List ClusterEvent := [.watch [97] .timeout, .watch [97] (.probe [112]),
      .watch [97] .conclude, .raiseEpoch [97], .saveEpoch [97], .becomeActive [97], .listen [97]]
    ∃ c t, run (step config) (start fun _ => none) before = some c ∧
      run (step config) c after = some t ∧ c.stepsLeft config [97] = 9 ∧
      after.countP (ClusterEvent.isOwn [97]) ≤ c.stepsLeft config [97] ∧
      t.listening [97] = some 1 := by
  intro config before after
  obtain ⟨c, hc⟩ : ∃ c, run (step config) (start fun _ => none) before = some c := ⟨_, rfl⟩
  have hc' := Option.some.inj hc
  obtain ⟨t, ht⟩ : ∃ t, run (step config) c after = some t := by
    subst hc'
    exact ⟨_, rfl⟩
  have hdown : Meets (step config) (Leaderless config [97]) c after := by
    subst hc'
    repeat' first | exact True.intro | refine Meets.cons rfl ⟨by decide, by simp⟩ ?_
  obtain ⟨hsteps, hserves⟩ := standby_takes_over config [97] (fun _ => none) before after c t hc
    (by subst hc'; rfl) hdown ht
  subst hc'
  have ht' := Option.some.inj ht
  have hquiet : ∀ event : ClusterEvent, event.isOwn [97] = true → t.step config event = none := by
    subst ht'
    intro event hown
    cases event with
    | watch n s =>
      obtain rfl : n = [97] := by simpa [ClusterEvent.isOwn] using hown
      cases s <;> rfl
    | raiseEpoch n | saveEpoch n | becomeActive n | listen n =>
      obtain rfl : n = [97] := by simpa [ClusterEvent.isOwn] using hown
      rfl
    | start n | crash n | send n m msg => simp [ClusterEvent.isOwn] at hown
  refine ⟨_, t, hc, ht, by decide, hsteps, (hserves hquiet).trans ?_⟩
  subst ht'
  decide

end Squid
