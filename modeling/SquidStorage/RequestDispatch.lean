/-
Every request of a client is dispatched once.

A lock of the client that expires makes the server's session worker call
`protocol.releaseLock`, which waits for a reply; `Client::handlePush` sends none, so
the next request of the client is taken for it.  Without that, a request that is on
the way is the next thing the worker reads.

* `Agree` — what the client waits for is what the handler is going to do;
* `Round` — the rounds of a request, across both ends;
* `requests_dispatched_once` — in every run in which no lock of the client is found
  expired and no file is over the size limit, the requests sent are the requests
  dispatched, in order, up to the last one, which the server's threads dispatch within
  three of their steps;
* `expiry_swallows_request` — a request that is never dispatched.
-/
import SquidStorage.ClientLink

open BigEndian

namespace Squid

/-! ### The two ends of a request -/

/-- Reading the parcels for a call, sending nothing, takes the client from `p` to `p'`. -/
def Reads : ClientPhase → List Parcel → ClientPhase → Prop
  | p, [], p' => p = p'
  | p, parcel :: rest, p' =>
    p.waits = true ∧ (p.read parcel).2 = [] ∧ Reads (p.read parcel).1 rest p'

theorem Reads.concat {p p' : ClientPhase} {parcels : List Parcel} {parcel : Parcel}
    (h : Reads p parcels p') (hwaits : p'.waits = true) (hsilent : (p'.read parcel).2 = []) :
    Reads p (parcels ++ [parcel]) (p'.read parcel).1 := by
  induction parcels generalizing p with
  | nil =>
    obtain rfl : p = p' := h
    exact ⟨hwaits, hsilent, rfl⟩
  | cons first rest ih => exact ⟨h.1, h.2.1, ih h.2.2⟩

/-- The client waits for what the handler is going to do, step by step. -/
inductive Agree : ClientPhase → Handling → Prop where
  | finish : Agree .idle .finish
  | respond {p : ClientPhase} {reply : Response} {next : Handling} (hwaits : p.waits = true)
      (hsilent : (p.read (.frame reply.message)).2 = [])
      (hnext : Agree (p.read (.frame reply.message)).1 next) : Agree p (.respond reply next)
  | sendFile {p : ClientPhase} {data : Bytes} {next : Bool → Handling} (hwaits : p.waits = true)
      (hsize : data.length ≤ fileTransferMaxSize) (hsilent : (p.read (.file data)).2 = [])
      (hnext : Agree (p.read (.file data)).1 (next true)) : Agree p (.sendFile data next)
  | upload {p p' : ClientPhase} {data : Bytes} {next : Option Bytes → Handling}
      (hwaits : p.waits = true)
      (hread : p.read (.frame (Response.ack true).message) = (p', [.file data]))
      (hwaits' : p'.waits = true) (hnext : Agree p' (next (some data))) : Agree p (.upload next)

/-- The file of a READ_FILE can be transferred. -/
def Transferable (mg : Managers) (msg : Message) : Prop :=
  msg.opcode = .readFile →
    ((mg.getFileFromDataNode (msg.getString .filePath)).getD []).length ≤ fileTransferMaxSize

/-- The file of an upload can be transferred. -/
def ClientCall.Transferable : ClientCall → Prop
  | .rpc (.createFile _ _ data) | .rpc (.updateFile _ _ data) => data.length ≤ fileTransferMaxSize
  | _ => True

/-- The file of the request that waits for the pool can be transferred. -/
def PoolThread.Transferable (mg : Managers) : PoolThread → Prop
  | .submitted msg => Squid.Transferable mg msg
  | _ => True

instance (mg : Managers) (msg : Message) : Decidable (Transferable mg msg) :=
  inferInstanceAs (Decidable (_ → _ ≤ _))

instance : (c : ClientCall) → Decidable c.Transferable
  | .rpc (.createFile _ _ data) | .rpc (.updateFile _ _ data) =>
    inferInstanceAs (Decidable (data.length ≤ fileTransferMaxSize))
  | .rpc (.readFile _) | .rpc (.deleteFile _) | .rpc (.acquireLock _) | .rpc (.releaseLock _)
  | .rpc .heartbeat | .syncStatus | .closeConn => isTrue True.intro

instance (mg : Managers) : (pool : PoolThread) → Decidable (pool.Transferable mg)
  | .submitted msg => inferInstanceAs (Decidable (Squid.Transferable mg msg))
  | .free | .running _ | .waiting _ | .crashed => isTrue True.intro

theorem agree_done {next : Message → Calling} (reply : Response)
    (hnext : ∃ m d, next reply.message = .done m d) :
    Agree (.busy (.receive next)) (.respond reply .finish) := by
  obtain ⟨m, d, hdone⟩ := hnext
  have hread : ClientPhase.read (.busy (.receive next)) (.frame reply.message) = (.idle, []) := by
    rw [ClientPhase.read, hdone]
    rfl
  refine .respond rfl ?_ ?_
  · rw [hread]
  · rw [hread]
    exact .finish

/-- Both uploads: the ACK that asks for the file, the file, the result. -/
theorem agree_upload (path : Bytes) (version : Int32) {data : Bytes}
    {next : Option Bytes → Handling} (hsize : data.length ≤ fileTransferMaxSize)
    (hnext : ∃ reply, next (some data) = .respond reply .finish) :
    Agree (.busy (Rpc.createFile path version data).calling) (.upload next) := by
  obtain ⟨reply, hreply⟩ := hnext
  have hread : ClientPhase.read (.busy (Rpc.createFile path version data).calling)
      (.frame (Response.ack true).message)
      = (.busy (.receive fun result => .done result []), [.file data]) := by
    show ClientPhase.settle (if !(Response.ack true).message.isAck then _ else _) = _
    rw [Response.isAck_ack]
    show ClientPhase.settle (.sendFile data _) = _
    rw [ClientPhase.settle, if_neg (Nat.not_lt.mpr hsize)]
    rfl
  refine .upload rfl hread rfl ?_
  rw [hreply]
  exact agree_done reply ⟨_, [], rfl⟩

/-- A download: the ACK, the file, the result. -/
theorem agree_download {path data : Bytes} {reply : Bool → Response}
    (hsize : data.length ≤ fileTransferMaxSize) :
    Agree (.busy (Rpc.readFile path).calling)
      (.respond (.ack true) (.sendFile data fun sent => .respond (reply sent) .finish)) := by
  obtain ⟨next, hack, hnext⟩ : ∃ next, ClientPhase.read (.busy (Rpc.readFile path).calling)
      (.frame (Response.ack true).message) = (.busy (.receiveFile next), []) ∧
      next (some data) = .receive fun result => .done result data := by
    refine ⟨?_, ?_, ?_⟩
    rotate_left
    · show ClientPhase.settle (if !(Response.ack true).message.isAck then _ else _) = _
      rw [Response.isAck_ack]
      rfl
    · rfl
  have hfile : ClientPhase.read (.busy (.receiveFile next)) (.file data)
      = (.busy (.receive fun result => .done result data), []) := by
    rw [ClientPhase.read, hnext]
    rfl
  refine .respond rfl ?_ ?_
  · rw [hack]
  · rw [hack]
    refine .sendFile rfl hsize ?_ ?_
    · rw [hfile]
    · rw [hfile]
      exact agree_done (reply true) ⟨_, data, rfl⟩

theorem handling_readFile (mg : Managers) {msg : Message} (hop : msg.opcode = .readFile) :
    handling mg msg = .respond (.ack false) .finish ∨
      ∃ data, ∃ reply : Bool → Response, mg.getFileFromDataNode (msg.getString .filePath) = some data ∧
        handling mg msg
          = .respond (.ack true) (.sendFile data fun sent => .respond (reply sent) .finish) := by
  cases hfile : mg.getFileFromDataNode (msg.getString .filePath) with
  | none =>
    refine Or.inl ?_
    simp only [handling, hop, hfile]
    rfl
  | some data =>
    refine Or.inr ⟨data, fun sent => .version sent (mg.getKnownVersion (msg.getString .filePath)),
      rfl, ?_⟩
    simp only [handling, hop, hfile]
    rfl

/-- **Client and server agree on every call** that waits for a reply. -/
theorem ClientCall.agree (c : ClientCall) (hc : c.Transferable) (hclose : c ≠ .closeConn)
    {mg : Managers} (hmg : Squid.Transferable mg c.message) :
    Agree c.start (handling mg c.message) := by
  cases c with
  | closeConn => exact absurd rfl hclose
  | syncStatus =>
    have hread : ∀ reply : Response,
        ClientPhase.read .syncing (.frame reply.message) = (.idle, []) := by
      intro reply
      rw [ClientPhase.read, ClientPhase.syncStatus, reply.isResponse_message]
      rfl
    show Agree .syncing (.respond (.versions mg.getFileVersionMap) .finish)
    refine .respond rfl ?_ ?_
    · rw [hread]
    · rw [hread]
      exact .finish
  | rpc r =>
    cases r with
    | createFile path version data => exact agree_upload path version hc ⟨_, rfl⟩
    | readFile path =>
      have hsize := hmg rfl
      have hop : (ClientCall.rpc (.readFile path)).message.opcode = .readFile := rfl
      rcases handling_readFile mg hop with hleft | ⟨data, reply, hfile, hleft⟩
      · rw [hleft]
        refine agree_done (.ack false) ⟨(Response.ack false).message, [], ?_⟩
        rw [Response.isAck_ack]
        rfl
      · rw [hleft]
        rw [hfile] at hsize
        exact agree_download hsize
    | updateFile path version data =>
      refine agree_upload path version hc ?_
      dsimp only
      split
      · exact ⟨_, rfl⟩
      · exact ⟨_, rfl⟩
    | deleteFile path => exact agree_done _ ⟨_, [], rfl⟩
    | acquireLock path => exact agree_done _ ⟨_, [], rfl⟩
    | releaseLock path => exact agree_done _ ⟨_, [], rfl⟩
    | heartbeat => exact agree_done _ ⟨_, [], rfl⟩

/-! ### The rounds of a request -/

/-- What the pool thread still has to do, and the task it waits for. -/
inductive Remaining : PoolThread → List SessionTask → Handling → Prop where
  | free : Remaining .free [] .finish
  | running (left : Handling) : Remaining (.running left) [] left
  | waiting {left : Handling} (htask : left.isTask = true) :
      Remaining (.waiting left) [.handler] left

/-- The pool thread from a CLOSE on. -/
inductive Closing : PoolThread → List SessionTask → Prop where
  | dispatched : Closing (.running (.respond (.ack true) .close)) []
  | waiting : Closing (.waiting (.respond (.ack true) .close)) [.handler]
  | responded : Closing (.running .close) []
  | crashed : Closing .crashed []
  | closed : Closing .free []

/-- The client has closed, or waits for what the handler will do with `msg`. -/
def Awaits (client : ClientPhase) (msg : Message) : Prop :=
  (client = .gone ∧ msg = ClientCall.closeConn.message) ∨
    (client.waits = true ∧ ∀ mg, Transferable mg msg → Agree client (handling mg msg))

/-- The states of the link when no push is sent. -/
inductive Round : ClientLink → Prop where
  -- the last request is handled, or all are
  | serving {name rm client toClient tasks pool left done} {p : ClientPhase}
      (hreads : Reads client toClient p) (hagree : Agree p left)
      (hleft : Remaining pool tasks left) :
      Round { name, rm, client, toClient, tasks, pool, suspended := !pool.isFree
              sent := done, dispatched := done }
  -- a request is on the way; the pool thread may not have returned from the last one
  | requested {name rm client pool done msg} (hawaits : Awaits client msg)
      (hpool : pool = .free ∨ pool = .running .finish) :
      Round { name, rm, client, toServer := [.frame msg], pool, suspended := !pool.isFree
              sent := done ++ [msg], dispatched := done }
  | submitted {name rm client done msg} (hawaits : Awaits client msg) :
      Round { name, rm, client, pool := .submitted msg, suspended := true
              sent := done ++ [msg], dispatched := done }
  -- the worker waits for a file that the client has not sent
  | asking {name rm client next done} {p p' : ClientPhase} {parcels : List Parcel} {data : Bytes}
      (hreads : Reads client parcels p) (hwaits : p.waits = true)
      (hread : p.read (.frame (Response.ack true).message) = (p', [.file data]))
      (hwaits' : p'.waits = true) (hagree : Agree p' (next (some data))) :
      Round { name, rm, client, toClient := parcels ++ [.frame (Response.ack true).message]
              worker := .inUpload, pool := .waiting (.upload next), suspended := true
              sent := done, dispatched := done }
  | uploading {name rm client next done} {data : Bytes} (hwaits : client.waits = true)
      (hagree : Agree client (next (some data))) :
      Round { name, rm, client, toServer := [.file data]
              worker := .inUpload, pool := .waiting (.upload next), suspended := true
              sent := done, dispatched := done }
  -- the response will never come
  | crashed {name rm client toClient done} {p : ClientPhase} (hreads : Reads client toClient p)
      (hwaits : p.waits = true) :
      Round { name, rm, client, toClient, pool := .crashed, suspended := true
              sent := done, dispatched := done }
  | closed {name rm toClient tasks pool alive done} (hclosing : Closing pool tasks) :
      Round { name, rm, client := .gone, toClient, tasks, pool, suspended := !pool.isFree, alive
              sent := done, dispatched := done }

theorem Reads.of_idle {parcels : List Parcel} {p : ClientPhase} (h : Reads .idle parcels p) :
    parcels = [] ∧ p = .idle := by
  cases parcels with
  | nil => exact ⟨rfl, h.symm⟩
  | cons parcel rest => exact absurd h.1 (by decide)

theorem Agree.of_idle {left : Handling} (h : Agree .idle left) : left = .finish := by
  cases h with
  | finish => rfl
  | respond hwaits | sendFile hwaits | upload hwaits => exact absurd hwaits (by decide)

theorem Awaits.not_idle {msg : Message} (h : Awaits .idle msg) : False := by
  rcases h with ⟨hgone, -⟩ | ⟨hwaits, -⟩
  · exact ClientPhase.noConfusion hgone
  · exact absurd hwaits (by decide)

theorem Reads.not_idle {parcels : List Parcel} {p : ClientPhase} (h : Reads .idle parcels p)
    (hwaits : p.waits = true) : False := by
  obtain ⟨-, rfl⟩ := h.of_idle
  exact absurd hwaits (by decide)

/-- What a call starts is what the server will do with its request. -/
theorem ClientCall.awaits (c : ClientCall) (hc : c.Transferable) : Awaits c.start c.message := by
  by_cases hclose : c = .closeConn
  · subst hclose
    exact Or.inl ⟨rfl, rfl⟩
  · refine Or.inr ⟨?_, fun mg hmg => c.agree hc hclose hmg⟩
    cases c with
    | closeConn => exact absurd rfl hclose
    | syncStatus => rfl
    | rpc r => cases r <;> rfl

/-! ### One event -/

namespace ClientLink

theorem call_eq_some {l t : ClientLink} {c : ClientCall} (h : l.call c = some t) :
    l.client = .idle ∧ t = { l with
      client := c.start
      toServer := l.toServer ++ [.frame c.message]
      sent := l.sent ++ [c.message] } := by
  rw [call] at h
  split at h
  · rename_i hidle
    exact ⟨hidle, (Option.some.inj h).symm⟩
  · exact absurd h (by simp)

theorem receive_eq_some {l t : ClientLink} (h : l.receive = some t) :
    l.client ≠ .gone ∧ ∃ parcel rest, l.toClient = parcel :: rest ∧ t = { l with
      client := (l.client.read parcel).1
      toClient := rest
      toServer := l.toServer ++ (l.client.read parcel).2 } := by
  rw [receive] at h
  split at h
  · exact absurd h (by simp)
  · exact absurd h (by simp)
  · exact absurd h (by simp)
  · rename_i htoClient hgone _
    exact ⟨hgone, _, _, htoClient, (Option.some.inj h).symm⟩

theorem work_handler {l : ClientLink} {tasks : List SessionTask} (halive : l.alive = true)
    (hworker : l.worker = .looping) (htasks : l.tasks = .handler :: tasks) :
    l.work = runTask { l with tasks := tasks } := by
  simp only [work, halive, hworker, htasks]
  rfl

/-- A response is sent, or its frame cannot be built. -/
theorem runTask_respond {l t : ClientLink} {reply : Response} {next : Handling}
    (hpool : l.pool = .waiting (.respond reply next)) (h : l.runTask = some t) :
    t = { l with toClient := l.toClient ++ [.frame reply.message], pool := .running next } ∨
      t = { l with pool := .crashed } := by
  simp only [runTask, hpool] at h
  split at h
  · exact Or.inl (Option.some.inj h).symm
  · exact Or.inr (Option.some.inj h).symm

end ClientLink

theorem Round.call {l t : ClientLink} {c : ClientCall} (hl : Round l) (hc : c.Transferable)
    (h : l.call c = some t) : Round t := by
  obtain ⟨hidle, rfl⟩ := ClientLink.call_eq_some h
  cases hl with
  | serving hreads hagree hleft =>
    obtain rfl := hidle
    obtain ⟨rfl, rfl⟩ := hreads.of_idle
    obtain rfl := hagree.of_idle
    cases hleft with
    | free => exact .requested (c.awaits hc) (Or.inl rfl)
    | running => exact .requested (c.awaits hc) (Or.inr rfl)
    | waiting htask => exact absurd htask (by decide)
  | requested hawaits | submitted hawaits =>
    obtain rfl := hidle
    exact hawaits.not_idle.elim
  | asking hreads hwaits =>
    obtain rfl := hidle
    exact (hreads.not_idle hwaits).elim
  | uploading hwaits =>
    obtain rfl := hidle
    exact absurd hwaits (by decide)
  | crashed hreads hwaits =>
    obtain rfl := hidle
    exact (hreads.not_idle hwaits).elim
  | closed => exact ClientPhase.noConfusion hidle

theorem Round.receive {l t : ClientLink} (hl : Round l) (h : l.receive = some t) : Round t := by
  obtain ⟨hgone, parcel, rest, hclient, rfl⟩ := ClientLink.receive_eq_some h
  cases hl with
  | serving hreads hagree hleft =>
    obtain rfl := hclient
    obtain ⟨-, hsilent, hrest⟩ := hreads
    dsimp only
    rw [hsilent]
    exact .serving hrest hagree hleft
  | requested | submitted | uploading => exact absurd hclient (List.cons_ne_nil _ _).symm
  | @asking _ _ _ _ _ _ _ parcels _ hreads hwaits hread hwaits' hagree =>
    cases parcels with
    | nil =>
      obtain rfl := hreads
      obtain ⟨rfl, rfl⟩ := List.cons.inj hclient
      dsimp only
      rw [hread]
      exact .uploading hwaits' hagree
    | cons first parcels =>
      obtain ⟨rfl, rfl⟩ := List.cons.inj hclient
      obtain ⟨-, hsilent, hrest⟩ := hreads
      dsimp only
      rw [hsilent]
      exact .asking hrest hwaits hread hwaits' hagree
  | crashed hreads hwaits =>
    obtain rfl := hclient
    obtain ⟨-, hsilent, hrest⟩ := hreads
    dsimp only
    rw [hsilent]
    exact .crashed hrest hwaits
  | closed => exact absurd rfl hgone

/-- The worker runs the task of the handler. -/
theorem Round.runTask {name : Bytes} {rm : ReplicationManager} {client p : ClientPhase}
    {toClient : List Parcel} {left : Handling} {done : List Message} {t : ClientLink}
    (hreads : Reads client toClient p) (hagree : Agree p left)
    (h : ClientLink.runTask { name, rm, client, toClient, pool := .waiting left, suspended := true
                              sent := done, dispatched := done } = some t) : Round t := by
  cases hagree with
  | finish => exact absurd h (by simp [ClientLink.runTask])
  | @respond _ reply next hwaits hsilent hnext =>
    rcases ClientLink.runTask_respond rfl h with rfl | rfl
    · exact .serving (hreads.concat hwaits hsilent) hnext (.running next)
    · exact .crashed hreads hwaits
  | @sendFile _ data next hwaits hsize hsilent hnext =>
    simp only [ClientLink.runTask] at h
    rw [if_neg (Nat.not_lt.mpr hsize)] at h
    obtain rfl := Option.some.inj h
    exact .serving (hreads.concat hwaits hsilent) hnext (.running (next true))
  | upload hwaits hread hwaits' hnext =>
    obtain rfl := Option.some.inj h
    exact .asking hreads hwaits hread hwaits' hnext

theorem Round.work {l t : ClientLink} (hl : Round l) (h : l.work = some t) : Round t := by
  cases hl with
  | serving hreads hagree hleft =>
    cases hleft with
    | free => exact absurd h (by simp [ClientLink.work])
    | running left => exact absurd h (by simp [ClientLink.work])
    | waiting htask =>
      rw [ClientLink.work_handler rfl rfl rfl] at h
      exact .runTask hreads hagree h
  | requested hawaits hpool =>
    rcases hpool with rfl | rfl
    · obtain rfl := Option.some.inj h
      exact .submitted hawaits
    · -- the reads are suspended
      exact absurd h (by simp [ClientLink.work, PoolThread.isFree])
  | submitted => exact absurd h (by simp [ClientLink.work])
  | asking => exact absurd h (by simp [ClientLink.work])
  | uploading hwaits hagree =>
    obtain rfl := Option.some.inj h
    exact .serving rfl hagree (.running _)
  | crashed => exact absurd h (by simp [ClientLink.work])
  | @closed _ _ _ _ _ alive _ hclosing =>
    cases alive with
    | false => exact absurd h (by simp [ClientLink.work])
    | true =>
      cases hclosing with
      | waiting =>
        rw [ClientLink.work_handler rfl rfl rfl] at h
        rcases ClientLink.runTask_respond rfl h with rfl | rfl
        · exact .closed .responded
        · exact .closed .crashed
      | dispatched | responded | crashed | closed => exact absurd h (by simp [ClientLink.work])

theorem Round.serve {l t : ClientLink} {mg : Managers} {now : ℕ} {replies : List (StrMap Int32)}
    (hl : Round l) (hmg : l.pool.Transferable mg)
    (h : l.serve mg now replies = some t) : Round t := by
  cases hl with
  | serving hreads hagree hleft => cases hleft <;> exact absurd h (by simp [ClientLink.serve])
  | requested hawaits hpool =>
    rcases hpool with rfl | rfl <;> exact absurd h (by simp [ClientLink.serve])
  | submitted hawaits =>
    obtain rfl := Option.some.inj h
    rcases hawaits with ⟨rfl, rfl⟩ | ⟨hwaits, hagree⟩
    · exact .closed .dispatched
    · -- the lock table does not say what is read
      exact .serving rfl (hagree (ClientLink.managers _ mg now replies) hmg) (.running _)
  | asking | uploading | crashed => exact absurd h (by simp [ClientLink.serve])
  | closed hclosing => cases hclosing <;> exact absurd h (by simp [ClientLink.serve])

theorem Round.handle {l t : ClientLink} (hl : Round l) (h : l.handle = some t) : Round t := by
  cases hl with
  | serving hreads hagree hleft =>
    cases hleft with
    | free | waiting => exact absurd h (by simp [ClientLink.handle])
    | running =>
      cases hagree with
      | finish =>
        obtain rfl := Option.some.inj h
        exact .serving hreads .finish .free
      | respond hwaits hsilent hnext =>
        obtain rfl := Option.some.inj h
        exact .serving hreads (.respond hwaits hsilent hnext) (.waiting rfl)
      | sendFile hwaits hsize hsilent hnext =>
        obtain rfl := Option.some.inj h
        exact .serving hreads (.sendFile hwaits hsize hsilent hnext) (.waiting rfl)
      | upload hwaits hread hwaits' hnext =>
        obtain rfl := Option.some.inj h
        exact .serving hreads (.upload hwaits hread hwaits' hnext) (.waiting rfl)
  | requested hawaits hpool =>
    rcases hpool with rfl | rfl
    · exact absurd h (by simp [ClientLink.handle])
    · obtain rfl := Option.some.inj h
      exact .requested hawaits (Or.inl rfl)
  | submitted | asking | uploading | crashed => exact absurd h (by simp [ClientLink.handle])
  | closed hclosing =>
    cases hclosing with
    | dispatched =>
      obtain rfl := Option.some.inj h
      exact .closed .waiting
    | responded =>
      obtain rfl := Option.some.inj h
      exact .closed .closed
    | waiting | crashed | closed => exact absurd h (by simp [ClientLink.handle])

theorem Round.throws {l t : ClientLink} (hl : Round l) (h : l.throws = some t) : Round t := by
  cases hl with
  | serving hreads hagree hleft =>
    cases hleft with
    | free | waiting => exact absurd h (by simp [ClientLink.throws])
    | running =>
      cases hagree with
      | respond hwaits =>
        obtain rfl := Option.some.inj h
        exact .crashed hreads hwaits
      | finish | sendFile | upload => exact absurd h (by simp [ClientLink.throws])
  | requested hawaits hpool =>
    rcases hpool with rfl | rfl <;> exact absurd h (by simp [ClientLink.throws])
  | submitted | asking | uploading | crashed => exact absurd h (by simp [ClientLink.throws])
  | closed hclosing =>
    cases hclosing with
    | dispatched =>
      obtain rfl := Option.some.inj h
      exact .closed .crashed
    | waiting | responded | crashed | closed => exact absurd h (by simp [ClientLink.throws])

theorem Round.locks {l : ClientLink} (hl : Round l) (rm : ReplicationManager) :
    Round { l with rm := rm } := by
  cases hl with
  | serving hreads hagree hleft => exact .serving hreads hagree hleft
  | requested hawaits hpool => exact .requested hawaits hpool
  | submitted hawaits => exact .submitted hawaits
  | asking hreads hwaits hread hwaits' hagree => exact .asking hreads hwaits hread hwaits' hagree
  | uploading hwaits hagree => exact .uploading hwaits hagree
  | crashed hreads hwaits => exact .crashed hreads hwaits
  | closed hclosing => exact .closed hclosing

/-! ### Whole runs -/

/-- A step of one of the server's threads for the session. -/
def LinkEvent.ofServer : LinkEvent → Bool
  | .work | .serve _ _ _ | .handle | .throws => true
  | _ => false

/-- The managers of a server that has no file. -/
def Managers.empty : Managers where
  propagateCreateFile _ _ _ := false
  getFileFromDataNode _ := none
  getKnownVersion _ := -1
  propagateUpdateFile _ _ _ := -1
  getFileVersionMap := ∅
  acquireLock _ := false
  releaseLock _ := false

namespace ClientLink

/-- No lock of the client is found expired, and the files fit into a transfer. -/
def Calm (l : ClientLink) : LinkEvent → Prop
  | .call c => c.Transferable
  | .serve mg _ _ => l.pool.Transferable mg
  | .sweep now => l.expiries now = []
  | _ => True

instance (l : ClientLink) : (e : LinkEvent) → Decidable (l.Calm e)
  | .call c => inferInstanceAs (Decidable c.Transferable)
  | .serve mg _ _ => inferInstanceAs (Decidable (l.pool.Transferable mg))
  | .sweep now => inferInstanceAs (Decidable (l.expiries now = []))
  | .receive | .work | .handle | .throws | .locks _ => isTrue True.intro

/-- The steps of the server's threads before the last request is dispatched. -/
def distance (l : ClientLink) : ℕ :=
  if l.sent = l.dispatched then 0
  else match l.pool with
    | .submitted _ => 1
    | .free => 2
    | _ => 3

theorem distance_of_pending {l : ClientLink} (h : l.dispatched ≠ l.sent) :
    l.distance = match l.pool with
      | .submitted _ => 1
      | .free => 2
      | _ => 3 := by
  rw [distance, if_neg (Ne.symm h)]

theorem eq_of_distance {l : ClientLink} (h : l.distance = 0) : l.sent = l.dispatched := by
  by_contra hne
  rw [distance_of_pending (Ne.symm hne)] at h
  split at h <;> omega

theorem distance_le (l : ClientLink) : l.distance ≤ 3 := by
  rw [distance]
  split
  · exact Nat.zero_le 3
  · split <;> decide

end ClientLink

/-- **One step**: the rounds are all there is. -/
theorem Round.step {l t : ClientLink} {e : LinkEvent} (hl : Round l) (hcalm : l.Calm e)
    (h : l.step e = some t) : Round t := by
  cases e with
  | call c => exact hl.call hcalm h
  | receive => exact hl.receive h
  | work => exact hl.work h
  | serve mg now replies => exact hl.serve hcalm h
  | handle => exact hl.handle h
  | throws => exact hl.throws h
  | sweep now =>
    obtain rfl := Option.some.inj h
    have htasks : l.sweep now = { l with rm := (l.rm.checkFileLockExpiration now).1 } := by
      have hexpiries : l.expiries now = [] := hcalm
      rw [ClientLink.sweep, hexpiries, List.map_nil, List.append_nil]
    rw [htasks]
    exact hl.locks _
  | locks rm =>
    obtain rfl := Option.some.inj h
    exact hl.locks rm

theorem Round.pending {l : ClientLink} (hl : Round l) :
    l.dispatched = l.sent ∨ ∃ msg, l.sent = l.dispatched ++ [msg] := by
  cases hl with
  | serving | asking | uploading | crashed | closed => exact Or.inl rfl
  | requested | submitted => exact Or.inr ⟨_, rfl⟩

/-- While a request is pending, a thread of the server can take a step. -/
theorem Round.enabled {l : ClientLink} (hl : Round l) (hpending : l.dispatched ≠ l.sent) :
    ∃ e t, e.ofServer = true ∧ l.Calm e ∧ l.step e = some t := by
  cases hl with
  | serving | asking | uploading | crashed | closed => exact absurd rfl hpending
  | requested hawaits hpool =>
    rcases hpool with rfl | rfl
    · exact ⟨.work, _, rfl, True.intro, rfl⟩
    · exact ⟨.handle, _, rfl, True.intro, rfl⟩
  | submitted hawaits =>
    refine ⟨.serve .empty 0 [], _, rfl, fun _ => ?_, rfl⟩
    exact Nat.zero_le _

/-- Each step of these threads brings it nearer: the pool thread returns, the worker
hands the request over, the pool takes it up. -/
theorem Round.nearer {l t : ClientLink} {e : LinkEvent} (hl : Round l)
    (hpending : l.dispatched ≠ l.sent) (he : e.ofServer = true) (h : l.step e = some t) :
    t.sent = l.sent ∧ t.distance < l.distance := by
  rw [ClientLink.distance_of_pending hpending]
  cases hl with
  | serving | asking | uploading | crashed | closed => exact absurd rfl hpending
  | requested hawaits hpool =>
    rcases hpool with rfl | rfl
    · cases e with
      | work =>
        obtain rfl := Option.some.inj h
        refine ⟨rfl, ?_⟩
        rw [ClientLink.distance_of_pending]
        · show 1 < 2
          decide
        · exact hpending
      | serve | handle | throws =>
        exact absurd h (by simp [ClientLink.step, ClientLink.serve, ClientLink.handle,
          ClientLink.throws])
      | call | receive | sweep | locks => exact absurd he (by simp [LinkEvent.ofServer])
    · cases e with
      | handle =>
        obtain rfl := Option.some.inj h
        refine ⟨rfl, ?_⟩
        rw [ClientLink.distance_of_pending]
        · show 2 < 3
          decide
        · exact hpending
      | work | serve | throws =>
        exact absurd h (by simp [ClientLink.step, ClientLink.serve, ClientLink.work,
          ClientLink.throws, PoolThread.isFree])
      | call | receive | sweep | locks => exact absurd he (by simp [LinkEvent.ofServer])
  | submitted hawaits =>
    cases e with
    | serve mg now replies =>
      obtain rfl := Option.some.inj h
      refine ⟨rfl, ?_⟩
      rw [ClientLink.distance, if_pos rfl]
      exact Nat.zero_lt_one
    | work | handle | throws =>
      exact absurd h (by simp [ClientLink.step, ClientLink.work, ClientLink.handle,
        ClientLink.throws])
    | call | receive | sweep | locks => exact absurd he (by simp [LinkEvent.ofServer])

/-- The client sends nothing meanwhile, and nothing takes the request back. -/
theorem Round.advance {l t : ClientLink} {e : LinkEvent} (hl : Round l)
    (hpending : l.dispatched ≠ l.sent) (h : l.step e = some t) :
    t.sent = l.sent ∧ t.distance + (if e.ofServer then 1 else 0) ≤ l.distance := by
  by_cases he : e.ofServer = true
  · rw [if_pos he]
    exact hl.nearer hpending he h
  · -- a client with a pending request waits, and there is nothing for it to read
    have hclient : l.client ≠ .idle ∧ l.toClient = [] := by
      cases hl with
      | serving | asking | uploading | crashed | closed => exact absurd rfl hpending
      | requested hawaits | submitted hawaits =>
        refine ⟨?_, rfl⟩
        rintro rfl
        exact hawaits.not_idle
    rw [if_neg he]
    cases e with
    | work | serve | handle | throws => exact absurd rfl he
    | call c => exact absurd (ClientLink.call_eq_some h).1 hclient.1
    | receive =>
      obtain ⟨-, parcel, rest, hcons, -⟩ := ClientLink.receive_eq_some h
      exact absurd (hcons.symm.trans hclient.2) (List.cons_ne_nil _ _)
    | sweep now | locks rm =>
      obtain rfl := Option.some.inj h
      exact ⟨rfl, Nat.le_refl _⟩

theorem dispatched_step {l t : ClientLink} {e : LinkEvent} (h : l.step e = some t) :
    l.dispatched <+: t.dispatched := by
  cases e with
  | call c =>
    obtain ⟨-, rfl⟩ := ClientLink.call_eq_some h
    exact List.prefix_refl _
  | receive =>
    obtain ⟨-, parcel, rest, -, rfl⟩ := ClientLink.receive_eq_some h
    exact List.prefix_refl _
  | serve mg now replies =>
    simp only [ClientLink.step, ClientLink.serve] at h
    split at h
    · obtain rfl := Option.some.inj h
      exact List.prefix_append _ _
    · exact absurd h (by simp)
  | work | handle | throws =>
    have hsame : t.dispatched = l.dispatched := by
      simp only [ClientLink.step, ClientLink.work, ClientLink.handle, ClientLink.throws] at h
      grind [ClientLink.runTask]
    exact hsame ▸ List.prefix_refl _
  | sweep now | locks rm =>
    obtain rfl := Option.some.inj h
    exact List.prefix_refl _

theorem dispatched_run {l t : ClientLink} {events : List LinkEvent}
    (h : Runs.run ClientLink.step l events = some t) : l.dispatched <+: t.dispatched := by
  refine Runs.run_invariant (P := fun s => l.dispatched <+: s.dispatched) ?_ (List.prefix_refl _)
    (Runs.Meets.trivial l events) h
  intro s e u hs _ hstep
  exact hs.trans (dispatched_step hstep)

/-- **Within so many steps of the server** the pending request is dispatched. -/
theorem Round.delivers {l t : ClientLink} {events : List LinkEvent} (hl : Round l)
    (hmeets : Runs.Meets ClientLink.step ClientLink.Calm l events)
    (hrun : Runs.run ClientLink.step l events = some t)
    (hcount : l.distance ≤ events.countP LinkEvent.ofServer) : l.sent <+: t.dispatched := by
  induction events generalizing l with
  | nil =>
    obtain rfl : l = t := Option.some.inj hrun
    have hzero : l.distance = 0 := Nat.le_zero.mp hcount
    exact ClientLink.eq_of_distance hzero ▸ List.prefix_refl _
  | cons e events ih =>
    by_cases hpending : l.dispatched = l.sent
    · exact hpending ▸ dispatched_run hrun
    · obtain ⟨u, hu, hrest⟩ := Runs.run_cons hrun
      obtain ⟨hsent, hdistance⟩ := hl.advance hpending hu
      rw [← hsent]
      refine ih (hl.step hmeets.1 hu) (hmeets.2 u hu) hrest ?_
      rw [List.countP_cons] at hcount
      omega

/-- **When every request of a client is dispatched exactly once.**  Take any run of the
client, the threads of the server and the rest of the cluster, in which no lock of this
client is found expired and no file is over the limit of a transfer.  In the state it
reaches, the messages that `handleClientRequest` has got are those the client has sent,
each once and in order, up to the last one, which may be on the way.  If it is, some
thread of the server can go on, and after any three steps of these threads the message
has been dispatched. -/
theorem requests_dispatched_once (name : Bytes) (rm : ReplicationManager)
    (events : List LinkEvent) (l : ClientLink)
    (hmeets : Runs.Meets ClientLink.step ClientLink.Calm { name, rm } events)
    (hrun : Runs.run ClientLink.step { name, rm } events = some l) :
    (l.dispatched = l.sent ∨ ∃ msg, l.sent = l.dispatched ++ [msg]) ∧
    (l.dispatched ≠ l.sent → ∃ e t, e.ofServer = true ∧ l.Calm e ∧ l.step e = some t) ∧
    ∀ later t, Runs.Meets ClientLink.step ClientLink.Calm l later →
      Runs.run ClientLink.step l later = some t → 3 ≤ later.countP LinkEvent.ofServer →
      l.sent <+: t.dispatched := by
  have hstart : Round { name, rm } := .serving rfl .finish .free
  have hl : Round l :=
    Runs.run_invariant (fun _ _ _ hs hcalm hstep => hs.step hcalm hstep) hstart hmeets hrun
  refine ⟨hl.pending, hl.enabled, fun later t hlater hrun' hcount => ?_⟩
  exact hl.delivers hlater hrun' (l.distance_le.trans hcount)

/-- A HEARTBEAT is answered, a file is uploaded up to its ACK, and the sweep finds no
lock: three steps of the server later the upload has been dispatched. -/
theorem requests_dispatched_once_sample :
    let start : ClientLink := { name := [99], rm := ReplicationManager.start 1 none }
    let events : List LinkEvent :=
      [.call (.rpc .heartbeat), .work, .serve .empty 0 [], .handle, .work, .receive,
        .call (.rpc (.createFile [97] 1 [104, 105])), .sweep 7]
    let later : List LinkEvent := [.handle, .work, .serve .empty 8 []]
    ∃ l t, Runs.Meets ClientLink.step ClientLink.Calm start events ∧
      Runs.run ClientLink.step start events = some l ∧ l.dispatched ≠ l.sent ∧
      Runs.Meets ClientLink.step ClientLink.Calm l later ∧
      Runs.run ClientLink.step l later = some t ∧ l.sent <+: t.dispatched := by
  intro start events later
  have hmeets : Runs.Meets ClientLink.step ClientLink.Calm start events := by decide
  have hrun : Runs.run ClientLink.step start events
      = some ((Runs.run ClientLink.step start events).getD start) := by rfl
  have hresult :=
    requests_dispatched_once [99] (ReplicationManager.start 1 none) events _ hmeets hrun
  refine ⟨_, (Runs.run ClientLink.step start (events ++ later)).getD start, hmeets, hrun,
    by decide, by decide, by rfl, hresult.2.2 later _ (by decide) (by rfl) (by decide)⟩

/-- The lock of the client expires and the server asks for it; the HEARTBEAT that the
client sends next is taken for the reply.  It is nowhere on the way, and the handler
has not got it. -/
theorem expiry_swallows_request :
    let rm : ReplicationManager := { ReplicationManager.start 1 none with
      clientEndpointMap := (∅ : StrSet).insert [99]
      fileLockMap := (∅ : StrMap FileLock).insert [97] {} }
    let events : List LinkEvent :=
      [.call (.rpc (.acquireLock [97])), .work, .serve .empty 0 [], .handle, .work, .receive,
        .handle, .sweep (lockInterval + 1), .work, .receive, .call (.rpc .heartbeat), .work]
    ∃ l, Runs.run ClientLink.step { name := [99], rm } events = some l ∧
      l.sent = [(ClientCall.rpc (.acquireLock [97])).message,
        (ClientCall.rpc .heartbeat).message] ∧
      l.dispatched = [(ClientCall.rpc (.acquireLock [97])).message] ∧
      l.toServer = [] ∧ l.tasks = [] ∧ l.pool.isFree = true := by
  intro rm events
  exact ⟨(Runs.run ClientLink.step { name := [99], rm } events).getD { name := [99], rm },
    by rfl, by decide, by decide, by decide, by decide, by decide⟩

end Squid
