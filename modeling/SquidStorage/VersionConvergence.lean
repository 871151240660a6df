/-
When the client's version map is the server's.

`expected` is the map that the client will have once it has read all that is on its
way.  While a push of a file is owed, or its delete is announced and not committed,
that map and the server's may differ at the file, and at no other: this is what each
step keeps, as long as it is `Orderly`.

* `getElem?_expected_push` — what a push that is posted now will do;
* `Coherent.step` — the step lemma, from one lemma for each event;
* `own_write_iff` — when a write of the client keeps the two maps equal;
* `versions_converge` — in a run of orderly steps they agree when the client is at rest,
  up to deletes that are pushed and not committed;
* `created_file_unlisted` — a file that the client has created itself is missing in its
  map, and one that was deleted while it was away stays.
-/
import SquidStorage.ClientVersions
import SquidStorage.Runs

open LastWrite

namespace Squid

/-! ### The map that is on its way -/

namespace Exchange

/-- The reply that is still to be posted. -/
def pending : Exchange → List Delivery
  | answered _ reply => [.reply reply]
  | idle | asked _ | sent _ => []

/-- The replies on their way. -/
def replies : Exchange → ℕ
  | sent _ => 1
  | idle | asked _ | answered .. => 0

theorem call_eq_none_iff {exchange : Exchange} : exchange.call = none ↔ exchange = idle := by
  cases exchange <;> simp [call]

/-- The request that is to be handled. -/
def request : Exchange → Option OwnCall
  | asked call => some call
  | idle | answered .. | sent _ => none

/-- The reply that the client's handler is about to post says what the push says of its
file, or nothing. -/
def Passes (versions : StrMap Int32) (task : PushTask) : Exchange → Prop
  | answered call reply =>
    (call = .syncStatus → (call.note versions reply)[task.path]? = task.version) ∧
      call.path ≠ some task.path
  | idle | asked _ | sent _ => True

instance (versions : StrMap Int32) (task : PushTask) : DecidablePred (Passes versions task)
  | answered .. => inferInstanceAs (Decidable (_ ∧ _))
  | idle | asked _ | sent _ => isTrue True.intro

end Exchange

/-- What the client makes of a delivery, waiting in a call or not: `syncStatus` passes
over the pushes, and any call is over with its reply. -/
def settle (client : StrMap Int32 × Option OwnCall) : Delivery → StrMap Int32 × Option OwnCall
  | .push task =>
    (if client.2 = some .syncStatus then client.1 else task.note client.1, client.2)
  | .reply reply => (client.2.elim client.1 fun call => call.note client.1 reply, none)

theorem countP_push (stream : List Delivery) (task : PushTask) :
    (stream ++ [Delivery.push task]).countP Delivery.isReply = stream.countP Delivery.isReply := by
  rw [List.countP_append]
  rfl

section Settle

variable (m : StrMap Int32) (call : Option OwnCall) {l : List Delivery}

theorem foldl_settle_snd (l : List Delivery) :
    (l.foldl settle (m, call)).2 = if l.countP Delivery.isReply = 0 then call else none := by
  induction l generalizing m call with
  | nil => rfl
  | cons d l ih =>
    cases d with
    | push task =>
      rw [List.foldl_cons, settle, ih]
      rfl
    | reply reply =>
      rw [List.foldl_cons, settle, ih, List.countP_cons_of_pos rfl, if_neg (Nat.succ_ne_zero _)]
      split <;> rfl

/-- Pushes are read in a call as they are between calls, but for `syncStatus`. -/
theorem foldl_settle_waiting (hpushes : l.countP Delivery.isReply = 0)
    (hcall : call ≠ some .syncStatus) :
    (l.foldl settle (m, call)).1 = (l.foldl settle (m, none)).1 := by
  induction l generalizing m with
  | nil => rfl
  | cons d l ih =>
    cases d with
    | push task =>
      rw [List.foldl_cons, List.foldl_cons, settle, settle, if_neg hcall, if_neg (by simp)]
      exact ih (task.note m) hpushes
    | reply reply => simp [List.countP_cons, Delivery.isReply] at hpushes

/-- `syncStatus` passes over the pushes. -/
theorem foldl_settle_syncStatus (hpushes : l.countP Delivery.isReply = 0) :
    l.foldl settle (m, some .syncStatus) = (m, some .syncStatus) := by
  induction l with
  | nil => rfl
  | cons d l ih =>
    cases d with
    | push task =>
      rw [List.foldl_cons, settle, if_pos rfl]
      exact ih hpushes
    | reply reply => simp [List.countP_cons, Delivery.isReply] at hpushes

end Settle

/-- The map of the client once it has read all that is on its way. -/
def readOut (versions : StrMap Int32) (exchange : Exchange) (stream : List Delivery) :
    StrMap Int32 :=
  ((stream ++ exchange.pending).foldl settle (versions, exchange.call)).1

section ReadOut

variable {versions : StrMap Int32} {exchange : Exchange} {stream : List Delivery} {call : OwnCall}
  {task : PushTask}

theorem readOut_eq (hpending : exchange.pending = []) :
    readOut versions exchange stream = (stream.foldl settle (versions, exchange.call)).1 := by
  rw [readOut, hpending, List.append_nil]

theorem readOut_answered (hpushes : stream.countP Delivery.isReply = 0) (reply : Response) :
    readOut versions (.answered call reply) stream
      = call.note (stream.foldl settle (versions, some call)).1 reply := by
  have hcall : (stream.foldl settle (versions, some call)).2 = some call := by
    rw [foldl_settle_snd, if_pos hpushes]
  rw [readOut, List.foldl_append]
  show ((stream.foldl settle (versions, some call)).2.elim _ _) = _
  rw [hcall]
  rfl

/-- An answer to SYNC_STATUS is merged into the map that the client has now. -/
theorem readOut_syncStatus (hpushes : stream.countP Delivery.isReply = 0) (reply : Response) :
    readOut versions (.answered .syncStatus reply) stream
      = OwnCall.note versions reply .syncStatus := by
  rw [readOut_answered hpushes, foldl_settle_syncStatus versions hpushes]

/-- With no reply to come, a push that is posted is the last thing to be read. -/
theorem readOut_push (hpending : exchange.pending = [])
    (hcall : (stream.foldl settle (versions, exchange.call)).2 ≠ some .syncStatus) :
    readOut versions exchange (stream ++ [.push task])
      = task.note (readOut versions exchange stream) := by
  rw [readOut_eq hpending, readOut_eq hpending, List.foldl_append]
  exact if_neg hcall

/-- Otherwise it is read before the reply. -/
theorem readOut_push_answered (hpushes : stream.countP Delivery.isReply = 0)
    (hcall : call ≠ .syncStatus) (reply : Response) :
    readOut versions (.answered call reply) (stream ++ [.push task])
      = call.note (task.note (stream.foldl settle (versions, some call)).1) reply := by
  have hwait : (stream.foldl settle (versions, some call)).2 ≠ some .syncStatus := by
    rw [foldl_settle_snd, if_pos hpushes]
    simpa using hcall
  rw [readOut_answered ((countP_push stream task).trans hpushes), List.foldl_append]
  exact congrArg (fun m => OwnCall.note m reply call) (if_neg hwait)

end ReadOut

namespace ClientView

@[inherit_doc readOut]
def expected (s : ClientView) : StrMap Int32 := readOut s.versions s.exchange s.stream

/-- The map that is on its way comes from an answer to SYNC_STATUS on this connection. -/
def current (s : ClientView) : Bool :=
  match s.exchange with
  | .idle => s.synced
  | .asked call => call != .syncStatus && s.synced
  | .answered call _ | .sent call => call == .syncStatus || s.synced

/-- The files with a push that is owed or a delete that is not committed. -/
def outstanding (s : ClientView) : List Bytes := s.owed.map PushTask.path ++ s.ahead

/-! ### Orderly steps -/

/-- The commit of another request finds nothing outstanding for its file, and the client
hears of it: a put goes to its session, a delete has been pushed. -/
def OrderlyCommit (s : ClientView) (listed : Bool) : PushTask → Prop
  | .pushDeleteFile filePath =>
    filePath ∈ s.ahead ∨ (filePath ∉ s.outstanding ∧ s.current = false)
  | .pushCreateFile filePath _ _ | .pushUpdateFile filePath _ _ =>
    filePath ≠ [] ∧ filePath ∉ s.outstanding ∧ (s.current = true → listed = true)

instance (s : ClientView) (listed : Bool) : DecidablePred (s.OrderlyCommit listed)
  | .pushDeleteFile _ => inferInstanceAs (Decidable (_ ∨ _))
  | .pushCreateFile .. | .pushUpdateFile .. => inferInstanceAs (Decidable (_ ∧ _))

/-- The client's own request: a write is reported and finds nothing outstanding for its
file; SYNC_STATUS finds no file in the client's map that the server does not have, and
no delete that is announced and still to be committed. -/
def OrderlyAnswer (s : ClientView) (answers : CallAnswers) (call : OwnCall) : Prop :=
  (call = .syncStatus →
    (∀ r ∈ answers.status, s.sys.rm.Committed r) ∧
      (∀ file ∈ s.versions.toList, file.1 ∈ s.sys.rm.persistedVersionMap) ∧
      ∀ p ∈ s.ahead, p ∉ s.sys.rm.persistedVersionMap) ∧
    (∀ p ∈ s.outstanding, call.path ≠ some p) ∧
    (s.current = true → call.Reported s.sys answers)

instance (s : ClientView) (answers : CallAnswers) (call : OwnCall) :
    Decidable (s.OrderlyAnswer answers call) :=
  inferInstanceAs (Decidable (_ ∧ _))

end ClientView

/-- The versions that a datanode reports when it registers. -/
def ServerEvent.reported : ServerEvent → StrMap Int32
  | .register _ _ fileVersionMap _ => fileVersionMap
  | .create .. | .update .. | .delete .. | .read .. | .loseEndpoint .. | .evict .. => ∅

namespace ClientView

/-- The condition on a step, in the state before it. -/
def Orderly (s : ClientView) : ViewEvent → Prop
  | .server event listed =>
    s.sys.rm.Committed event.reported ∧
      ∀ task ∈ s.sys.pushTask? event, s.OrderlyCommit listed task
  | .announce filePath =>
    filePath ≠ [] ∧ filePath ∉ s.outstanding ∧
      s.exchange.Passes s.versions (.pushDeleteFile filePath)
  | .post task => s.exchange.Passes s.versions task
  | .handle answers => ∀ call ∈ s.exchange.request, s.OrderlyAnswer answers call
  | .call _ | .respond | .receive | .disconnect | .reconnect .. => True

instance (s : ClientView) : DecidablePred s.Orderly
  | .server .. | .announce _ => inferInstanceAs (Decidable (_ ∧ _))
  | .post task => inferInstanceAs (Decidable (s.exchange.Passes s.versions task))
  | .handle _ => inferInstanceAs (Decidable (∀ _ ∈ s.exchange.request, _))
  | .call _ | .respond | .receive | .disconnect | .reconnect .. => isTrue True.intro

/-! ### What the steps do to the map on its way -/

variable {s t : ClientView}

/-- A push that is posted before a reply is read before it, and the reply says the same of
its file. -/
theorem getElem?_readOut_answered {versions : StrMap Int32} {stream : List Delivery}
    {task : PushTask} (hpath : task.path ≠ []) (hpushes : stream.countP Delivery.isReply = 0)
    {call : OwnCall} {reply : Response}
    (hpasses : (Exchange.answered call reply).Passes versions task) (q : Bytes) :
    (readOut versions (.answered call reply) (stream ++ [.push task]))[q]?
      = if task.path = q then task.version
        else (readOut versions (.answered call reply) stream)[q]? := by
  obtain ⟨hsync, hother⟩ := hpasses
  cases hcallPath : call.path with
  | none =>
    -- the push is passed over, and the answer to SYNC_STATUS has its version
    obtain rfl := OwnCall.path_eq_none_iff.mp hcallPath
    rw [readOut_syncStatus hpushes, readOut_syncStatus ((countP_push stream task).trans hpushes)]
    split
    · rename_i hq
      rw [← hq, hsync rfl]
    · rfl
  | some p =>
    -- the reply is about another file
    have hne : task.path ≠ p := by
      rintro rfl
      exact hother hcallPath
    rw [readOut_push_answered hpushes (OwnCall.ne_syncStatus hcallPath), readOut_answered hpushes]
    split
    · rename_i hq
      rw [← hq, OwnCall.getElem?_note_of_ne hcallPath hne, PushTask.getElem?_note _ hpath,
        if_pos rfl]
    · rename_i hq
      refine OwnCall.getElem?_note_congr ?_ call reply
      rw [PushTask.getElem?_note _ hpath, if_neg hq]

/-- A push that is posted is read in its turn: after what is on its way, and before the
reply that is still to be posted. -/
theorem getElem?_expected_push {task : PushTask} (hpath : task.path ≠ [])
    (hreplies : s.stream.countP Delivery.isReply = s.exchange.replies)
    (hcurrent : s.current = true) (hpasses : s.exchange.Passes s.versions task) (q : Bytes) :
    (readOut s.versions s.exchange (s.stream ++ [.push task]))[q]?
      = if task.path = q then task.version else s.expected[q]? := by
  have hsnd := foldl_settle_snd s.versions s.exchange.call s.stream
  rw [expected]
  cases hex : s.exchange with
  | idle =>
    rw [hex] at hsnd
    rw [readOut_push rfl (by rw [hsnd]; split <;> simp [Exchange.call]),
      PushTask.getElem?_note _ hpath]
  | asked call =>
    have hcall : call ≠ .syncStatus := by
      rintro rfl
      simp [current, hex] at hcurrent
    rw [hreplies, hex] at hsnd
    rw [readOut_push rfl (by rw [hsnd]; simpa [Exchange.replies, Exchange.call] using hcall),
      PushTask.getElem?_note _ hpath]
  | sent call =>
    rw [hreplies, hex] at hsnd
    rw [readOut_push rfl (by rw [hsnd]; simp [Exchange.replies]), PushTask.getElem?_note _ hpath]
  | answered call reply =>
    have hpushes : s.stream.countP Delivery.isReply = 0 := by rw [hreplies, hex]; rfl
    rw [hex] at hpasses
    exact getElem?_readOut_answered hpath hpushes hpasses q

/-! ### The invariant -/

/-- The map on its way differs from the server's at outstanding files only. -/
structure Coherent (s : ClientView) : Prop where
  replies : s.stream.countP Delivery.isReply = s.exchange.replies
  owed : ∀ task ∈ s.owed, task.path ≠ [] ∧ task.path ∉ s.ahead ∧
    s.sys.rm.persistedVersionMap[task.path]? = task.version
  settled : s.current = true → ∀ q : Bytes, q ∉ s.outstanding →
    s.expected[q]? = s.sys.rm.persistedVersionMap[q]?
  deleted : s.current = true → ∀ q ∈ s.ahead, s.expected[q]? = none

theorem mem_outstanding {q : Bytes} :
    q ∈ s.outstanding ↔ (∃ task ∈ s.owed, task.path = q) ∨ q ∈ s.ahead := by
  rw [outstanding, List.mem_append, List.mem_map]

namespace Coherent

/-- With no reply on its way, all that is are pushes. -/
theorem pushes (h : s.Coherent) {exchange : Exchange} (hex : s.exchange = exchange)
    (hnone : exchange.replies = 0) : s.stream.countP Delivery.isReply = 0 := by
  rw [h.replies, hex, hnone]

/-- A step that keeps the server, what is outstanding and the map on its way. -/
theorem of_expected (h : s.Coherent) (hsys : t.sys = s.sys) (howed : t.owed = s.owed)
    (hahead : t.ahead = s.ahead)
    (hreplies : t.stream.countP Delivery.isReply = t.exchange.replies)
    (hcurrent : t.current = true → s.current = true ∧ t.expected = s.expected) : t.Coherent := by
  refine ⟨hreplies, ?_, fun hc q hq => ?_, fun hc q hq => ?_⟩
  · rw [howed, hahead, hsys]
    exact h.owed
  · obtain ⟨hcs, hexp⟩ := hcurrent hc
    rw [outstanding, howed, hahead] at hq
    rw [hexp, hsys]
    exact h.settled hcs q hq
  · obtain ⟨hcs, hexp⟩ := hcurrent hc
    rw [hahead] at hq
    rw [hexp]
    exact h.deleted hcs q hq

/-- A connection that has no answer to SYNC_STATUS, and nothing that is owed. -/
theorem of_new (howed : t.owed = []) (hexchange : t.exchange = .idle) (hsynced : t.synced = false)
    (hpushes : t.stream.countP Delivery.isReply = 0) : t.Coherent := by
  have hcurrent : ¬ t.current = true := by simp [current, hexchange, hsynced]
  refine ⟨by rw [hpushes, hexchange]; rfl, ?_, fun hc => absurd hc hcurrent,
    fun hc => absurd hc hcurrent⟩
  rw [howed]
  intro task htask
  simp at htask

/-! #### Commits of other requests -/

theorem put (h : s.Coherent) {event : ServerEvent} {task : PushTask} {listed : Bool}
    (hpush : s.sys.pushTask? event = some task) (hpath : task.path ≠ [])
    (hnew : task.path ∉ s.outstanding) (hlisted : s.current = true → listed = true) :
    Coherent { s with
      sys := s.sys.step event, owed := if listed then s.owed ++ [task] else s.owed } := by
  have hsame : ∀ q : Bytes, task.path ≠ q →
      (s.sys.step event).rm.persistedVersionMap[q]? = s.sys.rm.persistedVersionMap[q]? := by
    intro q hq
    rw [System.persistedVersionMap_push hpush, if_neg hq]
  have hold : ∀ task' ∈ s.owed, task'.path ≠ [] ∧ task'.path ∉ s.ahead ∧
      (s.sys.step event).rm.persistedVersionMap[task'.path]? = task'.version := by
    intro task' htask'
    obtain ⟨hpath', hahead, hversion⟩ := h.owed task' htask'
    refine ⟨hpath', hahead, ?_⟩
    rw [hsame, hversion]
    intro heq
    exact hnew (mem_outstanding.mpr (Or.inl ⟨task', htask', heq.symm⟩))
  refine ⟨h.replies, fun task' htask' => ?_, fun hc q hq => ?_, h.deleted⟩
  · cases listed with
    | false => exact hold task' htask'
    | true =>
      rcases List.mem_append.mp htask' with hin | hin
      · exact hold task' hin
      · obtain rfl := List.mem_singleton.mp hin
        refine ⟨hpath, fun hmem => hnew (mem_outstanding.mpr (Or.inr hmem)), ?_⟩
        rw [System.persistedVersionMap_push hpush, if_pos rfl]
  · obtain rfl := hlisted hc
    rw [mem_outstanding, not_or] at hq
    have hne : task.path ≠ q := fun heq =>
      hq.1 ⟨task, List.mem_append_right _ (List.mem_singleton_self _), heq⟩
    refine (h.settled hc q ?_).trans (hsame q hne).symm
    rw [mem_outstanding, not_or]
    refine ⟨?_, hq.2⟩
    rintro ⟨task', hin, heq⟩
    exact hq.1 ⟨task', List.mem_append_left _ hin, heq⟩

theorem delete (h : s.Coherent) {event : ServerEvent} {p : Bytes}
    (hpush : s.sys.pushTask? event = some (.pushDeleteFile p))
    (horder : p ∈ s.ahead ∨ (p ∉ s.outstanding ∧ s.current = false)) :
    Coherent { s with sys := s.sys.step event, ahead := s.ahead.erase p } := by
  have hstep : ∀ q : Bytes, (s.sys.step event).rm.persistedVersionMap[q]?
      = if p = q then none else s.sys.rm.persistedVersionMap[q]? :=
    System.persistedVersionMap_push hpush
  refine ⟨h.replies, fun task htask => ?_, fun hc q hq => ?_, fun hc q hq => ?_⟩
  · obtain ⟨hpath, hahead, hversion⟩ := h.owed task htask
    have hne : p ≠ task.path := by
      rintro rfl
      rcases horder with hmem | ⟨hout, -⟩
      · exact hahead hmem
      · exact hout (mem_outstanding.mpr (Or.inl ⟨task, htask, rfl⟩))
    refine ⟨hpath, fun hmem => hahead (List.mem_of_mem_erase hmem), ?_⟩
    rw [hstep, if_neg hne, hversion]
  · have hmem : p ∈ s.ahead := horder.resolve_right fun hno => by
      rw [show s.current = true from hc] at hno
      exact absurd hno.2 (by decide)
    rw [hstep]
    split
    · -- its push has been posted before
      rename_i hpq
      exact h.deleted hc q (hpq ▸ hmem)
    · rename_i hpq
      refine h.settled hc q ?_
      rw [mem_outstanding, not_or] at hq ⊢
      exact ⟨hq.1, fun hin => hq.2 ((List.mem_erase_of_ne (Ne.symm hpq)).mpr hin)⟩
  · exact h.deleted hc q (List.mem_of_mem_erase hq)

theorem commit (h : s.Coherent) {event : ServerEvent} {listed : Bool}
    (horder : s.Orderly (.server event listed)) : (s.commit event listed).Coherent := by
  obtain ⟨hreport, hcommit⟩ := horder
  cases hpush : s.sys.pushTask? event with
  | none =>
    have hsame : (s.sys.step event).rm.persistedVersionMap = s.sys.rm.persistedVersionMap := by
      refine System.persistedVersionMap_of_no_push hpush ?_
      rintro name session files replies rfl
      exact hreport
    simp only [ClientView.commit, hpush]
    refine ⟨h.replies, ?_, ?_, h.deleted⟩
    · rw [hsame]
      exact h.owed
    · rw [hsame]
      exact h.settled
  | some task =>
    have horderly := hcommit task hpush
    cases task with
    | pushCreateFile p v d | pushUpdateFile p v d =>
      simp only [ClientView.commit, hpush]
      exact h.put hpush horderly.1 horderly.2.1 horderly.2.2
    | pushDeleteFile p =>
      simp only [ClientView.commit, hpush]
      exact h.delete hpush horderly

/-! #### Pushes -/

theorem announce (h : s.Coherent) {p : Bytes} (horder : s.Orderly (.announce p)) :
    Coherent { s with
      stream := s.stream ++ [.push (.pushDeleteFile p)], ahead := p :: s.ahead } := by
  obtain ⟨hpath, hnew, hpasses⟩ := horder
  have hexp : s.current = true → ∀ q : Bytes,
      (readOut s.versions s.exchange (s.stream ++ [.push (.pushDeleteFile p)]))[q]?
        = if p = q then none else s.expected[q]? := fun hc =>
    getElem?_expected_push hpath h.replies hc hpasses
  refine ⟨(countP_push _ _).trans h.replies, fun task htask => ?_, fun hc q hq => ?_,
    fun hc q hq => ?_⟩
  · obtain ⟨hpath', hahead, hversion⟩ := h.owed task htask
    refine ⟨hpath', fun hmem => ?_, hversion⟩
    rcases List.mem_cons.mp hmem with heq | hmem
    · exact hnew (mem_outstanding.mpr (Or.inl ⟨task, htask, heq⟩))
    · exact hahead hmem
  · rw [mem_outstanding, not_or] at hq
    have hne : p ≠ q := by
      rintro rfl
      exact hq.2 List.mem_cons_self
    refine (hexp hc q).trans ((if_neg hne).trans (h.settled hc q ?_))
    rw [mem_outstanding, not_or]
    exact ⟨hq.1, fun hmem => hq.2 (List.mem_cons_of_mem _ hmem)⟩
  · refine (hexp hc q).trans ?_
    split
    · rfl
    · rename_i hne
      exact h.deleted hc q ((List.mem_cons.mp hq).resolve_left (Ne.symm hne))

theorem post (h : s.Coherent) {task : PushTask} (htask : task ∈ s.owed)
    (hpasses : s.exchange.Passes s.versions task) :
    Coherent { s with stream := s.stream ++ [.push task], owed := s.owed.erase task } := by
  obtain ⟨hpath, hahead, hversion⟩ := h.owed task htask
  have hexp : s.current = true → ∀ q : Bytes,
      (readOut s.versions s.exchange (s.stream ++ [.push task]))[q]?
        = if task.path = q then task.version else s.expected[q]? := fun hc =>
    getElem?_expected_push hpath h.replies hc hpasses
  refine ⟨(countP_push _ _).trans h.replies,
    fun task' htask' => h.owed task' (List.mem_of_mem_erase htask'), fun hc q hq => ?_,
    fun hc q hq => ?_⟩
  · refine (hexp hc q).trans ?_
    split
    · rename_i heq
      rw [← heq]
      exact hversion.symm
    · rename_i hne
      refine h.settled hc q ?_
      rw [mem_outstanding, not_or] at hq ⊢
      refine ⟨?_, hq.2⟩
      rintro ⟨task', hin, rfl⟩
      have hother : task' ≠ task := fun heq => hne (heq ▸ rfl)
      exact hq.1 ⟨task', (List.mem_erase_of_ne hother).mpr hin, rfl⟩
  · have hne : task.path ≠ q := by
      rintro rfl
      exact hahead hq
    exact (hexp hc q).trans ((if_neg hne).trans (h.deleted hc q hq))

/-! #### The client's own calls -/

theorem call (h : s.Coherent) (hidle : s.exchange = .idle) (call : OwnCall) :
    Coherent { s with exchange := .asked call } := by
  have hpushes := h.pushes hidle rfl
  refine h.of_expected rfl rfl rfl hpushes fun hc => ?_
  simp only [current, Bool.and_eq_true, bne_iff_ne] at hc
  refine ⟨by rw [current, hidle]; exact hc.2, ?_⟩
  -- what is on its way are pushes, and they are read as before
  rw [expected, expected, hidle, readOut_eq rfl, readOut_eq rfl]
  exact foldl_settle_waiting s.versions (some call) hpushes (by simpa using hc.1)

/-- SYNC_STATUS: the answer is the server's map, and brings the client to it. -/
theorem answerSync (h : s.Coherent) (hasked : s.exchange = .asked .syncStatus)
    {answers : CallAnswers} (hstatus : ∀ r ∈ answers.status, s.sys.rm.Committed r)
    (hlisted : ∀ file ∈ s.versions.toList, file.1 ∈ s.sys.rm.persistedVersionMap)
    (hahead : ∀ p ∈ s.ahead, p ∉ s.sys.rm.persistedVersionMap) :
    Coherent { s with
      exchange := .answered .syncStatus
        (.versions (s.sys.rm.getFileVersionMap answers.status)) } := by
  have hpushes := h.pushes hasked rfl
  have hexp : ∀ q : Bytes, (readOut s.versions (.answered .syncStatus
      (.versions (s.sys.rm.getFileVersionMap answers.status))) s.stream)[q]?
        = s.sys.rm.persistedVersionMap[q]? := by
    intro q
    rw [readOut_syncStatus hpushes, OwnCall.getElem?_note_syncStatus,
      ReplicationManager.getFileVersionMap_of_committed hstatus]
    cases hv : s.versions[q]? with
    | none => rw [Option.or_none]
    | some v =>
      have hmem := hlisted (q, v) (Std.ExtTreeMap.mem_toList_iff_getElem?_eq_some.mpr hv)
      obtain ⟨w, hw⟩ := mem_iff_exists_entry.mp hmem
      rw [hw, Option.some_or]
  refine ⟨hpushes, h.owed, fun _ q _ => hexp q, fun _ q hq => ?_⟩
  exact (hexp q).trans (Std.ExtTreeMap.getElem?_eq_none (hahead q hq))

/-- A write of the client: its reply brings the map to what it has committed. -/
theorem answerWrite (h : s.Coherent) {call : OwnCall} {p : Bytes} (hpath : call.path = some p)
    (hasked : s.exchange = .asked call) {answers : CallAnswers} (hnew : p ∉ s.outstanding)
    (hreported : s.current = true → call.Reported s.sys answers) :
    Coherent { s with
      sys := (s.sys.handleClientRequest s.processName answers call).1
      exchange := .answered call (s.sys.handleClientRequest s.processName answers call).2 } := by
  set handled := s.sys.handleClientRequest s.processName answers call with hhandled
  have hpushes := h.pushes hasked rfl
  have hother : ∀ q : Bytes, q ≠ p →
      handled.1.rm.persistedVersionMap[q]? = s.sys.rm.persistedVersionMap[q]? := fun q hq =>
    System.persistedVersionMap_handle_of_ne s.processName hpath hq
  have hexp : readOut s.versions (.answered call handled.2) s.stream
      = call.note s.expected handled.2 := by
    rw [readOut_answered hpushes, expected, hasked, readOut_eq rfl]
    rfl
  have hcurrent : (call == .syncStatus || s.synced) = true → s.current = true := by
    simp [current, hasked, OwnCall.ne_syncStatus hpath]
  refine ⟨hpushes, fun task htask => ?_, fun hc q hq => ?_, fun hc q hq => ?_⟩
  · obtain ⟨hname, hahead, hversion⟩ := h.owed task htask
    refine ⟨hname, hahead, (hother _ ?_).trans hversion⟩
    rintro rfl
    exact hnew (mem_outstanding.mpr (Or.inl ⟨task, htask, rfl⟩))
  · show (readOut s.versions (.answered call handled.2) s.stream)[q]? = _
    have hsettled := h.settled (hcurrent hc) q hq
    rw [hexp]
    by_cases hqp : q = p
    · subst hqp
      exact (System.getElem?_note_handle s.processName hpath hsettled).mpr
        (hreported (hcurrent hc))
    · rw [OwnCall.getElem?_note_of_ne hpath hqp, hother q hqp, hsettled]
  · show (readOut s.versions (.answered call handled.2) s.stream)[q]? = _
    have hqp : q ≠ p := by
      rintro rfl
      exact hnew (mem_outstanding.mpr (Or.inr hq))
    rw [hexp, OwnCall.getElem?_note_of_ne hpath hqp]
    exact h.deleted (hcurrent hc) q hq

theorem handle (h : s.Coherent) {call : OwnCall} (hasked : s.exchange = .asked call)
    {answers : CallAnswers} (horder : s.OrderlyAnswer answers call) :
    Coherent { s with
      sys := (s.sys.handleClientRequest s.processName answers call).1
      exchange := .answered call (s.sys.handleClientRequest s.processName answers call).2 } := by
  cases hpath : call.path with
  | none =>
    obtain rfl := OwnCall.path_eq_none_iff.mp hpath
    obtain ⟨hstatus, hlisted, hahead⟩ := horder.1 rfl
    exact h.answerSync hasked hstatus hlisted hahead
  | some p =>
    obtain ⟨-, hnew, hreported⟩ := horder
    exact h.answerWrite hpath hasked (fun hmem => hnew p hmem hpath) hreported

theorem respond (h : s.Coherent) {call : OwnCall} {reply : Response}
    (hanswered : s.exchange = .answered call reply) :
    Coherent { s with exchange := .sent call, stream := s.stream ++ [.reply reply] } := by
  refine h.of_expected rfl rfl rfl ?_ fun hc => ⟨by rw [current, hanswered]; exact hc, ?_⟩
  · rw [List.countP_append, h.replies, hanswered]
    rfl
  · rw [expected, expected, hanswered, readOut_eq rfl]
    rfl

/-! #### Reading -/

theorem readPush (h : s.Coherent) (hidle : s.exchange = .idle) {task : PushTask}
    {rest : List Delivery} (hstream : s.stream = .push task :: rest) :
    Coherent { s with stream := rest, versions := task.note s.versions } := by
  have hreplies := h.replies
  rw [hstream, List.countP_cons_of_neg (by simp [Delivery.isReply])] at hreplies
  refine h.of_expected rfl rfl rfl hreplies fun hc => ⟨hc, ?_⟩
  rw [expected, expected, hidle, readOut_eq rfl, readOut_eq rfl, hstream, List.foldl_cons]
  rfl

theorem passPush (h : s.Coherent) (hcall : s.exchange.call = some .syncStatus) {task : PushTask}
    {rest : List Delivery} (hstream : s.stream = .push task :: rest) :
    Coherent { s with stream := rest } := by
  have hreplies := h.replies
  rw [hstream, List.countP_cons_of_neg (by simp [Delivery.isReply])] at hreplies
  refine h.of_expected rfl rfl rfl hreplies fun hc => ⟨hc, ?_⟩
  rw [expected, expected, readOut, readOut, hcall, hstream]
  rfl

theorem readReply (h : s.Coherent) {call : OwnCall} (hcall : s.exchange.call = some call)
    {reply : Response} {rest : List Delivery} (hstream : s.stream = .reply reply :: rest) :
    Coherent { s with
      stream := rest
      versions := call.note s.versions reply
      exchange := .idle
      synced := s.synced || call == .syncStatus } := by
  have hreplies := h.replies
  rw [hstream, List.countP_cons_of_pos (by rfl)] at hreplies
  -- there is a reply on its way, so it is the one that the client waits for
  obtain ⟨hex, hrest⟩ : s.exchange = .sent call ∧ rest.countP Delivery.isReply = 0 := by
    cases hex : s.exchange with
    | sent call' =>
      rw [hex] at hcall hreplies
      obtain rfl : call' = call := Option.some.inj hcall
      exact ⟨rfl, Nat.succ.inj hreplies⟩
    | idle | asked | answered => simp [hex, Exchange.replies] at hreplies
  refine h.of_expected rfl rfl rfl hrest fun hc => ⟨?_, ?_⟩
  · rw [current, hex]
    exact (Bool.or_comm _ _).trans hc
  · rw [expected, expected, hex, readOut_eq rfl, readOut_eq rfl, hstream, List.foldl_cons]
    rfl

theorem read (h : s.Coherent) (hread : s.read = some t) : t.Coherent := by
  rw [ClientView.read] at hread
  split at hread
  · simp at hread
  · rename_i task rest hstream hcall
    obtain rfl := Option.some.inj hread
    exact h.readPush (Exchange.call_eq_none_iff.mp hcall) hstream
  · rename_i task rest hstream hcall
    obtain rfl := Option.some.inj hread
    exact h.passPush hcall hstream
  · simp at hread
  · rename_i reply rest hstream hcall
    -- no reply is on its way between calls
    have hpushes := h.pushes (Exchange.call_eq_none_iff.mp hcall) rfl
    rw [hstream, List.countP_cons_of_pos (by rfl)] at hpushes
    simp at hpushes
  · rename_i reply rest call hstream hcall
    obtain rfl := Option.some.inj hread
    exact h.readReply hcall hstream

/-- **One step.** -/
theorem step (h : s.Coherent) {event : ViewEvent} (horder : s.Orderly event)
    (hstep : s.step event = some t) : t.Coherent := by
  cases event with
  | server event listed =>
    simp only [ClientView.step] at hstep
    split at hstep
    · simp at hstep
    · obtain rfl := Option.some.inj hstep
      exact h.commit horder
  | announce p =>
    simp only [ClientView.step, Option.ite_none_right_eq_some] at hstep
    obtain ⟨-, hstep⟩ := hstep
    obtain rfl := Option.some.inj hstep
    exact h.announce horder
  | post task =>
    simp only [ClientView.step, Option.ite_none_right_eq_some] at hstep
    obtain ⟨htask, hstep⟩ := hstep
    obtain rfl := Option.some.inj hstep
    exact h.post htask horder
  | call call =>
    cases hex : s.exchange with
    | idle =>
      simp only [ClientView.step, hex, Option.ite_none_right_eq_some] at hstep
      obtain ⟨-, hstep⟩ := hstep
      obtain rfl := Option.some.inj hstep
      exact h.call hex call
    | asked | answered | sent => simp [ClientView.step, hex] at hstep
  | handle answers =>
    cases hex : s.exchange with
    | asked call =>
      simp only [ClientView.step, hex] at hstep
      obtain rfl := Option.some.inj hstep
      rw [Orderly, hex] at horder
      exact h.handle hex (horder call rfl)
    | idle | answered | sent => simp [ClientView.step, hex] at hstep
  | respond =>
    cases hex : s.exchange with
    | answered call reply =>
      simp only [ClientView.step, hex] at hstep
      split at hstep
      · obtain rfl := Option.some.inj hstep
        exact h.respond hex
      · simp at hstep
    | idle | asked | sent => simp [ClientView.step, hex] at hstep
  | receive => exact h.read hstep
  | disconnect =>
    simp only [ClientView.step, Option.ite_none_right_eq_some] at hstep
    obtain ⟨-, hstep⟩ := hstep
    obtain rfl := Option.some.inj hstep
    exact of_new rfl rfl rfl rfl
  | reconnect status read =>
    simp only [ClientView.step, Option.ite_none_left_eq_some] at hstep
    obtain ⟨-, hstep⟩ := hstep
    obtain rfl := Option.some.inj hstep
    refine of_new rfl rfl rfl ?_
    rw [List.countP_map, List.countP_eq_zero]
    intro task _
    simp [Delivery.isReply]

/-- At rest, the files whose delete is announced are the only ones in question. -/
theorem versions_eq_iff (h : s.Coherent) (hrest : s.AtRest) :
    s.versions = s.sys.rm.persistedVersionMap ↔
      ∀ p ∈ s.ahead, p ∉ s.sys.rm.persistedVersionMap := by
  have hcurrent : s.current = true := by
    rw [current, hrest.exchange]
    exact hrest.synced
  have hexp : s.expected = s.versions := by
    rw [expected, hrest.exchange, hrest.stream]
    rfl
  have hsettled := h.settled hcurrent
  have hdeleted := h.deleted hcurrent
  rw [hexp] at hsettled hdeleted
  constructor
  · intro heq p hp hmem
    rw [← heq] at hmem
    exact no_entry_iff.mp (hdeleted p hp) hmem
  · intro hgone
    refine Std.ExtTreeMap.ext_getElem? fun q => ?_
    by_cases hq : q ∈ s.ahead
    · rw [hdeleted q hq, Std.ExtTreeMap.getElem?_eq_none (hgone q hq)]
    · refine hsettled q ?_
      rw [mem_outstanding, hrest.owed]
      simp [hq]

end Coherent

theorem coherent_start (processName : Bytes) (sys : System) : (start processName sys).Coherent :=
  Coherent.of_new rfl rfl rfl rfl

/-- The reply to a write fits into a frame. -/
theorem format_handleClientRequest {call : OwnCall} {p : Bytes} (hpath : call.path = some p)
    (sys : System) (processName : Bytes) (answers : CallAnswers) :
    ∃ frame, (sys.handleClientRequest processName answers call).2.format = .ok frame := by
  cases call with
  | createFile filePath version fileData => exact ⟨_, rfl⟩
  | updateFile filePath version fileData =>
    simp only [System.handleClientRequest]
    split <;> exact ⟨_, rfl⟩
  | deleteFile filePath => exact ⟨_, rfl⟩
  | syncStatus => simp [OwnCall.path] at hpath

/-- A write of the client from request to reply, with nothing in between: the maps still
agree exactly if the reply is reported. -/
theorem own_write_iff (hrest : s.AtRest) (hsame : s.versions = s.sys.rm.persistedVersionMap)
    {call : OwnCall} {p : Bytes} (hpath : call.path = some p) (answers : CallAnswers) :
    ∃ u, Runs.run step s [.call call, .handle answers, .respond, .receive] = some u ∧ u.AtRest ∧
      (u.versions = u.sys.rm.persistedVersionMap ↔ call.Reported s.sys answers) := by
  obtain ⟨hconnected, hsynced, hidle, hstream, howed⟩ := hrest
  obtain ⟨frame, hframe⟩ := format_handleClientRequest hpath s.sys s.processName answers
  set handled := s.sys.handleClientRequest s.processName answers call with hhandled
  let asked : ClientView := { s with exchange := .asked call }
  let answered : ClientView := { s with sys := handled.1, exchange := .answered call handled.2 }
  let sent : ClientView := { answered with exchange := .sent call, stream := [.reply handled.2] }
  let u : ClientView := { s with sys := handled.1, versions := call.note s.versions handled.2 }
  have hcall : s.step (.call call) = some asked := by
    simp only [step, hidle, if_pos hconnected]
    rfl
  have hhandle : asked.step (.handle answers) = some answered := rfl
  have hrespond : answered.step .respond = some sent := by
    simp only [step, answered, hframe, hstream, List.nil_append]
    rfl
  have hreceive : sent.step .receive = some u := by
    simp only [step, ClientView.read, sent, answered, u, Exchange.call, hsynced, hidle, hstream,
      Bool.true_or]
  refine ⟨u, ?_, ⟨hconnected, hsynced, hidle, hstream, howed⟩, ?_⟩
  · simp only [Runs.run, hcall, hhandle, hrespond, hreceive, Option.bind_some]
  · constructor
    · intro heq
      refine (System.getElem?_note_handle s.processName hpath (m := s.versions) ?_).mp ?_
      · rw [hsame]
      · exact congrArg (·[p]?) heq
    · intro hreported
      refine Std.ExtTreeMap.ext_getElem? fun q => ?_
      by_cases hq : q = p
      · subst hq
        refine (System.getElem?_note_handle s.processName hpath ?_).mpr hreported
        rw [hsame]
      · show (call.note s.versions handled.2)[q]? = handled.1.rm.persistedVersionMap[q]?
        rw [OwnCall.getElem?_note_of_ne hpath hq,
          System.persistedVersionMap_handle_of_ne s.processName hpath hq, hsame]

/-- **When the client's version map is the server's.**  In a run whose steps are all
orderly, it is whenever the client is at rest and no file has had its delete pushed and
not committed; and from there, a write of the client keeps it so exactly if it is
reported. -/
theorem versions_converge {processName : Bytes} {sys : System} {events : List ViewEvent}
    {t : ClientView} (horderly : Runs.Meets step Orderly (start processName sys) events)
    (hrun : Runs.run step (start processName sys) events = some t) (hrest : t.AtRest) :
    (t.versions = t.sys.rm.persistedVersionMap ↔
        ∀ p ∈ t.ahead, p ∉ t.sys.rm.persistedVersionMap) ∧
      (t.versions = t.sys.rm.persistedVersionMap →
        ∀ (call : OwnCall) (p : Bytes) (answers : CallAnswers), call.path = some p →
          ∃ u, Runs.run step t [.call call, .handle answers, .respond, .receive] = some u ∧
            u.AtRest ∧
            (u.versions = u.sys.rm.persistedVersionMap ↔ call.Reported t.sys answers)) := by
  have hcoherent : t.Coherent :=
    Runs.run_invariant (fun s e u hs hC hstep => hs.step hC hstep)
      (coherent_start processName sys) horderly hrun
  refine ⟨hcoherent.versions_eq_iff hrest, fun hsame call p answers hpath => ?_⟩
  exact own_write_iff hrest hsame hpath answers

/-- A primary with replication factor 1 and the datanode `d`. -/
def oneNode : System :=
  System.after { rm := ReplicationManager.start 1 none, nodes := fun _ _ => none }
    [.register [100] 0 ∅ []]

/-- Datanodes that do what they are asked, and report nothing. -/
def willing : CallAnswers where
  write := fun _ _ => .acked
  rollback := fun _ _ => .acked
  delete := fun _ _ => .acked
  status := []

/-- A call of the client, from its request to its reply. -/
def calling (call : OwnCall) : List ViewEvent := [.call call, .handle willing, .respond, .receive]

/-- The client connects and calls `syncStatus`. -/
def connecting : List ViewEvent :=
  .reconnect [] (fun _ _ _ => .served) :: calling .syncStatus

/-- The client `b` creates the file `f`, and the client hears of it. -/
def otherCreate : List ViewEvent :=
  [.server (.create [102] 1 [98] [120] (fun _ _ => .acked) fun _ _ => .acked) true,
    .post (.pushCreateFile [102] 1 [120]), .receive]

/-- The client hears of the file that another has created. -/
theorem versions_converge_push :
    ∃ t, Runs.run step (start [99] oneNode) (connecting ++ otherCreate) = some t ∧
      t.versions[([102] : Bytes)]? = some 1 ∧ t.versions = t.sys.rm.persistedVersionMap := by
  have horderly : Runs.Meets step Orderly (start [99] oneNode) (connecting ++ otherCreate) := by
    decide
  refine ⟨_, rfl, by decide, ?_⟩
  refine (versions_converge horderly rfl ⟨rfl, rfl, rfl, rfl, rfl⟩).1.mpr ?_
  decide

/-- The client creates the file `f` itself, is ACKed, and does not have it in its map.
The client hears of `f`, the connection is lost, `f` is deleted: after `syncStatus` on the
new connection it still has it.  The client has read the push of a delete, and the server
has not erased the file yet. -/
theorem created_file_unlisted :
    (∃ t, Runs.run step (start [99] oneNode) (connecting ++ calling (.createFile [102] 1 [120]))
        = some t ∧ t.AtRest ∧
      t.versions[([102] : Bytes)]? = none ∧
      t.sys.rm.persistedVersionMap[([102] : Bytes)]? = some 1) ∧
    (∃ t, Runs.run step (start [99] oneNode) (connecting ++ otherCreate ++
        [.disconnect, .server (.delete [102] [98] fun _ _ => .acked) false] ++ connecting)
        = some t ∧ t.AtRest ∧
      t.versions[([102] : Bytes)]? = some 1 ∧
      t.sys.rm.persistedVersionMap[([102] : Bytes)]? = none) ∧
    ∃ t, Runs.run step (start [99] oneNode) (connecting ++ otherCreate ++
        [.announce [102], .receive])
        = some t ∧ t.AtRest ∧
      t.versions[([102] : Bytes)]? = none ∧
      t.sys.rm.persistedVersionMap[([102] : Bytes)]? = some 1 := by
  refine ⟨?_, ?_, ?_⟩
  · refine ⟨_, rfl, ⟨rfl, rfl, rfl, rfl, rfl⟩, ?_⟩
    decide
  · refine ⟨_, rfl, ⟨rfl, rfl, rfl, rfl, rfl⟩, ?_⟩
    decide
  · refine ⟨_, rfl, ⟨rfl, rfl, rfl, rfl, rfl⟩, ?_⟩
    decide

end ClientView

end Squid
