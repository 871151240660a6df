/-
A `SquidProtocol` on a channel that splits reads and writes.

`Protocol.lean` reads and writes whole runs of bytes.  Here every read returns
some of the bytes that were asked for and every write takes some of those that
were offered, and the loops of the source (`recvExact`, `sendFrame`, `sendAll`,
`recvAll`, the blocks of `BUFFER_SIZE`) put them together.

* `Refines` — the call on pieces does what the call on whole runs does;
* `refines_recvLoop`, `sendAll_run` — the read and the write loop;
* `refines_sendFrame`, `refines_receiveAndParse` — frames;
* `refines_sendFile`, `refines_receiveFile`, `refines_receiveStoredFile` — file
  transfers, in memory and on disk.
-/
import SquidStorage.Disk
import SquidStorage.Pieces

open BigEndian Pieces

namespace Squid

/-- `BUFFER_SIZE`. -/
def bufferSize : ℕ := 1024 * 1024

/-- A protocol and its channel.  The `inp` and `out` of `proto` are not used: the
bytes to come are `arrivals`, cut where the reads will cut them. -/
structure Endpoint where
  proto : Proto := {}
  arrivals : List Bytes := []
  /-- the channel takes at most `quotas k + 1` bytes at the `k`-th write from now -/
  quotas : ℕ → ℕ
  written : List Bytes := []

/-- A call on an end whose channel splits reads and writes. -/
structure StreamM (α : Type) where
  run : Endpoint → Outcome α × Endpoint

/-- Go on with the result of a finished call. -/
def StreamM.andThen {α β : Type} (x : StreamM α) (f : α → StreamM β) : StreamM β := ⟨fun e =>
  match x.run e with
  | (.done a, e') => (f a).run e'
  | (.waiting, e') => (.waiting, e')
  | (.thrown err, e') => (.thrown err, e')⟩

instance : Monad StreamM where
  pure a := ⟨fun e => (.done a, e)⟩
  bind := StreamM.andThen

namespace StreamM

variable {α β : Type} {x : StreamM α} {f : α → StreamM β} {e e' : Endpoint}

theorem bind_done {a : α} (h : x.run e = (.done a, e')) : (x >>= f).run e = (f a).run e' := by
  show (x.andThen f).run e = _
  simp only [andThen, h]

theorem bind_waiting (h : x.run e = (.waiting, e')) : (x >>= f).run e = (.waiting, e') := by
  show (x.andThen f).run e = _
  simp only [andThen, h]

theorem bind_thrown {err : String} (h : x.run e = (.thrown err, e')) :
    (x >>= f).run e = (.thrown err, e') := by
  show (x.andThen f).run e = _
  simp only [andThen, h]

end StreamM

/-! ### The two levels -/

/-- The same end with its bytes in pieces and in one run. -/
def Cut (e : Endpoint) (p : Proto) : Prop :=
  ∃ out, p = { e.proto with inp := e.arrivals.flatten, out := out } ∧ wire out = e.written.flatten

section Cut

variable {e : Endpoint} {p : Proto}

theorem Cut.inp (h : Cut e p) : p.inp = e.arrivals.flatten := by
  obtain ⟨out, rfl, -⟩ := h
  rfl

theorem Cut.wire_out (h : Cut e p) : wire p.out = e.written.flatten := by
  obtain ⟨out, rfl, hout⟩ := h
  exact hout

theorem Cut.nextSendSeq (h : Cut e p) : p.nextSendSeq = e.proto.nextSendSeq := by
  obtain ⟨out, rfl, -⟩ := h
  rfl

theorem Cut.expectedRecvSeq (h : Cut e p) : p.expectedRecvSeq = e.proto.expectedRecvSeq := by
  obtain ⟨out, rfl, -⟩ := h
  rfl

theorem Cut.reorderBuffer (h : Cut e p) : p.reorderBuffer = e.proto.reorderBuffer := by
  obtain ⟨out, rfl, -⟩ := h
  rfl

end Cut

/-- A call on pieces and one on whole runs have come equally far.  (One that
waits has already taken the pieces that were there.) -/
inductive SameOutcome {α : Type} : Outcome α × Endpoint → Outcome α × Proto → Prop
  | done {e : Endpoint} {p : Proto} (a : α) : Cut e p → SameOutcome (.done a, e) (.done a, p)
  | thrown {e : Endpoint} {p : Proto} (err : String) :
      Cut e p → SameOutcome (.thrown err, e) (.thrown err, p)
  | waiting (e : Endpoint) (p : Proto) : SameOutcome (.waiting, e) (.waiting, p)

/-- The call on pieces does what the call on whole runs does. -/
def Refines {α : Type} (x : StreamM α) (y : ProtoM α) : Prop :=
  ∀ e p, Cut e p → SameOutcome (x.run e) (y.run p)

section Refines

variable {α β : Type}

theorem refines_pure (a : α) : Refines (pure a) (pure a) := fun _ _ h => .done a h

theorem Refines.bind {x : StreamM α} {y : ProtoM α} {f : α → StreamM β} {g : α → ProtoM β}
    (hx : Refines x y) (hf : ∀ a, Refines (f a) (g a)) : Refines (x >>= f) (y >>= g) := by
  intro e p hcut
  have hsame := hx e p hcut
  generalize hxe : x.run e = xe at hsame
  generalize hyp : y.run p = yp at hsame
  cases hsame with
  | done a hcut' =>
    rw [StreamM.bind_done hxe, Squid.bind_done hyp]
    exact hf a _ _ hcut'
  | thrown err hcut' =>
    rw [StreamM.bind_thrown hxe, Squid.bind_thrown hyp]
    exact .thrown err hcut'
  | waiting e' p' =>
    rw [StreamM.bind_waiting hxe, Squid.bind_waiting hyp]
    exact .waiting e' p'

/-- The same when the first call returns its result in another form. -/
theorem Refines.bind_map {γ : Type} {x : StreamM γ} {y : ProtoM α} {m : α → γ}
    {f : γ → StreamM β} {g : α → ProtoM β} (hx : Refines x (y >>= fun a => pure (m a)))
    (hf : ∀ a, Refines (f (m a)) (g a)) : Refines (x >>= f) (y >>= g) := by
  intro e p hcut
  have hsame := hx e p hcut
  generalize hxe : x.run e = xe at hsame
  rcases hyp : y.run p with ⟨a | _ | err, p'⟩
  · rw [Squid.bind_done hyp, pure_run] at hsame
    rw [Squid.bind_done hyp]
    cases hsame with
    | done _ hcut' =>
      rw [StreamM.bind_done hxe]
      exact hf a _ _ hcut'
  · rw [Squid.bind_waiting hyp] at hsame ⊢
    cases hsame with
    | waiting e' _ =>
      rw [StreamM.bind_waiting hxe]
      exact .waiting e' p'
  · rw [Squid.bind_thrown hyp] at hsame ⊢
    cases hsame with
    | thrown _ hcut' =>
      rw [StreamM.bind_thrown hxe]
      exact .thrown err hcut'

/-- What a call on whole runs returns, the call on pieces returns. -/
theorem Refines.run_done {x : StreamM α} {y : ProtoM α} (h : Refines x y) {e : Endpoint}
    {p p' : Proto} {a : α} (hcut : Cut e p) (hy : y.run p = (.done a, p')) :
    ∃ e', x.run e = (.done a, e') ∧ Cut e' p' := by
  have hsame := h e p hcut
  rw [hy] at hsame
  generalize hxe : x.run e = xe at hsame
  cases hsame with
  | done _ hcut' => exact ⟨_, rfl, hcut'⟩

end Refines

/-- The end with all that it has written as one frame. -/
def Endpoint.whole (e : Endpoint) : Proto :=
  { e.proto with inp := e.arrivals.flatten, out := [.frame e.written.flatten] }

theorem cut_whole (e : Endpoint) : Cut e e.whole := ⟨_, rfl, by simp [Sent.bytes]⟩

namespace StreamM

/-! ### The read loop -/

/-- `INetworkChannel::readBytes`: some bytes, or `none` at the end of the stream. -/
def readBytes (n : ℕ) : StreamM (Option Bytes) := ⟨fun e =>
  match pull n e.arrivals with
  | ([], rest) =>
    if e.proto.peerClosed then (.done none, { e with arrivals := rest })
    else (.waiting, { e with arrivals := rest })
  | (got, rest) => (.done (some got), { e with arrivals := rest })⟩

/-- Change the protocol's own state. -/
def modify (f : Proto → Proto) : StreamM Unit := ⟨fun e => (.done (), { e with proto := f e.proto })⟩

/-- The loop of `recvExact` and `recvAll`: read until `buf` has `n` bytes.  Every
round reads a byte at least, so `n` rounds are enough. -/
def recvLoop (onEnd : Proto → Proto) (n : ℕ) : ℕ → Bytes → StreamM (Option Bytes)
  | 0, buf => pure (some buf)
  | fuel + 1, buf =>
    if buf.length < n then do
      match ← readBytes (n - buf.length) with
      | none => do
        modify onEnd
        pure none
      | some got => recvLoop onEnd n fuel (buf ++ got)
    else pure (some buf)

/-- `SquidProtocol::recvExact`. -/
def recvExact (n : ℕ) : StreamM (Option Bytes) := recvLoop (fun s => { s with alive := false }) n n []

/-- `recvAll` of `filetransfer.cpp`. -/
def recvAll (n : ℕ) : StreamM (Option Bytes) := recvLoop id n n []

variable {n : ℕ} {e : Endpoint} (onEnd : Proto → Proto)

theorem readBytes_some (hn : 0 < n) (h : e.arrivals.flatten ≠ []) :
    ∃ got rest, (readBytes n).run e = (.done (some got), { e with arrivals := rest }) ∧
      got ++ rest.flatten = e.arrivals.flatten ∧ 0 < got.length ∧ got.length ≤ n := by
  have hflat := pull_flatten n e.arrivals
  have hle := length_pull_le n e.arrivals
  have hne := mt (pull_eq_nil_iff hn e.arrivals).mp h
  simp only [readBytes]
  rcases hpull : pull n e.arrivals with ⟨got, rest⟩
  rw [hpull] at hflat hle hne
  cases got with
  | nil => exact absurd rfl hne
  | cons b bs => exact ⟨b :: bs, rest, rfl, hflat, Nat.succ_pos _, hle⟩

theorem readBytes_end (hn : 0 < n) (h : e.arrivals.flatten = []) :
    ∃ rest, rest.flatten = [] ∧ (readBytes n).run e
      = if e.proto.peerClosed then (.done none, { e with arrivals := rest })
        else (.waiting, { e with arrivals := rest }) := by
  have hflat := pull_flatten n e.arrivals
  have hnil := (pull_eq_nil_iff hn e.arrivals).mpr h
  simp only [readBytes]
  rcases hpull : pull n e.arrivals with ⟨got, rest⟩
  rw [hpull] at hflat hnil
  obtain rfl := hnil
  refine ⟨rest, ?_, rfl⟩
  rwa [h] at hflat

/-- With enough bytes to come the loop fills its buffer and takes no more. -/
theorem recvLoop_enough (fuel : ℕ) (buf : Bytes) (e : Endpoint) (hfuel : n ≤ buf.length + fuel)
    (h : n ≤ buf.length + e.arrivals.flatten.length) (hbuf : buf.length ≤ n) :
    ∃ rest, (recvLoop onEnd n fuel buf).run e
        = (.done (some (buf ++ e.arrivals.flatten.take (n - buf.length))),
            { e with arrivals := rest }) ∧
      rest.flatten = e.arrivals.flatten.drop (n - buf.length) := by
  induction fuel generalizing buf e with
  | zero =>
    have hfull : n - buf.length = 0 := by omega
    exact ⟨e.arrivals, by simp [recvLoop, hfull]; rfl, by simp [hfull]⟩
  | succ fuel ih =>
    rw [recvLoop]
    by_cases hlt : buf.length < n
    · rw [if_pos hlt]
      have hne : e.arrivals.flatten ≠ [] := by
        intro hnil
        rw [hnil, List.length_nil] at h
        omega
      obtain ⟨got, rest, hread, hflat, hpos, hle⟩ := readBytes_some (n := n - buf.length)
        (by omega) hne
      have hlen := congrArg List.length hflat
      rw [List.length_append] at hlen
      rw [bind_done hread]
      obtain ⟨rest', hrun, hrest'⟩ := ih (buf ++ got) { e with arrivals := rest }
        (by rw [List.length_append]; omega) (by rw [List.length_append]; dsimp only; omega)
        (by rw [List.length_append]; omega)
      have hn : n - buf.length = got.length + (n - (buf ++ got).length) := by
        rw [List.length_append]
        omega
      refine ⟨rest', hrun.trans ?_, ?_⟩
      · rw [← hflat, hn, List.take_length_add_append, List.append_assoc]
      · rw [hrest', ← hflat, hn, List.drop_length_add_append]
    · have hfull : n - buf.length = 0 := by omega
      rw [if_neg hlt]
      exact ⟨e.arrivals, by simp [hfull]; rfl, by simp [hfull]⟩

/-- With too few bytes to come the loop takes them all. -/
theorem recvLoop_short (fuel : ℕ) (buf : Bytes) (e : Endpoint) (hfuel : n ≤ buf.length + fuel)
    (h : buf.length + e.arrivals.flatten.length < n) :
    ∃ rest, rest.flatten = [] ∧ (recvLoop onEnd n fuel buf).run e
      = if e.proto.peerClosed then (.done none, { e with proto := onEnd e.proto, arrivals := rest })
        else (.waiting, { e with arrivals := rest }) := by
  induction fuel generalizing buf e with
  | zero => omega
  | succ fuel ih =>
    rw [recvLoop, if_pos (by omega)]
    by_cases hnil : e.arrivals.flatten = []
    · obtain ⟨rest, hrest, hread⟩ := readBytes_end (n := n - buf.length) (by omega) hnil
      refine ⟨rest, hrest, ?_⟩
      cases hclosed : e.proto.peerClosed with
      | true =>
        rw [hclosed, if_pos rfl] at hread
        rw [bind_done hread]
        rfl
      | false =>
        rw [hclosed, if_neg (by simp)] at hread
        rw [bind_waiting hread]
        rfl
    · obtain ⟨got, rest, hread, hflat, hpos, hle⟩ := readBytes_some (n := n - buf.length)
        (by omega) hnil
      have hlen := congrArg List.length hflat
      rw [List.length_append] at hlen
      rw [bind_done hread]
      exact ih (buf ++ got) { e with arrivals := rest }
        (by rw [List.length_append]; omega) (by rw [List.length_append]; dsimp only; omega)

/-- Reading in pieces is reading. -/
theorem refines_recvLoop {onEnd : Proto → Proto} (honEnd : ∀ p i o, onEnd { p with inp := i, out := o }
    = { onEnd p with inp := i, out := o }) (n : ℕ) :
    Refines (recvLoop onEnd n n []) (readExact onEnd n) := by
  rintro e p ⟨out, rfl, hout⟩
  simp only [readExact]
  by_cases hlen : n ≤ e.arrivals.flatten.length
  · obtain ⟨rest, hrun, hrest⟩ := recvLoop_enough onEnd n [] e (by simp) (by simpa using hlen)
      (Nat.zero_le n)
    rw [hrun, if_pos hlen]
    refine .done _ ⟨out, ?_, hout⟩
    rw [hrest]
    rfl
  · obtain ⟨rest, hrest, hrun⟩ := recvLoop_short (n := n) onEnd n [] e (by simp)
      (by simpa using hlen)
    rw [hrun, if_neg hlen]
    by_cases hclosed : e.proto.peerClosed = true
    · rw [if_pos hclosed, if_pos hclosed]
      refine .done _ ⟨out, ?_, hout⟩
      rw [hrest]
      exact honEnd e.proto [] out
    · rw [if_neg hclosed, if_neg hclosed]
      exact .waiting _ _

theorem refines_recvExact (n : ℕ) : Refines (recvExact n) (Squid.recvExact n) :=
  refines_recvLoop (fun _ _ _ => rfl) n

theorem refines_recvAll (n : ℕ) : Refines (recvAll n) (Squid.recvAll n) :=
  refines_recvLoop (fun _ _ _ => rfl) n

theorem recvAll_enough (e : Endpoint) (h : n ≤ e.arrivals.flatten.length) :
    ∃ rest, (recvAll n).run e
        = (.done (some (e.arrivals.flatten.take n)), { e with arrivals := rest }) ∧
      rest.flatten = e.arrivals.flatten.drop n := by
  have hle : n ≤ ([] : Bytes).length + e.arrivals.flatten.length := by
    rw [List.length_nil]
    omega
  exact recvLoop_enough id n [] e (Nat.le_add_left n _) hle (Nat.zero_le n)

theorem recvAll_short (e : Endpoint) (h : e.arrivals.flatten.length < n) :
    ∃ rest, rest.flatten = [] ∧ (recvAll n).run e
      = if e.proto.peerClosed then (.done none, { e with arrivals := rest })
        else (.waiting, { e with arrivals := rest }) := by
  have hlt : ([] : Bytes).length + e.arrivals.flatten.length < n := by
    rw [List.length_nil]
    omega
  exact recvLoop_short id n [] e (Nat.le_add_left n _) hlt

/-! ### The write loop -/

/-- `INetworkChannel::writeBytes`: how many bytes the channel takes. -/
def writeBytes (bs : Bytes) : StreamM ℕ := ⟨fun e =>
  let sent := min (e.quotas 0 + 1) bs.length
  (.done sent, { e with quotas := fun k => e.quotas (k + 1)
                        written := e.written ++ [bs.take sent] })⟩

/-- The loop of `sendFrame` and `sendAll`.  Every round writes a byte at least,
so as many rounds as there are bytes are enough. -/
def sendLoop : ℕ → Bytes → StreamM Unit
  | 0, _ => pure ()
  | fuel + 1, bs =>
    if bs = [] then pure ()
    else do
      let sent ← writeBytes bs
      sendLoop fuel (bs.drop sent)

/-- `sendAll` of `filetransfer.cpp`. -/
def sendAll (bs : Bytes) : StreamM Unit := sendLoop bs.length bs

theorem sendLoop_run {fuel : ℕ} {bs : Bytes} (hfuel : bs.length ≤ fuel) (e : Endpoint) :
    ∃ quotas written, (sendLoop fuel bs).run e
        = (.done (), { e with quotas := quotas, written := written }) ∧
      written.flatten = e.written.flatten ++ bs := by
  induction fuel generalizing bs e with
  | zero =>
    obtain rfl : bs = [] := List.length_eq_zero_iff.mp (by omega)
    exact ⟨e.quotas, e.written, rfl, by simp⟩
  | succ fuel ih =>
    rw [sendLoop]
    by_cases hnil : bs = []
    · rw [if_pos hnil, hnil]
      exact ⟨e.quotas, e.written, rfl, by simp⟩
    · rw [if_neg hnil]
      have hpos : 0 < bs.length := List.length_pos_iff.mpr hnil
      set sent := min (e.quotas 0 + 1) bs.length with hsent
      have hwrite : (writeBytes bs).run e = (.done sent,
          { e with quotas := fun k => e.quotas (k + 1), written := e.written ++ [bs.take sent] }) :=
        rfl
      rw [bind_done hwrite]
      have hrest : (bs.drop sent).length ≤ fuel := by
        rw [List.length_drop]
        omega
      obtain ⟨quotas, written, hrun, hwritten⟩ := ih hrest
        { e with quotas := fun k => e.quotas (k + 1), written := e.written ++ [bs.take sent] }
      refine ⟨quotas, written, hrun, ?_⟩
      rw [hwritten]
      simp

theorem sendAll_run (bs : Bytes) (e : Endpoint) :
    ∃ quotas written, (sendAll bs).run e
        = (.done (), { e with quotas := quotas, written := written }) ∧
      written.flatten = e.written.flatten ++ bs :=
  sendLoop_run le_rfl e

/-! ### Frames -/

/-- `SquidProtocol::sendFrame`. -/
def sendFrame (frame : Except String Bytes) : StreamM Unit := ⟨fun e =>
  match frame with
  | .error err => (.thrown err, e)
  | .ok bs =>
    (sendAll (stampSeq bs e.proto.nextSendSeq)).run
      { e with proto := { e.proto with nextSendSeq := e.proto.nextSendSeq + 1 } }⟩

theorem refines_sendFrame (frame : Except String Bytes) :
    Refines (sendFrame frame) (Squid.sendFrame frame) := by
  rintro e p ⟨out, rfl, hout⟩
  cases frame with
  | error err => exact .thrown err ⟨out, rfl, hout⟩
  | ok bs =>
    obtain ⟨quotas, written, hrun, hwritten⟩ := sendAll_run (stampSeq bs e.proto.nextSendSeq)
      { e with proto := { e.proto with nextSendSeq := e.proto.nextSendSeq + 1 } }
    simp only [sendFrame, Squid.sendFrame]
    rw [hrun]
    refine .done () ⟨_, rfl, ?_⟩
    rw [hwritten, wire_append, hout]
    simp [Sent.bytes]

/-- A step on the protocol's own state, as `Protocol.lean` has it. -/
def lift {α : Type} (x : ProtoM α) : StreamM α := ⟨fun e =>
  ((x.run e.proto).1, { e with proto := (x.run e.proto).2 })⟩

/-- A step that neither reads nor writes. -/
def Internal {α : Type} (x : ProtoM α) : Prop :=
  ∀ s i o, x.run { s with inp := i, out := o }
    = ((x.run s).1, { (x.run s).2 with inp := i, out := o })

theorem refines_lift {α : Type} {x : ProtoM α} (hx : Internal x) : Refines (lift x) x := by
  rintro e p ⟨out, rfl, hout⟩
  rw [hx]
  simp only [lift]
  rcases (x.run e.proto) with ⟨a | _ | err, s⟩
  · exact .done a ⟨out, rfl, hout⟩
  · exact .waiting _ _
  · exact .thrown err ⟨out, rfl, hout⟩

theorem internal_markDead : Internal markDead := fun _ _ _ => rfl

theorem internal_popNextBuffered : Internal popNextBuffered := by
  intro s i o
  simp only [popNextBuffered]
  cases s.reorderBuffer[s.expectedRecvSeq]? with
  | none => rfl
  | some frame => rfl

theorem internal_sequenceMessage (raw : Bytes) (msg : Message) :
    Internal (sequenceMessage raw msg) := by
  intro s i o
  simp only [sequenceMessage]
  split
  · rfl
  · split
    · rfl
    · rfl

/-- The field loop of `SquidProtocol::receiveFrame`. -/
def receiveFields : ℕ → Bytes → StreamM Bytes
  | 0, frame => pure frame
  | n + 1, frame => do
    match ← recvExact 3 with
    | none => pure []
    | some fhdr =>
      let vlen := readU16 (fhdr.drop 1)
      if 0 < vlen then do
        match ← recvExact vlen with
        | none => pure []
        | some value => receiveFields n (frame ++ fhdr ++ value)
      else receiveFields n (frame ++ fhdr)

/-- `SquidProtocol::receiveFrame` after the header. -/
def receiveBody (header : Bytes) : StreamM Bytes := do
  if readU16 header ≠ squidMagic then
    lift markDead
    pure []
  else
    let payloadLen := (readU32 (header.drop 9)).toNat
    let frame ← receiveFields ((header.drop 4).headD 0).toNat header
    if frame = [] then pure []
    else if maxPayloadSize < payloadLen then
      lift markDead
      pure []
    else if 0 < payloadLen then do
      match ← recvExact payloadLen with
      | none => pure []
      | some payload => pure (frame ++ payload)
    else pure frame

/-- `SquidProtocol::receiveFrame`. -/
def receiveFrame : StreamM Bytes := do
  match ← recvExact frameHeaderSize with
  | none => pure []
  | some header => receiveBody header

/-- The next frame: from the reorder buffer when it is there, else off the wire. -/
def nextFrame : StreamM Bytes := do
  match ← lift popNextBuffered with
  | some frame => pure frame
  | none => receiveFrame

/-- The loop of `SquidProtocol::receiveAndParse`. -/
def receiveAndParseLoop : ℕ → StreamM Message
  | 0 => ⟨fun e => (.waiting, e)⟩
  | fuel + 1 => do
    let raw ← nextFrame
    if raw = [] then pure makeNack
    else match parseMessage raw with
      | .error _ => pure makeNack
      | .ok msg =>
        match ← lift (sequenceMessage raw msg) with
        | some msg => pure msg
        | none => receiveAndParseLoop fuel

/-- `SquidProtocol::receiveAndParse`, with as many rounds as could be needed. -/
def receiveAndParse : StreamM Message := ⟨fun e =>
  (receiveAndParseLoop (e.arrivals.flatten.length + 2)).run e⟩

/-- Nothing to read is nothing read. -/
theorem refines_skip {α : Type} {onEnd : Proto → Proto} {x : StreamM α}
    {f : Option Bytes → ProtoM α} (h : Refines x (f (some []))) :
    Refines x (readExact onEnd 0 >>= f) := by
  intro e p hcut
  rw [Squid.bind_done (readExact_zero onEnd p)]
  exact h e p hcut

theorem refines_receiveFields (n : ℕ) (frame : Bytes) :
    Refines (receiveFields n frame) (Squid.receiveFields n frame) := by
  induction n generalizing frame with
  | zero => exact refines_pure _
  | succ n ih =>
    refine (refines_recvExact 3).bind fun fhdr => ?_
    cases fhdr with
    | none => exact refines_pure _
    | some fhdr =>
      dsimp only
      by_cases hvlen : 0 < readU16 (fhdr.drop 1)
      · rw [if_pos hvlen]
        refine (refines_recvExact _).bind fun value => ?_
        cases value with
        | none => exact refines_pure _
        | some value => exact ih _
      · rw [if_neg hvlen, Nat.eq_zero_of_not_pos hvlen]
        refine refines_skip ?_
        dsimp only
        rw [List.append_nil]
        exact ih _

theorem refines_receiveBody (header : Bytes) :
    Refines (receiveBody header) (Squid.receiveBody header) := by
  have hdead : Refines (lift markDead >>= fun _ => pure ([] : Bytes)) (markDead >>= fun _ => pure []) :=
    (refines_lift internal_markDead).bind fun _ => refines_pure _
  rw [receiveBody, Squid.receiveBody]
  split
  · exact hdead
  · refine (refines_receiveFields _ _).bind fun frame => ?_
    split
    · exact refines_pure _
    · split
      · exact hdead
      · by_cases hpay : 0 < (readU32 (header.drop 9)).toNat
        · rw [if_pos hpay]
          refine (refines_recvExact _).bind fun payload => ?_
          cases payload with
          | none => exact refines_pure _
          | some payload => exact refines_pure _
        · rw [if_neg hpay, Nat.eq_zero_of_not_pos hpay]
          refine refines_skip ?_
          dsimp only
          rw [List.append_nil]
          exact refines_pure _

theorem refines_receiveFrame : Refines receiveFrame Squid.receiveFrame := by
  refine (refines_recvExact _).bind fun header => ?_
  cases header with
  | none => exact refines_pure _
  | some header => exact refines_receiveBody header

theorem refines_nextFrame : Refines nextFrame Squid.nextFrame := by
  refine (refines_lift internal_popNextBuffered).bind fun frame => ?_
  cases frame with
  | none => exact refines_receiveFrame
  | some frame => exact refines_pure _

/-- **Receiving a message in pieces is receiving it.** -/
theorem refines_receiveAndParse : Refines receiveAndParse Squid.receiveAndParse := by
  have hloop : ∀ fuel, Refines (receiveAndParseLoop fuel) (Squid.receiveAndParseLoop fuel) := by
    intro fuel
    induction fuel with
    | zero => exact fun _ _ _ => .waiting _ _
    | succ fuel ih =>
      refine refines_nextFrame.bind fun raw => ?_
      split
      · exact refines_pure _
      · cases parseMessage raw with
        | error err => exact refines_pure _
        | ok msg =>
          refine (refines_lift (internal_sequenceMessage raw msg)).bind fun delivered => ?_
          cases delivered with
          | none => exact ih
          | some msg => exact refines_pure _
  rintro e p ⟨out, rfl, hout⟩
  exact hloop (e.arrivals.flatten.length + 2) e _ ⟨out, rfl, hout⟩

/-! ### File transfers -/

/-- The blocks of `FileTransfer::sendFile`. -/
def sendBlocks : ℕ → Bytes → StreamM Unit
  | 0, _ => pure ()
  | fuel + 1, data =>
    if data = [] then pure ()
    else do
      sendAll (data.take bufferSize)
      sendBlocks fuel (data.drop bufferSize)

/-- `FileTransfer::sendFile` from memory. -/
def sendFile (data : Bytes) : StreamM Bool := do
  if fileTransferMaxSize < data.length then pure false
  else
    sendAll (pushU64 data.length)
    sendBlocks data.length data
    pure true

/-- `FileTransfer::sendFile` of a stored file: the same blocks, read from it. -/
def sendStoredFile (disk : Disk) (path : Bytes) : StreamM Bool :=
  match disk.files[disk.resolvePath path]? with
  | none => pure false
  | some data => sendFile data

/-- The blocks of `FileTransfer::receiveFile`, each one handed to `write`. -/
def receiveBlocks {σ : Type} (write : σ → Bytes → σ) : ℕ → ℕ → σ → StreamM (Option σ)
  | 0, _, acc => pure (some acc)
  | fuel + 1, remaining, acc =>
    if 0 < remaining then do
      match ← recvAll (min bufferSize remaining) with
      | none => pure none
      | some block => receiveBlocks write fuel (remaining - block.length) (write acc block)
    else pure (some acc)

/-- `FileTransfer::receiveFile` into memory. -/
def receiveFile : StreamM (Option Bytes) := do
  match ← recvAll 8 with
  | none => pure none
  | some sizebuf =>
    let filesize := beNat sizebuf
    if fileTransferMaxSize < filesize then pure none
    else receiveBlocks (· ++ ·) filesize filesize []

/-- `outfile.write`. -/
def appendTo (name : Bytes) (disk : Disk) (block : Bytes) : Disk :=
  disk.store name (disk.files[name]?.getD [] ++ block)

/-- `FileTransfer::receiveFile` into a stored file, which is emptied first. -/
def receiveStoredFile (disk : Disk) (path : Bytes) : StreamM (Bool × Disk) :=
  let name := disk.resolvePath path
  match disk.openOutput name with
  | .threw err => lift (raiseError err)
  | .refused => pure (false, disk)
  | .opened => do
    match ← recvAll 8 with
    | none => pure (false, disk.discard name)
    | some sizebuf =>
      let filesize := beNat sizebuf
      if fileTransferMaxSize < filesize then pure (false, disk.discard name)
      else
        match ← receiveBlocks (appendTo name) filesize filesize (disk.store name []) with
        | none => pure (false, disk.discard name)
        | some disk => pure (true, disk)

theorem sendBlocks_run {fuel : ℕ} {data : Bytes} (hfuel : data.length ≤ fuel) (e : Endpoint) :
    ∃ quotas written, (sendBlocks fuel data).run e
        = (.done (), { e with quotas := quotas, written := written }) ∧
      written.flatten = e.written.flatten ++ data := by
  induction fuel generalizing data e with
  | zero =>
    obtain rfl : data = [] := List.length_eq_zero_iff.mp (by omega)
    exact ⟨e.quotas, e.written, rfl, by simp⟩
  | succ fuel ih =>
    rw [sendBlocks]
    by_cases hnil : data = []
    · rw [if_pos hnil, hnil]
      exact ⟨e.quotas, e.written, rfl, by simp⟩
    · rw [if_neg hnil]
      have hpos : 0 < data.length := List.length_pos_iff.mpr hnil
      obtain ⟨quotas, written, hblock, hwritten⟩ := sendAll_run (data.take bufferSize) e
      have hrest : (data.drop bufferSize).length ≤ fuel := by
        rw [List.length_drop, bufferSize]
        omega
      obtain ⟨quotas', written', hrun, hwritten'⟩ := ih hrest
        { e with quotas := quotas, written := written }
      rw [bind_done hblock]
      refine ⟨quotas', written', hrun, ?_⟩
      rw [hwritten']
      dsimp only
      rw [hwritten, List.append_assoc, List.take_append_drop]

theorem refines_sendFile (data : Bytes) : Refines (sendFile data) (Squid.sendFile data) := by
  rintro e p ⟨out, rfl, hout⟩
  simp only [Squid.sendFile]
  rw [sendFile]
  by_cases hsize : fileTransferMaxSize < data.length
  · rw [if_pos hsize, if_pos hsize]
    exact .done false ⟨out, rfl, hout⟩
  · rw [if_neg hsize, if_neg hsize]
    obtain ⟨quotas, written, hsizebuf, hwritten⟩ := sendAll_run (pushU64 data.length) e
    obtain ⟨quotas', written', hblocks, hwritten'⟩ := sendBlocks_run (le_refl data.length)
      { e with quotas := quotas, written := written }
    rw [bind_done hsizebuf, bind_done hblocks]
    refine .done true ⟨_, rfl, ?_⟩
    rw [hwritten']
    dsimp only
    rw [hwritten, wire_append, hout]
    simp [Sent.bytes]

theorem refines_sendStoredFile (disk : Disk) (path : Bytes) :
    Refines (sendStoredFile disk path) (Squid.sendStoredFile disk path) := by
  rw [sendStoredFile, Squid.sendStoredFile]
  cases disk.files[disk.resolvePath path]? with
  | none => exact refines_pure _
  | some data => exact refines_sendFile data

section Blocks

variable {σ : Type} {write : σ → Bytes → σ} {mk : Bytes → σ}

/-- With enough bytes to come the blocks add up to the file. -/
theorem receiveBlocks_enough (hwrite : ∀ pre block, write (mk pre) block = mk (pre ++ block))
    (fuel : ℕ) (pre : Bytes) (e : Endpoint) (hfuel : n ≤ fuel)
    (h : n ≤ e.arrivals.flatten.length) :
    ∃ rest, (receiveBlocks write fuel n (mk pre)).run e
        = (.done (some (mk (pre ++ e.arrivals.flatten.take n))), { e with arrivals := rest }) ∧
      rest.flatten = e.arrivals.flatten.drop n := by
  induction fuel generalizing n pre e with
  | zero =>
    obtain rfl : n = 0 := by omega
    exact ⟨e.arrivals, by simp [receiveBlocks]; rfl, by simp⟩
  | succ fuel ih =>
    rw [receiveBlocks]
    by_cases hpos : 0 < n
    · rw [if_pos hpos]
      set k := min bufferSize n with hk
      have hkpos : 0 < k := by
        rw [hk, bufferSize]
        omega
      have hkn : k ≤ n := min_le_right _ _
      obtain ⟨rest, hblock, hrest⟩ := recvAll_enough (n := k) e (by omega)
      have hlen : (e.arrivals.flatten.take k).length = k := by
        rw [List.length_take]
        omega
      rw [bind_done hblock]
      dsimp only
      rw [hlen, hwrite]
      obtain ⟨rest', hrun, hrest'⟩ := ih (n := n - k) (pre ++ e.arrivals.flatten.take k)
        { e with arrivals := rest } (by omega) (by
          dsimp only
          rw [hrest, List.length_drop]
          omega)
      refine ⟨rest', hrun.trans ?_, ?_⟩
      · dsimp only
        have hsplit : e.arrivals.flatten.take n
            = e.arrivals.flatten.take k ++ (e.arrivals.flatten.drop k).take (n - k) := by
          rw [← List.take_add, Nat.add_sub_cancel' hkn]
        rw [hrest, hsplit, List.append_assoc]
      · rw [hrest']
        dsimp only
        rw [hrest, List.drop_drop, Nat.add_sub_cancel' hkn]
    · obtain rfl : n = 0 := by omega
      rw [if_neg hpos]
      exact ⟨e.arrivals, by simp; rfl, by simp⟩

/-- With too few bytes to come the transfer takes them all. -/
theorem receiveBlocks_short (write : σ → Bytes → σ) (fuel : ℕ) (acc : σ) (e : Endpoint) (hfuel : n ≤ fuel)
    (h : e.arrivals.flatten.length < n) :
    ∃ rest, rest.flatten = [] ∧ (receiveBlocks write fuel n acc).run e
      = if e.proto.peerClosed then (.done none, { e with arrivals := rest })
        else (.waiting, { e with arrivals := rest }) := by
  induction fuel generalizing n acc e with
  | zero => omega
  | succ fuel ih =>
    rw [receiveBlocks, if_pos (by omega)]
    set k := min bufferSize n with hk
    have hkpos : 0 < k := by
      rw [hk, bufferSize]
      omega
    have hkn : k ≤ n := min_le_right _ _
    by_cases hblock : k ≤ e.arrivals.flatten.length
    · -- this block is there, a later one is not
      obtain ⟨rest, hrun, hrest⟩ := recvAll_enough e hblock
      have hlen : (e.arrivals.flatten.take k).length = k := by
        rw [List.length_take]
        omega
      rw [bind_done hrun]
      dsimp only
      rw [hlen]
      exact ih _ { e with arrivals := rest } (by omega) (by
        dsimp only
        rw [hrest, List.length_drop]
        omega)
    · obtain ⟨rest, hrest, hrun⟩ := recvAll_short (n := k) e (by omega)
      refine ⟨rest, hrest, ?_⟩
      by_cases hclosed : e.proto.peerClosed = true
      · rw [if_pos hclosed] at hrun ⊢
        rw [bind_done hrun]
        rfl
      · rw [if_neg hclosed] at hrun ⊢
        rw [bind_waiting hrun]

/-- Receiving in blocks is receiving. -/
theorem refines_receiveBlocks (mk : Bytes → σ)
    (hwrite : ∀ pre block, write (mk pre) block = mk (pre ++ block)) (n : ℕ) :
    Refines (receiveBlocks write n n (mk []))
      (Squid.recvAll n >>= fun data => pure (data.map mk)) := by
  rintro e p ⟨out, rfl, hout⟩
  by_cases hlen : n ≤ e.arrivals.flatten.length
  · obtain ⟨rest, hrun, hrest⟩ := receiveBlocks_enough hwrite n [] e le_rfl hlen
    have hread : (Squid.recvAll n).run { e.proto with inp := e.arrivals.flatten, out := out }
        = (.done (some (e.arrivals.flatten.take n)),
            { e.proto with inp := e.arrivals.flatten.drop n, out := out }) := by
      simp only [Squid.recvAll, readExact]
      rw [if_pos hlen]
    rw [hrun, Squid.bind_done hread]
    refine .done _ ⟨out, ?_, hout⟩
    rw [hrest]
  · obtain ⟨rest, hrest, hrun⟩ := receiveBlocks_short write n (mk []) e le_rfl (by omega)
    rw [hrun]
    by_cases hclosed : e.proto.peerClosed = true
    · have hread : (Squid.recvAll n).run { e.proto with inp := e.arrivals.flatten, out := out }
          = (.done none, { e.proto with inp := [], out := out }) := by
        simp only [Squid.recvAll, readExact]
        rw [if_neg hlen, if_pos hclosed]
        rfl
      rw [if_pos hclosed, Squid.bind_done hread]
      refine .done _ ⟨out, ?_, hout⟩
      rw [hrest]
    · have hread : (Squid.recvAll n).run { e.proto with inp := e.arrivals.flatten, out := out }
          = (.waiting, { e.proto with inp := e.arrivals.flatten, out := out }) := by
        simp only [Squid.recvAll, readExact]
        rw [if_neg hlen, if_neg hclosed]
      rw [if_neg hclosed, Squid.bind_waiting hread]
      exact .waiting _ _

end Blocks

theorem refines_receiveFile : Refines receiveFile Squid.receiveFile := by
  refine (refines_recvAll 8).bind fun sizebuf => ?_
  cases sizebuf with
  | none => exact refines_pure _
  | some sizebuf =>
    dsimp only
    by_cases hsize : fileTransferMaxSize < beNat sizebuf
    · rw [if_pos hsize, if_pos hsize]
      exact refines_pure _
    · rw [if_neg hsize, if_neg hsize]
      have hblocks : Refines (receiveBlocks (· ++ ·) (beNat sizebuf) (beNat sizebuf) [])
          (Squid.recvAll (beNat sizebuf) >>= fun data => pure (data.map id)) :=
        refines_receiveBlocks id (fun _ _ => rfl) (beNat sizebuf)
      simp only [Option.map_id, id_eq, bind_pure] at hblocks
      exact hblocks

theorem appendTo_store (name : Bytes) (disk : Disk) (pre block : Bytes) :
    appendTo name (disk.store name pre) block = disk.store name (pre ++ block) :=
  disk.store_append name pre block

/-- **Receiving into a file is receiving into memory and storing that.** -/
theorem refines_receiveStoredFile (disk : Disk) (path : Bytes) :
    Refines (receiveStoredFile disk path) (Squid.receiveStoredFile disk path) := by
  rw [receiveStoredFile, Squid.receiveStoredFile]
  dsimp only
  cases disk.openOutput (disk.resolvePath path) with
  | threw err => exact refines_lift fun _ _ _ => rfl
  | refused => exact refines_pure _
  | opened =>
    dsimp only
    rw [Squid.receiveFile, bind_assoc]
    refine (refines_recvAll 8).bind fun sizebuf => ?_
    cases sizebuf with
    | none =>
      rw [pure_bind]
      exact refines_pure _
    | some sizebuf =>
      dsimp only
      by_cases hsize : fileTransferMaxSize < beNat sizebuf
      · rw [if_pos hsize, if_pos hsize, pure_bind]
        exact refines_pure _
      · rw [if_neg hsize, if_neg hsize]
        have hblocks := refines_receiveBlocks (disk.store (disk.resolvePath path))
          (appendTo_store (disk.resolvePath path) disk) (beNat sizebuf)
        refine hblocks.bind_map fun data => ?_
        cases data with
        | none => exact refines_pure _
        | some data => exact refines_pure _

end StreamM

end Squid
