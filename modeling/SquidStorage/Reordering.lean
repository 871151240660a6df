/-
Sequence numbers and reordering.

Frames may arrive in any order and more than once, also with different contents
under one number.  `receiveAndParse` keeps what comes early, drops what comes
late, and delivers every number once.

* `Resequencing` — what has been read of the arrivals, and what the buffer holds of it;
* `Resequencing.round` — a call delivers the first arrival with the expected number;
* `receive_in_order` — `n` calls deliver the numbers `0 .. n - 1`, each with the frame
  that came first, and the buffer ends up empty.
-/
import SquidStorage.FrameReading

namespace Squid

/-- `n` successive calls of `receiveAndParse`. -/
def receiveTimes : ℕ → ProtoM (List Message)
  | 0 => pure []
  | n + 1 => do
    let msg ← receiveAndParse
    let msgs ← receiveTimes n
    pure (msg :: msgs)

/-- The frame that came first under a number. -/
def firstArrived (arrivals : List WireFrame) (seq : UInt32) : Option WireFrame :=
  arrivals.find? fun f => f.seq = seq

theorem firstArrived_append (seen ahead : List WireFrame) (seq : UInt32) :
    firstArrived (seen ++ ahead) seq = (firstArrived seen seq).or (firstArrived ahead seq) :=
  List.find?_append

theorem firstArrived_cons (f : WireFrame) (ahead : List WireFrame) (seq : UInt32) :
    firstArrived (f :: ahead) seq = if f.seq = seq then some f else firstArrived ahead seq := by
  by_cases h : f.seq = seq
  · rw [if_pos h, firstArrived, List.find?_cons_of_pos (by simpa using h)]
  · rw [if_neg h, firstArrived, List.find?_cons_of_neg (by simpa using h), firstArrived]

/-- A frame that is not the first one changes nothing. -/
theorem firstArrived_concat_of_ne {f : WireFrame} {seq : UInt32} (h : f.seq ≠ seq)
    (seen : List WireFrame) : firstArrived (seen ++ [f]) seq = firstArrived seen seq := by
  rw [firstArrived_append, firstArrived_cons, if_neg h]
  exact Option.or_none

theorem seq_of_firstArrived {arrivals : List WireFrame} {seq : UInt32} {f : WireFrame}
    (h : firstArrived arrivals seq = some f) : f.seq = seq := by
  have := List.find?_some h
  simpa using this

theorem exists_firstArrived {arrivals : List WireFrame} {f : WireFrame} (h : f ∈ arrivals) :
    ∃ g, firstArrived arrivals f.seq = some g := by
  rw [← Option.isSome_iff_exists, firstArrived, List.find?_isSome]
  exact ⟨f, h, by simp⟩

/-! ### One frame -/

section Sequence

variable {raw : Bytes} {msg : Message} {s : Proto}

theorem sequenceMessage_expected (h : msg.seq = s.expectedRecvSeq) :
    (sequenceMessage raw msg).run s = (.done (some msg), s.delivered s.inp) :=
  if_pos h

theorem sequenceMessage_early (h : s.expectedRecvSeq < msg.seq) :
    (sequenceMessage raw msg).run s
      = (.done none, { s with reorderBuffer := s.reorderBuffer.insertIfNew msg.seq raw }) := by
  have hne : msg.seq ≠ s.expectedRecvSeq := fun heq => UInt32.lt_irrefl _ (heq ▸ h)
  exact (if_neg hne).trans (if_pos h)

theorem sequenceMessage_late (h : msg.seq < s.expectedRecvSeq) :
    (sequenceMessage raw msg).run s = (.done none, s) := by
  have hne : msg.seq ≠ s.expectedRecvSeq := fun heq => UInt32.lt_irrefl _ (heq ▸ h)
  exact (if_neg hne).trans (if_neg (UInt32.not_lt.mpr (UInt32.le_of_lt h)))

/-- A round of the loop that delivers. -/
theorem loop_delivers {f : WireFrame} {t u : Proto} (hnext : nextFrame.run s = (.done f.bytes, t))
    (hseq : (sequenceMessage f.bytes f.message).run t = (.done (some msg), u)) (fuel : ℕ) :
    (receiveAndParseLoop (fuel + 1)).run s = (.done msg, u) := by
  rw [receiveAndParseLoop, bind_done hnext, if_neg f.bytes_ne_nil, f.parseMessage_bytes]
  dsimp only
  rw [bind_done hseq, pure_run]

/-- A round of the loop that reads on. -/
theorem loop_continues {f : WireFrame} {t u : Proto} (hnext : nextFrame.run s = (.done f.bytes, t))
    (hseq : (sequenceMessage f.bytes f.message).run t = (.done none, u)) (fuel : ℕ) :
    (receiveAndParseLoop (fuel + 1)).run s = (receiveAndParseLoop fuel).run u := by
  rw [receiveAndParseLoop, bind_done hnext, if_neg f.bytes_ne_nil, f.parseMessage_bytes]
  dsimp only
  rw [bind_done hseq]

end Sequence

/-! ### One call -/

/-- The frames `seen` have been read, those `ahead` are still on the wire.  The
buffer holds, for the expected number and every later one, the frame that came
first, and nothing else. -/
structure Resequencing (seen ahead : List WireFrame) (s : Proto) : Prop where
  inp : s.inp = ahead.flatMap WireFrame.bytes
  held : ∀ seq, s.reorderBuffer[seq]?
    = if s.expectedRecvSeq ≤ seq then (firstArrived seen seq).map WireFrame.bytes else none

namespace Resequencing

variable {seen ahead : List WireFrame} {s : Proto} {f : WireFrame}

/-- The numbers from the next one on are those that are neither past nor delivered now. -/
theorem succ_le_iff {k seq : UInt32} (hlast : k.toNat + 1 < 2 ^ 32) :
    k + 1 ≤ seq ↔ k ≤ seq ∧ k ≠ seq := by
  have hsucc : (k + 1).toNat = k.toNat + 1 := by
    rw [UInt32.toNat_add, UInt32.toNat_one, Nat.mod_eq_of_lt hlast]
  rw [UInt32.le_iff_toNat_le, UInt32.le_iff_toNat_le, hsucc, Ne, ← UInt32.toNat_inj]
  omega

/-- The expected frame is delivered, from the buffer or off the wire. -/
theorem delivered (hlast : s.expectedRecvSeq.toNat + 1 < 2 ^ 32)
    (hheld : ∀ seq, s.expectedRecvSeq ≠ seq → s.reorderBuffer[seq]?
      = if s.expectedRecvSeq ≤ seq then (firstArrived seen seq).map WireFrame.bytes else none)
    (hnone : s.reorderBuffer[s.expectedRecvSeq]? = none) :
    Resequencing seen ahead (s.delivered (ahead.flatMap WireFrame.bytes)) := by
  refine ⟨rfl, fun seq => ?_⟩
  show s.reorderBuffer[seq]? = if s.expectedRecvSeq + 1 ≤ seq then _ else none
  by_cases hseq : s.expectedRecvSeq = seq
  · subst hseq
    rw [hnone, if_neg]
    rw [succ_le_iff hlast]
    exact fun h => h.2 rfl
  · rw [hheld seq hseq]
    have hiff : s.expectedRecvSeq + 1 ≤ seq ↔ s.expectedRecvSeq ≤ seq :=
      (succ_le_iff hlast).trans (and_iff_left hseq)
    simp only [hiff]

/-- A frame that is not expected now is kept or dropped, and the next one is read. -/
theorem postponed (h : Resequencing seen (f :: ahead) s) (hf : f.seq ≠ s.expectedRecvSeq) :
    ∃ s', (sequenceMessage f.bytes f.message).run { s with inp := ahead.flatMap WireFrame.bytes }
        = (.done none, s') ∧ Resequencing (seen ++ [f]) ahead s' ∧
      s'.expectedRecvSeq = s.expectedRecvSeq := by
  rcases UInt32.lt_or_lt_of_ne hf with hlt | hlt
  · -- the frame is late: its number is none of those that the buffer is for
    refine ⟨_, sequenceMessage_late hlt, ⟨rfl, fun seq => ?_⟩, rfl⟩
    show s.reorderBuffer[seq]? = if s.expectedRecvSeq ≤ seq then _ else none
    rw [h.held]
    by_cases hle : s.expectedRecvSeq ≤ seq
    · have hne : f.seq ≠ seq := fun heq => UInt32.not_lt.mpr hle (heq ▸ hlt)
      rw [if_pos hle, if_pos hle, firstArrived_concat_of_ne hne]
    · rw [if_neg hle, if_neg hle]
  · refine ⟨_, sequenceMessage_early hlt, ⟨rfl, fun seq => ?_⟩, rfl⟩
    show (s.reorderBuffer.insertIfNew f.seq f.bytes)[seq]?
      = if s.expectedRecvSeq ≤ seq then _ else none
    rw [Std.ExtTreeMap.getElem?_insertIfNew]
    by_cases hseq : f.seq = seq
    · -- the buffer keeps what it has under this number
      subst hseq
      have hheld := h.held f.seq
      rw [if_pos (UInt32.le_of_lt hlt)] at hheld
      rw [if_pos (UInt32.le_of_lt hlt), firstArrived_append, firstArrived_cons, if_pos rfl]
      cases hfirst : firstArrived seen f.seq with
      | none =>
        rw [hfirst] at hheld
        have hnew : f.seq ∉ s.reorderBuffer := by
          rw [Std.ExtTreeMap.mem_iff_isSome_getElem?, hheld]
          simp
        rw [if_pos ⟨Std.ReflOrd.compare_self, hnew⟩]
        rfl
      | some g =>
        rw [hfirst] at hheld
        have hmem : f.seq ∈ s.reorderBuffer := by
          rw [Std.ExtTreeMap.mem_iff_isSome_getElem?, hheld]
          rfl
        rw [if_neg fun hnew => hnew.2 hmem, hheld]
        rfl
    · rw [if_neg fun hnew => hseq (Std.LawfulEqOrd.eq_of_compare hnew.1),
        firstArrived_concat_of_ne hseq]
      exact h.held seq

/-- The expected frame came early: it is taken out of the buffer. -/
theorem buffered (h : Resequencing seen ahead s) (hlast : s.expectedRecvSeq.toNat + 1 < 2 ^ 32)
    (hf : firstArrived seen s.expectedRecvSeq = some f) (fuel : ℕ) :
    ∃ s', (receiveAndParseLoop (fuel + 1)).run s = (.done f.message, s') ∧
      Resequencing seen ahead s' ∧ s'.expectedRecvSeq = s.expectedRecvSeq + 1 := by
  set t : Proto := { s with reorderBuffer := s.reorderBuffer.erase s.expectedRecvSeq } with ht
  have hheld : s.reorderBuffer[s.expectedRecvSeq]? = some f.bytes := by
    rw [h.held, if_pos UInt32.le_rfl, hf]
    rfl
  have hpop : popNextBuffered.run s = (.done (some f.bytes), t) := by
    simp only [popNextBuffered, hheld, ht]
  have hnext : nextFrame.run s = (.done f.bytes, t) := bind_done hpop
  have hseq : (sequenceMessage f.bytes f.message).run t = (.done (some f.message), t.delivered t.inp) :=
    sequenceMessage_expected (seq_of_firstArrived hf)
  refine ⟨_, loop_delivers hnext hseq fuel, ?_, rfl⟩
  rw [show t.inp = ahead.flatMap WireFrame.bytes from h.inp]
  refine delivered (s := t) hlast (fun seq hne => ?_) ?_
  · show (s.reorderBuffer.erase s.expectedRecvSeq)[seq]? = _
    rw [Std.ExtTreeMap.getElem?_erase, if_neg fun heq => hne (Std.LawfulEqOrd.eq_of_compare heq)]
    exact h.held seq
  · show (s.reorderBuffer.erase s.expectedRecvSeq)[s.expectedRecvSeq]? = none
    exact Std.ExtTreeMap.getElem?_erase_self

/-- Nothing is buffered under the expected number: the next frame comes off the wire. -/
theorem off_wire {g : WireFrame} (h : Resequencing seen (g :: ahead) s)
    (hseen : firstArrived seen s.expectedRecvSeq = none) :
    nextFrame.run s = (.done g.bytes, { s with inp := ahead.flatMap WireFrame.bytes }) := by
  have hheld : s.reorderBuffer[s.expectedRecvSeq]? = none := by
    rw [h.held, if_pos UInt32.le_rfl, hseen]
    rfl
  have hpop : popNextBuffered.run s = (.done none, s) := by simp only [popNextBuffered, hheld]
  rw [nextFrame, bind_done hpop]
  exact g.receiveFrame_bytes h.inp

/-- **A call delivers the first arrival with the expected number**, however many
frames it has to read before. -/
theorem round (h : Resequencing seen ahead s) (hlast : s.expectedRecvSeq.toNat + 1 < 2 ^ 32)
    (hf : firstArrived (seen ++ ahead) s.expectedRecvSeq = some f) {fuel : ℕ}
    (hfuel : ahead.length < fuel) :
    ∃ seen' ahead' s', (receiveAndParseLoop fuel).run s = (.done f.message, s') ∧
      seen' ++ ahead' = seen ++ ahead ∧ Resequencing seen' ahead' s' ∧
      s'.expectedRecvSeq = s.expectedRecvSeq + 1 := by
  obtain ⟨fuel, rfl⟩ : ∃ k, fuel = k + 1 := ⟨fuel - 1, by omega⟩
  rw [firstArrived_append] at hf
  cases hseen : firstArrived seen s.expectedRecvSeq with
  | some g =>
    rw [hseen] at hf
    obtain rfl : g = f := Option.some.inj hf
    obtain ⟨s', hrun, hs', hnext⟩ := h.buffered hlast hseen fuel
    exact ⟨seen, ahead, s', hrun, rfl, hs', hnext⟩
  | none =>
    rw [hseen, Option.none_or] at hf
    -- each frame that is put off is one fewer ahead
    induction ahead generalizing seen s fuel with
    | nil => simp [firstArrived] at hf
    | cons g ahead ih =>
      have hnext := h.off_wire hseen
      rw [firstArrived_cons] at hf
      by_cases hg : g.seq = s.expectedRecvSeq
      · rw [if_pos hg] at hf
        obtain rfl : g = f := Option.some.inj hf
        refine ⟨seen ++ [g], ahead, _, loop_delivers hnext (sequenceMessage_expected hg) fuel,
          by simp, delivered (s := s) hlast (fun seq hne => ?_) ?_, rfl⟩
        · rw [firstArrived_concat_of_ne (hg ▸ hne)]
          exact h.held seq
        · rw [h.held, if_pos UInt32.le_rfl, hseen]
          rfl
      · rw [if_neg hg] at hf
        obtain ⟨s', hseq, hs', hexpected⟩ := h.postponed hg
        obtain ⟨fuel, rfl⟩ : ∃ k, fuel = k + 1 := ⟨fuel - 1, by simp at hfuel; omega⟩
        rw [loop_continues hnext hseq, ← hexpected]
        obtain ⟨seen', ahead', t, hrun, hsplit, ht, hnext'⟩ := ih hs' (hexpected ▸ hlast)
          (hexpected ▸ hf) fuel (by simpa using hfuel)
          (by rw [hexpected, firstArrived_concat_of_ne hg, hseen])
        exact ⟨seen', ahead', t, hrun, by simpa using hsplit, ht, hnext'⟩

/-- A call of `receiveAndParse`: its loop has fuel enough. -/
theorem receive (h : Resequencing seen ahead s) (hlast : s.expectedRecvSeq.toNat + 1 < 2 ^ 32)
    (hf : firstArrived (seen ++ ahead) s.expectedRecvSeq = some f) :
    ∃ seen' ahead' s', receiveAndParse.run s = (.done f.message, s') ∧
      seen' ++ ahead' = seen ++ ahead ∧ Resequencing seen' ahead' s' ∧
      s'.expectedRecvSeq = s.expectedRecvSeq + 1 := by
  -- a frame has a byte at least
  have hlen : ahead.length ≤ s.inp.length := by
    rw [h.inp, List.length_flatMap]
    have hpos : ∀ m ∈ ahead.map fun g => g.bytes.length, 1 ≤ m := by
      intro m hm
      obtain ⟨g, -, rfl⟩ := List.mem_map.mp hm
      exact List.length_pos_of_ne_nil g.bytes_ne_nil
    simpa using List.card_nsmul_le_sum _ 1 hpos
  have hfuel : ahead.length < s.inp.length + 2 := by omega
  exact h.round hlast hf hfuel

/-- **The calls deliver the numbers in order.** -/
theorem receive_times {arrivals : List WireFrame} (n : ℕ) (h : Resequencing seen ahead s)
    (harrivals : seen ++ ahead = arrivals) (hlast : s.expectedRecvSeq.toNat + n < 2 ^ 32)
    (hall : ∀ k < n, ∃ f ∈ arrivals, f.seq.toNat = s.expectedRecvSeq.toNat + k) :
    ∃ msgs seen' ahead' s', (receiveTimes n).run s = (.done msgs, s') ∧
      seen' ++ ahead' = arrivals ∧ Resequencing seen' ahead' s' ∧
      s'.expectedRecvSeq.toNat = s.expectedRecvSeq.toNat + n ∧ msgs.length = n ∧
      ∀ k < n, ∃ f, firstArrived arrivals (UInt32.ofNat (s.expectedRecvSeq.toNat + k)) = some f ∧
        msgs[k]? = some f.message := by
  induction n generalizing seen ahead s with
  | zero => exact ⟨[], seen, ahead, s, rfl, harrivals, h, rfl, rfl, by simp⟩
  | succ n ih =>
    have hsucc : (s.expectedRecvSeq + 1).toNat = s.expectedRecvSeq.toNat + 1 := by
      rw [UInt32.toNat_add, UInt32.toNat_one, Nat.mod_eq_of_lt (by omega)]
    obtain ⟨g, hg, hgseq⟩ := hall 0 (Nat.succ_pos n)
    obtain ⟨f, hf⟩ := exists_firstArrived hg
    rw [UInt32.toNat_inj.mp hgseq] at hf
    obtain ⟨seen₁, ahead₁, s₁, hrun, hsplit, hs₁, hexp⟩ :=
      h.receive (f := f) (by omega) (harrivals ▸ hf)
    have hall₁ : ∀ k < n, ∃ f ∈ arrivals, f.seq.toNat = s₁.expectedRecvSeq.toNat + k := by
      intro k hk
      obtain ⟨g', hg', hseq⟩ := hall (k + 1) (by omega)
      exact ⟨g', hg', by rw [hexp, hseq]; omega⟩
    obtain ⟨msgs, seen', ahead', s', hruns, hsplit', hs', hexp', hlen, hmsgs⟩ :=
      ih hs₁ (hsplit.trans harrivals) (by rw [hexp]; omega) hall₁
    refine ⟨f.message :: msgs, seen', ahead', s', ?_, hsplit', hs', ?_, ?_, fun k hk => ?_⟩
    · rw [receiveTimes, bind_done hrun, bind_done hruns, pure_run]
    · rw [hexp', hexp]
      omega
    · rw [List.length_cons, hlen]
    · cases k with
      | zero => exact ⟨f, by rwa [Nat.add_zero, UInt32.ofNat_toNat], rfl⟩
      | succ k =>
        obtain ⟨f', hf', hmsg⟩ := hmsgs k (by omega)
        refine ⟨f', ?_, hmsg⟩
        rwa [hexp, hsucc, Nat.add_assoc, Nat.add_comm 1] at hf'

end Resequencing

/-- **Every number is delivered once, in order.**  Whatever the order of the
arrivals and however often and with whatever contents a number comes again, `n`
calls on a fresh protocol return the messages `0 .. n - 1`, each that of the frame
that came first, and nothing stays in the buffer. -/
theorem receive_in_order (n : ℕ) (hn : n < 2 ^ 32) (arrivals : List WireFrame)
    (hbelow : ∀ f ∈ arrivals, f.seq.toNat < n)
    (hall : ∀ k < n, ∃ f ∈ arrivals, f.seq.toNat = k) (closed : Bool) :
    ∃ msgs s', (receiveTimes n).run
        { inp := arrivals.flatMap WireFrame.bytes, peerClosed := closed } = (.done msgs, s') ∧
      s'.reorderBuffer = ∅ ∧ msgs.length = n ∧
      ∀ k < n, ∃ f, firstArrived arrivals (UInt32.ofNat k) = some f ∧
        msgs[k]? = some f.message ∧ f.message.seq.toNat = k := by
  set s : Proto := { inp := arrivals.flatMap WireFrame.bytes, peerClosed := closed } with hs
  have hfresh : Resequencing [] arrivals s := by
    refine ⟨rfl, fun seq => ?_⟩
    simp [hs, firstArrived]
  have hzero : s.expectedRecvSeq.toNat = 0 := rfl
  obtain ⟨msgs, seen, ahead, s', hrun, hsplit, hs', hexpected, hlen, hmsgs⟩ :=
    hfresh.receive_times n (List.nil_append arrivals) (by omega)
      (by simpa only [hzero, Nat.zero_add] using hall)
  rw [hzero, Nat.zero_add] at hexpected
  refine ⟨msgs, s', hrun, ?_, hlen, fun k hk => ?_⟩
  · -- the buffer is for the numbers from `n` on, and none has arrived
    refine Std.ExtTreeMap.ext_getElem? fun seq => ?_
    rw [hs'.held seq, Std.ExtTreeMap.getElem?_empty]
    split
    · rename_i hle
      rw [UInt32.le_iff_toNat_le, hexpected] at hle
      cases hfirst : firstArrived seen seq with
      | none => rfl
      | some f =>
        have hmem : f ∈ arrivals := hsplit ▸ List.mem_append_left _ (List.mem_of_find?_eq_some hfirst)
        have hlt := hbelow f hmem
        rw [seq_of_firstArrived hfirst] at hlt
        omega
    · rfl
  · obtain ⟨f, hf, hmsg⟩ := hmsgs k hk
    rw [hzero, Nat.zero_add] at hf
    refine ⟨f, hf, hmsg, ?_⟩
    rw [WireFrame.message_seq, seq_of_firstArrived hf, UInt32.toNat_ofNat', Nat.mod_eq_of_lt (by omega)]

/-- Number 1 comes first, and then again under another opcode. -/
theorem receive_in_order_two :
    let hb : UInt32 → WireFrame := fun seq => ⟨.heartbeat, 0, seq, [], [], by decide, by decide⟩
    let other : WireFrame := ⟨.close, 0, 1, [], [], by decide, by decide⟩
    let arrivals := [hb 1, other, hb 0]
    ∃ msgs s', (receiveTimes 2).run { inp := arrivals.flatMap WireFrame.bytes } = (.done msgs, s') ∧
      s'.reorderBuffer = ∅ ∧ msgs.length = 2 ∧ msgs[1]? = some (hb 1).message := by
  intro hb other arrivals
  obtain ⟨msgs, s', hrun, hbuffer, hlen, hmsgs⟩ :=
    receive_in_order 2 (by decide) arrivals (by decide) (by decide) false
  obtain ⟨f, hf, hmsg, -⟩ := hmsgs 1 (by decide)
  refine ⟨msgs, s', hrun, hbuffer, hlen, ?_⟩
  obtain rfl : hb 1 = f := Option.some.inj hf
  exact hmsg

end Squid
