/-
Runs of a machine whose events may be refused.

`step s e` is the state after the event `e`, or `none` when `e` cannot happen
in `s`; `run` does the same for a list of events.  A safety property of all
runs whose events meet a side condition `C` needs one step lemma:

* `run_invariant` — what every step that meets `C` preserves, every run that
  meets `C` preserves.
* `run_rank` — events that lower a rank are bounded by the rank.

`Since A B` is the history of a run: some event met `A`, and none since has met
`B`.  When a step keeps a relation between the history and the state exactly if it
meets `C`, the relation holds throughout a run exactly if all its steps meet `C`:

* `since_concat` — the history after one more event;
* `holds_of_since` — what an event begins and others do not end holds at the end of the run;
* `always_iff_of_refused`, `always_iff` — the exact form of the invariant rule.
-/
import Mathlib.Algebra.GroupWithZero.Nat
import Mathlib.Data.List.Induction

namespace Runs

variable {σ ε : Type} (step : σ → ε → Option σ)

/-- The state after a list of events. -/
def run : σ → List ε → Option σ
  | s, [] => some s
  | s, e :: es => (step s e).bind fun t => run t es

/-- Every event of the run meets `C` in the state it happens in. -/
def Meets (C : σ → ε → Prop) : σ → List ε → Prop
  | _, [] => True
  | s, e :: es => C s e ∧ ∀ t, step s e = some t → Meets C t es

variable {step}

instance (C : σ → ε → Prop) [∀ s e, Decidable (C s e)] :
    (s : σ) → (es : List ε) → Decidable (Meets step C s es)
  | _, [] => isTrue True.intro
  | s, e :: es =>
    match h : step s e with
    | none => decidable_of_iff (C s e) ⟨fun hC => ⟨hC, by simp [h]⟩, And.left⟩
    | some t =>
      have := instDecidableMeets C t es
      decidable_of_iff (C s e ∧ Meets step C t es) (and_congr_right fun _ => by simp [h])

theorem run_cons {s t : σ} {e : ε} {es : List ε} (h : run step s (e :: es) = some t) :
    ∃ u, step s e = some u ∧ run step u es = some t :=
  Option.bind_eq_some_iff.mp h

theorem run_append_bind (s : σ) (es fs : List ε) :
    run step s (es ++ fs) = (run step s es).bind fun t => run step t fs := by
  induction es generalizing s with
  | nil => rfl
  | cons e es ih =>
    rw [List.cons_append, run, run, Option.bind_assoc]
    congr 1
    funext t
    exact ih t

theorem run_append {s t : σ} {es fs : List ε} (h : run step s es = some t) :
    run step s (es ++ fs) = run step t fs := by
  rw [run_append_bind, h, Option.bind_some]

theorem Meets.cons {C : σ → ε → Prop} {s t : σ} {e : ε} {es : List ε} (h : step s e = some t)
    (hC : C s e) (hes : Meets step C t es) : Meets step C s (e :: es) := by
  refine ⟨hC, fun u hu => ?_⟩
  obtain rfl : t = u := Option.some.inj (h.symm.trans hu)
  exact hes

theorem Meets.trivial (s : σ) (es : List ε) : Meets step (fun _ _ => True) s es := by
  induction es generalizing s with
  | nil => exact True.intro
  | cons e es ih => exact ⟨True.intro, fun t _ => ih t⟩

/-- What all events of the list satisfy is met in every state. -/
theorem Meets.and_forall {C : σ → ε → Prop} {D : ε → Prop} {s : σ} {es : List ε}
    (h : Meets step C s es) (hD : ∀ e ∈ es, D e) : Meets step (fun s e => C s e ∧ D e) s es := by
  induction es generalizing s with
  | nil => exact True.intro
  | cons e es ih =>
    obtain ⟨hhead, htail⟩ := List.forall_mem_cons.mp hD
    exact ⟨⟨h.1, hhead⟩, fun t ht => ih (h.2 t ht) htail⟩

/-- A run that meets `C` meets it up to any of its states, and from there on. -/
theorem Meets.split {C : σ → ε → Prop} {s : σ} {es fs : List ε}
    (h : Meets step C s (es ++ fs)) :
    Meets step C s es ∧ ∀ t, run step s es = some t → Meets step C t fs := by
  induction es generalizing s with
  | nil =>
    refine ⟨True.intro, fun t ht => ?_⟩
    obtain rfl : s = t := Option.some.inj ht
    exact h
  | cons e es ih =>
    refine ⟨⟨h.1, fun t ht => (ih (h.2 t ht)).1⟩, fun u hu => ?_⟩
    obtain ⟨t, ht, hrest⟩ := run_cons hu
    exact (ih (h.2 t ht)).2 u hrest

/-- Some run leads from one state to the other. -/
def Reaches (step : σ → ε → Option σ) (s t : σ) : Prop := ∃ es, run step s es = some t

theorem Reaches.refl (s : σ) : Reaches step s s := ⟨[], rfl⟩

theorem Reaches.single {s t : σ} (e : ε) (h : step s e = some t) : Reaches step s t :=
  ⟨[e], by rw [run, h]; rfl⟩

theorem Reaches.trans {s t u : σ} (hst : Reaches step s t) (htu : Reaches step t u) :
    Reaches step s u := by
  obtain ⟨es, hes⟩ := hst
  obtain ⟨fs, hfs⟩ := htu
  exact ⟨es ++ fs, by rw [run_append hes, hfs]⟩

/-- **The invariant rule.** -/
theorem run_invariant {P : σ → Prop} {C : σ → ε → Prop}
    (hstep : ∀ s e t, P s → C s e → step s e = some t → P t) {s t : σ} {es : List ε}
    (hs : P s) (hmeets : Meets step C s es) (hrun : run step s es = some t) : P t := by
  induction es generalizing s with
  | nil =>
    obtain rfl : s = t := Option.some.inj hrun
    exact hs
  | cons e es ih =>
    obtain ⟨u, hu, hrest⟩ := run_cons hrun
    exact ih (hstep s e u hs hmeets.1 hu) (hmeets.2 u hu) hrest

/-- **The rank rule**: when every event of the kind `own` lowers a rank that the other events
raise by what they bring, the events of the kind are bounded by the rank and what was brought. -/
theorem run_rank {P : σ → Prop} {C : σ → ε → Prop} (rank : σ → ℕ) (own : ε → Bool) (brings : ε → ℕ)
    (hstep : ∀ s e t, P s → C s e → step s e = some t →
      P t ∧ rank t + (own e).toNat ≤ rank s + brings e) {s t : σ} {es : List ε}
    (hs : P s) (hmeets : Meets step C s es) (hrun : run step s es = some t) :
    P t ∧ es.countP own + rank t ≤ rank s + (es.map brings).sum := by
  induction es generalizing s with
  | nil =>
    obtain rfl : s = t := Option.some.inj hrun
    exact ⟨hs, Nat.le_of_eq (Nat.add_comm 0 (rank s))⟩
  | cons e es ih =>
    obtain ⟨u, hu, hrest⟩ := run_cons hrun
    obtain ⟨hP, hone⟩ := hstep s e u hs hmeets.1 hu
    obtain ⟨ht, hmany⟩ := ih hP (hmeets.2 u hu) hrest
    refine ⟨ht, ?_⟩
    rw [List.map_cons, List.sum_cons]
    cases hown : own e with
    | false =>
      rw [List.countP_cons_of_neg (by simp [hown])]
      rw [hown, Bool.toNat_false] at hone
      omega
    | true =>
      rw [List.countP_cons_of_pos hown]
      rw [hown, Bool.toNat_true] at hone
      omega

/-! ### Histories -/

theorem run_concat_eq_some {s u : σ} {e : ε} {es : List ε} :
    run step s (es ++ [e]) = some u ↔ ∃ t, run step s es = some t ∧ step t e = some u := by
  have hone : ∀ t, run step t [e] = step t e := fun t => Option.bind_fun_some (step t e)
  rw [run_append_bind, Option.bind_eq_some_iff]
  simp only [hone]

/-- The two ways to split a list that ends in `e`. -/
theorem concat_eq_split {es pre post : List ε} {e a : ε} (h : es ++ [e] = pre ++ a :: post) :
    (pre = es ∧ a = e ∧ post = []) ∨ ∃ post', post = post' ++ [e] ∧ es = pre ++ a :: post' := by
  rcases List.eq_nil_or_concat post with rfl | ⟨post', b, rfl⟩
  · obtain ⟨hes, hlast⟩ := List.append_inj' h rfl
    exact Or.inl ⟨hes.symm, (List.singleton_inj.mp hlast).symm, rfl⟩
  · have h' : es ++ [e] = (pre ++ a :: post') ++ [b] := by simp [h]
    obtain ⟨hes, hlast⟩ := List.append_inj' h' rfl
    obtain rfl := List.singleton_inj.mp hlast
    exact Or.inr ⟨post', List.concat_eq_append, hes⟩

/-- Some event met `A` in the state it happened in, and none since has met `B`. -/
def Since (step : σ → ε → Option σ) (A B : σ → ε → Prop) (s : σ) (es : List ε) : Prop :=
  ∃ pre e post t, es = pre ++ e :: post ∧ run step s pre = some t ∧ A t e ∧
    ∀ l e' r u, post = l ++ e' :: r → run step s (pre ++ e :: l) = some u → ¬ B u e'

theorem not_since_nil (A B : σ → ε → Prop) (s : σ) : ¬ Since step A B s [] := by
  rintro ⟨pre, e, post, t, hsplit, -⟩
  simp at hsplit

/-- **One more event**: it starts the history, or does not end it. -/
theorem since_concat {A B : σ → ε → Prop} {s t : σ} {es : List ε} {e : ε}
    (hrun : run step s es = some t) :
    Since step A B s (es ++ [e]) ↔ A t e ∨ (Since step A B s es ∧ ¬ B t e) := by
  constructor
  · rintro ⟨pre, a, post, u, hsplit, hu, hA, hB⟩
    rcases concat_eq_split hsplit with ⟨rfl, rfl, rfl⟩ | ⟨post', rfl, hes⟩
    · obtain rfl : t = u := Option.some.inj (hrun.symm.trans hu)
      exact Or.inl hA
    · refine Or.inr ⟨⟨pre, a, post', u, hes, hu, hA, fun l e' r v hl hv => ?_⟩, ?_⟩
      · exact hB l e' (r ++ [e]) v (by simp [hl]) hv
      · exact hB post' e [] t rfl (hes ▸ hrun)
  · rintro (hA | ⟨⟨pre, a, post, u, hes, hu, hA, hB⟩, hnot⟩)
    · refine ⟨es, e, [], t, rfl, hrun, hA, fun l e' r v hl => ?_⟩
      simp at hl
    · refine ⟨pre, a, post ++ [e], u, by simp [hes], hu, hA, fun l e' r v hl hv => ?_⟩
      rcases concat_eq_split hl with ⟨rfl, rfl, rfl⟩ | ⟨r', rfl, hpost⟩
      · obtain rfl : t = v := Option.some.inj (hrun.symm.trans (hes ▸ hv))
        exact hnot
      · exact hB l e' r' v hpost hv

/-- **The history rule**: what every event that meets `A` begins, and only `B` ends. -/
theorem holds_of_since {P : σ → Prop} {A B : σ → ε → Prop}
    (hbegins : ∀ s e t, step s e = some t → A s e → P t)
    (hlasts : ∀ s e t, step s e = some t → P s → ¬ B s e → P t) {s t : σ} {es : List ε}
    (hrun : run step s es = some t) (hsince : Since step A B s es) : P t := by
  induction es using List.reverseRecOn generalizing t with
  | nil => exact absurd hsince (not_since_nil A B s)
  | append_singleton es e ih =>
    obtain ⟨u, hu, hstep⟩ := run_concat_eq_some.mp hrun
    rcases (since_concat hu).mp hsince with hA | ⟨hbefore, hB⟩
    · exact hbegins u e t hstep hA
    · exact hlasts u e t hstep (ih hu hbefore) hB

/-- **The invariant rule** for what the state has to do with the events before it. -/
theorem run_history {P : List ε → σ → Prop} {C : σ → ε → Prop} {s t : σ} {es : List ε}
    (hstep : ∀ pre e t u, run step s pre = some t → P pre t → C t e → step t e = some u →
      P (pre ++ [e]) u)
    (hnil : P [] s) (hmeets : Meets step C s es) (hrun : run step s es = some t) : P es t := by
  induction es using List.reverseRecOn generalizing t with
  | nil =>
    obtain rfl : s = t := Option.some.inj hrun
    exact hnil
  | append_singleton es e ih =>
    obtain ⟨u, hu, ht⟩ := run_concat_eq_some.mp hrun
    obtain ⟨hbefore, hlast⟩ := hmeets.split
    exact hstep es e u t hu (ih hbefore hu) (hlast u hu).1 ht

/-- **The exact invariant rule**: the condition is met by every event that cannot happen. -/
theorem always_iff_of_refused {P : List ε → σ → Prop} {C : σ → ε → Prop} {s : σ} {es : List ε}
    (hrefused : ∀ t e, step t e = none → C t e) (hnil : P [] s)
    (hstep : ∀ pre e post t u, es = pre ++ e :: post → run step s pre = some t → P pre t →
      step t e = some u → (P (pre ++ [e]) u ↔ C t e)) :
    (∀ pre post t, es = pre ++ post → run step s pre = some t → P pre t)
      ↔ ∀ pre e post t, es = pre ++ e :: post → run step s pre = some t → C t e := by
  constructor
  · intro h pre e post t hsplit hrun
    cases hu : step t e with
    | none => exact hrefused t e hu
    | some u =>
      refine (hstep pre e post t u hsplit hrun (h pre (e :: post) t hsplit hrun) hu).mp ?_
      exact h (pre ++ [e]) post u (by simp [hsplit]) (run_concat_eq_some.mpr ⟨t, hrun, hu⟩)
  · intro h pre
    -- the prefixes one after the other, each one event longer than the last
    induction pre using List.reverseRecOn with
    | nil =>
      intro post t _ hrun
      obtain rfl : s = t := Option.some.inj hrun
      exact hnil
    | append_singleton pre e ih =>
      intro post u hsplit hrun
      obtain ⟨t, hpre, hu⟩ := run_concat_eq_some.mp hrun
      have hsplit' : es = pre ++ e :: post := by simp [hsplit]
      exact (hstep pre e post t u hsplit' hpre (ih (e :: post) t hsplit' hpre) hu).mpr
        (h pre e post t hsplit' hpre)

/-- **The exact invariant rule**, for a machine that refuses no event. -/
theorem always_iff {P : List ε → σ → Prop} {C : σ → ε → Prop} {s : σ} {es : List ε}
    (htotal : ∀ t e, ∃ u, step t e = some u) (hnil : P [] s)
    (hstep : ∀ pre e post t u, es = pre ++ e :: post → run step s pre = some t → P pre t →
      step t e = some u → (P (pre ++ [e]) u ↔ C t e)) :
    (∀ pre post t, es = pre ++ post → run step s pre = some t → P pre t)
      ↔ ∀ pre e post t, es = pre ++ e :: post → run step s pre = some t → C t e := by
  refine always_iff_of_refused (fun t e hnone => ?_) hnil hstep
  obtain ⟨u, hu⟩ := htotal t e
  rw [hu] at hnone
  simp at hnone

end Runs
