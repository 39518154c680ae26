import Mathlib.Logic.Basic

/-!
# Runs of an event-driven system

A system is a guarded step function: `step s e` is `some t` when event `e`
can be handled in state `s` and leaves `t`. A run is *orderly* for a condition
`ok` when every event of it is handled in a state where `ok` allows it; the
condition reads the state before the step, never the one after.

* `Reaches.invariant`: what holds at the start and is kept by every allowed
  step holds in every state an orderly run reaches;
* `Reaches.replay`: a concrete list of events that replays is an orderly run,
  so a scenario is checked by evaluation;
* `foldl_view`: a loop whose rounds do not see each other.
-/

namespace Runs

variable {σ ε : Type}

/-- States reached from `s` by steps that each meet `ok` where they are taken. -/
inductive Reaches (step : σ → ε → Option σ) (ok : σ → ε → Prop) (s : σ) : σ → Prop
  | start : Reaches step ok s s
  | next {t u : σ} (e : ε) :
      Reaches step ok s t → ok t e → step t e = some u → Reaches step ok s u

/-- No condition on the steps. -/
def anyStep : σ → ε → Prop := fun _ _ => True

variable {step : σ → ε → Option σ} {ok ok' : σ → ε → Prop} {s t u : σ}

theorem Reaches.invariant {I : σ → Prop} (h : Reaches step ok s t) (h0 : I s)
    (hstep : ∀ a e b, I a → ok a e → step a e = some b → I b) : I t := by
  induction h with
  | start => exact h0
  | next e _ hok hs ih => exact hstep _ e _ ih hok hs

theorem Reaches.trans (h : Reaches step ok s t) (h' : Reaches step ok t u) :
    Reaches step ok s u := by
  induction h' with
  | start => exact h
  | next e _ hok hs ih => exact .next e ih hok hs

/-- Handle the events in order; `none` once one of them is not allowed or
cannot be handled. -/
def replay (step : σ → ε → Option σ) (ok : σ → ε → Prop) [∀ a e, Decidable (ok a e)] :
    σ → List ε → Option σ
  | s, [] => some s
  | s, e :: es => if ok s e then (step s e).bind fun t => replay step ok t es else none

instance (s : σ) (e : ε) : Decidable (anyStep s e) := .isTrue trivial

theorem Reaches.replay (step : σ → ε → Option σ) (ok : σ → ε → Prop)
    [∀ a e, Decidable (ok a e)] (s : σ) (es : List ε) {t : σ}
    (h : replay step ok s es = some t) : Reaches step ok s t := by
  induction es generalizing s with
  | nil =>
    cases h
    exact .start
  | cons e es ih =>
    unfold Runs.replay at h
    split at h
    · rename_i hok
      obtain ⟨m, hm, ht⟩ := Option.bind_eq_some_iff.mp h
      exact (Reaches.next e .start hok hm).trans (ih m ht)
    · cases h

theorem replay_cons_eq_some [∀ a e, Decidable (ok a e)] {e : ε} {es : List ε} :
    Runs.replay step ok s (e :: es) = some t ↔
      ok s e ∧ ∃ m, step s e = some m ∧ Runs.replay step ok m es = some t := by
  rw [Runs.replay, Option.ite_none_right_eq_some, Option.bind_eq_some_iff]

theorem replay_append [∀ a e, Decidable (ok a e)] {es fs : List ε}
    (h : Runs.replay step ok s es = some t) (h' : Runs.replay step ok t fs = some u) :
    Runs.replay step ok s (es ++ fs) = some u := by
  induction es generalizing s with
  | nil =>
    cases h
    exact h'
  | cons e es ih =>
    obtain ⟨hok, m, hm, ht⟩ := replay_cons_eq_some.mp h
    exact replay_cons_eq_some.mpr ⟨hok, m, hm, ih ht⟩

/-- The end of a scenario that replays to it. -/
theorem Reaches.replayed (step : σ → ε → Option σ) (ok : σ → ε → Prop)
    [∀ a e, Decidable (ok a e)] (s : σ) (es : List ε) (h : (Runs.replay step ok s es).isSome = true) :
    Reaches step ok s ((Runs.replay step ok s es).get h) :=
  .replay step ok s es (Option.some_get h).symm

/-- Where a scenario ends that replays. -/
theorem Reaches.replayed_getD [∀ a e, Decidable (ok a e)] {es : List ε}
    (h : (Runs.replay step ok s es).isSome = true) :
    Reaches step ok s ((Runs.replay step ok s es).getD s) := by
  obtain ⟨t, ht⟩ := Option.isSome_iff_exists.mp h
  rw [ht]
  exact .replay step ok s es ht

/-- A loop in which every round changes the part of its own element only. `view a` is the part
of `a`, and elements that are apart do not see the rounds of each other. -/
theorem foldl_view {α β : Type} {f : σ → α → σ} {view : α → σ → β} {change : α → β → β}
    {Apart : α → α → Prop} (hsymm : ∀ a b, Apart a b → Apart b a)
    (hown : ∀ s a, view a (f s a) = change a (view a s))
    (hframe : ∀ s a b, Apart a b → view a (f s b) = view a s) {as : List α}
    (hapart : as.Pairwise Apart) {a : α} (ha : a ∈ as) (s : σ) :
    view a (as.foldl f s) = change a (view a s) := by
  have hothers : ∀ (bs : List α) (s : σ), (∀ b ∈ bs, Apart a b) →
      view a (bs.foldl f s) = view a s := by
    intro bs
    induction bs with
    | nil => exact fun s _ => rfl
    | cons b bs ih =>
      intro s hbs
      obtain ⟨hb, hrest⟩ := List.forall_mem_cons.mp hbs
      rw [List.foldl_cons, ih (f s b) hrest, hframe s a b hb]
  induction as generalizing s with
  | nil => cases ha
  | cons b as ih =>
    obtain ⟨hb, hrest⟩ := List.pairwise_cons.mp hapart
    rw [List.foldl_cons]
    rcases List.mem_cons.mp ha with rfl | ha
    · rw [hothers as (f s a) hb, hown]
    · rw [ih hrest ha, hframe s a b (hsymm b a (hb a ha))]

end Runs
