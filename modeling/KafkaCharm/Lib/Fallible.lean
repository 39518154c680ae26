import Mathlib.Logic.Basic

/-! A procedure over a state either returns or raises. In both cases the effects it had on the state
stay: an exception undoes nothing. -/

namespace Fallible

variable {σ α : Type}

/-- How a procedure ended, with the state it left. -/
inductive Outcome (σ : Type) where
  | returned (s : σ)
  | raised (s : σ)
  deriving DecidableEq, Repr

namespace Outcome

/-- The state left behind, however the procedure ended. -/
def state : Outcome σ → σ
  | returned s => s
  | raised s => s

def andThen : Outcome σ → (σ → Outcome σ) → Outcome σ
  | returned s, next => next s
  | raised s, _ => raised s

@[simp] theorem state_returned (s : σ) : (returned s).state = s := rfl
@[simp] theorem state_raised (s : σ) : (raised s).state = s := rfl
@[simp] theorem returned_andThen (s : σ) (next : σ → Outcome σ) :
    (returned s).andThen next = next s := rfl
@[simp] theorem raised_andThen (s : σ) (next : σ → Outcome σ) :
    (raised s).andThen next = raised s := rfl

theorem andThen_eq_returned {o : Outcome σ} {next : σ → Outcome σ} {t : σ}
    (h : o.andThen next = returned t) : ∃ s, o = returned s ∧ next s = returned t := by
  cases o with
  | returned s => exact ⟨s, rfl, h⟩
  | raised s => cases h

theorem andThen_state_invariant {I : σ → Prop} {o : Outcome σ} {next : σ → Outcome σ}
    (h : I o.state) (hnext : ∀ s, I s → I (next s).state) : I (o.andThen next).state := by
  cases o with
  | returned s => exact hnext s h
  | raised s => exact h

end Outcome

open Outcome

/-- `for a in as: body(a)`. -/
def each (body : α → σ → Outcome σ) : List α → σ → Outcome σ
  | [], s => returned s
  | a :: as, s => (body a s).andThen (each body as)

theorem each_state_invariant {body : α → σ → Outcome σ} {I : σ → Prop} {as : List α}
    (hbody : ∀ a ∈ as, ∀ s, I s → I (body a s).state) (s : σ) (hs : I s) :
    I (each body as s).state := by
  induction as generalizing s with
  | nil => exact hs
  | cons a as ih =>
    have ha := hbody a (by simp) s hs
    cases hb : body a s with
    | returned t =>
      rw [hb] at ha
      simpa [each, hb] using ih (fun x hx => hbody x (by simp [hx])) t ha
    | raised t =>
      rw [hb] at ha
      simpa [each, hb] using ha

theorem each_congr {body body' : α → σ → Outcome σ} {as : List α}
    (h : ∀ a ∈ as, ∀ s, body a s = body' a s) (s : σ) : each body as s = each body' as s := by
  induction as generalizing s with
  | nil => rfl
  | cons a as ih =>
    rw [each, each, h a List.mem_cons_self s]
    congr 1
    funext t
    exact ih (fun x hx => h x (List.mem_cons_of_mem a hx)) t

/-- In a loop that returns, every round did. -/
theorem each_round_returned {body : α → σ → Outcome σ} {as : List α} {s s' : σ}
    (h : each body as s = returned s') {a : α} (ha : a ∈ as) :
    ∃ m m', body a m = returned m' := by
  induction as generalizing s with
  | nil => cases ha
  | cons b as ih =>
    obtain ⟨m, hm, hrest⟩ := andThen_eq_returned h
    rcases List.mem_cons.mp ha with rfl | ha
    · exact ⟨s, m, hm⟩
    · exact ih hrest ha

/-- A body that always returns makes a loop that always returns. -/
theorem each_returns {body : α → σ → Outcome σ} {I : σ → Prop} {as : List α}
    (hbody : ∀ a ∈ as, ∀ s, I s → ∃ t, body a s = returned t ∧ I t) (s : σ) (hs : I s) :
    ∃ t, each body as s = returned t ∧ I t := by
  induction as generalizing s with
  | nil => exact ⟨s, rfl, hs⟩
  | cons a as ih =>
    obtain ⟨t, ht, hI⟩ := hbody a (by simp) s hs
    obtain ⟨u, hu, hI'⟩ := ih (fun x hx => hbody x (by simp [hx])) t hI
    exact ⟨u, by simp [each, ht, hu], hI'⟩

/-- An order in which a set given by its elements may be gone through. Nothing
is known about it except that every element comes up and nothing else does. -/
structure SetOrder (α : Type) where
  list : List α → List α
  mem_list : ∀ as a, a ∈ list as ↔ a ∈ as

/-- The order of the given elements. -/
def SetOrder.given : SetOrder α := ⟨id, fun _ _ => Iff.rfl⟩

theorem mapM_cons_eq_some {β : Type} {f : α → Option β} {x : α} {xs : List α} {ys : List β}
    (h : (x :: xs).mapM f = some ys) :
    ∃ y rest, f x = some y ∧ xs.mapM f = some rest ∧ ys = y :: rest := by
  rw [List.mapM_cons] at h
  obtain ⟨y, hy, h⟩ := Option.bind_eq_some_iff.mp h
  obtain ⟨rest, hrest, h⟩ := Option.bind_eq_some_iff.mp h
  exact ⟨y, rest, hy, hrest, (Option.some.inj h).symm⟩

/-- What the elements of a list have in common, told from those it was built from. -/
theorem forall_mapM_iff {β : Type} {f : α → Option β} {P : β → Prop} {Q : α → Prop}
    (hf : ∀ x y, f x = some y → (P y ↔ Q x)) {xs : List α} {ys : List β}
    (h : xs.mapM f = some ys) : (∀ y ∈ ys, P y) ↔ ∀ x ∈ xs, Q x := by
  induction xs generalizing ys with
  | nil =>
    obtain rfl : [] = ys := Option.some.inj h
    simp
  | cons x xs ih =>
    obtain ⟨y, ys, hy, hys, rfl⟩ := mapM_cons_eq_some h
    rw [List.forall_mem_cons, List.forall_mem_cons, hf x y hy, ih hys]

theorem exists_mapM {β : Type} {f : α → Option β} {xs : List α} (h : ∀ x ∈ xs, ∃ y, f x = some y) :
    ∃ ys, xs.mapM f = some ys := by
  induction xs with
  | nil => exact ⟨[], rfl⟩
  | cons x xs ih =>
    obtain ⟨⟨y, hy⟩, hxs⟩ := List.forall_mem_cons.mp h
    obtain ⟨ys, hys⟩ := ih hxs
    exact ⟨y :: ys, by simp [List.mapM_cons, hy, hys]⟩

/-- A list that was built has a value for each element. -/
theorem exists_of_mapM {β : Type} {f : α → Option β} {xs : List α} {ys : List β}
    (h : xs.mapM f = some ys) : ∀ x ∈ xs, ∃ y, f x = some y :=
  (forall_mapM_iff (fun _ y hy => iff_of_true trivial ⟨y, hy⟩) h).mp fun _ _ => trivial

theorem exists_of_mem_mapM {β : Type} {f : α → Option β} {xs : List α} {ys : List β}
    (h : xs.mapM f = some ys) {y : β} (hy : y ∈ ys) : ∃ x ∈ xs, f x = some y := by
  induction xs generalizing ys with
  | nil =>
    obtain rfl : [] = ys := Option.some.inj h
    cases hy
  | cons x xs ih =>
    obtain ⟨y', rest, hy', hrest, rfl⟩ := mapM_cons_eq_some h
    rcases List.mem_cons.mp hy with rfl | hy
    · exact ⟨x, List.mem_cons_self, hy'⟩
    · obtain ⟨x', hx', hfx⟩ := ih hrest hy
      exact ⟨x', List.mem_cons_of_mem x hx', hfx⟩

theorem mem_of_mapM {β : Type} {f : α → Option β} {xs : List α} {ys : List β}
    (h : xs.mapM f = some ys) {x : α} (hx : x ∈ xs) {y : β} (hy : f x = some y) : y ∈ ys := by
  have hall : ∀ x ∈ xs, ∀ y, f x = some y → y ∈ ys := by
    refine (forall_mapM_iff (fun x y' hy' => ?_) h).mp fun y' hy' => hy'
    rw [hy']
    simp
  exact hall x hx y hy

theorem mapM_mono {β : Type} {f g : α → Option β} (hfg : ∀ x y, f x = some y → g x = some y)
    {xs : List α} {ys : List β} (h : xs.mapM f = some ys) : xs.mapM g = some ys := by
  induction xs generalizing ys with
  | nil => exact h
  | cons x xs ih =>
    obtain ⟨y, rest, hy, hrest, rfl⟩ := mapM_cons_eq_some h
    simp [List.mapM_cons, hfg x y hy, ih hrest]

/-- What a list holds, told from what each element was built from. -/
theorem map_mapM {β γ : Type} {f : α → Option β} {g : β → γ} {r : α → γ}
    (hf : ∀ x y, f x = some y → g y = r x) {xs : List α} {ys : List β} (h : xs.mapM f = some ys) :
    ys.map g = xs.map r := by
  induction xs generalizing ys with
  | nil =>
    obtain rfl : [] = ys := Option.some.inj h
    rfl
  | cons x xs ih =>
    obtain ⟨y, rest, hy, hrest, rfl⟩ := mapM_cons_eq_some h
    rw [List.map_cons, List.map_cons, hf x y hy, ih hrest]

/-- What a list of lists holds, told from what each list was built from. -/
theorem map_flatten_mapM {β γ : Type} {f : α → Option (List β)} {g : β → γ} {r : α → List γ}
    (hf : ∀ x ys, f x = some ys → ys.map g = r x) {xs : List α} {lists : List (List β)}
    (h : xs.mapM f = some lists) : lists.flatten.map g = xs.flatMap r := by
  induction xs generalizing lists with
  | nil =>
    obtain rfl : [] = lists := Option.some.inj h
    rfl
  | cons x xs ih =>
    obtain ⟨ys, rest, hys, hrest, rfl⟩ := mapM_cons_eq_some h
    rw [List.flatten_cons, List.map_append, List.flatMap_cons, hf x ys hys, ih hrest]

/-- Where every element has a value, the values are all those there are. -/
theorem filterMap_of_mapM {β : Type} {f : α → Option β} {xs : List α} {ys : List β}
    (h : xs.mapM f = some ys) : xs.filterMap f = ys := by
  induction xs generalizing ys with
  | nil => exact Option.some.inj h
  | cons x xs ih =>
    obtain ⟨y, rest, hy, hrest, rfl⟩ := mapM_cons_eq_some h
    rw [List.filterMap_cons_some hy, ih hrest]

/-- A list is built of the values of `g` where the body gives no others and never raises. -/
theorem mapM_eq_ok_iff {ε β : Type} {f : α → Except ε β} {g : α → β} {xs : List α} {ys : List β}
    (hfg : ∀ x ∈ xs, ∀ y, f x = .ok y → y = g x) :
    xs.mapM f = .ok ys ↔ (∀ x ∈ xs, f x = .ok (g x)) ∧ ys = xs.map g := by
  induction xs generalizing ys with
  | nil => simp [pure, Except.pure, eq_comm]
  | cons x xs ih =>
    obtain ⟨hfirst, hothers⟩ := List.forall_mem_cons.mp hfg
    rw [List.mapM_cons, List.forall_mem_cons, List.map_cons]
    cases hx : f x with
    | error e => simp [bind, Except.bind]
    | ok y =>
      obtain rfl := hfirst y hx
      cases hxs : xs.mapM f with
      | error e =>
        have hraises : ¬ ∀ x ∈ xs, f x = .ok (g x) := by
          intro hall
          have hbuilt := (ih hothers).mpr ⟨hall, rfl⟩
          rw [hxs] at hbuilt
          cases hbuilt
        simp [bind, Except.bind, hraises]
      | ok rest =>
        obtain ⟨hall, rfl⟩ := (ih hothers).mp hxs
        constructor
        · intro h
          exact ⟨⟨rfl, hall⟩, (Except.ok.inj h).symm⟩
        · rintro ⟨-, rfl⟩
          rfl

/-- A loop goes past elements with `P` and stops at the first one with `Q`. -/
def StopsAt (P Q : α → Prop) (as : List α) : Prop :=
  ∃ pre a post, as = pre ++ a :: post ∧ (∀ x ∈ pre, P x) ∧ Q a

variable {P Q : α → Prop}

theorem not_stopsAt_nil : ¬ StopsAt P Q [] := by
  rintro ⟨pre, a, post, h, -⟩
  exact absurd h.symm (by simp)

theorem stopsAt_cons {a : α} {as : List α} :
    StopsAt P Q (a :: as) ↔ Q a ∨ P a ∧ StopsAt P Q as := by
  constructor
  · rintro ⟨pre, b, post, heq, hpre, hb⟩
    cases pre with
    | nil =>
      obtain ⟨rfl, -⟩ := List.cons.inj heq
      exact .inl hb
    | cons c pre =>
      obtain ⟨rfl, rfl⟩ := List.cons.inj heq
      exact .inr ⟨hpre a (by simp), pre, b, post, rfl, fun x hx => hpre x (by simp [hx]), hb⟩
  · rintro (ha | ⟨ha, pre, b, post, rfl, hpre, hb⟩)
    · exact ⟨[], a, as, rfl, by simp, ha⟩
    · exact ⟨a :: pre, b, post, rfl, List.forall_mem_cons.mpr ⟨ha, hpre⟩, hb⟩

/-! ## The first element that raises -/

/-- If all that raise raise the same, that is what is raised. -/
theorem mapM_eq_error {ε β : Type} {f : α → Except ε β} {error : ε} {xs : List α}
    (hsame : ∀ x ∈ xs, ∀ error', f x = .error error' → error' = error)
    (hraises : ∃ x ∈ xs, f x = .error error) : xs.mapM f = .error error := by
  induction xs with
  | nil =>
    obtain ⟨x, hx, -⟩ := hraises
    cases hx
  | cons x xs ih =>
    obtain ⟨hfirst, hrest⟩ := List.forall_mem_cons.mp hsame
    rw [List.mapM_cons]
    cases hx : f x with
    | error error' =>
      rw [hfirst error' hx]
      rfl
    | ok y =>
      obtain ⟨z, hz, hraised⟩ := hraises
      rcases List.mem_cons.mp hz with rfl | hz
      · rw [hx] at hraised
        cases hraised
      · rw [ih hrest ⟨z, hz, hraised⟩]
        rfl

end Fallible
