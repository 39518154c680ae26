import Mathlib.Data.List.Chain
import Mathlib.Tactic.Common

namespace ShortDigits

variable (B : Nat)

/-- A number below `B * B` in base `B`. -/
def digits (n : Nat) : List Nat := if n < B then [n] else [n / B, n % B]

/-- The digits of a sequence of numbers, run together. -/
def spell (x : List Nat) : List Nat := x.flatMap (digits B)

/-- No digit can change hands between the neighbours `b` and `c`. -/
def Apart (b c : Nat) : Prop := (b = 0 ∨ B ≤ b) ∧ (c < B → b % B = 0)

instance : DecidableRel (Apart B) := fun b c =>
  inferInstanceAs (Decidable ((b = 0 ∨ B ≤ b) ∧ (c < B → b % B = 0)))

/-- The sequence is the only one of its length with its text. -/
def Legible (x : List Nat) : Prop := (∀ b ∈ x, b < B) ∨ x.IsChain (Apart B)

instance (x : List Nat) : Decidable (Legible B x) :=
  inferInstanceAs (Decidable ((∀ b ∈ x, b < B) ∨ x.IsChain (Apart B)))

variable {B}

theorem digits_of_lt {n : Nat} (h : n < B) : digits B n = [n] := if_pos h

theorem digits_of_le {n : Nat} (h : B ≤ n) : digits B n = [n / B, n % B] :=
  if_neg (Nat.not_lt.mpr h)

@[simp] theorem spell_nil : spell B [] = [] := rfl

@[simp] theorem spell_cons (b : Nat) (x : List Nat) :
    spell B (b :: x) = digits B b ++ spell B x := List.flatMap_cons

@[simp] theorem spell_append (x y : List Nat) : spell B (x ++ y) = spell B x ++ spell B y :=
  List.flatMap_append

theorem spell_cons_of_lt {b : Nat} (h : b < B) (x : List Nat) :
    spell B (b :: x) = b :: spell B x := by
  rw [spell_cons, digits_of_lt h]
  rfl

theorem spell_cons_of_le {b : Nat} (h : B ≤ b) (x : List Nat) :
    spell B (b :: x) = b / B :: b % B :: spell B x := by
  rw [spell_cons, digits_of_le h]
  rfl

/-- What is written says how many numbers there are at least. -/
theorem length_le_spell (x : List Nat) : x.length ≤ (spell B x).length := by
  induction x with
  | nil => simp
  | cons b x ih =>
    by_cases h : b < B
    · rw [spell_cons_of_lt h]
      simpa using ih
    · rw [spell_cons_of_le (Nat.not_lt.mp h)]
      simp only [List.length_cons]
      omega

theorem spell_of_short {x : List Nat} (h : ∀ b ∈ x, b < B) : spell B x = x := by
  induction x with
  | nil => rfl
  | cons b x ih =>
    rw [spell_cons_of_lt (h b List.mem_cons_self), ih fun c hc => h c (List.mem_cons_of_mem b hc)]

/-- A text with as many digits as numbers is made of numbers of one digit. -/
theorem short_of_length_spell {x : List Nat} (h : (spell B x).length = x.length) :
    ∀ b ∈ x, b < B := by
  induction x with
  | nil => simp
  | cons b x ih =>
    by_cases hb : b < B
    · rw [spell_cons_of_lt hb] at h
      exact List.forall_mem_cons.mpr ⟨hb, ih (Nat.succ.inj h)⟩
    · rw [spell_cons_of_le (Nat.not_lt.mp hb)] at h
      have hle := length_le_spell (B := B) x
      simp only [List.length_cons] at h
      omega

theorem div_pos_of_le (hB : 0 < B) {n : Nat} (h : B ≤ n) : 0 < n / B := Nat.div_pos h hB

theorem eq_of_div_mod {m n : Nat} (hdiv : m / B = n / B) (hmod : m % B = n % B) : m = n := by
  rw [← Nat.div_add_mod m B, ← Nat.div_add_mod n B, hdiv, hmod]

/-! ## Reading back -/

/-- Two texts of legible numbers that start together, the second after an extra digit: it
has more numbers. The extra digit is zero where it could be joined to a first digit. -/
theorem length_lt_of_spell (hB : 0 < B) {x : List Nat} (hx : x.IsChain (Apart B)) :
    (∀ y, spell B y = spell B x → x.length ≤ y.length) ∧
      ∀ e y, (∀ b ∈ x.head?, b < B → e = 0) → spell B y = e :: spell B x →
        x.length < y.length := by
  induction x with
  | nil =>
    refine ⟨fun y _ => Nat.zero_le _, fun e y _ hy => ?_⟩
    cases y with
    | nil => cases hy
    | cons d y => exact Nat.succ_pos _
  | cons b x ih =>
    obtain ⟨hall, hextra⟩ := ih hx.tail
    have hlow : ∀ c ∈ x.head?, c < B → b % B = 0 := fun c hc =>
      ((List.isChain_cons.mp hx).1 c hc).2
    have hweak : ∀ y, spell B y = spell B (b :: x) → (b :: x).length ≤ y.length := by
      intro y hy
      cases y with
      | nil =>
        have := length_le_spell (B := B) (b :: x)
        rw [← hy] at this
        simp at this
      | cons d y =>
        rw [List.length_cons, List.length_cons, Nat.add_le_add_iff_right]
        by_cases hb : b < B <;> by_cases hd : d < B
        · rw [spell_cons_of_lt hb, spell_cons_of_lt hd] at hy
          exact hall y (List.cons.inj hy).2
        · -- A lone digit before the last one is zero, so no number starts with it.
          rw [spell_cons_of_lt hb, spell_cons_of_le (Nat.not_lt.mp hd)] at hy
          obtain ⟨hfirst, hrest⟩ := List.cons.inj hy
          have hpos := div_pos_of_le hB (Nat.not_lt.mp hd)
          cases x with
          | nil => cases hrest
          | cons c x =>
            have := ((List.isChain_cons_cons.mp hx).1).1
            omega
        · rw [spell_cons_of_le (Nat.not_lt.mp hb), spell_cons_of_lt hd] at hy
          exact Nat.le_of_lt (hextra _ y hlow (List.cons.inj hy).2)
        · rw [spell_cons_of_le (Nat.not_lt.mp hb), spell_cons_of_le (Nat.not_lt.mp hd)] at hy
          exact hall y (List.cons.inj (List.cons.inj hy).2).2
    refine ⟨hweak, fun e y he hy => ?_⟩
    cases y with
    | nil => cases hy
    | cons d y =>
      rw [List.length_cons, List.length_cons, Nat.add_lt_add_iff_right]
      by_cases hd : d < B
      · rw [spell_cons_of_lt hd] at hy
        exact hweak y (List.cons.inj hy).2
      · rw [spell_cons_of_le (Nat.not_lt.mp hd)] at hy
        obtain ⟨hfirst, hrest⟩ := List.cons.inj hy
        have hpos := div_pos_of_le hB (Nat.not_lt.mp hd)
        have hb : B ≤ b := by
          by_contra hlt
          have := he b rfl (Nat.not_le.mp hlt)
          omega
        rw [spell_cons_of_le hb] at hrest
        exact hextra _ y hlow (List.cons.inj hrest).2

/-- The first numbers of two texts that agree are the same. -/
theorem eq_of_spell_eq_of_isChain (hB : 0 < B) {x : List Nat} (hx : x.IsChain (Apart B))
    {y : List Nat} (hlength : y.length = x.length) (h : spell B y = spell B x) : y = x := by
  induction x generalizing y with
  | nil => exact List.length_eq_zero_iff.mp hlength
  | cons b x ih =>
    cases y with
    | nil => cases hlength
    | cons d y =>
      have htail : y.length = x.length := Nat.succ.inj hlength
      by_cases hb : b < B <;> by_cases hd : d < B
      · rw [spell_cons_of_lt hb, spell_cons_of_lt hd] at h
        obtain ⟨rfl, hrest⟩ := List.cons.inj h
        rw [ih hx.tail htail hrest]
      · rw [spell_cons_of_lt hb, spell_cons_of_le (Nat.not_lt.mp hd)] at h
        obtain ⟨hfirst, hrest⟩ := List.cons.inj h
        have hpos := div_pos_of_le hB (Nat.not_lt.mp hd)
        cases x with
        | nil => cases hrest
        | cons c x =>
          have := ((List.isChain_cons_cons.mp hx).1).1
          omega
      · rw [spell_cons_of_le (Nat.not_lt.mp hb), spell_cons_of_lt hd] at h
        have hlow : ∀ c ∈ x.head?, c < B → b % B = 0 := fun c hc =>
          ((List.isChain_cons.mp hx).1 c hc).2
        have hmore : x.length < y.length :=
          (length_lt_of_spell hB hx.tail).2 _ y hlow (List.cons.inj h).2
        omega
      · rw [spell_cons_of_le (Nat.not_lt.mp hb), spell_cons_of_le (Nat.not_lt.mp hd)] at h
        obtain ⟨hdiv, hrest⟩ := List.cons.inj h
        obtain ⟨hmod, hrest⟩ := List.cons.inj hrest
        rw [eq_of_div_mod hdiv hmod, ih hx.tail htail hrest]

theorem eq_of_spell_eq (hB : 0 < B) {x y : List Nat} (hx : Legible B x)
    (hlength : y.length = x.length) (h : spell B y = spell B x) : y = x := by
  obtain hshort | hchain := hx
  · have hspell := spell_of_short hshort
    have hy : ∀ b ∈ y, b < B := short_of_length_spell (by rw [h, hspell, hlength])
    rw [← spell_of_short hy, h, hspell]
  · exact eq_of_spell_eq_of_isChain hB hchain hlength h

/-! ## Two sequences with one text -/

/-- A digit moves to its left neighbour. -/
theorem spell_move_left {b c : Nat} (hb : b < B) (hpos : 0 < b) (hc : B ≤ c)
    (hlt : c < B * B) : spell B [b * B + c / B, c % B] = spell B [b, c] := by
  have hB : 0 < B := by omega
  have hdigit : c / B < B := Nat.div_lt_of_lt_mul hlt
  have hle : B ≤ b * B + c / B := Nat.le_add_right_of_le (Nat.le_mul_of_pos_left B hpos)
  rw [spell_cons_of_le hle, spell_cons_of_lt (Nat.mod_lt c hB), spell_cons_of_lt hb,
    spell_cons_of_le hc, Nat.mul_comm b, Nat.mul_add_div hB, Nat.mul_add_mod,
    Nat.div_eq_of_lt hdigit, Nat.mod_eq_of_lt hdigit, Nat.add_zero]

/-- A digit moves to its right neighbour. -/
theorem spell_move_right (hB : 0 < B) {b c : Nat} (hb : B ≤ b) (hlt : b < B * B)
    (hpos : 0 < b % B) (hc : c < B) : spell B [b / B, b % B * B + c] = spell B [b, c] := by
  have hle : B ≤ b % B * B + c := Nat.le_add_right_of_le (Nat.le_mul_of_pos_left B hpos)
  rw [spell_cons_of_lt (Nat.div_lt_of_lt_mul hlt), spell_cons_of_le hle, spell_cons_of_le hb,
    spell_cons_of_lt hc, Nat.mul_comm (b % B), Nat.mul_add_div hB, Nat.mul_add_mod,
    Nat.div_eq_of_lt hc, Nat.mod_eq_of_lt hc, Nat.add_zero]

theorem spell_join {b c : Nat} (hb : b < B) (hpos : 0 < b) (hc : c < B) :
    spell B [b * B + c] = spell B [b, c] := by
  have hB : 0 < B := by omega
  have hle : B ≤ b * B + c := Nat.le_add_right_of_le (Nat.le_mul_of_pos_left B hpos)
  rw [spell_cons_of_le hle, spell_cons_of_lt hb, spell_cons_of_lt hc, Nat.mul_comm b,
    Nat.mul_add_div hB, Nat.mul_add_mod, Nat.div_eq_of_lt hc, Nat.mod_eq_of_lt hc, Nat.add_zero]

theorem spell_break (hB : 0 < B) {b : Nat} (hb : B ≤ b) (hlt : b < B * B) :
    spell B [b / B, b % B] = spell B [b] := by
  rw [spell_cons_of_lt (Nat.div_lt_of_lt_mul hlt), spell_cons_of_lt (Nat.mod_lt b hB),
    spell_cons_of_le hb]

theorem two_digits_lt {b c : Nat} (hb : b < B) (hc : c < B) : b * B + c < B * B := by
  calc b * B + c < b * B + B := Nat.add_lt_add_left hc _
    _ = (b + 1) * B := (Nat.succ_mul b B).symm
    _ ≤ B * B := Nat.mul_le_mul_right B hb

/-- A sequence of numbers of at most two digits. -/
def Words (B : Nat) (x : List Nat) : Prop := ∀ b ∈ x, b < B * B

/-- Another sequence of the same length has the same text. -/
def Shared (B : Nat) (x : List Nat) : Prop :=
  ∃ y, Words B y ∧ y.length = x.length ∧ spell B y = spell B x ∧ y ≠ x

theorem Words.append_iff {x y : List Nat} : Words B (x ++ y) ↔ Words B x ∧ Words B y :=
  List.forall_mem_append

theorem Words.cons_iff {b : Nat} {x : List Nat} : Words B (b :: x) ↔ b < B * B ∧ Words B x :=
  List.forall_mem_cons

/-- A part that can be read in another way, anywhere in the sequence. -/
theorem Shared.append {x : List Nat} (h : Shared B x) {p s : List Nat} (hp : Words B p)
    (hs : Words B s) : Shared B (p ++ (x ++ s)) := by
  obtain ⟨y, hwords, hlength, hspell, hne⟩ := h
  refine ⟨p ++ (y ++ s), ?_, by simp [hlength], by simp [hspell], ?_⟩
  · rw [Words.append_iff, Words.append_iff]
    exact ⟨hp, hwords, hs⟩
  · intro heq
    exact hne (List.append_cancel_right (List.append_cancel_left heq))

theorem shared_move_left {b c : Nat} (hb : b < B) (hpos : 0 < b) (hc : B ≤ c)
    (hlt : c < B * B) : Shared B [b, c] := by
  have hfirst : b * B + c / B < B * B := two_digits_lt hb (Nat.div_lt_of_lt_mul hlt)
  have hsecond : c % B < B := Nat.mod_lt c (by omega)
  refine ⟨[b * B + c / B, c % B], ?_, rfl, spell_move_left hb hpos hc hlt, ?_⟩
  · simp only [Words, List.forall_mem_cons]
    exact ⟨hfirst, by omega, by simp⟩
  · intro heq
    have := (List.cons.inj (List.cons.inj heq).2).1
    omega

theorem shared_move_right (hB : 0 < B) {b c : Nat} (hb : B ≤ b) (hlt : b < B * B)
    (hpos : 0 < b % B) (hc : c < B) : Shared B [b, c] := by
  have hfirst : b / B < B := Nat.div_lt_of_lt_mul hlt
  have hsecond : b % B * B + c < B * B := two_digits_lt (Nat.mod_lt b hB) hc
  refine ⟨[b / B, b % B * B + c], ?_, rfl, spell_move_right hB hb hlt hpos hc, ?_⟩
  · simp only [Words, List.forall_mem_cons]
    exact ⟨by omega, hsecond, by simp⟩
  · intro heq
    have := (List.cons.inj heq).1
    omega

/-- Two digits are joined and a number after them is broken up. -/
theorem shared_join_break {b c w : Nat} {x : List Nat} (hb : b < B) (hpos : 0 < b) (hc : c < B)
    (hx : Words B x) (hw : B ≤ w) (hlt : w < B * B) : Shared B (b :: c :: (x ++ [w])) := by
  have hB : 0 < B := by omega
  have hjoined : B ≤ b * B + c := Nat.le_add_right_of_le (Nat.le_mul_of_pos_left B hpos)
  have hfirst : w / B < B := Nat.div_lt_of_lt_mul hlt
  have hsecond : w % B < B := Nat.mod_lt w hB
  refine ⟨[b * B + c] ++ (x ++ [w / B, w % B]), ?_, by simp, ?_, ?_⟩
  · rw [Words.append_iff, Words.append_iff]
    simp only [Words, List.forall_mem_cons]
    exact ⟨⟨two_digits_lt hb hc, by simp⟩, hx, by omega, by omega, by simp⟩
  · change _ = spell B ([b, c] ++ (x ++ [w]))
    rw [spell_append, spell_append, spell_append, spell_append, spell_join hb hpos hc,
      spell_break hB hw hlt]
  · intro heq
    have := (List.cons.inj heq).1
    omega

/-- A number is broken up and two digits after it are joined. -/
theorem shared_break_join {b c w : Nat} {x : List Nat} (hb : b < B) (hpos : 0 < b) (hc : c < B)
    (hx : Words B x) (hw : B ≤ w) (hlt : w < B * B) : Shared B (w :: (x ++ [b, c])) := by
  have hB : 0 < B := by omega
  have hfirst : w / B < B := Nat.div_lt_of_lt_mul hlt
  have hsecond : w % B < B := Nat.mod_lt w hB
  refine ⟨[w / B, w % B] ++ (x ++ [b * B + c]), ?_, by simp, ?_, ?_⟩
  · rw [Words.append_iff, Words.append_iff]
    simp only [Words, List.forall_mem_cons]
    exact ⟨⟨by omega, by omega, by simp⟩, hx, two_digits_lt hb hc, by simp⟩
  · change _ = spell B ([w] ++ (x ++ [b, c]))
    rw [spell_append, spell_append, spell_append, spell_append, spell_join hb hpos hc,
      spell_break hB hw hlt]
  · intro heq
    have := (List.cons.inj heq).1
    omega

/-- Two lone digits next to each other, the first of them not zero, and a number of two
digits before or after them. -/
theorem shared_lone_digits {p s : List Nat} {b c w : Nat} (hb : b < B) (hpos : 0 < b)
    (hc : c < B) (hx : Words B (p ++ b :: c :: s)) (hmem : w ∈ p ++ b :: c :: s) (hw : B ≤ w) :
    Shared B (p ++ b :: c :: s) := by
  have hlt : w < B * B := hx w hmem
  obtain ⟨hp, hrest⟩ := Words.append_iff.mp hx
  have hs : Words B s := (Words.cons_iff.mp (Words.cons_iff.mp hrest).2).2
  have hplace : w ∈ p ∨ w ∈ s := by
    simp only [List.mem_append, List.mem_cons] at hmem
    rcases hmem with h | h | h | h
    · exact .inl h
    · omega
    · omega
    · exact .inr h
  rcases hplace with hbefore | hafter
  · obtain ⟨p₁, p₂, rfl⟩ := List.append_of_mem hbefore
    obtain ⟨hp₁, hp₂⟩ := Words.append_iff.mp hp
    have h := (shared_break_join hb hpos hc (Words.cons_iff.mp hp₂).2 hw hlt).append hp₁ hs
    simpa using h
  · obtain ⟨s₁, s₂, rfl⟩ := List.append_of_mem hafter
    obtain ⟨hs₁, hs₂⟩ := Words.append_iff.mp hs
    have h := (shared_join_break hb hpos hc hs₁ hw hlt).append hp (Words.cons_iff.mp hs₂).2
    simpa using h

/-- Where a digit can change hands, it does in another sequence of the same length. -/
theorem exists_spell_eq (hB : 0 < B) {x : List Nat} (hx : Words B x) (h : ¬ Legible B x) :
    Shared B x := by
  obtain ⟨hlong, hchain⟩ := not_or.mp h
  obtain ⟨w, hmem, hw⟩ : ∃ w ∈ x, B ≤ w := by
    by_contra hnone
    exact hlong fun b hb => Nat.not_le.mp fun hle => hnone ⟨b, hb, hle⟩
  obtain ⟨b, c, p, s, rfl, hbad⟩ : ∃ b c p s, x = p ++ b :: c :: s ∧ ¬ Apart B b c := by
    by_contra hnone
    refine hchain (List.isChain_iff_forall_rel_of_append_cons_cons.mpr ?_)
    intro b c p s heq
    by_contra hbad
    exact hnone ⟨b, c, p, s, heq, hbad⟩
  obtain ⟨hp, hrest⟩ := Words.append_iff.mp hx
  obtain ⟨hblt, hrest⟩ := Words.cons_iff.mp hrest
  obtain ⟨hclt, hs⟩ := Words.cons_iff.mp hrest
  by_cases hb : b < B
  · have hpos : 0 < b := by
      by_contra hzero
      have hb0 : b = 0 := by omega
      exact hbad ⟨.inl hb0, fun _ => by simp [hb0]⟩
    by_cases hc : c < B
    · exact shared_lone_digits hb hpos hc hx hmem hw
    · exact (shared_move_left hb hpos (Nat.not_lt.mp hc) hclt).append hp hs
  · have hle := Nat.not_lt.mp hb
    have hc : c < B := by
      by_contra hnot
      exact hbad ⟨.inr hle, fun hc => absurd hc hnot⟩
    have hpos : 0 < b % B := by
      by_contra hzero
      exact hbad ⟨.inr hle, fun _ => by omega⟩
    exact (shared_move_right hB hle hblt hpos hc).append hp hs

theorem spell_unique_iff (hB : 0 < B) {x : List Nat} (hx : Words B x) :
    (∀ y, Words B y → y.length = x.length → spell B y = spell B x → y = x) ↔ Legible B x := by
  constructor
  · intro h
    by_contra hbad
    obtain ⟨y, hy, hlength, hspell, hne⟩ := exists_spell_eq hB hx hbad
    exact hne (h y hy hlength hspell)
  · intro h y _ hlength hspell
    exact eq_of_spell_eq hB h hlength hspell

end ShortDigits
