import KafkaCharm.Lib.Template
import Mathlib.Algebra.Order.Ring.Nat

namespace PyRe

open PyText

/-- A character, or a reference to a group. -/
inductive Mark where
  | text (c : Char)
  | reference (k : Nat)
  deriving DecidableEq, Repr

namespace Mark

/-- A mark in a template. -/
def written : Mark → Str
  | text c => [c]
  | reference k => '\\' :: decimal k

/-- What a mark stands for in a match. -/
def filled (m : Found) : Mark → Str
  | text c => [c]
  | reference k => (m.group k).getD []

/-- A reference in front of other marks names one of `n` groups, and no digit follows it. -/
def Separate (n : Nat) : Mark → List Mark → Prop
  | text _, _ => True
  | reference k, next => 1 ≤ k ∧ k ≤ n ∧ ∀ c rest, next = text c :: rest → c.isDigit = false

/-- A mark in front of others is read as what it is: `re` takes references of two digits at
most, and a backslash stays in front of a character that makes no escape with it. -/
def Plain : Mark → List Mark → Prop
  | text c, next => c = '\\' → ∃ d rest, next = text d :: rest ∧ d.isAlphanum = false ∧ d ≠ '\\'
  | reference k, _ => k < 100

end Mark

open Mark

/-- Everything in a list is as it has to be in front of what follows it. -/
def Everywhere {α : Type} (P : α → List α → Prop) : List α → Prop
  | [] => True
  | a :: l => P a l ∧ Everywhere P l

/-- The template of some marks. -/
def writtenMarks (marks : List Mark) : Str := marks.flatMap written

/-- What marks stand for in a match. -/
def filledMarks (m : Found) (marks : List Mark) : Str := marks.flatMap (filled m)

/-- What a part makes of a match. -/
def Part.expand (m : Found) : Part → Str
  | .literal s => s
  | .reference 0 => m.taken
  | .reference n => (m.group n).getD []

theorem expand_cons (part : Part) (parts : List Part) (m : Found) :
    expand (part :: parts) m = part.expand m ++ expand parts m := by
  rw [expand, List.flatMap_cons]
  rfl

section Everywhere

variable {α : Type} {P : α → List α → Prop} {l l' : List α}

theorem Everywhere.suffix (h : Everywhere P (l ++ l')) : Everywhere P l' := by
  induction l with
  | nil => exact h
  | cons a l ih => exact ih h.2

theorem everywhere_iff :
    Everywhere P l ↔ ∀ pre a post, l = pre ++ a :: post → P a post := by
  induction l with
  | nil => simp [Everywhere]
  | cons b l ih =>
    constructor
    · rintro ⟨hb, hl⟩ pre a post heq
      cases pre with
      | nil =>
        obtain ⟨rfl, rfl⟩ := List.cons.inj heq
        exact hb
      | cons c pre => exact ih.mp hl pre a post (List.cons.inj heq).2
    · intro h
      exact ⟨h [] b l rfl, ih.mpr fun pre a post heq => h (b :: pre) a post (by rw [heq]; rfl)⟩

end Everywhere

variable {u : Unicode} {p : Pattern} {marks : List Mark} {n : Nat}

@[simp] theorem writtenMarks_nil : writtenMarks [] = [] := rfl

@[simp] theorem writtenMarks_text (c : Char) (marks : List Mark) :
    writtenMarks (.text c :: marks) = c :: writtenMarks marks := rfl

@[simp] theorem writtenMarks_reference (k : Nat) (marks : List Mark) :
    writtenMarks (.reference k :: marks) = '\\' :: (decimal k ++ writtenMarks marks) := rfl

theorem writtenMarks_append (marks marks' : List Mark) :
    writtenMarks (marks ++ marks') = writtenMarks marks ++ writtenMarks marks' :=
  List.flatMap_append

theorem writtenMarks_texts (s : Str) : writtenMarks (s.map .text) = s := by
  induction s with
  | nil => rfl
  | cons c s ih => rw [List.map_cons, writtenMarks_text, ih]

/-! ## Digits behind a backslash -/

/-- The text does not start with a digit. -/
def NoDigitHead (s : Str) : Prop := ∀ c rest, s = c :: rest → c.isDigit = false

theorem noDigitHead_of_separate {k : Nat} (h : (Mark.reference k).Separate n marks) :
    NoDigitHead (writtenMarks marks) := by
  intro c rest heq
  cases marks with
  | nil => cases heq
  | cons mark marks =>
    cases mark with
    | text d =>
      obtain ⟨rfl, -⟩ := List.cons.inj heq
      exact h.2.2 d marks rfl
    | reference j =>
      obtain ⟨rfl, -⟩ := List.cons.inj heq
      decide

theorem isDigit_of_isOctal {c : Char} (h : isOctal c = true) : c.isDigit = true := by
  simp only [isOctal, Bool.and_eq_true, decide_eq_true_eq] at h
  simp only [Char.isDigit, Bool.and_eq_true, decide_eq_true_eq]
  exact ⟨h.1, UInt32.le_trans h.2 (by decide)⟩

theorem digit_digitChar {k : Nat} (h : k < 10) :
    (Nat.digitChar k).isDigit = true ∧ digit (Nat.digitChar k) = k := by
  have hall : ∀ i : Fin 10, (Nat.digitChar i).isDigit = true ∧ digit (Nat.digitChar i) = i := by
    decide
  exact hall ⟨k, h⟩

theorem digit_lt {c : Char} (h : c.isDigit = true) : digit c < 10 := by
  have hrange : 48 ≤ c.toNat ∧ c.toNat ≤ 57 := by
    simpa [Char.isDigit, UInt32.le_iff_toNat_le] using h
  have hzero : '0'.toNat = 48 := rfl
  rw [digit, hzero]
  omega

theorem digitEscape_one {s : Str} (c : Char) (hs : NoDigitHead s) :
    digitEscape p c s = (addGroup p (digit c)).map (·, s) := by
  cases s with
  | nil => rfl
  | cons d s =>
    have hd : d.isDigit = false := hs d s rfl
    cases s with
    | nil =>
      simp only [digitEscape, hd]
      rfl
    | cons e s =>
      simp only [digitEscape, hd]
      rfl

theorem digitEscape_two {s : Str} (c : Char) {d : Char} (hd : d.isDigit = true)
    (hs : NoDigitHead s) :
    digitEscape p c (d :: s) = (addGroup p (10 * digit c + digit d)).map (·, s) := by
  cases s with
  | nil =>
    simp only [digitEscape, hd]
    rfl
  | cons e s =>
    have he : isOctal e = false := by
      rw [Bool.eq_false_iff]
      intro h
      have hdigit := isDigit_of_isOctal h
      rw [hs e s rfl] at hdigit
      cases hdigit
    simp only [digitEscape, hd, he, Bool.and_false]
    rfl

/-- A backslash in front of a number of one or two digits is the reference to that group. -/
theorem nextPart_reference {k : Nat} {s : Str} (hpos : 1 ≤ k) (hsmall : k < 100)
    (hgroup : k ≤ p.groups) (hs : NoDigitHead s) :
    nextPart u p ('\\' :: (decimal k ++ s)) = .ok (.reference k, s) := by
  have hadd : addGroup p k = .ok (.reference k) := if_pos hgroup
  have hescape : ∀ j t, 1 ≤ j → j < 10 →
      nextPart u p ('\\' :: j.digitChar :: t) = digitEscape p j.digitChar t := by
    intro j t hj hj'
    have hall : ∀ i : Fin 9, (Nat.digitChar (i + 1)) ≠ 'g' ∧ (Nat.digitChar (i + 1)) ≠ '0' ∧
        (Nat.digitChar (i + 1)).isDigit = true := by decide
    obtain ⟨hg, h0, hdigit⟩ := hall ⟨j - 1, by omega⟩
    simp only [Nat.sub_add_cancel hj] at hg h0 hdigit
    simp only [nextPart, hg, h0, hdigit, if_false, if_true]
  by_cases hone : k < 10
  · have hdecimal : decimal k = [k.digitChar] := Nat.toDigits_of_lt_base hone
    rw [hdecimal, List.singleton_append, hescape k s hpos hone, digitEscape_one _ hs,
      (digit_digitChar hone).2, hadd]
    rfl
  · have hten : k / 10 < 10 := by omega
    have hdecimal : decimal k = [(k / 10).digitChar, (k % 10).digitChar] := by
      rw [decimal, Nat.toDigits_of_base_le (by decide) (by omega), Nat.toDigits_of_lt_base hten]
      rfl
    obtain ⟨hdigit, hvalue⟩ := digit_digitChar (Nat.mod_lt k (by decide : 0 < 10))
    have hnumber : 10 * digit (k / 10).digitChar + digit (k % 10).digitChar = k := by
      rw [(digit_digitChar hten).2, hvalue]
      omega
    rw [hdecimal, List.cons_append, List.singleton_append, hescape (k / 10) _ (by omega) hten,
      digitEscape_two _ hdigit hs, hnumber, hadd]
    rfl

/-! ## Marks that are read as they stand -/

/-- A character that is no backslash stands for itself. -/
theorem nextPart_text {c : Char} (hc : c ≠ '\\') (s : Str) :
    nextPart u p (c :: s) = .ok (.literal [c], s) := by
  unfold nextPart
  split
  · rename_i heq
    exact absurd (List.cons.inj heq).1 hc
  · rename_i heq
    exact absurd (List.cons.inj heq).1 hc
  · rename_i heq
    obtain ⟨rfl, rfl⟩ := List.cons.inj heq
    rfl
  · rename_i heq
    cases heq

theorem nextPart_escaped {c : Char} (hg : c ≠ 'g') (hdigit : c.isDigit = false) (s : Str) :
    nextPart u p ('\\' :: c :: s) =
      match Dict.get? escapes c with
      | some d => .ok (.literal [d], s)
      | none => if c.isAlpha then .error .reError else .ok (.literal ['\\', c], s) := by
  have h0 : c ≠ '0' := by
    rintro rfl
    cases hdigit
  cases hescape : Dict.get? escapes c with
  | none => simp [nextPart, hg, h0, hdigit, hescape]
  | some d => simp [nextPart, hg, h0, hdigit, hescape]

/-- Plain marks are read one after the other, a backslash with the character behind it. -/
theorem nextPart_of_plain {mark : Mark}
    (hseparate : Everywhere (Separate p.groups) (mark :: marks))
    (hplain : Everywhere Plain (mark :: marks)) :
    ∃ part read marks', mark :: marks = read ++ marks' ∧ read ≠ [] ∧
      nextPart u p (writtenMarks (mark :: marks)) = .ok (part, writtenMarks marks') ∧
      ∀ m, part.expand m = filledMarks m read := by
  cases mark with
  | reference k =>
    obtain ⟨hpos, hgroup, -⟩ := hseparate.1
    have hread : nextPart u p (writtenMarks (.reference k :: marks)) =
        .ok (.reference k, writtenMarks marks) :=
      nextPart_reference hpos hplain.1 hgroup (noDigitHead_of_separate hseparate.1)
    refine ⟨_, [.reference k], marks, rfl, by simp, hread, fun m => ?_⟩
    obtain ⟨j, rfl⟩ := Nat.exists_eq_succ_of_ne_zero (by omega : k ≠ 0)
    simp [filledMarks, filled, Part.expand]
  | text c =>
    by_cases hc : c = '\\'
    · obtain ⟨d, marks', rfl, hletter, hd⟩ := hplain.1 hc
      subst hc
      have hread : nextPart u p (writtenMarks (.text '\\' :: .text d :: marks')) =
          .ok (.literal ['\\', d], writtenMarks marks') := by
        obtain ⟨halpha, hdigit⟩ : d.isAlpha = false ∧ d.isDigit = false := by
          simpa [Char.isAlphanum] using hletter
        have hescape : Dict.get? escapes d = none := by
          rw [← Option.not_isSome_iff_eq_none, Option.isSome_iff_ne_none, ← Dict.mem_keys_iff]
          intro hmem
          have hkeys : (Dict.keys escapes).all (fun e => e == '\\' || e.isAlpha) = true := by decide
          have hkey := List.all_eq_true.mp hkeys d hmem
          simp [hd, halpha] at hkey
        have hg : d ≠ 'g' := by
          rintro rfl
          cases halpha
        rw [writtenMarks_text, writtenMarks_text, nextPart_escaped hg hdigit, hescape]
        simp [halpha]
      exact ⟨_, [.text '\\', .text d], marks', rfl, by simp, hread, fun m => rfl⟩
    · exact ⟨_, [.text c], marks, rfl, by simp, nextPart_text hc (writtenMarks marks), fun m => rfl⟩

theorem writtenMarks_ne_nil (mark : Mark) (marks : List Mark) :
    writtenMarks (mark :: marks) ≠ [] := by
  cases mark with
  | text c => simp
  | reference k => simp

theorem parseParts_succ {fuel : Nat} {s : Str} (hs : s ≠ []) :
    parseParts u p (fuel + 1) s = (do
      let (part, rest) ← nextPart u p s
      let parts ← parseParts u p fuel rest
      return part :: parts) := by
  cases s with
  | nil => exact absurd rfl hs
  | cons c s => rfl

theorem parseParts_of_plain {fuel : Nat} (hfuel : (writtenMarks marks).length ≤ fuel)
    (hseparate : Everywhere (Separate p.groups) marks) (hplain : Everywhere Plain marks) :
    ∃ parts, parseParts u p fuel (writtenMarks marks) = .ok parts ∧
      ∀ m, expand parts m = filledMarks m marks := by
  induction fuel generalizing marks with
  | zero =>
    cases marks with
    | nil => exact ⟨[], rfl, fun m => rfl⟩
    | cons mark marks =>
      have hne := writtenMarks_ne_nil mark marks
      rw [← List.length_pos_iff] at hne
      omega
  | succ fuel ih =>
    cases marks with
    | nil => exact ⟨[], rfl, fun m => rfl⟩
    | cons mark marks =>
      have hne := writtenMarks_ne_nil mark marks
      obtain ⟨part, read, marks', heq, hread, hpart, hexpand⟩ :=
        nextPart_of_plain (u := u) hseparate hplain
      rw [heq] at hseparate hplain hfuel
      have hlength : (writtenMarks marks').length ≤ fuel := by
        obtain ⟨first, read, rfl⟩ := List.exists_cons_of_ne_nil hread
        have hpos := writtenMarks_ne_nil first read
        rw [← List.length_pos_iff] at hpos
        rw [writtenMarks_append, List.length_append] at hfuel
        omega
      obtain ⟨parts, hparts, hall⟩ := ih hlength hseparate.suffix hplain.suffix
      refine ⟨part :: parts, ?_, fun m => ?_⟩
      · rw [parseParts_succ hne, hpart]
        simp [bind, Except.bind, hparts, pure, Except.pure]
      · rw [expand_cons, hexpand, hall, heq, filledMarks, filledMarks, filledMarks,
          List.flatMap_append]

/-! ## Marks that are misread -/

/-- More than a number up to `n` has digits. -/
def heavy (n : Nat) : Nat := (decimal n).length + 1

/-- A digit is light, any other character weighs more than all digits of a reference. -/
def charWeight (n : Nat) (c : Char) : Nat := if c.isDigit then 1 else heavy n

def weigh (n : Nat) (s : Str) : Nat := (s.map (charWeight n)).sum

/-- What a group takes in the match that tells marks from what they are misread as. -/
def probeText (k : Nat) : Str := if k < 100 then ['x'] else ['x', 'x']

/-- A match in which the groups behind the ninety-ninth take more than the others. -/
def probe (n : Nat) : Found := ⟨[], (List.range (n + 1)).map fun k => (k, probeText k)⟩

def partWeight (n : Nat) (part : Part) : Nat := weigh n (part.expand (probe n))

def marksWeight (n : Nat) (marks : List Mark) : Nat := weigh n (filledMarks (probe n) marks)

theorem weigh_append (n : Nat) (s t : Str) : weigh n (s ++ t) = weigh n s + weigh n t := by
  simp [weigh]

theorem weigh_probeText (n k : Nat) :
    weigh n (probeText k) = if k < 100 then heavy n else 2 * heavy n := by
  have hx : charWeight n 'x' = heavy n := rfl
  unfold probeText
  split
  · simp [weigh, hx]
  · simp [weigh, hx]
    omega

theorem one_le_charWeight (n : Nat) (c : Char) : 1 ≤ charWeight n c := by
  unfold charWeight heavy
  split <;> omega

theorem charWeight_le (n : Nat) (c : Char) : charWeight n c ≤ heavy n := by
  unfold charWeight heavy
  split <;> omega

theorem charWeight_backslash (n : Nat) : charWeight n '\\' = heavy n := rfl

theorem one_le_heavy (n : Nat) : 1 ≤ heavy n := by simp [heavy]

theorem probe_group {k : Nat} (h : k ≤ n) : (probe n).group k = some (probeText k) := by
  have hnodup : Dict.NodupKeys (probe n).groups := by
    have hkeys : Dict.keys (probe n).groups = List.range (n + 1) := by
      simp [Dict.keys, probe, Function.comp_def]
    rw [Dict.NodupKeys, hkeys]
    exact List.nodup_range
  refine (Dict.mem_iff_get? hnodup).mp ?_
  exact List.mem_map.mpr ⟨k, List.mem_range.mpr (by omega), rfl⟩

theorem length_decimal_lt {k : Nat} (h : k ≤ n) : (decimal k).length < heavy n := by
  have hpos : 0 < (decimal n).length := List.length_pos_iff.mpr (decimal_ne_nil n)
  have hn : n < 10 ^ (decimal n).length :=
    (Nat.length_toDigits_le_iff (by decide) hpos).mp (Nat.le_refl _)
  have hk : (decimal k).length ≤ (decimal n).length :=
    (Nat.length_toDigits_le_iff (by decide) hpos).mpr (by omega)
  exact Nat.lt_succ_of_le hk

theorem marksWeight_text (n : Nat) (c : Char) (marks : List Mark) :
    marksWeight n (.text c :: marks) = charWeight n c + marksWeight n marks := by
  simp [marksWeight, filledMarks, filled, weigh]

theorem marksWeight_reference {k : Nat} (h : k ≤ n) (marks : List Mark) :
    marksWeight n (.reference k :: marks) =
      (if k < 100 then heavy n else 2 * heavy n) + marksWeight n marks := by
  rw [marksWeight, filledMarks, List.flatMap_cons, weigh_append, filled, probe_group h,
    Option.getD_some, weigh_probeText]
  rfl

theorem marksWeight_append (marks marks' : List Mark) :
    marksWeight n (marks ++ marks') = marksWeight n marks + marksWeight n marks' := by
  rw [marksWeight, filledMarks, List.flatMap_append, weigh_append]
  rfl

/-- Digits weigh as much as there are of them. -/
theorem marksWeight_digits {ds : Str} (h : ∀ c ∈ ds, c.isDigit = true) :
    marksWeight n (ds.map .text) = ds.length := by
  induction ds with
  | nil => rfl
  | cons c ds ih =>
    obtain ⟨hc, hds⟩ := List.forall_mem_cons.mp h
    have hweight : charWeight n c = 1 := by simp [charWeight, hc]
    rw [List.map_cons, marksWeight_text, ih hds, hweight, List.length_cons, Nat.add_comm]

theorem partWeight_reference {k : Nat} (h : k ≤ n) :
    partWeight n (.reference k) ≤ if k < 100 then heavy n else 2 * heavy n := by
  cases k with
  | zero =>
    have hempty : (Part.reference 0).expand (probe n) = [] := rfl
    rw [partWeight, hempty]
    exact Nat.zero_le _
  | succ k =>
    have hgroup : (Part.reference (k + 1)).expand (probe n) = probeText (k + 1) := by
      simp [Part.expand, probe_group h]
    rw [partWeight, hgroup, weigh_probeText]

theorem addGroup_eq_ok {k : Nat} {part : Part} {s rest : Str}
    (h : (do let part ← addGroup p k; return (part, s)) = .ok (part, rest)) :
    k ≤ p.groups ∧ part = .reference k ∧ rest = s := by
  unfold addGroup at h
  split at h
  · rename_i hk
    obtain ⟨rfl, rfl⟩ := Prod.mk.inj (Except.ok.inj h)
    exact ⟨hk, rfl, rfl⟩
  · cases h

theorem partWeight_literal (n : Nat) (c : Char) : partWeight n (.literal [c]) ≤ heavy n := by
  have hweight : partWeight n (.literal [c]) = charWeight n c := by
    simp [partWeight, Part.expand, weigh]
  rw [hweight]
  exact charWeight_le n c

/-- A part that takes up to two digits and no more than a character or a short reference
stands for. -/
def TakesDigits (p : Pattern) (s : Str) (part : Part) (rest : Str) : Prop :=
  partWeight p.groups part ≤ heavy p.groups ∧
    ∃ ds, s = ds ++ rest ∧ ds.length ≤ 2 ∧ ∀ d ∈ ds, d.isDigit = true

theorem takesDigits_reference {k : Nat} {s rest : Str} (ds : Str) (hk : k ≤ p.groups)
    (hsmall : k < 100) (hs : s = ds ++ rest) (hlength : ds.length ≤ 2)
    (hds : ∀ d ∈ ds, d.isDigit = true) :
    TakesDigits p s (.reference k) rest := by
  refine ⟨?_, ds, hs, hlength, hds⟩
  have hweight := partWeight_reference hk
  rwa [if_pos hsmall] at hweight

theorem octalEscape_takesDigits (s : Str) :
    TakesDigits p s (octalEscape s).1 (octalEscape s).2 := by
  have hstart : (s.take 2).takeWhile isOctal <+: s :=
    (List.takeWhile_prefix isOctal).trans (List.take_prefix 2 s)
  refine ⟨partWeight_literal _ _, (s.take 2).takeWhile isOctal,
    (List.prefix_iff_eq_append.mp hstart).symm, ?_, ?_⟩
  · have hle := (List.takeWhile_prefix (l := s.take 2) isOctal).length_le
    have htake := List.length_take_le 2 s
    omega
  · intro d hd
    exact isDigit_of_isOctal (List.mem_takeWhile_imp hd)

theorem digitEscape_takesDigits {c : Char} {s rest : Str} {part : Part} (hc : c.isDigit = true)
    (h : digitEscape p c s = .ok (part, rest)) : TakesDigits p s part rest := by
  have hten := digit_lt hc
  unfold digitEscape at h
  split at h
  · rename_i d e s
    split at h
    · rename_i hd
      split at h
      · rename_i hoctal
        obtain ⟨-, he⟩ := Bool.and_eq_true_iff.mp hoctal
        dsimp only at h
        split at h
        · cases h
        · obtain ⟨rfl, rfl⟩ := Prod.mk.inj (Except.ok.inj h)
          exact ⟨partWeight_literal _ _, [d, e], rfl, by simp, by simp [hd, isDigit_of_isOctal he]⟩
      · obtain ⟨hk, rfl, rfl⟩ := addGroup_eq_ok h
        have hd' := digit_lt hd
        exact takesDigits_reference [d] hk (by omega) rfl (by simp) (by simp [hd])
    · obtain ⟨hk, rfl, rfl⟩ := addGroup_eq_ok h
      exact takesDigits_reference [] hk (by omega) rfl (by simp) (by simp)
  · rename_i d
    split at h
    · rename_i hd
      obtain ⟨hk, rfl, rfl⟩ := addGroup_eq_ok h
      have hd' := digit_lt hd
      exact takesDigits_reference [d] hk (by omega) rfl (by simp) (by simp [hd])
    · obtain ⟨hk, rfl, rfl⟩ := addGroup_eq_ok h
      exact takesDigits_reference [] hk (by omega) rfl (by simp) (by simp)
  · obtain ⟨hk, rfl, rfl⟩ := addGroup_eq_ok h
    exact takesDigits_reference [] hk (by omega) rfl (by simp) (by simp)

theorem nextPart_takesDigits {c : Char} {s rest : Str} {part : Part} (hc : c.isDigit = true)
    (h : nextPart u p ('\\' :: c :: s) = .ok (part, rest)) : TakesDigits p s part rest := by
  have hg : c ≠ 'g' := by
    rintro rfl
    cases hc
  simp only [nextPart, hg, hc, if_false, if_true] at h
  split at h
  · have hoctal := octalEscape_takesDigits (p := p) s
    rwa [Except.ok.inj h] at hoctal
  · exact digitEscape_takesDigits hc h

/-- `\g` has a name in angle brackets behind it. -/
theorem groupReference_eq_ok {s rest : Str} {part : Part}
    (h : groupReference u p s = .ok (part, rest)) :
    partWeight p.groups part ≤ 2 * heavy p.groups ∧ ∃ name, s = '<' :: (name ++ '>' :: rest) := by
  have hpart : ∀ k t, (do let part ← addGroup p k; return (part, t)) = .ok (part, rest) →
      partWeight p.groups part ≤ 2 * heavy p.groups ∧ t = rest := by
    intro k t hadd
    obtain ⟨hk, rfl, rfl⟩ := addGroup_eq_ok hadd
    have hweight := partWeight_reference hk
    refine ⟨hweight.trans ?_, rfl⟩
    split <;> omega
  unfold groupReference at h
  split at h
  case h_2 => cases h
  case h_1 s =>
    dsimp only at h
    split at h
    case h_1 => cases h
    case h_2 c t hdrop =>
      have hclose : c = '>' := by
        have hhead := List.head?_dropWhile_not (fun x : Char => decide (x ≠ '>')) s
        rw [hdrop] at hhead
        simpa using hhead
      subst hclose
      have htext : s = s.takeWhile (· ≠ '>') ++ '>' :: t := by
        rw [← hdrop, List.takeWhile_append_dropWhile]
      have hresult : partWeight p.groups part ≤ 2 * heavy p.groups ∧ t = rest := by
        split at h
        · cases h
        · split at h
          · split at h
            · cases h
            · exact hpart _ t h
          · split at h
            · split at h
              · exact hpart _ t h
              · cases h
            · cases h
      exact ⟨hresult.1, _, by rw [← hresult.2, ← htext]⟩

/-- Digits at the start of a template are characters of the text. -/
theorem texts_of_digits {ds rest : Str} (hdigits : ∀ d ∈ ds, d.isDigit = true)
    (h : writtenMarks marks = ds ++ rest) :
    ∃ marks', marks = ds.map .text ++ marks' ∧ rest = writtenMarks marks' := by
  induction ds generalizing marks with
  | nil => exact ⟨marks, rfl, h.symm⟩
  | cons d ds ih =>
    obtain ⟨hd, hds⟩ := List.forall_mem_cons.mp hdigits
    cases marks with
    | nil => cases h
    | cons mark marks =>
      cases mark with
      | text c =>
        obtain ⟨rfl, htail⟩ := List.cons.inj h
        obtain ⟨marks', rfl, hrest⟩ := ih hds htail
        exact ⟨marks', rfl, hrest⟩
      | reference k =>
        obtain ⟨rfl, -⟩ := List.cons.inj h
        cases hd

/-- A closing bracket in a template is one of the text. -/
theorem text_of_bracket {a rest : Str} (h : writtenMarks marks = a ++ '>' :: rest) :
    ∃ read marks', marks = read ++ .text '>' :: marks' ∧ rest = writtenMarks marks' := by
  induction marks generalizing a with
  | nil =>
    cases a with
    | nil => cases h
    | cons c a => cases h
  | cons mark marks ih =>
    have hwritten : mark.written ++ writtenMarks marks = a ++ '>' :: rest := h
    by_cases hmark : mark = .text '>'
    · subst hmark
      cases a with
      | nil => exact ⟨[], marks, rfl, (List.cons.inj h).2.symm⟩
      | cons c a =>
        obtain ⟨read, marks', rfl, hrest⟩ := ih (List.cons.inj h).2
        exact ⟨.text '>' :: read, marks', rfl, hrest⟩
    · have hnot : '>' ∉ mark.written := by
        cases mark with
        | text c => simpa [written, eq_comm] using hmark
        | reference k =>
          simp only [written, List.mem_cons, not_or]
          exact ⟨by decide, fun hmem => absurd (isDigit_of_mem_decimal hmem) (by decide)⟩
      rcases List.append_eq_append_iff.mp hwritten with ⟨b, rfl, hb⟩ | ⟨b, hb, htail⟩
      · obtain ⟨read, marks', rfl, hrest⟩ := ih hb
        exact ⟨mark :: read, marks', rfl, hrest⟩
      · cases b with
        | nil =>
          obtain ⟨read, marks', rfl, hrest⟩ := ih (a := []) htail.symm
          exact ⟨mark :: read, marks', rfl, hrest⟩
        | cons c b =>
          obtain ⟨rfl, -⟩ := List.cons.inj htail
          exact absurd (by simp [hb]) hnot

theorem separate_texts (s : Str) (h : Everywhere (Separate n) marks) :
    Everywhere (Separate n) (s.map .text ++ marks) := by
  induction s with
  | nil => exact h
  | cons c s ih => exact ⟨trivial, ih⟩

/-- Reading a part off the marks, with some left: nothing weighs more than before, and less
unless the marks that were read are plain. -/
def ReadsOff (p : Pattern) (part : Part) (marks marks' : List Mark) : Prop :=
  Everywhere (Separate p.groups) marks' ∧
    (partWeight p.groups part + marksWeight p.groups marks' < marksWeight p.groups marks ∨
      partWeight p.groups part + marksWeight p.groups marks' = marksWeight p.groups marks ∧
        (Everywhere Plain marks' → Everywhere Plain marks))

/-- A reference of three digits is read as something else, and some of its digits as text. -/
theorem nextPart_weight_reference {k : Nat} {part : Part} {rest : Str}
    (hseparate : Everywhere (Separate p.groups) (.reference k :: marks))
    (h : nextPart u p (writtenMarks (.reference k :: marks)) = .ok (part, rest)) :
    ∃ marks', rest = writtenMarks marks' ∧ ReadsOff p part (.reference k :: marks) marks' := by
  obtain ⟨hmark, hmarks⟩ := hseparate
  obtain ⟨hpos, hgroup, -⟩ := id hmark
  rw [writtenMarks_reference] at h
  by_cases hsmall : k < 100
  · rw [nextPart_reference hpos hsmall hgroup (noDigitHead_of_separate hmark)] at h
    obtain ⟨rfl, rfl⟩ := Prod.mk.inj (Except.ok.inj h)
    refine ⟨marks, rfl, hmarks, ?_⟩
    have hweight := partWeight_reference hgroup
    rw [marksWeight_reference hgroup, if_pos hsmall]
    rw [if_pos hsmall] at hweight
    rcases Nat.lt_or_eq_of_le hweight with hlt | heq
    · exact .inl (by omega)
    · exact .inr ⟨by omega, fun hplain => ⟨hsmall, hplain⟩⟩
  · have hlong : 2 < (decimal k).length := by
      have hle : ¬ (decimal k).length ≤ 2 :=
        fun hle => hsmall ((Nat.length_toDigits_le_iff (by decide) (by decide)).mp hle)
      omega
    have hlight := length_decimal_lt hgroup
    obtain ⟨c, digits, hdecimal⟩ := List.exists_cons_of_ne_nil (decimal_ne_nil k)
    have hdigits : ∀ d ∈ decimal k, d.isDigit = true := fun d => isDigit_of_mem_decimal
    rw [hdecimal] at hdigits h hlong hlight
    obtain ⟨hc, hall⟩ := List.forall_mem_cons.mp hdigits
    rw [List.cons_append] at h
    obtain ⟨hpart, ds, htext, hds, -⟩ := nextPart_takesDigits hc h
    rw [List.length_cons] at hlong hlight
    -- at most two digits go behind the first, and the reference has more
    obtain ⟨more, rfl⟩ : ds <+: digits :=
      List.prefix_of_prefix_length_le ⟨rest, htext.symm⟩ ⟨writtenMarks marks, rfl⟩ (by omega)
    rw [List.append_assoc, List.append_cancel_left_eq] at htext
    have hmore : ∀ d ∈ more, d.isDigit = true := fun d hd => hall d (List.mem_append_right ds hd)
    refine ⟨more.map .text ++ marks, ?_, separate_texts more hmarks, .inl ?_⟩
    · rw [writtenMarks_append, writtenMarks_texts, htext]
    · rw [marksWeight_append, marksWeight_digits hmore, marksWeight_reference hgroup,
        if_neg hsmall]
      rw [List.length_append] at hlight
      omega

section Backslash

variable {part : Part} {rest : Str}

/-- A backslash of the text and the one of a reference make one, and the digits are text. -/
theorem readsOff_backslash_reference {k : Nat}
    (hseparate : Everywhere (Separate p.groups) (.reference k :: marks))
    (h : nextPart u p (writtenMarks (.text '\\' :: .reference k :: marks)) = .ok (part, rest)) :
    ∃ marks', rest = writtenMarks marks' ∧
      ReadsOff p part (.text '\\' :: .reference k :: marks) marks' := by
  obtain ⟨⟨-, hgroup, -⟩, hmarks⟩ := hseparate
  have hread : nextPart u p (writtenMarks (.text '\\' :: .reference k :: marks)) =
      .ok (.literal ['\\'], decimal k ++ writtenMarks marks) := rfl
  rw [hread] at h
  obtain ⟨rfl, rfl⟩ := Prod.mk.inj (Except.ok.inj h)
  have hdigits : ∀ d ∈ decimal k, d.isDigit = true := fun d => isDigit_of_mem_decimal
  have hlight := length_decimal_lt hgroup
  have hpart := partWeight_literal p.groups '\\'
  refine ⟨(decimal k).map .text ++ marks, ?_, separate_texts _ hmarks, .inl ?_⟩
  · rw [writtenMarks_append, writtenMarks_texts]
  · rw [marksWeight_append, marksWeight_digits hdigits, marksWeight_text,
      marksWeight_reference hgroup, charWeight_backslash]
    split <;> omega

/-- `\g<name>` is a reference, in place of at least four characters. -/
theorem readsOff_named (hmarks : Everywhere (Separate p.groups) marks)
    (h : nextPart u p ('\\' :: 'g' :: writtenMarks marks) = .ok (part, rest)) :
    ∃ marks', rest = writtenMarks marks' ∧
      ReadsOff p part (.text '\\' :: .text 'g' :: marks) marks' := by
  obtain ⟨hpart, name, htext⟩ := groupReference_eq_ok (u := u) h
  rw [← List.cons_append] at htext
  obtain ⟨read, marks', rfl, hrest⟩ := text_of_bracket htext
  refine ⟨marks', hrest, hmarks.suffix.2, .inl ?_⟩
  have hheavy := one_le_heavy p.groups
  have hletter : charWeight p.groups 'g' = heavy p.groups := rfl
  have hbracket : charWeight p.groups '>' = heavy p.groups := rfl
  rw [marksWeight_text, marksWeight_text, marksWeight_append, marksWeight_text,
    charWeight_backslash, hletter, hbracket]
  omega

/-- `\` with digits of the text is a character or a reference. -/
theorem readsOff_digits {c : Char} (hdigit : c.isDigit = true)
    (hmarks : Everywhere (Separate p.groups) marks)
    (h : nextPart u p ('\\' :: c :: writtenMarks marks) = .ok (part, rest)) :
    ∃ marks', rest = writtenMarks marks' ∧
      ReadsOff p part (.text '\\' :: .text c :: marks) marks' := by
  obtain ⟨hpart, ds, htext, -, hds⟩ := nextPart_takesDigits hdigit h
  obtain ⟨marks', rfl, hrest⟩ := texts_of_digits hds htext
  refine ⟨marks', hrest, hmarks.suffix, .inl ?_⟩
  have hc := one_le_charWeight p.groups c
  rw [marksWeight_text, marksWeight_text, marksWeight_append, charWeight_backslash]
  omega

/-- Any other escape stands for one character, unless it is none and stays as it is. -/
theorem readsOff_escape {c : Char} (hg : c ≠ 'g') (hdigit : c.isDigit = false)
    (hmarks : Everywhere (Separate p.groups) marks)
    (h : nextPart u p ('\\' :: c :: writtenMarks marks) = .ok (part, rest)) :
    ∃ marks', rest = writtenMarks marks' ∧
      ReadsOff p part (.text '\\' :: .text c :: marks) marks' := by
  rw [nextPart_escaped hg hdigit] at h
  split at h
  · rename_i d hescape
    obtain ⟨rfl, rfl⟩ := Prod.mk.inj (Except.ok.inj h)
    have hpart := partWeight_literal p.groups d
    have hc := one_le_charWeight p.groups c
    refine ⟨marks, rfl, hmarks, .inl ?_⟩
    rw [marksWeight_text, marksWeight_text, charWeight_backslash]
    omega
  · rename_i hescape
    split at h
    · cases h
    · rename_i halpha
      obtain ⟨rfl, rfl⟩ := Prod.mk.inj (Except.ok.inj h)
      have hne : c ≠ '\\' := by
        rintro rfl
        cases hescape
      have hpart : partWeight p.groups (.literal ['\\', c]) =
          charWeight p.groups '\\' + charWeight p.groups c := by
        simp [partWeight, Part.expand, weigh]
      refine ⟨marks, rfl, hmarks, .inr ⟨?_, fun hplain => ?_⟩⟩
      · rw [marksWeight_text, marksWeight_text, hpart]
        omega
      · have hletter : c.isAlphanum = false := by simp [Char.isAlphanum, halpha, hdigit]
        exact ⟨fun _ => ⟨c, marks, rfl, hletter, hne⟩, fun heq => absurd heq hne, hplain⟩

/-- A backslash of the text is read with what stands behind it. -/
theorem nextPart_weight_backslash
    (hseparate : Everywhere (Separate p.groups) (.text '\\' :: marks))
    (h : nextPart u p (writtenMarks (.text '\\' :: marks)) = .ok (part, rest)) :
    ∃ marks', rest = writtenMarks marks' ∧ ReadsOff p part (.text '\\' :: marks) marks' := by
  cases marks with
  | nil => cases h
  | cons mark marks =>
    cases mark with
    | reference k => exact readsOff_backslash_reference hseparate.2 h
    | text c =>
      obtain ⟨-, -, hmarks⟩ := hseparate
      rw [writtenMarks_text, writtenMarks_text] at h
      by_cases hg : c = 'g'
      · subst hg
        exact readsOff_named hmarks h
      · cases hdigit : c.isDigit with
        | true => exact readsOff_digits hdigit hmarks h
        | false => exact readsOff_escape hg hdigit hmarks h

end Backslash

theorem nextPart_weight {mark : Mark} {part : Part} {rest : Str}
    (hseparate : Everywhere (Separate p.groups) (mark :: marks))
    (h : nextPart u p (writtenMarks (mark :: marks)) = .ok (part, rest)) :
    ∃ marks', rest = writtenMarks marks' ∧ ReadsOff p part (mark :: marks) marks' := by
  cases mark with
  | reference k => exact nextPart_weight_reference hseparate h
  | text c =>
    by_cases hc : c = '\\'
    · subst hc
      exact nextPart_weight_backslash hseparate h
    · rw [writtenMarks_text, nextPart_text hc] at h
      obtain ⟨rfl, rfl⟩ := Prod.mk.inj (Except.ok.inj h)
      refine ⟨marks, rfl, hseparate.2, .inr ⟨?_, fun hplain => ⟨fun heq => absurd heq hc, hplain⟩⟩⟩
      rw [marksWeight_text]
      simp [partWeight, Part.expand, weigh]

theorem marksWeight_pos {mark : Mark} (h : Everywhere (Separate n) (mark :: marks)) :
    0 < marksWeight n (mark :: marks) := by
  cases mark with
  | text c =>
    have hc := one_le_charWeight n c
    rw [marksWeight_text]
    omega
  | reference k =>
    have hheavy := one_le_heavy n
    rw [marksWeight_reference h.1.2.1]
    split <;> omega

/-- What is read off a template weighs no more than its marks, and less unless they are plain. -/
theorem parseParts_weight {fuel : Nat} {parts : List Part}
    (hseparate : Everywhere (Separate p.groups) marks)
    (h : parseParts u p fuel (writtenMarks marks) = .ok parts) :
    weigh p.groups (expand parts (probe p.groups)) < marksWeight p.groups marks ∨
      weigh p.groups (expand parts (probe p.groups)) = marksWeight p.groups marks ∧
        Everywhere Plain marks := by
  induction fuel generalizing marks parts with
  | zero =>
    obtain rfl := Except.ok.inj h
    cases marks with
    | nil => exact .inr ⟨rfl, trivial⟩
    | cons mark marks => exact .inl (marksWeight_pos hseparate)
  | succ fuel ih =>
    cases marks with
    | nil =>
      obtain rfl := Except.ok.inj h
      exact .inr ⟨rfl, trivial⟩
    | cons mark marks =>
      rw [parseParts_succ (writtenMarks_ne_nil mark marks)] at h
      cases hpart : nextPart u p (writtenMarks (mark :: marks)) with
      | error e =>
        rw [hpart] at h
        cases h
      | ok read =>
        obtain ⟨part, rest⟩ := read
        -- what is lost in one part is not made up for by the parts that follow
        obtain ⟨marks', rfl, hseparate', hstep⟩ := nextPart_weight hseparate hpart
        rw [hpart] at h
        cases hrest : parseParts u p fuel (writtenMarks marks') with
        | error e => simp [bind, Except.bind, hrest] at h
        | ok parts' =>
          obtain rfl : part :: parts' = parts := by
            simpa [bind, Except.bind, hrest, pure, Except.pure] using h
          have hrun := ih hseparate' hrest
          have hweight : weigh p.groups (expand (part :: parts') (probe p.groups)) =
              partWeight p.groups part + weigh p.groups (expand parts' (probe p.groups)) := by
            rw [expand_cons, weigh_append]
            rfl
          rw [hweight]
          rcases hstep with hstep | ⟨hstep, hplain⟩
          · left
            omega
          · rcases hrun with hrun | ⟨hrun, hall⟩
            · left
              omega
            · exact .inr ⟨by omega, hplain hall⟩

/-- **Marks are read back** from their template, whatever the groups took, exactly when each of
them is plain. -/
theorem template_expands_iff (u : Unicode) (hseparate : Everywhere (Separate p.groups) marks) :
    (∃ parts, parseTemplate u p (writtenMarks marks) = .ok parts ∧
      ∀ m, expand parts m = filledMarks m marks) ↔ Everywhere Plain marks := by
  constructor
  · rintro ⟨parts, hparts, hexpand⟩
    rcases parseParts_weight hseparate hparts with hlt | ⟨-, hplain⟩
    · rw [hexpand] at hlt
      exact absurd hlt (Nat.lt_irrefl _)
    · exact hplain
  · exact parseParts_of_plain (Nat.le_refl _) hseparate

end PyRe
