import KafkaCharm.Lib.Template
import Mathlib.Algebra.Order.Ring.Nat

namespace PyText

open PyRe

/-- Digits with single underscores between them. -/
def digitGroups (s : Str) : Option Nat :=
  let groups := s.splitOn '_'
  if groups.all (· ≠ []) then digitsInt groups.flatten else none

/-- `digitGroups`, and no more digits than `int` takes. -/
def limitedDigits (s : Str) : Option Nat :=
  if (s.splitOn '_').flatten.length ≤ maxStrDigits then digitGroups s else none

/-- A sign or none, and what `read` makes of the text behind it. -/
def signed (read : Str → Option Nat) : Str → Option Int
  | '-' :: s => (read s).map fun n : Nat => -(n : Int)
  | '+' :: s => (read s).map fun n : Nat => (n : Int)
  | s => (read s).map fun n : Nat => (n : Int)

/-- `int(s)` of a text without white space around it; `none` is the `ValueError`. -/
def intLiteral (s : Str) : Option Int := signed limitedDigits s

/-- `int(s)`, but for the limit on the number of digits; `none` is the `ValueError`. -/
def parseInt (s : Str) : Option Int := signed digitGroups (strip s)

theorem digitValue_of_isDigit {c : Char} (h : c.isDigit = true) :
    digitValue c = some (c.toNat - 48) := by
  have hrange : 48 ≤ c.toNat ∧ c.toNat ≤ 57 := by
    simpa [Char.isDigit, UInt32.le_iff_toNat_le] using h
  have hzero : (decide (0x30 ≤ c.toNat) && decide (c.toNat < 0x30 + 10)) = true := by
    simp only [Bool.and_eq_true, decide_eq_true_eq]
    omega
  obtain ⟨others, hothers⟩ : ∃ others, digitZeros = 0x30 :: others := ⟨_, rfl⟩
  have hfind : digitZeros.find? (fun z => z ≤ c.toNat && c.toNat < z + 10) = some 0x30 := by
    rw [hothers]
    exact List.find?_cons_of_pos hzero
  rw [digitValue, hfind, Option.map_some]

theorem digitValue_lt {c : Char} {d : Nat} (h : digitValue c = some d) : d < 10 := by
  obtain ⟨z, hz, rfl⟩ := Option.map_eq_some_iff.mp h
  have hrange := List.find?_some hz
  simp only [Bool.and_eq_true, decide_eq_true_eq] at hrange
  omega

/-- Digits of any script have a value, below a one with as many zeros as there are digits. -/
theorem exists_foldlM_digits {s : Str} (h : ∀ c ∈ s, (digitValue c).isSome = true) (n : Nat) :
    ∃ v, s.foldlM (fun n c => (digitValue c).map (10 * n + ·)) n = some v ∧
      v < (n + 1) * 10 ^ s.length := by
  induction s generalizing n with
  | nil => exact ⟨n, rfl, by simp⟩
  | cons c s ih =>
    obtain ⟨hc, hs⟩ := List.forall_mem_cons.mp h
    obtain ⟨d, hd⟩ := Option.isSome_iff_exists.mp hc
    obtain ⟨v, hv, hbound⟩ := ih hs (10 * n + d)
    refine ⟨v, by rw [List.foldlM_cons, hd]; exact hv, hbound.trans_le ?_⟩
    have hten := digitValue_lt hd
    calc (10 * n + d + 1) * 10 ^ s.length
      _ ≤ ((n + 1) * 10) * 10 ^ s.length := Nat.mul_le_mul_right _ (by omega)
      _ = (n + 1) * 10 ^ (c :: s).length := by rw [Nat.mul_assoc, List.length_cons, Nat.pow_succ']

/-- `int` of digits, which has no more digits than they are. -/
theorem exists_digitsInt {s : Str} (hne : s ≠ []) (h : ∀ c ∈ s, (digitValue c).isSome = true) :
    ∃ v, digitsInt s = some v ∧ (decimal v).length ≤ s.length := by
  obtain ⟨v, hv, hbound⟩ := exists_foldlM_digits h 0
  refine ⟨v, by rw [digitsInt, if_neg hne, hv], ?_⟩
  have hpos : 0 < s.length := List.length_pos_iff.mpr hne
  exact (Nat.length_toDigits_le_iff (by decide) hpos).mpr (by simpa using hbound)

theorem foldlM_digits {s : Str} (h : ∀ c ∈ s, c.isDigit = true) (n : Nat) :
    s.foldlM (fun n c => (digitValue c).map (10 * n + ·)) n = some (Nat.ofDigitChars 10 s n) := by
  induction s generalizing n with
  | nil => rfl
  | cons c s ih =>
    obtain ⟨hc, hs⟩ := List.forall_mem_cons.mp h
    rw [List.foldlM_cons, digitValue_of_isDigit hc, Option.map_some]
    exact ih hs _

theorem digitsInt_decimal (n : Nat) : digitsInt (decimal n) = some n := by
  rw [digitsInt, if_neg (decimal_ne_nil n), foldlM_digits fun c => isDigit_of_mem_decimal]
  simp [decimal]

theorem splitOn_decimal (n : Nat) : (decimal n).splitOn '_' = [decimal n] :=
  List.splitOn_eq_singleton fun h => absurd (isDigit_of_mem_decimal h) (by decide)

theorem digitGroups_decimal (n : Nat) : digitGroups (decimal n) = some n := by
  simp [digitGroups, splitOn_decimal, decimal_ne_nil, digitsInt_decimal]

theorem limitedDigits_decimal {n : Nat} (h : n < 10 ^ maxStrDigits) :
    limitedDigits (decimal n) = some n := by
  have hlength : (decimal n).length ≤ maxStrDigits :=
    (Nat.length_toDigits_le_iff (by decide) (by decide)).mpr h
  have hflatten : ((decimal n).splitOn '_').flatten.length ≤ maxStrDigits := by
    simpa [splitOn_decimal] using hlength
  rw [limitedDigits, if_pos hflatten, digitGroups_decimal]

/-- What `str` writes of an integer is read back where its digits are. -/
theorem signed_intText {read : Str → Option Nat} {z : Int}
    (h : read (decimal z.natAbs) = some z.natAbs) : signed read (intText z) = some z := by
  cases z with
  | ofNat n =>
    have hdigits : ∀ c ∈ decimal n, c.isDigit = true := fun c => isDigit_of_mem_decimal
    rw [intText]
    unfold signed
    split
    · rename_i s heq
      exact absurd (hdigits '-' (by simp [heq])) (by decide)
    · rename_i s heq
      exact absurd (hdigits '+' (by simp [heq])) (by decide)
    · have hread : read (decimal n) = some n := h
      rw [hread]
      rfl
  | negSucc n =>
    have hread : read (decimal (n + 1)) = some (n + 1) := h
    rw [intText, signed, hread]
    rfl

theorem intLiteral_intText {z : Int} (h : z.natAbs < 10 ^ maxStrDigits) :
    intLiteral (intText z) = some z :=
  signed_intText (limitedDigits_decimal h)

theorem intText_spaceFree (z : Int) : SpaceFree (intText z) := by
  cases z with
  | ofNat n => exact decimal_spaceFree n
  | negSucc n => exact (spaceFree_append (s := ['-'])).mpr ⟨by decide, decimal_spaceFree (n + 1)⟩

theorem parseInt_intText (z : Int) : parseInt (intText z) = some z := by
  rw [parseInt, strip_of_spaceFree (intText_spaceFree z)]
  exact signed_intText (digitGroups_decimal z.natAbs)

theorem parseInt_decimal (n : Nat) : parseInt (decimal n) = some (n : Int) :=
  parseInt_intText n

end PyText
