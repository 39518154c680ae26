import KafkaCharm.PrincipalMapping
import KafkaCharm.Lib.TemplateMarks
import KafkaCharm.Lib.Integer
import Mathlib.Algebra.Order.BigOperators.Group.List
import Mathlib.Algebra.Order.Group.Nat

/-! A rule writes `$1` for what its first group took. Before the replacement goes to `re.sub`
each `$` with its digits is rewritten: to `\1` if the pattern has that group, and to a
dollar sign and the number if not. What comes out is a template, with escapes of its own. -/

namespace KafkaCharm

open PyText PyRe Fallible

namespace SslPrincipalMapper

/-- `\d`. -/
def isDecimal (c : Char) : Bool := (digitValue c).isSome

/-- A piece of a replacement: a character, or `$` with all the digits behind it. -/
inductive Token where
  | char (c : Char)
  | reference (digits : Str)
  deriving DecidableEq, Repr

/-- The pieces of a replacement. -/
def tokens : Str → List Token
  | [] => []
  | c :: s =>
    if c = '$' ∧ s.takeWhile isDecimal ≠ [] then
      .reference (s.takeWhile isDecimal) :: tokens (s.dropWhile isDecimal)
    else .char c :: tokens s
termination_by s => s.length
decreasing_by
  · exact Nat.lt_succ_of_le (List.length_dropWhile_le isDecimal s)
  · exact Nat.lt_succ_self _

/-- The number that digits write. -/
def number (digits : Str) : Nat := (digitsInt digits).getD 0

/-- The digits name one of `n` groups. -/
def NamesGroup (n : Nat) (digits : Str) : Prop := 1 ≤ number digits ∧ number digits ≤ n

instance (n : Nat) (digits : Str) : Decidable (NamesGroup n digits) :=
  inferInstanceAs (Decidable (_ ∧ _))

namespace Token

/-- A reference to a group becomes one of the template; all else stays. -/
def escaped (n : Nat) : Token → Str
  | char c => [c]
  | reference digits =>
    if NamesGroup n digits then '\\' :: decimal (number digits) else '$' :: digits

/-- A reference to a group becomes what the group took; all else stays. -/
def filled (n : Nat) (m : Found) : Token → Str
  | char c => [c]
  | reference digits =>
    if NamesGroup n digits then (m.group (number digits)).getD [] else '$' :: digits

/-- The text that is written for a piece. -/
def rendered (n : Nat) : Token → Str
  | char c => [c]
  | reference digits =>
    if NamesGroup n digits then '\\' :: decimal (number digits) else '$' :: decimal (number digits)

/-- A piece as the search sees it. -/
def piece : Token → Piece
  | char c => .skipped c
  | reference digits => .found ⟨'$' :: digits, [(1, digits)]⟩

end Token

/-! ## The search for references -/

/-- A reference takes all the digits there are. -/
theorem run_backReferencePattern {s : Str} (h : s.takeWhile isDecimal ≠ []) :
    (backReferencePattern.run ('$' :: s)).head? =
      some ⟨'$' :: s.takeWhile isDecimal, [(1, s.takeWhile isDecimal)]⟩ := by
  cases s with
  | nil => exact absurd rfl h
  | cons d s =>
    have hd : isDecimal d = true := by
      by_contra hd
      exact h (List.takeWhile_cons_of_neg hd)
    have hrun : digitRe.run (d :: s) = [⟨[d], []⟩] := by
      rw [digitRe, Re.run_one_cons]
      exact if_pos hd
    have hmany : ((Re.many true digitRe).run s).head? = some ⟨s.takeWhile isDecimal, []⟩ :=
      Re.run_many_one_head isDecimal s
    rw [List.takeWhile_cons_of_pos hd]
    simp [backReferencePattern, Re.run_cat, Re.run_group, hrun, hmany, Found.andThen, Found.close]

theorem run_backReferencePattern_nil {c : Char} {s : Str}
    (h : ¬ (c = '$' ∧ s.takeWhile isDecimal ≠ [])) : backReferencePattern.run (c :: s) = [] := by
  by_cases hc : c = '$'
  · have hdigits : s.takeWhile isDecimal = [] := by
      by_contra hne
      exact h ⟨hc, hne⟩
    have hrun : digitRe.run s = [] := by
      cases s with
      | nil => rfl
      | cons d s =>
        have hd : ¬ isDecimal d = true := by
          intro hd
          rw [List.takeWhile_cons_of_pos hd] at hdigits
          cases hdigits
        rw [digitRe, Re.run_one_cons]
        exact if_neg hd
    simp [backReferencePattern, Re.run_cat, Re.run_group, hc, hrun]
  · simp [backReferencePattern, Re.run_cat, hc]

/-- The search finds the pieces of the text. -/
theorem scan_eq_tokens (before r : Str) :
    (backReferencePattern.pattern 1).scan before 0 r = (tokens r).map Token.piece := by
  fun_induction tokens r generalizing before with
  | case1 =>
    have hnone : (backReferencePattern.pattern 1).hits before [] = [] := Pattern.hits_eq_nil rfl
    rw [Pattern.scan, hnone]
    rfl
  | case2 c s h ih =>
    obtain ⟨rfl, hdigits⟩ := h
    have hhit : (backReferencePattern.pattern 1).hits before
        ('$' :: s.takeWhile isDecimal ++ s.dropWhile isDecimal) =
        [⟨'$' :: s.takeWhile isDecimal, [(1, s.takeWhile isDecimal)]⟩] := by
      rw [List.cons_append, List.takeWhile_append_dropWhile]
      exact Pattern.hits_of_head (run_backReferencePattern hdigits) (by simp)
    have hscan := Pattern.scan_hit hhit rfl (by simp)
    rw [List.cons_append, List.takeWhile_append_dropWhile, ih] at hscan
    exact hscan
  | case3 c s h ih =>
    rw [Pattern.scan_miss (Pattern.hits_eq_nil (run_backReferencePattern_nil h)), ih]
    rfl

/-- The digits of a reference are digits, and there are some. -/
theorem digits_of_mem_tokens {r digits : Str} (h : .reference digits ∈ tokens r) :
    digits ≠ [] ∧ ∀ c ∈ digits, isDecimal c = true := by
  fun_induction tokens r with
  | case1 => cases h
  | case2 c s hc ih =>
    rcases List.mem_cons.mp h with heq | h
    · obtain rfl := Token.reference.inj heq
      exact ⟨hc.2, fun d hd => List.mem_takeWhile_imp hd⟩
    · exact ih h
  | case3 c s hc ih =>
    rcases List.mem_cons.mp h with heq | h
    · cases heq
    · exact ih h

/-! ## What is written for them -/

theorem number_of_mem_tokens {r digits : Str} (h : .reference digits ∈ tokens r) :
    digitsInt digits = some (number digits) ∧
      (decimal (number digits)).length ≤ digits.length := by
  obtain ⟨hne, hall⟩ := digits_of_mem_tokens h
  obtain ⟨v, hv, hlength⟩ := exists_digitsInt hne hall
  have hnumber : number digits = v := by simp [number, hv]
  rw [hnumber]
  exact ⟨hv, hlength⟩

theorem backReference_eq {digits : Str} (n : Nat) (h : digitsInt digits = some (number digits)) :
    backReference n ⟨'$' :: digits, [(1, digits)]⟩ =
      if maxStrDigits < digits.length then .error .valueError
      else .ok ((Token.reference digits).rendered n) := by
  have hgroup : (Found.mk ('$' :: digits) [(1, digits)]).group 1 = some digits := by
    simp [Found.group, Dict.get?_cons]
  simp only [backReference, hgroup, Option.getD_some, h]
  by_cases hvalid : NamesGroup n digits
  · have hrange : 1 ≤ number digits ∧ number digits ≤ n := hvalid
    rw [if_pos hrange, Token.rendered, if_pos hvalid]
  · have hrange : ¬ (1 ≤ number digits ∧ number digits ≤ n) := hvalid
    rw [if_neg hrange, Token.rendered, if_neg hvalid]

/-- What `re.sub` puts in the place of a piece. -/
def substitute (n : Nat) : Piece → Except Exn Str
  | .skipped c => pure [c]
  | .found m => backReference n m

theorem substitute_eq_ok {r y : Str} {t : Token} {n : Nat} (ht : t ∈ tokens r) :
    substitute n t.piece = .ok y ↔
      (∀ digits, t = .reference digits → digits.length ≤ maxStrDigits) ∧ y = t.rendered n := by
  cases t with
  | char c =>
    constructor
    · intro h
      exact ⟨fun digits heq => (Token.noConfusion heq), (Except.ok.inj h).symm⟩
    · rintro ⟨-, rfl⟩
      rfl
  | reference digits =>
    have hwrite : substitute n (Token.reference digits).piece =
        if maxStrDigits < digits.length then .error .valueError
        else .ok ((Token.reference digits).rendered n) :=
      backReference_eq n (number_of_mem_tokens ht).1
    rw [hwrite]
    constructor
    · intro h
      split at h
      · cases h
      · rename_i hshort
        refine ⟨fun digits' heq => ?_, (Except.ok.inj h).symm⟩
        obtain rfl := Token.reference.inj heq
        exact Nat.not_lt.mp hshort
    · rintro ⟨hshort, rfl⟩
      rw [if_neg (Nat.not_lt.mpr (hshort digits rfl))]

/-- `int` takes the digits of every reference unless there are too many, and what is written
is the number it makes of them. -/
theorem escape_eq_ok {r out : Str} {n : Nat} : escapeLiteralBackReferences r n = .ok out ↔
    (∀ digits, .reference digits ∈ tokens r → digits.length ≤ maxStrDigits) ∧
      out = (tokens r).flatMap (Token.rendered n) := by
  have hescape : escapeLiteralBackReferences r n =
      ((tokens r).mapM (substitute n ∘ Token.piece)).map List.flatten := by
    rw [escapeLiteralBackReferences, Pattern.subWith, scan_eq_tokens, List.mapM_map]
    rfl
  have hmapM : ∀ ys, (tokens r).mapM (substitute n ∘ Token.piece) = .ok ys ↔
      (∀ t ∈ tokens r, substitute n t.piece = .ok (t.rendered n)) ∧
        ys = (tokens r).map (Token.rendered n) :=
    fun ys => mapM_eq_ok_iff fun t ht y hy => ((substitute_eq_ok ht).mp hy).2
  rw [hescape]
  constructor
  · intro h
    obtain ⟨texts, htexts, rfl⟩ := except_map_eq_ok h
    obtain ⟨hall, rfl⟩ := (hmapM texts).mp htexts
    refine ⟨fun digits hmem => ?_, List.flatMap_def.symm⟩
    exact ((substitute_eq_ok hmem).mp (hall _ hmem)).1 digits rfl
  · rintro ⟨hshort, rfl⟩
    have hall : ∀ t ∈ tokens r, substitute n t.piece = .ok (t.rendered n) := by
      intro t ht
      refine (substitute_eq_ok ht).mpr ⟨fun digits heq => ?_, rfl⟩
      rw [heq] at ht
      exact hshort digits ht
    rw [(hmapM _).mpr ⟨hall, rfl⟩, List.flatMap_def]
    rfl

/-- Texts run together are equal if each is, where none is longer than its counterpart. -/
theorem flatMap_eq_flatMap_iff {α : Type} {f g : α → Str} {l : List α}
    (hle : ∀ a ∈ l, (f a).length ≤ (g a).length) :
    l.flatMap f = l.flatMap g ↔ ∀ a ∈ l, f a = g a := by
  refine ⟨fun h => ?_, List.flatMap_congr⟩
  induction l with
  | nil => simp
  | cons a l ih =>
    obtain ⟨ha, hl⟩ := List.forall_mem_cons.mp hle
    have htail : (l.flatMap f).length ≤ (l.flatMap g).length := by
      rw [List.length_flatMap, List.length_flatMap]
      exact List.sum_le_sum hl
    rw [List.flatMap_cons, List.flatMap_cons] at h
    have htotal := congrArg List.length h
    rw [List.length_append, List.length_append] at htotal
    obtain ⟨hhead, hrest⟩ := List.append_inj h (by omega)
    exact List.forall_mem_cons.mpr ⟨hhead, ih hl hrest⟩

/-- Nothing but the valid references is rewritten exactly when no reference has too many digits
and every other one is written as `str` writes its number. -/
theorem escape_literal_iff {r : Str} {n : Nat} :
    escapeLiteralBackReferences r n = .ok ((tokens r).flatMap (Token.escaped n)) ↔
      (∀ digits, .reference digits ∈ tokens r → digits.length ≤ maxStrDigits) ∧
      ∀ digits, .reference digits ∈ tokens r → ¬ NamesGroup n digits →
        digits = decimal (number digits) := by
  have hle : ∀ t ∈ tokens r, (t.rendered n).length ≤ (t.escaped n).length := by
    intro t ht
    cases t with
    | char c => exact Nat.le_refl _
    | reference digits =>
      have hlength := (number_of_mem_tokens ht).2
      by_cases hvalid : NamesGroup n digits
      · simp [Token.rendered, Token.escaped, hvalid]
      · simpa [Token.rendered, Token.escaped, hvalid] using hlength
  rw [escape_eq_ok, eq_comm, flatMap_eq_flatMap_iff hle]
  refine and_congr_right fun _ => ?_
  constructor
  · intro h digits hmem hinvalid
    have heq := h _ hmem
    simp only [Token.rendered, Token.escaped, if_neg hinvalid] at heq
    exact (List.cons.inj heq).2.symm
  · intro h t ht
    cases t with
    | char c => rfl
    | reference digits =>
      by_cases hvalid : NamesGroup n digits
      · simp [Token.rendered, Token.escaped, hvalid]
      · simp [Token.rendered, Token.escaped, hvalid, ← h digits ht hvalid]

-- the example in the source
example : escapeLiteralBackReferences "I owe $8 to him".toList 3 = .ok "I owe $8 to him".toList := by
  decide +kernel

/-! ## The template that comes out -/

namespace Token

/-- A piece as marks of the template. -/
def marks (n : Nat) : Token → List Mark
  | char c => [.text c]
  | reference digits =>
    if NamesGroup n digits then [.reference (number digits)] else ('$' :: digits).map .text

/-- A backslash in front of the piece stays one. -/
def KeepsBackslash (n : Nat) : Token → Prop
  | char c => c.isAlphanum = false ∧ c ≠ '\\'
  | reference digits => ¬ NamesGroup n digits

/-- A piece in front of others is read as what it is. -/
def Plain (n : Nat) : Token → List Token → Prop
  | char c, next => c = '\\' → ∃ t rest, next = t :: rest ∧ t.KeepsBackslash n
  | reference digits, _ => NamesGroup n digits → number digits < 100

theorem writtenMarks_marks (n : Nat) (t : Token) : writtenMarks (t.marks n) = t.escaped n := by
  cases t with
  | char c => rfl
  | reference digits =>
    by_cases hvalid : NamesGroup n digits
    · simp [marks, escaped, hvalid]
    · simp only [marks, escaped, hvalid, if_false, writtenMarks_texts]

theorem filledMarks_marks (n : Nat) (m : Found) (t : Token) :
    filledMarks m (t.marks n) = t.filled n m := by
  have htexts : ∀ s : Str, filledMarks m (s.map .text) = s := by
    intro s
    rw [filledMarks, List.flatMap_map]
    exact List.flatMap_singleton' s
  cases t with
  | char c => rfl
  | reference digits =>
    by_cases hvalid : NamesGroup n digits
    · simp [marks, filled, hvalid, filledMarks, Mark.filled]
    · simp only [marks, filled, hvalid, if_false, htexts]

end Token

def marksOf (n : Nat) (ts : List Token) : List Mark := ts.flatMap (Token.marks n)

@[simp] theorem marksOf_nil (n : Nat) : marksOf n [] = [] := rfl

@[simp] theorem marksOf_char (n : Nat) (c : Char) (ts : List Token) :
    marksOf n (.char c :: ts) = .text c :: marksOf n ts := rfl

theorem marksOf_valid {n : Nat} {digits : Str} (h : NamesGroup n digits) (ts : List Token) :
    marksOf n (.reference digits :: ts) = .reference (number digits) :: marksOf n ts := by
  simp [marksOf, Token.marks, h]

theorem marksOf_invalid {n : Nat} {digits : Str} (h : ¬ NamesGroup n digits) (ts : List Token) :
    marksOf n (.reference digits :: ts) = ('$' :: digits).map .text ++ marksOf n ts := by
  simp [marksOf, Token.marks, h]

theorem writtenMarks_marksOf (n : Nat) (ts : List Token) :
    writtenMarks (marksOf n ts) = ts.flatMap (Token.escaped n) := by
  rw [writtenMarks, marksOf, List.flatMap_assoc]
  exact List.flatMap_congr fun t _ => t.writtenMarks_marks n

theorem filledMarks_marksOf (n : Nat) (m : Found) (ts : List Token) :
    filledMarks m (marksOf n ts) = ts.flatMap (Token.filled n m) := by
  rw [filledMarks, marksOf, List.flatMap_assoc]
  exact List.flatMap_congr fun t _ => t.filledMarks_marks n m

/-- The first mark of a text is its first character, unless it is a reference. -/
theorem marksOf_tokens_cons {n : Nat} {c d : Char} {s : Str} {marks : List Mark}
    (h : marksOf n (tokens (c :: s)) = .text d :: marks) : d = c := by
  rw [tokens] at h
  split at h
  · rename_i hc
    by_cases hvalid : NamesGroup n (s.takeWhile isDecimal)
    · rw [marksOf_valid hvalid] at h
      cases h
    · rw [marksOf_invalid hvalid] at h
      rw [hc.1]
      exact (Mark.text.inj (List.cons.inj h).1).symm
  · exact (Mark.text.inj (List.cons.inj h).1).symm

/-- A reference is not followed by a digit: it took them all. -/
theorem separate_marksOf (n : Nat) (r : Str) :
    Everywhere (Mark.Separate n) (marksOf n (tokens r)) := by
  fun_induction tokens r with
  | case1 => trivial
  | case2 c s hc ih =>
    by_cases hvalid : NamesGroup n (s.takeWhile isDecimal)
    · rw [marksOf_valid hvalid]
      refine ⟨⟨hvalid.1, hvalid.2, fun d marks heq => ?_⟩, ih⟩
      -- a digit behind the reference would be one more of its digits
      have hnot := List.head?_dropWhile_not isDecimal s
      cases hrest : s.dropWhile isDecimal with
      | nil =>
        rw [hrest, tokens] at heq
        cases heq
      | cons e rest =>
        rw [hrest] at heq hnot
        obtain rfl := marksOf_tokens_cons heq
        by_contra hdigit
        rw [Bool.not_eq_false] at hdigit
        have hdecimal : isDecimal d = true := by rw [isDecimal, digitValue_of_isDigit hdigit]; rfl
        simp [hdecimal] at hnot
    · rw [marksOf_invalid hvalid]
      exact separate_texts _ ih
  | case3 c s hc ih => exact ⟨trivial, ih⟩

/-- Texts without a backslash are plain. -/
theorem plain_texts_append {s : Str} (h : '\\' ∉ s) (marks : List Mark) :
    Everywhere Mark.Plain (s.map .text ++ marks) ↔ Everywhere Mark.Plain marks := by
  induction s with
  | nil => rfl
  | cons c s ih =>
    rw [List.mem_cons, not_or] at h
    have hc : Mark.Plain (.text c) (s.map .text ++ marks) := fun heq => absurd heq.symm h.1
    exact (and_iff_right hc).trans (ih h.2)

theorem keepsBackslash_iff {n : Nat} {ts : List Token} :
    (∃ d marks, marksOf n ts = .text d :: marks ∧ d.isAlphanum = false ∧ d ≠ '\\') ↔
      ∃ t rest, ts = t :: rest ∧ t.KeepsBackslash n := by
  cases ts with
  | nil => simp
  | cons t ts =>
    cases t with
    | char c => simp [Token.KeepsBackslash]
    | reference digits =>
      by_cases hvalid : NamesGroup n digits
      · simp [marksOf_valid hvalid, Token.KeepsBackslash, hvalid]
      · simp [marksOf_invalid hvalid, Token.KeepsBackslash, hvalid]

theorem plain_marksOf_iff {n : Nat} {ts : List Token}
    (hdigits : ∀ digits, .reference digits ∈ ts → '\\' ∉ digits) :
    Everywhere Mark.Plain (marksOf n ts) ↔ Everywhere (Token.Plain n) ts := by
  induction ts with
  | nil => rfl
  | cons t ts ih =>
    have ih := ih fun digits hmem => hdigits digits (List.mem_cons_of_mem t hmem)
    cases t with
    | char c => exact and_congr (imp_congr_right fun _ => keepsBackslash_iff) ih
    | reference digits =>
      by_cases hvalid : NamesGroup n digits
      · rw [marksOf_valid hvalid]
        exact and_congr ⟨fun h _ => h, fun h => h hvalid⟩ ih
      · have hnot : '\\' ∉ '$' :: digits := by
          rw [List.mem_cons, not_or]
          exact ⟨by decide, hdigits digits List.mem_cons_self⟩
        rw [marksOf_invalid hvalid, plain_texts_append hnot, ih]
        exact (and_iff_right fun h => absurd h hvalid).symm

/-! ## Replacements that are kept -/

/-- Only the valid references of a replacement are replaced: each becomes the reference to its
group, and the rest stays as it is in the escaped text and in what the template makes of it,
whatever the groups took. -/
def OnlyValidReplaced (u : Unicode) (p : Pattern) (r : Str) : Prop :=
  escapeLiteralBackReferences r p.groups = .ok ((tokens r).flatMap (Token.escaped p.groups)) ∧
    ∃ parts, template u p r = .ok parts ∧
      ∀ m, expand parts m = (tokens r).flatMap (Token.filled p.groups m)

/-- How a replacement for a pattern with `n` groups has to be written. -/
structure WellWritten (n : Nat) (r : Str) : Prop where
  /-- `int` takes the digits of each reference. -/
  short : ∀ digits, .reference digits ∈ tokens r → digits.length ≤ maxStrDigits
  /-- A reference to no group is written as `str` writes its number. -/
  canonical : ∀ digits, .reference digits ∈ tokens r → ¬ NamesGroup n digits →
    digits = decimal (number digits)
  /-- A reference to a group is to one of the first 99. -/
  twoDigits : ∀ digits, .reference digits ∈ tokens r → NamesGroup n digits → number digits < 100
  /-- A backslash stands in front of a character that is no ASCII letter or digit and no
  backslash, and in front of no reference to a group. -/
  backslash : ∀ pre post, tokens r = pre ++ .char '\\' :: post →
    ∃ t rest, post = t :: rest ∧ t.KeepsBackslash n

theorem plain_tokens_iff {n : Nat} {ts : List Token} : Everywhere (Token.Plain n) ts ↔
    (∀ digits, .reference digits ∈ ts → NamesGroup n digits → number digits < 100) ∧
      ∀ pre post, ts = pre ++ .char '\\' :: post →
        ∃ t rest, post = t :: rest ∧ t.KeepsBackslash n := by
  rw [everywhere_iff]
  constructor
  · intro h
    refine ⟨fun digits hmem => ?_, fun pre post heq => h pre _ post heq rfl⟩
    obtain ⟨pre, post, heq⟩ := List.append_of_mem hmem
    exact h pre _ post heq
  · rintro ⟨hsmall, hbackslash⟩ pre t post heq
    cases t with
    | reference digits => exact hsmall digits (by simp [heq])
    | char c =>
      rintro rfl
      exact hbackslash pre post heq

theorem template_literal_iff {u : Unicode} {p : Pattern} {r : Str}
    (h : escapeLiteralBackReferences r p.groups =
      .ok ((tokens r).flatMap (Token.escaped p.groups))) :
    (∃ parts, template u p r = .ok parts ∧
      ∀ m, expand parts m = (tokens r).flatMap (Token.filled p.groups m)) ↔
      Everywhere (Token.Plain p.groups) (tokens r) := by
  have hdigits : ∀ digits, .reference digits ∈ tokens r → '\\' ∉ digits := by
    intro digits hmem hbackslash
    exact absurd ((digits_of_mem_tokens hmem).2 _ hbackslash) (by decide)
  have htemplate : template u p r =
      parseTemplate u p (writtenMarks (marksOf p.groups (tokens r))) := by
    rw [template, h, writtenMarks_marksOf]
    rfl
  rw [htemplate, ← plain_marksOf_iff hdigits,
    ← template_expands_iff u (separate_marksOf p.groups r)]
  simp only [filledMarks_marksOf]

/-- **Invalid back references stay literal** exactly in a replacement that is well written for
its pattern. -/
theorem back_references_literal_iff (u : Unicode) (p : Pattern) (r : Str) :
    OnlyValidReplaced u p r ↔ WellWritten p.groups r := by
  constructor
  · rintro ⟨hescape, htemplate⟩
    obtain ⟨hshort, hcanonical⟩ := escape_literal_iff.mp hescape
    obtain ⟨hsmall, hbackslash⟩ := plain_tokens_iff.mp ((template_literal_iff hescape).mp htemplate)
    exact ⟨hshort, hcanonical, hsmall, hbackslash⟩
  · rintro ⟨hshort, hcanonical, hsmall, hbackslash⟩
    have hescape := escape_literal_iff.mpr ⟨hshort, hcanonical⟩
    exact ⟨hescape,
      (template_literal_iff hescape).mpr (plain_tokens_iff.mpr ⟨hsmall, hbackslash⟩)⟩

/-- The replacement `$007` of a rule without groups becomes `$7`. -/
theorem leading_zeros_lost :
    escapeLiteralBackReferences ['$', '0', '0', '7'] 0 = .ok ['$', '7'] ∧
      ¬ OnlyValidReplaced asciiUnicode ((Re.text ['a']).pattern 0) ['$', '0', '0', '7'] := by
  have hescape : escapeLiteralBackReferences ['$', '0', '0', '7'] 0 = .ok ['$', '7'] := by
    decide +kernel
  have htokens : tokens ['$', '0', '0', '7'] = [.reference ['0', '0', '7']] := by
    have htake : List.takeWhile isDecimal ['0', '0', '7'] = ['0', '0', '7'] := by decide +kernel
    have hdrop : List.dropWhile isDecimal ['0', '0', '7'] = [] := by decide +kernel
    rw [tokens, htake, hdrop, tokens]
    rfl
  have hescaped : (Token.reference ['0', '0', '7']).escaped 0 = ['$', '0', '0', '7'] := by
    decide +kernel
  refine ⟨hescape, ?_⟩
  rintro ⟨hliteral, -⟩
  have hgroups : ((Re.text ['a']).pattern 0).groups = 0 := rfl
  rw [hgroups, hescape, htokens, List.flatMap_singleton, hescaped] at hliteral
  exact absurd (Except.ok.inj hliteral) (by decide)

end SslPrincipalMapper

end KafkaCharm
