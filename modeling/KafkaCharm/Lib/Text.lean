import Mathlib.Data.List.Infix
import Mathlib.Data.List.TakeWhile
import Mathlib.Data.List.Basic

/-!
# Python text

Strings as sequences of code points, with the `str` methods a program that
talks to command line tools lives on:

* `split`, `join`: `str.split()` and `" ".join`; `split_join` and
  `split_join_iff` say exactly which word lists survive being joined and split;
* `splitlines`: the lines of a tool's output, `splitlines_unlines`;
* `capture`: the group of `re.search(key + "([^,]+),", s)`, with one lemma for
  text it runs past and one for the value it stops at;
* `decimal`, `intText`: `str` of a number, `decimal_injective`;
* `digitsInt`: `int(s)` where `s.isdigit()`, in the digits of any script;
* `replace`, `lower`: the `str` methods of these names;
* `strRepr`, `listRepr`: `repr` of a string and of a list of strings.
-/

namespace PyText

/-- A Python `str`: a sequence of code points. -/
abbrev Str := List Char

instance : Coe String Str := ⟨String.toList⟩

instance : LawfulBEq Str := List.instLawfulBEq

/-! ## Words -/

/-- `str.isspace` of one code point. -/
def isSpace (c : Char) : Bool :=
  let n := c.toNat
  (9 ≤ n && n ≤ 13) || (28 ≤ n && n ≤ 32) || n == 0x85 || n == 0xA0 || n == 0x1680 ||
    (0x2000 ≤ n && n ≤ 0x200A) || n == 0x2028 || n == 0x2029 || n == 0x202F || n == 0x205F ||
    n == 0x3000

/-- No white space in the string. -/
def SpaceFree (s : Str) : Prop := ∀ c ∈ s, isSpace c = false

instance (s : Str) : Decidable (SpaceFree s) := List.decidableBAll _ s

/-- `s.split()`: the maximal runs of characters that are not white space. -/
def split (s : Str) : List Str := (s.splitOnP isSpace).filter (· ≠ [])

/-- `" ".join(words)`. -/
def join (words : List Str) : Str := [' '].intercalate words

@[simp] theorem spaceFree_nil : SpaceFree [] := by simp [SpaceFree]

@[simp] theorem spaceFree_append {s t : Str} :
    SpaceFree (s ++ t) ↔ SpaceFree s ∧ SpaceFree t := by
  simp only [SpaceFree, List.mem_append]
  exact ⟨fun h => ⟨fun c hc => h c (.inl hc), fun c hc => h c (.inr hc)⟩,
    fun h c hc => hc.elim (h.1 c) (h.2 c)⟩

theorem SpaceFree.part {s t : Str} (h : SpaceFree t) (hs : s <:+: t) : SpaceFree s :=
  fun c hc => h c (hs.subset hc)

/-- A piece between separators holds no separator. -/
theorem not_sep_of_mem_splitOnP {α : Type} (p : α → Bool) (s : List α) :
    ∀ w ∈ s.splitOnP p, ∀ c ∈ w, p c = false := by
  induction s with
  | nil => simp
  | cons x xs ih =>
    intro w hw c hc
    rw [List.splitOnP_cons_eq_if_modifyHead] at hw
    obtain ⟨hd, tl, htl⟩ := List.exists_cons_of_ne_nil (List.splitOnP_ne_nil p xs)
    rw [htl] at hw ih
    cases hx : p x with
    | true =>
      simp only [hx, if_true, List.mem_cons] at hw
      rcases hw with rfl | hw
      · simp at hc
      · exact ih w (by simpa using hw) c hc
    | false =>
      simp only [hx, Bool.false_eq_true, if_false, List.modifyHead_cons, List.mem_cons] at hw
      rcases hw with rfl | hw
      · rcases List.mem_cons.mp hc with rfl | hc
        · exact hx
        · exact ih hd (by simp) c hc
      · exact ih w (by simp [hw]) c hc

theorem mem_split {s w : Str} (h : w ∈ split s) : w ≠ [] ∧ SpaceFree w := by
  obtain ⟨hw, hne⟩ := List.mem_filter.mp h
  exact ⟨by simpa using hne, not_sep_of_mem_splitOnP isSpace s w hw⟩

theorem split_word {w : Str} (hne : w ≠ []) (hw : SpaceFree w) : split w = [w] := by
  simp [split, List.splitOnP_eq_singleton hw, hne]

theorem split_append_space (s t : Str) : split (s ++ ' ' :: t) = split s ++ split t := by
  have hsep : isSpace ' ' = true := by decide
  simp [split, List.splitOnP_append_cons s t hsep]

/-- Splitting the joined text splits every word on its own. -/
theorem split_join_flatMap (ws : List Str) : split (join ws) = ws.flatMap split := by
  induction ws with
  | nil => simp [split, join]
  | cons w ws ih =>
    cases ws with
    | nil => simp [join]
    | cons v vs =>
      have hj : join (w :: v :: vs) = w ++ ' ' :: join (v :: vs) := by
        simp [join, List.intercalate_cons_cons]
      rw [hj, split_append_space, ih]
      rfl

theorem split_join {ws : List Str} (h : ∀ w ∈ ws, w ≠ [] ∧ SpaceFree w) :
    split (join ws) = ws := by
  rw [split_join_flatMap]
  induction ws with
  | nil => rfl
  | cons w ws ih =>
    obtain ⟨hne, hw⟩ := h w (by simp)
    rw [List.flatMap_cons, split_word hne hw, ih fun x hx => h x (by simp [hx])]
    rfl

/-- Joining and splitting gives the words back exactly when none of them is
empty or holds white space. -/
theorem split_join_iff {ws : List Str} :
    split (join ws) = ws ↔ ∀ w ∈ ws, w ≠ [] ∧ SpaceFree w := by
  refine ⟨fun h w hw => ?_, split_join⟩
  rw [← h] at hw
  exact mem_split hw

/-! ## Lines -/

/-- The characters `str.splitlines` breaks at. -/
def isLineBreak (c : Char) : Bool :=
  let n := c.toNat
  (10 ≤ n && n ≤ 13) || (28 ≤ n && n ≤ 30) || n == 0x85 || n == 0x2028 || n == 0x2029

/-- No line break in the string. -/
def BreakFree (s : Str) : Prop := ∀ c ∈ s, isLineBreak c = false

instance (s : Str) : Decidable (BreakFree s) := List.decidableBAll _ s

/-- The lines still to come, with the characters of the current one reversed. -/
def splitlinesFrom : Str → Str → List Str
  | acc, [] => if acc = [] then [] else [acc.reverse]
  | acc, '\r' :: '\n' :: cs => acc.reverse :: splitlinesFrom [] cs
  | acc, c :: cs =>
    if isLineBreak c then acc.reverse :: splitlinesFrom [] cs else splitlinesFrom (c :: acc) cs

/-- `s.splitlines()`. -/
def splitlines (s : Str) : List Str := splitlinesFrom [] s

/-- Every line followed by a newline. -/
def unlines (ls : List Str) : Str := ls.flatMap (· ++ ['\n'])

@[simp] theorem breakFree_nil : BreakFree [] := by simp [BreakFree]

@[simp] theorem breakFree_append {s t : Str} :
    BreakFree (s ++ t) ↔ BreakFree s ∧ BreakFree t := by
  simp only [BreakFree, List.mem_append]
  exact ⟨fun h => ⟨fun c hc => h c (.inl hc), fun c hc => h c (.inr hc)⟩,
    fun h c hc => hc.elim (h.1 c) (h.2 c)⟩

theorem SpaceFree.breakFree {s : Str} (h : SpaceFree s) : BreakFree s := by
  intro c hc
  have hs := h c hc
  simp only [isSpace, Bool.or_eq_false_iff, Bool.and_eq_false_iff, decide_eq_false_iff_not,
    beq_eq_false_iff_ne] at hs
  simp only [isLineBreak, Bool.or_eq_false_iff, Bool.and_eq_false_iff, decide_eq_false_iff_not,
    beq_eq_false_iff_ne]
  omega

theorem splitlinesFrom_break (acc cs : Str) {c : Char} (hc : isLineBreak c = true)
    (hr : c ≠ '\r') : splitlinesFrom acc (c :: cs) = acc.reverse :: splitlinesFrom [] cs := by
  rw [splitlinesFrom]
  · simp [hc]
  · intro _ h; exact absurd h hr

theorem splitlinesFrom_char (acc cs : Str) {c : Char} (hc : isLineBreak c = false) :
    splitlinesFrom acc (c :: cs) = splitlinesFrom (c :: acc) cs := by
  rw [splitlinesFrom]
  · simp [hc]
  · rintro _ rfl; exact absurd hc (by decide)

theorem splitlinesFrom_line (acc : Str) {l : Str} (hl : BreakFree l) (rest : Str) :
    splitlinesFrom acc (l ++ '\n' :: rest) = (acc.reverse ++ l) :: splitlinesFrom [] rest := by
  induction l generalizing acc with
  | nil => simpa using splitlinesFrom_break acc rest (c := '\n') (by decide) (by decide)
  | cons c cs ih =>
    rw [List.cons_append, splitlinesFrom_char _ _ (hl c (by simp)),
      ih _ fun x hx => hl x (by simp [hx])]
    simp

theorem splitlinesFrom_last (acc : Str) {l : Str} (hl : BreakFree l) :
    splitlinesFrom acc l = if acc.reverse ++ l = [] then [] else [acc.reverse ++ l] := by
  induction l generalizing acc with
  | nil => simp [splitlinesFrom]
  | cons c cs ih =>
    rw [splitlinesFrom_char _ _ (hl c (by simp)), ih _ fun x hx => hl x (by simp [hx])]
    simp

/-- The last line need not end, and if it is empty it is no line. -/
theorem splitlines_unlines_append {ls : List Str} (h : ∀ l ∈ ls, BreakFree l) {last : Str}
    (hlast : BreakFree last) :
    splitlines (unlines ls ++ last) = ls ++ if last = [] then [] else [last] := by
  induction ls with
  | nil =>
    change splitlinesFrom [] last = if last = [] then [] else [last]
    rw [splitlinesFrom_last [] hlast]
    by_cases hempty : last = []
    · simp [hempty]
    · simp [hempty]
  | cons l ls ih =>
    have hu : unlines (l :: ls) ++ last = l ++ '\n' :: (unlines ls ++ last) := by simp [unlines]
    rw [splitlines, hu, splitlinesFrom_line [] (h l (by simp))]
    simpa [splitlines] using ih fun x hx => h x (by simp [hx])

theorem splitlines_unlines {ls : List Str} (h : ∀ l ∈ ls, BreakFree l) :
    splitlines (unlines ls) = ls := by
  have hlast := splitlines_unlines_append h breakFree_nil
  simpa using hlast

/-! ## Fields of a `key=value,` listing -/

theorem takeWhile_append_sep {c : Char} {v : Str} (hv : c ∉ v) (rest : Str) :
    (v ++ c :: rest).takeWhile (· ≠ c) = v := by
  have hall : ∀ d ∈ v, decide (d ≠ c) = true := by
    intro d hd
    simp only [ne_eq, decide_not, Bool.not_eq_true', decide_eq_false_iff_not]
    rintro rfl
    exact hv hd
  rw [List.takeWhile_append_of_pos hall]
  simp

theorem takeWhile_of_notMem {c : Char} {v : Str} (hv : c ∉ v) : v.takeWhile (· ≠ c) = v := by
  rw [List.takeWhile_eq_self_iff]
  intro d hd
  simp only [ne_eq, decide_not, Bool.not_eq_true', decide_eq_false_iff_not]
  rintro rfl
  exact hv hd

/-- A match of `key([^,]+),` at the start of the text: the text of its group. -/
def captureAt (key s : Str) : Option Str :=
  if key.isPrefixOf s then
    let value := (s.drop key.length).takeWhile (· ≠ ',')
    if value ≠ [] ∧ value.length < (s.drop key.length).length then some value else none
  else none

/-- The group of `re.search(key + "([^,]+),", s)`: the first match from the left. -/
def capture (key : Str) : Str → Option Str
  | [] => none
  | c :: cs => (captureAt key (c :: cs)).or (capture key cs)

/-- Text that no match can start in is run past. -/
theorem capture_skip {key pre rest : Str}
    (h : ∀ t, t <:+ pre → t ≠ [] → ¬ key <+: t ++ rest) :
    capture key (pre ++ rest) = capture key rest := by
  induction pre with
  | nil => rfl
  | cons c cs ih =>
    have hno : captureAt key (c :: cs ++ rest) = none := by
      have := h (c :: cs) (List.suffix_refl _) (by simp)
      simp [captureAt, ← List.isPrefixOf_iff_prefix] at this ⊢
      simp [this]
    rw [List.cons_append, capture]
    rw [List.cons_append] at hno
    rw [hno, Option.none_or]
    exact ih fun t ht hne => h t (ht.trans (List.suffix_cons c cs)) hne

/-- The test behind `capture_skip_literal`: the key differs from the text at
every place of it, before the text ends. -/
def clashes (key pre : Str) : Bool :=
  pre.tails.all fun t => t = [] || key.take t.length ≠ t.take key.length

theorem not_prefix_of_clashes {key pre t : Str} (h : clashes key pre = true) (ht : t <:+ pre)
    (hne : t ≠ []) (rest : Str) : ¬ key <+: t ++ rest := by
  have ht' := List.all_eq_true.mp h t ((List.mem_tails _ _).mpr ht)
  simp only [hne, decide_false, Bool.false_or, decide_eq_true_eq, ne_eq] at ht'
  rintro ⟨r, hr⟩
  apply ht'
  have h1 : key.take t.length = (t ++ rest).take (min t.length key.length) := by
    rw [← hr]
    rcases Nat.le_total t.length key.length with hl | hl
    · rw [Nat.min_eq_left hl, List.take_append_of_le_length hl]
    · rw [Nat.min_eq_right hl, List.take_of_length_le hl, List.take_left]
  have h2 : t.take key.length = (t ++ rest).take (min t.length key.length) := by
    rcases Nat.le_total t.length key.length with hl | hl
    · rw [Nat.min_eq_left hl, List.take_of_length_le hl, List.take_left]
    · rw [Nat.min_eq_right hl, List.take_append_of_le_length hl]
  rw [h1, h2]

/-- Fixed text is run past when it clashes with the key everywhere. -/
theorem capture_skip_literal {key pre : Str} (h : clashes key pre = true) (rest : Str) :
    capture key (pre ++ rest) = capture key rest :=
  capture_skip fun _ ht hne => not_prefix_of_clashes h ht hne rest

/-- Fixed text in front does not make a key of a value. -/
theorem not_infix_append_of_clashes {key pre v : Str} (h : clashes key pre = true)
    (hv : ¬ key <:+: v) : ¬ key <:+: pre ++ v := by
  rintro ⟨a, b, hab⟩
  rw [List.append_assoc] at hab
  rcases List.append_eq_append_iff.mp hab with ⟨t, rfl, ht⟩ | ⟨t, rfl, ht⟩
  · by_cases hne : t = []
    · subst hne
      exact hv ⟨[], b, by simpa using ht⟩
    · exact not_prefix_of_clashes h (List.suffix_append a t) hne v ⟨b, ht⟩
  · exact hv ⟨t, b, by rw [ht, List.append_assoc]⟩

/-- A value that does not hold the key is run past up to the comma behind it. -/
theorem capture_skip_value {key v : Str} (hkey : ',' ∉ key) (hv : ¬ key <:+: v) (rest : Str) :
    capture key (v ++ ',' :: rest) = capture key (',' :: rest) := by
  refine capture_skip fun t ht _ hp => ?_
  obtain ⟨r, hr⟩ := hp
  rcases List.append_eq_append_iff.mp hr with ⟨a, rfl, _⟩ | ⟨a, rfl, ha⟩
  · exact hv ((List.prefix_append key a).isInfix.trans ht.isInfix)
  · cases a with
    | nil => exact hv (by simpa using ht.isInfix)
    | cons c cs =>
      simp only [List.cons_append, List.cons.injEq] at ha
      exact hkey (by simp [← ha.1])

/-- Where the key stands, the value up to the first comma is captured. -/
theorem capture_key {key v : Str} (hne : v ≠ []) (hv : ',' ∉ v) (rest : Str) :
    capture key (key ++ v ++ ',' :: rest) = some v := by
  have hat : captureAt key (key ++ v ++ ',' :: rest) = some v := by
    have hp : key.isPrefixOf (key ++ (v ++ ',' :: rest)) = true := by simp
    rw [List.append_assoc, captureAt, if_pos hp, List.drop_left, takeWhile_append_sep hv]
    simp [hne]
  cases hs : key ++ v ++ ',' :: rest with
  | nil => simp [hne] at hs
  | cons c cs => rw [hs] at hat; rw [capture, hat, Option.some_or]

/-- The part of a value that a `([^,]+),` group sees: up to its first comma. -/
def field (v : Str) : Option Str :=
  if v.takeWhile (· ≠ ',') = [] then none else some (v.takeWhile (· ≠ ','))

theorem field_sound {v w : Str} (h : field v = some w) : w ≠ [] ∧ ',' ∉ w ∧ w <:+: v := by
  unfold field at h
  split at h
  · cases h
  · rename_i hne
    cases h
    refine ⟨hne, ?_, (List.takeWhile_prefix _).isInfix⟩
    intro hc
    simpa using List.mem_takeWhile_imp hc

theorem field_eq_self {v : Str} (hne : v ≠ []) (hv : ',' ∉ v) : field v = some v := by
  rw [field, takeWhile_of_notMem hv, if_neg hne]

theorem capture_of_no_comma {key s : Str} (h : ',' ∉ s) : capture key s = none := by
  induction s with
  | nil => rfl
  | cons c cs ih =>
    have hat : captureAt key (c :: cs) = none := by
      have hdrop : ((c :: cs).drop key.length).takeWhile (· ≠ ',') = (c :: cs).drop key.length :=
        takeWhile_of_notMem fun hd => h (List.mem_of_mem_drop hd)
      unfold captureAt
      simp only [hdrop, Nat.lt_irrefl, and_false, if_false, ite_self]
    rw [capture, hat, Option.none_or]
    exact ih fun hc => h (List.mem_cons_of_mem c hc)

/-- Text without the first character of the key is run past. -/
theorem capture_skip_head {k : Char} {ks pre : Str} (h : k ∉ pre) (rest : Str) :
    capture (k :: ks) (pre ++ rest) = capture (k :: ks) rest := by
  refine capture_skip fun t ht hne hp => ?_
  obtain ⟨c, cs, rfl⟩ := List.exists_cons_of_ne_nil hne
  obtain ⟨r, hr⟩ := hp
  simp only [List.cons_append, List.cons.injEq] at hr
  exact h (ht.subset (by simp [hr.1]))

theorem captureAt_field (key v rest : Str) :
    captureAt key (key ++ (v ++ ',' :: rest)) = field v := by
  have htake : (v ++ ',' :: rest).takeWhile (· ≠ ',') = v.takeWhile (· ≠ ',') := by
    by_cases hc : ',' ∈ v
    · obtain ⟨a, b, rfl⟩ := List.append_of_mem hc
      rw [List.append_assoc, List.cons_append]
      rw [List.takeWhile_append, List.takeWhile_append]
      simp
    · rw [takeWhile_append_sep hc, takeWhile_of_notMem hc]
  have hlen : (v.takeWhile (· ≠ ',')).length < (v ++ ',' :: rest).length := by
    have := (List.takeWhile_prefix (l := v) (· ≠ ',')).length_le
    simp only [List.length_append, List.length_cons]
    omega
  have hp : key.isPrefixOf (key ++ (v ++ ',' :: rest)) = true := by simp
  rw [captureAt, if_pos hp, List.drop_left, htake, field]
  by_cases hnil : v.takeWhile (· ≠ ',') = []
  · simp only [hnil, ne_eq, not_true_eq_false, false_and, if_false, if_true]
  · simp only [hnil, ne_eq, not_false_eq_true, hlen, and_self, if_true, if_false]

/-- Where the key stands, the field of the value is captured, if it has one. -/
theorem capture_of_field {key v w : Str} (hne : key ≠ []) (h : field v = some w) (rest : Str) :
    capture key (key ++ (v ++ ',' :: rest)) = some w := by
  obtain ⟨k, ks, rfl⟩ := List.exists_cons_of_ne_nil hne
  have hat := captureAt_field (k :: ks) v rest
  rw [List.cons_append] at hat ⊢
  rw [capture, hat, h, Option.some_or]

/-- Where the key stands, the field of the value is captured, provided neither
the value nor the text behind it holds another match. -/
theorem capture_field {key v rest : Str} (hself : clashes key key.tail = true) (hkey : ',' ∉ key)
    (hne : key ≠ []) (hv : field v = none → ¬ key <:+: v)
    (hrest : capture key (',' :: rest) = none) :
    capture key (key ++ (v ++ ',' :: rest)) = field v := by
  cases hf : field v with
  | some w => exact capture_of_field hne hf rest
  | none =>
    obtain ⟨k, ks, rfl⟩ := List.exists_cons_of_ne_nil hne
    have hat := captureAt_field (k :: ks) v rest
    rw [List.cons_append] at hat ⊢
    rw [capture, hat, hf, Option.none_or, capture_skip_literal (by simpa using hself),
      capture_skip_value hkey (hv hf), hrest]

/-- What is captured is a part of the text and has no comma. -/
theorem capture_sound {key s v : Str} (h : capture key s = some v) : v ≠ [] ∧ ',' ∉ v ∧ v <:+: s := by
  induction s with
  | nil => cases h
  | cons c cs ih =>
    rw [capture] at h
    rcases Option.or_eq_some_iff.mp h with hat | ⟨_, hrest⟩
    · unfold captureAt at hat
      split at hat
      · simp only at hat
        split at hat
        · rename_i hne
          cases hat
          refine ⟨hne.1, ?_, ?_⟩
          · intro hc
            simpa using List.mem_takeWhile_imp hc
          · exact (List.takeWhile_prefix _).isInfix.trans (List.drop_suffix _ _).isInfix
        · cases hat
      · cases hat
    · obtain ⟨hne, hcomma, hin⟩ := ih hrest
      exact ⟨hne, hcomma, hin.trans (List.suffix_cons c cs).isInfix⟩

/-! ## Options of a command line -/

/-- The values of an option in an argument vector: what follows `opt` in the
words that start with it. -/
def optionValues (opt : Str) (argv : List Str) : List Str :=
  argv.filterMap fun w => w.dropPrefix? opt

theorem dropPrefix?_self (opt v : Str) : (opt ++ v).dropPrefix? opt = some v :=
  List.dropPrefix?_append_of_beq v (by simp)

theorem dropPrefix?_suffix {opt w v : Str} (h : w.dropPrefix? opt = some v) : w = opt ++ v := by
  obtain ⟨p, hw, hp⟩ := List.dropPrefix?_eq_some_iff.mp h
  rw [hw, eq_of_beq hp]

/-- A word that starts with other text than the option does not carry it. -/
theorem dropPrefix?_clash {opt pre : Str} (h : opt.take pre.length ≠ pre.take opt.length)
    (v : Str) : (pre ++ v).dropPrefix? opt = none := by
  cases hd : (pre ++ v).dropPrefix? opt with
  | none => rfl
  | some r =>
    exfalso
    apply h
    have heq := dropPrefix?_suffix hd
    rcases List.append_eq_append_iff.mp heq with ⟨a, rfl, _⟩ | ⟨a, rfl, _⟩
    · simp
    · simp

theorem append_ne_of_clash {w pre : Str} (h : w.take pre.length ≠ pre.take w.length) (v : Str) :
    pre ++ v ≠ w := by
  rintro rfl
  exact h (by simp)

/-! ## Numbers -/

/-- `str(n)`. -/
def decimal (n : Nat) : Str := Nat.toDigits 10 n

/-- `s.strip()`. -/
def strip (s : Str) : Str := ((s.dropWhile isSpace).reverse.dropWhile isSpace).reverse

/-- `str(n)` of any integer. -/
def intText : Int → Str
  | .ofNat n => decimal n
  | .negSucc n => '-' :: decimal (n + 1)

theorem decimal_ne_nil (n : Nat) : decimal n ≠ [] := Nat.toDigits_ne_nil

theorem isDigit_of_mem_decimal {n : Nat} {c : Char} (h : c ∈ decimal n) : c.isDigit = true :=
  Nat.isDigit_of_mem_toDigits (by decide) (by decide) h

theorem isSpace_of_isDigit {c : Char} (h : c.isDigit = true) : isSpace c = false := by
  simp only [Char.isDigit, Bool.and_eq_true, decide_eq_true_eq] at h
  have h1 : 48 ≤ c.toNat := h.1
  have h2 : c.toNat ≤ 57 := h.2
  simp [isSpace]
  omega

theorem decimal_spaceFree (n : Nat) : SpaceFree (decimal n) :=
  fun _ hc => isSpace_of_isDigit (isDigit_of_mem_decimal hc)

theorem strip_of_spaceFree {s : Str} (h : SpaceFree s) : strip s = s := by
  have drop : ∀ t : Str, SpaceFree t → t.dropWhile isSpace = t := by
    intro t ht
    cases t with
    | nil => rfl
    | cons c cs => simp [ht c (by simp)]
  rw [strip, drop s h, drop s.reverse fun c hc => h c (List.mem_reverse.mp hc), List.reverse_reverse]

/-- White space before a text is stripped. -/
theorem strip_append {pre : Str} (h : ∀ c ∈ pre, isSpace c = true) (s : Str) :
    strip (pre ++ s) = strip s := by
  rw [strip, List.dropWhile_append_of_pos h]
  rfl

/-- White space behind a text is stripped. -/
theorem strip_append_right {post : Str} (h : ∀ c ∈ post, isSpace c = true) (s : Str) :
    strip (s ++ post) = strip s := by
  have hreverse : ∀ c ∈ post.reverse, isSpace c = true :=
    fun c hc => h c (List.mem_reverse.mp hc)
  rw [strip, strip, List.dropWhile_append]
  split
  · rename_i hempty
    rw [List.isEmpty_iff.mp hempty, List.dropWhile_eq_nil_iff.mpr h]
  · rw [List.reverse_append, List.dropWhile_append_of_pos hreverse]

theorem decimal_injective {i j : Nat} (h : decimal i = decimal j) : i = j := by
  have hvalue : ∀ n : Nat, Nat.ofDigitChars 10 (decimal n) 0 = n := by simp [decimal]
  rw [← hvalue i, h, hvalue]

theorem mem_intText {z : Int} {c : Char} (h : c ∈ intText z) : c = '-' ∨ c.isDigit = true := by
  cases z with
  | ofNat n => exact .inr (isDigit_of_mem_decimal h)
  | negSucc n =>
    rcases List.mem_cons.mp h with rfl | h
    · exact .inl rfl
    · exact .inr (isDigit_of_mem_decimal h)

/-! ## Replacement and case -/

/-- `replace` past the next `skip` characters, which belong to an occurrence. -/
def replaceFrom (old new : Str) : Nat → Str → Str
  | _, [] => []
  | skip + 1, _ :: s => replaceFrom old new skip s
  | 0, c :: s =>
    if old <+: c :: s then new ++ replaceFrom old new (old.length - 1) s
    else c :: replaceFrom old new 0 s

/-- `s.replace(old, new)` where `old` is not empty. -/
def replace (old new s : Str) : Str := replaceFrom old new 0 s

theorem notMem_replaceFrom {c : Char} {old new s : Str} (hnew : c ∉ new) (hs : c ∉ s) (skip : Nat) :
    c ∉ replaceFrom old new skip s := by
  induction s generalizing skip with
  | nil => simp [replaceFrom]
  | cons d s ih =>
    have hrest : c ∉ s := fun hc => hs (List.mem_cons_of_mem d hc)
    cases skip with
    | succ skip => exact ih hrest skip
    | zero =>
      rw [replaceFrom]
      split
      · exact List.not_mem_append hnew (ih hrest _)
      · rw [List.mem_cons, not_or]
        exact ⟨fun heq => hs (heq ▸ List.mem_cons_self), ih hrest 0⟩

theorem notMem_replace {c : Char} {old new s : Str} (hnew : c ∉ new) (hs : c ∉ s) :
    c ∉ replace old new s :=
  notMem_replaceFrom hnew hs 0

/-- What the result begins with stood at the beginning before, if none of it was put in. -/
theorem prefix_of_replaceFrom {old new p s : Str} (hne : new ≠ []) (hp : ∀ c ∈ p, c ∉ new)
    (h : p <+: replaceFrom old new 0 s) : p <+: s := by
  induction s generalizing p with
  | nil => exact h
  | cons c s ih =>
    rw [replaceFrom] at h
    cases p with
    | nil => exact List.nil_prefix
    | cons d p =>
      split at h
      case isTrue =>
        obtain ⟨n, ns, rfl⟩ := List.exists_cons_of_ne_nil hne
        obtain ⟨rfl, -⟩ := List.cons_prefix_cons.mp h
        exact absurd List.mem_cons_self (hp d List.mem_cons_self)
      case isFalse =>
        obtain ⟨rfl, hrest⟩ := List.cons_prefix_cons.mp h
        exact List.cons_prefix_cons.mpr
          ⟨rfl, ih (fun c hc => hp c (List.mem_cons_of_mem d hc)) hrest⟩

/-- An occurrence that shares nothing with a text stands behind it. -/
theorem infix_of_infix_append {old new rest : Str} (hold : old ≠ []) (hnew : ∀ c ∈ old, c ∉ new)
    (h : old <:+: new ++ rest) : old <:+: rest := by
  induction new with
  | nil => exact h
  | cons n new ih =>
    rcases List.infix_cons_iff.mp h with hpre | hrest
    · obtain ⟨o, os, rfl⟩ := List.exists_cons_of_ne_nil hold
      obtain ⟨rfl, -⟩ := List.cons_prefix_cons.mp hpre
      exact absurd List.mem_cons_self (hnew o List.mem_cons_self)
    · exact ih (fun c hc hmem => hnew c hc (List.mem_cons_of_mem n hmem)) hrest

/-- No occurrence is left or made by a text that shares no character with it. -/
theorem not_infix_replaceFrom {old new : Str} (hold : old ≠ []) (hne : new ≠ [])
    (hnew : ∀ c ∈ old, c ∉ new) (s : Str) (skip : Nat) :
    ¬ old <:+: replaceFrom old new skip s := by
  induction s generalizing skip with
  | nil =>
    intro h
    exact hold (List.eq_nil_of_infix_nil h)
  | cons c s ih =>
    cases skip with
    | succ skip => exact ih skip
    | zero =>
      rw [replaceFrom]
      split
      case isTrue => exact fun h => ih _ (infix_of_infix_append hold hnew h)
      case isFalse hno =>
        intro h
        rcases List.infix_cons_iff.mp h with hpre | hrest
        · obtain ⟨o, os, rfl⟩ := List.exists_cons_of_ne_nil hold
          obtain ⟨rfl, hos⟩ := List.cons_prefix_cons.mp hpre
          refine hno (List.cons_prefix_cons.mpr ⟨rfl, prefix_of_replaceFrom hne ?_ hos⟩)
          exact fun d hd => hnew d (List.mem_cons_of_mem o hd)
        · exact ih 0 hrest

theorem replace_of_not_infix {old s : Str} (new : Str) (h : ¬ old <:+: s) :
    replace old new s = s := by
  unfold replace
  induction s with
  | nil => rfl
  | cons c s ih =>
    rw [List.infix_cons_iff, not_or] at h
    rw [replaceFrom, if_neg h.1, ih h.2]

/-- Replacing once is enough. -/
theorem replace_replace {old new : Str} (hold : old ≠ []) (hne : new ≠ [])
    (hnew : ∀ c ∈ old, c ∉ new) (s : Str) :
    replace old new (replace old new s) = replace old new s :=
  replace_of_not_infix new (not_infix_replaceFrom hold hne hnew s 0)

/-- `split` past the next `skip` characters, which belong to a separator. -/
def splitSeqFrom (sep : Str) : Nat → Str → List Str
  | _, [] => [[]]
  | skip + 1, _ :: s => splitSeqFrom sep skip s
  | 0, c :: s =>
    if sep <+: c :: s then [] :: splitSeqFrom sep (sep.length - 1) s
    else (splitSeqFrom sep 0 s).modifyHead (c :: ·)

/-- `s.split(sep)` where `sep` is not empty. -/
def splitSeq (sep s : Str) : List Str := splitSeqFrom sep 0 s

/-- A text without the first character of the separator stays in one piece. -/
theorem splitSeq_append {c : Char} {w : Str} (hw : c ∉ w) (cs s : Str) :
    splitSeq (c :: cs) (w ++ s) = (splitSeq (c :: cs) s).modifyHead (w ++ ·) := by
  unfold splitSeq
  induction w with
  | nil =>
    rw [List.nil_append]
    cases splitSeqFrom (c :: cs) 0 s <;> rfl
  | cons d w ih =>
    rw [List.mem_cons, not_or] at hw
    have hno : ¬ (c :: cs <+: d :: (w ++ s)) := fun h => hw.1 (List.cons_prefix_cons.mp h).1
    rw [List.cons_append, splitSeqFrom, if_neg hno, ih hw.2]
    cases splitSeqFrom (c :: cs) 0 s <;> rfl

theorem splitSeqFrom_skip (sep w s : Str) :
    splitSeqFrom sep w.length (w ++ s) = splitSeqFrom sep 0 s := by
  induction w with
  | nil => rfl
  | cons d w ih => exact ih

theorem splitSeq_sep (c : Char) (cs s : Str) :
    splitSeq (c :: cs) (c :: (cs ++ s)) = [] :: splitSeq (c :: cs) s := by
  have hsep : c :: cs <+: c :: (cs ++ s) := List.prefix_append (c :: cs) s
  rw [splitSeq, splitSeqFrom, if_pos hsep]
  exact congrArg ([] :: ·) (splitSeqFrom_skip (c :: cs) cs s)

/-- Words without the first character of the separator are read back. -/
theorem splitSeq_intercalate {c : Char} {ws : List Str} (hws : ∀ w ∈ ws, c ∉ w) (hne : ws ≠ [])
    (cs : Str) : splitSeq (c :: cs) ((c :: cs).intercalate ws) = ws := by
  induction ws with
  | nil => exact absurd rfl hne
  | cons w ws ih =>
    obtain ⟨hw, hrest⟩ := List.forall_mem_cons.mp hws
    cases ws with
    | nil =>
      have hone := splitSeq_append hw cs []
      rw [List.append_nil] at hone
      rw [List.intercalate_singleton, hone]
      simp [splitSeq, splitSeqFrom]
    | cons v vs =>
      rw [List.intercalate_cons_cons, List.append_assoc, splitSeq_append hw, List.cons_append,
        splitSeq_sep, ih hrest (by simp)]
      simp

/-- The lower case of an ASCII letter. -/
def lowerChar (c : Char) : Char :=
  if 65 ≤ c.toNat ∧ c.toNat < 91 then Char.ofNat (c.toNat + 32) else c

/-- `s.lower()` of ASCII text. -/
def lower (s : Str) : Str := s.map lowerChar

theorem lower_append (s t : Str) : lower (s ++ t) = lower s ++ lower t := List.map_append

/-- Lower case brings in letters only. -/
theorem notMem_lower {c : Char} (hc : c.toNat < 97) {s : Str} (h : c ∉ s) : c ∉ lower s := by
  have hletter : ∀ n < 91, 65 ≤ n → 97 ≤ (Char.ofNat (n + 32)).toNat := by decide
  intro hmem
  obtain ⟨d, hd, heq⟩ := List.mem_map.mp hmem
  unfold lowerChar at heq
  split at heq
  case isTrue hrange =>
    have hlow := hletter d.toNat hrange.2 hrange.1
    rw [heq] at hlow
    omega
  case isFalse => exact h (heq ▸ hd)

/-! ## Digits of any script -/

/-- The zero of each script; its nine other digits follow it. -/
def digitZeros : List Nat :=
  [0x30, 0x660, 0x6f0, 0x7c0, 0x966, 0x9e6, 0xa66, 0xae6, 0xb66, 0xbe6, 0xc66, 0xce6, 0xd66,
   0xde6, 0xe50, 0xed0, 0xf20, 0x1040, 0x1090, 0x17e0, 0x1810, 0x1946, 0x19d0, 0x1a80, 0x1a90,
   0x1b50, 0x1bb0, 0x1c40, 0x1c50, 0xa620, 0xa8d0, 0xa900, 0xa9d0, 0xa9f0, 0xaa50, 0xabf0, 0xff10,
   0x104a0, 0x10d30, 0x11066, 0x110f0, 0x11136, 0x111d0, 0x112f0, 0x11450, 0x114d0, 0x11650,
   0x116c0, 0x11730, 0x118e0, 0x11950, 0x11c50, 0x11d50, 0x11da0, 0x11f50, 0x16a60, 0x16ac0,
   0x16b50, 0x1d7ce, 0x1d7d8, 0x1d7e2, 0x1d7ec, 0x1d7f6, 0x1e140, 0x1e2f0, 0x1e4f0, 0x1e950,
   0x1fbf0]

/-- The value of a decimal digit. -/
def digitValue (c : Char) : Option Nat :=
  (digitZeros.find? fun z => z ≤ c.toNat && c.toNat < z + 10).map (c.toNat - ·)

/-- `int(s)` where `s.isdigit()`; other digits than the decimal ones, such as superscripts,
make it raise. -/
def digitsInt (s : Str) : Option Nat :=
  if s = [] then none else s.foldlM (fun n c => (digitValue c).map (10 * n + ·)) 0

/-! ## Representation -/

/-- Hexadecimal digits, as many as are asked for. -/
def hexDigits : Nat → Nat → Str
  | 0, _ => []
  | width + 1, n => hexDigits width (n / 16) ++ [Nat.digitChar (n % 16)]

/-- A code point of a string that `repr` puts between `quote`s; `printable` tells which
code points outside ASCII are printed as they are. -/
def reprChar (printable : Char → Bool) (quote c : Char) : Str :=
  if c = quote ∨ c = '\\' then ['\\', c]
  else if c = '\t' then ['\\', 't']
  else if c = '\n' then ['\\', 'n']
  else if c = '\r' then ['\\', 'r']
  else if c.toNat < 0x20 ∨ c.toNat = 0x7f then '\\' :: 'x' :: hexDigits 2 c.toNat
  else if c.toNat < 0x7f ∨ printable c = true then [c]
  else if c.toNat ≤ 0xff then '\\' :: 'x' :: hexDigits 2 c.toNat
  else if c.toNat ≤ 0xffff then '\\' :: 'u' :: hexDigits 4 c.toNat
  else '\\' :: 'U' :: hexDigits 8 c.toNat

/-- The quote that `repr` puts around a string. -/
def reprQuote (s : Str) : Char := if '\x27' ∈ s ∧ '\x22' ∉ s then '\x22' else '\x27'

/-- `repr(s)`. -/
def strRepr (printable : Char → Bool) (s : Str) : Str :=
  reprQuote s :: s.flatMap (reprChar printable (reprQuote s)) ++ [reprQuote s]

/-- `str` of a list of strings. -/
def listRepr (printable : Char → Bool) (xs : List Str) : Str :=
  '[' :: [',', ' '].intercalate (xs.map (strRepr printable)) ++ [']']

end PyText
