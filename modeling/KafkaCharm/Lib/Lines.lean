import KafkaCharm.Lib.Text

namespace PyText

/-- A character that ends a line of a file read in text mode. -/
def isLineEnd (c : Char) : Bool := c == '\n' || c == '\r'

/-- The text stands on one line. -/
def OneLine (s : Str) : Prop := ∀ c ∈ s, isLineEnd c = false

instance (s : Str) : Decidable (OneLine s) := List.decidableBAll _ s

@[simp] theorem oneLine_nil : OneLine [] := by simp [OneLine]

@[simp] theorem oneLine_append {s t : Str} : OneLine (s ++ t) ↔ OneLine s ∧ OneLine t :=
  List.forall_mem_append

@[simp] theorem oneLine_cons {c : Char} {s : Str} :
    OneLine (c :: s) ↔ isLineEnd c = false ∧ OneLine s :=
  List.forall_mem_cons

theorem SpaceFree.oneLine {s : Str} (h : SpaceFree s) : OneLine s := by
  intro c hc
  have hspace := h c hc
  simp only [isLineEnd, Bool.or_eq_false_iff, beq_eq_false_iff_ne]
  refine ⟨?_, ?_⟩
  · rintro rfl
    exact absurd hspace (by decide)
  · rintro rfl
    exact absurd hspace (by decide)

/-- A literal is looked at by its characters: unfolding `String.toList` on it is slow. -/
theorem oneLine_literal {s : String}
    (h : ∃ cs, s = String.ofList cs ∧ (cs.all fun c => !isLineEnd c) = true) :
    OneLine s.toList := by
  obtain ⟨cs, rfl, hcs⟩ := h
  rw [String.toList_ofList]
  intro c hc
  simpa using List.all_eq_true.mp hcs c hc

/-- Each of the texts stands on one line. -/
def OneLines (texts : List Str) : Prop := ∀ text ∈ texts, OneLine text

instance (texts : List Str) : Decidable (OneLines texts) := List.decidableBAll _ texts

@[simp] theorem oneLines_nil : OneLines [] := by simp [OneLines]

@[simp] theorem oneLines_cons {text : Str} {texts : List Str} :
    OneLines (text :: texts) ↔ OneLine text ∧ OneLines texts :=
  List.forall_mem_cons

@[simp] theorem oneLines_append {xs ys : List Str} :
    OneLines (xs ++ ys) ↔ OneLines xs ∧ OneLines ys :=
  List.forall_mem_append

theorem oneLines_flatMap {α : Type} {f : α → List Str} {xs : List α} :
    OneLines (xs.flatMap f) ↔ ∀ x ∈ xs, OneLines (f x) := by
  simp only [OneLines, List.mem_flatMap]
  exact ⟨fun h x hx c hc => h c ⟨x, hx, hc⟩, fun h c ⟨x, hx, hc⟩ => h x hx c hc⟩

theorem oneLines_toList {text? : Option Str} :
    OneLines text?.toList ↔ ∀ text ∈ text?, OneLine text := by
  simp [OneLines]

theorem OneLine.of_subset {s t : Str} (h : OneLine t) (hs : s ⊆ t) : OneLine s :=
  fun c hc => h c (hs hc)

theorem oneLine_flatMap {α : Type} {f : α → Str} {xs : List α} :
    OneLine (xs.flatMap f) ↔ ∀ x ∈ xs, OneLine (f x) := by
  simp only [OneLine, List.mem_flatMap]
  exact ⟨fun h x hx c hc => h c ⟨x, hx, hc⟩, fun h c ⟨x, hx, hc⟩ => h x hx c hc⟩

theorem oneLine_intercalate {sep : Str} (hsep : OneLine sep) {xs : List Str} :
    OneLine (sep.intercalate xs) ↔ OneLines xs := by
  induction xs with
  | nil => simp
  | cons x xs ih =>
    cases xs with
    | nil => simp
    | cons y ys =>
      rw [List.intercalate_cons_cons, oneLine_append, oneLine_append, ih, oneLines_cons]
      simp [hsep]

theorem isLineEnd_of_isDigit {c : Char} (h : c.isDigit = true) : isLineEnd c = false := by
  simp only [isLineEnd, Bool.or_eq_false_iff, beq_eq_false_iff_ne]
  exact ⟨fun hc => absurd h (by rw [hc]; decide), fun hc => absurd h (by rw [hc]; decide)⟩

@[simp] theorem oneLine_decimal (n : Nat) : OneLine (decimal n) :=
  fun _ hc => isLineEnd_of_isDigit (isDigit_of_mem_decimal hc)

@[simp] theorem oneLine_intText (z : Int) : OneLine (intText z) := by
  intro c hc
  rcases mem_intText hc with rfl | hdigit
  · decide
  · exact isLineEnd_of_isDigit hdigit

theorem oneLine_hexDigits (width n : Nat) : OneLine (hexDigits width n) := by
  induction width generalizing n with
  | zero => simp [hexDigits]
  | succ width ih =>
    have hdigit : ∀ d < 16, isLineEnd (Nat.digitChar d) = false := by decide
    rw [hexDigits, oneLine_append, oneLine_cons]
    exact ⟨ih _, hdigit _ (Nat.mod_lt n (by decide)), oneLine_nil⟩

theorem oneLine_replaceFrom {old new : Str} (hne : old ≠ []) (hold : OneLine old)
    (hnew : OneLine new) (s : Str) (skip : Nat) (hskip : OneLine (s.take skip)) :
    OneLine (replaceFrom old new skip s) ↔ OneLine s := by
  induction s generalizing skip with
  | nil => simp [replaceFrom]
  | cons c s ih =>
    cases skip with
    | succ skip =>
      obtain ⟨hc, hrest⟩ := oneLine_cons.mp hskip
      rw [replaceFrom, ih skip hrest, oneLine_cons]
      simp [hc]
    | zero =>
      rw [replaceFrom]
      split
      case isTrue h =>
        -- the occurrence is one line, so it hides no line end
        obtain ⟨o, os, rfl⟩ := List.exists_cons_of_ne_nil hne
        obtain ⟨rest, hrest⟩ := h
        obtain ⟨rfl, rfl⟩ := List.cons.inj hrest
        have hos := oneLine_cons.mp hold
        have htake : OneLine ((os ++ rest).take os.length) := by
          rw [List.take_left]
          exact hos.2
        have hlater : OneLine (replaceFrom (o :: os) new os.length (os ++ rest)) ↔
            OneLine (os ++ rest) := ih os.length htake
        change OneLine (new ++ replaceFrom (o :: os) new os.length (os ++ rest)) ↔
          OneLine (o :: (os ++ rest))
        rw [oneLine_append, hlater, oneLine_cons]
        simp only [hnew, hos.1, true_and]
      case isFalse h =>
        rw [oneLine_cons, oneLine_cons, ih 0 (by simp)]

theorem oneLine_replace {old new : Str} (hne : old ≠ []) (hold : OneLine old) (hnew : OneLine new)
    (s : Str) : OneLine (replace old new s) ↔ OneLine s :=
  oneLine_replaceFrom hne hold hnew s 0 (by simp)

theorem oneLine_lower {s : Str} (h : OneLine s) : OneLine (lower s) := by
  intro c hc
  obtain ⟨d, hd, rfl⟩ := List.mem_map.mp hc
  have hletter : ∀ n < 91, 65 ≤ n → isLineEnd (Char.ofNat (n + 32)) = false := by decide
  unfold lowerChar
  split
  case isTrue hd => exact hletter d.toNat hd.2 hd.1
  case isFalse => exact h d hd

/-- What `repr` makes of a code point stands on one line: it escapes line ends. -/
theorem oneLine_reprChar (printable : Char → Bool) {quote : Char} (hquote : isLineEnd quote = false)
    (c : Char) : OneLine (reprChar printable quote c) := by
  unfold reprChar
  split
  case isTrue h =>
    have hslash : isLineEnd '\\' = false := by decide
    rcases h with rfl | rfl
    · simp [hslash, hquote]
    · simp [hslash]
  iterate 3
    split
    · simp [isLineEnd]
  split
  · simp [isLineEnd, oneLine_hexDigits]
  split
  · have hend : isLineEnd c = false := by simp [isLineEnd, *]
    simp [hend]
  iterate 2
    split
    · simp [isLineEnd, oneLine_hexDigits]
  simp [isLineEnd, oneLine_hexDigits]

theorem oneLine_strRepr (printable : Char → Bool) (s : Str) : OneLine (strRepr printable s) := by
  have hquote : isLineEnd (reprQuote s) = false := by
    unfold reprQuote
    split <;> decide
  rw [strRepr, oneLine_append, oneLine_cons, oneLine_flatMap]
  exact ⟨⟨hquote, fun c _ => oneLine_reprChar printable hquote c⟩, by simp [hquote]⟩

/-- A printed list of strings stands on one line whatever the strings hold. -/
theorem oneLine_listRepr (printable : Char → Bool) (xs : List Str) :
    OneLine (listRepr printable xs) := by
  have hitems : OneLines (xs.map (strRepr printable)) :=
    List.forall_mem_map.mpr fun x _ => oneLine_strRepr printable x
  rw [listRepr, oneLine_append, oneLine_cons, oneLine_intercalate (by decide)]
  simp [isLineEnd, hitems]

/-- Universal newlines: `\r\n` and `\r` are read as `\n`. -/
def universalNewlines : Str → Str
  | [] => []
  | '\r' :: '\n' :: s => '\n' :: universalNewlines s
  | '\r' :: s => '\n' :: universalNewlines s
  | c :: s => c :: universalNewlines s

/-- No carriage return is left. -/
theorem not_mem_universalNewlines (s : Str) : '\r' ∉ universalNewlines s := by
  fun_induction universalNewlines s with
  | case1 => simp
  | case2 s ih => simp [ih]
  | case3 s _ ih => simp [ih]
  | case4 c s _ hc ih =>
    have hne : '\r' ≠ c := fun h => hc h.symm
    simp [hne, ih]

theorem universalNewlines_eq_self {s : Str} (h : '\r' ∉ s) : universalNewlines s = s := by
  fun_induction universalNewlines s with
  | case1 => rfl
  | case2 s ih => simp at h
  | case3 s _ ih => simp at h
  | case4 c s _ hc ih =>
    rw [ih (List.not_mem_of_not_mem_cons h)]

/-- The text of a file of lines. -/
def joinLines (lines : List Str) : Str := ['\n'].intercalate lines

/-- `text.split("\n")`. -/
def splitText (text : Str) : List Str := text.splitOn '\n'

/-- Apart from line feeds the text has what its lines have. -/
theorem mem_joinLines {c : Char} (hc : c ≠ '\n') {lines : List Str} :
    c ∈ joinLines lines ↔ ∃ l ∈ lines, c ∈ l := by
  induction lines with
  | nil => simp [joinLines]
  | cons l ls ih =>
    cases ls with
    | nil => simp [joinLines]
    | cons l' ls =>
      unfold joinLines at ih ⊢
      rw [List.intercalate_cons_cons, List.mem_append, ih]
      simp [hc]

/-- Lines without a line end of their own come back as they were. -/
theorem lines_written {lines : List Str} (hne : lines ≠ []) (h : OneLines lines) :
    splitText (universalNewlines (joinLines lines)) = lines := by
  have hend (c : Char) (hc : isLineEnd c = true) (l : Str) (hl : l ∈ lines) : c ∉ l := by
    intro hmem
    rw [h l hl c hmem] at hc
    cases hc
  have hreturn : '\r' ∉ joinLines lines := by
    rw [mem_joinLines (by decide)]
    rintro ⟨l, hl, hmem⟩
    exact hend '\r' (by decide) l hl hmem
  rw [universalNewlines_eq_self hreturn]
  exact List.splitOn_intercalate '\n' (hend '\n' (by decide)) hne

/-- Whatever is read is one line. -/
theorem oneLine_of_mem_lines {text l : Str} (h : l ∈ splitText (universalNewlines text)) :
    OneLine l := by
  intro c hc
  have hfeed : c ≠ '\n' := by
    rintro rfl
    have hsplit := not_sep_of_mem_splitOnP (· == '\n') (universalNewlines text) l
      (by rwa [← List.splitOn_eq_splitOnP]) '\n' hc
    simp at hsplit
  have hreturn : c ≠ '\r' := by
    rintro rfl
    have htext : joinLines (splitText (universalNewlines text)) = universalNewlines text :=
      List.intercalate_splitOn '\n'
    have hmem := (mem_joinLines hfeed).mpr ⟨l, h, hc⟩
    rw [htext] at hmem
    exact not_mem_universalNewlines text hmem
  simp [isLineEnd, hfeed, hreturn]

/-- `set(before) ^ set(after)`. -/
def changedLines (before after : List Str) : List Str :=
  before.filter (· ∉ after) ++ after.filter (· ∉ before)

theorem changedLines_eq_nil_iff {before after : List Str} :
    changedLines before after = [] ↔ ∀ l, l ∈ before ↔ l ∈ after := by
  simp only [changedLines, List.append_eq_nil_iff, List.filter_eq_nil_iff, decide_not,
    Bool.not_eq_true', decide_eq_false_iff_not, not_not]
  exact ⟨fun h l => ⟨h.1 l, h.2 l⟩, fun h => ⟨fun l => (h l).mp, fun l => (h l).mpr⟩⟩

/-- A file that was just written seems unchanged exactly when every line is one line. -/
theorem changedLines_written_iff {lines : List Str} (hne : lines ≠ []) :
    changedLines (splitText (universalNewlines (joinLines lines))) lines = [] ↔
      OneLines lines := by
  rw [changedLines_eq_nil_iff]
  constructor
  · intro h l hl
    exact oneLine_of_mem_lines ((h l).mpr hl)
  · intro h l
    rw [lines_written hne h]

end PyText
