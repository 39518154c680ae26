import KafkaCharm.PrincipalRules
import Mathlib.Data.List.DropRight

namespace KafkaCharm

namespace SslPrincipalMapper

open PyText PyRe

variable {s t rest before : Str}

/-- No blank at the start. -/
def Trimmed (s : Str) : Prop := ∀ c ∈ s.head?, isSpace c = false

theorem trimmed_nil : Trimmed [] := by simp [Trimmed]

theorem trimmed_cons {c : Char} : Trimmed (c :: s) ↔ isSpace c = false := by simp [Trimmed]

theorem trimmed_dropWhile (s : Str) : Trimmed (s.dropWhile isSpace) := by
  intro c hc
  have hne : s.dropWhile isSpace ≠ [] := by
    intro hnil
    rw [hnil] at hc
    cases hc
  have hhead := List.dropWhile_get_zero_not isSpace s (List.length_pos_iff.mpr hne)
  rw [List.head?_eq_getElem?, List.getElem?_eq_getElem (List.length_pos_iff.mpr hne)] at hc
  obtain rfl := Option.some.inj hc
  simpa using hhead

theorem strip_eq (s : Str) : strip s = (s.dropWhile isSpace).rdropWhile isSpace := rfl

theorem trimmed_strip (s : Str) : Trimmed (strip s) := by
  intro c hc
  apply trimmed_dropWhile s c
  obtain ⟨rest, hrest⟩ := List.rdropWhile_prefix isSpace (s.dropWhile isSpace)
  rw [← hrest, List.head?_append]
  rw [strip_eq] at hc
  rw [hc]
  rfl

/-! ## Reading one item -/

theorem trimmed_of_separator (h : separator s = some rest) : Trimmed rest := by
  unfold separator at h
  split at h
  · obtain rfl := Option.some.inj h
    exact trimmed_nil
  · split at h
    · obtain rfl := Option.some.inj h
      exact trimmed_dropWhile _
    · cases h

/-- A separator takes something unless the text is at its end. -/
theorem length_of_separator (h : separator s = some rest) : s = [] ∨ rest.length < s.length := by
  have hle : (s.dropWhile isSpace).length ≤ s.length := (List.dropWhile_suffix _).length_le
  unfold separator at h
  split at h
  · obtain rfl := Option.some.inj h
    cases s with
    | nil => exact .inl rfl
    | cons c s => exact .inr (by simp)
  · rename_i c rest' hdrop
    split at h
    · obtain rfl := Option.some.inj h
      have hle' : (rest'.dropWhile isSpace).length ≤ rest'.length :=
        (List.dropWhile_suffix _).length_le
      rw [hdrop, List.length_cons] at hle
      exact .inr (by omega)
    · cases h

/-- An item ends with a separator. -/
theorem endItem_spec {e : Str × Str} (h : endItem s = some e) :
    ∃ sep, e.1 ++ sep = s ∧ separator sep = some e.2 := by
  induction s generalizing e with
  | nil =>
    obtain rfl := Option.some.inj h
    exact ⟨[], rfl, rfl⟩
  | cons c s ih =>
    rw [endItem] at h
    cases hsep : separator (c :: s) with
    | some rest =>
      rw [hsep] at h
      obtain rfl := Option.some.inj h
      exact ⟨c :: s, rfl, hsep⟩
    | none =>
      rw [hsep, Option.map_none, Option.none_or] at h
      split at h
      · cases h
      · obtain ⟨e, he, rfl⟩ := Option.map_eq_some_iff.mp h
        obtain ⟨sep, hsep, hrest⟩ := ih he
        exact ⟨sep, by rw [List.cons_append, hsep], hrest⟩

/-- Every item ends with a separator. -/
theorem nextItem_spec {text : Str} (h : nextItem s = some (text, rest)) :
    ∃ sep, text ++ sep = s ∧ separator sep = some rest := by
  unfold nextItem at h
  rcases Option.or_eq_some_iff.mp h with hdefault | ⟨_, h⟩
  · unfold defaultItem at hdefault
    split at hdefault
    · rename_i hpre
      obtain ⟨rest', hrest, heq⟩ := Option.map_eq_some_iff.mp hdefault
      obtain ⟨rfl, rfl⟩ := Prod.mk.inj heq
      obtain ⟨sep, rfl⟩ := hpre
      rw [List.drop_left] at hrest
      exact ⟨sep, rfl, hrest⟩
    · cases hdefault
  · rcases Option.or_eq_some_iff.mp h with hrule | ⟨_, hend⟩
    · obtain ⟨head, hhead, hrule⟩ := Option.bind_eq_some_iff.mp hrule
      obtain ⟨e, he, heq⟩ := Option.map_eq_some_iff.mp hrule
      obtain ⟨rfl, rfl⟩ := Prod.mk.inj heq
      obtain ⟨sep, hsep, hrest⟩ := endItem_spec he
      refine ⟨sep, ?_, hrest⟩
      obtain ⟨tail, htail⟩ := flagOf_isPrefix head.tail
      have hdrop : head.tail.drop (flagOf head.tail).length = tail := by
        have happend := congrArg (List.drop (flagOf head.tail).length) htail
        rw [← happend, List.drop_left]
      rw [← ruleHead_append hhead, List.append_assoc, List.append_assoc, hsep, hdrop, htail]
    · exact endItem_spec hend

/-- The pieces of a text, found by `RULE_SPLITTER`. -/
def pieces (before s : Str) : List Piece := (ruleSplitter.pattern 9).scan before 0 s

/-- The texts that `split_rules` returns for the pieces. -/
def texts (ps : List Piece) : List Str := (ps.filterMap Piece.found?).filterMap (·.group 1)

theorem splitRules_eq (s : Str) : splitRules (some s) = texts (pieces [] (strip s)) := rfl

/-- At the end of the text an empty item is found once more. -/
theorem pieces_nil (before : Str) : ∃ m, pieces before [] = [.found m] ∧ m.group 1 = some [] ∧
    m.taken = [] := by
  obtain ⟨m, gap, hhead, hgroup, -, htaken, -⟩ := ruleSplitter_run (s := []) (by simp)
  have hempty : m.taken = [] := (List.append_eq_nil_iff.mp htaken).1
  have hnone : (ruleSplitter.run []).find? (·.taken ≠ []) = none := by
    rw [List.find?_eq_none]
    intro m hm
    simp [List.prefix_nil.mp (Re.taken_isPrefix hm)]
  refine ⟨m, ?_, hgroup, hempty⟩
  unfold pieces Pattern.scan Pattern.hits
  simp only [Re.pattern, hhead, hempty, if_true, hnone]
  rfl

/-- Reading one item. -/
theorem scan_item (before : Str) {text : Str} (hs : Trimmed s) (hne : s ≠ []) (h : nextItem s = some (text, rest)) :
    ∃ m gap, pieces before s = .found m :: pieces (before ++ m.taken) rest ∧
      m.group 1 = some text ∧ m.taken = text ++ gap ∧ m.taken ++ rest = s ∧ Separating gap ∧
      rest.length < s.length ∧ Trimmed rest := by
  have hruns := ruleSplitter_run hs
  rw [h] at hruns
  obtain ⟨m, gap, hhead, hgroup, htaken, happend, hgap⟩ := hruns
  obtain ⟨sep, hsep, hrest⟩ := nextItem_spec h
  have hlt : rest.length < s.length := by
    have hlen := congrArg List.length hsep
    rw [List.length_append] at hlen
    rcases length_of_separator hrest with rfl | hlt
    · obtain rfl : [] = rest := Option.some.inj hrest
      exact List.length_pos_iff.mpr hne
    · omega
  have hnonempty : m.taken ≠ [] := by
    intro hempty
    rw [hempty, List.nil_append] at happend
    rw [happend] at hlt
    exact absurd hlt (Nat.lt_irrefl _)
  refine ⟨m, gap, ?_, hgroup, htaken, happend, hgap, hlt, trimmed_of_separator hrest⟩
  have hhits : (ruleSplitter.pattern 9).hits before (m.taken ++ rest) = [m] := by
    rw [happend]
    exact Pattern.hits_of_head hhead hnonempty
  have hscan := Pattern.scan_hit hhits rfl hnonempty
  rw [happend] at hscan
  exact hscan

/-- An item that cannot be read: the search moves on by a character. -/
theorem scan_broken {c : Char} (hs : Trimmed (c :: s)) (h : nextItem (c :: s) = none) :
    pieces before (c :: s) = .skipped c :: pieces (before ++ [c]) s := by
  have hruns := ruleSplitter_run hs
  rw [h] at hruns
  exact Pattern.scan_miss (Pattern.hits_eq_nil hruns)

/-! ## Lists as they are written -/

/-- Text of characters escaped with a backslash and characters that need no escape. -/
inductive IsWord : Str → Prop
  | nil : IsWord []
  | escaped {c : Char} {w : Str} (hc : c ≠ '\n') (hw : IsWord w) : IsWord ('\\' :: c :: w)
  | plain {c : Char} {w : Str} (hslash : c ≠ '\\') (hc : c ≠ '/') (hw : IsWord w) : IsWord (c :: w)

theorem isWord_of_plain {w : Str} (h : ∀ c ∈ w, c ≠ '\\' ∧ c ≠ '/') : IsWord w := by
  induction w with
  | nil => exact .nil
  | cons c w ih =>
    obtain ⟨hslash, hc⟩ := h c (by simp)
    exact .plain hslash hc (ih fun d hd => h d (by simp [hd]))

inductive CaseFlag where
  | asIs
  | lower
  | upper
  deriving DecidableEq, Repr

def CaseFlag.text : CaseFlag → Str
  | .asIs => []
  | .lower => ['L']
  | .upper => ['U']

/-- `RULE:pattern/replacement/flag`. -/
structure WrittenRule where
  pattern : Str
  replacement : Str
  flag : CaseFlag
  pattern_ne : pattern ≠ []
  pattern_isWord : IsWord pattern
  replacement_isWord : IsWord replacement

/-- A rule as it is written. -/
inductive RuleSpec where
  | default
  | rule (w : WrittenRule)

def RuleSpec.text : RuleSpec → Str
  | .default => defaultText
  | .rule w => ruleMark ++ (w.pattern ++ ['/'] ++ (w.replacement ++ ['/'])) ++ w.flag.text

theorem takeWord_plain {c : Char} (hslash : c ≠ '\\') (hc : c ≠ '/') (s : Str) :
    takeWord (c :: s) = (c :: (takeWord s).1, (takeWord s).2) := by
  cases s with
  | nil => simp [takeWord, hslash, hc]
  | cons d s =>
    rw [takeWord, if_neg hslash, if_neg hc]

theorem takeWord_of_isWord {w : Str} (hw : IsWord w) (s : Str) :
    takeWord (w ++ '/' :: s) = (w, '/' :: s) := by
  induction hw with
  | nil => cases s <;> simp [takeWord]
  | escaped hc _ ih =>
    rw [List.cons_append, List.cons_append, takeWord, if_pos rfl, if_neg hc, ih]
  | plain hslash hc _ ih => rw [List.cons_append, takeWord_plain hslash hc, ih]

theorem ruleHead_written (w : WrittenRule) (s : Str) :
    ruleHead (RuleSpec.text (.rule w) ++ s) =
      some ⟨w.pattern, w.replacement, w.flag.text ++ s⟩ := by
  have htext : RuleSpec.text (.rule w) ++ s =
      ruleMark ++ (w.pattern ++ '/' :: (w.replacement ++ '/' :: (w.flag.text ++ s))) := by
    simp [RuleSpec.text]
  rw [htext, ruleHead, if_pos ⟨_, rfl⟩]
  simp only [List.drop_left, takeWord_of_isWord w.pattern_isWord, afterSlash, if_true,
    Option.bind_some, takeWord_of_isWord w.replacement_isWord, Option.map_some]

theorem not_default_written (w : WrittenRule) (s : Str) :
    ¬ defaultText <+: RuleSpec.text (.rule w) ++ s := by
  rintro ⟨rest, hrest⟩
  cases hrest

theorem separator_nil : separator [] = some [] := rfl

theorem flagOf_of_separator (h : separator s = some rest) : flagOf s = [] := by
  cases s with
  | nil => rfl
  | cons c s =>
    rw [flagOf]
    split
    · rename_i hc
      rcases Bool.or_eq_true _ _ ▸ hc with hc | hc
      · obtain rfl := eq_of_beq hc
        rw [separator_eq_none (by decide) (by decide)] at h
        cases h
      · obtain rfl := eq_of_beq hc
        rw [separator_eq_none (by decide) (by decide)] at h
        cases h
    · rfl

theorem flagOf_written (f : CaseFlag) (h : separator s = some rest) :
    flagOf (f.text ++ s) = f.text := by
  cases f with
  | asIs => exact flagOf_of_separator h
  | lower => rfl
  | upper => rfl

theorem endItem_of_separator (h : separator s = some rest) : endItem s = some ([], rest) := by
  cases s with
  | nil =>
    obtain rfl : [] = rest := Option.some.inj h
    rfl
  | cons c s =>
    rw [endItem, h]
    rfl

/-- A written rule in front of a separator is the next item. -/
theorem nextItem_written (spec : RuleSpec) (h : separator s = some rest) :
    nextItem (spec.text ++ s) = some (spec.text, rest) := by
  cases spec with
  | default =>
    have hpre : defaultText <+: RuleSpec.text .default ++ s := ⟨s, rfl⟩
    have hdrop : (RuleSpec.text .default ++ s).drop defaultText.length = s := List.drop_left
    rw [nextItem, defaultItem, if_pos hpre, hdrop, h]
    rfl
  | rule w =>
    have hdrop : (w.flag.text ++ s).drop w.flag.text.length = s := List.drop_left
    rw [nextItem, defaultItem, if_neg (not_default_written w s), ruleItem, ruleHead_written w s,
      Option.none_or, Option.bind_some, flagOf_written w.flag h, hdrop, endItem_of_separator h]
    simp [RuleSpec.text, RuleHead.text]

/-- Written rules, with blanks and commas around them. -/
inductive Written : Str → List RuleSpec → Prop
  | nil : Written [] []
  | space {c : Char} {s : Str} {specs : List RuleSpec} (hc : isSpace c = true)
      (h : Written s specs) : Written (c :: s) specs
  | comma {s : Str} {specs : List RuleSpec} (h : Written s specs) : Written (',' :: s) specs
  | last (spec : RuleSpec) {blank : Str} (hb : ∀ c ∈ blank, isSpace c = true) :
      Written (spec.text ++ blank) [spec]
  | rule (spec : RuleSpec) {blank s : Str} {specs : List RuleSpec}
      (hb : ∀ c ∈ blank, isSpace c = true) (h : Written s specs) :
      Written (spec.text ++ (blank ++ ',' :: s)) (spec :: specs)

theorem separator_blank {blank : Str} (hb : ∀ c ∈ blank, isSpace c = true) (s : Str) :
    separator (blank ++ s) = separator s := by
  induction blank with
  | nil => rfl
  | cons c blank ih =>
    rw [List.cons_append, separator_space (hb c (by simp)), ih fun d hd => hb d (by simp [hd])]

theorem RuleSpec.text_trimmed (spec : RuleSpec) (s : Str) : Trimmed (spec.text ++ s) := by
  cases spec with
  | default => exact trimmed_cons.mpr (by decide)
  | rule w => exact trimmed_cons.mpr (by decide)

theorem RuleSpec.text_ne_nil (spec : RuleSpec) : spec.text ≠ [] := by
  cases spec with
  | default => decide
  | rule w => exact List.cons_ne_nil _ _

theorem dropWhile_of_trimmed (h : Trimmed s) : s.dropWhile isSpace = s := by
  cases s with
  | nil => rfl
  | cons c s => simp [trimmed_cons.mp h]

theorem Written.dropWhile {specs : List RuleSpec} (h : Written s specs) :
    Written (s.dropWhile isSpace) specs := by
  induction h with
  | nil => exact .nil
  | space hc _ ih => simpa [hc] using ih
  | comma h ih =>
    rw [dropWhile_of_trimmed (trimmed_cons.mpr (by decide))]
    exact .comma h
  | last spec hb =>
    rw [dropWhile_of_trimmed (spec.text_trimmed _)]
    exact .last spec hb
  | rule spec hb h ih =>
    rw [dropWhile_of_trimmed (spec.text_trimmed _)]
    exact .rule spec hb h

/-- What stands behind a character that is no blank is trimmed on its own. -/
theorem rdropWhile_append_of_last {x : Str} {c : Char} (hc : isSpace c = false) (s : Str) :
    (x ++ [c] ++ s).rdropWhile isSpace = x ++ [c] ++ s.rdropWhile isSpace := by
  unfold List.rdropWhile
  rw [List.reverse_append, List.dropWhile_append]
  split
  · rename_i hempty
    rw [List.isEmpty_iff.mp hempty]
    simp [hc]
  · simp

theorem RuleSpec.text_last (spec : RuleSpec) :
    ∃ x c, spec.text = x ++ [c] ∧ isSpace c = false := by
  cases spec with
  | default => exact ⟨['D', 'E', 'F', 'A', 'U', 'L'], 'T', rfl, by decide⟩
  | rule w =>
    cases hflag : w.flag with
    | asIs =>
      exact ⟨ruleMark ++ (w.pattern ++ ['/'] ++ w.replacement), '/',
        by simp [RuleSpec.text, hflag, CaseFlag.text], by decide⟩
    | lower => exact ⟨_, 'L', by simp only [RuleSpec.text, hflag]; rfl, by decide⟩
    | upper => exact ⟨_, 'U', by simp only [RuleSpec.text, hflag]; rfl, by decide⟩

theorem RuleSpec.rdropWhile_text (spec : RuleSpec) (s : Str) :
    (spec.text ++ s).rdropWhile isSpace = spec.text ++ s.rdropWhile isSpace := by
  obtain ⟨x, c, htext, hc⟩ := spec.text_last
  rw [htext, rdropWhile_append_of_last hc]

theorem Written.rdropWhile {specs : List RuleSpec} (h : Written s specs) :
    Written (s.rdropWhile isSpace) specs := by
  induction h with
  | nil => exact .nil
  | @space c s specs hc h ih =>
    by_cases hblank : s.rdropWhile isSpace = []
    · have hall : (c :: s).rdropWhile isSpace = [] := by
        rw [List.rdropWhile_eq_nil_iff] at hblank ⊢
        intro d hd
        rcases List.mem_cons.mp hd with rfl | hd
        · exact hc
        · exact hblank d hd
      rw [hall]
      rwa [hblank] at ih
    · have hkeep : (c :: s).rdropWhile isSpace = c :: s.rdropWhile isSpace := by
        have hne : (s.reverse.dropWhile isSpace).isEmpty = false := by
          simpa [List.rdropWhile] using hblank
        unfold List.rdropWhile
        rw [List.reverse_cons, List.dropWhile_append, if_neg (by simp [hne])]
        simp
      rw [hkeep]
      exact .space hc ih
  | @comma s specs h ih =>
    have hkeep := rdropWhile_append_of_last (x := []) (c := ',') (by decide) s
    rw [List.nil_append, List.singleton_append, List.singleton_append] at hkeep
    rw [hkeep]
    exact .comma ih
  | @last spec blank hb =>
    rw [spec.rdropWhile_text, List.rdropWhile_eq_nil_iff.mpr hb]
    exact .last spec (by simp)
  | @rule spec blank s specs hb h ih =>
    have hkeep := rdropWhile_append_of_last (x := spec.text ++ blank) (c := ',') (by decide) s
    simp only [List.append_assoc, List.singleton_append] at hkeep
    rw [hkeep]
    exact .rule spec hb ih

theorem Written.strip {specs : List RuleSpec} (h : Written s specs) :
    Written (PyText.strip s) specs :=
  h.dropWhile.rdropWhile

theorem texts_found {m : Found} {text : Str} (ps : List Piece) (h : m.group 1 = some text) :
    texts (.found m :: ps) = text :: texts ps := by
  simp [texts, Piece.found?, h]

/-- The items that are found are the written rules, and empty ones. -/
theorem texts_written {specs : List RuleSpec} (hs : Trimmed s) (h : Written s specs) :
    (texts (pieces before s)).filter (· ≠ []) = specs.map RuleSpec.text := by
  -- by the length of the text: behind an item its blanks are dropped
  induction hn : s.length using Nat.strongRecOn generalizing s specs before with
  | ind n ih =>
    subst hn
    have hstep (text : Str) {rest : Str} (hne : s ≠ []) (hnext : nextItem s = some (text, rest))
        {specs' : List RuleSpec} (hrest : Written rest specs') :
        (texts (pieces before s)).filter (· ≠ []) =
          [text].filter (· ≠ []) ++ specs'.map RuleSpec.text := by
      obtain ⟨m, gap, hpieces, hgroup, -, -, -, hlt, htrim⟩ := scan_item before hs hne hnext
      rw [hpieces, texts_found _ hgroup, ← ih rest.length hlt htrim hrest rfl]
      exact List.filter_append [text] _
    cases h with
    | nil =>
      obtain ⟨m, hm, hgroup, -⟩ := pieces_nil before
      rw [hm, texts_found _ hgroup]
      rfl
    | space hc h =>
      rw [trimmed_cons, hc] at hs
      cases hs
    | @comma s specs h =>
      have hnext : nextItem (',' :: s) = some ([], s.dropWhile isSpace) := by
        have hdefault : defaultItem (',' :: s) = none := if_neg (by rintro ⟨_, h⟩; cases h)
        have hrule : ruleHead (',' :: s) = none := if_neg (by rintro ⟨_, h⟩; cases h)
        rw [nextItem, hdefault, ruleItem, hrule, endItem_of_separator (separator_comma s)]
        rfl
      exact hstep [] (by simp) hnext h.dropWhile
    | @last spec blank hb =>
      have hsep : separator blank = some [] := by
        have hblank := separator_blank hb []
        rwa [List.append_nil] at hblank
      have hwritten := hstep spec.text (by simp [spec.text_ne_nil]) (nextItem_written spec hsep) .nil
      simpa [spec.text_ne_nil] using hwritten
    | @rule spec blank s specs hb h =>
      have hsep : separator (blank ++ ',' :: s) = some (s.dropWhile isSpace) := by
        rw [separator_blank hb, separator_comma]
      have hwritten :=
        hstep spec.text (by simp [spec.text_ne_nil]) (nextItem_written spec hsep) h.dropWhile
      simpa [spec.text_ne_nil] using hwritten

/-- A parsed rule is the one that was written. -/
def Describes (compile : Compile) (rule : PrincipalRule) : RuleSpec → Prop
  | .default => rule = defaultRule
  | .rule w => ∃ c, compile w.pattern = .ok c ∧
      rule = ⟨false, some (w.pattern, c), some w.replacement, w.flag = .lower, w.flag = .upper⟩

variable {compile : Compile}

theorem parseRule_nil (compile : Compile) : parseRule compile [] = .ok none := by
  have hdefault : ¬ defaultText <+: [] := by decide
  have hrule : ruleHead [] = none := by decide
  rw [parseRule_eq, if_neg hdefault, hrule]
  rfl

theorem parseRule_written (compile : Compile) (spec : RuleSpec)
    (hvalid : ∀ w, spec = .rule w → ∃ c, compile w.pattern = .ok c) :
    ∃ rule, parseRule compile spec.text = .ok (some rule) ∧ Describes compile rule spec := by
  cases spec with
  | default =>
    refine ⟨defaultRule, ?_, rfl⟩
    rw [parseRule_eq, RuleSpec.text, if_pos (List.prefix_refl defaultText), if_pos rfl]
  | rule w =>
    obtain ⟨c, hc⟩ := hvalid w rfl
    have hdefault := not_default_written w []
    have hhead := ruleHead_written w []
    rw [List.append_nil] at hdefault hhead
    have hflag : flagOf w.flag.text = w.flag.text := by
      have hwritten := flagOf_written w.flag separator_nil
      rwa [List.append_nil] at hwritten
    refine ⟨_, ?_, c, hc, rfl⟩
    rw [parseRule_eq, if_neg hdefault, hhead]
    simp only [List.append_nil, hflag, if_true, newRule_some, if_neg w.pattern_ne, hc]
    cases w.flag <;> rfl

theorem parseRules_cons (compile : Compile) (t : Str) (ts : List Str) :
    parseRules compile (t :: ts) = do
      let rule ← parseRule compile t
      let rules ← parseRules compile ts
      return rule.toList ++ rules := by
  unfold parseRules
  rw [List.mapM_cons]
  cases parseRule compile t with
  | error e => rfl
  | ok rule =>
    cases ts.mapM (parseRule compile) with
    | error e => rfl
    | ok rules => cases rule <;> rfl

theorem parseRules_written {ts : List Str} {specs : List RuleSpec}
    (hts : ts.filter (· ≠ []) = specs.map RuleSpec.text)
    (hvalid : ∀ w, RuleSpec.rule w ∈ specs → ∃ c, compile w.pattern = .ok c) :
    ∃ rules, parseRules compile ts = .ok rules ∧ List.Forall₂ (Describes compile) rules specs := by
  induction ts generalizing specs with
  | nil =>
    obtain rfl : specs = [] := by simpa using hts.symm
    exact ⟨[], rfl, .nil⟩
  | cons t ts ih =>
    by_cases hempty : t = []
    case pos =>
      subst hempty
      obtain ⟨rules, hrules, hspecs⟩ := ih (by simpa using hts) hvalid
      refine ⟨rules, ?_, hspecs⟩
      rw [parseRules_cons, parseRule_nil, hrules]
      rfl
    case neg =>
      rw [List.filter_cons_of_pos (by simpa using hempty)] at hts
      cases specs with
      | nil => cases hts
      | cons spec specs =>
        obtain ⟨rfl, htail⟩ := List.cons.inj hts
        obtain ⟨rule, hrule, hspec⟩ := parseRule_written compile spec
          (fun w hw => hvalid w (by simp [hw]))
        obtain ⟨rules, hrules, hspecs⟩ := ih htail fun w hw => hvalid w (by simp [hw])
        refine ⟨rule :: rules, ?_, .cons hspec hspecs⟩
        rw [parseRules_cons, hrule, hrules]
        rfl

/-- An item of a list: a rule or nothing, with blanks around it. -/
structure Item where
  before : Str
  rule : Option RuleSpec
  after : Str
  before_blank : ∀ c ∈ before, isSpace c = true
  after_blank : ∀ c ∈ after, isSpace c = true

def Item.text (i : Item) : Str := i.before ++ (i.rule.elim [] RuleSpec.text ++ i.after)

/-- The text of a list of items. -/
def listText (items : List Item) : Str := [','].intercalate (items.map Item.text)

theorem Written.blank {specs : List RuleSpec} {blank : Str}
    (hb : ∀ c ∈ blank, isSpace c = true) (h : Written s specs) : Written (blank ++ s) specs := by
  induction blank with
  | nil => exact h
  | cons c blank ih => exact .space (hb c (by simp)) (ih fun d hd => hb d (by simp [hd]))

theorem written_listText (items : List Item) :
    Written (listText items) (items.filterMap (·.rule)) := by
  induction items with
  | nil => exact .nil
  | cons i items ih =>
    have hlast : Written i.text i.rule.toList := by
      apply Written.blank i.before_blank
      cases i.rule with
      | none =>
        have hblank := Written.blank i.after_blank .nil
        rwa [List.append_nil] at hblank
      | some spec => exact .last spec i.after_blank
    cases items with
    | nil =>
      have htext : listText [i] = i.text := by simp [listText]
      rw [htext, List.filterMap_cons]
      cases hrule : i.rule with
      | none => simpa [hrule] using hlast
      | some spec => simpa [hrule] using hlast
    | cons j items =>
      have htext : listText (i :: j :: items) = i.text ++ ',' :: listText (j :: items) := by
        simp [listText, List.intercalate_cons_cons]
      rw [htext, Item.text, List.append_assoc]
      apply Written.blank i.before_blank
      rw [List.filterMap_cons]
      cases i.rule with
      | none => exact .blank i.after_blank (.comma ih)
      | some spec =>
        rw [Option.elim_some, List.append_assoc]
        exact .rule spec i.after_blank ih

/-- A list of rules is read as it was written: the rules come back in order, each with its
pattern, its replacement and its case flag. -/
theorem rules_round_trip (compile : Compile) (items : List Item)
    (hvalid : ∀ i ∈ items, ∀ w, i.rule = some (.rule w) → ∃ c, compile w.pattern = .ok c) :
    ∃ rules, parseRules compile (splitRules (some (listText items))) = .ok rules ∧
      List.Forall₂ (Describes compile) rules (items.filterMap (·.rule)) := by
  apply parseRules_written
  · exact texts_written (trimmed_strip _) (written_listText items).strip
  · intro w hw
    obtain ⟨i, hi, hrule⟩ := List.mem_filterMap.mp hw
    exact hvalid i hi w hrule

/-- `re.compile` of text without special characters; other text is refused here. -/
def compileLiteral : Compile := fun p =>
  if p.any fun c => c ∈ ['.', '^', '$', '*', '+', '?', '\x7b', '\x7d', '[', ']', '\\', '|', '(', ')']
  then .error .reError
  else .ok ((Re.text p).pattern 0)

/-- `RULE:CN=a, b/DEFAULT/L`. -/
def sampleRule : WrittenRule where
  pattern := ['C', 'N', '=', 'a', ',', ' ', 'b']
  replacement := defaultText
  flag := .lower
  pattern_ne := by simp
  pattern_isWord := isWord_of_plain (by simp)
  replacement_isWord := isWord_of_plain (by simp [defaultText])

/-- A rule, an empty item and `DEFAULT`: `  RULE:CN=a, b/DEFAULT/L ,, DEFAULT`. -/
def sampleItems : List Item :=
  [⟨[' ', ' '], some (.rule sampleRule), [' '], by simp [isSpace], by simp [isSpace]⟩,
   ⟨[], none, [], by simp, by simp⟩,
   ⟨[' '], some .default, [], by simp [isSpace], by simp⟩]

theorem rules_round_trip_sample :
    (∀ i ∈ sampleItems, ∀ w, i.rule = some (.rule w) → ∃ c, compileLiteral w.pattern = .ok c) ∧
      ∃ rules, parseRules compileLiteral (splitRules (some (listText sampleItems))) = .ok rules ∧
        List.Forall₂ (Describes compileLiteral) rules [.rule sampleRule, .default] := by
  have hvalid : ∀ i ∈ sampleItems, ∀ w, i.rule = some (.rule w) →
      ∃ c, compileLiteral w.pattern = .ok c := by
    intro i hi w hw
    simp only [sampleItems, List.mem_cons, List.not_mem_nil, or_false] at hi
    rcases hi with rfl | rfl | rfl
    · obtain rfl := RuleSpec.rule.inj (Option.some.inj hw)
      exact ⟨_, rfl⟩
    · cases hw
    · cases hw
  exact ⟨hvalid, rules_round_trip compileLiteral sampleItems hvalid⟩

/-! ## What is left out -/

/-- A text breaks off: its first line holds no comma, and what follows the line, blanks
aside, is neither a comma nor the end. -/
def BreaksOff (s : Str) : Prop :=
  ∃ line rest c rest', s = line ++ '\n' :: rest ∧ '\n' ∉ line ∧ ',' ∉ line ∧
    rest.dropWhile isSpace = c :: rest' ∧ c ≠ ','

theorem separator_of_breaksOff (h : BreaksOff s) : separator s = none := by
  obtain ⟨line, rest, c, rest', rfl, -, hcomma, hrest, hc⟩ := h
  induction line with
  | nil =>
    rw [List.nil_append, separator_space (by decide), separator, hrest]
    exact if_neg hc
  | cons d line ih =>
    rw [List.mem_cons, not_or] at hcomma
    cases hd : isSpace d with
    | true =>
      rw [List.cons_append, separator_space hd]
      exact ih hcomma.2
    | false => exact separator_eq_none hd fun h => hcomma.1 h.symm

/-- No end of the item is found exactly when the text breaks off. -/
theorem endItem_eq_none_iff : endItem s = none ↔ BreaksOff s := by
  induction s with
  | nil =>
    constructor
    · intro h
      cases h
    · rintro ⟨line, rest, c, rest', h, -⟩
      exact absurd h.symm (by simp)
  | cons c s ih =>
    rw [endItem, Option.or_eq_none_iff, Option.map_eq_none_iff]
    constructor
    · rintro ⟨hsep, hmore⟩
      by_cases hc : c = '\n'
      case pos =>
        subst hc
        rw [separator_space (by decide), separator] at hsep
        split at hsep
        · cases hsep
        · rename_i d rest' hdrop
          refine ⟨[], s, d, rest', rfl, by simp, by simp, hdrop, ?_⟩
          rintro rfl
          simp at hsep
      case neg =>
        rw [if_neg hc, Option.map_eq_none_iff, ih] at hmore
        obtain ⟨line, rest, d, rest', rfl, hfeed, hcomma, hrest, hd⟩ := hmore
        refine ⟨c :: line, rest, d, rest', rfl, ?_, ?_, hrest, hd⟩
        · rw [List.mem_cons, not_or]
          exact ⟨fun h => hc h.symm, hfeed⟩
        · rw [List.mem_cons, not_or]
          refine ⟨?_, hcomma⟩
          rintro rfl
          rw [separator_comma] at hsep
          cases hsep
    · intro h
      refine ⟨separator_of_breaksOff h, ?_⟩
      obtain ⟨line, rest, d, rest', heq, hfeed, hcomma, hrest⟩ := h
      cases line with
      | nil =>
        obtain ⟨rfl, -⟩ := List.cons.inj heq
        exact if_pos rfl
      | cons e line =>
        obtain ⟨rfl, rfl⟩ := List.cons.inj heq
        rw [List.mem_cons, not_or] at hfeed hcomma
        rw [if_neg fun h => hfeed.1 h.symm, Option.map_eq_none_iff, ih]
        exact ⟨line, rest, d, rest', rfl, hfeed.2, hcomma.2, hrest⟩

/-- Text that breaks off does so behind any of its characters before the line feed. -/
theorem BreaksOff.of_append {x : Str} (hx : '\n' ∉ x) (h : BreaksOff (x ++ s)) : BreaksOff s := by
  induction x with
  | nil => exact h
  | cons c x ih =>
    rw [List.mem_cons, not_or] at hx
    obtain ⟨line, rest, d, rest', heq, hfeed, hcomma, hrest⟩ := h
    apply ih hx.2
    cases line with
    | nil =>
      obtain ⟨rfl, -⟩ := List.cons.inj heq
      exact absurd rfl hx.1
    | cons e line =>
      obtain ⟨rfl, hline⟩ := List.cons.inj heq
      rw [List.mem_cons, not_or] at hfeed hcomma
      exact ⟨line, rest, d, rest', hline, hfeed.2, hcomma.2, hrest⟩

/-- An item cannot be read exactly when the text breaks off and, where it starts with the
head of a rule, what is behind the head breaks off as well. -/
theorem nextItem_eq_none_iff :
    nextItem s = none ↔ BreaksOff s ∧ ∀ h, ruleHead s = some h → BreaksOff h.tail := by
  have hflag (t : Str) : endItem (t.drop (flagOf t).length) = none ↔ BreaksOff t := by
    by_cases hempty : flagOf t = []
    · rw [hempty]
      exact endItem_eq_none_iff
    · have hdrop : t.drop (flagOf t).length = t.tail := by
        have happend := congrArg (List.drop (flagOf t).length) (append_tail_flagOf hempty)
        rw [← happend, List.drop_left]
      rw [hdrop, ← endItem_eq_none_iff, endItem_flag hempty, Option.map_eq_none_iff]
  have hdefault (h : BreaksOff s) : defaultItem s = none := by
    unfold defaultItem
    split
    · rename_i hpre
      obtain ⟨t, rfl⟩ := hpre
      rw [List.drop_left, separator_of_breaksOff (h.of_append (by decide))]
      rfl
    · rfl
  rw [nextItem, Option.or_eq_none_iff, Option.or_eq_none_iff, endItem_eq_none_iff, ruleItem,
    Option.bind_eq_none_iff]
  simp only [Option.map_eq_none_iff, hflag]
  constructor
  · rintro ⟨-, hrule, hend⟩
    exact ⟨hend, hrule⟩
  · rintro ⟨hend, hrule⟩
    exact ⟨hdefault hend, hrule, hend⟩

/-- Reading item after item gets to the end of the text. -/
inductive ReadsThrough : Str → Prop
  | done : ReadsThrough []
  | item {s text rest : Str} (hnext : nextItem s = some (text, rest)) (h : ReadsThrough rest) :
      ReadsThrough s

/-- An item of the text starts where `t` does. -/
inductive StartsItem (s : Str) : Str → Prop
  | first : StartsItem s s
  | next {t text rest : Str} (h : StartsItem s t) (hnext : nextItem t = some (text, rest)) :
      StartsItem s rest

/-- No item of the text breaks off, neither at its start nor, where it starts with the head of a
rule, behind that. -/
def Unbroken (s : Str) : Prop :=
  ∀ t, StartsItem s t → ¬ (BreaksOff t ∧ ∀ h, ruleHead t = some h → BreaksOff h.tail)

theorem StartsItem.behind {text rest t : Str} (hnext : nextItem s = some (text, rest))
    (h : StartsItem rest t) : StartsItem s t := by
  induction h with
  | first => exact .next .first hnext
  | next _ hnext' ih => exact .next ih hnext'

theorem ReadsThrough.startsItem {t : Str} (h : ReadsThrough s) (ht : StartsItem s t) :
    ReadsThrough t := by
  have hnil : nextItem [] = some ([], []) := by decide
  induction ht with
  | first => exact h
  | next _ hnext ih =>
    cases ih with
    | done =>
      rw [hnil] at hnext
      obtain ⟨-, rfl⟩ := Prod.mk.inj (Option.some.inj hnext)
      exact .done
    | item hnext' h' =>
      rw [hnext'] at hnext
      obtain ⟨-, rfl⟩ := Prod.mk.inj (Option.some.inj hnext)
      exact h'

theorem ReadsThrough.unbroken (h : ReadsThrough s) : Unbroken s := by
  intro t ht
  rw [← nextItem_eq_none_iff]
  have hnil : nextItem [] ≠ none := by decide
  cases h.startsItem ht with
  | done => exact hnil
  | item hnext _ => simp [hnext]

/-- The texts in order, with blanks and commas before, between and behind them. -/
inductive Interleaved : List Str → Str → Prop
  | nil {gap : Str} (hgap : Separating gap) : Interleaved [] gap
  | cons {gap text s : Str} {ts : List Str} (hgap : Separating gap) (h : Interleaved ts s) :
      Interleaved (text :: ts) (gap ++ (text ++ s))

theorem Interleaved.prepend {ts : List Str} {gap : Str} (hgap : Separating gap)
    (h : Interleaved ts s) : Interleaved ts (gap ++ s) := by
  have happend {g : Str} (hg : Separating g) : Separating (gap ++ g) := by
    intro c hc
    rcases List.mem_append.mp hc with hc | hc
    · exact hgap c hc
    · exact hg c hc
  cases h with
  | nil hg => exact .nil (happend hg)
  | cons hg h =>
    rw [← List.append_assoc]
    exact .cons (happend hg) h

theorem Interleaved.append {ts : List Str} {gap : Str} (hgap : Separating gap)
    (h : Interleaved ts s) : Interleaved ts (s ++ gap) := by
  induction h with
  | nil hg =>
    apply Interleaved.nil
    intro c hc
    rcases List.mem_append.mp hc with hc | hc
    · exact hg c hc
    · exact hgap c hc
  | cons hg _ ih =>
    rw [List.append_assoc, List.append_assoc]
    exact .cons hg ih

theorem Interleaved.text {ts : List Str} (text : Str) (h : Interleaved ts s) :
    Interleaved (text :: ts) (text ++ s) := by
  have hcons : Interleaved (text :: ts) ([] ++ (text ++ s)) := .cons (by simp [Separating]) h
  exact hcons

theorem interleaved_pieces_nil (before : Str) : Interleaved (texts (pieces before [])) [] := by
  have hnil : Interleaved [] [] := .nil (by simp [Separating])
  obtain ⟨m, hm, hgroup, -⟩ := pieces_nil before
  rw [hm, texts_found _ hgroup]
  exact hnil.text []

theorem interleaved_of_readsThrough (before : Str) (hs : Trimmed s) (h : ReadsThrough s) :
    Interleaved (texts (pieces before s)) s := by
  induction h generalizing before with
  | done => exact interleaved_pieces_nil before
  | @item s text rest hnext h ih =>
    by_cases hne : s = []
    case pos =>
      subst hne
      exact interleaved_pieces_nil before
    case neg =>
      obtain ⟨m, gap, hpieces, hgroup, htaken, happend, hgap, -, htrim⟩ := scan_item before hs hne hnext
      rw [hpieces, texts_found _ hgroup, ← happend, htaken, List.append_assoc]
      exact ((ih _ htrim).prepend hgap).text text

/-- The characters of a text that are neither blanks nor commas. -/
def core (s : Str) : Str := s.filter fun c => !(isSpace c || c == ',')

@[simp] theorem core_append (s t : Str) : core (s ++ t) = core s ++ core t := List.filter_append s t

theorem core_eq_nil_iff : core s = [] ↔ Separating s := by
  rw [core, List.filter_eq_nil_iff, Separating]
  refine forall₂_congr fun c _ => ?_
  by_cases h : isSpace c = true
  · simp [h]
  · simp [h]

theorem core_of_interleaved {ts : List Str} (h : Interleaved ts s) : core s = ts.flatMap core := by
  induction h with
  | nil hgap => exact core_eq_nil_iff.mpr hgap
  | cons hgap _ ih =>
    rw [core_append, core_append, core_eq_nil_iff.mpr hgap, ih]
    rfl

theorem separating_of_blank {blank : Str} (h : ∀ c ∈ blank, isSpace c = true) :
    Separating blank :=
  fun c hc => .inl (h c hc)

theorem mem_run_separator {m : Found} (h : m ∈ separatorRe.run s) :
    Separating m.taken ∧ ∀ e ∈ m.groups, e.1 = 9 := by
  obtain ⟨a, ha, b, hb, rfl⟩ := Re.mem_run_cat.mp h
  obtain ⟨hblank, hgroups⟩ := Re.mem_run_many_one ha
  obtain ⟨b, hmem, rfl⟩ := List.mem_map.mp hb
  have hcomma : Separating b.taken ∧ b.groups = [] := by
    rcases List.mem_append.mp hmem with hb | hb
    · obtain ⟨c, hc, d, hd, rfl⟩ := Re.mem_run_cat.mp hb
      obtain ⟨comma, -, hcomma, rfl⟩ := Re.mem_run_one.mp hc
      obtain ⟨hspaces, hnone⟩ := Re.mem_run_many_one hd
      refine ⟨?_, by simp [hnone]⟩
      intro x hx
      rcases List.mem_append.mp hx with hx | hx
      · obtain rfl := List.mem_singleton.mp hx
        exact .inr (eq_of_beq hcomma)
      · exact .inl (hspaces x hx)
    · rw [Re.run] at hb
      split at hb
      · obtain rfl := List.mem_singleton.mp hb
        simp [Separating]
      · cases hb
  constructor
  · intro x hx
    rcases List.mem_append.mp hx with hx | hx
    · exact .inl (hblank x hx)
    · exact hcomma.1 x hx
  · simp [hgroups, hcomma.2]

/-- A match takes the text of its first group, and blanks and commas. -/
theorem core_taken {m : Found} (h : m ∈ ruleSplitter.run s) :
    ∃ text, m.group 1 = some text ∧ core m.taken = core text := by
  obtain ⟨a, ha, b, hb, rfl⟩ := Re.mem_run_cat.mp h
  obtain ⟨c, hc, d, hd, rfl⟩ := Re.mem_run_cat.mp hb
  obtain ⟨x, -, rfl⟩ := List.mem_map.mp hc
  obtain ⟨hblank, hnone⟩ := Re.mem_run_many_one ha
  obtain ⟨hsep, hgroups⟩ := mem_run_separator hd
  have hgroup := group_close (m := x) hgroups
  refine ⟨x.taken, ?_, ?_⟩
  · simpa [Found.group, hnone] using hgroup
  · have hlead : core a.taken = [] := core_eq_nil_iff.mpr (separating_of_blank hblank)
    have htrail : core d.taken = [] := core_eq_nil_iff.mpr hsep
    simp [hlead, htrail]

/-- The characters that are gone past, blanks and commas aside. -/
def missed (ps : List Piece) : Str :=
  ps.flatMap fun p =>
    match p with
    | .skipped c => core [c]
    | .found _ => []

/-- Characters that are gone past are missing from the texts. -/
theorem length_core_pieces (ps : List Piece)
    (hfound : ∀ m, .found m ∈ ps → ∃ s, m ∈ ruleSplitter.run s) :
    (core (ps.flatMap Piece.text)).length =
      ((texts ps).flatMap core).length + (missed ps).length := by
  induction ps with
  | nil => rfl
  | cons p ps ih =>
    have hrest := ih fun m hm => hfound m (List.mem_cons_of_mem p hm)
    rw [List.flatMap_cons, core_append, List.length_append, hrest]
    cases p with
    | skipped c =>
      have htexts : texts (.skipped c :: ps) = texts ps := rfl
      have hmissed : missed (.skipped c :: ps) = core [c] ++ missed ps := rfl
      rw [htexts, hmissed, List.length_append, Piece.text]
      omega
    | found m =>
      obtain ⟨s, hs⟩ := hfound m List.mem_cons_self
      obtain ⟨text, hgroup, hcore⟩ := core_taken hs
      have hmissed : missed (.found m :: ps) = missed ps := rfl
      rw [texts_found _ hgroup, hmissed, Piece.text, hcore, List.flatMap_cons, List.length_append]
      omega

theorem found_of_mem_pieces {m : Found} (h : .found m ∈ pieces before s) :
    ∃ t, m ∈ ruleSplitter.run t := by
  obtain ⟨before', t, hm⟩ := Pattern.mem_hits_of_mem_scan h
  exact ⟨t, Pattern.mem_attempts_of_mem_hits hm⟩

/-- Where an item breaks off, a character is missed. -/
theorem missed_of_not_readsThrough (before : Str) (hs : Trimmed s) (h : ¬ ReadsThrough s) :
    missed (pieces before s) ≠ [] := by
  induction hn : s.length using Nat.strongRecOn generalizing s before with
  | ind n ih =>
    subst hn
    cases s with
    | nil => exact absurd .done h
    | cons c s =>
      cases hnext : nextItem (c :: s) with
      | none =>
        have hcomma : c ≠ ',' := by
          rintro rfl
          rw [nextItem, endItem_of_separator (separator_comma s), Option.or_some,
            Option.or_some] at hnext
          cases hnext
        have hcore : core [c] = [c] := by
          simp [core, trimmed_cons.mp hs, hcomma]
        have hmissed : missed (.skipped c :: pieces (before ++ [c]) s) =
            core [c] ++ missed (pieces (before ++ [c]) s) := rfl
        rw [scan_broken hs hnext, hmissed, hcore]
        simp
      | some e =>
        obtain ⟨text, rest⟩ := e
        obtain ⟨m, gap, hpieces, -, -, -, -, hlt, htrim⟩ :=
          scan_item before hs (List.cons_ne_nil c s) hnext
        have hrest : ¬ ReadsThrough rest := fun hrest => h (.item hnext hrest)
        rw [hpieces]
        exact ih rest.length hlt _ htrim hrest rfl

theorem Unbroken.readsThrough (before : Str) (hs : Trimmed s) (h : Unbroken s) :
    ReadsThrough s := by
  induction hn : s.length using Nat.strongRecOn generalizing s before with
  | ind n ih =>
    subst hn
    by_cases hne : s = []
    case pos =>
      subst hne
      exact .done
    case neg =>
      cases hnext : nextItem s with
      | none => exact absurd (nextItem_eq_none_iff.mp hnext) (h s .first)
      | some e =>
        obtain ⟨text, rest⟩ := e
        obtain ⟨m, gap, -, -, -, -, -, hlt, htrim⟩ := scan_item before hs hne hnext
        exact .item hnext (ih rest.length hlt [] htrim (fun t ht => h t (ht.behind hnext)) rfl)

/-- White space around a text is all that `strip` takes away. -/
theorem exists_strip (s : Str) : ∃ lead trail, s = lead ++ (strip s ++ trail) ∧
    Separating lead ∧ Separating trail := by
  refine ⟨s.takeWhile isSpace, (s.dropWhile isSpace).rtakeWhile isSpace, ?_, ?_, ?_⟩
  · rw [strip_eq, List.rdropWhile_append_rtakeWhile, List.takeWhile_append_dropWhile]
  · exact separating_of_blank fun c hc => List.mem_takeWhile_imp hc
  · exact separating_of_blank fun c hc => List.mem_rtakeWhile_imp hc

/-- The text is made up of the texts that `split_rules` returns and of blanks and commas
exactly when no item of it breaks off at a line feed. -/
theorem split_rules_covers_iff (s : Str) :
    Interleaved (splitRules (some s)) s ↔ Unbroken (strip s) := by
  obtain ⟨lead, trail, hs, hlead, htrail⟩ := exists_strip s
  rw [splitRules_eq]
  constructor
  · intro h
    by_contra hbroken
    have hread : ¬ ReadsThrough (strip s) := fun hread => hbroken hread.unbroken
    have hcore : core s = core (strip s) := by
      conv_lhs => rw [hs]
      simp [core_eq_nil_iff.mpr hlead, core_eq_nil_iff.mpr htrail]
    have htext : (pieces [] (strip s)).flatMap Piece.text = strip s := by
      have hscan := Pattern.scan_text (ruleSplitter.pattern 9) [] (Nat.zero_le (strip s).length)
      rwa [List.drop_zero] at hscan
    have hlen := length_core_pieces (pieces [] (strip s)) fun m hm => found_of_mem_pieces hm
    rw [htext, ← hcore, core_of_interleaved h] at hlen
    have hmissed := List.length_pos_iff.mpr (missed_of_not_readsThrough [] (trimmed_strip s) hread)
    omega
  · intro h
    have hread := h.readsThrough [] (trimmed_strip s)
    have hstrip := interleaved_of_readsThrough [] (trimmed_strip s) hread
    have hwhole := (hstrip.append htrail).prepend hlead
    rwa [← hs] at hwhole

/-- The line `foo` in front of the rule is accepted and has no part in the result. -/
theorem split_rules_skips_line :
    parseRules compileLiteral (splitRules (some ['f', 'o', 'o', '\n', 'D', 'E', 'F', 'A', 'U', 'L', 'T'])) =
        .ok [defaultRule] ∧
      ¬ Interleaved (splitRules (some ['f', 'o', 'o', '\n', 'D', 'E', 'F', 'A', 'U', 'L', 'T']))
        ['f', 'o', 'o', '\n', 'D', 'E', 'F', 'A', 'U', 'L', 'T'] := by
  have hsplit : splitRules (some ['f', 'o', 'o', '\n', 'D', 'E', 'F', 'A', 'U', 'L', 'T']) =
      [defaultText, []] := by decide +kernel
  rw [hsplit]
  refine ⟨?_, fun h => absurd (core_of_interleaved h) (by decide)⟩
  obtain ⟨rule, hrule, rfl⟩ := parseRule_written compileLiteral .default
    (by rintro w h; cases h)
  have htext : RuleSpec.text .default = defaultText := rfl
  rw [htext] at hrule
  rw [parseRules_cons, hrule, parseRules_cons, parseRule_nil]
  rfl

end SslPrincipalMapper

end KafkaCharm
