import KafkaCharm.Lib.Regex

namespace KafkaCharm

open PyText PyRe

/-- `Rule`. A pattern is kept as its text and what `re.compile` makes of it. -/
structure PrincipalRule where
  isDefault : Bool
  pattern : Option (Str × Pattern)
  replacement : Option Str
  toLowerCase : Bool
  toUpperCase : Bool

namespace SslPrincipalMapper

/-- `DEFAULT`. -/
def defaultText : Str := ['D', 'E', 'F', 'A', 'U', 'L', 'T']

/-- `RULE:`. -/
def ruleMark : Str := ['R', 'U', 'L', 'E', ':']

/-- `\\.|[^\\/]`. -/
def unitRe : Re :=
  .alt (.cat (.one (· == '\\')) .dot) (.one fun c => c != '\\' && c != '/')

/-- `([LU]?)`, with the number of its group. -/
def flagRe (n : Nat) : Re := .group n (.alt (.one fun c => c == 'L' || c == 'U') .empty)

/-- `(\\.|[^\\/])*` with the numbers of the group around it and of the group in it. -/
def bodyRe (outer inner : Nat) : Re :=
  .group outer (.many true (.group inner unitRe))

/-- `RULE:((\\.|[^\\/])*)/((\\.|[^\\/])*)/([LU]?).*?`, its groups numbered from `k + 2`. -/
def ruleRe (k : Nat) : Re :=
  .cat (.text ruleMark) (.cat (bodyRe (k + 2) (k + 3)) (.cat (.one (· == '/'))
    (.cat (bodyRe (k + 4) (k + 5)) (.cat (.one (· == '/'))
      (.cat (flagRe (k + 6)) (.many false .dot))))))

/-- `RULE_PATTERN`, with its groups numbered from `k + 1`. -/
def rulePattern (k : Nat) : Re :=
  .alt (.group (k + 1) (.text defaultText))
    (.alt (ruleRe k) (.group (k + 7) (.many false .dot)))

/-- `(,\s*|$)`. -/
def commaRe : Re := .group 9 (.alt (.cat (.one (· == ',')) (.many true .space)) .atEnd)

/-- The end of `RULE_SPLITTER`: `\s*(,\s*|$)`. -/
def separatorRe : Re := .cat (.many true .space) commaRe

/-- `RULE_SPLITTER`. -/
def ruleSplitter : Re :=
  .cat (.many true .space) (.cat (.group 1 (rulePattern 1)) separatorRe)

/-- `RULE_PARSER`. -/
def ruleParser : Re := rulePattern 0

/-- `SslPrincipalMapper.split_rules`. -/
def splitRules (rules : Option Str) : List Str :=
  let text := strip (rules.getD defaultText)
  ((ruleSplitter.pattern 9).finditer text).filterMap (·.group 1)

/-- `re.compile`. -/
abbrev Compile := Str → Except Exn Pattern

/-- `Rule.__init__`: an empty pattern is not compiled. -/
def newRule (compile : Compile) (pattern replacement : Option Str)
    (toLowerCase toUpperCase : Bool) : Except Exn PrincipalRule := do
  let compiled ← match pattern with
    | none => pure none
    | some [] => pure none
    | some p => do
      let c ← compile p
      pure (some (p, c))
  return ⟨pattern.isNone, compiled, replacement, toLowerCase, toUpperCase⟩

/-- One round of the loop of `parse_rules`. An item that is neither is dropped. -/
def parseRule (compile : Compile) (rule : Str) : Except Exn (Option PrincipalRule) :=
  match (ruleParser.pattern 7).matchStart rule with
  | none => .error .valueError
  | some m =>
    if rule.length ≠ m.taken.length then .error .valueError
    else if (m.group 1).isSome then do
      let r ← newRule compile none none false false
      return some r
    else
      match m.group 2 with
      | some p => do
        let r ← newRule compile (some p) (m.group 4) (m.group 6 = some ['L']) (m.group 6 = some ['U'])
        return some r
      | none => return none

/-- `SslPrincipalMapper.parse_rules`. -/
def parseRules (compile : Compile) (rules : List Str) : Except Exn (List PrincipalRule) := do
  let parsed ← rules.mapM (parseRule compile)
  return parsed.reduceOption

/-! ## The head of a rule -/

/-- The longest text of escaped and plain characters at the start, and what follows it. -/
def takeWord : Str → Str × Str
  | [] => ([], [])
  | [c] => if c = '\\' ∨ c = '/' then ([], [c]) else ([c], [])
  | c :: d :: s =>
    if c = '\\' then
      if d = '\n' then ([], c :: d :: s) else (c :: d :: (takeWord s).1, (takeWord s).2)
    else if c = '/' then ([], c :: d :: s)
    else (c :: (takeWord (d :: s)).1, (takeWord (d :: s)).2)

theorem takeWord_append (s : Str) : (takeWord s).1 ++ (takeWord s).2 = s := by
  fun_induction takeWord s <;> simp_all

variable {s : Str}

/-- The ways to take the word `w` at the start of `s`: the word comes first, and behind a
shorter one there is no `/`. -/
def WordRuns (n : Nat) (w s : Str) : Prop :=
  ∃ caps ms, (Re.many true (.group n unitRe)).run s = ⟨w, caps⟩ :: ms ∧
    (∀ e ∈ caps, e.1 = n) ∧ ∀ m ∈ ms, ∃ c rest, s.drop m.taken.length = c :: rest ∧ c ≠ '/'

theorem WordRuns.stop {n : Nat} (h : unitRe.run s = []) : WordRuns n [] s := by
  refine ⟨[], [], ?_, by simp, by simp⟩
  rw [Re.run_many, if_pos rfl, Re.again, Re.run_group, h]
  rfl

/-- The word goes on behind one more unit. -/
theorem WordRuns.unit {n : Nat} {c : Char} {w : Str} (cs : Str) (hc : c ≠ '/')
    (hunit : unitRe.run (c :: cs ++ s) = [⟨c :: cs, []⟩]) (h : WordRuns n w s) :
    WordRuns n (c :: cs ++ w) (c :: cs ++ s) := by
  obtain ⟨caps, ms, hrun, hcaps, hms⟩ := h
  have hagain : (Re.many true (.group n unitRe)).run (c :: cs ++ s) =
      ((Re.many true (.group n unitRe)).run s).map
        (Found.andThen ⟨c :: cs, [(n, c :: cs)]⟩) ++ [.nothing] := by
    rw [Re.run_many, if_pos rfl, Re.again, Re.run_group, hunit]
    simp [Found.close]
  refine ⟨caps ++ [(n, c :: cs)],
    ms.map (Found.andThen ⟨c :: cs, [(n, c :: cs)]⟩) ++ [.nothing], ?_, ?_, ?_⟩
  · rw [hagain, hrun]
    rfl
  · intro e he
    rcases List.mem_append.mp he with he | he
    · exact hcaps e he
    · rw [List.mem_singleton.mp he]
  · intro m hm
    rcases List.mem_append.mp hm with hm | hm
    · obtain ⟨m, hm', rfl⟩ := List.mem_map.mp hm
      obtain ⟨d, rest, hdrop, hne⟩ := hms m hm'
      refine ⟨d, rest, ?_, hne⟩
      rw [Found.andThen_taken, List.length_append, ← List.drop_drop, List.drop_left, hdrop]
    · obtain rfl := List.mem_singleton.mp hm
      exact ⟨c, cs ++ s, by simp, hc⟩

theorem wordRuns_takeWord (n : Nat) (s : Str) : WordRuns n (takeWord s).1 s := by
  fun_induction takeWord s with
  | case1 => exact .stop rfl
  | case2 c h =>
    apply WordRuns.stop
    rcases h with rfl | rfl <;> rfl
  | case3 c h =>
    rw [not_or] at h
    have hend : WordRuns n [] [] := .stop rfl
    exact hend.unit [] h.2 (by simp [unitRe, Re.run_alt, Re.run_cat, h.1, h.2])
  | case4 s => exact .stop (by simp [unitRe, Re.run_alt, Re.run_cat, Re.dot])
  | case5 d s hd ih =>
    exact ih.unit [d] (by decide)
      (by simp [unitRe, Re.run_alt, Re.run_cat, Re.dot, hd, Found.andThen])
  | case6 d s h => exact .stop (by simp [unitRe, Re.run_alt, Re.run_cat])
  | case7 c d s hslash hc ih =>
    exact ih.unit [] hc (by simp [unitRe, Re.run_alt, Re.run_cat, hslash, hc])

/-- What is behind the `/` that a text starts with. -/
def afterSlash : Str → Option Str
  | [] => none
  | c :: s => if c = '/' then some s else none

theorem afterSlash_eq_some {s t : Str} : afterSlash s = some t ↔ s = '/' :: t := by
  cases s with
  | nil => simp [afterSlash]
  | cons c s => simp [afterSlash]

/-- A word with `/` behind it, in front of an expression. -/
theorem run_body (outer inner : Nat) (t : Re) (s : Str) :
    ∃ caps : List (Nat × Str), (∀ e ∈ caps, e.1 = inner) ∧
      (Re.cat (bodyRe outer inner) (.cat (.one (· == '/')) t)).run s =
        match afterSlash (takeWord s).2 with
        | some rest => (t.run rest).map
            (Found.andThen ⟨(takeWord s).1 ++ ['/'], (outer, (takeWord s).1) :: caps⟩)
        | none => [] := by
  obtain ⟨caps, ms, hrun, hcaps, hms⟩ := wordRuns_takeWord inner s
  refine ⟨caps, hcaps, ?_⟩
  have hlater : ms.flatMap (fun m => ((Re.cat (.one (· == '/')) t).run
      (s.drop m.taken.length)).map (m.close outer).andThen) = [] := by
    rw [List.flatMap_eq_nil_iff]
    intro m hm
    obtain ⟨c, rest, hdrop, hc⟩ := hms m hm
    rw [hdrop, Re.run_cat, Re.run_one_cons]
    simp [hc]
  have hdrop : s.drop (takeWord s).1.length = (takeWord s).2 := by
    have happend := congrArg (List.drop (takeWord s).1.length) (takeWord_append s)
    rw [← happend, List.drop_left]
  rw [bodyRe, Re.run_cat, Re.run_group, hrun, List.map_cons, List.flatMap_cons, List.flatMap_map]
  simp only [Found.close_taken] at hlater ⊢
  rw [hlater, List.append_nil, hdrop]
  cases (takeWord s).2 with
  | nil => simp [afterSlash, Re.run_cat]
  | cons c rest =>
    rw [Re.run_cat, Re.run_one_cons]
    by_cases hc : c = '/'
    · simp [afterSlash, hc, Found.andThen, Found.close, Function.comp_def]
    · simp [afterSlash, hc]

/-- `RULE:pattern/replacement/` at the start of a text, and what follows it. -/
structure RuleHead where
  pattern : Str
  replacement : Str
  tail : Str
  deriving DecidableEq, Repr

def RuleHead.text (h : RuleHead) : Str :=
  ruleMark ++ (h.pattern ++ ['/'] ++ (h.replacement ++ ['/']))

def ruleHead (s : Str) : Option RuleHead :=
  if ruleMark <+: s then
    let body := s.drop ruleMark.length
    (afterSlash (takeWord body).2).bind fun rest =>
      (afterSlash (takeWord rest).2).map fun tail => ⟨(takeWord body).1, (takeWord rest).1, tail⟩
  else none

/-- The case flag at the start of a text. -/
def flagOf : Str → Str
  | [] => []
  | c :: _ => if c == 'L' || c == 'U' then [c] else []

theorem ruleHead_append {h : RuleHead} (hs : ruleHead s = some h) : h.text ++ h.tail = s := by
  unfold ruleHead at hs
  split at hs
  case isFalse => cases hs
  case isTrue hmark =>
    obtain ⟨body, rfl⟩ := hmark
    simp only [List.drop_left] at hs
    obtain ⟨rest, hrest, hs⟩ := Option.bind_eq_some_iff.mp hs
    obtain ⟨tail, htail, rfl⟩ := Option.map_eq_some_iff.mp hs
    have hpattern := takeWord_append body
    have hreplacement := takeWord_append rest
    rw [afterSlash_eq_some.mp hrest] at hpattern
    rw [afterSlash_eq_some.mp htail] at hreplacement
    conv_rhs => rw [← hpattern, ← hreplacement]
    simp [RuleHead.text]

theorem run_flag (n : Nat) (t : Re) (s : Str) : (Re.cat (flagRe n) t).run s =
    (if flagOf s = [] then []
      else (t.run s.tail).map (Found.andThen ⟨flagOf s, [(n, flagOf s)]⟩)) ++
      (t.run s).map (Found.andThen ⟨[], [(n, [])]⟩) := by
  cases s with
  | nil => simp [flagRe, flagOf, Re.run_cat, Re.run_group, Re.run_alt, Found.close]
  | cons c s =>
    by_cases hc : (c == 'L' || c == 'U') = true
    · simp [flagRe, flagOf, Re.run_cat, Re.run_group, Re.run_alt, Found.close, hc]
    · simp [flagRe, flagOf, Re.run_cat, Re.run_group, Re.run_alt, Found.close, hc]

/-- The second alternative of `RULE_PATTERN`: the flag and any text behind the head. -/
theorem run_rule (k : Nat) (s : Str) :
    ∃ caps : List (Nat × Str), (∀ e ∈ caps, k + 2 ≤ e.1 ∧ e.1 ≤ k + 5) ∧
      match ruleHead s with
      | none => (ruleRe k).run s = []
      | some h => Dict.get? caps (k + 2) = some h.pattern ∧
          Dict.get? caps (k + 4) = some h.replacement ∧
          (ruleRe k).run s =
            ((Re.cat (flagRe (k + 6)) (.many false .dot)).run h.tail).map
              (Found.andThen ⟨h.text, caps⟩) := by
  unfold ruleRe ruleHead
  rw [Re.run_cat_text]
  by_cases hmark : ruleMark <+: s
  case neg =>
    rw [if_neg hmark, if_neg hmark]
    exact ⟨[], by simp, rfl⟩
  case pos =>
    rw [if_pos hmark, if_pos hmark]
    obtain ⟨caps, hcaps, hrun⟩ := run_body (k + 2) (k + 3)
      (.cat (bodyRe (k + 4) (k + 5)) (.cat (.one (· == '/'))
        (.cat (flagRe (k + 6)) (.many false .dot)))) (s.drop ruleMark.length)
    rw [hrun]
    cases hrest : afterSlash (takeWord (s.drop ruleMark.length)).2 with
    | none =>
      refine ⟨[], by simp, ?_⟩
      simp [hrest]
    | some rest =>
      obtain ⟨caps', hcaps', hrun'⟩ := run_body (k + 4) (k + 5)
        (.cat (flagRe (k + 6)) (.many false .dot)) rest
      simp only [hrest, hrun', Option.bind_some]
      cases htail : afterSlash (takeWord rest).2 with
      | none => exact ⟨[], by simp, rfl⟩
      | some tail =>
        refine ⟨((k + 4, (takeWord rest).1) :: caps') ++
          ((k + 2, (takeWord (s.drop ruleMark.length)).1) :: caps), ?_, ?_, ?_, ?_⟩
        · intro e he
          rcases List.mem_append.mp he with he | he
          · rcases List.mem_cons.mp he with rfl | he
            · simp
            · have := hcaps' e he
              omega
          · rcases List.mem_cons.mp he with rfl | he
            · simp
            · have := hcaps e he
              omega
        · have hnone : Dict.get? caps' (k + 2) = none := by
            by_contra hsome
            obtain ⟨e, he, hkey⟩ := List.mem_map.mp (Dict.mem_keys_iff.mpr hsome)
            have := hcaps' e he
            omega
          simp [Dict.get?_append, Dict.get?_cons, hnone]
        · simp [Dict.get?_cons]
        · simp [List.map_map, Function.comp_def, Found.andThen, RuleHead.text]

theorem flagOf_isPrefix (s : Str) : flagOf s <+: s := by
  cases s with
  | nil => exact List.nil_prefix
  | cons c s =>
    rw [flagOf]
    by_cases hc : (c == 'L' || c == 'U') = true
    · rw [if_pos hc]
      exact ⟨s, rfl⟩
    · rw [if_neg hc]
      exact List.nil_prefix

/-- The flag is taken where there is one. -/
theorem run_flag_head (n : Nat) (s : Str) :
    ((Re.cat (flagRe n) (.many false .dot)).run s).head? = some ⟨flagOf s, [(n, flagOf s)]⟩ := by
  rw [run_flag]
  by_cases hflag : flagOf s = []
  · simp [hflag, Re.run_many_lazy_head, Found.andThen]
  · simp [hflag, Re.run_many_lazy_head, Found.andThen]

/-! ## Parsing an item -/

/-- The rule that takes every name as it is. -/
def defaultRule : PrincipalRule := ⟨true, none, none, false, false⟩

theorem length_eq_iff_of_isPrefix {w : Str} (h : w <+: s) : s.length = w.length ↔ s = w :=
  ⟨fun hlen => (h.eq_of_length hlen.symm).symm, fun heq => by rw [heq]⟩

/-- What `RULE_PARSER` makes of an item. Text behind the rule is an error. -/
theorem parseRule_eq (compile : Compile) (rule : Str) : parseRule compile rule =
    if defaultText <+: rule then
      if rule = defaultText then .ok (some defaultRule) else .error .valueError
    else
      match ruleHead rule with
      | some h =>
        if h.tail = flagOf h.tail then
          (newRule compile (some h.pattern) (some h.replacement) (flagOf h.tail = ['L'])
            (flagOf h.tail = ['U'])).map some
        else .error .valueError
      | none => if rule = [] then .ok none else .error .valueError := by
  have hrun : (ruleParser.pattern 7).matchStart rule = (ruleParser.run rule).head? := rfl
  unfold parseRule
  rw [hrun, ruleParser, rulePattern, Re.run_alt, Re.run_alt, Re.run_group, Re.run_text]
  by_cases hdefault : defaultText <+: rule
  case pos =>
    have hlen := length_eq_iff_of_isPrefix hdefault
    rw [if_pos hdefault, if_pos hdefault]
    by_cases heq : rule = defaultText
    · simp [heq, Found.close, Found.group, Dict.get?_cons, newRule, defaultRule]
      rfl
    · have hne : rule.length ≠ defaultText.length := fun h => heq (hlen.mp h)
      simp [heq, hne, Found.close]
  case neg =>
    obtain ⟨caps, hcaps, hhead⟩ := run_rule 0 rule
    rw [if_neg hdefault, if_neg hdefault, List.map_nil, List.nil_append]
    cases hrule : ruleHead rule with
    | none =>
      rw [hrule] at hhead
      simp only at hhead
      rw [hhead, List.nil_append, Re.run_group, List.head?_map, Re.run_many_lazy_head]
      by_cases hnil : rule = []
      · simp [hnil, Found.close, Found.group, Dict.get?_cons]
        rfl
      · simp [hnil, Found.close]
    | some h =>
      rw [hrule] at hhead
      obtain ⟨hpattern, hreplacement, hhead⟩ := hhead
      have hnone : Dict.get? caps 1 = none := by
        by_contra hsome
        obtain ⟨e, he, hkey⟩ := List.mem_map.mp (Dict.mem_keys_iff.mpr hsome)
        have := hcaps e he
        omega
      have hlen : rule.length = (h.text ++ flagOf h.tail).length ↔ h.tail = flagOf h.tail := by
        rw [← length_eq_iff_of_isPrefix (flagOf_isPrefix h.tail), ← ruleHead_append hrule]
        simp
      rw [List.head?_append, hhead, List.head?_map, run_flag_head]
      simp only [Nat.zero_add] at hpattern hreplacement ⊢
      simp only [Option.map_some, Option.some_or, Found.andThen_taken, ne_eq, hlen,
        Found.group, Found.andThen_groups, List.singleton_append, Dict.get?_cons]
      by_cases htail : h.tail = flagOf h.tail
      · simp only [eq_true htail, not_true_eq_false, if_false, if_true]
        simp [hnone, hpattern, hreplacement]
        rfl
      · simp only [eq_false htail, not_false_eq_true, if_true, if_false]

/-- An empty pattern is not compiled. -/
theorem newRule_some (compile : Compile) (p : Str) (r : Option Str) (lower upper : Bool) :
    newRule compile (some p) r lower upper =
      if p = [] then .ok ⟨false, none, r, lower, upper⟩
      else (compile p).map fun c => ⟨false, some (p, c), r, lower, upper⟩ := by
  cases p with
  | nil => rfl
  | cons a p =>
    rw [if_neg (List.cons_ne_nil a p)]
    dsimp only [newRule]
    cases compile (a :: p) with
    | error e => rfl
    | ok c => rfl

/-- The item as a rule, where it is a well-formed one. -/
def ruleOf (item : Str) : Option RuleHead :=
  if defaultText <+: item then none else (ruleHead item).filter fun h => h.tail = flagOf h.tail

/-- The rule that is made of a well-formed item, once its pattern is compiled. -/
def RuleHead.rule (h : RuleHead) (compiled : Option Pattern) : PrincipalRule :=
  ⟨false, compiled.map fun c => (h.pattern, c), some h.replacement, flagOf h.tail = ['L'],
    flagOf h.tail = ['U']⟩

/-- What can become of an item: it is refused, dropped or `DEFAULT`, or it is a rule whose
pattern is compiled. -/
theorem parseRule_cases (compile : Compile) (item : Str) :
    (ruleOf item = none ∧ (parseRule compile item = .error .valueError ∨
      parseRule compile item = .ok none ∨ parseRule compile item = .ok (some defaultRule))) ∨
    ∃ h, ruleOf item = some h ∧ parseRule compile item =
      if h.pattern = [] then .ok (some (h.rule none))
      else (compile h.pattern).map fun c => some (h.rule (some c)) := by
  rw [parseRule_eq, ruleOf]
  by_cases hdefault : defaultText <+: item
  case pos =>
    rw [if_pos hdefault, if_pos hdefault]
    refine .inl ⟨rfl, ?_⟩
    by_cases heq : item = defaultText
    · exact .inr (.inr (if_pos heq))
    · exact .inl (if_neg heq)
  case neg =>
    rw [if_neg hdefault, if_neg hdefault]
    cases hhead : ruleHead item with
    | none =>
      refine .inl ⟨rfl, ?_⟩
      by_cases hnil : item = []
      · exact .inr (.inl (if_pos hnil))
      · exact .inl (if_neg hnil)
    | some h =>
      by_cases htail : h.tail = flagOf h.tail
      · refine .inr ⟨h, by simp [eq_true htail], ?_⟩
        simp only [eq_true htail, if_true, newRule_some]
        by_cases hempty : h.pattern = []
        · rw [if_pos hempty, if_pos hempty]
          rfl
        · rw [if_neg hempty, if_neg hempty]
          cases compile h.pattern with
          | error e => rfl
          | ok c => rfl
      · refine .inl ⟨by simp [eq_false htail], .inl ?_⟩
        exact if_neg htail

/-! ## Finding an item -/

/-- What follows the comma, with the blanks around it, at the start of a text. Blanks at
the end of the text do as well. -/
def separator (s : Str) : Option Str :=
  match s.dropWhile isSpace with
  | [] => some []
  | c :: rest => if c = ',' then some (rest.dropWhile isSpace) else none

/-- Blanks and commas. -/
def Separating (s : Str) : Prop := ∀ c ∈ s, isSpace c = true ∨ c = ','

/-- What a list of matches of `\s*(,\s*|$)` says of the text behind the separator. -/
def SeparatorRuns (ms : List Found) (s : Str) : Option Str → Prop
  | none => ms = []
  | some rest => ∃ m, ms.head? = some m ∧ m.taken ++ rest = s ∧ Separating m.taken ∧
      ∀ e ∈ m.groups, e.1 = 9

theorem run_comma (s : Str) : (commaRe.run (',' :: s)).head? =
    some ⟨',' :: s.takeWhile isSpace, [(9, ',' :: s.takeWhile isSpace)]⟩ := by
  rw [commaRe, Re.run_group, Re.run_alt, Re.run_cat, Re.run_one_cons]
  simp [Re.space, Re.run_many_one_head, Found.andThen, Found.close]

theorem run_comma_eq_nil {c : Char} (hcomma : c ≠ ',') (hend : c = '\n' → s ≠ []) :
    commaRe.run (c :: s) = [] := by
  have hat : ¬ (c = '\n' ∧ s = []) := fun h => hend h.1 h.2
  rw [commaRe, Re.run_group, Re.run_alt, Re.run_cat, Re.run_one_cons, Re.run_atEnd_cons, if_neg hat]
  simp [hcomma]

theorem separator_space {c : Char} (h : isSpace c = true) : separator (c :: s) = separator s := by
  simp [separator, h]

theorem separator_comma (s : Str) : separator (',' :: s) = some (s.dropWhile isSpace) := by
  have h : isSpace ',' = false := by decide
  simp [separator, h]

theorem separator_eq_none {c : Char} (hspace : isSpace c = false) (hcomma : c ≠ ',') :
    separator (c :: s) = none := by
  simp [separator, hspace, hcomma]

theorem run_separator (s : Str) : SeparatorRuns (separatorRe.run s) s (separator s) := by
  induction s with
  | nil =>
    rw [separatorRe, Re.space, Re.run_cat_many_one_nil]
    exact ⟨⟨[], [(9, [])]⟩, rfl, rfl, by simp [Separating], by simp⟩
  | cons c s ih =>
    rw [separatorRe, Re.space] at ih ⊢
    rw [Re.run_cat_many_one_cons]
    by_cases hspace : isSpace c = true
    case pos =>
      have hcomma : c ≠ ',' := by
        rintro rfl
        exact absurd hspace (by decide)
      rw [separator_space hspace, if_pos hspace]
      cases hsep : separator s with
      | some rest =>
        rw [hsep] at ih
        obtain ⟨m, hhead, htaken, hgap, hgroups⟩ := ih
        refine ⟨Found.andThen ⟨[c], []⟩ m, ?_, ?_, ?_, ?_⟩
        · simp [hhead]
        · simp [htaken]
        · simpa [Separating, hspace] using hgap
        · simpa using hgroups
      | none =>
        have hne : s ≠ [] := by
          rintro rfl
          cases hsep
        rw [hsep] at ih
        simp only [SeparatorRuns] at ih ⊢
        simp [ih, run_comma_eq_nil hcomma fun _ => hne]
    case neg =>
      rw [if_neg hspace]
      by_cases hcomma : c = ','
      · subst hcomma
        rw [separator_comma]
        refine ⟨_, run_comma s, ?_, ?_, by simp⟩
        · simp
        · intro d hd
          rcases List.mem_cons.mp hd with rfl | hd
          · exact .inr rfl
          · exact .inl (List.mem_takeWhile_imp hd)
      · have hfeed : c ≠ '\n' := by
          rintro rfl
          exact hspace (by decide)
        rw [separator_eq_none (by simpa using hspace) hcomma]
        exact run_comma_eq_nil hcomma fun h => absurd h hfeed

/-- The shortest text on the line after which a separator follows, and what is behind. -/
def endItem : Str → Option (Str × Str)
  | [] => some ([], [])
  | c :: s =>
    ((separator (c :: s)).map fun rest => ([], rest)).or
      (if c = '\n' then none else (endItem s).map fun e => (c :: e.1, e.2))

/-- What a list of matches of an item with its separator says: its text is in the first
group, the separator follows it, and then the rest. -/
def ItemRuns (ms : List Found) (s : Str) : Option (Str × Str) → Prop
  | none => ms = []
  | some (text, rest) => ∃ m gap, ms.head? = some m ∧ m.group 1 = some text ∧
      m.taken = text ++ gap ∧ m.taken ++ rest = s ∧ Separating gap

theorem ItemRuns.append {ms ms' : List Found} {s : Str} {e e' : Option (Str × Str)}
    (h : ItemRuns ms s e) (h' : ItemRuns ms' s e') : ItemRuns (ms ++ ms') s (e.or e') := by
  cases e with
  | none =>
    simp only [ItemRuns] at h
    rwa [h, List.nil_append, Option.none_or]
  | some e =>
    obtain ⟨m, gap, hhead, h⟩ := h
    exact ⟨m, gap, by rw [List.head?_append, hhead]; rfl, h⟩

/-- The matches behind one of the alternatives. -/
def itemsOf (ms : List Found) (s : Str) : List Found :=
  ms.flatMap fun m => (separatorRe.run (s.drop m.taken.length)).map (m.close 1).andThen

theorem group_close {m m' : Found} (h : ∀ e ∈ m'.groups, e.1 = 9) :
    ((m.close 1).andThen m').group 1 = some m.taken := by
  have hnone : Dict.get? m'.groups 1 = none := by
    by_contra hsome
    obtain ⟨e, he, hkey⟩ := List.mem_map.mp (Dict.mem_keys_iff.mpr hsome)
    have := h e he
    omega
  simp [Found.group, Dict.get?_append, Dict.get?_cons, hnone]

/-- An item that is taken in one way. -/
theorem itemRuns_single {m : Found} {s : Str} (h : m.taken <+: s) :
    ItemRuns (itemsOf [m] s) s
      ((separator (s.drop m.taken.length)).map fun rest => (m.taken, rest)) := by
  obtain ⟨s, rfl⟩ := h
  have hsep := run_separator s
  rw [itemsOf, List.flatMap_singleton, List.drop_left]
  cases hrest : separator s with
  | none =>
    rw [hrest] at hsep
    simp only [SeparatorRuns] at hsep
    simp [ItemRuns, hsep]
  | some rest =>
    rw [hrest] at hsep
    obtain ⟨m', hhead, htaken, hgap, hgroups⟩ := hsep
    exact ⟨(m.close 1).andThen m', m'.taken, by simp [hhead], group_close hgroups, rfl,
      by simp [htaken], hgap⟩

/-- An item that goes on with any text of its line, as little as will do. -/
theorem itemRuns_lazy (pre : Str) (f : Found → Found) (hf : ∀ m, (f m).taken = pre ++ m.taken)
    (s : Str) :
    ItemRuns (itemsOf (((Re.many false .dot).run s).map f) (pre ++ s)) (pre ++ s)
      ((endItem s).map fun e => (pre ++ e.1, e.2)) := by
  induction s generalizing pre f with
  | nil =>
    have htaken : (f .nothing).taken = pre := by simp [hf]
    have hsingle := itemRuns_single (m := f .nothing) (s := pre) ⟨[], by simp [htaken]⟩
    rw [Re.dot, Re.run_many_one_nil]
    simpa [separator, endItem, htaken] using hsingle
  | cons c s ih =>
    have htaken : (f .nothing).taken = pre := by simp [hf]
    have hsingle := itemRuns_single (m := f .nothing) (s := pre ++ c :: s)
      ⟨c :: s, by rw [htaken]⟩
    rw [htaken, List.drop_left] at hsingle
    have hmore := ih (pre ++ [c]) (fun m => f (.andThen ⟨[c], []⟩ m))
      (fun m => by simp [hf])
    rw [List.append_assoc, List.singleton_append] at hmore
    have hruns : itemsOf (((Re.many false .dot).run (c :: s)).map f) (pre ++ c :: s) =
        itemsOf [f .nothing] (pre ++ c :: s) ++
          if c = '\n' then [] else
            itemsOf (((Re.many false .dot).run s).map fun m => f (.andThen ⟨[c], []⟩ m))
              (pre ++ c :: s) := by
      rw [Re.dot, Re.run_many_one_cons]
      by_cases hfeed : c = '\n'
      · simp [hfeed, itemsOf]
      · simp [hfeed, itemsOf, List.flatMap_map, Function.comp_def]
    have hitem : (endItem (c :: s)).map (fun e => (pre ++ e.1, e.2)) =
        ((separator (c :: s)).map fun rest => (pre, rest)).or
          (if c = '\n' then none else (endItem s).map fun e => (pre ++ [c] ++ e.1, e.2)) := by
      rw [endItem, Option.map_or]
      by_cases hfeed : c = '\n'
      · simp [hfeed, Function.comp_def]
      · simp [hfeed, Function.comp_def]
    rw [hruns, hitem]
    apply hsingle.append
    by_cases hfeed : c = '\n'
    · rw [if_pos hfeed, if_pos hfeed]
      rfl
    · rw [if_neg hfeed, if_neg hfeed]
      exact hmore

/-- `DEFAULT` with a separator behind it. -/
def defaultItem (s : Str) : Option (Str × Str) :=
  if defaultText <+: s then
    (separator (s.drop defaultText.length)).map fun rest => (defaultText, rest)
  else none

/-- `RULE:pattern/replacement/`, a flag and any text on the line up to a separator. -/
def ruleItem (s : Str) : Option (Str × Str) :=
  (ruleHead s).bind fun h =>
    (endItem (h.tail.drop (flagOf h.tail).length)).map fun e =>
      (h.text ++ flagOf h.tail ++ e.1, e.2)

/-- The item at the start of a text, and what is behind its separator. -/
def nextItem (s : Str) : Option (Str × Str) :=
  (defaultItem s).or ((ruleItem s).or (endItem s))

theorem itemRuns_default (n : Nat) (s : Str) :
    ItemRuns (itemsOf ((Re.group n (.text defaultText)).run s) s) s (defaultItem s) := by
  rw [Re.run_group, Re.run_text, defaultItem]
  by_cases h : defaultText <+: s
  · rw [if_pos h, if_pos h]
    exact itemRuns_single (m := ⟨defaultText, [(n, defaultText)]⟩) h
  · rw [if_neg h, if_neg h]
    rfl

/-- A flag is no separator and no line feed: an item goes on behind it as in front of it. -/
theorem endItem_flag (h : flagOf s ≠ []) :
    endItem s = (endItem s.tail).map fun e => (flagOf s ++ e.1, e.2) := by
  cases s with
  | nil => exact absurd rfl h
  | cons c s =>
    rw [flagOf] at h ⊢
    by_cases hc : (c == 'L' || c == 'U') = true
    case neg => exact absurd (if_neg hc) h
    case pos =>
      rw [if_pos hc]
      have hplain : isSpace c = false ∧ c ≠ ',' ∧ c ≠ '\n' := by
        rcases Bool.or_eq_true _ _ ▸ hc with hc | hc
        · obtain rfl := eq_of_beq hc
          decide
        · obtain rfl := eq_of_beq hc
          decide
      rw [endItem, separator_eq_none hplain.1 hplain.2.1, if_neg hplain.2.2]
      rfl

theorem append_tail_flagOf (h : flagOf s ≠ []) : flagOf s ++ s.tail = s := by
  cases s with
  | nil => exact absurd rfl h
  | cons c s =>
    rw [flagOf] at h ⊢
    by_cases hc : (c == 'L' || c == 'U') = true
    · rw [if_pos hc]
      rfl
    · exact absurd (if_neg hc) h

theorem itemRuns_rule (k : Nat) (s : Str) :
    ItemRuns (itemsOf ((ruleRe k).run s) s) s (ruleItem s) := by
  obtain ⟨caps, _, hrun⟩ := run_rule k s
  unfold ruleItem
  cases hhead : ruleHead s with
  | none =>
    rw [hhead] at hrun
    simp only at hrun
    rw [hrun]
    rfl
  | some h =>
    rw [hhead] at hrun
    obtain ⟨_, _, hrun⟩ := hrun
    obtain rfl := ruleHead_append hhead
    have hplain := itemRuns_lazy h.text
      (fun m => .andThen ⟨h.text, caps⟩ (.andThen ⟨[], [(k + 6, [])]⟩ m))
      (fun m => by simp) h.tail
    have hflagged := itemRuns_lazy (h.text ++ flagOf h.tail)
      (fun m => .andThen ⟨h.text, caps⟩
        (.andThen ⟨flagOf h.tail, [(k + 6, flagOf h.tail)]⟩ m))
      (fun m => by simp) h.tail.tail
    rw [hrun, run_flag, Option.bind_some]
    by_cases hflag : flagOf h.tail = []
    case pos =>
      rw [if_pos hflag, List.nil_append, List.map_map, hflag, List.append_nil]
      exact hplain
    case neg =>
      have htail : flagOf h.tail ++ h.tail.tail = h.tail := append_tail_flagOf hflag
      have hdrop : h.tail.drop (flagOf h.tail).length = h.tail.tail := by
        have happend := congrArg (List.drop (flagOf h.tail).length) htail
        rw [← happend, List.drop_left]
      rw [List.append_assoc, htail] at hflagged
      rw [if_neg hflag, hdrop, List.map_append, List.map_map, List.map_map, itemsOf,
        List.flatMap_append]
      -- where the item breaks off behind the flag, it breaks off in front of it too
      have hboth := hflagged.append hplain
      rw [endItem_flag hflag] at hboth
      cases hend : endItem h.tail.tail with
      | none =>
        rw [hend] at hboth
        exact hboth
      | some e =>
        rw [hend] at hboth
        exact hboth

/-- The item that `RULE_SPLITTER` finds at the start of a text without blanks in front. -/
theorem ruleSplitter_run (hblank : ∀ c ∈ s.head?, isSpace c = false) :
    ItemRuns (ruleSplitter.run s) s (nextItem s) := by
  have hstart : ruleSplitter.run s = itemsOf ((rulePattern 1).run s) s := by
    have hitems : (Re.cat (.group 1 (rulePattern 1)) separatorRe).run s =
        itemsOf ((rulePattern 1).run s) s := by
      rw [Re.run_cat, Re.run_group, List.flatMap_map]
      rfl
    rw [ruleSplitter, Re.space, ← hitems]
    cases s with
    | nil => rw [Re.run_cat_many_one_nil]
    | cons c s =>
      have hc : isSpace c = false := hblank c rfl
      rw [Re.run_cat_many_one_cons, hc]
      rfl
  have hlast := itemRuns_lazy [] (Found.close 8) (fun m => rfl) s
  have hend : (endItem s).map (fun e => ([] ++ e.1, e.2)) = endItem s := by simp
  rw [hend] at hlast
  rw [hstart, rulePattern, Re.run_alt, Re.run_alt, itemsOf, List.flatMap_append,
    List.flatMap_append]
  exact (itemRuns_default 2 s).append ((itemRuns_rule 1 s).append hlast)

end SslPrincipalMapper

end KafkaCharm
