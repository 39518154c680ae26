import KafkaCharm.PrincipalRuleLists
import KafkaCharm.Lib.Template
import KafkaCharm.Lib.Fallible
import Mathlib.Data.List.Find

/-! Patterns and replacements are the operator's text: `re.compile` reads the one when the rules are
parsed, `re.sub` the other when a name is mapped. -/

namespace KafkaCharm

open PyText PyRe Fallible

/-- How `get_name` ends without a name. -/
inductive NameError where
  | noMatchingRuleError
  | raised (e : Exn)
  deriving DecidableEq, Repr

namespace SslPrincipalMapper

/-- `\d`: a decimal digit of any script. -/
def digitRe : Re := .one fun c => (digitValue c).isSome

/-- `BACK_REFERENCE_PATTERN`: `\$(\d+)`. -/
def backReferencePattern : Re :=
  .cat (.one (· == '$')) (.group 1 (.cat digitRe (.many true digitRe)))

/-- What a back reference is replaced with, for a number of groups. -/
def backReference (groups : Nat) (m : Found) : Except Exn Str :=
  let digits := (m.group 1).getD []
  if maxStrDigits < digits.length then .error .valueError
  else
    match digitsInt digits with
    | none => .error .valueError
    | some n => if 1 ≤ n ∧ n ≤ groups then .ok ('\\' :: decimal n) else .ok ('$' :: decimal n)

/-- `Rule.escape_literal_back_references`. -/
def escapeLiteralBackReferences (unescaped : Str) (groups : Nat) : Except Exn Str :=
  (backReferencePattern.pattern 1).subWith (backReference groups) unescaped

variable (u : Unicode)

/-- The replacement of a rule as a template for its pattern. -/
def template (p : Pattern) (replacement : Str) : Except Exn (List Part) := do
  let escaped ← escapeLiteralBackReferences replacement p.groups
  parseTemplate u p escaped

/-- `Rule.apply`. -/
def applyRule (rule : PrincipalRule) (dn : Str) : Except Exn (Option Str) :=
  if rule.isDefault then .ok (some dn)
  else
    match rule.pattern, rule.replacement with
    | some (_, p), some replacement =>
      if (p.matchStart dn).isSome then do
        let parts ← template u p replacement
        let result := p.sub (expand parts) dn
        return some (if rule.toLowerCase then u.lower result
          else if rule.toUpperCase then u.upper result else result)
      else .ok none
    | _, _ => .ok (some dn)

/-- `SslPrincipalMapper.get_name`. -/
def getName : List PrincipalRule → Str → Except NameError Str
  | [], _ => .error .noMatchingRuleError
  | rule :: rules, dn =>
    match applyRule u rule dn with
    | .error e => .error (.raised e)
    | .ok (some name) => .ok name
    | .ok none => getName rules dn

/-- `CharmConfig.ssl_principal_mapping_rules_validator`. -/
def rulesValidator (compile : Compile) (value : Str) : Except Exn Str := do
  let _ ← parseRules compile (splitRules (some value))
  return value

variable {u} {rule : PrincipalRule} {dn : Str}

/-! ## One rule -/

/-- The rule leaves the name to the next one: its pattern does not match at the start. -/
def PassesOn (rule : PrincipalRule) (dn : Str) : Prop :=
  rule.isDefault = false ∧ ∃ text p r, rule.pattern = some (text, p) ∧
    rule.replacement = some r ∧ p.matchStart dn = none

/-- The rule has a pattern and a replacement to apply. -/
def HasParts (rule : PrincipalRule) (p : Pattern) (r : Str) : Prop :=
  rule.isDefault = false ∧ (∃ text, rule.pattern = some (text, p)) ∧ rule.replacement = some r

/-- A rule with nothing to apply takes every name as it is. -/
theorem applyRule_of_not_hasParts (h : ∀ p r, ¬ HasParts rule p r) :
    applyRule u rule dn = .ok (some dn) := by
  unfold applyRule
  cases hdefault : rule.isDefault with
  | true => rfl
  | false =>
    cases hpattern : rule.pattern with
    | none => rfl
    | some entry =>
      cases hreplacement : rule.replacement with
      | none => rfl
      | some r => exact absurd ⟨hdefault, ⟨entry.1, hpattern⟩, hreplacement⟩ (h entry.2 r)

/-- A rule with a pattern and a replacement reads the replacement where the pattern matches. -/
theorem applyRule_of_hasParts {p : Pattern} {r : Str} (h : HasParts rule p r) :
    applyRule u rule dn =
      if (p.matchStart dn).isSome then (template u p r).map fun parts =>
        some (if rule.toLowerCase then u.lower (p.sub (expand parts) dn)
          else if rule.toUpperCase then u.upper (p.sub (expand parts) dn)
          else p.sub (expand parts) dn)
      else .ok none := by
  obtain ⟨hdefault, ⟨text, hpattern⟩, hreplacement⟩ := h
  unfold applyRule
  simp only [hdefault, hpattern, hreplacement, Bool.false_eq_true, if_false]
  cases template u p r with
  | error e => rfl
  | ok parts => rfl

theorem applyRule_eq_ok_none : applyRule u rule dn = .ok none ↔ PassesOn rule dn := by
  constructor
  · intro h
    by_cases hparts : ∃ p r, HasParts rule p r
    · obtain ⟨p, r, hp⟩ := hparts
      rw [applyRule_of_hasParts hp] at h
      obtain ⟨hdefault, ⟨text, hpattern⟩, hreplacement⟩ := hp
      refine ⟨hdefault, text, p, r, hpattern, hreplacement, ?_⟩
      cases hmatch : p.matchStart dn with
      | none => rfl
      | some m =>
        rw [hmatch] at h
        cases htemplate : template u p r with
        | error e => simp [htemplate, Except.map] at h
        | ok parts => simp [htemplate, Except.map] at h
    · rw [applyRule_of_not_hasParts fun p r hp => hparts ⟨p, r, hp⟩] at h
      cases h
  · rintro ⟨hdefault, text, p, r, hpattern, hreplacement, hmatch⟩
    rw [applyRule_of_hasParts ⟨hdefault, ⟨text, hpattern⟩, hreplacement⟩, hmatch]
    rfl

theorem applyRule_eq_error {e : Exn} : applyRule u rule dn = .error e ↔
    rule.isDefault = false ∧ ∃ text p r, rule.pattern = some (text, p) ∧
      rule.replacement = some r ∧ (p.matchStart dn).isSome = true ∧
      template u p r = .error e := by
  constructor
  · intro h
    by_cases hparts : ∃ p r, HasParts rule p r
    · obtain ⟨p, r, hp⟩ := hparts
      rw [applyRule_of_hasParts hp] at h
      obtain ⟨hdefault, ⟨text, hpattern⟩, hreplacement⟩ := hp
      split at h
      case isTrue hmatch =>
        refine ⟨hdefault, text, p, r, hpattern, hreplacement, hmatch, ?_⟩
        cases htemplate : template u p r with
        | error e' => simpa [htemplate, Except.map] using h
        | ok parts => simp [htemplate, Except.map] at h
      case isFalse => cases h
    · rw [applyRule_of_not_hasParts fun p r hp => hparts ⟨p, r, hp⟩] at h
      cases h
  · rintro ⟨hdefault, text, p, r, hpattern, hreplacement, hmatch, htemplate⟩
    rw [applyRule_of_hasParts ⟨hdefault, ⟨text, hpattern⟩, hreplacement⟩, if_pos hmatch, htemplate]
    rfl

variable {compile : Compile}

theorem except_map_eq_ok {ε α β : Type} {f : α → β} {x : Except ε α} {b : β}
    (h : x.map f = .ok b) : ∃ a, x = .ok a ∧ f a = b := by
  cases x with
  | error e => cases h
  | ok a => exact ⟨a, rfl, Except.ok.inj h⟩

/-- A parsed rule that is not `DEFAULT` stands for the item it was read from. -/
theorem head_of_parsed {item : Str} (h : parseRule compile item = .ok (some rule))
    (hdefault : rule.isDefault = false) : ∃ head compiled, rule = RuleHead.rule head compiled := by
  rcases parseRule_cases compile item with ⟨-, hcases⟩ | ⟨head, -, hcases⟩
  · rw [h] at hcases
    rcases hcases with hcases | hcases | hcases
    · cases hcases
    · cases hcases
    · obtain rfl := Option.some.inj (Except.ok.inj hcases)
      cases hdefault
  · rw [h] at hcases
    split at hcases
    · exact ⟨head, none, Option.some.inj (Except.ok.inj hcases)⟩
    · obtain ⟨c, -, hc⟩ := except_map_eq_ok hcases.symm
      exact ⟨head, some c, (Option.some.inj hc).symm⟩

theorem parseRules_cons_eq_ok {t : Str} {ts : List Str} {rules : List PrincipalRule}
    (h : parseRules compile (t :: ts) = .ok rules) :
    ∃ rule rest, parseRule compile t = .ok rule ∧ parseRules compile ts = .ok rest ∧
      rules = rule.toList ++ rest := by
  rw [parseRules_cons] at h
  cases hrule : parseRule compile t with
  | error e =>
    rw [hrule] at h
    cases h
  | ok rule =>
    rw [hrule] at h
    cases hrest : parseRules compile ts with
    | error e =>
      rw [hrest] at h
      cases h
    | ok rest =>
      rw [hrest] at h
      exact ⟨rule, rest, rfl, rfl, (Except.ok.inj h).symm⟩

theorem exists_item_of_mem {ts : List Str} {rules : List PrincipalRule}
    (h : parseRules compile ts = .ok rules) (hrule : rule ∈ rules) :
    ∃ item ∈ ts, parseRule compile item = .ok (some rule) := by
  induction ts generalizing rules with
  | nil =>
    obtain rfl : [] = rules := Except.ok.inj h
    cases hrule
  | cons t ts ih =>
    obtain ⟨first, rest, hfirst, hrest, rfl⟩ := parseRules_cons_eq_ok h
    rcases List.mem_append.mp hrule with hrule | hrule
    · rw [Option.mem_toList] at hrule
      obtain rfl : first = some rule := hrule
      exact ⟨t, by simp, hfirst⟩
    · obtain ⟨item, hitem, hparsed⟩ := ih hrest hrule
      exact ⟨item, by simp [hitem], hparsed⟩

/-! ## The rule that is chosen -/

/-- The test of the broker's mapper: the expression matches all of the name. The empty
expression, which is not compiled here, matches the empty name and no other. -/
def matchesWhole (rule : PrincipalRule) (dn : Str) : Bool :=
  match rule.pattern with
  | some (_, p) => (p.fullmatch dn).isSome
  | none => dn.isEmpty

/-- The pattern of the rule takes a beginning of the name only. The empty pattern does so with
every name that is not empty. -/
def StopsShort (rule : PrincipalRule) (dn : Str) : Prop :=
  match rule.pattern with
  | some (_, p) => p.StopsShort dn
  | none => dn ≠ []

/-- The rule does not leave the name to the next one: it maps it or raises. -/
def takesName (u : Unicode) (rule : PrincipalRule) (dn : Str) : Bool :=
  match applyRule u rule dn with
  | .ok none => false
  | _ => true

theorem takesName_iff : takesName u rule dn = true ↔ applyRule u rule dn ≠ .ok none := by
  unfold takesName
  split
  · rename_i h
    simp [h]
  · rename_i h
    simpa using h

/-- `get_name` gives what the first rule that takes the name makes of it. -/
theorem getName_eq (rules : List PrincipalRule) (dn : Str) : getName u rules dn =
    match rules.find? (takesName u · dn) with
    | none => .error .noMatchingRuleError
    | some rule =>
      match applyRule u rule dn with
      | .error e => .error (.raised e)
      | .ok name => .ok (name.getD []) := by
  induction rules with
  | nil => rfl
  | cons rule rules ih =>
    rw [getName, List.find?_cons]
    cases happly : applyRule u rule dn with
    | error e => simp [takesName, happly]
    | ok name? =>
      cases name? with
      | some name => simp [takesName, happly]
      | none => simp [takesName, happly, ih]

/-- A rule other than `DEFAULT` takes a name exactly when its pattern matches all of it, as
the rule of the broker does, if and only if the pattern does not stop short in the name. -/
theorem takes_iff_whole_iff {head : RuleHead} {compiled : Option Pattern} :
    (applyRule u (head.rule compiled) dn ≠ .ok none ↔
      matchesWhole (head.rule compiled) dn = true) ↔ ¬ StopsShort (head.rule compiled) dn := by
  rw [Ne, applyRule_eq_ok_none]
  cases compiled with
  | none => simp [PassesOn, RuleHead.rule, matchesWhole, StopsShort]
  | some p =>
    have htakes : (¬ PassesOn (head.rule (some p)) dn) ↔ (p.matchStart dn).isSome = true := by
      simp [PassesOn, RuleHead.rule, Option.isSome_iff_ne_none]
    rw [htakes]
    exact Pattern.matchStart_iff_fullmatch

/-- `str.lower` and the others on lower case ASCII text, in witnesses. -/
def asciiUnicode : Unicode := ⟨lower, id, fun s => s.all fun c => c.isAlphanum || c == '_'⟩

/-- `RULE:CN=a/b/`. -/
def shortRule : WrittenRule where
  pattern := ['C', 'N', '=', 'a']
  replacement := ['b']
  flag := .asIs
  pattern_ne := by simp
  pattern_isWord := isWord_of_plain (by simp)
  replacement_isWord := isWord_of_plain (by simp)

/-- What `RULE:CN=a/b/` is parsed to. -/
def shortParsed : PrincipalRule :=
  ⟨false, some (shortRule.pattern, (Re.text shortRule.pattern).pattern 0),
    some shortRule.replacement, false, false⟩

theorem parse_shortRule :
    parseRules compileLiteral (splitRules (some (RuleSpec.text (.rule shortRule)))) =
      .ok [shortParsed] := by
  have hsplit : splitRules (some (RuleSpec.text (.rule shortRule))) =
      [RuleSpec.text (.rule shortRule), []] := by decide +kernel
  obtain ⟨rule, hrule, c, hc, rfl⟩ := parseRule_written compileLiteral (.rule shortRule)
    (by rintro w h; obtain rfl := RuleSpec.rule.inj h; exact ⟨_, rfl⟩)
  obtain rfl : (Re.text shortRule.pattern).pattern 0 = c := Except.ok.inj hc
  rw [hsplit, parseRules_cons, hrule, parseRules_cons, parseRule_nil]
  rfl

/-- The first item that is not accepted decides what is raised. -/
theorem parseRules_eq_error {ts : List Str} {e : Exn} : parseRules compile ts = .error e ↔
    StopsAt (fun t => ∃ r, parseRule compile t = .ok r) (parseRule compile · = .error e) ts := by
  induction ts with
  | nil =>
    refine ⟨fun h => ?_, fun h => absurd h not_stopsAt_nil⟩
    cases h
  | cons t ts ih =>
    rw [parseRules_cons, stopsAt_cons, ← ih]
    cases hrule : parseRule compile t with
    | error e' => simp [bind, Except.bind]
    | ok rule =>
      cases parseRules compile ts with
      | error e' => simp [bind, Except.bind]
      | ok rules => simp [bind, Except.bind, pure, Except.pure]

/-- An item raises something other than `ValueError` exactly when it is a well-formed rule
whose pattern makes `re.compile` raise it. -/
theorem parseRule_eq_error {item : Str} {e : Exn} (he : e ≠ .valueError) :
    parseRule compile item = .error e ↔
      ∃ h, ruleOf item = some h ∧ h.pattern ≠ [] ∧ compile h.pattern = .error e := by
  rcases parseRule_cases compile item with ⟨hnone, hcases⟩ | ⟨h, hrule, hcases⟩
  · constructor
    · intro herror
      rw [herror] at hcases
      rcases hcases with hcases | hcases | hcases
      · exact absurd (Except.error.inj hcases) he
      · cases hcases
      · cases hcases
    · rintro ⟨h, hrule, -⟩
      rw [hnone] at hrule
      cases hrule
  · rw [hcases]
    by_cases hempty : h.pattern = []
    · rw [if_pos hempty]
      constructor
      · intro herror
        cases herror
      · rintro ⟨h', hrule', hne, -⟩
        rw [hrule] at hrule'
        obtain rfl := Option.some.inj hrule'
        exact absurd hempty hne
    · rw [if_neg hempty]
      have hmap : ((compile h.pattern).map fun c => some (h.rule (some c))) = .error e ↔
          compile h.pattern = .error e := by
        cases compile h.pattern with
        | error e' => exact ⟨fun h => congrArg _ (Except.error.inj h), fun h => congrArg _ (Except.error.inj h)⟩
        | ok c =>
          constructor
          · intro h
            cases h
          · intro h
            cases h
      rw [hmap]
      constructor
      · intro herror
        exact ⟨h, hrule, hempty, herror⟩
      · rintro ⟨h', hrule', -, herror⟩
        rw [hrule] at hrule'
        obtain rfl := Option.some.inj hrule'
        exact herror

/-- `get_name` raises what the first rule that takes the name raises. -/
theorem getName_eq_raised {rules : List PrincipalRule} {e : Exn} :
    getName u rules dn = .error (.raised e) ↔
      StopsAt (PassesOn · dn) (applyRule u · dn = .error e) rules := by
  induction rules with
  | nil =>
    refine ⟨fun h => ?_, fun h => absurd h not_stopsAt_nil⟩
    cases h
  | cons rule rules ih =>
    rw [getName, stopsAt_cons, ← ih, ← applyRule_eq_ok_none]
    cases applyRule u rule dn with
    | error e' => simp
    | ok name? =>
      cases name? with
      | some name => simp
      | none => simp

/-- Rules are safe to apply: the validator refuses them with `ValueError`, or every name is
mapped or has no rule. -/
def SafeToApply (u : Unicode) (compile : Compile) (s : Str) : Prop :=
  rulesValidator compile s = .error .valueError ∨
    rulesValidator compile s = .ok s ∧
      ∀ rules, parseRules compile (splitRules (some s)) = .ok rules → ∀ dn,
        (∃ name, getName u rules dn = .ok name) ∨ getName u rules dn = .error .noMatchingRuleError

/-- `re.compile` takes, or refuses with `ValueError`, the pattern of every item up to the
first one that is not accepted; and the replacement of a rule is a template for its pattern
if some name that the rules before it pass on matches it. -/
structure WellFormedRules (u : Unicode) (compile : Compile) (s : Str) : Prop where
  compiles : ∀ pre item post, splitRules (some s) = pre ++ item :: post →
    (∀ t ∈ pre, ∃ r, parseRule compile t = .ok r) → ∀ h, ruleOf item = some h → h.pattern ≠ [] →
    ∀ e, compile h.pattern = .error e → e = .valueError
  expands : ∀ rules, parseRules compile (splitRules (some s)) = .ok rules →
    ∀ pre rule post, rules = pre ++ rule :: post → rule.isDefault = false →
    ∀ text p r, rule.pattern = some (text, p) → rule.replacement = some r →
    ∀ dn, (∀ x ∈ pre, PassesOn x dn) → (p.matchStart dn).isSome = true →
    ∃ parts, template u p r = .ok parts

theorem rulesValidator_eq_error {s : Str} {e : Exn} : rulesValidator compile s = .error e ↔
    parseRules compile (splitRules (some s)) = .error e := by
  unfold rulesValidator
  cases parseRules compile (splitRules (some s)) with
  | error e' => simp [bind, Except.bind]
  | ok rules => simp [bind, Except.bind, pure, Except.pure]

/-- **Accepted rules are safe** exactly when they are well formed in that sense. -/
theorem accepted_rules_safe_iff (u : Unicode) (compile : Compile) (s : Str) :
    SafeToApply u compile s ↔ WellFormedRules u compile s := by
  constructor
  · intro hsafe
    constructor
    · intro pre item post hsplit hpre h hrule hne e herror
      by_contra he
      have hitem := (parseRule_eq_error he).mpr ⟨h, hrule, hne, herror⟩
      have hparse := parseRules_eq_error.mpr ⟨pre, item, post, hsplit, hpre, hitem⟩
      rcases hsafe with hrefused | ⟨haccepted, -⟩
      · rw [rulesValidator_eq_error, hparse] at hrefused
        exact he (Except.error.inj hrefused)
      · rw [rulesValidator_eq_error.mpr hparse] at haccepted
        cases haccepted
    · intro rules hparse pre rule post hrules hdefault text p r hpattern hreplacement dn hpre hmatch
      cases htemplate : template u p r with
      | ok parts => exact ⟨parts, rfl⟩
      | error e =>
        have happly : applyRule u rule dn = .error e :=
          applyRule_eq_error.mpr ⟨hdefault, text, p, r, hpattern, hreplacement, hmatch, htemplate⟩
        have hraised := getName_eq_raised.mpr ⟨pre, rule, post, hrules, hpre, happly⟩
        rcases hsafe with hrefused | ⟨-, hnames⟩
        · rw [rulesValidator_eq_error, hparse] at hrefused
          cases hrefused
        · rcases hnames rules hparse dn with ⟨name, hname⟩ | hname
          · rw [hraised] at hname
            cases hname
          · rw [hraised] at hname
            cases hname
  · intro hwell
    cases hparse : parseRules compile (splitRules (some s)) with
    | error e =>
      left
      have he : e = .valueError := by
        by_contra he
        obtain ⟨pre, item, post, hsplit, hpre, hitem⟩ := parseRules_eq_error.mp hparse
        obtain ⟨h, hrule, hne, herror⟩ := (parseRule_eq_error he).mp hitem
        exact he (hwell.compiles pre item post hsplit hpre h hrule hne e herror)
      rw [rulesValidator_eq_error, hparse, he]
    | ok rules =>
      right
      refine ⟨by rw [rulesValidator, hparse]; rfl, ?_⟩
      intro rules' hrules' dn
      rw [hparse] at hrules'
      obtain rfl := Except.ok.inj hrules'
      cases hname : getName u rules dn with
      | ok name => exact .inl ⟨name, rfl⟩
      | error e =>
        cases e with
        | noMatchingRuleError => exact .inr rfl
        | raised e =>
          obtain ⟨pre, rule, post, hrules, hpre, happly⟩ := getName_eq_raised.mp hname
          obtain ⟨hdefault, text, p, r, hpattern, hreplacement, hmatch, htemplate⟩ :=
            applyRule_eq_error.mp happly
          obtain ⟨parts, hparts⟩ := hwell.expands rules hparse pre rule post hrules hdefault text p
            r hpattern hreplacement dn hpre hmatch
          rw [hparts] at htemplate
          cases htemplate

/-- `RULE:(/x/` makes the validator itself raise `re.error`. `RULE:a/\q/` it accepts, and
the name `a` then makes `get_name` raise it. -/
theorem accepted_rules_raise_re_error :
    ¬ SafeToApply asciiUnicode compileLiteral ['R', 'U', 'L', 'E', ':', '(', '/', 'x', '/'] ∧
      ¬ SafeToApply asciiUnicode compileLiteral
        ['R', 'U', 'L', 'E', ':', 'a', '/', '\\', 'q', '/'] := by
  constructor
  · have hsplit : splitRules (some ['R', 'U', 'L', 'E', ':', '(', '/', 'x', '/']) =
        [['R', 'U', 'L', 'E', ':', '(', '/', 'x', '/'], []] := by decide +kernel
    have hitem : parseRule compileLiteral ['R', 'U', 'L', 'E', ':', '(', '/', 'x', '/'] =
        .error .reError :=
      (parseRule_eq_error (by simp)).mpr ⟨⟨['('], ['x'], []⟩, by decide +kernel, by simp, rfl⟩
    have hparse := parseRules_eq_error.mpr ⟨[], _, [[]], hsplit, by simp, hitem⟩
    rintro (hrefused | ⟨haccepted, -⟩)
    · rw [rulesValidator_eq_error, hparse] at hrefused
      cases hrefused
    · rw [rulesValidator_eq_error.mpr hparse] at haccepted
      cases haccepted
  · have hsplit : splitRules (some ['R', 'U', 'L', 'E', ':', 'a', '/', '\\', 'q', '/']) =
        [['R', 'U', 'L', 'E', ':', 'a', '/', '\\', 'q', '/'], []] := by decide +kernel
    have hrule : ruleOf ['R', 'U', 'L', 'E', ':', 'a', '/', '\\', 'q', '/'] =
        some ⟨['a'], ['\\', 'q'], []⟩ := by decide +kernel
    have hparse : parseRules compileLiteral
        (splitRules (some ['R', 'U', 'L', 'E', ':', 'a', '/', '\\', 'q', '/'])) =
        .ok [(RuleHead.mk ['a'] ['\\', 'q'] []).rule (some ((Re.text ['a']).pattern 0))] := by
      rcases parseRule_cases compileLiteral
        ['R', 'U', 'L', 'E', ':', 'a', '/', '\\', 'q', '/'] with ⟨hnone, -⟩ | ⟨h, hh, hitem⟩
      · rw [hrule] at hnone
        cases hnone
      · rw [hrule] at hh
        obtain rfl := Option.some.inj hh
        rw [hsplit, parseRules_cons, hitem, parseRules_cons, parseRule_nil]
        rfl
    have hraised : getName asciiUnicode
        [(RuleHead.mk ['a'] ['\\', 'q'] []).rule (some ((Re.text ['a']).pattern 0))] ['a'] =
        .error (.raised .reError) := by decide +kernel
    rintro (hrefused | ⟨-, hnames⟩)
    · rw [rulesValidator_eq_error, hparse] at hrefused
      cases hrefused
    · rcases hnames _ hparse ['a'] with ⟨name, hname⟩ | hname
      · rw [hraised] at hname
        cases hname
      · rw [hraised] at hname
        cases hname

end SslPrincipalMapper

end KafkaCharm
