import KafkaCharm.Acl

/-! What `kafka-acls --list` prints for a cluster, and `AuthManager._parse_acls`, which reads it back
line by line with four regular expressions. The pattern type is printed and never read. -/

namespace KafkaCharm

open PyText

/-! ## `_parse_acls` -/

namespace Key

def resourceType : Str := "resourceType="
def name : Str := "name="
def user : Str := "principal=User:"
def operation : Str := "operation="

end Key

/-- The variables of `_parse_acls` that one line leaves to the next. -/
structure Carry where
  resourceType : Option Str
  name : Option Str
  user : Option Str
  deriving DecidableEq, Repr

def Carry.empty : Carry := ⟨none, none, none⟩

def Carry.read (c : Carry) (line : Str) : Carry where
  resourceType := (capture Key.resourceType line).or c.resourceType
  name := (capture Key.name line).or c.name
  user := (capture Key.user line).or c.user

/-- The `Acl` a line completes: only one that names an operation does. -/
def Carry.acl (c : Carry) (operation : Option Str) : Option Acl :=
  match c.resourceType, c.name, c.user, operation with
  | some resourceType, some name, some user, some operation =>
    some ⟨name, resourceType, operation, user⟩
  | _, _, _, _ => none

def parseLines : Carry → List Str → List Acl
  | _, [] => []
  | c, line :: lines =>
    ((c.read line).acl (capture Key.operation line)).toList ++ parseLines (c.read line) lines

/-- `AuthManager._parse_acls`, as the list of what it adds to its set. -/
def parseAcls (acls : Str) : List Acl := parseLines .empty (splitlines acls)

/-! ## What is printed -/

def clusterText : Str := "CLUSTER"
def transactionalIdText : Str := "TRANSACTIONAL_ID"
def delegationTokenText : Str := "DELEGATION_TOKEN"
def userText : Str := "USER"

def ResourceType.text : ResourceType → Str
  | .topic => topicText
  | .group => groupText
  | .cluster => clusterText
  | .transactionalId => transactionalIdText
  | .delegationToken => delegationTokenText
  | .user => userText

/-- A resource of the listing with the principals and operations printed under it. -/
structure Block where
  resourceType : ResourceType
  name : Str
  patternType : PatternType
  entries : List (Str × Str)
  nonempty : entries ≠ []

def Block.binding (b : Block) (e : Str × Str) : Binding :=
  ⟨e.1, e.2, b.resourceType, b.name, b.patternType⟩

def Block.bindings (b : Block) : List Binding := b.entries.map b.binding

def isBlank (c : Char) : Bool := c == ' ' || c == '\t'

/-- Where the listing has blanks: before and after its lines, and between its blocks. -/
structure Layout where
  margin : Str
  entryMargin : Str
  trail : Str
  gap : List Str
  margin_blank : ∀ c ∈ margin, isBlank c = true
  entryMargin_blank : ∀ c ∈ entryMargin, isBlank c = true
  trail_blank : ∀ c ∈ trail, isBlank c = true
  gap_blank : ∀ l ∈ gap, ∀ c ∈ l, isBlank c = true

def fieldGap : Str := " "
def resourceHead : Str := "Current ACLs for resource `ResourcePattern("
def patternHead : Str := " patternType="
def resourceTail : Str := ")`:"
def entryHead : Str := "("
def principalHead : Str := "principal="
def hostHead : Str := " host=*"
def entryTail : Str := " permissionType=ALLOW)"

def Layout.resourceLine (l : Layout) (resourceType : ResourceType) (name : Str)
    (patternType : PatternType) : Str :=
  l.margin ++ (resourceHead ++ (Key.resourceType ++ (resourceType.text ++ ',' :: (fieldGap ++
    (Key.name ++ (name ++ ',' :: (patternHead ++ (patternType.text ++ (resourceTail ++ l.trail)))))))))

def Layout.entryLine (l : Layout) (principal operation : Str) : Str :=
  l.entryMargin ++ (entryHead ++ (principalHead ++ (principal ++ ',' :: (hostHead ++ ',' ::
    (fieldGap ++ (Key.operation ++ (operation ++ ',' :: (entryTail ++ l.trail))))))))

def Layout.entryLines (l : Layout) (entries : List (Str × Str)) : List Str :=
  entries.map fun e => l.entryLine e.1 e.2

def Layout.blockLines (l : Layout) (b : Block) : List Str :=
  l.resourceLine b.resourceType b.name b.patternType :: l.entryLines b.entries ++ l.gap

/-- The text of the whole listing. -/
def Layout.text (l : Layout) (blocks : List Block) : Str :=
  unlines (l.gap ++ blocks.flatMap l.blockLines)

/-- A printout of the bindings: every one of them, no other. -/
def Prints (blocks : List Block) (acls : List Binding) : Prop :=
  ∀ b, b ∈ blocks.flatMap Block.bindings ↔ b ∈ acls

/-! ## Reading the printed lines -/

def keys : List Str := [Key.resourceType, Key.name, Key.user, Key.operation]

/-- None of the texts the parser searches for stands in the string. -/
def KeyFree (s : Str) : Prop := ∀ key ∈ keys, ¬ key <:+: s

instance (s : Str) : Decidable (KeyFree s) :=
  inferInstanceAs (Decidable (∀ key ∈ keys, ¬ key <:+: s))

theorem key_ne_nil : ∀ key ∈ keys, key ≠ [] := by decide

theorem key_no_comma : ∀ key ∈ keys, ',' ∉ key := by decide

theorem key_clashes_tail : ∀ key ∈ keys, clashes key key.tail = true := by decide

theorem isSpace_of_isBlank {c : Char} (h : isBlank c = true) : isSpace c = true := by
  simp only [isBlank, Bool.or_eq_true, beq_iff_eq] at h
  rcases h with rfl | rfl
  · decide
  · decide

/-- No key starts with white space. -/
theorem capture_skip_spaces {key : Str} (hkey : key ∈ keys) {pre : Str}
    (hpre : ∀ c ∈ pre, isSpace c = true) (rest : Str) :
    capture key (pre ++ rest) = capture key rest := by
  have hhead : ∀ key ∈ keys, isSpace (key.headD ' ') = false := by decide
  obtain ⟨k, ks, rfl⟩ := List.exists_cons_of_ne_nil (key_ne_nil key hkey)
  apply capture_skip_head
  intro hk
  have h1 := hpre k hk
  have h2 := hhead _ hkey
  rw [List.headD_cons, h1] at h2
  cases h2

theorem capture_spaces {key : Str} (hkey : key ∈ keys) {pre : Str}
    (hpre : ∀ c ∈ pre, isSpace c = true) : capture key pre = none := by
  have h := capture_skip_spaces hkey hpre []
  rwa [List.append_nil] at h

theorem KeyFree.capture_skip {key v : Str} (hv : KeyFree v) (hkey : key ∈ keys) (rest : Str) :
    capture key (v ++ ',' :: rest) = capture key (',' :: rest) :=
  capture_skip_value (key_no_comma key hkey) (hv key hkey) rest

theorem ResourceType.text_keyFree (rt : ResourceType) : KeyFree rt.text := by
  cases rt <;> decide

theorem no_comma_of_spaces {s : Str} (h : ∀ c ∈ s, isSpace c = true) : ',' ∉ s := by
  intro hc
  exact absurd (h ',' hc) (by decide)

/-- A comma starts no key. -/
theorem capture_comma {key : Str} (hkey : key ∈ keys) (rest : Str) :
    capture key (',' :: rest) = capture key rest := by
  have hhead : ∀ key ∈ keys, clashes key [','] = true := by decide
  exact capture_skip_literal (hhead key hkey) rest

/-! ### A resource line -/

/-- What a resource line says behind its margin. -/
def resourceFields (resourceType name patternType trail : Str) : Str :=
  resourceHead ++ (Key.resourceType ++ (resourceType ++ ',' :: (fieldGap ++
    (Key.name ++ (name ++ ',' :: (patternHead ++ (patternType ++ (resourceTail ++ trail))))))))

section

variable {margin rt name pt trail : Str}

theorem capture_resourceTail (key : Str) (hpt : ',' ∉ pt) (htrail : ',' ∉ trail) :
    capture key (patternHead ++ (pt ++ (resourceTail ++ trail))) = none := by
  apply capture_of_no_comma
  simp only [List.mem_append, not_or]
  exact ⟨by decide, hpt, by decide, htrail⟩

/-- The fields of a resource line are read past by the keys of the entries. -/
theorem capture_resourceFields_skip {key : Str} (hkey : key ∈ [Key.user, Key.operation])
    (hmargin : ∀ c ∈ margin, isSpace c = true) (hrt : KeyFree rt) (hn : ¬ key <:+: name)
    (hpt : ',' ∉ pt) (htrail : ',' ∉ trail) :
    capture key (margin ++ resourceFields rt name pt trail) = none := by
  have hmem : ∀ key ∈ [Key.user, Key.operation], key ∈ keys := by decide
  have hhead : ∀ key ∈ [Key.user, Key.operation],
      clashes key (resourceHead ++ Key.resourceType) = true := by decide
  have hname : ∀ key ∈ [Key.user, Key.operation], clashes key (fieldGap ++ Key.name) = true := by
    decide
  have hmem := hmem key hkey
  unfold resourceFields
  rw [capture_skip_spaces hmem hmargin, ← List.append_assoc, capture_skip_literal (hhead key hkey),
    hrt.capture_skip hmem, capture_comma hmem, ← List.append_assoc,
    capture_skip_literal (hname key hkey), capture_skip_value (key_no_comma key hmem) hn,
    capture_comma hmem, capture_resourceTail key hpt htrail]

theorem capture_resourceFields_type (hmargin : ∀ c ∈ margin, isSpace c = true) (hne : rt ≠ [])
    (hcomma : ',' ∉ rt) :
    capture Key.resourceType (margin ++ resourceFields rt name pt trail) = some rt := by
  have hmem : Key.resourceType ∈ keys := by decide
  have hhead : clashes Key.resourceType resourceHead = true := by decide
  unfold resourceFields
  rw [capture_skip_spaces hmem hmargin, capture_skip_literal hhead, ← List.append_assoc,
    capture_key hne hcomma]

theorem capture_resourceFields_name (hmargin : ∀ c ∈ margin, isSpace c = true) (hrt : KeyFree rt)
    (hn : field name = none → ¬ Key.name <:+: name) (hpt : ',' ∉ pt) (htrail : ',' ∉ trail) :
    capture Key.name (margin ++ resourceFields rt name pt trail) = field name := by
  have hmem : Key.name ∈ keys := by decide
  have hhead : clashes Key.name (resourceHead ++ Key.resourceType) = true := by decide
  have hgap : clashes Key.name fieldGap = true := by decide
  unfold resourceFields
  rw [capture_skip_spaces hmem hmargin, ← List.append_assoc, capture_skip_literal hhead,
    hrt.capture_skip hmem, capture_comma hmem, capture_skip_literal hgap]
  apply capture_field (key_clashes_tail _ hmem) (key_no_comma _ hmem) (key_ne_nil _ hmem) hn
  rw [capture_comma hmem, capture_resourceTail _ hpt htrail]

/-- A resource line sets the type and, as far as its first comma, the name. -/
theorem read_resourceFields (c : Carry) (hmargin : ∀ c ∈ margin, isSpace c = true) (hne : rt ≠ [])
    (hcomma : ',' ∉ rt) (hrt : KeyFree rt) (hn : field name = none → ¬ Key.name <:+: name)
    (hu : ¬ Key.user <:+: name) (hpt : ',' ∉ pt) (htrail : ',' ∉ trail) :
    c.read (margin ++ resourceFields rt name pt trail) =
      ⟨some rt, (field name).or c.name, c.user⟩ := by
  unfold Carry.read
  rw [capture_resourceFields_type hmargin hne hcomma,
    capture_resourceFields_name hmargin hrt hn hpt htrail,
    capture_resourceFields_skip (by simp) hmargin hrt hu hpt htrail]
  rfl

end

theorem Layout.margin_spaces (l : Layout) : ∀ c ∈ l.margin, isSpace c = true :=
  fun c hc => isSpace_of_isBlank (l.margin_blank c hc)

theorem Layout.entryMargin_spaces (l : Layout) : ∀ c ∈ l.entryMargin, isSpace c = true :=
  fun c hc => isSpace_of_isBlank (l.entryMargin_blank c hc)

theorem Layout.no_comma_trail (l : Layout) : ',' ∉ l.trail :=
  no_comma_of_spaces fun c hc => isSpace_of_isBlank (l.trail_blank c hc)

theorem Layout.gap_spaces (l : Layout) : ∀ line ∈ l.gap, ∀ c ∈ line, isSpace c = true :=
  fun line hline c hc => isSpace_of_isBlank (l.gap_blank line hline c hc)

theorem no_comma_patternType (pt : PatternType) : ',' ∉ pt.text := by
  cases pt <;> decide

/-! ### An entry line -/

/-- What an entry line says behind its margin. -/
def principalFields (principal operation trail : Str) : Str :=
  entryHead ++ (principalHead ++ (principal ++ ',' :: (hostHead ++ ',' :: (fieldGap ++
    (Key.operation ++ (operation ++ ',' :: (entryTail ++ trail)))))))

/-- What the entry line of a user says. -/
def entryFields (user operation trail : Str) : Str :=
  entryHead ++ (Key.user ++ (user ++ ',' :: (hostHead ++ ',' :: (fieldGap ++ (Key.operation ++
    (operation ++ ',' :: (entryTail ++ trail)))))))

theorem principalFields_user (user operation trail : Str) :
    principalFields (userPrincipal user) operation trail = entryFields user operation trail := by
  have hkey : Key.user = principalHead ++ ("User:" : Str) := by decide
  unfold principalFields userPrincipal entryFields
  rw [hkey]
  simp only [List.append_assoc]

theorem not_infix_userPrincipal {key user : Str} (hkey : key ∈ keys) (h : ¬ key <:+: user) :
    ¬ key <:+: userPrincipal user := by
  have hhead : ∀ key ∈ keys, clashes key "User:" = true := by decide
  exact not_infix_append_of_clashes (hhead key hkey) h

section

variable {margin principal user operation trail : Str} (hmargin : ∀ c ∈ margin, isSpace c = true)
  (htrail : ',' ∉ trail)

include htrail in
theorem capture_entryTail (key : Str) : capture key (entryTail ++ trail) = none := by
  apply capture_of_no_comma
  simp only [List.mem_append, not_or]
  exact ⟨by decide, htrail⟩

include htrail in
/-- Behind the principal there is the operation only. -/
theorem capture_operationFields_skip {key : Str} (hkey : key ∈ keys) (hop : key ≠ Key.operation)
    (ho : ¬ key <:+: operation) :
    capture key (',' :: (hostHead ++ ',' :: (fieldGap ++ (Key.operation ++ (operation ++ ',' ::
      (entryTail ++ trail)))))) = none := by
  have hhost : ∀ key ∈ keys, key ≠ Key.operation → clashes key hostHead = true ∧
      clashes key (fieldGap ++ Key.operation) = true := by decide
  obtain ⟨hhost, hgap⟩ := hhost key hkey hop
  rw [capture_comma hkey, capture_skip_literal hhost, capture_comma hkey, ← List.append_assoc,
    capture_skip_literal hgap, capture_skip_value (key_no_comma key hkey) ho, capture_comma hkey,
    capture_entryTail htrail]

include hmargin

/-- The first field of a user is captured, whatever else the line holds. -/
theorem capture_principalFields_user {v : Str} (hu : field user = some v) :
    capture Key.user (margin ++ principalFields (userPrincipal user) operation trail) =
      some v := by
  have hmem : Key.user ∈ keys := by decide
  have hhead : clashes Key.user entryHead = true := by decide
  rw [principalFields_user]
  unfold entryFields
  rw [capture_skip_spaces hmem hmargin, capture_skip_literal hhead,
    capture_of_field (key_ne_nil _ hmem) hu]

include htrail

/-- The fields of an entry line are read past by the keys of the resource. -/
theorem capture_principalFields_skip {key : Str} (hkey : key ∈ [Key.resourceType, Key.name])
    (hp : ¬ key <:+: principal) (ho : ¬ key <:+: operation) :
    capture key (margin ++ principalFields principal operation trail) = none := by
  have hmem : ∀ key ∈ [Key.resourceType, Key.name], key ∈ keys ∧ key ≠ Key.operation := by decide
  have hhead : ∀ key ∈ [Key.resourceType, Key.name],
      clashes key (entryHead ++ principalHead) = true := by decide
  obtain ⟨hmem, hop⟩ := hmem key hkey
  unfold principalFields
  rw [capture_skip_spaces hmem hmargin, ← List.append_assoc, capture_skip_literal (hhead key hkey),
    capture_skip_value (key_no_comma key hmem) hp, capture_operationFields_skip htrail hmem hop ho]

/-- No user is captured of a principal of another kind, or of a user without a first field. -/
theorem capture_principalFields_none
    (hnone : ∀ user, principal = userPrincipal user → field user = none)
    (hp : ¬ Key.user <:+: principal) (ho : ¬ Key.user <:+: operation) :
    capture Key.user (margin ++ principalFields principal operation trail) = none := by
  have hmem : Key.user ∈ keys := by decide
  have hop : Key.user ≠ Key.operation := by decide
  have hhead : clashes Key.user entryHead = true := by decide
  have hkey : Key.user = principalHead ++ ("User:" : Str) := by decide
  have hrest := capture_operationFields_skip htrail hmem hop ho
  by_cases hkind : ∃ user, principal = userPrincipal user
  · obtain ⟨user, rfl⟩ := hkind
    have hu : ¬ Key.user <:+: user := fun h => hp (h.trans (List.suffix_append _ _).isInfix)
    rw [principalFields_user]
    unfold entryFields
    rw [capture_skip_spaces hmem hmargin, capture_skip_literal hhead,
      capture_field (key_clashes_tail _ hmem) (key_no_comma _ hmem) (key_ne_nil _ hmem)
        (fun _ => hu) hrest, hnone user rfl]
  · unfold principalFields
    rw [capture_skip_spaces hmem hmargin, capture_skip_literal hhead]
    refine (capture_skip fun t ht hne hprefix => ?_).trans
      ((capture_skip_value (key_no_comma _ hmem) hp _).trans hrest)
    -- the key would have to start where the principal is announced
    rcases List.suffix_cons_iff.mp (show t <:+ 'p' :: principalHead.tail from ht) with rfl | ht
    · rw [hkey] at hprefix
      have huser := (List.prefix_append_right_inj principalHead).mp hprefix
      obtain ⟨r, hr⟩ := huser
      rcases List.append_eq_append_iff.mp hr with ⟨a, ha, -⟩ | ⟨a, hcut, ha⟩
      · exact hkind ⟨a, ha⟩
      · cases a with
        | nil => exact hkind ⟨[], by simpa [userPrincipal] using hcut.symm⟩
        | cons c cs =>
          have hcomma : ',' ∉ ("User:" : Str) := by decide
          simp only [List.cons_append, List.cons.injEq] at ha
          exact hcomma (by rw [hcut, ← ha.1]; simp)
    · have htail : clashes Key.user principalHead.tail = true := by decide
      exact not_prefix_of_clashes htail ht hne _ hprefix

/-- The operation is captured as far as its first comma. -/
theorem capture_principalFields_operation (hp : ¬ Key.operation <:+: principal)
    (ho : field operation = none → ¬ Key.operation <:+: operation) :
    capture Key.operation (margin ++ principalFields principal operation trail) =
      field operation := by
  have hmem : Key.operation ∈ keys := by decide
  have hhead : clashes Key.operation (entryHead ++ principalHead) = true := by decide
  have hhost : clashes Key.operation hostHead = true := by decide
  have hgap : clashes Key.operation fieldGap = true := by decide
  unfold principalFields
  rw [capture_skip_spaces hmem hmargin, ← List.append_assoc, capture_skip_literal hhead,
    capture_skip_value (key_no_comma _ hmem) hp, capture_comma hmem, capture_skip_literal hhost,
    capture_comma hmem, capture_skip_literal hgap]
  apply capture_field (key_clashes_tail _ hmem) (key_no_comma _ hmem) (key_ne_nil _ hmem) ho
  rw [capture_comma hmem, capture_entryTail htrail]

variable (hu : KeyFree user) (ho : KeyFree operation)
include hu ho

theorem capture_entryFields_user :
    capture Key.user (margin ++ entryFields user operation trail) = field user := by
  have hmem : Key.user ∈ keys := by decide
  rw [← principalFields_user]
  cases hfield : field user with
  | some v => exact capture_principalFields_user hmargin hfield
  | none =>
    apply capture_principalFields_none hmargin htrail _
      (not_infix_userPrincipal hmem (hu _ hmem)) (ho _ hmem)
    intro user' heq
    rw [← List.append_cancel_left heq]
    exact hfield

theorem capture_entryFields_operation :
    capture Key.operation (margin ++ entryFields user operation trail) = field operation := by
  have hmem : Key.operation ∈ keys := by decide
  rw [← principalFields_user]
  exact capture_principalFields_operation hmargin htrail
    (not_infix_userPrincipal hmem (hu _ hmem)) fun _ => ho _ hmem

/-- An entry line sets the user as far as its first comma; type and name stay. -/
theorem read_entryFields (c : Carry) :
    c.read (margin ++ entryFields user operation trail) =
      ⟨c.resourceType, c.name, (field user).or c.user⟩ := by
  have hskip : ∀ key ∈ [Key.resourceType, Key.name],
      capture key (margin ++ entryFields user operation trail) = none := by
    have hmem : ∀ key ∈ [Key.resourceType, Key.name], key ∈ keys := by decide
    intro key hkey
    rw [← principalFields_user]
    exact capture_principalFields_skip hmargin htrail hkey
      (not_infix_userPrincipal (hmem key hkey) (hu _ (hmem key hkey))) (ho _ (hmem key hkey))
  unfold Carry.read
  rw [hskip _ (by simp), hskip _ (by simp), capture_entryFields_user hmargin htrail hu ho]
  rfl

end

theorem read_blank (c : Carry) {line : Str} (h : ∀ d ∈ line, isSpace d = true) :
    c.read line = c := by
  unfold Carry.read
  rw [capture_spaces (by decide) h, capture_spaces (by decide) h, capture_spaces (by decide) h]
  rfl

/-! ## The whole listing -/

def readAll (c : Carry) (lines : List Str) : Carry := lines.foldl Carry.read c

theorem parseLines_append (c : Carry) (xs ys : List Str) :
    parseLines c (xs ++ ys) = parseLines c xs ++ parseLines (readAll c xs) ys := by
  induction xs generalizing c with
  | nil => rfl
  | cons x xs ih =>
    simp only [List.cons_append, parseLines, ih, List.append_assoc]
    rfl

theorem parseLines_blank (c : Carry) {lines : List Str}
    (h : ∀ l ∈ lines, ∀ d ∈ l, isSpace d = true) :
    parseLines c lines = [] ∧ readAll c lines = c := by
  induction lines with
  | nil => exact ⟨rfl, rfl⟩
  | cons l ls ih =>
    obtain ⟨hp, hr⟩ := ih fun x hx => h x (by simp [hx])
    have hl := h l (by simp)
    have hop : capture Key.operation l = none := capture_spaces (by decide) hl
    constructor
    · simp only [parseLines, read_blank c hl, hop, hp, List.append_nil]
      cases c with
      | mk t n u => cases t <;> cases n <;> cases u <;> rfl
    · simp only [readAll, List.foldl_cons, read_blank c hl]
      exact hr

theorem acl_eq_some {c : Carry} {op : Option Str} {a : Acl} (h : c.acl op = some a) :
    c.resourceType = some a.resourceType ∧ c.name = some a.resourceName ∧
      c.user = some a.username ∧ op = some a.operation := by
  obtain ⟨t, n, u⟩ := c
  cases t <;> cases n <;> cases u <;> cases op <;> simp [Carry.acl] at h
  subst h
  exact ⟨rfl, rfl, rfl, rfl⟩

theorem acl_none (c : Carry) : c.acl none = none := by
  obtain ⟨t, n, u⟩ := c
  cases t <;> cases n <;> cases u <;> rfl

/-- A binding whose lines set what they are for and nothing else: the principal and the
operation hold no text of the resource, the name none of an entry, and each is on one line. -/
structure Binding.Shown (b : Binding) : Prop where
  line : BreakFree b.principal ∧ BreakFree b.operation ∧ BreakFree b.name
  principal : ∀ key ∈ [Key.resourceType, Key.name], ¬ key <:+: b.principal
  operation : ∀ key ∈ [Key.resourceType, Key.name], ¬ key <:+: b.operation
  name : ∀ key ∈ [Key.user, Key.operation], ¬ key <:+: b.name
  named : field b.name = none → ¬ Key.name <:+: b.name

instance (b : Binding) : Decidable b.Shown :=
  decidable_of_iff
    ((BreakFree b.principal ∧ BreakFree b.operation ∧ BreakFree b.name) ∧
      (∀ key ∈ [Key.resourceType, Key.name], ¬ key <:+: b.principal) ∧
      (∀ key ∈ [Key.resourceType, Key.name], ¬ key <:+: b.operation) ∧
      (∀ key ∈ [Key.user, Key.operation], ¬ key <:+: b.name) ∧
      (field b.name = none → ¬ Key.name <:+: b.name))
    ⟨fun ⟨h₁, h₂, h₃, h₄, h₅⟩ => ⟨h₁, h₂, h₃, h₄, h₅⟩, fun ⟨h₁, h₂, h₃, h₄, h₅⟩ => ⟨h₁, h₂, h₃, h₄, h₅⟩⟩

namespace Layout

variable (l : Layout) (b : Binding)

/-- The entry line of a binding. -/
def bindingLine : Str := l.entryLine b.principal b.operation

/-- The user and the operation that the parser finds there. -/
def userOf : Option Str := capture Key.user (l.bindingLine b)
def operationOf : Option Str := capture Key.operation (l.bindingLine b)

end Layout

/-- The carry at the first entry of a resource. -/
def Carry.atResource (c : Carry) (b : Binding) : Carry :=
  ⟨some b.resourceType.text, (field b.name).or c.name, c.user⟩

/-- The carry behind an entry. -/
def Carry.entry (l : Layout) (c : Carry) (b : Binding) : Carry :=
  ⟨c.resourceType, c.name, (l.userOf b).or c.user⟩

section

variable (l : Layout) {b : Binding} (h : b.Shown) (c : Carry)
include h

theorem read_resourceLine :
    c.read (l.resourceLine b.resourceType b.name b.patternType) = c.atResource b := by
  have hne : b.resourceType.text ≠ [] := by cases b.resourceType <;> decide
  have hcomma : ',' ∉ b.resourceType.text := by cases b.resourceType <;> decide
  exact read_resourceFields c l.margin_spaces hne hcomma b.resourceType.text_keyFree h.named
    (h.name _ (by simp)) (no_comma_patternType _) l.no_comma_trail

theorem capture_resourceLine_operation :
    capture Key.operation (l.resourceLine b.resourceType b.name b.patternType) = none :=
  capture_resourceFields_skip (by simp) l.margin_spaces b.resourceType.text_keyFree
    (h.name _ (by simp)) (no_comma_patternType _) l.no_comma_trail

theorem read_bindingLine : c.read (l.bindingLine b) = c.entry l b := by
  have hskip : ∀ key ∈ [Key.resourceType, Key.name], capture key (l.bindingLine b) = none :=
    fun key hkey => capture_principalFields_skip l.entryMargin_spaces l.no_comma_trail hkey
      (h.principal key hkey) (h.operation key hkey)
  unfold Carry.read
  rw [hskip _ (by simp), hskip _ (by simp)]
  rfl

end

/-- What the parser makes of a binding: the type of its resource, the name of it or one
carried from before, and the user and the operation of its line. -/
def ParsedFrom (l : Layout) (I : Carry → Prop) (b : Binding) (a : Acl) : Prop :=
  ∃ c, I c ∧ c.resourceType = some b.resourceType.text ∧
    (∀ n, field b.name = some n → c.name = some n) ∧
    (c.entry l b).acl (l.operationOf b) = some a

section

variable (l : Layout) {I : Carry → Prop}

/-- The entries of a block, from a carry that says what its resource is. -/
theorem entries_parsed {blk : Block} {es : List (Str × Str)}
    (hes : ∀ e ∈ es, (blk.binding e).Shown)
    (hentry : ∀ e ∈ es, ∀ c, I c → I (c.entry l (blk.binding e))) {c : Carry} (hc : I c)
    (ht : c.resourceType = some blk.resourceType.text)
    (hn : ∀ n, field blk.name = some n → c.name = some n) :
    I (readAll c (l.entryLines es)) ∧
      ∀ a ∈ parseLines c (l.entryLines es), ∃ e ∈ es, ParsedFrom l I (blk.binding e) a := by
  induction es generalizing c with
  | nil => exact ⟨hc, by simp [Layout.entryLines, parseLines]⟩
  | cons e es ih =>
    have hread := read_bindingLine l (hes e (by simp)) c
    obtain ⟨hlast, hrest⟩ := ih (fun x hx => hes x (by simp [hx]))
      (fun x hx => hentry x (by simp [hx])) (hentry e (by simp) c hc) ht hn
    have hline : l.entryLines (e :: es) = l.bindingLine (blk.binding e) :: l.entryLines es := rfl
    constructor
    · rw [hline, readAll, List.foldl_cons, hread]
      exact hlast
    · intro a ha
      rw [hline, parseLines, hread, List.mem_append, Option.mem_toList] at ha
      rcases ha with ha | ha
      · exact ⟨e, by simp, c, hc, ht, hn, ha⟩
      · obtain ⟨e', he', hfrom⟩ := hrest a ha
        exact ⟨e', by simp [he'], hfrom⟩

/-- A block is parsed entry by entry, from the carry its resource line leaves. -/
theorem parseLines_block (c : Carry) {blk : Block} {b : Binding} (hb : b ∈ blk.bindings)
    (hshown : b.Shown) (rest : List Str) :
    parseLines c (l.blockLines blk ++ rest) =
      parseLines (c.atResource b) (l.entryLines blk.entries) ++
        parseLines (readAll (c.atResource b) (l.entryLines blk.entries)) rest := by
  obtain ⟨e, _, rfl⟩ := List.mem_map.mp hb
  have hread : c.read (l.resourceLine blk.resourceType blk.name blk.patternType) = _ :=
    read_resourceLine l hshown c
  have hop : capture Key.operation (l.resourceLine blk.resourceType blk.name blk.patternType) =
      none := capture_resourceLine_operation l hshown
  obtain ⟨hgap, hgapc⟩ :=
    parseLines_blank (readAll (c.atResource (blk.binding e)) (l.entryLines blk.entries)) l.gap_spaces
  unfold Layout.blockLines
  rw [List.cons_append, List.cons_append, parseLines, hop, acl_none, hread, List.append_assoc,
    parseLines_append]
  change [] ++ (_ ++ parseLines (readAll _ (l.entryLines blk.entries)) _) = _
  rw [parseLines_append, hgap, hgapc]
  rfl

theorem Block.exists_binding (blk : Block) : ∃ b, b ∈ blk.bindings := by
  obtain ⟨e, he⟩ := List.exists_mem_of_ne_nil _ blk.nonempty
  exact ⟨_, List.mem_map_of_mem he⟩

/-- **The rule of the parser.** What holds of the carry before a listing and is kept by its
resources and entries holds wherever an `Acl` is made. -/
theorem blocks_parsed {blocks : List Block} (h : ∀ b ∈ blocks.flatMap Block.bindings, b.Shown)
    (hresource : ∀ b ∈ blocks.flatMap Block.bindings, ∀ c, I c → I (c.atResource b))
    (hentry : ∀ b ∈ blocks.flatMap Block.bindings, ∀ c, I c → I (c.entry l b)) {c : Carry}
    (hc : I c) : ∀ a ∈ parseLines c (blocks.flatMap l.blockLines),
      ∃ b ∈ blocks.flatMap Block.bindings, ParsedFrom l I b a := by
  induction blocks generalizing c with
  | nil => simp [parseLines]
  | cons blk blocks ih =>
    simp only [List.flatMap_cons, List.forall_mem_append] at h hresource hentry
    obtain ⟨b, hb⟩ := blk.exists_binding
    obtain ⟨e, he, rfl⟩ := List.mem_map.mp hb
    have hname : ∀ n, field blk.name = some n →
        (c.atResource (blk.binding e)).name = some n := by
      intro n hfield
      rw [Carry.atResource, Block.binding, hfield, Option.some_or]
    obtain ⟨hlast, hent⟩ := entries_parsed l
      (fun e he => h.1 _ (List.mem_map_of_mem he)) (fun e he => hentry.1 _ (List.mem_map_of_mem he))
      (hresource.1 _ hb c hc) rfl hname
    intro a ha
    rw [List.flatMap_cons, parseLines_block l c hb (h.1 _ hb), List.mem_append] at ha
    rw [List.flatMap_cons]
    rcases ha with ha | ha
    · obtain ⟨e', he', hfrom⟩ := hent a ha
      exact ⟨_, List.mem_append_left _ (List.mem_map_of_mem he'), hfrom⟩
    · obtain ⟨b', hb', hfrom⟩ := ih h.2 hresource.2 hentry.2 hlast a ha
      exact ⟨b', List.mem_append_right _ hb', hfrom⟩

theorem entries_found {blk : Block} {es : List (Str × Str)}
    (hes : ∀ e ∈ es, (blk.binding e).Shown) {c : Carry} {e : Str × Str} (he : e ∈ es)
    {a : Acl} (ht : c.resourceType = some a.resourceType) (hn : c.name = some a.resourceName)
    (hu : l.userOf (blk.binding e) = some a.username)
    (ho : l.operationOf (blk.binding e) = some a.operation) :
    a ∈ parseLines c (l.entryLines es) := by
  induction es generalizing c with
  | nil => cases he
  | cons x es ih =>
    have hline : l.entryLines (x :: es) = l.bindingLine (blk.binding x) :: l.entryLines es := rfl
    rw [hline, parseLines, read_bindingLine l (hes x (by simp)), List.mem_append,
      Option.mem_toList]
    rcases List.mem_cons.mp he with rfl | he
    · left
      have hop : capture Key.operation (l.bindingLine (blk.binding e)) = some a.operation := ho
      rw [Carry.entry, ht, hn, hu, Option.some_or, hop]
      rfl
    · right
      exact ih (fun y hy => hes y (by simp [hy])) he ht hn

/-- A binding with a name, a user and an operation is found, whatever else is printed. -/
theorem blocks_found {blocks : List Block} (h : ∀ b ∈ blocks.flatMap Block.bindings, b.Shown)
    (c : Carry) {b : Binding} (hb : b ∈ blocks.flatMap Block.bindings) {a : Acl}
    (ht : a.resourceType = b.resourceType.text) (hn : field b.name = some a.resourceName)
    (hu : l.userOf b = some a.username) (ho : l.operationOf b = some a.operation) :
    a ∈ parseLines c (blocks.flatMap l.blockLines) := by
  induction blocks generalizing c with
  | nil => cases hb
  | cons blk blocks ih =>
    simp only [List.flatMap_cons, List.forall_mem_append] at h
    obtain ⟨first, hfirst⟩ := blk.exists_binding
    rw [List.flatMap_cons, parseLines_block l c hfirst (h.1 _ hfirst), List.mem_append]
    rcases List.mem_append.mp (List.flatMap_cons ▸ hb) with hin | hin
    · left
      obtain ⟨e, he, rfl⟩ := List.mem_map.mp hin
      obtain ⟨e0, he0, rfl⟩ := List.mem_map.mp hfirst
      have hname : field blk.name = some a.resourceName := hn
      refine entries_found l (fun e he => h.1 _ (List.mem_map_of_mem he)) he ?_ ?_ hu ho
      · rw [ht]
        rfl
      · rw [Carry.atResource, Block.binding, hname, Option.some_or]
    · right
      exact ih h.2 _ hin

end

theorem breakFree_of_blank {s : Str} (h : ∀ c ∈ s, isBlank c = true) : BreakFree s := by
  intro c hc
  have hb := h c hc
  simp only [isBlank, Bool.or_eq_true, beq_iff_eq] at hb
  rcases hb with rfl | rfl <;> decide

theorem breakFree_comma {s : Str} (h : BreakFree s) : BreakFree (',' :: s) :=
  (breakFree_append (s := [','])).mpr ⟨by decide, h⟩

theorem resourceLine_breakFree (l : Layout) (rt : ResourceType) {name : Str}
    (hn : BreakFree name) (pt : PatternType) : BreakFree (l.resourceLine rt name pt) := by
  unfold Layout.resourceLine
  refine breakFree_append.mpr ⟨breakFree_of_blank l.margin_blank, ?_⟩
  refine breakFree_append.mpr ⟨by decide, breakFree_append.mpr ⟨by decide, ?_⟩⟩
  refine breakFree_append.mpr ⟨by cases rt <;> decide, breakFree_comma ?_⟩
  refine breakFree_append.mpr ⟨by decide, breakFree_append.mpr ⟨by decide, ?_⟩⟩
  refine breakFree_append.mpr ⟨hn, breakFree_comma (breakFree_append.mpr ⟨by decide, ?_⟩)⟩
  exact breakFree_append.mpr ⟨by cases pt <;> decide,
    breakFree_append.mpr ⟨by decide, breakFree_of_blank l.trail_blank⟩⟩

theorem entryLine_breakFree (l : Layout) {principal operation : Str} (hp : BreakFree principal)
    (ho : BreakFree operation) : BreakFree (l.entryLine principal operation) := by
  unfold Layout.entryLine
  refine breakFree_append.mpr ⟨breakFree_of_blank l.entryMargin_blank, ?_⟩
  refine breakFree_append.mpr ⟨by decide, breakFree_append.mpr ⟨by decide, ?_⟩⟩
  refine breakFree_append.mpr ⟨hp, breakFree_comma (breakFree_append.mpr ⟨by decide, ?_⟩)⟩
  refine breakFree_comma (breakFree_append.mpr ⟨by decide, breakFree_append.mpr ⟨by decide, ?_⟩⟩)
  exact breakFree_append.mpr ⟨ho,
    breakFree_comma (breakFree_append.mpr ⟨by decide, breakFree_of_blank l.trail_blank⟩)⟩

section

variable (l : Layout) {blocks : List Block} (h : ∀ b ∈ blocks.flatMap Block.bindings, b.Shown)
include h

/-- The parser gets to see the lines that were printed. -/
theorem splitlines_text : splitlines (l.text blocks) = l.gap ++ blocks.flatMap l.blockLines := by
  apply splitlines_unlines
  intro line hline
  rcases List.mem_append.mp hline with hgap | hmem
  · exact breakFree_of_blank (l.gap_blank line hgap)
  · obtain ⟨blk, hblk, hin⟩ := List.mem_flatMap.mp hmem
    have hes : ∀ e ∈ blk.entries, (blk.binding e).Shown := fun e he =>
      h _ (List.mem_flatMap.mpr ⟨blk, hblk, List.mem_map_of_mem he⟩)
    obtain ⟨e, he⟩ := List.exists_mem_of_ne_nil _ blk.nonempty
    simp only [Layout.blockLines, List.mem_append, List.mem_cons] at hin
    rcases hin with (rfl | hentry) | hgap
    · exact resourceLine_breakFree l blk.resourceType (hes e he).line.2.2 blk.patternType
    · obtain ⟨e, he, rfl⟩ := List.mem_map.mp hentry
      exact entryLine_breakFree l (hes e he).line.1 (hes e he).line.2.1
    · exact breakFree_of_blank (l.gap_blank line hgap)

theorem parseAcls_text :
    parseAcls (l.text blocks) = parseLines .empty (blocks.flatMap l.blockLines) := by
  obtain ⟨hp, hr⟩ := parseLines_blank .empty l.gap_spaces
  rw [parseAcls, splitlines_text l h, parseLines_append, hp, hr, List.nil_append]

end

/-! ## Readable listings -/

/-- A printed binding the parser is not misled by: a `User:` principal, and no
key of the parser and no white space in its strings. -/
structure Binding.Readable (b : Binding) (user : Str) : Prop where
  principal : b.principal = userPrincipal user
  user_key : KeyFree user
  operation_key : KeyFree b.operation
  name_key : KeyFree b.name
  user_space : SpaceFree user
  operation_space : SpaceFree b.operation
  name_space : SpaceFree b.name

/-- What one of the parser's groups can hold on a readable listing. -/
def Value (s : Str) : Prop := s ≠ [] ∧ ',' ∉ s ∧ SpaceFree s

instance (s : Str) : Decidable (Value s) :=
  inferInstanceAs (Decidable (s ≠ [] ∧ ',' ∉ s ∧ SpaceFree s))

theorem value_of_field {s v : Str} (h : field s = some v) (hs : SpaceFree s) : Value v := by
  obtain ⟨hne, hc, hin⟩ := field_sound h
  exact ⟨hne, hc, hs.part hin⟩

theorem Value.field_eq {s : Str} (h : Value s) : field s = some s := field_eq_self h.1 h.2.1

/-- The `Acl` that says what a binding says, less its pattern type. -/
def Reads (a : Acl) (b : Binding) : Prop :=
  b.principal = userPrincipal a.username ∧ a.operation = b.operation ∧
    a.resourceType = b.resourceType.text ∧ a.resourceName = b.name

/-- Where a parsed `Acl` comes from: an entry of the same resource type whose
operation, user and name it carries as far as their first comma. A user or a
name that starts with a comma leaves no trace of its own. -/
structure ComesFrom (a : Acl) (b : Binding) : Prop where
  resourceType : a.resourceType = b.resourceType.text
  operation : field b.operation = some a.operation
  name : ∀ n, field b.name = some n → a.resourceName = n
  user : ∀ user v, b.principal = userPrincipal user → field user = some v → a.username = v

theorem userPrincipal_injective {u v : Str} (h : userPrincipal u = userPrincipal v) : u = v :=
  List.append_cancel_left h

structure Carry.Good (c : Carry) : Prop where
  name : ∀ n, c.name = some n → Value n
  user : ∀ u, c.user = some u → Value u

theorem good_or {s v : Str} {o : Option Str} (hs : SpaceFree s) (ho : ∀ n, o = some n → Value n)
    (h : (field s).or o = some v) : Value v := by
  rcases Option.or_eq_some_iff.mp h with h | ⟨_, h⟩
  · exact value_of_field h hs
  · exact ho v h

namespace Binding.Readable

variable {b : Binding} {user : Str} (h : b.Readable user)
include h

theorem shown : b.Shown := by
  have hmem : ∀ key ∈ [Key.resourceType, Key.name], key ∈ keys := by decide
  have hmem' : ∀ key ∈ [Key.user, Key.operation], key ∈ keys := by decide
  have hprincipal : SpaceFree b.principal := by
    rw [h.principal]
    exact userPrincipal_spaceFree_iff.mpr h.user_space
  refine ⟨⟨hprincipal.breakFree, h.operation_space.breakFree, h.name_space.breakFree⟩, ?_,
    fun key hkey => h.operation_key key (hmem key hkey),
    fun key hkey => h.name_key key (hmem' key hkey), fun _ => h.name_key _ (by decide)⟩
  intro key hkey
  rw [h.principal]
  exact not_infix_userPrincipal (hmem key hkey) (h.user_key key (hmem key hkey))

theorem userOf (l : Layout) : l.userOf b = field user := by
  have hline : l.bindingLine b = l.entryMargin ++ entryFields user b.operation l.trail := by
    rw [Layout.bindingLine, h.principal, ← principalFields_user]
    rfl
  rw [Layout.userOf, hline]
  exact capture_entryFields_user l.entryMargin_spaces l.no_comma_trail h.user_key h.operation_key

theorem operationOf (l : Layout) : l.operationOf b = field b.operation := by
  have hkey : Key.operation ∈ keys := by decide
  refine capture_principalFields_operation l.entryMargin_spaces l.no_comma_trail ?_
    fun _ => h.operation_key _ hkey
  rw [h.principal]
  exact not_infix_userPrincipal hkey (h.user_key _ hkey)

end Binding.Readable

section

variable (l : Layout) {blocks : List Block}
  (h : ∀ b ∈ blocks.flatMap Block.bindings, ∃ user, b.Readable user)
include h

theorem readable_shown : ∀ b ∈ blocks.flatMap Block.bindings, b.Shown := by
  intro b hb
  obtain ⟨_, hr⟩ := h b hb
  exact hr.shown

/-- Whatever is parsed from a readable listing comes from a printed entry. -/
theorem parseAcls_sound {a : Acl} (ha : a ∈ parseAcls (l.text blocks)) :
    (Value a.resourceName ∧ Value a.username ∧ Value a.operation) ∧
      ∃ b ∈ blocks.flatMap Block.bindings, ComesFrom a b := by
  rw [parseAcls_text l (readable_shown h)] at ha
  have hresource : ∀ b ∈ blocks.flatMap Block.bindings, ∀ c : Carry, c.Good →
      (c.atResource b).Good := by
    intro b hb c hc
    obtain ⟨_, hr⟩ := h b hb
    exact ⟨fun n hn => good_or hr.name_space hc.name hn, hc.user⟩
  have hentry : ∀ b ∈ blocks.flatMap Block.bindings, ∀ c : Carry, c.Good →
      (c.entry l b).Good := by
    intro b hb c hc
    obtain ⟨_, hr⟩ := h b hb
    refine ⟨hc.name, fun u hu => good_or hr.user_space hc.user ?_⟩
    rw [← hr.userOf l]
    exact hu
  obtain ⟨b, hb, c, hc, ht, hn, hacl⟩ := blocks_parsed l (readable_shown h) hresource hentry
    ⟨by simp [Carry.empty], by simp [Carry.empty]⟩ a ha
  obtain ⟨user, hr⟩ := h b hb
  obtain ⟨h1, h2, h3, h4⟩ := acl_eq_some hacl
  have hgood := hentry b hb c hc
  rw [hr.operationOf] at h4
  refine ⟨⟨hgood.name _ h2, hgood.user _ h3, value_of_field h4 hr.operation_space⟩, b, hb, ?_, h4,
    ?_, ?_⟩
  · exact Option.some.inj (h1.symm.trans ht)
  · intro n hfield
    exact Option.some.inj (h2.symm.trans (hn n hfield))
  · intro user' v hp hv
    obtain rfl := userPrincipal_injective (hr.principal.symm.trans hp)
    rw [Carry.entry, hr.userOf, hv, Option.some_or] at h3
    exact (Option.some.inj h3).symm

/-- An entry without commas is found, whatever else is printed. -/
theorem parseAcls_complete {a : Acl} (hu : Value a.username) (ho : Value a.operation)
    (hn : Value a.resourceName) (ha : ∃ b ∈ blocks.flatMap Block.bindings, Reads a b) :
    a ∈ parseAcls (l.text blocks) := by
  obtain ⟨b, hb, hprincipal, hop, htype, hname⟩ := ha
  obtain ⟨user, hr⟩ := h b hb
  obtain rfl := userPrincipal_injective (hr.principal.symm.trans hprincipal)
  rw [parseAcls_text l (readable_shown h)]
  apply blocks_found l (readable_shown h) .empty hb htype
  · rw [← hname, hn.field_eq]
  · rw [hr.userOf, hu.field_eq]
  · rw [hr.operationOf, ← hop, ho.field_eq]

end

end KafkaCharm
