import KafkaCharm.Lib.Fallible
import KafkaCharm.Workload

namespace KafkaCharm

open PyText

/-- The dataclass `Acl`. -/
structure Acl where
  resourceName : Str
  resourceType : Str
  operation : Str
  username : Str
  deriving DecidableEq, Repr

/-! ## The argument lists -/

def topicText : Str := "TOPIC"
def groupText : Str := "GROUP"
def literalText : Str := "LITERAL"
def prefixedText : Str := "PREFIXED"

namespace Flag

def bootstrapServer : Str := "--bootstrap-server="
def commandConfig : Str := "--command-config="
def add : Str := "--add"
def remove : Str := "--remove"
def list : Str := "--list"
def force : Str := "--force"
def allowPrincipal : Str := "--allow-principal="
def operation : Str := "--operation="
def topic : Str := "--topic="
def group : Str := "--group="
def patternType : Str := "--resource-pattern-type="

end Flag

/-- `User:`, the type of every principal the charm names. -/
def userPrincipal (username : Str) : Str := "User:" ++ username

/-- Topic names `add_acl` and `remove_acl` turn into a prefix:
`len(resource_name) > 3 and resource_name.endswith("*")`. -/
def isStarTopic (resourceName : Str) : Bool :=
  3 < resourceName.length && resourceName.getLast? == some '*'

/-- The resource part of both commands. -/
def resourceArgs (resourceType resourceName : Str) : List Str :=
  (if resourceType = topicText then
    if isStarTopic resourceName then
      [Flag.topic ++ resourceName.dropLast, Flag.patternType ++ prefixedText]
    else
      [Flag.topic ++ resourceName, Flag.patternType ++ literalText]
  else []) ++
  (if resourceType = groupText then
    [Flag.group ++ resourceName, Flag.patternType ++ prefixedText]
  else [])

/-- The `command` of `AuthManager.add_acl`. -/
def addAclCommand (site : Site) (a : Acl) : List Str :=
  [Flag.bootstrapServer ++ site.bootstrapServerInternal,
   Flag.commandConfig ++ clientProperties,
   Flag.add,
   Flag.allowPrincipal ++ userPrincipal a.username,
   Flag.operation ++ a.operation] ++ resourceArgs a.resourceType a.resourceName

/-- The `command` of `AuthManager.remove_acl`. -/
def removeAclCommand (site : Site) (a : Acl) : List Str :=
  [Flag.bootstrapServer ++ site.bootstrapServerInternal,
   Flag.commandConfig ++ clientProperties,
   Flag.remove,
   Flag.allowPrincipal ++ userPrincipal a.username,
   Flag.operation ++ a.operation,
   Flag.force] ++ resourceArgs a.resourceType a.resourceName

inductive AclAction where
  | add
  | remove
  deriving DecidableEq, Repr

def aclCommand : AclAction → Site → Acl → List Str
  | .add => addAclCommand
  | .remove => removeAclCommand

/-- The `bin_keyword` of the ACL tool. -/
def aclsKeyword : Str := "acls"

/-- The vector `exec` gets for an ACL command. -/
def aclArgv (action : AclAction) (site : Site) (opts : List Str) (a : Acl) : List Str :=
  (runBinCommand aclsKeyword (aclCommand action site a) opts).argv

/-! ## What the tool reads -/

inductive ResourceType where
  | topic
  | group
  | cluster
  | transactionalId
  | delegationToken
  | user
  deriving DecidableEq, Repr

inductive PatternType where
  | literal
  | prefixed
  deriving DecidableEq, Repr

def PatternType.text : PatternType → Str
  | .literal => literalText
  | .prefixed => prefixedText

def PatternType.ofText (s : Str) : Option PatternType :=
  if s = literalText then some .literal else if s = prefixedText then some .prefixed else none

/-- One ACL binding of the cluster; its host is `*` and its permission `ALLOW`. -/
structure Binding where
  principal : Str
  operation : Str
  resourceType : ResourceType
  name : Str
  patternType : PatternType
  deriving DecidableEq, Repr

/-- The bindings a vector is about: every principal with every operation on
every resource it names. Words that are no option are passed over; without
exactly one known pattern type the tool refuses the command line. -/
def request (argv : List Str) : Option (List Binding) :=
  let principals := optionValues Flag.allowPrincipal argv
  let operations := optionValues Flag.operation argv
  let resources :=
    (optionValues Flag.topic argv).map (ResourceType.topic, ·) ++
    (optionValues Flag.group argv).map (ResourceType.group, ·)
  match optionValues Flag.patternType argv with
  | [p] => (PatternType.ofText p).map fun pattern =>
      principals.flatMap fun principal => operations.flatMap fun operation =>
        resources.map fun r => ⟨principal, operation, r.1, r.2, pattern⟩
  | _ => none

def AclAction.flag : AclAction → Str
  | .add => Flag.add
  | .remove => Flag.remove

/-- The words that name what the tool should do. -/
def actionFlags : List Str := [Flag.add, Flag.remove, Flag.list]

/-- Whether a vector asks for this action and for no other one. -/
def asksFor (action : AclAction) (argv : List Str) : Bool :=
  argv.filter (· ∈ actionFlags) = [action.flag]

/-- The bindings a call of `add_acl` or `remove_acl` is about; `none` when the
tool refuses the command line. -/
def aclRequest (action : AclAction) (site : Site) (opts : List Str) (a : Acl) :
    Option (List Binding) :=
  let argv := aclArgv action site opts a
  if asksFor action argv then request argv else none

/-- What `resourceArgs` encodes: the resource type, name and pattern. -/
def encodeResource (resourceType resourceName : Str) : Option (ResourceType × Str × PatternType) :=
  if resourceType = topicText then
    if isStarTopic resourceName then some (.topic, resourceName.dropLast, .prefixed)
    else some (.topic, resourceName, .literal)
  else if resourceType = groupText then some (.group, resourceName, .prefixed)
  else none

/-- The binding meant by an `Acl`, for the resource types the commands know. -/
def Acl.binding (a : Acl) : Option Binding :=
  (encodeResource a.resourceType a.resourceName).map fun r =>
    ⟨userPrincipal a.username, a.operation, r.1, r.2.1, r.2.2⟩

theorem isStarTopic_iff {name : Str} :
    isStarTopic name = true ↔ ∃ p, name = p ++ ['*'] ∧ 3 ≤ p.length := by
  simp only [isStarTopic, Bool.and_eq_true, decide_eq_true_eq, beq_iff_eq]
  constructor
  · rintro ⟨hl, hlast⟩
    obtain ⟨p, rfl⟩ := List.getLast?_eq_some_iff.mp hlast
    refine ⟨p, rfl, ?_⟩
    simp only [List.length_append, List.length_singleton] at hl
    omega
  · rintro ⟨p, rfl, hl⟩
    simp only [List.length_append, List.length_singleton, List.getLast?_append,
      List.getLast?_singleton, Option.some_or, and_true]
    omega

/-- The option that names a resource of a type the commands know. -/
def resourceFlag : ResourceType → Str
  | .group => Flag.group
  | _ => Flag.topic

theorem resourceArgs_of_encode {t n n' : Str} {rt : ResourceType} {p : PatternType}
    (h : encodeResource t n = some (rt, n', p)) :
    resourceArgs t n = [resourceFlag rt ++ n', Flag.patternType ++ p.text] ∧
      (rt = .topic ∨ rt = .group) := by
  have hne : topicText ≠ groupText := by decide
  unfold encodeResource at h
  by_cases ht : t = topicText
  · subst ht
    by_cases hs : isStarTopic n = true
    · simp only [if_true, hs, Option.some.injEq, Prod.mk.injEq] at h
      obtain ⟨rfl, rfl, rfl⟩ := h
      simp [resourceArgs, hs, hne, resourceFlag, PatternType.text]
    · simp only [if_true, hs, Option.some.injEq, Prod.mk.injEq, Bool.false_eq_true,
        if_false] at h
      obtain ⟨rfl, rfl, rfl⟩ := h
      simp [resourceArgs, hs, hne, resourceFlag, PatternType.text]
  · by_cases hg : t = groupText
    · subst hg
      simp only [hne.symm, if_false, if_true, Option.some.injEq, Prod.mk.injEq] at h
      obtain ⟨rfl, rfl, rfl⟩ := h
      simp [resourceArgs, hne.symm, resourceFlag, PatternType.text]
    · simp [ht, hg] at h

theorem resourceArgs_of_encode_none {t n : Str} (h : encodeResource t n = none) :
    resourceArgs t n = [] := by
  unfold encodeResource at h
  by_cases ht : t = topicText
  · by_cases hs : isStarTopic n = true <;> simp [ht, hs] at h
  · by_cases hg : t = groupText
    · simp [hg, show groupText ≠ topicText by decide] at h
    · simp [resourceArgs, ht, hg]

/-! ## Intact vectors -/

/-- No white space in the strings that reach the command; the resource name
does so for topics and groups only. -/
def Acl.Words (a : Acl) : Prop :=
  SpaceFree a.username ∧ SpaceFree a.operation ∧
    (a.resourceType = topicText ∨ a.resourceType = groupText → SpaceFree a.resourceName)

/-- What the vector needs of each argument to survive. -/
def Word (w : Str) : Prop := w ≠ [] ∧ SpaceFree w

theorem word_append_iff {f v : Str} (hf : f ≠ [] ∧ SpaceFree f) : Word (f ++ v) ↔ SpaceFree v := by
  simp [Word, hf.1, hf.2]

theorem resourceArgs_words_iff (t n : Str) :
    (∀ w ∈ resourceArgs t n, Word w) ↔ (t = topicText ∨ t = groupText → SpaceFree n) := by
  have hpre : Word (Flag.patternType ++ prefixedText) := ⟨by decide, by decide⟩
  have hlit : Word (Flag.patternType ++ literalText) := ⟨by decide, by decide⟩
  have htopic : ∀ v, Word (Flag.topic ++ v) ↔ SpaceFree v :=
    fun v => word_append_iff ⟨by decide, by decide⟩
  have hgroup : ∀ v, Word (Flag.group ++ v) ↔ SpaceFree v :=
    fun v => word_append_iff ⟨by decide, by decide⟩
  have hne : topicText ≠ groupText := by decide
  by_cases ht : t = topicText
  · subst ht
    by_cases hs : isStarTopic n = true
    · obtain ⟨p, rfl, _⟩ := isStarTopic_iff.mp hs
      have hstar : SpaceFree ['*'] := by decide
      simp [resourceArgs, hs, hne, htopic, hpre, hstar]
    · simp [resourceArgs, hs, hne, htopic, hlit]
  · by_cases hg : t = groupText
    · subst hg
      simp [resourceArgs, hne.symm, hgroup, hpre]
    · simp [resourceArgs, ht, hg]

theorem userPrincipal_spaceFree_iff {username : Str} :
    SpaceFree (userPrincipal username) ↔ SpaceFree username := by
  have huser : SpaceFree ("User:" : Str) := by decide
  unfold userPrincipal
  rw [spaceFree_append]
  exact and_iff_right huser

theorem aclCommand_words_iff (action : AclAction) (site : Site) (a : Acl) :
    (∀ w ∈ aclCommand action site a, Word w) ↔ a.Words := by
  have hboot : Word (Flag.bootstrapServer ++ site.bootstrapServerInternal) :=
    (word_append_iff ⟨by decide, by decide⟩).mpr (bootstrapServerInternal_spaceFree site)
  have hconf : Word (Flag.commandConfig ++ clientProperties) := ⟨by decide, by decide⟩
  have huser : Word (Flag.allowPrincipal ++ userPrincipal a.username) ↔ SpaceFree a.username :=
    (word_append_iff ⟨by decide, by decide⟩).trans userPrincipal_spaceFree_iff
  have hop : Word (Flag.operation ++ a.operation) ↔ SpaceFree a.operation :=
    word_append_iff ⟨by decide, by decide⟩
  have hadd : Word Flag.add := ⟨by decide, by decide⟩
  have hremove : Word Flag.remove := ⟨by decide, by decide⟩
  have hforce : Word Flag.force := ⟨by decide, by decide⟩
  cases action with
  | add =>
    simp only [aclCommand, addAclCommand, List.forall_mem_append, resourceArgs_words_iff,
      List.forall_mem_cons, hboot, hconf, hadd, huser, hop, List.not_mem_nil, false_implies,
      implies_true, true_and, and_true, Acl.Words, and_assoc]
  | remove =>
    simp only [aclCommand, removeAclCommand, List.forall_mem_append, resourceArgs_words_iff,
      List.forall_mem_cons, hboot, hconf, hremove, hforce, huser, hop, List.not_mem_nil,
      false_implies, implies_true, true_and, and_true, Acl.Words, and_assoc]

theorem aclArgv_eq_iff (action : AclAction) (site : Site) (opts : List Str) (a : Acl) :
    aclArgv action site opts a = binScript aclsKeyword :: aclCommand action site a ↔ a.Words := by
  have hne : aclCommand action site a ≠ [] := by
    cases action <;> simp [aclCommand, addAclCommand, removeAclCommand]
  rw [aclArgv, argv_eq_iff (by decide) hne, ← aclCommand_words_iff action site a]
  exact Iff.rfl

/-- The options with a value that the commands use. -/
def valueFlags : List Str :=
  [Flag.bootstrapServer, Flag.commandConfig, Flag.allowPrincipal, Flag.operation, Flag.topic,
   Flag.group, Flag.patternType]

/-- No option starts another one, so a word has at most one of them. -/
theorem valueFlags_clash : valueFlags.Pairwise fun f g =>
    f.take g.length ≠ g.take f.length ∧ g.take f.length ≠ f.take g.length := by
  decide +kernel

theorem valueFlag_not_action {f : Str} (hf : f ∈ valueFlags) (v : Str) : f ++ v ∉ actionFlags := by
  have hclash : ∀ g ∈ valueFlags, ∀ w ∈ actionFlags, w.take g.length ≠ g.take w.length := by
    decide
  intro hmem
  exact append_ne_of_clash (hclash f hf _ hmem) v rfl

theorem filter_actionFlags_eq_nil {ws : List Str} (h : ∀ w ∈ ws, w ∉ actionFlags) :
    ws.filter (· ∈ actionFlags) = [] := by
  apply List.filter_eq_nil_iff.mpr
  intro w hw hmem
  exact h w hw (by simpa using hmem)

theorem asksFor_intact (action : AclAction) (site : Site) {a : Acl} {rt : ResourceType} {n : Str}
    {p : PatternType} (henc : encodeResource a.resourceType a.resourceName = some (rt, n, p)) :
    asksFor action (binScript aclsKeyword :: aclCommand action site a) = true := by
  obtain ⟨hargs, hrt⟩ := resourceArgs_of_encode henc
  have hres : resourceFlag rt ∈ valueFlags := by
    rcases hrt with rfl | rfl <;> simp [resourceFlag, valueFlags]
  have hboot := valueFlag_not_action (f := Flag.bootstrapServer) (by simp [valueFlags])
    site.bootstrapServerInternal
  have hconf := valueFlag_not_action (f := Flag.commandConfig) (by simp [valueFlags])
    clientProperties
  have hscript : binScript aclsKeyword ∉ actionFlags := by decide
  have hfront : [binScript aclsKeyword, Flag.bootstrapServer ++ site.bootstrapServerInternal,
      Flag.commandConfig ++ clientProperties].filter (· ∈ actionFlags) = [] := by
    apply filter_actionFlags_eq_nil
    simp only [List.forall_mem_cons]
    exact ⟨hscript, hboot, hconf, by simp⟩
  have huser := valueFlag_not_action (f := Flag.allowPrincipal) (by simp [valueFlags])
    (userPrincipal a.username)
  have hop := valueFlag_not_action (f := Flag.operation) (by simp [valueFlags]) a.operation
  have hpat := valueFlag_not_action (f := Flag.patternType) (by simp [valueFlags]) p.text
  have hforce : Flag.force ∉ actionFlags := by decide
  have hsplit : ∃ rest, binScript aclsKeyword :: aclCommand action site a =
      [binScript aclsKeyword, Flag.bootstrapServer ++ site.bootstrapServerInternal,
        Flag.commandConfig ++ clientProperties] ++ ([action.flag] ++ rest) ∧
      ∀ w ∈ rest, w ∉ actionFlags := by
    cases action with
    | add =>
      refine ⟨[Flag.allowPrincipal ++ userPrincipal a.username, Flag.operation ++ a.operation,
        resourceFlag rt ++ n, Flag.patternType ++ p.text], ?_, ?_⟩
      · simp only [aclCommand, addAclCommand, hargs, List.cons_append, List.nil_append,
          AclAction.flag]
      · simp only [List.forall_mem_cons]
        exact ⟨huser, hop, valueFlag_not_action hres n, hpat, by simp⟩
    | remove =>
      refine ⟨[Flag.allowPrincipal ++ userPrincipal a.username, Flag.operation ++ a.operation,
        Flag.force, resourceFlag rt ++ n, Flag.patternType ++ p.text], ?_, ?_⟩
      · simp only [aclCommand, removeAclCommand, hargs, List.cons_append, List.nil_append,
          AclAction.flag]
      · simp only [List.forall_mem_cons]
        exact ⟨huser, hop, hforce, valueFlag_not_action hres n, hpat, by simp⟩
  obtain ⟨rest, heq, hrest⟩ := hsplit
  have hflag : [action.flag].filter (· ∈ actionFlags) = [action.flag] := by
    cases action <;> decide
  rw [heq, asksFor, List.filter_append, List.filter_append, hfront, hflag,
    filter_actionFlags_eq_nil hrest]
  simp

/-- An intact vector asks for its action, on exactly one binding. -/
theorem request_intact (action : AclAction) (site : Site) {a : Acl} {b : Binding}
    (h : a.binding = some b) :
    asksFor action (binScript aclsKeyword :: aclCommand action site a) = true ∧
      request (binScript aclsKeyword :: aclCommand action site a) = some [b] := by
  simp only [Acl.binding, Option.map_eq_some_iff] at h
  obtain ⟨⟨rt, n, p⟩, henc, rfl⟩ := h
  refine ⟨asksFor_intact action site henc, ?_⟩
  obtain ⟨hargs, hrt⟩ := resourceArgs_of_encode henc
  have hpat : PatternType.ofText p.text = some p := by cases p <;> decide
  have hscript : ∀ f ∈ [Flag.allowPrincipal, Flag.operation, Flag.topic, Flag.group,
      Flag.patternType], (binScript aclsKeyword).dropPrefix? f = none := by decide
  have hbare : ∀ w ∈ [Flag.add, Flag.remove, Flag.force], ∀ f ∈ [Flag.allowPrincipal,
      Flag.operation, Flag.topic, Flag.group, Flag.patternType], w.dropPrefix? f = none := by decide
  have hclash := valueFlags_clash
  simp only [valueFlags, List.pairwise_cons, List.forall_mem_cons, List.not_mem_nil, false_implies,
    implies_true, and_true] at hscript hbare hclash
  rcases hrt with rfl | rfl <;> cases action <;>
    simp only [aclCommand, addAclCommand, removeAclCommand, hargs, resourceFlag,
      request, optionValues, List.cons_append, List.nil_append, List.filterMap_cons,
      List.filterMap_nil, dropPrefix?_clash, dropPrefix?_self, hscript, hbare, hpat, hclash,
      List.map_cons, List.map_nil, List.flatMap_cons, List.flatMap_nil, List.append_nil,
      Option.map_some, ne_eq, not_false_eq_true]

theorem binding_eq_none_iff (a : Acl) :
    a.binding = none ↔ ¬ (a.resourceType = topicText ∨ a.resourceType = groupText) := by
  have hne : groupText ≠ topicText := by decide
  unfold Acl.binding encodeResource
  by_cases ht : a.resourceType = topicText
  · by_cases hs : isStarTopic a.resourceName = true <;> simp [ht, hs]
  · by_cases hg : a.resourceType = groupText <;> simp [ht, hg, hne]

/-- A command without a resource is refused. -/
theorem request_no_resource (action : AclAction) (site : Site) {a : Acl} (h : a.binding = none) :
    request (binScript aclsKeyword :: aclCommand action site a) = none := by
  have henc : encodeResource a.resourceType a.resourceName = none := by
    simpa [Acl.binding] using h
  have hargs := resourceArgs_of_encode_none henc
  have hscript : (binScript aclsKeyword).dropPrefix? Flag.patternType = none := by decide
  have hbare : ∀ w ∈ [Flag.add, Flag.remove, Flag.force],
      w.dropPrefix? Flag.patternType = none := by decide
  have hclash := valueFlags_clash
  simp only [valueFlags, List.pairwise_cons, List.forall_mem_cons, List.not_mem_nil, false_implies,
    implies_true, and_true] at hbare hclash
  have hnone : optionValues Flag.patternType (binScript aclsKeyword :: aclCommand action site a) =
      [] := by
    cases action <;>
      simp only [aclCommand, addAclCommand, removeAclCommand, hargs, optionValues,
        List.append_nil, List.filterMap_cons, List.filterMap_nil, dropPrefix?_clash, hscript,
        hbare, hclash, ne_eq, not_false_eq_true]
  unfold request
  simp only [hnone]

/-- A command made of words is about the binding its `Acl` means, and refused
when there is none. -/
theorem aclRequest_of_words (action : AclAction) (site : Site) (opts : List Str) {a : Acl}
    (hw : a.Words) : aclRequest action site opts a = a.binding.map fun b => [b] := by
  have hargv := (aclArgv_eq_iff action site opts a).mpr hw
  unfold aclRequest
  simp only [hargv]
  cases hb : a.binding with
  | none => simp only [request_no_resource action site hb, ite_self, Option.map_none]
  | some b =>
    obtain ⟨hask, hreq⟩ := request_intact action site hb
    simp only [hask, if_true, hreq, Option.map_some]

/-- The vector of an ACL command is the script and the argument list exactly
when the strings it carries hold no white space; it is then about exactly one
binding, provided the resource type is one the commands know. -/
theorem acl_argv_intact_iff (action : AclAction) (site : Site) (opts : List Str) (a : Acl) :
    (aclArgv action site opts a = binScript aclsKeyword :: aclCommand action site a ↔ a.Words) ∧
    ((aclArgv action site opts a = binScript aclsKeyword :: aclCommand action site a ∧
        ∃ b, a.binding = some b ∧ aclRequest action site opts a = some [b]) ↔
      a.Words ∧ (a.resourceType = topicText ∨ a.resourceType = groupText)) := by
  have hiff := aclArgv_eq_iff action site opts a
  refine ⟨hiff, ?_⟩
  constructor
  · rintro ⟨hargv, b, hb, _⟩
    refine ⟨hiff.mp hargv, ?_⟩
    by_contra hno
    rw [(binding_eq_none_iff a).mpr hno] at hb
    cases hb
  · rintro ⟨hw, ht⟩
    refine ⟨hiff.mpr hw, ?_⟩
    cases hb : a.binding with
    | none => exact absurd ht ((binding_eq_none_iff a).mp hb)
    | some b =>
      refine ⟨b, rfl, ?_⟩
      rw [aclRequest_of_words action site opts hw, hb, Option.map_some]

theorem bootstrapServerInternal_single :
    (Site.mk .kafka (some [0])).bootstrapServerInternal =
      ("kafka-0.kafka-endpoints:19093" : Str) := by
  simp only [Site.bootstrapServerInternal, List.map_cons, List.map_nil, sortStrings,
    List.mergeSort_singleton]
  decide

/-- A topic name with a blank grants a second operation, one nobody asked for. -/
theorem acl_argv_injection :
    let site : Site := ⟨.kafka, some [0]⟩
    let a : Acl := ⟨"orders --operation=ALL", topicText, "READ", "relation-7"⟩
    aclArgv .add site [] a ≠ binScript aclsKeyword :: aclCommand .add site a ∧
      aclRequest .add site [] a = some
        [⟨"User:relation-7", "READ", .topic, "orders", .literal⟩,
         ⟨"User:relation-7", "ALL", .topic, "orders", .literal⟩] := by
  intro site a
  have hboot := bootstrapServerInternal_single
  constructor
  · intro h
    exact absurd ((aclArgv_eq_iff .add site [] a).mp h).2.2 (by decide)
  · simp only [aclRequest, aclArgv, aclCommand, addAclCommand, site, hboot]
    decide

end KafkaCharm
