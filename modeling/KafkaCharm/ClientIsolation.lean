import KafkaCharm.ClientUsers
import KafkaCharm.Credentials
import Mathlib.Data.List.Pairwise

namespace KafkaCharm

open PyText

/-- A digit of a request id. -/
def isLowerHex (c : Char) : Bool := c.isDigit || ('a' ≤ c && c ≤ 'f')

/-- The id of a request, as the library makes it. -/
structure RequestId where
  text : Str
  length_text : text.length = 16
  lowerHex : text.all isLowerHex = true
  deriving DecidableEq

/-- What names a client. -/
structure ClientKey where
  relationId : Nat
  requestId : Option RequestId
  deriving DecidableEq

namespace ClientKey

/-- `KafkaClient.username`. -/
def username (c : ClientKey) : Str :=
  generateUsername c.relationId (c.requestId.map RequestId.text)

/-- The default of `KafkaClient.consumer_group_prefix`, and of the group in
`_generate_consumer_acls`. -/
def groupPrefix (c : ClientKey) : Str := c.username ++ "-"

/-- What a client is granted that asks for no group and no permissions of its own. -/
def defaultAcls (c : ClientKey) (data : List (String × Json.Doc)) (topic extraUserRoles : Str) :
    List Acl :=
  AclNeeds.computedUserAcls
    ⟨topic, extraUserRoles, consumerGroupPrefix data c.username extraUserRoles, []⟩ c.username

end ClientKey

/-- Two clients are on different relations, or both have request ids. -/
def ClientKey.Apart (c c' : ClientKey) : Prop :=
  c.relationId = c'.relationId → c.requestId ≠ none ∧ c'.requestId ≠ none

instance : DecidableRel ClientKey.Apart := fun c c' =>
  inferInstanceAs (Decidable (c.relationId = c'.relationId → _ ∧ _))

instance : Std.Symm ClientKey.Apart := ⟨fun _ _ h heq => (h heq.symm).symm⟩

/-- The clients of all relations. A relation has one client without request id, or only
clients with request ids. -/
structure ClientKeys where
  members : List ClientKey
  apart : members.Pairwise ClientKey.Apart

/-- An ACL binding covers a consumer group. -/
def Binding.CoversGroup (b : Binding) (group : Str) : Prop :=
  b.resourceType = .group ∧
    match b.patternType with
    | .literal => b.name = group ∨ b.name = ['*']
    | .prefixed => b.name <+: group

/-! ## Names -/

/-- Up to a character that ends it, a run of digits is that of the longer text. -/
theorem digits_eq_of_prefix {r r' : Nat} {s s' : Str}
    (h : decimal r ++ '-' :: s <+: decimal r' ++ '-' :: s') : r = r' ∧ s <+: s' := by
  obtain ⟨rest, hrest⟩ := h
  rw [List.append_assoc, List.cons_append] at hrest
  have hdigits : ∀ (n : Nat) (t : Str), (decimal n ++ '-' :: t).takeWhile Char.isDigit = decimal n := by
    intro n t
    rw [List.takeWhile_append_of_pos fun c hc => isDigit_of_mem_decimal hc]
    simp [show Char.isDigit '-' = false by decide]
  have hdecimal : decimal r = decimal r' := by
    rw [← hdigits r (s ++ rest), hrest, hdigits]
  rw [hdecimal] at hrest
  exact ⟨decimal_injective hdecimal,
    ⟨rest, (List.cons.inj (List.append_cancel_left hrest)).2⟩⟩

namespace ClientKey

/-- What follows the id of the relation and a dash in the default prefix. -/
def requestTail (c : ClientKey) : Str :=
  match c.requestId with
  | none => []
  | some q => q.text ++ "-"

theorem usernameTail_requestId (c : ClientKey) :
    usernameTail (c.requestId.map RequestId.text) ++ ['-'] = '-' :: c.requestTail := by
  unfold requestTail usernameTail
  cases c.requestId with
  | none => rfl
  | some q =>
    have hne : q.text ≠ [] := List.ne_nil_of_length_pos (by rw [q.length_text]; decide)
    rw [Option.map_some, Option.getD_some, if_neg hne]
    rfl

theorem groupPrefix_eq (c : ClientKey) :
    c.groupPrefix = ("relation-" : Str) ++ (decimal c.relationId ++ '-' :: c.requestTail) := by
  have hdash : ("-" : Str) = ['-'] := rfl
  rw [groupPrefix, username, generateUsername_eq, hdash, List.append_assoc, List.append_assoc,
    usernameTail_requestId]

/-- Request ids have the same length, so one that starts with the other is the same. -/
theorem requestId_eq_of_prefix {c c' : ClientKey} (hc : c.requestId ≠ none)
    (hc' : c'.requestId ≠ none) (h : c.requestTail <+: c'.requestTail) :
    c.requestId = c'.requestId := by
  obtain ⟨q, hq⟩ := Option.ne_none_iff_exists'.mp hc
  obtain ⟨q', hq'⟩ := Option.ne_none_iff_exists'.mp hc'
  rw [requestTail, requestTail, hq, hq'] at h
  have hlength : (q.text ++ ("-" : Str)).length = (q'.text ++ ("-" : Str)).length := by
    rw [List.length_append, List.length_append, q.length_text, q'.length_text]
  have htext : q.text = q'.text := List.append_cancel_right (h.eq_of_length hlength)
  rw [hq, hq']
  cases q
  cases q'
  simpa using htext

theorem groupPrefix_inj {c c' : ClientKey} (hapart : c.Apart c')
    (h : c.groupPrefix <+: c'.groupPrefix) : c = c' := by
  rw [groupPrefix_eq, groupPrefix_eq, List.prefix_append_right_inj] at h
  obtain ⟨hrelation, htail⟩ := digits_eq_of_prefix h
  obtain ⟨hc, hc'⟩ := hapart hrelation
  have hrequest := requestId_eq_of_prefix hc hc' htail
  cases c
  cases c'
  simp only [mk.injEq]
  exact ⟨hrelation, hrequest⟩

theorem username_notMem_internalUsers (c : ClientKey) : c.username ∉ internalUsers := by
  obtain ⟨tail, htail⟩ := generateUsername_form c.relationId (c.requestId.map RequestId.text)
  have hname : c.username = ("relation-" : Str) ++ tail := htail.symm
  intro hmem
  rw [hname] at hmem
  simp only [internalUsers, List.mem_cons, List.not_mem_nil, or_false] at hmem
  rcases hmem with h | h
  · exact absurd (congrArg (List.take 4) h) (by simp)
  · exact absurd (congrArg (List.take 4) h) (by simp)

end ClientKey

/-! ## Grants -/

theorem binding_topic {a : Acl} (ha : a.resourceType = topicText) {b : Binding}
    (hb : a.binding = some b) : b.resourceType = .topic := by
  unfold Acl.binding encodeResource at hb
  rw [if_pos ha] at hb
  split at hb
  · obtain rfl := Option.some.inj hb
    rfl
  · obtain rfl := Option.some.inj hb
    rfl

theorem binding_group {a : Acl} (ha : a.resourceType = groupText) {b : Binding}
    (hb : a.binding = some b) : b.patternType = .prefixed ∧ b.name = a.resourceName := by
  have hne : groupText ≠ topicText := by decide
  unfold Acl.binding encodeResource at hb
  rw [ha, if_neg hne, if_pos rfl] at hb
  obtain rfl := Option.some.inj hb
  exact ⟨rfl, rfl⟩

/-- With the default prefix, or an empty one, the group is the default prefix. -/
theorem generateConsumerAcls_default (topic username : Str) :
    generateConsumerAcls topic username (some (username ++ "-")) =
      generateConsumerAcls topic username none := by
  obtain ⟨c, cs, hcons⟩ := List.exists_cons_of_ne_nil
    (List.append_ne_nil_of_right_ne_nil username (List.cons_ne_nil '-' []))
  have hdash : (username ++ "-" : Str) = c :: cs := hcons
  unfold generateConsumerAcls
  rw [hdash]

namespace ClientKey

variable {c c' : ClientKey} {data : List (String × Json.Doc)} {topic roles : Str} {a : Acl}
  {b : Binding}

/-- What is granted by default is on topics, or PREFIXED on the default prefix. -/
theorem binding_of_defaultAcls (hdata : Dict.get? data "consumer-group-prefix" = none)
    (ha : a ∈ c.defaultAcls data topic roles) (hb : a.binding = some b) :
    b.resourceType = .topic ∨ b.patternType = .prefixed ∧ b.name = c.groupPrefix := by
  have hdefault : consumerGroupPrefix data c.username roles =
      some (if consumerRole <:+: roles then c.username ++ "-" else []) := by
    rw [consumerGroupPrefix, hdata]
  unfold defaultAcls AclNeeds.computedUserAcls at ha
  simp only [List.flatMap_nil, List.append_nil, List.mem_append] at ha
  rcases ha with ha | ha
  · split at ha
    · obtain ⟨op, -, rfl⟩ := List.mem_map.mp ha
      exact .inl (binding_topic rfl hb)
    · cases ha
  · split at ha
    · rename_i hconsumer
      rw [hdefault, if_pos hconsumer, generateConsumerAcls_default] at ha
      rcases List.mem_append.mp ha with ha | ha
      · obtain ⟨op, -, rfl⟩ := List.mem_map.mp ha
        exact .inl (binding_topic rfl hb)
      · obtain rfl := List.mem_singleton.mp ha
        exact .inr (binding_group rfl hb)
    · cases ha

/-- A default grant covers groups that start with the default prefix only. -/
theorem prefix_of_coversGroup (hdata : Dict.get? data "consumer-group-prefix" = none)
    (ha : a ∈ c.defaultAcls data topic roles) (hb : a.binding = some b) {group : Str}
    (h : b.CoversGroup group) : c.groupPrefix <+: group := by
  obtain ⟨htype, hname⟩ := h
  rcases binding_of_defaultAcls hdata ha hb with htopic | ⟨hpattern, hgroup⟩
  · rw [htopic] at htype
    cases htype
  · rw [hpattern] at hname
    rw [← hgroup]
    exact hname

end ClientKey

/-- **Isolation.** Two clients have different names, neither that of an internal user, their
default prefixes do not start one another, and no group of one of them is covered by what
the other is granted by default. -/
theorem clients_isolated (k : ClientKeys) (c c' : ClientKey) (hc : c ∈ k.members)
    (hc' : c' ∈ k.members) (hne : c ≠ c') :
    c.username ≠ c'.username ∧ c.username ∉ internalUsers ∧ c'.username ∉ internalUsers ∧
    ¬ c.groupPrefix <+: c'.groupPrefix ∧ ¬ c'.groupPrefix <+: c.groupPrefix ∧
    ∀ data topic roles, Dict.get? data "consumer-group-prefix" = none →
      ∀ a ∈ c.defaultAcls data topic roles, ∀ b, a.binding = some b →
        ∀ group, c'.groupPrefix <+: group → ¬ b.CoversGroup group := by
  have hkeys : c.Apart c' := k.apart.forall hc hc' hne
  have hapart : ¬ c.groupPrefix <+: c'.groupPrefix := fun h =>
    hne (ClientKey.groupPrefix_inj hkeys h)
  have hapart' : ¬ c'.groupPrefix <+: c.groupPrefix := fun h =>
    hne (ClientKey.groupPrefix_inj (symm hkeys) h).symm
  refine ⟨fun hname => ?_, c.username_notMem_internalUsers, c'.username_notMem_internalUsers,
    hapart, hapart', ?_⟩
  · apply hapart
    rw [ClientKey.groupPrefix, ClientKey.groupPrefix, hname]
  · intro data topic roles hdata a ha b hb group hgroup hcovers
    have hown := ClientKey.prefix_of_coversGroup hdata ha hb hcovers
    rcases List.prefix_or_prefix_of_prefix hown hgroup with h | h
    · exact hapart h
    · exact hapart' h

/-- A client of relation 1, and one of a request on relation 11. -/
def sampleClients : ClientKeys where
  members := [⟨1, none⟩, ⟨11, some ⟨"0123456789abcdef".toList, by decide, by decide⟩⟩]
  apart := by decide

theorem relation_1_and_11_isolated :
    ∃ c ∈ sampleClients.members, ∃ c' ∈ sampleClients.members,
      c.relationId = 1 ∧ c'.relationId = 11 ∧ ¬ c.groupPrefix <+: c'.groupPrefix :=
  ⟨_, List.mem_cons_self, _, List.mem_cons_of_mem _ List.mem_cons_self, rfl, rfl,
    (clients_isolated sampleClients _ _ List.mem_cons_self
      (List.mem_cons_of_mem _ List.mem_cons_self) (by decide)).2.2.2.1⟩

end KafkaCharm
