import KafkaCharm.Revocation

namespace KafkaCharm

open PyText Fallible Outcome

/-- `computed_user_acls - current_user_acls`. -/
def AclTool.aclsToAdd (t : AclTool) (u : Str) (needs : AclNeeds) (bindings : List Binding) :
    List Acl :=
  (needs.computedUserAcls u).filter (· ∉ t.currentUserAcls u bindings)

/-- `current_user_acls - computed_user_acls`. -/
def AclTool.aclsToRemove (t : AclTool) (u : Str) (needs : AclNeeds) (bindings : List Binding) :
    List Acl :=
  (t.currentUserAcls u bindings).filter (· ∉ needs.computedUserAcls u)

theorem updateUserAcls_eq (t : AclTool) (u : Str) (needs : AclNeeds) (s : AclStore) :
    t.updateUserAcls u needs s =
      ((s.exec s.bindings).andThen
        (each t.addAcl (t.order.list (t.aclsToAdd u needs s.bindings)))).andThen
        (each t.removeAcl (t.order.list (t.aclsToRemove u needs s.bindings))) := rfl

/-! ## The encoding tells `Acl`s apart -/

theorem encodeResource_injective {rt rt' n n' : Str} {r : ResourceType × Str × PatternType}
    (h : encodeResource rt n = some r) (h' : encodeResource rt' n' = some r) :
    rt = rt' ∧ n = n' := by
  obtain ⟨rfl, p, rfl, rfl⟩ | ⟨rfl, _, rfl⟩ | ⟨rfl, rfl⟩ := encodeResource_cases h
  · obtain ⟨rfl, p', rfl, heq⟩ | ⟨rfl, _, heq⟩ | ⟨rfl, heq⟩ := encodeResource_cases h'
    · simp only [Prod.mk.injEq, and_true, true_and] at heq
      exact ⟨rfl, by rw [heq]⟩
    · simp at heq
    · simp at heq
  · obtain ⟨rfl, p', rfl, heq⟩ | ⟨rfl, _, heq⟩ | ⟨rfl, heq⟩ := encodeResource_cases h'
    · simp at heq
    · simpa using heq
    · simp at heq
  · obtain ⟨rfl, p', rfl, heq⟩ | ⟨rfl, _, heq⟩ | ⟨rfl, heq⟩ := encodeResource_cases h'
    · simp at heq
    · simp at heq
    · simpa using heq

/-- A binding is asked for by one `Acl` only. -/
theorem binding_injective {a a' : Acl} {b : Binding} (h : a.binding = some b)
    (h' : a'.binding = some b) : a = a' := by
  obtain ⟨⟨rt, n, pt⟩, hr, rfl⟩ := Option.map_eq_some_iff.mp h
  obtain ⟨⟨rt', n', pt'⟩, hr', heq⟩ := Option.map_eq_some_iff.mp h'
  simp only [Binding.mk.injEq] at heq
  obtain ⟨hu, hop, rfl, rfl, rfl⟩ := heq
  obtain ⟨htype, hname⟩ := encodeResource_injective hr hr'
  obtain ⟨name, type, op, user⟩ := a
  obtain ⟨name', type', op', user'⟩ := a'
  obtain rfl := userPrincipal_injective hu
  simp only at hop htype hname
  rw [hop, htype, hname]

theorem binding_kind {a : Acl} {b : Binding} (h : a.binding = some b) :
    b.resourceType = .topic ∨ b.resourceType = .group := by
  obtain ⟨r, hr, rfl⟩ := Option.map_eq_some_iff.mp h
  obtain ⟨_, _, _, rfl⟩ | ⟨_, _, rfl⟩ | ⟨_, rfl⟩ := encodeResource_cases hr
  · exact .inl rfl
  · exact .inl rfl
  · exact .inr rfl

/-- A literal topic that is asked for does not look like a prefix. -/
theorem binding_literal {a : Acl} {b : Binding} (h : a.binding = some b)
    (hb : b.patternType = .literal) : isStarTopic b.name = false := by
  obtain ⟨r, hr, rfl⟩ := Option.map_eq_some_iff.mp h
  obtain ⟨_, _, _, rfl⟩ | ⟨_, hstar, rfl⟩ | ⟨_, rfl⟩ := encodeResource_cases hr
  · cases hb
  · exact hstar
  · cases hb

/-! ## A completed update -/

section Update

variable {t : AclTool} {u : Str} {needs : AclNeeds} {s s' : AclStore}

theorem aclsToRemove_words (hl : Legible s.bindings) {a : Acl}
    (ha : a ∈ t.order.list (t.aclsToRemove u needs s.bindings)) : a.Words :=
  (currentUserAcls_words t hl (List.mem_of_mem_filter ((t.order.mem_list _ a).mp ha))).1

theorem mem_updateUserAcls (hl : Legible s.bindings)
    (hw : ∀ a ∈ needs.computedUserAcls u, a.Words)
    (h : t.updateUserAcls u needs s = returned s') (b : Binding) :
    b ∈ s'.bindings ↔
      (b ∈ s.bindings ∨ ∃ a ∈ t.aclsToAdd u needs s.bindings, a.binding = some b) ∧
        ∀ a ∈ t.aclsToRemove u needs s.bindings, a.binding ≠ some b := by
  rw [updateUserAcls_eq] at h
  obtain ⟨m, hm, hremove⟩ := andThen_eq_returned h
  obtain ⟨m0, hlist, hadd⟩ := andThen_eq_returned hm
  have hadds : ∀ a ∈ t.order.list (t.aclsToAdd u needs s.bindings), a.Words :=
    fun a ha => hw a (List.mem_of_mem_filter ((t.order.mem_list _ a).mp ha))
  rw [mem_removeAcls t (fun a ha => aclsToRemove_words hl ha) hremove, mem_addAcls t hadds hadd,
    (exec_eq_returned hlist).1]
  simp only [t.order.mem_list]

/-- A removal never asks for the binding of a computed `Acl`. -/
theorem aclsToRemove_spares {bindings : List Binding} {a a' : Acl} {b : Binding}
    (ha : a ∈ needs.computedUserAcls u) (hab : a.binding = some b)
    (ha' : a' ∈ t.aclsToRemove u needs bindings) : a'.binding ≠ some b := by
  intro h
  have hnot := List.of_mem_filter ha'
  rw [binding_injective h hab] at hnot
  exact absurd ha (by simpa using hnot)

/-- An update that has to remove from another resource than a topic or a group raises. -/
theorem aclsToRemove_binding (hl : Legible s.bindings)
    (h : t.updateUserAcls u needs s = returned s') {a : Acl}
    (ha : a ∈ t.aclsToRemove u needs s.bindings) : a.binding ≠ none := by
  rw [updateUserAcls_eq] at h
  obtain ⟨_, _, hremove⟩ := andThen_eq_returned h
  have hmem := (t.order.mem_list _ a).mpr ha
  obtain ⟨m, m', hm⟩ := each_round_returned hremove hmem
  rcases removeAcl_of_words t (aclsToRemove_words hl hmem) m with ⟨_, heq⟩ | ⟨b, hb, _⟩
  · rw [heq] at hm
    cases hm
  · simp [hb]

theorem aclsToAdd_binding (hw : ∀ a ∈ needs.computedUserAcls u, a.Words)
    (h : t.updateUserAcls u needs s = returned s') {a : Acl}
    (ha : a ∈ t.aclsToAdd u needs s.bindings) : ∃ b, a.binding = some b := by
  rw [updateUserAcls_eq] at h
  obtain ⟨_, hadds, _⟩ := andThen_eq_returned h
  obtain ⟨_, _, hadd⟩ := andThen_eq_returned hadds
  obtain ⟨m, m', hm⟩ := each_round_returned hadd ((t.order.mem_list _ a).mpr ha)
  rcases addAcl_of_words t (hw a (List.mem_of_mem_filter ha)) m with ⟨_, heq⟩ | ⟨b, hb, _⟩
  · rw [heq] at hm
    cases hm
  · exact ⟨b, hb⟩

theorem addAcl_keeps (t : AclTool) (a : Acl) {b : Binding} (hb : b ∈ s.bindings) :
    b ∈ (t.addAcl a s).state.bindings := by
  unfold AclTool.addAcl
  split
  · exact hb
  · rename_i bs _
    rcases exec_state s (s.bindings ++ bs) with h | h
    · rw [h]
      exact List.mem_append_left _ hb
    · rwa [h]

theorem removeAcl_keeps (t : AclTool) {a : Acl} (hw : a.Words) {b : Binding}
    (hne : a.binding ≠ some b) (hb : b ∈ s.bindings) : b ∈ (t.removeAcl a s).state.bindings := by
  rcases removeAcl_of_words t hw s with ⟨_, heq⟩ | ⟨c, hc, heq⟩
  · rw [heq]
    exact hb
  · rw [heq]
    have hbc : b ≠ c := fun h => hne (h ▸ hc)
    rcases exec_state s (s.bindings.filter (· ∉ [c])) with h | h
    · rw [h]
      exact List.mem_filter.mpr ⟨hb, by simp [hbc]⟩
    · rwa [h]

/-- Whatever part of the update is done, what no removal asks for is still there. -/
theorem updateUserAcls_keeps (hl : Legible s.bindings) {b : Binding} (hb : b ∈ s.bindings)
    (hspared : ∀ a ∈ t.aclsToRemove u needs s.bindings, a.binding ≠ some b) :
    b ∈ (t.updateUserAcls u needs s).state.bindings := by
  rw [updateUserAcls_eq]
  have hlist : b ∈ (s.exec s.bindings).state.bindings := by
    have h := exec_state s s.bindings
    rw [or_self] at h
    rwa [h]
  refine andThen_state_invariant (I := fun m : AclStore => b ∈ m.bindings)
    (andThen_state_invariant (I := fun m : AclStore => b ∈ m.bindings) hlist ?_) ?_
  · exact each_state_invariant fun a _ _ hm => addAcl_keeps t a hm
  · exact each_state_invariant fun a ha _ hm =>
      removeAcl_keeps t (aclsToRemove_words hl ha) (hspared a ((t.order.mem_list _ a).mp ha)) hm

/-- At every point of the update the others have their bindings, and the user those that
are computed. -/
theorem updateUserAcls_spares (hl : Legible s.bindings) {b : Binding} (hb : b ∈ s.bindings)
    (hkeep : b.principal ≠ userPrincipal u ∨ ∃ a ∈ needs.computedUserAcls u, a.binding = some b) :
    b ∈ (t.updateUserAcls u needs s).state.bindings := by
  refine updateUserAcls_keeps hl hb fun a ha hab => ?_
  rcases hkeep with hp | ⟨a', ha', hab'⟩
  · have hau := (currentUserAcls_words t hl (List.mem_of_mem_filter ha)).2
    exact hp (hau ▸ binding_principal hab)
  · exact aclsToRemove_spares ha' hab' ha hab

/-- Without failing commands the update comes to its end. -/
theorem updateUserAcls_returns (hl : Legible s.bindings) (hf : s.faults = [])
    (hw : ∀ a ∈ needs.computedUserAcls u, a.Words ∧ a.binding ≠ none)
    (hr : ∀ a ∈ t.aclsToRemove u needs s.bindings, a.binding ≠ none) :
    ∃ s', t.updateUserAcls u needs s = returned s' := by
  have hadd : ∀ a ∈ t.order.list (t.aclsToAdd u needs s.bindings), ∀ m : AclStore,
      m.faults = [] → ∃ m', t.addAcl a m = returned m' ∧ m'.faults = [] := by
    intro a ha m hm
    obtain ⟨hwords, hsome⟩ := hw a (List.mem_of_mem_filter ((t.order.mem_list _ a).mp ha))
    rcases addAcl_of_words t hwords m with ⟨hnone, _⟩ | ⟨b, _, heq⟩
    · exact absurd hnone hsome
    · exact ⟨_, heq.trans (exec_of_no_fault hm _), rfl⟩
  obtain ⟨m, hm, hmf⟩ := each_returns hadd ⟨s.bindings, []⟩ rfl
  have hremove : ∀ a ∈ t.order.list (t.aclsToRemove u needs s.bindings),
      a.Words ∧ a.binding ≠ none :=
    fun a ha => ⟨aclsToRemove_words hl ha, hr a ((t.order.mem_list _ a).mp ha)⟩
  obtain ⟨s', hs'⟩ := removeAcls_returns t hremove hmf
  refine ⟨s', ?_⟩
  rw [updateUserAcls_eq, exec_of_no_fault hf, returned_andThen, hm, returned_andThen, hs']

end Update

/-! ## Plain stores and requests -/

/-- A text that the listing shows unchanged and no key is found in. -/
def PlainText (s : Str) : Prop := Value s ∧ KeyFree s

instance (s : Str) : Decidable (PlainText s) := inferInstanceAs (Decidable (_ ∧ _))

/-- A binding of a user in plain texts; topics are literal and groups prefixed. -/
structure Binding.Plain (b : Binding) : Prop where
  user : ∃ user, PlainText user ∧ b.principal = userPrincipal user
  operation : PlainText b.operation
  name : PlainText b.name
  topic : b.resourceType = .topic → b.patternType = .literal
  group : b.resourceType = .group → b.patternType = .prefixed

/-- The resource types of `KafkaPermissionModel`, and no topic that means a prefix. -/
def NamesResource (resourceType resourceName : Str) : Prop :=
  resourceType = topicText ∧ isStarTopic resourceName = false ∨ resourceType = groupText

/-- A request in plain texts. An empty group counts as none. -/
structure AclNeeds.Plain (needs : AclNeeds) : Prop where
  topic : PlainText needs.topic ∧ isStarTopic needs.topic = false
  group : ∀ g, needs.group = some g → g = [] ∨ PlainText g
  resource : ∀ p ∈ needs.permissions,
    PlainText p.resourceName ∧ NamesResource p.resourceType p.resourceName
  privileges : ∀ p ∈ needs.permissions, ∀ op ∈ p.privileges, PlainText op

/-- An `Acl` in plain texts. -/
structure Acl.Plain (a : Acl) : Prop where
  user : PlainText a.username
  operation : PlainText a.operation
  name : PlainText a.resourceName
  resource : NamesResource a.resourceType a.resourceName

theorem Acl.Plain.words {a : Acl} (h : a.Plain) : a.Words :=
  words_of_value h.name.1 h.user.1 h.operation.1

/-- No key ends in a dash. -/
theorem PlainText.dash {u : Str} (h : PlainText u) : PlainText (u ++ ['-']) := by
  refine ⟨⟨by simp, ?_, spaceFree_append.mpr ⟨h.1.2.2, by decide⟩⟩, fun key hkey hin => ?_⟩
  · simp [h.1.2.1]
  · have hlast : ∀ key ∈ keys, key.getLast? ≠ some '-' := by decide
    rcases List.infix_concat_iff.mp hin with hsuffix | hinfix
    · rcases List.suffix_concat_iff.mp hsuffix with hnil | ⟨t, ht, _⟩
      · exact key_ne_nil key hkey hnil
      · exact hlast key hkey (by simp [ht])
    · exact h.2 key hkey hinfix

theorem computedUserAcls_plain {needs : AclNeeds} {u : Str} (hu : PlainText u) (hn : needs.Plain)
    {a : Acl} (ha : a ∈ needs.computedUserAcls u) : a.Plain := by
  have htopic : NamesResource topicText needs.topic := .inl ⟨rfl, hn.topic.2⟩
  simp only [AclNeeds.computedUserAcls, List.mem_append, List.mem_flatMap, List.mem_map,
    List.mem_ite_nil_right] at ha
  rcases ha with (⟨_, ha⟩ | ⟨_, ha⟩) | ⟨p, hp, op, hop, rfl⟩
  · simp only [generateProducerAcls, List.mem_map] at ha
    obtain ⟨op, hop, rfl⟩ := ha
    have hops : ∀ op ∈ ([("CREATE" : Str), ("WRITE" : Str), ("DESCRIBE" : Str)]), PlainText op := by
      decide
    exact ⟨hu, hops op hop, hn.topic.1, htopic⟩
  · simp only [generateConsumerAcls, List.mem_append, List.mem_map, List.mem_singleton] at ha
    rcases ha with ⟨op, hop, rfl⟩ | rfl
    · have hops : ∀ op ∈ (["READ", "DESCRIBE"] : List String), PlainText op := by decide
      exact ⟨hu, hops op hop, hn.topic.1, htopic⟩
    · have hread : PlainText "READ" := by decide
      refine ⟨hu, hread, ?_, .inr rfl⟩
      dsimp only
      split
      · rename_i c cs hg
        exact (hn.group _ hg).resolve_left (by simp)
      · exact hu.dash
  · exact ⟨hu, hn.privileges p hp op hop, (hn.resource p hp).1, (hn.resource p hp).2⟩

/-- The binding of a plain `Acl` is read back as it. -/
theorem Acl.Plain.exists_binding {a : Acl} (h : a.Plain) :
    ∃ b, a.binding = some b ∧ b.Plain ∧ Reads a b := by
  obtain ⟨name, type, op, user⟩ := a
  rcases h.resource with ⟨rfl, hstar⟩ | rfl
  · refine ⟨⟨userPrincipal user, op, .topic, name, .literal⟩, ?_, ?_, rfl, rfl, rfl, rfl⟩
    · simp [Acl.binding, encodeResource_topic, hstar]
    · exact ⟨⟨user, h.user, rfl⟩, h.operation, h.name, fun _ => rfl, by rintro ⟨⟩⟩
  · refine ⟨⟨userPrincipal user, op, .group, name, .prefixed⟩, ?_, ?_, rfl, rfl, rfl, rfl⟩
    · simp [Acl.binding, encodeResource_group]
    · exact ⟨⟨user, h.user, rfl⟩, h.operation, h.name, by rintro ⟨⟩, fun _ => rfl⟩

theorem ResourceType.text_injective {rt rt' : ResourceType} (h : rt.text = rt'.text) : rt = rt' := by
  cases rt <;> cases rt' <;> first | rfl | exact absurd h (by decide)

theorem reads_injective {a a' : Acl} {b : Binding} (h : Reads a b) (h' : Reads a' b) : a = a' := by
  obtain ⟨name, type, op, user⟩ := a
  obtain ⟨name', type', op', user'⟩ := a'
  obtain ⟨hu, hop, htype, hname⟩ := h
  obtain ⟨hu', hop', htype', hname'⟩ := h'
  obtain rfl := userPrincipal_injective (hu.symm.trans hu')
  simp only at hop htype hname hop' htype' hname'
  rw [hop, htype, hname, hop', htype', hname']

/-- What an `Acl` is read from is determined, for the resource types that have one pattern. -/
theorem reads_unique {a : Acl} {b b' : Binding} (h : Reads a b) (h' : Reads a b') (hb : b.Plain)
    (hb' : b'.Plain) (hkind : b.resourceType = .topic ∨ b.resourceType = .group) : b = b' := by
  have htype : b.resourceType = b'.resourceType :=
    ResourceType.text_injective (h.2.2.1.symm.trans h'.2.2.1)
  have hpattern : b.patternType = b'.patternType := by
    rcases hkind with hk | hk
    · rw [hb.topic hk, hb'.topic (htype ▸ hk)]
    · rw [hb.group hk, hb'.group (htype ▸ hk)]
  obtain ⟨principal, op, rt, name, pt⟩ := b
  obtain ⟨principal', op', rt', name', pt'⟩ := b'
  obtain ⟨h1, h2, _, h4⟩ := h
  obtain ⟨h1', h2', _, h4'⟩ := h'
  simp only at h1 h2 h4 h1' h2' h4' htype hpattern
  rw [h1, h1', ← h2, ← h2', ← h4, ← h4', htype, hpattern]

theorem Binding.Plain.readable {b : Binding} (h : b.Plain) : ∃ user, b.Readable user := by
  obtain ⟨user, hu, hp⟩ := h.user
  exact ⟨user, hp, hu.2, h.operation.2, h.name.2, hu.1.2.2, h.operation.1.2.2, h.name.1.2.2⟩

/-- The `Acl` that the listing shows for a binding of the user. -/
def Binding.shown (b : Binding) (u : Str) : Acl := ⟨b.name, b.resourceType.text, b.operation, u⟩

theorem shown_kind {b : Binding} {u : Str} (h : (b.shown u).binding ≠ none) :
    b.resourceType = .topic ∨ b.resourceType = .group := by
  obtain ⟨c, hc⟩ := Option.ne_none_iff_exists'.mp h
  obtain ⟨r, hr, _⟩ := Option.map_eq_some_iff.mp hc
  obtain ⟨ht, _⟩ | ⟨ht, _⟩ | ⟨hg, _⟩ := encodeResource_cases hr
  · exact .inl (ResourceType.text_injective ht)
  · exact .inl (ResourceType.text_injective ht)
  · exact .inr (ResourceType.text_injective hg)

/-- What is shown is encoded to what is stored, unless a topic looks like a prefix. -/
theorem shown_binding {b : Binding} {u : Str} (hb : b.Plain) (hp : b.principal = userPrincipal u)
    (hkind : b.resourceType = .topic ∨ b.resourceType = .group)
    (hstar : b.resourceType = .topic → isStarTopic b.name = false) :
    (b.shown u).binding = some b := by
  obtain ⟨principal, op, rt, name, pt⟩ := b
  obtain rfl : principal = userPrincipal u := hp
  rcases hkind with rfl | rfl
  · obtain rfl : pt = .literal := hb.topic rfl
    have hname : isStarTopic name = false := hstar rfl
    simp [Binding.shown, Acl.binding, ResourceType.text, encodeResource_topic, hname]
  · obtain rfl : pt = .prefixed := hb.group rfl
    simp [Binding.shown, Acl.binding, ResourceType.text, encodeResource_group]

/-! ## Exactness -/

/-- What an update should do: leave the user with the computed ACLs and the others as
they are, leave nothing to a second update, and lose nothing when it is interrupted. -/
structure Reconciles (t : AclTool) (u : Str) (needs : AclNeeds) (bindings : List Binding) :
    Prop where
  exact : ∀ faults s', t.updateUserAcls u needs ⟨bindings, faults⟩ = returned s' →
    ∀ b, b ∈ s'.bindings ↔ (b ∈ bindings ∧ b.principal ≠ userPrincipal u) ∨
      ∃ a ∈ needs.computedUserAcls u, a.binding = some b
  settled : ∀ faults s', t.updateUserAcls u needs ⟨bindings, faults⟩ = returned s' →
    t.aclsToAdd u needs s'.bindings = [] ∧ t.aclsToRemove u needs s'.bindings = []
  interrupted : ∀ faults s', t.updateUserAcls u needs ⟨bindings, faults⟩ = raised s' →
    ∀ b ∈ bindings, b.principal ≠ userPrincipal u ∨
      (∃ a ∈ needs.computedUserAcls u, a.binding = some b) → b ∈ s'.bindings

section Exact

variable {t : AclTool} {u : Str} {needs : AclNeeds} {bindings : List Binding}
  (hs : ∀ b ∈ bindings, b.Plain) (hu : PlainText u) (hn : needs.Plain)

section Listing

include hs

theorem legible_of_plain : Legible bindings := fun b hb => (hs b hb).readable

/-- On a plain store the listing shows each binding as it is. -/
theorem mem_currentUserAcls_iff {a : Acl} : a ∈ t.currentUserAcls u bindings ↔
    a.username = u ∧ ∃ b ∈ bindings, Reads a b := by
  constructor
  · intro ha
    obtain ⟨_, hau, b, hb, hfrom⟩ := currentUserAcls_sound t (legible_of_plain hs) ha
    obtain ⟨user, huser, hprincipal⟩ := (hs b hb).user
    have hname := hfrom.user user user hprincipal huser.1.field_eq
    have hop : b.operation = a.operation :=
      Option.some.inj ((hs b hb).operation.1.field_eq.symm.trans hfrom.operation)
    refine ⟨hau, b, hb, hname ▸ hprincipal, hop.symm, hfrom.resourceType, ?_⟩
    exact hfrom.name _ (hs b hb).name.1.field_eq
  · rintro ⟨rfl, b, hb, hreads⟩
    obtain ⟨user, huser, hprincipal⟩ := (hs b hb).user
    obtain rfl := userPrincipal_injective (hreads.1.symm.trans hprincipal)
    have hop : Value a.operation := hreads.2.1 ▸ (hs b hb).operation.1
    have hname : Value a.resourceName := hreads.2.2.2 ▸ (hs b hb).name.1
    exact mem_currentUserAcls t (legible_of_plain hs) huser.1 hop hname hb hreads

theorem shown_of_mem {b : Binding} (hb : b ∈ bindings) (hp : b.principal = userPrincipal u) :
    b.shown u ∈ t.currentUserAcls u bindings :=
  (mem_currentUserAcls_iff hs).mpr ⟨rfl, b, hb, hp, rfl, rfl, rfl⟩

end Listing

include hu hn

/-- A computed `Acl` is shown exactly when its binding is there. -/
theorem computed_shown_iff (hs : ∀ b ∈ bindings, b.Plain) {a : Acl} {b : Binding}
    (ha : a ∈ needs.computedUserAcls u) (hab : a.binding = some b) :
    a ∈ t.currentUserAcls u bindings ↔ b ∈ bindings := by
  obtain ⟨b', hab', hplain, hreads⟩ := (computedUserAcls_plain hu hn ha).exists_binding
  obtain rfl : b' = b := Option.some.inj (hab'.symm.trans hab)
  rw [mem_currentUserAcls_iff hs]
  constructor
  · rintro ⟨_, c, hc, hreadsc⟩
    exact reads_unique hreads hreadsc hplain (hs c hc) (binding_kind hab) ▸ hc
  · intro hb
    exact ⟨computedUserAcls_username ha, b', hb, hreads⟩

theorem computed_words {a : Acl} (ha : a ∈ needs.computedUserAcls u) :
    a.Words ∧ a.binding ≠ none := by
  have hplain := computedUserAcls_plain hu hn ha
  obtain ⟨b, hb, _⟩ := hplain.exists_binding
  exact ⟨hplain.words, by simp [hb]⟩

/-- No topic of the user is literal and looks like a prefix. -/
def NoStarTopic (u : Str) (bindings : List Binding) : Prop :=
  ∀ b ∈ bindings, b.principal = userPrincipal u → b.resourceType = .topic →
    isStarTopic b.name = false

include hs

/-- The bindings of the user after an update were computed. -/
theorem computed_of_mem_update {faults : List Bool} {s' : AclStore}
    (h : t.updateUserAcls u needs ⟨bindings, faults⟩ = returned s')
    (hstar : NoStarTopic u bindings) {b : Binding} (hb : b ∈ s'.bindings)
    (hp : b.principal = userPrincipal u) : ∃ a ∈ needs.computedUserAcls u, a.binding = some b := by
  have hl := legible_of_plain hs
  have hw (a : Acl) (ha : a ∈ needs.computedUserAcls u) := (computed_words hu hn ha).1
  obtain ⟨hbefore | ⟨a, ha, hab⟩, hspared⟩ := (mem_updateUserAcls hl hw h b).mp hb
  swap
  · exact ⟨a, List.mem_of_mem_filter ha, hab⟩
  have hshown : b.shown u ∈ t.currentUserAcls u bindings := shown_of_mem hs hbefore hp
  by_cases hcomputed : b.shown u ∈ needs.computedUserAcls u
  · obtain ⟨c, hc, hplain, hreads⟩ := (computedUserAcls_plain hu hn hcomputed).exists_binding
    have hsame : c = b :=
      reads_unique hreads ⟨hp, rfl, rfl, rfl⟩ hplain (hs b hbefore) (binding_kind hc)
    exact ⟨b.shown u, hcomputed, hsame ▸ hc⟩
  · -- it is to be removed, and the removal finds it
    have hremove : b.shown u ∈ t.aclsToRemove u needs bindings :=
      List.mem_filter.mpr ⟨hshown, by simpa using hcomputed⟩
    have hkind := shown_kind (aclsToRemove_binding hl h hremove)
    exact absurd (shown_binding (hs b hbefore) hp hkind (hstar b hbefore hp)) (hspared _ hremove)

theorem updateUserAcls_exact {faults : List Bool} {s' : AclStore}
    (h : t.updateUserAcls u needs ⟨bindings, faults⟩ = returned s')
    (hstar : NoStarTopic u bindings) (b : Binding) :
    b ∈ s'.bindings ↔ (b ∈ bindings ∧ b.principal ≠ userPrincipal u) ∨
      ∃ a ∈ needs.computedUserAcls u, a.binding = some b := by
  have hl := legible_of_plain hs
  have hw (a : Acl) (ha : a ∈ needs.computedUserAcls u) := (computed_words hu hn ha).1
  have hframe := updateUserAcls_frame t u needs (s := ⟨bindings, faults⟩)
    (fun a ha => (currentUserAcls_words t hl ha).1) hw
  rw [h] at hframe
  constructor
  · intro hb
    by_cases hp : b.principal = userPrincipal u
    · exact .inr (computed_of_mem_update hs hu hn h hstar hb hp)
    · exact .inl ⟨(hframe b hp).mp hb, hp⟩
  · rintro (⟨hb, hp⟩ | ⟨a, ha, hab⟩)
    · exact (hframe b hp).mpr hb
    · refine (mem_updateUserAcls hl hw h b).mpr ⟨?_, fun a' ha' => aclsToRemove_spares ha hab ha'⟩
      by_cases hshown : a ∈ t.currentUserAcls u bindings
      · exact .inl ((computed_shown_iff hu hn hs ha hab).mp hshown)
      · exact .inr ⟨a, List.mem_filter.mpr ⟨ha, by simpa using hshown⟩, hab⟩

/-- A plain store that holds the computed ACLs of the user leaves nothing to do. -/
theorem settled_of_exact
    (hexact : ∀ b, b.principal = userPrincipal u →
      (b ∈ bindings ↔ ∃ a ∈ needs.computedUserAcls u, a.binding = some b)) :
    t.aclsToAdd u needs bindings = [] ∧ t.aclsToRemove u needs bindings = [] := by
  constructor
  · refine List.filter_eq_nil_iff.mpr fun a ha => ?_
    obtain ⟨b, hab, _⟩ := (computedUserAcls_plain hu hn ha).exists_binding
    have hp : b.principal = userPrincipal u :=
      computedUserAcls_username ha ▸ binding_principal hab
    have hshown := (computed_shown_iff (t := t) hu hn hs ha hab).mpr ((hexact b hp).mpr ⟨a, ha, hab⟩)
    simp [hshown]
  · refine List.filter_eq_nil_iff.mpr fun a ha => ?_
    obtain ⟨rfl, b, hb, hreads⟩ := (mem_currentUserAcls_iff hs).mp ha
    obtain ⟨a', ha', hab'⟩ := (hexact b hreads.1).mp hb
    obtain ⟨b', hab, _, hreads'⟩ := (computedUserAcls_plain hu hn ha').exists_binding
    obtain rfl : b' = b := Option.some.inj (hab.symm.trans hab')
    obtain rfl := reads_injective hreads hreads'
    simp [ha']

theorem updateUserAcls_plain {faults : List Bool} {s' : AclStore}
    (h : t.updateUserAcls u needs ⟨bindings, faults⟩ = returned s') : ∀ b ∈ s'.bindings, b.Plain := by
  intro b hb
  have hw (a : Acl) (ha : a ∈ needs.computedUserAcls u) := (computed_words hu hn ha).1
  have hsub := updateUserAcls_subset t u hw ⟨bindings, faults⟩
  rw [h] at hsub
  rcases hsub b hb with hold | ⟨a, ha, hab⟩
  · exact hs b hold
  · obtain ⟨c, hc, hplain, _⟩ := (computedUserAcls_plain hu hn ha).exists_binding
    exact Option.some.inj (hc.symm.trans hab) ▸ hplain

/-- A literal topic that looks like a prefix outlives every update. -/
theorem starTopic_survives {faults : List Bool} {s' : AclStore}
    (h : t.updateUserAcls u needs ⟨bindings, faults⟩ = returned s') {b : Binding}
    (hb : b ∈ bindings) (htopic : b.resourceType = .topic) (hstar : isStarTopic b.name = true) :
    b ∈ s'.bindings := by
  have hw (a : Acl) (ha : a ∈ needs.computedUserAcls u) := (computed_words hu hn ha).1
  refine (mem_updateUserAcls (legible_of_plain hs) hw h b).mpr ⟨.inl hb, fun a _ hab => ?_⟩
  rw [binding_literal hab ((hs b hb).topic htopic)] at hstar
  cases hstar

/-- Some binding of the user is on neither a topic nor a group. -/
def OtherResource (u : Str) (bindings : List Binding) : Prop :=
  ∃ b ∈ bindings, b.principal = userPrincipal u ∧
    ¬ (b.resourceType = .topic ∨ b.resourceType = .group)

/-- Such a binding is shown, is never computed, and no command removes it. -/
theorem otherResource_raises (h : OtherResource u bindings) (faults : List Bool) (s' : AclStore) :
    t.updateUserAcls u needs ⟨bindings, faults⟩ ≠ returned s' := by
  intro hret
  obtain ⟨b, hb, hp, hkind⟩ := h
  have hshown : b.shown u ∈ t.currentUserAcls u bindings := shown_of_mem hs hb hp
  by_cases hcomputed : b.shown u ∈ needs.computedUserAcls u
  · exact hkind (shown_kind (computed_words hu hn hcomputed).2)
  · exact hkind (shown_kind (aclsToRemove_binding (legible_of_plain hs) hret
      (List.mem_filter.mpr ⟨hshown, by simpa using hcomputed⟩)))

theorem updateUserAcls_returns_of_kinds (h : ¬ OtherResource u bindings) :
    ∃ s', t.updateUserAcls u needs ⟨bindings, []⟩ = returned s' := by
  refine updateUserAcls_returns (legible_of_plain hs) rfl (fun a ha => computed_words hu hn ha) ?_
  intro a ha
  obtain ⟨rfl, b, hb, hreads⟩ := (mem_currentUserAcls_iff hs).mp (List.mem_of_mem_filter ha)
  by_contra hnone
  refine h ⟨b, hb, hreads.1, fun hkind => ?_⟩
  obtain ⟨n, pt, henc, _⟩ := encodeResource_type hkind a.resourceName
  simp [Acl.binding, hreads.2.2.1, henc] at hnone

end Exact

/-- On plain stores and requests, `update_user_acls` leaves exactly the computed ACLs of the
user and the bindings of the others, leaves nothing to a second call, and loses nothing when
it raises, exactly when no topic of the user is literal and looks like a prefix, or when the
user has a binding on another resource, with which every call raises. -/
theorem update_user_acls_exact_iff (t : AclTool) (u : Str) (needs : AclNeeds)
    (bindings : List Binding) (hs : ∀ b ∈ bindings, b.Plain) (hu : PlainText u)
    (hn : needs.Plain) :
    Reconciles t u needs bindings ↔ NoStarTopic u bindings ∨ OtherResource u bindings := by
  have hinterrupted : ∀ faults s', t.updateUserAcls u needs ⟨bindings, faults⟩ = raised s' →
      ∀ b ∈ bindings, b.principal ≠ userPrincipal u ∨
        (∃ a ∈ needs.computedUserAcls u, a.binding = some b) → b ∈ s'.bindings := by
    intro faults s' h b hb hkeep
    have hstate : b ∈ (t.updateUserAcls u needs ⟨bindings, faults⟩).state.bindings :=
      updateUserAcls_spares (legible_of_plain hs) hb hkeep
    rwa [h] at hstate
  constructor
  · intro hrec
    by_cases hother : OtherResource u bindings
    · exact .inr hother
    · refine .inl fun b hb hp htopic => ?_
      obtain ⟨s', h⟩ := updateUserAcls_returns_of_kinds (t := t) hs hu hn hother
      by_contra hstar
      have hstar' : isStarTopic b.name = true := by simpa using hstar
      have hmem := starTopic_survives hs hu hn h hb htopic hstar'
      rcases (hrec.exact [] s' h b).mp hmem with ⟨_, hne⟩ | ⟨a, _, hab⟩
      · exact hne hp
      · exact hstar (binding_literal hab ((hs b hb).topic htopic))
  · rintro (hstar | hother)
    · refine ⟨fun faults s' h b => updateUserAcls_exact hs hu hn h hstar b, fun faults s' h => ?_,
        hinterrupted⟩
      refine settled_of_exact (updateUserAcls_plain hs hu hn h) hu hn fun b hp => ?_
      rw [updateUserAcls_exact hs hu hn h hstar b]
      simp [hp]
    · exact ⟨fun faults s' h => absurd h (otherResource_raises hs hu hn hother faults s'),
        fun faults s' h => absurd h (otherResource_raises hs hu hn hother faults s'), hinterrupted⟩

/-- A producer on the topic `orders`. -/
def ordersProducer : AclNeeds := ⟨"orders", "producer", none, []⟩

theorem ordersProducer_plain : ordersProducer.Plain where
  topic := ⟨by decide, by decide⟩
  group g hg := by cases hg
  resource p hp := by cases hp
  privileges p hp := by cases hp

/-- A consumer of another topic becomes a producer; the group of another user stays. -/
theorem changed_request_reconciled :
    Reconciles singleTool "relation-7" ordersProducer
      [⟨userPrincipal "relation-7", "READ", .topic, "old", .literal⟩,
       ⟨userPrincipal "relation-8", "READ", .group, "relation-8-", .prefixed⟩] := by
  refine (update_user_acls_exact_iff singleTool "relation-7" ordersProducer _ ?_ (by decide)
    ordersProducer_plain).mpr (.inl ?_)
  · intro b hb
    simp only [List.mem_cons, List.not_mem_nil, or_false] at hb
    rcases hb with rfl | rfl
    · exact ⟨⟨"relation-7", by decide, rfl⟩, by decide, by decide, fun _ => rfl, fun h => absurd h (by decide)⟩
    · exact ⟨⟨"relation-8", by decide, rfl⟩, by decide, by decide, fun h => absurd h (by decide), fun _ => rfl⟩
  · intro b hb _ htopic
    simp only [List.mem_cons, List.not_mem_nil, or_false] at hb
    rcases hb with rfl | rfl
    · decide
    · cases htopic

/-- The literal topic `abc*` is shown as `abc*`; its removal asks for the prefix `abc`,
completes, and leaves the binding in place. -/
theorem literal_star_topic_stays :
    let stale : Binding := ⟨userPrincipal "relation-7", "READ", .topic, "abc*", .literal⟩
    stale.Plain ∧ PlainText "relation-7" ∧ ordersProducer.Plain ∧
      (∃ s', singleTool.updateUserAcls "relation-7" ordersProducer ⟨[stale], []⟩ = returned s' ∧
        stale ∈ s'.bindings) ∧
      ¬ Reconciles singleTool "relation-7" ordersProducer [stale] := by
  intro stale
  have hplain : stale.Plain :=
    ⟨⟨"relation-7", by decide, rfl⟩, by decide, by decide, fun _ => rfl, fun h => absurd h (by decide)⟩
  have hs : ∀ b ∈ [stale], b.Plain := fun b hb => List.mem_singleton.mp hb ▸ hplain
  have hu : PlainText "relation-7" := by decide
  have hkinds : ¬ OtherResource "relation-7" [stale] := by
    rintro ⟨b, hb, _, hkind⟩
    obtain rfl := List.mem_singleton.mp hb
    exact hkind (.inl rfl)
  obtain ⟨s', h⟩ := updateUserAcls_returns_of_kinds (t := singleTool) hs hu ordersProducer_plain hkinds
  have hstays := starTopic_survives hs hu ordersProducer_plain h (List.mem_singleton.mpr rfl) rfl
    (by decide)
  refine ⟨hplain, hu, ordersProducer_plain, ⟨s', h, hstays⟩, fun hrec => ?_⟩
  rcases (hrec.exact [] s' h stale).mp hstays with ⟨_, hne⟩ | ⟨a, _, hab⟩
  · exact hne rfl
  · exact absurd (binding_literal hab rfl) (by decide)

end KafkaCharm
