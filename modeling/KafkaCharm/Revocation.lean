import KafkaCharm.AuthManager

namespace KafkaCharm

open PyText Fallible Outcome

/-- `add_acl` puts the binding in the cluster, wherever it was run. -/
def Grants (a : Acl) (b : Binding) : Prop :=
  ∃ site opts bs, aclRequest .add site opts a = some bs ∧ b ∈ bs

/-- The bindings of a user are those `add_acl` made for the given `Acl`s. -/
def GrantedTo (u : Str) (grants : List Acl) (bindings : List Binding) : Prop :=
  ∀ b, b.principal = userPrincipal u → (b ∈ bindings ↔ ∃ a ∈ grants, Grants a b)

/-- A completed revocation leaves no binding of the user and all of the others. -/
def Revokes (t : AclTool) (u : Str) (bindings : List Binding) : Prop :=
  ∀ faults s', t.removeAllUserAcls u ⟨bindings, faults⟩ = returned s' →
    (∀ b ∈ s'.bindings, b.principal ≠ userPrincipal u) ∧
      SameExcept (userPrincipal u) bindings s'.bindings

/-- A binding whose entry names its operation where it is printed. -/
structure Binding.Clear (b : Binding) : Prop extends b.Shown where
  operation_principal : ¬ Key.operation <:+: b.principal
  operation_field : field b.operation = none → ¬ Key.operation <:+: b.operation

/-- The parser reads the entry as one of another user than `u`. -/
def Binding.OfOther (b : Binding) (u : Str) : Prop :=
  ∃ user v, b.principal = userPrincipal user ∧ field user = some v ∧ v ≠ u

/-- The parser reads no user in the entry and takes it for one of the user before it. That
does no harm where a removal of the resource would ask for the resource as it is listed. -/
structure Binding.OfNobody (b : Binding) : Prop extends b.Clear where
  unnamed : ∀ user, b.principal = userPrincipal user → field user = none
  user_principal : ¬ Key.user <:+: b.principal
  user_operation : ¬ Key.user <:+: b.operation
  values : Value b.operation ∧ Value b.name
  encoded : ∃ pt, encodeResource b.resourceType.text b.name = some (b.resourceType, b.name, pt)

/-- The listing shows the binding of another principal, and not as one of `u`, unless it is
harmless there. -/
structure Binding.Apart (b : Binding) (u : Str) : Prop where
  principal : b.principal ≠ userPrincipal u
  shown : b.Shown
  reader : b.OfOther u ∨ b.OfNobody

/-- A binding of `u` on a topic or a group that the parser is not misled by. -/
structure Binding.Own (b : Binding) (u : Str) : Prop where
  principal : b.principal = userPrincipal u
  words : SpaceFree u ∧ SpaceFree b.operation ∧ SpaceFree b.name
  kind : b.resourceType = .topic ∨ b.resourceType = .group
  clear : b.Clear

/-- An entry of `u` without a name of its own gets one of a line before it, which is a word. -/
def NamesKept (u : Str) (bindings : List Binding) : Prop :=
  (∀ b ∈ bindings, SpaceFree b.name) ∨
    ∀ b ∈ bindings, b.principal = userPrincipal u → field b.name ≠ none

/-- A store whose listing tells the bindings of `u` from all others. -/
structure Orderly (u : Str) (bindings : List Binding) : Prop where
  told : ∀ b ∈ bindings, b.Own u ∨ b.Apart u
  names : NamesKept u bindings

/-- A binding that survives the way through the listing: no comma in its
strings, and a stored name that is encoded to itself. -/
structure Revocable (u : Str) (b : Binding) : Prop where
  user : u ≠ [] ∧ ',' ∉ u
  operation : b.operation ≠ [] ∧ ',' ∉ b.operation
  name : b.name ≠ [] ∧ ',' ∉ b.name
  encoded : encodeResource b.resourceType.text b.name =
    some (b.resourceType, b.name, b.patternType)

/-! ## What `add_acl` grants -/

theorem optionValues_spaceFree {opt v : Str} {argv : List Str} (hargv : ∀ w ∈ argv, SpaceFree w)
    (h : v ∈ optionValues opt argv) : SpaceFree v := by
  obtain ⟨w, hw, hd⟩ := List.mem_filterMap.mp h
  have hsplit := hargv w hw
  rw [dropPrefix?_suffix hd] at hsplit
  exact (spaceFree_append.mp hsplit).2

theorem request_mem {argv : List Str} (hargv : ∀ w ∈ argv, SpaceFree w) {bs : List Binding}
    (h : request argv = some bs) {b : Binding} (hb : b ∈ bs) :
    SpaceFree b.principal ∧ SpaceFree b.operation ∧ SpaceFree b.name ∧
      (b.resourceType = .topic ∨ b.resourceType = .group) := by
  unfold request at h
  simp only at h
  split at h
  · obtain ⟨pattern, _, rfl⟩ := Option.map_eq_some_iff.mp h
    simp only [List.mem_flatMap, List.mem_map, List.mem_append] at hb
    obtain ⟨principal, hp, operation, ho, r, hr, rfl⟩ := hb
    refine ⟨optionValues_spaceFree hargv hp, optionValues_spaceFree hargv ho, ?_⟩
    rcases hr with ⟨n, hn, rfl⟩ | ⟨n, hn, rfl⟩
    · exact ⟨optionValues_spaceFree hargv hn, .inl rfl⟩
    · exact ⟨optionValues_spaceFree hargv hn, .inr rfl⟩
  · cases h

theorem aclArgv_spaceFree {action : AclAction} {site : Site} {opts : List Str} {a : Acl} {w : Str}
    (h : w ∈ aclArgv action site opts a) : SpaceFree w := by
  simp only [aclArgv, runBinCommand] at h
  exact (mem_split h).2

/-- Whatever the strings of an `Acl` hold, what it grants is made of words. -/
theorem Grants.words {a : Acl} {b : Binding} (h : Grants a b) :
    SpaceFree b.principal ∧ SpaceFree b.operation ∧ SpaceFree b.name ∧
      (b.resourceType = .topic ∨ b.resourceType = .group) := by
  obtain ⟨site, opts, bs, hreq, hb⟩ := h
  have hargv : ∀ w ∈ aclArgv .add site opts a, SpaceFree w := fun w hw => aclArgv_spaceFree hw
  unfold aclRequest at hreq
  generalize aclArgv .add site opts a = argv at hreq hargv
  by_cases hask : asksFor .add argv = true
  · simp only [hask, if_true] at hreq
    exact request_mem hargv hreq hb
  · simp [hask] at hreq

theorem encodeResource_topic (n : Str) : encodeResource topicText n =
    if isStarTopic n then some (.topic, n.dropLast, .prefixed) else some (.topic, n, .literal) := by
  unfold encodeResource
  rw [if_pos rfl]

theorem encodeResource_group (n : Str) :
    encodeResource groupText n = some (.group, n, .prefixed) := by
  have hne : groupText ≠ topicText := by decide
  unfold encodeResource
  rw [if_neg hne, if_pos rfl]

theorem encodeResource_type {rt : ResourceType} (hrt : rt = .topic ∨ rt = .group) (n : Str) :
    ∃ n' pt, encodeResource rt.text n = some (rt, n', pt) ∧
      (n' = n ∨ (rt = .topic ∧ n = n' ++ ['*'] ∧ 3 ≤ n'.length ∧ pt = .prefixed)) := by
  rcases hrt with rfl | rfl
  · rw [ResourceType.text, encodeResource_topic]
    by_cases hs : isStarTopic n = true
    · obtain ⟨p, hp, hl⟩ := isStarTopic_iff.mp hs
      refine ⟨p, .prefixed, ?_, .inr ⟨rfl, hp, hl, rfl⟩⟩
      rw [if_pos hs, hp, List.dropLast_concat]
    · exact ⟨n, .literal, if_neg hs, .inl rfl⟩
  · exact ⟨n, .prefixed, encodeResource_group n, .inl rfl⟩

/-! ## The way through the listing -/

theorem encodeResource_cases {rt n : Str} {r : ResourceType × Str × PatternType}
    (h : encodeResource rt n = some r) :
    (rt = topicText ∧ ∃ p, n = p ++ ['*'] ∧ r = (.topic, p, .prefixed)) ∨
      (rt = topicText ∧ isStarTopic n = false ∧ r = (.topic, n, .literal)) ∨
      rt = groupText ∧ r = (.group, n, .prefixed) := by
  unfold encodeResource at h
  split at h
  · rename_i ht
    split at h
    · rename_i hs
      obtain ⟨p, hp, _⟩ := isStarTopic_iff.mp hs
      rw [hp, List.dropLast_concat] at h
      exact .inl ⟨ht, p, hp, (Option.some.inj h).symm⟩
    · rename_i hs
      exact .inr (.inl ⟨ht, by simpa using hs, (Option.some.inj h).symm⟩)
  · split at h
    · rename_i hg
      exact .inr (.inr ⟨hg, (Option.some.inj h).symm⟩)
    · cases h

theorem encodeResource_text {rt n n' : Str} {r : ResourceType} {pt : PatternType}
    (h : encodeResource rt n = some (r, n', pt)) : rt = r.text := by
  obtain ⟨rfl, _, _, heq⟩ | ⟨rfl, _, heq⟩ | ⟨rfl, heq⟩ := encodeResource_cases h
  · cases heq
    rfl
  · cases heq
    rfl
  · cases heq
    rfl

theorem Orderly.own {u : Str} {bindings : List Binding} (h : Orderly u bindings) {b : Binding}
    (hb : b ∈ bindings) (hu : b.principal = userPrincipal u) : b.Own u := by
  rcases h.told b hb with hown | hapart
  · exact hown
  · exact absurd hu hapart.principal

theorem Orderly.subset {u : Str} {bindings part : List Binding} (h : Orderly u bindings)
    (hsub : ∀ b ∈ part, b ∈ bindings) : Orderly u part where
  told b hb := h.told b (hsub b hb)
  names := h.names.imp (fun hn b hb => hn b (hsub b hb)) fun hn b hb => hn b (hsub b hb)

theorem Orderly.shown {u : Str} {bindings : List Binding} (h : Orderly u bindings) :
    ∀ b ∈ bindings, b.Shown := by
  intro b hb
  rcases h.told b hb with hown | hapart
  · exact hown.clear.toShown
  · exact hapart.shown

section Entries

variable (l : Layout) {b : Binding}

theorem userOf_user {user v : Str} (hp : b.principal = userPrincipal user)
    (hv : field user = some v) : l.userOf b = some v := by
  rw [Layout.userOf, Layout.bindingLine, hp]
  exact capture_principalFields_user l.entryMargin_spaces hv

theorem userOf_nobody (h : b.OfNobody) : l.userOf b = none :=
  capture_principalFields_none l.entryMargin_spaces l.no_comma_trail h.unnamed h.user_principal
    h.user_operation

theorem operationOf_clear (h : b.Clear) : l.operationOf b = field b.operation :=
  capture_principalFields_operation l.entryMargin_spaces l.no_comma_trail h.operation_principal
    h.operation_field

end Entries

/-- What the parser carries through an orderly listing: a name that is a word, if all names
are, and the user only from an entry of the user. -/
structure Carry.Sound (c : Carry) (u : Str) (bindings : List Binding) : Prop where
  user : c.user = some u → Value u
  name : ∀ n, c.name = some n →
    n ≠ [] ∧ ',' ∉ n ∧ ((∀ b ∈ bindings, SpaceFree b.name) → SpaceFree n)

theorem Carry.Sound.atResource {c : Carry} {u : Str} {bindings : List Binding}
    (hc : c.Sound u bindings) {b : Binding} (hb : b ∈ bindings) : (c.atResource b).Sound u bindings := by
  refine ⟨hc.user, fun n hn => ?_⟩
  rcases Option.or_eq_some_iff.mp hn with hfield | ⟨_, hold⟩
  · obtain ⟨hne, hcomma, hin⟩ := field_sound hfield
    exact ⟨hne, hcomma, fun hall => (hall b hb).part hin⟩
  · exact hc.name n hold

section Reading

variable {t : AclTool} {u : Str} {bindings : List Binding} (ho : Orderly u bindings)
include ho

theorem Orderly.sound_entry (l : Layout) {c : Carry} (hc : c.Sound u bindings) {b : Binding}
    (hb : b ∈ bindings) : (c.entry l b).Sound u bindings := by
  refine ⟨fun hu => ?_, hc.name⟩
  rcases Option.or_eq_some_iff.mp hu with hread | ⟨_, hold⟩
  · rcases ho.told b hb with hown | hapart
    · obtain ⟨hne, hcomma, -⟩ := capture_sound hread
      exact ⟨hne, hcomma, hown.words.1⟩
    · rcases hapart.reader with ⟨user, v, hp, hv, hne⟩ | hnobody
      · rw [userOf_user l hp hv] at hread
        exact absurd (Option.some.inj hread) hne
      · rw [userOf_nobody l hnobody] at hread
        cases hread
  · exact hc.user hold

/-- The name of an entry of the user is a word. -/
theorem Orderly.name_spaceFree {c : Carry} (hc : c.Sound u bindings) {b : Binding}
    (hb : b ∈ bindings) (hown : b.Own u) (hn : ∀ n, field b.name = some n → c.name = some n)
    {n : Str} (h : c.name = some n) : SpaceFree n := by
  rcases ho.names with hall | hnamed
  · exact (hc.name n h).2.2 hall
  · obtain ⟨v, hv⟩ := Option.ne_none_iff_exists'.mp (hnamed b hb hown.principal)
    obtain rfl : n = v := Option.some.inj (h.symm.trans (hn v hv))
    exact hown.words.2.2.part (field_sound hv).2.2

/-- What is taken for the user's comes from a binding of the user, or from one that is
encoded as it is listed. -/
theorem currentUserAcls_source {a : Acl} (ha : a ∈ t.currentUserAcls u bindings) :
    (Value a.resourceName ∧ Value a.username ∧ Value a.operation) ∧ a.username = u ∧
      ((∃ b ∈ bindings, b.Own u ∧ ComesFrom a b) ∨
        ∃ r pt, encodeResource a.resourceType a.resourceName = some (r, a.resourceName, pt)) := by
  have hprinted : ∀ b, b ∈ (t.blocks bindings).flatMap Block.bindings ↔ b ∈ bindings :=
    t.prints bindings
  have hshown : ∀ b ∈ (t.blocks bindings).flatMap Block.bindings, b.Shown :=
    fun b hb => ho.shown b ((hprinted b).mp hb)
  obtain ⟨hparsed, hname⟩ := List.mem_filter.mp ha
  obtain rfl : a.username = u := by simpa using hname
  rw [AclTool.aclsFromCluster, parseAcls_text t.layout hshown] at hparsed
  obtain ⟨b, hb, c, hc, ht, hn, hacl⟩ := blocks_parsed t.layout hshown
    (I := fun c => c.Sound a.username bindings)
    (fun b hb c hc => hc.atResource ((hprinted b).mp hb))
    (fun b hb c hc => ho.sound_entry t.layout hc ((hprinted b).mp hb))
    ⟨by simp [Carry.empty], by simp [Carry.empty]⟩ a hparsed
  have hin := (hprinted b).mp hb
  obtain ⟨h1, h2, h3, h4⟩ := acl_eq_some hacl
  have huser := (ho.sound_entry t.layout hc hin).user h3
  have htype : a.resourceType = b.resourceType.text := Option.some.inj (h1.symm.trans ht)
  rcases ho.told b hin with hown | hapart
  · rw [operationOf_clear t.layout hown.clear] at h4
    obtain ⟨hne, hcomma, -⟩ := hc.name _ h2
    refine ⟨⟨⟨hne, hcomma, ho.name_spaceFree hc hin hown hn h2⟩, huser,
      value_of_field h4 hown.words.2.1⟩, rfl, .inl ⟨b, hin, hown, htype, h4, ?_, ?_⟩⟩
    · intro n hfield
      exact Option.some.inj (h2.symm.trans (hn n hfield))
    · intro user v hp hv
      rw [Carry.entry, userOf_user t.layout hp hv, Option.some_or] at h3
      exact (Option.some.inj h3).symm
  · rcases hapart.reader with ⟨user, v, hp, hv, hne⟩ | hnobody
    · rw [Carry.entry, userOf_user t.layout hp hv, Option.some_or] at h3
      exact absurd (Option.some.inj h3) hne
    · obtain ⟨hop, hvalue⟩ := hnobody.values
      rw [operationOf_clear t.layout hnobody.toClear, hop.field_eq] at h4
      have hoperation : b.operation = a.operation := Option.some.inj h4
      have hfull : b.name = a.resourceName :=
        Option.some.inj ((hn _ hvalue.field_eq).symm.trans h2)
      obtain ⟨pt, henc⟩ := hnobody.encoded
      refine ⟨⟨hfull ▸ hvalue, huser, hoperation ▸ hop⟩, rfl, .inr ⟨b.resourceType, pt, ?_⟩⟩
      rw [htype, ← hfull]
      exact henc

/-- Every removal is about one binding of the user, whose name is the listed one or what is
left of it without its star. -/
theorem currentUserAcls_binding {a : Acl} (ha : a ∈ t.currentUserAcls u bindings) :
    a.Words ∧ ∃ r n pt, a.binding = some ⟨userPrincipal u, a.operation, r, n, pt⟩ ∧
      encodeResource a.resourceType a.resourceName = some (r, n, pt) ∧
      (n = a.resourceName ∨ (r = .topic ∧ a.resourceName = n ++ ['*'] ∧ 3 ≤ n.length)) := by
  obtain ⟨⟨hn, hun, hop⟩, hu, hsource⟩ := currentUserAcls_source ho ha
  have hbinding {r n pt} (h : encodeResource a.resourceType a.resourceName = some (r, n, pt)) :
      a.binding = some ⟨userPrincipal u, a.operation, r, n, pt⟩ := by
    rw [Acl.binding, h, hu]
    rfl
  refine ⟨words_of_value hn hun hop, ?_⟩
  rcases hsource with ⟨b, hb, hown, hfrom⟩ | ⟨r, pt, henc⟩
  · obtain ⟨n, pt, henc, hcases⟩ := encodeResource_type hown.kind a.resourceName
    rw [← hfrom.resourceType] at henc
    refine ⟨_, n, pt, hbinding henc, henc, hcases.imp id ?_⟩
    rintro ⟨htopic, hstar, hlen, -⟩
    exact ⟨htopic, hstar, hlen⟩
  · exact ⟨r, _, pt, hbinding henc, henc, .inl rfl⟩

theorem currentUserAcls_spaceFree {a : Acl} (ha : a ∈ t.currentUserAcls u bindings) : a.Words :=
  (currentUserAcls_binding ho ha).1

/-- Without failing commands the revocation comes to its end. -/
theorem removeAllUserAcls_returns : ∃ s', t.removeAllUserAcls u ⟨bindings, []⟩ = returned s' := by
  unfold AclTool.removeAllUserAcls
  rw [exec_of_no_fault rfl, returned_andThen]
  refine removeAcls_returns t ?_ rfl
  intro a ha
  obtain ⟨hw, _, _, _, hbind, _⟩ := currentUserAcls_binding ho ((t.order.mem_list _ a).mp ha)
  exact ⟨hw, by simp [hbind]⟩

theorem mem_removeAllUserAcls {faults : List Bool} {s' : AclStore}
    (h : t.removeAllUserAcls u ⟨bindings, faults⟩ = returned s') (b : Binding) :
    b ∈ s'.bindings ↔
      b ∈ bindings ∧ ∀ a ∈ t.currentUserAcls u bindings, a.binding ≠ some b := by
  obtain ⟨m, hm, hrest⟩ := andThen_eq_returned h
  have hw : ∀ a ∈ t.order.list (t.currentUserAcls u bindings), a.Words :=
    fun a ha => currentUserAcls_spaceFree ho ((t.order.mem_list _ a).mp ha)
  rw [mem_removeAcls t hw hrest b, (exec_eq_returned hm).1]
  simp only [t.order.mem_list]

/-- A binding of the user that can be read back is found. -/
theorem mem_currentUserAcls_of_own {b : Binding} (hb : b ∈ bindings)
    (hu : b.principal = userPrincipal u) (hr : Revocable u b) :
    (⟨b.name, b.resourceType.text, b.operation, u⟩ : Acl) ∈ t.currentUserAcls u bindings := by
  have hin := (t.prints bindings b).mpr hb
  have hshown : ∀ b ∈ (t.blocks bindings).flatMap Block.bindings, b.Shown :=
    fun b hb => ho.shown b ((t.prints bindings b).mp hb)
  apply List.mem_filter.mpr
  refine ⟨?_, by simp⟩
  rw [AclTool.aclsFromCluster, parseAcls_text t.layout hshown]
  apply blocks_found t.layout hshown .empty hin rfl (field_eq_self hr.name.1 hr.name.2)
  · exact userOf_user t.layout hu (field_eq_self hr.user.1 hr.user.2)
  · rw [operationOf_clear t.layout (ho.own hb hu).clear]
    exact field_eq_self hr.operation.1 hr.operation.2

/-- A revocable binding does not outlive the revocation. -/
theorem revocable_removed {faults : List Bool} {s' : AclStore}
    (h : t.removeAllUserAcls u ⟨bindings, faults⟩ = returned s') {b : Binding}
    (hu : b.principal = userPrincipal u) (hr : Revocable u b) : b ∉ s'.bindings := by
  intro hb
  obtain ⟨hin, hno⟩ := (mem_removeAllUserAcls ho h b).mp hb
  apply hno _ (mem_currentUserAcls_of_own ho hin hu hr)
  simp only [Acl.binding, hr.encoded, Option.map_some, ← hu]

/-- The revocation leaves the other principals alone. -/
theorem Orderly.removeAllUserAcls_frame (faults : List Bool) :
    SameExcept (userPrincipal u) bindings
      (t.removeAllUserAcls u ⟨bindings, faults⟩).state.bindings :=
  removeAllUserAcls_frame_of_words t u (s := ⟨bindings, faults⟩)
    fun _ ha => currentUserAcls_spaceFree ho ha

end Reading

/-! ## Covered bindings

The bindings of a user are all revocable as soon as each of them is covered:
encoded from an `Acl` that was read from a store with no more than these. -/

/-- Some revocation on a part of the store removes the binding. -/
def Covered (t : AclTool) (u : Str) (bindings : List Binding) (b : Binding) : Prop :=
  ∃ part, Orderly u part ∧ (∀ c ∈ part, c.principal = userPrincipal u → c ∈ bindings) ∧
    ∃ a ∈ t.currentUserAcls u part, a.binding = some b

section Covering

variable {t : AclTool} {u : Str} {bindings : List Binding}
  (hcov : ∀ b ∈ bindings, b.principal = userPrincipal u → Covered t u bindings b)
include hcov

theorem covered_values {b : Binding} (hb : b ∈ bindings) (hu : b.principal = userPrincipal u) :
    Value u ∧ Value b.operation ∧ Value b.name := by
  obtain ⟨part, ho, _, a, ha, hbind⟩ := hcov b hb hu
  obtain ⟨⟨hn, hun, hop⟩, hau, _⟩ := currentUserAcls_source ho ha
  obtain ⟨_, r, n, pt, hbind', _, hcases⟩ := currentUserAcls_binding ho ha
  rw [hbind, Option.some.injEq] at hbind'
  subst hbind'
  refine ⟨hau ▸ hun, hop, ?_⟩
  rcases hcases with rfl | ⟨_, hstar, hlen⟩
  · exact hn
  · rw [hstar] at hn
    refine ⟨?_, fun hc => hn.2.1 (List.mem_append_left _ hc), (spaceFree_append.mp hn.2.2).1⟩
    rintro rfl
    exact absurd hlen (by decide)

/-- The `Acl` that covers a binding is encoded as it is listed, or it carries the stored name
of a binding of the user, so a prefixed topic is covered by a longer stored name only. -/
theorem covered_step {b : Binding} (hb : b ∈ bindings) (hu : b.principal = userPrincipal u) :
    encodeResource b.resourceType.text b.name = some (b.resourceType, b.name, b.patternType) ∨
      ∃ b' ∈ bindings, b'.principal = userPrincipal u ∧ isStarTopic b'.name = true ∧
        b'.resourceType = .topic ∧ b.name.length < b'.name.length := by
  obtain ⟨part, ho, hpart, a, ha, hbind⟩ := hcov b hb hu
  obtain ⟨_, r, n, pt, hbind', henc, hcases⟩ := currentUserAcls_binding ho ha
  rw [hbind, Option.some.injEq] at hbind'
  subst hbind'
  have htype := encodeResource_text henc
  rcases hcases with rfl | ⟨htopic, hstar, hlen⟩
  · left
    rw [← htype]
    exact henc
  · right
    obtain ⟨_, _, hsource⟩ := currentUserAcls_source ho ha
    rcases hsource with ⟨b', hb', hown, hfrom⟩ | ⟨r', pt', henc'⟩
    · have hin := hpart b' hb' hown.principal
      obtain ⟨_, _, hv⟩ := covered_values hcov hin hown.principal
      have hname : a.resourceName = b'.name := hfrom.name _ hv.field_eq
      rw [hname] at hstar
      have htopic' : b'.resourceType = .topic := by
        have htexts : b'.resourceType.text = topicText := by
          rw [← hfrom.resourceType, htype, htopic]
          rfl
        cases hkind : b'.resourceType with
        | topic => rfl
        | group | cluster | transactionalId | delegationToken | user =>
          rw [hkind] at htexts
          exact absurd htexts (by decide)
      refine ⟨b', hin, hown.principal, isStarTopic_iff.mpr ⟨n, hstar, hlen⟩, htopic', ?_⟩
      rw [hstar]
      simp
    · rw [henc] at henc'
      have hsame := congrArg (fun r => r.2.1) (Option.some.inj henc')
      have hlength := congrArg List.length (hsame.trans hstar)
      simp at hlength

/-- A stored topic name that looks like a prefix is covered by no binding: the
one that covers it would be longer and look like a prefix as well. -/
theorem covered_no_star {b : Binding} (hb : b ∈ bindings) (hu : b.principal = userPrincipal u)
    (htopic : b.resourceType = .topic) : isStarTopic b.name = false := by
  have hmem : ∀ {b : Binding}, b ∈ bindings →
      b.name.length ∈ bindings.map fun b => b.name.length :=
    fun hb => List.mem_map.mpr ⟨_, hb, rfl⟩
  obtain ⟨bound, hbound⟩ : ∃ bound, ∀ b ∈ bindings, b.name.length ≤ bound :=
    ⟨(bindings.map fun b => b.name.length).max (List.ne_nil_of_mem (hmem hb)),
      fun b hb => List.le_max_of_mem (hmem hb)⟩
  by_contra hstar
  have hstar' : isStarTopic b.name = true := by simpa using hstar
  -- the distance to the longest name shrinks with each covering binding
  induction hd : bound - b.name.length using Nat.strong_induction_on generalizing b with
  | _ d ih =>
    rcases covered_step hcov hb hu with henc | ⟨b', hb', hu', hs', ht', hlt⟩
    · rw [htopic, ResourceType.text, encodeResource_topic, if_pos hstar', Option.some.injEq] at henc
      obtain ⟨p, hp, _⟩ := isStarTopic_iff.mp hstar'
      have hlen := congrArg (fun r => r.2.1.length) henc
      simp only [hp, List.dropLast_concat, List.length_append, List.length_singleton] at hlen
      omega
    · have hle := hbound b' hb'
      have hle' := hbound b hb
      exact ih (bound - b'.name.length) (by omega) hb' hu' ht' (by simp [hs']) hs' rfl

theorem covered_revocable {b : Binding} (hb : b ∈ bindings) (hu : b.principal = userPrincipal u) :
    Revocable u b := by
  obtain ⟨hvu, hvo, hvn⟩ := covered_values hcov hb hu
  refine ⟨⟨hvu.1, hvu.2.1⟩, ⟨hvo.1, hvo.2.1⟩, ⟨hvn.1, hvn.2.1⟩, ?_⟩
  rcases covered_step hcov hb hu with henc | ⟨b', hb', hu', hs', ht', _⟩
  · exact henc
  · rw [covered_no_star hcov hb' hu' ht'] at hs'
    cases hs'

end Covering

theorem revokes_iff_revocable (t : AclTool) {u : Str} {bindings : List Binding}
    (ho : Orderly u bindings) :
    Revokes t u bindings ↔
      ∀ b ∈ bindings, b.principal = userPrincipal u → Revocable u b := by
  constructor
  · intro h b hb hu
    obtain ⟨s', hret⟩ := removeAllUserAcls_returns (t := t) ho
    refine covered_revocable (t := t) ?_ hb hu
    intro c hc hcu
    have hgone : c ∉ s'.bindings := fun hin => (h [] s' hret).1 c hin hcu
    rw [mem_removeAllUserAcls ho hret c] at hgone
    by_contra hno
    refine hgone ⟨hc, fun a ha hbind => hno ⟨bindings, ho, fun _ hd _ => hd, a, ha, hbind⟩⟩
  · intro h faults s' hret
    constructor
    · intro b hb hu
      have hin := ((mem_removeAllUserAcls ho hret b).mp hb).1
      exact revocable_removed ho hret hu (h b hin hu) hb
    · have hframe := ho.removeAllUserAcls_frame (t := t) faults
      rw [hret] at hframe
      exact hframe

/-- A store that holds what `add_acl` granted to the user, all of it read as it is printed,
and bindings of others that keep apart. -/
theorem GrantedTo.orderly {u : Str} {grants : List Acl} {bindings : List Binding}
    (hgrant : GrantedTo u grants bindings)
    (hclear : ∀ b ∈ bindings, b.principal = userPrincipal u → b.Clear)
    (hothers : ∀ b ∈ bindings, b.principal ≠ userPrincipal u → b.Apart u)
    (hnames : NamesKept u bindings) : Orderly u bindings := by
  refine ⟨fun b hb => ?_, hnames⟩
  by_cases hu : b.principal = userPrincipal u
  · left
    obtain ⟨a, _, hgr⟩ := (hgrant b hu).mp hb
    obtain ⟨hp, hop, hn, hrt⟩ := hgr.words
    rw [hu, userPrincipal_spaceFree_iff] at hp
    exact ⟨hu, ⟨hp, hop, hn⟩, hrt, hclear b hb hu⟩
  · exact .inr (hothers b hb hu)

def singleBlock (b : Binding) : Block :=
  ⟨b.resourceType, b.name, b.patternType, [(b.principal, b.operation)], by simp⟩

theorem prints_singleBlocks (acls : List Binding) : Prints (acls.map singleBlock) acls := by
  intro b
  simp only [List.mem_flatMap, List.mem_map, exists_exists_and_eq_and]
  constructor
  · rintro ⟨c, hc, hb⟩
    obtain rfl : b = c := by simpa [Block.bindings, Block.binding, singleBlock] using hb
    exact hc
  · intro hb
    exact ⟨b, hb, by simp [Block.bindings, Block.binding, singleBlock]⟩

def singleTool : AclTool where
  site := ⟨.kafka, some [0]⟩
  opts := []
  layout := ⟨[], "\t", [], [[]], by simp, List.all_eq_true.mp (by decide), by simp, by simp⟩
  blocks acls := acls.map singleBlock
  prints := prints_singleBlocks
  order := .given

theorem grants_iff {a : Acl} (hw : a.Words) (b : Binding) : Grants a b ↔ a.binding = some b := by
  unfold Grants
  simp only [aclRequest_of_words .add _ _ hw, Option.map_eq_some_iff]
  constructor
  · rintro ⟨_, _, bs, ⟨c, hc, rfl⟩, hb⟩
    rw [List.mem_singleton.mp hb]
    exact hc
  · intro hb
    exact ⟨singleTool.site, [], [b], ⟨b, hb, rfl⟩, by simp⟩

/-- The ACLs of others: of another client, of a name with white space, of a group. -/
def otherAcls : List Binding :=
  [⟨userPrincipal "relation-8", "READ", .group, "relation-8-", .prefixed⟩,
   ⟨userPrincipal "CN=Alice Smith", "READ", .group, "night shift", .literal⟩,
   ⟨"Group:operators", "DESCRIBE", .topic, "orders", .literal⟩]

theorem otherAcls_apart : ∀ b ∈ otherAcls, b.Apart "relation-7" := by
  simp only [otherAcls, List.forall_mem_cons, List.not_mem_nil, false_implies, implies_true, and_true]
  refine ⟨⟨by decide, by decide, .inl ⟨"relation-8", "relation-8", rfl, by decide, by decide⟩⟩,
    ⟨by decide, by decide, .inl ⟨"CN=Alice Smith", "CN=Alice Smith", rfl, by decide, by decide⟩⟩,
    ⟨by decide, by decide, .inr ⟨⟨by decide, by decide, by decide⟩, ?_, by decide, by decide,
      by decide, .literal, by decide⟩⟩⟩
  intro user h
  have hkind : (userPrincipal user).take 5 = ("User:" : Str) := rfl
  rw [← h] at hkind
  exact absurd hkind (by decide)

end KafkaCharm
