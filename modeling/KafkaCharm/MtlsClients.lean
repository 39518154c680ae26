import KafkaCharm.AclUpdate
import KafkaCharm.Lib.Runs
import KafkaCharm.Provider

namespace KafkaCharm

open PyText Fallible Outcome

/-- The cluster's ACLs, the clients that the event under way has yet to come to, and the
clients whose round has been completed. -/
structure MtlsState where
  acls : AclStore
  pending : List MtlsClient
  granted : List MtlsClient
  deriving DecidableEq

/-- The event of a relation begins, with its clients in any order, or its loop goes on. -/
inductive MtlsEvent where
  | certUpdated (clients : List MtlsClient) (faults : List Bool)
  | round

section Machine

variable (t : AclTool) (rules : List MappingRule)

/-- What `on_mtls_cert_updated` does for a client that is mapped to `certPrincipal`. -/
def grantClient (client : MtlsClient) (certPrincipal : Str) (acls : AclStore) : Outcome AclStore :=
  (t.removeAllUserAcls client.username acls).andThen (t.updateUserAcls certPrincipal client.needs)

/-- One event of the run. The hook ends at a client without a usable certificate or a
matching rule, and when a command raises. -/
def mtlsStep (s : MtlsState) : MtlsEvent → Option MtlsState
  | .certUpdated clients faults =>
    if s.pending = [] then some { s with acls := ⟨s.acls.bindings, faults⟩, pending := clients }
    else none
  | .round =>
    match s.pending with
    | [] => none
    | client :: rest =>
      if client.usable then
        match getName rules client.distinguishedName with
        | none => some { s with pending := [] }
        | some certPrincipal =>
          match grantClient t client certPrincipal s.acls with
          | returned acls => some ⟨acls, rest, client :: s.granted⟩
          | raised acls => some ⟨acls, [], s.granted⟩
      else some { s with pending := [] }

end Machine

/-! ## The condition on a round -/

/-- The listing may show the `Acl`. -/
def Shown (bindings : List Binding) (a : Acl) : Prop := ∃ b ∈ bindings, ComesFrom a b

/-- The strings of the `Acl` reach the cluster and the listing intact. -/
structure Acl.Intact (a : Acl) : Prop where
  words : a.Words
  username : KeyFree a.username
  operation : KeyFree a.operation
  name : KeyFree a.resourceName

/-- A round that gives a client its ACLs under the name `p`. -/
structure KeepsGrants (rules : List MappingRule) (s : MtlsState) (client : MtlsClient) (p : Str) :
    Prop where
  intact : ∀ a ∈ client.needs.computedUserAcls p, a.Intact
  apart : p ≠ client.username ∧
    ∀ c ∈ s.granted, getName rules c.distinguishedName ≠ some client.username
  stored : ∀ a ∈ client.needs.computedUserAcls p, Shown s.acls.bindings a →
    ∃ b ∈ s.acls.bindings, a.binding = some b
  shared : ∀ c ∈ s.granted, getName rules c.distinguishedName = some p →
    ∀ a ∈ c.needs.computedUserAcls p, Shown s.acls.bindings a →
      a ∈ client.needs.computedUserAcls p

/-- Every round that comes to a usable and mapped client keeps the grants. -/
def RoundKeepsGrants (rules : List MappingRule) (s : MtlsState) : MtlsEvent → Prop
  | .certUpdated _ _ => True
  | .round => ∀ client rest p, s.pending = client :: rest → client.usable = true →
      getName rules client.distinguishedName = some p → KeepsGrants rules s client p

/-- The client has every ACL computed for it. -/
def HasAcls (rules : List MappingRule) (bindings : List Binding) (c : MtlsClient) : Prop :=
  ∀ p, getName rules c.distinguishedName = some p →
    ∀ a ∈ c.needs.computedUserAcls p, ∃ b ∈ bindings, a.binding = some b

/-! ## One round -/

/-- The stored name is the asked one or what is left of it without its star. -/
theorem binding_readable {a : Acl} (h : a.Intact) {b : Binding} (hb : a.binding = some b) :
    b.Readable a.username := by
  obtain ⟨r, hr, rfl⟩ := Option.map_eq_some_iff.mp hb
  obtain ⟨hpart, hspace⟩ : r.2.1 <:+: a.resourceName ∧ SpaceFree a.resourceName := by
    obtain ⟨ht, p, hp, rfl⟩ | ⟨ht, _, rfl⟩ | ⟨hg, rfl⟩ := encodeResource_cases hr
    · exact ⟨hp ▸ (List.prefix_append p ['*']).isInfix, h.words.2.2 (.inl ht)⟩
    · exact ⟨List.infix_refl _, h.words.2.2 (.inl ht)⟩
    · exact ⟨List.infix_refl _, h.words.2.2 (.inr hg)⟩
  exact ⟨rfl, h.username, h.operation, fun key hkey hin => h.name key hkey (hin.trans hpart),
    h.words.1, h.words.2.1, hspace.part hpart⟩

section Round

variable {t : AclTool} {rules : List MappingRule} {s : MtlsState} {client : MtlsClient} {p : Str}

theorem grantClient_cases (t : AclTool) (client : MtlsClient) (p : Str) (acls : AclStore) :
    (∃ m, t.removeAllUserAcls client.username acls = raised m ∧
      grantClient t client p acls = raised m) ∨
      ∃ m, t.removeAllUserAcls client.username acls = returned m ∧
        grantClient t client p acls = t.updateUserAcls p client.needs m := by
  unfold grantClient
  cases t.removeAllUserAcls client.username acls with
  | returned m => exact .inr ⟨m, rfl, rfl⟩
  | raised m => exact .inl ⟨m, rfl, rfl⟩

variable (hl : Legible s.acls.bindings) (hok : KeepsGrants rules s client p)
include hl

/-- Revoking under the relation's user name takes nothing from other names. -/
theorem removed_frame {m : AclStore} (h : (t.removeAllUserAcls client.username s.acls).state = m)
    {b : Binding} {q : Str} (hp : b.principal = userPrincipal q) (hq : q ≠ client.username) :
    b ∈ m.bindings ↔ b ∈ s.acls.bindings := by
  have hframe := removeAllUserAcls_frame t client.username hl b
  rw [h] at hframe
  exact hframe fun heq => hq (userPrincipal_injective (hp.symm.trans heq))

theorem removed_legible {m : AclStore} (h : (t.removeAllUserAcls client.username s.acls).state = m) :
    Legible m.bindings ∧ ∀ b ∈ m.bindings, b ∈ s.acls.bindings := by
  have hsub := removeAllUserAcls_subset t client.username s.acls
  rw [h] at hsub
  exact ⟨fun b hb => hl b (hsub b hb), hsub⟩

/-- What the listing shows later in the round it may show before. -/
theorem shown_of_current {m : AclStore}
    (h : (t.removeAllUserAcls client.username s.acls).state = m) {a : Acl}
    (ha : a ∈ t.currentUserAcls p m.bindings) : Shown s.acls.bindings a := by
  obtain ⟨hlm, hsub⟩ := removed_legible hl h
  obtain ⟨_, _, b, hb, hfrom⟩ := currentUserAcls_sound t hlm ha
  exact ⟨b, hsub b hb, hfrom⟩

include hok

theorem grantClient_legible : Legible (grantClient t client p s.acls).state.bindings := by
  obtain ⟨m, hm, heq⟩ | ⟨m, hm, heq⟩ := grantClient_cases t client p s.acls
  · rw [heq]
    exact (removed_legible hl (by rw [hm, state_raised])).1
  · rw [heq]
    have hstate : (t.removeAllUserAcls client.username s.acls).state = m := by
      rw [hm, state_returned]
    obtain ⟨hlm, _⟩ := removed_legible hl hstate
    intro b hb
    rcases updateUserAcls_subset t p (fun a ha => (hok.intact a ha).words) m b hb with hb | ⟨a, ha, hab⟩
    · exact hlm b hb
    · exact ⟨a.username, binding_readable (hok.intact a ha) hab⟩

/-- The clients that have their ACLs keep them, also when the round raises. -/
theorem grantClient_keeps {c : MtlsClient} (hc : c ∈ s.granted)
    (hacls : HasAcls rules s.acls.bindings c) :
    HasAcls rules (grantClient t client p s.acls).state.bindings c := by
  intro q hq a ha
  obtain ⟨b, hb, hab⟩ := hacls q hq a ha
  refine ⟨b, ?_, hab⟩
  have hbq : b.principal = userPrincipal q := computedUserAcls_username ha ▸ binding_principal hab
  have hne : q ≠ client.username := fun heq => hok.apart.2 c hc (heq ▸ hq)
  obtain ⟨m, hm, heq⟩ | ⟨m, hm, heq⟩ := grantClient_cases t client p s.acls
  · rw [heq]
    exact (removed_frame hl (by rw [hm, state_raised]) hbq hne).mpr hb
  · rw [heq]
    have hstate : (t.removeAllUserAcls client.username s.acls).state = m := by
      rw [hm, state_returned]
    obtain ⟨hlm, _⟩ := removed_legible hl hstate
    refine updateUserAcls_keeps hlm ((removed_frame hl hstate hbq hne).mpr hb) fun a' ha' hab' => ?_
    obtain rfl := binding_injective hab' hab
    obtain ⟨hcurrent, hnot⟩ := List.mem_filter.mp ha'
    -- the listing took it for one of `p`, so the two names are the same
    have hqp : q = p := by
      rw [← computedUserAcls_username ha, (currentUserAcls_words t hlm hcurrent).2]
    subst hqp
    have hmem := hok.shared c hc hq a' ha (shown_of_current hl hstate hcurrent)
    exact absurd hmem (by simpa using hnot)

/-- A completed round gives the client its ACLs. -/
theorem grantClient_grants (hp : getName rules client.distinguishedName = some p)
    {acls : AclStore} (h : grantClient t client p s.acls = returned acls) :
    HasAcls rules acls.bindings client := by
  intro q hq a ha
  obtain rfl : p = q := Option.some.inj (hp.symm.trans hq)
  obtain ⟨m, hm, hupdate⟩ := andThen_eq_returned h
  have hstate : (t.removeAllUserAcls client.username s.acls).state = m := by
    rw [hm, state_returned]
  obtain ⟨hlm, _⟩ := removed_legible hl hstate
  have hw (a : Acl) (ha : a ∈ client.needs.computedUserAcls p) := (hok.intact a ha).words
  by_cases hcurrent : a ∈ t.currentUserAcls p m.bindings
  · obtain ⟨b, hb, hab⟩ := hok.stored a ha (shown_of_current hl hstate hcurrent)
    have hbp : b.principal = userPrincipal p :=
      computedUserAcls_username ha ▸ binding_principal hab
    have hbm := (removed_frame hl hstate hbp hok.apart.1).mpr hb
    exact ⟨b, (mem_updateUserAcls hlm hw hupdate b).mpr
      ⟨.inl hbm, fun a' ha' => aclsToRemove_spares ha hab ha'⟩, hab⟩
  · have hadd : a ∈ t.aclsToAdd p client.needs m.bindings :=
      List.mem_filter.mpr ⟨ha, by simpa using hcurrent⟩
    obtain ⟨b, hab⟩ := aclsToAdd_binding hw hupdate hadd
    exact ⟨b, (mem_updateUserAcls hlm hw hupdate b).mpr
      ⟨.inr ⟨a, hadd, hab⟩, fun a' ha' => aclsToRemove_spares ha hab ha'⟩, hab⟩

end Round

/-! ## Runs -/

/-- The store can be listed, and the clients whose round is completed have their ACLs. -/
structure MtlsState.Served (rules : List MappingRule) (s : MtlsState) : Prop where
  legible : Legible s.acls.bindings
  granted : ∀ c ∈ s.granted, HasAcls rules s.acls.bindings c

theorem mtlsStep_served {t : AclTool} {rules : List MappingRule} {s s' : MtlsState} {e : MtlsEvent}
    (hs : s.Served rules) (hok : RoundKeepsGrants rules s e)
    (h : mtlsStep t rules s e = some s') : s'.Served rules := by
  cases e with
  | certUpdated clients faults =>
    simp only [mtlsStep] at h
    split at h
    · cases h
      exact ⟨hs.legible, hs.granted⟩
    · cases h
  | round =>
    simp only [mtlsStep] at h
    split at h
    · cases h
    rename_i client rest hpending
    split at h
    swap
    · cases h
      exact ⟨hs.legible, hs.granted⟩
    rename_i husable
    split at h
    · cases h
      exact ⟨hs.legible, hs.granted⟩
    rename_i p hp
    have hround := hok client rest p hpending husable hp
    have hlegible := grantClient_legible (t := t) hs.legible hround
    have hkeeps := fun c hc => grantClient_keeps (t := t) hs.legible hround hc (hs.granted c hc)
    split at h
    · rename_i acls hacls
      cases h
      rw [hacls] at hlegible hkeeps
      refine ⟨hlegible, fun c hc => ?_⟩
      rcases List.mem_cons.mp hc with rfl | hc
      · exact grantClient_grants hs.legible hround hp hacls
      · exact hkeeps c hc
    · rename_i acls hacls
      cases h
      rw [hacls] at hlegible hkeeps
      exact ⟨hlegible, hkeeps⟩

/-- In every run whose rounds keep the grants, the cluster holds for every client that has
been handled all the ACLs computed for it under its mapped name. -/
theorem granted_clients_keep_acls (t : AclTool) (rules : List MappingRule) {s s' : MtlsState}
    (hl : Legible s.acls.bindings) (hstart : s.granted = [])
    (h : Runs.Reaches (mtlsStep t rules) (RoundKeepsGrants rules) s s') :
    ∀ c ∈ s'.granted, HasAcls rules s'.acls.bindings c := by
  have h0 : s.Served rules := ⟨hl, by simp [hstart]⟩
  exact (h.invariant (I := MtlsState.Served rules) h0 fun _ _ _ hs hok hstep =>
    mtlsStep_served hs hok hstep).granted

/-- The handler is made of rounds: it goes through the clients of its event one by one. -/
theorem onMtlsCertUpdated_rounds (t : AclTool) (rules : List MappingRule)
    {clients : List MtlsClient} (hclients : ∀ c ∈ clients,
      c.usable = true ∧ getName rules c.distinguishedName ≠ none)
    {st st' : ProviderState} (h : onMtlsCertUpdated t rules clients st = returned st')
    (granted : List MtlsClient) :
    Runs.Reaches (mtlsStep t rules) Runs.anyStep ⟨st.acls, clients, granted⟩
      ⟨st'.acls, [], clients.reverse ++ granted⟩ := by
  induction clients generalizing st granted with
  | nil =>
    cases h
    exact .start
  | cons client clients ih =>
    obtain ⟨husable, hmapped⟩ := hclients client (by simp)
    obtain ⟨p, hp⟩ := Option.ne_none_iff_exists'.mp hmapped
    simp only [onMtlsCertUpdated, husable, if_true, hp] at h
    obtain ⟨m, hm, hrest⟩ := andThen_eq_returned h
    obtain ⟨m0, hpurge, hupdate⟩ := andThen_eq_returned hm
    have hround : grantClient t client p st.acls = returned m.acls := by
      unfold grantClient
      rw [(onAcls_eq_returned hpurge).1, returned_andThen, (onAcls_eq_returned hupdate).1]
    have hstep : mtlsStep t rules ⟨st.acls, client :: clients, granted⟩ .round =
        some ⟨m.acls, clients, client :: granted⟩ := by
      simp [mtlsStep, husable, hp, hround]
    have htail := ih (fun c hc => hclients c (by simp [hc])) hrest (client :: granted)
    rw [List.reverse_cons, List.append_assoc, List.singleton_append]
    exact (Runs.Reaches.next MtlsEvent.round .start trivial hstep).trans htail

/-! ## Two clients of one principal -/

/-- A mapping that gives every certificate the same name. -/
def oneName : List MappingRule := [.rule fun _ => some "app"]

def clientSeven : MtlsClient := ⟨"relation-7", "CN=seven", ordersProducer, true⟩
def clientEight : MtlsClient := ⟨"relation-8", "CN=eight", ⟨"payments", "producer", none, []⟩, true⟩
def clientNine : MtlsClient := ⟨"relation-9", "CN=nine", ordersProducer, true⟩

def producerBindings (topic : Str) : List Binding :=
  [⟨userPrincipal "app", "CREATE", .topic, topic, .literal⟩,
   ⟨userPrincipal "app", "WRITE", .topic, topic, .literal⟩,
   ⟨userPrincipal "app", "DESCRIBE", .topic, topic, .literal⟩]

theorem ordersProducer_intact :
    ∀ a ∈ ordersProducer.computedUserAcls "app", a.Intact := by
  intro a ha
  have hplain := computedUserAcls_plain (by decide) ordersProducer_plain ha
  exact ⟨hplain.words, hplain.user.2, hplain.operation.2, hplain.name.2⟩

/-- Two clients that ask for the same under one name both have it in the end. -/
theorem equal_clients_keep_acls : ∃ s, Runs.Reaches (mtlsStep singleTool oneName)
    (RoundKeepsGrants oneName) ⟨⟨[], []⟩, [], []⟩ s ∧ s.granted = [clientNine, clientSeven] ∧
      ∀ c ∈ s.granted, HasAcls oneName s.acls.bindings c := by
  have hseven : KeepsGrants oneName ⟨⟨[], []⟩, [clientSeven], []⟩ clientSeven "app" :=
    ⟨ordersProducer_intact, ⟨by decide, by simp⟩, fun _ _ ⟨_, hb, _⟩ => (List.not_mem_nil hb).elim,
      by simp⟩
  have hnine : KeepsGrants oneName ⟨⟨producerBindings "orders", []⟩, [clientNine], [clientSeven]⟩
      clientNine "app" := by
    have hstored : ∀ a ∈ ordersProducer.computedUserAcls "app",
        ∃ b ∈ producerBindings "orders", a.binding = some b := by decide
    have hapart : ∀ c ∈ [clientSeven],
        getName oneName c.distinguishedName ≠ some clientNine.username := by decide
    refine ⟨ordersProducer_intact, ⟨by decide, hapart⟩, fun a ha _ => hstored a ha, ?_⟩
    intro c hc _ a ha _
    obtain rfl := List.mem_singleton.mp hc
    exact ha
  have hround : mtlsStep singleTool oneName ⟨⟨[], []⟩, [clientSeven], []⟩ .round =
      some ⟨⟨producerBindings "orders", []⟩, [], [clientSeven]⟩ := by decide +kernel
  have hround' : mtlsStep singleTool oneName
      ⟨⟨producerBindings "orders", []⟩, [clientNine], [clientSeven]⟩ .round =
        some ⟨⟨producerBindings "orders", []⟩, [], [clientNine, clientSeven]⟩ := by decide +kernel
  have hrun : Runs.Reaches (mtlsStep singleTool oneName) (RoundKeepsGrants oneName)
      ⟨⟨[], []⟩, [], []⟩ ⟨⟨producerBindings "orders", []⟩, [], [clientNine, clientSeven]⟩ := by
    refine .next .round (.next (.certUpdated [clientNine] []) (.next .round
      (.next (.certUpdated [clientSeven] []) .start trivial rfl) ?_ hround) trivial rfl) ?_ hround'
    · rintro client rest p hpending _ hp
      cases hpending
      cases hp
      exact hseven
    · rintro client rest p hpending _ hp
      cases hpending
      cases hp
      exact hnine
  exact ⟨_, hrun, rfl, granted_clients_keep_acls singleTool oneName (by intro b hb; cases hb) rfl hrun⟩

/-- The event of the second client takes away what the first one was granted. -/
theorem shared_principal_revoked : ∃ s, Runs.Reaches (mtlsStep singleTool oneName) Runs.anyStep
    ⟨⟨[], []⟩, [], []⟩ s ∧ s.pending = [] ∧ s.granted = [clientEight, clientSeven] ∧
      ¬ HasAcls oneName s.acls.bindings clientSeven := by
  have hend : Runs.replay (mtlsStep singleTool oneName) Runs.anyStep ⟨⟨[], []⟩, [], []⟩
      [.certUpdated [clientSeven] [], .round, .certUpdated [clientEight] [], .round] =
        some ⟨⟨producerBindings "payments", []⟩, [], [clientEight, clientSeven]⟩ := by
    decide +kernel
  refine ⟨_, .replay _ _ _ _ hend, rfl, rfl, fun hacls => ?_⟩
  have hlost : ¬ ∀ a ∈ ordersProducer.computedUserAcls "app",
      ∃ b ∈ producerBindings "payments", a.binding = some b := by decide
  exact hlost (hacls "app" rfl)

end KafkaCharm
