import KafkaCharm.MtlsClients
import KafkaCharm.PrincipalMapping

namespace KafkaCharm

open PyText Fallible Outcome

/-- A client relation: the rounds of `on_mtls_cert_updated` for it, the users with a password
in the cluster relation data, and the ACLs it has been given so far. -/
structure RelationGrants where
  mtls : MtlsState
  stored : List Str
  given : List Binding
  broken : Bool
  deriving DecidableEq

/-- `on_mtls_cert_updated` runs for the relation, a new certificate or not; anything else
changes the ACLs of the cluster and the stored users; or the relation breaks, with the
distinguished name of the certificate in the truststore and the clients that remain. -/
inductive RelationEvent where
  | certUpdated (e : MtlsEvent)
  | elsewhere (bindings : List Binding) (stored : List Str)
  | relationBroken (distinguishedName : Str) (order : SetOrder Str) (clients : List Client)
      (faults : List Bool)

section Machine

variable (t : AclTool) (rules : List MappingRule)

/-- The client, and the name under which a round gives it its ACLs. -/
def roundGrant (s : MtlsState) : MtlsEvent → Option (MtlsClient × Str)
  | .certUpdated _ _ => none
  | .round => s.pending.head?.bind fun client =>
      if client.usable then (getName rules client.distinguishedName).map fun p => (client, p)
      else none

/-- The binding is one that `update_user_acls` asks for. -/
def asksFor? (client : MtlsClient) (p : Str) (b : Binding) : Bool :=
  (client.needs.computedUserAcls p).any fun a =>
    ((aclRequest .add t.site t.opts a).getD []).contains b

/-- The ACLs that the cluster holds for the client after a round. -/
def givenInRound (s : MtlsState) (e : MtlsEvent) (after : MtlsState) : List Binding :=
  ((roundGrant rules s e).map fun g => after.acls.bindings.filter (asksFor? t g.1 g.2)).getD []

/-- What a hook of the provider finds, and which of its commands fail. -/
def RelationGrants.provider (s : RelationGrants) (faults : List Bool) : ProviderState :=
  ⟨⟨s.mtls.acls.bindings, faults⟩, s.stored⟩

/-- One event. A hook that fails keeps nothing of the relation data and is run again. -/
def relationStep (s : RelationGrants) (e : RelationEvent) : Option RelationGrants :=
  if s.broken then none
  else
    match e with
    | .certUpdated e => (mtlsStep t rules s.mtls e).map fun m =>
        { s with mtls := m, given := s.given ++ givenInRound t rules s.mtls e m }
    | .elsewhere bindings stored =>
      some { s with mtls := { s.mtls with acls := ⟨bindings, s.mtls.acls.faults⟩ }, stored := stored }
    | .relationBroken distinguishedName order clients faults =>
      if s.mtls.pending = [] then
        match onRelationBroken t order ⟨true, true, some distinguishedName⟩ clients
            (s.provider faults) with
        | returned st =>
          some { s with mtls := { s.mtls with acls := st.acls }, stored := st.stored, broken := true }
        | raised st => some { s with mtls := { s.mtls with acls := st.acls } }
      else none

end Machine

/-- The relation breaks while the listing can be read, no client is set up under a name that
was given ACLs, and every ACL of such a name is one of the user that the certificate in the
truststore names, or of a stale client user, and survives the way through the listing. -/
structure FindsGrants (given : List Binding) (st : ProviderState) (distinguishedName : Str)
    (clients : List Client) : Prop where
  passable : Passable distinguishedName clients st
  apart : ∀ b ∈ given, ∀ c ∈ clients, c.IsSetUp st → b.principal ≠ userPrincipal c.username
  found : ∀ b ∈ given, ∀ b' ∈ st.acls.bindings, b'.principal = b.principal →
    ∃ q, b.principal = userPrincipal q ∧ (q = distinguishedName ∨ q ∈ staleUsers clients st) ∧
      Revocable q b'

/-- The condition is about the break of the relation only. -/
def BreaksFindingGrants (s : RelationGrants) : RelationEvent → Prop
  | .certUpdated _ | .elsewhere _ _ => True
  | .relationBroken distinguishedName _ clients faults =>
    FindsGrants s.given (s.provider faults) distinguishedName clients

/-- Of the principals that were given ACLs for the relation, none has an ACL when it is gone. -/
def RelationGrants.Cleared (s : RelationGrants) : Prop :=
  s.broken = true → ∀ b ∈ s.given, Gone b.principal s.mtls.acls.bindings

theorem relationStep_cleared {t : AclTool} {rules : List MappingRule} {s s' : RelationGrants}
    {e : RelationEvent} (hok : BreaksFindingGrants s e) (h : relationStep t rules s e = some s') :
    s'.Cleared := by
  unfold relationStep at h
  split at h
  · cases h
  rename_i hbroken
  cases e with
  | certUpdated e =>
    obtain ⟨m, -, rfl⟩ := Option.map_eq_some_iff.mp h
    exact fun hgone => absurd hgone hbroken
  | elsewhere bindings stored =>
    cases h
    exact fun hgone => absurd hgone hbroken
  | relationBroken distinguishedName order clients faults =>
    simp only at h
    split at h
    swap
    · cases h
    split at h
    · rename_i st hrun
      cases h
      intro _ b hb
      exact (relation_broken_revokes_iff hok.passable
        (fun c hc => hok.apart b hb c hc) hrun).mpr fun b' hb' hp => hok.found b hb b' hb' hp
    · cases h
      exact fun hgone => absurd hgone hbroken

/-- **mTLS grants are revoked** with their relation: in every run in which it breaks while the
names that were given ACLs are found under the certificate of the truststore, no ACL of any of
these names is left, and so none that was given for the relation. -/
theorem mtls_grants_revoked (t : AclTool) (rules : List MappingRule) {s s' : RelationGrants}
    (hstart : s.broken = false)
    (hrun : Runs.Reaches (relationStep t rules) BreaksFindingGrants s s') : s'.Cleared := by
  have h0 : s.Cleared := fun hgone => absurd hgone (by simp [hstart])
  exact hrun.invariant (I := RelationGrants.Cleared) h0 fun _ _ _ _ hok hstep =>
    relationStep_cleared hok hstep

/-! ## Rules that are parsed -/

/-- The function that a parsed rule computes, where it raises nothing. -/
def mappingRule (u : PyRe.Unicode) (rule : PrincipalRule) : MappingRule :=
  if rule.isDefault then .default
  else .rule fun dn => (SslPrincipalMapper.applyRule u rule dn).toOption.join

/-- **The mapping is the parsed one**: a name that a rule gives without raising is the name
that the handlers work with. -/
theorem getName_mappingRule (u : PyRe.Unicode) {rules : List PrincipalRule} {dn : Str}
    (hraise : ∀ e, SslPrincipalMapper.getName u rules dn ≠ .error (.raised e)) :
    getName (rules.map (mappingRule u)) dn = (SslPrincipalMapper.getName u rules dn).toOption := by
  induction rules with
  | nil => rfl
  | cons rule rules ih =>
    have happly : (mappingRule u rule).apply dn =
        (SslPrincipalMapper.applyRule u rule dn).toOption.join := by
      unfold mappingRule
      split
      · rename_i hdefault
        rw [SslPrincipalMapper.applyRule, if_pos hdefault]
        rfl
      · rfl
    unfold SslPrincipalMapper.getName at hraise ⊢
    rw [List.map_cons, getName, List.findSome?_cons, happly]
    cases hrule : SslPrincipalMapper.applyRule u rule dn with
    | error e =>
      rw [hrule] at hraise
      exact absurd rfl (hraise e)
    | ok name =>
      rw [hrule] at hraise
      cases name with
      | some name => rfl
      | none => exact ih hraise

/-! ## The default rules -/

def clientBinding : Binding := ⟨userPrincipal "CN=client", "WRITE", .topic, "orders", .literal⟩

/-- A client that may write to the topic. -/
def certificateClient (username distinguishedName : Str) : MtlsClient :=
  ⟨username, distinguishedName, ⟨"orders", [], none, [⟨topicText, "orders", ["WRITE"]⟩]⟩, true⟩

/-- The relation before anything has happened, and with the ACLs of its certificate. -/
def newRelation : RelationGrants := ⟨⟨⟨[], []⟩, [], []⟩, [], [], false⟩

def certificateGranted : RelationGrants :=
  ⟨⟨⟨[clientBinding], []⟩, [], [certificateClient "relation-7" "CN=client"]⟩, [], [clientBinding],
    false⟩

theorem client_binding : (Acl.mk "orders" topicText "WRITE" "CN=client").Words ∧
    (Acl.mk "orders" topicText "WRITE" "CN=client").binding = some clientBinding :=
  ⟨⟨by decide, by decide, by decide⟩, by decide⟩

theorem clientBinding_told : Told ["CN=client"] [clientBinding] := by
  intro w hw
  obtain rfl := List.mem_singleton.mp hw
  refine ⟨fun b hb => ?_, .inl (by decide)⟩
  obtain rfl := List.mem_singleton.mp hb
  exact .inl ⟨rfl, by decide, .inl rfl, by decide, by decide, by decide⟩

theorem certificate_finds_grants :
    FindsGrants [clientBinding] ⟨⟨[clientBinding], []⟩, []⟩ "CN=client" [] where
  passable := ⟨clientBinding_told, by simp⟩
  apart := by simp
  found := by
    intro b hb b' hb' _
    obtain rfl := List.mem_singleton.mp hb
    obtain rfl := List.mem_singleton.mp hb'
    exact ⟨"CN=client", rfl, .inl rfl, by decide, by decide, by decide, by decide⟩

theorem certificate_broken :
    onRelationBroken singleTool .given ⟨true, true, some "CN=client"⟩ []
      ⟨⟨[clientBinding], []⟩, []⟩ = returned ⟨⟨[], []⟩, []⟩ := by
  have hread : singleTool.currentUserAcls "CN=client" [clientBinding] =
      [⟨"orders", topicText, "WRITE", "CN=client"⟩] := by decide +kernel
  have hpurge : singleTool.removeAllUserAcls "CN=client" ⟨[clientBinding], []⟩ =
      returned ⟨[], []⟩ := by
    obtain ⟨hw, hb⟩ := client_binding
    unfold AclTool.removeAllUserAcls
    rw [hread, exec_of_no_fault rfl, returned_andThen]
    change (singleTool.removeAcl _ _).andThen _ = _
    unfold AclTool.removeAcl
    rw [aclRequest_of_words .remove _ _ hw, hb]
    decide
  unfold onRelationBroken
  simp only [if_true, ProviderState.onAcls, hpurge]
  decide

/-- A client whose certificate has a single attribute gets its ACLs, and they go with its
relation. -/
theorem single_attribute_revoked : ∃ s, Runs.Reaches (relationStep singleTool [.default])
    BreaksFindingGrants newRelation s ∧ s.broken = true ∧ s.given = [clientBinding] ∧
      s.Cleared := by
  have hround : relationStep singleTool [.default]
      ⟨⟨⟨[], []⟩, [certificateClient "relation-7" "CN=client"], []⟩, [], [], false⟩
      (.certUpdated .round) = some certificateGranted := by decide +kernel
  have hrun : Runs.Reaches (relationStep singleTool [.default]) BreaksFindingGrants newRelation
      certificateGranted :=
    .next (.certUpdated .round) (.next (.certUpdated (.certUpdated
      [certificateClient "relation-7" "CN=client"] [])) .start trivial rfl) trivial hround
  have hbreak : relationStep singleTool [.default] certificateGranted
      (.relationBroken "CN=client" .given [] []) =
        some { certificateGranted with
          mtls := { certificateGranted.mtls with acls := ⟨[], []⟩ }, broken := true } := by
    simp only [relationStep, certificateGranted, RelationGrants.provider, if_true,
      Bool.false_eq_true, if_false, certificate_broken]
  have hfinds : BreaksFindingGrants certificateGranted
      (.relationBroken "CN=client" .given [] []) := certificate_finds_grants
  have hlast := hrun.next _ hfinds hbreak
  exact ⟨_, hlast, rfl, rfl, mtls_grants_revoked singleTool [.default] rfl hlast⟩

/-- With the default rules a certificate for `CN=client,O=org` is granted its
ACLs under that name. The listing cuts it at the comma, so that breaking the
relation completes and leaves them in place. -/
theorem mtls_grants_survive :
    let granted : Binding :=
      ⟨userPrincipal "CN=client,O=org", "WRITE", .topic, "orders", .literal⟩
    let client : MtlsClient := ⟨"relation-7", "CN=client,O=org",
      ⟨"orders", [], none, [⟨topicText, "orders", ["WRITE"]⟩]⟩, true⟩
    onMtlsCertUpdated singleTool [.default] [client] ⟨⟨[], []⟩, ["relation-7"]⟩ =
        returned ⟨⟨[granted], []⟩, ["relation-7"]⟩ ∧
      onRelationBroken singleTool .given ⟨true, true, some "CN=client,O=org"⟩ []
        ⟨⟨[granted], []⟩, ["relation-7"]⟩ = returned ⟨⟨[granted], []⟩, []⟩ := by
  intro granted client
  have hw : (Acl.mk "orders" topicText "WRITE" "CN=client,O=org").Words :=
    ⟨by decide, by decide, by decide⟩
  have hb : (Acl.mk "orders" topicText "WRITE" "CN=client,O=org").binding = some granted := by
    decide
  have hpurge : singleTool.removeAllUserAcls "relation-7" ⟨[], []⟩ = returned ⟨[], []⟩ := by
    decide
  have hupd : singleTool.updateUserAcls "CN=client,O=org" client.needs ⟨[], []⟩ =
      returned ⟨[granted], []⟩ := by
    have hlist : singleTool.order.list ((client.needs.computedUserAcls "CN=client,O=org").filter
        (· ∉ singleTool.currentUserAcls "CN=client,O=org" [])) =
          [⟨"orders", topicText, "WRITE", "CN=client,O=org"⟩] := by decide +kernel
    unfold AclTool.updateUserAcls
    simp only [hlist, exec_of_no_fault, returned_andThen]
    change ((singleTool.addAcl _ _).andThen _).andThen _ = _
    unfold AclTool.addAcl
    rw [aclRequest_of_words .add _ _ hw, hb]
    decide
  constructor
  · unfold onMtlsCertUpdated
    have hname : getName [.default] client.distinguishedName =
        some ("CN=client,O=org" : Str) := rfl
    simp only [client, hname, if_true, ProviderState.onAcls, hpurge, returned_andThen]
    simp only [client] at hupd
    rw [hupd]
    rfl
  · decide

end KafkaCharm
