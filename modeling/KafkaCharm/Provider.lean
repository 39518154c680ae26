import KafkaCharm.Revocation

namespace KafkaCharm

open PyText Fallible Outcome

/-! ## Principal mapping -/

/-- A rule of `ssl_principal_mapping_rules`: `DEFAULT`, or the function that a
pattern, a replacement and a case flag compute. -/
inductive MappingRule where
  | default
  | rule (apply : Str → Option Str)

/-- `Rule.apply`. -/
def MappingRule.apply : MappingRule → Str → Option Str
  | .default, distinguishedName => some distinguishedName
  | .rule f, distinguishedName => f distinguishedName

/-- `SslPrincipalMapper.get_name`; `none` for `NoMatchingRuleError`. -/
def getName (rules : List MappingRule) (distinguishedName : Str) : Option Str :=
  rules.findSome? (·.apply distinguishedName)

/-! ## State and clients -/

/-- The cluster's ACLs, and the names with a password in the cluster relation data. -/
structure ProviderState where
  acls : AclStore
  stored : List Str
  deriving DecidableEq, Repr

/-- A client of an existing relation. `ready` is what the handlers read from
outside: the relation has units and is active, the broker answers, and the TLS
and mTLS set-up of the client is in place. -/
structure Client where
  username : Str
  needs : AclNeeds
  ready : Bool
  deriving DecidableEq, Repr

/-- A client with a certificate. `usable`: a leaf certificate, and a broker that answers. -/
structure MtlsClient where
  username : Str
  distinguishedName : Str
  needs : AclNeeds
  usable : Bool
  deriving DecidableEq, Repr

/-- Run an ACL operation on the state. -/
def ProviderState.onAcls (f : AclStore → Outcome AclStore) (st : ProviderState) :
    Outcome ProviderState :=
  match f st.acls with
  | returned s => returned { st with acls := s }
  | raised s => raised { st with acls := s }

/-- A command that has nothing to do with ACLs. -/
def otherCommand (s : AclStore) : Outcome AclStore := s.exec s.bindings

section Handlers

variable (t : AclTool)

/-- The loop of `on_mtls_cert_updated`: it ends at the first client without a
usable certificate or a matching rule. -/
def onMtlsCertUpdated (rules : List MappingRule) :
    List MtlsClient → ProviderState → Outcome ProviderState
  | [], st => returned st
  | client :: clients, st =>
    if client.usable then
      match getName rules client.distinguishedName with
      | none => returned st
      | some certPrincipal =>
        ((st.onAcls (t.removeAllUserAcls client.username)).andThen
          (·.onAcls (t.updateUserAcls certPrincipal client.needs))).andThen
          (onMtlsCertUpdated rules clients)
    else returned st

/-- `handle_client_request`; a failing `add_user` is caught. -/
def handleClientRequest (client : Client) (st : ProviderState) : Outcome ProviderState :=
  if client.needs.topic = [] ∨ client.username ∈ st.stored ∨ client.ready = false then returned st
  else
    match otherCommand st.acls with
    | raised s => returned { st with acls := s }
    | returned s =>
      (ProviderState.onAcls (t.updateUserAcls client.username client.needs)
        { st with acls := s }).andThen
        fun st' => returned { st' with stored := st'.stored ++ [client.username] }

def relationPrefix : Str := "relation-"

/-- The users of client relations that exist no more: `client_usernames - active_clients`. -/
def staleUsers (clients : List Client) (st : ProviderState) : List Str :=
  st.stored.filter fun u => relationPrefix.isPrefixOf u && u ∉ clients.map Client.username

/-- One round of `remove_broken_clients`. -/
def removeBrokenClient (username : Str) (st : ProviderState) : Outcome ProviderState :=
  ((st.onAcls (t.removeAllUserAcls username)).andThen (·.onAcls otherCommand)).andThen
    fun st' => returned { st' with stored := st'.stored.filter (· ≠ username) }

/-- `reconcile`, on a healthy leader. -/
def reconcile (order : SetOrder Str) (clients : List Client) (st : ProviderState) :
    Outcome ProviderState :=
  (each (removeBrokenClient t) (order.list (staleUsers clients st)) st).andThen
    (each (handleClientRequest t) clients)

/-- What `_on_relation_broken` finds: whether the charm is healthy and the unit
leads, and for a trusted alias of another app the distinguished name of the
certificate stored under it. -/
structure RelationBroken where
  healthy : Bool
  leader : Bool
  trusted : Option Str
  deriving DecidableEq, Repr

/-- `_on_relation_broken`; the clients are those of the relations that remain. -/
def onRelationBroken (order : SetOrder Str) (event : RelationBroken) (clients : List Client)
    (st : ProviderState) : Outcome ProviderState :=
  if event.healthy then
    (match event.trusted with
      | none => returned st
      | some distinguishedName =>
        ((if event.leader then st.onAcls (t.removeAllUserAcls distinguishedName)
          else returned st).andThen (·.onAcls otherCommand)).andThen
          (·.onAcls otherCommand)).andThen
      fun st' => if event.leader then reconcile t order clients st' else returned st'
  else returned st

end Handlers

/-! ## Following the bindings of one principal -/

theorem onAcls_eq_returned {f : AclStore → Outcome AclStore} {st st' : ProviderState}
    (h : st.onAcls f = returned st') :
    f st.acls = returned st'.acls ∧ st'.stored = st.stored := by
  unfold ProviderState.onAcls at h
  cases hf : f st.acls with
  | returned s =>
    rw [hf] at h
    cases h
    exact ⟨rfl, rfl⟩
  | raised s =>
    rw [hf] at h
    cases h

theorem otherCommand_eq_returned {s s' : AclStore} (h : otherCommand s = returned s') :
    s'.bindings = s.bindings :=
  (exec_eq_returned h).1

theorem otherCommand_state (s : AclStore) : (otherCommand s).state.bindings = s.bindings := by
  have h := exec_state s s.bindings
  rwa [or_self] at h

/-- No binding of the principal is left. -/
def Gone (principal : Str) (bindings : List Binding) : Prop :=
  ∀ b ∈ bindings, b.principal ≠ principal

/-- The principal has the same bindings as before. -/
def Untouched (principal : Str) (before after : List Binding) : Prop :=
  ∀ b, b.principal = principal → (b ∈ after ↔ b ∈ before)

theorem Untouched.refl (principal : Str) (bindings : List Binding) :
    Untouched principal bindings bindings :=
  fun _ _ => Iff.rfl

theorem Untouched.trans {principal : Str} {r s u : List Binding} (h : Untouched principal r s)
    (h' : Untouched principal s u) : Untouched principal r u :=
  fun b hb => (h' b hb).trans (h b hb)

theorem Untouched.gone {principal : Str} {before after : List Binding}
    (h : Untouched principal before after) (hg : Gone principal before) : Gone principal after :=
  fun b hb hp => hg b ((h b hp).mp hb) hp

theorem SameExcept.untouched {principal : Str} {w : Str} (hne : principal ≠ userPrincipal w)
    {before after : List Binding} (h : SameExcept (userPrincipal w) before after) :
    Untouched principal before after :=
  fun b hp => h b fun hw => hne (hp.symm.trans hw)

/-- The listing tells each of the users from all others. -/
def Told (users : List Str) (bindings : List Binding) : Prop := ∀ w ∈ users, Orderly w bindings

theorem Told.subset {users : List Str} {bindings part : List Binding} (h : Told users bindings)
    (hsub : ∀ b ∈ part, b ∈ bindings) : Told users part :=
  fun w hw => (h w hw).subset hsub

/-- The bindings of the user only go, and go by being covered. -/
structure Fading (t : AclTool) (p : Str) (origin bindings : List Binding) : Prop where
  old : ∀ b ∈ bindings, b.principal = userPrincipal p → b ∈ origin
  covered : ∀ b ∈ origin, b.principal = userPrincipal p → b ∈ bindings ∨ Covered t p origin b

theorem Fading.start (t : AclTool) (p : Str) (origin : List Binding) : Fading t p origin origin :=
  ⟨fun _ hb _ => hb, fun _ hb _ => .inl hb⟩

theorem Fading.untouched {t : AclTool} {p : Str} {origin before after : List Binding}
    (h : Fading t p origin before) (hu : Untouched (userPrincipal p) before after) :
    Fading t p origin after := by
  refine ⟨fun b hb hp => h.old b ((hu b hp).mp hb) hp, fun b hb hp => ?_⟩
  rcases h.covered b hb hp with hin | hc
  · exact .inl ((hu b hp).mpr hin)
  · exact .inr hc

/-- All bindings of the user survive the way through the listing. -/
def AllRevocable (p : Str) (bindings : List Binding) : Prop :=
  ∀ b ∈ bindings, b.principal = userPrincipal p → Revocable p b

/-- What the purges of some users do to a store: they take away bindings of these users only,
and all that are revocable. -/
structure Purges (t : AclTool) (ws : List Str) (before after : List Binding) : Prop where
  subset : ∀ b ∈ after, b ∈ before
  others : ∀ principal, (∀ w ∈ ws, principal ≠ userPrincipal w) → Untouched principal before after
  fading : ∀ p origin, Orderly p before → Fading t p origin before → Fading t p origin after
  purged : ∀ p ∈ ws, Orderly p before → AllRevocable p before → Gone (userPrincipal p) after

theorem Purges.none (t : AclTool) (bindings : List Binding) : Purges t [] bindings bindings where
  subset _ hb := hb
  others principal _ := .refl principal bindings
  fading _ _ _ hf := hf
  purged p hp := by cases hp

theorem Purges.trans {t : AclTool} {ws ws' : List Str} {r s u : List Binding}
    (h : Purges t ws r s) (h' : Purges t ws' s u) : Purges t (ws ++ ws') r u where
  subset b hb := h.subset b (h'.subset b hb)
  others principal hne := by
    obtain ⟨hne₁, hne₂⟩ := List.forall_mem_append.mp hne
    exact (h.others principal hne₁).trans (h'.others principal hne₂)
  fading p origin ho hf := h'.fading p origin (ho.subset h.subset) (h.fading p origin ho hf)
  purged p hp ho hrev := by
    rcases List.mem_append.mp hp with hp | hp
    · exact fun b hb => h.purged p hp ho hrev b (h'.subset b hb)
    · exact h'.purged p hp (ho.subset h.subset) fun b hb => hrev b (h.subset b hb)

section Purge

variable {t : AclTool}

/-- One completed `remove_all_user_acls`. -/
theorem removeAllUserAcls_purges {w : Str} {s s' : AclStore} (hw : Orderly w s.bindings)
    (h : t.removeAllUserAcls w s = returned s') : Purges t [w] s.bindings s'.bindings := by
  have hsub : ∀ b ∈ s'.bindings, b ∈ s.bindings := by
    have hsubset := removeAllUserAcls_subset t w s
    rw [h] at hsubset
    exact hsubset
  have hframe := hw.removeAllUserAcls_frame (t := t) s.faults
  rw [h] at hframe
  refine ⟨hsub, ?_, ?_, ?_⟩
  · intro principal hne
    exact hframe.untouched (hne w List.mem_cons_self)
  · intro p origin ho hf
    by_cases hp : p = w
    · subst hp
      have hmem := mem_removeAllUserAcls ho h
      refine ⟨fun b hb => hf.old b (hsub b hb), fun b hb hbp => ?_⟩
      rcases hf.covered b hb hbp with hin | hc
      · by_cases hstill : b ∈ s'.bindings
        · exact .inl hstill
        · right
          rw [hmem b] at hstill
          by_contra hno
          exact hstill ⟨hin, fun a ha hbind => hno ⟨s.bindings, ho, hf.old, a, ha, hbind⟩⟩
      · exact .inr hc
    · exact hf.untouched (hframe.untouched fun heq => hp (userPrincipal_injective heq))
  · intro p hp ho hrev b hb hbp
    obtain rfl := List.mem_singleton.mp hp
    exact revocable_removed ho h hbp (hrev b (hsub b hb) hbp) hb

/-- The loop of `remove_broken_clients`. -/
theorem removeBrokenClients_purges {ws : List Str} {st st' : ProviderState}
    (htold : Told ws st.acls.bindings) (h : each (removeBrokenClient t) ws st = returned st') :
    Purges t ws st.acls.bindings st'.acls.bindings ∧
      st'.stored = st.stored.filter (· ∉ ws) := by
  induction ws generalizing st with
  | nil =>
    cases h
    exact ⟨.none t _, by simp⟩
  | cons w ws ih =>
    obtain ⟨m, hm, hrest⟩ := andThen_eq_returned h
    obtain ⟨m1, hm1, hlast⟩ := andThen_eq_returned hm
    obtain ⟨m2, hm2, hm3⟩ := andThen_eq_returned hm1
    cases hlast
    obtain ⟨hremoved, hstored2⟩ := onAcls_eq_returned hm2
    obtain ⟨hdelete, hstored3⟩ := onAcls_eq_returned hm3
    have hpurge := removeAllUserAcls_purges (htold w List.mem_cons_self) hremoved
    rw [← otherCommand_eq_returned hdelete] at hpurge
    have hrestTold : Told ws m1.acls.bindings :=
      fun v hv => (htold v (List.mem_cons_of_mem w hv)).subset hpurge.subset
    obtain ⟨hloop, hstored⟩ := ih (by exact hrestTold) hrest
    refine ⟨hpurge.trans hloop, ?_⟩
    rw [hstored, List.filter_filter, hstored3, hstored2]
    apply List.filter_congr
    intro v _
    simp [Bool.and_comm]

end Purge

/-! ## Clients that are set up -/

/-- `handle_client_request` comes to the commands. -/
def Client.IsSetUp (client : Client) (st : ProviderState) : Prop :=
  client.needs.topic ≠ [] ∧ client.username ∉ st.stored ∧ client.ready = true

instance (client : Client) (st : ProviderState) : Decidable (client.IsSetUp st) :=
  inferInstanceAs (Decidable (_ ∧ _ ∧ _))

/-- What the client asks for is made of words that the listing shows as they are. -/
structure Client.Plain (client : Client) : Prop where
  username : Value client.username
  words : ∀ a ∈ client.needs.computedUserAcls client.username, a.Words
  shown : ∀ a ∈ client.needs.computedUserAcls client.username, ∀ b, a.binding = some b →
    b.Clear ∧ field b.name ≠ none

section SetUp

variable {t : AclTool} {client : Client} {users : List Str} {st : ProviderState}

/-- What a client asks for keeps the users told apart. -/
theorem Client.Plain.told (hc : client.Plain) {before after : List Binding}
    (htold : Told users before)
    (h : ∀ b ∈ after, b ∈ before ∨
      ∃ a ∈ client.needs.computedUserAcls client.username, a.binding = some b) :
    Told users after := by
  have hnew : ∀ a ∈ client.needs.computedUserAcls client.username, ∀ b, a.binding = some b →
      b.principal = userPrincipal client.username ∧ SpaceFree b.operation ∧ SpaceFree b.name ∧
        (b.resourceType = .topic ∨ b.resourceType = .group) := by
    intro a ha b hb
    obtain ⟨_, hop, hn, hkind⟩ := Grants.words ((grants_iff (hc.words a ha) b).mpr hb)
    exact ⟨computedUserAcls_username ha ▸ binding_principal hb, hop, hn, hkind⟩
  intro w hw
  have ho := htold w hw
  refine ⟨fun b hb => ?_, ?_⟩
  · rcases h b hb with hold | ⟨a, ha, hbind⟩
    · exact ho.told b hold
    · obtain ⟨hp, hop, hn, hkind⟩ := hnew a ha b hbind
      obtain ⟨hclear, -⟩ := hc.shown a ha b hbind
      by_cases hwc : w = client.username
      · subst hwc
        exact .inl ⟨hp, ⟨hc.username.2.2, hop, hn⟩, hkind, hclear⟩
      · refine .inr ⟨fun heq => hwc (userPrincipal_injective (heq.symm.trans hp)), hclear.toShown,
          .inl ⟨_, _, hp, hc.username.field_eq, fun heq => hwc heq.symm⟩⟩
  · rcases ho.names with hall | hnamed
    · refine .inl fun b hb => ?_
      rcases h b hb with hold | ⟨a, ha, hbind⟩
      · exact hall b hold
      · exact (hnew a ha b hbind).2.2.1
    · refine .inr fun b hb hbw => ?_
      rcases h b hb with hold | ⟨a, ha, hbind⟩
      · exact hnamed b hold hbw
      · exact (hc.shown a ha b hbind).2

theorem handleClientRequest_frame (hmem : client.IsSetUp st → client.username ∈ users)
    (hc : client.IsSetUp st → client.Plain) {st' : ProviderState}
    (htold : Told users st.acls.bindings)
    (h : handleClientRequest t client st = returned st') :
    Told users st'.acls.bindings ∧
      (∀ principal, (client.IsSetUp st → principal ≠ userPrincipal client.username) →
        Untouched principal st.acls.bindings st'.acls.bindings) ∧
      ∀ u ∈ st.stored, u ∈ st'.stored := by
  unfold handleClientRequest at h
  split at h
  · cases h
    exact ⟨htold, fun principal _ => .refl principal _, fun _ hu => hu⟩
  · rename_i hguard
    simp only [not_or, Bool.not_eq_false] at hguard
    have hsetUp : client.IsSetUp st := hguard
    have hcommand := otherCommand_state st.acls
    cases hm : otherCommand st.acls with
    | raised s =>
      rw [hm] at h hcommand
      cases h
      simp only [state_raised] at hcommand
      simp only [hcommand]
      exact ⟨htold, fun principal _ => .refl principal _, fun _ hu => hu⟩
    | returned s =>
      rw [hm] at h hcommand
      obtain ⟨m, hm1, hlast⟩ := andThen_eq_returned h
      cases hlast
      simp only [state_returned] at hcommand
      obtain ⟨hupdate, hstored⟩ := onAcls_eq_returned hm1
      simp only at hupdate hstored
      rw [← hcommand] at htold ⊢
      have hplain := hc hsetUp
      have hcurrent := fun a ha =>
        currentUserAcls_spaceFree (t := t) (a := a) (htold _ (hmem hsetUp)) ha
      have hframe := updateUserAcls_frame t client.username client.needs hcurrent hplain.words
      have hsubset := updateUserAcls_subset t client.username hplain.words s
      rw [hupdate] at hframe hsubset
      refine ⟨hplain.told htold hsubset, fun principal hne => hframe.untouched (hne hsetUp), ?_⟩
      intro u hu
      exact List.mem_append_left _ (hstored ▸ hu)

end SetUp

theorem handleClientRequests_frame {t : AclTool} {clients : List Client} {users : List Str}
    {st₀ st st' : ProviderState}
    (hkept : ∀ c ∈ clients, c.username ∈ st₀.stored → c.username ∈ st.stored)
    (hmem : ∀ c ∈ clients, c.IsSetUp st₀ → c.username ∈ users)
    (hplain : ∀ c ∈ clients, c.IsSetUp st₀ → c.Plain) (htold : Told users st.acls.bindings)
    (h : each (handleClientRequest t) clients st = returned st') {principal : Str}
    (hne : ∀ c ∈ clients, c.IsSetUp st₀ → principal ≠ userPrincipal c.username) :
    Untouched principal st.acls.bindings st'.acls.bindings := by
  induction clients generalizing st with
  | nil =>
    cases h
    exact .refl principal _
  | cons c clients ih =>
    obtain ⟨m, hm, hrest⟩ := andThen_eq_returned h
    have hsetUp : c.IsSetUp st → c.IsSetUp st₀ := by
      rintro ⟨htopic, hnew, hready⟩
      exact ⟨htopic, fun hold => hnew (hkept c List.mem_cons_self hold), hready⟩
    obtain ⟨htold', hframe, hstored⟩ := handleClientRequest_frame
      (fun h => hmem c List.mem_cons_self (hsetUp h))
      (fun h => hplain c List.mem_cons_self (hsetUp h)) htold hm
    have hfirst := hframe principal fun h => hne c List.mem_cons_self (hsetUp h)
    refine hfirst.trans (ih ?_ ?_ ?_ htold' hrest ?_)
    · exact fun d hd hold => hstored _ (hkept d (List.mem_cons_of_mem c hd) hold)
    · exact fun d hd => hmem d (List.mem_cons_of_mem c hd)
    · exact fun d hd => hplain d (List.mem_cons_of_mem c hd)
    · exact fun d hd => hne d (List.mem_cons_of_mem c hd)

/-! ## A relation breaks -/

/-- The users that `_on_relation_broken` runs ACL commands for. -/
def brokenUsers (dn : Str) (clients : List Client) (st : ProviderState) : List Str :=
  dn :: staleUsers clients st ++ (clients.filter (·.IsSetUp st)).map Client.username

/-- What the hook finds its way through: the listing tells the users apart, and the clients
that are set up ask for what it shows. -/
structure Passable (dn : Str) (clients : List Client) (st : ProviderState) : Prop where
  told : Told (brokenUsers dn clients st) st.acls.bindings
  plain : ∀ c ∈ clients, c.IsSetUp st → c.Plain

section Broken

variable {t : AclTool} {order : SetOrder Str} {dn : Str} {clients : List Client}
  {st st' : ProviderState}

theorem mem_brokenUsers_of_setUp {c : Client} (hc : c ∈ clients) (h : c.IsSetUp st) :
    c.username ∈ brokenUsers dn clients st :=
  List.mem_append_right _ (List.mem_map_of_mem (List.mem_filter.mpr ⟨hc, by simpa using h⟩))

/-- A completed `_on_relation_broken` on the leader: one purge after another, and then the
clients that are set up. -/
theorem onRelationBroken_purges (hpass : Passable dn clients st)
    (h : onRelationBroken t order ⟨true, true, some dn⟩ clients st = returned st') :
    ∃ purged, Purges t (dn :: order.list (staleUsers clients st)) st.acls.bindings purged ∧
      ∀ principal, (∀ c ∈ clients, c.IsSetUp st → principal ≠ userPrincipal c.username) →
        Untouched principal purged st'.acls.bindings := by
  obtain ⟨m3, hm3, hrec⟩ := andThen_eq_returned h
  obtain ⟨m2, hm2, hreload⟩ := andThen_eq_returned hm3
  obtain ⟨m1, hm1, hremove⟩ := andThen_eq_returned hm2
  obtain ⟨hpurge, hstored1⟩ := onAcls_eq_returned hm1
  obtain ⟨hcmd2, hstored2⟩ := onAcls_eq_returned hremove
  obtain ⟨hcmd3, hstored3⟩ := onAcls_eq_returned hreload
  have hsame : m3.acls.bindings = m1.acls.bindings :=
    (otherCommand_eq_returned hcmd3).trans (otherCommand_eq_returned hcmd2)
  have hstored : m3.stored = st.stored := hstored3.trans (hstored2.trans hstored1)
  have hstale : staleUsers clients m3 = staleUsers clients st := by
    unfold staleUsers
    rw [hstored]
  have hfirst := removeAllUserAcls_purges (hpass.told dn (by simp [brokenUsers])) hpurge
  rw [← hsame] at hfirst
  obtain ⟨m4, hloop, hclients⟩ := andThen_eq_returned hrec
  rw [hstale] at hloop
  have htold := hpass.told.subset hfirst.subset
  obtain ⟨hpurges, hstored4⟩ := removeBrokenClients_purges
    (fun w hw => htold w (by simp [brokenUsers, (order.mem_list _ w).mp hw])) hloop
  refine ⟨m4.acls.bindings, hfirst.trans hpurges, fun principal hne => ?_⟩
  have hmem : ∀ c ∈ clients, c.IsSetUp st → c.username ∈ brokenUsers dn clients st :=
    fun c => mem_brokenUsers_of_setUp
  refine handleClientRequests_frame ?_ hmem hpass.plain (htold.subset hpurges.subset) hclients hne
  intro c hc hold
  rw [hstored4, hstored]
  refine List.mem_filter.mpr ⟨hold, ?_⟩
  simp only [order.mem_list, staleUsers, List.mem_filter, decide_eq_true_eq, not_and]
  intro _ hstale
  have hactive : c.username ∈ clients.map Client.username := List.mem_map_of_mem hc
  simp [hactive] at hstale

/-- Breaking a relation leaves no binding of a principal, none of whose clients is set up,
exactly when each is one of the user that the certificate in the truststore names, or of a
stale client user, and survives the way through the listing. -/
theorem relation_broken_revokes_iff (hpass : Passable dn clients st) {principal : Str}
    (hne : ∀ c ∈ clients, c.IsSetUp st → principal ≠ userPrincipal c.username)
    (hrun : onRelationBroken t order ⟨true, true, some dn⟩ clients st = returned st') :
    Gone principal st'.acls.bindings ↔
      ∀ b ∈ st.acls.bindings, b.principal = principal →
        ∃ q, principal = userPrincipal q ∧ (q = dn ∨ q ∈ staleUsers clients st) ∧
          Revocable q b := by
  obtain ⟨purged, hpurges, hsetUps⟩ := onRelationBroken_purges hpass hrun
  have hlast := hsetUps principal hne
  have hpurged : ∀ q, q ∈ dn :: order.list (staleUsers clients st) ↔
      q = dn ∨ q ∈ staleUsers clients st := by
    intro q
    rw [List.mem_cons, order.mem_list]
  by_cases hq : ∃ q, principal = userPrincipal q ∧ (q = dn ∨ q ∈ staleUsers clients st)
  · obtain ⟨q, rfl, hq⟩ := hq
    have ho : Orderly q st.acls.bindings := by
      apply hpass.told
      rcases hq with rfl | hq
      · simp [brokenUsers]
      · simp [brokenUsers, hq]
    constructor
    · intro hgone b hb hbp
      have hfading := hpurges.fading q _ ho (.start t q _)
      have hcov : ∀ c ∈ st.acls.bindings, c.principal = userPrincipal q →
          Covered t q st.acls.bindings c := by
        intro c hc hcq
        refine (hfading.covered c hc hcq).resolve_left fun hin => ?_
        exact hgone c ((hlast c hcq).mpr hin) hcq
      exact ⟨q, rfl, hq, covered_revocable hcov hb hbp⟩
    · intro hall
      apply hlast.gone
      apply hpurges.purged q ((hpurged q).mpr hq) ho
      intro b hb hbq
      obtain ⟨q', heq, -, hrev⟩ := hall b hb hbq
      obtain rfl := userPrincipal_injective heq
      exact hrev
  · have huntouched := (hpurges.others principal fun w hw heq =>
      hq ⟨w, heq, (hpurged w).mp hw⟩).trans hlast
    constructor
    · intro hgone b hb hbp
      exact absurd hbp (hgone b ((huntouched b hbp).mpr hb))
    · intro hall b hb hbp
      obtain ⟨q, heq, hor, -⟩ := hall b ((huntouched b hbp).mp hb) hbp
      exact hq ⟨q, heq, hor⟩

end Broken

end KafkaCharm
