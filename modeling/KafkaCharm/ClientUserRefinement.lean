import KafkaCharm.AclUpdate
import KafkaCharm.ClientUsers
import KafkaCharm.Provider

/-! The leader's state says of a sequence of ACL commands only whether it completes and what it leaves
of the ACLs it is about. The provider's state runs the commands, one by one, on what the listing
shows. On ACLs in plain texts each run of the second is one of the first. -/

namespace KafkaCharm

open PyText Fallible Outcome

/-- The cluster holds the ACLs, all of them in plain texts, and the names are those with a
recorded password. -/
structure ProviderState.Carries (st : ProviderState) (s : LeaderState) : Prop where
  stored : st.stored = Dict.keys s.stored
  acls : ∀ b, b ∈ st.acls.bindings ↔ ∃ a ∈ s.acls, a.binding = some b
  plain : ∀ a ∈ s.acls, a.Plain

/-- Both return or both raise. -/
inductive Simulated : Outcome ProviderState → Outcome LeaderState → Prop where
  | returned {st : ProviderState} {s : LeaderState} (h : st.Carries s) :
    Simulated (returned st) (returned s)
  | raised {st : ProviderState} {s : LeaderState} (h : st.Carries s) :
    Simulated (raised st) (raised s)

namespace ProviderState.Carries

variable {st : ProviderState} {s : LeaderState} (h : st.Carries s)
include h

/-- A binding is of a topic or a group, in plain texts, and no topic looks like a prefix. -/
theorem binding_plain {b : Binding} (hb : b ∈ st.acls.bindings) :
    b.Plain ∧ (b.resourceType = .topic ∨ b.resourceType = .group) ∧
      (b.resourceType = .topic → isStarTopic b.name = false) := by
  obtain ⟨a, ha, hab⟩ := (h.acls b).mp hb
  obtain ⟨c, hac, hplain, hreads⟩ := (h.plain a ha).exists_binding
  obtain rfl : c = b := Option.some.inj (hac.symm.trans hab)
  refine ⟨hplain, binding_kind hab, fun htopic => ?_⟩
  have htype : a.resourceType = topicText := by
    rw [hreads.2.2.1, htopic]
    rfl
  rcases (h.plain a ha).resource with ⟨-, hstar⟩ | hgroup
  · exact hreads.2.2.2 ▸ hstar
  · exact absurd (htype.symm.trans hgroup) (by decide)

theorem plain_bindings : ∀ b ∈ st.acls.bindings, b.Plain := fun _ hb => (h.binding_plain hb).1

/-- A command of another kind keeps what is carried. -/
theorem other {acls : AclStore} (hsame : acls.bindings = st.acls.bindings) :
    Carries { st with acls := acls } s :=
  ⟨h.stored, fun b => by rw [hsame]; exact h.acls b, h.plain⟩

/-- The bindings of one user are written anew. -/
theorem rewritten {u : Str} {acls : AclStore} {own : List Acl}
    (hown : ∀ a ∈ own, a.username = u ∧ a.Plain)
    (hframe : SameExcept (userPrincipal u) st.acls.bindings acls.bindings)
    (hbindings : ∀ b, b.principal = userPrincipal u →
      (b ∈ acls.bindings ↔ ∃ a ∈ own, a.binding = some b)) :
    Carries { st with acls := acls }
      { s with acls := s.acls.filter (·.username ≠ u) ++ own } := by
  refine ⟨h.stored, fun b => ?_, fun a ha => ?_⟩
  · by_cases hp : b.principal = userPrincipal u
    · rw [hbindings b hp]
      constructor
      · rintro ⟨a, ha, hab⟩
        exact ⟨a, List.mem_append_right _ ha, hab⟩
      · rintro ⟨a, ha, hab⟩
        rcases List.mem_append.mp ha with hother | ha
        · have hne : a.username ≠ u := by simpa using List.of_mem_filter hother
          exact absurd (userPrincipal_injective ((binding_principal hab).symm.trans hp)) hne
        · exact ⟨a, ha, hab⟩
    · rw [hframe b hp, h.acls b]
      constructor
      · rintro ⟨a, ha, hab⟩
        have hne : a.username ≠ u := fun heq => hp (heq ▸ binding_principal hab)
        exact ⟨a, List.mem_append_left _ (List.mem_filter.mpr ⟨ha, by simpa using hne⟩), hab⟩
      · rintro ⟨a, ha, hab⟩
        rcases List.mem_append.mp ha with hother | ha
        · exact ⟨a, List.mem_of_mem_filter hother, hab⟩
        · exact absurd ((hown a ha).1 ▸ binding_principal hab) hp
  · rcases List.mem_append.mp ha with hother | ha
    · exact h.plain a (List.mem_of_mem_filter hother)
    · exact (hown a ha).2

/-- What an interrupted procedure leaves of the ACLs of a user: those whose bindings are
there. -/
theorem interrupted {u : Str} {acls : AclStore} {own : List Acl}
    (hown : ∀ a ∈ own, a.username = u ∧ a.Plain)
    (hframe : SameExcept (userPrincipal u) st.acls.bindings acls.bindings)
    (hsubset : ∀ b ∈ acls.bindings, b ∈ st.acls.bindings ∨ ∃ a ∈ own, a.binding = some b)
    (hmine : ∀ a ∈ s.acls, a.username = u → a ∈ own) :
    Carries { st with acls := acls } { s with
      acls := s.acls.filter (·.username ≠ u) ++
        own.filter fun a => a.binding.any (· ∈ acls.bindings) } := by
  apply h.rewritten (fun a ha => hown a (List.mem_of_mem_filter ha)) hframe
  intro b hp
  constructor
  · intro hb
    have hthere : ∃ a ∈ own, a.binding = some b := by
      rcases hsubset b hb with hold | hnew
      · obtain ⟨a, ha, hab⟩ := (h.acls b).mp hold
        have huser := userPrincipal_injective ((binding_principal hab).symm.trans hp)
        exact ⟨a, hmine a ha huser, hab⟩
      · exact hnew
    obtain ⟨a, ha, hab⟩ := hthere
    exact ⟨a, List.mem_filter.mpr ⟨ha, by simp [hab, hb]⟩, hab⟩
  · rintro ⟨a, ha, hab⟩
    have hthere := List.of_mem_filter ha
    simpa [hab] using hthere

/-! ## Procedures on the ACLs of a user -/

/-- On plain ACLs a completed `remove_all_user_acls` leaves none of the user. -/
theorem mem_removeAllUserAcls {t : AclTool} {u : Str} {acls : AclStore}
    (hrun : t.removeAllUserAcls u st.acls = returned acls) (b : Binding) :
    b ∈ acls.bindings ↔ b ∈ st.acls.bindings ∧ b.principal ≠ userPrincipal u := by
  have hlegible := legible_of_plain h.plain_bindings
  have hwords : ∀ a ∈ t.order.list (t.currentUserAcls u st.acls.bindings), a.Words :=
    fun a ha => (currentUserAcls_words t hlegible ((t.order.mem_list _ a).mp ha)).1
  obtain ⟨m, hlisting, hremove⟩ := andThen_eq_returned hrun
  rw [mem_removeAcls t hwords hremove, (exec_eq_returned hlisting).1]
  constructor
  · rintro ⟨hb, hspared⟩
    refine ⟨hb, fun hp => ?_⟩
    obtain ⟨hplain, hkind, hstar⟩ := h.binding_plain hb
    have hshown : b.shown u ∈ t.order.list (t.currentUserAcls u st.acls.bindings) :=
      (t.order.mem_list _ _).mpr (shown_of_mem h.plain_bindings hb hp)
    exact hspared _ hshown (shown_binding hplain hp hkind hstar)
  · rintro ⟨hb, hne⟩
    refine ⟨hb, fun a ha hab => hne ?_⟩
    have huser := username_of_mem_currentUserAcls ((t.order.mem_list _ a).mp ha)
    exact huser ▸ binding_principal hab

theorem removeAllUserAcls (t : AclTool) (u : Str) :
    ∃ commands, Simulated (st.onAcls (t.removeAllUserAcls u)) (s.removeAllUserAcls commands u) := by
  have hframe := removeAllUserAcls_frame t u (legible_of_plain h.plain_bindings)
  have hsubset := removeAllUserAcls_subset t u st.acls
  unfold ProviderState.onAcls
  cases hrun : t.removeAllUserAcls u st.acls with
  | returned acls =>
    rw [hrun] at hframe
    refine ⟨⟨true, fun _ => true⟩, ?_⟩
    have hnone : ∀ b, b.principal = userPrincipal u →
        (b ∈ acls.bindings ↔ ∃ a ∈ ([] : List Acl), a.binding = some b) := by
      intro b hp
      simp [h.mem_removeAllUserAcls hrun b, hp]
    have hcarries := h.rewritten (fun a ha => by cases ha) hframe hnone
    rw [List.append_nil] at hcarries
    exact .returned hcarries
  | raised acls =>
    rw [hrun] at hframe hsubset
    refine ⟨⟨false, fun a => a.binding.any (· ∈ acls.bindings)⟩, .raised ?_⟩
    apply h.interrupted _ hframe fun b hb => .inl (hsubset b hb)
    · intro a ha huser
      exact List.mem_filter.mpr ⟨ha, by simpa using huser⟩
    · intro a ha
      exact ⟨by simpa using List.of_mem_filter ha, h.plain a (List.mem_of_mem_filter ha)⟩

theorem updateUserAcls (t : AclTool) {u : Str} {needs : AclNeeds} (hu : PlainText u)
    (hneeds : needs.Plain) :
    ∃ commands, Simulated (st.onAcls (t.updateUserAcls u needs))
      (s.updateUserAcls commands u needs) := by
  have hbindings := h.plain_bindings
  have hwords (a : Acl) (ha : a ∈ needs.computedUserAcls u) := (computed_words hu hneeds ha).1
  have hcomputed : ∀ a ∈ needs.computedUserAcls u, a.username = u ∧ a.Plain :=
    fun a ha => ⟨computedUserAcls_username ha, computedUserAcls_plain hu hneeds ha⟩
  have hframe := updateUserAcls_frame t u needs
    (fun a ha => (currentUserAcls_words t (legible_of_plain hbindings) ha).1) hwords
  have hsubset := updateUserAcls_subset t u hwords st.acls
  unfold ProviderState.onAcls
  cases hrun : t.updateUserAcls u needs st.acls with
  | returned acls =>
    rw [hrun] at hframe
    refine ⟨⟨true, fun _ => true⟩, .returned (h.rewritten hcomputed hframe ?_)⟩
    intro b hp
    have hstar : NoStarTopic u st.acls.bindings := fun c hc _ => (h.binding_plain hc).2.2
    rw [updateUserAcls_exact hbindings hu hneeds hrun hstar b]
    simp [hp]
  | raised acls =>
    rw [hrun] at hframe hsubset
    refine ⟨⟨false, fun a => a.binding.any (· ∈ acls.bindings)⟩, .raised ?_⟩
    apply h.interrupted _ hframe
    · intro b hb
      rcases hsubset b hb with hold | ⟨a, ha, hab⟩
      · exact .inl hold
      · exact .inr ⟨a, List.mem_append_right _ ha, hab⟩
    · intro a ha huser
      exact List.mem_append_left _ (List.mem_filter.mpr ⟨ha, by simpa using huser⟩)
    · intro a ha
      rcases List.mem_append.mp ha with hold | hnew
      · exact ⟨by simpa using List.of_mem_filter hold, h.plain a (List.mem_of_mem_filter hold)⟩
      · exact hcomputed a hnew

end ProviderState.Carries

/-! ## The hook -/

theorem Simulated.andThen {o : Outcome ProviderState} {o' : Outcome LeaderState}
    {next : ProviderState → Outcome ProviderState} {next' : LeaderState → Outcome LeaderState}
    (h : Simulated o o')
    (hnext : ∀ (st : ProviderState) (s : LeaderState), o = .returned st → o' = .returned s →
      st.Carries s → Simulated (next st) (next' s)) :
    Simulated (o.andThen next) (o'.andThen next') := by
  cases h with
  | returned h => exact hnext _ _ rfl rfl h
  | raised h => exact .raised h

namespace ProviderState.Carries

variable {st : ProviderState} {s : LeaderState} (h : st.Carries s)
include h

theorem users (scram : List (Str × Password)) : st.Carries { s with scram := scram } :=
  ⟨h.stored, h.acls, h.plain⟩

theorem recorded {u : Str} (hnew : u ∉ Dict.keys s.stored) (password : Password) :
    Carries { st with stored := st.stored ++ [u] }
      { s with stored := Dict.set s.stored u password } := by
  refine ⟨?_, h.acls, h.plain⟩
  simp only
  rw [Dict.set_of_notMem hnew, h.stored]
  simp [Dict.keys]

theorem forgotten (u : Str) :
    Carries { st with stored := st.stored.filter (· ≠ u) }
      { s with stored := Dict.erase s.stored u } := by
  refine ⟨?_, h.acls, h.plain⟩
  simp only
  rw [h.stored, Dict.keys, Dict.keys, Dict.erase, List.filter_map]
  rfl

/-- One call of `handle_client_request`. -/
theorem handleClientRequest (t : AclTool) (passwords : List (Str × Password))
    {client : RelationClient} (ready : Bool) (fresh : Password) (hu : PlainText client.username)
    (hneeds : client.needs.topic ≠ [] → client.needs.Plain) :
    ∃ e : ClientSetup, e.client = client ∧ e.ready = ready ∧
      Simulated (KafkaCharm.handleClientRequest t ⟨client.username, client.needs, ready⟩ st)
        (LeaderState.handleClientRequest passwords e s) := by
  unfold KafkaCharm.handleClientRequest LeaderState.handleClientRequest
  by_cases hguard : client.needs.topic = [] ∨ client.username ∈ st.stored ∨ ready = false
  · refine ⟨⟨client, ready, fresh, .failed, ⟨true, fun _ => true⟩⟩, rfl, rfl, ?_⟩
    rw [if_pos hguard, if_pos (h.stored ▸ hguard)]
    exact .returned h
  · have hguard' : ¬ (client.needs.topic = [] ∨ client.username ∈ Dict.keys s.stored ∨
        ready = false) := h.stored ▸ hguard
    have hcommand := otherCommand_state st.acls
    rw [if_neg hguard]
    cases hrun : otherCommand st.acls with
    | raised acls =>
      rw [hrun, state_raised] at hcommand
      refine ⟨⟨client, ready, fresh, .failed, ⟨true, fun _ => true⟩⟩, rfl, rfl, ?_⟩
      rw [if_neg hguard']
      exact .returned (h.other hcommand)
    | returned acls =>
      rw [hrun, state_returned] at hcommand
      have hadded := (h.other hcommand).users (Dict.set s.scram client.username
        ((Dict.get? passwords client.username).getD fresh))
      simp only [not_or] at hguard'
      obtain ⟨commands, hupdate⟩ := hadded.updateUserAcls t hu (hneeds hguard'.1)
      refine ⟨⟨client, ready, fresh, .done, commands⟩, rfl, rfl, ?_⟩
      rw [if_neg (not_or.mpr ⟨hguard'.1, not_or.mpr hguard'.2⟩)]
      apply hupdate.andThen
      intro st' s' _ hreturned hcarries
      have hstored := congrArg LeaderState.stored
        (LeaderState.updateUserAcls_eq_returned hreturned)
      have hnew : client.username ∉ Dict.keys s'.stored := by
        rw [hstored]
        exact hguard'.2.1
      exact .returned (hcarries.recorded hnew _)

theorem deleteUser (u : Str) :
    ∃ command, Simulated (st.onAcls otherCommand) (s.deleteUser command u) := by
  have hcommand := otherCommand_state st.acls
  unfold ProviderState.onAcls
  cases hrun : otherCommand st.acls with
  | returned acls =>
    rw [hrun] at hcommand
    exact ⟨.done, .returned ((h.other hcommand).users _)⟩
  | raised acls =>
    rw [hrun] at hcommand
    exact ⟨.failed, .raised (h.other hcommand)⟩

/-- One round of `remove_broken_clients`. -/
theorem removeBrokenClient (t : AclTool) (u : Str) :
    ∃ removal : Removal, Simulated (KafkaCharm.removeBrokenClient t u st)
      (LeaderState.removeBrokenClient (fun _ => removal) u s) := by
  obtain ⟨commands, hremoved⟩ := h.removeAllUserAcls t u
  have hdelete : ∃ command, Simulated
      ((st.onAcls (t.removeAllUserAcls u)).andThen (·.onAcls otherCommand))
      ((s.removeAllUserAcls commands u).andThen (LeaderState.deleteUser · command u)) := by
    generalize st.onAcls (t.removeAllUserAcls u) = o at hremoved
    generalize s.removeAllUserAcls commands u = o' at hremoved
    cases hremoved with
    | returned hcarries => exact hcarries.deleteUser u
    | raised hcarries => exact ⟨.done, .raised hcarries⟩
  obtain ⟨command, hdeleted⟩ := hdelete
  refine ⟨⟨commands, command⟩, hdeleted.andThen ?_⟩
  intro st' s' _ _ hcarries
  exact .returned (hcarries.forgotten u)

end ProviderState.Carries

section Hook

variable {st : ProviderState} {s : LeaderState} {t : AclTool}

/-- The loop over the users of relations that are gone, each of which comes up once. -/
theorem removeBrokenClients_simulated {us : List Str} (hnodup : us.Nodup) (h : st.Carries s) :
    ∃ removal : Str → Removal, Simulated (each (removeBrokenClient t) us st)
      (each (LeaderState.removeBrokenClient removal) us s) := by
  induction us generalizing st s with
  | nil => exact ⟨fun _ => ⟨⟨true, fun _ => true⟩, .done⟩, .returned h⟩
  | cons u us ih =>
    obtain ⟨hnot, hrest⟩ := List.nodup_cons.mp hnodup
    obtain ⟨first, hround⟩ := h.removeBrokenClient t u
    have hloop : ∃ removal : Str → Removal, Simulated (each (removeBrokenClient t) (u :: us) st)
        ((LeaderState.removeBrokenClient (fun _ => first) u s).andThen
          (each (LeaderState.removeBrokenClient removal) us)) := by
      unfold each
      generalize removeBrokenClient t u st = o at hround
      generalize LeaderState.removeBrokenClient (fun _ => first) u s = o' at hround
      cases hround with
      | returned hcarries => exact ih hrest hcarries
      | raised hcarries => exact ⟨fun _ => first, .raised hcarries⟩
    obtain ⟨removal, hloop⟩ := hloop
    refine ⟨fun v => if v = u then first else removal v, ?_⟩
    have hsame : ∀ v ∈ us, ∀ m, LeaderState.removeBrokenClient
        (fun v => if v = u then first else removal v) v m =
          LeaderState.removeBrokenClient removal v m := by
      intro v hv m
      have hne : v ≠ u := fun heq => hnot (heq ▸ hv)
      simp only [LeaderState.removeBrokenClient, if_neg hne]
    have hfirst : LeaderState.removeBrokenClient (fun v => if v = u then first else removal v) u s =
        LeaderState.removeBrokenClient (fun _ => first) u s := by
      simp only [LeaderState.removeBrokenClient, if_true]
    change Simulated _ ((LeaderState.removeBrokenClient _ u s).andThen (each _ us))
    rw [hfirst, funext fun m => each_congr hsame m]
    exact hloop

/-- A call that is not reached. -/
def uncalled (fresh : Password) (call : RelationClient × Bool) : ClientSetup :=
  ⟨call.1, call.2, fresh, .done, ⟨true, fun _ => true⟩⟩

theorem map_uncalled (fresh : Password) (calls : List (RelationClient × Bool)) :
    (calls.map (uncalled fresh)).map (fun e => (e.client, e.ready)) = calls := by
  rw [List.map_map]
  exact List.map_id calls

/-- The loop over the clients. `ready` are the checks of each call. -/
theorem handleClientRequests_simulated (passwords : List (Str × Password)) (fresh : Password)
    {calls : List (RelationClient × Bool)} (hu : ∀ call ∈ calls, PlainText call.1.username)
    (hneeds : ∀ call ∈ calls, call.1.needs.topic ≠ [] → call.1.needs.Plain) (h : st.Carries s) :
    ∃ setups : List ClientSetup, setups.map (fun e => (e.client, e.ready)) = calls ∧
      Simulated
        (each (handleClientRequest t) (calls.map fun c => ⟨c.1.username, c.1.needs, c.2⟩) st)
        (each (LeaderState.handleClientRequest passwords) setups s) := by
  induction calls generalizing st s with
  | nil => exact ⟨[], rfl, .returned h⟩
  | cons call calls ih =>
    obtain ⟨hu₁, hu⟩ := List.forall_mem_cons.mp hu
    obtain ⟨hneeds₁, hneeds⟩ := List.forall_mem_cons.mp hneeds
    obtain ⟨e, hclient, hready, hround⟩ :=
      h.handleClientRequest t passwords call.2 fresh hu₁ hneeds₁
    have hcall : (e.client, e.ready) = call := by rw [hclient, hready]
    rw [List.map_cons, each]
    generalize handleClientRequest t ⟨call.1.username, call.1.needs, call.2⟩ st = o at hround
    cases hround' : LeaderState.handleClientRequest passwords e s with
    | returned m =>
      rw [hround'] at hround
      cases hround with
      | returned hcarries =>
        obtain ⟨setups, hsetups, hloop⟩ := ih hu hneeds hcarries
        refine ⟨e :: setups, by rw [List.map_cons, hsetups, hcall], ?_⟩
        rw [each, hround']
        exact hloop
    | raised m =>
      rw [hround'] at hround
      cases hround with
      | raised hcarries =>
        -- The calls that are left have no effect on the outcome.
        refine ⟨e :: calls.map (uncalled fresh), ?_, ?_⟩
        · rw [List.map_cons, hcall, map_uncalled]
        · rw [each, hround']
          exact .raised hcarries

/-- **`reconcile`**: each run of the commands on plain ACLs is one of the runs that
`LeaderState.reconcile` allows, with the same outcome. -/
theorem reconcile_simulated (order : SetOrder Str) (fresh : Password)
    {calls : List (RelationClient × Bool)} (h : st.Carries s)
    (hclients : calls.map (·.1.username) = s.clients.map RelationClient.username)
    (hu : ∀ call ∈ calls, PlainText call.1.username)
    (hneeds : ∀ call ∈ calls, call.1.needs.topic ≠ [] → call.1.needs.Plain)
    (horder : (order.list s.staleUsers).Nodup) :
    ∃ e : Reconcile, e.healthy = true ∧ e.order = order ∧
      e.setups.map (fun setup => (setup.client, setup.ready)) = calls ∧
      Simulated (reconcile t order (calls.map fun c => ⟨c.1.username, c.1.needs, c.2⟩) st)
        (s.reconcile e) := by
  have hstale : staleUsers (calls.map fun c => ⟨c.1.username, c.1.needs, c.2⟩) st =
      s.staleUsers := by
    unfold staleUsers LeaderState.staleUsers
    rw [h.stored, List.map_map, ← hclients]
    rfl
  obtain ⟨removal, hremoved⟩ := removeBrokenClients_simulated (t := t) horder h
  unfold reconcile
  rw [hstale]
  generalize hcommands : each (removeBrokenClient t) (order.list s.staleUsers) st = o at hremoved
  generalize hleader :
    each (LeaderState.removeBrokenClient removal) (order.list s.staleUsers) s = o' at hremoved
  have hreconcile : ∀ setups, s.reconcile ⟨true, order, removal, setups⟩ =
      (o'.andThen fun s => each (LeaderState.handleClientRequest s.stored) setups s).andThen
        fun s => returned { s with swept := s.removed } := by
    intro setups
    rw [← hleader]
    rfl
  cases hremoved with
  | @returned st' s' hcarries =>
    obtain ⟨setups, hsetups, hloop⟩ :=
      handleClientRequests_simulated (t := t) s'.stored fresh hu hneeds hcarries
    refine ⟨⟨true, order, removal, setups⟩, rfl, rfl, hsetups, ?_⟩
    rw [hreconcile, returned_andThen, returned_andThen]
    generalize each (handleClientRequest t) _ st' = run at hloop ⊢
    generalize each (LeaderState.handleClientRequest s'.stored) setups s' = run' at hloop ⊢
    cases hloop with
    | returned hcarries => exact .returned ⟨hcarries.stored, hcarries.acls, hcarries.plain⟩
    | raised hcarries => exact .raised hcarries
  | raised hcarries =>
    refine ⟨⟨true, order, removal, calls.map (uncalled fresh)⟩, rfl, rfl, map_uncalled fresh calls,
      ?_⟩
    rw [hreconcile]
    exact .raised hcarries

end Hook

theorem freshCluster_carried :
    ProviderState.Carries ⟨⟨[], []⟩, ["admin"]⟩ { freshCluster with clients := [producerSeven] } where
  stored := rfl
  acls b := by simp [freshCluster]
  plain a ha := by cases ha

/-- The first `reconcile` with a client, whatever its commands do. -/
theorem first_reconcile_simulated (fresh : Password) (faults : List Bool) :
    ∃ e : Reconcile, e.healthy = true ∧ e.order = .given ∧
      e.setups.map (fun setup => (setup.client, setup.ready)) = [(producerSeven, true)] ∧
      Simulated
        (reconcile singleTool .given [⟨producerSeven.username, producerSeven.needs, true⟩]
          ⟨⟨[], faults⟩, ["admin"]⟩)
        (LeaderState.reconcile e { freshCluster with clients := [producerSeven] }) := by
  have hcarries : ProviderState.Carries ⟨⟨[], faults⟩, ["admin"]⟩
      { freshCluster with clients := [producerSeven] } := freshCluster_carried.other rfl
  have hplain : ∀ call ∈ [(producerSeven, true)], PlainText call.1.username := by
    rw [List.forall_mem_singleton]
    decide
  have hneeds : ∀ call ∈ [(producerSeven, true)],
      call.1.needs.topic ≠ [] → call.1.needs.Plain := by
    rw [List.forall_mem_singleton]
    exact fun _ => ordersProducer_plain
  exact reconcile_simulated .given fresh hcarries rfl hplain hneeds (by decide)

end KafkaCharm
