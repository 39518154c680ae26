import KafkaCharm.AclListing

namespace KafkaCharm

open PyText Fallible Outcome

/-- The bindings stored in the cluster, and for each coming command whether it fails. -/
structure AclStore where
  bindings : List Binding
  faults : List Bool
  deriving DecidableEq, Repr

/-- A command that may fail; a failing one changes nothing in the cluster. -/
def AclStore.exec (s : AclStore) (bindings : List Binding) : Outcome AclStore :=
  if s.faults.headD false then raised ⟨s.bindings, s.faults.tail⟩
  else returned ⟨bindings, s.faults.tail⟩

/-- What `AuthManager` runs against: the broker app's own addresses, the way
the tool prints the bindings, and the order Python goes through a set. -/
structure AclTool where
  site : Site
  opts : List Str
  layout : Layout
  blocks : List Binding → List Block
  prints : ∀ acls, Prints (blocks acls) acls
  order : SetOrder Acl

namespace AclTool

variable (t : AclTool)

/-- `AuthManager.add_acl`. -/
def addAcl (a : Acl) (s : AclStore) : Outcome AclStore :=
  match aclRequest .add t.site t.opts a with
  | none => raised ⟨s.bindings, s.faults.tail⟩
  | some bs => s.exec (s.bindings ++ bs)

/-- `AuthManager.remove_acl`. -/
def removeAcl (a : Acl) (s : AclStore) : Outcome AclStore :=
  match aclRequest .remove t.site t.opts a with
  | none => raised ⟨s.bindings, s.faults.tail⟩
  | some bs => s.exec (s.bindings.filter (· ∉ bs))

/-- `AuthManager._get_acls_from_cluster`, when the command succeeds. -/
def aclsFromCluster (bindings : List Binding) : Str := t.layout.text (t.blocks bindings)

/-- `{acl for acl in self.current_acls if acl.username == username}`. -/
def currentUserAcls (username : Str) (bindings : List Binding) : List Acl :=
  (parseAcls (t.aclsFromCluster bindings)).filter (·.username = username)

/-- `AuthManager.remove_all_user_acls`. -/
def removeAllUserAcls (username : Str) (s : AclStore) : Outcome AclStore :=
  (s.exec s.bindings).andThen
    (each t.removeAcl (t.order.list (t.currentUserAcls username s.bindings)))

end AclTool

/-- `KafkaPermissionModel`, as far as ACLs are made from it. -/
structure Permission where
  resourceType : Str
  resourceName : Str
  privileges : List Str
  deriving DecidableEq, Repr

/-- The arguments of `update_user_acls` besides the user name. -/
structure AclNeeds where
  topic : Str
  extraUserRoles : Str
  group : Option Str
  permissions : List Permission
  deriving DecidableEq, Repr

/-- `AuthManager._generate_producer_acls`. -/
def generateProducerAcls (topic username : Str) : List Acl :=
  (["CREATE", "WRITE", "DESCRIBE"] : List String).map fun op => ⟨topic, topicText, op, username⟩

/-- `AuthManager._generate_consumer_acls`; an empty group counts as none. -/
def generateConsumerAcls (topic username : Str) (group : Option Str) : List Acl :=
  let group := match group with
    | some (c :: cs) => c :: cs
    | _ => username ++ "-"
  (["READ", "DESCRIBE"] : List String).map (fun op => ⟨topic, topicText, op, username⟩) ++
    [⟨group, groupText, "READ", username⟩]

def producerRole : Str := "producer"
def consumerRole : Str := "consumer"

/-- `computed_user_acls` of `update_user_acls`; the roles are searched as text. -/
def AclNeeds.computedUserAcls (needs : AclNeeds) (username : Str) : List Acl :=
  (if producerRole <:+: needs.extraUserRoles then
    generateProducerAcls needs.topic username else []) ++
  (if consumerRole <:+: needs.extraUserRoles then
    generateConsumerAcls needs.topic username needs.group else []) ++
  needs.permissions.flatMap fun p =>
    p.privileges.map fun op => ⟨p.resourceName, p.resourceType, op, username⟩

/-- `AuthManager.update_user_acls`. -/
def AclTool.updateUserAcls (t : AclTool) (username : Str) (needs : AclNeeds) (s : AclStore) :
    Outcome AclStore :=
  let computed := needs.computedUserAcls username
  let current := t.currentUserAcls username s.bindings
  ((s.exec s.bindings).andThen
    (each t.addAcl (t.order.list (computed.filter (· ∉ current))))).andThen
    (each t.removeAcl (t.order.list (current.filter (· ∉ computed))))

/-! ## One command -/

theorem exec_eq_returned {s s' : AclStore} {bs : List Binding} (h : s.exec bs = returned s') :
    s'.bindings = bs ∧ s'.faults = s.faults.tail := by
  unfold AclStore.exec at h
  split at h
  · cases h
  · cases h
    exact ⟨rfl, rfl⟩

theorem exec_of_no_fault {s : AclStore} (h : s.faults = []) (bs : List Binding) :
    s.exec bs = returned ⟨bs, []⟩ := by
  simp [AclStore.exec, h]

theorem exec_state (s : AclStore) (bs : List Binding) :
    (s.exec bs).state.bindings = bs ∨ (s.exec bs).state.bindings = s.bindings := by
  unfold AclStore.exec
  split
  · exact .inr rfl
  · exact .inl rfl

theorem binding_principal {a : Acl} {b : Binding} (h : a.binding = some b) :
    b.principal = userPrincipal a.username := by
  obtain ⟨_, _, rfl⟩ := Option.map_eq_some_iff.mp h
  rfl

/-- Nothing changed outside one principal. -/
def SameExcept (principal : Str) (before after : List Binding) : Prop :=
  ∀ b, b.principal ≠ principal → (b ∈ after ↔ b ∈ before)

theorem SameExcept.refl (principal : Str) (bs : List Binding) : SameExcept principal bs bs :=
  fun _ _ => Iff.rfl

theorem SameExcept.trans {principal : Str} {r s t : List Binding}
    (h : SameExcept principal r s) (h' : SameExcept principal s t) : SameExcept principal r t :=
  fun b hb => (h' b hb).trans (h b hb)

section Commands

variable (t : AclTool) {a : Acl} (hw : a.Words) (s : AclStore)
include hw

/-- A removal made of words takes one binding, if it is not refused. -/
theorem removeAcl_of_words :
    (a.binding = none ∧ t.removeAcl a s = raised ⟨s.bindings, s.faults.tail⟩) ∨
      ∃ b, a.binding = some b ∧ t.removeAcl a s = s.exec (s.bindings.filter (· ∉ [b])) := by
  unfold AclTool.removeAcl
  rw [aclRequest_of_words .remove t.site t.opts hw]
  cases hb : a.binding with
  | none => exact .inl ⟨rfl, rfl⟩
  | some b => exact .inr ⟨b, rfl, rfl⟩

theorem addAcl_of_words :
    (a.binding = none ∧ t.addAcl a s = raised ⟨s.bindings, s.faults.tail⟩) ∨
      ∃ b, a.binding = some b ∧ t.addAcl a s = s.exec (s.bindings ++ [b]) := by
  unfold AclTool.addAcl
  rw [aclRequest_of_words .add t.site t.opts hw]
  cases hb : a.binding with
  | none => exact .inl ⟨rfl, rfl⟩
  | some b => exact .inr ⟨b, rfl, rfl⟩

theorem removeAcl_frame :
    SameExcept (userPrincipal a.username) s.bindings (t.removeAcl a s).state.bindings := by
  rcases removeAcl_of_words t hw s with ⟨_, heq⟩ | ⟨b, hb, heq⟩
  · rw [heq]
    exact .refl _ _
  · rw [heq]
    intro c hc
    rcases exec_state s (s.bindings.filter (· ∉ [b])) with h | h
    · have hcb : c ≠ b := by
        rintro rfl
        exact hc (binding_principal hb)
      rw [h]
      simp [hcb]
    · rw [h]

theorem addAcl_frame :
    SameExcept (userPrincipal a.username) s.bindings (t.addAcl a s).state.bindings := by
  rcases addAcl_of_words t hw s with ⟨_, heq⟩ | ⟨b, hb, heq⟩
  · rw [heq]
    exact .refl _ _
  · rw [heq]
    intro c hc
    rcases exec_state s (s.bindings ++ [b]) with h | h
    · have hcb : c ≠ b := by
        rintro rfl
        exact hc (binding_principal hb)
      rw [h]
      simp [hcb]
    · rw [h]

end Commands

/-! ## Loops of commands -/

/-- What a completed loop of removals leaves behind. -/
theorem mem_removeAcls (t : AclTool) {as : List Acl} (hw : ∀ a ∈ as, a.Words) {s s' : AclStore}
    (h : each t.removeAcl as s = returned s') (b : Binding) :
    b ∈ s'.bindings ↔ b ∈ s.bindings ∧ ∀ a ∈ as, a.binding ≠ some b := by
  induction as generalizing s with
  | nil =>
    cases h
    simp
  | cons a as ih =>
    obtain ⟨m, hm, hrest⟩ := andThen_eq_returned h
    have htail := ih (fun x hx => hw x (by simp [hx])) hrest
    rcases removeAcl_of_words t (hw a (by simp)) s with ⟨_, heq⟩ | ⟨c, hc, heq⟩
    · rw [heq] at hm
      cases hm
    · rw [heq] at hm
      rw [htail, (exec_eq_returned hm).1]
      have hcb : a.binding ≠ some b ↔ b ≠ c := by
        rw [hc, ne_eq, Option.some.injEq, eq_comm]
      simp only [List.mem_filter, List.mem_singleton, decide_not, Bool.not_eq_true',
        decide_eq_false_iff_not, List.forall_mem_cons, hcb, and_assoc]

theorem removeAcls_returns (t : AclTool) {as : List Acl}
    (hw : ∀ a ∈ as, a.Words ∧ a.binding ≠ none) {s : AclStore} (hs : s.faults = []) :
    ∃ s', each t.removeAcl as s = returned s' := by
  have hbody : ∀ a ∈ as, ∀ s : AclStore, s.faults = [] →
      ∃ s', t.removeAcl a s = returned s' ∧ s'.faults = [] := by
    intro a ha s hs
    obtain ⟨hwords, hsome⟩ := hw a ha
    rcases removeAcl_of_words t hwords s with ⟨hnone, _⟩ | ⟨b, _, heq⟩
    · exact absurd hnone hsome
    · exact ⟨_, heq.trans (exec_of_no_fault hs _), rfl⟩
  obtain ⟨s', h, _⟩ := each_returns hbody s hs
  exact ⟨s', h⟩

/-- A loop of commands that each stay within one principal stays within it. -/
theorem each_frame {body : Acl → AclStore → Outcome AclStore} {as : List Acl} {principal : Str}
    (hbody : ∀ a ∈ as, ∀ m, SameExcept principal m.bindings (body a m).state.bindings)
    (s : AclStore) : SameExcept principal s.bindings (each body as s).state.bindings := by
  apply each_state_invariant (I := fun m : AclStore => SameExcept principal s.bindings m.bindings)
  · intro a ha m hm
    exact hm.trans (hbody a ha m)
  · exact .refl _ _

theorem andThen_frame {principal : Str} {before : List Binding} {o : Outcome AclStore}
    {next : AclStore → Outcome AclStore} (h : SameExcept principal before o.state.bindings)
    (hnext : ∀ m, o = returned m → SameExcept principal m.bindings (next m).state.bindings) :
    SameExcept principal before (o.andThen next).state.bindings := by
  cases ho : o with
  | raised m => rwa [ho] at h
  | returned m =>
    rw [ho] at h
    exact h.trans (hnext m ho)

theorem removeAcl_subset (t : AclTool) (a : Acl) (s : AclStore) {b : Binding}
    (hb : b ∈ (t.removeAcl a s).state.bindings) : b ∈ s.bindings := by
  unfold AclTool.removeAcl at hb
  cases hreq : aclRequest .remove t.site t.opts a with
  | none =>
    rw [hreq] at hb
    exact hb
  | some bs =>
    rw [hreq] at hb
    rcases exec_state s (s.bindings.filter (· ∉ bs)) with h | h
    · exact List.mem_of_mem_filter (h ▸ hb)
    · exact h ▸ hb

theorem removeAcls_subset (t : AclTool) (as : List Acl) (s : AclStore) :
    ∀ b ∈ (each t.removeAcl as s).state.bindings, b ∈ s.bindings := by
  apply each_state_invariant (I := fun m : AclStore => ∀ b ∈ m.bindings, b ∈ s.bindings)
  · intro a _ m hm b hb
    exact hm b (removeAcl_subset t a m hb)
  · exact fun b hb => hb

/-- Whatever a loop of additions leaves was there or is granted by one of them. -/
theorem addAcls_subset (t : AclTool) {as : List Acl} (hw : ∀ a ∈ as, a.Words) (s : AclStore) :
    ∀ b ∈ (each t.addAcl as s).state.bindings,
      b ∈ s.bindings ∨ ∃ a ∈ as, a.binding = some b := by
  apply each_state_invariant
    (I := fun m : AclStore => ∀ b ∈ m.bindings, b ∈ s.bindings ∨ ∃ a ∈ as, a.binding = some b)
  · intro a ha m hm b hb
    rcases addAcl_of_words t (hw a ha) m with ⟨_, heq⟩ | ⟨c, hc, heq⟩
    · rw [heq] at hb
      exact hm b hb
    · rw [heq] at hb
      rcases exec_state m (m.bindings ++ [c]) with h | h
      · rw [h, List.mem_append, List.mem_singleton] at hb
        rcases hb with hb | rfl
        · exact hm b hb
        · exact .inr ⟨a, ha, hc⟩
      · exact hm b (h ▸ hb)
  · exact fun b hb => .inl hb

/-- What a completed loop of additions leaves. -/
theorem mem_addAcls (t : AclTool) {as : List Acl} (hw : ∀ a ∈ as, a.Words) {s s' : AclStore}
    (h : each t.addAcl as s = returned s') (b : Binding) :
    b ∈ s'.bindings ↔ b ∈ s.bindings ∨ ∃ a ∈ as, a.binding = some b := by
  induction as generalizing s with
  | nil =>
    cases h
    simp
  | cons a as ih =>
    obtain ⟨m, hm, hrest⟩ := andThen_eq_returned h
    have htail := ih (fun x hx => hw x (by simp [hx])) hrest
    rcases addAcl_of_words t (hw a (by simp)) s with ⟨_, heq⟩ | ⟨c, hc, heq⟩
    · rw [heq] at hm
      cases hm
    · rw [heq] at hm
      have hcb : a.binding = some b ↔ b = c := by
        rw [hc, Option.some.injEq, eq_comm]
      rw [htail, (exec_eq_returned hm).1]
      simp only [List.mem_append, List.mem_singleton, List.exists_mem_cons_iff, hcb, or_assoc]

/-! ## The operations of `AuthManager` -/

/-- Every binding of the cluster can be listed without misleading the parser. -/
def Legible (bindings : List Binding) : Prop := ∀ b ∈ bindings, ∃ user, b.Readable user

theorem Legible.printed (t : AclTool) {bindings : List Binding} (h : Legible bindings) :
    ∀ b ∈ (t.blocks bindings).flatMap Block.bindings, ∃ user, b.Readable user :=
  fun b hb => h b ((t.prints bindings b).mp hb)

/-- What `currentUserAcls` finds on a legible listing. -/
theorem currentUserAcls_sound (t : AclTool) {u : Str} {bindings : List Binding}
    (hl : Legible bindings) {a : Acl} (ha : a ∈ t.currentUserAcls u bindings) :
    (Value a.resourceName ∧ Value a.username ∧ Value a.operation) ∧ a.username = u ∧
      ∃ b ∈ bindings, ComesFrom a b := by
  obtain ⟨hparsed, hu⟩ := List.mem_filter.mp ha
  obtain ⟨hv, b, hb, hfrom⟩ := parseAcls_sound t.layout (hl.printed t) hparsed
  exact ⟨hv, by simpa using hu, b, (t.prints bindings b).mp hb, hfrom⟩

theorem words_of_value {a : Acl} (hn : Value a.resourceName) (hu : Value a.username)
    (ho : Value a.operation) : a.Words :=
  ⟨hu.2.2, ho.2.2, fun _ => hn.2.2⟩

theorem currentUserAcls_words (t : AclTool) {u : Str} {bindings : List Binding}
    (hl : Legible bindings) {a : Acl} (ha : a ∈ t.currentUserAcls u bindings) :
    a.Words ∧ a.username = u := by
  obtain ⟨⟨hn, hu, ho⟩, heq, _⟩ := currentUserAcls_sound t hl ha
  exact ⟨words_of_value hn hu ho, heq⟩

/-- A binding without commas is found. -/
theorem mem_currentUserAcls (t : AclTool) {bindings : List Binding} (hl : Legible bindings)
    {a : Acl} (hu : Value a.username) (ho : Value a.operation) (hn : Value a.resourceName)
    {b : Binding} (hb : b ∈ bindings) (hreads : Reads a b) :
    a ∈ t.currentUserAcls a.username bindings := by
  apply List.mem_filter.mpr
  refine ⟨parseAcls_complete t.layout (hl.printed t) hu ho hn ?_, by simp⟩
  exact ⟨b, (t.prints bindings b).mpr hb, hreads⟩

theorem listing_frame (principal : Str) (s : AclStore) :
    SameExcept principal s.bindings (s.exec s.bindings).state.bindings := by
  have h := exec_state s s.bindings
  rw [or_self] at h
  rw [h]
  exact .refl _ _

theorem username_of_mem_currentUserAcls {t : AclTool} {u : Str} {bindings : List Binding} {a : Acl}
    (ha : a ∈ t.currentUserAcls u bindings) : a.username = u := by
  simpa using (List.mem_filter.mp ha).2

/-- Removals made of words touch no other user. -/
theorem removeAllUserAcls_frame_of_words (t : AclTool) (u : Str) {s : AclStore}
    (hw : ∀ a ∈ t.currentUserAcls u s.bindings, a.Words) :
    SameExcept (userPrincipal u) s.bindings (t.removeAllUserAcls u s).state.bindings := by
  apply andThen_frame (listing_frame _ s)
  intro m _
  apply each_frame
  intro a ha m'
  have hmem := (t.order.mem_list _ a).mp ha
  obtain rfl := username_of_mem_currentUserAcls hmem
  exact removeAcl_frame t (hw a hmem) m'

theorem removeAllUserAcls_frame (t : AclTool) (u : Str) {s : AclStore} (hl : Legible s.bindings) :
    SameExcept (userPrincipal u) s.bindings (t.removeAllUserAcls u s).state.bindings :=
  removeAllUserAcls_frame_of_words t u fun _ ha => (currentUserAcls_words t hl ha).1

theorem removeAllUserAcls_subset (t : AclTool) (u : Str) (s : AclStore) :
    ∀ b ∈ (t.removeAllUserAcls u s).state.bindings, b ∈ s.bindings := by
  intro b hb
  have hst := exec_state s s.bindings
  rw [or_self] at hst
  unfold AclTool.removeAllUserAcls at hb
  cases hm : s.exec s.bindings with
  | raised m =>
    rw [hm] at hb hst
    exact hst ▸ hb
  | returned m =>
    rw [hm] at hb hst
    exact hst ▸ removeAcls_subset t _ m b hb

theorem computedUserAcls_username {needs : AclNeeds} {u : Str} {a : Acl}
    (ha : a ∈ needs.computedUserAcls u) : a.username = u := by
  simp only [AclNeeds.computedUserAcls, List.mem_append, List.mem_flatMap, List.mem_map,
    List.mem_ite_nil_right] at ha
  rcases ha with (⟨_, ha⟩ | ⟨_, ha⟩) | ⟨p, _, op, _, rfl⟩
  · simp only [generateProducerAcls, List.mem_map] at ha
    obtain ⟨op, _, rfl⟩ := ha
    rfl
  · simp only [generateConsumerAcls, List.mem_append, List.mem_map, List.mem_singleton] at ha
    rcases ha with ⟨op, _, rfl⟩ | rfl
    · rfl
    · rfl
  · rfl

theorem updateUserAcls_frame (t : AclTool) (u : Str) (needs : AclNeeds) {s : AclStore}
    (hcurrent : ∀ a ∈ t.currentUserAcls u s.bindings, a.Words)
    (hw : ∀ a ∈ needs.computedUserAcls u, a.Words) :
    SameExcept (userPrincipal u) s.bindings (t.updateUserAcls u needs s).state.bindings := by
  apply andThen_frame
  · apply andThen_frame (listing_frame _ s)
    intro m _
    apply each_frame
    intro a ha m'
    have hmem := List.mem_of_mem_filter ((t.order.mem_list _ a).mp ha)
    obtain rfl := computedUserAcls_username hmem
    exact addAcl_frame t (hw a hmem) m'
  · intro m _
    apply each_frame
    intro a ha m'
    have hmem := List.mem_of_mem_filter ((t.order.mem_list _ a).mp ha)
    obtain rfl := username_of_mem_currentUserAcls hmem
    exact removeAcl_frame t (hcurrent a hmem) m'

theorem updateUserAcls_subset (t : AclTool) (u : Str) {needs : AclNeeds}
    (hw : ∀ a ∈ needs.computedUserAcls u, a.Words) (s : AclStore) :
    ∀ b ∈ (t.updateUserAcls u needs s).state.bindings,
      b ∈ s.bindings ∨ ∃ a ∈ needs.computedUserAcls u, a.binding = some b := by
  intro b hb
  have hadd : ∀ m b, b ∈ (each t.addAcl (t.order.list
      ((needs.computedUserAcls u).filter (· ∉ t.currentUserAcls u s.bindings))) m).state.bindings →
      b ∈ m.bindings ∨ ∃ a ∈ needs.computedUserAcls u, a.binding = some b := by
    intro m b hb
    have hin : ∀ a ∈ t.order.list ((needs.computedUserAcls u).filter
        (· ∉ t.currentUserAcls u s.bindings)), a ∈ needs.computedUserAcls u :=
      fun a ha => List.mem_of_mem_filter ((t.order.mem_list _ a).mp ha)
    rcases addAcls_subset t (fun a ha => hw a (hin a ha)) m b hb with h | ⟨a, ha, h⟩
    · exact .inl h
    · exact .inr ⟨a, hin a ha, h⟩
  have hst := exec_state s s.bindings
  rw [or_self] at hst
  unfold AclTool.updateUserAcls at hb
  simp only at hb
  cases hm : s.exec s.bindings with
  | raised m =>
    rw [hm] at hb hst
    exact .inl (hst ▸ hb)
  | returned m =>
    rw [hm] at hb hst
    rw [returned_andThen] at hb
    cases hm' : each t.addAcl (t.order.list
        ((needs.computedUserAcls u).filter (· ∉ t.currentUserAcls u s.bindings))) m with
    | raised m' =>
      rw [hm'] at hb
      have h := hadd m b (by rw [hm']; exact hb)
      rwa [← hst]
    | returned m' =>
      rw [hm'] at hb
      have hb' := removeAcls_subset t _ m' b hb
      have h := hadd m b (by rw [hm']; exact hb')
      rwa [← hst]

end KafkaCharm
