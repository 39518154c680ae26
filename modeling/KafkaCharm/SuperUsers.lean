import KafkaCharm.ClientDecoding
import KafkaCharm.ClientUsers
import KafkaCharm.ServerProperties

namespace KafkaCharm

open PyText
open Fallible (exists_of_mem_mapM map_mapM)

/-! ## Relations and their databags -/

/-- A relation with the clients that `ClusterState.clients` makes of it; `none` where it
raises. -/
def clientRelation (D : DataInterface) :
    Nat × Option (List (String × Str)) → Option ClientRelation
  | (id, none) => some ⟨id, false, [], []⟩
  | (id, some bag) => (D.relationClients id bag).map fun cs =>
      ⟨id, true, (Dict.get? bag "extra-user-roles").getD [], cs⟩

/-- The client relations are those of the databags. -/
def ClusterState.Reads (s : ClusterState) (D : DataInterface) (d : ClientDatabags) : Prop :=
  d.bags.mapM (clientRelation D) = some s.clientRelations

/-! ## Super users -/

/-- `admin` is one of the comma-delimited roles. -/
def KafkaClient.isAdmin (c : KafkaClient) : Bool := decide (adminRole ∈ c.extraUserRoles.splitOn ',')

namespace ClusterState

variable (s : ClusterState)

/-- The password of a user is stored. -/
def Stored (user : Str) : Prop := user ∈ Dict.keys s.clientPasswords

instance (user : Str) : Decidable (s.Stored user) := List.instDecidableMemOfLawfulBEq _ _

/-- Who is to be a super user. -/
def IsSuperUser (user : Str) : Prop :=
  user ∈ internalUsers ∨ user = controllerUser ∨
    ∃ c ∈ s.builtClients, c.username = user ∧ c.isAdmin = true ∧ s.Stored user

/-- The databag of a relation and its clients tell the same admins: no client with the name of a
request is an admin whose password is stored, and where that of the relation is stored, its
databag has the text `admin` in the roles exactly if the client of that name is an admin. -/
def AdminsAgree (r : ClientRelation) : Prop :=
  (∀ c ∈ r.clients, c.isAdmin = true → s.Stored c.username → c.username = relationUser r.id) ∧
    (s.Stored (relationUser r.id) →
      (adminRole <:+: r.extraUserRoles ↔
        ∃ c ∈ r.clients, c.username = relationUser r.id ∧ c.isAdmin = true))

end ClusterState

/-- A semicolon-delimited text names the principals of exactly these users, each once and in
sorted order. -/
def NamesExactly (text : Str) (users : Str → Prop) : Prop :=
  let principals := text.splitOn ';'
  principals.Pairwise (· < ·) ∧
    ∀ p, p ∈ principals ↔ ∃ user, users user ∧ p = userPrincipal user

theorem NamesExactly.congr {text : Str} {users users' : Str → Prop} (h : NamesExactly text users)
    (hsame : ∀ user, users user ↔ users' user) : NamesExactly text users' := by
  obtain rfl : users = users' := funext fun user => propext (hsame user)
  exact h

/-- A text names exactly one set of users. -/
theorem NamesExactly.unique {text : Str} {users users' : Str → Prop} (h : NamesExactly text users)
    (h' : NamesExactly text users') (user : Str) : users user ↔ users' user := by
  have hiff {users : Str → Prop} (h : NamesExactly text users) :
      users user ↔ userPrincipal user ∈ text.splitOn ';' := by
    rw [h.2 (userPrincipal user)]
    constructor
    · intro huser
      exact ⟨user, huser, rfl⟩
    · rintro ⟨other, hother, heq⟩
      rwa [userPrincipal_injective heq]
  exact (hiff h).trans (hiff h').symm

/-- Users without a semicolon in their names, sorted and joined. -/
theorem namesExactly_sorted {users : List Str} (hnodup : users.Nodup) (hne : users ≠ [])
    (hsep : ∀ user ∈ users, ';' ∉ user) :
    NamesExactly ([';'].intercalate (sortStrings (users.map userPrincipal))) (· ∈ users) := by
  have hperm := List.mergeSort_perm (users.map userPrincipal) fun a b => !(b.lex a)
  have hdistinct : (sortStrings (users.map userPrincipal)).Nodup := by
    refine hperm.nodup_iff.mpr (hnodup.map ?_)
    exact fun u v heq => userPrincipal_injective heq
  have hsep' : ∀ p ∈ sortStrings (users.map userPrincipal), ';' ∉ p := by
    intro p hp
    obtain ⟨user, huser, rfl⟩ := List.mem_map.mp (mem_sortStrings.mp hp)
    unfold userPrincipal
    intro hmem
    rcases List.mem_append.mp hmem with hmem | hmem
    · exact absurd hmem (by decide)
    · exact hsep user huser hmem
  have hne' : sortStrings (users.map userPrincipal) ≠ [] := by
    intro hnil
    have hlength := hperm.length_eq
    rw [show (users.map userPrincipal).mergeSort _ = [] from hnil, List.length_map] at hlength
    exact hne (List.length_eq_zero_iff.mp hlength.symm)
  unfold NamesExactly
  rw [List.splitOn_intercalate ';' hsep' hne']
  refine ⟨?_, ?_⟩
  · have hboth := (pairwise_sortStrings (users.map userPrincipal)).and hdistinct
    exact hboth.imp fun hlt => lt_of_le_of_ne hlt.1 hlt.2
  · intro p
    rw [mem_sortStrings, List.mem_map]
    exact exists_congr fun user => and_congr_right fun _ => eq_comm

/-! ## Names -/

theorem generateUsername_none (id : Nat) : generateUsername id none = relationUser id :=
  List.append_nil _

theorem username_of_mem_clients {D : DataInterface} {id : Nat} {bag : List (String × Str)}
    {cs : List KafkaClient} (h : D.relationClients id bag = some cs) {c : KafkaClient}
    (hc : c ∈ cs) : ∃ q, c.username = generateUsername id q := by
  obtain ⟨fields, requests, -, -, rfl⟩ := DataInterface.relationClients_eq_some.mp h
  obtain ⟨request, -, rfl⟩ := List.mem_map.mp hc
  exact ⟨request.requestId, rfl⟩

theorem clientRelation_eq_some {D : DataInterface}
    {entry : Nat × Option (List (String × Str))} {r : ClientRelation}
    (h : clientRelation D entry = some r) :
    r.id = entry.1 ∧ ∀ c ∈ r.clients, ∃ q, c.username = generateUsername r.id q := by
  obtain ⟨id, bag⟩ := entry
  cases bag with
  | none =>
    cases h
    exact ⟨rfl, List.forall_mem_nil _⟩
  | some bag =>
    obtain ⟨cs, hcs, rfl⟩ := Option.map_eq_some_iff.mp h
    exact ⟨rfl, fun c hc => username_of_mem_clients hcs hc⟩

namespace ClusterState

variable {s : ClusterState} {D : DataInterface} {d : ClientDatabags}

/-- The clients of a relation have its id in their names. -/
theorem Reads.username (h : s.Reads D d) {r : ClientRelation} (hr : r ∈ s.clientRelations)
    {c : KafkaClient} (hc : c ∈ r.clients) : ∃ q, c.username = generateUsername r.id q := by
  obtain ⟨entry, -, hentry⟩ := exists_of_mem_mapM h hr
  exact (clientRelation_eq_some hentry).2 c hc

/-- A relation is told by its id. -/
theorem Reads.eq_of_id (h : s.Reads D d) {r r' : ClientRelation}
    (hr : r ∈ s.clientRelations) (hr' : r' ∈ s.clientRelations) (hid : r.id = r'.id) : r = r' := by
  have hids : s.clientRelations.map ClientRelation.id = d.bags.map Prod.fst :=
    map_mapM (fun _ _ hentry => (clientRelation_eq_some hentry).1) h
  have hnodup : (s.clientRelations.map ClientRelation.id).Nodup := by
    rw [hids]
    exact d.nodupKeys
  exact List.inj_on_of_nodup_map hnodup hr hr' hid

/-! ## The list -/

/-- Whom `super_users` adds to the users of the charm. -/
def IsNamed (s : ClusterState) (user : Str) : Prop :=
  ∃ r ∈ s.clientRelations, r.app = true ∧ adminRole <:+: r.extraUserRoles ∧
    s.Stored (relationUser r.id) ∧ user = relationUser r.id

theorem semicolon_notMem_relationUser (id : Nat) : ';' ∉ relationUser id := by
  unfold relationUser
  intro hmem
  rcases List.mem_append.mp hmem with hmem | hmem
  · exact absurd hmem (by decide)
  · exact absurd (isDigit_of_mem_decimal hmem) (by decide)

/-- On an application that runs a broker, `super_users` names the users of the charm and those
it adds. -/
theorem namesExactly_superUsers (hbroker : s.roles.broker = true) (e : Enumeration s) :
    NamesExactly (superUsers e) fun user =>
      user ∈ internalUsers ∨ user = controllerUser ∨ s.IsNamed user := by
  have hrole : s.runsControllerOnly = false := by simp [runsControllerOnly, hbroker]
  unfold superUsers
  rw [hrole, if_neg (by decide)]
  dsimp only
  generalize husers : (internalUsers ++ [controllerUser] ++ (e.clientRelations.filter fun r =>
    r.app && decide (adminRole <:+: r.extraUserRoles) &&
      decide (relationUser r.id ∈ Dict.keys s.clientPasswords)).map (relationUser ·.id)).dedup =
    users
  have hmem (user : Str) : user ∈ users ↔
      user ∈ internalUsers ∨ user = controllerUser ∨ s.IsNamed user := by
    rw [← husers, List.mem_dedup, List.mem_append, List.mem_append, List.mem_singleton, or_assoc]
    simp only [IsNamed, Stored, List.mem_map, List.mem_filter, e.clientRelations_perm.mem_iff,
      Bool.and_eq_true, decide_eq_true_eq, and_assoc, eq_comm (a := user)]
  refine (namesExactly_sorted ?_ ?_ ?_).congr hmem
  · rw [← husers]
    exact List.nodup_dedup _
  · exact List.ne_nil_of_mem ((hmem controllerUser).mpr (.inr (.inl rfl)))
  · intro user huser
    rcases (hmem user).mp huser with hinternal | rfl | ⟨r, -, -, -, -, rfl⟩
    · have hplain : internalUsers.all (fun name => decide (';' ∉ name)) = true := by decide
      exact of_decide_eq_true (List.all_eq_true.mp hplain user hinternal)
    · decide
    · exact semicolon_notMem_relationUser r.id

/-! ## Admins -/

/-- A client of a known application whose role is `admin`, and whose password is stored. -/
def IsAdminUser (s : ClusterState) (user : Str) : Prop :=
  ∃ r ∈ s.clientRelations, r.app = true ∧
    ∃ c ∈ r.clients, c.username = user ∧ c.isAdmin = true ∧ s.Stored user

theorem isSuperUser_iff {user : Str} :
    s.IsSuperUser user ↔ user ∈ internalUsers ∨ user = controllerUser ∨ s.IsAdminUser user := by
  unfold IsSuperUser IsAdminUser builtClients
  refine or_congr_right (or_congr_right ?_)
  constructor
  · rintro ⟨c, hc, huser⟩
    obtain ⟨r, hr, hc⟩ := List.mem_flatMap.mp hc
    obtain ⟨hr, happ⟩ := List.mem_filter.mp hr
    exact ⟨r, hr, happ, c, hc, huser⟩
  · rintro ⟨r, hr, happ, c, hc, huser⟩
    exact ⟨c, List.mem_flatMap.mpr ⟨r, List.mem_filter.mpr ⟨hr, happ⟩, hc⟩, huser⟩

/-- The names of the charm are not made for relations. -/
theorem not_prefix_own {user : Str} (h : user ∈ internalUsers ∨ user = controllerUser) :
    ¬ ("relation-" : Str) <+: user := by
  have hown : (internalUsers ++ [controllerUser]).all
      (fun name => !("relation-" : Str).isPrefixOf name) = true := by decide
  have huser : user ∈ internalUsers ++ [controllerUser] :=
    List.mem_append.mpr (h.imp_right List.mem_singleton.mpr)
  have hnot := List.all_eq_true.mp hown user huser
  intro hprefix
  rw [List.isPrefixOf_iff_prefix.mpr hprefix] at hnot
  cases hnot

theorem IsNamed.of_relation {user : Str} (h : s.IsNamed user) : ("relation-" : Str) <+: user := by
  obtain ⟨r, -, -, -, -, rfl⟩ := h
  exact ⟨_, rfl⟩

theorem IsAdminUser.of_relation (hreads : s.Reads D d) {user : Str} (h : s.IsAdminUser user) :
    ("relation-" : Str) <+: user := by
  obtain ⟨r, hr, -, c, hc, rfl, -⟩ := h
  obtain ⟨q, hq⟩ := hreads.username hr hc
  rw [hq]
  exact generateUsername_form r.id q

/-- Exactly the super users are named if exactly the admins are added. -/
theorem namesExactly_iff (hreads : s.Reads D d) (hbroker : s.roles.broker = true)
    (e : Enumeration s) :
    NamesExactly (superUsers e) s.IsSuperUser ↔ ∀ user, s.IsNamed user ↔ s.IsAdminUser user := by
  have hnamed := namesExactly_superUsers hbroker e
  constructor
  · intro hexact user
    have hsame := (hnamed.unique hexact user).trans isSuperUser_iff
    constructor
    · intro huser
      rcases hsame.mp (.inr (.inr huser)) with hown | hown | hadmin
      · exact absurd huser.of_relation (not_prefix_own (.inl hown))
      · exact absurd huser.of_relation (not_prefix_own (.inr hown))
      · exact hadmin
    · intro huser
      rcases hsame.mpr (.inr (.inr huser)) with hown | hown | hnamed
      · exact absurd (huser.of_relation hreads) (not_prefix_own (.inl hown))
      · exact absurd (huser.of_relation hreads) (not_prefix_own (.inr hown))
      · exact hnamed
  · intro hsame
    refine hnamed.congr fun user => ?_
    rw [hsame user, isSuperUser_iff]

/-- The name of a client is that of a relation only if it is the relation of the client. -/
theorem Reads.relation_of_username (hreads : s.Reads D d) {r r' : ClientRelation}
    (hr : r ∈ s.clientRelations) (hr' : r' ∈ s.clientRelations) {c : KafkaClient}
    (hc : c ∈ r.clients) (h : c.username = relationUser r'.id) : r = r' := by
  obtain ⟨q, hq⟩ := hreads.username hr hc
  rw [hq, ← generateUsername_none] at h
  exact hreads.eq_of_id hr hr' (generateUsername_relationId h)

theorem relationUser_injective {id id' : Nat} (h : relationUser id = relationUser id') : id = id' :=
  decimal_injective (List.append_cancel_left h)

theorem isNamed_iff_isAdminUser (hreads : s.Reads D d) :
    (∀ user, s.IsNamed user ↔ s.IsAdminUser user) ↔
      ∀ r ∈ s.clientRelations, r.app = true → s.AdminsAgree r := by
  constructor
  · intro hsame r hr happ
    refine ⟨?_, fun hstored => ⟨?_, ?_⟩⟩
    · intro c hc hadmin hstored
      obtain ⟨r', hr', -, -, -, hname⟩ := (hsame c.username).mpr ⟨r, hr, happ, c, hc, rfl, hadmin, hstored⟩
      rwa [hreads.relation_of_username hr hr' hc hname]
    · intro hroles
      obtain ⟨r', hr', -, c, hc, hname, hadmin, -⟩ :=
        (hsame _).mp ⟨r, hr, happ, hroles, hstored, rfl⟩
      obtain rfl := hreads.relation_of_username hr' hr hc hname
      exact ⟨c, hc, hname, hadmin⟩
    · rintro ⟨c, hc, hname, hadmin⟩
      obtain ⟨r', hr', -, hroles, -, heq⟩ :=
        (hsame _).mpr ⟨r, hr, happ, c, hc, hname, hadmin, hstored⟩
      rwa [hreads.eq_of_id hr hr' (relationUser_injective heq)]
  · intro hagree user
    constructor
    · rintro ⟨r, hr, happ, hroles, hstored, rfl⟩
      obtain ⟨c, hc, hname, hadmin⟩ := ((hagree r hr happ).2 hstored).mp hroles
      exact ⟨r, hr, happ, c, hc, hname, hadmin, hstored⟩
    · rintro ⟨r, hr, happ, c, hc, rfl, hadmin, hstored⟩
      obtain ⟨hname, hroles⟩ := hagree r hr happ
      have hname := hname c hc hadmin hstored
      rw [hname] at hstored ⊢
      exact ⟨r, hr, happ, (hroles hstored).mpr ⟨c, hc, hname, hadmin⟩, hstored, rfl⟩

end ClusterState

/-- On an application that runs a broker, `super_users` names exactly the super users if and only
if the databag of every relation and its clients tell the same admins. -/
theorem super_users_exact_iff (D : DataInterface) (d : ClientDatabags) (s : ClusterState)
    (hreads : s.Reads D d) (hbroker : s.roles.broker = true) (e : Enumeration s) :
    NamesExactly (ClusterState.superUsers e) s.IsSuperUser ↔
      ∀ r ∈ s.clientRelations, r.app = true → s.AdminsAgree r :=
  (ClusterState.namesExactly_iff hreads hbroker e).trans
    (ClusterState.isNamed_iff_isAdminUser hreads)

/-- A client that is an admin, in the first version of the data interface. -/
def adminBagV0 : List (String × Str) := [("topic", "orders"), ("extra-user-roles", "admin")]

/-- The same in the second. -/
def adminBagV1 : List (String × Str) :=
  [("version", "v1"), ("requests", "[\x7b\"resource\": \"orders\", \"request-id\": \"9f86d081884c7d65\", \"extra-user-roles\": \"admin\"\x7d]")]

/-- A broker with an admin client whose password is stored. -/
def adminState (roles username : Str) : ClusterState :=
  { ClusterState.single (CharmConfig.deployed none) with
    clientRelations := [⟨7, true, roles, [⟨username, "orders", adminRole, [], some [], []⟩]⟩]
    clientPasswords := [(username, "pass")] }

def adminDatabags (bag : List (String × Str)) : ClientDatabags where
  bags := [(7, some bag)]
  nodupKeys := List.nodup_singleton 7

theorem adminState_reads_v0 :
    (adminState "admin" "relation-7").Reads plainInterface (adminDatabags adminBagV0) := by
  show List.mapM _ _ = _
  decide +kernel

theorem adminState_reads_v1 : (adminState [] "relation-7-9f86d081884c7d65").Reads plainInterface
    (adminDatabags adminBagV1) := by
  show List.mapM _ _ = _
  decide +kernel

theorem super_users_exact_v0 :
    NamesExactly (ClusterState.superUsers (Enumeration.listed (adminState "admin" "relation-7")))
      (adminState "admin" "relation-7").IsSuperUser := by
  refine (super_users_exact_iff plainInterface _ _ adminState_reads_v0 rfl _).mpr ?_
  intro r hr _
  obtain rfl := List.mem_singleton.mp hr
  refine ⟨?_, fun _ => iff_of_true (by decide) ⟨_, List.mem_singleton_self _, rfl, by decide⟩⟩
  intro c hc _ _
  obtain rfl := List.mem_singleton.mp hc
  rfl

/-- The admin of a request is not named. -/
theorem super_users_miss_request :
    let s := adminState [] "relation-7-9f86d081884c7d65"
    s.Reads plainInterface (adminDatabags adminBagV1) ∧ s.roles.broker = true ∧
      s.IsSuperUser "relation-7-9f86d081884c7d65" ∧
      userPrincipal "relation-7-9f86d081884c7d65" ∉
        (ClusterState.superUsers (Enumeration.listed s)).splitOn ';' ∧
      ¬ NamesExactly (ClusterState.superUsers (Enumeration.listed s)) s.IsSuperUser := by
  intro s
  have hadmin : s.IsSuperUser "relation-7-9f86d081884c7d65" :=
    .inr (.inr ⟨_, List.mem_singleton_self _, rfl, by decide, by decide⟩)
  have hmissing : userPrincipal "relation-7-9f86d081884c7d65" ∉
      (ClusterState.superUsers (Enumeration.listed s)).splitOn ';' := by
    intro hmem
    obtain ⟨user, huser, heq⟩ :=
      ((ClusterState.namesExactly_superUsers rfl (Enumeration.listed s)).2 _).mp hmem
    obtain rfl := userPrincipal_injective heq
    rcases huser with hown | hown | ⟨r, hr, -, hroles, -⟩
    · exact absurd hown (by decide)
    · exact absurd hown (by decide)
    · obtain rfl := List.mem_singleton.mp hr
      exact absurd hroles (by decide)
  refine ⟨adminState_reads_v1, rfl, hadmin, hmissing, ?_⟩
  rintro ⟨-, hnames⟩
  exact hmissing ((hnames _).mpr ⟨_, hadmin, rfl⟩)

end KafkaCharm
