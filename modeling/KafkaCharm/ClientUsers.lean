import KafkaCharm.ClientRequest
import KafkaCharm.Lib.Fallible
import KafkaCharm.Lib.Runs
import Mathlib.Logic.Relation

/-! A client of a `kafka-client` relation gets a SCRAM user and ACLs in Kafka, and the leader records
its name and password in the cluster relation data. Kafka keeps what a command did; of the
relation data only what a hook that succeeds has written is kept. A command that fails may or may
not have had its effect. -/

namespace KafkaCharm

open PyText Fallible Outcome

/-! ## State and commands -/

/-- A password; the relation data keeps no empty value. -/
abbrev Password := { s : Str // s ≠ [] }

/-- A request of a client relation. -/
structure RelationClient where
  relationId : Nat
  requestId : Option Str
  needs : AclNeeds
  deriving DecidableEq, Repr

def RelationClient.username (c : RelationClient) : Str := generateUsername c.relationId c.requestId

/-- What the leader works with: the requests of the existing relations, the relations
that are gone, the recorded passwords, and the users and ACLs in Kafka. `swept` are the
relations that were gone when `reconcile` last completed. -/
structure LeaderState where
  clients : List RelationClient
  removed : List Nat
  stored : List (Str × Password)
  scram : List (Str × Password)
  acls : List Acl
  swept : List Nat
  deriving DecidableEq

/-- How a command ends. One that is `lost` has its effect and is reported as failed. -/
inductive Command where
  | done
  | failed
  | lost
  deriving DecidableEq, Repr

/-- How a sequence of ACL commands ends; when it does not complete, which of the ACLs
it was about are there. -/
structure AclCommands where
  completes : Bool
  there : Acl → Bool

namespace LeaderState

variable (s : LeaderState)

/-- A command with the given effect. -/
def exec (command : Command) (effect : LeaderState) : Outcome LeaderState :=
  match command with
  | .done => returned effect
  | .failed => raised s
  | .lost => raised effect

/-- `AuthManager.add_user`. -/
def addUser (command : Command) (username : Str) (password : Password) : Outcome LeaderState :=
  s.exec command { s with scram := Dict.set s.scram username password }

/-- `AuthManager.delete_user`; a user that does not exist is no error. -/
def deleteUser (command : Command) (username : Str) : Outcome LeaderState :=
  s.exec command { s with scram := Dict.erase s.scram username }

/-- `AuthManager.remove_all_user_acls`. -/
def removeAllUserAcls (commands : AclCommands) (username : Str) : Outcome LeaderState :=
  let others := s.acls.filter (·.username ≠ username)
  if commands.completes then returned { s with acls := others }
  else
    let own := s.acls.filter (·.username = username)
    raised { s with acls := others ++ own.filter commands.there }

/-- `AuthManager.update_user_acls`. -/
def updateUserAcls (commands : AclCommands) (username : Str) (needs : AclNeeds) :
    Outcome LeaderState :=
  let others := s.acls.filter (·.username ≠ username)
  let computed := needs.computedUserAcls username
  if commands.completes then returned { s with acls := others ++ computed }
  else
    let own := s.acls.filter (·.username = username)
    raised { s with acls := others ++ (own ++ computed).filter commands.there }

end LeaderState

/-! ## The procedures of a hook -/

/-- One call of `handle_client_request`. `ready` are its checks on other data, `fresh`
is what `generate_password` gives. -/
structure ClientSetup where
  client : RelationClient
  ready : Bool
  fresh : Password
  addUser : Command
  acls : AclCommands

/-- How the removal of a user ends. -/
structure Removal where
  acls : AclCommands
  user : Command

/-- One call of `reconcile`: its check, and how each of its commands ends. -/
structure Reconcile where
  healthy : Bool
  order : SetOrder Str
  removal : Str → Removal
  setups : List ClientSetup

/-- One call of `update_credentials_cache`. `getUsers` is whether the listing succeeds. -/
structure CacheUpdate where
  ready : Bool
  getUsers : Bool
  clients : List RelationClient
  addUser : Str → Command

namespace LeaderState

/-- `handle_client_request`, for a client built when the passwords were as given. A failing
`add_user` is caught. -/
def handleClientRequest (passwords : List (Str × Password)) (e : ClientSetup) (s : LeaderState) :
    Outcome LeaderState :=
  let username := e.client.username
  if e.client.needs.topic = [] ∨ username ∈ Dict.keys s.stored ∨ e.ready = false then returned s
  else
    let password := (Dict.get? passwords username).getD e.fresh
    match s.addUser e.addUser username password with
    | raised s => returned s
    | returned s =>
      (s.updateUserAcls e.acls username e.client.needs).andThen fun s =>
        returned { s with stored := Dict.set s.stored username password }

/-- `client_usernames - active_clients`. -/
def staleUsers (s : LeaderState) : List Str :=
  (Dict.keys s.stored).filter fun u =>
    ("relation-" : Str).isPrefixOf u && u ∉ s.clients.map RelationClient.username

/-- One round of `remove_broken_clients`. -/
def removeBrokenClient (removal : Str → Removal) (username : Str) (s : LeaderState) :
    Outcome LeaderState :=
  ((s.removeAllUserAcls (removal username).acls username).andThen
    (deleteUser · (removal username).user username)).andThen
    fun s => returned { s with stored := Dict.erase s.stored username }

/-- `remove_broken_clients`. -/
def removeBrokenClients (e : Reconcile) (s : LeaderState) : Outcome LeaderState :=
  each (removeBrokenClient e.removal) (e.order.list s.staleUsers) s

/-- `reconcile` on the leader, as far as users and ACLs go. -/
def reconcile (e : Reconcile) (s : LeaderState) : Outcome LeaderState :=
  if e.healthy then
    ((removeBrokenClients e s).andThen fun s =>
      each (handleClientRequest s.stored) e.setups s).andThen
      fun s => returned { s with swept := s.removed }
  else returned s

/-- `update_credentials_cache`: the clients are built and the users listed once. -/
def updateCredentialsCache (e : CacheUpdate) (s : LeaderState) : Outcome LeaderState :=
  if e.ready && e.getUsers then
    each (fun client t =>
      match Dict.get? s.stored client.username with
      | none => returned t
      | some password =>
        if client.username ∈ Dict.keys s.scram then returned t
        else t.addUser (e.addUser client.username) client.username password) e.clients s
  else returned s

end LeaderState

/-- What a hook of the leader may call. -/
inductive HookCall where
  | topicRequested (setups : List ClientSetup)
  | reconcile (e : Reconcile)
  | updateCredentialsCache (e : CacheUpdate)

def HookCall.run (call : HookCall) (s : LeaderState) : Outcome LeaderState :=
  match call with
  | .topicRequested setups => each (LeaderState.handleClientRequest s.stored) setups s
  | .reconcile e => s.reconcile e
  | .updateCredentialsCache e => s.updateCredentialsCache e

/-- The clients that a call goes through. -/
def HookCall.clients : HookCall → List RelationClient
  | .topicRequested setups => setups.map ClientSetup.client
  | .reconcile e => e.setups.map ClientSetup.client
  | .updateCredentialsCache e => e.clients

/-- Clients come and go between hooks. `completes` is whether a hook succeeds after its calls. -/
inductive LeaderEvent where
  | requested (client : RelationClient)
  | withdrawn (client : RelationClient)
  | relationRemoved (relationId : Nat)
  | hook (calls : List HookCall) (completes : Bool)

/-- What is left of a hook: when it fails, the relation data is as it was. -/
def hookResult (s : LeaderState) (completes : Bool) : Outcome LeaderState → LeaderState
  | returned t => if completes then t else { t with stored := s.stored }
  | raised t => { t with stored := s.stored }

/-- One event. Relation ids are never used again; within a hook the clients stay the same. -/
def hookStep (s : LeaderState) : LeaderEvent → Option LeaderState
  | .requested client =>
    if client.relationId ∈ s.removed then none
    else some { s with clients := client :: s.clients }
  | .withdrawn client => some { s with clients := s.clients.filter (· ≠ client) }
  | .relationRemoved relationId =>
    some { s with
      clients := s.clients.filter (·.relationId ≠ relationId)
      removed := relationId :: s.removed }
  | .hook calls completes =>
    if ∀ call ∈ calls, ∀ client ∈ call.clients, client ∈ s.clients then
      some (hookResult s completes (each HookCall.run calls s))
    else none

/-- Before there is any client: no name of one is recorded or known to Kafka. -/
structure LeaderState.Initial (s : LeaderState) : Prop where
  clients : s.clients = []
  removed : s.removed = []
  swept : s.swept = []
  stored : ∀ u ∈ Dict.keys s.stored, ¬ ("relation-" : Str) <+: u
  scram : ∀ u ∈ Dict.keys s.scram, ¬ ("relation-" : Str) <+: u
  acls : ∀ a ∈ s.acls, ¬ ("relation-" : Str) <+: a.username

/-! ## What a hook can do -/

namespace LeaderState

/-- The name of an existing client. -/
def IsClient (s : LeaderState) (u : Str) : Prop := u ∈ s.clients.map RelationClient.username

/-- Kafka has a SCRAM user or an ACL of this name. -/
def Knows (s : LeaderState) (u : Str) : Prop := u ∈ Dict.keys s.scram ∨ ∃ a ∈ s.acls, a.username = u

instance (s : LeaderState) (u : Str) : Decidable (s.IsClient u) :=
  inferInstanceAs (Decidable (_ ∈ _))

instance (s : LeaderState) (u : Str) : Decidable (s.Knows u) := inferInstanceAs (Decidable (_ ∨ _))

theorem isClient_of_mem {s : LeaderState} {c : RelationClient} (hc : c ∈ s.clients) :
    s.IsClient c.username :=
  List.mem_map_of_mem hc

/-- The effects a hook has, one at a time: on SCRAM users, on ACLs, on the recorded
passwords. A sweep is a `reconcile` that comes to its end. -/
inductive Edit (s : LeaderState) : LeaderState → Prop
  | userSet {c : RelationClient} {p : Password} (hc : c ∈ s.clients)
      (hp : ∀ q, Dict.get? s.stored c.username = some q → q = p) :
      Edit s { s with scram := Dict.set s.scram c.username p }
  | userErased {u : Str} (hu : ¬ s.IsClient u) : Edit s { s with scram := Dict.erase s.scram u }
  | acls {acls : List Acl} (h : ∀ a ∈ acls, a ∈ s.acls ∨ s.IsClient a.username) :
      Edit s { s with acls := acls }
  | recorded {c : RelationClient} {p : Password} (hc : c ∈ s.clients)
      (hnew : c.username ∉ Dict.keys s.stored) (hp : Dict.get? s.scram c.username = some p) :
      Edit s { s with stored := Dict.set s.stored c.username p }
  | forgotten {u : Str} (hu : ¬ s.IsClient u) (hgone : ¬ s.Knows u) :
      Edit s { s with stored := Dict.erase s.stored u }
  | swept (h : ∀ u ∈ Dict.keys s.stored, ("relation-" : Str) <+: u → s.IsClient u) :
      Edit s { s with swept := s.removed }

abbrev Edits : LeaderState → LeaderState → Prop := Relation.ReflTransGen Edit

variable {s t : LeaderState}

theorem Edit.fixed (h : Edit s t) : t.clients = s.clients ∧ t.removed = s.removed := by
  cases h <;> exact ⟨rfl, rfl⟩

theorem Edits.fixed (h : Edits s t) : t.clients = s.clients ∧ t.removed = s.removed := by
  induction h with
  | refl => exact ⟨rfl, rfl⟩
  | tail _ hedit ih => exact ⟨hedit.fixed.1.trans ih.1, hedit.fixed.2.trans ih.2⟩

theorem Edits.isClient_iff (h : Edits s t) {u : Str} : t.IsClient u ↔ s.IsClient u := by
  rw [IsClient, IsClient, h.fixed.1]

/-- Only clients are recorded. -/
theorem Edits.keys (h : Edits s t) {u : Str} (hu : u ∈ Dict.keys t.stored) :
    u ∈ Dict.keys s.stored ∨ s.IsClient u := by
  induction h with
  | refl => exact .inl hu
  | @tail m _ hsm hedit ih =>
    cases hedit with
    | userSet => exact ih hu
    | userErased => exact ih hu
    | acls => exact ih hu
    | recorded hc =>
      rcases Dict.mem_keys_set.mp hu with rfl | hu
      · exact .inr ((Edits.isClient_iff hsm).mp (isClient_of_mem hc))
      · exact ih hu
    | forgotten => exact ih (Dict.mem_keys_erase.mp hu).2
    | swept => exact ih hu

/-- Whatever a command does, its state is the one before or the one with its effect. -/
theorem exec_edits {command : Command} {effect : LeaderState} (h : Edit s effect) :
    Edits s (s.exec command effect).state := by
  cases command with
  | done => exact .single h
  | failed => exact .refl
  | lost => exact .single h

theorem updateUserAcls_edit (commands : AclCommands) {u : Str} (needs : AclNeeds)
    (hu : s.IsClient u) : Edit s (s.updateUserAcls commands u needs).state := by
  unfold updateUserAcls
  split
  · refine .acls fun a ha => ?_
    rcases List.mem_append.mp ha with ha | ha
    · exact .inl (List.mem_of_mem_filter ha)
    · exact .inr (computedUserAcls_username ha ▸ hu)
  · refine .acls fun a ha => ?_
    rcases List.mem_append.mp ha with ha | ha
    · exact .inl (List.mem_of_mem_filter ha)
    · rcases List.mem_append.mp (List.mem_of_mem_filter ha) with ha | ha
      · exact .inl (List.mem_of_mem_filter ha)
      · exact .inr (computedUserAcls_username ha ▸ hu)

theorem removeAllUserAcls_edit (commands : AclCommands) (u : Str) :
    Edit s (s.removeAllUserAcls commands u).state := by
  unfold removeAllUserAcls
  split
  · exact .acls fun a ha => .inl (List.mem_of_mem_filter ha)
  · refine .acls fun a ha => .inl ?_
    rcases List.mem_append.mp ha with ha | ha
    · exact List.mem_of_mem_filter ha
    · exact List.mem_of_mem_filter (List.mem_of_mem_filter ha)

theorem exec_eq_returned {command : Command} {effect : LeaderState}
    (h : s.exec command effect = returned t) : t = effect := by
  cases command with
  | done => cases h; rfl
  | failed => cases h
  | lost => cases h

theorem removeAllUserAcls_eq_returned {commands : AclCommands} {u : Str}
    (h : s.removeAllUserAcls commands u = returned t) :
    t = { s with acls := s.acls.filter (·.username ≠ u) } := by
  unfold removeAllUserAcls at h
  split at h
  · cases h; rfl
  · cases h

theorem updateUserAcls_eq_returned {commands : AclCommands} {u : Str} {needs : AclNeeds}
    (h : s.updateUserAcls commands u needs = returned t) :
    t = { s with
      acls := s.acls.filter (·.username ≠ u) ++ needs.computedUserAcls u } := by
  unfold updateUserAcls at h
  split at h
  · cases h; rfl
  · cases h

theorem Edits.andThen {o : Outcome LeaderState} {next : LeaderState → Outcome LeaderState}
    (h : Edits s o.state) (hnext : ∀ t, o = returned t → Edits t (next t).state) :
    Edits s (o.andThen next).state := by
  cases o with
  | returned t => exact Relation.ReflTransGen.trans h (hnext t rfl)
  | raised t => exact h

theorem Edits.each {α : Type} {body : α → LeaderState → Outcome LeaderState} {as : List α}
    (hbody : ∀ a ∈ as, ∀ t, Edits s t → Edits t (body a t).state) :
    Edits s (each body as s).state :=
  each_state_invariant (fun a ha t ht => Relation.ReflTransGen.trans ht (hbody a ha t ht)) s .refl

/-- An `add_user` sets a password that no recorded one differs from, and only a name
that was not recorded is recorded afterwards. -/
theorem handleClientRequest_edits (passwords : List (Str × Password)) (e : ClientSetup)
    (hc : e.client ∈ s.clients) : Edits s (handleClientRequest passwords e s).state := by
  dsimp only [handleClientRequest]
  split
  · exact .refl
  rename_i hguard
  have hnew : e.client.username ∉ Dict.keys s.stored := fun h => hguard (.inr (.inl h))
  have hnone : Dict.get? s.stored e.client.username = none := by
    by_contra hsome
    exact hnew (Dict.mem_keys_iff.mpr hsome)
  have huser (p : Password) : Edit s { s with scram := Dict.set s.scram e.client.username p } :=
    .userSet hc fun q hq => by simp [hnone] at hq
  unfold addUser
  cases e.addUser with
  | failed => exact .refl
  | lost => exact .single (huser _)
  | done =>
    refine Edits.andThen (Relation.ReflTransGen.tail (.single (huser _))
      (updateUserAcls_edit e.acls e.client.needs (isClient_of_mem hc))) fun t ht => ?_
    obtain rfl := updateUserAcls_eq_returned ht
    exact .single (.recorded hc hnew (by rw [Dict.get?_set, if_pos rfl]))

/-- A name is forgotten only when its ACLs and its user are gone. -/
theorem removeBrokenClient_edits (removal : Str → Removal) {u : Str} (hu : ¬ s.IsClient u) :
    Edits s (removeBrokenClient removal u s).state := by
  refine Edits.andThen (Edits.andThen (.single (removeAllUserAcls_edit _ u)) fun t ht => ?_)
    fun t ht => ?_
  · obtain rfl := removeAllUserAcls_eq_returned ht
    exact exec_edits (.userErased hu)
  · obtain ⟨m, hm, hdel⟩ := andThen_eq_returned ht
    obtain rfl := removeAllUserAcls_eq_returned hm
    obtain rfl := exec_eq_returned hdel
    refine .single (.forgotten hu ?_)
    rintro (h | ⟨a, ha, hau⟩)
    · exact (Dict.mem_keys_erase.mp h).1 rfl
    · have := List.of_mem_filter ha
      simp [hau] at this

/-- What is left of the recorded names when a round completes. -/
theorem removeBrokenClient_stored {removal : Str → Removal} {u : Str}
    (h : removeBrokenClient removal u s = returned t) : t.stored = Dict.erase s.stored u := by
  obtain ⟨m, hm, ht⟩ := andThen_eq_returned h
  obtain ⟨n, hn, hdel⟩ := andThen_eq_returned hm
  obtain rfl := removeAllUserAcls_eq_returned hn
  obtain rfl := exec_eq_returned hdel
  cases ht
  rfl

/-- The loop erases exactly the names it is given. -/
theorem removeBrokenClients_keys {removal : Str → Removal} {us : List Str}
    (h : each (removeBrokenClient removal) us s = returned t) (u : Str) :
    u ∈ Dict.keys t.stored ↔ u ∈ Dict.keys s.stored ∧ u ∉ us := by
  induction us generalizing s with
  | nil =>
    cases h
    simp
  | cons v us ih =>
    obtain ⟨m, hm, ht⟩ := andThen_eq_returned h
    rw [ih ht, removeBrokenClient_stored hm, Dict.mem_keys_erase, List.mem_cons, not_or]
    tauto

theorem mem_staleUsers {u : Str} : u ∈ s.staleUsers ↔
    u ∈ Dict.keys s.stored ∧ ("relation-" : Str) <+: u ∧ ¬ s.IsClient u := by
  simp [staleUsers, IsClient]

theorem removeBrokenClients_edits (e : Reconcile) (s : LeaderState) :
    Edits s (removeBrokenClients e s).state := by
  refine Edits.each fun u hu t ht => removeBrokenClient_edits e.removal ?_
  rw [ht.isClient_iff]
  exact (mem_staleUsers.mp ((e.order.mem_list _ _).mp hu)).2.2

/-- After the loop only clients have a recorded name of their form. -/
theorem removeBrokenClients_clears {e : Reconcile} (h : removeBrokenClients e s = returned t)
    {u : Str} (hu : u ∈ Dict.keys t.stored) (hrel : ("relation-" : Str) <+: u) : s.IsClient u := by
  obtain ⟨hs, hnot⟩ := (removeBrokenClients_keys h u).mp hu
  by_contra hclient
  exact hnot ((e.order.mem_list _ _).mpr (mem_staleUsers.mpr ⟨hs, hrel, hclient⟩))

theorem handleClientRequests_edits (passwords : List (Str × Password)) {setups : List ClientSetup}
    (hc : ∀ e ∈ setups, e.client ∈ s.clients) :
    Edits s (each (handleClientRequest passwords) setups s).state :=
  Edits.each fun e he _ ht => handleClientRequest_edits passwords e (ht.fixed.1 ▸ hc e he)

theorem reconcile_edits (e : Reconcile) (hc : ∀ c ∈ e.setups.map ClientSetup.client, c ∈ s.clients) :
    Edits s (s.reconcile e).state := by
  unfold reconcile
  split
  swap
  · exact .refl
  have hbroken := removeBrokenClients_edits e s
  have hsetups {t : LeaderState} (ht : Edits s t) :
      Edits t (each (handleClientRequest t.stored) e.setups t).state :=
    handleClientRequests_edits t.stored fun x hx =>
      ht.fixed.1 ▸ hc x.client (List.mem_map_of_mem hx)
  refine Edits.andThen (hbroken.andThen fun t ht => hsetups (by simpa [ht] using hbroken))
    fun u hu => .single (.swept fun v hv hrel => ?_)
  obtain ⟨t, ht, hu⟩ := andThen_eq_returned hu
  have hst : Edits s t := by simpa [ht] using hbroken
  have htu : Edits t u := by simpa [hu] using hsetups hst
  rw [htu.isClient_iff]
  rcases htu.keys hv with hv | hv
  · exact hst.isClient_iff.mpr (removeBrokenClients_clears ht hv hrel)
  · exact hv

/-- The cache gets the password that is recorded throughout the loop. -/
theorem updateCredentialsCache_edits (e : CacheUpdate) (hc : ∀ c ∈ e.clients, c ∈ s.clients) :
    Edits s (s.updateCredentialsCache e).state := by
  unfold updateCredentialsCache
  split
  swap
  · exact .refl
  refine (each_state_invariant (I := fun t => Edits s t ∧ t.stored = s.stored) ?_ s ⟨.refl, rfl⟩).1
  rintro c hmem t ⟨hst, hstored⟩
  cases hp : Dict.get? s.stored c.username with
  | none => exact ⟨hst, hstored⟩
  | some p =>
    dsimp only
    split
    · exact ⟨hst, hstored⟩
    · have hedit : Edit t { t with scram := Dict.set t.scram c.username p } := by
        refine .userSet (hst.fixed.1 ▸ hc c hmem) fun q hq => ?_
        rw [hstored, hp] at hq
        exact (Option.some.inj hq).symm
      refine ⟨Relation.ReflTransGen.trans hst (exec_edits hedit), ?_⟩
      unfold addUser exec
      split <;> exact hstored

end LeaderState

theorem HookCall.run_edits (call : HookCall) {s : LeaderState}
    (hc : ∀ c ∈ call.clients, c ∈ s.clients) : s.Edits (call.run s).state := by
  cases call with
  | topicRequested setups =>
    exact LeaderState.handleClientRequests_edits s.stored fun e he =>
      hc e.client (List.mem_map_of_mem he)
  | reconcile e => exact LeaderState.reconcile_edits e hc
  | updateCredentialsCache e => exact LeaderState.updateCredentialsCache_edits e hc

/-- What a whole hook does to the state it starts from. -/
theorem hook_edits {calls : List HookCall} {s : LeaderState}
    (hc : ∀ call ∈ calls, ∀ c ∈ call.clients, c ∈ s.clients) :
    s.Edits (each HookCall.run calls s).state :=
  LeaderState.Edits.each fun call hmem _ ht =>
    call.run_edits fun c hcc => ht.fixed.1 ▸ hc call hmem c hcc

theorem hookStep_hook {calls : List HookCall} {completes : Bool} {s t : LeaderState}
    (h : hookStep s (.hook calls completes) = some t) :
    ∃ m, s.Edits m ∧ (t = m ∨ t = { m with stored := s.stored }) := by
  simp only [hookStep] at h
  split at h
  · rename_i hc
    have hedits := hook_edits hc
    cases h
    cases ho : each HookCall.run calls s with
    | returned m =>
      rw [ho] at hedits
      cases completes with
      | true => exact ⟨m, hedits, .inl rfl⟩
      | false => exact ⟨m, hedits, .inr rfl⟩
    | raised m =>
      rw [ho] at hedits
      exact ⟨m, hedits, .inr rfl⟩
  · cases h

/-! ## Recorded passwords and Kafka -/

namespace LeaderState

/-- The passwords recorded for clients are the ones in Kafka, or Kafka has none. -/
def Agrees (s : LeaderState) : Prop :=
  ∀ u p, ("relation-" : Str) <+: u → Dict.get? s.stored u = some p →
    Dict.get? s.scram u = none ∨ Dict.get? s.scram u = some p

/-- What holds inside a hook that started in `s`: the passwords agree, and they would
agree if the hook failed now, for no client that was recorded has lost its password. -/
structure Restartable (s t : LeaderState) : Prop where
  clients : t.clients = s.clients
  agrees : t.Agrees
  rolledBack : { t with stored := s.stored }.Agrees
  kept : ∀ c ∈ s.clients, ∀ p, Dict.get? s.stored c.username = some p →
    Dict.get? t.stored c.username = some p

variable {s t u : LeaderState}

theorem Restartable.refl (h : s.Agrees) : Restartable s s where
  clients := rfl
  agrees := h
  rolledBack := h
  kept _ _ _ hp := hp

theorem Restartable.edit (h : Restartable s t) (hedit : Edit t u) : Restartable s u := by
  cases hedit with
  | @userSet c p hc hp =>
    refine ⟨h.clients, fun v q hrel hq => ?_, fun v q hrel hq => ?_, h.kept⟩
    · rw [Dict.get?_set]
      split
      · rename_i hv
        exact .inr (congrArg some (hp q (hv ▸ hq)).symm)
      · exact h.agrees v q hrel hq
    · rw [Dict.get?_set]
      split
      · rename_i hv
        -- the rollback would bring back the password the client has kept
        have hkept := h.kept c (h.clients ▸ hc) q (hv ▸ hq)
        exact .inr (congrArg some (hp q hkept).symm)
      · exact h.rolledBack v q hrel hq
  | @userErased v hv =>
    refine ⟨h.clients, fun w q hrel hq => ?_, fun w q hrel hq => ?_, h.kept⟩
    · rw [Dict.get?_erase]
      split
      · exact .inl rfl
      · exact h.agrees w q hrel hq
    · rw [Dict.get?_erase]
      split
      · exact .inl rfl
      · exact h.rolledBack w q hrel hq
  | acls => exact ⟨h.clients, h.agrees, h.rolledBack, h.kept⟩
  | @recorded c p hc hnew hp =>
    refine ⟨h.clients, fun v q hrel hq => ?_, h.rolledBack, fun c' hc' q hq => ?_⟩
    · rw [Dict.get?_set] at hq
      split at hq
      · rename_i hv
        exact .inr (hv ▸ hp.trans hq)
      · exact h.agrees v q hrel hq
    · have hold := h.kept c' hc' q hq
      rw [Dict.get?_set, if_neg]
      · exact hold
      · intro heq
        exact hnew (Dict.mem_keys_iff.mpr (by rw [heq, hold]; simp))
  | @forgotten v hv =>
    refine ⟨h.clients, fun w q hrel hq => ?_, h.rolledBack, fun c hc q hq => ?_⟩
    · rw [Dict.get?_erase] at hq
      split at hq
      · cases hq
      · exact h.agrees w q hrel hq
    · rw [Dict.get?_erase, if_neg]
      · exact h.kept c hc q hq
      · rintro rfl
        exact hv (isClient_of_mem (h.clients ▸ hc))
  | swept => exact ⟨h.clients, h.agrees, h.rolledBack, h.kept⟩

theorem Edits.restartable (h : Edits s t) (hs : s.Agrees) : Restartable s t := by
  induction h with
  | refl => exact .refl hs
  | tail _ hedit ih => exact ih.edit hedit

theorem Initial.agrees (h : s.Initial) : s.Agrees := by
  intro u p hrel hp
  exact absurd hrel (h.stored u (Dict.mem_keys_iff.mpr (by rw [hp]; simp)))

end LeaderState

theorem hookStep_agrees {s t : LeaderState} {e : LeaderEvent} (hs : s.Agrees)
    (h : hookStep s e = some t) : t.Agrees := by
  cases e with
  | requested client =>
    simp only [hookStep] at h
    split at h
    · cases h
    · cases h; exact hs
  | withdrawn client => cases h; exact hs
  | relationRemoved relationId => cases h; exact hs
  | hook calls completes =>
    obtain ⟨m, hedits, rfl | rfl⟩ := hookStep_hook h
    · exact (hedits.restartable hs).agrees
    · exact (hedits.restartable hs).rolledBack

/-- In every run, whatever commands and hooks fail, the password recorded for a client
is never another one than Kafka's. -/
theorem recorded_passwords_agree {s t : LeaderState} (h0 : s.Initial)
    (h : Runs.Reaches hookStep Runs.anyStep s t) : t.Agrees :=
  h.invariant (I := LeaderState.Agrees) h0.agrees fun _ _ _ hs _ hstep => hookStep_agrees hs hstep

/-- A cluster with an internal user. -/
def freshCluster : LeaderState where
  clients := []
  removed := []
  stored := [(("admin" : Str), ⟨['x'], by decide⟩)]
  scram := [(("admin" : Str), ⟨['x'], by decide⟩)]
  acls := []
  swept := []

theorem freshCluster_initial : freshCluster.Initial := by
  refine ⟨rfl, rfl, rfl, ?_, ?_, ?_⟩ <;> decide

/-- The only request of relation 7. -/
def producerSeven : RelationClient where
  relationId := 7
  requestId := none
  needs := ⟨"orders", "producer", none, []⟩

/-- A setup whose ACL commands complete or not. -/
def setupSeven (addUser : Command) (aclsComplete : Bool) (fresh : Password) : ClientSetup where
  client := producerSeven
  ready := true
  fresh := fresh
  addUser := addUser
  acls := ⟨aclsComplete, fun _ => true⟩

/-- The ACLs fail after the user is created; the retry sets another password. -/
def retriedSetup : List LeaderEvent :=
  [.requested producerSeven,
    .hook [.topicRequested [setupSeven .done false ⟨['a'], by decide⟩]] true,
    .hook [.topicRequested [setupSeven .done true ⟨['b'], by decide⟩]] true]

theorem retriedSetup_agrees : ∃ t, Runs.Reaches hookStep Runs.anyStep freshCluster t ∧
    Dict.get? t.stored producerSeven.username = some ⟨['b'], by decide⟩ ∧ t.Agrees := by
  have hend : (Runs.replay hookStep Runs.anyStep freshCluster retriedSetup).any (fun t =>
      decide (Dict.get? t.stored producerSeven.username = some ⟨['b'], by decide⟩)) = true := by
    decide +kernel
  obtain ⟨t, ht, hp⟩ := (Option.any_eq_true _ _).mp hend
  have hrun := Runs.Reaches.replay _ _ _ _ ht
  exact ⟨t, hrun, of_decide_eq_true hp, recorded_passwords_agree freshCluster_initial hrun⟩

/-! ## Names of relations that are gone -/

/-- What follows the id of the relation in a generated name. -/
def usernameTail (requestId : Option Str) : Str :=
  if requestId.getD [] = [] then [] else '-' :: requestId.getD []

theorem generateUsername_eq (r : Nat) (q : Option Str) :
    generateUsername r q = ("relation-" : Str) ++ (decimal r ++ usernameTail q) :=
  List.append_assoc _ _ _

theorem generateUsername_form (r : Nat) (q : Option Str) :
    ("relation-" : Str) <+: generateUsername r q :=
  ⟨_, (generateUsername_eq r q).symm⟩

/-- The digits of the id end where the name ends or at a dash. -/
theorem takeWhile_isDigit_usernameTail (r : Nat) (q : Option Str) :
    (decimal r ++ usernameTail q).takeWhile Char.isDigit = decimal r := by
  rw [List.takeWhile_append_of_pos fun c hc => isDigit_of_mem_decimal hc]
  unfold usernameTail
  split
  · simp
  · simp [show Char.isDigit '-' = false by decide]

/-- A generated name tells its relation. -/
theorem generateUsername_relationId {r r' : Nat} {q q' : Option Str}
    (h : generateUsername r q = generateUsername r' q') : r = r' := by
  have htail : decimal r ++ usernameTail q = decimal r' ++ usernameTail q' :=
    List.append_cancel_left ((generateUsername_eq r q).symm.trans (h.trans (generateUsername_eq r' q')))
  have hdec : decimal r = decimal r' := by
    rw [← takeWhile_isDigit_usernameTail r q, htail, takeWhile_isDigit_usernameTail]
  exact decimal_injective hdec

namespace LeaderState

/-- Whom Kafka knows is recorded or a client, and after a sweep it knows no one of the
relations that were gone. -/
structure Tracked (s : LeaderState) : Prop where
  recorded : ∀ u, ("relation-" : Str) <+: u → s.Knows u → u ∈ Dict.keys s.stored ∨ s.IsClient u
  live : ∀ c ∈ s.clients, c.relationId ∉ s.removed
  swept : ∀ r ∈ s.swept, r ∈ s.removed
  clean : ∀ r ∈ s.swept, ∀ q, ¬ s.Knows (generateUsername r q)

variable {s t u : LeaderState}

theorem Tracked.not_isClient (h : s.Tracked) {r : Nat} (hr : r ∈ s.removed) (q : Option Str) :
    ¬ s.IsClient (generateUsername r q) := by
  intro hclient
  obtain ⟨c, hc, hname⟩ := List.mem_map.mp hclient
  exact h.live c hc (generateUsername_relationId hname ▸ hr)

/-- Kafka gets to know only clients. -/
theorem Edit.knows (h : Edit s t) {v : Str} (hv : t.Knows v) : s.Knows v ∨ s.IsClient v := by
  cases h with
  | userSet hc =>
    rcases hv with hv | hv
    · rcases Dict.mem_keys_set.mp hv with rfl | hv
      · exact .inr (isClient_of_mem hc)
      · exact .inl (.inl hv)
    · exact .inl (.inr hv)
  | userErased =>
    rcases hv with hv | hv
    · exact .inl (.inl (Dict.mem_keys_erase.mp hv).2)
    · exact .inl (.inr hv)
  | acls hacls =>
    rcases hv with hv | ⟨a, ha, rfl⟩
    · exact .inl (.inl hv)
    · exact (hacls a ha).imp (fun ha => .inr ⟨a, ha, rfl⟩) id
  | recorded => exact .inl hv
  | forgotten => exact .inl hv
  | swept => exact .inl hv

/-- A name stays recorded while Kafka knows it. -/
theorem Edit.stored (h : Edit s t) {v : Str} (hv : s.Knows v) (hs : v ∈ Dict.keys s.stored) :
    v ∈ Dict.keys t.stored := by
  cases h with
  | userSet => exact hs
  | userErased => exact hs
  | acls => exact hs
  | recorded => exact Dict.mem_keys_set.mpr (.inr hs)
  | forgotten hu hgone => exact Dict.mem_keys_erase.mpr ⟨fun heq => hgone (heq ▸ hv), hs⟩
  | swept => exact hs

theorem Edit.swept_cases (h : Edit s t) : t.swept = s.swept ∨
    t = { s with swept := s.removed } ∧
      ∀ u ∈ Dict.keys s.stored, ("relation-" : Str) <+: u → s.IsClient u := by
  cases h with
  | userSet => exact .inl rfl
  | userErased => exact .inl rfl
  | acls => exact .inl rfl
  | recorded => exact .inl rfl
  | forgotten => exact .inl rfl
  | swept hall => exact .inr ⟨rfl, hall⟩

theorem Tracked.edit (h : s.Tracked) (hedit : Edit s t) : t.Tracked := by
  have hclient {v : Str} : t.IsClient v ↔ s.IsClient v :=
    Edits.isClient_iff (.single hedit)
  obtain ⟨hclients, hremoved⟩ := hedit.fixed
  have hrecorded (v : Str) (hrel : ("relation-" : Str) <+: v) (hv : t.Knows v) :
      v ∈ Dict.keys t.stored ∨ t.IsClient v := by
    rw [hclient]
    rcases hedit.knows hv with hv | hv
    · exact (h.recorded v hrel hv).imp (hedit.stored hv) id
    · exact .inr hv
  have hlive (c : RelationClient) (hc : c ∈ t.clients) : c.relationId ∉ t.removed := by
    rw [hremoved]
    exact h.live c (hclients ▸ hc)
  rcases hedit.swept_cases with hswept | ⟨rfl, hall⟩
  · refine ⟨hrecorded, hlive, by rw [hswept, hremoved]; exact h.swept, fun r hr q hknown => ?_⟩
    rw [hswept] at hr
    rcases hedit.knows hknown with hknown | hknown
    · exact h.clean r hr q hknown
    · exact h.not_isClient (h.swept r hr) q hknown
  · refine ⟨hrecorded, hlive, fun r hr => hr, fun r hr q hknown => h.not_isClient hr q ?_⟩
    rcases h.recorded _ (generateUsername_form r q) hknown with hv | hv
    · exact hall _ hv (generateUsername_form r q)
    · exact hv

theorem Edits.tracked (h : Edits s t) (hs : s.Tracked) : t.Tracked := by
  induction h with
  | refl => exact hs
  | tail _ hedit ih => exact ih.edit hedit

theorem Edits.knows (h : Edits s t) {v : Str} (hv : t.Knows v) : s.Knows v ∨ s.IsClient v := by
  induction h with
  | refl => exact .inl hv
  | tail hsm hedit ih =>
    rcases hedit.knows hv with hv | hv
    · exact ih hv
    · exact .inr ((Edits.isClient_iff hsm).mp hv)

end LeaderState

/-- The clients an event makes disappear. -/
def LeaderEvent.drops : LeaderEvent → RelationClient → Bool
  | .requested _, _ => false
  | .withdrawn client, c => decide (c = client)
  | .relationRemoved relationId, c => decide (c.relationId = relationId)
  | .hook _ _, _ => false

/-- A client that disappears is recorded, unless Kafka does not know it or another
request goes by its name. -/
def RecordedWhenDropped (s : LeaderState) (e : LeaderEvent) : Prop :=
  ∀ c ∈ s.clients, e.drops c = true → s.Knows c.username →
    c.username ∈ Dict.keys s.stored ∨
      ∃ c' ∈ s.clients, e.drops c' = false ∧ c'.username = c.username

instance (s : LeaderState) (e : LeaderEvent) : Decidable (RecordedWhenDropped s e) :=
  inferInstanceAs (Decidable (∀ _ ∈ _, _))

namespace LeaderState

variable {s t : LeaderState} {e : LeaderEvent}

/-- Dropping recorded clients leaves no one untracked. -/
theorem Tracked.drop (h : s.Tracked) (hok : RecordedWhenDropped s e) (removed : List Nat)
    (hremoved : ∀ r ∈ s.removed, r ∈ removed)
    (hlive : ∀ c ∈ s.clients, e.drops c = false → c.relationId ∉ removed) :
    { s with clients := s.clients.filter (! e.drops ·), removed := removed }.Tracked where
  recorded u hrel hu := by
    have hkept {c : RelationClient} (hc : c ∈ s.clients) (hdrops : e.drops c = false) :
        c ∈ s.clients.filter (! e.drops ·) :=
      List.mem_filter.mpr ⟨hc, by simp [hdrops]⟩
    rcases h.recorded u hrel hu with hu' | hu'
    · exact .inl hu'
    · obtain ⟨c, hc, rfl⟩ := List.mem_map.mp hu'
      cases hdrops : e.drops c with
      | false => exact .inr (List.mem_map_of_mem (hkept hc hdrops))
      | true =>
        rcases hok c hc hdrops hu with hstored | ⟨c', hc', hdrops', hname⟩
        · exact .inl hstored
        · exact .inr (hname ▸ List.mem_map_of_mem (hkept hc' hdrops'))
  live c hc := by
    obtain ⟨hc, hdrops⟩ := List.mem_filter.mp hc
    exact hlive c hc (by simpa using hdrops)
  swept r hr := hremoved r (h.swept r hr)
  clean := h.clean

theorem Tracked.requested (h : s.Tracked) {client : RelationClient}
    (hclient : client.relationId ∉ s.removed) :
    { s with clients := client :: s.clients }.Tracked where
  recorded u hrel hu := (h.recorded u hrel hu).imp id (List.mem_cons_of_mem _)
  live c hc := by
    rcases List.mem_cons.mp hc with rfl | hc
    · exact hclient
    · exact h.live c hc
  swept := h.swept
  clean := h.clean

/-- A hook that fails leaves the passwords as they were when it started. -/
theorem Tracked.rollback (h : s.Tracked) (hedits : Edits s t) :
    { t with stored := s.stored }.Tracked where
  recorded u hrel hu := by
    rcases hedits.knows hu with hu | hu
    · exact (h.recorded u hrel hu).imp id hedits.isClient_iff.mpr
    · exact .inr (hedits.isClient_iff.mpr hu)
  live := (hedits.tracked h).live
  swept := (hedits.tracked h).swept
  clean := (hedits.tracked h).clean

theorem Initial.tracked (h : s.Initial) : s.Tracked where
  recorded u hrel hu := by
    rcases hu with hu | ⟨a, ha, rfl⟩
    · exact absurd hrel (h.scram u hu)
    · exact absurd hrel (h.acls a ha)
  live c hc := by simp [h.clients] at hc
  swept r hr := by simp [h.swept] at hr
  clean r hr := by simp [h.swept] at hr

end LeaderState

theorem hookStep_tracked {s t : LeaderState} {e : LeaderEvent} (hs : s.Tracked)
    (hok : RecordedWhenDropped s e) (h : hookStep s e = some t) : t.Tracked := by
  cases e with
  | requested client =>
    simp only [hookStep] at h
    split at h
    · cases h
    · rename_i hclient
      cases h
      exact hs.requested hclient
  | withdrawn client =>
    cases h
    simpa [LeaderEvent.drops] using hs.drop hok s.removed (fun _ hr => hr) fun c hc _ => hs.live c hc
  | relationRemoved relationId =>
    cases h
    have hdrop := hs.drop hok (relationId :: s.removed)
      (fun _ hr => List.mem_cons_of_mem _ hr) fun c hc hdrops => by
        have hne : c.relationId ≠ relationId := by simpa [LeaderEvent.drops] using hdrops
        exact List.not_mem_cons_of_ne_of_not_mem hne (hs.live c hc)
    simpa [LeaderEvent.drops] using hdrop
  | hook calls completes =>
    obtain ⟨m, hedits, rfl | rfl⟩ := hookStep_hook h
    · exact hedits.tracked hs
    · exact hs.rollback hedits

/-- One `reconcile` that removes whom it finds, with the given setups before it. -/
def reconcileSeven (setups : List ClientSetup) : LeaderEvent :=
  .hook [.reconcile {
    healthy := true
    order := SetOrder.given
    removal := fun _ => ⟨⟨true, fun _ => false⟩, .done⟩
    setups := setups }] true

/-- The client is set up, its relation goes, and `reconcile` cleans up. -/
def relationLifecycle : List LeaderEvent :=
  [.requested producerSeven, reconcileSeven [setupSeven .done true ⟨['a'], by decide⟩],
    .relationRemoved 7, reconcileSeven []]

/-- The ACLs fail after the user is created, the hook is undone, and the relation goes
before the hook is retried. -/
def orphanedSetup : List LeaderEvent :=
  [.requested producerSeven, reconcileSeven [setupSeven .done false ⟨['a'], by decide⟩],
    .relationRemoved 7, reconcileSeven []]

end KafkaCharm
