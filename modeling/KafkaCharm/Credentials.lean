import KafkaCharm.Lib.Dict
import KafkaCharm.Lib.Fallible
import KafkaCharm.Lib.Runs
import KafkaCharm.Workload

/-! `SecretsHandler._on_secret_changed` compares the secret of the operator with the passwords in the
cluster relation data, stores the new ones there and then sets them in Kafka, one fallible command
for each user. The comparison is with what was stored, so a command that failed is not seen by
the next run. -/

namespace KafkaCharm

open PyText Fallible Outcome

/-- `INTERNAL_USERS`. -/
def internalUsers : List Str := ["replication", "operator"]

/-- The passwords in the cluster relation data, and those Kafka holds. -/
structure CredentialState where
  stored : List (Str × Str)
  kafka : List (Str × Str)
  deriving DecidableEq, Repr

/-- `KafkaCluster.update` on one password: an empty one deletes the secret. -/
def storePassword (stored : List (Str × Str)) (username password : Str) : List (Str × Str) :=
  if password = [] then Dict.erase stored username else Dict.set stored username password

/-- `KafkaCluster.internal_user_credentials`. -/
def internalUserCredentials (stored : List (Str × Str)) : List (Str × Str) :=
  let credentials := internalUsers.filterMap fun u => (Dict.get? stored u).map (u, ·)
  if credentials.length = internalUsers.length then credentials else []

/-- `SecretsHandler.load_auth_secret`. -/
def loadAuthSecret (content : List (Str × Str)) : List (Str × Str) :=
  content.filter (·.1 ∈ internalUsers)

def configsKeyword : Str := "configs"
def alterFlag : Str := "--alter"
def entityTypeFlag : Str := "--entity-type=users"
def entityNameFlag : Str := "--entity-name="
def addScramFlag : Str := "--add-config=SCRAM-SHA-512=[password="
def bootstrapFlag : Str := "--bootstrap-server="
def commandConfigFlag : Str := "--command-config="

/-- The `command` of `AuthManager.add_user`. -/
def addUserCommand (site : Site) (username password : Str) : List Str :=
  [alterFlag, entityTypeFlag, entityNameFlag ++ username, addScramFlag ++ (password ++ [']']),
   bootstrapFlag ++ site.bootstrapServerInternal, commandConfigFlag ++ clientProperties]

/-- A password that the option of the tool can carry: no white space, and none
of the characters that group or separate its values. -/
def PlainPassword (password : Str) : Prop :=
  SpaceFree password ∧ ∀ c ∈ password, c ≠ ',' ∧ c ≠ '[' ∧ c ≠ ']'

instance (password : Str) : Decidable (PlainPassword password) :=
  @instDecidableAnd _ _ _ (List.decidableBAll _ password)

/-- `kafka-configs`: the credential that a successful run with the vector sets.
Given the argument list of `add_user` it sets the password of that user. -/
structure ConfigsTool where
  site : Site
  opts : List Str
  effect : List Str → Option (Str × Str)
  sets : ∀ username ∈ internalUsers, ∀ password, PlainPassword password →
    effect (binScript configsKeyword :: addUserCommand site username password) =
      some (username, password)

/-- What `add_user` works on: Kafka's credentials, and whether each coming call fails. -/
structure KafkaUsers where
  credentials : List (Str × Str)
  faults : List Bool
  deriving DecidableEq, Repr

/-- `AuthManager.add_user`; a failing call leaves the credentials as they were. -/
def ConfigsTool.addUser (tool : ConfigsTool) (username password : Str) (k : KafkaUsers) :
    Outcome KafkaUsers :=
  let argv := (runBinCommand configsKeyword (addUserCommand tool.site username password)
    tool.opts).argv
  if k.faults.headD false then raised ⟨k.credentials, k.faults.tail⟩
  else
    match tool.effect argv with
    | none => raised ⟨k.credentials, k.faults.tail⟩
    | some c => returned ⟨Dict.set k.credentials c.1 c.2, k.faults.tail⟩

/-- What one run of the handler sees. `secret` is the content of the secret, or
empty without one; `ready` the checks before the comparison, `ping` the one after. -/
structure SecretChanged where
  leader : Bool
  secret : List (Str × Str)
  ready : Bool
  ping : Bool
  faults : List Bool
  order : SetOrder Str

namespace SecretChanged

variable (e : SecretChanged) (s : CredentialState)

def credentials : List (Str × Str) := loadAuthSecret e.secret

/-- `{u for u in credentials if credentials[u] != saved_state.get(u)}`. -/
def changed : List Str :=
  (Dict.keys e.credentials).filter fun u =>
    Dict.get? e.credentials u ≠ Dict.get? (internalUserCredentials s.stored) u

/-- `credentials[username]`. -/
def password (username : Str) : Str := (Dict.get? e.credentials username).getD []

/-- The run gets to the comparison and returns because nothing changed. -/
def FindsNothingToDo : Prop :=
  e.leader = true ∧ e.credentials ≠ [] ∧ e.ready = true ∧ e.changed s = []

end SecretChanged

/-- `SecretsHandler._on_secret_changed`, the part for the system users. -/
def onSecretChanged (tool : ConfigsTool) (e : SecretChanged) (s : CredentialState) :
    CredentialState :=
  if e.leader = false ∨ e.credentials = [] ∨ e.ready = false ∨ e.changed s = [] ∨ e.ping = false
  then s
  else
    let users := e.order.list (e.changed s)
    let stored := users.foldl (fun stored u => storePassword stored u (e.password u)) s.stored
    let kafka := each (fun u => tool.addUser u (e.password u)) users ⟨s.kafka, e.faults⟩
    ⟨stored, kafka.state.credentials⟩

/-- Kafka holds every password that is stored for an internal user. -/
def Synced (s : CredentialState) : Prop :=
  ∀ u ∈ internalUsers, ∀ p, Dict.get? s.stored u = some p → Dict.get? s.kafka u = some p

/-! ## One run -/

theorem addUserCommand_words (site : Site) {username password : Str} (hu : username ∈ internalUsers)
    (hp : PlainPassword password) :
    ∀ w ∈ addUserCommand site username password, w ≠ [] ∧ SpaceFree w := by
  have husers : ∀ u ∈ internalUsers, SpaceFree u := by decide
  have happend : ∀ {f v : Str}, f ≠ [] ∧ SpaceFree f → SpaceFree v → f ++ v ≠ [] ∧ SpaceFree (f ++ v) :=
    fun hf hv => ⟨by simp [hf.1], spaceFree_append.mpr ⟨hf.2, hv⟩⟩
  have hpass : SpaceFree (password ++ [']']) := spaceFree_append.mpr ⟨hp.1, by decide⟩
  unfold addUserCommand
  simp only [List.forall_mem_cons, List.not_mem_nil, false_implies, implies_true, and_true]
  refine ⟨by decide, by decide, ?_, ?_, ?_, by decide⟩
  · exact happend (by decide) (husers username hu)
  · exact happend (by decide) hpass
  · exact happend (by decide) (bootstrapServerInternal_spaceFree site)

/-- A call that does not fail sets the password. -/
theorem addUser_returned (tool : ConfigsTool) {username password : Str}
    (hu : username ∈ internalUsers) (hp : PlainPassword password) {k : KafkaUsers}
    (hf : ∀ f ∈ k.faults, f = false) :
    tool.addUser username password k =
      returned ⟨Dict.set k.credentials username password, k.faults.tail⟩ := by
  have hargv : (runBinCommand configsKeyword (addUserCommand tool.site username password)
      tool.opts).argv = binScript configsKeyword :: addUserCommand tool.site username password :=
    (argv_eq_iff (by decide) (by simp [addUserCommand]) tool.opts).mpr
      (addUserCommand_words tool.site hu hp)
  have hhead : k.faults.headD false = false := by
    cases hk : k.faults with
    | nil => rfl
    | cons f fs => exact hf f (by simp [hk])
  unfold ConfigsTool.addUser
  simp only [hargv, hhead, tool.sets username hu password hp, Bool.false_eq_true, if_false]

theorem get?_addUsers (tool : ConfigsTool) {password : Str → Str} {users : List Str}
    (hu : ∀ u ∈ users, u ∈ internalUsers ∧ PlainPassword (password u)) {k : KafkaUsers}
    (hf : ∀ f ∈ k.faults, f = false) (u : Str) :
    Dict.get? (each (fun u => tool.addUser u (password u)) users k).state.credentials u =
      if u ∈ users then some (password u) else Dict.get? k.credentials u := by
  induction users generalizing k with
  | nil => simp [each]
  | cons v vs ih =>
    obtain ⟨hv, hp⟩ := hu v (by simp)
    have hrest := ih (fun x hx => hu x (by simp [hx]))
      (k := ⟨Dict.set k.credentials v (password v), k.faults.tail⟩)
      (fun f hfs => hf f (List.mem_of_mem_tail hfs))
    rw [each, addUser_returned tool hv hp hf, returned_andThen, hrest, Dict.get?_set]
    by_cases hmem : u ∈ vs
    · simp [hmem]
    · by_cases heq : v = u
      · simp [heq]
      · have hne : u ≠ v := fun h => heq h.symm
        simp [hmem, heq, hne]

theorem get?_storePassword (stored : List (Str × Str)) (v u p : Str) :
    Dict.get? (storePassword stored v p) u =
      if v = u then (if p = [] then none else some p) else Dict.get? stored u := by
  unfold storePassword
  by_cases hp : p = []
  · simp [hp, Dict.get?_erase]
  · simp [hp, Dict.get?_set]

theorem get?_storePasswords (password : Str → Str) (users : List Str) (stored : List (Str × Str))
    (u : Str) :
    Dict.get? (users.foldl (fun stored u => storePassword stored u (password u)) stored) u =
      if u ∈ users then (if password u = [] then none else some (password u))
      else Dict.get? stored u := by
  induction users generalizing stored with
  | nil => simp
  | cons v vs ih =>
    rw [List.foldl_cons, ih, get?_storePassword]
    by_cases hmem : u ∈ vs
    · simp [hmem]
    · by_cases heq : v = u
      · simp [heq]
      · have hne : u ≠ v := fun h => heq h.symm
        simp [hmem, heq, hne]

theorem credentials_internal {e : SecretChanged} {u : Str} (h : u ∈ Dict.keys e.credentials) :
    u ∈ internalUsers := by
  obtain ⟨c, hc, rfl⟩ := List.mem_map.mp h
  simpa using (List.mem_filter.mp hc).2

theorem get?_mem {d : List (Str × Str)} {u p : Str} (h : Dict.get? d u = some p) : (u, p) ∈ d := by
  unfold Dict.get? at h
  obtain ⟨c, hc, rfl⟩ := Option.map_eq_some_iff.mp h
  have hkey := List.find?_some hc
  rw [decide_eq_true_eq] at hkey
  rw [← hkey]
  exact List.mem_of_find?_eq_some hc

/-- What a run is required to be in the theorems below: none of its `add_user`
calls fails, and the command carries the passwords of the secret. -/
def SecretChanged.Unfailing (e : SecretChanged) : Prop :=
  (∀ f ∈ e.faults, f = false) ∧ ∀ c ∈ e.credentials, PlainPassword c.2

theorem onSecretChanged_synced (tool : ConfigsTool) {e : SecretChanged} (hok : e.Unfailing)
    {s : CredentialState} (h : Synced s) : Synced (onSecretChanged tool e s) := by
  unfold onSecretChanged
  split
  · exact h
  · intro u hu p hp
    have husers : ∀ v ∈ e.order.list (e.changed s),
        v ∈ internalUsers ∧ PlainPassword (e.password v) := by
      intro v hv
      have hkey := List.mem_of_mem_filter ((e.order.mem_list _ v).mp hv)
      refine ⟨credentials_internal hkey, ?_⟩
      obtain ⟨q, hq⟩ := Option.ne_none_iff_exists'.mp (Dict.mem_keys_iff.mp hkey)
      unfold SecretChanged.password
      rw [hq]
      exact hok.2 _ (get?_mem hq)
    simp only at hp ⊢
    rw [get?_storePasswords] at hp
    rw [get?_addUsers tool husers hok.1]
    by_cases hmem : u ∈ e.order.list (e.changed s)
    · rw [if_pos hmem] at hp ⊢
      by_cases hempty : e.password u = []
      · simp [hempty] at hp
      · rwa [if_neg hempty] at hp
    · rw [if_neg hmem] at hp ⊢
      exact h u hu p hp

/-! ## Every run -/

theorem internalUserCredentials_stored {stored : List (Str × Str)} {u p : Str}
    (h : Dict.get? (internalUserCredentials stored) u = some p) : Dict.get? stored u = some p := by
  have hmem := get?_mem h
  unfold internalUserCredentials at hmem
  simp only at hmem
  split at hmem
  · obtain ⟨v, _, hv⟩ := List.mem_filterMap.mp hmem
    obtain ⟨q, hq, heq⟩ := Option.map_eq_some_iff.mp hv
    cases heq
    exact hq
  · cases hmem

/-- Nothing to do on a synced state is the truth: Kafka has the stored passwords. -/
theorem synced_nothingToDo {e : SecretChanged} {s : CredentialState} (hs : Synced s)
    (h : e.FindsNothingToDo s) {u : Str} (hu : u ∈ Dict.keys e.credentials) :
    Dict.get? s.kafka u = Dict.get? s.stored u := by
  have hsame : Dict.get? e.credentials u = Dict.get? (internalUserCredentials s.stored) u := by
    by_contra hne
    have hin : u ∈ e.changed s := List.mem_filter.mpr ⟨hu, by simpa using hne⟩
    rw [h.2.2.2] at hin
    cases hin
  obtain ⟨p, hp⟩ := Option.ne_none_iff_exists'.mp (Dict.mem_keys_iff.mp hu)
  rw [hp] at hsame
  have hstored := internalUserCredentials_stored hsame.symm
  rw [hstored]
  exact hs u (credentials_internal hu) p hstored

/-- In every state reached by runs of the handler none of whose `add_user` calls
failed, a run that finds nothing to do is right: Kafka holds the stored password
of every internal user in the secret. -/
theorem nothing_to_do_synced (tool : ConfigsTool) (s t : CredentialState) (h0 : Synced s)
    (hrun : Runs.Reaches (fun s e => some (onSecretChanged tool e s))
      (fun _ e => e.Unfailing) s t)
    (e : SecretChanged) (h : e.FindsNothingToDo t) :
    ∀ u ∈ Dict.keys e.credentials, Dict.get? t.kafka u = Dict.get? t.stored u := by
  have hsynced : Synced t := by
    apply hrun.invariant h0
    intro a e' b ha hok hstep
    cases hstep
    exact onSecretChanged_synced tool hok ha
  intro u hu
  exact synced_nothingToDo hsynced h hu

/-! ## A tool that takes the argument list as it is -/

/-- Reads the two options back that `add_user` writes. -/
def readAddUser (argv : List Str) : Option (Str × Str) :=
  match optionValues entityNameFlag argv, optionValues addScramFlag argv with
  | [u], [p] => some (u, p.dropLast)
  | _, _ => none

def plainConfigs : ConfigsTool where
  site := ⟨.kafka, some [0]⟩
  opts := []
  effect := readAddUser
  sets := by
    intro u _ p _
    have hscript : ∀ f ∈ [entityNameFlag, addScramFlag],
        (binScript configsKeyword).dropPrefix? f = none := by decide
    have hbare : ∀ w ∈ [alterFlag, entityTypeFlag], ∀ f ∈ [entityNameFlag, addScramFlag],
        w.dropPrefix? f = none := by decide
    simp only [List.forall_mem_cons, List.not_mem_nil, false_implies, implies_true,
      and_true] at hscript hbare
    simp (disch := decide) only [readAddUser, addUserCommand, optionValues, List.filterMap_cons,
      List.filterMap_nil, dropPrefix?_self, dropPrefix?_clash, hscript, hbare,
      List.dropLast_concat]

/-- One password is changed, and the next run has nothing to do. -/
theorem changed_password_synced :
    let s : CredentialState :=
      ⟨[("replication", "a"), ("operator", "b")], [("replication", "a"), ("operator", "b")]⟩
    let e : SecretChanged := ⟨true, [("operator", "new")], true, true, [], .given⟩
    let t := onSecretChanged plainConfigs e s
    e.FindsNothingToDo t ∧ Dict.get? t.kafka "operator" = Dict.get? t.stored "operator" := by
  intro s e t
  have hnothing : e.FindsNothingToDo t := ⟨rfl, by decide, rfl, by decide⟩
  have hsynced : Synced s := by
    intro u _ p hp
    exact hp
  have hok : e.Unfailing := ⟨by simp [e], by decide⟩
  have hrun : Runs.Reaches (fun s e => some (onSecretChanged plainConfigs e s))
      (fun _ e => e.Unfailing) s t := .next e .start hok rfl
  exact ⟨hnothing, nothing_to_do_synced plainConfigs s t hsynced hrun e hnothing "operator"
    (by decide)⟩

/-- The call of `add_user` fails after the new password was stored: from then on
every run with the same secret finds nothing to do, and Kafka keeps the old one. -/
theorem failed_add_user_never_retried :
    let s : CredentialState :=
      ⟨[("replication", "a"), ("operator", "b")], [("replication", "a"), ("operator", "b")]⟩
    let failing : SecretChanged := ⟨true, [("operator", "new")], true, true, [true], .given⟩
    let e : SecretChanged := ⟨true, [("operator", "new")], true, true, [], .given⟩
    let t := onSecretChanged plainConfigs failing s
    Synced s ∧ e.FindsNothingToDo t ∧ onSecretChanged plainConfigs e t = t ∧
      Dict.get? t.stored "operator" = some "new" ∧ Dict.get? t.kafka "operator" = some "b" := by
  intro s failing e t
  refine ⟨fun u _ p hp => hp, ⟨rfl, by decide, rfl, by decide⟩, by decide, by decide, by decide⟩

end KafkaCharm
