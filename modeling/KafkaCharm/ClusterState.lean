import KafkaCharm.CapacityStore
import KafkaCharm.CharmConfig
import KafkaCharm.ClientRequest
import KafkaCharm.Credentials
import Mathlib.Data.List.Dedup

/-! The brokers, the client relations and the clients are Python sets of objects that are built anew
for each hook, so they are gone through in any order: an `Enumeration` is one such order. -/

namespace KafkaCharm

open PyText Fallible

/-! ## Authentication -/

inductive SaslProtocol where
  | plaintext
  | ssl
  deriving DecidableEq, Repr

/-- `AuthMap`: the protocols and mechanisms that have ports. -/
inductive AuthMap where
  | scram (protocol : SaslProtocol)
  | oauthbearer (protocol : SaslProtocol)
  | ssl
  deriving DecidableEq, Repr

def SaslProtocol.text : SaslProtocol → Str
  | .plaintext => "SASL_PLAINTEXT"
  | .ssl => "SASL_SSL"

def AuthMap.protocol : AuthMap → Str
  | .scram protocol => protocol.text
  | .oauthbearer protocol => protocol.text
  | .ssl => "SSL"

def AuthMap.mechanism : AuthMap → Str
  | .scram _ => "SCRAM-SHA-512"
  | .oauthbearer _ => "OAUTHBEARER"
  | .ssl => "SSL"

structure Ports where
  client : Nat
  internal : Nat
  external : Nat
  controller : Nat
  deriving DecidableEq, Repr

/-- `SECURITY_PROTOCOL_PORTS`. -/
def AuthMap.ports : AuthMap → Ports
  | .scram .plaintext => ⟨9092, 19092, 29092, 9097⟩
  | .scram .ssl => ⟨9093, 19093, 29093, 9098⟩
  | .ssl => ⟨9094, 19094, 29094, 19194⟩
  | .oauthbearer .plaintext => ⟨9095, 19095, 29095, 19195⟩
  | .oauthbearer .ssl => ⟨9096, 19096, 29096, 19196⟩

/-! ## State -/

/-- What asking Kubernetes raises: an `ApiError`, which some callers catch, or another
exception, which none does. -/
inductive KubeError where
  | apiError
  | failed
  deriving DecidableEq, Repr

/-- A `KafkaBroker` of the peer relation, as far as other units read it. -/
structure BrokerUnit where
  unitId : Nat
  rack : Str
  nodeIp : Except KubeError Str
  trusted : List Str

/-- The address of the broker's node; empty where it cannot be had. -/
def BrokerUnit.nodeAddress (b : BrokerUnit) : Str :=
  match b.nodeIp with
  | .ok ip => ip
  | .error _ => []

/-- A `kafka-client` relation: whether its application is known, its `extra-user-roles`,
and the clients built from its requests. -/
structure ClientRelation where
  id : Nat
  app : Bool
  extraUserRoles : Str
  clients : List KafkaClient
  deriving DecidableEq

/-- What the application at the other end of a `peer-cluster` relation provides. -/
structure RemoteCluster where
  roles : Str
  superUsers : Str
  controllerPassword : Str
  brokerPassword : Str
  bootstrapController : Str
  deriving DecidableEq, Repr

/-- The `OAuth` relation. -/
structure OAuth where
  issuerUrl : Str
  jwksEndpoint : Str
  introspectionEndpoint : Str
  jwtAccessToken : Bool
  usesTrustedCa : Bool
  deriving DecidableEq, Repr

/-- What asking Kubernetes for a node port comes to. -/
abbrev NodePort := Except KubeError (Option Nat)

/-- `str` of a port that may be `None`. -/
def portText : Option Nat → Str
  | none => "None"
  | some number => decimal number

/-- The TLS data of the unit that is set, and whether the cluster runs with TLS. -/
structure ClientTls where
  enabled : Bool
  certificate : Bool
  ca : Bool
  privateKey : Bool
  deriving DecidableEq, Repr

/-- The state that the values are derived from. `unit` is the unit itself and `peers` the
others on the peer relation; `orchestrator` and `peerCluster` are the two relations
between a broker and a controller or balancer application. -/
structure ClusterState where
  app : AppName
  config : CharmConfig
  peerRelation : Bool
  unit : BrokerUnit
  peers : List BrokerUnit
  clientRelations : List ClientRelation
  certificateTransfer : Bool
  orchestrator : Option RemoteCluster
  peerCluster : Option RemoteCluster
  oauth : Option OAuth
  passwords : List (Str × Str)
  clientPasswords : List (Str × Str)
  controllerPassword : Str
  bootstrapController : Str
  capacities : SnapshotText
  clientTls : ClientTls
  truststorePassword : Str
  keystorePassword : Str
  storages : List Str
  plannedUnits : Nat
  listenerNodePort : AuthMap → NodePort
  bootstrapNodePort : AuthMap → NodePort

/-- `ClusterState.roles`. -/
def ClusterState.roles (s : ClusterState) : Roles := s.config.roles

/-- `ClusterState.brokers`, as the objects it is built from. -/
def ClusterState.brokers (s : ClusterState) : List BrokerUnit := s.peers ++ [s.unit]

/-- The relations whose application is known make up `ClusterState.clients`. -/
def ClusterState.builtClients (s : ClusterState) : List KafkaClient :=
  (s.clientRelations.filter (·.app)).flatMap ClientRelation.clients

/-- An order in which a hook goes through the sets. -/
structure Enumeration (s : ClusterState) where
  brokers : List BrokerUnit
  clientRelations : List ClientRelation
  clients : List KafkaClient
  brokers_perm : brokers.Perm s.brokers
  clientRelations_perm : clientRelations.Perm s.clientRelations
  clients_perm : clients.Perm s.builtClients

/-- The order in which everything was listed. -/
def Enumeration.listed (s : ClusterState) : Enumeration s :=
  ⟨s.brokers, s.clientRelations, s.builtClients, .refl _, .refl _, .refl _⟩

/-! ## Derived values -/

def adminRole : Str := "admin"
def balancerRole : Str := "balancer"
def controllerUser : Str := "controller"

/-- The name of a relation's first client in the cluster relation data. -/
def relationUser (id : Nat) : Str := "relation-" ++ decimal id

/-- `len` of a set. -/
def distinct (xs : List Str) : Nat := xs.dedup.length

namespace ClusterState

variable (s : ClusterState)

def runsControllerOnly : Bool := s.roles.controller && !s.roles.broker
def runsBrokerOnly : Bool := s.roles.broker && !s.roles.controller

/-- `ClusterState.default_auth`. -/
def defaultAuth : AuthMap :=
  .scram (if s.clientTls.enabled && s.clientTls.certificate then .ssl else .plaintext)

/-- `ClusterState.internal_auth`. -/
def internalAuth : AuthMap := .scram .ssl

/-- The relation of `ClusterState.peer_cluster`. -/
def peerClusterRelation : Option RemoteCluster :=
  if s.roles.broker then s.orchestrator else s.peerCluster

/-- A value of `PeerCluster`: the one it was made with, or the remote application's. -/
def ofPeerCluster (own : Str) (remote : RemoteCluster → Str) : Str :=
  if own = [] then (s.peerClusterRelation.map remote).getD [] else own

/-- Whether `ClusterState.peer_cluster` is made with the controller data of the cluster. -/
def ownsControllerData : Bool := s.roles.controller || (s.roles.broker && s.roles.balancer)

/-- `peer_cluster.controller_password`. -/
def peerControllerPassword : Str :=
  s.ofPeerCluster (if s.ownsControllerData then s.controllerPassword else [])
    RemoteCluster.controllerPassword

/-- `peer_cluster.bootstrap_controller`. -/
def peerBootstrapController : Str :=
  s.ofPeerCluster (if s.ownsControllerData then s.bootstrapController else [])
    RemoteCluster.bootstrapController

/-- `cluster.internal_user_credentials.get(username, "")`. -/
def internalPassword (username : Str) : Str :=
  (Dict.get? (internalUserCredentials s.passwords) username).getD []

def adminUser : Str := "operator"
def interBrokerUser : Str := "replication"

/-- `peer_cluster.broker_password`. -/
def peerBrokerPassword : Str :=
  s.ofPeerCluster (if s.roles.broker then s.internalPassword adminUser else [])
    RemoteCluster.brokerPassword

/-- `peer_cluster.roles`. -/
def peerRoles : Str := (s.peerClusterRelation.map RemoteCluster.roles).getD []

/-- `ClusterState.log_dirs`. -/
def logDirs : Str := [','].intercalate (s.storages.map (· ++ "/log"))

/-- `ClusterState.metadata_log_dir`; `rstrip` takes the characters of its argument. -/
def metadataLogDir : Str :=
  ((s.logDirs.takeWhile (· ≠ ',')).reverse.dropWhile (· ∈ ("/log" : Str))).reverse ++ "/metadata"

variable {s} (e : Enumeration s)

/-- `ClusterState.super_users`. -/
def superUsers : Str :=
  if s.runsControllerOnly then (s.peerClusterRelation.map RemoteCluster.superUsers).getD []
  else
    let admins := e.clientRelations.filter fun r =>
      r.app && decide (adminRole <:+: r.extraUserRoles) &&
        decide (relationUser r.id ∈ Dict.keys s.clientPasswords)
    let users := (internalUsers ++ [controllerUser] ++ admins.map (relationUser ·.id)).dedup
    [';'].intercalate (sortStrings (users.map userPrincipal))

/-- `ClusterState.bootstrap_server_internal`. -/
def bootstrapServerInternal : Str :=
  Site.bootstrapServerInternal
    ⟨s.app, if s.peerRelation then some (e.brokers.map BrokerUnit.unitId) else none⟩

/-- The address of a broker for clients outside Kubernetes: its node, and the node port that
Kubernetes is asked for. -/
def serverExternal (s : ClusterState) (b : BrokerUnit) : Except KubeError Str := do
  let ip ← b.nodeIp
  let port ← s.bootstrapNodePort s.defaultAuth
  return ip ++ ':' :: portText port

/-- `ClusterState.bootstrap_servers_external`; the first broker for which Kubernetes raises
decides what is raised. -/
def bootstrapServersExternal : Except KubeError Str := do
  let servers ← e.brokers.mapM s.serverExternal
  return [','].intercalate (sortStrings servers.dedup)

/-- `ClusterState.bootstrap_server_client`; `none` where asking Kubernetes raises something
other than an `ApiError`. -/
def bootstrapServerClient : Option Str :=
  if s.peerRelation = false then some []
  else if s.config.exposeExternal then
    match bootstrapServersExternal e with
    | .ok servers => some servers
    | .error .apiError => some []
    | .error .failed => none
  else
    some ([','].intercalate (sortStrings (e.brokers.map fun b =>
      internalAddress s.app b.unitId ++ ':' :: decimal s.defaultAuth.ports.client)))

/-- `ClusterState.clients`: each client is made with the servers for clients, so that there are
none where these raise. -/
def clients : Option (List KafkaClient) :=
  e.clients.mapM fun client => (bootstrapServerClient e).map fun _ => client

/-- `ClusterState.has_mtls_clients`; `none` where building the clients raises. -/
def hasMtlsClients : Option Bool :=
  (clients e).map fun clients => clients.any (·.mtlsCert ≠ []) || s.certificateTransfer

/-- The ways to authenticate, given whether there are clients with certificates of their own. -/
def authMapsFor (mtls : Bool) : List AuthMap :=
  (if e.clientRelations ≠ [] ∨ s.roles.balancer = true ∨
      balancerRole <:+: ((s.peerCluster.map RemoteCluster.roles).getD []) then
    [s.defaultAuth] else []) ++
  (if s.oauth.isSome then
    [.oauthbearer (if s.clientTls.enabled && s.clientTls.certificate then .ssl else .plaintext)]
    else []) ++
  (if mtls then [.ssl] else [])

/-- `ClusterState.enabled_auth`; `none` where building the clients raises. -/
def enabledAuth : Option (List AuthMap) := do
  let mtls ← hasMtlsClients e
  return authMapsFor e mtls

/-- `ClusterState.racks`. -/
def racks : Nat := distinct ((e.brokers.map BrokerUnit.rack).filter (· ≠ []))

/-- `ClusterState.broker_capacities`, which reads the stored snapshot and goes through no set. -/
def brokerCapacities (_e : Enumeration s) : List CapacityEntry :=
  KafkaCharm.brokerCapacities s.capacities

/-- `ClusterState.trusted_by_our_app`. -/
def trustedByOurApp : List Str :=
  e.brokers.foldl (fun trusted b => trusted.filter (· ∈ b.trusted)) s.unit.trusted

/-! ## Any order gives the same values -/

variable (e' : Enumeration s)

theorem brokers_order : e.brokers.Perm e'.brokers :=
  e.brokers_perm.trans e'.brokers_perm.symm

theorem clientRelations_order : e.clientRelations.Perm e'.clientRelations :=
  e.clientRelations_perm.trans e'.clientRelations_perm.symm

theorem superUsers_eq : superUsers e = superUsers e' := by
  unfold superUsers
  split
  · rfl
  · dsimp only
    have hadmins := ((clientRelations_order e e').filter fun r =>
      r.app && decide (adminRole <:+: r.extraUserRoles) &&
        decide (relationUser r.id ∈ Dict.keys s.clientPasswords)).map (relationUser ·.id)
    have husers := (hadmins.append_left (internalUsers ++ [controllerUser])).dedup
    rw [sortStrings_eq_of_perm (husers.map userPrincipal)]

theorem bootstrapServerInternal_eq : bootstrapServerInternal e = bootstrapServerInternal e' := by
  unfold bootstrapServerInternal Site.bootstrapServerInternal
  cases s.peerRelation with
  | false => rfl
  | true =>
    have hunits := (brokers_order e e').map BrokerUnit.unitId
    simp only [if_true]
    rw [sortStrings_eq_of_perm (hunits.map _)]

/-- A client relation has clients with certificates of their own, or another relation brings
certificates. -/
def mtlsClients : Bool := e.clients.any (·.mtlsCert ≠ []) || s.certificateTransfer

/-- The ways to authenticate that are enabled, provided the clients can be built. -/
def openAuth : List AuthMap := authMapsFor e (mtlsClients e)

theorem clients_eq_some {clients' : List KafkaClient} (h : clients e = some clients') :
    clients' = e.clients := by
  have hround (client client' : KafkaClient)
      (h : ((bootstrapServerClient e).map fun _ => client) = some client') :
      id client' = id client := by
    obtain ⟨_, -, rfl⟩ := Option.map_eq_some_iff.mp h
    rfl
  simpa using map_mapM hround h

theorem hasMtlsClients_eq_some {mtls : Bool} (h : hasMtlsClients e = some mtls) :
    mtls = mtlsClients e := by
  obtain ⟨clients', hclients, rfl⟩ := Option.map_eq_some_iff.mp h
  rw [clients_eq_some e hclients]
  rfl

theorem enabledAuth_eq_some {auths : List AuthMap} (h : enabledAuth e = some auths) :
    hasMtlsClients e = some (mtlsClients e) ∧ auths = openAuth e := by
  obtain ⟨mtls, hmtls, h⟩ := Option.bind_eq_some_iff.mp h
  obtain rfl := hasMtlsClients_eq_some e hmtls
  exact ⟨hmtls, (Option.some.inj h).symm⟩

theorem mtlsClients_eq : mtlsClients e = mtlsClients e' := by
  have hclients : e.clients.Perm e'.clients := e.clients_perm.trans e'.clients_perm.symm
  unfold mtlsClients
  rw [hclients.any_eq]

theorem authMapsFor_eq (mtls : Bool) : authMapsFor e mtls = authMapsFor e' mtls := by
  have hrelations : e.clientRelations = [] ↔ e'.clientRelations = [] := by
    rw [← List.length_eq_zero_iff, ← List.length_eq_zero_iff, (clientRelations_order e e').length_eq]
  unfold authMapsFor
  simp only [ne_eq, hrelations]

theorem openAuth_eq : openAuth e = openAuth e' := by
  rw [openAuth, openAuth, mtlsClients_eq e e', authMapsFor_eq e e']

/-- Kubernetes raises an `ApiError` for one broker and another exception for another one. -/
def MixedFailures (s : ClusterState) : Prop :=
  (∃ b ∈ s.brokers, s.serverExternal b = .error .apiError) ∧
    ∃ b ∈ s.brokers, s.serverExternal b = .error .failed

theorem bootstrapServersExternal_eq (h : ¬ MixedFailures s) :
    bootstrapServersExternal e = bootstrapServersExternal e' := by
  by_cases hraised : ∃ b ∈ s.brokers, ∃ error, s.serverExternal b = .error error
  · obtain ⟨b, hb, error, herror⟩ := hraised
    have hsame : ∀ b' ∈ s.brokers, ∀ error', s.serverExternal b' = .error error' → error' = error := by
      intro b' hb' error' herror'
      cases error with
      | apiError =>
        cases error' with
        | apiError => rfl
        | failed => exact absurd ⟨⟨b, hb, herror⟩, b', hb', herror'⟩ h
      | failed =>
        cases error' with
        | apiError => exact absurd ⟨⟨b', hb', herror'⟩, b, hb, herror⟩ h
        | failed => rfl
    have hfirst (e : Enumeration s) : bootstrapServersExternal e = .error error := by
      have hmap : e.brokers.mapM s.serverExternal = .error error :=
        mapM_eq_error (fun b' hb' => hsame b' (e.brokers_perm.mem_iff.mp hb'))
          ⟨b, e.brokers_perm.mem_iff.mpr hb, herror⟩
      rw [bootstrapServersExternal, hmap]
      rfl
    rw [hfirst e, hfirst e']
  · push Not at hraised
    have hall : ∀ b ∈ s.brokers, s.serverExternal b =
        .ok ((s.serverExternal b).toOption.getD []) := by
      intro b hb
      cases hserver : s.serverExternal b with
      | error error => exact absurd hserver (hraised b hb error)
      | ok server => rfl
    have hmap (e : Enumeration s) : e.brokers.mapM s.serverExternal =
        .ok (e.brokers.map fun b => (s.serverExternal b).toOption.getD []) := by
      have hall' : ∀ b ∈ e.brokers, s.serverExternal b =
          .ok ((s.serverExternal b).toOption.getD []) :=
        fun b hb => hall b (e.brokers_perm.mem_iff.mp hb)
      exact (mapM_eq_ok_iff fun b hb server hserver =>
        Except.ok.inj (hserver.symm.trans (hall' b hb))).mpr ⟨hall', rfl⟩
    have hservers := (brokers_order e e').map fun b => (s.serverExternal b).toOption.getD []
    rw [bootstrapServersExternal, bootstrapServersExternal, hmap e, hmap e']
    exact congrArg Except.ok (by rw [sortStrings_eq_of_perm hservers.dedup])

/-- Where both kinds of exception can come up, the order decides which one does. -/
theorem exists_orders_of_mixedFailures (h : MixedFailures s) : ∃ e e' : Enumeration s,
    bootstrapServersExternal e = .error .apiError ∧
      bootstrapServersExternal e' = .error .failed := by
  have hfirst {b : BrokerUnit} (hb : b ∈ s.brokers) {error : KubeError}
      (herror : s.serverExternal b = .error error) :
      ∃ e : Enumeration s, bootstrapServersExternal e = .error error := by
    obtain ⟨before, after, hsplit⟩ := List.append_of_mem hb
    have hperm : (b :: (before ++ after)).Perm s.brokers := by
      rw [hsplit]
      exact List.perm_middle.symm
    refine ⟨⟨_, _, _, hperm, .refl _, .refl _⟩, ?_⟩
    rw [bootstrapServersExternal, List.mapM_cons, herror]
    rfl
  obtain ⟨⟨b, hb, herror⟩, b', hb', herror'⟩ := h
  obtain ⟨e, he⟩ := hfirst hb herror
  obtain ⟨e', he'⟩ := hfirst hb' herror'
  exact ⟨e, e', he, he'⟩

theorem bootstrapServerClient_eq (h : ¬ MixedFailures s) :
    bootstrapServerClient e = bootstrapServerClient e' := by
  have haddresses := (brokers_order e e').map fun b =>
    internalAddress s.app b.unitId ++ ':' :: decimal s.defaultAuth.ports.client
  unfold bootstrapServerClient
  simp only [sortStrings_eq_of_perm haddresses, bootstrapServersExternal_eq e e' h]

/-- The clients are there unless there are any and their servers raise. -/
theorem clients_eq : clients e =
    if e.clients = [] ∨ (bootstrapServerClient e).isSome = true then some e.clients else none := by
  unfold clients
  cases bootstrapServerClient e with
  | none =>
    cases e.clients with
    | nil => rfl
    | cons client clients' => rfl
  | some servers =>
    rw [if_pos (.inr rfl)]
    have hall : e.clients.mapM (fun client => (some servers).map fun _ => client) =
        some (e.clients.map id) :=
      List.mapM_pure
    rw [hall, List.map_id]

theorem hasMtlsClients_eq (h : bootstrapServerClient e = bootstrapServerClient e') :
    hasMtlsClients e = hasMtlsClients e' := by
  have hclients : e.clients.Perm e'.clients := e.clients_perm.trans e'.clients_perm.symm
  have hnil : e.clients = [] ↔ e'.clients = [] := by
    rw [← List.length_eq_zero_iff, ← List.length_eq_zero_iff, hclients.length_eq]
  unfold hasMtlsClients
  rw [clients_eq, clients_eq]
  simp only [hnil, h]
  split
  · exact congrArg some (mtlsClients_eq e e')
  · rfl

theorem enabledAuth_eq (h : bootstrapServerClient e = bootstrapServerClient e') :
    enabledAuth e = enabledAuth e' := by
  unfold enabledAuth
  rw [hasMtlsClients_eq e e' h]
  simp only [authMapsFor_eq e e']

theorem racks_eq : racks e = racks e' := by
  have hracks := ((brokers_order e e').map BrokerUnit.rack).filter (· ≠ [])
  exact hracks.dedup.length_eq

/-- The fingerprints that are left after all the units. -/
theorem foldl_trusted (bs : List BrokerUnit) (trusted : List Str) :
    bs.foldl (fun trusted b => trusted.filter (· ∈ b.trusted)) trusted =
      trusted.filter fun cert => bs.all fun b => cert ∈ b.trusted := by
  induction bs generalizing trusted with
  | nil => simp
  | cons b bs ih =>
    rw [List.foldl_cons, ih, List.filter_filter]
    simp only [List.all_cons, Bool.and_comm]

theorem trustedByOurApp_eq : trustedByOurApp e = trustedByOurApp e' := by
  unfold trustedByOurApp
  rw [foldl_trusted, foldl_trusted]
  simp only [(brokers_order e e').all_eq]

end ClusterState

end KafkaCharm
