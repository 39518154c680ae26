import KafkaCharm.ClusterState
import KafkaCharm.Lib.Runs

/-! A leader publishes when it sees the relation data of the other application change, and files what
it has seen of them under `data` in its own. A hook works on the data as they were when it began. -/

namespace KafkaCharm

open PyText Runs

/-! ## Relation data -/

/-- The application of the brokers, and that of the controllers. -/
inductive Half
  | brokers
  | controllers
  deriving DecidableEq, Repr

def Half.other : Half → Half
  | .brokers => .controllers
  | .controllers => .brokers

instance {p : Half → Prop} [DecidablePred p] : Decidable (∀ a, p a) :=
  decidable_of_iff (p .brokers ∧ p .controllers)
    ⟨fun h a => by cases a; exacts [h.1, h.2], fun h => ⟨h .brokers, h .controllers⟩⟩

/-- Either application may run the balancer too. -/
structure Split where
  balancer : Half → Bool

def Split.roles (d : Split) (a : Half) : Roles where
  broker := decide (a = .brokers)
  controller := decide (a = .controllers)
  balancer := d.balancer a

/-- A text that was made up, so not an empty one. -/
abbrev Token := { s : Str // s ≠ [] }

/-- `KafkaCluster`: the relation data that the units of an application share. The
passwords of the internal users are made together; only that of the admin leaves the
application. -/
structure ClusterData where
  adminPassword : Str
  clusterUuid : Str
  controllerPassword : Str
  bootstrapController : Str
  bootstrapUnitId : Str
  bootstrapReplicaId : Str

/-- What an application writes for the other, without what is for a balancer: whether there are
`secret-broker` and `secret-controller`, and the fields that are not secret. -/
structure PeerFields where
  roles : Option Roles
  brokerSecret : Bool
  controllerSecret : Bool
  clusterUuid : Str
  bootstrapController : Str
  bootstrapUnitId : Str
  bootstrapReplicaId : Str
  brokerCa : List Str
  controllerCa : List Str
  racks : Str
  brokerCapacities : Str
  superUsers : Str
  deriving DecidableEq

def PeerFields.empty : PeerFields := ⟨none, false, false, [], [], [], [], [], [], [], [], []⟩

/-- The relation data of an application, with those of the other as `diff` last filed
them under `data`. -/
structure PeerBag where
  fields : PeerFields
  data : PeerFields
  deriving DecidableEq

def PeerBag.empty : PeerBag := ⟨.empty, .empty⟩

/-- The contents of the secrets that an application shares with the other. -/
structure PeerSecret where
  brokerUsername : Str
  brokerPassword : Str
  brokerUris : Str
  controllerPassword : Str

/-- An application: its own data, the `peer_certs.bundle` of its leader, its side of the
relation, and the data of the other application as the hooks of its leader read them now and
as the last relation-changed hook of its leader has read them. Of the other units nothing is
kept: their handlers return at once. -/
structure HalfState where
  cluster : ClusterData
  bundle : List Str
  bag : PeerBag
  secret : PeerSecret
  view : PeerBag
  seen : PeerBag

def HalfState.initial : HalfState where
  cluster := ⟨[], [], [], [], [], []⟩
  bundle := []
  bag := .empty
  secret := ⟨[], [], [], []⟩
  view := .empty
  seen := .empty

/-! ## `PeerCluster` -/

/-- A value of the own application, or else that of the other. -/
def orRemote (own remote : Str) : Str := if own ≠ [] then own else remote

/-- What a hook of the leader of the brokers reads besides: the addresses of the brokers, their
racks, their capacities and the super users. -/
structure BrokerReads where
  uris : Token
  racks : Nat
  capacities : Str
  superUsers : Str

/-- `_fetch_from_secrets`. -/
def fetchFromSecrets (shared : Bool) (content : Str) : Str := if shared then content else []

structure PeerClusterData where
  brokerUsername : Str
  brokerPassword : Str
  clusterUuid : Str
  controllerPassword : Str
  bootstrapController : Str
  bootstrapUnitId : Str
  bootstrapReplicaId : Str
  racks : Str

namespace HalfState

/-- What an application reads of the other. The contents of a secret are read anew
each time. -/
def remoteData (h : HalfState) (secret : PeerSecret) : PeerClusterData where
  brokerUsername := fetchFromSecrets h.view.fields.brokerSecret secret.brokerUsername
  brokerPassword := fetchFromSecrets h.view.fields.brokerSecret secret.brokerPassword
  clusterUuid := h.view.fields.clusterUuid
  controllerPassword := fetchFromSecrets h.view.fields.controllerSecret secret.controllerPassword
  bootstrapController := h.view.fields.bootstrapController
  bootstrapUnitId := h.view.fields.bootstrapUnitId
  bootstrapReplicaId := h.view.fields.bootstrapReplicaId
  racks := orRemote h.view.fields.racks "0".toList

/-- `ClusterState.peer_cluster`: an application that runs brokers takes the data of the
brokers from itself; one that runs controllers, or a balancer beside brokers, those of
the controllers. -/
def peerCluster (h : HalfState) (roles : Roles) (racks : Nat) (secret : PeerSecret) :
    PeerClusterData :=
  let remote := h.remoteData secret
  let ofBroker := fun own : Str => if roles.broker then own else []
  let ofController := fun own : Str =>
    if roles.controller || (roles.broker && roles.balancer) then own else []
  { brokerUsername := orRemote (ofBroker ClusterState.adminUser) remote.brokerUsername
    brokerPassword := orRemote (ofBroker h.cluster.adminPassword) remote.brokerPassword
    clusterUuid := orRemote (ofBroker h.cluster.clusterUuid) remote.clusterUuid
    controllerPassword := orRemote (ofController h.cluster.controllerPassword)
      remote.controllerPassword
    bootstrapController := orRemote (ofController h.cluster.bootstrapController)
      remote.bootstrapController
    bootstrapUnitId := orRemote (ofController h.cluster.bootstrapUnitId) remote.bootstrapUnitId
    bootstrapReplicaId := orRemote (ofController h.cluster.bootstrapReplicaId)
      remote.bootstrapReplicaId
    racks := orRemote (ofBroker (if racks = 0 then [] else decimal racks)) remote.racks }

/-- `ClusterState.peer_cluster_ca`. -/
def peerClusterCa (h : HalfState) : Half → List Str
  | .brokers => h.view.fields.controllerCa
  | .controllers => h.view.fields.brokerCa

end HalfState

/-! ## Readiness -/

inductive ReadyStatus
  | missingMode
  | noInternalTls
  | noBootstrapController
  | missingControllerPassword
  | noClusterUuid
  | noPeerClusterCa
  | noCert
  | noBrokerCreds
  | noPeerClusterRelation
  | noBrokerData
  | active
  deriving DecidableEq, Repr

/-- What a unit has for itself: `peer_certs.ready`, and a client certificate where
`tls_enabled` asks for one. -/
structure UnitTls where
  peerCertsReady : Bool
  tlsEnabled : Bool
  clientCertificate : Bool

structure Handshake where
  related : Bool
  half : Half → HalfState

namespace Handshake

variable (d : Split) (s : Handshake) (a : Half)

/-- Whether a unit is ready does not depend on the racks. -/
def peerCluster : PeerClusterData :=
  (s.half a).peerCluster (d.roles a) 0 (s.half a.other).secret

/-- `_broker_status`. -/
def brokerStatus (u : UnitTls) : ReadyStatus :=
  if !(d.roles a).broker then .active
  else if (s.peerCluster d a).bootstrapController = [] then .noBootstrapController
  else if (s.peerCluster d a).controllerPassword = [] then .missingControllerPassword
  else if (s.half a).cluster.clusterUuid = [] then .noClusterUuid
  else if !(d.roles a).controller ∧ (s.half a).peerClusterCa a = [] then .noPeerClusterCa
  else if u.tlsEnabled ∧ !u.clientCertificate then .noCert
  else if (s.half a).cluster.adminPassword = [] then .noBrokerCreds
  else .active

/-- `_controller_status`. -/
def controllerStatus : ReadyStatus :=
  if !(d.roles a).controller then .active
  else if !s.related ∧ !(d.roles a).broker then .noPeerClusterRelation
  else if (s.peerCluster d a).controllerPassword = [] then .missingControllerPassword
  else if !(d.roles a).broker ∧ (s.half a).peerClusterCa a = [] then .noPeerClusterCa
  else if (s.peerCluster d a).brokerUsername = [] ∨ (s.peerCluster d a).brokerPassword = [] ∨
      (s.peerCluster d a).clusterUuid = [] then .noBrokerData
  else .active

/-- `ready_to_start`, once the unit has its peer relation. -/
def readyToStart (u : UnitTls) : ReadyStatus :=
  if (d.roles a).broker ∧ !(d.roles a).controller ∧ !s.related then .missingMode
  else if !u.peerCertsReady then .noInternalTls
  else if s.brokerStatus d a u ≠ .active then s.brokerStatus d a u
  else if s.controllerStatus d a ≠ .active then s.controllerStatus d a
  else .active

end Handshake

/-! ## Handlers -/

/-- What a start hook makes up where it is missing. -/
structure Made where
  adminPassword : Token
  clusterUuid : Token
  controllerPassword : Token
  bootstrapController : Token
  bootstrapUnitId : Token
  bootstrapReplicaId : Token
  bundle : { certs : List Str // certs ≠ [] }

/-- Who is elected: the address and the id of the unit, its `metadata-directory-id`, and
its `peer_certs.bundle`. -/
structure Elected where
  bootstrapController : Token
  bootstrapUnitId : Token
  metadataDirectoryId : Str
  bundle : List Str

namespace HalfState

/-- Writing `cluster-uuid`. -/
def publishUuid (uuid : Str) (h : HalfState) : HalfState :=
  { h with bag.fields.clusterUuid := uuid }

/-- Writing `controller-password`, which goes into a secret. -/
def publishControllerPassword (password : Str) (h : HalfState) : HalfState :=
  { h with
    secret.controllerPassword := password
    bag.fields.controllerSecret := decide (password ≠ []) }

/-- Writing `broker-username`, `broker-password` and `broker-uris`. -/
def publishBrokerCredentials (username password uris : Str) (h : HalfState) : HalfState :=
  { h with
    secret.brokerUsername := username
    secret.brokerPassword := password
    secret.brokerUris := uris
    bag.fields.brokerSecret := decide (username ≠ [] ∨ password ≠ [] ∨ uris ≠ []) }

def publishBootstrap (controller unitId replicaId : Str) (h : HalfState) : HalfState :=
  { h with
    bag.fields.bootstrapController := controller
    bag.fields.bootstrapUnitId := unitId
    bag.fields.bootstrapReplicaId := replicaId }

/-- The setter of `peer_cluster_ca`, with the bundle of the leader. -/
def publishCa (a : Half) (h : HalfState) : HalfState :=
  match a with
  | .brokers => { h with bag.fields.brokerCa := h.bundle }
  | .controllers => { h with bag.fields.controllerCa := h.bundle }

/-- `diff`: the data of the other application are filed, without what it has filed. -/
def diff (h : HalfState) : HalfState := { h with bag.data := h.view.fields }

/-- Relation data cannot be written before there is a relation. -/
def ifRelated (related : Bool) (f : HalfState → HalfState) (h : HalfState) : HalfState :=
  if related then f h else h

/-- The credentials that `_init_kraft_mode` makes where brokers run. -/
def initCredentials (made : Made) (h : HalfState) : HalfState :=
  if h.cluster.adminPassword = [] then { h with cluster.adminPassword := made.adminPassword } else h

/-- The cluster uuid that it makes there. -/
def initUuid (related : Bool) (made : Made) (h : HalfState) : HalfState :=
  if h.cluster.clusterUuid = [] then
    { h with cluster.clusterUuid := made.clusterUuid }.ifRelated related
      (publishUuid made.clusterUuid)
  else h

/-- The quorum bootstrap data that it makes where controllers run. -/
def initController (related : Bool) (made : Made) (h : HalfState) : HalfState :=
  if h.cluster.bootstrapController = [] then
    let h := { h with cluster.controllerPassword := made.controllerPassword }.ifRelated related
      (publishControllerPassword made.controllerPassword)
    { h with
      cluster.bootstrapController := made.bootstrapController
      cluster.bootstrapUnitId := made.bootstrapUnitId
      cluster.bootstrapReplicaId := made.bootstrapReplicaId }
  else h

/-- `_init_kraft_mode` on the leader. -/
def initKraftMode (roles : Roles) (related : Bool) (made : Made) (h : HalfState) : HalfState :=
  let h := if roles.broker then (h.initCredentials made).initUuid related made else h
  if roles.controller then h.initController related made else h

/-- `setup_internal_tls` on the leader. -/
def setupInternalTls (a : Half) (related : Bool) (made : Made) (h : HalfState) : HalfState :=
  if h.bundle ≠ [] then h
  else { h with bundle := made.bundle }.ifRelated related (publishCa a)

/-- `_on_peer_cluster_changed`, without the data of a balancer. -/
def onPeerClusterChanged (a : Half) (roles : Roles) (secret : PeerSecret) (h : HalfState) :
    HalfState :=
  if h.view.fields.roles = none then h
  else
    let h := h.diff.publishCa a
    let peer := h.peerCluster roles 0 secret
    (h.publishControllerPassword peer.controllerPassword).publishBootstrap
      peer.bootstrapController peer.bootstrapUnitId peer.bootstrapReplicaId

/-- Whether the other application runs controllers or a balancer. -/
def answers (roles : Option Roles) : Bool := roles.any fun r => r.balancer || r.controller

/-- `update_peer_cluster_data`. -/
def updatePeerClusterData (a : Half) (roles : Roles) (reads : BrokerReads) (secret : PeerSecret)
    (h : HalfState) : HalfState :=
  let h := h.publishCa a
  let peer := h.peerCluster roles reads.racks secret
  { h with
    bag.fields.roles := some roles
    bag.fields.racks := peer.racks
    bag.fields.brokerCapacities := reads.capacities
    bag.fields.superUsers := reads.superUsers }.publishBrokerCredentials
      peer.brokerUsername peer.brokerPassword reads.uris |>.publishUuid peer.clusterUuid

/-- `_on_peer_cluster_orchestrator_changed`. On update-status there is no relation to take a
`diff` of. -/
def onPeerClusterOrchestratorChanged (a : Half) (roles : Roles) (reads : BrokerReads)
    (secret : PeerSecret) (updateStatus : Bool) (h : HalfState) : HalfState :=
  if !roles.broker ∨ !answers h.view.fields.roles then h
  else (if updateStatus then h else h.diff).updatePeerClusterData a roles reads secret

/-- The relation-changed hook. -/
def onChanged (a : Half) (roles : Roles) (reads : BrokerReads) (secret : PeerSecret)
    (h : HalfState) : HalfState :=
  let h := match a with
    | .brokers => h.onPeerClusterOrchestratorChanged a roles reads secret false
    | .controllers => h.onPeerClusterChanged a roles secret
  { h with seen := h.view }

/-- `_leader_elected`. -/
def leaderElected (roles : Roles) (related : Bool) (e : Elected) (h : HalfState) : HalfState :=
  let h := { h with bundle := e.bundle }
  if h.cluster.bootstrapController = [] ∨ !roles.controller then h
  else
    { h with
      cluster.bootstrapController := e.bootstrapController
      cluster.bootstrapUnitId := e.bootstrapUnitId
      cluster.bootstrapReplicaId := e.metadataDirectoryId }.ifRelated related
      (publishBootstrap e.bootstrapController e.bootstrapUnitId e.metadataDirectoryId)

end HalfState

/-! ## Runs -/

inductive HandshakeEvent
  | relate
  | created (a : Half)
  | start (a : Half) (made : Made)
  | fetch (a : Half)
  | changed (a : Half) (reads : BrokerReads)
  | updateStatus (a : Half) (reads : BrokerReads)
  | configChanged (reads : BrokerReads)
  | elected (a : Half) (e : Elected)

namespace Handshake

def initial : Handshake := ⟨false, fun _ => .initial⟩

/-- A hook of the leader of `a` changes the data of its own application only. -/
def update (s : Handshake) (a : Half) (f : HalfState → HalfState) : Handshake :=
  { s with half := Function.update s.half a (f (s.half a)) }

/-- Hooks of the leaders; those of the relation come once there is one. The start hook is that
of the controller handler, then that of the broker handler. `fetch` is the beginning of a hook,
which reads the data of the other application as they are. On config-changed the brokers publish
once they run. -/
def step (d : Split) (s : Handshake) : HandshakeEvent → Option Handshake
  | .relate => some { s with related := true }
  | .created a =>
    if s.related then
      some (s.update a fun h => { h with bag.fields.roles := some (d.roles a) })
    else none
  | .start a made =>
    some (s.update a fun h =>
      (h.initKraftMode (d.roles a) s.related made).setupInternalTls a s.related made)
  | .fetch a =>
    if s.related then some (s.update a fun h => { h with view := (s.half a.other).bag }) else none
  | .changed a reads =>
    if s.related then
      some (s.update a (HalfState.onChanged a (d.roles a) reads (s.half a.other).secret))
    else none
  | .updateStatus a reads =>
    some (s.update a (HalfState.onPeerClusterOrchestratorChanged a (d.roles a) reads
      (s.half a.other).secret true))
  | .configChanged reads =>
    if s.related then
      some (s.update .brokers (HalfState.updatePeerClusterData .brokers (d.roles .brokers) reads
        (s.half .controllers).secret))
    else none
  | .elected a e => some (s.update a (HalfState.leaderElected (d.roles a) s.related e))

/-- There is something to deliver to the leader of `a`: its last relation-changed hook has not
read the data of the other application as they are, or its hooks do not. -/
def pending (s : Handshake) (a : Half) : Prop :=
  ¬ ((s.half a).view = (s.half a.other).bag ∧ (s.half a).seen = (s.half a.other).bag)

instance (s : Handshake) (a : Half) : Decidable (s.pending a) :=
  inferInstanceAs (Decidable (¬ (_ ∧ _)))

/-- A relation-changed hook from its beginning. -/
def deliver (d : Split) (reads : BrokerReads) (s : Handshake) (a : Half) : Option Handshake :=
  (s.step d (.fetch a)).bind fun t => t.step d (.changed a reads)

/-- Nothing is left to deliver. -/
def Exchanged (s : Handshake) : Prop := ∀ a, ¬ s.pending a

instance (s : Handshake) : Decidable s.Exchanged :=
  inferInstanceAs (Decidable (∀ a, ¬ s.pending a))

end Handshake

end KafkaCharm
