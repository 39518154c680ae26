import KafkaCharm.PeerTruststore
import KafkaCharm.Lib.Runs
import Mathlib.Logic.Function.Basic

/-! A broker-only and a controller-only application authenticate to each other with their peer
certificates. Each unit keeps its certificates and stores on disk, runs a process that read them
when it last started, and publishes what it trusts. Others see published data once it is
delivered. `healthy` holds, SANs do not change, and only the peer scope is rotated. -/

namespace KafkaCharm

inductive App where
  | broker
  | controller
  deriving DecidableEq, Repr

def App.other : App → App
  | .broker => .controller
  | .controller => .broker

@[simp] theorem App.other_other (a : App) : a.other.other = a := by
  cases a <;> rfl

@[simp] theorem App.other_ne (a : App) : a.other ≠ a := by
  cases a <;> decide

theorem App.eq_or_other (a b : App) : b = a ∨ b = a.other := by
  cases a <;> cases b <;> decide

/-- A unit: its application and its number. -/
abbrev UnitId := App × Nat

/-- How the two applications are deployed. Each has a leader among its units and a
CA of its own to fall back to, which signs itself with SHA-256. -/
structure Deployment extends Certs where
  size : App → Nat
  leader : App → Nat
  leader_lt : ∀ a, leader a < size a
  internalCa : App → Nat
  internalCa_signed : ∀ a, (profile (.authority (internalCa a))).SignedWithSha256

namespace Deployment

variable (d : Deployment)

def Has (x : UnitId) : Prop := x.2 < d.size x.1

instance (x : UnitId) : Decidable (d.Has x) := inferInstanceAs (Decidable (x.2 < d.size x.1))

def leaderOf (a : App) : UnitId := (a, d.leader a)

theorem has_leaderOf (a : App) : d.Has (d.leaderOf a) := d.leader_lt a

end Deployment

/-- What the other units of the application read: `TLSState.trusted_certificates`
and `TLSState.rotate`. -/
structure UnitData where
  trusted : List Cert
  rotate : Bool
  deriving DecidableEq, Repr

/-- What the other application reads: `peer_cluster_ca`, `trust`, `peer-cluster-rotate`. -/
structure AppData where
  ca : List Cert
  trust : List Cert
  rotate : Bool
  deriving DecidableEq, Repr

/-- A unit. `presented` and `loaded` are what its process read from the keystore and
the truststore at `lastRestart`; `peers` and `remote` is what was delivered to it of
the data of the units of its application and of the other application. -/
structure PeerUnit where
  certs : PeerCerts
  databag : UnitData
  truststore : Truststore
  modifyTime : Nat
  keystore : PeerCerts
  presented : PeerCerts
  loaded : List Cert
  lastRestart : Nat
  restartRequested : Bool
  peers : Nat → UnitData
  remote : AppData

structure PeerTls where
  unit : UnitId → PeerUnit
  app : App → AppData
  now : Nat

namespace PeerUnit

variable (k : Certs) (u : PeerUnit)

/-- `TLSManager.peer_cluster_app_trusts_new_bundle`. -/
def peerClusterAppTrustsNewBundle : Bool :=
  u.certs.bundle.all fun c => k.isValidLeafCertificate c || k.recognises u.remote.trust c

/-- `TLSManager.update_peer_cluster_trust` at a time. The file changes with each import. -/
def updatePeerClusterTrust (now : Nat) : PeerUnit :=
  { u with
    truststore := u.truststore.updatePeerClusterTrust k u.remote.ca
    modifyTime :=
      if u.remote.ca.all (k.recognises u.truststore.certs) then u.modifyTime else now }

/-- `TLSManager.rebuild_truststore` at a time. -/
def rebuildTruststore (now : Nat) : PeerUnit :=
  { u with truststore := .build k u.certs.bundle u.remote.ca, modifyTime := now }

/-- New certificates, with the stores removed and configured again. The old bundle
is kept under its temporary aliases where asked for. -/
def install (now : Nat) (certs : PeerCerts) (keepOld rotate : Bool) : PeerUnit :=
  let configured := Truststore.build k certs.bundle u.remote.ca
  { u with
    certs := certs
    keystore := certs
    truststore :=
      if keepOld then configured.importBundle .oldBundle u.certs.bundle else configured
    modifyTime := now
    databag := { u.databag with rotate := u.databag.rotate || rotate } }

theorem nodup_install (now : Nat) (certs : PeerCerts) (keepOld rotate : Bool) :
    Dict.NodupKeys (u.install k now certs keepOld rotate).truststore := by
  have hconfigured := Truststore.nodup_build k certs.bundle u.remote.ca
  unfold install
  dsimp only
  split
  · exact Truststore.nodup_importBundleFrom hconfigured
  · exact hconfigured

/-- `TLSHandler._handle_certificate_available_event`. -/
def handleCertificateAvailable (now : Nat) (certs : PeerCerts) : PeerUnit :=
  let certificateChanged := certs.certificate ≠ u.certs.certificate
  let caChanged := certs.ca ≠ u.certs.ca
  u.install k now certs caChanged (certificateChanged || caChanged)

/-- The restart of the service: the process reads the stores. -/
def reload (now : Nat) : PeerUnit :=
  { u with presented := u.keystore, loaded := u.truststore.certs, lastRestart := now }

end PeerUnit

namespace PeerTls

variable (d : Deployment) (s : PeerTls) (x : UnitId)

def setUnit (u : PeerUnit) : PeerTls := { s with unit := Function.update s.unit x u }

def setApp (a : App) (data : AppData) : PeerTls := { s with app := Function.update s.app a data }

@[simp] theorem setApp_unit (a : App) (data : AppData) : (s.setApp a data).unit = s.unit := rfl

theorem setUnit_unit (u : PeerUnit) (y : UnitId) :
    (s.setUnit x u).unit y = if y = x then u else s.unit y :=
  Function.update_apply s.unit x u y

@[simp] theorem setUnit_self (u : PeerUnit) : (s.setUnit x u).unit x = u := by
  simp [setUnit_unit]

theorem setApp_app (a b : App) (data : AppData) :
    (s.setApp a data).app b = if b = a then data else s.app b :=
  Function.update_apply s.app a data b

@[simp] theorem setApp_self (a : App) (data : AppData) : (s.setApp a data).app a = data := by
  simp [setApp_app]

/-! ## What a unit reads -/

/-- The data of unit `j` of the application, as the unit sees it. -/
def seen (j : Nat) : UnitData := if j = x.2 then (s.unit x).databag else (s.unit x).peers j

/-- `ClusterState.trusted_by_our_app`. -/
def trustedByOurApp : List Cert :=
  (s.unit x).databag.trusted.filter fun c =>
    (List.range (d.size x.1)).all fun j => c ∈ (s.seen x j).trusted

/-- Some unit of the application rotates, as the unit sees it. -/
def anyRotating : Bool := (List.range (d.size x.1)).any fun j => (s.seen x j).rotate

/-- `ClusterState.both_sides_rotating`. -/
def bothSidesRotating : Bool := (s.unit x).remote.rotate && s.anyRotating d x

/-- `TLSManager.both_apps_trust_new_bundle`. -/
def bothAppsTrustNewBundle : Bool :=
  ((s.unit x).certs.bundle ++ (s.unit x).remote.ca).all fun c =>
    d.isValidLeafCertificate c ||
      (d.recognises (s.trustedByOurApp d x) c && d.recognises (s.unit x).remote.trust c)

/-- The guard of the cleanup in `_on_update_status`. -/
def cleansUp : Bool :=
  (s.unit x).truststore.hasTemporaryAliases && s.bothAppsTrustNewBundle d x

/-- `config_changed_rotation` defers and waits for the other side. -/
def defers : Bool :=
  (s.unit x).databag.rotate && !(s.unit x).peerClusterAppTrustsNewBundle d.toCerts &&
    !(s.bothSidesRotating d x && x.1 = .broker)

/-! ## What a unit writes -/

/-- The setter of `peer_cluster_ca`, on the leader. -/
def publishCa : PeerTls :=
  if x.2 = d.leader x.1 then
    s.setApp x.1 { s.app x.1 with ca := (s.unit x).certs.bundle }
  else s

/-- The setter of `peer_cluster_tls_rotate`: only the leader writes. -/
def publishRotate (value : Bool) : PeerTls :=
  if x.2 = d.leader x.1 then s.setApp x.1 { s.app x.1 with rotate := value } else s

/-- The set of trusted certificates is written, and on the leader that of the application. -/
def publishTrust : PeerTls :=
  let u := s.unit x
  let t := s.setUnit x { u with databag := { u.databag with trusted := u.truststore.certs } }
  if x.2 = d.leader x.1 then t.setApp x.1 { t.app x.1 with trust := t.trustedByOurApp d x } else t

/-- `BrokerOperator.update_peer_truststore_state`. -/
def updatePeerTruststoreState (force : Bool) : PeerTls :=
  let u := s.unit x
  if u.truststore = [] then s
  else if !force && u.lastRestart ≤ u.modifyTime then s
  else s.publishTrust d x

/-- `TLSHandler.unit_tls_rotate`, but for `certs_updated`. -/
def unitTlsRotate : PeerTls :=
  let t := s.updatePeerTruststoreState d x false
  t.setUnit x ((t.unit x).updatePeerClusterTrust d.toCerts t.now)

/-- `certs_updated`: the trusted set has changed. -/
def certsUpdated : Bool :=
  let before := (s.unit x).truststore.certs
  let after := ((s.unit x).updatePeerClusterTrust d.toCerts s.now).truststore.certs
  !(before.all (· ∈ after) && after.all (· ∈ before))

/-- What `_on_config_changed` does once `config_changed_rotation` lets it continue: a
restart is requested if need be, the broker leader publishes its bundle again, and
the rotation state is reset. -/
def proceed (restart : Bool) : PeerTls :=
  let u := s.unit x
  let requested := s.setUnit x { u with
    restartRequested := u.restartRequested || restart || u.databag.rotate
    databag := { u.databag with rotate := false } }
  let published := if x.1 = .broker then requested.publishCa d x else requested
  published.publishRotate d x (published.anyRotating d x)

/-- `BrokerOperator._on_config_changed`. -/
def configChanged (propertiesChanged : Bool) : PeerTls :=
  let t := s.unitTlsRotate d x
  if t.defers d x then t else t.proceed d x (propertiesChanged || s.certsUpdated d x)

/-- `TLSHandler._on_peer_certificate_available`. -/
def certificateAvailable (certs : PeerCerts) (propertiesChanged : Bool) : PeerTls :=
  let installed := s.setUnit x ((s.unit x).handleCertificateAvailable d.toCerts s.now certs)
  let published := installed.publishCa d x
  let informed :=
    if (published.unit x).databag.rotate then published.publishRotate d x true else published
  informed.configChanged d x propertiesChanged

/-- `TLSHandler._tls_relation_broken`: the unit signs itself a certificate. -/
def relationBroken (serial : Nat) (propertiesChanged : Bool) : PeerTls :=
  let certs : PeerCerts := ⟨.leaf serial, d.internalCa x.1, []⟩
  let installed := s.setUnit x ((s.unit x).install d.toCerts s.now certs true true)
  (installed.publishCa d x).configChanged d x propertiesChanged

/-- `BrokerOperator._on_update_status`. -/
def updateStatus (propertiesChanged : Bool) : PeerTls :=
  let t := s.configChanged d x propertiesChanged
  if t.cleansUp d x then
    t.setUnit x { (t.unit x).rebuildTruststore d.toCerts t.now with restartRequested := true }
  else t

/-- `KafkaCharm._restart_broker`, once the lock is granted. -/
def restartBroker (healthy : Bool) : PeerTls :=
  let t := s.setUnit x { (s.unit x).reload s.now with restartRequested := !healthy }
  if healthy then t.updatePeerTruststoreState d x true else t

/-- `_on_peer_cluster_changed` and `_on_peer_cluster_orchestrator_changed`. -/
def peerClusterChanged (propertiesChanged : Bool) : PeerTls :=
  if x.2 = d.leader x.1 then (s.publishCa d x).configChanged d x propertiesChanged else s

end PeerTls

/-- `restart` is granted the lock it requested; in `reboot` the service restarts by
itself. `deliverUnit` and `deliverApp` make published data visible. -/
inductive TlsEvent where
  | certificateAvailable (x : UnitId) (certs : PeerCerts) (propertiesChanged : Bool)
  | relationBroken (x : UnitId) (serial : Nat) (propertiesChanged : Bool)
  | configChanged (x : UnitId) (propertiesChanged : Bool)
  | updateStatus (x : UnitId) (propertiesChanged : Bool)
  | restart (x : UnitId) (healthy : Bool)
  | reboot (x : UnitId)
  | peerClusterChanged (x : UnitId) (propertiesChanged : Bool)
  | deliverUnit (x : UnitId) (j : Nat)
  | deliverApp (x : UnitId)
  | tick
  deriving DecidableEq, Repr

/-- The unit an event happens on. -/
def TlsEvent.on : TlsEvent → Option UnitId
  | .certificateAvailable x _ _ | .relationBroken x _ _ | .configChanged x _ | .updateStatus x _
  | .restart x _ | .reboot x | .peerClusterChanged x _ | .deliverUnit x _ | .deliverApp x => some x
  | .tick => none

namespace PeerTls

variable (d : Deployment) (s : PeerTls)

def handle : TlsEvent → PeerTls
  | .certificateAvailable x certs pc => s.certificateAvailable d x certs pc
  | .relationBroken x serial pc => s.relationBroken d x serial pc
  | .configChanged x pc => s.configChanged d x pc
  | .updateStatus x pc => s.updateStatus d x pc
  | .restart x healthy => s.restartBroker d x healthy
  | .reboot x => s.setUnit x ((s.unit x).reload s.now)
  | .peerClusterChanged x pc => s.peerClusterChanged d x pc
  | .deliverUnit x j =>
    s.setUnit x { s.unit x with
      peers := Function.update (s.unit x).peers j (s.unit (x.1, j)).databag }
  | .deliverApp x => s.setUnit x { s.unit x with remote := s.app x.1.other }
  | .tick => { s with now := s.now + 1 }

/-- The event can happen: its units exist, and a restart was requested. -/
def enabled (e : TlsEvent) : Bool :=
  e.on.all (fun x => decide (d.Has x)) &&
    match e with
    | .restart x _ => (s.unit x).restartRequested
    | .deliverUnit x j => decide (d.Has (x.1, j) ∧ j ≠ x.2)
    | _ => true

end PeerTls

def tlsStep (d : Deployment) (s : PeerTls) (e : TlsEvent) : Option PeerTls :=
  if s.enabled d e then some (s.handle d e) else none

end KafkaCharm
