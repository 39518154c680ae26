import KafkaCharm.CapacityStore
import KafkaCharm.ServerProperties

namespace KafkaCharm

open PyText

/-- What a hook of the leader reads: its relations and certificates, what the brokers provide,
the passwords of its stores and its profile. `capacities` is `{}` where it is `none`. -/
structure BalancerView where
  peerRelation : Bool
  peerClusterRelation : Bool
  runsBroker : Bool
  peerCertsReady : Bool
  brokerUsername : Str
  brokerPassword : Str
  brokerUris : Str
  racks : Nat
  capacities : Option (List CapacityEntry)
  truststorePassword : Str
  keystorePassword : Str
  testing : Bool
  deriving DecidableEq

inductive BalancerStatus where
  | active
  | noPeerRelation
  | noPeerClusterRelation
  | noInternalTls
  | noBrokerData
  | notEnoughBrokers
  deriving DecidableEq, Repr

def minReplicas : Nat := 3

/-! ## Properties -/

def defaultBalancerGoals : List Str :=
  ["ReplicaCapacity", "DiskCapacity", "NetworkInboundCapacity", "NetworkOutboundCapacity",
   "CpuCapacity", "ReplicaDistribution", "PotentialNwOut", "DiskUsageDistribution",
   "NetworkInboundUsageDistribution", "NetworkOutboundUsageDistribution", "CpuUsageDistribution",
   "LeaderReplicaDistribution", "LeaderBytesInDistribution", "TopicReplicaDistribution",
   "PreferredLeaderElection"]

def hardBalancerGoals : List Str :=
  ["ReplicaCapacity", "DiskCapacity", "NetworkInboundCapacity", "NetworkOutboundCapacity",
   "CpuCapacity", "ReplicaDistribution"]

def balancerGoalsTesting : List Str := ["ReplicaDistribution"]

/-- `CRUISE_CONTROL_CONFIG_OPTIONS.split("\n")`. -/
def cruiseControlConfigOptions : List Str :=
  ["", "metric.reporter.topic=__CruiseControlMetrics",
   "sample.store.class=com.linkedin.kafka.cruisecontrol.monitor.sampling.KafkaSampleStore",
   "topic.config.provider.class=com.linkedin.kafka.cruisecontrol.config.KafkaAdminTopicConfigProvider",
   "kafka.broker.failure.detection.enable=true",
   "partition.metric.sample.store.topic=__KafkaCruiseControlPartitionMetricSamples",
   "broker.metric.sample.store.topic=__KafkaCruiseControlModelTrainingSamples",
   "max.active.user.tasks=10", "default.api.timeout.ms=20000", "request.timeout.ms=10000", ""]

/-- `CRUISE_CONTROL_TESTING_OPTIONS.split("\n")`. -/
def cruiseControlTestingOptions : List Str :=
  ["", "cruise.control.metrics.reporter.metrics.reporting.interval.ms=6000",
   "broker.metrics.window.ms=30000", "partition.metrics.window.ms=30000",
   "metadata.max.age.ms=10000", "metric.sampling.interval.ms=12000",
   "min.samples.per.broker.metrics.window=1", "min.samples.per.partition.metrics.window=1",
   "num.partition.metrics.windows=3", "num.broker.metrics.windows=10",
   "default.api.timeout.ms=10000", "request.timeout.ms=5000", ""]

def capacityJbodJson : Str := "/etc/cruise-control/capacityJBOD.json"
def cruiseControlAuth : Str := "/etc/cruise-control/cruisecontrol.credentials"
def balancerTruststore : Str := "/etc/cruise-control/peer-truststore.jks"
def balancerKeystore : Str := "/etc/cruise-control/peer-keystore.p12"

/-- The goal for racks: the one that asks for a rack per replica only where there are enough. -/
def rackGoals (racks brokers : Nat) : List Str :=
  if racks = 0 then []
  else if racks < min 3 brokers then ["RackAwareDistribution"] else ["RackAware"]

def goalClass (goal : Str) : Str :=
  "com.linkedin.kafka.cruisecontrol.analyzer.goals." ++ goal ++ "Goal"

/-- The lines for goals of the given names. -/
def goalProperties (names : List Str) : List Str :=
  let goals := names.map goalClass
  let hard := goals.filter fun goal => hardBalancerGoals.any fun name => decide (name <:+: goal)
  [property "default.goals" ([','].intercalate goals), property "goals" ([','].intercalate goals),
   property "hard.goals" ([','].intercalate hard)]

namespace BalancerView

variable (v : BalancerView)

/-- `PeerCluster.broker_connected`. -/
def brokerConnected : Bool :=
  v.brokerUsername ≠ [] && v.brokerPassword ≠ [] && v.brokerUris ≠ [] && v.capacities.isSome

/-- `ClusterState.balancer_status` of the leader of an application that runs the balancer. -/
def balancerStatus : BalancerStatus :=
  if v.peerRelation = false then .noPeerRelation
  else if v.peerClusterRelation = false ∧ v.runsBroker = false then .noPeerClusterRelation
  else if v.peerCertsReady = false then .noInternalTls
  else if v.brokerConnected = false then .noBrokerData
  else if (v.capacities.getD []).length < minReplicas then .notEnoughBrokers
  else .active

/-- `BalancerConfigManager.goals`. -/
def goals : List Str :=
  goalProperties ((if v.testing then balancerGoalsTesting else defaultBalancerGoals) ++
    rackGoals v.racks (v.capacities.getD []).length)

/-- `BalancerConfigManager.cc_tls_properties`. -/
def ccTlsProperties : List Str :=
  [property "ssl.truststore.location" balancerTruststore,
   property "ssl.truststore.password" v.truststorePassword,
   property "ssl.keystore.location" balancerKeystore,
   property "ssl.keystore.password" v.keystorePassword, property "ssl.client.auth" "none"]

/-- `BalancerConfigManager.cruise_control_properties`. -/
def cruiseControlProperties : List Str :=
  [property "bootstrap.servers" v.brokerUris,
   property "sasl.jaas.config" (loginModule v.brokerUsername v.brokerPassword ++ ";"),
   property "sasl.mechanism" ClusterState.internalAuth.mechanism,
   property "security.protocol" ClusterState.internalAuth.protocol,
   property "capacity.config.file" capacityJbodJson,
   property "webserver.security.enable" "true",
   property "webserver.auth.credentials.file" cruiseControlAuth] ++
    cruiseControlConfigOptions ++ v.goals ++ v.ccTlsProperties ++
    (if v.testing then cruiseControlTestingOptions else [])

end BalancerView

/-! ## Files -/

/-- The files of Cruise Control; the capacities are kept as what was dumped. -/
structure BalancerFiles where
  properties : Option Str
  capacities : Option (Option (List CapacityEntry))
  auth : Option Str
  deriving DecidableEq

/-- Nothing has been written. -/
def BalancerFiles.none : BalancerFiles := ⟨.none, .none, .none⟩

/-- `set_cruise_control_properties`, `set_broker_capacities` and `set_cruise_control_auth`. -/
def BalancerView.write (v : BalancerView) (password : Str) : BalancerFiles where
  properties := some (joinLines v.cruiseControlProperties)
  capacities := some v.capacities
  auth := some ("balancer: " ++ password ++ ",ADMIN\n")

/-- Equality of entries as `dict`s. -/
def CapacityEntry.same (a b : CapacityEntry) : Bool :=
  a.brokerId = b.brokerId && a.capacity.same b.capacity && a.doc = b.doc

/-- Equality of broker capacities as `dict`s. -/
def sameCapacities : Option (List CapacityEntry) → Option (List CapacityEntry) → Bool
  | .none, .none => true
  | some xs, some ys => xs.isEqv ys CapacityEntry.same
  | _, _ => false

/-- `BalancerManager.config_change_detected`; without a file of capacities it raises. -/
def BalancerFiles.configChangeDetected (readText : Str → Str) (files : BalancerFiles)
    (v : BalancerView) : Option Bool :=
  files.capacities.map fun capacities =>
    decide (changedLines (readLines readText files.properties) v.cruiseControlProperties ≠ []) ||
      !sameCapacities capacities v.capacities

/-! ## One line for each property -/

/-- Rack awareness is asked for only if there are enough racks for the replicas. -/
theorem rackAware_mem_iff (racks brokers : Nat) :
    ("RackAware" : Str) ∈ rackGoals racks brokers ↔ racks ≠ 0 ∧ min 3 brokers ≤ racks := by
  unfold rackGoals
  split
  case isTrue hzero => simp [hzero]
  case isFalse hsome =>
    split
    case isTrue hfew =>
      have hne : ("RackAware" : Str) ∉ [("RackAwareDistribution" : Str)] := by decide
      exact iff_of_false hne fun h => absurd h.2 (Nat.not_le.mpr hfew)
    case isFalse henough =>
      exact iff_of_true (List.mem_singleton.mpr rfl) ⟨hsome, Nat.not_lt.mp henough⟩

/-- Among the hard goals are those for the replicas of leaders and of topics, whose names end in
that of the goal for replicas. -/
example : ("hard.goals=com.linkedin.kafka.cruisecontrol.analyzer.goals.LeaderReplicaDistributionGoal"
    : Str) ∈ goalProperties ["LeaderReplicaDistribution"] := by
  decide +kernel

theorem oneLines_cruiseControlConfigOptions : OneLines cruiseControlConfigOptions := by
  unfold cruiseControlConfigOptions
  simp (disch := exact ⟨_, rfl, rfl⟩) only [oneLines_cons, oneLines_nil, oneLine_literal, and_self]

theorem oneLines_cruiseControlTestingOptions : OneLines cruiseControlTestingOptions := by
  unfold cruiseControlTestingOptions
  simp (disch := exact ⟨_, rfl, rfl⟩) only [oneLines_cons, oneLines_nil, oneLine_literal, and_self]

theorem oneLines_goalProperties {names : List Str} (h : OneLines names) :
    OneLines (goalProperties names) := by
  have hcomma : OneLine [','] := by decide
  have hclass : ∀ name ∈ names, OneLine (goalClass name) := by
    intro name hname
    have hone := h name hname
    unfold goalClass
    simp (disch := exact ⟨_, rfl, rfl⟩) only [oneLine_append, oneLine_literal, hone, and_self]
  have hgoals : ∀ goal ∈ names.map goalClass, OneLine goal := List.forall_mem_map.mpr hclass
  have hall : OneLine ([','].intercalate (names.map goalClass)) :=
    (oneLine_intercalate hcomma).mpr hgoals
  have hhard (test : Str → Bool) : OneLine ([','].intercalate ((names.map goalClass).filter test)) :=
    (oneLine_intercalate hcomma).mpr fun goal hgoal => hgoals goal (List.mem_of_mem_filter hgoal)
  unfold goalProperties
  simp (disch := exact ⟨_, rfl, rfl⟩) only [oneLines_cons, oneLines_nil, oneLine_property,
    oneLine_literal, hall, hhard, and_self]

namespace BalancerView

variable (v : BalancerView)

theorem oneLines_goals : OneLines v.goals := by
  refine oneLines_goalProperties (oneLines_append.mpr ⟨?_, ?_⟩)
  · split
    · unfold balancerGoalsTesting
      simp (disch := exact ⟨_, rfl, rfl⟩) only [oneLines_cons, oneLines_nil, oneLine_literal, and_self]
    · unfold defaultBalancerGoals
      simp (disch := exact ⟨_, rfl, rfl⟩) only [oneLines_cons, oneLines_nil, oneLine_literal, and_self]
  · unfold rackGoals
    split
    · exact oneLines_nil
    · split <;> simp (disch := exact ⟨_, rfl, rfl⟩) only [oneLines_cons, oneLines_nil,
        oneLine_literal, and_self]

/-- The strings that the properties take over as they are. -/
def rawTexts : List Str :=
  [v.brokerUris, v.brokerUsername, v.brokerPassword, v.truststorePassword, v.keystorePassword]

theorem oneLines_cruiseControlProperties_iff :
    OneLines v.cruiseControlProperties ↔ OneLines v.rawTexts := by
  have htesting : OneLines (if v.testing then cruiseControlTestingOptions else []) := by
    split
    · exact oneLines_cruiseControlTestingOptions
    · exact oneLines_nil
  have hpaths : OneLine capacityJbodJson ∧ OneLine cruiseControlAuth ∧ OneLine balancerTruststore ∧
      OneLine balancerKeystore :=
    ⟨oneLine_literal ⟨_, rfl, rfl⟩, oneLine_literal ⟨_, rfl, rfl⟩, oneLine_literal ⟨_, rfl, rfl⟩,
      oneLine_literal ⟨_, rfl, rfl⟩⟩
  have hmechanism : OneLine ClusterState.internalAuth.mechanism := Listener.oneLine_mechanism _
  have hprotocol : OneLine ClusterState.internalAuth.protocol := Listener.oneLine_protocol _
  simp (disch := exact ⟨_, rfl, rfl⟩) only [cruiseControlProperties, ccTlsProperties, rawTexts,
    oneLines_append, oneLines_cons, oneLines_nil, oneLine_property, oneLine_append,
    oneLine_literal, oneLine_loginModule, v.oneLines_goals, oneLines_cruiseControlConfigOptions,
    htesting, hpaths, hmechanism, hprotocol, and_true, true_and, and_assoc]

theorem cruiseControlProperties_ne_nil : v.cruiseControlProperties ≠ [] := by
  simp [cruiseControlProperties]

end BalancerView

theorem sameCapacities_refl (capacities : Option (List CapacityEntry)) :
    sameCapacities capacities capacities = true := by
  have hsame (a : CapacityEntry) : a.same a = true := by
    simp [CapacityEntry.same, BrokerCapacity.same_refl]
  cases capacities with
  | none => rfl
  | some xs =>
    change xs.isEqv xs CapacityEntry.same = true
    induction xs with
    | nil => rfl
    | cons x xs ih => rw [List.isEqv, hsame, ih, Bool.and_self]

/-- Files that were just written seem unchanged exactly when none of the strings that the
properties take over as they are holds a line end. -/
theorem written_unchanged_iff {readText : Str → Str}
    (hread : ∀ text, readText text = universalNewlines text) (v : BalancerView) (password : Str) :
    (v.write password).configChangeDetected readText v = some false ↔ OneLines v.rawTexts := by
  rw [← v.oneLines_cruiseControlProperties_iff,
    ← changedLines_written_iff v.cruiseControlProperties_ne_nil]
  simp only [BalancerFiles.configChangeDetected, BalancerView.write, readLines, hread,
    Option.map_some, sameCapacities_refl, Bool.not_true, Bool.or_false, Option.some.injEq,
    decide_eq_false_iff_not, not_not]

end KafkaCharm
