import KafkaCharm.Bootstrap
import KafkaCharm.Quorum

namespace KafkaCharm

open PyText

/-- The roles of an application. -/
structure Roles where
  broker : Bool
  controller : Bool
  balancer : Bool
  deriving DecidableEq, Repr

/-- The name of a unit. -/
def unitName (app : AppName) (u : Nat) : Str := app.text ++ '/' :: decimal u

/-- `int(unit.name.split("/")[1])`. -/
def unitId (unit : Str) : Int := ((unit.splitOn '/')[1]?.bind parseInt).getD 0

/-- `KafkaBroker.broker_id`. -/
def brokerId (unit : Str) : Int := kraftNodeIdOffset + unitId unit

/-- `node.id` in `ConfigManager.controller_properties`. -/
def nodeId (roles : Roles) (unit : Str) : Int :=
  if roles.broker then unitId unit + kraftNodeIdOffset else unitId unit

/-- `ClusterState.kraft_unit_id`. -/
def kraftUnitId (roles : Roles) (unit : Str) : Int :=
  if roles.broker && roles.controller then kraftNodeIdOffset + unitId unit else unitId unit

/-- An application as its own units see it: the units on its peer relation, and those
on the `peer-cluster` relation that it requires. -/
structure NodeApp where
  roles : Roles
  units : List Str
  peerCluster : Option (List Str)
  deriving DecidableEq

namespace NodeApp

variable (app : NodeApp)

/-- `ClusterState.active_brokers_on_relation`. -/
def activeBrokersOnRelation : List Int :=
  if app.roles.broker then app.units.map brokerId
  else
    match app.peerCluster with
    | none => []
    | some remote => remote.map fun unit => kraftNodeIdOffset + unitId unit

/-- `available_brokers` in `BalancerOperator.rebalance`. -/
def availableBrokers : List Int :=
  if app.roles.broker then app.units.map brokerId
  else (app.peerCluster.getD []).map unitId

end NodeApp

/-- What `BalancerOperator.rebalance` asks of Cruise Control. -/
structure CruiseControl where
  monitoring : Bool
  executing : Bool
  ready : Bool
  deriving DecidableEq, Repr

/-- Cruise Control when it can take a task. -/
def CruiseControl.idle : CruiseControl := ⟨true, false, true⟩

inductive RebalanceTrigger where
  | action
  | event
  deriving DecidableEq, Repr

def modeAdd : Str := "add"
def modeRemove : Str := "remove"

/-- `failure_conditions` of `BalancerOperator.rebalance`. -/
def failureConditions (app : NodeApp) (leader : Bool) (cc : CruiseControl)
    (trigger : RebalanceTrigger) (mode : Str) (id : Option Int) : List (Bool × Str) :=
  let moved := decide (mode = modeAdd ∨ mode = modeRemove)
  [(!app.roles.balancer, "Action must be run on an application with balancer role"),
   (!leader, "Action must be run on the application leader"),
   (!cc.monitoring, "CruiseControl balancer service is not yet ready"),
   (cc.executing,
    "CruiseControl balancer service is currently executing a task, please try again later"),
   (!cc.ready, "CruiseControl balancer service has not yet collected enough data to provide a partition reallocation proposal"),
   (moved && id.isNone,
    "'add' and 'remove' rebalance action require passing the 'brokerid' parameter"),
   (decide (trigger = .action) && moved && !decide (id ∈ app.availableBrokers.map some),
    "invalid brokerid")]

/-- The message `BalancerOperator.rebalance` fails with, before Cruise Control is asked. -/
def rebalanceFailure (app : NodeApp) (leader : Bool) (cc : CruiseControl)
    (trigger : RebalanceTrigger) (mode : Str) (id : Option Int) : Option Str :=
  ((failureConditions app leader cc trigger mode id).find? Prod.fst).map Prod.snd

/-! ## Unit names -/

theorem unitId_unitName (app : AppName) (u : Nat) : unitId (unitName app u) = u := by
  have happ : '/' ∉ app.text := by
    intro h
    exact absurd (app.legal '/' h) (by decide)
  have hdecimal : '/' ∉ decimal u := by
    intro h
    exact absurd (isDigit_of_mem_decimal h) (by decide)
  have hsplit : (unitName app u).splitOn '/' = [app.text, decimal u] := by
    unfold unitName
    rw [List.splitOn_append_cons_self_of_not_mem happ, List.splitOn_eq_singleton hdecimal]
  unfold unitId
  rw [hsplit]
  simp [parseInt_decimal]

/-- The id that the bootstrap data names is that of the unit with this name. -/
theorem kraftUnitId_controllerApp (app : ControllerApp) {roles : Roles}
    (hbroker : roles.broker = app.runsBroker) (hcontroller : roles.controller = true) (u : Nat) :
    (app.kraftUnitId u : Int) = kraftUnitId roles (unitName app.name u) := by
  unfold ControllerApp.kraftUnitId kraftUnitId
  rw [unitId_unitName, hbroker, hcontroller, Bool.and_true]
  split
  · rw [kraftNodeIdOffset]
    omega
  · rfl

/-! ## The two applications -/

/-- A broker application and a separate controller application: their names, roles and
unit numbers. Either may run the balancer, and the brokers may be controllers too. -/
structure TwoApps where
  brokerApp : AppName
  brokerRoles : Roles
  brokerUnits : List Nat
  controllerApp : AppName
  controllerRoles : Roles
  controllerUnits : List Nat
  broker_role : brokerRoles.broker = true
  controller_role : controllerRoles.controller = true
  separate : controllerRoles.broker = false

namespace TwoApps

variable (d : TwoApps)

def brokerNames : List Str := d.brokerUnits.map (unitName d.brokerApp)

def controllerNames : List Str := d.controllerUnits.map (unitName d.controllerApp)

/-- What the units of the broker application see. -/
def brokerSide : NodeApp := ⟨d.brokerRoles, d.brokerNames, none⟩

/-- What the units of the controller application see. -/
def controllerSide : NodeApp := ⟨d.controllerRoles, d.controllerNames, some d.brokerNames⟩

/-- The node ids of the brokers. -/
def brokerIds : List Int := d.brokerNames.map (nodeId d.brokerRoles)

/-- The node ids of the units that are controllers only. -/
def controllerIds : List Int := d.controllerNames.map (nodeId d.controllerRoles)

/-- On each unit of an application the ids it has by its roles are its node id. -/
def UnitIdsAgree (app : NodeApp) : Prop :=
  ∀ unit ∈ app.units,
    (app.roles.controller = true → kraftUnitId app.roles unit = nodeId app.roles unit) ∧
    (app.roles.broker = true → brokerId unit = nodeId app.roles unit)

/-- An application takes for brokers those that are, and where it can rebalance at all
it accepts their ids and no others. -/
def BrokerIdsAgree (app : NodeApp) : Prop :=
  (∀ id, id ∈ app.activeBrokersOnRelation ↔ id ∈ d.brokerIds) ∧
  (app.roles.balancer = true → ∀ mode, mode = modeAdd ∨ mode = modeRemove →
    ∀ id, rebalanceFailure app true .idle .action mode (some id) = none ↔ id ∈ d.brokerIds)

/-- No controller shares its id with a broker, and whatever units are online, those
that are taken for brokers are. -/
def IdsApart : Prop :=
  (∀ id ∈ d.controllerIds, id ∉ d.brokerIds) ∧
  ∀ query, (∀ id ∈ Dict.keys (quorumStatus query), id ∈ d.brokerIds ∨ id ∈ d.controllerIds) →
    ∀ id ∈ onlineBrokers query, id ∈ d.brokerIds

/-- Every place agrees on the node id of every unit, and no two units share one. -/
def NodeIdsAgree : Prop :=
  UnitIdsAgree d.brokerSide ∧ UnitIdsAgree d.controllerSide ∧
    d.BrokerIdsAgree d.brokerSide ∧ d.BrokerIdsAgree d.controllerSide ∧ d.IdsApart

variable {d}

theorem mem_brokerIds {id : Int} : id ∈ d.brokerIds ↔ ∃ u ∈ d.brokerUnits, id = 100 + (u : Int) := by
  simp only [brokerIds, brokerNames, List.map_map, List.mem_map, Function.comp_apply, nodeId,
    d.broker_role, if_true, unitId_unitName, kraftNodeIdOffset]
  constructor
  · rintro ⟨u, hu, rfl⟩
    exact ⟨u, hu, by omega⟩
  · rintro ⟨u, hu, rfl⟩
    exact ⟨u, hu, by omega⟩

theorem mem_controllerIds {id : Int} :
    id ∈ d.controllerIds ↔ ∃ u ∈ d.controllerUnits, id = (u : Int) := by
  simp only [controllerIds, controllerNames, List.map_map, List.mem_map, Function.comp_apply,
    nodeId, d.separate, Bool.false_eq_true, if_false, unitId_unitName]
  constructor
  · rintro ⟨u, hu, rfl⟩
    exact ⟨u, hu, rfl⟩
  · rintro ⟨u, hu, rfl⟩
    exact ⟨u, hu, rfl⟩

theorem unitIdsAgree_brokerSide (d : TwoApps) : UnitIdsAgree d.brokerSide := by
  intro unit _
  have hrole := d.broker_role
  constructor
  · intro hcontroller
    have hc : d.brokerRoles.controller = true := hcontroller
    simp only [brokerSide, kraftUnitId, nodeId, hrole, hc, Bool.and_self, if_true]
    omega
  · intro _
    simp only [brokerSide, brokerId, nodeId, hrole, if_true]
    omega

theorem unitIdsAgree_controllerSide (d : TwoApps) : UnitIdsAgree d.controllerSide := by
  intro unit _
  have hrole := d.separate
  constructor
  · intro _
    simp [controllerSide, kraftUnitId, nodeId, hrole]
  · intro hbroker
    exact absurd (hbroker.symm.trans hrole) (by decide)

theorem mem_activeBrokers_brokerSide {id : Int} :
    id ∈ d.brokerSide.activeBrokersOnRelation ↔ id ∈ d.brokerIds := by
  have hbroker : d.brokerSide.roles.broker = true := d.broker_role
  rw [mem_brokerIds, NodeApp.activeBrokersOnRelation, if_pos hbroker]
  simp [brokerSide, brokerNames, brokerId, unitId_unitName, kraftNodeIdOffset, eq_comm]

theorem mem_activeBrokers_controllerSide {id : Int} :
    id ∈ d.controllerSide.activeBrokersOnRelation ↔ id ∈ d.brokerIds := by
  have hbroker : ¬ d.controllerSide.roles.broker = true := by
    simpa [controllerSide] using d.separate
  rw [mem_brokerIds, NodeApp.activeBrokersOnRelation, if_neg hbroker]
  simp [controllerSide, brokerNames, unitId_unitName, kraftNodeIdOffset, eq_comm]

/-- Where the balancer runs, the action accepts the ids of `available_brokers`. -/
theorem rebalanceFailure_eq_none {app : NodeApp} (hbalancer : app.roles.balancer = true)
    {mode : Str} (hmode : mode = modeAdd ∨ mode = modeRemove) {id : Int} :
    rebalanceFailure app true .idle .action mode (some id) = none ↔ id ∈ app.availableBrokers := by
  unfold rebalanceFailure
  rw [Option.map_eq_none_iff, List.find?_eq_none]
  simp [failureConditions, hbalancer, CruiseControl.idle, hmode, -String.reduceToList]

theorem mem_availableBrokers_brokerSide {id : Int} :
    id ∈ d.brokerSide.availableBrokers ↔ id ∈ d.brokerIds := by
  have hbroker : d.brokerSide.roles.broker = true := d.broker_role
  rw [← mem_activeBrokers_brokerSide, NodeApp.availableBrokers, NodeApp.activeBrokersOnRelation,
    if_pos hbroker, if_pos hbroker]

/-- From the controller application the bare unit numbers are accepted. -/
theorem mem_availableBrokers_controllerSide {id : Int} :
    id ∈ d.controllerSide.availableBrokers ↔ ∃ u ∈ d.brokerUnits, id = (u : Int) := by
  have hbroker : ¬ d.controllerSide.roles.broker = true := by
    simpa [controllerSide] using d.separate
  rw [NodeApp.availableBrokers, if_neg hbroker]
  simp [controllerSide, brokerNames, unitId_unitName, eq_comm]

theorem brokerIdsAgree_brokerSide (d : TwoApps) : d.BrokerIdsAgree d.brokerSide := by
  refine ⟨fun id => mem_activeBrokers_brokerSide, ?_⟩
  intro hbalancer mode hmode id
  rw [rebalanceFailure_eq_none hbalancer hmode]
  exact mem_availableBrokers_brokerSide

/-- The unit numbers are the ids only of no brokers: the greatest number plus the
offset is greater than all. -/
theorem brokerIdsAgree_controllerSide_iff (d : TwoApps) :
    d.BrokerIdsAgree d.controllerSide ↔
      d.controllerRoles.balancer = false ∨ d.brokerUnits = [] := by
  constructor
  · rintro ⟨-, haccepted⟩
    by_cases hbalancer : d.controllerRoles.balancer = true
    · right
      by_contra hne
      obtain ⟨m, hm, hmax⟩ : ∃ m ∈ d.brokerUnits, ∀ u ∈ d.brokerUnits, u ≤ m :=
        ⟨d.brokerUnits.max hne, List.max_mem hne, fun u hu => List.le_max_of_mem hu⟩
      have hid : (100 + (m : Int)) ∈ d.brokerIds := mem_brokerIds.mpr ⟨m, hm, rfl⟩
      rw [← haccepted hbalancer modeAdd (.inl rfl), rebalanceFailure_eq_none hbalancer (.inl rfl),
        mem_availableBrokers_controllerSide] at hid
      obtain ⟨u, hu, heq⟩ := hid
      have := hmax u hu
      omega
    · left
      simpa using hbalancer
  · intro h
    refine ⟨fun id => mem_activeBrokers_controllerSide, ?_⟩
    intro hbalancer mode hmode id
    have hnone : d.brokerUnits = [] := by
      rcases h with h | h
      · exact absurd (hbalancer.symm.trans h) (by decide)
      · exact h
    rw [rebalanceFailure_eq_none hbalancer hmode, mem_availableBrokers_controllerSide,
      mem_brokerIds]
    simp [hnone]

theorem idsApart_of_lt (h : ∀ u ∈ d.controllerUnits, u < 100) : d.IdsApart := by
  have hbelow : ∀ id ∈ d.controllerIds, id < 100 := by
    intro id hid
    obtain ⟨u, hu, rfl⟩ := mem_controllerIds.mp hid
    have := h u hu
    omega
  constructor
  · intro id hcontroller hbroker
    obtain ⟨u, _, rfl⟩ := mem_brokerIds.mp hbroker
    have := hbelow _ hcontroller
    omega
  · intro query honly id hid
    obtain ⟨hoffset, output, hquery, hkey⟩ := mem_onlineBrokers.mp hid
    subst hquery
    refine (honly id hkey).resolve_right ?_
    intro hcontroller
    have hlt := hbelow id hcontroller
    have hle : (100 : Int) ≤ id := hoffset
    omega

/-- The columns of a follower's line after its node id. -/
def followerColumns : Str := "AAAAAAAAAAAAAAAAAAAAAA\t12\t0\t1700000000\t1700000000\tFollower"

/-- A listing with one follower lists its id. -/
theorem keys_quorumStatus_follower (u : Nat) :
    Dict.keys (quorumStatus (.listing (decimal u ++ '\t' :: followerColumns))) = [(u : Int)] := by
  have hchar : ∀ c ∈ decimal u, c ≠ '\t' ∧ c ≠ '\n' := by
    intro c hc
    have hdigit := isDigit_of_mem_decimal hc
    constructor
    · rintro rfl
      exact absurd hdigit (by decide)
    · rintro rfl
      exact absurd hdigit (by decide)
  have hlines : (decimal u ++ '\t' :: followerColumns).splitOn '\n' =
      [decimal u ++ '\t' :: followerColumns] := by
    apply List.splitOn_eq_singleton
    rw [List.mem_append, not_or]
    exact ⟨fun h => (hchar _ h).2 rfl, by decide⟩
  have hcolumns : (decimal u ++ '\t' :: followerColumns).splitOn '\t' =
      decimal u :: followerColumns.splitOn '\t' :=
    List.splitOn_append_cons_self_of_not_mem (fun h => (hchar _ h).1 rfl) _
  have hline : ∃ info,
      parseQuorumLine (decimal u ++ '\t' :: followerColumns) = some ((u : Int), info) := by
    refine ⟨⟨"AAAAAAAAAAAAAAAAAAAAAA", 0, .follower⟩, ?_⟩
    have hrest : (followerColumns.splitOn '\t').map strip =
        ["AAAAAAAAAAAAAAAAAAAAAA", "12", "0", "1700000000", "1700000000", "Follower"] := by
      decide
    unfold parseQuorumLine
    simp only [hcolumns, List.map_cons, hrest, strip_of_spaceFree (decimal_spaceFree u)]
    simp [parseInt_decimal]
    rfl
  obtain ⟨info, hinfo⟩ := hline
  simp [quorumStatus, parseQuorum, hlines, hinfo, Dict.set, Dict.keys]

theorem idsApart_iff (d : TwoApps) : d.IdsApart ↔ ∀ u ∈ d.controllerUnits, u < 100 := by
  constructor
  · rintro ⟨hdisjoint, honline⟩ u hu
    by_contra hge
    have hid : (u : Int) ∈ d.controllerIds := mem_controllerIds.mpr ⟨u, hu, rfl⟩
    apply hdisjoint u hid
    -- with only this controller online, its id is taken for a broker's
    apply honline (.listing (decimal u ++ '\t' :: followerColumns))
    · intro id hkey
      rw [keys_quorumStatus_follower, List.mem_singleton] at hkey
      exact .inr (hkey ▸ hid)
    · unfold onlineBrokers
      rw [keys_quorumStatus_follower, List.mem_filter]
      refine ⟨List.mem_singleton_self _, ?_⟩
      rw [decide_eq_true_eq, kraftNodeIdOffset]
      omega
  · exact idsApart_of_lt

end TwoApps

/-- The node ids agree and are apart exactly when the rebalance action is not run from
the controller application on brokers that are there, and no controller's unit number
reaches the offset. -/
theorem nodeIdsAgree_iff (d : TwoApps) :
    d.NodeIdsAgree ↔
      (d.controllerRoles.balancer = false ∨ d.brokerUnits = []) ∧
        ∀ u ∈ d.controllerUnits, u < 100 := by
  unfold TwoApps.NodeIdsAgree
  rw [d.brokerIdsAgree_controllerSide_iff, d.idsApart_iff]
  constructor
  · rintro ⟨-, -, -, hbalancer, hunits⟩
    exact ⟨hbalancer, hunits⟩
  · rintro ⟨hbalancer, hunits⟩
    exact ⟨d.unitIdsAgree_brokerSide, d.unitIdsAgree_controllerSide, d.brokerIdsAgree_brokerSide,
      hbalancer, hunits⟩

/-- Three brokers, and a balancer on the controllers: it rejects the id of a broker and
accepts a number that is none. -/
theorem controllers_balancer_rejects_broker_id :
    ∃ d : TwoApps, d.brokerUnits = [0, 1, 2] ∧ d.controllerRoles = ⟨false, true, true⟩ ∧
      (100 : Int) ∈ d.brokerIds ∧
      rebalanceFailure d.controllerSide true .idle .action modeAdd (some 100) =
        some "invalid brokerid" ∧
      rebalanceFailure d.controllerSide true .idle .action modeAdd (some 0) = none ∧
      ¬ d.NodeIdsAgree := by
  let controller : AppName := ⟨"controller", List.all_eq_true.mp (by decide)⟩
  let d : TwoApps := ⟨.kafka, ⟨true, false, false⟩, [0, 1, 2],
    controller, ⟨false, true, true⟩, [0], rfl, rfl, rfl⟩
  have hrejected : rebalanceFailure d.controllerSide true .idle .action modeAdd (some 100) =
      some "invalid brokerid" := by
    decide
  have hbroker : (100 : Int) ∈ d.brokerIds := by
    decide
  refine ⟨d, rfl, rfl, hbroker, hrejected, by decide, ?_⟩
  rintro ⟨-, -, -, ⟨-, haccepted⟩, -⟩
  have haccept := (haccepted rfl modeAdd (.inl rfl) 100).mpr hbroker
  rw [hrejected] at haccept
  cases haccept

end KafkaCharm
