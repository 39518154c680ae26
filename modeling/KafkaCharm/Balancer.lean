import KafkaCharm.Quorum

/-! Two reconcilers emit rebalance events: `BrokerOperator.reconcile_autobalance` asks for the
removal of the brokers that are departing, `BalancerOperator._on_config_changed` for the addition
of those that have an empty log directory. A broker that is being drained is both. -/

namespace KafkaCharm

open PyText

/-- A broker in the output of `kafka-log-dirs`, with the partitions of each log directory. -/
structure BrokerLogDirs where
  broker : Int
  logDirs : List (List Str)
  deriving DecidableEq, Repr

/-- How the query ends: no answer, a failing command or an output without the
JSON part, or the brokers that are described. -/
inductive LogDirsQuery where
  | unknown
  | described (brokers : List BrokerLogDirs)
  deriving DecidableEq, Repr

/-- The key of a log directory, `broker ID/storage no.`. -/
def assignmentKey (brokerId : Int) (i : Nat) : Str := intText brokerId ++ '/' :: decimal i

/-- The items of `_parse_log_dirs_output` in the order they are set. -/
def assignmentItems (brokers : List BrokerLogDirs) : List (Str × List Str) :=
  brokers.flatMap fun b => b.logDirs.zipIdx.map fun d => (assignmentKey b.broker d.2, d.1)

/-- `BalancerManager.get_partition_assignment`. -/
def partitionAssignment : LogDirsQuery → List (Str × List Str)
  | .unknown => []
  | .described brokers => (assignmentItems brokers).foldl (fun d e => Dict.set d e.1 e.2) []

/-- `int(_id.split("/")[0])`. -/
def brokerOfKey (key : Str) : Int := (parseInt (key.takeWhile (· ≠ '/'))).getD 0

inductive RebalanceMode where
  | add
  | remove
  deriving DecidableEq, Repr

inductive Emitted where
  | start
  | rebalance (mode : RebalanceMode) (brokerId : Int)
  deriving DecidableEq, Repr

/-- What `_on_config_changed` reads; `outdated` is a change of the configuration
or a certificate rotation. -/
structure BalancerState where
  leader : Bool
  healthy : Bool
  outdated : Bool
  logDirs : LogDirsQuery
  deriving DecidableEq, Repr

/-- `BalancerOperator._on_config_changed`, as the events it emits. -/
def BalancerState.onConfigChanged (s : BalancerState) : List Emitted :=
  if s.leader && s.healthy then
    (if s.outdated then [.start] else []) ++
      (partitionAssignment s.logDirs).filterMap fun e =>
        if e.2 = [] then some (.rebalance .add (brokerOfKey e.1)) else none
  else []

/-- `BrokerOperator.reconcile_autobalance`. -/
def reconcileAutobalance (runsBalancer leader : Bool) (query : QuorumQuery)
    (activeBrokersOnRelation : List Int) : List Emitted :=
  if runsBalancer && leader then
    (departingBrokers query activeBrokersOnRelation).map (.rebalance .remove)
  else []

/-! ## The keys of the assignment -/

theorem brokerOfKey_assignmentKey (brokerId : Int) (i : Nat) :
    brokerOfKey (assignmentKey brokerId i) = brokerId := by
  have hno : ∀ c ∈ intText brokerId, decide (c ≠ '/') = true := by
    intro c hc
    rw [decide_eq_true_eq]
    rintro rfl
    rcases mem_intText hc with h | h
    · exact absurd h (by decide)
    · exact absurd h (by decide)
  have htake : (assignmentKey brokerId i).takeWhile (· ≠ '/') = intText brokerId := by
    unfold assignmentKey
    rw [List.takeWhile_append_of_pos hno]
    simp
  unfold brokerOfKey
  rw [htake, parseInt_intText]
  rfl

theorem partitionAssignment_nodup (q : LogDirsQuery) : Dict.NodupKeys (partitionAssignment q) := by
  cases q with
  | unknown => exact Dict.NodupKeys.nil
  | described brokers => exact Dict.NodupKeys.nil.update (assignmentItems brokers)

theorem partitionAssignment_key {q : LogDirsQuery} {key : Str}
    (h : key ∈ Dict.keys (partitionAssignment q)) : ∃ id i, key = assignmentKey id i := by
  obtain ⟨e, he, rfl⟩ := List.mem_map.mp h
  cases q with
  | unknown => cases he
  | described brokers =>
    refine Dict.forall_mem_update (List.forall_mem_nil fun e : Str × List Str =>
      ∃ id i, e.1 = assignmentKey id i) ?_ e he
    intro item hitem
    obtain ⟨b, _, hin⟩ := List.mem_flatMap.mp hitem
    obtain ⟨dir, _, rfl⟩ := List.mem_map.mp hin
    exact ⟨b.broker, dir.2, rfl⟩

/-- The assignment gives the partitions of numbered log directories. -/
theorem mem_partitionAssignment {q : LogDirsQuery} {e : Str × List Str} :
    e ∈ partitionAssignment q ↔
      ∃ id i, e.1 = assignmentKey id i ∧
        Dict.get? (partitionAssignment q) (assignmentKey id i) = some e.2 := by
  have hiff := Dict.mem_iff_get? (k := e.1) (v := e.2) (partitionAssignment_nodup q)
  constructor
  · intro he
    obtain ⟨id, i, hkey⟩ := partitionAssignment_key (List.mem_map.mpr ⟨e, he, rfl⟩)
    exact ⟨id, i, hkey, hkey ▸ hiff.mp he⟩
  · rintro ⟨id, i, hkey, hget⟩
    exact hiff.mpr (hkey ▸ hget)

theorem start_mem_onConfigChanged {s : BalancerState} :
    .start ∈ s.onConfigChanged ↔ s.leader = true ∧ s.healthy = true ∧ s.outdated = true := by
  have hadd : ∀ assignment : List (Str × List Str), Emitted.start ∉ assignment.filterMap fun e =>
      if e.2 = [] then some (.rebalance .add (brokerOfKey e.1)) else none := by
    intro assignment hmem
    obtain ⟨e, -, he⟩ := List.mem_filterMap.mp hmem
    split at he
    · cases he
    · cases he
  unfold BalancerState.onConfigChanged
  cases s.leader <;> cases s.healthy <;> cases s.outdated <;> simp [hadd]

/-- Which additions are asked for: brokers with an empty log directory. -/
theorem mem_onConfigChanged_add {s : BalancerState} {id : Int} :
    .rebalance .add id ∈ s.onConfigChanged ↔
      s.leader = true ∧ s.healthy = true ∧
        ∃ i, Dict.get? (partitionAssignment s.logDirs) (assignmentKey id i) = some [] := by
  unfold BalancerState.onConfigChanged
  by_cases hgate : (s.leader && s.healthy) = true
  · rw [if_pos hgate, List.mem_append, List.mem_filterMap]
    rw [Bool.and_eq_true] at hgate
    have hstart : Emitted.rebalance .add id ∉ (if s.outdated then [Emitted.start] else []) := by
      cases s.outdated <;> simp
    simp only [hstart, false_or, hgate.1, hgate.2, true_and]
    constructor
    · rintro ⟨e, he, hadd⟩
      obtain ⟨id', i, hkey, hget⟩ := mem_partitionAssignment.mp he
      by_cases hempty : e.2 = []
      · simp only [hempty, if_true, Option.some.injEq, Emitted.rebalance.injEq, true_and] at hadd
        rw [hkey, brokerOfKey_assignmentKey] at hadd
        subst hadd
        exact ⟨i, hempty ▸ hget⟩
      · simp [hempty] at hadd
    · rintro ⟨i, hget⟩
      refine ⟨(assignmentKey id i, []), mem_partitionAssignment.mpr ⟨id, i, rfl, hget⟩, ?_⟩
      simp [brokerOfKey_assignmentKey]
  · rw [if_neg hgate]
    rw [Bool.and_eq_true] at hgate
    simp only [List.not_mem_nil, false_iff]
    intro h
    exact hgate ⟨h.1, h.2.1⟩

/-- No broker that is leaving is added, and so none is added and removed at
once, exactly when the handler is gated off or every log directory of every
departing broker still holds a partition. -/
theorem no_add_for_departing_iff (s : BalancerState) (query : QuorumQuery) (active : List Int)
    (runsBalancer leader : Bool) :
    (∀ id, .rebalance .add id ∈ s.onConfigChanged →
        id ∉ departingBrokers query active ∧
          .rebalance .remove id ∉ reconcileAutobalance runsBalancer leader query active) ↔
      s.leader = false ∨ s.healthy = false ∨
        ∀ id ∈ departingBrokers query active, ∀ i partitions,
          Dict.get? (partitionAssignment s.logDirs) (assignmentKey id i) = some partitions →
            partitions ≠ [] := by
  have hremove : ∀ id, id ∉ departingBrokers query active →
      Emitted.rebalance .remove id ∉ reconcileAutobalance runsBalancer leader query active := by
    intro id hnot hmem
    unfold reconcileAutobalance at hmem
    split at hmem
    · obtain ⟨id', hin, heq⟩ := List.mem_map.mp hmem
      cases heq
      exact hnot hin
    · cases hmem
  constructor
  · intro h
    by_cases hl : s.leader = true
    · by_cases hh : s.healthy = true
      · right; right
        intro id hdep i partitions hget hempty
        subst hempty
        exact (h id (mem_onConfigChanged_add.mpr ⟨hl, hh, i, hget⟩)).1 hdep
      · exact .inr (.inl (by simpa using hh))
    · exact .inl (by simpa using hl)
  · intro h id hadd
    obtain ⟨hl, hh, i, hget⟩ := mem_onConfigChanged_add.mp hadd
    have hnot : id ∉ departingBrokers query active := by
      intro hdep
      rcases h with h | h | h
      · rw [hl] at h
        cases h
      · rw [hh] at h
        cases h
      · exact h id hdep i [] hget rfl
    exact ⟨hnot, hremove id hnot⟩

/-- Broker 101 left the relation and has just been drained: one reconciler asks
for its removal, the other one to give it partitions back. -/
theorem drained_broker_added_back :
    let s : BalancerState := ⟨true, true, false, .described
      [⟨100, [["orders-0", "orders-1"]]⟩, ⟨101, [[]]⟩]⟩
    let query : QuorumQuery := .listing
      "100\tAAAA\t12\t0\t1700000000\t1700000000\tObserver\n101\tBBBB\t12\t0\t1700000000\t1700000000\tObserver"
    101 ∈ departingBrokers query [100] ∧
      .rebalance .add 101 ∈ s.onConfigChanged ∧
      .rebalance .remove 101 ∈ reconcileAutobalance true true query [100] := by
  intro s query
  refine ⟨by decide, by decide, by decide⟩

end KafkaCharm
