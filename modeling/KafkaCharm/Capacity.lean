import KafkaCharm.Lib.Fallible
import KafkaCharm.Quorum

/-! `broker-capacities-snapshot` in the cluster relation data maps broker ids to their capacities. It
is stored as JSON text, whose keys are strings, and read back with the keys as integers. -/

namespace KafkaCharm

open PyText Fallible

/-- One value of the snapshot. -/
structure BrokerCapacity where
  disk : List (Str × Str)
  cores : Str
  nwIn : Str
  nwOut : Str
  deriving DecidableEq, Repr

/-- Equality of the Python values: the disks are a dictionary, so their order is no matter. -/
def BrokerCapacity.same (a b : BrokerCapacity) : Bool :=
  a.disk.isPerm b.disk && a.cores == b.cores && a.nwIn == b.nwIn && a.nwOut == b.nwOut

/-- The JSON object in the relation data, with its string keys. -/
structure SnapshotText where
  object : List (Str × BrokerCapacity)
  keys_int : ∀ e ∈ object, ∃ id : Int, e.1 = intText id

namespace SnapshotText

/-- `json.loads(...)` with `int(k)` for each key. -/
def read (text : SnapshotText) : List (Int × BrokerCapacity) :=
  text.object.map fun e => ((parseInt e.1).getD 0, e.2)

/-- `json.dumps(snapshot)`. -/
def write (snapshot : List (Int × BrokerCapacity)) : SnapshotText where
  object := snapshot.map fun e => (intText e.1, e.2)
  keys_int := by
    intro e he
    obtain ⟨e', _, rfl⟩ := List.mem_map.mp he
    exact ⟨e'.1, rfl⟩

theorem read_write (snapshot : List (Int × BrokerCapacity)) : (write snapshot).read = snapshot := by
  unfold read write
  rw [List.map_map]
  induction snapshot with
  | nil => rfl
  | cons e es ih =>
    rw [List.map_cons, ih]
    simp [parseInt_intText]

end SnapshotText

/-- A `KafkaBroker` on the peer relation. -/
structure KafkaBroker where
  unitId : Nat
  cores : Str
  storages : List (Str × Str)
  deriving DecidableEq, Repr

/-- `KafkaBroker.broker_id`. -/
def KafkaBroker.brokerId (broker : KafkaBroker) : Int := kraftNodeIdOffset + broker.unitId

/-- `KafkaCluster.add_broker`. -/
def addBroker (networkBandwidth : Nat) (broker : KafkaBroker) (text : SnapshotText) :
    SnapshotText :=
  if broker.cores = [] ∨ broker.storages = [] then text
  else
    let snapshot := text.read
    let bandwidth := decimal networkBandwidth
    let updated : BrokerCapacity := ⟨broker.storages, broker.cores, bandwidth, bandwidth⟩
    if (Dict.get? snapshot broker.brokerId).any updated.same then text
    else .write (Dict.set snapshot broker.brokerId updated)

/-- `KafkaCluster.remove_broker`. -/
def removeBroker (brokerId : Int) (text : SnapshotText) : SnapshotText :=
  if brokerId ∈ Dict.keys text.read then .write (Dict.erase text.read brokerId) else text

/-- What `update_brokers_state` reads besides the snapshot. -/
structure BrokersState where
  leader : Bool
  runsBroker : Bool
  brokers : List KafkaBroker
  networkBandwidth : Nat
  query : QuorumQuery
  order : SetOrder Int

/-- `ClusterState.active_brokers_on_relation`, where the app runs brokers. -/
def BrokersState.activeBrokersOnRelation (s : BrokersState) : List Int :=
  s.brokers.map KafkaBroker.brokerId

/-- `BrokerOperator.update_brokers_state`. -/
def updateBrokersState (s : BrokersState) (text : SnapshotText) : SnapshotText :=
  if s.leader && s.runsBroker then
    let added := s.brokers.foldl (fun text broker => addBroker s.networkBandwidth broker text) text
    let removedBrokers := (Dict.keys added.read).filter (· ∉ onlineBrokers s.query)
    (s.order.list removedBrokers).foldl (fun text id =>
      if id ∉ s.activeBrokersOnRelation then removeBroker id text else text) added
  else text

/-! ## The ids of the snapshot -/

def SnapshotText.ids (text : SnapshotText) : List Int := Dict.keys text.read

theorem mem_ids_of_mem {bandwidth : Nat} {broker : KafkaBroker} {text : SnapshotText} {id : Int}
    (h : id ∈ text.ids) : id ∈ (addBroker bandwidth broker text).ids := by
  unfold addBroker
  split
  · exact h
  · simp only
    split
    · exact h
    · unfold SnapshotText.ids
      rw [SnapshotText.read_write, Dict.mem_keys_set]
      exact .inr h

theorem mem_ids_addBrokers (bandwidth : Nat) (brokers : List KafkaBroker) {text : SnapshotText}
    {id : Int} (h : id ∈ text.ids) :
    id ∈ (brokers.foldl (fun text broker => addBroker bandwidth broker text) text).ids := by
  induction brokers generalizing text with
  | nil => exact h
  | cons b bs ih => exact ih (mem_ids_of_mem h)

theorem mem_ids_removeBroker {brokerId : Int} {text : SnapshotText} {id : Int} :
    id ∈ (removeBroker brokerId text).ids ↔ id ≠ brokerId ∧ id ∈ text.ids := by
  unfold removeBroker
  split
  · unfold SnapshotText.ids
    rw [SnapshotText.read_write, Dict.mem_keys_erase]
  · rename_i h
    constructor
    · intro hid
      refine ⟨?_, hid⟩
      rintro rfl
      exact h hid
    · exact fun hid => hid.2

theorem mem_ids_removeBrokers {active removed : List Int} {text : SnapshotText} {id : Int} :
    id ∈ (removed.foldl (fun text id =>
        if id ∉ active then removeBroker id text else text) text).ids ↔
      id ∈ text.ids ∧ (id ∈ removed → id ∈ active) := by
  induction removed generalizing text with
  | nil => simp
  | cons r rs ih =>
    rw [List.foldl_cons, ih]
    by_cases hr : r ∈ active
    · simp only [hr, not_true_eq_false, if_false, List.mem_cons]
      constructor
      · rintro ⟨hid, himp⟩
        refine ⟨hid, ?_⟩
        rintro (rfl | hmem)
        · exact hr
        · exact himp hmem
      · exact fun ⟨hid, himp⟩ => ⟨hid, fun hmem => himp (.inr hmem)⟩
    · simp only [hr, not_false_eq_true, if_true, mem_ids_removeBroker, List.mem_cons]
      constructor
      · rintro ⟨⟨hne, hid⟩, himp⟩
        refine ⟨hid, ?_⟩
        rintro (rfl | hmem)
        · exact absurd rfl hne
        · exact himp hmem
      · rintro ⟨hid, himp⟩
        refine ⟨⟨?_, hid⟩, fun hmem => himp (.inr hmem)⟩
        rintro rfl
        exact hr (himp (.inl rfl))

/-- The ids that were there and stay. -/
theorem mem_keys_updateBrokersState {s : BrokersState} {text : SnapshotText} {id : Int}
    (h : id ∈ text.ids) :
    id ∈ (updateBrokersState s text).ids ↔
      ((s.leader && s.runsBroker) = true →
        id ∈ onlineBrokers s.query ∨ id ∈ s.activeBrokersOnRelation) := by
  unfold updateBrokersState
  by_cases hgate : (s.leader && s.runsBroker) = true
  · have hadded := mem_ids_addBrokers s.networkBandwidth s.brokers h
    simp only [hgate, if_true, mem_ids_removeBrokers, s.order.mem_list, List.mem_filter,
      decide_eq_true_eq, hadded, true_and, forall_const]
    constructor
    · intro himp
      by_cases honline : id ∈ onlineBrokers s.query
      · exact .inl honline
      · exact .inr (himp ⟨hadded, honline⟩)
    · rintro (honline | hactive) ⟨_, hoff⟩
      · exact absurd honline hoff
      · exact hactive
  · simp only [hgate, if_false, Bool.false_eq_true, false_implies, iff_true]
    exact h

/-- Every id that a call removes was missing from a successful listing and is
not on the relation, exactly when the call is gated off or each snapshot id is
on the relation or the query succeeded; listed ids below the offset of broker
ids apart, which do not count as online. -/
theorem removed_brokers_known_offline_iff (s : BrokersState) (text : SnapshotText) :
    (∀ id ∈ text.ids, id ∉ (updateBrokersState s text).ids →
        KnownOffline s.query id ∧ id ∉ s.activeBrokersOnRelation) ↔
      s.leader = false ∨ s.runsBroker = false ∨
        ∀ id ∈ text.ids, id ∈ s.activeBrokersOnRelation ∨
          ∃ output, s.query = .listing output ∧
            (id ∈ Dict.keys (parseQuorum output) → kraftNodeIdOffset ≤ id) := by
  by_cases hgate : (s.leader && s.runsBroker) = true
  · have hgate' := hgate
    rw [Bool.and_eq_true] at hgate'
    simp only [hgate'.1, hgate'.2, Bool.true_eq_false, false_or]
    constructor
    · intro h id hid
      by_cases hactive : id ∈ s.activeBrokersOnRelation
      · exact .inl hactive
      · right
        by_cases honline : id ∈ onlineBrokers s.query
        · obtain ⟨hle, output, hq, _⟩ := mem_onlineBrokers.mp honline
          exact ⟨output, hq, fun _ => hle⟩
        · have hgone : id ∉ (updateBrokersState s text).ids := by
            rw [mem_keys_updateBrokersState hid]
            intro himp
            rcases himp hgate with h1 | h1
            · exact honline h1
            · exact hactive h1
          obtain ⟨⟨output, hq, hnot⟩, _⟩ := h id hid hgone
          exact ⟨output, hq, fun hin => absurd hin hnot⟩
    · intro h id hid hgone
      rw [mem_keys_updateBrokersState hid] at hgone
      have hoff : id ∉ onlineBrokers s.query := fun hin => hgone fun _ => .inl hin
      have hactive : id ∉ s.activeBrokersOnRelation := fun hin => hgone fun _ => .inr hin
      refine ⟨?_, hactive⟩
      rcases h id hid with hin | ⟨output, hq, himp⟩
      · exact absurd hin hactive
      · refine ⟨output, hq, fun hin => hoff ?_⟩
        exact mem_onlineBrokers.mpr ⟨himp hin, output, hq, hin⟩
  · have hoff : s.leader = false ∨ s.runsBroker = false := by
      cases hl : s.leader with
      | false => exact .inl rfl
      | true =>
        cases hr : s.runsBroker with
        | false => exact .inr rfl
        | true => exact absurd (by rw [hl, hr]; rfl) hgate
    have hleft : ∀ id ∈ text.ids, id ∉ (updateBrokersState s text).ids →
        KnownOffline s.query id ∧ id ∉ s.activeBrokersOnRelation := by
      intro id hid hgone
      rw [mem_keys_updateBrokersState hid] at hgone
      exact absurd (fun h => absurd h hgate) hgone
    refine iff_of_true hleft ?_
    rcases hoff with h | h
    · exact .inl h
    · exact .inr (.inl h)

/-- While broker 101 is being drained the controller does not answer once: the
snapshot loses the broker, which nobody found offline. -/
theorem failed_query_removes_broker :
    let capacity : BrokerCapacity := ⟨[("/var/lib/kafka/0", "10240")], "4", "50000", "50000"⟩
    let s : BrokersState :=
      ⟨true, true, [⟨0, "4", [("/var/lib/kafka/0", "10240")]⟩], 50000, .failed, .given⟩
    let text : SnapshotText := .write [(100, capacity), (101, capacity)]
    101 ∈ text.ids ∧ 101 ∉ (updateBrokersState s text).ids ∧ ¬ KnownOffline s.query 101 := by
  intro capacity s text
  refine ⟨by decide, by decide, ?_⟩
  rintro ⟨output, hq, _⟩
  cases hq

end KafkaCharm
