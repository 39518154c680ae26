import KafkaCharm.Capacity
import Mathlib.Data.List.Sort
import Mathlib.Logic.Function.Basic

namespace KafkaCharm

open PyText

/-- The entry that `add_broker` makes for a broker. -/
def KafkaBroker.capacity (broker : KafkaBroker) (networkBandwidth : Nat) : BrokerCapacity :=
  ⟨broker.storages, broker.cores, decimal networkBandwidth, decimal networkBandwidth⟩

/-- A broker that has not reported its cores or its storages. -/
def KafkaBroker.Unreported (broker : KafkaBroker) : Prop := broker.cores = [] ∨ broker.storages = []

instance (broker : KafkaBroker) : Decidable broker.Unreported :=
  inferInstanceAs (Decidable (_ ∨ _))

/-- A call on the snapshot. -/
inductive CapacityOp where
  | addBroker (networkBandwidth : Nat) (broker : KafkaBroker)
  | removeBroker (brokerId : Int)
  deriving DecidableEq, Repr

namespace CapacityOp

/-- The id the call is about. -/
def id : CapacityOp → Int
  | .addBroker _ broker => broker.brokerId
  | .removeBroker brokerId => brokerId

/-- What the call hands to `update`; `none` where it returns before. -/
def update (text : SnapshotText) : CapacityOp → Option SnapshotText
  | .addBroker networkBandwidth broker =>
    if broker.Unreported then none
    else
      let updated := broker.capacity networkBandwidth
      if (Dict.get? text.read broker.brokerId).any updated.same then none
      else some (.write (Dict.set text.read broker.brokerId updated))
  | .removeBroker brokerId =>
    if brokerId ∈ Dict.keys text.read then some (.write (Dict.erase text.read brokerId)) else none

/-- The text after the call. -/
def run (text : SnapshotText) : CapacityOp → SnapshotText
  | .addBroker networkBandwidth broker => KafkaCharm.addBroker networkBandwidth broker text
  | .removeBroker brokerId => KafkaCharm.removeBroker brokerId text

/-- The mapping after the call. -/
def record (ledger : Int → Option BrokerCapacity) : CapacityOp → Int → Option BrokerCapacity
  | .addBroker networkBandwidth broker =>
    if broker.Unreported then ledger
    else Function.update ledger broker.brokerId (some (broker.capacity networkBandwidth))
  | .removeBroker brokerId => Function.update ledger brokerId none

/-- A call changes the text by what it writes and by nothing else. -/
theorem run_eq_update (text : SnapshotText) (op : CapacityOp) :
    op.run text = (op.update text).getD text := by
  cases op with
  | addBroker networkBandwidth broker =>
    simp only [run, update, KafkaCharm.addBroker]
    by_cases hreported : broker.Unreported
    · rw [if_pos hreported]
      exact if_pos hreported
    · rw [if_neg hreported]
      refine (if_neg hreported).trans ?_
      by_cases hsame : (Dict.get? text.read broker.brokerId).any
          (broker.capacity networkBandwidth).same = true
      · rw [if_pos hsame]
        exact if_pos hsame
      · rw [if_neg hsame]
        exact if_neg hsame
  | removeBroker brokerId =>
    simp only [run, update, KafkaCharm.removeBroker]
    by_cases hin : brokerId ∈ Dict.keys text.read
    · rw [if_pos hin, if_pos hin]
      rfl
    · rw [if_neg hin, if_neg hin]
      rfl

end CapacityOp

/-- The text after all the calls, from an empty databag. -/
def capacityText (ops : List CapacityOp) : SnapshotText := ops.foldl CapacityOp.run (.write [])

/-- The mapping after all the calls. -/
def capacityLedger (ops : List CapacityOp) : Int → Option BrokerCapacity :=
  ops.foldl CapacityOp.record fun _ => none

/-- An entry of `brokerCapacities`. -/
structure CapacityEntry where
  brokerId : Str
  capacity : BrokerCapacity
  doc : Str
  deriving DecidableEq, Repr

/-- `ClusterState.broker_capacities`. -/
def brokerCapacities (text : SnapshotText) : List CapacityEntry :=
  (text.ids.mergeSort fun a b => decide (b ≤ a)).filterMap fun id =>
    (Dict.get? text.read id).map fun capacity => ⟨intText id, capacity, []⟩

/-! ## Equal capacities -/

namespace BrokerCapacity

variable {a b c : BrokerCapacity}

theorem same_iff : a.same b = true ↔
    a.disk.Perm b.disk ∧ a.cores = b.cores ∧ a.nwIn = b.nwIn ∧ a.nwOut = b.nwOut := by
  simp [same, List.isPerm_iff, and_assoc]

theorem same_refl (a : BrokerCapacity) : a.same a = true :=
  same_iff.mpr ⟨.refl _, rfl, rfl, rfl⟩

theorem same_symm (h : a.same b = true) : b.same a = true := by
  obtain ⟨hdisk, hcores, hin, hout⟩ := same_iff.mp h
  exact same_iff.mpr ⟨hdisk.symm, hcores.symm, hin.symm, hout.symm⟩

theorem same_trans (h : a.same b = true) (h' : b.same c = true) : a.same c = true := by
  obtain ⟨hdisk, hcores, hin, hout⟩ := same_iff.mp h
  obtain ⟨hdisk', hcores', hin', hout'⟩ := same_iff.mp h'
  exact same_iff.mpr ⟨hdisk.trans hdisk', hcores.trans hcores', hin.trans hin', hout.trans hout'⟩

end BrokerCapacity

/-! ## One call -/

/-- The text holds the mapping, each id once. -/
structure Keeps (text : SnapshotText) (ledger : Int → Option BrokerCapacity) : Prop where
  nodup : Dict.NodupKeys text.read
  entries : ∀ id, Option.Rel (fun a b => a.same b = true) (Dict.get? text.read id) (ledger id)

variable {text : SnapshotText} {ledger : Int → Option BrokerCapacity}

theorem Keeps.empty : Keeps (.write []) fun _ => none := by
  constructor
  · rw [SnapshotText.read_write]
    exact Dict.NodupKeys.nil
  · intro id
    rw [SnapshotText.read_write, Dict.get?_nil]
    exact .none

/-- A call leaves the entries of all other ids as they are. -/
theorem get?_run_of_ne (text : SnapshotText) {op : CapacityOp} {id : Int} (h : id ≠ op.id) :
    Dict.get? (op.run text).read id = Dict.get? text.read id := by
  rw [op.run_eq_update]
  cases op with
  | addBroker networkBandwidth broker =>
    have hne : broker.brokerId ≠ id := Ne.symm h
    simp only [CapacityOp.update]
    split
    · rfl
    · split
      · rfl
      · rw [Option.getD_some, SnapshotText.read_write, Dict.get?_set, if_neg hne]
  | removeBroker brokerId =>
    have hne : brokerId ≠ id := Ne.symm h
    simp only [CapacityOp.update]
    split
    · rw [Option.getD_some, SnapshotText.read_write, Dict.get?_erase, if_neg hne]
    · rfl

/-- What the entry of a reported broker is after it is added. -/
theorem get?_run_addBroker (text : SnapshotText) (networkBandwidth : Nat) {broker : KafkaBroker}
    (h : ¬ broker.Unreported) :
    ∃ c, Dict.get? ((CapacityOp.addBroker networkBandwidth broker).run text).read broker.brokerId =
      some c ∧ c.same (broker.capacity networkBandwidth) = true := by
  rw [CapacityOp.run_eq_update]
  simp only [CapacityOp.update, if_neg h]
  split
  · rename_i hsame
    obtain ⟨c, hc, hsame⟩ := (Option.any_eq_true _ _).mp hsame
    exact ⟨c, hc, BrokerCapacity.same_symm hsame⟩
  · refine ⟨broker.capacity networkBandwidth, ?_, BrokerCapacity.same_refl _⟩
    rw [Option.getD_some, SnapshotText.read_write, Dict.get?_set, if_pos rfl]

theorem get?_run_removeBroker (text : SnapshotText) (brokerId : Int) :
    Dict.get? ((CapacityOp.removeBroker brokerId).run text).read brokerId = none := by
  rw [CapacityOp.run_eq_update]
  simp only [CapacityOp.update]
  split
  · rw [Option.getD_some, SnapshotText.read_write, Dict.get?_erase, if_pos rfl]
  · rename_i habsent
    by_contra hsome
    exact habsent (Dict.mem_keys_iff.mpr hsome)

theorem nodup_run (h : Dict.NodupKeys text.read) (op : CapacityOp) :
    Dict.NodupKeys (op.run text).read := by
  rw [op.run_eq_update]
  cases op with
  | addBroker networkBandwidth broker =>
    simp only [CapacityOp.update]
    split
    · exact h
    · split
      · exact h
      · rw [Option.getD_some, SnapshotText.read_write]
        exact h.set _ _
  | removeBroker brokerId =>
    simp only [CapacityOp.update]
    split
    · rw [Option.getD_some, SnapshotText.read_write]
      exact h.erase _
    · exact h

/-- The mapping of all other ids stays too. -/
theorem record_of_ne (ledger : Int → Option BrokerCapacity) {op : CapacityOp} {id : Int}
    (h : id ≠ op.id) : op.record ledger id = ledger id := by
  cases op with
  | addBroker networkBandwidth broker =>
    simp only [CapacityOp.record]
    split
    · rfl
    · exact Function.update_of_ne h _ _
  | removeBroker brokerId => exact Function.update_of_ne h _ _

theorem Keeps.run (h : Keeps text ledger) (op : CapacityOp) :
    Keeps (op.run text) (op.record ledger) := by
  refine ⟨nodup_run h.nodup op, ?_⟩
  intro id
  by_cases hid : id = op.id
  · subst hid
    cases op with
    | addBroker networkBandwidth broker =>
      by_cases hreported : broker.Unreported
      · have hrun : (CapacityOp.addBroker networkBandwidth broker).run text = text := by
          rw [CapacityOp.run_eq_update]
          simp [CapacityOp.update, hreported]
        have hrecord : (CapacityOp.addBroker networkBandwidth broker).record ledger = ledger := by
          simp [CapacityOp.record, hreported]
        rw [hrun, hrecord]
        exact h.entries _
      · obtain ⟨c, hc, hsame⟩ := get?_run_addBroker text networkBandwidth hreported
        simp only [CapacityOp.id, CapacityOp.record, if_neg hreported, Function.update_self, hc]
        exact .some hsame
    | removeBroker brokerId =>
      simp only [CapacityOp.id, CapacityOp.record, Function.update_self, get?_run_removeBroker]
      exact .none
  · rw [get?_run_of_ne text hid, record_of_ne ledger hid]
    exact h.entries id

/-! ## Every sequence of calls -/

theorem Keeps.foldl (h : Keeps text ledger) (ops : List CapacityOp) :
    Keeps (ops.foldl CapacityOp.run text) (ops.foldl CapacityOp.record ledger) := by
  induction ops generalizing text ledger with
  | nil => exact h
  | cons op ops ih => exact ih (h.run op)

theorem keeps_capacityText (ops : List CapacityOp) :
    Keeps (capacityText ops) (capacityLedger ops) :=
  Keeps.empty.foldl ops

theorem Keeps.mem_ids (h : Keeps text ledger) {id : Int} : id ∈ text.ids ↔ ledger id ≠ none := by
  unfold SnapshotText.ids
  rw [Dict.mem_keys_iff]
  have hentry := h.entries id
  cases hget : Dict.get? text.read id with
  | none =>
    rw [hget] at hentry
    cases hledger : ledger id with
    | none => simp
    | some c =>
      rw [hledger] at hentry
      cases hentry
  | some c =>
    rw [hget] at hentry
    cases hledger : ledger id with
    | none =>
      rw [hledger] at hentry
      cases hentry
    | some c' => simp

/-- The ids in the order in which they are listed. -/
def sortedIds (text : SnapshotText) : List Int := text.ids.mergeSort fun a b => decide (b ≤ a)

theorem mem_sortedIds {id : Int} : id ∈ sortedIds text ↔ id ∈ text.ids :=
  (List.mergeSort_perm _ _).mem_iff

/-- Each id stands once, so the order is strict. -/
theorem sortedIds_descending (h : Dict.NodupKeys text.read) :
    (sortedIds text).Pairwise (· > ·) := by
  have hsorted : (sortedIds text).Pairwise fun a b => decide (b ≤ a) = true := by
    apply List.pairwise_mergeSort
    · intro a b c hab hbc
      rw [decide_eq_true_eq] at hab hbc ⊢
      omega
    · intro a b
      rw [Bool.or_eq_true, decide_eq_true_eq, decide_eq_true_eq]
      omega
  have hnodup : (sortedIds text).Nodup := (List.mergeSort_perm _ _).nodup_iff.mpr h
  refine (hsorted.and hnodup).imp ?_
  intro a b hab
  rw [decide_eq_true_eq] at hab
  have hle := hab.1
  have hne := hab.2
  omega

/-- Every listed id is looked up, so none is lost. -/
theorem brokerCapacities_eq (text : SnapshotText) :
    (brokerCapacities text).map CapacityEntry.brokerId = (sortedIds text).map intText := by
  have hlookup : ∀ id ∈ sortedIds text, ∃ c, Dict.get? text.read id = some c := by
    intro id hid
    exact Option.ne_none_iff_exists'.mp (Dict.mem_keys_iff.mp (mem_sortedIds.mp hid))
  unfold brokerCapacities
  change ((sortedIds text).filterMap _).map _ = _
  generalize sortedIds text = ids at hlookup
  induction ids with
  | nil => rfl
  | cons id ids ih =>
    obtain ⟨c, hc⟩ := hlookup id List.mem_cons_self
    have hrest := ih fun i hi => hlookup i (List.mem_cons_of_mem id hi)
    simp only [List.filterMap_cons, hc, Option.map_some, List.map_cons, hrest]

/-- The snapshot is a store: after any calls the text holds the ids added and not
removed since with the capacities of their last effective adds, Cruise Control is given
each of them once and in descending order, a call that changes nothing writes nothing,
and no call touches the entry of another id. -/
theorem capacity_snapshot_is_store (ops : List CapacityOp) :
    let text := capacityText ops
    let ledger := capacityLedger ops
    (∀ id, Option.Rel (fun a b => a.same b = true) (Dict.get? text.read id) (ledger id)) ∧
    (∃ ids : List Int, ids.Pairwise (· > ·) ∧ (∀ id, id ∈ ids ↔ ledger id ≠ none) ∧
      (brokerCapacities text).map CapacityEntry.brokerId = ids.map intText ∧
      ∀ e ∈ brokerCapacities text, ∃ id, e.brokerId = intText id ∧ e.doc = [] ∧
        Dict.get? text.read id = some e.capacity) ∧
    (∀ networkBandwidth broker,
      broker.Unreported ∨
        (ledger broker.brokerId).any (broker.capacity networkBandwidth).same = true →
      (CapacityOp.addBroker networkBandwidth broker).update text = none) ∧
    (∀ id, ledger id = none → (CapacityOp.removeBroker id).update text = none) ∧
    (∀ (op : CapacityOp) (id : Int), id ≠ op.id →
      Dict.get? (op.run text).read id = Dict.get? text.read id) := by
  intro text ledger
  have hkeeps : Keeps text ledger := keeps_capacityText ops
  refine ⟨hkeeps.entries, ⟨sortedIds text, sortedIds_descending hkeeps.nodup, ?_,
    brokerCapacities_eq text, ?_⟩, ?_, ?_, ?_⟩
  · intro id
    rw [mem_sortedIds, hkeeps.mem_ids]
  · intro e he
    obtain ⟨id, _, hmap⟩ := List.mem_filterMap.mp he
    obtain ⟨c, hc, rfl⟩ := Option.map_eq_some_iff.mp hmap
    exact ⟨id, rfl, rfl, hc⟩
  · intro networkBandwidth broker hunchanged
    unfold CapacityOp.update
    by_cases hreported : broker.Unreported
    · exact if_pos hreported
    · obtain ⟨c, hc, hsame⟩ := (Option.any_eq_true _ _).mp (hunchanged.resolve_left hreported)
      have hentry := hkeeps.entries broker.brokerId
      rw [hc] at hentry
      -- the stored capacity equals the recorded one, which equals the new one
      have hstored : (Dict.get? text.read broker.brokerId).any
          (broker.capacity networkBandwidth).same = true := by
        cases hget : Dict.get? text.read broker.brokerId with
        | none =>
          rw [hget] at hentry
          cases hentry
        | some c' =>
          rw [hget] at hentry
          cases hentry with
          | some hc' => exact BrokerCapacity.same_trans hsame (BrokerCapacity.same_symm hc')
      simp only [if_neg hreported, if_pos hstored]
  · intro id habsent
    have hnot : id ∉ Dict.keys text.read := by
      intro hin
      exact hkeeps.mem_ids.mp hin habsent
    exact if_neg hnot
  · intro op id hne
    exact get?_run_of_ne text hne

end KafkaCharm
