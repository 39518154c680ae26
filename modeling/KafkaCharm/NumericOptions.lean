import KafkaCharm.CharmConfig
import Mathlib.Algebra.Order.Ring.Int

namespace KafkaCharm

/-- The fields on which `long_value` or `integer_value` is a validator. -/
inductive NumericField where
  | logFlushIntervalMessages
  | logFlushIntervalMs
  | logFlushOffsetCheckpointIntervalMs
  | logRetentionBytes
  | logRetentionMs
  | logSegmentBytes
  | messageMaxBytes
  | offsetsTopicNumPartitions
  | transactionStateLogNumPartitions
  | logCleanerDeleteRetentionMs
  | logCleanerMinCompactionLagMs
  | replicationQuotaWindowNum
  deriving DecidableEq, Repr

namespace NumericField

/-- `long_value` is a validator of the field, and `integer_value` is not. -/
def isLong : NumericField → Bool
  | logFlushIntervalMessages | logFlushIntervalMs | logRetentionBytes | logRetentionMs
  | logCleanerDeleteRetentionMs | logCleanerMinCompactionLagMs => true
  | _ => false

/-- The other validators of the field. -/
def bounds : NumericField → List (Int → Bool)
  | logFlushIntervalMessages | logFlushIntervalMs | replicationQuotaWindowNum => [greaterThanOne]
  | logFlushOffsetCheckpointIntervalMs => []
  | logRetentionBytes | logRetentionMs => [greaterThanMinusOne]
  | logSegmentBytes => [greaterThan1Mb]
  | messageMaxBytes => [greaterThanZero]
  | offsetsTopicNumPartitions | transactionStateLogNumPartitions =>
    [betweenZeroAnd10k, greaterThanOne]
  | logCleanerDeleteRetentionMs => [logCleanerDeleteRetentionMsValidator]
  | logCleanerMinCompactionLagMs => [logCleanerMinCompactionLagMsValidator]

/-- All validators of the field accept the value. -/
def accepts (f : NumericField) (value : Int) : Bool :=
  f.bounds.all (· value) && if f.isLong then longValue value else integerValue value

/-- The bound of the field besides that of its type. -/
def Bounded : NumericField → Int → Prop
  | logFlushIntervalMessages, value | logFlushIntervalMs, value
  | replicationQuotaWindowNum, value => 1 ≤ value
  | logFlushOffsetCheckpointIntervalMs, _ => True
  | logRetentionBytes, value | logRetentionMs, value => -1 ≤ value
  | logSegmentBytes, value => 1024 * 1024 ≤ value
  | messageMaxBytes, value => 0 ≤ value
  | offsetsTopicNumPartitions, value | transactionStateLogNumPartitions, value =>
    1 ≤ value ∧ value ≤ 10000
  | logCleanerDeleteRetentionMs, value => 1 ≤ value ∧ value ≤ 90 * 24 * 60 * 60 * 1000
  | logCleanerMinCompactionLagMs, value => 0 ≤ value ∧ value ≤ 7 * 24 * 60 * 60 * 1000

/-- The value is one of the type that Kafka reads the field as. -/
def InType (f : NumericField) (value : Int) : Prop :=
  if f.isLong then -2 ^ 63 ≤ value ∧ value ≤ 2 ^ 63 - 1 else -2 ^ 31 ≤ value ∧ value ≤ 2 ^ 31 - 1

/-- What is accepted is of the type, and what is of the type and in bounds is accepted. -/
def Fits (f : NumericField) (value : Int) : Prop :=
  (f.accepts value = true → f.InType value) ∧
    (f.InType value ∧ f.Bounded value → f.accepts value = true)

/-- The longs whose other bound is from below only. -/
def openLongs : List NumericField :=
  [logFlushIntervalMessages, logFlushIntervalMs, logRetentionBytes, logRetentionMs]

/-! ## What the validators let through -/

theorem bounds_iff (f : NumericField) (value : Int) :
    f.bounds.all (· value) = true ↔ f.Bounded value := by
  cases f <;>
    simp only [bounds, Bounded, List.all_cons, List.all_nil, Bool.and_true, Bool.and_eq_true,
      greaterThanOne, greaterThanMinusOne, greaterThan1Mb, greaterThanZero, betweenZeroAnd10k,
      logCleanerDeleteRetentionMsValidator, logCleanerMinCompactionLagMsValidator,
      decide_eq_true_eq] <;>
    omega

theorem longValue_iff (value : Int) :
    longValue value = true ↔ -2 ^ 63 < value ∧ value ≤ 2 ^ 63 := by
  simp only [longValue, decide_eq_true_eq]
  omega

theorem integerValue_iff (value : Int) :
    integerValue value = true ↔ -2 ^ 31 ≤ value ∧ value ≤ 2 ^ 31 - 1 := by
  simp only [integerValue, decide_eq_true_eq]
  omega

theorem accepts_iff (f : NumericField) (value : Int) :
    f.accepts value = true ↔ f.Bounded value ∧
      if f.isLong then -2 ^ 63 < value ∧ value ≤ 2 ^ 63
      else -2 ^ 31 ≤ value ∧ value ≤ 2 ^ 31 - 1 := by
  rw [accepts, Bool.and_eq_true, bounds_iff]
  cases f.isLong with
  | true => simp only [if_true, longValue_iff]
  | false => simp only [Bool.false_eq_true, if_false, integerValue_iff]

/-- Every bound of a long excludes the smallest one. -/
theorem Bounded.lower {f : NumericField} {value : Int} (h : f.Bounded value)
    (hlong : f.isLong = true) : -2 ^ 63 < value := by
  cases f <;> simp only [isLong, Bool.false_eq_true] at hlong <;> simp only [Bounded] at h <;> omega

/-- A bound from above excludes the value after the largest long. -/
theorem bounded_end_iff {f : NumericField} (hlong : f.isLong = true) :
    f.Bounded (2 ^ 63) ↔ f ∈ openLongs := by
  cases f <;> simp [Bounded, openLongs, isLong] at hlong ⊢

/-- **Kafka's types.** A field lets through the values of its type that are within its other
bound, and no others, except for one value of four fields. -/
theorem numeric_option_fits_iff (f : NumericField) (value : Int) :
    f.Fits value ↔ ¬ (value = 2 ^ 63 ∧ f ∈ openLongs) := by
  unfold Fits InType
  rw [accepts_iff]
  cases hlong : f.isLong with
  | false =>
    have hopen : f ∉ openLongs := by
      rintro hmem
      cases f <;> simp [openLongs, isLong] at hmem hlong
    simp only [Bool.false_eq_true, if_false]
    exact ⟨fun _ h => hopen h.2, fun _ => ⟨fun h => h.2, fun h => ⟨h.2, h.1⟩⟩⟩
  | true =>
    simp only [if_true]
    rw [← bounded_end_iff hlong]
    constructor
    · rintro ⟨hin, -⟩ ⟨rfl, hbounded⟩
      have := (hin ⟨hbounded, by omega, by omega⟩).2
      omega
    · intro h
      refine ⟨fun ⟨hbounded, hlow, hhigh⟩ => ?_, fun ⟨⟨_, hhigh⟩, hbounded⟩ => ?_⟩
      · have hne : value ≠ 2 ^ 63 := fun heq => h ⟨heq, heq ▸ hbounded⟩
        exact ⟨by omega, by omega⟩
      · exact ⟨hbounded, hbounded.lower hlong, by omega⟩

/-- The value after the largest long is accepted for the retention in bytes. -/
theorem long_overflow_accepted :
    logRetentionBytes.accepts (2 ^ 63) = true ∧ ¬ logRetentionBytes.InType (2 ^ 63) ∧
      ¬ logRetentionBytes.Fits (2 ^ 63) := by
  have haccepts : logRetentionBytes.accepts (2 ^ 63) = true := by decide
  have hout : ¬ logRetentionBytes.InType (2 ^ 63) := by
    unfold InType
    decide
  exact ⟨haccepts, hout, fun h => hout (h.1 haccepts)⟩

end NumericField

/-! ## The whole configuration -/

/-- The value of a numeric field; the interval of the flushes in time may be unset. -/
def CharmConfig.numeric (config : CharmConfig) : NumericField → Option Int
  | .logFlushIntervalMessages => some config.logFlushIntervalMessages
  | .logFlushIntervalMs => config.logFlushIntervalMs
  | .logFlushOffsetCheckpointIntervalMs => some config.logFlushOffsetCheckpointIntervalMs
  | .logRetentionBytes => some config.logRetentionBytes
  | .logRetentionMs => some config.logRetentionMs
  | .logSegmentBytes => some config.logSegmentBytes
  | .messageMaxBytes => some config.messageMaxBytes
  | .offsetsTopicNumPartitions => some config.offsetsTopicNumPartitions
  | .transactionStateLogNumPartitions => some config.transactionStateLogNumPartitions
  | .logCleanerDeleteRetentionMs => some config.logCleanerDeleteRetentionMs
  | .logCleanerMinCompactionLagMs => some config.logCleanerMinCompactionLagMs
  | .replicationQuotaWindowNum => some config.replicationQuotaWindowNum

theorem accepts_of_accepted {config : CharmConfig} {rules : PyText.Str → Bool}
    (h : config.accepted rules = true) {f : NumericField} {value : Int}
    (hvalue : config.numeric f = some value) : f.accepts value = true := by
  simp only [CharmConfig.accepted, List.all_cons, Bool.and_eq_true, id] at h
  cases f <;> simp only [CharmConfig.numeric, Option.some.injEq] at hvalue <;>
    simp_all [NumericField.accepts, NumericField.bounds, NumericField.isLong]

/-- The numbers of an accepted configuration are of Kafka's types, one value apart. -/
theorem numeric_inType {config : CharmConfig} {rules : PyText.Str → Bool}
    (h : config.accepted rules = true) {f : NumericField} {value : Int}
    (hvalue : config.numeric f = some value) (hne : value ≠ 2 ^ 63) : f.InType value := by
  obtain ⟨-, htype⟩ := (f.accepts_iff value).mp (accepts_of_accepted h hvalue)
  unfold NumericField.InType
  split
  · rename_i hlong
    rw [if_pos hlong] at htype
    omega
  · rename_i hint
    rw [if_neg hint] at htype
    exact htype

end KafkaCharm
