import KafkaCharm.Lib.ShortDigits
import KafkaCharm.TruststoreUpdates

namespace KafkaCharm

open PyText ShortDigits

namespace TlsManager

/-- A SHA-256 fingerprint. -/
structure Digest where
  bytes : List UInt8
  length_bytes : bytes.length = 32

/-- `trusted_certs` in `BrokerOperator.update_peer_truststore_state`: what a unit publishes
of the fingerprints in its truststore. -/
def trustedCerts (values : List Digest) : List Str :=
  values.map fun x => bytesToKeytoolHash x.bytes

/-- `ClusterState.trusted_by_our_app`, of what the unit and the brokers published. -/
def trustedByAll (own : List Str) (brokers : List (List Str)) : List Str :=
  brokers.foldl (fun trusted broker => trusted.filter (· ∈ broker)) own

theorem mem_trustedByAll {hash : Str} {own : List Str} {brokers : List (List Str)} :
    hash ∈ trustedByAll own brokers ↔ hash ∈ own ∧ ∀ broker ∈ brokers, hash ∈ broker := by
  unfold trustedByAll
  induction brokers generalizing own with
  | nil => simp
  | cons broker brokers ih =>
    rw [List.foldl_cons, ih, List.forall_mem_cons]
    simp only [List.mem_filter, decide_eq_true_eq]
    exact and_assoc

/-! ## The digits of a text -/

/-- The bytes as numbers. -/
def numbers (bytes : List UInt8) : List Nat := bytes.map UInt8.toNat

theorem numbers_cons (b : UInt8) (bytes : List UInt8) :
    numbers (b :: bytes) = b.toNat :: numbers bytes := rfl

theorem words_numbers (bytes : List UInt8) : Words 16 (numbers bytes) := by
  intro n hn
  obtain ⟨b, -, rfl⟩ := List.mem_map.mp hn
  exact b.toNat_lt

theorem numbers_injective : Function.Injective numbers :=
  List.map_injective_iff.mpr fun _ _ => UInt8.toNat_inj.mp

theorem shortByteText_eq (b : UInt8) : shortByteText b = (digits 16 b.toNat).map upperHex := by
  unfold shortByteText digits byteText
  split
  · rfl
  · rfl

theorem bytesToKeytoolHash_eq (bytes : List UInt8) :
    bytesToKeytoolHash bytes = (spell 16 (numbers bytes)).map upperHex := by
  unfold bytesToKeytoolHash
  induction bytes with
  | nil => rfl
  | cons b bytes ih =>
    rw [List.flatMap_cons, ih, shortByteText_eq, numbers_cons, spell_cons, List.map_append]

theorem digits_lt {n d : Nat} (h : n < 16 * 16) (hd : d ∈ digits 16 n) : d < 16 := by
  unfold digits at hd
  split at hd
  · obtain rfl := List.mem_singleton.mp hd
    assumption
  · simp only [List.mem_cons, List.not_mem_nil, or_false] at hd
    omega

theorem spell_lt {x : List Nat} (h : Words 16 x) : ∀ d ∈ spell 16 x, d < 16 := by
  intro d hd
  obtain ⟨n, hn, hdigit⟩ := List.mem_flatMap.mp hd
  exact digits_lt (h n hn) hdigit

theorem map_upperHex_inj {x y : List Nat} (hx : ∀ d ∈ x, d < 16) (hy : ∀ d ∈ y, d < 16)
    (h : x.map upperHex = y.map upperHex) : x = y := by
  have hread : ∀ z : List Nat, (∀ d ∈ z, d < 16) →
      (z.map upperHex).filterMap hexValue = z := by
    intro z hz
    rw [List.filterMap_map]
    calc z.filterMap (hexValue ∘ upperHex) = z.filterMap some :=
          List.filterMap_congr fun d hd => hexValue_upperHex (hz d hd)
      _ = z := List.filterMap_some
  rw [← hread x hx, h, hread y hy]

theorem bytesToKeytoolHash_eq_iff {x y : List UInt8} :
    bytesToKeytoolHash x = bytesToKeytoolHash y ↔
      spell 16 (numbers x) = spell 16 (numbers y) := by
  rw [bytesToKeytoolHash_eq, bytesToKeytoolHash_eq]
  constructor
  · exact map_upperHex_inj (spell_lt (words_numbers x)) (spell_lt (words_numbers y))
  · exact fun h => congrArg (List.map upperHex) h

/-! ## Fingerprints that their text identifies -/

theorem exists_bytes {x : List Nat} (h : Words 16 x) : ∃ bytes, numbers bytes = x := by
  refine ⟨x.map UInt8.ofNat, ?_⟩
  unfold numbers
  rw [List.map_map]
  calc x.map (UInt8.toNat ∘ UInt8.ofNat) = x.map id :=
        List.map_congr_left fun n hn => UInt8.toNat_ofNat_of_lt' (h n hn)
    _ = x := List.map_id x

/-- The text of a fingerprint is that of no other one. -/
def Identifies (x : Digest) : Prop :=
  ∀ y : Digest, bytesToKeytoolHash y.bytes = bytesToKeytoolHash x.bytes → y = x

theorem identifies_iff (x : Digest) : Identifies x ↔ ShortDigits.Legible 16 (numbers x.bytes) := by
  rw [← spell_unique_iff (by decide) (words_numbers x.bytes)]
  constructor
  · intro h y hy hlength hspell
    obtain ⟨bytes, rfl⟩ := exists_bytes hy
    have hbytes : bytes.length = 32 := by
      simpa [numbers, x.length_bytes] using hlength
    have heq := h ⟨bytes, hbytes⟩ (bytesToKeytoolHash_eq_iff.mpr hspell)
    rw [← heq]
  · intro h y hy
    have heq : numbers y.bytes = numbers x.bytes := by
      apply h _ (words_numbers y.bytes)
      · simp [numbers, x.length_bytes, y.length_bytes]
      · exact bytesToKeytoolHash_eq_iff.mp hy
    have hbytes : y.bytes = x.bytes := numbers_injective heq
    cases y
    cases x
    simp only [Digest.mk.injEq]
    exact hbytes

theorem Identifies.mem_of_mem_trustedCerts {x : Digest} (h : Identifies x)
    {values : List Digest} (hx : bytesToKeytoolHash x.bytes ∈ trustedCerts values) :
    x ∈ values := by
  obtain ⟨y, hy, htext⟩ := List.mem_map.mp hx
  rw [← h y htext]
  exact hy

/-- The text of a fingerprint stands in a trust set for this fingerprint only if all its
bytes are below 16, or if each byte but the last is zero or at least 16, and a multiple of
16 before a byte below 16. -/
theorem fingerprint_published_iff (x : Digest) :
    (Identifies x ∧ ∀ (own : List Digest) (brokers : List (List Digest)),
      bytesToKeytoolHash x.bytes ∈ trustedByAll (trustedCerts own) (brokers.map trustedCerts) →
        x ∈ own ∧ ∀ broker ∈ brokers, x ∈ broker) ↔
      ShortDigits.Legible 16 (numbers x.bytes) := by
  rw [← identifies_iff]
  constructor
  · exact fun h => h.1
  · intro h
    refine ⟨h, fun own brokers hx => ?_⟩
    obtain ⟨hown, hbrokers⟩ := mem_trustedByAll.mp hx
    refine ⟨h.mem_of_mem_trustedCerts hown, fun broker hbroker => ?_⟩
    exact h.mem_of_mem_trustedCerts (hbrokers _ (List.mem_map_of_mem hbroker))

/-- A fingerprint that starts with `01:23` and one that starts with `12:03`. -/
def shared (first second : UInt8) : Digest where
  bytes := first :: second :: List.replicate 30 0xAB
  length_bytes := rfl

theorem fingerprints_share_text :
    ¬ Function.Injective (fun x : Digest => bytesToKeytoolHash x.bytes) ∧
      bytesToKeytoolHash (shared 0x01 0x23).bytes ∈ trustedCerts [shared 0x12 0x03] ∧
      shared 0x01 0x23 ∉ [shared 0x12 0x03] := by
  have htext : bytesToKeytoolHash (shared 0x01 0x23).bytes =
      bytesToKeytoolHash (shared 0x12 0x03).bytes := by decide
  have hne : shared 0x01 0x23 ≠ shared 0x12 0x03 := by
    intro heq
    obtain ⟨hfirst, -⟩ := List.cons.inj (congrArg Digest.bytes heq)
    exact absurd hfirst (by decide)
  refine ⟨fun hinj => hne (hinj htext), ?_, ?_⟩
  · rw [htext]
    exact List.mem_map_of_mem List.mem_cons_self
  · rw [List.mem_singleton]
    exact hne

end TlsManager

end KafkaCharm
