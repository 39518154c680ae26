import KafkaCharm.PeerTls

/-! While one application moves from an old CA to a new one and the other stays with its own, a unit
of the first trusts the new CA through its own bundle only, so trust in it is a sign that it is
presented. -/

namespace KafkaCharm

variable {d : Deployment} {s t : PeerTls} {x y : UnitId}

/-! ## What every run keeps -/

/-- The keystore on disk is that of the unit's certificates, and a restart after the
last change of the truststore has loaded it. -/
structure PeerUnit.Sound (u : PeerUnit) (now : Nat) : Prop where
  keystore : u.keystore = u.certs
  restarted : u.lastRestart ≤ now
  loaded : u.modifyTime < u.lastRestart → u.loaded = u.truststore.certs

/-- Every unit is sound, and each leader has published its bundle. -/
structure PeerTls.Sound (s : PeerTls) (d : Deployment) : Prop where
  units : ∀ x, d.Has x → (s.unit x).Sound s.now
  ca : ∀ a, (s.app a).ca = (s.unit (d.leaderOf a)).certs.bundle

/-! ## A rotation -/

/-- A unit of the application that rotates from CA `old` to CA `new`. It trusts the
new CA only through its own bundle, so whoever publishes trust in it presents it. -/
structure Turning (k : Certs) (n : Nat) (presents : Nat → Nat) (remoteCa : List Cert)
    (old new other : Nat) (u : PeerUnit) : Prop where
  certs : u.certs.ca = old ∨ u.certs.ca = new
  presented : u.presented.ca = old ∨ u.presented.ca = new
  done : u.presented.ca = new → u.certs.ca = new
  disk : Cert.authority new ∈ u.truststore.certs → u.certs.ca = new
  loaded : Cert.authority new ∈ u.loaded → u.presented.ca = new
  published : Cert.authority new ∈ u.databag.trusted → u.presented.ca = new
  seen : ∀ j < n, Cert.authority new ∈ (u.peers j).trusted → presents j = new
  remote : Cert.authority other ∈ u.remote.ca
  waiting : u.certs.ca ≠ new → u.truststore.hasTemporaryAliases = false ∧
    u.remote.ca = remoteCa ∧ ∀ c ∈ u.remote.ca, k.recognises u.truststore.certs c = true

/-- A unit of the other application. It has temporary aliases only once the new CA was
delivered to it. -/
structure Steady (k : Certs) (turned : Prop) (remoteCa : List Cert) (old new other : Nat)
    (u : PeerUnit) : Prop where
  certs : u.certs.ca = other
  presented : u.presented.ca = other
  remote : Cert.authority old ∈ u.remote.ca ∨ Cert.authority new ∈ u.remote.ca
  waiting : Cert.authority new ∉ u.remote.ca → u.truststore.hasTemporaryAliases = false ∧
    ∀ c ∈ u.remote.ca, k.recognises u.truststore.certs c = true
  behind : Cert.authority new ∉ remoteCa → u.remote.ca = remoteCa
  trusted : Cert.authority new ∈ u.remote.trust → turned

/-- Every unit of the application presents a certificate of the CA. -/
def Turned (d : Deployment) (s : PeerTls) (a : App) (ca : Nat) : Prop :=
  ∀ j < d.size a, (s.unit (a, j)).presented.ca = ca

/-- Application `a` rotates from `old` to `new` while the other stays with `other`. The new CA
is not taken for a leaf. -/
structure Rotation (d : Deployment) (a : App) (old new other : Nat) (s : PeerTls) : Prop where
  proper : old = new ∨ d.isValidLeafCertificate (.authority new) = false
  turning : ∀ j < d.size a, Turning d.toCerts (d.size a) (fun i => (s.unit (a, i)).presented.ca)
    (s.app a.other).ca old new other (s.unit (a, j))
  steady : ∀ j < d.size a.other, Steady d.toCerts (Turned d s a new) (s.app a).ca old new other
    (s.unit (a.other, j))
  trust : Cert.authority new ∈ (s.app a).trust → Turned d s a new
  kept : ∀ i < d.size a, (s.unit (a, i)).certs.ca = new →
    (∃ j < d.size a, (s.unit (a, j)).certs.ca ≠ new) →
      (s.unit (a, i)).truststore.hasTemporaryAliases = true

variable {a : App} {old new other : Nat}

theorem trustedByOurApp_published {c : Cert} (h : c ∈ s.trustedByOurApp d x) {j : Nat}
    (hj : j < d.size x.1) : c ∈ (s.seen x j).trusted := by
  unfold PeerTls.trustedByOurApp at h
  have hall := (List.mem_filter.mp h).2
  rw [List.all_eq_true] at hall
  simpa using hall j (List.mem_range.mpr hj)

/-- If a unit of the rotating application sees the new CA trusted by all of its units,
all present it. -/
theorem Rotation.turned_of_trusted (h : Rotation d a old new other s) {i : Nat}
    (hi : i < d.size a) (htrust : Cert.authority new ∈ s.trustedByOurApp d (a, i)) :
    Turned d s a new := by
  intro j hj
  have hseen := trustedByOurApp_published htrust hj
  unfold PeerTls.seen at hseen
  by_cases hij : j = i
  · rw [if_pos hij] at hseen
    rw [hij]
    exact (h.turning i hi).published hseen
  · rw [if_neg hij] at hseen
    exact (h.turning i hi).seen j hj hseen

/-! ## Safety -/

theorem cleansUp_trusts (h : s.cleansUp d x = true) {c : Cert}
    (hc : c ∈ (s.unit x).certs.bundle ++ (s.unit x).remote.ca)
    (hca : d.isValidLeafCertificate c = false) :
    d.recognises (s.trustedByOurApp d x) c = true ∧
      d.recognises (s.unit x).remote.trust c = true := by
  unfold PeerTls.cleansUp PeerTls.bothAppsTrustNewBundle at h
  rw [Bool.and_eq_true, List.all_eq_true] at h
  simpa [hca] using h.2 _ hc

theorem cleansUp_temporary (h : s.cleansUp d x = true) :
    (s.unit x).truststore.hasTemporaryAliases = true := by
  unfold PeerTls.cleansUp at h
  rw [Bool.and_eq_true] at h
  exact h.1

/-- A move from a CA to itself is over before it starts. -/
theorem Rotation.turned_of_eq (h : Rotation d a old new other s) (heq : old = new) :
    Turned d s a new := by
  intro j hj
  cases (h.turning j hj).presented with
  | inl hold => exact hold.trans heq
  | inr hnew => exact hnew

/-- A unit of the rotating application cleans up only after all have turned. -/
theorem Rotation.turned_of_cleansUp_turning (h : Rotation d a old new other s) {i : Nat}
    (hi : i < d.size a) (hclean : s.cleansUp d (a, i) = true) :
    (s.unit (a, i)).certs.ca = new ∧ Turned d s a new := by
  have hnew : (s.unit (a, i)).certs.ca = new := by
    by_contra hne
    have := cleansUp_temporary hclean
    rw [((h.turning i hi).waiting hne).1] at this
    cases this
  have hmem : Cert.authority new ∈ (s.unit (a, i)).certs.bundle ++ (s.unit (a, i)).remote.ca := by
    rw [← hnew]
    exact List.mem_append_left _ (PeerCerts.ca_mem_bundle _)
  cases h.proper with
  | inl heq => exact ⟨hnew, h.turned_of_eq heq⟩
  | inr hca =>
    have hours := Certs.recognises_iff.mp (cleansUp_trusts hclean hmem hca).1
    exact ⟨hnew, h.turned_of_trusted hi hours.2⟩

/-- So does a unit of the other application, which then knows the new CA. -/
theorem Rotation.turned_of_cleansUp_steady (h : Rotation d a old new other s) {i : Nat}
    (hi : i < d.size a.other) (hclean : s.cleansUp d (a.other, i) = true) :
    Cert.authority new ∈ (s.unit (a.other, i)).remote.ca ∧ Turned d s a new := by
  have hnew : Cert.authority new ∈ (s.unit (a.other, i)).remote.ca := by
    by_contra hne
    have := cleansUp_temporary hclean
    rw [((h.steady i hi).waiting hne).1] at this
    cases this
  cases h.proper with
  | inl heq => exact ⟨hnew, h.turned_of_eq heq⟩
  | inr hca =>
    have htheirs := cleansUp_trusts hclean (List.mem_append_right _ hnew) hca
    exact ⟨hnew, (h.steady i hi).trusted (Certs.recognises_iff.mp htheirs.2).2⟩

/-- Every running unit presents a certificate under a CA of the unit's bundle or of
the bundle of the other application. -/
def CasInUseKnown (d : Deployment) (s : PeerTls) (x : UnitId) : Prop :=
  ∀ y, d.Has y →
    Cert.authority (s.unit y).presented.ca ∈ (s.unit x).certs.bundle ++ (s.unit x).remote.ca

theorem Rotation.casInUseKnown (h : Rotation d a old new other s) (hx : d.Has x)
    (hclean : s.cleansUp d x = true) : CasInUseKnown d s x := by
  intro y hy
  obtain ⟨b, i⟩ := x
  obtain ⟨c, j⟩ := y
  rw [List.mem_append]
  cases App.eq_or_other a b with
  | inl hb =>
    subst hb
    obtain ⟨hnew, hturned⟩ := h.turned_of_cleansUp_turning hx hclean
    cases App.eq_or_other b c with
    | inl hc =>
      subst hc
      left
      rw [hturned j hy, ← hnew]
      exact PeerCerts.ca_mem_bundle _
    | inr hc =>
      subst hc
      right
      rw [(h.steady j hy).presented]
      exact (h.turning i hx).remote
  | inr hb =>
    subst hb
    obtain ⟨hnew, hturned⟩ := h.turned_of_cleansUp_steady hx hclean
    cases App.eq_or_other a c with
    | inl hc =>
      subst hc
      right
      rw [hturned j hy]
      exact hnew
    | inr hc =>
      subst hc
      left
      rw [(h.steady j hy).presented, ← (h.steady i hx).certs]
      exact PeerCerts.ca_mem_bundle _

/-! ## One unit changes -/

/-- What a change of a unit of the rotating application must keep. -/
structure Turns (d : Deployment) (a : App) (old new other : Nat) (s : PeerTls) (j : Nat)
    (u : PeerUnit) : Prop where
  turning : Turning d.toCerts (d.size a) (fun i => (s.unit (a, i)).presented.ca) (s.app a.other).ca
    old new other u
  presented : (s.unit (a, j)).presented.ca = new → u.presented.ca = new
  certs : (s.unit (a, j)).certs.ca = new → u.certs.ca = new
  kept : u.certs.ca = new → (∃ i < d.size a, (s.unit (a, i)).certs.ca ≠ new ∧ i ≠ j) →
    u.truststore.hasTemporaryAliases = true

theorem Turning.mono {k : Certs} {n : Nat} {presents presents' : Nat → Nat} {remoteCa : List Cert}
    {u : PeerUnit} (h : Turning k n presents remoteCa old new other u)
    (hp : ∀ j < n, presents j = new → presents' j = new) :
    Turning k n presents' remoteCa old new other u :=
  { h with seen := fun j hj hin => hp j hj (h.seen j hj hin) }

theorem Steady.mono {k : Certs} {turned turned' : Prop} {remoteCa : List Cert} {u : PeerUnit}
    (h : Steady k turned remoteCa old new other u) (ht : turned → turned') :
    Steady k turned' remoteCa old new other u :=
  { h with trusted := fun hin => ht (h.trusted hin) }

theorem Rotation.setUnit_turning (h : Rotation d a old new other s) {j : Nat} {u : PeerUnit}
    (hu : Turns d a old new other s j u) : Rotation d a old new other (s.setUnit (a, j) u) := by
  have hpresents : ∀ i < d.size a, (s.unit (a, i)).presented.ca = new →
      ((s.setUnit (a, j) u).unit (a, i)).presented.ca = new := by
    intro i _ hp
    rw [PeerTls.setUnit_unit]
    split
    · rename_i heq
      obtain rfl : i = j := congrArg Prod.snd heq
      exact hu.presented hp
    · exact hp
  have hturned : Turned d s a new → Turned d (s.setUnit (a, j) u) a new :=
    fun ht i hi => hpresents i hi (ht i hi)
  refine ⟨h.proper, ?_, ?_, ?_, ?_⟩
  · intro i hi
    rw [PeerTls.setUnit_unit]
    split
    · exact hu.turning.mono hpresents
    · exact (h.turning i hi).mono hpresents
  · intro i hi
    have hne : (a.other, i) ≠ (a, j) := fun heq => App.other_ne a (congrArg Prod.fst heq)
    rw [PeerTls.setUnit_unit, if_neg hne]
    exact (h.steady i hi).mono hturned
  · exact fun hin => hturned (h.trust hin)
  · intro i hi hnew ⟨k, hk, hold⟩
    -- a unit that has not turned had not turned before
    have hold' : (s.unit (a, k)).certs.ca ≠ new := by
      intro hc
      apply hold
      rw [PeerTls.setUnit_unit]
      split
      · rename_i heq
        obtain rfl : k = j := congrArg Prod.snd heq
        exact hu.certs hc
      · exact hc
    by_cases hij : i = j
    · subst hij
      rw [PeerTls.setUnit_self] at hnew ⊢
      refine hu.kept hnew ⟨k, hk, hold', ?_⟩
      rintro rfl
      exact hold (by rw [PeerTls.setUnit_self]; exact hnew)
    · have hne : (a, i) ≠ (a, j) := fun heq => hij (congrArg Prod.snd heq)
      rw [PeerTls.setUnit_unit, if_neg hne] at hnew ⊢
      exact h.kept i hi hnew ⟨k, hk, hold'⟩

theorem Rotation.setUnit_steady (h : Rotation d a old new other s) {j : Nat} {u : PeerUnit}
    (hu : Steady d.toCerts (Turned d s a new) (s.app a).ca old new other u) :
    Rotation d a old new other (s.setUnit (a.other, j) u) := by
  have hsame : ∀ i, (s.setUnit (a.other, j) u).unit (a, i) = s.unit (a, i) := by
    intro i
    have hne : (a, i) ≠ (a.other, j) := fun heq => App.other_ne a (congrArg Prod.fst heq).symm
    rw [PeerTls.setUnit_unit, if_neg hne]
  have hturned : Turned d (s.setUnit (a.other, j) u) a new ↔ Turned d s a new := by
    simp only [Turned, hsame]
  refine ⟨h.proper, ?_, ?_, ?_, ?_⟩
  · intro i hi
    simp only [hsame]
    exact h.turning i hi
  · intro i hi
    rw [PeerTls.setUnit_unit]
    split
    · exact hu.mono hturned.mpr
    · exact (h.steady i hi).mono hturned.mpr
  · exact fun hin => hturned.mpr (h.trust hin)
  · simp only [hsame]
    exact h.kept

/-- A change that leaves the certificates and the truststore of the unit alone. -/
theorem Rotation.turns (h : Rotation d a old new other s) {j : Nat} (hj : j < d.size a)
    {u : PeerUnit} (hu : Turning d.toCerts (d.size a) (fun i => (s.unit (a, i)).presented.ca)
      (s.app a.other).ca old new other u)
    (hpresented : u.presented = (s.unit (a, j)).presented)
    (hcerts : u.certs = (s.unit (a, j)).certs)
    (htruststore : u.truststore = (s.unit (a, j)).truststore) :
    Turns d a old new other s j u where
  turning := hu
  presented hp := hpresented ▸ hp
  certs hc := hcerts ▸ hc
  kept := by
    rintro hnew ⟨i, hi, hold, -⟩
    rw [hcerts] at hnew
    rw [htruststore]
    exact h.kept j hj hnew ⟨i, hi, hold⟩

/-- A change of one unit keeps the rotation when it keeps what concerns the unit. -/
theorem Rotation.setUnit (h : Rotation d a old new other s) {u : PeerUnit}
    (hturns : x.1 = a → Turns d a old new other s x.2 u)
    (hsteady : x.1 = a.other → Steady d.toCerts (Turned d s a new) (s.app a).ca old new other u) :
    Rotation d a old new other (s.setUnit x u) := by
  obtain ⟨b, j⟩ := x
  cases App.eq_or_other a b with
  | inl hb =>
    subst hb
    exact h.setUnit_turning (hturns rfl)
  | inr hb =>
    subst hb
    exact h.setUnit_steady (hsteady rfl)

/-- So does a change of the published data that leaves the bundle alone. -/
theorem Rotation.setApp (h : Rotation d a old new other s) {b : App} {data : AppData}
    (hca : data.ca = (s.app b).ca)
    (htrust : b = a → Cert.authority new ∈ data.trust → Turned d s a new) :
    Rotation d a old new other (s.setApp b data) := by
  have hsame : ∀ c, ((s.setApp b data).app c).ca = (s.app c).ca := by
    intro c
    rw [PeerTls.setApp_app]
    split
    · rename_i heq
      rw [hca, heq]
    · rfl
  refine ⟨h.proper, ?_, ?_, ?_, ?_⟩
  · intro j hj
    rw [hsame]
    exact h.turning j hj
  · intro j hj
    rw [hsame]
    exact h.steady j hj
  · rw [PeerTls.setApp_app]
    split
    · rename_i heq
      exact htrust heq.symm
    · exact h.trust
  · exact h.kept

/-- And so does the new CA in the published bundle. -/
theorem Rotation.setCa (h : Rotation d a old new other s) {data : AppData}
    (hca : Cert.authority new ∈ data.ca) (htrust : data.trust = (s.app a).trust) :
    Rotation d a old new other (s.setApp a data) := by
  have hother : (s.setApp a data).app a.other = s.app a.other := by
    rw [PeerTls.setApp_app, if_neg (App.other_ne a)]
  refine ⟨h.proper, ?_, ?_, ?_, ?_⟩
  · intro j hj
    rw [hother]
    exact h.turning j hj
  · intro j hj
    rw [PeerTls.setApp_self]
    exact { h.steady j hj with behind := fun hne => absurd hca hne }
  · rw [PeerTls.setApp_self, htrust]
    exact h.trust
  · exact h.kept

/-! ## The steps of the handlers -/

theorem PeerTls.Sound.setUnit (h : s.Sound d) {u : PeerUnit} (hu : d.Has x → u.Sound s.now)
    (hcerts : u.certs = (s.unit x).certs) : (s.setUnit x u).Sound d := by
  constructor
  · intro y hy
    rw [PeerTls.setUnit_unit]
    split
    · rename_i heq
      exact hu (heq ▸ hy)
    · exact h.units y hy
  · intro b
    rw [PeerTls.setUnit_unit]
    split
    · rename_i heq
      rw [hcerts, ← heq]
      exact h.ca b
    · exact h.ca b

theorem PeerTls.Sound.setApp (h : s.Sound d) {b : App} {data : AppData}
    (hca : data.ca = (s.app b).ca) : (s.setApp b data).Sound d := by
  constructor
  · exact h.units
  · intro c
    rw [PeerTls.setApp_app]
    split
    · rename_i heq
      rw [hca, ← heq]
      exact h.ca c
    · exact h.ca c

/-- The invariant of a run while application `a` rotates. -/
structure Rotating (d : Deployment) (a : App) (old new other : Nat) (s : PeerTls) : Prop where
  sound : s.Sound d
  rotation : Rotation d a old new other s

namespace Rotating

variable (h : Rotating d a old new other s)

include h

theorem reload (hx : d.Has x) (requested : Bool) : Rotating d a old new other
    (s.setUnit x { (s.unit x).reload s.now with restartRequested := requested }) := by
  have hkeystore : (s.unit x).keystore = (s.unit x).certs := (h.sound.units x hx).keystore
  constructor
  · apply h.sound.setUnit
    · intro _
      exact ⟨hkeystore, Nat.le_refl _, fun _ => rfl⟩
    · rfl
  · apply h.rotation.setUnit
    · intro hxa
      have hturning := h.rotation.turning x.2 (hxa ▸ hx)
      obtain ⟨b, j⟩ := x
      obtain rfl : b = a := hxa
      have hpresented : ∀ ca, (s.unit (b, j)).certs.ca = ca →
          ((s.unit (b, j)).reload s.now).presented.ca = ca := by
        intro ca hca
        unfold PeerUnit.reload
        rw [hkeystore]
        exact hca
      constructor
      · exact { hturning with
          presented := hturning.certs.imp (hpresented old) (hpresented new)
          done := fun hp => by
            unfold PeerUnit.reload at hp
            rw [hkeystore] at hp
            exact hp
          loaded := fun hin => hpresented new (hturning.disk hin)
          published := fun hin => hpresented new (hturning.done (hturning.published hin)) }
      · exact fun hp => hpresented new (hturning.done hp)
      · exact id
      · exact fun hnew ⟨i, hi, hold, _⟩ => h.rotation.kept j hx hnew ⟨i, hi, hold⟩
    · intro hxa
      have hsteady := h.rotation.steady x.2 (hxa ▸ hx)
      obtain ⟨b, j⟩ := x
      obtain rfl : b = a.other := hxa
      exact { hsteady with
        presented := by
          unfold PeerUnit.reload
          rw [hkeystore]
          exact hsteady.certs }

/-- What the process has loaded may be published. -/
theorem publishTrust (hx : d.Has x) (hloaded : (s.unit x).loaded = (s.unit x).truststore.certs) :
    Rotating d a old new other (s.publishTrust d x) := by
  have hunit : Rotating d a old new other (s.setUnit x { s.unit x with
      databag := { (s.unit x).databag with trusted := (s.unit x).truststore.certs } }) := by
    constructor
    · apply h.sound.setUnit
      · intro hx
        have hsound := h.sound.units x hx
        exact ⟨hsound.keystore, hsound.restarted, hsound.loaded⟩
      · rfl
    · apply h.rotation.setUnit
      · intro hxa
        have hturning := h.rotation.turning x.2 (hxa ▸ hx)
        obtain ⟨b, j⟩ := x
        obtain rfl : b = a := hxa
        refine h.rotation.turns hx ?_ rfl rfl rfl
        exact { hturning with published := fun hin => hturning.loaded (hloaded ▸ hin) }
      · intro hxa
        have hsteady := h.rotation.steady x.2 (hxa ▸ hx)
        obtain ⟨b, j⟩ := x
        obtain rfl : b = a.other := hxa
        exact { hsteady with }
  unfold PeerTls.publishTrust
  split
  · constructor
    · exact hunit.sound.setApp rfl
    · apply hunit.rotation.setApp
      · rfl
      · rintro rfl hin
        exact hunit.rotation.turned_of_trusted hx hin
  · exact hunit

theorem updatePeerTruststoreState (hx : d.Has x) {force : Bool}
    (hforce : force = true → (s.unit x).loaded = (s.unit x).truststore.certs) :
    Rotating d a old new other (s.updatePeerTruststoreState d x force) := by
  unfold PeerTls.updatePeerTruststoreState
  simp only []
  split
  · exact h
  · split
    · exact h
    · rename_i hrestarted
      apply h.publishTrust hx
      cases force with
      | true => exact hforce rfl
      | false =>
        apply (h.sound.units x hx).loaded
        simpa using hrestarted

/-- A unit that waits for the new CA imports nothing. -/
theorem updatePeerClusterTrust (hx : d.Has x) :
    Rotating d a old new other (s.setUnit x ((s.unit x).updatePeerClusterTrust d.toCerts s.now)) := by
  constructor
  · apply h.sound.setUnit
    · intro hx
      have hsound := h.sound.units x hx
      refine ⟨hsound.keystore, hsound.restarted, ?_⟩
      unfold PeerUnit.updatePeerClusterTrust
      intro hlt
      simp only at hlt ⊢
      split at hlt
      · rename_i hall
        rw [Truststore.updatePeerClusterTrust_of_recognised (List.all_eq_true.mp hall)]
        exact hsound.loaded hlt
      · exact absurd hsound.restarted (Nat.not_le.mpr hlt)
    · rfl
  · apply h.rotation.setUnit
    · intro hxa
      have hturning := h.rotation.turning x.2 (hxa ▸ hx)
      obtain ⟨b, j⟩ := x
      obtain rfl : b = a := hxa
      by_cases hnew : (s.unit (b, j)).certs.ca = new
      · constructor
        · exact { hturning with
            disk := fun _ => hnew
            waiting := fun hne => absurd hnew hne }
        · exact id
        · exact id
        · intro _ ⟨i, hi, hold, _⟩
          exact Truststore.hasTemporaryAliases_updatePeerClusterTrust
            (h.rotation.kept j hx hnew ⟨i, hi, hold⟩)
      · have hsame : ((s.unit (b, j)).updatePeerClusterTrust d.toCerts s.now).truststore =
            (s.unit (b, j)).truststore :=
          Truststore.updatePeerClusterTrust_of_recognised (hturning.waiting hnew).2.2
        constructor
        · exact { hturning with
            disk := fun hin => hturning.disk (hsame ▸ hin)
            waiting := fun hne => by rw [hsame]; exact hturning.waiting hne }
        · exact id
        · exact id
        · exact fun hc => absurd hc hnew
    · intro hxa
      have hsteady := h.rotation.steady x.2 (hxa ▸ hx)
      obtain ⟨b, j⟩ := x
      obtain rfl : b = a.other := hxa
      exact { hsteady with
        waiting := fun hnew => by
          have hsame : ((s.unit (a.other, j)).updatePeerClusterTrust d.toCerts s.now).truststore =
              (s.unit (a.other, j)).truststore :=
            Truststore.updatePeerClusterTrust_of_recognised (hsteady.waiting hnew).2
          rw [hsame]
          exact hsteady.waiting hnew }

theorem unitTlsRotate (hx : d.Has x) : Rotating d a old new other (s.unitTlsRotate d x) :=
  (h.updatePeerTruststoreState hx fun hf => by cases hf).updatePeerClusterTrust hx

/-- Publishing the bundle again changes nothing. -/
theorem publishCa : s.publishCa d x = s := by
  unfold PeerTls.publishCa
  split
  · rename_i hleader
    have hca : (s.unit x).certs.bundle = (s.app x.1).ca := by
      rw [h.sound.ca x.1, Deployment.leaderOf, ← hleader]
    rw [hca]
    exact congrArg (fun f => { s with app := f }) (Function.update_eq_self x.1 s.app)
  · rfl

theorem publishRotate (value : Bool) :
    Rotating d a old new other (s.publishRotate d x value) := by
  unfold PeerTls.publishRotate
  split
  · constructor
    · exact h.sound.setApp rfl
    · apply h.rotation.setApp
      · rfl
      · rintro rfl hin
        exact h.rotation.trust hin
  · exact h

/-- The request for a restart and the rotation state are of no concern. -/
theorem reset (hx : d.Has x) (requested rotate : Bool) :
    Rotating d a old new other (s.setUnit x { s.unit x with
      restartRequested := requested
      databag := { (s.unit x).databag with rotate := rotate } }) := by
  constructor
  · apply h.sound.setUnit
    · intro hx
      have hsound := h.sound.units x hx
      exact ⟨hsound.keystore, hsound.restarted, hsound.loaded⟩
    · rfl
  · apply h.rotation.setUnit
    · intro hxa
      have hturning := h.rotation.turning x.2 (hxa ▸ hx)
      obtain ⟨b, j⟩ := x
      obtain rfl : b = a := hxa
      exact h.rotation.turns hx { hturning with } rfl rfl rfl
    · intro hxa
      have hsteady := h.rotation.steady x.2 (hxa ▸ hx)
      obtain ⟨b, j⟩ := x
      obtain rfl : b = a.other := hxa
      exact { hsteady with }

theorem proceed (hx : d.Has x) (restart : Bool) :
    Rotating d a old new other (s.proceed d x restart) := by
  have hreset := h.reset hx
    ((s.unit x).restartRequested || restart || (s.unit x).databag.rotate) false
  unfold PeerTls.proceed
  apply Rotating.publishRotate
  split
  · rw [hreset.publishCa]
    exact hreset
  · exact hreset

theorem configChanged (hx : d.Has x) (propertiesChanged : Bool) :
    Rotating d a old new other (s.configChanged d x propertiesChanged) := by
  have hrotate := h.unitTlsRotate hx
  unfold PeerTls.configChanged
  simp only []
  split
  · exact hrotate
  · exact hrotate.proceed hx _

/-- The cleanup comes after all have turned. -/
theorem rebuildTruststore (hx : d.Has x) (hclean : s.cleansUp d x = true) :
    Rotating d a old new other (s.setUnit x
      { (s.unit x).rebuildTruststore d.toCerts s.now with restartRequested := true }) := by
  constructor
  · apply h.sound.setUnit
    · intro hx
      have hsound := h.sound.units x hx
      exact ⟨hsound.keystore, hsound.restarted,
        fun hlt => absurd hsound.restarted (Nat.not_le.mpr hlt)⟩
    · rfl
  · apply h.rotation.setUnit
    · intro hxa
      obtain ⟨b, j⟩ := x
      obtain rfl : b = a := hxa
      have hturning := h.rotation.turning j hx
      obtain ⟨hnew, hturned⟩ := h.rotation.turned_of_cleansUp_turning hx hclean
      constructor
      · exact { hturning with
          disk := fun _ => hnew
          waiting := fun hne => absurd hnew hne }
      · exact id
      · exact id
      · intro _ ⟨i, hi, hold, _⟩
        exact absurd ((h.rotation.turning i hi).done (hturned i hi)) hold
    · intro hxa
      obtain ⟨b, j⟩ := x
      obtain rfl : b = a.other := hxa
      have hsteady := h.rotation.steady j hx
      obtain ⟨hnew, _⟩ := h.rotation.turned_of_cleansUp_steady hx hclean
      exact { hsteady with waiting := fun hne => absurd hnew hne }

theorem updateStatus (hx : d.Has x) (propertiesChanged : Bool) :
    Rotating d a old new other (s.updateStatus d x propertiesChanged) := by
  have hconfig := h.configChanged hx propertiesChanged
  unfold PeerTls.updateStatus
  simp only []
  split
  · rename_i hclean
    exact hconfig.rebuildTruststore hx hclean
  · exact hconfig

theorem restartBroker (hx : d.Has x) (healthy : Bool) :
    Rotating d a old new other (s.restartBroker d x healthy) := by
  have hreload := h.reload hx (!healthy)
  unfold PeerTls.restartBroker
  simp only []
  split
  · apply hreload.updatePeerTruststoreState hx
    intro _
    rw [PeerTls.setUnit_self]
    rfl
  · exact hreload

theorem peerClusterChanged (hx : d.Has x) (propertiesChanged : Bool) :
    Rotating d a old new other (s.peerClusterChanged d x propertiesChanged) := by
  unfold PeerTls.peerClusterChanged
  split
  · rw [h.publishCa]
    exact h.configChanged hx propertiesChanged
  · exact h

theorem deliverUnit (hx : d.Has x) {j : Nat} (hj : d.Has (x.1, j)) :
    Rotating d a old new other (s.setUnit x { s.unit x with
      peers := Function.update (s.unit x).peers j (s.unit (x.1, j)).databag }) := by
  constructor
  · apply h.sound.setUnit
    · intro hx
      have hsound := h.sound.units x hx
      exact ⟨hsound.keystore, hsound.restarted, hsound.loaded⟩
    · rfl
  · apply h.rotation.setUnit
    · intro hxa
      obtain ⟨b, k⟩ := x
      obtain rfl : b = a := hxa
      have hturning := h.rotation.turning k hx
      refine h.rotation.turns hx ?_ rfl rfl rfl
      exact { hturning with
        seen := fun i hi hin => by
          simp only [Function.update_apply] at hin
          split at hin
          · rename_i hij
            rw [hij]
            exact (h.rotation.turning j hj).published hin
          · exact hturning.seen i hi hin }
    · intro hxa
      have hsteady := h.rotation.steady x.2 (hxa ▸ hx)
      obtain ⟨b, k⟩ := x
      obtain rfl : b = a.other := hxa
      exact { hsteady with }

/-- The published bundles are those of the leaders. -/
theorem ca_mem (b : App) :
    Cert.authority (s.unit (d.leaderOf b)).certs.ca ∈ (s.app b).ca := by
  rw [h.sound.ca b]
  exact PeerCerts.ca_mem_bundle _

theorem deliverApp (hx : d.Has x) :
    Rotating d a old new other (s.setUnit x { s.unit x with remote := s.app x.1.other }) := by
  constructor
  · apply h.sound.setUnit
    · intro hx
      have hsound := h.sound.units x hx
      exact ⟨hsound.keystore, hsound.restarted, hsound.loaded⟩
    · rfl
  · apply h.rotation.setUnit
    · intro hxa
      obtain ⟨b, j⟩ := x
      obtain rfl : b = a := hxa
      have hturning := h.rotation.turning j hx
      have hleader := h.ca_mem b.other
      rw [Deployment.leaderOf, (h.rotation.steady _ (d.leader_lt b.other)).certs] at hleader
      refine h.rotation.turns hx ?_ rfl rfl rfl
      exact { hturning with
        remote := hleader
        waiting := fun hne => by
          obtain ⟨htemp, hca, htrusted⟩ := hturning.waiting hne
          exact ⟨htemp, rfl, hca ▸ htrusted⟩ }
    · intro hxa
      obtain ⟨b, j⟩ := x
      obtain rfl : b = a.other := hxa
      have hsteady := h.rotation.steady j hx
      have hleader := h.ca_mem a
      simp only [App.other_other]
      exact { hsteady with
        remote := by
          cases (h.rotation.turning _ (d.leader_lt a)).certs with
          | inl hold =>
            left
            rw [← hold]
            exact hleader
          | inr hnew =>
            right
            rw [← hnew]
            exact hleader
        waiting := fun hne => by
          have hca := hsteady.behind hne
          rw [← hca] at hne
          obtain ⟨htemp, htrusted⟩ := hsteady.waiting hne
          exact ⟨htemp, hca ▸ htrusted⟩
        behind := fun _ => rfl
        trusted := h.rotation.trust }

theorem tick : Rotating d a old new other { s with now := s.now + 1 } := by
  constructor
  · constructor
    · intro x hx
      have hsound := h.sound.units x hx
      exact ⟨hsound.keystore, Nat.le_succ_of_le hsound.restarted, hsound.loaded⟩
    · exact h.sound.ca
  · exact ⟨h.rotation.proper, h.rotation.turning, h.rotation.steady, h.rotation.trust,
      h.rotation.kept⟩

/-- A certificate of the new CA is installed, and published by the leader. Unless all
have turned, the old bundle is kept. -/
theorem install {j : Nat} (hx : d.Has (a, j)) {certs : PeerCerts} (hca : certs.ca = new)
    (keepOld rotate : Bool)
    (hkeep : keepOld = true ∨ ∀ i < d.size a, (s.unit (a, i)).certs.ca = new) :
    Rotating d a old new other
      ((s.setUnit (a, j) ((s.unit (a, j)).install d.toCerts s.now certs keepOld rotate)).publishCa
        d (a, j)) := by
  have hturning := h.rotation.turning j hx
  have hrotation : Rotation d a old new other
      (s.setUnit (a, j) ((s.unit (a, j)).install d.toCerts s.now certs keepOld rotate)) := by
    apply h.rotation.setUnit_turning
    constructor
    · exact { hturning with
        certs := .inr hca
        done := fun _ => hca
        disk := fun _ => hca
        waiting := fun hne => absurd hca hne }
    · exact id
    · exact fun _ => hca
    · intro _ ⟨i, hi, hold, _⟩
      cases hkeep with
      | inl hkeep =>
        unfold PeerUnit.install
        simp only [hkeep, if_true]
        apply Truststore.hasTemporaryAliases_importOld
        exact List.ne_nil_of_mem (PeerCerts.ca_mem_bundle _)
      | inr hall => exact absurd (hall i hi) hold
  have hsound : ∀ y, d.Has y →
      ((s.setUnit (a, j) ((s.unit (a, j)).install d.toCerts s.now certs keepOld rotate)).unit y).Sound
        s.now := by
    intro y hy
    rw [PeerTls.setUnit_unit]
    split
    · have hsound := h.sound.units (a, j) hx
      exact ⟨rfl, hsound.restarted, fun hlt => absurd hsound.restarted (Nat.not_le.mpr hlt)⟩
    · exact h.sound.units y hy
  unfold PeerTls.publishCa
  split
  · rename_i hleader
    constructor
    · constructor
      · exact hsound
      · intro b
        rw [PeerTls.setApp_app]
        split
        · rename_i hb
          subst hb
          have hl : d.leaderOf b = (b, j) := by
            rw [Deployment.leaderOf, ← hleader]
          rw [hl]
          rfl
        · rename_i hb
          have hne : d.leaderOf b ≠ (a, j) := fun heq => hb (congrArg Prod.fst heq)
          rw [PeerTls.setApp_unit, PeerTls.setUnit_unit, if_neg hne]
          exact h.sound.ca b
    · apply hrotation.setCa
      · rw [PeerTls.setUnit_self, ← hca]
        exact PeerCerts.ca_mem_bundle _
      · rfl
  · rename_i hleader
    constructor
    · constructor
      · exact hsound
      · intro b
        have hne : d.leaderOf b ≠ (a, j) := by
          intro heq
          apply hleader
          obtain rfl : b = a := congrArg Prod.fst heq
          exact (congrArg Prod.snd heq).symm
        rw [PeerTls.setUnit_unit, if_neg hne]
        exact h.sound.ca b
    · exact hrotation

end Rotating

end KafkaCharm
