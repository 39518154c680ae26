import KafkaCharm.TruststoreListing

/-! What to import is decided by comparing the fingerprint of a certificate with those read off the
listing. The bundle of the other application goes to `cluster-tls{i}` or, where that alias is
taken, to `new-cluster-tls{i}`, which is emptied first. -/

namespace KafkaCharm

open PyText

namespace TlsManager

/-- A certificate in a truststore. -/
structure Stored (κ : Type) where
  cert : κ
  date : Date
  deriving DecidableEq, Repr

/-- The entries of a truststore file; there is no file when there is no entry. -/
abbrev Keystore (κ : Type) := List (Str × Stored κ)

variable {κ : Type} (k : CertTools κ)

/-- An entry as it is listed. -/
def listed (e : Str × Stored κ) : Entry where
  label := e.1
  date := e.2.date.text
  date_oneLine := e.2.date.oneLine
  fingerprint := (k.load e.2.cert).sha256
  length_fingerprint := X509.length_sha256 _

/-- `TLSManager.get_trusted_certificates`; `none` is the `ValueError`. -/
def getTrustedCertificates (t : Keystore κ) : Option (List (Str × List UInt8)) :=
  readListing (keytoolList (t.map (listed k)))

/-- `TLSManager.import_cert`: an alias that exists is left alone. -/
def importCert (t : Keystore κ) (today : Date) (label : Str) (cert : κ) : Keystore κ :=
  if k.fold label ∈ Dict.keys t then t else t ++ [(k.fold label, ⟨cert, today⟩)]

/-- `TLSManager.remove_cert`. -/
def removeCert (t : Keystore κ) (label : Str) : Keystore κ := Dict.erase t (k.fold label)

/-- `TLSManager.update_cert`. -/
def updateCert (t : Keystore κ) (today : Date) (label : Str) (cert : κ) : Keystore κ :=
  importCert k (removeCert k t label) today label cert

/-- The alias for certificate `i` of the bundle of the other application. -/
def remoteAlias (trusted : List (Str × List UInt8)) (i : Nat) : Str :=
  if clusterAlias i ∈ Dict.keys trusted then newPrefix ++ clusterAlias i else clusterAlias i

/-- A round of the loop in `update_peer_cluster_trust`. -/
def updateRound (today : Date) (trusted : List (Str × List UInt8)) (i : Nat) (t : Keystore κ)
    (cert : κ) : Keystore κ :=
  if (k.load cert).certificateFingerprint ∈ trusted.map Prod.snd then t
  else updateCert k t today (remoteAlias trusted i) cert

/-- The loop, from position `i` on. What is trusted is read once, before it. -/
def updateFrom (today : Date) (trusted : List (Str × List UInt8)) :
    Nat → Keystore κ → List κ → Keystore κ
  | _, t, [] => t
  | i, t, c :: cs => updateFrom today trusted (i + 1) (updateRound k today trusted i t c) cs

/-- `TLSManager.update_peer_cluster_trust`. -/
def updatePeerClusterTrust (today : Date) (t : Keystore κ) (bundle : List κ) :
    Option (Keystore κ) :=
  if bundle = [] then some t
  else do
    let trusted ← getTrustedCertificates k t
    return updateFrom k today trusted 0 t bundle

/-- `TLSManager.bytes_to_keytool_hash`, with the default separator. -/
def bytesToKeytoolHash (bytes : List UInt8) : Str := bytes.flatMap shortByteText

/-- `TLSManager.peer_cluster_app_trusts_new_bundle`. -/
def peerClusterAppTrustsNewBundle (runsBroker runsController : Bool) (bundle : List κ)
    (trustedByPeerClusterApp : List Str) : Bool :=
  (runsBroker && runsController) || bundle.all fun c =>
    (k.load c).isValidLeafCertificate ||
      bytesToKeytoolHash (k.load c).certificateFingerprint ∈ trustedByPeerClusterApp

/-! ## What is read of a truststore -/

/-- The aliases are listable and in lower case, and each stands once. -/
structure WellListed (t : Keystore κ) : Prop where
  listable : ∀ a ∈ Dict.keys t, Listable a
  folded : ∀ a ∈ Dict.keys t, k.fold a = a
  nodup : Dict.NodupKeys t

/-- What a truststore trusts: its aliases and the SHA-256 digests under them. -/
def view (t : Keystore κ) : List (Str × List UInt8) :=
  t.map fun e => (e.1, (k.load e.2.cert).sha256)

/-- What is read of a truststore with legible aliases. -/
def readBack (t : Keystore κ) : List (Str × List UInt8) :=
  Dict.update [] (t.map fun e => (listedLabel e.1, (k.load e.2.cert).sha256))

/-- The certificate is in the truststore. -/
def Trusts (t : Keystore κ) (cert : κ) : Prop :=
  ∃ e ∈ t, (k.load e.2.cert).sha256 = (k.load cert).sha256

instance (t : Keystore κ) (cert : κ) : Decidable (Trusts k t cert) :=
  inferInstanceAs (Decidable (∃ e ∈ t, (k.load e.2.cert).sha256 = (k.load cert).sha256))

/-- What `update_peer_cluster_trust` leaves of a truststore with listable aliases. -/
def updated (today : Date) (t : Keystore κ) (bundle : List κ) : Keystore κ :=
  updateFrom k today (view k t) 0 t bundle

variable {k} {t : Keystore κ} {today : Date} {cert : κ}

theorem keys_view : Dict.keys (view k t) = Dict.keys t := by
  simp [Dict.keys, view]

theorem getTrustedCertificates_eq (h : WellListed k t) :
    getTrustedCertificates k t = some (view k t) := by
  have hitems : (t.map (listed k)).map Entry.item = view k t := by
    rw [List.map_map]
    rfl
  have hnodup : Dict.NodupKeys (view k t) := by
    rw [Dict.NodupKeys, keys_view]
    exact h.nodup
  rw [getTrustedCertificates, readListing_keytoolList, hitems]
  · intro e he
    obtain ⟨x, hx, rfl⟩ := List.mem_map.mp he
    exact h.listable x.1 (List.mem_map.mpr ⟨x, hx, rfl⟩)
  · rw [hitems]
    exact hnodup

theorem getTrustedCertificates_of_legible (h : ∀ a ∈ Dict.keys t, Legible a) :
    getTrustedCertificates k t = some (readBack k t) := by
  have hlegible : ∀ e ∈ t.map (listed k), Legible e.label := by
    intro e he
    obtain ⟨x, hx, rfl⟩ := List.mem_map.mp he
    exact h x.1 (List.mem_map.mpr ⟨x, hx, rfl⟩)
  rw [getTrustedCertificates, readListing_eq hlegible, List.map_map]
  rfl

/-- What is read for an alias is the digest of an entry that is listed so. -/
theorem exists_of_get?_readBack {label : Str} {hash : List UInt8}
    (h : Dict.get? (readBack k t) label = some hash) :
    ∃ e ∈ t, listedLabel e.1 = label ∧ (k.load e.2.cert).sha256 = hash := by
  have hnodup : Dict.NodupKeys (readBack k t) := Dict.NodupKeys.nil.update _
  have hread : ∀ x ∈ t.map fun e => (listedLabel e.1, (k.load e.2.cert).sha256),
      ∃ e ∈ t, listedLabel e.1 = x.1 ∧ (k.load e.2.cert).sha256 = x.2 := by
    intro x hx
    obtain ⟨e, he, rfl⟩ := List.mem_map.mp hx
    exact ⟨e, he, rfl, rfl⟩
  have hentries : ∀ x ∈ readBack k t,
      ∃ e ∈ t, listedLabel e.1 = x.1 ∧ (k.load e.2.cert).sha256 = x.2 :=
    Dict.forall_mem_update (by simp) hread
  exact hentries _ ((Dict.mem_iff_get? hnodup).mpr h)

theorem keys_readBack {label : Str} :
    label ∈ Dict.keys (readBack k t) ↔ ∃ e ∈ t, listedLabel e.1 = label := by
  unfold readBack
  rw [Dict.mem_keys_update]
  simp [Dict.keys]

theorem updatePeerClusterTrust_eq (h : WellListed k t) (today : Date) (bundle : List κ) :
    updatePeerClusterTrust k today t bundle = some (updated k today t bundle) := by
  unfold updatePeerClusterTrust
  by_cases hempty : bundle = []
  · rw [if_pos hempty, hempty]
    rfl
  · rw [if_neg hempty, getTrustedCertificates_eq h]
    rfl

/-- **A certificate is recognised** if it is trusted and signed with SHA-256. -/
theorem mem_values_view : (k.load cert).certificateFingerprint ∈ (view k t).map Prod.snd ↔
    (k.load cert).SignedWithSha256 ∧ Trusts k t cert := by
  rw [view, List.map_map, List.mem_map]
  constructor
  · rintro ⟨e, he, heq⟩
    obtain ⟨hsigned, hsame⟩ := k.fingerprint_eq_sha256_iff.mp heq.symm
    exact ⟨hsigned, e, he, hsame.symm⟩
  · rintro ⟨hsigned, e, he, hsame⟩
    exact ⟨e, he, (k.fingerprint_eq_sha256_iff.mpr ⟨hsigned, hsame.symm⟩).symm⟩

theorem trusts_iff (h : Dict.NodupKeys t) : Trusts k t cert ↔
    ∃ label s, Dict.get? t label = some s ∧ (k.load s.cert).sha256 = (k.load cert).sha256 := by
  constructor
  · rintro ⟨⟨label, s⟩, he, hsame⟩
    exact ⟨label, s, (Dict.mem_iff_get? h).mp he, hsame⟩
  · rintro ⟨label, s, hget, hsame⟩
    exact ⟨(label, s), (Dict.mem_iff_get? h).mpr hget, hsame⟩

/-! ## One import -/

theorem updateCert_eq (label : Str) : updateCert k t today label cert =
    Dict.erase t (k.fold label) ++ [(k.fold label, ⟨cert, today⟩)] := by
  have hfree : k.fold label ∉ Dict.keys (Dict.erase t (k.fold label)) := by
    rw [Dict.mem_keys_erase]
    exact fun h => h.1 rfl
  rw [updateCert, removeCert, importCert, if_neg hfree]

theorem get?_updateCert (label a : Str) :
    Dict.get? (updateCert k t today label cert) a =
      if k.fold label = a then some ⟨cert, today⟩ else Dict.get? t a := by
  rw [updateCert_eq, Dict.get?_append, Dict.get?_erase]
  by_cases ha : k.fold label = a
  · simp [ha, Dict.get?_cons]
  · simp [ha, Dict.get?_cons]

theorem keys_updateCert {label a : Str} :
    a ∈ Dict.keys (updateCert k t today label cert) ↔ a = k.fold label ∨ a ∈ Dict.keys t := by
  rw [Dict.mem_keys_iff, get?_updateCert, Dict.mem_keys_iff]
  by_cases ha : k.fold label = a
  · simp [ha]
  · have hne : ¬ a = k.fold label := fun h => ha h.symm
    simp [ha, hne]

theorem nodup_updateCert (label : Str) (h : Dict.NodupKeys t) :
    Dict.NodupKeys (updateCert k t today label cert) := by
  have hfree : k.fold label ∉ Dict.keys (Dict.erase t (k.fold label)) := by
    rw [Dict.mem_keys_erase]
    exact fun h => h.1 rfl
  rw [updateCert_eq, ← Dict.set_of_notMem hfree]
  exact (h.erase _).set _ _

theorem WellListed.updateCert {label : Str} (h : WellListed k t) (hlistable : Listable label)
    (hfold : k.fold label = label) (today : Date) (cert : κ) :
    WellListed k (updateCert k t today label cert) where
  listable a ha := by
    rcases keys_updateCert.mp ha with rfl | ha
    · exact hfold.symm ▸ hlistable
    · exact h.listable a ha
  folded a ha := by
    rcases keys_updateCert.mp ha with rfl | ha
    · rw [hfold, hfold]
    · exact h.folded a ha
  nodup := nodup_updateCert label h.nodup

variable (k)

/-- The checks agree that the certificate is trusted under the alias: the truststore is
listed with its fingerprint there, the alias needs no update, `update_peer_cluster_trust`
passes the certificate over, and it does not keep `peer_cluster_app_trusts_new_bundle` from
holding for a bundle that it is part of, once what is listed for it is published. -/
def TrustConverges (t : Keystore κ) (label : Str) (cert : κ) : Prop :=
  ∃ trusted, getTrustedCertificates k t = some trusted ∧
    Dict.get? trusted label = some (k.load cert).certificateFingerprint ∧
    aliasNeedsUpdate k trusted label (some cert) = false ∧
    (∀ today i u, updateRound k today trusted i u cert = u) ∧
    ∀ runsBroker runsController bundle published, cert ∈ bundle →
      (∀ hash, Dict.get? trusted label = some hash → bytesToKeytoolHash hash ∈ published) →
      (∀ c ∈ bundle, c ≠ cert → (k.load c).isValidLeafCertificate = true ∨
        bytesToKeytoolHash (k.load c).certificateFingerprint ∈ published) →
      peerClusterAppTrustsNewBundle k runsBroker runsController bundle published = true

variable {k}

section

variable {t' : Keystore κ} {label : Str}

/-- The aliases are legible, and no other one is read as the label. -/
structure ListedApart (t : Keystore κ) (label : Str) : Prop where
  legible : ∀ a ∈ Dict.keys t, Legible a
  apart : ∀ a ∈ Dict.keys t, listedLabel a = label → a = label

theorem WellListed.listedApart (h : WellListed k t) (label : Str) : ListedApart t label where
  legible a ha := (h.listable a ha).legible
  apart a ha heq := by rwa [listedLabel_of_listable (h.listable a ha)] at heq

theorem ListedApart.updateCert (h : ListedApart t label) (hlabel : Legible label)
    (hfold : k.fold label = label) (hlisted : t'.Perm (updateCert k t today label cert)) :
    ∀ a ∈ Dict.keys t', Legible a := by
  intro a ha
  have hkeys : a ∈ Dict.keys (TlsManager.updateCert k t today label cert) :=
    (hlisted.map Prod.fst).mem_iff.mp ha
  cases keys_updateCert.mp hkeys with
  | inl heq => exact (heq.trans hfold) ▸ hlabel
  | inr hold => exact h.legible a hold

/-- Under the label, the digest of the certificate is read. -/
theorem get?_readBack_updateCert (h : ListedApart t label) (hlabel : Listable label)
    (hfold : k.fold label = label) (hlisted : t'.Perm (updateCert k t today label cert)) :
    Dict.get? (readBack k t') label = some (k.load cert).sha256 := by
  rw [updateCert_eq, hfold] at hlisted
  have hmem : (label, ⟨cert, today⟩) ∈ t' := hlisted.mem_iff.mpr (by simp)
  have hkey : label ∈ Dict.keys (readBack k t') :=
    keys_readBack.mpr ⟨_, hmem, listedLabel_of_listable hlabel⟩
  obtain ⟨hash, hget⟩ := Option.ne_none_iff_exists'.mp (Dict.mem_keys_iff.mp hkey)
  obtain ⟨e, he, hread, rfl⟩ := exists_of_get?_readBack hget
  rw [hget]
  cases List.mem_append.mp (hlisted.mem_iff.mp he) with
  | inl hold =>
    obtain ⟨hne, hold⟩ := Dict.mem_keys_erase.mp (List.mem_map_of_mem hold)
    exact absurd (h.apart e.1 hold hread) hne
  | inr hnew =>
    obtain rfl := List.mem_singleton.mp hnew
    rfl

theorem signed_of_converges (h : ListedApart t label) (hfold : k.fold label = label)
    (hlisted : t'.Perm (updateCert k t today label cert))
    (hconverges : TrustConverges k t' label cert) :
    (k.load cert).SignedWithSha256 ∧ label ≠ [] ∧ '\n' ∉ label := by
  obtain ⟨trusted, hread, hget, -⟩ := hconverges
  have hlistable : Listable label := by
    apply mem_keys_readListing hread
    rw [Dict.mem_keys_iff, hget]
    simp
  have hreads := getTrustedCertificates_of_legible (k := k)
    (h.updateCert hlistable.legible hfold hlisted)
  rw [hread] at hreads
  obtain rfl := Option.some.inj hreads
  rw [get?_readBack_updateCert h hlistable hfold hlisted] at hget
  have hsigned := k.signed_of_fingerprint_eq (Option.some.inj hget).symm
  exact ⟨hsigned, hlistable.ne, hlistable.oneLine⟩

/-- **The checks converge** on a certificate that was imported, in whatever order `keytool`
lists the truststore, exactly when it is signed with SHA-256 or without a hash algorithm; and
the alias is one line. -/
theorem trust_checks_converge_iff (k : CertTools κ) {t t' : Keystore κ} {today : Date}
    {label : Str} {cert : κ} (h : ListedApart t label) (hcomma : ',' ∉ label)
    (hfold : k.fold label = label) (hlisted : t'.Perm (updateCert k t today label cert)) :
    TrustConverges k t' label cert ↔
      (k.load cert).SignedWithSha256 ∧ label ≠ [] ∧ '\n' ∉ label := by
  constructor
  · exact signed_of_converges h hfold hlisted
  · rintro ⟨hsigned, hne, hline⟩
    have hlistable : Listable label :=
      ⟨hne, hline, fun hmem => hcomma (List.mem_of_mem_tail hmem)⟩
    have hreads := getTrustedCertificates_of_legible (k := k)
      (h.updateCert hlistable.legible hfold hlisted)
    have hget := get?_readBack_updateCert h hlistable hfold hlisted
    rw [← X509.fingerprint_of_signed hsigned] at hget
    refine ⟨_, hreads, hget, ?_, ?_, ?_⟩
    · simp [aliasNeedsUpdate, hget]
    · intro day i u
      have hnodup : Dict.NodupKeys (readBack k t') := Dict.NodupKeys.nil.update _
      have hmem := (Dict.mem_iff_get? hnodup).mpr hget
      rw [updateRound, if_pos (List.mem_map_of_mem hmem)]
    · intro runsBroker runsController bundle published _ hpublished hothers
      rw [peerClusterAppTrustsNewBundle, Bool.or_eq_true, List.all_eq_true]
      right
      intro c hc
      rw [Bool.or_eq_true, decide_eq_true_eq]
      by_cases heq : c = cert
      · exact .inr (heq ▸ hpublished _ hget)
      · exact hothers c hc heq

end

theorem wellListed_nil : WellListed k [] where
  listable a ha := by cases ha
  folded a ha := by cases ha
  nodup := .nil

/-- `app-1`. -/
def sampleAlias : Str := ['a', 'p', 'p', '-', '1']

/-- A client truststore with the bundle of the unit and a CA that was transferred. -/
def sampleKeystore : Keystore SampleCert :=
  [(bundleAlias 0, ⟨.intermediate, sampleDate⟩),
    (SampleCert.tools.fold (SampleCert.tools.certificateDistinguishedName .intermediate),
      ⟨.intermediate, sampleDate⟩)]

theorem listedApart_sampleKeystore : ListedApart sampleKeystore sampleAlias where
  legible := by decide
  apart := by decide

/-- `root.pem` is recognised once it is imported. -/
theorem trust_checks_converge_root :
    ',' ∉ sampleAlias ∧ SampleCert.tools.fold sampleAlias = sampleAlias ∧
      ListedApart sampleKeystore sampleAlias ∧
      TrustConverges SampleCert.tools
        (updateCert SampleCert.tools sampleKeystore sampleDate sampleAlias .root)
        sampleAlias .root :=
  ⟨by decide, by decide, listedApart_sampleKeystore,
    (trust_checks_converge_iff SampleCert.tools listedApart_sampleKeystore (by decide) (by decide)
      (.refl _)).mpr ⟨by decide, by decide, by decide⟩⟩

/-- A certificate that is signed with SHA-384 is not. -/
theorem trust_checks_diverge_ecRoot :
    ¬ TrustConverges SampleCert.tools
      (updateCert SampleCert.tools [] sampleDate sampleAlias .ecRoot) sampleAlias .ecRoot := by
  intro h
  have hapart := wellListed_nil.listedApart (k := SampleCert.tools) sampleAlias
  exact absurd (signed_of_converges hapart (by decide) (.refl _) h).1 (by decide)

/-! ## The bundle of the other application -/

section

variable {trusted : List (Str × List UInt8)} {bundle : List κ} {i j : Nat}

theorem aliasText_remoteAlias (trusted : List (Str × List UInt8)) (i : Nat) :
    AliasText (remoteAlias trusted i) := by
  unfold remoteAlias
  split
  · exact AliasText.append (by decide) (aliasText_clusterAlias i)
  · exact aliasText_clusterAlias i

theorem listable_remoteAlias (trusted : List (Str × List UInt8)) (i : Nat) :
    Listable (remoteAlias trusted i) := by
  apply listable_of_plain _ (aliasText_remoteAlias trusted i)
  unfold remoteAlias
  split
  · simp [newPrefix]
  · simp [clusterAlias]

theorem fold_remoteAlias (k : CertTools κ) (trusted : List (Str × List UInt8)) (i : Nat) :
    k.fold (remoteAlias trusted i) = remoteAlias trusted i :=
  k.fold_plain _ (aliasText_remoteAlias trusted i)

theorem clusterAlias_injective (h : clusterAlias i = clusterAlias j) : i = j :=
  decimal_injective (List.append_cancel_left h)

theorem newClusterAlias_ne (i j : Nat) : newPrefix ++ clusterAlias i ≠ clusterAlias j := by
  intro h
  exact absurd (List.cons.inj h).1 (by decide)

theorem remoteAlias_injective (h : remoteAlias trusted i = remoteAlias trusted j) : i = j := by
  unfold remoteAlias at h
  split at h
  · split at h
    · exact clusterAlias_injective (List.append_cancel_left h)
    · exact absurd h (newClusterAlias_ne i j)
  · split at h
    · exact absurd h.symm (newClusterAlias_ne j i)
    · exact clusterAlias_injective h

theorem get?_updateRound (a : Str) : Dict.get? (updateRound k today trusted i t cert) a =
    if (k.load cert).certificateFingerprint ∉ trusted.map Prod.snd ∧ remoteAlias trusted i = a
    then some ⟨cert, today⟩ else Dict.get? t a := by
  unfold updateRound
  by_cases hin : (k.load cert).certificateFingerprint ∈ trusted.map Prod.snd
  · rw [if_pos hin, if_neg fun h => h.1 hin]
  · rw [if_neg hin, get?_updateCert, fold_remoteAlias k trusted i]
    by_cases ha : remoteAlias trusted i = a
    · rw [if_pos ha, if_pos ⟨hin, ha⟩]
    · rw [if_neg ha, if_neg fun h => ha h.2]

/-- The alias is written for a certificate of the bundle that is not recognised. -/
def Written (k : CertTools κ) (trusted : List (Str × List UInt8)) (i : Nat) (bundle : List κ)
    (cert : κ) (a : Str) : Prop :=
  ∃ j, bundle[j]? = some cert ∧ (k.load cert).certificateFingerprint ∉ trusted.map Prod.snd ∧
    a = remoteAlias trusted (i + j)

theorem written_cons {c : κ} {a : Str} : Written k trusted i (c :: bundle) cert a ↔
    (c = cert ∧ (k.load cert).certificateFingerprint ∉ trusted.map Prod.snd ∧
      a = remoteAlias trusted i) ∨ Written k trusted (i + 1) bundle cert a := by
  unfold Written
  constructor
  · rintro ⟨j, hj, hnew, ha⟩
    cases j with
    | zero => exact .inl ⟨Option.some.inj hj, hnew, ha⟩
    | succ j =>
      refine .inr ⟨j, hj, hnew, ?_⟩
      rw [ha, Nat.add_assoc, Nat.add_comm 1 j]
  · rintro (⟨rfl, hnew, ha⟩ | ⟨j, hj, hnew, ha⟩)
    · exact ⟨0, rfl, hnew, ha⟩
    · refine ⟨j + 1, hj, hnew, ?_⟩
      rw [ha, Nat.add_assoc, Nat.add_comm 1 j]

/-- **What the loop leaves under an alias**: the certificate that is written there, and
what was there before if none is. -/
theorem get?_updateFrom (today : Date) (t : Keystore κ) (a : Str) :
    (∀ cert, Written k trusted i bundle cert a →
      Dict.get? (updateFrom k today trusted i t bundle) a = some ⟨cert, today⟩) ∧
    ((∀ cert, ¬ Written k trusted i bundle cert a) →
      Dict.get? (updateFrom k today trusted i t bundle) a = Dict.get? t a) := by
  induction bundle generalizing i t with
  | nil =>
    refine ⟨?_, fun _ => rfl⟩
    rintro cert ⟨j, hj, -⟩
    simp at hj
  | cons c bundle ih =>
    obtain ⟨hwritten, hkept⟩ := ih (i := i + 1) (updateRound k today trusted i t c)
    have hlater : remoteAlias trusted i = a → ∀ cert, ¬ Written k trusted (i + 1) bundle cert a := by
      rintro rfl cert ⟨j, -, -, heq⟩
      have hij := remoteAlias_injective heq
      omega
    constructor
    · intro cert h
      rcases written_cons.mp h with ⟨rfl, hnew, ha⟩ | h
      · rw [updateFrom, hkept (hlater ha.symm), get?_updateRound, if_pos ⟨hnew, ha.symm⟩]
      · exact hwritten cert h
    · intro h
      rw [updateFrom, hkept fun cert hcert => h cert (written_cons.mpr (.inr hcert)),
        get?_updateRound, if_neg]
      rintro ⟨hnew, ha⟩
      exact h c (written_cons.mpr (.inl ⟨rfl, hnew, ha.symm⟩))

theorem WellListed.updateFrom (h : WellListed k t) (today : Date)
    (trusted : List (Str × List UInt8)) (i : Nat) (bundle : List κ) :
    WellListed k (updateFrom k today trusted i t bundle) := by
  induction bundle generalizing i t with
  | nil => exact h
  | cons c bundle ih =>
    apply ih
    unfold updateRound
    split
    · exact h
    · exact h.updateCert (listable_remoteAlias trusted i) (fold_remoteAlias k trusted i) today c

theorem WellListed.updated (h : WellListed k t) (today : Date) (bundle : List κ) :
    WellListed k (updated k today t bundle) :=
  h.updateFrom today (view k t) 0 bundle

theorem get?_updated_written {a : Str} (h : Written k (view k t) 0 bundle cert a) :
    Dict.get? (TlsManager.updated k today t bundle) a = some ⟨cert, today⟩ :=
  (get?_updateFrom today t a).1 cert h

theorem get?_updated_kept {a : Str} (h : ∀ cert, ¬ Written k (view k t) 0 bundle cert a) :
    Dict.get? (TlsManager.updated k today t bundle) a = Dict.get? t a :=
  (get?_updateFrom today t a).2 h

end

variable (k)

/-- A certificate of the bundle is written to the alias. -/
def Overwritten (t : Keystore κ) (bundle : List κ) (a : Str) : Prop :=
  ∃ i c, bundle[i]? = some c ∧ ¬ ((k.load c).SignedWithSha256 ∧ Trusts k t c) ∧
    a = remoteAlias (view k t) i

/-- Every certificate that is trusted stands under an alias that is not overwritten. -/
def Spares (t : Keystore κ) (bundle : List κ) : Prop :=
  ∀ e ∈ t, ∃ e' ∈ t, (k.load e'.2.cert).sha256 = (k.load e.2.cert).sha256 ∧
    ¬ Overwritten k t bundle e'.1

variable {k} {bundle : List κ}

theorem overwritten_iff {a : Str} :
    Overwritten k t bundle a ↔ ∃ cert, Written k (view k t) 0 bundle cert a := by
  constructor
  · rintro ⟨i, c, hi, hnew, ha⟩
    exact ⟨c, i, hi, fun h => hnew (mem_values_view.mp h), by rwa [Nat.zero_add]⟩
  · rintro ⟨c, i, hi, hnew, ha⟩
    exact ⟨i, c, hi, fun h => hnew (mem_values_view.mpr h), by rwa [Nat.zero_add] at ha⟩

/-- What is trusted under an alias that is not overwritten stays. -/
theorem trusts_updated_of_spares (h : WellListed k t) (hspares : Spares k t bundle)
    (hcert : Trusts k t cert) : Trusts k (updated k today t bundle) cert := by
  obtain ⟨e, he, hsame⟩ := hcert
  obtain ⟨⟨a, s⟩, he', hsame', hkept⟩ := hspares e he
  have hnone : ∀ c, ¬ Written k (view k t) 0 bundle c a :=
    fun c hc => hkept (overwritten_iff.mpr ⟨c, hc⟩)
  have hget : Dict.get? (updated k today t bundle) a = Dict.get? t a := get?_updated_kept hnone
  rw [(Dict.mem_iff_get? h.nodup).mp he'] at hget
  exact (trusts_iff (h.updated today bundle).nodup).mpr ⟨a, s, hget, hsame'.trans hsame⟩

/-- The certificates of the bundle that are not recognised are trusted afterwards. -/
theorem trusts_updated_of_new (h : WellListed k t) (hcert : cert ∈ bundle)
    (hnew : ¬ ((k.load cert).SignedWithSha256 ∧ Trusts k t cert)) :
    Trusts k (updated k today t bundle) cert := by
  obtain ⟨i, hi⟩ := List.mem_iff_getElem?.mp hcert
  have hwritten : Written k (view k t) 0 bundle cert (remoteAlias (view k t) (0 + i)) :=
    ⟨i, hi, fun hin => hnew (mem_values_view.mp hin), rfl⟩
  exact (trusts_iff (h.updated today bundle).nodup).mpr
    ⟨_, _, get?_updated_written hwritten, rfl⟩

/-- All of the bundle is trusted where what is trusted is spared. -/
theorem trusts_updated_bundle (h : WellListed k t) (hspares : Spares k t bundle)
    (hcert : cert ∈ bundle) : Trusts k (updated k today t bundle) cert := by
  by_cases hknown : (k.load cert).SignedWithSha256 ∧ Trusts k t cert
  · exact trusts_updated_of_spares h hspares hknown.2
  · exact trusts_updated_of_new h hcert hknown

/-- What is trusted afterwards was trusted before, or is in the bundle. -/
theorem trusts_of_trusts_updated (h : WellListed k t)
    (hcert : Trusts k (updated k today t bundle) cert) :
    Trusts k t cert ∨ ∃ c ∈ bundle, (k.load c).sha256 = (k.load cert).sha256 := by
  obtain ⟨a, s, hget, hsame⟩ := (trusts_iff (h.updated today bundle).nodup).mp hcert
  by_cases hwritten : ∃ c, Written k (view k t) 0 bundle c a
  · obtain ⟨c, hc⟩ := hwritten
    rw [get?_updated_written hc] at hget
    obtain rfl := Option.some.inj hget
    obtain ⟨i, hi, -⟩ := hc
    exact .inr ⟨c, List.mem_iff_getElem?.mpr ⟨i, hi⟩, hsame⟩
  · rw [get?_updated_kept fun c hc => hwritten ⟨c, hc⟩] at hget
    exact .inl ((trusts_iff h.nodup).mpr ⟨a, s, hget, hsame⟩)

/-- Where every certificate of the bundle is signed with SHA-256, keeping what is trusted
takes that it is spared: no certificate is written again. -/
theorem spares_of_trusts_updated (h : WellListed k t)
    (hsigned : ∀ c ∈ bundle, (k.load c).SignedWithSha256)
    (hkept : ∀ cert, Trusts k t cert → Trusts k (updated k today t bundle) cert) :
    Spares k t bundle := by
  intro e he
  have htrusts : Trusts k t e.2.cert := ⟨e, he, rfl⟩
  obtain ⟨a, s, hget, hsame⟩ :=
    (trusts_iff (h.updated today bundle).nodup).mp (hkept _ htrusts)
  have hnone : ∀ c, ¬ Written k (view k t) 0 bundle c a := by
    intro c hc
    rw [get?_updated_written hc] at hget
    obtain rfl := Option.some.inj hget
    obtain ⟨i, hi, hnew, -⟩ := hc
    refine hnew (mem_values_view.mpr ⟨hsigned c (List.mem_iff_getElem?.mpr ⟨i, hi⟩), e, he, ?_⟩)
    exact hsame.symm
  rw [get?_updated_kept hnone] at hget
  refine ⟨(a, s), (Dict.mem_iff_get? h.nodup).mpr hget, hsame, ?_⟩
  intro hover
  obtain ⟨c, hc⟩ := overwritten_iff.mp hover
  exact hnone c hc

/-- Nothing is written for a bundle exactly when all of it is recognised. An import puts
down its date, so it is a change even where the same certificate was there. -/
theorem updateFrom_eq_self_iff :
    (∀ today, updated k today t bundle = t) ↔
      ∀ c ∈ bundle, (k.load c).SignedWithSha256 ∧ Trusts k t c := by
  constructor
  · intro h c hc
    by_contra hnew
    obtain ⟨i, hi⟩ := List.mem_iff_getElem?.mp hc
    have hwritten : Written k (view k t) 0 bundle c (remoteAlias (view k t) (0 + i)) :=
      ⟨i, hi, fun hin => hnew (mem_values_view.mp hin), rfl⟩
    have hget : ∀ today, Dict.get? t (remoteAlias (view k t) (0 + i)) = some ⟨c, today⟩ := by
      intro today
      have hget : Dict.get? (updated k today t bundle) _ = some ⟨c, today⟩ :=
        get?_updated_written hwritten
      rwa [h today] at hget
    have hsame := (hget ⟨[], by simp⟩).symm.trans (hget ⟨['1'], by simp⟩)
    cases hsame
  · intro h today
    have hround : ∀ (cs : List κ) (i : Nat), (∀ c ∈ cs, c ∈ bundle) →
        updateFrom k today (view k t) i t cs = t := by
      intro cs
      induction cs with
      | nil => exact fun _ _ => rfl
      | cons c cs ih =>
        intro i hcs
        rw [updateFrom, updateRound, if_pos (mem_values_view.mpr (h c (hcs c List.mem_cons_self)))]
        exact ih (i + 1) fun d hd => hcs d (List.mem_cons_of_mem c hd)
    exact hround bundle 0 fun _ hc => hc

/-- A bundle that the other application publishes, and the day it is read. -/
structure TrustUpdate (κ : Type) where
  today : Date
  bundle : List κ

variable (k)

/-- `update_peer_cluster_trust`, for one bundle after another. -/
def runUpdates (t : Keystore κ) (us : List (TrustUpdate κ)) : Option (Keystore κ) :=
  us.foldlM (fun t u => updatePeerClusterTrust k u.today t u.bundle) t

/-- After the updates all is trusted that was before, and every bundle; and one more
update for the last of them leaves the truststore as it is. -/
def Survives (t : Keystore κ) (us : List (TrustUpdate κ)) : Prop :=
  ∃ t', runUpdates k t us = some t' ∧ (∀ cert, Trusts k t cert → Trusts k t' cert) ∧
    (∀ u ∈ us, ∀ cert ∈ u.bundle, Trusts k t' cert) ∧
    ∀ last, us.getLast? = some last → ∀ today,
      updatePeerClusterTrust k today t' last.bundle = some t'

/-- Every certificate of the bundle is signed with SHA-256, and what is trusted is spared. -/
structure StepSpares (t : Keystore κ) (u : TrustUpdate κ) : Prop where
  signed : ∀ c ∈ u.bundle, (k.load c).SignedWithSha256
  spares : Spares k t u.bundle

/-- Each update spares what is trusted when it is made. -/
def AllSpare : Keystore κ → List (TrustUpdate κ) → Prop
  | _, [] => True
  | t, u :: us => StepSpares k t u ∧
    ∀ t', updatePeerClusterTrust k u.today t u.bundle = some t' → AllSpare t' us

variable {k} {u : TrustUpdate κ} {us : List (TrustUpdate κ)} {t' : Keystore κ}

theorem survives_nil (t : Keystore κ) : Survives k t [] :=
  ⟨t, rfl, fun _ h => h, by simp, by simp⟩

theorem runUpdates_cons (hstep : updatePeerClusterTrust k u.today t u.bundle = some t') :
    runUpdates k t (u :: us) = runUpdates k t' us := by
  rw [runUpdates, List.foldlM_cons, hstep]
  rfl

/-- What one update does. -/
theorem survives_singleton (h : WellListed k t) (hspares : StepSpares k t u) :
    Survives k t [u] := by
  have hstep := updatePeerClusterTrust_eq h u.today u.bundle
  have hwell := h.updated u.today u.bundle
  have hbundle : ∀ c ∈ u.bundle, Trusts k (updated k u.today t u.bundle) c :=
    fun c hc => trusts_updated_bundle h hspares.spares hc
  refine ⟨_, (runUpdates_cons hstep).trans rfl, fun cert => trusts_updated_of_spares h hspares.spares,
    ?_, ?_⟩
  · intro x hx
    rwa [List.mem_singleton.mp hx]
  · intro last hlast today
    obtain rfl : u = last := Option.some.inj hlast
    rw [updatePeerClusterTrust_eq hwell]
    exact congrArg some (updateFrom_eq_self_iff.mpr
      (fun c hc => ⟨hspares.signed c hc, hbundle c hc⟩) today)

/-- An update that survives spares what was trusted. -/
theorem stepSpares_of_survives (h : WellListed k t) (hsurvives : Survives k t [u]) :
    StepSpares k t u := by
  have hstep := updatePeerClusterTrust_eq h u.today u.bundle
  have hwell := h.updated u.today u.bundle
  obtain ⟨t', hrun, hkept, -, hagain⟩ := hsurvives
  rw [runUpdates_cons hstep] at hrun
  obtain rfl := Option.some.inj hrun
  have hsame : ∀ today, updated k today (updated k u.today t u.bundle) u.bundle =
      updated k u.today t u.bundle := by
    intro today
    have hsome := hagain u rfl today
    rw [updatePeerClusterTrust_eq hwell] at hsome
    exact Option.some.inj hsome
  have hsigned : ∀ c ∈ u.bundle, (k.load c).SignedWithSha256 :=
    fun c hc => (updateFrom_eq_self_iff.mp hsame c hc).1
  exact ⟨hsigned, spares_of_trusts_updated h hsigned hkept⟩

/-- More updates behind the first. -/
theorem survives_cons (h : WellListed k t) (hfirst : Survives k t [u])
    (hrest : Survives k (updated k u.today t u.bundle) us) : Survives k t (u :: us) := by
  have hstep := updatePeerClusterTrust_eq h u.today u.bundle
  obtain ⟨t₁, hrun₁, hkept₁, hbundle₁, hagain₁⟩ := hfirst
  rw [runUpdates_cons hstep] at hrun₁
  obtain rfl : updated k u.today t u.bundle = t₁ := Option.some.inj hrun₁
  obtain ⟨t₂, hrun₂, hkept₂, hbundle₂, hagain₂⟩ := hrest
  refine ⟨t₂, (runUpdates_cons hstep).trans hrun₂, fun c hc => hkept₂ c (hkept₁ c hc), ?_, ?_⟩
  · intro x hx c hc
    rcases List.mem_cons.mp hx with rfl | hx
    · exact hkept₂ c (hbundle₁ x List.mem_cons_self c hc)
    · exact hbundle₂ x hx c hc
  · intro last hlast today
    cases us with
    | nil =>
      obtain rfl : updated k u.today t u.bundle = t₂ := Option.some.inj hrun₂
      exact hagain₁ last hlast today
    | cons u' us => exact hagain₂ last hlast today

/-- The updates behind the first, seen from where it leads. -/
theorem survives_of_cons (h : WellListed k t) (hall : Survives k t (u :: us)) :
    Survives k (updated k u.today t u.bundle) us := by
  have hstep := updatePeerClusterTrust_eq h u.today u.bundle
  obtain ⟨t₂, hrun, hkept, hbundle, hagain⟩ := hall
  rw [runUpdates_cons hstep] at hrun
  refine ⟨t₂, hrun, ?_, fun x hx => hbundle x (List.mem_cons_of_mem u hx), ?_⟩
  · intro c hc
    rcases trusts_of_trusts_updated h hc with hc | ⟨d, hd, hsame⟩
    · exact hkept c hc
    · obtain ⟨e, he, hd⟩ := hbundle u List.mem_cons_self d hd
      exact ⟨e, he, hd.trans hsame⟩
  · intro last hlast
    apply hagain last
    cases us with
    | nil => cases hlast
    | cons u' us => exact hlast

/-- **The bundles of the other application stay trusted**, whatever of them has been read,
exactly when each update spares what is trusted at that time. -/
theorem remote_cas_survive_iff (k : CertTools κ) {t : Keystore κ} (h : WellListed k t)
    (us : List (TrustUpdate κ)) :
    (∀ pre, pre <+: us → Survives k t pre) ↔ AllSpare k t us := by
  induction us generalizing t with
  | nil =>
    refine ⟨fun _ => trivial, fun _ pre hpre => ?_⟩
    rw [List.prefix_nil.mp hpre]
    exact survives_nil t
  | cons u us ih =>
    have hstep := updatePeerClusterTrust_eq h u.today u.bundle
    have hwell := h.updated u.today u.bundle
    constructor
    · intro hall
      refine ⟨stepSpares_of_survives h (hall [u] ⟨us, rfl⟩), fun t' ht' => ?_⟩
      rw [hstep] at ht'
      obtain rfl := Option.some.inj ht'
      refine (ih hwell).mp fun pre hpre => survives_of_cons h (hall (u :: pre) ?_)
      exact List.cons_prefix_cons.mpr ⟨rfl, hpre⟩
    · rintro ⟨hspares, hrest⟩ pre hpre
      cases pre with
      | nil => exact survives_nil t
      | cons x pre =>
        obtain ⟨rfl, htail⟩ := List.cons_prefix_cons.mp hpre
        exact survives_cons h (survives_singleton h hspares)
          ((ih hwell).mpr (hrest _ hstep) pre htail)

/-- A bundle of one certificate. -/
def sampleUpdate (cert : SampleCert) : TrustUpdate SampleCert := ⟨sampleDate, [cert]⟩

/-- The first rotation of the other application. -/
theorem remote_cas_first_rotation :
    WellListed SampleCert.tools [] ∧
      ∀ pre, pre <+: [sampleUpdate .root, sampleUpdate .intermediate] →
        Survives SampleCert.tools [] pre := by
  refine ⟨wellListed_nil, (remote_cas_survive_iff SampleCert.tools wellListed_nil _).mpr ?_⟩
  refine ⟨⟨by decide +kernel, by simp [Spares]⟩, fun t₁ ht₁ => ?_⟩
  obtain rfl : [(clusterAlias 0, ⟨.root, sampleDate⟩)] = t₁ := by
    rw [updatePeerClusterTrust_eq wellListed_nil] at ht₁
    exact Eq.trans (by decide +kernel) (Option.some.inj ht₁)
  refine ⟨⟨by decide +kernel, ?_⟩, fun _ _ => trivial⟩
  intro e he
  refine ⟨e, he, rfl, ?_⟩
  obtain rfl := List.mem_singleton.mp he
  rintro ⟨i, c, hi, -, ha⟩
  cases i with
  | zero => exact absurd ha (by decide +kernel)
  | succ i => cases hi

/-- The second takes the alias of the first: `int.pem` is no longer trusted. -/
theorem remote_cas_second_rotation :
    ¬ Survives SampleCert.tools []
      [sampleUpdate .root, sampleUpdate .intermediate, sampleUpdate .nextRoot] := by
  have hrun : runUpdates SampleCert.tools []
      [sampleUpdate .root, sampleUpdate .intermediate, sampleUpdate .nextRoot] =
      some [(clusterAlias 0, ⟨.root, sampleDate⟩),
        (newPrefix ++ clusterAlias 0, ⟨.nextRoot, sampleDate⟩)] := by
    rw [runUpdates_cons (updatePeerClusterTrust_eq wellListed_nil _ _),
      runUpdates_cons (updatePeerClusterTrust_eq (wellListed_nil.updated _ _) _ _),
      runUpdates_cons (updatePeerClusterTrust_eq ((wellListed_nil.updated _ _).updated _ _) _ _)]
    decide +kernel
  rintro ⟨t', hrun', -, hbundles, -⟩
  rw [hrun] at hrun'
  obtain rfl := Option.some.inj hrun'
  obtain ⟨e, he, hsame⟩ := hbundles (sampleUpdate .intermediate) (by simp) .intermediate
    List.mem_cons_self
  simp only [List.mem_cons, List.not_mem_nil, or_false] at he
  rcases he with rfl | rfl
  · exact absurd hsame (by decide +kernel)
  · exact absurd hsame (by decide +kernel)

end TlsManager

end KafkaCharm
