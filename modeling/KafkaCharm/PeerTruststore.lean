import KafkaCharm.Certificates
import KafkaCharm.Lib.Dict

/-! What `TLSManager` writes to `peer-truststore.jks`: the unit's own bundle under `bundle{i}`, the
bundle it had before under `old-bundle{i}`, and the bundle of the other application under
`cluster-tls{i}` or, where that alias is taken, under `new-cluster-tls{i}`. -/

namespace KafkaCharm

/-- A certificate. Fingerprints are collision free, so it stands for its own. -/
inductive Cert where
  | leaf (serial : Nat)
  | authority (key : Nat)
  deriving DecidableEq, Repr

/-- What the certificates hold. The charm asks its providers for certificates of leaves, and
makes such a one for itself. -/
structure Certs where
  profile : Cert → CertProfile
  leaf : ∀ serial, (profile (.leaf serial)).isValidLeafCertificate = true

/-- CAs that say so, and certificates that are signed with SHA-256. -/
def usualCerts : Certs where
  profile
    | .leaf _ => ⟨some .sha256, some false, none⟩
    | .authority _ => ⟨some .sha256, some true, some ⟨true, true⟩⟩
  leaf _ := rfl

/-- `TLSManager.is_valid_leaf_certificate`. -/
def Certs.isValidLeafCertificate (k : Certs) (c : Cert) : Bool :=
  (k.profile c).isValidLeafCertificate

/-- The fingerprint of the certificate is one of those that `keytool` gives. It is taken with
the hash algorithm of the signature, so it is found only where that is SHA-256. -/
def Certs.recognises (k : Certs) (fingerprints : List Cert) (c : Cert) : Bool :=
  decide (k.profile c).SignedWithSha256 && decide (c ∈ fingerprints)

theorem Certs.recognises_iff {k : Certs} {fingerprints : List Cert} {c : Cert} :
    k.recognises fingerprints c = true ↔
      (k.profile c).SignedWithSha256 ∧ c ∈ fingerprints := by
  rw [Certs.recognises, Bool.and_eq_true, decide_eq_true_eq, decide_eq_true_eq]

/-- The certificate, CA and chain of a unit, in the peer scope. -/
structure PeerCerts where
  certificate : Cert
  ca : Nat
  chain : List Cert
  deriving DecidableEq, Repr

/-- `TLSState.bundle`: each certificate once, where it first stands. -/
def PeerCerts.bundle (c : PeerCerts) : List Cert :=
  ([c.certificate, .authority c.ca] ++ c.chain).eraseDups

theorem PeerCerts.certificate_mem_bundle (c : PeerCerts) : c.certificate ∈ c.bundle := by
  simp [PeerCerts.bundle, List.mem_eraseDups]

theorem PeerCerts.ca_mem_bundle (c : PeerCerts) : Cert.authority c.ca ∈ c.bundle := by
  simp [PeerCerts.bundle, List.mem_eraseDups]

inductive Alias where
  | bundle (i : Nat)
  | oldBundle (i : Nat)
  | clusterTls (i : Nat)
  | newClusterTls (i : Nat)
  deriving DecidableEq, Repr

/-- The alias starts with `old-` or `new-`. -/
def Alias.isTemporary : Alias → Bool
  | .oldBundle _ | .newClusterTls _ => true
  | .bundle _ | .clusterTls _ => false

/-- The entries of the truststore file; there is no file when there is no entry. -/
abbrev Truststore := List (Alias × Cert)

namespace Truststore

/-- The values of `TLSManager.peer_trusted_certificates`. -/
def certs (t : Truststore) : List Cert := t.map Prod.snd

/-- `TLSManager.peer_truststore_has_temporary_aliases`. -/
def hasTemporaryAliases (t : Truststore) : Bool := (Dict.keys t).any Alias.isTemporary

/-- `TLSManager.import_cert`: an alias that already exists is left alone. -/
def importCert (t : Truststore) (label : Alias) (cert : Cert) : Truststore :=
  if label ∈ Dict.keys t then t else t ++ [(label, cert)]

/-- The loop of `TLSManager.import_bundle`, from position `i` of the bundle on. -/
def importBundleFrom (label : Nat → Alias) : Nat → Truststore → List Cert → Truststore
  | _, t, [] => t
  | i, t, c :: cs => importBundleFrom label (i + 1) (t.importCert (label i) c) cs

/-- `TLSManager.import_bundle`, with the aliases of the prefix. -/
def importBundle (t : Truststore) (label : Nat → Alias) (bundle : List Cert) : Truststore :=
  importBundleFrom label 0 t bundle

/-- `TLSManager.update_cert`. -/
def updateCert (t : Truststore) (label : Alias) (cert : Cert) : Truststore :=
  importCert (Dict.erase t label) label cert

/-- The alias under which certificate `i` of the remote bundle is imported. -/
def remoteAlias (trusted : Truststore) (i : Nat) : Alias :=
  if Alias.clusterTls i ∈ Dict.keys trusted then .newClusterTls i else .clusterTls i

/-- The loop of `update_peer_cluster_trust`. What is trusted is listed once, before it. -/
def updateFrom (k : Certs) (trusted : Truststore) : Nat → Truststore → List Cert → Truststore
  | _, t, [] => t
  | i, t, c :: cs =>
    updateFrom k trusted (i + 1)
      (if k.recognises trusted.certs c then t else t.updateCert (remoteAlias trusted i) c) cs

/-- `TLSManager.update_peer_cluster_trust`, for the remote bundle. -/
def updatePeerClusterTrust (k : Certs) (t : Truststore) (remote : List Cert) : Truststore :=
  updateFrom k t 0 t remote

/-- `TLSManager.configure` on a unit whose stores were removed, and
`rebuild_truststore`: the own bundle and the remote one. -/
def build (k : Certs) (own remote : List Cert) : Truststore :=
  (importBundle [] .bundle own).updatePeerClusterTrust k remote

variable {k : Certs} {t trusted : Truststore} {label : Alias} {c cert : Cert}

/-! ## Imports -/

theorem mem_importCert {e : Alias × Cert} (h : e ∈ t) : e ∈ t.importCert label cert := by
  unfold importCert
  split
  · exact h
  · exact List.mem_append_left _ h

theorem certs_importCert (h : c ∈ (t.importCert label cert).certs) : c ∈ t.certs ∨ c = cert := by
  unfold importCert at h
  split at h
  · exact .inl h
  · simpa [certs] using h

theorem keys_importCert {a : Alias} :
    a ∈ Dict.keys (t.importCert label cert) ↔ a ∈ Dict.keys t ∨ a = label := by
  unfold importCert
  by_cases hin : label ∈ Dict.keys t
  · rw [if_pos hin]
    constructor
    · exact .inl
    · rintro (h | rfl)
      · exact h
      · exact hin
  · rw [if_neg hin]
    simp [Dict.keys]

theorem mem_importBundleFrom {f : Nat → Alias} {bundle : List Cert} {i : Nat}
    {e : Alias × Cert} (h : e ∈ t) : e ∈ importBundleFrom f i t bundle := by
  induction bundle generalizing i t with
  | nil => exact h
  | cons c cs ih => exact ih (mem_importCert h)

theorem certs_importBundleFrom {f : Nat → Alias} {bundle : List Cert} {i : Nat}
    (h : c ∈ (importBundleFrom f i t bundle).certs) : c ∈ t.certs ∨ c ∈ bundle := by
  induction bundle generalizing i t with
  | nil => exact .inl h
  | cons b bs ih =>
    cases ih h with
    | inl hin =>
      cases certs_importCert hin with
      | inl ht => exact .inl ht
      | inr hc => exact .inr (by simp [hc])
    | inr hin => exact .inr (List.mem_cons_of_mem b hin)

theorem certs_importBundle {f : Nat → Alias} {bundle : List Cert}
    (h : c ∈ (t.importBundle f bundle).certs) : c ∈ t.certs ∨ c ∈ bundle :=
  certs_importBundleFrom h

/-- Where its aliases are free, all of a bundle is imported. -/
theorem mem_importBundleFrom_of_free {f : Nat → Alias} (hf : f.Injective) {bundle : List Cert}
    {i : Nat} (hfree : ∀ k, i ≤ k → f k ∉ Dict.keys t) (h : c ∈ bundle) :
    ∃ k, (f k, c) ∈ importBundleFrom f i t bundle := by
  induction bundle generalizing i t with
  | nil => cases h
  | cons b bs ih =>
    unfold importBundleFrom
    by_cases hc : c = b
    · refine ⟨i, mem_importBundleFrom ?_⟩
      unfold importCert
      rw [if_neg (hfree i (Nat.le_refl i)), hc]
      exact List.mem_append_right _ List.mem_cons_self
    · apply ih _ (List.mem_of_ne_of_mem hc h)
      intro k hk hin
      cases keys_importCert.mp hin with
      | inl hold => exact hfree k (by omega) hold
      | inr heq =>
        have := hf heq
        omega

/-- The aliases of a bundle are there after its import. -/
theorem keys_importBundle {f : Nat → Alias} {bundle : List Cert} (hne : bundle ≠ []) :
    f 0 ∈ Dict.keys (t.importBundle f bundle) := by
  cases bundle with
  | nil => exact absurd rfl hne
  | cons b bs =>
    have hhead : f 0 ∈ Dict.keys (t.importCert (f 0) b) := keys_importCert.mpr (.inr rfl)
    obtain ⟨e, he, hfst⟩ := List.mem_map.mp hhead
    have hmem : e ∈ importBundleFrom f 1 (t.importCert (f 0) b) bs := mem_importBundleFrom he
    exact List.mem_map.mpr ⟨e, hmem, hfst⟩

theorem nodup_importCert (h : Dict.NodupKeys t) : Dict.NodupKeys (t.importCert label cert) := by
  unfold importCert
  split
  · exact h
  · rename_i hfree
    rw [← Dict.set_of_notMem hfree]
    exact h.set _ _

theorem nodup_importBundleFrom {f : Nat → Alias} {bundle : List Cert} {i : Nat}
    (h : Dict.NodupKeys t) : Dict.NodupKeys (importBundleFrom f i t bundle) := by
  induction bundle generalizing i t with
  | nil => exact h
  | cons b bs ih => exact ih (nodup_importCert h)

/-! ## The remote bundle -/

theorem updateFrom_of_recognised {remote : List Cert} {i : Nat}
    (h : ∀ c ∈ remote, k.recognises trusted.certs c = true) :
    updateFrom k trusted i t remote = t := by
  induction remote generalizing i t with
  | nil => rfl
  | cons c cs ih =>
    unfold updateFrom
    rw [if_pos (h c List.mem_cons_self)]
    exact ih fun d hd => h d (List.mem_cons_of_mem c hd)

theorem updatePeerClusterTrust_of_recognised {remote : List Cert}
    (h : ∀ c ∈ remote, k.recognises t.certs c = true) : t.updatePeerClusterTrust k remote = t :=
  updateFrom_of_recognised h

theorem keys_updateCert {a : Alias} (h : a ∈ Dict.keys t) :
    a ∈ Dict.keys (t.updateCert label cert) := by
  unfold updateCert
  rw [keys_importCert, Dict.mem_keys_erase]
  by_cases ha : a = label
  · exact .inr ha
  · exact .inl ⟨ha, h⟩

theorem keys_updateFrom {remote : List Cert} {i : Nat} {a : Alias} (h : a ∈ Dict.keys t) :
    a ∈ Dict.keys (updateFrom k trusted i t remote) := by
  induction remote generalizing i t with
  | nil => exact h
  | cons r rs ih =>
    unfold updateFrom
    apply ih
    split
    · exact h
    · exact keys_updateCert h

theorem nodup_updateFrom {remote : List Cert} {i : Nat} (h : Dict.NodupKeys t) :
    Dict.NodupKeys (updateFrom k trusted i t remote) := by
  induction remote generalizing i t with
  | nil => exact h
  | cons r rs ih =>
    unfold updateFrom
    apply ih
    split
    · exact h
    · exact nodup_importCert (h.erase _)

theorem nodup_build (k : Certs) (own remote : List Cert) : Dict.NodupKeys (build k own remote) :=
  nodup_updateFrom (nodup_importBundleFrom .nil)

theorem remoteAlias_injective (trusted : Truststore) : (remoteAlias trusted).Injective := by
  intro i k h
  unfold remoteAlias at h
  split at h <;> split at h
  · exact Alias.newClusterTls.inj h
  · cases h
  · cases h
  · exact Alias.clusterTls.inj h

/-- An entry under none of the aliases that are written is kept. -/
theorem mem_updateFrom {remote : List Cert} {i : Nat} {e : Alias × Cert} (h : e ∈ t)
    (hother : ∀ k, i ≤ k → e.1 ≠ remoteAlias trusted k) : e ∈ updateFrom k trusted i t remote := by
  induction remote generalizing i t with
  | nil => exact h
  | cons r rs ih =>
    unfold updateFrom
    apply ih
    · split
      · exact h
      · apply mem_importCert
        exact List.mem_filter.mpr ⟨h, by simpa using hother i (Nat.le_refl i)⟩
    · intro k hk
      exact hother k (by omega)

/-- What was not trusted is imported. -/
theorem mem_updateFrom_of_missing {remote : List Cert} {i : Nat} (h : c ∈ remote)
    (hmissing : k.recognises trusted.certs c = false) : c ∈ (updateFrom k trusted i t remote).certs := by
  induction remote generalizing i t with
  | nil => cases h
  | cons r rs ih =>
    unfold updateFrom
    by_cases hc : c = r
    · have hset : (remoteAlias trusted i, c) ∈ t.updateCert (remoteAlias trusted i) c := by
        have hfree : remoteAlias trusted i ∉ Dict.keys (Dict.erase t (remoteAlias trusted i)) := by
          rw [Dict.mem_keys_erase]
          exact fun h => h.1 rfl
        unfold updateCert importCert
        rw [if_neg hfree]
        exact List.mem_append_right _ List.mem_cons_self
      rw [← hc, if_neg (by simp [hmissing])]
      refine List.mem_map.mpr ⟨_, mem_updateFrom hset ?_, rfl⟩
      intro k hk heq
      have := remoteAlias_injective trusted heq
      omega
    · exact ih (List.mem_of_ne_of_mem hc h)

/-- A truststore built anew trusts the own bundle and the remote one. -/
theorem certs_build {own remote : List Cert} (h : c ∈ own ++ remote) :
    c ∈ (build k own remote).certs := by
  have hfree : ∀ k, 0 ≤ k → Alias.bundle k ∉ Dict.keys ([] : Truststore) := by
    intro k _ hin
    cases hin
  by_cases hown : c ∈ own
  · obtain ⟨k, hk⟩ := mem_importBundleFrom_of_free (fun _ _ => Alias.bundle.inj) hfree hown
    refine List.mem_map.mpr ⟨_, mem_updateFrom hk ?_, rfl⟩
    intro k' _ heq
    unfold remoteAlias at heq
    split at heq <;> cases heq
  · have hremote : c ∈ remote := (List.mem_append.mp h).resolve_left hown
    apply mem_updateFrom_of_missing hremote
    rw [← Bool.not_eq_true]
    intro hin
    cases certs_importBundle (Certs.recognises_iff.mp hin).2 with
    | inl hnil => cases hnil
    | inr h => exact hown h

theorem hasTemporaryAliases_updatePeerClusterTrust {remote : List Cert}
    (h : t.hasTemporaryAliases = true) :
    (t.updatePeerClusterTrust k remote).hasTemporaryAliases = true := by
  obtain ⟨a, ha, htemp⟩ := List.any_eq_true.mp h
  exact List.any_eq_true.mpr ⟨a, keys_updateFrom ha, htemp⟩

/-- A bundle kept under its old aliases is temporary. -/
theorem hasTemporaryAliases_importOld {bundle : List Cert} (hne : bundle ≠ []) :
    (t.importBundle .oldBundle bundle).hasTemporaryAliases = true :=
  List.any_eq_true.mpr ⟨.oldBundle 0, keys_importBundle hne, rfl⟩

end Truststore

end KafkaCharm
