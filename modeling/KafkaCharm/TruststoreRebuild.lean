import KafkaCharm.TruststoreUpdates

namespace KafkaCharm

open PyText

namespace TlsManager

/-- The peer scope in the configuration directory: the certificates in
`peer-{alias}.pem`, by the alias, and `peer-truststore.jks`. -/
structure PeerDir (κ : Type) where
  files : List (Str × κ)
  truststore : Keystore κ
  deriving DecidableEq, Repr

variable {κ : Type} (k : CertTools κ)

/-- `TLSManager.remove_stores`. -/
def removeStores : PeerDir κ := ⟨[], []⟩

/-- `TLSManager.set_chain`, from position `i` of the bundle on. -/
def setChainFrom : Nat → List (Str × κ) → List κ → List (Str × κ)
  | _, files, [] => files
  | i, files, c :: cs => setChainFrom (i + 1) (Dict.set files (bundleAlias i) c) cs

/-- A round of `TLSManager.import_bundle`. A file that exists is not written again, and it
is the file that is imported. -/
def importRound (today : Date) (aliasPrefix : Str) (i : Nat) (d : PeerDir κ) (c : κ) : PeerDir κ :=
  let label := aliasPrefix ++ bundleAlias i
  let files := if label ∈ Dict.keys d.files then d.files else Dict.set d.files label c
  let content := (Dict.get? files label).getD c
  ⟨files, importCert k d.truststore today label content⟩

/-- The loop of `TLSManager.import_bundle`, from position `i` of the bundle on. -/
def importBundleFrom (today : Date) (aliasPrefix : Str) : Nat → PeerDir κ → List κ → PeerDir κ
  | _, d, [] => d
  | i, d, c :: cs =>
    importBundleFrom today aliasPrefix (i + 1) (importRound k today aliasPrefix i d c) cs

/-- `TLSManager.import_bundle`. -/
def importBundle (today : Date) (aliasPrefix : Str) (d : PeerDir κ) (bundle : List κ) :
    PeerDir κ :=
  importBundleFrom k today aliasPrefix 0 d bundle

/-! ## Imports of a bundle -/

section

variable {k} {today : Date} {d : PeerDir κ} {pre : Str} {bundle : List κ} {i : Nat}

theorem bundleAlias_injective (pre : Str) {i j : Nat} (h : pre ++ bundleAlias i = pre ++ bundleAlias j) : i = j :=
  decimal_injective (List.append_cancel_left (List.append_cancel_left h))

/-- The file of the alias holds the certificate after a round, if it did not hold another. -/
theorem get?_files_importRound (k : CertTools κ) (today : Date) {c : κ}
    (hfile : ∀ f, Dict.get? d.files (pre ++ bundleAlias i) = some f → f = c) (a : Str) :
    Dict.get? (importRound k today pre i d c).files a =
      if pre ++ bundleAlias i = a then some c else Dict.get? d.files a := by
  dsimp only [importRound]
  by_cases hin : pre ++ bundleAlias i ∈ Dict.keys d.files
  · obtain ⟨f, hf⟩ := Option.ne_none_iff_exists'.mp (Dict.mem_keys_iff.mp hin)
    obtain rfl := hfile f hf
    rw [if_pos hin]
    split
    · rename_i heq
      rw [← heq, hf]
    · rfl
  · rw [if_neg hin, Dict.get?_set]

theorem truststore_importRound (k : CertTools κ) (today : Date) {c : κ}
    (hfile : ∀ f, Dict.get? d.files (pre ++ bundleAlias i) = some f → f = c) :
    (importRound k today pre i d c).truststore =
      importCert k d.truststore today (pre ++ bundleAlias i) c := by
  have hcontent := get?_files_importRound k today hfile (pre ++ bundleAlias i)
  rw [if_pos rfl] at hcontent
  dsimp only [importRound] at hcontent ⊢
  rw [hcontent, Option.getD_some]

/-- Where the alias is free, and a file for it holds the certificate, it is imported. -/
theorem get?_importRound (k : CertTools κ) (today : Date) (hpre : AliasText pre) {c : κ}
    (hfree : pre ++ bundleAlias i ∉ Dict.keys d.truststore)
    (hfile : ∀ f, Dict.get? d.files (pre ++ bundleAlias i) = some f → f = c) (a : Str) :
    Dict.get? (importRound k today pre i d c).truststore a =
        (if pre ++ bundleAlias i = a then some ⟨c, today⟩ else Dict.get? d.truststore a) ∧
      Dict.get? (importRound k today pre i d c).files a =
        if pre ++ bundleAlias i = a then some c else Dict.get? d.files a := by
  have hfold : k.fold (pre ++ bundleAlias i) = pre ++ bundleAlias i :=
    k.fold_plain _ (hpre.append (aliasText_bundleAlias i))
  refine ⟨?_, get?_files_importRound k today hfile a⟩
  rw [truststore_importRound k today hfile, importCert, hfold, if_neg hfree, Dict.get?_append]
  by_cases ha : pre ++ bundleAlias i = a
  · have hnone : Dict.get? d.truststore a = none := by
      by_contra hsome
      exact hfree (ha ▸ Dict.mem_keys_iff.mpr hsome)
    simp [ha, hnone, Dict.get?_cons]
  · simp [ha, Dict.get?_cons]

/-- **What an import leaves**: the certificates of the bundle under their aliases, and the
rest as it was. -/
theorem get?_importBundleFrom (today : Date) (hpre : AliasText pre)
    (hfree : ∀ j, i ≤ j → pre ++ bundleAlias j ∉ Dict.keys d.truststore)
    (hfiles : ∀ j c, bundle[j]? = some c →
      ∀ f, Dict.get? d.files (pre ++ bundleAlias (i + j)) = some f → f = c) :
    (∀ j c, bundle[j]? = some c →
      Dict.get? (importBundleFrom k today pre i d bundle).truststore (pre ++ bundleAlias (i + j)) =
        some ⟨c, today⟩) ∧
    ∀ a, (∀ j, i ≤ j → a ≠ pre ++ bundleAlias j) →
      Dict.get? (importBundleFrom k today pre i d bundle).truststore a = Dict.get? d.truststore a ∧
      Dict.get? (importBundleFrom k today pre i d bundle).files a = Dict.get? d.files a := by
  induction bundle generalizing i d with
  | nil => exact ⟨fun j c h => by simp at h, fun _ _ => ⟨rfl, rfl⟩⟩
  | cons b bundle ih =>
    have hround := get?_importRound k today hpre (hfree i (Nat.le_refl i)) (hfiles 0 b rfl)
    have hne : ∀ j, i < j → pre ++ bundleAlias i ≠ pre ++ bundleAlias j := by
      intro j hj heq
      have hij := bundleAlias_injective pre heq
      omega
    obtain ⟨hwritten, hkept⟩ := ih (i := i + 1) (d := importRound k today pre i d b)
      (by
        intro j hj
        rw [Dict.mem_keys_iff, (hround _).1, if_neg (hne j hj), ← Dict.mem_keys_iff]
        exact hfree j (by omega))
      (by
        intro j c hj f hf
        rw [(hround _).2, if_neg (hne _ (by omega))] at hf
        exact hfiles (j + 1) c hj f (by rwa [Nat.add_assoc, Nat.add_comm 1 j] at hf))
    constructor
    · intro j c hj
      cases j with
      | zero =>
        obtain rfl : b = c := Option.some.inj hj
        have hget := (hkept _ hne).1
        rwa [(hround _).1, if_pos rfl] at hget
      | succ j =>
        have hget := hwritten j c hj
        rwa [Nat.add_assoc, Nat.add_comm 1 j] at hget
    · intro a ha
      have hother := hkept a fun j hj => ha j (by omega)
      have hfirst : ¬ pre ++ bundleAlias i = a := fun heq => ha i (Nat.le_refl i) heq.symm
      rw [importBundleFrom, hother.1, hother.2, (hround a).1, (hround a).2, if_neg hfirst,
        if_neg hfirst]
      exact ⟨rfl, rfl⟩

theorem WellListed.importCert {t : Keystore κ} {label : Str} (h : WellListed k t)
    (hne : label ≠ []) (hplain : AliasText label) (today : Date) (c : κ) :
    WellListed k (importCert k t today label c) := by
  have hfold := k.fold_plain label hplain
  unfold TlsManager.importCert
  rw [hfold]
  split
  · exact h
  · rename_i hfree
    have hset := Dict.set_of_notMem hfree (⟨c, today⟩ : Stored κ)
    rw [← hset]
    refine ⟨fun a ha => ?_, fun a ha => ?_, h.nodup.set _ _⟩
    · rcases Dict.mem_keys_set.mp ha with rfl | ha
      · exact listable_of_plain hne hplain
      · exact h.listable a ha
    · rcases Dict.mem_keys_set.mp ha with rfl | ha
      · exact hfold
      · exact h.folded a ha

theorem WellListed.importBundleFrom (hpre : AliasText pre) (h : WellListed k d.truststore)
    (today : Date) (i : Nat) (bundle : List κ) :
    WellListed k (importBundleFrom k today pre i d bundle).truststore := by
  induction bundle generalizing i d with
  | nil => exact h
  | cons c bundle ih =>
    apply ih
    exact h.importCert (by simp [bundleAlias]) (hpre.append (aliasText_bundleAlias i)) today _

/-- An import under aliases that are free keeps what is trusted, and adds the bundle. -/
theorem trusts_importBundle (hpre : AliasText pre) (h : WellListed k d.truststore) (today : Date)
    (hfree : ∀ j, pre ++ bundleAlias j ∉ Dict.keys d.truststore)
    (hfiles : ∀ j, ∀ c ∈ bundle[j]?, ∀ f, Dict.get? d.files (pre ++ bundleAlias j) = some f → f = c) :
    (∀ c, Trusts k d.truststore c → Trusts k (importBundle k today pre d bundle).truststore c) ∧
      ∀ c ∈ bundle, Trusts k (importBundle k today pre d bundle).truststore c := by
  have hwell := h.importBundleFrom hpre today 0 bundle
  obtain ⟨hwritten, hkept⟩ := get?_importBundleFrom (k := k) (i := 0) today hpre
    (fun j _ => hfree j) (fun j c hj => by rw [Nat.zero_add]; exact hfiles j c hj)
  constructor
  · intro c hc
    obtain ⟨a, s, hget, hsame⟩ := (trusts_iff h.nodup).mp hc
    have hother : ∀ j, 0 ≤ j → a ≠ pre ++ bundleAlias j := by
      rintro j - rfl
      exact hfree j (Dict.mem_keys_iff.mpr (by simp [hget]))
    exact (trusts_iff hwell.nodup).mpr ⟨a, s, (hkept a hother).1.trans hget, hsame⟩
  · intro c hc
    obtain ⟨j, hj⟩ := List.mem_iff_getElem?.mp hc
    exact (trusts_iff hwell.nodup).mpr ⟨_, _, hwritten j c hj, rfl⟩

/-- What `set_chain` writes. -/
theorem get?_setChainFrom (files : List (Str × κ)) (i : Nat) (bundle : List κ) :
    (∀ j c, bundle[j]? = some c →
      Dict.get? (setChainFrom i files bundle) (bundleAlias (i + j)) = some c) ∧
    ∀ a, (∀ j, i ≤ j → a ≠ bundleAlias j) →
      Dict.get? (setChainFrom i files bundle) a = Dict.get? files a := by
  induction bundle generalizing i files with
  | nil => exact ⟨fun j c h => by simp at h, fun _ _ => rfl⟩
  | cons b bundle ih =>
    obtain ⟨hwritten, hkept⟩ := ih (Dict.set files (bundleAlias i) b) (i + 1)
    have hne : ∀ j, i + 1 ≤ j → bundleAlias i ≠ bundleAlias j := by
      intro j hj heq
      have hij := bundleAlias_injective [] heq
      omega
    constructor
    · intro j c hj
      cases j with
      | zero =>
        obtain rfl : b = c := Option.some.inj hj
        have hget := hkept (bundleAlias i) hne
        rwa [Dict.get?_set, if_pos rfl] at hget
      | succ j =>
        have hget := hwritten j c hj
        rwa [Nat.add_assoc, Nat.add_comm 1 j] at hget
    · intro a ha
      have hfirst : ¬ bundleAlias i = a := fun heq => ha i (Nat.le_refl i) heq.symm
      rw [setChainFrom, hkept a fun j hj => ha j (by omega), Dict.get?_set, if_neg hfirst]

/-- The bundle of the unit in stores that were removed. -/
def freshDir (k : CertTools κ) (today : Date) (bundle : List κ) : PeerDir κ :=
  importBundle k today [] ⟨setChainFrom 0 [] bundle, []⟩ bundle

theorem freshDir_trusts (k : CertTools κ) (today : Date) (bundle : List κ) :
    WellListed k (freshDir k today bundle).truststore ∧
      (∀ c ∈ bundle, Trusts k (freshDir k today bundle).truststore c) ∧
      (∀ a ∈ Dict.keys (freshDir k today bundle).truststore, ∃ j, a = bundleAlias j) ∧
      ∀ a ∈ Dict.keys (freshDir k today bundle).files, ∃ j, a = bundleAlias j := by
  have hempty : AliasText [] := by decide
  obtain ⟨hchain, hothers⟩ := get?_setChainFrom [] 0 bundle
  have hfile : ∀ j c, bundle[j]? = some c → ∀ f,
      Dict.get? (setChainFrom 0 [] bundle) ([] ++ bundleAlias (0 + j)) = some f → f = c := by
    intro j c hj f hf
    have hget := (hchain j c hj).symm.trans hf
    exact (Option.some.inj hget).symm
  have hrest : ∀ a, (∀ j, a ≠ bundleAlias j) →
      Dict.get? (freshDir k today bundle).truststore a = none ∧
      Dict.get? (freshDir k today bundle).files a = none := by
    intro a ha
    have hkept := (get?_importBundleFrom (k := k) today hempty (i := 0)
      (d := ⟨setChainFrom 0 [] bundle, []⟩) (fun j _ h => by cases h) hfile).2 a fun j _ => ha j
    exact ⟨hkept.1, hkept.2.trans (hothers a fun j _ => ha j)⟩
  refine ⟨wellListed_nil.importBundleFrom hempty today 0 bundle, ?_, ?_, ?_⟩
  · refine (trusts_importBundle hempty wellListed_nil today (fun j h => by cases h) ?_).2
    intro j c hj f hf
    exact hfile j c hj f (by rwa [Nat.zero_add])
  · intro a ha
    by_contra hnone
    exact Dict.mem_keys_iff.mp ha (hrest a fun j heq => hnone ⟨j, heq⟩).1
  · intro a ha
    by_contra hnone
    exact Dict.mem_keys_iff.mp ha (hrest a fun j heq => hnone ⟨j, heq⟩).2

theorem aliasText_oldPrefix : AliasText oldPrefix := by decide

/-- The old bundle is imported into stores that were configured anew. -/
theorem trusts_oldBundle {d : PeerDir κ} (hwell : WellListed k d.truststore) (today : Date)
    (bundle : List κ) (hfree : ∀ j, oldPrefix ++ bundleAlias j ∉ Dict.keys d.truststore)
    (hfiles : ∀ j, oldPrefix ++ bundleAlias j ∉ Dict.keys d.files) :
    (∀ c, Trusts k d.truststore c →
      Trusts k (importBundle k today oldPrefix d bundle).truststore c) ∧
      ∀ c ∈ bundle, Trusts k (importBundle k today oldPrefix d bundle).truststore c := by
  apply trusts_importBundle aliasText_oldPrefix hwell today hfree
  intro j c _ f hf
  exact absurd (Dict.mem_keys_iff.mpr (by simp [hf])) (hfiles j)

end

/-! ## The handlers -/

/-- What a unit holds for its peer scope. `remote` is what the other application
publishes; there is none in KRaft single mode. -/
structure PeerScope (κ : Type) where
  certificate : Option κ
  ca : Option κ
  chain : List κ
  rotate : Bool
  remote : Option (List κ)
  dir : PeerDir κ
  deriving DecidableEq, Repr

variable [DecidableEq κ]

/-- `TLSState.bundle`: each certificate once, where it first stands. -/
def PeerScope.bundle (s : PeerScope κ) : List κ :=
  match s.certificate, s.ca with
  | some certificate, some ca => ([certificate, ca] ++ s.chain).eraseDups
  | _, _ => []

/-- `ClusterState.peer_cluster_ca`. -/
def PeerScope.peerClusterCa (s : PeerScope κ) : List κ := s.remote.getD s.bundle

/-- `TLSManager.configure`, in the peer scope: `set_chain`, `set_truststore` and
`update_peer_cluster_trust`. -/
def configure (today : Date) (s : PeerScope κ) : Option (PeerScope κ) := do
  let files := setChainFrom 0 s.dir.files s.bundle
  let d := importBundle k today [] { s.dir with files := files } s.bundle
  let truststore ← updatePeerClusterTrust k today d.truststore s.peerClusterCa
  return { s with dir := { d with truststore := truststore } }

/-- The certificate, CA and chain of a `CertificateAvailableEvent`. -/
structure CertificateAvailable (κ : Type) where
  certificate : κ
  ca : κ
  chain : List κ
  deriving DecidableEq, Repr

/-- `TLSHandler._handle_certificate_available_event`, in the peer scope. -/
def handleCertificateAvailable (today : Date) (s : PeerScope κ) (e : CertificateAvailable κ) :
    Option (PeerScope κ) := do
  let certificateChanged := s.certificate.any (· ≠ e.certificate)
  let caChanged := s.ca.any (· ≠ e.ca)
  let changed : PeerScope κ :=
    { s with certificate := some e.certificate, ca := some e.ca, chain := e.chain }
  let configured ← configure k today { changed with dir := removeStores }
  let dir :=
    if caChanged then importBundle k today oldPrefix configured.dir s.bundle else configured.dir
  return { configured with
    dir := dir
    rotate := s.rotate || certificateChanged || caChanged }

/-- `TLSHandler._tls_relation_broken`, in the peer scope. `selfSigned` is the certificate and
the CA that `generate_self_signed_certificate` returns, if the internal CA is set up. -/
def tlsRelationBroken (today : Date) (s : PeerScope κ) (selfSigned : Option (κ × κ)) :
    Option (PeerScope κ) := do
  let cleared : PeerScope κ :=
    { s with certificate := none, ca := none, chain := [], dir := removeStores }
  let configured ←
    match selfSigned with
    | none => some cleared
    | some (certificate, ca) =>
      configure k today { cleared with certificate := some certificate, ca := some ca }
  return { configured with
    dir := importBundle k today oldPrefix configured.dir s.bundle
    rotate := true }

variable {k}

theorem oldBundleAlias_ne_bundleAlias (i j : Nat) : oldPrefix ++ bundleAlias i ≠ bundleAlias j := by
  intro h
  exact absurd (List.cons.inj h).1 (by decide)

theorem remoteAlias_ne_bundleAlias (trusted : List (Str × List UInt8)) (i j : Nat) :
    remoteAlias trusted i ≠ bundleAlias j ∧ remoteAlias trusted i ≠ oldPrefix ++ bundleAlias j := by
  unfold remoteAlias
  split
  · exact ⟨fun h => absurd (List.cons.inj h).1 (by decide),
      fun h => absurd (List.cons.inj h).1 (by decide)⟩
  · exact ⟨fun h => absurd (List.cons.inj h).1 (by decide),
      fun h => absurd (List.cons.inj h).1 (by decide)⟩

/-- `configure` on stores that were removed. -/
theorem configure_removed (k : CertTools κ) (today : Date) {s : PeerScope κ}
    (hs : s.dir = removeStores) : configure k today s = some { s with
      dir := ⟨(freshDir k today s.bundle).files,
        updated k today (freshDir k today s.bundle).truststore s.peerClusterCa⟩ } := by
  obtain ⟨hwell, -⟩ := freshDir_trusts k today s.bundle
  have hconfigure : configure k today s =
      (updatePeerClusterTrust k today (freshDir k today s.bundle).truststore s.peerClusterCa).bind
        fun t => some { s with dir := ⟨(freshDir k today s.bundle).files, t⟩ } := by
    rw [configure, hs]
    rfl
  rw [hconfigure, updatePeerClusterTrust_eq hwell]
  rfl

/-- **Stores that are configured anew** trust the bundle of the unit and the one of the
other application, and leave the aliases of an old bundle free. -/
theorem configured_trusts (k : CertTools κ) (today : Date) {s : PeerScope κ}
    (hs : s.dir = removeStores) :
    ∃ d, configure k today s = some { s with dir := d } ∧ WellListed k d.truststore ∧
      (∀ c ∈ s.bundle, Trusts k d.truststore c) ∧
      (∀ c ∈ s.peerClusterCa, Trusts k d.truststore c) ∧
      (∀ j, oldPrefix ++ bundleAlias j ∉ Dict.keys d.truststore) ∧
      ∀ j, oldPrefix ++ bundleAlias j ∉ Dict.keys d.files := by
  obtain ⟨hwell, hbundle, hkeys, hfiles⟩ := freshDir_trusts k today s.bundle
  -- The aliases of the bundle are none of those that the other application's is put under.
  have hspares : Spares k (freshDir k today s.bundle).truststore s.peerClusterCa := by
    intro e he
    refine ⟨e, he, rfl, ?_⟩
    rintro ⟨i, c, -, -, ha⟩
    obtain ⟨j, hj⟩ := hkeys e.1 (List.mem_map.mpr ⟨e, he, rfl⟩)
    exact (remoteAlias_ne_bundleAlias _ i j).1 (ha.symm.trans hj)
  refine ⟨_, configure_removed k today hs, hwell.updated today _,
    fun c hc => trusts_updated_of_spares hwell hspares (hbundle c hc),
    fun c hc => trusts_updated_bundle hwell hspares hc, fun j hmem => ?_, fun j hmem => ?_⟩
  · have hnone : ∀ c, ¬ Written k (view k (freshDir k today s.bundle).truststore) 0
        s.peerClusterCa c (oldPrefix ++ bundleAlias j) := by
      rintro c ⟨i, -, -, ha⟩
      exact (remoteAlias_ne_bundleAlias _ _ j).2 ha.symm
    rw [Dict.mem_keys_iff, get?_updated_kept hnone, ← Dict.mem_keys_iff] at hmem
    obtain ⟨i, hi⟩ := hkeys _ hmem
    exact oldBundleAlias_ne_bundleAlias j i hi
  · obtain ⟨i, hi⟩ := hfiles _ hmem
    exact oldBundleAlias_ne_bundleAlias j i hi

/-- What the handlers keep trusted: the new bundle of the unit, the bundle that the other
application publishes and, if it is kept, the old bundle of the unit. -/
structure TrustKept (k : CertTools κ) (before after : PeerScope κ) (keepsOld : Prop) : Prop where
  own : ∀ c ∈ after.bundle, Trusts k after.dir.truststore c
  remote : ∀ bundle, before.remote = some bundle → ∀ c ∈ bundle, Trusts k after.dir.truststore c
  old : keepsOld → ∀ c ∈ before.bundle, Trusts k after.dir.truststore c

/-- **A new certificate** leaves the new bundle and the published one of the other
application trusted, and the old bundle if the CA has changed. -/
theorem certificateAvailable_keeps (k : CertTools κ) (today : Date) (s : PeerScope κ)
    (e : CertificateAvailable κ) :
    ∃ s', handleCertificateAvailable k today s e = some s' ∧
      TrustKept k s s' (∃ ca, s.ca = some ca ∧ ca ≠ e.ca) := by
  obtain ⟨d, hconfigure, hwell, hown, hremote, hfree, hfiles⟩ :=
    configured_trusts k today (s := { s with
      certificate := some e.certificate, ca := some e.ca, chain := e.chain, dir := removeStores }) rfl
  obtain ⟨hkept, hold⟩ := trusts_oldBundle hwell today s.bundle hfree hfiles
  rw [handleCertificateAvailable, hconfigure]
  have hdir : ∀ c, Trusts k d.truststore c → Trusts k (if s.ca.any (· ≠ e.ca) then
      importBundle k today oldPrefix d s.bundle else d).truststore c := by
    intro c hc
    split
    · exact hkept c hc
    · exact hc
  refine ⟨_, rfl, fun c hc => hdir c (hown c hc), fun bundle hbundle c hc => ?_, ?_⟩
  · exact hdir c (hremote c (by simpa [PeerScope.peerClusterCa, hbundle] using hc))
  · rintro ⟨ca, hca, hne⟩ c hc
    have hchanged : s.ca.any (· ≠ e.ca) = true := by simp [hca, hne]
    simpa only [hchanged, if_true] using hold c hc

/-- **A broken relation** leaves them and the old bundle trusted, if the internal CA is
set up. -/
theorem tlsRelationBroken_keeps (k : CertTools κ) (today : Date) (s : PeerScope κ)
    (selfSigned : κ × κ) :
    ∃ s', tlsRelationBroken k today s (some selfSigned) = some s' ∧ TrustKept k s s' True := by
  obtain ⟨d, hconfigure, hwell, hown, hremote, hfree, hfiles⟩ :=
    configured_trusts k today (s := { s with
      certificate := some selfSigned.1, ca := some selfSigned.2, chain := [],
      dir := removeStores }) rfl
  obtain ⟨hkept, hold⟩ := trusts_oldBundle hwell today s.bundle hfree hfiles
  rw [tlsRelationBroken]
  simp only
  rw [hconfigure]
  refine ⟨_, rfl, fun c hc => hkept c (hown c hc), fun bundle hbundle c hc => ?_,
    fun _ c hc => hold c hc⟩
  exact hkept c (hremote c (by simpa [PeerScope.peerClusterCa, hbundle] using hc))

/-- **What the handlers keep trusted.** -/
theorem rebuilt_stores_trust (k : CertTools κ) (today : Date) (s : PeerScope κ) :
    (∀ e, ∃ s', handleCertificateAvailable k today s e = some s' ∧
      TrustKept k s s' (∃ ca, s.ca = some ca ∧ ca ≠ e.ca)) ∧
    ∀ selfSigned, ∃ s', tlsRelationBroken k today s (some selfSigned) = some s' ∧
      TrustKept k s s' True :=
  ⟨certificateAvailable_keeps k today s, tlsRelationBroken_keeps k today s⟩

/-- A unit with the old CA of the other application, `root.pem`, and its new one, `int.pem`,
in the truststore. -/
def midRotation : PeerScope SampleCert where
  certificate := some .ecRoot
  ca := some .nextRoot
  chain := []
  rotate := false
  remote := some [.intermediate]
  dir := ⟨[(bundleAlias 0, .ecRoot), (bundleAlias 1, .nextRoot)],
    [(bundleAlias 0, ⟨.ecRoot, sampleDate⟩), (bundleAlias 1, ⟨.nextRoot, sampleDate⟩),
      (clusterAlias 0, ⟨.root, sampleDate⟩),
      (newPrefix ++ clusterAlias 0, ⟨.intermediate, sampleDate⟩)]⟩

/-- A new certificate of the same CA: the old CA of the other application and the old
certificate of the unit are no longer trusted. -/
theorem renewal_drops_certificates :
    (clusterAlias 0, (⟨.root, sampleDate⟩ : Stored SampleCert)) ∈ midRotation.dir.truststore ∧
      .ecRoot ∈ midRotation.bundle ∧
      ∃ s', handleCertificateAvailable SampleCert.tools sampleDate midRotation
          ⟨.nextRoot, .nextRoot, []⟩ = some s' ∧
        ¬ Trusts SampleCert.tools s'.dir.truststore .root ∧
        ¬ Trusts SampleCert.tools s'.dir.truststore .ecRoot := by
  refine ⟨by simp [midRotation], by decide, ?_⟩
  rw [handleCertificateAvailable, configure_removed _ _ rfl]
  exact ⟨_, rfl, by decide +kernel, by decide +kernel⟩

end TlsManager

end KafkaCharm
