import KafkaCharm.PeerTls
import KafkaCharm.TruststoreRebuild

/-! The truststore of a unit names certificates by what they are and aliases by what they are for.
The file holds texts under aliases in the spelling of `keytool`, and what is trusted is read off
its listing. Every operation on the file is the one on the truststore it holds. -/

namespace KafkaCharm

open PyText

variable {κ : Type} {k : CertTools κ} {p : Certs}

/-- The alias as it is given to `keytool`. -/
def Alias.text : Alias → Str
  | .bundle i => TlsManager.bundleAlias i
  | .oldBundle i => TlsManager.oldPrefix ++ TlsManager.bundleAlias i
  | .clusterTls i => TlsManager.clusterAlias i
  | .newClusterTls i => TlsManager.newPrefix ++ TlsManager.clusterAlias i

theorem Alias.text_ne_nil (a : Alias) : a.text ≠ [] := by
  cases a <;> simp [text, TlsManager.bundleAlias, TlsManager.clusterAlias]

theorem Alias.aliasText (a : Alias) : AliasText a.text := by
  cases a with
  | bundle i => exact TlsManager.aliasText_bundleAlias i
  | oldBundle i => exact TlsManager.aliasText_oldPrefix.append (TlsManager.aliasText_bundleAlias i)
  | clusterTls i => exact TlsManager.aliasText_clusterAlias i
  | newClusterTls i => exact AliasText.append (by decide) (TlsManager.aliasText_clusterAlias i)

theorem Alias.fold_text (k : CertTools κ) (a : Alias) : k.fold a.text = a.text :=
  k.fold_plain _ a.aliasText

theorem Alias.listable_text (a : Alias) : TlsManager.Listable a.text :=
  TlsManager.listable_of_plain a.text_ne_nil a.aliasText

theorem Alias.text_injective : Function.Injective Alias.text := by
  have hfirst : ∀ {c d : Char} {s t : Str}, c :: s = d :: t → c = d :=
    fun h => (List.cons.inj h).1
  intro a b h
  cases a <;> cases b
  case bundle.bundle i j => rw [TlsManager.bundleAlias_injective [] h]
  case oldBundle.oldBundle i j => rw [TlsManager.bundleAlias_injective _ h]
  case clusterTls.clusterTls i j => rw [TlsManager.clusterAlias_injective h]
  case newClusterTls.newClusterTls i j =>
    rw [TlsManager.clusterAlias_injective (List.append_cancel_left h)]
  all_goals exact absurd (hfirst h) (by decide)

/-- The texts of certificates. No two of those that the units come by have the same
SHA-256 digest. -/
structure Certs.Texts (p : Certs) (k : CertTools κ) where
  text : Cert → κ
  known : Cert → Prop
  profile : ∀ c, known c → (k.load (text c)).toCertProfile = p.profile c
  distinct : ∀ c d, known c → known d → (k.load (text c)).sha256 = (k.load (text d)).sha256 → c = d

namespace Certs.Texts

variable (n : p.Texts k)

def Known (cs : List Cert) : Prop := ∀ c ∈ cs, n.known c

/-- The file holds the truststore. -/
structure Holds (f : TlsManager.Keystore κ) (t : Truststore) : Prop where
  entries : f.map (fun e => (e.1, e.2.cert)) = t.map fun e => (e.1.text, n.text e.2)
  known : n.Known t.certs

variable {n} {f : TlsManager.Keystore κ} {t trusted : Truststore} {c d : Cert}

theorem text_inj (hc : n.known c) (hd : n.known d) : n.text c = n.text d ↔ c = d := by
  constructor
  · intro h
    exact n.distinct c d hc hd (by rw [h])
  · rintro rfl
    rfl

theorem Holds.nil : n.Holds [] [] := ⟨rfl, fun _ h => by cases h⟩

theorem Holds.keys (h : n.Holds f t) : Dict.keys f = (Dict.keys t).map Alias.text := by
  have hfirst := congrArg (List.map Prod.fst) h.entries
  rw [List.map_map, List.map_map] at hfirst
  rw [Dict.keys, Dict.keys, List.map_map]
  exact hfirst

theorem Holds.mem_keys (h : n.Holds f t) (a : Alias) : a.text ∈ Dict.keys f ↔ a ∈ Dict.keys t := by
  rw [h.keys]
  exact List.mem_map_of_injective Alias.text_injective

theorem Holds.certs (h : n.Holds f t) : f.map (fun e => e.2.cert) = t.certs.map n.text := by
  have hsecond := congrArg (List.map Prod.snd) h.entries
  rw [List.map_map, List.map_map] at hsecond
  rw [Truststore.certs, List.map_map]
  exact hsecond

/-! ## Single entries -/

theorem Holds.importCert (h : n.Holds f t) (today : TlsManager.Date) (a : Alias)
    (hc : n.known c) :
    n.Holds (TlsManager.importCert k f today a.text (n.text c)) (t.importCert a c) := by
  have hknown : n.Known (t.importCert a c).certs := by
    intro d hd
    cases Truststore.certs_importCert hd with
    | inl hold => exact h.known d hold
    | inr heq => exact heq ▸ hc
  refine ⟨?_, hknown⟩
  unfold TlsManager.importCert Truststore.importCert
  rw [a.fold_text k]
  by_cases ha : a ∈ Dict.keys t
  · rw [if_pos ((h.mem_keys a).mpr ha), if_pos ha]
    exact h.entries
  · rw [if_neg fun hin => ha ((h.mem_keys a).mp hin), if_neg ha, List.map_append, List.map_append,
      h.entries]
    rfl

theorem Holds.removeCert (h : n.Holds f t) (a : Alias) :
    n.Holds (TlsManager.removeCert k f a.text) (Dict.erase t a) := by
  have hfile : (Dict.erase f a.text).map (fun e => (e.1, e.2.cert)) =
      (f.map fun e => (e.1, e.2.cert)).filter fun e => e.1 ≠ a.text := by
    rw [List.filter_map]
    rfl
  have hstore : (Dict.erase t a).map (fun e => (e.1.text, n.text e.2)) =
      (t.map fun e => (e.1.text, n.text e.2)).filter fun e => e.1 ≠ a.text := by
    rw [List.filter_map]
    congr 1
    apply List.filter_congr
    intro e _
    simp [Alias.text_injective.eq_iff]
  constructor
  · rw [TlsManager.removeCert, a.fold_text k, hfile, hstore, h.entries]
  · intro c hc
    obtain ⟨e, he, rfl⟩ := List.mem_map.mp hc
    exact h.known _ (List.mem_map_of_mem (List.mem_of_mem_filter he))

theorem Holds.updateCert (h : n.Holds f t) (today : TlsManager.Date) (a : Alias)
    (hc : n.known c) :
    n.Holds (TlsManager.updateCert k f today a.text (n.text c)) (t.updateCert a c) :=
  (h.removeCert a).importCert today a hc

/-! ## Bundles -/

/-- Where the files of the aliases do not hold another certificate. -/
theorem Holds.importBundleFrom {label : Nat → Alias} {pre : Str}
    (hlabel : ∀ i, (label i).text = pre ++ TlsManager.bundleAlias i) (today : TlsManager.Date)
    {d : TlsManager.PeerDir κ} {bundle : List Cert} {i : Nat} (h : n.Holds d.truststore t)
    (hbundle : n.Known bundle)
    (hfiles : ∀ j c, bundle[j]? = some c →
      ∀ f, Dict.get? d.files (pre ++ TlsManager.bundleAlias (i + j)) = some f → f = n.text c) :
    n.Holds (TlsManager.importBundleFrom k today pre i d (bundle.map n.text)).truststore
      (Truststore.importBundleFrom label i t bundle) := by
  induction bundle generalizing i d t with
  | nil => exact h
  | cons c cs ih =>
    have hfile : ∀ f, Dict.get? d.files (pre ++ TlsManager.bundleAlias i) = some f → f = n.text c :=
      hfiles 0 c rfl
    have hround := h.importCert today (label i) (hbundle c List.mem_cons_self)
    rw [hlabel, ← TlsManager.truststore_importRound k today hfile] at hround
    apply ih hround fun b hb => hbundle b (List.mem_cons_of_mem c hb)
    intro j b hj f hf
    have hne : pre ++ TlsManager.bundleAlias i ≠ pre ++ TlsManager.bundleAlias (i + 1 + j) := by
      intro heq
      have hij := TlsManager.bundleAlias_injective pre heq
      omega
    rw [TlsManager.get?_files_importRound k today hfile, if_neg hne] at hf
    exact hfiles (j + 1) b hj f (by rwa [Nat.add_assoc, Nat.add_comm 1 j] at hf)

theorem Holds.importBundle {label : Nat → Alias} {pre : Str}
    (hlabel : ∀ i, (label i).text = pre ++ TlsManager.bundleAlias i) (today : TlsManager.Date)
    {d : TlsManager.PeerDir κ} {bundle : List Cert} (h : n.Holds d.truststore t)
    (hbundle : n.Known bundle)
    (hfiles : ∀ j c, bundle[j]? = some c →
      ∀ f, Dict.get? d.files (pre ++ TlsManager.bundleAlias j) = some f → f = n.text c) :
    n.Holds (TlsManager.importBundle k today pre d (bundle.map n.text)).truststore
      (t.importBundle label bundle) := by
  apply h.importBundleFrom hlabel today hbundle
  intro j c hj
  rw [Nat.zero_add]
  exact hfiles j c hj

theorem Holds.trusts_iff (h : n.Holds f t) (hc : n.known c) :
    TlsManager.Trusts k f (n.text c) ↔ c ∈ t.certs := by
  constructor
  · rintro ⟨e, he, hsame⟩
    have hmem : e.2.cert ∈ t.certs.map n.text := h.certs ▸ List.mem_map_of_mem he
    obtain ⟨d, hd, htext⟩ := List.mem_map.mp hmem
    rw [← htext] at hsame
    exact n.distinct d c (h.known d hd) hc hsame ▸ hd
  · intro hin
    have hmem : n.text c ∈ f.map fun e => e.2.cert := h.certs ▸ List.mem_map_of_mem hin
    obtain ⟨e, he, htext⟩ := List.mem_map.mp hmem
    exact ⟨e, he, by rw [htext]⟩

/-- The fingerprint is among the listed ones where the certificate is recognised. -/
theorem Holds.recognises_iff (h : n.Holds f t) (hc : n.known c) :
    (k.load (n.text c)).certificateFingerprint ∈ (TlsManager.view k f).map Prod.snd ↔
      p.recognises t.certs c = true := by
  rw [TlsManager.mem_values_view, Certs.recognises_iff, n.profile c hc, h.trusts_iff hc]

theorem Holds.wellListed (h : n.Holds f t) (hnodup : Dict.NodupKeys t) :
    TlsManager.WellListed k f where
  listable a ha := by
    rw [h.keys] at ha
    obtain ⟨b, -, rfl⟩ := List.mem_map.mp ha
    exact b.listable_text
  folded a ha := by
    rw [h.keys] at ha
    obtain ⟨b, -, rfl⟩ := List.mem_map.mp ha
    exact b.fold_text k
  nodup := by
    rw [Dict.NodupKeys, h.keys]
    exact hnodup.map Alias.text_injective

theorem Holds.remoteAlias (h : n.Holds f trusted) (i : Nat) :
    TlsManager.remoteAlias (TlsManager.view k f) i = (Truststore.remoteAlias trusted i).text := by
  have hmem : TlsManager.clusterAlias i ∈ Dict.keys f ↔ Alias.clusterTls i ∈ Dict.keys trusted :=
    h.mem_keys (.clusterTls i)
  unfold TlsManager.remoteAlias Truststore.remoteAlias
  rw [TlsManager.keys_view]
  by_cases hin : Alias.clusterTls i ∈ Dict.keys trusted
  · rw [if_pos hin, if_pos (hmem.mpr hin)]
    rfl
  · rw [if_neg hin, if_neg fun htext => hin (hmem.mp htext)]
    rfl

theorem Holds.updateFrom {f₀ : TlsManager.Keystore κ} (hbefore : n.Holds f₀ trusted)
    (today : TlsManager.Date) {remote : List Cert} {i : Nat} (h : n.Holds f t)
    (hremote : n.Known remote) :
    n.Holds (TlsManager.updateFrom k today (TlsManager.view k f₀) i f (remote.map n.text))
      (Truststore.updateFrom p trusted i t remote) := by
  induction remote generalizing i f t with
  | nil => exact h
  | cons c cs ih =>
    have hc := hremote c List.mem_cons_self
    apply ih _ fun b hb => hremote b (List.mem_cons_of_mem c hb)
    unfold TlsManager.updateRound
    by_cases hin : p.recognises trusted.certs c = true
    · rw [if_pos ((hbefore.recognises_iff hc).mpr hin), if_pos hin]
      exact h
    · rw [if_neg fun hmem => hin ((hbefore.recognises_iff hc).mp hmem), if_neg hin,
        hbefore.remoteAlias]
      exact h.updateCert today _ hc

theorem Holds.updated (h : n.Holds f t) (today : TlsManager.Date) {remote : List Cert}
    (hremote : n.Known remote) :
    n.Holds (TlsManager.updated k today f (remote.map n.text))
      (t.updatePeerClusterTrust p remote) :=
  h.updateFrom today h hremote

theorem holds_freshDir (today : TlsManager.Date) {bundle : List Cert} (hbundle : n.Known bundle) :
    n.Holds (TlsManager.freshDir k today (bundle.map n.text)).truststore
      (Truststore.importBundle [] .bundle bundle) := by
  apply Holds.importBundle (fun _ => rfl) today .nil hbundle
  intro j c hj f hf
  obtain ⟨hchain, -⟩ := TlsManager.get?_setChainFrom [] 0 (bundle.map n.text)
  have htext : (bundle.map n.text)[j]? = some (n.text c) := by simp [hj]
  have hget := hchain j _ htext
  rw [Nat.zero_add] at hget
  exact Option.some.inj (hf.symm.trans hget)

/-! ## Handlers -/

variable [DecidableEq κ] {s : TlsManager.PeerScope κ} {u : PeerUnit}

/-- Each text once is each certificate once. -/
theorem map_eraseDups {cs : List Cert} (h : n.Known cs) :
    (cs.map n.text).eraseDups = cs.eraseDups.map n.text := by
  induction hlength : cs.length using Nat.strong_induction_on generalizing cs with
  | _ m ih =>
    cases cs with
    | nil => rfl
    | cons c cs =>
      have hrest : (cs.map n.text).filter (fun b => !b == n.text c) =
          (cs.filter fun b => !b == c).map n.text := by
        rw [List.filter_map]
        congr 1
        apply List.filter_congr
        intro b hb
        simp [text_inj (h b (List.mem_cons_of_mem c hb)) (h c List.mem_cons_self)]
      have hshorter : (cs.filter fun b => !b == c).length < m := by
        rw [← hlength]
        exact Nat.lt_succ_of_le (List.length_filter_le _ _)
      have hknown : n.Known (cs.filter fun b => !b == c) :=
        fun b hb => h b (List.mem_cons_of_mem c (List.mem_of_mem_filter hb))
      rw [List.map_cons, List.eraseDups_cons, List.eraseDups_cons, hrest, ih _ hshorter hknown rfl,
        List.map_cons]

/-- The scope of a unit holds these certificates. -/
structure Carries (n : p.Texts k) (s : TlsManager.PeerScope κ) (certs : PeerCerts) : Prop where
  certificate : s.certificate = some (n.text certs.certificate)
  ca : s.ca = some (n.text (.authority certs.ca))
  chain : s.chain = certs.chain.map n.text
  known : n.Known certs.bundle

theorem Carries.bundle {certs : PeerCerts} (h : n.Carries s certs) :
    s.bundle = certs.bundle.map n.text := by
  have hknown : n.Known ([certs.certificate, .authority certs.ca] ++ certs.chain) :=
    fun c hc => h.known c (List.mem_eraseDups.mpr hc)
  rw [TlsManager.PeerScope.bundle, h.certificate, h.ca]
  simp only
  rw [h.chain, PeerCerts.bundle, ← map_eraseDups hknown]
  simp

/-- The scope is that of the unit: its certificates, the data of the other application and
the truststore. -/
structure Describes (n : p.Texts k) (s : TlsManager.PeerScope κ) (u : PeerUnit) : Prop where
  certs : n.Carries s u.certs
  rotate : s.rotate = u.databag.rotate
  remote : s.remote = some (u.remote.ca.map n.text)
  knownRemote : n.Known u.remote.ca
  truststore : n.Holds s.dir.truststore u.truststore
  nodup : Dict.NodupKeys u.truststore

/-- **`update_peer_cluster_trust`** does to the file what it does to the truststore. -/
theorem Describes.updatePeerClusterTrust (h : n.Describes s u) (today : TlsManager.Date)
    (now : Nat) :
    ∃ f, TlsManager.updatePeerClusterTrust k today s.dir.truststore s.peerClusterCa = some f ∧
      n.Describes { s with dir := { s.dir with truststore := f } }
        (u.updatePeerClusterTrust p now) := by
  have hca : s.peerClusterCa = u.remote.ca.map n.text := by
    simp [TlsManager.PeerScope.peerClusterCa, h.remote]
  have hwell := h.truststore.wellListed h.nodup
  rw [hca, TlsManager.updatePeerClusterTrust_eq hwell]
  refine ⟨_, rfl, ?_, h.rotate, h.remote, h.knownRemote, ?_, ?_⟩
  · exact ⟨h.certs.certificate, h.certs.ca, h.certs.chain, h.certs.known⟩
  · exact h.truststore.updated today h.knownRemote
  · exact Truststore.nodup_updateFrom h.nodup

/-- The scope with new certificates and without stores. -/
def scope (n : p.Texts k) (s : TlsManager.PeerScope κ) (certs : PeerCerts) :
    TlsManager.PeerScope κ :=
  { s with
    certificate := some (n.text certs.certificate)
    ca := some (n.text (.authority certs.ca))
    chain := certs.chain.map n.text
    dir := TlsManager.removeStores }

/-- **`configure`** on stores that were removed builds the truststore anew. -/
theorem Describes.configured (h : n.Describes s u) (today : TlsManager.Date) {certs : PeerCerts}
    (hcerts : n.Known certs.bundle) :
    ∃ d, TlsManager.configure k today (n.scope s certs) = some { n.scope s certs with dir := d } ∧
      n.Holds d.truststore (.build p certs.bundle u.remote.ca) ∧
      ∀ j, TlsManager.oldPrefix ++ TlsManager.bundleAlias j ∉ Dict.keys d.files := by
  obtain ⟨d, hconfigure, -, -, -, -, hfiles⟩ :=
    TlsManager.configured_trusts k today (s := n.scope s certs) rfl
  have heq := hconfigure.symm.trans (TlsManager.configure_removed k today rfl)
  have hd : d.truststore = TlsManager.updated k today _ _ :=
    congrArg (·.dir.truststore) (Option.some.inj heq)
  have hcarries : n.Carries (n.scope s certs) certs := ⟨rfl, rfl, rfl, hcerts⟩
  have hca : (n.scope s certs).peerClusterCa = u.remote.ca.map n.text := by
    simp [TlsManager.PeerScope.peerClusterCa, scope, h.remote]
  refine ⟨d, hconfigure, ?_, hfiles⟩
  rw [hd, hcarries.bundle, hca]
  exact (holds_freshDir today hcerts).updated today h.knownRemote

/-- The old bundle is imported where none of its files is there. -/
theorem Describes.importOld (h : n.Describes s u) (today : TlsManager.Date)
    {d : TlsManager.PeerDir κ} (hd : n.Holds d.truststore t)
    (hfiles : ∀ j, TlsManager.oldPrefix ++ TlsManager.bundleAlias j ∉ Dict.keys d.files) :
    n.Holds (TlsManager.importBundle k today TlsManager.oldPrefix d s.bundle).truststore
      (t.importBundle .oldBundle u.certs.bundle) := by
  rw [h.certs.bundle]
  apply hd.importBundle (fun _ => rfl) today h.certs.known
  intro j c _ f hf
  exact absurd (Dict.mem_keys_iff.mpr (by simp [hf])) (hfiles j)

/-- **A new certificate** does to the scope of a unit what it does to the unit. -/
theorem Describes.handleCertificateAvailable (h : n.Describes s u) (today : TlsManager.Date)
    (now : Nat) {certs : PeerCerts} (hcerts : n.Known certs.bundle) :
    ∃ s', TlsManager.handleCertificateAvailable k today s
        ⟨n.text certs.certificate, n.text (.authority certs.ca), certs.chain.map n.text⟩ = some s' ∧
      n.Describes s' (u.handleCertificateAvailable p now certs) := by
  obtain ⟨d, hconfigure, hd, hfiles⟩ := h.configured today hcerts
  have hcertificate : s.certificate.any (· ≠ n.text certs.certificate) =
      decide (certs.certificate ≠ u.certs.certificate) := by
    have hinj := text_inj (h.certs.known _ u.certs.certificate_mem_bundle)
      (hcerts _ certs.certificate_mem_bundle)
    simp [h.certs.certificate, hinj, eq_comm]
  have hca : s.ca.any (· ≠ n.text (.authority certs.ca)) = decide (certs.ca ≠ u.certs.ca) := by
    have hinj := text_inj (h.certs.known _ u.certs.ca_mem_bundle) (hcerts _ certs.ca_mem_bundle)
    simp [h.certs.ca, hinj, eq_comm]
  unfold scope at hconfigure
  rw [TlsManager.handleCertificateAvailable]
  simp only
  rw [hconfigure, hcertificate, hca]
  refine ⟨_, rfl, ⟨rfl, rfl, rfl, hcerts⟩, ?_, h.remote, h.knownRemote, ?_,
    PeerUnit.nodup_install p u now certs _ _⟩
  · simp [PeerUnit.handleCertificateAvailable, PeerUnit.install, h.rotate, Bool.or_assoc]
  · unfold PeerUnit.handleCertificateAvailable PeerUnit.install
    by_cases hchanged : certs.ca ≠ u.certs.ca
    · simpa [hchanged] using h.importOld today hd hfiles
    · simpa [hchanged] using hd

/-- **A broken relation** does so too, with the certificate that the unit signs itself. -/
theorem Describes.tlsRelationBroken (h : n.Describes s u) (today : TlsManager.Date) (now : Nat)
    {certs : PeerCerts} (hchain : certs.chain = []) (hcerts : n.Known certs.bundle) :
    ∃ s', TlsManager.tlsRelationBroken k today s
        (some (n.text certs.certificate, n.text (.authority certs.ca))) = some s' ∧
      n.Describes s' (u.install p now certs true true) := by
  obtain ⟨d, hconfigure, hd, hfiles⟩ := h.configured today hcerts
  unfold scope at hconfigure
  rw [hchain, List.map_nil] at hconfigure
  rw [TlsManager.tlsRelationBroken]
  simp only
  rw [hconfigure]
  refine ⟨_, rfl, ⟨rfl, rfl, ?_, hcerts⟩, ?_, h.remote, h.knownRemote, ?_,
    PeerUnit.nodup_install p u now certs _ _⟩
  · simp [PeerUnit.install, hchain]
  · simp [PeerUnit.install]
  · simpa [PeerUnit.install] using h.importOld today hd hfiles

end Certs.Texts

/-! ## A rotation of both -/

/-- The four CAs to try things on, and leaves as they usually are. -/
def sampleCerts : Certs where
  profile
    | .authority 0 => (SampleCert.load .root).toCertProfile
    | .authority 1 => (SampleCert.load .intermediate).toCertProfile
    | .authority 2 => (SampleCert.load .nextRoot).toCertProfile
    | .authority _ => (SampleCert.load .ecRoot).toCertProfile
    | .leaf _ => ⟨some .sha256, some false, none⟩
  leaf _ := rfl

def sampleTexts : sampleCerts.Texts SampleCert.tools where
  text
    | .authority 0 => .root
    | .authority 1 => .intermediate
    | .authority 2 => .nextRoot
    | _ => .ecRoot
  known c := c ∈ [.authority 0, .authority 1, .authority 2, .authority 3]
  profile := by
    simp only [List.forall_mem_cons]
    exact ⟨rfl, rfl, rfl, rfl, fun _ h => by cases h⟩
  distinct := by
    have hall : ∀ c ∈ [SampleCert.root, .intermediate, .nextRoot, .ecRoot],
        ∀ d ∈ [SampleCert.root, .intermediate, .nextRoot, .ecRoot],
        (SampleCert.load c).sha256 = (SampleCert.load d).sha256 → c = d := by decide
    intro c d hc hd h
    simp only [List.mem_cons, List.not_mem_nil, or_false] at hc hd
    rcases hc with rfl | rfl | rfl | rfl <;> rcases hd with rfl | rfl | rfl | rfl
    all_goals first | rfl | exact absurd (hall _ (by decide) _ (by decide) h) (by decide)

/-- The unit of `midRotation`. -/
def midRotationUnit : PeerUnit where
  certs := ⟨.authority 3, 2, []⟩
  databag := ⟨[], false⟩
  truststore :=
    [(.bundle 0, .authority 3), (.bundle 1, .authority 2), (.clusterTls 0, .authority 0),
      (.newClusterTls 0, .authority 1)]
  modifyTime := 0
  keystore := ⟨.authority 3, 2, []⟩
  presented := ⟨.authority 3, 2, []⟩
  loaded := []
  lastRestart := 0
  restartRequested := false
  peers _ := ⟨[], false⟩
  remote := ⟨[.authority 1], [], false⟩

theorem midRotation_described : sampleTexts.Describes TlsManager.midRotation midRotationUnit where
  certs := ⟨rfl, rfl, rfl, by simp [Certs.Texts.Known, sampleTexts, PeerCerts.bundle, midRotationUnit]⟩
  rotate := rfl
  remote := rfl
  knownRemote := by simp [Certs.Texts.Known, sampleTexts, midRotationUnit]
  truststore := ⟨rfl, by simp [Certs.Texts.Known, sampleTexts, midRotationUnit, Truststore.certs]⟩
  nodup := List.nodup_iff_pairwise_ne.mpr (by decide)

/-- A new certificate of the same CA, in both. -/
theorem renewal_described :
    ∃ s', TlsManager.handleCertificateAvailable SampleCert.tools TlsManager.sampleDate
        TlsManager.midRotation ⟨.nextRoot, .nextRoot, []⟩ = some s' ∧
      sampleTexts.Describes s'
        (midRotationUnit.handleCertificateAvailable sampleCerts 1 ⟨.authority 2, 2, []⟩) := by
  have hcerts : sampleTexts.Known (PeerCerts.bundle ⟨.authority 2, 2, []⟩) := by
    simp [Certs.Texts.Known, sampleTexts, PeerCerts.bundle]
  have hrenewed :=
    midRotation_described.handleCertificateAvailable TlsManager.sampleDate 1 hcerts
  exact hrenewed

end KafkaCharm
