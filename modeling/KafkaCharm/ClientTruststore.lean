import KafkaCharm.CertRemoval
import KafkaCharm.Lib.Fallible
import KafkaCharm.Lib.Runs

namespace KafkaCharm

open PyText TlsManager Fallible

/-- What a unit works on its client truststore with. -/
structure TrustTools (κ : Type) extends CertTools κ where
  rm : RmTool
  /-- The bytes of a PEM text. -/
  bytes : κ → List UInt8
  /-- The `truststore-password` of the unit. -/
  password : Str

variable {κ : Type}

namespace ConfDir

/-- The entries of the client truststore; there are none without the file. -/
def entries (dir : ConfDir κ) : Keystore κ :=
  match dir.get? TlsScope.client.truststoreFile with
  | some (.truststore _ entries) => entries
  | some (.data _) | none => []

variable (tools : TrustTools κ) (dir : ConfDir κ)

/-- `TLSManager.trusted_certificates`; `none` is an error. -/
def trustedCertificates : Option (List (Str × List UInt8)) :=
  match dir.get? TlsScope.client.truststoreFile with
  | none => some []
  | some (.data _) => none
  | some (.truststore stored entries) =>
    if stored = tools.password then getTrustedCertificates tools.toCertTools entries else none

/-- `TLSManager.import_cert`. -/
def importCert (today : Date) (label : Str) (cert : κ) : Option (ConfDir κ) :=
  match dir.get? TlsScope.client.truststoreFile with
  | none => some (dir.write TlsScope.client.truststoreFile
      (.truststore tools.password (TlsManager.importCert tools.toCertTools [] today label cert))
      (slash_notMem_truststoreFile .client))
  | some (.data _) => none
  | some (.truststore stored entries) =>
    if stored = tools.password then
      some (dir.write TlsScope.client.truststoreFile
        (.truststore stored (TlsManager.importCert tools.toCertTools entries today label cert))
        (slash_notMem_truststoreFile .client))
    else none

/-- The file of a certificate is written. There is no directory for a name with a slash. -/
def writePem (label : Str) (cert : κ) : Option (ConfDir κ) :=
  if h : '/' ∉ TlsScope.client.pemFile label then
    some (dir.write (TlsScope.client.pemFile label) (.data (tools.bytes cert)) h)
  else none

/-- `TLSManager.update_cert`: the alias is deleted and imported again. -/
def updateCert (today : Date) (label : Str) (cert : κ) : Option (ConfDir κ) := do
  let removed ← removeCert tools.toCertTools tools.rm tools.password dir label .client
  let written ← removed.writePem tools label cert
  written.importCert tools today label cert

/-- A round of the loops in `update_truststore`. -/
def refresh (today : Date) (entry : Str × Option κ) : Option (ConfDir κ) :=
  match entry.2 with
  | none => some dir
  | some cert => do
    let trusted ← dir.trustedCertificates tools
    if aliasNeedsUpdate tools.toCertTools trusted entry.1 (some cert) then
      dir.updateCert tools today entry.1 cert
    else some dir

end ConfDir

/-- A `kafka-client` relation. -/
structure MtlsRelation where
  app : AppName
  id : Nat
  deriving DecidableEq, Repr

/-- `KafkaClient.generate_alias`. -/
def MtlsRelation.label (r : MtlsRelation) : Str := r.app.text ++ '-' :: decimal r.id

/-- What the client truststore of a unit depends on. `bundle` counts the certificates of
the unit's own bundle, `clients` are those of the active `kafka-client` relations with their
certificates, and `transfer` holds the certificates on the `certificate_transfer` relations,
if there are any. -/
structure ClientTrust (κ : Type) where
  bundle : Nat
  dir : ConfDir κ
  clients : List (MtlsRelation × Option κ)
  transfer : Option (List κ)

namespace ClientTrust

variable (s : ClientTrust κ) (k : CertTools κ)

/-- `get_all_certificates` of the `certificate_transfer` library. -/
def transferred : List κ := s.transfer.getD []

/-- `ClusterState.has_mtls_clients`. -/
def hasMtlsClients : Bool := s.clients.any (·.2.isSome) || s.transfer.isSome

/-- The certificates of active mTLS clients and those transferred, under their aliases. -/
def liveEntries : List (Str × κ) :=
  s.clients.filterMap (fun c => c.2.map fun cert => (c.1.label, cert)) ++
    s.transferred.map fun cert => (k.certificateDistinguishedName cert, cert)

/-- The aliases that should be in the truststore. -/
def aliases : List Str := (List.range s.bundle).map bundleAlias ++ (s.liveEntries k).map Prod.fst

end ClientTrust

/-- What happens to the certificates: the set on the `certificate_transfer` relation is
updated, such a relation goes, the clients of a `kafka-client` relation set or drop their
certificates, it breaks, or the truststore is brought up to date for another reason. -/
inductive TrustChange (κ : Type) where
  | certificatesAvailable (transferred : List κ)
  | certificatesRemoved (remaining : Option (List κ))
  | clientCertificates (relation : MtlsRelation) (certs : List (Option κ))
  | relationBroken (relation : MtlsRelation) (remote : Bool)
  | update

/-- A change, on a day, with the orders in which its handler goes over sets. -/
structure TrustEvent (κ : Type) where
  change : TrustChange κ
  today : Date
  clientOrder : SetOrder (MtlsRelation × Option κ)
  certOrder : SetOrder κ

/-- The relations after a change, before its handler has run. -/
def TrustChange.apply (e : TrustChange κ) (s : ClientTrust κ) : ClientTrust κ :=
  match e with
  | .certificatesAvailable transferred => { s with transfer := some transferred }
  | .certificatesRemoved remaining => { s with transfer := remaining }
  | .clientCertificates relation certs =>
    { s with clients := Dict.erase s.clients relation ++ certs.map fun c => (relation, c) }
  | .relationBroken relation _ => { s with clients := Dict.erase s.clients relation }
  | .update => s

namespace ClientTrust

variable (tools : TrustTools κ) (e : TrustEvent κ) (s : ClientTrust κ)

/-- `TLSHandler.update_truststore`, on a healthy unit with TLS set up. -/
def updateTruststore : Option (ClientTrust κ) :=
  if s.hasMtlsClients then do
    let clients := (e.clientOrder.list s.clients).map fun c => (c.1.label, c.2)
    let afterClients ← clients.foldlM (ConfDir.refresh tools · e.today ·) s.dir
    let certs := (e.certOrder.list s.transferred).map fun c =>
      (tools.certificateDistinguishedName c, some c)
    let afterCerts ← certs.foldlM (ConfDir.refresh tools · e.today ·) afterClients
    return { s with dir := afterCerts }
  else some s

/-- What `KafkaProvider._on_relation_broken` does to the truststore. It does nothing when it
is the unit itself that goes. -/
def removeBroken (relation : MtlsRelation) (remote : Bool) : Option (ClientTrust κ) := do
  let trusted ← s.dir.trustedCertificates tools
  if relation.label ∈ Dict.keys trusted ∧ remote then
    let dir ← s.dir.removeCert tools.toCertTools tools.rm tools.password relation.label .client
    return { s with dir := dir }
  else return s

end ClientTrust

/-- The handlers: `_on_mtls_client_certificates_available` and `_removed`, the
removal in `_on_relation_broken`, and `update_truststore` itself. -/
def trustStep (tools : TrustTools κ) (s : ClientTrust κ) (e : TrustEvent κ) :
    Option (ClientTrust κ) :=
  let changed := e.change.apply s
  match e.change with
  | .certificatesAvailable _ =>
    if changed.transferred.isEmpty then some changed else changed.updateTruststore tools e
  | .relationBroken relation remote => changed.removeBroken tools relation remote
  | .certificatesRemoved _ | .clientCertificates _ _ | .update => changed.updateTruststore tools e

/-! ## What the commands leave of the truststore -/

/-- The words of the file name do not make `rm` take the truststore. -/
def SparesTruststore (rm : RmTool) (label : Str) : Prop :=
  ∀ gone, rm.removes (split (TlsScope.client.pemFile label)) = some gone →
    gone TlsScope.client.truststoreFile = false

theorem sparesTruststore_of_plain (rm : RmTool) {label : Str} (h : AliasText label) :
    SparesTruststore rm label := by
  have hslash : '/' ∉ label := fun hmem => absurd (h _ hmem) (by decide)
  have hwords : split (TlsScope.client.pemFile label) = [TlsScope.client.pemFile label] :=
    split_word (List.cons_ne_nil _ _) (ConfDir.spaceFree_pemFile.mpr h.spaceFree)
  intro gone hgone
  rw [hwords] at hgone
  by_contra htaken
  have hmem := (rm.removes_operands _ _ hgone
    (by simpa using ConfDir.pemFile_isOperand hslash) _).mp (by simpa using htaken)
  exact ConfDir.pemFile_ne_truststoreFile (List.mem_singleton.mp hmem).symm

namespace ConfDir

variable {tools : TrustTools κ} {dir dir' : ConfDir κ} {today : Date} {label : Str} {cert : κ}

theorem entries_of_get? {password : Str} {es : Keystore κ}
    (h : dir.get? TlsScope.client.truststoreFile = some (.truststore password es)) :
    dir.entries = es := by
  rw [entries, h]

theorem trustedCertificates_eq {trusted : List (Str × List UInt8)}
    (h : dir.trustedCertificates tools = some trusted)
    (hlegible : ∀ a ∈ Dict.keys dir.entries, TlsManager.Legible a) :
    trusted = readBack tools.toCertTools dir.entries := by
  unfold trustedCertificates at h
  split at h
  · rename_i hnone
    rw [entries, hnone]
    exact (Option.some.inj h).symm
  · cases h
  · rename_i stored es hstore
    rw [entries_of_get? hstore] at hlegible ⊢
    split at h
    · rw [getTrustedCertificates_of_legible hlegible] at h
      exact (Option.some.inj h).symm
    · cases h

theorem entries_removeCert (hspares : SparesTruststore tools.rm label)
    (h : dir.removeCert tools.toCertTools tools.rm tools.password label .client = some dir') :
    dir'.entries = TlsManager.removeCert tools.toCertTools dir.entries label := by
  rcases removeCert_cases h with ⟨hnone, rfl⟩ | ⟨es, gone, hstore, -, hgone, rfl⟩
  · have hmissing : tools.fold label ∉ Dict.keys dir'.entries := by
      intro hmem
      apply hnone
      unfold entries at hmem
      split at hmem
      · rename_i password es hstore
        exact ⟨password, es, hstore, hmem⟩
      · cases hmem
      · cases hmem
    rw [TlsManager.removeCert, Dict.erase_of_notMem hmissing]
  · rw [entries_of_get? hstore]
    apply entries_of_get?
    rw [get?_without, hspares gone hgone, get?_write, if_pos rfl]
    rfl

theorem entries_writePem (h : dir.writePem tools label cert = some dir') :
    dir'.entries = dir.entries := by
  unfold writePem at h
  split at h
  · obtain rfl := Option.some.inj h
    rw [entries, entries, get?_write, if_neg pemFile_ne_truststoreFile]
  · cases h

theorem entries_importCert (h : dir.importCert tools today label cert = some dir') :
    dir'.entries = TlsManager.importCert tools.toCertTools dir.entries today label cert := by
  unfold importCert at h
  split at h
  · rename_i hnone
    obtain rfl := Option.some.inj h
    rw [entries, get?_write, if_pos rfl, entries, hnone]
  · cases h
  · rename_i stored es hstore
    rw [entries_of_get? hstore]
    split at h
    · obtain rfl := Option.some.inj h
      rw [entries, get?_write, if_pos rfl]
    · cases h

theorem entries_updateCert (hspares : SparesTruststore tools.rm label)
    (h : dir.updateCert tools today label cert = some dir') :
    dir'.entries = TlsManager.updateCert tools.toCertTools dir.entries today label cert := by
  obtain ⟨removed, hremoved, h⟩ := Option.bind_eq_some_iff.mp h
  obtain ⟨written, hwritten, himported⟩ := Option.bind_eq_some_iff.mp h
  rw [entries_importCert himported, entries_writePem hwritten, entries_removeCert hspares hremoved]
  rfl

end ConfDir

/-! ## One update -/

/-- The entry is read as the alias of the live certificate, with its fingerprint, though it is
another one. -/
def TakenFor (k : CertTools κ) (entry live : Str × κ) : Prop :=
  listedLabel entry.1 = live.1 ∧
    (k.load entry.2).sha256 = (k.load live.2).certificateFingerprint ∧ entry.1 ≠ k.fold live.1

instance (k : CertTools κ) (entry live : Str × κ) : Decidable (TakenFor k entry live) :=
  inferInstanceAs (Decidable (_ ∧ _ ∧ _))

/-- Certificates that do not disturb one another in a truststore: the aliases are legible as
`keytool` keeps them, `rm` leaves the truststore alone, and none is taken for another. -/
structure Importable (tools : TrustTools κ) (live : List (Str × κ)) : Prop where
  legible : ∀ l ∈ live, TlsManager.Legible (tools.fold l.1)
  spares : ∀ l ∈ live, SparesTruststore tools.rm l.1
  distinct : ∀ l ∈ live, ∀ l' ∈ live, ¬ TakenFor tools.toCertTools (tools.fold l.1, l.2) l'

/-- A truststore in which none of the certificates is found under an alias that it is not. -/
structure ReadFor (k : CertTools κ) (live : List (Str × κ)) (t : Keystore κ) : Prop where
  nodup : Dict.NodupKeys t
  legible : ∀ a ∈ Dict.keys t, TlsManager.Legible a
  distinct : ∀ e ∈ t, ∀ l ∈ live, ¬ TakenFor k (e.1, e.2.cert) l

section

variable {tools : TrustTools κ} {dir dir' : ConfDir κ} {today : Date} {label : Str} {cert : κ}
  {live : List (Str × κ)}

theorem ReadFor.updateCert {t : Keystore κ} (h : ReadFor tools.toCertTools live t)
    (hlive : Importable tools live) (hmem : (label, cert) ∈ live) :
    ReadFor tools.toCertTools live (updateCert tools.toCertTools t today label cert) where
  nodup := nodup_updateCert label h.nodup
  legible a ha := by
    cases keys_updateCert.mp ha with
    | inl heq => exact heq ▸ hlive.legible _ hmem
    | inr hold => exact h.legible a hold
  distinct e he l hl := by
    rw [updateCert_eq] at he
    cases List.mem_append.mp he with
    | inl hold => exact h.distinct e (List.mem_filter.mp hold).1 l hl
    | inr hnew =>
      obtain rfl := List.mem_singleton.mp hnew
      exact hlive.distinct _ hmem l hl

/-- **An alias that needs no update** is in the truststore, with the certificate. -/
theorem mem_of_not_aliasNeedsUpdate {t : Keystore κ} (h : ReadFor tools.toCertTools live t)
    (hmem : (label, cert) ∈ live)
    (hno : aliasNeedsUpdate tools.toCertTools (readBack tools.toCertTools t) label (some cert) =
      false) :
    ∃ stored, Dict.get? t (tools.fold label) = some stored ∧
      (tools.load stored.cert).sha256 = (tools.load cert).sha256 := by
  have hfingerprint : (tools.load cert).certificateFingerprint =
      (Dict.get? (readBack tools.toCertTools t) label).getD [] := by
    simpa [aliasNeedsUpdate] using hno
  cases hget : Dict.get? (readBack tools.toCertTools t) label with
  | none =>
    have hlength := congrArg List.length hfingerprint
    rw [hget, X509.certificateFingerprint, X509.length_digest] at hlength
    cases halg : ((tools.load cert).signatureHashAlgorithm.getD X509.defaultHashAlgorithm) <;>
      · rw [halg] at hlength
        exact absurd hlength (by decide)
  | some hash =>
    rw [hget, Option.getD_some] at hfingerprint
    obtain ⟨e, he, hread, hdigest⟩ := exists_of_get?_readBack hget
    have hsame : e.1 = tools.fold label := by
      by_contra hother
      exact h.distinct e he _ hmem ⟨hread, hdigest.trans hfingerprint.symm, hother⟩
    refine ⟨e.2, ?_, ?_⟩
    · rw [← hsame]
      exact (Dict.mem_iff_get? h.nodup).mp he
    · exact (tools.fingerprint_eq_sha256_iff.mp (hfingerprint.trans hdigest.symm)).2.symm

/-- What a round leaves under an alias: the certificate of its own, and the rest as it was. -/
theorem refresh_spec (hlive : Importable tools live)
    (hread : ReadFor tools.toCertTools live dir.entries) (hmem : (label, cert) ∈ live)
    (h : dir.refresh tools today (label, some cert) = some dir') :
    ReadFor tools.toCertTools live dir'.entries ∧
      (∃ stored, Dict.get? dir'.entries (tools.fold label) = some stored ∧
        (tools.load stored.cert).sha256 = (tools.load cert).sha256) ∧
      ∀ a, tools.fold label ≠ a → Dict.get? dir'.entries a = Dict.get? dir.entries a := by
  obtain ⟨trusted, htrusted, h⟩ := Option.bind_eq_some_iff.mp h
  obtain rfl := ConfDir.trustedCertificates_eq htrusted hread.legible
  split at h
  · rw [ConfDir.entries_updateCert (hlive.spares _ hmem) h]
    refine ⟨hread.updateCert hlive hmem, ⟨_, by rw [get?_updateCert, if_pos rfl], rfl⟩, ?_⟩
    intro a ha
    rw [get?_updateCert, if_neg ha]
  · rename_i hno
    obtain rfl := Option.some.inj h
    exact ⟨hread, mem_of_not_aliasNeedsUpdate hread hmem (by simpa using hno), fun _ _ => rfl⟩

/-- What a loop leaves under an alias. -/
theorem refreshAll_spec (hlive : Importable tools live) {entries : List (Str × Option κ)}
    (hentries : ∀ x ∈ entries, ∀ c, x.2 = some c → (x.1, c) ∈ live)
    (hread : ReadFor tools.toCertTools live dir.entries)
    (h : entries.foldlM (ConfDir.refresh tools · today ·) dir = some dir') :
    ReadFor tools.toCertTools live dir'.entries ∧
      ∀ a, (∃ x ∈ entries, ∃ c stored, x.2 = some c ∧ tools.fold x.1 = a ∧
          Dict.get? dir'.entries a = some stored ∧
          (tools.load stored.cert).sha256 = (tools.load c).sha256) ∨
        ((∀ x ∈ entries, x.2 ≠ none → tools.fold x.1 ≠ a) ∧
          Dict.get? dir'.entries a = Dict.get? dir.entries a) := by
  induction entries generalizing dir with
  | nil =>
    obtain rfl := Option.some.inj h
    exact ⟨hread, fun a => .inr ⟨by simp, rfl⟩⟩
  | cons x entries ih =>
    obtain ⟨next, hnext, hrounds⟩ := Option.bind_eq_some_iff.mp h
    obtain ⟨label, cert⟩ := x
    have hrest : ∀ x ∈ entries, ∀ c, x.2 = some c → (x.1, c) ∈ live :=
      fun x hx => hentries x (List.mem_cons_of_mem _ hx)
    cases cert with
    | none =>
      obtain rfl := Option.some.inj hnext
      obtain ⟨hread', hloop⟩ := ih hrest hread hrounds
      refine ⟨hread', fun a => ?_⟩
      rcases hloop a with ⟨x, hx, hfound⟩ | ⟨hnone, hsame⟩
      · exact .inl ⟨x, List.mem_cons_of_mem _ hx, hfound⟩
      · refine .inr ⟨?_, hsame⟩
        intro x hx hsome
        rcases List.mem_cons.mp hx with rfl | hx
        · exact absurd rfl hsome
        · exact hnone x hx hsome
    | some cert =>
      have hmem : (label, cert) ∈ live := hentries _ List.mem_cons_self cert rfl
      obtain ⟨hround, ⟨stored, hstored, hdigest⟩, hothers⟩ := refresh_spec hlive hread hmem hnext
      obtain ⟨hread', hloop⟩ := ih hrest hround hrounds
      refine ⟨hread', fun a => ?_⟩
      rcases hloop a with ⟨x, hx, hfound⟩ | ⟨hnone, hsame⟩
      · exact .inl ⟨x, List.mem_cons_of_mem _ hx, hfound⟩
      · by_cases ha : tools.fold label = a
        · subst ha
          exact .inl ⟨_, List.mem_cons_self, cert, stored, rfl, rfl, hsame.trans hstored, hdigest⟩
        · refine .inr ⟨?_, hsame.trans (hothers a ha)⟩
          intro x hx hsome
          rcases List.mem_cons.mp hx with rfl | hx
          · exact ha
          · exact hnone x hx hsome

end

namespace ClientTrust

variable {tools : TrustTools κ} {e : TrustEvent κ} {s t : ClientTrust κ}

/-- The rounds of an update are about the live certificates. -/
theorem mem_rounds_iff {x : Str × Option κ} {c : κ} (hx : x.2 = some c) :
    x ∈ (e.clientOrder.list s.clients).map (fun c => (c.1.label, c.2)) ++
        (e.certOrder.list s.transferred).map
          (fun c => (tools.certificateDistinguishedName c, some c)) ↔
      (x.1, c) ∈ s.liveEntries tools.toCertTools := by
  obtain ⟨label, cert⟩ := x
  obtain rfl : cert = some c := hx
  simp only [liveEntries, List.mem_append, List.mem_map, List.mem_filterMap,
    e.clientOrder.mem_list, e.certOrder.mem_list, Prod.mk.injEq, Option.some.injEq,
    Option.map_eq_some_iff]
  constructor
  · rintro (⟨x, hx, rfl, hcert⟩ | ⟨x, hx, rfl, rfl⟩)
    · exact .inl ⟨x, hx, c, hcert, rfl, rfl⟩
    · exact .inr ⟨x, hx, rfl, rfl⟩
  · rintro (⟨x, hx, d, hcert, rfl, rfl⟩ | ⟨x, hx, rfl, rfl⟩)
    · exact .inl ⟨x, hx, rfl, hcert⟩
    · exact .inr ⟨x, hx, rfl, rfl⟩

theorem liveEntries_nil (h : s.hasMtlsClients = false) : s.liveEntries tools.toCertTools = [] := by
  unfold hasMtlsClients at h
  obtain ⟨hclients, htransfer⟩ := Bool.or_eq_false_iff.mp h
  have hnone : s.transferred = [] := by
    have htransfer' : s.transfer = none := by simpa using htransfer
    rw [transferred, htransfer', Option.getD_none]
  have hno : s.clients.filterMap (fun c => c.2.map fun cert => (c.1.label, cert)) = [] := by
    rw [List.filterMap_eq_nil_iff]
    intro c hc
    have hcert := List.any_eq_false.mp hclients c hc
    rw [Option.not_isSome_iff_eq_none.mp hcert, Option.map_none]
  rw [liveEntries, hno, hnone]
  rfl

/-- **What an update leaves** under an alias: a live certificate, if the alias is live, and
what was there otherwise. -/
theorem updateTruststore_spec (hlive : Importable tools (s.liveEntries tools.toCertTools))
    (hread : ReadFor tools.toCertTools (s.liveEntries tools.toCertTools) s.dir.entries)
    (h : s.updateTruststore tools e = some t) :
    ∃ dir, t = { s with dir := dir } ∧ Dict.NodupKeys dir.entries ∧
      ∀ a, (∃ l ∈ s.liveEntries tools.toCertTools, ∃ stored, tools.fold l.1 = a ∧
          Dict.get? dir.entries a = some stored ∧
          (tools.load stored.cert).sha256 = (tools.load l.2).sha256) ∨
        ((∀ l ∈ s.liveEntries tools.toCertTools, tools.fold l.1 ≠ a) ∧
          Dict.get? dir.entries a = Dict.get? s.dir.entries a) := by
  unfold updateTruststore at h
  split at h
  · obtain ⟨afterClients, hclients, h⟩ := Option.bind_eq_some_iff.mp h
    obtain ⟨afterCerts, hcerts, h⟩ := Option.bind_eq_some_iff.mp h
    have hrounds := @List.foldlM_append _ _ _ _ _ (ConfDir.refresh tools · e.today ·) s.dir
      ((e.clientOrder.list s.clients).map fun c => (c.1.label, c.2))
      ((e.certOrder.list s.transferred).map fun c =>
        (tools.certificateDistinguishedName c, some c))
    rw [hclients, Option.bind_eq_bind, Option.bind_some, hcerts] at hrounds
    obtain ⟨hread', hloop⟩ := refreshAll_spec hlive
      (fun x hx c hc => (mem_rounds_iff hc).mp hx) hread hrounds
    refine ⟨afterCerts, (Option.some.inj h).symm, hread'.nodup, fun a => ?_⟩
    rcases hloop a with ⟨x, hx, c, stored, hc, hfold, hget, hdigest⟩ | ⟨hnone, hsame⟩
    · exact .inl ⟨_, (mem_rounds_iff hc).mp hx, stored, hfold, hget, hdigest⟩
    · refine .inr ⟨fun l hl => ?_, hsame⟩
      have hround := (mem_rounds_iff (e := e) (x := (l.1, some l.2)) rfl).mpr hl
      exact hnone _ hround (Option.some_ne_none _)
  · rename_i hno
    obtain rfl := Option.some.inj h
    refine ⟨s.dir, rfl, hread.nodup, fun a => .inr ⟨fun l hl => ?_, rfl⟩⟩
    rw [liveEntries_nil (by simpa using hno)] at hl
    cases hl

end ClientTrust

/-! ## Runs -/

/-- The alias that the event takes from the truststore. -/
def TrustChange.breaks : TrustChange κ → Option Str
  | .relationBroken relation true => some relation.label
  | _ => none

/-- The truststore has the aliases of the bundle and the live ones, one for each, and no other;
and what it has under a live alias is a live certificate. -/
structure ExactAliases (k : CertTools κ) (s : ClientTrust κ) : Prop where
  aliases : ∀ a, a ∈ Dict.keys s.dir.entries ↔ ∃ b ∈ s.aliases k, k.fold b = a
  apart : ∀ b ∈ s.aliases k, ∀ b' ∈ s.aliases k, k.fold b = k.fold b' → b = b'
  live : ∀ e ∈ s.dir.entries, e.1 ∈ (List.range s.bundle).map bundleAlias ∨
    ∃ l ∈ s.liveEntries k, k.fold l.1 = e.1 ∧ (k.load e.2.cert).sha256 = (k.load l.2).sha256

/-- No alias in the truststore stops being live, except that of a `kafka-client` relation that
breaks, and the live certificates do not disturb each other. -/
structure NothingWithdrawn (tools : TrustTools κ) (s : ClientTrust κ) (e : TrustEvent κ) :
    Prop where
  live : ∀ a ∈ Dict.keys s.dir.entries,
    (∃ b ∈ (e.change.apply s).aliases tools.toCertTools, tools.fold b = a) ∨
      e.change.breaks = some a
  broken : ∀ a ∈ e.change.breaks, ∀ b ∈ (e.change.apply s).aliases tools.toCertTools,
    tools.fold b ≠ a
  apart : ∀ b ∈ (e.change.apply s).aliases tools.toCertTools,
    ∀ b' ∈ (e.change.apply s).aliases tools.toCertTools, tools.fold b = tools.fold b' → b = b'
  importable : Importable tools ((e.change.apply s).liveEntries tools.toCertTools)
  distinct : ∀ x ∈ s.dir.entries, ∀ l ∈ (e.change.apply s).liveEntries tools.toCertTools,
    ¬ TakenFor tools.toCertTools (x.1, x.2.cert) l

section

variable {tools : TrustTools κ} {s t : ClientTrust κ} {e : TrustEvent κ}

@[simp] theorem apply_dir (c : TrustChange κ) (s : ClientTrust κ) : (c.apply s).dir = s.dir := by
  cases c <;> rfl

@[simp] theorem apply_bundle (c : TrustChange κ) (s : ClientTrust κ) :
    (c.apply s).bundle = s.bundle := by
  cases c <;> rfl

theorem MtlsRelation.aliasText_label (r : MtlsRelation) : AliasText r.label := by
  have hdash : AliasText ['-'] := by decide
  exact (aliasText_appName r.app).append (hdash.append (aliasText_decimal r.id))

theorem MtlsRelation.legible_label (r : MtlsRelation) : Listable r.label :=
  listable_of_plain (by simp [MtlsRelation.label]) r.aliasText_label

theorem MtlsRelation.label_injective {r r' : MtlsRelation} (h : r.label = r'.label) : r = r' := by
  have hdigits : ∀ n, '-' ∉ (decimal n).reverse := fun n hmem =>
    absurd (isDigit_of_mem_decimal (List.mem_reverse.mp hmem)) (by decide)
  have hreverse := congrArg List.reverse h
  simp only [MtlsRelation.label, List.reverse_append, List.reverse_cons, List.append_assoc,
    List.singleton_append] at hreverse
  obtain ⟨hid, happ⟩ := PyRe.cut_unique (hdigits r.id) (hdigits r'.id) hreverse
  obtain ⟨⟨text, _⟩, id⟩ := r
  obtain ⟨⟨text', _⟩, id'⟩ := r'
  obtain rfl : text = text' := List.reverse_injective happ
  obtain rfl : id = id' := decimal_injective (List.reverse_injective hid)
  rfl

/-- A distinguished name is no alias of a client: it is empty or has an equals sign. -/
theorem MtlsRelation.label_ne_distinguishedName (k : CertTools κ) (r : MtlsRelation) (n : Name) :
    r.label ≠ k.rfc4514String n := by
  have hequals : '=' ∉ r.label := fun hmem => absurd (r.aliasText_label _ hmem) (by decide)
  intro h
  cases hparts : n.reverse with
  | nil =>
    have hempty : k.rfc4514String n = [] := by rw [CertTools.rfc4514String, hparts]; rfl
    exact r.legible_label.ne (h.trans hempty)
  | cons rdn rest =>
    obtain ⟨a, as, ha⟩ := List.exists_cons_of_ne_nil rdn.attributes_ne
    apply hequals
    rw [h, CertTools.rfc4514String, mem_intercalate (by decide)]
    refine ⟨k.rdnText rdn, by simp [hparts], ?_⟩
    rw [CertTools.rdnText, mem_intercalate (by decide)]
    exact ⟨k.attributeText a, by simp [ha], by simp [CertTools.attributeText]⟩

/-- The aliases of the bundle are kept as they are. -/
theorem fold_bundleAlias (k : CertTools κ) (i : Nat) : k.fold (bundleAlias i) = bundleAlias i :=
  k.fold_plain _ (aliasText_bundleAlias i)

theorem ClientTrust.mem_aliases {k : CertTools κ} {b : Str} : b ∈ s.aliases k ↔
    b ∈ (List.range s.bundle).map bundleAlias ∨ ∃ l ∈ s.liveEntries k, l.1 = b := by
  rw [ClientTrust.aliases, List.mem_append, List.mem_map (l := s.liveEntries k)]

theorem NothingWithdrawn.readFor (hok : NothingWithdrawn tools s e)
    (hnodup : Dict.NodupKeys s.dir.entries) :
    ReadFor tools.toCertTools ((e.change.apply s).liveEntries tools.toCertTools)
      s.dir.entries where
  nodup := hnodup
  distinct := hok.distinct
  legible a ha := by
    rcases hok.live a ha with ⟨b, hb, rfl⟩ | hbreaks
    · rcases ClientTrust.mem_aliases.mp hb with hbundle | ⟨l, hl, rfl⟩
      · obtain ⟨i, -, rfl⟩ := List.mem_map.mp hbundle
        rw [fold_bundleAlias]
        exact (listable_of_plain (by simp [bundleAlias]) (aliasText_bundleAlias i)).legible
      · exact hok.importable.legible l hl
    · cases hchange : e.change with
      | relationBroken relation remote =>
        rw [hchange] at hbreaks
        cases remote with
        | true =>
          obtain rfl := Option.some.inj hbreaks
          exact relation.legible_label.legible
        | false => cases hbreaks
      | certificatesAvailable | certificatesRemoved | clientCertificates | update =>
        rw [hchange] at hbreaks
        cases hbreaks

/-- An update leaves the aliases exact, if none has stopped being live. -/
theorem exact_of_update (hnodup : Dict.NodupKeys s.dir.entries)
    (hexact : ExactAliases tools.toCertTools s) (hok : NothingWithdrawn tools s e)
    (hbreaks : e.change.breaks = none)
    (h : (e.change.apply s).updateTruststore tools e = some t) :
    Dict.NodupKeys t.dir.entries ∧ ExactAliases tools.toCertTools t := by
  have hread := hok.readFor hnodup
  rw [← apply_dir e.change s] at hread
  obtain ⟨dir, rfl, hnodup', hleft⟩ :=
    ClientTrust.updateTruststore_spec hok.importable hread h
  have hstill : ∀ a ∈ Dict.keys s.dir.entries,
      ∃ b ∈ (e.change.apply s).aliases tools.toCertTools, tools.fold b = a := by
    intro a ha
    rcases hok.live a ha with hlive | hbroken
    · exact hlive
    · rw [hbreaks] at hbroken
      cases hbroken
  rw [apply_dir] at hleft
  refine ⟨hnodup', ⟨fun a => ⟨fun ha => ?_, ?_⟩, hok.apart, fun x hx => ?_⟩⟩
  · rcases hleft a with ⟨l, hl, -, hfold, -⟩ | ⟨-, hsame⟩
    · exact ⟨l.1, ClientTrust.mem_aliases.mpr (.inr ⟨l, hl, rfl⟩), hfold⟩
    · rw [Dict.mem_keys_iff, hsame, ← Dict.mem_keys_iff] at ha
      exact hstill a ha
  · rintro ⟨b, hb, rfl⟩
    rw [Dict.mem_keys_iff]
    rcases hleft (tools.fold b) with ⟨_, _, _, _, hget, _⟩ | ⟨hnone, hsame⟩
    · rw [hget]
      exact Option.some_ne_none _
    · rcases ClientTrust.mem_aliases.mp hb with hbundle | ⟨l, hl, rfl⟩
      · rw [hsame, ← Dict.mem_keys_iff]
        apply (hexact.aliases _).mpr
        refine ⟨b, ClientTrust.mem_aliases.mpr (.inl ?_), rfl⟩
        simpa using hbundle
      · exact absurd rfl (hnone l hl)
  · have hget := (Dict.mem_iff_get? hnodup').mp hx
    rcases hleft x.1 with ⟨l, hl, stored, hfold, hstored, hdigest⟩ | ⟨hnone, hsame⟩
    · rw [hget] at hstored
      obtain rfl := Option.some.inj hstored
      exact .inr ⟨l, hl, hfold, hdigest⟩
    · rw [hsame] at hget
      have hkey : x.1 ∈ Dict.keys s.dir.entries := by
        rw [Dict.mem_keys_iff, hget]
        exact Option.some_ne_none _
      obtain ⟨b, hb, hfold⟩ := hstill x.1 hkey
      rcases ClientTrust.mem_aliases.mp hb with hbundle | ⟨l, hl, rfl⟩
      · obtain ⟨i, hi, rfl⟩ := List.mem_map.mp hbundle
        rw [fold_bundleAlias] at hfold
        exact .inl (hfold ▸ hbundle)
      · exact absurd hfold (hnone l hl)

/-- The aliases stay exact when nothing becomes live and only the alias of the event goes from
the truststore. A certificate whose alias is live has to be live itself. -/
theorem exact_of_shrunk {dir : ConfDir κ} (hexact : ExactAliases tools.toCertTools s)
    (hok : NothingWithdrawn tools s e)
    (hdir : ∀ x, x ∈ dir.entries ↔ x ∈ s.dir.entries ∧ e.change.breaks ≠ some x.1)
    (hold : ∀ l ∈ (e.change.apply s).liveEntries tools.toCertTools,
      l ∈ s.liveEntries tools.toCertTools)
    (hstay : ∀ l ∈ s.liveEntries tools.toCertTools,
      ∀ l' ∈ (e.change.apply s).liveEntries tools.toCertTools, l.1 = l'.1 →
        l ∈ (e.change.apply s).liveEntries tools.toCertTools) :
    ExactAliases tools.toCertTools { e.change.apply s with dir := dir } := by
  have hbefore : ∀ b ∈ (e.change.apply s).aliases tools.toCertTools,
      b ∈ s.aliases tools.toCertTools := by
    intro b hb
    rcases ClientTrust.mem_aliases.mp hb with hbundle | ⟨l, hl, rfl⟩
    · exact ClientTrust.mem_aliases.mpr (.inl (by simpa using hbundle))
    · exact ClientTrust.mem_aliases.mpr (.inr ⟨l, hold l hl, rfl⟩)
  have hkeys : ∀ a, a ∈ Dict.keys dir.entries ↔
      a ∈ Dict.keys s.dir.entries ∧ e.change.breaks ≠ some a := by
    intro a
    simp only [Dict.keys, List.mem_map, hdir]
    constructor
    · rintro ⟨x, ⟨hx, hkept⟩, rfl⟩
      exact ⟨⟨x, hx, rfl⟩, hkept⟩
    · rintro ⟨⟨x, hx, rfl⟩, hkept⟩
      exact ⟨x, ⟨hx, hkept⟩, rfl⟩
  refine ⟨fun a => ⟨fun ha => ?_, ?_⟩, hok.apart, fun x hx => ?_⟩
  · obtain ⟨hkey, hkept⟩ := (hkeys a).mp ha
    exact (hok.live a hkey).resolve_right hkept
  · rintro ⟨b, hb, rfl⟩
    refine (hkeys _).mpr ⟨(hexact.aliases _).mpr ⟨b, hbefore b hb, rfl⟩, ?_⟩
    intro hbreaks
    exact hok.broken _ hbreaks b hb rfl
  · obtain ⟨hentry, hkept⟩ := (hdir x).mp hx
    rcases hexact.live x hentry with hbundle | ⟨l, hl, hfold, hdigest⟩
    · exact .inl (by simpa using hbundle)
    · obtain ⟨b, hb, hfold'⟩ :=
        (hok.live x.1 (List.mem_map_of_mem hentry)).resolve_right hkept
      have hlabel : l.1 ∈ s.aliases tools.toCertTools :=
        ClientTrust.mem_aliases.mpr (.inr ⟨l, hl, rfl⟩)
      have hsame := hexact.apart b (hbefore b hb) l.1 hlabel (hfold'.trans hfold.symm)
      rcases ClientTrust.mem_aliases.mp hb with hbundle | ⟨l', hl', heq⟩
      · obtain ⟨i, -, hi⟩ := List.mem_map.mp hbundle
        rw [← hi, fold_bundleAlias, hi] at hfold'
        exact .inl (hfold' ▸ hbundle)
      · exact .inr ⟨l, hstay l hl l' hl' (hsame.symm.trans heq.symm), hfold, hdigest⟩

/-- The certificate is that of a client, or it is a transferred one. -/
theorem ClientTrust.mem_liveEntries {k : CertTools κ} {l : Str × κ} : l ∈ s.liveEntries k ↔
    (∃ r, (r, some l.2) ∈ s.clients ∧ l.1 = r.label) ∨
      (l.2 ∈ s.transferred ∧ l.1 = k.certificateDistinguishedName l.2) := by
  obtain ⟨label, cert⟩ := l
  simp only [ClientTrust.liveEntries, List.mem_append, List.mem_filterMap, List.mem_map,
    Prod.mk.injEq, Option.map_eq_some_iff]
  constructor
  · rintro (⟨⟨r, c⟩, hmem, d, rfl, rfl, rfl⟩ | ⟨c, hmem, rfl, rfl⟩)
    · exact .inl ⟨r, hmem, rfl⟩
    · exact .inr ⟨hmem, rfl⟩
  · rintro (⟨r, hmem, rfl⟩ | ⟨hmem, rfl⟩)
    · exact .inl ⟨(r, some cert), hmem, cert, rfl, rfl, rfl⟩
    · exact .inr ⟨cert, hmem, rfl, rfl⟩

/-- The handler returns early where nothing is transferred. -/
theorem exact_of_nothing_transferred {transferred : List κ}
    (hexact : ExactAliases tools.toCertTools s) (hok : NothingWithdrawn tools s e)
    (hchange : e.change = .certificatesAvailable transferred) (hnone : transferred = []) :
    ExactAliases tools.toCertTools (e.change.apply s) := by
  have hlive : ∀ l, l ∈ (e.change.apply s).liveEntries tools.toCertTools ↔
      ∃ r, (r, some l.2) ∈ s.clients ∧ l.1 = r.label := by
    intro l
    rw [ClientTrust.mem_liveEntries, hchange]
    simp [TrustChange.apply, ClientTrust.transferred, hnone]
  have hdir : ∀ x, x ∈ (e.change.apply s).dir.entries ↔
      x ∈ s.dir.entries ∧ e.change.breaks ≠ some x.1 := by
    simp [hchange, TrustChange.breaks]
  apply exact_of_shrunk hexact hok hdir
  · intro l hl
    exact ClientTrust.mem_liveEntries.mpr (.inl ((hlive l).mp hl))
  · intro l hl l' hl' heq
    rcases ClientTrust.mem_liveEntries.mp hl with hclient | ⟨-, hname⟩
    · exact (hlive l).mpr hclient
    · obtain ⟨r, -, hlabel⟩ := (hlive l').mp hl'
      exact absurd (hlabel.symm.trans (heq.symm.trans hname))
        (r.label_ne_distinguishedName tools.toCertTools _)

theorem removeBroken_spec {relation : MtlsRelation} {remote : Bool}
    (hlegible : ∀ a ∈ Dict.keys s.dir.entries, TlsManager.Legible a)
    (h : s.removeBroken tools relation remote = some t) :
    ∃ dir, t = { s with dir := dir } ∧
      dir.entries = if remote then Dict.erase s.dir.entries relation.label else s.dir.entries := by
  obtain ⟨trusted, htrusted, h⟩ := Option.bind_eq_some_iff.mp h
  obtain rfl := ConfDir.trustedCertificates_eq htrusted hlegible
  split at h
  · rename_i hlisted
    obtain ⟨dir, hdir, h⟩ := Option.bind_eq_some_iff.mp h
    refine ⟨dir, (Option.some.inj h).symm, ?_⟩
    have hspares := sparesTruststore_of_plain tools.rm relation.aliasText_label
    rw [ConfDir.entries_removeCert hspares hdir, if_pos hlisted.2, TlsManager.removeCert,
      tools.fold_plain _ relation.aliasText_label]
  · rename_i hkept
    refine ⟨s.dir, (Option.some.inj h).symm, ?_⟩
    split
    · rename_i hremote
      have hmissing : relation.label ∉ Dict.keys s.dir.entries := by
        intro hmem
        obtain ⟨x, hx, hlabel⟩ := List.mem_map.mp hmem
        apply hkept
        refine ⟨keys_readBack.mpr ⟨x, hx, ?_⟩, hremote⟩
        rw [hlabel, listedLabel_of_listable relation.legible_label]
      rw [Dict.erase_of_notMem hmissing]
    · rfl

theorem exact_of_relationBroken {relation : MtlsRelation} {remote : Bool}
    (hnodup : Dict.NodupKeys s.dir.entries) (hexact : ExactAliases tools.toCertTools s)
    (hok : NothingWithdrawn tools s e) (hchange : e.change = .relationBroken relation remote)
    (h : (e.change.apply s).removeBroken tools relation remote = some t) :
    Dict.NodupKeys t.dir.entries ∧ ExactAliases tools.toCertTools t := by
  have hlegible := (hok.readFor hnodup).legible
  rw [← apply_dir e.change s] at hlegible
  obtain ⟨dir, rfl, hdir⟩ := removeBroken_spec hlegible h
  rw [apply_dir] at hdir
  have hentries : ∀ x, x ∈ dir.entries ↔ x ∈ s.dir.entries ∧ e.change.breaks ≠ some x.1 := by
    intro x
    rw [hdir, hchange]
    cases remote with
    | true =>
      simp only [TrustChange.breaks, if_true, Dict.erase, List.mem_filter, decide_eq_true_eq,
        ne_eq, Option.some.injEq]
      exact and_congr_right fun _ => not_congr eq_comm
    | false => simp [TrustChange.breaks]
  have hlive : ∀ l, l ∈ (e.change.apply s).liveEntries tools.toCertTools ↔
      l ∈ s.liveEntries tools.toCertTools ∧ l.1 ≠ relation.label := by
    intro l
    rw [ClientTrust.mem_liveEntries, ClientTrust.mem_liveEntries, hchange]
    simp only [TrustChange.apply, ClientTrust.transferred, Dict.erase, List.mem_filter,
      decide_eq_true_eq]
    constructor
    · rintro (⟨r, ⟨hmem, hne⟩, hlabel⟩ | ⟨hmem, hname⟩)
      · exact ⟨.inl ⟨r, hmem, hlabel⟩, fun heq =>
          hne (MtlsRelation.label_injective (hlabel.symm.trans heq))⟩
      · exact ⟨.inr ⟨hmem, hname⟩, fun heq =>
          relation.label_ne_distinguishedName tools.toCertTools _ (heq.symm.trans hname)⟩
    · rintro ⟨⟨r, hmem, hlabel⟩ | hother, hne⟩
      · exact .inl ⟨r, ⟨hmem, fun heq => hne (hlabel.trans (congrArg _ heq))⟩, hlabel⟩
      · exact .inr hother
  constructor
  · rw [hdir]
    split
    · exact hnodup.erase _
    · exact hnodup
  · exact exact_of_shrunk hexact hok hentries (fun l hl => ((hlive l).mp hl).1)
      fun l hl l' hl' heq => (hlive l).mpr ⟨hl, heq ▸ ((hlive l').mp hl').2⟩

/-- Where nothing else is withdrawn, a step keeps the aliases exact. -/
theorem step_exact (hnodup : Dict.NodupKeys s.dir.entries)
    (hexact : ExactAliases tools.toCertTools s) (hok : NothingWithdrawn tools s e)
    (h : trustStep tools s e = some t) :
    Dict.NodupKeys t.dir.entries ∧ ExactAliases tools.toCertTools t := by
  unfold trustStep at h
  cases hchange : e.change with
  | certificatesAvailable transferred =>
    rw [hchange] at h
    simp only at h
    rw [← hchange] at h
    split at h
    · rename_i hempty
      obtain rfl := Option.some.inj h
      have hnone : transferred = [] := by
        simpa [hchange, TrustChange.apply, ClientTrust.transferred] using hempty
      exact ⟨by rwa [apply_dir], exact_of_nothing_transferred hexact hok hchange hnone⟩
    · exact exact_of_update hnodup hexact hok (by rw [hchange]; rfl) h
  | relationBroken relation remote =>
    rw [hchange] at h
    simp only at h
    rw [← hchange] at h
    exact exact_of_relationBroken hnodup hexact hok hchange h
  | certificatesRemoved | clientCertificates | update =>
    rw [hchange] at h
    simp only at h
    rw [← hchange] at h
    exact exact_of_update hnodup hexact hok (by rw [hchange]; rfl) h

/-- Along every run in which no alias of the truststore stops being live but those
of broken `kafka-client` relations, the truststore holds the bundle and the live
aliases and nothing else. -/
theorem truststore_aliases_exact (tools : TrustTools κ) {s t : ClientTrust κ}
    (hnodup : Dict.NodupKeys s.dir.entries) (hexact : ExactAliases tools.toCertTools s)
    (hrun : Runs.Reaches (trustStep tools) (NothingWithdrawn tools) s t) :
    ExactAliases tools.toCertTools t :=
  (hrun.invariant
    (I := fun u => Dict.NodupKeys u.dir.entries ∧ ExactAliases tools.toCertTools u)
    ⟨hnodup, hexact⟩ fun _ _ _ hi hok h => step_exact hi.1 hi.2 hok h).2

end

/-! ## A unit with its own bundle -/

def sampleTools : TrustTools SampleCert :=
  { SampleCert.tools with
    rm := ConfDir.operandRm, bytes := fun _ => [0x2D], password := "changeit" }

theorem sparesTruststore_operandRm_iff {label : Str} : SparesTruststore ConfDir.operandRm label ↔
    (∀ arg ∈ split (TlsScope.client.pemFile label), IsOperand arg) →
      TlsScope.client.truststoreFile ∉ split (TlsScope.client.pemFile label) := by
  simp [SparesTruststore, ConfDir.operandRm]

instance (label : Str) : Decidable (SparesTruststore sampleTools.rm label) :=
  decidable_of_iff' _ sparesTruststore_operandRm_iff

instance (live : List (Str × SampleCert)) : Decidable (Importable sampleTools live) :=
  decidable_of_iff ((∀ l ∈ live, TlsManager.Legible (sampleTools.fold l.1)) ∧
      (∀ l ∈ live, SparesTruststore sampleTools.rm l.1) ∧
      ∀ l ∈ live, ∀ l' ∈ live,
        ¬ TakenFor sampleTools.toCertTools (sampleTools.fold l.1, l.2) l')
    ⟨fun h => ⟨h.1, h.2.1, h.2.2⟩, fun h => ⟨h.legible, h.spares, h.distinct⟩⟩

instance (s : ClientTrust SampleCert) (e : TrustEvent SampleCert) :
    Decidable (NothingWithdrawn sampleTools s e) :=
  decidable_of_iff
    ((∀ a ∈ Dict.keys s.dir.entries,
        (∃ b ∈ (e.change.apply s).aliases sampleTools.toCertTools, sampleTools.fold b = a) ∨
          e.change.breaks = some a) ∧
      (∀ a ∈ e.change.breaks, ∀ b ∈ (e.change.apply s).aliases sampleTools.toCertTools,
        sampleTools.fold b ≠ a) ∧
      (∀ b ∈ (e.change.apply s).aliases sampleTools.toCertTools,
        ∀ b' ∈ (e.change.apply s).aliases sampleTools.toCertTools,
          sampleTools.fold b = sampleTools.fold b' → b = b') ∧
      Importable sampleTools ((e.change.apply s).liveEntries sampleTools.toCertTools) ∧
      ∀ x ∈ s.dir.entries, ∀ l ∈ (e.change.apply s).liveEntries sampleTools.toCertTools,
        ¬ TakenFor sampleTools.toCertTools (x.1, x.2.cert) l)
    ⟨fun h => ⟨h.1, h.2.1, h.2.2.1, h.2.2.2.1, h.2.2.2.2⟩,
      fun h => ⟨h.live, h.broken, h.apart, h.importable, h.distinct⟩⟩

/-- Under the password of the unit, the listing is what is read back. -/
theorem ConfDir.trustedCertificates_of_legible {tools : TrustTools κ} {dir : ConfDir κ}
    {es : Keystore κ}
    (hstore : dir.get? TlsScope.client.truststoreFile = some (.truststore tools.password es))
    (hlegible : ∀ a ∈ Dict.keys es, TlsManager.Legible a) :
    dir.trustedCertificates tools = some (readBack tools.toCertTools es) := by
  rw [trustedCertificates, hstore]
  simp only [if_true]
  exact getTrustedCertificates_of_legible hlegible

/-- The configuration directory with a truststore. -/
def storeDir (es : Keystore SampleCert) : ConfDir SampleCert :=
  ⟨[(TlsScope.client.truststoreFile, .truststore "changeit" es)], by
    simpa [Dict.keys] using ConfDir.slash_notMem_truststoreFile .client⟩

/-- A unit that trusts its own bundle only. -/
def ownBundle : ClientTrust SampleCert where
  bundle := 1
  dir := storeDir [(bundleAlias 0, ⟨.intermediate, sampleDate⟩)]
  clients := []
  transfer := none

/-- The relation of `app` with the number 3. -/
def clientApp : MtlsRelation := ⟨⟨"app", List.all_eq_true.mp (by decide)⟩, 3⟩

/-- The unit trusts a client, too. -/
def withClient : ClientTrust SampleCert where
  bundle := 1
  dir := storeDir [(bundleAlias 0, ⟨.intermediate, sampleDate⟩), ("app-3", ⟨.root, sampleDate⟩)]
  clients := [(clientApp, some .root)]
  transfer := none

theorem withClient_exact : ExactAliases sampleTools.toCertTools withClient where
  aliases a := by
    have haliases : withClient.aliases sampleTools.toCertTools =
        [bundleAlias 0, clientApp.label] := by decide
    have hbundle := fold_bundleAlias sampleTools.toCertTools 0
    have hclient := sampleTools.fold_plain _ clientApp.aliasText_label
    have hkeys : Dict.keys withClient.dir.entries = [bundleAlias 0, clientApp.label] := by decide
    simp [haliases, hkeys, hbundle, hclient, eq_comm]
  apart := by decide
  live := by decide

/-- A change with the sets gone over as they are given. -/
def eventOf (change : TrustChange SampleCert) : TrustEvent SampleCert :=
  ⟨change, sampleDate, .given, .given⟩

theorem client_removed :
    trustStep sampleTools withClient (eventOf (.relationBroken clientApp true)) =
      some ownBundle := by
  have hread := @ConfDir.trustedCertificates_of_legible _ sampleTools withClient.dir _ rfl
    (by decide)
  have hremoved : withClient.dir.removeCert sampleTools.toCertTools sampleTools.rm
      sampleTools.password clientApp.label .client = some ownBundle.dir := rfl
  have hlisted : clientApp.label ∈ Dict.keys (readBack sampleTools.toCertTools
      [(bundleAlias 0, ⟨.intermediate, sampleDate⟩), ("app-3", ⟨.root, sampleDate⟩)]) := by decide
  simp only [trustStep, eventOf, TrustChange.apply, ClientTrust.removeBroken, hread, hremoved,
    Option.bind_eq_bind, Option.bind_some, hlisted, and_self, if_true]
  rfl

/-- A unit has imported a CA that was transferred. -/
def withRoot : ClientTrust SampleCert where
  bundle := 1
  dir :=
    ⟨[(TlsScope.client.truststoreFile,
        .truststore "changeit" [(bundleAlias 0, ⟨.intermediate, sampleDate⟩),
          ("cn=next-root", ⟨.nextRoot, sampleDate⟩)]),
      ("client-CN=next-root.pem", .data [0x2D])], by decide⟩
  clients := []
  transfer := some [.nextRoot]

/-- One certificate is transferred to a unit without clients. -/
theorem trustStep_transferred {s : ClientTrust SampleCert} {cert : SampleCert}
    {dir : ConfDir SampleCert} (hclients : s.clients = [])
    (h : s.dir.refresh sampleTools sampleDate
      (sampleTools.certificateDistinguishedName cert, some cert) = some dir) :
    trustStep sampleTools s (eventOf (.certificatesAvailable [cert])) =
      some { s with dir := dir, transfer := some [cert] } := by
  simp [trustStep, eventOf, TrustChange.apply, ClientTrust.updateTruststore,
    ClientTrust.hasMtlsClients, ClientTrust.transferred, SetOrder.given, hclients, h]

theorem root_transferred :
    trustStep sampleTools ownBundle (eventOf (.certificatesAvailable [.nextRoot])) =
      some withRoot := by
  have hread := @ConfDir.trustedCertificates_of_legible _ sampleTools ownBundle.dir _ rfl
    (by decide)
  have hrefresh : ownBundle.dir.refresh sampleTools sampleDate
      (sampleTools.certificateDistinguishedName .nextRoot, some .nextRoot) = some withRoot.dir := by
    simp only [ConfDir.refresh, hread, Option.bind_eq_bind, Option.bind_some]
    rw [if_pos (by decide)]
    decide +kernel
  exact trustStep_transferred rfl hrefresh

theorem withRoot_exact : ExactAliases sampleTools.toCertTools withRoot where
  aliases a := by
    have haliases : withRoot.aliases sampleTools.toCertTools =
        [bundleAlias 0, "CN=next-root"] := by decide
    have hbundle := fold_bundleAlias sampleTools.toCertTools 0
    have hroot : sampleTools.fold ("CN=next-root" : Str) = ("cn=next-root" : Str) := by decide
    have hkeys : Dict.keys withRoot.dir.entries = [bundleAlias 0, "cn=next-root"] := by decide
    rw [haliases, hkeys]
    simp only [List.mem_cons, List.not_mem_nil, or_false, exists_eq_or_imp, exists_eq_left, hbundle,
      hroot]
    rw [eq_comm, eq_comm (a := a) (b := ("cn=next-root" : Str))]
  apart := by decide
  live := by decide

/-- A client goes, and a CA is transferred. -/
theorem client_leaves_exact_aliases :
    ∃ t, Runs.Reaches (trustStep sampleTools) (NothingWithdrawn sampleTools) withClient t ∧
      ExactAliases sampleTools.toCertTools t ∧
      Dict.keys t.dir.entries = ["bundle0", "cn=next-root"] := by
  have hrun : Runs.Reaches (trustStep sampleTools) (NothingWithdrawn sampleTools) withClient
      withRoot :=
    .next _ (.next _ .start (by decide) client_removed) (by decide) root_transferred
  have hnodup : Dict.NodupKeys withClient.dir.entries := by
    unfold Dict.NodupKeys
    decide
  exact ⟨_, hrun, truststore_aliases_exact sampleTools hnodup withClient_exact hrun, by decide⟩

/-- The set on the relation becomes empty, and another update runs: the alias of the CA stays. -/
theorem withdrawn_certificate_stays :
    ∃ t, ExactAliases sampleTools.toCertTools withRoot ∧
      Runs.Reaches (trustStep sampleTools) Runs.anyStep withRoot t ∧
      t.liveEntries sampleTools.toCertTools = [] ∧
      ("cn=next-root" : Str) ∈ Dict.keys t.dir.entries ∧
      ¬ ExactAliases sampleTools.toCertTools t := by
  have hwithdrawn : trustStep sampleTools withRoot (eventOf (.certificatesAvailable [])) =
      some { withRoot with transfer := some [] } := rfl
  have hupdated : trustStep sampleTools { withRoot with transfer := some [] } (eventOf .update) =
      some { withRoot with transfer := some [] } := rfl
  refine ⟨_, withRoot_exact, .next _ (.next _ .start trivial hwithdrawn) trivial hupdated,
    by decide, by decide, fun h => ?_⟩
  have hroot := (h.aliases "cn=next-root").mp (by decide)
  revert hroot
  decide

end KafkaCharm
