import KafkaCharm.PeerTruststore
import KafkaCharm.Lib.Runs
import Mathlib.Order.Lattice
import Mathlib.Order.Monotone.Basic
import Mathlib.Order.Nat

/-! A unit publishes the certificates of its peer truststore in `trusted_certificates`, and the other
application takes them for what the running process has loaded. Whether the file has changed since
is read off two times, each rounded down to whole seconds: when the service was started and when
the file was modified. -/

namespace KafkaCharm

/-- Whole seconds of a time, rounded down. -/
structure Clock (τ : Type) [LinearOrder τ] where
  second : τ → Nat
  monotone : Monotone second

/-- A clock that counts nanoseconds. -/
def Clock.nanoseconds : Clock Nat where
  second t := t / 1000000000
  monotone _ _ h := Nat.div_le_div_right h

/-- `peer-truststore.jks`. -/
structure TrustFile (τ : Type) where
  entries : Truststore
  modified : τ
  deriving DecidableEq, Repr

/-- The running Kafka process, with the truststore it found when it started. -/
structure Process (τ : Type) where
  since : τ
  loaded : Option Truststore
  deriving DecidableEq, Repr

/-- One write of `trusted_certificates`, and the process that ran when it was made. -/
structure Publication (τ : Type) where
  certs : List Cert
  running : Option (Process τ)
  deriving DecidableEq, Repr

/-- What a unit holds: the time, the truststore file, the process, the value of
`trusted_certificates` and every write of it so far. -/
structure UnitTrust (τ : Type) where
  now : τ
  file : Option (TrustFile τ)
  process : Option (Process τ)
  trustedCertificates : List Cert
  written : List (Publication τ)
  deriving DecidableEq, Repr

/-- What `TLSManager` does to the truststore. -/
inductive TrustWrite where
  | importCert (label : Alias) (cert : Cert)
  | removeCert (label : Alias)
  | removeStores
  | rebuildTruststore (own remote : List Cert)
  deriving DecidableEq, Repr

namespace UnitTrust

section

variable {τ : Type}

def entries (s : UnitTrust τ) : Truststore := (s.file.map TrustFile.entries).getD []

/-- `keytool` writes the file. -/
def store (s : UnitTrust τ) (t : τ) (entries : Truststore) : UnitTrust τ :=
  { s with file := some ⟨entries, t⟩ }

/-- `keytool` leaves the file alone where the alias to import exists and where the
alias to remove does not. -/
def write (s : UnitTrust τ) (k : Certs) (t : τ) : TrustWrite → UnitTrust τ
  | .importCert label cert =>
    if label ∈ Dict.keys s.entries then s else s.store t (s.entries.importCert label cert)
  | .removeCert label =>
    if label ∈ Dict.keys s.entries then s.store t (Dict.erase s.entries label) else s
  | .removeStores => { s with file := none }
  | .rebuildTruststore own remote =>
    if Truststore.build k own remote = [] then { s with file := none }
    else s.store t (.build k own remote)

/-- The service is started: the process loads the file as it is. -/
def start (s : UnitTrust τ) (t : τ) : UnitTrust τ :=
  { s with process := some ⟨t, s.file.map TrustFile.entries⟩ }

/-- The setter of `trusted_certificates`. The same set is not written again. -/
def publish (s : UnitTrust τ) (certs : List Cert) : UnitTrust τ :=
  if certs ⊆ s.trustedCertificates ∧ s.trustedCertificates ⊆ certs then s
  else { s with
    trustedCertificates := certs
    written := s.written ++ [⟨certs, s.process⟩] }

end

variable {τ : Type} [LinearOrder τ] (clock : Clock τ)

/-- `Workload.last_restart`: 0 where the service is not active. -/
def lastRestart (s : UnitTrust τ) : Nat := (s.process.map (clock.second ·.since)).getD 0

/-- `Workload.modify_time` of the truststore. -/
def modifyTime (s : UnitTrust τ) : Nat := (s.file.map (clock.second ·.modified)).getD 0

/-- `BrokerOperator.update_peer_truststore_state`. -/
def updatePeerTruststoreState (s : UnitTrust τ) (force : Bool) : UnitTrust τ :=
  if s.file = none then s
  else if force = false ∧ s.lastRestart clock ≤ s.modifyTime clock then s
  else s.publish s.entries.certs

/-- `KafkaCharm._restart_broker`. The process may be restarted by others, at the times
`again`, before the truststore state is published. -/
def restartBroker (s : UnitTrust τ) (t : τ) (again : List τ)
    (healthy healthCheck cacheUpdated : Bool) : UnitTrust τ :=
  if healthy = false then s
  else
    let restarted := again.foldl start (s.start t)
    if healthCheck = false ∨ cacheUpdated = false then restarted
    else restarted.updatePeerTruststoreState clock true

end UnitTrust

/-- What happens on a unit. `discarded` is the end of a hook that fails: the data it
wrote is not kept. -/
inductive PublicationEvent (τ : Type) where
  | write (t : τ) (w : TrustWrite)
  | start (t : τ)
  | stop (t : τ)
  | restartBroker (t : τ) (again : List τ) (healthy healthCheck cacheUpdated : Bool)
  | updatePeerTruststoreState (t : τ)
  | discarded (t : τ) (kept : List Cert)
  deriving DecidableEq, Repr

/-- When the event begins. -/
def PublicationEvent.time {τ : Type} : PublicationEvent τ → τ
  | .write t _ | .start t | .stop t | .restartBroker t _ _ _ _
  | .updatePeerTruststoreState t | .discarded t _ => t

/-- The restarts that happen within the event. -/
def PublicationEvent.again {τ : Type} : PublicationEvent τ → List τ
  | .restartBroker _ again _ _ _ => again
  | .write .. | .start _ | .stop _ | .updatePeerTruststoreState _ | .discarded .. => []

/-- When the event is over. -/
def PublicationEvent.over {τ : Type} (e : PublicationEvent τ) : τ :=
  (e.time :: e.again).getLast (by simp)

section

variable {τ : Type} [LinearOrder τ] (clock : Clock τ) (k : Certs)

/-- What the event does; the clock has been set already. -/
def PublicationEvent.effect (s : UnitTrust τ) : PublicationEvent τ → UnitTrust τ
  | .write t w => s.write k t w
  | .start t => s.start t
  | .stop _ => { s with process := none }
  | .restartBroker t again healthy healthCheck cacheUpdated =>
    s.restartBroker clock t again healthy healthCheck cacheUpdated
  | .updatePeerTruststoreState _ => s.updatePeerTruststoreState clock false
  | .discarded _ kept => { s with trustedCertificates := kept }

/-- One event; time never runs backwards. -/
def publicationStep (s : UnitTrust τ) (e : PublicationEvent τ) : Option (UnitTrust τ) :=
  if (s.now :: e.time :: e.again).IsChain (· ≤ ·) then
    some (e.effect clock k { s with now := e.over })
  else none

end

/-- A unit on which nothing has happened yet. -/
def UnitTrust.initial {τ : Type} (t : τ) : UnitTrust τ := ⟨t, none, none, [], []⟩

/-- What was written is the set of certificates that the running process has loaded. -/
def Publication.Truthful {τ : Type} (w : Publication τ) : Prop :=
  ∃ p t, w.running = some p ∧ p.loaded = some t ∧ ∀ c, c ∈ w.certs ↔ c ∈ t.certs

namespace UnitTrust

/-! ## What an operation leaves alone -/

section

variable {τ : Type} (s : UnitTrust τ) (k : Certs) (t : τ)

/-- A write touches the file only, and dates it when it leaves one. -/
theorem write_cases (w : TrustWrite) :
    s.write k t w = s ∨
      ∃ file, s.write k t w = { s with file } ∧ ∀ f, file = some f → f.modified = t := by
  have hstore (entries : Truststore) :
      ∃ file, s.store t entries = { s with file } ∧ ∀ f, file = some f → f.modified = t :=
    ⟨some ⟨entries, t⟩, rfl, fun f hf => by cases hf; rfl⟩
  have hnone : ∃ file, { s with file := none } = { s with file } ∧
      ∀ f, file = some f → f.modified = t :=
    ⟨none, rfl, fun f hf => by cases hf⟩
  cases w with
  | importCert label cert =>
    simp only [write]
    split
    · exact .inl rfl
    · exact .inr (hstore _)
  | removeCert label =>
    simp only [write]
    split
    · exact .inr (hstore _)
    · exact .inl rfl
  | removeStores => exact .inr hnone
  | rebuildTruststore own remote =>
    simp only [write]
    split
    · exact .inr hnone
    · exact .inr (hstore _)

/-- Only the last of several starts counts. -/
theorem foldl_start (again : List τ) :
    again.foldl start (s.start t) = s.start ((t :: again).getLast (by simp)) := by
  induction again generalizing t with
  | nil => rfl
  | cons u again ih =>
    have hstart : (s.start t).start u = s.start u := rfl
    rw [List.foldl_cons, hstart, ih]
    rfl

/-- A publication adds to what was written and touches nothing the process reads. -/
theorem publish_frame (certs : List Cert) :
    (s.publish certs).file = s.file ∧ (s.publish certs).process = s.process ∧
      (s.publish certs).now = s.now := by
  unfold publish
  split
  · exact ⟨rfl, rfl, rfl⟩
  · exact ⟨rfl, rfl, rfl⟩

theorem mem_written_publish {certs : List Cert} {w : Publication τ}
    (h : w ∈ (s.publish certs).written) : w ∈ s.written ∨ w = ⟨certs, s.process⟩ := by
  unfold publish at h
  split at h
  · exact .inl h
  · simpa using h

end

variable {τ : Type} [LinearOrder τ] {clock : Clock τ} {s : UnitTrust τ}

theorem updatePeerTruststoreState_cases (clock : Clock τ) (s : UnitTrust τ) (force : Bool) :
    s.updatePeerTruststoreState clock force = s ∨
      ∃ f, s.file = some f ∧ (force = false → s.modifyTime clock < s.lastRestart clock) ∧
        s.updatePeerTruststoreState clock force = s.publish f.entries.certs := by
  unfold updatePeerTruststoreState
  by_cases hfile : s.file = none
  · rw [if_pos hfile]
    exact .inl rfl
  rw [if_neg hfile]
  by_cases hold : force = false ∧ s.lastRestart clock ≤ s.modifyTime clock
  · rw [if_pos hold]
    exact .inl rfl
  rw [if_neg hold]
  obtain ⟨f, hf⟩ := Option.ne_none_iff_exists'.mp hfile
  refine .inr ⟨f, hf, ?_, ?_⟩
  · intro hforce
    exact Nat.lt_of_not_le fun hle => hold ⟨hforce, hle⟩
  · simp [entries, hf]

theorem updatePeerTruststoreState_frame (clock : Clock τ) (s : UnitTrust τ) (force : Bool) :
    (s.updatePeerTruststoreState clock force).file = s.file ∧
      (s.updatePeerTruststoreState clock force).process = s.process ∧
      (s.updatePeerTruststoreState clock force).now = s.now := by
  obtain h | ⟨f, _, _, h⟩ := updatePeerTruststoreState_cases clock s force
  · rw [h]
    exact ⟨rfl, rfl, rfl⟩
  · rw [h]
    exact s.publish_frame _

/-! ## The invariant -/

/-- A file that the process has not loaded as it is was modified no earlier than the
process was started. -/
structure Fresh (s : UnitTrust τ) : Prop where
  started : ∀ p, s.process = some p → p.since ≤ s.now
  loaded : ∀ p f, s.process = some p → s.file = some f →
    p.loaded = some f.entries ∨ p.since ≤ f.modified
  truthful : ∀ w ∈ s.written, w.Truthful

theorem fresh_initial (t : τ) : (initial t : UnitTrust τ).Fresh where
  started p hp := by cases hp
  loaded p f hp := by cases hp
  truthful w hw := by cases hw

theorem Fresh.write (h : s.Fresh) (k : Certs) {t : τ} (ht : s.now ≤ t) (w : TrustWrite) :
    (s.write k t w).Fresh := by
  obtain hsame | ⟨file, hfile, hdate⟩ := s.write_cases k t w
  · rw [hsame]
    exact h
  · rw [hfile]
    refine ⟨h.started, ?_, h.truthful⟩
    intro p f hp hf
    right
    rw [hdate f hf]
    exact (h.started p hp).trans ht

theorem Fresh.start (h : s.Fresh) {t : τ} (ht : t ≤ s.now) : (s.start t).Fresh := by
  refine ⟨?_, ?_, h.truthful⟩
  · intro p hp
    cases hp
    exact ht
  · intro p f hp hf
    cases hp
    left
    have hfile : s.file = some f := hf
    simp [hfile]

/-- Later the same holds. -/
theorem Fresh.later (h : s.Fresh) {t : τ} (ht : s.now ≤ t) :
    ({ s with now := t } : UnitTrust τ).Fresh :=
  ⟨fun p hp => (h.started p hp).trans ht, h.loaded, h.truthful⟩

/-- The two rounded times tell: a restart in a later second than the last change
has loaded the file as it is. -/
theorem Fresh.loaded_of_lt (h : s.Fresh) {f : TrustFile τ} (hf : s.file = some f)
    (hlt : s.modifyTime clock < s.lastRestart clock) :
    ∃ p, s.process = some p ∧ p.loaded = some f.entries := by
  cases hp : s.process with
  | none =>
    simp [lastRestart, hp] at hlt
  | some p =>
    refine ⟨p, rfl, ?_⟩
    have hseconds : clock.second f.modified < clock.second p.since := by
      simpa [lastRestart, modifyTime, hp, hf] using hlt
    refine (h.loaded p f hp hf).resolve_right ?_
    intro hle
    exact absurd (clock.monotone hle) (Nat.not_le_of_lt hseconds)

theorem Fresh.updatePeerTruststoreState (h : s.Fresh) (force : Bool)
    (hforced : force = true → ∀ f, s.file = some f →
      ∃ p, s.process = some p ∧ p.loaded = some f.entries) :
    (s.updatePeerTruststoreState clock force).Fresh := by
  obtain ⟨hfile, hprocess, hnow⟩ := updatePeerTruststoreState_frame clock s force
  refine ⟨?_, ?_, ?_⟩
  · rw [hprocess, hnow]
    exact h.started
  · rw [hprocess, hfile]
    exact h.loaded
  · intro w hw
    obtain hsame | ⟨f, hf, hlt, hpublish⟩ := updatePeerTruststoreState_cases clock s force
    · rw [hsame] at hw
      exact h.truthful w hw
    · rw [hpublish] at hw
      obtain hold | rfl := s.mem_written_publish hw
      · exact h.truthful w hold
      · have hloaded : ∃ p, s.process = some p ∧ p.loaded = some f.entries := by
          cases force with
          | false => exact h.loaded_of_lt hf (hlt rfl)
          | true => exact hforced rfl f hf
        obtain ⟨p, hp, hl⟩ := hloaded
        exact ⟨p, f.entries, hp, hl, fun c => Iff.rfl⟩

/-- Whoever restarts the process in the meantime, it has loaded the file when
`_restart_broker` publishes it. -/
theorem Fresh.restartBroker (h : s.Fresh) (t : τ) (again : List τ)
    (healthy healthCheck cacheUpdated : Bool)
    (ht : (t :: again).getLast (by simp) ≤ s.now) :
    (s.restartBroker clock t again healthy healthCheck cacheUpdated).Fresh := by
  unfold UnitTrust.restartBroker
  have hrestarted := h.start ht
  rw [← s.foldl_start t again] at hrestarted
  by_cases hh : healthy = false
  · rw [if_pos hh]
    exact h
  rw [if_neg hh]
  by_cases hd : healthCheck = false ∨ cacheUpdated = false
  · simp only [if_pos hd]
    exact hrestarted
  simp only [if_neg hd]
  apply hrestarted.updatePeerTruststoreState
  intro _ f hf
  rw [s.foldl_start t again] at hf ⊢
  have hfile : s.file = some f := hf
  exact ⟨_, rfl, by simp [hfile]⟩

end UnitTrust

section

variable {τ : Type} [LinearOrder τ] {clock : Clock τ} {k : Certs} {s s' : UnitTrust τ}
  {e : PublicationEvent τ}

theorem publicationStep_eq_some (h : publicationStep clock k s e = some s') :
    s.now ≤ e.over ∧ s' = e.effect clock k { s with now := e.over } := by
  unfold publicationStep at h
  split at h
  · rename_i hchain
    cases h
    have hpairwise := List.isChain_iff_pairwise.mp hchain
    have hlater := (List.pairwise_cons.mp hpairwise).1
    exact ⟨hlater _ (List.getLast_mem _), rfl⟩
  · cases h

theorem publicationStep_fresh (h : s.Fresh) (hs : publicationStep clock k s e = some s') :
    s'.Fresh := by
  obtain ⟨hover, rfl⟩ := publicationStep_eq_some hs
  have hlater := h.later hover
  cases e with
  | write t w => exact hlater.write k (le_refl t) w
  | start t => exact hlater.start (le_refl t)
  | stop t =>
    refine ⟨?_, ?_, hlater.truthful⟩
    · intro p hp
      cases hp
    · intro p f hp
      cases hp
  | restartBroker t again healthy healthCheck cacheUpdated =>
    exact hlater.restartBroker t again healthy healthCheck cacheUpdated (le_refl _)
  | updatePeerTruststoreState t =>
    apply hlater.updatePeerTruststoreState
    intro hforce
    cases hforce
  | discarded t kept => exact ⟨hlater.started, hlater.loaded, hlater.truthful⟩

/-- Published trust is loaded trust: however writes of the truststore, restarts and
publications follow each other, every set a unit ever writes is the set its running
process has loaded. -/
theorem published_trust_is_loaded {t : τ}
    (h : Runs.Reaches (publicationStep clock k) Runs.anyStep (.initial t) s)
    (w : Publication τ) (hw : w ∈ s.written) : w.Truthful := by
  have hfresh : s.Fresh :=
    h.invariant (UnitTrust.fresh_initial t) fun a e b ha _ hs => publicationStep_fresh ha hs
  exact hfresh.truthful w hw

end

/-- The file is written, loaded within the same second and not published; it is
after the next restart. A certificate imported since waits for one more. -/
def trustScenario : List (PublicationEvent Nat) :=
  [.write 5000000000 (.importCert (.bundle 0) (.authority 1)), .start 5900000000,
   .updatePeerTruststoreState 6000000000, .start 7100000000,
   .updatePeerTruststoreState 7200000000,
   .write 7300000000 (.importCert (.clusterTls 0) (.authority 2)),
   .updatePeerTruststoreState 7400000000,
   .restartBroker 7500000000 [7600000000] true true true]

theorem trustScenario_published :
    ∃ s, Runs.Reaches (publicationStep Clock.nanoseconds usualCerts) Runs.anyStep (.initial 0) s ∧
      s.written.map Publication.certs = [[.authority 1], [.authority 1, .authority 2]] ∧
      ∀ w ∈ s.written, w.Truthful := by
  have hreplay : (Runs.replay (publicationStep Clock.nanoseconds usualCerts) Runs.anyStep (.initial 0)
      trustScenario).any (fun s => s.written.map Publication.certs =
        [[.authority 1], [.authority 1, .authority 2]]) = true := by
    decide +kernel
  obtain ⟨s, hs, hcerts⟩ := (Option.any_eq_true _ _).mp hreplay
  have hreach := Runs.Reaches.replay _ _ _ _ hs
  exact ⟨s, hreach, by simpa using hcerts, published_trust_is_loaded hreach⟩

end KafkaCharm
