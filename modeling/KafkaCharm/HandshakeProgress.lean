import KafkaCharm.Handshake

/-! A leader publishes on relation-changed only, so data that it makes up later reach the other
application because of what they set off: the first value that a start hook writes into the
relation makes the other side file a new `data`, and that change brings a relation-changed hook
back. -/

namespace KafkaCharm

open PyText Runs

/-! ## One application -/

/-- Fields that only this application writes. -/
def PeerFields.Of (f : PeerFields) : Half → Prop
  | .brokers => f.controllerSecret = false ∧ f.bootstrapController = [] ∧
      f.bootstrapUnitId = [] ∧ f.bootstrapReplicaId = []
  | .controllers => f.clusterUuid = [] ∧ f.brokerSecret = false ∧ f.racks = []

/-- The first value that the start hook writes into the relation. -/
def PeerFields.Triggered (f : PeerFields) : Half → Prop
  | .brokers => f.clusterUuid ≠ []
  | .controllers => f.controllerSecret = true

/-- The roles for which this application takes a relation-changed hook up. -/
def PeerFields.Heard (f : PeerFields) : Half → Prop
  | .brokers => HalfState.answers f.roles = true
  | .controllers => f.roles ≠ none

def PeerFields.ca (f : PeerFields) : Half → List Str
  | .brokers => f.brokerCa
  | .controllers => f.controllerCa

/-- The start hook has made its data. -/
def ClusterData.Initialised (c : ClusterData) : Half → Prop
  | .brokers => c.clusterUuid ≠ []
  | .controllers => c.bootstrapController ≠ []

instance (c : ClusterData) : (a : Half) → Decidable (c.Initialised a)
  | .brokers => inferInstanceAs (Decidable (c.clusterUuid ≠ []))
  | .controllers => inferInstanceAs (Decidable (c.bootstrapController ≠ []))

namespace HalfState

/-- What the other application needs is published. -/
def Published (h : HalfState) : Half → Prop
  | .brokers => h.bag.fields.clusterUuid ≠ [] ∧ h.bag.fields.brokerSecret = true ∧
      h.secret.brokerUsername ≠ [] ∧ h.secret.brokerPassword ≠ []
  | .controllers => h.bag.fields.bootstrapController ≠ [] ∧
      h.bag.fields.controllerSecret = true ∧ h.secret.controllerPassword ≠ []

/-- The data of an application come in pieces that are made together, and those of the
other kind are not its own. -/
def Complete (h : HalfState) : Half → Prop
  | .brokers => (h.cluster.clusterUuid ≠ [] ↔ h.cluster.adminPassword ≠ []) ∧
      h.cluster.controllerPassword = [] ∧ h.cluster.bootstrapController = [] ∧
      (h.bag.fields.clusterUuid = [] ∨ h.bag.fields.clusterUuid = h.cluster.clusterUuid)
  | .controllers => (h.cluster.bootstrapController ≠ [] ↔ h.cluster.controllerPassword ≠ []) ∧
      h.cluster.adminPassword = [] ∧ h.cluster.clusterUuid = [] ∧
      (h.secret.controllerPassword = [] ∨
        h.secret.controllerPassword = h.cluster.controllerPassword)

structure Sound (a : Half) (related : Bool) (h : HalfState) : Prop where
  complete : h.Complete a
  own : h.bag.fields.Of a
  remote : h.view.fields.Of a.other
  triggered : h.bag.fields.Triggered a → h.cluster.Initialised a
  echoView : h.view.data.Triggered a → h.bag.fields.Triggered a
  echoSeen : h.seen.data.Triggered a → h.bag.fields.Triggered a
  related : h.seen.fields.Heard a → related = true
  recorded : h.seen.fields.Heard a → h.bag.data = h.seen.fields
  answered : h.seen.fields.Heard a → h.cluster.Initialised a →
    h.Published a ∨ (h.bag.fields.Triggered a ∧ ¬ h.seen.data.Triggered a)

/-- What the other application can tell of a hook. -/
structure Local (a : Half) (related : Bool) (h h' : HalfState) : Prop where
  sound : h'.Sound a related
  triggered : h.bag.fields.Triggered a → h'.bag.fields.Triggered a
  view : h'.view = h.view
  data : h'.bag.data = h.bag.data ∨ h'.bag.data = h.view.fields
  clusterUuid : h.cluster.clusterUuid ≠ [] → h'.cluster.clusterUuid = h.cluster.clusterUuid
  controllerPassword : h.cluster.controllerPassword ≠ [] →
    h'.cluster.controllerPassword = h.cluster.controllerPassword

variable {a : Half} {related : Bool} {h : HalfState}

theorem Local.refl (hs : h.Sound a related) : h.Local a related h :=
  ⟨hs, id, rfl, .inl rfl, fun _ => rfl, fun _ => rfl⟩

theorem Local.trans {h' h'' : HalfState} (h1 : h.Local a related h')
    (h2 : h'.Local a related h'') : h.Local a related h'' where
  sound := h2.sound
  triggered ht := h2.triggered (h1.triggered ht)
  view := h2.view.trans h1.view
  data := by
    rcases h2.data with hd | hd
    · rw [hd]
      exact h1.data
    · rw [hd, h1.view]
      exact .inr rfl
  clusterUuid hu := by
    have heq := h1.clusterUuid hu
    rw [← heq]
    exact h2.clusterUuid (heq ▸ hu)
  controllerPassword hp := by
    have heq := h1.controllerPassword hp
    rw [← heq]
    exact h2.controllerPassword (heq ▸ hp)

theorem initBroker_local (hs : h.Sound .brokers related) (made : Made) :
    h.Local .brokers related ((h.initCredentials made).initUuid related made) := by
  obtain ⟨hboth, hpassword, hbootstrap, hvalue⟩ := hs.complete
  by_cases huuid : h.cluster.clusterUuid = []
  · have hadmin : h.cluster.adminPassword = [] := by
      by_contra hne
      exact hboth.mpr hne huuid
    have hquiet : ¬ h.bag.fields.Triggered .brokers := fun ht => hs.triggered ht huuid
    have hempty : h.bag.fields.clusterUuid = [] := by
      by_contra hne
      exact hquiet hne
    have hmade : ((made.clusterUuid : Str) ≠ [] ↔ (made.adminPassword : Str) ≠ []) :=
      ⟨fun _ => made.adminPassword.2, fun _ => made.clusterUuid.2⟩
    unfold initCredentials initUuid ifRelated
    simp only [huuid, hadmin, if_true]
    cases related with
    | false =>
      exact
        { sound :=
            { complete := ⟨hmade, hpassword, hbootstrap, .inl hempty⟩
              own := hs.own
              remote := hs.remote
              triggered := fun _ => made.clusterUuid.2
              echoView := hs.echoView
              echoSeen := hs.echoSeen
              related := hs.related
              recorded := hs.recorded
              answered := fun hheard => nomatch hs.related hheard }
          triggered := id
          view := rfl
          data := .inl rfl
          clusterUuid := fun hne => absurd huuid hne
          controllerPassword := fun _ => rfl }
    | true =>
      exact
        { sound :=
            { complete := ⟨hmade, hpassword, hbootstrap, .inr rfl⟩
              own := hs.own
              remote := hs.remote
              triggered := fun _ => made.clusterUuid.2
              echoView := fun ht => absurd (hs.echoView ht) hquiet
              echoSeen := fun ht => absurd (hs.echoSeen ht) hquiet
              related := hs.related
              recorded := hs.recorded
              answered := fun _ _ => .inr ⟨made.clusterUuid.2, fun ht => hquiet (hs.echoSeen ht)⟩ }
          triggered := fun _ => made.clusterUuid.2
          view := rfl
          data := .inl rfl
          clusterUuid := fun hne => absurd huuid hne
          controllerPassword := fun _ => rfl }
  · have hadmin : h.cluster.adminPassword ≠ [] := hboth.mp huuid
    have heq : (h.initCredentials made).initUuid related made = h := by
      simp [initCredentials, initUuid, huuid, hadmin]
    rw [heq]
    exact .refl hs

theorem initController_local (hs : h.Sound .controllers related) (made : Made) :
    h.Local .controllers related (h.initController related made) := by
  obtain ⟨hboth, hadmin, huuid, hvalue⟩ := hs.complete
  by_cases hboot : h.cluster.bootstrapController = []
  · have hpassword : h.cluster.controllerPassword = [] := by
      by_contra hne
      exact hboth.mpr hne hboot
    have hquiet : ¬ h.bag.fields.Triggered .controllers := fun ht => hs.triggered ht hboot
    have hempty : h.secret.controllerPassword = [] := by
      rcases hvalue with hv | hv
      · exact hv
      · rw [hv, hpassword]
    have hmade : ((made.bootstrapController : Str) ≠ [] ↔ (made.controllerPassword : Str) ≠ []) :=
      ⟨fun _ => made.controllerPassword.2, fun _ => made.bootstrapController.2⟩
    have hflag : decide ((made.controllerPassword : Str) ≠ []) = true :=
      decide_eq_true made.controllerPassword.2
    unfold initController ifRelated
    simp only [hboot, if_true]
    cases related with
    | false =>
      exact
        { sound :=
            { complete := ⟨hmade, hadmin, huuid, .inl hempty⟩
              own := hs.own
              remote := hs.remote
              triggered := fun _ => made.bootstrapController.2
              echoView := hs.echoView
              echoSeen := hs.echoSeen
              related := hs.related
              recorded := hs.recorded
              answered := fun hheard => nomatch hs.related hheard }
          triggered := id
          view := rfl
          data := .inl rfl
          clusterUuid := fun _ => rfl
          controllerPassword := fun hne => absurd hpassword hne }
    | true =>
      exact
        { sound :=
            { complete := ⟨hmade, hadmin, huuid, .inr rfl⟩
              own := hs.own
              remote := hs.remote
              triggered := fun _ => made.bootstrapController.2
              echoView := fun ht => absurd (hs.echoView ht) hquiet
              echoSeen := fun ht => absurd (hs.echoSeen ht) hquiet
              related := hs.related
              recorded := hs.recorded
              answered := fun _ _ => .inr ⟨hflag, fun ht => hquiet (hs.echoSeen ht)⟩ }
          triggered := fun _ => hflag
          view := rfl
          data := .inl rfl
          clusterUuid := fun _ => rfl
          controllerPassword := fun hne => absurd hpassword hne }
  · have heq : h.initController related made = h := if_neg hboot
    rw [heq]
    exact .refl hs

/-- A new bundle, published if there is a relation. -/
theorem setupInternalTls_local (hs : h.Sound a related) (made : Made) :
    h.Local a related (h.setupInternalTls a related made) := by
  by_cases hbundle : h.bundle = []
  · unfold setupInternalTls ifRelated
    simp only [hbundle, ne_eq, not_true_eq_false, if_false]
    cases related with
    | false =>
      exact
        { sound :=
            { complete := by cases a <;> exact hs.complete
              own := hs.own
              remote := hs.remote
              triggered := hs.triggered
              echoView := hs.echoView
              echoSeen := hs.echoSeen
              related := hs.related
              recorded := hs.recorded
              answered := fun hheard => nomatch hs.related hheard }
          triggered := id
          view := rfl
          data := .inl rfl
          clusterUuid := fun _ => rfl
          controllerPassword := fun _ => rfl }
    | true =>
      cases a <;>
      exact
        { sound :=
            { complete := hs.complete
              own := hs.own
              remote := hs.remote
              triggered := hs.triggered
              echoView := hs.echoView
              echoSeen := hs.echoSeen
              related := hs.related
              recorded := hs.recorded
              answered := hs.answered }
          triggered := id
          view := rfl
          data := .inl rfl
          clusterUuid := fun _ => rfl
          controllerPassword := fun _ => rfl }
  · have heq : h.setupInternalTls a related made = h := if_pos hbundle
    rw [heq]
    exact .refl hs

theorem orRemote_nil (own : Str) : orRemote own [] = own := by
  unfold orRemote
  split
  · rfl
  · rename_i hown
    simpa using Eq.symm (not_not.mp hown)

theorem adminUser_ne_nil : ClusterState.adminUser ≠ [] := by decide

variable {d : Split} {secret : PeerSecret}

/-- The number of racks in the data of the brokers. -/
def racksText (racks : Nat) : Str := orRemote (if racks = 0 then [] else decimal racks) "0".toList

/-- What brokers publish is their own. -/
theorem updatePeerClusterData_eq (hremote : h.view.fields.Of .controllers) (reads : BrokerReads) :
    h.updatePeerClusterData .brokers (d.roles .brokers) reads secret =
      { h with
        bag.fields.roles := some (d.roles .brokers)
        bag.fields.brokerSecret := true
        bag.fields.clusterUuid := h.cluster.clusterUuid
        bag.fields.brokerCa := h.bundle
        bag.fields.racks := racksText reads.racks
        bag.fields.brokerCapacities := reads.capacities
        bag.fields.superUsers := reads.superUsers
        secret.brokerUsername := ClusterState.adminUser
        secret.brokerPassword := h.cluster.adminPassword
        secret.brokerUris := reads.uris } := by
  obtain ⟨huuid, hsecret, hracks⟩ := hremote
  have hzero : orRemote [] ['0'] = ['0'] := if_neg (not_not.mpr rfl)
  simp [updatePeerClusterData, publishCa, publishUuid, publishBrokerCredentials, peerCluster,
    remoteData, fetchFromSecrets, Split.roles, huuid, hsecret, hracks, orRemote_nil,
    adminUser_ne_nil, hzero, racksText]

/-- So it is when they have seen the other application. -/
theorem orchestratorChanged_eq (hs : h.Sound .brokers related)
    (hheard : h.view.fields.Heard .brokers) (reads : BrokerReads) (updateStatus : Bool) :
    h.onPeerClusterOrchestratorChanged .brokers (d.roles .brokers) reads secret updateStatus =
      { h with
        bag.fields.roles := some (d.roles .brokers)
        bag.fields.brokerSecret := true
        bag.fields.clusterUuid := h.cluster.clusterUuid
        bag.fields.brokerCa := h.bundle
        bag.fields.racks := racksText reads.racks
        bag.fields.brokerCapacities := reads.capacities
        bag.fields.superUsers := reads.superUsers
        bag.data := if updateStatus then h.bag.data else h.view.fields
        secret.brokerUsername := ClusterState.adminUser
        secret.brokerPassword := h.cluster.adminPassword
        secret.brokerUris := reads.uris } := by
  have hanswers : answers h.view.fields.roles = true := hheard
  unfold onPeerClusterOrchestratorChanged
  rw [if_neg (by simp [Split.roles, hanswers])]
  cases updateStatus with
  | true => exact updatePeerClusterData_eq hs.remote reads
  | false => exact updatePeerClusterData_eq (h := h.diff) hs.remote reads

/-- What controllers publish is their own. -/
theorem peerClusterChanged_eq (hs : h.Sound .controllers related)
    (hheard : h.view.fields.Heard .controllers) :
    h.onPeerClusterChanged .controllers (d.roles .controllers) secret =
      { h with
        bag.fields.controllerSecret := decide (h.cluster.controllerPassword ≠ [])
        bag.fields.bootstrapController := h.cluster.bootstrapController
        bag.fields.bootstrapUnitId := h.cluster.bootstrapUnitId
        bag.fields.bootstrapReplicaId := h.cluster.bootstrapReplicaId
        bag.fields.controllerCa := h.bundle
        bag.data := h.view.fields
        secret.controllerPassword := h.cluster.controllerPassword } := by
  obtain ⟨hsecret, hboot, hunit, hreplica⟩ := hs.remote
  have hroles : h.view.fields.roles ≠ none := hheard
  unfold onPeerClusterChanged
  rw [if_neg hroles]
  simp [diff, publishCa, publishControllerPassword, publishBootstrap, peerCluster, remoteData,
    fetchFromSecrets, Split.roles, hsecret, hboot, hunit, hreplica, orRemote_nil]

/-- Brokers that publish what they have are sound, whatever they file and have seen. -/
theorem Sound.brokersPublish (hs : h.Sound .brokers related) (reads : BrokerReads)
    {data : PeerFields} {seen : PeerBag}
    (hrelated : seen.fields.Heard .brokers → related = true)
    (hrecorded : seen.fields.Heard .brokers → data = seen.fields)
    (hecho : seen.data.Triggered .brokers → h.bag.fields.Triggered .brokers) :
    Sound .brokers related
      { h with
        bag.fields.roles := some (d.roles .brokers)
        bag.fields.brokerSecret := true
        bag.fields.clusterUuid := h.cluster.clusterUuid
        bag.fields.brokerCa := h.bundle
        bag.fields.racks := racksText reads.racks
        bag.fields.brokerCapacities := reads.capacities
        bag.fields.superUsers := reads.superUsers
        bag.data := data
        secret.brokerUsername := ClusterState.adminUser
        secret.brokerPassword := h.cluster.adminPassword
        secret.brokerUris := reads.uris
        seen := seen } := by
  obtain ⟨hboth, hpassword, hbootstrap, hvalue⟩ := hs.complete
  exact
    { complete := ⟨hboth, hpassword, hbootstrap, .inr rfl⟩
      own := hs.own
      remote := hs.remote
      triggered := id
      echoView := fun ht => hs.triggered (hs.echoView ht)
      echoSeen := fun ht => hs.triggered (hecho ht)
      related := hrelated
      recorded := hrecorded
      answered := fun _ hinit => .inl ⟨hinit, rfl, adminUser_ne_nil, hboth.mp hinit⟩ }

theorem Sound.controllersPublish (hs : h.Sound .controllers related) {data : PeerFields}
    {seen : PeerBag}
    (hrelated : seen.fields.Heard .controllers → related = true)
    (hrecorded : seen.fields.Heard .controllers → data = seen.fields)
    (hecho : seen.data.Triggered .controllers → h.bag.fields.Triggered .controllers) :
    Sound .controllers related
      { h with
        bag.fields.controllerSecret := decide (h.cluster.controllerPassword ≠ [])
        bag.fields.bootstrapController := h.cluster.bootstrapController
        bag.fields.bootstrapUnitId := h.cluster.bootstrapUnitId
        bag.fields.bootstrapReplicaId := h.cluster.bootstrapReplicaId
        bag.fields.controllerCa := h.bundle
        bag.data := data
        secret.controllerPassword := h.cluster.controllerPassword
        seen := seen } := by
  obtain ⟨hboth, hadmin, huuid, hvalue⟩ := hs.complete
  have hmono : h.bag.fields.Triggered .controllers →
      decide (h.cluster.controllerPassword ≠ []) = true := by
    intro ht
    exact decide_eq_true (hboth.mp (hs.triggered ht))
  exact
    { complete := ⟨hboth, hadmin, huuid, .inr rfl⟩
      own := hs.own
      remote := hs.remote
      triggered := fun ht => hboth.mpr (of_decide_eq_true ht)
      echoView := fun ht => hmono (hs.echoView ht)
      echoSeen := fun ht => hmono (hecho ht)
      related := hrelated
      recorded := hrecorded
      answered := fun _ hinit =>
        .inl ⟨hinit, decide_eq_true (hboth.mp hinit), hboth.mp hinit⟩ }

/-- A relation-changed hook that is not taken up is a view that is not heard. -/
theorem Sound.unheard (hs : h.Sound a related) (hheard : ¬ h.view.fields.Heard a) :
    Sound a related { h with seen := h.view } :=
  { complete := by cases a <;> exact hs.complete
    own := hs.own
    remote := hs.remote
    triggered := hs.triggered
    echoView := hs.echoView
    echoSeen := hs.echoView
    related := fun h' => absurd h' hheard
    recorded := fun h' => absurd h' hheard
    answered := fun h' => absurd h' hheard }

theorem orchestratorChanged_unheard (hheard : ¬ h.view.fields.Heard .brokers)
    (reads : BrokerReads) (updateStatus : Bool) :
    h.onPeerClusterOrchestratorChanged .brokers (d.roles .brokers) reads secret updateStatus =
      h := by
  unfold onPeerClusterOrchestratorChanged
  exact if_pos (.inr (by simpa [PeerFields.Heard] using hheard))

theorem onChanged_local (hs : h.Sound a true) (reads : BrokerReads) :
    h.Local a true (h.onChanged a (d.roles a) reads secret) := by
  cases a with
  | brokers =>
    unfold onChanged
    by_cases hheard : h.view.fields.Heard .brokers
    · simp only [orchestratorChanged_eq hs hheard reads]
      exact
        { sound := hs.brokersPublish reads (fun _ => rfl) (fun _ => rfl) hs.echoView
          triggered := hs.triggered
          view := rfl
          data := .inr rfl
          clusterUuid := fun _ => rfl
          controllerPassword := fun _ => rfl }
    · simp only [orchestratorChanged_unheard hheard reads]
      exact ⟨hs.unheard hheard, id, rfl, .inl rfl, fun _ => rfl, fun _ => rfl⟩
  | controllers =>
    unfold onChanged
    by_cases hheard : h.view.fields.Heard .controllers
    · simp only [peerClusterChanged_eq hs hheard]
      exact
        { sound := hs.controllersPublish (fun _ => rfl) (fun _ => rfl) hs.echoView
          triggered := fun ht => decide_eq_true (hs.complete.1.mp (hs.triggered ht))
          view := rfl
          data := .inr rfl
          clusterUuid := fun _ => rfl
          controllerPassword := fun _ => rfl }
    · have heq : h.onPeerClusterChanged .controllers (d.roles .controllers) secret = h :=
        if_pos (not_not.mp hheard)
      simp only [heq]
      exact ⟨hs.unheard hheard, id, rfl, .inl rfl, fun _ => rfl, fun _ => rfl⟩

theorem configChanged_local (hs : h.Sound .brokers related) (reads : BrokerReads) :
    h.Local .brokers related
      (h.updatePeerClusterData .brokers (d.roles .brokers) reads secret) := by
  rw [updatePeerClusterData_eq hs.remote reads]
  exact
    { sound := hs.brokersPublish reads hs.related hs.recorded hs.echoSeen
      triggered := hs.triggered
      view := rfl
      data := .inl rfl
      clusterUuid := fun _ => rfl
      controllerPassword := fun _ => rfl }

theorem updateStatus_local (hs : h.Sound a related) (reads : BrokerReads) :
    h.Local a related (h.onPeerClusterOrchestratorChanged a (d.roles a) reads secret true) := by
  cases a with
  | brokers =>
    by_cases hheard : h.view.fields.Heard .brokers
    · rw [orchestratorChanged_eq hs hheard reads]
      exact
        { sound := hs.brokersPublish reads hs.related hs.recorded hs.echoSeen
          triggered := hs.triggered
          view := rfl
          data := .inl rfl
          clusterUuid := fun _ => rfl
          controllerPassword := fun _ => rfl }
    · rw [orchestratorChanged_unheard hheard reads]
      exact .refl hs
  | controllers =>
    have heq : h.onPeerClusterOrchestratorChanged .controllers (d.roles .controllers) reads secret
        true = h := if_pos (.inl rfl)
    rw [heq]
    exact .refl hs

theorem created_local (hs : h.Sound a related) (roles : Roles) :
    h.Local a related { h with bag.fields.roles := some roles } :=
  { sound :=
      { complete := by cases a <;> exact hs.complete
        own := by cases a <;> exact hs.own
        remote := hs.remote
        triggered := by cases a <;> exact hs.triggered
        echoView := by cases a <;> exact hs.echoView
        echoSeen := by cases a <;> exact hs.echoSeen
        related := hs.related
        recorded := hs.recorded
        answered := by cases a <;> exact hs.answered }
    triggered := by cases a <;> exact id
    view := rfl
    data := .inl rfl
    clusterUuid := fun _ => rfl
    controllerPassword := fun _ => rfl }

theorem Sound.newBundle (hs : h.Sound a related) (bundle : List Str) :
    Sound a related { h with bundle := bundle } :=
  { complete := by cases a <;> exact hs.complete
    own := hs.own
    remote := hs.remote
    triggered := hs.triggered
    echoView := hs.echoView
    echoSeen := hs.echoSeen
    related := hs.related
    recorded := hs.recorded
    answered := by cases a <;> exact hs.answered }

theorem leaderElected_local (hs : h.Sound a related) (e : Elected) :
    h.Local a related (h.leaderElected (d.roles a) related e) := by
  have hs' := hs.newBundle e.bundle
  unfold leaderElected
  dsimp only
  split
  · exact ⟨hs', id, rfl, .inl rfl, fun _ => rfl, fun _ => rfl⟩
  · rename_i hguard
    rw [not_or] at hguard
    cases a with
    | brokers => simp [Split.roles] at hguard
    | controllers =>
      obtain ⟨hboth, hadmin, huuid, hvalue⟩ := hs.complete
      have hmade : ((e.bootstrapController : Str) ≠ [] ↔ h.cluster.controllerPassword ≠ []) :=
        ⟨fun _ => hboth.mp hguard.1, fun _ => e.bootstrapController.2⟩
      unfold ifRelated
      cases related with
      | false =>
        exact
          { sound :=
              { complete := ⟨hmade, hadmin, huuid, hvalue⟩
                own := hs.own
                remote := hs.remote
                triggered := fun _ => e.bootstrapController.2
                echoView := hs.echoView
                echoSeen := hs.echoSeen
                related := hs.related
                recorded := hs.recorded
                answered := fun hheard => nomatch hs.related hheard }
            triggered := id
            view := rfl
            data := .inl rfl
            clusterUuid := fun _ => rfl
            controllerPassword := fun _ => rfl }
      | true =>
        exact
          { sound :=
              { complete := ⟨hmade, hadmin, huuid, hvalue⟩
                own := hs.own
                remote := hs.remote
                triggered := fun _ => e.bootstrapController.2
                echoView := hs.echoView
                echoSeen := hs.echoSeen
                related := hs.related
                recorded := hs.recorded
                answered := fun hheard _ =>
                  (hs.answered hheard hguard.1).imp_left fun hp =>
                    ⟨e.bootstrapController.2, hp.2⟩ }
            triggered := id
            view := rfl
            data := .inl rfl
            clusterUuid := fun _ => rfl
            controllerPassword := fun _ => rfl }

theorem start_local (hs : h.Sound a related) (made : Made) :
    h.Local a related
      ((h.initKraftMode (d.roles a) related made).setupInternalTls a related made) := by
  have hinit : h.Local a related (h.initKraftMode (d.roles a) related made) := by
    cases a with
    | brokers => exact initBroker_local hs made
    | controllers => exact initController_local hs made
  exact hinit.trans (setupInternalTls_local hinit.sound made)

theorem Sound.fetch (hs : h.Sound a related)
    {bag : PeerBag} (hof : bag.fields.Of a.other)
    (hecho : bag.data.Triggered a → h.bag.fields.Triggered a) :
    Sound a related { h with view := bag } :=
  { complete := by cases a <;> exact hs.complete
    own := hs.own
    remote := hof
    triggered := hs.triggered
    echoView := hecho
    echoSeen := hs.echoSeen
    related := hs.related
    recorded := hs.recorded
    answered := by cases a <;> exact hs.answered }

theorem Sound.relate (hs : h.Sound a related) :
    h.Sound a true :=
  { hs with related := fun _ => rfl }

/-! ### Certificates -/

/-- A leader that has certificates and has heard of the other application has published
some, if not its own. -/
def Certified (a : Half) (h : HalfState) : Prop :=
  h.seen.fields.Heard a → h.bundle ≠ [] → h.bag.fields.ca a ≠ []

theorem Certified.of_same (hc : h.Certified a) {h' : HalfState} (hseen : h'.seen = h.seen)
    (hbundle : h'.bundle = h.bundle) (hca : h'.bag.fields.ca a = h.bag.fields.ca a) :
    h'.Certified a := by
  unfold Certified
  rw [hseen, hbundle, hca]
  exact hc

theorem initCredentials_certified (hc : h.Certified .brokers) (made : Made) :
    (h.initCredentials made).Certified .brokers := by
  unfold initCredentials
  split
  · exact hc.of_same rfl rfl rfl
  · exact hc

theorem initUuid_certified (hc : h.Certified .brokers) (made : Made) :
    (h.initUuid related made).Certified .brokers := by
  unfold initUuid ifRelated
  split
  · split
    · exact hc.of_same rfl rfl rfl
    · exact hc.of_same rfl rfl rfl
  · exact hc

theorem initController_certified (hc : h.Certified .controllers) (made : Made) :
    (h.initController related made).Certified .controllers := by
  unfold initController
  split
  · cases related <;> exact hc.of_same rfl rfl rfl
  · exact hc

theorem setupInternalTls_certified (hs : h.Sound a related) (hc : h.Certified a) (made : Made) :
    (h.setupInternalTls a related made).Certified a := by
  unfold setupInternalTls ifRelated
  split
  · exact hc
  · split
    · cases a <;> exact fun _ _ => made.bundle.2
    · rename_i hunrelated
      exact fun hheard => absurd (hs.related hheard) hunrelated

theorem start_certified (hs : h.Sound a related) (hc : h.Certified a) (made : Made) :
    ((h.initKraftMode (d.roles a) related made).setupInternalTls a related made).Certified a := by
  cases a with
  | brokers =>
    exact setupInternalTls_certified (initBroker_local hs made).sound
      (initUuid_certified (initCredentials_certified hc made) made) made
  | controllers =>
    exact setupInternalTls_certified (initController_local hs made).sound
      (initController_certified hc made) made

theorem onChanged_certified (hs : h.Sound a related) (reads : BrokerReads) :
    (h.onChanged a (d.roles a) reads secret).Certified a := by
  unfold onChanged
  by_cases hheard : h.view.fields.Heard a
  · cases a with
    | brokers =>
      simp only [orchestratorChanged_eq hs hheard reads]
      exact fun _ hbundle => hbundle
    | controllers =>
      simp only [peerClusterChanged_eq hs hheard]
      exact fun _ hbundle => hbundle
  · intro hseen
    cases a with
    | brokers =>
      simp only [orchestratorChanged_unheard hheard reads] at hseen
      exact absurd hseen hheard
    | controllers =>
      have heq : h.onPeerClusterChanged .controllers (d.roles .controllers) secret = h :=
        if_pos (not_not.mp hheard)
      simp only [heq] at hseen
      exact absurd hseen hheard

theorem configChanged_certified (hs : h.Sound .brokers related) (reads : BrokerReads) :
    (h.updatePeerClusterData .brokers (d.roles .brokers) reads secret).Certified .brokers := by
  rw [updatePeerClusterData_eq hs.remote reads]
  exact fun _ hbundle => hbundle

theorem updateStatus_certified (hs : h.Sound a related) (hc : h.Certified a)
    (reads : BrokerReads) :
    (h.onPeerClusterOrchestratorChanged a (d.roles a) reads secret true).Certified a := by
  cases a with
  | brokers =>
    by_cases hheard : h.view.fields.Heard .brokers
    · rw [orchestratorChanged_eq hs hheard reads]
      exact fun _ hbundle => hbundle
    · rw [orchestratorChanged_unheard hheard reads]
      exact hc
  | controllers =>
    have heq : h.onPeerClusterOrchestratorChanged .controllers (d.roles .controllers) reads secret
        true = h := if_pos (.inl rfl)
    rw [heq]
    exact hc

theorem leaderElected_certified (hc : h.Certified a) (e : Elected)
    (hok : h.bundle ≠ [] ∨ e.bundle = []) :
    (h.leaderElected (d.roles a) related e).Certified a := by
  have hold : h.seen.fields.Heard a → e.bundle ≠ [] → h.bag.fields.ca a ≠ [] :=
    fun hheard hne => hc hheard (hok.resolve_right hne)
  unfold leaderElected ifRelated publishBootstrap
  dsimp only
  split
  · exact hold
  · split <;> cases a <;> exact hold

end HalfState

/-! ## Both applications -/

namespace Handshake

variable {d : Split} {reads : BrokerReads} {s t : Handshake} {a : Half}

theorem other_ne (a : Half) : a.other ≠ a := by cases a <;> decide

@[simp] theorem other_other (a : Half) : a.other.other = a := by cases a <;> rfl

theorem update_self (s : Handshake) (a : Half) (f : HalfState → HalfState) :
    (s.update a f).half a = f (s.half a) := by
  simp [update]

theorem update_other (s : Handshake) (a : Half) (f : HalfState → HalfState) :
    (s.update a f).half a.other = s.half a.other := by
  simp [update, other_ne]

theorem half_cases (a b : Half) : b = a ∨ b = a.other := by
  cases a <;> cases b <;> simp [Half.other]

/-- Each application is sound, and what it has seen and filed of the other is not ahead
of that. -/
structure Inv (s : Handshake) : Prop where
  sound : ∀ a, (s.half a).Sound a s.related
  echo : ∀ a, (s.half a.other).bag.data.Triggered a → (s.half a).bag.fields.Triggered a
  viewed : ∀ a, (s.half a.other).view.fields.Triggered a → (s.half a).bag.fields.Triggered a
  uuid : (s.half .controllers).view.fields.clusterUuid = [] ∨
    (s.half .controllers).view.fields.clusterUuid = (s.half .brokers).cluster.clusterUuid

/-- A hook of one application keeps what both know. -/
theorem Inv.update {f : HalfState → HalfState} (hs : s.Inv)
    (hf : (s.half a).Local a s.related (f (s.half a))) : (s.update a f).Inv := by
  have hself := update_self s a f
  have hother := update_other s a f
  refine ⟨fun b => ?_, fun b ht => ?_, fun b ht => ?_, ?_⟩
  · rcases half_cases a b with rfl | rfl
    · rw [hself]
      exact hf.sound
    · rw [hother]
      exact hs.sound a.other
  · rcases half_cases a b with rfl | rfl
    · rw [hother] at ht
      rw [hself]
      exact hf.triggered (hs.echo b ht)
    · rw [other_other, hself] at ht
      rw [hother]
      rcases hf.data with hd | hd
      · exact hs.echo a.other (by rw [other_other]; exact hd ▸ ht)
      · exact hs.viewed a.other (by rw [other_other]; exact hd ▸ ht)
  · rcases half_cases a b with rfl | rfl
    · rw [hother] at ht
      rw [hself]
      exact hf.triggered (hs.viewed b ht)
    · rw [other_other, hself, hf.view] at ht
      rw [hother]
      exact hs.viewed a.other (by rw [other_other]; exact ht)
  · cases a with
    | brokers =>
      have hview : ((s.update .brokers f).half .controllers) = s.half .controllers := hother
      rw [hview, hself]
      rcases hs.uuid with hu | hu
      · exact .inl hu
      · by_cases hne : (s.half .brokers).cluster.clusterUuid = []
        · exact .inl (hu.trans hne)
        · exact .inr (hu.trans (hf.clusterUuid hne).symm)
    | controllers =>
      have hown : ((s.update .controllers f).half .brokers) = s.half .brokers := hother
      rw [hself, hf.view, hown]
      exact hs.uuid

theorem Inv.fetch (hs : s.Inv) (a : Half) :
    (s.update a fun h => { h with view := (s.half a.other).bag }).Inv := by
  have hself := update_self s a fun h => { h with view := (s.half a.other).bag }
  have hother := update_other s a fun h => { h with view := (s.half a.other).bag }
  refine ⟨fun b => ?_, fun b ht => ?_, fun b ht => ?_, ?_⟩
  · rcases half_cases a b with rfl | rfl
    · rw [hself]
      exact HalfState.Sound.fetch (hs.sound b) (hs.sound b.other).own (hs.echo b)
    · rw [hother]
      exact hs.sound a.other
  · rcases half_cases a b with rfl | rfl
    · rw [hother] at ht
      rw [hself]
      exact hs.echo b ht
    · rw [other_other, hself] at ht
      rw [hother]
      exact hs.echo a.other (by rw [other_other]; exact ht)
  · rcases half_cases a b with rfl | rfl
    · rw [hother] at ht
      rw [hself]
      exact hs.viewed b ht
    · rw [other_other, hself] at ht
      rw [hother]
      exact ht
  · cases a with
    | brokers =>
      have hview := hother
      change (Handshake.update s .brokers _).half .controllers = s.half .controllers at hview
      rw [hview, hself]
      exact hs.uuid
    | controllers =>
      have hown := hother
      change (Handshake.update s .controllers _).half .brokers = s.half .brokers at hown
      rw [hself, hown]
      exact (hs.sound .brokers).complete.2.2.2

/-- A step relates the applications, reads the data of the other one, or is a hook that
works on its own application. -/
theorem step_cases {e : HandshakeEvent} (hs : s.Inv) (hstep : s.step d e = some t) :
    t = { s with related := true } ∨
    (∃ a, t = s.update a fun h => { h with view := (s.half a.other).bag }) ∨
    ∃ a f, t = s.update a f ∧ (s.half a).Local a s.related (f (s.half a)) := by
  cases e with
  | relate =>
    cases hstep
    exact .inl rfl
  | created a =>
    simp only [step, Option.ite_none_right_eq_some, Option.some.injEq] at hstep
    exact .inr (.inr ⟨a, _, hstep.2.symm, HalfState.created_local (hs.sound a) (d.roles a)⟩)
  | start a made =>
    cases hstep
    exact .inr (.inr ⟨a, _, rfl, HalfState.start_local (hs.sound a) made⟩)
  | fetch a =>
    simp only [step, Option.ite_none_right_eq_some, Option.some.injEq] at hstep
    exact .inr (.inl ⟨a, hstep.2.symm⟩)
  | changed a reads =>
    simp only [step, Option.ite_none_right_eq_some, Option.some.injEq] at hstep
    obtain ⟨hrelated, hstep⟩ := hstep
    have hsound := hs.sound a
    rw [hrelated] at hsound
    refine .inr (.inr ⟨a, _, hstep.symm, ?_⟩)
    rw [hrelated]
    exact HalfState.onChanged_local hsound reads
  | updateStatus a reads =>
    cases hstep
    exact .inr (.inr ⟨a, _, rfl, HalfState.updateStatus_local (hs.sound a) reads⟩)
  | configChanged reads =>
    simp only [step, Option.ite_none_right_eq_some, Option.some.injEq] at hstep
    exact .inr (.inr ⟨.brokers, _, hstep.2.symm,
      HalfState.configChanged_local (hs.sound .brokers) reads⟩)
  | elected a e =>
    cases hstep
    exact .inr (.inr ⟨a, _, rfl, HalfState.leaderElected_local (hs.sound a) e⟩)

theorem step_inv {e : HandshakeEvent} (hs : s.Inv) (hstep : s.step d e = some t) : t.Inv := by
  obtain rfl | ⟨a, rfl⟩ | ⟨a, f, rfl, hf⟩ := step_cases hs hstep
  · exact ⟨fun a => HalfState.Sound.relate (hs.sound a), hs.echo, hs.viewed, hs.uuid⟩
  · exact hs.fetch a
  · exact hs.update hf

theorem initial_inv : initial.Inv := by
  refine ⟨fun a => ?_, fun a ht => ?_, fun a ht => ?_, .inl rfl⟩
  · have hquiet : ¬ PeerFields.empty.Triggered a := by
      cases a <;> simp [PeerFields.Triggered, PeerFields.empty]
    have hdeaf : ¬ PeerFields.empty.Heard a := by
      cases a <;> simp [PeerFields.Heard, PeerFields.empty, HalfState.answers]
    exact
      { complete := by cases a <;> simp [HalfState.Complete, initial, HalfState.initial,
          PeerBag.empty, PeerFields.empty]
        own := by cases a <;> simp [PeerFields.Of, initial, HalfState.initial, PeerBag.empty,
          PeerFields.empty]
        remote := by cases a <;> simp [PeerFields.Of, initial, HalfState.initial, PeerBag.empty,
          PeerFields.empty, Half.other]
        triggered := fun ht => absurd ht hquiet
        echoView := id
        echoSeen := id
        related := fun hh => absurd hh hdeaf
        recorded := fun hh => absurd hh hdeaf
        answered := fun hh => absurd hh hdeaf }
  · exact ht
  · exact ht

theorem reached_inv {ok : Handshake → HandshakeEvent → Prop}
    (h : Reaches (step d) ok initial s) : s.Inv :=
  h.invariant initial_inv fun _ _ _ hs _ hstep => step_inv hs hstep

/-- A unit takes over only from one that has handled all that was delivered, since its own
relation-changed hooks did nothing; with certificates only from one that has published its own. -/
def orderly (s : Handshake) : HandshakeEvent → Prop
  | .elected a e => ¬ s.pending a ∧ ((s.half a).bundle ≠ [] ∨ e.bundle = [])
  | .relate | .created _ | .start _ _ | .fetch _ | .changed _ _ | .updateStatus _ _ |
    .configChanged _ => True

instance (s : Handshake) : (e : HandshakeEvent) → Decidable (s.orderly e)
  | .elected a e =>
    inferInstanceAs (Decidable (¬ s.pending a ∧ ((s.half a).bundle ≠ [] ∨ e.bundle = [])))
  | .relate | .created _ | .start _ _ | .fetch _ | .changed _ _ | .updateStatus _ _ |
    .configChanged _ => inferInstanceAs (Decidable True)

/-- A hook touches the certificates of its own application only. -/
theorem update_certified {f : HalfState → HalfState} (hc : ∀ b, (s.half b).Certified b)
    (hf : (f (s.half a)).Certified a) : ∀ b, ((s.update a f).half b).Certified b := by
  intro b
  rcases half_cases a b with rfl | rfl
  · rw [update_self]
    exact hf
  · rw [update_other]
    exact hc a.other

theorem step_certified {e : HandshakeEvent} (hs : s.Inv) (hc : ∀ b, (s.half b).Certified b)
    (hok : s.orderly e) (hstep : s.step d e = some t) : ∀ b, (t.half b).Certified b := by
  cases e with
  | relate =>
    cases hstep
    exact hc
  | created a =>
    simp only [step, Option.ite_none_right_eq_some, Option.some.injEq] at hstep
    obtain ⟨-, rfl⟩ := hstep
    exact update_certified hc (by cases a <;> exact hc _)
  | start a made =>
    cases hstep
    exact update_certified hc (HalfState.start_certified (hs.sound a) (hc a) made)
  | fetch a =>
    simp only [step, Option.ite_none_right_eq_some, Option.some.injEq] at hstep
    obtain ⟨-, rfl⟩ := hstep
    exact update_certified hc (hc a)
  | changed a reads =>
    simp only [step, Option.ite_none_right_eq_some, Option.some.injEq] at hstep
    obtain ⟨-, rfl⟩ := hstep
    exact update_certified hc (HalfState.onChanged_certified (hs.sound a) reads)
  | updateStatus a reads =>
    cases hstep
    exact update_certified hc (HalfState.updateStatus_certified (hs.sound a) (hc a) reads)
  | configChanged reads =>
    simp only [step, Option.ite_none_right_eq_some, Option.some.injEq] at hstep
    obtain ⟨-, rfl⟩ := hstep
    exact update_certified hc (HalfState.configChanged_certified (hs.sound .brokers) reads)
  | elected a e =>
    cases hstep
    exact update_certified hc (HalfState.leaderElected_certified (hc a) e hok.2)

theorem reached_certified (h : Reaches (step d) orderly initial s) :
    ∀ b, (s.half b).Certified b := by
  have hboth : s.Inv ∧ ∀ b, (s.half b).Certified b := by
    refine h.invariant (I := fun x => x.Inv ∧ ∀ b, (x.half b).Certified b)
      ⟨initial_inv, fun b hheard => ?_⟩ fun x e y hx hok hstep =>
        ⟨step_inv hx.1 hstep, step_certified hx.1 hx.2 hok hstep⟩
    cases b <;> simp [PeerFields.Heard, initial, HalfState.initial, PeerBag.empty,
      PeerFields.empty, HalfState.answers] at hheard
  exact hboth.2

/-! ## Ready -/

/-- The hooks that both leaders have run at least: relation-created and start. -/
structure Started (d : Split) (s : Handshake) : Prop where
  roles : ∀ a, (s.half a).bag.fields.roles = some (d.roles a)
  initialised : ∀ a, (s.half a).cluster.Initialised a
  bundle : ∀ a, (s.half a).bundle ≠ []

instance (d : Split) (s : Handshake) : Decidable (s.Started d) :=
  decidable_of_iff ((∀ a, (s.half a).bag.fields.roles = some (d.roles a)) ∧
      (∀ a, (s.half a).cluster.Initialised a) ∧ ∀ a, (s.half a).bundle ≠ [])
    ⟨fun h => ⟨h.1, h.2.1, h.2.2⟩, fun h => ⟨h.roles, h.initialised, h.bundle⟩⟩

theorem Started.heard (hs : s.Started d) (a : Half) : (s.half a.other).bag.fields.Heard a := by
  cases a with
  | brokers =>
    change HalfState.answers (s.half .controllers).bag.fields.roles = true
    rw [hs.roles]
    simp [HalfState.answers, Split.roles]
  | controllers =>
    change (s.half .brokers).bag.fields.roles ≠ none
    rw [hs.roles]
    simp

theorem Exchanged.seen (hex : s.Exchanged) (a : Half) :
    (s.half a).view = (s.half a.other).bag ∧ (s.half a).seen = (s.half a.other).bag :=
  not_not.mp (hex a)

/-- Nothing is left to deliver only when both sides have published: a side that has not
still waits for the echo of its first value. -/
theorem Inv.published (hs : s.Inv) (hst : s.Started d) (hex : s.Exchanged) (a : Half) :
    (s.half a).Published a := by
  have hseen : (s.half a).seen = (s.half a.other).bag := (hex.seen a).2
  have hheard : (s.half a).seen.fields.Heard a := hseen ▸ hst.heard a
  rcases (hs.sound a).answered hheard (hst.initialised a) with hp | ⟨htrig, hnot⟩
  · exact hp
  · have hback : (s.half a.other).seen = (s.half a).bag := by
      have := (hex.seen a.other).2
      rwa [other_other] at this
    have hheard' : (s.half a.other).seen.fields.Heard a.other := by
      rw [hback]
      have := hst.heard a.other
      rwa [other_other] at this
    have hfiled := (hs.sound a.other).recorded hheard'
    rw [hseen, hfiled, hback] at hnot
    exact absurd htrig hnot

theorem orRemote_of_nil {own : Str} (h : own = []) (remote : Str) : orRemote own remote = remote := by
  simp [orRemote, h]

/-- What brokers read: their own data, and those of the controllers. -/
theorem Inv.peerCluster_brokers (hs : s.Inv) :
    (s.peerCluster d .brokers).clusterUuid = (s.half .brokers).cluster.clusterUuid ∧
    (s.peerCluster d .brokers).bootstrapController =
      (s.half .brokers).view.fields.bootstrapController ∧
    (s.peerCluster d .brokers).controllerPassword =
      fetchFromSecrets (s.half .brokers).view.fields.controllerSecret
        (s.half .controllers).secret.controllerPassword := by
  obtain ⟨-, hpassword, hbootstrap, -⟩ := (hs.sound .brokers).complete
  obtain ⟨huuid, -, -⟩ := (hs.sound .brokers).remote
  refine ⟨?_, ?_, ?_⟩
  · simp [peerCluster, HalfState.peerCluster, HalfState.remoteData, Split.roles, huuid,
      HalfState.orRemote_nil]
  · exact orRemote_of_nil (by simp [hbootstrap]) _
  · exact orRemote_of_nil (by simp [hpassword]) _

theorem Inv.peerCluster_controllers (hs : s.Inv) :
    (s.peerCluster d .controllers).clusterUuid = (s.half .controllers).view.fields.clusterUuid ∧
    (s.peerCluster d .controllers).controllerPassword =
      (s.half .controllers).cluster.controllerPassword ∧
    (s.peerCluster d .controllers).brokerUsername =
      fetchFromSecrets (s.half .controllers).view.fields.brokerSecret
        (s.half .brokers).secret.brokerUsername ∧
    (s.peerCluster d .controllers).brokerPassword =
      fetchFromSecrets (s.half .controllers).view.fields.brokerSecret
        (s.half .brokers).secret.brokerPassword := by
  obtain ⟨hsecret, -⟩ := (hs.sound .controllers).remote
  refine ⟨?_, ?_, ?_, ?_⟩
  · simp [peerCluster, HalfState.peerCluster, HalfState.remoteData, Split.roles, orRemote]
  · simp [peerCluster, HalfState.peerCluster, HalfState.remoteData, Split.roles, hsecret,
      fetchFromSecrets, HalfState.orRemote_nil]
  · simp [peerCluster, HalfState.peerCluster, HalfState.remoteData, Split.roles, orRemote,
      Half.other]
  · simp [peerCluster, HalfState.peerCluster, HalfState.remoteData, Split.roles, orRemote,
      Half.other]

theorem Inv.ready_brokers (hs : s.Inv) (hrelated : s.related = true) {u : UnitTls}
    (hcerts : u.peerCertsReady = true) (hclient : u.tlsEnabled = true → u.clientCertificate = true)
    (hinit : (s.half .brokers).cluster.clusterUuid ≠ [])
    (hpub : (s.half .controllers).Published .controllers)
    (hview : (s.half .brokers).view = (s.half .controllers).bag)
    (hca : (s.half .controllers).bag.fields.controllerCa ≠ []) :
    s.readyToStart d .brokers u = .active := by
  obtain ⟨-, hboot, hpassword⟩ := hs.peerCluster_brokers (d := d)
  have hadmin := (hs.sound .brokers).complete.1.mp hinit
  rw [hview] at hboot hpassword
  obtain ⟨hboot', hflag, hsecret⟩ := hpub
  have hbroker : s.brokerStatus d .brokers u = .active := by
    unfold brokerStatus HalfState.peerClusterCa
    simp only [hboot, hpassword, hview, hflag, fetchFromSecrets]
    simp [Split.roles, hboot', hsecret, hinit, hca, hadmin]
    exact hclient
  have hcontroller : s.controllerStatus d .brokers = .active := by
    simp [controllerStatus, Split.roles]
  simp [readyToStart, hbroker, hcontroller, hrelated, hcerts]

theorem Inv.ready_controllers (hs : s.Inv) (hrelated : s.related = true) {u : UnitTls}
    (hcerts : u.peerCertsReady = true)
    (hinit : (s.half .controllers).cluster.bootstrapController ≠ [])
    (hpub : (s.half .brokers).Published .brokers)
    (hview : (s.half .controllers).view = (s.half .brokers).bag)
    (hca : (s.half .brokers).bag.fields.brokerCa ≠ []) :
    s.readyToStart d .controllers u = .active := by
  obtain ⟨huuid, hpassword, hname, hbroker⟩ := hs.peerCluster_controllers (d := d)
  have hown := (hs.sound .controllers).complete.1.mp hinit
  rw [hview] at huuid hname hbroker
  obtain ⟨huuid', hflag, hname', hbroker'⟩ := hpub
  have hbstatus : s.brokerStatus d .controllers u = .active := by
    simp [brokerStatus, Split.roles]
  have hcstatus : s.controllerStatus d .controllers = .active := by
    unfold controllerStatus HalfState.peerClusterCa
    simp only [huuid, hpassword, hname, hbroker, hview, hflag, fetchFromSecrets]
    simp [Split.roles, hrelated, hown, hca, huuid', hname', hbroker']
  simp [readyToStart, hbstatus, hcstatus, hcerts, Split.roles]

/-- The units of an application are ready when nothing is left to deliver. -/
theorem Inv.ready (hs : s.Inv) (hc : ∀ b, (s.half b).Certified b) (hst : s.Started d)
    (hex : s.Exchanged) (a : Half) {u : UnitTls} (hcerts : u.peerCertsReady = true)
    (hclient : u.tlsEnabled = true → u.clientCertificate = true) :
    s.readyToStart d a u = .active := by
  have hheard : ∀ b, (s.half b).seen.fields.Heard b := fun b => (hex.seen b).2 ▸ hst.heard b
  have hca : ∀ b, (s.half b).bag.fields.ca b ≠ [] := fun b => hc b (hheard b) (hst.bundle b)
  have hrelated : s.related = true := (hs.sound a).related (hheard a)
  cases a with
  | brokers =>
    exact hs.ready_brokers hrelated hcerts hclient (hst.initialised .brokers)
      (hs.published hst hex .controllers) (hex.seen .brokers).1 (hca .controllers)
  | controllers =>
    exact hs.ready_controllers hrelated hcerts (hst.initialised .controllers)
      (hs.published hst hex .brokers) (hex.seen .controllers).1 (hca .brokers)

/-! ## Settling -/

/-- The fields of an application after a relation-changed hook. -/
def publishes (d : Split) (reads : BrokerReads) (h : HalfState) : Half → PeerFields
  | .brokers =>
    { h.bag.fields with
      roles := some (d.roles .brokers)
      brokerSecret := true
      clusterUuid := h.cluster.clusterUuid
      brokerCa := h.bundle
      racks := HalfState.racksText reads.racks
      brokerCapacities := reads.capacities
      superUsers := reads.superUsers }
  | .controllers =>
    { h.bag.fields with
      controllerSecret := decide (h.cluster.controllerPassword ≠ [])
      bootstrapController := h.cluster.bootstrapController
      bootstrapUnitId := h.cluster.bootstrapUnitId
      bootstrapReplicaId := h.cluster.bootstrapReplicaId
      controllerCa := h.bundle }

theorem onChanged_publishes {h : HalfState} {related : Bool} (hs : h.Sound a related)
    (hheard : h.view.fields.Heard a) (reads : BrokerReads) (secret : PeerSecret) :
    ∃ secret', h.onChanged a (d.roles a) reads secret =
      { h with
        bag := ⟨publishes d reads h a, h.view.fields⟩, secret := secret', seen := h.view } := by
  unfold HalfState.onChanged
  cases a with
  | brokers =>
    simp only [HalfState.orchestratorChanged_eq hs hheard reads]
    exact ⟨_, rfl⟩
  | controllers =>
    simp only [HalfState.peerClusterChanged_eq hs hheard]
    exact ⟨_, rfl⟩

/-- What a delivery does. The fields that it writes are the own data of the application,
so a second one writes the same. -/
structure Delivered (d : Split) (reads : BrokerReads) (a : Half) (s t : Handshake) : Prop where
  other : t.half a.other = s.half a.other
  view : (t.half a).view = (s.half a.other).bag
  seen : (t.half a).seen = (s.half a.other).bag
  bag : (t.half a).bag = ⟨publishes d reads (s.half a) a, (s.half a.other).bag.fields⟩
  cluster : (t.half a).cluster = (s.half a).cluster
  bundle : (t.half a).bundle = (s.half a).bundle
  related : t.related = s.related

/-- Both leaders have started, and the applications are related. -/
structure Live (d : Split) (s : Handshake) : Prop where
  inv : s.Inv
  certified : ∀ b, (s.half b).Certified b
  started : s.Started d
  related : s.related = true

theorem Live.delivered (hs : s.Live d) (ht : s.deliver d reads a = some t) : Delivered d reads a s t := by
  have hfetch : s.step d (.fetch a) =
      some (s.update a fun h => { h with view := (s.half a.other).bag }) := if_pos hs.related
  unfold deliver at ht
  rw [hfetch, Option.bind_some] at ht
  have hsound := (hs.inv.fetch a).sound a
  have hself := update_self s a fun h => { h with view := (s.half a.other).bag }
  have hother := update_other s a fun h => { h with view := (s.half a.other).bag }
  generalize hm : s.update a (fun h => { h with view := (s.half a.other).bag }) = m at *
  have hrelated : m.related = s.related := by rw [← hm]; rfl
  have hchanged : m.step d (.changed a reads) =
      some (m.update a (HalfState.onChanged a (d.roles a) reads (m.half a.other).secret)) :=
    if_pos (hrelated.trans hs.related)
  have hheard : (m.half a).view.fields.Heard a := by
    rw [hself]
    exact hs.started.heard a
  rw [hchanged, Option.some.injEq] at ht
  obtain ⟨secret', heq⟩ := @onChanged_publishes d a _ _ hsound hheard reads (m.half a.other).secret
  have hown : t.half a = { m.half a with
      bag := ⟨publishes d reads (m.half a) a, (m.half a).view.fields⟩
      secret := secret'
      seen := (m.half a).view } := by
    rw [← ht, update_self, heq]
  rw [hself] at hown
  refine ⟨?_, ?_, ?_, ?_, ?_, ?_, ?_⟩
  · rw [← ht, update_other, hother]
  · rw [hown]
  · rw [hown]
  · rw [hown]
    cases a <;> rfl
  · rw [hown]
  · rw [hown]
  · rw [← ht]
    exact hrelated

theorem Live.deliver (hs : s.Live d) (reads : BrokerReads) (a : Half) : ∃ t, s.deliver d reads a = some t := by
  unfold Handshake.deliver
  have hfetch : s.step d (.fetch a) =
      some (s.update a fun h => { h with view := (s.half a.other).bag }) := if_pos hs.related
  rw [hfetch, Option.bind_some]
  exact ⟨_, if_pos hs.related⟩

theorem Live.next (hs : s.Live d) (ht : s.deliver d reads a = some t) : t.Live d := by
  have hdel := hs.delivered ht
  obtain ⟨m, hfetch, hchanged⟩ := Option.bind_eq_some_iff.mp ht
  have hm := step_inv hs.inv hfetch
  have hc := step_certified (e := .fetch a) hs.inv hs.certified trivial hfetch
  have hc' := step_certified (e := .changed a reads) hm hc trivial hchanged
  refine ⟨step_inv hm hchanged, hc', ⟨?_, ?_, ?_⟩, hdel.related.trans hs.related⟩
  · intro b
    rcases half_cases a b with rfl | rfl
    · rw [hdel.bag]
      cases b with
      | brokers => rfl
      | controllers => exact hs.started.roles .controllers
    · rw [hdel.other]
      exact hs.started.roles a.other
  · intro b
    rcases half_cases a b with rfl | rfl
    · rw [hdel.cluster]
      exact hs.started.initialised b
    · rw [hdel.other]
      exact hs.started.initialised a.other
  · intro b
    rcases half_cases a b with rfl | rfl
    · rw [hdel.bundle]
      exact hs.started.bundle b
    · rw [hdel.other]
      exact hs.started.bundle a.other

/-- An application has nothing to hear right after a delivery. -/
theorem Delivered.not_pending (h : Delivered d reads a s t) : ¬ t.pending a := by
  unfold pending
  rw [not_not, h.other]
  exact ⟨h.view, h.seen⟩

theorem Delivered.publishes_again (h : Delivered d reads a s t) :
    publishes d reads (t.half a) a = publishes d reads (s.half a) a := by
  cases a <;> simp [publishes, h.bag, h.cluster, h.bundle]

/-- Deliveries to one side and the other, twice. -/
theorem exchanged_of_four {s0 s1 s2 s3 s4 : Handshake} (h1 : Delivered d reads a s0 s1)
    (h2 : Delivered d reads a.other s1 s2) (h3 : Delivered d reads a s2 s3) (h4 : Delivered d reads a.other s3 s4) :
    s4.Exchanged := by
  have e2 : s2.half a = s1.half a := by simpa using h2.other
  have e4 : s4.half a = s3.half a := by simpa using h4.other
  have hown : (s3.half a).bag.fields = (s1.half a).bag.fields := by
    rw [h3.bag, h1.bag, e2, h1.publishes_again]
  have hpub : publishes d reads (s3.half a.other) a.other =
      publishes d reads (s1.half a.other) a.other := by
    rw [h3.other, h2.publishes_again]
  -- the other side publishes and files the same as before
  have hother : (s4.half a.other).bag = (s2.half a.other).bag := by
    rw [h4.bag, h2.bag, hpub]
    simp only [other_other, hown]
  intro b
  rcases half_cases a b with rfl | rfl
  · unfold pending
    rw [not_not, e4, hother]
    exact ⟨h3.view, h3.seen⟩
  · exact h4.not_pending

theorem Live.run {as : List Half} (hs : s.Live d)
    (hrun : replay (Handshake.deliver d reads) pending s as = some t) :
    t.Live d :=
  (Reaches.replay _ _ _ _ hrun).invariant hs fun _ _ _ hx _ hstep => hx.next hstep

/-- The next delivery that changes something is to the other side. -/
theorem Delivered.turn {b : Half} (h : Delivered d reads a s t) (hb : t.pending b) : b = a.other := by
  rcases half_cases a b with rfl | rfl
  · exact absurd hb h.not_pending
  · rfl

theorem Live.at_most_four {as : List Half} (hs : s.Live d)
    (hrun : replay (Handshake.deliver d reads) pending s as = some t) : as.length ≤ 4 := by
  by_contra hlong
  rw [Nat.not_le] at hlong
  match as with
  | [] | [_] | [_, _] | [_, _, _] | [_, _, _, _] => simp at hlong
  | a :: b :: c :: e :: f :: rest =>
    obtain ⟨-, s1, hs1, hrun⟩ := replay_cons_eq_some.mp hrun
    obtain ⟨hb, s2, hs2, hrun⟩ := replay_cons_eq_some.mp hrun
    obtain ⟨hc, s3, hs3, hrun⟩ := replay_cons_eq_some.mp hrun
    obtain ⟨he, s4, hs4, hrun⟩ := replay_cons_eq_some.mp hrun
    obtain ⟨hf, -⟩ := replay_cons_eq_some.mp hrun
    have l1 := hs.next hs1
    have l2 := l1.next hs2
    have l3 := l2.next hs3
    have h1 := hs.delivered hs1
    obtain rfl := h1.turn hb
    have h2 := l1.delivered hs2
    obtain rfl := (other_other a) ▸ h2.turn hc
    have h3 := l2.delivered hs3
    obtain rfl := h3.turn he
    exact exchanged_of_four h1 h2 h3 (l3.delivered hs4) f hf

/-- Deliveries go on until nothing is left. -/
theorem Live.completed {as : List Half} (hs : s.Live d)
    (hrun : replay (Handshake.deliver d reads) pending s as = some t) :
    ∃ bs u, replay (Handshake.deliver d reads) pending t bs = some u ∧ u.Exchanged := by
  induction hn : 4 - as.length generalizing as t with
  | zero =>
    have hlt := hs.run hrun
    refine ⟨[], t, rfl, fun a ha => ?_⟩
    obtain ⟨u, hu⟩ := hlt.deliver reads a
    have hone : replay (Handshake.deliver d reads) pending t [a] = some u :=
      replay_cons_eq_some.mpr ⟨ha, u, hu, rfl⟩
    have hmore := replay_append hrun hone
    have hlen := hs.at_most_four hmore
    rw [List.length_append, List.length_singleton] at hlen
    omega
  | succ n ih =>
    by_cases hex : t.Exchanged
    · exact ⟨[], t, rfl, hex⟩
    · obtain ⟨a, ha⟩ := not_forall_not.mp hex
      obtain ⟨u, hu⟩ := (hs.run hrun).deliver reads a
      have hone : replay (Handshake.deliver d reads) pending t [a] = some u :=
        replay_cons_eq_some.mpr ⟨ha, u, hu, rfl⟩
      have hmore := replay_append hrun hone
      obtain ⟨bs, v, hv, hexv⟩ := ih hmore (by
        rw [List.length_append, List.length_singleton]
        omega)
      exact ⟨a :: bs, v, replay_append hone hv, hexv⟩

/-! ## Agreement -/

theorem readyToStart_active {u : UnitTls} (hready : s.readyToStart d a u = .active) :
    s.brokerStatus d a u = .active ∧ s.controllerStatus d a = .active := by
  unfold readyToStart at hready
  split at hready
  · cases hready
  split at hready
  · cases hready
  split at hready
  · contradiction
  rename_i hbroker
  split at hready
  · contradiction
  rename_i hcontroller
  exact ⟨not_not.mp hbroker, not_not.mp hcontroller⟩

theorem brokerStatus_active {u : UnitTls} (hactive : s.brokerStatus d .brokers u = .active) :
    (s.peerCluster d .brokers).controllerPassword ≠ [] ∧
    (s.half .brokers).cluster.clusterUuid ≠ [] := by
  unfold brokerStatus at hactive
  simp only [Split.roles, decide_true, Bool.not_true, Bool.false_eq_true, if_false] at hactive
  split at hactive
  · cases hactive
  split at hactive
  · cases hactive
  rename_i hpassword
  split at hactive
  · cases hactive
  rename_i huuid
  exact ⟨hpassword, huuid⟩

theorem controllerStatus_active (hactive : s.controllerStatus d .controllers = .active) :
    (s.peerCluster d .controllers).controllerPassword ≠ [] ∧
    (s.peerCluster d .controllers).clusterUuid ≠ [] := by
  unfold controllerStatus at hactive
  simp only [Split.roles, decide_true, Bool.not_true, Bool.false_eq_true, if_false] at hactive
  split at hactive
  · cases hactive
  split at hactive
  · cases hactive
  rename_i hpassword
  split at hactive
  · cases hactive
  split at hactive
  · cases hactive
  rename_i hdata
  exact ⟨hpassword, fun hnil => hdata (.inr (.inr hnil))⟩

/-- A unit that is ready works with the cluster uuid of the brokers and the password of
the controllers. -/
theorem Inv.ready_values (hs : s.Inv) {u : UnitTls} (hready : s.readyToStart d a u = .active) :
    (s.half .brokers).cluster.clusterUuid ≠ [] ∧
    (s.half .controllers).cluster.controllerPassword ≠ [] ∧
    (s.peerCluster d a).clusterUuid = (s.half .brokers).cluster.clusterUuid ∧
    (s.peerCluster d a).controllerPassword =
      (s.half .controllers).cluster.controllerPassword := by
  obtain ⟨hbroker, hcontroller⟩ := readyToStart_active hready
  cases a with
  | brokers =>
    obtain ⟨huuid, -, hpassword⟩ := hs.peerCluster_brokers (d := d)
    obtain ⟨hne, hmade⟩ := brokerStatus_active hbroker
    rw [hpassword] at hne ⊢
    have hsecret : fetchFromSecrets (s.half .brokers).view.fields.controllerSecret
        (s.half .controllers).secret.controllerPassword =
          (s.half .controllers).secret.controllerPassword := by
      unfold fetchFromSecrets at hne ⊢
      split at hne
      · rename_i hflag
        exact if_pos hflag
      · exact absurd rfl hne
    rw [hsecret] at hne ⊢
    have hown := (hs.sound .controllers).complete.2.2.2.resolve_left hne
    exact ⟨hmade, hown ▸ hne, huuid, hown⟩
  | controllers =>
    obtain ⟨huuid, hpassword, -, -⟩ := hs.peerCluster_controllers (d := d)
    obtain ⟨hne, hmade⟩ := controllerStatus_active hcontroller
    rw [hpassword] at hne
    rw [huuid] at hmade ⊢
    have hown := hs.uuid.resolve_left hmade
    exact ⟨hown ▸ hmade, hne, hown, hpassword⟩

/-- What an application has made stays. -/
theorem step_keeps {e : HandshakeEvent} (hs : s.Inv) (hstep : s.step d e = some t) (b : Half) :
    ((s.half b).cluster.clusterUuid ≠ [] →
      (t.half b).cluster.clusterUuid = (s.half b).cluster.clusterUuid) ∧
    ((s.half b).cluster.controllerPassword ≠ [] →
      (t.half b).cluster.controllerPassword = (s.half b).cluster.controllerPassword) := by
  obtain rfl | ⟨a, rfl⟩ | ⟨a, f, rfl, hf⟩ := step_cases hs hstep
  · exact ⟨fun _ => rfl, fun _ => rfl⟩
  · rcases half_cases a b with rfl | rfl
    · rw [update_self]
      exact ⟨fun _ => rfl, fun _ => rfl⟩
    · rw [update_other]
      exact ⟨fun _ => rfl, fun _ => rfl⟩
  · rcases half_cases a b with rfl | rfl
    · rw [update_self]
      exact ⟨hf.clusterUuid, hf.controllerPassword⟩
    · rw [update_other]
      exact ⟨fun _ => rfl, fun _ => rfl⟩

theorem reached_keeps {ok : Handshake → HandshakeEvent → Prop} (hs : s.Inv)
    (h : Reaches (step d) ok s t) (b : Half) :
    ((s.half b).cluster.clusterUuid ≠ [] →
      (t.half b).cluster.clusterUuid = (s.half b).cluster.clusterUuid) ∧
    ((s.half b).cluster.controllerPassword ≠ [] →
      (t.half b).cluster.controllerPassword = (s.half b).cluster.controllerPassword) := by
  have hboth := h.invariant
    (I := fun x : Handshake => x.Inv ∧
      ((s.half b).cluster.clusterUuid ≠ [] →
        (x.half b).cluster.clusterUuid = (s.half b).cluster.clusterUuid) ∧
      ((s.half b).cluster.controllerPassword ≠ [] →
        (x.half b).cluster.controllerPassword = (s.half b).cluster.controllerPassword))
    ⟨hs, fun _ => rfl, fun _ => rfl⟩ fun x e y ⟨hx, huuid, hpassword⟩ _ hstep => by
      obtain ⟨hu, hp⟩ := step_keeps hx hstep b
      refine ⟨step_inv hx hstep, fun hne => ?_, fun hne => ?_⟩
      · have heq := huuid hne
        exact (hu (heq ▸ hne)).trans heq
      · have heq := hpassword hne
        exact (hp (heq ▸ hne)).trans heq
  exact hboth.2

end Handshake

/-- Whatever the order of the hooks, including data that are made only after the other
application has been heard of: when both leaders have run their relation-created and
start hooks and nothing is left to deliver, every unit of both applications that has its
own certificates is ready to start. -/
theorem exchanged_ready {d : Split} {s : Handshake}
    (hs : Reaches (Handshake.step d) Handshake.orderly .initial s) (hst : s.Started d)
    (hex : s.Exchanged) (a : Half) (u : UnitTls) (hcerts : u.peerCertsReady = true)
    (hclient : u.tlsEnabled = true → u.clientCertificate = true) :
    s.readyToStart d a u = .active := by
  exact (Handshake.reached_inv hs).ready (Handshake.reached_certified hs) hst hex a hcerts hclient

def apart : Split := ⟨fun _ => false⟩

def madeUp : Made where
  adminPassword := ⟨"admin-secret".toList, by decide⟩
  clusterUuid := ⟨"uuid".toList, by decide⟩
  controllerPassword := ⟨"controller-secret".toList, by decide⟩
  bootstrapController := ⟨"controller-0:9097".toList, by decide⟩
  bootstrapUnitId := ⟨"100".toList, by decide⟩
  bootstrapReplicaId := ⟨"directory".toList, by decide⟩
  bundle := ⟨["cert".toList, "ca".toList], by decide⟩

/-- What the leader of the brokers reads. -/
def oneBroker : BrokerReads :=
  ⟨⟨"kafka-0:19093".toList, by decide⟩, 0, "\x7b\x7d".toList, "User:admin".toList⟩

/-- The brokers start only after the controllers have heard of them. -/
def lateStart : List HandshakeEvent :=
  [.relate, .created .brokers, .created .controllers, .start .controllers madeUp,
    .fetch .controllers, .changed .controllers oneBroker, .fetch .brokers, .changed .brokers oneBroker,
    .start .brokers madeUp]

def deliveries : List HandshakeEvent :=
  [.fetch .controllers, .changed .controllers oneBroker, .fetch .brokers, .changed .brokers oneBroker,
    .fetch .controllers, .changed .controllers oneBroker, .fetch .brokers, .changed .brokers oneBroker]

def withCerts : UnitTls := ⟨true, false, false⟩

theorem exchanged_ready_late_start :
    (replay (Handshake.step apart) Handshake.orderly .initial (lateStart ++ deliveries)).any
      (fun s => decide (s.readyToStart apart .controllers withCerts = .active)) = true := by
  have hran : (replay (Handshake.step apart) Handshake.orderly .initial
      (lateStart ++ deliveries)).any
        (fun s => decide (s.Started apart ∧ s.Exchanged)) = true := by decide
  cases hs : replay (Handshake.step apart) Handshake.orderly .initial (lateStart ++ deliveries) with
  | none =>
    rw [hs] at hran
    cases hran
  | some s =>
    rw [hs, Option.any_some, decide_eq_true_eq] at hran
    rw [Option.any_some, decide_eq_true_eq]
    exact exchanged_ready (.replay _ _ _ _ hs) hran.1 hran.2 .controllers withCerts rfl
      fun h => nomatch h

/-- A leader without certificates publishes that it has none. One with certificates that
takes over later publishes them on the next relation-changed, which may not come. -/
def handedOver : List HandshakeEvent :=
  [.elected .brokers ⟨madeUp.bootstrapController, madeUp.bootstrapUnitId, [], []⟩,
    .fetch .brokers, .changed .brokers oneBroker, .fetch .controllers, .changed .controllers oneBroker,
    .fetch .brokers, .changed .brokers oneBroker,
    .elected .brokers ⟨madeUp.bootstrapController, madeUp.bootstrapUnitId, [], madeUp.bundle⟩]

example :
    (replay (Handshake.step apart) anyStep .initial (lateStart ++ deliveries ++ handedOver)).any
      (fun s => decide (s.Started apart ∧ s.Exchanged ∧
        s.readyToStart apart .controllers withCerts = .noPeerClusterCa)) = true := by
  decide

/-- Units that are ready at any two moments of a run, of the same or of either
application, format their storage for one cluster and know one controller password. -/
theorem starts_agree {d : Split} {s t : Handshake} {a b : Half} {u v : UnitTls}
    (hs : Reaches (Handshake.step d) anyStep .initial s)
    (ht : Reaches (Handshake.step d) anyStep s t)
    (hu : s.readyToStart d a u = .active) (hv : t.readyToStart d b v = .active) :
    (s.peerCluster d a).clusterUuid = (t.peerCluster d b).clusterUuid ∧
    (s.peerCluster d a).controllerPassword = (t.peerCluster d b).controllerPassword ∧
    (s.peerCluster d a).clusterUuid ≠ [] ∧ (s.peerCluster d a).controllerPassword ≠ [] := by
  have hinv := Handshake.reached_inv hs
  obtain ⟨huuid, hpassword, heqUuid, heqPassword⟩ := hinv.ready_values hu
  obtain ⟨-, -, heqUuid', heqPassword'⟩ := (Handshake.reached_inv (hs.trans ht)).ready_values hv
  rw [heqUuid, heqUuid', heqPassword, heqPassword']
  have hkeepUuid := (Handshake.reached_keeps hinv ht .brokers).1 huuid
  have hkeepPassword := (Handshake.reached_keeps hinv ht .controllers).2 hpassword
  exact ⟨hkeepUuid.symm, hkeepPassword.symm, huuid, hpassword⟩

theorem starts_agree_late_start :
    (replay (Handshake.step apart) anyStep .initial (lateStart ++ deliveries)).any
      (fun s => decide ((s.peerCluster apart .brokers).clusterUuid =
        (s.peerCluster apart .controllers).clusterUuid)) = true := by
  have hran : (replay (Handshake.step apart) anyStep .initial (lateStart ++ deliveries)).any
      (fun s => decide (s.readyToStart apart .brokers withCerts = .active ∧
        s.readyToStart apart .controllers withCerts = .active)) = true := by decide
  cases hs : replay (Handshake.step apart) anyStep .initial (lateStart ++ deliveries) with
  | none =>
    rw [hs] at hran
    cases hran
  | some s =>
    rw [hs, Option.any_some, decide_eq_true_eq] at hran
    rw [Option.any_some, decide_eq_true_eq]
    exact (starts_agree (.replay _ _ _ _ hs) .start hran.1 hran.2).1

end KafkaCharm
