import KafkaCharm.Lib.Runs
import KafkaCharm.Workload

/-! The app that runs the controllers keeps the address, the node id and the metadata directory id
of its bootstrap controller in the cluster relation data. `_init_kraft_mode` makes them up for the
first leader; `_leader_elected` overwrites them with those of each later one. -/

namespace KafkaCharm

open PyText

/-- A uuid made by `kafka-storage`. -/
abbrev Uuid := { s : Str // s ≠ [] }

/-- The app: its name, and whether its units are brokers besides controllers. -/
structure ControllerApp where
  name : AppName
  runsBroker : Bool

namespace ControllerApp

variable (app : ControllerApp)

/-- `SECURITY_PROTOCOL_PORTS[internal_auth].controller`. -/
def controllerPort : Nat := 9098

/-- `ClusterState.bootstrap_controller` on a unit. -/
def bootstrapController (u : Nat) : Str :=
  internalAddress app.name u ++ ':' :: decimal controllerPort

/-- `ClusterState.kraft_unit_id` on a unit. -/
def kraftUnitId (u : Nat) : Nat := if app.runsBroker then 100 + u else u

end ControllerApp

/-- A unit: `metadata-directory-id` and `added-to-quorum` of its relation data, and
the `directory.id` of its `meta.properties` once its storage is formatted. -/
structure ControllerUnit where
  present : Bool
  metadataDirectoryId : Str
  addedToQuorum : Bool
  directoryId : Option Str

/-- The app's relation data, its units, its leader and the last unit elected. -/
structure BootstrapState where
  leader : Option Nat
  elected : Option Nat
  unit : Nat → ControllerUnit
  bootstrapController : Str
  bootstrapUnitId : Str
  bootstrapReplicaId : Str
  controllerPassword : Bool

namespace BootstrapState

def setUnit (s : BootstrapState) (u : Nat) (c : ControllerUnit) : BootstrapState :=
  { s with unit := fun v => if v = u then c else s.unit v }

/-- Before the first start: nobody elected, no data, nothing formatted. -/
def initial (present : Nat → Bool) : BootstrapState :=
  ⟨none, none, fun u => ⟨present u, [], false, none⟩, [], [], [], false⟩

variable (app : ControllerApp) (s : BootstrapState)

/-- `ready_to_start is Status.ACTIVE`; `otherwise` are its checks on other data. -/
def readyToStart (otherwise : Bool) : Bool :=
  otherwise && (!app.runsBroker || s.bootstrapController ≠ []) && s.controllerPassword

/-- The last part of `_init_kraft_mode`. -/
def initKraftMode (u : Nat) (uuid : Uuid) : BootstrapState :=
  if s.leader = some u ∧ s.bootstrapController = [] then
    { s with
      controllerPassword := true
      bootstrapController := app.bootstrapController u
      bootstrapUnitId := decimal (app.kraftUnitId u)
      bootstrapReplicaId := uuid.1 }
  else s

/-- The `initial_controllers` that `format_storages` passes on. -/
def initialControllers : Str :=
  s.bootstrapUnitId ++ '@' :: (s.bootstrapController ++ ':' :: s.bootstrapReplicaId)

/-- `format_storages`: the bootstrap node gets the directory id it is given as
initial controller, every other one a new id; a formatted one keeps its own. -/
def formatStorages (u : Nat) (fresh : Uuid) : BootstrapState :=
  match (s.unit u).directoryId with
  | some _ => s
  | none =>
    let directoryId :=
      if s.bootstrapUnitId = decimal (app.kraftUnitId u) then s.bootstrapReplicaId else fresh.1
    s.setUnit u { s.unit u with directoryId := some directoryId }

/-- `_on_start`. -/
def onStart (u : Nat) (otherwise : Bool) (uuid fresh : Uuid) : BootstrapState :=
  let s := s.initKraftMode app u uuid
  if s.readyToStart app otherwise then s.formatStorages app u fresh else s

/-- `_leader_elected`. -/
def leaderElected (u : Nat) : BootstrapState :=
  let s := { s with leader := some u, elected := some u }
  if s.bootstrapController = [] then s
  else
    { s with
      bootstrapController := app.bootstrapController u
      bootstrapUnitId := decimal (app.kraftUnitId u)
      bootstrapReplicaId := (s.unit u).metadataDirectoryId }

/-- `add_to_quorum`; the directory id is read from `meta.properties`. -/
def addToQuorum (u : Nat) : BootstrapState :=
  if s.leader = some u ∨ (s.unit u).addedToQuorum = true then s
  else s.setUnit u { s.unit u with
    metadataDirectoryId := ((s.unit u).directoryId).getD [], addedToQuorum := true }

/-- `remove_from_quorum` on a unit that goes. -/
def unitRemoved (u : Nat) : BootstrapState :=
  let s := s.setUnit u { s.unit u with addedToQuorum := false, present := false }
  if s.leader = some u then { s with leader := none } else s

end BootstrapState

/-- What happens to the app. An update-status counts when its checks pass and
`add_controller` succeeds. -/
inductive BootstrapEvent where
  | start (u : Nat) (otherwise : Bool) (uuid fresh : Uuid)
  | leaderElected (u : Nat)
  | updateStatus (u : Nat)
  | unitRemoved (u : Nat)

def BootstrapEvent.unit : BootstrapEvent → Nat
  | .start u _ _ _ => u
  | .leaderElected u => u
  | .updateStatus u => u
  | .unitRemoved u => u

/-- One event, on a unit that is still there. -/
def bootstrapStep (app : ControllerApp) (s : BootstrapState) (e : BootstrapEvent) :
    Option BootstrapState :=
  if (s.unit e.unit).present then
    match e with
    | .start u otherwise uuid fresh => some (s.onStart app u otherwise uuid fresh)
    | .leaderElected u => some (s.leaderElected app u)
    | .updateStatus u => some (s.addToQuorum u)
    | .unitRemoved u => some (s.unitRemoved u)
  else none

/-- A unit is elected after the first initialisation only with a recorded directory id. -/
def electsRecorded (s : BootstrapState) : BootstrapEvent → Prop
  | .leaderElected u => s.bootstrapController = [] ∨ (s.unit u).metadataDirectoryId ≠ []
  | _ => True

instance : ∀ s e, Decidable (electsRecorded s e)
  | s, .leaderElected u =>
    inferInstanceAs (Decidable (s.bootstrapController = [] ∨ (s.unit u).metadataDirectoryId ≠ []))
  | _, .start .. => .isTrue trivial
  | _, .updateStatus _ => .isTrue trivial
  | _, .unitRemoved _ => .isTrue trivial

/-- The bootstrap data names the last elected leader, with its real directory id. -/
def NamesLeader (app : ControllerApp) (s : BootstrapState) : Prop :=
  ∃ u, s.elected = some u ∧ s.bootstrapController = app.bootstrapController u ∧
    s.bootstrapUnitId = decimal (app.kraftUnitId u) ∧ s.bootstrapReplicaId ≠ [] ∧
    ∀ d, (s.unit u).directoryId = some d → s.bootstrapReplicaId = d

/-- What every run keeps. -/
structure Consistent (app : ControllerApp) (s : BootstrapState) : Prop where
  leader : ∀ u, s.leader = some u → s.elected = some u
  password : s.controllerPassword = true ↔ s.bootstrapController ≠ []
  recorded : ∀ u, (s.unit u).metadataDirectoryId ≠ [] →
    (s.unit u).directoryId = some (s.unit u).metadataDirectoryId
  unformatted : s.bootstrapController = [] → ∀ u, (s.unit u).directoryId = none
  named : s.bootstrapController ≠ [] → NamesLeader app s

/-! ## Every step keeps it -/

theorem bootstrapController_ne_nil (app : ControllerApp) (u : Nat) :
    app.bootstrapController u ≠ [] := by
  unfold ControllerApp.bootstrapController
  simp

@[simp] theorem setUnit_self (s : BootstrapState) (u : Nat) (c : ControllerUnit) :
    (s.setUnit u c).unit u = c := by
  simp [BootstrapState.setUnit]

theorem setUnit_of_ne (s : BootstrapState) {u v : Nat} (c : ControllerUnit) (h : v ≠ u) :
    (s.setUnit u c).unit v = s.unit v := by
  simp [BootstrapState.setUnit, h]

/-- An update of a unit's data that respects its directory id. -/
theorem Consistent.setUnit {app : ControllerApp} {s : BootstrapState} (h : Consistent app s)
    {u : Nat} {c : ControllerUnit}
    (hrec : c.metadataDirectoryId ≠ [] → c.directoryId = some c.metadataDirectoryId)
    (hdir : c.directoryId = (s.unit u).directoryId ∨
      (s.bootstrapController ≠ [] ∧ (s.elected = some u → c.directoryId = some s.bootstrapReplicaId))) :
    Consistent app (s.setUnit u c) := by
  refine ⟨h.leader, h.password, ?_, ?_, ?_⟩
  · intro v hv
    by_cases huv : v = u
    · subst huv
      rw [setUnit_self] at hv ⊢
      exact hrec hv
    · rw [setUnit_of_ne s c huv] at hv ⊢
      exact h.recorded v hv
  · intro hnil v
    by_cases huv : v = u
    · subst huv
      rw [setUnit_self]
      rcases hdir with heq | ⟨hne, _⟩
      · rw [heq]
        exact h.unformatted hnil v
      · exact absurd hnil hne
    · rw [setUnit_of_ne s c huv]
      exact h.unformatted hnil v
  · intro hne
    obtain ⟨e, he, hc, hid, hr, hd⟩ := h.named hne
    refine ⟨e, he, hc, hid, hr, ?_⟩
    intro d hsome
    by_cases heu : e = u
    · subst heu
      rw [setUnit_self] at hsome
      rcases hdir with heq | ⟨_, himp⟩
      · exact hd d (heq ▸ hsome)
      · rw [himp he, Option.some.injEq] at hsome
        exact hsome
    · rw [setUnit_of_ne s c heu] at hsome
      exact hd d hsome

theorem initial_consistent (app : ControllerApp) (present : Nat → Bool) :
    Consistent app (.initial present) := by
  refine ⟨?_, ?_, ?_, ?_, ?_⟩
  · intro u h
    cases h
  · simp [BootstrapState.initial]
  · intro u h
    exact absurd rfl h
  · intro _ u
    rfl
  · intro h
    exact absurd rfl h

theorem initKraftMode_consistent {app : ControllerApp} {s : BootstrapState}
    (h : Consistent app s) (u : Nat) (uuid : Uuid) : Consistent app (s.initKraftMode app u uuid) := by
  unfold BootstrapState.initKraftMode
  split
  · rename_i hinit
    have hne := bootstrapController_ne_nil app u
    refine ⟨h.leader, by simp [hne], h.recorded, fun hnil => absurd hnil hne, ?_⟩
    intro _
    refine ⟨u, h.leader u hinit.1, rfl, rfl, uuid.2, ?_⟩
    intro d hsome
    rw [h.unformatted hinit.2 u] at hsome
    cases hsome
  · exact h

theorem readyToStart_bootstrap {app : ControllerApp} {s : BootstrapState} (h : Consistent app s)
    {otherwise : Bool} (hr : s.readyToStart app otherwise = true) : s.bootstrapController ≠ [] := by
  unfold BootstrapState.readyToStart at hr
  rw [Bool.and_eq_true] at hr
  exact h.password.mp hr.2

theorem formatStorages_consistent {app : ControllerApp} {s : BootstrapState}
    (h : Consistent app s) (hne : s.bootstrapController ≠ []) (u : Nat) (fresh : Uuid) :
    Consistent app (s.formatStorages app u fresh) := by
  unfold BootstrapState.formatStorages
  cases hd : (s.unit u).directoryId with
  | some d => exact h
  | none =>
    apply h.setUnit
    · intro hrec
      have hsome := h.recorded u hrec
      rw [hd] at hsome
      cases hsome
    · refine .inr ⟨hne, ?_⟩
      intro he
      obtain ⟨e, he', _, hid, _⟩ := h.named hne
      rw [he, Option.some.injEq] at he'
      subst he'
      simp only [hid, if_true]

theorem onStart_consistent {app : ControllerApp} {s : BootstrapState} (h : Consistent app s)
    (u : Nat) (otherwise : Bool) (uuid fresh : Uuid) :
    Consistent app (s.onStart app u otherwise uuid fresh) := by
  have hinit := initKraftMode_consistent h u uuid
  unfold BootstrapState.onStart
  simp only
  split
  · rename_i hr
    exact formatStorages_consistent hinit (readyToStart_bootstrap hinit hr) u fresh
  · exact hinit

theorem leaderElected_consistent {app : ControllerApp} {s : BootstrapState}
    (h : Consistent app s) {u : Nat}
    (hok : s.bootstrapController = [] ∨ (s.unit u).metadataDirectoryId ≠ []) :
    Consistent app (s.leaderElected app u) := by
  unfold BootstrapState.leaderElected
  simp only
  split
  · rename_i hnil
    refine ⟨fun v hv => hv, h.password, h.recorded, h.unformatted, fun hne => absurd hnil hne⟩
  · rename_i hne
    have hrec := hok.resolve_left hne
    have hne' := bootstrapController_ne_nil app u
    refine ⟨fun v hv => hv, ?_, h.recorded, fun hnil => absurd hnil hne', ?_⟩
    · exact ⟨fun _ => hne', fun _ => h.password.mpr hne⟩
    · intro _
      refine ⟨u, rfl, rfl, rfl, hrec, ?_⟩
      intro d hsome
      have hreal := h.recorded u hrec
      rw [hreal, Option.some.injEq] at hsome
      exact hsome

theorem addToQuorum_consistent {app : ControllerApp} {s : BootstrapState} (h : Consistent app s)
    (u : Nat) : Consistent app (s.addToQuorum u) := by
  unfold BootstrapState.addToQuorum
  split
  · exact h
  · apply h.setUnit
    · intro hrec
      cases hd : (s.unit u).directoryId with
      | none =>
        rw [hd] at hrec
        exact absurd rfl hrec
      | some d => simp
    · exact .inl rfl

theorem unitRemoved_consistent {app : ControllerApp} {s : BootstrapState} (h : Consistent app s)
    (u : Nat) : Consistent app (s.unitRemoved u) := by
  have hset : Consistent app
      (s.setUnit u { s.unit u with addedToQuorum := false, present := false }) := by
    apply h.setUnit
    · exact h.recorded u
    · exact .inl rfl
  unfold BootstrapState.unitRemoved
  simp only
  split
  · refine ⟨?_, hset.password, hset.recorded, hset.unformatted, hset.named⟩
    intro v hv
    cases hv
  · exact hset

theorem step_consistent {app : ControllerApp} {s t : BootstrapState} {e : BootstrapEvent}
    (h : Consistent app s) (hok : electsRecorded s e) (hs : bootstrapStep app s e = some t) :
    Consistent app t := by
  unfold bootstrapStep at hs
  split at hs
  · cases e with
    | start u otherwise uuid fresh =>
      cases hs
      exact onStart_consistent h u otherwise uuid fresh
    | leaderElected u =>
      cases hs
      exact leaderElected_consistent h hok
    | updateStatus u =>
      cases hs
      exact addToQuorum_consistent h u
    | unitRemoved u =>
      cases hs
      exact unitRemoved_consistent h u
  · cases hs

/-- `id@host:port:directory-id` with no empty part. -/
def WellFormedControllers (text : Str) : Prop :=
  ∃ id host port directoryId : Str, id ≠ [] ∧ host ≠ [] ∧ port ≠ [] ∧ directoryId ≠ [] ∧
    text = id ++ '@' :: (host ++ ':' :: (port ++ ':' :: directoryId))

theorem Consistent.wellFormed {app : ControllerApp} {s : BootstrapState} (h : Consistent app s)
    (hne : s.bootstrapController ≠ []) : WellFormedControllers s.initialControllers := by
  obtain ⟨u, _, hc, hid, hr, _⟩ := h.named hne
  refine ⟨decimal (app.kraftUnitId u), internalAddress app.name u,
    decimal ControllerApp.controllerPort, s.bootstrapReplicaId, decimal_ne_nil _, ?_,
    decimal_ne_nil _, hr, ?_⟩
  · simp [internalAddress]
  · unfold BootstrapState.initialControllers
    rw [hc, hid, ControllerApp.bootstrapController]
    simp

/-- In every state reached while only units with a recorded directory id are
elected, the bootstrap data, once there is some, is complete and names the last
elected leader with its real directory id; and whenever a start finds the unit
ready, the initial controllers it formats with have no empty part. -/
theorem bootstrap_data_consistent (app : ControllerApp) (present : Nat → Bool)
    (t : BootstrapState)
    (hrun : Runs.Reaches (bootstrapStep app) electsRecorded (.initial present) t) :
    (t.bootstrapController ≠ [] → NamesLeader app t) ∧
      ∀ u uuid otherwise, (t.initKraftMode app u uuid).readyToStart app otherwise = true →
        WellFormedControllers (t.initKraftMode app u uuid).initialControllers := by
  have hcons : Consistent app t := by
    apply hrun.invariant (initial_consistent app present)
    intro a e b ha hok hs
    exact step_consistent ha hok hs
  refine ⟨hcons.named, ?_⟩
  intro u uuid otherwise hr
  have hinit := initKraftMode_consistent hcons u uuid
  exact hinit.wellFormed (readyToStart_bootstrap hinit hr)

/-- Unit 0 starts the cluster, unit 1 joins the quorum and is elected. -/
theorem second_leader_consistent :
    let app : ControllerApp := ⟨.kafka, true⟩
    ∃ t, Runs.Reaches (bootstrapStep app) electsRecorded (.initial fun _ => true) t ∧
      t.bootstrapReplicaId = ("dir1" : Str) ∧ NamesLeader app t := by
  intro app
  have hreach := Runs.Reaches.replayed (bootstrapStep app) electsRecorded (.initial fun _ => true)
    [.leaderElected 0, .start 0 true ⟨"dir0", by decide⟩ ⟨"x", by decide⟩,
     .start 1 true ⟨"y", by decide⟩ ⟨"dir1", by decide⟩, .updateStatus 1, .leaderElected 1] (by decide)
  exact ⟨_, hreach, by decide, (bootstrap_data_consistent app _ _ hreach).1 (by decide)⟩

/-- The first leader is elected once more: it never went through `add_to_quorum`,
so the directory id of the bootstrap controller is overwritten with nothing, and
a unit that starts now is formatted with an incomplete list of controllers. -/
theorem reelected_leader_loses_directory_id :
    let app : ControllerApp := ⟨.kafka, true⟩
    ∃ t, Runs.Reaches (bootstrapStep app) Runs.anyStep (.initial fun _ => true) t ∧
      t.bootstrapController ≠ [] ∧ t.bootstrapReplicaId = [] ∧ ¬ NamesLeader app t ∧
      t.readyToStart app true = true ∧
      t.initialControllers = ("100@kafka-0.kafka-endpoints:9098:" : Str) := by
  intro app
  have hreach := Runs.Reaches.replayed (bootstrapStep app) Runs.anyStep (.initial fun _ => true)
    [.leaderElected 0, .start 0 true ⟨"dir0", by decide⟩ ⟨"x", by decide⟩, .leaderElected 0]
    (by decide)
  refine ⟨_, hreach, by decide, by decide, ?_, by decide, by decide⟩
  rintro ⟨u, _, _, _, hne, _⟩
  exact hne (by decide)

end KafkaCharm
