import KafkaCharm.Lib.Runs
import KafkaCharm.Lib.Text
import Mathlib.Logic.Function.Basic
import Mathlib.Logic.Relation
import Mathlib.Data.List.Perm.Basic

/-! A unit asks for the lock in its own part of the `restart` relation, the leader grants it in the
part of the application, and a unit that finds itself granted restarts and asks for release. A
hook works on what it read when it was dispatched: its own writes show at once, those of other
units do not, and nothing is visible to others before it commits. Hooks of different units overlap. -/

namespace KafkaCharm

open PyText Runs

/-- The state of a lock as the two halves of the relation data give it. -/
inductive LockState
  | acquire
  | release
  | granted
  | idle
  deriving DecidableEq, Repr

/-- What a unit writes in its own half. -/
inductive UnitLock
  | acquire
  | release
  deriving DecidableEq, Repr

/-- What the leader writes for a unit in the half of the application. -/
inductive AppLock
  | granted
  | idle
  deriving DecidableEq, Repr

def UnitLock.state : UnitLock → LockState
  | .acquire => .acquire
  | .release => .release

def AppLock.state : AppLock → LockState
  | .granted => .granted
  | .idle => .idle

/-! ## The callback -/

/-- What `_restart_broker` finds: `broker.healthy` before the restart and
`workload.health_check` after it. -/
structure BrokerHealth where
  healthy : Bool
  healthCheck : Bool
  deriving DecidableEq, Repr

inductive RestartResult
  | notHealthy
  | failedCheck
  | completed
  deriving DecidableEq, Repr

/-- `_restart_broker`: nothing is restarted unless the broker is healthy, and the
caches are brought up to date only when the check after the restart passes. -/
def restartBroker (b : BrokerHealth) : RestartResult :=
  if !b.healthy then .notHealthy
  else if !b.healthCheck then .failedCheck
  else .completed

/-- Whether the event was deferred. -/
def RestartResult.deferred : RestartResult → Bool
  | .notHealthy | .failedCheck => true
  | .completed => false

/-- `getattr(self.charm, callback_name)`, for the two names that are ever asked for:
the charm has no `_disable_enable_restart_broker`. -/
def charmCallback (name : Str) : Option (BrokerHealth → RestartResult) :=
  if name = "_restart_broker".toList then some restartBroker else none

/-! ## One hook -/

/-- A hook of `unit`, with what it read when it was dispatched and what it has
written since. -/
structure LockHook (U : Type) where
  unit : U
  isLeader : Bool
  /-- `relation.units`, in the order the set yields them -/
  units : List U
  seenUnit : U → Option UnitLock
  seenApp : U → Option AppLock
  /-- what the calls of the callback in this hook find -/
  health : Nat → BrokerHealth
  unitWrite : Option UnitLock
  appWrites : U → Option AppLock
  callbackOverride : Option Str
  /-- `RunWithLock` events that wait for the next hook -/
  deferred : Nat
  ran : List RestartResult
  raised : Bool

variable {U : Type} [DecidableEq U]

namespace LockHook

/-- `relation.data[unit]`, at `"state"`. -/
def unitData (h : LockHook U) (u : U) : Option UnitLock :=
  if u = h.unit then h.unitWrite.or (h.seenUnit u) else h.seenUnit u

/-- `relation.data[app]`, at `str(unit)`. -/
def appData (h : LockHook U) (u : U) : Option AppLock := (h.appWrites u).or (h.seenApp u)

def unitState (h : LockHook U) (u : U) : LockState :=
  match h.unitData u with
  | none => .idle
  | some l => l.state

def appState (h : LockHook U) (u : U) : LockState :=
  match h.appData u with
  | none => .idle
  | some l => l.state

/-- `Lock._state`. -/
def state (h : LockHook U) (u : U) : LockState :=
  if h.appState u = .granted ∧ h.unitState u = .release then .release
  else if h.appState u = .idle ∧ h.unitState u = .acquire then .acquire
  else h.appState u

def isHeld (h : LockHook U) (u : U) : Prop := h.state u = .granted

def releaseRequested (h : LockHook U) (u : U) : Prop := h.state u = .release

def isPending (h : LockHook U) (u : U) : Prop := h.state u = .acquire

instance (h : LockHook U) (u : U) : Decidable (h.isHeld u) :=
  inferInstanceAs (Decidable (h.state u = .granted))

instance (h : LockHook U) (u : U) : Decidable (h.releaseRequested u) :=
  inferInstanceAs (Decidable (h.state u = .release))

instance (h : LockHook U) (u : U) : Decidable (h.isPending u) :=
  inferInstanceAs (Decidable (h.state u = .acquire))

/-- `Lock(self).acquire()`. -/
def acquire (h : LockHook U) : LockHook U := { h with unitWrite := some .acquire }

/-- `Lock(self).release()`. -/
def release (h : LockHook U) : LockHook U := { h with unitWrite := some .release }

def clear (h : LockHook U) (u : U) : LockHook U :=
  { h with appWrites := Function.update h.appWrites u (some .idle) }

def grant (h : LockHook U) (u : U) : LockHook U :=
  { h with appWrites := Function.update h.appWrites u (some .granted) }

/-- An exception ends the hook: nothing after it runs. -/
def andThen (h : LockHook U) (f : LockHook U → LockHook U) : LockHook U :=
  if h.raised then h else f h

def clearReleased (h : LockHook U) (u : U) : LockHook U :=
  if h.releaseRequested u then h.clear u else h

/-- The loop of `_on_process_locks`. It returns at the first lock that is held, with
what it has cleared until then; otherwise it gives the pending locks, the leader's
own in front of the others. -/
def scanLocks (h : LockHook U) (pending : List U) : List U → LockHook U × Option (List U)
  | [] => (h, some pending)
  | u :: us =>
    if h.isHeld u then (h, none)
    else
      let h' := h.clearReleased u
      if h'.isPending u then
        scanLocks h' (if u = h.unit then u :: pending else pending ++ [u]) us
      else scanLocks h' pending us

/-- The callback has run, and `lock.release()` behind it. -/
def called (h : LockHook U) (r : RestartResult) : LockHook U :=
  { h.release with
    ran := h.ran ++ [r]
    deferred := h.deferred + r.deferred.toNat }

/-- `_on_run_with_lock`. Nothing here asks whether the lock is held, and the lock is
released also when the callback deferred its event. -/
def runWithLock (process : LockHook U → LockHook U) (h : LockHook U) : LockHook U :=
  match charmCallback (h.callbackOverride.getD "_restart_broker".toList) with
  | none => { h with raised := true }
  | some callback =>
    (process (h.called (callback (h.health h.ran.length)))).andThen fun h =>
      { h with callbackOverride := none }

/-- `_on_process_locks`, with a bound on how often it comes back to itself through
`_on_run_with_lock`. -/
def processLocksWithin : Nat → LockHook U → LockHook U
  | 0, h => h
  | fuel + 1, h =>
    if !h.isLeader then h
    else
      match h.scanLocks [] (h.units ++ [h.unit]) with
      | (h', none) => h'
      | (h', some pending) =>
        match pending.getLast? with
        | none => h'
        | some u =>
          if u = h.unit then (h'.grant u).runWithLock (processLocksWithin fuel) else h'.grant u

/-- `_on_process_locks`. -/
def processLocks (h : LockHook U) : LockHook U := h.processLocksWithin 2

/-- `_on_relation_changed`. -/
def onRelationChanged (h : LockHook U) : LockHook U :=
  (if h.isHeld h.unit then h.runWithLock processLocks else h).andThen processLocks

/-- `_on_acquire_lock`; writing an empty override removes the key. -/
def onAcquireLock (h : LockHook U) (callbackOverride : Str) : LockHook U :=
  { h.acquire with
    callbackOverride := if callbackOverride = [] then none else some callbackOverride
  }.onRelationChanged

/-- The framework emits what was deferred again, before the event of the hook. -/
def reemit : Nat → LockHook U → LockHook U
  | 0, h => h
  | n + 1, h =>
    ({ h with deferred := h.deferred - 1 }.runWithLock processLocks).andThen (reemit n)

end LockHook

/-- The events of the relation `restart` that a hook brings to a unit. -/
inductive LockEvent
  | relationChanged
  | acquireLock (callbackOverride : Str)
  deriving DecidableEq, Repr

namespace LockHook

def handle (h : LockHook U) : LockEvent → LockHook U
  | .relationChanged => h.onRelationChanged
  | .acquireLock callbackOverride => h.onAcquireLock callbackOverride

/-- The whole hook. -/
def run (h : LockHook U) (events : List LockEvent) : LockHook U :=
  events.foldl (fun h e => h.andThen (handle · e)) (h.reemit h.deferred)

/-- Whether the hook changed the relation data of the application. -/
def wroteApp (h : LockHook U) : Bool :=
  (h.units ++ [h.unit]).any fun u => (h.appWrites u).isSome

end LockHook

/-! ## All units -/

/-- What the units have committed, the hooks that are under way, and the callbacks of
the committed hooks in the order of the commits. -/
structure RestartWorld (U : Type) where
  members : List U
  leader : Option U
  unit : U → Option UnitLock
  app : U → Option AppLock
  callbackOverride : U → Option Str
  deferred : U → Nat
  hook : U → Option (LockHook U)
  log : List (U × RestartResult)

namespace RestartWorld

def empty : RestartWorld U where
  members := []
  leader := none
  unit _ := none
  app _ := none
  callbackOverride _ := none
  deferred _ := 0
  hook _ := none
  log := []

/-- What a hook of `u` starts from. -/
def dispatched (w : RestartWorld U) (u : U) (units : List U) (health : Nat → BrokerHealth) :
    LockHook U where
  unit := u
  isLeader := decide (w.leader = some u)
  units := units
  seenUnit := w.unit
  seenApp := w.app
  health := health
  unitWrite := none
  appWrites _ := none
  callbackOverride := w.callbackOverride u
  deferred := w.deferred u
  ran := []
  raised := false

end RestartWorld

inductive LockMove (U : Type)
  | dispatch (u : U) (units : List U) (events : List LockEvent) (health : Nat → BrokerHealth)
  | commit (u : U)
  | crash (u : U)
  | elect (u : U)
  | join (u : U)
  | depart (u : U)

namespace RestartWorld

/-- The writes of a hook become visible to all. The relation data of the application
are accepted from the leader only. -/
def commit (w : RestartWorld U) (h : LockHook U) : RestartWorld U where
  members := w.members
  leader := w.leader
  unit := Function.update w.unit h.unit (h.unitWrite.or (w.unit h.unit))
  app u := (h.appWrites u).or (w.app u)
  callbackOverride := Function.update w.callbackOverride h.unit h.callbackOverride
  deferred := Function.update w.deferred h.unit h.deferred
  hook := Function.update w.hook h.unit none
  log := w.log ++ h.ran.map fun r => (h.unit, r)

/-- The unit works through a hook, which is not visible to others yet. -/
def dispatch (w : RestartWorld U) (u : U) (units : List U) (events : List LockEvent)
    (health : Nat → BrokerHealth) : RestartWorld U :=
  { w with hook := Function.update w.hook u (some ((w.dispatched u units health).run events)) }

def crash (w : RestartWorld U) (u : U) : RestartWorld U :=
  { w with hook := Function.update w.hook u none }

def join (w : RestartWorld U) (u : U) : RestartWorld U :=
  { w with
    members := w.members ++ [u]
    unit := Function.update w.unit u none
    callbackOverride := Function.update w.callbackOverride u none
    deferred := Function.update w.deferred u 0 }

/-- A unit that leaves takes its own relation data along, not its entry in that of the
application. -/
def depart (w : RestartWorld U) (u : U) : RestartWorld U :=
  { w with
    members := w.members.erase u
    leader := if w.leader = some u then none else w.leader
    unit := Function.update w.unit u none
    callbackOverride := Function.update w.callbackOverride u none
    deferred := Function.update w.deferred u 0 }

/-- Hooks of one unit come one after another, each with the other members of the
relation in some order. A hook that raised cannot commit, and any hook may crash. -/
def step (w : RestartWorld U) : LockMove U → Option (RestartWorld U)
  | .dispatch u units events health =>
    if u ∈ w.members ∧ w.hook u = none ∧ units.Perm (w.members.erase u) then
      some (w.dispatch u units events health)
    else none
  | .commit u =>
    match w.hook u with
    | none => none
    | some h =>
      if h.raised = false ∧ (h.wroteApp → w.leader = some u) then some (w.commit h) else none
  | .crash u => if (w.hook u).isSome then some (w.crash u) else none
  | .elect u => if u ∈ w.members then some { w with leader := some u } else none
  | .join u => if u ∈ w.members then none else some (w.join u)
  | .depart u => if u ∈ w.members ∧ w.hook u = none then some (w.depart u) else none

variable {w w' : RestartWorld U} {u : U}

theorem step_dispatch {units : List U} {events : List LockEvent} {health : Nat → BrokerHealth}
    (h : w.step (.dispatch u units events health) = some w') :
    u ∈ w.members ∧ w.hook u = none ∧ units.Perm (w.members.erase u) ∧
      w' = w.dispatch u units events health := by
  simp only [step, Option.ite_none_right_eq_some, Option.some.injEq] at h
  exact ⟨h.1.1, h.1.2.1, h.1.2.2, h.2.symm⟩

theorem step_commit (h : w.step (.commit u) = some w') :
    ∃ g, w.hook u = some g ∧ g.raised = false ∧ (g.wroteApp → w.leader = some u) ∧
      w' = w.commit g := by
  simp only [step] at h
  cases hg : w.hook u with
  | none => simp [hg] at h
  | some g =>
    simp only [hg, Option.ite_none_right_eq_some, Option.some.injEq] at h
    exact ⟨g, rfl, h.1.1, h.1.2, h.2.symm⟩

theorem step_crash (h : w.step (.crash u) = some w') : w' = w.crash u := by
  simp only [step, Option.ite_none_right_eq_some, Option.some.injEq] at h
  exact h.2.symm

theorem step_elect (h : w.step (.elect u) = some w') :
    u ∈ w.members ∧ w' = { w with leader := some u } := by
  simp only [step, Option.ite_none_right_eq_some, Option.some.injEq] at h
  exact ⟨h.1, h.2.symm⟩

theorem step_join (h : w.step (.join u) = some w') : u ∉ w.members ∧ w' = w.join u := by
  simp only [step, Option.ite_none_left_eq_some, Option.some.injEq] at h
  exact ⟨h.1, h.2.symm⟩

theorem step_depart (h : w.step (.depart u) = some w') :
    u ∈ w.members ∧ w.hook u = none ∧ w' = w.depart u := by
  simp only [step, Option.ite_none_right_eq_some, Option.some.injEq] at h
  exact ⟨h.1.1, h.1.2, h.2.symm⟩

end RestartWorld

/-! ## Lock states -/

namespace LockHook

theorem isHeld_iff (h : LockHook U) (u : U) :
    h.isHeld u ↔ h.appData u = some .granted ∧ h.unitData u ≠ some .release := by
  unfold isHeld state appState unitState
  rcases h.appData u with _ | _ | _ <;> rcases h.unitData u with _ | _ | _ <;>
    simp [AppLock.state, UnitLock.state]

theorem releaseRequested_iff (h : LockHook U) (u : U) :
    h.releaseRequested u ↔ h.appData u = some .granted ∧ h.unitData u = some .release := by
  unfold releaseRequested state appState unitState
  rcases h.appData u with _ | _ | _ <;> rcases h.unitData u with _ | _ | _ <;>
    simp [AppLock.state, UnitLock.state]

theorem isPending_iff (h : LockHook U) (u : U) :
    h.isPending u ↔ h.appData u ≠ some .granted ∧ h.unitData u = some .acquire := by
  unfold isPending state appState unitState
  rcases h.appData u with _ | _ | _ <;> rcases h.unitData u with _ | _ | _ <;>
    simp [AppLock.state, UnitLock.state]

@[simp] theorem clear_appData_self (h : LockHook U) (u : U) :
    (h.clear u).appData u = some .idle := by
  simp [clear, appData]

@[simp] theorem grant_appData_self (h : LockHook U) (u : U) :
    (h.grant u).appData u = some .granted := by
  simp [grant, appData]

theorem clear_appData_of_ne (h : LockHook U) {u v : U} (hne : v ≠ u) :
    (h.clear u).appData v = h.appData v := by
  simp [clear, appData, hne]

theorem grant_appData_of_ne (h : LockHook U) {u v : U} (hne : v ≠ u) :
    (h.grant u).appData v = h.appData v := by
  simp [grant, appData, hne]

theorem clear_unitData (h : LockHook U) (u v : U) : (h.clear u).unitData v = h.unitData v := rfl

/-- Clearing a lock that was released makes nobody hold or wait. -/
theorem clearReleased_isHeld (h : LockHook U) (u v : U) :
    (h.clearReleased u).isHeld v ↔ h.isHeld v := by
  unfold clearReleased
  split
  · rename_i hreleased
    have hu := (releaseRequested_iff h u).mp hreleased
    by_cases hv : v = u
    · subst hv
      simp [isHeld_iff, hu.2, clear_unitData]
    · simp only [isHeld_iff, clear_appData_of_ne h hv, clear_unitData]
  · exact Iff.rfl

theorem clearReleased_isPending (h : LockHook U) (u v : U) :
    (h.clearReleased u).isPending v ↔ h.isPending v := by
  unfold clearReleased
  split
  · rename_i hreleased
    have hu := (releaseRequested_iff h u).mp hreleased
    by_cases hv : v = u
    · subst hv
      simp [isPending_iff, hu.2, clear_unitData]
    · simp only [isPending_iff, clear_appData_of_ne h hv, clear_unitData]
  · exact Iff.rfl

/-- A unit that does not hold its lock is not granted it any more. -/
theorem clearReleased_appData (h : LockHook U) {u : U} (hu : ¬ h.isHeld u) :
    (h.clearReleased u).appData u ≠ some .granted := by
  unfold clearReleased
  split
  · simp
  · rename_i hreleased
    intro happ
    rw [isHeld_iff] at hu
    rw [releaseRequested_iff] at hreleased
    by_cases hrel : h.unitData u = some .release
    · exact hreleased ⟨happ, hrel⟩
    · exact hu ⟨happ, hrel⟩

theorem clearReleased_appData_mono (h : LockHook U) (u : U) {v : U}
    (hv : h.appData v ≠ some .granted) : (h.clearReleased u).appData v ≠ some .granted := by
  unfold clearReleased
  split
  · by_cases hvu : v = u
    · subst hvu
      simp
    · rwa [clear_appData_of_ne h hvu]
  · exact hv

@[simp] theorem clearReleased_unit (h : LockHook U) (u : U) : (h.clearReleased u).unit = h.unit := by
  unfold clearReleased
  split <;> rfl

/-! ## What a hook does -/

/-- A unit whose lock the hook reads. -/
def Lists (h : LockHook U) (u : U) : Prop := u ∈ h.units ∨ u = h.unit

/-- All that a hook ever does. `asks` says that it may ask for the lock, and `retries`
that it may run a callback that an earlier hook has deferred. -/
inductive Act (asks retries : Prop) : LockHook U → LockHook U → Prop
  | clear (h : LockHook U) (u : U) (leader : h.isLeader = true) (listed : h.Lists u)
      (released : h.releaseRequested u) : Act asks retries h (h.clear u)
  | grant (h : LockHook U) (u : U) (leader : h.isLeader = true) (listed : h.Lists u)
      (waits : h.isPending u) (free : ∀ v, h.Lists v → h.appData v ≠ some .granted)
      (last : u = h.unit → ∀ v, h.Lists v → h.isPending v → v = h.unit) :
      Act asks retries h (h.grant u)
  | call (h : LockHook U) (r : RestartResult) (held : h.isHeld h.unit) :
      Act asks retries h (h.called r)
  | retry (h : LockHook U) (r : RestartResult) (again : retries) : Act asks retries h (h.called r)
  | acquire (h : LockHook U) (asked : asks) : Act asks retries h h.acquire
  | note (h : LockHook U) (o : Option Str) (n : Nat) (b : Bool) :
      Act asks retries h { h with callbackOverride := o, deferred := n, raised := b }

/-- Any number of acts. -/
def Acts (asks retries : Prop) : LockHook U → LockHook U → Prop :=
  Relation.ReflTransGen (Act asks retries)

variable {h h' : LockHook U} {u v : U} {us pending q : List U} {asks retries : Prop}

theorem clearReleased_acts (leader : h.isLeader = true) (listed : h.Lists u) :
    Acts asks retries h (h.clearReleased u) := by
  unfold clearReleased
  split
  · rename_i released
    exact .single (.clear h u leader listed released)
  · exact .refl

/-- The fields that no clearing touches. -/
def SameHook (h h' : LockHook U) : Prop := h' = { h with appWrites := h'.appWrites }

theorem clearReleased_same (h : LockHook U) (u : U) : h.SameHook (h.clearReleased u) := by
  unfold clearReleased SameHook
  split <;> rfl

omit [DecidableEq U] in
theorem SameHook.trans {h'' : LockHook U} (hs : h.SameHook h') (hs' : h'.SameHook h'') :
    h.SameHook h'' := by
  unfold SameHook at hs hs' ⊢
  rw [hs', hs]

/-- What clearing keeps, the scan keeps. -/
theorem scanLocks_keeps {P : LockHook U → Prop}
    (hstep : ∀ h u, u ∈ us → P h → P (h.clearReleased u)) (h0 : P h) :
    P (h.scanLocks pending us).1 := by
  induction us generalizing h pending with
  | nil => exact h0
  | cons u us ih =>
    have hstep' : ∀ h v, v ∈ us → P h → P (h.clearReleased v) :=
      fun h v hv => hstep h v (List.mem_cons_of_mem u hv)
    unfold scanLocks
    split
    · exact h0
    · dsimp only
      have h1 : P (h.clearReleased u) := hstep h u List.mem_cons_self h0
      split
      · exact ih hstep' h1
      · exact ih hstep' h1

theorem scanLocks_same (h : LockHook U) (pending us : List U) :
    h.SameHook (h.scanLocks pending us).1 :=
  scanLocks_keeps (fun _ u _ hs => hs.trans (clearReleased_same _ u)) rfl

theorem scanLocks_acts (leader : h.isLeader = true) (listed : ∀ u ∈ us, h.Lists u) :
    Acts asks retries h (h.scanLocks pending us).1 := by
  have hboth : h.SameHook (h.scanLocks pending us).1 ∧
      Acts asks retries h (h.scanLocks pending us).1 := by
    refine scanLocks_keeps (P := fun x => h.SameHook x ∧ Acts asks retries h x) ?_ ⟨rfl, .refl⟩
    rintro x u hu ⟨hs, hacts⟩
    refine ⟨hs.trans (clearReleased_same x u), hacts.trans (clearReleased_acts ?_ ?_)⟩
    · rw [hs]
      exact leader
    · rw [hs]
      exact listed u hu
  exact hboth.2

theorem scanLocks_isPending (h : LockHook U) (pending us : List U) (v : U) :
    (h.scanLocks pending us).1.isPending v ↔ h.isPending v :=
  scanLocks_keeps (P := fun x => x.isPending v ↔ h.isPending v)
    (fun x u _ hx => (clearReleased_isPending x u v).trans hx) Iff.rfl

theorem scanLocks_appData (hv : h.appData v ≠ some .granted) :
    (h.scanLocks pending us).1.appData v ≠ some .granted :=
  scanLocks_keeps (P := fun x => x.appData v ≠ some .granted)
    (fun x u _ hx => clearReleased_appData_mono x u hx) hv

/-- The scan stops early exactly when somebody holds the lock. -/
theorem scanLocks_none_iff (h : LockHook U) (pending us : List U) :
    (h.scanLocks pending us).2 = none ↔ ∃ v ∈ us, h.isHeld v := by
  induction us generalizing h pending with
  | nil => simp [scanLocks]
  | cons u us ih =>
    unfold scanLocks
    split
    · rename_i hu
      simp [hu]
    · rename_i hu
      have hrest : (∃ v ∈ us, (h.clearReleased u).isHeld v) ↔ ∃ v ∈ u :: us, h.isHeld v := by
        simp [clearReleased_isHeld, hu]
      dsimp only
      split
      · exact (ih _ _).trans hrest
      · exact (ih _ _).trans hrest

/-- Once it is through, nobody it has read is granted the lock. -/
theorem scanLocks_free (hq : (h.scanLocks pending us).2 = some q) (hv : v ∈ us) :
    (h.scanLocks pending us).1.appData v ≠ some .granted := by
  induction us generalizing h pending with
  | nil => cases hv
  | cons u us ih =>
    unfold scanLocks at hq ⊢
    split at hq
    · cases hq
    · rename_i hu
      rw [if_neg hu]
      have hown := clearReleased_appData h hu
      dsimp only at hq ⊢
      split at hq
      · rename_i hwaits
        rw [if_pos hwaits]
        rcases List.mem_cons.mp hv with rfl | hv
        · exact scanLocks_appData hown
        · exact ih hq hv
      · rename_i hwaits
        rw [if_neg hwaits]
        rcases List.mem_cons.mp hv with rfl | hv
        · exact scanLocks_appData hown
        · exact ih hq hv

/-- The leader's own lock in front of the others. -/
def OwnFirst (h : LockHook U) (q : List U) : Prop :=
  ∃ n others, q = List.replicate n h.unit ++ others ∧ h.unit ∉ others

theorem OwnFirst.insert (hq : h.OwnFirst q) (u : U) :
    h.OwnFirst (if u = h.unit then u :: q else q ++ [u]) := by
  obtain ⟨n, others, rfl, hothers⟩ := hq
  split
  · rename_i hu
    exact ⟨n + 1, others, by simp [hu, List.replicate_succ], hothers⟩
  · rename_i hu
    exact ⟨n, others ++ [u], by simp, by simp [hothers, Ne.symm hu]⟩

/-- The pending locks are exactly those of the units that wait. -/
theorem scanLocks_pending (hq : (h.scanLocks pending us).2 = some q) (hown : h.OwnFirst pending) :
    q.Perm (pending ++ us.filter (fun u => decide (h.isPending u))) ∧ h.OwnFirst q := by
  induction us generalizing h pending with
  | nil =>
    cases hq
    exact ⟨by simp, hown⟩
  | cons u us ih =>
    have hunit : (h.clearReleased u).unit = h.unit := clearReleased_unit h u
    have hsame : us.filter (fun v => decide ((h.clearReleased u).isPending v)) =
        us.filter (fun v => decide (h.isPending v)) := by
      simp only [clearReleased_isPending]
    unfold scanLocks at hq
    split at hq
    · cases hq
    · dsimp only at hq
      split at hq
      · rename_i hwaits
        have hins := hown.insert u
        obtain ⟨hperm, hfirst⟩ := ih hq (by unfold OwnFirst at hins ⊢; rwa [hunit])
        rw [clearReleased_isPending] at hwaits
        refine ⟨hperm.trans ?_, by unfold OwnFirst at hfirst ⊢; rwa [hunit] at hfirst⟩
        rw [hsame, List.filter_cons_of_pos (by simpa using hwaits)]
        split
        · exact List.perm_middle.symm
        · simp
      · rename_i hwaits
        obtain ⟨hperm, hfirst⟩ := ih hq (by unfold OwnFirst at hown ⊢; rwa [hunit])
        rw [clearReleased_isPending] at hwaits
        refine ⟨hperm.trans ?_, by unfold OwnFirst at hfirst ⊢; rwa [hunit] at hfirst⟩
        rw [hsame, List.filter_cons_of_neg (by simpa using hwaits)]

/-- Whom the leader serves next: a unit that waits, itself only when nobody else does. -/
theorem scanLocks_next (hq : (h.scanLocks [] (h.units ++ [h.unit])).2 = some q)
    (hu : q.getLast? = some u) :
    h.Lists u ∧ h.isPending u ∧
      (u = h.unit → ∀ v, h.Lists v → h.isPending v → v = h.unit) := by
  obtain ⟨hperm, n, others, hsplit, hothers⟩ := scanLocks_pending hq ⟨0, [], rfl, by simp⟩
  have hmem : ∀ v, v ∈ q ↔ h.Lists v ∧ h.isPending v := by
    intro v
    rw [hperm.mem_iff]
    simp [Lists, or_and_right]
  obtain ⟨hlisted, hwaits⟩ := (hmem u).mp (List.mem_of_getLast? hu)
  refine ⟨hlisted, hwaits, fun hown v hv hvwaits => ?_⟩
  -- the last of the pending locks is the leader's own, so there are no others behind it
  have hnone : others = [] := by
    by_contra hne
    rw [hsplit, List.getLast?_append_of_ne_nil _ hne] at hu
    exact hothers (hown ▸ List.mem_of_getLast? hu)
  have hvq : v ∈ q := (hmem v).mpr ⟨hv, hvwaits⟩
  rw [hsplit, hnone, List.append_nil] at hvq
  exact List.eq_of_mem_replicate hvq

theorem andThen_acts {f : LockHook U → LockHook U} (hf : ∀ x, Acts asks retries x (f x)) :
    Acts asks retries h (h.andThen f) := by
  unfold andThen
  split
  · exact .refl
  · exact hf h

theorem runWithLock_acts {process : LockHook U → LockHook U}
    (hprocess : ∀ x, Acts asks retries x (process x)) (may : h.isHeld h.unit ∨ retries) :
    Acts asks retries h (h.runWithLock process) := by
  unfold runWithLock
  split
  · exact .single (.note h h.callbackOverride h.deferred true)
  · rename_i callback _
    have hcall : ∀ r, Acts asks retries h (h.called r) := by
      intro r
      rcases may with held | again
      · exact .single (.call h r held)
      · exact .single (.retry h r again)
    exact (hcall _).trans ((hprocess _).trans
      (andThen_acts fun x => .single (.note x none x.deferred x.raised)))

/-- A scan that is through has found the lock free. -/
theorem scanLocks_through (hres : h.scanLocks [] (h.units ++ [h.unit]) = (h', some q)) :
    h.SameHook h' ∧ (∀ v, h'.isPending v ↔ h.isPending v) ∧
      ∀ v, h.Lists v → h'.appData v ≠ some .granted := by
  have hsame := scanLocks_same h [] (h.units ++ [h.unit])
  have hpending := scanLocks_isPending h [] (h.units ++ [h.unit])
  have hfree := fun v => scanLocks_free (v := v) (q := q)
    (show (h.scanLocks [] (h.units ++ [h.unit])).2 = some q by rw [hres])
  rw [hres] at hsame hpending hfree
  exact ⟨hsame, hpending, fun v hv => hfree v (by simpa [Lists] using hv)⟩

theorem grantNext_acts (leader : h.isLeader = true)
    (hres : h.scanLocks [] (h.units ++ [h.unit]) = (h', some q)) (hu : q.getLast? = some u) :
    Acts asks retries h (h'.grant u) ∧ (u = h.unit → (h'.grant u).isHeld (h'.grant u).unit) := by
  obtain ⟨hsame, hpending, hfree⟩ := scanLocks_through hres
  obtain ⟨listed, waits, last⟩ := scanLocks_next (by rw [hres]) hu
  have hscan : Acts asks retries h (h.scanLocks [] (h.units ++ [h.unit])).1 :=
    scanLocks_acts leader (by simp [Lists])
  rw [hres] at hscan
  have hlists : ∀ v, h'.Lists v ↔ h.Lists v := by
    intro v
    rw [hsame]
    rfl
  have hunit : h'.unit = h.unit := by rw [hsame]
  have hleader : h'.isLeader = true := by
    rw [hsame]
    exact leader
  constructor
  · refine hscan.tail (.grant h' u hleader ((hlists u).mpr listed) ((hpending u).mpr waits)
      (fun v hv => hfree v ((hlists v).mp hv)) fun hown v hv hvwaits => ?_)
    rw [hunit] at hown ⊢
    exact last hown v ((hlists v).mp hv) ((hpending v).mp hvwaits)
  · intro hown
    have hacquire := ((isPending_iff h' u).mp ((hpending u).mpr waits)).2
    have hgunit : (h'.grant u).unit = u := by
      rw [hown]
      exact hunit
    rw [hgunit, isHeld_iff]
    refine ⟨by simp, ?_⟩
    change h'.unitData u ≠ some .release
    simp [hacquire]

theorem processLocksWithin_acts (n : Nat) (h : LockHook U) :
    Acts asks retries h (h.processLocksWithin n) := by
  induction n generalizing h with
  | zero => exact .refl
  | succ n ih =>
    unfold processLocksWithin
    split
    · exact .refl
    · rename_i hleader
      have leader : h.isLeader = true := by simpa using hleader
      have hscan : Acts asks retries h (h.scanLocks [] (h.units ++ [h.unit])).1 :=
        scanLocks_acts leader (by simp [Lists])
      split
      · rename_i h' hres
        rwa [hres] at hscan
      · rename_i h' q hres
        split
        · rwa [hres] at hscan
        · rename_i u hu
          have hnext : Acts asks retries h (h'.grant u) ∧ _ := grantNext_acts leader hres hu
          split
          · rename_i hown
            exact hnext.1.trans (runWithLock_acts ih (.inl (hnext.2 hown)))
          · exact hnext.1

theorem processLocks_acts (h : LockHook U) : Acts asks retries h h.processLocks :=
  processLocksWithin_acts 2 h

theorem onRelationChanged_acts (h : LockHook U) : Acts asks retries h h.onRelationChanged := by
  unfold onRelationChanged
  split
  · rename_i held
    exact (runWithLock_acts processLocks_acts (.inl held)).trans (andThen_acts processLocks_acts)
  · exact andThen_acts processLocks_acts

theorem onAcquireLock_acts (asked : asks) (h : LockHook U) (o : Str) :
    Acts asks retries h (h.onAcquireLock o) := by
  refine .trans (.tail (.single (.acquire h asked)) ?_) (onRelationChanged_acts _)
  exact .note h.acquire _ _ _

theorem reemit_acts (again : retries) (n : Nat) (h : LockHook U) :
    Acts asks retries h (h.reemit n) := by
  induction n generalizing h with
  | zero => exact .refl
  | succ n ih =>
    have hnote : Acts asks retries h { h with deferred := h.deferred - 1 } :=
      .single (.note h h.callbackOverride (h.deferred - 1) h.raised)
    exact hnote.trans ((runWithLock_acts processLocks_acts (.inr again)).trans (andThen_acts ih))

/-- A hook asks for the lock when one of its events does, and runs a callback without
asking whether it holds the lock when one was deferred. -/
theorem run_acts (h : LockHook U) (events : List LockEvent) :
    Acts (∃ o, LockEvent.acquireLock o ∈ events) (0 < h.deferred) h (h.run events) := by
  have hreemit : Acts (∃ o, LockEvent.acquireLock o ∈ events) (0 < h.deferred) h
      (h.reemit h.deferred) := by
    rcases Nat.eq_zero_or_pos h.deferred with hzero | hpos
    · rw [hzero]
      exact .refl
    · exact reemit_acts hpos _ h
  have hloop : ∀ (es : List LockEvent) (x : LockHook U), (∀ e ∈ es, e ∈ events) →
      Acts (∃ o, LockEvent.acquireLock o ∈ events) (0 < h.deferred) x
        (es.foldl (fun h e => h.andThen (handle · e)) x) := by
    intro es
    induction es with
    | nil => exact fun _ _ => .refl
    | cons e es ih =>
      intro x hes
      obtain ⟨he, hrest⟩ := List.forall_mem_cons.mp hes
      refine .trans (andThen_acts fun y => ?_) (ih _ hrest)
      cases e with
      | relationChanged => exact onRelationChanged_acts y
      | acquireLock o => exact onAcquireLock_acts ⟨o, he⟩ y o
  exact hreemit.trans (hloop events _ fun _ he => he)

/-! ## The handlers call each other at most twice -/

theorem called_unitData (h : LockHook U) (r : RestartResult) :
    (h.called r).unitData (h.called r).unit = some .release := by
  simp [called, release, unitData]

theorem runWithLock_congr {process process' : LockHook U → LockHook U}
    (heq : ∀ x, x.unitData x.unit = some .release → process x = process' x) :
    h.runWithLock process = h.runWithLock process' := by
  unfold runWithLock
  split
  · rfl
  · rw [heq _ (called_unitData h _)]

/-- After its own run the leader is not served again. -/
theorem processLocksWithin_released (hrel : h.unitData h.unit = some .release) (n : Nat) :
    h.processLocksWithin (n + 1) = h.processLocksWithin 1 := by
  unfold processLocksWithin
  split
  · rfl
  · split
    · rfl
    · rename_i h' q hres
      split
      · rfl
      · rename_i u hu
        have hwaits := (scanLocks_next (by rw [hres]) hu).2.1
        have hne : u ≠ h.unit := by
          rintro rfl
          simp [isPending_iff, hrel] at hwaits
        rw [if_neg hne, if_neg hne]

/-- Deeper recursion changes nothing: the bound of `processLocks` is not felt. -/
theorem processLocks_enough (h : LockHook U) (n : Nat) :
    h.processLocksWithin (n + 2) = h.processLocks := by
  unfold processLocks
  rw [processLocksWithin, processLocksWithin]
  split
  · rfl
  · split
    · rfl
    · split
      · rfl
      · split
        · exact runWithLock_congr fun x hrel => processLocksWithin_released hrel n
        · rfl

end LockHook

end KafkaCharm
