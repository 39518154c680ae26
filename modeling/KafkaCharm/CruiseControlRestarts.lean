import KafkaCharm.Balancer
import KafkaCharm.CruiseControl
import KafkaCharm.Lib.Runs

namespace KafkaCharm

open PyText Runs

/-! ## The leader and its container -/

/-- What is deferred: a start of Cruise Control, or the handling of a change by the broker of the
unit, which starts Cruise Control where its port does not answer. -/
inductive BalancerNotice where
  | start
  | brokerConfigChanged
  deriving DecidableEq, Repr

/-- How a start goes once the files are written. -/
inductive StartTry where
  | done
  | topicsFail
  | restartFails
  deriving DecidableEq, Repr

/-- What the leader and its container know: the files, those that Cruise Control was started with
if it runs, what is deferred, the password in the cluster's data, whether the certificates were
rotated, and how often Cruise Control was started. -/
structure BalancerUnit where
  files : BalancerFiles
  running : Option BalancerFiles
  pending : List BalancerNotice
  password : Str
  rotate : Bool
  restarts : Nat
  deriving DecidableEq

/-- The handlers that a hook calls. -/
inductive BalancerCall where
  | start (outcome : StartTry)
  | configChanged (logDirs : LogDirsQuery) (outcome : StartTry)
  | brokerConfigChanged (answers : Bool) (outcome : StartTry)
  | certificatesRotated
  deriving DecidableEq, Repr

/-- How a start that the call may make goes. -/
def BalancerCall.outcome : BalancerCall → Option StartTry
  | .start outcome | .configChanged _ outcome | .brokerConfigChanged _ outcome => some outcome
  | .certificatesRotated => none

/-- How it goes when a deferred notice is handled again. -/
structure Reemission where
  answers : Bool
  outcome : StartTry
  deriving DecidableEq, Repr

def BalancerNotice.call (r : Reemission) : BalancerNotice → BalancerCall
  | .start => .start r.outcome
  | .brokerConfigChanged => .brokerConfigChanged r.answers r.outcome

/-- A hook of the leader with what it reads, the password it would generate and how the deferred
notices go; or the service stops, or the container is replaced. -/
inductive BalancerEvent where
  | hook (v : BalancerView) (generated : Str) (reemitted : Nat → Reemission)
      (calls : List BalancerCall)
  | serviceStopped
  | containerReplaced (noticesKept : Bool)

namespace BalancerUnit

def initial : BalancerUnit := ⟨.none, none, [], [], false, 0⟩

variable (readText : Str → Str)

/-- `BalancerOperator._on_start`, called for what is deferred if the topics cannot be created. A
restart that fails leaves the service stopped, and the hook fails with it. -/
def onStart (v : BalancerView) (generated : Str) (notice : BalancerNotice) (outcome : StartTry)
    (u : BalancerUnit) : Except BalancerUnit BalancerUnit :=
  if v.balancerStatus = .active then
    let password := if u.password = [] then generated else u.password
    let files := v.write password
    let u := { u with password := password, files := files }
    match outcome with
    | .topicsFail => .ok { u with pending := u.pending ++ [notice] }
    | .restartFails => .error { u with running := none }
    | .done => .ok { u with running := some files, rotate := false, restarts := u.restarts + 1 }
  else .ok u

/-- `BalancerOperator.healthy`. -/
def healthy (v : BalancerView) (u : BalancerUnit) : Bool :=
  v.balancerStatus = .active && u.running.isSome

/-- The properties and the capacities are written. -/
def rewritten (v : BalancerView) (u : BalancerUnit) : BalancerUnit :=
  let written := v.write u.password
  { u with
    files := { u.files with
      properties := written.properties, capacities := written.capacities } }

/-- `BalancerOperator._on_config_changed`, and the start where it emits one. The comparison may
raise. -/
def onConfigChanged (v : BalancerView) (generated : Str) (logDirs : LogDirsQuery)
    (outcome : StartTry) (u : BalancerUnit) : Except BalancerUnit BalancerUnit :=
  if u.healthy v then
    match u.files.configChangeDetected readText v with
    | none => .error u
    | some detected =>
      let s : BalancerState := ⟨true, u.healthy v, detected || u.rotate, logDirs⟩
      if .start ∈ s.onConfigChanged then (u.rewritten v).onStart v generated .start outcome
      else .ok u
  else .ok u

/-- The part of `BrokerOperator._on_config_changed` that is about Cruise Control. -/
def brokerOnConfigChanged (v : BalancerView) (generated : Str) (answers : Bool)
    (outcome : StartTry) (u : BalancerUnit) : Except BalancerUnit BalancerUnit :=
  if v.balancerStatus = .active ∧ answers = false then
    u.onStart v generated .brokerConfigChanged outcome
  else .ok u

def call (v : BalancerView) (generated : Str) (u : BalancerUnit) :
    BalancerCall → Except BalancerUnit BalancerUnit
  | .start outcome => u.onStart v generated .start outcome
  | .configChanged logDirs outcome => u.onConfigChanged readText v generated logDirs outcome
  | .brokerConfigChanged answers outcome => u.brokerOnConfigChanged v generated answers outcome
  | .certificatesRotated => .ok { u with rotate := true }

/-- What is deferred is handled again first, in its order. -/
def reemit (reemitted : Nat → Reemission) (u : BalancerUnit) : List BalancerCall :=
  u.pending.mapIdx fun i notice => notice.call (reemitted i)

def hook (v : BalancerView) (generated : Str) (reemitted : Nat → Reemission)
    (calls : List BalancerCall) (u : BalancerUnit) : Except BalancerUnit BalancerUnit :=
  (u.reemit reemitted ++ calls).foldlM (call readText v generated) { u with pending := [] }

/-- A hook that fails leaves what it did to the container, and nothing else. -/
def step (u : BalancerUnit) : BalancerEvent → Option BalancerUnit
  | .hook v generated reemitted calls =>
    match u.hook readText v generated reemitted calls with
    | .ok u' => some u'
    | .error u' =>
      some { u with files := u'.files, running := u'.running, restarts := u'.restarts }
  | .serviceStopped => some { u with running := none }
  | .containerReplaced noticesKept =>
    some { u with
      files := .none, running := none, pending := if noticesKept then u.pending else [] }

/-! ## What a run keeps -/

/-- Cruise Control runs with the files that are there, or a start is still to come: deferred, or
among the calls that are left. -/
def FreshBy (rest : List BalancerCall) (u : BalancerUnit) : Prop :=
  ∀ files, u.running = some files →
    files = u.files ∨ .start ∈ u.pending ∨ ∃ outcome, .start outcome ∈ rest

/-- Where Cruise Control runs there is a file of capacities. -/
def Comparable (u : BalancerUnit) : Prop :=
  u.running.isSome = true → u.files.capacities.isSome = true

/-- No start that the broker's handler makes fails to create its topics while the service runs. -/
def admits (u : BalancerUnit) : BalancerCall → Bool
  | .brokerConfigChanged answers outcome => answers || outcome ≠ .topicsFail || u.running.isNone
  | _ => true

/-- Each call of the hook is admitted where it is made. -/
def allowed (v : BalancerView) (generated : Str) : BalancerUnit → List BalancerCall → Bool
  | _, [] => true
  | u, c :: calls => u.admits c &&
    match u.call readText v generated c with
    | .ok u' => allowed v generated u' calls
    | .error _ => true

/-- A hook without calls of the broker's handler is allowed, whatever the others do. -/
theorem allowed_of_admits {v : BalancerView} {generated : Str} {calls : List BalancerCall}
    (h : ∀ c ∈ calls, ∀ u : BalancerUnit, u.admits c = true) (u : BalancerUnit) :
    allowed readText v generated u calls = true := by
  induction calls generalizing u with
  | nil => rfl
  | cons c calls ih =>
    obtain ⟨hc, hcalls⟩ := List.forall_mem_cons.mp h
    rw [allowed, hc, Bool.true_and]
    split
    · exact ih hcalls _
    · rfl

/-- No deferred start meets a status other than active, and the calls are admitted. -/
def orderly (u : BalancerUnit) : BalancerEvent → Prop
  | .hook v generated reemitted calls =>
    (.start ∈ u.pending → v.balancerStatus = .active) ∧
      allowed readText v generated { u with pending := [] } (u.reemit reemitted ++ calls) = true
  | .serviceStopped => True
  | .containerReplaced _ => True

instance (u : BalancerUnit) (event : BalancerEvent) : Decidable (u.orderly readText event) :=
  match event with
  | .hook .. => inferInstanceAs (Decidable ((_ → _) ∧ _))
  | .serviceStopped => .isTrue trivial
  | .containerReplaced _ => .isTrue trivial

section Calls

variable {readText} {v : BalancerView} {generated : Str} {notice : BalancerNotice}
  {outcome : StartTry} {u u' : BalancerUnit} {c : BalancerCall} {rest : List BalancerCall}

theorem onStart_inactive (hactive : v.balancerStatus ≠ .active) :
    u.onStart v generated notice outcome = .ok u := if_neg hactive

/-- A start writes the files; then it is done, or deferred, or the service is stopped. -/
theorem onStart_active (hactive : v.balancerStatus = .active) (generated : Str)
    (notice : BalancerNotice) (outcome : StartTry) (u : BalancerUnit) :
    (outcome = .done ∧ ∃ u', u.onStart v generated notice outcome = .ok u' ∧
      u'.running = some u'.files ∧ u'.files.capacities.isSome = true ∧ u'.pending = u.pending) ∨
    (outcome = .topicsFail ∧ ∃ u', u.onStart v generated notice outcome = .ok u' ∧
      u'.running = u.running ∧ u'.files.capacities.isSome = true ∧
      u'.pending = u.pending ++ [notice]) ∨
    (outcome = .restartFails ∧ ∃ u', u.onStart v generated notice outcome = .error u' ∧
      u'.running = none) := by
  unfold onStart
  rw [if_pos hactive]
  cases outcome with
  | done => exact .inl ⟨rfl, _, rfl, rfl, rfl, rfl⟩
  | topicsFail => exact .inr (.inl ⟨rfl, _, rfl, rfl, rfl, rfl⟩)
  | restartFails => exact .inr (.inr ⟨rfl, _, rfl, rfl⟩)

/-- What a call leaves: the hook goes on with what is kept, or a restart failed in it. -/
def Keeps (rest : List BalancerCall) (c : BalancerCall) (r : Except BalancerUnit BalancerUnit) :
    Prop :=
  (∃ u', r = .ok u' ∧ u'.FreshBy rest ∧ u'.Comparable) ∨
    c.outcome = some .restartFails ∧ ∃ u', r = .error u' ∧ u'.running = none

/-- A start in an active status leaves the unit fresh, whatever it was before, if it is done or
deferred as a start. -/
theorem keeps_onStart (hactive : v.balancerStatus = .active) (hc : c.outcome = some outcome)
    (hdeferred : outcome = .topicsFail → notice = .start ∨ u.running = none) :
    Keeps rest c (u.onStart v generated notice outcome) := by
  rcases onStart_active hactive generated notice outcome u with ⟨-, u', hu', hrunning, hcapacities, -⟩ |
      ⟨hfail, u', hu', hrunning, hcapacities, hpending⟩ | ⟨hfail, u', hu', hrunning⟩
  · refine .inl ⟨u', hu', fun files hfiles => .inl ?_, fun _ => hcapacities⟩
    exact Option.some.inj (hfiles.symm.trans hrunning)
  · refine .inl ⟨u', hu', fun files hfiles => ?_, fun _ => hcapacities⟩
    rcases hdeferred hfail with rfl | hnone
    · exact .inr (.inl (by simp [hpending]))
    · rw [hrunning, hnone] at hfiles
      cases hfiles
  · exact .inr ⟨hfail ▸ hc, u', hu', hrunning⟩

/-- The comparison does not raise; it leads to a start, or to nothing where it finds nothing. -/
theorem onConfigChanged_cases (h : u.Comparable) (readText : Str → Str) (v : BalancerView)
    (generated : Str) (logDirs : LogDirsQuery) (outcome : StartTry) :
    u.onConfigChanged readText v generated logDirs outcome = .ok u ∧
        (u.healthy v = true →
          u.files.configChangeDetected readText v = some false ∧ u.rotate = false) ∨
      u.onConfigChanged readText v generated logDirs outcome =
        (u.rewritten v).onStart v generated .start outcome ∧ v.balancerStatus = .active := by
  unfold onConfigChanged
  by_cases hhealthy : u.healthy v = true
  · rw [if_pos hhealthy]
    obtain ⟨hactive, hrunning⟩ := Bool.and_eq_true_iff.mp hhealthy
    obtain ⟨detected, hdetected⟩ :
        ∃ detected, u.files.configChangeDetected readText v = some detected := by
      obtain ⟨capacities, hcapacities⟩ := Option.isSome_iff_exists.mp (h hrunning)
      exact ⟨_, congrArg (Option.map _) hcapacities⟩
    rw [hdetected]
    dsimp only
    split
    case isTrue => exact .inr ⟨rfl, of_decide_eq_true hactive⟩
    case isFalse hnothing =>
      have houtdated : (detected || u.rotate) = false := by
        by_contra hsome
        exact hnothing (start_mem_onConfigChanged.mpr
          ⟨rfl, hhealthy, Bool.eq_true_of_not_eq_false hsome⟩)
      obtain ⟨rfl, hrotated⟩ := Bool.or_eq_false_iff.mp houtdated
      exact .inl ⟨rfl, fun _ => ⟨rfl, hrotated⟩⟩
  · rw [if_neg hhealthy]
    exact .inl ⟨rfl, fun h => absurd h hhealthy⟩

theorem FreshBy.tail (h : u.FreshBy (c :: rest)) (hc : ∀ outcome, c ≠ .start outcome) :
    u.FreshBy rest := by
  intro files hfiles
  refine (h files hfiles).imp_right (Or.imp_right ?_)
  rintro ⟨outcome, hmem⟩
  exact ⟨outcome, (List.mem_cons.mp hmem).resolve_left fun heq => hc outcome heq.symm⟩

theorem call_keeps (hfresh : u.FreshBy (c :: rest)) (hcomparable : u.Comparable)
    (hstart : ∀ outcome, c = .start outcome → v.balancerStatus = .active ∨ u.FreshBy rest)
    (hadmits : u.admits c = true) : Keeps rest c (u.call readText v generated c) := by
  cases c with
  | start outcome =>
    by_cases hactive : v.balancerStatus = .active
    · exact keeps_onStart hactive rfl fun _ => .inl rfl
    · have hfresh' := (hstart outcome rfl).resolve_left hactive
      exact .inl ⟨u, onStart_inactive hactive, hfresh', hcomparable⟩
  | configChanged logDirs outcome =>
    rcases onConfigChanged_cases hcomparable readText v generated logDirs outcome with ⟨hsame, -⟩ | ⟨hsame, hactive⟩
    · exact .inl ⟨u, hsame, hfresh.tail nofun, hcomparable⟩
    · rw [call, hsame]
      exact keeps_onStart hactive rfl fun _ => .inl rfl
  | brokerConfigChanged answers outcome =>
    rw [call, brokerOnConfigChanged]
    split
    case isTrue hstarts =>
      refine keeps_onStart hstarts.1 rfl fun hfail => .inr ?_
      simpa [admits, hstarts.2, hfail] using hadmits
    case isFalse => exact .inl ⟨u, rfl, hfresh.tail nofun, hcomparable⟩
  | certificatesRotated => exact .inl ⟨_, rfl, hfresh.tail nofun, hcomparable⟩

theorem FreshBy.mono (h : u.FreshBy []) : u.FreshBy rest := by
  intro files hfiles
  refine (h files hfiles).imp_right (Or.imp_right ?_)
  rintro ⟨outcome, hmem⟩
  cases hmem

/-- The calls of a hook go through unless a restart fails in one of them. -/
theorem calls_keep {calls : List BalancerCall} (hfresh : u.FreshBy calls)
    (hstart : v.balancerStatus = .active ∨ u.FreshBy []) (hcomparable : u.Comparable)
    (hallowed : allowed readText v generated u calls = true) :
    (∃ u', calls.foldlM (call readText v generated) u = .ok u' ∧ u'.FreshBy [] ∧ u'.Comparable) ∨
    (∃ c ∈ calls, c.outcome = some .restartFails) ∧
      ∃ u', calls.foldlM (call readText v generated) u = .error u' ∧ u'.running = none := by
  induction calls generalizing u with
  | nil => exact .inl ⟨u, rfl, hfresh, hcomparable⟩
  | cons c calls ih =>
    obtain ⟨hadmits, hrest⟩ := Bool.and_eq_true_iff.mp hallowed
    rw [List.foldlM_cons]
    have hkeeps : Keeps calls c (u.call readText v generated c) ∧
        (v.balancerStatus = .active ∨ Keeps [] c (u.call readText v generated c)) := by
      rcases hstart with hactive | hnow
      · exact ⟨call_keeps hfresh hcomparable (fun _ _ => .inl hactive) hadmits, .inl hactive⟩
      · exact ⟨call_keeps hfresh hcomparable (fun _ _ => .inr hnow.mono) hadmits,
          .inr (call_keeps hnow.mono hcomparable (fun _ _ => .inr hnow) hadmits)⟩
    obtain ⟨⟨u', hu', hfresh', hcomparable'⟩ | ⟨hfail, u', hu', hstopped⟩, hnext⟩ := hkeeps
    · rw [hu'] at hnext hrest ⊢
      have hstart' : v.balancerStatus = .active ∨ u'.FreshBy [] := by
        refine hnext.imp_right ?_
        rintro (⟨w, hw, hfresh, -⟩ | ⟨-, w, hw, -⟩)
        · obtain rfl := Except.ok.inj hw
          exact hfresh
        · cases hw
      refine (ih hfresh' hstart' hcomparable' hrest).imp_right ?_
      rintro ⟨⟨d, hd, hfail⟩, hlast⟩
      exact ⟨⟨d, List.mem_cons_of_mem c hd, hfail⟩, hlast⟩
    · rw [hu']
      exact .inr ⟨⟨c, List.mem_cons_self, hfail⟩, u', rfl, hstopped⟩

theorem start_mem_reemit {reemitted : Nat → Reemission} :
    (∃ outcome, .start outcome ∈ u.reemit reemitted) ↔ .start ∈ u.pending := by
  unfold reemit
  constructor
  · rintro ⟨outcome, hmem⟩
    obtain ⟨i, hi, heq⟩ := List.mem_mapIdx.mp hmem
    cases hnotice : u.pending[i] with
    | start => exact hnotice ▸ List.getElem_mem hi
    | brokerConfigChanged =>
      rw [hnotice] at heq
      cases heq
  · intro hmem
    obtain ⟨i, hi, hnotice⟩ := List.mem_iff_getElem.mp hmem
    refine ⟨(reemitted i).outcome, List.mem_mapIdx.mpr ⟨i, hi, ?_⟩⟩
    rw [hnotice]
    rfl

theorem hook_keeps (hfresh : u.FreshBy []) (hcomparable : u.Comparable)
    {reemitted : Nat → Reemission} {calls : List BalancerCall}
    (hok : u.orderly readText (.hook v generated reemitted calls)) :
    (∃ u', u.hook readText v generated reemitted calls = .ok u' ∧ u'.FreshBy [] ∧
      u'.Comparable) ∨
    (∃ c ∈ u.reemit reemitted ++ calls, c.outcome = some .restartFails) ∧
      ∃ u', u.hook readText v generated reemitted calls = .error u' ∧ u'.running = none := by
  obtain ⟨hactive, hallowed⟩ := hok
  refine calls_keep ?_ ?_ hcomparable hallowed
  · intro files hfiles
    rcases hfresh files hfiles with hsame | hpending | ⟨outcome, hmem⟩
    · exact .inl hsame
    · obtain ⟨outcome, hmem⟩ := start_mem_reemit.mpr hpending
      exact .inr (.inr ⟨outcome, List.mem_append_left _ hmem⟩)
    · cases hmem
  · by_cases hpending : .start ∈ u.pending
    · exact .inl (hactive hpending)
    · refine .inr fun files hfiles => (hfresh files hfiles).imp_right ?_
      exact fun h => absurd (h.resolve_right fun ⟨_, hmem⟩ => nomatch hmem) hpending

end Calls

variable {readText} {u u' : BalancerUnit}

theorem step_keeps (hfresh : u.FreshBy []) (hcomparable : u.Comparable) {event : BalancerEvent}
    (hok : u.orderly readText event) (hstep : u.step readText event = some u') :
    u'.FreshBy [] ∧ u'.Comparable := by
  cases event with
  | hook v generated reemitted calls =>
    rw [step] at hstep
    obtain ⟨w, hw, hkept⟩ | ⟨-, w, hw, hstopped⟩ := hook_keeps hfresh hcomparable hok
    · rw [hw] at hstep
      obtain rfl := Option.some.inj hstep
      exact hkept
    · rw [hw] at hstep
      obtain rfl := Option.some.inj hstep
      refine ⟨fun files hfiles => ?_, fun hrunning => ?_⟩
      · exact absurd (hstopped.symm.trans hfiles) nofun
      · change w.running.isSome = true at hrunning
        rw [hstopped] at hrunning
        cases hrunning
  | serviceStopped =>
    cases hstep
    exact ⟨nofun, nofun⟩
  | containerReplaced noticesKept =>
    cases hstep
    exact ⟨nofun, nofun⟩

theorem reaches_keeps (h : Reaches (step readText) (orderly readText) initial u) :
    u.FreshBy [] ∧ u.Comparable := by
  refine h.invariant (I := fun a => a.FreshBy [] ∧ a.Comparable) ⟨nofun, nofun⟩ ?_
  intro a event b ha hok hstep
  exact step_keeps ha.1 ha.2 hok hstep

/-! ## Results -/

/-- Three brokers provide their addresses. -/
def threeBrokers (brokerUris : Str) : BalancerView where
  peerRelation := true
  peerClusterRelation := true
  runsBroker := false
  peerCertsReady := true
  brokerUsername := "operator"
  brokerPassword := "oPass"
  brokerUris := brokerUris
  racks := 0
  capacities := some ([100, 101, 102].map fun id => ⟨intText id, ⟨[], "2", "50000", "50000"⟩, []⟩)
  truststorePassword := "tPass"
  keystorePassword := "kPass"
  testing := true

/-- What is deferred goes through. -/
def goesThrough : Nat → Reemission := fun _ => ⟨true, .done⟩

/-- Cruise Control is started; then the brokers have another address, and at a new start the
topics cannot be created. -/
def deferredStart : List BalancerEvent :=
  [.hook (threeBrokers "kafka-0:19093") "pass" goesThrough [.start .done],
   .hook (threeBrokers "kafka-1:19093") "pass" goesThrough [.start .topicsFail]]

/-- The unit with the deferred start. -/
def deferredUnit : BalancerUnit :=
  (replay (step universalNewlines) (orderly universalNewlines) initial deferredStart).getD initial

theorem deferredUnit_calls :
    deferredUnit.reemit goesThrough ++ [.configChanged .unknown .done] =
      [.start .done, .configChanged .unknown .done] := by
  decide

/-- One broker is away while the start is deferred, and the start is given up: Cruise Control goes
on with the old address, and nothing seems to have changed. -/
example :
    let v := threeBrokers "kafka-1:19093"
    let away : BalancerView := { v with capacities := v.capacities.map (List.take 2) }
    let u := (replay (step universalNewlines) anyStep initial (deferredStart ++
      [.hook away "pass" goesThrough [.configChanged .unknown .done]])).getD initial
    u.running.isSome = true ∧ u.running ≠ some u.files ∧ u.pending = [] ∧
      u.files.configChangeDetected universalNewlines v = some false :=
  ⟨by decide, by decide +kernel, by decide +kernel,
    (written_unchanged_iff (fun _ => rfl) (threeBrokers "kafka-1:19093") "pass").mpr
      (by decide)⟩

/-- The broker's handler makes the new start before the port answers, and its topics cannot be
created: the notice that is deferred does nothing once the port answers. -/
example :
    let v := threeBrokers "kafka-1:19093"
    let u := (replay (step universalNewlines) anyStep initial
      [.hook (threeBrokers "kafka-0:19093") "pass" goesThrough [.start .done],
       .hook v "pass" goesThrough [.brokerConfigChanged false .topicsFail],
       .hook v "pass" goesThrough []]).getD initial
    u.running.isSome = true ∧ u.running ≠ some u.files ∧ u.pending = [] :=
  ⟨by decide, by decide +kernel, by decide +kernel⟩

/-! ## Settling -/

/-- Cruise Control runs with the files that are there, and nothing is deferred. -/
def Started (u : BalancerUnit) : Prop := u.running = some u.files ∧ u.pending = []

/-- What one good hook reaches: Cruise Control runs with files in which nothing has changed. -/
structure Settled (readText : Str → Str) (v : BalancerView) (u : BalancerUnit) : Prop where
  started : u.Started
  unchanged : u.files.configChangeDetected readText v = some false
  rotated : u.rotate = false

section Settle

variable {v : BalancerView} {generated : Str} {notice : BalancerNotice} {c : BalancerCall}
  {calls : List BalancerCall}

theorem settled_onStart (hread : ∀ text, readText text = universalNewlines text)
    (hlines : OneLines v.rawTexts) (hactive : v.balancerStatus = .active) (hpending : u.pending = []) :
    ∃ u', u.onStart v generated notice .done = .ok u' ∧ u'.Settled readText v := by
  unfold onStart
  rw [if_pos hactive]
  exact ⟨_, rfl, ⟨rfl, hpending⟩, (written_unchanged_iff hread v _).mpr hlines, rfl⟩

/-- A comparison that finds nothing and no rotation: nothing is done. -/
theorem onConfigChanged_unchanged (hunchanged : u.files.configChangeDetected readText v = some false)
    (hrotated : u.rotate = false) (logDirs : LogDirsQuery) (outcome : StartTry) :
    u.onConfigChanged readText v generated logDirs outcome = .ok u := by
  unfold onConfigChanged
  split
  · rw [hunchanged]
    exact if_neg fun hmem => nomatch hrotated ▸ (start_mem_onConfigChanged.mp hmem).2.2
  · rfl

/-- A call of the broker or of the balancer in which a start goes through, if it makes one. -/
def Smooth (c : BalancerCall) : Prop := c.outcome = some .done

/-- In an active status a call in which a start goes through leaves the unit settled, or leaves it
alone; a comparison with the files leaves it alone only if it finds nothing. -/
theorem settles_call (hread : ∀ text, readText text = universalNewlines text)
    (hlines : OneLines v.rawTexts) (hactive : v.balancerStatus = .active) (hc : Smooth c)
    (hcomparable : u.Comparable) (hpending : u.pending = []) (generated : Str) :
    ∃ u', u.call readText v generated c = .ok u' ∧ (u'.Settled readText v ∨
      u' = u ∧ (∀ outcome, c ≠ .start outcome) ∧
        ∀ logDirs outcome, c = .configChanged logDirs outcome → u.Started →
          u.Settled readText v) := by
  have hstart (notice : BalancerNotice) (u : BalancerUnit) (hpending : u.pending = []) :
      ∃ u', u.onStart v generated notice .done = .ok u' ∧ u'.Settled readText v :=
    settled_onStart hread hlines hactive hpending
  cases c with
  | start outcome =>
    obtain rfl := Option.some.inj hc
    obtain ⟨u', hu', hsettled⟩ := hstart .start u hpending
    exact ⟨u', hu', .inl hsettled⟩
  | configChanged logDirs outcome =>
    obtain rfl := Option.some.inj hc
    rcases onConfigChanged_cases hcomparable readText v generated logDirs .done with
      ⟨hsame, hnothing⟩ | ⟨hsame, -⟩
    · refine ⟨u, hsame, .inr ⟨rfl, nofun, fun _ _ _ hstarted => ?_⟩⟩
      have hhealthy : u.healthy v = true := by
        rw [healthy, hstarted.1, hactive]
        rfl
      exact ⟨hstarted, (hnothing hhealthy).1, (hnothing hhealthy).2⟩
    · obtain ⟨u', hu', hsettled⟩ := hstart .start (u.rewritten v) hpending
      exact ⟨u', hsame.trans hu', .inl hsettled⟩
  | brokerConfigChanged answers outcome =>
    obtain rfl := Option.some.inj hc
    rw [call, brokerOnConfigChanged]
    split
    · obtain ⟨u', hu', hsettled⟩ := hstart .brokerConfigChanged u hpending
      exact ⟨u', hu', .inl hsettled⟩
    · exact ⟨u, rfl, .inr ⟨rfl, nofun, nofun⟩⟩
  | certificatesRotated => cases hc

theorem Settled.comparable (h : u.Settled readText v) : u.Comparable := by
  intro _
  obtain ⟨capacities, hcapacities, -⟩ := Option.map_eq_some_iff.mp h.unchanged
  rw [hcapacities]
  rfl

/-- Calls in which every start goes through leave Cruise Control started, and settled if it was
settled before or if it was started and one of them compares the files. -/
theorem settles_calls (hread : ∀ text, readText text = universalNewlines text)
    (hlines : OneLines v.rawTexts) (hactive : v.balancerStatus = .active)
    (hsmooth : ∀ c ∈ calls, Smooth c) (hcomparable : u.Comparable) (hpending : u.pending = [])
    (hfresh : u.FreshBy calls) (hrunning : u.running.isSome = true) (generated : Str) :
    ∃ u', calls.foldlM (call readText v generated) u = .ok u' ∧ u'.Started ∧ u'.Comparable ∧
      (u.Settled readText v ∨
        u.Started ∧ (∃ logDirs outcome, .configChanged logDirs outcome ∈ calls) →
          u'.Settled readText v) := by
  induction calls generalizing u with
  | nil =>
    refine ⟨u, rfl, ?_, hcomparable, ?_⟩
    · obtain ⟨files, hfiles⟩ := Option.isSome_iff_exists.mp hrunning
      rcases hfresh files hfiles with rfl | hmem | ⟨_, hmem⟩
      · exact ⟨hfiles, hpending⟩
      · rw [hpending] at hmem
        cases hmem
      · cases hmem
    · exact fun h => h.elim id fun ⟨_, _, _, hmem⟩ => nomatch hmem
  | cons c calls ih =>
    obtain ⟨hc, hrest⟩ := List.forall_mem_cons.mp hsmooth
    obtain ⟨m, hm, hsettled | ⟨rfl, hnostart, hcompares⟩⟩ :=
      settles_call hread hlines hactive hc hcomparable hpending generated
    · obtain ⟨hmfiles, hmpending⟩ := hsettled.started
      have hmfresh : m.FreshBy calls := fun files hfiles =>
        .inl (Option.some.inj (hfiles.symm.trans hmfiles))
      obtain ⟨u', hu', hstarted, hcomparable', hend⟩ :=
        ih hrest hsettled.comparable hmpending hmfresh (by rw [hmfiles]; rfl)
      rw [List.foldlM_cons, hm]
      exact ⟨u', hu', hstarted, hcomparable', fun _ => hend (.inl hsettled)⟩
    · obtain ⟨u', hu', hstarted, hcomparable', hend⟩ :=
        ih hrest hcomparable hpending (hfresh.tail hnostart) hrunning
      rw [List.foldlM_cons, hm]
      refine ⟨u', hu', hstarted, hcomparable', fun h => hend ?_⟩
      rcases h with hsettled | ⟨hmstarted, logDirs, outcome, hmem⟩
      · exact .inl hsettled
      · rcases List.mem_cons.mp hmem with heq | hmem
        · exact .inl (hcompares logDirs outcome heq.symm hmstarted)
        · exact .inr ⟨hmstarted, logDirs, outcome, hmem⟩

theorem smooth_reemit {reemitted : Nat → Reemission} (hall : ∀ i, (reemitted i).outcome = .done) :
    ∀ c ∈ u.reemit reemitted, Smooth c := by
  intro c hc
  obtain ⟨i, hi, rfl⟩ := List.mem_mapIdx.mp hc
  cases u.pending[i] with
  | start => exact congrArg some (hall i)
  | brokerConfigChanged => exact congrArg some (hall i)

/-- A comparison with the files, or the broker's handler once the port answers. -/
def Idle : BalancerCall → Prop
  | .configChanged _ _ => True
  | .brokerConfigChanged answers _ => answers = true
  | .start _ | .certificatesRotated => False

/-- A settled unit stays as it is in every hook that sees the same. -/
theorem Settled.step (h : u.Settled readText v) (reemitted : Nat → Reemission)
    (hidle : ∀ c ∈ calls, Idle c) :
    u.step readText (.hook v generated reemitted calls) = some u := by
  have hpending : ({ u with pending := [] } : BalancerUnit) = u := by
    rw [← h.started.2]
  have hreemit : u.reemit reemitted = [] := by
    unfold reemit
    rw [h.started.2]
    rfl
  have hcalls : calls.foldlM (call readText v generated) u = .ok u := by
    induction calls with
    | nil => rfl
    | cons c calls ih =>
      obtain ⟨hc, hrest⟩ := List.forall_mem_cons.mp hidle
      have hsame : u.call readText v generated c = .ok u := by
        cases c with
        | configChanged logDirs outcome =>
          exact onConfigChanged_unchanged h.unchanged h.rotated logDirs outcome
        | brokerConfigChanged answers outcome =>
          exact if_neg fun hboth => nomatch hboth.2.symm.trans hc
        | start outcome => cases hc
        | certificatesRotated => cases hc
      rw [List.foldlM_cons, hsame]
      exact ih hrest
  rw [BalancerUnit.step, hook, hreemit, hpending, List.nil_append, hcalls]

end Settle

end BalancerUnit

end KafkaCharm
