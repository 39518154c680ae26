import KafkaCharm.RollingOps

/-!
# One restart at a time

Hooks of different units overlap, and each works on what it read when it was
dispatched. Restarts still exclude each other along the runs in which

* no restart that an earlier hook deferred is run again: `_on_run_with_lock` releases
  the lock also then, so the second attempt runs without it;
* no unit asks for the lock between its own release and the leader's answer to it;
* no unit joins under the name of one that left while it was granted the lock;
* leadership does not move while the leader is in a hook.

The first three are not ensured by the charm. The examples at the end overlap two
restarts without each of them.

* `Exclusive`: the invariant;
* `step_exclusive`: what an orderly step keeps;
* `one_restart_at_a_time`: the lock is granted to one member at most, and of two
  hooks under way at most one has run the callback.
-/

namespace KafkaCharm

open PyText Runs

variable {U : Type} [DecidableEq U]

/-! ## One hook -/

namespace LockHook

variable {asks retries : Prop} {h h' : LockHook U} {u v : U}

/-- What was read at the start of the hook. -/
structure SameView (h h' : LockHook U) : Prop where
  unit : h'.unit = h.unit
  isLeader : h'.isLeader = h.isLeader
  units : h'.units = h.units
  seenUnit : h'.seenUnit = h.seenUnit
  seenApp : h'.seenApp = h.seenApp

omit [DecidableEq U] in
theorem SameView.refl (h : LockHook U) : h.SameView h := ⟨rfl, rfl, rfl, rfl, rfl⟩

theorem Acts.sameView (acts : Acts asks retries h h') : h.SameView h' := by
  induction acts with
  | refl => exact .refl h
  | tail _ act ih =>
    cases act <;> exact ⟨ih.unit, ih.isLeader, ih.units, ih.seenUnit, ih.seenApp⟩

/-- Every lock of another unit that this hook found granted was given back. -/
def FoundFree (h : LockHook U) : Prop :=
  h.isLeader = true ∧ ∀ v, h.Lists v → v ≠ h.unit → h.seenApp v = some .granted →
    h.seenUnit v = some .release

/-- What holds at every point of a hook. -/
structure Careful (asks : Prop) (h : LockHook U) : Prop where
  listed : ∀ v, h.appWrites v ≠ none → h.isLeader = true ∧ h.Lists v
  cleared : ∀ v, v ≠ h.unit → h.appWrites v ≠ none → h.seenApp v = some .granted →
    h.seenUnit v = some .release
  granted : ∀ v, v ≠ h.unit → h.appWrites v = some .granted →
    h.seenUnit v = some .acquire ∧ h.seenApp v ≠ some .granted
  alone : ∀ u v, h.Lists u → h.Lists v → h.appData u = some .granted →
    h.appData v = some .granted → u = v
  selfGranted : h.appWrites h.unit = some .granted → h.FoundFree
  asked : h.unitWrite = some .acquire → asks
  released : h.unitWrite = some .release → h.ran ≠ []
  running : h.ran ≠ [] → h.FoundFree ∨
    (h.seenApp h.unit = some .granted ∧ h.seenUnit h.unit ≠ some .release)

theorem unitData_of_ne (h : LockHook U) (hv : v ≠ h.unit) : h.unitData v = h.seenUnit v :=
  if_neg hv

theorem unitData_self (h : LockHook U) :
    h.unitData h.unit = h.unitWrite.or (h.seenUnit h.unit) :=
  if_pos rfl

omit [DecidableEq U] in
theorem appData_of_none (hv : h.appWrites v = none) : h.appData v = h.seenApp v := by
  simp [appData, hv]

omit [DecidableEq U] in
/-- While the lock is free for all, those that were granted it have given it back. -/
theorem Careful.foundFree (hc : h.Careful asks) (leader : h.isLeader = true)
    (free : ∀ v, h.Lists v → h.appData v ≠ some .granted) : h.FoundFree := by
  refine ⟨leader, fun v hv hne hseen => hc.cleared v hne (fun hnone => ?_) hseen⟩
  exact free v hv (by rw [appData_of_none hnone, hseen])

theorem Careful.clear (hc : h.Careful asks) (leader : h.isLeader = true) (listed : h.Lists u)
    (released : h.releaseRequested u) : (h.clear u).Careful asks := by
  obtain ⟨happ, hunit⟩ := (releaseRequested_iff h u).mp released
  have hwrites : ∀ v, v ≠ u → (h.clear u).appWrites v = h.appWrites v := by
    intro v hv
    simp [LockHook.clear, hv]
  have hself : (h.clear u).appWrites u = some .idle := by simp [LockHook.clear]
  have hdata : ∀ v, (h.clear u).appData v = some .granted →
      v ≠ u ∧ h.appData v = some .granted := by
    intro v hv
    have hne : v ≠ u := by
      rintro rfl
      simp at hv
    rw [clear_appData_of_ne h hne] at hv
    exact ⟨hne, hv⟩
  refine ⟨fun v hv => ?_, fun v hne hv hseen => ?_, fun v hne hv => ?_, fun x y hx hy hgx hgy => ?_,
    fun hv => ?_, hc.asked, hc.released, hc.running⟩
  · by_cases hvu : v = u
    · subst hvu
      exact ⟨leader, listed⟩
    · exact hc.listed v (hwrites v hvu ▸ hv)
  · by_cases hvu : v = u
    · subst hvu
      exact (unitData_of_ne h hne).symm.trans hunit
    · exact hc.cleared v hne (hwrites v hvu ▸ hv) hseen
  · have hvu : v ≠ u := by
      rintro rfl
      simp [hself] at hv
    exact hc.granted v hne (hwrites v hvu ▸ hv)
  · exact hc.alone x y hx hy (hdata x hgx).2 (hdata y hgy).2
  · have hvu : h.unit ≠ u := by
      intro heq
      change (h.clear u).appWrites h.unit = some .granted at hv
      rw [heq, hself] at hv
      cases hv
    exact hc.selfGranted ((hwrites h.unit hvu).symm.trans hv)

theorem Careful.grant (hc : h.Careful asks) (leader : h.isLeader = true) (listed : h.Lists u)
    (waits : h.isPending u) (free : ∀ v, h.Lists v → h.appData v ≠ some .granted) :
    (h.grant u).Careful asks := by
  obtain ⟨happ, hunit⟩ := (isPending_iff h u).mp waits
  have hwrites : ∀ v, v ≠ u → (h.grant u).appWrites v = h.appWrites v := by
    intro v hv
    simp [LockHook.grant, hv]
  have hfound : h.FoundFree := hc.foundFree leader free
  have hseen : u ≠ h.unit → h.seenUnit u = some .acquire := fun hne =>
    (unitData_of_ne h hne).symm.trans hunit
  have hnot : u ≠ h.unit → h.seenApp u ≠ some .granted := by
    intro hne hgranted
    have := hfound.2 u listed hne hgranted
    simp [hseen hne] at this
  have honly : ∀ v, h.Lists v → (h.grant u).appData v = some .granted → v = u := by
    intro v hv hgv
    by_contra hne
    rw [grant_appData_of_ne h hne] at hgv
    exact free v hv hgv
  refine ⟨fun v hv => ?_, fun v hne hv hsv => ?_, fun v hne hv => ?_, fun x y hx hy hgx hgy => ?_,
    fun _ => hfound, hc.asked, hc.released, hc.running⟩
  · by_cases hvu : v = u
    · subst hvu
      exact ⟨leader, listed⟩
    · exact hc.listed v (hwrites v hvu ▸ hv)
  · by_cases hvu : v = u
    · subst hvu
      exact absurd hsv (hnot hne)
    · exact hc.cleared v hne (hwrites v hvu ▸ hv) hsv
  · by_cases hvu : v = u
    · subst hvu
      exact ⟨hseen hne, hnot hne⟩
    · exact hc.granted v hne (hwrites v hvu ▸ hv)
  · rw [honly x hx hgx, honly y hy hgy]

/-- A unit that holds the lock when it calls was granted it, or has found it free. -/
theorem Careful.mayRun (hc : h.Careful asks) (held : h.isHeld h.unit)
    (patient : asks → ¬ (h.seenApp h.unit = some .granted ∧
      h.seenUnit h.unit = some .release)) :
    h.FoundFree ∨ (h.seenApp h.unit = some .granted ∧ h.seenUnit h.unit ≠ some .release) := by
  obtain ⟨happ, hunit⟩ := (isHeld_iff h h.unit).mp held
  rw [unitData_self] at hunit
  unfold appData at happ
  cases hown : h.appWrites h.unit with
  | some l =>
    rw [hown] at happ
    exact .inl (hc.selfGranted (hown.trans happ))
  | none =>
    rw [hown] at happ
    refine .inr ⟨happ, fun hrel => ?_⟩
    cases hwrite : h.unitWrite with
    | none => simp [hwrite, hrel] at hunit
    | some l =>
      cases l with
      | acquire => exact patient (hc.asked hwrite) ⟨happ, hrel⟩
      | release => simp [hwrite] at hunit

theorem Act.careful (act : Act asks retries h h') (hc : h.Careful asks) (once : ¬ retries)
    (patient : asks → ¬ (h.seenApp h.unit = some .granted ∧
      h.seenUnit h.unit = some .release)) : h'.Careful asks := by
  cases act with
  | clear u leader listed released => exact hc.clear leader listed released
  | grant u leader listed waits free last => exact hc.grant leader listed waits free
  | call r held =>
    exact ⟨hc.listed, hc.cleared, hc.granted, hc.alone, hc.selfGranted, by simp [called, release],
      by simp [called], fun _ => hc.mayRun held patient⟩
  | retry r again => exact absurd again once
  | acquire asked =>
    exact ⟨hc.listed, hc.cleared, hc.granted, hc.alone, hc.selfGranted, fun _ => asked,
      by simp [LockHook.acquire], hc.running⟩
  | note o n b =>
    exact ⟨hc.listed, hc.cleared, hc.granted, hc.alone, hc.selfGranted, hc.asked, hc.released,
      hc.running⟩

theorem Acts.careful (acts : Acts asks retries h h') (hc : h.Careful asks) (once : ¬ retries)
    (patient : asks → ¬ (h.seenApp h.unit = some .granted ∧
      h.seenUnit h.unit = some .release)) : h'.Careful asks := by
  induction acts with
  | refl => exact hc
  | @tail x y acts act ih =>
    have hview := sameView acts
    refine act.careful ih once fun asked => ?_
    rw [hview.seenApp, hview.seenUnit, hview.unit]
    exact patient asked

end LockHook

/-! ## All units -/

namespace RestartWorld

variable {w w' : RestartWorld U} {u v : U} {m : LockMove U}

/-- What a hook that began as the leader's knows of the others for as long as it runs. -/
structure LeaderView (w : RestartWorld U) (u : U) (h : LockHook U) : Prop where
  app : h.seenApp = w.app
  lists : ∀ v ∈ w.members, w.app v = some .granted → h.Lists v
  released : ∀ v ∈ w.members, v ≠ u → w.app v = some .granted →
    h.seenUnit v = some .release → w.unit v = some .release
  waiting : ∀ v, v ≠ u → w.app v ≠ some .granted → h.seenUnit v = some .acquire →
    w.unit v ≠ some .release

/-- A hook under way in its world. -/
structure Underway (w : RestartWorld U) (u : U) (h : LockHook U) : Prop where
  unit : h.unit = u
  member : u ∈ w.members
  leads : h.isLeader = true → w.leader = some u
  careful : ∃ asks, h.Careful asks
  running : h.ran ≠ [] → h.FoundFree ∨
    (w.app u = some .granted ∧ w.unit u ≠ some .release)
  resting : w.unit u = some .release → w.app u = some .granted → h.unitWrite ≠ some .acquire
  view : h.isLeader = true → w.LeaderView u h

/-- The lock is granted to one member at most, and every hook under way is right about
what it relies on. -/
structure Exclusive (w : RestartWorld U) : Prop where
  nodup : w.members.Nodup
  alone : ∀ u ∈ w.members, ∀ v ∈ w.members, w.app u = some .granted →
    w.app v = some .granted → u = v
  hooks : ∀ u h, w.hook u = some h → w.Underway u h

/-- The runs without the four ways to lose the lock. -/
def orderly (w : RestartWorld U) : LockMove U → Prop
  | .dispatch u _ events _ =>
    w.deferred u = 0 ∧ ((∀ e ∈ events, e = .relationChanged) ∨
      ¬ (w.app u = some .granted ∧ w.unit u = some .release))
  | .elect _ => ∀ v ∈ w.members, (w.hook v).all (fun h => !h.isLeader) = true
  | .join u => w.app u ≠ some .granted
  | .commit _ | .crash _ | .depart _ => True

instance (w : RestartWorld U) : (m : LockMove U) → Decidable (w.orderly m)
  | .dispatch u _ events _ => inferInstanceAs (Decidable (w.deferred u = 0 ∧
      ((∀ e ∈ events, e = .relationChanged) ∨
        ¬ (w.app u = some .granted ∧ w.unit u = some .release))))
  | .elect _ => inferInstanceAs (Decidable (∀ v ∈ w.members, _ = true))
  | .join u => inferInstanceAs (Decidable (w.app u ≠ some .granted))
  | .commit _ | .crash _ | .depart _ => inferInstanceAs (Decidable True)

theorem dispatched_careful (w : RestartWorld U) (hw : w.Exclusive) (hu : u ∈ w.members)
    {units : List U} (hunits : units.Perm (w.members.erase u)) (health : Nat → BrokerHealth)
    (asks : Prop) : (w.dispatched u units health).Careful asks := by
  have hmember : ∀ v, (w.dispatched u units health).Lists v → v ∈ w.members := by
    rintro v (hv | rfl)
    · exact List.mem_of_mem_erase (hunits.mem_iff.mp hv)
    · exact hu
  refine ⟨by simp [dispatched], by simp [dispatched], by simp [dispatched],
    fun x y hx hy hgx hgy => ?_, by simp [dispatched], by simp [dispatched], by simp [dispatched],
    by simp [dispatched]⟩
  exact hw.alone x (hmember x hx) y (hmember y hy) hgx hgy

/-- The hook that is dispatched in an orderly run. -/
theorem dispatch_underway (hw : w.Exclusive) (hu : u ∈ w.members)
    {units : List U} (hunits : units.Perm (w.members.erase u)) (health : Nat → BrokerHealth)
    {events : List LockEvent} (hok : w.orderly (.dispatch u units events health)) :
    w.Underway u ((w.dispatched u units health).run events) := by
  obtain ⟨hdeferred, hasks⟩ := hok
  have acts := (w.dispatched u units health).run_acts events
  have hview := acts.sameView
  have patient : (∃ o, LockEvent.acquireLock o ∈ events) →
      ¬ (w.app u = some .granted ∧ w.unit u = some .release) := by
    rintro ⟨o, ho⟩
    rcases hasks with hnone | hfree
    · cases hnone _ ho
    · exact hfree
  have once : ¬ 0 < (w.dispatched u units health).deferred := by
    change ¬ 0 < w.deferred u
    omega
  have hcareful := acts.careful (dispatched_careful w hw hu hunits health _) once patient
  refine ⟨hview.unit, hu, fun hlead => ?_, ⟨_, hcareful⟩, fun hran => ?_, fun hrel happ hacq => ?_,
    fun hlead => ?_⟩
  · rw [hview.isLeader] at hlead
    simpa [dispatched] using hlead
  · have hrun := hcareful.running hran
    rwa [hview.seenApp, hview.seenUnit, hview.unit] at hrun
  · exact patient (hcareful.asked hacq) ⟨happ, hrel⟩
  · refine ⟨hview.seenApp, fun v hv _ => ?_, fun v _ _ _ hseen => ?_, fun v _ _ hseen => ?_⟩
    · by_cases hvu : v = u
      · exact .inr (hvu.trans hview.unit.symm)
      · refine .inl ?_
        rw [hview.units]
        exact hunits.mem_iff.mpr ((List.mem_erase_of_ne hvu).mpr hv)
    · rwa [hview.seenUnit] at hseen
    · rw [hview.seenUnit] at hseen
      change w.unit v = some .acquire at hseen
      simp [hseen]

omit [DecidableEq U] in
/-- A hook keeps its place in a world that agrees on what it relies on. -/
theorem Underway.congr {h : LockHook U} (hh : w.Underway u h) (hmembers : w'.members = w.members)
    (hleader : w'.leader = w.leader) (happ : w'.app = w.app) (hunit : w'.unit = w.unit) :
    w'.Underway u h := by
  refine ⟨hh.unit, hmembers ▸ hh.member, hleader ▸ hh.leads, hh.careful, ?_, ?_, fun hlead => ?_⟩
  · rw [happ, hunit]
    exact hh.running
  · rw [happ, hunit]
    exact hh.resting
  · obtain ⟨hseen, hlists, hreleased, hwaiting⟩ := hh.view hlead
    constructor <;> simp only [hmembers, happ, hunit] <;> assumption

theorem dispatch_exclusive (hw : w.Exclusive) {units : List U} {events : List LockEvent}
    {health : Nat → BrokerHealth} (hok : w.orderly (.dispatch u units events health))
    (hstep : w.step (.dispatch u units events health) = some w') : w'.Exclusive := by
  obtain ⟨hu, hfree, hunits, rfl⟩ := step_dispatch hstep
  refine ⟨hw.nodup, hw.alone, fun v g hg => ?_⟩
  unfold dispatch at hg
  by_cases hvu : v = u
  · subst hvu
    simp only [Function.update_self, Option.some.injEq] at hg
    subst hg
    exact (dispatch_underway hw hu hunits health hok).congr rfl rfl rfl rfl
  · simp only [Function.update_of_ne hvu] at hg
    exact (hw.hooks v g hg).congr rfl rfl rfl rfl

omit [DecidableEq U] in
/-- A member that another hook counts as granted is not touched by a commit. -/
theorem Underway.keeps_running {h g : LockHook U} (hh : w.Underway u h) (hg : w.Underway v g)
    (hne : v ≠ u) (happ : w.app v = some .granted) (hunit : w.unit v ≠ some .release) :
    h.appWrites v = none := by
  by_contra hwrite
  obtain ⟨asks, hc⟩ := hh.careful
  have hlead := (hc.listed v hwrite).1
  have hview := hh.view hlead
  have hseen : h.seenUnit v = some .release := by
    refine hc.cleared v (hh.unit ▸ hne) hwrite ?_
    rw [hview.app, happ]
  exact hunit (hview.released v hg.member hne happ hseen)

omit [DecidableEq U] in
/-- A hook that does not lead writes nothing for the application. -/
theorem Underway.appWrites_eq_none {h : LockHook U} (hh : w.Underway u h)
    (hlead : h.isLeader ≠ true) (v : U) : h.appWrites v = none := by
  by_contra hwrite
  obtain ⟨asks, hc⟩ := hh.careful
  exact hlead (hc.listed v hwrite).1

theorem commit_alone (hw : w.Exclusive) {h : LockHook U} (hh : w.Underway u h) :
    ∀ x ∈ w.members, ∀ y ∈ w.members, (w.commit h).app x = some .granted →
      (w.commit h).app y = some .granted → x = y := by
  intro x hx y hy hgx hgy
  by_cases hlead : h.isLeader = true
  · obtain ⟨asks, hc⟩ := hh.careful
    have hview := hh.view hlead
    have hdata : ∀ v, (w.commit h).app v = h.appData v := by
      intro v
      simp [commit, LockHook.appData, hview.app]
    have hlists : ∀ v ∈ w.members, (w.commit h).app v = some .granted → h.Lists v := by
      intro v hv hgv
      by_cases hwrite : h.appWrites v = none
      · simp only [commit, hwrite, Option.none_or] at hgv
        exact hview.lists v hv hgv
      · exact (hc.listed v hwrite).2
    rw [hdata] at hgx hgy
    exact hc.alone x y (hlists x hx (by rw [hdata, hgx])) (hlists y hy (by rw [hdata, hgy])) hgx hgy
  · simp only [commit, hh.appWrites_eq_none hlead, Option.none_or] at hgx hgy
    exact hw.alone x hx y hy hgx hgy

/-- What the leader has read of a unit stays right when that unit commits. -/
theorem LeaderView.commit {h g : LockHook U} (hh : w.Underway u h) (hg : w.LeaderView v g)
    (hne : v ≠ u) (hlead : h.isLeader ≠ true) : (w.commit h).LeaderView v g := by
  have happ : (w.commit h).app = w.app := by
    funext x
    simp [RestartWorld.commit, hh.appWrites_eq_none hlead]
  have hunit : ∀ x, x ≠ u → (w.commit h).unit x = w.unit x := by
    intro x hx
    exact Function.update_of_ne (hh.unit ▸ hx) _ _
  have hown : (w.commit h).unit u = h.unitWrite.or (w.unit u) := by
    simp [RestartWorld.commit, hh.unit]
  obtain ⟨asks, hc⟩ := hh.careful
  refine ⟨happ ▸ hg.app, happ ▸ hg.lists, fun x hx hxv hgx hseen => ?_, fun x hxv hgx hseen => ?_⟩
  · rw [happ] at hgx
    have hrel := hg.released x hx hxv hgx hseen
    by_cases hxu : x = u
    · subst hxu
      have hrest := hh.resting hrel hgx
      rw [hown]
      rcases hwrite : h.unitWrite with _ | _ | _
      · simpa using hrel
      · exact absurd hwrite hrest
      · rfl
    · rwa [hunit x hxu]
  · rw [happ] at hgx
    have hwait := hg.waiting x hxv hgx hseen
    by_cases hxu : x = u
    · subst hxu
      rw [hown]
      intro hrel
      have hreleased : h.unitWrite = some .release := by
        rcases hwrite : h.unitWrite with _ | _ | _
        · simp [hwrite, hwait] at hrel
        · simp [hwrite] at hrel
        · rfl
      rcases hh.running (hc.released hreleased) with hfound | hgranted
      · exact hlead hfound.1
      · exact hgx hgranted.1
    · rwa [hunit x hxu]

theorem commit_exclusive (hw : w.Exclusive) (hstep : w.step (.commit u) = some w') :
    w'.Exclusive := by
  obtain ⟨h, hhook, -, -, rfl⟩ := step_commit hstep
  have hh := hw.hooks u h hhook
  obtain ⟨asks, hc⟩ := hh.careful
  refine ⟨hw.nodup, commit_alone hw hh, fun v g hg => ?_⟩
  have hne : v ≠ u := by
    rintro rfl
    simp [commit, hh.unit] at hg
  have hhook' : w.hook v = some g := by
    simpa [commit, hh.unit, hne] using hg
  have hgu := hw.hooks v g hhook'
  have hunit : (w.commit h).unit v = w.unit v := by
    simp [commit, hh.unit, hne]
  refine ⟨hgu.unit, hgu.member, hgu.leads, hgu.careful, fun hran => ?_, fun hrel hgranted => ?_,
    fun hlead => ?_⟩
  · rcases hgu.running hran with hfound | ⟨happ, hnot⟩
    · exact .inl hfound
    · refine .inr ⟨?_, hunit ▸ hnot⟩
      simp [commit, hh.keeps_running hgu hne happ hnot, happ]
  · rw [hunit] at hrel
    by_cases happ : w.app v = some .granted
    · exact hgu.resting hrel happ
    · -- the commit grants the lock, to a unit that was seen waiting and so has not released
      have hwrite : h.appWrites v = some .granted := by
        rcases hwrite : h.appWrites v with _ | l
        · simp [commit, hwrite, happ] at hgranted
        · simpa [commit, hwrite] using hgranted
      have hlead := (hc.listed v (by simp [hwrite])).1
      have hseen := (hc.granted v (hh.unit ▸ hne) hwrite).1
      exact absurd hrel ((hh.view hlead).waiting v hne happ hseen)
  · have hother : h.isLeader ≠ true := by
      intro hl
      have := (hh.leads hl).symm.trans (hgu.leads hlead)
      exact hne (Option.some.inj this).symm
    exact (hgu.view hlead).commit hh hne hother

theorem crash_exclusive (hw : w.Exclusive) (hstep : w.step (.crash u) = some w') :
    w'.Exclusive := by
  cases step_crash hstep
  refine ⟨hw.nodup, hw.alone, fun v g hg => ?_⟩
  have hhook : w.hook v = some g := by
    unfold crash at hg
    by_cases hvu : v = u
    · subst hvu
      simp at hg
    · simpa [hvu] using hg
  exact (hw.hooks v g hhook).congr rfl rfl rfl rfl

theorem elect_exclusive (hw : w.Exclusive) (hok : w.orderly (.elect u))
    (hstep : w.step (.elect u) = some w') : w'.Exclusive := by
  obtain ⟨hu, rfl⟩ := step_elect hstep
  refine ⟨hw.nodup, hw.alone, fun v g hg => ?_⟩
  have hgu := hw.hooks v g hg
  have hnot : g.isLeader ≠ true := by
    have := hok v hgu.member
    change w.hook v = some g at hg
    simpa [hg] using this
  exact ⟨hgu.unit, hgu.member, fun hlead => absurd hlead hnot, hgu.careful, hgu.running,
    hgu.resting, fun hlead => absurd hlead hnot⟩

theorem join_exclusive (hw : w.Exclusive) (hok : w.orderly (.join u))
    (hstep : w.step (.join u) = some w') : w'.Exclusive := by
  obtain ⟨hu, rfl⟩ := step_join hstep
  have hold : ∀ v ∈ w.members ++ [u], w.app v = some .granted → v ∈ w.members := by
    intro v hv hgv
    rcases List.mem_append.mp hv with hv | hv
    · exact hv
    · rw [List.mem_singleton.mp hv] at hgv
      exact absurd hgv hok
  refine ⟨?_, fun x hx y hy hgx hgy => ?_, fun v g hg => ?_⟩
  · exact List.nodup_append.mpr ⟨hw.nodup, List.pairwise_singleton _ u, by
      intro x hx y hy hxy
      rw [hxy, List.mem_singleton.mp hy] at hx
      exact hu hx⟩
  · exact hw.alone x (hold x hx hgx) y (hold y hy hgy) hgx hgy
  · have hgu := hw.hooks v g hg
    have hvu : v ≠ u := by
      rintro rfl
      exact hu hgu.member
    have hunit : (w.join u).unit v = w.unit v := Function.update_of_ne hvu _ _
    refine ⟨hgu.unit, List.mem_append_left _ hgu.member, hgu.leads, hgu.careful, hunit ▸ hgu.running,
      hunit ▸ hgu.resting, fun hlead => ?_⟩
    have hview := hgu.view hlead
    refine ⟨hview.app, fun x hx hgx => hview.lists x (hold x hx hgx) hgx,
      fun x hx hxv hgx hseen => ?_, fun x hxv hgx hseen => ?_⟩
    · have hmember : x ∈ w.members := hold x hx hgx
      have hxu : x ≠ u := by
        rintro rfl
        exact hu hmember
      exact (Function.update_of_ne hxu _ _).trans (hview.released x hmember hxv hgx hseen)
    · by_cases hxu : x = u
      · simp [join, hxu]
      · simpa [join, hxu] using hview.waiting x hxv hgx hseen

theorem depart_exclusive (hw : w.Exclusive) (hstep : w.step (.depart u) = some w') :
    w'.Exclusive := by
  obtain ⟨hu, hfree, rfl⟩ := step_depart hstep
  have hold : ∀ v ∈ w.members.erase u, v ∈ w.members := fun v hv => List.mem_of_mem_erase hv
  have hgone : ∀ v ∈ w.members.erase u, v ≠ u := by
    rintro v hv rfl
    exact hw.nodup.not_mem_erase hv
  refine ⟨hw.nodup.erase u, fun x hx y hy => hw.alone x (hold x hx) y (hold y hy), fun v g hg => ?_⟩
  change w.hook v = some g at hg
  have hgu := hw.hooks v g hg
  have hvu : v ≠ u := by
    rintro rfl
    simp [hfree] at hg
  have hunit : (w.depart u).unit v = w.unit v := Function.update_of_ne hvu _ _
  refine ⟨hgu.unit, (List.mem_erase_of_ne hvu).mpr hgu.member, fun hlead => ?_, hgu.careful,
    hunit ▸ hgu.running, hunit ▸ hgu.resting, fun hlead => ?_⟩
  · have := hgu.leads hlead
    simp [depart, this, hvu]
  · have hview := hgu.view hlead
    refine ⟨hview.app, fun x hx hgx => hview.lists x (hold x hx) hgx,
      fun x hx hxv hgx hseen => ?_, fun x hxv hgx hseen => ?_⟩
    · exact (Function.update_of_ne (hgone x hx) _ _).trans
        (hview.released x (hold x hx) hxv hgx hseen)
    · by_cases hxu : x = u
      · simp [depart, hxu]
      · simpa [depart, hxu] using hview.waiting x hxv hgx hseen

theorem step_exclusive (hw : w.Exclusive) (hok : w.orderly m) (hstep : w.step m = some w') :
    w'.Exclusive := by
  cases m with
  | dispatch u units events health => exact dispatch_exclusive hw hok hstep
  | commit u => exact commit_exclusive hw hstep
  | crash u => exact crash_exclusive hw hstep
  | elect u => exact elect_exclusive hw hok hstep
  | join u => exact join_exclusive hw hok hstep
  | depart u => exact depart_exclusive hw hstep

omit [DecidableEq U] in
theorem empty_exclusive : (empty : RestartWorld U).Exclusive :=
  ⟨List.nodup_nil, by simp [empty], by simp [empty]⟩

theorem reached_exclusive (h : Reaches step orderly empty w) : w.Exclusive :=
  h.invariant empty_exclusive fun _ _ _ hw hok hstep => step_exclusive hw hok hstep

omit [DecidableEq U] in
/-- A leader that has found the lock free is the only one to run: of the lock of another
unit that runs it would know that it was granted and not given back. -/
theorem Underway.running_unique {g h : LockHook U} (hg : w.Underway u g)
    (hh : w.Underway v h) (hfound : g.FoundFree) (hran : h.ran ≠ []) : u = v := by
  by_contra hne
  have hview := hg.view hfound.1
  rcases hh.running hran with hfound' | ⟨happ, hnot⟩
  · exact hne (Option.some.inj ((hg.leads hfound.1).symm.trans (hh.leads hfound'.1)))
  · have hseen : g.seenUnit v = some .release := by
      refine hfound.2 v (hview.lists v hh.member happ) (hg.unit ▸ Ne.symm hne) ?_
      rw [hview.app, happ]
    exact hnot (hview.released v hh.member (Ne.symm hne) happ hseen)

end RestartWorld

/-- Along orderly runs, with hooks that overlap in any way: the lock is granted to one
member at most, and no two units are in hooks that have run the callback. -/
theorem one_restart_at_a_time {w : RestartWorld U}
    (hw : Reaches RestartWorld.step RestartWorld.orderly RestartWorld.empty w) :
    (∀ u ∈ w.members, ∀ v ∈ w.members, w.app u = some .granted → w.app v = some .granted →
      u = v) ∧
    ∀ u v g h, w.hook u = some g → w.hook v = some h → g.ran ≠ [] → h.ran ≠ [] → u = v := by
  have hex := RestartWorld.reached_exclusive hw
  refine ⟨hex.alone, fun u v g h hg hh hgran hhran => ?_⟩
  have hug := hex.hooks u g hg
  have hvh := hex.hooks v h hh
  rcases hug.running hgran with hfound | ⟨happ, _⟩
  · exact hug.running_unique hvh hfound hhran
  · rcases hvh.running hhran with hfound | ⟨happ', _⟩
    · exact (hvh.running_unique hug hfound hgran).symm
    · exact hex.alone u hug.member v hvh.member happ happ'

/-! ## Scenarios -/

/-- Every call of the callback restarts a healthy broker. -/
def allHealthy : Nat → BrokerHealth := fun _ => ⟨true, true⟩

/-- Unit 1 asks for the lock, unit 0 leads and grants it, unit 1 restarts. -/
def restartScenario : List (LockMove Nat) :=
  [.join 0, .join 1, .elect 0,
    .dispatch 1 [0] [.acquireLock []] allHealthy, .commit 1,
    .dispatch 0 [1] [.relationChanged] allHealthy, .commit 0,
    .dispatch 0 [1] [.relationChanged] allHealthy,
    .dispatch 1 [0] [.relationChanged] allHealthy]

theorem one_restart_at_a_time_scenario :
    ∃ w, Reaches RestartWorld.step RestartWorld.orderly RestartWorld.empty w ∧
      (∃ g, w.hook 1 = some g ∧ g.ran ≠ []) ∧
      ∀ v h, w.hook v = some h → h.ran ≠ [] → v = 1 := by
  have hran : (replay RestartWorld.step RestartWorld.orderly RestartWorld.empty
      restartScenario).any (fun w => (w.hook 1).any fun g => decide (g.ran ≠ [])) = true := by
    decide
  cases hw : replay RestartWorld.step RestartWorld.orderly RestartWorld.empty restartScenario with
  | none => simp [hw] at hran
  | some w =>
    rw [hw, Option.any_some] at hran
    cases hg : w.hook 1 with
    | none => simp [hg] at hran
    | some g =>
      have hgran : g.ran ≠ [] := by simpa [hg] using hran
      have hreach := Reaches.replay _ _ _ _ hw
      exact ⟨w, hreach, ⟨g, hg, hgran⟩, fun v h hh hv =>
        (one_restart_at_a_time hreach).2 v 1 h g hh hg hv hgran⟩

/-- Two units are in hooks that have run the callback. -/
def overlap (u v : Nat) (moves : List (LockMove Nat)) : Bool :=
  (replay RestartWorld.step anyStep RestartWorld.empty moves).any fun w =>
    (w.hook u).any (fun g => decide (g.ran ≠ [])) && (w.hook v).any fun g => decide (g.ran ≠ [])

-- the restart of unit 1 was deferred, and is run again while the leader restarts
example : overlap 0 1 [.join 0, .join 1, .elect 0,
    .dispatch 1 [0] [.acquireLock []] allHealthy, .commit 1,
    .dispatch 0 [1] [.relationChanged] allHealthy, .commit 0,
    .dispatch 1 [0] [.relationChanged] (fun _ => ⟨true, false⟩), .commit 1,
    .dispatch 0 [1] [.acquireLock []] allHealthy,
    .dispatch 1 [0] [] allHealthy] = true := by decide

-- unit 1 asks again while the leader hands the lock on to unit 2
example : overlap 1 2 [.join 0, .join 1, .join 2, .elect 0,
    .dispatch 1 [0, 2] [.acquireLock []] allHealthy, .commit 1,
    .dispatch 0 [1, 2] [.relationChanged] allHealthy, .commit 0,
    .dispatch 1 [0, 2] [.relationChanged] allHealthy, .commit 1,
    .dispatch 2 [0, 1] [.acquireLock []] allHealthy, .commit 2,
    .dispatch 0 [1, 2] [.relationChanged] allHealthy,
    .dispatch 1 [0, 2] [.acquireLock []] allHealthy, .commit 0,
    .dispatch 2 [0, 1] [.relationChanged] allHealthy] = true := by decide

-- unit 1 left with the lock and is scaled up again
example : overlap 1 2 [.join 0, .join 1, .join 2, .elect 0,
    .dispatch 1 [0, 2] [.acquireLock []] allHealthy, .commit 1,
    .dispatch 0 [1, 2] [.relationChanged] allHealthy, .commit 0, .depart 1,
    .dispatch 2 [0] [.acquireLock []] allHealthy, .commit 2,
    .dispatch 0 [2] [.relationChanged] allHealthy, .commit 0, .join 1,
    .dispatch 1 [0, 2] [.relationChanged] allHealthy,
    .dispatch 2 [0, 1] [.relationChanged] allHealthy] = true := by decide

end KafkaCharm
