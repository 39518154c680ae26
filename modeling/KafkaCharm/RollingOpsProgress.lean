import KafkaCharm.RollingOpsSafety

namespace KafkaCharm

open PyText Runs

variable {U : Type} [DecidableEq U]

/-! ## Requests -/

namespace LockHook

variable {asks retries : Prop} {h h' : LockHook U} {u v : U}

/-- A release is written behind a call of the callback only. -/
theorem Acts.released (acts : Acts asks retries h h')
    (h0 : h.unitWrite = some .release → h.ran ≠ []) :
    h'.unitWrite = some .release → h'.ran ≠ [] := by
  induction acts with
  | refl => exact h0
  | tail _ act ih =>
    cases act with
    | clear u leader listed released => exact ih
    | grant u leader listed waits free last => exact ih
    | call r held => simp [called]
    | retry r again => simp [called]
    | acquire asked => simp [LockHook.acquire]
    | note o n b => exact ih

end LockHook

namespace RestartWorld

variable {w w' : RestartWorld U} {u v : U} {m : LockMove U}

/-- Hooks and requests belong to members, and a hook releases what it has run. -/
structure Attributed (w : RestartWorld U) : Prop where
  asking : ∀ u, w.unit u ≠ none → u ∈ w.members
  hooks : ∀ u h, w.hook u = some h → h.unit = u ∧ u ∈ w.members ∧
    (h.unitWrite = some .release → h.ran ≠ [])

theorem step_attributed (hw : w.Attributed) (hstep : w.step m = some w') : w'.Attributed := by
  cases m with
  | dispatch u units events health =>
    obtain ⟨hu, hfree, hunits, rfl⟩ := step_dispatch hstep
    refine ⟨hw.asking, fun v g hg => ?_⟩
    unfold dispatch at hg
    by_cases hvu : v = u
    · subst hvu
      simp only [Function.update_self, Option.some.injEq] at hg
      subst hg
      have acts := (w.dispatched v units health).run_acts events
      exact ⟨acts.sameView.unit, hu, acts.released (by simp [dispatched])⟩
    · simp only [Function.update_of_ne hvu] at hg
      exact hw.hooks v g hg
  | commit u =>
    obtain ⟨g, hg, -, -, rfl⟩ := step_commit hstep
    obtain ⟨hunit, hmember, -⟩ := hw.hooks u g hg
    refine ⟨fun v hv => ?_, fun v k hk => ?_⟩
    · by_cases hvu : v = u
      · exact hvu ▸ hmember
      · refine hw.asking v ?_
        simpa [commit, hunit, hvu] using hv
    · by_cases hvu : v = u
      · simp [commit, hunit, hvu] at hk
      · exact hw.hooks v k (by simpa [commit, hunit, hvu] using hk)
  | crash u =>
    cases step_crash hstep
    refine ⟨hw.asking, fun v g hg => ?_⟩
    by_cases hvu : v = u
    · simp [crash, hvu] at hg
    · exact hw.hooks v g (by simpa [crash, hvu] using hg)
  | elect u =>
    obtain ⟨-, rfl⟩ := step_elect hstep
    exact ⟨hw.asking, hw.hooks⟩
  | join u =>
    obtain ⟨hu, rfl⟩ := step_join hstep
    refine ⟨fun v hv => ?_, fun v g hg => ?_⟩
    · by_cases hvu : v = u
      · simp [join, hvu]
      · exact List.mem_append_left _ (hw.asking v (by simpa [join, hvu] using hv))
    · obtain ⟨hunit, hmember, hrel⟩ := hw.hooks v g hg
      exact ⟨hunit, List.mem_append_left _ hmember, hrel⟩
  | depart u =>
    obtain ⟨hu, hfree, rfl⟩ := step_depart hstep
    refine ⟨fun v hv => ?_, fun v g hg => ?_⟩
    · have hvu : v ≠ u := by
        rintro rfl
        simp [depart] at hv
      exact (List.mem_erase_of_ne hvu).mpr (hw.asking v (by simpa [depart, hvu] using hv))
    · obtain ⟨hunit, hmember, hrel⟩ := hw.hooks v g hg
      have hvu : v ≠ u := by
        rintro rfl
        change w.hook v = some g at hg
        simp [hfree] at hg
      exact ⟨hunit, (List.mem_erase_of_ne hvu).mpr hmember, hrel⟩

theorem reached_attributed {ok : RestartWorld U → LockMove U → Prop}
    (h : Reaches step ok empty w) : w.Attributed :=
  h.invariant ⟨by simp [empty], by simp [empty]⟩ fun _ _ _ hw _ hstep => step_attributed hw hstep

/-- The unit stays. -/
def stays (u : U) (_ : RestartWorld U) : LockMove U → Prop
  | .depart v => v ≠ u
  | .dispatch _ _ _ _ | .commit _ | .crash _ | .elect _ | .join _ => True

instance (u : U) (w : RestartWorld U) : (m : LockMove U) → Decidable (stays u w m)
  | .depart v => inferInstanceAs (Decidable (v ≠ u))
  | .dispatch _ _ _ _ | .commit _ | .crash _ | .elect _ | .join _ =>
    inferInstanceAs (Decidable True)

/-- The log grows, and a step that ends a request of `u` has run its callback. -/
theorem step_request (hw : w.Attributed) (hstay : stays u w m) (hstep : w.step m = some w')
    (hasked : w.unit u = some .acquire) :
    ∃ tail, w'.log = w.log ++ tail ∧ ((∃ r, (u, r) ∈ tail) ∨ w'.unit u = some .acquire) := by
  have hmember : u ∈ w.members := hw.asking u (by simp [hasked])
  cases m with
  | dispatch v units events health =>
    obtain ⟨-, -, -, rfl⟩ := step_dispatch hstep
    exact ⟨[], (List.append_nil _).symm, .inr hasked⟩
  | commit v =>
    obtain ⟨g, hg, -, -, rfl⟩ := step_commit hstep
    obtain ⟨hunit, -, hrel⟩ := hw.hooks v g hg
    refine ⟨_, rfl, ?_⟩
    by_cases hvu : u = v
    · subst hvu
      rcases hwrite : g.unitWrite with _ | _ | _
      · exact .inr (by simp [commit, hunit, hwrite, hasked])
      · exact .inr (by simp [commit, hunit, hwrite])
      · obtain ⟨r, hr⟩ := List.exists_mem_of_ne_nil _ (hrel hwrite)
        exact .inl ⟨r, List.mem_map.mpr ⟨r, hr, by rw [hunit]⟩⟩
    · exact .inr (by simp [commit, hunit, hvu, hasked])
  | crash v =>
    cases step_crash hstep
    exact ⟨[], (List.append_nil _).symm, .inr hasked⟩
  | elect v =>
    obtain ⟨-, rfl⟩ := step_elect hstep
    exact ⟨[], (List.append_nil _).symm, .inr hasked⟩
  | join v =>
    obtain ⟨hv, rfl⟩ := step_join hstep
    have huv : u ≠ v := by
      rintro rfl
      exact hv hmember
    exact ⟨[], (List.append_nil _).symm, .inr (by simp [join, huv, hasked])⟩
  | depart v =>
    obtain ⟨-, -, rfl⟩ := step_depart hstep
    exact ⟨[], (List.append_nil _).symm, .inr (by simp [depart, Ne.symm hstay, hasked])⟩

theorem step_log (hstep : w.step m = some w') : ∃ tail, w'.log = w.log ++ tail := by
  cases m with
  | dispatch v units events health =>
    obtain ⟨-, -, -, rfl⟩ := step_dispatch hstep
    exact ⟨[], (List.append_nil _).symm⟩
  | commit v =>
    obtain ⟨g, -, -, -, rfl⟩ := step_commit hstep
    exact ⟨_, rfl⟩
  | crash v =>
    cases step_crash hstep
    exact ⟨[], (List.append_nil _).symm⟩
  | elect v =>
    obtain ⟨-, rfl⟩ := step_elect hstep
    exact ⟨[], (List.append_nil _).symm⟩
  | join v =>
    obtain ⟨-, rfl⟩ := step_join hstep
    exact ⟨[], (List.append_nil _).symm⟩
  | depart v =>
    obtain ⟨-, -, rfl⟩ := step_depart hstep
    exact ⟨[], (List.append_nil _).symm⟩

end RestartWorld

/-- In every run from a state where a member has asked for the lock and in which it
stays, its request stands or its callback has been run in a committed hook since. -/
theorem request_not_lost {w w' : RestartWorld U} {u : U}
    (hw : Reaches RestartWorld.step anyStep RestartWorld.empty w)
    (hasked : w.unit u = some .acquire)
    (hrun : Reaches RestartWorld.step (RestartWorld.stays u) w w') :
    ∃ tail, w'.log = w.log ++ tail ∧ ((∃ r, (u, r) ∈ tail) ∨ w'.unit u = some .acquire) := by
  have hinv : w'.Attributed ∧
      ∃ tail, w'.log = w.log ++ tail ∧ ((∃ r, (u, r) ∈ tail) ∨ w'.unit u = some .acquire) := by
    refine hrun.invariant (I := fun x => x.Attributed ∧ ∃ tail, x.log = w.log ++ tail ∧
      ((∃ r, (u, r) ∈ tail) ∨ x.unit u = some .acquire))
      ⟨RestartWorld.reached_attributed hw, [], (List.append_nil _).symm, .inr hasked⟩ ?_
    rintro a m b ⟨ha, tail, hlog, hserved⟩ hstay hstep
    refine ⟨RestartWorld.step_attributed ha hstep, ?_⟩
    rcases hserved with ⟨r, hr⟩ | hstill
    · obtain ⟨more, hmore⟩ := RestartWorld.step_log hstep
      exact ⟨tail ++ more, by rw [hmore, hlog, List.append_assoc],
        .inl ⟨r, List.mem_append_left _ hr⟩⟩
    · obtain ⟨more, hmore, hserved⟩ := RestartWorld.step_request ha hstay hstep hstill
      refine ⟨tail ++ more, by rw [hmore, hlog, List.append_assoc], ?_⟩
      exact hserved.imp (fun ⟨r, hr⟩ => ⟨r, List.mem_append_right _ hr⟩) id
  exact hinv.2

/-- Unit 1 asks for the lock and unit 0 leads. -/
def askScenario : List (LockMove Nat) :=
  [.join 0, .join 1, .elect 0, .dispatch 1 [0] [.acquireLock []] allHealthy, .commit 1]

/-- It is granted the lock and restarts. -/
def serveScenario : List (LockMove Nat) :=
  [.dispatch 0 [1] [.relationChanged] allHealthy, .commit 0,
    .dispatch 1 [0] [.relationChanged] allHealthy, .commit 1]

theorem request_not_lost_scenario :
    ∃ w w' : RestartWorld Nat, w.unit 1 = some .acquire ∧ w'.unit 1 ≠ some .acquire ∧
      ∃ tail r, w'.log = w.log ++ tail ∧ (1, r) ∈ tail := by
  have hask : (replay RestartWorld.step anyStep RestartWorld.empty askScenario).any
      (fun w => decide (w.unit 1 = some .acquire) &&
        (replay RestartWorld.step (RestartWorld.stays 1) w serveScenario).any fun w' =>
          decide (w'.unit 1 ≠ some .acquire)) = true := by decide
  cases hw : replay RestartWorld.step anyStep RestartWorld.empty askScenario with
  | none => simp [hw] at hask
  | some w =>
    rw [hw, Option.any_some, Bool.and_eq_true] at hask
    cases hw' : replay RestartWorld.step (RestartWorld.stays 1) w serveScenario with
    | none => simp [hw'] at hask
    | some w' =>
      have hasked : w.unit 1 = some .acquire := by simpa using hask.1
      have hdone : w'.unit 1 ≠ some .acquire := by simpa [hw'] using hask.2
      obtain ⟨tail, hlog, hserved⟩ :=
        request_not_lost (.replay _ _ _ _ hw) hasked (.replay _ _ _ _ hw')
      obtain ⟨r, hr⟩ := hserved.resolve_right hdone
      exact ⟨w, w', hasked, hdone, tail, r, hlog, hr⟩

/-! ## One hook that serves -/

namespace LockHook

variable {h h' : LockHook U} {u v : U} {q : List U}

/-- The unit has not been served yet. -/
def Wants (h : LockHook U) (v : U) : Prop := h.isPending v ∨ h.isHeld v

theorem wants_iff (h : LockHook U) (v : U) : h.Wants v ↔
    h.unitData v = some .acquire ∨ (h.appData v = some .granted ∧ h.unitData v ≠ some .release) := by
  unfold Wants
  rw [isPending_iff, isHeld_iff]
  by_cases happ : h.appData v = some .granted
  · simp only [happ]
    grind
  · simp [happ]

/-- In a hook that does not ask, the callback is called once at most, by a unit that
wants it, and nobody else is served. -/
structure Serves (h h' : LockHook U) : Prop where
  others : ∀ v, v ≠ h.unit → (h'.Wants v ↔ h.Wants v)
  own : (h'.ran = h.ran ∧ (h'.Wants h.unit ↔ h.Wants h.unit)) ∨
    (h.Wants h.unit ∧ (∃ r, h'.ran = h.ran ++ [r]) ∧ h'.unitWrite = some .release)

theorem Act.wants_of_app (hact : (∃ v, h' = h.clear v ∧ h.releaseRequested v) ∨
    ∃ v, h' = h.grant v ∧ h.isPending v) (u : U) : h'.Wants u ↔ h.Wants u := by
  rcases hact with ⟨v, rfl, hv⟩ | ⟨v, rfl, hv⟩
  · obtain ⟨happ, hunit⟩ := (releaseRequested_iff h v).mp hv
    by_cases huv : u = v
    · subst huv
      simp [wants_iff, clear_unitData, hunit]
    · simp only [wants_iff, clear_unitData, clear_appData_of_ne h huv]
  · obtain ⟨happ, hunit⟩ := (isPending_iff h v).mp hv
    have hdata : ∀ x, (h.grant v).unitData x = h.unitData x := fun _ => rfl
    by_cases huv : u = v
    · subst huv
      simp [wants_iff, hdata, hunit]
    · simp only [wants_iff, hdata, grant_appData_of_ne h huv]

theorem not_wants_of_released (hrel : h.unitWrite = some .release) : ¬ h.Wants h.unit := by
  simp [wants_iff, unitData_self, hrel]

theorem Acts.serves (acts : Acts False False h h') : h.Serves h' := by
  induction acts with
  | refl => exact ⟨fun _ _ => Iff.rfl, .inl ⟨rfl, Iff.rfl⟩⟩
  | @tail x y acts act ih =>
    have hunit : x.unit = h.unit := (sameView acts).unit
    -- clearing and granting change nobody's wish
    have happ : ∀ z : LockHook U, z.ran = x.ran → z.unitWrite = x.unitWrite →
        (∀ v, z.Wants v ↔ x.Wants v) → h.Serves z := by
      intro z hran hwrite hwants
      refine ⟨fun v hv => (hwants v).trans (ih.others v hv), ?_⟩
      rw [hran, hwrite, hwants]
      exact ih.own
    cases act with
    | clear u leader listed released =>
      exact happ _ rfl rfl (Act.wants_of_app (.inl ⟨u, rfl, released⟩))
    | grant u leader listed waits free last =>
      exact happ _ rfl rfl (Act.wants_of_app (.inr ⟨u, rfl, waits⟩))
    | call r held =>
      refine ⟨fun v hv => ?_, .inr ?_⟩
      · have hvx : v ≠ x.unit := hunit ▸ hv
        have hdata : (x.called r).unitData v = x.unitData v := by
          simp [called, release, unitData, hvx]
        have hsame : (x.called r).Wants v ↔ x.Wants v := by
          simp only [wants_iff, hdata]
          exact Iff.rfl
        exact hsame.trans (ih.others v hv)
      · rw [hunit] at held
        rcases ih.own with ⟨hran, hwants⟩ | ⟨hwanted, hran, hrel⟩
        · exact ⟨hwants.mp (.inr held), ⟨r, by simp [called, hran]⟩, rfl⟩
        · have := not_wants_of_released hrel
          rw [hunit] at this
          exact absurd (.inr held) this
    | retry r again => exact again.elim
    | acquire asked => exact asked.elim
    | note o n b => exact happ _ rfl rfl fun _ => Iff.rfl

theorem Acts.ran_length {asks retries : Prop} (acts : Acts asks retries h h') :
    h.ran.length ≤ h'.ran.length := by
  induction acts with
  | refl => exact Nat.le_refl _
  | tail _ act ih =>
    cases act with
    | clear u leader listed released => exact ih
    | grant u leader listed waits free last => exact ih
    | call r held =>
      simp only [called, List.length_append, List.length_singleton]
      omega
    | retry r again =>
      simp only [called, List.length_append, List.length_singleton]
      omega
    | acquire asked => exact ih
    | note o n b => exact ih

theorem Acts.ran_ne_nil {asks retries : Prop} {r : RestartResult}
    (acts : Acts asks retries (h.called r) h') : h'.ran ≠ [] := by
  intro hnil
  have hlen := acts.ran_length
  simp [hnil, called] at hlen

/-- The callback can be called and restarts the broker. -/
structure Sane (h : LockHook U) : Prop where
  raised : h.raised = false
  deferred : h.deferred = 0
  callback : charmCallback (h.callbackOverride.getD "_restart_broker".toList) = some restartBroker
  health : h.health = allHealthy
  ran : ∀ r ∈ h.ran, r = .completed

omit [DecidableEq U] in
theorem Sane.of_same (hs : h.Sane) (hsame : h.SameHook h') : h'.Sane := by
  rw [hsame]
  exact ⟨hs.raised, hs.deferred, hs.callback, hs.health, hs.ran⟩

theorem Sane.grant (hs : h.Sane) (u : U) : (h.grant u).Sane :=
  ⟨hs.raised, hs.deferred, hs.callback, hs.health, hs.ran⟩

omit [DecidableEq U] in
theorem Sane.called (hs : h.Sane) : (h.called .completed).Sane := by
  refine ⟨hs.raised, ?_, hs.callback, hs.health, ?_⟩
  · simp [LockHook.called, release, RestartResult.deferred, hs.deferred]
  · intro r hr
    rcases List.mem_append.mp hr with hr | hr
    · exact hs.ran r hr
    · exact List.mem_singleton.mp hr

omit [DecidableEq U] in
theorem runWithLock_of_sane (hs : h.Sane) (process : LockHook U → LockHook U) :
    h.runWithLock process = (process (h.called .completed)).andThen fun h =>
      { h with callbackOverride := none } := by
  unfold runWithLock
  rw [hs.callback, hs.health]
  rfl

omit [DecidableEq U] in
theorem Sane.runWithLock {process : LockHook U → LockHook U} (hs : h.Sane)
    (hprocess : ∀ x, x.Sane → (process x).Sane) : (h.runWithLock process).Sane := by
  rw [runWithLock_of_sane hs]
  have hx := hprocess _ hs.called
  unfold andThen
  rw [hx.raised]
  exact ⟨hx.raised, hx.deferred, rfl, hx.health, hx.ran⟩

theorem Sane.processLocksWithin (n : Nat) (hs : h.Sane) : (h.processLocksWithin n).Sane := by
  induction n generalizing h with
  | zero => exact hs
  | succ n ih =>
    have hscan := hs.of_same (scanLocks_same h [] (h.units ++ [h.unit]))
    unfold LockHook.processLocksWithin
    split
    · exact hs
    · split
      · rename_i h' hres
        rwa [hres] at hscan
      · rename_i h' q hres
        rw [hres] at hscan
        split
        · exact hscan
        · rename_i u hu
          split
          · exact (hscan.grant u).runWithLock fun x hx => ih hx
          · exact hscan.grant u

theorem Sane.processLocks (hs : h.Sane) : h.processLocks.Sane := hs.processLocksWithin 2

omit [DecidableEq U] in
theorem Sane.andThen {f : LockHook U → LockHook U} (hs : h.Sane)
    (hf : ∀ x, x.Sane → (f x).Sane) : (h.andThen f).Sane := by
  unfold LockHook.andThen
  rw [hs.raised]
  exact hf h hs

theorem Sane.onRelationChanged (hs : h.Sane) : h.onRelationChanged.Sane := by
  unfold LockHook.onRelationChanged
  split
  · exact (hs.runWithLock fun x hx => hx.processLocks).andThen fun x hx => hx.processLocks
  · exact hs.andThen fun x hx => hx.processLocks

theorem run_relationChanged (hs : h.Sane) :
    h.run [.relationChanged] = h.onRelationChanged := by
  simp [run, hs.deferred, reemit, LockHook.andThen, hs.raised, handle]

/-- A unit that holds the lock runs the callback. -/
theorem ran_of_held (hs : h.Sane) (held : h.isHeld h.unit) : h.onRelationChanged.ran ≠ [] := by
  unfold LockHook.onRelationChanged
  rw [if_pos held, runWithLock_of_sane hs]
  have hcalled : Acts True True (h.called .completed)
      ((((h.called .completed).processLocks).andThen fun h =>
        { h with callbackOverride := none }).andThen LockHook.processLocks) :=
    (processLocks_acts _).trans ((andThen_acts fun x => .single
      (.note x none x.deferred x.raised)).trans (andThen_acts processLocks_acts))
  exact hcalled.ran_ne_nil

/-- With the lock free and somebody waiting, the leader grants it to another unit, or it
is alone in waiting and runs the callback. -/
theorem processLocks_serves (hs : h.Sane) (leader : h.isLeader = true)
    (free : ∀ v, h.Lists v → ¬ h.isHeld v) (waiting : ∃ v, h.Lists v ∧ h.isPending v) :
    (∃ u, u ≠ h.unit ∧ h.Lists u ∧ h.isPending u ∧ h.processLocks.appData u = some .granted ∧
      h.processLocks.ran = h.ran) ∨
    (h.processLocks.ran ≠ [] ∧ ∀ v, h.Lists v → h.isPending v → v = h.unit) := by
  obtain ⟨v, hv, hvwaits⟩ := waiting
  cases hres : h.scanLocks [] (h.units ++ [h.unit]) with
  | mk h' found =>
    cases found with
    | none =>
      have hnone : (h.scanLocks [] (h.units ++ [h.unit])).2 = none := by rw [hres]
      obtain ⟨x, hx, hheld⟩ := (scanLocks_none_iff h [] _).mp hnone
      exact absurd hheld (free x (by simpa [Lists] using hx))
    | some q =>
      have hsome : (h.scanLocks [] (h.units ++ [h.unit])).2 = some q := by rw [hres]
      have hmem : v ∈ q := by
        rw [(scanLocks_pending hsome ⟨0, [], rfl, by simp⟩).1.mem_iff]
        simpa [Lists, hvwaits] using hv
      obtain ⟨u, hu⟩ : ∃ u, q.getLast? = some u := by
        rw [List.getLast?_eq_some_getLast (List.ne_nil_of_mem hmem)]
        exact ⟨_, rfl⟩
      obtain ⟨listed, waits, last⟩ := scanLocks_next hsome hu
      have hs' : h'.Sane := by
        have := hs.of_same (scanLocks_same h [] (h.units ++ [h.unit]))
        rwa [hres] at this
      by_cases hown : u = h.unit
      · right
        refine ⟨?_, last hown⟩
        have heq : h.processLocks = (h'.grant u).runWithLock (LockHook.processLocksWithin 1) := by
          rw [LockHook.processLocks, LockHook.processLocksWithin]
          simp only [leader, hres, hu, hown]
          simp
        rw [heq, runWithLock_of_sane (hs'.grant u)]
        have hcalled : Acts True True ((h'.grant u).called .completed)
            ((((h'.grant u).called .completed).processLocksWithin 1).andThen fun h =>
              { h with callbackOverride := none }) :=
          (processLocksWithin_acts 1 _).trans
            (andThen_acts fun x => .single (.note x none x.deferred x.raised))
        exact hcalled.ran_ne_nil
      · left
        have heq : h.processLocks = h'.grant u := by
          rw [LockHook.processLocks, LockHook.processLocksWithin]
          simp only [leader, hres, hu, if_neg hown]
          simp
        have hran : (h'.grant u).ran = h.ran := by
          rw [(scanLocks_through hres).1]
          rfl
        exact ⟨u, hown, listed, waits, heq ▸ grant_appData_self h' u, heq ▸ hran⟩

end LockHook

/-! ## A rolling pass -/

namespace RestartWorld

variable {w w' : RestartWorld U} {u v l : U}

/-- The unit has asked for the lock, or was granted it, and has not been served yet. -/
def Wants (w : RestartWorld U) (u : U) : Prop :=
  w.unit u = some .acquire ∨ (w.app u = some .granted ∧ w.unit u ≠ some .release)

def Holds (w : RestartWorld U) (u : U) : Prop :=
  w.app u = some .granted ∧ w.unit u ≠ some .release

instance (w : RestartWorld U) (u : U) : Decidable (w.Wants u) :=
  inferInstanceAs (Decidable (_ ∨ _))

/-- The units that are still to be served. -/
def outstanding (w : RestartWorld U) : List U := w.members.filter fun u => decide (w.Wants u)

/-- No hook is under way, `l` leads, and every unit can run the callback. -/
structure Quiet (w : RestartWorld U) (l : U) : Prop where
  exclusive : w.Exclusive
  idle : ∀ v, w.hook v = none
  leader : w.leader = some l
  member : l ∈ w.members
  settled : ∀ v ∈ w.members, w.deferred v = 0
  callback : ∀ v ∈ w.members,
    charmCallback ((w.callbackOverride v).getD "_restart_broker".toList) = some restartBroker

/-- The hook of a relation-changed event on a unit whose broker is healthy. -/
def changedHook (w : RestartWorld U) (u : U) : LockHook U :=
  (w.dispatched u (w.members.erase u) allHealthy).run [.relationChanged]

/-- The hook is dispatched and committed before any other. -/
def pass (w : RestartWorld U) (u : U) : RestartWorld U :=
  (w.dispatch u (w.members.erase u) [.relationChanged] allHealthy).commit (w.changedHook u)

theorem Quiet.sane (hw : w.Quiet l) (hu : u ∈ w.members) :
    (w.dispatched u (w.members.erase u) allHealthy).Sane :=
  ⟨rfl, hw.settled u hu, hw.callback u hu, rfl, by simp [dispatched]⟩

theorem Quiet.changedHook_eq (hw : w.Quiet l) (hu : u ∈ w.members) :
    w.changedHook u = (w.dispatched u (w.members.erase u) allHealthy).onRelationChanged :=
  LockHook.run_relationChanged (hw.sane hu)

theorem Quiet.hookSane (hw : w.Quiet l) (hu : u ∈ w.members) : (w.changedHook u).Sane := by
  rw [hw.changedHook_eq hu]
  exact (hw.sane hu).onRelationChanged

theorem Quiet.acts (hw : w.Quiet l) (hu : u ∈ w.members) :
    LockHook.Acts False False (w.dispatched u (w.members.erase u) allHealthy)
      (w.changedHook u) := by
  rw [hw.changedHook_eq hu]
  exact LockHook.onRelationChanged_acts _

theorem dispatched_unitData (w : RestartWorld U) (u : U) (units : List U)
    (health : Nat → BrokerHealth) (v : U) :
    (w.dispatched u units health).unitData v = w.unit v := by
  unfold LockHook.unitData
  split <;> rfl

theorem dispatched_appData (w : RestartWorld U) (u : U) (units : List U)
    (health : Nat → BrokerHealth) (v : U) :
    (w.dispatched u units health).appData v = w.app v := by
  simp [dispatched, LockHook.appData]

theorem dispatched_wants (w : RestartWorld U) (u : U) (units : List U)
    (health : Nat → BrokerHealth) (v : U) :
    (w.dispatched u units health).Wants v ↔ w.Wants v := by
  rw [LockHook.wants_iff, dispatched_unitData, dispatched_appData]
  exact Iff.rfl

theorem dispatched_isHeld (w : RestartWorld U) (u : U) (units : List U)
    (health : Nat → BrokerHealth) (v : U) :
    (w.dispatched u units health).isHeld v ↔ w.Holds v := by
  rw [LockHook.isHeld_iff, dispatched_unitData, dispatched_appData]
  exact Iff.rfl

theorem pass_unit (hw : w.Quiet l) (hu : u ∈ w.members) (v : U) :
    (w.pass u).unit v = (w.changedHook u).unitData v := by
  have hview := (hw.acts hu).sameView
  have hunit : (w.changedHook u).unit = u := hview.unit
  have hseen : (w.changedHook u).seenUnit = w.unit := hview.seenUnit
  unfold pass commit LockHook.unitData
  rw [hunit, hseen]
  by_cases hvu : v = u
  · subst hvu
    simp [dispatch]
  · simp [dispatch, hvu]

theorem pass_app (hw : w.Quiet l) (hu : u ∈ w.members) (v : U) :
    (w.pass u).app v = (w.changedHook u).appData v := by
  have hseen : (w.changedHook u).seenApp = w.app := (hw.acts hu).sameView.seenApp
  simp [pass, commit, dispatch, LockHook.appData, hseen]

theorem pass_wants (hw : w.Quiet l) (hu : u ∈ w.members) (v : U) :
    (w.pass u).Wants v ↔ (w.changedHook u).Wants v := by
  rw [LockHook.wants_iff, Wants, pass_unit hw hu, pass_app hw hu]

theorem pass_log (hw : w.Quiet l) (hu : u ∈ w.members) :
    (w.pass u).log = w.log ++ (w.changedHook u).ran.map fun r => (u, r) := by
  have hunit : (w.changedHook u).unit = u := (hw.acts hu).sameView.unit
  simp [pass, commit, dispatch, hunit]

/-- The two moves of the pass. -/
theorem pass_reaches (hw : w.Quiet l) (hu : u ∈ w.members) :
    Reaches step orderly w (w.pass u) := by
  have hdispatch : w.step (.dispatch u (w.members.erase u) [.relationChanged] allHealthy) =
      some (w.dispatch u (w.members.erase u) [.relationChanged] allHealthy) := by
    simp [step, hu, hw.idle u]
  have hok : w.orderly (.dispatch u (w.members.erase u) [.relationChanged] allHealthy) :=
    ⟨hw.settled u hu, .inl (by simp)⟩
  have hex := step_exclusive hw.exclusive hok hdispatch
  have hhook : (w.dispatch u (w.members.erase u) [.relationChanged] allHealthy).hook u =
      some (w.changedHook u) := by
    simp [dispatch, changedHook]
  have hunder := hex.hooks u _ hhook
  have hleads : (w.changedHook u).wroteApp = true → w.leader = some u := by
    intro hwrote
    obtain ⟨asks, hc⟩ := hunder.careful
    obtain ⟨v, -, hv⟩ := List.any_eq_true.mp hwrote
    exact hunder.leads (hc.listed v (Option.isSome_iff_ne_none.mp hv)).1
  have hcommit : (w.dispatch u (w.members.erase u) [.relationChanged] allHealthy).step (.commit u) =
      some (w.pass u) := by
    simp only [step, hhook]
    exact if_pos ⟨(hw.hookSane hu).raised, hleads⟩
  exact .next (.commit u) (.next _ .start hok hdispatch) trivial hcommit

theorem Quiet.pass (hw : w.Quiet l) (hu : u ∈ w.members) : (w.pass u).Quiet l := by
  have hunit : (w.changedHook u).unit = u := (hw.acts hu).sameView.unit
  have hsane := hw.hookSane hu
  refine ⟨(pass_reaches hw hu).invariant hw.exclusive fun _ _ _ => step_exclusive, fun v => ?_,
    hw.leader, hw.member, fun v hv => ?_, fun v hv => ?_⟩
  · by_cases hvu : v = u
    · simp [RestartWorld.pass, commit, hunit, hvu]
    · simp [RestartWorld.pass, commit, dispatch, hunit, hvu, hw.idle v]
  · by_cases hvu : v = u
    · simp [RestartWorld.pass, commit, hunit, hvu, hsane.deferred]
    · simpa [RestartWorld.pass, commit, dispatch, hunit, hvu] using hw.settled v hv
  · by_cases hvu : v = u
    · simpa [RestartWorld.pass, commit, hunit, hvu] using hsane.callback
    · simpa [RestartWorld.pass, commit, dispatch, hunit, hvu] using hw.callback v hv

/-- A hook that runs the callback serves its unit and nobody else. -/
theorem pass_served (hw : w.Quiet l) (hu : u ∈ w.members) (hran : (w.changedHook u).ran ≠ []) :
    w.Wants u ∧ (w.pass u).log = w.log ++ [(u, .completed)] ∧
      ∀ v, (w.pass u).Wants v ↔ w.Wants v ∧ v ≠ u := by
  have hserves := (hw.acts hu).serves
  rcases hserves.own with ⟨hnone, -⟩ | ⟨hwants, ⟨r, hr⟩, hrel⟩
  · exact absurd hnone hran
  · have hr' : (w.changedHook u).ran = [r] := hr
    have hcompleted : r = .completed := (hw.hookSane hu).ran r (by simp [hr'])
    have hunit : (w.changedHook u).unit = u := (hw.acts hu).sameView.unit
    refine ⟨(dispatched_wants w u _ _ u).mp hwants, ?_, fun v => ?_⟩
    · rw [pass_log hw hu, hr', hcompleted]
      rfl
    · rw [pass_wants hw hu]
      by_cases hvu : v = u
      · subst hvu
        have hnot := LockHook.not_wants_of_released hrel
        rw [hunit] at hnot
        exact ⟨fun h => absurd h hnot, fun h => absurd rfl h.2⟩
      · rw [hserves.others v hvu, dispatched_wants]
        exact ⟨fun h => ⟨h, hvu⟩, fun h => h.1⟩

/-- One that does not changes nobody's wish. -/
theorem pass_unserved (hw : w.Quiet l) (hu : u ∈ w.members) (hran : (w.changedHook u).ran = []) :
    (w.pass u).log = w.log ∧ ∀ v, (w.pass u).Wants v ↔ w.Wants v := by
  have hserves := (hw.acts hu).serves
  refine ⟨by rw [pass_log hw hu, hran]; simp, fun v => ?_⟩
  rw [pass_wants hw hu, ← dispatched_wants w u (w.members.erase u) allHealthy]
  rcases hserves.own with ⟨-, hsame⟩ | ⟨-, ⟨r, hr⟩, -⟩
  · by_cases hvu : v = u
    · subst hvu
      exact hsame
    · exact hserves.others v hvu
  · rw [hran] at hr
    simp [dispatched] at hr

theorem ran_of_holds (hw : w.Quiet l) (hu : u ∈ w.members) (held : w.Holds u) :
    (w.changedHook u).ran ≠ [] := by
  rw [hw.changedHook_eq hu]
  exact LockHook.ran_of_held (hw.sane hu) ((dispatched_isHeld w u _ _ u).mpr held)

/-- A hook of a unit that does not lead leaves the grants alone. -/
theorem pass_holds_of_ne (hw : w.Quiet l) (hu : u ∈ w.members) (hul : u ≠ l) :
    (w.pass u).Holds l ↔ w.Holds l := by
  have happ : (w.pass u).app = w.app := by
    funext v
    rw [pass_app hw hu]
    have hacts := hw.acts hu
    have hnone := ((hacts.careful (dispatched_careful w hw.exclusive hu (.refl _) _ False) id
      False.elim).listed v)
    have hlead : (w.changedHook u).isLeader ≠ true := by
      rw [hacts.sameView.isLeader]
      simp [dispatched, hw.leader, Ne.symm hul]
    by_cases hwrite : (w.changedHook u).appWrites v = none
    · rw [LockHook.appData_of_none hwrite, hacts.sameView.seenApp]
      rfl
    · exact absurd (hnone hwrite).1 hlead
  have hunit : (w.pass u).unit l = w.unit l := by
    have hview := (hw.acts hu).sameView
    rw [pass_unit hw hu, LockHook.unitData_of_ne _ (by rw [hview.unit]; exact Ne.symm hul),
      hview.seenUnit]
    rfl
  rw [Holds, happ, hunit]
  exact Iff.rfl

/-- One unit is served: the one that holds the lock, or else the one the leader grants
it to. -/
theorem Quiet.round (hw : w.Quiet l) (hsome : w.outstanding ≠ []) :
    ∃ w' u, Reaches step orderly w w' ∧ w'.Quiet l ∧ w'.members = w.members ∧
      w'.log = w.log ++ [(u, .completed)] ∧ u ∈ w.members ∧ w.Wants u ∧
      (∀ v, w'.Wants v ↔ w.Wants v ∧ v ≠ u) ∧
      (¬ w.Holds l → (u = l → ∀ v ∈ w.members, w.Wants v → v = l) ∧ (u ≠ l → ¬ w'.Holds l)) := by
  by_cases hheld : ∃ u ∈ w.members, w.Holds u
  · obtain ⟨u, hu, held⟩ := hheld
    obtain ⟨hwants, hlog, hafter⟩ := pass_served hw hu (ran_of_holds hw hu held)
    refine ⟨w.pass u, u, pass_reaches hw hu, hw.pass hu, rfl, hlog, hu, hwants, hafter, fun hl => ?_⟩
    refine ⟨fun hul => absurd (hul ▸ held) hl, fun hul => ?_⟩
    rwa [pass_holds_of_ne hw hu hul]
  · push Not at hheld
    have hpending : ∀ v ∈ w.members, w.Wants v →
        (w.dispatched l (w.members.erase l) allHealthy).isPending v := by
      intro v hv hwants
      have := (dispatched_wants w l (w.members.erase l) allHealthy v).mpr hwants
      exact this.resolve_right fun h => hheld v hv ((dispatched_isHeld w l _ _ v).mp h)
    have hlists : ∀ v, (w.dispatched l (w.members.erase l) allHealthy).Lists v ↔ v ∈ w.members := by
      intro v
      by_cases hvl : v = l
      · simp [LockHook.Lists, dispatched, hvl, hw.member]
      · simp [LockHook.Lists, dispatched, hvl, List.mem_erase_of_ne hvl]
    have hhook : w.changedHook l =
        (w.dispatched l (w.members.erase l) allHealthy).processLocks := by
      rw [hw.changedHook_eq hw.member]
      unfold LockHook.onRelationChanged LockHook.andThen
      have hnot : ¬ (w.dispatched l (w.members.erase l) allHealthy).isHeld
          (w.dispatched l (w.members.erase l) allHealthy).unit :=
        fun h => hheld l hw.member ((dispatched_isHeld w l _ _ l).mp h)
      rw [if_neg hnot]
      rfl
    obtain ⟨v, hv⟩ := List.exists_mem_of_ne_nil _ hsome
    obtain ⟨hvm, hvw⟩ := List.mem_filter.mp hv
    have hserves := LockHook.processLocks_serves (hw.sane hw.member)
      (by simp [dispatched, hw.leader])
      (fun x hx h => hheld x ((hlists x).mp hx) ((dispatched_isHeld w l _ _ x).mp h))
      ⟨v, (hlists v).mpr hvm, hpending v hvm (by simpa using hvw)⟩
    rw [← hhook] at hserves
    rcases hserves with ⟨u, hul, hlisted, hwaits, hgranted, hran⟩ | ⟨hran, hlast⟩
    · -- the leader grants the lock to `u`, which runs the callback in its next hook
      have hu : u ∈ w.members := (hlists u).mp hlisted
      obtain ⟨hlog, hsame⟩ := pass_unserved hw hw.member hran
      have hw1 := hw.pass hw.member
      have hheld : (w.pass l).Holds u := by
        have hview := (hw.acts hw.member).sameView
        refine ⟨by rw [pass_app hw hw.member, hgranted], ?_⟩
        rw [pass_unit hw hw.member, LockHook.unitData_of_ne _ (by rw [hview.unit]; exact hul),
          hview.seenUnit]
        have := ((LockHook.isPending_iff _ u).mp hwaits).2
        rw [dispatched_unitData] at this
        simp [dispatched, this]
      obtain ⟨hwants, hlog', hafter⟩ := pass_served hw1 hu (ran_of_holds hw1 hu hheld)
      refine ⟨(w.pass l).pass u, u, (pass_reaches hw hw.member).trans (pass_reaches hw1 hu),
        hw1.pass hu, rfl, by rw [hlog', hlog], hu, (hsame u).mp hwants,
        fun v => by rw [hafter, hsame], fun _ => ⟨fun h => absurd h hul, fun _ => ?_⟩⟩
      rw [pass_holds_of_ne hw1 hu hul]
      intro hl
      exact hul (hw1.exclusive.alone u hu l hw.member hheld.1 hl.1)
    · obtain ⟨hwants, hlog, hafter⟩ := pass_served hw hw.member hran
      exact ⟨w.pass l, l, pass_reaches hw hw.member, hw.pass hw.member, rfl, hlog, hw.member, hwants,
        hafter, fun _ => ⟨fun _ x hx hxw => hlast x ((hlists x).mpr hx) (hpending x hx hxw),
          fun h => absurd rfl h⟩⟩

/-- After a round the served unit is not outstanding any more. -/
theorem outstanding_erase (hnodup : w.members.Nodup) (hmembers : w'.members = w.members)
    (hafter : ∀ v, w'.Wants v ↔ w.Wants v ∧ v ≠ u) : w'.outstanding = w.outstanding.erase u := by
  have hnodup' : w.outstanding.Nodup := hnodup.filter _
  rw [hnodup'.erase_eq_filter]
  unfold outstanding
  rw [hmembers, List.filter_filter]
  refine List.filter_congr fun v _ => ?_
  rw [Bool.eq_iff_iff]
  simp [hafter, and_comm]

theorem Quiet.rolling (hw : w.Quiet l) :
    ∃ (w' : RestartWorld U) (order : List U), Reaches step orderly w w' ∧ w'.outstanding = [] ∧
      w'.members = w.members ∧ order.Perm w.outstanding ∧
      w'.log = w.log ++ order.map (fun u => (u, .completed)) ∧
      (¬ w.Holds l → l ∈ order → order.getLast? = some l) := by
  -- the number of units that wait goes down by one in each round
  induction hn : w.outstanding.length generalizing w with
  | zero =>
    have hnil := List.eq_nil_of_length_eq_zero hn
    exact ⟨w, [], .start, hnil, rfl, by rw [hnil], by simp, by simp⟩
  | succ n ih =>
    have hsome : w.outstanding ≠ [] := by
      intro hnil
      simp [hnil] at hn
    obtain ⟨x, u, hreach, hx, hmembers, hlog, hu, hwants, hafter, hlast⟩ := hw.round hsome
    have hmem : u ∈ w.outstanding := List.mem_filter.mpr ⟨hu, by simpa using hwants⟩
    have hout := outstanding_erase hw.exclusive.nodup hmembers hafter
    have hlen : x.outstanding.length = n := by
      rw [hout, List.length_erase_of_mem hmem, hn]
      rfl
    obtain ⟨w', order, hreach', hnil, hmembers', hperm, hlog', hlast'⟩ := ih hx hlen
    refine ⟨w', u :: order, hreach.trans hreach', hnil, hmembers'.trans hmembers, ?_, ?_, ?_⟩
    · rw [hout] at hperm
      exact (hperm.cons u).trans (List.perm_cons_erase hmem).symm
    · rw [hlog', hlog]
      simp
    · intro hl hmemo
      obtain ⟨halone, hnot⟩ := hlast hl
      by_cases hul : u = l
      · have hnone : order = [] := by
          by_contra hne
          obtain ⟨v, hv⟩ := List.exists_mem_of_ne_nil _ hne
          obtain ⟨hvm, hvw⟩ := List.mem_filter.mp (hperm.mem_iff.mp hv)
          have hvw := (hafter v).mp (by simpa using hvw)
          exact hvw.2 ((halone hul v (hmembers ▸ hvm) hvw.1).trans hul.symm)
        simp [hnone, hul]
      · have hlo : l ∈ order := (List.mem_cons.mp hmemo).resolve_left (Ne.symm hul)
        rw [List.getLast?_cons]
        simp [hlast' (hnot hul) hlo]

end RestartWorld

/-- From a quiet state that an orderly run has reached, hooks can go on in an orderly way
until nobody waits. Every unit that was waiting restarts exactly once, one after another,
and the leader last unless it held the lock before. -/
theorem rolling_pass {w : RestartWorld U} {l : U}
    (hw : Reaches RestartWorld.step RestartWorld.orderly RestartWorld.empty w)
    (idle : ∀ v, w.hook v = none) (leader : w.leader = some l) (member : l ∈ w.members)
    (settled : ∀ v ∈ w.members, w.deferred v = 0)
    (callback : ∀ v ∈ w.members, charmCallback
      ((w.callbackOverride v).getD "_restart_broker".toList) = some restartBroker) :
    ∃ (w' : RestartWorld U) (order : List U),
      Reaches RestartWorld.step RestartWorld.orderly w w' ∧ w'.outstanding = [] ∧
      w'.members = w.members ∧ order.Perm w.outstanding ∧
      w'.log = w.log ++ order.map (fun u => (u, .completed)) ∧
      (¬ w.Holds l → l ∈ order → order.getLast? = some l) :=
  RestartWorld.Quiet.rolling
    ⟨RestartWorld.reached_exclusive hw, idle, leader, member, settled, callback⟩

/-- Units 0 and 1 ask for the lock and unit 0 leads. -/
def bothAskScenario : List (LockMove Nat) :=
  [.join 0, .join 1, .dispatch 0 [1] [.acquireLock []] allHealthy, .commit 0,
    .dispatch 1 [0] [.acquireLock []] allHealthy, .commit 1, .elect 0]

/-- Unit 1 restarts before unit 0, which leads. -/
theorem rolling_pass_scenario :
    ∃ w w' : RestartWorld Nat, w.outstanding = [0, 1] ∧
      Reaches RestartWorld.step RestartWorld.orderly w w' ∧
      w'.log = [(1, .completed), (0, .completed)] := by
  have hask : (replay RestartWorld.step RestartWorld.orderly RestartWorld.empty
      bothAskScenario).any (fun w => decide (w.outstanding = [0, 1] ∧ w.leader = some 0 ∧
        w.members = [0, 1] ∧ w.log = [] ∧ w.app 0 = none ∧ w.deferred 0 = 0 ∧ w.deferred 1 = 0 ∧
        w.callbackOverride 0 = none ∧ w.callbackOverride 1 = none ∧
        (w.hook 0).isNone ∧ (w.hook 1).isNone)) = true := by decide
  cases hw : replay RestartWorld.step RestartWorld.orderly RestartWorld.empty bothAskScenario with
  | none => simp [hw] at hask
  | some w =>
    rw [hw, Option.any_some, decide_eq_true_iff] at hask
    obtain ⟨hout, hlead, hmembers, hlog, happ, hd0, hd1, hc0, hc1, hh0, hh1⟩ := hask
    have hreach := Reaches.replay _ _ _ _ hw
    have hidle : ∀ v, w.hook v = none := by
      intro v
      cases hv : w.hook v with
      | none => rfl
      | some h =>
        have hmember := ((RestartWorld.reached_attributed hreach).hooks v h hv).2.1
        rw [hmembers] at hmember
        simp only [List.mem_cons, List.not_mem_nil, or_false] at hmember
        rcases hmember with rfl | rfl
        · simp [hv] at hh0
        · simp [hv] at hh1
    have hcallback : ∀ v ∈ w.members, charmCallback
        ((w.callbackOverride v).getD "_restart_broker".toList) = some restartBroker := by
      intro v hv
      rw [hmembers] at hv
      simp only [List.mem_cons, List.not_mem_nil, or_false] at hv
      rcases hv with rfl | rfl
      · rw [hc0]
        exact if_pos rfl
      · rw [hc1]
        exact if_pos rfl
    obtain ⟨w', order, hrun, -, -, hperm, hlog', hlast⟩ :=
      rolling_pass hreach hidle hlead (by simp [hmembers])
        (by simp [hmembers, hd0, hd1]) hcallback
    rw [hout] at hperm
    have hend : order.getLast? = some 0 :=
      hlast (by simp [RestartWorld.Holds, happ]) (hperm.mem_iff.mpr (by simp))
    have horder : order = [1, 0] := by
      obtain ⟨a, b, rfl⟩ := List.length_eq_two.mp hperm.length_eq
      have hb : b = 0 := by simpa using hend
      subst hb
      have ha : 1 ∈ [a, 0] := hperm.mem_iff.mpr (by simp)
      simp only [List.mem_cons, List.not_mem_nil, or_false] at ha
      rw [ha.resolve_right (by decide)]
    exact ⟨w, w', hout, hrun, by simp [hlog', hlog, horder]⟩

end KafkaCharm
