import KafkaCharm.Bootstrap
import Mathlib.Data.List.Nodup

namespace KafkaCharm

open PyText Runs

/-! ## Commands -/

/-- A node and the id of its metadata directory. -/
abbrev Voter := Nat × Str

/-- What `add-controller` reports: that it is done, a `DuplicateVoterException`, or another
error, after which the voter may have been added all the same. -/
inductive AddReply
  | done
  | duplicate
  | error (landed : Bool)
  deriving DecidableEq, Repr

/-- What `remove-controller` reports. After a `TimeoutException` the voter may be gone. -/
inductive RemoveReply
  | done
  | notFound
  | timeout (landed : Bool)
  | error
  deriving DecidableEq, Repr

def isNode (voters : List Voter) (n : Nat) : Bool := voters.any (·.1 = n)

/-- A voter is added once, and by a quorum that is there. -/
def addVoter (v : Voter) (voters : List Voter) : Option (List Voter) :=
  if isNode voters v.1 ∨ voters = [] then none else some (voters ++ [v])

/-- `add_controller` with the attempts that are left: the voters, and whether it returns. -/
def addController (v : Voter) : Nat → List AddReply → List Voter → Option (List Voter × Bool)
  | 0, _, voters => some (voters, false)
  | _ + 1, [], voters => some (voters, false)
  | n + 1, reply :: replies, voters =>
    match reply with
    | .done => (addVoter v voters).map (·, true)
    | .duplicate => if isNode voters v.1 then some (voters, true) else none
    | .error false => addController v n replies voters
    | .error true => (addVoter v voters).bind (addController v n replies)

/-- `remove_controller`. -/
def removeController (v : Voter) : Nat → List RemoveReply → List Voter →
    Option (List Voter × Bool)
  | 0, _, voters => some (voters, false)
  | _ + 1, [], voters => some (voters, false)
  | n + 1, reply :: replies, voters =>
    match reply with
    | .done => if v ∈ voters then some (voters.erase v, true) else none
    | .notFound => if v ∈ voters then none else some (voters, true)
    | .timeout landed => some (if landed then voters.erase v else voters, true)
    | .error => removeController v n replies voters

/-! ## Hooks -/

structure QuorumWorld where
  boot : BootstrapState
  voters : List Voter

/-- Hooks of the units, and a unit that is created, possibly with the number of one that
has gone. -/
inductive QuorumEvent
  | start (u : Nat) (otherwise : Bool) (uuid fresh : Uuid)
  | elected (u : Nat)
  | updateStatus (u : Nat) (replies : List AddReply)
  | departed (u : Nat) (replies : List RemoveReply)
  | joins (u : Nat)

namespace QuorumWorld

def initial (present : Nat → Bool) : QuorumWorld := ⟨.initial present, []⟩

variable (app : ControllerApp) (w : QuorumWorld)

/-- A node that is formatted as the initial controller is a voter from the beginning. -/
def initialVoter (u : Nat) (boot : BootstrapState) : List Voter :=
  match (w.boot.unit u).directoryId, (boot.unit u).directoryId with
  | none, some d =>
    if boot.bootstrapUnitId = decimal (app.kraftUnitId u) then [(app.kraftUnitId u, d)] else []
  | _, _ => []

/-- `add_to_quorum` on update-status. A unit without storage is not healthy. If the command
fails for good, the hook does. -/
def onUpdateStatus (u : Nat) (replies : List AddReply) : Option QuorumWorld :=
  match (w.boot.unit u).directoryId with
  | none => some w
  | some d =>
    if w.boot.leader = some u ∨ (w.boot.unit u).addedToQuorum = true then some w
    else
      (addController (app.kraftUnitId u, d) 4 replies w.voters).map fun r =>
        ⟨if r.2 then w.boot.addToQuorum u else w.boot, r.1⟩

/-- The directory id that `remove_from_quorum` takes. -/
def departingId (u : Nat) : Str :=
  if w.boot.leader = some u then w.boot.bootstrapReplicaId
  else (w.boot.unit u).metadataDirectoryId

/-- `remove_from_quorum` on relation-departed. -/
def onDeparted (u : Nat) (replies : List RemoveReply) : Option QuorumWorld :=
  if (w.boot.unit u).addedToQuorum = true ∨ w.boot.leader = some u then
    (removeController (app.kraftUnitId u, w.departingId u) 3 replies w.voters).map fun r =>
      ⟨if r.2 then w.boot.unitRemoved u else w.boot, r.1⟩
  else some { w with boot := w.boot.unitRemoved u }

def step : QuorumEvent → Option QuorumWorld
  | .start u otherwise uuid fresh =>
    if (w.boot.unit u).present then
      let boot := w.boot.onStart app u otherwise uuid fresh
      some ⟨boot, w.voters ++ w.initialVoter app u boot⟩
    else none
  | .elected u =>
    if (w.boot.unit u).present then some { w with boot := w.boot.leaderElected app u } else none
  | .updateStatus u replies =>
    if (w.boot.unit u).present then w.onUpdateStatus app u replies else none
  | .departed u replies =>
    if (w.boot.unit u).present then w.onDeparted app u replies else none
  | .joins u =>
    if (w.boot.unit u).present then none
    else some { w with boot := w.boot.setUnit u ⟨true, [], false, none⟩ }

/-- Elections are as the bootstrap data need it; a member departs with a note of its
membership, or as the leader, and its removal does not time out before it is done; and the
number of the last elected unit is not used again. -/
def orderly : QuorumEvent → Prop
  | .elected u => electsRecorded w.boot (.leaderElected u)
  | .departed u replies => (∀ r ∈ replies, r ≠ .timeout false) ∧
      (isNode w.voters (app.kraftUnitId u) = true →
        (w.boot.unit u).addedToQuorum = true ∨ w.boot.leader = some u)
  | .joins u => w.boot.elected ≠ some u
  | .start _ _ _ _ | .updateStatus _ _ => True

instance : (e : QuorumEvent) → Decidable (w.orderly app e)
  | .elected u => inferInstanceAs (Decidable (electsRecorded w.boot (.leaderElected u)))
  | .departed _ replies => inferInstanceAs (Decidable ((∀ r ∈ replies, r ≠ .timeout false) ∧ (_ → _)))
  | .joins u => inferInstanceAs (Decidable (w.boot.elected ≠ some u))
  | .start _ _ _ _ | .updateStatus _ _ => inferInstanceAs (Decidable True)

end QuorumWorld

/-! ## What a command does -/

theorem isNode_iff {voters : List Voter} {n : Nat} :
    isNode voters n = true ↔ ∃ d, (n, d) ∈ voters := by
  simp [isNode]

theorem addVoter_eq_some {v : Voter} {voters voters' : List Voter}
    (h : addVoter v voters = some voters') :
    isNode voters v.1 = false ∧ voters' = voters ++ [v] := by
  unfold addVoter at h
  split at h
  · cases h
  · rename_i hnew
    rw [not_or] at hnew
    exact ⟨by simpa using hnew.1, (Option.some.inj h).symm⟩

theorem isNode_append_self (v : Voter) (voters : List Voter) :
    isNode (voters ++ [v]) v.1 = true :=
  isNode_iff.mpr ⟨v.2, by simp⟩

/-- Whatever the replies, the voter is added at most once, and it is there if the command
is taken for done. -/
theorem addController_spec {v : Voter} {n : Nat} {replies : List AddReply}
    {voters voters' : List Voter} {ok : Bool}
    (h : addController v n replies voters = some (voters', ok)) :
    (voters' = voters ∨ (isNode voters v.1 = false ∧ voters' = voters ++ [v])) ∧
      (ok = true → isNode voters' v.1 = true) := by
  induction n generalizing replies voters with
  | zero =>
    cases h
    exact ⟨.inl rfl, fun hok => nomatch hok⟩
  | succ n ih =>
    cases replies with
    | nil =>
      cases h
      exact ⟨.inl rfl, fun hok => nomatch hok⟩
    | cons reply replies =>
      match reply with
      | .done =>
        obtain ⟨added, hadd, heq⟩ := Option.map_eq_some_iff.mp h
        cases heq
        obtain ⟨hnew, rfl⟩ := addVoter_eq_some hadd
        exact ⟨.inr ⟨hnew, rfl⟩, fun _ => isNode_append_self v voters⟩
      | .duplicate =>
        simp only [addController, Option.ite_none_right_eq_some, Option.some.injEq] at h
        obtain ⟨hknown, heq⟩ := h
        cases heq
        exact ⟨.inl rfl, fun _ => hknown⟩
      | .error false => exact ih h
      | .error true =>
        obtain ⟨added, hadd, hrest⟩ := Option.bind_eq_some_iff.mp h
        obtain ⟨hnew, rfl⟩ := addVoter_eq_some hadd
        obtain ⟨hsame | ⟨hagain, -⟩, hok⟩ := ih hrest
        · exact ⟨.inr ⟨hnew, hsame⟩, hok⟩
        · rw [isNode_append_self] at hagain
          cases hagain

/-- Without a timeout that hides a failure, the voter is gone if the command is taken for
done, and nothing has happened otherwise. -/
theorem removeController_spec {v : Voter} {n : Nat} {replies : List RemoveReply}
    {voters voters' : List Voter} {ok : Bool} (hreplies : ∀ r ∈ replies, r ≠ .timeout false)
    (h : removeController v n replies voters = some (voters', ok)) :
    voters' = if ok then voters.erase v else voters := by
  induction n generalizing replies with
  | zero =>
    cases h
    rfl
  | succ n ih =>
    cases replies with
    | nil =>
      cases h
      rfl
    | cons reply replies =>
      obtain ⟨hreply, hrest⟩ := List.forall_mem_cons.mp hreplies
      match reply with
      | .done =>
        simp only [removeController, Option.ite_none_right_eq_some, Option.some.injEq] at h
        cases h.2
        rfl
      | .notFound =>
        simp only [removeController, Option.ite_none_left_eq_some, Option.some.injEq] at h
        cases h.2
        exact (List.erase_of_not_mem h.1).symm
      | .timeout true =>
        cases h
        rfl
      | .timeout false => exact absurd rfl hreply
      | .error => exact ih hrest h

/-! ## Every hook keeps it -/

theorem ControllerApp.kraftUnitId_injective (app : ControllerApp) {u v : Nat}
    (h : app.kraftUnitId u = app.kraftUnitId v) : u = v := by
  unfold ControllerApp.kraftUnitId at h
  split at h
  · omega
  · exact h

namespace QuorumWorld

variable {app : ControllerApp} {w w' : QuorumWorld}

/-- What the app and the voters know of a unit. -/
structure Member (app : ControllerApp) (boot : BootstrapState) (voters : List Voter) (u : Nat) :
    Prop where
  voter : ∀ d, (app.kraftUnitId u, d) ∈ voters →
    (boot.unit u).present = true ∧ (boot.unit u).directoryId = some d
  added : (boot.unit u).addedToQuorum = true →
    (app.kraftUnitId u, (boot.unit u).metadataDirectoryId) ∈ voters
  recorded : (boot.unit u).present = true → (boot.unit u).metadataDirectoryId ≠ [] →
    (boot.unit u).addedToQuorum = true
  leader : ∀ d, boot.leader = some u → (boot.unit u).directoryId = some d →
    (app.kraftUnitId u, d) ∈ voters
  present : boot.leader = some u → (boot.unit u).present = true

structure Sound (app : ControllerApp) (w : QuorumWorld) : Prop where
  consistent : Consistent app w.boot
  node : ∀ n d, (n, d) ∈ w.voters → ∃ u, n = app.kraftUnitId u
  nodup : (w.voters.map Prod.fst).Nodup
  member : ∀ u, Member app w.boot w.voters u

theorem initial_sound (present : Nat → Bool) : (initial present).Sound app where
  consistent := initial_consistent app present
  node := fun _ _ h => nomatch h
  nodup := List.nodup_nil
  member := fun _ =>
    { voter := fun _ h => (nomatch h)
      added := fun h => (nomatch h)
      recorded := fun _ h => absurd rfl h
      leader := fun _ h => (nomatch h)
      present := fun h => (nomatch h) }

/-- What is known of a unit that a hook does not touch. -/
theorem Member.congr {boot boot' : BootstrapState} {voters voters' : List Voter} {u : Nat}
    (h : Member app boot voters u) (hunit : boot'.unit u = boot.unit u)
    (hleader : boot'.leader = some u → boot.leader = some u)
    (hvoters : ∀ d, (app.kraftUnitId u, d) ∈ voters' ↔ (app.kraftUnitId u, d) ∈ voters) :
    Member app boot' voters' u where
  voter d hd := by
    rw [hunit]
    exact h.voter d ((hvoters d).mp hd)
  added ha := by
    rw [hunit] at ha ⊢
    exact (hvoters _).mpr (h.added ha)
  recorded := by
    rw [hunit]
    exact h.recorded
  leader d hl hd := by
    rw [hunit] at hd
    exact (hvoters d).mpr (h.leader d (hleader hl) hd)
  present hl := by
    rw [hunit]
    exact h.present (hleader hl)

/-- The voter of one node is of no concern to others. -/
theorem mem_other {u v : Nat} (hv : v ≠ u) {d e : Str} {voters : List Voter} :
    (app.kraftUnitId v, d) ∈ voters ++ [(app.kraftUnitId u, e)] ↔
      (app.kraftUnitId v, d) ∈ voters := by
  have hne : app.kraftUnitId v ≠ app.kraftUnitId u := fun h => hv (app.kraftUnitId_injective h)
  simp [hne]

theorem mem_erase_other {u v : Nat} (hv : v ≠ u) {d e : Str} {voters : List Voter} :
    (app.kraftUnitId v, d) ∈ voters.erase (app.kraftUnitId u, e) ↔
      (app.kraftUnitId v, d) ∈ voters := by
  have hne : app.kraftUnitId v ≠ app.kraftUnitId u := fun h => hv (app.kraftUnitId_injective h)
  exact List.mem_erase_of_ne fun h => hne (Prod.ext_iff.mp h).1

theorem node_add (h : w.Sound app) (u : Nat) (e : Str) :
    ∀ n d, (n, d) ∈ w.voters ++ [(app.kraftUnitId u, e)] → ∃ v, n = app.kraftUnitId v := by
  intro n d hmem
  rcases List.mem_append.mp hmem with hmem | hmem
  · exact h.node n d hmem
  · cases List.mem_singleton.mp hmem
    exact ⟨u, rfl⟩

theorem nodup_add {voters : List Voter} (h : (voters.map Prod.fst).Nodup) {v : Voter}
    (hnew : isNode voters v.1 = false) : ((voters ++ [v]).map Prod.fst).Nodup := by
  rw [List.map_append, List.map_singleton]
  refine List.nodup_append.mpr ⟨h, List.nodup_singleton _, ?_⟩
  rintro n hn _ hmem rfl
  obtain ⟨⟨m, d⟩, hv, rfl⟩ := List.mem_map.mp hn
  rw [List.mem_singleton] at hmem
  have hknown : isNode voters v.1 = true := isNode_iff.mpr ⟨d, hmem ▸ hv⟩
  rw [hnew] at hknown
  cases hknown

/-- A start changes at most the directory of its unit, and that only once. -/
theorem onStart_cases (s : BootstrapState) (u : Nat) (otherwise : Bool) (uuid fresh : Uuid) :
    (s.onStart app u otherwise uuid fresh).leader = s.leader ∧
    ((s.onStart app u otherwise uuid fresh).unit = s.unit ∨
      ((s.unit u).directoryId = none ∧ ∃ d, (s.onStart app u otherwise uuid fresh).unit =
        (s.setUnit u { s.unit u with directoryId := some d }).unit)) := by
  have hinit : (s.initKraftMode app u uuid).unit = s.unit ∧
      (s.initKraftMode app u uuid).leader = s.leader := by
    unfold BootstrapState.initKraftMode
    split <;> exact ⟨rfl, rfl⟩
  unfold BootstrapState.onStart
  dsimp only
  split
  · unfold BootstrapState.formatStorages
    rw [hinit.1]
    cases hd : (s.unit u).directoryId with
    | some d => exact ⟨hinit.2, .inl hinit.1⟩
    | none =>
      refine ⟨hinit.2, .inr ⟨rfl, if (s.initKraftMode app u uuid).bootstrapUnitId =
        decimal (app.kraftUnitId u) then (s.initKraftMode app u uuid).bootstrapReplicaId
        else fresh.1, ?_⟩⟩
      unfold BootstrapState.setUnit
      rw [hinit.1]
  · exact ⟨hinit.2, .inl hinit.1⟩

/-- A unit without storage is no voter. -/
theorem Sound.not_node (h : w.Sound app) {u : Nat} (hnone : (w.boot.unit u).directoryId = none) :
    isNode w.voters (app.kraftUnitId u) = false := by
  by_contra hnode
  obtain ⟨d, hd⟩ := isNode_iff.mp (by simpa using hnode)
  rw [((h.member u).voter d hd).2] at hnone
  cases hnone

theorem start_sound (h : w.Sound app) {u : Nat} (hpresent : (w.boot.unit u).present = true)
    (otherwise : Bool) (uuid fresh : Uuid) :
    Sound app ⟨w.boot.onStart app u otherwise uuid fresh,
      w.voters ++ w.initialVoter app u (w.boot.onStart app u otherwise uuid fresh)⟩ := by
  have hcons := onStart_consistent h.consistent u otherwise uuid fresh
  obtain ⟨hleader, hunit | ⟨hnone, d, hunit⟩⟩ := onStart_cases w.boot u otherwise uuid fresh
  · have hvoter : w.initialVoter app u (w.boot.onStart app u otherwise uuid fresh) = [] := by
      unfold initialVoter
      rw [hunit]
      cases (w.boot.unit u).directoryId <;> rfl
    rw [hvoter, List.append_nil]
    exact ⟨hcons, h.node, h.nodup, fun v => (h.member v).congr (congrFun hunit v)
      (fun hl => hleader ▸ hl) fun _ => Iff.rfl⟩
  · generalize w.boot.onStart app u otherwise uuid fresh = boot at *
    have hself : boot.unit u = { w.boot.unit u with directoryId := some d } := by
      rw [hunit, setUnit_self]
    have hother : ∀ v, v ≠ u → boot.unit v = w.boot.unit v := by
      intro v hv
      rw [hunit, setUnit_of_ne _ _ hv]
    have hnew := h.not_node hnone
    have hout : ∀ e, (app.kraftUnitId u, e) ∉ w.voters := by
      intro e hmem
      rw [isNode_iff.mpr ⟨e, hmem⟩] at hnew
      cases hnew
    have hnoted : (w.boot.unit u).addedToQuorum = false := by
      by_contra hadded
      exact hout _ ((h.member u).added (by simpa using hadded))
    have hrecorded : (w.boot.unit u).metadataDirectoryId = [] := by
      by_contra hne
      rw [(h.member u).recorded hpresent hne] at hnoted
      cases hnoted
    have hvoters : w.initialVoter app u boot = if boot.bootstrapUnitId =
        decimal (app.kraftUnitId u) then [(app.kraftUnitId u, d)] else [] := by
      unfold initialVoter
      rw [hnone, hself]
    rw [hvoters]
    split
    · refine ⟨hcons, node_add h u d, nodup_add h.nodup hnew, fun v => ?_⟩
      by_cases hv : v = u
      · subst hv
        exact
          { voter := by
              intro e hmem
              rw [hself]
              have hlast := (List.mem_append.mp hmem).resolve_left (hout e)
              cases List.mem_singleton.mp hlast
              exact ⟨hpresent, rfl⟩
            added := fun hadded => by
              rw [hself] at hadded
              rw [hnoted] at hadded
              cases hadded
            recorded := fun _ hne => by
              rw [hself] at hne
              exact absurd hrecorded hne
            leader := fun e _ hdir => by
              rw [hself] at hdir
              cases hdir
              exact List.mem_append_right _ (List.mem_singleton_self _)
            present := fun _ => by
              rw [hself]
              exact hpresent }
      · exact (h.member v).congr (hother v hv) (fun hl => hleader ▸ hl) fun _ => mem_other hv
    · rename_i hnot
      rw [List.append_nil]
      refine ⟨hcons, h.node, h.nodup, fun v => ?_⟩
      by_cases hv : v = u
      · subst hv
        exact
          { voter := fun e hmem => absurd hmem (hout e)
            added := fun hadded => by
              rw [hself] at hadded
              rw [hnoted] at hadded
              cases hadded
            recorded := fun _ hne => by
              rw [hself] at hne
              exact absurd hrecorded hne
            leader := fun e hl _ => by
              -- the leader is the unit that the bootstrap data name
              have hne : boot.bootstrapController ≠ [] := by
                intro hnil
                have hdir := hcons.unformatted hnil v
                rw [hself] at hdir
                cases hdir
              obtain ⟨b, hb, -, hid, -⟩ := hcons.named hne
              rw [hcons.leader v hl, Option.some.injEq] at hb
              exact absurd (hb ▸ hid) hnot
            present := fun _ => by
              rw [hself]
              exact hpresent }
      · exact (h.member v).congr (hother v hv) (fun hl => hleader ▸ hl) fun _ => Iff.rfl

theorem elected_sound (h : w.Sound app) {u : Nat} (hpresent : (w.boot.unit u).present = true)
    (hok : electsRecorded w.boot (.leaderElected u)) :
    Sound app { w with boot := w.boot.leaderElected app u } := by
  have hcons := leaderElected_consistent h.consistent hok
  have hunit : (w.boot.leaderElected app u).unit = w.boot.unit := by
    unfold BootstrapState.leaderElected
    dsimp only
    split <;> rfl
  have hleader : (w.boot.leaderElected app u).leader = some u := by
    unfold BootstrapState.leaderElected
    dsimp only
    split <;> rfl
  refine ⟨hcons, h.node, h.nodup, fun v => ?_⟩
  by_cases hv : v = u
  · subst hv
    have hm := h.member v
    exact
      { voter := by rw [hunit]; exact hm.voter
        added := by rw [hunit]; exact hm.added
        recorded := by rw [hunit]; exact hm.recorded
        leader := by
          intro d _ hdir
          rw [hunit] at hdir
          rcases hok with hnil | hne
          · rw [h.consistent.unformatted hnil v] at hdir
            cases hdir
          · have hin := hm.added (hm.recorded hpresent hne)
            rw [h.consistent.recorded v hne, Option.some.injEq] at hdir
            exact hdir ▸ hin
        present := fun _ => by rw [hunit]; exact hpresent }
  · refine (h.member v).congr (congrFun hunit v) (fun hl => ?_) fun _ => Iff.rfl
    rw [hleader, Option.some.injEq] at hl
    exact absurd hl.symm hv

/-- The command has added the voter, whether the hook knows or not. -/
theorem added_sound (h : w.Sound app) {u : Nat} {d : Str}
    (hpresent : (w.boot.unit u).present = true) (hdir : (w.boot.unit u).directoryId = some d)
    (hnew : isNode w.voters (app.kraftUnitId u) = false) :
    Sound app { w with voters := w.voters ++ [(app.kraftUnitId u, d)] } := by
  refine ⟨h.consistent, node_add h u d, nodup_add h.nodup hnew, fun v => ?_⟩
  by_cases hv : v = u
  · subst hv
    have hm := h.member v
    exact
      { voter := by
          intro e hmem
          rcases List.mem_append.mp hmem with hmem | hmem
          · exact hm.voter e hmem
          · cases List.mem_singleton.mp hmem
            exact ⟨hpresent, hdir⟩
        added := fun hadded => List.mem_append_left _ (hm.added hadded)
        recorded := hm.recorded
        leader := fun e hl he => List.mem_append_left _ (hm.leader e hl he)
        present := hm.present }
  · exact (h.member v).congr rfl id fun _ => mem_other hv

/-- The hook makes its note of a voter. -/
theorem noted_sound (h : w.Sound app) {u : Nat} {d : Str}
    (hdir : (w.boot.unit u).directoryId = some d)
    (hguard : ¬ (w.boot.leader = some u ∨ (w.boot.unit u).addedToQuorum = true))
    (hnode : isNode w.voters (app.kraftUnitId u) = true) :
    Sound app { w with boot := w.boot.addToQuorum u } := by
  have hcons := addToQuorum_consistent h.consistent u
  have hboot : w.boot.addToQuorum u = w.boot.setUnit u
      { w.boot.unit u with metadataDirectoryId := d, addedToQuorum := true } := by
    unfold BootstrapState.addToQuorum
    rw [if_neg hguard, hdir, Option.getD_some]
  have hself : (w.boot.addToQuorum u).unit u =
      { w.boot.unit u with metadataDirectoryId := d, addedToQuorum := true } := by
    rw [hboot, setUnit_self]
  have hleader : (w.boot.addToQuorum u).leader = w.boot.leader := by rw [hboot]; rfl
  refine ⟨hcons, h.node, h.nodup, fun v => ?_⟩
  by_cases hv : v = u
  · subst hv
    have hm := h.member v
    have hin : (app.kraftUnitId v, d) ∈ w.voters := by
      obtain ⟨e, he⟩ := isNode_iff.mp hnode
      have heq := (hm.voter e he).2
      rw [hdir, Option.some.injEq] at heq
      exact heq ▸ he
    exact
      { voter := by rw [hself]; exact hm.voter
        added := fun _ => by rw [hself]; exact hin
        recorded := fun _ _ => by rw [hself]
        leader := by rw [hself, hleader]; exact hm.leader
        present := by rw [hself, hleader]; exact hm.present }
  · refine (h.member v).congr ?_ (fun hl => hleader ▸ hl) fun _ => Iff.rfl
    dsimp only
    rw [hboot, setUnit_of_ne _ _ hv]

theorem updateStatus_sound (h : w.Sound app) {u : Nat} (hpresent : (w.boot.unit u).present = true)
    {replies : List AddReply} (hstep : w.onUpdateStatus app u replies = some w') : w'.Sound app := by
  unfold onUpdateStatus at hstep
  split at hstep
  · cases hstep
    exact h
  · rename_i d hdir
    split at hstep
    · cases hstep
      exact h
    · rename_i hguard
      obtain ⟨⟨voters, ok⟩, hadd, hw⟩ := Option.map_eq_some_iff.mp hstep
      dsimp only at hw
      subst hw
      obtain ⟨hvoters, hdone⟩ := addController_spec hadd
      have hgrown : Sound app { w with voters := voters } := by
        rcases hvoters with rfl | ⟨hnew, rfl⟩
        · exact h
        · exact added_sound h hpresent hdir hnew
      cases ok with
      | false => exact hgrown
      | true => exact noted_sound hgrown hdir hguard (hdone rfl)

/-- A unit goes, and its voter with it. -/
theorem removed_sound (h : w.Sound app) {u : Nat} {voters : List Voter}
    (hsub : voters.Sublist w.voters) (hout : ∀ d, (app.kraftUnitId u, d) ∉ voters)
    (hother : ∀ v, v ≠ u → ∀ d, (app.kraftUnitId v, d) ∈ voters ↔
      (app.kraftUnitId v, d) ∈ w.voters) :
    Sound app ⟨w.boot.unitRemoved u, voters⟩ := by
  have hcons := unitRemoved_consistent h.consistent u
  have hunit : (w.boot.unitRemoved u).unit =
      (w.boot.setUnit u { w.boot.unit u with addedToQuorum := false, present := false }).unit := by
    unfold BootstrapState.unitRemoved
    dsimp only
    split <;> rfl
  have hleader : ∀ v, (w.boot.unitRemoved u).leader = some v → v ≠ u ∧ w.boot.leader = some v := by
    intro v hl
    unfold BootstrapState.unitRemoved at hl
    dsimp only at hl
    split at hl
    · cases hl
    · rename_i hnot
      refine ⟨fun hv => hnot ?_, hl⟩
      rw [← hv]
      exact hl
  refine ⟨hcons, fun n d hd => h.node n d (hsub.subset hd), h.nodup.sublist (hsub.map _),
    fun v => ?_⟩
  by_cases hv : v = u
  · subst hv
    have hself : (w.boot.unitRemoved v).unit v =
        { w.boot.unit v with addedToQuorum := false, present := false } := by
      rw [hunit, setUnit_self]
    exact
      { voter := fun d hd => absurd hd (hout d)
        added := fun hadded => by
          rw [hself] at hadded
          cases hadded
        recorded := fun hpresent => by
          rw [hself] at hpresent
          cases hpresent
        leader := fun _ hl _ => absurd rfl (hleader v hl).1
        present := fun hl => absurd rfl (hleader v hl).1 }
  · refine (h.member v).congr ?_ (fun hl => (hleader v hl).2) (hother v hv)
    rw [hunit, setUnit_of_ne _ _ hv]

/-- The directory id that is taken to remove a member is that of its voter. -/
theorem Sound.departingId_eq (h : w.Sound app) {u : Nat} {d : Str}
    (hguard : (w.boot.unit u).addedToQuorum = true ∨ w.boot.leader = some u)
    (hv : (app.kraftUnitId u, d) ∈ w.voters) : w.departingId u = d := by
  have hdir := ((h.member u).voter d hv).2
  unfold departingId
  split
  · rename_i hl
    have hne : w.boot.bootstrapController ≠ [] := by
      intro hnil
      rw [h.consistent.unformatted hnil u] at hdir
      cases hdir
    obtain ⟨e, he, -, -, -, hreplica⟩ := h.consistent.named hne
    rw [h.consistent.leader u hl, Option.some.injEq] at he
    exact hreplica d (he ▸ hdir)
  · rename_i hl
    have hnoted := (h.member u).added (hguard.resolve_right hl)
    have hsame := ((h.member u).voter _ hnoted).2
    rw [hdir, Option.some.injEq] at hsame
    exact hsame.symm

theorem departed_sound (h : w.Sound app) {u : Nat} {replies : List RemoveReply}
    (hreplies : ∀ r ∈ replies, r ≠ .timeout false)
    (hnoted : isNode w.voters (app.kraftUnitId u) = true →
      (w.boot.unit u).addedToQuorum = true ∨ w.boot.leader = some u)
    (hstep : w.onDeparted app u replies = some w') : w'.Sound app := by
  unfold onDeparted at hstep
  split at hstep
  · rename_i hguard
    obtain ⟨⟨voters, ok⟩, hremove, hw⟩ := Option.map_eq_some_iff.mp hstep
    dsimp only at hw
    subst hw
    have hvoters := removeController_spec hreplies hremove
    cases ok with
    | false =>
      obtain rfl : voters = w.voters := hvoters
      exact h
    | true =>
      obtain rfl : voters = w.voters.erase (app.kraftUnitId u, w.departingId u) := hvoters
      refine removed_sound h List.erase_sublist (fun d hd => ?_) fun v hv d => mem_erase_other hv
      obtain ⟨hne, hin⟩ := ((List.Nodup.of_map _ h.nodup).mem_erase_iff).mp hd
      exact hne (by rw [h.departingId_eq hguard hin])
  · rename_i hguard
    cases hstep
    refine removed_sound h (List.Sublist.refl _) (fun d hd => ?_) fun _ _ _ => Iff.rfl
    exact hguard (hnoted (isNode_iff.mpr ⟨d, hd⟩))

theorem joins_sound (h : w.Sound app) {u : Nat} (habsent : (w.boot.unit u).present = false)
    (hok : w.boot.elected ≠ some u) :
    Sound app { w with boot := w.boot.setUnit u ⟨true, [], false, none⟩ } := by
  have hcons : Consistent app (w.boot.setUnit u ⟨true, [], false, none⟩) := by
    apply h.consistent.setUnit
    · exact fun hne => absurd rfl hne
    · by_cases hnil : w.boot.bootstrapController = []
      · exact .inl (h.consistent.unformatted hnil u).symm
      · exact .inr ⟨hnil, fun he => absurd he hok⟩
  refine ⟨hcons, h.node, h.nodup, fun v => ?_⟩
  by_cases hv : v = u
  · subst hv
    have hm := h.member v
    have hfollows : w.boot.leader ≠ some v := by
      intro hl
      rw [hm.present hl] at habsent
      cases habsent
    have hself : (w.boot.setUnit v ⟨true, [], false, none⟩).unit v = ⟨true, [], false, none⟩ :=
      setUnit_self _ _ _
    exact
      { voter := by
          intro d hd
          rw [(hm.voter d hd).1] at habsent
          cases habsent
        added := fun hadded => by
          rw [hself] at hadded
          cases hadded
        recorded := fun _ hne => by
          rw [hself] at hne
          exact absurd rfl hne
        leader := fun _ hl _ => absurd hl hfollows
        present := fun hl => absurd hl hfollows }
  · exact (h.member v).congr (setUnit_of_ne _ _ hv) id fun _ => Iff.rfl

theorem step_sound {e : QuorumEvent} (h : w.Sound app) (hok : w.orderly app e)
    (hstep : w.step app e = some w') : w'.Sound app := by
  cases e with
  | start u otherwise uuid fresh =>
    simp only [step, Option.ite_none_right_eq_some, Option.some.injEq] at hstep
    obtain ⟨hpresent, rfl⟩ := hstep
    exact start_sound h hpresent otherwise uuid fresh
  | elected u =>
    simp only [step, Option.ite_none_right_eq_some, Option.some.injEq] at hstep
    obtain ⟨hpresent, rfl⟩ := hstep
    exact elected_sound h hpresent hok
  | updateStatus u replies =>
    simp only [step, Option.ite_none_right_eq_some] at hstep
    exact updateStatus_sound h hstep.1 hstep.2
  | departed u replies =>
    simp only [step, Option.ite_none_right_eq_some] at hstep
    exact departed_sound h hok.1 hok.2 hstep.2
  | joins u =>
    simp only [step, Option.ite_none_left_eq_some, Option.some.injEq, Bool.not_eq_true] at hstep
    obtain ⟨habsent, rfl⟩ := hstep
    exact joins_sound h habsent hok

theorem reached_sound {present : Nat → Bool}
    (h : Reaches (step app) (orderly app) (initial present) w) : w.Sound app :=
  h.invariant (initial_sound present) fun _ _ _ hw hok hstep => step_sound hw hok hstep

end QuorumWorld

/-- In every orderly run, with commands that fail, succeed unnoticed or are repeated: the
voters are units that are there, each once and with the directory that it has; every unit
that is noted as a member is a voter with the directory id that is noted; and so is a
leader that has its storage. -/
theorem quorum_members_agree {app : ControllerApp} {present : Nat → Bool} {w : QuorumWorld}
    (h : Reaches (QuorumWorld.step app) (QuorumWorld.orderly app) (.initial present) w) :
    (∀ n d, (n, d) ∈ w.voters → ∃ u, n = app.kraftUnitId u ∧ (w.boot.unit u).present = true ∧
      (w.boot.unit u).directoryId = some d) ∧
    (w.voters.map Prod.fst).Nodup ∧
    (∀ u, (w.boot.unit u).addedToQuorum = true →
      (app.kraftUnitId u, (w.boot.unit u).metadataDirectoryId) ∈ w.voters) ∧
    ∀ u d, w.boot.leader = some u → (w.boot.unit u).directoryId = some d →
      (app.kraftUnitId u, d) ∈ w.voters := by
  have hs := QuorumWorld.reached_sound h
  refine ⟨fun n d hd => ?_, hs.nodup, fun u => (hs.member u).added, fun u d => (hs.member u).leader d⟩
  obtain ⟨u, rfl⟩ := hs.node n d hd
  exact ⟨u, rfl, (hs.member u).voter d hd⟩

def controllersOnly : ControllerApp := ⟨.kafka, false⟩

/-- Unit 0 starts the cluster, and unit 1 joins it at the second attempt, though the first
was a success. It is elected, unit 0 goes, and a new unit 0 joins. -/
def replacedLeader : List QuorumEvent :=
  [.elected 0, .start 0 true ⟨"dir0", by decide⟩ ⟨"x", by decide⟩,
    .start 1 true ⟨"y", by decide⟩ ⟨"dir1", by decide⟩, .updateStatus 1 [.error true, .duplicate],
    .elected 1, .updateStatus 0 [.duplicate], .departed 0 [.error, .done], .joins 0,
    .start 0 true ⟨"z", by decide⟩ ⟨"dir2", by decide⟩, .updateStatus 0 [.done]]

theorem quorum_members_agree_replaced_leader :
    ∃ w, Reaches (QuorumWorld.step controllersOnly) (QuorumWorld.orderly controllersOnly)
      (.initial fun u => decide (u < 2)) w ∧
      (w.boot.unit 0).addedToQuorum = true ∧
      (0, (w.boot.unit 0).metadataDirectoryId) ∈ w.voters := by
  have hran : (replay (QuorumWorld.step controllersOnly) (QuorumWorld.orderly controllersOnly)
      (.initial fun u => decide (u < 2)) replacedLeader).any
        (fun w => (w.boot.unit 0).addedToQuorum) = true := by decide
  cases hw : replay (QuorumWorld.step controllersOnly) (QuorumWorld.orderly controllersOnly)
      (.initial fun u => decide (u < 2)) replacedLeader with
  | none =>
    rw [hw] at hran
    cases hran
  | some w =>
    rw [hw, Option.any_some] at hran
    have hreach := Reaches.replay _ _ _ _ hw
    exact ⟨w, hreach, hran, (quorum_members_agree hreach).2.2.1 0 hran⟩

/-- The first leader is not noted. If another unit leads and it goes before its next
update-status, it stays a voter. -/
example :
    (replay (QuorumWorld.step controllersOnly) anyStep (.initial fun u => decide (u < 2))
      [.elected 0, .start 0 true ⟨"dir0", by decide⟩ ⟨"x", by decide⟩,
        .start 1 true ⟨"y", by decide⟩ ⟨"dir1", by decide⟩, .updateStatus 1 [.done], .elected 1,
        .departed 0 [.done]]).any (fun w => decide ((w.boot.unit 0).present = false ∧
          w.voters = [(0, "dir0".toList), (1, "dir1".toList)])) = true := by decide

/-- A removal that times out leaves a voter, which the next unit with this number is taken
for: it is noted as a member with a directory id that is not the one of the voter. -/
example :
    (replay (QuorumWorld.step controllersOnly) anyStep (.initial fun u => decide (u < 2))
      [.elected 0, .start 0 true ⟨"dir0", by decide⟩ ⟨"x", by decide⟩,
        .start 1 true ⟨"y", by decide⟩ ⟨"dir1", by decide⟩, .updateStatus 1 [.done],
        .departed 1 [.timeout false], .joins 1,
        .start 1 true ⟨"z", by decide⟩ ⟨"dir2", by decide⟩, .updateStatus 1 [.duplicate]]).any
      (fun w => decide ((w.boot.unit 1).addedToQuorum = true ∧
        (w.boot.unit 1).metadataDirectoryId = "dir2".toList ∧
        w.voters = [(0, "dir0".toList), (1, "dir1".toList)])) = true := by decide

end KafkaCharm
