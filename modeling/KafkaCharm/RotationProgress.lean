import KafkaCharm.RotationSafety

/-! A rotating unit waits until the other application trusts its new bundle. When both rotate, the
brokers go first, which they know from the `peer-cluster-rotate` flag of the controllers. Where
the controller leader rotates and the flag is not set, both sides wait for good:
`_tls_relation_broken` does not set it. -/

namespace KafkaCharm

variable {d : Deployment} {s t : PeerTls} {x y : UnitId}

/-! ## Deadlock -/

/-- What the charm does by itself: no certificate comes or goes, and the service
restarts on request only. -/
def TlsEvent.isInternal : TlsEvent → Bool
  | .certificateAvailable _ _ _ | .relationBroken _ _ _ | .reboot _ => false
  | .configChanged _ _ | .updateStatus _ _ | .restart _ _ | .peerClusterChanged _ _
  | .deliverUnit _ _ | .deliverApp _ | .tick => true

def byItself (_ : PeerTls) (e : TlsEvent) : Prop := e.isInternal = true

/-- All that is published has been delivered. -/
def Delivered (d : Deployment) (s : PeerTls) : Prop :=
  ∀ b, ∀ i < d.size b, (s.unit (b, i)).remote = s.app b.other ∧
    ∀ j < d.size b, j ≠ i → (s.unit (b, i)).peers j = (s.unit (b, j)).databag

/-- Units of both applications rotate, and all that do defer. -/
structure Blocked (d : Deployment) (s : PeerTls) : Prop where
  rotating : ∀ b, ∃ i < d.size b, (s.unit (b, i)).databag.rotate = true
  deferring : ∀ x, d.Has x → (s.unit x).databag.rotate = true → s.defers d x = true

/-- Both leaders have published their bundles, all is delivered, and neither
application trusts the other's new bundle. -/
structure Stuck (d : Deployment) (s : PeerTls) : Prop extends Blocked d s where
  published : ∀ b, (s.app b).ca = (s.unit (d.leaderOf b)).certs.bundle
  delivered : Delivered d s
  untrusted : ∀ x, d.Has x → (s.unit x).databag.rotate = true →
    (s.unit x).peerClusterAppTrustsNewBundle d.toCerts = false

/-- The applications are stuck, and nothing the charm does can change that. -/
def Deadlocked (d : Deployment) (s : PeerTls) : Prop :=
  Stuck d s ∧ ∀ t, Runs.Reaches (tlsStep d) byItself s t → Blocked d t

/-! ## What a handler does to the rotation state -/

/-- The rotation state and what it is decided from are as before. -/
structure SameRotation (s t : PeerTls) : Prop where
  rotate : ∀ y, (t.unit y).databag.rotate = (s.unit y).databag.rotate
  certs : ∀ y, (t.unit y).certs = (s.unit y).certs
  remote : ∀ y, (t.unit y).remote = (s.unit y).remote
  peers : ∀ y, (t.unit y).peers = (s.unit y).peers
  app : ∀ b, (t.app b).rotate = (s.app b).rotate

theorem SameRotation.trans {u : PeerTls} (h : SameRotation s t) (h' : SameRotation t u) :
    SameRotation s u where
  rotate y := (h'.rotate y).trans (h.rotate y)
  certs y := (h'.certs y).trans (h.certs y)
  remote y := (h'.remote y).trans (h.remote y)
  peers y := (h'.peers y).trans (h.peers y)
  app b := (h'.app b).trans (h.app b)

theorem SameRotation.setUnit {u : PeerUnit} (hrotate : u.databag.rotate = (s.unit x).databag.rotate)
    (hcerts : u.certs = (s.unit x).certs) (hremote : u.remote = (s.unit x).remote)
    (hpeers : u.peers = (s.unit x).peers) : SameRotation s (s.setUnit x u) := by
  have hunit : ∀ {α : Type} (f : PeerUnit → α), f u = f (s.unit x) →
      ∀ y, f ((s.setUnit x u).unit y) = f (s.unit y) := by
    intro α f hf y
    rw [PeerTls.setUnit_unit]
    split
    · rename_i heq
      rw [hf, heq]
    · rfl
  exact ⟨hunit (·.databag.rotate) hrotate, hunit PeerUnit.certs hcerts,
    hunit PeerUnit.remote hremote, hunit PeerUnit.peers hpeers, fun _ => rfl⟩

theorem SameRotation.setApp {b : App} {data : AppData} (hrotate : data.rotate = (s.app b).rotate) :
    SameRotation s (s.setApp b data) := by
  refine ⟨fun _ => rfl, fun _ => rfl, fun _ => rfl, fun _ => rfl, ?_⟩
  intro c
  rw [PeerTls.setApp_app]
  split
  · rename_i heq
    rw [hrotate, heq]
  · rfl

theorem SameRotation.refl (s : PeerTls) : SameRotation s s :=
  ⟨fun _ => rfl, fun _ => rfl, fun _ => rfl, fun _ => rfl, fun _ => rfl⟩

theorem publishCa_same (d : Deployment) (s : PeerTls) (x : UnitId) :
    SameRotation s (s.publishCa d x) := by
  unfold PeerTls.publishCa
  split
  · exact .setApp rfl
  · exact .refl s

theorem updatePeerTruststoreState_same (d : Deployment) (s : PeerTls) (x : UnitId) (force : Bool) :
    SameRotation s (s.updatePeerTruststoreState d x force) := by
  have hunit : SameRotation s (s.setUnit x { s.unit x with
      databag := { (s.unit x).databag with trusted := (s.unit x).truststore.certs } }) :=
    .setUnit rfl rfl rfl rfl
  unfold PeerTls.updatePeerTruststoreState
  simp only []
  split
  · exact .refl s
  · split
    · exact .refl s
    · unfold PeerTls.publishTrust
      simp only []
      split
      · exact hunit.trans (.setApp rfl)
      · exact hunit

theorem unitTlsRotate_same (d : Deployment) (s : PeerTls) (x : UnitId) :
    SameRotation s (s.unitTlsRotate d x) :=
  (updatePeerTruststoreState_same d s x false).trans (.setUnit rfl rfl rfl rfl)

theorem SameRotation.seen_rotate (h : SameRotation s t) (x : UnitId) (j : Nat) :
    (t.seen x j).rotate = (s.seen x j).rotate := by
  unfold PeerTls.seen
  split
  · exact h.rotate x
  · rw [h.peers x]

theorem SameRotation.anyRotating (h : SameRotation s t) (x : UnitId) :
    t.anyRotating d x = s.anyRotating d x := by
  unfold PeerTls.anyRotating
  simp only [h.seen_rotate]

theorem SameRotation.defers (h : SameRotation s t) (x : UnitId) :
    t.defers d x = s.defers d x := by
  unfold PeerTls.defers PeerTls.bothSidesRotating PeerUnit.peerClusterAppTrustsNewBundle
  rw [h.rotate x, h.certs x, h.remote x, h.anyRotating x]

theorem publishRotate_app (d : Deployment) (s : PeerTls) (x : UnitId) (value : Bool) (c : App) :
    ((s.publishRotate d x value).app c).rotate =
      if x = d.leaderOf c then value else (s.app c).rotate := by
  unfold PeerTls.publishRotate
  by_cases hleader : x.2 = d.leader x.1
  · rw [if_pos hleader, PeerTls.setApp_app]
    by_cases hc : c = x.1
    · have hx : x = d.leaderOf c := by
        rw [hc, Deployment.leaderOf, ← hleader]
      rw [if_pos hc, if_pos hx]
    · have hx : x ≠ d.leaderOf c := fun heq => hc (congrArg Prod.fst heq).symm
      rw [if_neg hc, if_neg hx]
  · have hx : x ≠ d.leaderOf c := by
      intro heq
      rw [heq] at hleader
      exact hleader rfl
    rw [if_neg hleader, if_neg hx]

theorem publishRotate_unit (d : Deployment) (s : PeerTls) (x : UnitId) (value : Bool) :
    (s.publishRotate d x value).unit = s.unit := by
  unfold PeerTls.publishRotate
  split
  · rfl
  · rfl

/-- A unit that proceeds has rotated, and its leader tells whether others still do. -/
theorem proceed_spec (d : Deployment) (s : PeerTls) (x : UnitId) (restart : Bool) :
    ((s.proceed d x restart).unit x).databag.rotate = false ∧
      (∀ y, y ≠ x → (s.proceed d x restart).unit y = s.unit y) ∧
      (∀ c, x ≠ d.leaderOf c → ((s.proceed d x restart).app c).rotate = (s.app c).rotate) ∧
      ∀ c, x = d.leaderOf c →
        (∃ j < d.size c, j ≠ x.2 ∧ ((s.unit x).peers j).rotate = true) →
          ((s.proceed d x restart).app c).rotate = true := by
  let requested := s.setUnit x { s.unit x with
    restartRequested := (s.unit x).restartRequested || restart || (s.unit x).databag.rotate
    databag := { (s.unit x).databag with rotate := false } }
  obtain ⟨published, hsame, hunit, hproceed⟩ : ∃ published : PeerTls,
      SameRotation requested published ∧ published.unit = requested.unit ∧
        s.proceed d x restart = published.publishRotate d x (published.anyRotating d x) := by
    by_cases hb : x.1 = .broker
    · refine ⟨requested.publishCa d x, publishCa_same d requested x, ?_, ?_⟩
      · unfold PeerTls.publishCa
        split <;> rfl
      · simp only [PeerTls.proceed, if_pos hb]
        rfl
    · refine ⟨requested, .refl _, rfl, ?_⟩
      simp only [PeerTls.proceed, if_neg hb]
      rfl
  rw [hproceed, publishRotate_unit, hunit]
  refine ⟨?_, ?_, ?_, ?_⟩
  · exact congrArg (·.databag.rotate) (PeerTls.setUnit_self s x _)
  · intro y hy
    exact (PeerTls.setUnit_unit s x _ y).trans (if_neg hy)
  · intro c hc
    rw [publishRotate_app, if_neg hc]
    exact hsame.app c
  · intro c hc ⟨j, hj, hne, hrot⟩
    rw [publishRotate_app, if_pos hc, hsame.anyRotating x]
    refine List.any_eq_true.mpr ⟨j, List.mem_range.mpr ?_, ?_⟩
    · rw [hc]
      exact hj
    · unfold PeerTls.seen
      rw [if_neg hne]
      exact (congrArg (fun u : PeerUnit => (u.peers j).rotate)
        (PeerTls.setUnit_self s x _)).trans hrot

/-! ## Runs in which the fallback is announced -/

/-- A controller leader that rotates has set the flag. -/
def RotationAnnounced (d : Deployment) (s : PeerTls) : Prop :=
  (s.unit (d.leaderOf .controller)).databag.rotate = true → (s.app .controller).rotate = true

/-- When the controller leader falls back to the internal CA, its flag is set already
or the brokers trust that CA already. -/
def announcedFallback (d : Deployment) (s : PeerTls) : TlsEvent → Prop
  | .relationBroken x _ _ => x = d.leaderOf .controller →
    (s.app .controller).rotate = true ∨
      Cert.authority (d.internalCa .controller) ∈ (s.unit x).remote.trust
  | _ => True

theorem RotationAnnounced.congr (h : RotationAnnounced d s)
    (hrotate : (t.unit (d.leaderOf .controller)).databag.rotate =
      (s.unit (d.leaderOf .controller)).databag.rotate)
    (happ : (t.app .controller).rotate = (s.app .controller).rotate) : RotationAnnounced d t := by
  unfold RotationAnnounced
  rw [hrotate, happ]
  exact h

theorem RotationAnnounced.same (h : RotationAnnounced d s) (hsame : SameRotation s t) :
    RotationAnnounced d t :=
  h.congr (hsame.rotate _) (hsame.app _)

theorem RotationAnnounced.proceed (h : x = d.leaderOf .controller ∨ RotationAnnounced d s)
    (restart : Bool) : RotationAnnounced d (s.proceed d x restart) := by
  obtain ⟨hself, hunits, happ, _⟩ := proceed_spec d s x restart
  by_cases hx : x = d.leaderOf .controller
  · intro hrot
    rw [← hx, hself] at hrot
    cases hrot
  · apply (h.resolve_left hx).congr
    · rw [hunits _ (Ne.symm hx)]
    · exact happ .controller hx

theorem RotationAnnounced.configChanged (h : RotationAnnounced d s) (pc : Bool) :
    RotationAnnounced d (s.configChanged d x pc) := by
  have hrotate := h.same (unitTlsRotate_same d s x)
  unfold PeerTls.configChanged
  simp only []
  split
  · exact hrotate
  · exact RotationAnnounced.proceed (.inr hrotate) _

theorem RotationAnnounced.certificateAvailable (h : RotationAnnounced d s) (certs : PeerCerts)
    (pc : Bool) : RotationAnnounced d (s.certificateAvailable d x certs pc) := by
  let installed := (s.setUnit x ((s.unit x).handleCertificateAvailable d.toCerts s.now certs)).publishCa d x
  have hsame : SameRotation _ installed := publishCa_same d _ x
  unfold PeerTls.certificateAvailable
  apply RotationAnnounced.configChanged
  by_cases hx : x = d.leaderOf .controller
  · split
    · intro _
      rw [publishRotate_app, if_pos hx]
    · rename_i hrot
      intro hrot'
      rw [← hx] at hrot'
      exact absurd hrot' hrot
  · have hinstalled : RotationAnnounced d installed := by
      apply RotationAnnounced.same _ hsame
      apply h.congr
      · rw [PeerTls.setUnit_unit, if_neg (Ne.symm hx)]
      · rfl
    split
    · apply hinstalled.congr
      · rw [publishRotate_unit]
      · rw [publishRotate_app, if_neg hx]
    · exact hinstalled

/-- A unit whose bundle the other application trusts does not defer. -/
theorem defers_of_trusted (h : (s.unit x).peerClusterAppTrustsNewBundle d.toCerts = true) :
    s.defers d x = false := by
  unfold PeerTls.defers
  rw [h]
  simp

theorem RotationAnnounced.relationBroken (h : RotationAnnounced d s) (serial : Nat) (pc : Bool)
    (hok : x = d.leaderOf .controller → (s.app .controller).rotate = true ∨
      Cert.authority (d.internalCa .controller) ∈ (s.unit x).remote.trust) :
    RotationAnnounced d (s.relationBroken d x serial pc) := by
  let certs : PeerCerts := ⟨.leaf serial, d.internalCa x.1, []⟩
  let installed := s.setUnit x ((s.unit x).install d.toCerts s.now certs true true)
  have hsame : SameRotation installed (installed.publishCa d x) := publishCa_same d _ x
  unfold PeerTls.relationBroken
  by_cases hx : x = d.leaderOf .controller
  · cases hok hx with
    | inl hflag =>
      apply RotationAnnounced.configChanged
      intro _
      rw [hsame.app]
      exact hflag
    | inr htrust =>
      -- the bundle is trusted, so the handler proceeds and the unit has rotated
      have hrotated := hsame.trans (unitTlsRotate_same d (installed.publishCa d x) x)
      have hunit : installed.unit x = (s.unit x).install d.toCerts s.now certs true true :=
        PeerTls.setUnit_self s x _
      have hbundle : (installed.unit x).peerClusterAppTrustsNewBundle d.toCerts = true := by
        rw [hunit]
        unfold PeerUnit.peerClusterAppTrustsNewBundle PeerUnit.install
        rw [List.all_eq_true]
        intro c hc
        have hc' : c = .leaf serial ∨ c = .authority (d.internalCa x.1) := by
          simpa [certs, PeerCerts.bundle, List.mem_eraseDups] using hc
        cases hc' with
        | inl hleaf =>
          have hvalid : d.isValidLeafCertificate c = true := hleaf ▸ d.leaf serial
          rw [hvalid, Bool.true_or]
        | inr hca =>
          have hxc : x.1 = .controller := congrArg Prod.fst hx
          have hrecognised : d.recognises (s.unit x).remote.trust c = true := by
            rw [hca, hxc]
            exact Certs.recognises_iff.mpr ⟨d.internalCa_signed .controller, htrust⟩
          rw [hrecognised, Bool.or_true]
      have hdefers : ((installed.publishCa d x).unitTlsRotate d x).defers d x = false := by
        rw [hrotated.defers]
        exact defers_of_trusted hbundle
      unfold PeerTls.configChanged
      simp only []
      rw [if_neg]
      · exact RotationAnnounced.proceed (.inl hx) _
      · intro hd
        exact absurd (hd.symm.trans hdefers) (by decide)
  · apply RotationAnnounced.configChanged
    apply RotationAnnounced.same _ hsame
    apply h.congr
    · rw [PeerTls.setUnit_unit, if_neg (Ne.symm hx)]
    · rfl

theorem step_announced {e : TlsEvent} (h : RotationAnnounced d s) (hok : announcedFallback d s e)
    (hstep : tlsStep d s e = some t) : RotationAnnounced d t := by
  unfold tlsStep at hstep
  by_cases hen : s.enabled d e = true
  · rw [if_pos hen] at hstep
    obtain rfl := Option.some.inj hstep
    cases e with
    | certificateAvailable x certs pc => exact h.certificateAvailable certs pc
    | relationBroken x serial pc => exact h.relationBroken serial pc hok
    | configChanged x pc => exact h.configChanged pc
    | updateStatus x pc =>
      have hconfig : RotationAnnounced d (s.configChanged d x pc) := h.configChanged pc
      simp only [PeerTls.handle, PeerTls.updateStatus]
      split
      · exact hconfig.same (.setUnit rfl rfl rfl rfl)
      · exact hconfig
    | restart x healthy =>
      have hreload := h.same (SameRotation.setUnit (x := x)
        (u := { (s.unit x).reload s.now with restartRequested := !healthy }) rfl rfl rfl rfl)
      simp only [PeerTls.handle, PeerTls.restartBroker]
      split
      · exact hreload.same (updatePeerTruststoreState_same d _ x true)
      · exact hreload
    | reboot x => exact h.same (.setUnit rfl rfl rfl rfl)
    | peerClusterChanged x pc =>
      simp only [PeerTls.handle, PeerTls.peerClusterChanged]
      split
      · exact (h.same (publishCa_same d s x)).configChanged pc
      · exact h
    | deliverUnit x j =>
      apply h.congr
      · simp only [PeerTls.handle, PeerTls.setUnit_unit]
        split
        · rename_i heq
          rw [heq]
        · rfl
      · rfl
    | deliverApp x =>
      apply h.congr
      · simp only [PeerTls.handle, PeerTls.setUnit_unit]
        split
        · rename_i heq
          rw [heq]
        · rfl
      · rfl
    | tick => exact h
  · rw [if_neg hen] at hstep
    cases hstep

/-- A rotating broker that defers has not seen the flag of the controllers. -/
theorem broker_defers {i : Nat} (hi : i < d.size .broker)
    (hrot : (s.unit (.broker, i)).databag.rotate = true)
    (hdefers : s.defers d (.broker, i) = true) : (s.unit (.broker, i)).remote.rotate = false := by
  have hany : s.anyRotating d (.broker, i) = true := by
    refine List.any_eq_true.mpr ⟨i, List.mem_range.mpr hi, ?_⟩
    unfold PeerTls.seen
    rw [if_pos rfl]
    exact hrot
  unfold PeerTls.defers PeerTls.bothSidesRotating at hdefers
  rw [hany] at hdefers
  simp only [Bool.and_true, Bool.and_eq_true] at hdefers
  simpa using hdefers.2

/-- A leader that does not rotate handles a config-changed, and tells that another
unit does. -/
theorem leader_tells {c : App} (hleader : (s.unit (d.leaderOf c)).databag.rotate = false) {j : Nat}
    (hj : j < d.size c) (hne : j ≠ d.leader c)
    (hrot : ((s.unit (d.leaderOf c)).peers j).rotate = true) (pc : Bool) :
    ((s.configChanged d (d.leaderOf c) pc).app c).rotate = true ∧
      ∀ y, y ≠ d.leaderOf c → ((s.configChanged d (d.leaderOf c) pc).unit y).databag.rotate =
        (s.unit y).databag.rotate := by
  have hsame := unitTlsRotate_same d s (d.leaderOf c)
  have hdefers : (s.unitTlsRotate d (d.leaderOf c)).defers d (d.leaderOf c) = false := by
    rw [hsame.defers]
    unfold PeerTls.defers
    rw [hleader]
    rfl
  obtain ⟨_, hunits, _, happ⟩ := proceed_spec d (s.unitTlsRotate d (d.leaderOf c)) (d.leaderOf c)
    (pc || s.certsUpdated d (d.leaderOf c))
  simp only [PeerTls.configChanged, hdefers]
  constructor
  · refine happ c rfl ⟨j, hj, hne, ?_⟩
    rw [hsame.peers]
    exact hrot
  · intro y hy
    exact (congrArg (·.databag.rotate) (hunits y hy)).trans (hsame.rotate y)

theorem enabled_configChanged (hx : d.Has x) (pc : Bool) :
    tlsStep d s (.configChanged x pc) = some (s.configChanged d x pc) := by
  simp [tlsStep, PeerTls.enabled, TlsEvent.on, PeerTls.handle, hx]

theorem enabled_deliverApp (hx : d.Has x) : tlsStep d s (.deliverApp x) =
    some (s.setUnit x { s.unit x with remote := s.app x.1.other }) := by
  simp [tlsStep, PeerTls.enabled, TlsEvent.on, PeerTls.handle, hx]

/-- Where the rotation of the controllers is announced, the charm gets out by itself:
the controller leader tells that its units rotate, and a broker goes first. -/
theorem announced_not_deadlocked (h : RotationAnnounced d s) : ¬Deadlocked d s := by
  intro ⟨hstuck, hblocked⟩
  obtain ⟨i, hi, hbroker⟩ := hstuck.rotating .broker
  obtain ⟨j, hj, hcontroller⟩ := hstuck.rotating .controller
  have hflag : (s.app .controller).rotate = false := by
    have hseen := broker_defers hi hbroker (hstuck.deferring (.broker, i) hi hbroker)
    rw [(hstuck.delivered .broker i hi).1] at hseen
    exact hseen
  have hleader : (s.unit (d.leaderOf .controller)).databag.rotate = false := by
    rw [← Bool.not_eq_true]
    intro hrot
    rw [h hrot] at hflag
    cases hflag
  have hne : j ≠ d.leader .controller := by
    rintro rfl
    exact absurd (hcontroller.symm.trans hleader) (by decide)
  have hpeer : (s.unit (d.leaderOf .controller)).peers j = (s.unit (.controller, j)).databag :=
    (hstuck.delivered .controller _ (d.leader_lt .controller)).2 j hj hne
  obtain ⟨htold, hothers⟩ := leader_tells hleader hj hne (hpeer ▸ hcontroller) false
  have hrot : ((s.configChanged d (d.leaderOf .controller) false).unit (.broker, i)).databag.rotate =
      true := by
    rw [hothers]
    · exact hbroker
    · exact fun heq => App.noConfusion (congrArg Prod.fst heq)
  -- once the flag of the controllers is delivered, the broker no longer defers
  have hrun : Runs.Reaches (tlsStep d) byItself s
      (s.configChanged d (d.leaderOf .controller) false) :=
    .next (.configChanged (d.leaderOf .controller) false) .start rfl
      (enabled_configChanged (d.has_leaderOf .controller) false)
  have hhas : d.Has (.broker, i) := hi
  have hrun' := hrun.next (TlsEvent.deliverApp (.broker, i)) rfl (enabled_deliverApp hhas)
  have hafter := (hblocked _ hrun').deferring (.broker, i) hi
  rw [PeerTls.setUnit_self] at hafter
  have hseen := broker_defers hi (by rw [PeerTls.setUnit_self]; exact hrot) (hafter hrot)
  rw [PeerTls.setUnit_self] at hseen
  exact absurd (htold.symm.trans hseen) (by decide)

/-- Along every run in which the fallback of the controller leader is announced, the
two applications never wait for each other for good. -/
theorem announced_never_deadlocked (hstart : RotationAnnounced d s)
    (hrun : Runs.Reaches (tlsStep d) (announcedFallback d) s t) : ¬Deadlocked d t :=
  announced_not_deadlocked (hrun.invariant hstart fun _ _ _ h hok hstep => step_announced h hok hstep)

/-! ## A state that nothing changes -/

/-- Every unit rotates and defers, and none has anything left to import, to publish or
to restart for. -/
def Quiescent (d : Deployment) (s : PeerTls) : Prop :=
  Delivered d s ∧ (∀ b, (s.app b).ca = (s.unit (d.leaderOf b)).certs.bundle) ∧
    ∀ b, ∀ i < d.size b, s.defers d (b, i) = true ∧
      (s.unit (b, i)).lastRestart ≤ (s.unit (b, i)).modifyTime ∧
      (∀ c ∈ (s.unit (b, i)).remote.ca,
        d.recognises (s.unit (b, i)).truststore.certs c = true) ∧
      (s.unit (b, i)).restartRequested = false

instance : Decidable (Delivered d s) := inferInstanceAs (Decidable (∀ _, _))

instance : Decidable (Quiescent d s) := inferInstanceAs (Decidable (_ ∧ _))

theorem setUnit_same (s : PeerTls) (x : UnitId) : s.setUnit x (s.unit x) = s :=
  congrArg (fun f => { s with unit := f }) (Function.update_eq_self x s.unit)

namespace Quiescent

variable (h : Quiescent d s)

include h

theorem configChanged (hx : d.Has x) (pc : Bool) : s.configChanged d x pc = s := by
  obtain ⟨hdefers, hrestart, htrusted, _⟩ := h.2.2 x.1 x.2 hx
  have htruststore : s.updatePeerTruststoreState d x false = s := by
    unfold PeerTls.updatePeerTruststoreState
    simp only []
    split
    · rfl
    · rw [if_pos]
      simpa using hrestart
  have himport : (s.unit x).updatePeerClusterTrust d.toCerts s.now = s.unit x := by
    unfold PeerUnit.updatePeerClusterTrust
    rw [Truststore.updatePeerClusterTrust_of_recognised htrusted,
      if_pos (List.all_eq_true.mpr htrusted)]
  have hrotate : s.unitTlsRotate d x = s := by
    unfold PeerTls.unitTlsRotate
    simp only [htruststore]
    rw [himport]
    exact setUnit_same s x
  unfold PeerTls.configChanged
  simp only [hrotate]
  exact if_pos hdefers

theorem publishCa : s.publishCa d x = s := by
  unfold PeerTls.publishCa
  split
  · rename_i hleader
    have hca : (s.unit x).certs.bundle = (s.app x.1).ca := by
      rw [h.2.1 x.1, Deployment.leaderOf, ← hleader]
    rw [hca]
    exact congrArg (fun f => { s with app := f }) (Function.update_eq_self x.1 s.app)
  · rfl

theorem cleansUp (hx : d.Has x) : s.cleansUp d x = false := by
  have hdefers := (h.2.2 x.1 x.2 hx).1
  rw [← Bool.not_eq_true]
  intro hclean
  have htrusts : (s.unit x).peerClusterAppTrustsNewBundle d.toCerts = true := by
    refine List.all_eq_true.mpr fun c hc => ?_
    cases hca : d.isValidLeafCertificate c with
    | true => rfl
    | false =>
      have htrust := (cleansUp_trusts hclean (List.mem_append_left _ hc) hca).2
      rw [htrust, Bool.or_true]
  exact absurd (hdefers.symm.trans (defers_of_trusted htrusts)) (by decide)

/-- Only time goes on. -/
theorem step {e : TlsEvent} (he : e.isInternal = true) (hstep : tlsStep d s e = some t) :
    ∃ now, t = { s with now := now } := by
  unfold tlsStep at hstep
  by_cases hen : s.enabled d e = true
  · rw [if_pos hen] at hstep
    obtain rfl := Option.some.inj hstep
    unfold PeerTls.enabled at hen
    rw [Bool.and_eq_true] at hen
    cases e with
    | certificateAvailable x certs pc => cases he
    | relationBroken x serial pc => cases he
    | reboot x => cases he
    | configChanged x pc => exact ⟨s.now, h.configChanged (of_decide_eq_true hen.1) pc⟩
    | updateStatus x pc =>
      have hx : d.Has x := of_decide_eq_true hen.1
      refine ⟨s.now, ?_⟩
      simp only [PeerTls.handle, PeerTls.updateStatus, h.configChanged hx pc, h.cleansUp hx]
      rfl
    | restart x healthy =>
      have hx : d.Has x := of_decide_eq_true hen.1
      have hnot := (h.2.2 x.1 x.2 hx).2.2.2
      exact absurd (hen.2.symm.trans hnot) (by decide)
    | peerClusterChanged x pc =>
      have hx : d.Has x := of_decide_eq_true hen.1
      refine ⟨s.now, ?_⟩
      simp only [PeerTls.handle, PeerTls.peerClusterChanged, h.publishCa, h.configChanged hx pc]
      split <;> rfl
    | deliverUnit x j =>
      have hx : d.Has x := of_decide_eq_true hen.1
      obtain ⟨hj, hne⟩ := of_decide_eq_true hen.2
      refine ⟨s.now, ?_⟩
      have hsame : Function.update (s.unit x).peers j (s.unit (x.1, j)).databag =
          (s.unit x).peers := by
        rw [← (h.1 x.1 x.2 hx).2 j hj hne]
        exact Function.update_eq_self j _
      simp only [PeerTls.handle, hsame]
      exact setUnit_same s x
    | deliverApp x =>
      have hx : d.Has x := of_decide_eq_true hen.1
      refine ⟨s.now, ?_⟩
      simp only [PeerTls.handle]
      rw [← (h.1 x.1 x.2 hx).1]
      exact setUnit_same s x
    | tick => exact ⟨s.now + 1, rfl⟩
  · rw [if_neg hen] at hstep
    cases hstep

theorem blocked : Blocked d s := by
  constructor
  · intro b
    have hdefers := (h.2.2 b _ (d.leader_lt b)).1
    unfold PeerTls.defers at hdefers
    simp only [Bool.and_eq_true] at hdefers
    exact ⟨d.leader b, d.leader_lt b, hdefers.1.1⟩
  · intro x hx _
    exact (h.2.2 x.1 x.2 hx).1

/-- A quiescent state is a deadlock. -/
theorem deadlocked : Deadlocked d s := by
  constructor
  · refine ⟨h.blocked, h.2.1, h.1, ?_⟩
    intro x hx _
    have hdefers := (h.2.2 x.1 x.2 hx).1
    unfold PeerTls.defers at hdefers
    simp only [Bool.and_eq_true, Bool.not_eq_true'] at hdefers
    exact hdefers.1.2
  · intro t hrun
    have hsame : ∃ now, t = { s with now := now } := by
      apply hrun.invariant (I := fun t => ∃ now, t = { s with now := now })
      · exact ⟨s.now, rfl⟩
      · rintro _ e b ⟨now, rfl⟩ he hstep
        have hquiet : Quiescent d { s with now := now } := h
        obtain ⟨now', rfl⟩ := hquiet.step he hstep
        exact ⟨now', rfl⟩
    obtain ⟨now, rfl⟩ := hsame
    have hquiet : Quiescent d { s with now := now } := h
    exact hquiet.blocked

end Quiescent

/-! ## One broker and one controller -/

def oneEach : Deployment where
  toCerts := usualCerts
  internalCa := internalCas
  internalCa_signed := internalCas_signed
  size := fun _ => 1
  leader := fun _ => 0
  leader_lt := fun _ => Nat.one_pos

/-- Both get a new CA, and the broker goes first. -/
def bothRotate : List TlsEvent :=
  [.certificateAvailable (.broker, 0) ⟨.leaf 30, 3, []⟩ false,
    .certificateAvailable (.controller, 0) ⟨.leaf 40, 4, []⟩ false,
    .relationBroken (.controller, 0) 41 false,
    .deliverApp (.broker, 0), .deliverApp (.controller, 0)]

instance (d : Deployment) (s : PeerTls) : (e : TlsEvent) → Decidable (announcedFallback d s e)
  | .relationBroken x _ _ =>
    inferInstanceAs (Decidable (x = d.leaderOf .controller → (s.app .controller).rotate = true ∨
      Cert.authority (d.internalCa .controller) ∈ (s.unit x).remote.trust))
  | .certificateAvailable _ _ _ | .configChanged _ _ | .updateStatus _ _ | .restart _ _ | .reboot _
  | .peerClusterChanged _ _ | .deliverUnit _ _ | .deliverApp _ | .tick => .isTrue trivial

theorem announced_fallback_not_deadlocked :
    ∃ t, Runs.Reaches (tlsStep oneEach) (announcedFallback oneEach) settledSystem t ∧
      t.defers oneEach (.controller, 0) = true ∧ ¬Deadlocked oneEach t := by
  have hreplay : (Runs.replay (tlsStep oneEach) (announcedFallback oneEach) settledSystem
      bothRotate).any (fun t => t.defers oneEach (.controller, 0)) = true := by
    decide +kernel
  obtain ⟨t, ht, hdefers⟩ := (Option.any_eq_true _ _).mp hreplay
  have hrun := Runs.Reaches.replay _ _ _ _ ht
  exact ⟨t, hrun, hdefers, announced_never_deadlocked (fun h => by cases h) hrun⟩

/-- The broker gets a certificate of a new CA, and the controller loses its TLS
relation. -/
def silentFallback : List TlsEvent :=
  [.certificateAvailable (.broker, 0) ⟨.leaf 30, 3, []⟩ false,
    .relationBroken (.controller, 0) 40 false,
    .deliverApp (.broker, 0), .deliverApp (.controller, 0),
    .configChanged (.broker, 0) false, .configChanged (.controller, 0) false]

theorem silent_fallback_deadlocks :
    ∃ t, Runs.Reaches (tlsStep oneEach) Runs.anyStep settledSystem t ∧ Deadlocked oneEach t := by
  have hreplay : (Runs.replay (tlsStep oneEach) Runs.anyStep settledSystem silentFallback).any
      (fun t => decide (Quiescent oneEach t)) = true := by
    decide +kernel
  obtain ⟨t, ht, hquiet⟩ := (Option.any_eq_true _ _).mp hreplay
  exact ⟨t, Runs.Reaches.replay _ _ _ _ ht, Quiescent.deadlocked (of_decide_eq_true hquiet)⟩

end KafkaCharm
