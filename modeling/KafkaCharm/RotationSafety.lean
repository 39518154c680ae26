import KafkaCharm.Rotation

/-! On update-status a unit with temporary aliases rebuilds its truststore once both applications
trust its bundle and the remote one. The check reads which CAs are trusted, not which are
presented. It is right about the latter as long as a CA becomes trusted through its rotation only. -/

namespace KafkaCharm

variable {d : Deployment} {s t : PeerTls} {x y : UnitId} {a : App} {old new other : Nat}

/-! ## Runs -/

/-- Each application has one CA, which all its units present and the other knows. -/
def Uniform (d : Deployment) (s : PeerTls) : Prop :=
  ∀ b, ∀ i < d.size b,
    (s.unit (b, i)).certs.ca = (s.unit (d.leaderOf b)).certs.ca ∧
    (s.unit (b, i)).presented.ca = (s.unit (d.leaderOf b)).certs.ca ∧
    Cert.authority (s.unit (d.leaderOf b.other)).certs.ca ∈ (s.unit (b, i)).remote.ca

/-- No rotation is under way: no unit has temporary aliases, and each has seen the bundle of the
other application and recognises what it trusts as it. -/
def Settled (d : Deployment) (s : PeerTls) : Prop :=
  Uniform d s ∧ ∀ b, ∀ i < d.size b,
    (s.unit (b, i)).truststore.hasTemporaryAliases = false ∧
    (s.unit (b, i)).remote.ca = (s.app b.other).ca ∧
    ∀ c ∈ (s.unit (b, i)).remote.ca, d.recognises (s.unit (b, i)).truststore.certs c = true

/-- Nobody trusts the CA, has loaded it, or has seen it trusted. -/
def Unknown (d : Deployment) (s : PeerTls) (ca : Nat) : Prop :=
  (∀ b, ∀ i < d.size b,
    Cert.authority ca ∉ (s.unit (b, i)).truststore.certs ∧
    Cert.authority ca ∉ (s.unit (b, i)).loaded ∧
    Cert.authority ca ∉ (s.unit (b, i)).databag.trusted ∧
    (∀ j < d.size b, Cert.authority ca ∉ ((s.unit (b, i)).peers j).trusted) ∧
    Cert.authority ca ∉ (s.unit (b, i)).remote.trust) ∧
  ∀ b, Cert.authority ca ∉ (s.app b).trust

/-- A certificate of the CA may come to the unit: as a renewal while each application
has one CA, as the start of a rotation to an unknown CA while none is under way, or as
the next one of the rotation of its application. A rotation goes to no CA that passes for a
leaf, as one without the basic constraints extension does. -/
def deliverable (d : Deployment) (s : PeerTls) (x : UnitId) (ca : Nat) : Prop :=
  (ca = (s.unit x).certs.ca ∧ Uniform d s) ∨
  (Settled d s ∧ Unknown d s ca ∧ d.isValidLeafCertificate (.authority ca) = false) ∨
  (ca ≠ (s.unit x).certs.ca ∧ (s.unit x).truststore.hasTemporaryAliases = false ∧
    ∃ j < d.size x.1, (s.unit (x.1, j)).certs.ca = ca)

/-- Rotations come one at a time, each to a CA that nobody trusts yet. -/
def orderly (d : Deployment) (s : PeerTls) : TlsEvent → Prop
  | .certificateAvailable x certs _ => deliverable d s x certs.ca
  | .relationBroken x _ _ => deliverable d s x (d.internalCa x.1)
  | _ => True

instance (p : App → Prop) [DecidablePred p] : Decidable (∀ b, p b) :=
  decidable_of_iff (p .broker ∧ p .controller)
    ⟨fun h b => match b with | .broker => h.1 | .controller => h.2, fun h => ⟨h _, h _⟩⟩

instance : Decidable (Uniform d s) := inferInstanceAs (Decidable (∀ _, _))

instance : Decidable (Settled d s) := inferInstanceAs (Decidable (_ ∧ _))

instance (ca : Nat) : Decidable (Unknown d s ca) := inferInstanceAs (Decidable (_ ∧ _))

instance (ca : Nat) : Decidable (deliverable d s x ca) := inferInstanceAs (Decidable (_ ∨ _))

instance (d : Deployment) (s : PeerTls) : (e : TlsEvent) → Decidable (orderly d s e)
  | .certificateAvailable x certs _ => inferInstanceAs (Decidable (deliverable d s x certs.ca))
  | .relationBroken x _ _ => inferInstanceAs (Decidable (deliverable d s x (d.internalCa x.1)))
  | .configChanged _ _ | .updateStatus _ _ | .restart _ _ | .reboot _ | .peerClusterChanged _ _
  | .deliverUnit _ _ | .deliverApp _ | .tick => .isTrue trivial

theorem Rotating.of_uniform (hsound : s.Sound d) (hu : Uniform d s) (a : App) :
    Rotating d a (s.unit (d.leaderOf a)).certs.ca (s.unit (d.leaderOf a)).certs.ca
      (s.unit (d.leaderOf a.other)).certs.ca s := by
  have hturned : Turned d s a (s.unit (d.leaderOf a)).certs.ca := fun j hj => (hu a j hj).2.1
  refine ⟨hsound, .inl rfl, ?_, ?_, ?_, ?_⟩
  · intro j hj
    obtain ⟨hcerts, hpresented, hremote⟩ := hu a j hj
    exact {
      certs := .inl hcerts
      presented := .inl hpresented
      done := fun _ => hcerts
      disk := fun _ => hcerts
      loaded := fun _ => hpresented
      published := fun _ => hpresented
      seen := fun i hi _ => hturned i hi
      remote := hremote
      waiting := fun hne => absurd hcerts hne }
  · intro j hj
    obtain ⟨hcerts, hpresented, hremote⟩ := hu a.other j hj
    rw [App.other_other] at hremote
    exact {
      certs := hcerts
      presented := hpresented
      remote := .inl hremote
      waiting := fun hne => absurd hremote hne
      behind := fun hne => by
        rw [hsound.ca a] at hne
        exact absurd (PeerCerts.ca_mem_bundle _) hne
      trusted := fun _ => hturned }
  · exact fun _ => hturned
  · intro i hi _ ⟨j, hj, hold⟩
    exact absurd (hu a j hj).1 hold

/-- A settled system is ready to rotate either application to an unknown CA. -/
theorem Rotating.of_settled (hsound : s.Sound d) (hs : Settled d s) {ca : Nat}
    (hunknown : Unknown d s ca) (hca : d.isValidLeafCertificate (.authority ca) = false)
    (a : App) :
    Rotating d a (s.unit (d.leaderOf a)).certs.ca ca
      (s.unit (d.leaderOf a.other)).certs.ca s := by
  obtain ⟨hu, hquiet⟩ := hs
  obtain ⟨hunits, happ⟩ := hunknown
  refine ⟨hsound, .inr hca, ?_, ?_, ?_, ?_⟩
  · intro j hj
    obtain ⟨hcerts, hpresented, hremote⟩ := hu a j hj
    obtain ⟨hdisk, hloaded, hpublished, hseen, _⟩ := hunits a j hj
    exact {
      certs := .inl hcerts
      presented := .inl hpresented
      done := fun hp => hcerts.trans (hpresented.symm.trans hp)
      disk := fun hin => absurd hin hdisk
      loaded := fun hin => absurd hin hloaded
      published := fun hin => absurd hin hpublished
      seen := fun i hi hin => absurd hin (hseen i hi)
      remote := hremote
      waiting := fun _ => hquiet a j hj }
  · intro j hj
    obtain ⟨hcerts, hpresented, hremote⟩ := hu a.other j hj
    obtain ⟨htemp, hca, htrusted⟩ := hquiet a.other j hj
    rw [App.other_other] at hremote hca
    exact {
      certs := hcerts
      presented := hpresented
      remote := .inl hremote
      waiting := fun _ => ⟨htemp, htrusted⟩
      behind := fun _ => hca
      trusted := fun hin => absurd hin (hunits a.other j hj).2.2.2.2 }
  · exact fun hin => absurd hin (happ a)
  · intro i hi hnew ⟨j, hj, hold⟩
    exact absurd ((hu a j hj).1.trans ((hu a i hi).1.symm.trans hnew)) hold

/-- Whatever may be delivered belongs to a rotation of the unit's application. -/
theorem Rotating.of_deliverable (h : Rotating d a old new other s) (hx : d.Has x) {ca : Nat}
    (hd : deliverable d s x ca) :
    ∃ old' other', Rotating d x.1 old' ca other' s ∧
      (ca ≠ (s.unit x).certs.ca ∨ ∀ i < d.size x.1, (s.unit (x.1, i)).certs.ca = ca) := by
  obtain ⟨b, k⟩ := x
  rcases hd with ⟨hca, hu⟩ | ⟨hs, hunknown, hproper⟩ | ⟨hne, htemp, j, hj, hca⟩
  · have hrotating := Rotating.of_uniform h.sound hu b
    rw [(hu b k hx).1] at hca
    rw [← hca] at hrotating
    exact ⟨_, _, hrotating, .inr fun i hi => (hu b i hi).1.trans hca.symm⟩
  · refine ⟨_, _, Rotating.of_settled h.sound hs hunknown hproper b, ?_⟩
    by_cases hca : ca = (s.unit (b, k)).certs.ca
    · right
      intro i hi
      rw [(hs.1 b i hi).1, hca, (hs.1 b k hx).1]
    · exact .inl hca
  · cases App.eq_or_other a b with
    | inl hb =>
      subst hb
      obtain hnew : ca = new := by
        by_contra hold
        have hk : (s.unit (b, k)).certs.ca = new := by
          rcases (h.rotation.turning k hx).certs with hk | hk
          · rcases (h.rotation.turning j hj).certs with hj' | hj'
            · exact absurd (hca.symm.trans (hj'.trans hk.symm)) hne
            · exact absurd (hca.symm.trans hj') hold
          · exact hk
        have hkept := h.rotation.kept k hx hk ⟨j, hj, fun hj' => hold (hca.symm.trans hj')⟩
        rw [htemp] at hkept
        cases hkept
      subst hnew
      exact ⟨old, other, h, .inl hne⟩
    | inr hb =>
      subst hb
      have hsame := (h.rotation.steady j hj).certs.trans (h.rotation.steady k hx).certs.symm
      exact absurd (hca.symm.trans hsame) hne

/-- One step of an orderly run. -/
theorem step_rotating {e : TlsEvent} (h : Rotating d a old new other s) (hok : orderly d s e)
    (hstep : tlsStep d s e = some t) : ∃ a old new other, Rotating d a old new other t := by
  unfold tlsStep at hstep
  by_cases hen : s.enabled d e = true
  · rw [if_pos hen] at hstep
    obtain rfl := Option.some.inj hstep
    have hhas : ∀ x, e.on = some x → d.Has x := by
      intro x hon
      unfold PeerTls.enabled at hen
      rw [Bool.and_eq_true, hon] at hen
      simpa using hen.1
    cases e with
    | certificateAvailable x certs pc =>
      have hx := hhas x rfl
      obtain ⟨old', other', hrot, hkeep⟩ := h.of_deliverable hx hok
      have hinstalled := hrot.install hx rfl (decide (certs.ca ≠ (s.unit x).certs.ca))
        (decide (certs.certificate ≠ (s.unit x).certs.certificate) ||
          decide (certs.ca ≠ (s.unit x).certs.ca)) (hkeep.imp_left decide_eq_true)
      refine ⟨x.1, old', certs.ca, other', ?_⟩
      apply Rotating.configChanged _ hx
      split
      · exact hinstalled.publishRotate true
      · exact hinstalled
    | relationBroken x serial pc =>
      have hx := hhas x rfl
      obtain ⟨old', other', hrot, _⟩ := h.of_deliverable hx hok
      exact ⟨x.1, old', d.internalCa x.1, other',
        (hrot.install hx rfl true true (.inl rfl)).configChanged hx pc⟩
    | configChanged x pc => exact ⟨a, old, new, other, h.configChanged (hhas x rfl) pc⟩
    | updateStatus x pc => exact ⟨a, old, new, other, h.updateStatus (hhas x rfl) pc⟩
    | restart x healthy => exact ⟨a, old, new, other, h.restartBroker (hhas x rfl) healthy⟩
    | reboot x =>
      exact ⟨a, old, new, other, h.reload (hhas x rfl) (s.unit x).restartRequested⟩
    | peerClusterChanged x pc =>
      exact ⟨a, old, new, other, h.peerClusterChanged (hhas x rfl) pc⟩
    | deliverUnit x j =>
      have hj : d.Has (x.1, j) := by
        unfold PeerTls.enabled at hen
        rw [Bool.and_eq_true] at hen
        exact (of_decide_eq_true hen.2).1
      exact ⟨a, old, new, other, h.deliverUnit (hhas x rfl) hj⟩
    | deliverApp x => exact ⟨a, old, new, other, h.deliverApp (hhas x rfl)⟩
    | tick => exact ⟨a, old, new, other, h.tick⟩
  · rw [if_neg hen] at hstep
    cases hstep

/-- Along every orderly run from a state with one CA for each application: a unit
that cleans up knows every CA in use, and its new truststore trusts it. -/
theorem cleanup_safe (hsound : s.Sound d) (huniform : Uniform d s)
    (hrun : Runs.Reaches (tlsStep d) (orderly d) s t) (hx : d.Has x)
    (hclean : t.cleansUp d x = true) :
    CasInUseKnown d t x ∧ ∀ y, d.Has y → Cert.authority (t.unit y).presented.ca ∈
      ((t.unit x).rebuildTruststore d.toCerts t.now).truststore.certs := by
  obtain ⟨a, old, new, other, hrot⟩ := hrun.invariant
    (I := fun s => ∃ a old new other, Rotating d a old new other s)
    ⟨_, _, _, _, Rotating.of_uniform hsound huniform .broker⟩
    fun _ _ _ ⟨_, _, _, _, h⟩ hok hstep => step_rotating h hok hstep
  have hknown := hrot.rotation.casInUseKnown hx hclean
  exact ⟨hknown, fun y hy => Truststore.certs_build (hknown y hy)⟩

/-! ## Two brokers and a controller -/

def internalCas : App → Nat
  | .broker => 8
  | .controller => 9

theorem internalCas_signed (a : App) :
    (usualCerts.profile (.authority (internalCas a))).SignedWithSha256 := .inr rfl

/-- Two broker units and one controller unit. -/
def twoBrokers : Deployment where
  toCerts := usualCerts
  internalCa := internalCas
  internalCa_signed := internalCas_signed
  size
    | .broker => 2
    | .controller => 1
  leader := fun _ => 0
  leader_lt := by
    intro a
    cases a <;> decide

/-- The certificate of a unit under CA 1 for brokers and CA 2 for controllers. -/
def firstCerts : UnitId → PeerCerts
  | (.broker, i) => ⟨.leaf (10 + i), 1, []⟩
  | (.controller, i) => ⟨.leaf (20 + i), 2, []⟩

/-- A unit that was restarted after it trusted the other application. -/
def settledUnit (x : UnitId) : PeerUnit :=
  let remoteCa := (firstCerts (x.1.other, 0)).bundle
  let truststore := Truststore.build usualCerts (firstCerts x).bundle remoteCa
  { certs := firstCerts x, databag := ⟨truststore.certs, false⟩, truststore := truststore
    modifyTime := 0, keystore := firstCerts x, presented := firstCerts x
    loaded := truststore.certs, lastRestart := 1, restartRequested := false
    peers := fun i => ⟨(Truststore.build usualCerts (firstCerts (x.1, i)).bundle remoteCa).certs, false⟩
    remote := ⟨remoteCa, [.authority 1, .authority 2], false⟩ }

def settledSystem : PeerTls where
  unit := settledUnit
  app := fun a => ⟨(firstCerts (a, 0)).bundle, [.authority 1, .authority 2], false⟩
  now := 2

theorem settledSystem_sound : settledSystem.Sound twoBrokers := by
  constructor
  · intro x _
    exact ⟨rfl, Nat.le_succ 1, fun _ => rfl⟩
  · intro a
    cases a <;> rfl

/-- The brokers move to CA 3. -/
def brokersRotate : List TlsEvent :=
  [.certificateAvailable (.broker, 0) ⟨.leaf 30, 3, []⟩ false,
    .certificateAvailable (.broker, 1) ⟨.leaf 31, 3, []⟩ false,
    .deliverApp (.controller, 0), .configChanged (.controller, 0) false,
    .restart (.controller, 0) true, .deliverApp (.broker, 0), .deliverApp (.broker, 1),
    .configChanged (.broker, 0) false, .configChanged (.broker, 1) false,
    .restart (.broker, 1) true, .restart (.broker, 0) true, .deliverUnit (.broker, 0) 1]

theorem rotated_brokers_clean_up :
    ∃ t, Runs.Reaches (tlsStep twoBrokers) (orderly twoBrokers) settledSystem t ∧
      t.cleansUp twoBrokers (.broker, 0) = true ∧ CasInUseKnown twoBrokers t (.broker, 0) := by
  have hreplay : (Runs.replay (tlsStep twoBrokers) (orderly twoBrokers) settledSystem
      brokersRotate).any (fun t => t.cleansUp twoBrokers (.broker, 0)) = true := by
    decide +kernel
  obtain ⟨t, ht, hclean⟩ := (Option.any_eq_true _ _).mp hreplay
  have hrun := Runs.Reaches.replay _ _ _ _ ht
  exact ⟨t, hrun, hclean, (cleanup_safe settledSystem_sound (by decide) hrun (by decide) hclean).1⟩

/-- The first broker gets a certificate of the controllers' CA. Both applications
trust that CA already, so it may clean up at once and drop the CA that the second
broker presents. -/
theorem shared_ca_cleaned_up_too_early :
    ∃ t, Runs.Reaches (tlsStep twoBrokers) Runs.anyStep settledSystem t ∧
      settledSystem.Sound twoBrokers ∧ Uniform twoBrokers settledSystem ∧
      t.cleansUp twoBrokers (.broker, 0) = true ∧ ¬CasInUseKnown twoBrokers t (.broker, 0) ∧
      Cert.authority (t.unit (.broker, 1)).presented.ca ∈ (t.unit (.broker, 0)).truststore.certs ∧
      Cert.authority (t.unit (.broker, 1)).presented.ca ∉
        ((t.unit (.broker, 0)).rebuildTruststore usualCerts t.now).truststore.certs := by
  have hrun := Runs.Reaches.replayed (tlsStep twoBrokers) Runs.anyStep settledSystem
    [.certificateAvailable (.broker, 0) ⟨.leaf 30, 2, []⟩ false] (by decide)
  refine ⟨_, hrun, settledSystem_sound, by decide, by decide, ?_, by decide, by decide⟩
  intro hknown
  have hsecond := hknown (.broker, 1) (by decide)
  revert hsecond
  decide

end KafkaCharm
