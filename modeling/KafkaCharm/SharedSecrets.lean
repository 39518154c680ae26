import KafkaCharm.NodeIds
import KafkaCharm.RelationData
import KafkaCharm.Lib.Runs

namespace KafkaCharm

open PyText Runs

/-! ## Writing -/

/-- `_group_secret_fields`: what has no label goes to the extra group. -/
def sharedGroup (field : Str) : SecretGroup := (secretLabelMap field).getD .extra

/-- The `requested_secrets` of the roles. -/
def requestedSecrets (roles : Roles) : List Str :=
  (if roles.balancer then ["broker-username", "broker-password", "broker-uris",
    "controller-passwrod", "zk-username", "zk-password", "zk-uris"].map String.toList else []) ++
  (if roles.controller then
    ["broker-username", "broker-password", "controller-password"].map String.toList else []) ++
  (if roles.broker then ["balancer-username", "balancer-password", "balancer-uris",
    "controller-password"].map String.toList else [])

/-- The side of the writer, with what the other side has asked for. -/
structure SharedData where
  own : OwnData
  requested : List Str

def SharedData.empty : SharedData := ⟨.empty, []⟩

/-- A dictionary of fields. -/
abbrev UpdateItems := { fields : List (Str × Str) // Dict.NodupKeys fields }

namespace UpdateItems

variable (fields : UpdateItems)

def updateContent : List (Str × Str) := fields.1.filter (·.2 ≠ [])

def deleteFields : List Str := Dict.keys (fields.1.filter (·.2 = []))

theorem nodup_updateContent : Dict.NodupKeys fields.updateContent :=
  OwnData.NodupKeys_filter fields.2 _

theorem get?_updateContent (k : Str) :
    Dict.get? fields.updateContent k = (Dict.get? fields.1 k).filter (· ≠ []) :=
  OwnData.get?_set_fields fields.2 k

theorem mem_deleteFields {k : Str} :
    k ∈ fields.deleteFields ↔ Dict.get? fields.1 k = some [] :=
  OwnData.mem_keys_removed fields.2

end UpdateItems

namespace OwnData

/-- `del self.relation_data[field]` for each field. -/
def deleteAll (requested fields : List Str) (o : OwnData) : OwnData :=
  fields.foldl (fun o field => o.deleteField sharedGroup true requested field) o

/-- The credentials that are written into secrets in any case. -/
def addLabelled (fields : List (Str × Str)) (o : OwnData) : OwnData :=
  (fields.filter fun e => (secretLabelMap e.1).isSome).foldl
    (fun o e => o.addOrUpdateSecret (sharedGroup e.1) [e]) o

end OwnData

/-- `RelationState.update` of a leader. Secrets of one group belong to one of the two
applications. -/
def PeerCluster.update (fields : UpdateItems) (s : SharedData) : SharedData :=
  let own := s.own.updateFields sharedGroup true s.requested fields.updateContent
  let own := own.deleteAll s.requested fields.deleteFields
  { s with own := own.addLabelled fields.updateContent }

namespace SharedData

variable (s : SharedData)

/-- `_fetch_from_secrets`, on the side of the other application. -/
def fetchFromSecrets (group : SecretGroup) (field : Str) : Str :=
  (Dict.get? (s.own.content group) field).getD []

/-! What `PeerCluster` gives to an application that has no such value of its own. -/

def brokerUsername : Str := s.fetchFromSecrets .broker "broker-username".toList

def brokerPassword : Str := s.fetchFromSecrets .broker "broker-password".toList

def controllerPassword : Str := s.fetchFromSecrets .controller "controller-password".toList

/-- `_fetch_relation_data_with_secrets` for given fields, on the side of the other
application. `seen` is what its unit finds of the secret of a group; with `fallback` it
looks into no secret. -/
def fetchRelationData (seen : SecretGroup → List (Str × Str)) (fallback : Bool)
    (reqSecretFields fields : List Str) : List (Str × Str) :=
  let secretFields := fields.filter fun k => !fallback && decide (k ∈ reqSecretFields)
  let contents := fun group => (seen group).filter fun e => decide (e.1 ∈ secretFields)
  let result := ((secretFields.map sharedGroup).dedup.map contents).flatten
  let normalFields := fields.filter fun k => k ∉ secretFields ∨ contents (sharedGroup k) = []
  Dict.update (Dict.update [] result) (s.own.bag.filter fun e => decide (e.1 ∈ normalFields))

/-- `balancer_username`, `balancer_password` and `balancer_uris`, which look for the fields
that the balancer asks for, and take those that the brokers ask for as the secret ones. -/
def balancerField (seen : SecretGroup → List (Str × Str)) (fallback : Bool) (field : Str) : Str :=
  (Dict.get? (s.fetchRelationData seen fallback (requestedSecrets ⟨true, false, false⟩)
    (requestedSecrets ⟨false, false, true⟩)) field).getD []

end SharedData

/-- The values as last written. -/
def lastValue (writes : List UpdateItems) : Str → Str :=
  writes.foldl (fun m fields k => (Dict.get? fields.1 k).getD (m k)) fun _ => []

/-! ## The databag -/

namespace OwnData

variable {requested : List Str} {o : OwnData}

/-- None of the fields that were asked for is in the databag. -/
def Discreet (requested : List Str) (o : OwnData) : Prop :=
  ∀ k ∈ requested, Dict.get? o.bag k = none

theorem Discreet.inSecrets (h : o.Discreet requested) (k : Str) :
    o.inSecrets true requested k = decide (k ∈ requested) := by
  have hnone : requested.any (fun f => decide (f ∈ Dict.keys o.bag)) = false := by
    rw [List.any_eq_false]
    intro f hf hmem
    exact Dict.mem_keys_iff.mp (of_decide_eq_true hmem) (h f hf)
  simp [OwnData.inSecrets, fallbackToDatabag, hnone]

/-- One field in the databag keeps all others there. -/
theorem not_discreet (h : ¬ o.Discreet requested) (k : Str) :
    o.inSecrets true requested k = false := by
  obtain ⟨f, hf, hmem⟩ : ∃ f ∈ requested, Dict.get? o.bag f ≠ none := by
    by_contra hnone
    exact h fun f hf => by_contra fun hmem => hnone ⟨f, hf, hmem⟩
  have hany : requested.any (fun f => decide (f ∈ Dict.keys o.bag)) = true :=
    List.any_eq_true.mpr ⟨f, hf, decide_eq_true (Dict.mem_keys_iff.mpr hmem)⟩
  simp [OwnData.inSecrets, fallbackToDatabag, hany]

theorem bag_addLabelled (fields : List (Str × Str)) (o : OwnData) :
    (o.addLabelled fields).bag = o.bag := by
  unfold addLabelled
  induction fields.filter (fun e => (secretLabelMap e.1).isSome) generalizing o with
  | nil => rfl
  | cons e rest ih => exact ih _

theorem Discreet.updateFields (h : o.Discreet requested) {fields : List (Str × Str)}
    (hnodup : Dict.NodupKeys fields) :
    (o.updateFields sharedGroup true requested fields).Discreet requested := by
  intro k hk
  rw [bag_updateFields, get?_foldl_bagSet (NodupKeys_filter hnodup _)]
  simp only [h.inSecrets]
  rw [Dict.get?_filter (fun key => !decide (key ∈ requested))]
  simp [hk, h k hk]

theorem Discreet.deleteField (h : o.Discreet requested) (f : Str) :
    (o.deleteField sharedGroup true requested f).Discreet requested := by
  intro k hk
  by_cases hin : o.inSecrets true requested f = true ∧ f ∈ Dict.keys (o.content (sharedGroup f))
  · rw [(deleteField_of_mem hin.1 hin.2).1]
    exact h k hk
  · rw [deleteField_of_not hin, Dict.get?_erase]
    split
    · rfl
    · exact h k hk

theorem Discreet.deleteAll (h : o.Discreet requested) (fields : List Str) :
    (o.deleteAll requested fields).Discreet requested := by
  induction fields generalizing o with
  | nil => exact h
  | cons f fields ih => exact ih (h.deleteField f)

/-- Everything is written into the databag: nothing was asked for, or something that was
is there. -/
def Openly (requested : List Str) (o : OwnData) : Prop := requested = [] ∨ ¬ o.Discreet requested

theorem Openly.inSecrets (h : o.Openly requested) (k : Str) :
    o.inSecrets true requested k = false := by
  rcases h with rfl | h
  · have hdiscreet : o.Discreet [] := fun _ hk => nomatch hk
    rw [hdiscreet.inSecrets]
    rfl
  · exact not_discreet h k

theorem Openly.of_bag (h : o.Openly requested) {o' : OwnData}
    (hbag : ∀ k ∈ requested, Dict.get? o.bag k ≠ none → Dict.get? o'.bag k ≠ none) :
    o'.Openly requested := by
  refine h.imp_right fun hloud hdiscreet => hloud fun k hk => ?_
  by_contra hne
  exact hbag k hk hne (hdiscreet k hk)

theorem Openly.get?_updateFields (h : o.Openly requested) {fields : List (Str × Str)}
    (hnodup : Dict.NodupKeys fields) (k : Str) :
    Dict.get? (o.updateFields sharedGroup true requested fields).bag k =
      (Dict.get? fields k).elim (Dict.get? o.bag k) fun v => if v = [] then none else some v := by
  rw [bag_updateFields, get?_foldl_bagSet (NodupKeys_filter hnodup _)]
  simp only [h.inSecrets, Bool.not_false, List.filter_true]

theorem Openly.deleteAll (h : o.Openly requested) {fields : List Str}
    (hkept : ∀ k ∈ requested, k ∉ fields) (k : Str) :
    Dict.get? (o.deleteAll requested fields).bag k =
      if k ∈ fields then none else Dict.get? o.bag k := by
  induction fields generalizing o with
  | nil => simp [OwnData.deleteAll]
  | cons f fields ih =>
    have hone : o.deleteField sharedGroup true requested f =
        { o with bag := Dict.erase o.bag f } := by
      apply deleteField_of_not
      rw [h.inSecrets]
      exact fun hin => Bool.false_ne_true hin.1
    have hnext : OwnData.Openly requested { o with bag := Dict.erase o.bag f } := by
      refine h.of_bag fun k hk hne => ?_
      have hfk : f ≠ k := fun heq => hkept k hk (heq ▸ List.mem_cons_self)
      rw [Dict.get?_erase, if_neg hfk]
      exact hne
    have hrest := ih hnext fun k hk hmem => hkept k hk (List.mem_cons_of_mem f hmem)
    change Dict.get? (OwnData.deleteAll requested fields
      (o.deleteField sharedGroup true requested f)).bag k = _
    rw [hone, hrest, Dict.get?_erase]
    by_cases hk : f = k
    · simp [hk]
    · simp [hk, Ne.symm hk]

end OwnData

/-- The databag has every field with its value. -/
def OwnData.Tracks (m : Str → Str) (o : OwnData) : Prop :=
  ∀ k, Dict.get? o.bag k = if m k = [] then none else some (m k)

namespace PeerCluster

variable {s : SharedData}

theorem update_discreet (h : s.own.Discreet s.requested) (fields : UpdateItems) :
    (update fields s).own.Discreet s.requested := by
  unfold update OwnData.Discreet
  simp only [OwnData.bag_addLabelled]
  exact (h.updateFields fields.nodup_updateContent).deleteAll _

theorem update_tracks {m : Str → Str} (h : s.own.Openly s.requested) (hm : s.own.Tracks m)
    (fields : UpdateItems) (hkept : ∀ k ∈ s.requested, Dict.get? fields.1 k ≠ some []) :
    (update fields s).own.Tracks (fun k => (Dict.get? fields.1 k).getD (m k)) ∧
      (update fields s).own.Openly s.requested := by
  have hset := h.get?_updateFields fields.nodup_updateContent
  have hopen : (s.own.updateFields sharedGroup true s.requested fields.updateContent).Openly
      s.requested := by
    refine h.of_bag fun k hk hne => ?_
    rw [hset, fields.get?_updateContent]
    cases hget : Dict.get? fields.1 k with
    | none => exact hne
    | some v =>
      have hv : v ≠ [] := fun hnil => hkept k hk (hnil ▸ hget)
      simp [hv, Option.filter_some]
  have hremoved : ∀ k ∈ s.requested, k ∉ fields.deleteFields := fun k hk hmem =>
    hkept k hk (fields.mem_deleteFields.mp hmem)
  have hbag : ∀ k, Dict.get? (update fields s).own.bag k =
      (Dict.get? fields.1 k).elim (Dict.get? s.own.bag k)
        fun v => if v = [] then none else some v := by
    intro k
    unfold update
    simp only [OwnData.bag_addLabelled]
    rw [hopen.deleteAll hremoved, hset, fields.get?_updateContent]
    simp only [fields.mem_deleteFields]
    cases hget : Dict.get? fields.1 k with
    | none => simp
    | some v =>
      by_cases hv : v = []
      · simp [hv]
      · simp [hv, Option.filter_some]
  refine ⟨fun k => ?_, h.of_bag fun k hk hne => ?_⟩
  · rw [hbag, hm k]
    cases hget : Dict.get? fields.1 k with
    | none => simp [hget]
    | some v => simp [hget]
  · rw [hbag]
    cases hget : Dict.get? fields.1 k with
    | none => exact hne
    | some v =>
      have hv : v ≠ [] := fun hnil => hkept k hk (hnil ▸ hget)
      simp [hv]

theorem run_discreet (writes : List UpdateItems) (h : s.own.Discreet s.requested) :
    (writes.foldl (fun s fields => update fields s) s).own.Discreet s.requested := by
  induction writes generalizing s with
  | nil => exact h
  | cons fields writes ih => exact ih (s := update fields s) (update_discreet h fields)

theorem run_tracks {m : Str → Str} (writes : List UpdateItems) (h : s.own.Openly s.requested)
    (hm : s.own.Tracks m)
    (hkept : ∀ fields ∈ writes, ∀ k ∈ s.requested, Dict.get? fields.1 k ≠ some []) :
    (writes.foldl (fun s fields => update fields s) s).own.Tracks
      (writes.foldl (fun m fields k => (Dict.get? fields.1 k).getD (m k)) m) ∧
    (writes.foldl (fun s fields => update fields s) s).own.Openly s.requested := by
  induction writes generalizing s m with
  | nil => exact ⟨hm, h⟩
  | cons fields writes ih =>
    obtain ⟨hfirst, hrest⟩ := List.forall_mem_cons.mp hkept
    obtain ⟨htracks, hopen⟩ := update_tracks h hm fields hfirst
    exact ih (s := update fields s) hopen htracks hrest

/-- Writes before the other side has asked, and after. -/
def sharedRun (before : List UpdateItems) (roles : Roles) (after : List UpdateItems) : SharedData :=
  let s := before.foldl (fun s fields => update fields s) .empty
  after.foldl (fun s fields => update fields s) { s with requested := requestedSecrets roles }

end PeerCluster

/-- Whether credentials are in the clear is settled when the other application asks for
them. If one that it asks for has been written by then, all that it asks for are in the
databag from then on, as long as none is removed; otherwise none ever is. -/
theorem in_clear_iff {before after : List UpdateItems} {roles : Roles}
    (hkept : ∀ fields ∈ after, ∀ k ∈ requestedSecrets roles, Dict.get? fields.1 k ≠ some []) :
    ((∃ k ∈ requestedSecrets roles,
        k ∈ Dict.keys (PeerCluster.sharedRun before roles after).own.bag) ↔
      ∃ k ∈ requestedSecrets roles, lastValue before k ≠ []) ∧
    ((∃ k ∈ requestedSecrets roles, lastValue before k ≠ []) →
      ∀ k ∈ requestedSecrets roles, lastValue (before ++ after) k ≠ [] →
        Dict.get? (PeerCluster.sharedRun before roles after).own.bag k =
          some (lastValue (before ++ after) k)) := by
  have hempty : SharedData.empty.own.Tracks fun _ => [] := fun k => rfl
  obtain ⟨htracks, -⟩ := PeerCluster.run_tracks before (.inl rfl) hempty
    fun _ _ k hk => nomatch hk
  set s := before.foldl (fun s fields => PeerCluster.update fields s) SharedData.empty with hs
  change s.own.Tracks (lastValue before) at htracks
  have hdiscreet : s.own.Discreet (requestedSecrets roles) ↔
      ∀ k ∈ requestedSecrets roles, lastValue before k = [] := by
    refine forall₂_congr fun k _ => ?_
    rw [htracks k]
    by_cases hk : lastValue before k = []
    · simp [hk]
    · simp [hk]
  by_cases hquiet : s.own.Discreet (requestedSecrets roles)
  · have hall := hdiscreet.mp hquiet
    have hend : (PeerCluster.sharedRun before roles after).own.Discreet (requestedSecrets roles) :=
      PeerCluster.run_discreet (s := { s with requested := requestedSecrets roles }) after hquiet
    have hno : ¬ ∃ k ∈ requestedSecrets roles, lastValue before k ≠ [] :=
      fun ⟨k, hk, hne⟩ => hne (hall k hk)
    refine ⟨⟨fun ⟨k, hk, hmem⟩ => ?_, fun h => absurd h hno⟩, fun h => absurd h hno⟩
    exact absurd (hend k hk) (Dict.mem_keys_iff.mp hmem)
  · obtain ⟨hend, hopen⟩ :=
      PeerCluster.run_tracks (s := { s with requested := requestedSecrets roles })
        after (.inr hquiet) htracks hkept
    have hvalue : (PeerCluster.sharedRun before roles after).own.Tracks
        (lastValue (before ++ after)) := by
      unfold lastValue
      rw [List.foldl_append]
      exact hend
    have hloud : ∃ k ∈ requestedSecrets roles, lastValue before k ≠ [] := by
      by_contra hnone
      refine hquiet (hdiscreet.mpr fun k hk => ?_)
      by_contra hne
      exact hnone ⟨k, hk, hne⟩
    refine ⟨⟨fun _ => hloud, fun _ => ?_⟩, fun _ k _ hne => by rw [hvalue k, if_neg hne]⟩
    rcases hopen with hnil | hopen
    · obtain ⟨k, hk, -⟩ := hloud
      change requestedSecrets roles = [] at hnil
      rw [hnil] at hk
      cases hk
    · by_contra hnone
      refine hopen fun k hk => ?_
      by_contra hne
      exact hnone ⟨k, hk, Dict.mem_keys_iff.mpr hne⟩

/-- What the start hook of controllers writes. -/
def firstPassword : UpdateItems :=
  ⟨[("controller-password".toList, "first".toList)], List.nodup_singleton _⟩

def nextPassword : UpdateItems :=
  ⟨[("controller-password".toList, "next".toList), ("bootstrap-unit-id".toList, [])],
    show List.Nodup _ by decide⟩

def brokersOnly : Roles := ⟨true, false, false⟩

/-- Controllers that start before the brokers have asked. -/
theorem in_clear_iff_early_start :
    Dict.get? (PeerCluster.sharedRun [firstPassword] brokersOnly [nextPassword]).own.bag
      "controller-password".toList = some "next".toList :=
  (@in_clear_iff [firstPassword] [nextPassword] brokersOnly (by decide)).2
    ⟨"controller-password".toList, by decide, by decide +kernel⟩
    "controller-password".toList (by decide) (by decide +kernel)

/-! ## Reading -/

namespace OwnData

variable {requested : List Str} {o : OwnData}

theorem get?_content_updateFields_of {fields : List (Str × Str)} (hnodup : Dict.NodupKeys fields)
    (k : Str) :
    Dict.get? ((o.updateFields sharedGroup true requested fields).content (sharedGroup k)) k =
      (if o.inSecrets true requested k then Dict.get? fields k else none).or
        (Dict.get? (o.content (sharedGroup k)) k) := by
  rw [content_updateFields, Dict.get?_update (NodupKeys_filter hnodup _),
    Dict.get?_filter (fun key => o.inSecrets true requested key &&
      decide (sharedGroup key = sharedGroup k))]
  simp

/-- Removing a field leaves the others, and the field itself goes if it is looked for in
secrets. -/
theorem get?_content_deleteField (requested : List Str) (o : OwnData) (f k : Str) :
    Dict.get? ((o.deleteField sharedGroup true requested f).content (sharedGroup k)) k =
      if f = k ∧ o.inSecrets true requested f = true then none
      else Dict.get? (o.content (sharedGroup k)) k := by
  by_cases hin : o.inSecrets true requested f = true ∧ f ∈ Dict.keys (o.content (sharedGroup f))
  · rw [(deleteField_of_mem hin.1 hin.2).2]
    by_cases hg : sharedGroup k = sharedGroup f
    · rw [if_pos hg, Dict.get?_erase, hg]
      by_cases hk : f = k
      · simp [hk, hk ▸ hin.1]
      · simp [hk]
    · have hk : f ≠ k := fun heq => hg (heq ▸ rfl)
      simp [hg, hk]
  · rw [deleteField_of_not hin]
    change Dict.get? (o.content (sharedGroup k)) k = _
    split
    · rename_i hboth
      obtain ⟨rfl, hsecret⟩ := hboth
      by_contra hne
      exact hin ⟨hsecret, Dict.mem_keys_iff.mpr hne⟩
    · rfl

theorem get?_content_deleteAll_of_notMem {fields : List Str} {k : Str} (hk : k ∉ fields) :
    Dict.get? ((o.deleteAll requested fields).content (sharedGroup k)) k =
      Dict.get? (o.content (sharedGroup k)) k := by
  induction fields generalizing o with
  | nil => rfl
  | cons f fields ih =>
    obtain ⟨hne, hrest⟩ := List.ne_and_not_mem_of_not_mem_cons hk
    have hstep := ih (o := o.deleteField sharedGroup true requested f) hrest
    change Dict.get? ((OwnData.deleteAll requested fields _).content _) k = _
    rw [hstep, get?_content_deleteField, if_neg fun h => hne h.1.symm]

/-- A field that is removed is gone, or was not looked for in secrets. -/
theorem get?_content_deleteAll (requested : List Str) (o : OwnData) (fields : List Str) (k : Str) :
    Dict.get? ((o.deleteAll requested fields).content (sharedGroup k)) k = none ∨
    Dict.get? ((o.deleteAll requested fields).content (sharedGroup k)) k =
      Dict.get? (o.content (sharedGroup k)) k := by
  induction fields generalizing o with
  | nil => exact .inr rfl
  | cons f fields ih =>
    have hstep := ih (o := o.deleteField sharedGroup true requested f)
    change Dict.get? ((OwnData.deleteAll requested fields
      (o.deleteField sharedGroup true requested f)).content _) k = none ∨
      Dict.get? ((OwnData.deleteAll requested fields
      (o.deleteField sharedGroup true requested f)).content _) k = _
    rw [get?_content_deleteField] at hstep
    split at hstep
    · exact .inl (hstep.elim id id)
    · exact hstep

theorem Discreet.get?_content_deleteAll (h : o.Discreet requested) {fields : List Str} {k : Str}
    (hk : k ∈ requested) (hmem : k ∈ fields) :
    Dict.get? ((o.deleteAll requested fields).content (sharedGroup k)) k = none := by
  induction fields generalizing o with
  | nil => cases hmem
  | cons f fields ih =>
    have hsecret : o.inSecrets true requested f = decide (f ∈ requested) := h.inSecrets f
    change Dict.get? ((OwnData.deleteAll requested fields
      (o.deleteField sharedGroup true requested f)).content _) k = none
    rcases List.mem_cons.mp hmem with rfl | hmem
    · have hgone := get?_content_deleteField requested o k k
      rw [if_pos ⟨rfl, hsecret.trans (decide_eq_true hk)⟩] at hgone
      have hrest := OwnData.get?_content_deleteAll requested
        (o.deleteField sharedGroup true requested k) fields k
      rw [hgone] at hrest
      exact hrest.elim id id
    · exact ih (h.deleteField f) hmem

/-- Labelled fields are written in any case. -/
theorem get?_content_addLabelled {fields : List (Str × Str)} (hnodup : Dict.NodupKeys fields)
    {k : Str} (hk : (secretLabelMap k).isSome) :
    Dict.get? ((o.addLabelled fields).content (sharedGroup k)) k =
      (Dict.get? fields k).or (Dict.get? (o.content (sharedGroup k)) k) := by
  unfold addLabelled
  have hfold : ∀ (rest : List (Str × Str)) (o : OwnData), Dict.NodupKeys rest →
      Dict.get? ((rest.foldl (fun o e => o.addOrUpdateSecret (sharedGroup e.1) [e]) o).content
        (sharedGroup k)) k =
      (Dict.get? rest k).or (Dict.get? (o.content (sharedGroup k)) k) := by
    intro rest
    induction rest with
    | nil => exact fun o _ => rfl
    | cons e rest ih =>
      intro o hrest
      obtain ⟨hfresh, hnext⟩ := hrest.of_cons
      rw [List.foldl_cons, ih _ hnext, content_addOrUpdateSecret, Dict.get?_cons]
      by_cases he : e.1 = k
      · subst he
        simp [hfresh, Dict.get?_set]
      · by_cases hg : sharedGroup k = sharedGroup e.1
        · simp [he, hg, Dict.get?_set]
        · simp [he, hg]
  rw [hfold _ _ (NodupKeys_filter hnodup _),
    Dict.get?_filter (fun key => (secretLabelMap key).isSome), if_pos hk]

end OwnData

inductive SharedEvent
  | write (fields : UpdateItems)
  | request (roles : Roles)

/-- The side of the writer, and the values as last written. -/
structure SharedRun where
  data : SharedData
  written : Str → Str

namespace SharedRun

def empty : SharedRun := ⟨.empty, fun _ => []⟩

def step (r : SharedRun) : SharedEvent → Option SharedRun
  | .write fields =>
    some ⟨PeerCluster.update fields r.data, fun k => (Dict.get? fields.1 k).getD (r.written k)⟩
  | .request roles => some { r with data.requested := requestedSecrets roles }

/-- A credential is removed only where it was asked for, and none that was asked for is in
the databag. -/
def removesSecrets (r : SharedRun) : SharedEvent → Prop
  | .write fields => ∀ e ∈ fields.1, (secretLabelMap e.1).isSome = true → e.2 = [] →
      r.written e.1 = [] ∨ r.data.own.inSecrets true r.data.requested e.1 = true
  | .request _ => True

instance (r : SharedRun) : (e : SharedEvent) → Decidable (r.removesSecrets e)
  | .write fields => inferInstanceAs (Decidable (∀ e ∈ fields.1, _ → _ → _))
  | .request _ => inferInstanceAs (Decidable True)

theorem discreet_of_inSecrets {requested : List Str} {o : OwnData} {k : Str}
    (h : o.inSecrets true requested k = true) : o.Discreet requested ∧ k ∈ requested := by
  have hdiscreet : o.Discreet requested := by
    by_contra hnot
    rw [OwnData.not_discreet hnot] at h
    cases h
  rw [hdiscreet.inSecrets] at h
  exact ⟨hdiscreet, of_decide_eq_true h⟩

/-- One write, seen from the other side. -/
theorem fetch_update {r : SharedRun} {fields : UpdateItems} (hok : r.removesSecrets (.write fields))
    {k : Str} (hk : (secretLabelMap k).isSome = true)
    (hr : r.data.fetchFromSecrets (sharedGroup k) k = r.written k) :
    (PeerCluster.update fields r.data).fetchFromSecrets (sharedGroup k) k =
      (Dict.get? fields.1 k).getD (r.written k) := by
  have hset := @OwnData.get?_content_updateFields_of r.data.requested r.data.own _
    fields.nodup_updateContent k
  have hold : (Dict.get? (r.data.own.content (sharedGroup k)) k).getD [] = r.written k := hr
  unfold SharedData.fetchFromSecrets PeerCluster.update
  dsimp only
  rw [OwnData.get?_content_addLabelled fields.nodup_updateContent hk]
  rw [fields.get?_updateContent] at hset ⊢
  cases hget : Dict.get? fields.1 k with
  | none =>
    have hout : k ∉ fields.deleteFields := fun hmem => by
      simp [fields.mem_deleteFields.mp hmem] at hget
    rw [OwnData.get?_content_deleteAll_of_notMem hout, hset, hget]
    simpa using hold
  | some v =>
    by_cases hv : v = []
    · subst hv
      have hnone : (some ([] : Str)).filter (· ≠ []) = none := rfl
      rw [hget, hnone] at hset
      rw [hnone, Option.none_or]
      have hkept : Dict.get? ((r.data.own.updateFields sharedGroup true r.data.requested
          fields.updateContent).content (sharedGroup k)) k =
          Dict.get? (r.data.own.content (sharedGroup k)) k := by
        rw [hset]
        simp
      rcases hok (k, []) ((Dict.mem_iff_get? fields.2).mpr hget) hk rfl with hunset | hsecret
      · rcases OwnData.get?_content_deleteAll r.data.requested
          (r.data.own.updateFields sharedGroup true r.data.requested fields.updateContent)
          fields.deleteFields k with hgone | hsame
        · rw [hgone]
          rfl
        · rw [hsame, hkept, hold]
          exact hunset
      · obtain ⟨hdiscreet, hin⟩ := discreet_of_inSecrets hsecret
        have hgone := (hdiscreet.updateFields fields.nodup_updateContent).get?_content_deleteAll hin
          (fields.mem_deleteFields.mpr hget)
        rw [hgone]
        rfl
    · simp [hv, Option.filter_some]

end SharedRun

theorem SharedRun.fetch_written {r : SharedRun}
    (h : Reaches SharedRun.step SharedRun.removesSecrets SharedRun.empty r) {k : Str}
    (hk : (secretLabelMap k).isSome = true) :
    r.data.fetchFromSecrets (sharedGroup k) k = r.written k := by
  refine h.invariant (I := fun r => r.data.fetchFromSecrets (sharedGroup k) k = r.written k) rfl ?_
  intro a e b ha hok hstep
  cases e with
  | write fields =>
    cases hstep
    exact SharedRun.fetch_update hok hk ha
  | request roles =>
    cases hstep
    exact ha

/-- The credentials of the brokers and the password of the controllers read as they were
last written, whatever was asked for, and whether they are in the databag as well. -/
theorem reads_last_write {r : SharedRun}
    (h : Reaches SharedRun.step SharedRun.removesSecrets SharedRun.empty r) :
    r.data.brokerUsername = r.written "broker-username".toList ∧
    r.data.brokerPassword = r.written "broker-password".toList ∧
    r.data.controllerPassword = r.written "controller-password".toList :=
  ⟨SharedRun.fetch_written h (by decide), SharedRun.fetch_written h (by decide),
    SharedRun.fetch_written h (by decide)⟩

theorem reads_last_write_early_start :
    (replay SharedRun.step SharedRun.removesSecrets SharedRun.empty
      [.write firstPassword, .request brokersOnly, .write nextPassword]).any
        (fun r => decide (r.data.controllerPassword = "next".toList)) = true := by
  have hran : (replay SharedRun.step SharedRun.removesSecrets SharedRun.empty
      [.write firstPassword, .request brokersOnly, .write nextPassword]).any
        (fun r => decide (r.written "controller-password".toList = "next".toList)) = true := by
    decide
  cases hr : replay SharedRun.step SharedRun.removesSecrets SharedRun.empty
      [.write firstPassword, .request brokersOnly, .write nextPassword] with
  | none =>
    rw [hr] at hran
    cases hran
  | some r =>
    rw [hr, Option.any_some, decide_eq_true_eq] at hran
    rw [Option.any_some, decide_eq_true_eq]
    exact (reads_last_write (.replay _ _ _ _ hr)).2.2.trans hran

/-- Nothing is read but what was asked for in the call. -/
theorem SharedData.mem_of_mem_fetchRelationData {s : SharedData}
    {seen : SecretGroup → List (Str × Str)} {fallback : Bool} {reqSecretFields fields : List Str}
    {k : Str} (h : k ∈ Dict.keys (s.fetchRelationData seen fallback reqSecretFields fields)) :
    k ∈ fields := by
  unfold fetchRelationData at h
  simp only [Dict.mem_keys_update] at h
  obtain (hnil | hsecret) | hnormal := h
  · cases hnil
  · obtain ⟨e, he, rfl⟩ := List.mem_map.mp hsecret
    obtain ⟨contents, hcontents, he⟩ := List.mem_flatten.mp he
    obtain ⟨group, -, rfl⟩ := List.mem_map.mp hcontents
    exact (List.mem_filter.mp (of_decide_eq_true (List.mem_filter.mp he).2)).1
  · obtain ⟨e, he, rfl⟩ := List.mem_map.mp hnormal
    exact (List.mem_filter.mp (of_decide_eq_true (List.mem_filter.mp he).2)).1

/-- The credentials of the balancer are never read: they are not among the fields that are
looked for. -/
theorem balancer_credentials_unread (s : SharedData) (seen : SecretGroup → List (Str × Str))
    (fallback : Bool) {field : Str} (hfield : sharedGroup field = .balancer) :
    s.balancerField seen fallback field = [] := by
  have hnot : field ∉ requestedSecrets ⟨false, false, true⟩ := fun hmem => by
    have hothers : ∀ k ∈ requestedSecrets ⟨false, false, true⟩, sharedGroup k ≠ .balancer := by
      decide
    exact hothers field hmem hfield
  have hnone : Dict.get? (s.fetchRelationData seen fallback (requestedSecrets ⟨true, false, false⟩)
      (requestedSecrets ⟨false, false, true⟩)) field = none := by
    by_contra hne
    exact hnot (SharedData.mem_of_mem_fetchRelationData (Dict.mem_keys_iff.mpr hne))
  unfold SharedData.balancerField
  rw [hnone]
  rfl

/-- A password that is in the databag is not removed from the secret. -/
example :
    (PeerCluster.update ⟨[("controller-password".toList, [])], List.nodup_singleton _⟩
      (PeerCluster.sharedRun [firstPassword] brokersOnly [])).controllerPassword =
        "first".toList := by decide

end KafkaCharm
