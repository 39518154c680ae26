import KafkaCharm.RelationData

namespace KafkaCharm

open PyText

/-! ## One operation -/

namespace OwnData

variable {isSecret : Str → Bool} {leader : Bool} {secretFields : List Str} {o : OwnData}

/-- What stands where a field is kept. -/
def value (isSecret : Str → Bool) (o : OwnData) (k : Str) : Str :=
  (if isSecret k then Dict.get? (o.content .extra) k else Dict.get? o.bag k).getD []

/-- Secret fields are in secrets only, the others in the databag only, and what the
interface keeps for itself is not there. -/
structure Clean (isSecret : Str → Bool) (o : OwnData) : Prop where
  nodup : Dict.NodupKeys o.bag
  reserved : ∀ k ∈ reservedFields, Dict.get? o.bag k = none
  bag : ∀ k v, Dict.get? o.bag k = some v → isSecret k = false ∧ v ≠ []
  content : ∀ k v, Dict.get? (o.content .extra) k = some v → isSecret k = true ∧ v ≠ []

/-- The fields that are looked for in secrets are secret, and all that are in a secret are
among them. -/
structure Fits (isSecret : Str → Bool) (secretFields : List Str) (o : OwnData) : Prop where
  secret : ∀ k ∈ secretFields, isSecret k = true
  found : ∀ k ∈ Dict.keys (o.content .extra), k ∈ secretFields

theorem Clean.get?_bag (h : o.Clean isSecret) {k : Str} (hk : isSecret k = true) :
    Dict.get? o.bag k = none := by
  by_contra hne
  obtain ⟨v, hv⟩ := Option.ne_none_iff_exists'.mp hne
  exact Bool.false_ne_true ((h.bag k v hv).1.symm.trans hk)

theorem Clean.get?_content (h : o.Clean isSecret) {k : Str} (hk : isSecret k = false) :
    Dict.get? (o.content .extra) k = none := by
  by_contra hne
  obtain ⟨v, hv⟩ := Option.ne_none_iff_exists'.mp hne
  exact Bool.false_ne_true (hk.symm.trans (h.content k v hv).1)

/-- A clean state gives no reason to stay on the databag. -/
theorem Clean.inSecrets (h : o.Clean isSecret) (hfits : o.Fits isSecret secretFields) (k : Str) :
    o.inSecrets leader secretFields k = decide (k ∈ secretFields) := by
  have hnone : secretFields.any (fun f => decide (f ∈ Dict.keys o.bag)) = false := by
    rw [List.any_eq_false]
    intro f hf hmem
    exact Dict.mem_keys_iff.mp (of_decide_eq_true hmem) (h.get?_bag (hfits.secret f hf))
  simp [OwnData.inSecrets, fallbackToDatabag, hnone]

variable {fields : List (Str × Str)}

/-- Secret fields that are written are known to be secret, and have a value. -/
structure Writable (isSecret : Str → Bool) (secretFields : List Str) (fields : List (Str × Str)) :
    Prop where
  unreserved : ∀ k ∈ reservedFields, Dict.get? fields k = none
  secret : ∀ k v, Dict.get? fields k = some v → isSecret k = true → k ∈ secretFields ∧ v ≠ []

theorem get?_bag_updateFields (h : o.Clean isSecret) (hfits : o.Fits isSecret secretFields)
    (hnodup : Dict.NodupKeys fields) (k : Str) :
    Dict.get? (o.updateFields PeerInterface.groupOf leader secretFields fields).bag k =
      if k ∈ secretFields then Dict.get? o.bag k
      else (Dict.get? fields k).elim (Dict.get? o.bag k) fun v => if v = [] then none else some v := by
  rw [bag_updateFields, get?_foldl_bagSet (NodupKeys_filter hnodup _)]
  simp only [h.inSecrets hfits]
  rw [Dict.get?_filter (fun key => !decide (key ∈ secretFields))]
  by_cases hk : k ∈ secretFields
  · simp [hk]
  · simp [hk]

theorem get?_content_updateFields (h : o.Clean isSecret) (hfits : o.Fits isSecret secretFields)
    (hnodup : Dict.NodupKeys fields) (k : Str) :
    Dict.get? ((o.updateFields PeerInterface.groupOf leader secretFields fields).content .extra) k =
      if k ∈ secretFields then (Dict.get? fields k).or (Dict.get? (o.content .extra) k)
      else Dict.get? (o.content .extra) k := by
  rw [content_updateFields, Dict.get?_update (NodupKeys_filter hnodup _)]
  simp only [h.inSecrets hfits, PeerInterface.groupOf, decide_true, Bool.and_true]
  rw [Dict.get?_filter (fun key => decide (key ∈ secretFields))]
  by_cases hk : k ∈ secretFields
  · simp [hk]
  · simp [hk]

theorem Clean.updateFields (h : o.Clean isSecret) (hfits : o.Fits isSecret secretFields)
    (hnodup : Dict.NodupKeys fields) (hwritable : Writable isSecret secretFields fields) :
    (o.updateFields PeerInterface.groupOf leader secretFields fields).Clean isSecret := by
  refine ⟨?_, fun k hk => ?_, fun k v hv => ?_, fun k v hv => ?_⟩
  · rw [bag_updateFields]
    exact NodupKeys_foldl_bagSet _ h.nodup
  · rw [get?_bag_updateFields h hfits hnodup, hwritable.unreserved k hk, h.reserved k hk]
    exact ite_self none
  · rw [get?_bag_updateFields h hfits hnodup] at hv
    split at hv
    · exact h.bag k v hv
    · rename_i hk
      cases hf : Dict.get? fields k with
      | none => exact h.bag k v (by simpa [hf] using hv)
      | some w =>
        simp only [hf, Option.elim_some] at hv
        split at hv
        · cases hv
        · rename_i hw
          cases hv
          refine ⟨?_, hw⟩
          by_contra hsecret
          exact hk (hwritable.secret k v hf (by simpa using hsecret)).1
  · rw [get?_content_updateFields h hfits hnodup] at hv
    split at hv
    · rename_i hk
      cases hf : Dict.get? fields k with
      | none => exact h.content k v (by simpa [hf] using hv)
      | some w =>
        have hsecret := hfits.secret k hk
        obtain rfl : w = v := by simpa [hf] using hv
        exact ⟨hsecret, (hwritable.secret k w hf hsecret).2⟩
    · exact h.content k v hv

theorem value_updateFields (h : o.Clean isSecret) (hfits : o.Fits isSecret secretFields)
    (hnodup : Dict.NodupKeys fields) (hwritable : Writable isSecret secretFields fields) (k : Str) :
    (o.updateFields PeerInterface.groupOf leader secretFields fields).value isSecret k =
      (Dict.get? fields k).getD (o.value isSecret k) := by
  unfold value
  rw [get?_bag_updateFields h hfits hnodup, get?_content_updateFields h hfits hnodup]
  cases hk : isSecret k with
  | false =>
    have hnot : k ∉ secretFields := fun hmem => by simp [hfits.secret k hmem] at hk
    cases hf : Dict.get? fields k with
    | none => simp [hnot]
    | some v =>
      by_cases hv : v = []
      · simp [hnot, hv]
      · simp [hnot, hv]
  | true =>
    cases hf : Dict.get? fields k with
    | none => simp
    | some v => simp [(hwritable.secret k v hf hk).1]

/-- What deleting does to the databag and to the secret. -/
theorem deleteField_cases (leader : Bool) (h : o.Clean isSecret) (hfits : o.Fits isSecret secretFields) (f : Str) :
    (isSecret f = true ∧
      (o.deleteField PeerInterface.groupOf leader secretFields f).bag = o.bag ∧
      (o.deleteField PeerInterface.groupOf leader secretFields f).content .extra =
        Dict.erase (o.content .extra) f) ∨
    ((isSecret f = true → Dict.get? (o.content .extra) f = none) ∧
      (o.deleteField PeerInterface.groupOf leader secretFields f).bag = Dict.erase o.bag f ∧
      (o.deleteField PeerInterface.groupOf leader secretFields f).content .extra =
        o.content .extra) := by
  by_cases hin : o.inSecrets leader secretFields f = true ∧ f ∈ Dict.keys (o.content .extra)
  · obtain ⟨hbag, hcontent⟩ :=
      @deleteField_of_mem PeerInterface.groupOf leader secretFields f o hin.1 hin.2
    have hk := hin.1
    rw [h.inSecrets hfits] at hk
    exact .inl ⟨hfits.secret f (of_decide_eq_true hk), hbag, (hcontent .extra).trans (if_pos rfl)⟩
  · rw [@deleteField_of_not PeerInterface.groupOf leader secretFields f o hin]
    refine .inr ⟨fun _ => ?_, rfl, rfl⟩
    by_contra hne
    have hmem := Dict.mem_keys_iff.mpr hne
    rw [h.inSecrets hfits] at hin
    exact hin ⟨decide_eq_true (hfits.found f hmem), hmem⟩

theorem Clean.deleteField (h : o.Clean isSecret) (hfits : o.Fits isSecret secretFields) (f : Str) :
    (o.deleteField PeerInterface.groupOf leader secretFields f).Clean isSecret := by
  have herase : ∀ (d : List (Str × Str)) (k v : Str), Dict.get? (Dict.erase d f) k = some v →
      Dict.get? d k = some v := by
    intro d k v hv
    rw [Dict.get?_erase] at hv
    split at hv
    · cases hv
    · exact hv
  obtain ⟨-, hbag, hcontent⟩ | ⟨-, hbag, hcontent⟩ := deleteField_cases leader h hfits f
  · refine ⟨hbag ▸ h.nodup, hbag ▸ h.reserved, fun k v hv => h.bag k v (hbag ▸ hv),
      fun k v hv => h.content k v ?_⟩
    rw [hcontent] at hv
    exact herase _ k v hv
  · refine ⟨hbag ▸ h.nodup.erase f, fun k hk => ?_, fun k v hv => h.bag k v ?_,
      fun k v hv => h.content k v (hcontent ▸ hv)⟩
    · rw [hbag, Dict.get?_erase, h.reserved k hk]
      exact ite_self none
    · rw [hbag] at hv
      exact herase _ k v hv

theorem value_deleteField (h : o.Clean isSecret) (hfits : o.Fits isSecret secretFields)
    (f k : Str) :
    (o.deleteField PeerInterface.groupOf leader secretFields f).value isSecret k =
      if f = k then [] else o.value isSecret k := by
  unfold value
  obtain ⟨hsecret, hbag, hcontent⟩ | ⟨hnone, hbag, hcontent⟩ :=
    deleteField_cases leader h hfits f
  · rw [hbag, hcontent, Dict.get?_erase]
    by_cases hk : f = k
    · subst hk
      simp [hsecret]
    · simp [hk]
  · rw [hbag, hcontent, Dict.get?_erase]
    by_cases hk : f = k
    · subst hk
      by_cases hs : isSecret f = true
      · simp [hs, hnone hs]
      · simp [hs]
    · simp [hk]

/-- A field is found where it is kept. -/
theorem fetchField_eq (h : o.Clean isSecret) (hfits : o.Fits isSecret secretFields) (k : Str) :
    (o.fetchField PeerInterface.groupOf leader secretFields k).getD [] = o.value isSecret k := by
  unfold fetchField value
  rw [h.inSecrets hfits]
  by_cases hk : k ∈ secretFields
  · have hsecret := hfits.secret k hk
    simp [hk, hsecret, PeerInterface.groupOf, h.get?_bag hsecret]
  · cases hs : isSecret k with
    | false => simp [hk]
    | true =>
      have hnone : Dict.get? (o.content .extra) k = none := by
        by_contra hne
        exact hk (hfits.found k (Dict.mem_keys_iff.mpr hne))
      simp [hk, hnone, h.get?_bag hs]

theorem getD_iff {found : Option Str} (hne : ∀ w, found = some w → w ≠ []) {v : Str} :
    found = some v ↔ v = found.getD [] ∧ v ≠ [] := by
  cases found with
  | none => simp
  | some w =>
    rw [Option.some.injEq, Option.getD_some]
    exact ⟨fun h => ⟨h.symm, h ▸ hne w rfl⟩, fun h => h.1.symm⟩

/-- The listing has every field that has a value, but for names that look like those of
secrets. -/
theorem get?_fetchAll (h : o.Clean isSecret) (hfits : o.Fits isSecret secretFields) {k : Str}
    (hk : ¬ "secret-".toList.isPrefixOf k = true) (v : Str) :
    Dict.get? (o.fetchAll leader secretFields) k = some v ↔ v = o.value isSecret k ∧ v ≠ [] := by
  unfold fetchAll
  simp only [h.inSecrets hfits]
  rw [Dict.get?_update (NodupKeys_filter h.nodup _)]
  generalize hnormal : List.filter _ (List.filter _ (Dict.keys o.bag) ++ secretFields) = normal
  rw [Dict.get?_filter (fun key => decide (key ∈ normal)),
    Dict.get?_filter (fun key => decide (key ∈ secretFields))]
  unfold value
  cases hs : isSecret k with
  | true =>
    have hcontent : (if decide (k ∈ secretFields) then Dict.get? (o.content .extra) k else none) =
        Dict.get? (o.content .extra) k := by
      split
      · rfl
      · rename_i hout
        by_contra hne
        exact hout (decide_eq_true (hfits.found k (Dict.mem_keys_iff.mpr (Ne.symm hne))))
    rw [h.get?_bag hs, hcontent, ite_self, Option.none_or, if_pos rfl]
    exact getD_iff fun w hw => (h.content k w hw).2
  | false =>
    have hout : k ∉ secretFields := fun hmem => by simp [hfits.secret k hmem] at hs
    have hbag : (if decide (k ∈ normal) then Dict.get? o.bag k else none) = Dict.get? o.bag k := by
      split
      · rfl
      · rename_i hnot
        by_contra hne
        apply hnot
        rw [decide_eq_true_eq, ← hnormal]
        have hmem := Dict.mem_keys_iff.mpr (Ne.symm hne)
        refine List.mem_filter.mpr ⟨List.mem_append_left _ (List.mem_filter.mpr ⟨hmem, ?_⟩), ?_⟩
        · rw [Bool.not_eq_true']
          exact Bool.eq_false_iff.mpr hk
        · simp [hout]
    rw [h.get?_content hs, hbag, ite_self, Option.or_none, if_neg Bool.false_ne_true]
    exact getD_iff fun w hw => (h.bag k w hw).2

end OwnData

/-! ## The interface -/

namespace PeerInterface

variable {secretFields : List Str} {isSecret : Str → Bool} {p : PeerData}

/-- Which fields are secret is either fixed, or left to what is set as a secret. -/
structure Knows (secretFields : List Str) (isSecret : Str → Bool) : Prop where
  fixed : secretFields ≠ [] → ∀ k, isSecret k = true ↔ k ∈ secretFields

structure Sound (secretFields : List Str) (isSecret : Str → Bool) (p : PeerData) : Prop where
  static : p.staticSecretFields = secretFields
  clean : p.own.Clean isSecret
  new : ∀ k ∈ p.newSecrets, isSecret k = true

theorem Sound.current (h : Sound secretFields isSecret p) :
    ∀ k ∈ p.currentSecretFields, isSecret k = true := by
  intro k hk
  rcases List.mem_append.mp hk with hk | hk
  · obtain ⟨v, hv⟩ := Option.ne_none_iff_exists'.mp (Dict.mem_keys_iff.mp hk)
    exact (h.clean.content k v hv).1
  · exact h.new k hk

theorem Sound.fits (h : Sound secretFields isSecret p) (hi : Knows secretFields isSecret) :
    p.own.Fits isSecret p.localSecretFields := by
  unfold PeerData.localSecretFields
  rw [h.static]
  split
  · rename_i hfixed
    refine ⟨fun k hk => (hi.fixed hfixed k).mpr hk, fun k hk => (hi.fixed hfixed k).mp ?_⟩
    exact h.current k (List.mem_append_left _ hk)
  · exact ⟨h.current, fun k hk => List.mem_append_left _ hk⟩

theorem Sound.either (h : Sound secretFields isSecret p) (hi : Knows secretFields isSecret) :
    p.eitherStaticOrDynamic = true := by
  unfold PeerData.eitherStaticOrDynamic
  rw [h.static]
  by_cases hfixed : secretFields = []
  · simp [hfixed]
  · rw [Bool.or_eq_true, List.all_eq_true]
    exact .inr fun k hk => decide_eq_true ((hi.fixed hfixed k).mp (h.current k hk))

/-- There is nothing to migrate. -/
theorem Sound.legacyApplyOnUpdate (h : Sound secretFields isSecret p)
    (hi : Knows secretFields isSecret) (i : PeerInterface) (fields : List Str) :
    i.legacyApplyOnUpdate fields p = p := by
  have herase : ∀ passed : List Str, (∀ k ∈ passed, isSecret k = true) →
      passed.foldl Dict.erase p.own.bag = p.own.bag := by
    intro passed
    induction passed with
    | nil => exact fun _ => rfl
    | cons k passed ih =>
      intro hpassed
      obtain ⟨hk, hrest⟩ := List.forall_mem_cons.mp hpassed
      have hnot : k ∉ Dict.keys p.own.bag := fun hmem =>
        Dict.mem_keys_iff.mp hmem (h.clean.get?_bag hk)
      rw [List.foldl_cons, Dict.erase_of_notMem hnot, ih hrest]
  have hsecrets : legacyRemoveSecretFromDatabag fields p = p := by
    unfold legacyRemoveSecretFromDatabag
    dsimp only
    rw [herase]
    intro k hk
    exact (h.fits hi).secret k (of_decide_eq_true (List.mem_filter.mp hk).2)
  have hname : decide ("internal_secret".toList ∈ Dict.keys p.own.bag) = false := by
    refine decide_eq_false fun hmem => Dict.mem_keys_iff.mp hmem (h.clean.reserved _ ?_)
    exact List.mem_map_of_mem (by decide)
  unfold PeerInterface.legacyApplyOnUpdate legacyRemoveSecretFieldName
  rw [hsecrets, hname]
  exact if_neg Bool.false_ne_true

/-- There are no lists of secret fields. -/
theorem Sound.loadSecretsFromDatabag (h : Sound secretFields isSecret p) :
    p.loadSecretsFromDatabag = .ok p := by
  unfold PeerData.loadSecretsFromDatabag getEncodedList
  rw [h.clean.reserved _ (by decide), h.clean.reserved _ (by decide)]
  rfl

variable (i : PeerInterface)

theorem updateRelationData_spec (h : Sound secretFields isSecret p)
    (hi : Knows secretFields isSecret) (hwrite : (i.app && !i.leader) = false)
    {fields : List (Str × Str)} (hnodup : Dict.NodupKeys fields)
    (hwritable : OwnData.Writable isSecret p.localSecretFields fields) :
    ∃ p', i.updateRelationData fields p = .ok p' ∧ Sound secretFields isSecret p' ∧
      ∀ k, p'.own.value isSecret k = (Dict.get? fields k).getD (p.own.value isSecret k) := by
  unfold updateRelationData leaderOnly
  rw [hwrite, if_neg Bool.false_ne_true]
  simp only [h.legacyApplyOnUpdate hi, h.either hi, if_true, h.loadSecretsFromDatabag]
  exact ⟨_, rfl, ⟨h.static, h.clean.updateFields (h.fits hi) hnodup hwritable, h.new⟩,
    OwnData.value_updateFields h.clean (h.fits hi) hnodup hwritable⟩

theorem deleteRelationData_spec (h : Sound secretFields isSecret p)
    (hi : Knows secretFields isSecret) (hwrite : (i.app && !i.leader) = false) (f : Str) :
    ∃ p', i.deleteRelationData f p = .ok p' ∧ Sound secretFields isSecret p' ∧
      ∀ k, p'.own.value isSecret k = if f = k then [] else p.own.value isSecret k := by
  unfold deleteRelationData leaderOnly
  rw [hwrite, if_neg Bool.false_ne_true]
  simp only [h.either hi, if_true, h.loadSecretsFromDatabag]
  exact ⟨_, rfl, ⟨h.static, h.clean.deleteField (h.fits hi) f, h.new⟩,
    OwnData.value_deleteField h.clean (h.fits hi) f⟩

theorem get_eq (h : Sound secretFields isSecret p) (hi : Knows secretFields isSecret) (k : Str) :
    i.get k p = .ok (p.own.value isSecret k) := by
  unfold get
  rw [if_pos (h.either hi), OwnData.fetchField_eq h.clean (h.fits hi)]

theorem items_eq (h : Sound secretFields isSecret p) (hi : Knows secretFields isSecret) :
    i.items p = .ok (p.own.fetchAll i.leader p.localSecretFields) :=
  if_pos (h.either hi)

end PeerInterface

/-! ## The charm -/

open PeerInterface

/-- What is written, under the names of the fields. -/
def fieldsOf {F : Type} (name : F → Str) (items : Items F) : List (Str × Str) :=
  items.1.map fun e => (name e.1, e.2)

theorem nodupKeys_fields {F : Type} {name : F → Str} (hname : Function.Injective name)
    {items : List (F × Str)} (hnodup : Dict.NodupKeys items) :
    Dict.NodupKeys (items.map fun e => (name e.1, e.2)) := by
  have hkeys : Dict.keys (items.map fun e => (name e.1, e.2)) = (Dict.keys items).map name := by
    simp [Dict.keys]
  unfold Dict.NodupKeys
  rw [hkeys]
  exact hnodup.map hname

/-- The fields of the application: none is fixed as secret. -/
theorem knows_appSecret : Knows [] isAppSecret := ⟨fun hfixed => absurd rfl hfixed⟩

def isUnitSecret (field : Str) : Bool := decide (field ∈ secretsUnit)

theorem knows_unitSecret : Knows secretsUnit isUnitSecret := ⟨fun _ _ => decide_eq_true_iff⟩

section cluster

variable {leader : Bool} {p : PeerData}

/-- Only the leader writes the data of the application. -/
def writtenBy (leader : Bool) (fields : List (Str × Str)) (m : Str → Str) : Str → Str :=
  if leader then fun k => (Dict.get? fields k).getD (m k) else m

theorem updateRelationData_cluster (h : Sound [] isAppSecret p) {field value : Str}
    (hfield : field ∉ reservedFields)
    (hwritable : isAppSecret field = true → field ∈ p.localSecretFields ∧ value ≠ []) :
    ∃ p', (clusterInterface leader).updateRelationData [(field, value)] p = .ok p' ∧
      Sound [] isAppSecret p' ∧
      ∀ k, p'.own.value isAppSecret k =
        writtenBy leader [(field, value)] (p.own.value isAppSecret) k := by
  cases leader with
  | false => exact ⟨p, rfl, h, fun _ => rfl⟩
  | true =>
    refine updateRelationData_spec _ h knows_appSecret rfl (List.nodup_singleton _) ⟨?_, ?_⟩
    · intro k hk
      have hne : field ≠ k := fun heq => hfield (heq ▸ hk)
      rw [Dict.get?_cons, if_neg hne]
      rfl
    · intro k v hv hk
      rw [Dict.get?_cons] at hv
      split at hv
      · rename_i heq
        obtain rfl := heq
        cases hv
        exact hwritable hk
      · cases hv

theorem setSecret_spec (h : Sound [] isAppSecret p) {field value : Str}
    (hname : field ∉ reservedFields) (hfield : isAppSecret field = true) (hvalue : value ≠ []) :
    ∃ p', (clusterInterface leader).setSecret field value p = .ok p' ∧ Sound [] isAppSecret p' ∧
      ∀ k, p'.own.value isAppSecret k =
        writtenBy leader [(field, value)] (p.own.value isAppSecret) k := by
  have hlocal {p : PeerData} (h : Sound [] isAppSecret p) :
      p.localSecretFields = p.currentSecretFields := if_neg (not_not.mpr h.static)
  unfold setSecret
  rw [if_neg (not_not.mpr h.static)]
  simp only [h.legacyApplyOnUpdate knows_appSecret]
  split
  · rename_i hin
    exact updateRelationData_cluster h hname fun _ => ⟨hlocal h ▸ hin, hvalue⟩
  · have hnew : Sound [] isAppSecret { p with newSecrets := p.newSecrets ++ [field] } := by
      refine ⟨h.static, h.clean, fun k hk => ?_⟩
      rcases List.mem_append.mp hk with hk | hk
      · exact h.new k hk
      · rw [List.mem_singleton.mp hk]
        exact hfield
    refine updateRelationData_cluster hnew hname fun _ => ⟨?_, hvalue⟩
    rw [hlocal hnew]
    exact List.mem_append_right _ (List.mem_append_right _ (List.mem_singleton_self field))

theorem deleteSecret_spec (h : Sound [] isAppSecret p) {field : Str}
    (hfield : isAppSecret field = true) :
    ∃ p', (clusterInterface leader).deleteSecret field p = .ok p' ∧ Sound [] isAppSecret p' ∧
      ∀ k, p'.own.value isAppSecret k =
        writtenBy leader [(field, [])] (p.own.value isAppSecret) k := by
  unfold deleteSecret
  rw [if_neg (not_not.mpr h.static)]
  cases leader with
  | false =>
    refine ⟨p, ?_, h, fun _ => rfl⟩
    split <;> rfl
  | true =>
    have hvalue : ∀ k, writtenBy true [(field, [])] (p.own.value isAppSecret) k =
        if field = k then [] else p.own.value isAppSecret k := by
      intro k
      by_cases hk : field = k
      · simp [writtenBy, Dict.get?_cons, hk]
      · simp [writtenBy, Dict.get?_cons, hk]
    simp only [hvalue]
    split
    · exact deleteRelationData_spec _ h knows_appSecret rfl field
    · rename_i hout
      refine ⟨p, rfl, h, fun k => ?_⟩
      split
      · rename_i hk
        subst hk
        have hnone : Dict.get? (p.own.content .extra) field = none := by
          by_contra hne
          exact hout (List.mem_append_left _ (Dict.mem_keys_iff.mpr hne))
        simp [OwnData.value, hfield, hnone]
      · rfl

theorem updateItem_spec (leader : Bool) (h : Sound [] isAppSecret p) (item : Field × Str) :
    ∃ p', KafkaCluster.updateItem leader p item = .ok p' ∧ Sound [] isAppSecret p' ∧
      ∀ k, p'.own.value isAppSecret k =
        writtenBy leader [(item.1.1, item.2)] (p.own.value isAppSecret) k := by
  unfold KafkaCluster.updateItem
  split
  · rename_i hsecret
    split
    · rename_i hvalue
      exact setSecret_spec h item.1.2.2 hsecret hvalue
    · rename_i hnone
      rw [not_not.mp hnone]
      exact deleteSecret_spec h hsecret
  · rename_i hplain
    exact updateRelationData_cluster h item.1.2.2 fun hsecret => absurd hsecret hplain

theorem KafkaCluster.update_spec (leader : Bool) (h : Sound [] isAppSecret p)
    (items : Items Field) :
    ∃ p', KafkaCluster.update leader items p = .ok p' ∧ Sound [] isAppSecret p' ∧
      ∀ k, p'.own.value isAppSecret k =
        writtenBy leader (fieldsOf Subtype.val items) (p.own.value isAppSecret) k := by
  obtain ⟨items, hnodup⟩ := items
  unfold KafkaCluster.update fieldsOf
  dsimp only
  induction items generalizing p with
  | nil =>
    refine ⟨p, rfl, h, fun k => ?_⟩
    cases leader <;> rfl
  | cons item items ih =>
    obtain ⟨hfresh, hrest⟩ := (nodupKeys_fields Subtype.val_injective hnodup).of_cons
    obtain ⟨p1, hp1, h1, hv1⟩ := updateItem_spec leader h item
    obtain ⟨p2, hp2, h2, hv2⟩ := ih h1 (List.nodup_cons.mp hnodup).2
    refine ⟨p2, ?_, h2, fun k => ?_⟩
    · rw [List.foldlM_cons, hp1]
      exact hp2
    · rw [hv2]
      cases leader with
      | false => exact hv1 k
      | true =>
        simp only [writtenBy, if_true, List.map_cons, Dict.get?_cons] at hv1 ⊢
        rw [hv1]
        by_cases hk : item.1.1 = k
        · subst hk
          simp [hfresh]
        · simp [hk]

end cluster

section broker

variable {p : PeerData}

theorem deleteFields_spec (leader : Bool) (fields : List Str) (h : Sound secretsUnit isUnitSecret p) :
    ∃ p', fields.foldlM (fun p field => (brokerInterface leader).deleteRelationData field p) p =
        .ok p' ∧ Sound secretsUnit isUnitSecret p' ∧
      ∀ k, p'.own.value isUnitSecret k =
        if k ∈ fields then [] else p.own.value isUnitSecret k := by
  induction fields generalizing p with
  | nil => exact ⟨p, rfl, h, fun k => by simp⟩
  | cons field fields ih =>
    obtain ⟨p1, hp1, h1, hv1⟩ :=
      deleteRelationData_spec (brokerInterface leader) h knows_unitSecret rfl field
    obtain ⟨p2, hp2, h2, hv2⟩ := ih h1
    refine ⟨p2, ?_, h2, fun k => ?_⟩
    · rw [List.foldlM_cons, hp1]
      exact hp2
    · rw [hv2, hv1]
      by_cases hk : field = k
      · simp [hk]
      · simp [hk, Ne.symm hk]

/-- What is set and what is removed make up what is written. -/
theorem get?_split {fields : List (Str × Str)} (hnodup : Dict.NodupKeys fields) (m k : Str) :
    (if k ∈ Dict.keys (fields.filter (·.2 = [])) then []
      else (Dict.get? (fields.filter (·.2 ≠ [])) k).getD m) =
    (Dict.get? fields k).getD m := by
  simp only [OwnData.mem_keys_removed hnodup, OwnData.get?_set_fields hnodup]
  cases hget : Dict.get? fields k with
  | none => rfl
  | some v =>
    by_cases hv : v = []
    · simp [hv]
    · simp [hv, Option.filter_some]

/-- The name of a field of a unit. -/
def UnitField.name (k : UnitField) : Str := k.1.1

theorem UnitField.name_injective : Function.Injective UnitField.name :=
  Subtype.val_injective.comp Subtype.val_injective

theorem KafkaBroker.update_spec (leader : Bool) (h : Sound secretsUnit isUnitSecret p)
    (items : Items UnitField) :
    ∃ p', KafkaBroker.update leader items p = .ok p' ∧ Sound secretsUnit isUnitSecret p' ∧
      ∀ k, p'.own.value isUnitSecret k =
        writtenBy true (fieldsOf UnitField.name items) (p.own.value isUnitSecret) k := by
  obtain ⟨items, hnodup⟩ := items
  have hfields := nodupKeys_fields UnitField.name_injective hnodup
  have hunreserved : ∀ k ∈ Dict.keys (items.map fun e => (UnitField.name e.1, e.2)),
      k ∉ reservedFields := by
    intro k hk
    obtain ⟨_, hmem, rfl⟩ := List.mem_map.mp hk
    obtain ⟨e, -, rfl⟩ := List.mem_map.mp hmem
    exact e.1.1.2.2
  have hupdate : (items.filter (·.2 ≠ [])).map (fun e => (e.1.1.1, e.2)) =
      (items.map fun e => (UnitField.name e.1, e.2)).filter (·.2 ≠ []) := by
    rw [List.filter_map]
    rfl
  have hdelete : (items.filter (·.2 = [])).map (fun e => e.1.1.1) =
      Dict.keys ((items.map fun e => (UnitField.name e.1, e.2)).filter (·.2 = [])) := by
    rw [List.filter_map, Dict.keys, List.map_map]
    rfl
  unfold KafkaBroker.update fieldsOf
  simp only [hupdate, hdelete]
  generalize items.map (fun e => (UnitField.name e.1, e.2)) = fields at hfields hunreserved
  have hwritable : OwnData.Writable isUnitSecret p.localSecretFields
      (fields.filter (·.2 ≠ [])) := by
    refine ⟨fun k hk => ?_, fun k v hv hk => ?_⟩
    · have hnone : Dict.get? fields k = none := by
        by_contra hne
        exact hunreserved k (Dict.mem_keys_iff.mpr hne) hk
      rw [OwnData.get?_set_fields hfields, hnone]
      rfl
    · have hlocal : p.localSecretFields = secretsUnit := by
        unfold PeerData.localSecretFields
        rw [h.static]
        rfl
      have hmem := (Dict.mem_iff_get? (OwnData.NodupKeys_filter hfields _)).mpr hv
      rw [hlocal]
      exact ⟨of_decide_eq_true hk, of_decide_eq_true (List.mem_filter.mp hmem).2⟩
  obtain ⟨p1, hp1, h1, hv1⟩ := updateRelationData_spec (brokerInterface leader) h knows_unitSecret rfl
    (OwnData.NodupKeys_filter hfields _) hwritable
  obtain ⟨p2, hp2, h2, hv2⟩ := deleteFields_spec leader (Dict.keys (fields.filter (·.2 = []))) h1
  refine ⟨p2, ?_, h2, fun k => ?_⟩
  · rw [hp1]
    exact hp2
  · rw [hv2, hv1]
    exact get?_split hfields _ k

end broker

/-! ## Runs -/

/-- The map that the data stand for, in runs of hooks. -/
structure MapRun where
  saved : Str → Str
  live : Str → Str

def MapRun.empty : MapRun := ⟨fun _ => [], fun _ => []⟩

def MapRun.step {F : Type} (counts : Bool → Bool) (name : F → Str) (m : MapRun) :
    StoreEvent F → MapRun
  | .update leader items =>
    { m with live := writtenBy (counts leader) (fieldsOf name items) m.live }
  | .commit => { m with saved := m.live }
  | .fail => { m with live := m.saved }

section runs

variable {F : Type} {name : F → Str} {secretFields : List Str} {isSecret : Str → Bool}
  {counts : Bool → Bool} {write : Bool → Items F → PeerData → Except DataError PeerData}

/-- The two runs agree. -/
structure StoreRun.Refines (secretFields : List Str) (isSecret : Str → Bool) (r : StoreRun)
    (m : MapRun) : Prop where
  saved : r.saved.Clean isSecret
  live : Sound secretFields isSecret r.live
  savedValue : r.saved.value isSecret = m.saved
  liveValue : r.live.own.value isSecret = m.live

theorem StoreRun.opened_refines {o : OwnData} {m : Str → Str} (hclean : o.Clean isSecret)
    (hvalue : o.value isSecret = m) :
    (StoreRun.opened secretFields o).Refines secretFields isSecret ⟨m, m⟩ :=
  ⟨hclean, ⟨rfl, hclean, fun _ hk => nomatch hk⟩, hvalue, hvalue⟩

theorem StoreRun.empty_refines (secretFields : List Str) (isSecret : Str → Bool) :
    (StoreRun.opened secretFields OwnData.empty).Refines secretFields isSecret MapRun.empty := by
  have hclean : OwnData.empty.Clean isSecret := by
    refine ⟨Dict.NodupKeys.nil, fun _ _ => rfl, ?_, ?_⟩
    · intro _ _ h
      cases h
    · intro _ _ h
      cases h
  have hvalue : OwnData.empty.value isSecret = fun _ => [] := by
    funext k
    unfold OwnData.value
    split <;> rfl
  exact opened_refines hclean hvalue

theorem StoreRun.step_refines
    (hwrite : ∀ leader items p, Sound secretFields isSecret p →
      ∃ p', write leader items p = .ok p' ∧ Sound secretFields isSecret p' ∧
        ∀ k, p'.own.value isSecret k =
          writtenBy (counts leader) (fieldsOf name items) (p.own.value isSecret) k)
    {r : StoreRun} {m : MapRun} (h : r.Refines secretFields isSecret m) (e : StoreEvent F) :
    ∃ r', r.step secretFields write e = .ok r' ∧
      r'.Refines secretFields isSecret (m.step counts name e) := by
  cases e with
  | update leader items =>
    obtain ⟨p', hp, hsound, hvalue⟩ := hwrite leader items r.live h.live
    refine ⟨{ r with live := p' }, ?_, h.saved, hsound, h.savedValue, ?_⟩
    · rw [StoreRun.step, hp]
      rfl
    · funext k
      rw [hvalue, h.liveValue]
      rfl
  | commit => exact ⟨_, rfl, opened_refines h.live.clean h.liveValue⟩
  | fail => exact ⟨_, rfl, opened_refines h.saved h.savedValue⟩

theorem StoreRun.run_refines
    (hwrite : ∀ leader items p, Sound secretFields isSecret p →
      ∃ p', write leader items p = .ok p' ∧ Sound secretFields isSecret p' ∧
        ∀ k, p'.own.value isSecret k =
          writtenBy (counts leader) (fieldsOf name items) (p.own.value isSecret) k)
    (es : List (StoreEvent F)) {r : StoreRun} {m : MapRun}
    (h : r.Refines secretFields isSecret m) :
    ∃ r', es.foldlM (StoreRun.step secretFields write) r = .ok r' ∧
      r'.Refines secretFields isSecret (es.foldl (MapRun.step counts name) m) := by
  induction es generalizing r m with
  | nil => exact ⟨r, rfl, h⟩
  | cons e es ih =>
    obtain ⟨r1, hr1, h1⟩ := StoreRun.step_refines hwrite h e
    obtain ⟨r2, hr2, h2⟩ := ih h1
    refine ⟨r2, ?_, h2⟩
    rw [List.foldlM_cons, hr1]
    exact hr2

/-- What the charm sees of data that refine a map. -/
theorem StoreRun.Refines.seen {r : StoreRun} {m : MapRun} (h : r.Refines secretFields isSecret m)
    (hi : Knows secretFields isSecret) (i : PeerInterface) :
    (∀ k, i.get k r.live = .ok (m.live k)) ∧
    (∃ listed, i.items r.live = .ok listed ∧ ∀ k v, ¬ "secret-".toList.isPrefixOf k = true →
      (Dict.get? listed k = some v ↔ v = m.live k ∧ v ≠ [])) ∧
    (∀ k ∈ Dict.keys r.live.own.bag, isSecret k = false) := by
  refine ⟨fun k => ?_, ⟨_, items_eq i h.live hi, fun k v hk => ?_⟩, fun k hk => ?_⟩
  · rw [get_eq i h.live hi, h.liveValue]
  · rw [OwnData.get?_fetchAll h.live.clean (h.live.fits hi) hk, h.liveValue]
  · obtain ⟨v, hv⟩ := Option.ne_none_iff_exists'.mp (Dict.mem_keys_iff.mp hk)
    exact (h.live.clean.bag k v hv).1

end runs

/-- The same of the data of a unit, which the unit writes whether it leads or not. -/
theorem broker_store_refines (es : List (StoreEvent UnitField)) (leader : Bool) :
    ∃ r, es.foldlM (StoreRun.step secretsUnit KafkaBroker.update)
        (StoreRun.opened secretsUnit .empty) = .ok r ∧
      (∀ k, (brokerInterface leader).get k r.live =
        .ok ((es.foldl (MapRun.step (fun _ => true) UnitField.name) MapRun.empty).live k)) ∧
      ∀ k ∈ Dict.keys r.live.own.bag, isUnitSecret k = false := by
  obtain ⟨r, hr, hrefines⟩ := StoreRun.run_refines
    (fun leader items _ hp => KafkaBroker.update_spec leader hp items) es
    (StoreRun.empty_refines secretsUnit isUnitSecret)
  have hseen := hrefines.seen knows_unitSecret (brokerInterface leader)
  exact ⟨r, hr, hseen.1, hseen.2.2⟩

end KafkaCharm
