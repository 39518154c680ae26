import KafkaCharm.Credentials
import KafkaCharm.Lib.Dict
import KafkaCharm.Lib.Json
import Mathlib.Data.List.Dedup

/-! What an application or a unit keeps on a relation is in two places: its databag, and Juju secrets,
grouped. The data interface finds out for each field where it belongs. Secrets are those of a
model that has never been without them. -/

namespace KafkaCharm

open PyText

/-- `SECRET_GROUPS`, without those that are for client relations only. -/
inductive SecretGroup
  | extra
  | broker
  | balancer
  | controller
  deriving DecidableEq, Repr

/-- What a component owns on a relation: its databag, without the `secret-` fields, and
the contents of its secrets. There is a `secret-` field for each of these. -/
structure OwnData where
  bag : List (Str × Str)
  secret : SecretGroup → Option (List (Str × Str))

namespace OwnData

def empty : OwnData := ⟨[], fun _ => none⟩

/-- Setting a field to nothing removes it. -/
def bagSet (bag : List (Str × Str)) (field value : Str) : List (Str × Str) :=
  if value = [] then Dict.erase bag field else Dict.set bag field value

def content (o : OwnData) (group : SecretGroup) : List (Str × Str) := (o.secret group).getD []

/-- `_add_or_update_relation_secrets`: what is there stays unless it is replaced. -/
def addOrUpdateSecret (group : SecretGroup) (fields : List (Str × Str)) (o : OwnData) : OwnData :=
  { o with secret := Function.update o.secret group (some (Dict.update (o.content group) fields)) }

/-- A leader stays on the databag if a secret field is there already. -/
def fallbackToDatabag (leader : Bool) (secretFields : List Str) (o : OwnData) : Bool :=
  leader && secretFields.any (· ∈ Dict.keys o.bag)

/-- The fields that `_process_secret_fields` looks for in secrets. -/
def inSecrets (leader : Bool) (secretFields : List Str) (o : OwnData) (field : Str) : Bool :=
  !o.fallbackToDatabag leader secretFields && decide (field ∈ secretFields)

/-- `_update_relation_data`, with the groups of the fields. -/
def updateFields (groupOf : Str → SecretGroup) (leader : Bool) (secretFields : List Str)
    (fields : List (Str × Str)) (o : OwnData) : OwnData :=
  let secrets := fields.filter fun e => o.inSecrets leader secretFields e.1
  let normal := fields.filter fun e => !o.inSecrets leader secretFields e.1
  let groups := (secrets.map fun e => groupOf e.1).dedup
  let o := groups.foldl (fun o group =>
    o.addOrUpdateSecret group (secrets.filter fun e => groupOf e.1 = group)) o
  { o with bag := normal.foldl (fun bag e => bagSet bag e.1 e.2) o.bag }

/-- `_delete_relation_data` for one field. A secret goes with its last field; a field that
is in no secret gets a second chance in the databag. -/
def deleteField (groupOf : Str → SecretGroup) (leader : Bool) (secretFields : List Str)
    (field : Str) (o : OwnData) : OwnData :=
  let group := groupOf field
  if o.inSecrets leader secretFields field ∧ field ∈ Dict.keys (o.content group) then
    let rest := Dict.erase (o.content group) field
    { o with secret := Function.update o.secret group (if rest = [] then none else some rest) }
  else { o with bag := Dict.erase o.bag field }

/-- `_fetch_relation_data_with_secrets` for one field. -/
def fetchField (groupOf : Str → SecretGroup) (leader : Bool) (secretFields : List Str)
    (field : Str) (o : OwnData) : Option Str :=
  if o.inSecrets leader secretFields field then
    (Dict.get? (o.content (groupOf field)) field).or (Dict.get? o.bag field)
  else Dict.get? o.bag field

/-- `_fetch_relation_data_with_secrets` for all fields, on the peer relation, where there is
one group. -/
def fetchAll (leader : Bool) (secretFields : List Str) (o : OwnData) : List (Str × Str) :=
  let fields := (Dict.keys o.bag).filter (fun k => !"secret-".toList.isPrefixOf k) ++ secretFields
  let secrets := (o.content .extra).filter fun e => o.inSecrets leader secretFields e.1
  let normal := fields.filter fun k => !o.inSecrets leader secretFields k || secrets.isEmpty
  Dict.update secrets (o.bag.filter fun e => decide (e.1 ∈ normal))

variable {groupOf : Str → SecretGroup} {leader : Bool} {secretFields : List Str}

theorem get?_bagSet (bag : List (Str × Str)) (field value k : Str) :
    Dict.get? (bagSet bag field value) k =
      if field = k then (if value = [] then none else some value) else Dict.get? bag k := by
  unfold bagSet
  split
  · rw [Dict.get?_erase]
  · rw [Dict.get?_set]

theorem get?_foldl_bagSet {fields : List (Str × Str)} (hnodup : Dict.NodupKeys fields)
    (bag : List (Str × Str)) (k : Str) :
    Dict.get? (fields.foldl (fun bag e => bagSet bag e.1 e.2) bag) k =
      (Dict.get? fields k).elim (Dict.get? bag k) fun v => if v = [] then none else some v := by
  induction fields generalizing bag with
  | nil => rfl
  | cons e fields ih =>
    obtain ⟨hfresh, hrest⟩ := hnodup.of_cons
    rw [List.foldl_cons, ih hrest, get?_bagSet, Dict.get?_cons]
    by_cases he : e.1 = k
    · subst he
      simp [hfresh]
    · simp [he]

theorem NodupKeys_filter {fields : List (Str × Str)} (hnodup : Dict.NodupKeys fields)
    (p : Str × Str → Bool) : Dict.NodupKeys (fields.filter p) :=
  hnodup.sublist (List.filter_sublist.map _)

/-- The fields of a dictionary that are removed. -/
theorem mem_keys_removed {fields : List (Str × Str)} (hnodup : Dict.NodupKeys fields) {k : Str} :
    k ∈ Dict.keys (fields.filter (·.2 = [])) ↔ Dict.get? fields k = some [] := by
  rw [← Dict.mem_iff_get? hnodup]
  simp [Dict.keys]

/-- The fields that are set. -/
theorem get?_set_fields {fields : List (Str × Str)} (hnodup : Dict.NodupKeys fields) (k : Str) :
    Dict.get? (fields.filter (·.2 ≠ [])) k = (Dict.get? fields k).filter (· ≠ []) := by
  ext v
  rw [← Dict.mem_iff_get? (NodupKeys_filter hnodup _), Option.filter_eq_some_iff,
    ← Dict.mem_iff_get? hnodup]
  simp

theorem NodupKeys_foldl_bagSet (fields : List (Str × Str)) {bag : List (Str × Str)}
    (hnodup : Dict.NodupKeys bag) :
    Dict.NodupKeys (fields.foldl (fun bag e => bagSet bag e.1 e.2) bag) := by
  induction fields generalizing bag with
  | nil => exact hnodup
  | cons e fields ih =>
    apply ih
    change Dict.NodupKeys (bagSet bag e.1 e.2)
    unfold bagSet
    split
    · exact hnodup.erase e.1
    · exact hnodup.set e.1 e.2

theorem content_addOrUpdateSecret (group g : SecretGroup) (fields : List (Str × Str))
    (o : OwnData) :
    (o.addOrUpdateSecret group fields).content g =
      if g = group then Dict.update (o.content g) fields else o.content g := by
  unfold addOrUpdateSecret content
  by_cases hg : g = group
  · subst hg
    simp
  · simp [hg]

/-- Each group is written once. -/
theorem foldl_addOrUpdateSecret (write : SecretGroup → List (Str × Str))
    {groups : List SecretGroup} (hnodup : groups.Nodup) (o : OwnData) :
    (groups.foldl (fun o group => o.addOrUpdateSecret group (write group)) o).bag = o.bag ∧
    ∀ g, (groups.foldl (fun o group => o.addOrUpdateSecret group (write group)) o).content g =
      if g ∈ groups then Dict.update (o.content g) (write g) else o.content g := by
  induction groups generalizing o with
  | nil => exact ⟨rfl, fun g => rfl⟩
  | cons group groups ih =>
    obtain ⟨hnot, hrest⟩ := List.nodup_cons.mp hnodup
    obtain ⟨hbag, hcontent⟩ := ih hrest (o.addOrUpdateSecret group (write group))
    refine ⟨hbag, fun g => ?_⟩
    rw [List.foldl_cons, hcontent, content_addOrUpdateSecret]
    by_cases hg : g = group
    · subst hg
      simp [hnot]
    · simp [hg]

theorem bag_updateFields (fields : List (Str × Str)) (o : OwnData) :
    (o.updateFields groupOf leader secretFields fields).bag =
      (fields.filter fun e => !o.inSecrets leader secretFields e.1).foldl
        (fun bag e => bagSet bag e.1 e.2) o.bag := by
  unfold updateFields
  dsimp only
  rw [(foldl_addOrUpdateSecret _ (List.nodup_dedup _) o).1]

theorem content_updateFields (fields : List (Str × Str)) (o : OwnData) (g : SecretGroup) :
    (o.updateFields groupOf leader secretFields fields).content g =
      Dict.update (o.content g)
        (fields.filter fun e => o.inSecrets leader secretFields e.1 && (groupOf e.1 = g)) := by
  have hfold := (foldl_addOrUpdateSecret
    (fun group => (fields.filter fun e => o.inSecrets leader secretFields e.1).filter
      fun e => groupOf e.1 = group)
    (List.nodup_dedup ((fields.filter fun e => o.inSecrets leader secretFields e.1).map
      fun e => groupOf e.1)) o).2 g
  change (List.foldl _ o _).content g = _
  rw [hfold, List.filter_filter]
  simp only [Bool.and_comm]
  split
  · rfl
  · rename_i hnot
    rw [List.filter_eq_nil_iff.mpr, Dict.update_nil]
    intro e he hkeep
    rw [Bool.and_eq_true, decide_eq_true_eq] at hkeep
    exact hnot (List.mem_dedup.mpr
      (List.mem_map.mpr ⟨e, List.mem_filter.mpr ⟨he, hkeep.2⟩, hkeep.1⟩))

theorem content_update (o : OwnData) (bag : List (Str × Str)) (group g : SecretGroup)
    (rest : List (Str × Str)) :
    content ⟨bag, Function.update o.secret group (if rest = [] then none else some rest)⟩ g =
      if g = group then rest else o.content g := by
  unfold content
  by_cases hg : g = group
  · subst hg
    by_cases hrest : rest = []
    · simp [hrest]
    · simp [hrest]
  · simp [hg]

theorem deleteField_of_mem {f : Str} {o : OwnData}
    (hin : o.inSecrets leader secretFields f = true)
    (hmem : f ∈ Dict.keys (o.content (groupOf f))) :
    (o.deleteField groupOf leader secretFields f).bag = o.bag ∧
    ∀ g, (o.deleteField groupOf leader secretFields f).content g =
      if g = groupOf f then Dict.erase (o.content (groupOf f)) f else o.content g := by
  unfold deleteField
  dsimp only
  rw [if_pos ⟨hin, hmem⟩]
  exact ⟨rfl, fun g => content_update o o.bag (groupOf f) g _⟩

theorem deleteField_of_not {f : Str} {o : OwnData}
    (hnot : ¬ (o.inSecrets leader secretFields f = true ∧
      f ∈ Dict.keys (o.content (groupOf f)))) :
    o.deleteField groupOf leader secretFields f = { o with bag := Dict.erase o.bag f } :=
  if_neg hnot

end OwnData

/-! ## The peer relation -/

inductive DataError
  | illegalOperation
  | notDecoded
  deriving DecidableEq, Repr

/-- The fields of a databag that the interface itself takes for lists of secret fields, and
for the place of a secret. -/
def reservedFields : List Str :=
  ["requested-secrets", "provided-secrets", "internal_secret"].map String.toList

/-- `get_encoded_list`, where lists of names are written. -/
def getEncodedList (bag : List (Str × Str)) (field : Str) : Except DataError (List Str) :=
  match Dict.get? bag field with
  | none => .ok []
  | some text =>
    match Json.loads text with
    | none => .error .notDecoded
    | some (.arr items) =>
      match items.mapM fun | .str points => Json.text? points | _ => none with
      | none => .error .notDecoded
      | some names => .ok names
    | some _ => .ok []

/-- `DataPeerData` and `DataPeerUnitData` in a hook: whose data it is, and whether the unit
leads. -/
structure PeerInterface where
  app : Bool
  leader : Bool

/-- The data with the secret fields that are fixed, and those that were added as secrets in
this hook. -/
structure PeerData where
  own : OwnData
  staticSecretFields : List Str
  newSecrets : List Str

namespace PeerData

variable (p : PeerData)

def currentSecretFields : List Str := Dict.keys (p.own.content .extra) ++ p.newSecrets

def localSecretFields : List Str :=
  if p.staticSecretFields ≠ [] then p.staticSecretFields else p.currentSecretFields

/-- `either_static_or_dynamic_secrets`. -/
def eitherStaticOrDynamic : Bool :=
  p.staticSecretFields.isEmpty || p.currentSecretFields.all (· ∈ p.staticSecretFields)

/-- `_load_secrets_from_databag`. -/
def loadSecretsFromDatabag : Except DataError PeerData := do
  let requestedSecrets ← getEncodedList p.own.bag "requested-secrets".toList
  let _providedSecrets ← getEncodedList p.own.bag "provided-secrets".toList
  return if requestedSecrets ≠ [] then { p with staticSecretFields := requestedSecrets } else p

end PeerData

namespace PeerInterface

variable (i : PeerInterface)

/-- On the peer relation fields have no group. -/
def groupOf : Str → SecretGroup := fun _ => .extra

/-- `_legacy_migration_remove_secret_from_databag`. -/
def legacyRemoveSecretFromDatabag (fields : List Str) (p : PeerData) : PeerData :=
  let passed := fields.filter (· ∈ p.localSecretFields)
  { p with own.bag := passed.foldl Dict.erase p.own.bag }

/-- `_legacy_migration_remove_secret_field_name_from_databag`. -/
def legacyRemoveSecretFieldName (p : PeerData) : PeerData :=
  let found := decide ("internal_secret".toList ∈ Dict.keys p.own.bag)
  if found && (p.own.secret .extra).isSome && (!i.app || i.leader) then
    { p with own.bag := Dict.erase p.own.bag "internal_secret".toList }
  else p

def legacyApplyOnUpdate (fields : List Str) (p : PeerData) : PeerData :=
  i.legacyRemoveSecretFieldName (legacyRemoveSecretFromDatabag fields p)

/-- `leader_only`. -/
def leaderOnly (f : PeerData → Except DataError PeerData) (p : PeerData) :
    Except DataError PeerData :=
  if i.app && !i.leader then .ok p else f p

def updateRelationData (fields : List (Str × Str)) : PeerData → Except DataError PeerData :=
  i.leaderOnly fun p => do
    let p := i.legacyApplyOnUpdate (Dict.keys fields) p
    if p.eitherStaticOrDynamic then
      let p ← p.loadSecretsFromDatabag
      return { p with own := p.own.updateFields groupOf i.leader p.localSecretFields fields }
    else .error .illegalOperation

def deleteRelationData (field : Str) : PeerData → Except DataError PeerData :=
  i.leaderOnly fun p => do
    if p.eitherStaticOrDynamic then
      let p ← p.loadSecretsFromDatabag
      return { p with own := p.own.deleteField groupOf i.leader p.localSecretFields field }
    else .error .illegalOperation

/-- `set_secret`, for interfaces whose secret fields are not fixed. -/
def setSecret (field value : Str) (p : PeerData) : Except DataError PeerData :=
  if p.staticSecretFields ≠ [] then .error .illegalOperation
  else
    let p := i.legacyApplyOnUpdate [field] p
    let p := if field ∈ p.currentSecretFields then p
      else { p with newSecrets := p.newSecrets ++ [field] }
    i.updateRelationData [(field, value)] p

def deleteSecret (field : Str) (p : PeerData) : Except DataError PeerData :=
  if p.staticSecretFields ≠ [] then .error .illegalOperation
  else if field ∈ p.currentSecretFields then i.deleteRelationData field p
  else .ok p

/-- `relation_data.get`. -/
def get (field : Str) (p : PeerData) : Except DataError Str :=
  if p.eitherStaticOrDynamic then
    .ok ((p.own.fetchField groupOf i.leader p.localSecretFields field).getD [])
  else .error .illegalOperation

/-- `relation_data.items`. -/
def items (p : PeerData) : Except DataError (List (Str × Str)) :=
  if p.eitherStaticOrDynamic then .ok (p.own.fetchAll i.leader p.localSecretFields)
  else .error .illegalOperation

end PeerInterface

/-! ## The charm -/

/-- `SECRET_LABEL_MAP`. -/
def secretLabelMap (field : Str) : Option SecretGroup :=
  if field ∈ ["broker-username", "broker-password", "broker-uris"].map String.toList then
    some .broker
  else if field = "controller-password".toList then some .controller
  else if field ∈ ["balancer-username", "balancer-password", "balancer-uris"].map String.toList then
    some .balancer
  else none

/-- A field name without the separator of secret groups, and none that the interface keeps
for itself. -/
abbrev Field := { k : Str // '@' ∉ k ∧ k ∉ reservedFields }

/-- A field that the other application is not sent: `RelationState.update` writes those that
it is sent into secrets of their own. -/
abbrev UnitField := { k : Field // secretLabelMap k.1 = none }

/-- What is written at once: a dictionary. -/
abbrev Items (F : Type) := { items : List (F × Str) // Dict.NodupKeys items }

/-- `SECRETS_APP`. -/
def secretsApp : List Str :=
  (internalUsers ++ ["balancer".toList, "controller".toList]).map (· ++ "-password".toList) ++
    ["internal-ca".toList, "internal-ca-key".toList]

/-- `SECRETS_UNIT`. -/
def secretsUnit : List Str :=
  ["truststore-password", "keystore-password", "client-ca-cert", "client-certificate",
    "client-chain", "client-csr", "client-private-key", "peer-ca-cert", "peer-certificate",
    "peer-chain", "peer-csr", "peer-private-key"].map String.toList

/-- The fields of the application that are secret, with those of clients. -/
def isAppSecret (field : Str) : Bool :=
  decide (field ∈ secretsApp) || "relation-".toList.isPrefixOf field

/-- `KafkaCluster`, as a unit uses it. -/
def clusterInterface (leader : Bool) : PeerInterface := ⟨true, leader⟩

/-- `KafkaBroker`. -/
def brokerInterface (leader : Bool) : PeerInterface := ⟨false, leader⟩

/-- One field of `KafkaCluster.update`. -/
def KafkaCluster.updateItem (leader : Bool) (p : PeerData) (item : Field × Str) :
    Except DataError PeerData :=
  if isAppSecret item.1 then
    if item.2 ≠ [] then (clusterInterface leader).setSecret item.1 item.2 p
    else (clusterInterface leader).deleteSecret item.1 p
  else (clusterInterface leader).updateRelationData [(item.1.1, item.2)] p

def KafkaCluster.update (leader : Bool) (items : Items Field) (p : PeerData) :
    Except DataError PeerData :=
  items.1.foldlM (KafkaCluster.updateItem leader) p

/-- `RelationState.update` on the data of a unit: fields are set, then those without a
value are removed. -/
def KafkaBroker.update (leader : Bool) (items : Items UnitField) (p : PeerData) :
    Except DataError PeerData := do
  let updateContent := (items.1.filter (·.2 ≠ [])).map fun e => (e.1.1.1, e.2)
  let deleteFields := (items.1.filter (·.2 = [])).map fun e => e.1.1.1
  let p ← (brokerInterface leader).updateRelationData updateContent p
  deleteFields.foldlM (fun p field => (brokerInterface leader).deleteRelationData field p) p

/-! ## Hooks -/

/-- In a hook data are written; it ends with all that was written, or fails and leaves
nothing of it. -/
inductive StoreEvent (F : Type)
  | update (leader : Bool) (items : Items F)
  | commit
  | fail

/-- The data as the last hook left them, and as the running one sees them. -/
structure StoreRun where
  saved : OwnData
  live : PeerData

/-- A hook begins with the secret fields that the interface was made with. -/
def StoreRun.opened (secretFields : List Str) (saved : OwnData) : StoreRun :=
  ⟨saved, saved, secretFields, []⟩

def StoreRun.step {F : Type} (secretFields : List Str)
    (write : Bool → Items F → PeerData → Except DataError PeerData) (r : StoreRun) :
    StoreEvent F → Except DataError StoreRun
  | .update leader items => (write leader items r.live).map fun live => { r with live }
  | .commit => .ok (opened secretFields r.live.own)
  | .fail => .ok (opened secretFields r.saved)

end KafkaCharm
