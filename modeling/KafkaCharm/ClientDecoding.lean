import KafkaCharm.ClientRequest
import KafkaCharm.Lib.Fallible

namespace KafkaCharm

open PyText
open Json (Doc points text? member)
open Fallible (exists_mapM exists_of_mapM exists_of_mem_mapM mapM_mono mem_of_mapM)

/-! ## Relation data -/

/-- The databags of the applications at the other end of the `kafka-client` relations, by the
id of the relation. An application that is not known yet has none. -/
structure ClientDatabags where
  bags : List (Nat × Option (List (String × Str)))
  nodupKeys : Dict.NodupKeys bags

/-- What is not in the databags: the contents of the secrets that can be read, and which values
the request model takes for a `bool`. -/
structure DataInterface where
  secrets : Str → Option (List (String × Str))
  acceptsBool : Doc → Bool

/-- A value of `relation_data`: a text of the databag, which is decoded, or one of a secret,
which is not. -/
inductive FieldText where
  | databag (text : Str)
  | secret (text : Str)

def FieldText.text : FieldText → Str
  | databag text => text
  | secret text => text

def FieldText.doc : FieldText → Doc
  | databag text => decodeValue text
  | secret text => .str (points text)

/-- `get_secret(id=...)` and its content; `none` where it raises. -/
def DataInterface.content (D : DataInterface) (field : Option FieldText) :
    Option (List (String × Str)) :=
  match field.map FieldText.doc with
  | some (.str uri) => (text? uri).bind D.secrets
  | _ => none

/-- One round of the loop over the secret fields. -/
def DataInterface.addSecret (D : DataInterface) (fields : List (String × FieldText))
    (name : String) : Option (List (String × FieldText)) :=
  (D.content (Dict.get? fields name)).map fun content =>
    Dict.update fields (content.map fun e => (e.1, .secret e.2))

/-- `RelationStateV1.relation_data` of a remote application; `none` where a secret cannot be
read. -/
def DataInterface.relationFields (D : DataInterface) (bag : List (String × Str)) :
    Option (List (String × FieldText)) :=
  let names := (Dict.keys bag).filter fun name => secretPrefix.isPrefixOf name.toList
  names.foldlM D.addSecret (bag.map fun e => (e.1, .databag e.2))

/-- The values as the charm sees them. -/
def documents (fields : List (String × FieldText)) : List (String × Doc) :=
  fields.map fun e => (e.1, e.2.doc)

/-! ## Requests and clients -/

/-- `KafkaRequestModel(**fields)` with the checks of the fields that no client reads: `salt` is
a `str` and `external_node_connectivity` a `bool`. -/
def DataInterface.requestModel (D : DataInterface) (get : String → Option Doc) :
    Option KafkaRequest :=
  if ((get "salt").all fun d => (strField d).isSome) &&
      (firstGiven get ["external-node-connectivity", "external_node_connectivity"]).all
        D.acceptsBool then
    kafkaRequestModel get
  else none

/-- `KafkaRequestModel(**req)`, which takes an object only. -/
def DataInterface.entryModel (D : DataInterface) : Doc → Option KafkaRequest
  | .obj members => D.requestModel (member members)
  | _ => none

/-- `requests` in `ClusterState.clients`. -/
def DataInterface.requests (D : DataInterface) (data : List (String × Doc)) :
    Option (List KafkaRequest) :=
  if isV0 data then (D.requestModel (Dict.get? data)).map ([·])
  else (requestEntries (Dict.get? data "requests")).bind fun entries => entries.mapM D.entryModel

/-- The clients of one relation. -/
def DataInterface.relationClients (D : DataInterface) (relationId : Nat)
    (bag : List (String × Str)) : Option (List KafkaClient) := do
  let fields ← D.relationFields bag
  let requests ← D.requests (documents fields)
  return requests.map (kafkaClient relationId (documents fields))

/-- The round of `ClusterState.clients` for a relation. -/
def DataInterface.clientRound (D : DataInterface) :
    Nat × Option (List (String × Str)) → Option (List (Nat × KafkaClient))
  | (_, none) => some []
  | (id, some bag) => (D.relationClients id bag).map fun cs => cs.map (id, ·)

/-- `ClusterState.clients`, with the relation of each. -/
def DataInterface.clusterClients (D : DataInterface) (d : ClientDatabags) :
    Option (List (Nat × KafkaClient)) :=
  (d.bags.mapM D.clientRound).map List.flatten

/-! ## Databags that are accepted -/

/-- A value that the request model takes for a `str`. -/
def IsText (d : Doc) : Prop := ∃ s, strField d = some s

/-- The text that is given under one of the names. -/
def givenText (get : String → Option Doc) (names : List String) : Option Str :=
  (firstGiven get names).bind strField

/-- The fields of type `str | None`, with the names under which they may be given. -/
def optionalTexts : List (List String) :=
  [["request-id", "request_id"], ["extra-user-roles", "extra_user_roles"],
    ["extra-group-roles", "extra_group_roles"], ["entity-type", "entity_type"],
    ["secret-mtls", "secret_mtls"], ["mtls-cert", "mtls_cert"],
    ["consumer-group-prefix", "consumer_group_prefix"]]

/-- The fields of a request apart from its resource are of their types, and pass the checks of
the model. -/
structure FieldsAccepted (D : DataInterface) (get : String → Option Doc) : Prop where
  texts : ∀ names ∈ optionalTexts, ∀ d, firstGiven get names = some d → d = .null ∨ IsText d
  salt : ∀ d, get "salt" = some d → IsText d
  connectivity : ∀ d, firstGiven get ["external-node-connectivity", "external_node_connectivity"] =
    some d → D.acceptsBool d = true
  permissions : ∀ d, firstGiven get ["entity-permissions", "entity_permissions"] = some d →
    d = .null ∨ ∃ items, d = .arr items ∧ ∀ item ∈ items, ∃ p, entityPermission item = some p
  secret : ∀ uri, givenText get ["secret-mtls", "secret_mtls"] = some uri → secretScheme <:+: uri
  group : isTopicValueAcceptable
    (givenText get ["consumer-group-prefix", "consumer_group_prefix"]) = true
  entity : fieldsConsistent (givenText get ["entity-type", "entity_type"])
    (givenText get ["extra-user-roles", "extra_user_roles"])
    (givenText get ["extra-group-roles", "extra_group_roles"]) = true

/-- The value that the request model takes for the topic. -/
def givenTopic (fields : List (String × FieldText)) : Option FieldText :=
  resourceAliases.findSome? fun name => Dict.get? fields name

/-- A databag that can be read: its secrets can, and on v0 its topic is no JSON document, unless
it is in a secret, and its other fields are accepted; else `requests` is empty or an array of
objects with accepted fields. -/
def BagAccepted (D : DataInterface) (bag : List (String × Str)) : Prop :=
  ∃ fields, D.relationFields bag = some fields ∧
    if isV0 (documents fields) then
      (∀ t, givenTopic fields = some (.databag t) → Json.loads t = none) ∧
        FieldsAccepted D (Dict.get? (documents fields))
    else
      ∃ entries, requestEntries (Dict.get? (documents fields) "requests") = some entries ∧
        ∀ entry ∈ entries, ∃ members, entry = .obj members ∧
          (∀ d, firstGiven (member members) resourceAliases = some d → IsText d) ∧
          FieldsAccepted D (member members)

/-- `ClusterState.clients` returns, and for every relation of version v0 that gives a topic there
is a client with that topic. -/
def TopicsDecoded (D : DataInterface) (d : ClientDatabags) : Prop :=
  ∃ cs, D.clusterClients d = some cs ∧
    ∀ id bag, (id, some bag) ∈ d.bags → ∀ fields, D.relationFields bag = some fields →
      isV0 (documents fields) = true → ∀ topic, givenTopic fields = some topic →
        ∃ c, (id, c) ∈ cs ∧ c.topic = topic.text

/-! ## The request model -/

theorem optionalStrField_eq_some {o : Option Doc} {v : Option Str} :
    optionalStrField o = some v ↔
      (∀ d, o = some d → d = .null ∨ IsText d) ∧ v = o.bind strField := by
  cases o with
  | none => simp [optionalStrField, eq_comm]
  | some d =>
    cases d with
    | null => simp [optionalStrField, strField, eq_comm]
    | str ps =>
      simp only [optionalStrField, IsText, Option.map_eq_some_iff, Option.some.injEq, forall_eq',
        reduceCtorEq, false_or, Option.bind_some]
      constructor
      · rintro ⟨s, hs, rfl⟩
        exact ⟨⟨s, hs⟩, hs.symm⟩
      · rintro ⟨⟨s, hs⟩, rfl⟩
        exact ⟨s, hs, hs.symm⟩
    | _ => simp [optionalStrField, strField, IsText]

theorem entityPermissionsField_isSome {o : Option Doc} :
    (∃ v, entityPermissionsField o = some v) ↔ ∀ d, o = some d →
      d = .null ∨ ∃ items, d = .arr items ∧ ∀ item ∈ items, ∃ p, entityPermission item = some p := by
  cases o with
  | none => simp [entityPermissionsField]
  | some d =>
    cases d with
    | null => simp [entityPermissionsField]
    | arr items =>
      simp only [entityPermissionsField, Option.map_eq_some_iff, Option.some.injEq, forall_eq',
        reduceCtorEq, false_or, Doc.arr.injEq, exists_eq_left']
      constructor
      · rintro ⟨v, ps, hps, -⟩
        exact exists_of_mapM hps
      · intro hall
        obtain ⟨ps, hps⟩ := exists_mapM hall
        exact ⟨some ps, ps, hps, rfl⟩
    | _ => simp [entityPermissionsField]

theorem isSome_strField {d : Doc} : (strField d).isSome = true ↔ IsText d := Option.isSome_iff_exists

/-- A field of type `str | None` is read if it is missing, null or a text. -/
theorem optionalStrField_read {get : String → Option Doc} {names : List String}
    (h : ∀ names ∈ optionalTexts, ∀ d, firstGiven get names = some d → d = .null ∨ IsText d)
    (hnames : names ∈ optionalTexts) :
    optionalStrField (firstGiven get names) = some (givenText get names) :=
  optionalStrField_eq_some.mpr ⟨h names hnames, rfl⟩

namespace DataInterface

variable {D : DataInterface} {get : String → Option Doc}

/-- The checks of the fields that no client reads. -/
theorem otherFields_pass_iff :
    (((get "salt").all fun d => (strField d).isSome) &&
        (firstGiven get ["external-node-connectivity", "external_node_connectivity"]).all
          D.acceptsBool) = true ↔
      (∀ d, get "salt" = some d → IsText d) ∧
        ∀ d, firstGiven get ["external-node-connectivity", "external_node_connectivity"] = some d →
          D.acceptsBool d = true := by
  simp only [Bool.and_eq_true, Option.all_eq_true, isSome_strField]

/-- The fields of a request that the model takes are accepted. -/
theorem accepted_of_requestModel {r : KafkaRequest} (h : D.requestModel get = some r) :
    textField (firstGiven get resourceAliases) = some r.resource ∧ FieldsAccepted D get := by
  unfold requestModel at h
  split at h
  case isFalse => cases h
  case isTrue hpassed =>
    obtain ⟨hsalt, hconnectivity⟩ := otherFields_pass_iff.mp hpassed
    simp only [kafkaRequestModel, Option.bind_eq_bind, Option.bind_eq_some_iff,
      optionalStrField_eq_some] at h
    obtain ⟨resource, hresource, -, ⟨hid, rfl⟩, -, ⟨hroles, rfl⟩, -, ⟨hgroups, rfl⟩, -,
      ⟨htype, rfl⟩, permissions, hpermissions, -, ⟨hsecret, rfl⟩, -, ⟨hcert, rfl⟩, -,
      ⟨hgroupPrefix, rfl⟩, h⟩ := h
    split at h
    case isFalse => cases h
    case isTrue hvalid =>
      cases h
      simp only [Bool.and_eq_true] at hvalid
      obtain ⟨⟨huri, hgroup⟩, hentity⟩ := hvalid
      refine ⟨hresource, ?_, hsalt, hconnectivity,
        entityPermissionsField_isSome.mp ⟨permissions, hpermissions⟩, ?_, hgroup, hentity⟩
      · simp only [optionalTexts, List.forall_mem_cons]
        exact ⟨hid, hroles, hgroups, htype, hsecret, hcert, hgroupPrefix, List.forall_mem_nil _⟩
      · intro uri hgiven
        exact of_decide_eq_true ((Option.all_eq_true _ _).mp huri uri hgiven)

/-- Accepted fields make a request with the resource that is given. -/
theorem requestModel_of_accepted {t : Str}
    (hresource : textField (firstGiven get resourceAliases) = some t) (h : FieldsAccepted D get) :
    ∃ r, D.requestModel get = some r ∧ r.resource = t := by
  obtain ⟨permissions, hpermissions⟩ := entityPermissionsField_isSome.mpr h.permissions
  have hread {names : List String} (hnames : names ∈ optionalTexts) :=
    optionalStrField_read h.texts hnames
  have hsecret : ((givenText get ["secret-mtls", "secret_mtls"]).all fun uri =>
      decide (secretScheme <:+: uri)) = true :=
    (Option.all_eq_true _ _).mpr fun uri hgiven => decide_eq_true (h.secret uri hgiven)
  unfold requestModel
  rw [if_pos (otherFields_pass_iff.mpr ⟨h.salt, h.connectivity⟩)]
  unfold kafkaRequestModel
  rw [hresource, hread (by decide), hread (by decide), hread (by decide), hread (by decide),
    hpermissions, hread (by decide), hread (by decide), hread (by decide)]
  simp only [Option.bind_eq_bind, Option.bind_some, hsecret, h.group, h.entity, Bool.and_self,
    if_true]
  exact ⟨_, rfl, rfl⟩

end DataInterface

theorem textField_isSome {o : Option Doc} :
    (∃ t, textField o = some t) ↔ ∀ d, o = some d → IsText d := by
  cases o with
  | none => simp [textField]
  | some d => simp [textField, IsText]

namespace DataInterface

variable {D : DataInterface}

theorem entryModel_isSome {entry : Doc} :
    (∃ r, D.entryModel entry = some r) ↔ ∃ members, entry = .obj members ∧
      (∀ d, firstGiven (member members) resourceAliases = some d → IsText d) ∧
      FieldsAccepted D (member members) := by
  cases entry with
  | obj members =>
    simp only [entryModel, Doc.obj.injEq, exists_eq_left']
    rw [← textField_isSome]
    constructor
    · rintro ⟨r, hr⟩
      obtain ⟨htext, hfields⟩ := accepted_of_requestModel hr
      exact ⟨⟨_, htext⟩, hfields⟩
    · rintro ⟨⟨t, ht⟩, hfields⟩
      obtain ⟨r, hr, -⟩ := requestModel_of_accepted ht hfields
      exact ⟨r, hr⟩
  | _ => simp [entryModel]

/-! ## Topics -/

theorem get?_documents (fields : List (String × FieldText)) (name : String) :
    Dict.get? (documents fields) name = (Dict.get? fields name).map FieldText.doc :=
  Dict.get?_map FieldText.doc fields name

theorem firstGiven_documents (fields : List (String × FieldText)) :
    firstGiven (Dict.get? (documents fields)) resourceAliases =
      (givenTopic fields).map FieldText.doc := by
  unfold firstGiven givenTopic
  rw [List.map_findSome?]
  simp only [Function.comp_def, get?_documents]

/-- A text of the databag is read as it was written exactly if it is no JSON document, and a
text of a secret always is. -/
theorem strField_doc_iff {f : FieldText} :
    strField f.doc = some f.text ↔ ∀ t, f = .databag t → Json.loads t = none := by
  cases f with
  | databag text =>
    simp only [FieldText.doc, FieldText.text, FieldText.databag.injEq, forall_eq']
    exact strField_decodeValue_iff
  | secret text => simp [FieldText.doc, FieldText.text, strField, Json.text?_points]

/-- What the clients of a databag show of it: on v0, its topic. -/
def ShowsTopic (fields : List (String × FieldText)) (cs : List KafkaClient) : Prop :=
  isV0 (documents fields) = true → ∀ topic, givenTopic fields = some topic →
    ∃ c ∈ cs, c.topic = topic.text

theorem relationClients_eq_some {id : Nat} {bag : List (String × Str)} {cs : List KafkaClient} :
    D.relationClients id bag = some cs ↔ ∃ fields requests, D.relationFields bag = some fields ∧
      D.requests (documents fields) = some requests ∧
      cs = requests.map (kafkaClient id (documents fields)) := by
  simp only [relationClients, Option.bind_eq_bind, Option.bind_eq_some_iff]
  constructor
  · rintro ⟨fields, hfields, requests, hrequests, hcs⟩
    exact ⟨fields, requests, hfields, hrequests, (Option.some.inj hcs).symm⟩
  · rintro ⟨fields, requests, hfields, hrequests, rfl⟩
    exact ⟨fields, hfields, requests, hrequests, rfl⟩

/-- On v0 a databag is accepted if it makes a client with its topic. -/
theorem accepted_v0_iff {fields : List (String × FieldText)} :
    ((∀ t, givenTopic fields = some (.databag t) → Json.loads t = none) ∧
        FieldsAccepted D (Dict.get? (documents fields))) ↔
      ∃ r, D.requestModel (Dict.get? (documents fields)) = some r ∧
        ∀ topic, givenTopic fields = some topic → r.resource = topic.text := by
  constructor
  · rintro ⟨htopic, hfields⟩
    have hread : textField ((givenTopic fields).map FieldText.doc) =
        some (((givenTopic fields).map FieldText.text).getD []) := by
      cases hgiven : givenTopic fields with
      | none => rfl
      | some f => exact strField_doc_iff.mpr fun t ht => htopic t (hgiven.trans (congrArg some ht))
    rw [← firstGiven_documents] at hread
    obtain ⟨r, hr, hresource⟩ := requestModel_of_accepted hread hfields
    refine ⟨r, hr, fun topic hgiven => ?_⟩
    rw [hresource, hgiven]
    rfl
  · rintro ⟨r, hr, hresource⟩
    obtain ⟨hread, hfields⟩ := accepted_of_requestModel hr
    refine ⟨fun t hgiven => ?_, hfields⟩
    rw [firstGiven_documents, hgiven, hresource _ hgiven] at hread
    exact strField_doc_iff.mp hread t rfl

theorem requests_v0 {data : List (String × Doc)} (h : isV0 data = true) :
    D.requests data = (D.requestModel (Dict.get? data)).map ([·]) := by
  rw [requests, if_pos h]

theorem requests_not_v0 {data : List (String × Doc)} (h : isV0 data = false) :
    (∃ rs, D.requests data = some rs) ↔
      ∃ entries, requestEntries (Dict.get? data "requests") = some entries ∧
        ∀ entry ∈ entries, ∃ members, entry = .obj members ∧
          (∀ d, firstGiven (member members) resourceAliases = some d → IsText d) ∧
          FieldsAccepted D (member members) := by
  rw [requests, if_neg (by simp [h])]
  simp only [Option.bind_eq_some_iff, ← entryModel_isSome]
  constructor
  · rintro ⟨rs, entries, hentries, hrs⟩
    exact ⟨entries, hentries, exists_of_mapM hrs⟩
  · rintro ⟨entries, hentries, hall⟩
    obtain ⟨rs, hrs⟩ := exists_mapM hall
    exact ⟨rs, entries, hentries, hrs⟩

/-- A databag is accepted if clients can be made from it, and these show its topic. -/
theorem bagAccepted_iff (id : Nat) {bag : List (String × Str)} :
    BagAccepted D bag ↔ ∃ fields cs, D.relationFields bag = some fields ∧
      D.relationClients id bag = some cs ∧ ShowsTopic fields cs := by
  unfold BagAccepted
  constructor
  · rintro ⟨fields, hfields, haccepted⟩
    split at haccepted
    case isTrue hv0 =>
      obtain ⟨r, hr, htopic⟩ := accepted_v0_iff.mp haccepted
      have hrequests : D.requests (documents fields) = some [r] := by
        rw [requests_v0 hv0, hr]
        rfl
      refine ⟨fields, _, hfields,
        relationClients_eq_some.mpr ⟨fields, [r], hfields, hrequests, rfl⟩, ?_⟩
      intro _ topic hgiven
      exact ⟨_, List.mem_singleton_self _, htopic topic hgiven⟩
    case isFalse hv0 =>
      obtain ⟨rs, hrs⟩ := (requests_not_v0 (Bool.eq_false_iff.mpr hv0)).mpr haccepted
      refine ⟨fields, _, hfields, relationClients_eq_some.mpr ⟨fields, rs, hfields, hrs, rfl⟩, ?_⟩
      intro htrue
      exact absurd htrue hv0
  · rintro ⟨fields, cs, hfields, hcs, hshows⟩
    obtain ⟨fields', rs, hfields', hrs, rfl⟩ := relationClients_eq_some.mp hcs
    obtain rfl := Option.some.inj (hfields.symm.trans hfields')
    refine ⟨fields, hfields, ?_⟩
    split
    case isTrue hv0 =>
      rw [requests_v0 hv0] at hrs
      obtain ⟨r, hr, rfl⟩ := Option.map_eq_some_iff.mp hrs
      refine accepted_v0_iff.mpr ⟨r, hr, fun topic hgiven => ?_⟩
      obtain ⟨c, hc, htopic⟩ := hshows hv0 topic hgiven
      obtain rfl := List.mem_singleton.mp hc
      exact htopic
    case isFalse hv0 => exact (requests_not_v0 (Bool.eq_false_iff.mpr hv0)).mp ⟨rs, hrs⟩

/-! ## Without errors

Where nothing raises, the clients of a relation are those that `clients` makes of it. -/

/-- The secrets, with no content for those that cannot be read. -/
def contents (D : DataInterface) (uri : Str) : List (String × Str) := (D.secrets uri).getD []

theorem content_eq_some {field : Option FieldText} {content : List (String × Str)}
    (h : D.content field = some content) :
    resolveSecret D.contents (field.map FieldText.doc) = content := by
  unfold DataInterface.content at h
  split at h
  case h_1 uri huri =>
    obtain ⟨text, htext, hsecret⟩ := Option.bind_eq_some_iff.mp h
    rw [huri, resolveSecret, htext]
    simp [contents, hsecret]
  case h_2 => cases h

theorem addSecret_documents {fields fields' : List (String × FieldText)} {name : String}
    (h : D.addSecret fields name = some fields') :
    documents fields' = (resolveSecret D.contents (Dict.get? (documents fields) name)).foldl
      (fun d e => Dict.set d e.1 (.str (points e.2))) (documents fields) := by
  obtain ⟨content, hcontent, rfl⟩ := Option.map_eq_some_iff.mp h
  rw [get?_documents, content_eq_some hcontent]
  unfold documents
  rw [Dict.map_update, List.map_map, Dict.update, List.foldl_map]
  rfl

/-- No secret has a field that would name another secret. -/
def PlainSecrets (D : DataInterface) : Prop :=
  ∀ uri content, D.secrets uri = some content →
    ∀ e ∈ content, secretPrefix.isPrefixOf e.1.toList = false

theorem addSecret_get? (hplain : D.PlainSecrets) {fields fields' : List (String × FieldText)}
    {name : String} (h : D.addSecret fields name = some fields') {other : String}
    (hother : secretPrefix.isPrefixOf other.toList = true) :
    Dict.get? fields' other = Dict.get? fields other := by
  obtain ⟨content, hcontent, rfl⟩ := Option.map_eq_some_iff.mp h
  apply Dict.get?_update_of_notMem
  intro hmem
  rw [Dict.keys, List.map_map] at hmem
  obtain ⟨e, he, rfl⟩ := List.mem_map.mp hmem
  unfold DataInterface.content at hcontent
  split at hcontent
  case h_1 =>
    obtain ⟨uri, -, hsecret⟩ := Option.bind_eq_some_iff.mp hcontent
    have hfalse := hplain uri content hsecret e he
    rw [show (secretPrefix.isPrefixOf e.1.toList) = true from hother] at hfalse
    cases hfalse
  case h_2 => cases hcontent

/-- The rounds of the loop over the secret fields, each of which finds its secret as it was. -/
theorem foldlM_addSecret (hplain : D.PlainSecrets) (start : List (String × FieldText))
    {names : List String} (hnames : ∀ name ∈ names, secretPrefix.isPrefixOf name.toList = true)
    {fields fields' : List (String × FieldText)}
    (hsame : ∀ name, secretPrefix.isPrefixOf name.toList = true →
      Dict.get? fields name = Dict.get? start name)
    (h : names.foldlM D.addSecret fields = some fields') :
    documents fields' = names.foldl (fun d name =>
      (resolveSecret D.contents (Dict.get? (documents start) name)).foldl
        (fun d e => Dict.set d e.1 (.str (points e.2))) d) (documents fields) := by
  induction names generalizing fields with
  | nil =>
    cases h
    rfl
  | cons name names ih =>
    obtain ⟨hname, hrest⟩ := List.forall_mem_cons.mp hnames
    rw [List.foldlM_cons] at h
    obtain ⟨next, hnext, h⟩ := Option.bind_eq_some_iff.mp h
    have hkept : ∀ name, secretPrefix.isPrefixOf name.toList = true →
        Dict.get? next name = Dict.get? start name := fun other hother =>
      (addSecret_get? hplain hnext hother).trans (hsame other hother)
    rw [ih hrest hkept h, addSecret_documents hnext, List.foldl_cons, get?_documents fields name,
      hsame name hname, ← get?_documents]

theorem documents_relationFields (hplain : D.PlainSecrets) {bag : List (String × Str)}
    {fields : List (String × FieldText)} (h : D.relationFields bag = some fields) :
    documents fields = relationData D.contents bag := by
  have hdata : documents (bag.map fun e => (e.1, FieldText.databag e.2)) = getData bag := by
    simp [documents, getData, FieldText.doc]
  have hkeys : Dict.keys (getData bag) = Dict.keys bag := by
    simp [Dict.keys, getData]
  unfold relationData
  simp only
  rw [hkeys, ← hdata]
  exact foldlM_addSecret hplain _ (fun name hname => (List.mem_filter.mp hname).2)
    (fun _ _ => rfl) h

theorem requestModel_eq_some {get : String → Option Doc} {r : KafkaRequest}
    (h : D.requestModel get = some r) : kafkaRequestModel get = some r := by
  unfold requestModel at h
  split at h
  · exact h
  · cases h

theorem entryModel_eq_some {entry : Doc} {r : KafkaRequest} (h : D.entryModel entry = some r) :
    entryRequest entry = some r := by
  cases entry with
  | obj members => exact requestModel_eq_some h
  | _ => cases h

theorem requests_eq_some {data : List (String × Doc)} {rs : List KafkaRequest}
    (h : D.requests data = some rs) : clientRequests data = some rs := by
  unfold requests at h
  unfold clientRequests
  split at h
  case isTrue hv0 =>
    obtain ⟨r, hr, rfl⟩ := Option.map_eq_some_iff.mp h
    rw [if_pos hv0, requestModel_eq_some hr, Option.map_some]
  case isFalse hv0 =>
    obtain ⟨entries, hentries, hrs⟩ := Option.bind_eq_some_iff.mp h
    rw [if_neg hv0, hentries, Option.bind_some]
    exact mapM_mono (fun _ _ hr => entryModel_eq_some hr) hrs

/-- Where nothing raises, the clients are those of `clients`. -/
theorem clients_of_relationClients (hplain : D.PlainSecrets) {id : Nat}
    {bag : List (String × Str)} {cs : List KafkaClient}
    (h : D.relationClients id bag = some cs) : clients D.contents id bag = some cs := by
  obtain ⟨fields, rs, hfields, hrs, rfl⟩ := relationClients_eq_some.mp h
  rw [documents_relationFields hplain hfields] at hrs ⊢
  simp only [clients, requests_eq_some hrs, Option.map_some]

/-! ## All relations -/

theorem mem_clientRound {entry : Nat × Option (List (String × Str))}
    {round : List (Nat × KafkaClient)} (h : D.clientRound entry = some round) {id : Nat}
    {c : KafkaClient} (hc : (id, c) ∈ round) :
    ∃ bag cs, entry = (id, some bag) ∧ D.relationClients id bag = some cs ∧ c ∈ cs := by
  obtain ⟨id', bag⟩ := entry
  cases bag with
  | none =>
    cases h
    cases hc
  | some bag =>
    obtain ⟨cs, hcs, rfl⟩ := Option.map_eq_some_iff.mp h
    obtain ⟨c', hc', heq⟩ := List.mem_map.mp hc
    cases heq
    exact ⟨bag, cs, rfl, hcs, hc'⟩

/-- The clients of a relation are those made from its databag. -/
theorem clusterClients_eq_some {d : ClientDatabags} {cs : List (Nat × KafkaClient)}
    (h : D.clusterClients d = some cs) {id : Nat} {bag : List (String × Str)}
    (hbag : (id, some bag) ∈ d.bags) :
    ∃ mine, D.relationClients id bag = some mine ∧ ∀ c, (id, c) ∈ cs ↔ c ∈ mine := by
  obtain ⟨rounds, hrounds, rfl⟩ := Option.map_eq_some_iff.mp h
  obtain ⟨round, hround⟩ := exists_of_mapM hrounds _ hbag
  have hmem := mem_of_mapM hrounds hbag hround
  obtain ⟨mine, hmine, rfl⟩ := Option.map_eq_some_iff.mp hround
  refine ⟨mine, hmine, fun c => ⟨fun hc => ?_, fun hc => ?_⟩⟩
  · obtain ⟨other, hother, hc⟩ := List.mem_flatten.mp hc
    obtain ⟨entry, hentry, hround'⟩ := exists_of_mem_mapM hrounds hother
    obtain ⟨bag', cs', rfl, hcs', hc⟩ := mem_clientRound hround' hc
    have hsame : some bag = some bag' := Option.some.inj
      (((Dict.mem_iff_get? d.nodupKeys).mp hbag).symm.trans
        ((Dict.mem_iff_get? d.nodupKeys).mp hentry))
    cases hsame
    rwa [← Option.some.inj (hmine.symm.trans hcs')] at hc
  · exact List.mem_flatten.mpr ⟨_, hmem, List.mem_map_of_mem hc⟩

/-- `ClusterState.clients` returns if clients can be made from every databag. -/
theorem clusterClients_isSome {d : ClientDatabags}
    (h : ∀ id bag, (id, some bag) ∈ d.bags → ∃ cs, D.relationClients id bag = some cs) :
    ∃ cs, D.clusterClients d = some cs := by
  have hround : ∀ entry ∈ d.bags, ∃ round, D.clientRound entry = some round := by
    rintro ⟨id, bag⟩ hentry
    cases bag with
    | none => exact ⟨[], rfl⟩
    | some bag =>
      obtain ⟨cs, hcs⟩ := h id bag hentry
      exact ⟨cs.map (id, ·), by rw [clientRound, hcs, Option.map_some]⟩
  obtain ⟨rounds, hrounds⟩ := exists_mapM hround
  exact ⟨rounds.flatten, congrArg (Option.map List.flatten) hrounds⟩

end DataInterface

open DataInterface in
/-- `ClusterState.clients` returns with every topic as it was written exactly if all databags
are accepted. -/
theorem topics_decoded_iff (D : DataInterface) (d : ClientDatabags) :
    TopicsDecoded D d ↔ ∀ id bag, (id, some bag) ∈ d.bags → BagAccepted D bag := by
  constructor
  · rintro ⟨cs, hcs, htopics⟩ id bag hbag
    obtain ⟨mine, hmine, hiff⟩ := clusterClients_eq_some hcs hbag
    obtain ⟨fields, -, hfields, -⟩ := relationClients_eq_some.mp hmine
    refine (bagAccepted_iff id).mpr ⟨fields, mine, hfields, hmine, ?_⟩
    intro hv0 topic hgiven
    obtain ⟨c, hc, htopic⟩ := htopics id bag hbag fields hfields hv0 topic hgiven
    exact ⟨c, (hiff c).mp hc, htopic⟩
  · intro haccepted
    have hclients (id : Nat) (bag : List (String × Str)) (hbag : (id, some bag) ∈ d.bags) :=
      (bagAccepted_iff id).mp (haccepted id bag hbag)
    obtain ⟨cs, hcs⟩ := clusterClients_isSome fun id bag hbag =>
      have ⟨_, mine, _, hmine, _⟩ := hclients id bag hbag
      ⟨mine, hmine⟩
    refine ⟨cs, hcs, ?_⟩
    intro id bag hbag fields hfields hv0 topic hgiven
    obtain ⟨mine, hmine, hiff⟩ := clusterClients_eq_some hcs hbag
    obtain ⟨fields', mine', hfields', hmine', hshows⟩ := hclients id bag hbag
    obtain rfl := Option.some.inj (hfields.symm.trans hfields')
    obtain rfl := Option.some.inj (hmine.symm.trans hmine')
    obtain ⟨c, hc, htopic⟩ := hshows hv0 topic hgiven
    exact ⟨c, (hiff c).mpr hc, htopic⟩

/-- Databags without secrets, of which `True` and `False` are the truth values. -/
def plainInterface : DataInterface where
  secrets _ := none
  acceptsBool
    | .bool _ => true
    | _ => false

/-- A client of the topic `123`, and one of another topic. -/
def numberedTopic : ClientDatabags where
  bags := [(7, some [("topic", "123")]), (8, some [("topic", "orders")])]
  nodupKeys := show List.Nodup [7, 8] by decide

/-- The topic `123` is decoded to a number, which the request model refuses, and then there are
no clients at all. -/
theorem numbered_topic_raises :
    (plainInterface.relationClients 8 [("topic", "orders")]).isSome = true ∧
      plainInterface.clusterClients numberedTopic = none ∧
      ¬ TopicsDecoded plainInterface numberedTopic := by
  have hnone : plainInterface.clusterClients numberedTopic = none :=
    Option.isNone_iff_eq_none.mp (by decide +kernel)
  refine ⟨by decide +kernel, hnone, ?_⟩
  rintro ⟨cs, hcs, -⟩
  rw [hnone] at hcs
  cases hcs

end KafkaCharm
