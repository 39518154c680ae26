import KafkaCharm.AuthManager
import KafkaCharm.Lib.Json

/-! A client asks for a topic either through flat fields of its databag (v0) or through an entry of a
`requests` list in it (v1). Every databag value is decoded as JSON where it is a JSON document,
and a secret field of the databag is replaced by the content of its secret. -/

namespace KafkaCharm

open PyText
open Json (Doc points text? member named)

/-! ## Reading the databag -/

/-- `OpsRepository.get_data`, for one value. -/
def decodeValue (value : Str) : Doc := (Json.loads value).getD (.str (points value))

def getData (bag : List (String × Str)) : List (String × Doc) :=
  bag.map fun e => (e.1, decodeValue e.2)

/-- `SECRET_PREFIX`. -/
def secretPrefix : Str := "secret-"

/-- The content of the secret that a field names. -/
def resolveSecret (secrets : Str → List (String × Str)) (value : Option Doc) : List (String × Str) :=
  match value with
  | some (.str uri) => ((text? uri).map secrets).getD []
  | _ => []

/-- `RelationStateV1.relation_data` of a remote application. -/
def relationData (secrets : Str → List (String × Str)) (bag : List (String × Str)) :
    List (String × Doc) :=
  let data := getData bag
  let secretFields := (Dict.keys data).filter fun field => secretPrefix.isPrefixOf field.toList
  secretFields.foldl (fun d field =>
    (resolveSecret secrets (Dict.get? data field)).foldl
      (fun d e => Dict.set d e.1 (.str (points e.2))) d) data

/-! ## The request model -/

/-- `EntityPermissionModel`. -/
structure EntityPermission where
  resourceName : Str
  resourceType : Str
  privileges : List Doc

/-- `KafkaRequestModel`, as far as a `KafkaClient` reads it. -/
structure KafkaRequest where
  resource : Str
  requestId : Option Str
  extraUserRoles : Option Str
  entityPermissions : Option (List EntityPermission)
  mtlsCert : Option Str

/-- `RESOURCE_ALIASES`, then the name of the field. -/
def resourceAliases : List String :=
  ["database", "subject", "topic", "index", "plugin-url", "prefix", "resource"]

/-- The first of the names that is given. -/
def firstGiven (get : String → Option Doc) (names : List String) : Option Doc :=
  names.findSome? fun name => get name

/-- A field of type `str`. -/
def strField : Doc → Option Str
  | .str ps => text? ps
  | _ => none

/-- A field of type `str`, with default `""`. -/
def textField : Option Doc → Option Str
  | none => some []
  | some d => strField d

/-- A field of type `str | None`, with default `None`. -/
def optionalStrField : Option Doc → Option (Option Str)
  | none => some none
  | some .null => some none
  | some v => (strField v).map some

/-- `is_topic_value_acceptable`. -/
def isTopicValueAcceptable (value : Option Str) : Bool := !((value.getD []).take 3).contains '*'

/-- The pattern of `SecretString`. -/
def secretScheme : Str := "secret:"

def entityPermission : Doc → Option EntityPermission
  | .obj members => do
    let resourceName ← strField (← member members "resource_name")
    let resourceType ← strField (← member members "resource_type")
    match ← member members "privileges" with
    | .arr privileges => return ⟨resourceName, resourceType, privileges⟩
    | _ => none
  | _ => none

/-- `entity_permissions`, with default `None`. -/
def entityPermissionsField : Option Doc → Option (Option (List EntityPermission))
  | none => some none
  | some .null => some none
  | some (.arr items) => (items.mapM entityPermission).map some
  | some _ => none

/-- `RequirerCommonModel.validate_fields`. -/
def fieldsConsistent (entityType extraUserRoles extraGroupRoles : Option Str) : Bool :=
  match entityType with
  | none => true
  | some t =>
    if t = ("USER" : Str) then (extraGroupRoles.getD []).isEmpty
    else if t = ("GROUP" : Str) then (extraUserRoles.getD []).isEmpty
    else false

/-- `KafkaRequestModel(**fields)`; `none` is a validation error. Fields that have the
alias `a-b` may be given under the name `a_b` too. -/
def kafkaRequestModel (get : String → Option Doc) : Option KafkaRequest := do
  let resource ← textField (firstGiven get resourceAliases)
  let requestId ← optionalStrField (firstGiven get ["request-id", "request_id"])
  let extraUserRoles ← optionalStrField (firstGiven get ["extra-user-roles", "extra_user_roles"])
  let extraGroupRoles ← optionalStrField
    (firstGiven get ["extra-group-roles", "extra_group_roles"])
  let entityType ← optionalStrField (firstGiven get ["entity-type", "entity_type"])
  let entityPermissions ← entityPermissionsField
    (firstGiven get ["entity-permissions", "entity_permissions"])
  let secretMtls ← optionalStrField (firstGiven get ["secret-mtls", "secret_mtls"])
  let mtlsCert ← optionalStrField (firstGiven get ["mtls-cert", "mtls_cert"])
  let consumerGroupPrefix ← optionalStrField
    (firstGiven get ["consumer-group-prefix", "consumer_group_prefix"])
  if (secretMtls.all fun uri => decide (secretScheme <:+: uri)) &&
      isTopicValueAcceptable consumerGroupPrefix &&
      fieldsConsistent entityType extraUserRoles extraGroupRoles then
    return ⟨resource, requestId, extraUserRoles, entityPermissions, mtlsCert⟩
  else none

/-! ## The client -/

/-- `KafkaClient.generate_username`. -/
def generateUsername (relationId : Nat) (requestId : Option Str) : Str :=
  "relation-" ++ decimal relationId ++
    (if requestId.getD [] = [] then [] else '-' :: requestId.getD [])

/-- `str.upper` of one character. Of the others only the dotless i becomes a letter of a
resource type. -/
def upper (c : Char) : Char := if c = 'ı' then 'I' else c.toUpper

/-- `VALID_OPERATIONS`. -/
def validOperations : List Str :=
  (["READ", "WRITE", "CREATE", "DELETE", "DESCRIBE"] : List String).map String.toList

/-- `KafkaPermissionModel`; `none` is a validation error. -/
def kafkaPermission (p : EntityPermission) : Option Permission := do
  let resourceType := p.resourceType.map upper
  let privileges ← p.privileges.mapM strField
  if (resourceType = topicText ∨ resourceType = groupText) ∧
      ∀ op ∈ privileges, op ∈ validOperations then
    return ⟨resourceType, p.resourceName, privileges⟩
  else none

/-- `KafkaClient`, as far as it is made from the request. -/
structure KafkaClient where
  username : Str
  topic : Str
  extraUserRoles : Str
  permissions : List Permission
  consumerGroupPrefix : Option Str
  mtlsCert : Str
  deriving DecidableEq

/-- `KafkaClient.consumer_group_prefix`: `None` where the databag holds a null. -/
def consumerGroupPrefix (data : List (String × Doc)) (username extraUserRoles : Str) : Option Str :=
  match Dict.get? data "consumer-group-prefix" with
  | some v => strField v
  | none => some (if consumerRole <:+: extraUserRoles then username ++ "-" else [])

/-- The properties of a `KafkaClient` on a relation. -/
def kafkaClient (relationId : Nat) (data : List (String × Doc)) (request : KafkaRequest) :
    KafkaClient :=
  let username := generateUsername relationId request.requestId
  let extraUserRoles := request.extraUserRoles.getD []
  { username
    topic := request.resource
    extraUserRoles
    permissions := ((request.entityPermissions.getD []).mapM kafkaPermission).getD []
    consumerGroupPrefix := consumerGroupPrefix data username extraUserRoles
    mtlsCert := request.mtlsCert.getD [] }

/-- `version == "v0"`, with the default for no version. -/
def isV0 (data : List (String × Doc)) : Bool :=
  match Dict.get? data "version" with
  | none => true
  | some (.str ps) => decide (ps = points "v0")
  | some _ => false

/-- One entry of `requests`. -/
def entryRequest : Doc → Option KafkaRequest
  | .obj members => kafkaRequestModel (member members)
  | _ => none

/-- What a loop over `data.get("requests", [])` goes through: of an object its keys, of a string
its characters. -/
def requestEntries : Option Doc → Option (List Doc)
  | none => some []
  | some (.arr entries) => some entries
  | some (.obj members) => some (members.map fun m => .str m.1)
  | some (.str ps) => some (ps.map fun p => .str [p])
  | some _ => none

/-- `requests` in `ClusterState.clients`; `none` where one of them is not valid. -/
def clientRequests (data : List (String × Doc)) : Option (List KafkaRequest) :=
  if isV0 data then (kafkaRequestModel (Dict.get? data)).map ([·])
  else (requestEntries (Dict.get? data "requests")).bind fun entries => entries.mapM entryRequest

/-- `ClusterState.clients` on one relation. -/
def clients (secrets : Str → List (String × Str)) (relationId : Nat) (bag : List (String × Str)) :
    Option (List KafkaClient) :=
  let data := relationData secrets bag
  (clientRequests data).map fun requests => requests.map (kafkaClient relationId data)

/-! ## One request, presented twice -/

/-- A permission as a client asks for it. -/
structure RequestedPermission where
  resourceName : Str
  resourceType : Str
  privileges : List Str
  deriving DecidableEq, Repr

def RequestedPermission.document (p : RequestedPermission) : Doc :=
  .obj (named [("resource_name", .str (points p.resourceName)),
    ("resource_type", .str (points p.resourceType)),
    ("privileges", .arr (p.privileges.map (.str ∘ points)))])

/-- A secret URI and the certificate in the secret. -/
structure MtlsSecret where
  secretId : Str
  certificate : Str
  deriving DecidableEq, Repr

def MtlsSecret.uri (m : MtlsSecret) : Str := secretScheme ++ m.secretId

/-- A field that may be set. -/
def present {α : Type} (name : String) (value : Option α) : List (String × α) :=
  value.toList.map fun v => (name, v)

/-- What a client asks for. A consumer group prefix is one that the request model takes. -/
structure ClientRequest where
  topic : Str
  extraUserRoles : Option Str
  entityPermissions : Option (List RequestedPermission)
  consumerGroupPrefix : Option Str
  mtls : Option MtlsSecret
  prefix_acceptable : isTopicValueAcceptable consumerGroupPrefix = true

namespace ClientRequest

variable (r : ClientRequest)

/-- The secrets of the model: the one that the request names. -/
def secrets (uri : Str) : List (String × Str) :=
  match r.mtls with
  | none => []
  | some m => if uri = m.uri then [("mtls-cert", m.certificate)] else []

/-- The entity permissions as a document. -/
def permissionsDocument : Option Doc :=
  r.entityPermissions.map fun ps => .arr (ps.map RequestedPermission.document)

/-- The fields of the entry of `requests`. -/
def entryFields (requestId : Str) : List (String × Doc) :=
  present "resource" (some (.str (points r.topic))) ++
    present "request-id" (some (.str (points requestId))) ++
    present "extra-user-roles" (r.extraUserRoles.map (.str ∘ points)) ++
    present "entity-permissions" r.permissionsDocument ++
    present "consumer-group-prefix" (r.consumerGroupPrefix.map (.str ∘ points)) ++
    present "secret-mtls" (r.mtls.map (.str ∘ points ∘ MtlsSecret.uri))

def entry (requestId : Str) : Doc := .obj (named (r.entryFields requestId))

end ClientRequest

/-- A request with the texts in which it is presented: the JSON of its permissions in
the v0 databag, its id and the JSON of `requests` in the v1 databag. -/
structure Presented where
  request : ClientRequest
  permissionsText : Str
  requestId : Str
  requestsText : Str
  permissions_loads : ∀ d, request.permissionsDocument = some d →
    Json.loads permissionsText = some d
  requests_loads : Json.loads requestsText = some (.arr [request.entry requestId])

namespace Presented

variable (p : Presented)

/-- The databag in version v0. Juju keeps no empty value. -/
def v0Bag : List (String × Str) :=
  present "topic" ((some p.request.topic).filter (· ≠ [])) ++
    present "extra-user-roles" (p.request.extraUserRoles.filter (· ≠ [])) ++
    present "entity-permissions" (p.request.entityPermissions.map fun _ => p.permissionsText) ++
    present "consumer-group-prefix" (p.request.consumerGroupPrefix.filter (· ≠ [])) ++
    present "secret-mtls" (p.request.mtls.map MtlsSecret.uri)

/-- The databag in version v1. -/
def v1Bag : List (String × Str) := [("version", "v1"), ("requests", p.requestsText)]

/-- The same prefix, or in each case the user name of the client and a dash. -/
def SamePrefix (c c' : KafkaClient) : Prop :=
  c.consumerGroupPrefix = c'.consumerGroupPrefix ∨
    c.consumerGroupPrefix = some (c.username ++ "-") ∧
      c'.consumerGroupPrefix = some (c'.username ++ "-")

/-- Both presentations make one client, and it asks for the same. -/
def Agree (relationId : Nat) : Prop :=
  ∃ c c', clients p.request.secrets relationId p.v0Bag = some [c] ∧
    clients p.request.secrets relationId p.v1Bag = some [c'] ∧
    c.topic = c'.topic ∧ c.extraUserRoles = c'.extraUserRoles ∧
    c.permissions = c'.permissions ∧ c.mtlsCert = c'.mtlsCert ∧ SamePrefix c c'

end Presented

/-! ## Texts and documents -/

/-- A text is taken for itself exactly when it is no JSON document. -/
theorem strField_decodeValue_iff {s : Str} :
    strField (decodeValue s) = some s ↔ Json.loads s = none := by
  unfold decodeValue
  cases hloads : Json.loads s with
  | none => simp [strField, Json.text?_points]
  | some d =>
    simp only [Option.getD_some, reduceCtorEq, iff_false]
    intro hstr
    cases d with
    | str ps =>
      have hshort := Json.loads_string_shorter hloads
      have hlength := Json.length_of_text? hstr
      omega
    | _ => cases hstr

/-- A secret URI is no JSON document. -/
theorem loads_uri (m : MtlsSecret) : Json.loads m.uri = none := by
  have huri : m.uri = 's' :: ("ecret:".toList ++ m.secretId) := rfl
  rw [huri]
  -- no document begins with this letter, so the scanner stops before it reads on
  rfl

theorem optionalStrField_text (o : Option Str) :
    optionalStrField (o.map (Doc.str ∘ points)) = some o := by
  cases o with
  | none => rfl
  | some s => simp [optionalStrField, strField, Json.text?_points]

/-- The permission as the request model reads it. -/
def RequestedPermission.model (p : RequestedPermission) : EntityPermission :=
  ⟨p.resourceName, p.resourceType, p.privileges.map (Doc.str ∘ points)⟩

theorem entityPermission_document (p : RequestedPermission) :
    entityPermission p.document = some p.model := by
  simp [entityPermission, RequestedPermission.document, RequestedPermission.model,
    Json.member_named, Dict.get?_cons, strField, Json.text?_points]

theorem entityPermissionsField_document (r : ClientRequest) :
    entityPermissionsField r.permissionsDocument =
      some (r.entityPermissions.map (List.map RequestedPermission.model)) := by
  unfold ClientRequest.permissionsDocument
  cases r.entityPermissions with
  | none => rfl
  | some ps =>
    have hmap : (ps.map RequestedPermission.document).mapM entityPermission =
        some (ps.map RequestedPermission.model) := by
      induction ps with
      | nil => rfl
      | cons p ps ih =>
        simp only [List.map_cons, List.mapM_cons, entityPermission_document, ih]
        rfl
    simp only [Option.map_some, entityPermissionsField, hmap]

/-! ## Fields of a databag -/

theorem get?_present {α : Type} (name : String) (v : Option α) (k : String) :
    Dict.get? (present name v) k = if name = k then v else none := by
  cases v with
  | none => simp [present]
  | some v => simp [present, Dict.get?_cons]

theorem getData_present (name : String) (v : Option Str) :
    getData (present name v) = present name (v.map decodeValue) := by
  cases v with
  | none => rfl
  | some v => rfl

theorem getData_append (b b' : List (String × Str)) :
    getData (b ++ b') = getData b ++ getData b' :=
  List.map_append

theorem keys_present_filter {α : Type} (name : String) (v : Option α) (f : String → Bool) :
    (Dict.keys (present name v)).filter f =
      if f name then v.toList.map fun _ => name else [] := by
  cases v with
  | none => simp [present, Dict.keys]
  | some v =>
    by_cases h : f name = true
    · simp [present, Dict.keys, h]
    · simp [present, Dict.keys, h]

theorem firstGiven_cons (get : String → Option Doc) (name : String) (names : List String) :
    firstGiven get (name :: names) = (get name).or (firstGiven get names) := by
  unfold firstGiven
  rw [List.findSome?_cons]
  cases get name with
  | none => rfl
  | some d => rfl

@[simp] theorem firstGiven_nil (get : String → Option Doc) : firstGiven get [] = none := rfl

/-- The fields of a request that either presentation sets. -/
def requestFields (topic resource requestId roles permissions groupPrefix secret cert : Option Doc) :
    List (String × Doc) :=
  present "topic" topic ++ present "resource" resource ++ present "request-id" requestId ++
    present "extra-user-roles" roles ++ present "entity-permissions" permissions ++
    present "consumer-group-prefix" groupPrefix ++ present "secret-mtls" secret ++
    present "mtls-cert" cert

/-- What the request model makes of them. -/
def readFields (topic resource requestId roles permissions groupPrefix secret cert : Option Doc) :
    Option KafkaRequest := do
  let resource ← textField (topic.or resource)
  let requestId ← optionalStrField requestId
  let roles ← optionalStrField roles
  let permissions ← entityPermissionsField permissions
  let secret ← optionalStrField secret
  let cert ← optionalStrField cert
  let groupPrefix ← optionalStrField groupPrefix
  if (secret.all fun uri => decide (secretScheme <:+: uri)) &&
      isTopicValueAcceptable groupPrefix then
    return ⟨resource, requestId, roles, permissions, cert⟩
  else none

theorem kafkaRequestModel_requestFields
    (topic resource requestId roles permissions groupPrefix secret cert : Option Doc) :
    kafkaRequestModel (Dict.get? (requestFields topic resource requestId roles permissions
      groupPrefix secret cert)) =
        readFields topic resource requestId roles permissions groupPrefix secret cert := by
  have hnone : optionalStrField none = some none := rfl
  simp only [kafkaRequestModel, readFields, resourceAliases, firstGiven_cons, firstGiven_nil,
    requestFields, Dict.get?_append, get?_present, String.reduceEq, if_true, if_false,
    Option.or_none, Option.none_or, hnone, Option.bind_eq_bind, Option.bind_some,
    fieldsConsistent, Bool.and_true]

/-! ## Version v1 -/

theorem ClientRequest.uri_scheme (r : ClientRequest) :
    (r.mtls.map MtlsSecret.uri).all (fun uri => decide (secretScheme <:+: uri)) = true := by
  cases r.mtls with
  | none => rfl
  | some m =>
    have hscheme : secretScheme <:+: m.uri := (List.prefix_append _ _).isInfix
    simpa using hscheme

/-- The entry is read as it is written, the certificate apart: its secret is not looked up. -/
theorem entryRequest_entry (r : ClientRequest) (requestId : Str) :
    entryRequest (r.entry requestId) = some
      ⟨r.topic, some requestId, r.extraUserRoles,
        r.entityPermissions.map (List.map RequestedPermission.model), none⟩ := by
  have hfields : r.entryFields requestId = requestFields none (some (.str (points r.topic)))
      (some (.str (points requestId))) (r.extraUserRoles.map (.str ∘ points))
      r.permissionsDocument (r.consumerGroupPrefix.map (.str ∘ points))
      ((r.mtls.map MtlsSecret.uri).map (.str ∘ points)) none := by
    have hempty (name : String) : present name (none : Option Doc) = [] := rfl
    simp only [ClientRequest.entryFields, requestFields, hempty, List.nil_append, List.append_nil,
      Option.map_map]
    rfl
  have hget : member (named (r.entryFields requestId)) = Dict.get? (r.entryFields requestId) := by
    funext name
    exact Json.member_named _ name
  have hid : optionalStrField (some (.str (points requestId))) = some (some requestId) :=
    optionalStrField_text (some requestId)
  have hcert : optionalStrField none = some none := rfl
  unfold ClientRequest.entry entryRequest
  simp only
  rw [hget, hfields, kafkaRequestModel_requestFields]
  simp only [readFields, Option.none_or, textField, strField, Json.text?_points, hid, optionalStrField_text,
    entityPermissionsField_document, hcert, Option.bind_eq_bind, Option.bind_some, r.uri_scheme,
    r.prefix_acceptable, Bool.and_self, if_true]
  rfl

/-- The default consumer group prefix of a client. -/
def defaultPrefix (username extraUserRoles : Str) : Str :=
  if consumerRole <:+: extraUserRoles then username ++ "-" else []

namespace Presented

variable (p : Presented) (relationId : Nat)

/-- The permissions of the client, which are the same in both versions. -/
def permissions : List Permission :=
  (((p.request.entityPermissions.map (List.map RequestedPermission.model)).getD []).mapM
    kafkaPermission).getD []

def v0Username : Str := generateUsername relationId none

def v1Username : Str := generateUsername relationId (some p.requestId)

/-- The client that the v1 databag makes: the certificate and the consumer group prefix
that were asked for are lost. -/
def v1Client : KafkaClient where
  username := p.v1Username relationId
  topic := p.request.topic
  extraUserRoles := p.request.extraUserRoles.getD []
  permissions := p.permissions
  consumerGroupPrefix :=
    some (defaultPrefix (p.v1Username relationId) (p.request.extraUserRoles.getD []))
  mtlsCert := []

theorem clients_v1Bag :
    clients p.request.secrets relationId p.v1Bag = some [p.v1Client relationId] := by
  have hversion : decodeValue "v1" = .str (points "v1") := by
    have hloads : Json.loads "v1" = none := Option.isNone_iff_eq_none.mp (by decide +kernel)
    simp only [decodeValue, hloads, Option.getD_none]
  have hrequests : decodeValue p.requestsText = .arr [p.request.entry p.requestId] := by
    simp only [decodeValue, p.requests_loads, Option.getD_some]
  have hdata : relationData p.request.secrets p.v1Bag =
      [("version", .str (points "v1")), ("requests", .arr [p.request.entry p.requestId])] := by
    have hget : getData p.v1Bag =
        [("version", .str (points "v1")), ("requests", .arr [p.request.entry p.requestId])] := by
      simp only [v1Bag, getData, List.map_cons, List.map_nil, hversion, hrequests]
    have hkeys : (["version", "requests"].filter fun field : String =>
        secretPrefix.isPrefixOf field.toList) = [] := by
      decide
    simp only [relationData, hget, Dict.keys, List.map_cons, List.map_nil, hkeys, List.foldl_nil]
  have hv0 : isV0 (relationData p.request.secrets p.v1Bag) = false := by
    rw [hdata]
    simp [isV0, Dict.get?_cons]
    decide
  have hentries : clientRequests (relationData p.request.secrets p.v1Bag) = some
      [⟨p.request.topic, some p.requestId, p.request.extraUserRoles,
        p.request.entityPermissions.map (List.map RequestedPermission.model), none⟩] := by
    unfold clientRequests
    rw [hv0, hdata]
    simp [Dict.get?_cons, requestEntries, entryRequest_entry]
  have hgroup : Dict.get? (relationData p.request.secrets p.v1Bag) "consumer-group-prefix" =
      none := by
    rw [hdata]
    simp [Dict.get?_cons]
  simp [clients, hentries, kafkaClient, consumerGroupPrefix, hgroup, v1Client, defaultPrefix,
    permissions, v1Username]

/-! ## Version v0 -/

/-- The texts of the databag, decoded. -/
def topicDoc : Option Doc := ((some p.request.topic).filter (· ≠ [])).map decodeValue

def rolesDoc : Option Doc := (p.request.extraUserRoles.filter (· ≠ [])).map decodeValue

def prefixDoc : Option Doc := (p.request.consumerGroupPrefix.filter (· ≠ [])).map decodeValue

theorem getData_v0Bag :
    getData p.v0Bag = requestFields p.topicDoc none none p.rolesDoc p.request.permissionsDocument
      p.prefixDoc ((p.request.mtls.map MtlsSecret.uri).map (.str ∘ points)) none := by
  have hpermissions : (p.request.entityPermissions.map fun _ => p.permissionsText).map decodeValue =
      p.request.permissionsDocument := by
    cases hp : p.request.entityPermissions with
    | none => simp [ClientRequest.permissionsDocument, hp]
    | some ps =>
      have hdoc : p.request.permissionsDocument =
          some (.arr (ps.map RequestedPermission.document)) := by
        simp [ClientRequest.permissionsDocument, hp]
      rw [hdoc]
      simp [decodeValue, p.permissions_loads _ hdoc]
  have huri : (p.request.mtls.map MtlsSecret.uri).map decodeValue =
      (p.request.mtls.map MtlsSecret.uri).map (.str ∘ points) := by
    cases p.request.mtls with
    | none => rfl
    | some m => simp [decodeValue, loads_uri]
  have hempty (name : String) : present name (none : Option Doc) = [] := rfl
  simp only [v0Bag, getData_append, getData_present, hpermissions, huri, requestFields, hempty,
    List.append_nil, topicDoc, rolesDoc, prefixDoc]

/-- The secret of the databag is looked up. -/
theorem get?_relationData_v0Bag :
    Dict.get? (relationData p.request.secrets p.v0Bag) =
      Dict.get? (requestFields p.topicDoc none none p.rolesDoc p.request.permissionsDocument
        p.prefixDoc ((p.request.mtls.map MtlsSecret.uri).map (.str ∘ points))
        (p.request.mtls.map (.str ∘ points ∘ MtlsSecret.certificate))) := by
  have hsecretFields : (Dict.keys (getData p.v0Bag)).filter
      (fun field => secretPrefix.isPrefixOf field.toList) =
        p.request.mtls.toList.map fun _ => "secret-mtls" := by
    have hsecret (name : String) (h : secretPrefix.isPrefixOf name.toList = false)
        (v : Option Doc) : (Dict.keys (present name v)).filter
          (fun field => secretPrefix.isPrefixOf field.toList) = [] := by
      rw [keys_present_filter, h]
      rfl
    have hmtls (v : Option Doc) : (Dict.keys (present "secret-mtls" v)).filter
        (fun field => secretPrefix.isPrefixOf field.toList) =
          v.toList.map fun _ => "secret-mtls" := by
      rw [keys_present_filter, if_pos (by decide)]
    have hkeys (d d' : List (String × Doc)) : Dict.keys (d ++ d') = Dict.keys d ++ Dict.keys d' :=
      List.map_append
    rw [getData_v0Bag]
    simp only [requestFields, hkeys, List.filter_append, hmtls]
    rw [hsecret "topic" (by decide), hsecret "resource" (by decide),
      hsecret "request-id" (by decide), hsecret "extra-user-roles" (by decide),
      hsecret "entity-permissions" (by decide), hsecret "consumer-group-prefix" (by decide),
      hsecret "mtls-cert" (by decide)]
    cases p.request.mtls with
    | none => rfl
    | some m => rfl
  funext name
  unfold relationData
  simp only [hsecretFields]
  rw [getData_v0Bag]
  cases hm : p.request.mtls with
  | none => simp [requestFields, present]
  | some m =>
    have hresolve : resolveSecret p.request.secrets (some (.str (points m.uri))) =
        [("mtls-cert", m.certificate)] := by
      simp [resolveSecret, Json.text?_points, ClientRequest.secrets, hm]
    simp only [Option.toList_some, Option.map_some, List.map_cons, List.map_nil, List.foldl_cons,
      List.foldl_nil, Function.comp_apply]
    have hlookup : Dict.get? (requestFields p.topicDoc none none p.rolesDoc
        p.request.permissionsDocument p.prefixDoc (some (.str (points m.uri))) none)
          "secret-mtls" = some (.str (points m.uri)) := by
      simp [requestFields, Dict.get?_append, get?_present]
    rw [hlookup, hresolve]
    simp only [List.foldl_cons, List.foldl_nil, Dict.get?_set]
    by_cases hname : "mtls-cert" = name
    · subst hname
      simp [requestFields, Dict.get?_append, get?_present]
    · simp [requestFields, Dict.get?_append, get?_present, hname]

/-- The request that the v0 databag makes. -/
def v0Request : Option KafkaRequest := do
  let resource ← textField p.topicDoc
  let roles ← optionalStrField p.rolesDoc
  let groupPrefix ← optionalStrField p.prefixDoc
  if isTopicValueAcceptable groupPrefix then
    return ⟨resource, none, roles,
      p.request.entityPermissions.map (List.map RequestedPermission.model),
      p.request.mtls.map MtlsSecret.certificate⟩
  else none

theorem clientRequests_v0Bag :
    clientRequests (relationData p.request.secrets p.v0Bag) = p.v0Request.map ([·]) := by
  have hv0 : isV0 (relationData p.request.secrets p.v0Bag) = true := by
    unfold isV0
    rw [get?_relationData_v0Bag]
    simp [requestFields, Dict.get?_append, get?_present]
  have hcert : p.request.mtls.map (Doc.str ∘ points ∘ MtlsSecret.certificate) =
      (p.request.mtls.map MtlsSecret.certificate).map (.str ∘ points) := by
    rw [Option.map_map]
    rfl
  have hid : optionalStrField none = some none := rfl
  unfold clientRequests
  rw [hv0, if_pos rfl, get?_relationData_v0Bag, kafkaRequestModel_requestFields, hcert]
  simp only [readFields, v0Request, Option.or_none, hid, optionalStrField_text,
    entityPermissionsField_document, Option.bind_eq_bind, Option.bind_some, p.request.uri_scheme,
    Bool.true_and]

theorem clients_v0Bag {c : KafkaClient} :
    clients p.request.secrets relationId p.v0Bag = some [c] ↔
      ∃ request, p.v0Request = some request ∧
        c = kafkaClient relationId (relationData p.request.secrets p.v0Bag) request := by
  simp only [clients, clientRequests_v0Bag, Option.map_map, Option.map_eq_some_iff,
    Function.comp_apply, List.map_cons, List.map_nil, List.cons.injEq, and_true]
  constructor
  · rintro ⟨request, hrequest, rfl⟩
    exact ⟨request, hrequest, rfl⟩
  · rintro ⟨request, hrequest, rfl⟩
    exact ⟨request, hrequest, rfl⟩

theorem consumerGroupPrefix_v0Bag (username roles : Str) :
    consumerGroupPrefix (relationData p.request.secrets p.v0Bag) username roles =
      match p.prefixDoc with
      | some d => strField d
      | none => some (defaultPrefix username roles) := by
  have hget : Dict.get? (relationData p.request.secrets p.v0Bag) "consumer-group-prefix" =
      p.prefixDoc := by
    rw [get?_relationData_v0Bag]
    simp [requestFields, Dict.get?_append, get?_present]
  unfold consumerGroupPrefix
  rw [hget]
  cases p.prefixDoc with
  | none => rfl
  | some d => rfl

end Presented

/-! ## What decoding leaves alone -/

theorem loads_nil : Json.loads [] = none := Option.isNone_iff_eq_none.mp (by decide +kernel)

theorem optionalStrField_of_strField {d : Doc} {s : Str} (h : strField d = some s) :
    optionalStrField (some d) = some (some s) := by
  cases d with
  | str ps =>
    simp only [optionalStrField]
    rw [h]
    rfl
  | _ => cases h

/-- A field that the databag holds unless it is empty comes back as it was exactly when
it is no JSON document. -/
theorem optionalStrField_databag_iff (value : Option Str) :
    (∃ o, optionalStrField ((value.filter (· ≠ [])).map decodeValue) = some o ∧
        o.getD [] = value.getD []) ↔
      ∀ s, value = some s → Json.loads s = none := by
  cases value with
  | none => simp [optionalStrField]
  | some s =>
    by_cases hs : s = []
    · subst hs
      refine iff_of_true ⟨none, rfl, rfl⟩ ?_
      intro s hs
      cases hs
      exact loads_nil
    · have hfilter : (some s).filter (· ≠ []) = some s := by simp [hs]
      rw [hfilter]
      simp only [Option.map_some, Option.getD_some, Option.some.injEq, forall_eq']
      rw [← strField_decodeValue_iff]
      constructor
      · rintro ⟨o, ho, rfl⟩
        cases hd : decodeValue (o.getD []) with
        | null =>
          rw [hd] at ho
          cases ho
          exact absurd rfl hs
        | str ps =>
          rw [hd] at ho
          simp only [optionalStrField, Option.map_eq_some_iff] at ho
          obtain ⟨s, hstr, rfl⟩ := ho
          exact hstr
        | _ =>
          rw [hd] at ho
          cases ho
      · intro hstr
        exact ⟨some s, optionalStrField_of_strField hstr, rfl⟩

namespace Presented

variable (p : Presented) (relationId : Nat)

theorem topic_databag_iff :
    textField p.topicDoc = some p.request.topic ↔
      Json.loads p.request.topic = none := by
  unfold topicDoc
  by_cases ht : p.request.topic = []
  · rw [ht]
    exact iff_of_true rfl loads_nil
  · have hfilter : (some p.request.topic).filter (· ≠ []) = some p.request.topic := by simp [ht]
    rw [hfilter]
    exact strField_decodeValue_iff

/-- The decoded prefix, where one is asked for, is one that a client gets by default. -/
def PrefixIsDefault : Prop :=
  ∀ d, p.prefixDoc = some d →
    let roles := p.request.extraUserRoles.getD []
    strField d = some (defaultPrefix (v0Username relationId) roles) ∨
      strField d = some (defaultPrefix (p.v1Username relationId) roles)

theorem defaultPrefix_acceptable (requestId : Option Str) (roles : Str) :
    isTopicValueAcceptable (some (defaultPrefix (generateUsername relationId requestId) roles)) =
      true := by
  unfold defaultPrefix
  split
  · rfl
  · rfl

theorem samePrefix_iff {c : KafkaClient} {roles : Str}
    (hroles : roles = p.request.extraUserRoles.getD [])
    (hname : c.username = v0Username relationId)
    (hgroup : c.consumerGroupPrefix =
      consumerGroupPrefix (relationData p.request.secrets p.v0Bag) (v0Username relationId) roles) :
    SamePrefix c (p.v1Client relationId) ↔ p.PrefixIsDefault relationId := by
  subst hroles
  rw [consumerGroupPrefix_v0Bag] at hgroup
  unfold SamePrefix PrefixIsDefault
  rw [hgroup, hname]
  simp only [v1Client]
  by_cases hconsumer : consumerRole <:+: p.request.extraUserRoles.getD []
  · cases p.prefixDoc with
    | none => simp [defaultPrefix, hconsumer]
    | some d =>
      simp [defaultPrefix, hconsumer, or_comm]
  · cases p.prefixDoc with
    | none => simp [defaultPrefix, hconsumer]
    | some d => simp [defaultPrefix, hconsumer]

theorem v0Request_of_prefixIsDefault (hgroup : p.PrefixIsDefault relationId)
    {resource : Str} {roles : Option Str}
    (htopic : textField p.topicDoc = some resource)
    (hroles : optionalStrField p.rolesDoc = some roles) :
    p.v0Request = some ⟨resource, none, roles,
      p.request.entityPermissions.map (List.map RequestedPermission.model),
      p.request.mtls.map MtlsSecret.certificate⟩ := by
  have haccepted : ∃ groupPrefix, optionalStrField p.prefixDoc = some groupPrefix ∧
      isTopicValueAcceptable groupPrefix = true := by
    cases hd : p.prefixDoc with
    | none => exact ⟨none, rfl, rfl⟩
    | some d =>
      cases hgroup d hd with
      | inl h => exact ⟨_, optionalStrField_of_strField h, defaultPrefix_acceptable _ _ _⟩
      | inr h => exact ⟨_, optionalStrField_of_strField h, defaultPrefix_acceptable _ _ _⟩
  obtain ⟨groupPrefix, hgroup, haccept⟩ := haccepted
  unfold v0Request
  rw [htopic, hroles, hgroup]
  simp [haccept]

theorem v0Request_eq_some {request : KafkaRequest} (h : p.v0Request = some request) :
    textField p.topicDoc = some request.resource ∧
      optionalStrField p.rolesDoc = some request.extraUserRoles ∧
      request.requestId = none ∧
      request.entityPermissions =
        p.request.entityPermissions.map (List.map RequestedPermission.model) ∧
      request.mtlsCert = p.request.mtls.map MtlsSecret.certificate := by
  simp only [v0Request, Option.bind_eq_bind, Option.bind_eq_some_iff] at h
  obtain ⟨resource, hresource, roles, hroles, groupPrefix, -, h⟩ := h
  split at h
  · cases h
    exact ⟨hresource, hroles, rfl, rfl, rfl⟩
  · cases h

end Presented

/-- Both presentations of a request make the same client exactly when neither its topic
nor its roles is a JSON document, it brings no certificate, and the consumer group
prefix it asks for, if any, is one it would get anyway. -/
theorem versions_agree_iff (p : Presented) (relationId : Nat) :
    p.Agree relationId ↔
      Json.loads p.request.topic = none ∧
      (∀ roles, p.request.extraUserRoles = some roles → Json.loads roles = none) ∧
      (∀ m, p.request.mtls = some m → m.certificate = []) ∧
      p.PrefixIsDefault relationId := by
  have hv1 := p.clients_v1Bag relationId
  have hcert : (p.request.mtls.map MtlsSecret.certificate).getD [] = [] ↔
      ∀ m, p.request.mtls = some m → m.certificate = [] := by
    cases p.request.mtls with
    | none => simp
    | some m => simp
  have hrolesIff := optionalStrField_databag_iff p.request.extraUserRoles
  constructor
  · rintro ⟨c, c', hc, hc', htopic, hroles, -, hmtls, hgroup⟩
    cases (Option.some.inj (hc'.symm.trans hv1))
    obtain ⟨request, hrequest, rfl⟩ := (p.clients_v0Bag relationId).mp hc
    obtain ⟨hresource, hread, hid, -, hcertificate⟩ := p.v0Request_eq_some hrequest
    have hname : (kafkaClient relationId (relationData p.request.secrets p.v0Bag) request).username =
        Presented.v0Username relationId := by
      simp [kafkaClient, hid, Presented.v0Username]
    refine ⟨p.topic_databag_iff.mp ?_, hrolesIff.mp ⟨_, hread, hroles⟩, hcert.mp ?_, ?_⟩
    · rw [hresource]
      exact congrArg some htopic
    · rw [← hcertificate]
      exact hmtls
    · refine (p.samePrefix_iff relationId hroles hname ?_).mp hgroup
      simp only [kafkaClient, hid, Presented.v0Username]
  · rintro ⟨htopic, hroles, hmtls, hgroup⟩
    obtain ⟨roles, hread, hsame⟩ := hrolesIff.mpr hroles
    have hrequest := p.v0Request_of_prefixIsDefault relationId hgroup
      (p.topic_databag_iff.mpr htopic) hread
    refine ⟨_, _, (p.clients_v0Bag relationId).mpr ⟨_, hrequest, rfl⟩, hv1, rfl, hsame, rfl,
      hcert.mpr hmtls, ?_⟩
    refine (p.samePrefix_iff relationId hsame ?_ ?_).mpr hgroup
    · simp only [kafkaClient, Presented.v0Username]
    · simp only [kafkaClient, Presented.v0Username]

/-- The first line of a certificate. -/
def certificateText : Str := "-----BEGIN CERTIFICATE-----"

/-- A consumer of a topic that brings a certificate. -/
def mtlsRequest : ClientRequest where
  topic := "orders"
  extraUserRoles := some "consumer"
  entityPermissions := none
  consumerGroupPrefix := none
  mtls := some ⟨"d2k3v9", certificateText⟩
  prefix_acceptable := rfl

/-- `requests` in the v1 databag of that client. -/
def mtlsRequestsText : Str :=
  "[\x7b\"resource\": \"orders\", \"request-id\": \"9f86d081884c7d65\", \"extra-user-roles\": \"consumer\", \"secret-mtls\": \"secret:d2k3v9\"\x7d]"

theorem loads_mtlsRequestsText :
    Json.loads mtlsRequestsText = some (.arr [mtlsRequest.entry "9f86d081884c7d65"]) := by
  have hsame : (Json.loads mtlsRequestsText).any
      (·.same (.arr [mtlsRequest.entry "9f86d081884c7d65"])) = true := by
    decide +kernel
  obtain ⟨d, hd, hsame⟩ := (Option.any_eq_true _ _).mp hsame
  rw [hd, Json.Doc.eq_of_same hsame]

def mtlsPresented : Presented where
  request := mtlsRequest
  permissionsText := []
  requestId := "9f86d081884c7d65"
  requestsText := mtlsRequestsText
  permissions_loads d h := by cases h
  requests_loads := loads_mtlsRequestsText

/-- The certificate arrives in v0 and is lost in v1. -/
theorem certificate_lost_in_v1 :
    (∃ c, clients mtlsPresented.request.secrets 7 mtlsPresented.v0Bag = some [c] ∧
        c.mtlsCert = certificateText) ∧
      (∃ c, clients mtlsPresented.request.secrets 7 mtlsPresented.v1Bag = some [c] ∧
        c.mtlsCert = []) ∧
      ¬ mtlsPresented.Agree 7 := by
  have hv0 : (clients mtlsPresented.request.secrets 7 mtlsPresented.v0Bag).any (fun cs =>
      decide (cs.map KafkaClient.mtlsCert = [certificateText])) = true := by
    decide +kernel
  obtain ⟨cs, hcs, hcert⟩ := (Option.any_eq_true _ _).mp hv0
  obtain ⟨c, rfl, hc⟩ := List.map_eq_singleton_iff.mp (of_decide_eq_true hcert)
  refine ⟨⟨c, hcs, hc⟩, ⟨_, mtlsPresented.clients_v1Bag 7, rfl⟩, ?_⟩
  rintro ⟨d, d', hd, hd', -, -, -, hmtls, -⟩
  cases Option.some.inj (hd.symm.trans hcs)
  cases Option.some.inj (hd'.symm.trans (mtlsPresented.clients_v1Bag 7))
  rw [hc] at hmtls
  exact absurd hmtls (by decide)

end KafkaCharm
