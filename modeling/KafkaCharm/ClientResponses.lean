import KafkaCharm.ClientUsers

namespace KafkaCharm

open PyText
open Json (Doc points)

/-! ## Responses -/

/-- The fields of a response, or of a part of the databag with its secrets, under their dashed
names. -/
abbrev Fields := String → Option Doc

/-- The version of the data interface that a client speaks. -/
inductive DataVersion where
  | v0
  | v1
  deriving DecidableEq, Repr

def DataVersion.text : DataVersion → Str
  | .v0 => "v0"
  | .v1 => "v1"

def optionDoc : Option Str → Doc
  | none => .null
  | some s => .str (points s)

/-- A comparison of a text with a value that may be missing. -/
def equalsText (s : Str) : Option Doc → Bool
  | some (.str ps) => decide (ps = points s)
  | _ => false

/-- A `KafkaClient` with what its response is made of. `active` says that its relation has units
and is active. -/
structure RelatedClient where
  relationId : Nat
  requestId : Option Str
  salt : Str
  version : DataVersion
  active : Bool
  topic : Str
  password : Str
  bootstrapServer : Str
  consumerGroupPrefix : Option Str
  tlsEnabled : Bool
  deriving DecidableEq, Repr

namespace RelatedClient

variable (c : RelatedClient)

def username : Str := generateUsername c.relationId c.requestId

/-- `KafkaClient.tls`. -/
def tls : Str := if c.tlsEnabled then "enabled" else "disabled"

/-- `_tls_value` in `KafkaProvider.reconcile`. -/
def tlsValue : Doc :=
  match c.version with
  | .v1 => .bool (decide (c.tls = "enabled".toList))
  | .v0 => .str (points c.tls)

/-- The `KafkaCompatibilityResponseModel` of a client. -/
def response (requestId : Option Str) (brokerCa : Str) : Fields :=
  Dict.get? [("request-id", optionDoc requestId), ("salt", .str (points c.salt)),
    ("username", .str (points c.username)), ("password", .str (points c.password)),
    ("endpoints", .str (points c.bootstrapServer)),
    ("consumer-group-prefix", optionDoc c.consumerGroupPrefix), ("tls", c.tlsValue),
    ("tls-ca", .str (points brokerCa)), ("resource", .str (points c.topic)),
    ("version", .str (points c.version.text))]

/-- `KafkaClient.needs_update`, on what is written for the client. -/
def needsUpdate (brokerCa : Str) (state : Fields) : Bool :=
  !(equalsText c.username (state "username") &&
    equalsText c.password (state "password") &&
    equalsText c.bootstrapServer (state "endpoints") &&
    equalsText c.tls (state "tls") &&
    equalsText brokerCa (some ((state "tls-ca").getD (.str []))))

/-- The client gets a response if it needs one. -/
def ready : Bool := c.active && !c.password.isEmpty && !c.topic.isEmpty

end RelatedClient

/-! ## What is written -/

/-- A value that is neither null nor an empty text. -/
def IsFilled (d : Doc) : Prop := d ≠ .null ∧ d ≠ .str []

/-- The library that writes the responses, by what is read back: of a response in the databag
and of one in the entry of a request, each over what was there. -/
structure ResponseLibrary where
  flat : Fields → Fields → Fields
  entry : Fields → Fields → Fields
  flat_filled : ∀ before response name d, response name = some d → IsFilled d →
    flat before response name = some d
  entry_filled : ∀ before response name d, response name = some d → IsFilled d →
    entry before response name = some d
  /-- `write_field` writes no empty text, and there is none in a databag. -/
  flat_endpoints : ∀ before response, response "endpoints" = some (.str []) →
    flat before response "endpoints" ≠ some (.str [])
  /-- The secret of the group is updated with an empty text, or there is none. -/
  flat_tlsCa : ∀ before response, response "tls-ca" = some (.str []) →
    (flat before response "tls-ca").getD (.str []) = .str []
  entry_requestId : ∀ before response,
    entry before response "request-id" = response "request-id"

/-- What the application has written on a relation: the fields of its databag, and the entries
of `requests`, if that is one of them. -/
structure Written where
  flat : Fields
  requests : Option (List Fields)

/-- `r.get("request-id") == request_id`. -/
def hasRequestId (requestId : Option Str) (entry : Fields) : Bool :=
  match requestId with
  | some id => equalsText id (entry "request-id")
  | none => match entry "request-id" with
    | none => true
    | some .null => true
    | some _ => false

/-- `KafkaClient.written_data`. -/
def Written.data (w : Written) (c : RelatedClient) : Fields :=
  match c.version with
  | .v0 => w.flat
  | .v1 => (((w.requests.getD []).find? (hasRequestId c.requestId)).getD fun _ => none)

/-- The loop of `set_response`: the first response with the id is updated, or a new one is
appended. -/
def updateOrAppend (lib : ResponseLibrary) (requestId : Option Str) (response : Fields) :
    List Fields → List Fields
  | [] => [lib.entry (fun _ => none) response]
  | e :: entries =>
    if hasRequestId requestId e then lib.entry e response :: entries
    else e :: updateOrAppend lib requestId response entries

/-- `ResourceProviderEventHandler.set_response` with the response of a client. -/
def Written.setResponse (lib : ResponseLibrary) (brokerCa : Str) (w : Written)
    (c : RelatedClient) : Written :=
  match c.version with
  | .v0 => { w with flat := lib.flat w.flat (c.response none brokerCa) }
  | .v1 => { w with requests := some (updateOrAppend lib c.requestId
      (c.response c.requestId brokerCa) (w.requests.getD [])) }

/-! ## Reconciling -/

/-- What the application has written on its relations. -/
abbrev Databags := Nat → Written

/-- What is written for a client. -/
def RelatedClient.writtenData (c : RelatedClient) (s : Databags) : Fields := (s c.relationId).data c

/-- Whether a client gets a response. -/
def mustRespond (brokerCa : Str) (c : RelatedClient) (s : Databags) : Bool :=
  c.ready && c.needsUpdate brokerCa (c.writtenData s)

/-- The round of `KafkaProvider.reconcile` for a client, after its user has been set up. -/
def reconcileClient (lib : ResponseLibrary) (brokerCa : Str) (s : Databags) (c : RelatedClient) :
    Databags :=
  if mustRespond brokerCa c s then
    Function.update s c.relationId ((s c.relationId).setResponse lib brokerCa c)
  else s

def reconcileClients (lib : ResponseLibrary) (brokerCa : Str) (clients : List RelatedClient)
    (s : Databags) : Databags :=
  clients.foldl (reconcileClient lib brokerCa) s

/-- The clients that `reconcile` writes a response for. -/
def responded (lib : ResponseLibrary) (brokerCa : Str) :
    List RelatedClient → Databags → List RelatedClient
  | [], _ => []
  | c :: clients, s =>
    (if mustRespond brokerCa c s then [c] else []) ++
      responded lib brokerCa clients (reconcileClient lib brokerCa s c)

/-- Two clients are of different relations, or of different requests on v1. -/
def RelatedClient.Apart (c c' : RelatedClient) : Prop :=
  c.relationId = c'.relationId →
    c.version = .v1 ∧ c'.version = .v1 ∧ c.requestId ≠ c'.requestId

/-- The clients of all relations: on v0 one for each, on v1 one for each request. -/
structure RelatedClients where
  list : List RelatedClient
  apart : list.Pairwise RelatedClient.Apart

/-- No client needs an update after a round, and a further one writes nothing. -/
def Converges (lib : ResponseLibrary) (brokerCa : Str) (clients : RelatedClients)
    (s : Databags) : Prop :=
  let after := reconcileClients lib brokerCa clients.list s
  (∀ c ∈ clients.list, c.ready = true →
      c.needsUpdate brokerCa (c.writtenData after) = false) ∧
    responded lib brokerCa clients.list after = []

/-! ## Comparing -/

theorem equalsText_iff {s : Str} {o : Option Doc} :
    equalsText s o = true ↔ o = some (.str (points s)) := by
  unfold equalsText
  split
  case h_1 ps => simp
  case h_2 hother =>
    refine iff_of_false (by decide) ?_
    rintro rfl
    exact hother _ rfl

theorem RelatedClient.needsUpdate_eq_false {c : RelatedClient} {brokerCa : Str} {state : Fields} :
    c.needsUpdate brokerCa state = false ↔
      state "username" = some (.str (points c.username)) ∧
      state "password" = some (.str (points c.password)) ∧
      state "endpoints" = some (.str (points c.bootstrapServer)) ∧
      state "tls" = some (.str (points c.tls)) ∧
      (state "tls-ca").getD (.str []) = .str (points brokerCa) := by
  unfold needsUpdate
  simp only [Bool.not_eq_false', Bool.and_eq_true, equalsText_iff, and_assoc, Option.some.injEq]

theorem hasRequestId_of_eq {requestId : Option Str} {entry : Fields}
    (h : entry "request-id" = some (optionDoc requestId)) : hasRequestId requestId entry = true := by
  cases requestId with
  | none => simp [hasRequestId, h, optionDoc]
  | some id => exact equalsText_iff.mpr h

/-- An entry has one request id. -/
theorem hasRequestId_unique {id id' : Option Str} {entry : Fields}
    (h : hasRequestId id entry = true) (h' : hasRequestId id' entry = true) : id = id' := by
  cases id with
  | none =>
    cases id' with
    | none => rfl
    | some s =>
      have hs := equalsText_iff.mp h'
      simp [hasRequestId, hs] at h
  | some s =>
    have hs := equalsText_iff.mp h
    cases id' with
    | none => simp [hasRequestId, hs] at h'
    | some s' =>
      have hs' := equalsText_iff.mp h'
      rw [hs, Option.some.injEq, Doc.str.injEq] at hs'
      rw [Json.points_injective hs']

/-! ## Writing one response -/

section
variable {lib : ResponseLibrary} {brokerCa : Str}

/-- What is written for a client after its response has been. -/
def RelatedClient.written (c : RelatedClient) (lib : ResponseLibrary) (brokerCa : Str)
    (state : Fields) : Fields :=
  match c.version with
  | .v0 => lib.flat state (c.response none brokerCa)
  | .v1 => lib.entry state (c.response c.requestId brokerCa)

theorem response_requestId (c : RelatedClient) (requestId : Option Str) :
    c.response requestId brokerCa "request-id" = some (optionDoc requestId) := by
  simp [RelatedClient.response, Dict.get?_cons]

theorem find?_updateOrAppend_self {requestId : Option Str} {response : Fields}
    (h : response "request-id" = some (optionDoc requestId)) (entries : List Fields) :
    (updateOrAppend lib requestId response entries).find? (hasRequestId requestId) =
      some (lib.entry ((entries.find? (hasRequestId requestId)).getD fun _ => none) response) := by
  have hentry (before : Fields) : hasRequestId requestId (lib.entry before response) = true :=
    hasRequestId_of_eq ((lib.entry_requestId before response).trans h)
  induction entries with
  | nil => simp [updateOrAppend, hentry]
  | cons e entries ih =>
    unfold updateOrAppend
    by_cases he : hasRequestId requestId e = true
    · simp [he, hentry]
    · simp [he, ih]

theorem find?_updateOrAppend_ne {requestId other : Option Str} {response : Fields}
    (h : response "request-id" = some (optionDoc requestId)) (hne : other ≠ requestId)
    (entries : List Fields) :
    (updateOrAppend lib requestId response entries).find? (hasRequestId other) =
      entries.find? (hasRequestId other) := by
  have hother {entry : Fields} (he : hasRequestId requestId entry = true) :
      ¬ hasRequestId other entry = true := fun ho => hne (hasRequestId_unique ho he)
  have hentry (before : Fields) : hasRequestId requestId (lib.entry before response) = true :=
    hasRequestId_of_eq ((lib.entry_requestId before response).trans h)
  induction entries with
  | nil => simp [updateOrAppend, hother (hentry _)]
  | cons e entries ih =>
    unfold updateOrAppend
    by_cases he : hasRequestId requestId e = true
    · simp [he, hother he, hother (hentry _)]
    · rw [if_neg he, List.find?_cons, List.find?_cons, ih]

theorem data_setResponse_self (w : Written) (c : RelatedClient) :
    (w.setResponse lib brokerCa c).data c = c.written lib brokerCa (w.data c) := by
  unfold Written.setResponse Written.data RelatedClient.written
  cases c.version with
  | v0 => rfl
  | v1 =>
    simp only [Option.getD_some]
    rw [find?_updateOrAppend_self (response_requestId c c.requestId), Option.getD_some]

/-- The response of another client of the relation leaves the data of a client alone. -/
theorem data_setResponse_of_ne (w : Written) {c c' : RelatedClient} (hv1 : c.version = .v1)
    (hv1' : c'.version = .v1) (hne : c.requestId ≠ c'.requestId) :
    (w.setResponse lib brokerCa c').data c = w.data c := by
  unfold Written.setResponse Written.data
  simp only [hv1, hv1', Option.getD_some]
  rw [find?_updateOrAppend_ne (response_requestId c' c'.requestId) hne]

theorem isFilled_text {s : Str} (h : s ≠ []) : IsFilled (.str (points s)) := by
  refine ⟨by simp, ?_⟩
  intro hnil
  exact h (List.map_eq_nil_iff.mp (Doc.str.inj hnil))

theorem username_ne_nil (c : RelatedClient) : c.username ≠ [] := by
  intro hnil
  have hform := generateUsername_form c.relationId c.requestId
  rw [show generateUsername c.relationId c.requestId = [] from hnil] at hform
  exact absurd (List.prefix_nil.mp hform) (by decide)

theorem tls_ne_nil (c : RelatedClient) : c.tls ≠ [] := by
  unfold RelatedClient.tls
  split <;> decide

/-- On v1 a truth value is written where a text is compared. -/
theorem needsUpdate_written_v1 {c : RelatedClient} (hv1 : c.version = .v1) (state : Fields) :
    c.needsUpdate brokerCa (lib.entry state (c.response c.requestId brokerCa)) = true := by
  have htls : c.response c.requestId brokerCa "tls" =
      some (.bool (decide (c.tls = "enabled".toList))) := by
    simp [RelatedClient.response, Dict.get?_cons, RelatedClient.tlsValue, hv1]
  have hread := lib.entry_filled state _ _ _ htls (by simp [IsFilled])
  by_contra hfalse
  obtain ⟨-, -, -, htext, -⟩ := c.needsUpdate_eq_false.mp (Bool.eq_false_iff.mpr hfalse)
  rw [hread] at htext
  cases htext

/-- On v0 all that is compared is read back, apart from empty endpoints. -/
theorem needsUpdate_written_v0 {c : RelatedClient} (hv0 : c.version = .v0)
    (hpassword : c.password ≠ []) (state : Fields) :
    c.needsUpdate brokerCa (lib.flat state (c.response none brokerCa)) = false ↔
      c.bootstrapServer ≠ [] := by
  have htext {name : String} {s : Str}
      (h : c.response none brokerCa name = some (.str (points s))) (hne : s ≠ []) :
      lib.flat state (c.response none brokerCa) name = some (.str (points s)) :=
    lib.flat_filled state _ name _ h (isFilled_text hne)
  have hendpoints : c.response none brokerCa "endpoints" =
      some (.str (points c.bootstrapServer)) := by
    simp [RelatedClient.response, Dict.get?_cons]
  have hca : c.response none brokerCa "tls-ca" = some (.str (points brokerCa)) := by
    simp [RelatedClient.response, Dict.get?_cons]
  rw [c.needsUpdate_eq_false]
  constructor
  · rintro ⟨-, -, hread, -, -⟩ hnil
    rw [hnil] at hendpoints hread
    exact lib.flat_endpoints state _ hendpoints hread
  · intro hne
    refine ⟨htext ?_ (username_ne_nil c), htext ?_ hpassword, htext hendpoints hne,
      htext ?_ (tls_ne_nil c), ?_⟩
    · simp [RelatedClient.response, Dict.get?_cons]
    · simp [RelatedClient.response, Dict.get?_cons]
    · simp [RelatedClient.response, Dict.get?_cons, RelatedClient.tlsValue, hv0]
    · by_cases hempty : brokerCa = []
      · rw [lib.flat_tlsCa state _ (hca.trans (by rw [hempty]; rfl)), hempty]
        rfl
      · rw [htext hca hempty, Option.getD_some]

/-- A response that is written satisfies a client exactly on v0 and with endpoints. -/
theorem needsUpdate_written_iff {c : RelatedClient} (hready : c.ready = true) (state : Fields) :
    c.needsUpdate brokerCa (c.written lib brokerCa state) = false ↔
      c.version = .v0 ∧ c.bootstrapServer ≠ [] := by
  have hpassword : c.password ≠ [] := by
    intro hnil
    simp [RelatedClient.ready, hnil] at hready
  unfold RelatedClient.written
  split
  case h_1 hv0 => rw [needsUpdate_written_v0 hv0 hpassword, and_iff_right hv0]
  case h_2 hv1 => simp [needsUpdate_written_v1 hv1, hv1]

/-! ## All clients -/

theorem RelatedClient.Apart.symm {c c' : RelatedClient} (h : c.Apart c') : c'.Apart c := by
  intro hid
  obtain ⟨hv1, hv1', hne⟩ := h hid.symm
  exact ⟨hv1', hv1, hne.symm⟩

/-- The round for a client, on what is written for it. -/
def RelatedClient.round (lib : ResponseLibrary) (brokerCa : Str) (c : RelatedClient)
    (state : Fields) : Fields :=
  if c.ready && c.needsUpdate brokerCa state then c.written lib brokerCa state else state

theorem data_reconcileClient_self (s : Databags) (c : RelatedClient) :
    c.writtenData (reconcileClient lib brokerCa s c) =
      c.round lib brokerCa (c.writtenData s) := by
  unfold reconcileClient RelatedClient.round mustRespond RelatedClient.writtenData
  split
  · rw [Function.update_self, data_setResponse_self]
  · rfl

theorem data_reconcileClient_of_apart (s : Databags) (c c' : RelatedClient) (h : c.Apart c') :
    c.writtenData (reconcileClient lib brokerCa s c') = c.writtenData s := by
  unfold RelatedClient.writtenData reconcileClient
  split
  · by_cases hid : c.relationId = c'.relationId
    · obtain ⟨hv1, hv1', hne⟩ := h hid
      rw [hid, Function.update_self, data_setResponse_of_ne _ hv1 hv1' hne]
    · rw [Function.update_of_ne hid]
  · rfl

/-- After the loop every client has what its own round wrote. -/
theorem data_reconcileClients (clients : RelatedClients) {c : RelatedClient}
    (hc : c ∈ clients.list) (s : Databags) :
    c.writtenData (reconcileClients lib brokerCa clients.list s) =
      c.round lib brokerCa (c.writtenData s) :=
  Runs.foldl_view (fun _ _ h => h.symm) data_reconcileClient_self data_reconcileClient_of_apart
    clients.apart hc s

theorem needsUpdate_reconciled_iff (clients : RelatedClients) {c : RelatedClient}
    (hc : c ∈ clients.list) (hready : c.ready = true) (s : Databags) :
    c.needsUpdate brokerCa (c.writtenData (reconcileClients lib brokerCa clients.list s)) = false ↔
      (c.needsUpdate brokerCa (c.writtenData s) = true →
        c.version = .v0 ∧ c.bootstrapServer ≠ []) := by
  rw [data_reconcileClients clients hc, RelatedClient.round, hready, Bool.true_and]
  split
  case isTrue hneeds =>
    rw [needsUpdate_written_iff hready]
    exact ⟨fun h _ => h, fun h => h hneeds⟩
  case isFalse hneeds => exact iff_of_true (Bool.eq_false_iff.mpr hneeds) fun h => absurd h hneeds

/-- Nothing is written if no client needs it. -/
theorem responded_eq_nil_iff {clients : List RelatedClient} {s : Databags} :
    responded lib brokerCa clients s = [] ↔
      ∀ c ∈ clients, c.ready = true →
        c.needsUpdate brokerCa (c.writtenData s) = false := by
  induction clients with
  | nil => simp [responded]
  | cons c clients ih =>
    rw [responded, List.append_eq_nil_iff, List.forall_mem_cons]
    by_cases hmust : mustRespond brokerCa c s = true
    · refine iff_of_false (by simp [hmust]) ?_
      rintro ⟨hc, -⟩
      obtain ⟨hready, hneeds⟩ := Bool.and_eq_true_iff.mp hmust
      rw [hc hready] at hneeds
      cases hneeds
    · have hsame : reconcileClient lib brokerCa s c = s := if_neg hmust
      have hc : c.ready = true → c.needsUpdate brokerCa (c.writtenData s) = false := by
        intro hready
        simpa [mustRespond, hready] using hmust
      rw [hsame, ih, if_neg hmust]
      exact ⟨fun h => ⟨hc, h.2⟩, fun h => ⟨rfl, h.2⟩⟩

end

/-- Reconciling converges in one round exactly if all clients that it writes to speak v0 and have
endpoints. -/
theorem reconcile_converges_iff (lib : ResponseLibrary) (brokerCa : Str) (clients : RelatedClients)
    (s : Databags) :
    Converges lib brokerCa clients s ↔
      ∀ c ∈ clients.list, c.ready = true →
        c.needsUpdate brokerCa (c.writtenData s) = true →
          c.version = .v0 ∧ c.bootstrapServer ≠ [] := by
  unfold Converges
  dsimp only
  rw [responded_eq_nil_iff, and_self]
  exact forall₂_congr fun c hc => forall_congr' fun hready =>
    needsUpdate_reconciled_iff clients hc hready s

/-- A field as it is read back from a databag. -/
def keepFilled : Doc → Option Doc
  | .null => none
  | .str [] => none
  | d => some d

theorem keepFilled_of_isFilled {d : Doc} (h : IsFilled d) : keepFilled d = some d := by
  unfold keepFilled
  split
  case h_1 => exact absurd rfl h.1
  case h_2 => exact absurd rfl h.2
  case h_3 => rfl

/-- The fields are kept as they are, and the empty ones of a databag are left out. -/
def plainLibrary : ResponseLibrary where
  flat before response name :=
    match response name with
    | some d => keepFilled d
    | none => before name
  entry before response name :=
    if name = "request-id" then response name else (response name).or (before name)
  flat_filled before response name d h hfilled := by
    rw [h]
    exact keepFilled_of_isFilled hfilled
  entry_filled before response name d h _ := by simp [h]
  flat_endpoints before response h := by
    rw [h]
    exact nofun
  flat_tlsCa before response h := by
    rw [h]
    rfl
  entry_requestId before response := if_pos rfl

/-- A client of v1, on a cluster with TLS. -/
def tlsClient : RelatedClient where
  relationId := 7
  requestId := some "9f86d081884c7d65"
  salt := "wXp2hN4kQz"
  version := .v1
  active := true
  topic := "orders"
  password := "pass"
  bootstrapServer := "kafka-0.kafka-endpoints:9093"
  consumerGroupPrefix := none
  tlsEnabled := true

/-- Its response is written again in every round. -/
theorem v1_response_never_settles :
    let clients : RelatedClients := ⟨[tlsClient], List.pairwise_singleton _ _⟩
    let s : Databags := fun _ => ⟨fun _ => none, none⟩
    let after := reconcileClients plainLibrary "CA" clients.list s
    tlsClient.ready = true ∧ responded plainLibrary "CA" clients.list s = [tlsClient] ∧
      responded plainLibrary "CA" clients.list after = [tlsClient] ∧
      ¬ Converges plainLibrary "CA" clients s := by
  intro clients s after
  have hagain : responded plainLibrary "CA" clients.list after = [tlsClient] := by decide +kernel
  refine ⟨by decide, by decide +kernel, hagain, ?_⟩
  rintro ⟨-, hnone⟩
  cases hagain.symm.trans hnone

end KafkaCharm
