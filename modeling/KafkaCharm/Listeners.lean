import KafkaCharm.ClusterState

namespace KafkaCharm

open PyText Fallible

/-! ## A listener -/

inductive ListenerScope where
  | internal | client | external | extra | controller
  deriving DecidableEq, Repr

def ListenerScope.text : ListenerScope → Str
  | .internal => "INTERNAL"
  | .client => "CLIENT"
  | .external => "EXTERNAL"
  | .extra => "EXTRA"
  | .controller => "CONTROLLER"

/-- A `Listener`; an `extra_count` below zero is `none`. -/
structure Listener where
  auth : AuthMap
  scope : ListenerScope
  host : Str
  baseport : Nat := 30000
  extraCount : Option Nat := none
  nodePort : Option Nat := none
  deriving DecidableEq, Repr

namespace Listener

variable (l : Listener)

/-- `Listener.port`. -/
def port : Nat :=
  match l.scope with
  | .extra => l.auth.ports.client + l.baseport
  | .internal => l.auth.ports.internal
  | .client => l.auth.ports.client
  | .external => l.auth.ports.external
  | .controller => l.auth.ports.controller

/-- What the name of an extra listener ends in. -/
def countText : Str :=
  match l.extraCount with
  | none => []
  | some count => '_' :: decimal count

/-- `Listener.name`. -/
def name : Str :=
  l.scope.text ++ '_' :: l.auth.protocol ++
    '_' :: l.auth.mechanism.map (fun c => if c = '-' then '_' else c) ++ l.countText

/-- `Listener.protocol_map`. -/
def protocolMap : Str := l.name ++ ':' :: l.auth.protocol

/-- `Listener.listener`. -/
def listener : Str := l.name ++ "://0.0.0.0:" ++ decimal l.port

/-- `Listener.advertised_listener`. -/
def advertisedListener : Str :=
  l.name ++ "://" ++ l.host ++
    ':' :: (if l.scope = .external then portText l.nodePort else decimal l.port)

end Listener

/-! ## The listeners of a unit -/

/-- The node port, if there is one. -/
def NodePort.given : NodePort → Option Nat
  | .ok (some number) => if number = 0 then none else some number
  | _ => none

/-- The inner loop of `ConfigManager.extra_listeners`, which goes on with the host in which
the placeholder has been filled in. -/
def extraListenersOf (unitId count baseport : Nat) : Str → List AuthMap → List Listener
  | _, [] => []
  | host, auth :: auths =>
    let host := replace "\x7bunit\x7d" (decimal unitId) host
    { auth := auth, scope := .extra, host := host, baseport := baseport, extraCount := some count }
      :: extraListenersOf unitId count baseport host auths

/-- The pair that an item with a colon is unpacked into; more than one colon raises. -/
def hostBaseport (item : Str) : Option (Str × Str) :=
  match item.splitOn ':' with
  | [host, baseport] => some (host, baseport)
  | _ => none

theorem hostBaseport_eq_some {item : Str} {parts : Str × Str} (h : hostBaseport item = some parts) :
    item.splitOn ':' = [parts.1, parts.2] := by
  unfold hostBaseport at h
  split at h
  case h_1 host baseport hsplit =>
    obtain rfl := Option.some.inj h
    exact hsplit
  case h_2 => cases h

/-- The listeners of an item; its port is read once there is a way to authenticate. -/
def extraListenersFor (unitId : Nat) (auths : List AuthMap) (item : (Str × Str) × Nat) :
    Option (List Listener) :=
  if auths = [] then some []
  else (digitsInt item.1.2).map fun baseport =>
    extraListenersOf unitId item.2 baseport item.1.1 auths

theorem extraListenersFor_eq_some {unitId : Nat} {auths : List AuthMap} {item : (Str × Str) × Nat}
    {listeners : List Listener} (h : extraListenersFor unitId auths item = some listeners) :
    auths = [] ∧ listeners = [] ∨ ∃ baseport, digitsInt item.1.2 = some baseport ∧
      listeners = extraListenersOf unitId item.2 baseport item.1.1 auths := by
  unfold extraListenersFor at h
  split at h
  case isTrue hauths => exact .inl ⟨hauths, (Option.some.inj h).symm⟩
  case isFalse =>
    obtain ⟨baseport, hbaseport, rfl⟩ := Option.map_eq_some_iff.mp h
    exact .inr ⟨baseport, hbaseport, rfl⟩

namespace ClusterState

variable (s : ClusterState)

/-- `unit_broker.internal_address`. -/
def unitAddress : Str := internalAddress s.app s.unit.unitId

/-- `ConfigManager.internal_listener`. -/
def internalListener : Listener :=
  { auth := internalAuth, scope := .internal, host := s.unitAddress }

/-- `ConfigManager.active_controller_listener`. -/
def activeControllerListener : Listener :=
  { auth := internalAuth, scope := .controller, host := s.unitAddress }

/-- `ConfigManager.controller_listeners`. -/
def controllerListeners : List Listener := [s.activeControllerListener]

/-- One round of `ConfigManager.external_listeners`; an `ApiError` is caught where the node port
is asked for, and not where the address of the node is. -/
def externalListener (auth : AuthMap) : Option (List Listener) :=
  match s.listenerNodePort auth with
  | .error .failed => none
  | answer =>
    match answer.given, s.unit.nodeIp with
    | none, _ => some []
    | some number, .ok ip =>
      some [{ auth := auth, scope := .external, host := ip, nodePort := some number }]
    | some _, .error _ => none

/-- The listeners for clients inside Kubernetes, for the ways to authenticate that are enabled. -/
def listenersFor (auths : List AuthMap) : List Listener :=
  auths.map fun auth => { auth := auth, scope := .client, host := s.unitAddress }

variable {s} (e : Enumeration s)

theorem externalListener_eq_some {auth : AuthMap} {listeners : List Listener}
    (h : s.externalListener auth = some listeners) :
    listeners = (s.listenerNodePort auth).given.toList.map fun number =>
      { auth := auth, scope := .external, host := s.unit.nodeAddress, nodePort := some number } := by
  unfold externalListener at h
  unfold BrokerUnit.nodeAddress
  split at h
  · cases h
  · split at h
    case h_1 hgiven =>
      obtain rfl := Option.some.inj h
      rw [hgiven]
      rfl
    case h_2 number ip hgiven hip =>
      obtain rfl := Option.some.inj h
      rw [hgiven, hip]
      rfl
    case h_3 => cases h

/-- `ConfigManager.client_listeners`. -/
def clientListeners : Option (List Listener) := (enabledAuth e).map s.listenersFor

/-- `ConfigManager.external_listeners`; `none` where asking Kubernetes raises. -/
def externalListeners : Option (List Listener) :=
  if s.config.exposeExternal then do
    let auths ← enabledAuth e
    let listeners ← auths.mapM s.externalListener
    return listeners.flatten
  else some []

/-- `ConfigManager.extra_listeners`; `none` where it raises. The ways to authenticate are asked
for with each item. -/
def extraListeners : Option (List Listener) := do
  let items ← (s.config.extraListeners.filter (':' ∈ ·)).mapM hostBaseport
  let listeners ← items.zipIdx.mapM fun item => do
    let auths ← enabledAuth e
    extraListenersFor s.unit.unitId auths item
  return listeners.flatten

theorem clientListeners_eq_some {client : List Listener} (h : clientListeners e = some client) :
    enabledAuth e = some (openAuth e) ∧ client = s.listenersFor (openAuth e) := by
  obtain ⟨auths, hauths, rfl⟩ := Option.map_eq_some_iff.mp h
  obtain ⟨-, rfl⟩ := enabledAuth_eq_some e hauths
  exact ⟨hauths, rfl⟩

theorem externalListeners_eq_some {external : List Listener}
    (h : externalListeners e = some external) :
    s.config.exposeExternal = true ∧
      (∃ lists, (openAuth e).mapM s.externalListener = some lists ∧ external = lists.flatten) ∨
    s.config.exposeExternal = false ∧ external = [] := by
  unfold externalListeners at h
  split at h
  case isTrue hexpose =>
    obtain ⟨auths, hauths, hrounds⟩ := Option.bind_eq_some_iff.mp h
    obtain ⟨lists, hlists, hflat⟩ := Option.bind_eq_some_iff.mp hrounds
    obtain ⟨-, rfl⟩ := enabledAuth_eq_some e hauths
    exact .inl ⟨hexpose, lists, hlists, (Option.some.inj hflat).symm⟩
  case isFalse hexpose =>
    exact .inr ⟨by simpa using hexpose, (Option.some.inj h).symm⟩

/-- `ConfigManager.all_listeners`. -/
def allListeners : Option (List Listener) := do
  let client ← clientListeners e
  let external ← externalListeners e
  let extra ← extraListeners e
  return s.internalListener :: client ++ external ++ extra ++
    (if s.roles.controller then s.controllerListeners else [])

theorem extraListeners_eq_some {extra : List Listener} (h : extraListeners e = some extra) :
    ∃ items lists, (s.config.extraListeners.filter (':' ∈ ·)).mapM hostBaseport = some items ∧
      items.zipIdx.mapM (extraListenersFor s.unit.unitId (openAuth e)) = some lists ∧
      extra = lists.flatten := by
  obtain ⟨items, hitems, h⟩ := Option.bind_eq_some_iff.mp h
  obtain ⟨lists, hlists, h⟩ := Option.bind_eq_some_iff.mp h
  refine ⟨items, lists, hitems, ?_, (Option.some.inj h).symm⟩
  refine mapM_mono (fun item listeners hround => ?_) hlists
  obtain ⟨auths, hauths, hround⟩ := Option.bind_eq_some_iff.mp hround
  obtain ⟨-, rfl⟩ := enabledAuth_eq_some e hauths
  exact hround

theorem allListeners_eq_some {listeners : List Listener} (h : allListeners e = some listeners) :
    ∃ external extra, enabledAuth e = some (openAuth e) ∧ externalListeners e = some external ∧
      extraListeners e = some extra ∧
      listeners = s.internalListener :: s.listenersFor (openAuth e) ++ external ++ extra ++
        (if s.roles.controller then s.controllerListeners else []) := by
  obtain ⟨client, hclient, h⟩ := Option.bind_eq_some_iff.mp h
  obtain ⟨external, hexternal, h⟩ := Option.bind_eq_some_iff.mp h
  obtain ⟨extra, hextra, h⟩ := Option.bind_eq_some_iff.mp h
  obtain ⟨hauths, rfl⟩ := clientListeners_eq_some e hclient
  exact ⟨external, extra, hauths, hexternal, hextra, (Option.some.inj h).symm⟩

/-- The listeners do not depend on the order of the sets, where the ways to authenticate do not. -/
theorem allListeners_eq (e' : Enumeration s) (h : enabledAuth e = enabledAuth e') :
    allListeners e = allListeners e' := by
  unfold allListeners externalListeners extraListeners clientListeners
  rw [h]

end ClusterState

/-! ## Hosts -/

namespace Listener

variable (l : Listener)

theorem oneLine_scope (scope : ListenerScope) : OneLine scope.text := by
  cases scope <;> exact oneLine_literal ⟨_, rfl, rfl⟩

theorem oneLine_protocol (auth : AuthMap) : OneLine auth.protocol := by
  have hsasl (protocol : SaslProtocol) : OneLine protocol.text := by
    cases protocol <;> exact oneLine_literal ⟨_, rfl, rfl⟩
  cases auth with
  | scram protocol => exact hsasl protocol
  | oauthbearer protocol => exact hsasl protocol
  | ssl => exact oneLine_literal ⟨_, rfl, rfl⟩

theorem oneLine_mechanism (auth : AuthMap) : OneLine auth.mechanism := by
  cases auth <;> exact oneLine_literal ⟨_, rfl, rfl⟩

theorem oneLine_name : OneLine l.name := by
  have hmechanism : OneLine (l.auth.mechanism.map fun c => if c = '-' then '_' else c) := by
    intro c hc
    obtain ⟨d, hd, rfl⟩ := List.mem_map.mp hc
    split
    · decide
    · exact oneLine_mechanism l.auth d hd
  have hcount : OneLine l.countText := by
    unfold countText
    split
    · simp
    · exact oneLine_cons.mpr ⟨by decide, oneLine_decimal _⟩
  have hdash : isLineEnd '_' = false := by decide
  simp only [name, List.append_assoc, List.cons_append, oneLine_append, oneLine_cons, hdash,
    oneLine_scope, oneLine_protocol, hmechanism, hcount, and_self]

theorem oneLine_protocolMap : OneLine l.protocolMap := by
  have hcolon : isLineEnd ':' = false := by decide
  simp only [protocolMap, oneLine_append, oneLine_cons, oneLine_name, oneLine_protocol, hcolon,
    and_self]

theorem oneLine_listener : OneLine l.listener := by
  simp (disch := exact ⟨_, rfl, rfl⟩) only [listener, oneLine_append, oneLine_name,
    oneLine_literal, oneLine_decimal, and_self]

theorem oneLine_portText (port : Option Nat) : OneLine (portText port) := by
  cases port with
  | none => exact oneLine_literal ⟨_, rfl, rfl⟩
  | some number => exact oneLine_decimal number

/-- A listener is advertised on one line if its host is one. -/
theorem oneLine_advertisedListener_iff : OneLine l.advertisedListener ↔ OneLine l.host := by
  have hport : OneLine (if l.scope = .external then portText l.nodePort else decimal l.port) := by
    split
    · exact oneLine_portText _
    · exact oneLine_decimal _
  have hcolon : isLineEnd ':' = false := by decide
  simp (disch := exact ⟨_, rfl, rfl⟩) only [advertisedListener, oneLine_append, oneLine_cons,
    oneLine_name, oneLine_literal, hport, hcolon, and_true, true_and]

end Listener

theorem oneLine_internalAddress (app : AppName) (u : Nat) : OneLine (internalAddress app u) :=
  (internalAddress_spaceFree app u).oneLine

/-- Filling in the placeholder neither adds nor takes a line end. -/
theorem oneLine_extraListenersOf (unitId count baseport : Nat) (host : Str) (auths : List AuthMap) :
    OneLines ((extraListenersOf unitId count baseport host auths).map Listener.host) ↔
      ∀ _auth ∈ auths, OneLine host := by
  induction auths generalizing host with
  | nil => simp [extraListenersOf]
  | cons auth auths ih =>
    have hreplace : OneLine (replace "\x7bunit\x7d" (decimal unitId) host) ↔ OneLine host :=
      oneLine_replace (by decide) (oneLine_literal ⟨_, rfl, rfl⟩) (oneLine_decimal unitId) host
    rw [extraListenersOf, List.map_cons, oneLines_cons, ih, List.forall_mem_cons, hreplace]

namespace ClusterState

variable {s : ClusterState} (e : Enumeration s)

/-- The hosts of the listeners outside the Kubernetes cluster: the address of the node. -/
def externalHosts : List Str :=
  if s.config.exposeExternal then
    (openAuth e).flatMap fun auth =>
      (s.listenerNodePort auth).given.toList.map fun _ => s.unit.nodeAddress
  else []

/-- The hosts of the items of `extra-listeners`, as they were given. -/
def extraHosts : List Str :=
  (s.config.extraListeners.filter (':' ∈ ·)).flatMap fun item =>
    (openAuth e).map fun _ => (item.splitOn ':').headD []

theorem oneLines_map_flatten {lists : List (List Listener)} :
    OneLines (lists.flatten.map Listener.host) ↔
      ∀ list ∈ lists, OneLines (list.map Listener.host) := by
  simp only [OneLines, List.forall_mem_map, List.mem_flatten]
  constructor
  · intro h list hlist l hl
    exact h l ⟨list, hlist, hl⟩
  · rintro h l ⟨list, hlist, hl⟩
    exact h list hlist l hl

theorem externalListeners_hosts {external : List Listener}
    (h : externalListeners e = some external) :
    OneLines (external.map Listener.host) ↔ OneLines (externalHosts e) := by
  have hround (auth : AuthMap) (listeners : List Listener)
      (h : s.externalListener auth = some listeners) :
      OneLines (listeners.map Listener.host) ↔
        OneLines ((s.listenerNodePort auth).given.toList.map fun _ => s.unit.nodeAddress) := by
    rw [externalListener_eq_some h, List.map_map]
    rfl
  unfold externalHosts
  obtain ⟨hexpose, lists, hlists, rfl⟩ | ⟨hexpose, rfl⟩ := externalListeners_eq_some e h
  · rw [oneLines_map_flatten, forall_mapM_iff hround hlists, if_pos hexpose]
    exact oneLines_flatMap.symm
  · rw [if_neg (by simp [hexpose]), List.map_nil]

theorem extraListenersFor_hosts {item : (Str × Str) × Nat} {listeners : List Listener}
    {unitId : Nat} {auths : List AuthMap}
    (h : extraListenersFor unitId auths item = some listeners) :
    OneLines (listeners.map Listener.host) ↔ ∀ _auth ∈ auths, OneLine item.1.1 := by
  obtain ⟨rfl, rfl⟩ | ⟨baseport, -, rfl⟩ := extraListenersFor_eq_some h
  · simp
  · exact oneLine_extraListenersOf unitId item.2 baseport item.1.1 auths

theorem extraListeners_hosts {extra : List Listener} (h : extraListeners e = some extra) :
    OneLines (extra.map Listener.host) ↔ OneLines (extraHosts e) := by
  obtain ⟨items, lists, hitems, hlists, rfl⟩ := extraListeners_eq_some e h
  have hnumbered : (∀ item ∈ items.zipIdx, ∀ _auth ∈ openAuth e, OneLine item.1.1) ↔
      ∀ item ∈ items, ∀ _auth ∈ openAuth e, OneLine item.1 := by
    conv_rhs => rw [← List.zipIdx_map_fst 0 items, List.forall_mem_map]
  have hgiven (item : Str) (parts : Str × Str) (h : hostBaseport item = some parts) :
      (∀ _auth ∈ openAuth e, OneLine parts.1) ↔
        ∀ _auth ∈ openAuth e, OneLine ((item.splitOn ':').headD []) := by
    rw [hostBaseport_eq_some h, List.headD_cons]
  calc OneLines (lists.flatten.map Listener.host)
      ↔ ∀ item ∈ items.zipIdx, ∀ _auth ∈ openAuth e, OneLine item.1.1 := by
        rw [oneLines_map_flatten]
        exact forall_mapM_iff (fun _ _ => extraListenersFor_hosts) hlists
    _ ↔ ∀ item ∈ items, ∀ _auth ∈ openAuth e, OneLine item.1 := hnumbered
    _ ↔ ∀ item ∈ s.config.extraListeners.filter (':' ∈ ·),
          ∀ _auth ∈ openAuth e, OneLine ((item.splitOn ':').headD []) :=
        forall_mapM_iff hgiven hitems
    _ ↔ OneLines (extraHosts e) := by
        rw [extraHosts, oneLines_flatMap]
        simp only [OneLines, List.forall_mem_map]

/-- All listeners are advertised on one line if the hosts from outside are. -/
theorem oneLine_advertisedListeners_iff {listeners : List Listener}
    (h : allListeners e = some listeners) :
    OneLine ([','].intercalate (listeners.map Listener.advertisedListener)) ↔
      OneLines (externalHosts e ++ extraHosts e) := by
  obtain ⟨external, extra, -, hexternal, hextra, rfl⟩ := allListeners_eq_some e h
  have hunit : OneLine s.unitAddress := oneLine_internalAddress s.app s.unit.unitId
  have hclient : OneLines ((s.listenersFor (openAuth e)).map Listener.host) := by
    simp only [listenersFor, OneLines, List.map_map, List.forall_mem_map]
    exact fun _ _ => hunit
  have hcontroller : OneLines
      ((if s.roles.controller then s.controllerListeners else []).map Listener.host) := by
    split
    · simpa [controllerListeners, activeControllerListener] using hunit
    · simp
  have hhosts (ls : List Listener) : OneLines (ls.map Listener.advertisedListener) ↔
      OneLines (ls.map Listener.host) := by
    simp only [OneLines, List.forall_mem_map, Listener.oneLine_advertisedListener_iff]
  rw [oneLine_intercalate (by decide), hhosts]
  simp only [List.map_append, List.map_cons, oneLines_append, oneLines_cons,
    externalListeners_hosts e hexternal, extraListeners_hosts e hextra, hclient, hcontroller]
  simp [internalListener, hunit]

end ClusterState

end KafkaCharm
