import KafkaCharm.InternalClients

namespace KafkaCharm

open PyText Fallible

/-! ## The login of an own listener -/

namespace Listener

variable (l : Listener) (login : Str)

theorem settings_login :
    settings (l.key ++ "sasl.enabled.mechanisms") [l.jaasConfig login, l.enabledMechanisms] =
      [l.auth.mechanism] ∧
    settings (l.key ++ lower l.auth.mechanism ++ ".sasl.jaas.config")
      [l.jaasConfig login, l.enabledMechanisms] = [login] := by
  have hjaas : '=' ∉ l.key ++ lower l.auth.mechanism ++ ".sasl.jaas.config" := by
    simp only [List.mem_append, l.sep_notMem_key, l.sep_notMem_mechanism]
    decide
  have hmechanisms : '=' ∉ l.key ++ "sasl.enabled.mechanisms" := by
    simp only [List.mem_append, l.sep_notMem_key]
    decide
  have hrests (auth : AuthMap) :
      ("sasl.enabled.mechanisms" : Str) ≠ lower auth.mechanism ++ ".sasl.jaas.config" := by
    rcases auth with ⟨_ | _⟩ | ⟨_ | _⟩ | _ <;> decide
  have hne : l.key ++ "sasl.enabled.mechanisms" ≠
      l.key ++ lower l.auth.mechanism ++ ".sasl.jaas.config" := by
    rw [List.append_assoc]
    exact fun heq => hrests l.auth (List.append_cancel_left heq)
  have hother := assigned_other hmechanisms hjaas hne login
  have hother' := assigned_other hjaas hmechanisms hne.symm l.auth.mechanism
  constructor
  · rw [settings_cons, enabledMechanisms, settings_property]
    exact congrArg (· ++ [l.auth.mechanism]) hother
  · rw [jaasConfig, settings_property]
    exact congrArg (login :: ·) hother'

end Listener

namespace ClusterState

variable (s : ClusterState)

/-- The login of the brokers among themselves. -/
def interBrokerLogin : Str :=
  loginModule interBrokerUser (s.internalPassword interBrokerUser) ++
    loginUser adminUser (s.internalPassword adminUser) ++
    loginUser interBrokerUser (s.internalPassword interBrokerUser) ++ ";"

/-- The login of the controllers. -/
def controllerLogin : Str :=
  loginModule controllerUser s.peerControllerPassword ++
    loginUser controllerUser s.peerControllerPassword ++ ";"

theorem scramProperties_nil : s.scramProperties [] =
    [s.internalListener.jaasConfig s.interBrokerLogin, s.internalListener.enabledMechanisms] := by
  simp only [scramProperties, List.filter_nil, List.flatMap_nil, List.append_nil, interBrokerLogin]

theorem settings_controllerScramProperties {key : Str} (h : Particular key) :
    settings key s.controllerScramProperties =
      settings key [s.activeControllerListener.jaasConfig s.controllerLogin,
        s.activeControllerListener.enabledMechanisms] := by
  have hprotocol : AllGeneral [property "sasl.mechanism.controller.protocol"
      s.activeControllerListener.auth.mechanism] := allGeneral_cons (by decide) _ Assigns.nil
  have hlines : s.controllerScramProperties =
      property "sasl.mechanism.controller.protocol" s.activeControllerListener.auth.mechanism ::
        [s.activeControllerListener.jaasConfig s.controllerLogin,
          s.activeControllerListener.enabledMechanisms] := by
    simp only [controllerScramProperties, controllerListeners, List.flatMap_singleton,
      controllerLogin]
  rw [hlines, settings_cons, (hprotocol.spares h).settings_eq_nil h, List.nil_append]

variable {s} {l : Listener} (hl : l.scope.isOwn = true) {rest : Str} (hsep : '=' ∉ rest)
  (hrest : ¬ ("ssl." : Str) <+: rest)
include hl hsep hrest

theorem settings_tlsProperties_listener : settings (l.key ++ rest) s.tlsProperties = [] := by
  have h := Particular.of_listener hl hsep hrest
  have hclients (key : Str) (hkey : ¬ listenerOwner <+: key) : key ≠ l.key ++ rest := by
    rintro rfl
    exact hkey (l.listenerOwner_prefix rest)
  have hstores : Spares (l.key ++ rest) (s.storeProperties [] truststorePath keystorePath) :=
    spares_cons (by decide) (hclients _ (by decide)) _ <|
      spares_cons (by decide) (hclients _ (by decide)) _ <|
      spares_cons (by decide) (hclients _ (by decide)) _ <|
      spares_cons (by decide) (hclients _ (by decide)) _ Assigns.nil
  unfold tlsProperties
  rw [settings_append, (s.spares_ownStores h _ _ _).settings_eq_nil h]
  split
  · exact hstores.settings_eq_nil h
  · rfl

/-- What a unit sets of an own listener to let clients in stands in two places. -/
theorem settings_listener (e : Enumeration s) {printable : Char → Bool} {rack lines : List Str}
    (hwritten : serverProperties e printable rack = some lines)
    (hrack : settings (l.key ++ rest) rack = []) :
    settings (l.key ++ rest) lines =
      settings (l.key ++ rest) (if s.runsControllerOnly then [] else
          [s.internalListener.jaasConfig s.interBrokerLogin,
           s.internalListener.enabledMechanisms]) ++
        settings (l.key ++ rest)
          [s.activeControllerListener.jaasConfig s.controllerLogin,
           s.activeControllerListener.enabledMechanisms] := by
  have h := Particular.of_listener hl hsep hrest
  obtain ⟨front, back, rfl, hback, hfront⟩ := particular_settings h e hwritten hrack
  rw [settings_append, settings_append, hfront, hback, s.scramProperties_nil,
    s.settings_controllerScramProperties h, settings_tlsProperties_listener hl hsep hrest,
    List.append_nil, List.append_nil]

omit hl hsep hrest in
/-- The lines of the other own listener are not about this one. -/
theorem settings_otherLogin {l' : Listener} (hscope : l'.scope ≠ l.scope)
    (h : Particular (l.key ++ rest)) (login : Str) :
    settings (l.key ++ rest) [l'.jaasConfig login, l'.enabledMechanisms] = [] := by
  have hother (rest' : Str) : l'.key ++ rest' ≠ l.key ++ rest :=
    fun heq => hscope (Listener.key_cancel heq).1
  exact (Listener.spares_jaasConfig hother
    (Listener.spares_enabledMechanisms hother Assigns.nil) login).settings_eq_nil h

end ClusterState

/-- Who may log in at a listener is set once. -/
def Listener.TakesLogin (l : Listener) (login : Str) (lines : List Str) : Prop :=
  settings (l.key ++ "sasl.enabled.mechanisms") lines = [l.auth.mechanism] ∧
    settings (l.key ++ lower l.auth.mechanism ++ ".sasl.jaas.config") lines = [login]

/-- It is enough that the two lines about it count. -/
theorem Listener.TakesLogin.of_lines {l : Listener} {login : Str} {lines : List Str}
    (hauth : l.auth = ClusterState.internalAuth)
    (h : ∀ rest, '=' ∉ rest → ¬ ("ssl." : Str) <+: rest → settings (l.key ++ rest) lines =
      settings (l.key ++ rest) [l.jaasConfig login, l.enabledMechanisms]) :
    l.TakesLogin login lines := by
  have hmechanism : '=' ∉ lower l.auth.mechanism ++ ".sasl.jaas.config" ∧
      ¬ ("ssl." : Str) <+: lower l.auth.mechanism ++ ".sasl.jaas.config" := by
    rw [hauth]
    decide
  obtain ⟨hmechanisms, hjaas⟩ := l.settings_login login
  rw [List.append_assoc] at hjaas
  refine ⟨(h _ (by decide) (by decide)).trans hmechanisms, ?_⟩
  rw [List.append_assoc]
  exact (h _ hmechanism.1 hmechanism.2).trans hjaas

/-! ## The file of a unit -/

/-- The beginnings of lines about listeners or logins. -/
def listenerMarks : List Str :=
  "listener" :: "advertised.listeners=" :: "controller.listener.names=" ::
    "inter.broker.listener.name=" :: loginKeys.map (· ++ ['='])

/-- The lines are about other things than listeners and logins. -/
def LeavesListeners (lines : List Str) : Prop :=
  ∀ line ∈ lines, ∀ mark ∈ listenerMarks, ¬ mark <+: line

instance (lines : List Str) : Decidable (LeavesListeners lines) :=
  inferInstanceAs (Decidable (∀ line ∈ lines, ∀ mark ∈ listenerMarks, ¬ mark <+: line))

theorem LeavesListeners.settings_eq_nil {lines : List Str} (h : LeavesListeners lines)
    {mark key : Str} (hmark : mark ∈ listenerMarks) (hkey : mark <+: key ++ ['=']) :
    settings key lines = [] := by
  refine assigned_eq_nil_iff.mpr ?_
  intro line hline hprefix
  exact h line hline mark hmark (hkey.trans hprefix)

theorem LeavesListeners.silent {lines : List Str} (h : LeavesListeners lines) : Silent lines := by
  have hmarks : ∀ key ∈ listenerKeys, ∃ mark ∈ listenerMarks, mark <+: key ++ ['='] := by
    decide
  intro key hkey
  obtain ⟨mark, hmark, hprefix⟩ := hmarks key hkey
  exact h.settings_eq_nil hmark hprefix

theorem LeavesListeners.settings_login {lines : List Str} (h : LeavesListeners lines) {key : Str}
    (hkey : key ∈ loginKeys) : settings key lines = [] := by
  have hmark : key ++ ['='] ∈ listenerMarks := by simp [listenerMarks, hkey]
  exact h.settings_eq_nil hmark (List.prefix_refl _)

theorem LeavesListeners.settings_listener {lines : List Str} (h : LeavesListeners lines)
    (l : Listener) (rest : Str) : settings (l.key ++ rest) lines = [] := by
  have hmark : ("listener" : Str) <+: listenerOwner := ⟨".name.", by decide⟩
  exact h.settings_eq_nil List.mem_cons_self
    ((hmark.trans (l.listenerOwner_prefix rest)).trans (List.prefix_append _ _))

/-- The `server.properties` that a unit wrote, and what it was made of. The option
`extra-listeners` was accepted, and a node is given by its address. -/
structure ServerFile where
  state : ClusterState
  order : Enumeration state
  printable : Char → Bool
  rack : List Str
  lines : List Str
  written : ClusterState.serverProperties order printable rack = some lines
  accepted : ∃ value, extraListenersPortValues value = some state.config.extraListeners
  nodeIp : ',' ∉ state.unit.nodeAddress
  rackOnly : LeavesListeners rack

namespace ServerFile

variable (f : ServerFile)

theorem controller_takesLogin :
    f.state.activeControllerListener.TakesLogin f.state.controllerLogin f.lines := by
  refine Listener.TakesLogin.of_lines rfl ?_
  intro rest hsep hrest
  have hrack := f.rackOnly.settings_listener f.state.activeControllerListener rest
  have hscope : f.state.internalListener.scope ≠ f.state.activeControllerListener.scope :=
    show ListenerScope.internal ≠ .controller by decide
  have hbrokers := ClusterState.settings_otherLogin hscope
    (Particular.of_listener rfl hsep hrest) f.state.interBrokerLogin
  rw [ClusterState.settings_listener rfl hsep hrest f.order f.written hrack]
  split
  · exact List.nil_append _
  · rw [hbrokers, List.nil_append]

theorem broker_takesLogin (hbroker : f.state.roles.broker = true) :
    f.state.internalListener.TakesLogin f.state.interBrokerLogin f.lines := by
  have honly : f.state.runsControllerOnly = false := by
    simp [ClusterState.runsControllerOnly, hbroker]
  refine Listener.TakesLogin.of_lines rfl ?_
  intro rest hsep hrest
  have hrack := f.rackOnly.settings_listener f.state.internalListener rest
  have hscope : f.state.activeControllerListener.scope ≠ f.state.internalListener.scope :=
    show ListenerScope.controller ≠ .internal by decide
  have hcontroller := ClusterState.settings_otherLogin hscope
    (Particular.of_listener rfl hsep hrest) f.state.controllerLogin
  rw [ClusterState.settings_listener rfl hsep hrest f.order f.written hrack, hcontroller, honly]
  exact List.append_nil _

/-- What a unit that runs a broker says of its listeners. -/
theorem broker_entries (hbroker : f.state.roles.broker = true) :
    ∃ listeners, ClusterState.allListeners f.order = some listeners ∧
      entriesIn "listeners" f.lines = listeners.map Listener.listener ∧
      entriesIn "advertised.listeners" f.lines = listeners.map Listener.advertisedListener ∧
      entriesIn protocolMapKey f.lines =
        (f.state.mappedListeners listeners).map Listener.protocolMap ∧
      settings "inter.broker.listener.name" f.lines = [f.state.internalListener.name] ∧
      settings "controller.listener.names" f.lines = [f.state.activeControllerListener.name] := by
  have hsilent := f.rackOnly.silent
  have honly : ¬ f.state.runsControllerOnly = true := by
    simp [ClusterState.runsControllerOnly, hbroker]
  obtain ⟨value, haccepted⟩ := f.accepted
  obtain ⟨listeners, hlisteners, ⟨hcontroller, -⟩ | ⟨-, external, extra, oauth, -, -, hoauth, hlines⟩⟩ :=
    ClusterState.serverProperties_eq_some f.order f.written
  · exact absurd hcontroller honly
  let clients := f.state.listenersFor (ClusterState.openAuth f.order) ++ external ++ extra
  have hrack {key : Str} (hkey : key ∈ listenerKeys) : settings key f.lines =
      settings key (ClusterState.linesBefore f.order f.printable listeners clients oauth ++
        ClusterState.linesAfter f.order) := by
    rw [hlines, settings_append, settings_append, hsilent key hkey, List.append_nil,
      settings_append]
  have hinternal := ClusterState.internalListener_mem f.order hlisteners
  have hne : listeners ≠ [] := List.ne_nil_of_mem hinternal
  have hhosts := ClusterState.comma_notMem_hosts f.order haccepted f.nodeIp hlisteners
  have hmapped : f.state.mappedListeners listeners ≠ [] :=
    List.ne_nil_of_mem (List.mem_append_left _ hinternal)
  refine ⟨listeners, hlisteners, ?_, ?_, ?_, ?_, ?_⟩
  · refine entriesIn_eq ?_ (by simpa using hne)
      (List.forall_mem_map.mpr fun l _ => l.comma_notMem_listener)
    rw [hrack listeners_mem_listenerKeys]
    exact ClusterState.settings_broker_listeners f.order f.printable listeners clients hoauth
  · refine entriesIn_eq ?_ (by simpa using hne)
      (List.forall_mem_map.mpr fun l hl => l.comma_notMem_advertisedListener (hhosts l hl))
    rw [hrack advertised_mem_listenerKeys]
    exact ClusterState.settings_broker_advertised f.order f.printable listeners clients hoauth
  · refine entriesIn_eq ?_ (by simpa using hmapped)
      (List.forall_mem_map.mpr fun l _ => l.comma_notMem_protocolMap)
    rw [hrack map_mem_listenerKeys]
    exact ClusterState.settings_broker_map f.order f.printable listeners clients hoauth
  · rw [hrack interBroker_mem_listenerKeys]
    exact ClusterState.settings_broker_interBroker f.order f.printable listeners clients hoauth
  · rw [hrack controller_mem_listenerKeys]
    exact ClusterState.settings_broker_controller f.order f.printable listeners clients hoauth

end ServerFile

/-! ## A client is let in -/

/-- The unit serves the address under this name: it listens there, or on every address of its
own and the address is advertised with the same port. -/
def Serves (name server : Str) (lines : List Str) : Prop :=
  name ++ "://" ++ server ∈ entriesIn "listeners" lines ∨
    ∃ host port, server = host ++ ':' :: port ∧
      name ++ "://0.0.0.0:" ++ port ∈ entriesIn "listeners" lines ∧
      name ++ "://" ++ server ∈ entriesIn "advertised.listeners" lines

/-- The listener of this name serves the address, has the protocol of the client and its
mechanism, and takes the user and the password that the client logs in with. -/
structure Admits (name server : Str) (client lines : List Str) : Prop where
  serves : Serves name server lines
  protocol : ∃ protocol, settings "security.protocol" client = [protocol] ∧
    (entriesIn protocolMapKey lines).filter (entryName · = name) = [name ++ ':' :: protocol]
  login : ∃ mechanism username password users,
    settings "sasl.mechanism" client = [mechanism] ∧
    settings "sasl.jaas.config" client = [loginModule username password ++ ";"] ∧
    settings (listenerOwner ++ lower name ++ ".sasl.enabled.mechanisms") lines = [mechanism] ∧
    settings (listenerOwner ++ lower name ++ "." ++ lower mechanism ++ ".sasl.jaas.config")
      lines = [users] ∧
    loginUser username password <:+: users

/-- A client with the settings of an own listener. -/
structure ClientOf (auth : AuthMap) (username password : Str) (client : List Str) : Prop where
  protocol : settings "security.protocol" client = [auth.protocol]
  mechanism : settings "sasl.mechanism" client = [auth.mechanism]
  login : settings "sasl.jaas.config" client = [loginModule username password ++ ";"]

theorem ClientOf.admitted {l : Listener} {username password login server : Str}
    {client lines : List Str} (h : ClientOf l.auth username password client)
    (htakes : l.TakesLogin login lines) (huser : loginUser username password <:+: login)
    (hserves : Serves l.name server lines)
    (hmap : (entriesIn protocolMapKey lines).filter (entryName · = l.name) = [l.protocolMap]) :
    Admits l.name server client lines where
  serves := hserves
  protocol := ⟨l.auth.protocol, h.protocol, hmap⟩
  login := by
    have hdot : (".sasl.enabled.mechanisms" : Str) = "." ++ "sasl.enabled.mechanisms" := by decide
    refine ⟨l.auth.mechanism, username, password, login, h.mechanism, h.login, ?_, htakes.2,
      huser⟩
    rw [hdot, ← List.append_assoc]
    exact htakes.1

/-- What a listener inside the cluster is advertised as. -/
theorem Listener.advertised_inside {l : Listener} (h : l.scope ≠ .external) :
    l.name ++ "://" ++ (l.host ++ ':' :: decimal l.port) = l.advertisedListener := by
  rw [advertisedListener, if_neg h]
  simp only [List.append_assoc]

namespace ServerFile

variable (f : ServerFile)

/-- An own listener of a unit that runs a broker. -/
theorem broker_serves (hbroker : f.state.roles.broker = true) {l : Listener}
    (hscope : l.scope.isOwn = true) (hl : ∀ listeners,
      ClusterState.allListeners f.order = some listeners → l ∈ listeners) :
    Serves l.name (l.host ++ ':' :: decimal l.port) f.lines ∧
      (entriesIn protocolMapKey f.lines).filter (entryName · = l.name) = [l.protocolMap] := by
  obtain ⟨listeners, hlisteners, hentries, hadvertised, hmap, -, -⟩ := f.broker_entries hbroker
  obtain ⟨value, haccepted⟩ := f.accepted
  have hmem := hl listeners hlisteners
  have hinside : l.scope ≠ .external := by
    intro hexternal
    rw [hexternal] at hscope
    cases hscope
  refine ⟨.inr ⟨l.host, decimal l.port, rfl, ?_, ?_⟩, ?_⟩
  · rw [hentries]
    exact List.mem_map_of_mem hmem
  · rw [hadvertised, Listener.advertised_inside hinside]
    exact List.mem_map_of_mem hmem
  · rw [hmap]
    exact filter_protocolMap (ClusterState.nodup_mappedListeners f.order haccepted hlisteners
      hbroker) (List.mem_append_left _ hmem)

/-- The listener of a unit that runs a controller. -/
theorem controller_serves (hcontroller : f.state.roles.controller = true) :
    settings "controller.listener.names" f.lines = [f.state.activeControllerListener.name] ∧
      Serves f.state.activeControllerListener.name (f.state.activeControllerListener.host ++
        ':' :: decimal f.state.activeControllerListener.port) f.lines ∧
      (entriesIn protocolMapKey f.lines).filter
          (entryName · = f.state.activeControllerListener.name) =
        [f.state.activeControllerListener.protocolMap] := by
  have hinside : f.state.activeControllerListener.scope ≠ .external :=
    show ListenerScope.controller ≠ .external by decide
  cases hbroker : f.state.roles.broker with
  | true =>
    have hmem (listeners : List Listener)
        (hlisteners : ClusterState.allListeners f.order = some listeners) :
        f.state.activeControllerListener ∈ listeners := by
      obtain ⟨external, extra, -, -, -, rfl⟩ := ClusterState.allListeners_eq_some f.order hlisteners
      simp [hcontroller, ClusterState.controllerListeners]
    obtain ⟨-, -, -, -, -, -, hnames⟩ := f.broker_entries hbroker
    obtain ⟨hserves, hmap⟩ := f.broker_serves hbroker rfl hmem
    exact ⟨hnames, hserves, hmap⟩
  | false =>
    obtain ⟨-, -, ⟨-, hlines⟩ | ⟨honly, -⟩⟩ :=
      ClusterState.serverProperties_eq_some f.order f.written
    · have hcomma : ∀ l ∈ f.state.controllerListeners, ',' ∉ l.advertisedListener := by
        refine List.forall_mem_singleton.mpr ?_
        exact Listener.comma_notMem_advertisedListener _ ClusterState.comma_notMem_unitAddress
      have hentries : entriesIn "listeners" f.lines =
          f.state.controllerListeners.map Listener.advertisedListener := by
        rw [hlines]
        exact entriesIn_eq (ClusterState.settings_controllerOnly_listeners f.order)
          (List.cons_ne_nil _ _) (List.forall_mem_map.mpr hcomma)
      have hmap : entriesIn protocolMapKey f.lines =
          f.state.controllerListeners.map Listener.protocolMap := by
        rw [hlines]
        exact entriesIn_eq (ClusterState.settings_controllerOnly_map f.order)
          (List.cons_ne_nil _ _) (List.forall_mem_map.mpr fun l _ => l.comma_notMem_protocolMap)
      refine ⟨?_, .inl ?_, ?_⟩
      · rw [hlines, ClusterState.settings_controllerOnly_names f.order,
          ClusterState.controllerListeners, List.map_singleton, List.intercalate_singleton]
      · rw [hentries, Listener.advertised_inside hinside]
        exact List.mem_cons_self
      · have hnodup : (f.state.controllerListeners.map Listener.name).Nodup :=
          List.nodup_singleton _
        rw [hmap]
        exact filter_protocolMap hnodup List.mem_cons_self
    · simp [ClusterState.runsControllerOnly, hcontroller, hbroker] at honly

end ServerFile

/-- The file of a unit that is exposed and serves a client and OAuth. -/
theorem ServerFile.exists_exposed : ∃ f : ServerFile,
    f.state = ClusterState.exposed "worker-\x7bunit\x7d.domain.com:30000" := by
  let s := ClusterState.exposed "worker-\x7bunit\x7d.domain.com:30000"
  have hbuilt : (ClusterState.serverProperties (Enumeration.listed s) (fun _ => true)
      ["broker.rack=gondor-west"]).isSome = true := by decide
  obtain ⟨lines, hlines⟩ := Option.isSome_iff_exists.mp hbuilt
  have haccepted : extraListenersPortValues "worker-\x7bunit\x7d.domain.com:30000" =
      some s.config.extraListeners := by decide
  exact ⟨⟨s, _, _, _, lines, hlines, ⟨_, haccepted⟩, by decide, by decide⟩, rfl⟩

/-! ## The admin client -/

/-- A broker among the bootstrap servers. -/
def bootstrapServer (app : AppName) (unitId : Nat) : Str :=
  internalAddress app unitId ++ ":" ++ decimal internalPort

namespace ClusterState

variable {s : ClusterState} (e : Enumeration s)

theorem clientProperties_eq : clientProperties e =
    property "sasl.jaas.config" (loginModule adminUser s.peerBrokerPassword ++ ";") ::
      property "sasl.mechanism" internalAuth.mechanism ::
      property "security.protocol" internalAuth.protocol ::
      property "bootstrap.servers" (bootstrapServerInternal e) ::
      s.storeProperties [] peerTruststorePath peerKeystorePath := by
  simp only [clientProperties, internalClientProperties, clientPassword, if_true,
    clientTlsProperties, List.cons_append, List.nil_append]

theorem clientOf_clientProperties :
    ClientOf internalAuth adminUser s.peerBrokerPassword (clientProperties e) := by
  rw [clientProperties_eq]
  unfold storeProperties
  constructor
  · simp (disch := decide) only [settings_property, settings_other]
    rfl
  · simp (disch := decide) only [settings_property, settings_other]
    rfl
  · simp (disch := decide) only [settings_property, settings_other]
    rfl

/-- The bootstrap servers of the admin client are the brokers. -/
theorem entriesIn_bootstrapServers (hpeers : s.peerRelation = true) :
    (entriesIn "bootstrap.servers" (clientProperties e)).Perm
      (s.brokers.map fun b => bootstrapServer s.app b.unitId) := by
  have hcomma (u : Nat) : ',' ∉ bootstrapServer s.app u := by
    have happ : ',' ∉ s.app.text := fun hc => absurd (s.app.legal ',' hc) (by decide)
    unfold bootstrapServer internalAddress
    simp [happ, (isName_decimal _).no_comma]
  have hvalue : settings "bootstrap.servers" (clientProperties e) = [[','].intercalate
      (sortStrings ((e.brokers.map BrokerUnit.unitId).map (bootstrapServer s.app)))] := by
    rw [clientProperties_eq]
    unfold storeProperties bootstrapServerInternal Site.bootstrapServerInternal
    simp (disch := decide) only [settings_property, settings_other]
    simp only [hpeers, if_true]
    rfl
  have hsorted : (sortStrings ((e.brokers.map BrokerUnit.unitId).map (bootstrapServer s.app))).Perm
      (s.brokers.map fun b => bootstrapServer s.app b.unitId) := by
    have hbrokers := e.brokers_perm.map fun b => bootstrapServer s.app b.unitId
    rw [List.map_map]
    exact (List.mergeSort_perm _ _).trans hbrokers
  rw [entriesIn_eq hvalue]
  · exact hsorted
  · intro hnil
    rw [hnil] at hsorted
    simpa [brokers] using hsorted.nil_eq
  · intro entry hentry
    obtain ⟨b, -, rfl⟩ := List.mem_map.mp (hsorted.subset hentry)
    exact hcomma b.unitId

/-- The bootstrap servers of `client.properties` are the brokers of the application, and
whatever each of them sees of the rest, the listener it uses towards the other brokers serves
the address and admits the client, provided it has the password that the client was given. -/
theorem admin_client_admitted (hpeers : s.peerRelation = true) :
    (entriesIn "bootstrap.servers" (clientProperties e)).Perm
      (s.brokers.map fun b => bootstrapServer s.app b.unitId) ∧
    ∀ f : ServerFile, f.state.roles.broker = true → f.state.app = s.app →
      f.state.internalPassword adminUser = s.peerBrokerPassword →
      ∀ b ∈ s.brokers, f.state.unit.unitId = b.unitId →
        ∃ name, settings "inter.broker.listener.name" f.lines = [name] ∧
          Admits name (bootstrapServer s.app b.unitId) (clientProperties e) f.lines := by
  refine ⟨entriesIn_bootstrapServers e hpeers, ?_⟩
  intro f hbroker happ hpassword b _ hunit
  obtain ⟨-, -, -, -, -, hname, -⟩ := f.broker_entries hbroker
  obtain ⟨hserves, hmap⟩ := f.broker_serves hbroker rfl
    fun _ hlisteners => internalListener_mem f.order hlisteners
  have haddress : f.state.internalListener.host ++ ':' :: decimal f.state.internalListener.port =
      bootstrapServer s.app b.unitId := by
    have hhost : f.state.internalListener.host = internalAddress s.app b.unitId := by
      rw [← happ, ← hunit]
      rfl
    have hport : f.state.internalListener.port = internalPort := rfl
    have hcolon : (":" : Str) = [':'] := rfl
    rw [hhost, hport, bootstrapServer, hcolon]
    simp only [List.append_assoc, List.cons_append, List.nil_append]
  have huser : loginUser adminUser s.peerBrokerPassword <:+: f.state.interBrokerLogin := by
    rw [← hpassword]
    unfold interBrokerLogin
    rw [List.append_assoc]
    exact List.infix_append _ _ _
  rw [haddress] at hserves
  exact ⟨_, hname, (clientOf_clientProperties e).admitted (f.broker_takesLogin hbroker) huser
    hserves hmap⟩

/-- The one broker of an application that is exposed admits its own admin client. -/
theorem admin_client_admitted_exposed :
    let item : Str := "worker-\x7bunit\x7d.domain.com:30000"
    let s := ClusterState.exposed item
    let e := Enumeration.listed s
    ∃ f : ServerFile, f.state = s ∧
      (entriesIn "bootstrap.servers" (clientProperties e)).Perm
        (s.brokers.map fun b => bootstrapServer s.app b.unitId) ∧
      ∃ name, settings "inter.broker.listener.name" f.lines = [name] ∧
        Admits name (bootstrapServer s.app 0) (clientProperties e) f.lines := by
  intro item s e
  obtain ⟨f, hstate⟩ := ServerFile.exists_exposed
  obtain ⟨hservers, hadmits⟩ := admin_client_admitted e rfl
  have happ : f.state.app = s.app := by rw [hstate]
  have hbroker : f.state.roles.broker = true := by
    rw [hstate]
    rfl
  have hpassword : f.state.internalPassword adminUser = s.peerBrokerPassword := by
    rw [hstate]
    decide
  have hunit : f.state.unit.unitId = s.unit.unitId := by rw [hstate]
  exact ⟨f, hstate, hservers,
    hadmits f hbroker happ hpassword s.unit (List.mem_append_right _ List.mem_cons_self) hunit⟩

/-! ## The client of the controllers -/

section
variable (s)

/-- `ClusterState.bootstrap_controller`. -/
def unitBootstrapController : Str :=
  if s.roles.controller then s.unitAddress ++ ':' :: decimal internalAuth.ports.controller else []

theorem kraftLogin_eq : s.kraftLogin =
    property "sasl.jaas.config" (loginModule controllerUser s.peerControllerPassword ++ ";") ::
      property "sasl.mechanism" s.internalListener.auth.mechanism ::
      property "security.protocol" s.internalListener.auth.protocol ::
      property "default.api.timeout.ms" "20000" ::
      property "request.timeout.ms" "10000" ::
      property "ssl.truststore.location" peerTruststorePath ::
      property "ssl.truststore.password" s.truststorePassword ::
      property "ssl.keystore.location" peerKeystorePath ::
      [property "ssl.keystore.password" s.keystorePassword] := by
  simp only [kraftLogin, clientTlsProperties, storeProperties, List.cons_append,
    List.nil_append]

/-- Each line of the login sets a property that no other line of it sets. -/
theorem kraftLogin_once : ∀ line ∈ s.kraftLogin, ∃ key ∈ loginKeys, ∃ value,
    line = property key value ∧ settings key s.kraftLogin = [value] := by
  have honce {key value : Str} {lines : List Str} (hkey : key ∈ loginKeys)
      (hvalue : settings key lines = [value]) : ∃ k ∈ loginKeys, ∃ v,
        property key value = property k v ∧ settings k lines = [v] :=
    ⟨key, hkey, value, rfl, hvalue⟩
  rw [kraftLogin_eq]
  simp only [List.forall_mem_cons]
  refine ⟨?_, ?_, ?_, ?_, ?_, ?_, ?_, ?_, ?_, by simp⟩
  all_goals
    refine honce (by decide) ?_
    simp (disch := decide) only [settings_property, settings_other]
    rfl

theorem clientOf_kraftLogin :
    ClientOf internalAuth controllerUser s.peerControllerPassword s.kraftLogin := by
  have hauth : s.internalListener.auth = internalAuth := rfl
  rw [kraftLogin_eq, hauth]
  constructor
  · simp (disch := decide) only [settings_property, settings_other]
    rfl
  · simp (disch := decide) only [settings_property, settings_other]
    rfl
  · simp (disch := decide) only [settings_property, settings_other]
    rfl

end

/-- Of the server's properties nothing is kept that the login sets. -/
theorem settings_kept {printable : Char → Bool} {rack server : List Str}
    (hwritten : serverProperties e printable rack = some server) (hrack : LeavesListeners rack)
    {key : Str} (hkey : key ∈ loginKeys) :
    settings key (sortStrings (server.dedup.filter (· ∉ strippedProperties e))) = [] := by
  have h := Particular.of_login hkey
  have hother (l : Listener) (rest : Str) : l.key ++ rest ≠ key := l.key_ne_login hkey rest
  have hlogin (l : Listener) (login : Str) :
      Spares key [l.jaasConfig login, l.enabledMechanisms] :=
    Listener.spares_jaasConfig (hother l)
      (Listener.spares_enabledMechanisms (hother l) Assigns.nil) login
  have hbrokers : settings key (if s.runsControllerOnly then [] else s.scramProperties []) = [] := by
    split
    · rfl
    · rw [scramProperties_nil]
      exact (hlogin _ _).settings_eq_nil h
  have hcontrollers : settings key s.controllerScramProperties = [] := by
    rw [s.settings_controllerScramProperties h]
    exact (hlogin _ _).settings_eq_nil h
  obtain ⟨front, back, hserver, hback, hfront⟩ :=
    particular_settings h e hwritten (hrack.settings_login hkey)
  have hrest : settings key (front ++ back) = [] := by
    rw [settings_append, hfront, hbrokers, hcontrollers, hback]
    rfl
  refine assigned_eq_nil_of_subset hrest ?_
  intro line hline
  obtain ⟨hmem, hkept⟩ := List.mem_filter.mp (mem_sortStrings.mp hline)
  have hstripped : line ∉ s.tlsProperties := fun htls =>
    of_decide_eq_true hkept (List.mem_append_right _ htls)
  have hlines : line ∈ front ++ s.tlsProperties ++ back := hserver ▸ List.mem_dedup.mp hmem
  simp only [List.mem_append] at hlines ⊢
  rcases hlines with (hfirst | htls) | hlast
  · exact .inl hfirst
  · exact absurd htls hstripped
  · exact .inr hlast

/-- In `kraft-client.properties` every property of the login is set once, as long as no line of
`rack.properties` sets one of them, and the listener of each unit that runs a controller with the
same password serves the address of that unit and admits the client. -/
theorem kraft_client_admitted {printable : Char → Bool} {rack kraft : List Str}
    (hwritten : controllerKraftClientProperties e printable rack = some kraft)
    (hrack : LeavesListeners rack) :
    (∀ line ∈ s.kraftLogin, ∃ key value, line = property key value ∧
      settings key kraft = [value]) ∧
    ∀ f : ServerFile, f.state.roles.controller = true →
      f.state.peerControllerPassword = s.peerControllerPassword →
        ∃ name, settings "controller.listener.names" f.lines = [name] ∧
          Admits name f.state.unitBootstrapController kraft f.lines := by
  obtain ⟨server, hserver, rfl⟩ := Option.map_eq_some_iff.mp hwritten
  have hlogin {key : Str} (hkey : key ∈ loginKeys) :
      settings key (sortStrings (server.dedup.filter (· ∉ strippedProperties e)) ++
        s.kraftLogin) = settings key s.kraftLogin := by
    rw [settings_append, settings_kept e hserver hrack hkey, List.nil_append]
  refine ⟨?_, ?_⟩
  · intro line hline
    obtain ⟨key, hkey, value, hproperty, honce⟩ := s.kraftLogin_once line hline
    exact ⟨key, value, hproperty, (hlogin hkey).trans honce⟩
  · intro f hcontroller hpassword
    obtain ⟨hname, hserves, hmap⟩ := f.controller_serves hcontroller
    have hclient := s.clientOf_kraftLogin
    have hkraft : ClientOf internalAuth controllerUser s.peerControllerPassword
        (sortStrings (server.dedup.filter (· ∉ strippedProperties e)) ++ s.kraftLogin) :=
      ⟨(hlogin (by decide)).trans hclient.protocol, (hlogin (by decide)).trans hclient.mechanism,
        (hlogin (by decide)).trans hclient.login⟩
    have huser : loginUser controllerUser s.peerControllerPassword <:+:
        f.state.controllerLogin := by
      rw [← hpassword]
      exact List.infix_append _ _ _
    have haddress : f.state.activeControllerListener.host ++ ':' ::
        decimal f.state.activeControllerListener.port = f.state.unitBootstrapController := by
      rw [unitBootstrapController, if_pos hcontroller]
      rfl
    rw [haddress] at hserves
    exact ⟨_, hname, hkraft.admitted f.controller_takesLogin huser hserves hmap⟩

/-- The files of a unit that is exposed and runs both roles. -/
theorem kraft_client_admitted_exposed :
    let item : Str := "worker-\x7bunit\x7d.domain.com:30000"
    let s := ClusterState.exposed item
    let e := Enumeration.listed s
    let rack : List Str := ["broker.rack=gondor-west"]
    ∃ (f : ServerFile) (kraft : List Str), f.state = s ∧
      controllerKraftClientProperties e (fun _ => true) rack = some kraft ∧
      (∀ line ∈ s.kraftLogin, ∃ key value, line = property key value ∧
        settings key kraft = [value]) ∧
      ∃ name, settings "controller.listener.names" f.lines = [name] ∧
        Admits name s.unitBootstrapController kraft f.lines := by
  intro item s e rack
  obtain ⟨f, hstate⟩ := ServerFile.exists_exposed
  have hbuilt : (controllerKraftClientProperties e (fun _ => true) rack).isSome = true := by
    decide
  obtain ⟨kraft, hkraft⟩ := Option.isSome_iff_exists.mp hbuilt
  have hrack : LeavesListeners rack := by decide
  obtain ⟨honce, hadmits⟩ := kraft_client_admitted e hkraft hrack
  have hcontroller : f.state.roles.controller = true := by
    rw [hstate]
    rfl
  have hpassword : f.state.peerControllerPassword = s.peerControllerPassword := by rw [hstate]
  have haddress : f.state.unitBootstrapController = s.unitBootstrapController := by rw [hstate]
  have hadmitted := hadmits f hcontroller hpassword
  rw [haddress] at hadmitted
  exact ⟨f, kraft, hstate, hkraft, honce, hadmitted⟩

end ClusterState

end KafkaCharm
