import KafkaCharm.Listeners

/-! To find out whether the broker has to be restarted, `server.properties` is read back, split into
lines and compared, as a set, with the lines as they would be written now. -/

namespace KafkaCharm

open PyText Fallible

/-! ## Properties -/

/-- A line of the file. -/
def property (key value : Str) : Str := key ++ '=' :: value

/-- What the properties of a listener begin with. -/
def Listener.key (l : Listener) : Str := "listener.name." ++ lower l.name ++ "."

/-- The SCRAM login of a user, up to its closing semicolon. -/
def loginModule (username password : Str) : Str :=
  "org.apache.kafka.common.security.scram.ScramLoginModule required" ++ " username=\"" ++
    username ++ "\" password=\"" ++ password ++ "\""

/-- A further user that a listener lets in. -/
def loginUser (username password : Str) : Str := " user_" ++ username ++ "=\"" ++ password ++ "\""

/-- The property that says how to log in at a listener. -/
def Listener.jaasConfig (l : Listener) (login : Str) : Str :=
  property (l.key ++ lower l.auth.mechanism ++ ".sasl.jaas.config") login

/-- The property that names the mechanism of a listener. -/
def Listener.enabledMechanisms (l : Listener) : Str :=
  property (l.key ++ "sasl.enabled.mechanisms") l.auth.mechanism

def truststorePath : Str := "/etc/kafka/client-truststore.jks"
def keystorePath : Str := "/etc/kafka/client-keystore.p12"
def peerTruststorePath : Str := "/etc/kafka/peer-truststore.jks"
def peerKeystorePath : Str := "/etc/kafka/peer-keystore.p12"

/-- `DEFAULT_CONFIG_OPTIONS.split("\n")`. -/
def defaultConfigOptions : List Str :=
  ["", "sasl.mechanism.inter.broker.protocol=SCRAM-SHA-512",
   "allow.everyone.if.no.acl.found=false", "auto.create.topics.enable=false", ""]

/-- `KAFKA_CRUISE_CONTROL_OPTIONS.splitlines()`. -/
def kafkaCruiseControlOptions : List Str :=
  ["", property "metric.reporters"
    "com.linkedin.kafka.cruisecontrol.metricsreporter.CruiseControlMetricsReporter"]

/-- `TESTING_OPTIONS.split("\n")`. -/
def testingOptions : List Str :=
  ["", "cruise.control.metrics.reporter.metrics.reporting.interval.ms=6000", ""]

/-- `ConfigManager.authorizer_class`. -/
def authorizerClass : List Str :=
  [property "authorizer.class.name" "org.apache.kafka.metadata.authorizer.StandardAuthorizer"]

/-- `client_certs.ready`. -/
def ClientTls.ready (tls : ClientTls) : Bool := tls.certificate && tls.ca && tls.privateKey

namespace ClusterState

variable (s : ClusterState)

/-- The properties of a truststore and a keystore. -/
def storeProperties (owner truststore keystore : Str) : List Str :=
  [property (owner ++ "ssl.truststore.location") truststore,
   property (owner ++ "ssl.truststore.password") s.truststorePassword,
   property (owner ++ "ssl.keystore.location") keystore,
   property (owner ++ "ssl.keystore.password") s.keystorePassword]

/-- `ConfigManager.client_tls_properties`. -/
def clientTlsProperties : List Str := s.storeProperties [] peerTruststorePath peerKeystorePath

/-- `ConfigManager.tls_properties`. -/
def tlsProperties : List Str :=
  (s.controllerListeners ++ [s.internalListener]).flatMap (fun l =>
    s.storeProperties l.key peerTruststorePath peerKeystorePath) ++
  (if s.clientTls.enabled && s.clientTls.ready then
    s.storeProperties [] truststorePath keystorePath else [])

/-- `ConfigManager.default_replication_properties`. -/
def defaultReplicationProperties : List Str :=
  let replicationFactor := min 3 s.plannedUnits
  let minIsr := max 1 (replicationFactor - 1)
  [property "default.replication.factor" (decimal replicationFactor),
   property "num.partitions" (decimal replicationFactor),
   property "transaction.state.log.replication.factor" (decimal replicationFactor),
   property "offsets.topic.replication.factor" (decimal replicationFactor),
   property "min.insync.replicas" (decimal minIsr),
   property "transaction.state.log.min.isr" (decimal minIsr)]

/-- `ConfigManager.controller_scram_properties`. -/
def controllerScramProperties : List Str :=
  s.controllerListeners.flatMap fun l =>
    [property "sasl.mechanism.controller.protocol" l.auth.mechanism,
     l.jaasConfig (loginModule controllerUser s.peerControllerPassword ++
       loginUser controllerUser s.peerControllerPassword ++ ";"),
     l.enabledMechanisms]

/-- `ConfigManager.controller_properties`. -/
def controllerProperties : List Str :=
  [property "process.roles" ([','].intercalate
     (CharmConfig.roleName s.roles.broker "broker" ++
       CharmConfig.roleName s.roles.controller "controller")),
   property "node.id" (intText (nodeId s.roles (unitName s.app s.unit.unitId))),
   property "controller.quorum.bootstrap.servers" s.peerBootstrapController,
   property "controller.listener.names"
     ([','].intercalate (s.controllerListeners.map Listener.name))] ++
  s.controllerScramProperties

/-- `validation_cfg` in `ConfigManager.oauth_properties`. -/
def validationCfg (oauth : OAuth) : Str :=
  if oauth.jwtAccessToken then "oauth.jwks.endpoint.uri=\"" ++ oauth.jwksEndpoint ++ "\""
  else "oauth.introspection.endpoint.uri=\"" ++ oauth.introspectionEndpoint ++ "\""

/-- `truststore_cfg` in `ConfigManager.oauth_properties`. -/
def truststoreCfg (oauth : OAuth) : Str :=
  if oauth.usesTrustedCa then []
  else "oauth.ssl.truststore.location=\"" ++ truststorePath ++
    "\" oauth.ssl.truststore.password=\"" ++ s.truststorePassword ++
    "\" oauth.ssl.truststore.type=\"JKS\""

/-- The properties of the listener for OAuth. -/
def oauthListenerProperties (oauth : OAuth) (l : Listener) : List Str :=
  [l.jaasConfig (join
     ["org.apache.kafka.common.security.oauthbearer.OAuthBearerLoginModule required",
      "oauth.client.id=\"kafka\"",
      "oauth.valid.issuer.uri=\"" ++ oauth.issuerUrl ++ "\"",
      validationCfg oauth,
      "oauth.username.claim=\"email\"",
      "oauth.fallback.username.claim=\"client_id\"",
      "oauth.check.audience=\"true\"",
      "oauth.check.access.token.type=\"false\"",
      "oauth.config.id=\"" ++ l.name ++ "\"",
      "unsecuredLoginStringClaim_sub=\"unused\"",
      s.truststoreCfg oauth,
      ";"]),
   property (l.key ++ lower l.auth.mechanism ++ ".sasl.server.callback.handler.class")
     "io.strimzi.kafka.oauth.server.JaasServerOauthValidatorCallbackHandler",
   l.enabledMechanisms,
   property "principal.builder.class" "io.strimzi.kafka.oauth.server.OAuthKafkaPrincipalBuilder"]

/-- The balancer runs in this application or in the one at the other end. -/
def reportsMetrics : Bool := s.roles.balancer || decide (balancerRole <:+: s.peerRoles)

/-- `ConfigManager.scram_properties`, for the listeners of the clients. -/
def scramProperties (listeners : List Listener) : List Str :=
  [s.internalListener.jaasConfig (loginModule interBrokerUser (s.internalPassword interBrokerUser) ++
     loginUser adminUser (s.internalPassword adminUser) ++
     loginUser interBrokerUser (s.internalPassword interBrokerUser) ++ ";"),
   s.internalListener.enabledMechanisms] ++
  (listeners.filter fun l => decide (("SCRAM" : Str) <+: l.auth.mechanism)).flatMap fun l =>
    [l.jaasConfig (loginModule interBrokerUser (s.internalPassword interBrokerUser) ++ ";"),
     l.enabledMechanisms]

/-- The properties that name the listeners. -/
def listenerProperties (listeners : List Listener) : List Str :=
  [property "listener.security.protocol.map" ([','].intercalate
     (listeners.map Listener.protocolMap ++
       if s.runsBrokerOnly then s.controllerListeners.map Listener.protocolMap else [])),
   property "listeners" ([','].intercalate (listeners.map Listener.listener)),
   property "advertised.listeners" ([','].intercalate (listeners.map Listener.advertisedListener)),
   property "inter.broker.listener.name" s.internalListener.name]

variable {s} (e : Enumeration s)

/-- `ConfigManager.oauth_properties`; `none` where the client listeners raise or none of them is
for OAuth. -/
def oauthProperties : Option (List Str) :=
  match s.oauth with
  | none => some []
  | some oauth => do
    let client ← clientListeners e
    let l ← client.find? fun l => decide (("OAUTH" : Str) <+: l.auth.mechanism)
    return s.oauthListenerProperties oauth l

def mtlsLines (mtls : Bool) : List Str :=
  if mtls then [property "ssl.client.auth" "required"] else []

/-- `ConfigManager.mtls_properties`; `none` where building the clients raises. -/
def mtlsProperties : Option (List Str) := (hasMtlsClients e).map mtlsLines

/-- `ConfigManager.metrics_reporter_properties`. -/
def metricsReporterProperties : List Str :=
  ([property "sasl.jaas.config" (loginModule adminUser s.peerBrokerPassword ++ ";"),
    property "sasl.mechanism" internalAuth.mechanism,
    property "security.protocol" internalAuth.protocol,
    property "bootstrap.servers" (bootstrapServerInternal e)] ++ s.clientTlsProperties).map
    ("cruise.control.metrics.reporter." ++ ·)

/-- What both kinds of unit begin with. -/
def storageProperties : List Str :=
  [property "super.users" (superUsers e),
   property "log.dirs" s.logDirs,
   property "metadata.log.dir" s.metadataLogDir]

/-- The properties of a controller that is no broker. -/
def controllerOnlyProperties : List Str :=
  storageProperties e ++
  [property "listeners" ([','].intercalate (s.controllerListeners.map Listener.advertisedListener)),
   property "listener.security.protocol.map"
     ([','].intercalate (s.controllerListeners.map Listener.protocolMap))] ++
  s.controllerProperties ++ authorizerClass ++ s.tlsProperties

/-- The options of the metrics reporter, where there is a balancer. -/
def balancerProperties : List Str :=
  if s.reportsMetrics then kafkaCruiseControlOptions ++ metricsReporterProperties e else []

/-- `ConfigManager.server_properties`, given the lines of `rack.properties`; `none` where it
raises. -/
def serverProperties (printable : Char → Bool) (rack : List Str) : Option (List Str) := do
  let listeners ← allListeners e
  if s.runsControllerOnly then
    return controllerOnlyProperties e
  let client ← clientListeners e
  let external ← externalListeners e
  let extra ← extraListeners e
  let oauth ← oauthProperties e
  let mtls ← mtlsProperties e
  return storageProperties e ++ s.listenerProperties listeners ++
    s.scramProperties (client ++ external ++ extra) ++ oauth ++
    s.config.configProperties printable ++ s.defaultReplicationProperties ++ rack ++
    defaultConfigOptions ++ authorizerClass ++ s.controllerProperties ++ s.tlsProperties ++
    mtls ++ balancerProperties e ++
    (if s.config.profile = .testing then testingOptions else [])

/-- What a broker has before the lines of `rack.properties`. -/
def linesBefore (printable : Char → Bool) (listeners clients : List Listener) (oauth : List Str) :
    List Str :=
  storageProperties e ++ s.listenerProperties listeners ++ s.scramProperties clients ++ oauth ++
    s.config.configProperties printable ++ s.defaultReplicationProperties

/-- What a broker has after them. -/
def linesAfter : List Str :=
  defaultConfigOptions ++ authorizerClass ++ s.controllerProperties ++ s.tlsProperties ++
    mtlsLines (mtlsClients e) ++ balancerProperties e ++
    (if s.config.profile = .testing then testingOptions else [])

/-- What the properties are made of where nothing raises. -/
theorem serverProperties_eq_some {printable : Char → Bool} {rack lines : List Str}
    (h : serverProperties e printable rack = some lines) :
    ∃ listeners, allListeners e = some listeners ∧
      (s.runsControllerOnly = true ∧ lines = controllerOnlyProperties e ∨
        s.runsControllerOnly = false ∧ ∃ external extra oauth,
          externalListeners e = some external ∧ extraListeners e = some extra ∧
          oauthProperties e = some oauth ∧
          lines = linesBefore e printable listeners
              (s.listenersFor (openAuth e) ++ external ++ extra) oauth ++ rack ++
            linesAfter e) := by
  obtain ⟨listeners, hlisteners, h⟩ := Option.bind_eq_some_iff.mp h
  refine ⟨listeners, hlisteners, ?_⟩
  split at h
  case isTrue honly => exact .inl ⟨honly, (Option.some.inj h).symm⟩
  case isFalse honly =>
    obtain ⟨client, hclient, h⟩ := Option.bind_eq_some_iff.mp h
    obtain ⟨external, hexternal, h⟩ := Option.bind_eq_some_iff.mp h
    obtain ⟨extra, hextra, h⟩ := Option.bind_eq_some_iff.mp h
    obtain ⟨oauth, hoauth, h⟩ := Option.bind_eq_some_iff.mp h
    obtain ⟨mtls, hmtls, h⟩ := Option.bind_eq_some_iff.mp h
    obtain ⟨-, rfl⟩ := clientListeners_eq_some e hclient
    obtain ⟨has, hhas, rfl⟩ := Option.map_eq_some_iff.mp hmtls
    obtain rfl := hasMtlsClients_eq_some e hhas
    refine .inr ⟨by simpa using honly, external, extra, oauth, hexternal, hextra, hoauth, ?_⟩
    rw [← Option.some.inj h]
    simp only [linesBefore, linesAfter, List.append_assoc]

end ClusterState

/-! ## The file -/

/-- The files of the configuration directory that are read or written here. -/
structure ConfFiles where
  serverProperties : Option Str
  rackProperties : Option Str
  deriving DecidableEq

section
variable (readText : Str → Str) (printable : Char → Bool) {s : ClusterState}

/-- `Workload.read`; `readText` is what reading a file as text makes of its contents. -/
def readLines : Option Str → List Str
  | none => []
  | some contents => splitText (readText contents)

/-- `ConfigManager.server_properties` with the `rack.properties` that is there. -/
def ConfFiles.currentProperties (files : ConfFiles) (e : Enumeration s) : Option (List Str) :=
  ClusterState.serverProperties e printable (readLines readText files.rackProperties)

/-- `ConfigManager.set_server_properties`; nothing is written where it raises. -/
def ConfFiles.setServerProperties (files : ConfFiles) (e : Enumeration s) : Option ConfFiles :=
  (files.currentProperties readText printable e).map fun lines =>
    { files with serverProperties := some (joinLines lines) }

/-- `ConfigManager.properties_changed`; `none` where it raises. -/
def ConfFiles.propertiesChanged (files : ConfFiles) (e : Enumeration s) : Option (List Str) :=
  let current := readLines readText files.serverProperties
  if current = [] then some []
  else (files.currentProperties readText printable e).map (changedLines current)

end

/-! ## One line for each property -/

theorem oneLine_property {key value : Str} :
    OneLine (property key value) ↔ OneLine key ∧ OneLine value := by
  have hequals : isLineEnd '=' = false := by decide
  simp only [property, oneLine_append, oneLine_cons, hequals, true_and]

theorem oneLine_loginModule {username password : Str} :
    OneLine (loginModule username password) ↔ OneLine username ∧ OneLine password := by
  unfold loginModule
  simp (disch := exact ⟨_, rfl, rfl⟩) only [oneLine_append, oneLine_literal, true_and,
    and_true]

theorem oneLine_loginUser {username password : Str} :
    OneLine (loginUser username password) ↔ OneLine username ∧ OneLine password := by
  unfold loginUser
  simp (disch := exact ⟨_, rfl, rfl⟩) only [oneLine_append, oneLine_literal, true_and,
    and_true]

namespace Listener

variable (l : Listener)

theorem oneLine_key : OneLine l.key := by
  have hname : OneLine (lower l.name) := oneLine_lower l.oneLine_name
  unfold key
  simp (disch := exact ⟨_, rfl, rfl⟩) only [oneLine_append, oneLine_literal, hname, and_self]

theorem oneLine_jaasConfig_iff {login : Str} : OneLine (l.jaasConfig login) ↔ OneLine login := by
  have hmechanism : OneLine (lower l.auth.mechanism) := oneLine_lower (oneLine_mechanism l.auth)
  simp (disch := exact ⟨_, rfl, rfl⟩) only [jaasConfig, oneLine_property, oneLine_append,
    oneLine_literal, oneLine_key, hmechanism, true_and]

theorem oneLine_enabledMechanisms : OneLine l.enabledMechanisms := by
  simp (disch := exact ⟨_, rfl, rfl⟩) only [enabledMechanisms, oneLine_property, oneLine_append,
    oneLine_literal, oneLine_key, oneLine_mechanism, and_self]

end Listener

namespace ClusterState

variable (s : ClusterState)

theorem oneLine_controllerUser : OneLine controllerUser := oneLine_literal ⟨_, rfl, rfl⟩
theorem oneLine_adminUser : OneLine adminUser := oneLine_literal ⟨_, rfl, rfl⟩
theorem oneLine_interBrokerUser : OneLine interBrokerUser := oneLine_literal ⟨_, rfl, rfl⟩

theorem oneLines_storeProperties_iff {owner truststore keystore : Str} (howner : OneLine owner)
    (htruststore : OneLine truststore) (hkeystore : OneLine keystore) :
    OneLines (s.storeProperties owner truststore keystore) ↔
      OneLines [s.truststorePassword, s.keystorePassword] := by
  simp (disch := exact ⟨_, rfl, rfl⟩) only [storeProperties, oneLines_cons, oneLines_nil,
    oneLine_property, oneLine_append, oneLine_literal, howner, htruststore, hkeystore, true_and,
    and_true]

theorem oneLines_tlsProperties_iff :
    OneLines s.tlsProperties ↔ OneLines [s.truststorePassword, s.keystorePassword] := by
  have hpeer (l : Listener) :
      OneLines (s.storeProperties l.key peerTruststorePath peerKeystorePath) ↔
        OneLines [s.truststorePassword, s.keystorePassword] :=
    s.oneLines_storeProperties_iff l.oneLine_key (oneLine_literal ⟨_, rfl, rfl⟩)
      (oneLine_literal ⟨_, rfl, rfl⟩)
  have hclient : OneLines (s.storeProperties [] truststorePath keystorePath) ↔
      OneLines [s.truststorePassword, s.keystorePassword] :=
    s.oneLines_storeProperties_iff oneLine_nil (oneLine_literal ⟨_, rfl, rfl⟩)
      (oneLine_literal ⟨_, rfl, rfl⟩)
  rw [tlsProperties, oneLines_append, oneLines_flatMap]
  simp only [controllerListeners, List.cons_append, List.nil_append, List.forall_mem_cons, hpeer]
  split
  · simp only [hclient]
    simp
  · simp

theorem oneLines_defaultReplicationProperties : OneLines s.defaultReplicationProperties := by
  simp (disch := exact ⟨_, rfl, rfl⟩) only [defaultReplicationProperties, oneLines_cons,
    oneLines_nil, oneLine_property, oneLine_literal, oneLine_decimal, and_self]

theorem oneLines_authorizerClass : OneLines authorizerClass := by
  unfold authorizerClass
  simp (disch := exact ⟨_, rfl, rfl⟩) only [oneLines_cons, oneLines_nil, oneLine_property,
    oneLine_literal, and_self]

theorem oneLines_defaultConfigOptions : OneLines defaultConfigOptions := by
  unfold defaultConfigOptions
  simp (disch := exact ⟨_, rfl, rfl⟩) only [oneLines_cons, oneLines_nil, oneLine_literal, and_self]

theorem oneLines_testingOptions : OneLines testingOptions := by
  unfold testingOptions
  simp (disch := exact ⟨_, rfl, rfl⟩) only [oneLines_cons, oneLines_nil, oneLine_literal, and_self]

theorem oneLines_controllerScramProperties_iff :
    OneLines s.controllerScramProperties ↔ OneLine s.peerControllerPassword := by
  unfold controllerScramProperties controllerListeners
  simp (disch := exact ⟨_, rfl, rfl⟩) only [oneLines_flatMap, List.forall_mem_singleton,
    oneLines_cons, oneLines_nil, oneLine_property, oneLine_append, oneLine_literal,
    Listener.oneLine_mechanism, Listener.oneLine_jaasConfig_iff, Listener.oneLine_enabledMechanisms,
    oneLine_loginModule, oneLine_loginUser, oneLine_controllerUser, true_and, and_true, and_self]

theorem oneLines_controllerProperties_iff :
    OneLines s.controllerProperties ↔
      OneLines [s.peerBootstrapController, s.peerControllerPassword] := by
  have hroles : OneLine ([','].intercalate (CharmConfig.roleName s.roles.broker "broker" ++
      CharmConfig.roleName s.roles.controller "controller")) := by
    rw [oneLine_intercalate (by decide), oneLines_append]
    exact ⟨CharmConfig.oneLines_roleName (oneLine_literal ⟨_, rfl, rfl⟩) _,
      CharmConfig.oneLines_roleName (oneLine_literal ⟨_, rfl, rfl⟩) _⟩
  have hnames : OneLine ([','].intercalate (s.controllerListeners.map Listener.name)) := by
    rw [oneLine_intercalate (by decide)]
    exact List.forall_mem_map.mpr fun l _ => l.oneLine_name
  unfold controllerProperties
  simp (disch := exact ⟨_, rfl, rfl⟩) only [oneLines_append, oneLines_cons, oneLines_nil,
    oneLine_property, oneLine_literal, oneLine_intText, hroles, hnames,
    oneLines_controllerScramProperties_iff, true_and, and_true]

theorem oneLines_scramProperties_iff (listeners : List Listener) :
    OneLines (s.scramProperties listeners) ↔
      OneLines [s.internalPassword interBrokerUser, s.internalPassword adminUser] := by
  unfold scramProperties
  simp (disch := exact ⟨_, rfl, rfl⟩) only [oneLines_append, oneLines_flatMap, oneLines_cons,
    oneLines_nil, oneLine_append, oneLine_literal, Listener.oneLine_jaasConfig_iff,
    Listener.oneLine_enabledMechanisms, oneLine_loginModule, oneLine_loginUser,
    oneLine_interBrokerUser, oneLine_adminUser, true_and, and_true]
  constructor
  · rintro ⟨⟨⟨hpassword, hadmin⟩, -⟩, -⟩
    exact ⟨hpassword, hadmin⟩
  · rintro ⟨hpassword, hadmin⟩
    exact ⟨⟨⟨hpassword, hadmin⟩, hpassword⟩, fun _ _ => hpassword⟩

/-- The strings of the OAuth relation that reach the file. -/
def oauthTexts : List Str :=
  match s.oauth with
  | none => []
  | some oauth =>
    [oauth.issuerUrl,
     if oauth.jwtAccessToken then oauth.jwksEndpoint else oauth.introspectionEndpoint] ++
    (if oauth.usesTrustedCa then [] else [s.truststorePassword])

theorem oneLine_validationCfg_iff (oauth : OAuth) :
    OneLine (validationCfg oauth) ↔
      OneLine (if oauth.jwtAccessToken then oauth.jwksEndpoint else oauth.introspectionEndpoint) := by
  unfold validationCfg
  cases oauth.jwtAccessToken with
  | true =>
    simp (disch := exact ⟨_, rfl, rfl⟩) only [if_true, oneLine_append, oneLine_literal, true_and,
      and_true]
  | false =>
    simp (disch := exact ⟨_, rfl, rfl⟩) only [Bool.false_eq_true, if_false, oneLine_append,
      oneLine_literal, true_and, and_true]

theorem oneLine_truststoreCfg_iff (oauth : OAuth) :
    OneLine (s.truststoreCfg oauth) ↔
      OneLines (if oauth.usesTrustedCa then [] else [s.truststorePassword]) := by
  have hpath : OneLine truststorePath := oneLine_literal ⟨_, rfl, rfl⟩
  unfold truststoreCfg
  cases oauth.usesTrustedCa with
  | true => simp
  | false =>
    simp (disch := exact ⟨_, rfl, rfl⟩) only [Bool.false_eq_true, if_false, oneLine_append,
      oneLine_literal, hpath, oneLines_cons, oneLines_nil, true_and, and_true]

theorem oneLines_oauthProperties_iff (e : Enumeration s) {properties : List Str}
    (h : oauthProperties e = some properties) :
    OneLines properties ↔ OneLines s.oauthTexts := by
  unfold oauthProperties at h
  unfold oauthTexts
  cases hoauth : s.oauth with
  | none =>
    rw [hoauth] at h
    obtain rfl := Option.some.inj h
    simp
  | some oauth =>
    rw [hoauth] at h
    obtain ⟨client, -, h⟩ := Option.bind_eq_some_iff.mp h
    obtain ⟨l, -, h⟩ := Option.bind_eq_some_iff.mp h
    obtain rfl := Option.some.inj h
    have hmechanism : OneLine (lower l.auth.mechanism) :=
      oneLine_lower (Listener.oneLine_mechanism l.auth)
    have hblank : OneLine [' '] := by decide
    unfold oauthListenerProperties join
    simp (disch := exact ⟨_, rfl, rfl⟩) only [oneLines_append, oneLines_cons, oneLines_nil,
      oneLine_property, oneLine_append, oneLine_literal, Listener.oneLine_jaasConfig_iff,
      Listener.oneLine_enabledMechanisms, Listener.oneLine_key, Listener.oneLine_name, hmechanism,
      oneLine_intercalate hblank, oneLine_validationCfg_iff, oneLine_truststoreCfg_iff, true_and,
      and_true, and_assoc]

/-- The super users of a controller that is no broker are those it was given. -/
def superUserTexts : List Str :=
  if s.runsControllerOnly then [(s.peerClusterRelation.map RemoteCluster.superUsers).getD []]
  else []

variable {s} (e : Enumeration s)

theorem oneLine_userPrincipal {user : Str} (h : OneLine user) : OneLine (userPrincipal user) :=
  oneLine_append.mpr ⟨oneLine_literal ⟨_, rfl, rfl⟩, h⟩

theorem oneLine_superUsers_iff : OneLine (superUsers e) ↔ OneLines s.superUserTexts := by
  unfold superUsers superUserTexts
  split
  · simp
  · have hrelation (id : Nat) : OneLine (relationUser id) :=
      oneLine_append.mpr ⟨oneLine_literal ⟨_, rfl, rfl⟩, oneLine_decimal id⟩
    have hinternal : OneLines (internalUsers ++ [controllerUser]) := by decide
    dsimp only
    rw [oneLine_intercalate (by decide)]
    refine iff_of_true ?_ oneLines_nil
    intro principal hprincipal
    obtain ⟨user, huser, rfl⟩ := List.mem_map.mp (List.mem_mergeSort.mp hprincipal)
    apply oneLine_userPrincipal
    rcases List.mem_append.mp (List.mem_dedup.mp huser) with huser | huser
    · exact hinternal user huser
    · obtain ⟨r, -, rfl⟩ := List.mem_map.mp huser
      exact hrelation r.id

theorem oneLine_logDirs_iff : OneLine s.logDirs ↔ OneLines s.storages := by
  rw [logDirs, oneLine_intercalate (by decide)]
  simp (disch := exact ⟨_, rfl, rfl⟩) only [OneLines, List.forall_mem_map, oneLine_append,
    oneLine_literal, and_true]

/-- The metadata directory is cut out of the log directories. -/
theorem oneLine_metadataLogDir (h : OneLine s.logDirs) : OneLine s.metadataLogDir := by
  unfold metadataLogDir
  rw [oneLine_append]
  refine ⟨h.of_subset ?_, oneLine_literal ⟨_, rfl, rfl⟩⟩
  intro c hc
  have hdropped := (List.dropWhile_sublist _).subset (List.mem_reverse.mp hc)
  exact (List.takeWhile_sublist _).subset (List.mem_reverse.mp hdropped)

theorem oneLines_storageProperties_iff :
    OneLines (storageProperties e) ↔ OneLines (s.superUserTexts ++ s.storages) := by
  unfold storageProperties
  simp (disch := exact ⟨_, rfl, rfl⟩) only [oneLines_append, oneLines_cons, oneLines_nil,
    oneLine_property, oneLine_literal, oneLine_superUsers_iff, true_and, and_true]
  constructor
  · rintro ⟨hsuper, hlog, -⟩
    exact ⟨hsuper, oneLine_logDirs_iff.mp hlog⟩
  · rintro ⟨hsuper, hstorages⟩
    have hlog := oneLine_logDirs_iff.mpr hstorages
    exact ⟨hsuper, hlog, oneLine_metadataLogDir hlog⟩

theorem oneLines_listenerProperties_iff {listeners : List Listener}
    (h : allListeners e = some listeners) :
    OneLines (s.listenerProperties listeners) ↔ OneLines (externalHosts e ++ extraHosts e) := by
  have hcomma : OneLine [','] := by decide
  have hmaps (ls : List Listener) : OneLines (ls.map Listener.protocolMap) :=
    List.forall_mem_map.mpr fun l _ => l.oneLine_protocolMap
  have hlisteners : OneLines (listeners.map Listener.listener) :=
    List.forall_mem_map.mpr fun l _ => l.oneLine_listener
  have hcontrollers : OneLines
      (if s.runsBrokerOnly then s.controllerListeners.map Listener.protocolMap else []) := by
    split
    · exact hmaps _
    · exact oneLines_nil
  have hmap : OneLine ([','].intercalate (listeners.map Listener.protocolMap ++
      if s.runsBrokerOnly then s.controllerListeners.map Listener.protocolMap else [])) :=
    (oneLine_intercalate hcomma).mpr (oneLines_append.mpr ⟨hmaps listeners, hcontrollers⟩)
  have hlist : OneLine ([','].intercalate (listeners.map Listener.listener)) :=
    (oneLine_intercalate hcomma).mpr hlisteners
  unfold listenerProperties
  simp (disch := exact ⟨_, rfl, rfl⟩) only [oneLines_cons, oneLines_nil, oneLine_property,
    oneLine_literal, oneLine_advertisedListeners_iff e h, Listener.oneLine_name, hmap, hlist,
    true_and, and_true]

theorem oneLines_mtlsLines (mtls : Bool) : OneLines (mtlsLines mtls) := by
  unfold mtlsLines
  split
  · simp (disch := exact ⟨_, rfl, rfl⟩) only [oneLines_cons, oneLines_nil, oneLine_property,
      oneLine_literal, and_self]
  · exact oneLines_nil

theorem oneLine_bootstrapServerInternal : OneLine (bootstrapServerInternal e) :=
  (bootstrapServerInternal_spaceFree _).oneLine

/-- The strings of the metrics reporter. -/
def balancerTexts (s : ClusterState) : List Str :=
  if s.reportsMetrics then [s.peerBrokerPassword, s.truststorePassword, s.keystorePassword] else []

theorem oneLines_balancerProperties_iff :
    OneLines (balancerProperties e) ↔ OneLines s.balancerTexts := by
  have hstores : OneLines s.clientTlsProperties ↔
      OneLines [s.truststorePassword, s.keystorePassword] :=
    s.oneLines_storeProperties_iff oneLine_nil (oneLine_literal ⟨_, rfl, rfl⟩)
      (oneLine_literal ⟨_, rfl, rfl⟩)
  have hreporter (lines : List Str) :
      OneLines (lines.map ("cruise.control.metrics.reporter." ++ ·)) ↔ OneLines lines := by
    simp (disch := exact ⟨_, rfl, rfl⟩) only [OneLines, List.forall_mem_map, oneLine_append,
      oneLine_literal, true_and]
  unfold balancerProperties balancerTexts
  split
  · unfold kafkaCruiseControlOptions metricsReporterProperties
    rw [oneLines_append, hreporter]
    simp (disch := exact ⟨_, rfl, rfl⟩) only [oneLines_append, oneLines_cons, oneLines_nil,
      oneLine_property, oneLine_append, oneLine_literal, oneLine_loginModule, oneLine_adminUser,
      Listener.oneLine_mechanism, Listener.oneLine_protocol, oneLine_bootstrapServerInternal,
      hstores, true_and, and_true]
  · rfl

/-- The strings that reach the controller's part of the file as they are. -/
def controllerTexts (s : ClusterState) : List Str :=
  [s.peerBootstrapController, s.peerControllerPassword] ++
    [s.truststorePassword, s.keystorePassword]

/-- The strings that the properties take over as they are, in the order of the file. -/
def rawTexts : List Str :=
  if s.runsControllerOnly then s.superUserTexts ++ s.storages ++ s.controllerTexts
  else
    s.superUserTexts ++ s.storages ++ (externalHosts e ++ extraHosts e) ++
      [s.internalPassword interBrokerUser, s.internalPassword adminUser] ++ s.oauthTexts ++
      s.config.rawTexts ++ s.controllerTexts ++ s.balancerTexts

theorem oneLines_controllerOnlyProperties_iff (h : s.runsControllerOnly = true) :
    OneLines (controllerOnlyProperties e) ↔ OneLines (rawTexts e) := by
  have hcomma : OneLine [','] := by decide
  have hunit : OneLine s.unitAddress := oneLine_internalAddress s.app s.unit.unitId
  have hadvertised : OneLine
      ([','].intercalate (s.controllerListeners.map Listener.advertisedListener)) := by
    rw [oneLine_intercalate hcomma, OneLines, List.forall_mem_map, controllerListeners,
      List.forall_mem_singleton, Listener.oneLine_advertisedListener_iff]
    exact hunit
  have hmap : OneLine ([','].intercalate (s.controllerListeners.map Listener.protocolMap)) := by
    rw [oneLine_intercalate hcomma]
    exact List.forall_mem_map.mpr fun l _ => l.oneLine_protocolMap
  have hlisteners : OneLines
      [property "listeners"
        ([','].intercalate (s.controllerListeners.map Listener.advertisedListener)),
       property "listener.security.protocol.map"
        ([','].intercalate (s.controllerListeners.map Listener.protocolMap))] := by
    simp (disch := exact ⟨_, rfl, rfl⟩) only [oneLines_cons, oneLines_nil, oneLine_property,
      oneLine_literal, hadvertised, hmap, and_self]
  rw [rawTexts, if_pos h, controllerTexts, controllerOnlyProperties]
  simp only [oneLines_append, oneLines_storageProperties_iff, hlisteners,
    oneLines_controllerProperties_iff, oneLines_authorizerClass, oneLines_tlsProperties_iff,
    and_true, and_assoc]

/-- Every property stands on one line if the strings it takes over do. -/
theorem oneLines_serverProperties_iff {printable : Char → Bool} {rack lines : List Str}
    (hrack : OneLines rack) (h : serverProperties e printable rack = some lines) :
    OneLines lines ↔ OneLines (rawTexts e) := by
  obtain ⟨listeners, hlisteners, ⟨honly, rfl⟩ | ⟨honly, external, extra, oauth, -, -, hoauth, rfl⟩⟩ :=
    serverProperties_eq_some e h
  · exact oneLines_controllerOnlyProperties_iff e honly
  · have htesting : OneLines (if s.config.profile = .testing then testingOptions else []) := by
      split
      · exact oneLines_testingOptions
      · exact oneLines_nil
    rw [rawTexts, if_neg (ne_true_of_eq_false honly)]
    simp only [linesBefore, linesAfter, oneLines_append, oneLines_storageProperties_iff,
      oneLines_listenerProperties_iff e hlisteners, oneLines_scramProperties_iff,
      s.oneLines_oauthProperties_iff e hoauth, CharmConfig.configProperties_oneLine_iff,
      oneLines_defaultReplicationProperties, hrack, oneLines_defaultConfigOptions,
      oneLines_authorizerClass, oneLines_controllerProperties_iff, oneLines_tlsProperties_iff,
      oneLines_mtlsLines, oneLines_balancerProperties_iff, htesting, controllerTexts,
      true_and, and_true, and_assoc]

theorem serverProperties_ne_nil {printable : Char → Bool} {rack lines : List Str}
    (h : serverProperties e printable rack = some lines) : lines ≠ [] := by
  have hhead : property "super.users" (superUsers e) ∈ lines := by
    obtain ⟨listeners, -, ⟨-, rfl⟩ | ⟨-, external, extra, oauth, -, -, -, rfl⟩⟩ :=
      serverProperties_eq_some e h
    · simp [controllerOnlyProperties, storageProperties]
    · simp [linesBefore, storageProperties]
  exact List.ne_nil_of_mem hhead

/-- The properties do not depend on the order of the sets, where the servers for clients do not. -/
theorem serverProperties_eq (e' : Enumeration s) (printable : Char → Bool) (rack : List Str)
    (h : bootstrapServerClient e = bootstrapServerClient e') :
    serverProperties e printable rack = serverProperties e' printable rack := by
  have hauths := enabledAuth_eq e e' h
  unfold serverProperties controllerOnlyProperties storageProperties oauthProperties mtlsProperties
    balancerProperties metricsReporterProperties
  rw [allListeners_eq e e' hauths]
  unfold externalListeners extraListeners clientListeners
  rw [superUsers_eq e e', hauths, hasMtlsClients_eq e e' h, bootstrapServerInternal_eq e e']

/-- Two hooks that both get properties get the same ones. -/
theorem serverProperties_eq_of_some (e' : Enumeration s) {printable : Char → Bool}
    {rack lines lines' : List Str} (h : serverProperties e printable rack = some lines)
    (h' : serverProperties e' printable rack = some lines') : lines = lines' := by
  have hbuilt (e : Enumeration s) {lines : List Str}
      (h : serverProperties e printable rack = some lines) :
      enabledAuth e = some (openAuth e) ∧ hasMtlsClients e = some (mtlsClients e) := by
    obtain ⟨listeners, hlisteners, -⟩ := serverProperties_eq_some e h
    obtain ⟨-, -, hauths, -⟩ := allListeners_eq_some e hlisteners
    exact ⟨hauths, (enabledAuth_eq_some e hauths).1⟩
  have hauths : enabledAuth e = enabledAuth e' := by
    rw [(hbuilt e h).1, (hbuilt e' h').1, openAuth_eq e e']
  have hmtls : hasMtlsClients e = hasMtlsClients e' := by
    rw [(hbuilt e h).2, (hbuilt e' h').2, mtlsClients_eq e e']
  have hsame : serverProperties e printable rack = serverProperties e' printable rack := by
    unfold serverProperties controllerOnlyProperties storageProperties oauthProperties
      mtlsProperties balancerProperties metricsReporterProperties
    rw [allListeners_eq e e' hauths]
    unfold externalListeners extraListeners clientListeners
    rw [superUsers_eq e e', hauths, hmtls, bootstrapServerInternal_eq e e']
  rw [h, h'] at hsame
  exact Option.some.inj hsame

end ClusterState

/-! ## The comparison -/

section
variable {readText : Str → Str} {printable : Char → Bool} {s : ClusterState} {files files' : ConfFiles}

/-- What the comparison says of a file that was just written, whatever order it goes through
the sets in, where it does not raise. -/
theorem ConfFiles.propertiesChanged_written {e : Enumeration s}
    (h : files.setServerProperties readText printable e = some files') (e' : Enumeration s)
    (h' : files'.propertiesChanged readText printable e' ≠ none) :
    ∃ lines, files.currentProperties readText printable e = some lines ∧
      files'.propertiesChanged readText printable e' =
        some (changedLines (splitText (readText (joinLines lines))) lines) := by
  obtain ⟨lines, hlines, rfl⟩ := Option.map_eq_some_iff.mp h
  have hne : splitText (readText (joinLines lines)) ≠ [] := List.splitOn_ne_nil _ _
  refine ⟨lines, hlines, ?_⟩
  have hchanged : ConfFiles.propertiesChanged readText printable
      { files with serverProperties := some (joinLines lines) } e' =
        (files.currentProperties readText printable e').map
          (changedLines (splitText (readText (joinLines lines)))) := by
    rw [propertiesChanged, readLines, if_neg hne]
    rfl
  rw [hchanged] at h' ⊢
  cases hcurrent : files.currentProperties readText printable e' with
  | none =>
    rw [hcurrent] at h'
    exact absurd rfl h'
  | some lines' =>
    obtain rfl := ClusterState.serverProperties_eq_of_some e e' hlines hcurrent
    rfl

/-- A hook that has written the properties can compare with them. -/
theorem ConfFiles.propertiesChanged_ne_none {e : Enumeration s}
    (h : files.setServerProperties readText printable e = some files') :
    files'.propertiesChanged readText printable e ≠ none := by
  obtain ⟨lines, hlines, rfl⟩ := Option.map_eq_some_iff.mp h
  have hcurrent : ConfFiles.currentProperties readText printable
      { files with serverProperties := some (joinLines lines) } e = some lines := hlines
  unfold propertiesChanged
  simp only [hcurrent]
  split <;> simp

/-- The lines of a file that was read are one line each. -/
theorem oneLines_readLines (hread : ∀ text, readText text = universalNewlines text)
    (file : Option Str) : OneLines (readLines readText file) := by
  cases file with
  | none => exact oneLines_nil
  | some contents =>
    intro line hline
    rw [readLines, hread] at hline
    exact oneLine_of_mem_lines hline

/-- Right after the properties were written, in whatever order the sets are gone through,
nothing seems to have changed, unless asking Kubernetes raises, exactly when none of the strings
that the properties take over as they are holds a line end. -/
theorem properties_unchanged_iff (hread : ∀ text, readText text = universalNewlines text)
    (e e' : Enumeration s) (h : files.setServerProperties readText printable e = some files')
    (h' : files'.propertiesChanged readText printable e' ≠ none) :
    files'.propertiesChanged readText printable e' = some [] ↔
      OneLines (ClusterState.rawTexts e) := by
  obtain ⟨lines, hlines, hchanged⟩ := ConfFiles.propertiesChanged_written h e' h'
  have hne : lines ≠ [] := ClusterState.serverProperties_ne_nil e hlines
  have hrack := oneLines_readLines hread files.rackProperties
  rw [hchanged, Option.some.injEq, hread, changedLines_written_iff hne]
  exact ClusterState.oneLines_serverProperties_iff e hrack hlines

/-- The configuration of a charm that was just deployed, with the given cipher suites. -/
def CharmConfig.deployed (suites : Option Str) : CharmConfig where
  compressionType := .producer
  logFlushIntervalMessages := 9223372036854775807
  logFlushIntervalMs := some 9223372036854775807
  logFlushOffsetCheckpointIntervalMs := 60000
  logRetentionBytes := -1
  logRetentionMs := -1
  logSegmentBytes := 1073741824
  messageMaxBytes := 1048588
  offsetsTopicNumPartitions := 50
  transactionStateLogNumPartitions := 50
  uncleanLeaderElectionEnable := false
  logCleanerDeleteRetentionMs := 86400000
  logCleanerMinCompactionLagMs := 0
  logCleanupPolicy := .delete
  logMessageTimestampType := .createTime
  sslCipherSuites := suites
  sslPrincipalMappingRules := "DEFAULT"
  replicationQuotaWindowNum := 11
  roles := ⟨true, true, false⟩
  profile := .production
  certificateExtraSans := []
  extraListeners := []
  exposeExternal := false
  logLevel := "INFO"
  networkBandwidth := 50000
  cruisecontrolBalanceThreshold := .ofParts 1 1
  cruisecontrolCapacityThreshold := .ofParts 0 8
  systemUsers := none
  tlsPrivateKey := none

/-- A single unit that runs both a broker and a controller, with nothing related to it. -/
def ClusterState.single (config : CharmConfig) : ClusterState where
  app := .kafka
  config := config
  peerRelation := true
  unit := ⟨0, [], .ok "10.1.0.7", []⟩
  peers := []
  clientRelations := []
  certificateTransfer := false
  orchestrator := none
  peerCluster := none
  oauth := none
  passwords := [("replication", "rPass"), ("operator", "oPass")]
  clientPasswords := []
  controllerPassword := "cPass"
  bootstrapController := "kafka-0.kafka-endpoints:9098"
  capacities := .write []
  clientTls := ⟨false, false, false, false⟩
  truststorePassword := "tPass"
  keystorePassword := "kPass"
  storages := ["/var/lib/kafka/data/0"]
  plannedUnits := 1
  listenerNodePort := fun _ => .error .apiError
  bootstrapNodePort := fun _ => .error .apiError

/-- The properties of a unit that was just deployed stay as they were written. -/
theorem deployed_properties_unchanged :
    let e := Enumeration.listed (ClusterState.single (CharmConfig.deployed none))
    ∃ files', (ConfFiles.mk none none).setServerProperties universalNewlines (fun _ => true) e =
      some files' ∧
      files'.propertiesChanged universalNewlines (fun _ => true) e = some [] := by
  intro e
  obtain ⟨files', hset⟩ : ∃ files', (ConfFiles.mk none none).setServerProperties universalNewlines
      (fun _ => true) e = some files' := ⟨_, rfl⟩
  refine ⟨files', hset, ?_⟩
  exact (properties_unchanged_iff (fun _ => rfl) e e hset
    (ConfFiles.propertiesChanged_ne_none hset)).mpr (by decide +kernel)

/-- Cipher suites given on two lines are accepted, and the properties seem changed as soon as
they are written. -/
theorem cipher_suites_on_two_lines_changed :
    let config := CharmConfig.deployed (some "TLS_AES_256_GCM_SHA384,\nTLS_AES_128_GCM_SHA256")
    let e := Enumeration.listed (ClusterState.single config)
    (∀ rules : Str → Bool, rules "DEFAULT" = true → config.accepted rules = true) ∧
    ∃ files', (ConfFiles.mk none none).setServerProperties universalNewlines (fun _ => true) e =
      some files' ∧
      files'.propertiesChanged universalNewlines (fun _ => true) e ≠ some [] := by
  intro config e
  have hset : ∃ files', (ConfFiles.mk none none).setServerProperties universalNewlines
      (fun _ => true) e = some files' := ⟨_, rfl⟩
  obtain ⟨files', hset⟩ := hset
  refine ⟨?_, files', hset, ?_⟩
  · intro rules hrules
    have hdefault : rules config.sslPrincipalMappingRules = true := hrules
    unfold CharmConfig.accepted
    rw [hdefault]
    decide +kernel
  · intro hnone
    obtain ⟨lines, hlines, hchanged⟩ := ConfFiles.propertiesChanged_written hset e
      (by simp [hnone])
    have hne : lines ≠ [] := ClusterState.serverProperties_ne_nil e hlines
    have hrack := oneLines_readLines (fun text => rfl) (ConfFiles.mk none none).rackProperties
    have hraw : ¬ OneLines (ClusterState.rawTexts e) := by decide +kernel
    rw [hchanged, Option.some.injEq, changedLines_written_iff hne,
      ClusterState.oneLines_serverProperties_iff e hrack hlines] at hnone
    exact hraw hnone

/-- What is derived from the cluster state is the same for two orders in which the brokers, the
client relations and the clients are gone through, and so are the server properties and what
the comparison with the file says. -/
structure DerivesAlike (readText : Str → Str) (printable : Char → Bool) (files : ConfFiles)
    (e e' : Enumeration s) : Prop where
  superUsers : ClusterState.superUsers e = ClusterState.superUsers e'
  bootstrapServerInternal :
    ClusterState.bootstrapServerInternal e = ClusterState.bootstrapServerInternal e'
  bootstrapServersExternal :
    ClusterState.bootstrapServersExternal e = ClusterState.bootstrapServersExternal e'
  bootstrapServerClient :
    ClusterState.bootstrapServerClient e = ClusterState.bootstrapServerClient e'
  brokerCapacities : ClusterState.brokerCapacities e = ClusterState.brokerCapacities e'
  racks : ClusterState.racks e = ClusterState.racks e'
  enabledAuth : ClusterState.enabledAuth e = ClusterState.enabledAuth e'
  trustedByOurApp : ClusterState.trustedByOurApp e = ClusterState.trustedByOurApp e'
  serverProperties :
    files.currentProperties readText printable e = files.currentProperties readText printable e'
  propertiesChanged :
    files.propertiesChanged readText printable e = files.propertiesChanged readText printable e'

/-- **Orders.** The values that are derived from a cluster state are the same for all orders
exactly when Kubernetes does not raise an `ApiError` for one broker and something else for
another one. -/
theorem derived_values_order_independent_iff (s : ClusterState) (readText : Str → Str)
    (printable : Char → Bool) (files : ConfFiles) :
    (∀ e e' : Enumeration s, DerivesAlike readText printable files e e') ↔
      ¬ ClusterState.MixedFailures s := by
  constructor
  · intro halike hmixed
    obtain ⟨e, e', he, he'⟩ := ClusterState.exists_orders_of_mixedFailures hmixed
    have hsame := (halike e e').bootstrapServersExternal
    rw [he, he'] at hsame
    cases hsame
  · intro hmixed e e'
    have hclient := ClusterState.bootstrapServerClient_eq e e' hmixed
    have hcurrent : files.currentProperties readText printable e =
        files.currentProperties readText printable e' :=
      ClusterState.serverProperties_eq e e' printable _ hclient
    exact {
      superUsers := ClusterState.superUsers_eq e e'
      bootstrapServerInternal := ClusterState.bootstrapServerInternal_eq e e'
      bootstrapServersExternal := ClusterState.bootstrapServersExternal_eq e e' hmixed
      bootstrapServerClient := hclient
      brokerCapacities := rfl
      racks := ClusterState.racks_eq e e'
      enabledAuth := ClusterState.enabledAuth_eq e e' hclient
      trustedByOurApp := ClusterState.trustedByOurApp_eq e e'
      serverProperties := hcurrent
      propertiesChanged := by rw [ConfFiles.propertiesChanged, ConfFiles.propertiesChanged, hcurrent] }

/-- An exposed application with a client: the first broker is on a node, the second one is not
scheduled yet, and the service for first connections is missing. -/
def ClusterState.pendingBroker : ClusterState :=
  { ClusterState.single { CharmConfig.deployed none with exposeExternal := true } with
    peers := [⟨1, [], .error .failed, []⟩]
    clientRelations := [⟨7, true, [], [⟨"relation-7", "orders", [], [], some [], []⟩]⟩] }

/-- If the second broker is asked first, the servers for clients, the ways to authenticate and
the server properties all raise; in the other order they are there. -/
theorem pending_broker_order_matters :
    ∃ e e' : Enumeration ClusterState.pendingBroker,
      ClusterState.bootstrapServerClient e = none ∧
      ClusterState.bootstrapServerClient e' = some [] ∧
      ClusterState.enabledAuth e = none ∧
      ClusterState.enabledAuth e' = some [.scram .plaintext] ∧
      (ConfFiles.mk none none).currentProperties universalNewlines (fun _ => true) e = none ∧
      (ConfFiles.mk none none).currentProperties universalNewlines (fun _ => true) e' ≠ none ∧
      ¬ DerivesAlike universalNewlines (fun _ => true) ⟨none, none⟩ e e' := by
  let e := Enumeration.listed ClusterState.pendingBroker
  let e' : Enumeration ClusterState.pendingBroker :=
    { e with brokers := e.brokers.reverse, brokers_perm := List.reverse_perm _ }
  have hclient : ClusterState.bootstrapServerClient e = none := rfl
  have hclient' : ClusterState.bootstrapServerClient e' = some [] := rfl
  refine ⟨e, e', hclient, hclient', rfl, rfl, rfl, nofun, ?_⟩
  intro halike
  have hsame := halike.bootstrapServerClient
  rw [hclient, hclient'] at hsame
  cases hsame

end

end KafkaCharm
