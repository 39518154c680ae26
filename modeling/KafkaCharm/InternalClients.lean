import KafkaCharm.Lib.Assignments
import KafkaCharm.ListenerMap

namespace KafkaCharm

open PyText Fallible

/-! ## The files -/

namespace ClusterState

variable (s : ClusterState)

/-- The password that an internal client logs in with. -/
def clientPassword (username : Str) : Str :=
  if username = adminUser then s.peerBrokerPassword else s.internalPassword username

/-- What `ConfigManager.controller_kraft_client_properties` adds. -/
def kraftLogin : List Str :=
  [property "sasl.jaas.config" (loginModule controllerUser s.peerControllerPassword ++ ";"),
   property "sasl.mechanism" s.internalListener.auth.mechanism,
   property "security.protocol" s.internalListener.auth.protocol,
   property "default.api.timeout.ms" "20000",
   property "request.timeout.ms" "10000"] ++ s.clientTlsProperties

variable {s} (e : Enumeration s)

/-- `ConfigManager._build_internal_client_properties`. -/
def internalClientProperties (username : Str) (pre : Option Str) : List Str :=
  let properties :=
    [property "sasl.jaas.config" (loginModule username (s.clientPassword username) ++ ";"),
     property "sasl.mechanism" internalAuth.mechanism,
     property "security.protocol" internalAuth.protocol,
     property "bootstrap.servers" (bootstrapServerInternal e)] ++ s.clientTlsProperties
  match pre with
  | none => properties
  | some pre => if pre = [] then properties else properties.map (pre ++ '.' :: ·)

/-- `ConfigManager.client_properties`. -/
def clientProperties : List Str := internalClientProperties e adminUser none

/-- What `ConfigManager.controller_kraft_client_properties` takes out of the properties of the
server. -/
def strippedProperties : List Str :=
  kafkaCruiseControlOptions ++ metricsReporterProperties e ++ s.tlsProperties

/-- `ConfigManager.controller_kraft_client_properties`, given the lines of `rack.properties`;
`none` where it raises. -/
def controllerKraftClientProperties (printable : Char → Bool) (rack : List Str) :
    Option (List Str) :=
  (serverProperties e printable rack).map fun server =>
    sortStrings (server.dedup.filter (· ∉ strippedProperties e)) ++ s.kraftLogin

/-- The client that reports metrics is another such client. -/
theorem metricsReporterProperties_eq :
    metricsReporterProperties e =
      internalClientProperties e adminUser (some "cruise.control.metrics.reporter") := by
  have hpre : ("cruise.control.metrics.reporter." : Str) =
      "cruise.control.metrics.reporter" ++ ['.'] := by decide
  have hne : ("cruise.control.metrics.reporter" : Str) ≠ [] := by decide
  simp only [metricsReporterProperties, internalClientProperties, clientPassword, if_true,
    if_neg hne, hpre, List.append_assoc, List.cons_append, List.nil_append]

end ClusterState

/-! ## Lines about other things -/

/-- The properties that the login of a client is made of. -/
def loginKeys : List Str :=
  ["sasl.jaas.config", "sasl.mechanism", "security.protocol", "default.api.timeout.ms",
   "request.timeout.ms", "ssl.truststore.location", "ssl.truststore.password",
   "ssl.keystore.location", "ssl.keystore.password"]

/-- What the properties of a single listener begin with. -/
def listenerOwner : Str := "listener.name."

/-- A property that is neither part of a login nor one of a single listener. -/
def isGeneral (key : Str) : Bool :=
  decide (key ∉ loginKeys) && decide (¬ listenerOwner <+: key) && decide ('=' ∉ key)

/-- The lines set general properties only. -/
def AllGeneral (lines : List Str) : Prop := Assigns '=' (isGeneral · = true) lines

theorem allGeneral_cons {key : Str} (h : isGeneral key = true) (value : Str) {lines : List Str}
    (hlines : AllGeneral lines) : AllGeneral (property key value :: lines) := by
  have hkey : '=' ∉ key := by simp_all [isGeneral]
  exact Assigns.cons h hkey value hlines

theorem CharmConfig.allGeneral_configProperties (config : CharmConfig)
    (printable : Char → Bool) : AllGeneral (config.configProperties printable) := by
  have hkeys : ∀ field ∈ config.fields printable,
      isGeneral (translateConfigKey field.1) = true := by
    simp only [fields, List.forall_mem_cons]
    decide
  intro line hline
  obtain ⟨field, hfield, hprinted⟩ := List.mem_filterMap.mp hline
  obtain ⟨value, -, rfl⟩ := Option.map_eq_some_iff.mp hprinted
  exact allGeneral_cons (hkeys field hfield) value Assigns.nil _ List.mem_cons_self

/-- Each line begins with a general property, or is empty. -/
theorem allGeneral_of_forall {lines : List Str}
    (h : ∀ line ∈ lines, line = [] ∨
      '=' ∈ line ∧ isGeneral (line.takeWhile (· ≠ '=')) = true) : AllGeneral lines := by
  intro line hline
  rcases h line hline with hempty | ⟨hsep, hgeneral⟩
  · exact .inl hempty
  · obtain ⟨key, value, rfl, hkey⟩ := List.eq_append_cons_of_mem hsep
    rw [takeWhile_append_sep hkey] at hgeneral
    exact .inr ⟨key, value, hgeneral, hkey, rfl⟩

theorem allGeneral_defaultConfigOptions : AllGeneral defaultConfigOptions :=
  allGeneral_of_forall (by decide)

theorem allGeneral_authorizerClass : AllGeneral authorizerClass :=
  allGeneral_of_forall (by decide)

theorem allGeneral_testing (profile : Profile) :
    AllGeneral (if profile = .testing then testingOptions else []) := by
  refine allGeneral_of_forall ?_
  cases profile <;> decide

namespace ClusterState

variable (s : ClusterState)

theorem allGeneral_defaultReplicationProperties :
    AllGeneral s.defaultReplicationProperties := by
  unfold defaultReplicationProperties
  repeat' apply allGeneral_cons (by decide)
  exact Assigns.nil

theorem allGeneral_listenerProperties (listeners : List Listener) :
    AllGeneral (s.listenerProperties listeners) := by
  unfold listenerProperties
  repeat' apply allGeneral_cons (by decide)
  exact Assigns.nil

theorem allGeneral_controllerListenerLines : AllGeneral s.controllerListenerLines := by
  unfold controllerListenerLines
  repeat' apply allGeneral_cons (by decide)
  exact Assigns.nil

/-- What a controller sets besides the login of its listener. -/
def controllerHead : List Str := s.controllerProperties.take 4

theorem allGeneral_controllerHead : AllGeneral s.controllerHead := by
  unfold controllerHead controllerProperties
  simp only [List.cons_append, List.nil_append, List.take_succ_cons, List.take_zero]
  repeat' apply allGeneral_cons (by decide)
  exact Assigns.nil

variable {s} (e : Enumeration s)

theorem allGeneral_storageProperties : AllGeneral (storageProperties e) := by
  unfold storageProperties
  repeat' apply allGeneral_cons (by decide)
  exact Assigns.nil

theorem allGeneral_mtlsLines (mtls : Bool) : AllGeneral (mtlsLines mtls) := by
  unfold mtlsLines
  split
  · exact allGeneral_cons (by decide) _ Assigns.nil
  · exact Assigns.nil

theorem allGeneral_balancerProperties : AllGeneral (balancerProperties e) := by
  have hpre (key value : Str) : "cruise.control.metrics.reporter." ++ property key value =
      property ("cruise.control.metrics.reporter." ++ key) value := by
    simp only [property, List.append_assoc]
  unfold balancerProperties
  split
  · refine Assigns.append (allGeneral_of_forall (by decide)) ?_
    unfold metricsReporterProperties clientTlsProperties storeProperties
    simp only [List.cons_append, List.nil_append, List.map_cons, List.map_nil, hpre]
    repeat' apply allGeneral_cons (by decide)
    exact Assigns.nil
  · exact Assigns.nil

end ClusterState

/-! ## Lines about a listener -/

namespace Listener

variable {l l' : Listener} {rest rest' : Str}

/-- A name has no character that ends a name or a property. -/
theorem separators_notMem_name (l : Listener) : '.' ∉ l.name ∧ '=' ∉ l.name := by
  have hscope : '.' ∉ l.scope.text ∧ '=' ∉ l.scope.text := by
    cases l.scope <;> decide
  have hauth : '.' ∉ l.auth.nameText ∧ '=' ∉ l.auth.nameText := by
    rcases l.auth with ⟨_ | _⟩ | ⟨_ | _⟩ | _ <;> decide
  have hcount : '.' ∉ l.countText ∧ '=' ∉ l.countText := by
    unfold countText
    split
    · simp
    · have hdigit {c : Char} (hc : c.isDigit = false) (n : Nat) : c ∉ decimal n := by
        intro hmem
        rw [isDigit_of_mem_decimal hmem] at hc
        cases hc
      have hdot (n : Nat) : '.' ∉ decimal n := hdigit rfl n
      have hsep (n : Nat) : '=' ∉ decimal n := hdigit rfl n
      simp [hdot, hsep]
  rw [name_eq]
  simp [hscope, hauth, hcount]

/-- The scope ends where the name has its first dash, in lower case as well. -/
theorem scope_of_lower_name (h : lower l.name = lower l'.name) : l.scope = l'.scope := by
  have htext (scope : ListenerScope) (tail : Str) :
      (lower (scope.text ++ '_' :: tail)).takeWhile (· ≠ '_') = lower scope.text := by
    have hdash : '_' ∉ lower scope.text := by cases scope <;> decide
    rw [lower_append]
    exact takeWhile_append_sep hdash (lower tail)
  have hscopes := congrArg (List.takeWhile (· ≠ '_')) h
  rw [l.name_eq, l'.name_eq, htext, htext] at hscopes
  generalize l.scope = scope at hscopes ⊢
  generalize l'.scope = scope' at hscopes ⊢
  cases scope <;> cases scope' <;> first | rfl | exact absurd hscopes (by decide)

/-- Listeners that share a property have the same scope. -/
theorem key_cancel (h : l.key ++ rest = l'.key ++ rest') : l.scope = l'.scope ∧ rest = rest' := by
  have hnames : lower l.name ++ '.' :: rest = lower l'.name ++ '.' :: rest' := by
    have hdot : ("." : Str) = ['.'] := rfl
    unfold key at h
    simp only [hdot, List.append_assoc, List.cons_append, List.nil_append] at h
    exact List.append_cancel_left h
  have htexts := congrArg (List.takeWhile (· ≠ '.')) hnames
  rw [takeWhile_append_sep (notMem_lower (by decide) l.separators_notMem_name.1),
    takeWhile_append_sep (notMem_lower (by decide) l'.separators_notMem_name.1)] at htexts
  rw [htexts] at hnames
  exact ⟨scope_of_lower_name htexts, (List.cons.inj (List.append_cancel_left hnames)).2⟩

theorem sep_notMem_key (l : Listener) : '=' ∉ l.key := by
  unfold key
  rw [List.mem_append, List.mem_append, not_or, not_or]
  exact ⟨⟨by decide, notMem_lower (by decide) l.separators_notMem_name.2⟩, by decide⟩

theorem listenerOwner_prefix (l : Listener) (rest : Str) : listenerOwner <+: l.key ++ rest := by
  unfold key
  rw [List.append_assoc, List.append_assoc]
  exact List.prefix_append _ _

end Listener

/-! ## Where a property is set -/

/-- The listeners that the units use among themselves. -/
def ListenerScope.isOwn (scope : ListenerScope) : Bool :=
  scope = .internal || scope = .controller

/-- A property that only the login of an own listener can set, and the stores of the clients. -/
structure Particular (key : Str) : Prop where
  sep : '=' ∉ key
  special : isGeneral key = false
  clients : ∀ l : Listener, l.scope.isOwn = false → ∀ rest, l.key ++ rest ≠ key
  stores : ∀ (l : Listener) (rest : Str), l.key ++ ("ssl." ++ rest) ≠ key

/-- The lines do not set the property. -/
def Spares (key : Str) (lines : List Str) : Prop := Assigns '=' (· ≠ key) lines

/-- No property of a listener is part of a login. -/
theorem Listener.key_ne_login {key : Str} (h : key ∈ loginKeys) (l : Listener) (rest : Str) :
    l.key ++ rest ≠ key := by
  have howner : ∀ key ∈ loginKeys, ¬ listenerOwner <+: key := by decide
  rintro rfl
  exact howner _ h (l.listenerOwner_prefix rest)

theorem Particular.of_login {key : Str} (h : key ∈ loginKeys) : Particular key := by
  have hsep : ∀ key ∈ loginKeys, '=' ∉ key := by decide
  exact ⟨hsep key h, by simp [isGeneral, h], fun l _ rest => l.key_ne_login h rest,
    fun l rest => l.key_ne_login h ("ssl." ++ rest)⟩

/-- What is set of an own listener to let clients in. -/
theorem Particular.of_listener {l : Listener} (hl : l.scope.isOwn = true) {rest : Str}
    (hsep : '=' ∉ rest) (hrest : ¬ ("ssl." : Str) <+: rest) : Particular (l.key ++ rest) where
  sep := by simp [l.sep_notMem_key, hsep]
  special := by simp [isGeneral, l.listenerOwner_prefix rest]
  clients := by
    intro l' hl' rest' heq
    rw [(Listener.key_cancel heq).1, hl] at hl'
    cases hl'
  stores := by
    intro l' rest' heq
    exact hrest ((Listener.key_cancel heq).2 ▸ List.prefix_append _ _)

section
variable {key : Str} (h : Particular key)
include h

theorem Spares.settings_eq_nil {lines : List Str} (hlines : Spares key lines) :
    settings key lines = [] :=
  Assigns.assigned_eq_nil hlines h.sep fun hne => hne rfl

theorem AllGeneral.spares {lines : List Str} (hlines : AllGeneral lines) : Spares key lines := by
  refine hlines.mono ?_
  rintro _ hgeneral rfl
  rw [h.special] at hgeneral
  cases hgeneral

end

theorem spares_cons {key key' : Str} (hsep : '=' ∉ key') (hne : key' ≠ key) (value : Str)
    {lines : List Str} (hlines : Spares key lines) :
    Spares key (property key' value :: lines) := by
  refine Assigns.cons ?_ hsep value hlines
  exact hne

namespace Listener

variable (l : Listener) {key : Str}

theorem sep_notMem_mechanism : '=' ∉ lower l.auth.mechanism := by
  rcases l.auth with ⟨_ | _⟩ | ⟨_ | _⟩ | _ <;> decide

variable {l} (hl : ∀ rest, l.key ++ rest ≠ key) {lines : List Str} (hlines : Spares key lines)
include hl hlines

theorem spares_key {rest : Str} (hrest : '=' ∉ rest) (value : Str) :
    Spares key (property (l.key ++ rest) value :: lines) :=
  spares_cons (by simp [l.sep_notMem_key, hrest]) (hl rest) value hlines

theorem spares_mechanism {rest : Str} (hrest : '=' ∉ rest) (value : Str) :
    Spares key (property (l.key ++ lower l.auth.mechanism ++ rest) value :: lines) := by
  rw [List.append_assoc]
  exact spares_key hl hlines (by simp [l.sep_notMem_mechanism, hrest]) value

theorem spares_jaasConfig (login : Str) : Spares key (l.jaasConfig login :: lines) :=
  spares_mechanism hl hlines (by decide) login

theorem spares_enabledMechanisms : Spares key (l.enabledMechanisms :: lines) :=
  spares_key hl hlines (by decide) _

end Listener

namespace ClusterState

variable (s : ClusterState) {key : Str} (h : Particular key)
include h

theorem spares_ownStores (listeners : List Listener) (truststore keystore : Str) :
    Spares key (listeners.flatMap fun l => s.storeProperties l.key truststore keystore) := by
  have hstore (l : Listener) (tail : Str) (htail : '=' ∉ tail) (value : Str) {lines : List Str}
      (hlines : Spares key lines) :
      Spares key (property (l.key ++ ("ssl." ++ tail)) value :: lines) := by
    refine spares_cons ?_ (h.stores l tail) value hlines
    simp only [List.mem_append, l.sep_notMem_key, htail]
    decide
  refine Assigns.flatMap ?_
  intro l _
  exact hstore l "truststore.location" (by decide) _ (hstore l "truststore.password" (by decide) _
    (hstore l "keystore.location" (by decide) _ (hstore l "keystore.password" (by decide) _
      Assigns.nil)))

/-- Of the listeners that let clients in with a password, the own one has lines of its own. -/
theorem settings_scramProperties {listeners : List Listener}
    (hclients : ∀ l ∈ listeners, l.scope.isOwn = false) :
    settings key (s.scramProperties listeners) = settings key (s.scramProperties []) := by
  have hlisteners : Spares key ((listeners.filter fun l =>
      decide (("SCRAM" : Str) <+: l.auth.mechanism)).flatMap fun l =>
        [l.jaasConfig (loginModule interBrokerUser (s.internalPassword interBrokerUser) ++ ";"),
         l.enabledMechanisms]) := by
    refine Assigns.flatMap ?_
    intro l hl
    have hother := h.clients l (hclients l (List.mem_of_mem_filter hl))
    exact Listener.spares_jaasConfig hother (Listener.spares_enabledMechanisms hother Assigns.nil) _
  unfold scramProperties
  rw [settings_append, hlisteners.settings_eq_nil h]
  simp

/-- The lines of a controller that let the others in are the only ones about its login. -/
theorem settings_controllerProperties_particular :
    settings key s.controllerProperties = settings key s.controllerScramProperties := by
  have hhead := s.allGeneral_controllerHead.spares h
  have hsplit : s.controllerProperties = s.controllerHead ++ s.controllerScramProperties := rfl
  rw [hsplit, settings_append, hhead.settings_eq_nil h, List.nil_append]

variable {s} (e : Enumeration s)

theorem spares_oauthProperties {oauth : List Str} (hoauth : oauthProperties e = some oauth) :
    Spares key oauth := by
  unfold oauthProperties at hoauth
  split at hoauth
  · obtain rfl := Option.some.inj hoauth
    exact Assigns.nil
  · obtain ⟨client, hclient, hoauth⟩ := Option.bind_eq_some_iff.mp hoauth
    obtain ⟨l, hl, hoauth⟩ := Option.bind_eq_some_iff.mp hoauth
    obtain rfl := Option.some.inj hoauth
    obtain ⟨-, rfl⟩ := clientListeners_eq_some e hclient
    obtain ⟨auth, -, rfl⟩ := List.mem_map.mp (List.mem_of_find?_eq_some hl)
    have hother := h.clients
      { auth := auth, scope := .client, host := s.unitAddress : Listener } rfl
    have hbuilder : Spares key [property "principal.builder.class"
        "io.strimzi.kafka.oauth.server.OAuthKafkaPrincipalBuilder"] :=
      AllGeneral.spares h (allGeneral_cons (by decide) _ Assigns.nil)
    exact Listener.spares_jaasConfig hother (Listener.spares_mechanism hother
      (Listener.spares_enabledMechanisms hother hbuilder) (by decide) _) _

omit h in
theorem scope_extraListenersOf (unitId count baseport : Nat) (host : Str) (auths : List AuthMap) :
    ∀ l ∈ extraListenersOf unitId count baseport host auths, l.scope = .extra := by
  induction auths generalizing host with
  | nil => simp [extraListenersOf]
  | cons auth auths ih => exact List.forall_mem_cons.mpr ⟨rfl, ih _⟩

omit h in
/-- The listeners for clients are none of the own ones. -/
theorem client_scopes {external extra : List Listener}
    (hexternal : externalListeners e = some external) (hextra : extraListeners e = some extra) :
    ∀ l ∈ s.listenersFor (openAuth e) ++ external ++ extra, l.scope.isOwn = false := by
  intro l hl
  rw [List.mem_append, List.mem_append] at hl
  rcases hl with (hclient | hexternals) | hextras
  · obtain ⟨auth, -, rfl⟩ := List.mem_map.mp hclient
    rfl
  · obtain ⟨-, lists, hlists, rfl⟩ | ⟨-, rfl⟩ := externalListeners_eq_some e hexternal
    · obtain ⟨list, hlist, hmem⟩ := List.mem_flatten.mp hexternals
      obtain ⟨auth, -, hround⟩ := exists_of_mem_mapM hlists hlist
      rw [externalListener_eq_some hround] at hmem
      obtain ⟨number, -, rfl⟩ := List.mem_map.mp hmem
      rfl
    · cases hexternals
  · obtain ⟨items, lists, -, hlists, rfl⟩ := extraListeners_eq_some e hextra
    obtain ⟨list, hlist, hmem⟩ := List.mem_flatten.mp hextras
    obtain ⟨numbered, -, hfor⟩ := exists_of_mem_mapM hlists hlist
    obtain ⟨-, rfl⟩ | ⟨baseport, -, rfl⟩ := extraListenersFor_eq_some hfor
    · cases hmem
    · rw [scope_extraListenersOf _ _ _ _ _ l hmem]
      rfl

/-- A particular property is set where the own listeners let clients in, among the stores for
TLS, and nowhere else. -/
theorem particular_settings {printable : Char → Bool} {rack lines : List Str}
    (hwritten : serverProperties e printable rack = some lines)
    (hrack : settings key rack = []) :
    ∃ front back, lines = front ++ s.tlsProperties ++ back ∧ settings key back = [] ∧
      settings key front =
        settings key (if s.runsControllerOnly then [] else s.scramProperties []) ++
          settings key s.controllerScramProperties := by
  have hstorage := (allGeneral_storageProperties e).spares h |>.settings_eq_nil h
  have hauthorizer := allGeneral_authorizerClass.spares h |>.settings_eq_nil h
  have hcontroller := s.settings_controllerProperties_particular h
  obtain ⟨listeners, -, ⟨honly, rfl⟩ | ⟨honly, external, extra, oauth, hexternal, hextra, hoauth, rfl⟩⟩ :=
    serverProperties_eq_some e hwritten
  · have hnames := s.allGeneral_controllerListenerLines.spares h |>.settings_eq_nil h
    refine ⟨storageProperties e ++ s.controllerListenerLines ++ s.controllerProperties ++
      authorizerClass, [], ?_, rfl, ?_⟩
    · simp only [List.append_nil]
      rfl
    · simp only [settings_append, hstorage, hnames, hcontroller, hauthorizer, honly, if_true,
        List.nil_append, List.append_nil]
      rfl
  · have hlistener := (s.allGeneral_listenerProperties listeners).spares h |>.settings_eq_nil h
    have hscram := s.settings_scramProperties h (client_scopes e hexternal hextra)
    have hauth := (spares_oauthProperties h e hoauth).settings_eq_nil h
    have hconfig := (s.config.allGeneral_configProperties printable).spares h |>.settings_eq_nil h
    have hreplication := s.allGeneral_defaultReplicationProperties.spares h |>.settings_eq_nil h
    have hoptions := allGeneral_defaultConfigOptions.spares h |>.settings_eq_nil h
    have hmtls := (allGeneral_mtlsLines (mtlsClients e)).spares h |>.settings_eq_nil h
    have hbalancer := (allGeneral_balancerProperties e).spares h |>.settings_eq_nil h
    have htesting := (allGeneral_testing s.config.profile).spares h |>.settings_eq_nil h
    refine ⟨linesBefore e printable listeners (s.listenersFor (openAuth e) ++ external ++ extra)
      oauth ++ rack ++ defaultConfigOptions ++ authorizerClass ++ s.controllerProperties,
      mtlsLines (mtlsClients e) ++ balancerProperties e ++
      (if s.config.profile = .testing then testingOptions else []), ?_, ?_, ?_⟩
    · simp only [linesAfter, List.append_assoc]
    · simp only [settings_append, hmtls, hbalancer, htesting, List.append_nil]
    · simp only [linesBefore, settings_append, hstorage, hlistener, hscram, hauth, hconfig,
        hreplication, hrack, hoptions, hauthorizer, hcontroller, honly, List.nil_append,
        List.append_nil, Bool.false_eq_true, if_false]

end ClusterState

end KafkaCharm
