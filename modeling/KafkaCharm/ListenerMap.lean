import KafkaCharm.ListenerNames

namespace KafkaCharm

open PyText Fallible

/-! ## Reading the properties -/

/-- All that the lines set a property to. -/
def settings (key : Str) (lines : List Str) : List Str := optionValues (key ++ ['=']) lines

/-- The entries of a property that is a list. -/
def entriesIn (key : Str) (lines : List Str) : List Str :=
  (settings key lines).flatMap (·.splitOn ',')

/-- The name that an entry begins with. -/
def entryName (entry : Str) : Str := entry.takeWhile (· ≠ ':')

/-- The names of listeners in a property. -/
def namesIn (key : Str) (lines : List Str) : List Str := (entriesIn key lines).map entryName

def protocolMapKey : Str := "listener.security.protocol.map"

/-- The properties that use the names of listeners. -/
def namingKeys : List Str :=
  ["listeners", "advertised.listeners", "controller.listener.names", "inter.broker.listener.name"]

/-- The unit listens under the names of the listeners it serves, no two of them the same, and
every name that is used anywhere has one entry in the map, with the protocol of a listener of
that name. -/
structure NamesMapped (served known : List Listener) (lines : List Str) : Prop where
  served_names : namesIn "listeners" lines = served.map Listener.name
  distinct : (namesIn "listeners" lines).Nodup
  mapped : ∀ key ∈ namingKeys, ∀ name ∈ namesIn key lines, ∃ l ∈ known, l.name = name ∧
    (entriesIn protocolMapKey lines).filter (entryName · = name) = [l.protocolMap]

theorem settings_append (key : Str) (lines lines' : List Str) :
    settings key (lines ++ lines') = settings key lines ++ settings key lines' :=
  List.filterMap_append

theorem settings_cons (key line : Str) (lines : List Str) :
    settings key (line :: lines) = settings key [line] ++ settings key lines :=
  settings_append key [line] lines

theorem settings_property (key value : Str) (lines : List Str) :
    settings key (property key value :: lines) = value :: settings key lines := by
  have hline : property key value = (key ++ ['=']) ++ value := by simp [property]
  simp only [settings, optionValues, hline, List.filterMap_cons, dropPrefix?_self]

/-- A line that sets another property is passed over. -/
theorem settings_other {key key' : Str}
    (h : (key ++ ['=']).take key'.length ≠ key'.take (key ++ ['=']).length) (value : Str)
    (lines : List Str) : settings key (property key' value :: lines) = settings key lines := by
  simp only [settings, optionValues, property, List.filterMap_cons, dropPrefix?_clash h]

theorem forall_namingKeys {P : Str → Prop} (hlisteners : P "listeners")
    (hadvertised : P "advertised.listeners") (hcontroller : P "controller.listener.names")
    (hbrokers : P "inter.broker.listener.name") : ∀ key ∈ namingKeys, P key :=
  List.forall_mem_cons.mpr ⟨hlisteners, List.forall_mem_cons.mpr ⟨hadvertised,
    List.forall_mem_cons.mpr ⟨hcontroller, List.forall_mem_singleton.mpr hbrokers⟩⟩⟩

section
variable {key : Str} {entries lines : List Str}

theorem namesIn_nil (h : settings key lines = []) : namesIn key lines = [] := by
  rw [namesIn, entriesIn, h]
  rfl

theorem entriesIn_eq (h : settings key lines = [[','].intercalate entries]) (hne : entries ≠ [])
    (hcomma : ∀ entry ∈ entries, ',' ∉ entry) : entriesIn key lines = entries := by
  rw [entriesIn, h, List.flatMap_singleton, List.splitOn_intercalate ',' hcomma hne]

theorem namesIn_eq {listeners : List Listener} {print : Listener → Str}
    (h : settings key lines = [[','].intercalate (listeners.map print)]) (hne : listeners ≠ [])
    (hcomma : ∀ l ∈ listeners, ',' ∉ print l) (hname : ∀ l, entryName (print l) = l.name) :
    namesIn key lines = listeners.map Listener.name := by
  rw [namesIn, entriesIn_eq h (by simpa using hne) (List.forall_mem_map.mpr hcomma), List.map_map]
  exact List.map_congr_left fun l _ => hname l

end

/-! ### Entries -/

namespace Listener

variable (l : Listener)

theorem entryName_append (rest : Str) : entryName (l.name ++ ':' :: rest) = l.name :=
  takeWhile_append_sep (fun hc => (l.isName_name ':' hc).2 rfl) rest

theorem entryName_name : entryName l.name = l.name :=
  takeWhile_of_notMem fun hc => (l.isName_name ':' hc).2 rfl

theorem entryName_protocolMap : entryName l.protocolMap = l.name := l.entryName_append _

theorem entryName_listener : entryName l.listener = l.name := by
  have hcolon : ("://0.0.0.0:" : Str) = ':' :: "//0.0.0.0:" := by decide
  rw [listener, List.append_assoc, hcolon]
  exact l.entryName_append _

theorem entryName_advertisedListener : entryName l.advertisedListener = l.name := by
  have hcolon : ("://" : Str) = ':' :: "//" := by decide
  rw [advertisedListener, List.append_assoc, List.append_assoc, hcolon]
  exact l.entryName_append _

theorem comma_notMem_protocolMap : ',' ∉ l.protocolMap := by
  have hprotocol : ',' ∉ l.auth.protocol := by
    rcases l.auth with ⟨_ | _⟩ | ⟨_ | _⟩ | _ <;> decide
  unfold protocolMap
  simp [l.isName_name.no_comma, hprotocol]

theorem comma_notMem_listener : ',' ∉ l.listener := by
  unfold listener
  simp [l.isName_name.no_comma, (isName_decimal _).no_comma]

theorem comma_notMem_advertisedListener (hhost : ',' ∉ l.host) : ',' ∉ l.advertisedListener := by
  have hport : ',' ∉ (if l.scope = .external then portText l.nodePort else decimal l.port) := by
    split
    · cases l.nodePort with
      | none => decide
      | some number => exact (isName_decimal number).no_comma
    · exact (isName_decimal _).no_comma
  unfold advertisedListener
  simp [l.isName_name.no_comma, hhost, hport]

end Listener

/-- A name has one entry in a map of distinct names. -/
theorem filter_protocolMap {mapped : List Listener} (hnodup : (mapped.map Listener.name).Nodup)
    {l : Listener} (hl : l ∈ mapped) :
    (mapped.map Listener.protocolMap).filter (entryName · = l.name) = [l.protocolMap] := by
  induction mapped with
  | nil => cases hl
  | cons l' mapped ih =>
    obtain ⟨hfirst, hrest⟩ := List.nodup_cons.mp hnodup
    have hothers (hname : l'.name = l.name) :
        (mapped.map Listener.protocolMap).filter (entryName · = l.name) = [] := by
      rw [List.filter_eq_nil_iff, List.forall_mem_map]
      intro m hm heq
      rw [decide_eq_true_eq, m.entryName_protocolMap, ← hname] at heq
      exact hfirst (heq ▸ List.mem_map_of_mem hm)
    rw [List.map_cons, List.filter_cons, l'.entryName_protocolMap]
    rcases List.mem_cons.mp hl with rfl | hmem
    · rw [hothers rfl]
      simp
    · have hname : l'.name ≠ l.name := fun heq => hfirst (heq ▸ List.mem_map_of_mem hmem)
      simp only [hname, decide_false, Bool.false_eq_true, if_false]
      exact ih hrest hmem

/-- The names are mapped if all that are used are those of listeners that the map was written
from, under distinct names. -/
theorem NamesMapped.of_map {served known mapped : List Listener} {lines : List Str}
    (hserved : namesIn "listeners" lines = served.map Listener.name)
    (hmap : entriesIn protocolMapKey lines = mapped.map Listener.protocolMap)
    (hnodup : (mapped.map Listener.name).Nodup) (hsub : served.Sublist mapped)
    (hknown : mapped ⊆ known)
    (hused : ∀ key ∈ namingKeys, namesIn key lines ⊆ mapped.map Listener.name) :
    NamesMapped served known lines where
  served_names := hserved
  distinct := by
    rw [hserved]
    exact hnodup.sublist (hsub.map Listener.name)
  mapped := by
    intro key hkey name hname
    obtain ⟨l, hl, rfl⟩ := List.mem_map.mp (hused key hkey hname)
    refine ⟨l, hknown hl, rfl, ?_⟩
    rw [hmap]
    exact filter_protocolMap hnodup hl

/-! ## Lines about other things -/

/-- The properties that name listeners, and the map. -/
def listenerKeys : List Str := protocolMapKey :: namingKeys

theorem map_mem_listenerKeys : protocolMapKey ∈ listenerKeys := List.mem_cons_self

theorem listeners_mem_listenerKeys : ("listeners" : Str) ∈ listenerKeys := by
  simp [listenerKeys, namingKeys]

theorem advertised_mem_listenerKeys : ("advertised.listeners" : Str) ∈ listenerKeys := by
  simp [listenerKeys, namingKeys]

theorem controller_mem_listenerKeys : ("controller.listener.names" : Str) ∈ listenerKeys := by
  simp [listenerKeys, namingKeys]

theorem interBroker_mem_listenerKeys : ("inter.broker.listener.name" : Str) ∈ listenerKeys := by
  simp [listenerKeys, namingKeys]

/-- The lines set none of the properties that name listeners. -/
def Silent (lines : List Str) : Prop := ∀ key ∈ listenerKeys, settings key lines = []

instance (lines : List Str) : Decidable (Silent lines) := List.decidableBAll _ listenerKeys

/-- A line with this beginning sets none of them. -/
def beginsOtherwise (pre : Str) : Bool :=
  listenerKeys.all fun key =>
    decide ((key ++ ['=']).take pre.length ≠ pre.take (key ++ ['=']).length)

theorem silent_nil : Silent [] := fun _ _ => rfl

theorem silent_append {lines lines' : List Str} :
    Silent (lines ++ lines') ↔ Silent lines ∧ Silent lines' := by
  simp only [Silent, settings_append, List.append_eq_nil_iff, forall_and]

theorem silent_cons {line : Str} {lines : List Str} :
    Silent (line :: lines) ↔ Silent [line] ∧ Silent lines := by
  simp only [Silent, settings_cons _ line lines, List.append_eq_nil_iff, forall_and]

theorem silent_line {pre : Str} (h : beginsOtherwise pre = true) (rest : Str) :
    Silent [pre ++ rest] := by
  intro key hkey
  have hclash := List.all_eq_true.mp h key hkey
  rw [decide_eq_true_eq] at hclash
  simp only [settings, optionValues, List.filterMap_cons, dropPrefix?_clash hclash,
    List.filterMap_nil]

theorem silent_property {k : Str} (h : beginsOtherwise k = true) (value : Str) :
    Silent [property k value] := silent_line h ('=' :: value)

theorem silent_of_forall {lines : List Str} (h : ∀ line ∈ lines, Silent [line]) : Silent lines := by
  induction lines with
  | nil => exact silent_nil
  | cons line lines ih =>
    obtain ⟨hline, hlines⟩ := List.forall_mem_cons.mp h
    exact silent_cons.mpr ⟨hline, ih hlines⟩

theorem silent_flatMap {α : Type} {f : α → List Str} {xs : List α} (h : ∀ x ∈ xs, Silent (f x)) :
    Silent (xs.flatMap f) := by
  induction xs with
  | nil => exact silent_nil
  | cons x xs ih =>
    obtain ⟨hx, hxs⟩ := List.forall_mem_cons.mp h
    exact silent_append.mpr ⟨hx, ih hxs⟩

namespace Listener

variable (l : Listener)

/-- The properties of a single listener are not those that name it. -/
theorem silent_key (rest value : Str) : Silent [property (l.key ++ rest) value] := by
  have hpre : beginsOtherwise "listener.name." = true := by decide
  unfold property key
  generalize ("listener.name." : Str) = pre at hpre ⊢
  rw [List.append_assoc, List.append_assoc, List.append_assoc]
  exact silent_line hpre _

theorem silent_jaasConfig (login : Str) : Silent [l.jaasConfig login] := by
  unfold jaasConfig
  rw [List.append_assoc]
  exact l.silent_key _ login

theorem silent_enabledMechanisms : Silent [l.enabledMechanisms] := by
  unfold enabledMechanisms
  exact l.silent_key _ _

end Listener

theorem CharmConfig.silent_configProperties (config : CharmConfig) (printable : Char → Bool) :
    Silent (config.configProperties printable) := by
  have hkeys : ∀ field ∈ config.fields printable,
      beginsOtherwise (translateConfigKey field.1) = true := by
    simp only [fields, List.forall_mem_cons]
    decide +kernel
  refine silent_of_forall ?_
  intro line hline
  obtain ⟨field, hfield, hprinted⟩ := List.mem_filterMap.mp hline
  obtain ⟨value, -, rfl⟩ := Option.map_eq_some_iff.mp hprinted
  exact silent_line (hkeys field hfield) _

namespace ClusterState

variable (s : ClusterState)

/-- The properties of the stores, of a listener or of all. -/
theorem silent_storeProperties {owner : Str} (truststore keystore : Str)
    (howner : ∀ rest value, beginsOtherwise rest = true → Silent [property (owner ++ rest) value]) :
    Silent (s.storeProperties owner truststore keystore) := by
  have hlocation := howner "ssl.truststore.location" truststore (by decide)
  have hpassword := howner "ssl.truststore.password" s.truststorePassword (by decide)
  have hkeystore := howner "ssl.keystore.location" keystore (by decide)
  have hkey := howner "ssl.keystore.password" s.keystorePassword (by decide)
  unfold storeProperties
  exact silent_cons.mpr ⟨hlocation, silent_cons.mpr ⟨hpassword, silent_cons.mpr ⟨hkeystore, hkey⟩⟩⟩

theorem silent_tlsProperties : Silent s.tlsProperties := by
  unfold tlsProperties
  refine silent_append.mpr ⟨silent_flatMap ?_, ?_⟩
  · intro l _
    exact s.silent_storeProperties _ _ fun rest value _ => l.silent_key rest value
  · split
    · exact s.silent_storeProperties _ _ fun rest value hrest => silent_property hrest value
    · exact silent_nil

theorem silent_defaultReplicationProperties : Silent s.defaultReplicationProperties := by
  unfold defaultReplicationProperties
  refine silent_of_forall ?_
  simp only [List.forall_mem_cons]
  refine ⟨silent_property (by decide) _, silent_property (by decide) _,
    silent_property (by decide) _, silent_property (by decide) _, silent_property (by decide) _,
    silent_property (by decide) _, by simp⟩

theorem silent_controllerScramProperties : Silent s.controllerScramProperties := by
  unfold controllerScramProperties
  refine silent_flatMap ?_
  intro l _
  exact silent_cons.mpr ⟨silent_property (by decide) _,
    silent_cons.mpr ⟨l.silent_jaasConfig _, l.silent_enabledMechanisms⟩⟩

theorem silent_scramProperties (listeners : List Listener) :
    Silent (s.scramProperties listeners) := by
  unfold scramProperties
  refine silent_append.mpr ⟨silent_cons.mpr ⟨s.internalListener.silent_jaasConfig _,
    s.internalListener.silent_enabledMechanisms⟩, silent_flatMap ?_⟩
  intro l _
  exact silent_cons.mpr ⟨l.silent_jaasConfig _, l.silent_enabledMechanisms⟩

theorem silent_defaultConfigOptions : Silent defaultConfigOptions := by decide +kernel

theorem silent_authorizerClass : Silent authorizerClass := by decide +kernel

theorem silent_testing (profile : Profile) :
    Silent (if profile = .testing then testingOptions else []) := by
  cases profile <;> decide +kernel

variable {s} (e : Enumeration s)

theorem silent_storageProperties : Silent (storageProperties e) := by
  unfold storageProperties
  exact silent_cons.mpr ⟨silent_property (by decide) _,
    silent_cons.mpr ⟨silent_property (by decide) _, silent_property (by decide) _⟩⟩

theorem silent_oauthProperties {oauth : List Str} (h : oauthProperties e = some oauth) :
    Silent oauth := by
  unfold oauthProperties at h
  split at h
  · obtain rfl := Option.some.inj h
    exact silent_nil
  · obtain ⟨client, -, h⟩ := Option.bind_eq_some_iff.mp h
    obtain ⟨l, -, h⟩ := Option.bind_eq_some_iff.mp h
    obtain rfl := Option.some.inj h
    have hhandler (rest value : Str) :
        Silent [property (l.key ++ lower l.auth.mechanism ++ rest) value] := by
      rw [List.append_assoc]
      exact l.silent_key _ value
    unfold oauthListenerProperties
    exact silent_cons.mpr ⟨l.silent_jaasConfig _, silent_cons.mpr ⟨hhandler _ _,
      silent_cons.mpr ⟨l.silent_enabledMechanisms, silent_property (by decide) _⟩⟩⟩

theorem silent_mtlsLines (mtls : Bool) : Silent (mtlsLines mtls) := by
  unfold mtlsLines
  split
  · exact silent_property (by decide) _
  · exact silent_nil

theorem silent_balancerProperties : Silent (balancerProperties e) := by
  have hoptions : Silent kafkaCruiseControlOptions := by decide +kernel
  unfold balancerProperties
  split
  · refine silent_append.mpr ⟨hoptions, silent_of_forall ?_⟩
    intro line hline
    obtain ⟨rest, -, rfl⟩ := List.mem_map.mp hline
    exact silent_line (by decide) rest
  · exact silent_nil

/-! ## The properties of a unit -/

section
variable (s)

/-- Of the properties that name listeners a controller has one. -/
theorem settings_controllerProperties_eq {key : Str} (hkey : key ∈ listenerKeys) :
    settings key s.controllerProperties = settings key
      [property "controller.listener.names"
        ([','].intercalate (s.controllerListeners.map Listener.name))] := by
  have hroles := silent_property (k := "process.roles") (by decide) ([','].intercalate
    (CharmConfig.roleName s.roles.broker "broker" ++
      CharmConfig.roleName s.roles.controller "controller")) key hkey
  have hnode := silent_property (k := "node.id") (by decide)
    (intText (nodeId s.roles (unitName s.app s.unit.unitId))) key hkey
  have hquorum := silent_property (k := "controller.quorum.bootstrap.servers") (by decide)
    s.peerBootstrapController key hkey
  have hscram := s.silent_controllerScramProperties key hkey
  unfold controllerProperties
  rw [settings_append, hscram, settings_cons, hroles, settings_cons, hnode, settings_cons, hquorum]
  simp only [List.nil_append, List.append_nil]

theorem settings_controllerProperties :
    settings "controller.listener.names" s.controllerProperties =
      [[','].intercalate (s.controllerListeners.map Listener.name)] := by
  rw [s.settings_controllerProperties_eq controller_mem_listenerKeys, settings_property]
  rfl

theorem settings_controllerProperties_other :
    settings protocolMapKey s.controllerProperties = [] ∧
      settings "listeners" s.controllerProperties = [] ∧
      settings "advertised.listeners" s.controllerProperties = [] ∧
      settings "inter.broker.listener.name" s.controllerProperties = [] := by
  refine ⟨?_, ?_, ?_, ?_⟩
  · rw [s.settings_controllerProperties_eq map_mem_listenerKeys, settings_other (by decide)]
    rfl
  · rw [s.settings_controllerProperties_eq listeners_mem_listenerKeys, settings_other (by decide)]
    rfl
  · rw [s.settings_controllerProperties_eq advertised_mem_listenerKeys, settings_other (by decide)]
    rfl
  · rw [s.settings_controllerProperties_eq interBroker_mem_listenerKeys, settings_other (by decide)]
    rfl

variable (listeners : List Listener)

/-- The listeners that the map of a broker has entries for. -/
def mappedListeners : List Listener :=
  listeners ++ if s.runsBrokerOnly then s.controllerListeners else []

theorem settings_listenerProperties_map :
    settings protocolMapKey (s.listenerProperties listeners) =
      [[','].intercalate ((s.mappedListeners listeners).map Listener.protocolMap)] := by
  have hmapped : (s.mappedListeners listeners).map Listener.protocolMap =
      listeners.map Listener.protocolMap ++
        if s.runsBrokerOnly then s.controllerListeners.map Listener.protocolMap else [] := by
    rw [mappedListeners, List.map_append]
    split <;> rfl
  unfold listenerProperties protocolMapKey
  rw [hmapped]
  simp (disch := decide) only [settings_property, settings_other]
  rfl

theorem settings_listenerProperties_listeners :
    settings "listeners" (s.listenerProperties listeners) =
      [[','].intercalate (listeners.map Listener.listener)] := by
  unfold listenerProperties
  simp (disch := decide) only [settings_property, settings_other]
  rfl

theorem settings_listenerProperties_advertised :
    settings "advertised.listeners" (s.listenerProperties listeners) =
      [[','].intercalate (listeners.map Listener.advertisedListener)] := by
  unfold listenerProperties
  simp (disch := decide) only [settings_property, settings_other]
  rfl

theorem settings_listenerProperties_interBroker :
    settings "inter.broker.listener.name" (s.listenerProperties listeners) =
      [[','].intercalate ([s.internalListener].map Listener.name)] := by
  unfold listenerProperties
  simp (disch := decide) only [settings_property, settings_other]
  rfl

theorem settings_listenerProperties_controller :
    settings "controller.listener.names" (s.listenerProperties listeners) = [] := by
  unfold listenerProperties
  simp (disch := decide) only [settings_other]
  rfl

end

/-! ### A controller -/

variable (s) in
/-- The lines of a controller that name its listeners. -/
def controllerListenerLines : List Str :=
  [property "listeners" ([','].intercalate (s.controllerListeners.map Listener.advertisedListener)),
   property protocolMapKey ([','].intercalate (s.controllerListeners.map Listener.protocolMap))]

theorem settings_controllerOnlyProperties {key : Str} (hkey : key ∈ listenerKeys) :
    settings key (controllerOnlyProperties e) =
      settings key s.controllerListenerLines ++ settings key s.controllerProperties := by
  have hstorage := silent_storageProperties e key hkey
  have hauthorizer := silent_authorizerClass key hkey
  have htls := s.silent_tlsProperties key hkey
  unfold controllerOnlyProperties
  rw [settings_append, settings_append, settings_append, settings_append, hstorage, hauthorizer,
    htls, List.nil_append, List.append_nil, List.append_nil]
  rfl

theorem settings_controllerOnly_listeners :
    settings "listeners" (controllerOnlyProperties e) =
      [[','].intercalate (s.controllerListeners.map Listener.advertisedListener)] := by
  rw [settings_controllerOnlyProperties e listeners_mem_listenerKeys, controllerListenerLines,
    settings_property, settings_other (by decide),
    s.settings_controllerProperties_other.2.1]
  rfl

theorem settings_controllerOnly_map :
    settings protocolMapKey (controllerOnlyProperties e) =
      [[','].intercalate (s.controllerListeners.map Listener.protocolMap)] := by
  rw [settings_controllerOnlyProperties e map_mem_listenerKeys, controllerListenerLines,
    settings_other (by decide), settings_property,
    s.settings_controllerProperties_other.1]
  rfl

theorem settings_controllerOnly_names :
    settings "controller.listener.names" (controllerOnlyProperties e) =
      [[','].intercalate (s.controllerListeners.map Listener.name)] := by
  rw [settings_controllerOnlyProperties e controller_mem_listenerKeys, controllerListenerLines,
    settings_other (by decide), settings_other (by decide), s.settings_controllerProperties]
  rfl

/-- A controller has no listeners for clients, so it neither advertises any nor names one for
the brokers. -/
theorem settings_controllerOnly_nil :
    settings "advertised.listeners" (controllerOnlyProperties e) = [] ∧
      settings "inter.broker.listener.name" (controllerOnlyProperties e) = [] := by
  constructor
  · rw [settings_controllerOnlyProperties e advertised_mem_listenerKeys, controllerListenerLines,
      settings_other (by decide), settings_other (by decide),
      s.settings_controllerProperties_other.2.2.1]
    rfl
  · rw [settings_controllerOnlyProperties e interBroker_mem_listenerKeys, controllerListenerLines,
      settings_other (by decide), settings_other (by decide),
      s.settings_controllerProperties_other.2.2.2]
    rfl

theorem controllerOnly_names_mapped {known : List Listener}
    (hknown : s.controllerListeners ⊆ known) :
    NamesMapped s.controllerListeners known (controllerOnlyProperties e) := by
  have hhosts : ∀ l ∈ s.controllerListeners, ',' ∉ l.advertisedListener := by
    intro l hl
    obtain rfl := List.mem_singleton.mp hl
    exact Listener.comma_notMem_advertisedListener _ comma_notMem_unitAddress
  have hne : s.controllerListeners ≠ [] := List.cons_ne_nil _ _
  have hserved := namesIn_eq (settings_controllerOnly_listeners e) hne hhosts
    Listener.entryName_advertisedListener
  have hnames := namesIn_eq (settings_controllerOnly_names e) hne
    (fun l _ => l.isName_name.no_comma) Listener.entryName_name
  have hmap := entriesIn_eq (settings_controllerOnly_map e) (by simpa using hne)
    (List.forall_mem_map.mpr fun l _ => l.comma_notMem_protocolMap)
  obtain ⟨hadvertised, hbrokers⟩ := settings_controllerOnly_nil e
  refine NamesMapped.of_map hserved hmap (List.nodup_singleton _) (List.Sublist.refl _) hknown
    (forall_namingKeys ?_ ?_ ?_ ?_)
  · rw [hserved]
    exact List.Subset.refl _
  · rw [namesIn_nil hadvertised]
    exact List.nil_subset _
  · rw [hnames]
    exact List.Subset.refl _
  · rw [namesIn_nil hbrokers]
    exact List.nil_subset _

/-! ### A broker -/

section
variable (printable : Char → Bool) (listeners clients : List Listener) {oauth : List Str}
  (hoauth : oauthProperties e = some oauth)
include hoauth

theorem settings_broker {key : Str} (hkey : key ∈ listenerKeys) :
    settings key (linesBefore e printable listeners clients oauth ++ linesAfter e) =
      settings key (s.listenerProperties listeners) ++ settings key s.controllerProperties := by
  have hstorage := silent_storageProperties e key hkey
  have hscram := s.silent_scramProperties clients key hkey
  have hsilent := silent_oauthProperties e hoauth key hkey
  have hconfig := s.config.silent_configProperties printable key hkey
  have hreplication := s.silent_defaultReplicationProperties key hkey
  have hoptions := silent_defaultConfigOptions key hkey
  have hauthorizer := silent_authorizerClass key hkey
  have htls := s.silent_tlsProperties key hkey
  have hmtls := silent_mtlsLines (mtlsClients e) key hkey
  have hbalancer := silent_balancerProperties e key hkey
  have htesting := silent_testing s.config.profile key hkey
  unfold linesBefore linesAfter
  simp only [settings_append, hstorage, hscram, hsilent, hconfig, hreplication, hoptions,
    hauthorizer, htls, hmtls, hbalancer, htesting, List.nil_append, List.append_nil]

theorem settings_broker_map :
    settings protocolMapKey (linesBefore e printable listeners clients oauth ++ linesAfter e) =
      [[','].intercalate ((s.mappedListeners listeners).map Listener.protocolMap)] := by
  rw [settings_broker e printable listeners clients hoauth map_mem_listenerKeys,
    settings_listenerProperties_map, s.settings_controllerProperties_other.1,
    List.append_nil]

theorem settings_broker_listeners :
    settings "listeners" (linesBefore e printable listeners clients oauth ++ linesAfter e) =
      [[','].intercalate (listeners.map Listener.listener)] := by
  rw [settings_broker e printable listeners clients hoauth listeners_mem_listenerKeys,
    settings_listenerProperties_listeners,
    s.settings_controllerProperties_other.2.1, List.append_nil]

theorem settings_broker_advertised :
    settings "advertised.listeners"
        (linesBefore e printable listeners clients oauth ++ linesAfter e) =
      [[','].intercalate (listeners.map Listener.advertisedListener)] := by
  rw [settings_broker e printable listeners clients hoauth advertised_mem_listenerKeys,
    settings_listenerProperties_advertised,
    s.settings_controllerProperties_other.2.2.1, List.append_nil]

theorem settings_broker_interBroker :
    settings "inter.broker.listener.name"
        (linesBefore e printable listeners clients oauth ++ linesAfter e) =
      [[','].intercalate ([s.internalListener].map Listener.name)] := by
  rw [settings_broker e printable listeners clients hoauth interBroker_mem_listenerKeys,
    settings_listenerProperties_interBroker,
    s.settings_controllerProperties_other.2.2.2, List.append_nil]

theorem settings_broker_controller :
    settings "controller.listener.names"
        (linesBefore e printable listeners clients oauth ++ linesAfter e) =
      [[','].intercalate (s.controllerListeners.map Listener.name)] := by
  rw [settings_broker e printable listeners clients hoauth controller_mem_listenerKeys,
    settings_listenerProperties_controller,
    s.settings_controllerProperties, List.nil_append]

end

section
variable {value : Str} {listeners : List Listener}
  (haccepted : extraListenersPortValues value = some s.config.extraListeners)
  (hlisteners : allListeners e = some listeners)
include hlisteners

theorem internalListener_mem : s.internalListener ∈ listeners := by
  obtain ⟨external, extra, -, -, -, rfl⟩ := allListeners_eq_some e hlisteners
  simp

/-- A broker that is no controller has the controllers in its map all the same. -/
theorem controllerListeners_subset_mapped (hbroker : s.roles.broker = true) :
    s.controllerListeners ⊆ s.mappedListeners listeners := by
  obtain ⟨external, extra, -, -, -, rfl⟩ := allListeners_eq_some e hlisteners
  intro l hl
  unfold mappedListeners runsBrokerOnly
  cases hcontroller : s.roles.controller with
  | true => simp [hl]
  | false => simp [hbroker, hl]

include haccepted

theorem nodup_mappedListeners (hbroker : s.roles.broker = true) :
    ((s.mappedListeners listeners).map Listener.name).Nodup := by
  have hplaced : (s.mappedListeners listeners).map Listener.placed = placedListeners e true := by
    rw [mappedListeners, List.map_append, allListeners_placed e haccepted hlisteners]
    unfold placedListeners runsBrokerOnly
    cases s.roles.controller with
    | true => simp
    | false =>
      simp only [hbroker, Bool.not_false, Bool.and_self, if_true, Bool.false_eq_true, if_false,
        List.append_nil]
      rfl
  have hnames : (s.mappedListeners listeners).map Listener.name =
      (placedListeners e true).map Listener.name := by
    rw [← hplaced, List.map_map]
    rfl
  rw [hnames]
  exact nodup_placedListeners_names e true

theorem broker_names_mapped {printable : Char → Bool} {clients : List Listener} {oauth : List Str}
    (hbroker : s.roles.broker = true) (hnode : ',' ∉ s.unit.nodeAddress)
    (hoauth : oauthProperties e = some oauth) :
    NamesMapped listeners (listeners ++ s.controllerListeners)
      (linesBefore e printable listeners clients oauth ++ linesAfter e) := by
  have hinternal := internalListener_mem e hlisteners
  have hcontrollers := controllerListeners_subset_mapped e hlisteners hbroker
  have hserves : listeners.Sublist (s.mappedListeners listeners) := List.sublist_append_left _ _
  have hne : listeners ≠ [] := List.ne_nil_of_mem hinternal
  have hhosts := comma_notMem_hosts e haccepted hnode hlisteners
  have hserved := namesIn_eq (settings_broker_listeners e printable listeners clients hoauth) hne
    (fun l _ => l.comma_notMem_listener) Listener.entryName_listener
  have hadvertised := namesIn_eq (settings_broker_advertised e printable listeners clients hoauth)
    hne
    (fun l hl => l.comma_notMem_advertisedListener (hhosts l hl))
    Listener.entryName_advertisedListener
  have hnames := namesIn_eq (settings_broker_controller e printable listeners clients hoauth)
    (List.cons_ne_nil _ _) (fun l _ => l.isName_name.no_comma) Listener.entryName_name
  have hbrokers := namesIn_eq (settings_broker_interBroker e printable listeners clients hoauth)
    (List.cons_ne_nil _ _) (fun l _ => l.isName_name.no_comma) Listener.entryName_name
  have hmap := entriesIn_eq (settings_broker_map e printable listeners clients hoauth)
    (by simpa using List.ne_nil_of_mem (hserves.subset hinternal))
    (List.forall_mem_map.mpr fun l _ => l.comma_notMem_protocolMap)
  have hknown : s.mappedListeners listeners ⊆ listeners ++ s.controllerListeners := by
    unfold mappedListeners
    split
    · exact List.Subset.refl _
    · exact List.append_subset.mpr ⟨List.subset_append_left _ _, List.nil_subset _⟩
  refine NamesMapped.of_map hserved hmap (nodup_mappedListeners e haccepted hlisteners hbroker)
    hserves hknown (forall_namingKeys ?_ ?_ ?_ ?_)
  · rw [hserved]
    exact List.map_subset _ hserves.subset
  · rw [hadvertised]
    exact List.map_subset _ hserves.subset
  · rw [hnames]
    exact List.map_subset _ hcontrollers
  · rw [hbrokers]
    exact List.map_subset _ (List.cons_subset.mpr ⟨hserves.subset hinternal, List.nil_subset _⟩)

end

/-- In the server properties of a unit that runs a broker or a controller, but for the lines of
`rack.properties` that a broker adds, the names of the listeners are mapped. -/
theorem listener_names_mapped {value : Str} {printable : Char → Bool} {rack lines : List Str}
    (hroles : s.roles.broker = true ∨ s.roles.controller = true)
    (haccepted : extraListenersPortValues value = some s.config.extraListeners)
    (hnode : ',' ∉ s.unit.nodeAddress) (h : serverProperties e printable rack = some lines) :
    ∃ listeners before after, allListeners e = some listeners ∧
      lines = before ++ (if s.runsControllerOnly then [] else rack) ++ after ∧
      NamesMapped (if s.runsControllerOnly then s.controllerListeners else listeners)
        (listeners ++ s.controllerListeners) (before ++ after) := by
  obtain ⟨listeners, hlisteners, ⟨honly, rfl⟩ | ⟨honly, external, extra, oauth, -, -, hoauth, rfl⟩⟩ :=
    serverProperties_eq_some e h
  · refine ⟨listeners, controllerOnlyProperties e, [], hlisteners, ?_, ?_⟩
    · simp [honly]
    · simpa [honly] using controllerOnly_names_mapped e (List.subset_append_right _ _)
  · have hbroker : s.roles.broker = true := by
      rcases hroles with hbroker | hcontroller
      · exact hbroker
      · simpa [runsControllerOnly, hcontroller] using honly
    refine ⟨listeners, linesBefore e printable listeners
      (s.listenersFor (openAuth e) ++ external ++ extra) oauth, linesAfter e, hlisteners, ?_, ?_⟩
    · simp [honly]
    · simpa [honly] using broker_names_mapped e haccepted hlisteners hbroker hnode hoauth

end ClusterState

/-- A unit that is exposed and serves a client and OAuth on its own listeners and on extra ones. -/
theorem exposed_names_mapped :
    let item : Str := "worker-\x7bunit\x7d.domain.com:30000"
    let s := ClusterState.exposed item
    let e := Enumeration.listed s
    let rack : List Str := ["broker.rack=gondor-west"]
    ∃ lines, ClusterState.serverProperties e (fun _ => true) rack = some lines ∧
      ∃ listeners before after, ClusterState.allListeners e = some listeners ∧
        lines = before ++ (if s.runsControllerOnly then [] else rack) ++ after ∧
        NamesMapped (if s.runsControllerOnly then s.controllerListeners else listeners)
          (listeners ++ s.controllerListeners) (before ++ after) := by
  intro item s e rack
  have haccepted : extraListenersPortValues item = some s.config.extraListeners := by
    decide +kernel
  have hnode : ',' ∉ s.unit.nodeAddress := by decide +kernel
  have hbuilt : ClusterState.serverProperties e (fun _ => true) rack ≠ none := by decide +kernel
  obtain ⟨lines, hlines⟩ := Option.ne_none_iff_exists'.mp hbuilt
  exact ⟨lines, hlines, ClusterState.listener_names_mapped e (.inl rfl) haccepted hnode hlines⟩

end KafkaCharm
