import KafkaCharm.Lib.Lines
import KafkaCharm.NodeIds

namespace KafkaCharm

open PyText

/-! ## Fields -/

inductive CompressionType where
  | gzip | snappy | lz4 | zstd | uncompressed | producer
  deriving DecidableEq, Repr

def CompressionType.text : CompressionType → Str
  | .gzip => "gzip"
  | .snappy => "snappy"
  | .lz4 => "lz4"
  | .zstd => "zstd"
  | .uncompressed => "uncompressed"
  | .producer => "producer"

inductive LogCleanupPolicy where
  | compact | delete
  deriving DecidableEq, Repr

def LogCleanupPolicy.text : LogCleanupPolicy → Str
  | .compact => "compact"
  | .delete => "delete"

inductive TimestampType where
  | createTime | logAppendTime
  deriving DecidableEq, Repr

def TimestampType.text : TimestampType → Str
  | .createTime => "CreateTime"
  | .logAppendTime => "LogAppendTime"

inductive Profile where
  | testing | staging | production
  deriving DecidableEq, Repr

def Profile.text : Profile → Str
  | .testing => "testing"
  | .staging => "staging"
  | .production => "production"

/-- A `float`, by the characters it is printed with. -/
structure FloatText where
  text : Str
  printed : ∀ c ∈ text, c.isDigit = true ∨ c ∈ ['.', '-', '+', 'e', 'i', 'n', 'f', 'a']
  deriving DecidableEq

/-- The number with the given digits before and after the point. -/
def FloatText.ofParts (whole fraction : Nat) : FloatText where
  text := decimal whole ++ '.' :: decimal fraction
  printed := by
    intro c hc
    rcases List.mem_append.mp hc with hc | hc
    · exact .inl (isDigit_of_mem_decimal hc)
    · rcases List.mem_cons.mp hc with rfl | hc
      · exact .inr (by simp)
      · exact .inl (isDigit_of_mem_decimal hc)

/-- `CharmConfig`, as it is after validation. `roles` is kept as the set it was read as, and
`exposeExternal` says whether the option is `nodeport`. -/
structure CharmConfig where
  compressionType : CompressionType
  logFlushIntervalMessages : Int
  logFlushIntervalMs : Option Int
  logFlushOffsetCheckpointIntervalMs : Int
  logRetentionBytes : Int
  logRetentionMs : Int
  logSegmentBytes : Int
  messageMaxBytes : Int
  offsetsTopicNumPartitions : Int
  transactionStateLogNumPartitions : Int
  uncleanLeaderElectionEnable : Bool
  logCleanerDeleteRetentionMs : Int
  logCleanerMinCompactionLagMs : Int
  logCleanupPolicy : LogCleanupPolicy
  logMessageTimestampType : TimestampType
  sslCipherSuites : Option Str
  sslPrincipalMappingRules : Str
  replicationQuotaWindowNum : Int
  roles : Roles
  profile : Profile
  certificateExtraSans : List Str
  extraListeners : List Str
  exposeExternal : Bool
  logLevel : Str
  networkBandwidth : Int
  cruisecontrolBalanceThreshold : FloatText
  cruisecontrolCapacityThreshold : FloatText
  systemUsers : Option Str
  tlsPrivateKey : Option Str
  deriving DecidableEq

/-! ## Validators -/

def logCleanerMinCompactionLagMsValidator (value : Int) : Bool :=
  decide (0 ≤ value ∧ value ≤ 1000 * 60 * 60 * 24 * 7)

def logCleanerDeleteRetentionMsValidator (value : Int) : Bool :=
  decide (0 < value ∧ value ≤ 1000 * 60 * 60 * 24 * 90)

def betweenZeroAnd10k (value : Int) : Bool := decide (0 ≤ value ∧ value ≤ 10000)
def greaterThanMinusOne (value : Int) : Bool := decide (¬ value < -1)
def greaterThanOne (value : Int) : Bool := decide (¬ value < 1)
def greaterThan1Mb (value : Int) : Bool := decide (¬ value < 1024 * 1024)
def greaterThanZero (value : Int) : Bool := decide (¬ value < 0)

def integerValue (value : Int) : Bool := decide (-2147483648 ≤ value ∧ value ≤ 2147483647)

def longValue (value : Int) : Bool :=
  decide (-9223372036854775807 ≤ value ∧ value ≤ 9223372036854775808)

/-- `certificate_extra_sans_values`. -/
def certificateExtraSansValues (value : Str) : List Str :=
  if value = [] then [] else value.splitOn ','

/-- `int(listener.split(":")[1])` of an item with a colon, where it passes the checks. -/
def listenerPort (listener : Str) : Option Nat :=
  ((listener.splitOn ':')[1]?.bind digitsInt).filter fun port => 20000 < port && port < 50000

/-- The loop over the ports: each lies more than 100 above the one before it. -/
def portsApart : Nat → List Nat → Bool
  | _, [] => true
  | current, port :: ports =>
    decide ((current : Int) - 100 < port ∧ port > current + 100) && portsApart port ports

/-- `extra_listeners_port_values`; `none` where it raises `ValueError`. -/
def extraListenersPortValues (value : Str) : Option (List Str) :=
  if value = [] then some []
  else do
    let listeners := value.splitOn ','
    let ports ← (listeners.filter (':' ∈ ·)).mapM listenerPort
    if portsApart 0 ports && decide ports.Nodup then some listeners else none

/-- `SECRET_REGEX.match`, which looks at the beginning of the value only. -/
def secretUri (value : Str) : Bool :=
  match value.dropPrefix? "secret:" with
  | none => false
  | some rest =>
    decide (20 ≤ rest.length) &&
      (rest.take 20).all fun c => c.isDigit || (decide ('a' ≤ c) && decide (c ≤ 'z'))

/-- `secret_validator`: an empty value is kept as an empty string. -/
def secretValidator (value : Str) : Bool := decide (value = []) || secretUri value

namespace CharmConfig

variable (config : CharmConfig)

/-- The checks of the validators, in the order of the fields they are on; `rules` is the
verdict of `ssl_principal_mapping_rules_validator`. A blank option is no string but `None`. -/
def accepted (rules : Str → Bool) : Bool :=
  [greaterThanOne config.logFlushIntervalMessages && longValue config.logFlushIntervalMessages,
   config.logFlushIntervalMs.all fun value => greaterThanOne value && longValue value,
   integerValue config.logFlushOffsetCheckpointIntervalMs,
   greaterThanMinusOne config.logRetentionBytes && longValue config.logRetentionBytes,
   greaterThanMinusOne config.logRetentionMs && longValue config.logRetentionMs,
   greaterThan1Mb config.logSegmentBytes && integerValue config.logSegmentBytes,
   greaterThanZero config.messageMaxBytes && integerValue config.messageMaxBytes,
   betweenZeroAnd10k config.offsetsTopicNumPartitions &&
     greaterThanOne config.offsetsTopicNumPartitions &&
     integerValue config.offsetsTopicNumPartitions,
   betweenZeroAnd10k config.transactionStateLogNumPartitions &&
     greaterThanOne config.transactionStateLogNumPartitions &&
     integerValue config.transactionStateLogNumPartitions,
   logCleanerDeleteRetentionMsValidator config.logCleanerDeleteRetentionMs &&
     longValue config.logCleanerDeleteRetentionMs,
   logCleanerMinCompactionLagMsValidator config.logCleanerMinCompactionLagMs &&
     longValue config.logCleanerMinCompactionLagMs,
   decide (config.sslCipherSuites ≠ some []),
   decide (config.sslPrincipalMappingRules ≠ []) && rules config.sslPrincipalMappingRules,
   greaterThanOne config.replicationQuotaWindowNum && integerValue config.replicationQuotaWindowNum,
   config.roles.broker || config.roles.controller || config.roles.balancer,
   decide (certificateExtraSansValues ([','].intercalate config.certificateExtraSans) =
     config.certificateExtraSans),
   decide (extraListenersPortValues ([','].intercalate config.extraListeners) =
     some config.extraListeners),
   decide (config.logLevel ≠ []),
   decide (0 < config.networkBandwidth),
   config.systemUsers.all secretValidator,
   config.tlsPrivateKey.all secretValidator].all id

/-! ## Properties -/

/-- `str` of a `bool`. -/
def boolText (b : Bool) : Str := if b then "True" else "False"

/-- The name of a role that is taken. -/
def roleName (taken : Bool) (name : Str) : List Str := if taken then [name] else []

/-- `roles_values`: the names, sorted. -/
def rolesText (roles : Roles) : Str :=
  [','].intercalate (roleName roles.balancer "balancer" ++ roleName roles.broker "broker" ++
    roleName roles.controller "controller")

/-- `config.dict().items()` with the values printed; `none` is a value that is `None`. -/
def fields (printable : Char → Bool) : List (Str × Option Str) :=
  [("compression_type", some config.compressionType.text),
   ("log_flush_interval_messages", some (intText config.logFlushIntervalMessages)),
   ("log_flush_interval_ms", config.logFlushIntervalMs.map intText),
   ("log_flush_offset_checkpoint_interval_ms",
    some (intText config.logFlushOffsetCheckpointIntervalMs)),
   ("log_retention_bytes", some (intText config.logRetentionBytes)),
   ("log_retention_ms", some (intText config.logRetentionMs)),
   ("log_segment_bytes", some (intText config.logSegmentBytes)),
   ("message_max_bytes", some (intText config.messageMaxBytes)),
   ("offsets_topic_num_partitions", some (intText config.offsetsTopicNumPartitions)),
   ("transaction_state_log_num_partitions",
    some (intText config.transactionStateLogNumPartitions)),
   ("unclean_leader_election_enable", some (boolText config.uncleanLeaderElectionEnable)),
   ("log_cleaner_delete_retention_ms", some (intText config.logCleanerDeleteRetentionMs)),
   ("log_cleaner_min_compaction_lag_ms", some (intText config.logCleanerMinCompactionLagMs)),
   ("log_cleanup_policy", some config.logCleanupPolicy.text),
   ("log_message_timestamp_type", some config.logMessageTimestampType.text),
   ("ssl_cipher_suites", config.sslCipherSuites),
   ("ssl_principal_mapping_rules", some config.sslPrincipalMappingRules),
   ("replication_quota_window_num", some (intText config.replicationQuotaWindowNum)),
   ("roles", some (rolesText config.roles)),
   ("profile", some config.profile.text),
   ("certificate_extra_sans", some (listRepr printable config.certificateExtraSans)),
   ("extra_listeners", some (listRepr printable config.extraListeners)),
   ("expose_external", if config.exposeExternal then some "nodeport" else none),
   ("log_level", some config.logLevel),
   ("network_bandwidth", some (intText config.networkBandwidth)),
   ("cruisecontrol_balance_threshold", some config.cruisecontrolBalanceThreshold.text),
   ("cruisecontrol_capacity_threshold", some config.cruisecontrolCapacityThreshold.text),
   ("system_users", config.systemUsers),
   ("tls_private_key", config.tlsPrivateKey)]

/-- `SERVER_PROPERTIES_BLACKLIST`. -/
def serverPropertiesBlacklist : List Str :=
  ["profile", "log_level", "certificate_extra_sans", "extra_listeners", "roles",
   "expose_external", "system_users", "tls_private_key"]

/-- `_translate_config_key`. -/
def translateConfigKey (key : Str) : Str :=
  if key ∈ serverPropertiesBlacklist then "# " ++ key
  else key.map fun c => if c = '_' then '.' else c

/-- `ConfigManager.config_properties`. -/
def configProperties (printable : Char → Bool) : List Str :=
  (config.fields printable).filterMap fun (key, value) =>
    value.map fun v => translateConfigKey key ++ '=' :: v

end CharmConfig

/-! ## One line for each field -/

theorem CompressionType.oneLine_text (t : CompressionType) : OneLine t.text := by
  cases t <;> exact oneLine_literal ⟨_, rfl, rfl⟩

theorem LogCleanupPolicy.oneLine_text (policy : LogCleanupPolicy) : OneLine policy.text := by
  cases policy <;> exact oneLine_literal ⟨_, rfl, rfl⟩

theorem TimestampType.oneLine_text (t : TimestampType) : OneLine t.text := by
  cases t <;> exact oneLine_literal ⟨_, rfl, rfl⟩

theorem Profile.oneLine_text (profile : Profile) : OneLine profile.text := by
  cases profile <;> exact oneLine_literal ⟨_, rfl, rfl⟩

theorem FloatText.oneLine_text (f : FloatText) : OneLine f.text := by
  intro c hc
  rcases f.printed c hc with hdigit | hsign
  · exact isLineEnd_of_isDigit hdigit
  · have hsigns : OneLine ['.', '-', '+', 'e', 'i', 'n', 'f', 'a'] := by decide
    exact hsigns c hsign

namespace CharmConfig

theorem oneLine_boolText (b : Bool) : OneLine (boolText b) := by
  cases b <;> exact oneLine_literal ⟨_, rfl, rfl⟩

theorem oneLines_roleName {name : Str} (h : OneLine name) (taken : Bool) :
    OneLines (roleName taken name) := by
  cases taken <;> simp [roleName, h]

theorem oneLine_rolesText (roles : Roles) : OneLine (rolesText roles) := by
  rw [rolesText, oneLine_intercalate (by decide), oneLines_append, oneLines_append]
  exact ⟨⟨oneLines_roleName (oneLine_literal ⟨_, rfl, rfl⟩) _,
    oneLines_roleName (oneLine_literal ⟨_, rfl, rfl⟩) _⟩,
    oneLines_roleName (oneLine_literal ⟨_, rfl, rfl⟩) _⟩

variable (config : CharmConfig) (printable : Char → Bool)

/-- The strings of the configuration that are printed as they are. -/
def rawTexts : List Str :=
  config.sslCipherSuites.toList ++ [config.sslPrincipalMappingRules, config.logLevel] ++
    config.systemUsers.toList ++ config.tlsPrivateKey.toList

theorem oneLine_translateConfigKey {key : Str} (h : OneLine key) :
    OneLine (translateConfigKey key) := by
  unfold translateConfigKey
  split
  · exact oneLine_append.mpr ⟨by decide, h⟩
  · intro c hc
    obtain ⟨d, hd, rfl⟩ := List.mem_map.mp hc
    split
    · decide
    · exact h d hd

theorem oneLine_fieldNames : ∀ field ∈ config.fields printable, OneLine field.1 := by
  simp (disch := exact ⟨_, rfl, rfl⟩) only [fields, List.forall_mem_cons, oneLine_literal,
    true_and]
  exact List.forall_mem_nil _

/-- Only the fields that are printed as they are can hold a line end: a list is escaped, and
the others are numbers and words. -/
theorem oneLine_fieldValues_iff :
    (∀ field ∈ config.fields printable, ∀ value ∈ field.2, OneLine value) ↔
      OneLines config.rawTexts := by
  have hinterval : ∀ value ∈ config.logFlushIntervalMs.map intText, OneLine value := by
    intro value hvalue
    obtain ⟨ms, -, rfl⟩ := Option.map_eq_some_iff.mp hvalue
    exact oneLine_intText ms
  have hnode : ∀ value ∈ (if config.exposeExternal then some ("nodeport" : Str) else none),
      OneLine value := by
    split
    · rintro value ⟨⟩
      exact oneLine_literal ⟨_, rfl, rfl⟩
    · rintro value ⟨⟩
  simp only [fields, List.forall_mem_cons, Option.mem_def, Option.some.injEq, forall_eq',
    CompressionType.oneLine_text, LogCleanupPolicy.oneLine_text, TimestampType.oneLine_text,
    Profile.oneLine_text, FloatText.oneLine_text, oneLine_intText, oneLine_boolText,
    oneLine_rolesText, oneLine_listRepr, true_and]
  simp only [rawTexts, oneLines_append, oneLines_cons, oneLines_nil, and_true, oneLines_toList,
    Option.mem_def]
  constructor
  · rintro ⟨-, hsuites, hrules, -, hlevel, husers, hkey, -⟩
    exact ⟨⟨⟨hsuites, hrules, hlevel⟩, husers⟩, hkey⟩
  · rintro ⟨⟨⟨hsuites, hrules, hlevel⟩, husers⟩, hkey⟩
    exact ⟨hinterval, hsuites, hrules, hnode, hlevel, husers, hkey, by simp⟩

/-- Which configurations are printed with one line for each field. -/
theorem configProperties_oneLine_iff :
    OneLines (config.configProperties printable) ↔ OneLines config.rawTexts := by
  rw [← oneLine_fieldValues_iff config printable]
  constructor
  · intro h field hfield value hvalue
    have hline := h (translateConfigKey field.1 ++ '=' :: value)
      (List.mem_filterMap.mpr ⟨field, hfield, by simp [Option.mem_def.mp hvalue]⟩)
    exact (oneLine_cons.mp (oneLine_append.mp hline).2).2
  · intro h line hline
    obtain ⟨field, hfield, hprinted⟩ := List.mem_filterMap.mp hline
    obtain ⟨value, hvalue, rfl⟩ := Option.map_eq_some_iff.mp hprinted
    have hkey := oneLine_translateConfigKey (oneLine_fieldNames config printable field hfield)
    exact oneLine_append.mpr ⟨hkey, oneLine_cons.mpr ⟨by decide, h field hfield value hvalue⟩⟩

end CharmConfig

end KafkaCharm
