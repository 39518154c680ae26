import KafkaCharm.Balancer
import KafkaCharm.Lib.Json

namespace KafkaCharm

open PyText
open Json (Doc text? member)

/-! ## The output -/

/-- What the document begins with. -/
def logDirsMark : Str := "\x7b\"brokers\""

/-- A match of `\{"brokers".+` at the beginning of a text: it ends with its line. -/
def jsonPartAt (text : Str) : Option Str :=
  (text.dropPrefix? logDirsMark).bind fun rest =>
    let line := rest.takeWhile (· ≠ '\n')
    if line = [] then none else some (logDirsMark ++ line)

/-- The first match of `re.findall`. -/
def jsonPart (raw : Str) : Option Str := raw.tails.findSome? jsonPartAt

/-- `p["partition"]`. -/
def partitionName : Doc → Option Str
  | .obj members =>
    match member members "partition" with
    | some (.str name) => text? name
    | _ => none
  | _ => none

/-- The partitions of a log directory. -/
def logDirPartitions : Doc → Option (List Str)
  | .obj members =>
    match member members "partitions" with
    | some (.arr partitions) => partitions.mapM partitionName
    | _ => none
  | _ => none

/-- A broker with its log directories, none by default. -/
def brokerLogDirs : Doc → Option BrokerLogDirs
  | .obj members =>
    match member members "broker", member members "logDirs" with
    | some (.num text), none => (parseInt text).map (⟨·, []⟩)
    | some (.num text), some (.arr logDirs) => do
      let brokerId ← parseInt text
      let partitions ← logDirs.mapM logDirPartitions
      return ⟨brokerId, partitions⟩
    | _, _ => none
  | _ => none

/-- The brokers of the document. -/
def describedBrokers : Doc → Option (List BrokerLogDirs)
  | .obj members =>
    match member members "brokers" with
    | none => some []
    | some (.arr brokers) => brokers.mapM brokerLogDirs
    | some _ => none
  | _ => none

/-- What an output tells; `none` where the text is no document of the schema that the source
gives. -/
def logDirsQuery (raw : Str) : Option LogDirsQuery :=
  match jsonPart raw with
  | none => some .unknown
  | some text => ((Json.loads text).bind describedBrokers).map .described

/-- `BalancerManager._parse_log_dirs_output`. -/
def parseLogDirsOutput (raw : Str) : Option (List (Str × List Str)) :=
  (logDirsQuery raw).map partitionAssignment

/-- `BalancerManager.all_storages_drained`, on the assignment. -/
def allStoragesDrained (assignment : List (Str × List Str)) (brokerId : Int) : Bool :=
  if assignment = [] then false
  else
    let keys := (Dict.keys assignment).filter fun key => decide (intText brokerId <+: key)
    if keys = [] then true
    else !(keys.any fun key => decide (Dict.get? assignment key ≠ some []))

/-! ## The keys -/

theorem slash_notMem_intText (z : Int) : '/' ∉ intText z := by
  intro hc
  rcases mem_intText hc with h | h
  · exact absurd h (by decide)
  · exact absurd h (by decide)

/-- The number of the storage does not matter for the beginning of a key. -/
theorem prefix_assignmentKey_iff (brokerId id : Int) (i : Nat) :
    intText brokerId <+: assignmentKey id i ↔ intText brokerId <+: intText id := by
  unfold assignmentKey
  constructor
  · rintro ⟨rest, hrest⟩
    rcases List.append_eq_append_iff.mp hrest with ⟨more, hmore, -⟩ | ⟨more, hmore, hslash⟩
    · exact ⟨more, hmore.symm⟩
    · cases more with
      | nil => exact ⟨[], by simp [hmore]⟩
      | cons c more =>
        -- the text of a number would reach over the slash
        obtain ⟨rfl, -⟩ := List.cons.inj hslash
        exact absurd (hmore ▸ by simp) (slash_notMem_intText brokerId)
  · intro h
    exact h.trans (List.prefix_append _ _)

theorem assignmentKey_injective {id id' : Int} {i i' : Nat}
    (h : assignmentKey id i = assignmentKey id' i') : id = id' ∧ i = i' := by
  have hid : id = id' := by
    have hbroker := congrArg brokerOfKey h
    rwa [brokerOfKey_assignmentKey, brokerOfKey_assignmentKey] at hbroker
  subst hid
  obtain ⟨-, hrest⟩ := List.cons.inj (List.append_cancel_left h)
  exact ⟨rfl, decimal_injective hrest⟩

/-- The directories of distinct brokers have distinct keys. -/
theorem nodupKeys_assignmentItems {brokers : List BrokerLogDirs}
    (h : (brokers.map BrokerLogDirs.broker).Nodup) : Dict.NodupKeys (assignmentItems brokers) := by
  have hkeys : Dict.keys (assignmentItems brokers) = brokers.flatMap fun b =>
      (b.logDirs.zipIdx.map Prod.snd).map (assignmentKey b.broker) := by
    simp only [Dict.keys, assignmentItems, List.map_flatMap, List.map_map]
    rfl
  unfold Dict.NodupKeys
  rw [hkeys, List.nodup_flatMap]
  refine ⟨?_, (List.pairwise_map.mp h).imp ?_⟩
  · intro b _
    rw [List.zipIdx_map_snd]
    exact List.Nodup.map (fun i j heq => (assignmentKey_injective heq).2) List.nodup_range'
  · intro b b' hne key hkey hkey'
    obtain ⟨i, -, rfl⟩ := List.mem_map.mp hkey
    obtain ⟨i', -, heq⟩ := List.mem_map.mp hkey'
    exact hne (assignmentKey_injective heq).1.symm

/-- Where no broker is described twice, no directory is lost. -/
theorem partitionAssignment_of_distinct {brokers : List BrokerLogDirs}
    (h : (brokers.map BrokerLogDirs.broker).Nodup) :
    partitionAssignment (.described brokers) = assignmentItems brokers := by
  have hupdate : Dict.update [] (assignmentItems brokers) = [] ++ assignmentItems brokers :=
    Dict.update_of_notMem (nodupKeys_assignmentItems h) (by simp [Dict.keys])
  exact hupdate

theorem mem_assignmentItems {brokers : List BrokerLogDirs} {e : Str × List Str} :
    e ∈ assignmentItems brokers ↔ ∃ b ∈ brokers, ∃ d ∈ b.logDirs.zipIdx,
      e = (assignmentKey b.broker d.2, d.1) := by
  simp only [assignmentItems, List.mem_flatMap, List.mem_map, eq_comm]

/-! ## Who holds partitions -/

/-- Some log directory of the broker holds a partition. -/
def BrokerLogDirs.holds (b : BrokerLogDirs) : Prop := ∃ dir ∈ b.logDirs, dir ≠ []

/-- The broker with an id holds a partition. -/
def HoldsPartition (brokers : List BrokerLogDirs) (brokerId : Int) : Prop :=
  ∃ b ∈ brokers, b.broker = brokerId ∧ b.holds

theorem holds_iff_zipIdx (b : BrokerLogDirs) : b.holds ↔ ∃ d ∈ b.logDirs.zipIdx, d.1 ≠ [] := by
  have hdirs : b.logDirs.zipIdx.map Prod.fst = b.logDirs := List.zipIdx_map_fst 0 b.logDirs
  unfold BrokerLogDirs.holds
  constructor
  · rintro ⟨dir, hdir, hne⟩
    rw [← hdirs] at hdir
    obtain ⟨d, hd, rfl⟩ := List.mem_map.mp hdir
    exact ⟨d, hd, hne⟩
  · rintro ⟨d, hd, hne⟩
    exact ⟨d.1, List.fst_mem_of_mem_zipIdx hd, hne⟩

/-- An assignment is drained of a broker if no key that begins with its digits has partitions. -/
theorem allStoragesDrained_iff {assignment : List (Str × List Str)}
    (hkeys : Dict.NodupKeys assignment) (hne : assignment ≠ []) (brokerId : Int) :
    allStoragesDrained assignment brokerId = true ↔
      ∀ e ∈ assignment, intText brokerId <+: e.1 → e.2 = [] := by
  have hany : allStoragesDrained assignment brokerId = true ↔
      ∀ key ∈ Dict.keys assignment, intText brokerId <+: key →
        Dict.get? assignment key = some [] := by
    unfold allStoragesDrained
    rw [if_neg hne]
    dsimp only
    split
    case isTrue hnone =>
      rw [List.filter_eq_nil_iff] at hnone
      refine iff_of_true rfl ?_
      intro key hkey hpre
      exact absurd (decide_eq_true hpre) (hnone key hkey)
    case isFalse =>
      simp
  rw [hany]
  constructor
  · intro h e he hpre
    have hget := h e.1 (List.mem_map_of_mem he) hpre
    rw [(Dict.mem_iff_get? hkeys).mp he] at hget
    exact Option.some.inj hget
  · intro h key hkey hpre
    obtain ⟨e, he, rfl⟩ := List.mem_map.mp hkey
    rw [(Dict.mem_iff_get? hkeys).mp he, h e he hpre]

theorem allStoragesDrained_described_iff {brokers : List BrokerLogDirs}
    (hdistinct : (brokers.map BrokerLogDirs.broker).Nodup)
    (hne : partitionAssignment (.described brokers) ≠ []) (brokerId : Int) :
    allStoragesDrained (partitionAssignment (.described brokers)) brokerId = true ↔
      ∀ b ∈ brokers, intText brokerId <+: intText b.broker → ¬ b.holds := by
  rw [allStoragesDrained_iff (partitionAssignment_nodup _) hne,
    partitionAssignment_of_distinct hdistinct]
  constructor
  · intro h b hb hpre hholds
    obtain ⟨d, hd, hpartitions⟩ := (holds_iff_zipIdx b).mp hholds
    have hkey := (prefix_assignmentKey_iff brokerId b.broker d.2).mpr hpre
    exact hpartitions (h _ (mem_assignmentItems.mpr ⟨b, hb, d, hd, rfl⟩) hkey)
  · intro h e he hkey
    obtain ⟨b, hb, d, hd, rfl⟩ := mem_assignmentItems.mp he
    have hpre := (prefix_assignmentKey_iff brokerId b.broker d.2).mp hkey
    by_contra hpartitions
    exact h b hb hpre ((holds_iff_zipIdx b).mpr ⟨d, hd, hpartitions⟩)

/-- The answer about a broker is right exactly if the broker holds a partition itself, or if none
of the others whose ids begin with its digits does. -/
theorem drain_detected_iff {raw : Str} {brokers : List BrokerLogDirs}
    {assignment : List (Str × List Str)} (hquery : logDirsQuery raw = some (.described brokers))
    (hparsed : parseLogDirsOutput raw = some assignment)
    (hdistinct : (brokers.map BrokerLogDirs.broker).Nodup) (hne : assignment ≠ [])
    (brokerId : Int) :
    (allStoragesDrained assignment brokerId = true ↔ ¬ HoldsPartition brokers brokerId) ↔
      HoldsPartition brokers brokerId ∨
        ∀ b ∈ brokers, b.broker ≠ brokerId → intText brokerId <+: intText b.broker →
          ¬ b.holds := by
  obtain rfl : partitionAssignment (.described brokers) = assignment := by
    rw [parseLogDirsOutput, hquery] at hparsed
    exact Option.some.inj hparsed
  rw [allStoragesDrained_described_iff hdistinct hne]
  constructor
  · intro h
    by_cases hholds : HoldsPartition brokers brokerId
    · exact .inl hholds
    · exact .inr fun b hb _ hpre => h.mpr hholds b hb hpre
  · rintro (hholds | hothers)
    · have hself := hholds
      obtain ⟨b, hb, rfl, hpartition⟩ := hself
      refine iff_of_false ?_ (not_not_intro hholds)
      exact fun h => h b hb List.prefix_rfl hpartition
    · constructor
      · rintro h ⟨b, hb, rfl, hpartition⟩
        exact h b hb List.prefix_rfl hpartition
      · intro hnone b hb hpre hpartition
        by_cases hid : b.broker = brokerId
        · exact hnone ⟨b, hb, hid, hpartition⟩
        · exact hothers b hb hid hpre hpartition

/-- The output about an empty broker and another one with a partition. -/
def emptyAndAnother (empty another : Nat) : Str :=
  "Querying brokers\n\x7b\"brokers\":[\x7b\"broker\":" ++ decimal empty ++
    ",\"logDirs\":[\x7b\"partitions\":[]\x7d]\x7d,\x7b\"broker\":" ++ decimal another ++
    ",\"logDirs\":[\x7b\"partitions\":[\x7b\"partition\":\"orders-0\"\x7d]\x7d]\x7d]\x7d\n"

/-- Two brokers whose ids do not begin alike. -/
theorem drain_detected_apart :
    let raw := emptyAndAnother 100 101
    let brokers : List BrokerLogDirs := [⟨100, [[]]⟩, ⟨101, [["orders-0"]]⟩]
    let assignment : List (Str × List Str) := [("100/0", []), ("101/0", ["orders-0"])]
    logDirsQuery raw = some (.described brokers) ∧ parseLogDirsOutput raw = some assignment ∧
      (allStoragesDrained assignment 100 = true ↔ ¬ HoldsPartition brokers 100) := by
  intro raw brokers assignment
  have hquery : logDirsQuery raw = some (.described brokers) := by decide +kernel
  have hparsed : parseLogDirsOutput raw = some assignment := by decide +kernel
  refine ⟨hquery, hparsed, ?_⟩
  refine (drain_detected_iff hquery hparsed (by decide) (by simp [assignment]) 100).mpr (.inr ?_)
  simp only [brokers, List.forall_mem_cons]
  refine ⟨fun h => absurd rfl h, fun _ hpre => absurd hpre (by decide), by simp⟩

/-- Broker 100 is empty, but it waits for the partitions of broker 1000. -/
theorem drain_waits_for_another :
    let raw := emptyAndAnother 100 1000
    let brokers : List BrokerLogDirs := [⟨100, [[]]⟩, ⟨1000, [["orders-0"]]⟩]
    let assignment : List (Str × List Str) := [("100/0", []), ("1000/0", ["orders-0"])]
    logDirsQuery raw = some (.described brokers) ∧ parseLogDirsOutput raw = some assignment ∧
      assignment ≠ [] ∧ ¬ HoldsPartition brokers 100 ∧
      allStoragesDrained assignment 100 = false := by
  intro raw brokers assignment
  have hquery : logDirsQuery raw = some (.described brokers) := by decide +kernel
  have hparsed : parseLogDirsOutput raw = some assignment := by decide +kernel
  refine ⟨hquery, hparsed, by simp [assignment], ?_, by decide⟩
  rintro ⟨b, hb, hid, dir, hdir, hpartition⟩
  simp only [brokers, List.mem_cons, List.not_mem_nil, or_false] at hb
  rcases hb with rfl | rfl
  · simp only [List.mem_singleton] at hdir
    exact hpartition hdir
  · exact absurd hid (by decide)

end KafkaCharm
