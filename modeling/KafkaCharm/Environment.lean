import KafkaCharm.ServerProperties

namespace KafkaCharm

open PyText

/-! ## Variables -/

/-- `"".join(var.split("=", maxsplit=1)[0])`. -/
def envKey (var : Str) : Str := var.takeWhile (· ≠ '=')

/-- `"".join(var.split("=", maxsplit=1)[1:])`. -/
def envValue (var : Str) : Str := (var.dropWhile (· ≠ '=')).drop 1

/-- A round of the loop of `map_env`: only a variable without a name is passed over. -/
def mapEnvRound (env : List (Str × Str)) (var : Str) : List (Str × Str) :=
  if envKey var = [] then env else Dict.set env (envKey var) (envValue var)

/-- `map_env`. -/
def mapEnv (vars : List Str) : List (Str × Str) := vars.foldl mapEnvRound []

/-- `f"{key}={value}"`. -/
def envLine (var : Str × Str) : Str := var.1 ++ '=' :: var.2

/-- The contents that `set_environment` writes. -/
def envText (env : List (Str × Str)) : Str := joinLines (env.map envLine)

/-- `ConfigManager.set_environment` with its own variables, on the file if there is one. -/
def setEnvironment (readText : Str → Str) (updatedEnvList : List Str) (file : Option Str) :
    Option Str :=
  let currentEnv := mapEnv (readLines readText file)
  some (envText (Dict.update currentEnv (mapEnv updatedEnvList)))

/-- A run of `set_environment` with the given updates. -/
def setEnvironments (readText : Str → Str) (updates : List (List Str)) (file : Option Str) :
    Option Str :=
  updates.foldl (fun file vars => setEnvironment readText vars file) file

/-- A line is cut at its first equals sign, so the value is kept as it is. -/
theorem envKey_envLine {var : Str × Str} (h : '=' ∉ var.1) : envKey (envLine var) = var.1 :=
  takeWhile_append_sep h var.2

theorem envValue_envLine {var : Str × Str} (h : '=' ∉ var.1) : envValue (envLine var) = var.2 := by
  have hkey : ∀ c ∈ var.1, decide (c ≠ '=') = true := by
    intro c hc
    rw [decide_eq_true_eq]
    rintro rfl
    exact h hc
  rw [envValue, envLine, List.dropWhile_append_of_pos hkey]
  simp

/-! ## What can be written and read again -/

/-- A variable that makes a line: its name is not empty and has no equals sign. -/
structure IsVariable (var : Str × Str) : Prop where
  named : var.1 ≠ []
  plain : '=' ∉ var.1
  oneLine : OneLine (envLine var)

/-- Variables that make an environment. -/
structure IsEnvironment (env : List (Str × Str)) : Prop where
  nodup : Dict.NodupKeys env
  legal : ∀ var ∈ env, IsVariable var

theorem IsEnvironment.update {env env' : List (Str × Str)} (h : IsEnvironment env)
    (h' : IsEnvironment env') : IsEnvironment (Dict.update env env') :=
  ⟨h.nodup.update env', Dict.forall_mem_update h.legal h'.legal⟩

theorem isVariable_split {var : Str} (hvar : OneLine var) (hkey : envKey var ≠ []) :
    IsVariable (envKey var, envValue var) := by
  have hname : '=' ∉ envKey var := by
    intro hc
    exact absurd (List.mem_takeWhile_imp hc) (by decide)
  have hkept : OneLine (envKey var) := hvar.of_subset (List.takeWhile_subset _)
  have hrest : OneLine (envValue var) :=
    hvar.of_subset (List.Subset.trans (List.drop_subset 1 _) (List.dropWhile_subset _))
  exact ⟨hkey, hname, oneLine_append.mpr ⟨hkept, oneLine_cons.mpr ⟨by decide, hrest⟩⟩⟩

theorem isEnvironment_round {env : List (Str × Str)} (h : IsEnvironment env) {var : Str}
    (hvar : OneLine var) : IsEnvironment (mapEnvRound env var) := by
  unfold mapEnvRound
  split
  case isTrue => exact h
  case isFalse hkey =>
    exact ⟨h.nodup.set _ _, Dict.forall_mem_set h.legal (isVariable_split hvar hkey)⟩

theorem isEnvironment_foldl {env : List (Str × Str)} (h : IsEnvironment env) {vars : List Str}
    (hvars : OneLines vars) : IsEnvironment (vars.foldl mapEnvRound env) := by
  induction vars generalizing env with
  | nil => exact h
  | cons var vars ih =>
    obtain ⟨hvar, hrest⟩ := oneLines_cons.mp hvars
    exact ih (isEnvironment_round h hvar) hrest

/-- Whatever is parsed from lines makes an environment. -/
theorem isEnvironment_mapEnv {vars : List Str} (h : OneLines vars) :
    IsEnvironment (mapEnv vars) :=
  isEnvironment_foldl ⟨Dict.NodupKeys.nil, by simp⟩ h

theorem mapEnvRound_envLine {var : Str × Str} (h : IsVariable var) (env : List (Str × Str)) :
    mapEnvRound env (envLine var) = Dict.set env var.1 var.2 := by
  rw [mapEnvRound, envKey_envLine h.plain, envValue_envLine h.plain, if_neg h.named]

theorem foldl_envLines {env : List (Str × Str)} (h : ∀ var ∈ env, IsVariable var)
    (start : List (Str × Str)) :
    (env.map envLine).foldl mapEnvRound start = Dict.update start env := by
  induction env generalizing start with
  | nil => rfl
  | cons var env ih =>
    obtain ⟨hvar, hrest⟩ := List.forall_mem_cons.mp h
    rw [List.map_cons, List.foldl_cons, mapEnvRound_envLine hvar, ih hrest, Dict.update_cons]

theorem mapEnv_envLines {env : List (Str × Str)} (h : IsEnvironment env) :
    mapEnv (env.map envLine) = env := by
  rw [mapEnv, foldl_envLines h.legal, Dict.update_of_notMem h.nodup (by simp [Dict.keys]),
    List.nil_append]

section
variable {readText : Str → Str} (hread : ∀ text, readText text = universalNewlines text)
include hread

/-- The file that is written parses to the variables it was written from. -/
theorem mapEnv_readLines_envText {env : List (Str × Str)} (h : IsEnvironment env) :
    mapEnv (readLines readText (some (envText env))) = env := by
  rw [readLines, hread]
  by_cases hnil : env = []
  · -- the empty file is read as one empty line, which has no name
    subst hnil
    decide
  · have hlines : OneLines (env.map envLine) :=
      List.forall_mem_map.mpr fun var hvar => (h.legal var hvar).oneLine
    rw [envText, lines_written (by simpa using hnil) hlines, mapEnv_envLines h]

theorem isEnvironment_readLines (file : Option Str) :
    IsEnvironment (mapEnv (readLines readText file)) :=
  isEnvironment_mapEnv (oneLines_readLines hread file)

/-- One update merges its variables into those of the file. -/
theorem mapEnv_setEnvironment {vars : List Str} (hvars : OneLines vars) (file : Option Str) :
    mapEnv (readLines readText (setEnvironment readText vars file)) =
      Dict.update (mapEnv (readLines readText file)) (mapEnv vars) :=
  mapEnv_readLines_envText hread
    ((isEnvironment_readLines hread file).update (isEnvironment_mapEnv hvars))

/-- The same update again leaves the file as it is. -/
theorem setEnvironment_again {vars : List Str} (hvars : OneLines vars) (file : Option Str) :
    setEnvironment readText vars (setEnvironment readText vars file) =
      setEnvironment readText vars file := by
  have hmerged := mapEnv_setEnvironment hread hvars file
  rw [setEnvironment, hmerged, Dict.update_update (isEnvironment_mapEnv hvars).nodup]
  rfl

theorem mapEnv_setEnvironments {updates : List (List Str)} (h : ∀ vars ∈ updates, OneLines vars)
    (file : Option Str) :
    mapEnv (readLines readText (setEnvironments readText updates file)) =
      updates.foldl (fun env vars => Dict.update env (mapEnv vars))
        (mapEnv (readLines readText file)) := by
  induction updates generalizing file with
  | nil => rfl
  | cons vars updates ih =>
    obtain ⟨hvars, hrest⟩ := List.forall_mem_cons.mp h
    rw [List.foldl_cons, ← mapEnv_setEnvironment hread hvars, ← ih hrest]
    rfl

end

/-- What is left of a variable after a run: its last value. -/
theorem get?_foldl_update {updates : List (List Str)} (h : ∀ vars ∈ updates, OneLines vars)
    (env : List (Str × Str)) (key : Str) :
    Dict.get? (updates.foldl (fun env vars => Dict.update env (mapEnv vars)) env) key =
      (updates.reverse.findSome? fun vars => Dict.get? (mapEnv vars) key).or
        (Dict.get? env key) := by
  induction updates generalizing env with
  | nil => simp
  | cons vars updates ih =>
    obtain ⟨hvars, hrest⟩ := List.forall_mem_cons.mp h
    rw [List.foldl_cons, ih hrest, Dict.get?_update (isEnvironment_mapEnv hvars).nodup,
      List.reverse_cons, List.findSome?_append, Option.or_assoc]
    simp

/-- A run of updates leaves the variables that were in the file, overridden by one update after
the other; a name has its last value, or the one it had if no update mentions it, and a value is
what stands behind the first equals sign. The last update again leaves the file as it is. -/
theorem environment_merged {readText : Str → Str}
    (hread : ∀ text, readText text = universalNewlines text) (file : Option Str)
    {updates : List (List Str)} (h : ∀ vars ∈ updates, OneLines vars) :
    let before := mapEnv (readLines readText file)
    let after := mapEnv (readLines readText (setEnvironments readText updates file))
    after = updates.foldl (fun env vars => Dict.update env (mapEnv vars)) before ∧
      (∀ key, Dict.get? after key =
        (updates.reverse.findSome? fun vars => Dict.get? (mapEnv vars) key).or
          (Dict.get? before key)) ∧
      (∀ vars key value, key ≠ [] → '=' ∉ key →
        mapEnv (vars ++ [key ++ '=' :: value]) = Dict.set (mapEnv vars) key value) ∧
      ∀ last ∈ updates.getLast?, setEnvironment readText last
        (setEnvironments readText updates file) = setEnvironments readText updates file := by
  intro before after
  have hafter : after = updates.foldl (fun env vars => Dict.update env (mapEnv vars)) before :=
    mapEnv_setEnvironments hread h file
  refine ⟨hafter, ?_, ?_, ?_⟩
  · intro key
    rw [hafter, get?_foldl_update h]
  · intro vars key value hkey hplain
    have hround : mapEnvRound (mapEnv vars) (envLine (key, value)) =
        Dict.set (mapEnv vars) key value := by
      rw [mapEnvRound, envKey_envLine hplain, envValue_envLine hplain, if_neg hkey]
    rw [mapEnv, List.foldl_append]
    exact hround
  · intro last hlast
    obtain ⟨earlier, rfl⟩ := List.getLast?_eq_some_iff.mp hlast
    have hrun : setEnvironments readText (earlier ++ [last]) file =
        setEnvironment readText last (setEnvironments readText earlier file) := by
      simp [setEnvironments]
    rw [hrun, setEnvironment_again hread (h last (by simp))]

/-- A foreign variable stays, a repeated one takes its last value, and empty lines go. -/
theorem environment_merged_twice :
    let file : Str := "PATH=/bin:/usr/bin\n\nKAFKA_OPTS=\n"
    let updates : List (List Str) := [["KAFKA_OPTS=-Da=b", "LEVEL=INFO"], ["LEVEL=DEBUG"]]
    setEnvironments universalNewlines updates (some file) =
        some "PATH=/bin:/usr/bin\nKAFKA_OPTS=-Da=b\nLEVEL=DEBUG" ∧
      setEnvironment universalNewlines ["LEVEL=DEBUG"]
          (setEnvironments universalNewlines updates (some file)) =
        setEnvironments universalNewlines updates (some file) := by
  intro file updates
  have honeLines : ∀ vars ∈ updates, OneLines vars := by decide
  have hmerged := environment_merged (fun _ => rfl) (some file) honeLines
  exact ⟨by decide +kernel, hmerged.2.2.2 _ rfl⟩

end KafkaCharm
