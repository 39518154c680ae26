import KafkaCharm.Lib.Text
import Mathlib.Data.Char
import Mathlib.Data.List.Lex

namespace KafkaCharm

open PyText

/-- The characters of a Juju application name. -/
def isNameChar (c : Char) : Bool := c.isLower || c.isDigit || c == '-'

/-- A Juju application name. -/
structure AppName where
  text : Str
  legal : ∀ c ∈ text, isNameChar c = true
  deriving DecidableEq, Repr

/-- The usual name of the application. -/
def AppName.kafka : AppName := ⟨"kafka", List.all_eq_true.mp (by decide)⟩

/-- What the broker app's own state contributes to a command: the name of the
app and the unit numbers on its peer relation, `none` before that relation exists. -/
structure Site where
  app : AppName
  peerUnits : Option (List Nat)

/-- `KafkaBroker.internal_address` on Kubernetes. -/
def internalAddress (app : AppName) (unitId : Nat) : Str :=
  app.text ++ "-" ++ decimal unitId ++ "." ++ app.text ++ "-endpoints"

/-- `SECURITY_PROTOCOL_PORTS[internal_auth].internal`, for `SASL_SSL` with `SCRAM-SHA-512`. -/
def internalPort : Nat := 19093

/-- `sorted` on strings: by code points. -/
def sortStrings (xs : List Str) : List Str := xs.mergeSort fun a b => !(b.lex a)

/-- `ClusterState.bootstrap_server_internal`. -/
def Site.bootstrapServerInternal (site : Site) : Str :=
  match site.peerUnits with
  | none => []
  | some units =>
    [','].intercalate
      (sortStrings (units.map fun u => internalAddress site.app u ++ ":" ++ decimal internalPort))

/-- `CharmedKafkaPaths(BROKER).client_properties`. -/
def clientProperties : Str := "/etc/kafka/client.properties"

/-- The script `run_bin_command` runs for a keyword. -/
def binScript (binKeyword : Str) : Str := "/opt/kafka/bin/kafka-" ++ binKeyword ++ ".sh"

/-- One entry of `opts` as an environment variable: split at the first `=`, quotes dropped. -/
def parseOpt (opt : Str) : Str × Str :=
  (opt.takeWhile (· ≠ '='), ((opt.dropWhile (· ≠ '=')).drop 1).filter (· ≠ '\''))

/-- What `exec` is called with. -/
structure Exec where
  argv : List Str
  env : List (Str × Str)
  deriving DecidableEq

/-- `Workload.run_bin_command`, up to the call of `exec`. -/
def runBinCommand (binKeyword : Str) (binArgs opts : List Str) : Exec where
  argv := split (binScript binKeyword ++ " " ++ join binArgs)
  env := opts.map parseOpt

/-! ## Sorting -/

theorem not_lex_iff {a b : Str} : (!(b.lex a)) = true ↔ a ≤ b := by
  rw [Bool.not_eq_true', ← Bool.not_eq_true, List.lex_eq_true_iff_lt]
  exact not_lt

theorem mem_sortStrings {xs : List Str} {x : Str} : x ∈ sortStrings xs ↔ x ∈ xs :=
  (List.mergeSort_perm xs _).mem_iff

theorem pairwise_sortStrings (xs : List Str) : (sortStrings xs).Pairwise (· ≤ ·) := by
  have htrans (a b c : Str) (hab : (!(b.lex a)) = true) (hbc : (!(c.lex b)) = true) :
      (!(c.lex a)) = true :=
    not_lex_iff.mpr (le_trans (not_lex_iff.mp hab) (not_lex_iff.mp hbc))
  have htotal (a b : Str) : ((!(b.lex a)) || (!(a.lex b))) = true := by
    rw [Bool.or_eq_true, not_lex_iff, not_lex_iff]
    exact le_total a b
  exact (List.pairwise_mergeSort htrans htotal xs).imp fun hle => not_lex_iff.mp hle

/-- Sorting forgets in which order the strings came. -/
theorem sortStrings_eq_of_perm {xs ys : List Str} (h : xs.Perm ys) :
    sortStrings xs = sortStrings ys := by
  have hperm : (sortStrings xs).Perm (sortStrings ys) :=
    ((List.mergeSort_perm xs _).trans h).trans (List.mergeSort_perm ys _).symm
  have hantisymm (a b : Str) (_ : a ∈ sortStrings xs) (_ : b ∈ sortStrings ys) (hab : a ≤ b)
      (hba : b ≤ a) : a = b := le_antisymm hab hba
  exact List.Perm.eq_of_pairwise hantisymm (pairwise_sortStrings xs) (pairwise_sortStrings ys) hperm

/-! ## The argument vector -/

theorem nameChar_not_space {c : Char} (h : isNameChar c = true) : isSpace c = false := by
  simp only [isNameChar, Bool.or_eq_true, beq_iff_eq] at h
  rcases h with (h | h) | rfl
  · have hrange : (decide (c.val ≥ 'a'.val) && decide (c.val ≤ 'z'.val)) = true := h
    rw [Bool.and_eq_true, decide_eq_true_eq, decide_eq_true_eq] at hrange
    have h1 : 97 ≤ c.toNat := hrange.1
    have h2 : c.toNat ≤ 122 := hrange.2
    simp [isSpace]
    omega
  · exact isSpace_of_isDigit h
  · decide

theorem AppName.spaceFree (app : AppName) : SpaceFree app.text :=
  fun c hc => nameChar_not_space (app.legal c hc)

theorem internalAddress_spaceFree (app : AppName) (u : Nat) :
    SpaceFree (internalAddress app u) := by
  simp only [internalAddress, spaceFree_append]
  exact ⟨⟨⟨⟨⟨app.spaceFree, by decide⟩, decimal_spaceFree u⟩, by decide⟩, app.spaceFree⟩,
    by decide⟩

theorem intercalate_spaceFree {sep : Str} (hsep : SpaceFree sep) {ws : List Str}
    (h : ∀ w ∈ ws, SpaceFree w) : SpaceFree (sep.intercalate ws) := by
  induction ws with
  | nil => simp
  | cons w ws ih =>
    cases ws with
    | nil => simpa using h w (by simp)
    | cons v vs =>
      rw [List.intercalate_cons_cons]
      simp only [spaceFree_append]
      exact ⟨⟨h w (by simp), hsep⟩, ih fun x hx => h x (by simp [hx])⟩

theorem bootstrapServerInternal_spaceFree (site : Site) :
    SpaceFree site.bootstrapServerInternal := by
  unfold Site.bootstrapServerInternal
  split
  · simp
  · apply intercalate_spaceFree (by decide)
    intro w hw
    have hw' := (List.mergeSort_perm _ _).mem_iff.mp hw
    obtain ⟨u, _, rfl⟩ := List.mem_map.mp hw'
    simp only [spaceFree_append]
    exact ⟨⟨internalAddress_spaceFree site.app u, by decide⟩, decimal_spaceFree _⟩

/-- The text that is split is the script followed by the arguments, all joined. -/
theorem argv_eq_split_join (binKeyword : Str) {binArgs : List Str} (hne : binArgs ≠ [])
    (opts : List Str) :
    (runBinCommand binKeyword binArgs opts).argv = split (join (binScript binKeyword :: binArgs)) := by
  obtain ⟨a, as, rfl⟩ := List.exists_cons_of_ne_nil hne
  simp [runBinCommand, join, List.intercalate_cons_cons]

/-- The executed vector is the script and the arguments exactly when no
argument is empty or holds white space. -/
theorem argv_eq_iff {binKeyword : Str} (hk : SpaceFree binKeyword) {binArgs : List Str}
    (hne : binArgs ≠ []) (opts : List Str) :
    (runBinCommand binKeyword binArgs opts).argv = binScript binKeyword :: binArgs ↔
      ∀ a ∈ binArgs, a ≠ [] ∧ SpaceFree a := by
  have hscript : binScript binKeyword ≠ [] ∧ SpaceFree (binScript binKeyword) := by
    unfold binScript
    refine ⟨by simp, ?_⟩
    simp only [spaceFree_append]
    exact ⟨⟨by decide, hk⟩, by decide⟩
  rw [argv_eq_split_join binKeyword hne, split_join_iff]
  simp [hscript]

end KafkaCharm
