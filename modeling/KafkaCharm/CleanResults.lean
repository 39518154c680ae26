import KafkaCharm.Lib.Json

namespace KafkaCharm

open PyText
open Json (Doc points)

/-! ## Texts of Python -/

/-- The lower case of an ASCII letter. -/
def lowerPoint (n : Nat) : Nat := if 65 ≤ n ∧ n ≤ 90 then n + 32 else n

/-- What Python makes of texts by tables that are not in the source: the lower case of any
text, the text of a number and of a value that is no scalar. -/
structure PythonText where
  lower : List Nat → List Nat
  number : Str → List Nat
  repr : Doc → List Nat
  lower_nil : lower [] = []
  /-- Lower case behind ASCII text stays, and the ASCII letters become lower case. -/
  lower_behind : ∀ ascii s, (∀ n ∈ ascii, n < 128) →
    lower (ascii ++ lower s) = ascii.map lowerPoint ++ lower s
  lower_letters : ∀ s, ∀ n ∈ lower s, ¬ (65 ≤ n ∧ n ≤ 90)
  /-- No dot and no underscore is the lower case of another character. -/
  lower_marks : ∀ s n, n ∈ lower s → n = 46 ∨ n = 95 → n ∈ s
  number_chars : ∀ text, ∀ n ∈ number text, n ∈ points "0123456789.-+einfa"

namespace PythonText

variable (P : PythonText)

/-- `_sanitise_key` of a text. -/
def sanitiseKey (key : List Nat) : List Nat :=
  P.lower ((key.map fun n => if n = 46 then 45 else n).map fun n => if n = 95 then 45 else n)

/-- The sanitised label as it is formatted. A label that is missing is `None`. -/
def cleanLabel : Option Doc → List Nat
  | none => points "None"
  | some .null => points "None"
  | some (.bool b) => if b then points "True" else points "False"
  | some (.num text) => P.number text
  | some (.str ps) => P.sanitiseKey ps
  | some d => P.repr d

/-- `f"{nested_key}.{clean_label_value}".lower()`. -/
def newKey (nestedKey : List Nat) (label : Option Doc) : List Nat :=
  P.lower (nestedKey ++ 46 :: P.cleanLabel label)

end PythonText

/-! ## Cleaning -/

/-- The label of the objects in a list under a key, for the keys that have one. -/
def labelKey (nestedKey : List Nat) : Option (List Nat) :=
  Dict.get? [(points "brokers", points "Broker"), (points "hosts", points "Host"),
    (points "goalSummary", points "goal")] nestedKey

/-- The members of an object. -/
def objectMembers : Doc → Option (List (List Nat × Doc))
  | .obj members => some members
  | _ => none

/-- `item.get(label_key)`. -/
def itemLabel (label : List Nat) (item : Doc) : Option Doc :=
  (objectMembers item).bind fun members => Dict.get? members label

mutual

/-- `BalancerManager.clean_results`. -/
def cleanResults (P : PythonText) : Doc → Doc
  | .arr items => .arr (cleanItems P items)
  | .obj members => .obj (cleanMembers P [] members)
  | value => value

def cleanItems (P : PythonText) : List Doc → List Doc
  | [] => []
  | item :: items => cleanResults P item :: cleanItems P items

/-- The loop over the members of an object. -/
def cleanMembers (P : PythonText) (nestedDict : List (List Nat × Doc)) :
    List (List Nat × Doc) → List (List Nat × Doc)
  | [] => nestedDict
  | (nestedKey, nestedValue) :: members =>
    let newKeys := buildNewKey P nestedKey nestedValue
    cleanMembers P
      (if newKeys.isEmpty then
        Dict.set nestedDict (P.sanitiseKey nestedKey) (cleanResults P nestedValue)
        else Dict.update nestedDict newKeys) members

/-- `BalancerManager._build_new_key`. -/
def buildNewKey (P : PythonText) (nestedKey : List Nat) : Doc → List (List Nat × Doc)
  | .arr items =>
    match labelKey nestedKey with
    | none => []
    | some label => newEntries P nestedKey label [] items
  | _ => []

/-- The loop over the items of a list, which passes over those that are no objects. -/
def newEntries (P : PythonText) (nestedKey label : List Nat) (nestedDict : List (List Nat × Doc)) :
    List Doc → List (List Nat × Doc)
  | [] => nestedDict
  | item :: items =>
    newEntries P nestedKey label
      (if (objectMembers item).isSome then
        Dict.set nestedDict (P.newKey nestedKey (itemLabel label item)) (cleanResults P item)
        else nestedDict) items

end

/-! ## Documents that can be cleaned -/

/-- The first document is a part of the second. -/
inductive Occurs : Doc → Doc → Prop where
  | here (d : Doc) : Occurs d d
  | item {d item : Doc} {items : List Doc} : item ∈ items → Occurs d item → Occurs d (.arr items)
  | member {d : Doc} {m : List Nat × Doc} {members : List (List Nat × Doc)} :
      m ∈ members → Occurs d m.2 → Occurs d (.obj members)

/-- The sanitised text of a label, as it stands in a key. -/
def PythonText.labelText (P : PythonText) : Option Doc → List Nat
  | some (.str ps) => P.sanitiseKey ps
  | label => (P.cleanLabel label).map lowerPoint

/-- A list under one of the keys has no objects, or only objects with distinct scalar labels. A
label that is missing counts as null. -/
def Labelled (P : PythonText) (m : List Nat × Doc) : Prop :=
  ∀ label items, labelKey m.1 = some label → m.2 = .arr items →
    (∀ item ∈ items, objectMembers item = none) ∨
      (∀ item ∈ items, objectMembers item ≠ none ∧
        ∀ d ∈ itemLabel label item, d.isScalar = true) ∧
        (items.map fun item => P.labelText (itemLabel label item)).Nodup

/-- In every object the sanitised keys are distinct, and the lists are labelled. -/
def Cleanable (P : PythonText) (v : Doc) : Prop :=
  ∀ members, Occurs (.obj members) v →
    (members.map fun m => P.sanitiseKey m.1).Nodup ∧ ∀ m ∈ members, Labelled P m

/-- The label and the objects of a member that is a list of objects. -/
def labelledItems (m : List Nat × Doc) : Option (List Nat × List Doc) :=
  match m.2 with
  | .arr items =>
    if items.any fun item => (objectMembers item).isSome then (labelKey m.1).map (·, items) else none
  | _ => none

/-- What becomes of a member: the objects of a labelled list are entries `<name>.<label>`. -/
def cleanedMember (P : PythonText) (m : List Nat × Doc) : List (List Nat × Doc) :=
  match labelledItems m with
  | none => [(P.sanitiseKey m.1, cleanResults P m.2)]
  | some (label, items) => items.map fun item =>
      (m.1.map lowerPoint ++ 46 :: P.labelText (itemLabel label item), cleanResults P item)

/-! ## Keys -/

/-- A key without capital ASCII letters and underscores. -/
def IsCleanKey (key : List Nat) : Prop := ∀ n ∈ key, ¬ (65 ≤ n ∧ n ≤ 90) ∧ n ≠ 95

theorem lowerPoint_clean {n : Nat} (h : n ≠ 95) :
    ¬ (65 ≤ lowerPoint n ∧ lowerPoint n ≤ 90) ∧ lowerPoint n ≠ 95 := by
  unfold lowerPoint
  split <;> omega

theorem isCleanKey_map_lowerPoint {s : List Nat} (h : 95 ∉ s) : IsCleanKey (s.map lowerPoint) := by
  intro n hn
  obtain ⟨k, hk, rfl⟩ := List.mem_map.mp hn
  exact lowerPoint_clean fun heq => h (heq ▸ hk)

theorem labelKey_eq_some {key label : List Nat} (h : labelKey key = some label) :
    key = points "brokers" ∨ key = points "hosts" ∨ key = points "goalSummary" := by
  unfold labelKey at h
  rw [Dict.get?_cons, Dict.get?_cons, Dict.get?_cons] at h
  split at h
  case isTrue hkey => exact .inl hkey.symm
  case isFalse =>
    split at h
    case isTrue hkey => exact .inr (.inl hkey.symm)
    case isFalse =>
      split at h
      case isTrue hkey => exact .inr (.inr hkey.symm)
      case isFalse => cases h

/-- The names are ASCII words, and they differ in lower case too. -/
theorem labelKey_plain {key label : List Nat} (h : labelKey key = some label) :
    (∀ n ∈ key, n < 128) ∧ 46 ∉ key.map lowerPoint ∧ 95 ∉ key := by
  obtain rfl | rfl | rfl := labelKey_eq_some h
  · decide
  · decide
  · decide

theorem labelKey_injective {key key' label label' : List Nat} (h : labelKey key = some label)
    (h' : labelKey key' = some label') (hlower : key.map lowerPoint = key'.map lowerPoint) :
    key = key' := by
  obtain rfl | rfl | rfl := labelKey_eq_some h <;> obtain rfl | rfl | rfl := labelKey_eq_some h' <;>
    first | rfl | exact absurd hlower (by decide)

namespace PythonText

variable (P : PythonText)

theorem isCleanKey_lower {s : List Nat} (h : 95 ∉ s) : IsCleanKey (P.lower s) := by
  intro n hn
  refine ⟨P.lower_letters s n hn, ?_⟩
  rintro rfl
  exact h (P.lower_marks s 95 hn (.inr rfl))

theorem isCleanKey_sanitiseKey (key : List Nat) : IsCleanKey (P.sanitiseKey key) := by
  apply isCleanKey_lower
  intro hmem
  obtain ⟨n, -, hn⟩ := List.mem_map.mp hmem
  split at hn <;> omega

theorem dot_notMem_sanitiseKey (key : List Nat) : 46 ∉ P.sanitiseKey key := by
  intro hmem
  obtain ⟨n, hn, heq⟩ := List.mem_map.mp (P.lower_marks _ 46 hmem (.inl rfl))
  obtain ⟨k, -, rfl⟩ := List.mem_map.mp hn
  split at heq <;> split at heq <;> omega

/-- The text of a scalar that is no string is ASCII and has no underscore. -/
theorem cleanLabel_plain {label : Option Doc} (hscalar : ∀ d ∈ label, d.isScalar = true)
    (hstr : ∀ ps, label ≠ some (.str ps)) : ∀ n ∈ P.cleanLabel label, n < 128 ∧ n ≠ 95 := by
  have hnone : ∀ n ∈ points "None", n < 128 ∧ n ≠ 95 := by decide
  have htrue : ∀ n ∈ points "True", n < 128 ∧ n ≠ 95 := by decide
  have hfalse : ∀ n ∈ points "False", n < 128 ∧ n ≠ 95 := by decide
  match label with
  | none => exact hnone
  | some .null => exact hnone
  | some (.bool true) => exact htrue
  | some (.bool false) => exact hfalse
  | some (.num text) =>
    have hdigits : ∀ n ∈ points "0123456789.-+einfa", n < 128 ∧ n ≠ 95 := by decide
    exact fun n hn => hdigits n (P.number_chars text n hn)
  | some (.str ps) => exact absurd rfl (hstr ps)
  | some (.arr items) => exact absurd (hscalar _ rfl) (by simp [Doc.isScalar])
  | some (.obj members) => exact absurd (hscalar _ rfl) (by simp [Doc.isScalar])

theorem labelText_of_not_str {label : Option Doc} (hstr : ∀ ps, label ≠ some (.str ps)) :
    P.labelText label = (P.cleanLabel label).map lowerPoint := by
  unfold labelText
  split
  case h_1 ps => exact absurd rfl (hstr ps)
  case h_2 => rfl

theorem isCleanKey_labelText {label : Option Doc} (hscalar : ∀ d ∈ label, d.isScalar = true) :
    IsCleanKey (P.labelText label) := by
  by_cases hstr : ∃ ps, label = some (.str ps)
  · obtain ⟨ps, rfl⟩ := hstr
    exact P.isCleanKey_sanitiseKey ps
  · push Not at hstr
    rw [P.labelText_of_not_str hstr]
    apply isCleanKey_map_lowerPoint
    intro hmem
    exact (P.cleanLabel_plain hscalar hstr 95 hmem).2 rfl

/-- A new key is the name and the sanitised text of the label, with a dot between them. -/
theorem newKey_eq {key : List Nat} (hkey : ∀ n ∈ key, n < 128) {label : Option Doc}
    (hscalar : ∀ d ∈ label, d.isScalar = true) :
    P.newKey key label = key.map lowerPoint ++ 46 :: P.labelText label := by
  by_cases hstr : ∃ ps, label = some (.str ps)
  · obtain ⟨ps, rfl⟩ := hstr
    have hbehind := P.lower_behind (key ++ [46])
      ((ps.map fun n => if n = 46 then 45 else n).map fun n => if n = 95 then 45 else n)
      (List.forall_mem_append.mpr ⟨hkey, by decide⟩)
    simpa [newKey, cleanLabel, labelText, sanitiseKey, lowerPoint] using hbehind
  · push Not at hstr
    have hplain := P.cleanLabel_plain hscalar hstr
    have hascii : ∀ n ∈ key ++ 46 :: P.cleanLabel label, n < 128 := by
      refine List.forall_mem_append.mpr ⟨hkey, List.forall_mem_cons.mpr ⟨by decide, ?_⟩⟩
      exact fun n hn => (hplain n hn).1
    have hbehind := P.lower_behind (key ++ 46 :: P.cleanLabel label) [] hascii
    rw [P.lower_nil, List.append_nil, List.append_nil] at hbehind
    rw [newKey, hbehind, P.labelText_of_not_str hstr, List.map_append, List.map_cons]
    rfl

end PythonText

/-! ## An object -/

section
variable {P : PythonText}

theorem cleanResults_scalar {d : Doc} (h : d.isScalar = true) : cleanResults P d = d := by
  cases d with
  | arr items => cases h
  | obj members => cases h
  | _ => rfl

theorem cleanResults_arr (items : List Doc) :
    cleanResults P (.arr items) = .arr (items.map (cleanResults P)) := by
  rw [cleanResults]
  congr 1
  induction items with
  | nil => rfl
  | cons item items ih => rw [cleanItems, ih, List.map_cons]

/-- Items that are no objects make no entries. -/
theorem newEntries_of_no_object {items : List Doc} (h : ∀ item ∈ items, objectMembers item = none)
    (key label : List Nat) (entries : List (List Nat × Doc)) :
    newEntries P key label entries items = entries := by
  induction items generalizing entries with
  | nil => rfl
  | cons item items ih =>
    obtain ⟨hitem, hrest⟩ := List.forall_mem_cons.mp h
    rw [newEntries, hitem, ih hrest]
    rfl

theorem newEntries_of_objects {items : List Doc} (h : ∀ item ∈ items, objectMembers item ≠ none)
    (key label : List Nat) (entries : List (List Nat × Doc)) :
    newEntries P key label entries items = Dict.update entries (items.map fun item =>
      (P.newKey key (itemLabel label item), cleanResults P item)) := by
  induction items generalizing entries with
  | nil => rfl
  | cons item items ih =>
    obtain ⟨hitem, hrest⟩ := List.forall_mem_cons.mp h
    rw [newEntries, if_pos (Option.isSome_iff_ne_none.mpr hitem), ih hrest, List.map_cons,
      Dict.update_cons]

theorem labelledItems_eq_some {m : List Nat × Doc} {label : List Nat} {items : List Doc}
    (h : labelledItems m = some (label, items)) :
    m.2 = .arr items ∧ labelKey m.1 = some label ∧
      ∃ item ∈ items, objectMembers item ≠ none := by
  unfold labelledItems at h
  split at h
  case h_2 => cases h
  case h_1 items' hvalue =>
    split at h
    case isFalse => cases h
    case isTrue hany =>
      obtain ⟨label', hlabel, heq⟩ := Option.map_eq_some_iff.mp h
      cases heq
      obtain ⟨item, hitem, hsome⟩ := List.any_eq_true.mp hany
      exact ⟨hvalue, hlabel, item, hitem, Option.isSome_iff_ne_none.mp hsome⟩

/-- A member that is no list of objects makes no entries of its own. -/
theorem buildNewKey_eq_nil {m : List Nat × Doc} (h : labelledItems m = none) :
    buildNewKey P m.1 m.2 = [] := by
  obtain ⟨key, value⟩ := m
  cases value with
  | arr items =>
    rw [buildNewKey]
    cases hlabel : labelKey key with
    | none => rfl
    | some label =>
      have hno : ∀ item ∈ items, objectMembers item = none := by
        simpa [labelledItems, hlabel] using h
      exact newEntries_of_no_object hno key label []
  | _ => rfl

/-- The objects of a labelled list, and that their labels are distinct scalars. -/
theorem labelled_objects {m : List Nat × Doc} {label : List Nat} {items : List Doc}
    (hlabelled : Labelled P m) (h : labelledItems m = some (label, items)) :
    (∀ item ∈ items, objectMembers item ≠ none ∧
      ∀ d ∈ itemLabel label item, d.isScalar = true) ∧
      (items.map fun item => P.labelText (itemLabel label item)).Nodup := by
  obtain ⟨hvalue, hlabel, item, hitem, hobject⟩ := labelledItems_eq_some h
  rcases hlabelled label items hlabel hvalue with hno | hobjects
  · exact absurd (hno item hitem) hobject
  · exact hobjects

/-- What a member becomes has distinct keys. -/
theorem nodupKeys_cleanedMember {m : List Nat × Doc} (hlabelled : Labelled P m) :
    Dict.NodupKeys (cleanedMember P m) := by
  unfold cleanedMember
  split
  case h_1 => simp [Dict.NodupKeys, Dict.keys]
  case h_2 label items hitems =>
    obtain ⟨-, hdistinct⟩ := labelled_objects hlabelled hitems
    unfold Dict.NodupKeys Dict.keys
    rw [List.map_map]
    refine List.Pairwise.map _ ?_ (List.pairwise_map.mp hdistinct)
    intro item item' hne heq
    exact hne (List.cons.inj (List.append_cancel_left heq)).2

/-- The new entries of a member, or the one that it is cleaned to. -/
theorem cleanedMember_eq {m : List Nat × Doc} (hlabelled : Labelled P m) :
    cleanedMember P m =
      if (buildNewKey P m.1 m.2).isEmpty then [(P.sanitiseKey m.1, cleanResults P m.2)]
      else buildNewKey P m.1 m.2 := by
  cases hitems : labelledItems m with
  | none =>
    rw [buildNewKey_eq_nil hitems]
    simp [cleanedMember, hitems]
  | some found =>
    obtain ⟨label, items⟩ := found
    obtain ⟨hvalue, hlabel, item, hitem, -⟩ := labelledItems_eq_some hitems
    obtain ⟨hobjects, -⟩ := labelled_objects hlabelled hitems
    have hnodup := nodupKeys_cleanedMember hlabelled
    have hentries : cleanedMember P m = items.map fun item =>
        (P.newKey m.1 (itemLabel label item), cleanResults P item) := by
      simp only [cleanedMember, hitems]
      apply List.map_congr_left
      intro item hitem
      rw [P.newKey_eq (labelKey_plain hlabel).1 (hobjects item hitem).2]
    have hbuilt : buildNewKey P m.1 m.2 = cleanedMember P m := by
      rw [hvalue, buildNewKey, hlabel]
      dsimp only
      rw [newEntries_of_objects (fun item hitem => (hobjects item hitem).1), ← hentries,
        Dict.update_of_notMem hnodup (by simp [Dict.keys]), List.nil_append]
    have hne : cleanedMember P m ≠ [] := by
      rw [hentries]
      simpa using List.ne_nil_of_mem hitem
    rw [hbuilt, if_neg (by simpa using hne)]

theorem cleanMembers_eq {members : List (List Nat × Doc)} (h : ∀ m ∈ members, Labelled P m)
    (nestedDict : List (List Nat × Doc)) :
    cleanMembers P nestedDict members =
      Dict.update nestedDict (members.flatMap (cleanedMember P)) := by
  induction members generalizing nestedDict with
  | nil => rfl
  | cons m members ih =>
    obtain ⟨hm, hrest⟩ := List.forall_mem_cons.mp h
    rw [List.flatMap_cons, Dict.update_append, ← ih hrest, cleanMembers, cleanedMember_eq hm]
    congr 1
    split <;> rfl

/-- The key of an entry tells whether it is a new one, and then from which list. -/
theorem cleanedMember_keys {m : List Nat × Doc} {key : List Nat}
    (h : key ∈ Dict.keys (cleanedMember P m)) :
    (key = P.sanitiseKey m.1 ∧ 46 ∉ key) ∨
      46 ∈ key ∧ (∃ label, labelKey m.1 = some label) ∧
        key.takeWhile (· ≠ 46) = m.1.map lowerPoint := by
  obtain ⟨entry, hentry, rfl⟩ := List.mem_map.mp h
  unfold cleanedMember at hentry
  split at hentry
  case h_1 =>
    obtain rfl := List.mem_singleton.mp hentry
    exact .inl ⟨rfl, P.dot_notMem_sanitiseKey m.1⟩
  case h_2 label items hitems =>
    obtain ⟨-, hlabel, -⟩ := labelledItems_eq_some hitems
    obtain ⟨item, -, rfl⟩ := List.mem_map.mp hentry
    refine .inr ⟨by simp, ⟨label, hlabel⟩, ?_⟩
    have hname : ∀ n ∈ m.1.map lowerPoint, decide (n ≠ 46) = true := by
      intro n hn
      rw [decide_eq_true_eq]
      rintro rfl
      exact (labelKey_plain hlabel).2.1 hn
    rw [List.takeWhile_append_of_pos hname]
    simp

/-- Keys that are distinct when sanitised make distinct entries. -/
theorem nodupKeys_cleanedMembers {members : List (List Nat × Doc)}
    (hkeys : (members.map fun m => P.sanitiseKey m.1).Nodup) (h : ∀ m ∈ members, Labelled P m) :
    Dict.NodupKeys (members.flatMap (cleanedMember P)) := by
  have hflat : Dict.keys (members.flatMap (cleanedMember P)) =
      members.flatMap fun m => Dict.keys (cleanedMember P m) := by
    simp [Dict.keys, List.map_flatMap]
  unfold Dict.NodupKeys
  rw [hflat, List.nodup_flatMap]
  refine ⟨fun m hm => nodupKeys_cleanedMember (h m hm), (List.pairwise_map.mp hkeys).imp ?_⟩
  intro m m' hne key hkey hkey'
  rcases cleanedMember_keys hkey with ⟨rfl, hdot⟩ | ⟨hdot, ⟨label, hlabel⟩, hname⟩
  · rcases cleanedMember_keys hkey' with ⟨heq, -⟩ | ⟨hdot', -, -⟩
    · exact hne heq
    · exact hdot hdot'
  · rcases cleanedMember_keys hkey' with ⟨-, hdot'⟩ | ⟨-, ⟨label', hlabel'⟩, hname'⟩
    · exact hdot' hdot
    · exact hne (by rw [labelKey_injective hlabel hlabel' (hname.symm.trans hname')])

/-- What becomes of an object: its members in their order, those that are labelled lists of
objects with an entry for each object. -/
theorem cleanResults_obj {members : List (List Nat × Doc)}
    (hkeys : (members.map fun m => P.sanitiseKey m.1).Nodup) (h : ∀ m ∈ members, Labelled P m) :
    cleanResults P (.obj members) = .obj (members.flatMap (cleanedMember P)) := by
  rw [cleanResults, cleanMembers_eq h,
    Dict.update_of_notMem (nodupKeys_cleanedMembers hkeys h) (by simp [Dict.keys]),
    List.nil_append]

/-- The values that a member becomes are the cleaned one, or the items of it. -/
theorem cleanedMember_values (m : List Nat × Doc) :
    (cleanedMember P m).map Prod.snd = [cleanResults P m.2] ∨
      cleanResults P m.2 = .arr ((cleanedMember P m).map Prod.snd) := by
  unfold cleanedMember
  split
  case h_1 => exact .inl rfl
  case h_2 label items hitems =>
    obtain ⟨hvalue, -⟩ := labelledItems_eq_some hitems
    refine .inr ?_
    rw [hvalue, cleanResults_arr, List.map_map]
    rfl

/-- The keys that a member becomes are clean. -/
theorem isCleanKey_cleanedMember {m : List Nat × Doc} (hlabelled : Labelled P m)
    {entry : List Nat × Doc} (h : entry ∈ cleanedMember P m) : IsCleanKey entry.1 := by
  unfold cleanedMember at h
  split at h
  case h_1 =>
    obtain rfl := List.mem_singleton.mp h
    exact P.isCleanKey_sanitiseKey m.1
  case h_2 label items hitems =>
    obtain ⟨-, hlabel, -⟩ := labelledItems_eq_some hitems
    obtain ⟨item, hitem, rfl⟩ := List.mem_map.mp h
    have hscalar := ((labelled_objects hlabelled hitems).1 item hitem).2
    refine List.forall_mem_append.mpr ⟨?_, List.forall_mem_cons.mpr ⟨by decide, ?_⟩⟩
    · exact isCleanKey_map_lowerPoint (labelKey_plain hlabel).2.2
    · exact P.isCleanKey_labelText hscalar

/-! ## A whole document -/

theorem cleanable_scalar {d : Doc} (h : d.isScalar = true) : Cleanable P d := by
  intro members hoccurs
  cases hoccurs with
  | here => cases h
  | item => cases h
  | member => cases h

theorem cleanable_arr {items : List Doc} :
    Cleanable P (.arr items) ↔ ∀ item ∈ items, Cleanable P item := by
  constructor
  · intro h item hitem members hoccurs
    exact h members (.item hitem hoccurs)
  · intro h members hoccurs
    cases hoccurs with
    | item hitem hinner => exact h _ hitem members hinner

theorem cleanable_obj {members : List (List Nat × Doc)} :
    Cleanable P (.obj members) ↔
      ((members.map fun m => P.sanitiseKey m.1).Nodup ∧ ∀ m ∈ members, Labelled P m) ∧
        ∀ m ∈ members, Cleanable P m.2 := by
  constructor
  · intro h
    refine ⟨h members (.here _), ?_⟩
    intro m hm inner hoccurs
    exact h inner (.member hm hoccurs)
  · rintro ⟨hhere, hparts⟩ inner hoccurs
    cases hoccurs with
    | here => exact hhere
    | member hm hinner => exact hparts _ hm inner hinner

theorem leaves_cleanedMember (m : List Nat × Doc) :
    ((cleanedMember P m).flatMap fun entry => entry.2.leaves) = (cleanResults P m.2).leaves := by
  have hvalues : ((cleanedMember P m).flatMap fun entry => entry.2.leaves) =
      ((cleanedMember P m).map Prod.snd).flatMap Doc.leaves := by
    rw [List.flatMap_map]
  rw [hvalues]
  rcases cleanedMember_values (P := P) m with hone | hitems
  · rw [hone, List.flatMap_singleton]
  · rw [hitems, Doc.leaves_arr]

/-- Cleaning keeps the scalars, and their order. -/
theorem leaves_cleanResults {v : Doc} (h : Cleanable P v) :
    (cleanResults P v).leaves = v.leaves := by
  induction v using Doc.induction with
  | scalar d hscalar => rw [cleanResults_scalar hscalar]
  | arr items ih =>
    have hitems := cleanable_arr.mp h
    rw [cleanResults_arr, Doc.leaves_arr, Doc.leaves_arr, List.flatMap_map]
    exact List.flatMap_congr fun item hitem => ih item hitem (hitems item hitem)
  | obj members ih =>
    obtain ⟨⟨hkeys, hlabelled⟩, hparts⟩ := cleanable_obj.mp h
    rw [cleanResults_obj hkeys hlabelled, Doc.leaves_obj, Doc.leaves_obj, List.flatMap_assoc]
    apply List.flatMap_congr
    intro m hm
    rw [leaves_cleanedMember, ih m hm (hparts m hm)]

/-- The keys below what a member becomes are those below the cleaned value. -/
theorem objectKeys_cleanedMember {m entry : List Nat × Doc} {key : List Nat}
    (hentry : entry ∈ cleanedMember P m) (hkey : key ∈ entry.2.objectKeys) :
    key ∈ (cleanResults P m.2).objectKeys := by
  have hvalue : entry.2 ∈ (cleanedMember P m).map Prod.snd := List.mem_map_of_mem hentry
  rcases cleanedMember_values (P := P) m with hone | hitems
  · rw [hone, List.mem_singleton] at hvalue
    rwa [← hvalue]
  · rw [hitems, Doc.objectKeys_arr]
    exact List.mem_flatMap.mpr ⟨entry.2, hvalue, hkey⟩

theorem isCleanKey_cleanResults {v : Doc} (h : Cleanable P v) :
    ∀ key ∈ (cleanResults P v).objectKeys, IsCleanKey key := by
  induction v using Doc.induction with
  | scalar d hscalar =>
    rw [cleanResults_scalar hscalar, Doc.objectKeys_scalar hscalar]
    exact List.forall_mem_nil _
  | arr items ih =>
    have hitems := cleanable_arr.mp h
    rw [cleanResults_arr, Doc.objectKeys_arr]
    intro key hkey
    obtain ⟨d, hd, hkey⟩ := List.mem_flatMap.mp hkey
    obtain ⟨item, hitem, rfl⟩ := List.mem_map.mp hd
    exact ih item hitem (hitems item hitem) key hkey
  | obj members ih =>
    obtain ⟨⟨hkeys, hlabelled⟩, hparts⟩ := cleanable_obj.mp h
    rw [cleanResults_obj hkeys hlabelled, Doc.objectKeys_obj]
    intro key hkey
    obtain ⟨entry, hentry, hkey⟩ := List.mem_flatMap.mp hkey
    obtain ⟨m, hm, hentry⟩ := List.mem_flatMap.mp hentry
    rcases List.mem_cons.mp hkey with rfl | hkey
    · exact isCleanKey_cleanedMember (hlabelled m hm) hentry
    · exact ih m hm (hparts m hm) key (objectKeys_cleanedMember hentry hkey)

/-- An object of the cleaned value of a member is one of an entry. -/
theorem occurs_cleanedMember {m : List Nat × Doc} {inner : List (List Nat × Doc)}
    (h : Occurs (.obj inner) (cleanResults P m.2)) :
    ∃ entry ∈ cleanedMember P m, Occurs (.obj inner) entry.2 := by
  have hvalue : ∃ value ∈ (cleanedMember P m).map Prod.snd, Occurs (.obj inner) value := by
    rcases cleanedMember_values (P := P) m with hone | hitems
    · exact ⟨_, by rw [hone]; exact List.mem_singleton_self _, h⟩
    · rw [hitems] at h
      cases h with
      | item hitem hinner => exact ⟨_, hitem, hinner⟩
  obtain ⟨value, hmem, hoccurs⟩ := hvalue
  obtain ⟨entry, hentry, rfl⟩ := List.mem_map.mp hmem
  exact ⟨entry, hentry, hoccurs⟩

/-- The objects of a document are, cleaned, in the cleaned document. -/
theorem occurs_cleanResults {v : Doc} (h : Cleanable P v) {members : List (List Nat × Doc)}
    (hoccurs : Occurs (.obj members) v) :
    Occurs (.obj (members.flatMap (cleanedMember P))) (cleanResults P v) := by
  induction v using Doc.induction with
  | scalar d hscalar =>
    cases hoccurs with
    | here => cases hscalar
    | item => cases hscalar
    | member => cases hscalar
  | arr items ih =>
    cases hoccurs with
    | item hitem hinner =>
      rw [cleanResults_arr]
      have hpart := ih _ hitem (cleanable_arr.mp h _ hitem) hinner
      exact .item (List.mem_map_of_mem hitem) hpart
  | obj outer ih =>
    obtain ⟨⟨hkeys, hlabelled⟩, hparts⟩ := cleanable_obj.mp h
    rw [cleanResults_obj hkeys hlabelled]
    cases hoccurs with
    | here => exact .here _
    | member hm hinner =>
      obtain ⟨entry, hentry, hoccurs⟩ :=
        occurs_cleanedMember (ih _ hm (hparts _ hm) hinner)
      exact .member (List.mem_flatMap.mpr ⟨_, hm, hentry⟩) hoccurs

end

/-- Rebalance results are cleaned without loss. -/
theorem results_cleaned (P : PythonText) (v : Doc) (h : Cleanable P v) :
    (cleanResults P v).leaves = v.leaves ∧
      (∀ key ∈ (cleanResults P v).objectKeys, IsCleanKey key) ∧
      ∀ members, Occurs (.obj members) v →
        cleanResults P (.obj members) = .obj (members.flatMap (cleanedMember P)) ∧
          Occurs (cleanResults P (.obj members)) (cleanResults P v) := by
  refine ⟨leaves_cleanResults h, isCleanKey_cleanResults h, ?_⟩
  intro members hoccurs
  obtain ⟨hkeys, hlabelled⟩ := h members hoccurs
  have hobj := cleanResults_obj hkeys hlabelled
  refine ⟨hobj, ?_⟩
  rw [hobj]
  exact occurs_cleanResults h hoccurs

theorem lowerPoint_lowerPoint (n : Nat) : lowerPoint (lowerPoint n) = lowerPoint n := by
  unfold lowerPoint
  split
  case isTrue => exact if_neg (by omega)
  case isFalse => rfl

/-- The texts of Python on ASCII texts and whole numbers. -/
def asciiText : PythonText where
  lower s := s.map lowerPoint
  number text := (points text).filter fun n => decide (n ∈ points "0123456789.-+einfa")
  repr _ := []
  lower_nil := rfl
  lower_behind ascii s _ := by
    simp [lowerPoint_lowerPoint]
  lower_letters s n hn := by
    obtain ⟨k, -, rfl⟩ := List.mem_map.mp hn
    unfold lowerPoint
    split <;> omega
  lower_marks s n hn hmark := by
    obtain ⟨k, hk, rfl⟩ := List.mem_map.mp hn
    have heq : lowerPoint k = k := by
      unfold lowerPoint at hmark ⊢
      split at hmark
      case isTrue => omega
      case isFalse h => exact if_neg h
    rwa [heq]
  number_chars text n hn := of_decide_eq_true (List.mem_filter.mp hn).2

/-- An object of scalars under other names than those of the labelled lists. -/
theorem cleanable_of_scalars {P : PythonText} {members : List (List Nat × Doc)}
    (hkeys : (members.map fun m => P.sanitiseKey m.1).Nodup)
    (hplain : ∀ m ∈ members, labelKey m.1 = none ∧ m.2.isScalar = true) :
    Cleanable P (.obj members) := by
  refine cleanable_obj.mpr ⟨⟨hkeys, ?_⟩, ?_⟩
  · intro m hm label items hlabel
    rw [(hplain m hm).1] at hlabel
    cases hlabel
  · intro m hm
    exact cleanable_scalar (hplain m hm).2

def brokerLoads : List Doc :=
  [.obj [(points "Broker", .num "0".toList), (points "BrokerState", .str (points "ALIVE"))],
    .obj [(points "Broker", .num "1".toList)]]

/-- The report of two brokers. -/
def loadReport : Doc :=
  .obj [(points "On_Demand", .bool true), (points "brokers", .arr brokerLoads)]

theorem cleanable_loadReport : Cleanable asciiText loadReport := by
  refine cleanable_obj.mpr ⟨⟨by decide, ?_⟩, ?_⟩
  · refine List.forall_mem_cons.mpr ⟨?_, List.forall_mem_singleton.mpr ?_⟩
    · intro label items hlabel
      cases hlabel
    · intro label items hlabel hitems
      cases hitems
      obtain rfl : points "Broker" = label := Option.some.inj (hlabel ▸ by decide)
      refine .inr ⟨?_, by decide⟩
      refine List.forall_mem_cons.mpr ⟨?_, List.forall_mem_singleton.mpr ?_⟩
      · exact ⟨Option.some_ne_none _, by rintro d ⟨⟩; rfl⟩
      · exact ⟨Option.some_ne_none _, by rintro d ⟨⟩; rfl⟩
  · refine List.forall_mem_cons.mpr ⟨cleanable_scalar rfl, List.forall_mem_singleton.mpr ?_⟩
    refine cleanable_arr.mpr (List.forall_mem_cons.mpr ⟨?_, List.forall_mem_singleton.mpr ?_⟩)
    · exact cleanable_of_scalars (by decide) (by decide)
    · exact cleanable_of_scalars (by decide) (by decide)

theorem results_cleaned_loadReport :
    (cleanResults asciiText loadReport).leaves = loadReport.leaves ∧
      cleanResults asciiText loadReport = .obj [(points "on-demand", .bool true),
        (points "brokers.0", .obj [(points "broker", .num "0".toList),
          (points "brokerstate", .str (points "ALIVE"))]),
        (points "brokers.1", .obj [(points "broker", .num "1".toList)])] := by
  obtain ⟨hleaves, -, hobjects⟩ := results_cleaned asciiText loadReport cleanable_loadReport
  refine ⟨hleaves, ?_⟩
  exact (hobjects _ (.here _)).1.trans (by rfl)

end KafkaCharm
