import KafkaCharm.Lib.Dict
import KafkaCharm.Lib.Hex

/-! `json.loads` on a `str`: RFC 8259 with `NaN`, `Infinity` and `-Infinity` besides, no control
characters in strings, and a later member of an object in place of an earlier one of the same
name. A string is a list of code points, since an escape can name a surrogate that no text
contains. Numbers keep their text. -/

namespace Json

open PyText

/-- A decoded document. -/
inductive Doc where
  | null
  | bool (b : Bool)
  | num (text : Str)
  | str (points : List Nat)
  | arr (items : List Doc)
  | obj (members : List (List Nat × Doc))

mutual

/-- Equality of documents, as a program. -/
def Doc.same : Doc → Doc → Bool
  | .null, .null => true
  | .bool a, .bool b => a == b
  | .num a, .num b => a == b
  | .str a, .str b => a == b
  | .arr xs, .arr ys => sameItems xs ys
  | .obj xs, .obj ys => sameMembers xs ys
  | _, _ => false

def sameItems : List Doc → List Doc → Bool
  | [], [] => true
  | x :: xs, y :: ys => x.same y && sameItems xs ys
  | _, _ => false

def sameMembers : List (List Nat × Doc) → List (List Nat × Doc) → Bool
  | [], [] => true
  | (k, x) :: xs, (l, y) :: ys => k == l && x.same y && sameMembers xs ys
  | _, _ => false

end

mutual

theorem Doc.eq_of_same : ∀ {a b : Doc}, a.same b = true → a = b := by
  intro a b h
  cases a with
  | null => cases b <;> first | rfl | cases h
  | bool a => cases b <;> simp_all [Doc.same]
  | num a => cases b <;> simp_all [Doc.same]
  | str a => cases b <;> simp_all [Doc.same]
  | arr xs =>
    cases b with
    | arr ys => exact congrArg Doc.arr (eq_of_sameItems (by simpa [Doc.same] using h))
    | _ => simp [Doc.same] at h
  | obj xs =>
    cases b with
    | obj ys => exact congrArg Doc.obj (eq_of_sameMembers (by simpa [Doc.same] using h))
    | _ => simp [Doc.same] at h

theorem eq_of_sameItems : ∀ {xs ys : List Doc}, sameItems xs ys = true → xs = ys := by
  intro xs ys h
  cases xs with
  | nil => cases ys <;> simp_all [sameItems]
  | cons x xs =>
    cases ys with
    | nil => simp [sameItems] at h
    | cons y ys =>
      simp only [sameItems, Bool.and_eq_true] at h
      rw [Doc.eq_of_same h.1, eq_of_sameItems h.2]

theorem eq_of_sameMembers : ∀ {xs ys : List (List Nat × Doc)},
    sameMembers xs ys = true → xs = ys := by
  intro xs ys h
  cases xs with
  | nil => cases ys <;> simp_all [sameMembers]
  | cons x xs =>
    cases ys with
    | nil => simp [sameMembers] at h
    | cons y ys =>
      obtain ⟨k, x⟩ := x
      obtain ⟨l, y⟩ := y
      simp only [sameMembers, Bool.and_eq_true, beq_iff_eq] at h
      rw [h.1.1, Doc.eq_of_same h.1.2, eq_of_sameMembers h.2]

end

namespace Doc

def isScalar : Doc → Bool
  | .arr _ => false
  | .obj _ => false
  | _ => true

mutual

theorem all_of_parts {P : Doc → Prop} (scalar : ∀ d : Doc, d.isScalar = true → P d)
    (arr : ∀ items : List Doc, (∀ d ∈ items, P d) → P (.arr items))
    (obj : ∀ members : List (List Nat × Doc), (∀ m ∈ members, P m.2) → P (.obj members)) :
    ∀ d : Doc, P d
  | .null => scalar .null rfl
  | .bool b => scalar (.bool b) rfl
  | .num text => scalar (.num text) rfl
  | .str ps => scalar (.str ps) rfl
  | .arr items => arr items (all_items_of_parts scalar arr obj items)
  | .obj members => obj members (all_members_of_parts scalar arr obj members)

theorem all_items_of_parts {P : Doc → Prop} (scalar : ∀ d : Doc, d.isScalar = true → P d)
    (arr : ∀ items : List Doc, (∀ d ∈ items, P d) → P (.arr items))
    (obj : ∀ members : List (List Nat × Doc), (∀ m ∈ members, P m.2) → P (.obj members)) :
    ∀ items : List Doc, ∀ d ∈ items, P d
  | [] => List.forall_mem_nil P
  | d :: items => List.forall_mem_cons.mpr
      ⟨all_of_parts scalar arr obj d, all_items_of_parts scalar arr obj items⟩

theorem all_members_of_parts {P : Doc → Prop} (scalar : ∀ d : Doc, d.isScalar = true → P d)
    (arr : ∀ items : List Doc, (∀ d ∈ items, P d) → P (.arr items))
    (obj : ∀ members : List (List Nat × Doc), (∀ m ∈ members, P m.2) → P (.obj members)) :
    ∀ members : List (List Nat × Doc), ∀ m ∈ members, P m.2
  | [] => List.forall_mem_nil _
  | (_, d) :: members => List.forall_mem_cons.mpr
      ⟨all_of_parts scalar arr obj d, all_members_of_parts scalar arr obj members⟩

end

/-- Induction on a document: a scalar, an array, or an object. -/
@[elab_as_elim]
theorem induction {motive : Doc → Prop} (d : Doc)
    (scalar : ∀ d : Doc, d.isScalar = true → motive d)
    (arr : ∀ items : List Doc, (∀ d ∈ items, motive d) → motive (.arr items))
    (obj : ∀ members : List (List Nat × Doc), (∀ m ∈ members, motive m.2) →
      motive (.obj members)) : motive d :=
  all_of_parts scalar arr obj d

mutual

/-- The scalars of a document, from left to right. -/
def leaves : Doc → List Doc
  | .arr items => itemLeaves items
  | .obj members => memberLeaves members
  | d => [d]

def itemLeaves : List Doc → List Doc
  | [] => []
  | d :: items => d.leaves ++ itemLeaves items

def memberLeaves : List (List Nat × Doc) → List Doc
  | [] => []
  | (_, d) :: members => d.leaves ++ memberLeaves members

end

mutual

/-- The keys of all objects of a document. -/
def objectKeys : Doc → List (List Nat)
  | .arr items => itemKeys items
  | .obj members => memberKeys members
  | _ => []

def itemKeys : List Doc → List (List Nat)
  | [] => []
  | d :: items => d.objectKeys ++ itemKeys items

def memberKeys : List (List Nat × Doc) → List (List Nat)
  | [] => []
  | (key, d) :: members => key :: d.objectKeys ++ memberKeys members

end

theorem leaves_arr (items : List Doc) : (Doc.arr items).leaves = items.flatMap leaves := by
  rw [leaves]
  induction items with
  | nil => rfl
  | cons d items ih => rw [itemLeaves, ih, List.flatMap_cons]

theorem leaves_obj (members : List (List Nat × Doc)) :
    (Doc.obj members).leaves = members.flatMap fun m => m.2.leaves := by
  rw [leaves]
  induction members with
  | nil => rfl
  | cons m members ih => rw [memberLeaves, ih, List.flatMap_cons]

theorem objectKeys_scalar {d : Doc} (h : d.isScalar = true) : d.objectKeys = [] := by
  cases d with
  | arr items => cases h
  | obj members => cases h
  | _ => rfl

theorem objectKeys_arr (items : List Doc) :
    (Doc.arr items).objectKeys = items.flatMap objectKeys := by
  rw [objectKeys]
  induction items with
  | nil => rfl
  | cons d items ih => rw [itemKeys, ih, List.flatMap_cons]

theorem objectKeys_obj (members : List (List Nat × Doc)) :
    (Doc.obj members).objectKeys = members.flatMap fun m => m.1 :: m.2.objectKeys := by
  rw [objectKeys]
  induction members with
  | nil => rfl
  | cons m members ih => rw [memberKeys, ih, List.flatMap_cons]

end Doc

/-- The code points of a text. -/
def points (s : Str) : List Nat := s.map Char.toNat

/-- The text of code points; `none` where one of them is a surrogate. -/
def text? (ps : List Nat) : Option Str :=
  ps.mapM fun n => if n.isValidChar then some (Char.ofNat n) else none

/-- The white space between tokens. -/
def isGap (c : Char) : Bool := c == ' ' || c == '\t' || c == '\n' || c == '\r'

def skipGap (s : Str) : Str := s.dropWhile isGap

def hex4 (a b c d : Char) : Option Nat := do
  return ((← hexValue a) * 16 + (← hexValue b)) * 256 + ((← hexValue c) * 16 + (← hexValue d))

/-- The character of a one-letter escape. -/
def escape : Char → Option Nat
  | '"' => some 34
  | '\\' => some 92
  | '/' => some 47
  | 'b' => some 8
  | 'f' => some 12
  | 'n' => some 10
  | 'r' => some 13
  | 't' => some 9
  | _ => none

/-- The code units of a string after its opening quote, and what follows the closing one. -/
def scanString : Str → Option (List Nat × Str)
  | [] => none
  | '"' :: cs => some ([], cs)
  | '\\' :: 'u' :: a :: b :: c :: d :: cs => do
    let unit ← hex4 a b c d
    let (units, rest) ← scanString cs
    return (unit :: units, rest)
  | '\\' :: e :: cs => do
    let unit ← escape e
    let (units, rest) ← scanString cs
    return (unit :: units, rest)
  | c :: cs =>
    if c.toNat < 32 ∨ c = '\\' then none
    else do
      let (units, rest) ← scanString cs
      return (c.toNat :: units, rest)

/-- Two escapes that form a surrogate pair are one code point. -/
def joinSurrogates : List Nat → List Nat
  | hi :: lo :: us =>
    if 0xD800 ≤ hi ∧ hi ≤ 0xDBFF ∧ 0xDC00 ≤ lo ∧ lo ≤ 0xDFFF then
      (0x10000 + (hi - 0xD800) * 0x400 + (lo - 0xDC00)) :: joinSurrogates us
    else hi :: joinSurrogates (lo :: us)
  | us => us

/-- An integer part: `0`, or digits that do not start with it. -/
def scanInteger (s : Str) : Option (Str × Str) :=
  match s with
  | '0' :: cs => some (['0'], cs)
  | c :: cs =>
    if c.isDigit then some (c :: cs.takeWhile Char.isDigit, cs.dropWhile Char.isDigit) else none
  | [] => none

/-- A fraction, where there is one. -/
def scanFraction (s : Str) : Str × Str :=
  match s with
  | '.' :: cs =>
    if cs.takeWhile Char.isDigit = [] then ([], s)
    else ('.' :: cs.takeWhile Char.isDigit, cs.dropWhile Char.isDigit)
  | _ => ([], s)

/-- An exponent, where there is one. -/
def scanExponent (s : Str) : Str × Str :=
  match s with
  | e :: cs =>
    let sign := match cs with
      | '+' :: _ => ['+']
      | '-' :: _ => ['-']
      | _ => []
    let ds := cs.drop sign.length
    if (e = 'e' ∨ e = 'E') ∧ ds.takeWhile Char.isDigit ≠ [] then
      (e :: (sign ++ ds.takeWhile Char.isDigit), ds.dropWhile Char.isDigit)
    else ([], s)
  | [] => ([], s)

def scanNumber (s : Str) : Option (Doc × Str) := do
  let (sign, body) := match s with
    | '-' :: cs => (['-'], cs)
    | _ => ([], s)
  let (int, rest) ← scanInteger body
  let (frac, rest) := scanFraction rest
  let (exp, rest) := scanExponent rest
  return (.num (sign ++ int ++ frac ++ exp), rest)

/-- The words that are values. -/
def scanWord (s : Str) : Option (Doc × Str) :=
  match s with
  | 'n' :: 'u' :: 'l' :: 'l' :: cs => some (.null, cs)
  | 't' :: 'r' :: 'u' :: 'e' :: cs => some (.bool true, cs)
  | 'f' :: 'a' :: 'l' :: 's' :: 'e' :: cs => some (.bool false, cs)
  | 'N' :: 'a' :: 'N' :: cs => some (.num "NaN", cs)
  | 'I' :: 'n' :: 'f' :: 'i' :: 'n' :: 'i' :: 't' :: 'y' :: cs => some (.num "Infinity", cs)
  | '-' :: 'I' :: 'n' :: 'f' :: 'i' :: 'n' :: 'i' :: 't' :: 'y' :: cs =>
    some (.num "-Infinity", cs)
  | _ => none

mutual

/-- A value, and what follows it. Each character is met by at most two nested calls, so
twice the length of the text is fuel enough. -/
def scanValue : Nat → Str → Option (Doc × Str)
  | 0, _ => none
  | _ + 1, '"' :: cs => do
    let (units, rest) ← scanString cs
    return (.str (joinSurrogates units), rest)
  | n + 1, '[' :: cs =>
    match skipGap cs with
    | ']' :: rest => some (.arr [], rest)
    | cs => do
      let (items, rest) ← scanItems n cs
      return (.arr items, rest)
  | n + 1, '\x7b' :: cs =>
    match skipGap cs with
    | '\x7d' :: rest => some (.obj [], rest)
    | cs => do
      let (members, rest) ← scanMembers n cs
      return (.obj (members.foldl (fun d m => Dict.set d m.1 m.2) []), rest)
  | _ + 1, s => (scanWord s).or (scanNumber s)

/-- The items of an array that is not empty, up to its end. -/
def scanItems : Nat → Str → Option (List Doc × Str)
  | 0, _ => none
  | n + 1, s => do
    let (item, rest) ← scanValue n s
    match skipGap rest with
    | ',' :: rest =>
      let (items, rest) ← scanItems n (skipGap rest)
      return (item :: items, rest)
    | ']' :: rest => return ([item], rest)
    | _ => none

/-- The members of an object that is not empty, up to its end. -/
def scanMembers : Nat → Str → Option (List (List Nat × Doc) × Str)
  | 0, _ => none
  | n + 1, '"' :: cs => do
    let (units, rest) ← scanString cs
    match skipGap rest with
    | ':' :: rest =>
      let (value, rest) ← scanValue n (skipGap rest)
      match skipGap rest with
      | ',' :: rest =>
        let (members, rest) ← scanMembers n (skipGap rest)
        return ((joinSurrogates units, value) :: members, rest)
      | '\x7d' :: rest => return ([(joinSurrogates units, value)], rest)
      | _ => none
    | _ => none
  | _ + 1, _ => none

end

/-- `json.loads(s)`; `none` is a `JSONDecodeError`. -/
def loads (s : Str) : Option Doc := do
  let (value, rest) ← scanValue (2 * s.length + 2) (skipGap s)
  if skipGap rest = [] then return value else none

/-! ## Strings are shorter than their documents -/

theorem scanString_length {s rest : Str} {units : List Nat}
    (h : scanString s = some (units, rest)) : units.length < s.length := by
  induction s using scanString.induct generalizing units rest with
  | case1 => cases h
  | case2 cs =>
    simp only [scanString, Option.some.injEq, Prod.mk.injEq] at h
    simp [← h.1]
  | case3 a b c d cs ih =>
    simp only [scanString, Option.bind_eq_bind, Option.bind_eq_some_iff] at h
    obtain ⟨unit, _, ⟨us, r⟩, hus, heq⟩ := h
    cases heq
    have := ih hus
    simp only [List.length_cons]
    omega
  | case4 e cs hu ih =>
    rw [scanString] at h
    · simp only [Option.bind_eq_bind, Option.bind_eq_some_iff] at h
      obtain ⟨unit, _, ⟨us, r⟩, hus, heq⟩ := h
      cases heq
      have := ih hus
      simp only [List.length_cons]
      omega
    · exact hu
  | case5 c cs hquote hu he hbad =>
    rw [scanString, if_pos hbad] at h
    · cases h
    · exact hquote
    · exact hu
    · exact he
  | case6 c cs hquote hu he hbad ih =>
    rw [scanString, if_neg hbad] at h
    · simp only [Option.bind_eq_bind, Option.bind_eq_some_iff] at h
      obtain ⟨⟨us, r⟩, hus, heq⟩ := h
      cases heq
      have := ih hus
      simp only [List.length_cons]
      omega
    · exact hquote
    · exact hu
    · exact he

theorem joinSurrogates_length (us : List Nat) : (joinSurrogates us).length ≤ us.length := by
  induction us using joinSurrogates.induct with
  | case1 hi lo us hpair ih =>
    rw [joinSurrogates, if_pos hpair]
    simp only [List.length_cons]
    omega
  | case2 hi lo us hpair ih =>
    rw [joinSurrogates, if_neg hpair]
    simp only [List.length_cons] at ih ⊢
    omega
  | case3 us hshort =>
    rw [joinSurrogates]
    exact hshort

theorem scanWord_ne_str {s rest : Str} {v : Doc} (h : scanWord s = some (v, rest))
    (ps : List Nat) : v ≠ .str ps := by
  rintro rfl
  unfold scanWord at h
  split at h <;> cases h

theorem scanNumber_ne_str {s rest : Str} {v : Doc} (h : scanNumber s = some (v, rest))
    (ps : List Nat) : v ≠ .str ps := by
  rintro rfl
  simp only [scanNumber, Option.bind_eq_bind, Option.bind_eq_some_iff] at h
  obtain ⟨_, _, h⟩ := h
  cases h

theorem scanValue_string {n : Nat} {s rest : Str} {ps : List Nat}
    (h : scanValue n s = some (.str ps, rest)) : ps.length < s.length := by
  unfold scanValue at h
  split at h
  · cases h
  · simp only [Option.bind_eq_bind, Option.bind_eq_some_iff] at h
    obtain ⟨⟨units, r⟩, hunits, heq⟩ := h
    cases heq
    have hscan := scanString_length hunits
    have hjoin := joinSurrogates_length units
    simp only [List.length_cons]
    omega
  · split at h
    · cases h
    · simp only [Option.bind_eq_bind, Option.bind_eq_some_iff] at h
      obtain ⟨_, _, h⟩ := h
      cases h
  · split at h
    · cases h
    · simp only [Option.bind_eq_bind, Option.bind_eq_some_iff] at h
      obtain ⟨_, _, h⟩ := h
      cases h
  · cases Option.or_eq_some_iff.mp h with
    | inl hword => exact absurd rfl (scanWord_ne_str hword ps)
    | inr hnumber => exact absurd rfl (scanNumber_ne_str hnumber.2 ps)

/-- A document that is a string is longer than the string. -/
theorem loads_string_shorter {s : Str} {ps : List Nat} (h : loads s = some (.str ps)) :
    ps.length < s.length := by
  simp only [loads, Option.bind_eq_bind, Option.bind_eq_some_iff] at h
  obtain ⟨⟨v, rest⟩, hscan, hvalue⟩ := h
  split at hvalue
  · cases hvalue
    have hshort := scanValue_string hscan
    have hskip : (skipGap s).length ≤ s.length := (List.dropWhile_suffix isGap).length_le
    omega
  · cases hvalue

/-- The text of the code points of a text. -/
theorem text?_points (s : Str) : text? (points s) = some s := by
  induction s with
  | nil => rfl
  | cons c s ih =>
    unfold text? points at ih ⊢
    have hc : c.toNat.isValidChar := c.valid
    simp only [List.map_cons, List.mapM_cons, hc, if_true, Char.ofNat_toNat, ih]
    rfl

theorem length_of_text? {ps : List Nat} {s : Str} (h : text? ps = some s) :
    s.length = ps.length := by
  induction ps generalizing s with
  | nil =>
    cases h
    rfl
  | cons n ps ih =>
    unfold text? at ih h
    rw [List.mapM_cons, Option.bind_eq_bind, Option.bind_eq_some_iff] at h
    obtain ⟨c, _, h⟩ := h
    rw [Option.bind_eq_bind, Option.bind_eq_some_iff] at h
    obtain ⟨cs, hcs, h⟩ := h
    cases h
    simp [ih hcs]

theorem points_injective {s t : Str} (h : points s = points t) : s = t := by
  have htext := congrArg text? h
  rw [text?_points, text?_points] at htext
  exact Option.some.inj htext

/-! ## Objects -/

/-- The members of an object with the given names. -/
def named (fields : List (String × Doc)) : List (List Nat × Doc) :=
  fields.map fun e => (points e.1.toList, e.2)

/-- The member of an object under a name. -/
def member (members : List (List Nat × Doc)) (name : String) : Option Doc :=
  Dict.get? members (points name.toList)

theorem member_named (fields : List (String × Doc)) (name : String) :
    member (named fields) name = Dict.get? fields name := by
  unfold member named
  induction fields with
  | nil => rfl
  | cons e fields ih =>
    rw [List.map_cons, Dict.get?_cons, Dict.get?_cons, ih]
    by_cases h : e.1 = name
    · simp [h]
    · have hne : points e.1.toList ≠ points name.toList := by
        intro heq
        exact h (String.toList_inj.mp (points_injective heq))
      simp [h, hne]

end Json
