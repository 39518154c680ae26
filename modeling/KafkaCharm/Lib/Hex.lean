import KafkaCharm.Lib.Text

namespace PyText

/-- The value of a hexadecimal digit. -/
def hexValue (c : Char) : Option Nat :=
  if c.isDigit then some (c.toNat - 48)
  else if 'a' ≤ c ∧ c ≤ 'f' then some (c.toNat - 87)
  else if 'A' ≤ c ∧ c ≤ 'F' then some (c.toNat - 55)
  else none

/-- `int(s, 16)` of a text of digits; `none` is the `ValueError`. -/
def hexInt (s : Str) : Option Nat :=
  if s = [] then none else s.foldlM (fun n c => (hexValue c).map (16 * n + ·)) 0

/-- One item of `bytes(...)`; `none` is the `ValueError`. -/
def byteOf (n : Nat) : Option UInt8 := if n < 256 then some (.ofNat n) else none

def upperHex (n : Nat) : Char := (Nat.digitChar n).toUpper

/-- A byte in two digits. -/
def byteText (b : UInt8) : Str := [upperHex (b.toNat / 16), upperHex (b.toNat % 16)]

/-- `AB:CD:0F:...`. -/
def hashText (bytes : List UInt8) : Str := [':'].intercalate (bytes.map byteText)

/-- `hex(b)[2:].upper()`. -/
def shortByteText (b : UInt8) : Str :=
  if b.toNat < 16 then [upperHex b.toNat] else byteText b

/-- `[0-9a-fA-F:]`. -/
def isHashChar (c : Char) : Bool := (hexValue c).isSome || c == ':'

theorem hexValue_upperHex {n : Nat} (h : n < 16) : hexValue (upperHex n) = some n := by
  have hall : ∀ k < 16, hexValue (upperHex k) = some k := by decide
  exact hall n h

theorem byte_halves (b : UInt8) : b.toNat / 16 < 16 ∧ b.toNat % 16 < 16 := by
  have hlt : b.toNat < 256 := b.toNat_lt
  omega

theorem hexInt_byteText (b : UInt8) : hexInt (byteText b) = some b.toNat := by
  obtain ⟨hhigh, hlow⟩ := byte_halves b
  simp only [hexInt, byteText, List.foldlM_cons, List.foldlM_nil, hexValue_upperHex hhigh,
    hexValue_upperHex hlow, Option.map_some, reduceCtorEq, if_false]
  show some _ = some _
  congr 1
  omega

theorem byteOf_toNat (b : UInt8) : byteOf b.toNat = some b := by
  rw [byteOf, if_pos b.toNat_lt, UInt8.ofNat_toNat]

theorem isHashChar_upperHex {n : Nat} (h : n < 16) : isHashChar (upperHex n) = true := by
  rw [isHashChar, hexValue_upperHex h]
  rfl

theorem mem_byteText {b : UInt8} {c : Char} (h : c ∈ byteText b) :
    isHashChar c = true ∧ c ≠ ':' := by
  obtain ⟨hhigh, hlow⟩ := byte_halves b
  have hne : ∀ k < 16, upperHex k ≠ ':' := by decide
  simp only [byteText, List.mem_cons, List.not_mem_nil, or_false] at h
  rcases h with rfl | rfl
  · exact ⟨isHashChar_upperHex hhigh, hne _ hhigh⟩
  · exact ⟨isHashChar_upperHex hlow, hne _ hlow⟩

theorem hashText_cons_cons (a b : UInt8) (bytes : List UInt8) :
    hashText (a :: b :: bytes) = byteText a ++ ':' :: hashText (b :: bytes) := by
  simp [hashText, List.intercalate_cons_cons]

theorem mem_hashText {bytes : List UInt8} {c : Char} (h : c ∈ hashText bytes) :
    isHashChar c = true := by
  induction bytes with
  | nil => simp [hashText] at h
  | cons a bytes ih =>
    cases bytes with
    | nil => exact (mem_byteText (by simpa [hashText] using h)).1
    | cons b bytes =>
      rw [hashText_cons_cons, List.mem_append, List.mem_cons] at h
      rcases h with h | rfl | h
      · exact (mem_byteText h).1
      · decide
      · exact ih h

theorem length_hashText (b : UInt8) (bytes : List UInt8) :
    (hashText (b :: bytes)).length = 3 * bytes.length + 2 := by
  induction bytes generalizing b with
  | nil => simp [hashText, byteText]
  | cons a bytes ih =>
    rw [hashText_cons_cons, List.length_append, List.length_cons, ih, List.length_cons]
    simp only [byteText, List.length_cons, List.length_nil]
    omega

/-- The bytes of a text of the first kind; `none` is the `ValueError`. -/
def hashBytes (hash : Str) : Option (List UInt8) :=
  (hash.splitOn ':').mapM fun s => (hexInt s).bind byteOf

theorem mapM_byteText (bytes : List UInt8) :
    (bytes.map byteText).mapM (fun s => (hexInt s).bind byteOf) = some bytes := by
  induction bytes with
  | nil => rfl
  | cons b bytes ih =>
    rw [List.map_cons, List.mapM_cons, ih, hexInt_byteText, Option.bind_some, byteOf_toNat]
    rfl

theorem hashBytes_hashText {bytes : List UInt8} (h : bytes ≠ []) :
    hashBytes (hashText bytes) = some bytes := by
  have hsplit : (hashText bytes).splitOn ':' = bytes.map byteText := by
    apply List.splitOn_intercalate
    · intro s hs hmem
      obtain ⟨b, -, rfl⟩ := List.mem_map.mp hs
      exact (mem_byteText hmem).2 rfl
    · simpa using h
  rw [hashBytes, hsplit, mapM_byteText]

end PyText
