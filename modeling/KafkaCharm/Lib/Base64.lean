import KafkaCharm.Lib.Text

/-! `base64.b64decode` as it is called without a check of the alphabet: characters outside it are
passed over, and a complete padding ends the text. The decoded bytes are read as UTF-8. -/

namespace PyText

/-! ## Decoding -/

/-- The six bits that a character of the alphabet stands for. -/
def sixBits (c : Char) : Option Nat :=
  if 65 ≤ c.toNat ∧ c.toNat ≤ 90 then some (c.toNat - 65)
  else if 97 ≤ c.toNat ∧ c.toNat ≤ 122 then some (c.toNat - 71)
  else if 48 ≤ c.toNat ∧ c.toNat ≤ 57 then some (c.toNat + 4)
  else if c = '+' then some 62
  else if c = '/' then some 63
  else none

/-- The bytes of a text, of which the last `pos` characters of a group of four have been read,
with `left` the bits of them that are not yet in a byte; `none` is a `binascii.Error`. -/
def b64decodeFrom : Nat → Nat → Nat → Str → Option (List Nat)
  | pos, _, _, [] => if pos = 0 then some [] else none
  | pos, left, pads, c :: cs =>
    if c = '=' then
      if 2 ≤ pos then
        if 4 ≤ pos + (pads + 1) then some [] else b64decodeFrom pos left (pads + 1) cs
      else b64decodeFrom pos left pads cs
    else
      match sixBits c with
      | none => b64decodeFrom pos left pads cs
      | some bits =>
        match pos with
        | 0 => b64decodeFrom 1 bits 0 cs
        | 1 => (b64decodeFrom 2 (bits % 16) 0 cs).map ((left * 4 + bits / 16) :: ·)
        | 2 => (b64decodeFrom 3 (bits % 4) 0 cs).map ((left * 16 + bits / 4) :: ·)
        | _ => (b64decodeFrom 0 0 0 cs).map ((left * 64 + bits) :: ·)

/-- `base64.b64decode(s)`; text that is not ASCII raises as well. -/
def b64decode (s : Str) : Option (List Nat) :=
  if s.all (·.toNat < 128) then b64decodeFrom 0 0 0 s else none

/-- A byte that goes on with a character. -/
def isContinuation (b : Nat) : Bool := decide (0x80 ≤ b ∧ b ≤ 0xbf)

/-- `bytes.decode("utf-8")`; `none` is a `UnicodeDecodeError`. -/
def utf8decode : List Nat → Option Str
  | [] => some []
  | a :: bs =>
    if a < 0x80 then (utf8decode bs).map (Char.ofNat a :: ·)
    else
      match bs with
      | [] => none
      | b :: bs =>
        if 0xc2 ≤ a ∧ a ≤ 0xdf ∧ isContinuation b = true then
          (utf8decode bs).map (Char.ofNat (a % 32 * 64 + b % 64) :: ·)
        else
          match bs with
          | [] => none
          | c :: bs =>
            if 0xe0 ≤ a ∧ a ≤ 0xef ∧ isContinuation b = true ∧ isContinuation c = true ∧
                (a = 0xe0 → 0xa0 ≤ b) ∧ (a = 0xed → b < 0xa0) then
              (utf8decode bs).map (Char.ofNat ((a % 16 * 64 + b % 64) * 64 + c % 64) :: ·)
            else
              match bs with
              | [] => none
              | d :: bs =>
                if 0xf0 ≤ a ∧ a ≤ 0xf4 ∧ isContinuation b = true ∧ isContinuation c = true ∧
                    isContinuation d = true ∧ (a = 0xf0 → 0x90 ≤ b) ∧ (a = 0xf4 → b < 0x90) then
                  (utf8decode bs).map
                    (Char.ofNat (((a % 8 * 64 + b % 64) * 64 + c % 64) * 64 + d % 64) :: ·)
                else none

/-- `base64.b64decode(s).decode("utf-8")`. -/
def decodeText (s : Str) : Option Str := (b64decode s).bind utf8decode

/-! ## Encoding -/

/-- The character of six bits. -/
def b64Char (n : Nat) : Char :=
  if n < 26 then Char.ofNat (n + 65)
  else if n < 52 then Char.ofNat (n + 71)
  else if n < 62 then Char.ofNat (n - 4)
  else if n = 62 then '+'
  else '/'

/-- `base64.b64encode`. -/
def b64encode : List Nat → Str
  | [] => []
  | [a] => [b64Char (a / 4), b64Char (a % 4 * 16), '=', '=']
  | [a, b] => [b64Char (a / 4), b64Char (a % 4 * 16 + b / 16), b64Char (b % 16 * 4), '=']
  | a :: b :: c :: bytes =>
    b64Char (a / 4) :: b64Char (a % 4 * 16 + b / 16) :: b64Char (b % 16 * 4 + c / 64) ::
      b64Char (c % 64) :: b64encode bytes

/-! ## Lengths -/

theorem b64decodeFrom_length {pos left pads : Nat} {s : Str} {bytes : List Nat}
    (h : b64decodeFrom pos left pads s = some bytes) : bytes.length ≤ s.length := by
  induction s generalizing pos left pads bytes with
  | nil =>
    rw [b64decodeFrom] at h
    split at h
    · obtain rfl := Option.some.inj h
      simp
    · cases h
  | cons c cs ih =>
    have hskip (pos left pads : Nat) (h : b64decodeFrom pos left pads cs = some bytes) :
        bytes.length ≤ (c :: cs).length := by
      have := ih h
      simp only [List.length_cons]
      omega
    have hbyte (pos left byte : Nat)
        (h : (b64decodeFrom pos left 0 cs).map (byte :: ·) = some bytes) :
        bytes.length ≤ (c :: cs).length := by
      obtain ⟨rest, hrest, rfl⟩ := Option.map_eq_some_iff.mp h
      have := ih hrest
      simp only [List.length_cons]
      omega
    rw [b64decodeFrom] at h
    split at h
    · split at h
      · split at h
        · obtain rfl := Option.some.inj h
          simp
        · exact hskip _ _ _ h
      · exact hskip _ _ _ h
    · split at h
      · exact hskip _ _ _ h
      · split at h
        · exact hskip _ _ _ h
        · exact hbyte _ _ _ h
        · exact hbyte _ _ _ h
        · exact hbyte _ _ _ h

/-- Whatever the first character is, it makes no byte. -/
theorem b64decode_length {s : Str} {bytes : List Nat} (h : b64decode s = some bytes)
    (hne : s ≠ []) : bytes.length < s.length := by
  obtain ⟨c, cs, rfl⟩ := List.exists_cons_of_ne_nil hne
  have hrest (left pos pads : Nat) (h : b64decodeFrom pos left pads cs = some bytes) :
      bytes.length < (c :: cs).length := by
    have := b64decodeFrom_length h
    simp only [List.length_cons]
    omega
  unfold b64decode at h
  split at h
  case isFalse => cases h
  case isTrue =>
    rw [b64decodeFrom] at h
    split at h
    · exact hrest _ _ _ h
    · split at h
      · exact hrest _ _ _ h
      · exact hrest _ _ _ h

theorem utf8decode_length {bytes : List Nat} {s : Str} (h : utf8decode bytes = some s) :
    s.length ≤ bytes.length := by
  have hchar {c : Char} {rest : Option Str} {n : Nat} {s : Str}
      (ih : ∀ {t : Str}, rest = some t → t.length ≤ n) (h : rest.map (c :: ·) = some s) :
      s.length ≤ n + 1 := by
    obtain ⟨t, ht, rfl⟩ := Option.map_eq_some_iff.mp h
    have := ih ht
    simp only [List.length_cons]
    omega
  fun_induction utf8decode bytes generalizing s with
  | case1 =>
    obtain rfl := Option.some.inj h
    simp
  | case2 a bs _ ih => exact hchar ih h
  | case3 => cases h
  | case4 a b bs _ _ ih => exact (hchar ih h).trans (by simp)
  | case5 => cases h
  | case6 a b c bs _ _ _ ih => exact (hchar ih h).trans (by simp)
  | case7 => cases h
  | case8 a b c d bs _ _ _ _ ih => exact (hchar ih h).trans (by simp)
  | case9 => cases h

/-- Decoding makes a text shorter. -/
theorem decodeText_length {s t : Str} (h : decodeText s = some t) (hne : s ≠ []) :
    t.length < s.length := by
  obtain ⟨bytes, hbytes, htext⟩ := Option.bind_eq_some_iff.mp h
  have hbase := b64decode_length hbytes hne
  have hutf8 := utf8decode_length htext
  omega

/-! ## Round trip -/

theorem sixBits_b64Char {n : Nat} (h : n < 64) :
    b64Char n ≠ '=' ∧ sixBits (b64Char n) = some n ∧ (b64Char n).toNat < 128 := by
  have hall : ∀ k < 64, b64Char k ≠ '=' ∧ sixBits (b64Char k) = some k ∧
      (b64Char k).toNat < 128 := by decide
  exact hall n h

section
variable {n : Nat} (h : n < 64) (left pads : Nat) (cs : Str)
include h

theorem b64decodeFrom_first :
    b64decodeFrom 0 left pads (b64Char n :: cs) = b64decodeFrom 1 n 0 cs := by
  obtain ⟨hpad, hbits, -⟩ := sixBits_b64Char h
  rw [b64decodeFrom, if_neg hpad, hbits]
  rfl

theorem b64decodeFrom_second : b64decodeFrom 1 left pads (b64Char n :: cs) =
    (b64decodeFrom 2 (n % 16) 0 cs).map ((left * 4 + n / 16) :: ·) := by
  obtain ⟨hpad, hbits, -⟩ := sixBits_b64Char h
  rw [b64decodeFrom, if_neg hpad, hbits]
  rfl

theorem b64decodeFrom_third : b64decodeFrom 2 left pads (b64Char n :: cs) =
    (b64decodeFrom 3 (n % 4) 0 cs).map ((left * 16 + n / 4) :: ·) := by
  obtain ⟨hpad, hbits, -⟩ := sixBits_b64Char h
  rw [b64decodeFrom, if_neg hpad, hbits]
  rfl

theorem b64decodeFrom_fourth : b64decodeFrom 3 left pads (b64Char n :: cs) =
    (b64decodeFrom 0 0 0 cs).map ((left * 64 + n) :: ·) := by
  obtain ⟨hpad, hbits, -⟩ := sixBits_b64Char h
  rw [b64decodeFrom, if_neg hpad, hbits]
  rfl

end

/-- A group of four characters gives its three bytes. -/
theorem b64decodeFrom_group {a b c : Nat} (ha : a < 256) (hb : b < 256) (hc : c < 256) (cs : Str) :
    b64decodeFrom 0 0 0 (b64Char (a / 4) :: b64Char (a % 4 * 16 + b / 16) ::
      b64Char (b % 16 * 4 + c / 64) :: b64Char (c % 64) :: cs) =
      (b64decodeFrom 0 0 0 cs).map ([a, b, c] ++ ·) := by
  rw [b64decodeFrom_first (by omega), b64decodeFrom_second (by omega),
    b64decodeFrom_third (by omega), b64decodeFrom_fourth (by omega), Option.map_map,
    Option.map_map]
  congr 1
  funext bytes
  have h1 : a / 4 * 4 + (a % 4 * 16 + b / 16) / 16 = a := by omega
  have h2 : (a % 4 * 16 + b / 16) % 16 * 16 + (b % 16 * 4 + c / 64) / 4 = b := by omega
  have h3 : (b % 16 * 4 + c / 64) % 4 * 64 + c % 64 = c := by omega
  simp only [Function.comp_apply, h1, h2, h3]
  rfl

theorem b64decodeFrom_b64encode {bytes : List Nat} (h : ∀ b ∈ bytes, b < 256) :
    b64decodeFrom 0 0 0 (b64encode bytes) = some bytes := by
  induction bytes using b64encode.induct with
  | case1 => rfl
  | case2 a =>
    have ha := h a (by simp)
    have h1 : a / 4 * 4 + a % 4 * 16 / 16 = a := by omega
    rw [b64encode, b64decodeFrom_first (by omega), b64decodeFrom_second (by omega), h1]
    simp [b64decodeFrom]
  | case3 a b =>
    have ha := h a (by simp)
    have hb := h b (by simp)
    have h1 : a / 4 * 4 + (a % 4 * 16 + b / 16) / 16 = a := by omega
    have h2 : (a % 4 * 16 + b / 16) % 16 * 16 + b % 16 * 4 / 4 = b := by omega
    rw [b64encode, b64decodeFrom_first (by omega), b64decodeFrom_second (by omega),
      b64decodeFrom_third (by omega), h1, h2]
    simp [b64decodeFrom]
  | case4 a b c bytes ih =>
    have hrest : ∀ b ∈ bytes, b < 256 := fun b hb => h b (by simp [hb])
    rw [b64encode, b64decodeFrom_group (h a (by simp)) (h b (by simp)) (h c (by simp)), ih hrest]
    rfl

theorem ascii_b64encode {bytes : List Nat} (h : ∀ b ∈ bytes, b < 256) :
    ∀ c ∈ b64encode bytes, c.toNat < 128 := by
  have hchar (n : Nat) (hn : n < 64) : (b64Char n).toNat < 128 := (sixBits_b64Char hn).2.2
  induction bytes using b64encode.induct with
  | case1 => simp [b64encode]
  | case2 a =>
    have ha := h a (by simp)
    simp only [b64encode, List.forall_mem_cons]
    exact ⟨hchar _ (by omega), hchar _ (by omega), by decide, by decide, by simp⟩
  | case3 a b =>
    have ha := h a (by simp)
    have hb := h b (by simp)
    simp only [b64encode, List.forall_mem_cons]
    exact ⟨hchar _ (by omega), hchar _ (by omega), hchar _ (by omega), by decide, by simp⟩
  | case4 a b c bytes ih =>
    have ha := h a (by simp)
    have hb := h b (by simp)
    have hc := h c (by simp)
    simp only [b64encode, List.forall_mem_cons]
    exact ⟨hchar _ (by omega), hchar _ (by omega), hchar _ (by omega), hchar _ (by omega),
      ih fun b hb => h b (by simp [hb])⟩

theorem utf8decode_cons {a : Nat} (h : a < 0x80) (bytes : List Nat) :
    utf8decode (a :: bytes) = (utf8decode bytes).map (Char.ofNat a :: ·) := by
  rw [utf8decode.eq_def]
  exact if_pos h

theorem utf8decode_ascii {s : Str} (h : ∀ c ∈ s, c.toNat < 128) :
    utf8decode (s.map Char.toNat) = some s := by
  induction s with
  | nil => rfl
  | cons c s ih =>
    obtain ⟨hc, hrest⟩ := List.forall_mem_cons.mp h
    rw [List.map_cons, utf8decode_cons hc, ih hrest, Option.map_some, Char.ofNat_toNat]

/-- The encoding of ASCII text is read back. -/
theorem decodeText_b64encode {s : Str} (h : ∀ c ∈ s, c.toNat < 128) :
    decodeText (b64encode (s.map Char.toNat)) = some s := by
  have hbytes : ∀ b ∈ s.map Char.toNat, b < 256 := by
    rw [List.forall_mem_map]
    intro c hc
    have := h c hc
    omega
  have hascii : (b64encode (s.map Char.toNat)).all (·.toNat < 128) = true := by
    rw [List.all_eq_true]
    intro c hc
    exact decide_eq_true (ascii_b64encode hbytes c hc)
  rw [decodeText, b64decode, if_pos hascii, b64decodeFrom_b64encode hbytes, Option.bind_some,
    utf8decode_ascii h]

end PyText
