import KafkaCharm.Lib.Text

/-! The charm handles PEM texts; `cryptography` and `keytool` both load the certificate that a text
holds. `TLSManager.certificate_fingerprint` takes the digest with the hash algorithm of the
signature, and `keytool` with SHA-256. -/

namespace KafkaCharm

open PyText

/-- The hash algorithms that `cryptography` knows a certificate to be signed with. -/
inductive HashAlgorithm where
  | md5
  | sha1
  | sha224
  | sha256
  | sha384
  | sha512
  | sha3_224
  | sha3_256
  | sha3_384
  | sha3_512
  deriving DecidableEq, Repr

/-- `HashAlgorithm.digest_size`. -/
def HashAlgorithm.digestSize : HashAlgorithm → Nat
  | .md5 => 16
  | .sha1 => 20
  | .sha224 | .sha3_224 => 28
  | .sha256 | .sha3_256 => 32
  | .sha384 | .sha3_384 => 48
  | .sha512 | .sha3_512 => 64

/-- `x509.NameAttribute`: the name is a short name such as `CN`, or a dotted number. -/
structure NameAttribute where
  name : Str
  value : Str
  name_ne : name ≠ []
  name_chars : ∀ c ∈ name, c.isAlphanum = true ∨ c = '.'
  deriving DecidableEq, Repr

/-- `x509.RelativeDistinguishedName`, which is never empty. -/
structure Rdn where
  attributes : List NameAttribute
  attributes_ne : attributes ≠ []
  deriving DecidableEq, Repr

/-- `x509.Name`. -/
abbrev Name := List Rdn

structure KeyUsage where
  keyCertSign : Bool
  crlSign : Bool
  deriving DecidableEq, Repr

/-- What the charm asks of a certificate besides its name and digests. `basicConstraints`
holds the `ca` flag. -/
structure CertProfile where
  signatureHashAlgorithm : Option HashAlgorithm
  basicConstraints : Option Bool
  keyUsage : Option KeyUsage
  deriving DecidableEq, Repr

namespace CertProfile

/-- `TLSManager.is_valid_leaf_certificate`. -/
def isValidLeafCertificate (c : CertProfile) : Bool :=
  match c.basicConstraints with
  | none => true
  | some ca =>
    match c.keyUsage with
    | none => !ca
    | some usage => !(usage.keyCertSign || usage.crlSign || ca)

/-- The signature has SHA-256 for its hash algorithm, or none at all. -/
def SignedWithSha256 (c : CertProfile) : Prop :=
  c.signatureHashAlgorithm = none ∨ c.signatureHashAlgorithm = some .sha256

instance (c : CertProfile) : Decidable c.SignedWithSha256 :=
  inferInstanceAs (Decidable (_ ∨ _))

end CertProfile

/-- A certificate. -/
structure X509 extends CertProfile where
  subject : Name
  digest : HashAlgorithm → List UInt8
  length_digest : ∀ a, (digest a).length = a.digestSize

/-- Lower case letters, digits and hyphens. -/
def AliasText (s : Str) : Prop := ∀ c ∈ s, c.isLower = true ∨ c.isDigit = true ∨ c = '-'

instance (s : Str) : Decidable (AliasText s) := List.decidableBAll _ s

theorem AliasText.append {s t : Str} (hs : AliasText s) (ht : AliasText t) : AliasText (s ++ t) :=
  List.forall_mem_append.mpr ⟨hs, ht⟩

theorem aliasText_decimal (n : Nat) : AliasText (decimal n) :=
  fun _ hc => .inr (.inl (isDigit_of_mem_decimal hc))

theorem AliasText.spaceFree {s : Str} (h : AliasText s) : SpaceFree s := by
  intro c hc
  rcases h c hc with hlower | hdigit | rfl
  · change (decide (c.val ≥ 'a'.val) && decide (c.val ≤ 'z'.val)) = true at hlower
    simp only [Bool.and_eq_true, decide_eq_true_eq, ge_iff_le, UInt32.le_iff_toNat_le] at hlower
    have hval : c.toNat = c.val.toNat := rfl
    have ha : 'a'.val.toNat = 97 := rfl
    have hz : 'z'.val.toNat = 122 := rfl
    simp [isSpace]
    omega
  · exact isSpace_of_isDigit hdigit
  · decide

/-- What loads and stores certificates outside the charm. `load` reads a PEM text, one of
`κ`; `escape` is how a value is written in a distinguished name; `fold` is what `keytool`
makes of an alias, which it keeps in lower case. -/
structure CertTools (κ : Type) where
  load : κ → X509
  escape : Str → Str
  fold : Str → Str
  /-- No digest by SHA3-256 is one by SHA-256. Those of the others differ in length. -/
  sha3_apart : ∀ c d, (load c).digest .sha3_256 ≠ (load d).digest .sha256
  /-- A comma is escaped by a backslash in front of it. -/
  comma_mem_escape : ∀ v, ',' ∈ escape v ↔ ',' ∈ v
  /-- A line feed is not escaped. -/
  lineFeed_mem_escape : ∀ v, '\n' ∈ escape v ↔ '\n' ∈ v
  fold_plain : ∀ s, AliasText s → fold s = s

namespace X509

/-- `TLSManager.DEFAULT_HASH_ALGORITHM`. -/
def defaultHashAlgorithm : HashAlgorithm := .sha256

/-- `TLSManager.certificate_fingerprint`. -/
def certificateFingerprint (c : X509) : List UInt8 :=
  c.digest (c.signatureHashAlgorithm.getD defaultHashAlgorithm)

/-- The fingerprint that `keytool -list` prints. -/
def sha256 (c : X509) : List UInt8 := c.digest .sha256

theorem length_sha256 (c : X509) : c.sha256.length = 32 := c.length_digest .sha256

theorem fingerprint_of_signed {c : X509} (h : c.SignedWithSha256) :
    c.certificateFingerprint = c.sha256 := by
  rcases h with h | h
  · rw [certificateFingerprint, h]
    rfl
  · rw [certificateFingerprint, h]
    rfl

end X509

namespace CertTools

variable {κ : Type} (k : CertTools κ)

/-- The digest of one certificate under the algorithm of its signature is the SHA-256
digest of another only if the algorithm is SHA-256. -/
theorem signed_of_fingerprint_eq {c d : κ}
    (h : (k.load c).certificateFingerprint = (k.load d).sha256) :
    (k.load c).SignedWithSha256 := by
  have hlength := congrArg List.length h
  rw [X509.length_sha256, X509.certificateFingerprint, X509.length_digest] at hlength
  cases halg : (k.load c).signatureHashAlgorithm with
  | none => exact .inl halg
  | some alg =>
    rw [halg, Option.getD_some] at hlength
    cases alg with
    | sha256 => exact .inr halg
    | sha3_256 =>
      rw [X509.certificateFingerprint, halg] at h
      exact absurd h (k.sha3_apart c d)
    | md5 | sha1 | sha224 | sha384 | sha512 | sha3_224 | sha3_384 | sha3_512 =>
      exact absurd hlength (by decide)

theorem fingerprint_eq_sha256_iff {c d : κ} :
    (k.load c).certificateFingerprint = (k.load d).sha256 ↔
      (k.load c).SignedWithSha256 ∧ (k.load c).sha256 = (k.load d).sha256 := by
  constructor
  · intro h
    have hsigned := k.signed_of_fingerprint_eq h
    exact ⟨hsigned, by rw [← X509.fingerprint_of_signed hsigned, h]⟩
  · rintro ⟨hsigned, h⟩
    rw [X509.fingerprint_of_signed hsigned, h]

/-! ## Distinguished names -/

/-- `NameAttribute.rfc4514_string`. -/
def attributeText (a : NameAttribute) : Str := a.name ++ '=' :: k.escape a.value

/-- `RelativeDistinguishedName.rfc4514_string`. -/
def rdnText (r : Rdn) : Str := ['+'].intercalate (r.attributes.map k.attributeText)

/-- `Name.rfc4514_string`: the last part comes first. -/
def rfc4514String (n : Name) : Str := [','].intercalate (n.reverse.map k.rdnText)

/-- `TLSManager.certificate_distinguished_name`. -/
def certificateDistinguishedName (cert : κ) : Str := k.rfc4514String (k.load cert).subject

end CertTools

/-! ## Certificates to try things on

`root` and `intermediate` are `tests/integration/data/root.pem` and `int.pem`. The others
are two self-signed CAs, of which `ecRoot` is signed with SHA-384. -/

inductive SampleCert where
  | root
  | intermediate
  | nextRoot
  | ecRoot
  deriving DecidableEq, Repr

namespace SampleCert

/-- The digests of the certificates, in words of four bytes. -/
def digestWords : SampleCert → HashAlgorithm → List Nat
  | .root, .md5 => [0xd58a51fe, 0x36cf78eb, 0x7b51469d, 0x07bc4538]
  | .root, .sha1 => [0x7f8a9287, 0xb54c9ba6, 0xf4f6d00b, 0x772f9098, 0xbbb37e74]
  | .root, .sha224 =>
    [0xa1fb78da, 0x377e55f3, 0x10720165, 0xe46db590, 0xf9036d31, 0x1dd4f8bf, 0x8d0c40f8]
  | .root, .sha256 =>
    [0xbb6f7539, 0xf7c4500b, 0x5279f863, 0xfb77dfed, 0x4493f09f, 0xb61a55ea, 0xdd4c3c00, 0x163bd702]
  | .root, .sha384 =>
    [0xc9911390, 0x31572840, 0xd6b30f6f, 0x04022a97, 0xae68ac89, 0x57270735, 0xbf6744d6, 0x8e4c4e41,
      0x72588bd2, 0xfe6cd10f, 0xb04dc00a, 0xdf340883]
  | .root, .sha512 =>
    [0x909720b3, 0x5e673c9c, 0xf4d556a3, 0xf27add77, 0x8c4b711c, 0xf896ecb5, 0x74c545d3, 0xb7c07653,
      0x57e7717f, 0x99d6bbb0, 0x0a91afb0, 0x97f722bd, 0xe1e4db38, 0xc061eb1f, 0xe80b5fa7,
      0x636298e4]
  | .root, .sha3_224 =>
    [0x9258a11e, 0x29ad6375, 0x741bbb8c, 0x318ac95b, 0x98123c60, 0xe64418c6, 0xdcca0d3d]
  | .root, .sha3_256 =>
    [0xbf4f3198, 0x9f3302de, 0x7ba21ea6, 0xdf6a2196, 0xe47692ba, 0x6aa90784, 0x27167d90, 0x6331d4c1]
  | .root, .sha3_384 =>
    [0x53c956cb, 0xf012fba6, 0x9d77fa15, 0x4194d390, 0x57b2d678, 0x85dfd771, 0xa8f9c41c, 0x56dc6f44,
      0xda77c17a, 0xbae0c49d, 0x184e94f9, 0xaba032d2]
  | .root, .sha3_512 =>
    [0x2a3bea0f, 0x55a80477, 0xfbc947db, 0x027f8ed3, 0x03aaf734, 0xe9e352f3, 0xd32ca492, 0xcaea98bf,
      0x7b3abda7, 0xcdc15c61, 0x3ed331c1, 0x9ffa63ae, 0x8c9668d7, 0x9966d591, 0xe42b906c,
      0x2ca2d4b0]
  | .intermediate, .md5 => [0xaf955f9e, 0xcd00e3ee, 0xc598b193, 0xfcc927b7]
  | .intermediate, .sha1 => [0xa8abb9e4, 0x684db99c, 0x3f930246, 0x93925b87, 0xc8ead8a9]
  | .intermediate, .sha224 =>
    [0x414d4567, 0x08cbe9bc, 0x90ecb3d1, 0x3ed657d1, 0x4d8e3e9c, 0x273b400a, 0x18c18fc3]
  | .intermediate, .sha256 =>
    [0x2754487e, 0xebf1ef6f, 0xbe968a0f, 0x45ffc872, 0x3d040bbf, 0x9ab66f80, 0xe31519a1, 0xe3dd616d]
  | .intermediate, .sha384 =>
    [0x62353eb1, 0xc1358ce3, 0x1a2211c2, 0xcbe97665, 0x6ae17ac2, 0x4ea82ae6, 0xf1682b7d, 0xfa0bf7f8,
      0xe492f56a, 0xd055dfad, 0x589a5a46, 0xc2d8eba7]
  | .intermediate, .sha512 =>
    [0x3f24dfaf, 0xdca64259, 0x92de8f02, 0xa0852365, 0x757d8c6f, 0xbe96891f, 0x0033e84d, 0xffcc16b2,
      0x8e76ce4a, 0x23b13666, 0x68adea08, 0x632bfd75, 0x24940034, 0xbd1acb9d, 0x6504e1a2,
      0xef2ee348]
  | .intermediate, .sha3_224 =>
    [0x40119a79, 0x3840f885, 0xed69a809, 0xb523b8cd, 0x299c92a1, 0xc39400f5, 0xd3b40f56]
  | .intermediate, .sha3_256 =>
    [0xfb2e81f6, 0x8680546f, 0x9a77798e, 0x52dbb689, 0x5d5e88fb, 0x953093cb, 0x174f6464, 0x4fcff118]
  | .intermediate, .sha3_384 =>
    [0xd37866ad, 0xd6610187, 0x9342b97e, 0xc83b7e4a, 0x1d31ed86, 0xc1e283bf, 0x36937d7b, 0x3a8e373f,
      0xfcaf4c46, 0xcf31dae7, 0x07bd2e79, 0x802eb3a7]
  | .intermediate, .sha3_512 =>
    [0x52249509, 0x10136f83, 0xaec0c8c1, 0xf4e043a0, 0xd9f253f8, 0x531dbecb, 0xcf37ff7a, 0xed144513,
      0xab93d6aa, 0x89e2b829, 0xf90f5fa0, 0x49311dc8, 0x23c41497, 0xa57814d1, 0xedd7fdd7,
      0xe73c1b80]
  | .nextRoot, .md5 => [0xf0196f9e, 0x91c2dae8, 0xc79c1fe9, 0xcee5d418]
  | .nextRoot, .sha1 => [0x2f513bcb, 0xc3a8aedc, 0x24b8cebe, 0xe2ab19d0, 0x7d16ded6]
  | .nextRoot, .sha224 =>
    [0xbe069bed, 0x4fdd2bc0, 0xc414aa0a, 0xc7c9cdcd, 0x44099813, 0x6176d985, 0xa40d4bc3]
  | .nextRoot, .sha256 =>
    [0xe6dd22d8, 0x3f9c1cbf, 0x06cd397b, 0xff31ca30, 0xf3138045, 0x1ee0a08b, 0x56c6ff71, 0x6da8cdbd]
  | .nextRoot, .sha384 =>
    [0xaf11f583, 0xc137cfd9, 0x4c370cfc, 0x6d5d01cb, 0xa6d5eeaf, 0x216ebacc, 0xe96ec00b, 0x96a7cfdc,
      0x9cafdfc8, 0x2b701a70, 0x673e5af3, 0x0141ad27]
  | .nextRoot, .sha512 =>
    [0x4384d3bc, 0xdc9ed860, 0x2f48343f, 0x978178d9, 0x6fabab6e, 0xd5a7b689, 0x5550d103, 0xc6468a9d,
      0x6800bbbf, 0x57e38e2c, 0x575be039, 0x4a31473a, 0x802d5289, 0x986bd6a4, 0xf4485ead,
      0xc761e36f]
  | .nextRoot, .sha3_224 =>
    [0x0d234514, 0x457a923b, 0x4c73e1f2, 0x20950deb, 0x18d7b2ed, 0x0789575b, 0x86e41407]
  | .nextRoot, .sha3_256 =>
    [0xb5e51f28, 0xce04aaba, 0x702d2cf8, 0x0a7bf71e, 0x17bbec05, 0x6836f739, 0xede03d76, 0x33e83522]
  | .nextRoot, .sha3_384 =>
    [0x64f4c3f1, 0x000156c8, 0x2d8c93cc, 0x15acaef9, 0x43b428f6, 0x587d15d5, 0x6b501256, 0x349faa3a,
      0x419bb09b, 0xd9decb68, 0xceadaa84, 0x5cd0c496]
  | .nextRoot, .sha3_512 =>
    [0x43181bee, 0x30f3ff77, 0x4f48b5bf, 0x6846b447, 0xc5b9416f, 0x0236c3da, 0x42eb7bce, 0x1cd1cf1d,
      0x0d8da8ae, 0x292dcc52, 0xf58921c8, 0xa483717f, 0xcd42b22a, 0xf345bc27, 0x61c0eced,
      0x22e1ee69]
  | .ecRoot, .md5 => [0xc58ca3fa, 0x9cb0ba99, 0xeded8dea, 0xfd314664]
  | .ecRoot, .sha1 => [0xecc473a9, 0x67b5fa29, 0x390b25f3, 0x4bae6717, 0x72feca40]
  | .ecRoot, .sha224 =>
    [0x6757b33c, 0x0e5aaa99, 0xd8ff1ea5, 0xa79cdc27, 0xbad2adc7, 0xa8aeb329, 0xfe7c23be]
  | .ecRoot, .sha256 =>
    [0x81e88eae, 0x1f1175bf, 0xa1d1500b, 0x402301a4, 0xccc905d8, 0x2656a0a6, 0x3134251a, 0xe563505e]
  | .ecRoot, .sha384 =>
    [0xe6fc49b5, 0x24a913f7, 0x29aedefa, 0xd8348d68, 0x163026fc, 0x76f55a84, 0x2913c1fc, 0x1878e423,
      0x6b6a4e9f, 0x9f42d24c, 0x7bc2a937, 0x00ecfd80]
  | .ecRoot, .sha512 =>
    [0x70621a1e, 0x8aaea08f, 0xbe69497a, 0x98af6cf4, 0xeb7b1fa3, 0x7a6cce99, 0xef7034cb, 0x7424b7ca,
      0x76ed912c, 0xdbcb328d, 0x0fbc62fc, 0x718e6c6f, 0x8f403a03, 0xc692d187, 0x5832d518,
      0xcaec9f30]
  | .ecRoot, .sha3_224 =>
    [0x7e6c5b42, 0x52607a99, 0xcf15d0e0, 0x5970adcb, 0xb8f825cf, 0x014602f3, 0xee26c71c]
  | .ecRoot, .sha3_256 =>
    [0x16644e3b, 0x81c802f9, 0x5effe817, 0xc043fb35, 0x0d0c6b73, 0x8076f107, 0xdf9fd7c4, 0xe6b73b57]
  | .ecRoot, .sha3_384 =>
    [0x15032435, 0xe2c75a09, 0x4bc9e6cd, 0x5c639411, 0x9b57d7dc, 0x7216ea08, 0xac6269d1, 0xfe194096,
      0x0e46e6b0, 0x14dfb071, 0xdf78b17e, 0x7b8d41fd]
  | .ecRoot, .sha3_512 =>
    [0x43a2f521, 0x42b1dce8, 0x2042d748, 0x44ec0e9a, 0xf48b4099, 0x20c7ef15, 0xe2ff2970, 0x6153b3ac,
      0x07f49070, 0xa3687eff, 0xa2a9716d, 0x840ceaeb, 0x422f41cc, 0x8b31840f, 0x495a6127,
      0x55100559]

/-- The four bytes of a word. -/
def wordBytes (w : Nat) : List UInt8 :=
  [.ofNat (w / 16777216), .ofNat (w / 65536), .ofNat (w / 256), .ofNat w]

theorem length_wordBytes (ws : List Nat) : (ws.flatMap wordBytes).length = 4 * ws.length := by
  induction ws with
  | nil => rfl
  | cons w ws ih =>
    rw [List.flatMap_cons, List.length_append, ih, List.length_cons]
    simp only [wordBytes, List.length_cons, List.length_nil]
    omega

def rdn (name value : Str) (hne : name ≠ []) (hchars : ∀ c ∈ name, c.isAlphanum = true ∨ c = '.') :
    Rdn :=
  ⟨[⟨name, value, hne, hchars⟩], List.cons_ne_nil _ _⟩

def commonName (value : Str) : Rdn := rdn ['C', 'N'] value (by simp) (by simp)
def organization (value : Str) : Rdn := rdn ['O'] value (by simp) (by simp)
def state (value : Str) : Rdn := rdn ['S', 'T'] value (by simp) (by simp)
def country (value : Str) : Rdn := rdn ['C'] value (by simp) (by simp)

def subject : SampleCert → Name
  | .root => [country "GB", state "England", organization "Alice Ltd", commonName "root"]
  | .intermediate =>
    [country "AU", state "Some-State", organization "Internet Widgits Pty Ltd",
      commonName "intermediate"]
  | .nextRoot => [commonName "next-root"]
  | .ecRoot => [commonName "ec-root"]

def load (x : SampleCert) : X509 where
  subject := x.subject
  signatureHashAlgorithm := some (if x = .ecRoot then .sha384 else .sha256)
  digest a := (x.digestWords a).flatMap wordBytes
  length_digest a := by
    rw [length_wordBytes]
    cases x <;> cases a <;> rfl
  basicConstraints := some true
  keyUsage :=
    match x with
    | .root | .intermediate => some ⟨true, true⟩
    | .nextRoot | .ecRoot => none

/-- RFC 4514 puts a backslash in front of the characters that are special in a value. -/
def escape (v : Str) : Str :=
  v.flatMap fun c => if c ∈ ['\x22', '+', ',', ';', '<', '>', '\\'] then ['\\', c] else [c]

theorem mem_escape {c : Char} (hc : c ≠ '\\') {v : Str} : c ∈ escape v ↔ c ∈ v := by
  rw [escape, List.mem_flatMap]
  constructor
  · rintro ⟨d, hd, hmem⟩
    split at hmem
    · rcases List.mem_cons.mp hmem with h | h
      · exact absurd h hc
      · rwa [List.mem_singleton.mp h]
    · rwa [List.mem_singleton.mp hmem]
  · intro h
    refine ⟨c, h, ?_⟩
    split
    · simp
    · simp

theorem lower_plain {s : Str} (h : AliasText s) : lower s = s := by
  have hchar : ∀ c ∈ s, lowerChar c = c := by
    intro c hc
    have hrange : ¬ (65 ≤ c.toNat ∧ c.toNat < 91) := by
      rcases h c hc with hlower | hdigit | rfl
      · change (decide (c.val ≥ 'a'.val) && decide (c.val ≤ 'z'.val)) = true at hlower
        simp only [Bool.and_eq_true, decide_eq_true_eq, ge_iff_le,
          UInt32.le_iff_toNat_le] at hlower
        have hval : c.toNat = c.val.toNat := rfl
        have ha : 'a'.val.toNat = 97 := rfl
        omega
      · simp only [Char.isDigit, Bool.and_eq_true, decide_eq_true_eq, ge_iff_le,
          UInt32.le_iff_toNat_le] at hdigit
        have hval : c.toNat = c.val.toNat := rfl
        have h9 : '9'.val.toNat = 57 := rfl
        omega
      · decide
    rw [lowerChar, if_neg hrange]
  rw [lower, List.map_congr_left hchar, List.map_id']

/-- The tools on these certificates. -/
def tools : CertTools SampleCert where
  load := load
  escape := escape
  fold := lower
  sha3_apart c d := by cases c <;> cases d <;> decide
  comma_mem_escape _ := mem_escape (by decide)
  lineFeed_mem_escape _ := mem_escape (by decide)
  fold_plain _ h := lower_plain h

end SampleCert

end KafkaCharm
