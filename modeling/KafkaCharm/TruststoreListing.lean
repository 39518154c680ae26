import KafkaCharm.Certificates
import KafkaCharm.Workload
import KafkaCharm.Lib.Regex
import KafkaCharm.Lib.Hex

/-! `get_trusted_certificates` reads what `keytool -list` prints with one regular expression. It takes
as little as it can for the alias, so it stops at the first comma behind the first character. -/

namespace KafkaCharm

open PyText PyRe

namespace TlsManager

/-- `trustedCertEntry`. -/
def entryMark : Str :=
  ['t', 'r', 'u', 's', 't', 'e', 'd', 'C', 'e', 'r', 't', 'E', 'n', 't', 'r', 'y']

/-- `.+?([0-9a-fA-F:]{95})\n`. -/
def fingerprintLine : Re :=
  .cat (.someLazy .dot) (.cat (.group 2 (.times 95 (.one isHashChar))) (.one (· == '\n')))

/-- Behind the alias and its comma: `.+?trustedCertEntry.*?\n.+?([0-9a-fA-F:]{95})\n`. -/
def recordTail : Re :=
  .cat (.someLazy .dot) (.cat (.text entryMark)
    (.cat (.many false .dot) (.cat (.one (· == '\n')) fingerprintLine)))

/-- `(.+?),.+?trustedCertEntry.*?\n.+?([0-9a-fA-F:]{95})\n`. -/
def record : Re := .cat (.group 1 (.someLazy .dot)) (.cat (.one (· == ',')) recordTail)

/-- `TLSManager.keytool_hash_to_bytes`; `none` is the `ValueError`. -/
def keytoolHashToBytes (hash : Str) : Option (List UInt8) := hashBytes hash

/-- The dictionary of `TLSManager.get_trusted_certificates`, item by item. -/
def readRecords (found : List Found) : Option (List (Str × List UInt8)) :=
  found.foldlM (fun trusted m =>
    (keytoolHashToBytes ((m.group 2).getD [])).map (Dict.set trusted ((m.group 1).getD []))) []

/-- `TLSManager.get_trusted_certificates`, from what `keytool -list` prints. -/
def readListing (raw : Str) : Option (List (Str × List UInt8)) :=
  readRecords ((record.pattern 2).finditer raw)

/-- The date of an import, as it is listed. -/
structure Date where
  text : Str
  oneLine : '\n' ∉ text
  deriving DecidableEq, Repr

/-- An entry of a truststore, as it is listed. -/
structure Entry where
  label : Str
  date : Str
  date_oneLine : '\n' ∉ date
  fingerprint : List UInt8
  length_fingerprint : fingerprint.length = 32
  deriving DecidableEq, Repr

/-- `Certificate fingerprint (SHA-256): `. -/
def fingerprintLead : Str :=
  ['C', 'e', 'r', 't', 'i', 'f', 'i', 'c', 'a', 't', 'e', ' ', 'f', 'i', 'n', 'g', 'e', 'r', 'p',
    'r', 'i', 'n', 't', ' ', '(', 'S', 'H', 'A', '-', '2', '5', '6', ')', ':', ' ']

/-- The two lines of an entry. -/
def Entry.text (e : Entry) : Str :=
  e.label ++ ',' :: ((' ' :: e.date ++ [',', ' ']) ++ (entryMark ++ ([',', ' '] ++
    '\n' :: (fingerprintLead ++ (hashText e.fingerprint ++ ['\n'])))))

/-- What is printed above the entries. -/
def listingHead (n : Nat) : Str :=
  ['K', 'e', 'y', 's', 't', 'o', 'r', 'e', ' ', 't', 'y', 'p', 'e', ':', ' ', 'P', 'K', 'C', 'S',
    '1', '2', '\n', 'K', 'e', 'y', 's', 't', 'o', 'r', 'e', ' ', 'p', 'r', 'o', 'v', 'i', 'd', 'e',
    'r', ':', ' ', 'S', 'U', 'N', '\n', '\n', 'Y', 'o', 'u', 'r', ' ', 'k', 'e', 'y', 's', 't', 'o',
    'r', 'e', ' ', 'c', 'o', 'n', 't', 'a', 'i', 'n', 's', ' '] ++ decimal n ++
    (if n = 1 then [' ', 'e', 'n', 't', 'r', 'y'] else [' ', 'e', 'n', 't', 'r', 'i', 'e', 's']) ++
    ['\n', '\n']

/-- `keytool -list`. -/
def keytoolList (es : List Entry) : Str := listingHead es.length ++ es.flatMap Entry.text

/-- An alias that is read back: it has a character, no line feed, and no comma behind its
first character. -/
structure Listable (label : Str) : Prop where
  ne : label ≠ []
  oneLine : '\n' ∉ label
  comma : ',' ∉ label.tail

instance (label : Str) : Decidable (Listable label) :=
  decidable_of_iff (label ≠ [] ∧ '\n' ∉ label ∧ ',' ∉ label.tail)
    ⟨fun h => ⟨h.1, h.2.1, h.2.2⟩, fun h => ⟨h.ne, h.oneLine, h.comma⟩⟩

/-- An alias that takes up a part of one line. -/
structure Legible (label : Str) : Prop where
  ne : label ≠ []
  oneLine : '\n' ∉ label

instance (label : Str) : Decidable (Legible label) :=
  decidable_of_iff (label ≠ [] ∧ '\n' ∉ label) ⟨fun h => ⟨h.1, h.2⟩, fun h => ⟨h.ne, h.oneLine⟩⟩

theorem Listable.legible {label : Str} (h : Listable label) : Legible label := ⟨h.ne, h.oneLine⟩

/-- What is read for a legible alias: it ends at the first comma behind its first character. -/
def listedLabel : Str → Str
  | [] => []
  | c :: label => c :: label.takeWhile (· != ',')

/-! ## What the expression takes -/

/-- What stands behind the comma, part by part. -/
structure RecordTail where
  date : Str
  rest : Str
  lead : Str
  hash : Str
  date_ne : date ≠ []
  date_oneLine : '\n' ∉ date
  rest_oneLine : '\n' ∉ rest
  lead_ne : lead ≠ []
  lead_oneLine : '\n' ∉ lead
  hash_length : hash.length = 95
  hash_chars : ∀ c ∈ hash, isHashChar c = true

def RecordTail.text (p : RecordTail) : Str :=
  p.date ++ (entryMark ++ (p.rest ++ '\n' :: (p.lead ++ (p.hash ++ ['\n']))))

variable {s rest : Str} {m : Found}

theorem dot_iff {u : Str} : (∀ c ∈ u, (c != '\n') = true) ↔ '\n' ∉ u := by
  constructor
  · intro h hmem
    exact absurd (h _ hmem) (by decide)
  · intro h c hc
    exact bne_iff_ne.mpr fun heq => h (heq ▸ hc)

theorem matches_fingerprintLine : fingerprintLine.Matches m rest ↔
    ∃ lead hash, lead ≠ [] ∧ '\n' ∉ lead ∧ hash.length = 95 ∧ (∀ c ∈ hash, isHashChar c = true) ∧
      m = ⟨lead ++ (hash ++ ['\n']), [(2, hash)]⟩ := by
  unfold fingerprintLine Re.dot
  constructor
  · intro h
    obtain ⟨a₁, b₁, ha₁, hb₁, rfl⟩ := Re.matches_cat.mp h
    obtain ⟨lead, hne, hlead, rfl⟩ := Re.matches_someLazy_one.mp ha₁
    obtain ⟨a₂, b₂, ha₂, hb₂, rfl⟩ := Re.matches_cat.mp hb₁
    obtain ⟨a₃, ha₃, rfl⟩ := Re.matches_group.mp ha₂
    obtain ⟨hash, hlength, hhash, rfl⟩ := Re.matches_times_one.mp ha₃
    obtain ⟨c, hc, rfl⟩ := Re.matches_one.mp hb₂
    obtain rfl := beq_iff_eq.mp hc
    exact ⟨lead, hash, hne, dot_iff.mp hlead, hlength, hhash, rfl⟩
  · rintro ⟨lead, hash, hne, hlead, hlength, hhash, rfl⟩
    refine Re.matches_cat.mpr ⟨⟨lead, []⟩, ⟨hash ++ ['\n'], [(2, hash)]⟩,
      Re.matches_someLazy_one.mpr ⟨_, hne, dot_iff.mpr hlead, rfl⟩, ?_, rfl⟩
    exact Re.matches_cat.mpr ⟨⟨hash, [(2, hash)]⟩, ⟨['\n'], []⟩,
      Re.matches_group.mpr ⟨_, Re.matches_times_one.mpr ⟨_, hlength, hhash, rfl⟩, rfl⟩,
      Re.matches_one.mpr ⟨_, rfl, rfl⟩, rfl⟩

theorem matches_recordTail : recordTail.Matches m rest ↔
    ∃ p : RecordTail, m = ⟨p.text, [(2, p.hash)]⟩ := by
  unfold recordTail Re.dot
  constructor
  · intro h
    obtain ⟨a₁, b₁, ha₁, hb₁, rfl⟩ := Re.matches_cat.mp h
    obtain ⟨date, hne, hdate, rfl⟩ := Re.matches_someLazy_one.mp ha₁
    obtain ⟨a₂, b₂, ha₂, hb₂, rfl⟩ := Re.matches_cat.mp hb₁
    obtain rfl := Re.matches_text.mp ha₂
    obtain ⟨a₃, b₃, ha₃, hb₃, rfl⟩ := Re.matches_cat.mp hb₂
    obtain ⟨tail, htail, rfl⟩ := Re.matches_many_one.mp ha₃
    obtain ⟨a₄, b₄, ha₄, hb₄, rfl⟩ := Re.matches_cat.mp hb₃
    obtain ⟨c, hc, rfl⟩ := Re.matches_one.mp ha₄
    obtain rfl := beq_iff_eq.mp hc
    obtain ⟨lead, hash, hleadne, hlead, hlength, hhash, rfl⟩ := matches_fingerprintLine.mp hb₄
    exact ⟨⟨date, tail, lead, hash, hne, dot_iff.mp hdate, dot_iff.mp htail, hleadne, hlead,
      hlength, hhash⟩, rfl⟩
  · rintro ⟨p, rfl⟩
    have hline : fingerprintLine.Matches ⟨p.lead ++ (p.hash ++ ['\n']), [(2, p.hash)]⟩ rest :=
      matches_fingerprintLine.mpr
        ⟨p.lead, p.hash, p.lead_ne, p.lead_oneLine, p.hash_length, p.hash_chars, rfl⟩
    exact Re.matches_cat.mpr ⟨⟨p.date, []⟩, _,
      Re.matches_someLazy_one.mpr ⟨_, p.date_ne, dot_iff.mpr p.date_oneLine, rfl⟩,
      Re.matches_cat.mpr ⟨⟨entryMark, []⟩, _, Re.matches_text.mpr rfl,
        Re.matches_cat.mpr ⟨⟨p.rest, []⟩, _,
          Re.matches_many_one.mpr ⟨_, dot_iff.mpr p.rest_oneLine, rfl⟩,
          Re.matches_cat.mpr ⟨⟨['\n'], []⟩, _, Re.matches_one.mpr ⟨_, rfl, rfl⟩, hline, rfl⟩,
          rfl⟩, rfl⟩, rfl⟩

/-- The comma and what follows it. -/
theorem matches_commaTail : (Re.cat (.one (· == ',')) recordTail).Matches m rest ↔
    ∃ p : RecordTail, m = ⟨',' :: p.text, [(2, p.hash)]⟩ := by
  constructor
  · intro h
    obtain ⟨a, b, ha, hb, rfl⟩ := Re.matches_cat.mp h
    obtain ⟨c, hc, rfl⟩ := Re.matches_one.mp ha
    obtain rfl := beq_iff_eq.mp hc
    obtain ⟨p, rfl⟩ := matches_recordTail.mp hb
    exact ⟨p, rfl⟩
  · rintro ⟨p, rfl⟩
    exact Re.matches_cat.mpr ⟨⟨[','], []⟩, _, Re.matches_one.mpr ⟨_, rfl, rfl⟩,
      matches_recordTail.mpr ⟨p, rfl⟩, rfl⟩

/-- More text in front of the date is part of it. -/
def RecordTail.prepend (p : RecordTail) (u : Str) (hu : '\n' ∉ u) : RecordTail :=
  { p with
    date := u ++ p.date
    date_ne := by simp [p.date_ne]
    date_oneLine := by simp [hu, p.date_oneLine] }

theorem RecordTail.text_prepend (p : RecordTail) (u : Str) (hu : '\n' ∉ u) :
    (p.prepend u hu).text = u ++ p.text := by
  simp [RecordTail.text, prepend]

/-- **The match that is found** has a listable alias: a longer one is not tried, as the
rest matches behind the first comma already. -/
theorem record_head (h : (record.run s).head? = some m) :
    ∃ (label : Str) (p : RecordTail) (rest : Str), Listable label ∧
      s = label ++ ',' :: (p.text ++ rest) ∧
      m = ⟨label ++ ',' :: p.text, [(2, p.hash), (1, label)]⟩ := by
  obtain ⟨label, b, rest, hs, hne, hdot, hb, rfl, hshorter⟩ := Re.lazyGroup_head h
  obtain ⟨rest, rfl, hb⟩ := Re.mem_run_iff.mp hb
  obtain ⟨p, rfl⟩ := matches_commaTail.mp hb
  have hline := dot_iff.mp hdot
  refine ⟨label, p, rest, ⟨hne, hline, ?_⟩, hs, rfl⟩
  intro hcomma
  obtain ⟨c, tail, rfl⟩ := List.exists_cons_of_ne_nil hne
  obtain ⟨u, v, htail⟩ := List.append_of_mem hcomma
  obtain rfl : tail = u ++ ',' :: v := htail
  have hnone := hshorter (c :: u) ⟨',' :: v, by simp⟩ (List.cons_ne_nil c u) (by simp)
  have hv : '\n' ∉ v ++ [','] := by
    intro hmem
    apply hline
    simp only [List.mem_append, List.mem_singleton] at hmem
    rcases hmem with hmem | hmem
    · simp [hmem]
    · exact absurd hmem (by decide)
  have hdrop : s.drop (c :: u).length = ',' :: ((p.prepend (v ++ [',']) hv).text ++ rest) := by
    rw [hs, RecordTail.text_prepend]
    simp
  have hmem := Re.mem_run_iff.mpr ⟨rest, hdrop, matches_commaTail.mpr ⟨_, rfl⟩⟩
  rw [hnone] at hmem
  cases hmem

theorem record_run_ne_nil {label : Str} (hne : label ≠ []) (hline : '\n' ∉ label)
    (p : RecordTail) (rest : Str) : record.run (label ++ ',' :: (p.text ++ rest)) ≠ [] := by
  have hlabel : (Re.group 1 (.someLazy .dot)).Matches ⟨label, [(1, label)]⟩
      (',' :: p.text ++ rest) :=
    Re.matches_group.mpr ⟨⟨label, []⟩,
      Re.matches_someLazy_one.mpr ⟨label, hne, dot_iff.mpr hline, rfl⟩, rfl⟩
  have hrecord : record.Matches ⟨label ++ ',' :: p.text, [(2, p.hash), (1, label)]⟩ rest :=
    Re.matches_cat.mpr ⟨_, _, hlabel, matches_commaTail.mpr ⟨p, rfl⟩, rfl⟩
  rw [Re.Matches, List.append_assoc, List.cons_append] at hrecord
  exact List.ne_nil_of_mem hrecord

/-- A text is cut in one way at the first comma behind its first character, at the line
feed, and in front of the last 95 characters of the second line. -/
theorem record_cut_unique {label label' rest rest' : Str} {p q : RecordTail}
    (hlabel : Listable label) (hlabel' : Listable label')
    (h : label ++ ',' :: (p.text ++ rest) = label' ++ ',' :: (q.text ++ rest')) :
    label = label' ∧ p.text = q.text ∧ p.hash = q.hash := by
  obtain ⟨c, u, rfl⟩ := List.exists_cons_of_ne_nil hlabel.ne
  obtain ⟨d, v, rfl⟩ := List.exists_cons_of_ne_nil hlabel'.ne
  rw [List.cons_append, List.cons_append, List.cons.injEq] at h
  obtain ⟨rfl, h⟩ := h
  obtain ⟨rfl, htext⟩ := cut_unique hlabel.comma hlabel'.comma h
  have hlines : ∀ (x : RecordTail) (r : Str), x.text ++ r =
      (x.date ++ entryMark ++ x.rest) ++ '\n' :: ((x.lead ++ x.hash) ++ '\n' :: r) := by
    intro x r
    simp [RecordTail.text]
  have hmark : '\n' ∉ entryMark := by decide
  have hfirst : ∀ x : RecordTail, '\n' ∉ x.date ++ entryMark ++ x.rest := by
    intro x
    simp [x.date_oneLine, x.rest_oneLine, hmark]
  have hhash : ∀ x : RecordTail, '\n' ∉ x.lead ++ x.hash := by
    intro x hmem
    rcases List.mem_append.mp hmem with hmem | hmem
    · exact x.lead_oneLine hmem
    · exact absurd (x.hash_chars _ hmem) (by decide)
  rw [hlines p, hlines q] at htext
  obtain ⟨hline, htext⟩ := cut_unique (hfirst p) (hfirst q) htext
  obtain ⟨hline', -⟩ := cut_unique (hhash p) (hhash q) htext
  have hhashes := List.append_inj_right' hline' (by rw [p.hash_length, q.hash_length])
  have htexts : ∀ x : RecordTail,
      x.text = (x.date ++ entryMark ++ x.rest) ++ '\n' :: ((x.lead ++ x.hash) ++ ['\n']) := by
    intro x
    simp [RecordTail.text]
  exact ⟨rfl, by rw [htexts p, htexts q, hline, hline'], hhashes⟩

theorem listedLabel_cut {label : Str} (h : Legible label) :
    Listable (listedLabel label) ∧
      (label = listedLabel label ∨ ∃ u, label = listedLabel label ++ ',' :: u ∧ '\n' ∉ u) := by
  obtain ⟨c, tail, rfl⟩ := List.exists_cons_of_ne_nil h.ne
  have hline := h.oneLine
  have hcomma : ',' ∉ tail.takeWhile (· != ',') := by
    intro hmem
    have htaken := List.mem_takeWhile_imp hmem
    exact absurd htaken (by decide)
  have hsplit : tail.takeWhile (· != ',') ++ tail.dropWhile (· != ',') = tail :=
    List.takeWhile_append_dropWhile
  constructor
  · refine ⟨List.cons_ne_nil _ _, ?_, hcomma⟩
    intro hmem
    apply hline
    cases List.mem_cons.mp hmem with
    | inl heq => exact List.mem_cons.mpr (.inl heq)
    | inr htaken =>
      have htail : '\n' ∈ tail := by
        rw [← hsplit]
        exact List.mem_append_left _ htaken
      exact List.mem_cons_of_mem c htail
  · cases hdrop : tail.dropWhile (· != ',') with
    | nil =>
      rw [hdrop, List.append_nil] at hsplit
      exact .inl (by rw [listedLabel, hsplit])
    | cons d u =>
      have hd : (d != ',') = false := by
        have hhead := List.head?_dropWhile_not (· != ',') tail
        simpa [hdrop] using hhead
      obtain rfl : d = ',' := by simpa using hd
      refine .inr ⟨u, ?_, ?_⟩
      · rw [listedLabel, List.cons_append, ← hdrop, hsplit]
      · intro hmem
        apply hline
        apply List.mem_cons_of_mem
        rw [← hsplit, hdrop]
        simp [hmem]

theorem listedLabel_of_listable {label : Str} (h : Listable label) : listedLabel label = label := by
  obtain ⟨-, heq | ⟨u, heq, -⟩⟩ := listedLabel_cut h.legible
  · exact heq.symm
  · obtain ⟨c, tail, hcons⟩ := List.exists_cons_of_ne_nil h.ne
    have hcomma := h.comma
    have hmem : ',' ∈ label.tail := by
      rw [heq, hcons, listedLabel]
      simp
    exact absurd hmem hcomma

/-- The match of an entry. -/
def Entry.found (e : Entry) : Found :=
  ⟨e.text, [(2, hashText e.fingerprint), (1, listedLabel e.label)]⟩

theorem Entry.length_hashText (e : Entry) : (hashText e.fingerprint).length = 95 := by
  obtain ⟨b, bytes, heq⟩ := List.exists_cons_of_length_eq_add_one e.length_fingerprint
  have hlength := e.length_fingerprint
  rw [heq, List.length_cons] at hlength
  rw [heq, PyText.length_hashText]
  omega

def Entry.tail (e : Entry) : RecordTail where
  date := ' ' :: e.date ++ [',', ' ']
  rest := [',', ' ']
  lead := fingerprintLead
  hash := hashText e.fingerprint
  date_ne := by simp
  date_oneLine := by simp [e.date_oneLine]
  rest_oneLine := by decide
  lead_ne := by decide
  lead_oneLine := by decide
  hash_length := e.length_hashText
  hash_chars := fun _ => mem_hashText

theorem Entry.text_eq (e : Entry) : e.text = e.label ++ ',' :: e.tail.text := rfl

/-- What an alias has behind its first comma is read as part of the date. -/
theorem Entry.exists_tail {e : Entry} (h : Legible e.label) : ∃ p : RecordTail,
    p.hash = hashText e.fingerprint ∧ e.text = listedLabel e.label ++ ',' :: p.text := by
  obtain ⟨-, heq | ⟨u, heq, hu⟩⟩ := listedLabel_cut h
  · exact ⟨e.tail, rfl, by rw [Entry.text_eq, ← heq]⟩
  · have hrest : '\n' ∉ u ++ [','] := by simp [hu]
    refine ⟨e.tail.prepend (u ++ [',']) hrest, rfl, ?_⟩
    rw [RecordTail.text_prepend, Entry.text_eq]
    conv_lhs => rw [heq]
    simp

/-- An entry whose alias is legible is found. -/
theorem hits_entry {before : Str} {e : Entry} (h : Legible e.label) (s : Str) :
    (record.pattern 2).hits before (e.text ++ s) = [e.found] := by
  obtain ⟨p, hhash, heq⟩ := Entry.exists_tail h
  have hlabel := (listedLabel_cut h).1
  have htext : e.text ++ s = listedLabel e.label ++ ',' :: (p.text ++ s) := by
    rw [heq, List.append_assoc, List.cons_append]
  have hne := record_run_ne_nil hlabel.ne hlabel.oneLine p s
  rw [← htext] at hne
  obtain ⟨m, hm⟩ := Option.ne_none_iff_exists'.mp (List.head?_eq_none_iff.not.mpr hne)
  obtain ⟨label, q, rest, hcut, hs, hfound⟩ := record_head hm
  obtain ⟨rfl, hq, hhash'⟩ := record_cut_unique hlabel hcut (htext.symm.trans hs)
  obtain rfl : m = e.found := by
    rw [hfound, Entry.found, heq, ← hq, ← hhash', hhash]
  apply Pattern.hits_of_head hm
  simp [Entry.found, Entry.text]

/-! ## A whole listing -/

/-- No match starts on a line without a comma. -/
theorem record_run_eq_nil {line : Str} (h : ',' ∉ line) (s : Str) :
    record.run (line ++ '\n' :: s) = [] := by
  rw [← List.head?_eq_none_iff, Option.eq_none_iff_forall_ne_some]
  intro m hm
  obtain ⟨label, p, rest, hlabel, hs, -⟩ := record_head hm
  rcases List.append_eq_append_iff.mp hs with ⟨u, rfl, hu⟩ | ⟨u, rfl, hu⟩
  · cases u with
    | nil => exact absurd (List.cons.inj hu).1 (by decide)
    | cons c u =>
      obtain ⟨rfl, -⟩ := List.cons.inj hu
      exact hlabel.oneLine (by simp)
  · cases u with
    | nil => exact absurd (List.cons.inj hu).1 (by decide)
    | cons c u =>
      obtain ⟨rfl, -⟩ := List.cons.inj hu
      exact h (by simp)

/-- Lines without a comma are gone past. -/
theorem found_commaFree {lines : Str} (h : ',' ∉ lines) (before s : Str) :
    ((record.pattern 2).scan before 0 (lines ++ '\n' :: s)).filterMap Piece.found? =
      ((record.pattern 2).scan (before ++ lines ++ ['\n']) 0 s).filterMap Piece.found? := by
  induction lines generalizing before with
  | nil =>
    rw [List.nil_append, Pattern.scan_miss (Pattern.hits_eq_nil (record_run_eq_nil h s)),
      List.filterMap_cons_none rfl]
    simp
  | cons c lines ih =>
    rw [List.cons_append, Pattern.scan_miss (Pattern.hits_eq_nil (record_run_eq_nil h s)),
      List.filterMap_cons, Piece.found?, ih fun hmem => h (List.mem_cons_of_mem c hmem)]
    simp

theorem found_entries {es : List Entry} (h : ∀ e ∈ es, Legible e.label) (before : Str) :
    ((record.pattern 2).scan before 0 (es.flatMap Entry.text)).filterMap Piece.found? =
      es.map Entry.found := by
  induction es generalizing before with
  | nil => rfl
  | cons e es ih =>
    have hne : e.text ≠ [] := by simp [Entry.text]
    rw [List.flatMap_cons, Pattern.scan_hit (hits_entry (h e List.mem_cons_self) _) rfl hne,
      List.filterMap_cons, Piece.found?, ih fun x hx => h x (List.mem_cons_of_mem e hx)]
    rfl

theorem exists_listingHead (n : Nat) : ∃ lines, ',' ∉ lines ∧ listingHead n = lines ++ ['\n'] := by
  have hdigits : ',' ∉ decimal n := fun h => absurd (isDigit_of_mem_decimal h) (by decide)
  refine ⟨_, ?_, List.append_cons _ '\n' ['\n']⟩
  by_cases hn : n = 1
  · simp [hn]
    decide
  · simp [hn, hdigits]

theorem finditer_keytoolList {es : List Entry} (h : ∀ e ∈ es, Legible e.label) :
    (record.pattern 2).finditer (keytoolList es) = es.map Entry.found := by
  obtain ⟨lines, hcomma, hhead⟩ := exists_listingHead es.length
  rw [Pattern.finditer, keytoolList, hhead, List.append_assoc, List.singleton_append,
    found_commaFree hcomma, found_entries h]

def Entry.item (e : Entry) : Str × List UInt8 := (e.label, e.fingerprint)

/-- The item that is read for an entry. -/
def Entry.read (e : Entry) : Str × List UInt8 := (listedLabel e.label, e.fingerprint)

theorem readRecord_found (trusted : List (Str × List UInt8)) (e : Entry) :
    (keytoolHashToBytes ((e.found.group 2).getD [])).map
      (Dict.set trusted ((e.found.group 1).getD [])) =
      some (Dict.set trusted (listedLabel e.label) e.fingerprint) := by
  have hne : e.fingerprint ≠ [] := by
    intro hnil
    have hlength := e.length_fingerprint
    rw [hnil] at hlength
    cases hlength
  have hhash : (e.found.group 2).getD [] = hashText e.fingerprint := by
    simp [Entry.found, Found.group, Dict.get?_cons]
  have hlabel : (e.found.group 1).getD [] = listedLabel e.label := by
    simp [Entry.found, Found.group, Dict.get?_cons]
  rw [hhash, hlabel, keytoolHashToBytes, hashBytes_hashText hne]
  rfl

theorem foldlM_found (trusted : List (Str × List UInt8)) (es : List Entry) :
    (es.map Entry.found).foldlM (fun trusted m =>
      (keytoolHashToBytes ((m.group 2).getD [])).map (Dict.set trusted ((m.group 1).getD [])))
      trusted = some (Dict.update trusted (es.map Entry.read)) := by
  induction es generalizing trusted with
  | nil => rfl
  | cons e es ih =>
    rw [List.map_cons, List.foldlM_cons, readRecord_found, Option.bind_eq_bind, Option.bind_some,
      ih]
    rfl

/-- **What is read of a listing** whose aliases are legible: each entry under the part of
its alias up to the comma, a later one in place of an earlier one. -/
theorem readListing_eq {es : List Entry} (h : ∀ e ∈ es, Legible e.label) :
    readListing (keytoolList es) = some (Dict.update [] (es.map Entry.read)) := by
  rw [readListing, finditer_keytoolList h, readRecords]
  exact foldlM_found [] es

/-- **A listing is read back** where its aliases are listable and no two are the same. -/
theorem readListing_keytoolList {es : List Entry} (h : ∀ e ∈ es, Listable e.label)
    (hnodup : Dict.NodupKeys (es.map Entry.item)) :
    readListing (keytoolList es) = some (es.map Entry.item) := by
  have hread : es.map Entry.read = es.map Entry.item := by
    apply List.map_congr_left
    intro e he
    rw [Entry.read, listedLabel_of_listable (h e he), Entry.item]
  rw [readListing_eq fun e he => (h e he).legible, hread, Dict.update_of_notMem hnodup]
  · rw [List.nil_append]
  · intro key _ hmem
    cases hmem

/-- The aliases that are read are those of the matches. -/
theorem keys_readRecords {P : Str → Prop} {found : List Found} {before trusted : List (Str × List UInt8)}
    (hfound : ∀ m ∈ found, P ((m.group 1).getD [])) (hbefore : ∀ a ∈ Dict.keys before, P a)
    (h : found.foldlM (fun trusted m => (keytoolHashToBytes ((m.group 2).getD [])).map
      (Dict.set trusted ((m.group 1).getD []))) before = some trusted) :
    ∀ a ∈ Dict.keys trusted, P a := by
  induction found generalizing before with
  | nil =>
    obtain rfl := Option.some.inj h
    exact hbefore
  | cons m found ih =>
    rw [List.foldlM_cons, Option.bind_eq_bind, Option.bind_eq_some_iff] at h
    obtain ⟨next, hnext, h⟩ := h
    obtain ⟨bytes, -, rfl⟩ := Option.map_eq_some_iff.mp hnext
    refine ih (fun m hm => hfound m (List.mem_cons_of_mem _ hm)) ?_ h
    intro a ha
    rcases Dict.mem_keys_set.mp ha with rfl | ha
    · exact hfound m List.mem_cons_self
    · exact hbefore a ha

theorem listable_of_mem_hits {before : Str} (h : m ∈ (record.pattern 2).hits before s) :
    Listable ((m.group 1).getD []) := by
  cases hhead : (record.run s).head? with
  | none =>
    rw [Pattern.hits_eq_nil (List.head?_eq_none_iff.mp hhead)] at h
    cases h
  | some a =>
    obtain ⟨label, p, rest, hlabel, -, rfl⟩ := record_head hhead
    rw [Pattern.hits_of_head hhead (by simp)] at h
    obtain rfl := List.mem_singleton.mp h
    simpa [Found.group, Dict.get?_cons] using hlabel

/-- What is read for an alias is listable, whatever the text. -/
theorem mem_keys_readListing {raw label : Str} {trusted : List (Str × List UInt8)}
    (h : readListing raw = some trusted) (hlabel : label ∈ Dict.keys trusted) : Listable label := by
  refine keys_readRecords ?_ (by simp [Dict.keys]) h label hlabel
  intro m hm
  obtain ⟨piece, hpiece, hfound⟩ := List.mem_filterMap.mp hm
  cases piece with
  | skipped c => cases hfound
  | found m' =>
    obtain rfl := Option.some.inj hfound
    obtain ⟨before, s, hhit⟩ := Pattern.mem_hits_of_mem_scan hpiece
    exact listable_of_mem_hits hhit

/-! ## The aliases of the charm -/

/-- What a certificate is imported for: as part of the own bundle or of the one before it,
of the bundle of the other application, as the one of a client, or from the
`certificate_transfer` relation. -/
inductive CharmAlias where
  | bundle (i : Nat)
  | oldBundle (i : Nat)
  | clusterTls (i : Nat)
  | newClusterTls (i : Nat)
  | client (app : AppName) (relation : Nat)
  | transferred (subject : Name)

/-- `TLSManager.OLD_PREFIX`. -/
def oldPrefix : Str := ['o', 'l', 'd', '-']

/-- `TLSManager.NEW_PREFIX`. -/
def newPrefix : Str := ['n', 'e', 'w', '-']

/-- The alias of a certificate in `TLSManager.import_bundle`. -/
def bundleAlias (i : Nat) : Str := ['b', 'u', 'n', 'd', 'l', 'e'] ++ decimal i

/-- `TLSManager.PEER_CLUSTER_ALIAS` and a position. -/
def clusterAlias (i : Nat) : Str :=
  ['c', 'l', 'u', 's', 't', 'e', 'r', '-', 't', 'l', 's'] ++ decimal i

variable {κ : Type} (k : CertTools κ)

def CharmAlias.text : CharmAlias → Str
  | .bundle i => bundleAlias i
  | .oldBundle i => oldPrefix ++ bundleAlias i
  | .clusterTls i => clusterAlias i
  | .newClusterTls i => newPrefix ++ clusterAlias i
  | .client app relation => app.text ++ '-' :: decimal relation
  | .transferred subject => k.rfc4514String subject

/-- `TLSManager.alias_needs_update`, for what is trusted. -/
def aliasNeedsUpdate (trusted : List (Str × List UInt8)) (label : Str) : Option κ → Bool
  | none => false
  | some cert => (k.load cert).certificateFingerprint ≠ (Dict.get? trusted label).getD []

/-- A name of one part, with neither a comma nor a line feed in a value. -/
def PlainName (subject : Name) : Prop :=
  ∃ rdn, subject = [rdn] ∧ ∀ a ∈ rdn.attributes, ',' ∉ a.value ∧ '\n' ∉ a.value

variable {k}

theorem mem_intercalate {c x : Char} {ls : List Str} (hc : c ≠ x) :
    c ∈ [x].intercalate ls ↔ ∃ l ∈ ls, c ∈ l := by
  induction ls with
  | nil => simp
  | cons l ls ih =>
    cases ls with
    | nil => simp
    | cons l' ls => simp [List.intercalate_cons_cons, ih, hc]

theorem mem_rdnText {c : Char} (hplus : c ≠ '+') (hequals : c ≠ '=') (hdot : c ≠ '.')
    (halpha : c.isAlphanum = false) {r : Rdn} :
    c ∈ k.rdnText r ↔ ∃ a ∈ r.attributes, c ∈ k.escape a.value := by
  have hname : ∀ a : NameAttribute, c ∉ a.name := by
    intro a hmem
    rcases a.name_chars c hmem with h | h
    · rw [halpha] at h
      cases h
    · exact hdot h
  rw [CertTools.rdnText, mem_intercalate hplus]
  simp [CertTools.attributeText, hname, hequals]

/-- The text of a part starts with the name of an attribute. -/
theorem exists_rdnText (r : Rdn) : ∃ c tail, k.rdnText r = c :: tail ∧ c ≠ ',' := by
  obtain ⟨a, as, ha⟩ := List.exists_cons_of_ne_nil r.attributes_ne
  obtain ⟨c, cs, hc⟩ := List.exists_cons_of_ne_nil a.name_ne
  have hne : c ≠ ',' := by
    rintro rfl
    rcases a.name_chars ',' (by simp [hc]) with h | h
    · exact absurd h (by decide)
    · exact absurd h (by decide)
  rw [CertTools.rdnText, ha, List.map_cons, CertTools.attributeText, hc]
  cases as with
  | nil => exact ⟨c, _, by rw [List.map_nil, List.intercalate_singleton]; rfl, hne⟩
  | cons b bs => exact ⟨c, _, by rw [List.map_cons, List.intercalate_cons_cons]; rfl, hne⟩

/-- Between two parts of a name there is a comma. -/
theorem not_listable_of_parts {subject : Name} (h : 2 ≤ subject.length) :
    ¬ Listable (k.rfc4514String subject) := by
  obtain ⟨x, y, zs, hparts⟩ : ∃ x y zs, subject.reverse = x :: y :: zs := by
    rw [← List.length_reverse] at h
    match hreverse : subject.reverse, h with
    | x :: y :: zs, _ => exact ⟨x, y, zs, rfl⟩
  obtain ⟨c, tail, htext, -⟩ := exists_rdnText (k := k) x
  intro hlistable
  apply hlistable.comma
  rw [CertTools.rfc4514String, hparts, List.map_cons, List.map_cons, List.intercalate_cons_cons,
    htext]
  simp

/-- The text of a name is listable exactly when the name is plain. -/
theorem listable_rfc4514String {subject : Name} :
    Listable (k.rfc4514String subject) ↔ PlainName subject := by
  cases subject with
  | nil =>
    constructor
    · intro h
      exact absurd rfl h.ne
    · rintro ⟨rdn, h, -⟩
      cases h
  | cons r rs =>
    cases rs with
    | nil =>
      obtain ⟨c, tail, htext, hc⟩ := exists_rdnText (k := k) r
      have hcomma := mem_rdnText (k := k) (c := ',') (by decide) (by decide) (by decide) (by decide)
        (r := r)
      have hline := mem_rdnText (k := k) (c := '\n') (by decide) (by decide) (by decide) (by decide)
        (r := r)
      have hstring : k.rfc4514String [r] = k.rdnText r := by simp [CertTools.rfc4514String]
      constructor
      · intro h
        rw [hstring] at h
        refine ⟨r, rfl, fun a ha => ⟨fun hmem => ?_, fun hmem => ?_⟩⟩
        · have htail := h.comma
          have hin := hcomma.mpr ⟨a, ha, (k.comma_mem_escape _).mpr hmem⟩
          rw [htext] at htail hin
          rcases List.mem_cons.mp hin with heq | hin
          · exact hc heq.symm
          · exact htail hin
        · exact h.oneLine (hline.mpr ⟨a, ha, (k.lineFeed_mem_escape _).mpr hmem⟩)
      · rintro ⟨rdn, heq, hvalues⟩
        obtain rfl := (List.cons.inj heq).1
        rw [hstring]
        refine ⟨by simp [htext], fun hmem => ?_, fun hmem => ?_⟩
        · obtain ⟨a, ha, hin⟩ := hline.mp hmem
          exact (hvalues a ha).2 ((k.lineFeed_mem_escape _).mp hin)
        · obtain ⟨a, ha, hin⟩ := hcomma.mp (List.mem_of_mem_tail hmem)
          exact (hvalues a ha).1 ((k.comma_mem_escape _).mp hin)
    | cons r' rs =>
      constructor
      · intro h
        exact absurd h (not_listable_of_parts (by simp))
      · rintro ⟨rdn, h, -⟩
        cases h

theorem listable_of_plain {label : Str} (hne : label ≠ []) (h : AliasText label) :
    Listable label := by
  refine ⟨hne, fun hmem => ?_, fun hmem => ?_⟩
  · exact absurd (h _ hmem) (by decide)
  · exact absurd (h _ (List.mem_of_mem_tail hmem)) (by decide)

theorem aliasText_bundleAlias (i : Nat) : AliasText (bundleAlias i) :=
  AliasText.append (by decide) (aliasText_decimal i)

theorem aliasText_clusterAlias (i : Nat) : AliasText (clusterAlias i) :=
  AliasText.append (by decide) (aliasText_decimal i)

theorem aliasText_appName (app : AppName) : AliasText app.text := by
  intro c hc
  simpa [isNameChar, or_assoc] using app.legal c hc

theorem CharmAlias.text_plain {a : CharmAlias} (h : ∀ subject, a ≠ .transferred subject) :
    AliasText (a.text k) := by
  cases a with
  | bundle i => exact aliasText_bundleAlias i
  | oldBundle i => exact AliasText.append (by decide) (aliasText_bundleAlias i)
  | clusterTls i => exact aliasText_clusterAlias i
  | newClusterTls i => exact AliasText.append (by decide) (aliasText_clusterAlias i)
  | client app relation =>
    have hhyphen : AliasText ['-'] := by decide
    exact (aliasText_appName app).append (hhyphen.append (aliasText_decimal relation))
  | transferred subject => exact absurd rfl (h subject)

theorem CharmAlias.text_ne_nil {a : CharmAlias} (h : ∀ subject, a ≠ .transferred subject) :
    a.text k ≠ [] := by
  cases a with
  | transferred subject => exact absurd rfl (h subject)
  | bundle i => simp [CharmAlias.text, bundleAlias]
  | oldBundle i => simp [CharmAlias.text, bundleAlias]
  | clusterTls i => simp [CharmAlias.text, clusterAlias]
  | newClusterTls i => simp [CharmAlias.text, clusterAlias]
  | client app relation => simp [CharmAlias.text]

theorem CharmAlias.listable_text {a : CharmAlias} (h : ∀ subject, a ≠ .transferred subject) :
    Listable (a.text k) :=
  listable_of_plain (text_ne_nil h) (text_plain h)

variable (k)

/-- The truststore entries under aliases of the charm, each alias once. -/
structure TrustMap where
  entries : List Entry
  imported : ∀ e ∈ entries, ∃ a : CharmAlias, e.label = a.text k
  nodup : Dict.NodupKeys (entries.map Entry.item)

/-- The listing of the entries is read back as they are, and no certificate with the
fingerprint that an entry has needs an update under its alias. -/
def ReadsBack (es : List Entry) : Prop :=
  ∃ trusted, readListing (keytoolList es) = some trusted ∧
    (∀ label, Dict.get? trusted label = Dict.get? (es.map Entry.item) label) ∧
    ∀ e ∈ es, ∀ cert : κ, (k.load cert).certificateFingerprint = e.fingerprint →
      aliasNeedsUpdate k trusted e.label (some cert) = false

variable {k}

theorem Entry.get?_item {es : List Entry} {e : Entry} (hnodup : Dict.NodupKeys (es.map Entry.item))
    (he : e ∈ es) : Dict.get? (es.map Entry.item) e.label = some e.fingerprint :=
  (Dict.mem_iff_get? hnodup).mp (List.mem_map.mpr ⟨e, he, rfl⟩)

theorem listable_of_readsBack {es : List Entry} (hnodup : Dict.NodupKeys (es.map Entry.item))
    (h : ReadsBack k es) : ∀ e ∈ es, Listable e.label := by
  intro e he
  obtain ⟨trusted, hread, hget, -⟩ := h
  apply mem_keys_readListing hread
  rw [Dict.mem_keys_iff, hget, Entry.get?_item hnodup he]
  simp

theorem readsBack_of_listable {es : List Entry} (hnodup : Dict.NodupKeys (es.map Entry.item))
    (h : ∀ e ∈ es, Listable e.label) : ReadsBack k es := by
  refine ⟨_, readListing_keytoolList h hnodup, fun _ => rfl, ?_⟩
  intro e he cert hcert
  simp [aliasNeedsUpdate, Entry.get?_item hnodup he, hcert]

/-- **A listing is read back** exactly when every distinguished name among the aliases has
one part and no comma or line feed in a value. -/
theorem listing_round_trip_iff (k : CertTools κ) (t : TrustMap k) :
    ReadsBack k t.entries ↔
      ∀ e ∈ t.entries, ∀ subject, e.label = k.rfc4514String subject → PlainName subject := by
  constructor
  · intro h e he subject hsubject
    have hlistable := listable_of_readsBack t.nodup h e he
    rw [hsubject] at hlistable
    exact listable_rfc4514String.mp hlistable
  · intro h
    apply readsBack_of_listable t.nodup
    intro e he
    obtain ⟨a, ha⟩ := t.imported e he
    cases a with
    | transferred subject =>
      rw [ha]
      exact listable_rfc4514String.mpr (h e he subject ha)
    | bundle | oldBundle | clusterTls | newClusterTls | client =>
      rw [ha]
      exact CharmAlias.listable_text fun _ heq => by cases heq

/-- `May 10, 2024`. -/
def sampleDate : Date := ⟨['M', 'a', 'y', ' ', '1', '0', ',', ' ', '2', '0', '2', '4'], by decide⟩

/-- The entry of `tests/integration/data/root.pem`, transferred and loaded. -/
def rootEntry : Entry where
  label := SampleCert.tools.certificateDistinguishedName .root
  date := sampleDate.text
  date_oneLine := sampleDate.oneLine
  fingerprint := (SampleCert.load .root).sha256
  length_fingerprint := X509.length_sha256 _

/-- Its name has four parts, and it is not read back. -/
theorem listing_loses_root : ¬ ReadsBack SampleCert.tools [rootEntry] := by
  intro h
  have hnodup : Dict.NodupKeys ([rootEntry].map Entry.item) := List.nodup_singleton _
  have hlistable := listable_of_readsBack hnodup h rootEntry List.mem_cons_self
  exact not_listable_of_parts (by decide) hlistable

/-- The same certificate under the alias of the own bundle. -/
def bundleEntry : Entry := { rootEntry with label := bundleAlias 0 }

def bundleMap : TrustMap SampleCert.tools where
  entries := [bundleEntry]
  imported := by
    intro e he
    obtain rfl := List.mem_singleton.mp he
    exact ⟨.bundle 0, rfl⟩
  nodup := List.nodup_singleton _

def transferredMap : TrustMap SampleCert.tools where
  entries := [rootEntry]
  imported := by
    intro e he
    obtain rfl := List.mem_singleton.mp he
    exact ⟨.transferred (SampleCert.subject .root), rfl⟩
  nodup := List.nodup_singleton _

theorem bundle_read_back_transferred_not :
    ReadsBack SampleCert.tools bundleMap.entries ∧
      ¬ ReadsBack SampleCert.tools transferredMap.entries := by
  constructor
  · apply (listing_round_trip_iff SampleCert.tools bundleMap).mpr
    intro e he subject hsubject
    obtain rfl := List.mem_singleton.mp he
    rw [← listable_rfc4514String, ← hsubject]
    decide
  · rw [listing_round_trip_iff SampleCert.tools transferredMap]
    intro h
    obtain ⟨rdn, hone, -⟩ := h rootEntry List.mem_cons_self _ rfl
    have hlength : (SampleCert.subject .root).length = 1 := congrArg List.length hone
    exact absurd hlength (by decide)

end TlsManager

end KafkaCharm
