import KafkaCharm.ExtraListeners

namespace KafkaCharm

open PyText

/-! ## The certificate -/

/-- No white space and neither of the characters that `openssl` puts between names. -/
def IsNameText (s : Str) : Prop := ∀ c ∈ s, c ≠ ':' ∧ c ≠ ',' ∧ isSpace c = false

instance (s : Str) : Decidable (IsNameText s) := List.decidableBAll _ s

structure DnsName where
  text : Str
  legal : IsNameText text

structure Ip4 where
  a : Fin 256
  b : Fin 256
  c : Fin 256
  d : Fin 256
  deriving DecidableEq, Repr

structure Ip6 where
  groups : List (Fin 65536)
  length_groups : groups.length = 8
  deriving DecidableEq

inductive San where
  | dns (name : DnsName)
  | ip4 (address : Ip4)
  | ip6 (address : Ip6)

def Ip4.text (ip : Ip4) : Str :=
  ['.'].intercalate [decimal ip.a, decimal ip.b, decimal ip.c, decimal ip.d]

/-- `%X` of a number of 16 bits. -/
def hexGroup (n : Nat) : Str :=
  match (hexDigits 4 n).dropWhile (· == '0') with
  | [] => ['0']
  | digits => digits.map Char.toUpper

/-- The groups of an address, none of them left out. -/
def Ip6.text (ip : Ip6) : Str := [':'].intercalate (ip.groups.map fun group => hexGroup group)

namespace San

/-- The type of an item and its value. -/
def item : San → Str × Str
  | .dns name => ("DNS", name.text)
  | .ip4 address => ("IP Address", address.text)
  | .ip6 address => ("IP Address", address.text)

def text (san : San) : Str := san.item.1 ++ ':' :: san.item.2

def isIp6 : San → Bool
  | .ip6 _ => true
  | _ => false

/-- The DNS names of a certificate. -/
def dnsNames (sans : List San) : List Str :=
  (sans.filter fun san => decide (san.item.1 = ("DNS" : Str))).map fun san => san.item.2

/-- The addresses of a certificate. -/
def addresses (sans : List San) : List Str :=
  (sans.filter fun san => decide (san.item.1 = ("IP Address" : Str))).map fun san => san.item.2

end San

/-- The first line that `openssl x509 -noout -ext subjectAltName` prints. -/
def sanHeader (critical : Bool) : Str :=
  "X509v3 Subject Alternative Name: " ++ (if critical then "critical" else "")

/-- The line of the items. -/
def sanLine (sans : List San) : Str := "    " ++ (", " : Str).intercalate (sans.map San.text)

/-- What `openssl` prints of a certificate. -/
def opensslOutput (critical : Bool) (sans : List San) : Str :=
  unlines [sanHeader critical, sanLine sans]

/-! ## The unit -/

/-- `Sans`. -/
structure Sans where
  sansIp : List Str
  sansDns : List Str
  deriving DecidableEq, Repr

/-- `"DNS" in line and "IP" in line`. -/
def isSanLine (line : Str) : Bool :=
  decide (("DNS" : Str) <:+: line) && decide (("IP" : Str) <:+: line)

/-- `line` after the loop: the first that was looked for, or else the last of all. -/
def chosenLine (lines : List Str) : Str := (lines.find? isSanLine).getD (lines.getLast?.getD [])

/-- `san_type, san_value = item.split(":")`; `none` where the item has not two parts. -/
def sanItem (item : Str) : Option (Str × Str) :=
  match item.splitOn ':' with
  | [sanType, sanValue] => some (sanType, sanValue)
  | _ => none

/-- The values of the items of a type. -/
def valuesOf (sanType : Str) (items : List (Str × Str)) : List Str :=
  (items.filter fun item => decide (strip item.1 = sanType)).map Prod.snd

/-- `TLSManager.get_current_sans` on the printed text, if the unit has a certificate and its file;
`none` where it raises. -/
def getCurrentSans (certificate : Str) (file : Bool) (output : Str) : Option (Option Sans) :=
  if certificate = [] || !file then some none
  else
    let sansLines := splitlines output
    if sansLines = [] then some none
    else do
      let items ← (splitSeq ", " (chosenLine sansLines)).mapM sanItem
      return some ⟨sortStrings (valuesOf "IP Address" items), sortStrings (valuesOf "DNS" items)⟩

/-- What a unit learns about its own host. -/
structure HostNames where
  bindAddress : Str
  ips : List Str
  fqdn : Str
  deriving DecidableEq, Repr

namespace ClusterState

variable (s : ClusterState) (host : HostNames)

/-- `unit_broker.unit.name`. -/
def unitName : Str := s.app.text ++ '/' :: decimal s.unit.unitId

/-- `TLSManager.build_sans` on Kubernetes; `none` where asking for the node raises. -/
def buildSans : Option Sans :=
  s.unit.nodeIp.toOption.map fun ip =>
    { sansIp := sortStrings (([host.bindAddress, ip] ++ host.ips).dedup)
      sansDns := sortStrings ([s.unitAddress.takeWhile (· ≠ '.'), s.unitAddress, host.fqdn] ++
        s.config.buildExtraSans s.unit.unitId) }

/-- `TLSManager.sans_changed`; the name of the unit and of the application do not count. -/
def sansChanged (certificate : Str) (file : Bool) (output : Str) : Option Bool :=
  (getCurrentSans certificate file output).bind fun current =>
    match current with
    | none => some false
    | some current =>
      (s.buildSans host).map fun expected =>
        let sansIpChanged := changedLines current.sansIp expected.sansIp
        let sansDnsChanged := (changedLines current.sansDns expected.sansDns).filter
          (· ∉ [s.unitName, s.app.text])
        decide (sansIpChanged ≠ [] ∨ sansDnsChanged ≠ [])

end ClusterState

/-! ## The items -/

theorem mem_hexDigits {width n : Nat} {c : Char} (h : c ∈ hexDigits width n) :
    ∃ digit < 16, c = Nat.digitChar digit := by
  induction width generalizing n with
  | zero => cases h
  | succ width ih =>
    rcases List.mem_append.mp h with h | h
    · exact ih h
    · exact ⟨n % 16, Nat.mod_lt n (by decide), List.mem_singleton.mp h⟩

/-- A text that can stand between the commas of the line. -/
def IsItemText (s : Str) : Prop := ∀ c ∈ s, c ≠ ',' ∧ isLineBreak c = false

instance (s : Str) : Decidable (IsItemText s) := List.decidableBAll _ s

theorem isItemText_append {s t : Str} : IsItemText (s ++ t) ↔ IsItemText s ∧ IsItemText t :=
  List.forall_mem_append

theorem isItemText_intercalate {sep : Str} (hsep : IsItemText sep) {words : List Str}
    (h : ∀ w ∈ words, IsItemText w) : IsItemText (sep.intercalate words) := by
  induction words with
  | nil => simp [IsItemText]
  | cons w words ih =>
    obtain ⟨hw, hrest⟩ := List.forall_mem_cons.mp h
    cases words with
    | nil => simpa using hw
    | cons v vs =>
      rw [List.intercalate_cons_cons, isItemText_append, isItemText_append]
      exact ⟨⟨hw, hsep⟩, ih hrest⟩

theorem isItemText_decimal (n : Nat) : IsItemText (decimal n) := by
  intro c hc
  refine ⟨?_, (decimal_spaceFree n).breakFree c hc⟩
  rintro rfl
  exact absurd (isDigit_of_mem_decimal hc) (by decide)

theorem isItemText_hexGroup (n : Nat) : IsItemText (hexGroup n) := by
  have hdigits : ∀ digit < 16, (Nat.digitChar digit).toUpper ≠ ',' ∧
      isLineBreak (Nat.digitChar digit).toUpper = false := by decide
  unfold hexGroup
  split
  · decide
  · intro c hc
    obtain ⟨d, hd, rfl⟩ := List.mem_map.mp hc
    obtain ⟨digit, hlt, rfl⟩ := mem_hexDigits (List.dropWhile_subset _ hd)
    exact hdigits digit hlt

namespace San

variable (san : San)

theorem isItemText_value : IsItemText san.item.2 := by
  cases san with
  | dns name =>
    have hspace : SpaceFree name.text := fun c hc => (name.legal c hc).2.2
    exact fun c hc => ⟨(name.legal c hc).2.1, hspace.breakFree c hc⟩
  | ip4 address =>
    apply isItemText_intercalate (by decide)
    simp only [List.forall_mem_cons, isItemText_decimal, true_and]
    exact List.forall_mem_nil _
  | ip6 address =>
    apply isItemText_intercalate (by decide)
    rw [List.forall_mem_map]
    exact fun group _ => isItemText_hexGroup group

theorem type_cases : san.item.1 = ("DNS" : Str) ∨ san.item.1 = ("IP Address" : Str) := by
  cases san with
  | dns name => exact .inl rfl
  | ip4 address => exact .inr rfl
  | ip6 address => exact .inr rfl

theorem isItemText_type : IsItemText san.item.1 := by
  rcases san.type_cases with h | h <;> rw [h] <;> decide

theorem isItemText_text : IsItemText san.text := by
  refine isItemText_append.mpr ⟨san.isItemText_type, List.forall_mem_cons.mpr ⟨by decide, ?_⟩⟩
  exact san.isItemText_value

theorem colon_notMem_type : ':' ∉ san.item.1 := by
  rcases san.type_cases with h | h <;> rw [h] <;> decide

theorem strip_type : strip san.item.1 = san.item.1 := by
  rcases san.type_cases with h | h <;> rw [h] <;> decide

theorem colon_notMem_ip4 (address : Ip4) : ':' ∉ address.text := by
  have hdecimal (n : Nat) : ':' ∉ decimal n := fun hc =>
    absurd (isDigit_of_mem_decimal hc) (by decide)
  simp [Ip4.text, List.intercalate_cons_cons, hdecimal]

/-- An address of the other kind has colons of its own. -/
theorem colon_mem_ip6 (address : Ip6) : ':' ∈ address.text := by
  obtain ⟨groups, hlength⟩ := address
  match groups, hlength with
  | first :: second :: rest, _ => simp [Ip6.text, List.intercalate_cons_cons]

theorem colon_mem_value_iff : ':' ∈ san.item.2 ↔ san.isIp6 = true := by
  cases san with
  | dns name => exact iff_of_false (fun hc => (name.legal ':' hc).1 rfl) (by simp [isIp6])
  | ip4 address => exact iff_of_false (colon_notMem_ip4 address) (by simp [isIp6])
  | ip6 address => exact iff_of_true (colon_mem_ip6 address) rfl

end San

/-- The spaces that the line begins with. -/
def IsIndent (pre : Str) : Prop := ∀ c ∈ pre, c = ' '

theorem sanItem_eq_some {pre : Str} (hpre : IsIndent pre) {san : San} (h : san.isIp6 = false) :
    sanItem (pre ++ san.text) = some (pre ++ san.item.1, san.item.2) := by
  have htype : ':' ∉ pre ++ san.item.1 := by
    intro hc
    rcases List.mem_append.mp hc with hc | hc
    · exact absurd (hpre ':' hc) (by decide)
    · exact san.colon_notMem_type hc
  have hvalue : ':' ∉ san.item.2 := by
    rw [san.colon_mem_value_iff, h]
    decide
  rw [sanItem, San.text, ← List.append_assoc, List.splitOn_append_cons_self_of_not_mem htype,
    List.splitOn_eq_singleton hvalue]

theorem sanItem_eq_none {san : San} (h : san.isIp6 = true) (pre : Str) :
    sanItem (pre ++ san.text) = none := by
  have hmem : ':' ∈ san.item.2 := san.colon_mem_value_iff.mpr h
  have hcount : 2 ≤ (pre ++ san.text).count ':' := by
    have hvalue := List.count_pos_iff.mpr hmem
    rw [San.text, List.count_append, List.count_append, List.count_cons_self]
    omega
  unfold sanItem
  split
  case h_1 hsplit =>
    rw [count_of_splitOn hsplit] at hcount
    omega
  case h_2 => rfl

/-! ## The line -/

theorem sanHeader_breakFree (critical : Bool) : BreakFree (sanHeader critical) := by
  cases critical <;> decide

theorem isSanLine_sanHeader (critical : Bool) : isSanLine (sanHeader critical) = false := by
  cases critical <;> decide

theorem sanLine_breakFree (sans : List San) : BreakFree (sanLine sans) := by
  have hitems : BreakFree ((", " : Str).intercalate (sans.map San.text)) := by
    induction sans with
    | nil => exact breakFree_nil
    | cons san sans ih =>
      have hsan : BreakFree san.text := fun c hc => (san.isItemText_text c hc).2
      cases sans with
      | nil => simpa using hsan
      | cons next sans =>
        rw [List.map_cons, List.map_cons, List.intercalate_cons_cons, breakFree_append,
          breakFree_append]
        exact ⟨⟨hsan, by decide⟩, ih⟩
  exact breakFree_append.mpr ⟨by decide, hitems⟩

/-- The header never has both words, and the items stand on the last line. -/
theorem chosenLine_output (critical : Bool) (sans : List San) :
    splitlines (opensslOutput critical sans) = [sanHeader critical, sanLine sans] ∧
      chosenLine [sanHeader critical, sanLine sans] = sanLine sans := by
  refine ⟨splitlines_unlines ?_, ?_⟩
  · simp only [List.forall_mem_cons]
    exact ⟨sanHeader_breakFree critical, sanLine_breakFree sans, List.forall_mem_nil _⟩
  · cases hline : isSanLine (sanLine sans) with
    | false => simp [chosenLine, isSanLine_sanHeader, hline]
    | true => simp [chosenLine, isSanLine_sanHeader, hline]

theorem splitSeq_sanLine (san : San) (sans : List San) :
    splitSeq ", " (sanLine (san :: sans)) = ("    " ++ san.text) :: sans.map San.text := by
  have hcommas : ∀ item ∈ (san :: sans).map San.text, ',' ∉ item := by
    rw [List.forall_mem_map]
    exact fun san _ hc => (san.isItemText_text ',' hc).1 rfl
  have hindent : ',' ∉ ("    " : Str) := by decide
  have hsep : (", " : Str) = ',' :: [' '] := rfl
  rw [sanLine, hsep, splitSeq_append hindent,
    splitSeq_intercalate hcommas (List.cons_ne_nil _ _)]
  rfl

theorem mapM_sanItem {sans : List San} (h : ∀ san ∈ sans, san.isIp6 = false) :
    (sans.map San.text).mapM sanItem = some (sans.map San.item) := by
  induction sans with
  | nil => rfl
  | cons san sans ih =>
    obtain ⟨hsan, hrest⟩ := List.forall_mem_cons.mp h
    have hindent : IsIndent [] := by simp [IsIndent]
    have hitem : sanItem san.text = some san.item := sanItem_eq_some hindent hsan
    rw [List.map_cons, List.mapM_cons, hitem, ih hrest]
    rfl

/-- The values of a type, whatever spaces stand before the first item. -/
theorem valuesOf_items {pre : Str} (hpre : IsIndent pre) (sanType : Str) (san : San)
    (sans : List San) :
    valuesOf sanType ((pre ++ san.item.1, san.item.2) :: sans.map San.item) =
      ((san :: sans).filter fun san => decide (san.item.1 = sanType)).map fun san => san.item.2 := by
  have hspaces : ∀ c ∈ pre, isSpace c = true := by
    intro c hc
    rw [hpre c hc]
    decide
  have hfirst : strip (pre ++ san.item.1) = san.item.1 := by
    rw [strip_append hspaces, san.strip_type]
  have hrest : (sans.map San.item).filter (fun item => decide (strip item.1 = sanType)) =
      (sans.filter fun san => decide (san.item.1 = sanType)).map San.item := by
    rw [List.filter_map]
    congr 1
    apply List.filter_congr
    intro san _
    simp [san.strip_type]
  unfold valuesOf
  rw [List.filter_cons, List.filter_cons, hfirst, hrest]
  split <;> simp

/-- A certificate without addresses of the second kind is read as it was issued. -/
theorem getCurrentSans_output {certificate : Str} (hcertificate : certificate ≠ [])
    (critical : Bool) {sans : List San} (hne : sans ≠ [])
    (h : ∀ san ∈ sans, san.isIp6 = false) :
    getCurrentSans certificate true (opensslOutput critical sans) =
      some (some ⟨sortStrings (San.addresses sans), sortStrings (San.dnsNames sans)⟩) := by
  obtain ⟨hlines, hchosen⟩ := chosenLine_output critical sans
  obtain ⟨san, rest, rfl⟩ := List.exists_cons_of_ne_nil hne
  obtain ⟨hsan, hrest⟩ := List.forall_mem_cons.mp h
  have hpre : IsIndent "    " := by
    intro c hc
    simpa using hc
  have hitems : (splitSeq ", " (sanLine (san :: rest))).mapM sanItem =
      some (("    " ++ san.item.1, san.item.2) :: rest.map San.item) := by
    rw [splitSeq_sanLine, List.mapM_cons, sanItem_eq_some hpre hsan, mapM_sanItem hrest]
    rfl
  simp only [getCurrentSans, hcertificate, hlines, hchosen, hitems]
  simp only [decide_false, Bool.not_true, Bool.or_self, Bool.false_eq_true, if_false,
    reduceCtorEq]
  show some (some _) = some (some _)
  rw [valuesOf_items hpre, valuesOf_items hpre]
  rfl

/-- Without an item, or with such an address, reading the line raises. -/
theorem getCurrentSans_raises {certificate : Str} (hcertificate : certificate ≠ [])
    (critical : Bool) {sans : List San} (h : sans = [] ∨ ∃ san ∈ sans, san.isIp6 = true) :
    getCurrentSans certificate true (opensslOutput critical sans) = none := by
  obtain ⟨hlines, hchosen⟩ := chosenLine_output critical sans
  have hitems : (splitSeq ", " (sanLine sans)).mapM sanItem = none := by
    rw [Option.eq_none_iff_forall_ne_some]
    intro items hitems
    rcases h with rfl | ⟨san, hsan, hip6⟩
    · have hnone : (splitSeq ", " (sanLine [])).mapM sanItem = none := by decide
      rw [hnone] at hitems
      cases hitems
    · have hall := Fallible.exists_of_mapM hitems
      cases sans with
      | nil => cases hsan
      | cons first rest =>
        rw [splitSeq_sanLine] at hall
        rcases List.mem_cons.mp hsan with rfl | hrest
        · obtain ⟨item, hitem⟩ := hall _ List.mem_cons_self
          rw [sanItem_eq_none hip6] at hitem
          cases hitem
        · obtain ⟨item, hitem⟩ := hall san.text
            (List.mem_cons_of_mem _ (List.mem_map_of_mem hrest))
          have hnone : sanItem san.text = none := sanItem_eq_none hip6 []
          rw [hnone] at hitem
          cases hitem
  simp only [getCurrentSans, hcertificate, hlines, hchosen, hitems]
  rfl

/-! ## Detection -/

/-- The unit reads its certificate as it was issued, and as long as it would ask for the same
names and addresses it finds nothing changed. -/
def SansDetected (critical : Bool) (sans : List San) : Prop :=
  ∀ certificate : Str, certificate ≠ [] →
    getCurrentSans certificate true (opensslOutput critical sans) =
        some (some ⟨sortStrings (San.addresses sans), sortStrings (San.dnsNames sans)⟩) ∧
      ∀ (s : ClusterState) (host : HostNames) (expected : Sans), s.buildSans host = some expected →
        (∀ ip, ip ∈ expected.sansIp ↔ ip ∈ San.addresses sans) →
        (∀ name, name ∈ expected.sansDns ↔ name ∈ San.dnsNames sans) →
        s.sansChanged host certificate true (opensslOutput critical sans) = some false

theorem sansChanged_of_same {s : ClusterState} {host : HostNames} {certificate output : Str}
    {ips names : List Str} {expected : Sans}
    (h : getCurrentSans certificate true output =
      some (some ⟨sortStrings ips, sortStrings names⟩))
    (hexpected : s.buildSans host = some expected)
    (hips : ∀ ip, ip ∈ expected.sansIp ↔ ip ∈ ips)
    (hnames : ∀ name, name ∈ expected.sansDns ↔ name ∈ names) :
    s.sansChanged host certificate true output = some false := by
  have hsame {xs ys : List Str} (hxs : ∀ x, x ∈ ys ↔ x ∈ xs) :
      changedLines (sortStrings xs) ys = [] := by
    rw [changedLines_eq_nil_iff]
    intro x
    rw [mem_sortStrings, hxs]
  rw [ClusterState.sansChanged, h, Option.bind_some, hexpected]
  simp [hsame hips, hsame hnames]

/-- A certificate is read as it was issued exactly if it has a name or an address and none of its
addresses is an IPv6 address; otherwise reading it raises. -/
theorem sans_detected_iff (critical : Bool) (sans : List San) :
    SansDetected critical sans ↔ sans ≠ [] ∧ ∀ san ∈ sans, san.isIp6 = false := by
  constructor
  · intro h
    by_contra hbad
    have hraises : sans = [] ∨ ∃ san ∈ sans, san.isIp6 = true := by
      by_cases hnil : sans = []
      · exact .inl hnil
      · right
        by_contra hnone
        push Not at hnone
        exact hbad ⟨hnil, fun san hsan => by simpa using hnone san hsan⟩
    have hread := (h "certificate" (by decide)).1
    rw [getCurrentSans_raises (by decide) critical hraises] at hread
    cases hread
  · rintro ⟨hne, hall⟩ certificate hcertificate
    have hread := getCurrentSans_output hcertificate critical hne hall
    exact ⟨hread, fun s host expected => sansChanged_of_same hread⟩

/-- A certificate with an IPv6 address. -/
theorem sans_ip6_raises :
    let name : DnsName := ⟨"kafka-0", by decide⟩
    let address : Ip6 := ⟨[0x2001, 0xdb8, 0, 0, 0, 0, 0, 1], rfl⟩
    let sans : List San := [.dns name, .ip6 address]
    opensslOutput false sans = unlines ["X509v3 Subject Alternative Name: ",
        "    DNS:kafka-0, IP Address:2001:DB8:0:0:0:0:0:1"] ∧
      getCurrentSans "certificate" true (opensslOutput false sans) = none ∧
      ¬ SansDetected false sans := by
  intro name address sans
  have hraises : getCurrentSans "certificate" true (opensslOutput false sans) = none :=
    getCurrentSans_raises (by decide) false (.inr ⟨.ip6 address, by simp [sans], rfl⟩)
  refine ⟨by decide, hraises, ?_⟩
  intro h
  have hread := (h "certificate" (by decide)).1
  rw [hraises] at hread
  cases hread

end KafkaCharm
