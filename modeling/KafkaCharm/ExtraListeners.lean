import KafkaCharm.ListenerNames

namespace KafkaCharm

open PyText Fallible

/-! ## The check -/

/-- A host with a port, as an item of the option. -/
structure ListenerItem where
  host : Str
  port : Str
  host_isName : IsName host
  port_isName : IsName port

namespace ListenerItem

variable (item : ListenerItem) (items : List ListenerItem)

def text : Str := item.host ++ ':' :: item.port

/-- The port, if it is a number. -/
def number : Option Nat := digitsInt item.port

/-- The option that lists the items. -/
def joined : Str := [','].intercalate (items.map text)

/-- `extra_listeners_port_values` raises nothing on the items. -/
def Accepted : Prop := extraListenersPortValues (joined items) ≠ none

/-- The ports of the items. -/
def numbers : List Nat := items.filterMap number

/-- Every port is a number in the range that is asked for. -/
def InRange : Prop := ∀ item ∈ items, ∃ port, item.number = some port ∧ 20000 < port ∧ port < 50000

/-- What the error messages ask for: ports in range that are at least 100 apart. -/
def Stated : Prop :=
  InRange items ∧ (numbers items).Pairwise fun p q => p + 100 ≤ q ∨ q + 100 ≤ p

/-- The ports ascend, and no two of them are exactly 100 apart. -/
def Ascending : Prop := (numbers items).Pairwise fun p q => p < q ∧ q ≠ p + 100

theorem colon_notMem_host : ':' ∉ item.host := fun hc => (item.host_isName ':' hc).2 rfl

theorem colon_notMem_port : ':' ∉ item.port := fun hc => (item.port_isName ':' hc).2 rfl

theorem colon_mem_text : ':' ∈ item.text := by simp [text]

theorem comma_notMem_text : ',' ∉ item.text := by
  simp [text, item.host_isName.no_comma, item.port_isName.no_comma]

theorem splitOn_text : item.text.splitOn ':' = [item.host, item.port] := by
  rw [text, List.splitOn_append_cons_self_of_not_mem item.colon_notMem_host,
    List.splitOn_eq_singleton item.colon_notMem_port]

theorem listenerPort_text :
    listenerPort item.text = item.number.filter fun port => 20000 < port && port < 50000 := by
  rw [listenerPort, splitOn_text]
  rfl

theorem exists_listenerPort_iff : (∃ port, listenerPort item.text = some port) ↔
    ∃ port, item.number = some port ∧ 20000 < port ∧ port < 50000 := by
  rw [listenerPort_text]
  simp only [Option.filter_eq_some_iff, Bool.and_eq_true, decide_eq_true_eq]

theorem mapM_listenerPort (h : InRange items) :
    (items.map text).mapM listenerPort = some (numbers items) := by
  induction items with
  | nil => rfl
  | cons item items ih =>
    obtain ⟨⟨port, hport, hlow, hhigh⟩, hrest⟩ := List.forall_mem_cons.mp h
    have hitem : listenerPort item.text = some port := by
      rw [listenerPort_text, hport]
      simp [hlow, hhigh]
    simp [hitem, ih hrest, numbers, hport]

theorem joined_eq_nil_iff : joined items = [] ↔ items = [] := by
  cases items with
  | nil => simp [joined]
  | cons item items =>
    have hmem : ':' ∈ joined (item :: items) := by
      cases items with
      | nil => simpa [joined] using item.colon_mem_text
      | cons next items =>
        simp [joined, List.intercalate_cons_cons, item.colon_mem_text]
    simp [List.ne_nil_of_mem hmem]

theorem splitOn_joined (hne : items ≠ []) : (joined items).splitOn ',' = items.map text :=
  List.splitOn_intercalate ',' (List.forall_mem_map.mpr fun item _ => item.comma_notMem_text)
    (by simpa using hne)

theorem filter_texts : (items.map text).filter (':' ∈ ·) = items.map text := by
  rw [List.filter_eq_self, List.forall_mem_map]
  intro item _
  exact decide_eq_true item.colon_mem_text

theorem above_of_inRange (h : InRange items) : ∀ port ∈ numbers items, 20000 < port := by
  intro port hport
  obtain ⟨item, hitem, hnumber⟩ := List.mem_filterMap.mp hport
  obtain ⟨port', hport', hlow, -⟩ := h item hitem
  rw [hnumber] at hport'
  obtain rfl := Option.some.inj hport'
  exact hlow

/-- The items are accepted if their ports are in range and each is more than 100 above the
ones before it. -/
theorem accepted_iff :
    Accepted items ↔ InRange items ∧ (numbers items).Pairwise fun p q => p + 100 < q := by
  by_cases hnil : items = []
  · subst hnil
    simp [Accepted, extraListenersPortValues, joined, InRange, numbers]
  have hvalue : joined items ≠ [] := by rwa [ne_eq, joined_eq_nil_iff]
  have hlisteners := splitOn_joined items hnil
  unfold Accepted
  rw [Option.ne_none_iff_exists']
  constructor
  · rintro ⟨listeners, haccepted⟩
    obtain ⟨hempty, -⟩ | ⟨rfl, ports, hports, hapart⟩ :=
      extraListenersPortValues_eq_some haccepted
    · exact absurd hempty hvalue
    · rw [hlisteners, filter_texts] at hports
      have hrange : InRange items := by
        intro item hitem
        have hport := exists_of_mapM hports item.text (List.mem_map_of_mem hitem)
        exact item.exists_listenerPort_iff.mp hport
      rw [mapM_listenerPort items hrange] at hports
      obtain rfl := Option.some.inj hports
      exact ⟨hrange, (portsApart_iff.mp hapart).2⟩
  · rintro ⟨hrange, hpairwise⟩
    have hapart : portsApart 0 (numbers items) = true := by
      refine portsApart_iff.mpr ⟨?_, hpairwise⟩
      intro port hport
      have := above_of_inRange items hrange port hport
      omega
    have hdistinct : (numbers items).Nodup := by
      refine hpairwise.imp ?_
      intro p q hlt heq
      omega
    refine ⟨items.map text, ?_⟩
    simp [extraListenersPortValues, hvalue, hlisteners, filter_texts,
      mapM_listenerPort items hrange, hapart, hdistinct]

theorem stated_of_accepted (h : Accepted items) : Stated items := by
  obtain ⟨hrange, hpairwise⟩ := (accepted_iff items).mp h
  refine ⟨hrange, hpairwise.imp ?_⟩
  intro p q hlt
  exact .inl (by omega)

/-- A list that meets what is asked for is accepted if it is in order, without gaps of 100. -/
theorem accepted_iff_ascending (h : Stated items) : Accepted items ↔ Ascending items := by
  obtain ⟨hrange, happart⟩ := h
  rw [accepted_iff]
  constructor
  · rintro ⟨-, hpairwise⟩
    refine hpairwise.imp ?_
    intro p q hlt
    exact ⟨by omega, by omega⟩
  · intro hascending
    refine ⟨hrange, (happart.and hascending).imp ?_⟩
    rintro p q ⟨hpq | hqp, hlt, hne⟩
    · omega
    · omega

/-- The items are accepted exactly if they meet what is asked for, and if they are accepted,
so are they in any other order. -/
def ValidatedAsStated : Prop :=
  (Accepted items ↔ Stated items) ∧
    (Accepted items → ∀ other : List ListenerItem, other.Perm items → Accepted other)

/-- Of two items that are accepted the second port is above the first one. -/
theorem lt_of_accepted {a b : ListenerItem} {rest : List ListenerItem} {p q : Nat}
    (h : Accepted (a :: b :: rest)) (ha : a.number = some p) (hb : b.number = some q) : p < q := by
  obtain ⟨-, hpairwise⟩ := (accepted_iff _).mp h
  have hnumbers : numbers (a :: b :: rest) = p :: q :: numbers rest := by simp [numbers, ha, hb]
  rw [hnumbers] at hpairwise
  have := List.rel_of_pairwise_cons hpairwise List.mem_cons_self
  omega

/-- Accepted items can only be put in another order if there is no other order. -/
theorem length_le_one_of_any_order (haccepted : Accepted items)
    (h : ∀ other : List ListenerItem, other.Perm items → Accepted other) : items.length ≤ 1 := by
  match items with
  | [] => simp
  | [_] => simp
  | a :: b :: rest =>
    obtain ⟨hrange, -⟩ := (accepted_iff _).mp haccepted
    obtain ⟨p, hp, -⟩ := hrange a (by simp)
    obtain ⟨q, hq, -⟩ := hrange b (by simp)
    have hup := lt_of_accepted haccepted hp hq
    have hdown := lt_of_accepted (h (b :: a :: rest) (.swap a b rest)) hq hp
    omega

theorem ascending_of_length_le_one (h : items.length ≤ 1) : Ascending items := by
  match items with
  | [] => exact .nil
  | [item] =>
    unfold Ascending numbers
    cases hnumber : item.number with
    | none => simp [hnumber]
    | some port => simp [hnumber]

/-- Exactly the lists that meet what is asked for and are out of order, or have a gap of 100, are
wrongly rejected; and of those that meet what is asked for only single items are validated in
every order. -/
theorem extra_listeners_validated_iff :
    ((Accepted items ↔ Stated items) ↔ (Stated items → Ascending items)) ∧
      (ValidatedAsStated items ↔ (Stated items → items.length ≤ 1)) := by
  have hascending : (Accepted items ↔ Stated items) ↔ (Stated items → Ascending items) := by
    constructor
    · intro h hstated
      exact (accepted_iff_ascending items hstated).mp (h.mpr hstated)
    · intro h
      refine ⟨stated_of_accepted items, fun hstated => ?_⟩
      exact (accepted_iff_ascending items hstated).mpr (h hstated)
  refine ⟨hascending, ?_⟩
  constructor
  · rintro ⟨hiff, hany⟩ hstated
    have haccepted := hiff.mpr hstated
    exact length_le_one_of_any_order items haccepted (hany haccepted)
  · intro h
    refine ⟨hascending.mpr fun hstated => ascending_of_length_le_one items (h hstated), ?_⟩
    intro haccepted other hother
    have hlength := h (stated_of_accepted items haccepted)
    match items with
    | [] => rwa [List.perm_nil.mp hother]
    | [item] => rwa [List.perm_singleton.mp hother]

/-- Two ports that are 100 apart are rejected, and so are two that are given in falling order. -/
theorem extra_listeners_not_validated :
    let worker (port : Str) (h : IsName port) : ListenerItem := ⟨"worker", port, by decide, h⟩
    let low := worker "30000" (by decide)
    let next := worker "30100" (by decide)
    let high := worker "30200" (by decide)
    (Stated [low, next] ∧ ¬ Accepted [low, next]) ∧
      Accepted [low, high] ∧ ¬ Accepted [high, low] ∧
      ¬ ∀ items, ValidatedAsStated items := by
  intro worker low next high
  have hlow : low.number = some 30000 := by decide +kernel
  have hnext : next.number = some 30100 := by decide +kernel
  have hhigh : high.number = some 30200 := by decide +kernel
  have hstated : Stated [low, next] := by
    simp [Stated, InRange, numbers, hlow, hnext]
  have hrejected : ¬ Accepted [low, next] := by
    rw [accepted_iff]
    simp [numbers, hlow, hnext]
  refine ⟨⟨hstated, hrejected⟩, ?_, ?_, ?_⟩
  · rw [accepted_iff]
    simp [InRange, numbers, hlow, hhigh]
  · rw [accepted_iff]
    simp [numbers, hlow, hhigh]
  · intro h
    exact hrejected ((h [low, next]).1.mpr hstated)

end ListenerItem

/-! ## Its readers -/

/-- The host of an item on a unit: what stands before its first colon, with the unit filled in. -/
def itemHost (unitId : Nat) (item : Str) : Str :=
  replace "\x7bunit\x7d" (decimal unitId) ((item.splitOn ':').headD [])

/-- `TLSManager._build_extra_sans`. -/
def CharmConfig.buildExtraSans (config : CharmConfig) (unitId : Nat) : List Str :=
  let extraSans :=
    if config.extraListeners = [] then config.certificateExtraSans else config.extraListeners
  let cleanSans := extraSans.map fun san => (san.splitOn ':').headD []
  cleanSans.map (replace "\x7bunit\x7d" (decimal unitId))

theorem CharmConfig.itemHost_mem_buildExtraSans {config : CharmConfig} {item : Str}
    (h : item ∈ config.extraListeners) (unitId : Nat) :
    itemHost unitId item ∈ config.buildExtraSans unitId := by
  unfold buildExtraSans
  rw [if_neg (List.ne_nil_of_mem h)]
  exact List.mem_map_of_mem (List.mem_map_of_mem h)

/-- Filling in the unit again changes nothing, so every round of the inner loop has the same
host. -/
theorem extraListenersOf_eq (unitId count baseport : Nat) (host : Str) (auths : List AuthMap) :
    extraListenersOf unitId count baseport host auths = auths.map fun auth =>
      { auth := auth, scope := .extra, host := replace "\x7bunit\x7d" (decimal unitId) host,
        baseport := baseport, extraCount := some count } := by
  have hfilled (host : Str) : replace "\x7bunit\x7d" (decimal unitId)
      (replace "\x7bunit\x7d" (decimal unitId) host) =
      replace "\x7bunit\x7d" (decimal unitId) host := by
    refine replace_replace (by decide) (decimal_ne_nil unitId) ?_ host
    intro c hc hdecimal
    have hplain : (("\x7bunit\x7d" : Str).all fun c => !c.isDigit) = true := by decide
    have hnot := List.all_eq_true.mp hplain c hc
    rw [isDigit_of_mem_decimal hdecimal] at hnot
    cases hnot
  induction auths generalizing host with
  | nil => rfl
  | cons auth auths ih => rw [extraListenersOf, ih, List.map_cons, hfilled]

theorem count_of_splitOn {item host baseport : Str} (h : item.splitOn ':' = [host, baseport]) :
    item.count ':' = 1 := by
  have hjoined : [':'].intercalate (item.splitOn ':') = item := List.intercalate_splitOn ':'
  have hparts : ∀ part ∈ item.splitOn ':', ':' ∉ part := by
    intro part hpart hc
    have hsplit := not_sep_of_mem_splitOnP (· == ':') item part
      (by rwa [← List.splitOn_eq_splitOnP]) ':' hc
    simp at hsplit
  rw [h] at hjoined hparts
  have hhost := List.count_eq_zero.mpr (hparts host (by simp))
  have hbaseport := List.count_eq_zero.mpr (hparts baseport (by simp))
  rw [← hjoined]
  simp [List.intercalate_cons_cons, hhost, hbaseport]

/-- The listeners that an item with a port asks for: one for each way to authenticate. -/
def askedListeners (unitId : Nat) (auths : List AuthMap) (item : Str × Nat) : List Listener :=
  (listenerPort item.1).toList.flatMap fun baseport => auths.map fun auth =>
    { auth := auth, scope := .extra, host := itemHost unitId item.1, baseport := baseport,
      extraCount := some item.2 }

theorem extraListenersFor_eq_asked {item : Str} {parts : Str × Str}
    (hparts : hostBaseport item = some parts) (hport : ∃ baseport, listenerPort item = some baseport)
    (unitId : Nat) (auths : List AuthMap) (count : Nat) :
    extraListenersFor unitId auths (parts, count) =
      some (askedListeners unitId auths (item, count)) := by
  obtain ⟨baseport, hport⟩ := hport
  have hhost : (item.splitOn ':').headD [] = parts.1 := by
    rw [hostBaseport_eq_some hparts, List.headD_cons]
  have hasked : askedListeners unitId auths (item, count) =
      extraListenersOf unitId count baseport parts.1 auths := by
    rw [extraListenersOf_eq, askedListeners, itemHost, hhost, hport, Option.toList_some,
      List.flatMap_cons, List.flatMap_nil, List.append_nil]
  unfold extraListenersFor
  split
  case isTrue hnone => rw [hasked, hnone, extraListenersOf]
  case isFalse => rw [hostBaseport_number hparts hport, Option.map_some, hasked]

/-- The listeners of the unpacked items, numbered from any count. -/
theorem extraListenersFor_all {items : List Str} {pairs : List (Str × Str)}
    (hpairs : items.mapM hostBaseport = some pairs)
    (hports : ∀ item ∈ items, ∃ baseport, listenerPort item = some baseport)
    (unitId : Nat) (auths : List AuthMap) (count : Nat) :
    (pairs.zipIdx count).mapM (extraListenersFor unitId auths) =
      some ((items.zipIdx count).map (askedListeners unitId auths)) := by
  induction items generalizing pairs count with
  | nil =>
    obtain rfl : [] = pairs := Option.some.inj hpairs
    rfl
  | cons item items ih =>
    obtain ⟨parts, rest, hparts, hrest, rfl⟩ := mapM_cons_eq_some hpairs
    obtain ⟨hport, hothers⟩ := List.forall_mem_cons.mp hports
    rw [List.zipIdx_cons, List.mapM_cons, extraListenersFor_eq_asked hparts hport,
      ih hrest hothers (count + 1)]
    rfl

namespace ClusterState

variable {s : ClusterState} (e : Enumeration s)

/-- Each item with a port has the listeners it asks for, one for each of the ways to
authenticate, and its host is in the certificate. -/
def ExtraListenersAgree (auths : List AuthMap) : Prop :=
  extraListeners e = some ((s.config.extraListeners.filter (':' ∈ ·)).zipIdx.flatMap
      (askedListeners s.unit.unitId auths)) ∧
    ∀ item ∈ s.config.extraListeners, ':' ∈ item →
      (∃ baseport, listenerPort item = some baseport) ∧
        itemHost s.unit.unitId item ∈ s.config.buildExtraSans s.unit.unitId

/-- An accepted option is read alike by the listeners and the certificate exactly if no item has
a second colon; otherwise building the listeners raises. The ways to authenticate are those that
are enabled. -/
theorem extra_listeners_agree_iff {value : Str} {auths : List AuthMap}
    (haccepted : extraListenersPortValues value = some s.config.extraListeners)
    (hauths : enabledAuth e = some auths) :
    (ExtraListenersAgree e auths ↔ ∀ item ∈ s.config.extraListeners, item.count ':' ≤ 1) ∧
      (extraListeners e = none ↔ ∃ item ∈ s.config.extraListeners, 1 < item.count ':') := by
  have hbuilt (extra : List Listener) (h : extraListeners e = some extra) :
      ∀ item ∈ s.config.extraListeners, item.count ':' ≤ 1 := by
    intro item hitem
    obtain ⟨pairs, lists, hpairs, -, -⟩ := extraListeners_eq_some e h
    by_cases hcolon : ':' ∈ item
    · obtain ⟨parts, hparts⟩ := exists_of_mapM hpairs item
        (List.mem_filter.mpr ⟨hitem, decide_eq_true hcolon⟩)
      rw [count_of_splitOn (hostBaseport_eq_some hparts)]
    · rw [List.count_eq_zero.mpr hcolon]
      exact Nat.zero_le 1
  have hagree (hform : ∀ item ∈ s.config.extraListeners, item.count ':' ≤ 1) :
      ExtraListenersAgree e auths := by
    have hports := exists_of_mapM (extraListenersPortValues_spec haccepted).1
    obtain ⟨pairs, hpairs⟩ : ∃ pairs,
        (s.config.extraListeners.filter (':' ∈ ·)).mapM hostBaseport = some pairs := by
      refine exists_mapM ?_
      intro item hitem
      obtain ⟨hmem, hcolon⟩ := List.mem_filter.mp hitem
      exact hostBaseport_of_form (of_decide_eq_true hcolon) (hform item hmem)
    refine ⟨?_, ?_⟩
    · have hlists := extraListenersFor_all hpairs hports s.unit.unitId auths 0
      simp [extraListeners, hpairs, hauths, hlists, List.flatMap_def]
    · intro item hitem hcolon
      exact ⟨hports item (List.mem_filter.mpr ⟨hitem, decide_eq_true hcolon⟩),
        CharmConfig.itemHost_mem_buildExtraSans hitem s.unit.unitId⟩
  refine ⟨⟨fun h => hbuilt _ h.1, hagree⟩, ?_⟩
  constructor
  · intro hraised
    by_contra hnone
    push Not at hnone
    rw [(hagree hnone).1] at hraised
    cases hraised
  · rintro ⟨item, hitem, hcolons⟩
    rw [Option.eq_none_iff_forall_ne_some]
    intro extra hextra
    have := hbuilt extra hextra item hitem
    omega

end ClusterState

/-- The items of an exposed unit are read alike. -/
theorem extra_listeners_agree_worker :
    let item : Str := "worker-\x7bunit\x7d.domain.com:30000"
    let e := Enumeration.listed (ClusterState.exposed item)
    extraListenersPortValues item = some (ClusterState.exposed item).config.extraListeners ∧
      ∃ auths, ClusterState.enabledAuth e = some auths ∧
        ClusterState.ExtraListenersAgree e auths := by
  intro item e
  have haccepted : extraListenersPortValues item =
      some (ClusterState.exposed item).config.extraListeners := by decide +kernel
  have hform : ∀ given ∈ (ClusterState.exposed item).config.extraListeners,
      given.count ':' ≤ 1 := by decide +kernel
  have henabled : ClusterState.enabledAuth e ≠ none := by decide +kernel
  obtain ⟨auths, hauths⟩ := Option.ne_none_iff_exists'.mp henabled
  exact ⟨haccepted, auths, hauths,
    (ClusterState.extra_listeners_agree_iff e haccepted hauths).1.mpr hform⟩

/-- An item with a second colon is accepted by its port, and then no listener can be built. -/
theorem extra_listeners_second_colon :
    let item : Str := "worker:30000:SASL"
    let e := Enumeration.listed (ClusterState.exposed item)
    extraListenersPortValues item = some (ClusterState.exposed item).config.extraListeners ∧
      ClusterState.enabledAuth e = some [.scram .plaintext, .oauthbearer .plaintext] ∧
      ClusterState.extraListeners e = none ∧
      ¬ ClusterState.ExtraListenersAgree e [.scram .plaintext, .oauthbearer .plaintext] := by
  intro item e
  have haccepted : extraListenersPortValues item =
      some (ClusterState.exposed item).config.extraListeners := by decide +kernel
  have henabled : ClusterState.enabledAuth e =
      some [.scram .plaintext, .oauthbearer .plaintext] := by decide +kernel
  have hraised : ClusterState.extraListeners e = none := by decide +kernel
  refine ⟨haccepted, henabled, hraised, ?_⟩
  rintro ⟨hbuilt, -⟩
  rw [hraised] at hbuilt
  cases hbuilt

end KafkaCharm
