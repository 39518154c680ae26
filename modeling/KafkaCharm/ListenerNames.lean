import KafkaCharm.ListenerPorts

namespace KafkaCharm

open PyText Fallible

/-! ## Names -/

/-- A text that can stand between commas and before a colon. -/
def IsName (s : Str) : Prop := ∀ c ∈ s, c ≠ ',' ∧ c ≠ ':'

instance (s : Str) : Decidable (IsName s) := List.decidableBAll _ s

theorem isName_append {s t : Str} : IsName (s ++ t) ↔ IsName s ∧ IsName t := List.forall_mem_append

theorem isName_cons {c : Char} {s : Str} : IsName (c :: s) ↔ (c ≠ ',' ∧ c ≠ ':') ∧ IsName s :=
  List.forall_mem_cons

theorem IsName.no_comma {s : Str} (h : IsName s) : ',' ∉ s := fun hc => (h ',' hc).1 rfl

theorem isName_decimal (n : Nat) : IsName (decimal n) := by
  intro c hc
  have hdigit := isDigit_of_mem_decimal hc
  constructor
  · rintro rfl
    exact absurd hdigit (by decide)
  · rintro rfl
    exact absurd hdigit (by decide)

namespace ListenerScope

theorem text_injective {scope scope' : ListenerScope} (h : scope.text = scope'.text) :
    scope = scope' := by
  cases scope <;> cases scope' <;> first | rfl | exact absurd h (by decide)

/-- The scope ends where the name has its first dash. -/
theorem dash_notMem_text (scope : ListenerScope) : '_' ∉ scope.text := by
  cases scope <;> decide

theorem isName_text (scope : ListenerScope) : IsName scope.text := by
  cases scope <;> decide

end ListenerScope

namespace AuthMap

/-- What a name says about the way to authenticate. -/
def nameText (auth : AuthMap) : Str :=
  auth.protocol ++ '_' :: auth.mechanism.map (fun c => if c = '-' then '_' else c)

theorem isName_nameText (auth : AuthMap) : IsName auth.nameText := by
  rcases auth with ⟨_ | _⟩ | ⟨_ | _⟩ | _ <;> decide

/-- No such text is the beginning of another one. -/
theorem nameText_cancel {auth auth' : AuthMap} {rest rest' : Str}
    (h : auth.nameText ++ rest = auth'.nameText ++ rest') : auth = auth' ∧ rest = rest' := by
  have hclash (w w' : Str) (hw : w ++ rest = w' ++ rest') :
      w.take w'.length = w'.take w.length := by
    rcases List.append_eq_append_iff.mp hw with ⟨a, rfl, -⟩ | ⟨a, rfl, -⟩ <;> simp
  have hauth : auth = auth' := by
    have htexts := hclash _ _ h
    rcases auth with ⟨_ | _⟩ | ⟨_ | _⟩ | _ <;> rcases auth' with ⟨_ | _⟩ | ⟨_ | _⟩ | _ <;>
      first | rfl | exact absurd htexts (by decide)
  subst hauth
  exact ⟨rfl, List.append_cancel_left h⟩

end AuthMap

namespace Listener

variable (l : Listener)

theorem name_eq : l.name = l.scope.text ++ '_' :: (l.auth.nameText ++ l.countText) := by
  simp [name, AuthMap.nameText]

theorem isName_countText : IsName l.countText := by
  unfold countText
  split
  · simp [IsName]
  · exact isName_cons.mpr ⟨by decide, isName_decimal _⟩

theorem isName_name : IsName l.name := by
  rw [name_eq]
  exact isName_append.mpr ⟨l.scope.isName_text, isName_cons.mpr ⟨by decide,
    isName_append.mpr ⟨l.auth.isName_nameText, l.isName_countText⟩⟩⟩

theorem countText_injective {l l' : Listener} (h : l.countText = l'.countText) :
    l.extraCount = l'.extraCount := by
  unfold countText at h
  cases hl : l.extraCount with
  | none =>
    cases hl' : l'.extraCount with
    | none => rfl
    | some count' => simp [hl, hl'] at h
  | some count =>
    cases hl' : l'.extraCount with
    | none => simp [hl, hl'] at h
    | some count' =>
      simp only [hl, hl', List.cons.injEq, true_and] at h
      rw [decimal_injective h]

/-- Listeners of the same name have the same scope, way to authenticate and number. -/
theorem name_injective {l l' : Listener} (h : l.name = l'.name) :
    l.scope = l'.scope ∧ l.auth = l'.auth ∧ l.extraCount = l'.extraCount := by
  rw [name_eq, name_eq] at h
  have hscope : l.scope = l'.scope := by
    have htexts := congrArg (List.takeWhile (· ≠ '_')) h
    rw [takeWhile_append_sep l.scope.dash_notMem_text,
      takeWhile_append_sep l'.scope.dash_notMem_text] at htexts
    exact ListenerScope.text_injective htexts
  rw [hscope] at h
  obtain ⟨-, hrest⟩ := List.cons.inj (List.append_cancel_left h)
  obtain ⟨hauth, hcount⟩ := AuthMap.nameText_cancel hrest
  exact ⟨hscope, hauth, countText_injective hcount⟩

end Listener

namespace ClusterState

variable {s : ClusterState} (e : Enumeration s)

/-! ## Distinct names -/

/-- A section of the listeners that has one for each of some ways to authenticate. -/
theorem nodup_titles {auths : List AuthMap} (hauths : auths.Nodup) (scope : ListenerScope)
    (count : Option Nat) : (auths.map fun auth => (scope, auth, count)).Nodup :=
  hauths.map_on fun _ _ _ _ heq => (Prod.mk.inj (Prod.mk.inj heq).2).1

theorem titles_scope (auths : List AuthMap) (scope : ListenerScope) (count : Option Nat) :
    ∀ title ∈ auths.map (fun auth => (scope, auth, count)), title.1 = scope := by
  rw [List.forall_mem_map]
  exact fun _ _ => rfl

/-- What the names of the extra listeners tell. -/
def extraTitles (offsets : List Nat) (auths : List AuthMap) :
    List (ListenerScope × AuthMap × Option Nat) :=
  offsets.zipIdx.flatMap fun item => auths.map fun auth => (.extra, auth, some item.2)

theorem nodup_extraTitles {auths : List AuthMap} (hauths : auths.Nodup) (offsets : List Nat) :
    (extraTitles offsets auths).Nodup := by
  have hcounts : offsets.zipIdx.Pairwise fun item item' => item.2 < item'.2 := by
    have hrange : (offsets.zipIdx.map Prod.snd).Pairwise (· < ·) := by
      rw [List.zipIdx_map_snd]
      exact List.pairwise_lt_range'
    exact List.pairwise_map.mp hrange
  refine List.nodup_flatMap.mpr ⟨fun item _ => nodup_titles hauths _ _, hcounts.imp ?_⟩
  intro item item' hlt title htitle htitle'
  obtain ⟨a, -, rfl⟩ := List.mem_map.mp htitle
  obtain ⟨a', -, heq⟩ := List.mem_map.mp htitle'
  have hcount := Option.some.inj (Prod.mk.inj (Prod.mk.inj heq).2).2
  omega

theorem extraTitles_scope (offsets : List Nat) (auths : List AuthMap) :
    ∀ title ∈ extraTitles offsets auths, title.1 = .extra := by
  intro title htitle
  obtain ⟨item, -, htitle⟩ := List.mem_flatMap.mp htitle
  exact titles_scope auths _ _ title htitle

/-- What the names of the listeners tell, section by section. -/
theorem placedListeners_titles (runs : Bool) :
    ((placedListeners e runs).map fun l => (l.scope, l.auth, l.extraCount)) =
      (.internal, internalAuth, none) :: (openAuth e).map (fun auth => (.client, auth, none)) ++
        (exposedAuth e).map (fun auth => (.external, auth, none)) ++
        extraTitles (extraOffsets s.config.extraListeners) (openAuth e) ++
        (if runs then [(.controller, internalAuth, none)] else []) := by
  have hextra (offsets : List Nat) :
      (offsets.zipIdx.flatMap (extraListenersOn (openAuth e))).map
        (fun l => (l.scope, l.auth, l.extraCount)) = extraTitles offsets (openAuth e) := by
    rw [List.map_flatMap]
    simp only [extraListenersOn, List.map_map]
    rfl
  unfold placedListeners
  rw [List.map_append, List.map_append, List.map_append, List.map_cons, hextra, List.map_map,
    List.map_map]
  cases runs <;> rfl

theorem nodup_placedListeners_titles (runs : Bool) :
    ((placedListeners e runs).map fun l => (l.scope, l.auth, l.extraCount)).Nodup := by
  have hclient := nodup_titles (nodup_openAuth e) .client none
  have hexternal := nodup_titles (nodup_exposedAuth e) .external none
  have hextra := nodup_extraTitles (nodup_openAuth e) (extraOffsets s.config.extraListeners)
  have hclients := titles_scope (openAuth e) .client none
  have hexternals := titles_scope (exposedAuth e) .external none
  have hextras := extraTitles_scope (extraOffsets s.config.extraListeners) (openAuth e)
  have hcontroller : (if runs then [(ListenerScope.controller, internalAuth, (none : Option Nat))]
      else []).Nodup := by
    cases runs <;> simp
  have hcontrollers : ∀ title ∈ (if runs then
      [(ListenerScope.controller, internalAuth, (none : Option Nat))] else []),
      title.1 = .controller := by
    cases runs <;> simp
  rw [placedListeners_titles]
  generalize (openAuth e).map (fun auth => (ListenerScope.client, auth, none)) = client at *
  generalize (exposedAuth e).map (fun auth => (ListenerScope.external, auth, none)) = external at *
  generalize extraTitles (extraOffsets s.config.extraListeners) (openAuth e) = extra at *
  generalize (if runs then [(ListenerScope.controller, internalAuth, (none : Option Nat))]
    else []) = controller at *
  simp only [List.cons_append, List.nodup_cons, List.nodup_append, List.mem_append]
  refine ⟨?_, ⟨⟨hclient, hexternal, ?_⟩, hextra, ?_⟩, hcontroller, ?_⟩
  · grind
  · grind
  · grind
  · grind

/-- No two listeners share a name: those of one scope differ in how to authenticate, or are
extra listeners of different items. -/
theorem nodup_placedListeners_names (runs : Bool) :
    ((placedListeners e runs).map Listener.name).Nodup := by
  have htitles := List.pairwise_map.mp (nodup_placedListeners_titles e runs)
  refine List.pairwise_map.mpr (htitles.imp ?_)
  intro l l' hne heq
  obtain ⟨hscope, hauth, hcount⟩ := Listener.name_injective heq
  exact hne (by rw [hscope, hauth, hcount])

/-! ## Hosts -/

theorem comma_notMem_items {value : Str} {items : List Str}
    (h : extraListenersPortValues value = some items) : ∀ item ∈ items, ',' ∉ item := by
  obtain ⟨-, rfl⟩ | ⟨rfl, -⟩ := extraListenersPortValues_eq_some h
  · simp
  · intro item hitem hc
    have hsplit := not_sep_of_mem_splitOnP (· == ',') value item
      (by rwa [← List.splitOn_eq_splitOnP]) ',' hc
    simp at hsplit

theorem comma_notMem_host {item : Str} {parts : Str × Str} (h : hostBaseport item = some parts)
    (hitem : ',' ∉ item) : ',' ∉ parts.1 := by
  have hjoined : [':'].intercalate (item.splitOn ':') = item := List.intercalate_splitOn ':'
  rw [hostBaseport_eq_some h] at hjoined
  intro hc
  exact hitem (hjoined ▸ List.mem_append_left _ hc)

theorem comma_notMem_extraListenersOf (unitId count baseport : Nat) {host : Str}
    (hhost : ',' ∉ host) (auths : List AuthMap) :
    ∀ l ∈ extraListenersOf unitId count baseport host auths, ',' ∉ l.host := by
  induction auths generalizing host with
  | nil => simp [extraListenersOf]
  | cons auth auths ih =>
    have hfilled : ',' ∉ replace "\x7bunit\x7d" (decimal unitId) host :=
      notMem_replace (isName_decimal unitId).no_comma hhost
    exact List.forall_mem_cons.mpr ⟨hfilled, ih hfilled⟩

theorem comma_notMem_extraListeners {value : Str} {extra : List Listener}
    (haccepted : extraListenersPortValues value = some s.config.extraListeners)
    (h : extraListeners e = some extra) : ∀ l ∈ extra, ',' ∉ l.host := by
  obtain ⟨items, lists, hitems, hlists, rfl⟩ := extraListeners_eq_some e h
  intro l hl
  obtain ⟨list, hlist, hl⟩ := List.mem_flatten.mp hl
  obtain ⟨numbered, hnumbered, hfor⟩ := exists_of_mem_mapM hlists hlist
  obtain ⟨item, hitem, hparts⟩ := exists_of_mem_mapM hitems (List.fst_mem_of_mem_zipIdx hnumbered)
  have hhost := comma_notMem_host hparts
    (comma_notMem_items haccepted item (List.mem_of_mem_filter hitem))
  obtain ⟨-, rfl⟩ | ⟨baseport, -, rfl⟩ := extraListenersFor_eq_some hfor
  · cases hl
  · exact comma_notMem_extraListenersOf _ _ _ hhost _ l hl

theorem external_host {external : List Listener} (h : externalListeners e = some external) :
    ∀ l ∈ external, l.host = s.unit.nodeAddress := by
  obtain ⟨-, lists, hlists, rfl⟩ | ⟨-, rfl⟩ := externalListeners_eq_some e h
  · intro l hl
    obtain ⟨list, hlist, hl⟩ := List.mem_flatten.mp hl
    obtain ⟨auth, -, hround⟩ := exists_of_mem_mapM hlists hlist
    rw [externalListener_eq_some hround] at hl
    obtain ⟨number, -, rfl⟩ := List.mem_map.mp hl
    rfl
  · simp

theorem comma_notMem_unitAddress : ',' ∉ s.unitAddress := by
  have happ : ',' ∉ s.app.text := fun hc => absurd (s.app.legal ',' hc) (by decide)
  unfold unitAddress internalAddress
  simp [happ, (isName_decimal _).no_comma]

/-- The listeners of the unit are advertised at hosts without a comma, if its node is. -/
theorem comma_notMem_hosts {value : Str} {listeners : List Listener}
    (haccepted : extraListenersPortValues value = some s.config.extraListeners)
    (hnode : ',' ∉ s.unit.nodeAddress) (h : allListeners e = some listeners) :
    ∀ l ∈ listeners, ',' ∉ l.host := by
  obtain ⟨external, extra, -, hexternal, hextra, rfl⟩ := allListeners_eq_some e h
  have hunit : ',' ∉ s.unitAddress := comma_notMem_unitAddress
  intro l hl
  simp only [List.mem_append, List.mem_cons] at hl
  rcases hl with (((rfl | hclient) | hexternals) | hextras) | hcontroller
  · exact hunit
  · obtain ⟨auth, -, rfl⟩ := List.mem_map.mp hclient
    exact hunit
  · rw [external_host e hexternal l hexternals]
    exact hnode
  · exact comma_notMem_extraListeners e haccepted hextra l hextras
  · split at hcontroller
    · obtain rfl := List.mem_singleton.mp hcontroller
      exact hunit
    · cases hcontroller

/-! ## Nothing raises -/

/-- An item with one colon is unpacked. -/
theorem hostBaseport_of_form {item : Str} (hcolon : ':' ∈ item) (hform : item.count ':' ≤ 1) :
    ∃ parts, hostBaseport item = some parts := by
  obtain ⟨host, baseport, rfl⟩ := List.append_of_mem hcolon
  rw [List.count_append, List.count_cons_self] at hform
  have hhost : ':' ∉ host := List.count_eq_zero.mp (by omega)
  have hbaseport : ':' ∉ baseport := List.count_eq_zero.mp (by omega)
  refine ⟨(host, baseport), ?_⟩
  unfold hostBaseport
  rw [List.splitOn_append_cons_self_of_not_mem hhost, List.splitOn_eq_singleton hbaseport]

end ClusterState

end KafkaCharm
