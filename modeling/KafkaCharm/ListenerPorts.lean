import KafkaCharm.ServerProperties
import Mathlib.Data.List.Nodup

namespace KafkaCharm

open PyText Fallible

/-! ## The table of ports -/

namespace AuthMap

theorem client_bounds (a : AuthMap) : 9092 ≤ a.ports.client ∧ a.ports.client ≤ 9096 := by
  rcases a with ⟨_ | _⟩ | ⟨_ | _⟩ | _ <;> decide

theorem ports_external (a : AuthMap) : a.ports.external = a.ports.client + 20000 := by
  rcases a with ⟨_ | _⟩ | ⟨_ | _⟩ | _ <;> rfl

theorem client_injective {a a' : AuthMap} (h : a.ports.client = a'.ports.client) : a = a' := by
  rcases a with ⟨_ | _⟩ | ⟨_ | _⟩ | _ <;> rcases a' with ⟨_ | _⟩ | ⟨_ | _⟩ | _ <;>
    first | rfl | exact absurd h (by decide)

end AuthMap

/-! ## The numbers of the extra listeners -/

/-- The numbers that the ports of the extra listeners are offset by. -/
def extraOffsets (extraListeners : List Str) : List Nat :=
  (extraListeners.filter (':' ∈ ·)).filterMap listenerPort

theorem listenerPort_bounds {item : Str} {base : Nat} (h : listenerPort item = some base) :
    20000 < base ∧ base < 50000 := by
  obtain ⟨-, hrange⟩ := Option.filter_eq_some_iff.mp h
  simpa using hrange

/-- The check of each number against the one before it compares it with all before it. -/
theorem portsApart_iff {current : Nat} {ports : List Nat} :
    portsApart current ports = true ↔
      (∀ port ∈ ports, current + 100 < port) ∧ ports.Pairwise (fun p q => p + 100 < q) := by
  induction ports generalizing current with
  | nil => simp [portsApart]
  | cons port ports ih =>
    simp only [portsApart, Bool.and_eq_true, decide_eq_true_eq, ih, List.forall_mem_cons,
      List.pairwise_cons]
    constructor
    · rintro ⟨⟨-, hport⟩, habove, hpairwise⟩
      refine ⟨⟨hport, ?_⟩, habove, hpairwise⟩
      intro p hp
      have := habove p hp
      omega
    · rintro ⟨⟨hport, -⟩, habove, hpairwise⟩
      exact ⟨⟨by omega, hport⟩, habove, hpairwise⟩

section
variable {value : Str} {items : List Str}

theorem extraListenersPortValues_eq_some (h : extraListenersPortValues value = some items) :
    value = [] ∧ items = [] ∨ items = value.splitOn ',' ∧ ∃ ports,
      (items.filter (':' ∈ ·)).mapM listenerPort = some ports ∧ portsApart 0 ports = true := by
  unfold extraListenersPortValues at h
  split at h
  case isTrue hnil => exact .inl ⟨hnil, (Option.some.inj h).symm⟩
  case isFalse =>
    obtain ⟨ports, hports, h⟩ := Option.bind_eq_some_iff.mp h
    split at h
    case isTrue hchecks =>
      obtain rfl := Option.some.inj h
      exact .inr ⟨rfl, ports, hports, (Bool.and_eq_true_iff.mp hchecks).1⟩
    case isFalse => cases h

/-- Every item with a colon has a number, and the numbers are apart. -/
theorem extraListenersPortValues_spec (h : extraListenersPortValues value = some items) :
    (items.filter (':' ∈ ·)).mapM listenerPort = some (extraOffsets items) ∧
      (extraOffsets items).Pairwise (fun p q => p + 100 < q) := by
  obtain ⟨-, rfl⟩ | ⟨-, ports, hports, hapart⟩ := extraListenersPortValues_eq_some h
  · exact ⟨rfl, List.Pairwise.nil⟩
  · have hoffsets : extraOffsets items = ports := filterMap_of_mapM hports
    rw [hoffsets]
    exact ⟨hports, (portsApart_iff.mp hapart).2⟩

theorem extraOffsets_bounds {base : Nat} (h : base ∈ extraOffsets items) :
    20000 < base ∧ base < 50000 := by
  obtain ⟨item, -, hport⟩ := List.mem_filterMap.mp h
  exact listenerPort_bounds hport

end

/-! ## The listeners without their hosts -/

namespace Listener

variable (l : Listener)

/-- A listener without the place that it is advertised at. -/
def placed : Listener := { l with host := [], nodePort := none }

@[simp] theorem placed_auth : l.placed.auth = l.auth := rfl
@[simp] theorem placed_port : l.placed.port = l.port := rfl
@[simp] theorem placed_name : l.placed.name = l.name := rfl

end Listener

/-- The extra listener of an item with the given number, in its place among the items. -/
def extraListenerOn (auth : AuthMap) (base count : Nat) : Listener :=
  { auth := auth, scope := .extra, host := [], baseport := base, extraCount := some count }

/-- The extra listeners of an item. -/
def extraListenersOn (auths : List AuthMap) (item : Nat × Nat) : List Listener :=
  auths.map fun auth => extraListenerOn auth item.1 item.2

theorem extraListenersOf_placed (unitId count base : Nat) (host : Str) (auths : List AuthMap) :
    (extraListenersOf unitId count base host auths).map Listener.placed =
      extraListenersOn auths (base, count) := by
  induction auths generalizing host with
  | nil => rfl
  | cons auth auths ih =>
    rw [extraListenersOf, List.map_cons, ih]
    rfl

theorem extraListenersFor_placed {unitId : Nat} {auths : List AuthMap} {item : (Str × Str) × Nat}
    {listeners : List Listener} (h : extraListenersFor unitId auths item = some listeners) :
    listeners.map Listener.placed =
      (digitsInt item.1.2).toList.flatMap fun base => extraListenersOn auths (base, item.2) := by
  obtain ⟨rfl, rfl⟩ | ⟨base, hbase, rfl⟩ := extraListenersFor_eq_some h
  · simp [extraListenersOn]
  · rw [extraListenersOf_placed, hbase]
    simp

/-- The number that an item was checked with is the one its listeners are offset by. -/
theorem hostBaseport_number {item : Str} {parts : Str × Str} {base : Nat}
    (hparts : hostBaseport item = some parts) (hbase : listenerPort item = some base) :
    digitsInt parts.2 = some base := by
  obtain ⟨hnumber, -⟩ := Option.filter_eq_some_iff.mp hbase
  rw [hostBaseport_eq_some hparts] at hnumber
  exact hnumber

/-- The items that are unpacked and the numbers that were checked are in the same places. -/
theorem zipIdx_offsets {given : List Str} {items : List (Str × Str)} {offsets : List Nat}
    (auths : List AuthMap) (hitems : given.mapM hostBaseport = some items)
    (hoffsets : given.mapM listenerPort = some offsets) (k : Nat) :
    ((items.zipIdx k).flatMap fun item =>
        (digitsInt item.1.2).toList.flatMap fun base => extraListenersOn auths (base, item.2)) =
      (offsets.zipIdx k).flatMap (extraListenersOn auths) := by
  induction given generalizing items offsets k with
  | nil =>
    obtain rfl : [] = items := Option.some.inj hitems
    obtain rfl : [] = offsets := Option.some.inj hoffsets
    rfl
  | cons item given ih =>
    obtain ⟨parts, items, hparts, hrest, rfl⟩ := mapM_cons_eq_some hitems
    obtain ⟨base, offsets, hbase, hrest', rfl⟩ := mapM_cons_eq_some hoffsets
    rw [List.zipIdx_cons, List.zipIdx_cons, List.flatMap_cons, List.flatMap_cons, ih hrest hrest',
      hostBaseport_number hparts hbase]
    simp

namespace ClusterState

variable {s : ClusterState} (e : Enumeration s)

/-- The ways to authenticate that there is an external listener for. -/
def exposedAuth : List AuthMap :=
  if s.config.exposeExternal then
    (openAuth e).filter fun auth => (s.listenerNodePort auth).given.isSome
  else []

/-- The listeners of the unit without their hosts, and that for the controllers if it `runs`. -/
def placedListeners (runs : Bool) : List Listener :=
  { auth := internalAuth, scope := .internal, host := [] } ::
    ((openAuth e).map fun auth => { auth := auth, scope := .client, host := [] }) ++
    ((exposedAuth e).map fun auth => { auth := auth, scope := .external, host := [] }) ++
    (extraOffsets s.config.extraListeners).zipIdx.flatMap (extraListenersOn (openAuth e)) ++
    (if runs then [{ auth := internalAuth, scope := .controller, host := [] }] else [])

/-- The external listeners of one round, and of all rounds. -/
theorem flatMap_exposed (auths : List AuthMap) :
    (auths.flatMap fun auth => (s.listenerNodePort auth).given.toList.map fun _ =>
        ({ auth := auth, scope := .external, host := [] } : Listener)) =
      (auths.filter fun auth => (s.listenerNodePort auth).given.isSome).map
        fun auth => { auth := auth, scope := .external, host := [] } := by
  induction auths with
  | nil => rfl
  | cons auth auths ih =>
    rw [List.flatMap_cons, ih, List.filter_cons]
    cases (s.listenerNodePort auth).given with
    | none => rfl
    | some number => rfl

theorem externalListeners_placed {external : List Listener}
    (h : externalListeners e = some external) :
    external.map Listener.placed =
      (exposedAuth e).map fun auth => { auth := auth, scope := .external, host := [] } := by
  have hround (auth : AuthMap) (listeners : List Listener)
      (h : s.externalListener auth = some listeners) :
      listeners.map Listener.placed = (s.listenerNodePort auth).given.toList.map fun _ =>
        { auth := auth, scope := .external, host := [] } := by
    rw [externalListener_eq_some h, List.map_map]
    rfl
  unfold exposedAuth
  obtain ⟨hexpose, lists, hlists, rfl⟩ | ⟨hexpose, rfl⟩ := externalListeners_eq_some e h
  · rw [map_flatten_mapM hround hlists, if_pos hexpose, flatMap_exposed]
  · rw [if_neg (ne_true_of_eq_false hexpose)]
    rfl

variable {value : Str}

theorem extraListeners_placed {extra : List Listener}
    (haccepted : extraListenersPortValues value = some s.config.extraListeners)
    (h : extraListeners e = some extra) :
    extra.map Listener.placed = (extraOffsets s.config.extraListeners).zipIdx.flatMap
      (extraListenersOn (openAuth e)) := by
  obtain ⟨items, lists, hitems, hlists, rfl⟩ := extraListeners_eq_some e h
  rw [map_flatten_mapM (fun _ _ => extraListenersFor_placed) hlists]
  exact zipIdx_offsets (openAuth e) hitems (extraListenersPortValues_spec haccepted).1 0

/-- The listeners of the unit, but for where they are advertised. -/
theorem allListeners_placed {listeners : List Listener}
    (haccepted : extraListenersPortValues value = some s.config.extraListeners)
    (h : allListeners e = some listeners) :
    listeners.map Listener.placed = placedListeners e s.roles.controller := by
  obtain ⟨external, extra, -, hexternal, hextra, rfl⟩ := allListeners_eq_some e h
  have hcontroller : (if s.roles.controller then s.controllerListeners else []).map Listener.placed =
      if s.roles.controller then [{ auth := internalAuth, scope := .controller, host := [] }]
      else [] := by
    split <;> rfl
  rw [List.map_append, List.map_append, List.map_append, List.map_cons,
    externalListeners_placed e hexternal, extraListeners_placed e haccepted hextra, hcontroller,
    listenersFor, List.map_map]
  rfl

/-! ## Clashes -/

theorem nodup_openAuth : (openAuth e).Nodup := by
  unfold openAuth authMapsFor defaultAuth
  split_ifs <;> simp

theorem nodup_exposedAuth : (exposedAuth e).Nodup := by
  unfold exposedAuth
  split
  · exact (nodup_openAuth e).filter _
  · exact List.nodup_nil

/-- The ports of the extra listeners. -/
def extraPorts (offsets : List Nat) (auths : List AuthMap) : List Nat :=
  offsets.flatMap fun base => auths.map fun auth => auth.ports.client + base

/-- The ports of all listeners. -/
theorem placedListeners_ports (runs : Bool) : (placedListeners e runs).map Listener.port =
    19093 :: (openAuth e).map (·.ports.client) ++ (exposedAuth e).map (·.ports.external) ++
      extraPorts (extraOffsets s.config.extraListeners) (openAuth e) ++
      (if runs then [9098] else []) := by
  have hextra (offsets : List Nat) :
      (offsets.zipIdx.flatMap (extraListenersOn (openAuth e))).map Listener.port =
        extraPorts offsets (openAuth e) := by
    conv_rhs => rw [extraPorts, ← List.zipIdx_map_fst 0 offsets, List.flatMap_map]
    rw [List.map_flatMap]
    simp only [extraListenersOn, List.map_map]
    rfl
  have hcontroller : (if runs then
      [({ auth := internalAuth, scope := .controller, host := [] } : Listener)] else []).map
        Listener.port = if runs then [9098] else [] := by
    split <;> rfl
  unfold placedListeners
  rw [List.map_append, List.map_append, List.map_append, List.map_cons, hextra, hcontroller,
    List.map_map, List.map_map]
  rfl

theorem mem_extraPorts {offsets : List Nat} {auths : List AuthMap} {port : Nat} :
    port ∈ extraPorts offsets auths ↔
      ∃ base ∈ offsets, ∃ auth ∈ auths, auth.ports.client + base = port := by
  simp only [extraPorts, List.mem_flatMap, List.mem_map]

/-- The ports for clients span less than the numbers lie apart. -/
theorem nodup_extraPorts {offsets : List Nat} {auths : List AuthMap} (hauths : auths.Nodup)
    (hoffsets : offsets.Pairwise fun p q => p + 100 < q) : (extraPorts offsets auths).Nodup := by
  refine List.nodup_flatMap.mpr ⟨?_, hoffsets.imp ?_⟩
  · intro base _
    refine hauths.map_on ?_
    intro a _ a' _ heq
    exact AuthMap.client_injective (Nat.add_right_cancel heq)
  · intro base base' hapart port hport hport'
    obtain ⟨a, -, rfl⟩ := List.mem_map.mp hport
    obtain ⟨a', -, heq⟩ := List.mem_map.mp hport'
    have ha := a.client_bounds
    have ha' := a'.client_bounds
    omega

/-- A number by which the port of an extra listener becomes that of an external one. -/
def ExposedOffset (base : Nat) : Prop :=
  ∃ auth ∈ openAuth e, ∃ exposed ∈ exposedAuth e,
    base = 20000 + (exposed.ports.client - auth.ports.client)

instance (base : Nat) : Decidable (ExposedOffset e base) :=
  inferInstanceAs (Decidable (∃ auth ∈ openAuth e, ∃ exposed ∈ exposedAuth e,
    base = 20000 + (exposed.ports.client - auth.ports.client)))

theorem external_extra_disjoint_iff :
    (∀ port ∈ (exposedAuth e).map (·.ports.external),
      ∀ port' ∈ extraPorts (extraOffsets s.config.extraListeners) (openAuth e), port ≠ port') ↔
      ∀ base ∈ extraOffsets s.config.extraListeners, ¬ ExposedOffset e base := by
  constructor
  · rintro hapart base hbase ⟨auth, hauth, exposed, hexposed, heq⟩
    refine hapart _ (List.mem_map_of_mem hexposed) (auth.ports.client + base)
      (mem_extraPorts.mpr ⟨base, hbase, auth, hauth, rfl⟩) ?_
    have hexternal := exposed.ports_external
    have hbounds := extraOffsets_bounds hbase
    omega
  · intro hoffsets port hport port' hport' heq
    obtain ⟨exposed, hexposed, rfl⟩ := List.mem_map.mp hport
    obtain ⟨base, hbase, auth, hauth, rfl⟩ := mem_extraPorts.mp hport'
    refine hoffsets base hbase ⟨auth, hauth, exposed, hexposed, ?_⟩
    have hexternal := exposed.ports_external
    have hbounds := extraOffsets_bounds hbase
    omega

/-! ### Ranges -/

theorem client_ports_range (auths : List AuthMap) :
    ∀ port ∈ auths.map (·.ports.client), 9092 ≤ port ∧ port ≤ 9096 := by
  rw [List.forall_mem_map]
  exact fun auth _ => auth.client_bounds

theorem external_ports_range (auths : List AuthMap) :
    ∀ port ∈ auths.map (·.ports.external), 29092 ≤ port ∧ port ≤ 29096 := by
  rw [List.forall_mem_map]
  intro auth _
  have hclient := auth.client_bounds
  have hexternal := auth.ports_external
  omega

theorem extraPorts_range (items : List Str) (auths : List AuthMap) :
    ∀ port ∈ extraPorts (extraOffsets items) auths, 29092 < port ∧ port < 59096 := by
  intro port hport
  obtain ⟨base, hbase, auth, -, rfl⟩ := mem_extraPorts.mp hport
  have hclient := auth.client_bounds
  have hbounds := extraOffsets_bounds hbase
  omega

/-- A list that has the port of the controllers, if anything. -/
theorem controller_port_eq (runs : Bool) : ∀ port ∈ (if runs then [9098] else []), port = 9098 := by
  cases runs <;> simp

theorem placedListeners_range (runs : Bool) :
    ∀ port ∈ (placedListeners e runs).map Listener.port, 1 ≤ port ∧ port ≤ 65535 := by
  intro port hport
  rw [placedListeners_ports] at hport
  simp only [List.mem_append, List.mem_cons] at hport
  rcases hport with (((rfl | hclient) | hexternal) | hextra) | hcontroller
  · decide
  · have := client_ports_range _ port hclient
    omega
  · have := external_ports_range _ port hexternal
    omega
  · have := extraPorts_range _ _ port hextra
    omega
  · have := controller_port_eq _ port hcontroller
    omega

/-- The ports are distinct but for those of an external and an extra listener: all others lie
in ranges of their own. -/
theorem nodup_placedListeners_iff (runs : Bool)
    (haccepted : extraListenersPortValues value = some s.config.extraListeners) :
    ((placedListeners e runs).map Listener.port).Nodup ↔
      ∀ base ∈ extraOffsets s.config.extraListeners, ¬ ExposedOffset e base := by
  have hclient : ((openAuth e).map (·.ports.client)).Nodup :=
    (nodup_openAuth e).map_on fun _ _ _ _ => AuthMap.client_injective
  have hexternal : ((exposedAuth e).map (·.ports.external)).Nodup := by
    refine (nodup_exposedAuth e).map_on ?_
    intro a _ a' _ heq
    rw [a.ports_external, a'.ports_external] at heq
    exact AuthMap.client_injective (Nat.add_right_cancel heq)
  have hextra : (extraPorts (extraOffsets s.config.extraListeners) (openAuth e)).Nodup :=
    nodup_extraPorts (nodup_openAuth e) (extraListenersPortValues_spec haccepted).2
  have hcontroller : (if runs then [9098] else []).Nodup := by
    split <;> simp
  have hclients := client_ports_range (openAuth e)
  have hexternals := external_ports_range (exposedAuth e)
  have hextras := extraPorts_range s.config.extraListeners (openAuth e)
  have hcontrollers := controller_port_eq runs
  rw [placedListeners_ports, ← external_extra_disjoint_iff e]
  generalize (openAuth e).map (·.ports.client) = client at *
  generalize (exposedAuth e).map (·.ports.external) = external at *
  generalize extraPorts (extraOffsets s.config.extraListeners) (openAuth e) = extra at *
  generalize (if runs then [9098] else []) = controller at *
  simp only [List.cons_append, List.nodup_cons, List.nodup_append, List.mem_append]
  constructor
  · rintro ⟨-, ⟨-, -, hapart⟩, -, -⟩ port hport port' hport'
    exact hapart port (.inr hport) port' hport'
  · intro hapart
    refine ⟨?_, ⟨⟨hclient, hexternal, ?_⟩, hextra, ?_⟩, hcontroller, ?_⟩
    · grind
    · grind
    · grind
    · grind

/-- The listeners of a unit have ports of their own, all of them valid, exactly when no number
of an item of `extra-listeners` is 20000 and the distance from the port for clients of an
enabled way to authenticate up to that of one that is exposed. -/
theorem listener_ports_distinct_iff {listeners : List Listener}
    (haccepted : extraListenersPortValues value = some s.config.extraListeners)
    (h : allListeners e = some listeners) :
    ((listeners.map Listener.port).Nodup ∧ ∀ l ∈ listeners, 1 ≤ l.port ∧ l.port ≤ 65535) ↔
      ∀ base ∈ extraOffsets s.config.extraListeners, ¬ ExposedOffset e base := by
  have hports : listeners.map Listener.port =
      (placedListeners e s.roles.controller).map Listener.port := by
    rw [← allListeners_placed e haccepted h, List.map_map]
    rfl
  have hrange : ∀ l ∈ listeners, 1 ≤ l.port ∧ l.port ≤ 65535 := by
    rw [← List.forall_mem_map (P := fun port => 1 ≤ port ∧ port ≤ 65535), hports]
    exact placedListeners_range e _
  rw [hports, nodup_placedListeners_iff e _ haccepted]
  exact and_iff_left hrange

end ClusterState

/-- A unit that is exposed and serves a client and OAuth, with one item of `extra-listeners`. -/
def ClusterState.exposed (item : Str) : ClusterState :=
  { ClusterState.single { CharmConfig.deployed none with
      exposeExternal := true, extraListeners := [item] } with
    clientRelations := [⟨3, true, [], []⟩]
    oauth := some ⟨"https://hydra", "https://hydra/jwks", "https://hydra/introspect", true, true⟩
    listenerNodePort := fun auth => .ok (some (auth.ports.client + 22000)) }

/-- With 30000 added, the extra listeners are clear of all others. -/
theorem listener_ports_distinct_far :
    let item : Str := "worker-\x7bunit\x7d.domain.com:30000"
    let e := Enumeration.listed (ClusterState.exposed item)
    extraListenersPortValues item = some (ClusterState.exposed item).config.extraListeners ∧
    ∃ listeners, ClusterState.allListeners e = some listeners ∧
      (listeners.map Listener.port).Nodup ∧ ∀ l ∈ listeners, 1 ≤ l.port ∧ l.port ≤ 65535 := by
  intro item e
  have haccepted : extraListenersPortValues item =
      some (ClusterState.exposed item).config.extraListeners := by decide +kernel
  have hbuilt : (ClusterState.allListeners e).isSome = true := by decide +kernel
  have hoffsets : ∀ base ∈ extraOffsets (ClusterState.exposed item).config.extraListeners,
      ¬ ClusterState.ExposedOffset e base := by decide +kernel
  obtain ⟨listeners, hlisteners⟩ := Option.isSome_iff_exists.mp hbuilt
  exact ⟨haccepted, listeners, hlisteners,
    (ClusterState.listener_ports_distinct_iff e haccepted hlisteners).mpr hoffsets⟩

/-- The number 20003 is accepted, and the extra listener for SCRAM takes the port 29095 of the
external listener for OAuth. -/
theorem extra_listener_takes_external_port :
    let item : Str := "worker-\x7bunit\x7d.domain.com:20003"
    let e := Enumeration.listed (ClusterState.exposed item)
    extraListenersPortValues item = some (ClusterState.exposed item).config.extraListeners ∧
    ∃ listeners, ClusterState.allListeners e = some listeners ∧
      listeners.map Listener.port = [19093, 9092, 9095, 29092, 29095, 29095, 29098, 9098] ∧
      ¬ (listeners.map Listener.port).Nodup := by
  intro item e
  have haccepted : extraListenersPortValues item =
      some (ClusterState.exposed item).config.extraListeners := by decide +kernel
  have hports : (ClusterState.allListeners e).map (fun listeners => listeners.map Listener.port) =
      some [19093, 9092, 9095, 29092, 29095, 29095, 29098, 9098] := by decide +kernel
  obtain ⟨listeners, hlisteners, hports⟩ := Option.map_eq_some_iff.mp hports
  refine ⟨haccepted, listeners, hlisteners, hports, ?_⟩
  rw [hports]
  decide

end KafkaCharm
