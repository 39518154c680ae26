import KafkaCharm.ExternalServices

namespace KafkaCharm

open PyText Fallible Runs

namespace Cluster

variable {w w' : Cluster}

/-! ## Where a connection ends -/

/-- A node port leads to the pods of its service that run on the node. -/
theorem mem_endpoints_iff (hw : w.Consistent) {name : Str} {s : Service}
    (hs : Dict.get? w.services name = some s) {p : ServicePort} (hp : p ∈ s.ports) {number : Nat}
    (hnumber : p.nodePort = some number) {address : Str} {target : Str × Nat} :
    target ∈ w.endpoints address number ↔ target.2 = p.port ∧
      ∃ pod, Dict.get? w.pods target.1 = some pod ∧ s.selector.selects target.1 pod = true ∧
        w.hosts address pod = true := by
  have htarget : ∀ q ∈ s.ports, q.targetPort = q.port := fun q hq =>
    (hw.applied name s hs).2.targetPort { q with nodePort := none } (List.mem_map.mpr ⟨q, hq, rfl⟩)
  simp only [endpoints, List.mem_flatMap, List.mem_map, List.mem_filter, Bool.and_eq_true,
    decide_eq_true_eq]
  constructor
  · rintro ⟨⟨name', s'⟩, hentry, q, ⟨hq, hqnumber⟩, ⟨podName, pod⟩, ⟨hpod, hselects, hhosts⟩, rfl⟩
    have hs' := (Dict.mem_iff_get? hw.serviceKeys).mp hentry
    obtain ⟨rfl, hport⟩ := hw.once name s name' s' hs hs' p hp q hq (hnumber.trans hqnumber.symm)
    obtain rfl : s = s' := Option.some.inj (hs.symm.trans hs')
    exact ⟨(htarget q hq).trans hport.symm, pod, (Dict.mem_iff_get? hw.podKeys).mp hpod, hselects,
      hhosts⟩
  · rintro ⟨hport, pod, hpod, hselects, hhosts⟩
    refine ⟨(name, s), (Dict.mem_iff_get? hw.serviceKeys).mpr hs, p, ⟨hp, hnumber⟩,
      (target.1, pod), ⟨(Dict.mem_iff_get? hw.podKeys).mpr hpod, hselects, hhosts⟩, ?_⟩
    rw [htarget p hp, ← hport]

/-- The node port that is asked for leads to the port of that way to authenticate. -/
theorem nodePortOf_leads (hw : w.Consistent) {t s : Service} (ht : Applied t)
    (hs : Dict.get? w.services t.name = some s) {auth : AuthMap} {port : Nat}
    (hport : (t.ports.find? (·.isFor auth)).map ServicePort.port = some port) :
    ∃ number, number ≠ 0 ∧ w.nodePortOf t.name auth = .ok (some number) ∧
      ∀ address target, target ∈ w.endpoints address number ↔ target.2 = port ∧
        ∃ pod, Dict.get? w.pods target.1 = some pod ∧ t.selector.selects target.1 pod = true ∧
          w.hosts address pod = true := by
  obtain ⟨p, hfind, rfl⟩ := Option.map_eq_some_iff.mp hport
  obtain ⟨number, rfl⟩ := eq_numberedService hw ht hs
  have hp := List.mem_of_find?_eq_some hfind
  have hnumbered := List.mem_map_of_mem (f := fun p => { p with nodePort := some (number p.port) }) hp
  obtain ⟨given, hgiven, hne⟩ := hw.numbered _ _ hs _ hnumbered
  obtain rfl := Option.some.inj hgiven
  refine ⟨number p.port, hne, ?_, fun address target => mem_endpoints_iff hw hs hnumbered rfl⟩
  have hget : (numberedService t number).getNodePort auth = some (some (number p.port)) := by
    rw [Service.getNodePort, numberedService, List.find?_map]
    exact congrArg (Option.map _) (congrArg (Option.map _) hfind)
  rw [nodePortOf, hs]
  simp only [hget]

theorem mem_endpoints_listener (hw : w.Consistent) {p : UnitPod} {auth : AuthMap} {s : Service}
    (hs : Dict.get? w.services (p.k8s.listenerServiceName auth) = some s) :
    ∃ number, number ≠ 0 ∧ w.getListenerNodeport p.k8s auth = .ok (some number) ∧
      ∀ address target, target ∈ w.endpoints address number ↔ target.2 = auth.ports.external ∧
        ∃ pod, Dict.get? w.pods target.1 = some pod ∧
          (Selector.podName p.podName).selects target.1 pod = true ∧ w.hosts address pod = true := by
  have hfor : ServicePort.isFor auth ⟨p.k8s.listenerServiceName auth ++ "-port",
      auth.ports.external, auth.ports.external, none⟩ = true := by
    rw [ServicePort.isFor, Bool.and_eq_true, decide_eq_true_eq, decide_eq_true_eq]
    refine ⟨⟨p.podName ++ ['-'], '-' :: auth.shortMechanism ++ "-port", ?_⟩,
      ⟨p.podName ++ '-' :: auth.protocolLabel ++ ['-'], "-port", ?_⟩⟩
    · simp [K8sManager.listenerServiceName, UnitPod.k8s]
    · simp [K8sManager.listenerServiceName, UnitPod.k8s]
  refine nodePortOf_leads hw (.listener p auth) hs ?_
  rw [K8sManager.buildListenerService, List.find?_cons_of_pos hfor]
  rfl

/-- Among the ports for first connections the one for SASL is found by its name. -/
theorem find_bootstrapPorts (protocol : SaslProtocol) :
    (K8sManager.bootstrapPorts.find? (·.isFor (.scram protocol))).map ServicePort.port =
      some (AuthMap.scram protocol).ports.external := by
  cases protocol <;> decide

/-- The name of the port for SASL over TLS mentions SSL twice, and it comes first. -/
example : (K8sManager.bootstrapPorts.find? (·.isFor .ssl)).map ServicePort.port =
    some (AuthMap.scram .ssl).ports.external := by
  decide

theorem exists_of_nodePortOf {name : Str} {auth : AuthMap} {number : Option Nat}
    (h : w.nodePortOf name auth = .ok number) : ∃ s, Dict.get? w.services name = some s := by
  cases hs : Dict.get? w.services name with
  | none =>
    rw [nodePortOf, hs] at h
    cases h
  | some s => exact ⟨s, rfl⟩

/-- The address that is found for a node is one of the node. -/
theorem hosts_of_getNodeIp {k : K8sManager} {ip : Str} (h : w.getNodeIp k = .ok ip)
    (hip : ip ≠ []) :
    ∃ pod, Dict.get? w.pods k.podName = some pod ∧ w.hosts ip pod = true := by
  unfold getNodeIp at h
  cases hnode : w.getNode k with
  | error error =>
    rw [hnode] at h
    cases h
  | ok addresses =>
    have haddress : ((addresses.find? (·.1 ∈ addressTypes)).map Prod.snd).getD [] = ip := by
      rw [hnode] at h
      change (if addresses = [] then Except.error KubeError.failed else _) = _ at h
      split at h
      · cases h
      · exact Except.ok.inj h
    unfold getNode at hnode
    split at hnode
    · cases hnode
    · rename_i pod hpod
      split at hnode
      · cases hnode
      · split at hnode
        · cases hnode
        · rename_i found hfound
          obtain rfl := Except.ok.inj hnode
          refine ⟨pod, hpod, ?_⟩
          cases hfind : found.find? (·.1 ∈ addressTypes) with
          | none =>
            rw [hfind] at haddress
            exact absurd haddress.symm hip
          | some entry =>
            rw [hfind] at haddress
            rw [hosts, hfound, Option.any_some, List.any_eq_true]
            exact ⟨entry, List.mem_of_find?_eq_some hfind, decide_eq_true haddress⟩

end Cluster

/-! ## What the units see -/

/-- The unit has read the services and the nodes from Kubernetes. -/
structure ReadFrom (w : Cluster) (p : UnitPod) (s : ClusterState) : Prop where
  app : s.app = p.app
  unit : s.unit.unitId = p.unit
  listener : ∀ auth, s.listenerNodePort auth = w.getListenerNodeport p.k8s auth
  bootstrap : ∀ auth, s.bootstrapNodePort auth = w.getBootstrapNodeport p.k8s auth
  nodeIps : ∀ b ∈ s.brokers, b.nodeIp = w.getNodeIp (UnitPod.k8s ⟨p.app, b.unitId, p.worded⟩)

/-- The event leaves the service of the name. -/
def ServiceEvent.KeepsService (name : Str) : ServiceEvent → Prop
  | .serviceDeleted other => other ≠ name
  | _ => True

instance (name : Str) (event : ServiceEvent) : Decidable (event.KeepsService name) :=
  match event with
  | .serviceDeleted other => inferInstanceAs (Decidable (other ≠ name))
  | .nodeJoined .. | .nodeLeft _ | .podScheduled .. | .podDeleted _ | .servicesUpdated .. =>
    .isTrue trivial

/-- The event leaves the pod where it is, and the addresses of its node. -/
def ServiceEvent.KeepsPod (podName nodeName : Str) : ServiceEvent → Prop
  | .nodeJoined name _ => name ≠ nodeName
  | .nodeLeft name => name ≠ nodeName
  | .podScheduled pod _ => pod.podName ≠ podName
  | .podDeleted name => name ≠ podName
  | _ => True

instance (podName nodeName : Str) (event : ServiceEvent) :
    Decidable (event.KeepsPod podName nodeName) :=
  match event with
  | .nodeJoined name _ => inferInstanceAs (Decidable (name ≠ nodeName))
  | .nodeLeft name => inferInstanceAs (Decidable (name ≠ nodeName))
  | .podScheduled pod _ => inferInstanceAs (Decidable (pod.podName ≠ podName))
  | .podDeleted name => inferInstanceAs (Decidable (name ≠ podName))
  | .serviceDeleted _ | .servicesUpdated .. => .isTrue trivial

namespace Cluster

/-- The name of the node that the pod runs on. -/
def nodeOf (w : Cluster) (podName : Str) : Str := ((Dict.get? w.pods podName).map Pod.nodeName).getD []

variable {w w' : Cluster}

theorem step_keepsService (hw : w.Consistent) {event : ServiceEvent} (h : w.step event = some w')
    {name : Str} (hkeeps : event.KeepsService name) {s : Service}
    (hs : Dict.get? w.services name = some s) : Dict.get? w'.services name = some s := by
  cases event with
  | nodeJoined other addresses =>
    cases h
    exact hs
  | nodeLeft other =>
    cases h
    exact hs
  | podScheduled pod nodeName =>
    cases h
    exact hs
  | podDeleted other =>
    cases h
    exact hs
  | serviceDeleted other =>
    cases h
    exact (Dict.get?_erase).trans ((if_neg hkeeps).trans hs)
  | servicesUpdated pod expose auths answer => exact (updateExternalServices_grows hw h).services _ s hs

theorem step_keepsPod (hw : w.Consistent) {event : ServiceEvent} (h : w.step event = some w')
    {podName nodeName : Str} (hkeeps : event.KeepsPod podName nodeName) :
    Dict.get? w'.pods podName = Dict.get? w.pods podName ∧
      Dict.get? w'.nodes nodeName = Dict.get? w.nodes nodeName := by
  cases event with
  | nodeJoined other addresses =>
    cases h
    exact ⟨rfl, (Dict.get?_set).trans (if_neg hkeeps)⟩
  | nodeLeft other =>
    cases h
    exact ⟨rfl, (Dict.get?_erase).trans (if_neg hkeeps)⟩
  | podScheduled pod node =>
    cases h
    exact ⟨(Dict.get?_set).trans (if_neg hkeeps), rfl⟩
  | podDeleted other =>
    cases h
    exact ⟨(Dict.get?_erase).trans (if_neg hkeeps), rfl⟩
  | serviceDeleted other =>
    cases h
    exact ⟨rfl, rfl⟩
  | servicesUpdated pod expose auths answer =>
    have hgrows := updateExternalServices_grows hw h
    rw [hgrows.pods, hgrows.nodes]
    exact ⟨rfl, rfl⟩

/-- A service stays as it is while it is not deleted. -/
theorem reaches_keepsService {ok : Cluster → ServiceEvent → Prop} (hw : w.Consistent) {name : Str}
    (hok : ∀ a event, ok a event → event.KeepsService name) (h : Reaches step ok w w')
    {s : Service} (hs : Dict.get? w.services name = some s) :
    Dict.get? w'.services name = some s := by
  have hall : w'.Consistent ∧ Dict.get? w'.services name = some s := by
    refine h.invariant (I := fun a => a.Consistent ∧ Dict.get? a.services name = some s) ⟨hw, hs⟩ ?_
    rintro a event b ⟨ha, hsa⟩ hevent hstep
    exact ⟨step_consistent ha hstep, step_keepsService ha hstep (hok a event hevent) hsa⟩
  exact hall.2

/-- A pod stays at the addresses of its node while neither changes. -/
theorem reaches_keepsPod {ok : Cluster → ServiceEvent → Prop} (hw : w.Consistent)
    {podName : Str} {pod : Pod} (hpod : Dict.get? w.pods podName = some pod)
    (hok : ∀ a event, ok a event → event.KeepsPod podName pod.nodeName)
    (h : Reaches step ok w w') :
    Dict.get? w'.pods podName = some pod ∧
      ∀ address, w'.hosts address pod = w.hosts address pod := by
  have hall : w'.Consistent ∧ Dict.get? w'.pods podName = some pod ∧
      Dict.get? w'.nodes pod.nodeName = Dict.get? w.nodes pod.nodeName := by
    refine h.invariant (I := fun a => a.Consistent ∧ Dict.get? a.pods podName = some pod ∧
      Dict.get? a.nodes pod.nodeName = Dict.get? w.nodes pod.nodeName) ⟨hw, hpod, rfl⟩ ?_
    rintro a event b ⟨ha, hpoda, hnode⟩ hevent hstep
    obtain ⟨hpodb, hnodeb⟩ := step_keepsPod ha hstep (hok a event hevent)
    exact ⟨step_consistent ha hstep, hpodb.trans hpoda, hnodeb.trans hnode⟩
  refine ⟨hall.2.1, fun address => ?_⟩
  rw [hosts, hosts, hall.2.2]

end Cluster

namespace ClusterState

variable {s : ClusterState} (e : Enumeration s)

/-- The external listeners, with the node ports that were read. -/
theorem mem_externalListeners {external : List Listener} (h : externalListeners e = some external)
    {l : Listener} (hl : l ∈ external) :
    l.scope = .external ∧ l.host = s.unit.nodeAddress ∧
      ∃ number, s.listenerNodePort l.auth = .ok (some number) ∧ l.nodePort = some number := by
  obtain ⟨-, lists, hlists, rfl⟩ | ⟨-, rfl⟩ := externalListeners_eq_some e h
  · obtain ⟨list, hlist, hl⟩ := List.mem_flatten.mp hl
    obtain ⟨auth, -, hround⟩ := exists_of_mem_mapM hlists hlist
    rw [externalListener_eq_some hround] at hl
    obtain ⟨number, hnumber, rfl⟩ := List.mem_map.mp hl
    refine ⟨rfl, rfl, number, ?_, rfl⟩
    have hgiven := Option.mem_toList.mp hnumber
    change s.listenerNodePort auth = .ok (some number)
    cases hport : s.listenerNodePort auth with
    | ok answer =>
      cases answer with
      | none =>
        rw [hport] at hgiven
        cases hgiven
      | some found =>
        rw [hport] at hgiven
        obtain ⟨-, hfound⟩ := Option.ite_none_left_eq_some.mp hgiven
        rw [Option.some.inj hfound]
    | error error =>
      rw [hport] at hgiven
      cases hgiven
  · cases hl

theorem extraListenersOf_scope (unitId count baseport : Nat) (host : Str) (auths : List AuthMap) :
    ∀ l ∈ extraListenersOf unitId count baseport host auths, l.scope = .extra := by
  induction auths generalizing host with
  | nil => nofun
  | cons auth auths ih => exact List.forall_mem_cons.mpr ⟨rfl, ih _⟩

theorem extraListeners_scope {extra : List Listener} (h : extraListeners e = some extra) :
    ∀ l ∈ extra, l.scope = .extra := by
  obtain ⟨items, lists, -, hlists, rfl⟩ := extraListeners_eq_some e h
  intro l hl
  obtain ⟨list, hlist, hl⟩ := List.mem_flatten.mp hl
  obtain ⟨item, -, hfor⟩ := exists_of_mem_mapM hlists hlist
  obtain ⟨-, rfl⟩ | ⟨baseport, -, rfl⟩ := extraListenersFor_eq_some hfor
  · cases hl
  · exact extraListenersOf_scope _ _ _ _ _ l hl

/-- A listener with the external scope is one of the external listeners. -/
theorem mem_external_of_scope {listeners : List Listener} (h : allListeners e = some listeners)
    {l : Listener} (hl : l ∈ listeners) (hscope : l.scope = .external) :
    ∃ external, externalListeners e = some external ∧ l ∈ external := by
  obtain ⟨external, extra, -, hexternal, hextra, rfl⟩ := allListeners_eq_some e h
  simp only [List.mem_append, List.mem_cons] at hl
  rcases hl with (((rfl | hclient) | hexternals) | hextras) | hcontroller
  · cases hscope
  · obtain ⟨auth, -, rfl⟩ := List.mem_map.mp hclient
    cases hscope
  · exact ⟨external, hexternal, hexternals⟩
  · rw [extraListeners_scope e hextra l hextras] at hscope
    cases hscope
  · split at hcontroller
    · rw [List.mem_singleton.mp hcontroller] at hscope
      cases hscope
    · cases hcontroller

end ClusterState

/-! ## Two units -/

section Scenario

open Cluster

theorem AppName.kafka_worded : AppName.kafka.Worded := by
  rw [AppName.Worded]
  decide

/-- The pods `kafka-0` and `kafka-1`. -/
def kafkaPod (unit : Nat) : UnitPod := ⟨.kafka, unit, AppName.kafka_worded⟩

/-- Kubernetes takes every service and counts the node ports on from the ports. -/
def countedFrom (offset : Nat) (name : Str) : ApplyAnswer :=
  .accepted (· + offset + 10 * name.length)

/-- Two nodes with a pod each, and the first unit is about to apply its services. -/
def firstEvents : List ServiceEvent :=
  [.nodeJoined "gondor" [("InternalIP", "10.1.0.7"), ("Hostname", "gondor")],
   .nodeJoined "rohan" [("InternalIP", "10.1.0.8")],
   .podScheduled (kafkaPod 0) "gondor", .podScheduled (kafkaPod 1) "rohan"]

def firstUpdate : ServiceEvent :=
  .servicesUpdated (kafkaPod 0) true [.scram .plaintext, .oauthbearer .plaintext] (countedFrom 1000)

/-- The second unit applies its services, the service of the application once more. -/
def secondUpdate (offset : Nat) : ServiceEvent :=
  .servicesUpdated (kafkaPod 1) true [.scram .plaintext] (countedFrom offset)

/-- The second unit moves to the other node and applies its services again. -/
def laterEvents : List ServiceEvent :=
  [secondUpdate 2000, .podScheduled (kafkaPod 1) "gondor", secondUpdate 3000]

/-- The cluster after the events. -/
def clusterAfter (events : List ServiceEvent) : Cluster :=
  (replay step anyStep start events).getD start

/-- The unit has read what is exposed, with the other broker if there is one. -/
def readBy (w : Cluster) (unit : BrokerUnit) (peers : List BrokerUnit) : ClusterState :=
  { ClusterState.exposed "gateway.domain.com:30000" with
    unit := unit
    peers := peers
    listenerNodePort := w.getListenerNodeport (kafkaPod unit.unitId).k8s
    bootstrapNodePort := w.getBootstrapNodeport (kafkaPod unit.unitId).k8s }

end Scenario

section Results

open Cluster ClusterState

variable {w w' : Cluster} {p : UnitPod} {s : ClusterState}

theorem nodeIp_of_nodeAddress {b : BrokerUnit} (h : b.nodeAddress ≠ []) :
    b.nodeIp = .ok b.nodeAddress := by
  unfold BrokerUnit.nodeAddress at h ⊢
  cases hip : b.nodeIp with
  | ok ip => rfl
  | error error =>
    rw [hip] at h
    exact absurd rfl h

/-- The unit of the state is on the pod. -/
theorem ReadFrom.getNodeIp (h : ReadFrom w p s) : s.unit.nodeIp = w.getNodeIp p.k8s := by
  have hunit := h.nodeIps s.unit (List.mem_append_right _ (List.mem_singleton.mpr rfl))
  have hpod : (⟨p.app, s.unit.unitId, p.worded⟩ : UnitPod) = p := by
    cases p
    obtain rfl := h.unit
    rfl
  rwa [hpod] at hunit

/-- A connection to the address at which a unit advertises an external listener is handed to
the pod of the unit, at the port of the listener, and to nothing else: when the address is read
from Kubernetes, and later for as long as the service is not deleted and the pod stays on its
node, whatever the other units and applications do. -/
theorem external_listener_leads_home (hrun : Reaches step anyStep start w) (hread : ReadFrom w p s)
    (e : Enumeration s) {listeners : List Listener} (hlisteners : allListeners e = some listeners)
    {l : Listener} (hl : l ∈ listeners) (hscope : l.scope = .external) (hhost : l.host ≠ [])
    (hlater : Reaches step (fun _ event => event.KeepsService (p.k8s.listenerServiceName l.auth) ∧
      event.KeepsPod p.podName (w.nodeOf p.podName)) w w') :
    ∃ number, l.advertisedListener = l.name ++ "://" ++ l.host ++ ':' :: decimal number ∧
      ∀ target, target ∈ w'.endpoints l.host number ↔ target = (p.podName, l.port) := by
  have hw := reaches_consistent .start hrun
  obtain ⟨external, hexternal, hmem⟩ := mem_external_of_scope e hlisteners hl hscope
  obtain ⟨-, hip, number, hport, hnumber⟩ := mem_externalListeners e hexternal hmem
  rw [hread.listener] at hport
  obtain ⟨service, hservice⟩ := exists_of_nodePortOf hport
  obtain ⟨given, -, hgiven, -⟩ := mem_endpoints_listener hw hservice
  obtain rfl : given = number := by
    rw [hgiven] at hport
    exact Option.some.inj (Except.ok.inj hport)
  refine ⟨given, ?_, ?_⟩
  · rw [Listener.advertisedListener, if_pos hscope, hnumber]
    rfl
  -- the service, the pod and its node are as they were
  have hservice' := reaches_keepsService hw (fun _ _ h => h.1) hlater hservice
  obtain ⟨later, -, hsame, hends⟩ := mem_endpoints_listener (reaches_consistent hw hlater) hservice'
  have hkept : w'.getListenerNodeport p.k8s l.auth = w.getListenerNodeport p.k8s l.auth := by
    rw [getListenerNodeport, getListenerNodeport, nodePortOf, nodePortOf, hservice, hservice']
  obtain rfl : later = given := by
    rw [hkept, hgiven] at hsame
    exact (Option.some.inj (Except.ok.inj hsame)).symm
  have hnodeIp : w.getNodeIp p.k8s = .ok s.unit.nodeAddress :=
    hread.getNodeIp.symm.trans (nodeIp_of_nodeAddress (hip ▸ hhost))
  obtain ⟨pod, hpod, hhosts⟩ := hosts_of_getNodeIp hnodeIp (hip ▸ hhost)
  have hnode : w.nodeOf p.podName = pod.nodeName :=
    congrArg (fun found : Option Pod => (found.map Pod.nodeName).getD []) hpod
  obtain ⟨hpod', hhosts'⟩ := reaches_keepsPod hw hpod (fun _ _ h => hnode ▸ h.2) hlater
  have hlport : l.port = l.auth.ports.external := by
    rw [Listener.port, hscope]
  intro target
  rw [hends, hlport, hip]
  constructor
  · rintro ⟨htarget, other, -, hselects, -⟩
    exact Prod.ext (of_decide_eq_true hselects) htarget
  · rintro rfl
    exact ⟨rfl, pod, hpod', decide_eq_true rfl, (hhosts' _).trans hhosts⟩

/-- The first unit's listener for SCRAM is reached after the second unit moved to its node. -/
theorem external_listener_leads_home_shared_node :
    let l : Listener :=
      { auth := .scram .plaintext, scope := .external, host := "10.1.0.7", nodePort := some 30372 }
    ∃ number, l.advertisedListener = l.name ++ "://" ++ l.host ++ ':' :: decimal number ∧
      ∀ target, target ∈ (clusterAfter (firstEvents ++ firstUpdate :: laterEvents)).endpoints
        l.host number ↔ target = ((kafkaPod 0).podName, l.port) := by
  intro l
  let w := clusterAfter (firstEvents ++ [firstUpdate])
  let e := Enumeration.listed (readBy w ⟨0, [], .ok "10.1.0.7", []⟩ [])
  have hread : ReadFrom w (kafkaPod 0) (readBy w ⟨0, [], .ok "10.1.0.7", []⟩ []) :=
    ⟨rfl, rfl, fun _ => rfl, fun _ => rfl, by decide⟩
  have hmem : (allListeners e).any (l ∈ ·) = true := by decide
  obtain ⟨listeners, hlisteners, hl⟩ := (Option.any_eq_true ..).mp hmem
  have hlater : replay step (fun _ event =>
      event.KeepsService ((kafkaPod 0).k8s.listenerServiceName l.auth) ∧
        event.KeepsPod (kafkaPod 0).podName (w.nodeOf (kafkaPod 0).podName)) w laterEvents =
          some (clusterAfter (firstEvents ++ firstUpdate :: laterEvents)) := by decide
  exact external_listener_leads_home (.replayed_getD (by decide)) hread e
    hlisteners (of_decide_eq_true hl) rfl (by decide)
    (.replay step _ w laterEvents hlater)

theorem mem_endpoints_bootstrap (hw : w.Consistent) {service : Service}
    (hs : Dict.get? w.services p.k8s.bootstrapServiceName = some service)
    (protocol : SaslProtocol) :
    ∃ number, number ≠ 0 ∧ w.getBootstrapNodeport p.k8s (.scram protocol) = .ok (some number) ∧
      ∀ address target, target ∈ w.endpoints address number ↔
        target.2 = (AuthMap.scram protocol).ports.external ∧
          ∃ pod, Dict.get? w.pods target.1 = some pod ∧
            (Selector.app p.app.text).selects target.1 pod = true ∧ w.hosts address pod = true := by
  rw [← UnitPod.appName_k8s]
  exact nodePortOf_leads hw (.bootstrap p) hs (find_bootstrapPorts protocol)

/-- What Kubernetes was asked for, where it raises nothing. -/
theorem bootstrapServersExternal_eq_ok (e : Enumeration s) {servers : Str}
    (h : bootstrapServersExternal e = .ok servers) :
    ∃ number, s.bootstrapNodePort s.defaultAuth = .ok number ∧
      (∀ b ∈ s.brokers, b.nodeIp = .ok b.nodeAddress) ∧
      servers = [','].intercalate
        (sortStrings (e.brokers.map fun b => b.nodeAddress ++ ':' :: portText number).dedup) := by
  have hround (b : BrokerUnit) (server : Str) (h : s.serverExternal b = .ok server) :
      ∃ number, s.bootstrapNodePort s.defaultAuth = .ok number ∧ b.nodeIp = .ok b.nodeAddress ∧
        server = b.nodeAddress ++ ':' :: portText number := by
    unfold serverExternal at h
    unfold BrokerUnit.nodeAddress
    cases hip : b.nodeIp with
    | error error =>
      rw [hip] at h
      cases h
    | ok ip =>
      cases hport : s.bootstrapNodePort s.defaultAuth with
      | error error =>
        rw [hip, hport] at h
        cases h
      | ok number =>
        rw [hip, hport] at h
        exact ⟨number, rfl, rfl, (Except.ok.inj h).symm⟩
  unfold bootstrapServersExternal at h
  cases hmap : e.brokers.mapM s.serverExternal with
  | error error =>
    rw [hmap] at h
    cases h
  | ok found =>
    rw [hmap] at h
    obtain rfl := Except.ok.inj h
    have hunit : s.unit ∈ e.brokers :=
      e.brokers_perm.mem_iff.mpr (List.mem_append_right _ (List.mem_singleton.mpr rfl))
    have hall : (∀ b ∈ e.brokers, s.serverExternal b =
        .ok ((s.serverExternal b).toOption.getD [])) ∧
          found = e.brokers.map fun b => (s.serverExternal b).toOption.getD [] := by
      refine (mapM_eq_ok_iff fun b _ server hserver => ?_).mp hmap
      rw [hserver]
      rfl
    obtain ⟨number, hnumber, -, -⟩ := hround s.unit _ (hall.1 s.unit hunit)
    refine ⟨number, hnumber, ?_, ?_⟩
    · intro b hb
      obtain ⟨-, -, hip, -⟩ := hround b _ (hall.1 b (e.brokers_perm.mem_iff.mpr hb))
      exact hip
    · rw [hall.2]
      refine congrArg (fun found : List Str => [','].intercalate (sortStrings found.dedup)) ?_
      refine List.map_congr_left fun b hb => ?_
      obtain ⟨number', hnumber', -, hserver⟩ := hround b _ (hall.1 b hb)
      rw [hnumber] at hnumber'
      obtain rfl := Except.ok.inj hnumber'
      exact hserver

/-- The addresses in the text that a client is given: one for each node of a broker. -/
theorem splitOn_bootstrapServers (e : Enumeration s) (number : Nat)
    (hips : ∀ b ∈ s.brokers, ',' ∉ b.nodeAddress) :
    let servers := [','].intercalate
      (sortStrings (e.brokers.map fun b => b.nodeAddress ++ ':' :: portText (some number)).dedup)
    (servers.splitOn ',').Nodup ∧ ∀ server, server ∈ servers.splitOn ',' ↔
      ∃ b ∈ s.brokers, server = b.nodeAddress ++ ':' :: decimal number := by
  intro servers
  have hdecimal : ',' ∉ decimal number := fun h => absurd (isDigit_of_mem_decimal h) (by decide)
  have hcomma : ∀ x ∈ sortStrings
      ((e.brokers.map fun b => b.nodeAddress ++ ':' :: portText (some number)).dedup),
        ',' ∉ x := by
    intro x hx
    rw [mem_sortStrings, List.mem_dedup] at hx
    obtain ⟨b, hb, rfl⟩ := List.mem_map.mp hx
    rw [List.mem_append, List.mem_cons, not_or, not_or]
    exact ⟨hips b (e.brokers_perm.mem_iff.mp hb), by decide, hdecimal⟩
  have hunit : s.unit ∈ e.brokers :=
    e.brokers_perm.mem_iff.mpr (List.mem_append_right _ (List.mem_singleton.mpr rfl))
  have hne : sortStrings
      ((e.brokers.map fun b => b.nodeAddress ++ ':' :: portText (some number)).dedup) ≠ [] :=
    List.ne_nil_of_mem (mem_sortStrings.mpr (List.mem_dedup.mpr (List.mem_map_of_mem hunit)))
  have hsplit := List.splitOn_intercalate ',' hcomma hne
  refine ⟨?_, fun server => ?_⟩
  · rw [hsplit]
    exact (List.mergeSort_perm _ _).nodup_iff.mpr (List.nodup_dedup _)
  · rw [hsplit, mem_sortStrings, List.mem_dedup, List.mem_map]
    simp only [e.brokers_perm.mem_iff, eq_comm]
    rfl

/-- What a client is given for its first connection from outside: there is exactly one address
for each node of a broker, and a connection to any of them is handed to pods of the application
on that node, among them the broker, at the port of the external listener that clients of
`default_auth` use. -/
theorem bootstrap_servers_lead_to_brokers (hrun : Reaches step anyStep start w)
    (hread : ReadFrom w p s) (e : Enumeration s) (hrelation : s.peerRelation = true)
    (hexpose : s.config.exposeExternal = true)
    (hips : ∀ b ∈ s.brokers, b.nodeAddress ≠ [] ∧ ',' ∉ b.nodeAddress) {servers : Str}
    (hservers : bootstrapServerClient e = some servers) (hgiven : servers ≠ []) :
    ∃ number, (servers.splitOn ',').Nodup ∧ (∀ server, server ∈ servers.splitOn ',' ↔
        ∃ b ∈ s.brokers, server = b.nodeAddress ++ ':' :: decimal number) ∧
      ∀ b ∈ s.brokers,
        (UnitPod.podName ⟨p.app, b.unitId, p.worded⟩, s.defaultAuth.ports.external) ∈
          w.endpoints b.nodeAddress number ∧
        ∀ target ∈ w.endpoints b.nodeAddress number, ∃ q : UnitPod, q.app = p.app ∧
          target = (q.podName, s.defaultAuth.ports.external) := by
  have hw := reaches_consistent .start hrun
  obtain ⟨protocol, hauth⟩ : ∃ protocol, s.defaultAuth = .scram protocol := ⟨_, rfl⟩
  rw [bootstrapServerClient, if_neg (by simp [hrelation]), if_pos hexpose] at hservers
  cases hexternal : bootstrapServersExternal e with
  | error error =>
    rw [hexternal] at hservers
    cases error with
    | apiError => exact absurd (Option.some.inj hservers).symm hgiven
    | failed => cases hservers
  | ok found =>
    rw [hexternal] at hservers
    obtain rfl := Option.some.inj hservers
    obtain ⟨asked, hport, hnodes, rfl⟩ := bootstrapServersExternal_eq_ok e hexternal
    rw [hread.bootstrap] at hport
    obtain ⟨service, hservice⟩ := exists_of_nodePortOf hport
    obtain ⟨number, -, hnumber, hends⟩ := mem_endpoints_bootstrap hw hservice protocol
    obtain rfl : asked = some number := by
      rw [hauth, hnumber] at hport
      exact (Except.ok.inj hport).symm
    obtain ⟨honce, hmem⟩ := splitOn_bootstrapServers e number fun b hb => (hips b hb).2
    refine ⟨number, honce, hmem, ?_⟩
    intro b hb
    rw [hauth]
    constructor
    · obtain ⟨pod, hpod, hhosts⟩ := hosts_of_getNodeIp
        ((hread.nodeIps b hb).symm.trans (hnodes b hb)) (hips b hb).1
      obtain ⟨q, hname, happ⟩ := hw.labelled _ pod hpod
      obtain rfl := UnitPod.podName_inj hname
      exact (hends _ _).mpr ⟨rfl, pod, hpod, decide_eq_true happ, hhosts⟩
    · intro target htarget
      obtain ⟨hport, pod, hpod, hselects, -⟩ := (hends _ _).mp htarget
      obtain ⟨q, hname, happ⟩ := hw.labelled _ pod hpod
      refine ⟨q, ?_, Prod.ext hname hport⟩
      exact AppName.text_inj (happ.symm.trans (of_decide_eq_true hselects))

/-- A client is given the addresses of two brokers on two nodes. -/
theorem bootstrap_servers_lead_to_brokers_two_nodes :
    let w := clusterAfter (firstEvents ++ [firstUpdate, secondUpdate 2000])
    let s := readBy w ⟨1, [], .ok "10.1.0.8", []⟩ [⟨0, [], .ok "10.1.0.7", []⟩]
    let servers : Str := "10.1.0.7:30242,10.1.0.8:30242"
    ∃ number, (servers.splitOn ',').Nodup ∧ (∀ server, server ∈ servers.splitOn ',' ↔
        ∃ b ∈ s.brokers, server = b.nodeAddress ++ ':' :: decimal number) ∧
      ∀ b ∈ s.brokers,
        (UnitPod.podName ⟨.kafka, b.unitId, AppName.kafka_worded⟩, s.defaultAuth.ports.external) ∈
          w.endpoints b.nodeAddress number ∧
        ∀ target ∈ w.endpoints b.nodeAddress number, ∃ q : UnitPod, q.app = .kafka ∧
          target = (q.podName, s.defaultAuth.ports.external) := by
  intro w s servers
  have hread : ReadFrom w (kafkaPod 1) s :=
    ⟨rfl, rfl, fun _ => rfl, fun _ => rfl, by decide⟩
  have hmap : (Enumeration.listed s).brokers.mapM s.serverExternal =
      .ok ["10.1.0.7:30242", "10.1.0.8:30242"] := by decide
  have hservers : bootstrapServerClient (.listed s) = some servers := by
    have hexpose : s.config.exposeExternal = true := rfl
    rw [bootstrapServerClient, if_neg (by decide), if_pos hexpose, bootstrapServersExternal, hmap]
    change some ([','].intercalate (sortStrings _)) = some servers
    rw [sortStrings, List.mergeSort_of_pairwise (by decide)]
    decide
  exact bootstrap_servers_lead_to_brokers (.replayed_getD (by decide)) hread (.listed s)
    rfl rfl (by decide) hservers (by decide)

/-- A unit on a node has an external listener for each enabled way to authenticate that there is
a service for. -/
theorem externalListeners_of_services (hw : w.Consistent) (hread : ReadFrom w p s)
    (e : Enumeration s) (hexpose : s.config.exposeExternal = true) {auths : List AuthMap}
    (henabled : enabledAuth e = some auths) {ip : Str} (hnode : w.getNodeIp p.k8s = .ok ip) :
    ∃ external, externalListeners e = some external ∧
      external.map Listener.auth = auths.filter fun auth =>
        (Dict.get? w.services (p.k8s.listenerServiceName auth)).isSome := by
  have hunit : s.unit.nodeIp = .ok ip := hread.getNodeIp.trans hnode
  have hround (auth : AuthMap) : ∃ list, s.externalListener auth = some list ∧
      list.map Listener.auth =
        if (Dict.get? w.services (p.k8s.listenerServiceName auth)).isSome then [auth] else [] := by
    unfold externalListener
    rw [hread.listener, hunit]
    cases hservice : Dict.get? w.services (p.k8s.listenerServiceName auth) with
    | none =>
      rw [getListenerNodeport, nodePortOf, hservice]
      exact ⟨[], rfl, rfl⟩
    | some service =>
      obtain ⟨number, hne, hnumber, -⟩ := mem_endpoints_listener hw hservice
      rw [hnumber]
      simp [NodePort.given, hne]
  have hrounds : ∃ lists, auths.mapM s.externalListener = some lists ∧
      lists.flatten.map Listener.auth = auths.filter fun auth =>
        (Dict.get? w.services (p.k8s.listenerServiceName auth)).isSome := by
    clear henabled
    induction auths with
    | nil => exact ⟨[], rfl, rfl⟩
    | cons auth auths ih =>
      obtain ⟨list, hlist, hauth⟩ := hround auth
      obtain ⟨lists, hlists, hauths⟩ := ih
      refine ⟨list :: lists, by rw [List.mapM_cons, hlist, hlists]; rfl, ?_⟩
      rw [List.flatten_cons, List.map_append, hauth, hauths, List.filter_cons]
      split
      · rfl
      · rfl
  obtain ⟨lists, hlists, hmap⟩ := hrounds
  refine ⟨lists.flatten, ?_, hmap⟩
  rw [externalListeners, if_pos hexpose, henabled]
  simp [hlists]

/-- Once a unit has applied its services and Kubernetes has taken them, it has one external
listener for each way to authenticate that is enabled and that they were for, in the order of the
enabled ones, until one of them is deleted and as long as the unit is on a node. -/
theorem applied_services_exposed (hrun : Reaches step anyStep start w) {auths : List AuthMap}
    {answer : Str → ApplyAnswer} {applied : Cluster}
    (happly : w.step (.servicesUpdated p true auths answer) = some applied)
    (hpod : (Dict.get? w.pods p.podName).isSome = true)
    (hanswer : ∀ service ∈ p.k8s.buildBootstrapServices :: auths.map p.k8s.buildListenerService,
      ∃ number, answer service.name = .accepted number)
    (hlater : Reaches step
      (fun _ event => ∀ auth ∈ auths, event.KeepsService (p.k8s.listenerServiceName auth)) applied w')
    (hread : ReadFrom w' p s) (e : Enumeration s) (hexpose : s.config.exposeExternal = true)
    {enabled : List AuthMap} (henabled : enabledAuth e = some enabled) {ip : Str}
    (hnode : w'.getNodeIp p.k8s = .ok ip) :
    ∃ external, externalListeners e = some external ∧ (external.map Listener.auth).Nodup ∧
      (external.map Listener.auth).filter (· ∈ auths) = enabled.filter (· ∈ auths) := by
  have hw := reaches_consistent .start hrun
  have happlied := Cluster.step_consistent hw happly
  have hservices : applyServices answer w
      (p.k8s.buildBootstrapServices :: auths.map p.k8s.buildListenerService) = some applied := by
    have hupdate : w.updateExternalServices p.k8s true auths answer = some applied := happly
    rwa [updateExternalServices, if_pos ⟨rfl, hpod⟩] at hupdate
  have hthere := applyServices_all hw (applied_updates p auths) hanswer hservices
  have hkept : ∀ auth ∈ auths,
      (Dict.get? w'.services (p.k8s.listenerServiceName auth)).isSome = true := by
    intro auth hauth
    obtain ⟨service, hservice⟩ := hthere (p.k8s.buildListenerService auth)
      (List.mem_cons_of_mem _ (List.mem_map_of_mem hauth))
    have hservice' := reaches_keepsService happlied (fun _ _ h => h auth hauth) hlater hservice
    exact Option.isSome_iff_exists.mpr ⟨service, hservice'⟩
  obtain ⟨external, hexternal, hmap⟩ := externalListeners_of_services
    (reaches_consistent happlied hlater) hread e hexpose henabled hnode
  have honce : enabled.Nodup := (enabledAuth_eq_some e henabled).2 ▸ nodup_openAuth e
  refine ⟨external, hexternal, hmap ▸ honce.filter _, ?_⟩
  rw [hmap, List.filter_filter]
  refine List.filter_congr fun auth _ => ?_
  by_cases hauth : auth ∈ auths
  · simp [hauth, hkept auth hauth]
  · simp [hauth]

/-- The first unit applies its services for SCRAM and OAuth, and the second one its own. -/
theorem applied_services_exposed_two_units :
    let w := clusterAfter (firstEvents ++ [firstUpdate, secondUpdate 2000])
    let auths : List AuthMap := [.scram .plaintext, .oauthbearer .plaintext]
    let e := Enumeration.listed (readBy w ⟨0, [], .ok "10.1.0.7", []⟩ [])
    ∃ external, externalListeners e = some external ∧ (external.map Listener.auth).Nodup ∧
      (external.map Listener.auth).filter (· ∈ auths) = auths := by
  intro w auths e
  have hread : ReadFrom w (kafkaPod 0) (readBy w ⟨0, [], .ok "10.1.0.7", []⟩ []) :=
    ⟨rfl, rfl, fun _ => rfl, fun _ => rfl, by decide⟩
  have hupdate : (clusterAfter firstEvents).step firstUpdate =
      some (clusterAfter (firstEvents ++ [firstUpdate])) := by decide
  have hlater : replay step (fun _ event =>
      ∀ auth ∈ auths, event.KeepsService ((kafkaPod 0).k8s.listenerServiceName auth))
      (clusterAfter (firstEvents ++ [firstUpdate])) [secondUpdate 2000] = some w := by decide
  have henabled : enabledAuth e = some auths := rfl
  have hnode : w.getNodeIp (kafkaPod 0).k8s = .ok "10.1.0.7" := by decide
  have hall : auths.filter (· ∈ auths) = auths := by decide
  obtain ⟨external, hexternal, honce, hauths⟩ := applied_services_exposed (.replayed_getD (by decide))
    hupdate (by decide) (fun service _ => ⟨_, rfl⟩) (.replay step _ _ _ hlater) hread e rfl
    henabled hnode
  exact ⟨external, hexternal, honce, hauths.trans hall⟩

end Results

end KafkaCharm
