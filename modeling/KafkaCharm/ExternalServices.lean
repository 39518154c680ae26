import KafkaCharm.Lib.Runs
import KafkaCharm.ListenerPorts

/-! Every service is a `NodePort` service with the external traffic policy `Local`. Kubernetes gives
each port of a service a node port of its own, keeps it while the service stays, and may refuse
a service. A service may go away at any time, and pods may move between nodes. -/

namespace KafkaCharm

open PyText Fallible Runs

/-! ## Kubernetes -/

structure ServicePort where
  name : Str
  port : Nat
  targetPort : Nat
  nodePort : Option Nat := none
  deriving DecidableEq, Repr

/-- Which pods a service is for: those of an application, or the one of a name. -/
inductive Selector where
  | app (name : Str)
  | podName (name : Str)
  deriving DecidableEq, Repr

structure Service where
  name : Str
  selector : Selector
  ports : List ServicePort
  deriving DecidableEq, Repr

/-- A pod: the application in its labels, and the node it runs on. -/
structure Pod where
  app : Str
  nodeName : Str
  deriving DecidableEq, Repr

def Selector.selects (podName : Str) (pod : Pod) : Selector → Bool
  | .app name => pod.app = name
  | .podName name => podName = name

/-- The nodes by name with their addresses and the types of these, and the pods and the services
of the namespace. -/
structure Cluster where
  nodes : List (Str × List (Str × Str))
  pods : List (Str × Pod)
  services : List (Str × Service)
  deriving DecidableEq, Repr

/-- Whether the pod runs on a node with the address. -/
def Cluster.hosts (w : Cluster) (address : Str) (pod : Pod) : Bool :=
  (Dict.get? w.nodes pod.nodeName).any fun addresses => addresses.any (·.2 = address)

/-- The pods, and their ports, that a connection to a port of a node is handed to. -/
def Cluster.endpoints (w : Cluster) (address : Str) (number : Nat) : List (Str × Nat) :=
  w.services.flatMap fun entry =>
    (entry.2.ports.filter (·.nodePort = some number)).flatMap fun port =>
      (w.pods.filter fun pod =>
        entry.2.selector.selects pod.1 pod.2 && w.hosts address pod.2).map
          fun pod => (pod.1, port.targetPort)

/-- The port with its node port: the one it has had so far, or else the new one. -/
def ServicePort.allocated (old : List ServicePort) (number : Nat → Nat) (p : ServicePort) :
    ServicePort :=
  { p with
    nodePort := some (((old.find? (·.port = p.port)).bind (·.nodePort)).getD (number p.port)) }

/-- The ports that the service of a name has. -/
def Cluster.portsOf (w : Cluster) (name : Str) : List ServicePort :=
  ((Dict.get? w.services name).map Service.ports).getD []

/-- Node ports that Kubernetes may give to the ports of a service: no service has them. -/
def Cluster.Free (w : Cluster) (service : Service) (number : Nat → Nat) : Prop :=
  ∀ p ∈ service.ports, number p.port ≠ 0 ∧
    (∀ entry ∈ w.services, ∀ q ∈ entry.2.ports, q.nodePort ≠ some (number p.port)) ∧
    ∀ q ∈ service.ports, number p.port = number q.port → p.port = q.port

instance (w : Cluster) (service : Service) (number : Nat → Nat) :
    Decidable (w.Free service number) :=
  inferInstanceAs (Decidable (∀ p ∈ service.ports, _ ∧ _ ∧ _))

/-- What Kubernetes answers: it takes the service, or it fails with a code and a message. -/
inductive ApplyAnswer where
  | accepted (number : Nat → Nat)
  | apiError (code : Nat) (message : Str)

/-- The service as Kubernetes stores it. -/
def Cluster.stored (w : Cluster) (service : Service) (number : Nat → Nat) : Service :=
  { service with ports := service.ports.map (.allocated (w.portsOf service.name) number) }

/-- Kubernetes takes the service. -/
def Cluster.accept (w : Cluster) (service : Service) (number : Nat → Nat) : Option Cluster :=
  if w.Free service number then
    some { w with services := Dict.set w.services service.name (w.stored service number) }
  else none

/-! ## The manager of a pod -/

/-- `protocol.lower().replace("_", "-")`. -/
def AuthMap.protocolLabel : AuthMap → Str
  | .scram .plaintext => "sasl-plaintext"
  | .scram .ssl => "sasl-ssl"
  | .oauthbearer .plaintext => "sasl-plaintext"
  | .oauthbearer .ssl => "sasl-ssl"
  | .ssl => "ssl"

theorem AuthMap.protocolLabel_eq (a : AuthMap) :
    a.protocolLabel = replace "_" "-" (lower a.protocol) := by
  rcases a with ⟨_ | _⟩ | ⟨_ | _⟩ | _ <;> decide

/-- `short_auth_mechanism_mapping`. -/
def AuthMap.shortMechanism : AuthMap → Str
  | .scram _ => "scram"
  | .oauthbearer _ => "oauth"
  | .ssl => "ssl"

/-- The keys of `SECURITY_PROTOCOL_PORTS`, in order. -/
def authMaps : List AuthMap :=
  [.scram .plaintext, .scram .ssl, .ssl, .oauthbearer .plaintext, .oauthbearer .ssl]

structure K8sManager where
  podName : Str
  deriving DecidableEq, Repr

namespace K8sManager

variable (k : K8sManager)

def appName : Str := ['-'].intercalate (k.podName.splitOn '-').dropLast

def bootstrapServiceName : Str := k.appName ++ "-bootstrap"

/-- `build_listener_service_name`. -/
def listenerServiceName (auth : AuthMap) : Str :=
  k.podName ++ '-' :: (auth.protocolLabel ++ '-' :: auth.shortMechanism)

/-- The ports of the service for first connections. -/
def bootstrapPorts : List ServicePort :=
  authMaps.map fun auth =>
    { name := auth.protocolLabel ++ '-' :: auth.shortMechanism ++ "-bootstrap-port",
      port := auth.ports.external, targetPort := auth.ports.external }

/-- `build_bootstrap_services`. -/
def buildBootstrapServices : Service where
  name := k.bootstrapServiceName
  selector := .app k.appName
  ports := bootstrapPorts

/-- `build_listener_service`. -/
def buildListenerService (auth : AuthMap) : Service where
  name := k.listenerServiceName auth
  selector := .podName k.podName
  ports := [{ name := k.listenerServiceName auth ++ "-port",
              port := auth.ports.external, targetPort := auth.ports.external }]

end K8sManager

/-- Whether the name of a port mentions the protocol and the mechanism. -/
def ServicePort.isFor (auth : AuthMap) (p : ServicePort) : Bool :=
  decide (auth.protocolLabel <:+: p.name) && decide (auth.shortMechanism <:+: p.name)

/-- `K8sManager.get_node_port`; `none` where it raises. -/
def Service.getNodePort (service : Service) (auth : AuthMap) : Option (Option Nat) :=
  (service.ports.find? (·.isFor auth)).map ServicePort.nodePort

namespace Cluster

variable (w : Cluster) (k : K8sManager)

/-- The node port that a service has for the way to authenticate; there is no such service for
an API error. -/
def nodePortOf (name : Str) (auth : AuthMap) : NodePort :=
  match Dict.get? w.services name with
  | none => .error .apiError
  | some service =>
    match service.getNodePort auth with
    | none => .error .failed
    | some number => .ok number

/-- `K8sManager.get_listener_nodeport`. -/
def getListenerNodeport (auth : AuthMap) : NodePort := w.nodePortOf (k.listenerServiceName auth) auth

/-- `K8sManager.get_bootstrap_nodeport`. -/
def getBootstrapNodeport (auth : AuthMap) : NodePort := w.nodePortOf k.bootstrapServiceName auth

/-- `K8sManager.get_node`, the addresses of the node. Kubernetes answers with an error where the
pod or the node is not there; a pod that is not scheduled is another exception. -/
def getNode : Except KubeError (List (Str × Str)) :=
  match Dict.get? w.pods k.podName with
  | none => .error .apiError
  | some pod =>
    if pod.nodeName = [] then .error .failed
    else
      match Dict.get? w.nodes pod.nodeName with
      | none => .error .apiError
      | some addresses => .ok addresses

def addressTypes : List Str := ["ExternalIP", "InternalIP", "Hostname"]

/-- `K8sManager.get_node_ip`. -/
def getNodeIp : Except KubeError Str := do
  let addresses ← w.getNode k
  if addresses = [] then .error .failed
  else return ((addresses.find? (·.1 ∈ addressTypes)).map Prod.snd).getD []

/-- `K8sManager.apply_service`, and whether it raises. -/
def applyService (service : Service) : ApplyAnswer → Option (Cluster × Bool)
  | .accepted number => (w.accept service number).map (·, false)
  | .apiError code message =>
    let logged := code = 403 ∨ code = 422 ∧ "port is already allocated" <:+: message
    some (w, !decide logged)

/-- One service after the other, up to one that raises. -/
def applyServices (answer : Str → ApplyAnswer) : Cluster → List Service → Option Cluster
  | w, [] => some w
  | w, service :: services =>
    (w.applyService service (answer service.name)).bind fun (w, raised) =>
      if raised then some w else applyServices answer w services

/-- `BrokerOperator.update_external_services`; without the pod nothing can be built. -/
def updateExternalServices (expose : Bool) (auths : List AuthMap) (answer : Str → ApplyAnswer) :
    Option Cluster :=
  if expose = true ∧ (Dict.get? w.pods k.podName).isSome = true then
    applyServices answer w (k.buildBootstrapServices :: auths.map k.buildListenerService)
  else some w

end Cluster

/-! ## Names -/

/-- Juju asks for a letter in every part of an application name. -/
def AppName.Worded (app : AppName) : Prop :=
  ∀ part ∈ app.text.splitOn '-', part.any Char.isLower = true

/-- The unit that a pod runs. -/
structure UnitPod where
  app : AppName
  unit : Nat
  worded : app.Worded

/-- `KafkaBroker.pod_name`: the name of the unit with a hyphen for the slash. -/
def UnitPod.podName (p : UnitPod) : Str := replace "/" "-" (unitName p.app p.unit)

/-- `KafkaBroker.k8s`. -/
def UnitPod.k8s (p : UnitPod) : K8sManager := ⟨p.podName⟩

/-- Lists with the same parts before and after their first element that fails a test. -/
theorem append_cons_inj {α : Type} {test : α → Bool} {xs xs' ys ys' : List α} {x x' : α}
    (hxs : ∀ y ∈ xs, test y = true) (hxs' : ∀ y ∈ xs', test y = true) (hx : test x = false)
    (hx' : test x' = false) (h : xs ++ x :: ys = xs' ++ x' :: ys') :
    xs = xs' ∧ x = x' ∧ ys = ys' := by
  have htake := congrArg (List.takeWhile test) h
  have hdrop := congrArg (List.dropWhile test) h
  rw [List.takeWhile_append_of_pos hxs, List.takeWhile_append_of_pos hxs',
    List.takeWhile_cons_of_neg (by simp [hx]), List.takeWhile_cons_of_neg (by simp [hx']),
    List.append_nil, List.append_nil] at htake
  rw [List.dropWhile_append_of_pos hxs, List.dropWhile_append_of_pos hxs',
    List.dropWhile_cons_of_neg (by simp [hx]), List.dropWhile_cons_of_neg (by simp [hx'])] at hdrop
  exact ⟨htake, List.cons.inj hdrop⟩

theorem splitOn_inj {c : Char} {s t : Str} (h : s.splitOn c = t.splitOn c) : s = t :=
  calc s = [c].intercalate (s.splitOn c) := (List.intercalate_splitOn c).symm
    _ = [c].intercalate (t.splitOn c) := by rw [h]
    _ = t := List.intercalate_splitOn c

theorem AppName.text_inj {app app' : AppName} (h : app.text = app'.text) : app = app' := by
  cases app
  cases app'
  cases h
  rfl

/-- No digit is a letter. -/
theorem decimal_not_lower (n : Nat) : (decimal n).any Char.isLower = false := by
  rw [List.any_eq_false]
  intro c hc hlower
  have hdigit := isDigit_of_mem_decimal hc
  simp only [Char.isDigit, Bool.and_eq_true, decide_eq_true_eq] at hdigit
  have hupper : c.toNat ≤ 57 := hdigit.2
  have hletter : 97 ≤ c.toNat := of_decide_eq_true (Bool.and_eq_true_iff.mp hlower).1
  omega

theorem decimal_no_hyphen (n : Nat) : '-' ∉ decimal n := by
  intro h
  exact absurd (isDigit_of_mem_decimal h) (by decide)

/-- Replacing one character by another. -/
theorem replace_char (c d : Char) (s : Str) :
    replace [c] [d] s = s.map fun x => if x = c then d else x := by
  unfold replace
  induction s with
  | nil => rfl
  | cons x s ih =>
    rw [replaceFrom, List.map_cons]
    by_cases hx : x = c
    · subst hx
      rw [if_pos (by simp), if_pos rfl]
      exact congrArg (d :: ·) ih
    · have hno : ¬ [c] <+: x :: s := fun h => hx (List.cons_prefix_cons.mp h).1.symm
      rw [if_neg hno, if_neg hx, ih]

namespace UnitPod

variable {p q : UnitPod} {a b : AuthMap}

theorem podName_eq (p : UnitPod) : p.podName = p.app.text ++ '-' :: decimal p.unit := by
  have hkeep {s : Str} (hs : '/' ∉ s) : s.map (fun x => if x = '/' then '-' else x) = s := by
    refine (List.map_congr_left fun x hx => if_neg ?_).trans (List.map_id' s)
    rintro rfl
    exact hs hx
  have happ : '/' ∉ p.app.text := fun h => absurd (p.app.legal '/' h) (by decide)
  have hunit : '/' ∉ decimal p.unit := fun h => absurd (isDigit_of_mem_decimal h) (by decide)
  rw [podName, unitName]
  refine (replace_char '/' '-' _).trans ?_
  rw [List.map_append, List.map_cons, hkeep happ, hkeep hunit, if_pos rfl]

/-- The parts of a pod's name: those of the application, and the number of the unit. -/
theorem splitOn_podName (p : UnitPod) :
    p.podName.splitOn '-' = p.app.text.splitOn '-' ++ [decimal p.unit] := by
  rw [podName_eq, List.splitOn_append_cons_self,
    List.splitOn_eq_singleton (decimal_no_hyphen p.unit)]

theorem appName_k8s (p : UnitPod) : p.k8s.appName = p.app.text := by
  rw [K8sManager.appName, k8s, splitOn_podName, List.dropLast_concat, List.intercalate_splitOn]

/-- What the name of a listener service says of the way to authenticate. -/
def authParts (auth : AuthMap) : List Str :=
  (auth.protocolLabel ++ '-' :: auth.shortMechanism).splitOn '-'

theorem authParts_inj (h : authParts a = authParts b) : a = b := by
  rcases a with ⟨_ | _⟩ | ⟨_ | _⟩ | _ <;> rcases b with ⟨_ | _⟩ | ⟨_ | _⟩ | _ <;>
    first | rfl | exact absurd h (by decide)

theorem splitOn_listenerServiceName (p : UnitPod) (a : AuthMap) :
    (p.k8s.listenerServiceName a).splitOn '-' =
      p.app.text.splitOn '-' ++ decimal p.unit :: authParts a := by
  rw [K8sManager.listenerServiceName, k8s, List.splitOn_append_cons_self, splitOn_podName,
    List.append_assoc]
  rfl

/-- The parts that tell the application and the unit. -/
theorem inj_of_parts {xs ys : List Str}
    (h : p.app.text.splitOn '-' ++ decimal p.unit :: xs =
      q.app.text.splitOn '-' ++ decimal q.unit :: ys) : p = q ∧ xs = ys := by
  obtain ⟨happ, hunit, hrest⟩ := append_cons_inj p.worded q.worded (decimal_not_lower p.unit)
    (decimal_not_lower q.unit) h
  refine ⟨?_, hrest⟩
  cases p
  cases q
  obtain rfl := AppName.text_inj (splitOn_inj happ)
  obtain rfl := decimal_injective hunit
  rfl

theorem podName_inj (h : p.podName = q.podName) : p = q := by
  have hparts := congrArg (List.splitOn '-') h
  rw [splitOn_podName, splitOn_podName] at hparts
  exact (inj_of_parts hparts).1

/-- A listener service is of one unit and for one way to authenticate. -/
theorem listenerServiceName_inj
    (h : p.k8s.listenerServiceName a = q.k8s.listenerServiceName b) : p = q ∧ a = b := by
  have hparts := congrArg (List.splitOn '-') h
  rw [splitOn_listenerServiceName, splitOn_listenerServiceName] at hparts
  obtain ⟨hunit, hauth⟩ := inj_of_parts hparts
  exact ⟨hunit, authParts_inj hauth⟩

theorem bootstrapServiceName_inj (h : p.k8s.bootstrapServiceName = q.k8s.bootstrapServiceName) :
    p.app = q.app := by
  rw [K8sManager.bootstrapServiceName, K8sManager.bootstrapServiceName, appName_k8s,
    appName_k8s] at h
  exact AppName.text_inj (List.append_cancel_right h)

/-- The name of a bootstrap service has a letter in every part. -/
theorem listenerServiceName_ne_bootstrap :
    p.k8s.listenerServiceName a ≠ q.k8s.bootstrapServiceName := by
  intro h
  have hparts := congrArg (List.splitOn '-') h
  have hbootstrap : ("bootstrap" : Str).splitOn '-' = [("bootstrap" : Str)] :=
    List.splitOn_eq_singleton (by decide)
  have hname : q.k8s.bootstrapServiceName = q.app.text ++ '-' :: ("bootstrap" : Str) := by
    rw [K8sManager.bootstrapServiceName, appName_k8s]
    rfl
  rw [splitOn_listenerServiceName, hname, List.splitOn_append_cons_self, hbootstrap] at hparts
  have hmem : decimal p.unit ∈ q.app.text.splitOn '-' ++ [("bootstrap" : Str)] := by
    rw [← hparts]
    exact List.mem_append_right _ List.mem_cons_self
  have hletter : (decimal p.unit).any Char.isLower = true := by
    rcases List.mem_append.mp hmem with happ | hlast
    · exact q.worded _ happ
    · rw [List.mem_singleton.mp hlast]
      decide
  rw [decimal_not_lower] at hletter
  cases hletter

end UnitPod

/-! ## What is applied -/

/-- The service as it was asked for. -/
def Service.request (s : Service) : Service :=
  { s with ports := s.ports.map fun p => { p with nodePort := none } }

/-- The services that units ask for. -/
inductive Applied : Service → Prop
  | bootstrap (p : UnitPod) : Applied p.k8s.buildBootstrapServices
  | listener (p : UnitPod) (auth : AuthMap) : Applied (p.k8s.buildListenerService auth)

namespace Applied

variable {s t : Service}

theorem nodup_ports (h : Applied s) : (s.ports.map ServicePort.port).Nodup := by
  cases h with
  | bootstrap p =>
    have hexternal : (K8sManager.bootstrapPorts.map ServicePort.port).Nodup := by decide
    exact hexternal
  | listener p auth => exact List.nodup_singleton _

theorem targetPort (h : Applied s) : ∀ p ∈ s.ports, p.targetPort = p.port := by
  cases h with
  | bootstrap p =>
    intro port hport
    obtain ⟨auth, -, rfl⟩ := List.mem_map.mp hport
    rfl
  | listener p auth =>
    intro port hport
    rw [List.mem_singleton.mp hport]

/-- Whichever unit asks for it, a service of one name is the same. -/
theorem eq_of_name (hs : Applied s) (ht : Applied t) (h : s.name = t.name) : s = t := by
  cases hs with
  | bootstrap p =>
    cases ht with
    | bootstrap q =>
      have happ := UnitPod.bootstrapServiceName_inj h
      simp only [K8sManager.buildBootstrapServices, K8sManager.bootstrapServiceName,
        UnitPod.appName_k8s, happ]
    | listener q auth => exact absurd h.symm UnitPod.listenerServiceName_ne_bootstrap
  | listener p auth =>
    cases ht with
    | bootstrap q => exact absurd h UnitPod.listenerServiceName_ne_bootstrap
    | listener q auth' =>
      obtain ⟨rfl, rfl⟩ := UnitPod.listenerServiceName_inj h
      rfl

end Applied

/-! ## Runs -/

inductive ServiceEvent where
  | nodeJoined (name : Str) (addresses : List (Str × Str))
  | nodeLeft (name : Str)
  | podScheduled (pod : UnitPod) (nodeName : Str)
  | podDeleted (name : Str)
  | serviceDeleted (name : Str)
  | servicesUpdated (pod : UnitPod) (expose : Bool) (auths : List AuthMap)
      (answer : Str → ApplyAnswer)

namespace Cluster

def start : Cluster := ⟨[], [], []⟩

/-- A unit updates its services, or something happens in Kubernetes. -/
def step (w : Cluster) : ServiceEvent → Option Cluster
  | .nodeJoined name addresses => some { w with nodes := Dict.set w.nodes name addresses }
  | .nodeLeft name => some { w with nodes := Dict.erase w.nodes name }
  | .podScheduled pod nodeName =>
    some { w with pods := Dict.set w.pods pod.podName ⟨pod.app.text, nodeName⟩ }
  | .podDeleted name => some { w with pods := Dict.erase w.pods name }
  | .serviceDeleted name => some { w with services := Dict.erase w.services name }
  | .servicesUpdated pod expose auths answer => w.updateExternalServices pod.k8s expose auths answer

/-- What holds of the services in every state. -/
structure Consistent (w : Cluster) : Prop where
  podKeys : Dict.NodupKeys w.pods
  serviceKeys : Dict.NodupKeys w.services
  labelled : ∀ name pod, Dict.get? w.pods name = some pod →
    ∃ p : UnitPod, name = p.podName ∧ pod.app = p.app.text
  applied : ∀ name s, Dict.get? w.services name = some s → s.name = name ∧ Applied s.request
  numbered : ∀ name s, Dict.get? w.services name = some s →
    ∀ p ∈ s.ports, ∃ number, p.nodePort = some number ∧ number ≠ 0
  once : ∀ name s name' s', Dict.get? w.services name = some s →
    Dict.get? w.services name' = some s' → ∀ p ∈ s.ports, ∀ p' ∈ s'.ports,
      p.nodePort = p'.nodePort → name = name' ∧ p.port = p'.port

variable {w w' : Cluster}

theorem Consistent.start : Cluster.start.Consistent where
  podKeys := .nil
  serviceKeys := .nil
  labelled := nofun
  applied := nofun
  numbered := nofun
  once := nofun

theorem Consistent.nodes (hw : w.Consistent) (nodes : List (Str × List (Str × Str))) :
    Consistent { w with nodes := nodes } where
  podKeys := hw.podKeys
  serviceKeys := hw.serviceKeys
  labelled := hw.labelled
  applied := hw.applied
  numbered := hw.numbered
  once := hw.once

theorem Consistent.podScheduled (hw : w.Consistent) (p : UnitPod) (nodeName : Str) :
    Consistent { w with pods := Dict.set w.pods p.podName ⟨p.app.text, nodeName⟩ } where
  podKeys := hw.podKeys.set _ _
  serviceKeys := hw.serviceKeys
  labelled := by
    intro name pod hpod
    rw [Dict.get?_set] at hpod
    split at hpod
    case isTrue heq =>
      cases hpod
      exact ⟨p, heq.symm, rfl⟩
    case isFalse => exact hw.labelled name pod hpod
  applied := hw.applied
  numbered := hw.numbered
  once := hw.once

/-- Looking up what is left after a removal. -/
theorem get?_of_erase {κ ν : Type} [DecidableEq κ] {d : List (κ × ν)} {k k' : κ} {v : ν}
    (h : Dict.get? (Dict.erase d k) k' = some v) : Dict.get? d k' = some v := by
  rw [Dict.get?_erase] at h
  split at h
  · cases h
  · exact h

theorem Consistent.podDeleted (hw : w.Consistent) (name : Str) :
    Consistent { w with pods := Dict.erase w.pods name } where
  podKeys := hw.podKeys.erase _
  serviceKeys := hw.serviceKeys
  labelled := fun other pod hpod => hw.labelled other pod (get?_of_erase hpod)
  applied := hw.applied
  numbered := hw.numbered
  once := hw.once

theorem Consistent.serviceDeleted (hw : w.Consistent) (name : Str) :
    Consistent { w with services := Dict.erase w.services name } where
  podKeys := hw.podKeys
  serviceKeys := hw.serviceKeys.erase _
  labelled := hw.labelled
  applied := fun other s hs => hw.applied other s (get?_of_erase hs)
  numbered := fun other s hs => hw.numbered other s (get?_of_erase hs)
  once := fun n s n' s' hs hs' => hw.once n s n' s' (get?_of_erase hs) (get?_of_erase hs')

/-- What Kubernetes stores for a new service. -/
def numberedService (service : Service) (number : Nat → Nat) : Service :=
  { service with ports := service.ports.map fun p => { p with nodePort := some (number p.port) } }

theorem Consistent.serviceAdded (hw : w.Consistent) {service : Service} (hs : Applied service)
    {number : Nat → Nat} (hfree : w.Free service number)
    (hnew : Dict.get? w.services service.name = none) :
    Consistent { w with
      services := Dict.set w.services service.name (numberedService service number) } := by
  have hget {name : Str} {s : Service}
      (h : Dict.get? (Dict.set w.services service.name (numberedService service number)) name =
        some s) : service.name = name ∧ s = numberedService service number ∨
          Dict.get? w.services name = some s := by
    rw [Dict.get?_set] at h
    split at h
    case isTrue heq => exact .inl ⟨heq, (Option.some.inj h).symm⟩
    case isFalse => exact .inr h
  have hport {p : ServicePort} (h : p ∈ (numberedService service number).ports) :
      ∃ q ∈ service.ports, p = { q with nodePort := some (number q.port) } := by
    obtain ⟨q, hq, rfl⟩ := List.mem_map.mp h
    exact ⟨q, hq, rfl⟩
  -- no service of before has one of the new numbers
  have hapart {name : Str} {s : Service} (h : Dict.get? w.services name = some s)
      {p q : ServicePort} (hp : p ∈ s.ports) (hq : q ∈ service.ports) :
      p.nodePort ≠ some (number q.port) :=
    (hfree q hq).2.1 (name, s) ((Dict.mem_iff_get? hw.serviceKeys).mpr h) p hp
  refine ⟨hw.podKeys, hw.serviceKeys.set _ _, hw.labelled, ?_, ?_, ?_⟩
  · intro name s h
    rcases hget h with ⟨rfl, rfl⟩ | h
    · refine ⟨rfl, ?_⟩
      have hrequest : (numberedService service number).request = service := by
        have hnone : ∀ p ∈ service.ports, { p with nodePort := none } = p := by
          cases hs with
          | bootstrap p =>
            intro port hport
            obtain ⟨auth, -, rfl⟩ := List.mem_map.mp hport
            rfl
          | listener p auth =>
            intro port hport
            rw [List.mem_singleton.mp hport]
        rw [Service.request, numberedService, List.map_map]
        exact congrArg (fun ports => { service with ports := ports })
          ((List.map_congr_left hnone).trans (List.map_id' _))
      rwa [hrequest]
    · exact hw.applied name s h
  · intro name s h p hp
    rcases hget h with ⟨rfl, rfl⟩ | h
    · obtain ⟨q, hq, rfl⟩ := hport hp
      exact ⟨_, rfl, (hfree q hq).1⟩
    · exact hw.numbered name s h p hp
  · intro name s name' s' h h' p hp p' hp' heq
    rcases hget h with ⟨rfl, rfl⟩ | h
    · obtain ⟨q, hq, rfl⟩ := hport hp
      rcases hget h' with ⟨rfl, rfl⟩ | h'
      · obtain ⟨q', hq', rfl⟩ := hport hp'
        exact ⟨rfl, (hfree q hq).2.2 q' hq' (Option.some.inj heq)⟩
      · exact absurd heq.symm (hapart h' hp' hq)
    · rcases hget h' with ⟨rfl, rfl⟩ | h'
      · obtain ⟨q', hq', rfl⟩ := hport hp'
        exact absurd heq (hapart h hp hq')
      · exact hw.once name s name' s' h h' p hp p' hp' heq

/-- The ports of a service that is there keep their node ports. -/
theorem kept_ports (hw : w.Consistent) {name : Str} {s : Service}
    (hs : Dict.get? w.services name = some s) (number : Nat → Nat) :
    s.request.ports.map (.allocated s.ports number) = s.ports := by
  have hnodup : (s.ports.map ServicePort.port).Nodup := by
    have hports := (hw.applied name s hs).2.nodup_ports
    rwa [Service.request, List.map_map] at hports
  have hkept : ∀ p ∈ s.ports,
      ServicePort.allocated s.ports number { p with nodePort := none } = p := by
    intro p hp
    obtain ⟨given, hgiven, -⟩ := hw.numbered name s hs p hp
    have hfind : s.ports.find? (·.port = p.port) = some p := by
      obtain ⟨q, hq⟩ := Option.isSome_iff_exists.mp
        (List.find?_isSome.mpr ⟨p, hp, decide_eq_true rfl⟩ :
          (s.ports.find? (·.port = p.port)).isSome = true)
      have hport : q.port = p.port := by simpa using List.find?_some hq
      rw [hq, List.inj_on_of_nodup_map hnodup (List.mem_of_find?_eq_some hq) hp hport]
    simp only [ServicePort.allocated, hfind, Option.bind_some, hgiven, Option.getD_some]
    rw [← hgiven]
  rw [Service.request, List.map_map]
  exact (List.map_congr_left hkept).trans (List.map_id' _)

/-- A service that is there is the one asked for, with its node ports. -/
theorem eq_numberedService (hw : w.Consistent) {t s : Service} (ht : Applied t)
    (hs : Dict.get? w.services t.name = some s) : ∃ number, s = numberedService t number := by
  obtain ⟨hname, happlied⟩ := hw.applied _ s hs
  obtain rfl : s.request = t := happlied.eq_of_name ht hname
  refine ⟨fun port => ((s.ports.find? (·.port = port)).bind (·.nodePort)).getD 0, ?_⟩
  exact (congrArg (fun ports => { s with ports := ports }) (kept_ports hw hs fun _ => 0)).symm

/-- A service that is there stays as it is when it is applied again; a new one is numbered. -/
theorem accept_cases (hw : w.Consistent) {service : Service} (hs : Applied service)
    {number : Nat → Nat} (h : w.accept service number = some w') :
    (∃ s, Dict.get? w.services service.name = some s ∧ w' = w) ∨
      Dict.get? w.services service.name = none ∧ w.Free service number ∧
        w' = { w with
          services := Dict.set w.services service.name (numberedService service number) } := by
  obtain ⟨hfree, hw'⟩ := Option.ite_none_right_eq_some.mp h
  obtain rfl := Option.some.inj hw'
  cases hfound : Dict.get? w.services service.name with
  | none =>
    refine .inr ⟨rfl, hfree, ?_⟩
    have hstored : w.stored service number = numberedService service number := by
      rw [stored, numberedService, portsOf, hfound]
      rfl
    rw [hstored]
  | some s =>
    refine .inl ⟨s, rfl, ?_⟩
    obtain ⟨hname, happlied⟩ := hw.applied _ s hfound
    obtain rfl : s.request = service := happlied.eq_of_name hs hname
    have hstored : w.stored s.request number = s := by
      rw [stored, portsOf, hfound]
      exact congrArg (fun ports => { s with ports := ports }) (kept_ports hw hfound number)
    rw [hstored, Dict.set_of_get? hfound]

/-- What applying services does: none goes away or changes, and the rest is left alone. -/
structure Grows (w w' : Cluster) : Prop where
  consistent : w'.Consistent
  nodes : w'.nodes = w.nodes
  pods : w'.pods = w.pods
  services : ∀ name s, Dict.get? w.services name = some s → Dict.get? w'.services name = some s

theorem Grows.refl (hw : w.Consistent) : Grows w w := ⟨hw, rfl, rfl, fun _ _ h => h⟩

theorem Grows.trans {w'' : Cluster} (h : Grows w w') (h' : Grows w' w'') : Grows w w'' :=
  ⟨h'.consistent, h'.nodes.trans h.nodes, h'.pods.trans h.pods,
    fun name s hs => h'.services name s (h.services name s hs)⟩

theorem accept_grows (hw : w.Consistent) {service : Service} (hs : Applied service)
    {number : Nat → Nat} (h : w.accept service number = some w') :
    Grows w w' ∧ ∃ s, Dict.get? w'.services service.name = some s := by
  rcases accept_cases hw hs h with ⟨s, hfound, rfl⟩ | ⟨hnew, hfree, rfl⟩
  · exact ⟨.refl hw, s, hfound⟩
  · refine ⟨⟨hw.serviceAdded hs hfree hnew, rfl, rfl, ?_⟩, numberedService service number, ?_⟩
    · intro name s hname
      have hne : service.name ≠ name := by
        rintro rfl
        rw [hnew] at hname
        cases hname
      rw [Dict.get?_set, if_neg hne, hname]
    · exact (Dict.get?_set).trans (if_pos rfl)

theorem applyService_grows (hw : w.Consistent) {service : Service} (hs : Applied service)
    {answer : ApplyAnswer} {raised : Bool} (h : w.applyService service answer = some (w', raised)) :
    Grows w w' := by
  cases answer with
  | accepted number =>
    obtain ⟨w₁, haccept, heq⟩ := Option.map_eq_some_iff.mp h
    cases heq
    exact (accept_grows hw hs haccept).1
  | apiError code message =>
    cases h
    exact .refl hw

theorem applyServices_grows {answer : Str → ApplyAnswer} {services : List Service}
    (hw : w.Consistent) (hs : ∀ service ∈ services, Applied service)
    (h : applyServices answer w services = some w') : Grows w w' := by
  induction services generalizing w with
  | nil =>
    cases h
    exact .refl hw
  | cons service services ih =>
    obtain ⟨hservice, hrest⟩ := List.forall_mem_cons.mp hs
    obtain ⟨⟨w₁, raised⟩, hone, hmore⟩ := Option.bind_eq_some_iff.mp h
    have hgrows := applyService_grows hw hservice hone
    cases raised with
    | true =>
      cases hmore
      exact hgrows
    | false => exact hgrows.trans (ih hgrows.consistent hrest hmore)

/-- Where Kubernetes takes every service, all of them are there in the end. -/
theorem applyServices_all {answer : Str → ApplyAnswer} {services : List Service}
    (hw : w.Consistent) (hs : ∀ service ∈ services, Applied service)
    (hanswer : ∀ service ∈ services, ∃ number, answer service.name = .accepted number)
    (h : applyServices answer w services = some w') :
    ∀ service ∈ services, ∃ s, Dict.get? w'.services service.name = some s := by
  induction services generalizing w with
  | nil => nofun
  | cons service services ih =>
    obtain ⟨hservice, hrest⟩ := List.forall_mem_cons.mp hs
    obtain ⟨⟨number, hnumber⟩, hothers⟩ := List.forall_mem_cons.mp hanswer
    obtain ⟨⟨w₁, raised⟩, hone, hmore⟩ := Option.bind_eq_some_iff.mp h
    rw [hnumber] at hone
    obtain ⟨w₂, haccept, heq⟩ := Option.map_eq_some_iff.mp hone
    cases heq
    obtain ⟨hgrows, s, hfound⟩ := accept_grows hw hservice haccept
    have hlater := applyServices_grows hgrows.consistent hrest hmore
    exact List.forall_mem_cons.mpr ⟨⟨s, hlater.services _ s hfound⟩,
      ih hgrows.consistent hrest hothers hmore⟩

theorem applied_updates (p : UnitPod) (auths : List AuthMap) :
    ∀ service ∈ p.k8s.buildBootstrapServices :: auths.map p.k8s.buildListenerService,
      Applied service := by
  rw [List.forall_mem_cons, List.forall_mem_map]
  exact ⟨.bootstrap p, fun auth _ => .listener p auth⟩

theorem updateExternalServices_grows (hw : w.Consistent) {p : UnitPod} {expose : Bool}
    {auths : List AuthMap} {answer : Str → ApplyAnswer}
    (h : w.updateExternalServices p.k8s expose auths answer = some w') : Grows w w' := by
  unfold updateExternalServices at h
  split at h
  · exact applyServices_grows hw (applied_updates p auths) h
  · cases h
    exact .refl hw

theorem step_consistent (hw : w.Consistent) {event : ServiceEvent}
    (h : w.step event = some w') : w'.Consistent := by
  cases event with
  | nodeJoined name addresses =>
    cases h
    exact hw.nodes _
  | nodeLeft name =>
    cases h
    exact hw.nodes _
  | podScheduled pod nodeName =>
    cases h
    exact hw.podScheduled pod nodeName
  | podDeleted name =>
    cases h
    exact hw.podDeleted name
  | serviceDeleted name =>
    cases h
    exact hw.serviceDeleted name
  | servicesUpdated pod expose auths answer => exact (updateExternalServices_grows hw h).consistent

theorem reaches_consistent {ok : Cluster → ServiceEvent → Prop} (hw : w.Consistent)
    (h : Reaches step ok w w') : w'.Consistent :=
  h.invariant hw fun _ _ _ ha _ hs => step_consistent ha hs

end Cluster

end KafkaCharm
