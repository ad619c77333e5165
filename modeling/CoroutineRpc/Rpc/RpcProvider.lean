import CoroutineRpc.Rpc.Address
import Mathlib.Data.List.Nodup
import Mathlib.Data.List.Perm.Basic
import Mathlib.Logic.Function.Basic

/-! `RpcProvider`: from services to what a node serves and publishes.

The first service of a name counts (`find_notified`). `Run` hands each to the dispatcher and publishes
a node for it and one for each of its methods, in whatever order the map has (`plan`); so a method that
has a node is one that the dispatcher finds (`registered_of_plan`). -/
namespace CoroutineRpc.Rpc
open Library Registry

variable {Message : Type}

/-! ### Services and their descriptors -/

def isWord (c : Byte) : Bool := byte 'a' ≤ c ∧ c ≤ byte 'z' ∨ byte 'A' ≤ c ∧ c ≤ byte 'Z' ∨ isdigit c ∨ c = byte '_'

/-- The names that protobuf allows are among these. -/
def IsName (name : Bytes) : Prop := name ≠ [] ∧ ∀ c ∈ name, isWord c = true

instance : DecidablePred IsName := fun _ => inferInstanceAs (Decidable (_ ∧ _))

/-- A service with its descriptor: names, and each method's but once. -/
structure Described (Message : Type) where
  name : Bytes
  methods : List (Bytes × Method Message)
  isName : IsName name
  areNames : ∀ m ∈ methods, IsName m.1
  nodup : (methods.map Prod.fst).Nodup

/-- What the dispatcher has of it. -/
def Described.toService (service : Described Message) : Service Message where
  findMethodByName name := (service.methods.find? fun m => decide (m.1 = name)).map Prod.snd

theorem Described.find_method {service : Described Message} {m : Bytes × Method Message} (hm : m ∈ service.methods) :
    service.toService.findMethodByName m.1 = some m.2 := by
  have hnodup := service.nodup
  show (service.methods.find? fun n => decide (n.1 = m.1)).map Prod.snd = some m.2
  generalize service.methods = methods at hm hnodup
  induction methods with
  | nil => cases hm
  | cons n rest ih =>
    rw [List.map_cons, List.nodup_cons] at hnodup
    rw [List.find?_cons]
    by_cases hn : n.1 = m.1
    · rw [decide_eq_true hn]
      rcases List.mem_cons.mp hm with rfl | hrest
      · rfl
      · exact absurd (List.mem_map_of_mem hrest) (hn ▸ hnodup.1)
    · rw [decide_eq_false hn]
      rcases List.mem_cons.mp hm with rfl | hrest
      · exact absurd rfl hn
      · exact ih hrest hnodup.2

namespace RpcProvider

/-! ### `NotifyService` -/

/-- The values of `m_serviceMap`. -/
structure Info (Message : Type) where
  service : Described Message
  methodNames : List Bytes

/-- What `publish` uses of an entry. -/
def Info.toServiceInfo (sp : Bytes × Info Message) : ServiceInfo := ⟨sp.1, sp.2.methodNames⟩

/-- An entry whose key is in the map is not inserted. -/
def notifyService (serviceMap : List (Bytes × Info Message)) (service : Described Message) :
    List (Bytes × Info Message) :=
  let serviceName := service.name
  let serviceInfo := ⟨service, service.methods.map Prod.fst⟩
  if serviceMap.any fun sp => decide (sp.1 = serviceName) then serviceMap
  else serviceMap ++ [(serviceName, serviceInfo)]

def notify (services : List (Described Message)) : List (Bytes × Info Message) := services.foldl notifyService []

/-- Each entry is one of the services under its name, and each name is there once. -/
structure Notified (services : List (Described Message)) (serviceMap : List (Bytes × Info Message)) : Prop where
  nodup : (serviceMap.map Prod.fst).Nodup
  first : ∀ sp ∈ serviceMap, (services.find? fun service => decide (service.name = sp.1)) = some sp.2.service
  methods : ∀ sp ∈ serviceMap, sp.2.methodNames = sp.2.service.methods.map Prod.fst
  complete : ∀ service ∈ services, service.name ∈ serviceMap.map Prod.fst

variable {services : List (Described Message)} {serviceMap : List (Bytes × Info Message)}

theorem notified_nil : Notified [] ([] : List (Bytes × Info Message)) where
  nodup := List.nodup_nil
  first _ h := absurd h List.not_mem_nil
  methods _ h := absurd h List.not_mem_nil
  complete _ h := absurd h List.not_mem_nil

theorem notified_step (h : Notified services serviceMap) (service : Described Message) :
    Notified (services ++ [service]) (notifyService serviceMap service) := by
  have hfirst : ∀ sp ∈ serviceMap, ((services ++ [service]).find? fun service => decide (service.name = sp.1)) =
      some sp.2.service := by
    intro sp hsp
    rw [List.find?_append, h.first sp hsp]
    rfl
  have hany : (serviceMap.any fun sp => decide (sp.1 = service.name)) = true ↔
      service.name ∈ serviceMap.map Prod.fst := by
    simp only [List.any_eq_true, decide_eq_true_eq, List.mem_map]
  unfold notifyService
  dsimp only
  by_cases hmem : service.name ∈ serviceMap.map Prod.fst
  · rw [if_pos (hany.mpr hmem)]
    refine ⟨h.nodup, hfirst, h.methods, fun s hs => ?_⟩
    rcases List.mem_append.mp hs with hs | hs
    · exact h.complete s hs
    · rw [List.mem_singleton.mp hs]
      exact hmem
  · rw [if_neg (mt hany.mp hmem)]
    have hnew : ∀ sp ∈ serviceMap ++ [(service.name, (⟨service, service.methods.map Prod.fst⟩ : Info Message))],
        sp ∈ serviceMap ∨ sp = (service.name, ⟨service, service.methods.map Prod.fst⟩) := fun sp hsp =>
      (List.mem_append.mp hsp).imp_right List.mem_singleton.mp
    refine ⟨?_, fun sp hsp => ?_, fun sp hsp => ?_, fun s hs => ?_⟩
    · rw [List.map_append, List.nodup_append]
      refine ⟨h.nodup, List.nodup_singleton _, fun name hname other hother heq => ?_⟩
      rw [heq, List.mem_singleton.mp hother] at hname
      exact hmem hname
    · rcases hnew sp hsp with hold | rfl
      · exact hfirst sp hold
      · have hnone : (services.find? fun s => decide (s.name = service.name)) = none := by
          refine List.find?_eq_none.mpr fun s hs hname => hmem ?_
          rw [← of_decide_eq_true hname]
          exact h.complete s hs
        rw [List.find?_append, hnone]
        simp
    · rcases hnew sp hsp with hold | rfl
      · exact h.methods sp hold
      · rfl
    · rw [List.map_append, List.mem_append]
      rcases List.mem_append.mp hs with hs | hs
      · exact .inl (h.complete s hs)
      · rw [List.mem_singleton.mp hs]
        exact .inr (List.mem_singleton_self _)

theorem notified_notify (services : List (Described Message)) : Notified services (notify services) := by
  have hfold : ∀ (rest before : List (Described Message)) (serviceMap : List (Bytes × Info Message)),
      Notified before serviceMap → Notified (before ++ rest) (rest.foldl notifyService serviceMap) := by
    intro rest
    induction rest with
    | nil =>
      intro before serviceMap h
      rwa [List.append_nil]
    | cons service rest ih =>
      intro before serviceMap h
      have hnext := ih (before ++ [service]) _ (notified_step h service)
      rwa [List.append_assoc] at hnext
  exact hfold services [] [] notified_nil

theorem Notified.perm (h : Notified services serviceMap) {order : List (Bytes × Info Message)}
    (hperm : order.Perm serviceMap) : Notified services order where
  nodup := (hperm.map Prod.fst).nodup_iff.mpr h.nodup
  first sp hsp := h.first sp (hperm.mem_iff.mp hsp)
  methods sp hsp := h.methods sp (hperm.mem_iff.mp hsp)
  complete service hservice := (hperm.map Prod.fst).mem_iff.mpr (h.complete service hservice)

/-- The key of an entry is its service's name. -/
theorem Notified.name (h : Notified services serviceMap) {sp : Bytes × Info Message} (hsp : sp ∈ serviceMap) :
    sp.2.service.name = sp.1 := by
  simpa using List.find?_some (h.first sp hsp)

/-! ### The dispatcher -/

/-- `RpcDispatcher::registerService`. -/
def registerService (services : ServiceMap Message) (service : Described Message) : ServiceMap Message :=
  Function.update services service.name (some (some service.toService))

/-- The loop of `Run` over `m_serviceMap`; `TcpServer::registerService` refuses nothing, as the server is
one for packets and no service is null. -/
def registerAll (order : List (Bytes × Info Message)) : ServiceMap Message :=
  order.foldl (fun services sp => registerService services sp.2.service) fun _ => none

theorem registerAll_of_mem {order : List (Bytes × Info Message)} (h : Notified services order)
    {sp : Bytes × Info Message} (hsp : sp ∈ order) : registerAll order sp.1 = some (some sp.2.service.toService) := by
  have hother : ∀ (rest : List (Bytes × Info Message)) (m : ServiceMap Message),
      (∀ other ∈ rest, other.2.service.name ≠ sp.1) →
      rest.foldl (fun services sp => registerService services sp.2.service) m sp.1 = m sp.1 := by
    intro rest
    induction rest with
    | nil => exact fun _ _ => rfl
    | cons other rest ih =>
      intro m hrest
      rw [List.foldl_cons, ih _ fun o ho => hrest o (List.mem_cons_of_mem _ ho), registerService,
        Function.update_of_ne (hrest other (List.mem_cons_self ..)).symm]
  obtain ⟨before, after, hsplit⟩ := List.append_of_mem hsp
  have hnodup := h.nodup
  rw [hsplit, List.map_append, List.map_cons, List.nodup_append, List.nodup_cons] at hnodup
  rw [registerAll, hsplit, List.foldl_append, List.foldl_cons, hother, registerService, h.name hsp,
    Function.update_self]
  intro other hmem heq
  have hlater : other ∈ order := hsplit ▸ List.mem_append_right before (List.mem_cons_of_mem _ hmem)
  have hname := h.name hlater
  exact hnodup.2.1.1 (List.mem_map.mpr ⟨other, hmem, hname.symm.trans heq⟩)

/-! ### The nodes -/

def servicePath (service : Bytes) : Bytes := ascii "/" ++ service

def methodPath (service method : Bytes) : Bytes := servicePath service ++ ascii "/" ++ method

/-- What is in the node of a method. -/
def host (ip : Bytes) (port : BitVec 16) : Bytes := cString ip ++ ascii ":" ++ decimal port.toNat

/-- The nodes that `Run` creates, one after the other. -/
def plan (ip : Bytes) (port : BitVec 16) (order : List ServiceInfo) : List Node :=
  order.flatMap fun sp => ⟨cString (servicePath sp.serviceName), [], 0⟩ :: sp.methodNames.map fun methodName =>
    ⟨cString (methodPath sp.serviceName methodName), host ip port, ZOO_EPHEMERAL⟩

/-- The call of `Create` for a node. -/
def createNode {σ : Type} (zk : ZooKeeper σ) (s : Session σ) (node : Node) : Option (Session σ) :=
  ZkClient.create zk s node.path node.data node.state

/-- **`Run` publishes its plan**, if the array has room for the address. -/
theorem publish_plan {σ : Type} (zk : ZooKeeper σ) {ip : Bytes} {port : BitVec 16}
    (hroom : (host ip port).length < 128) (s : Session σ) (order : List ServiceInfo) :
    publish zk ip port s order = Transition.run (createNode zk) s (plan ip port order) := by
  obtain ⟨array, harray⟩ : ∃ array, sprintf 128 ip port = some array := ⟨_, if_pos hroom⟩
  have hmethod (path : Bytes) (s : Session σ) (methodName : Bytes) : publishMethod zk ip port path s methodName =
      createNode zk s ⟨cString (path ++ ascii "/" ++ methodName), host ip port, ZOO_EPHEMERAL⟩ := by
    unfold publishMethod createNode
    rw [harray, Option.bind_eq_bind, Option.bind_some, sprintf_strlen harray]
    rfl
  have hmethods (path : Bytes) (s : Session σ) (methodNames : List Bytes) :
      Transition.run (publishMethod zk ip port path) s methodNames = Transition.run (createNode zk) s
        (methodNames.map fun methodName =>
          ⟨cString (path ++ ascii "/" ++ methodName), host ip port, ZOO_EPHEMERAL⟩) := by
    induction methodNames generalizing s with
    | nil => rfl
    | cons methodName rest ih =>
      rw [List.map_cons, Transition.run_cons, Transition.run_cons, hmethod]
      exact congrArg _ (funext fun t => ih t)
  induction order generalizing s with
  | nil => rfl
  | cons sp rest ih =>
    show (publishService zk ip port s sp).bind (fun t => publish zk ip port t rest) = _
    rw [plan, List.flatMap_cons, List.cons_append, Transition.run_cons]
    unfold publishService
    rw [Option.bind_eq_bind, Option.bind_assoc]
    refine congrArg _ (funext fun t => ?_)
    rw [Transition.run_append, hmethods]
    exact congrArg _ (funext fun u => ih u)

/-! ### Paths -/

theorem servicePath_eq (service : Bytes) : servicePath service = byte '/' :: service := rfl

theorem methodPath_eq (service method : Bytes) : methodPath service method = byte '/' :: (service ++ byte '/' :: method) :=
  List.append_assoc ..

theorem not_mem_of_isName {name : Bytes} (h : IsName name) {c : Byte} (hc : isWord c = false) : c ∉ name :=
  fun hmem => Bool.false_ne_true (hc.symm.trans (h.2 c hmem))

theorem cString_servicePath {service : Bytes} (h : IsName service) :
    cString (servicePath service) = servicePath service := by
  refine cString_eq fun hmem => ?_
  rcases List.mem_append.mp hmem with hmem | hmem
  · exact absurd hmem (by decide)
  · exact not_mem_of_isName h (by decide) hmem

theorem cString_methodPath {service method : Bytes} (h : IsName service) (hmethod : IsName method) :
    cString (methodPath service method) = methodPath service method := by
  refine cString_eq fun hmem => ?_
  rcases List.mem_append.mp hmem with hmem | hmem
  · rcases List.mem_append.mp hmem with hmem | hmem
    · exact not_mem_of_isName h (by decide) ((List.mem_append.mp hmem).resolve_left (by decide))
    · exact absurd hmem (by decide)
  · exact not_mem_of_isName hmethod (by decide) hmem

/-- A path has one service and one method. -/
theorem methodPath_inj {service service' method method' : Bytes} (h : IsName service) (h' : IsName service')
    (heq : methodPath service method = methodPath service' method') : service = service' ∧ method = method' := by
  have hcut (s m : Bytes) (hs : IsName s) : (methodPath s m).tail.takeWhile (· ≠ byte '/') = s ∧
      (methodPath s m).tail.dropWhile (· ≠ byte '/') = byte '/' :: m := by
    have hall : ∀ c ∈ s, decide (c ≠ byte '/') = true := fun c hc =>
      decide_eq_true fun hslash => not_mem_of_isName hs (by decide) (hslash ▸ hc)
    rw [methodPath_eq, List.tail_cons, List.takeWhile_append_of_pos hall, List.dropWhile_append_of_pos hall]
    simp
  obtain ⟨hservice, hmethod⟩ := hcut service method h
  obtain ⟨hservice', hmethod'⟩ := hcut service' method' h'
  rw [heq] at hservice hmethod
  exact ⟨hservice.symm.trans hservice', (List.cons.inj (hmethod.symm.trans hmethod')).2⟩

theorem servicePath_ne_methodPath {service service' method : Bytes} (h : IsName service) :
    servicePath service ≠ methodPath service' method := by
  rw [servicePath_eq, methodPath_eq]
  intro heq
  refine not_mem_of_isName h (by decide : isWord (byte '/') = false) ?_
  rw [(List.cons.inj heq).2]
  exact List.mem_append_right service' (List.mem_cons_self ..)

/-- **A method that has a node is one that the dispatcher finds.** -/
theorem registered_of_plan {order : List (Bytes × Info Message)} (h : Notified services order) {ip : Bytes}
    {port : BitVec 16} {service method : Bytes} (hservice : IsName service) {node : Node}
    (hnode : node ∈ plan ip port (order.map Info.toServiceInfo)) (hpath : node.path = methodPath service method) :
    node.data = host ip port ∧ node.state = ZOO_EPHEMERAL ∧
      ∃ first ∈ services, (services.find? fun s => decide (s.name = service)) = some first ∧
        ∃ m ∈ first.methods, m.1 = method ∧
          (registerAll order service).join.bind (fun s => s.findMethodByName method) = some m.2 := by
  obtain ⟨info, hinfo, hnode⟩ := List.mem_flatMap.mp hnode
  obtain ⟨sp, hsp, rfl⟩ := List.mem_map.mp hinfo
  have hfirst := h.first sp hsp
  have hname := h.name hsp
  have hkey : IsName sp.1 := hname ▸ sp.2.service.isName
  rcases List.mem_cons.mp hnode with rfl | hnode
  · exact absurd ((cString_servicePath hkey).symm.trans hpath) (servicePath_ne_methodPath hkey)
  · obtain ⟨methodName, hmethod, rfl⟩ := List.mem_map.mp hnode
    rw [show (Info.toServiceInfo sp).methodNames = sp.2.methodNames from rfl, h.methods sp hsp] at hmethod
    obtain ⟨m, hm, rfl⟩ := List.mem_map.mp hmethod
    have hcut := (cString_methodPath hkey (sp.2.service.areNames m hm)).symm.trans hpath
    obtain ⟨rfl, rfl⟩ := methodPath_inj hkey hservice hcut
    refine ⟨rfl, rfl, sp.2.service, List.mem_of_find?_eq_some hfirst, hfirst, m, hm, rfl, ?_⟩
    rw [registerAll_of_mem h hsp]
    exact Described.find_method hm

end RpcProvider

end CoroutineRpc.Rpc
