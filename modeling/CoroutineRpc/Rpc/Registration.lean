import CoroutineRpc.Library.Transition
import CoroutineRpc.Registry.Ensemble
import CoroutineRpc.Rpc.RpcProvider
import Mathlib.Data.Fintype.Basic

/-! Providers that publish at the same time, and channels that look them up.

Each call of the ZooKeeper library is a step, so `Create` asks and creates in two, and another process
may come between. Processes end and sessions expire at any time. A channel that finds the node of a
method has the address of a provider that was told a service with it, and whose session has not ended
(`discovered`). Who else publishes a method may keep a provider from its node, and two that publish
services of one name may keep each other from going on: where nobody does, what a provider serves is
found (`sole_discovered`), and it does not end while it publishes (`never_exits`); where another does, it
may (`exits_of_beaten`). -/
namespace CoroutineRpc.Rpc.Registration
open Library.Transition Registry RpcProvider

/-- A process that runs `RpcProvider::Run`: what it was told, in the order that its map has, and its
address. -/
structure Provider (Message : Type) where
  ip : Bytes
  port : BitVec 16
  services : List (Described Message)
  order : List (Bytes × Info Message)
  perm : order.Perm (notify services)
  isHost : byte ':' ∉ ip ∧ 0 ∉ ip
  room : (host ip port).length ≤ 63

/-- The nodes that it creates. -/
def Provider.nodes {Message : Type} (p : Provider Message) : List Node :=
  plan p.ip p.port (p.order.map Info.toServiceInfo)

inductive Process where
  /-- `missing` if `zoo_exists` has said so of the first node. -/
  | publishing (todo : List Node) (missing : Bool)
  | serving
  | exited
deriving DecidableEq

structure State (σ ι : Type) where
  server : σ
  process : ι → Option Process := fun _ => none

inductive Input (ι : Type) where
  /-- `Start` of its `ZkClient` returns. -/
  | start (i : ι)
  /-- It goes on by one call of the library, or into its loop. -/
  | call (i : ι)
  /-- It ends. -/
  | stop (i : ι)
  /-- The server ends its session. -/
  | expire (i : ι)

variable {σ ι Message : Type} [DecidableEq ι] (e : Ensemble σ ι) (providers : ι → Provider Message)

/-- What becomes of a process that publishes, and of the server. -/
def publish (i : ι) (server : σ) : (todo : List Node) → (missing : Bool) → σ × Process
  | [], _ => (server, .serving)
  | node :: rest, false =>
    if (e.session i).zooExists server node.path = ZNONODE then (server, .publishing (node :: rest) true)
    else (server, .publishing rest false)
  | node :: rest, true =>
    let result := (e.session i).zooCreate server node.path node.data node.state
    (result.2, if result.1 = ZOK then .publishing rest false else .exited)

def step (s : State σ ι) : Input ι → Option (State σ ι)
  | .start i =>
    match s.process i with
    | none =>
      some ⟨e.connect i s.server, Function.update s.process i (some (.publishing (providers i).nodes false))⟩
    | some _ => none
  | .call i =>
    match s.process i with
    | some (.publishing todo missing) =>
      let next := publish e i s.server todo missing
      some ⟨next.1, Function.update s.process i (some next.2)⟩
    | _ => none
  | .stop i =>
    match s.process i with
    | some (.publishing ..) | some .serving => some {s with process := Function.update s.process i (some .exited)}
    | _ => none
  | .expire i =>
    match s.process i with
    | none => none
    | some _ => some {s with server := e.expire i s.server}

/-- **`Create` is these calls**, if nothing comes between. -/
theorem create_calls {s : State σ ι} {i : ι} {node : Node} {rest created : List Node} {t : Session σ}
    (hi : s.process i = some (.publishing (node :: rest) false))
    (ht : createNode (e.session i) ⟨s.server, created⟩ node = some t) :
    ∃ is ∈ [[.call i], [.call i, .call i]], run (step e providers) s is =
      some ⟨t.server, Function.update s.process i (some (.publishing rest false))⟩ := by
  by_cases hnone : (e.session i).zooExists s.server node.path = ZNONODE
  · obtain ⟨hflag, hserver⟩ : ((e.session i).zooCreate s.server node.path node.data node.state).1 = ZOK ∧
        ((e.session i).zooCreate s.server node.path node.data node.state).2 = t.server := by
      rw [createNode, ZkClient.create, if_pos hnone] at ht
      dsimp only at ht
      split at ht
      · rename_i hflag
        exact ⟨hflag, congrArg Session.server (Option.some.inj ht)⟩
      · cases ht
    refine ⟨_, List.mem_cons_of_mem _ (List.mem_singleton_self _), ?_⟩
    rw [run_cons, step, hi]
    dsimp only [publish]
    rw [if_pos hnone, Option.bind_some, run_cons, step]
    dsimp only
    rw [Function.update_self]
    dsimp only [publish]
    rw [if_pos hflag, hserver, Option.bind_some, run, Function.update_idem]
  · rw [createNode, ZkClient.create, if_neg hnone] at ht
    obtain rfl := Option.some.inj ht
    refine ⟨_, List.mem_cons_self .., ?_⟩
    rw [run_cons, step, hi]
    dsimp only [publish]
    rw [if_neg hnone]
    rfl

variable {e providers} {tree : σ → ZTree ι} {s t : State σ ι}

omit [DecidableEq ι] in
theorem publish_ask (i : ι) (server : σ) (node : Node) (rest : List Node) : publish e i server (node :: rest) false =
    if (e.session i).zooExists server node.path = ZNONODE then (server, .publishing (node :: rest) true)
    else (server, .publishing rest false) := rfl

omit [DecidableEq ι] in
theorem publish_make (i : ι) (server : σ) (node : Node) (rest : List Node) : publish e i server (node :: rest) true =
    (((e.session i).zooCreate server node.path node.data node.state).2,
      if ((e.session i).zooCreate server node.path node.data node.state).1 = ZOK then .publishing rest false
      else .exited) := rfl

theorem update_self_some {α β : Type} [DecidableEq α] {f : α → Option β} {a : α} {b c : β}
    (h : Function.update f a (some b) a = some c) : b = c := by
  rw [Function.update_self] at h
  exact Option.some.inj h

/-! ### What a step can do -/

theorem step_cases {input : Input ι} (ht : step e providers s input = some t) :
    (∃ i, input = .start i ∧ s.process i = none ∧ t = ⟨e.connect i s.server,
      Function.update s.process i (some (.publishing (providers i).nodes false))⟩) ∨
    (∃ i todo missing, input = .call i ∧ s.process i = some (.publishing todo missing) ∧
      t = ⟨(publish e i s.server todo missing).1,
        Function.update s.process i (some (publish e i s.server todo missing).2)⟩) ∨
    (∃ i, input = .stop i ∧ s.process i ≠ none ∧
      t = ⟨s.server, Function.update s.process i (some .exited)⟩) ∨
    (∃ i, input = .expire i ∧ s.process i ≠ none ∧ t = ⟨e.expire i s.server, s.process⟩) := by
  cases input with
  | start i =>
    simp only [step] at ht
    split at ht
    · rename_i hnone
      exact .inl ⟨i, rfl, hnone, (Option.some.inj ht).symm⟩
    · cases ht
  | call i =>
    simp only [step] at ht
    split at ht
    · rename_i todo missing hi
      exact .inr (.inl ⟨i, todo, missing, rfl, hi, (Option.some.inj ht).symm⟩)
    · cases ht
  | stop i =>
    simp only [step] at ht
    split at ht
    · rename_i hi
      exact .inr (.inr (.inl ⟨i, rfl, hi ▸ Option.some_ne_none _, (Option.some.inj ht).symm⟩))
    · rename_i hi
      exact .inr (.inr (.inl ⟨i, rfl, hi ▸ Option.some_ne_none _, (Option.some.inj ht).symm⟩))
    · cases ht
  | expire i =>
    simp only [step] at ht
    split at ht
    · cases ht
    · rename_i hi
      exact .inr (.inr (.inr ⟨i, rfl, hi ▸ Option.some_ne_none _, (Option.some.inj ht).symm⟩))

/-- A call makes the node that is due, which was not there, or none. -/
theorem publish_tree (hdoc : e.Documents tree) (i : ι) (server : σ) (todo : List Node) (missing : Bool) :
    (tree (publish e i server todo missing).1).live = (tree server).live ∧
      ((tree (publish e i server todo missing).1).nodes = (tree server).nodes ∨
        ∃ node rest, todo = node :: rest ∧ (tree server).live i ∧ (tree server).nodes node.path = none ∧
          (tree (publish e i server todo missing).1).nodes =
            Function.update (tree server).nodes node.path (some (ZNode.of i node.data node.state))) := by
  cases todo with
  | nil => exact ⟨rfl, .inl rfl⟩
  | cons node rest =>
    cases missing with
    | false =>
      have hserver : (publish e i server (node :: rest) false).1 = server := by
        rw [publish_ask]
        split <;> rfl
      rw [hserver]
      exact ⟨rfl, .inl rfl⟩
    | true =>
      obtain ⟨hlive, hnodes⟩ := hdoc.create i server node.path node.data node.state _ _ rfl
      refine ⟨hlive, hnodes.imp And.left ?_⟩
      rintro ⟨hi, hnone, hmade⟩
      exact ⟨node, rest, rfl, hi, hnone, hmade⟩

omit [DecidableEq ι] in
theorem publish_todo (i : ι) (server : σ) {todo rest : List Node} {missing missing' : Bool}
    (h : (publish e i server todo missing).2 = .publishing rest missing') : rest <:+ todo := by
  cases todo with
  | nil => cases h
  | cons node left =>
    cases missing with
    | false =>
      rw [publish_ask] at h
      split at h
      · obtain rfl := (Process.publishing.inj h).1
        exact List.suffix_refl _
      · obtain rfl := (Process.publishing.inj h).1
        exact List.suffix_cons ..
    | true =>
      rw [publish_make] at h
      dsimp only at h
      split at h
      · obtain rfl := (Process.publishing.inj h).1
        exact List.suffix_cons ..
      · cases h

/-! ### What is in the nodes -/

/-- A node that goes with a session is one that its provider publishes, and the others are no method's. -/
structure Sound (providers : ι → Provider Message) (tree : σ → ZTree ι) (s : State σ ι) : Prop where
  owned : ∀ path node i, (tree s.server).nodes path = some node → node.ephemeralOwner = some i →
    (tree s.server).live i ∧ s.process i ≠ none ∧
      ∃ n ∈ (providers i).nodes, n.path = path ∧ n.data = node.data ∧ n.state = ZOO_EPHEMERAL
  kept : ∀ path node, (tree s.server).nodes path = some node → node.ephemeralOwner = none →
    ∀ service method, IsName service → path ≠ methodPath service method
  todo : ∀ i rest missing, s.process i = some (.publishing rest missing) → rest <:+ (providers i).nodes

theorem Provider.notified (p : Provider Message) : Notified p.services p.order :=
  (notified_notify p.services).perm p.perm

/-- The node of a method, among those of a provider. -/
theorem Provider.method_node (p : Provider Message) {n : Node} (hn : n ∈ p.nodes) {service method : Bytes}
    (hservice : IsName service) (hpath : n.path = methodPath service method) :
    n.data = host p.ip p.port ∧ n.state = ZOO_EPHEMERAL :=
  have hplan := registered_of_plan p.notified hservice hn hpath
  ⟨hplan.1, hplan.2.1⟩

theorem process_update_ne_none {process : ι → Option Process} {i j : ι} {p : Process} (h : process j ≠ none) :
    Function.update process i (some p) j ≠ none := by
  by_cases hj : j = i
  · rw [hj, Function.update_self]
    exact Option.some_ne_none p
  · rwa [Function.update_of_ne hj]

theorem sound_step (hdoc : e.Documents tree) (h : Sound providers tree s) {input : Input ι}
    (ht : step e providers s input = some t) : Sound providers tree t := by
  rcases step_cases ht with ⟨i, rfl, hnone, rfl⟩ | ⟨i, todo, missing, rfl, hi, rfl⟩ | ⟨i, rfl, hi, rfl⟩ |
    ⟨i, rfl, hi, rfl⟩
  · obtain ⟨hnodes, hlive⟩ := hdoc.connect i s.server
    refine ⟨fun path node j hnode howner => ?_, fun path node hnode => ?_, fun j rest missing hj => ?_⟩
    · obtain ⟨hj, hprocess, hn⟩ := h.owned path node j (hnodes ▸ hnode) howner
      refine ⟨?_, process_update_ne_none hprocess, hn⟩
      show (tree (e.connect i s.server)).live j
      rw [hlive]
      by_cases hji : j = i
      · rw [hji, Function.update_self]
        trivial
      · rwa [Function.update_of_ne hji]
    · exact h.kept path node (hnodes ▸ hnode)
    · by_cases hji : j = i
      · subst hji
        obtain ⟨rfl, -⟩ := Process.publishing.inj (update_self_some hj)
        exact List.suffix_refl _
      · exact h.todo j rest missing ((Function.update_of_ne hji ..).symm.trans hj)
  · obtain ⟨hlive, hnodes⟩ := publish_tree hdoc i s.server todo missing
    have htodo := h.todo i todo missing hi
    refine ⟨fun path node j hnode howner => ?_, fun path node hnode howner => ?_, fun j rest missing' hj => ?_⟩
    · show (tree (publish e i s.server todo missing).1).live j ∧ _
      rw [hlive]
      rcases hnodes with hsame | ⟨n, rest, rfl, hilive, -, hmade⟩
      · obtain ⟨hj, hprocess, hn⟩ := h.owned path node j (hsame ▸ hnode) howner
        exact ⟨hj, process_update_ne_none hprocess, hn⟩
      · replace hnode := hmade ▸ hnode
        by_cases hpath : path = n.path
        · subst hpath
          obtain rfl := update_self_some hnode
          unfold ZNode.of at howner
          dsimp only at howner
          split at howner
          · rename_i hstate
            obtain rfl := Option.some.inj howner
            exact ⟨hilive, process_update_ne_none (hi ▸ Option.some_ne_none _), n,
              htodo.subset (List.mem_cons_self ..), rfl, rfl, hstate⟩
          · cases howner
        · obtain ⟨hj, hprocess, hn⟩ := h.owned path node j ((Function.update_of_ne hpath ..).symm.trans hnode) howner
          exact ⟨hj, process_update_ne_none hprocess, hn⟩
    · rcases hnodes with hsame | ⟨n, rest, rfl, -, -, hmade⟩
      · exact h.kept path node (hsame ▸ hnode) howner
      · replace hnode := hmade ▸ hnode
        by_cases hpath : path = n.path
        · subst hpath
          obtain rfl := update_self_some hnode
          intro service method hservice heq
          have hstate := ((providers i).method_node (htodo.subset (List.mem_cons_self ..)) hservice heq).2
          unfold ZNode.of at howner
          rw [if_pos hstate] at howner
          cases howner
        · exact h.kept path node ((Function.update_of_ne hpath ..).symm.trans hnode) howner
    · by_cases hji : j = i
      · subst hji
        have hnext := update_self_some hj
        exact (publish_todo j s.server hnext).trans htodo
      · exact h.todo j rest missing' ((Function.update_of_ne hji ..).symm.trans hj)
  · refine ⟨fun path node j hnode howner => ?_, h.kept, fun j rest missing hj => ?_⟩
    · obtain ⟨hj, hprocess, hn⟩ := h.owned path node j hnode howner
      exact ⟨hj, process_update_ne_none hprocess, hn⟩
    · by_cases hji : j = i
      · subst hji
        cases update_self_some hj
      · exact h.todo j rest missing ((Function.update_of_ne hji ..).symm.trans hj)
  · obtain ⟨hlive, hnodes⟩ := hdoc.expire i s.server
    have hold : ∀ path node, (tree (e.expire i s.server)).nodes path = some node →
        (tree s.server).nodes path = some node ∧ node.ephemeralOwner ≠ some i := by
      intro path node hnode
      rw [hnodes] at hnode
      obtain ⟨hwas, howner⟩ := Option.filter_eq_some_iff.mp hnode
      exact ⟨hwas, of_decide_eq_true howner⟩
    refine ⟨fun path node j hnode howner => ?_, fun path node hnode howner => ?_, h.todo⟩
    · obtain ⟨hwas, hne⟩ := hold path node hnode
      obtain ⟨hj, hprocess, hn⟩ := h.owned path node j hwas howner
      refine ⟨?_, hprocess, hn⟩
      show (tree (e.expire i s.server)).live j
      have hji : j ≠ i := by
        rintro rfl
        exact hne howner
      rw [hlive, Function.update_of_ne hji]
      exact hj
    · exact h.kept path node (hold path node hnode).1 howner

/-- No provider has published yet: the nodes that there are stay, and none is a method's. -/
def Unpublished (tree : σ → ZTree ι) (server : σ) : Prop :=
  ∀ path node, (tree server).nodes path = some node →
    node.ephemeralOwner = none ∧ ∀ service method, IsName service → path ≠ methodPath service method

omit [DecidableEq ι] in
theorem sound_initial {server : σ} (h : Unpublished tree server) : Sound providers tree ⟨server, fun _ => none⟩ where
  owned path node _ hnode howner := absurd ((h path node hnode).1.symm.trans howner) nofun
  kept path node hnode _ := (h path node hnode).2
  todo _ _ _ hi := absurd hi nofun

theorem sound_run (hdoc : e.Documents tree) {server : σ} (hold : Unpublished tree server) {is : List (Input ι)}
    (hr : run (step e providers) ⟨server, fun _ => none⟩ is = some t) : Sound providers tree t :=
  (always_of_inductive (fun _ _ _ h ht => sound_step hdoc h ht) (sound_initial hold) is).last hr

omit [DecidableEq ι] in
/-- The node of a method goes with the session of a provider that has it published. -/
theorem Sound.method_node (h : Sound providers tree s) {service method : Bytes} (hservice : IsName service)
    {node : ZNode ι} (hnode : (tree s.server).nodes (methodPath service method) = some node) :
    ∃ i, node = ⟨host (providers i).ip (providers i).port, some i⟩ ∧ (tree s.server).live i ∧ s.process i ≠ none ∧
      ∃ n ∈ (providers i).nodes, n.path = methodPath service method := by
  cases howner : node.ephemeralOwner with
  | none => exact absurd rfl (h.kept _ node hnode howner service method hservice)
  | some i =>
    obtain ⟨hlive, hprocess, n, hn, hpath, hdata, -⟩ := h.owned _ node i hnode howner
    refine ⟨i, ?_, hlive, hprocess, n, hn, hpath⟩
    rw [← ((providers i).method_node hn hservice hpath).1, hdata, ← howner]

/-! ### What a channel finds -/

/-- The dispatcher of the provider has the method, of the first service with the name that it was told. -/
def Provides (p : Provider Message) (service method : Bytes) : Prop :=
  ∃ first, (p.services.find? fun s => decide (s.name = service)) = some first ∧ ∃ m ∈ first.methods, m.1 = method ∧
    (registerAll p.order service).join.bind (fun s => s.findMethodByName method) = some m.2

/-- What a channel reads of the node of a provider. -/
theorem address_of_node (p : Provider Message) {zk : ZooKeeper σ} {server : σ} {service method buffer : Bytes}
    (hservice : IsName service) (hmethod : IsName method) (hbuffer : buffer.length = 64)
    (hholds : Holds zk server (methodPath service method) (host p.ip p.port)) :
    RpcChannel.address zk server service method buffer = some (.ok (p.ip, p.port)) ↔
      LeavesPort p.port (buffer.drop (host p.ip p.port).length) := by
  have hhost : host p.ip p.port = p.ip ++ ascii ":" ++ decimal p.port.toNat := by
    rw [host, cString_eq p.isHost.2]
  have hroom := p.room
  have hpath : cString (ascii "/" ++ service ++ ascii "/" ++ method) = methodPath service method :=
    cString_methodPath hservice hmethod
  rw [← hpath] at hholds
  rw [hhost] at hholds hroom ⊢
  exact address_holds p.isHost.1 p.isHost.2 hholds (by omega)

/-- Nothing is read of a node that the call of `zoo_get` did not give. -/
theorem zooGet_of_address {zk : ZooKeeper σ} {server : σ} {service method buffer : Bytes} {addr : Bytes × BitVec 16}
    (h : RpcChannel.address zk server service method buffer = some (.ok addr)) :
    (zk.zooGet server (cString (ascii "/" ++ service ++ ascii "/" ++ method)) buffer).1 = ZOK := by
  by_contra hflag
  obtain ⟨hostData, hhostData, h⟩ := Option.bind_eq_some_iff.mp h
  rw [ZkClient.getData] at hhostData
  dsimp only at hhostData
  rw [if_pos hflag] at hhostData
  obtain rfl := Option.some.inj hhostData
  dsimp only at h
  rw [if_pos rfl] at h
  cases h

/-- **A channel that finds a method has the address of a provider that serves it**: whatever providers
started, ended and came between each other, it was told the service, its dispatcher has the method, and
its session has not ended. What was in the buffer of `GetData` must leave the port. -/
theorem discovered (hdoc : e.Documents tree) {server : σ} (hold : Unpublished tree server) {is : List (Input ι)}
    (hr : run (step e providers) ⟨server, fun _ => none⟩ is = some t) {j : ι} {service method buffer ip : Bytes}
    {port : BitVec 16} (hservice : IsName service) (hmethod : IsName method) (hbuffer : buffer.length = 64)
    (hfound : RpcChannel.address (e.session j) t.server service method buffer = some (.ok (ip, port))) :
    ∃ i, t.process i ≠ none ∧ (tree t.server).live i ∧ Provides (providers i) service method ∧
      (LeavesPort (providers i).port (buffer.drop (host (providers i).ip (providers i).port).length) →
        ip = (providers i).ip ∧ port = (providers i).port) := by
  have hsound : Sound providers tree t := sound_run hdoc hold hr
  have hpath : cString (ascii "/" ++ service ++ ascii "/" ++ method) = methodPath service method :=
    cString_methodPath hservice hmethod
  have hget := zooGet_of_address hfound
  rw [hpath] at hget
  rcases hdoc.get j t.server (methodPath service method) with hfails | ⟨node, hnode, hholds⟩
  · exact absurd hget (hfails buffer)
  obtain ⟨i, rfl, hlive, hprocess, n, hn, hnpath⟩ := hsound.method_node hservice hnode
  have hplan := registered_of_plan (providers i).notified hservice hn hnpath
  obtain ⟨-, -, first, -, hfirst, m, hm, hname, hfinds⟩ := hplan
  refine ⟨i, hprocess, hlive, ⟨first, hfirst, m, hm, hname, hfinds⟩, fun hleaves => ?_⟩
  have hread := (address_of_node (providers i) hservice hmethod hbuffer hholds).mpr hleaves
  have heq := Except.ok.inj (Option.some.inj (hfound.symm.trans hread))
  exact Prod.mk.inj heq

/-! ### A provider alone -/

/-- Nobody else publishes at this path. -/
def Sole (providers : ι → Provider Message) (i : ι) (path : Bytes) : Prop :=
  ∀ j, j ≠ i → ∀ n ∈ (providers j).nodes, n.path ≠ path

instance [Fintype ι] (i : ι) (path : Bytes) : Decidable (Sole providers i path) :=
  inferInstanceAs (Decidable (∀ j, j ≠ i → ∀ n ∈ (providers j).nodes, n.path ≠ path))

/-- The node that the next call asks for. -/
def Process.asks : Process → Option Node
  | .publishing (node :: _) false => some node
  | _ => none

/-- The node that the next call creates. -/
def Process.makes : Process → Option Node
  | .publishing (node :: _) true => some node
  | _ => none

theorem Process.makes_some {process : Process} {node : Node} (h : process.makes = some node) :
    ∃ rest, process = .publishing (node :: rest) true := by
  unfold Process.makes at h
  split at h
  · obtain rfl := Option.some.inj h
    exact ⟨_, rfl⟩
  · cases h

/-- The server answers `i` whether a node exists. -/
def Answered (e : Ensemble σ ι) (i : ι) (s : State σ ι) : Input ι → Prop
  | .call j => j = i → ∀ node ∈ (s.process i).bind Process.asks,
      (e.session i).zooExists s.server node.path = ZOK ∨ (e.session i).zooExists s.server node.path = ZNONODE
  | .start _ | .stop _ | .expire _ => True

instance (i : ι) (s : State σ ι) : ∀ input, Decidable (Answered e i s input)
  | .call _ => inferInstanceAs (Decidable (_ → _))
  | .start _ | .stop _ | .expire _ => isTrue trivial

/-- The nodes that are still to be created. -/
def Process.left : Process → List Node
  | .publishing todo _ => todo
  | .serving | .exited => []

/-- The node is there, with the session of `i`. -/
def Mine (tree : σ → ZTree ι) (i : ι) (s : State σ ι) (n : Node) : Prop :=
  (tree s.server).live i → (tree s.server).nodes n.path = some ⟨n.data, some i⟩

/-- What is not left to do is done. -/
structure Complete (providers : ι → Provider Message) (tree : σ → ZTree ι) (i : ι) (s : State σ ι) : Prop where
  sound : Sound providers tree s
  done : ∀ p, s.process i = some p → p ≠ .exited → ∃ done, (providers i).nodes = done ++ p.left ∧
    ∀ n ∈ done, n.state = ZOO_EPHEMERAL → Sole providers i n.path → Mine tree i s n

/-- The ephemeral nodes of a plan are those of its methods. -/
theorem Provider.ephemeral_path (p : Provider Message) {n : Node} (hn : n ∈ p.nodes)
    (hstate : n.state = ZOO_EPHEMERAL) : ∃ service method, IsName service ∧ n.path = methodPath service method := by
  obtain ⟨info, hinfo, hn⟩ := List.mem_flatMap.mp hn
  obtain ⟨sp, hsp, rfl⟩ := List.mem_map.mp hinfo
  have hkey : IsName sp.1 := p.notified.name hsp ▸ sp.2.service.isName
  rcases List.mem_cons.mp hn with rfl | hn
  · exact absurd hstate (show ¬ (0 : Int) = ZOO_EPHEMERAL by decide)
  · obtain ⟨methodName, hmethod, rfl⟩ := List.mem_map.mp hn
    rw [show (Info.toServiceInfo sp).methodNames = sp.2.methodNames from rfl, p.notified.methods sp hsp] at hmethod
    obtain ⟨m, hm, rfl⟩ := List.mem_map.mp hmethod
    exact ⟨sp.1, m.1, hkey, cString_methodPath hkey (sp.2.service.areNames m hm)⟩

/-- Once there, a node stays as long as the session. -/
theorem mine_step (hdoc : e.Documents tree) {i : ι} {n : Node} (h : Mine tree i s n) (hi : s.process i ≠ none)
    {input : Input ι} (ht : step e providers s input = some t) : Mine tree i t n := by
  rcases step_cases ht with ⟨k, rfl, hnone, rfl⟩ | ⟨k, todo, missing, rfl, -, rfl⟩ | ⟨k, rfl, -, rfl⟩ |
    ⟨k, rfl, -, rfl⟩
  · obtain ⟨hnodes, hlive⟩ := hdoc.connect k s.server
    have hne : i ≠ k := by
      rintro rfl
      exact hi hnone
    intro hlivei
    replace hlivei : (tree (e.connect k s.server)).live i := hlivei
    rw [hlive, Function.update_of_ne hne] at hlivei
    exact (congrFun hnodes n.path).trans (h hlivei)
  · obtain ⟨hlive, hnodes⟩ := publish_tree hdoc k s.server todo missing
    intro hlivei
    have hwas := h (hlive ▸ hlivei)
    rcases hnodes with hsame | ⟨node, rest, -, -, hnone, hmade⟩
    · exact (congrFun hsame n.path).trans hwas
    · have hne : n.path ≠ node.path := by
        intro heq
        rw [heq, hnone] at hwas
        cases hwas
      exact (congrFun hmade n.path).trans ((Function.update_of_ne hne ..).trans hwas)
  · exact h
  · obtain ⟨hlive, hnodes⟩ := hdoc.expire k s.server
    intro hlivei
    replace hlivei : (tree (e.expire k s.server)).live i := hlivei
    by_cases hik : i = k
    · rw [hlive, hik, Function.update_self] at hlivei
      exact hlivei.elim
    · rw [hlive, Function.update_of_ne hik] at hlivei
      show (tree (e.expire k s.server)).nodes n.path = _
      rw [hnodes, h hlivei]
      exact Option.filter_some_pos (decide_eq_true fun heq => hik (Option.some.inj heq))

/-- A node that is there already, at a path of its own, is its own. -/
theorem Sound.mine (h : Sound providers tree s) {i : ι} {n : Node} (hn : n ∈ (providers i).nodes)
    (hstate : n.state = ZOO_EPHEMERAL) (hsole : Sole providers i n.path)
    (hsome : (tree s.server).nodes n.path ≠ none) : (tree s.server).nodes n.path = some ⟨n.data, some i⟩ := by
  obtain ⟨service, method, hservice, hpath⟩ := (providers i).ephemeral_path hn hstate
  obtain ⟨node, hnode⟩ := Option.ne_none_iff_exists'.mp hsome
  obtain ⟨k, rfl, -, -, n', hn', hpath'⟩ := h.method_node hservice (hpath ▸ hnode)
  obtain rfl : k = i := by
    by_contra hki
    exact hsole k hki n' hn' (hpath'.trans hpath.symm)
  rw [hnode, ((providers k).method_node hn hservice hpath).1]

theorem complete_call (hdoc : e.Documents tree) {i : ι} (h : Complete providers tree i s) {todo : List Node}
    {missing : Bool} (hi : s.process i = some (.publishing todo missing)) (hg : Answered e i s (.call i))
    (ht : step e providers s (.call i) = some t) (hp : (publish e i s.server todo missing).2 ≠ .exited) :
    ∃ done, (providers i).nodes = done ++ (publish e i s.server todo missing).2.left ∧
      ∀ n ∈ done, n.state = ZOO_EPHEMERAL → Sole providers i n.path → Mine tree i t n := by
  obtain ⟨done, hnodes, hdone⟩ := h.done _ hi nofun
  have hne : s.process i ≠ none := hi ▸ Option.some_ne_none _
  have hkept : ∀ n ∈ done, n.state = ZOO_EPHEMERAL → Sole providers i n.path → Mine tree i t n :=
    fun n hn hstate hsole => mine_step hdoc (hdone n hn hstate hsole) hne ht
  have hserver : t.server = (publish e i s.server todo missing).1 := by
    rw [step, hi] at ht
    exact (congrArg State.server (Option.some.inj ht)).symm
  cases todo with
  | nil => exact ⟨done, hnodes, hkept⟩
  | cons node rest =>
    have hmore (hnow : node.state = ZOO_EPHEMERAL → Sole providers i node.path → Mine tree i t node) :
        ∃ done, (providers i).nodes = done ++ rest ∧
          ∀ n ∈ done, n.state = ZOO_EPHEMERAL → Sole providers i n.path → Mine tree i t n := by
      refine ⟨done ++ [node], by rw [hnodes, List.append_assoc]; rfl, fun n hn => ?_⟩
      rcases List.mem_append.mp hn with hn | hn
      · exact hkept n hn
      · rw [List.mem_singleton.mp hn]
        exact hnow
    have hnode : node ∈ (providers i).nodes := hnodes ▸ List.mem_append_right done (List.mem_cons_self ..)
    cases missing with
    | false =>
      rw [publish_ask] at hserver ⊢
      split
      · exact ⟨done, hnodes, hkept⟩
      · rename_i hnone
        rw [if_neg hnone] at hserver
        refine hmore fun hstate hsole _ => ?_
        rw [hserver]
        have hasks : node ∈ (s.process i).bind Process.asks := by
          rw [hi]
          rfl
        exact h.sound.mine hnode hstate hsole (hdoc.exists_ok i _ _ ((hg rfl node hasks).resolve_right hnone))
    | true =>
      rw [publish_make] at hserver hp ⊢
      dsimp only at hserver hp ⊢
      split at hp
      swap
      · exact absurd rfl hp
      rename_i hflag
      rw [if_pos hflag]
      refine hmore fun hstate hsole _ => ?_
      rw [hserver]
      obtain ⟨-, hmade⟩ := hdoc.create i s.server node.path node.data node.state _ _ rfl
      obtain ⟨-, -, hmade⟩ := hmade.resolve_left fun hfailed => hfailed.2 hflag
      rw [hmade, Function.update_self, ZNode.of, if_pos hstate]

theorem complete_step (hdoc : e.Documents tree) {i : ι} (h : Complete providers tree i s) {input : Input ι}
    (hg : Answered e i s input) (ht : step e providers s input = some t) : Complete providers tree i t := by
  refine ⟨sound_step hdoc h.sound ht, fun p hp hexited => ?_⟩
  have hother (hi : s.process i = some p) : ∃ done, (providers i).nodes = done ++ p.left ∧
      ∀ n ∈ done, n.state = ZOO_EPHEMERAL → Sole providers i n.path → Mine tree i t n := by
    obtain ⟨done, hnodes, hdone⟩ := h.done p hi hexited
    exact ⟨done, hnodes, fun n hn hstate hsole =>
      mine_step hdoc (hdone n hn hstate hsole) (hi ▸ Option.some_ne_none _) ht⟩
  rcases step_cases ht with ⟨k, rfl, -, rfl⟩ | ⟨k, todo, missing, rfl, hk, rfl⟩ | ⟨k, rfl, -, rfl⟩ |
    ⟨k, rfl, -, rfl⟩
  · by_cases hik : i = k
    · subst hik
      obtain rfl := update_self_some hp
      exact ⟨[], rfl, fun n hn => absurd hn List.not_mem_nil⟩
    · exact hother ((Function.update_of_ne hik ..).symm.trans hp)
  · by_cases hik : i = k
    · subst hik
      obtain rfl := update_self_some hp
      exact complete_call hdoc h hk hg ht hexited
    · exact hother ((Function.update_of_ne hik ..).symm.trans hp)
  · by_cases hik : i = k
    · subst hik
      exact absurd (update_self_some hp).symm hexited
    · exact hother ((Function.update_of_ne hik ..).symm.trans hp)
  · exact hother hp

theorem complete_run (hdoc : e.Documents tree) {server : σ} (hold : Unpublished tree server) {i : ι}
    {is : List (Input ι)} (hmeets : Meets (step e providers) (Answered e i) ⟨server, fun _ => none⟩ is)
    (hr : run (step e providers) ⟨server, fun _ => none⟩ is = some t) : Complete providers tree i t := by
  have hstart : Complete providers tree i ⟨server, fun _ => none⟩ :=
    ⟨sound_initial hold, fun p hp => absurd hp nofun⟩
  exact (always_of_step (fun _ _ _ h hg ht => complete_step hdoc h hg ht) hstart hmeets).last hr

theorem Provider.method_mem (p : Provider Message) {first : Described Message} {m : Bytes × Method Message}
    (hfirst : (p.services.find? fun s => decide (s.name = first.name)) = some first) (hm : m ∈ first.methods) :
    (⟨methodPath first.name m.1, host p.ip p.port, ZOO_EPHEMERAL⟩ : Node) ∈ p.nodes := by
  have hkey := p.notified.complete first (List.mem_of_find?_eq_some hfirst)
  obtain ⟨sp, hsp, hname⟩ := List.mem_map.mp hkey
  have hservice : sp.2.service = first := by
    have hsame := p.notified.first sp hsp
    rw [hname, hfirst] at hsame
    exact (Option.some.inj hsame).symm
  refine List.mem_flatMap.mpr ⟨Info.toServiceInfo sp, List.mem_map_of_mem hsp, List.mem_cons_of_mem _ ?_⟩
  refine List.mem_map.mpr ⟨m.1, ?_, ?_⟩
  · show m.1 ∈ sp.2.methodNames
    rw [p.notified.methods sp hsp, hservice]
    exact List.mem_map_of_mem hm
  · show (⟨cString (methodPath sp.1 m.1), _, _⟩ : Node) = _
    rw [hname, cString_methodPath first.isName (first.areNames m hm)]

/-- **What a provider serves is found**, where nobody else publishes it and the server answered whether
nodes exist: as long as the session lasts, a channel that gets the node reads the provider's address,
if what was in its buffer leaves the port. -/
theorem sole_discovered (hdoc : e.Documents tree) {server : σ} (hold : Unpublished tree server) {i : ι}
    {is : List (Input ι)} (hmeets : Meets (step e providers) (Answered e i) ⟨server, fun _ => none⟩ is)
    (hr : run (step e providers) ⟨server, fun _ => none⟩ is = some t) (hserving : t.process i = some .serving)
    (hlive : (tree t.server).live i) {first : Described Message} {m : Bytes × Method Message}
    (hfirst : ((providers i).services.find? fun s => decide (s.name = first.name)) = some first)
    (hm : m ∈ first.methods) (hsole : Sole providers i (methodPath first.name m.1)) {j : ι} {buffer : Bytes}
    (hbuffer : buffer.length = 64)
    (hget : ((e.session j).zooGet t.server (methodPath first.name m.1) buffer).1 = ZOK) :
    RpcChannel.address (e.session j) t.server first.name m.1 buffer =
        some (.ok ((providers i).ip, (providers i).port)) ↔
      LeavesPort (providers i).port (buffer.drop (host (providers i).ip (providers i).port).length) := by
  obtain ⟨done, hnodes, hdone⟩ := (complete_run hdoc hold hmeets hr).done _ hserving nofun
  rw [show Process.serving.left = [] from rfl, List.append_nil] at hnodes
  have hmine := hdone _ (hnodes ▸ (providers i).method_mem hfirst hm) rfl hsole hlive
  rcases hdoc.get j t.server (methodPath first.name m.1) with hfails | ⟨node, hnode, hholds⟩
  · exact absurd hget (hfails buffer)
  obtain rfl := Option.some.inj (hmine.symm.trans hnode)
  exact address_of_node (providers i) first.isName (first.areNames m hm) hbuffer hholds

/-! ### Who is not disturbed -/

/-- The process is not ended and its session not expired, and the server creates for it what is missing. -/
def Undisturbed (e : Ensemble σ ι) (tree : σ → ZTree ι) (i : ι) (s : State σ ι) : Input ι → Prop
  | .start _ => True
  | .call j => j = i → ∀ node ∈ (s.process i).bind Process.makes, (tree s.server).live i →
      (tree s.server).nodes node.path = none →
        ((e.session i).zooCreate s.server node.path node.data node.state).1 = ZOK
  | .stop j | .expire j => j ≠ i

instance [∀ s i, Decidable ((tree s).live i)] (i : ι) (s : State σ ι) : ∀ input, Decidable (Undisturbed e tree i s input)
  | .start _ => isTrue trivial
  | .call _ => inferInstanceAs (Decidable (_ → ∀ node ∈ (s.process i).bind Process.makes, _ → _ → _))
  | .stop j | .expire j => inferInstanceAs (Decidable (j ≠ i))

/-- It goes on; and what it has asked for is still missing. -/
structure Going (providers : ι → Provider Message) (tree : σ → ZTree ι) (i : ι) (s : State σ ι) : Prop where
  sound : Sound providers tree s
  going : s.process i ≠ some .exited
  live : s.process i ≠ none → (tree s.server).live i
  missing : ∀ node rest, s.process i = some (.publishing (node :: rest) true) →
    (tree s.server).nodes node.path = none

theorem going_call (hdoc : e.Documents tree) {i : ι} (h : Going providers tree i s) {todo : List Node}
    {missing : Bool} (hi : s.process i = some (.publishing todo missing)) (hg : Undisturbed e tree i s (.call i)) :
    (publish e i s.server todo missing).2 ≠ .exited ∧ ∀ node rest,
      (publish e i s.server todo missing).2 = .publishing (node :: rest) true →
        (tree (publish e i s.server todo missing).1).nodes node.path = none := by
  cases todo with
  | nil => exact ⟨nofun, fun _ _ hnext => absurd hnext nofun⟩
  | cons node rest =>
    cases missing with
    | false =>
      rw [publish_ask]
      split
      · rename_i hnone
        refine ⟨nofun, fun node' rest' hnext => ?_⟩
        obtain ⟨rfl, -⟩ := List.cons.inj (Process.publishing.inj hnext).1
        exact hdoc.exists_none i s.server node.path hnone
      · exact ⟨nofun, fun _ _ hnext => absurd (Process.publishing.inj hnext).2 Bool.false_ne_true⟩
    | true =>
      have hflag : ((e.session i).zooCreate s.server node.path node.data node.state).1 = ZOK := by
        have hmakes : node ∈ (s.process i).bind Process.makes := by
          rw [hi]
          rfl
        exact hg rfl node hmakes (h.live (hi ▸ Option.some_ne_none _)) (h.missing node rest hi)
      rw [publish_make, if_pos hflag]
      exact ⟨nofun, fun _ _ hnext => absurd (Process.publishing.inj hnext).2 Bool.false_ne_true⟩

/-- What is missing of a provider's own paths stays so in the steps of others. -/
theorem missing_step (hdoc : e.Documents tree) (h : Sound providers tree s) {i : ι} {path : Bytes}
    (hsole : Sole providers i path) (hnone : (tree s.server).nodes path = none) {input : Input ι}
    (hi : input ≠ .call i) (ht : step e providers s input = some t) : (tree t.server).nodes path = none := by
  rcases step_cases ht with ⟨k, rfl, -, rfl⟩ | ⟨k, todo, missing, rfl, hk, rfl⟩ | ⟨k, rfl, -, rfl⟩ |
    ⟨k, rfl, -, rfl⟩
  · exact (congrFun (hdoc.connect k s.server).1 path).trans hnone
  · have hki : k ≠ i := fun heq => hi (heq ▸ rfl)
    obtain ⟨-, hnodes⟩ := publish_tree hdoc k s.server todo missing
    rcases hnodes with hsame | ⟨node, rest, rfl, -, -, hmade⟩
    · exact (congrFun hsame path).trans hnone
    · have hnode : node ∈ (providers k).nodes := (h.todo k _ _ hk).subset (List.mem_cons_self ..)
      have hne : path ≠ node.path := fun heq => hsole k hki node hnode heq.symm
      exact (congrFun hmade path).trans ((Function.update_of_ne hne ..).trans hnone)
  · exact hnone
  · rw [show (tree (e.expire k s.server)).nodes path = _ from (hdoc.expire k s.server).2 path, hnone]
    rfl

theorem going_step (hdoc : e.Documents tree) {i : ι} (hsole : ∀ n ∈ (providers i).nodes, Sole providers i n.path)
    (h : Going providers tree i s) {input : Input ι} (hg : Undisturbed e tree i s input)
    (ht : step e providers s input = some t) : Going providers tree i t := by
  have hsound := sound_step hdoc h.sound ht
  have hmissing (hne : input ≠ .call i) (node : Node) (rest : List Node)
      (hwas : s.process i = some (.publishing (node :: rest) true)) : (tree t.server).nodes node.path = none :=
    missing_step hdoc h.sound (hsole node ((h.sound.todo i _ _ hwas).subset (List.mem_cons_self ..)))
      (h.missing node rest hwas) hne ht
  rcases step_cases ht with ⟨k, rfl, hnone, rfl⟩ | ⟨k, todo, missing, rfl, hk, rfl⟩ | ⟨k, rfl, -, rfl⟩ |
    ⟨k, rfl, -, rfl⟩
  · have hlive := (hdoc.connect k s.server).2
    by_cases hik : i = k
    · subst hik
      refine ⟨hsound, ?_, fun _ => ?_, fun node rest hnext => ?_⟩
      · show Function.update s.process i _ i ≠ _
        rw [Function.update_self]
        exact fun heq => Process.noConfusion (Option.some.inj heq)
      · show (tree (e.connect i s.server)).live i
        rw [hlive, Function.update_self]
        trivial
      · exact absurd (Process.publishing.inj (update_self_some hnext)).2 Bool.false_ne_true
    · have hsame : Function.update s.process k (some (.publishing (providers k).nodes false)) i = s.process i :=
        Function.update_of_ne hik ..
      refine ⟨hsound, hsame.trans_ne h.going, fun hne => ?_, fun node rest hnext => ?_⟩
      · show (tree (e.connect k s.server)).live i
        rw [hlive, Function.update_of_ne hik]
        exact h.live (hsame ▸ hne)
      · exact hmissing nofun node rest (hsame ▸ hnext)
  · have hlive := (publish_tree hdoc k s.server todo missing).1
    by_cases hik : i = k
    · subst hik
      obtain ⟨hgoing, hasked⟩ := going_call hdoc h hk hg
      refine ⟨hsound, ?_, fun _ => ?_, fun node rest hnext => hasked node rest (update_self_some hnext)⟩
      · show Function.update s.process i _ i ≠ _
        rw [Function.update_self]
        exact fun heq => hgoing (Option.some.inj heq)
      · exact hlive ▸ h.live (hk ▸ Option.some_ne_none _)
    · have hsame : Function.update s.process k (some (publish e k s.server todo missing).2) i = s.process i :=
        Function.update_of_ne hik ..
      refine ⟨hsound, hsame.trans_ne h.going, fun hne => hlive ▸ h.live (hsame ▸ hne), fun node rest hnext => ?_⟩
      exact hmissing (fun heq => hik (Input.call.inj heq).symm) node rest (hsame ▸ hnext)
  · have hik : i ≠ k := fun heq => hg heq.symm
    have hsame : Function.update s.process k (some .exited) i = s.process i := Function.update_of_ne hik ..
    refine ⟨hsound, hsame.trans_ne h.going, fun hne => h.live (hsame ▸ hne), fun node rest hnext => ?_⟩
    exact hmissing nofun node rest (hsame ▸ hnext)
  · have hik : i ≠ k := fun heq => hg heq.symm
    refine ⟨hsound, h.going, fun hne => ?_, hmissing nofun⟩
    show (tree (e.expire k s.server)).live i
    rw [(hdoc.expire k s.server).1, Function.update_of_ne hik]
    exact h.live hne

/-- **A provider does not end while it publishes**, if nobody else publishes at any of its paths, those of
its services included, and the server creates for it what is missing. -/
theorem never_exits (hdoc : e.Documents tree) {server : σ} (hold : Unpublished tree server) {i : ι}
    (hsole : ∀ n ∈ (providers i).nodes, Sole providers i n.path) {is : List (Input ι)}
    (hmeets : Meets (step e providers) (Undisturbed e tree i) ⟨server, fun _ => none⟩ is) :
    Always (step e providers) (fun s => s.process i ≠ some .exited) ⟨server, fun _ => none⟩ is := by
  have hstart : Going providers tree i ⟨server, fun _ => none⟩ :=
    ⟨sound_initial hold, nofun, fun hne => absurd rfl hne, fun _ _ hi => absurd hi nofun⟩
  exact (always_of_step (fun _ _ _ h hg ht => going_step hdoc hsole h hg ht) hstart hmeets).imp fun _ h => h.going

/-- **A provider ends that has asked for a node before another created it**, at its next call. -/
theorem exits_of_beaten (hdoc : e.Documents tree) {i : ι} {node : Node} {rest : List Node}
    (hi : s.process i = some (.publishing (node :: rest) true)) (hthere : (tree s.server).nodes node.path ≠ none)
    (ht : step e providers s (.call i) = some t) : t.process i = some .exited := by
  have hflag : ((e.session i).zooCreate s.server node.path node.data node.state).1 ≠ ZOK := by
    rcases (hdoc.create i s.server node.path node.data node.state _ _ rfl).2 with ⟨-, hflag⟩ | ⟨-, hnone, -⟩
    · exact hflag
    · exact absurd hnone hthere
  simp only [step, hi, publish_make, if_neg hflag] at ht
  obtain rfl := Option.some.inj ht
  exact Function.update_self ..

/-! ### Two providers -/

def loginService : Described Bytes where
  name := ascii "UserServiceRpc"
  methods := [(ascii "Login", ⟨[], some, id, some⟩)]
  isName := by decide
  areNames := by decide
  nodup := by decide

def friendService : Described Bytes where
  name := ascii "FriendServiceRpc"
  methods := [(ascii "GetFriendsList", ⟨[], some, id, some⟩)]
  isName := by decide
  areNames := by decide
  nodup := by decide

def providerOf (service : Described Bytes) (port : BitVec 16) (room : (host (ascii "127.0.0.1") port).length ≤ 63) :
    Provider Bytes where
  ip := ascii "127.0.0.1"
  port := port
  services := [service]
  order := notify [service]
  perm := List.Perm.refl _
  isHost := by decide
  room := room

/-- Of one service, or of two. -/
def rivals (second : Bool) : Provider Bytes :=
  if second then providerOf loginService 8001 (by decide) else providerOf loginService 8000 (by decide)

def neighbours (second : Bool) : Provider Bytes :=
  if second then providerOf friendService 8001 (by decide) else providerOf loginService 8000 (by decide)

def nothingYet : State ((Bytes → Option (ZNode Bool)) × (Bool → Bool)) Bool :=
  ⟨(fun _ => none, fun _ => false), fun _ => none⟩

theorem nothingYet_unpublished : Unpublished Ensemble.inMemoryTree nothingYet.server :=
  fun _ _ hnode => nomatch hnode

/-- The second starts when the first serves. -/
def inTurn : List (Input Bool) :=
  .start false :: List.replicate 5 (.call false) ++ .start true :: List.replicate 3 (.call true)

/-- They go on call by call. -/
def together : List (Input Bool) :=
  .start false :: .start true :: (List.replicate 5 [.call false, .call true]).flatten

def loginAddress (t : State ((Bytes → Option (ZNode Bool)) × (Bool → Bool)) Bool) :
    Option (Except Bytes (Bytes × BitVec 16)) :=
  RpcChannel.address (Ensemble.inMemory.session true) t.server (ascii "UserServiceRpc") (ascii "Login")
    (List.replicate 64 0)

theorem discovered_instance : ∃ i : Bool, ascii "127.0.0.1" = (rivals i).ip ∧ 8000 = (rivals i).port ∧
    Provides (rivals i) (ascii "UserServiceRpc") (ascii "Login") := by
  have hrun : (run (step Ensemble.inMemory rivals) nothingYet inTurn).bind loginAddress =
      some (.ok (ascii "127.0.0.1", 8000)) := by decide +kernel
  obtain ⟨t, hr, hfound⟩ := Option.bind_eq_some_iff.mp hrun
  obtain ⟨i, -, -, hprovides, hsame⟩ := discovered Ensemble.inMemory_documents nothingYet_unpublished hr (by decide)
    (by decide) (by decide) hfound
  have hleaves : ∀ i, LeavesPort (rivals i).port
      ((List.replicate 64 0).drop (host (rivals i).ip (rivals i).port).length) := by decide +kernel
  obtain ⟨hip, hport⟩ := hsame (hleaves i)
  exact ⟨i, hip, hport, hprovides⟩

theorem sole_discovered_instance : ∃ t, run (step Ensemble.inMemory neighbours) nothingYet together = some t ∧
    loginAddress t = some (.ok (ascii "127.0.0.1", 8000)) := by
  have hrun : (run (step Ensemble.inMemory neighbours) nothingYet together).any fun t =>
      t.process false = some .serving ∧ t.server.2 false ∧ ((Ensemble.inMemory.session true).zooGet t.server
        (methodPath (ascii "UserServiceRpc") (ascii "Login")) (List.replicate 64 0)).1 = ZOK := by
    decide +kernel
  have hmeets : Meets (step Ensemble.inMemory neighbours) (Answered Ensemble.inMemory false) nothingYet together := by
    decide +kernel
  have hsole : Sole neighbours false (methodPath (ascii "UserServiceRpc") (ascii "Login")) := by decide +kernel
  obtain ⟨t, hr, hreached⟩ := (Option.any_eq_true _ _).mp hrun
  obtain ⟨hserving, hlive, hget⟩ := of_decide_eq_true hreached
  have hfirst : ((neighbours false).services.find? fun s => decide (s.name = loginService.name)) =
      some loginService := rfl
  exact ⟨t, hr, (sole_discovered Ensemble.inMemory_documents nothingYet_unpublished hmeets hr hserving hlive hfirst
    (List.mem_singleton_self _) hsole (by decide) hget).mpr (by decide +kernel)⟩

theorem never_exits_instance : Always (step Ensemble.inMemory neighbours) (fun s => s.process false ≠ some .exited)
    nothingYet together :=
  never_exits Ensemble.inMemory_documents nothingYet_unpublished (by decide +kernel) (by decide +kernel)

/-- Of two that publish services of one name, both ask for its node before one creates it. -/
theorem rivals_exit : ∃ s t, run (step Ensemble.inMemory rivals) nothingYet (together.take 5) = some s ∧
    step Ensemble.inMemory rivals s (.call true) = some t ∧ t.process true = some .exited := by
  have hasked : (run (step Ensemble.inMemory rivals) nothingYet (together.take 5)).any fun s =>
      (step Ensemble.inMemory rivals s (.call true)).isSome ∧
        ((s.process true).bind Process.makes).any fun node => (s.server.1 node.path).isSome := by
    decide +kernel
  obtain ⟨s, hs, hfound⟩ := (Option.any_eq_true _ _).mp hasked
  obtain ⟨hsome, hany⟩ := of_decide_eq_true hfound
  obtain ⟨t, ht⟩ := Option.isSome_iff_exists.mp hsome
  obtain ⟨node, hnode, hthere⟩ := (Option.any_eq_true _ _).mp hany
  obtain ⟨process, hprocess, hmakes⟩ := Option.bind_eq_some_iff.mp hnode
  obtain ⟨rest, rfl⟩ := Process.makes_some hmakes
  exact ⟨s, t, hs, ht, exits_of_beaten Ensemble.inMemory_documents hprocess (Option.isSome_iff_ne_none.mp hthere) ht⟩

end CoroutineRpc.Rpc.Registration
