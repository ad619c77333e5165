import CoroutineRpc.Library.Search
import CoroutineRpc.Library.Transition
import CoroutineRpc.Registry.ZkClient
import CoroutineRpc.Rpc.Dispatch

/-! The address of a provider, as it is published and as a channel reads it.

`RpcProvider::Run` writes "host:port" into a node for each method, and `RpcChannel::CallMethod`
takes apart what `GetData` gives it of such a node. That is the text and, up to a NUL byte, what
was in the buffer of `GetData` behind it, so digits there change the port
(`published_address_iff`). -/
namespace CoroutineRpc.Rpc
open Library Registry

variable {σ : Type} (zk : ZooKeeper σ)

/-! ### What a provider publishes -/

namespace RpcProvider

/-- What `Run` uses of the entries of `m_serviceMap`. -/
structure ServiceInfo where
  serviceName : Bytes
  methodNames : List Bytes

/-- `sprintf(buffer, "%s:%d", ip.c_str(), port)` on an array of so many zeros. -/
def sprintf (size : Nat) (ip : Bytes) (port : BitVec 16) : Option Bytes :=
  let text := cString ip ++ ascii ":" ++ decimal port.toNat
  if text.length < size then some (text ++ List.replicate (size - text.length) 0) else none

/-- The body of the inner loop. -/
def publishMethod (ip : Bytes) (port : BitVec 16) (servicePath : Bytes) (s : Session σ) (methodName : Bytes) :
    Option (Session σ) := do
  let methodPath := servicePath ++ ascii "/" ++ methodName
  let methodPathData ← sprintf 128 ip port
  -- `strlen` counts up to the first NUL byte
  ZkClient.create zk s (cString methodPath) (methodPathData.take (cString methodPathData).length) ZOO_EPHEMERAL

/-- The body of the outer loop. -/
def publishService (ip : Bytes) (port : BitVec 16) (s : Session σ) (sp : ServiceInfo) : Option (Session σ) := do
  let servicePath := ascii "/" ++ sp.serviceName
  let s ← ZkClient.create zk s (cString servicePath) [] 0
  Transition.run (publishMethod zk ip port servicePath) s sp.methodNames

/-- The part of `Run` that publishes. -/
def publish (ip : Bytes) (port : BitVec 16) (s : Session σ) (serviceMap : List ServiceInfo) : Option (Session σ) :=
  Transition.run (publishService zk ip port) s serviceMap

end RpcProvider

/-! ### What a channel reads -/

namespace RpcChannel

/-- The address that `CallMethod` connects to, or the text that it calls `SetFailed` with; `buffer`
is what `GetData` finds in its buffer. -/
def address (server : σ) (serviceName methodName buffer : Bytes) : Option (Except Bytes (Bytes × BitVec 16)) := do
  let methodPath := ascii "/" ++ serviceName ++ ascii "/" ++ methodName
  let hostData ← ZkClient.getData zk server (cString methodPath) buffer
  if hostData = [] then return .error (methodPath ++ ascii " is not exist!")
  match Search.find (ascii ":") hostData with
  | none => return .error (methodPath ++ ascii " address is invalid!")
  | some idx =>
    let ip := hostData.take idx
    let port := BitVec.ofInt 16 (atoi ((hostData.drop (idx + 1)).take (hostData.length - idx)))
    return .ok (ip, port)

end RpcChannel

variable {zk} {ip : Bytes} {port : BitVec 16}

/-! ### The nodes -/

/-- The nodes have their data, and those of the methods have the address. -/
structure Published (zk : ZooKeeper σ) (ip : Bytes) (port : BitVec 16) (s : Session σ) : Prop where
  holds : ∀ node ∈ s.created, Holds zk s.server node.path node.data
  text : ∀ node ∈ s.created, node.state = ZOO_EPHEMERAL →
    node.data = cString ip ++ ascii ":" ++ decimal port.toNat

theorem published_nil {server : σ} : Published zk ip port ⟨server, []⟩ where
  holds _ hnode := absurd hnode List.not_mem_nil
  text _ hnode := absurd hnode List.not_mem_nil

theorem published_create (hzk : zk.Stores) {s t : Session σ} {path data : Bytes} {state : Int}
    (h : Published zk ip port s)
    (hdata : state = ZOO_EPHEMERAL → data = cString ip ++ ascii ":" ++ decimal port.toNat)
    (ht : ZkClient.create zk s path data state = some t) : Published zk ip port t := by
  rcases ZkClient.create_some ht with rfl | ⟨hcreate, hcreated⟩
  · exact h
  have hnew : ∀ node ∈ t.created, node ∈ s.created ∨ node = ⟨path, data, state⟩ := by
    intro node hnode
    rw [hcreated] at hnode
    exact (List.mem_append.mp hnode).imp_right List.mem_singleton.mp
  constructor
  · intro node hnode
    rcases hnew node hnode with hold | rfl
    · exact hzk.kept _ _ _ _ _ _ _ _ hcreate (h.holds node hold)
    · exact hzk.created _ _ _ _ _ hcreate
  · intro node hnode hstate
    rcases hnew node hnode with hold | rfl
    · exact h.text node hold hstate
    · exact hdata hstate

/-- What `sprintf` wrote is what `strlen` counts. -/
theorem sprintf_strlen {size : Nat} {array : Bytes} (h : RpcProvider.sprintf size ip port = some array) :
    array.take (cString array).length = cString ip ++ ascii ":" ++ decimal port.toNat := by
  unfold RpcProvider.sprintf at h
  dsimp only at h
  split at h
  swap
  · cases h
  rename_i hsize
  obtain rfl := Option.some.inj h
  have hnul : 0 ∉ cString ip ++ ascii ":" ++ decimal port.toNat := by
    simp only [List.mem_append, not_or]
    exact ⟨⟨not_mem_cString ip, by decide⟩, decimal_no_nul _⟩
  obtain ⟨n, hn⟩ : ∃ n, size - (cString ip ++ ascii ":" ++ decimal port.toNat).length = n + 1 :=
    ⟨_, (Nat.succ_pred_eq_of_pos (Nat.sub_pos_of_lt hsize)).symm⟩
  rw [hn, cString_append hnul, List.replicate_succ]
  have hend : cString (0 :: List.replicate n 0) = [] := rfl
  rw [hend, List.append_nil, List.take_left]

theorem published_publish (hzk : zk.Stores) {s t : Session σ} {serviceMap : List RpcProvider.ServiceInfo}
    (h : Published zk ip port s) (ht : RpcProvider.publish zk ip port s serviceMap = some t) :
    Published zk ip port t := by
  have hmethod : ∀ servicePath s methodName t, Published zk ip port s →
      RpcProvider.publishMethod zk ip port servicePath s methodName = some t → Published zk ip port t := by
    intro servicePath s methodName t h ht
    obtain ⟨array, harray, ht⟩ := Option.bind_eq_some_iff.mp ht
    exact published_create hzk h (fun _ => sprintf_strlen harray) ht
  have hservice : ∀ s sp t, Published zk ip port s →
      RpcProvider.publishService zk ip port s sp = some t → Published zk ip port t := by
    intro s sp t h ht
    obtain ⟨u, hu, ht⟩ := Option.bind_eq_some_iff.mp ht
    have hpublished := published_create hzk h (fun hstate => absurd hstate (by decide)) hu
    exact (Transition.always_of_inductive (hmethod _) hpublished _).last ht
  exact (Transition.always_of_inductive hservice h _).last ht

/-! ### The round trip -/

/-- The bytes behind the text end the string, and the digits in front leave the port what it is;
`strtol` cuts their number off at the largest `long`. -/
def LeavesPort (port : BitVec 16) (behind : Bytes) : Prop :=
  let digits := behind.takeWhile isdigit
  let value := port.toNat * 10 ^ digits.length + digitsValue digits
  0 ∈ behind ∧ min value (2 ^ 63 - 1) % 2 ^ 16 = port.toNat

instance : DecidablePred (LeavesPort port) := fun _ => inferInstanceAs (Decidable (_ ∧ _))

/-- An address has no NUL byte. -/
theorem address_no_nul {server : σ} {serviceName methodName buffer : Bytes}
    (h : RpcChannel.address zk server serviceName methodName buffer = some (.ok (ip, port))) : 0 ∉ ip := by
  obtain ⟨hostData, hhostData, h⟩ := Option.bind_eq_some_iff.mp h
  dsimp only at h
  split at h
  · cases h
  split at h
  · cases h
  · obtain rfl := (Prod.mk.inj (Except.ok.inj (Option.some.inj h))).1
    exact fun hmem => ZkClient.getData_no_nul hhostData (List.mem_of_mem_take hmem)

/-- What a `uint16_t` keeps of the `int` that was read. -/
theorem ofInt_toInt_eq_iff {value : Nat} :
    BitVec.ofInt 16 (BitVec.ofInt 32 (min (value : Int) (2 ^ 63 - 1))).toInt = port ↔
      min value (2 ^ 63 - 1) % 2 ^ 16 = port.toNat := by
  have hmin : min (value : Int) (2 ^ 63 - 1) = (min value (2 ^ 63 - 1) : Nat) := by omega
  rw [hmin, ← BitVec.toNat_inj, BitVec.toNat_ofInt, BitVec.toInt_ofInt]
  generalize min value (2 ^ 63 - 1) = n
  have hlow : (Int.bmod (n : Int) (2 ^ 32)) % (2 ^ 16 : Nat) = (n : Int) % (2 ^ 16 : Nat) := by
    rw [← Int.emod_emod_of_dvd (Int.bmod n (2 ^ 32)) (show ((2 ^ 16 : Nat) : Int) ∣ (2 ^ 32 : Nat) by decide),
      Int.bmod_emod, Int.emod_emod_of_dvd _ (by decide)]
  rw [hlow, ← Int.natCast_emod, Int.toNat_natCast]

/-- What a channel makes of the text of a node. -/
theorem address_holds {server : σ} {serviceName methodName buffer : Bytes} (hcolon : byte ':' ∉ ip) (hip : 0 ∉ ip)
    (hholds : Holds zk server (cString (ascii "/" ++ serviceName ++ ascii "/" ++ methodName))
      (ip ++ ascii ":" ++ decimal port.toNat))
    (hroom : (ip ++ ascii ":" ++ decimal port.toNat).length ≤ buffer.length) :
    RpcChannel.address zk server serviceName methodName buffer = some (.ok (ip, port)) ↔
      LeavesPort port (buffer.drop (ip ++ ascii ":" ++ decimal port.toNat).length) := by
  have htext : 0 ∉ ip ++ ascii ":" ++ decimal port.toNat := by
    simp only [List.mem_append, not_or]
    exact ⟨⟨hip, by decide⟩, decimal_no_nul _⟩
  unfold RpcChannel.address LeavesPort
  dsimp only
  rw [ZkClient.getData_holds hholds hroom htext]
  generalize buffer.drop _ = behind
  by_cases hend : 0 ∈ behind
  swap
  · rw [if_neg hend]
    exact iff_of_false (Option.some_ne_none _).symm fun h => hend h.1
  have hne : ip ++ ascii ":" ++ decimal port.toNat ++ cString behind ≠ [] := by simp [ascii]
  have hfind : Search.find (ascii ":") (ip ++ ascii ":" ++ decimal port.toNat ++ cString behind) = some ip.length := by
    rw [List.append_assoc, List.append_assoc]
    exact Search.find_of_not_mem hcolon _
  have hip' : (ip ++ ascii ":" ++ decimal port.toNat ++ cString behind).take ip.length = ip := by
    rw [List.append_assoc, List.append_assoc, List.take_left]
  have hport : (ip ++ ascii ":" ++ decimal port.toNat ++ cString behind).drop (ip.length + 1) =
      decimal port.toNat ++ cString behind := by
    rw [List.append_assoc]
    exact List.drop_left' (by rw [List.length_append]; rfl)
  have hvalue : digitsValue (decimal port.toNat ++ (cString behind).takeWhile isdigit) =
      port.toNat * 10 ^ (behind.takeWhile isdigit).length + digitsValue (behind.takeWhile isdigit) := by
    rw [digitsValue_append, digitsValue_decimal, takeWhile_cString]
  rw [if_pos hend, Option.bind_eq_bind, Option.bind_some, if_neg hne, hfind]
  dsimp only
  rw [hip', hport, List.take_of_length_le (by simp [ascii]),
    atoi_append (decimal_ne_nil _) (decimal_isdigit _) (not_mem_cString _), hvalue, ← ofInt_toInt_eq_iff]
  constructor
  · intro h
    exact ⟨hend, (Prod.mk.inj (Except.ok.inj (Option.some.inj h))).2⟩
  · rintro ⟨-, hsame⟩
    rw [hsame]
    rfl

/-- **The address a channel reads is the one that was published** exactly if the host has no NUL
byte and what was in the buffer of `GetData` behind the text ends there and leaves the port. -/
theorem published_address_iff (hzk : zk.Stores) {serviceMap : List RpcProvider.ServiceInfo} {server : σ}
    {t : Session σ} {serviceName methodName data buffer : Bytes} (hcolon : byte ':' ∉ ip)
    (hlength : (ip ++ ascii ":" ++ decimal port.toNat).length ≤ 63)
    (hpublish : RpcProvider.publish zk ip port ⟨server, []⟩ serviceMap = some t)
    (hnode : ⟨cString (ascii "/" ++ serviceName ++ ascii "/" ++ methodName), data, ZOO_EPHEMERAL⟩ ∈ t.created)
    (hbuffer : buffer.length = 64) :
    RpcChannel.address zk t.server serviceName methodName buffer = some (.ok (ip, port)) ↔
      0 ∉ ip ∧ LeavesPort port (buffer.drop (ip ++ ascii ":" ++ decimal port.toNat).length) := by
  by_cases hip : 0 ∈ ip
  · exact ⟨fun h => absurd hip (address_no_nul h), fun h => absurd hip h.1⟩
  have hpublished := published_publish hzk published_nil hpublish
  have hholds := hpublished.holds _ hnode
  have htext := hpublished.text _ hnode rfl
  dsimp only at hholds htext
  rw [htext, cString_eq hip] at hholds
  rw [address_holds hcolon hip hholds (by omega)]
  exact ⟨fun h => ⟨hip, h⟩, fun h => h.2⟩

/-! ### A server -/

/-- Nodes in memory; the calls behave as the library documents. -/
def tree : ZooKeeper (Bytes → Option Bytes) where
  zooExists nodes path := if (nodes path).isSome then ZOK else ZNONODE
  zooCreate nodes path data _ :=
    -- `ZNODEEXISTS`
    if (nodes path).isSome then (-110, nodes) else (ZOK, Function.update nodes path (some data))
  zooGet nodes path buffer :=
    match nodes path with
    | none => (ZNONODE, buffer, 0)
    | some data => (ZOK, data.take buffer.length ++ buffer.drop data.length, min data.length buffer.length)

theorem holds_tree {nodes : Bytes → Option Bytes} {path data : Bytes} :
    Holds tree nodes path data ↔ nodes path = some data := by
  constructor
  · intro h
    -- a buffer with room for one byte more
    have hget := h (data ++ [0]) (by simp)
    unfold tree at hget
    dsimp only at hget
    cases hnode : nodes path with
    | none =>
      rw [hnode] at hget
      cases hget
    | some data' =>
      rw [hnode] at hget
      obtain ⟨hcopied, hnumber⟩ := Prod.mk.inj (Prod.mk.inj hget).2
      have hlength : data'.length = data.length := by
        rw [List.length_append, List.length_singleton] at hnumber
        omega
      rw [List.take_of_length_le (by simp [hlength]), hlength] at hcopied
      rw [List.append_cancel_right hcopied]
  · intro h buffer hroom
    simp only [tree, h, List.take_of_length_le hroom, Nat.min_eq_left hroom]

theorem tree_stores : tree.Stores where
  created nodes nodes' path data state h := by
    unfold tree at h
    dsimp only at h
    split at h
    · cases h
    · rw [holds_tree, ← (Prod.mk.inj h).2, Function.update_self]
  kept nodes nodes' flag path data state path' data' h hholds := by
    rw [holds_tree] at hholds ⊢
    unfold tree at h
    dsimp only at h
    split at h
    · rw [← (Prod.mk.inj h).2, hholds]
    · rename_i hnone
      have hne : path' ≠ path := by
        rintro rfl
        rw [hholds] at hnone
        exact hnone rfl
      rw [← (Prod.mk.inj h).2, Function.update_of_ne hne, hholds]

/-- What a provider of one method publishes there. -/
def publishTree : Option (Session (Bytes → Option Bytes)) :=
  RpcProvider.publish tree (ascii "127.0.0.1") 8000 ⟨fun _ => none, []⟩ [⟨ascii "UserServiceRpc", [ascii "Login"]⟩]

theorem publishTree_isSome : publishTree.isSome = true := by decide +kernel

/-- The address that a channel reads there. -/
def treeAddress (buffer : Bytes) : Option (Except Bytes (Bytes × BitVec 16)) :=
  RpcChannel.address tree (publishTree.get publishTree_isSome).server (ascii "UserServiceRpc") (ascii "Login") buffer

/-- The node of the method. -/
def loginNode : Node :=
  ⟨cString (ascii "/" ++ ascii "UserServiceRpc" ++ ascii "/" ++ ascii "Login"), ascii "127.0.0.1:8000", ZOO_EPHEMERAL⟩

theorem published_address_zeros : treeAddress (List.replicate 64 0) = some (.ok (ascii "127.0.0.1", 8000)) := by
  have hnode : loginNode ∈ (publishTree.get publishTree_isSome).created := by decide +kernel
  refine (published_address_iff tree_stores (by decide) (by decide) (Option.some_get publishTree_isSome).symm hnode
    (by decide)).mpr ?_
  decide +kernel

/-- **A channel does not read the address that was published**: a digit behind the text makes it
another port, and without a NUL byte the string leaves the buffer. -/
theorem not_published_address :
    treeAddress (List.replicate 14 0 ++ ascii "9" ++ List.replicate 49 0) =
      some (.ok (ascii "127.0.0.1", 14473)) ∧ treeAddress (List.replicate 64 1) = none := by
  decide +kernel

end CoroutineRpc.Rpc
