import CoroutineRpc.Text

/-! `ZkClient`: the nodes that a provider creates and a channel reads.

The client library of ZooKeeper, with the server behind it, is a parameter: it copies what a node
has into the caller's buffer and puts no terminator behind it. `Create` does nothing when the node
exists. `GetData` makes a string of its buffer, so what was in the buffer before belongs to it: up
to the first NUL byte, and without one the string leaves the buffer, which is `none`. -/
namespace CoroutineRpc.Registry

def ZOK : Int := 0

def ZNONODE : Int := -101

/-- The state of a node that its session takes with it. -/
def ZOO_EPHEMERAL : Int := 1

/-- The calls, on a server in some state. -/
structure ZooKeeper (σ : Type) where
  zooExists : σ → Bytes → Int
  zooCreate : σ → (path data : Bytes) → (state : Int) → Int × σ
  /-- The result, the caller's buffer and the number that is reported. -/
  zooGet : σ → (path buffer : Bytes) → Int × Bytes × Nat

structure Node where
  path : Bytes
  data : Bytes
  state : Int
deriving DecidableEq

/-- The server, and the nodes of which `Create` has printed that it created them. -/
structure Session (σ : Type) where
  server : σ
  created : List Node := []

variable {σ : Type} (zk : ZooKeeper σ)

namespace ZkClient

/-- `none` where the process exits. -/
def create (s : Session σ) (path data : Bytes) (state : Int) : Option (Session σ) :=
  if zk.zooExists s.server path = ZNONODE then
    let (flag, server) := zk.zooCreate s.server path data state
    if flag = ZOK then some ⟨server, s.created ++ [⟨path, data, state⟩]⟩ else none
  else some s

def getData (server : σ) (path buffer : Bytes) : Option Bytes :=
  let (flag, buffer, _) := zk.zooGet server path buffer
  if flag ≠ ZOK then some [] else if 0 ∈ buffer then some (cString buffer) else none

end ZkClient

/-! ### What the library is relied on for -/

/-- The node has the data, which is copied into a buffer with room for it; what is behind stays. -/
def Holds (server : σ) (path data : Bytes) : Prop := ∀ buffer : Bytes, data.length ≤ buffer.length →
  zk.zooGet server path buffer = (ZOK, data ++ buffer.drop data.length, data.length)

/-- A node has exactly the data it was created with, whatever is created later. -/
structure ZooKeeper.Stores : Prop where
  created : ∀ s t path data state, zk.zooCreate s path data state = (ZOK, t) → Holds zk t path data
  kept : ∀ s t flag path data state path' data', zk.zooCreate s path data state = (flag, t) →
    Holds zk s path' data' → Holds zk t path' data'

variable {zk}

namespace ZkClient

/-- A step of `create`: it makes a node that was not there, or does nothing. -/
theorem create_some {s t : Session σ} {path data : Bytes} {state : Int} (h : create zk s path data state = some t) :
    t = s ∨ zk.zooCreate s.server path data state = (ZOK, t.server) ∧
      t.created = s.created ++ [⟨path, data, state⟩] := by
  unfold create at h
  split at h
  · dsimp only at h
    split at h
    · rename_i hflag
      obtain rfl := Option.some.inj h
      exact .inr ⟨Prod.ext hflag rfl, rfl⟩
    · cases h
  · exact .inl (Option.some.inj h).symm

/-- What is read of a node: its data, and what was in the buffer behind. -/
theorem getData_holds {server : σ} {path data buffer : Bytes} (h : Holds zk server path data)
    (hroom : data.length ≤ buffer.length) (hdata : 0 ∉ data) :
    getData zk server path buffer =
      if 0 ∈ buffer.drop data.length then some (data ++ cString (buffer.drop data.length)) else none := by
  unfold getData
  rw [h buffer hroom]
  dsimp only
  rw [if_neg fun hne => hne rfl, cString_append hdata]
  simp only [List.mem_append, hdata, false_or]

theorem getData_no_nul {server : σ} {path buffer text : Bytes} (h : getData zk server path buffer = some text) :
    0 ∉ text := by
  unfold getData at h
  dsimp only at h
  split at h
  · exact Option.some.inj h ▸ List.not_mem_nil
  split at h
  · exact Option.some.inj h ▸ not_mem_cString _
  · cases h

end ZkClient

end CoroutineRpc.Registry
