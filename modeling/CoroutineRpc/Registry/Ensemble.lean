import CoroutineRpc.Registry.ZkClient
import Mathlib.Logic.Function.Basic

/-! ZooKeeper as several clients see it.

Each client has a session. What a session created as ephemeral goes when the session ends, and the
rest stays. `Documents` is what the documentation says of the calls, in terms of the nodes that there
are; a call may fail at any time, also after it was carried out. -/
namespace CoroutineRpc.Registry

structure Ensemble (σ ι : Type) where
  /-- The calls in a session. -/
  session : ι → ZooKeeper σ
  /-- A session begins. -/
  connect : ι → σ → σ
  /-- The server ends a session. -/
  expire : ι → σ → σ

/-- The data, and the session that takes the node with it. -/
structure ZNode (ι : Type) where
  data : Bytes
  ephemeralOwner : Option ι
deriving DecidableEq

/-- What `zoo_create` makes in a session. -/
def ZNode.of {ι : Type} (i : ι) (data : Bytes) (state : Int) : ZNode ι :=
  ⟨data, if state = ZOO_EPHEMERAL then some i else none⟩

/-- What a server has. -/
structure ZTree (ι : Type) where
  nodes : Bytes → Option (ZNode ι)
  live : ι → Prop

namespace Ensemble
variable {σ ι : Type} [DecidableEq ι]

/-- `tree` is what the server has. There is one server: reads see its present state, where ZooKeeper lets
those of another server lag behind. -/
structure Documents (e : Ensemble σ ι) (tree : σ → ZTree ι) : Prop where
  exists_ok : ∀ i s path, (e.session i).zooExists s path = ZOK → (tree s).nodes path ≠ none
  exists_none : ∀ i s path, (e.session i).zooExists s path = ZNONODE → (tree s).nodes path = none
  create : ∀ i s path data state flag t, (e.session i).zooCreate s path data state = (flag, t) →
    (tree t).live = (tree s).live ∧
      ((tree t).nodes = (tree s).nodes ∧ flag ≠ ZOK ∨
        (tree s).live i ∧ (tree s).nodes path = none ∧
          (tree t).nodes = Function.update (tree s).nodes path (some (ZNode.of i data state)))
  get : ∀ i s path, (∀ buffer, ((e.session i).zooGet s path buffer).1 ≠ ZOK) ∨
    ∃ node, (tree s).nodes path = some node ∧ Holds (e.session i) s path node.data
  connect : ∀ i s, (tree (e.connect i s)).nodes = (tree s).nodes ∧
    (tree (e.connect i s)).live = Function.update (tree s).live i True
  expire : ∀ i s, (tree (e.expire i s)).live = Function.update (tree s).live i False ∧
    ∀ path, (tree (e.expire i s)).nodes path =
      ((tree s).nodes path).filter fun node => node.ephemeralOwner ≠ some i

/-! ### A server in memory -/

/-- The calls never fail without a reason. -/
def inMemory : Ensemble ((Bytes → Option (ZNode ι)) × (ι → Bool)) ι where
  session i := {
    zooExists s path := if (s.1 path).isSome then ZOK else ZNONODE
    zooCreate s path data state :=
      -- `ZNODEEXISTS`, `ZSESSIONEXPIRED`
      if (s.1 path).isSome then (-110, s) else if s.2 i then
        (ZOK, Function.update s.1 path (some (ZNode.of i data state)), s.2)
      else (-112, s)
    zooGet s path buffer :=
      match s.1 path with
      | none => (ZNONODE, buffer, 0)
      | some node =>
        (ZOK, node.data.take buffer.length ++ buffer.drop node.data.length, min node.data.length buffer.length) }
  connect i s := (s.1, Function.update s.2 i true)
  expire i s :=
    (fun path => (s.1 path).filter fun node => node.ephemeralOwner ≠ some i, Function.update s.2 i false)

def inMemoryTree (s : (Bytes → Option (ZNode ι)) × (ι → Bool)) : ZTree ι := ⟨s.1, fun i => s.2 i = true⟩

instance (s : (Bytes → Option (ZNode ι)) × (ι → Bool)) (i : ι) : Decidable ((inMemoryTree s).live i) :=
  inferInstanceAs (Decidable (s.2 i = true))

theorem inMemory_documents : (inMemory (ι := ι)).Documents inMemoryTree where
  exists_ok i s path h hnone := by
    change (if (s.1 path).isSome then ZOK else ZNONODE) = ZOK at h
    rw [show s.1 path = none from hnone] at h
    cases h
  exists_none i s path h := by
    change (if (s.1 path).isSome then ZOK else ZNONODE) = ZNONODE at h
    show s.1 path = none
    cases hpath : s.1 path with
    | none => rfl
    | some node =>
      rw [hpath] at h
      cases h
  create i s path data state flag t h := by
    change (if (s.1 path).isSome then (-110, s) else if s.2 i then
      (ZOK, Function.update s.1 path (some (ZNode.of i data state)), s.2) else (-112, s)) = (flag, t) at h
    split at h
    · obtain ⟨rfl, rfl⟩ := Prod.mk.inj h
      exact ⟨rfl, .inl ⟨rfl, by decide⟩⟩
    · rename_i hnone
      split at h
      · rename_i hlive
        obtain ⟨rfl, rfl⟩ := Prod.mk.inj h
        exact ⟨rfl, .inr ⟨hlive, Option.not_isSome_iff_eq_none.mp hnone, rfl⟩⟩
      · obtain ⟨rfl, rfl⟩ := Prod.mk.inj h
        exact ⟨rfl, .inl ⟨rfl, by decide⟩⟩
  get i s path := by
    cases hpath : s.1 path with
    | none =>
      refine .inl fun buffer h => ?_
      change (match s.1 path with | none => _ | some _ => _ : Int × Bytes × Nat).1 = ZOK at h
      rw [hpath] at h
      cases h
    | some node =>
      refine .inr ⟨node, hpath, fun buffer hroom => ?_⟩
      show (match s.1 path with | none => _ | some _ => _ : Int × Bytes × Nat) = _
      rw [hpath]
      dsimp only
      rw [List.take_of_length_le hroom, Nat.min_eq_left hroom]
  connect i s := by
    refine ⟨rfl, funext fun j => ?_⟩
    show (Function.update s.2 i true j = true) = _
    by_cases hj : j = i
    · rw [hj, Function.update_self, Function.update_self]
      exact eq_self true
    · rw [Function.update_of_ne hj, Function.update_of_ne hj]
      rfl
  expire i s := by
    refine ⟨funext fun j => ?_, fun path => rfl⟩
    show (Function.update s.2 i false j = true) = _
    by_cases hj : j = i
    · rw [hj, Function.update_self, Function.update_self]
      exact eq_false Bool.false_ne_true
    · rw [Function.update_of_ne hj, Function.update_of_ne hj]
      rfl

end Ensemble

end CoroutineRpc.Registry
