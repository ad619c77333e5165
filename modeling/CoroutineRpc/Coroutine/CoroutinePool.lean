import CoroutineRpc.Coroutine.Memory
import CoroutineRpc.Library.Transition
import Mathlib.Data.List.Nodup

/-! `CoroutinePool`: coroutines that are used again.

The pool makes its coroutines once and marks the ones that are in use; when none is free it
makes another one for the occasion, on a block of a further `Memory`. A coroutine that runs
inside `CoFunction` is not handed out even when it was returned. The coroutines that somebody
holds stand on blocks that are marked, one block each (`Exclusive`), so no two of them share a
stack (`stacks_disjoint`). -/
namespace CoroutineRpc
open Library.Transition

/-- A `Coroutine` object, but for what its owners set; `m_cor_id` tells one from another. -/
structure Coroutine where
  corId : Nat
  /-- Its place in the pool. -/
  index : Int := -1
  stackSp : Int
deriving DecidableEq

namespace Coroutine

/-- `freeCors` says of each coroutine of the pool whether it is in use. -/
structure CoroutinePool where
  poolSize : Int
  stackSize : Int
  freeCors : List (Coroutine × Bool)
  /-- The first is that of the coroutines of the pool. -/
  memoryPool : List Memory
  /-- `t_cur_coroutine_id`. -/
  curCoroutineId : Nat
deriving DecidableEq

namespace CoroutinePool

/-- `n` coroutines from the index `i` on, each on a block of `tmp`; the constructor of a
coroutine asserts that there is one. -/
def newCors : Nat → Nat → Memory → Option (List (Coroutine × Bool) × Memory)
  | _, 0, tmp => some ([], tmp)
  | i, n + 1, tmp => do
    let (block, tmp) ← tmp.getBlock
    let (cors, tmp) ← newCors (i + 1) n tmp
    pure ((⟨i + 1, i, block⟩, false) :: cors, tmp)

/-- `CoroutinePool(pool_size, stack_size)`, where `malloc` returns `start`. -/
def make (poolSize stackSize start : Int) : Option CoroutinePool := do
  let tmp ← Memory.make stackSize poolSize start
  let (freeCors, tmp) ← newCors 0 poolSize.toNat tmp
  pure ⟨poolSize, stackSize, freeCors, [tmp], poolSize.toNat + 1⟩

/-- The first coroutine of the pool that can be dispatched. -/
def takeFree (isInCoFunc : Nat → Bool) :
    List (Coroutine × Bool) → Option (Coroutine × List (Coroutine × Bool))
  | [] => none
  | (cor, used) :: rest =>
    if !isInCoFunc cor.corId && !used then some (cor, (cor, true) :: rest)
    else (takeFree isInCoFunc rest).map fun r => (r.1, (cor, used) :: r.2)

/-- A further coroutine, on the block `tmp`. -/
def further (pool : CoroutinePool) (tmp : Int) (overflow : List Memory) : Coroutine × CoroutinePool :=
  ({corId := pool.curCoroutineId, stackSp := tmp},
    {pool with
      memoryPool := pool.memoryPool.take 1 ++ overflow
      curCoroutineId := pool.curCoroutineId + 1})

/-- `malloc` returns `start` if it is called. -/
def getCoroutineInstanse (isInCoFunc : Nat → Bool) (start : Int) (pool : CoroutinePool) :
    Option (Coroutine × CoroutinePool) :=
  match takeFree isInCoFunc pool.freeCors with
  | some (cor, freeCors) => some (cor, {pool with freeCors})
  | none =>
    match Memory.takeBlock pool.memoryPool.tail with
    | some (tmp, overflow) => some (pool.further tmp overflow)
    | none => do
      let memory ← Memory.make pool.stackSize pool.poolSize start
      let (tmp, memory) ← memory.getBlock
      pure (pool.further tmp (pool.memoryPool.tail ++ [memory]))

def returnCoroutine (cor : Coroutine) (pool : CoroutinePool) : CoroutinePool :=
  if 0 ≤ cor.index ∧ cor.index < pool.poolSize then
    {pool with freeCors := pool.freeCors.modify cor.index.toNat fun c => (c.1, false)}
  else
    {pool with memoryPool := pool.memoryPool.take 1 ++ Memory.giveBack cor.stackSp pool.memoryPool.tail}

/-! ### A pool and those who use it -/

/-- `held` are the coroutines that were obtained and not returned yet. -/
structure State where
  pool : CoroutinePool
  held : List Coroutine := []
  isInCoFunc : Nat → Bool := fun _ => false

inductive Input where
  | getCoroutineInstanse (start : Int)
  | returnCoroutine (cor : Coroutine)
  /-- A coroutine enters or leaves `CoFunction`. -/
  | setIsInCoFunc (corId : Nat) (v : Bool)

/-- A coroutine that was obtained is returned at most once. -/
def step (s : State) : Input → Option State
  | .getCoroutineInstanse start => do
    let (cor, pool) ← s.pool.getCoroutineInstanse s.isInCoFunc start
    pure {s with pool, held := s.held ++ [cor]}
  | .returnCoroutine cor =>
    if cor ∈ s.held then some {s with pool := s.pool.returnCoroutine cor, held := s.held.erase cor} else none
  | .setIsInCoFunc corId v => some {s with isInCoFunc := Function.update s.isInCoFunc corId v}

/-- What `malloc` returns lies apart from what it returned before. -/
def Allocates (s : State) (i : Input) : Prop :=
  ∀ start, i = .getCoroutineInstanse start → ∀ m ∈ s.pool.memoryPool,
    Disjoint m.range (Set.Ico start (start + s.pool.poolSize * s.pool.stackSize))

instance (s : State) (i : Input) : Decidable (Allocates s i) :=
  match i with
  | .getCoroutineInstanse start =>
    decidable_of_iff (∀ m ∈ s.pool.memoryPool,
        min (m.start + m.size) (start + s.pool.poolSize * s.pool.stackSize) ≤ max m.start start)
      ⟨fun h _ heq m hm => by
        obtain rfl := Input.getCoroutineInstanse.inj heq
        exact Set.Ico_disjoint_Ico.mpr (h m hm),
        fun h m hm => Set.Ico_disjoint_Ico.mp (h start rfl m hm)⟩
  | .returnCoroutine _ | .setIsInCoFunc _ _ => isTrue nofun

/-- The coroutines that are held have stacks of their own. -/
def OwnStacks (s : State) : Prop :=
  s.held.Pairwise fun cor other =>
    Disjoint (Memory.stack s.pool.stackSize cor.stackSp) (Memory.stack s.pool.stackSize other.stackSp)

/-! ### The pool as it is made -/

/-- A memory whose first `i` blocks are handed out, and `n` are not. -/
theorem newCors_some {size : Int} {count : Nat} {n : Nat} :
    ∀ {i : Nat} {tmp : Memory}, Memory.Of size count tmp →
      tmp.blocks = List.replicate i true ++ List.replicate n false →
      ∃ cors tmp', newCors i n tmp = some (cors, tmp') ∧ Memory.Of size count tmp' ∧ tmp'.range = tmp.range ∧
        (∀ t, tmp'.block t = tmp.block t) ∧ cors.length = n ∧
        ∀ k cor used, cors[k]? = some (cor, used) →
          used = false ∧ cor.index = ((i + k : Nat) : Int) ∧ cor.stackSp = tmp.block (i + k) := by
  induction n with
  | zero => exact fun hof _ => ⟨[], _, rfl, hof, rfl, fun _ => rfl, rfl, nofun⟩
  | succ n ih =>
    intro i tmp hof hblocks
    have hfind : tmp.blocks.findIdx? (fun block => block = false) = some i := by
      rw [hblocks, List.findIdx?_append]
      simp [List.replicate_succ, List.findIdx?_cons]
    have hget : tmp.getBlock = some (tmp.block i, {tmp with blocks := tmp.blocks.set i true}) := by
      rw [Memory.getBlock, hfind]
      rfl
    have hset : tmp.blocks.set i true = List.replicate (i + 1) true ++ List.replicate n false := by
      rw [hblocks, List.set_append, List.length_replicate, if_neg (Nat.lt_irrefl i), Nat.sub_self,
        List.replicate_succ, List.set_cons_zero, List.replicate_succ', List.append_assoc]
      rfl
    obtain ⟨cors, tmp', hcors, hof', hrange, hblock, hlength, hcor⟩ := ih (hof.set i true) hset
    refine ⟨(⟨i + 1, i, tmp.block i⟩, false) :: cors, tmp', ?_, hof', hrange, hblock,
      congrArg (· + 1) hlength, ?_⟩
    · simp only [newCors, hget, hcors, Option.bind_eq_bind, Option.bind_some, Option.pure_def]
    · intro k cor used hk
      cases k with
      | zero =>
        obtain ⟨rfl, rfl⟩ := Prod.mk.inj (Option.some.inj hk)
        exact ⟨rfl, rfl, rfl⟩
      | succ k =>
        obtain ⟨hused, hindex, hstack⟩ := hcor k cor used hk
        exact ⟨hused, by rw [hindex]; congr 1; omega, hstack.trans (congrArg tmp.block (by omega))⟩

/-- The coroutines of a pool stand on the blocks of its first memory, in this order. -/
structure Good (size : Int) (count : Nat) (pool : CoroutinePool) (main : Memory) (overflow : List Memory) :
    Prop where
  poolSize : pool.poolSize = count
  stackSize : pool.stackSize = size
  positive : 0 < count
  fits : count * size < 2 ^ 31
  memoryPool : pool.memoryPool = main :: overflow
  blocks : Memory.Blocks size count (main :: overflow)
  length : pool.freeCors.length = count
  cors : ∀ (k : Nat) cor used, pool.freeCors[k]? = some (cor, used) →
    cor.index = (k : Int) ∧ cor.stackSp = main.block k

theorem make_some (start : Int) {size : Int} {count : Nat} (hsize : 0 < size) (hcount : 0 < count)
    (hfit : count * size < 2 ^ 31) :
    ∃ pool main, make count size start = some pool ∧ Good size count pool main [] := by
  obtain ⟨tmp, htmp, -, hof, hfree⟩ := Memory.make_some start hsize hfit
  obtain ⟨cors, main, hcors, hof', -, hblock, hlength, hcor⟩ := newCors_some hof (i := 0) (n := count) hfree
  refine ⟨⟨count, size, cors, [main], count + 1⟩, main, ?_, ?_⟩
  · simp only [make, htmp, Int.toNat_natCast, hcors, Option.bind_eq_bind, Option.bind_some, Option.pure_def]
  · refine ⟨rfl, rfl, hcount, hfit, rfl, ⟨hsize, ?_, List.pairwise_singleton ..⟩, hlength, ?_⟩
    · intro m hm
      rwa [List.mem_singleton.mp hm]
    · intro k cor used hk
      obtain ⟨-, hindex, hstack⟩ := hcor k cor used hk
      rw [Nat.zero_add] at hindex hstack
      exact ⟨hindex, by rw [hstack, hblock]⟩

/-- The coroutines of a pool are numbered in their order. -/
theorem newCors_ids {n : Nat} :
    ∀ {i : Nat} {tmp tmp' : Memory} {cors : List (Coroutine × Bool)}, newCors i n tmp = some (cors, tmp') →
      cors.length = n ∧ ∀ (k : Nat) cor used, cors[k]? = some (cor, used) →
        used = false ∧ cor.corId = i + k + 1 ∧ cor.index = ((i + k : Nat) : Int) := by
  induction n with
  | zero =>
    intro i tmp tmp' cors h
    obtain ⟨rfl, rfl⟩ := Prod.mk.inj (Option.some.inj h)
    exact ⟨rfl, nofun⟩
  | succ n ih =>
    intro i tmp tmp' cors h
    simp only [newCors, Option.bind_eq_bind, Option.bind_eq_some_iff, Option.pure_def] at h
    obtain ⟨⟨block, tmp₁⟩, -, ⟨rest, tmp₂⟩, hrest, heq⟩ := h
    obtain ⟨rfl, rfl⟩ := Prod.mk.inj (Option.some.inj heq)
    obtain ⟨hlength, hcor⟩ := ih hrest
    refine ⟨congrArg (· + 1) hlength, fun k cor used hk => ?_⟩
    cases k with
    | zero =>
      obtain ⟨rfl, rfl⟩ := Prod.mk.inj (Option.some.inj hk)
      exact ⟨rfl, rfl, rfl⟩
    | succ k =>
      obtain ⟨hused, hid, hindex⟩ := hcor k cor used hk
      exact ⟨hused, by omega, by omega⟩

/-- A pool as it is made keeps `freeCors.length` coroutines, none of them in use. -/
theorem make_ids {poolSize stackSize start : Int} {pool : CoroutinePool}
    (h : make poolSize stackSize start = some pool) :
    pool.poolSize = poolSize ∧ pool.freeCors.length = poolSize.toNat ∧
      pool.curCoroutineId = poolSize.toNat + 1 ∧ ∀ (k : Nat) cor used, pool.freeCors[k]? = some (cor, used) →
        used = false ∧ cor.corId = k + 1 ∧ cor.index = (k : Int) := by
  simp only [make, Option.bind_eq_bind, Option.bind_eq_some_iff, Option.pure_def] at h
  obtain ⟨tmp, -, ⟨cors, tmp'⟩, hcors, heq⟩ := h
  obtain rfl := Option.some.inj heq
  obtain ⟨hlength, hcor⟩ := newCors_ids hcors
  refine ⟨rfl, hlength, rfl, fun k cor used hk => ?_⟩
  obtain ⟨hused, hid, hindex⟩ := hcor k cor used hk
  exact ⟨hused, by omega, by omega⟩

/-! ### What the operations do -/

section
variable {size : Int} {count : Nat} {pool : CoroutinePool} {main : Memory} {overflow : List Memory}

theorem takeFree_some {isInCoFunc : Nat → Bool} {cors cors' : List (Coroutine × Bool)} {cor : Coroutine}
    (h : takeFree isInCoFunc cors = some (cor, cors')) :
    ∃ k, cors[k]? = some (cor, false) ∧ isInCoFunc cor.corId = false ∧ cors' = cors.set k (cor, true) := by
  induction cors generalizing cors' with
  | nil => cases h
  | cons c rest ih =>
    obtain ⟨first, used⟩ := c
    rw [takeFree] at h
    split at h
    · rename_i hfree
      obtain ⟨rfl, rfl⟩ := Prod.mk.inj (Option.some.inj h)
      rw [Bool.and_eq_true, Bool.not_eq_true', Bool.not_eq_true'] at hfree
      obtain ⟨hout, rfl⟩ := hfree
      exact ⟨0, rfl, hout, rfl⟩
    · obtain ⟨⟨c, rest'⟩, hrest, heq⟩ := Option.map_eq_some_iff.mp h
      obtain ⟨rfl, rfl⟩ := Prod.mk.inj heq
      obtain ⟨k, hk, hout, hset⟩ := ih hrest
      exact ⟨k + 1, hk, hout, congrArg _ hset⟩

/-- A coroutine is one that the pool keeps, or a further one, with a number of its own. -/
theorem getCoroutineInstanse_cases {pool pool' : CoroutinePool} {isInCoFunc : Nat → Bool} {start : Int}
    {cor : Coroutine} (h : pool.getCoroutineInstanse isInCoFunc start = some (cor, pool')) :
    (∃ k : Nat, pool.freeCors[k]? = some (cor, false) ∧ isInCoFunc cor.corId = false ∧
      pool' = {pool with freeCors := pool.freeCors.set k (cor, true)}) ∨
    takeFree isInCoFunc pool.freeCors = none ∧ ∃ tmp overflow, (cor, pool') = pool.further tmp overflow := by
  unfold getCoroutineInstanse at h
  cases hfree : takeFree isInCoFunc pool.freeCors with
  | some r =>
    rw [hfree] at h
    obtain ⟨rfl, rfl⟩ := Prod.mk.inj (Option.some.inj h)
    obtain ⟨k, hk, hout, hset⟩ := takeFree_some hfree
    exact .inl ⟨k, hk, hout, by rw [hset]⟩
  | none =>
    rw [hfree] at h
    refine .inr ⟨rfl, ?_⟩
    cases htake : Memory.takeBlock pool.memoryPool.tail with
    | some r =>
      rw [htake] at h
      exact ⟨r.1, r.2, (Option.some.inj h).symm⟩
    | none =>
      rw [htake] at h
      simp only [Option.bind_eq_bind, Option.bind_eq_some_iff, Option.pure_def] at h
      obtain ⟨memory, -, ⟨tmp, memory'⟩, -, heq⟩ := h
      exact ⟨tmp, _, (Option.some.inj heq).symm⟩

/-- The flag of a coroutine that the pool keeps is cleared. -/
theorem returnCoroutine_kept {pool : CoroutinePool} {cor : Coroutine} {k : Nat} (hindex : cor.index = (k : Int))
    (hlt : (k : Int) < pool.poolSize) : pool.returnCoroutine cor =
      {pool with freeCors := pool.freeCors.modify k fun c => (c.1, false)} := by
  rw [returnCoroutine, if_pos ⟨by omega, by omega⟩, hindex, Int.toNat_natCast]

/-- A pool that keeps no coroutines has memories without blocks. -/
theorem pos_of_getCoroutineInstanse {poolSize stackSize start start' : Int} {pool : CoroutinePool}
    {isInCoFunc : Nat → Bool} {r : Coroutine × CoroutinePool} (hmake : make poolSize stackSize start = some pool)
    (hget : pool.getCoroutineInstanse isInCoFunc start' = some r) : 0 < poolSize.toNat := by
  simp only [make, Option.bind_eq_bind, Option.bind_eq_some_iff, Option.pure_def] at hmake
  obtain ⟨tmp, -, ⟨cors, tmp'⟩, hcors, heq⟩ := hmake
  obtain rfl := Option.some.inj heq
  by_contra hpos
  have hzero : poolSize.toNat = 0 := by omega
  rw [hzero] at hcors
  obtain ⟨rfl, rfl⟩ := Prod.mk.inj (Option.some.inj hcors)
  simp only [getCoroutineInstanse, takeFree, List.tail_cons, Memory.takeBlock, Memory.make, Option.bind_eq_bind,
    Option.bind_eq_some_iff, Option.pure_def] at hget
  obtain ⟨memory, ⟨size, -, hmemory⟩, ⟨block, memory'⟩, hblock, -⟩ := hget
  split at hmemory
  · cases hmemory
  obtain rfl := Option.some.inj hmemory
  rw [Memory.getBlock, hzero] at hblock
  cases hblock

/-- The first coroutine that a pool hands out is the first that it keeps. -/
theorem make_getCoroutineInstanse {poolSize stackSize start start' : Int} {pool pool' : CoroutinePool}
    {cor : Coroutine} (hmake : make poolSize stackSize start = some pool)
    (hget : pool.getCoroutineInstanse (fun _ => false) start' = some (cor, pool')) :
    pool.freeCors[0]? = some (cor, false) ∧ pool' = {pool with freeCors := pool.freeCors.set 0 (cor, true)} := by
  have hpos := pos_of_getCoroutineInstanse hmake hget
  obtain ⟨-, hlength, -, hcors⟩ := make_ids hmake
  obtain ⟨⟨first, used⟩, rest, hfree⟩ := List.exists_cons_of_length_pos (hlength ▸ hpos)
  obtain ⟨rfl, -⟩ := hcors 0 first used (by rw [hfree]; rfl)
  have htake : takeFree (fun _ => false) pool.freeCors = some (first, (first, true) :: rest) := by
    rw [hfree]
    rfl
  rw [getCoroutineInstanse, htake] at hget
  obtain ⟨rfl, rfl⟩ := Prod.mk.inj (Option.some.inj hget)
  rw [hfree]
  exact ⟨rfl, rfl⟩

/-- A further coroutine concerns none of those that the pool keeps. -/
theorem returnCoroutine_further (pool : CoroutinePool) (cor : Coroutine) (hindex : cor.index < 0) :
    (pool.returnCoroutine cor).curCoroutineId = pool.curCoroutineId ∧
      (pool.returnCoroutine cor).poolSize = pool.poolSize ∧
      (pool.returnCoroutine cor).freeCors = pool.freeCors := by
  rw [returnCoroutine, if_neg (by omega)]
  exact ⟨rfl, rfl, rfl⟩

/-- A block of the first memory is none of the others. -/
theorem Good.main_ne_overflow (h : Good size count pool main overflow) {k : Nat} (hk : k < count) :
    main.block k ∉ Memory.blocksOf overflow := by
  rintro ⟨m, hm, t, ht, heq⟩
  have hmain : main ∈ main :: overflow := List.mem_cons_self ..
  have hmem : m ∈ main :: overflow := List.mem_cons_of_mem _ hm
  have hof := h.blocks.shape main hmain
  obtain ⟨rfl, -⟩ := h.blocks.block_unique hmain hmem (hof.length.symm ▸ hk) ht heq
  -- a memory does not lie apart from itself
  have hapart := (List.pairwise_cons.mp h.blocks.apart).1 main hm
  exact Set.disjoint_left.mp hapart (hof.mem_range h.blocks.positive hk) (hof.mem_range h.blocks.positive hk)

/-- A further coroutine stands on a block of `l`, the other memories. -/
theorem Good.further (h : Good size count pool main overflow) {l l' : List Memory} {tmp : Int}
    (hl : Memory.Blocks size count (main :: l)) (htake : Memory.takeBlock l = some (tmp, l')) :
    Good size count (pool.further tmp l').2 main l' where
  poolSize := h.poolSize
  stackSize := h.stackSize
  positive := h.positive
  fits := h.fits
  memoryPool := by
    rw [CoroutinePool.further, h.memoryPool]
    rfl
  blocks := hl.takeBlock_tail htake
  length := h.length
  cors := h.cors

/-- A coroutine is obtained from the pool, or made on a block of the other memories `l`, one more of
which may have been allocated. -/
theorem Good.getCoroutineInstanse (h : Good size count pool main overflow) (isInCoFunc : Nat → Bool)
    {start : Int} (hstart : ∀ m ∈ pool.memoryPool, Disjoint m.range (Set.Ico start (start + count * size))) :
    (∃ k cor, pool.freeCors[k]? = some (cor, false) ∧ isInCoFunc cor.corId = false ∧
      pool.getCoroutineInstanse isInCoFunc start =
        some (cor, {pool with freeCors := pool.freeCors.set k (cor, true)})) ∨
    ∃ l l' tmp, takeFree isInCoFunc pool.freeCors = none ∧ Memory.Blocks size count (main :: l) ∧
      Memory.taken l = Memory.taken overflow ∧ Memory.takeBlock l = some (tmp, l') ∧
      pool.getCoroutineInstanse isInCoFunc start = some (pool.further tmp l') := by
  unfold CoroutinePool.getCoroutineInstanse
  cases hfree : takeFree isInCoFunc pool.freeCors with
  | some r =>
    obtain ⟨cor, cors⟩ := r
    obtain ⟨k, hk, hout, rfl⟩ := takeFree_some hfree
    exact .inl ⟨k, cor, hk, hout, rfl⟩
  | none =>
    right
    have htail : pool.memoryPool.tail = overflow := by rw [h.memoryPool, List.tail_cons]
    rw [htail]
    cases htake : Memory.takeBlock overflow with
    | some r => exact ⟨overflow, r.2, r.1, rfl, h.blocks, rfl, htake, rfl⟩
    | none =>
      obtain ⟨m, hm, rfl, hof, hblocks⟩ := Memory.make_some start h.blocks.positive h.fits
      have hrange : m.range = Set.Ico m.start (m.start + count * size) := by rw [Memory.range, hof.size]
      have hapart : ∀ other ∈ main :: overflow, Memory.Apart other m := by
        intro other hother
        rw [Memory.Apart, hrange]
        exact hstart other (h.memoryPool ▸ hother)
      obtain ⟨⟨tmp, m'⟩, hget⟩ := Option.isSome_iff_exists.mp (Memory.getBlock_isSome hblocks h.positive)
      have hconcat : Memory.takeBlock (overflow ++ [m]) = some (tmp, overflow ++ [m']) := by
        rw [Memory.takeBlock_concat htake, hget, Option.map_some]
      refine ⟨overflow ++ [m], overflow ++ [m'], tmp, rfl, h.blocks.concat hof hapart, ?_, hconcat, ?_⟩
      · ext s
        simp only [Memory.taken, Set.mem_ofPred_eq, List.mem_append, List.mem_singleton, or_and_right, exists_or,
          exists_eq_left, hblocks]
        simp [List.getElem?_replicate]
      · simp only [h.stackSize, h.poolSize, hm, hget, Option.bind_eq_bind, Option.bind_some, Option.pure_def]

end

/-! ### Who holds which block -/

/-- Whoever is held is marked, and no two stand on one block. -/
structure Exclusive (size : Int) (count : Nat) (main : Memory) (overflow : List Memory) (s : State) : Prop
    extends Good size count s.pool main overflow where
  held : ∀ cor ∈ s.held, (∃ k : Nat, s.pool.freeCors[k]? = some (cor, true)) ∨
    cor.index = -1 ∧ cor.stackSp ∈ Memory.taken overflow
  distinct : (s.held.map Coroutine.stackSp).Nodup

section
variable {size : Int} {count : Nat} {main : Memory} {overflow : List Memory} {s t : State}

/-- A coroutine of the pool that is held. -/
theorem Exclusive.of_pool (h : Exclusive size count main overflow s) {k : Nat} {cor : Coroutine} {used : Bool}
    (hk : s.pool.freeCors[k]? = some (cor, used)) :
    k < count ∧ cor.index = (k : Int) ∧ cor.stackSp = main.block k ∧
      cor.stackSp ∉ Memory.blocksOf overflow := by
  obtain ⟨hlt, -⟩ := List.getElem?_eq_some_iff.mp hk
  rw [h.length] at hlt
  obtain ⟨hindex, hstack⟩ := h.cors k cor used hk
  exact ⟨hlt, hindex, hstack, hstack ▸ h.main_ne_overflow hlt⟩

theorem Exclusive.own_stacks (h : Exclusive size count main overflow s) : OwnStacks s := by
  have hblock : ∀ cor ∈ s.held, cor.stackSp ∈ Memory.blocksOf (main :: overflow) := by
    intro cor hcor
    rcases h.held cor hcor with ⟨k, hk⟩ | ⟨-, htaken⟩
    · obtain ⟨hlt, -, hstack, -⟩ := h.of_pool hk
      have hof := h.blocks.shape main (List.mem_cons_self ..)
      exact ⟨main, List.mem_cons_self .., k, hof.length.symm ▸ hlt, hstack⟩
    · obtain ⟨m, hm, t, ht, heq⟩ := Memory.taken_subset _ htaken
      exact ⟨m, List.mem_cons_of_mem _ hm, t, ht, heq⟩
  refine (List.pairwise_map.mp h.distinct).imp_of_mem fun {cor other} hcor hother hne => ?_
  rw [h.stackSize]
  exact h.blocks.stacks_disjoint (hblock cor hcor) (hblock other hother) hne

/-- The one that is obtained stands on a block of its own. -/
theorem nodup_concat {held : List Coroutine} {cor : Coroutine} (h : (held.map Coroutine.stackSp).Nodup)
    (hne : ∀ other ∈ held, other.stackSp ≠ cor.stackSp) :
    ((held ++ [cor]).map Coroutine.stackSp).Nodup := by
  rw [List.map_append, List.nodup_append']
  refine ⟨h, List.nodup_singleton _, fun x hx hlast => ?_⟩
  obtain ⟨other, hother, rfl⟩ := List.mem_map.mp hx
  exact hne other hother (List.mem_singleton.mp hlast)

theorem Exclusive.get (h : Exclusive size count main overflow s) {start : Int}
    (hstart : Allocates s (.getCoroutineInstanse start)) (hs : step s (.getCoroutineInstanse start) = some t) :
    ∃ overflow', Exclusive size count main overflow' t := by
  obtain ⟨⟨cor, pool⟩, hget, heq⟩ := Option.bind_eq_some_iff.mp hs
  obtain rfl := Option.some.inj heq
  have hallocates := hstart start rfl
  rw [h.poolSize, h.stackSize] at hallocates
  rcases h.getCoroutineInstanse s.isInCoFunc hallocates with ⟨k, c, hk, -, hsome⟩ |
    ⟨l, l', tmp, -, hl, htaken, htake, hsome⟩
  · rw [hget] at hsome
    obtain ⟨rfl, rfl⟩ := Prod.mk.inj (Option.some.inj hsome)
    obtain ⟨hlt, -, hstack, hnot⟩ := h.of_pool hk
    have hkeep : ∀ (j : Nat) other, s.pool.freeCors[j]? = some (other, true) →
        (s.pool.freeCors.set k (cor, true))[j]? = some (other, true) := by
      intro j other hj
      have hne : k ≠ j := by
        rintro rfl
        rw [hk] at hj
        cases hj
      rw [List.getElem?_set_ne hne, hj]
    refine ⟨overflow, ⟨⟨h.poolSize, h.stackSize, h.positive, h.fits, h.memoryPool, h.blocks,
      (List.length_set ..).trans h.length, ?_⟩, ?_, ?_⟩⟩
    · intro j other used hj
      rw [List.getElem?_set] at hj
      split at hj
      · rename_i hkj
        split at hj
        · obtain ⟨rfl, rfl⟩ := Prod.mk.inj (Option.some.inj hj)
          exact hkj ▸ h.cors k cor false hk
        · cases hj
      · exact h.cors j other used hj
    · intro other hother
      rcases List.mem_append.mp hother with hheld | hlast
      · rcases h.held other hheld with ⟨j, hj⟩ | hover
        · exact .inl ⟨j, hkeep j other hj⟩
        · exact .inr hover
      · rw [List.mem_singleton.mp hlast]
        exact .inl ⟨k, List.getElem?_set_self (h.length.symm ▸ hlt)⟩
    · refine nodup_concat h.distinct fun other hother heq => ?_
      rcases h.held other hother with ⟨j, hj⟩ | ⟨-, hover⟩
      · obtain ⟨-, -, hstack', -⟩ := h.of_pool hj
        have hof := h.blocks.shape main (List.mem_cons_self ..)
        have hjk : j = k := hof.block_inj h.blocks.positive (by rw [← hstack', heq, hstack])
        rw [hjk, hk] at hj
        cases hj
      · exact hnot (heq ▸ Memory.taken_subset _ hover)
  · rw [hget] at hsome
    obtain ⟨rfl, rfl⟩ := Prod.mk.inj (Option.some.inj hsome)
    obtain ⟨-, hblocks, hmem, hfree, hinsert⟩ := hl.tail.takeBlock htake
    rw [htaken] at hfree hinsert
    refine ⟨l', ⟨h.further hl htake, ?_, ?_⟩⟩
    · intro other hother
      rw [hinsert]
      rcases List.mem_append.mp hother with hheld | hlast
      · rcases h.held other hheld with hmain | ⟨hindex, hover⟩
        · exact .inl hmain
        · exact .inr ⟨hindex, Set.mem_insert_of_mem _ hover⟩
      · rw [List.mem_singleton.mp hlast]
        exact .inr ⟨rfl, Set.mem_insert ..⟩
    · refine nodup_concat h.distinct fun other hother heq => ?_
      rcases h.held other hother with ⟨j, hj⟩ | ⟨-, hover⟩
      · -- the first memory lies apart from the others
        obtain ⟨hlt, -, hstack, -⟩ := h.of_pool hj
        have hwhole := (h.further hl htake).main_ne_overflow hlt
        rw [← hstack, heq, hblocks] at hwhole
        exact hwhole hmem
      · have htmp : tmp = other.stackSp := heq.symm
        exact hfree (htmp ▸ hover)

theorem Exclusive.return (h : Exclusive size count main overflow s) {cor : Coroutine}
    (hs : step s (.returnCoroutine cor) = some t) : ∃ overflow', Exclusive size count main overflow' t := by
  rw [step] at hs
  split at hs
  swap
  · cases hs
  rename_i hcor
  obtain rfl := Option.some.inj hs
  have hrest : ∀ other ∈ s.held.erase cor, other ∈ s.held ∧ other.stackSp ≠ cor.stackSp := by
    intro other hother
    have hmem := List.mem_of_mem_erase hother
    refine ⟨hmem, fun heq => ?_⟩
    obtain rfl := List.inj_on_of_nodup_map h.distinct hmem hcor heq
    exact h.distinct.of_map.not_mem_erase hother
  have hdistinct : ((s.held.erase cor).map Coroutine.stackSp).Nodup :=
    h.distinct.sublist (List.erase_sublist.map _)
  rcases h.held cor hcor with ⟨k, hk⟩ | ⟨hindex, hover⟩
  · obtain ⟨hlt, hindex, hstack, -⟩ := h.of_pool hk
    rw [returnCoroutine_kept hindex (by rw [h.poolSize]; omega)]
    refine ⟨overflow, ⟨⟨h.poolSize, h.stackSize, h.positive, h.fits, h.memoryPool, h.blocks,
      (List.length_modify ..).trans h.length, ?_⟩, ?_, hdistinct⟩⟩
    · intro j other used hj
      rw [List.getElem?_modify] at hj
      obtain ⟨⟨old, flag⟩, hold, heq⟩ := Option.map_eq_some_iff.mp hj
      have hsame : old = other := by
        split at heq
        · exact (Prod.mk.inj heq).1
        · exact (Prod.mk.inj heq).1
      exact hsame ▸ h.cors j old flag hold
    · intro other hother
      obtain ⟨hheld, hne⟩ := hrest other hother
      rcases h.held other hheld with ⟨j, hj⟩ | hover
      · have hjk : k ≠ j := by
          rintro rfl
          rw [hk] at hj
          obtain rfl := (Prod.mk.inj (Option.some.inj hj)).1
          exact hne rfl
        exact .inl ⟨j, (List.getElem?_modify_ne _ _ hjk).trans hj⟩
      · exact .inr hover
  · rw [returnCoroutine, if_neg (by omega)]
    have hblock := Memory.taken_subset _ hover
    have htail : s.pool.memoryPool.tail = overflow := by rw [h.memoryPool, List.tail_cons]
    have hhead : s.pool.memoryPool.take 1 = [main] := by rw [h.memoryPool]; rfl
    obtain ⟨-, -, htaken⟩ := h.blocks.tail.giveBack hblock
    refine ⟨Memory.giveBack cor.stackSp overflow, ⟨⟨h.poolSize, h.stackSize, h.positive, h.fits, ?_,
      h.blocks.giveBack_tail hblock, h.length, h.cors⟩, ?_, hdistinct⟩⟩
    · rw [htail, hhead]
      rfl
    · intro other hother
      obtain ⟨hheld, hne⟩ := hrest other hother
      rcases h.held other hheld with hmain | ⟨hindex', hover'⟩
      · exact .inl hmain
      · rw [htaken]
        exact .inr ⟨hindex', hover', hne⟩

theorem Exclusive.get_isSome (h : Exclusive size count main overflow s) {start : Int}
    (hstart : Allocates s (.getCoroutineInstanse start)) : (step s (.getCoroutineInstanse start)).isSome := by
  have hallocates := hstart start rfl
  rw [h.poolSize, h.stackSize] at hallocates
  rcases h.getCoroutineInstanse s.isInCoFunc hallocates with ⟨k, cor, -, -, hsome⟩ | ⟨l, l', tmp, -, -, -, -, hsome⟩
  · rw [step, hsome]
    rfl
  · rw [step, hsome]
    rfl

theorem exclusive_step {i : Input} (h : Exclusive size count main overflow s) (hi : Allocates s i)
    (hs : step s i = some t) : ∃ overflow', Exclusive size count main overflow' t := by
  cases i with
  | getCoroutineInstanse start => exact h.get hi hs
  | returnCoroutine cor => exact h.return hs
  | setIsInCoFunc corId v =>
    obtain rfl := Option.some.inj hs
    exact ⟨overflow, ⟨h.toGood, h.held, h.distinct⟩⟩

end

/-- **Those who hold coroutines have stacks of their own**, and there always is a coroutine to obtain. -/
theorem own_stacks_of_allocates (poolSize stackSize start : Int) (is : List Input) (hpool : 0 < poolSize)
    (hstack : 0 < stackSize) (hfit : poolSize * stackSize < 2 ^ 31) :
    ∃ pool, make poolSize stackSize start = some pool ∧
      (Meets step Allocates {pool} is →
        Always step (fun s => OwnStacks s ∧ ∀ start, Allocates s (.getCoroutineInstanse start) →
          (step s (.getCoroutineInstanse start)).isSome) {pool} is) := by
  obtain ⟨count, rfl⟩ := Int.eq_ofNat_of_zero_le (Int.le_of_lt hpool)
  obtain ⟨pool, main, hmake, hgood⟩ := make_some start hstack (by omega) hfit
  refine ⟨pool, hmake, fun hmeets => ?_⟩
  have hinit : Exclusive stackSize count main [] {pool} := ⟨hgood, nofun, List.nodup_nil⟩
  have halways := always_of_step (P := fun s => ∃ overflow, Exclusive stackSize count main overflow s)
    (fun _ _ _ ⟨_, h⟩ hi hs => exclusive_step h hi hs) ⟨[], hinit⟩ hmeets
  exact halways.imp fun _ ⟨_, h⟩ => ⟨h.own_stacks, fun _ => h.get_isSome⟩

/-- Two coroutines from the pool, a further one, and two that come back. -/
theorem own_stacks_of_allocates_three : ∃ pool, make 2 16 1000 = some pool ∧
    Always step (fun s => OwnStacks s ∧ ∀ start, Allocates s (.getCoroutineInstanse start) →
      (step s (.getCoroutineInstanse start)).isSome) {pool}
      [.getCoroutineInstanse 2000, .setIsInCoFunc 1 true, .getCoroutineInstanse 2000,
        .getCoroutineInstanse 3000, .returnCoroutine ⟨1, 0, 1000⟩, .returnCoroutine ⟨3, -1, 3000⟩,
        .getCoroutineInstanse 4000] := by
  obtain ⟨pool, hmake, halways⟩ := own_stacks_of_allocates 2 16 1000 [.getCoroutineInstanse 2000, .setIsInCoFunc 1 true,
    .getCoroutineInstanse 2000, .getCoroutineInstanse 3000, .returnCoroutine ⟨1, 0, 1000⟩,
    .returnCoroutine ⟨3, -1, 3000⟩, .getCoroutineInstanse 4000] (by decide) (by decide) (by decide)
  obtain rfl : pool = ⟨2, 16, [(⟨1, 0, 1000⟩, false), (⟨2, 1, 1016⟩, false)],
      [⟨16, 2, 32, 1000, [true, true]⟩], 3⟩ := Option.some.inj hmake.symm
  exact ⟨_, hmake, halways (by decide)⟩

end CoroutinePool

end Coroutine

end CoroutineRpc
