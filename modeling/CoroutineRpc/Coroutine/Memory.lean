import CoroutineRpc.Memory
import Mathlib.Data.Int.ConditionallyCompleteOrder
import Mathlib.Data.List.Pairwise
import Mathlib.Order.CompletePartialOrder
import Mathlib.Order.ConditionallyCompleteLattice.Basic
import Mathlib.Order.Interval.Set.Disjoint

/-! `Memory`: blocks of one size, for the stacks of coroutines.

A `Memory` is what one call of `malloc` returned, cut into blocks, with a bit for each block
that is handed out. Memories that lie apart are seen from outside as one set of addresses:
`getBlock` adds a block that is not in it (`takeBlock_some`), `backBlock` takes one out
(`mem_taken_giveBack`), and different blocks are disjoint (`blocks_disjoint`). -/
namespace CoroutineRpc.Coroutine

structure Memory where
  blockSize : Int
  blockCount : Int
  size : Int
  /-- The address that `malloc` returned. -/
  start : Int
  /-- The blocks that are handed out. -/
  blocks : List Bool
deriving DecidableEq

namespace Memory

/-- `Memory(block_size, block_count)`; a vector has no negative size. -/
def make (blockSize blockCount start : Int) : Option Memory := do
  let size ← int (blockCount * blockSize)
  if blockCount < 0 then none
  else pure ⟨blockSize, blockCount, size, start, List.replicate blockCount.toNat false⟩

/-- `m_end`, the last byte. -/
def last (m : Memory) : Int := m.start + m.size - 1

/-- The first block that is not handed out, if there is one. -/
def getBlock (m : Memory) : Option (Int × Memory) :=
  (m.blocks.findIdx? fun block => block = false).map fun t =>
    (m.start + (t : Nat) * m.blockSize, {m with blocks := m.blocks.set t true})

def hasBlock (m : Memory) (s : Int) : Bool := m.start ≤ s ∧ s ≤ m.last

def backBlock (m : Memory) (s : Int) : Memory :=
  if s > m.last ∨ s < m.start then m
  else {m with blocks := m.blocks.set ((s - m.start) / m.blockSize).toNat false}

/-- The `t`-th block. -/
def block (m : Memory) (t : Nat) : Int := m.start + t * m.blockSize

/-- A memory of `count` blocks of `size` bytes. -/
structure Of (size : Int) (count : Nat) (m : Memory) : Prop where
  blockSize : m.blockSize = size
  size : m.size = count * size
  length : m.blocks.length = count

theorem make_some (start : Int) {blockSize : Int} {blockCount : Nat} (hsize : 0 < blockSize)
    (hfit : blockCount * blockSize < 2 ^ 31) :
    ∃ m, make blockSize blockCount start = some m ∧ m.start = start ∧ Of blockSize blockCount m ∧
      m.blocks = List.replicate blockCount false := by
  have hpos : 0 ≤ (blockCount : Int) * blockSize := Int.mul_nonneg (Int.natCast_nonneg _) (Int.le_of_lt hsize)
  refine ⟨⟨blockSize, blockCount, blockCount * blockSize, start, List.replicate blockCount false⟩, ?_, rfl,
    ⟨rfl, rfl, List.length_replicate⟩, rfl⟩
  rw [make, int_some ⟨by omega, hfit⟩, Option.bind_eq_bind, Option.bind_some, if_neg (by omega),
    Int.toNat_natCast]
  rfl

section
variable {size : Int} {count : Nat} {m : Memory}

/-- The addresses of a memory. -/
def range (m : Memory) : Set Int := Set.Ico m.start (m.start + m.size)

/-- The addresses of a block. -/
def stack (size s : Int) : Set Int := Set.Ico s (s + size)

theorem hasBlock_iff {s : Int} : m.hasBlock s ↔ s ∈ m.range := by
  rw [hasBlock, decide_eq_true_iff, range, Set.mem_Ico, last]
  omega

theorem Of.block_eq (h : Of size count m) (t : Nat) : m.block t = m.start + t * size := by
  rw [block, h.blockSize]

/-- A block ends before the ones behind it. -/
theorem Of.block_le (h : Of size count m) (hsize : 0 < size) {t u : Nat} (hlt : t < u) :
    m.block t + size ≤ m.block u := by
  have hle : ((t : Int) + 1) * size ≤ u * size :=
    Int.mul_le_mul_of_nonneg_right (by omega) (Int.le_of_lt hsize)
  rw [Int.add_mul, Int.one_mul] at hle
  rw [h.block_eq, h.block_eq]
  omega

theorem Of.block_inj (h : Of size count m) (hsize : 0 < size) {t u : Nat} (heq : m.block t = m.block u) :
    t = u := by
  rcases Nat.lt_trichotomy t u with hlt | rfl | hgt
  · have := h.block_le hsize hlt
    omega
  · rfl
  · have := h.block_le hsize hgt
    omega

theorem Of.stack_subset (h : Of size count m) (hsize : 0 < size) {t : Nat} (ht : t < count) :
    stack size (m.block t) ⊆ m.range := by
  have hfirst : m.start ≤ m.block t := by
    have : 0 ≤ (t : Int) * size := Int.mul_nonneg (Int.natCast_nonneg _) (Int.le_of_lt hsize)
    rw [h.block_eq]
    omega
  have hend : m.block t + size ≤ m.start + m.size := by
    rw [h.size, ← h.block_eq]
    exact h.block_le hsize ht
  exact Set.Ico_subset_Ico hfirst hend

theorem Of.mem_range (h : Of size count m) (hsize : 0 < size) {t : Nat} (ht : t < count) :
    m.block t ∈ m.range :=
  h.stack_subset hsize ht (Set.left_mem_Ico.mpr (by omega))

/-- `backBlock` finds the bit of a block. -/
theorem Of.backBlock_block (h : Of size count m) (hsize : 0 < size) {t : Nat} (ht : t < count) :
    m.backBlock (m.block t) = {m with blocks := m.blocks.set t false} := by
  have hinside := h.mem_range hsize ht
  rw [range, Set.mem_Ico] at hinside
  have hindex : (m.block t - m.start) / m.blockSize = t := by
    rw [h.block_eq, h.blockSize, add_sub_cancel_left]
    exact Int.mul_ediv_cancel _ (Int.ne_of_gt hsize)
  rw [backBlock, if_neg (by rw [last]; omega), hindex, Int.toNat_natCast]

end

/-! ### Several memories -/

/-- The first block of the first memory that has one. -/
def takeBlock : List Memory → Option (Int × List Memory)
  | [] => none
  | m :: rest =>
    match m.getBlock with
    | some (s, m) => some (s, m :: rest)
    | none => (takeBlock rest).map fun r => (r.1, m :: r.2)

/-- Each memory that has the address takes its block back. -/
def giveBack (s : Int) (l : List Memory) : List Memory :=
  l.map fun m => if m.hasBlock s then m.backBlock s else m

def Apart (m other : Memory) : Prop := Disjoint m.range other.range

instance : Std.Symm Apart := ⟨fun _ _ h => Disjoint.symm h⟩

/-- Memories of one shape that lie apart. -/
structure Blocks (size : Int) (count : Nat) (l : List Memory) : Prop where
  positive : 0 < size
  shape : ∀ m ∈ l, Of size count m
  apart : l.Pairwise Apart

/-- The blocks of some memories. -/
def blocksOf (l : List Memory) : Set Int := {s | ∃ m ∈ l, ∃ t < m.blocks.length, s = m.block t}

/-- The blocks that are handed out. -/
def taken (l : List Memory) : Set Int := {s | ∃ m ∈ l, ∃ t, m.blocks[t]? = some true ∧ s = m.block t}

section
variable {size s : Int} {count : Nat} {l : List Memory} {m : Memory}

theorem taken_subset (l : List Memory) : taken l ⊆ blocksOf l := by
  rintro s ⟨m, hm, t, ht, rfl⟩
  obtain ⟨hlt, -⟩ := List.getElem?_eq_some_iff.mp ht
  exact ⟨m, hm, t, hlt, rfl⟩

/-- An address belongs to one memory. -/
theorem Blocks.unique (h : Blocks size count l) {other : Memory} (hm : m ∈ l) (hother : other ∈ l)
    (hs : s ∈ m.range) (hs' : s ∈ other.range) : m = other := by
  by_contra hne
  have hapart : Apart m other := h.apart.forall hm hother hne
  exact Set.disjoint_left.mp hapart hs hs'

/-- An address is one block of one memory. -/
theorem Blocks.block_unique (h : Blocks size count l) {other : Memory} {t u : Nat} (hm : m ∈ l)
    (hother : other ∈ l) (ht : t < m.blocks.length) (hu : u < other.blocks.length)
    (heq : m.block t = other.block u) : m = other ∧ t = u := by
  have hshape := h.shape m hm
  have hshape' := h.shape other hother
  have hsame : m = other := h.unique hm hother (hshape.mem_range h.positive (hshape.length ▸ ht))
    (heq ▸ hshape'.mem_range h.positive (hshape'.length ▸ hu))
  subst hsame
  exact ⟨rfl, hshape.block_inj h.positive heq⟩

/-- **Different blocks are disjoint.** -/
theorem Blocks.stacks_disjoint (h : Blocks size count l) {other : Int} (hs : s ∈ blocksOf l)
    (hother : other ∈ blocksOf l) (hne : s ≠ other) : Disjoint (stack size s) (stack size other) := by
  obtain ⟨m, hm, t, ht, rfl⟩ := hs
  obtain ⟨m', hm', u, hu, rfl⟩ := hother
  have hshape := h.shape m hm
  have hshape' := h.shape m' hm'
  by_cases hsame : m = m'
  · subst hsame
    have hdiff : t ≠ u := fun heq => hne (heq ▸ rfl)
    rw [stack, stack, Set.Ico_disjoint_Ico]
    rcases Nat.lt_or_gt_of_ne hdiff with hlt | hgt
    · have := hshape.block_le h.positive hlt
      omega
    · have := hshape.block_le h.positive hgt
      omega
  · have hapart : Apart m m' := h.apart.forall hm hm' hsame
    exact Disjoint.mono (hshape.stack_subset h.positive (hshape.length ▸ ht))
      (hshape'.stack_subset h.positive (hshape'.length ▸ hu)) hapart

/-! ### Blocks are taken and given back -/

theorem getBlock_some {m' : Memory} (h : m.getBlock = some (s, m')) :
    ∃ t, m.blocks[t]? = some false ∧ s = m.block t ∧ m' = {m with blocks := m.blocks.set t true} := by
  obtain ⟨t, ht, heq⟩ := Option.map_eq_some_iff.mp h
  obtain ⟨rfl, rfl⟩ := Prod.mk.inj heq
  obtain ⟨hlt, hfree, -⟩ := List.findIdx?_eq_some_iff_getElem.mp ht
  exact ⟨t, by rw [List.getElem?_eq_getElem hlt, of_decide_eq_true hfree], rfl, rfl⟩

/-- A new memory has a block. -/
theorem getBlock_isSome (hnone : m.blocks = List.replicate count false) (hcount : 0 < count) :
    m.getBlock.isSome := by
  rw [getBlock, Option.isSome_map, hnone, List.findIdx?_isSome, List.any_eq_true]
  exact ⟨false, List.mem_replicate.mpr ⟨Nat.ne_of_gt hcount, rfl⟩, rfl⟩

theorem takeBlock_some {l' : List Memory} (h : takeBlock l = some (s, l')) :
    ∃ a m b t, l = a ++ m :: b ∧ m.blocks[t]? = some false ∧ s = m.block t ∧
      l' = a ++ {m with blocks := m.blocks.set t true} :: b := by
  induction l generalizing l' with
  | nil => cases h
  | cons m rest ih =>
    rw [takeBlock] at h
    split at h
    · rename_i s' m' hget
      obtain ⟨rfl, rfl⟩ := Prod.mk.inj (Option.some.inj h)
      obtain ⟨t, hfree, rfl, rfl⟩ := getBlock_some hget
      exact ⟨[], m, rest, t, rfl, hfree, rfl, rfl⟩
    · obtain ⟨⟨s', rest'⟩, htake, heq⟩ := Option.map_eq_some_iff.mp h
      obtain ⟨rfl, rfl⟩ := Prod.mk.inj heq
      obtain ⟨a, m', b, t, rfl, hfree, rfl, rfl⟩ := ih htake
      exact ⟨m :: a, m', b, t, rfl, hfree, rfl, rfl⟩

theorem Of.set (h : Of size count m) (t : Nat) (v : Bool) :
    Of size count {m with blocks := m.blocks.set t v} :=
  ⟨h.blockSize, h.size, (List.length_set ..).trans h.length⟩

/-- Only bits change. -/
theorem Blocks.replace {a b : List Memory} (h : Blocks size count (a ++ m :: b)) (t : Nat) (v : Bool) :
    Blocks size count (a ++ {m with blocks := m.blocks.set t v} :: b) where
  positive := h.positive
  shape other hother := by
    rcases List.mem_append.mp hother with ha | hb
    · exact h.shape other (List.mem_append_left _ ha)
    · rcases List.mem_cons.mp hb with rfl | hb
      · exact (h.shape m (by simp)).set t v
      · exact h.shape other (by simp [hb])
  apart := by
    have hapart := h.apart
    rw [List.pairwise_append, List.pairwise_cons] at hapart ⊢
    obtain ⟨ha, ⟨hm, hb⟩, hab⟩ := hapart
    refine ⟨ha, ⟨fun other hother => hm other hother, hb⟩, fun x hx y hy => ?_⟩
    rcases List.mem_cons.mp hy with rfl | hy
    · exact hab x hx m (List.mem_cons_self ..)
    · exact hab x hx y (List.mem_cons_of_mem _ hy)

/-- One memory and the others. -/
theorem exists_mem_append_cons {a b : List Memory} {P : Memory → Prop} :
    (∃ x ∈ a ++ m :: b, P x) ↔ (∃ x ∈ a ++ b, P x) ∨ P m := by
  simp only [List.mem_append, List.mem_cons, or_left_comm, exists_eq_or_imp, or_comm]

/-- **A block that is taken was free.** -/
theorem Blocks.takeBlock (h : Blocks size count l) {l' : List Memory}
    (htake : Memory.takeBlock l = some (s, l')) :
    Blocks size count l' ∧ blocksOf l' = blocksOf l ∧ s ∈ blocksOf l ∧ s ∉ taken l ∧
      taken l' = insert s (taken l) := by
  obtain ⟨a, m, b, t, rfl, hfree, rfl, rfl⟩ := takeBlock_some htake
  obtain ⟨hlt, hbit⟩ := List.getElem?_eq_some_iff.mp hfree
  have hmem : m ∈ a ++ m :: b := by simp
  refine ⟨h.replace t true, ?_, ⟨m, hmem, t, hlt, rfl⟩, ?_, ?_⟩
  · ext x
    have hlength : (m.blocks.set t true).length = m.blocks.length := List.length_set ..
    simp only [blocksOf, Set.mem_ofPred_eq, exists_mem_append_cons, hlength]
    rfl
  · rintro ⟨other, hother, u, hu, heq⟩
    obtain ⟨hult, -⟩ := List.getElem?_eq_some_iff.mp hu
    obtain ⟨rfl, rfl⟩ := h.block_unique hmem hother hlt hult heq
    rw [hfree] at hu
    cases hu
  · ext x
    rw [Set.mem_insert_iff]
    simp only [taken, Set.mem_ofPred_eq, exists_mem_append_cons]
    rw [or_left_comm]
    refine or_congr_right ?_
    constructor
    · rintro ⟨u, hu, rfl⟩
      rw [List.getElem?_set] at hu
      split at hu
      · rename_i htu
        subst htu
        exact .inl rfl
      · exact .inr ⟨u, hu, rfl⟩
    · rintro (rfl | ⟨u, hu, rfl⟩)
      · exact ⟨t, by rw [List.getElem?_set_self hlt], rfl⟩
      · refine ⟨u, ?_, rfl⟩
        rw [List.getElem?_set]
        split
        · rfl
        · exact hu

/-- `other` without its bit `t` if it is `m`. -/
def clear (m : Memory) (t : Nat) (other : Memory) : Memory :=
  {other with blocks := if other = m then other.blocks.set t false else other.blocks}

theorem clear_length (m : Memory) (t : Nat) (other : Memory) :
    (clear m t other).blocks.length = other.blocks.length := by
  unfold clear
  dsimp only
  split
  · exact List.length_set ..
  · rfl

theorem clear_bit {t u : Nat} {other : Memory} :
    (clear m t other).blocks[u]? = some true ↔ other.blocks[u]? = some true ∧ ¬ (other = m ∧ u = t) := by
  unfold clear
  dsimp only
  by_cases hsame : other = m
  · rw [if_pos hsame, List.getElem?_set]
    by_cases hu : t = u
    · subst hu
      simp [hsame]
    · simp [hu, Ne.symm hu]
  · simp [hsame]

/-- Only the memory of the block changes. -/
theorem Blocks.giveBack_eq (h : Blocks size count l) (hm : m ∈ l) {t : Nat} (ht : t < m.blocks.length) :
    Memory.giveBack (m.block t) l = l.map (clear m t) := by
  refine List.map_congr_left fun other hother => ?_
  have hshape := h.shape m hm
  have hlt : t < count := hshape.length ▸ ht
  unfold clear
  by_cases hsame : other = m
  · subst hsame
    rw [if_pos (hasBlock_iff.mpr (hshape.mem_range h.positive hlt)), if_pos rfl,
      hshape.backBlock_block h.positive hlt]
  · have hout : ¬ other.hasBlock (m.block t) := fun hhas =>
      hsame (h.unique hother hm (hasBlock_iff.mp hhas) (hshape.mem_range h.positive hlt))
    rw [if_neg hout, if_neg hsame]

/-- **A block that is given back is free**, and nothing else changes. -/
theorem Blocks.giveBack (h : Blocks size count l) (hs : s ∈ blocksOf l) :
    Blocks size count (Memory.giveBack s l) ∧ blocksOf (Memory.giveBack s l) = blocksOf l ∧
      taken (Memory.giveBack s l) = taken l \ {s} := by
  obtain ⟨m, hm, t, ht, rfl⟩ := hs
  rw [h.giveBack_eq hm ht]
  refine ⟨⟨h.positive, fun other hother => ?_, List.pairwise_map.mpr h.apart⟩, ?_, ?_⟩
  · obtain ⟨old, hold, rfl⟩ := List.mem_map.mp hother
    have hshape := h.shape old hold
    exact ⟨hshape.blockSize, hshape.size, (clear_length m t old).trans hshape.length⟩
  · ext x
    simp only [blocksOf, Set.mem_ofPred_eq, List.mem_map, exists_exists_and_eq_and, clear_length]
    rfl
  · ext x
    simp only [taken, Set.mem_ofPred_eq, List.mem_map, exists_exists_and_eq_and, clear_bit, Set.mem_sdiff,
      Set.mem_singleton_iff]
    constructor
    · rintro ⟨other, hother, u, ⟨hu, hnot⟩, rfl⟩
      refine ⟨⟨other, hother, u, hu, rfl⟩, fun heq => hnot ?_⟩
      exact h.block_unique hother hm (List.getElem?_eq_some_iff.mp hu).1 ht heq
    · rintro ⟨⟨other, hother, u, hu, rfl⟩, hne⟩
      refine ⟨other, hother, u, ⟨hu, ?_⟩, rfl⟩
      rintro ⟨rfl, rfl⟩
      exact hne rfl

/-- A new memory that lies apart from the others. -/
theorem Blocks.concat (h : Blocks size count l) (hm : Of size count m)
    (hapart : ∀ other ∈ l, Apart other m) : Blocks size count (l ++ [m]) where
  positive := h.positive
  shape other hother := by
    rcases List.mem_append.mp hother with hl | hlast
    · exact h.shape other hl
    · rwa [List.mem_singleton.mp hlast]
  apart := List.pairwise_append.mpr ⟨h.apart, List.pairwise_singleton .., fun other hother last hlast => by
    rw [List.mem_singleton.mp hlast]
    exact hapart other hother⟩

theorem Blocks.tail {rest : List Memory} (h : Blocks size count (m :: rest)) : Blocks size count rest where
  positive := h.positive
  shape other hother := h.shape other (List.mem_cons_of_mem _ hother)
  apart := (List.pairwise_cons.mp h.apart).2

/-- The first memory stays as it is when the others hand a block out. -/
theorem Blocks.takeBlock_tail {l' : List Memory} (h : Blocks size count (m :: l))
    (htake : Memory.takeBlock l = some (s, l')) : Blocks size count (m :: l') := by
  obtain ⟨a, other, b, t, rfl, -, -, rfl⟩ := takeBlock_some htake
  exact Blocks.replace (a := m :: a) h t true

theorem Blocks.giveBack_tail (h : Blocks size count (m :: l)) (hs : s ∈ blocksOf l) :
    Blocks size count (m :: Memory.giveBack s l) := by
  obtain ⟨other, hother, t, ht, rfl⟩ := hs
  have hof := h.shape other (List.mem_cons_of_mem _ hother)
  have hrange : other.block t ∈ other.range := hof.mem_range h.positive (hof.length ▸ ht)
  have hout : ¬ m.hasBlock (other.block t) := fun hhas =>
    Set.disjoint_left.mp ((List.pairwise_cons.mp h.apart).1 other hother) (hasBlock_iff.mp hhas) hrange
  have hgive := (h.giveBack (s := other.block t) ⟨other, List.mem_cons_of_mem _ hother, t, ht, rfl⟩).1
  rwa [Memory.giveBack, List.map_cons, if_neg hout] at hgive

theorem takeBlock_concat (h : takeBlock l = none) (m : Memory) :
    takeBlock (l ++ [m]) = m.getBlock.map fun r => (r.1, l ++ [r.2]) := by
  induction l with
  | nil =>
    rw [List.nil_append, takeBlock]
    cases m.getBlock with
    | none => rfl
    | some r => rfl
  | cons first rest ih =>
    rw [takeBlock] at h
    rw [List.cons_append, takeBlock]
    cases hfirst : first.getBlock with
    | some r => simp [hfirst] at h
    | none =>
      simp only [hfirst, Option.map_eq_none_iff] at h
      simp only [ih h, Option.map_map]
      rfl

end

end Memory

end CoroutineRpc.Coroutine
