import CoroutineRpc.Coroutine.CoroutinePool
import CoroutineRpc.Coroutine.Switching

/-! The stacks of the pool under the switches.

`setCallBack` lets the stack pointer begin at the end of the block, rounded down to 16, and the
switch that enters the callback writes the word there. So a coroutine works on its block moved up
by one word. The blocks that the pool hands out are as far apart as their sizes, and so are the
moved ones: the coroutines of the pool can be switched between (`pool_separate`). But the moved
block ends behind the block (`entered_writes_behind`). -/
namespace CoroutineRpc.Coroutine.Switching
open Library.X64 Library.Transition

def addr (i : Int) : Word := BitVec.ofInt 64 i

/-- The addresses that a coroutine uses whose block begins at `sp`. -/
def area (size sp : Int) : Set Int := Set.Ico (sp + 8) (sp + size + 8)

theorem addr_toNat {i : Int} (hlow : 0 ≤ i) (hhigh : i < 2 ^ 64) : ((addr i).toNat : Int) = i := by
  rw [addr, BitVec.toNat_ofInt]
  omega

theorem within_addr {a : Int} {n : Nat} {x : Word} (hlow : 0 ≤ a) (hhigh : a + n ≤ 2 ^ 64) (hn : 0 < n) :
    Within (addr a) n x ↔ (x.toNat : Int) ∈ Set.Ico a (a + n) := by
  have ha := addr_toNat (i := a) hlow (by omega)
  rw [Within, Set.mem_Ico]
  bv_omega

theorem and_neg_16 (w : Word) : (w &&& -16).toNat = w.toNat - w.toNat % 16 := by
  have hbits : ∀ i < 64, (-16 : Word).getLsbD i = decide (4 ≤ i) := by decide
  have hshift : w &&& (-16 : Word) = (w >>> 4) <<< 4 := by
    refine BitVec.eq_of_getLsbD_eq fun i hi => ?_
    rw [BitVec.getLsbD_and, hbits i hi, BitVec.getLsbD_shiftLeft, BitVec.getLsbD_ushiftRight]
    by_cases h4 : i < 4
    · simp only [h4, decide_true, Bool.not_true, Bool.and_false, Bool.false_and, decide_eq_false (Nat.not_le.mpr h4)]
    · simp only [h4, hi, decide_true, decide_false, Bool.not_false, Bool.and_true, Bool.true_and,
        decide_eq_true (Nat.not_lt.mp h4), Nat.add_sub_cancel' (Nat.not_lt.mp h4)]
  have hval := congrArg BitVec.toNat hshift
  rw [BitVec.toNat_shiftLeft, BitVec.toNat_ushiftRight, Nat.shiftRight_eq_div_pow, Nat.shiftLeft_eq] at hval
  have := w.isLt
  omega

variable {κ : Type} {L : Layout κ} {c : κ} {sp size : Int}

/-- The word at the end of a block, or as far below it as 16 asks. -/
theorem stackTop_addr (hsp : L.stackSp c = addr sp) (hsize : L.stackSize c = addr size) (hlow : 0 ≤ sp)
    (hpos : 0 ≤ size) (hhigh : sp + size < 2 ^ 64) :
    Thread.stackTop L c = addr (sp + size - (sp + size) % 16) := by
  have hsum : L.stackSp c + L.stackSize c = addr (sp + size) := by
    rw [hsp, hsize, addr, addr, addr, BitVec.ofInt_add]
  have htop := and_neg_16 (addr (sp + size))
  have hend := addr_toNat (i := sp + size) (by omega) hhigh
  have hres := addr_toNat (i := sp + size - (sp + size) % 16) (by omega) (by omega)
  rw [Thread.stackTop, hsum]
  refine BitVec.eq_of_toNat_eq ?_
  omega

/-! ### The stacks of a pool -/

section
variable {s : CoroutinePool.State} {L : Layout (Option (Fin s.held.length))} {main : Word → Prop}

/-- The stacks of those who hold a coroutine, and that of the thread. -/
def poolOwn (s : CoroutinePool.State) (main : Word → Prop) : Option (Fin s.held.length) → Word → Prop
  | none => main
  | some i => fun x => (x.toNat : Int) ∈ area s.pool.stackSize (s.held.get i).stackSp

/-- The coroutines that are held lie at their addresses; the objects and the stack of the thread are
memory of their own, also apart from the moved stacks. The allocator does not promise the last: it
knows nothing of the word behind the last block. -/
structure Placed (s : CoroutinePool.State) (L : Layout (Option (Fin s.held.length))) (main : Word → Prop) :
    Prop where
  stackSp : ∀ i, L.stackSp (some i) = addr (s.held.get i).stackSp
  stackSize : ∀ i, L.stackSize (some i) = addr s.pool.stackSize
  fits : ∀ i, 0 ≤ (s.held.get i).stackSp ∧ (s.held.get i).stackSp + s.pool.stackSize + 8 ≤ 2 ^ 64
  objects : ∀ c d, c ≠ d → Apart (L.coctx c) Coctx.size (L.coctx d) Coctx.size
  stackObject : ∀ c d x, poolOwn s main c x → ¬ Within (L.coctx d) Coctx.size x
  mainStack : ∀ i x, main x → ¬ poolOwn s main (some i) x

/-- Blocks that are disjoint are disjoint when they are moved by a word. -/
theorem area_disjoint {size sp sp' : Int} (h : Disjoint (Memory.stack size sp) (Memory.stack size sp')) :
    Disjoint (area size sp) (area size sp') := by
  rw [Memory.stack, Memory.stack, Set.Ico_disjoint_Ico] at h
  rw [area, area, Set.Ico_disjoint_Ico]
  omega

theorem separate_of_ownStacks (hown : CoroutinePool.OwnStacks s) (h : Placed s L main) : Separate L (poolOwn s main) := by
  refine ⟨h.objects, fun c d x hc hd => ?_, h.stackObject⟩
  have hdisjoint (i j : Fin s.held.length) (hlt : i < j) :
      Disjoint (area s.pool.stackSize (s.held.get i).stackSp) (area s.pool.stackSize (s.held.get j).stackSp) :=
    area_disjoint (List.pairwise_iff_get.mp hown i j hlt)
  match c, d with
  | none, none => rfl
  | none, some i => exact absurd hd (h.mainStack i x hc)
  | some i, none => exact absurd hc (h.mainStack i x hd)
  | some i, some j =>
    rcases lt_trichotomy i j with hlt | heq | hgt
    · exact absurd hd (Set.disjoint_left.mp (hdisjoint i j hlt) hc)
    · rw [heq]
    · exact absurd hc (Set.disjoint_left.mp (hdisjoint j i hgt) hd)

/-- The word at the top is the coroutine's, unless the block has no room for a few words. -/
theorem top_own (hroom : 24 ≤ s.pool.stackSize) (h : Placed s L main) (i : Fin s.held.length) {x : Word}
    (hx : Within (Thread.stackTop L (some i)) 8 x) : poolOwn s main (some i) x := by
  obtain ⟨hlow, hhigh⟩ := h.fits i
  rw [stackTop_addr (h.stackSp i) (h.stackSize i) hlow (by omega) (by omega),
    within_addr (by omega) (by omega) (by decide), Set.mem_Ico] at hx
  show (x.toNat : Int) ∈ area s.pool.stackSize (s.held.get i).stackSp
  rw [area, Set.mem_Ico]
  omega

end

/-- **Whatever is obtained from the pool and returned to it, the coroutines that are held can be switched
between, where the objects and the stack of the thread lie apart from the moved stacks: these lie apart
from each other, and each has the word at its top.** -/
theorem pool_separate {poolSize stackSize start : Int} {is : List CoroutinePool.Input}
    {pool : CoroutinePool} {s : CoroutinePool.State} (hpool : 0 < poolSize) (hroom : 24 ≤ stackSize)
    (hfit : poolSize * stackSize < 2 ^ 31) (hmake : CoroutinePool.make poolSize stackSize start = some pool)
    (hmeets : Meets CoroutinePool.step CoroutinePool.Allocates {pool} is)
    (hr : run CoroutinePool.step {pool} is = some s) (L : Layout (Option (Fin s.held.length)))
    (main : Word → Prop) (h : Placed s L main) :
    Separate L (poolOwn s main) ∧ ∀ i x, Within (Thread.stackTop L (some i)) 8 x → poolOwn s main (some i) x := by
  obtain ⟨count, rfl⟩ := Int.eq_ofNat_of_zero_le (Int.le_of_lt hpool)
  obtain ⟨pool', first, hmake', hgood⟩ := CoroutinePool.make_some start (by omega : 0 < stackSize) (by omega) hfit
  obtain rfl : pool' = pool := Option.some.inj (hmake'.symm.trans hmake)
  have hinit : CoroutinePool.Exclusive stackSize count first [] {pool := pool'} := ⟨hgood, nofun, List.nodup_nil⟩
  have halways := always_of_step (P := fun s => ∃ overflow, CoroutinePool.Exclusive stackSize count first overflow s)
    (fun _ _ _ ⟨_, h⟩ hi hs => CoroutinePool.exclusive_step h hi hs) ⟨[], hinit⟩ hmeets
  obtain ⟨overflow, hexclusive⟩ := halways.last hr
  have hsize := hexclusive.stackSize
  exact ⟨separate_of_ownStacks hexclusive.own_stacks h, fun i x => top_own (by omega) h i⟩

/-- Two coroutines, both held. -/
def twoHeld : CoroutinePool.State :=
  ⟨⟨2, 4096, [(⟨1, 0, 0x100000⟩, true), (⟨2, 1, 0x101000⟩, true)], [⟨4096, 2, 8192, 0x100000, [true, true]⟩], 3⟩,
    [⟨1, 0, 0x100000⟩, ⟨2, 1, 0x101000⟩], fun _ => false⟩

def twoLayout : Layout (Option (Fin 2)) where
  self
    | none => 0x1000
    | some i => 0x2000 + 0x1000 * BitVec.ofFin (i.castLE (by decide))
  coctx
    | none => 0x1008
    | some i => 0x2008 + 0x1000 * BitVec.ofFin (i.castLE (by decide))
  stackSp
    | none => 0
    | some i => 0x100000 + 0x1000 * BitVec.ofFin (i.castLE (by decide))
  stackSize
    | none => 0
    | some _ => 4096
  coFunction := 0x400000

theorem two_placed : Placed twoHeld twoLayout (Within 0x20000 0x1000) := by
  have harea (i : Fin 2) (x : Word) (hx : (x.toNat : Int) ∈ area 4096 (twoHeld.held.get i).stackSp) :
      0x100008 ≤ x.toNat := by
    rw [area, Set.mem_Ico] at hx
    match i with
    | 0 => exact Int.ofNat_le.mp hx.1
    | 1 => exact le_trans (by decide) (Int.ofNat_le.mp hx.1 : 0x101008 ≤ x.toNat)
  have hmain (x : Word) (hx : Within 0x20000 0x1000 x) : 0x20000 ≤ x.toNat ∧ x.toNat < 0x21000 := by
    unfold Within at hx
    bv_omega
  have hthread (x : Word) (hx : Within (twoLayout.coctx none) Coctx.size x) : 0x1008 ≤ x.toNat ∧ x.toNat < 0x1078 := by
    change Within 0x1008 112 x at hx
    unfold Within at hx
    bv_omega
  have hcor (i : Fin 2) (x : Word) (hx : Within (twoLayout.coctx (some i)) Coctx.size x) :
      0x2008 + 0x1000 * i.val ≤ x.toNat ∧ x.toNat < 0x2078 + 0x1000 * i.val := by
    match i with
    | 0 =>
      change Within 0x2008 112 x at hx
      unfold Within at hx
      simp only [Fin.val_zero]
      bv_omega
    | 1 =>
      change Within 0x3008 112 x at hx
      unfold Within at hx
      simp only [Fin.val_one]
      bv_omega
  have hobject (c : Option (Fin 2)) (x : Word) (hx : Within (twoLayout.coctx c) Coctx.size x) : x.toNat < 0x3078 := by
    rcases c with _ | i
    · have := hthread x hx
      omega
    · have := hcor i x hx
      omega
  refine ⟨fun (i : Fin 2) => ?_, fun i => rfl, fun (i : Fin 2) => ?_, fun c d hne x hc hd => ?_,
    fun c d x hc hd => ?_, fun i x hx hi => ?_⟩
  · match i with
    | 0 | 1 => rfl
  · match i with
    | 0 | 1 => decide
  · rcases c with _ | i <;> rcases d with _ | j
    · exact hne rfl
    · have := hthread x hc
      have := hcor j x hd
      omega
    · have := hcor i x hc
      have := hthread x hd
      omega
    · have := hcor i x hc
      have := hcor j x hd
      exact hne (congrArg some (Fin.ext (by omega)))
  · have := hobject d x hd
    rcases c with _ | i
    · have := hmain x hc
      omega
    · have := harea i x hc
      omega
  · have := harea i x hi
    have := hmain x hx
    omega

theorem pool_separate_instance : Separate twoLayout (poolOwn twoHeld (Within 0x20000 0x1000)) := by
  obtain ⟨pool, hmake⟩ : ∃ pool, CoroutinePool.make 2 4096 0x100000 = some pool := ⟨_, rfl⟩
  have hr : run CoroutinePool.step {pool} [.getCoroutineInstanse 0, .getCoroutineInstanse 0] = some twoHeld := by
    obtain rfl := Option.some.inj hmake
    rfl
  have hmeets : Meets CoroutinePool.step CoroutinePool.Allocates {pool}
      [.getCoroutineInstanse 0, .getCoroutineInstanse 0] := by
    obtain rfl := Option.some.inj hmake
    decide
  exact (pool_separate (by decide) (by decide) (by decide) hmake hmeets hr twoLayout _ two_placed).1

/-- **The first word on the stack of a coroutine stands behind its block: where blocks end at multiples of
16, the switch that enters a callback writes the address of `CoFunction` over the first word of the next
block, and for the last block of a memory behind the memory.** -/
theorem entered_writes_behind {κ : Type} [DecidableEq κ] {L : Layout κ} {own : κ → Word → Prop} {c : κ}
    {s s' t' t : Thread κ} {m : Memory} {size : Int} {count k : Nat} (hsep : Separate L own)
    (h : Entering L own c s s' t' t) (hof : Memory.Of size count m) (hsize : 0 < size) (hk : k < count)
    (hsp : L.stackSp c = addr (m.block k)) (hstack : L.stackSize c = addr size)
    (hlow : 0 ≤ m.start) (hhigh : m.start + m.size + 8 ≤ 2 ^ 64) (hstart : 16 ∣ m.start) (haligned : 16 ∣ size) :
    t.cpu.mem.read (addr (m.block (k + 1))) = L.coFunction ∧
      (∀ x, Within (addr (m.block (k + 1))) 8 x → (x.toNat : Int) ∉ Memory.stack size (m.block k)) ∧
      (m.hasBlock (m.block (k + 1)) ↔ k + 1 < count) := by
  have hnext : m.block k + size = m.block (k + 1) := by
    rw [hof.block_eq, hof.block_eq, Int.natCast_succ, Int.add_mul, Int.one_mul, Int.add_assoc]
  have hinside := hof.stack_subset hsize hk
  have hfirst : m.start ≤ m.block k :=
    (Set.mem_Ico.mp (hof.mem_range hsize hk)).1
  have hlast : m.block k + size ≤ m.start + m.size := by
    have := (Set.mem_Ico.mp (hinside (show m.block k + size - 1 ∈ Memory.stack size (m.block k) from
      Set.mem_Ico.mpr (by omega)))).2
    omega
  have hend : (m.block k + size) % 16 = 0 := by
    rw [hnext, hof.block_eq]
    exact Int.emod_eq_zero_of_dvd (Int.dvd_add hstart (Int.dvd_trans haligned (Int.dvd_mul_left ..)))
  have htop : Thread.stackTop L c = addr (m.block (k + 1)) := by
    rw [stackTop_addr hsp hstack (by omega) (by omega) (by omega), hend, sub_zero, hnext]
  refine ⟨?_, fun x hx hown => ?_, ?_⟩
  · obtain ⟨_, a, _, _, hmem⟩ := h.found hsep
    rw [hmem, htop, Memory.read_write_self]
  · rw [← hnext, within_addr (by omega) (by omega) (by decide), Set.mem_Ico] at hx
    rw [Memory.stack, Set.mem_Ico] at hown
    omega
  · rw [Memory.hasBlock_iff, Memory.range, Set.mem_Ico]
    constructor
    · rintro ⟨_, hlt⟩
      by_contra hge
      obtain rfl : k + 1 = count := by omega
      rw [hof.block_eq, hof.size] at hlt
      omega
    · intro hlt
      exact Set.mem_Ico.mp (hof.mem_range hsize hlt)

theorem entered_writes_behind_instance : ∃ t : Thread Bool, t.cpu.mem.read 0x10100 = 0x400000 := by
  obtain ⟨t, _, hentering⟩ := pair_entering
  have hof : Memory.Of 256 2 ⟨256, 2, 512, 0x10000, [true, true]⟩ := ⟨rfl, rfl, rfl⟩
  exact ⟨t, (entered_writes_behind pair_separate hentering hof (by decide) (by decide : 0 < 2) rfl rfl (by decide)
    (by decide) (by decide) (by decide)).1⟩

end CoroutineRpc.Coroutine.Switching
