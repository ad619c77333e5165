import CoroutineRpc.Library.X64
import Mathlib.Data.Fin.VecNotation

/-! `coctx_swap`: from the registers of one coroutine to those of another.

A `coctx` is fourteen words. The first half of `coctx_swap` writes the registers and its own
return address into the `coctx` at `rdi` (`exec_saves`), the second half takes those of the
`coctx` at `rsi` and returns to the address kept there (`exec_loads`). What one call saves
another loads (`coctx_swap_spec`). -/
namespace CoroutineRpc.Coroutine
open Library.X64

/-- The registers of a coroutine that does not run, by their index in `regs`. -/
abbrev Coctx := Fin 14 → Word

def kRBP : Fin 14 := 6
def kRDI : Fin 14 := 7
def kRSI : Fin 14 := 8
def kRETAddr : Fin 14 := 9
def kRSP : Fin 14 := 13

namespace Coctx

/-- `sizeof(coctx)`. -/
def size : Nat := 112

/-- Where `regs[i]` of the `coctx` at `a` is. -/
def regAddr (a : Word) (i : Fin 14) : Word := a + BitVec.ofNat 64 (8 * i)

/-- The `coctx` at `a`. -/
def held (mem : Memory) (a : Word) : Coctx := fun i => mem.read (regAddr a i)

end Coctx

/-- The text of `coctx_swap`. -/
def coctxSwap : List Instr := [
  .leaq 0 .rsp .rax,
  .store .rax 104 .rdi,
  .store .rbx 96 .rdi,
  .store .rcx 88 .rdi,
  .store .rdx 80 .rdi,
  .load 0 .rax .rax,
  .store .rax 72 .rdi,
  .store .rsi 64 .rdi,
  .store .rdi 56 .rdi,
  .store .rbp 48 .rdi,
  .store .r8 40 .rdi,
  .store .r9 32 .rdi,
  .store .r12 24 .rdi,
  .store .r13 16 .rdi,
  .store .r14 8 .rdi,
  .store .r15 0 .rdi,
  .xorq .rax .rax,
  .load 48 .rsi .rbp,
  .load 104 .rsi .rsp,
  .load 0 .rsi .r15,
  .load 8 .rsi .r14,
  .load 16 .rsi .r13,
  .load 24 .rsi .r12,
  .load 32 .rsi .r9,
  .load 40 .rsi .r8,
  .load 56 .rsi .rdi,
  .load 80 .rsi .rdx,
  .load 88 .rsi .rcx,
  .load 96 .rsi .rbx,
  .leaq 8 .rsp .rsp,
  .pushq 72 .rsi,
  .load 64 .rsi .rsi,
  .ret]

/-- What the caller of `coctx_swap` leaves behind: at `rsp` is its return address. -/
def Coctx.of (m : Machine) : Coctx := ![
  m.regs .r15, m.regs .r14, m.regs .r13, m.regs .r12, m.regs .r9, m.regs .r8, m.regs .rbp,
  m.regs .rdi, m.regs .rsi, m.mem.read (m.regs .rsp), m.regs .rdx, m.regs .rcx, m.regs .rbx, m.regs .rsp]

/-- The registers with which the coroutine of a `coctx` goes on; `r10` and `r11` are not its own. -/
def Coctx.regs (c : Coctx) (before : Reg → Word) : Reg → Word
  | .rax => 0
  | .rbx => c 12
  | .rcx => c 11
  | .rdx => c 10
  | .rsi => c kRSI
  | .rdi => c kRDI
  | .rbp => c kRBP
  | .rsp => c kRSP + 8
  | .r8 => c 5
  | .r9 => c 4
  | .r10 => before .r10
  | .r11 => before .r11
  | .r12 => c 3
  | .r13 => c 2
  | .r14 => c 1
  | .r15 => c 0

/-- The `coctx` at `a` is overwritten with `c`, the last register first. -/
def Coctx.put (mem : Memory) (a : Word) (c : Coctx) : Memory :=
  [13, 12, 11, 10, 9, 8, 7, 6, 5, 4, 3, 2, 1, 0].foldl (fun mem i => mem.write (regAddr a i) (c i)) mem

/-! ### A `coctx` in memory -/

namespace Coctx

theorem within_regAddr {a x : Word} {i : Fin 14} (h : Within (regAddr a i) 8 x) : Within a size x :=
  h.of_part (show 8 * (i : Nat) + 8 ≤ size by have := i.isLt; simp only [size]; omega) (by decide)

theorem apart_regAddr (a : Word) {i j : Fin 14} (hne : i ≠ j) : Apart (regAddr a i) 8 (regAddr a j) 8 := by
  have hi := i.isLt
  have hj := j.isLt
  rcases Nat.lt_or_gt_of_ne (Fin.val_ne_of_ne hne) with hlt | hgt
  · exact apart_parts a (by omega) (by omega)
  · exact (apart_parts a (by omega) (by omega)).symm

theorem held_congr {mem mem' : Memory} {a : Word} (h : ∀ x, Within a size x → mem' x = mem x) :
    held mem' a = held mem a :=
  funext fun _ => Memory.read_congr fun x hx => h x (within_regAddr hx)

theorem held_write (mem : Memory) (a v : Word) (i j : Fin 14) :
    held (mem.write (regAddr a i) v) a j = if j = i then v else held mem a j := by
  split
  · next heq => rw [heq]; exact Memory.read_write_self ..
  · next hne => exact Memory.read_write_apart (apart_regAddr a (Ne.symm hne))

theorem held_foldl_write (a : Word) (c : Coctx) (is : List (Fin 14)) (mem : Memory) (j : Fin 14) :
    held (is.foldl (fun mem i => mem.write (regAddr a i) (c i)) mem) a j =
      if j ∈ is then c j else held mem a j := by
  induction is generalizing mem with
  | nil => rfl
  | cons i rest ih =>
    rw [List.foldl_cons, ih, held_write]
    by_cases hrest : j ∈ rest
    · rw [if_pos hrest, if_pos (List.mem_cons_of_mem _ hrest)]
    · by_cases heq : j = i
      · rw [if_neg hrest, if_pos heq, if_pos (heq ▸ List.mem_cons_self), heq]
      · rw [if_neg hrest, if_neg heq, if_neg (fun h => (List.mem_cons.mp h).elim heq hrest)]

theorem foldl_write_apart {a x : Word} (c : Coctx) (h : ¬ Within a size x) (is : List (Fin 14)) (mem : Memory) :
    is.foldl (fun mem i => mem.write (regAddr a i) (c i)) mem x = mem x := by
  induction is generalizing mem with
  | nil => rfl
  | cons i rest ih => rw [List.foldl_cons, ih, Memory.write_apart fun hx => h (within_regAddr hx)]

theorem held_put (mem : Memory) (a : Word) (c : Coctx) : held (put mem a c) a = c := by
  funext j
  rw [put, held_foldl_write, if_pos (by revert j; decide)]

theorem put_apart {a x : Word} (mem : Memory) (c : Coctx) (h : ¬ Within a size x) : put mem a c x = mem x :=
  foldl_write_apart c h _ mem

end Coctx

/-! ### What `coctx_swap` does -/

/-- The stores: the return address is read behind four of them. -/
theorem exec_saves {m : Machine} (hret : Apart (m.regs .rsp) 8 (m.regs .rdi) Coctx.size) :
    m.execAll (coctxSwap.take 17) =
      {m with
        regs := Function.update m.regs .rax 0
        mem := Coctx.put m.mem (m.regs .rdi) (Coctx.of m)} := by
  have hzero : m.regs .rsp + 0 = m.regs .rsp := BitVec.add_zero _
  have hread : ((((m.mem.write (m.regs .rdi + 104) (m.regs .rsp)).write (m.regs .rdi + 96) (m.regs .rbx)).write
      (m.regs .rdi + 88) (m.regs .rcx)).write (m.regs .rdi + 80) (m.regs .rdx)).read (m.regs .rsp) =
      m.mem.read (m.regs .rsp) :=
    Memory.read_congr fun x hx =>
      Coctx.foldl_write_apart (Coctx.of m) (hret x hx) [13, 12, 11, 10] m.mem
  simp only [coctxSwap, List.take, Machine.execAll, List.foldl, Machine.exec, Machine.set, Function.update_self,
    Function.update_of_ne, ne_eq, reduceCtorEq, not_false_eq_true, BitVec.xor_self, Function.update_idem, hzero,
    hread]
  rfl

/-- The loads: the return address goes to the stack for the `ret`, before `rsi` is loaded. -/
theorem exec_loads {m : Machine} {c : Coctx} (hc : Coctx.held m.mem (m.regs .rsi) = c) (hrax : m.regs .rax = 0)
    (htop : Apart (c kRSP) 8 (m.regs .rsi) Coctx.size) :
    m.execAll (coctxSwap.drop 17) =
      ⟨c.regs m.regs, c kRETAddr, m.mem.write (c kRSP) (c kRETAddr)⟩ := by
  have hload (i : Fin 14) : m.mem.read (Coctx.regAddr (m.regs .rsi) i) = c i := congrFun hc i
  have hrsp : c kRSP + 8 - 8 = c kRSP := BitVec.add_sub_cancel ..
  have hread : (m.mem.write (c kRSP) (c kRETAddr)).read (Coctx.regAddr (m.regs .rsi) 8) = c 8 := by
    rw [Memory.read_write_apart fun x hx hin => htop x hx (Coctx.within_regAddr hin), hload]
  simp only [coctxSwap, List.drop, Machine.execAll, List.foldl, Machine.exec, Machine.set, Function.update_self,
    Function.update_of_ne, ne_eq, reduceCtorEq, not_false_eq_true,
    show m.regs .rsi + 48 = Coctx.regAddr (m.regs .rsi) 6 from rfl,
    show m.regs .rsi + 104 = Coctx.regAddr (m.regs .rsi) kRSP from rfl,
    show m.regs .rsi + 0 = Coctx.regAddr (m.regs .rsi) 0 from rfl,
    show m.regs .rsi + 8 = Coctx.regAddr (m.regs .rsi) 1 from rfl,
    show m.regs .rsi + 16 = Coctx.regAddr (m.regs .rsi) 2 from rfl,
    show m.regs .rsi + 24 = Coctx.regAddr (m.regs .rsi) 3 from rfl,
    show m.regs .rsi + 32 = Coctx.regAddr (m.regs .rsi) 4 from rfl,
    show m.regs .rsi + 40 = Coctx.regAddr (m.regs .rsi) 5 from rfl,
    show m.regs .rsi + 56 = Coctx.regAddr (m.regs .rsi) 7 from rfl,
    show m.regs .rsi + 80 = Coctx.regAddr (m.regs .rsi) 10 from rfl,
    show m.regs .rsi + 88 = Coctx.regAddr (m.regs .rsi) 11 from rfl,
    show m.regs .rsi + 96 = Coctx.regAddr (m.regs .rsi) 12 from rfl,
    show m.regs .rsi + 72 = Coctx.regAddr (m.regs .rsi) kRETAddr from rfl,
    show m.regs .rsi + 64 = Coctx.regAddr (m.regs .rsi) 8 from rfl,
    hload, hrsp, hread, Memory.read_write_self]
  congr 1
  funext r
  cases r <;>
    simp only [Coctx.regs, Function.update_self, Function.update_of_ne, ne_eq, reduceCtorEq, not_false_eq_true,
      hrax] <;> rfl

/-- **A call of `coctx_swap` saves the registers of its caller in the first `coctx`, goes on with
those of the second, and writes one more word: the address it returns to, below the stack pointer
it returns with.** -/
theorem coctx_swap_spec {m : Machine} {c : Coctx} (hc : Coctx.held m.mem (m.regs .rsi) = c)
    (hret : Apart (m.regs .rsp) 8 (m.regs .rdi) Coctx.size)
    (hcoctx : Apart (m.regs .rsi) Coctx.size (m.regs .rdi) Coctx.size)
    (htop : Apart (c kRSP) 8 (m.regs .rsi) Coctx.size) :
    m.execAll coctxSwap =
      ⟨c.regs m.regs, c kRETAddr,
        (Coctx.put m.mem (m.regs .rdi) (Coctx.of m)).write (c kRSP) (c kRETAddr)⟩ := by
  let saved : Machine :=
    {m with
      regs := Function.update m.regs .rax 0
      mem := Coctx.put m.mem (m.regs .rdi) (Coctx.of m)}
  have hheld : Coctx.held saved.mem (saved.regs .rsi) = c :=
    (Coctx.held_congr fun x hx => Coctx.put_apart _ _ (hcoctx x hx)).trans hc
  have hregs : c.regs saved.regs = c.regs m.regs := by
    funext r
    cases r <;> rfl
  calc m.execAll coctxSwap
      = (m.execAll (coctxSwap.take 17)).execAll (coctxSwap.drop 17) := by
        rw [← Machine.execAll_append, List.take_append_drop]
    _ = saved.execAll (coctxSwap.drop 17) := by rw [exec_saves hret]
    _ = ⟨c.regs saved.regs, c kRETAddr, saved.mem.write (c kRSP) (c kRETAddr)⟩ :=
        exec_loads hheld (Function.update_self .rax 0 m.regs) htop
    _ = ⟨c.regs m.regs, c kRETAddr, saved.mem.write (c kRSP) (c kRETAddr)⟩ := by rw [hregs]

end CoroutineRpc.Coroutine
