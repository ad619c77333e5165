import Mathlib.Algebra.Order.Ring.Int
import Mathlib.Data.List.Basic
import Mathlib.Logic.Function.Basic

/-! A part of a 64-bit machine: registers, bytes of memory, straight-line code up to a `ret`.

A range of memory is given by its first address and its length; addresses wrap, so `Within`
asks how far an address is from the first one. Reading a word depends on its eight bytes only
(`read_congr`) and writing one changes no others (`write_apart`). Code has no addresses here:
`rip` is where the last `ret` went. -/
namespace Library.X64

abbrev Word := BitVec 64

abbrev Memory := Word → BitVec 8

/-- `x` is one of the `n` bytes from `a` on. -/
def Within (a : Word) (n : Nat) (x : Word) : Prop := (x - a).toNat < n

instance (a : Word) (n : Nat) (x : Word) : Decidable (Within a n x) := inferInstanceAs (Decidable (_ < _))

/-- The `n` bytes from `a` on and the `k` bytes from `b` on have none in common. -/
def Apart (a : Word) (n : Nat) (b : Word) (k : Nat) : Prop := ∀ x, Within a n x → ¬ Within b k x

namespace Memory

/-- The word at `a`, the low byte first. -/
def read (m : Memory) (a : Word) : Word :=
  m (a + 7) ++ m (a + 6) ++ m (a + 5) ++ m (a + 4) ++ m (a + 3) ++ m (a + 2) ++ m (a + 1) ++ m a

def write (m : Memory) (a v : Word) : Memory := fun x =>
  if Within a 8 x then v.extractLsb' (8 * (x - a).toNat) 8 else m x

end Memory

inductive Reg where
  | rax | rbx | rcx | rdx | rsi | rdi | rbp | rsp | r8 | r9 | r10 | r11 | r12 | r13 | r14 | r15
deriving DecidableEq

structure Machine where
  regs : Reg → Word
  rip : Word
  mem : Memory

/-- The operands stand in the order of the AT&T syntax. -/
inductive Instr where
  | leaq (disp : Word) (base dst : Reg)
  /-- `movq disp(base), dst`. -/
  | load (disp : Word) (base dst : Reg)
  /-- `movq src, disp(base)`. -/
  | store (src : Reg) (disp : Word) (base : Reg)
  | xorq (src dst : Reg)
  /-- `pushq disp(base)`. -/
  | pushq (disp : Word) (base : Reg)
  | ret

namespace Machine

def set (m : Machine) (r : Reg) (v : Word) : Machine := {m with regs := Function.update m.regs r v}

def exec (m : Machine) : Instr → Machine
  | .leaq disp base dst => m.set dst (m.regs base + disp)
  | .load disp base dst => m.set dst (m.mem.read (m.regs base + disp))
  | .store src disp base => {m with mem := m.mem.write (m.regs base + disp) (m.regs src)}
  | .xorq src dst => m.set dst (m.regs dst ^^^ m.regs src)
  | .pushq disp base =>
    let v := m.mem.read (m.regs base + disp)
    {m.set .rsp (m.regs .rsp - 8) with mem := m.mem.write (m.regs .rsp - 8) v}
  | .ret => {m.set .rsp (m.regs .rsp + 8) with rip := m.mem.read (m.regs .rsp)}

def execAll (m : Machine) (code : List Instr) : Machine := code.foldl exec m

theorem execAll_append (m : Machine) (code rest : List Instr) :
    m.execAll (code ++ rest) = (m.execAll code).execAll rest :=
  List.foldl_append

end Machine

/-! ### Ranges of memory -/

theorem within_self (a : Word) {n : Nat} (hn : 0 < n) : Within a n a := by
  rw [Within, BitVec.sub_self]
  exact hn

theorem Apart.symm {a b : Word} {n k : Nat} (h : Apart a n b k) : Apart b k a n :=
  fun x hb ha => h x ha hb

/-- A part of a range, `d` bytes behind its beginning. -/
theorem Within.of_part {a x : Word} {d n k : Nat} (h : Within (a + BitVec.ofNat 64 d) k x) (hfit : d + k ≤ n)
    (hsmall : n < 2 ^ 64) : Within a n x := by
  unfold Within at *
  bv_omega

/-- Parts of one range that follow each other are apart. -/
theorem apart_parts (a : Word) {d e n k : Nat} (hlt : d + n ≤ e) (hsmall : e + k < 2 ^ 64) :
    Apart (a + BitVec.ofNat 64 d) n (a + BitVec.ofNat 64 e) k := by
  intro x hd he
  unfold Within at *
  bv_omega

/-! ### Words in memory -/

namespace Memory
variable {m m' : Memory} {a b v : Word}

theorem read_congr (h : ∀ x, Within a 8 x → m' x = m x) : m'.read a = m.read a := by
  have hbyte (k : Nat) (hk : k < 8) : m' (a + BitVec.ofNat 64 k) = m (a + BitVec.ofNat 64 k) :=
    h _ (by unfold Within; bv_omega)
  have hzero : m' a = m a := h a (within_self a (by decide))
  rw [read, read]
  rw [show m' (a + 7) = m (a + 7) from hbyte 7 (by decide), show m' (a + 6) = m (a + 6) from hbyte 6 (by decide),
    show m' (a + 5) = m (a + 5) from hbyte 5 (by decide), show m' (a + 4) = m (a + 4) from hbyte 4 (by decide),
    show m' (a + 3) = m (a + 3) from hbyte 3 (by decide), show m' (a + 2) = m (a + 2) from hbyte 2 (by decide),
    show m' (a + 1) = m (a + 1) from hbyte 1 (by decide), hzero]

theorem write_apart {x : Word} (h : ¬ Within a 8 x) : m.write a v x = m x := if_neg h

theorem write_byte {k : Nat} (hk : k < 8) :
    m.write a v (a + BitVec.ofNat 64 k) = v.extractLsb' (8 * k) 8 := by
  have hdist : (a + BitVec.ofNat 64 k - a).toNat = k := by bv_omega
  rw [write, if_pos (show Within a 8 _ by rw [Within, hdist]; exact hk), hdist]

/-- What was written is read. -/
theorem read_write_self (m : Memory) (a v : Word) : (m.write a v).read a = v := by
  have hzero : m.write a v a = v.extractLsb' 0 8 := by
    have := write_byte (m := m) (a := a) (v := v) (k := 0) (by decide)
    rwa [show a + BitVec.ofNat 64 0 = a from BitVec.add_zero a] at this
  rw [read, hzero, show m.write a v (a + 7) = _ from write_byte (k := 7) (by decide),
    show m.write a v (a + 6) = _ from write_byte (k := 6) (by decide),
    show m.write a v (a + 5) = _ from write_byte (k := 5) (by decide),
    show m.write a v (a + 4) = _ from write_byte (k := 4) (by decide),
    show m.write a v (a + 3) = _ from write_byte (k := 3) (by decide),
    show m.write a v (a + 2) = _ from write_byte (k := 2) (by decide),
    show m.write a v (a + 1) = _ from write_byte (k := 1) (by decide)]
  ext i hi
  simp only [BitVec.getElem_append, BitVec.getElem_extractLsb', BitVec.getLsbD_eq_getElem?_getD]
  grind

/-- The `k`-th byte of a word. -/
theorem read_byte (m : Memory) (a : Word) {k : Nat} (hk : k < 8) :
    (m.read a).extractLsb' (8 * k) 8 = m (a + BitVec.ofNat 64 k) := by
  have hzero : a + BitVec.ofNat 64 0 = a := BitVec.add_zero a
  have hcases : k = 0 ∨ k = 1 ∨ k = 2 ∨ k = 3 ∨ k = 4 ∨ k = 5 ∨ k = 6 ∨ k = 7 := by omega
  rcases hcases with rfl | rfl | rfl | rfl | rfl | rfl | rfl | rfl <;> ext i hi <;>
    simp only [read, BitVec.getElem_extractLsb', BitVec.getLsbD_append, hzero] <;> grind

/-- To write what stands there changes nothing. -/
theorem write_read (m : Memory) (a : Word) : m.write a (m.read a) = m := by
  funext x
  by_cases hx : Within a 8 x
  · rw [write, if_pos hx, read_byte m a hx]
    congr 1
    bv_omega
  · exact write_apart hx

/-- A word that is written as it was read elsewhere has the bytes that it had there. -/
theorem write_within {x : Word} (h : Within a 8 x) : m.write a (m'.read a) x = m' x :=
  calc m.write a (m'.read a) x
    _ = m'.write a (m'.read a) x := (if_pos h).trans (if_pos h).symm
    _ = m' x := congrFun (write_read m' a) x

theorem read_write_apart (h : Apart a 8 b 8) : (m.write a v).read b = m.read b :=
  read_congr fun x hx => write_apart fun hxa => h x hxa hx

end Memory

end Library.X64
