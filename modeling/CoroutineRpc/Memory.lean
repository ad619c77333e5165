import Mathlib.Algebra.Order.Ring.Int
import Mathlib.Data.List.Basic

/-! Bytes, vectors of bytes and `int`s as the C++ code handles them.

Everything that is undefined in the source is `none` here: an `int` expression whose
value does not fit, and a `memcpy` that leaves its vector. Reads go through a
`Memory`, a vector together with the part of it that may be read; the code's own
reads may touch the whole vector, and narrowing the part shows what they do touch. -/
namespace CoroutineRpc

abbrev Byte := BitVec 8
abbrev Bytes := List Byte

/-- The value of an `int` expression, if it does not overflow. -/
def int (n : Int) : Option Int := if -2 ^ 31 ≤ n ∧ n < 2 ^ 31 then some n else none

theorem int_some {n : Int} (h : -2 ^ 31 ≤ n ∧ n < 2 ^ 31) : int n = some n := if_pos h

theorem eq_of_int {n value : Int} (h : int n = some value) : value = n ∧ -2 ^ 31 ≤ n ∧ n < 2 ^ 31 := by
  unfold int at h
  split at h
  · exact ⟨(Option.some.inj h).symm, ‹_›⟩
  · cases h

/-- `count` bytes from `index`. -/
def slice (bytes : Bytes) (index count : Int) : Bytes := (bytes.drop index.toNat).take count.toNat

/-- A vector and the part `[lo, hi)` of it that may be read. -/
structure Memory where
  bytes : Bytes
  lo : Int
  hi : Int

/-- All of a vector. -/
def Memory.whole (bytes : Bytes) : Memory := ⟨bytes, 0, bytes.length⟩

/-- The source of a `memcpy` or `assign`: `count` bytes from `index`. -/
def Memory.load (m : Memory) (index count : Int) : Option Bytes :=
  if 0 ≤ count ∧ 0 ≤ index ∧ index + count ≤ m.bytes.length ∧ m.lo ≤ index ∧ index + count ≤ m.hi then
    some (slice m.bytes index count)
  else none

/-- `m_buffer[index]`. -/
def Memory.byte (m : Memory) (index : Int) : Option Byte :=
  (m.load index 1).bind List.head?

/-- The destination of a `memcpy`: the vector with `src` written from `index` on. -/
def store (bytes : Bytes) (index : Int) (src : Bytes) : Option Bytes :=
  if 0 ≤ index ∧ index + src.length ≤ bytes.length then
    some (bytes.take index.toNat ++ src ++ bytes.drop (index.toNat + src.length))
  else none

/-! ### Slices -/

theorem slice_length {bytes : Bytes} {index count : Int} (hi : 0 ≤ index) (hc : 0 ≤ count)
    (h : index + count ≤ bytes.length) : ((slice bytes index count).length : Int) = count := by
  simp only [slice, List.length_take, List.length_drop]
  omega

theorem slice_zero (bytes : Bytes) (index : Int) : slice bytes index 0 = [] := by simp [slice]

/-- Dropping from a slice moves its start. -/
theorem slice_drop {bytes : Bytes} {index count n : Int} (hi : 0 ≤ index) (hn : 0 ≤ n) :
    (slice bytes index count).drop n.toNat = slice bytes (index + n) (count - n) := by
  simp only [slice, List.drop_take, List.drop_drop]
  congr 2 <;> omega

/-- Taking from a slice moves its end. -/
theorem slice_take {bytes : Bytes} {index count n : Int} (h : n ≤ count) :
    (slice bytes index count).take n.toNat = slice bytes index n := by
  simp only [slice, List.take_take]
  congr 1
  omega

/-! ### Loads and stores that stay inside -/

theorem load_some {m : Memory} {index count : Int} (hc : 0 ≤ count) (hi : 0 ≤ index)
    (hb : index + count ≤ m.bytes.length) (hlo : m.lo ≤ index) (hhi : index + count ≤ m.hi) :
    m.load index count = some (slice m.bytes index count) := if_pos ⟨hc, hi, hb, hlo, hhi⟩

theorem store_some {bytes src : Bytes} {index : Int} (hi : 0 ≤ index)
    (hb : index + src.length ≤ bytes.length) :
    store bytes index src =
      some (bytes.take index.toNat ++ src ++ bytes.drop (index.toNat + src.length)) :=
  if_pos ⟨hi, hb⟩

/-- A store keeps the vector's size. -/
theorem store_length {bytes src out : Bytes} {index : Int} (h : store bytes index src = some out) :
    out.length = bytes.length := by
  unfold store at h
  split at h
  · obtain rfl := Option.some.inj h
    simp only [List.length_append, List.length_take, List.length_drop]
    omega
  · simp at h

/-- Writing right after a slice extends it. -/
theorem slice_store {bytes src out : Bytes} {index count : Int} (hi : 0 ≤ index) (hc : 0 ≤ count)
    (h : store bytes (index + count) src = some out) :
    slice out index (count + src.length) = slice bytes index count ++ src := by
  unfold store at h
  split at h
  · rename_i hb
    obtain rfl := Option.some.inj h
    have hadd : (index + count).toNat = index.toNat + count.toNat := by omega
    have hlen : (bytes.take (index + count).toNat).length = index.toNat + count.toNat := by
      rw [List.length_take]
      omega
    have hcount : (count + (src.length : Int)).toNat = count.toNat + src.length := by omega
    rw [slice, hcount, List.append_assoc, List.drop_append_of_le_length (by omega), List.take_append,
      List.length_drop, hlen, hadd, List.drop_take, List.take_take, slice,
      show min (count.toNat + src.length) (index.toNat + count.toNat - index.toNat) = count.toNat by omega,
      show count.toNat + src.length - (index.toNat + count.toNat - index.toNat) = src.length by omega,
      List.take_left]
  · simp at h

end CoroutineRpc
