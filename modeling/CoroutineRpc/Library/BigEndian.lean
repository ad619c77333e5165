import Mathlib.Algebra.Order.Ring.Int
import Mathlib.Data.List.Basic

/-! 32-bit words on a byte stream, most significant byte first.

`bytes32` writes a word and `take32` reads one off the front; `counted` writes a
string behind its length and `takeCounted` reads one. `take32_eq_some` and
`takeCounted_eq_some` say that reading is exactly undoing writing, so a format built
from the two has one representation per value. -/
namespace Library.BigEndian

/-- The four bytes of a word, in network order. -/
def bytes32 (w : BitVec 32) : List (BitVec 8) :=
  [w.extractLsb' 24 8, w.extractLsb' 16 8, w.extractLsb' 8 8, w.extractLsb' 0 8]

/-- The word four bytes in network order stand for. -/
def word32 (a b c d : BitVec 8) : BitVec 32 := a ++ b ++ c ++ d

@[simp] theorem bytes32_length (w : BitVec 32) : (bytes32 w).length = 4 := rfl

theorem word32_extract (w : BitVec 32) :
    word32 (w.extractLsb' 24 8) (w.extractLsb' 16 8) (w.extractLsb' 8 8) (w.extractLsb' 0 8) = w := by
  apply BitVec.eq_of_getLsbD_eq
  intro i hi
  simp only [word32, BitVec.getLsbD_append, BitVec.getLsbD_extractLsb']
  by_cases h0 : i < 8
  · simp [h0]
  · by_cases h1 : i - 8 < 8
    · have : 8 + (i - 8) = i := by omega
      simp [h0, h1, this]
    · by_cases h2 : i - 8 - 8 < 8
      · have : 16 + (i - 8 - 8) = i := by omega
        simp [h0, h1, h2, this]
      · have h3 : i - 8 - 8 - 8 < 8 := by omega
        have : 24 + (i - 8 - 8 - 8) = i := by omega
        simp [h0, h1, h2, h3, this]

/-- A byte of the low part of a concatenation is a byte of that part. -/
theorem extract_append_low {m n k : Nat} (x : BitVec m) (y : BitVec n) (h : k + 8 ≤ n) :
    (x ++ y).extractLsb' k 8 = y.extractLsb' k 8 := by
  apply BitVec.eq_of_getLsbD_eq
  intro i hi
  simp only [BitVec.getLsbD_extractLsb', BitVec.getLsbD_append, show k + i < n by omega, if_true]

/-- A byte past the low part of a concatenation is a byte of the high part. -/
theorem extract_append_high {m n k : Nat} (x : BitVec m) (y : BitVec n) (h : n ≤ k) :
    (x ++ y).extractLsb' k 8 = x.extractLsb' (k - n) 8 := by
  apply BitVec.eq_of_getLsbD_eq
  intro i hi
  simp only [BitVec.getLsbD_extractLsb', BitVec.getLsbD_append, show ¬ k + i < n by omega, if_false,
    show k + i - n = k - n + i by omega]

theorem bytes32_word32 (a b c d : BitVec 8) : bytes32 (word32 a b c d) = [a, b, c, d] := by
  have h3 : (a ++ b ++ c ++ d).extractLsb' 24 8 = a := by
    rw [extract_append_high _ _ (by decide), extract_append_high _ _ (by decide),
      extract_append_high _ _ (by decide), BitVec.extractLsb'_eq_self]
  have h2 : (a ++ b ++ c ++ d).extractLsb' 16 8 = b := by
    rw [extract_append_high _ _ (by decide), extract_append_high _ _ (by decide),
      extract_append_low _ _ (by decide), BitVec.extractLsb'_eq_self]
  have h1 : (a ++ b ++ c ++ d).extractLsb' 8 8 = c := by
    rw [extract_append_high _ _ (by decide), extract_append_low _ _ (by decide),
      BitVec.extractLsb'_eq_self]
  have h0 : (a ++ b ++ c ++ d).extractLsb' 0 8 = d := by
    rw [extract_append_low _ _ (by decide), BitVec.extractLsb'_eq_self]
  show [_, _, _, _] = _
  rw [word32, h3, h2, h1, h0]

/-- The word at the front of a byte list, and what follows it. -/
def take32 : List (BitVec 8) → Option (BitVec 32 × List (BitVec 8))
  | a :: b :: c :: d :: rest => some (word32 a b c d, rest)
  | _ => none

@[simp] theorem take32_bytes32 (w : BitVec 32) (rest : List (BitVec 8)) :
    take32 (bytes32 w ++ rest) = some (w, rest) := by
  simp only [bytes32, List.cons_append, List.nil_append, take32, word32_extract]

theorem take32_eq_some {l rest : List (BitVec 8)} {w : BitVec 32} :
    take32 l = some (w, rest) ↔ l = bytes32 w ++ rest := by
  constructor
  · intro h
    match l, h with
    | a :: b :: c :: d :: tail, h =>
      simp only [take32, Option.some.injEq, Prod.mk.injEq] at h
      obtain ⟨rfl, rfl⟩ := h
      rw [bytes32_word32]
      rfl
  · rintro rfl
    exact take32_bytes32 w rest

theorem take32_eq_none {l : List (BitVec 8)} : take32 l = none ↔ l.length < 4 := by
  match l with
  | [] | [_] | [_, _] | [_, _, _] => simp [take32]
  | _ :: _ :: _ :: _ :: rest => simp [take32]

/-- The first `n` bytes of a list, and what follows them; a negative count is refused. -/
def takeN (n : Int) (l : List (BitVec 8)) : Option (List (BitVec 8) × List (BitVec 8)) :=
  if n < 0 ∨ l.length < n then none else some (l.take n.toNat, l.drop n.toNat)

theorem takeN_eq_some {n : Int} {l s rest : List (BitVec 8)} :
    takeN n l = some (s, rest) ↔ l = s ++ rest ∧ n = s.length := by
  unfold takeN
  constructor
  · split
    · simp
    · rintro h
      simp only [Option.some.injEq, Prod.mk.injEq] at h
      obtain ⟨rfl, rfl⟩ := h
      refine ⟨(List.take_append_drop _ _).symm, ?_⟩
      rw [List.length_take]
      omega
  · rintro ⟨rfl, rfl⟩
    have : ¬ ((s.length : Int) < 0 ∨ ((s ++ rest).length : Int) < s.length) := by
      simp only [List.length_append]
      omega
    rw [if_neg this]
    simp

theorem toInt_ofNat {n : Nat} (h : n < 2 ^ 31) : (BitVec.ofNat 32 n).toInt = n := by
  rw [BitVec.toInt_eq_toNat_of_lt (by rw [BitVec.toNat_ofNat]; omega), BitVec.toNat_ofNat]
  omega

/-- A non-negative word is determined by its value. -/
theorem eq_ofNat_of_toInt {w : BitVec 32} {n : Nat} (h : w.toInt = n) :
    w = BitVec.ofNat 32 n ∧ n < 2 ^ 31 := by
  have hlt := BitVec.toInt_lt (x := w)
  refine ⟨?_, by omega⟩
  rw [← BitVec.ofInt_toInt (x := w), h]
  rfl

/-- A string behind its length. -/
def counted (s : List (BitVec 8)) : List (BitVec 8) := bytes32 (BitVec.ofNat 32 s.length) ++ s

theorem counted_length (s : List (BitVec 8)) : (counted s).length = 4 + s.length := by
  simp [counted]

/-- The counted string at the front of a byte list, and what follows it. -/
def takeCounted (l : List (BitVec 8)) : Option (List (BitVec 8) × List (BitVec 8)) :=
  (take32 l).bind fun r => takeN r.1.toInt r.2

theorem takeCounted_eq_some {l s rest : List (BitVec 8)} :
    takeCounted l = some (s, rest) ↔ l = counted s ++ rest ∧ s.length < 2 ^ 31 := by
  unfold takeCounted
  rw [Option.bind_eq_some_iff]
  constructor
  · rintro ⟨⟨w, tail⟩, hw, hs⟩
    obtain ⟨rfl, hlen⟩ := takeN_eq_some.mp hs
    obtain ⟨rfl, hfits⟩ := eq_ofNat_of_toInt hlen
    exact ⟨by rw [take32_eq_some.mp hw, counted, List.append_assoc], hfits⟩
  · rintro ⟨rfl, hfits⟩
    refine ⟨(BitVec.ofNat 32 s.length, s ++ rest), ?_, ?_⟩
    · rw [counted, List.append_assoc, take32_bytes32]
    · exact takeN_eq_some.mpr ⟨rfl, toInt_ofNat hfits⟩

end Library.BigEndian
