import CoroutineRpc.Memory
import Mathlib.Data.List.TakeWhile

/-! Text as the C and C++ library functions read and write it.

A `std::string` is a list of bytes, and everything is done in the classic locale. A number
that is written in decimal is read back (`strtoll_decimal`), and what is written of it is
digits and a sign (`decimal_mem`). -/
namespace CoroutineRpc

def byte (c : Char) : Byte := .ofNat 8 c.toNat

/-- A string literal. -/
def ascii (literal : String) : Bytes := literal.toList.map byte

/-! ### Characters -/

def isspace (c : Byte) : Bool := c = byte ' ' ∨ 0x09 ≤ c ∧ c ≤ 0x0d

def isdigit (c : Byte) : Bool := byte '0' ≤ c ∧ c ≤ byte '9'

def tolower (c : Byte) : Byte := if byte 'A' ≤ c ∧ c ≤ byte 'Z' then c + 0x20 else c

def toupper (c : Byte) : Byte := if byte 'a' ≤ c ∧ c ≤ byte 'z' then c - 0x20 else c

@[simp] theorem tolower_tolower (c : Byte) : tolower (tolower c) = tolower c := by
  revert c
  decide +kernel

/-- Upper case keeps a space a space and makes none. -/
@[simp] theorem isspace_toupper (c : Byte) : isspace (toupper c) = isspace c := by
  revert c
  decide +kernel

theorem not_isspace_of_isdigit {c : Byte} : isdigit c = true → isspace c = false := by
  revert c
  decide +kernel

/-! ### `operator>>` -/

/-- `stream >> word`: the next word and what is left, if there is a word. -/
def extract (stream : Bytes) : Option (Bytes × Bytes) :=
  let stream := stream.dropWhile isspace
  let word := stream.takeWhile fun c => ! isspace c
  if word = [] then none else some (word, stream.drop word.length)

theorem extract_space {c : Byte} (h : isspace c = true) (stream : Bytes) :
    extract (c :: stream) = extract stream := by
  simp only [extract, List.dropWhile_cons_of_pos h]

theorem extract_nil : extract [] = none := rfl

/-- A word in front of a space, or at the end. -/
theorem extract_word {word : Bytes} (hne : word ≠ []) (hword : ∀ c ∈ word, isspace c = false)
    {rest : Bytes} (hrest : ∀ c ∈ rest.head?, isspace c = true) :
    extract (word ++ rest) = some (word, rest) := by
  obtain ⟨c, cs, rfl⟩ := List.exists_cons_of_ne_nil hne
  have hskip : (c :: cs ++ rest).dropWhile isspace = c :: cs ++ rest :=
    List.dropWhile_cons_of_neg (by simp [hword c (List.mem_cons_self ..)])
  have htake : (c :: cs ++ rest).takeWhile (fun d => ! isspace d) = c :: cs := by
    rw [List.takeWhile_append_of_pos fun d hd => by rw [hword d hd]; rfl]
    cases rest with
    | nil => rw [List.takeWhile_nil, List.append_nil]
    | cons d rest =>
      rw [List.takeWhile_cons_of_neg (by simp [hrest d rfl]), List.append_nil]
  simp only [extract, hskip, htake, if_neg hne, List.drop_left]

/-! ### Numbers -/

/-- The number that digits stand for. -/
def digitsValue (digits : Bytes) : Nat :=
  digits.foldl (fun n c => 10 * n + (c.toNat - (byte '0').toNat)) 0

/-- The sign in front of a number, and what is behind it. -/
def takeSign : Bytes → Bool × Bytes
  | [] => (false, [])
  | c :: text =>
    if c = byte '-' then (true, text)
    else if c = byte '+' then (false, text)
    else (false, c :: text)

/-- `strtoll(text.c_str(), &end, 10)`: the value and the text at `end`, or `none` if there is
no number. A value out of range becomes the end of the range. -/
def strtoll (text : Bytes) : Option (Int × Bytes) :=
  let (negative, text) := takeSign ((text.takeWhile (· ≠ 0)).dropWhile isspace)
  let digits := text.takeWhile isdigit
  if digits = [] then none
  else
    let value : Int := if negative then -digitsValue digits else digitsValue digits
    some (max (-2 ^ 63) (min value (2 ^ 63 - 1)), text.drop digits.length)

/-- What a `const char*` to a text stands for. -/
def cString (text : Bytes) : Bytes := text.takeWhile (· ≠ 0)

/-- `atoi(text.c_str())`, which is `(int) strtol(text.c_str(), nullptr, 10)`: of the value the low 32 bits. -/
def atoi (text : Bytes) : Int := (BitVec.ofInt 32 (((strtoll text).map Prod.fst).getD 0)).toInt

/-- What `<<` and `std::to_string` write. -/
def decimal (n : Int) : Bytes := ascii n.repr

theorem decimal_natCast (n : Nat) : decimal n = (Nat.toDigits 10 n).map byte := by
  rw [decimal, ascii, Int.repr_eq_if, if_pos (Int.natCast_nonneg n), Int.toNat_natCast, Nat.toList_repr]

/-- Between '0' and '9'. -/
theorem digit_range {c : Char} (h : c.isDigit = true) : 48 ≤ c.toNat ∧ c.toNat ≤ 57 := by
  simp only [Char.isDigit, Bool.and_eq_true, decide_eq_true_eq, ge_iff_le, UInt32.le_iff_toNat_le] at h
  exact h

theorem byte_toNat {c : Char} (h : c.isDigit = true) : (byte c).toNat = c.toNat := by
  have := digit_range h
  rw [byte, BitVec.toNat_ofNat, Nat.mod_eq_of_lt (by omega)]

theorem isdigit_byte {c : Char} (h : c.isDigit = true) : isdigit (byte c) = true := by
  simp only [isdigit, BitVec.le_def, byte_toNat h, decide_eq_true_eq]
  exact digit_range h

theorem decimal_isdigit (n : Nat) : ∀ c ∈ decimal n, isdigit c = true := by
  intro c hc
  rw [decimal_natCast, List.mem_map] at hc
  obtain ⟨d, hd, rfl⟩ := hc
  exact isdigit_byte (Nat.isDigit_of_mem_toDigits (by decide) (by decide) hd)

/-- A number is written in digits, behind a sign if it is negative. -/
theorem decimal_mem {n : Int} {c : Byte} (h : c ∈ decimal n) : isdigit c = true ∨ c = byte '-' := by
  rw [decimal, Int.repr_eq_if] at h
  split at h
  · rename_i hn
    have := decimal_isdigit n.toNat c
    rw [decimal, Int.repr_eq_if, if_pos (Int.natCast_nonneg _), Int.toNat_natCast] at this
    exact .inl (this h)
  · rw [ascii, String.toList_append, List.map_append, List.mem_append] at h
    rcases h with h | h
    · right
      simpa using h
    · left
      have := decimal_isdigit (-n).toNat c
      rw [decimal, Int.repr_eq_if, if_pos (Int.natCast_nonneg _), Int.toNat_natCast] at this
      exact this h

theorem decimal_ne_nil (n : Nat) : decimal n ≠ [] := by
  rw [decimal_natCast, Ne, List.map_eq_nil_iff]
  exact Nat.toDigits_ne_nil

theorem digitsValue_decimal (n : Nat) : digitsValue (decimal n) = n := by
  have hchars : digitsValue (decimal n) = Nat.ofDigitChars 10 (Nat.toDigits 10 n) 0 := by
    rw [decimal_natCast, digitsValue, List.foldl_map, Nat.ofDigitChars_eq_foldl]
    refine List.foldl_ext _ _ 0 fun k c hc => ?_
    rw [byte_toNat (Nat.isDigit_of_mem_toDigits (by decide) (by decide) hc), byte_toNat (by decide)]
  rw [hchars, Nat.ofDigitChars_ten_toDigits]

/-- A digit begins a number, and neither a sign nor a space. -/
theorem digit_begins {c : Byte} : isdigit c = true → c ≠ 0 ∧ c ≠ byte '-' ∧ c ≠ byte '+' := by
  revert c
  decide +kernel

/-! ### C strings -/

theorem not_mem_cString (text : Bytes) : 0 ∉ cString text := by
  intro h
  simpa using List.mem_takeWhile_imp h

theorem cString_eq {text : Bytes} (h : 0 ∉ text) : cString text = text :=
  List.takeWhile_eq_self_iff.mpr fun c hc => by
    simp only [ne_eq, decide_not, Bool.not_eq_true', decide_eq_false_iff_not]
    exact fun heq => h (heq ▸ hc)

theorem cString_append {text : Bytes} (h : 0 ∉ text) (rest : Bytes) :
    cString (text ++ rest) = text ++ cString rest :=
  List.takeWhile_append_of_pos (List.takeWhile_eq_self_iff.mp (cString_eq h))

/-- Digits in a text are in front of its end. -/
theorem takeWhile_cString (text : Bytes) : (cString text).takeWhile isdigit = text.takeWhile isdigit := by
  rw [cString, List.takeWhile_takeWhile]
  refine congrArg (fun p => List.takeWhile p text) (funext fun c => ?_)
  cases hc : isdigit c with
  | true => simpa [hc] using (digit_begins hc).1
  | false => simp

theorem decimal_no_nul (n : Nat) : 0 ∉ decimal n := fun h => (digit_begins (decimal_isdigit n 0 h)).1 rfl

theorem digitsValue_append (digits digits' : Bytes) :
    digitsValue (digits ++ digits') = digitsValue digits * 10 ^ digits'.length + digitsValue digits' := by
  have hfrom : ∀ n, digits'.foldl (fun n c => 10 * n + (c.toNat - (byte '0').toNat)) n =
      n * 10 ^ digits'.length + digitsValue digits' := by
    unfold digitsValue
    induction digits' with
    | nil => simp
    | cons c digits' ih =>
      intro n
      rw [List.foldl_cons, List.foldl_cons, ih, ih (10 * 0 + _), List.length_cons, Nat.pow_succ]
      grind
  rw [digitsValue, List.foldl_append]
  exact hfrom _

/-! ### Numbers read -/

/-- A number in front of other text is read with the digits that follow. -/
theorem strtoll_append {digits rest : Bytes} (hne : digits ≠ []) (hdigits : ∀ c ∈ digits, isdigit c = true)
    (hrest : 0 ∉ rest) : strtoll (digits ++ rest) =
      some (min (digitsValue (digits ++ rest.takeWhile isdigit) : Int) (2 ^ 63 - 1),
        rest.drop (rest.takeWhile isdigit).length) := by
  obtain ⟨c, cs, rfl⟩ := List.exists_cons_of_ne_nil hne
  have hc := hdigits c (List.mem_cons_self ..)
  obtain ⟨-, hminus, hplus⟩ := digit_begins hc
  have hcString : (c :: cs ++ rest).takeWhile (· ≠ 0) = c :: cs ++ rest := by
    refine cString_eq fun h => ?_
    rcases List.mem_append.mp h with h | h
    · exact (digit_begins (hdigits 0 h)).1 rfl
    · exact hrest h
  have hspace : (c :: cs ++ rest).dropWhile isspace = c :: cs ++ rest :=
    List.dropWhile_cons_of_neg (by rw [not_isspace_of_isdigit hc]; decide)
  have hsign : takeSign (c :: cs ++ rest) = (false, c :: cs ++ rest) := by
    rw [List.cons_append, takeSign, if_neg hminus, if_neg hplus]
  have hbehind : (c :: cs ++ rest).drop (c :: cs ++ rest.takeWhile isdigit).length =
      rest.drop (rest.takeWhile isdigit).length := by
    rw [List.length_append, ← List.drop_drop, List.drop_left]
  simp only [strtoll, hcString, hspace, hsign, List.takeWhile_append_of_pos hdigits, hbehind]
  rw [if_neg (by simp), if_neg (by decide), Int.max_eq_right (by omega)]

/-- **Digits are read as the number they stand for.** -/
theorem strtoll_digits {digits : Bytes} (hne : digits ≠ []) (hdigits : ∀ c ∈ digits, isdigit c = true)
    (hmax : digitsValue digits < 2 ^ 63) : strtoll digits = some ((digitsValue digits : Int), []) := by
  have hread := strtoll_append hne hdigits List.not_mem_nil
  rw [List.append_nil, List.takeWhile_nil, List.append_nil] at hread
  rw [hread, Int.min_eq_left (by omega), List.drop_nil]

theorem strtoll_decimal {n : Nat} (hmax : n < 2 ^ 63) : strtoll (decimal n) = some ((n : Int), []) := by
  have := strtoll_digits (decimal_ne_nil n) (decimal_isdigit n) (by rwa [digitsValue_decimal])
  rwa [digitsValue_decimal] at this

/-- Of the number in front of other text `atoi` keeps the low bits. -/
theorem atoi_append {digits rest : Bytes} (hne : digits ≠ []) (hdigits : ∀ c ∈ digits, isdigit c = true)
    (hrest : 0 ∉ rest) : atoi (digits ++ rest) =
      (BitVec.ofInt 32 (min (digitsValue (digits ++ rest.takeWhile isdigit) : Int) (2 ^ 63 - 1))).toInt := by
  rw [atoi, strtoll_append hne hdigits hrest, Option.map_some, Option.getD_some]

/-- Digits of an `int` are read as the number they stand for. -/
theorem atoi_digits {digits : Bytes} (hne : digits ≠ []) (hdigits : ∀ c ∈ digits, isdigit c = true)
    (hmax : digitsValue digits < 2 ^ 31) : atoi digits = digitsValue digits := by
  rw [atoi, strtoll_digits hne hdigits (by omega), Option.map_some, Option.getD_some]
  exact BitVec.toInt_ofInt_eq_self (by decide) (by omega) (by omega)

end CoroutineRpc
