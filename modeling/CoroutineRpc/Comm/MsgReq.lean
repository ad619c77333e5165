import CoroutineRpc.Comm.Config
import CoroutineRpc.Library.Transition

/-! `MsgReqUtil`: the numbers of requests on one thread.

A number is seeded with random digits and counted up until it is all nines; then it is seeded
again. `none` is undefined behaviour, as in `Memory`: the loop over the nines at the end reads
before it compares its index. It stops at the last digit that is not a nine, and what it
leaves is the next number (`increment_value`), so the numbers between two seedings are all
different (`genMsgNumber_counts`). -/
namespace CoroutineRpc.Comm.MsgReqUtil
open Library.Transition

/-- The variables of a thread. -/
structure State where
  msgReqNu : Bytes := []
  maxMsgReqNu : Bytes := []
deriving DecidableEq

def msgReqLen (config : Option Config) : Int :=
  match config with
  | none => 20
  | some config => config.msgReqLen

/-- `t_msg_req_nu[i]`. -/
def charAt (nu : Bytes) (i : Int) : Option Byte := if 0 ≤ i then nu[i.toNat]? else none

/-- The loop over the nines at the end, from the index before `next`. -/
def skipNines (nu : Bytes) : (next : Nat) → Option Int
  | 0 => do
    -- the index is compared when the character has been read
    let _ ← charAt nu (-1)
    pure (-1)
  | i + 1 => do
    let c ← charAt nu i
    if c = byte '9' then skipNines nu i else pure i

/-- The loop that sets `count` digits from `j` on to zero. -/
def setZeros : (count : Nat) → (j : Nat) → Bytes → Bytes
  | 0, _, nu => nu
  | count + 1, j, nu => setZeros count (j + 1) (nu.set j (byte '0'))

def increment (nu : Bytes) : Option Bytes := do
  let i ← skipNines nu nu.length
  if 0 ≤ i then
    let c ← charAt nu i
    pure (setZeros (nu.length - (i.toNat + 1)) (i.toNat + 1) (nu.set i.toNat (c + 1)))
  else pure nu

/-- A random byte becomes a digit. -/
def toDigit (c : Byte) : Byte := c % 10 + byte '0'

def nines (len : Nat) : Bytes := List.replicate len (byte '9')

/-- The next call seeds the number. -/
def Reseeds (s : State) : Prop := s.msgReqNu = [] ∨ s.msgReqNu = s.maxMsgReqNu

instance (s : State) : Decidable (Reseeds s) := inferInstanceAs (Decidable (_ ∨ _))

/-- `res` is what `read` gives of `/dev/urandom`, if it is read. -/
def genMsgNumber (config : Option Config) (s : State) (res : Bytes) : Option (State × Bytes) :=
  let len := msgReqLen config
  if Reseeds s then
    -- a string of negative length is not made
    if len < 0 then none
    else if (res.length : Int) ≠ len then pure (s, [])
    else
      let nu := res.map toDigit
      pure (⟨nu, nines len.toNat⟩, nu)
  else do
    let nu ← increment s.msgReqNu
    pure ({s with msgReqNu := nu}, nu)

/-- The state that calls leave, and the numbers that they return. -/
def calls (config : Option Config) : State → List Bytes → Option (State × List Bytes)
  | s, [] => some (s, [])
  | s, res :: more => do
    let (s, id) ← genMsgNumber config s res
    let (s, ids) ← calls config s more
    pure (s, id :: ids)

/-! ### The next number -/

theorem digitsValue_cons (c : Byte) (rest : Bytes) :
    digitsValue (c :: rest) = (c.toNat - 48) * 10 ^ rest.length + digitsValue rest := by
  have h := digitsValue_append [c] rest
  rw [show digitsValue [c] = c.toNat - 48 from Nat.zero_add _] at h
  exact h

theorem digitsValue_nines (n : Nat) : digitsValue (nines n) + 1 = 10 ^ n := by
  induction n with
  | zero => rfl
  | succ n ih =>
    rw [nines, List.replicate_succ, digitsValue_cons, List.length_replicate, Nat.pow_succ]
    have h : digitsValue (List.replicate n (byte '9')) + 1 = 10 ^ n := ih
    rw [show (byte '9').toNat - 48 = 9 by decide]
    omega

theorem digitsValue_zeros (n : Nat) : digitsValue (List.replicate n (byte '0')) = 0 := by
  induction n with
  | zero => rfl
  | succ n ih =>
    rw [List.replicate_succ, digitsValue_cons, ih, show (byte '0').toNat - 48 = 0 by decide, Nat.zero_mul]

/-- A number that is not all nines ends in a digit that is none and some nines. -/
theorem eq_nines_or (nu : Bytes) :
    nu = nines nu.length ∨ ∃ front c n, nu = front ++ c :: nines n ∧ c ≠ byte '9' := by
  induction nu using List.reverseRecOn with
  | nil => exact .inl rfl
  | append_singleton nu c ih =>
    by_cases hc : c = byte '9'
    · subst hc
      rcases ih with h | ⟨front, d, n, rfl, hd⟩
      · refine .inl ?_
        rw [List.length_append, List.length_singleton, nines, List.replicate_succ', ← nines, ← h]
      · refine .inr ⟨front, d, n + 1, ?_, hd⟩
        rw [nines, nines, List.replicate_succ']
        simp
    · exact .inr ⟨nu, c, 0, rfl, hc⟩

theorem charAt_some {nu : Bytes} {i : Nat} {c : Byte} (h : nu[i]? = some c) : charAt nu i = some c :=
  (if_pos (Int.natCast_nonneg i)).trans h

/-- **The loop stops inside the number**, at the last digit that is not a nine. -/
theorem skipNines_eq {front : Bytes} {c : Byte} (hc : c ≠ byte '9') (n : Nat) {k : Nat} (hk : k ≤ n) :
    skipNines (front ++ c :: nines n) (front.length + 1 + k) = some (front.length : Int) := by
  induction k with
  | zero =>
    have hchar : (front ++ c :: nines n)[front.length]? = some c := by simp
    rw [Nat.add_zero, skipNines, charAt_some hchar]
    exact if_neg hc
  | succ k ih =>
    have hchar : (front ++ c :: nines n)[front.length + 1 + k]? = some (byte '9') := by
      rw [List.getElem?_append_right (by omega), show front.length + 1 + k - front.length = k + 1 by omega,
        List.getElem?_cons_succ, nines, List.getElem?_replicate, if_pos (by omega)]
    rw [← Nat.add_assoc, skipNines, charAt_some hchar]
    rw [Option.bind_eq_bind, Option.bind_some, if_pos rfl]
    exact ih (by omega)

theorem setZeros_eq (front rest : Bytes) :
    setZeros rest.length front.length (front ++ rest) = front ++ List.replicate rest.length (byte '0') := by
  induction rest generalizing front with
  | nil => rfl
  | cons c rest ih =>
    have hset : (front ++ c :: rest).set front.length (byte '0') = front ++ [byte '0'] ++ rest := by simp
    have hlength : front.length + 1 = (front ++ [byte '0']).length := by simp
    rw [List.length_cons, setZeros, hset, hlength, ih, List.replicate_succ]
    simp

/-- The digit goes up and the nines become zeros. -/
theorem increment_eq (front : Bytes) {c : Byte} (hc : c ≠ byte '9') (n : Nat) :
    increment (front ++ c :: nines n) = some (front ++ (c + 1) :: List.replicate n (byte '0')) := by
  have hlength : (front ++ c :: nines n).length = front.length + 1 + n := by
    simp only [List.length_append, List.length_cons, nines, List.length_replicate]
    omega
  have hchar : charAt (front ++ c :: nines n) front.length = some c := charAt_some (by simp)
  have hset : (front ++ c :: nines n).set front.length (c + 1) = front ++ [c + 1] ++ nines n := by simp
  have hzeros := setZeros_eq (front ++ [c + 1]) (nines n)
  rw [nines, List.length_replicate, List.length_append, List.length_singleton, ← nines] at hzeros
  rw [increment, hlength, skipNines_eq hc n (Nat.le_refl n), Option.bind_eq_bind, Option.bind_some,
    if_pos (Int.natCast_nonneg _), hchar, Option.bind_eq_bind, Option.bind_some, Int.toNat_natCast,
    Nat.add_sub_cancel_left, hset, hzeros]
  simp

/-- Digits, as many as numbers have. -/
structure IsNumber (len : Nat) (nu : Bytes) : Prop where
  length : nu.length = len
  digits : ∀ c ∈ nu, isdigit c = true

theorem isdigit_succ {c : Byte} (h : isdigit c = true) (hc : c ≠ byte '9') :
    isdigit (c + 1) = true ∧ (c + 1).toNat - 48 = c.toNat - 48 + 1 := by
  revert h hc
  revert c
  decide

/-- **The next number is one more**, and as long. -/
theorem increment_value {len : Nat} {nu : Bytes} (h : IsNumber len nu) (hnines : nu ≠ nines len) :
    ∃ next, increment nu = some next ∧ IsNumber len next ∧ digitsValue next = digitsValue nu + 1 := by
  rcases eq_nines_or nu with hall | ⟨front, c, n, rfl, hc⟩
  · exact absurd (h.length ▸ hall) hnines
  · obtain ⟨hdigit, hvalue⟩ := isdigit_succ (h.digits c (by simp)) hc
    refine ⟨_, increment_eq front hc n, ⟨?_, fun d hd => ?_⟩, ?_⟩
    · rw [← h.length]
      simp [nines]
    · rcases List.mem_append.mp hd with hd | hd
      · exact h.digits d (List.mem_append_left _ hd)
      · rcases List.mem_cons.mp hd with rfl | hd
        · exact hdigit
        · rw [List.eq_of_mem_replicate hd]
          decide
    · have hpow := digitsValue_nines n
      rw [digitsValue_append, digitsValue_append, digitsValue_cons, digitsValue_cons, digitsValue_zeros, hvalue]
      simp only [List.length_cons, nines, List.length_replicate] at hpow ⊢
      rw [Nat.add_mul, Nat.one_mul]
      omega

/-! ### Calls -/

variable {config : Option Config}

/-- A thread that has a number. -/
structure Counting (config : Option Config) (s : State) : Prop where
  number : IsNumber (msgReqLen config).toNat s.msgReqNu
  max : s.maxMsgReqNu = nines (msgReqLen config).toNat

def step (config : Option Config) (s : State) (res : Bytes) : Option State :=
  (genMsgNumber config s res).map Prod.fst

theorem isdigit_toDigit (c : Byte) : isdigit (toDigit c) = true := by
  revert c
  decide

theorem genMsgNumber_seeds (hlen : 1 ≤ msgReqLen config) {s : State} (h : Reseeds s) {res : Bytes}
    (hres : (res.length : Int) = msgReqLen config) :
    ∃ t, genMsgNumber config s res = some (t, t.msgReqNu) ∧ Counting config t := by
  refine ⟨⟨res.map toDigit, nines (msgReqLen config).toNat⟩, ?_, ⟨?_, fun c hc => ?_⟩, rfl⟩
  · rw [genMsgNumber, if_pos h, if_neg (by omega), if_neg (not_not_intro hres)]
    rfl
  · rw [List.length_map]
    omega
  · obtain ⟨d, -, rfl⟩ := List.mem_map.mp hc
    exact isdigit_toDigit d

theorem Counting.not_reseeds (hlen : 1 ≤ msgReqLen config) {s : State} (h : Counting config s) :
    ¬ Reseeds s ↔ s.msgReqNu ≠ nines (msgReqLen config).toNat := by
  have hne : s.msgReqNu ≠ [] := List.ne_nil_of_length_pos (by rw [h.number.length]; omega)
  rw [Reseeds, h.max, not_or]
  exact ⟨And.right, fun hnines => ⟨hne, hnines⟩⟩

/-- **A number that is not all nines is counted up**, whatever would be read. -/
theorem Counting.next (hlen : 1 ≤ msgReqLen config) {s : State} (h : Counting config s) (hs : ¬ Reseeds s)
    (res : Bytes) : ∃ t, genMsgNumber config s res = some (t, t.msgReqNu) ∧ Counting config t ∧
      digitsValue t.msgReqNu = digitsValue s.msgReqNu + 1 := by
  obtain ⟨next, hnext, hnumber, hvalue⟩ := increment_value h.number ((h.not_reseeds hlen).mp hs)
  refine ⟨{s with msgReqNu := next}, ?_, ⟨hnumber, h.max⟩, hvalue⟩
  rw [genMsgNumber, if_neg hs, hnext]
  rfl

/-- A call leaves a number, whatever was there. -/
theorem genMsgNumber_some (hlen : 1 ≤ msgReqLen config) {s : State} (h : Reseeds s ∨ Counting config s)
    {res : Bytes} (hres : (res.length : Int) = msgReqLen config) :
    ∃ t, genMsgNumber config s res = some (t, t.msgReqNu) ∧ Counting config t := by
  by_cases hs : Reseeds s
  · exact genMsgNumber_seeds hlen hs hres
  · obtain ⟨t, ht, hcounting, -⟩ := (h.resolve_left hs).next hlen hs res
    exact ⟨t, ht, hcounting⟩

theorem calls_cons {s t u : State} {res id : Bytes} {more ids : List Bytes}
    (ht : genMsgNumber config s res = some (t, id)) (hu : calls config t more = some (u, ids)) :
    calls config s (res :: more) = some (u, id :: ids) := by
  simp [calls, ht, hu]

theorem calls_some (hlen : 1 ≤ msgReqLen config) {s : State} (h : Reseeds s ∨ Counting config s)
    {reads : List Bytes} (hreads : ∀ res ∈ reads, (res.length : Int) = msgReqLen config) :
    ∃ t ids, calls config s reads = some (t, ids) ∧ (Reseeds t ∨ Counting config t) ∧
      (reads ≠ [] → Counting config t) := by
  induction reads generalizing s with
  | nil => exact ⟨s, [], rfl, h, fun hne => absurd rfl hne⟩
  | cons res more ih =>
    obtain ⟨t, ht, hcounting⟩ := genMsgNumber_some hlen h (hreads res (List.mem_cons_self ..))
    obtain ⟨u, ids, hu, hlast, hmore⟩ := ih (.inr hcounting) fun r hr => hreads r (List.mem_cons_of_mem res hr)
    refine ⟨u, t.msgReqNu :: ids, calls_cons ht hu, hlast, fun _ => ?_⟩
    cases more with
    | nil =>
      obtain rfl : t = u := (Prod.mk.inj (Option.some.inj hu)).1
      exact hcounting
    | cons r rest => exact hmore (List.cons_ne_nil r rest)

/-- Until the next seeding each number is above those before it. -/
theorem calls_ascend (hlen : 1 ≤ msgReqLen config) {s : State} (h : Counting config s) {reads : List Bytes}
    (hs : Meets (step config) (fun t _ => ¬ Reseeds t) s reads) :
    ∃ t ids, calls config s reads = some (t, ids) ∧
      (s.msgReqNu :: ids).Pairwise fun id id' => digitsValue id < digitsValue id' := by
  induction reads generalizing s with
  | nil => exact ⟨s, [], rfl, List.pairwise_singleton _ _⟩
  | cons res more ih =>
    obtain ⟨t, ht, hcounting, hvalue⟩ := h.next hlen hs.1 res
    obtain ⟨u, ids, hu, hascend⟩ := ih hcounting (hs.2 t (by rw [step, ht]; rfl))
    refine ⟨u, t.msgReqNu :: ids, calls_cons ht hu, List.pairwise_cons.mpr ⟨fun id hid => ?_, hascend⟩⟩
    rcases List.mem_cons.mp hid with rfl | hid
    · omega
    · have := (List.pairwise_cons.mp hascend).1 id hid
      omega

/-- **Request numbers count up.** After any calls the number has its digits, the next is one more
unless it is all nines, and those from one seeding to the next are all different. -/
theorem genMsgNumber_counts (hlen : 1 ≤ msgReqLen config) {reads : List Bytes}
    (hreads : ∀ res ∈ reads, (res.length : Int) = msgReqLen config) :
    ∃ s ids, calls config {} reads = some (s, ids) ∧
      (reads ≠ [] → IsNumber (msgReqLen config).toNat s.msgReqNu) ∧
      (reads ≠ [] → s.msgReqNu ≠ nines (msgReqLen config).toNat → ∀ res, ∃ t,
        genMsgNumber config s res = some (t, t.msgReqNu) ∧ IsNumber (msgReqLen config).toNat t.msgReqNu ∧
          digitsValue t.msgReqNu = digitsValue s.msgReqNu + 1) ∧
      ∀ first more, (first.length : Int) = msgReqLen config →
        (∀ t, step config s first = some t → Meets (step config) (fun t _ => ¬ Reseeds t) t more) →
          ∃ u ids, calls config s (first :: more) = some (u, ids) ∧ ids.Nodup := by
  have hfresh : Reseeds {} := .inl rfl
  obtain ⟨s, ids, hs, hstate, hcounting⟩ := calls_some hlen (.inl hfresh) hreads
  refine ⟨s, ids, hs, fun hne => (hcounting hne).number, fun hne hnines res => ?_,
    fun first more hfirst hmore => ?_⟩
  · obtain ⟨t, ht, hnumber, hvalue⟩ :=
      (hcounting hne).next hlen (((hcounting hne).not_reseeds hlen).mpr hnines) res
    exact ⟨t, ht, hnumber.number, hvalue⟩
  · obtain ⟨t, ht, hnumber⟩ := genMsgNumber_some hlen hstate hfirst
    obtain ⟨u, ids, hu, hascend⟩ := calls_ascend hlen hnumber (hmore t (by rw [step, ht]; rfl))
    refine ⟨u, t.msgReqNu :: ids, calls_cons ht hu, hascend.imp fun hlt heq => ?_⟩
    rw [heq] at hlt
    exact Nat.lt_irrefl _ hlt

theorem genMsgNumber_counts_instance : calls (some {msgReqLen := 3}) {} [[1, 9, 209], [], []] =
    some (⟨ascii "201", ascii "999"⟩, [ascii "199", ascii "200", ascii "201"]) ∧
    IsNumber 3 (ascii "199") := by
  refine ⟨by decide, ?_⟩
  obtain ⟨s, ids, hs, hnumber, -⟩ :=
    @genMsgNumber_counts (some {msgReqLen := 3}) (by decide) [[1, 9, 209]] (by decide)
  have hcalls : calls (some {msgReqLen := 3}) {} [[1, 9, 209]] =
      some (⟨ascii "199", ascii "999"⟩, [ascii "199"]) := by decide
  obtain ⟨rfl, -⟩ := Prod.mk.inj (Option.some.inj (hs.symm.trans hcalls))
  exact hnumber (List.cons_ne_nil _ _)

end CoroutineRpc.Comm.MsgReqUtil
