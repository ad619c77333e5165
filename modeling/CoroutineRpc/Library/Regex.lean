import Mathlib.Data.List.Infix
import Mathlib.Data.List.TakeWhile

/-! Regular expressions that are a row of items, matched with backtracking.

An item is what it may match at a place, in the order in which it is tried; `run` takes the
first way through all items. `Takes` and `Fails` say what a row does whatever stands in front,
and have a rule for each kind of item: a greedy item takes its whole run when the items behind
it go on from there, and a row fails on a run when the items behind it reject what the run is
made of. `scan` goes over a text and starts a match wherever it can: `find` keeps the matches,
`remove` what is between them. -/
namespace Library.Regex
variable {α : Type}

/-- How many elements an item may match, given the element in front of the place and the
elements behind it, in the order in which the lengths are tried. -/
abbrev Item (α : Type) := Option α → List α → List Nat

/-- A test of the elements on both sides of a place. -/
def look (test : Option α → Option α → Bool) : Item α :=
  fun prev text => if test prev text.head? then [0] else []

def lit [DecidableEq α] (literal : List α) : Item α :=
  fun _ text => if literal <+: text then [literal.length] else []

/-- As many as there are, but `least` at least. -/
def many (least : Nat) (inside : α → Bool) : Item α :=
  fun _ text => (List.range' least ((text.takeWhile inside).length + 1 - least)).reverse

/-- Anything, as few as possible. -/
def lazy : Item α := fun _ text => List.range (text.length + 1)

/-- One of a kind, and then as many of another kind as there are. -/
def word (head tail : α → Bool) : Item α
  | _, [] => []
  | _, c :: text => if head c then (List.range' 1 ((text.takeWhile tail).length + 1)).reverse else []

/-- The element in front of a place behind `text`. -/
def lastOf (prev : Option α) (text : List α) : Option α := text.getLast?.or prev

/-- What each item matches, and what is left. -/
def run : List (Item α) → Option α → List α → Option (List (List α) × List α)
  | [], _, text => some ([], text)
  | item :: items, prev, text =>
    (item prev text).findSome? fun n =>
      (run items (lastOf prev (text.take n)) (text.drop n)).map fun out => (text.take n :: out.1, out.2)

/-- The first place where the row matches. -/
def search (items : List (Item α)) : Option α → List α → Option (List (List α) × List α)
  | prev, [] => run items prev []
  | prev, c :: text =>
    match run items prev (c :: text) with
    | some out => some out
    | none => search items (some c) text

/-- The matches, and the elements outside them; `skip` elements are inside the last match. A
match must not be empty. -/
def scan (items : List (Item α)) : Option α → (skip : Nat) → List α → List (List (List α) ⊕ α)
  | _, _, [] => []
  | _, skip + 1, c :: text => scan items (some c) skip text
  | prev, 0, c :: text =>
    match run items prev (c :: text) with
    | some (parts, after) => .inl parts :: scan items (some c) (text.length - after.length) text
    | none => .inr c :: scan items (some c) 0 text

def find (items : List (Item α)) (prev : Option α) (text : List α) : List (List (List α)) :=
  (scan items prev 0 text).filterMap Sum.getLeft?

def remove (items : List (Item α)) (text : List α) : List α :=
  (scan items none 0 text).filterMap Sum.getRight?

/-! ### What a row takes -/

theorem run_of_head {item : Item α} {items : List (Item α)} {prev : Option α} {front rest after : List α}
    {parts : List (List α)} (h : (item prev (front ++ rest)).head? = some front.length)
    (hrun : run items (lastOf prev front) rest = some (parts, after)) :
    run (item :: items) prev (front ++ rest) = some (front :: parts, after) := by
  obtain ⟨more, hmore⟩ : ∃ more, item prev (front ++ rest) = front.length :: more := by
    cases hitem : item prev (front ++ rest) with
    | nil => simp [hitem] at h
    | cons n more =>
      rw [hitem, List.head?_cons, Option.some.injEq] at h
      exact ⟨more, by rw [h]⟩
  rw [run, hmore, List.findSome?_cons, List.take_left, List.drop_left, hrun]
  rfl

/-- The row matches here, whatever stands in front. -/
def Takes (items : List (Item α)) (text : List α) (parts : List (List α)) (after : List α) : Prop :=
  ∀ prev, run items prev text = some (parts, after)

/-- The row does not match here, whatever stands in front. -/
def Fails (items : List (Item α)) (text : List α) : Prop := ∀ prev, run items prev text = none

section Takes
variable {items : List (Item α)} {rest after : List α} {parts : List (List α)}

theorem Takes.nil (text : List α) : Takes [] text [] text := fun _ => rfl

theorem Takes.lit [DecidableEq α] (literal : List α) (h : Takes items rest parts after) :
    Takes (lit literal :: items) (literal ++ rest) (literal :: parts) after := fun prev => by
  refine run_of_head ?_ (h _)
  rw [Regex.lit, if_pos (List.prefix_append _ _)]
  rfl

theorem takeWhile_run {inside : α → Bool} {front rest : List α} (h : ∀ c ∈ front, inside c = true)
    (hrest : ∀ c ∈ rest.head?, inside c = false) : (front ++ rest).takeWhile inside = front := by
  rw [List.takeWhile_append_of_pos h]
  cases rest with
  | nil => rw [List.takeWhile_nil, List.append_nil]
  | cons c rest => rw [List.takeWhile_cons_of_neg (by simp [hrest c rfl]), List.append_nil]

theorem Takes.many {least : Nat} {inside : α → Bool} {front : List α} (hfront : ∀ c ∈ front, inside c = true)
    (hrest : ∀ c ∈ rest.head?, inside c = false) (hleast : least ≤ front.length)
    (h : Takes items rest parts after) :
    Takes (many least inside :: items) (front ++ rest) (front :: parts) after := fun prev => by
  refine run_of_head ?_ (h _)
  rw [Regex.many, takeWhile_run hfront hrest, List.head?_reverse]
  obtain ⟨n, hn⟩ : ∃ n, front.length + 1 - least = n + 1 := ⟨front.length - least, by omega⟩
  rw [hn, List.range'_concat, List.getLast?_append, List.getLast?_singleton, Option.some_or]
  congr 1
  omega

/-- Anything up to the first place from where the row goes on. -/
theorem Takes.lazy {front : List α} (h : Takes items rest parts after)
    (hfails : ∀ n < front.length, Fails items ((front ++ rest).drop n)) :
    Takes (lazy :: items) (front ++ rest) (front :: parts) after := fun prev => by
  have hrange : List.range ((front ++ rest).length + 1) =
      List.range front.length ++ (List.range' front.length (rest.length + 1)) := by
    have happend := List.range'_append_1 (s := 0) (m := front.length) (n := rest.length + 1)
    rw [Nat.zero_add] at happend
    rw [List.range_eq_range', List.range_eq_range', List.length_append, Nat.add_assoc, happend]
  have hnone : (List.range front.length).findSome? (fun n =>
      (run items (lastOf prev ((front ++ rest).take n)) ((front ++ rest).drop n)).map
        fun out => ((front ++ rest).take n :: out.1, out.2)) = none := by
    rw [List.findSome?_eq_none_iff]
    intro n hn
    rw [hfails n (List.mem_range.mp hn), Option.map_none]
  rw [run, Regex.lazy, hrange, List.findSome?_append, hnone, Option.none_or, List.range'_succ,
    List.findSome?_cons, List.take_left, List.drop_left, h]
  rfl

theorem Takes.word {head tail : α → Bool} {c : α} {front : List α} (hc : head c = true)
    (hfront : ∀ d ∈ front, tail d = true) (hrest : ∀ d ∈ rest.head?, tail d = false)
    (h : Takes items rest parts after) :
    Takes (word head tail :: items) (c :: front ++ rest) ((c :: front) :: parts) after := fun prev => by
  refine run_of_head ?_ (h _)
  rw [List.cons_append, Regex.word, if_pos hc, takeWhile_run hfront hrest, List.head?_reverse,
    List.range'_concat, List.getLast?_append, List.getLast?_singleton, Option.some_or, List.length_cons]
  congr 1
  omega

theorem run_look (test : Option α → Option α → Bool) (prev : Option α) (text : List α) :
    run (look test :: items) prev text = if test prev text.head? then
      (run items prev text).map fun out => ([] :: out.1, out.2) else none := by
  rw [run, look]
  split
  · rw [List.findSome?_singleton, List.take_zero, List.drop_zero]
    rfl
  · rfl

end Takes

/-! ### What a row does not take -/

theorem fails_of_lengths {item : Item α} {items : List (Item α)} {text : List α}
    (h : ∀ prev, ∀ n ∈ item prev text, Fails items (text.drop n)) : Fails (item :: items) text := fun prev => by
  rw [run, List.findSome?_eq_none_iff]
  intro n hn
  rw [h prev n hn, Option.map_none]

section Fails
variable {items : List (Item α)} {text rest : List α}

theorem Fails.look (h : Fails items text) (test : Option α → Option α → Bool) :
    Fails (look test :: items) text := fun prev => by
  rw [run_look, h prev]
  split
  · rfl
  · rfl

theorem Fails.of_not_prefix [DecidableEq α] {literal : List α} (h : ¬ literal <+: text) :
    Fails (Regex.lit literal :: items) text := by
  refine fails_of_lengths fun prev n hn => ?_
  rw [Regex.lit, if_neg h] at hn
  cases hn

theorem Fails.lit [DecidableEq α] (literal : List α) (h : Fails items rest) :
    Fails (Regex.lit literal :: items) (literal ++ rest) := by
  refine fails_of_lengths fun prev n hn => ?_
  rw [Regex.lit, if_pos (List.prefix_append _ _), List.mem_singleton] at hn
  rw [hn, List.drop_left]
  exact h

/-- A greedy item has no part of its run from where the row goes on. -/
theorem Fails.of_splits {least : Nat} {inside : α → Bool}
    (h : ∀ front rest, text = front ++ rest → (∀ c ∈ front, inside c = true) → least ≤ front.length →
      Fails items rest) : Fails (many least inside :: items) text := by
  refine fails_of_lengths fun prev n hn => ?_
  rw [Regex.many, List.mem_reverse, List.mem_range'_1] at hn
  have hle : (text.takeWhile inside).length ≤ text.length := (List.takeWhile_prefix inside).length_le
  refine h (text.take n) (text.drop n) (List.take_append_drop n text).symm (fun c hc => ?_) ?_
  · have htake : text.take n <+: text.takeWhile inside :=
      List.prefix_of_prefix_length_le (List.take_prefix n text) (List.takeWhile_prefix inside)
        (by rw [List.length_take]; omega)
    exact List.mem_takeWhile_imp (htake.subset hc)
  · rw [List.length_take]
    omega

/-- The row does not match where an element of this kind stands. -/
def Rejects (items : List (Item α)) (kind : α → Bool) : Prop := ∀ c rest, kind c = true → Fails items (c :: rest)

/-- A part of a run is the whole, or something of the run is left. -/
theorem split_run {kind : α → Bool} {run rest front back : List α} (hrun : ∀ c ∈ run, kind c = true)
    (hrest : ∀ c ∈ rest.head?, kind c = false) (h : run ++ rest = front ++ back)
    (hfront : ∀ c ∈ front, kind c = true) :
    front = run ∧ back = rest ∨ ∃ c more, back = c :: more ∧ kind c = true := by
  rcases List.append_eq_append_iff.mp h with ⟨more, rfl, rfl⟩ | ⟨more, rfl, rfl⟩
  · cases more with
    | nil => exact .inl ⟨by simp, by simp⟩
    | cons c more =>
      have hc := hfront c (by simp)
      rw [hrest c rfl] at hc
      cases hc
  · cases more with
    | nil => exact .inl ⟨by simp, by simp⟩
    | cons c more => exact .inr ⟨c, more ++ rest, rfl, hrun c (by simp)⟩

theorem Fails.many {least : Nat} {inside : α → Bool} {front : List α} (hfront : ∀ c ∈ front, inside c = true)
    (hrest : ∀ c ∈ rest.head?, inside c = false) (hrejects : Rejects items inside) (h : Fails items rest) :
    Fails (many least inside :: items) (front ++ rest) := by
  refine Fails.of_splits fun part back hpart hinside _ => ?_
  rcases split_run hfront hrest hpart hinside with ⟨-, rfl⟩ | ⟨c, more, rfl, hc⟩
  · exact h
  · exact hrejects c more hc

theorem Fails.of_head {head tail : α → Bool} (h : ∀ c ∈ text.head?, head c = false) :
    Fails (word head tail :: items) text := by
  refine fails_of_lengths fun prev n hn => ?_
  cases text with
  | nil => cases hn
  | cons c text =>
    rw [Regex.word, h c rfl] at hn
    cases hn

theorem Fails.word {head tail kind : α → Bool} {c : α} {front : List α}
    (hkind : ∀ d, kind d = true → tail d = true) (hfront : ∀ d ∈ front, kind d = true)
    (hrest : ∀ d ∈ rest.head?, tail d = false) (hrejects : Rejects items kind) (h : Fails items rest) :
    Fails (word head tail :: items) (c :: front ++ rest) := by
  refine fails_of_lengths fun prev n hn => ?_
  rw [List.cons_append, Regex.word] at hn
  split at hn
  · rw [takeWhile_run (fun d hd => hkind d (hfront d hd)) hrest, List.mem_reverse, List.mem_range'_1] at hn
    obtain ⟨k, rfl⟩ : ∃ k, n = k + 1 := ⟨n - 1, by omega⟩
    have htake : (front ++ rest).take k = front.take k := List.take_append_of_le_length (by omega)
    have hoff : ∀ d ∈ rest.head?, kind d = false := fun d hd => by
      have := hrest d hd
      exact Bool.eq_false_iff.mpr fun hd' => by simp [hkind d hd'] at this
    rcases split_run hfront hoff (List.take_append_drop k (front ++ rest)).symm
        (fun d hd => hfront d (List.mem_of_mem_take (htake ▸ hd))) with ⟨-, hdrop⟩ | ⟨d, more, hdrop, hd⟩
    · rw [List.cons_append, List.drop_succ_cons, hdrop]
      exact h
    · rw [List.cons_append, List.drop_succ_cons, hdrop]
      exact hrejects d more hd
  · cases hn

/-- A greedy item that must match something fails where nothing of its kind stands. -/
theorem Fails.many_head {least : Nat} {inside : α → Bool} (hleast : 1 ≤ least)
    (h : ∀ c ∈ text.head?, inside c = false) : Fails (Regex.many least inside :: items) text := by
  refine Fails.of_splits fun front back hback hinside hlength => ?_
  obtain ⟨c, front, rfl⟩ := List.exists_cons_of_length_pos (Nat.le_trans hleast hlength)
  have hc := h c (by rw [hback]; rfl)
  rw [hinside c (List.mem_cons_self ..)] at hc
  cases hc

theorem Rejects.lit [DecidableEq α] {kind : α → Bool} {d : α} (literal : List α) (h : kind d = false) :
    Rejects (Regex.lit (d :: literal) :: items) kind := fun c rest hc => by
  refine Fails.of_not_prefix fun hbegins => ?_
  obtain ⟨rfl, -⟩ := List.cons_prefix_cons.mp hbegins
  rw [h] at hc
  cases hc

theorem Rejects.many {kind inside : α → Bool} (hkind : ∀ c, kind c = true → inside c = false) {least : Nat}
    (h : Rejects items kind) : Rejects (many least inside :: items) kind := fun c rest hc => by
  refine Fails.of_splits fun front back hback hinside hleast => ?_
  cases front with
  | nil =>
    rw [List.nil_append] at hback
    exact hback ▸ h c rest hc
  | cons d front =>
    obtain ⟨rfl, -⟩ := List.cons.inj hback
    have := hinside c (List.mem_cons_self ..)
    rw [hkind c hc] at this
    cases this

theorem Rejects.word {kind head tail : α → Bool} (hkind : ∀ c, kind c = true → head c = false) :
    Rejects (word head tail :: items) kind := fun c rest hc =>
  Fails.of_head fun d hd => by
    obtain rfl := Option.some.inj hd
    exact hkind _ hc

end Fails

/-! ### Parts and rest -/

theorem run_append {items : List (Item α)} {prev : Option α} {text after : List α} {parts : List (List α)}
    (h : run items prev text = some (parts, after)) : parts.flatten ++ after = text := by
  induction items generalizing prev text parts with
  | nil =>
    obtain ⟨rfl, rfl⟩ := Prod.mk.inj (Option.some.inj h)
    rfl
  | cons item items ih =>
    obtain ⟨n, -, hn⟩ := List.exists_of_findSome?_eq_some h
    obtain ⟨out, hout, heq⟩ := Option.map_eq_some_iff.mp hn
    obtain ⟨rfl, rfl⟩ := Prod.mk.inj heq
    rw [List.flatten_cons, List.append_assoc, ih hout, List.take_append_drop]

/-- A row with a literal in it matches something. -/
theorem run_lit_length [DecidableEq α] {items : List (Item α)} {literal : List α} (hlit : lit literal ∈ items)
    {prev : Option α} {text after : List α} {parts : List (List α)}
    (h : run items prev text = some (parts, after)) : after.length + literal.length ≤ text.length := by
  induction items generalizing prev text parts with
  | nil => cases hlit
  | cons item items ih =>
    obtain ⟨n, hmem, hn⟩ := List.exists_of_findSome?_eq_some h
    obtain ⟨out, hout, heq⟩ := Option.map_eq_some_iff.mp hn
    obtain ⟨-, rfl⟩ := Prod.mk.inj heq
    have hlength := congrArg List.length (run_append hout)
    rw [List.length_append, List.length_drop] at hlength
    rcases List.mem_cons.mp hlit with heq | hlit
    · rw [← heq, lit] at hmem
      split at hmem
      · rename_i hbegins
        have := hbegins.length_le
        rw [List.mem_singleton.mp hmem] at hlength
        omega
      · cases hmem
    · have := ih hlit hout
      rw [List.length_drop] at this
      omega

theorem search_here {items : List (Item α)} {prev : Option α} {text : List α} {out : List (List α) × List α}
    (h : run items prev text = some out) : search items prev text = some out := by
  cases text with
  | nil => exact h
  | cons c text => rw [search, h]

theorem search_none {items : List (Item α)} {text : List α} (h : ∀ rest, rest <:+ text → Fails items rest)
    (prev : Option α) : search items prev text = none := by
  induction text generalizing prev with
  | nil => exact h [] List.suffix_rfl prev
  | cons c text ih =>
    rw [search, h _ List.suffix_rfl]
    exact ih (fun rest hrest => h rest (hrest.trans (List.suffix_cons c text))) (some c)

theorem search_lit_length [DecidableEq α] {items : List (Item α)} {literal : List α}
    (hlit : lit literal ∈ items) {prev : Option α} {text after : List α} {parts : List (List α)}
    (h : search items prev text = some (parts, after)) : after.length + literal.length ≤ text.length := by
  induction text generalizing prev with
  | nil => exact run_lit_length hlit h
  | cons c text ih =>
    rw [search] at h
    split at h
    · rename_i hrun
      rw [h] at hrun
      exact run_lit_length hlit hrun
    · exact Nat.le_succ_of_le (ih h)

/-! ### All matches -/

section Scan
variable {items : List (Item α)} {prev : Option α} {front rest : List α} {parts : List (List α)}

theorem lastOf_cons (prev : Option α) (c : α) (text : List α) : lastOf (some c) text = lastOf prev (c :: text) := by
  rw [lastOf, lastOf, List.getLast?_cons]
  cases text.getLast? with
  | none => rfl
  | some d => rfl

theorem scan_skip (front rest : List α) : scan items prev front.length (front ++ rest) =
    scan items (lastOf prev front) 0 rest := by
  induction front generalizing prev with
  | nil => rfl
  | cons c front ih => rw [List.length_cons, List.cons_append, scan, ih, lastOf_cons prev]

theorem scan_miss {c : α} (h : run items prev (c :: rest) = none) :
    scan items prev 0 (c :: rest) = .inr c :: scan items (some c) 0 rest := by
  rw [scan, h]

theorem scan_hit (hne : front ≠ []) (h : run items prev (front ++ rest) = some (parts, rest)) :
    scan items prev 0 (front ++ rest) = .inl parts :: scan items (lastOf prev front) 0 rest := by
  obtain ⟨c, front, rfl⟩ := List.exists_cons_of_ne_nil hne
  rw [List.cons_append] at h ⊢
  rw [scan, h]
  show .inl parts :: scan items (some c) ((front ++ rest).length - rest.length) (front ++ rest) = _
  rw [List.length_append, Nat.add_sub_cancel, scan_skip, lastOf_cons prev]

/-- Where no match begins nothing is found and everything stays. -/
theorem scan_pass (h : ∀ before c behind, front = before ++ c :: behind →
      run items (lastOf prev before) (c :: behind ++ rest) = none) :
    scan items prev 0 (front ++ rest) = front.map .inr ++ scan items (lastOf prev front) 0 rest := by
  induction front generalizing prev with
  | nil => rfl
  | cons c front ih =>
    have hhere : run items prev (c :: (front ++ rest)) = none := h [] c front rfl
    rw [List.cons_append, scan_miss hhere, ih, lastOf_cons prev]
    · rfl
    · intro before d behind heq
      rw [lastOf_cons prev]
      exact h (c :: before) d behind (by rw [heq]; rfl)

theorem find_hit (hne : front ≠ []) (h : run items prev (front ++ rest) = some (parts, rest)) :
    find items prev (front ++ rest) = parts :: find items (lastOf prev front) rest := by
  rw [find, scan_hit hne h]
  rfl

theorem find_pass (h : ∀ before c behind, front = before ++ c :: behind →
      run items (lastOf prev before) (c :: behind ++ rest) = none) :
    find items prev (front ++ rest) = find items (lastOf prev front) rest := by
  rw [find, scan_pass h, List.filterMap_append, List.filterMap_map]
  simp [find, Function.comp_def]

/-- The row does not look in front. -/
def Blind (items : List (Item α)) : Prop := ∀ prev prev' text, run items prev text = run items prev' text

theorem Blind.scan_eq (h : Blind items) (prev prev' : Option α) (text : List α) :
    scan items prev 0 text = scan items prev' 0 text := by
  cases text with
  | nil => rfl
  | cons c text => rw [scan, scan, h prev prev']

theorem remove_nil (items : List (Item α)) : remove items [] = [] := rfl

theorem remove_hit (hblind : Blind items) (hne : front ≠ []) (h : Takes items (front ++ rest) parts rest) :
    remove items (front ++ rest) = remove items rest := by
  rw [remove, scan_hit hne (h none), remove, hblind.scan_eq none]
  rfl

theorem remove_pass (hblind : Blind items) (h : ∀ before c behind, front = before ++ c :: behind →
      Fails items (c :: behind ++ rest)) : remove items (front ++ rest) = front ++ remove items rest := by
  rw [remove, scan_pass fun before c behind heq => h before c behind heq _, List.filterMap_append,
    List.filterMap_map, remove, hblind.scan_eq none]
  congr 1
  induction front with
  | nil => rfl
  | cons c front ih => simp [Function.comp_def]

theorem remove_miss (hblind : Blind items) {c : α} (h : Fails items (c :: rest)) :
    remove items (c :: rest) = c :: remove items rest := by
  rw [remove, scan_miss (h none), remove, hblind.scan_eq none]
  rfl

end Scan

end Library.Regex
