import Mathlib.Data.List.Infix

/-! Searching a list for another one, and cutting it there.

`find` answers with the first place where a pattern stands. More bytes behind the place
change nothing (`find_append`), and a pattern whose first element is missing cannot
begin (`find_of_not_mem`). `pieces` cuts at every place that a search from the left
finds; no piece contains the separator (`not_infix_of_mem_pieces`), joined they are the
list again (`intercalate_pieces`), and nothing else is a cutting from the left
(`cutting_iff`). -/
namespace Library.Search
variable {α : Type} [DecidableEq α] {pat sep l m : List α} {i : Nat}

/-- The first place where `pat` stands in a list. -/
def find (pat : List α) : List α → Option Nat
  | [] => if pat = [] then some 0 else none
  | a :: l => if pat <+: a :: l then some 0 else (find pat l).map (· + 1)

/-! ### What is found -/

theorem find_begins (h : pat <+: l) : find pat l = some 0 := by
  cases l with
  | nil => exact if_pos (List.prefix_nil.mp h)
  | cons a l => exact if_pos h

theorem find_cons {a : α} (h : ¬ pat <+: a :: l) : find pat (a :: l) = (find pat l).map (· + 1) :=
  if_neg h

theorem find_eq_some : find pat l = some i ↔
    i ≤ l.length ∧ pat <+: l.drop i ∧ ∀ j < i, ¬ pat <+: l.drop j := by
  induction l generalizing i with
  | nil =>
    by_cases hpat : pat = []
    · subst hpat
      simp only [find, if_true, Option.some.injEq, List.length_nil, List.nil_prefix, true_and]
      constructor
      · rintro rfl
        exact ⟨Nat.le_refl 0, fun j hj => absurd hj (Nat.not_lt_zero j)⟩
      · exact fun h => (Nat.le_zero.mp h.1).symm
    · simp [find, hpat]
  | cons a l ih =>
    by_cases hpat : pat <+: a :: l
    · rw [find_begins hpat, Option.some.injEq]
      constructor
      · rintro rfl
        exact ⟨Nat.zero_le _, hpat, fun j hj => absurd hj (Nat.not_lt_zero j)⟩
      · intro h
        exact Classical.byContradiction fun hne => h.2.2 0 (by omega) hpat
    · rw [find_cons hpat, Option.map_eq_some_iff]
      constructor
      · rintro ⟨k, hk, rfl⟩
        obtain ⟨hle, hstands, hfirst⟩ := ih.mp hk
        refine ⟨Nat.succ_le_succ hle, hstands, fun j hj => ?_⟩
        cases j with
        | zero => exact hpat
        | succ j => exact hfirst j (by omega)
      · rintro ⟨hle, hstands, hfirst⟩
        cases i with
        | zero => exact absurd hstands hpat
        | succ k =>
          exact ⟨k, ih.mpr ⟨Nat.le_of_succ_le_succ hle, hstands, fun j hj => hfirst (j + 1) (by omega)⟩, rfl⟩

/-- Where a pattern is found there is room for it. -/
theorem find_le (h : find pat l = some i) : i + pat.length ≤ l.length := by
  obtain ⟨hle, hstands, -⟩ := find_eq_some.mp h
  have := hstands.length_le
  rw [List.length_drop] at this
  omega

theorem find_infix (h : pat <:+: l) : ∃ i, find pat l = some i := by
  induction l with
  | nil => exact ⟨0, if_pos (List.infix_nil.mp h)⟩
  | cons a l ih =>
    by_cases hpat : pat <+: a :: l
    · exact ⟨0, find_begins hpat⟩
    · obtain ⟨i, hi⟩ := ih ((List.infix_cons_iff.mp h).resolve_left hpat)
      exact ⟨i + 1, by rw [find_cons hpat, hi, Option.map_some]⟩

theorem infix_of_find (h : find pat l = some i) : pat <:+: l := by
  obtain ⟨-, hstands, -⟩ := find_eq_some.mp h
  exact hstands.isInfix.trans (List.drop_suffix i l).isInfix

theorem find_eq_none : find pat l = none ↔ ¬ pat <:+: l := by
  constructor
  · intro h hinside
    obtain ⟨i, hi⟩ := find_infix hinside
    rw [h] at hi
    cases hi
  · intro h
    cases hf : find pat l with
    | none => rfl
    | some i => exact absurd (infix_of_find hf) h

/-- **More behind it changes nothing.** -/
theorem find_append (h : find pat l = some i) (m : List α) : find pat (l ++ m) = some i := by
  obtain ⟨hle, hstands, hfirst⟩ := find_eq_some.mp h
  have hroom := find_le h
  refine find_eq_some.mpr ⟨?_, ?_, fun j hj hpat => hfirst j hj ?_⟩
  · rw [List.length_append]
    omega
  · rw [List.drop_append_of_le_length hle]
    exact hstands.trans (List.prefix_append _ m)
  · rw [List.drop_append_of_le_length (by omega)] at hpat
    exact List.prefix_of_prefix_length_le hpat (List.prefix_append _ m)
      (by rw [List.length_drop]; omega)

/-- A pattern cannot begin where its first element is missing. -/
theorem find_skip {a : α} (h : a ∉ l) (m : List α) :
    find (a :: pat) (l ++ m) = (find (a :: pat) m).map (· + l.length) := by
  induction l with
  | nil => simp
  | cons b l ih =>
    have hne : a ≠ b := fun heq => h (heq ▸ List.mem_cons_self ..)
    rw [List.cons_append, find_cons fun hpat => hne (List.cons_prefix_cons.mp hpat).1,
      ih fun hmem => h (List.mem_cons_of_mem b hmem),
      Option.map_map]
    rfl

theorem find_of_not_mem {a : α} (h : a ∉ l) (m : List α) :
    find (a :: pat) (l ++ ((a :: pat) ++ m)) = some l.length := by
  rw [find_skip h, find_begins (List.prefix_append _ m), Option.map_some, Nat.zero_add]

theorem find_none_of_not_mem {a : α} (h : a ∉ l) : find (a :: pat) l = none :=
  find_eq_none.mpr fun hinside => h (hinside.subset (List.mem_cons_self ..))

/-- A single element stands behind those that differ from it. -/
theorem find_element {a : α} (h : a ∈ l) : find [a] l = some (l.takeWhile (· ≠ a)).length := by
  induction l with
  | nil => cases h
  | cons b l ih =>
    by_cases hb : b = a
    · subst hb
      rw [find_begins (List.cons_prefix_cons.mpr ⟨rfl, List.nil_prefix⟩), List.takeWhile_cons_of_neg (by simp)]
      rfl
    · have hnot : ¬ [a] <+: b :: l := fun hpre => hb (List.cons_prefix_cons.mp hpre).1.symm
      rw [find_cons hnot, ih ((List.mem_cons.mp h).resolve_left (Ne.symm hb)),
        List.takeWhile_cons_of_pos (by simpa using hb)]
      rfl

/-! ### Cutting once -/

/-- What lies on both sides of the place where `sep` stands first. -/
structure FirstCut (sep l before after : List α) : Prop where
  whole : l = before ++ (sep ++ after)
  first : ∀ j < before.length, ¬ sep <+: l.drop j

/-- Where a pattern stands and what lies on both sides. -/
theorem eq_of_find (h : find sep l = some i) : l = l.take i ++ (sep ++ l.drop (i + sep.length)) := by
  obtain ⟨rest, hrest⟩ := (find_eq_some.mp h).2.1
  rw [← List.drop_drop, ← hrest, List.drop_left, hrest, List.take_append_drop]

theorem firstCut_of_find (h : find sep l = some i) :
    FirstCut sep l (l.take i) (l.drop (i + sep.length)) := by
  refine ⟨eq_of_find h, fun j hj => (find_eq_some.mp h).2.2 j ?_⟩
  rw [List.length_take] at hj
  omega

namespace FirstCut
variable {before after before' after' : List α}

theorem find_eq (h : FirstCut sep l before after) : find sep l = some before.length := by
  refine find_eq_some.mpr ⟨?_, ?_, h.first⟩
  · rw [h.whole, List.length_append]
    omega
  · rw [h.whole, List.drop_left]
    exact List.prefix_append _ _

theorem unique (h : FirstCut sep l before after) (h' : FirstCut sep l before' after') :
    before = before' ∧ after = after' := by
  have hlength : before.length = before'.length := Option.some.inj (h.find_eq.symm.trans h'.find_eq)
  obtain ⟨hbefore, hrest⟩ := List.append_inj (h.whole.symm.trans h'.whole) hlength
  exact ⟨hbefore, List.append_cancel_left hrest⟩

end FirstCut

theorem not_firstCut (h : find sep l = none) (before after : List α) : ¬ FirstCut sep l before after := by
  intro hcut
  rw [hcut.find_eq] at h
  cases h

/-- A single element is cut at where it is not in front. -/
theorem firstCut_element {a : α} {before after : List α} :
    FirstCut [a] l before after ↔ l = before ++ a :: after ∧ a ∉ before := by
  constructor
  · rintro ⟨hwhole, hfirst⟩
    refine ⟨hwhole, fun hmem => ?_⟩
    obtain ⟨front, back, rfl⟩ := List.append_of_mem hmem
    refine hfirst front.length (by simp) ?_
    rw [hwhole, List.append_assoc, List.drop_left]
    exact List.prefix_append [a] _
  · rintro ⟨rfl, hmem⟩
    have hfind : find [a] (before ++ ([a] ++ after)) = some before.length := find_of_not_mem hmem after
    have hcut := firstCut_of_find hfind
    rw [List.take_left, ← List.length_append, ← List.append_assoc, List.drop_left,
      List.append_assoc] at hcut
    exact hcut

/-! ### The last that gives a value -/

section
variable {β γ : Type} {gives : β → γ → Prop} {items : List β} {item : β} {value : γ}

/-- `value` is what the last of the items that give something gives. -/
def LastGives (gives : β → γ → Prop) (items : List β) (value : γ) : Prop :=
  ∃ before item after, items = before ++ item :: after ∧ gives item value ∧
    ∀ other ∈ after, ∀ value', ¬ gives other value'

@[simp] theorem not_lastGives_nil : ¬ LastGives gives [] value := by
  rintro ⟨before, item, after, hitems, -⟩
  simp at hitems

theorem lastGives_concat_of (h : gives item value) : LastGives gives (items ++ [item]) value :=
  ⟨items, item, [], rfl, h, fun _ hother => by cases hother⟩

theorem lastGives_concat : LastGives gives (items ++ [item]) value ↔
    gives item value ∨ (∀ value', ¬ gives item value') ∧ LastGives gives items value := by
  constructor
  · rintro ⟨before, found, after, hitems, hgives, hsilent⟩
    rcases List.eq_nil_or_concat' after with rfl | ⟨front, last, rfl⟩
    · obtain ⟨-, hlast⟩ := List.append_inj' hitems rfl
      obtain rfl := List.singleton_inj.mp hlast
      exact .inl hgives
    · rw [← List.cons_append, ← List.append_assoc] at hitems
      obtain ⟨hfront, hlast⟩ := List.append_inj' hitems rfl
      obtain rfl := List.singleton_inj.mp hlast
      refine .inr ⟨hsilent _ (by simp), before, found, front, hfront, hgives, fun other hother => ?_⟩
      exact hsilent other (List.mem_append_left _ hother)
  · rintro (h | ⟨hsilent, before, found, after, rfl, hgives, hrest⟩)
    · exact lastGives_concat_of h
    · refine ⟨before, found, after ++ [item], by simp, hgives, fun other hother => ?_⟩
      rcases List.mem_append.mp hother with h | h
      · exact hrest other h
      · obtain rfl := List.mem_singleton.mp h
        exact hsilent

/-- Items that give nothing can be left out. -/
theorem lastGives_filter {keep : β → Bool} (h : ∀ item, keep item = false → ∀ value, ¬ gives item value) :
    LastGives gives (items.filter keep) value ↔ LastGives gives items value := by
  induction items using List.reverseRecOn with
  | nil => rfl
  | append_singleton items item ih =>
    rw [List.filter_append, lastGives_concat]
    cases hkeep : keep item with
    | true => rw [List.filter_cons_of_pos hkeep, List.filter_nil, lastGives_concat, ih]
    | false =>
      rw [List.filter_cons_of_neg (by simp [hkeep]), List.filter_nil, List.append_nil, ih]
      exact ⟨fun hitems => .inr ⟨h item hkeep, hitems⟩,
        fun hitems => (hitems.resolve_left (h item hkeep value)).2⟩

end

/-! ### Cutting everywhere -/

/-- What lies between the places where `sep` stands, searching from the left. -/
def pieces (sep l : List α) : List (List α) :=
  match h : find sep l with
  | none => [l]
  | some i =>
    if hsep : sep = [] then [l]
    else
      have : l.length - (i + sep.length) < l.length := by
        have := find_le h
        have := List.length_pos_iff.mpr hsep
        omega
      l.take i :: pieces sep (l.drop (i + sep.length))
termination_by l.length
decreasing_by rw [List.length_drop]; exact this

theorem pieces_none (h : find sep l = none) : pieces sep l = [l] := by
  rw [pieces]
  split
  · rfl
  · rename_i hi
    rw [h] at hi
    cases hi

theorem pieces_some (hsep : sep ≠ []) (h : find sep l = some i) :
    pieces sep l = l.take i :: pieces sep (l.drop (i + sep.length)) := by
  rw [pieces]
  split
  · rename_i hi
    rw [h] at hi
    cases hi
  · rename_i hi
    obtain rfl := Option.some.inj (h.symm.trans hi)
    rw [dif_neg hsep]

/-- A first piece that the separator ends. -/
theorem pieces_cut (hsep : sep ≠ []) (h : find sep (l ++ (sep ++ m)) = some l.length) :
    pieces sep (l ++ (sep ++ m)) = l :: pieces sep m := by
  rw [pieces_some hsep h, List.take_left, ← List.append_assoc, ← List.length_append, List.drop_left]

/-- The separator does not stand in front of where it is found. -/
theorem not_infix_take (hsep : sep ≠ []) (h : find sep l = some i) : ¬ sep <:+: l.take i := by
  intro hinside
  obtain ⟨j, hj⟩ := find_infix hinside
  have hroom := find_le hj
  have hpos := List.length_pos_iff.mpr hsep
  rw [List.length_take] at hroom
  have := find_append hj (l.drop i)
  rw [List.take_append_drop, h, Option.some.injEq] at this
  omega

/-- **No piece contains the separator.** -/
theorem not_infix_of_mem_pieces (hsep : sep ≠ []) {piece : List α} (h : piece ∈ pieces sep l) :
    ¬ sep <:+: piece := by
  induction hn : l.length using Nat.strong_induction_on generalizing l with
  | _ n ih =>
    cases hf : find sep l with
    | none =>
      rw [pieces_none hf, List.mem_singleton] at h
      exact h ▸ find_eq_none.mp hf
    | some i =>
      rw [pieces_some hsep hf] at h
      rcases List.mem_cons.mp h with rfl | h
      · exact not_infix_take hsep hf
      · have := find_le hf
        have := List.length_pos_iff.mpr hsep
        refine ih _ ?_ h rfl
        rw [List.length_drop]
        omega

theorem pieces_ne_nil : pieces sep l ≠ [] := by
  rw [pieces]
  split
  · exact List.cons_ne_nil _ _
  · split
    · exact List.cons_ne_nil _ _
    · exact List.cons_ne_nil _ _

/-- **The pieces joined by the separator are the list.** -/
theorem intercalate_pieces (hsep : sep ≠ []) : sep.intercalate (pieces sep l) = l := by
  induction hn : l.length using Nat.strong_induction_on generalizing l with
  | _ n ih =>
    cases hf : find sep l with
    | none => rw [pieces_none hf, List.intercalate_singleton]
    | some i =>
      have hroom := find_le hf
      have hpos := List.length_pos_iff.mpr hsep
      have hrest : (l.drop (i + sep.length)).length < n := by
        rw [List.length_drop]
        omega
      rw [pieces_some hsep hf, List.intercalate_cons_of_ne_nil pieces_ne_nil, ih _ hrest rfl]
      simpa using (eq_of_find hf).symm

/-- A list cut from the left: a piece ends where `sep` stands first, and the last piece is
what is left when `sep` stands nowhere. -/
inductive Cutting (sep : List α) : List α → List (List α) → Prop
  | last {l : List α} (h : ¬ sep <:+: l) : Cutting sep l [l]
  | cut {l piece rest : List α} {tail : List (List α)}
      (first : FirstCut sep l piece rest) (more : Cutting sep rest tail) : Cutting sep l (piece :: tail)

theorem cutting_pieces (hsep : sep ≠ []) : Cutting sep l (pieces sep l) := by
  induction hn : l.length using Nat.strong_induction_on generalizing l with
  | _ n ih =>
    cases hf : find sep l with
    | none =>
      rw [pieces_none hf]
      exact .last (find_eq_none.mp hf)
    | some i =>
      have hroom := find_le hf
      have hpos := List.length_pos_iff.mpr hsep
      have hrest : (l.drop (i + sep.length)).length < n := by
        rw [List.length_drop]
        omega
      rw [pieces_some hsep hf]
      exact .cut (firstCut_of_find hf) (ih _ hrest rfl)

/-- **There is one cutting from the left.** -/
theorem cutting_iff (hsep : sep ≠ []) {tail : List (List α)} : Cutting sep l tail ↔ tail = pieces sep l := by
  refine ⟨fun h => ?_, fun h => h ▸ cutting_pieces hsep⟩
  induction h with
  | last h => exact (pieces_none (find_eq_none.mpr h)).symm
  | cut first more ih =>
    obtain rfl := first.whole
    rw [pieces_cut hsep first.find_eq, ih]

end Library.Search
