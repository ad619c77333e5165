import Mathlib.Data.List.TakeWhile
import Mathlib.Order.Lattice

/-! An ordered multimap as the list of its entries.

Entries are in the order of their keys, and entries with one key in the order they
came in: `emplace` puts a new one behind them. The bounds of a key cut the list in
three (`ranges_append`): the entries before it, its own and the ones after it. A map
is a multimap with one entry a key, which `insertNew` keeps. -/
namespace Library.Multimap
variable {K V : Type} [LinearOrder K]

def Sorted (l : List (K × V)) : Prop := l.Pairwise fun a b => a.1 ≤ b.1

def emplace (k : K) (v : V) (l : List (K × V)) : List (K × V) :=
  l.takeWhile (·.1 ≤ k) ++ (k, v) :: l.dropWhile (·.1 ≤ k)

/-- The entries up to the lower bound of `k`. -/
def before (k : K) (l : List (K × V)) : List (K × V) := l.takeWhile (·.1 < k)

/-- The entries from the lower to the upper bound of `k`. -/
def equalRange (k : K) (l : List (K × V)) : List (K × V) :=
  (l.dropWhile (·.1 < k)).takeWhile (·.1 ≤ k)

/-- The entries from the upper bound of `k` on. -/
def after (k : K) (l : List (K × V)) : List (K × V) :=
  (l.dropWhile (·.1 < k)).dropWhile (·.1 ≤ k)

theorem ranges_append (k : K) (l : List (K × V)) : before k l ++ (equalRange k l ++ after k l) = l := by
  rw [equalRange, after, List.takeWhile_append_dropWhile, before, List.takeWhile_append_dropWhile]

@[simp] theorem mem_emplace {k : K} {v : V} {l : List (K × V)} {p : K × V} :
    p ∈ emplace k v l ↔ p = (k, v) ∨ p ∈ l := by
  have hmem : p ∈ l ↔ p ∈ l.takeWhile (·.1 ≤ k) ∨ p ∈ l.dropWhile (·.1 ≤ k) := by
    rw [← List.mem_append, List.takeWhile_append_dropWhile]
  rw [emplace, List.mem_append, List.mem_cons, hmem]
  exact or_left_comm

theorem Sorted.first_le {p q : K × V} {l : List (K × V)} (h : Sorted (p :: l)) (hq : q ∈ p :: l) :
    p.1 ≤ q.1 := by
  rcases List.mem_cons.mp hq with rfl | hq
  · exact le_refl _
  · exact (List.pairwise_cons.mp h).1 q hq

/-- Nothing behind the upper bound has a smaller key. -/
theorem Sorted.lt_of_mem_dropWhile {k : K} {p : K × V} {l : List (K × V)} (h : Sorted l)
    (hp : p ∈ l.dropWhile (·.1 ≤ k)) : k < p.1 := by
  induction l with
  | nil => simp at hp
  | cons q rest ih =>
    by_cases hq : q.1 ≤ k
    · rw [List.dropWhile_cons_of_pos (by simpa using hq)] at hp
      exact ih (List.pairwise_cons.mp h).2 hp
    · rw [List.dropWhile_cons_of_neg (by simpa using hq)] at hp
      exact lt_of_lt_of_le (not_le.mp hq) (h.first_le hp)

/-- Nothing from the lower bound on has a smaller key. -/
theorem Sorted.le_of_mem_dropWhile {k : K} {p : K × V} {l : List (K × V)} (h : Sorted l)
    (hp : p ∈ l.dropWhile (·.1 < k)) : k ≤ p.1 := by
  induction l with
  | nil => simp at hp
  | cons q rest ih =>
    by_cases hq : q.1 < k
    · rw [List.dropWhile_cons_of_pos (by simpa using hq)] at hp
      exact ih (List.pairwise_cons.mp h).2 hp
    · rw [List.dropWhile_cons_of_neg (by simpa using hq)] at hp
      exact le_trans (not_lt.mp hq) (h.first_le hp)

theorem lt_of_mem_before {k : K} {p : K × V} {l : List (K × V)} (hp : p ∈ before k l) : p.1 < k := by
  simpa using List.mem_takeWhile_imp hp

/-- The entries between the bounds of a key are those with this key. -/
theorem Sorted.eq_of_mem_equalRange {k : K} {p : K × V} {l : List (K × V)} (h : Sorted l)
    (hp : p ∈ equalRange k l) : p.1 = k := by
  have hle : p.1 ≤ k := by simpa using List.mem_takeWhile_imp hp
  exact le_antisymm hle (h.le_of_mem_dropWhile ((List.takeWhile_sublist _).subset hp))

theorem Sorted.lt_of_mem_after {k : K} {p : K × V} {l : List (K × V)} (h : Sorted l)
    (hp : p ∈ after k l) : k < p.1 :=
  lt_of_mem_dropWhile (h.sublist (List.dropWhile_sublist _)) hp

theorem mem_ranges {k : K} {p : K × V} {l : List (K × V)} :
    p ∈ l ↔ p ∈ before k l ∨ p ∈ equalRange k l ∨ p ∈ after k l := by
  conv_lhs => rw [← ranges_append k l]
  rw [List.mem_append, List.mem_append]

/-- The range of a key holds a value exactly when the map holds the two together. -/
theorem any_equalRange [DecidableEq V] {k : K} {v : V} {l : List (K × V)} (h : Sorted l) :
    (equalRange k l).any (·.2 = v) = true ↔ (k, v) ∈ l := by
  rw [List.any_eq_true]
  constructor
  · rintro ⟨⟨key, w⟩, hp, heq⟩
    obtain rfl : key = k := h.eq_of_mem_equalRange hp
    obtain rfl := of_decide_eq_true heq
    exact mem_ranges.mpr (.inr (.inl hp))
  · intro hmem
    rcases mem_ranges.mp hmem with hlt | heq | hgt
    · exact absurd (lt_of_mem_before hlt) (lt_irrefl k)
    · exact ⟨(k, v), heq, decide_eq_true rfl⟩
    · exact absurd (h.lt_of_mem_after hgt) (lt_irrefl k)

theorem Sorted.emplace {k : K} {v : V} {l : List (K × V)} (h : Sorted l) :
    Sorted (emplace k v l) := by
  have hle : ∀ p ∈ l.takeWhile (·.1 ≤ k), p.1 ≤ k := fun p hp => by simpa using List.mem_takeWhile_imp hp
  refine List.pairwise_append.mpr ⟨h.sublist (List.takeWhile_sublist _), ?_, ?_⟩
  · exact List.pairwise_cons.mpr ⟨fun q hq => le_of_lt (h.lt_of_mem_dropWhile hq),
      h.sublist (List.dropWhile_sublist _)⟩
  · intro p hp q hq
    rcases List.mem_cons.mp hq with rfl | hq
    · exact hle p hp
    · exact le_trans (hle p hp) (le_of_lt (h.lt_of_mem_dropWhile hq))

theorem emplace_perm (k : K) (v : V) (l : List (K × V)) : (emplace k v l).Perm ((k, v) :: l) := by
  have hcut := List.takeWhile_append_dropWhile (p := fun q : K × V => decide (q.1 ≤ k)) (l := l)
  conv_rhs => rw [← hcut]
  exact List.perm_middle

/-- Nothing a filter keeps stands behind what it drops. -/
theorem takeWhile_eq_filter_iff {α : Type} {p : α → Bool} {l : List α} :
    l.takeWhile p = l.filter p ↔ l.Pairwise fun a b => p a = false → p b = false := by
  induction l with
  | nil => exact ⟨fun _ => .nil, fun _ => rfl⟩
  | cons a rest ih =>
    rw [List.pairwise_cons]
    cases ha : p a with
    | true =>
      rw [List.takeWhile_cons_of_pos ha, List.filter_cons_of_pos ha, List.cons_inj_right, ih]
      exact ⟨fun h => ⟨fun b _ hfalse => absurd hfalse (by decide), h⟩, fun h => h.2⟩
    | false =>
      have hnot : ¬ p a = true := by simp [ha]
      rw [List.takeWhile_cons_of_neg hnot, List.filter_cons_of_neg hnot, eq_comm, List.filter_eq_nil_iff]
      constructor
      · intro h
        have hnone : ∀ b ∈ rest, p b = false := fun b hb => by simpa using h b hb
        exact ⟨fun b hb _ => hnone b hb, List.pairwise_of_forall_sublist fun hsub _ => hnone _ (hsub.subset (by simp))⟩
      · intro h b hb
        simp [h.1 b hb rfl]

/-! ### Maps -/

/-- Insertion into a map: a key that is there keeps its value. -/
def insertNew (k : K) (v : V) (l : List (K × V)) : List (K × V) :=
  if l.any (·.1 = k) then l else emplace k v l

def Distinct (l : List (K × V)) : Prop := l.Pairwise fun a b => a.1 ≠ b.1

theorem any_key {k : K} {l : List (K × V)} : l.any (·.1 = k) = true ↔ ∃ v, (k, v) ∈ l := by
  rw [List.any_eq_true]
  constructor
  · rintro ⟨⟨_, v⟩, hp, hk⟩
    obtain rfl := of_decide_eq_true hk
    exact ⟨v, hp⟩
  · rintro ⟨v, hp⟩
    exact ⟨(k, v), hp, decide_eq_true rfl⟩

theorem mem_insertNew {k : K} {v : V} {l : List (K × V)} {p : K × V} :
    p ∈ insertNew k v l ↔ p ∈ l ∨ p = (k, v) ∧ ∀ w, (k, w) ∉ l := by
  unfold insertNew
  split
  · rename_i hk
    obtain ⟨w, hw⟩ := any_key.mp hk
    exact ⟨.inl, fun h => h.elim id fun h => absurd hw (h.2 w)⟩
  · rename_i hk
    have hnone : ∀ w, (k, w) ∉ l := fun w hw => hk (any_key.mpr ⟨w, hw⟩)
    rw [mem_emplace, or_comm]
    exact or_congr_right (iff_self_and.mpr fun _ => hnone)

theorem Distinct.insertNew {k : K} {v : V} {l : List (K × V)} (h : Distinct l) :
    Distinct (insertNew k v l) := by
  unfold Multimap.insertNew
  split
  · exact h
  · rename_i hk
    have hne : ∀ p ∈ l, p.1 ≠ k := fun p hp heq => hk (any_key.mpr ⟨p.2, heq ▸ hp⟩)
    have hsplit : Distinct (l.takeWhile (·.1 ≤ k) ++ l.dropWhile (·.1 ≤ k)) := by
      rwa [List.takeWhile_append_dropWhile]
    obtain ⟨hleft, hright, hcross⟩ := List.pairwise_append.mp hsplit
    refine List.pairwise_append.mpr ⟨hleft, List.pairwise_cons.mpr ⟨fun q hq => ?_, hright⟩, ?_⟩
    · exact (hne q ((List.dropWhile_sublist _).subset hq)).symm
    · intro p hp q hq
      rcases List.mem_cons.mp hq with rfl | hq
      · exact hne p ((List.takeWhile_sublist _).subset hp)
      · exact hcross p hp q hq

end Library.Multimap
