import Mathlib.Data.List.Basic

/-! Values framed on a stream that arrives in pieces.

A `Decoder` looks at everything that has arrived so far and either takes one value
off the front or fails; in both cases it says what is left. A receiver appends each
piece to what was left over and decodes until it fails (`feed`). `Frames` asks two
things of a decoder and an encoding: a complete frame is taken whatever follows it,
and a proper prefix of a frame is left alone. `feed_encoded` then says that the
pieces do not matter: any cutting of the concatenated frames yields the values, in
order, once each, and leaves nothing behind. -/
namespace Library.Framing
variable {α β : Type}

/-- One attempt to take a value: the value, if there was one, and what is left. -/
abbrev Decoder (α β : Type) := List α → Option β × List α

/-- Decode until it fails. The fuel bounds the number of attempts; out of fuel there
is no result. -/
def drain (next : Decoder α β) : Nat → List α → Option (List β × List α)
  | 0, _ => none
  | n + 1, l =>
    match next l with
    | (none, left) => some ([], left)
    | (some x, left) => (drain next n left).map fun r => (x :: r.1, r.2)

/-- Append each piece to what was left over and drain. -/
def feed (next : Decoder α β) : List α → List (List α) → Option (List β × List α)
  | l, [] => some ([], l)
  | l, piece :: rest =>
    (drain next ((l ++ piece).length + 1) (l ++ piece)).bind fun r =>
      (feed next r.2 rest).map fun q => (r.1 ++ q.1, q.2)

/-- Values may be looked at in another way. -/
theorem drain_map {γ : Type} (f : β → γ) (next : Decoder α β) (n : Nat) (l : List α) :
    drain (fun l => ((next l).1.map f, (next l).2)) n l =
      (drain next n l).map fun r => (r.1.map f, r.2) := by
  induction n generalizing l with
  | zero => rfl
  | succ n ih =>
    simp only [drain]
    obtain ⟨found, left⟩ := next l
    cases found with
    | none => rfl
    | some x =>
      simp only [Option.map_some, ih, Option.map_map]
      rfl

theorem feed_map {γ : Type} (f : β → γ) (next : Decoder α β) (pieces : List (List α)) (l : List α) :
    feed (fun l => ((next l).1.map f, (next l).2)) l pieces =
      (feed next l pieces).map fun r => (r.1.map f, r.2) := by
  induction pieces generalizing l with
  | nil => rfl
  | cons piece rest ih =>
    simp only [feed, drain_map, ih]
    cases drain next ((l ++ piece).length + 1) (l ++ piece) with
    | none => rfl
    | some r =>
      obtain ⟨xs, left⟩ := r
      simp only [Option.map_some, Option.bind_some]
      cases feed next left rest with
      | none => rfl
      | some q => simp

/-- What a decoder must do on the frames of the values in `Good`. -/
structure Frames (next : Decoder α β) (encode : β → List α) (Good : β → Prop) : Prop where
  take : ∀ x rest, Good x → next (encode x ++ rest) = (some x, rest)
  wait : ∀ x p, Good x → p <+: encode x → p ≠ encode x → next p = (none, p)
  empty : next [] = (none, [])
  nonempty : ∀ x, Good x → encode x ≠ []

namespace Frames
variable {next : Decoder α β} {encode : β → List α} {Good : β → Prop}

/-- One attempt on the first part of a stream of frames: it takes the first value, or its frame is
not complete yet. -/
theorem attempt (h : Frames next encode Good) {xs : List β} (hx : ∀ x ∈ xs, Good x) {l later : List α}
    (hl : l ++ later = xs.flatMap encode) :
    next l = (none, l) ∧ (∀ x ∈ xs.head?, ¬ encode x <+: l) ∨
      ∃ x rest more, xs = x :: rest ∧ l = encode x ++ more ∧ next l = (some x, more) ∧
        more ++ later = rest.flatMap encode := by
  cases xs with
  | nil =>
    obtain ⟨rfl, rfl⟩ := List.append_eq_nil_iff.mp hl
    exact .inl ⟨h.empty, by simp⟩
  | cons x xs =>
    have hgood := hx x (List.mem_cons_self ..)
    rw [List.flatMap_cons] at hl
    by_cases hp : l <+: encode x ∧ l ≠ encode x
    · left
      refine ⟨h.wait x l hgood hp.1 hp.2, fun y hy hprefix => ?_⟩
      obtain rfl := Option.some.inj hy
      exact hp.2 (hp.1.eq_of_length (Nat.le_antisymm hp.1.length_le hprefix.length_le))
    · obtain ⟨more, rfl, hmore⟩ : ∃ more, l = encode x ++ more ∧ xs.flatMap encode = more ++ later := by
        rcases List.append_eq_append_iff.mp hl with ⟨as, has, _⟩ | ⟨bs, hbs, hrest⟩
        · obtain rfl : l = encode x := Classical.byContradiction fun hne => hp ⟨⟨as, has.symm⟩, hne⟩
          exact ⟨[], (List.append_nil _).symm, (List.append_cancel_left hl).symm⟩
        · exact ⟨bs, hbs, hrest⟩
      exact .inr ⟨x, xs, more, rfl, rfl, h.take x more hgood, hmore.symm⟩

/-- Draining any first part of a stream of frames takes the frames that are complete
in it and stops at one that is not. -/
theorem drain_stream (h : Frames next encode Good) (xs : List β) (hx : ∀ x ∈ xs, Good x)
    (l later : List α) (hl : l ++ later = xs.flatMap encode) (n : Nat) (hn : l.length < n) :
    ∃ ys zs left, xs = ys ++ zs ∧ drain next n l = some (ys, left) ∧
      left ++ later = zs.flatMap encode ∧ next left = (none, left) := by
  induction n generalizing l xs with
  | zero => cases hn
  | succ m ih =>
    rcases h.attempt hx hl with ⟨hwait, -⟩ | ⟨x, rest, more, rfl, rfl, htake, hmore⟩
    · exact ⟨[], xs, l, rfl, by simp [drain, hwait], hl, hwait⟩
    · have hpos : 0 < (encode x).length :=
        List.length_pos_iff.mpr (h.nonempty x (hx x (List.mem_cons_self ..)))
      obtain ⟨ys, zs, left, rfl, hdrain, hleft, hstop⟩ :=
        ih rest (fun y hy => hx y (List.mem_cons_of_mem x hy)) more hmore
          (by simp only [List.length_append] at hn; omega)
      refine ⟨x :: ys, zs, left, rfl, ?_, hleft, hstop⟩
      simp [drain, htake, hdrain]

/-- **Segmentation does not matter**: however the concatenated frames are cut, what is
received is what was sent, and nothing is left over. -/
theorem feed_encoded (h : Frames next encode Good) (pieces : List (List α)) (xs : List β)
    (hx : ∀ x ∈ xs, Good x) (l : List α) (hl : l ++ pieces.flatten = xs.flatMap encode)
    (hstop : next l = (none, l)) : feed next l pieces = some (xs, []) := by
  induction pieces generalizing l xs with
  | nil =>
    rw [List.flatten_nil, List.append_nil] at hl
    cases xs with
    | nil => rw [hl]; rfl
    | cons x xs =>
      -- a complete frame would have been taken
      rw [hl, List.flatMap_cons, h.take x _ (hx x (List.mem_cons_self ..))] at hstop
      simp at hstop
  | cons piece rest ih =>
    rw [List.flatten_cons, ← List.append_assoc] at hl
    obtain ⟨ys, zs, left, rfl, hdrain, hleft, hleftstop⟩ :=
      h.drain_stream xs hx (l ++ piece) rest.flatten hl _ (Nat.lt_succ_self _)
    have := ih zs (fun z hz => hx z (List.mem_append_right ys hz)) left hleft hleftstop
    simp only [feed, hdrain, this, Option.bind_some, Option.map_some]

end Frames

end Library.Framing
