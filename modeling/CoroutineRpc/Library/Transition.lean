import Mathlib.Data.List.Basic

/-! Runs of a partial step function.

A system is a function `step : S → I → Option S`, `none` where the input is not
enabled. A guard `G : S → I → Prop` says which inputs a run may take in which
states; `Meets` asks it of every step. The rules below turn what one step does
into what a whole run does: `always_of_inductive` for properties every step keeps,
`always_of_step` for properties a guarded step keeps, `always_iff_meets` for properties
that hold exactly while the guard is met, `sometime_of_run` for what a run that loses a
property has done on its way. -/
namespace Library.Transition
variable {S I : Type}

def run (step : S → I → Option S) : S → List I → Option S
  | s, [] => some s
  | s, i :: rest => (step s i).bind fun t => run step t rest

/-- Every step of the run is one the guard allows in the state it is taken in. -/
def Meets (step : S → I → Option S) (G : S → I → Prop) : S → List I → Prop
  | _, [] => True
  | s, i :: rest => G s i ∧ ∀ t, step s i = some t → Meets step G t rest

/-- `P` holds in every state the run passes through, the first and the last included. -/
def Always (step : S → I → Option S) (P : S → Prop) : S → List I → Prop
  | s, [] => P s
  | s, i :: rest => P s ∧ ∀ t, step s i = some t → Always step P t rest

variable {step : S → I → Option S} {P Q : S → Prop} {G : S → I → Prop}

theorem forall_some {o : Option S} {R : S → Prop} :
    (∀ t, o = some t → R t) ↔ match o with | none => True | some t => R t := by
  cases o with
  | none => simp
  | some t => simp

/-- A guard that can be evaluated can be evaluated along a run. -/
instance decidableMeets [∀ s i, Decidable (G s i)] : ∀ s is, Decidable (Meets step G s is)
  | _, [] => isTrue trivial
  | s, i :: rest =>
    have : Decidable (match step s i with | none => True | some t => Meets step G t rest) :=
      match step s i with
      | none => isTrue trivial
      | some t => decidableMeets t rest
    decidable_of_iff (G s i ∧ match step s i with | none => True | some t => Meets step G t rest)
      (and_congr_right fun _ => forall_some.symm)

instance decidableAlways [∀ s, Decidable (P s)] : ∀ s is, Decidable (Always step P s is)
  | s, [] => inferInstanceAs (Decidable (P s))
  | s, i :: rest =>
    have : Decidable (match step s i with | none => True | some t => Always step P t rest) :=
      match step s i with
      | none => isTrue trivial
      | some t => decidableAlways t rest
    decidable_of_iff (P s ∧ match step s i with | none => True | some t => Always step P t rest)
      (and_congr_right fun _ => forall_some.symm)

theorem run_cons (s : S) (i : I) (rest : List I) :
    run step s (i :: rest) = (step s i).bind fun t => run step t rest := rfl

theorem run_cons_some {s u : S} {i : I} {rest : List I} :
    run step s (i :: rest) = some u ↔ ∃ t, step s i = some t ∧ run step t rest = some u := by
  rw [run_cons, Option.bind_eq_some_iff]

theorem run_append (s : S) (a b : List I) :
    run step s (a ++ b) = (run step s a).bind fun t => run step t b := by
  induction a generalizing s with
  | nil => rfl
  | cons i rest ih =>
    rw [List.cons_append, run_cons, run_cons, Option.bind_assoc]
    exact congrArg _ (funext fun t => ih t)

/-! ### What a guarded step keeps, a guarded run keeps -/

theorem Always.head {s : S} {is : List I} (h : Always step P s is) : P s := by
  cases is with
  | nil => exact h
  | cons i rest => exact h.1

theorem Always.last {s t : S} {is : List I} (h : Always step P s is)
    (hr : run step s is = some t) : P t := by
  induction is generalizing s with
  | nil => exact Option.some.inj hr ▸ h
  | cons i rest ih =>
    obtain ⟨u, hu, hrest⟩ := run_cons_some.mp hr
    exact ih (h.2 u hu) hrest

/-- The induction over a guarded run. -/
theorem always_of_step (hstep : ∀ s i t, P s → G s i → step s i = some t → P t) {s : S}
    {is : List I} (hs : P s) (hg : Meets step G s is) : Always step P s is := by
  induction is generalizing s with
  | nil => exact hs
  | cons i rest ih => exact ⟨hs, fun t ht => ih (hstep s i t hs hg.1 ht) (hg.2 t ht)⟩

/-- The induction over a run that no guard restrains. -/
theorem always_of_inductive (hstep : ∀ s i t, P s → step s i = some t → P t) {s : S} (hs : P s)
    (is : List I) : Always step P s is := by
  induction is generalizing s with
  | nil => exact hs
  | cons i rest ih => exact ⟨hs, fun t ht => ih (hstep s i t hs ht)⟩

/-- A run that starts in a state of an inductive set takes only the steps such states allow. -/
theorem meets_of_inductive (hstep : ∀ s i t, Q s → step s i = some t → Q t)
    (hguard : ∀ s i, Q s → G s i) {s : S} (hs : Q s) (is : List I) : Meets step G s is := by
  induction is generalizing s with
  | nil => trivial
  | cons i rest ih => exact ⟨hguard s i hs, fun t ht => ih (hstep s i t hs ht)⟩

/-- While a guarded run keeps `Q`, a guard that `Q` makes stronger than another is met with it. -/
theorem Meets.imp_of_step {H : S → I → Prop} (hstep : ∀ s i t, Q s → G s i → step s i = some t → Q t)
    (himp : ∀ s i, Q s → G s i → H s i) {s : S} {is : List I} (hs : Q s) (h : Meets step G s is) :
    Meets step H s is := by
  induction is generalizing s with
  | nil => trivial
  | cons i rest ih => exact ⟨himp s i hs h.1, fun t ht => ih (hstep s i t hs h.1 ht) (h.2 t ht)⟩

/-- What all inputs of a run have in common can be asked of each step. -/
theorem meets_of_mem {H : I → Prop} {is : List I} (h : ∀ i ∈ is, H i) (s : S) :
    Meets step (fun _ i => H i) s is := by
  induction is generalizing s with
  | nil => trivial
  | cons i rest ih => exact ⟨h i List.mem_cons_self, fun t _ => ih (fun j hj => h j (List.mem_cons_of_mem _ hj)) t⟩

/-- What a guarded run asks of a step on its way. -/
theorem Meets.at_step {s t : S} {a b : List I} {i : I} (h : Meets step G s (a ++ i :: b))
    (hr : run step s a = some t) : G t i := by
  induction a generalizing s with
  | nil => exact Option.some.inj hr ▸ h.1
  | cons j rest ih =>
    obtain ⟨u, hu, hrest⟩ := run_cons_some.mp hr
    exact ih (h.2 u hu) hrest

theorem Meets.append {s t : S} {a b : List I} (h : Meets step G s a) (hr : run step s a = some t)
    (hb : Meets step G t b) : Meets step G s (a ++ b) := by
  induction a generalizing s with
  | nil =>
    obtain rfl := Option.some.inj hr
    exact hb
  | cons i rest ih =>
    refine ⟨h.1, fun u hu => ih (h.2 u hu) ?_⟩
    rwa [run_cons, hu] at hr

theorem Meets.and {H : S → I → Prop} {s : S} {is : List I} (h : Meets step G s is) (h' : Meets step H s is) :
    Meets step (fun s i => G s i ∧ H s i) s is := by
  induction is generalizing s with
  | nil => trivial
  | cons i rest ih => exact ⟨⟨h.1, h'.1⟩, fun t ht => ih (h.2 t ht) (h'.2 t ht)⟩

theorem Always.imp (hPQ : ∀ s, P s → Q s) {s : S} {is : List I} (h : Always step P s is) :
    Always step Q s is := by
  induction is generalizing s with
  | nil => exact hPQ s h
  | cons i rest ih => exact ⟨hPQ s h.1, fun t ht => ih (h.2 t ht)⟩

/-- A property that each step re-establishes exactly when the guard allows the step
holds all along a run exactly when the run meets the guard. `Q` is what every run
keeps, guarded or not; only inputs that are enabled count. -/
theorem always_iff_meets (hQ : ∀ s i t, Q s → step s i = some t → Q t)
    (hP : ∀ s i t, Q s → P s → step s i = some t → (P t ↔ G s i)) {s u : S} {is : List I}
    (hq : Q s) (hp : P s) (hr : run step s is = some u) :
    Always step P s is ↔ Meets step G s is := by
  induction is generalizing s with
  | nil => exact ⟨fun _ => trivial, fun _ => hp⟩
  | cons i rest ih =>
    obtain ⟨t, ht, hrest⟩ := run_cons_some.mp hr
    have hiff := hP s i t hq hp ht
    constructor
    · rintro ⟨_, h⟩
      have hpt : P t := (h t ht).head
      refine ⟨hiff.mp hpt, fun t' ht' => ?_⟩
      obtain rfl : t = t' := Option.some.inj (ht.symm.trans ht')
      exact (ih (hQ s i t hq ht) hpt hrest).mp (h t ht)
    · rintro ⟨hg, h⟩
      refine ⟨hp, fun t' ht' => ?_⟩
      obtain rfl : t = t' := Option.some.inj (ht.symm.trans ht')
      exact (ih (hQ s i t hq ht) (hiff.mpr hg) hrest).mpr (h t ht)

/-! ### What happens on the way -/

/-- At some step of the run `R` holds of the state, the input, the state after and the inputs
that are left. -/
def Sometime (step : S → I → Option S) (R : S → I → S → List I → Prop) : S → List I → Prop
  | _, [] => False
  | s, i :: rest => ∃ t, step s i = some t ∧ (R s i t rest ∨ Sometime step R t rest)

variable {R : S → I → S → List I → Prop}

/-- A run that leaves `P` behind takes a step that `P` allows and after which it may not hold. -/
theorem sometime_of_run {s u : S} {is : List I}
    (hstep : ∀ s i t rest, P s → step s i = some t → run step t rest = some u → R s i t rest ∨ P t)
    (hs : P s) (hr : run step s is = some u) (hu : ¬ P u) : Sometime step R s is := by
  induction is generalizing s with
  | nil => exact absurd (Option.some.inj hr ▸ hs) hu
  | cons i rest ih =>
    obtain ⟨t, ht, hrest⟩ := run_cons_some.mp hr
    exact ⟨t, ht, (hstep s i t rest hs ht hrest).imp_right fun hp => ih hp hrest⟩

/-- The step is one of a state that has what every step keeps. -/
theorem Sometime.of_inductive (hstep : ∀ s i t, Q s → step s i = some t → Q t) {s : S} {is : List I}
    (h : Sometime step R s is) (hs : Q s) : ∃ t i u rest, Q t ∧ step t i = some u ∧ R t i u rest := by
  induction is generalizing s with
  | nil => exact h.elim
  | cons i rest ih =>
    obtain ⟨t, ht, hnow | hlater⟩ := h
    · exact ⟨s, i, t, rest, hs, ht, hnow⟩
    · exact ih hlater (hstep s i t hs ht)

theorem sometime_at {s t u : S} {a rest : List I} {i : I} (hr : run step s a = some t) (hu : step t i = some u)
    (h : R t i u rest) : Sometime step R s (a ++ i :: rest) := by
  induction a generalizing s with
  | nil =>
    obtain rfl := Option.some.inj hr
    exact ⟨u, hu, .inl h⟩
  | cons j a ih =>
    obtain ⟨v, hv, hrest⟩ := run_cons_some.mp hr
    exact ⟨v, hv, .inr (ih hrest)⟩

/-- What holds after a step if it did before or if the step is one of a kind, and never else, holds after
a run if it did before or if such a step was taken. -/
theorem sometime_iff_of_step (hQ : ∀ s i t, Q s → step s i = some t → Q t) {K : S → I → Prop}
    (hP : ∀ s i t, Q s → step s i = some t → (P t ↔ P s ∨ K s i)) {s u : S} {is : List I} (hs : Q s)
    (hr : run step s is = some u) : P u ↔ P s ∨ Sometime step (fun s i _ _ => K s i) s is := by
  induction is generalizing s with
  | nil => simp [Option.some.inj hr, Sometime]
  | cons i rest ih =>
    obtain ⟨t, ht, hrest⟩ := run_cons_some.mp hr
    rw [ih (hQ s i t hs ht) hrest, hP s i t hs ht, or_assoc]
    refine or_congr_right ⟨fun h => ⟨t, ht, h⟩, ?_⟩
    rintro ⟨t', ht', h⟩
    exact Option.some.inj (ht.symm.trans ht') ▸ h

end Library.Transition
