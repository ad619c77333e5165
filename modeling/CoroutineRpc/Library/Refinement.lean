import CoroutineRpc.Library.Transition

/-! Refinement of a total function by a partial step function.

A step that a guard allows is enabled, and does to the abstraction of a state what `spec` says
(`Refines`). A guarded run is then enabled to its end, and does what its inputs do one after
the other (`Refines.run`). Where a guard says exactly which of the inputs that are to be expected are
enabled, it says exactly which runs go to their end (`enabled_iff_meets`). -/
namespace Library.Refinement
open Library.Transition
variable {S I A : Type} {step : S → I → Option S} {spec : A → I → A} {R : S → A → Prop} {G : S → I → Prop}

/-- Where the guard allows an input, the step is enabled and keeps the relation. -/
def Refines (step : S → I → Option S) (spec : A → I → A) (R : S → A → Prop) (G : S → I → Prop) : Prop :=
  ∀ s a i, R s a → G s i → ∃ t, step s i = some t ∧ R t (spec a i)

/-- **The induction over a guarded run.** -/
theorem Refines.run (h : Refines step spec R G) {s : S} {a : A} {is : List I} (hs : R s a)
    (hg : Meets step G s is) : ∃ t, run step s is = some t ∧ R t (is.foldl spec a) := by
  induction is generalizing s a with
  | nil => exact ⟨s, rfl, hs⟩
  | cons i rest ih =>
    obtain ⟨t, ht, hr⟩ := h s a i hs hg.1
    obtain ⟨u, hu, hlast⟩ := ih hr (hg.2 t ht)
    exact ⟨u, run_cons_some.mpr ⟨t, ht, hu⟩, hlast⟩

/-- `Q` is what every enabled step keeps, and `E` says which inputs come. -/
theorem enabled_iff_meets {Q : S → Prop} {E : S → I → Prop}
    (hQ : ∀ s i t, Q s → E s i → step s i = some t → Q t)
    (henabled : ∀ s i, Q s → E s i → ((∃ t, step s i = some t) ↔ G s i)) {s : S} {is : List I} (hs : Q s)
    (he : Meets step E s is) : (∃ t, run step s is = some t) ↔ Meets step G s is := by
  induction is generalizing s with
  | nil => exact ⟨fun _ => trivial, fun _ => ⟨s, rfl⟩⟩
  | cons i rest ih =>
    have hfirst := henabled s i hs he.1
    constructor
    · rintro ⟨u, hu⟩
      obtain ⟨t, ht, hrest⟩ := run_cons_some.mp hu
      refine ⟨hfirst.mp ⟨t, ht⟩, fun t' ht' => ?_⟩
      obtain rfl : t = t' := Option.some.inj (ht.symm.trans ht')
      exact (ih (hQ s i t hs he.1 ht) (he.2 t ht)).mp ⟨u, hrest⟩
    · rintro ⟨hg, hrest⟩
      obtain ⟨t, ht⟩ := hfirst.mpr hg
      obtain ⟨u, hu⟩ := (ih (hQ s i t hs he.1 ht) (he.2 t ht)).mpr (hrest t ht)
      exact ⟨u, run_cons_some.mpr ⟨t, ht, hu⟩⟩

end Library.Refinement
