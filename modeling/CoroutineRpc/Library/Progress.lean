import Mathlib.Order.RelClasses

/-! What a deterministic system comes to.

A system is a function `next : C → Option C`, `none` where it has no step. `Eventually next P`
holds of the states from which it comes to one that has `P`, after finitely many steps. A
variant that decreases shows that it does (`eventually_of_variant`); a set of states that lead
to each other shows that it does not (`not_eventually_of_leads`). -/
namespace Library.Progress
variable {C : Type}

inductive Eventually (next : C → Option C) (P : C → Prop) : C → Prop where
  | now {c : C} : P c → Eventually next P c
  | later {c d : C} : next c = some d → Eventually next P d → Eventually next P c

variable {next : C → Option C} {P Q : C → Prop}

/-- From one state the system comes to another by one step or more, with `P` nowhere before. -/
inductive Leads (next : C → Option C) (P : C → Prop) : C → C → Prop where
  | one {c d : C} : ¬ P c → next c = some d → Leads next P c d
  | more {c d e : C} : ¬ P c → next c = some d → Leads next P d e → Leads next P c e

theorem Leads.trans {c d e : C} (h : Leads next P c d) (h' : Leads next P d e) : Leads next P c e := by
  induction h with
  | one hc hnext => exact .more hc hnext h'
  | more hc hnext _ ih => exact .more hc hnext (ih h')

/-- A step on the way changes nothing. -/
theorem eventually_iff_next {c d : C} (hc : ¬ P c) (hnext : next c = some d) :
    Eventually next P c ↔ Eventually next P d := by
  constructor
  · rintro (hnow | ⟨hnext', hlater⟩)
    · exact absurd hnow hc
    · exact Option.some.inj (hnext.symm.trans hnext') ▸ hlater
  · exact .later hnext

theorem Leads.eventually_iff {c d : C} (h : Leads next P c d) : Eventually next P c ↔ Eventually next P d := by
  induction h with
  | one hc hnext => exact eventually_iff_next hc hnext
  | more hc hnext _ ih => exact (eventually_iff_next hc hnext).trans ih

/-- `Q a` says of a state where it stands and how far `P` may be: each such state has `P`, or a step
to one that has `P` or is less far. -/
theorem eventually_of_variant {α : Type} [LT α] [WellFoundedLT α] {Q : α → C → Prop}
    (hstep : ∀ a c, Q a c → P c ∨ ∃ d, next c = some d ∧ (P d ∨ ∃ b < a, Q b d)) {a : α} {c : C}
    (hc : Q a c) : Eventually next P c := by
  induction a using WellFoundedLT.induction generalizing c with
  | _ a ih =>
    rcases hstep a c hc with hp | ⟨d, hnext, hp | ⟨b, hless, hd⟩⟩
    · exact .now hp
    · exact .later hnext (.now hp)
    · exact .later hnext (ih b hless hd)

/-- A system that goes on for ever. -/
theorem not_eventually_of_leads (hleads : ∀ c, Q c → ∃ d, Leads next P c d ∧ Q d) {c : C} (hc : Q c) :
    ¬ Eventually next P c := by
  intro h
  have hnever : ∀ d, Leads next P c d → ¬ Q d := by
    clear hc
    induction h with
    | now hp =>
      rintro d (⟨hnot, -⟩ | ⟨hnot, -, -⟩) <;> exact absurd hp hnot
    | later hnext _ ih =>
      rintro d (⟨-, hnext'⟩ | ⟨-, hnext', hrest⟩) hd
      · obtain rfl := Option.some.inj (hnext.symm.trans hnext')
        obtain ⟨e, hlead, he⟩ := hleads _ hd
        exact ih e hlead he
      · obtain rfl := Option.some.inj (hnext.symm.trans hnext')
        exact ih d hrest hd
  obtain ⟨d, hlead, hd⟩ := hleads c hc
  exact hnever d hlead hd

end Library.Progress
