import Mathlib.Data.List.Basic
import Mathlib.Logic.Function.Basic

/-! The descriptors of the process.

The kernel hands out numbers that are not in use; the threads beside the one that is
modelled open and close descriptors of their own. `calls` is what the modelled thread
has called, the oldest first, and `ClosedOnce` says of it that no descriptor it was
given was closed twice. -/
namespace CoroutineRpc.Net

inductive FdCall where
  /-- `socket()` returned `fd`. -/
  | socket (fd : Int)
  | close (fd : Int)
deriving DecidableEq

inductive FdOwner where
  | ours
  | others
deriving DecidableEq

structure Descriptors where
  owner : Int → Option FdOwner := fun _ => none
  calls : List FdCall := []

namespace Descriptors

/-- `socket()` gives a number that is not in use, or fails with `-1`. -/
def socket (d : Descriptors) (fd : Int) : Option Descriptors :=
  if fd = -1 then some d
  else if 0 ≤ fd ∧ d.owner fd = none then
    some ⟨Function.update d.owner fd (some .ours), d.calls ++ [.socket fd]⟩
  else none

/-- `close(fd)` closes the descriptor whoever it belongs to. -/
def close (d : Descriptors) (fd : Int) : Descriptors :=
  ⟨Function.update d.owner fd none, d.calls ++ [.close fd]⟩

/-- Another thread opens a descriptor, or closes one of its own. -/
def elsewhere (d : Descriptors) (fd : Int) : Option Descriptors :=
  if d.owner fd = none then some {d with owner := Function.update d.owner fd (some .others)}
  else if d.owner fd = some .others then some {d with owner := Function.update d.owner fd none}
  else none

end Descriptors

/-- How often a descriptor `fd` was closed by the calls after it was given: up to the next time
that `socket()` returned its number. -/
def closings (fd : Int) : List FdCall → Nat
  | [] => 0
  | .socket other :: rest => if other = fd then 0 else closings fd rest
  | .close other :: rest => if other = fd then closings fd rest + 1 else closings fd rest

def ClosedOnce (calls : List FdCall) : Prop :=
  ∀ before fd after, calls = before ++ .socket fd :: after → closings fd after ≤ 1

/-- The number `fd` was given and not closed since. -/
def Held (fd : Int) (calls : List FdCall) : Prop :=
  ∃ before after, calls = before ++ .socket fd :: after ∧ .socket fd ∉ after ∧ .close fd ∉ after

theorem closings_append {fd : Int} {a : List FdCall} (h : .socket fd ∉ a) (b : List FdCall) :
    closings fd (a ++ b) = closings fd a + closings fd b := by
  induction a with
  | nil => simp [closings]
  | cons c rest ih =>
    have hrest := ih fun hmem => h (List.mem_cons_of_mem c hmem)
    cases c with
    | socket other =>
      have hne : other ≠ fd := fun heq => h (heq ▸ List.mem_cons_self ..)
      simp only [List.cons_append, closings, if_neg hne, hrest]
    | close other =>
      simp only [List.cons_append, closings, hrest]
      split <;> omega

/-- What follows the number's next `socket()` does not count. -/
theorem closings_of_mem {fd : Int} {a : List FdCall} (h : .socket fd ∈ a) (b : List FdCall) :
    closings fd (a ++ b) = closings fd a := by
  induction a with
  | nil => cases h
  | cons c rest ih =>
    cases c with
    | socket other =>
      by_cases hother : other = fd
      · simp only [List.cons_append, closings, if_pos hother]
      · have hmem := (List.mem_cons.mp h).resolve_left fun heq => hother (FdCall.socket.inj heq).symm
        simp only [List.cons_append, closings, if_neg hother, ih hmem]
    | close other =>
      have hmem := (List.mem_cons.mp h).resolve_left nofun
      simp only [List.cons_append, closings, ih hmem]

theorem closings_zero {fd : Int} {a : List FdCall} (h : .close fd ∉ a) : closings fd a = 0 := by
  induction a with
  | nil => rfl
  | cons c rest ih =>
    have hrest := ih fun hmem => h (List.mem_cons_of_mem c hmem)
    cases c with
    | socket other => simp only [closings, hrest, ite_self]
    | close other =>
      have hne : other ≠ fd := fun heq => h (heq ▸ List.mem_cons_self ..)
      simp only [closings, if_neg hne, hrest]

/-! ### One more call -/

/-- One more call counts for the descriptors that were given before it. -/
theorem closedOnce_append {calls : List FdCall} (h : ClosedOnce calls) (c : FdCall)
    (hc : ∀ before fd after, calls = before ++ .socket fd :: after → .socket fd ∉ after →
      closings fd after + closings fd [c] ≤ 1) : ClosedOnce (calls ++ [c]) := by
  intro before fd after heq
  rcases List.eq_nil_or_concat after with rfl | ⟨front, last, rfl⟩
  · exact Nat.zero_le 1
  rw [List.concat_eq_append] at heq ⊢
  rw [← List.cons_append, ← List.append_assoc] at heq
  obtain ⟨rfl, hlast⟩ := List.append_inj' heq rfl
  obtain rfl := (List.cons.inj hlast).1
  by_cases hmem : .socket fd ∈ front
  · rw [closings_of_mem hmem]
    exact h before fd front rfl
  · rw [closings_append hmem]
    exact hc before fd front rfl hmem

theorem closedOnce_socket {calls : List FdCall} (h : ClosedOnce calls) (fd : Int) :
    ClosedOnce (calls ++ [.socket fd]) := by
  apply closedOnce_append h
  intro before other after heq _
  have hone : closings other [.socket fd] = 0 := closings_zero (by simp)
  rw [hone]
  exact h before other after heq

/-- A descriptor that is held may be closed. -/
theorem closedOnce_close {calls : List FdCall} (h : ClosedOnce calls) {fd : Int} (hheld : Held fd calls) :
    ClosedOnce (calls ++ [.close fd]) := by
  apply closedOnce_append h
  intro before other after heq hlatest
  by_cases hother : other = fd
  · subst hother
    obtain ⟨before', after', heq', hsocket, hclose⟩ := hheld
    -- the two splits are at the latest `socket()` of the number
    obtain rfl : after = after' := by
      rw [heq'] at heq
      rcases List.append_eq_append_iff.mp heq with ⟨as, -, has⟩ | ⟨bs, -, hbs⟩
      · cases as with
        | nil => exact ((List.cons.inj has).2).symm
        | cons c as =>
          refine absurd ?_ hsocket
          rw [(List.cons.inj has).2]
          simp
      · cases bs with
        | nil => exact (List.cons.inj hbs).2
        | cons c bs =>
          refine absurd ?_ hlatest
          rw [(List.cons.inj hbs).2]
          simp
    rw [closings_zero hclose]
    simp [closings]
  · have hone : closings other [.close fd] = 0 := closings_zero (by simpa using hother)
    rw [hone]
    exact h before other after heq

theorem held_socket (fd : Int) (calls : List FdCall) : Held fd (calls ++ [.socket fd]) :=
  ⟨calls, [], rfl, by simp, by simp⟩

end CoroutineRpc.Net
