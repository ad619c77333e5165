import CoroutineRpc.Library.Transition
import Mathlib.Logic.Function.Basic

/-! A server connection that two threads close.

The time wheel calls `shutdownConnection` on the main reactor, the coroutine of the
connection calls `clearClient` on its IO thread. Each call of `getState`, `setState`, `close`
and `shutdown` is one step. The test of the state and what it guards are different steps, so
a connection can close in between. -/
namespace CoroutineRpc.Net.Tcp
open Library.Transition

inductive TcpConnectionState where
  | notConnected
  | connected
  | halfClosing
  | closed
deriving DecidableEq

namespace Closing

/-- Where the main thread is in `shutdownConnection`: not in it, after its `getState`, or
after its `setState`. -/
inductive ShutdownPc where
  | idle
  | tested
  | halfClosing
deriving DecidableEq

/-- Where the IO thread is in `clearClient`: not in it, after its `getState`, or after its `close`. -/
inductive ClearPc where
  | idle
  | tested
  | closed
deriving DecidableEq

/-- A `ServerConnection`, its descriptor, and the places of the two threads. -/
structure State where
  mState : TcpConnectionState := .connected
  mStop : Bool := false
  fdOpen : Bool := true
  /-- `m_clients` has let go of the connection. -/
  released : Bool := false
  main : ShutdownPc := .idle
  io : ClearPc := .idle
deriving DecidableEq

/-- The next step of a thread, or a tick of `ClearClientTimerFunc` on the main thread. -/
inductive Input where
  | shutdownConnection
  | clearClient
  | clearClientTimer
deriving DecidableEq

def shutdownConnection (s : State) : Option State :=
  match s.main with
  | .idle =>
    -- the slot of the wheel holds the connection weakly
    if s.released then none
    else if s.mState = .closed ∨ s.mState = .notConnected then some s
    else some {s with main := .tested}
  | .tested => some {s with mState := .halfClosing, main := .halfClosing}
  | .halfClosing => some {s with main := .idle}

def clearClient (s : State) : State :=
  match s.io with
  | .idle => if s.mState = .closed then s else {s with io := .tested}
  | .tested => {s with mStop := true, fdOpen := false, io := .closed}
  | .closed => {s with mState := .closed, io := .idle}

def clearClientTimer (s : State) : Option State :=
  match s.main with
  | .idle => if s.mState = .closed then some {s with released := true} else some s
  | _ => none

def step (s : State) : Input → Option State
  | .shutdownConnection => shutdownConnection s
  | .clearClient => some (clearClient s)
  | .clearClientTimer => clearClientTimer s

/-- What a step can do. -/
theorem step_cases {s t : State} {i : Input} (h : step s i = some t) :
    t = s ∨
    (i = .shutdownConnection ∧ s.main = .idle ∧ s.mState ≠ .closed ∧ t = {s with main := .tested}) ∨
    (i = .shutdownConnection ∧ s.main = .tested ∧
      t = {s with mState := .halfClosing, main := .halfClosing}) ∨
    (i = .shutdownConnection ∧ s.main = .halfClosing ∧ t = {s with main := .idle}) ∨
    (i = .clearClient ∧ s.mState ≠ .closed ∧ s.io = .idle ∧ t = {s with io := .tested}) ∨
    (i = .clearClient ∧ s.io = .tested ∧ t = {s with mStop := true, fdOpen := false, io := .closed}) ∨
    (i = .clearClient ∧ s.io = .closed ∧ t = {s with mState := .closed, io := .idle}) ∨
    (i = .clearClientTimer ∧ s.main = .idle ∧ t = {s with released := true}) := by
  cases i with
  | shutdownConnection =>
    simp only [step, shutdownConnection] at h
    cases hmain : s.main with
    | idle =>
      simp only [hmain] at h
      split at h
      · cases h
      split at h
      · exact .inl (Option.some.inj h).symm
      · next hstate => exact .inr (.inl ⟨rfl, rfl, fun hc => hstate (.inl hc), (Option.some.inj h).symm⟩)
    | tested =>
      simp only [hmain] at h
      exact .inr (.inr (.inl ⟨rfl, rfl, (Option.some.inj h).symm⟩))
    | halfClosing =>
      simp only [hmain] at h
      exact .inr (.inr (.inr (.inl ⟨rfl, rfl, (Option.some.inj h).symm⟩)))
  | clearClient =>
    simp only [step, clearClient] at h
    cases hio : s.io with
    | idle =>
      simp only [hio] at h
      split at h
      · exact .inl (Option.some.inj h).symm
      · next hstate =>
        exact .inr (.inr (.inr (.inr (.inl ⟨rfl, hstate, rfl, (Option.some.inj h).symm⟩))))
    | tested =>
      simp only [hio] at h
      exact .inr (.inr (.inr (.inr (.inr (.inl ⟨rfl, rfl, (Option.some.inj h).symm⟩)))))
    | closed =>
      simp only [hio] at h
      exact .inr (.inr (.inr (.inr (.inr (.inr (.inl ⟨rfl, rfl, (Option.some.inj h).symm⟩))))))
  | clearClientTimer =>
    simp only [step, clearClientTimer] at h
    split at h
    · next hmain =>
      split at h
      · exact .inr (.inr (.inr (.inr (.inr (.inr (.inr ⟨rfl, hmain, (Option.some.inj h).symm⟩))))))
      · exact .inl (Option.some.inj h).symm
    · cases h

/-- The main thread is to call `shutdown`. -/
def Shuts (s : State) (i : Input) : Prop := i = .shutdownConnection ∧ s.main = .halfClosing

instance (s : State) (i : Input) : Decidable (Shuts s i) :=
  inferInstanceAs (Decidable (_ ∧ _))

/-- A step leaves a closed connection closed, and does not call `shutdown` on a descriptor
that was closed. -/
structure Final (s : State) (i : Input) : Prop where
  closed : s.mState = .closed → ∀ t ∈ step s i, t.mState = .closed
  shut : Shuts s i → s.fdOpen

instance (s : State) (i : Input) : Decidable (Final s i) :=
  decidable_of_iff ((s.mState = .closed → ∀ t ∈ step s i, t.mState = .closed) ∧ (Shuts s i → s.fdOpen))
    ⟨fun h => ⟨h.1, h.2⟩, fun h => ⟨h.1, h.2⟩⟩

/-- `clearClient` closes the descriptor while no `shutdownConnection` is past its test, and none
makes its test between the `close` and the `setState` of `clearClient`. -/
structure Orderly (s : State) (i : Input) : Prop where
  close : i = .clearClient → s.io = .tested → s.main = .idle
  test : i = .shutdownConnection → s.main = .idle → s.io ≠ .closed

instance (s : State) (i : Input) : Decidable (Orderly s i) :=
  decidable_of_iff ((i = .clearClient → s.io = .tested → s.main = .idle) ∧
    (i = .shutdownConnection → s.main = .idle → s.io ≠ .closed)) ⟨fun h => ⟨h.1, h.2⟩, fun h => ⟨h.1, h.2⟩⟩

/-! ### Orderly runs -/

/-- The state and the descriptor are closed together, but for the end of `clearClient`, and
not while `shutdownConnection` is past its test. -/
structure Together (s : State) : Prop where
  fdOpen : s.fdOpen ↔ s.mState ≠ .closed ∧ s.io ≠ .closed
  io : s.io ≠ .idle → s.mState ≠ .closed
  main : s.main ≠ .idle → s.fdOpen
  server : s.mState ≠ .notConnected

theorem together_init : Together {} where
  fdOpen := by simp
  io := by simp
  main := by simp
  server := by simp

theorem Together.step {s t : State} {i : Input} (h : Together s) (ho : Orderly s i)
    (hs : step s i = some t) : Together t := by
  rcases step_cases hs with rfl | ⟨rfl, hmain, hstate, rfl⟩ | ⟨rfl, hmain, rfl⟩ | ⟨rfl, hmain, rfl⟩ |
    ⟨rfl, hstate, hio, rfl⟩ | ⟨rfl, hio, rfl⟩ | ⟨rfl, hio, rfl⟩ | ⟨rfl, hmain, rfl⟩
  · exact h
  · exact ⟨h.fdOpen, h.io, fun _ => h.fdOpen.mpr ⟨hstate, ho.test rfl hmain⟩, h.server⟩
  · have hopen : s.fdOpen := h.main (by simp [hmain])
    exact ⟨iff_of_true hopen ⟨by simp, (h.fdOpen.mp hopen).2⟩, by simp, fun _ => hopen, by simp⟩
  · exact ⟨h.fdOpen, h.io, by simp, h.server⟩
  · have hopen : s.fdOpen := h.fdOpen.mpr ⟨hstate, by simp [hio]⟩
    exact ⟨iff_of_true hopen ⟨hstate, by simp⟩, fun _ => hstate, h.main, h.server⟩
  · have hidle : s.main = .idle := ho.close rfl hio
    exact ⟨by simp, fun _ => h.io (by simp [hio]), fun hne => absurd hidle hne, h.server⟩
  · have hclosed : s.fdOpen ≠ true := fun hopen => (h.fdOpen.mp hopen).2 hio
    exact ⟨iff_of_false hclosed (by simp), by simp, h.main, by simp⟩
  · exact ⟨h.fdOpen, h.io, h.main, h.server⟩

theorem Together.final {s : State} (h : Together s) (i : Input) : Final s i where
  closed hclosed t ht := by
    have hidle : s.main = .idle := by
      by_contra hmain
      exact (h.fdOpen.mp (h.main hmain)).1 hclosed
    rcases step_cases (Option.mem_def.mp ht) with rfl | ⟨-, -, -, rfl⟩ | ⟨-, hmain, -⟩ | ⟨-, -, rfl⟩ |
      ⟨-, -, -, rfl⟩ | ⟨-, -, rfl⟩ | ⟨-, -, rfl⟩ | ⟨-, -, rfl⟩
    · exact hclosed
    · exact hclosed
    · rw [hidle] at hmain
      cases hmain
    · exact hclosed
    · exact hclosed
    · exact hclosed
    · rfl
    · exact hclosed
  shut hshuts := h.main (by simp [hshuts.2])

/-! ### Disorderly runs -/

/-- A `shutdownConnection` past its test when the descriptor is closed ends with a `shutdown`. -/
theorem not_final_of_past {s u : State} {inputs : List Input} (hr : run step s inputs = some u)
    (hu : u.main = .idle) (hmain : s.main ≠ .idle) (hclosed : s.fdOpen ≠ true) :
    ¬ Meets step Final s inputs := by
  induction inputs generalizing s with
  | nil => exact fun _ => hmain (Option.some.inj hr ▸ hu)
  | cons i rest ih =>
    obtain ⟨t, ht, hrest⟩ := run_cons_some.mp hr
    intro hmeets
    have hafter := hmeets.2 t ht
    rcases step_cases ht with heq | ⟨rfl, hidle, -, rfl⟩ | ⟨rfl, -, rfl⟩ | ⟨rfl, hpc, rfl⟩ |
      ⟨rfl, -, -, rfl⟩ | ⟨rfl, -, rfl⟩ | ⟨rfl, -, rfl⟩ | ⟨rfl, -, rfl⟩
    · rw [heq] at hrest hafter
      exact ih hrest hmain hclosed hafter
    · exact hmain hidle
    · exact ih hrest (by simp) hclosed hafter
    · exact hclosed (hmeets.1.shut ⟨rfl, hpc⟩)
    · exact ih hrest hmain hclosed hafter
    · exact ih hrest hmain (by simp) hafter
    · exact ih hrest hmain hclosed hafter
    · exact ih hrest hmain hclosed hafter

theorem Together.orderly {s t u : State} {i : Input} (h : Together s) {rest : List Input}
    (hs : Closing.step s i = some t) (hr : run Closing.step t rest = some u) (hu : u.main = .idle)
    (hf : Meets Closing.step Final t rest) : Orderly s i where
  close hi hio := by
    by_contra hmain
    subst hi
    simp only [Closing.step, clearClient, hio] at hs
    obtain rfl := Option.some.inj hs
    exact not_final_of_past hr hu hmain (by simp) hf
  test hi hmain hio := by
    subst hi
    have hstate : ¬ (s.mState = .closed ∨ s.mState = .notConnected) := by
      simp [h.io (by simp [hio]), h.server]
    simp only [Closing.step, shutdownConnection, hmain, if_neg hstate] at hs
    split at hs
    · cases hs
    obtain rfl := Option.some.inj hs
    exact not_final_of_past hr hu (by simp) (fun hopen => (h.fdOpen.mp hopen).2 hio) hf

theorem Together.meets_orderly {s u : State} (h : Together s) {inputs : List Input}
    (hr : run Closing.step s inputs = some u) (hu : u.main = .idle)
    (hf : Meets Closing.step Final s inputs) : Meets Closing.step Orderly s inputs := by
  induction inputs generalizing s with
  | nil => trivial
  | cons i rest ih =>
    obtain ⟨t, ht, hrest⟩ := run_cons_some.mp hr
    have ho : Orderly s i := h.orderly ht hrest hu (hf.2 t ht)
    refine ⟨ho, fun t' ht' => ?_⟩
    obtain rfl : t = t' := Option.some.inj (ht.symm.trans ht')
    exact ih (h.step ho ht) hrest (hf.2 t ht)

/-- **Closed is final** in every orderly run, and, where the calls of `shutdownConnection` have
all returned, in no other. -/
theorem final_of_orderly (inputs : List Input) :
    (Meets step Orderly {} inputs → Meets step Final {} inputs) ∧
      ∀ u, run step {} inputs = some u → u.main = .idle →
        (Meets step Final {} inputs ↔ Meets step Orderly {} inputs) := by
  have hforward : Meets step Orderly {} inputs → Meets step Final {} inputs :=
    Meets.imp_of_step (fun _ _ _ h ho hs => h.step ho hs) (fun _ i h _ => h.final i) together_init
  exact ⟨hforward, fun u hr hu => ⟨together_init.meets_orderly hr hu, hforward⟩⟩

/-- The time wheel shuts the connection down, its coroutine closes it, the timer lets it go. -/
theorem final_of_orderly_both :
    Meets step Final {} [.shutdownConnection, .shutdownConnection, .clearClient, .shutdownConnection,
      .clearClient, .clearClient, .shutdownConnection, .clearClientTimer] :=
  (final_of_orderly _).1 (by decide)

/-- The connection closes after the test of `shutdownConnection`, which then opens it again for
the program and shuts the closed descriptor down. -/
theorem not_final_late_shutdown : ¬ ∀ inputs : List Input, Meets step Final {} inputs := fun h => by
  have := h [.shutdownConnection, .clearClient, .clearClient, .clearClient, .shutdownConnection,
    .shutdownConnection]
  revert this
  decide

end Closing
end CoroutineRpc.Net.Tcp
