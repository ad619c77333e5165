import CoroutineRpc.Library.Transition
import Mathlib.Logic.Function.Basic
import Mathlib.Data.Fintype.Basic

/-! `CoroutineMutex` and the coroutines that use it.

`unlock` clears `m_lock` also when it hands the mutex to a waiter, and the waiter does
not set it again when it is resumed. From the hand-over to the waiter's own `unlock`
the mutex looks free: another `lock` succeeds, and the waiter's `unlock` wakes nobody.
The two main results say what runs must avoid for the mutex to exclude
(`exclusive_of_orderly`) and exactly which runs leave a waiter behind
(`attended_iff`). -/
namespace CoroutineRpc.Net
open Library.Transition

/-! ### The mutex -/

structure CoroutineMutex (κ : Type) where
  mLock : Bool := false
  mSleepCors : List κ := []
deriving DecidableEq

namespace CoroutineMutex
variable {κ : Type}

/-- `lock` called by `cor`: whether the call returns, or else the coroutine yields. -/
def lock (m : CoroutineMutex κ) (cor : κ) : CoroutineMutex κ × Bool :=
  if ¬ m.mLock then ({m with mLock := true}, true)
  else ({m with mSleepCors := m.mSleepCors ++ [cor]}, false)

/-- `unlock`: the coroutine to be resumed by a task, if any. -/
def unlock (m : CoroutineMutex κ) : CoroutineMutex κ × Option κ :=
  if m.mLock then
    match m.mSleepCors with
    | [] => ({m with mLock := false}, none)
    | cor :: rest => ({m with mLock := false, mSleepCors := rest}, some cor)
  else (m, none)

/-! ### Coroutines and reactors -/

/-- The mutex, the resume tasks in the `m_pending_tasks` of each reactor, how many calls
of `lock` of a coroutine have returned without their `unlock` yet, and who has yielded. -/
structure State (κ τ : Type) where
  mutex : CoroutineMutex κ := {}
  pendingTasks : τ → List κ := fun _ => []
  holds : κ → Nat := fun _ => 0
  asleep : κ → Bool := fun _ => false

/-- A call of `lock` or `unlock`, by a coroutine or by a main coroutine (`none`), or a
reactor running its next resume task. `unlock` adds its task to the reactor of the
thread it runs on. -/
inductive Event (κ τ : Type) where
  | lock (caller : Option κ)
  | unlock (caller : Option κ) (reactor : τ)
  | resume (reactor : τ)

theorem update_succ_pos [DecidableEq κ] (f : κ → Nat) (c : κ) :
    0 < Function.update f c (f c + 1) c := by
  rw [Function.update_self]
  omega

/-- Who has calls left once `c` has one less. -/
theorem exists_update_pred [DecidableEq κ] (f : κ → Nat) (c : κ) :
    (∃ d, 0 < Function.update f c (f c - 1) d) ↔ 1 < f c ∨ ∃ d, d ≠ c ∧ 0 < f d := by
  constructor
  · rintro ⟨d, hd⟩
    by_cases hdc : d = c
    · rw [hdc, Function.update_self] at hd
      exact .inl (by omega)
    · rw [Function.update_of_ne hdc] at hd
      exact .inr ⟨d, hdc, hd⟩
  · rintro (h | ⟨d, hdc, hd⟩)
    · exact ⟨c, by rw [Function.update_self]; omega⟩
    · exact ⟨d, by rw [Function.update_of_ne hdc]; exact hd⟩

section
variable {τ : Type} [DecidableEq κ] [DecidableEq τ]

def lockBy (s : State κ τ) (cor : κ) : State κ τ :=
  match s.mutex.lock cor with
  | (m, true) => {s with mutex := m, holds := Function.update s.holds cor (s.holds cor + 1)}
  | (m, false) => {s with mutex := m, asleep := Function.update s.asleep cor true}

def addTask (s : State κ τ) (reactor : τ) (cor : κ) : State κ τ :=
  {s with pendingTasks := Function.update s.pendingTasks reactor (s.pendingTasks reactor ++ [cor])}

def unlockBy (s : State κ τ) (cor : κ) (reactor : τ) : State κ τ :=
  let left := {s with
    mutex := s.mutex.unlock.1
    holds := Function.update s.holds cor (s.holds cor - 1)}
  match s.mutex.unlock.2 with
  | none => left
  | some next => addTask left reactor next

/-- The task of `reactor` that is next in its list returns `cor` from its `lock`. -/
def resumeTask (s : State κ τ) (reactor : τ) (cor : κ) (rest : List κ) : State κ τ :=
  {s with
    pendingTasks := Function.update s.pendingTasks reactor rest
    holds := Function.update s.holds cor (s.holds cor + 1)
    asleep := Function.update s.asleep cor false}

/-- A sleeping coroutine makes no calls, and only one whose `lock` has returned calls
`unlock`. The calls of a main coroutine are refused. -/
def step (s : State κ τ) : Event κ τ → Option (State κ τ)
  | .lock none => some s
  | .lock (some cor) => if s.asleep cor then none else some (lockBy s cor)
  | .unlock none _ => some s
  | .unlock (some cor) reactor =>
    if s.asleep cor ∨ s.holds cor = 0 then none else some (unlockBy s cor reactor)
  | .resume reactor =>
    match s.pendingTasks reactor with
    | [] => none
    | cor :: rest => some (resumeTask s reactor cor rest)

/-- What a step can do, guards included. -/
theorem step_cases {s t : State κ τ} {e : Event κ τ} (h : step s e = some t) :
    ((e = .lock none ∨ ∃ r, e = .unlock none r) ∧ t = s) ∨
    (∃ c, e = .lock (some c) ∧ s.mutex.mLock = false ∧
      t = {s with
        mutex := {s.mutex with mLock := true}
        holds := Function.update s.holds c (s.holds c + 1)}) ∨
    (∃ c, e = .lock (some c) ∧ s.mutex.mLock = true ∧
      t = {s with
        mutex := {s.mutex with mSleepCors := s.mutex.mSleepCors ++ [c]}
        asleep := Function.update s.asleep c true}) ∨
    (∃ c r, e = .unlock (some c) r ∧ 0 < s.holds c ∧ t = unlockBy s c r) ∨
    (∃ r c rest, e = .resume r ∧ s.pendingTasks r = c :: rest ∧ t = resumeTask s r c rest) := by
  cases e with
  | lock caller =>
    cases caller with
    | none => exact .inl ⟨.inl rfl, (Option.some.inj h).symm⟩
    | some c =>
      simp only [step] at h
      split at h
      · cases h
      obtain rfl := Option.some.inj h
      cases hl : s.mutex.mLock with
      | false => exact .inr (.inl ⟨c, rfl, rfl, by simp [lockBy, lock, hl]⟩)
      | true => exact .inr (.inr (.inl ⟨c, rfl, rfl, by simp [lockBy, lock, hl]⟩))
  | unlock caller r =>
    cases caller with
    | none => exact .inl ⟨.inr ⟨r, rfl⟩, (Option.some.inj h).symm⟩
    | some c =>
      simp only [step] at h
      split at h
      · cases h
      rename_i hin
      exact .inr (.inr (.inr (.inl ⟨c, r, rfl, by omega, (Option.some.inj h).symm⟩)))
  | resume r =>
    simp only [step] at h
    split at h
    · cases h
    · exact .inr (.inr (.inr (.inr ⟨r, _, _, rfl, ‹_›, (Option.some.inj h).symm⟩)))

theorem unlockBy_cases (s : State κ τ) (c : κ) (r : τ) :
    (s.mutex.mLock = true ∧ s.mutex.mSleepCors = [] ∧ unlockBy s c r = {s with
      mutex := {s.mutex with mLock := false}
      holds := Function.update s.holds c (s.holds c - 1)}) ∨
    (∃ next rest, s.mutex.mLock = true ∧ s.mutex.mSleepCors = next :: rest ∧ unlockBy s c r = {s with
      mutex := ⟨false, rest⟩
      pendingTasks := Function.update s.pendingTasks r (s.pendingTasks r ++ [next])
      holds := Function.update s.holds c (s.holds c - 1)}) ∨
    (s.mutex.mLock = false ∧ unlockBy s c r = {s with
      holds := Function.update s.holds c (s.holds c - 1)}) := by
  cases hl : s.mutex.mLock with
  | false => exact .inr (.inr ⟨rfl, by simp [unlockBy, unlock, hl]⟩)
  | true =>
    cases hq : s.mutex.mSleepCors with
    | nil => exact .inl ⟨rfl, rfl, by simp [unlockBy, unlock, hl, hq]⟩
    | cons next rest =>
      exact .inr (.inl ⟨next, rest, rfl, rfl, by simp [unlockBy, unlock, addTask, hl, hq]⟩)

end

/-! ### Mutual exclusion -/

section
variable {τ : Type}

/-- At most one coroutine is between the return of its `lock` and its `unlock`. -/
def Exclusive (s : State κ τ) : Prop := ∀ c d, 0 < s.holds c → 0 < s.holds d → c = d

instance [DecidableEq κ] [Fintype κ] (s : State κ τ) : Decidable (Exclusive s) :=
  inferInstanceAs (Decidable (∀ c d, 0 < s.holds c → 0 < s.holds d → c = d))

/-- `lock` does not find the mutex free while a waiter it was handed to is yet to be
resumed or to unlock it. -/
def Orderly (s : State κ τ) : Event κ τ → Prop
  | .lock (some _) => s.mutex.mLock = false → (∀ c, s.holds c = 0) ∧ ∀ r, s.pendingTasks r = []
  | _ => True

instance [DecidableEq κ] [Fintype κ] [Fintype τ] (s : State κ τ) : ∀ e, Decidable (Orderly s e)
  | .lock none => isTrue trivial
  | .lock (some _) => inferInstanceAs
      (Decidable (s.mutex.mLock = false → (∀ c, s.holds c = 0) ∧ ∀ r, s.pendingTasks r = []))
  | .unlock _ _ => isTrue trivial
  | .resume _ => isTrue trivial

/-- Where an orderly run can be: the mutex is free, one coroutine is inside, or one is
about to be resumed inside. -/
inductive Shape (s : State κ τ) : Prop where
  | free (hlock : s.mutex.mLock = false) (hholds : ∀ c, s.holds c = 0)
      (htasks : ∀ r, s.pendingTasks r = [])
  | inside (c : κ) (hin : s.holds c = 1) (hholds : ∀ d, d ≠ c → s.holds d = 0)
      (htasks : ∀ r, s.pendingTasks r = [])
  | handed (r : τ) (c : κ) (hlock : s.mutex.mLock = false) (hholds : ∀ d, s.holds d = 0)
      (htask : s.pendingTasks r = [c]) (htasks : ∀ q, q ≠ r → s.pendingTasks q = [])

theorem Shape.exclusive {s : State κ τ} (h : Shape s) : Exclusive s := by
  intro c d hc hd
  cases h with
  | free _ hholds _ => exact absurd (hholds c) (by omega)
  | inside e _ hholds _ =>
    have : c = e := Classical.byContradiction fun hne => absurd (hholds c hne) (by omega)
    have : d = e := Classical.byContradiction fun hne => absurd (hholds d hne) (by omega)
    simp [*]
  | handed _ _ _ hholds _ _ => exact absurd (hholds c) (by omega)

/-- Only the coroutine inside can unlock. -/
theorem Shape.holder {s : State κ τ} {c : κ} (h : Shape s) (hc : 0 < s.holds c) :
    s.holds c = 1 ∧ (∀ d, d ≠ c → s.holds d = 0) ∧ ∀ r, s.pendingTasks r = [] := by
  cases h with
  | free _ hholds _ => exact absurd (hholds c) (by omega)
  | inside e hin hholds htasks =>
    obtain rfl : c = e := Classical.byContradiction fun hne => absurd (hholds c hne) (by omega)
    exact ⟨hin, hholds, htasks⟩
  | handed _ _ _ hholds _ _ => exact absurd (hholds c) (by omega)

/-- A pending task is the only one, and nobody is inside. -/
theorem Shape.task {s : State κ τ} {r : τ} {c : κ} {rest : List κ} (h : Shape s)
    (ht : s.pendingTasks r = c :: rest) :
    rest = [] ∧ (∀ d, s.holds d = 0) ∧ ∀ q, q ≠ r → s.pendingTasks q = [] := by
  cases h with
  | free _ _ htasks => rw [htasks r] at ht; cases ht
  | inside _ _ _ htasks => rw [htasks r] at ht; cases ht
  | handed r' c' _ hholds htask htasks =>
    obtain rfl : r = r' := Classical.byContradiction fun hne => by rw [htasks r hne] at ht; cases ht
    rw [htask] at ht
    exact ⟨(List.cons.inj ht).2.symm, hholds, htasks⟩

theorem shape_initial : Shape ({} : State κ τ) := .free rfl (fun _ => rfl) fun _ => rfl

variable [DecidableEq κ] [DecidableEq τ]

theorem shape_step {s t : State κ τ} {e : Event κ τ} (h : Shape s) (hg : Orderly s e)
    (hs : step s e = some t) : Shape t := by
  have update_zero : ∀ (c : κ), (∀ d, d ≠ c → s.holds d = 0) → s.holds c = 1 →
      ∀ d, Function.update s.holds c (s.holds c - 1) d = 0 := by
    intro c hholds hin d
    by_cases hd : d = c
    · rw [hd, Function.update_self, hin]
    · rw [Function.update_of_ne hd, hholds d hd]
  rcases step_cases hs with ⟨-, rfl⟩ | ⟨c, rfl, hl, rfl⟩ | ⟨c, rfl, hl, rfl⟩ | ⟨c, r, rfl, hc, rfl⟩ |
    ⟨r, c, rest, rfl, ht, rfl⟩
  · exact h
  · obtain ⟨hholds, htasks⟩ := hg hl
    refine .inside c ?_ (fun d hd => ?_) htasks
    · show Function.update s.holds c (s.holds c + 1) c = 1
      rw [Function.update_self, hholds c]
    · show Function.update s.holds c (s.holds c + 1) d = 0
      rw [Function.update_of_ne hd, hholds d]
  · -- a call that goes to sleep changes neither who is inside nor the tasks
    cases h with
    | free hlock _ _ => rw [hl] at hlock; cases hlock
    | inside d hin hholds htasks => exact .inside d hin hholds htasks
    | handed _ _ hlock _ _ _ => rw [hl] at hlock; cases hlock
  · obtain ⟨hin, hholds, htasks⟩ := h.holder hc
    have hzero := update_zero c hholds hin
    rcases unlockBy_cases s c r with ⟨_, _, heq⟩ | ⟨next, rest, _, _, heq⟩ | ⟨hl, heq⟩
    · rw [heq]
      exact .free rfl hzero htasks
    · rw [heq]
      refine .handed r next rfl hzero ?_ fun q hq => ?_
      · show Function.update s.pendingTasks r (s.pendingTasks r ++ [next]) r = [next]
        rw [Function.update_self, htasks r]
        rfl
      · show Function.update s.pendingTasks r (s.pendingTasks r ++ [next]) q = []
        rw [Function.update_of_ne hq, htasks q]
    · rw [heq]
      exact .free hl hzero htasks
  · obtain ⟨rfl, hholds, htasks⟩ := h.task ht
    refine .inside c ?_ (fun d hd => ?_) fun q => ?_
    · show Function.update s.holds c (s.holds c + 1) c = 1
      rw [Function.update_self, hholds c]
    · show Function.update s.holds c (s.holds c + 1) d = 0
      rw [Function.update_of_ne hd, hholds d]
    · show Function.update s.pendingTasks r [] q = []
      by_cases hq : q = r
      · rw [hq, Function.update_self]
      · rw [Function.update_of_ne hq, htasks q hq]

/-- **Orderly runs exclude**: while no `lock` barges in between a hand-over and the
waiter's `unlock`, at most one coroutine is inside. -/
theorem exclusive_of_orderly (es : List (Event κ τ)) (h : Meets step Orderly {} es) :
    Always step Exclusive {} es :=
  (always_of_step (fun _ _ _ => shape_step) shape_initial h).imp fun _ => Shape.exclusive

/-- Two coroutines one after the other, the second handed the mutex. -/
theorem exclusive_of_orderly_handover :
    Always step Exclusive ({} : State (Fin 3) Unit)
      [.lock (some 0), .lock (some 1), .unlock (some 0) (), .resume (), .unlock (some 1) (),
        .lock (some 2)] :=
  exclusive_of_orderly _ (by decide)

/-- A third coroutine locks between a hand-over and the resume task: it and the waiter are
both inside. -/
theorem not_exclusive_barging :
    ¬ ∀ es : List (Event (Fin 3) Unit), Always step Exclusive {} es := fun h => by
  have := h [.lock (some 0), .lock (some 1), .unlock (some 0) (), .lock (some 2), .resume ()]
  revert this
  decide

/-! ### Waiters -/

/-- A waiter has somebody to wake it: a coroutine inside, or a resume task that is pending. -/
def Attended (s : State κ τ) : Prop :=
  s.mutex.mSleepCors ≠ [] → (∃ c, 0 < s.holds c) ∨ ∃ r, s.pendingTasks r ≠ []

instance [Fintype κ] [Fintype τ] (s : State κ τ) : Decidable (Attended s) :=
  inferInstanceAs (Decidable
    (s.mutex.mSleepCors ≠ [] → (∃ c, 0 < s.holds c) ∨ ∃ r, s.pendingTasks r ≠ []))

/-- `unlock` does not find `m_lock` false while others wait, unless another coroutine, or
another call of the same, is inside or a resume task is pending. -/
def NotLast (s : State κ τ) : Event κ τ → Prop
  | .unlock (some cor) _ => s.mutex.mLock = false → s.mutex.mSleepCors ≠ [] →
      1 < s.holds cor ∨ (∃ c, c ≠ cor ∧ 0 < s.holds c) ∨ ∃ r, s.pendingTasks r ≠ []
  | _ => True

/-- Whoever set `m_lock` has not unlocked yet. -/
def LockHeld (s : State κ τ) : Prop := s.mutex.mLock = true → ∃ c, 0 < s.holds c

theorem lockHeld_step {s t : State κ τ} {e : Event κ τ} (h : LockHeld s) (hs : step s e = some t) :
    LockHeld t := by
  rcases step_cases hs with ⟨-, rfl⟩ | ⟨c, rfl, hl, rfl⟩ | ⟨c, rfl, hl, rfl⟩ | ⟨c, r, rfl, hc, rfl⟩ |
    ⟨r, c, rest, rfl, ht, rfl⟩
  · exact h
  · exact fun _ => ⟨c, update_succ_pos s.holds c⟩
  · exact fun _ => h hl
  · rcases unlockBy_cases s c r with ⟨_, _, heq⟩ | ⟨next, rest, _, _, heq⟩ | ⟨hl, heq⟩
    · rw [heq]
      exact fun hlock => nomatch hlock
    · rw [heq]
      exact fun hlock => nomatch hlock
    · rw [heq]
      exact fun hlock => absurd (hl.symm.trans hlock) (by decide)
  · exact fun _ => ⟨c, update_succ_pos s.holds c⟩

theorem attended_step {s t : State κ τ} {e : Event κ τ} (hq : LockHeld s) (hp : Attended s)
    (hs : step s e = some t) : Attended t ↔ NotLast s e := by
  rcases step_cases hs with ⟨rfl | ⟨r, rfl⟩, rfl⟩ | ⟨c, rfl, hl, rfl⟩ | ⟨c, rfl, hl, rfl⟩ |
    ⟨c, r, rfl, hc, rfl⟩ | ⟨r, c, rest, rfl, ht, rfl⟩
  · exact ⟨fun _ => trivial, fun _ => hp⟩
  · exact ⟨fun _ => trivial, fun _ => hp⟩
  · exact ⟨fun _ => trivial, fun _ _ => .inl ⟨c, update_succ_pos s.holds c⟩⟩
  · exact ⟨fun _ => trivial, fun _ _ => .inl (hq hl)⟩
  · rcases unlockBy_cases s c r with ⟨hl, hempty, heq⟩ | ⟨next, rest, hl, _, heq⟩ | ⟨hl, heq⟩
    · rw [heq]
      exact ⟨fun _ hf => absurd (hl.symm.trans hf) (by decide), fun _ hne => absurd hempty hne⟩
    · rw [heq]
      refine ⟨fun _ hf => absurd (hl.symm.trans hf) (by decide), fun _ _ => .inr ⟨r, ?_⟩⟩
      show Function.update s.pendingTasks r (s.pendingTasks r ++ [next]) r ≠ []
      rw [Function.update_self]
      simp
    · -- nobody is woken, so it depends on who is left
      rw [heq]
      show (s.mutex.mSleepCors ≠ [] → (∃ d, 0 < Function.update s.holds c (s.holds c - 1) d) ∨ _) ↔ _
      rw [exists_update_pred, or_assoc]
      exact ⟨fun h _ => h, fun h => h hl⟩
  · exact ⟨fun _ => trivial, fun _ _ => .inl ⟨c, update_succ_pos s.holds c⟩⟩

/-- **Which runs leave a waiter behind**: exactly those with an `unlock` that finds
`m_lock` false and is the last way to wake one. -/
theorem attended_iff {es : List (Event κ τ)} {u : State κ τ} (hr : run step {} es = some u) :
    Always step Attended {} es ↔ Meets step NotLast {} es :=
  always_iff_meets (fun _ _ _ => lockHeld_step) (fun _ _ _ => attended_step)
    (fun hl => nomatch hl) (fun hne => absurd rfl hne) hr

/-- One hand-over to the only waiter. -/
theorem attended_iff_handover :
    Always step Attended ({} : State (Fin 3) Unit)
        [.lock (some 0), .lock (some 1), .unlock (some 0) (), .resume (), .unlock (some 1) ()] ↔
      Meets step NotLast ({} : State (Fin 3) Unit)
        [.lock (some 0), .lock (some 1), .unlock (some 0) (), .resume (), .unlock (some 1) ()] :=
  attended_iff rfl

/-- A hand-over with a second waiter queued: the first one's `unlock` wakes nobody. -/
theorem not_attended_second_waiter :
    ¬ ∀ es : List (Event (Fin 3) Unit), Always step Attended {} es := fun h => by
  have := h [.lock (some 0), .lock (some 1), .lock (some 2), .unlock (some 0) (), .resume (),
    .unlock (some 1) ()]
  revert this
  decide

end

end CoroutineMutex

end CoroutineRpc.Net
