import Mathlib.Logic.Function.Basic
import CoroutineRpc.Library.Transition
import CoroutineRpc.Library.Multimap

/-! `Timer`: a multimap of pending events and one `timerfd` armed for the first.

Every reading of the clock is the next value of a sequence, so two readings of one call
may differ. The calls that end in `resetArriveTime` are two steps here, the second being
`reset`; between the two no other call is made. A task that `onTimer` has copied is
started by a step of its own, and what the task calls comes after it. -/
namespace CoroutineRpc.Net
open Library.Transition Library.Multimap

structure TimerEvent where
  arriveTime : Int := 0
  interval : Int := 0
  isRepeated : Bool := false
  isCancled : Bool := false
deriving DecidableEq

structure Timespec where
  tvSec : Int := 0
  tvNsec : Int := 0
deriving DecidableEq

/-- When a timer set at `now` for a one-shot `it_value` expires, in milliseconds; a zero
value disarms it. -/
def timerfdSettime (itValue : Timespec) (now : Int) : Option Int :=
  if itValue.tvSec = 0 ∧ itValue.tvNsec = 0 then none
  else some (now + itValue.tvSec * 1000 + itValue.tvNsec / 1000000)

namespace Timer
variable {κ : Type}

/-- A timer and its events. `timerfd` is when the descriptor expires, or has expired and
was not read since; `tasks` are those `onTimer` has copied and not started; `resetting`
is set while a call has its `resetArriveTime` before it. `ticks` counts the readings of
the clock and `now` is the last. -/
structure State (κ : Type) where
  events : κ → TimerEvent := fun _ => {}
  created : κ → Bool := fun _ => false
  pendingEvents : List (Int × κ) := []
  timerfd : Option Int := none
  tasks : List κ := []
  resetting : Bool := false
  ticks : Nat := 0
  now : Int

inductive Input (κ : Type) where
  /-- `TimerEvent(interval, is_repeated, task)`. -/
  | create (event : κ) (interval : Int) (isRepeated : Bool)
  /-- `addTimerEvent(event)`. -/
  | add (event : κ)
  /-- `delTimerEvent(event)`. -/
  | del (event : κ)
  | onTimer
  /-- The `resetArriveTime` of the call before. -/
  | reset
  /-- `onTimer` starts its next task. -/
  | runTask
deriving DecidableEq

section
variable (clock : Nat → Int)

/-- Nothing has happened yet. -/
def initial : State κ := {now := clock 0}

/-- The value read is `now` afterwards. -/
def getNowMs (s : State κ) : State κ := {s with ticks := s.ticks + 1, now := clock s.ticks}

/-- The new event is compared with the time of the first event, not with its key. -/
def isReset (s : State κ) (event : κ) : Bool :=
  match s.pendingEvents with
  | [] => true
  | (_, first) :: _ => (s.events event).arriveTime < (s.events first).arriveTime

def addTimerEvent (s : State κ) (event : κ) (needReset : Bool) : State κ :=
  {s with
    pendingEvents := emplace (s.events event).arriveTime event s.pendingEvents
    resetting := isReset s event && needReset}

def resetArriveTime (s : State κ) : State κ :=
  match s.pendingEvents with
  | [] => s
  | (first, _) :: _ =>
    let s := getNowMs clock s
    if first < s.now then s
    else
      let interval := first - s.now
      {s with timerfd := timerfdSettime ⟨interval / 1000, interval % 1000 * 1000000⟩ s.now}

/-- Reading the descriptor until `EAGAIN`. -/
def drainTimerfd (s : State κ) : State κ :=
  let s := getNowMs clock s
  match s.timerfd with
  | none => s
  | some expiry => if expiry ≤ s.now then {s with timerfd := none} else s

/-- An entry the first loop of `onTimer` takes. -/
def due (s : State κ) (p : Int × κ) : Bool := p.1 ≤ s.now ∧ ¬ (s.events p.2).isCancled

@[simp] theorem drainTimerfd_events (s : State κ) : (drainTimerfd clock s).events = s.events := by
  unfold drainTimerfd
  dsimp only
  split
  · rfl
  · split <;> rfl

@[simp] theorem drainTimerfd_created (s : State κ) : (drainTimerfd clock s).created = s.created := by
  unfold drainTimerfd
  dsimp only
  split
  · rfl
  · split <;> rfl

variable [DecidableEq κ]

def newEvent (s : State κ) (event : κ) (interval : Int) (isRepeated : Bool) : State κ :=
  let s := getNowMs clock s
  {s with
    events := Function.update s.events event ⟨s.now + interval, interval, isRepeated, false⟩
    created := Function.update s.created event true}

def resetTime (s : State κ) (event : κ) : State κ :=
  let s := getNowMs clock s
  let reset := {s.events event with arriveTime := s.now + (s.events event).interval, isCancled := false}
  {s with events := Function.update s.events event reset}

/-- The entry `delTimerEvent` erases: the event's, or else the first one after its time. -/
def eraseEvent (arriveTime : Int) (event : κ) (l : List (Int × κ)) : List (Int × κ) :=
  if (equalRange arriveTime l).any (·.2 = event) then
    before arriveTime l ++ ((equalRange arriveTime l).eraseP (·.2 = event) ++ after arriveTime l)
  else before arriveTime l ++ (equalRange arriveTime l ++ (after arriveTime l).tail)

def delTimerEvent (s : State κ) (event : κ) : State κ :=
  {s with
    events := Function.update s.events event {s.events event with isCancled := true}
    pendingEvents := eraseEvent (s.events event).arriveTime event s.pendingEvents}

/-- The body of the second loop. -/
def repeatEvent (s : State κ) (event : κ) : State κ :=
  if (s.events event).isRepeated then addTimerEvent (resetTime clock s event) event false else s

/-- `onTimer` up to its `resetArriveTime`. -/
def onTimer (s : State κ) : State κ :=
  let s := getNowMs clock (drainTimerfd clock s)
  let tmps := (s.pendingEvents.takeWhile (due s)).map Prod.snd
  let s := {s with pendingEvents := s.pendingEvents.dropWhile (due s)}
  {tmps.foldl (repeatEvent clock) s with tasks := tmps, resetting := true}

/-- An event is created once and used only then; `onTimer` does not run inside itself. -/
def step (s : State κ) : Input κ → Option (State κ)
  | .create event interval isRepeated =>
    if s.resetting ∨ s.created event then none else some (newEvent clock s event interval isRepeated)
  | .add event =>
    if s.resetting ∨ ¬ s.created event then none else some (addTimerEvent s event true)
  | .del event => if s.resetting ∨ ¬ s.created event then none else some (delTimerEvent s event)
  | .onTimer => if s.resetting ∨ s.tasks ≠ [] then none else some (onTimer clock s)
  | .reset => if s.resetting then some {resetArriveTime clock s with resetting := false} else none
  | .runTask =>
    if s.resetting then none
    else
      match s.tasks with
      | [] => none
      | _ :: rest => some {s with tasks := rest}

/-- What a step can do, guards included. -/
theorem step_cases {s t : State κ} {i : Input κ} (h : step clock s i = some t) :
    (∃ e interval r, i = .create e interval r ∧ s.resetting = false ∧ s.created e = false ∧
      t = newEvent clock s e interval r) ∨
    (∃ e, i = .add e ∧ s.resetting = false ∧ s.created e = true ∧ t = addTimerEvent s e true) ∨
    (∃ e, i = .del e ∧ s.resetting = false ∧ s.created e = true ∧ t = delTimerEvent s e) ∨
    (i = .onTimer ∧ s.resetting = false ∧ s.tasks = [] ∧ t = onTimer clock s) ∨
    (i = .reset ∧ s.resetting = true ∧ t = {resetArriveTime clock s with resetting := false}) ∨
    (∃ e rest, i = .runTask ∧ s.resetting = false ∧ s.tasks = e :: rest ∧
      t = {s with tasks := rest}) := by
  cases i with
  | create e interval r =>
    simp only [step] at h
    split at h
    · cases h
    · rename_i hguard
      rw [not_or, Bool.not_eq_true, Bool.not_eq_true] at hguard
      exact .inl ⟨e, interval, r, rfl, hguard.1, hguard.2, (Option.some.inj h).symm⟩
  | add e =>
    simp only [step] at h
    split at h
    · cases h
    · rename_i hguard
      rw [not_or, Bool.not_eq_true, not_not] at hguard
      exact .inr (.inl ⟨e, rfl, hguard.1, hguard.2, (Option.some.inj h).symm⟩)
  | del e =>
    simp only [step] at h
    split at h
    · cases h
    · rename_i hguard
      rw [not_or, Bool.not_eq_true, not_not] at hguard
      exact .inr (.inr (.inl ⟨e, rfl, hguard.1, hguard.2, (Option.some.inj h).symm⟩))
  | onTimer =>
    simp only [step] at h
    split at h
    · cases h
    · rename_i hguard
      rw [not_or, Bool.not_eq_true, not_not] at hguard
      exact .inr (.inr (.inr (.inl ⟨rfl, hguard.1, hguard.2, (Option.some.inj h).symm⟩)))
  | reset =>
    simp only [step] at h
    split at h
    · exact .inr (.inr (.inr (.inr (.inl ⟨rfl, ‹_›, (Option.some.inj h).symm⟩))))
    · cases h
  | runTask =>
    simp only [step] at h
    split at h
    · cases h
    rename_i hguard
    split at h
    · cases h
    · exact .inr (.inr (.inr (.inr (.inr ⟨_, _, rfl, by simpa using hguard, ‹_›,
        (Option.some.inj h).symm⟩))))

end

end Timer

end CoroutineRpc.Net
