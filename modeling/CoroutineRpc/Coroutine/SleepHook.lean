import Mathlib.Algebra.Order.Ring.Int
import CoroutineRpc.Net.TimerDue

/-! `sleep_hook`: a coroutine that sleeps yields until its timer event has fired.

The reactor and the other coroutines call the timer and resume the sleeping coroutine as they
like; the event that `sleep_hook` makes is known to the timer only. The loop over `is_timeout`
makes every other resumption harmless, so a sleep ends after its event, due at its start plus the
interval the event was made with (`sleptFor_interval`). That interval is a product of 32-bit unsigned integers
and is the time asked for exactly as long as the product does not wrap around
(`sleepsLongEnough_iff`). -/
namespace CoroutineRpc.SleepHook
open Library.Transition Library.Multimap CoroutineRpc.Net

/-- Where the coroutine is that calls `sleep_hook`. -/
inductive Sleeper (κ : Type) where
  /-- Not there yet. -/
  | calling
  /-- In the `Yield` of the loop, with `event` and `is_timeout`. -/
  | yielded (event : κ) (isTimeout : Bool)
  | returned (event : κ)
deriving DecidableEq

namespace Sleeper
variable {κ : Type}

def event : Sleeper κ → Option κ
  | calling => none
  | yielded event _ => some event
  | returned event => some event

theorem event_eq_none {sleeper : Sleeper κ} : sleeper.event = none ↔ sleeper = calling := by
  cases sleeper <;> simp [event]

/-- The loop, until it yields or ends. -/
def loop (event : κ) (isTimeout : Bool) : Sleeper κ :=
  if isTimeout then returned event else yielded event isTimeout

/-- Something that is not the event's task resumes the coroutine. -/
def resume : Sleeper κ → Option (Sleeper κ)
  | yielded event isTimeout => some (loop event isTimeout)
  | _ => none

theorem loop_event (event : κ) (isTimeout : Bool) : (loop event isTimeout).event = some event := by
  unfold loop
  split <;> rfl

theorem resume_event {sleeper sleeper' : Sleeper κ} (h : sleeper.resume = some sleeper') :
    sleeper'.event = sleeper.event := by
  cases sleeper with
  | yielded event isTimeout =>
    obtain rfl := Option.some.inj h
    exact loop_event event isTimeout
  | calling => cases h
  | returned event => cases h

variable [DecidableEq κ]

/-- The timer starts the task of an event, or none. The task of `sleep_hook` sets `is_timeout`
and resumes the coroutine. -/
def task (sleeper : Sleeper κ) (started : Option κ) : Sleeper κ :=
  match sleeper with
  | yielded event isTimeout => if started = some event then loop event true else yielded event isTimeout
  | other => other

theorem task_event (sleeper : Sleeper κ) (started : Option κ) :
    (sleeper.task started).event = sleeper.event := by
  cases sleeper with
  | yielded event isTimeout =>
    unfold task
    dsimp only
    split
    · exact loop_event event true
    · rfl
  | calling => rfl
  | returned event => rfl

theorem task_of_ne {started : Option κ} {event : κ} (h : started ≠ some event) (isTimeout : Bool) :
    (yielded event isTimeout).task started = yielded event isTimeout := if_neg h

end Sleeper

structure State (κ : Type) where
  timer : Timer.State κ
  sleeper : Sleeper κ := .calling

inductive Input (κ : Type) where
  /-- The coroutine calls `sleep_hook`, which makes the event `event`. -/
  | sleep (event : κ)
  | resume
  /-- The reactor or another coroutine calls the timer. -/
  | timer (i : Timer.Input κ)
deriving DecidableEq

/-- The first argument of `TimerEvent`, a product of an `int` and an `unsigned int`. -/
def interval (seconds : BitVec 32) : Int := (1000 * seconds).toNat

variable {κ : Type} [DecidableEq κ] (clock : Nat → Int) (seconds : BitVec 32)

/-- `sleep_hook` as far as the loop: it makes its event and adds it. -/
def addEvent (s : Timer.State κ) (event : κ) : Timer.State κ :=
  let s := Timer.addTimerEvent (Timer.newEvent clock s event (interval seconds) false) event true
  if s.resetting then {Timer.resetArriveTime clock s with resetting := false} else s

/-- Nobody else has the event of `sleep_hook`, to add it or to delete it. -/
def Foreign (sleeper : Sleeper κ) : Timer.Input κ → Prop
  | .add event | .del event => sleeper.event ≠ some event
  | _ => True

instance (sleeper : Sleeper κ) : DecidablePred (Foreign sleeper)
  | .add _ | .del _ => inferInstanceAs (Decidable (_ ≠ _))
  | .create _ _ _ | .onTimer | .reset | .runTask => inferInstanceAs (Decidable True)

def step (s : State κ) : Input κ → Option (State κ)
  | .sleep event =>
    if s.sleeper ≠ .calling ∨ s.timer.resetting ∨ s.timer.created event then none
    else some ⟨addEvent clock seconds s.timer event, .loop event false⟩
  | .resume =>
    if s.timer.resetting then none
    else s.sleeper.resume.map fun sleeper => {s with sleeper}
  | .timer i =>
    if Foreign s.sleeper i then
      (Timer.step clock s.timer i).map fun timer => ⟨timer, s.sleeper.task (Timer.starts s.timer i)⟩
    else none

/-- What a step can do, guards included. -/
theorem step_cases {s t : State κ} {i : Input κ} (h : step clock seconds s i = some t) :
    (∃ event, i = .sleep event ∧ s.sleeper = .calling ∧ s.timer.resetting = false ∧
      s.timer.created event = false ∧
      t = ⟨addEvent clock seconds s.timer event, .yielded event false⟩) ∨
    (∃ sleeper, i = .resume ∧ s.timer.resetting = false ∧ s.sleeper.resume = some sleeper ∧
      t = {s with sleeper}) ∨
    (∃ j timer, i = .timer j ∧ Foreign s.sleeper j ∧ Timer.step clock s.timer j = some timer ∧
      t = ⟨timer, s.sleeper.task (Timer.starts s.timer j)⟩) := by
  cases i with
  | sleep event =>
    simp only [step] at h
    split at h
    · cases h
    · rename_i hguard
      simp only [ne_eq, not_or, not_not, Bool.not_eq_true] at hguard
      exact .inl ⟨event, rfl, hguard.1, hguard.2.1, hguard.2.2, (Option.some.inj h).symm⟩
  | resume =>
    simp only [step] at h
    split at h
    · cases h
    · rename_i hguard
      obtain ⟨sleeper, hsleeper, rfl⟩ := Option.map_eq_some_iff.mp h
      exact .inr (.inl ⟨sleeper, rfl, Bool.not_eq_true _ ▸ hguard, hsleeper, rfl⟩)
  | timer j =>
    simp only [step] at h
    split at h
    · obtain ⟨timer, htimer, rfl⟩ := Option.map_eq_some_iff.mp h
      exact .inr (.inr ⟨j, timer, rfl, ‹_›, htimer, rfl⟩)
    · cases h

def initial : State κ := {timer := Timer.initial clock}

/-- From here on the event, due at `due`, fires: `onTimer` takes it at a reading of the clock
that is not before `due`, and starts its task after that. -/
def Fires (due : Int) (event : κ) : State κ → List (Input κ) → Prop :=
  Sometime (step clock seconds) fun s i t rest =>
    i = .timer .onTimer ∧ (s.timer.events event).arriveTime = due ∧
      (due, event) ∈ s.timer.pendingEvents ∧ due ≤ Timer.firingTime clock s.timer ∧
      Sometime (step clock seconds)
        (fun u j _ _ => j = .timer .runTask ∧ Timer.starts u.timer .runTask = some event) t rest

/-- The coroutine calls `sleep_hook`, and then an event fires that is due `duration` after that. -/
def SleptFor (duration : Int) : State κ → List (Input κ) → Prop :=
  Sometime (step clock seconds) fun s i t rest =>
    ∃ event, i = .sleep event ∧ Fires clock seconds (clock s.timer.ticks + duration) event t rest

/-- What `sleep` is for: whatever the clock, the timer and the rest of the program do, it returns
only after an event has fired that was due `1000 * seconds` after the call. -/
def SleepsLongEnough (κ : Type) [DecidableEq κ] (seconds : BitVec 32) : Prop :=
  ∀ (clock : Nat → Int) (is : List (Input κ)) (u : State κ) (event : κ),
    run (step clock seconds) (initial clock) is = some u → u.sleeper = .returned event →
      SleptFor clock seconds (1000 * seconds.toNat) (initial clock) is

/-! ### The event -/

section
variable {clock : Nat → Int} {seconds : BitVec 32}

/-- An event that was not made waits nowhere. -/
def Unknown (s : Timer.State κ) : Prop :=
  ∀ e, s.created e = false → Timer.Single e s ∧ e ∉ Timer.waiting s

theorem unknown_initial : Unknown (Timer.initial clock : Timer.State κ) := fun _ _ =>
  ⟨⟨List.Pairwise.nil, rfl, fun _ h => (nomatch h), Nat.zero_le 1⟩, List.not_mem_nil⟩

theorem onTimer_created (s : Timer.State κ) : (Timer.onTimer clock s).created = s.created := by
  show (List.foldl (Timer.repeatEvent clock) _ _).created = _
  rw [Timer.foldl_repeatEvent_created]
  exact Timer.drainTimerfd_created clock s

/-- Events are made and stay made. -/
theorem created_step {s t : Timer.State κ} {i : Timer.Input κ} (hs : Timer.step clock s i = some t) {e : κ}
    (he : s.created e = true) : t.created e = true := by
  rcases Timer.step_cases clock hs with ⟨d, interval, r, rfl, -, -, rfl⟩ | ⟨d, rfl, -, -, rfl⟩ |
    ⟨d, rfl, -, -, rfl⟩ | ⟨rfl, -, -, rfl⟩ | ⟨rfl, -, rfl⟩ | ⟨d, rest, rfl, -, -, rfl⟩
  · show Function.update s.created d true e = true
    by_cases heq : e = d
    · rw [heq, Function.update_self]
    · rw [Function.update_of_ne heq]
      exact he
  · exact he
  · exact he
  · rw [onTimer_created]
    exact he
  · show (Timer.resetArriveTime clock s).created e = true
    rw [(Timer.resetArriveTime_same clock s).2.1]
    exact he
  · exact he

theorem unknown_step {s t : Timer.State κ} {i : Timer.Input κ} (h : Unknown s)
    (hs : Timer.step clock s i = some t) : Unknown t := by
  intro e he
  have hbefore : s.created e = false :=
    Bool.not_eq_true _ ▸ fun hcreated => Bool.noConfusion (he.symm.trans (created_step hs hcreated))
  have hcreate : ∀ interval r, i ≠ .create e interval r := by
    rintro interval r rfl
    rw [Timer.step] at hs
    split at hs
    · cases hs
    · obtain rfl := Option.some.inj hs
      have hmade : (Timer.newEvent clock s e interval r).created e = true := Function.update_self ..
      rw [hmade] at he
      cases he
  have hadd : i ≠ .add e := by
    rintro rfl
    simp [Timer.step, hbefore] at hs
  obtain ⟨hsingle, hwaiting⟩ := h e hbefore
  obtain ⟨hsingle', -, hfewer⟩ := Timer.single_step hsingle hcreate hadd hs
  refine ⟨hsingle', List.count_eq_zero.mp ?_⟩
  have hnone := List.count_eq_zero.mpr hwaiting
  omega

/-- `event` is that of the sleeping coroutine, due at `due`. -/
structure Asleep (due : Int) (event : κ) (s : State κ) : Prop where
  own : s.sleeper.event = some event
  created : s.timer.created event = true
  single : Timer.Single event s.timer
  arriveTime : (s.timer.events event).arriveTime = due

/-- A one-shot event that is not made again keeps its time. -/
theorem arriveTime_step {e : κ} {s t : Timer.State κ} {i : Timer.Input κ} (h : Timer.Single e s)
    (hcreated : s.created e = true) (hs : Timer.step clock s i = some t) :
    (t.events e).arriveTime = (s.events e).arriveTime := by
  rcases Timer.step_cases clock hs with ⟨d, interval, r, rfl, -, hd, rfl⟩ | ⟨d, rfl, -, -, rfl⟩ |
    ⟨d, rfl, -, -, rfl⟩ | ⟨rfl, -, -, rfl⟩ | ⟨rfl, -, rfl⟩ | ⟨d, rest, rfl, -, -, rfl⟩
  · have hne : e ≠ d := fun heq => by
      rw [← heq, hcreated] at hd
      cases hd
    show (Function.update s.events d _ e).arriveTime = _
    rw [Function.update_of_ne hne]
  · rfl
  · show (Function.update s.events d _ e).arriveTime = _
    by_cases heq : e = d
    · rw [heq, Function.update_self]
    · rw [Function.update_of_ne heq]
  · obtain ⟨now, hevents, -, -, heq⟩ := Timer.onTimer_eq clock s
    have hshot : (now.events e).isRepeated = false := by
      rw [hevents]
      exact h.oneShot
    rw [heq]
    show ((List.foldl _ now _).events e).arriveTime = _
    rw [Timer.foldl_repeatEvent_oneShot _ hshot, hevents]
  · show ((Timer.resetArriveTime clock s).events e).arriveTime = _
    rw [(Timer.resetArriveTime_same clock s).1]
  · rfl

theorem asleep_step {due : Int} {event : κ} {s t : State κ} {i : Input κ} (h : Asleep due event s)
    (hs : step clock seconds s i = some t) : Asleep due event t := by
  rcases step_cases clock seconds hs with ⟨e, rfl, hcalling, -⟩ | ⟨sleeper, rfl, -, hresume, rfl⟩ |
    ⟨j, timer, rfl, hforeign, htimer, rfl⟩
  · have hown := h.own
    rw [hcalling] at hown
    cases hown
  · exact ⟨(Sleeper.resume_event hresume).trans h.own, h.created, h.single, h.arriveTime⟩
  · have hcreate : ∀ interval r, j ≠ .create event interval r := by
      rintro interval r rfl
      simp [Timer.step, h.created] at htimer
    have hadd : j ≠ .add event := by
      rintro rfl
      exact hforeign h.own
    exact ⟨(Sleeper.task_event _ _).trans h.own, created_step htimer h.created,
      (Timer.single_step h.single hcreate hadd htimer).1,
      (arriveTime_step h.single h.created htimer).trans h.arriveTime⟩

/-- A one-shot event that is added once is single. -/
theorem single_addTimerEvent {s : Timer.State κ} {e : κ} (hsorted : Sorted s.pendingEvents)
    (hshot : (s.events e).isRepeated = false) (hnew : e ∉ Timer.waiting s) (needReset : Bool) :
    Timer.Single e (Timer.addTimerEvent s e needReset) where
  sorted := hsorted.emplace
  oneShot := hshot
  key key hkey := by
    rcases mem_emplace.mp hkey with heq | hkey
    · exact (Prod.mk.inj heq).1
    · exact absurd (List.mem_append_left _ (List.mem_map_of_mem hkey)) hnew
  once := by
    have hperm := ((emplace_perm (s.events e).arriveTime e s.pendingEvents).map Prod.snd).append_right s.tasks
    have hcount := hperm.count_eq e
    rw [List.map_cons, List.cons_append, List.count_cons_self] at hcount
    have hnone : (Timer.waiting s).count e = 0 := List.count_eq_zero.mpr hnew
    rw [Timer.waiting] at hnone
    show ((emplace (s.events e).arriveTime e s.pendingEvents).map Prod.snd ++ s.tasks).count e ≤ 1
    omega

/-- `sleep_hook` makes an event that is due `interval` later, and hands it to the timer. -/
theorem asleep_addEvent {s : Timer.State κ} {event : κ} (h : Unknown s) (hnew : s.created event = false)
    (isTimeout : Bool) : Asleep (clock s.ticks + interval seconds) event
      ⟨addEvent clock seconds s event, .yielded event isTimeout⟩ := by
  obtain ⟨hsingle, hwaiting⟩ := h event hnew
  obtain ⟨made, hmade⟩ : ∃ made, made = Timer.newEvent clock s event (interval seconds) false := ⟨_, rfl⟩
  have hevent : made.events event = ⟨clock s.ticks + interval seconds, interval seconds, false, false⟩ := by
    rw [hmade]
    exact Function.update_self ..
  have hcreated : made.created event = true := by
    rw [hmade]
    exact Function.update_self ..
  have hadded : Timer.Single event (Timer.addTimerEvent made event true) := by
    refine single_addTimerEvent ?_ (by rw [hevent]) ?_ true
    · rw [hmade]
      exact hsingle.sorted
    · rw [hmade]
      exact hwaiting
  unfold addEvent
  rw [← hmade]
  dsimp only
  split
  · obtain ⟨hevents, hkept, -, -⟩ := Timer.resetArriveTime_same clock (Timer.addTimerEvent made event true)
    refine ⟨rfl, ?_, (Timer.single_reset hadded clock).1, ?_⟩
    · show (Timer.resetArriveTime clock _).created event = true
      rw [hkept]
      exact hcreated
    · show ((Timer.resetArriveTime clock _).events event).arriveTime = _
      rw [hevents]
      exact congrArg TimerEvent.arriveTime hevent
  · exact ⟨rfl, hcreated, hadded, congrArg TimerEvent.arriveTime hevent⟩

theorem addEvent_tasks (s : Timer.State κ) (event : κ) : (addEvent clock seconds s event).tasks = s.tasks := by
  unfold addEvent
  dsimp only
  split
  · exact (Timer.resetArriveTime_same clock _).2.2.2
  · rfl

/-! ### A sleep ends with its event -/

/-- While it is in the loop, nothing but its task sets `is_timeout` and ends the loop. -/
theorem yielded_step {event : κ} {s t : State κ} {i : Input κ} (hs : s.sleeper = .yielded event false)
    (h : step clock seconds s i = some t) :
    (i = .timer .runTask ∧ Timer.starts s.timer .runTask = some event) ∨
      t.sleeper = .yielded event false := by
  rcases step_cases clock seconds h with ⟨e, rfl, hcalling, -⟩ | ⟨sleeper, rfl, -, hresume, rfl⟩ |
    ⟨j, timer, rfl, -, htimer, rfl⟩
  · rw [hs] at hcalling
    cases hcalling
  · rw [hs] at hresume
    exact .inr (Option.some.inj hresume).symm
  · by_cases hstarts : Timer.starts s.timer j = some event
    · cases j with
      | runTask => exact .inl ⟨rfl, hstarts⟩
      | _ => cases hstarts
    · exact .inr (hs ▸ Sleeper.task_of_ne hstarts false)

/-- An event becomes a task when `onTimer` finds its entry due. -/
theorem taken_step {event : κ} {s t : Timer.State κ} {j : Timer.Input κ} (h : Timer.Single event s)
    (hbefore : event ∉ s.tasks) (hs : Timer.step clock s j = some t) (hafter : event ∈ t.tasks) :
    j = .onTimer ∧ ((s.events event).arriveTime, event) ∈ s.pendingEvents ∧
      (s.events event).arriveTime ≤ Timer.firingTime clock s := by
  by_cases hj : j = .onTimer
  · subst hj
    obtain ⟨rfl, -⟩ : t = Timer.onTimer clock s ∧ True := by
      simp only [Timer.step] at hs
      split at hs
      · cases hs
      · exact ⟨(Option.some.inj hs).symm, trivial⟩
    rw [Timer.onTimer_tasks] at hafter
    obtain ⟨p, hp, rfl⟩ := List.mem_map.mp hafter
    have hfires := List.mem_takeWhile_imp hp
    have hmem := (List.takeWhile_sublist _).subset hp
    rw [decide_eq_true_eq] at hfires
    rw [← h.key p.1 hmem]
    exact ⟨rfl, hmem, hfires.1⟩
  · have htasks := Timer.starts_append_tasks hj hs
    exact absurd (htasks ▸ List.mem_append_right _ hafter) hbefore

/-- A coroutine that has come back from the loop has seen its event fire. -/
theorem fires_of_returned {due : Int} {event e : κ} {s u : State κ} {is : List (Input κ)}
    (h : Asleep due event s) (hs : s.sleeper = .yielded event false) (htasks : event ∉ s.timer.tasks)
    (hr : run (step clock seconds) s is = some u) (hu : u.sleeper = .returned e) :
    Fires clock seconds due event s is := by
  have hloop : u.sleeper ≠ .yielded event false := fun heq => by
    rw [hu] at heq
    cases heq
  refine sometime_of_run (P := fun s => Asleep due event s ∧ s.sleeper = .yielded event false ∧
    event ∉ s.timer.tasks) ?_ ⟨h, hs, htasks⟩ hr fun hp => hloop hp.2.1
  rintro s i t rest ⟨h, hs, htasks⟩ hstep hrest
  rcases yielded_step hs hstep with ⟨-, hstarts⟩ | ht
  · simp only [Timer.starts] at hstarts
    split at hstarts
    · cases hstarts
    · exact absurd (List.mem_of_mem_head? hstarts) htasks
  by_cases htaken : event ∈ t.timer.tasks
  · left
    rcases step_cases clock seconds hstep with ⟨e, rfl, hcalling, -⟩ | ⟨sleeper, rfl, -, -, rfl⟩ |
      ⟨j, timer, rfl, -, htimer, rfl⟩
    · rw [hs] at hcalling
      cases hcalling
    · exact absurd htaken htasks
    · obtain ⟨rfl, hpending, hdue⟩ := taken_step h.single htasks htimer htaken
      rw [h.arriveTime] at hpending hdue
      refine ⟨rfl, h.arriveTime, hpending, hdue, ?_⟩
      exact sometime_of_run (P := fun s => s.sleeper = .yielded event false)
        (fun s i t _ hs hstep _ => yielded_step hs hstep) ht hrest hloop
  · exact .inr ⟨asleep_step h hstep, ht, htaken⟩

/-- **A sleep lasts the interval of its event**, however often the coroutine is resumed. -/
theorem sleptFor_interval {u : State κ} {e : κ} {is : List (Input κ)}
    (hr : run (step clock seconds) (initial clock) is = some u) (hu : u.sleeper = .returned e) :
    SleptFor clock seconds (interval seconds) (initial clock) is := by
  refine sometime_of_run (P := fun s => Unknown s.timer ∧ s.sleeper = .calling) ?_
    ⟨unknown_initial, rfl⟩ hr fun hp => by
      rw [hu] at hp
      cases hp.2
  rintro s i t rest ⟨hunknown, hs⟩ hstep hrest
  rcases step_cases clock seconds hstep with ⟨event, rfl, -, -, hnew, rfl⟩ | ⟨sleeper, rfl, -, hresume, -⟩ |
    ⟨j, timer, rfl, -, htimer, rfl⟩
  · refine .inl ⟨event, rfl, fires_of_returned (asleep_addEvent hunknown hnew false) rfl ?_ hrest hu⟩
    show event ∉ (addEvent clock seconds s.timer event).tasks
    rw [addEvent_tasks]
    exact fun htask => (hunknown event hnew).2 (List.mem_append_right _ htask)
  · rw [hs] at hresume
    cases hresume
  · refine .inr ⟨unknown_step hunknown htimer, ?_⟩
    show s.sleeper.task _ = .calling
    rw [hs]
    rfl

/-- Until the coroutine calls `sleep_hook`, what is known of its event is that it is not made. -/
theorem calling_step {s t : State κ} {i : Input κ} (h : s.sleeper = .calling → Unknown s.timer)
    (hs : step clock seconds s i = some t) (ht : t.sleeper = .calling) : Unknown t.timer := by
  rcases step_cases clock seconds hs with ⟨event, rfl, -, -, -, rfl⟩ | ⟨sleeper, rfl, -, hresume, rfl⟩ |
    ⟨j, timer, rfl, -, htimer, rfl⟩
  · cases ht
  · obtain rfl : sleeper = .calling := ht
    rw [Sleeper.event_eq_none.mp (Sleeper.resume_event hresume).symm] at hresume
    cases hresume
  · have hcalling := Sleeper.event_eq_none.mpr ht
    rw [Sleeper.task_event] at hcalling
    exact unknown_step (h (Sleeper.event_eq_none.mp hcalling)) htimer

/-- An event that fires for a sleep is due when the event of that sleep is. -/
theorem SleptFor.eq_interval {duration : Int} {is : List (Input κ)}
    (h : SleptFor clock seconds duration (initial clock) is) : duration = interval seconds := by
  obtain ⟨s, _, t, rest, hs, hstep, event, rfl, hfires⟩ :=
    Sometime.of_inductive (fun _ _ _ => calling_step) h fun _ => unknown_initial
  rcases step_cases clock seconds hstep with ⟨_, heq, hcalling, -, hnew, rfl⟩ | ⟨_, hi, -⟩ | ⟨_, _, hi, -⟩
  · obtain rfl := Input.sleep.inj heq
    obtain ⟨t, _, _, _, hkept, -, -, hdue, -⟩ :=
      Sometime.of_inductive (fun _ _ _ => asleep_step) hfires (asleep_addEvent (hs hcalling) hnew false)
    have harrive := hkept.arriveTime
    omega
  · cases hi
  · cases hi

end

/-! ### Which sleeps are long enough -/

theorem interval_eq_iff {seconds : BitVec 32} :
    interval seconds = 1000 * seconds.toNat ↔ 1000 * seconds.toNat < 2 ^ 32 := by
  have hlt := (1000 * seconds).isLt
  unfold interval
  rw [BitVec.toNat_mul] at hlt ⊢
  show (((1000 * seconds.toNat) % 2 ^ 32 : Nat) : Int) = _ ↔ _
  omega

/-- A clock that reads 0 once and `ms` from then on. -/
def leap (ms : Int) (n : Nat) : Int := if n = 0 then 0 else ms

/-- The event of a sleep that starts at 0 is alone in the timer. -/
theorem addEvent_leap {ms : Int} {seconds : BitVec 32} (hms : ms = interval seconds) (event : κ) :
    ∃ added, addEvent (leap ms) seconds (Timer.initial (leap ms)) event = added ∧
      added.pendingEvents = [(ms, event)] ∧ added.tasks = [] ∧ added.resetting = false ∧
        (added.events event).isCancled = false ∧ added.ticks = 2 := by
  refine ⟨_, rfl, ?_⟩
  simp [addEvent, Timer.addTimerEvent, Timer.isReset, Timer.newEvent, Timer.initial, Timer.getNowMs,
    leap, Timer.resetArriveTime, emplace, ← hms]

/-- It is taken at the first reading after the leap. -/
theorem onTimer_leap {ms : Int} {s : Timer.State κ} {event : κ} (hpending : s.pendingEvents = [(ms, event)])
    (hlive : (s.events event).isCancled = false) (hticks : s.ticks = 2) :
    (Timer.onTimer (leap ms) s).tasks = [event] := by
  rw [Timer.onTimer_tasks, hpending]
  simp [Timer.Fires, Timer.firingTime, hlive, hticks, leap]

/-- Nobody else is there: the event is taken and its task ends the sleep. -/
theorem returns (seconds : BitVec 32) (event : κ) : ∃ u : State κ,
    run (step (leap (interval seconds)) seconds) (initial (leap (interval seconds)))
      [.sleep event, .timer .onTimer, .timer .reset, .timer .runTask] = some u ∧
        u.sleeper = .returned event := by
  obtain ⟨ms, hms⟩ : ∃ ms, ms = interval seconds := ⟨_, rfl⟩
  obtain ⟨added, hadded, hpending, htasks, hcall, hlive, hticks⟩ := addEvent_leap hms event
  obtain ⟨fired, hfired⟩ : ∃ fired, fired = Timer.onTimer (leap ms) added := ⟨_, rfl⟩
  have htaken : fired.tasks = [event] := hfired ▸ onTimer_leap hpending hlive hticks
  have hresetting : fired.resetting = true := hfired ▸ rfl
  obtain ⟨ready, hready⟩ : ∃ ready : Timer.State κ,
    ready = {Timer.resetArriveTime (leap ms) fired with resetting := false} := ⟨_, rfl⟩
  have hwaits : ready.tasks = [event] := by
    rw [hready, ← htaken]
    exact (Timer.resetArriveTime_same (leap ms) fired).2.2.2
  have hidle : ready.resetting = false := hready ▸ rfl
  have hsleep : step (leap ms) seconds (initial (leap ms)) (.sleep event) =
      some ⟨added, .yielded event false⟩ := hadded ▸ rfl
  have honTimer : step (leap ms) seconds ⟨added, .yielded event false⟩ (.timer .onTimer) =
      some ⟨fired, .yielded event false⟩ := by
    simp [step, Foreign, Timer.step, hcall, htasks, hfired, Timer.starts, Sleeper.task]
  have hreset : step (leap ms) seconds ⟨fired, .yielded event false⟩ (.timer .reset) =
      some ⟨ready, .yielded event false⟩ := by
    simp [step, Foreign, Timer.step, hresetting, hready, Timer.starts, Sleeper.task]
  have htask : step (leap ms) seconds ⟨ready, .yielded event false⟩ (.timer .runTask) =
      some ⟨{ready with tasks := []}, .returned event⟩ := by
    simp [step, Foreign, Timer.step, hidle, hwaits, Timer.starts, Sleeper.task, Sleeper.loop]
  rw [← hms]
  exact ⟨_, run_cons_some.mpr ⟨_, hsleep, run_cons_some.mpr ⟨_, honTimer, run_cons_some.mpr ⟨_, hreset,
    run_cons_some.mpr ⟨_, htask, rfl⟩⟩⟩⟩, rfl⟩

/-- A sleep that is long enough is one whose interval is the time asked for. -/
theorem interval_of_sleepsLongEnough [Inhabited κ] {seconds : BitVec 32} (h : SleepsLongEnough κ seconds) :
    interval seconds = 1000 * seconds.toNat := by
  obtain ⟨u, hr, hu⟩ := returns seconds (default : κ)
  exact (h _ _ u default hr hu).eq_interval.symm

/-- **Which sleeps are long enough**: those of less than 2^32 milliseconds. -/
theorem sleepsLongEnough_iff [Inhabited κ] (seconds : BitVec 32) :
    SleepsLongEnough κ seconds ↔ 1000 * seconds.toNat < 2 ^ 32 := by
  rw [← interval_eq_iff]
  refine ⟨interval_of_sleepsLongEnough, fun h clock is u event hr hu => ?_⟩
  rw [← h]
  exact sleptFor_interval hr hu

/-- 4294968 seconds wrap around to 704 milliseconds. -/
theorem not_sleepsLongEnough : ¬ ∀ seconds : BitVec 32, SleepsLongEnough Nat seconds := fun h =>
  absurd (interval_of_sleepsLongEnough (h 4294968)) (by decide)

end CoroutineRpc.SleepHook
