import Mathlib.Data.Int.ConditionallyCompleteOrder
import Mathlib.Order.ConditionallyCompleteLattice.Basic
import CoroutineRpc.Net.Timer

/-! What holds of every run of a `Timer`.

A timer with work is armed after each call exactly as long as each `resetArriveTime`
reads the clock before the first pending time, or after it with the descriptor expired
already (`armed_iff`). Deleting an event is final exactly when its task is not among
those `onTimer` has copied and not started (`del_final_iff`). -/
namespace CoroutineRpc.Net.Timer
open Library.Transition Library.Multimap
variable {κ : Type}

/-! ### Consistency -/

/-- What all runs keep: the map is ordered, no key is later than its event's time, and no
event is set further ahead than its interval. -/
structure Consistent (clock : Nat → Int) (s : State κ) : Prop where
  sorted : Sorted s.pendingEvents
  created : ∀ p ∈ s.pendingEvents, s.created p.2 = true
  key : ∀ p ∈ s.pendingEvents, p.1 ≤ (s.events p.2).arriveTime
  ahead : ∀ e, s.created e = true → (s.events e).arriveTime ≤ s.now + (s.events e).interval
  clock : s.now ≤ clock s.ticks

/-- A smaller map is as consistent. -/
theorem Consistent.sublist {clock : Nat → Int} {s : State κ} (h : Consistent clock s)
    {l : List (Int × κ)} (hl : l.Sublist s.pendingEvents) :
    Consistent clock {s with pendingEvents := l} where
  sorted := h.sorted.sublist hl
  created := fun p hp => h.created p (hl.subset hp)
  key := fun p hp => h.key p (hl.subset hp)
  ahead := h.ahead
  clock := h.clock

/-- Consistency does not look at the descriptor, the tasks or the call that is under way. -/
theorem Consistent.other {clock : Nat → Int} {s : State κ} (h : Consistent clock s)
    (timerfd : Option Int) (tasks : List κ) (resetting : Bool) :
    Consistent clock {s with timerfd, tasks, resetting} := ⟨h.sorted, h.created, h.key, h.ahead, h.clock⟩

variable {clock : Nat → Int}

theorem consistent_initial : Consistent clock (initial clock : State κ) where
  sorted := List.Pairwise.nil
  created := fun _ hp => nomatch hp
  key := fun _ hp => nomatch hp
  ahead := fun _ he => nomatch he
  clock := Int.le_refl _

theorem consistent_addTimerEvent {s : State κ} (h : Consistent clock s) {event : κ}
    (he : s.created event = true) (needReset : Bool) :
    Consistent clock (addTimerEvent s event needReset) where
  sorted := h.sorted.emplace
  created := fun p hp => by
    rcases mem_emplace.mp hp with rfl | hp
    · exact he
    · exact h.created p hp
  key := fun p hp => by
    rcases mem_emplace.mp hp with rfl | hp
    · exact Int.le_refl _
    · exact h.key p hp
  ahead := h.ahead
  clock := h.clock

theorem Consistent.getNowMs (hclock : Monotone clock) {s : State κ} (h : Consistent clock s) :
    Consistent clock (getNowMs clock s) where
  sorted := h.sorted
  created := h.created
  key := h.key
  ahead := fun e he => by
    have hnow : s.now ≤ clock s.ticks := h.clock
    have := h.ahead e he
    show (s.events e).arriveTime ≤ clock s.ticks + (s.events e).interval
    omega
  clock := hclock (Nat.le_succ s.ticks)

theorem consistent_drainTimerfd (hclock : Monotone clock) {s : State κ} (h : Consistent clock s) :
    Consistent clock (drainTimerfd clock s) := by
  have hnow := h.getNowMs hclock
  unfold drainTimerfd
  dsimp only
  split
  · exact hnow
  · split
    · exact hnow.other _ _ _
    · exact hnow

theorem consistent_resetArriveTime (hclock : Monotone clock) {s : State κ} (h : Consistent clock s) :
    Consistent clock (resetArriveTime clock s) := by
  have hnow := h.getNowMs hclock
  unfold resetArriveTime
  split
  · exact h
  · dsimp only
    split
    · exact hnow
    · exact hnow.other _ _ _

/-! ### A timer with work is armed -/

/-- The descriptor has expired or will by the first key, a key that has passed counting as
now. -/
def Armed (s : State κ) : Prop :=
  s.pendingEvents ≠ [] → ∃ expiry, s.timerfd = some expiry ∧ ∀ p ∈ s.pendingEvents, expiry ≤ max p.1 s.now

/-- No call is under way, unless the timer is armed. -/
def ArmedAfter (s : State κ) : Prop := s.resetting = false → Armed s

/-- `resetArriveTime` reads a time before the first key, or one after it when the descriptor
has expired by then. -/
def Timely (clock : Nat → Int) (s : State κ) : Input κ → Prop
  | .reset => ∀ p, s.pendingEvents.head? = some p → clock s.ticks < p.1 ∨
      p.1 < clock s.ticks ∧ ∃ expiry, s.timerfd = some expiry ∧ expiry ≤ clock s.ticks
  | _ => True

theorem timerfdSettime_pos {interval : Int} (h : 0 < interval) (now : Int) :
    timerfdSettime ⟨interval / 1000, interval % 1000 * 1000000⟩ now = some (now + interval) := by
  show (if interval / 1000 = 0 ∧ interval % 1000 * 1000000 = 0 then none
    else some (now + interval / 1000 * 1000 + interval % 1000 * 1000000 / 1000000)) = _
  rw [if_neg (by omega)]
  congr 1
  omega

/-- Time passing, or a map with fewer entries, leaves a timer armed. -/
theorem Armed.mono {s t : State κ} (h : Armed s) (hfd : t.timerfd = s.timerfd) (hnow : s.now ≤ t.now)
    (hsub : ∀ p ∈ t.pendingEvents, p ∈ s.pendingEvents) : Armed t := by
  intro hne
  obtain ⟨q, hq⟩ := List.exists_mem_of_ne_nil _ hne
  obtain ⟨expiry, hexpiry, hle⟩ := h (List.ne_nil_of_mem (hsub q hq))
  refine ⟨expiry, hfd.trans hexpiry, fun p hp => ?_⟩
  have := hle p (hsub p hp)
  omega

/-- What `resetArriveTime` is for, and when it fails. -/
theorem armed_resetArriveTime {s : State κ} (h : Consistent clock s) :
    Armed (resetArriveTime clock s) ↔ Timely clock s .reset := by
  simp only [Timely]
  cases hpending : s.pendingEvents with
  | nil =>
    have hnothing : Armed (resetArriveTime clock s) := by
      simp only [resetArriveTime, hpending]
      exact fun hne => absurd hpending hne
    exact ⟨fun _ p hp => by simp at hp, fun _ => hnothing⟩
  | cons first rest =>
    have hfirst : ∀ p ∈ s.pendingEvents, first.1 ≤ p.1 := fun p hp =>
      (hpending ▸ h.sorted).first_le (hpending ▸ hp)
    have hmem : first ∈ s.pendingEvents := by rw [hpending]; exact List.mem_cons_self ..
    have hne : s.pendingEvents ≠ [] := List.ne_nil_of_mem hmem
    simp only [resetArriveTime, hpending, List.head?_cons, Option.some.injEq, forall_eq']
    show Armed (if first.1 < clock s.ticks then _ else _) ↔ _
    rcases Int.lt_trichotomy first.1 (clock s.ticks) with hlt | heq | hgt
    · rw [if_pos hlt]
      constructor
      · intro harmed
        obtain ⟨expiry, hexpiry, hle⟩ := harmed hne
        have : expiry ≤ max first.1 (clock s.ticks) := hle first hmem
        exact .inr ⟨hlt, expiry, hexpiry, by omega⟩
      · rintro (hgt | ⟨_, expiry, hexpiry, hle⟩) _
        · omega
        · refine ⟨expiry, hexpiry, fun p _ => ?_⟩
          show expiry ≤ max p.1 (clock s.ticks)
          omega
    · -- a zero interval disarms the descriptor
      rw [if_neg (by omega)]
      constructor
      · intro harmed
        obtain ⟨expiry, hexpiry, _⟩ := harmed hne
        have hzero : first.1 - clock s.ticks = 0 := by omega
        have : timerfdSettime ⟨(first.1 - clock s.ticks) / 1000,
          (first.1 - clock s.ticks) % 1000 * 1000000⟩ (clock s.ticks) = some expiry := hexpiry
        rw [hzero] at this
        cases this
      · rintro (hgt | ⟨hlt, _⟩) <;> omega
    · rw [if_neg (by omega)]
      refine ⟨fun _ => .inl hgt, fun _ _ => ⟨first.1, ?_, fun p hp => ?_⟩⟩
      · show timerfdSettime ⟨(first.1 - clock s.ticks) / 1000,
          (first.1 - clock s.ticks) % 1000 * 1000000⟩ (clock s.ticks) = some first.1
        rw [timerfdSettime_pos (by omega)]
        congr 1
        omega
      · have := hfirst p hp
        show first.1 ≤ max p.1 (clock s.ticks)
        omega

/-- An event that does not ask for a reset is not earlier than the first. -/
theorem armed_addTimerEvent {s : State κ} (h : Consistent clock s) (harmed : Armed s) {event : κ}
    (hreset : isReset s event = false) (needReset : Bool) : Armed (addTimerEvent s event needReset) := by
  intro _
  cases hpending : s.pendingEvents with
  | nil =>
    rw [isReset, hpending] at hreset
    cases hreset
  | cons first rest =>
    have hmem : first ∈ s.pendingEvents := by rw [hpending]; exact List.mem_cons_self ..
    obtain ⟨expiry, hexpiry, hle⟩ := harmed (List.ne_nil_of_mem hmem)
    refine ⟨expiry, hexpiry, fun p hp => ?_⟩
    show expiry ≤ max p.1 s.now
    rcases mem_emplace.mp hp with rfl | hp
    · have hkey := h.key first hmem
      have hbound := hle first hmem
      simp only [isReset, hpending, decide_eq_false_iff_not] at hreset
      show expiry ≤ max (s.events event).arriveTime s.now
      omega
    · exact hle p hp

/-! ### Deleted events -/

/-- The task a step starts. -/
def starts (s : State κ) : Input κ → Option κ
  | .runTask => if s.resetting then none else s.tasks.head?
  | _ => none

/-- A deleted event whose task is not waiting to be started. -/
structure Dead (e : κ) (s : State κ) : Prop where
  created : s.created e = true
  cancled : (s.events e).isCancled = true
  task : e ∉ s.tasks

theorem Dead.starts {e : κ} {s : State κ} (h : Dead e s) (i : Input κ) : starts s i ≠ some e := by
  intro hstart
  cases i with
  | runTask =>
    simp only [Timer.starts] at hstart
    split at hstart
    · cases hstart
    · exact h.task (List.mem_of_mem_head? hstart)
  | _ => cases hstart

/-! ### An event that waits -/

/-- The event is in the map, or its task is among those `onTimer` has copied. -/
def Awaits (e : κ) (s : State κ) : Prop := (∃ key, (key, e) ∈ s.pendingEvents) ∨ e ∈ s.tasks

theorem Awaits.of_eq {e : κ} {s t : State κ} (h : Awaits e s) (hpending : t.pendingEvents = s.pendingEvents)
    (htasks : t.tasks = s.tasks) : Awaits e t := by
  rw [Awaits, hpending, htasks]
  exact h

theorem awaits_addTimerEvent_self (s : State κ) (e : κ) (needReset : Bool) :
    Awaits e (addTimerEvent s e needReset) := .inl ⟨_, mem_emplace.mpr (.inl rfl)⟩

theorem awaits_addTimerEvent {e : κ} {s : State κ} (h : Awaits e s) (event : κ) (needReset : Bool) :
    Awaits e (addTimerEvent s event needReset) :=
  h.imp_left fun ⟨key, hkey⟩ => ⟨key, mem_emplace.mpr (.inr hkey)⟩

/-- `resetArriveTime` sets the descriptor only. -/
theorem resetArriveTime_same (clock : Nat → Int) (s : State κ) :
    (resetArriveTime clock s).events = s.events ∧ (resetArriveTime clock s).created = s.created ∧
      (resetArriveTime clock s).pendingEvents = s.pendingEvents ∧
        (resetArriveTime clock s).tasks = s.tasks := by
  unfold resetArriveTime
  split
  · exact ⟨rfl, rfl, rfl, rfl⟩
  · dsimp only
    split <;> exact ⟨rfl, rfl, rfl, rfl⟩

theorem awaits_resetArriveTime (clock : Nat → Int) {e : κ} {s : State κ} (h : Awaits e s) :
    Awaits e (resetArriveTime clock s) := by
  obtain ⟨-, -, hpending, htasks⟩ := resetArriveTime_same clock s
  exact h.of_eq hpending htasks

/-! ### Every step -/

variable [DecidableEq κ]

@[simp] theorem repeatEvent_created (s : State κ) (event : κ) :
    (repeatEvent clock s event).created = s.created := by
  unfold repeatEvent
  split <;> rfl

theorem eraseEvent_sublist (arriveTime : Int) (event : κ) (l : List (Int × κ)) :
    (eraseEvent arriveTime event l).Sublist l := by
  have hl := ranges_append arriveTime l
  unfold eraseEvent
  split
  · conv_rhs => rw [← hl]
    exact (List.Sublist.refl _).append (List.eraseP_sublist.append (List.Sublist.refl _))
  · conv_rhs => rw [← hl]
    exact (List.Sublist.refl _).append ((List.Sublist.refl _).append (List.tail_sublist _))

theorem consistent_delTimerEvent {s : State κ} (h : Consistent clock s) (event : κ) :
    Consistent clock (delTimerEvent s event) := by
  have hevents : ∀ e, ((delTimerEvent s event).events e).arriveTime = (s.events e).arriveTime ∧
      ((delTimerEvent s event).events e).interval = (s.events e).interval := by
    intro e
    show (Function.update s.events event _ e).arriveTime = _ ∧
      (Function.update s.events event _ e).interval = _
    by_cases heq : e = event
    · rw [heq, Function.update_self]
      exact ⟨rfl, rfl⟩
    · rw [Function.update_of_ne heq]
      exact ⟨rfl, rfl⟩
  have hsub := h.sublist (eraseEvent_sublist (s.events event).arriveTime event s.pendingEvents)
  refine ⟨hsub.sorted, hsub.created, fun p hp => ?_, fun e he => ?_, h.clock⟩
  · rw [(hevents p.2).1]
    exact hsub.key p hp
  · rw [(hevents e).1, (hevents e).2]
    exact h.ahead e he

section
variable (hclock : Monotone clock)
include hclock

theorem consistent_newEvent {s : State κ} (h : Consistent clock s) {event : κ}
    (he : s.created event = false) (interval : Int) (isRepeated : Bool) :
    Consistent clock (newEvent clock s event interval isRepeated) := by
  have hnow := h.getNowMs hclock
  have hne : ∀ e, s.created e = true → e ≠ event := fun e hc heq => by
    rw [heq, he] at hc
    cases hc
  refine ⟨h.sorted, fun p hp => ?_, fun p hp => ?_, fun e hc => ?_, hnow.clock⟩
  · show Function.update s.created event true p.2 = true
    rw [Function.update_of_ne (hne _ (h.created p hp))]
    exact h.created p hp
  · show p.1 ≤ (Function.update s.events event _ p.2).arriveTime
    rw [Function.update_of_ne (hne _ (h.created p hp))]
    exact h.key p hp
  · show (Function.update s.events event _ e).arriveTime ≤
      clock s.ticks + (Function.update s.events event _ e).interval
    by_cases heq : e = event
    · rw [heq, Function.update_self]
      exact Int.le_refl _
    · rw [Function.update_of_ne heq]
      have : Function.update s.created event true e = true := hc
      rw [Function.update_of_ne heq] at this
      exact hnow.ahead e this

/-- Setting an event ahead of now moves its time up, so older keys of it stay behind. -/
theorem consistent_resetTime {s : State κ} (h : Consistent clock s) {event : κ}
    (he : s.created event = true) : Consistent clock (resetTime clock s event) := by
  have hnow := h.getNowMs hclock
  have hahead := hnow.ahead event he
  refine ⟨h.sorted, h.created, fun p hp => ?_, fun e hc => ?_, hnow.clock⟩
  · show p.1 ≤ (Function.update s.events event _ p.2).arriveTime
    by_cases heq : p.2 = event
    · rw [heq, Function.update_self]
      have := h.key p hp
      rw [heq] at this
      exact Int.le_trans this hahead
    · rw [Function.update_of_ne heq]
      exact h.key p hp
  · show (Function.update s.events event _ e).arriveTime ≤
      clock s.ticks + (Function.update s.events event _ e).interval
    by_cases heq : e = event
    · rw [heq, Function.update_self]
      exact Int.le_refl _
    · rw [Function.update_of_ne heq]
      exact hnow.ahead e hc

theorem consistent_repeatEvent {s : State κ} (h : Consistent clock s) {event : κ}
    (he : s.created event = true) : Consistent clock (repeatEvent clock s event) := by
  unfold repeatEvent
  split
  · exact consistent_addTimerEvent (consistent_resetTime hclock h he) he false
  · exact h

theorem consistent_foldl_repeatEvent {s : State κ} (h : Consistent clock s) {es : List κ}
    (hes : ∀ e ∈ es, s.created e = true) : Consistent clock (es.foldl (repeatEvent clock) s) := by
  induction es generalizing s with
  | nil => exact h
  | cons e rest ih =>
    refine ih (consistent_repeatEvent hclock h (hes e (List.mem_cons_self ..))) fun d hd => ?_
    rw [repeatEvent_created]
    exact hes d (List.mem_cons_of_mem e hd)

theorem consistent_onTimer {s : State κ} (h : Consistent clock s) :
    Consistent clock (onTimer clock s) := by
  have hnow := (consistent_drainTimerfd hclock h).getNowMs hclock
  refine Consistent.other (consistent_foldl_repeatEvent hclock
    (hnow.sublist (List.dropWhile_sublist _)) fun e he => ?_) _ _ _
  obtain ⟨p, hp, rfl⟩ := List.mem_map.mp he
  exact hnow.created p ((List.takeWhile_sublist _).subset hp)

theorem consistent_step {s t : State κ} {i : Input κ} (h : Consistent clock s)
    (hs : step clock s i = some t) : Consistent clock t := by
  rcases step_cases clock hs with ⟨e, interval, r, rfl, -, he, rfl⟩ | ⟨e, rfl, -, he, rfl⟩ |
    ⟨e, rfl, -, -, rfl⟩ | ⟨rfl, -, -, rfl⟩ | ⟨rfl, -, rfl⟩ | ⟨e, rest, rfl, -, -, rfl⟩
  · exact consistent_newEvent hclock h he interval r
  · exact consistent_addTimerEvent h he true
  · exact consistent_delTimerEvent h e
  · exact consistent_onTimer hclock h
  · exact (consistent_resetArriveTime hclock h).other _ _ _
  · exact h.other _ _ _

end

theorem armed_step {s t : State κ} {i : Input κ} (h : Consistent clock s) (hp : ArmedAfter s)
    (hs : step clock s i = some t) : ArmedAfter t ↔ Timely clock s i := by
  rcases step_cases clock hs with ⟨e, interval, r, rfl, hcall, -, rfl⟩ | ⟨e, rfl, hcall, -, rfl⟩ |
    ⟨e, rfl, hcall, -, rfl⟩ | ⟨rfl, hcall, -, rfl⟩ | ⟨rfl, hcall, rfl⟩ | ⟨e, rest, rfl, hcall, -, rfl⟩
  · exact ⟨fun _ => trivial, fun _ _ => (hp hcall).mono rfl h.clock fun _ hp => hp⟩
  · refine ⟨fun _ => trivial, fun _ hdone => armed_addTimerEvent h (hp hcall) ?_ true⟩
    have : (isReset s e && true) = false := hdone
    rwa [Bool.and_true] at this
  · exact ⟨fun _ => trivial, fun _ _ => (hp hcall).mono rfl (Int.le_refl _)
      fun p hp => (eraseEvent_sublist _ _ _).subset hp⟩
  · exact ⟨fun _ => trivial, fun _ hdone => nomatch hdone⟩
  · rw [← armed_resetArriveTime h]
    exact ⟨fun harmed => harmed rfl, fun harmed _ => harmed⟩
  · exact ⟨fun _ => trivial, fun _ _ => hp hcall⟩

/-- **Which runs keep a timer with work armed**: exactly those in which no `resetArriveTime`
reads the very time of the first event, or a later one with the descriptor not expired. -/
theorem armed_iff (clock : Nat → Int) (hclock : Monotone clock) {is : List (Input κ)} {u : State κ}
    (hr : run (step clock) (initial clock) is = some u) :
    Always (step clock) ArmedAfter (initial clock) is ↔
      Meets (step clock) (Timely clock) (initial clock) is :=
  always_iff_meets (fun _ _ _ => consistent_step hclock) (fun _ _ _ => armed_step) consistent_initial
    (fun _ hne => absurd rfl hne) hr

/-- One event, one reset in time. -/
theorem armed_iff_one_event :
    Always (step fun n => n) ArmedAfter (initial fun n => n) [.create 0 5 false, .add 0, .reset] ↔
      Meets (step fun n => n) (Timely fun n => n) (initial fun n => n)
        [.create (0 : Nat) 5 false, .add 0, .reset] :=
  armed_iff (fun n => n) (fun _ _ h => Int.ofNat_le.mpr h) rfl

/-- A clock that passes a deadline between the two readings of `onTimer`. -/
def lateClock (n : Nat) : Int := if n < 3 then 0 else if n < 5 then 5 else 7

theorem lateClock_monotone : Monotone lateClock := by
  intro m n h
  simp only [lateClock]
  split_ifs <;> omega

/-- The second event is due after the batch was taken and before the timer is reset: the
descriptor stays disarmed. -/
theorem not_armed_late_reset : ¬ ∀ clock : Nat → Int, Monotone clock →
    ∀ is : List (Input Nat), Always (step clock) ArmedAfter (initial clock) is := fun h => by
  have hrun := h lateClock lateClock_monotone
    [.create 0 5 false, .add 0, .reset, .create 1 6 false, .add 1, .onTimer, .reset]
  obtain ⟨expiry, hexpiry, _⟩ := hrun.last rfl rfl (by decide)
  cases hexpiry

/-! ### Deleting is final -/

theorem foldl_repeatEvent_other {e : κ} {es : List κ} (he : e ∉ es) (s : State κ) :
    (es.foldl (repeatEvent clock) s).events e = s.events e := by
  induction es generalizing s with
  | nil => rfl
  | cons d rest ih =>
    have hne : e ≠ d := fun h => he (h ▸ List.mem_cons_self ..)
    rw [List.foldl_cons, ih fun h => he (List.mem_cons_of_mem d h)]
    unfold repeatEvent
    split
    · show Function.update s.events d _ e = s.events e
      rw [Function.update_of_ne hne]
    · rfl

@[simp] theorem foldl_repeatEvent_created (es : List κ) (s : State κ) :
    (es.foldl (repeatEvent clock) s).created = s.created := by
  induction es generalizing s with
  | nil => rfl
  | cons d rest ih => rw [List.foldl_cons, ih, repeatEvent_created]

theorem dead_onTimer {e : κ} {s : State κ} (h : Dead e s) : Dead e (onTimer clock s) := by
  obtain ⟨now, hnow⟩ : ∃ now, now = getNowMs clock (drainTimerfd clock s) := ⟨_, rfl⟩
  have hevents : now.events = s.events := by rw [hnow]; exact drainTimerfd_events clock s
  have hcreated : now.created = s.created := by rw [hnow]; exact drainTimerfd_created clock s
  -- a cancelled event is not taken
  have htmps : e ∉ (now.pendingEvents.takeWhile (due now)).map Prod.snd := by
    intro hmem
    obtain ⟨p, hp, rfl⟩ := List.mem_map.mp hmem
    have hdue := List.mem_takeWhile_imp hp
    simp only [due, decide_eq_true_eq, hevents] at hdue
    exact hdue.2 h.cancled
  have heq : onTimer clock s = {((now.pendingEvents.takeWhile (due now)).map Prod.snd).foldl
      (repeatEvent clock) {now with pendingEvents := now.pendingEvents.dropWhile (due now)} with
      tasks := (now.pendingEvents.takeWhile (due now)).map Prod.snd, resetting := true} := by
    rw [hnow]
    rfl
  rw [heq]
  refine ⟨?_, ?_, htmps⟩
  · simp only [foldl_repeatEvent_created, hcreated]
    exact h.created
  · simp only [foldl_repeatEvent_other htmps, hevents]
    exact h.cancled

theorem dead_step {e : κ} {s t : State κ} {i : Input κ} (h : Dead e s) (hs : step clock s i = some t) :
    Dead e t := by
  rcases step_cases clock hs with ⟨d, interval, r, rfl, -, hd, rfl⟩ | ⟨d, rfl, -, -, rfl⟩ |
    ⟨d, rfl, -, -, rfl⟩ | ⟨rfl, -, -, rfl⟩ | ⟨rfl, -, rfl⟩ | ⟨d, rest, rfl, -, htasks, rfl⟩
  · have hne : e ≠ d := fun heq => by
      rw [← heq, h.created] at hd
      cases hd
    refine ⟨?_, ?_, h.task⟩
    · show Function.update s.created d true e = true
      rw [Function.update_of_ne hne]
      exact h.created
    · show (Function.update s.events d _ e).isCancled = true
      rw [Function.update_of_ne hne]
      exact h.cancled
  · exact ⟨h.created, h.cancled, h.task⟩
  · refine ⟨h.created, ?_, h.task⟩
    show (Function.update s.events d _ e).isCancled = true
    by_cases heq : e = d
    · rw [heq, Function.update_self]
    · rw [Function.update_of_ne heq]
      exact h.cancled
  · exact dead_onTimer h
  · obtain ⟨hevents, hcreated, -, htasks⟩ := resetArriveTime_same clock s
    refine ⟨?_, ?_, ?_⟩
    · show (resetArriveTime clock s).created e = true
      rw [hcreated]
      exact h.created
    · show ((resetArriveTime clock s).events e).isCancled = true
      rw [hevents]
      exact h.cancled
    · show e ∉ (resetArriveTime clock s).tasks
      rw [htasks]
      exact h.task
  · exact ⟨h.created, h.cancled, fun hmem => h.task (by rw [htasks]; exact List.mem_cons_of_mem d hmem)⟩

/-- The tasks that are waiting are started one after the other. -/
theorem starts_waiting {e : κ} {s : State κ} (hcall : s.resetting = false) (he : e ∈ s.tasks) :
    ¬ Meets (step clock) (fun s i => starts s i ≠ some e) s
      (List.replicate s.tasks.length .runTask) := by
  obtain ⟨tasks, htasks⟩ : ∃ tasks, tasks = s.tasks := ⟨_, rfl⟩
  rw [← htasks] at he ⊢
  induction tasks generalizing s with
  | nil => cases he
  | cons d rest ih =>
    rw [List.length_cons, List.replicate_succ]
    rintro ⟨hfirst, hrest⟩
    rcases List.mem_cons.mp he with rfl | he
    · exact hfirst (by simp only [starts, hcall, ← htasks]; rfl)
    · have hstep : step clock s .runTask = some {s with tasks := rest} := by
        simp only [step, hcall, ← htasks]
        rfl
      exact ih (s := {s with tasks := rest}) hcall he rfl (hrest _ hstep)

/-- **When deleting is final.** After `delTimerEvent(e)`, made in any run, no later step starts
the task of `e` without `e` being added again, exactly when that task is not among those
`onTimer` has copied and not started. -/
theorem del_final_iff (clock : Nat → Int) {a : List (Input κ)} {e : κ} {s s' : State κ}
    (hs : run (step clock) (initial clock) a = some s)
    (hdel : run (step clock) (initial clock) (a ++ [.del e]) = some s') :
    (∀ b, .add e ∉ b → Meets (step clock) (fun s i => starts s i ≠ some e) s' b) ↔ e ∉ s.tasks := by
  rw [run_append, hs, Option.bind_some] at hdel
  obtain ⟨t, hstep, hlast⟩ := run_cons_some.mp hdel
  obtain rfl := Option.some.inj hlast
  obtain ⟨d, hd, hcall, hcreated, rfl⟩ : ∃ d, Input.del e = .del d ∧ s.resetting = false ∧
      s.created d = true ∧ t = delTimerEvent s d := by
    rcases step_cases clock hstep with ⟨_, _, _, h, _⟩ | ⟨_, h, _⟩ | h | ⟨h, _⟩ | ⟨h, _⟩ | ⟨_, _, h, _⟩
    · cases h
    · cases h
    · exact h
    · cases h
    · cases h
    · cases h
  obtain rfl := Input.del.inj hd
  constructor
  · intro h hmem
    exact starts_waiting (s := delTimerEvent s e) hcall hmem (h _ (by simp))
  · intro htask b _
    have hdead : Dead e (delTimerEvent s e) := by
      refine ⟨hcreated, ?_, htask⟩
      show (Function.update s.events e _ e).isCancled = true
      rw [Function.update_self]
    exact meets_of_inductive (Q := Dead e) (fun _ _ _ => dead_step) (fun _ i h => h.starts i) hdead b

/-- Deleted while it is pending. -/
theorem del_final_iff_pending : ∃ s s' : State Nat,
    run (step fun n => n) (initial fun n => n) [.create 0 5 false, .add 0, .reset] = some s ∧
    run (step fun n => n) (initial fun n => n) [.create 0 5 false, .add 0, .reset, .del 0] = some s' ∧
    ((∀ b, .add 0 ∉ b → Meets (step fun n => n) (fun s i => starts s i ≠ some 0) s' b) ↔ 0 ∉ s.tasks) :=
  ⟨_, _, rfl, rfl, del_final_iff (fun n => n) (a := [.create 0 5 false, .add 0, .reset]) rfl rfl⟩

/-- Two events of one batch: the task of the first deletes the second, which starts all the
same. -/
theorem not_del_final_same_batch : ¬ ∀ clock : Nat → Int, Monotone clock →
    ∀ (a b : List (Input Nat)) (e : Nat) (s : State Nat),
      run (step clock) (initial clock) (a ++ [.del e]) = some s → .add e ∉ b →
        Meets (step clock) (fun s i => starts s i ≠ some e) s b := fun h => by
  have hrun := h (fun n => 10 * n) (fun m n h => by dsimp only; omega)
    [.create 0 15 false, .add 0, .reset, .create 1 15 false, .add 1, .onTimer, .reset, .runTask] [.runTask] 1
    _ rfl (by decide)
  exact hrun.1 rfl

/-! ### Waiting goes on -/

/-- Deleting `event` leaves `e`: `event` is where it is looked for, or the entry that is erased
in its place is not the one of `e`. -/
def Spares (s : State κ) (e event : κ) : Prop :=
  (equalRange (s.events event).arriveTime s.pendingEvents).any (·.2 = event) = true ∨
    ∀ key, (after (s.events event).arriveTime s.pendingEvents).head? ≠ some (key, e)

theorem mem_eraseEvent {e event : κ} {key arriveTime : Int} {l : List (Int × κ)} (hne : event ≠ e)
    (hspares : (equalRange arriveTime l).any (·.2 = event) = true ∨ (after arriveTime l).head? ≠ some (key, e))
    (h : (key, e) ∈ l) : (key, e) ∈ eraseEvent arriveTime event l := by
  have hother (l : List (Int × κ)) (hl : (key, e) ∈ l) : (key, e) ∈ l.eraseP (·.2 = event) :=
    (List.mem_eraseP_of_neg (by simpa using hne.symm)).mpr hl
  rw [← ranges_append arriveTime l, List.mem_append, List.mem_append] at h
  unfold eraseEvent
  split
  · rw [List.mem_append, List.mem_append]
    exact h.imp_right (Or.imp_left (hother _))
  · rename_i hany
    have hhead := hspares.resolve_left hany
    rw [List.mem_append, List.mem_append]
    refine h.imp_right (Or.imp_right fun hafter => ?_)
    cases hl : after arriveTime l with
    | nil => rw [hl] at hafter; cases hafter
    | cons first rest =>
      rw [hl] at hafter hhead
      exact (List.mem_cons.mp hafter).resolve_left fun heq => hhead (congrArg some heq.symm)

theorem awaits_delTimerEvent {e event : κ} {s : State κ} (h : Awaits e s) (hne : event ≠ e)
    (hspares : Spares s e event) : Awaits e (delTimerEvent s event) :=
  h.imp_left fun ⟨key, hkey⟩ =>
    ⟨key, mem_eraseEvent hne (hspares.imp_right fun hhead => hhead key) hkey⟩

theorem mem_foldl_repeatEvent {p : Int × κ} (es : List κ) {s : State κ} (h : p ∈ s.pendingEvents) :
    p ∈ (es.foldl (repeatEvent clock) s).pendingEvents := by
  induction es generalizing s with
  | nil => exact h
  | cons event rest ih =>
    apply ih
    unfold repeatEvent
    split
    · exact mem_emplace.mpr (.inr h)
    · exact h

/-- What is due becomes a task, and the rest stays in the map. -/
theorem awaits_onTimer {e : κ} {s : State κ} (h : Awaits e s) (htasks : s.tasks = []) :
    Awaits e (onTimer clock s) := by
  obtain ⟨key, hkey⟩ := h.resolve_right (by simp [htasks])
  have hpending : (key, e) ∈ (getNowMs clock (drainTimerfd clock s)).pendingEvents := by
    unfold drainTimerfd
    dsimp only
    split
    · exact hkey
    · split <;> exact hkey
  have hcut := List.takeWhile_append_dropWhile (p := due (getNowMs clock (drainTimerfd clock s)))
    (l := (getNowMs clock (drainTimerfd clock s)).pendingEvents)
  rw [← hcut, List.mem_append] at hpending
  rcases hpending with hdue | hlater
  · exact .inr (List.mem_map_of_mem hdue)
  · exact .inl ⟨key, mem_foldl_repeatEvent _ hlater⟩

/-- An event goes on waiting until its task is started, unless it or the entry behind another
is deleted. -/
theorem awaits_step {e : κ} {s t : State κ} {i : Input κ} (h : Awaits e s) (hi : i ≠ .runTask)
    (hdel : ∀ event, i = .del event → event ≠ e ∧ Spares s e event) (hs : step clock s i = some t) :
    Awaits e t := by
  rcases step_cases clock hs with ⟨event, interval, r, -, -, -, rfl⟩ | ⟨event, -, -, -, rfl⟩ |
    ⟨event, heq, -, -, rfl⟩ | ⟨-, -, htasks, rfl⟩ | ⟨-, -, rfl⟩ | ⟨event, rest, heq, -⟩
  · exact h
  · exact awaits_addTimerEvent h event true
  · obtain ⟨hne, hspares⟩ := hdel event heq
    exact awaits_delTimerEvent h hne hspares
  · exact awaits_onTimer h htasks
  · exact (awaits_resetArriveTime clock h).of_eq rfl rfl
  · exact absurd heq hi

end CoroutineRpc.Net.Timer
