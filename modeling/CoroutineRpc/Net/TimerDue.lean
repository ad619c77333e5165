import CoroutineRpc.Net.TimerRuns

/-! What one call of a `Timer` does to the pending events, whatever they are.

`delTimerEvent` looks for its event among the entries with the event's time, and takes the
end of these for the event when it is not there: the entry behind them goes instead
(`delTimerEvent_iff`). `onTimer` stops at the first entry that is not due or is cancelled, so
that a cancelled entry holds up the due ones behind it (`onTimer_iff`). -/
namespace CoroutineRpc.Net.Timer
open Library.Transition Library.Multimap
variable {κ : Type}

/-! ### One event is deleted -/

section
variable [DecidableEq κ]

/-- One entry of the event is gone and nothing else, or there was none and nothing is gone. -/
def Removes (event : κ) (s t : State κ) : Prop :=
  (∃ key, (key, event) ∈ s.pendingEvents ∧ t.pendingEvents = s.pendingEvents.erase (key, event)) ∨
    (∀ p ∈ s.pendingEvents, p.2 ≠ event) ∧ t.pendingEvents = s.pendingEvents

/-- The event is pending at its time, or the first entry behind that time is its own, or it
is not pending and nothing is behind its time. -/
def Safe (s : State κ) (event : κ) : Prop :=
  ((s.events event).arriveTime, event) ∈ s.pendingEvents ∨
    (∃ key, (after (s.events event).arriveTime s.pendingEvents).head? = some (key, event)) ∨
    (∀ p ∈ s.pendingEvents, p.2 ≠ event) ∧ ∀ p ∈ s.pendingEvents, p.1 ≤ (s.events event).arriveTime

/-- In a range of one key, the first entry of an event is the first with this key and event. -/
theorem eraseP_eq_erase {k : Int} {event : κ} {l : List (Int × κ)} (h : ∀ p ∈ l, p.1 = k) :
    l.eraseP (·.2 = event) = l.erase (k, event) := by
  induction l with
  | nil => rfl
  | cons p rest ih =>
    have hkey : p.1 = k := h p (List.mem_cons_self ..)
    by_cases heq : p.2 = event
    · obtain rfl : p = (k, event) := Prod.ext hkey heq
      rw [List.erase_cons_head, List.eraseP_cons_of_pos (by simp)]
    · have hne : p ≠ (k, event) := fun hp => heq (congrArg Prod.snd hp)
      rw [List.eraseP_cons_of_neg (by simpa using heq), List.erase_cons_tail (by simpa using hne),
        ih fun q hq => h q (List.mem_cons_of_mem p hq)]

/-- An event that is pending at its time is what `delTimerEvent` erases. -/
theorem eraseEvent_of_mem {k : Int} {event : κ} {l : List (Int × κ)} (h : Sorted l)
    (hmem : (k, event) ∈ l) : eraseEvent k event l = l.erase (k, event) := by
  have hany := (any_equalRange h).mpr hmem
  obtain ⟨p, hp, heq⟩ := List.any_eq_true.mp hany
  obtain rfl : p = (k, event) := Prod.ext (h.eq_of_mem_equalRange hp) (of_decide_eq_true heq)
  have hbefore : (k, event) ∉ before k l := fun hlt => Int.lt_irrefl k (lt_of_mem_before hlt)
  rw [eraseEvent, if_pos hany, eraseP_eq_erase fun q hq => h.eq_of_mem_equalRange hq]
  conv_rhs => rw [← ranges_append k l]
  rw [List.erase_append_right _ hbefore, List.erase_append_left _ hp]

/-- Otherwise it is the first entry behind the event's time, whosever it is. -/
theorem eraseEvent_of_not_mem {k : Int} {event : κ} {l : List (Int × κ)} (h : Sorted l)
    (hmem : (k, event) ∉ l) :
    eraseEvent k event l = before k l ++ (equalRange k l ++ (after k l).tail) := by
  rw [eraseEvent, if_neg fun hany => hmem ((any_equalRange h).mp hany)]

/-- Which entry that is. -/
theorem eraseEvent_of_after {k : Int} {event : κ} {l : List (Int × κ)} (h : Sorted l)
    (hmem : (k, event) ∉ l) {p : Int × κ} {rest : List (Int × κ)} (hafter : after k l = p :: rest) :
    eraseEvent k event l = l.erase p := by
  have hkey : k < p.1 := h.lt_of_mem_after (hafter ▸ List.mem_cons_self ..)
  have hbefore : p ∉ before k l := fun hp => by
    have := lt_of_mem_before hp
    omega
  have hrange : p ∉ equalRange k l := fun hp => by
    have := h.eq_of_mem_equalRange hp
    omega
  rw [eraseEvent_of_not_mem h hmem, hafter]
  conv_rhs => rw [← ranges_append k l, hafter]
  rw [List.erase_append_right _ hbefore, List.erase_append_right _ hrange, List.erase_cons_head]
  rfl

/-- A list that lost two entries, one of them another's, did not lose one. -/
theorem erase_ne_erase {p q : Int × κ} {l : List (Int × κ)} (hp : p ∈ l) (hne : p ≠ q) :
    l.erase p ≠ l.erase q := fun heq => by
  have hcount := congrArg (List.count p) heq
  rw [List.count_erase_self, List.count_erase_of_ne hne] at hcount
  have := List.count_pos_iff.mpr hp
  omega

/-- **When `delTimerEvent` removes its event and nothing else.** -/
theorem delTimerEvent_iff {s : State κ} (hsorted : Sorted s.pendingEvents) (event : κ) :
    Removes event s (delTimerEvent s event) ↔ Safe s event := by
  obtain ⟨k, hk⟩ : ∃ k, k = (s.events event).arriveTime := ⟨_, rfl⟩
  have hresult : (delTimerEvent s event).pendingEvents = eraseEvent k event s.pendingEvents := by
    rw [hk]
    rfl
  simp only [Removes, Safe, hresult, ← hk]
  by_cases hmem : (k, event) ∈ s.pendingEvents
  · rw [eraseEvent_of_mem hsorted hmem]
    exact ⟨fun _ => .inl hmem, fun _ => .inl ⟨k, hmem, rfl⟩⟩
  cases hafter : after k s.pendingEvents with
  | nil =>
    -- nothing is erased
    have hsame : eraseEvent k event s.pendingEvents = s.pendingEvents := by
      rw [eraseEvent_of_not_mem hsorted hmem, hafter, List.tail_nil, ← hafter, ranges_append]
    have hle : ∀ p ∈ s.pendingEvents, p.1 ≤ k := fun p hp => by
      rcases (mem_ranges (k := k)).mp hp with hp | hp | hp
      · exact Int.le_of_lt (lt_of_mem_before hp)
      · exact Int.le_of_eq (hsorted.eq_of_mem_equalRange hp)
      · rw [hafter] at hp
        cases hp
    rw [hsame]
    constructor
    · rintro (⟨key, hkey, heq⟩ | ⟨hnone, -⟩)
      · have := congrArg List.length heq
        rw [List.length_erase_of_mem hkey] at this
        have := List.length_pos_of_mem hkey
        omega
      · exact .inr (.inr ⟨hnone, hle⟩)
    · rintro (h | ⟨key, hkey⟩ | ⟨hnone, -⟩)
      · exact absurd h hmem
      · cases hkey
      · exact .inr ⟨hnone, rfl⟩
  | cons p rest =>
    -- `p` is erased
    have hp : p ∈ s.pendingEvents :=
      (mem_ranges (k := k)).mpr (.inr (.inr (hafter ▸ List.mem_cons_self ..)))
    have hbehind : k < p.1 := hsorted.lt_of_mem_after (hafter ▸ List.mem_cons_self ..)
    rw [eraseEvent_of_after hsorted hmem hafter]
    constructor
    · rintro (⟨key, hkey, heq⟩ | ⟨-, heq⟩)
      · have hsame : p = (key, event) := by
          by_contra hne
          exact erase_ne_erase hp hne heq
        exact .inr (.inl ⟨key, by rw [List.head?_cons, hsame]⟩)
      · have := congrArg List.length heq
        rw [List.length_erase_of_mem hp] at this
        have := List.length_pos_of_mem hp
        omega
    · rintro (h | ⟨key, hkey⟩ | ⟨-, hle⟩)
      · exact absurd h hmem
      · obtain rfl := Option.some.inj hkey
        exact .inl ⟨key, hp, rfl⟩
      · have := hle p hp
        omega

/-- Two pending events with one time, and the second is deleted. -/
def twoPending : State Nat :=
  {events := fun _ => {arriveTime := 5}, pendingEvents := [(5, 0), (5, 1)], now := 0}

theorem delTimerEvent_iff_twoPending : Removes 1 twoPending (delTimerEvent twoPending 1) ↔ Safe twoPending 1 :=
  delTimerEvent_iff (by simp [twoPending, Sorted]) 1

/-- An event that has fired, and a later one that has not. -/
def firedEarlier : State Nat :=
  {events := fun e => {arriveTime := if e = 0 then 5 else 9}, pendingEvents := [(9, 1)], now := 6}

/-- The later one is erased for the one that has fired. -/
theorem not_removes_fired : ¬ ∀ (s : State Nat) (event : Nat), Sorted s.pendingEvents →
    Removes event s (delTimerEvent s event) := fun h => by
  have hempty : (delTimerEvent firedEarlier 0).pendingEvents = [] := by decide
  rcases h firedEarlier 0 (List.pairwise_singleton ..) with ⟨key, hkey, -⟩ | ⟨-, hsame⟩
  · simp [firedEarlier] at hkey
  · rw [hempty] at hsame
    cases hsame

end

/-! ### What is due fires -/

/-- The reading `onTimer` compares the keys with. -/
def firingTime (clock : Nat → Int) (s : State κ) : Int := clock (s.ticks + 1)

/-- Due by then, and not cancelled. -/
def Fires (clock : Nat → Int) (s : State κ) (p : Int × κ) : Prop :=
  p.1 ≤ firingTime clock s ∧ (s.events p.2).isCancled = false

instance (clock : Nat → Int) (s : State κ) : DecidablePred (Fires clock s) :=
  fun _ => inferInstanceAs (Decidable (_ ∧ _))

/-- The events that fire, in the order of the map. -/
def fired (clock : Nat → Int) (s : State κ) : List κ :=
  (s.pendingEvents.filter (Fires clock s)).map Prod.snd

/-- The new entries of the repeated events, each read from the clock in turn. -/
def again (clock : Nat → Int) (events : κ → TimerEvent) : Nat → List κ → List (Int × κ)
  | _, [] => []
  | tick, event :: rest =>
    if (events event).isRepeated then
      (clock tick + (events event).interval, event) :: again clock events (tick + 1) rest
    else again clock events tick rest

/-- No entry that fires stands behind a cancelled one. -/
def Unobstructed (clock : Nat → Int) (s : State κ) : Prop :=
  s.pendingEvents.Pairwise fun p q => (s.events p.2).isCancled = true → ¬ Fires clock s q

/-- What the loop of `onTimer` takes is what fires, unless a cancelled entry stops it. -/
theorem takeWhile_fires_iff {clock : Nat → Int} {s : State κ} (hsorted : Sorted s.pendingEvents) :
    s.pendingEvents.takeWhile (Fires clock s) = s.pendingEvents.filter (Fires clock s) ↔
      Unobstructed clock s := by
  simp only [takeWhile_eq_filter_iff, decide_eq_false_iff_not]
  constructor
  · exact fun h => h.imp fun hpq hcancled => hpq fun hp => by simp [hp.2] at hcancled
  · intro h
    refine (hsorted.and h).imp fun {p q} hpq hp hq => ?_
    by_cases hcancled : (s.events p.2).isCancled = true
    · exact hpq.2 hcancled hq
    · exact hp ⟨Int.le_trans hpq.1 hq.1, by simpa using hcancled⟩

theorem again_congr {clock : Nat → Int} {events events' : κ → TimerEvent}
    (h : ∀ e, (events' e).isRepeated = (events e).isRepeated ∧ (events' e).interval = (events e).interval)
    (tick : Nat) (es : List κ) : again clock events' tick es = again clock events tick es := by
  induction es generalizing tick with
  | nil => rfl
  | cons e rest ih => rw [again, again, (h e).1, (h e).2, ih, ih]

theorem mem_again {clock : Nat → Int} {events : κ → TimerEvent} {tick : Nat} {es : List κ}
    {p : Int × κ} (hp : p ∈ again clock events tick es) : p.2 ∈ es := by
  induction es generalizing tick with
  | nil => cases hp
  | cons e rest ih =>
    rw [again] at hp
    split at hp
    · rcases List.mem_cons.mp hp with rfl | hp
      · exact List.mem_cons_self ..
      · exact List.mem_cons_of_mem e (ih hp)
    · exact List.mem_cons_of_mem e (ih hp)

theorem not_mem_again {clock : Nat → Int} {events : κ → TimerEvent} {e : κ}
    (he : (events e).isRepeated = false) (tick : Nat) (es : List κ) (key : Int) :
    (key, e) ∉ again clock events tick es := by
  induction es generalizing tick with
  | nil => exact List.not_mem_nil
  | cons d rest ih =>
    rw [again]
    split
    · rename_i hrep
      intro hmem
      rcases List.mem_cons.mp hmem with heq | hmem
      · rw [← (Prod.mk.inj heq).2, he] at hrep
        cases hrep
      · exact ih _ hmem
    · exact ih _

/-- Nothing that fires is left behind what was taken. -/
theorem pending_of_taken {clock : Nat → Int} {s : State κ}
    (h : s.pendingEvents.takeWhile (Fires clock s) = s.pendingEvents.filter (Fires clock s)) :
    (s.pendingEvents.dropWhile (Fires clock s)).filter (fun p => ¬ (s.events p.2).isCancled) =
      s.pendingEvents.filter fun p => ¬ (s.events p.2).isCancled ∧ ¬ Fires clock s p := by
  have hcut := List.takeWhile_append_dropWhile (p := fun p => decide (Fires clock s p)) (l := s.pendingEvents)
  have htaken : ∀ p ∈ s.pendingEvents.takeWhile (Fires clock s), Fires clock s p := fun p hp => by
    simpa using List.mem_takeWhile_imp hp
  have hleft : ∀ p ∈ s.pendingEvents.dropWhile (Fires clock s), ¬ Fires clock s p := by
    intro p hp hfires
    have hfilter := congrArg (List.filter fun p => decide (Fires clock s p)) hcut
    rw [List.filter_append, List.filter_eq_self.mpr fun q hq => decide_eq_true (htaken q hq), h] at hfilter
    have hnone := List.filter_eq_nil_iff.mp (List.append_right_eq_self.mp hfilter)
    exact hnone p hp (decide_eq_true hfires)
  have hnone : (s.pendingEvents.takeWhile (Fires clock s)).filter
      (fun p => ¬ (s.events p.2).isCancled ∧ ¬ Fires clock s p) = [] :=
    List.filter_eq_nil_iff.mpr fun p hp => by simp [htaken p hp]
  conv_rhs => rw [← hcut]
  rw [List.filter_append, hnone, List.nil_append]
  refine List.filter_congr fun p hp => decide_eq_decide.mpr ?_
  exact ⟨fun hlive => ⟨hlive, hleft p hp⟩, fun hlive => hlive.1⟩

section
variable [DecidableEq κ]

/-- The tasks started in a run. -/
def started (clock : Nat → Int) (s : State κ) : List (Input κ) → List κ
  | [] => []
  | i :: rest =>
    match step clock s i with
    | none => []
    | some t => (starts s i).toList ++ started clock t rest

/-- What `onTimer` is for. Until the next one, the tasks started and those still to start are
the ones that fire, once each and in order; of the entries that are not cancelled there are
then the ones that do not fire and a new one for each repeated event that does. -/
structure FiresDue (clock : Nat → Int) (s t : State κ) : Prop where
  started : ∀ is u, .onTimer ∉ is → run (step clock) t is = some u →
    started clock t is ++ u.tasks = fired clock s
  pending : (t.pendingEvents.filter fun p => ¬ (s.events p.2).isCancled).Perm
    ((s.pendingEvents.filter fun p => ¬ (s.events p.2).isCancled ∧ ¬ Fires clock s p) ++
      again clock s.events (s.ticks + 2) (fired clock s))
  arriveTime : ∀ event ∈ fired clock s, (s.events event).isRepeated = true →
    ((t.events event).arriveTime, event) ∈ t.pendingEvents

/-- The tasks started and those still to start stay the same, as long as `onTimer` brings no
new ones. -/
theorem starts_append_tasks {clock : Nat → Int} {s t : State κ} {i : Input κ} (hi : i ≠ .onTimer)
    (hs : step clock s i = some t) : (starts s i).toList ++ t.tasks = s.tasks := by
  rcases step_cases clock hs with ⟨e, interval, r, rfl, -, -, rfl⟩ | ⟨e, rfl, -, -, rfl⟩ |
    ⟨e, rfl, -, -, rfl⟩ | ⟨rfl, -⟩ | ⟨rfl, -, rfl⟩ | ⟨e, rest, rfl, hcall, htasks, rfl⟩
  · rfl
  · rfl
  · rfl
  · exact absurd rfl hi
  · show (resetArriveTime clock s).tasks = s.tasks
    unfold resetArriveTime
    split
    · rfl
    · dsimp only
      split <;> rfl
  · rw [starts, hcall, htasks]
    rfl

theorem started_append_tasks {clock : Nat → Int} {s u : State κ} {is : List (Input κ)}
    (his : .onTimer ∉ is) (hr : run (step clock) s is = some u) :
    started clock s is ++ u.tasks = s.tasks := by
  induction is generalizing s with
  | nil =>
    obtain rfl := Option.some.inj hr
    rfl
  | cons i rest ih =>
    obtain ⟨t, hs, hr⟩ := run_cons_some.mp hr
    have hi : i ≠ .onTimer := fun heq => his (heq ▸ List.mem_cons_self ..)
    rw [started, hs, List.append_assoc, ih (fun h => his (List.mem_cons_of_mem i h)) hr]
    exact starts_append_tasks hi hs

/-- What repeating leaves of an event. -/
theorem repeatEvent_event {clock : Nat → Int} (s : State κ) (event e : κ) :
    ((repeatEvent clock s event).events e).isRepeated = (s.events e).isRepeated ∧
      ((repeatEvent clock s event).events e).interval = (s.events e).interval := by
  unfold repeatEvent
  split
  · show (Function.update s.events event _ e).isRepeated = _ ∧ (Function.update s.events event _ e).interval = _
    by_cases heq : e = event
    · rw [heq, Function.update_self]
      exact ⟨rfl, rfl⟩
    · rw [Function.update_of_ne heq]
      exact ⟨rfl, rfl⟩
  · exact ⟨rfl, rfl⟩

theorem foldl_repeatEvent_perm {clock : Nat → Int} (es : List κ) (s : State κ) :
    (es.foldl (repeatEvent clock) s).pendingEvents.Perm
      (s.pendingEvents ++ again clock s.events s.ticks es) := by
  induction es generalizing s with
  | nil => rw [again, List.append_nil, List.foldl_nil]
  | cons e rest ih =>
    have hrest := ih (repeatEvent clock s e)
    rw [again_congr (repeatEvent_event s e)] at hrest
    refine hrest.trans ?_
    rw [again]
    cases hrep : (s.events e).isRepeated with
    | false =>
      have hsame : repeatEvent clock s e = s := if_neg (by simp [hrep])
      rw [hsame, if_neg (by simp)]
    | true =>
      have hpending : (repeatEvent clock s e).pendingEvents =
          emplace (clock s.ticks + (s.events e).interval) e s.pendingEvents := by
        rw [repeatEvent, if_pos hrep]
        simp [addTimerEvent, resetTime, getNowMs]
      have hticks : (repeatEvent clock s e).ticks = s.ticks + 1 := by
        rw [repeatEvent, if_pos hrep]
        rfl
      rw [hpending, hticks, if_pos rfl]
      exact ((emplace_perm _ _ _).append_right _).trans List.perm_middle.symm

/-- A repeated event is in the map with the time it has then. -/
theorem foldl_repeatEvent_arriveTime {clock : Nat → Int} (es : List κ) (s : State κ) {e : κ}
    (he : e ∈ es) (hrep : (s.events e).isRepeated = true) :
    (((es.foldl (repeatEvent clock) s).events e).arriveTime, e) ∈
      (es.foldl (repeatEvent clock) s).pendingEvents := by
  induction es generalizing s with
  | nil => cases he
  | cons d rest ih =>
    rw [List.foldl_cons]
    by_cases hrest : e ∈ rest
    · exact ih _ hrest ((repeatEvent_event s d e).1.trans hrep)
    · obtain rfl := (List.mem_cons.mp he).resolve_right hrest
      rw [foldl_repeatEvent_other hrest]
      refine mem_foldl_repeatEvent rest ?_
      rw [repeatEvent, if_pos hrep]
      exact mem_emplace.mpr (.inl rfl)

/-- `onTimer` as the loop over what it took, on a state `now` that has read the clock twice. -/
theorem onTimer_eq (clock : Nat → Int) (s : State κ) : ∃ now : State κ, now.events = s.events ∧
    now.ticks = s.ticks + 2 ∧ now.pendingEvents = s.pendingEvents.dropWhile (Fires clock s) ∧
    onTimer clock s = {((s.pendingEvents.takeWhile (Fires clock s)).map Prod.snd).foldl
      (repeatEvent clock) now with
      tasks := (s.pendingEvents.takeWhile (Fires clock s)).map Prod.snd, resetting := true} := by
  obtain ⟨drained, hdrained⟩ : ∃ drained, drained = drainTimerfd clock s := ⟨_, rfl⟩
  have hsame : drained.events = s.events ∧ drained.ticks = s.ticks + 1 ∧
      drained.pendingEvents = s.pendingEvents := by
    rw [hdrained]
    unfold drainTimerfd
    dsimp only
    split
    · exact ⟨rfl, rfl, rfl⟩
    · split <;> exact ⟨rfl, rfl, rfl⟩
  obtain ⟨hevents, hticks, hpending⟩ := hsame
  have hdue : (fun p => due (getNowMs clock drained) p) = fun p => decide (Fires clock s p) := by
    funext p
    refine decide_eq_decide.mpr ?_
    show p.1 ≤ clock drained.ticks ∧ ¬ (drained.events p.2).isCancled = true ↔ _
    rw [hevents, hticks, Bool.not_eq_true]
    rfl
  have hread : (getNowMs clock drained).pendingEvents = s.pendingEvents := hpending
  refine ⟨{getNowMs clock drained with
    pendingEvents := s.pendingEvents.dropWhile (Fires clock s)}, hevents, ?_, rfl, ?_⟩
  · show drained.ticks + 1 = _
    rw [hticks]
  · rw [onTimer, ← hdrained]
    simp only [hread, hdue]

theorem onTimer_tasks (clock : Nat → Int) (s : State κ) :
    (onTimer clock s).tasks = (s.pendingEvents.takeWhile (Fires clock s)).map Prod.snd := by
  obtain ⟨_, -, -, -, heq⟩ := onTimer_eq clock s
  rw [heq]

theorem unobstructed_of_firesDue {clock : Nat → Int} {s : State κ} (hsorted : Sorted s.pendingEvents)
    (h : FiresDue clock s (onTimer clock s)) : Unobstructed clock s := by
  refine (takeWhile_fires_iff hsorted).mp (List.Sublist.eq_of_length ?_ ?_)
  · have hself := List.filter_eq_self.mpr fun p hp =>
      List.mem_takeWhile_imp (p := fun p => decide (Fires clock s p)) (l := s.pendingEvents) hp
    rw [← hself]
    exact (List.takeWhile_sublist _).filter _
  · have htasks := h.started [] _ List.not_mem_nil rfl
    rw [started, List.nil_append, onTimer_tasks] at htasks
    have hlength := congrArg List.length htasks
    rwa [fired, List.length_map, List.length_map] at hlength

theorem firesDue_of_unobstructed {clock : Nat → Int} {s : State κ} (hsorted : Sorted s.pendingEvents)
    (h : Unobstructed clock s) : FiresDue clock s (onTimer clock s) := by
  have htaken := (takeWhile_fires_iff hsorted).mpr h
  obtain ⟨now, hevents, hticks, hpending, heq⟩ := onTimer_eq clock s
  have hfired : (s.pendingEvents.takeWhile (Fires clock s)).map Prod.snd = fired clock s := by
    rw [htaken]
    rfl
  have hlive : ∀ e ∈ fired clock s, (s.events e).isCancled = false := by
    intro e he
    obtain ⟨p, hp, rfl⟩ := List.mem_map.mp he
    have hfires : Fires clock s p := by simpa using List.of_mem_filter hp
    exact hfires.2
  refine ⟨fun is u his hr => ?_, ?_, fun e he hrep => ?_⟩
  · rw [started_append_tasks his hr, onTimer_tasks, hfired]
  · have hperm : (onTimer clock s).pendingEvents.Perm
        (s.pendingEvents.dropWhile (Fires clock s) ++ again clock s.events (s.ticks + 2) (fired clock s)) := by
      rw [heq, hfired]
      have := @foldl_repeatEvent_perm κ _ clock (fired clock s) now
      rwa [hpending, hevents, hticks] at this
    have hagain : ∀ p ∈ again clock s.events (s.ticks + 2) (fired clock s),
        decide (¬ (s.events p.2).isCancled = true) = true := fun p hp => by
      rw [hlive p.2 (mem_again hp)]
      rfl
    have := hperm.filter fun p => ¬ (s.events p.2).isCancled
    rwa [List.filter_append, pending_of_taken htaken, List.filter_eq_self.mpr hagain] at this
  · rw [heq, hfired]
    exact foldl_repeatEvent_arriveTime _ now he (by rw [hevents]; exact hrep)

/-- **When `onTimer` fires what is due and nothing else**: no entry that is due stands behind
a cancelled one. -/
theorem onTimer_iff (clock : Nat → Int) {s : State κ} (hsorted : Sorted s.pendingEvents) :
    FiresDue clock s (onTimer clock s) ↔ Unobstructed clock s :=
  ⟨unobstructed_of_firesDue hsorted, firesDue_of_unobstructed hsorted⟩

theorem onTimer_iff_twoPending :
    FiresDue (fun _ => 7) twoPending (onTimer (fun _ => 7) twoPending) ↔
      Unobstructed (fun _ => 7) twoPending :=
  onTimer_iff _ (by simp [twoPending, Sorted])

/-- A cancelled event and one behind it, both due. -/
def cancledFirst : State Nat :=
  {events := fun e => {arriveTime := 5, isCancled := e = 0}, pendingEvents := [(5, 0), (5, 1)], now := 0}

/-- The event behind the cancelled one does not fire. -/
theorem not_firesDue_cancled : ¬ ∀ (clock : Nat → Int) (s : State Nat), Sorted s.pendingEvents →
    FiresDue clock s (onTimer clock s) := fun h => by
  have hstarted := (h (fun _ => 7) cancledFirst (by simp [cancledFirst, Sorted])).started [] _
    List.not_mem_nil rfl
  revert hstarted
  decide

/-! ### An event that is added once -/

/-- The events of the map and of the tasks that are waiting. -/
def waiting (s : State κ) : List κ := s.pendingEvents.map Prod.snd ++ s.tasks

/-- A one-shot event that is pending at most once, at its time, or is about to fire. -/
structure Single (e : κ) (s : State κ) : Prop where
  sorted : Sorted s.pendingEvents
  oneShot : (s.events e).isRepeated = false
  key : ∀ key, (key, e) ∈ s.pendingEvents → key = (s.events e).arriveTime
  once : (waiting s).count e ≤ 1

/-- `e` has no more entries than before. -/
def Fewer (e : κ) (s t : State κ) : Prop :=
  (∀ key, (key, e) ∈ t.pendingEvents → (key, e) ∈ s.pendingEvents) ∧
    (waiting t).count e ≤ (waiting s).count e

theorem Single.of_fewer {e : κ} {s t : State κ} (h : Single e s) (hsorted : Sorted t.pendingEvents)
    (hevent : (t.events e).isRepeated = false ∧ (t.events e).arriveTime = (s.events e).arriveTime)
    (hfewer : Fewer e s t) : Single e t where
  sorted := hsorted
  oneShot := hevent.1
  key key hkey := (h.key key (hfewer.1 key hkey)).trans hevent.2.symm
  once := Nat.le_trans hfewer.2 h.once

theorem sorted_foldl_repeatEvent {clock : Nat → Int} (es : List κ) {s : State κ}
    (h : Sorted s.pendingEvents) : Sorted (es.foldl (repeatEvent clock) s).pendingEvents := by
  induction es generalizing s with
  | nil => exact h
  | cons e rest ih =>
    apply ih
    unfold repeatEvent
    split
    · exact h.emplace
    · exact h

/-- Repeating leaves a one-shot event as it is. -/
theorem foldl_repeatEvent_oneShot {clock : Nat → Int} (es : List κ) {s : State κ} {e : κ}
    (he : (s.events e).isRepeated = false) :
    (es.foldl (repeatEvent clock) s).events e = s.events e := by
  induction es generalizing s with
  | nil => rfl
  | cons d rest ih =>
    have hsame : (repeatEvent clock s d).events e = s.events e := by
      unfold repeatEvent
      split
      · rename_i hrep
        have hne : e ≠ d := fun heq => by
          rw [← heq, he] at hrep
          cases hrep
        show Function.update s.events d _ e = s.events e
        rw [Function.update_of_ne hne]
      · rfl
    rw [List.foldl_cons, ih (by rw [hsame]; exact he), hsame]

/-- `onTimer` makes entries into tasks. -/
theorem fewer_onTimer {clock : Nat → Int} {s : State κ} {e : κ} (he : (s.events e).isRepeated = false)
    (htasks : s.tasks = []) : Fewer e s (onTimer clock s) := by
  obtain ⟨now, hevents, hticks, hpending, heq⟩ := onTimer_eq clock s
  obtain ⟨taken, htaken⟩ : ∃ taken, taken = (s.pendingEvents.takeWhile (Fires clock s)).map Prod.snd :=
    ⟨_, rfl⟩
  rw [← htaken] at heq
  have hperm := @foldl_repeatEvent_perm κ _ clock taken now
  rw [hpending, hevents] at hperm
  have hnone : ∀ key, (key, e) ∉ again clock s.events now.ticks taken := not_mem_again he _ _
  have hnew : ((again clock s.events now.ticks taken).map Prod.snd).count e = 0 := by
    refine List.count_eq_zero_of_not_mem fun hmem => ?_
    obtain ⟨⟨key, d⟩, hp, rfl⟩ := List.mem_map.mp hmem
    exact hnone key hp
  have hcut := List.takeWhile_append_dropWhile (p := fun p => decide (Fires clock s p)) (l := s.pendingEvents)
  rw [heq]
  constructor
  · intro key hkey
    rcases List.mem_append.mp (hperm.subset hkey) with hkey | hkey
    · exact (List.dropWhile_sublist _).subset hkey
    · exact absurd hkey (hnone key)
  · have hcount := (hperm.map Prod.snd).count_eq e
    rw [List.map_append, List.count_append, hnew, Nat.add_zero] at hcount
    simp only [waiting, htasks, List.append_nil, List.count_append]
    have hall := congrArg (fun l => (l.map Prod.snd).count e) hcut
    simp only [List.map_append, List.count_append] at hall
    rw [hcount, htaken]
    omega

theorem fewer_eraseEvent (arriveTime : Int) (event : κ) (e : κ) {s t : State κ}
    (hpending : t.pendingEvents = eraseEvent arriveTime event s.pendingEvents) (htasks : t.tasks = s.tasks) :
    Fewer e s t := by
  have hsub := eraseEvent_sublist arriveTime event s.pendingEvents
  refine ⟨fun key hkey => hsub.subset (hpending ▸ hkey), ?_⟩
  rw [waiting, waiting, hpending, htasks]
  exact ((hsub.map _).append (List.Sublist.refl _)).count_le e

theorem Fewer.of_eq {e : κ} {s t : State κ} (hpending : t.pendingEvents = s.pendingEvents)
    (htasks : t.tasks = s.tasks) : Fewer e s t := by
  rw [Fewer, waiting, waiting, hpending, htasks]
  exact ⟨fun _ h => h, Nat.le_refl _⟩

theorem fewer_addTimerEvent {e event : κ} (hne : e ≠ event) (s : State κ) (needReset : Bool) :
    Fewer e s (addTimerEvent s event needReset) := by
  constructor
  · intro key hkey
    refine (mem_emplace.mp hkey).resolve_left fun heq => hne ?_
    exact (Prod.mk.inj heq).2
  · have hperm := ((emplace_perm (s.events event).arriveTime event s.pendingEvents).map Prod.snd).append_right
      s.tasks
    have hcount := hperm.count_eq e
    rw [List.map_cons, List.cons_append, List.count_cons_of_ne hne.symm] at hcount
    exact Nat.le_of_eq hcount

/-- The time of an event is set when it is made and when it is repeated, and by nothing else. -/
theorem single_delTimerEvent {e : κ} {s : State κ} (h : Single e s) (event : κ) :
    Single e (delTimerEvent s event) := by
  refine h.of_fewer (h.sorted.sublist (eraseEvent_sublist _ _ _)) ?_ (fewer_eraseEvent _ event e rfl rfl)
  show (Function.update s.events event _ e).isRepeated = false ∧
    (Function.update s.events event _ e).arriveTime = _
  by_cases heq : e = event
  · rw [heq, Function.update_self]
    exact ⟨heq ▸ h.oneShot, rfl⟩
  · rw [Function.update_of_ne heq]
    exact ⟨h.oneShot, rfl⟩

theorem single_onTimer {clock : Nat → Int} {e : κ} {s : State κ} (h : Single e s) (htasks : s.tasks = []) :
    Single e (onTimer clock s) := by
  obtain ⟨now, hevents, -, hpending, heq⟩ := onTimer_eq clock s
  have hshot : (now.events e).isRepeated = false := by
    rw [hevents]
    exact h.oneShot
  have hsame : (onTimer clock s).events e = s.events e := by
    rw [heq]
    exact (foldl_repeatEvent_oneShot _ hshot).trans (congrFun hevents e)
  refine h.of_fewer ?_ ⟨hsame ▸ h.oneShot, by rw [hsame]⟩ (fewer_onTimer h.oneShot htasks)
  rw [heq]
  apply sorted_foldl_repeatEvent
  rw [hpending]
  exact h.sorted.sublist (List.dropWhile_sublist _)

theorem single_reset {e : κ} {s : State κ} (h : Single e s) (clock : Nat → Int) :
    Single e {resetArriveTime clock s with resetting := false} ∧
      Fewer e s {resetArriveTime clock s with resetting := false} := by
  obtain ⟨hevents, -, hpending, htasks⟩ := resetArriveTime_same clock s
  have hfewer : Fewer e s {resetArriveTime clock s with resetting := false} := .of_eq hpending htasks
  refine ⟨h.of_fewer ?_ ⟨?_, ?_⟩ hfewer, hfewer⟩
  · show Sorted (resetArriveTime clock s).pendingEvents
    rw [hpending]
    exact h.sorted
  · show ((resetArriveTime clock s).events e).isRepeated = false
    rw [hevents]
    exact h.oneShot
  · show ((resetArriveTime clock s).events e).arriveTime = _
    rw [hevents]

/-- **One step of a timer** leaves an event single, and it is not more than it was, unless the
step makes or adds this event. -/
theorem single_step {clock : Nat → Int} {e : κ} {s t : State κ} {i : Input κ} (h : Single e s)
    (hcreate : ∀ interval r, i ≠ .create e interval r) (hadd : i ≠ .add e)
    (hs : step clock s i = some t) : Single e t ∧ Fewer e s t := by
  rcases step_cases clock hs with ⟨d, interval, r, rfl, -, -, rfl⟩ | ⟨d, rfl, -, -, rfl⟩ |
    ⟨d, rfl, -, -, rfl⟩ | ⟨rfl, -, htasks, rfl⟩ | ⟨rfl, -, rfl⟩ | ⟨d, rest, rfl, -, htasks, rfl⟩
  · have hne : e ≠ d := fun heq => hcreate interval r (heq ▸ rfl)
    have hfewer : Fewer e s (newEvent clock s d interval r) := .of_eq rfl rfl
    refine ⟨h.of_fewer h.sorted ?_ hfewer, hfewer⟩
    show (Function.update s.events d _ e).isRepeated = false ∧
      (Function.update s.events d _ e).arriveTime = _
    rw [Function.update_of_ne hne]
    exact ⟨h.oneShot, rfl⟩
  · have hfewer := fewer_addTimerEvent (fun heq => hadd (heq ▸ rfl) : e ≠ d) s true
    exact ⟨h.of_fewer h.sorted.emplace ⟨h.oneShot, rfl⟩ hfewer, hfewer⟩
  · exact ⟨single_delTimerEvent h d, fewer_eraseEvent _ d e rfl rfl⟩
  · exact ⟨single_onTimer h htasks, fewer_onTimer h.oneShot htasks⟩
  · exact single_reset h clock
  · have hfewer : Fewer e s {s with tasks := rest} := by
      refine ⟨fun _ hkey => hkey, ?_⟩
      rw [waiting, waiting, htasks]
      exact ((List.Sublist.refl _).append (List.sublist_cons_self d rest)).count_le e
    exact ⟨h.of_fewer h.sorted ⟨h.oneShot, rfl⟩ hfewer, hfewer⟩

/-- Deleting a single event takes it out of the map. -/
theorem not_pending_delTimerEvent {e : κ} {s : State κ} (h : Single e s) (key : Int) :
    (key, e) ∉ (delTimerEvent s e).pendingEvents := by
  intro hkey
  have hkept := (eraseEvent_sublist (s.events e).arriveTime e s.pendingEvents).subset hkey
  obtain rfl := h.key key hkept
  -- it is erased, and there was no other
  have herased : (delTimerEvent s e).pendingEvents =
      s.pendingEvents.erase ((s.events e).arriveTime, e) := eraseEvent_of_mem h.sorted hkept
  have hperm := (List.perm_cons_erase hkept).map Prod.snd
  have hcount := hperm.count_eq e
  rw [List.map_cons, List.count_cons_self, ← herased] at hcount
  have hleft : e ∈ (delTimerEvent s e).pendingEvents.map Prod.snd := List.mem_map_of_mem hkey
  have hpos := List.count_pos_iff.mpr hleft
  have honce := h.once
  rw [waiting, List.count_append] at honce
  omega

end

end CoroutineRpc.Net.Timer
