import CoroutineRpc.Net.TimerDue
import CoroutineRpc.Net.Tcp.CallTimer
import CoroutineRpc.Net.Tcp.Reuse

/-! The event of a call that has returned.

The returns of `sendAndRecv` take the call's event out of the timer, or come after it has
fired; but for one. A call whose peer closes goes to the end of `err_deal` with its time not
over, and nothing deletes the event there. A coroutine does not come that far, since it hangs
on the close path; the main coroutine does. -/
namespace CoroutineRpc.Net.Tcp.Client
open Rpc Library.Transition Library.Multimap Timer

/-- Of the calls' events, only that of the call under way is pending. -/
def Cleared (s : State) : Prop := ∀ key n, (key, Event.rpc n) ∈ s.timer.pendingEvents →
  s.pc.inCall = true ∧ n = s.calls

/-- No read in the main coroutine takes the close path. -/
def StaysOpen (s : State) : Input → Prop
  | .read result => s.session.isMain = true → ¬ Session.Closes s.session (.read result)
  | _ => True

instance (pc : Session.Pc) : Decidable (∃ n, pc = .read n) :=
  match pc with
  | .read n => isTrue ⟨n, rfl⟩
  | .input | .readWait _ | .readAgain _ | .closeWait | .execute | .output | .write _ | .writeWait _ | .writeAgain _
  | .returned _ => isFalse nofun

instance (pc : Session.Pc) : Decidable (∃ n, pc = .readAgain n) :=
  match pc with
  | .readAgain n => isTrue ⟨n, rfl⟩
  | .input | .read _ | .readWait _ | .closeWait | .execute | .output | .write _ | .writeWait _ | .writeAgain _
  | .returned _ => isFalse nofun

instance (s : Session) (i : Session.Input) : Decidable (Session.Closes s i) :=
  inferInstanceAs (Decidable (_ ∧ _ ∧ (_ ∨ _)))

instance (s : State) : ∀ i : Input, Decidable (StaysOpen s i)
  | .read _ => inferInstanceAs (Decidable (_ → ¬ Session.Closes _ _))
  | .call .. | .resetFd | .setTimeout _ | .encode .. | .destroy | .advance | .connect _ | .write _ | .socket .. | .resume
  | .timer _ | .elsewhere _ => isTrue trivial

/-! ### The timer's side -/

/-- The step makes no entry of a call's event. -/
def Shrinks (s t : Timer.State Event) : Prop := ∀ n, Single (.rpc n) s →
  Single (.rpc n) t ∧ Fewer (.rpc n) s t

theorem Shrinks.trans {s t u : Timer.State Event} (h : Shrinks s t) (h' : Shrinks t u) : Shrinks s u := by
  intro n hsingle
  obtain ⟨ht, hkeys, hcount⟩ := h n hsingle
  obtain ⟨hu, hkeys', hcount'⟩ := h' n ht
  exact ⟨hu, fun key hkey => hkeys key (hkeys' key hkey), Nat.le_trans hcount' hcount⟩

theorem Shrinks.refl (s : Timer.State Event) : Shrinks s s := fun _ h => ⟨h, .of_eq rfl rfl⟩

theorem shrinks_delTimer (s : State) (event : Event) : Shrinks s.timer (delTimer s event).timer :=
  fun _ h => ⟨single_delTimerEvent h event, fewer_eraseEvent _ event _ rfl rfl⟩

theorem shrinks_runTask {timer : Timer.State Event} {event : Event} {rest : List Event}
    (htasks : timer.tasks = event :: rest) : Shrinks timer {timer with tasks := rest} := by
  intro n h
  have hfewer : Fewer (.rpc n) timer {timer with tasks := rest} := by
    refine ⟨fun _ hkey => hkey, ?_⟩
    rw [waiting, waiting, htasks]
    exact ((List.Sublist.refl _).append (List.sublist_cons_self event rest)).count_le _
  exact ⟨h.of_fewer h.sorted ⟨h.oneShot, rfl⟩ hfewer, hfewer⟩

/-- The timer an event is started on, before the descriptor is set. -/
def started (settings : Settings) (s : State) (event : Event) (interval : Int) : Timer.State Event :=
  addTimerEvent (newEvent settings.clock s.timer event interval false) event true

theorem startTimer_single {settings : Settings} {s : State} {event e : Event} {interval : Int}
    (h : Single e (started settings s event interval)) :
    Single e (startTimer settings s event interval).timer ∧
      Fewer e (started settings s event interval) (startTimer settings s event interval).timer := by
  have heq : (startTimer settings s event interval).timer =
      if (started settings s event interval).resetting then
        {resetArriveTime settings.clock (started settings s event interval) with resetting := false}
      else started settings s event interval := rfl
  rw [heq]
  split
  · exact single_reset h settings.clock
  · exact ⟨h, .of_eq rfl rfl⟩

/-- What starting an event does to the others. -/
theorem startTimer_other {settings : Settings} {s : State} {event e : Event} (hne : e ≠ event)
    (interval : Int) (h : Single e s.timer) : Single e (startTimer settings s event interval).timer ∧
      Fewer e s.timer (startTimer settings s event interval).timer := by
  have hfewer : Fewer e s.timer (started settings s event interval) :=
    fewer_addTimerEvent hne (newEvent settings.clock s.timer event interval false) true
  have hevent : (started settings s event interval).events e = s.timer.events e := by
    show Function.update s.timer.events event _ e = _
    rw [Function.update_of_ne hne]
  have hsingle : Single e (started settings s event interval) :=
    h.of_fewer h.sorted.emplace ⟨by rw [hevent]; exact h.oneShot, by rw [hevent]⟩ hfewer
  obtain ⟨hstarted, hkeys, hcount⟩ := startTimer_single hsingle
  exact ⟨hstarted, fun key hkey => hfewer.1 key (hkeys key hkey), Nat.le_trans hcount hfewer.2⟩

/-- An event that was nowhere is single when it is started. -/
theorem startTimer_self {settings : Settings} {s : State} {event : Event} (interval : Int)
    (hsorted : Sorted s.timer.pendingEvents) (hnew : event ∉ waiting s.timer) :
    Single event (startTimer settings s event interval).timer := by
  have hevent : (started settings s event interval).events event =
      ⟨settings.clock s.timer.ticks + interval, interval, false, false⟩ := Function.update_self ..
  refine (startTimer_single ⟨hsorted.emplace, by rw [hevent], fun key hkey => ?_, ?_⟩).1
  · rcases mem_emplace.mp hkey with heq | hkey
    · exact (Prod.mk.inj heq).1
    · exact absurd (List.mem_append_left _ (List.mem_map_of_mem (f := Prod.snd) hkey)) hnew
  · have hperm := ((emplace_perm ((started settings s event interval).events event).arriveTime event
      s.timer.pendingEvents).map Prod.snd).append_right s.timer.tasks
    have hcount := hperm.count_eq event
    have hnone := List.count_eq_zero_of_not_mem hnew
    rw [waiting] at hnone
    rw [List.map_cons, List.cons_append, List.count_cons_self, hnone] at hcount
    exact Nat.le_of_eq hcount

theorem shrinks_startConnect (settings : Settings) (s : State) (n : Nat) (interval : Int) :
    Shrinks s.timer (startTimer settings s (.connect n) interval).timer :=
  fun m h => startTimer_other (show Event.rpc m ≠ .connect n by nofun) interval h

/-- What a step does to the calls' events: it starts that of a new call, or makes no entry. -/
theorem step_shrinks {settings : Settings} {s t : State} {i : Input} (hs : step settings s i = some t) :
    t.calls = s.calls ∧ Shrinks s.timer t.timer ∨
      ∃ msgNo isMain, s.pc = .idle ∧ t = call settings s msgNo isMain := by
  have hsame : ∀ u : State, u.calls = s.calls → u.timer = s.timer →
      u.calls = s.calls ∧ Shrinks s.timer u.timer := by
    intro u hcalls htimer
    rw [htimer]
    exact ⟨hcalls, .refl _⟩
  have hresume : ∀ u : State, (resume u).calls = u.calls ∧ (resume u).timer = u.timer := by
    intro u
    unfold resume
    split
    · split <;> exact ⟨rfl, rfl⟩
    · exact ⟨rfl, rfl⟩
  cases step_moves hs with
  | @timer i timer hi hdel htimer =>
    refine .inl ⟨rfl, fun n h => single_step h ?_ ?_ htimer⟩
    · intro interval r hcreate
      subst hcreate
      simp only [step, timerStep, htimer, Option.bind_eq_bind, Option.bind_some] at hs
      cases hs
    · intro hadd
      subst hadd
      simp only [step, timerStep, htimer, Option.bind_eq_bind, Option.bind_some] at hs
      cases hs
  | fireOther htasks => exact .inl ⟨rfl, shrinks_runTask htasks⟩
  | fireRpc htasks =>
    obtain ⟨hcalls, htimer⟩ := hresume (setOverTimeFlag _ true)
    rw [hcalls, htimer]
    exact .inl ⟨rfl, shrinks_runTask htasks⟩
  | fireConnect htasks =>
    obtain ⟨hcalls, htimer⟩ := hresume {s with timer := _, connectTimeout := true}
    rw [hcalls, htimer]
    exact .inl ⟨rfl, shrinks_runTask htasks⟩
  | call msgNo isMain hpc => exact .inr ⟨msgNo, isMain, hpc, rfl⟩
  | connectResumed => exact .inl ⟨rfl, shrinks_delTimer s _⟩
  | connectFailed =>
    unfold connectFailed
    split
    · exact .inl (hsame _ rfl rfl)
    split
    · exact .inl ⟨rfl, shrinks_delTimer s _⟩
    split
    · exact .inl ⟨rfl, shrinks_delTimer s _⟩
    · exact .inl (hsame _ rfl rfl)
  | connected =>
    unfold connected
    split
    · exact .inl ⟨rfl, shrinks_delTimer s _⟩
    · exact .inl (hsame _ rfl rfl)
  | checkOutput =>
    unfold checkOutput
    split <;> exact .inl (hsame _ rfl rfl)
  | find =>
    unfold find
    split
    · exact .inl ⟨rfl, shrinks_delTimer s _⟩
    · exact .inl (hsame _ rfl rfl)
  | checkInput =>
    unfold checkInput
    split
    · exact .inl (hsame _ rfl rfl)
    split <;> exact .inl (hsame _ rfl rfl)
  | errSocket =>
    unfold failed
    split <;> exact .inl (hsame _ rfl rfl)
  | connectWaits errno => exact .inl ⟨rfl, shrinks_startConnect settings _ _ _⟩
  | resume =>
    obtain ⟨hcalls, htimer⟩ := hresume s
    exact .inl (hsame _ hcalls htimer)
  | elsewhere => exact .inl (hsame _ rfl rfl)
  | callResetFd => exact .inl (hsame _ rfl rfl)
  | setTimeout => exact .inl (hsame _ rfl rfl)
  | encode => exact .inl (hsame _ rfl rfl)
  | destroy => exact .inl (hsame _ rfl rfl)
  | leaveLoop => exact .inl (hsame _ rfl rfl)
  | connectNext => exact .inl (hsame _ rfl rfl)
  | closeFd => exact .inl (hsame _ rfl rfl)
  | executed => exact .inl (hsame _ rfl rfl)
  | advance => exact .inl (hsame _ rfl rfl)
  | read => exact .inl (hsame _ rfl rfl)
  | write => exact .inl (hsame _ rfl rfl)
  | connectDone => exact .inl (hsame _ rfl rfl)
  | connectError => exact .inl (hsame _ rfl rfl)
  | resetSocket => exact .inl (hsame _ rfl rfl)

/-! ### The flags -/

/-- Where a call has its connection. -/
def Pc.joined : Pc → Bool
  | .connected | .output | .find | .execute => true
  | _ => false

/-- What a run keeps that meets `StaysOpen`: a call goes to `err_deal` when its time is over,
and only then. -/
structure Punctual (s : State) : Prop where
  late : s.pc.inCall = true → s.isTimeout = true →
    s.session.connection.isOverTime = true ∧ (lateAt s.pc s.session.pc = true ∨ Hung s)
  flag : s.session.connection.isOverTime = true → s.pc.inCall = true ∧ s.isTimeout = true
  deal : s.pc = .errDeal ∨ s.pc = .errSocket → s.isTimeout = true
  joined : s.pc.joined = true → s.session.connection.state = .connected
  reading : s.pc = .input → s.session.connection.state = .connected ∨ s.session.pc = .closeWait
  able : s.session.canResume = false → Hung s

/-- A step that leaves the call where it stands. -/
theorem Punctual.keep {s t : State} (h : Punctual s)
    (hconnection : t.session.connection.state = s.session.connection.state ∧
      t.session.connection.isOverTime = s.session.connection.isOverTime)
    (hsession : t.session.pc = s.session.pc ∧ t.session.canResume = s.session.canResume)
    (hpc : t.pc = s.pc) (htimeout : t.isTimeout = s.isTimeout) : Punctual t := by
  obtain ⟨hstate, hover⟩ := hconnection
  obtain ⟨hpcs, hcan⟩ := hsession
  have hhung : Hung t ↔ Hung s := by rw [Hung, Hung, hpc, hpcs]
  refine ⟨?_, ?_, ?_, ?_, ?_, ?_⟩
  · rw [hpc, htimeout, hover, hpcs, hhung]
    exact h.late
  · rw [hover, hpc, htimeout]
    exact h.flag
  · rw [hpc, htimeout]
    exact h.deal
  · rw [hpc, hstate]
    exact h.joined
  · rw [hpc, hstate, hpcs]
    exact h.reading
  · rw [hcan, hhung]
    exact h.able

theorem Punctual.awake {s : State} (h : Punctual s) (hs : s.pc ≠ .input) : s.session.canResume = true := by
  rw [← Bool.not_eq_false]
  exact fun hcan => hs (h.able hcan).1

/-- A call in whose place the time cannot be over is in time. -/
theorem Punctual.inTime {s : State} (h : Punctual s) (hcall : s.pc.inCall = true)
    (hat : lateAt s.pc s.session.pc = false) (hhung : ¬ Hung s) :
    s.isTimeout = false ∧ s.session.connection.isOverTime = false := by
  have htimeout : s.isTimeout = false := by
    rw [← Bool.not_eq_true]
    intro hyes
    rcases (h.late hcall hyes).2 with hlate | hhangs
    · rw [hat] at hlate
      cases hlate
    · exact hhung hhangs
  refine ⟨htimeout, ?_⟩
  rw [← Bool.not_eq_true]
  intro hover
  have := (h.flag hover).2
  rw [htimeout] at this
  cases this

/-- A step from one place of the call to another, outside `input`. -/
theorem Punctual.move {s t : State} (h : Punctual s) (hs : s.pc ≠ .input) (ht : t.pc ≠ .input)
    (hcall : t.pc.inCall = true ∧ s.pc.inCall = true)
    (hsame : t.isTimeout = s.isTimeout ∧ t.session.canResume = s.session.canResume ∧
      t.session.connection.isOverTime = s.session.connection.isOverTime)
    (hlate : s.isTimeout = true → lateAt s.pc s.session.pc = true → lateAt t.pc t.session.pc = true)
    (hdeal : t.pc = .errDeal ∨ t.pc = .errSocket → s.isTimeout = true)
    (hjoined : t.pc.joined = true → t.session.connection.state = .connected) : Punctual t := by
  obtain ⟨htimeout, hcan, hover⟩ := hsame
  refine ⟨fun _ hyes => ?_, fun hyes => ?_, ?_, hjoined, fun hinput => absurd hinput ht, fun hno => ?_⟩
  · rw [htimeout] at hyes
    obtain ⟨hset, hat⟩ := h.late hcall.2 hyes
    exact ⟨hover.trans hset, .inl (hlate hyes (hat.resolve_right fun hhung => hs hhung.1))⟩
  · rw [hover] at hyes
    exact ⟨hcall.1, htimeout.trans (h.flag hyes).2⟩
  · rw [htimeout]
    exact hdeal
  · rw [hcan, h.awake hs] at hno
    cases hno

/-- Outside a call the flag is down. -/
theorem punctual_outside {s : State} (hpc : s.pc.inCall = false)
    (hover : s.session.connection.isOverTime = false) (hcan : s.session.canResume = true) : Punctual s := by
  refine ⟨fun hcall => absurd (hpc.symm.trans hcall) nofun, fun hyes => absurd (hover.symm.trans hyes) nofun,
    fun hdeal => ?_, fun hjoined => ?_, fun hinput => ?_, fun hno => absurd (hcan.symm.trans hno) nofun⟩
  · rcases hdeal with hdeal | hdeal <;> rw [hdeal] at hpc <;> cases hpc
  · cases hp : s.pc with
    | connected => rw [hp] at hpc; cases hpc
    | output => rw [hp] at hpc; cases hpc
    | find => rw [hp] at hpc; cases hpc
    | execute => rw [hp] at hpc; cases hpc
    | _ => rw [hp] at hjoined; cases hjoined
  · rw [hinput] at hpc
    cases hpc

theorem Punctual.idle {s : State} (h : Punctual s) (hpc : s.pc.inCall = false) :
    s.session.connection.isOverTime = false := by
  rw [← Bool.not_eq_true]
  intro hover
  have := (h.flag hover).1
  rw [hpc] at this
  cases this

theorem not_hung {s : State} (hs : s.pc ≠ .input) : ¬ Hung s := fun hhung => hs hhung.1

theorem Punctual.sessionStep {s : State} {session : Session} {i : Session.Input} (h : Punctual s)
    (hplaced : Placed s) (hpc : s.pc.callee ≠ none)
    (hopens : s.session.isMain = true → ¬ Session.Closes s.session i)
    (hs : s.session.step noServer i = some session) : Punctual {s with session} := by
  by_cases hhung : Hung s
  · obtain rfl := Session.step_hung hhung.2 (hplaced.hung hhung.1 hhung.2) hs
    exact h
  have hcall : s.pc.inCall = true := by
    cases hp : s.pc with
    | output => rfl
    | input => rfl
    | execute => rfl
    | _ => rw [hp] at hpc; exact absurd rfl hpc
  have hplain : s.pc ≠ .errDeal ∧ s.pc ≠ .errSocket := by
    constructor <;> (intro hp; rw [hp] at hpc; exact absurd rfl hpc)
  have hframe := Session.step_frame hs
  have hflag : session.connection.isOverTime = true → s.pc.inCall = true ∧ s.isTimeout = true := by
    rw [hframe.isOverTime]
    exact h.flag
  have hdeal : s.pc = .errDeal ∨ s.pc = .errSocket → s.isTimeout = true :=
    fun hdeal => (hdeal.elim hplain.1 hplain.2).elim
  rcases Session.step_open hs with hopen | ⟨hcloses, rfl⟩
  · refine ⟨fun _ htimeout => ?_, hflag, hdeal, fun hjoined => hopen.state.trans (h.joined hjoined),
      fun hinput => .inl (hopen.state.trans ?_), fun hno => ?_⟩
    · obtain ⟨hover, hat⟩ := h.late hcall htimeout
      have hlate := lateAt_sessionStep hplaced hpc hover (hat.resolve_right hhung) hs
      exact ⟨hframe.isOverTime.trans hover, .inl hlate⟩
    · exact (h.reading hinput).resolve_right fun hwait => hhung ⟨hinput, hwait⟩
    · exact absurd (h.able (hopen.canResume.symm.trans hno)) hhung
  · -- the coroutine goes to sleep for good
    have hmain : s.session.isMain = false := by
      rw [← Bool.not_eq_true]
      exact fun hmain => hopens hmain hcloses
    obtain ⟨hresult, hover, hpcs⟩ := hcloses
    have hinput : s.pc = .input := by
      apply hplaced.input hpc
      rcases hpcs with ⟨n, hp⟩ | ⟨-, n, hp⟩ <;> rw [hp] <;> rfl
    have hwait : s.session.closePath.pc = .closeWait := by
      rw [Session.closePath_pc, hmain]
      rfl
    have hhangs : Hung {s with session := s.session.closePath} := ⟨hinput, hwait⟩
    refine ⟨fun _ htimeout => ?_, hflag, hdeal, fun hjoined => ?_, fun _ => .inr hwait, fun _ => hhangs⟩
    · exact absurd (hover.symm.trans (h.late hcall htimeout).1) nofun
    · rw [show ({s with session := s.session.closePath} : State).pc = .input from hinput] at hjoined
      cases hjoined

theorem Punctual.resume {s : State} (h : Punctual s) (hplaced : Placed s) (hasleep : isAsleep s = true) :
    Punctual (resume s) := by
  rcases resume_cases hasleep with ⟨-, heq⟩ | ⟨-, hpc, heq⟩ | ⟨-, hpc, session, hs, heq⟩
  · rw [heq]
    exact h
  · rw [heq]
    exact h.move (by rw [hpc]; nofun) nofun ⟨rfl, by rw [hpc]; rfl⟩ ⟨rfl, rfl, rfl⟩ (fun _ _ => rfl) nofun nofun
  · rw [heq]
    refine h.sessionStep hplaced ?_ (fun _ => not_closes_resume _) hs
    rcases hpc with hpc | hpc <;> rw [hpc] <;> nofun

/-- The task of the call's timer wakes the coroutine, unless that sleeps for good. -/
theorem Punctual.fire {s : State} (h : Punctual s) (hplaced : Placed s) (hasleep : isAsleep s = true)
    (timer : Timer.State Event) :
    Punctual (Client.resume (setOverTimeFlag {s with timer, isTimeout := true} true)) := by
  have hcall : s.pc.inCall = true := by
    rcases isAsleep_cases hasleep with hpc | ⟨hpc | hpc, -⟩ <;> rw [hpc] <;> rfl
  have hplain : s.pc ≠ .errDeal ∧ s.pc ≠ .errSocket ∧ s.pc.joined = (s.pc == .output) := by
    rcases isAsleep_cases hasleep with hpc | ⟨hpc | hpc, -⟩ <;> rw [hpc] <;> exact ⟨nofun, nofun, rfl⟩
  have hflagged : isAsleep (setOverTimeFlag {s with timer, isTimeout := true} true) = true := hasleep
  have hset : Placed (setOverTimeFlag {s with timer, isTimeout := true} true) := ⟨hplaced.callee, hplaced.hung⟩
  rcases resume_cases hflagged with ⟨hno, heq⟩ | ⟨hcan, hpc, heq⟩ | ⟨hcan, hpc, session, hs, heq⟩
  · rw [heq]
    have hhung := h.able hno
    exact ⟨fun _ _ => ⟨rfl, .inr hhung⟩, fun _ => ⟨hcall, rfl⟩, fun _ => rfl, h.joined, h.reading, fun _ => hhung⟩
  · rw [heq]
    exact ⟨fun _ _ => ⟨rfl, .inl rfl⟩, fun _ => ⟨rfl, rfl⟩, nofun, nofun, nofun,
      fun hno => absurd (hcan.symm.trans hno) nofun⟩
  · rw [heq]
    have hframe := Session.step_frame hs
    have hopen := (Session.step_open hs).resolve_right fun hcloses => not_closes_resume _ hcloses.1
    have hhung : ¬ Hung s := fun hhung => absurd ((hplaced.hung hhung.1 hhung.2).symm.trans hcan) nofun
    refine ⟨fun _ _ => ⟨hframe.isOverTime.trans rfl, .inl ?_⟩, fun _ => ⟨hcall, rfl⟩,
      fun hdeal => (hdeal.elim hplain.1 hplain.2.1).elim, fun hjoined => hopen.state.trans (h.joined hjoined),
      fun hinput => .inl (hopen.state.trans ?_), fun hno => ?_⟩
    · have hlate := lateAt_resume hset hpc hcan hs
      exact hlate
    · exact (h.reading hinput).resolve_right fun hwait => hhung ⟨hinput, hwait⟩
    · exact absurd ((hopen.canResume.trans hcan).symm.trans hno) nofun

theorem punctual_connectFailed {settings : Settings} {s : State} (h : Punctual s) (hpc : s.pc = .connectFailed) :
    Punctual (connectFailed settings s) := by
  have hplace : s.pc ≠ .input ∧ s.pc.inCall = true := by rw [hpc]; exact ⟨nofun, rfl⟩
  have hcan := h.awake hplace.1
  unfold connectFailed
  split
  · exact h.move hplace.1 nofun ⟨rfl, hplace.2⟩ ⟨rfl, rfl, rfl⟩ (fun _ _ => rfl) (fun _ => ‹_›) nofun
  rename_i htimeout
  have hover : s.session.connection.isOverTime = false := by
    rw [← Bool.not_eq_true]
    exact fun hset => htimeout (h.flag hset).2
  split
  · exact punctual_outside rfl hover hcan
  split
  · exact punctual_outside rfl hover hcan
  · exact h.move hplace.1 nofun ⟨rfl, hplace.2⟩ ⟨rfl, rfl, rfl⟩ (fun hyes => absurd hyes htimeout) nofun nofun

theorem punctual_find {s : State} (h : Punctual s) (hpc : s.pc = .find) : Punctual (find s) := by
  have hplace : s.pc ≠ .input ∧ s.pc.inCall = true ∧ lateAt s.pc s.session.pc = false := by
    rw [hpc]
    exact ⟨nofun, rfl, rfl⟩
  obtain ⟨htimeout, hover⟩ := h.inTime hplace.2.1 hplace.2.2 (not_hung hplace.1)
  have hcan := h.awake hplace.1
  unfold find
  split
  · rename_i res connection hres
    obtain ⟨pbStruct, -, heq⟩ := Option.map_eq_some_iff.mp hres
    obtain ⟨rfl, rfl⟩ := Prod.mk.inj heq
    exact punctual_outside rfl hover hcan
  · refine ⟨fun _ hyes => absurd (htimeout.symm.trans hyes) nofun,
      fun hyes => absurd (hover.symm.trans hyes) nofun, nofun, nofun,
      fun _ => .inl (h.joined (by rw [hpc]; rfl)), fun hno => absurd (hcan.symm.trans hno) nofun⟩

theorem punctual_checkInput {s : State} {callee : Callee} (h : Punctual s) (hpc : s.pc = .input)
    (hreturned : s.session.pc = .returned callee) : Punctual (checkInput s) := by
  have hhung : ¬ Hung s := by
    rintro ⟨-, hwait⟩
    rw [hreturned] at hwait
    cases hwait
  have hcan : s.session.canResume = true := by
    rw [← Bool.not_eq_false]
    exact fun hno => hhung (h.able hno)
  have hstate := (h.reading hpc).resolve_right fun hwait => hhung ⟨hpc, hwait⟩
  unfold checkInput
  split
  · rename_i hover
    exact ⟨fun _ _ => ⟨hover, .inl rfl⟩, fun _ => ⟨rfl, rfl⟩, fun _ => rfl, nofun, nofun,
      fun hno => absurd (hcan.symm.trans hno) nofun⟩
  rename_i hover
  split
  · rename_i hclosed
    rw [hstate] at hclosed
    cases hclosed
  · have htimeout : s.isTimeout ≠ true := fun hyes => hover (h.late (by rw [hpc]; rfl) hyes).1
    exact ⟨fun _ hyes => absurd hyes htimeout, fun hyes => absurd hyes hover, nofun, fun _ => hstate, nofun,
      fun hno => absurd (hcan.symm.trans hno) nofun⟩

theorem punctual_checkOutput {s : State} (h : Punctual s) (hpc : s.pc = .output) :
    Punctual (checkOutput s) := by
  have hplace : s.pc ≠ .input ∧ s.pc.inCall = true ∧ s.pc.joined = true := by
    rw [hpc]
    exact ⟨nofun, rfl, rfl⟩
  have hcan := h.awake hplace.1
  unfold checkOutput
  split
  · rename_i hover
    exact ⟨fun _ _ => ⟨hover, .inl rfl⟩, fun _ => ⟨rfl, rfl⟩, fun _ => rfl, nofun, nofun,
      fun hno => absurd (hcan.symm.trans hno) nofun⟩
  · rename_i hover
    exact h.move hplace.1 nofun ⟨rfl, hplace.2.1⟩ ⟨rfl, rfl, rfl⟩
      (fun hyes => absurd (h.late hplace.2.1 hyes).1 hover) nofun fun _ => h.joined hplace.2.2

theorem punctual_step {settings : Settings} {s t : State} {i : Input} (h : Punctual s) (hplaced : Placed s)
    (hopens : StaysOpen s i) (hs : step settings s i = some t) : Punctual t := by
  cases step_moves hs with
  | timer => exact h.keep ⟨rfl, rfl⟩ ⟨rfl, rfl⟩ rfl rfl
  | fireOther => exact h.keep ⟨rfl, rfl⟩ ⟨rfl, rfl⟩ rfl rfl
  | fireRpc htasks hasleep => exact h.fire hplaced hasleep _
  | @fireConnect rest htasks hpc =>
    have hflag : Punctual {s with timer := {s.timer with tasks := rest}, connectTimeout := true} :=
      h.keep ⟨rfl, rfl⟩ ⟨rfl, rfl⟩ rfl rfl
    exact hflag.resume ⟨hplaced.callee, hplaced.hung⟩ (asleep_of_connectWait hpc)
  | elsewhere => exact h.keep ⟨rfl, rfl⟩ ⟨rfl, rfl⟩ rfl rfl
  | call msgNo isMain hpc =>
    have hover := h.idle (by rw [hpc]; rfl)
    exact ⟨fun _ => nofun, fun hyes => absurd (hover.symm.trans hyes) nofun, nofun, nofun, nofun, nofun⟩
  | callResetFd hpc =>
    exact punctual_outside rfl (h.idle (by rw [hpc]; rfl)) (h.awake (by rw [hpc]; nofun))
  | setTimeout => exact h.keep ⟨rfl, rfl⟩ ⟨rfl, rfl⟩ rfl rfl
  | encode => exact h.keep ⟨rfl, rfl⟩ ⟨rfl, rfl⟩ rfl rfl
  | destroy hpc =>
    refine punctual_outside rfl ?_ ?_
    · dsimp only
      split <;> exact h.idle (by rw [hpc]; rfl)
    · dsimp only
      split <;> exact h.awake (by rw [hpc]; nofun)
  | leaveLoop hpc hleave =>
    have hplace : s.pc ≠ .input ∧ s.pc.inCall = true ∧ lateAt s.pc s.session.pc = false := by
      rw [hpc]
      exact ⟨nofun, rfl, rfl⟩
    obtain ⟨htimeout, -⟩ := h.inTime hplace.2.1 hplace.2.2 (not_hung hplace.1)
    refine h.move hplace.1 nofun ⟨rfl, hplace.2.1⟩ ⟨rfl, rfl, rfl⟩ (fun _ _ => rfl) nofun fun _ => ?_
    exact hleave.resolve_left fun hyes => absurd (htimeout.symm.trans hyes) nofun
  | connectNext hpc htimeout =>
    refine h.move (by rw [hpc]; nofun) nofun ⟨rfl, by rw [hpc]; rfl⟩ ⟨rfl, rfl, rfl⟩ (fun hyes => ?_) nofun nofun
    exact absurd (htimeout.symm.trans hyes) nofun
  | connectResumed hpc =>
    exact h.move (by rw [hpc]; nofun) nofun ⟨rfl, by rw [hpc]; rfl⟩ ⟨rfl, rfl, rfl⟩ (fun _ _ => rfl) nofun nofun
  | closeFd hfd hpc =>
    rcases hpc with ⟨inCall, hpc, rfl⟩ | ⟨hpc, rfl⟩
    · cases inCall with
      | true =>
        exact h.move (by rw [hpc]; nofun) nofun ⟨rfl, by rw [hpc]; rfl⟩ ⟨rfl, rfl, rfl⟩ (fun _ _ => rfl) nofun
          nofun
      | false => exact punctual_outside rfl (h.idle (by rw [hpc]; rfl)) (h.awake (by rw [hpc]; nofun))
    · exact h.move (by rw [hpc]; nofun) nofun ⟨rfl, by rw [hpc]; rfl⟩ ⟨rfl, rfl, rfl⟩ (fun _ _ => rfl)
        (fun _ => h.deal (.inl hpc)) nofun
  | connectFailed hpc => exact punctual_connectFailed h hpc
  | connected hpc =>
    have hjoined := h.joined (by rw [hpc]; rfl)
    unfold connected
    rw [if_neg (not_not_intro hjoined)]
    exact h.move (by rw [hpc]; nofun) nofun ⟨rfl, by rw [hpc]; rfl⟩ ⟨rfl, rfl, rfl⟩ (fun _ _ => rfl) nofun
      fun _ => rfl
  | checkOutput hpc => exact punctual_checkOutput h hpc
  | find hpc => exact punctual_find h hpc
  | checkInput hpc hreturned => exact punctual_checkInput h hpc hreturned
  | executed hpc =>
    refine h.move (by rw [hpc]; nofun) nofun ⟨rfl, by rw [hpc]; rfl⟩ ⟨rfl, rfl, rfl⟩ (fun _ hat => ?_) nofun
      fun _ => h.joined (by rw [hpc]; rfl)
    rw [hpc] at hat
    cases hat
  | advance hpc hsession =>
    exact h.sessionStep hplaced (by rw [hpc]; nofun) (fun _ => not_closes_advance _) hsession
  | read hpc hsession => exact h.sessionStep hplaced (by rw [hpc]; nofun) hopens hsession
  | write hpc hsession =>
    exact h.sessionStep hplaced (by rw [hpc]; nofun) (fun _ => not_closes_write _ _) hsession
  | connectDone hpc =>
    have hplace : s.pc ≠ .input ∧ s.pc.inCall = true := by
      rcases hpc with hpc | hpc <;> rw [hpc] <;> exact ⟨nofun, rfl⟩
    exact h.move hplace.1 nofun ⟨rfl, hplace.2⟩ ⟨rfl, rfl, rfl⟩ (fun _ _ => rfl) nofun fun _ => rfl
  | connectError errno hpc =>
    have hplace : s.pc ≠ .input ∧ s.pc.inCall = true := by
      rcases hpc with hpc | hpc <;> rw [hpc] <;> exact ⟨nofun, rfl⟩
    exact h.move hplace.1 nofun ⟨rfl, hplace.2⟩ ⟨rfl, rfl, rfl⟩ (fun _ _ => rfl) nofun nofun
  | connectWaits errno hpc hmain =>
    refine h.move (by rw [hpc]; nofun) nofun ⟨rfl, by rw [hpc]; rfl⟩ ⟨rfl, rfl, rfl⟩ (fun _ hat => ?_) nofun nofun
    rw [hpc] at hat
    cases hat
  | @resetSocket fd errno inCall descriptors hpc =>
    cases inCall with
    | true =>
      exact h.move (by rw [hpc]; nofun) nofun ⟨rfl, by rw [hpc]; rfl⟩ ⟨rfl, rfl, rfl⟩ (fun _ _ => rfl) nofun nofun
    | false => exact punctual_outside rfl (h.idle (by rw [hpc]; rfl)) (h.awake (by rw [hpc]; nofun))
  | errSocket hpc =>
    unfold failed
    rw [if_pos (by exact h.deal (.inr hpc))]
    exact punctual_outside rfl rfl (h.awake (by rw [hpc]; nofun))
  | resume hasleep => exact h.resume hplaced hasleep

theorem punctual_initial (settings : Settings) (fd : Int) : Punctual (initial settings fd) :=
  punctual_outside rfl rfl rfl

/-! ### Both sides -/

/-- What a run keeps that meets `StaysOpen`. -/
structure Tidy (s : State) : Prop where
  placed : Placed s
  punctual : Punctual s
  single : ∀ n, Single (.rpc n) s.timer
  made : ∀ n, Event.rpc n ∈ waiting s.timer → n ≤ s.calls
  cleared : Cleared s
  fired : s.isTimeout = true → ∀ key, (key, Event.rpc s.calls) ∉ s.timer.pendingEvents

theorem resume_same (s : State) : ((resume s).pc = s.pc ∨ (resume s).pc = .connectResumed) ∧
    (resume s).isTimeout = s.isTimeout ∧ (resume s).timer = s.timer := by
  unfold resume
  split
  · split
    · exact ⟨.inr rfl, rfl, rfl⟩
    · exact ⟨.inl rfl, rfl, rfl⟩
  · exact ⟨.inl rfl, rfl, rfl⟩

theorem resume_inCall {s : State} (h : (resume s).pc.inCall = false) : s.pc.inCall = false := by
  rcases (resume_same s).1 with hpc | hpc
  · rwa [hpc] at h
  · rw [hpc] at h
    cases h

/-- The step by which a call returns leaves its event deleted or fired. -/
theorem Tidy.returns {settings : Settings} {s t : State} {i : Input} (h : Tidy s)
    (hs : step settings s i = some t) (hcall : s.pc.inCall = true) (hreturns : t.pc.inCall = false)
    (key : Int) : (key, Event.rpc s.calls) ∉ t.timer.pendingEvents := by
  have hdeleted := not_pending_delTimerEvent (h.single s.calls) key
  have hinside (hsame : t.pc = s.pc) : (key, Event.rpc s.calls) ∉ t.timer.pendingEvents := by
    rw [hsame, hcall] at hreturns
    cases hreturns
  cases step_moves hs with
  | timer => exact hinside rfl
  | fireOther => exact hinside rfl
  | @fireRpc rest =>
    have hno : s.pc.inCall = false :=
      @resume_inCall (setOverTimeFlag {s with timer := {s.timer with tasks := rest}, isTimeout := true} true) hreturns
    exact absurd (hno.symm.trans hcall) nofun
  | @fireConnect rest =>
    have hno : s.pc.inCall = false :=
      @resume_inCall {s with timer := {s.timer with tasks := rest}, connectTimeout := true} hreturns
    exact absurd (hno.symm.trans hcall) nofun
  | elsewhere => exact hinside rfl
  | call msgNo isMain hpc => rw [hpc] at hcall; cases hcall
  | callResetFd hpc => rw [hpc] at hcall; cases hcall
  | setTimeout v hpc => rw [hpc] at hcall; cases hcall
  | encode writeBuffer hpc => rw [hpc] at hcall; cases hcall
  | destroy hpc => rw [hpc] at hcall; cases hcall
  | leaveLoop => cases hreturns
  | connectNext => cases hreturns
  | connectResumed => cases hreturns
  | closeFd hfd hpc =>
    rcases hpc with ⟨inCall, hpc, rfl⟩ | ⟨hpc, rfl⟩
    · cases inCall with
      | true => cases hreturns
      | false => rw [hpc] at hcall; cases hcall
    · cases hreturns
  | connectFailed =>
    unfold connectFailed at hreturns ⊢
    split at hreturns
    · cases hreturns
    rename_i htimeout
    rw [if_neg htimeout]
    split at hreturns
    · rw [if_pos ‹_›]
      exact hdeleted
    rename_i hrefused
    rw [if_neg hrefused]
    split at hreturns
    · rw [if_pos ‹_›]
      exact hdeleted
    · cases hreturns
  | connected =>
    unfold connected at hreturns ⊢
    split at hreturns
    · rw [if_pos ‹_›]
      exact hdeleted
    · cases hreturns
  | checkOutput =>
    unfold checkOutput at hreturns
    split at hreturns <;> cases hreturns
  | find =>
    cases hres : s.session.connection.getResPackageData s.msgNo with
    | none =>
      simp only [find, hres] at hreturns
      cases hreturns
    | some r =>
      simp only [find, hres]
      exact hdeleted
  | checkInput =>
    unfold checkInput at hreturns
    split at hreturns
    · cases hreturns
    split at hreturns <;> cases hreturns
  | executed => cases hreturns
  | advance => exact hinside rfl
  | read => exact hinside rfl
  | write => exact hinside rfl
  | connectDone => cases hreturns
  | connectError => cases hreturns
  | connectWaits => cases hreturns
  | @resetSocket fd errno inCall descriptors hpc =>
    cases inCall with
    | true => cases hreturns
    | false => rw [hpc] at hcall; cases hcall
  | errSocket hpc =>
    -- the time of the call is over
    have htimeout := h.punctual.deal (.inr hpc)
    have hnone := h.fired htimeout key
    unfold failed
    split
    · exact hnone
    · exact hnone
  | resume =>
    have hno := resume_inCall hreturns
    exact absurd (hno.symm.trans hcall) nofun

/-- The flag of a call is set by its task, which is then no entry any more. -/
theorem Tidy.timesOut {settings : Settings} {s t : State} {i : Input} (h : Tidy s)
    (hs : step settings s i = some t) (htimeout : t.isTimeout = true) (hno : s.isTimeout = false)
    (key : Int) : (key, Event.rpc s.calls) ∉ t.timer.pendingEvents := by
  have hsame (hsame : t.isTimeout = s.isTimeout) : (key, Event.rpc s.calls) ∉ t.timer.pendingEvents := by
    rw [hsame, hno] at htimeout
    cases htimeout
  have hover : s.session.connection.isOverTime ≠ true := by
    intro hset
    rw [(h.punctual.flag hset).2] at hno
    cases hno
  cases step_moves hs with
  | @fireRpc rest htasks =>
    rw [(resume_same _).2.2]
    intro hkey
    have honce := (h.single s.calls).once
    have htask : Event.rpc s.calls ∈ s.timer.tasks := by rw [htasks]; exact List.mem_cons_self ..
    have hentry : Event.rpc s.calls ∈ s.timer.pendingEvents.map Prod.snd := List.mem_map_of_mem hkey
    have := List.count_pos_iff.mpr htask
    have := List.count_pos_iff.mpr hentry
    rw [waiting, List.count_append] at honce
    omega
  | @fireConnect rest => exact hsame (resume_same _).2.1
  | resume => exact hsame (resume_same _).2.1
  | call => cases htimeout
  | checkOutput =>
    apply hsame
    unfold checkOutput
    rw [if_neg hover]
  | checkInput =>
    apply hsame
    unfold checkInput
    rw [if_neg hover]
    split <;> rfl
  | connectFailed =>
    apply hsame
    unfold connectFailed
    split
    · rfl
    split
    · rfl
    split <;> rfl
  | connected =>
    apply hsame
    unfold connected
    split <;> rfl
  | find =>
    apply hsame
    unfold find
    split <;> rfl
  | errSocket =>
    apply hsame
    unfold failed
    split <;> rfl
  | _ => exact hsame rfl

theorem tidy_call {settings : Settings} {s : State} (h : Tidy s) (hpc : s.pc = .idle) (msgNo : Bytes)
    (isMain : Bool) (hplaced : Placed (call settings s msgNo isMain))
    (hpunctual : Punctual (call settings s msgNo isMain)) : Tidy (call settings s msgNo isMain) := by
  have hnew : Event.rpc (s.calls + 1) ∉ waiting s.timer := fun hmem => by
    have := h.made _ hmem
    omega
  obtain ⟨ready, hready⟩ : ∃ ready : State, ready.timer = s.timer ∧
      (call settings s msgNo isMain).timer =
        (startTimer settings ready (.rpc (s.calls + 1)) s.maxTimeout).timer := ⟨_, rfl, rfl⟩
  obtain ⟨htimer, hcall⟩ := hready
  have hother : ∀ n, n ≠ s.calls + 1 → Single (.rpc n) (call settings s msgNo isMain).timer ∧
      Fewer (.rpc n) s.timer (call settings s msgNo isMain).timer := by
    intro n hn
    rw [hcall, ← htimer]
    exact startTimer_other (fun heq => hn (Event.rpc.inj heq)) _ (htimer ▸ h.single n)
  refine ⟨hplaced, hpunctual, fun n => ?_, fun n hn => ?_, fun key n hkey => ⟨rfl, ?_⟩, nofun⟩
  · by_cases heq : n = s.calls + 1
    · rw [heq, hcall]
      apply startTimer_self
      · rw [htimer]
        exact (h.single 0).sorted
      · rw [htimer]
        exact hnew
    · exact (hother n heq).1
  · show n ≤ s.calls + 1
    by_contra hlate
    have hcount := (hother n (by omega)).2.2
    have := List.count_pos_iff.mp (Nat.lt_of_lt_of_le (List.count_pos_iff.mpr hn) hcount)
    have := h.made n this
    omega
  · by_contra hne
    have hold := (hother n hne).2.1 key hkey
    have hidle := (h.cleared key n hold).1
    rw [hpc] at hidle
    cases hidle

theorem tidy_step {settings : Settings} {s t : State} {i : Input} (h : Tidy s) (hopens : StaysOpen s i)
    (hs : step settings s i = some t) : Tidy t := by
  have hplaced := placed_step h.placed hs
  have hpunctual := punctual_step h.punctual h.placed hopens hs
  rcases step_shrinks hs with ⟨hcalls, hshrinks⟩ | ⟨msgNo, isMain, hpc, rfl⟩
  swap
  · exact tidy_call h hpc msgNo isMain hplaced hpunctual
  have hkeys : ∀ key n, (key, Event.rpc n) ∈ t.timer.pendingEvents → s.pc.inCall = true ∧ n = s.calls :=
    fun key n hkey => h.cleared key n ((hshrinks n (h.single n)).2.1 key hkey)
  refine ⟨hplaced, hpunctual, fun n => (hshrinks n (h.single n)).1, fun n hn => ?_, fun key n hkey => ?_,
    fun htimeout key hkey => ?_⟩
  · rw [hcalls]
    have hcount := (hshrinks n (h.single n)).2.2
    exact h.made n (List.count_pos_iff.mp (Nat.lt_of_lt_of_le (List.count_pos_iff.mpr hn) hcount))
  · obtain ⟨hcall, rfl⟩ := hkeys key n hkey
    refine ⟨?_, hcalls.symm⟩
    rw [← Bool.not_eq_false]
    exact fun hreturns => h.returns hs hcall hreturns key hkey
  · rw [hcalls] at hkey
    cases hno : s.isTimeout with
    | false => exact h.timesOut hs htimeout hno key hkey
    | true => exact h.fired hno key ((hshrinks s.calls (h.single _)).2.1 key hkey)

theorem tidy_initial (settings : Settings) (fd : Int) : Tidy (initial settings fd) where
  placed := placed_initial settings fd
  punctual := punctual_initial settings fd
  single _ := ⟨List.Pairwise.nil, rfl, nofun, Nat.zero_le _⟩
  made _ := nofun
  cleared _ _ := nofun
  fired := nofun

/-- **The event of a call that has returned is not pending**, in every run in which no read of a
call in the main coroutine takes the close path. -/
theorem cleared_of_staysOpen (settings : Settings) (fd : Int) (is : List Input)
    (h : Meets (step settings) StaysOpen (initial settings fd) is) :
    Always (step settings) Cleared (initial settings fd) is :=
  (always_of_step (fun _ _ _ hs hopens ht => tidy_step hs hopens ht) (tidy_initial settings fd) h).imp
    fun _ hs => hs.cleared

/-- A call of the main coroutine reads its reply in two pieces; the peer ends the connection while a call of
another coroutine reads. -/
def repliedThenEnded : List Input :=
  List.flatten [[.call greeting.msgNo true, .advance, .connect .ok], List.replicate 5 .advance,
    [.read (.data ((frame greeting).take 20))], List.replicate 5 .advance,
    [.read (.data ((frame greeting).drop 20))], List.replicate 5 .advance,
    [.call [0x32] false], List.replicate 6 .advance, [.read .error, .resume, .read .eof]]

theorem cleared_of_staysOpen_replied : ∃ t, run (step surroundings) (initial surroundings 5) repliedThenEnded = some t ∧
    t.session.pc = .closeWait ∧ Always (step surroundings) Cleared (initial surroundings 5) repliedThenEnded := by
  have hlast : (run (step surroundings) (initial surroundings 5) repliedThenEnded).map (·.session.pc) =
      some .closeWait := by
    decide +kernel
  obtain ⟨t, ht, hpc⟩ := Option.map_eq_some_iff.mp hlast
  exact ⟨t, ht, hpc, cleared_of_staysOpen surroundings 5 _ (by decide +kernel)⟩

/-- The peer ends the connection while a call of the main coroutine reads. -/
def endOfStream : List Input :=
  [.call [0x31] true, .advance, .connect .ok, .advance, .advance, .advance, .advance, .advance, .read .eof,
    .advance, .advance, .socket 5 (.other 0)]

/-- The call returns and its event goes on waiting. -/
theorem not_cleared_endOfStream : ¬ ∀ (settings : Settings) (fd : Int) (is : List Input),
    Always (step settings) Cleared (initial settings fd) is := by
  intro h
  have hrun := h surroundings 5 endOfStream
  have hlast : (run (step surroundings) (initial surroundings 5) endOfStream).map
      (fun s => (s.pc, s.result, s.timer.pendingEvents)) =
        some (.idle, some (.error .peerClosed), [(10000, .rpc 1)]) := by
    decide +kernel
  obtain ⟨u, hu, heq⟩ := Option.map_eq_some_iff.mp hlast
  obtain ⟨hpc, hrest⟩ := Prod.mk.inj heq
  have hkey : (10000, Event.rpc 1) ∈ u.timer.pendingEvents := by
    rw [(Prod.mk.inj hrest).2]
    exact List.mem_singleton_self _
  have hcall := (hrun.last hu 10000 1 hkey).1
  rw [hpc] at hcall
  cases hcall

end CoroutineRpc.Net.Tcp.Client
