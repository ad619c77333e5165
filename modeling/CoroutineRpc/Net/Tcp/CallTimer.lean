import CoroutineRpc.Net.TimerRuns
import CoroutineRpc.Net.Tcp.Ownership

/-! The timer of a call.

Every call has an event of its own in the timer, whose task resumes the coroutine when the time
is over. That is the last resort of a coroutine that sleeps in the call, and there are two ways to
lose it. The close path of `input` forbids the resumption before it yields, and in a call, unlike
in a server's loop, nobody is left to resume. And `delTimerEvent` erases the entry behind an event
it does not find, which may be the call's. Once the task has run the call does not sleep again. -/
namespace CoroutineRpc.Net.Tcp.Client
open Library.Transition Timer

/-- A call that sleeps may be resumed, and its timer is pending or about to be run. -/
def TimesOut (s : State) : Prop :=
  isAsleep s = true → s.session.canResume = true ∧ Awaits (.rpc s.calls) s.timer

/-- Where there is a call. -/
def Pc.inCall : Pc → Bool
  | .idle | .resetFd false | .resetSocket false | .destroyed => false
  | _ => true

/-- No read of a coroutine takes the close path, and no event that is deleted during a call has
the entry of the call's timer erased in its place. -/
def KeepsTimer (s : State) : Input → Prop
  | .read result => s.session.isMain = false → ¬ Session.Closes s.session (.read result)
  | .advance => s.pc = .connectResumed → Spares s.timer (.rpc s.calls) (.connect s.connects)
  | .timer (.del event) => s.pc.inCall = true → Spares s.timer (.rpc s.calls) event
  | _ => True

/-- Where a call can be whose time is over. -/
def lateAt : Pc → Session.Pc → Bool
  | .connectResumed, _ | .connectAgain, _ | .resetFd true, _ | .resetSocket true, _ => true
  | .connectFailed, _ | .connected, _ | .errDeal, _ | .errSocket, _ => true
  | .output, .output | .output, .writeAgain _ | .output, .returned _ => true
  | .input, .readAgain _ | .input, .returned _ => true
  | _, _ => false

/-- What a run keeps that meets `KeepsTimer`. -/
structure Timed (s : State) : Prop where
  awaits : s.pc.inCall = true → s.isTimeout = false → Awaits (.rpc s.calls) s.timer
  late : s.pc.inCall = true → s.isTimeout = true →
    s.session.connection.isOverTime = true ∧ lateAt s.pc s.session.pc = true
  awake : s.session.isMain = true →
    s.pc ≠ .connectWait ∧ (s.pc.callee ≠ none → s.session.pc.asleep = false)
  able : s.session.isMain = false → s.session.canResume = true

/-! ### Where a call sleeps -/

theorem isAsleep_cases {s : State} (h : isAsleep s = true) :
    s.pc = .connectWait ∨ (s.pc = .output ∨ s.pc = .input) ∧ s.session.pc.asleep = true := by
  unfold isAsleep at h
  split at h
  · exact .inl ‹_›
  · rename_i hpc hwait
    exact .inr ⟨.inl hpc, by rw [hwait]; rfl⟩
  · rename_i hpc hwait
    exact .inr ⟨.inr hpc, by rw [hwait]; rfl⟩
  · rename_i hpc hwait
    exact .inr ⟨.inr hpc, by rw [hwait]; rfl⟩
  · cases h

/-- Who sleeps is in a call that is in time. -/
theorem Timed.asleep {s : State} (h : Timed s) (hasleep : isAsleep s = true) :
    s.pc.inCall = true ∧ s.isTimeout = false ∧ s.session.isMain = false := by
  have hcall : s.pc.inCall = true := by
    rcases isAsleep_cases hasleep with hpc | ⟨hpc | hpc, -⟩ <;> rw [hpc] <;> rfl
  refine ⟨hcall, ?_, ?_⟩
  · rw [← Bool.not_eq_true]
    intro htimeout
    have hlate := (h.late hcall htimeout).2
    unfold isAsleep at hasleep
    split at hasleep
    · rename_i hpc
      rw [hpc] at hlate
      cases hlate
    · rename_i hpc hwait
      rw [hpc, hwait] at hlate
      cases hlate
    · rename_i hpc hwait
      rw [hpc, hwait] at hlate
      cases hlate
    · rename_i hpc hwait
      rw [hpc, hwait] at hlate
      cases hlate
    · cases hasleep
  · rw [← Bool.not_eq_true]
    intro hmain
    obtain ⟨hwait, hcallee⟩ := h.awake hmain
    rcases isAsleep_cases hasleep with hpc | ⟨hpc | hpc, hpcs⟩
    · exact hwait hpc
    · rw [hcallee (by rw [hpc]; nofun)] at hpcs
      cases hpcs
    · rw [hcallee (by rw [hpc]; nofun)] at hpcs
      cases hpcs

theorem Timed.timesOut {s : State} (h : Timed s) : TimesOut s := by
  intro hasleep
  obtain ⟨hcall, htimeout, hmain⟩ := h.asleep hasleep
  exact ⟨h.able hmain, h.awaits hcall htimeout⟩

/-! ### One step -/

theorem awaits_startTimer {settings : Settings} {e : Event} {s : State} (h : Awaits e s.timer) (event : Event)
    (interval : Int) : Awaits e (startTimer settings s event interval).timer := by
  have hadd := awaits_addTimerEvent
    (h.of_eq (t := newEvent settings.clock s.timer event interval false) rfl rfl) event true
  show Awaits e (if _ then _ else _)
  split
  · exact (awaits_resetArriveTime settings.clock hadd).of_eq rfl rfl
  · exact hadd

theorem awaits_startTimer_self (settings : Settings) (s : State) (e : Event) (interval : Int) :
    Awaits e (startTimer settings s e interval).timer := by
  have hadd := awaits_addTimerEvent_self (newEvent settings.clock s.timer e interval false) e true
  show Awaits e (if _ then _ else _)
  split
  · exact (awaits_resetArriveTime settings.clock hadd).of_eq rfl rfl
  · exact hadd

/-- The step belongs to the call and sets none of its flags. -/
structure SameCall (s t : State) : Prop where
  calls : t.calls = s.calls
  isTimeout : t.isTimeout = s.isTimeout
  isOverTime : t.session.connection.isOverTime = s.session.connection.isOverTime
  isMain : t.session.isMain = s.session.isMain
  canResume : t.session.canResume = s.session.canResume

theorem Timed.move {s t : State} (h : Timed s) (hsame : SameCall s t)
    (hcall : t.pc.inCall = true → s.pc.inCall = true)
    (hawaits : s.pc.inCall = true → Awaits (.rpc s.calls) s.timer → Awaits (.rpc s.calls) t.timer)
    (hlate : s.isTimeout = true → s.session.connection.isOverTime = true →
      lateAt s.pc s.session.pc = true → lateAt t.pc t.session.pc = true)
    (hawake : t.session.isMain = true →
      t.pc ≠ .connectWait ∧ (t.pc.callee ≠ none → t.session.pc.asleep = false)) : Timed t := by
  refine ⟨fun ht htimeout => ?_, fun ht htimeout => ?_, hawake, fun hmain => ?_⟩
  · rw [hsame.calls]
    rw [hsame.isTimeout] at htimeout
    exact hawaits (hcall ht) (h.awaits (hcall ht) htimeout)
  · rw [hsame.isTimeout] at htimeout
    obtain ⟨hover, hat⟩ := h.late (hcall ht) htimeout
    exact ⟨hsame.isOverTime.trans hover, hlate htimeout hover hat⟩
  · rw [hsame.isMain] at hmain
    exact hsame.canResume.trans (h.able hmain)

/-- A step that leaves the client where it stands. -/
theorem Timed.keep {s t : State} (h : Timed s) (hsame : SameCall s t) (hpc : t.pc = s.pc)
    (hsession : t.session.pc = s.session.pc)
    (hawaits : s.pc.inCall = true → Awaits (.rpc s.calls) s.timer → Awaits (.rpc s.calls) t.timer) :
    Timed t := by
  refine h.move hsame (fun ht => hpc ▸ ht) hawaits (fun _ _ hat => ?_) ?_
  · rw [hpc, hsession]
    exact hat
  · rw [hsame.isMain, hpc, hsession]
    exact h.awake

/-- A step from one place to another where the client does not sleep. -/
theorem Timed.goto {s t : State} (h : Timed s) (hsame : SameCall s t)
    (hcall : t.pc.inCall = true → s.pc.inCall = true)
    (hawaits : Awaits (.rpc s.calls) s.timer → Awaits (.rpc s.calls) t.timer)
    (hlate : lateAt s.pc s.session.pc = true → lateAt t.pc t.session.pc = true)
    (hawake : t.pc ≠ .connectWait ∧ (t.pc.callee ≠ none → t.session.pc.asleep = false)) : Timed t :=
  h.move hsame hcall (fun _ => hawaits) (fun _ _ => hlate) fun _ => hawake

/-- Behind a call there is nothing to wait for. -/
theorem timed_outside {s : State} (hpc : s.pc.inCall = false)
    (hable : s.session.isMain = false → s.session.canResume = true) : Timed s where
  awaits hcall := by rw [hpc] at hcall; cases hcall
  late hcall := by rw [hpc] at hcall; cases hcall
  awake _ := by
    cases hp : s.pc with
    | idle => exact ⟨nofun, fun hne => absurd rfl hne⟩
    | resetFd inCall => exact ⟨nofun, fun hne => absurd rfl hne⟩
    | resetSocket inCall => exact ⟨nofun, fun hne => absurd rfl hne⟩
    | destroyed => exact ⟨nofun, fun hne => absurd rfl hne⟩
    | _ => rw [hp] at hpc; cases hpc
  able := hable

/-- A call whose time is over runs on to the end of the function it is in. -/
theorem lateAt_sessionStep {s : State} {session : Session} {i : Session.Input} (hplaced : Placed s)
    (hpc : s.pc.callee ≠ none) (hover : s.session.connection.isOverTime = true)
    (hat : lateAt s.pc s.session.pc = true) (hs : s.session.step noServer i = some session) :
    lateAt s.pc session.pc = true := by
  cases hp : s.pc with
  | output =>
    rw [hp] at hat
    have hcallee := hplaced.callee .output (by rw [hp]; rfl)
    rcases Session.step_output_pc hcallee hs with ⟨n, -, hno⟩ | ht | ⟨n, hwrite, -⟩ | ⟨n, hwait, -⟩
    · rw [hover] at hno
      cases hno
    · rw [ht]
      rfl
    · rw [hwrite] at hat
      cases hat
    · rw [hwait] at hat
      cases hat
  | input =>
    rw [hp] at hat
    have hcallee := hplaced.callee .input (by rw [hp]; rfl)
    rcases Session.step_input hcallee hs with ⟨hinput, -⟩ | ⟨n, result, -, -, hread⟩ | ⟨n, hread, -⟩ |
      ⟨n, hwait, -⟩ | ⟨hwait, -⟩
    · rw [hinput] at hat
      cases hat
    · rcases Session.readReturns_pc hread with ⟨m, -, hno⟩ | ht | ⟨-, hno, -⟩
      · rw [hover] at hno
        cases hno
      · rw [ht]
        rfl
      · rw [hover] at hno
        cases hno
    · rw [hread] at hat
      cases hat
    · rw [hwait] at hat
      cases hat
    · rw [hwait] at hat
      cases hat
  | execute => rw [hp] at hat; cases hat
  | _ => rw [hp] at hpc; exact absurd rfl hpc

theorem Timed.sessionStep {s : State} {session : Session} {i : Session.Input} (h : Timed s)
    (hplaced : Placed s) (hpc : s.pc.callee ≠ none)
    (hread : s.session.isMain = false → ¬ Session.Closes s.session i)
    (hs : s.session.step noServer i = some session) : Timed {s with session} := by
  have hframe := Session.step_frame hs
  have hawake : session.isMain = true →
      s.pc ≠ .connectWait ∧ (s.pc.callee ≠ none → session.pc.asleep = false) := by
    intro hmain
    rw [hframe.isMain] at hmain
    obtain ⟨hwait, hasleep⟩ := h.awake hmain
    exact ⟨hwait, fun _ => Session.step_asleep hmain (hasleep hpc) hs⟩
  refine ⟨h.awaits, fun hcall htimeout => ?_, hawake, fun hmain => ?_⟩
  · obtain ⟨hover, hat⟩ := h.late hcall htimeout
    have hlate := lateAt_sessionStep hplaced hpc hover hat hs
    exact ⟨hframe.isOverTime.trans hover, hlate⟩
  · rw [hframe.isMain] at hmain
    rcases Session.step_open hs with hopen | ⟨hcloses, -⟩
    · exact hopen.canResume.trans (h.able hmain)
    · exact absurd hcloses (hread hmain)

/-- No sleeper is on its way through a read. -/
theorem not_closes_resume (s : Session) : ¬ Session.Closes s .resume := by
  rintro ⟨h | h, -⟩ <;> cases h

theorem not_closes_advance (s : Session) : ¬ Session.Closes s .advance := by
  rintro ⟨h | h, -⟩ <;> cases h

theorem not_closes_write (s : Session) (result : WriteResult) : ¬ Session.Closes s (.write result) := by
  rintro ⟨h | h, -⟩ <;> cases h

theorem Timed.resume {s : State} (h : Timed s) (hplaced : Placed s) (hasleep : isAsleep s = true) :
    Timed (resume s) := by
  rcases resume_cases hasleep with ⟨-, heq⟩ | ⟨-, hpc, heq⟩ | ⟨-, hpc, session, hs, heq⟩
  · rw [heq]
    exact h
  · rw [heq]
    exact h.goto ⟨rfl, rfl, rfl, rfl, rfl⟩ (fun _ => by rw [hpc]; rfl) id (fun _ => rfl)
      ⟨nofun, fun hne => absurd rfl hne⟩
  · rw [heq]
    refine h.sessionStep hplaced ?_ (fun _ => not_closes_resume _) hs
    rcases hpc with hpc | hpc <;> rw [hpc] <;> nofun

/-- A call that is woken where it sleeps in a function of the connection. -/
theorem lateAt_resume {s : State} {session : Session} (hplaced : Placed s)
    (hpc : s.pc = .output ∨ s.pc = .input) (hcan : s.session.canResume = true)
    (hs : s.session.step noServer .resume = some session) : lateAt s.pc session.pc = true := by
  have hcallee : ∀ callee, s.pc.callee = some callee → session.pc.callee = callee := fun callee hc =>
    (Session.step_frame hs).callee.trans (hplaced.callee callee hc)
  rcases Session.step_resume hcan hs with ⟨n, ht⟩ | ht | ⟨n, ht⟩
  · rcases hpc with hpc | hpc
    · have hno := hcallee .output (congrArg Pc.callee hpc)
      rw [ht] at hno
      cases hno
    · rw [hpc, ht]
      rfl
  · rcases hpc with hpc | hpc
    · rw [hpc, ht]
      rfl
    · rw [hpc, ht]
      rfl
  · rcases hpc with hpc | hpc
    · rw [hpc, ht]
      rfl
    · have hno := hcallee .input (congrArg Pc.callee hpc)
      rw [ht] at hno
      cases hno

/-- The task of the call's timer wakes the coroutine. -/
theorem Timed.fire {s : State} (h : Timed s) (hplaced : Placed s) (hasleep : isAsleep s = true)
    (rest : List Event) : Timed (Client.resume (setOverTimeFlag
      {s with timer := {s.timer with tasks := rest}, isTimeout := true} true)) := by
  obtain ⟨hcall, -, hmain⟩ := h.asleep hasleep
  have hcan := h.able hmain
  have hflagged : isAsleep (setOverTimeFlag
      {s with timer := {s.timer with tasks := rest}, isTimeout := true} true) = true := hasleep
  have hset : Placed (setOverTimeFlag {s with timer := {s.timer with tasks := rest}, isTimeout := true} true) :=
    ⟨hplaced.callee, hplaced.hung⟩
  rcases resume_cases hflagged with ⟨hno, -⟩ | ⟨-, hpc, heq⟩ | ⟨-, hpc, session, hs, heq⟩
  · rw [show s.session.canResume = false from hno] at hcan
    cases hcan
  · rw [heq]
    exact ⟨fun _ => nofun, fun _ _ => ⟨rfl, rfl⟩, fun _ => ⟨nofun, fun hne => absurd rfl hne⟩, fun _ => hcan⟩
  · rw [heq]
    have hframe := Session.step_frame hs
    have hopen := (Session.step_open hs).resolve_right fun hcloses => not_closes_resume _ hcloses.1
    refine ⟨fun _ => nofun, fun _ _ => ⟨hframe.isOverTime.trans rfl, ?_⟩, fun hyes => ?_, fun _ => ?_⟩
    · have hlate := lateAt_resume hset hpc hcan hs
      exact hlate
    · rw [show session.isMain = s.session.isMain from hframe.isMain, hmain] at hyes
      cases hyes
    · exact hopen.canResume.trans hcan

theorem timed_call (settings : Settings) (s : State) (msgNo : Bytes) (isMain : Bool) :
    Timed (call settings s msgNo isMain) where
  awaits _ _ := awaits_startTimer_self settings _ _ _
  late _ := nofun
  awake _ := ⟨nofun, fun hne => absurd rfl hne⟩
  able _ := rfl

/-- The step to a place where a call that is too late goes. -/
theorem Timed.toErrDeal {s : State} (h : Timed s) (hover : s.session.connection.isOverTime = true) :
    Timed {s with isTimeout := true, pc := .errDeal} where
  awaits _ := nofun
  late _ _ := ⟨hover, rfl⟩
  awake _ := ⟨nofun, fun hne => absurd rfl hne⟩
  able := h.able

theorem timed_checkOutput {s : State} (h : Timed s) (hpc : s.pc = .output) : Timed (checkOutput s) := by
  unfold checkOutput
  split
  · exact h.toErrDeal ‹_›
  · rename_i hno
    exact h.move ⟨rfl, rfl, rfl, rfl, rfl⟩ (fun _ => by rw [hpc]; rfl) (fun _ => id)
      (fun _ hover => absurd hover hno) fun _ => ⟨nofun, fun hne => absurd rfl hne⟩

theorem timed_checkInput {s : State} (h : Timed s) (hpc : s.pc = .input) : Timed (checkInput s) := by
  unfold checkInput
  split
  · exact h.toErrDeal ‹_›
  rename_i hno
  split
  · exact h.goto ⟨rfl, rfl, rfl, rfl, rfl⟩ (fun _ => by rw [hpc]; rfl) id (fun _ => rfl)
      ⟨nofun, fun hne => absurd rfl hne⟩
  · exact h.move ⟨rfl, rfl, rfl, rfl, rfl⟩ (fun _ => by rw [hpc]; rfl) (fun _ => id)
      (fun _ hover => absurd hover hno) fun _ => ⟨nofun, fun _ => rfl⟩

theorem timed_connectFailed {settings : Settings} {s : State} (h : Timed s) (hpc : s.pc = .connectFailed) :
    Timed (connectFailed settings s) := by
  unfold connectFailed
  split
  · exact h.goto ⟨rfl, rfl, rfl, rfl, rfl⟩ (fun _ => by rw [hpc]; rfl) id (fun _ => rfl)
      ⟨nofun, fun hne => absurd rfl hne⟩
  rename_i hno
  split
  · exact timed_outside rfl h.able
  split
  · exact timed_outside rfl h.able
  · exact h.move ⟨rfl, rfl, rfl, rfl, rfl⟩ (fun _ => by rw [hpc]; rfl) (fun _ => id)
      (fun htimeout => absurd htimeout hno) fun _ => ⟨nofun, fun hne => absurd rfl hne⟩

theorem timed_connected {settings : Settings} {s : State} (h : Timed s) (hpc : s.pc = .connected) :
    Timed (connected settings s) := by
  unfold connected
  split
  · exact timed_outside rfl h.able
  · exact h.goto ⟨rfl, rfl, rfl, rfl, rfl⟩ (fun _ => by rw [hpc]; rfl) id (fun _ => rfl)
      ⟨nofun, fun _ => rfl⟩

theorem timed_find {s : State} (h : Timed s) (hpc : s.pc = .find) : Timed (find s) := by
  unfold find
  split
  · exact timed_outside rfl h.able
  · refine h.goto ⟨rfl, rfl, rfl, rfl, rfl⟩ (fun _ => by rw [hpc]; rfl) id (fun hat => ?_)
      ⟨nofun, fun _ => rfl⟩
    rw [hpc] at hat
    cases hat

theorem timed_step {settings : Settings} {s t : State} {i : Input} (h : Timed s) (hplaced : Placed s)
    (hkeeps : KeepsTimer s i) (hs : step settings s i = some t) : Timed t := by
  cases step_moves hs with
  | @timer i timer hi hdel htimer =>
    refine h.keep ⟨rfl, rfl, rfl, rfl, rfl⟩ rfl rfl fun hcall hawaits => ?_
    refine awaits_step hawaits hi (fun event hevent => ?_) htimer
    subst hevent
    obtain ⟨n, rfl⟩ := hdel event rfl
    exact ⟨nofun, hkeeps hcall⟩
  | @fireOther n rest htasks =>
    refine h.keep ⟨rfl, rfl, rfl, rfl, rfl⟩ rfl rfl fun _ => Or.imp_right fun hmem => ?_
    rw [htasks] at hmem
    exact (List.mem_cons.mp hmem).resolve_left nofun
  | @fireRpc rest htasks hasleep => exact h.fire hplaced hasleep rest
  | @fireConnect rest htasks hpc =>
    have hflag : Timed {s with timer := {s.timer with tasks := rest}, connectTimeout := true} := by
      refine h.keep ⟨rfl, rfl, rfl, rfl, rfl⟩ rfl rfl fun _ => Or.imp_right fun hmem => ?_
      rw [htasks] at hmem
      exact (List.mem_cons.mp hmem).resolve_left nofun
    exact hflag.resume ⟨hplaced.callee, hplaced.hung⟩ (asleep_of_connectWait hpc)
  | elsewhere => exact h.keep ⟨rfl, rfl, rfl, rfl, rfl⟩ rfl rfl fun _ => id
  | call msgNo isMain => exact timed_call settings s msgNo isMain
  | callResetFd => exact timed_outside rfl h.able
  | setTimeout => exact h.keep ⟨rfl, rfl, rfl, rfl, rfl⟩ rfl rfl fun _ => id
  | encode => exact h.keep ⟨rfl, rfl, rfl, rfl, rfl⟩ rfl rfl fun _ => id
  | destroy =>
    apply timed_outside rfl
    dsimp only
    split <;> exact h.able
  | leaveLoop hpc =>
    exact h.goto ⟨rfl, rfl, rfl, rfl, rfl⟩ (fun _ => by rw [hpc]; rfl) id (fun _ => rfl)
      ⟨nofun, fun hne => absurd rfl hne⟩
  | connectNext hpc =>
    refine h.goto ⟨rfl, rfl, rfl, rfl, rfl⟩ (fun _ => by rw [hpc]; rfl) id (fun hat => ?_)
      ⟨nofun, fun hne => absurd rfl hne⟩
    rw [hpc] at hat
    cases hat
  | connectResumed hpc =>
    exact h.goto ⟨rfl, rfl, rfl, rfl, rfl⟩ (fun _ => by rw [hpc]; rfl)
      (fun hawaits => awaits_delTimerEvent hawaits nofun (hkeeps hpc)) (fun _ => rfl)
      ⟨nofun, fun hne => absurd rfl hne⟩
  | closeFd hfd hpc =>
    rcases hpc with ⟨inCall, hpc, rfl⟩ | ⟨hpc, rfl⟩
    · cases inCall with
      | true =>
        exact h.goto ⟨rfl, rfl, rfl, rfl, rfl⟩ (fun _ => by rw [hpc]; rfl) id (fun _ => rfl)
          ⟨nofun, fun hne => absurd rfl hne⟩
      | false => exact timed_outside rfl h.able
    · exact h.goto ⟨rfl, rfl, rfl, rfl, rfl⟩ (fun _ => by rw [hpc]; rfl) id (fun _ => rfl)
        ⟨nofun, fun hne => absurd rfl hne⟩
  | connectFailed hpc => exact timed_connectFailed h hpc
  | connected hpc => exact timed_connected h hpc
  | checkOutput hpc => exact timed_checkOutput h hpc
  | find hpc => exact timed_find h hpc
  | checkInput hpc => exact timed_checkInput h hpc
  | executed hpc =>
    refine h.goto ⟨rfl, rfl, rfl, rfl, rfl⟩ (fun _ => by rw [hpc]; rfl) id (fun hat => ?_)
      ⟨nofun, fun hne => absurd rfl hne⟩
    rw [hpc] at hat
    cases hat
  | advance hpc hsession =>
    exact h.sessionStep hplaced (by rw [hpc]; nofun) (fun _ => not_closes_advance _) hsession
  | read hpc hsession => exact h.sessionStep hplaced (by rw [hpc]; nofun) hkeeps hsession
  | write hpc hsession =>
    exact h.sessionStep hplaced (by rw [hpc]; nofun) (fun _ => not_closes_write _ _) hsession
  | connectDone hpc =>
    refine h.goto ⟨rfl, rfl, rfl, rfl, rfl⟩ (fun _ => ?_) id (fun _ => rfl) ⟨nofun, fun hne => absurd rfl hne⟩
    rcases hpc with hpc | hpc <;> rw [hpc] <;> rfl
  | connectError errno hpc =>
    refine h.goto ⟨rfl, rfl, rfl, rfl, rfl⟩ (fun _ => ?_) id (fun _ => rfl) ⟨nofun, fun hne => absurd rfl hne⟩
    rcases hpc with hpc | hpc <;> rw [hpc] <;> rfl
  | connectWaits errno hpc hmain =>
    refine h.move ⟨rfl, rfl, rfl, rfl, rfl⟩ (fun _ => by rw [hpc]; rfl)
      (fun _ hawaits => awaits_startTimer (by exact hawaits) _ _) (fun _ _ hat => ?_) fun hyes => ?_
    · rw [hpc] at hat
      cases hat
    · exact absurd (hmain.symm.trans hyes) nofun
  | @resetSocket fd errno inCall descriptors hpc =>
    cases inCall with
    | true =>
      exact h.goto ⟨rfl, rfl, rfl, rfl, rfl⟩ (fun _ => by rw [hpc]; rfl) id (fun _ => rfl)
        ⟨nofun, fun hne => absurd rfl hne⟩
    | false => exact timed_outside rfl h.able
  | errSocket =>
    unfold failed
    split
    · exact timed_outside rfl h.able
    · exact timed_outside rfl h.able
  | resume hasleep => exact h.resume hplaced hasleep

theorem timed_initial (settings : Settings) (fd : Int) : Timed (initial settings fd) :=
  timed_outside rfl fun _ => rfl

/-! ### Every run -/

/-- **A call that sleeps can be timed out** in every run in which no read takes a coroutine to the
close path and no deletion erases the entry of the call's timer in another's place. -/
theorem timesOut_of_keepsTimer (settings : Settings) (fd : Int) (is : List Input)
    (h : Meets (step settings) KeepsTimer (initial settings fd) is) :
    Always (step settings) TimesOut (initial settings fd) is := by
  have halways : Always (step settings) (fun s => Placed s ∧ Timed s) (initial settings fd) is :=
    always_of_step (fun _ _ _ hs hk ht => ⟨placed_step hs.1 ht, timed_step hs.2 hs.1 hk ht⟩)
      ⟨placed_initial settings fd, timed_initial settings fd⟩ h
  exact halways.imp fun _ hs => hs.2.timesOut

/-- A call that has waited for its connect. -/
theorem timesOut_of_keepsTimer_connecting :
    Always (step surroundings) TimesOut (initial surroundings 5)
      [.call [0x31] false, .advance, .connect (.failed .inProgress), .resume, .advance] := by
  apply timesOut_of_keepsTimer
  refine ⟨trivial, fun t ht => ?_⟩
  obtain rfl := Option.some.inj ht
  refine ⟨nofun, fun t ht => ?_⟩
  obtain rfl := Option.some.inj ht
  refine ⟨trivial, fun t ht => ?_⟩
  obtain rfl := Option.some.inj ht
  refine ⟨trivial, fun t ht => ?_⟩
  obtain rfl := Option.some.inj ht
  exact ⟨fun _ => .inl (by decide +kernel), fun _ _ => trivial⟩

/-- The peer ends the connection while the call waits for its reply. -/
def hangUp : List Input :=
  [.call [0x31] false, .advance, .connect .ok, .advance, .advance, .advance, .advance, .advance,
    .read .error, .resume, .read .eof]

/-- The call sleeps and is not to be resumed. -/
theorem not_timesOut_hangUp : ¬ ∀ (settings : Settings) (fd : Int) (is : List Input),
    Always (step settings) TimesOut (initial settings fd) is := by
  intro h
  have hrun := h surroundings 5 hangUp
  have hlast : (run (step surroundings) (initial surroundings 5) hangUp).map
      (fun s => (isAsleep s, s.session.isMain, s.session.canResume)) = some (true, false, false) := by
    decide +kernel
  obtain ⟨u, hu, heq⟩ := Option.map_eq_some_iff.mp hlast
  obtain ⟨hasleep, hrest⟩ := Prod.mk.inj heq
  obtain ⟨-, hcan⟩ := Prod.mk.inj hrest
  have hyes := (hrun.last hu hasleep).1
  rw [hcan] at hyes
  cases hyes

end CoroutineRpc.Net.Tcp.Client
