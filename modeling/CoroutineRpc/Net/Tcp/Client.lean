import CoroutineRpc.Net.Timer
import CoroutineRpc.Net.Tcp.Connection

/-! `TcpClient`: calls over one connection, each with a timer of its own.

A call of `sendAndRecv` connects unless the connection says it is connected, writes what
was encoded and reads until the reply is there. The system calls are inputs, as they are
of a `Session`, which runs the connection's own functions. Beside the call there are the
loop, which resumes the coroutine and fires timers while it sleeps, and whoever else uses
the timer or opens and closes descriptors. The client belongs to one thread and serves one
call at a time. What is undefined has no step: a task whose call has returned, and a
descriptor that is negative. What the loop does with the descriptors' events is in `Loop`;
here a sleeping coroutine may be resumed at any time. -/
namespace CoroutineRpc.Net.Tcp
open Rpc TcpBuffer

inductive Errno where
  | connRefused
  | afNoSupport
  | inProgress
  | isConn
  | timedOut
  | other (n : Nat)
deriving DecidableEq

inductive ConnectResult where
  | ok
  | failed (errno : Errno)
deriving DecidableEq

/-- A client connection has no server. -/
def noServer : RpcStruct → TcpBuffer → Option (TcpBuffer × RunTime) := fun _ _ => none

namespace Client

/-- What the client takes from its surroundings: the text of its peer's address and of an
error, the configured time a connect may take, and the clock. -/
structure Settings where
  peerAddr : String
  strerror : Errno → String
  maxConnectTimeout : Int
  clock : Nat → Int

/-- The events of the timer: that of the `n`th call, that of the `n`th connect that had to
wait, and those of others. -/
inductive Event where
  | rpc (n : Nat)
  | connect (n : Nat)
  | other (n : Nat)
deriving DecidableEq

/-- Where the client stands: outside, in `sendAndRecv`, or in `resetFd`, which `sendAndRecv`
calls too. -/
inductive Pc where
  | idle
  /-- At the head of the loop that connects. -/
  | connectLoop
  /-- The first connect of `connect_hook`. -/
  | connect
  /-- Asleep in `connect_hook`. -/
  | connectWait
  | connectResumed
  /-- The second connect of `connect_hook`. -/
  | connectAgain
  | resetFd (inCall : Bool)
  | resetSocket (inCall : Bool)
  /-- Behind the `resetFd` of the loop. -/
  | connectFailed
  /-- Behind the loop. -/
  | connected
  | output
  /-- At the head of the loop that reads. -/
  | find
  | input
  | execute
  | errDeal
  | errSocket
  | destroyed
deriving DecidableEq

inductive Input where
  /-- `sendAndRecv(msg_no, res)`. -/
  | call (msgNo : Bytes) (isMain : Bool)
  /-- `resetFd()`, by the user. -/
  | resetFd
  | setTimeout (v : Int)
  /-- A packet is encoded into the write buffer. -/
  | encode (genMsgNumber : Bytes) (data : RpcStruct)
  | destroy
  | advance
  | connect (result : ConnectResult)
  | read (result : ReadResult)
  | write (result : WriteResult)
  /-- `socket()` returned `fd`; `errno` is what it is then. -/
  | socket (fd : Int) (errno : Errno)
  /-- The loop resumes the coroutine. -/
  | resume
  | timer (i : Timer.Input Event)
  /-- Another thread opens or closes a descriptor. -/
  | elsewhere (fd : Int)
deriving DecidableEq

/-- The members of the client, then the local variables of the call and of `connect_hook`.
`calls` and `connects` count the events that were made; `result` is what the last call
returned. -/
structure State where
  fd : Int
  maxTimeout : Int := 10000
  errInfo : String := ""
  session : Session
  timer : Timer.State Event
  errno : Errno := .other 0
  msgNo : Bytes := []
  isTimeout : Bool := false
  connectTimeout : Bool := false
  calls : Nat := 0
  connects : Nat := 0
  result : Option (Except ErrorCode RpcStruct) := none
  pc : Pc := .idle

/-- `TcpClient()`, for which `socket()` returned `fd`. -/
def initial (settings : Settings) (fd : Int) : State :=
  { fd
    session :=
      { connection := .client fd 128
        descriptors := ⟨Function.update (fun _ => none) fd (some .ours), [.socket fd]⟩ }
    timer := Timer.initial settings.clock }

section
variable (settings : Settings)

/-! ### The timer -/

/-- A one-shot event is made and added. -/
def startTimer (s : State) (event : Event) (interval : Int) : State :=
  let timer := Timer.addTimerEvent (Timer.newEvent settings.clock s.timer event interval false) event true
  {s with
    timer :=
      if timer.resetting then {Timer.resetArriveTime settings.clock timer with resetting := false}
      else timer}

def delTimer (s : State) (event : Event) : State := {s with timer := Timer.delTimerEvent s.timer event}

/-! ### `sendAndRecv` -/

def isAsleep (s : State) : Bool :=
  match s.pc, s.session.pc with
  | .connectWait, _ => true
  | .output, .writeWait _ => true
  | .input, .readWait _ => true
  | .input, .closeWait => true
  | _, _ => false

/-- `Coroutine::Resume` of the calling coroutine, which sleeps. -/
def resume (s : State) : State :=
  if s.pc = .connectWait then
    if s.session.canResume then {s with pc := .connectResumed} else s
  else {s with session := (s.session.step noServer .resume).getD s.session}

def setState (s : State) (state : TcpConnectionState) : State :=
  {s with session := {s.session with connection := {s.session.connection with state}}}

def setOverTimeFlag (s : State) (isOverTime : Bool) : State :=
  {s with session := {s.session with connection := {s.session.connection with isOverTime}}}

/-- The call goes on with one of the connection's functions. -/
def enter (s : State) (pc : Pc) (start : Session.Pc) : State :=
  {s with pc, session := {s.session with pc := start}}

def returnError (s : State) (e : ErrorCode) (errInfo : String) : State :=
  {s with pc := .idle, errInfo, result := some (.error e)}

def call (s : State) (msgNo : Bytes) (isMain : Bool) : State :=
  -- a coroutine that runs may be resumed
  startTimer settings
    {s with
      msgNo
      isTimeout := false
      calls := s.calls + 1
      result := none
      pc := .connectLoop
      session := {s.session with isMain, canResume := true}}
    (.rpc (s.calls + 1)) s.maxTimeout

/-- `connect_hook` returns zero. -/
def connectDone (s : State) : State := {setState s .connected with pc := .connected}

/-- `connect_hook` returns an error. -/
def connectError (s : State) (errno : Errno) : State := {s with errno, pc := .resetFd true}

def connect (s : State) (result : ConnectResult) : Option State :=
  match s.pc, result with
  | .connect, result =>
    if s.fd < 0 ∧ ¬ s.session.isMain then none
    else
      match result with
      | .ok => some (connectDone s)
      | .failed errno =>
        if s.session.isMain ∨ errno ≠ .inProgress then some (connectError s errno)
        else
          some (startTimer settings
            {s with connects := s.connects + 1, connectTimeout := false, errno, pc := .connectWait}
            (.connect (s.connects + 1)) settings.maxConnectTimeout)
  | .connectAgain, .ok => some (connectDone s)
  | .connectAgain, .failed errno =>
    if errno = .isConn then some (connectDone s)
    else some (connectError s (if s.connectTimeout then .timedOut else errno))
  | _, _ => none

/-- The checks behind the `resetFd` of the loop. -/
def connectFailed (s : State) : State :=
  if s.isTimeout then {s with pc := .errDeal}
  else if s.errno = .connRefused then
    returnError (delTimer s (.rpc s.calls)) .peerClosed
      ("connect error, peer[ " ++ settings.peerAddr ++ " ] closed.")
  else if s.errno = .afNoSupport then
    returnError (delTimer s (.rpc s.calls)) .connectSysErr
      ("connect cur sys ror, errinfo is " ++ settings.strerror s.errno ++ " ] closed.")
  else {s with pc := .connectLoop}

/-- Behind the loop that connects. -/
def connected (s : State) : State :=
  if s.session.connection.state ≠ .connected then
    returnError (delTimer s (.rpc s.calls)) .failedConnect
      ("connect peer addr[" ++ settings.peerAddr ++ "] error. sys error=" ++ settings.strerror s.errno)
  else enter (setState s .connected) .output .output

/-- `getResPackageData`, and what follows from it. -/
def find (s : State) : State :=
  match s.session.connection.getResPackageData s.msgNo with
  | some (res, connection) =>
    {delTimer s (.rpc s.calls) with
      session := {s.session with connection}, errInfo := "", result := some (.ok res), pc := .idle}
  | none => enter s .input .input

/-- Behind `input`. -/
def checkInput (s : State) : State :=
  if s.session.connection.isOverTime then {s with isTimeout := true, pc := .errDeal}
  else if s.session.connection.state = .closed then {s with pc := .errDeal}
  else enter s .execute .execute

/-- Behind `output`. -/
def checkOutput (s : State) : State :=
  if s.session.connection.isOverTime then {s with isTimeout := true, pc := .errDeal}
  else {s with pc := .find}

/-- The end of `err_deal`. -/
def failed (s : State) : State :=
  if s.isTimeout then
    returnError (setOverTimeFlag s false) .rpcCallTimeout
      ("call rpc falied, over " ++ toString s.maxTimeout ++ " ms")
  else returnError s .peerClosed ("call rpc falied, peer closed [" ++ settings.peerAddr ++ "]")

/-- `close(m_fd)`, behind the `getFdEvent` of the descriptor. -/
def closeFd (s : State) (pc : Pc) : Option State :=
  if s.fd < 0 then none
  else some {s with pc, session := {s.session with descriptors := s.session.descriptors.close s.fd}}

def sessionStep (s : State) (i : Session.Input) : Option State :=
  (s.session.step noServer i).map fun session => {s with session}

def advance (s : State) : Option State :=
  match s.pc, s.session.pc with
  | .connectLoop, _ =>
    if s.isTimeout ∨ s.session.connection.state = .connected then some {s with pc := .connected}
    else some {s with pc := .connect}
  | .connectResumed, _ => some {delTimer s (.connect s.connects) with pc := .connectAgain}
  | .resetFd inCall, _ => closeFd s (.resetSocket inCall)
  | .connectFailed, _ => some (connectFailed settings s)
  | .connected, _ => some (connected settings s)
  | .output, .returned _ => some (checkOutput s)
  | .output, _ => sessionStep s .advance
  | .find, _ => some (find s)
  | .input, .returned _ => some (checkInput s)
  | .input, _ => sessionStep s .advance
  | .execute, .returned _ => some {s with pc := .find}
  | .execute, _ => sessionStep s .advance
  | .errDeal, _ => closeFd s .errSocket
  | _, _ => none

def socket (s : State) (fd : Int) (errno : Errno) : Option State := do
  let descriptors ← s.session.descriptors.socket fd
  let t := {s with fd, errno, session := {s.session with descriptors}}
  match s.pc with
  | .resetSocket true => some {t with pc := .connectFailed}
  | .resetSocket false => some {t with pc := .idle}
  | .errSocket => some (failed settings t)
  | _ => none

/-! ### Beside the call -/

/-- The task of an event of the client. -/
def fire (s : State) : Event → Option State
  | .rpc n =>
    if s.pc ≠ .idle ∧ n = s.calls then some (resume (setOverTimeFlag {s with isTimeout := true} true))
    else none
  | .connect n =>
    if s.pc = .connectWait ∧ n = s.connects then some (resume {s with connectTimeout := true})
    else none
  | .other _ => some s

/-- The events of the client are its own; the loop fires no timer while the thread runs. -/
def timerStep (s : State) (i : Timer.Input Event) : Option State := do
  let timer ← Timer.step settings.clock s.timer i
  let t := {s with timer}
  match i with
  | .create (.other _) _ _ | .add (.other _) | .del (.other _) | .reset => some t
  | .onTimer => if s.pc = .idle ∨ isAsleep s then some t else none
  | .runTask =>
    if s.pc = .idle ∨ isAsleep s then
      match s.timer.tasks with
      | event :: _ => fire t event
      | [] => none
    else none
  | _ => none

/-- Between calls. -/
def outside (s : State) : Input → Option State
  | .call msgNo isMain => some (call settings s msgNo isMain)
  | .resetFd => some {s with pc := .resetFd false}
  | .setTimeout v => some {s with maxTimeout := v}
  | .encode genMsgNumber data =>
    (encode genMsgNumber s.session.connection.writeBuffer data).map fun r =>
      {s with session := s.session.setWriteBuffer r.1}
  | .destroy =>
    some {s with
      pc := .destroyed
      session :=
        if s.fd > 0 then {s.session with descriptors := s.session.descriptors.close s.fd} else s.session}
  | _ => none

def step (s : State) : Input → Option State
  | .timer i => timerStep settings s i
  | .elsewhere fd =>
    (s.session.descriptors.elsewhere fd).map fun descriptors =>
      {s with session := {s.session with descriptors}}
  | i =>
    -- nothing comes between the two halves of a call of the timer
    if s.timer.resetting then none
    else if s.pc = .idle then outside settings s i
    else
      match i with
      | .advance => advance settings s
      | .connect result => connect settings s result
      | .read result => if s.pc = .input then sessionStep s (.read result) else none
      | .write result => if s.pc = .output then sessionStep s (.write result) else none
      | .socket fd errno => socket settings s fd errno
      | .resume => if isAsleep s then some (resume s) else none
      | _ => none

end

/-! ### What a step can do -/

/-- The connection's function that the call is in. -/
def Pc.callee : Pc → Option Callee
  | .output => some .output
  | .input => some .input
  | .execute => some .execute
  | _ => none

/-- The steps, each with what it is taken under. -/
inductive Moves (settings : Settings) (s : State) : Input → State → Prop where
  | timer {i : Timer.Input Event} {timer : Timer.State Event} (hi : i ≠ .runTask)
      (hdel : ∀ event, i = .del event → ∃ n, event = .other n)
      (h : Timer.step settings.clock s.timer i = some timer) : Moves settings s (.timer i) {s with timer}
  | fireOther {n : Nat} {rest : List Event} (htasks : s.timer.tasks = .other n :: rest) :
      Moves settings s (.timer .runTask) {s with timer := {s.timer with tasks := rest}}
  | fireRpc {rest : List Event} (htasks : s.timer.tasks = .rpc s.calls :: rest) (hasleep : isAsleep s = true) :
      Moves settings s (.timer .runTask)
        (resume (setOverTimeFlag {s with timer := {s.timer with tasks := rest}, isTimeout := true} true))
  | fireConnect {rest : List Event} (htasks : s.timer.tasks = .connect s.connects :: rest)
      (hpc : s.pc = .connectWait) :
      Moves settings s (.timer .runTask)
        (resume {s with timer := {s.timer with tasks := rest}, connectTimeout := true})
  | elsewhere {fd : Int} {descriptors : Descriptors}
      (h : s.session.descriptors.elsewhere fd = some descriptors) :
      Moves settings s (.elsewhere fd) {s with session := {s.session with descriptors}}
  | call (msgNo : Bytes) (isMain : Bool) (hpc : s.pc = .idle) :
      Moves settings s (.call msgNo isMain) (call settings s msgNo isMain)
  | callResetFd (hpc : s.pc = .idle) : Moves settings s .resetFd {s with pc := .resetFd false}
  | setTimeout (v : Int) (hpc : s.pc = .idle) : Moves settings s (.setTimeout v) {s with maxTimeout := v}
  | encode {genMsgNumber : Bytes} {data : RpcStruct} (writeBuffer : TcpBuffer) (hpc : s.pc = .idle) :
      Moves settings s (.encode genMsgNumber data) {s with session := s.session.setWriteBuffer writeBuffer}
  | destroy (hpc : s.pc = .idle) :
      Moves settings s .destroy {s with
        pc := .destroyed
        session :=
          if s.fd > 0 then {s.session with descriptors := s.session.descriptors.close s.fd} else s.session}
  | leaveLoop (hpc : s.pc = .connectLoop)
      (h : s.isTimeout = true ∨ s.session.connection.state = .connected) :
      Moves settings s .advance {s with pc := .connected}
  | connectNext (hpc : s.pc = .connectLoop) (htimeout : s.isTimeout = false)
      (hstate : s.session.connection.state ≠ .connected) : Moves settings s .advance {s with pc := .connect}
  | connectResumed (hpc : s.pc = .connectResumed) :
      Moves settings s .advance {delTimer s (.connect s.connects) with pc := .connectAgain}
  | closeFd {pc : Pc} (hfd : 0 ≤ s.fd)
      (hpc : (∃ inCall, s.pc = .resetFd inCall ∧ pc = .resetSocket inCall) ∨
        s.pc = .errDeal ∧ pc = .errSocket) :
      Moves settings s .advance
        {s with pc, session := {s.session with descriptors := s.session.descriptors.close s.fd}}
  | connectFailed (hpc : s.pc = .connectFailed) : Moves settings s .advance (connectFailed settings s)
  | connected (hpc : s.pc = .connected) : Moves settings s .advance (connected settings s)
  | checkOutput {callee : Callee} (hpc : s.pc = .output) (h : s.session.pc = .returned callee) :
      Moves settings s .advance (checkOutput s)
  | find (hpc : s.pc = .find) : Moves settings s .advance (find s)
  | checkInput {callee : Callee} (hpc : s.pc = .input) (h : s.session.pc = .returned callee) :
      Moves settings s .advance (checkInput s)
  | executed {callee : Callee} (hpc : s.pc = .execute) (h : s.session.pc = .returned callee) :
      Moves settings s .advance {s with pc := .find}
  | advance {callee : Callee} {session : Session} (hpc : s.pc.callee = some callee)
      (h : s.session.step noServer .advance = some session) : Moves settings s .advance {s with session}
  | read {result : ReadResult} {session : Session} (hpc : s.pc = .input)
      (h : s.session.step noServer (.read result) = some session) :
      Moves settings s (.read result) {s with session}
  | write {result : WriteResult} {session : Session} (hpc : s.pc = .output)
      (h : s.session.step noServer (.write result) = some session) :
      Moves settings s (.write result) {s with session}
  | connectDone {result : ConnectResult} (hpc : s.pc = .connect ∨ s.pc = .connectAgain)
      (hresult : result = .ok ∨ result = .failed .isConn) :
      Moves settings s (.connect result) (connectDone s)
  | connectError {result : ConnectResult} (errno : Errno) (hpc : s.pc = .connect ∨ s.pc = .connectAgain) :
      Moves settings s (.connect result) (connectError s errno)
  | connectWaits {result : ConnectResult} (errno : Errno) (hpc : s.pc = .connect)
      (hmain : s.session.isMain = false) :
      Moves settings s (.connect result)
        (startTimer settings
          {s with connects := s.connects + 1, connectTimeout := false, errno, pc := .connectWait}
          (.connect (s.connects + 1)) settings.maxConnectTimeout)
  | resetSocket {fd : Int} {errno : Errno} {inCall : Bool} {descriptors : Descriptors}
      (hpc : s.pc = .resetSocket inCall) (h : s.session.descriptors.socket fd = some descriptors) :
      Moves settings s (.socket fd errno) {s with
        fd, errno, session := {s.session with descriptors}
        pc := if inCall then .connectFailed else .idle}
  | errSocket {fd : Int} {errno : Errno} {descriptors : Descriptors} (hpc : s.pc = .errSocket)
      (h : s.session.descriptors.socket fd = some descriptors) :
      Moves settings s (.socket fd errno)
        (failed settings {s with fd, errno, session := {s.session with descriptors}})
  | resume (hasleep : isAsleep s = true) : Moves settings s .resume (resume s)

theorem asleep_of_connectWait {s : State} (hpc : s.pc = .connectWait) : isAsleep s = true := by
  simp only [isAsleep, hpc]

theorem advance_execute {settings : Settings} {s : State} {session : Session} (hpc : s.pc = .execute)
    (hp : s.session.pc = .execute) (hs : s.session.step noServer .advance = some session) :
    advance settings s = some {s with session} := by
  simp only [advance, hpc, hp, sessionStep, hs, Option.map_some]

theorem advance_checkInput {settings : Settings} {s : State} {callee : Callee} (hpc : s.pc = .input)
    (hreturned : s.session.pc = .returned callee) : advance settings s = some (checkInput s) := by
  rw [advance, hpc, hreturned]

theorem checkInput_execute {s : State} (hover : s.session.connection.isOverTime = false)
    (hup : s.session.connection.state = .connected) : checkInput s = enter s .execute .execute := by
  rw [checkInput, hover, hup, if_neg Bool.false_ne_true, if_neg nofun]

theorem advance_moves {settings : Settings} {s t : State} (h : advance settings s = some t) :
    Moves settings s .advance t := by
  unfold advance at h
  split at h
  · split at h
    · obtain rfl := Option.some.inj h
      exact .leaveLoop ‹_› ‹_›
    · rename_i hno
      rw [not_or, Bool.not_eq_true] at hno
      obtain rfl := Option.some.inj h
      exact .connectNext ‹_› hno.1 hno.2
  · obtain rfl := Option.some.inj h
    exact .connectResumed ‹_›
  · unfold closeFd at h
    split at h
    · cases h
    · obtain rfl := Option.some.inj h
      exact .closeFd (by omega) (.inl ⟨_, ‹_›, rfl⟩)
  · obtain rfl := Option.some.inj h
    exact .connectFailed ‹_›
  · obtain rfl := Option.some.inj h
    exact .connected ‹_›
  · obtain rfl := Option.some.inj h
    exact .checkOutput ‹_› ‹_›
  · obtain ⟨session, hsession, rfl⟩ := Option.map_eq_some_iff.mp h
    exact @Moves.advance settings s .output session (by rename_i hpc _; rw [hpc]; rfl) hsession
  · obtain rfl := Option.some.inj h
    exact .find ‹_›
  · obtain rfl := Option.some.inj h
    exact .checkInput ‹_› ‹_›
  · obtain ⟨session, hsession, rfl⟩ := Option.map_eq_some_iff.mp h
    exact @Moves.advance settings s .input session (by rename_i hpc _; rw [hpc]; rfl) hsession
  · obtain rfl := Option.some.inj h
    exact .executed ‹_› ‹_›
  · obtain ⟨session, hsession, rfl⟩ := Option.map_eq_some_iff.mp h
    exact @Moves.advance settings s .execute session (by rename_i hpc _; rw [hpc]; rfl) hsession
  · unfold closeFd at h
    split at h
    · cases h
    · obtain rfl := Option.some.inj h
      exact .closeFd (by omega) (.inr ⟨‹_›, rfl⟩)
  · cases h

theorem connect_moves {settings : Settings} {s t : State} {result : ConnectResult}
    (h : connect settings s result = some t) : Moves settings s (.connect result) t := by
  unfold connect at h
  split at h
  · rename_i hpc
    split at h
    · cases h
    split at h
    · obtain rfl := Option.some.inj h
      exact .connectDone (.inl hpc) (.inl rfl)
    split at h
    · obtain rfl := Option.some.inj h
      exact .connectError _ (.inl hpc)
    · rename_i hno
      rw [not_or, Bool.not_eq_true] at hno
      obtain rfl := Option.some.inj h
      exact .connectWaits _ hpc hno.1
  · obtain rfl := Option.some.inj h
    exact .connectDone (.inr ‹_›) (.inl rfl)
  · split at h
    · rename_i hconn
      obtain rfl := Option.some.inj h
      exact .connectDone (.inr ‹_›) (.inr (congrArg ConnectResult.failed hconn))
    · obtain rfl := Option.some.inj h
      exact .connectError _ (.inr ‹_›)
  · cases h

theorem socket_moves {settings : Settings} {s t : State} {fd : Int} {errno : Errno}
    (h : socket settings s fd errno = some t) : Moves settings s (.socket fd errno) t := by
  simp only [socket, Option.bind_eq_bind, Option.bind_eq_some_iff] at h
  obtain ⟨descriptors, hdescriptors, h⟩ := h
  split at h
  · obtain rfl := Option.some.inj h
    exact @Moves.resetSocket settings s fd errno true descriptors ‹_› hdescriptors
  · obtain rfl := Option.some.inj h
    exact @Moves.resetSocket settings s fd errno false descriptors ‹_› hdescriptors
  · obtain rfl := Option.some.inj h
    exact .errSocket ‹_› hdescriptors
  · cases h

theorem timer_moves {settings : Settings} {s t : State} {i : Timer.Input Event}
    (h : timerStep settings s i = some t) : Moves settings s (.timer i) t := by
  simp only [timerStep, Option.bind_eq_bind, Option.bind_eq_some_iff] at h
  obtain ⟨timer, htimer, h⟩ := h
  split at h
  · obtain rfl := Option.some.inj h
    exact .timer nofun nofun htimer
  · obtain rfl := Option.some.inj h
    exact .timer nofun nofun htimer
  · rename_i n
    obtain rfl := Option.some.inj h
    exact .timer nofun (fun event hevent => ⟨n, (Timer.Input.del.inj hevent).symm⟩) htimer
  · obtain rfl := Option.some.inj h
    exact .timer nofun nofun htimer
  · split at h
    · obtain rfl := Option.some.inj h
      exact .timer nofun nofun htimer
    · cases h
  · split at h
    swap
    · cases h
    rename_i hquiet
    split at h
    swap
    · cases h
    rename_i event rest htasks
    obtain rfl : timer = {s.timer with tasks := rest} := by
      simp only [Timer.step, htasks] at htimer
      split at htimer
      · cases htimer
      · exact (Option.some.inj htimer).symm
    cases event with
    | other n =>
      obtain rfl := Option.some.inj h
      exact .fireOther htasks
    | rpc n =>
      simp only [fire] at h
      split at h
      swap
      · cases h
      rename_i hcall
      obtain ⟨hpc, rfl⟩ := hcall
      obtain rfl := Option.some.inj h
      exact .fireRpc htasks (hquiet.resolve_left hpc)
    | connect n =>
      simp only [fire] at h
      split at h
      swap
      · cases h
      rename_i hcall
      obtain ⟨hpc, rfl⟩ := hcall
      obtain rfl := Option.some.inj h
      exact .fireConnect htasks hpc
  · cases h

theorem outside_moves {settings : Settings} {s t : State} {i : Input} (hpc : s.pc = .idle)
    (h : outside settings s i = some t) : Moves settings s i t := by
  unfold outside at h
  split at h
  · obtain rfl := Option.some.inj h
    exact .call _ _ hpc
  · obtain rfl := Option.some.inj h
    exact .callResetFd hpc
  · obtain rfl := Option.some.inj h
    exact .setTimeout _ hpc
  · obtain ⟨r, -, rfl⟩ := Option.map_eq_some_iff.mp h
    exact .encode r.1 hpc
  · obtain rfl := Option.some.inj h
    exact .destroy hpc
  · cases h

/-- **What a step can do.** -/
theorem step_moves {settings : Settings} {s t : State} {i : Input} (h : step settings s i = some t) :
    Moves settings s i t := by
  unfold step at h
  split at h
  · exact timer_moves h
  · obtain ⟨descriptors, hdescriptors, rfl⟩ := Option.map_eq_some_iff.mp h
    exact .elsewhere hdescriptors
  split at h
  · cases h
  split at h
  · exact outside_moves ‹_› h
  split at h
  · exact advance_moves h
  · exact connect_moves h
  · split at h
    · obtain ⟨session, hsession, rfl⟩ := Option.map_eq_some_iff.mp h
      exact .read ‹_› hsession
    · cases h
  · split at h
    · obtain ⟨session, hsession, rfl⟩ := Option.map_eq_some_iff.mp h
      exact .write ‹_› hsession
    · cases h
  · exact socket_moves h
  · split at h
    · obtain rfl := Option.some.inj h
      exact .resume ‹_›
    · cases h
  · cases h

/-- In a call, while the timer is at rest. -/
theorem step_advance {settings : Settings} {s : State} (hquiet : s.timer.resetting = false) (hpc : s.pc ≠ .idle) :
    step settings s .advance = advance settings s := by
  show (if s.timer.resetting then none else if s.pc = .idle then _ else _) = _
  rw [hquiet, if_neg Bool.false_ne_true, if_neg hpc]

theorem resume_session {s : State} {pc : Session.Pc} (hne : s.pc ≠ .connectWait)
    (hstep : s.session.step noServer .resume = some (s.session.resume pc)) :
    s.session.canResume = false ∧ resume s = s ∨
      s.session.canResume = true ∧ ∃ session,
        s.session.step noServer .resume = some session ∧ resume s = {s with session} := by
  have hresume : resume s = {s with session := s.session.resume pc} := by
    rw [resume, if_neg hne, hstep]
    rfl
  cases hcan : s.session.canResume with
  | true => exact .inr ⟨rfl, _, hstep, hresume⟩
  | false =>
    refine .inl ⟨rfl, ?_⟩
    rw [hresume, Session.resume, if_neg (by simp [hcan])]

/-- What resuming the sleeping coroutine does: nothing, if it must not be resumed. -/
theorem resume_cases {s : State} (hasleep : isAsleep s = true) :
    s.session.canResume = false ∧ resume s = s ∨
    s.session.canResume = true ∧ s.pc = .connectWait ∧ resume s = {s with pc := .connectResumed} ∨
    s.session.canResume = true ∧ (s.pc = .output ∨ s.pc = .input) ∧ ∃ session,
      s.session.step noServer .resume = some session ∧ resume s = {s with session} := by
  have hsession : (s.pc = .output ∨ s.pc = .input) → ∀ pc,
      s.session.step noServer .resume = some (s.session.resume pc) →
      s.session.canResume = false ∧ resume s = s ∨
      s.session.canResume = true ∧ s.pc = .connectWait ∧ resume s = {s with pc := .connectResumed} ∨
      s.session.canResume = true ∧ (s.pc = .output ∨ s.pc = .input) ∧ ∃ session,
        s.session.step noServer .resume = some session ∧ resume s = {s with session} := by
    intro hpc pc hstep
    have hne : s.pc ≠ .connectWait := by
      rcases hpc with hpc | hpc <;> rw [hpc] <;> nofun
    rcases resume_session hne hstep with hcan | ⟨hcan, hresume⟩
    · exact .inl hcan
    · exact .inr (.inr ⟨hcan, hpc, hresume⟩)
  unfold isAsleep at hasleep
  split at hasleep
  · rename_i hpc
    rw [resume, if_pos hpc]
    cases hcan : s.session.canResume with
    | true => exact .inr (.inl ⟨rfl, hpc, rfl⟩)
    | false => exact .inl ⟨rfl, rfl⟩
  · rename_i n hpc hwait
    exact hsession (.inl hpc) (.writeAgain n) (by simp only [Session.step, hwait])
  · rename_i n hpc hwait
    exact hsession (.inr hpc) (.readAgain n) (by simp only [Session.step, hwait])
  · rename_i hpc hwait
    exact hsession (.inr hpc) (.returned .input) (by simp only [Session.step, hwait])
  · cases hasleep

/-! ### Where the session stands -/

/-- While the connection's functions run, the session stands in them; and whoever sleeps on the
close path must not be resumed. -/
structure Placed (s : State) : Prop where
  callee : ∀ callee ∈ s.pc.callee, s.session.pc.callee = callee
  hung : s.pc = .input → s.session.pc = .closeWait → s.session.canResume = false

/-- A session that stands in `input` does so in the call's place for it. -/
theorem Placed.input {s : State} (h : Placed s) (hpc : s.pc.callee ≠ none)
    (hcallee : s.session.pc.callee = .input) : s.pc = .input := by
  cases hp : s.pc with
  | input => rfl
  | output =>
    have := h.callee .output (by rw [hp]; rfl)
    rw [hcallee] at this
    cases this
  | execute =>
    have := h.callee .execute (by rw [hp]; rfl)
    rw [hcallee] at this
    cases this
  | _ => rw [hp] at hpc; exact absurd rfl hpc

/-- Outside the connection's functions there is nothing to say. -/
theorem placed_outside {s : State} (hpc : s.pc.callee = none) : Placed s where
  callee := by simp [hpc]
  hung hinput := by
    rw [hinput] at hpc
    cases hpc

theorem placed_enter (s : State) (callee : Callee) {pc : Pc} {start : Session.Pc}
    (hpc : pc.callee = some callee) (hstart : start.callee = callee) (hwait : start ≠ .closeWait) :
    Placed (enter s pc start) where
  callee c hc := by
    obtain rfl := Option.some.inj (hpc.symm.trans hc)
    exact hstart
  hung _ hc := absurd hc hwait

theorem Placed.sessionStep {s : State} {session : Session} {i : Session.Input} (h : Placed s)
    (hs : s.session.step noServer i = some session) : Placed {s with session} where
  callee c hc := (Session.step_frame hs).callee.trans (h.callee c hc)
  hung hinput := Session.step_closeWait (h.hung hinput) hs

theorem Placed.resume {s : State} (h : Placed s) (hasleep : isAsleep s = true) : Placed (resume s) := by
  rcases resume_cases hasleep with ⟨-, heq⟩ | ⟨-, -, heq⟩ | ⟨-, -, session, hs, heq⟩
  · rw [heq]
    exact h
  · rw [heq]
    exact placed_outside rfl
  · rw [heq]
    exact h.sessionStep hs

theorem placed_step {settings : Settings} {s t : State} {i : Input} (h : Placed s)
    (hs : step settings s i = some t) : Placed t := by
  cases step_moves hs with
  | timer => exact ⟨h.callee, h.hung⟩
  | fireOther => exact ⟨h.callee, h.hung⟩
  | @fireRpc rest htasks hasleep =>
    have hflag : Placed (setOverTimeFlag
        {s with timer := {s.timer with tasks := rest}, isTimeout := true} true) := ⟨h.callee, h.hung⟩
    exact hflag.resume hasleep
  | @fireConnect rest htasks hpc =>
    have hflag : Placed {s with timer := {s.timer with tasks := rest}, connectTimeout := true} :=
      ⟨h.callee, h.hung⟩
    exact hflag.resume (asleep_of_connectWait hpc)
  | elsewhere => exact ⟨h.callee, h.hung⟩
  | call => exact placed_outside rfl
  | callResetFd => exact placed_outside rfl
  | setTimeout => exact ⟨h.callee, h.hung⟩
  | encode => exact ⟨h.callee, h.hung⟩
  | destroy => exact placed_outside rfl
  | leaveLoop => exact placed_outside rfl
  | connectNext => exact placed_outside rfl
  | connectResumed => exact placed_outside rfl
  | closeFd hfd hpc =>
    rcases hpc with ⟨inCall, -, rfl⟩ | ⟨-, rfl⟩
    · exact placed_outside rfl
    · exact placed_outside rfl
  | connectFailed =>
    unfold connectFailed
    split
    · exact placed_outside rfl
    split
    · exact placed_outside rfl
    split <;> exact placed_outside rfl
  | connected =>
    unfold connected
    split
    · exact placed_outside rfl
    · exact placed_enter _ .output rfl rfl nofun
  | checkOutput =>
    unfold checkOutput
    split <;> exact placed_outside rfl
  | find =>
    unfold find
    split
    · exact placed_outside rfl
    · exact placed_enter _ .input rfl rfl nofun
  | checkInput =>
    unfold checkInput
    split
    · exact placed_outside rfl
    split
    · exact placed_outside rfl
    · exact placed_enter _ .execute rfl rfl nofun
  | executed => exact placed_outside rfl
  | advance hpc hsession => exact h.sessionStep hsession
  | read hpc hsession => exact h.sessionStep hsession
  | write hpc hsession => exact h.sessionStep hsession
  | connectDone => exact placed_outside rfl
  | connectError => exact placed_outside rfl
  | connectWaits => exact placed_outside rfl
  | @resetSocket fd errno inCall =>
    apply placed_outside
    cases inCall <;> rfl
  | errSocket =>
    unfold failed
    split <;> exact placed_outside rfl
  | resume hasleep => exact h.resume hasleep

theorem placed_initial (settings : Settings) (fd : Int) : Placed (initial settings fd) :=
  placed_outside rfl

end Client

end CoroutineRpc.Net.Tcp
