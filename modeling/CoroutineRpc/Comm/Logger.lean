import CoroutineRpc.Comm.AsyncLogger

/-! `Logger`: messages on their way from the threads that push them to the two `AsyncLogger`s.

A thread that pushes tests two flags and appends to a buffer. The thread of `syncLoop`, those
that call `flush` and the one that calls `shutdown` take what is in the buffers and hand it over,
each by `dispatchBuffers`: between its sections the messages are in its local vectors only. Each
test and each section is one step. The logger has been initialized, and is shut down once. The
two `AsyncLogger`s write to files of different names, so each has files of its own here. -/
namespace CoroutineRpc.Comm

namespace Logger

/-- A message with the thread that pushed it and its place among all that were appended to its
log; the code has the text only. -/
structure Message where
  producer : Nat
  index : Nat
  text : Bytes
deriving DecidableEq

/-- What is configured. -/
structure Config where
  logPath : Bytes
  logPrefix : Bytes
  logMaxFileSize : Nat

def asyncSettings (config : Config) (type : LogType) : AsyncLogger.Settings Message :=
  ⟨config.logPrefix, config.logPath, config.logMaxFileSize, type, Message.text⟩

/-- Where a thread stands in `pushRpcLog` or `pushAppLog`. -/
inductive Producer where
  | idle
  /-- Behind the test of `m_initialized`. -/
  | initialized (type : LogType) (logMsg : Bytes)
  /-- Behind both tests. -/
  | append (type : LogType) (logMsg : Bytes)
deriving DecidableEq

/-- The threads that dispatch. -/
inductive Thread where
  | sync
  | flush (n : Nat)
  | shutdown
deriving DecidableEq

/-- Where such a thread stands. `returned` is behind the call, or behind `syncLoop`. -/
inductive Pc where
  | idle
  | join
  | swap (type : LogType)
  | push (type : LogType)
  | wait (type : LogType)
  | stop (type : LogType)
  | stopping (type : LogType)
  | reset
  | returned
deriving DecidableEq

/-- A thread's local vectors, and how many messages each log had been given when its call began. -/
structure Dispatcher where
  pc : Pc := .idle
  held : LogType → List Message := fun _ => []
  since : LogType → Nat := fun _ => 0

/-- `alive` says that the pointers to the `AsyncLogger`s are not null; `appended` is the history of
each buffer. -/
structure State where
  initialized : Bool := true
  stopping : Bool := false
  alive : Bool := true
  buffer : LogType → List Message := fun _ => []
  async : LogType → AsyncLogger.State Message
  producers : Nat → Producer := fun _ => .idle
  threads : Thread → Dispatcher := fun _ => {}
  appended : LogType → List Message := fun _ => []

inductive Input where
  /-- `pushRpcLog` or `pushAppLog` is called. -/
  | pushLog (producer : Nat) (type : LogType) (logMsg : Bytes)
  | producer (n : Nat)
  /-- `flush` is called. -/
  | flush (n : Nat)
  | shutdown
  | thread (t : Thread)
  | worker (type : LogType) (date : Bytes)
  | spill (type : LogType) (n : Nat)
deriving DecidableEq

/-! ### `pushRpcLog` and `pushAppLog` -/

def State.setProducer (s : State) (n : Nat) (producer : Producer) : State :=
  {s with producers := Function.update s.producers n producer}

/-- The first test. -/
def pushLog (s : State) (n : Nat) (type : LogType) (logMsg : Bytes) : State :=
  if s.initialized then s.setProducer n (.initialized type logMsg) else s

/-- The section under the mutex of the buffer. -/
def append (s : State) (n : Nat) (type : LogType) (logMsg : Bytes) : State :=
  let message := ⟨n, (s.appended type).length, logMsg⟩
  {s.setProducer n .idle with
    buffer := Function.update s.buffer type (s.buffer type ++ [message])
    appended := Function.update s.appended type (s.appended type ++ [message])}

def pushOn (s : State) (n : Nat) : Option State :=
  match s.producers n with
  | .idle => none
  | .initialized type logMsg => some (s.setProducer n (if s.stopping then .idle else .append type logMsg))
  | .append type logMsg => some (append s n type logMsg)

/-! ### `dispatchBuffers`, and the calls around it -/

def State.setThread (s : State) (t : Thread) (d : Dispatcher) : State :=
  {s with threads := Function.update s.threads t d}

def State.goTo (s : State) (t : Thread) (pc : Pc) : State := s.setThread t {s.threads t with pc}

def afterSwap : LogType → Pc
  | .rpcLog => .swap .appLog
  | .appLog => .push .rpcLog

/-- Behind a hand-over, and behind `dispatchBuffers`. -/
def afterPush (t : Thread) : LogType → Pc
  | .rpcLog => .push .appLog
  | .appLog =>
    match t with
    | .sync => .idle
    | .flush _ => .wait .rpcLog
    | .shutdown => .stop .rpcLog

def afterWait : LogType → Pc
  | .rpcLog => .wait .appLog
  | .appLog => .returned

def afterStop : LogType → Pc
  | .rpcLog => .stop .appLog
  | .appLog => .reset

/-- The section under the mutex of the buffer: it and the local vector, which is empty, are
swapped. -/
def swap (s : State) (t : Thread) (type : LogType) : State :=
  let d := s.threads t
  {s.setThread t {d with pc := afterSwap type, held := Function.update d.held type (s.buffer type)} with
    buffer := Function.update s.buffer type (d.held type)}

def State.setAsync (s : State) (type : LogType) (async : AsyncLogger.State Message) : State :=
  {s with async := Function.update s.async type async}

/-- `AsyncLogger::push` takes the local vector, accepted or not; without the logger it is given up. -/
def push (s : State) (t : Thread) (type : LogType) : State :=
  let d := s.threads t
  let async := if s.alive then AsyncLogger.push (s.async type) (d.held type) else s.async type
  (s.setAsync type async).setThread t {d with pc := afterPush t type, held := Function.update d.held type []}

/-- `AsyncLogger::flush`. -/
def wait (s : State) (t : Thread) (type : LogType) : Option State :=
  if s.alive then
    (AsyncLogger.flush (s.async type)).map fun async => (s.setAsync type async).goTo t (afterWait type)
  else some (s.goTo t (afterWait type))

/-- The rest of `AsyncLogger::stop`, and its return. -/
def stopping (s : State) (t : Thread) (type : LogType) : Option State :=
  if (s.async type).stopper = .returned then some (s.goTo t (afterStop type))
  else (AsyncLogger.stopper (s.async type)).map fun async => s.setAsync type async

/-- The last section of `shutdown`. -/
def reset (s : State) (t : Thread) : State :=
  {s.goTo t .returned with alive := false, initialized := false}

/-- `flush` is called; it returns at once when the logger is not initialized. -/
def flush (s : State) (n : Nat) : Option State :=
  let d := s.threads (.flush n)
  if d.pc = .idle ∨ d.pc = .returned then
    some (if s.initialized then
      s.setThread (.flush n) {d with pc := .swap .rpcLog, since := fun type => (s.appended type).length}
    else s)
  else none

/-- The first section of `shutdown`. -/
def shutdown (s : State) : Option State :=
  if (s.threads .shutdown).pc = .idle then
    some (if ¬ s.initialized ∨ s.stopping then s else {s.goTo .shutdown .join with stopping := true})
  else none

def goOn (s : State) (t : Thread) : Option State :=
  match (s.threads t).pc with
  | .idle =>
    -- `syncLoop`, whose wait is over
    if t = .sync then some (s.goTo t (if s.stopping then .returned else .swap .rpcLog)) else none
  | .join => if (s.threads .sync).pc = .returned then some (s.goTo t (.swap .rpcLog)) else none
  | .swap type => some (swap s t type)
  | .push type => some (push s t type)
  | .wait type => wait s t type
  | .stop type =>
    (AsyncLogger.stop (s.async type)).map fun async => (s.setAsync type async).goTo t (.stopping type)
  | .stopping type => stopping s t type
  | .reset => some (reset s t)
  | .returned => none

def step (config : Config) (s : State) : Input → Option State
  | .pushLog n type logMsg => if s.producers n = .idle then some (pushLog s n type logMsg) else none
  | .producer n => pushOn s n
  | .flush n => flush s n
  | .shutdown => shutdown s
  | .thread t => goOn s t
  | .worker type date =>
    (AsyncLogger.execute (asyncSettings config type) (s.async type) date).map fun async => s.setAsync type async
  | .spill type n => some (s.setAsync type (AsyncLogger.spill (s.async type) n))

/-- `init` has returned, over the given files. -/
def initial (files : LogType → Bytes → Bytes) : State := {async := fun type => AsyncLogger.initial (files type)}

/-! ### What a step can do -/

/-- A thread goes on, and nothing else happens. -/
inductive Goes (s : State) (t : Thread) : Pc → Prop where
  | leave (ht : t = .sync) (hpc : (s.threads t).pc = .idle) (h : s.stopping = true) : Goes s t .returned
  | dispatch (ht : t = .sync) (hpc : (s.threads t).pc = .idle) (h : s.stopping = false) : Goes s t (.swap .rpcLog)
  | joined (hpc : (s.threads t).pc = .join) (h : (s.threads .sync).pc = .returned) : Goes s t (.swap .rpcLog)
  | noWait {type : LogType} (hpc : (s.threads t).pc = .wait type) (h : s.alive = false) : Goes s t (afterWait type)
  | stopped {type : LogType} (hpc : (s.threads t).pc = .stopping type)
      (h : (s.async type).stopper = .returned) : Goes s t (afterStop type)

/-- The steps, each with what it is taken under. -/
inductive Moves (config : Config) (s : State) : Input → State → Prop where
  | ignored {i : Input} : Moves config s i s
  | test {i : Input} {n : Nat} (producer : Producer)
      (hi : i = .producer n ∨ ∃ type logMsg, i = .pushLog n type logMsg)
      (h : ∀ type logMsg, producer = .append type logMsg → s.stopping = false) :
      Moves config s i (s.setProducer n producer)
  | append {n : Nat} {type : LogType} {logMsg : Bytes} (h : s.producers n = .append type logMsg) :
      Moves config s (.producer n) (append s n type logMsg)
  | flush {n : Nat} (hpc : (s.threads (.flush n)).pc = .idle ∨ (s.threads (.flush n)).pc = .returned) :
      Moves config s (.flush n) (s.setThread (.flush n)
        {s.threads (.flush n) with pc := .swap .rpcLog, since := fun type => (s.appended type).length})
  | shutdown (hpc : (s.threads .shutdown).pc = .idle) :
      Moves config s .shutdown {s.goTo .shutdown .join with stopping := true}
  | goes {t : Thread} {pc : Pc} (h : Goes s t pc) : Moves config s (.thread t) (s.goTo t pc)
  | swap {t : Thread} {type : LogType} (hpc : (s.threads t).pc = .swap type) :
      Moves config s (.thread t) (swap s t type)
  | push {t : Thread} {type : LogType} (hpc : (s.threads t).pc = .push type) :
      Moves config s (.thread t) (push s t type)
  | wait {t : Thread} {type : LogType} {async : AsyncLogger.State Message} (hpc : (s.threads t).pc = .wait type)
      (h : AsyncLogger.flush (s.async type) = some async) :
      Moves config s (.thread t) ((s.setAsync type async).goTo t (afterWait type))
  | stop {t : Thread} {type : LogType} {async : AsyncLogger.State Message} (hpc : (s.threads t).pc = .stop type)
      (h : AsyncLogger.stop (s.async type) = some async) :
      Moves config s (.thread t) ((s.setAsync type async).goTo t (.stopping type))
  | stopper {t : Thread} {type : LogType} {async : AsyncLogger.State Message}
      (hpc : (s.threads t).pc = .stopping type) (h : AsyncLogger.stopper (s.async type) = some async) :
      Moves config s (.thread t) (s.setAsync type async)
  | reset {t : Thread} (hpc : (s.threads t).pc = .reset) : Moves config s (.thread t) (reset s t)
  | worker {type : LogType} {date : Bytes} {async : AsyncLogger.State Message}
      (h : AsyncLogger.execute (asyncSettings config type) (s.async type) date = some async) :
      Moves config s (.worker type date) (s.setAsync type async)
  | spill (type : LogType) (n : Nat) :
      Moves config s (.spill type n) (s.setAsync type (AsyncLogger.spill (s.async type) n))

theorem goOn_moves {config : Config} {s u : State} {t : Thread} (h : goOn s t = some u) :
    Moves config s (.thread t) u := by
  unfold goOn at h
  split at h
  · rename_i hpc
    split at h
    · obtain rfl := Option.some.inj h
      cases hstopping : s.stopping with
      | true => exact .goes (.leave ‹_› hpc hstopping)
      | false => exact .goes (.dispatch ‹_› hpc hstopping)
    · cases h
  · rename_i hpc
    split at h
    · obtain rfl := Option.some.inj h
      exact .goes (.joined hpc ‹_›)
    · cases h
  · obtain rfl := Option.some.inj h
    exact .swap ‹_›
  · obtain rfl := Option.some.inj h
    exact .push ‹_›
  · rename_i hpc
    unfold wait at h
    split at h
    · obtain ⟨async, hasync, rfl⟩ := Option.map_eq_some_iff.mp h
      exact .wait hpc hasync
    · rename_i halive
      obtain rfl := Option.some.inj h
      exact .goes (.noWait hpc (Bool.not_eq_true _ ▸ halive))
  · obtain ⟨async, hasync, rfl⟩ := Option.map_eq_some_iff.mp h
    exact .stop ‹_› hasync
  · rename_i hpc
    unfold stopping at h
    split at h
    · obtain rfl := Option.some.inj h
      exact .goes (.stopped hpc ‹_›)
    · obtain ⟨async, hasync, rfl⟩ := Option.map_eq_some_iff.mp h
      exact .stopper hpc hasync
  · obtain rfl := Option.some.inj h
    exact .reset ‹_›
  · cases h

/-- **What a step can do.** -/
theorem step_moves {config : Config} {s u : State} {i : Input} (h : step config s i = some u) :
    Moves config s i u := by
  cases i with
  | pushLog n type logMsg =>
    simp only [step] at h
    split at h
    · obtain rfl := Option.some.inj h
      unfold pushLog
      split
      · exact .test _ (.inr ⟨type, logMsg, rfl⟩) nofun
      · exact .ignored
    · cases h
  | producer n =>
    simp only [step, pushOn] at h
    split at h
    · cases h
    · obtain rfl := Option.some.inj h
      refine .test _ (.inl rfl) fun type logMsg heq => ?_
      split at heq
      · cases heq
      · exact Bool.not_eq_true _ ▸ ‹_›
    · obtain rfl := Option.some.inj h
      exact .append ‹_›
  | flush n =>
    simp only [step, flush] at h
    split at h
    · obtain rfl := Option.some.inj h
      split
      · exact .flush ‹_›
      · exact .ignored
    · cases h
  | shutdown =>
    simp only [step, shutdown] at h
    split at h
    · obtain rfl := Option.some.inj h
      split
      · exact .ignored
      · exact .shutdown ‹_›
    · cases h
  | thread t => exact goOn_moves h
  | worker type date =>
    obtain ⟨async, hasync, rfl⟩ := Option.map_eq_some_iff.mp h
    exact .worker hasync
  | spill type n =>
    obtain rfl := Option.some.inj h
    exact .spill type n

end Logger

end CoroutineRpc.Comm
