import CoroutineRpc.Library.Transition
import Mathlib.Logic.Function.Basic

/-! `RpcAsyncChannel`: a call that another coroutine makes, on another IO thread.

`CallMethod` obtains a coroutine and lets some thread resume it. Inside it `rpc_task` calls the
inner channel and posts a task to the thread it is on by then; that task posts the completion to
the thread of the origin coroutine. Whoever has yet to touch the channel has a reference to it,
and the last one to go returns the coroutine to the pool. An access to the channel, a call of
`addTask` and the end of a reference are one step each; a step of one thread may come between
any two of another. What the inner channel sends and receives is left out, and so are the
controller, the messages and the log. -/
namespace CoroutineRpc.Rpc.RpcAsyncChannel

/-- What the reactors run for a call, the `k`-th of a channel. -/
inductive Task where
  /-- Somebody else's. -/
  | other
  /-- `Resume` of the coroutine, posted by `addCoroutine`. -/
  | resume (k : Nat)
  | postToOrigin (k : Nat)
  | completion (k : Nat)
deriving DecidableEq

/-- Where the main coroutine of a thread is: at the head of its loop over the tasks, or inside a
task of a channel. -/
inductive Main where
  | loop
  | postToOrigin (k : Nat)
  /-- Behind `addTask`. -/
  | posted
  /-- Behind `self.reset()`. The lambda that was copied is left. -/
  | leaving
  | completion
  | finished
  /-- Behind the closure. -/
  | ran
  /-- Behind `Resume`. -/
  | resumed
deriving DecidableEq

/-- The coroutine that a thread runs. -/
inductive Current where
  | main
  | origin
  | pending (k : Nat)
deriving DecidableEq

/-- An `IOThread` and its reactor. -/
structure IOThread where
  tasks : List Task := []
  main : Main := .loop
  current : Current := .main
deriving DecidableEq

/-- Where the coroutine of a call is. -/
inductive Pending (τ : Type) where
  | created
  /-- In the inner `CallMethod`, on a thread. -/
  | calling (t : τ)
  /-- In the inner `CallMethod`, asleep. -/
  | yielded
  /-- Behind `addTask`. -/
  | posted (t : τ)
  /-- Behind `self.reset()`. The lambda that was copied is left. -/
  | reset (t : τ)
  | returned (t : τ)
  /-- Behind its callback, where `m_is_in_cofunc` is unset, but for the `Yield` of `CoFunction`. -/
  | left (t : τ)
  | gone
deriving DecidableEq

/-- Where the origin coroutine is. -/
inductive Origin (τ : Type) where
  | running (t : τ)
  /-- In `CallMethod`, before `pending_coroutine_` is set. -/
  | calling (t : τ)
  /-- In `wait`, behind `need_resume_`. -/
  | asking (t : τ)
  /-- In `wait`, behind the test of `finished_`. -/
  | yielding (t : τ)
  /-- Suspended in `wait`. -/
  | waiting
  /-- Suspended elsewhere, or at its end. -/
  | away
deriving DecidableEq

/-- A channel and those who use it. `refs` is its `use_count`, to which the locals of `CallMethod` do
not add: its caller has a reference until it returns. The origin coroutine is not a main coroutine. -/
structure State (τ : Type) where
  prepared : Bool := false
  /-- `closure_` is not null. -/
  closure : Bool := false
  finished : Bool := false
  needResume : Bool := false
  pendingCoroutine : Option Nat := none
  refs : Nat := 1
  /-- The origin coroutine has its reference. -/
  held : Bool := true
  origin : Origin τ
  threads : τ → IOThread
  calls : List (Pending τ) := []
  /-- The threads that completions have run on. -/
  completions : List τ := []
  closureRuns : Nat := 0
  /-- For each `Resume` of the origin coroutine, whether it was suspended in `wait`. -/
  resumes : List Bool := []
  /-- How many calls of `wait` have returned. -/
  waits : Nat := 0
  /-- For each coroutine that was returned, where it was. -/
  returned : List (Pending τ) := []
  /-- The origin coroutine has not yielded since it called `CallMethod`, but in `wait`. -/
  stayed : Bool := false

inductive Input (τ : Type) where
  /-- The controller and the messages are there, or not; so is the closure. -/
  | saveCallee (prepared closure : Bool)
  /-- The checks that `CallMethod` makes beside `prepared_` come out as `checks`, and `t` is the random
  thread. -/
  | callMethod (checks : Bool) (t : τ)
  | wait
  /-- The origin coroutine goes on inside `CallMethod` or `wait`. -/
  | advance
  /-- The origin coroutine lets go of the channel. -/
  | drop
  /-- The origin coroutine yields elsewhere, or ends. -/
  | yield
  /-- Somebody else resumes the origin coroutine. -/
  | resumeOrigin (t : τ)
  /-- Somebody else posts a task. -/
  | addTask (t : τ)
  /-- A reactor takes its next task. -/
  | loop (t : τ)
  /-- A reactor goes on inside a task. -/
  | main (t : τ)
  /-- The coroutine of a call goes on. -/
  | pending (k : Nat)
  /-- The inner `CallMethod` yields, and is resumed. -/
  | yieldPending (k : Nat)
  | resumePending (k : Nat) (t : τ)
deriving DecidableEq

section
variable {τ : Type}

/-- The channel is made by a coroutine that runs on `home`. -/
def initial [DecidableEq τ] (home : τ) : State τ :=
  {origin := .running home, threads := Function.update (fun _ => {}) home {current := .origin}}

/-- A reference goes. `~RpcAsyncChannel` returns the coroutine that is pending. -/
def release (s : State τ) : State τ :=
  if s.refs = 1 then
    let pending := s.pendingCoroutine.bind fun k => s.calls[k]?
    {s with refs := 0, returned := s.returned ++ pending.toList}
  else {s with refs := s.refs - 1}

variable [DecidableEq τ]

def setThread (s : State τ) (t : τ) (f : IOThread → IOThread) : State τ :=
  {s with threads := Function.update s.threads t (f (s.threads t))}

def addTask (s : State τ) (t : τ) (task : Task) : State τ :=
  setThread s t fun thread => {thread with tasks := thread.tasks ++ [task]}

def setCurrent (s : State τ) (t : τ) (current : Current) : State τ :=
  setThread s t fun thread => {thread with current}

def setMain (s : State τ) (t : τ) (main : Main) : State τ :=
  setThread s t fun thread => {thread with main}

def setPending (s : State τ) (k : Nat) (pending : Pending τ) : State τ :=
  {s with calls := s.calls.set k pending}

/-- `setCallError` sets `finished_`. -/
def callMethod (s : State τ) (checks : Bool) (t : τ) : Option (State τ) :=
  match s.origin, s.held with
  | .running here, true =>
    if ¬ s.prepared ∨ ¬ checks then some {s with finished := true}
    else some (addTask {s with
      origin := .calling here, stayed := true, calls := s.calls ++ [.created], refs := s.refs + 1}
      t (.resume s.calls.length))
  | _, _ => none

def wait (s : State τ) : Option (State τ) :=
  match s.origin, s.held with
  | .running here, true => some {s with needResume := true, origin := .asking here}
  | _, _ => none

/-- The rest of `CallMethod`, and of `wait`. -/
def advance (s : State τ) : Option (State τ) :=
  match s.origin with
  | .calling here => some {s with pendingCoroutine := some (s.calls.length - 1), origin := .running here}
  | .asking here =>
    if s.finished then some {s with origin := .running here, waits := s.waits + 1}
    else some {s with origin := .yielding here}
  | .yielding here => some (setCurrent {s with origin := .waiting} here .main)
  | _ => none

/-- `Resume` of the origin coroutine; what becomes of one that is not suspended is left out. -/
def resumeOrigin (s : State τ) (t : τ) : State τ :=
  match s.origin with
  | .waiting =>
    setCurrent {s with origin := .running t, resumes := s.resumes ++ [true], waits := s.waits + 1} t .origin
  | .away => setCurrent {s with origin := .running t, resumes := s.resumes ++ [false]} t .origin
  | _ => {s with resumes := s.resumes ++ [false]}

/-- The next of the tasks. -/
def loop (s : State τ) (t : τ) : Option (State τ) :=
  match s.threads t with
  | ⟨task :: tasks, .loop, .main⟩ =>
    let s := setThread s t fun thread => {thread with tasks}
    match task with
    | .other => some s
    | .resume k => some (setCurrent (setPending s k (.calling t)) t (.pending k))
    | .postToOrigin k => some (setMain s t (.postToOrigin k))
    | .completion _ => some (setMain s t .completion)
  | _ => none

/-- `post_to_origin` and `completion`. -/
def main (home : τ) (s : State τ) (t : τ) : Option (State τ) :=
  match s.threads t with
  | ⟨_, main, .main⟩ =>
    match main with
    | .loop => none
    | .postToOrigin k =>
      some (setMain (addTask {s with refs := s.refs + 2} home (.completion k)) t .posted)
    | .posted => some (setMain (release s) t .leaving)
    | .leaving => some (setMain (release s) t .loop)
    | .completion =>
      some (setMain {s with finished := true, completions := s.completions ++ [t]} t .finished)
    | .finished =>
      some (setMain {s with closureRuns := if s.closure then s.closureRuns + 1 else s.closureRuns} t .ran)
    | .ran =>
      let s := setMain s t .resumed
      some (if s.needResume then resumeOrigin s t else s)
    | .resumed => some (setMain (release s) t .loop)
  | _ => none

/-- `rpc_task` behind the inner call, and the rest of `CoFunction`. -/
def pending (s : State τ) (k : Nat) : Option (State τ) := do
  match ← s.calls[k]? with
  | .calling t => some (setPending (addTask {s with refs := s.refs + 2} t (.postToOrigin k)) k (.posted t))
  | .posted t => some (setPending (release s) k (.reset t))
  | .reset t => some (setPending (release s) k (.returned t))
  | .returned t => some (setPending s k (.left t))
  | .left t => some (setCurrent (setPending s k .gone) t .main)
  | .created | .yielded | .gone => none

def step (home : τ) (s : State τ) : Input τ → Option (State τ)
  | .saveCallee prepared closure =>
    match s.origin, s.held with
    | .running _, true => some {s with prepared, closure}
    | _, _ => none
  | .callMethod checks t => callMethod s checks t
  | .wait => wait s
  | .advance => advance s
  | .drop =>
    match s.origin, s.held with
    | .running _, true => some (release {s with held := false})
    | _, _ => none
  | .yield =>
    match s.origin with
    | .running here => some (setCurrent {s with origin := .away, stayed := false} here .main)
    | _ => none
  | .resumeOrigin t =>
    match s.origin, s.threads t with
    | .away, ⟨_, .loop, .main⟩ => some (setCurrent {s with origin := .running t} t .origin)
    | _, _ => none
  | .addTask t => some (addTask s t .other)
  | .loop t => loop s t
  | .main t => main home s t
  | .pending k => pending s k
  | .yieldPending k =>
    match s.calls[k]? with
    | some (.calling t) => some (setCurrent (setPending s k .yielded) t .main)
    | _ => none
  | .resumePending k t =>
    match s.calls[k]?, s.threads t with
    | some .yielded, ⟨_, .loop, .main⟩ => some (setCurrent (setPending s k (.calling t)) t (.pending k))
    | _, _ => none

end

end CoroutineRpc.Rpc.RpcAsyncChannel
