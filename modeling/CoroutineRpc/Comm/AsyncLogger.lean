import CoroutineRpc.Text
import Mathlib.Logic.Function.Basic

/-! `AsyncLogger`: a queue of batches and the thread that writes them to the log files.

Each section under the mutex is one step, and so is each call for a file by the worker, each
turn of its loops, and each half of `stop`. Who waits for a condition has no step before it
holds. A stream holds back what it was given until it is flushed, or gives some of it to the
file before. Files can be opened and written; the date is an input, since it is read from
the clock. Messages are of any type that has a text. -/
namespace CoroutineRpc.Comm

inductive LogType where
  | rpcLog
  | appLog
deriving DecidableEq

def logTypeToString : LogType → Bytes
  | .appLog => ascii "app"
  | .rpcLog => ascii "rpc"

namespace AsyncLogger

/-- The members that the constructor sets, and the text of a message. -/
structure Settings (μ : Type) where
  fileName : Bytes
  filePath : Bytes
  maxSize : Nat
  logType : LogType
  text : μ → Bytes

/-- A file that is open, and what its stream still holds. -/
structure Stream where
  name : Bytes
  held : Bytes

/-- Where the worker stands in `execute`, with what is left of its task. -/
inductive Pc (μ : Type) where
  /-- In front of the section that takes a task. -/
  | take
  /-- At the head of the loop over the task. -/
  | next (rest : List μ)
  /-- At the head of the loop of `openLogFile`, which `rotateIfNeeded` calls too. -/
  | openLogFile (rotating : Bool) (message : μ) (rest : List μ)
  | rotateIfNeeded (message : μ) (rest : List μ)
  | write (message : μ) (rest : List μ)
  /-- Behind the loop over the task. -/
  | flushTask
  /-- In front of the section behind a task. -/
  | finish
  /-- Behind the outer loop. -/
  | flushLast
  | leave
  | done

/-- Where the thread stands that called `stop`. -/
inductive Stopper where
  | idle
  | join
  | closeFile
  | returned
deriving DecidableEq

/-- The members, the files, and two histories: the batches that were accepted, and the messages
that were written, each with its file. -/
structure State (μ : Type) where
  fileNo : Int := 0
  fileHandle : Option Stream := none
  fileSize : Nat := 0
  date : Bytes := []
  tasks : List (List μ) := []
  stopping : Bool := false
  writing : Bool := false
  pc : Pc μ := .take
  stopper : Stopper := .idle
  files : Bytes → Bytes
  accepted : List (List μ) := []
  written : List (Bytes × μ) := []

inductive Input (μ : Type) where
  | push (buffer : List μ)
  /-- The section of `flush`. -/
  | flush
  /-- The first section of `stop`. -/
  | stop
  /-- What `stop` does then. -/
  | stopper
  | worker (date : Bytes)
  /-- The stream gives so many bytes to its file. -/
  | spill (n : Nat)

variable {μ : Type} (settings : Settings μ)

/-! ### Files -/

def makeFileName (s : State μ) : Bytes :=
  settings.filePath ++ settings.fileName ++ ascii "_" ++ s.date ++ ascii "_" ++
    logTypeToString settings.logType ++ ascii "_" ++ decimal s.fileNo ++ ascii ".log"

/-- The first `n` bytes that a stream holds go to its file. -/
def spill (s : State μ) (n : Nat) : State μ :=
  match s.fileHandle with
  | none => s
  | some stream =>
    {s with
      files := Function.update s.files stream.name (s.files stream.name ++ stream.held.take n)
      fileHandle := some {stream with held := stream.held.drop n}}

def fflush (s : State μ) : State μ :=
  match s.fileHandle with
  | none => s
  | some stream => spill s stream.held.length

def closeFile (s : State μ) : State μ := {fflush s with fileHandle := none, fileSize := 0}

/-! ### `execute` -/

/-- The section that takes a task, or ends the outer loop. -/
def take (s : State μ) : Option (State μ) :=
  match s.tasks with
  | task :: rest => some {s with tasks := rest, writing := true, pc := .next task}
  | [] => if s.stopping then some {s with pc := .flushLast} else none

/-- `openLogFile` goes over to the files of another date. -/
def changeDate (s : State μ) (date : Bytes) : State μ :=
  if date = s.date then s else {closeFile s with date, fileNo := 0}

/-- And looks for a file, unless one is open. -/
def findLogFile (s : State μ) (message : μ) (rest : List μ) : State μ :=
  match s.fileHandle with
  | some _ => {s with pc := .rotateIfNeeded message rest}
  | none => {s with pc := .openLogFile false message rest}

/-- At the head of the loop over the task. -/
def nextMessage (s : State μ) (date : Bytes) : List μ → State μ
  | [] => {s with pc := .flushTask}
  | message :: rest =>
    if settings.text message = [] then {s with pc := .next rest}
    else findLogFile (changeDate s date) message rest

/-- One turn of the loop of `openLogFile`. -/
def openLogFile (s : State μ) (rotating : Bool) (message : μ) (rest : List μ) : Option (State μ) := do
  let name := makeFileName settings s
  let size := (s.files name).length
  if settings.maxSize = 0 ∨ size < settings.maxSize then
    pure {s with
      fileHandle := some ⟨name, []⟩
      fileSize := size
      pc := if rotating then .write message rest else .rotateIfNeeded message rest}
  else
    let fileNo ← int (s.fileNo + 1)
    pure {s with fileNo, fileHandle := none, fileSize := 0}

def rotateIfNeeded (s : State μ) (message : μ) (rest : List μ) : Option (State μ) := do
  let incomingSize := (settings.text message).length
  if settings.maxSize = 0 ∨ s.fileSize = 0 ∨ s.fileSize + incomingSize ≤ settings.maxSize then
    pure {s with pc := .write message rest}
  else
    let fileNo ← int (s.fileNo + 1)
    pure {closeFile s with fileNo, pc := .openLogFile true message rest}

def fwrite (s : State μ) (message : μ) (rest : List μ) : Option (State μ) :=
  s.fileHandle.map fun stream =>
    {s with
      fileHandle := some {stream with held := stream.held ++ settings.text message}
      fileSize := s.fileSize + (settings.text message).length
      written := s.written ++ [(stream.name, message)]
      pc := .next rest}

def execute (s : State μ) (date : Bytes) : Option (State μ) :=
  match s.pc with
  | .take => take s
  | .next rest => some (nextMessage settings s date rest)
  | .openLogFile rotating message rest => openLogFile settings s rotating message rest
  | .rotateIfNeeded message rest => rotateIfNeeded settings s message rest
  | .write message rest => fwrite settings s message rest
  | .flushTask => some {fflush s with pc := .finish}
  | .finish => some {s with writing := false, pc := .take}
  | .flushLast => some {fflush s with pc := .leave}
  | .leave => some {s with writing := false, pc := .done}
  | .done => none

/-! ### The calls -/

def push (s : State μ) (buffer : List μ) : State μ :=
  match buffer with
  | [] => s
  | _ => if s.stopping then s else {s with tasks := s.tasks ++ [buffer], accepted := s.accepted ++ [buffer]}

def flush (s : State μ) : Option (State μ) :=
  match s.tasks, s.writing with
  | [], false => some (fflush s)
  | _, _ => none

/-- Two threads must not join the worker. -/
def stop (s : State μ) : Option (State μ) :=
  match s.stopper with
  | .idle => some {s with stopping := true, stopper := .join}
  | .returned => some s
  | _ => none

def stopper (s : State μ) : Option (State μ) :=
  match s.stopper, s.pc with
  | .join, .done => some {s with stopper := .closeFile}
  | .closeFile, _ => some {closeFile s with stopper := .returned}
  | _, _ => none

def step (s : State μ) : Input μ → Option (State μ)
  | .push buffer => some (push s buffer)
  | .flush => flush s
  | .stop => stop s
  | .stopper => stopper s
  | .worker date => execute settings s date
  | .spill n => some (spill s n)

/-- The logger that was made over the given files. -/
def initial (files : Bytes → Bytes) : State μ := {files}

end AsyncLogger

end CoroutineRpc.Comm
