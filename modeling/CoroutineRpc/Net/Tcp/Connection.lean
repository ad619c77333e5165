import CoroutineRpc.Library.Transition
import CoroutineRpc.Net.Descriptors
import CoroutineRpc.Net.Tcp.Closing
import CoroutineRpc.Rpc.Dispatch

/-! `TcpConnection`: `input`, `execute` and `output`, run by a coroutine.

A `Session` is a connection and where the coroutine stands that runs it. Each system
call and each resumption is one step, and so is each call of `decode`; what lies
between two of them is part of the step before. The kernel answers a read or a write
with anything the call allows. The coroutine sleeps where a hook or the close path
yields; in the main coroutine a hook is its system call, and yielding does nothing.
The time wheel and the log are left out. -/
namespace CoroutineRpc.Net.Tcp
open Rpc TcpBuffer Library.Transition

inductive ConnectionType where
  | serverConnection
  | clientConnection
deriving DecidableEq

/-- `replyDatas` is the map from request numbers to the replies that were decoded. -/
structure TcpConnection where
  fd : Int
  state : TcpConnectionState
  connectionType : ConnectionType
  readBuffer : TcpBuffer
  writeBuffer : TcpBuffer
  stop : Bool := false
  isOverTime : Bool := false
  replyDatas : Bytes → Option RpcStruct := fun _ => none

namespace TcpConnection

/-- The connection of a server to one of its peers. -/
def server (fd buffSize : Int) : TcpConnection :=
  ⟨fd, .connected, .serverConnection, make buffSize, make buffSize, false, false, fun _ => none⟩

/-- The connection of a client, not connected yet. -/
def client (fd buffSize : Int) : TcpConnection :=
  ⟨fd, .notConnected, .clientConnection, make buffSize, make buffSize, false, false, fun _ => none⟩

/-- The two accesses to `m_state` are one step here; `Closing` takes them apart. -/
def shutdownConnection (c : TcpConnection) : TcpConnection :=
  if c.state = .closed ∨ c.state = .notConnected then c else {c with state := .halfClosing}

/-- `std::map::insert` keeps what is there. -/
def insertReply (c : TcpConnection) (tmp : RpcStruct) : TcpConnection :=
  match c.replyDatas tmp.msgNo with
  | some _ => c
  | none => {c with replyDatas := Function.update c.replyDatas tmp.msgNo (some tmp)}

/-- A reply that is found is taken out. -/
def getResPackageData (c : TcpConnection) (msgNo : Bytes) : Option (RpcStruct × TcpConnection) :=
  (c.replyDatas msgNo).map fun pbStruct =>
    (pbStruct, {c with replyDatas := Function.update c.replyDatas msgNo none})

end TcpConnection

/-- The first lines of the loop in `input`: space to read into. -/
def TcpBuffer.makeRoom (b : TcpBuffer) : Option TcpBuffer := do
  if b.writeAble = 0 then b.resizeBuffer (← int (2 * b.buffer.length))
  else pure b

/-- The functions that `MainServerLoopCorFunc` and `sendAndRecv` call. -/
inductive Callee where
  | input
  | execute
  | output
deriving DecidableEq

inductive ReadResult where
  | data (bytes : Bytes)
  | eof
  | error
deriving DecidableEq

inductive WriteResult where
  | sent (n : Nat)
  /-- `write` returned zero or an error. -/
  | failed
deriving DecidableEq

namespace Session

/-- Where the coroutine stands. -/
inductive Pc where
  | input
  /-- The first read of `read_hook`. -/
  | read (readCount : Int)
  /-- Asleep in `read_hook`. -/
  | readWait (readCount : Int)
  /-- The second read of `read_hook`. -/
  | readAgain (readCount : Int)
  /-- Asleep on the close path of `input`. -/
  | closeWait
  /-- At the head of the loop of `execute`. -/
  | execute
  | output
  | write (totalSize : Int)
  | writeWait (totalSize : Int)
  | writeAgain (totalSize : Int)
  | returned (callee : Callee)
deriving DecidableEq

inductive Input where
  | advance
  | read (result : ReadResult)
  | write (result : WriteResult)
  /-- `Coroutine::Resume`, by the loop or by a timer. -/
  | resume
deriving DecidableEq

end Session

/-- `isMain` and `canResume` are those of the coroutine that runs the connection. -/
structure Session where
  connection : TcpConnection
  descriptors : Descriptors := {}
  isMain : Bool := false
  canResume : Bool := true
  pc : Session.Pc := .input

namespace Session

def returns (s : Session) (callee : Callee) : Session := {s with pc := .returned callee}

def setReadBuffer (s : Session) (readBuffer : TcpBuffer) : Session :=
  {s with connection := {s.connection with readBuffer}}

def setWriteBuffer (s : Session) (writeBuffer : TcpBuffer) : Session :=
  {s with connection := {s.connection with writeBuffer}}

/-- `Coroutine::Resume` refuses a coroutine that must not be resumed. -/
def resume (s : Session) (pc : Pc) : Session := if s.canResume then {s with pc} else s

/-! ### `input` -/

/-- From the head of the loop to the call of `read_hook`. -/
def nextRead (s : Session) : Option Session := do
  let readBuffer ← s.connection.readBuffer.makeRoom
  pure {s.setReadBuffer readBuffer with pc := .read readBuffer.writeAble}

def enterInput (s : Session) : Option Session :=
  if s.connection.isOverTime then some (s.returns .input)
  else if s.connection.state = .closed ∨ s.connection.state = .notConnected then some (s.returns .input)
  else s.nextRead

/-- The descriptor is the one of the connection's `FdEvent`. -/
def clearClient (s : Session) : Session :=
  if s.connection.state = .closed then s
  else
    {s with
      connection := {s.connection with stop := true, state := .closed}
      descriptors := s.descriptors.close s.connection.fd}

/-- Behind the loop, with `close_flag` set. The main coroutine does not yield. -/
def closePath (s : Session) : Session :=
  let s := {s.clearClient with canResume := false}
  if s.isMain then s.returns .input else {s with pc := .closeWait}

/-- `read_hook` returns to the loop. -/
def readReturns (s : Session) (readCount : Int) : ReadResult → Option Session
  | .data bytes => do
    if bytes = [] ∨ readCount < bytes.length then none
    else
      let readBuffer ← s.connection.readBuffer.received bytes
      let s := s.setReadBuffer readBuffer
      if s.connection.isOverTime then pure (s.returns .input)
      else if bytes.length = readCount then s.nextRead
      else pure (s.returns .input)
  | _ => if s.connection.isOverTime then some (s.returns .input) else some s.closePath

/-! ### `output` -/

/-- From the head of the loop to the call of `write_hook`. -/
def nextWrite (s : Session) : Session :=
  if s.connection.state ≠ .connected then s.returns .output
  else if s.connection.writeBuffer.readAble = 0 then s.returns .output
  else {s with pc := .write s.connection.writeBuffer.readAble}

def enterOutput (s : Session) : Session :=
  if s.connection.isOverTime then s.returns .output else s.nextWrite

/-- The loop after `write_hook`. -/
def written (s : Session) : Session :=
  if s.connection.writeBuffer.readAble ≤ 0 then s.returns .output
  else if s.connection.isOverTime then s.returns .output
  else s.nextWrite

def writeReturns (s : Session) (totalSize : Int) : WriteResult → Option Session
  | .sent n => do
    if n = 0 ∨ totalSize < n then none
    else
      let writeBuffer ← s.connection.writeBuffer.recycleRead n
      pure (s.setWriteBuffer writeBuffer).written
  | .failed => some s.written

section
-- what a server's dispatcher does with a request and the write buffer
variable (dispatch : RpcStruct → TcpBuffer → Option (TcpBuffer × RunTime))

/-- The body of the loop of `execute`, or its end. -/
def decodeNext (s : Session) : Option Session := do
  if s.connection.readBuffer.readAble > 0 then
    let out ← decode s.connection.readBuffer {}
    let s := s.setReadBuffer out.buf
    if ¬ out.data.decodeSucc then pure (s.returns .execute)
    else
      match s.connection.connectionType with
      | .serverConnection =>
        let (writeBuffer, _) ← dispatch out.data s.connection.writeBuffer
        pure (s.setWriteBuffer writeBuffer)
      | .clientConnection => pure {s with connection := s.connection.insertReply out.data}
  else pure (s.returns .execute)

def step (s : Session) (i : Input) : Option Session :=
  match s.pc, i with
  | .input, .advance => s.enterInput
  | .read readCount, .read result =>
    match s.isMain, result with
    | false, .eof => some {s with pc := .readWait readCount}
    | false, .error => some {s with pc := .readWait readCount}
    | _, result => s.readReturns readCount result
  | .readWait readCount, .resume => some (s.resume (.readAgain readCount))
  | .readAgain readCount, .read result => s.readReturns readCount result
  | .closeWait, .resume => some (s.resume (.returned .input))
  | .execute, .advance => s.decodeNext dispatch
  | .output, .advance => some s.enterOutput
  | .write totalSize, .write result =>
    match s.isMain, result with
    | false, .failed => some {s with pc := .writeWait totalSize}
    | _, result => s.writeReturns totalSize result
  | .writeWait totalSize, .resume => some (s.resume (.writeAgain totalSize))
  | .writeAgain totalSize, .write result => s.writeReturns totalSize result
  | _, _ => none

end

/-! ### What a step keeps -/

/-- The function that the coroutine is in. -/
def Pc.callee : Pc → Callee
  | .input | .read _ | .readWait _ | .readAgain _ | .closeWait => .input
  | .execute => .execute
  | .output | .write _ | .writeWait _ | .writeAgain _ => .output
  | .returned callee => callee

theorem step_decode {dispatch : RpcStruct → TcpBuffer → Option (TcpBuffer × RunTime)} {s : Session}
    (hp : s.pc = .execute) : s.step dispatch .advance = s.decodeNext dispatch := by
  simp only [Session.step, hp]

/-- What no step of the connection's functions changes. -/
structure Frame (s t : Session) : Prop where
  callee : t.pc.callee = s.pc.callee
  isMain : t.isMain = s.isMain
  fd : t.connection.fd = s.connection.fd
  isOverTime : t.connection.isOverTime = s.connection.isOverTime

/-- Nor do the steps change these, but for the close path. -/
structure Open (s t : Session) : Prop extends Frame s t where
  state : t.connection.state = s.connection.state
  descriptors : t.descriptors = s.descriptors
  canResume : t.canResume = s.canResume

theorem Open.trans {s t u : Session} (h : Open s t) (h' : Open t u) : Open s u :=
  ⟨⟨h'.callee.trans h.callee, h'.isMain.trans h.isMain, h'.fd.trans h.fd,
    h'.isOverTime.trans h.isOverTime⟩, h'.state.trans h.state, h'.descriptors.trans h.descriptors,
    h'.canResume.trans h.canResume⟩

theorem setReadBuffer_open (s : Session) (readBuffer : TcpBuffer) : Open s (s.setReadBuffer readBuffer) :=
  ⟨⟨rfl, rfl, rfl, rfl⟩, rfl, rfl, rfl⟩

theorem setWriteBuffer_open (s : Session) (writeBuffer : TcpBuffer) : Open s (s.setWriteBuffer writeBuffer) :=
  ⟨⟨rfl, rfl, rfl, rfl⟩, rfl, rfl, rfl⟩

/-- The read that sets `close_flag`. -/
def Closes (s : Session) (i : Input) : Prop :=
  (i = .read .eof ∨ i = .read .error) ∧ s.connection.isOverTime = false ∧
    ((∃ n, s.pc = .readAgain n) ∨ s.isMain = true ∧ ∃ n, s.pc = .read n)

theorem returns_open {s : Session} {callee : Callee} (hs : s.pc.callee = callee) :
    Open s (s.returns callee) := ⟨⟨hs.symm, rfl, rfl, rfl⟩, rfl, rfl, rfl⟩

theorem resume_open {s : Session} {pc : Pc} (hs : pc.callee = s.pc.callee) : Open s (s.resume pc) := by
  unfold resume
  split
  · exact ⟨⟨hs, rfl, rfl, rfl⟩, rfl, rfl, rfl⟩
  · exact ⟨⟨rfl, rfl, rfl, rfl⟩, rfl, rfl, rfl⟩

/-- The next read is asked to fill the space that is made for it. -/
theorem nextRead_some {s t : Session} (h : s.nextRead = some t) :
    ∃ readBuffer, s.connection.readBuffer.makeRoom = some readBuffer ∧
      t = {s.setReadBuffer readBuffer with pc := .read readBuffer.writeAble} := by
  simp only [nextRead, Option.bind_eq_bind, Option.bind_eq_some_iff, Option.pure_def] at h
  obtain ⟨readBuffer, hroom, h⟩ := h
  exact ⟨readBuffer, hroom, (Option.some.inj h).symm⟩

/-- `input` returns at once, or goes on to its first read. -/
theorem enterInput_cases {s t : Session} (h : s.enterInput = some t) :
    t = s.returns .input ∧ (s.connection.isOverTime = true ∨ s.connection.state = .closed ∨
        s.connection.state = .notConnected) ∨
      s.connection.isOverTime = false ∧ s.connection.state ≠ .closed ∧ s.nextRead = some t := by
  unfold enterInput at h
  split at h
  · exact .inl ⟨(Option.some.inj h).symm, .inl ‹_›⟩
  rename_i hover
  split at h
  · exact .inl ⟨(Option.some.inj h).symm, .inr ‹_›⟩
  · rename_i hstate
    exact .inr ⟨Bool.not_eq_true _ ▸ hover, fun hclosed => hstate (.inl hclosed), h⟩

theorem nextRead_open {s t : Session} (hs : s.pc.callee = .input) (h : s.nextRead = some t) :
    Open s t := by
  obtain ⟨readBuffer, -, rfl⟩ := nextRead_some h
  exact ⟨⟨hs.symm, rfl, rfl, rfl⟩, rfl, rfl, rfl⟩

theorem enterInput_open {s t : Session} (hs : s.pc.callee = .input) (h : s.enterInput = some t) :
    Open s t := by
  rcases enterInput_cases h with ⟨rfl, -⟩ | ⟨-, -, hnext⟩
  · exact returns_open hs
  · exact nextRead_open hs hnext

/-- The bytes of a read are appended, and `input` returns or reads on. -/
theorem readReturns_data {s t : Session} {n : Int} {bytes : Bytes}
    (h : s.readReturns n (.data bytes) = some t) : bytes ≠ [] ∧ bytes.length ≤ n ∧
      ∃ readBuffer, s.connection.readBuffer.received bytes = some readBuffer ∧
        (t = (s.setReadBuffer readBuffer).returns .input ∧
            (s.connection.isOverTime = true ∨ bytes.length < n) ∨
          (s.setReadBuffer readBuffer).nextRead = some t ∧ s.connection.isOverTime = false ∧
            bytes.length = n) := by
  simp only [readReturns] at h
  split at h
  · cases h
  rename_i hbytes
  rw [not_or, Int.not_lt] at hbytes
  refine ⟨hbytes.1, hbytes.2, ?_⟩
  simp only [Option.bind_eq_bind, Option.bind_eq_some_iff, Option.pure_def] at h
  obtain ⟨readBuffer, hreceived, h⟩ := h
  refine ⟨readBuffer, hreceived, ?_⟩
  split at h
  · exact .inl ⟨(Option.some.inj h).symm, .inl ‹_›⟩
  rename_i hover
  split at h
  · exact .inr ⟨h, Bool.not_eq_true _ ▸ hover, ‹_›⟩
  · exact .inl ⟨(Option.some.inj h).symm, .inr (by omega)⟩

/-- A read that brought nothing ends the loop. -/
theorem readReturns_other {s t : Session} {n : Int} {result : ReadResult}
    (hresult : result = .eof ∨ result = .error) (h : s.readReturns n result = some t) :
    s.connection.isOverTime = true ∧ t = s.returns .input ∨
      s.connection.isOverTime = false ∧ t = s.closePath := by
  have heq : s.readReturns n result =
      if s.connection.isOverTime then some (s.returns .input) else some s.closePath := by
    rcases hresult with rfl | rfl <;> rfl
  rw [heq] at h
  split at h
  · exact .inl ⟨‹_›, (Option.some.inj h).symm⟩
  · rename_i hover
    exact .inr ⟨Bool.not_eq_true _ ▸ hover, (Option.some.inj h).symm⟩

theorem readResult_cases (result : ReadResult) :
    (result = .eof ∨ result = .error) ∨ ∃ bytes, result = .data bytes := by
  cases result with
  | data bytes => exact .inr ⟨bytes, rfl⟩
  | eof => exact .inl (.inl rfl)
  | error => exact .inl (.inr rfl)

theorem readReturns_open {s t : Session} {n : Int} {result : ReadResult} (hs : s.pc.callee = .input)
    (h : s.readReturns n result = some t) : Open s t ∨
      (result = .eof ∨ result = .error) ∧ s.connection.isOverTime = false ∧ t = s.closePath := by
  rcases readResult_cases result with hresult | ⟨bytes, rfl⟩
  · rcases readReturns_other hresult h with ⟨-, rfl⟩ | hclose
    · exact .inl (returns_open hs)
    · exact .inr ⟨hresult, hclose⟩
  · left
    obtain ⟨-, -, readBuffer, -, ⟨rfl, -⟩ | ⟨hnext, -, -⟩⟩ := readReturns_data h
    · exact (setReadBuffer_open s readBuffer).trans (returns_open hs)
    · exact (setReadBuffer_open s readBuffer).trans (nextRead_open hs hnext)

theorem clearClient_open (s : Session) : Frame s s.clearClient := by
  unfold clearClient
  split <;> exact ⟨rfl, rfl, rfl, rfl⟩

theorem closePath_pc (s : Session) :
    s.closePath.pc = if s.isMain then .returned .input else .closeWait := by
  have hmain := (clearClient_open s).isMain
  simp only [closePath, hmain]
  split <;> rfl

theorem closePath_canResume (s : Session) : s.closePath.canResume = false := by
  simp only [closePath]
  split <;> rfl

theorem closePath_frame {s : Session} (hs : s.pc.callee = .input) : Frame s s.closePath := by
  have hclear := clearClient_open s
  refine ⟨?_, ?_, ?_, ?_⟩
  · rw [closePath_pc, hs]
    split <;> rfl
  all_goals
    simp only [closePath]
    split
  · exact hclear.isMain
  · exact hclear.isMain
  · exact hclear.fd
  · exact hclear.fd
  · exact hclear.isOverTime
  · exact hclear.isOverTime

/-- What the close path leaves of a connection that was not closed. -/
theorem closePath_spec {s : Session} (hs : s.connection.state ≠ .closed) :
    s.closePath.connection = {s.connection with stop := true, state := .closed} ∧
      s.closePath.descriptors = s.descriptors.close s.connection.fd := by
  have hclear : s.clearClient = {s with
      connection := {s.connection with stop := true, state := .closed}
      descriptors := s.descriptors.close s.connection.fd} := if_neg hs
  simp only [closePath, hclear]
  split <;> exact ⟨rfl, rfl⟩

theorem closePath_closed {s : Session} (hs : s.connection.state = .closed) :
    s.closePath.descriptors = s.descriptors := by
  have hclear : s.clearClient = s := if_pos hs
  simp only [closePath, hclear]
  split <;> rfl

/-! ### Where a function goes on -/

theorem enterInput_pc {s t : Session} (h : s.enterInput = some t) :
    (∃ n, t.pc = .read n ∧ s.connection.isOverTime = false) ∨ t.pc = .returned .input := by
  rcases enterInput_cases h with ⟨rfl, -⟩ | ⟨hover, -, hnext⟩
  · exact .inr rfl
  · obtain ⟨readBuffer, -, rfl⟩ := nextRead_some hnext
    exact .inl ⟨readBuffer.writeAble, rfl, hover⟩

theorem readReturns_pc {s t : Session} {n : Int} {result : ReadResult}
    (h : s.readReturns n result = some t) :
    (∃ m, t.pc = .read m ∧ s.connection.isOverTime = false) ∨ t.pc = .returned .input ∨
      (result = .eof ∨ result = .error) ∧ s.connection.isOverTime = false ∧ t = s.closePath := by
  rcases readResult_cases result with hresult | ⟨bytes, rfl⟩
  · rcases readReturns_other hresult h with ⟨-, rfl⟩ | hclose
    · exact .inr (.inl rfl)
    · exact .inr (.inr ⟨hresult, hclose⟩)
  · obtain ⟨-, -, readBuffer, -, ⟨rfl, -⟩ | ⟨hnext, hover, -⟩⟩ := readReturns_data h
    · exact .inr (.inl rfl)
    · obtain ⟨buffer, -, rfl⟩ := nextRead_some hnext
      exact .inl ⟨buffer.writeAble, rfl, hover⟩

theorem nextWrite_pc (s : Session) : (∃ n, s.nextWrite.pc = .write n) ∨ s.nextWrite.pc = .returned .output := by
  unfold nextWrite
  split
  · exact .inr rfl
  split
  · exact .inr rfl
  · exact .inl ⟨_, rfl⟩

theorem enterOutput_pc (s : Session) :
    (∃ n, s.enterOutput.pc = .write n ∧ s.connection.isOverTime = false) ∨
      s.enterOutput.pc = .returned .output := by
  unfold enterOutput
  split
  · exact .inr rfl
  rename_i hover
  rcases nextWrite_pc s with ⟨n, hn⟩ | hn
  · exact .inl ⟨n, hn, Bool.not_eq_true _ ▸ hover⟩
  · exact .inr hn

theorem written_pc (s : Session) :
    (∃ n, s.written.pc = .write n ∧ s.connection.isOverTime = false) ∨ s.written.pc = .returned .output := by
  unfold written
  split
  · exact .inr rfl
  split
  · exact .inr rfl
  rename_i hover
  rcases nextWrite_pc s with ⟨n, hn⟩ | hn
  · exact .inl ⟨n, hn, Bool.not_eq_true _ ▸ hover⟩
  · exact .inr hn

/-- Behind a write the loop goes on with what is left. -/
theorem writeReturns_written {s t : Session} {n : Int} {result : WriteResult}
    (h : s.writeReturns n result = some t) : ∃ writeBuffer, t = (s.setWriteBuffer writeBuffer).written := by
  cases result with
  | failed => exact ⟨s.connection.writeBuffer, (Option.some.inj h).symm⟩
  | sent m =>
    simp only [writeReturns] at h
    split at h
    · cases h
    simp only [Option.bind_eq_bind, Option.bind_eq_some_iff, Option.pure_def] at h
    obtain ⟨writeBuffer, -, h⟩ := h
    exact ⟨writeBuffer, (Option.some.inj h).symm⟩

theorem writeReturns_pc {s t : Session} {n : Int} {result : WriteResult}
    (h : s.writeReturns n result = some t) :
    (∃ m, t.pc = .write m ∧ s.connection.isOverTime = false) ∨ t.pc = .returned .output := by
  obtain ⟨writeBuffer, rfl⟩ := writeReturns_written h
  exact written_pc (s.setWriteBuffer writeBuffer)

/-- The loop of `execute` decodes one packet more, or ends. -/
theorem decodeNext_cases {dispatch : RpcStruct → TcpBuffer → Option (TcpBuffer × RunTime)} {s t : Session}
    (h : s.decodeNext dispatch = some t) :
    t = s.returns .execute ∧ ¬ s.connection.readBuffer.readAble > 0 ∨
      ∃ out, s.connection.readBuffer.readAble > 0 ∧ decode s.connection.readBuffer {} = some out ∧
        (out.data.decodeSucc = false ∧ t = (s.setReadBuffer out.buf).returns .execute ∨
          out.data.decodeSucc = true ∧
            ((∃ writeBuffer, s.connection.connectionType = .serverConnection ∧
                t = (s.setReadBuffer out.buf).setWriteBuffer writeBuffer) ∨
              s.connection.connectionType = .clientConnection ∧
                t = {s.setReadBuffer out.buf with
                  connection := (s.setReadBuffer out.buf).connection.insertReply out.data})) := by
  unfold decodeNext at h
  split at h
  swap
  · exact .inl ⟨(Option.some.inj h).symm, ‹_›⟩
  rename_i hreadable
  simp only [Option.bind_eq_bind, Option.bind_eq_some_iff, Option.pure_def] at h
  obtain ⟨out, hout, h⟩ := h
  refine .inr ⟨out, hreadable, hout, ?_⟩
  split at h
  · rename_i hsucc
    exact .inl ⟨Bool.not_eq_true _ ▸ hsucc, (Option.some.inj h).symm⟩
  rename_i hsucc
  rw [not_not] at hsucc
  refine .inr ⟨hsucc, ?_⟩
  split at h
  · rename_i htype
    obtain ⟨r, -, h⟩ := Option.bind_eq_some_iff.mp h
    exact .inl ⟨r.1, htype, (Option.some.inj h).symm⟩
  · rename_i htype
    exact .inr ⟨htype, (Option.some.inj h).symm⟩

theorem insertReply_open (s : Session) (tmp : RpcStruct) :
    Open s {s with connection := s.connection.insertReply tmp} := by
  unfold TcpConnection.insertReply
  split <;> exact ⟨⟨rfl, rfl, rfl, rfl⟩, rfl, rfl, rfl⟩

theorem decodeNext_open {dispatch : RpcStruct → TcpBuffer → Option (TcpBuffer × RunTime)} {s t : Session}
    (hs : s.pc.callee = .execute) (h : s.decodeNext dispatch = some t) : Open s t := by
  rcases decodeNext_cases h with
    ⟨rfl, -⟩ | ⟨out, -, -, ⟨-, rfl⟩ | ⟨-, ⟨writeBuffer, -, rfl⟩ | ⟨-, rfl⟩⟩⟩
  · exact returns_open hs
  · exact (setReadBuffer_open s out.buf).trans (returns_open hs)
  · exact (setReadBuffer_open s out.buf).trans (setWriteBuffer_open _ writeBuffer)
  · exact (setReadBuffer_open s out.buf).trans (insertReply_open _ out.data)

/-- The functions under `output` leave all but the write buffer. -/
structure Writes (s t : Session) : Prop extends Open s t where
  connectionType : t.connection.connectionType = s.connection.connectionType
  readBuffer : t.connection.readBuffer = s.connection.readBuffer
  replyDatas : t.connection.replyDatas = s.connection.replyDatas

theorem nextWrite_writes {s : Session} (hs : s.pc.callee = .output) : Writes s s.nextWrite := by
  unfold nextWrite
  split
  · exact ⟨returns_open hs, rfl, rfl, rfl⟩
  split
  · exact ⟨returns_open hs, rfl, rfl, rfl⟩
  · exact ⟨⟨⟨hs.symm, rfl, rfl, rfl⟩, rfl, rfl, rfl⟩, rfl, rfl, rfl⟩

theorem enterOutput_writes {s : Session} (hs : s.pc.callee = .output) : Writes s s.enterOutput := by
  unfold enterOutput
  split
  · exact ⟨returns_open hs, rfl, rfl, rfl⟩
  · exact nextWrite_writes hs

theorem written_writes {s : Session} (hs : s.pc.callee = .output) : Writes s s.written := by
  unfold written
  split
  · exact ⟨returns_open hs, rfl, rfl, rfl⟩
  split
  · exact ⟨returns_open hs, rfl, rfl, rfl⟩
  · exact nextWrite_writes hs

theorem writeReturns_writes {s t : Session} {n : Int} {result : WriteResult} (hs : s.pc.callee = .output)
    (h : s.writeReturns n result = some t) : Writes s t := by
  obtain ⟨writeBuffer, rfl⟩ := writeReturns_written h
  have hwrites := written_writes (s := s.setWriteBuffer writeBuffer) hs
  exact ⟨(setWriteBuffer_open s writeBuffer).trans hwrites.toOpen, hwrites.connectionType,
    hwrites.readBuffer, hwrites.replyDatas⟩

/-- What a step of `input` can do. -/
theorem step_input {dispatch : RpcStruct → TcpBuffer → Option (TcpBuffer × RunTime)} {s t : Session}
    {i : Input} (hs : s.pc.callee = .input) (h : s.step dispatch i = some t) :
    s.pc = .input ∧ i = .advance ∧ s.enterInput = some t ∨
    (∃ n result, (s.pc = .readAgain n ∨ s.pc = .read n ∧ (s.isMain = true ∨ ∃ bytes, result = .data bytes)) ∧
      i = .read result ∧ s.readReturns n result = some t) ∨
    (∃ n, s.pc = .read n ∧ s.isMain = false ∧ t = {s with pc := .readWait n}) ∨
    (∃ n, s.pc = .readWait n ∧ i = .resume ∧ t = s.resume (.readAgain n)) ∨
    s.pc = .closeWait ∧ i = .resume ∧ t = s.resume (.returned .input) := by
  unfold step at h
  split at h
  · exact .inl ⟨‹_›, rfl, h⟩
  · rename_i n result hpc
    cases hmain : s.isMain with
    | true =>
      rw [hmain] at h
      exact .inr (.inl ⟨n, result, .inr ⟨hpc, .inl rfl⟩, rfl, h⟩)
    | false =>
      rw [hmain] at h
      cases result with
      | data bytes => exact .inr (.inl ⟨n, _, .inr ⟨hpc, .inr ⟨bytes, rfl⟩⟩, rfl, h⟩)
      | eof => exact .inr (.inr (.inl ⟨n, hpc, rfl, (Option.some.inj h).symm⟩))
      | error => exact .inr (.inr (.inl ⟨n, hpc, rfl, (Option.some.inj h).symm⟩))
  · exact .inr (.inr (.inr (.inl ⟨_, ‹_›, rfl, (Option.some.inj h).symm⟩)))
  · exact .inr (.inl ⟨_, _, .inl ‹_›, rfl, h⟩)
  · exact .inr (.inr (.inr (.inr ⟨‹_›, rfl, (Option.some.inj h).symm⟩)))
  all_goals
    rename_i hpc
    first
    | rw [hpc] at hs; cases hs
    | cases h

/-- A read that brings bytes lets `read_hook` return. -/
theorem step_data {dispatch : RpcStruct → TcpBuffer → Option (TcpBuffer × RunTime)} {s t : Session}
    {bytes : Bytes} (h : s.step dispatch (.read (.data bytes)) = some t) :
    ∃ n, (s.pc = .read n ∨ s.pc = .readAgain n) ∧ s.readReturns n (.data bytes) = some t := by
  unfold step at h
  split at h
  case h_2 n result hpc hresult =>
    obtain rfl := Input.read.inj hresult
    refine ⟨n, .inl hpc, ?_⟩
    cases hmain : s.isMain with
    | true => rwa [hmain] at h
    | false => rwa [hmain] at h
  case h_4 n result hpc hresult =>
    obtain rfl := Input.read.inj hresult
    exact ⟨n, .inr hpc, h⟩
  all_goals
    rename_i hinput
    first
    | cases hinput
    | cases h

theorem step_execute {dispatch : RpcStruct → TcpBuffer → Option (TcpBuffer × RunTime)} {s t : Session}
    {i : Input} (hs : s.pc.callee = .execute) (h : s.step dispatch i = some t) :
    s.pc = .execute ∧ i = .advance ∧ s.decodeNext dispatch = some t := by
  unfold step at h
  split at h
  all_goals
    rename_i hpc
    first
    | exact ⟨hpc, rfl, h⟩
    | rw [hpc] at hs; cases hs
    | cases h

theorem step_output {dispatch : RpcStruct → TcpBuffer → Option (TcpBuffer × RunTime)} {s t : Session}
    {i : Input} (hs : s.pc.callee = .output) (h : s.step dispatch i = some t) : Writes s t := by
  unfold step at h
  split at h
  case h_7 =>
    obtain rfl := Option.some.inj h
    exact enterOutput_writes hs
  case h_8 =>
    split at h
    · obtain rfl := Option.some.inj h
      exact ⟨⟨⟨hs.symm, rfl, rfl, rfl⟩, rfl, rfl, rfl⟩, rfl, rfl, rfl⟩
    · exact writeReturns_writes hs h
  case h_9 =>
    obtain rfl := Option.some.inj h
    refine ⟨resume_open hs.symm, ?_, ?_, ?_⟩ <;> (unfold resume; split <;> rfl)
  case h_10 => exact writeReturns_writes hs h
  all_goals
    rename_i hpc
    first
    | rw [hpc] at hs; cases hs
    | cases h

/-- **One step**: it leaves all that `Open` names, or it is the read behind which the close path
was taken. -/
theorem step_open {dispatch : RpcStruct → TcpBuffer → Option (TcpBuffer × RunTime)} {s t : Session}
    {i : Input} (h : s.step dispatch i = some t) : Open s t ∨ Closes s i ∧ t = s.closePath := by
  cases hs : s.pc.callee with
  | input =>
    rcases step_input hs h with ⟨-, -, hread⟩ | ⟨n, result, hpc, rfl, hread⟩ | ⟨n, hpc, -, rfl⟩ |
      ⟨n, hpc, -, rfl⟩ | ⟨hpc, -, rfl⟩
    · exact .inl (enterInput_open hs hread)
    · refine (readReturns_open hs hread).imp_right ?_
      rintro ⟨hresult, hover, rfl⟩
      refine ⟨⟨hresult.imp (congrArg Input.read) (congrArg Input.read), hover, ?_⟩, rfl⟩
      rcases hpc with hpc | ⟨hpc, hmain | ⟨bytes, rfl⟩⟩
      · exact .inl ⟨n, hpc⟩
      · exact .inr ⟨hmain, n, hpc⟩
      · rcases hresult with h | h <;> cases h
    · exact .inl ⟨⟨hs.symm, rfl, rfl, rfl⟩, rfl, rfl, rfl⟩
    · exact .inl (resume_open hs.symm)
    · exact .inl (resume_open hs.symm)
  | execute => exact .inl (decodeNext_open hs (step_execute hs h).2.2)
  | output => exact .inl (step_output hs h).toOpen

theorem step_frame {dispatch : RpcStruct → TcpBuffer → Option (TcpBuffer × RunTime)} {s t : Session}
    {i : Input} (h : s.step dispatch i = some t) : Frame s t := by
  rcases step_open h with hopen | ⟨⟨-, -, hpc⟩, rfl⟩
  · exact hopen.toFrame
  · apply closePath_frame
    rcases hpc with ⟨n, hpc⟩ | ⟨-, n, hpc⟩ <;> rw [hpc] <;> rfl

/-- Whoever sleeps on the close path must not be resumed. -/
theorem step_closeWait {dispatch : RpcStruct → TcpBuffer → Option (TcpBuffer × RunTime)} {s t : Session}
    {i : Input} (hs : s.pc = .closeWait → s.canResume = false) (h : s.step dispatch i = some t)
    (ht : t.pc = .closeWait) : t.canResume = false := by
  have hcallee : s.pc.callee = .input := by
    rw [← (step_frame h).callee, ht]
    rfl
  rcases step_input hcallee h with ⟨-, -, henter⟩ | ⟨n, result, -, -, hread⟩ | ⟨n, -, -, rfl⟩ |
    ⟨n, hpc, -, rfl⟩ | ⟨hpc, -, rfl⟩
  · rcases enterInput_pc henter with ⟨n, hpc, -⟩ | hpc
    · rw [hpc] at ht
      cases ht
    · rw [hpc] at ht
      cases ht
  · rcases readReturns_pc hread with ⟨n, hpc, -⟩ | hpc | ⟨-, -, rfl⟩
    · rw [hpc] at ht
      cases ht
    · rw [hpc] at ht
      cases ht
    · exact closePath_canResume s
  · cases ht
  · unfold resume at ht
    split at ht
    · cases ht
    · rw [hpc] at ht
      cases ht
  · have hcan := hs hpc
    rw [resume, if_neg (by simp [hcan])]
    exact hcan

/-- Where a step of `output` leads. -/
theorem step_output_pc {dispatch : RpcStruct → TcpBuffer → Option (TcpBuffer × RunTime)} {s t : Session}
    {i : Input} (hs : s.pc.callee = .output) (h : s.step dispatch i = some t) :
    (∃ n, t.pc = .write n ∧ s.connection.isOverTime = false) ∨ t.pc = .returned .output ∨
    (∃ n, s.pc = .write n ∧ s.isMain = false ∧ t.pc = .writeWait n) ∨
    (∃ n, s.pc = .writeWait n ∧ i = .resume ∧ t = s.resume (.writeAgain n)) := by
  have hor : ∀ {u : Session}, ((∃ n, u.pc = .write n ∧ s.connection.isOverTime = false) ∨
      u.pc = .returned .output) → (∃ n, u.pc = .write n ∧ s.connection.isOverTime = false) ∨
        u.pc = .returned .output ∨ (∃ n, s.pc = .write n ∧ s.isMain = false ∧ u.pc = .writeWait n) ∨
        (∃ n, s.pc = .writeWait n ∧ i = .resume ∧ u = s.resume (.writeAgain n)) := by
    rintro u (hwrite | hreturned)
    · exact .inl hwrite
    · exact .inr (.inl hreturned)
  unfold step at h
  split at h
  case h_7 =>
    obtain rfl := Option.some.inj h
    exact hor (enterOutput_pc s)
  case h_8 n result hpc =>
    cases hmain : s.isMain with
    | true =>
      rw [hmain] at h
      exact hmain ▸ hor (writeReturns_pc h)
    | false =>
      rw [hmain] at h
      cases result with
      | sent m => exact hmain ▸ hor (writeReturns_pc h)
      | failed =>
        obtain rfl := Option.some.inj h
        exact .inr (.inr (.inl ⟨n, hpc, rfl, rfl⟩))
  case h_9 =>
    exact .inr (.inr (.inr ⟨_, ‹_›, rfl, (Option.some.inj h).symm⟩))
  case h_10 => exact hor (writeReturns_pc h)
  all_goals
    rename_i hpc
    first
    | rw [hpc] at hs; cases hs
    | cases h

/-- Where the coroutine sleeps. -/
def Pc.asleep : Pc → Bool
  | .readWait _ | .closeWait | .writeWait _ => true
  | _ => false

/-- Who falls asleep is not the main coroutine. -/
theorem step_asleep {dispatch : RpcStruct → TcpBuffer → Option (TcpBuffer × RunTime)} {s t : Session}
    {i : Input} (hmain : s.isMain = true) (hs : s.pc.asleep = false) (h : s.step dispatch i = some t) :
    t.pc.asleep = false := by
  cases hcallee : s.pc.callee with
  | input =>
    rcases step_input hcallee h with ⟨-, -, henter⟩ | ⟨n, result, -, -, hread⟩ | ⟨n, -, hno, -⟩ |
      ⟨n, hpc, -⟩ | ⟨hpc, -⟩
    · rcases enterInput_pc henter with ⟨n, hpc, -⟩ | hpc <;> rw [hpc] <;> rfl
    · rcases readReturns_pc hread with ⟨n, hpc, -⟩ | hpc | ⟨-, -, rfl⟩
      · rw [hpc]
        rfl
      · rw [hpc]
        rfl
      · rw [closePath_pc, hmain]
        rfl
    · rw [hmain] at hno
      cases hno
    · rw [hpc] at hs
      cases hs
    · rw [hpc] at hs
      cases hs
  | execute =>
    have hframe := (step_frame h).callee.trans hcallee
    cases hpc : t.pc with
    | readWait n => rw [hpc] at hframe; cases hframe
    | closeWait => rw [hpc] at hframe; cases hframe
    | writeWait n => rw [hpc] at hframe; cases hframe
    | _ => rfl
  | output =>
    rcases step_output_pc hcallee h with ⟨n, hpc, -⟩ | hpc | ⟨n, -, hno, -⟩ | ⟨n, hpc, -⟩
    · rw [hpc]
      rfl
    · rw [hpc]
      rfl
    · rw [hmain] at hno
      cases hno
    · rw [hpc] at hs
      cases hs

/-- Where resuming the sleeping coroutine leads. -/
theorem step_resume {dispatch : RpcStruct → TcpBuffer → Option (TcpBuffer × RunTime)} {s t : Session}
    (hcan : s.canResume = true) (h : s.step dispatch .resume = some t) :
    (∃ n, t.pc = .readAgain n) ∨ t.pc = .returned .input ∨ ∃ n, t.pc = .writeAgain n := by
  have hresume : ∀ pc, s.resume pc = {s with pc} := fun pc => if_pos hcan
  unfold step at h
  split at h
  case h_3 n _ _ =>
    obtain rfl := Option.some.inj h
    exact .inl ⟨n, congrArg Session.pc (hresume _)⟩
  case h_5 =>
    obtain rfl := Option.some.inj h
    exact .inr (.inl (congrArg Session.pc (hresume _)))
  case h_9 n _ _ =>
    obtain rfl := Option.some.inj h
    exact .inr (.inr ⟨n, congrArg Session.pc (hresume _)⟩)
  all_goals
    rename_i hinput
    first
    | cases hinput
    | cases h

/-- What a function has returned to is not its own. -/
theorem step_returned {dispatch : RpcStruct → TcpBuffer → Option (TcpBuffer × RunTime)} {s : Session}
    {i : Input} {callee : Callee} (hpc : s.pc = .returned callee) : s.step dispatch i = none := by
  unfold step
  rw [hpc]

/-- Nothing wakes it. -/
theorem step_hung {dispatch : RpcStruct → TcpBuffer → Option (TcpBuffer × RunTime)} {s t : Session}
    {i : Input} (hpc : s.pc = .closeWait) (hcan : s.canResume = false) (h : s.step dispatch i = some t) :
    t = s := by
  rcases step_input (by rw [hpc]; rfl) h with ⟨hp, -⟩ | ⟨n, result, hp | ⟨hp, -⟩, -⟩ | ⟨n, hp, -⟩ |
    ⟨n, hp, -⟩ | ⟨-, -, rfl⟩
  · rw [hpc] at hp
    cases hp
  · rw [hpc] at hp
    cases hp
  · rw [hpc] at hp
    cases hp
  · rw [hpc] at hp
    cases hp
  · rw [hpc] at hp
    cases hp
  · rw [resume, if_neg (by simp [hcan])]

end Session

/-! ### The loop of a server -/

namespace Server

inductive Input where
  | io (i : Session.Input)
  /-- The time wheel shuts the connection down, from another thread. -/
  | shutdown
deriving DecidableEq

/-- The coroutine of a new connection has been started. -/
def initial (fd buffSize : Int) : Session := {connection := .server fd buffSize}

/-- `MainServerLoopCorFunc`. -/
def step (dispatch : RpcStruct → TcpBuffer → Option (TcpBuffer × RunTime)) (s : Session) :
    Input → Option Session
  | .shutdown => some {s with connection := s.connection.shutdownConnection}
  | .io i =>
    match s.pc, i with
    | .returned .input, .advance => some {s with pc := .execute}
    | .returned .execute, .advance => some {s with pc := .output}
    | .returned .output, .advance => if s.connection.stop then none else some {s with pc := .input}
    | _, _ => s.step dispatch i

end Server

end CoroutineRpc.Net.Tcp
