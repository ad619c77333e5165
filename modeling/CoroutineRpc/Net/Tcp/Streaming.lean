import CoroutineRpc.Net.Tcp.Buffers
import CoroutineRpc.Net.Tcp.ByteQueue

/-! `input` and `output` under partial reads and writes.

A connection is between the two ends of a stream in each direction (`Endpoint`): what was received
and not decoded, what is left to send, and what the kernel has taken. `input` and `output` refine
it whatever the kernel answers and whoever resumes the coroutine (`event_refines`): every byte that
a read delivers is appended, and every byte that a write takes is the next one to send, once. -/
namespace CoroutineRpc.Net.Tcp
open Rpc TcpBuffer Library.Refinement Library.Transition

namespace TcpBuffer

/-! ### Where the indices go -/

/-- Compaction keeps the vector's size, and the read index ends below a third of it. -/
theorem adjustBuffer_index {b b' : TcpBuffer} (h : b.adjustBuffer = some b') :
    b'.buffer.length = b.buffer.length ∧ b'.readIndex ≤ b'.buffer.length / 3 ∧
      (b'.readIndex = 0 ∨ b' = b) := by
  unfold TcpBuffer.adjustBuffer adjustBufferVia at h
  split at h
  · simp only [Option.bind_eq_bind, Option.bind_eq_some_iff, Option.pure_def] at h
    obtain ⟨bytes, -, buffer, hstore, h⟩ := h
    obtain rfl := Option.some.inj h
    have hlength := store_length hstore
    rw [List.length_replicate] at hlength
    refine ⟨hlength, ?_, .inl rfl⟩
    show (0 : Int) ≤ _
    omega
  · rename_i hthird
    obtain rfl := Option.some.inj h
    exact ⟨rfl, Int.not_lt.mp hthird, .inr rfl⟩

/-- A read leaves the read index where it is, or moves it to the front. -/
theorem received_index {b b' : TcpBuffer} {bytes : Bytes} (hroom : b.writeIndex + bytes.length ≤ b.buffer.length)
    (h : b.received bytes = some b') :
    b'.buffer.length = b.buffer.length ∧ b'.readIndex ≤ b'.buffer.length / 3 ∧
      (b'.readIndex = 0 ∨
        b'.readIndex = b.readIndex ∧ b'.writeIndex = b.writeIndex + bytes.length) := by
  simp only [received, recycleWrite, Option.bind_eq_bind, Option.bind_eq_some_iff] at h
  obtain ⟨buffer, hstore, j, hj, h⟩ := h
  have hlength := store_length hstore
  obtain ⟨rfl, -⟩ := eq_of_int hj
  rw [if_neg (by rw [hlength]; omega)] at h
  obtain ⟨hsize, hthird, hindex⟩ := adjustBuffer_index h
  refine ⟨hsize.trans hlength, hthird, hindex.imp_right ?_⟩
  rintro rfl
  exact ⟨rfl, rfl⟩

/-- A larger vector begins with the readable bytes. -/
theorem resizeBuffer_index {b b' : TcpBuffer} {size : Int} (h : b.resizeBuffer size = some b') :
    b'.readIndex = 0 ∧ (b'.buffer.length : Int) = size := by
  unfold TcpBuffer.resizeBuffer at h
  split at h
  · cases h
  simp only [Option.bind_eq_bind, Option.bind_eq_some_iff, Option.pure_def] at h
  obtain ⟨bytes, -, buffer, hstore, h⟩ := h
  obtain rfl := Option.some.inj h
  have hlength := store_length hstore
  rw [List.length_replicate] at hlength
  refine ⟨rfl, ?_⟩
  show (buffer.length : Int) = size
  omega

/-- A vector that can be doubled, should it be full. -/
structure Grows (b : TcpBuffer) : Prop where
  wellFormed : WellFormed b
  readable : b.readable.length < 2 ^ 30
  /-- It was doubled already, or is not larger than it was. -/
  size : b.readIndex = 0 ∨ b.buffer.length < 2 ^ 30

theorem Grows.full {b : TcpBuffer} (h : Grows b) (hfull : b.writeAble = 0) : b.buffer.length < 2 ^ 30 := by
  rcases h.size with hindex | hsize
  · have hlen := h.wellFormed.readable_length
    have := h.readable
    simp only [readAble, writeAble] at hlen hfull
    omega
  · exact hsize

/-- A full vector is doubled while its size fits twice in an `int`. -/
theorem makeRoom_some {b : TcpBuffer} (h : WellFormed b) (hsize : b.writeAble = 0 → b.buffer.length < 2 ^ 30) :
    ∃ b', b.makeRoom = some b' ∧ WellFormed b' ∧ b'.readable = b.readable ∧
      (b.writeAble = 0 → b'.readIndex = 0 ∧ (b'.buffer.length : Int) = 2 * b.buffer.length) ∧
      (b.writeAble ≠ 0 → b' = b) := by
  unfold TcpBuffer.makeRoom
  by_cases hfull : b.writeAble = 0
  · have hsize := hsize hfull
    have hle : b.readAble ≤ (2 * b.buffer.length : Nat) := by
      have := h.read
      simp only [writeAble] at hfull
      simp only [readAble]
      omega
    obtain ⟨b', hresize, hwf, hreadable⟩ := resizeBuffer_spec h hle (by omega)
    have hnat : 2 * (b.buffer.length : Int) = ((2 * b.buffer.length : Nat) : Int) := by omega
    refine ⟨b', ?_, hwf, hreadable, fun _ => ?_, fun hne => absurd hfull hne⟩
    · rw [if_pos hfull, hnat, int_some ⟨by omega, by omega⟩, Option.bind_eq_bind, Option.bind_some, hresize]
    · rw [hnat]
      exact resizeBuffer_index hresize
  · exact ⟨b, if_neg hfull, h, rfl, fun heq => absurd heq hfull, fun _ => rfl⟩

theorem Grows.makeRoom {b : TcpBuffer} (h : Grows b) :
    ∃ b', b.makeRoom = some b' ∧ Grows b' ∧ b'.readable = b.readable := by
  obtain ⟨b', hroom, hwf, hreadable, hdouble, hsame⟩ := makeRoom_some h.wellFormed h.full
  refine ⟨b', hroom, ⟨hwf, hreadable ▸ h.readable, ?_⟩, hreadable⟩
  by_cases hfull : b.writeAble = 0
  · exact .inl (hdouble hfull).1
  · rw [hsame hfull]
    exact h.size

theorem Grows.received {b : TcpBuffer} (h : Grows b) {bytes : Bytes} (hroom : (bytes.length : Int) ≤ b.writeAble)
    (hsize : b.readable.length + bytes.length < 2 ^ 30) :
    ∃ b', b.received bytes = some b' ∧ Grows b' ∧ b'.readable = b.readable ++ bytes := by
  obtain ⟨b', hreceived, hwf, hreadable⟩ := received_spec h.wellFormed hroom
  obtain ⟨hlength, -, hindex⟩ := received_index (by simp only [writeAble] at hroom; omega) hreceived
  refine ⟨b', hreceived, ⟨hwf, by rw [hreadable, List.length_append]; exact hsize, ?_⟩, hreadable⟩
  rcases hindex with hzero | ⟨hsame, -⟩
  · exact .inl hzero
  · rw [hsame, hlength]
    exact h.size

end TcpBuffer

/-! ### A connection and the kernel -/

/-- How much the read that is under way was asked for. -/
def Session.Pc.reading : Pc → Option Int
  | .read n | .readAgain n => some n
  | _ => none

def Session.Pc.writing : Pc → Option Int
  | .write n | .writeAgain n => some n
  | _ => none

def Session.Pc.isReturned : Pc → Bool
  | .returned _ => true
  | _ => false

theorem Session.Pc.reading_eq {pc : Pc} {n : Int} (h : pc.reading = some n) : pc = .read n ∨ pc = .readAgain n := by
  cases pc with
  | read m => exact .inl (congrArg _ (Option.some.inj h))
  | readAgain m => exact .inr (congrArg _ (Option.some.inj h))
  | _ => cases h

theorem Session.Pc.writing_eq {pc : Pc} {n : Int} (h : pc.writing = some n) :
    pc = .write n ∨ pc = .writeAgain n := by
  cases pc with
  | write m => exact .inl (congrArg _ (Option.some.inj h))
  | writeAgain m => exact .inr (congrArg _ (Option.some.inj h))
  | _ => cases h

/-- A connection, and what the kernel has taken of its write buffer. -/
structure Wire where
  session : Session
  taken : Bytes := []

namespace Wire

inductive Event where
  | io (i : Session.Input)
  /-- A timer does this. -/
  | setOverTimeFlag (value : Bool)
  /-- The time wheel does this. -/
  | shutdownConnection

/-- The bytes behind `&m_buffer[read_index]` that a write takes. -/
def handed (s : Session) : Session.Input → Option Bytes
  | .write (.sent n) => s.connection.writeBuffer.all.load s.connection.writeBuffer.readIndex n
  | _ => some []

def event (dispatch : RpcStruct → TcpBuffer → Option (TcpBuffer × RunTime)) (w : Wire) : Event → Option Wire
  | .io i => do
    let bytes ← handed w.session i
    let session ← w.session.step dispatch i
    pure ⟨session, w.taken ++ bytes⟩
  | .setOverTimeFlag value =>
    some {w with session := {w.session with connection := {w.session.connection with isOverTime := value}}}
  | .shutdownConnection =>
    some {w with session := {w.session with connection := w.session.connection.shutdownConnection}}

/-- What can come next where the coroutine stands. A read brings between one byte and as many as it
was asked for, and no more is unread than fits; a write takes as many. -/
def Answers (s : Session) : Session.Input → Prop
  | .advance => s.pc = .input ∨ s.pc = .output
  | .read (.data bytes) => (∃ n ∈ s.pc.reading, bytes ≠ [] ∧ bytes.length ≤ n) ∧
      s.connection.readBuffer.readable.length + bytes.length < 2 ^ 30
  | .read .eof | .read .error => s.pc.reading.isSome = true
  | .write (.sent m) => ∃ n ∈ s.pc.writing, 0 < m ∧ m ≤ n
  | .write .failed => s.pc.writing.isSome = true
  | .resume => s.pc.asleep = true

/-- It comes while `input` or `output` has not returned. -/
def Expected (w : Wire) (e : Event) : Prop :=
  w.session.pc.isReturned = false ∧
    match e with
    | .io i => Answers w.session i
    | _ => True

instance (s : Session) : ∀ i : Session.Input, Decidable (Answers s i)
  | .advance => inferInstanceAs (Decidable (_ ∨ _))
  | .read (.data _) => inferInstanceAs (Decidable (_ ∧ _))
  | .read .eof | .read .error | .write .failed | .resume => inferInstanceAs (Decidable (_ = _))
  | .write (.sent m) => inferInstanceAs (Decidable (∃ n ∈ s.pc.writing, 0 < m ∧ m ≤ n))

instance (w : Wire) : ∀ e : Event, Decidable (Expected w e)
  | .io _ => inferInstanceAs (Decidable (_ ∧ _))
  | .setOverTimeFlag _ | .shutdownConnection => inferInstanceAs (Decidable (_ ∧ True))

/-! ### The stream -/

/-- The bytes of a stream at one of its ends. -/
structure Endpoint where
  received : Bytes
  left : Bytes
  taken : Bytes := []
deriving DecidableEq

def Endpoint.event (a : Endpoint) : Event → Endpoint
  | .io (.read (.data bytes)) => {a with received := a.received ++ bytes}
  | .io (.write (.sent n)) => {a with left := a.left.drop n, taken := a.taken ++ a.left.take n}
  | _ => a

/-- What the reads of a script deliver. -/
def delivered (es : List Event) : Bytes :=
  es.flatMap fun
    | .io (.read (.data bytes)) => bytes
    | _ => []

theorem Endpoint.run_received (a : Endpoint) (es : List Event) :
    (es.foldl Endpoint.event a).received = a.received ++ delivered es := by
  induction es generalizing a with
  | nil => simp [delivered]
  | cons e rest ih =>
    rw [List.foldl_cons, ih]
    unfold delivered Endpoint.event
    rw [List.flatMap_cons, ← List.append_assoc]
    congr 1
    split <;> simp

/-- Nothing is lost, repeated or moved on its way out. -/
theorem Endpoint.run_left (a : Endpoint) (es : List Event) :
    (es.foldl Endpoint.event a).taken ++ (es.foldl Endpoint.event a).left = a.taken ++ a.left := by
  induction es generalizing a with
  | nil => rfl
  | cons e rest ih =>
    rw [List.foldl_cons, ih]
    unfold Endpoint.event
    split
    · rfl
    · rw [List.append_assoc, List.take_append_drop]
    · rfl

open Session

/-- A connection in `input` or `output`, at its end of the stream. -/
structure Flows (w : Wire) (a : Endpoint) : Prop where
  callee : w.session.pc.callee ≠ .execute
  readBuffer : Grows w.session.connection.readBuffer
  writeBuffer : WellFormed w.session.connection.writeBuffer
  received : w.session.connection.readBuffer.readable = a.received
  left : w.session.connection.writeBuffer.readable = a.left
  taken : w.taken = a.taken
  count : ∀ n ∈ w.session.pc.readCount, n = w.session.connection.readBuffer.writeAble
  total : ∀ n ∈ w.session.pc.totalSize, n = w.session.connection.writeBuffer.readAble
  ended : w.session.pc = .returned .output →
    a.left = [] ∨ w.session.connection.state ≠ .connected ∨ w.session.connection.isOverTime = true

variable {w : Wire} {a : Endpoint}

/-- The coroutine goes on, and nothing is read or written. -/
theorem Flows.goesOn (h : Flows w a) {s : Session}
    (hread : s.connection.readBuffer = w.session.connection.readBuffer)
    (hwrite : s.connection.writeBuffer = w.session.connection.writeBuffer)
    (hpc : s.pc.readCount = w.session.pc.readCount ∧ s.pc.totalSize = w.session.pc.totalSize ∨ s.pc.Quiet)
    (hcallee : s.pc.callee ≠ .execute)
    (hended : s.pc = .returned .output →
      a.left = [] ∨ s.connection.state ≠ .connected ∨ s.connection.isOverTime = true) :
    Flows ⟨s, w.taken⟩ a where
  callee := hcallee
  readBuffer := by rw [hread]; exact h.readBuffer
  writeBuffer := by rw [hwrite]; exact h.writeBuffer
  received := by rw [hread]; exact h.received
  left := by rw [hwrite]; exact h.left
  taken := h.taken
  count n hn := by
    rw [hread]
    rcases hpc with ⟨hcount, -⟩ | ⟨hnone, -⟩
    · exact h.count n (hcount ▸ hn)
    · rw [hnone] at hn
      cases hn
  total n hn := by
    rw [hwrite]
    rcases hpc with ⟨-, htotal⟩ | ⟨-, hnone⟩
    · exact h.total n (htotal ▸ hn)
    · rw [hnone] at hn
      cases hn
  ended := hended

theorem Flows.returnsInput (h : Flows w a) : Flows ⟨w.session.returns .input, w.taken⟩ a :=
  h.goesOn rfl rfl (.inr ⟨rfl, rfl⟩) (fun heq => by cases heq) fun heq => by cases heq

theorem Flows.returnsOutput (h : Flows w a)
    (hended : a.left = [] ∨ w.session.connection.state ≠ .connected ∨ w.session.connection.isOverTime = true) :
    Flows ⟨w.session.returns .output, w.taken⟩ a :=
  h.goesOn rfl rfl (.inr ⟨rfl, rfl⟩) (fun heq => by cases heq) fun _ => hended

theorem Flows.resume (h : Flows w a) {pc : Pc}
    (hpc : pc.readCount = w.session.pc.readCount ∧ pc.totalSize = w.session.pc.totalSize ∨ pc.Quiet)
    (hcallee : pc.callee ≠ .execute) (hreturned : pc ≠ .returned .output) :
    Flows ⟨w.session.resume pc, w.taken⟩ a := by
  unfold Session.resume
  split
  · exact h.goesOn rfl rfl hpc hcallee fun heq => absurd heq hreturned
  · exact h

/-! ### `input` -/

theorem Flows.nextRead (h : Flows w a) :
    ∃ t, w.session.nextRead = some t ∧ Flows ⟨t, w.taken⟩ a := by
  obtain ⟨b, hroom, hgrows, hreadable⟩ := h.readBuffer.makeRoom
  refine ⟨{w.session.setReadBuffer b with pc := .read b.writeAble}, ?_, ?_⟩
  · simp only [Session.nextRead, hroom, Option.bind_eq_bind, Option.bind_some, Option.pure_def]
  · exact {
      callee := fun heq => by cases heq
      readBuffer := hgrows
      writeBuffer := h.writeBuffer
      received := hreadable.trans h.received
      left := h.left
      taken := h.taken
      count := fun n hn => (Option.some.inj hn).symm
      total := fun n hn => by cases hn
      ended := fun heq => by cases heq}

theorem Flows.enterInput (h : Flows w a) : ∃ t, w.session.enterInput = some t ∧ Flows ⟨t, w.taken⟩ a := by
  unfold Session.enterInput
  split
  · exact ⟨_, rfl, h.returnsInput⟩
  split
  · exact ⟨_, rfl, h.returnsInput⟩
  · exact h.nextRead

theorem Flows.closePath (h : Flows w a) : Flows ⟨w.session.closePath, w.taken⟩ a := by
  have hclear : w.session.clearClient.connection.readBuffer = w.session.connection.readBuffer ∧
      w.session.clearClient.connection.writeBuffer = w.session.connection.writeBuffer := by
    unfold clearClient
    split <;> exact ⟨rfl, rfl⟩
  unfold Session.closePath
  dsimp only
  split
  · exact h.goesOn hclear.1 hclear.2 (.inr ⟨rfl, rfl⟩) (fun heq => by cases heq) fun heq => by cases heq
  · exact h.goesOn hclear.1 hclear.2 (.inr ⟨rfl, rfl⟩) (fun heq => by cases heq) fun heq => by cases heq

/-- A read that brings bytes. -/
theorem Flows.readData (h : Flows w a) {n : Int} {bytes : Bytes} (hn : w.session.pc.readCount = some n)
    (hne : bytes ≠ []) (hle : (bytes.length : Int) ≤ n)
    (hsize : w.session.connection.readBuffer.readable.length + bytes.length < 2 ^ 30) :
    ∃ t, w.session.readReturns n (.data bytes) = some t ∧
      Flows ⟨t, w.taken⟩ {a with received := a.received ++ bytes} := by
  obtain ⟨b, hreceived, hgrows, hreadable⟩ := h.readBuffer.received (h.count n hn ▸ hle) hsize
  have hset : Flows ⟨(w.session.setReadBuffer b).returns .input, w.taken⟩ {a with received := a.received ++ bytes} :=
    { callee := fun heq => by cases heq
      readBuffer := hgrows
      writeBuffer := h.writeBuffer
      received := by rw [← h.received]; exact hreadable
      left := h.left
      taken := h.taken
      count := fun n hn => by cases hn
      total := fun n hn => by cases hn
      ended := fun heq => by cases heq}
  simp only [readReturns, if_neg (not_or.mpr ⟨hne, Int.not_lt.mpr hle⟩), hreceived, Option.bind_eq_bind,
    Option.bind_some, Option.pure_def]
  split
  · exact ⟨_, rfl, hset⟩
  split
  · exact hset.nextRead
  · exact ⟨_, rfl, hset⟩

/-- A read that brings none. -/
theorem Flows.readNone (h : Flows w a) (n : Int) {result : ReadResult} (hresult : result = .eof ∨ result = .error) :
    ∃ t, w.session.readReturns n result = some t ∧ Flows ⟨t, w.taken⟩ a := by
  have heq : w.session.readReturns n result =
      if w.session.connection.isOverTime then some (w.session.returns .input) else some w.session.closePath := by
    rcases hresult with rfl | rfl <;> rfl
  rw [heq]
  split
  · exact ⟨_, rfl, h.returnsInput⟩
  · exact ⟨_, rfl, h.closePath⟩

/-! ### `output` -/

theorem Flows.nextWrite (h : Flows w a) : Flows ⟨w.session.nextWrite, w.taken⟩ a := by
  unfold Session.nextWrite
  split
  · exact h.returnsOutput (.inr (.inl ‹_›))
  split
  · refine h.returnsOutput (.inl ?_)
    rw [← h.left]
    exact h.writeBuffer.readAble_eq_zero.mp ‹_›
  · exact {
      callee := fun heq => by cases heq
      readBuffer := h.readBuffer
      writeBuffer := h.writeBuffer
      received := h.received
      left := h.left
      taken := h.taken
      count := fun n hn => by cases hn
      total := fun n hn => (Option.some.inj hn).symm
      ended := fun heq => by cases heq}

theorem Flows.enterOutput (h : Flows w a) : Flows ⟨w.session.enterOutput, w.taken⟩ a := by
  unfold Session.enterOutput
  split
  · exact h.returnsOutput (.inr (.inr ‹_›))
  · exact h.nextWrite

theorem Flows.written (h : Flows w a) : Flows ⟨w.session.written, w.taken⟩ a := by
  unfold Session.written
  split
  · refine h.returnsOutput (.inl ?_)
    rw [← h.left]
    have := h.writeBuffer.readAble_nonneg
    exact h.writeBuffer.readAble_eq_zero.mp (by omega)
  split
  · exact h.returnsOutput (.inr (.inr ‹_›))
  · exact h.nextWrite

/-- A write that takes bytes takes the next ones. -/
theorem Flows.writeSent (h : Flows w a) {n : Int} {m : Nat} (hn : w.session.pc.totalSize = some n) (hpos : 0 < m)
    (hle : (m : Int) ≤ n) : handed w.session (.write (.sent m)) = some (a.left.take m) ∧
      ∃ t, w.session.writeReturns n (.sent m) = some t ∧
        Flows ⟨t, w.taken ++ a.left.take m⟩ {a with left := a.left.drop m, taken := a.taken ++ a.left.take m} := by
  have hroom : (m : Int) ≤ w.session.connection.writeBuffer.readAble := h.total n hn ▸ hle
  obtain ⟨b, hrecycle, hwf, hreadable⟩ := recycleRead_spec h.writeBuffer (Int.natCast_nonneg m) hroom
  rw [Int.toNat_natCast, h.left] at hreadable
  have htake : a.left.take m = slice w.session.connection.writeBuffer.buffer
      w.session.connection.writeBuffer.readIndex m := by
    rw [← h.left, ← slice_take hroom, Int.toNat_natCast]
    rfl
  have hread := h.writeBuffer.read
  have hsize := h.writeBuffer.size
  simp only [readAble] at hroom
  refine ⟨?_, ?_⟩
  · rw [htake]
    have hend : w.session.connection.writeBuffer.readIndex + (m : Int) ≤
        (w.session.connection.writeBuffer.buffer.length : Int) := by omega
    exact load_some (Int.natCast_nonneg m) hread hend hread hend
  · -- the size that was given is used up
    have hset : Flows ⟨{w.session.setWriteBuffer b with pc := .output}, w.taken ++ a.left.take m⟩
        {a with left := a.left.drop m, taken := a.taken ++ a.left.take m} :=
      { callee := fun heq => by cases heq
        readBuffer := h.readBuffer
        writeBuffer := hwf
        received := h.received
        left := hreadable
        taken := congrArg (· ++ _) h.taken
        count := fun n hn => by cases hn
        total := fun n hn => by cases hn
        ended := fun heq => by cases heq}
    exact ⟨(w.session.setWriteBuffer b).written, by
      simp only [writeReturns, if_neg (not_or.mpr ⟨Nat.pos_iff_ne_zero.mp hpos, Int.not_lt.mpr hle⟩), hrecycle,
        Option.bind_eq_bind, Option.bind_some, Option.pure_def], hset.written⟩

/-! ### Any script -/

variable (dispatch : RpcStruct → TcpBuffer → Option (TcpBuffer × RunTime))

/-- A step that hands nothing to the kernel. -/
theorem event_does {i : Session.Input} {t : Session} {a' : Endpoint}
    (hstep : w.session.step dispatch i = some t) (hhanded : handed w.session i = some [])
    (ht : Flows ⟨t, w.taken⟩ a') : ∃ u, event dispatch w (.io i) = some u ∧ Flows u a' := by
  refine ⟨⟨t, w.taken ++ []⟩, ?_, by rwa [List.append_nil]⟩
  simp only [event, hhanded, hstep, Option.bind_eq_bind, Option.bind_some, Option.pure_def]

/-- The hook returns, or the coroutine goes to sleep. -/
theorem Flows.answerNone (h : Flows w a) {result : ReadResult} (hresult : result = .eof ∨ result = .error) {n : Int}
    (hpc : w.session.pc = .read n ∨ w.session.pc = .readAgain n) :
    ∃ t, w.session.step dispatch (.read result) = some t ∧ Flows ⟨t, w.taken⟩ a := by
  obtain ⟨t, hread, ht⟩ := h.readNone n hresult
  rcases hpc with hpc | hpc
  · cases hmain : w.session.isMain with
    | true =>
      refine ⟨t, ?_, ht⟩
      simp only [Session.step, hpc, hmain]
      exact hread
    | false =>
      refine ⟨{w.session with pc := .readWait n}, ?_,
        h.goesOn rfl rfl (.inl (by rw [hpc]; exact ⟨rfl, rfl⟩)) (fun heq => by cases heq) fun heq => by cases heq⟩
      rcases hresult with rfl | rfl <;> simp only [Session.step, hpc, hmain]
  · refine ⟨t, ?_, ht⟩
    simp only [Session.step, hpc]
    exact hread

theorem Flows.answerData (h : Flows w a) {n : Int} {bytes : Bytes}
    (hpc : w.session.pc = .read n ∨ w.session.pc = .readAgain n) (hne : bytes ≠ []) (hle : (bytes.length : Int) ≤ n)
    (hsize : w.session.connection.readBuffer.readable.length + bytes.length < 2 ^ 30) :
    ∃ t, w.session.step dispatch (.read (.data bytes)) = some t ∧
      Flows ⟨t, w.taken⟩ {a with received := a.received ++ bytes} := by
  have hcount : w.session.pc.readCount = some n := by
    rcases hpc with hpc | hpc <;> rw [hpc] <;> rfl
  obtain ⟨t, hread, ht⟩ := h.readData hcount hne hle hsize
  refine ⟨t, ?_, ht⟩
  rcases hpc with hpc | hpc
  · cases hmain : w.session.isMain <;> simp only [Session.step, hpc, hmain] <;> exact hread
  · simp only [Session.step, hpc]
    exact hread

theorem Flows.answerFailed (h : Flows w a) {n : Int} (hpc : w.session.pc = .write n ∨ w.session.pc = .writeAgain n) :
    ∃ t, w.session.step dispatch (.write .failed) = some t ∧ Flows ⟨t, w.taken⟩ a := by
  rcases hpc with hpc | hpc
  · cases hmain : w.session.isMain with
    | true => exact ⟨_, by simp only [Session.step, hpc, hmain]; rfl, h.written⟩
    | false =>
      exact ⟨{w.session with pc := .writeWait n}, by simp only [Session.step, hpc, hmain],
        h.goesOn rfl rfl (.inl (by rw [hpc]; exact ⟨rfl, rfl⟩)) (fun heq => by cases heq) fun heq => by cases heq⟩
  · exact ⟨_, by simp only [Session.step, hpc]; rfl, h.written⟩

theorem Flows.answerSent (h : Flows w a) {n : Int} {m : Nat}
    (hpc : w.session.pc = .write n ∨ w.session.pc = .writeAgain n) (hpos : 0 < m) (hle : (m : Int) ≤ n) :
    ∃ u, event dispatch w (.io (.write (.sent m))) = some u ∧
      Flows u {a with left := a.left.drop m, taken := a.taken ++ a.left.take m} := by
  have htotal : w.session.pc.totalSize = some n := by
    rcases hpc with hpc | hpc <;> rw [hpc] <;> rfl
  obtain ⟨hhanded, t, hwrite, ht⟩ := h.writeSent htotal hpos hle
  have hstep : w.session.step dispatch (.write (.sent m)) = some t := by
    rcases hpc with hpc | hpc
    · cases hmain : w.session.isMain <;> simp only [Session.step, hpc, hmain] <;> exact hwrite
    · simp only [Session.step, hpc]
      exact hwrite
  refine ⟨_, ?_, ht⟩
  simp only [event, hhanded, hstep, Option.bind_eq_bind, Option.bind_some, Option.pure_def]

theorem Flows.answerResume (h : Flows w a) (hanswer : Answers w.session .resume) :
    ∃ t, w.session.step dispatch .resume = some t ∧ Flows ⟨t, w.taken⟩ a := by
  have hasleep : w.session.pc.asleep = true := hanswer
  cases hpc : w.session.pc with
  | readWait n =>
    exact ⟨w.session.resume (.readAgain n), by simp only [Session.step, hpc],
      h.resume (.inl (by rw [hpc]; exact ⟨rfl, rfl⟩)) (fun heq => by cases heq) fun heq => by cases heq⟩
  | closeWait =>
    exact ⟨w.session.resume (.returned .input), by simp only [Session.step, hpc],
      h.resume (.inr ⟨rfl, rfl⟩) (fun heq => by cases heq) fun heq => by cases heq⟩
  | writeWait n =>
    exact ⟨w.session.resume (.writeAgain n), by simp only [Session.step, hpc],
      h.resume (.inl (by rw [hpc]; exact ⟨rfl, rfl⟩)) (fun heq => by cases heq) fun heq => by cases heq⟩
  | _ =>
    rw [hpc] at hasleep
    cases hasleep

theorem Flows.shutdownConnection (h : Flows w a) (hreturned : w.session.pc ≠ .returned .output) :
    Flows ⟨{w.session with connection := w.session.connection.shutdownConnection}, w.taken⟩ a := by
  have hbuffers : w.session.connection.shutdownConnection.readBuffer = w.session.connection.readBuffer ∧
      w.session.connection.shutdownConnection.writeBuffer = w.session.connection.writeBuffer := by
    unfold TcpConnection.shutdownConnection
    split <;> exact ⟨rfl, rfl⟩
  exact h.goesOn hbuffers.1 hbuffers.2 (.inl ⟨rfl, rfl⟩) h.callee fun hpc => absurd hpc hreturned

/-- **Whatever comes next** is done, and is what it means for the stream. -/
theorem event_refines : Refines (event dispatch) Endpoint.event Flows Expected := by
  intro w a e h hexpected
  obtain ⟨hopen, hanswer⟩ := hexpected
  have hreturned : w.session.pc ≠ .returned .output := fun hpc => by
    rw [hpc] at hopen
    cases hopen
  cases e with
  | setOverTimeFlag value =>
    exact ⟨_, rfl, h.goesOn rfl rfl (.inl ⟨rfl, rfl⟩) h.callee fun hpc => absurd hpc hreturned⟩
  | shutdownConnection => exact ⟨_, rfl, h.shutdownConnection hreturned⟩
  | io i =>
    cases i with
    | advance =>
      rcases hanswer with hpc | hpc
      · obtain ⟨t, henter, ht⟩ := h.enterInput
        exact event_does dispatch (by simp only [Session.step, hpc]; exact henter) rfl ht
      · exact event_does dispatch (by simp only [Session.step, hpc]) rfl h.enterOutput
    | read result =>
      rcases readResult_cases result with hresult | ⟨bytes, rfl⟩
      · obtain ⟨n, hn⟩ : ∃ n, w.session.pc.reading = some n := by
          rcases hresult with rfl | rfl <;> exact Option.isSome_iff_exists.mp hanswer
        obtain ⟨t, hstep, ht⟩ := h.answerNone dispatch hresult (Pc.reading_eq hn)
        rcases hresult with rfl | rfl <;> exact event_does dispatch hstep rfl ht
      · obtain ⟨⟨n, hn, hne, hle⟩, hsize⟩ := hanswer
        obtain ⟨t, hstep, ht⟩ := h.answerData dispatch (Pc.reading_eq hn) hne hle hsize
        exact event_does dispatch hstep rfl ht
    | write result =>
      cases result with
      | sent m =>
        obtain ⟨n, hn, hpos, hle⟩ := hanswer
        exact h.answerSent dispatch (Pc.writing_eq hn) hpos hle
      | failed =>
        obtain ⟨n, hn⟩ := Option.isSome_iff_exists.mp hanswer
        obtain ⟨t, hstep, ht⟩ := h.answerFailed dispatch (Pc.writing_eq hn)
        exact event_does dispatch hstep rfl ht
    | resume =>
      obtain ⟨t, hstep, ht⟩ := h.answerResume dispatch hanswer
      exact event_does dispatch hstep rfl ht

/-- A read that is shorter than it was asked to be ends `input`. -/
theorem event_short {t : Wire} {bytes : Bytes} {n : Int} (hn : w.session.pc.reading = some n)
    (hshort : bytes.length < n) (ht : event dispatch w (.io (.read (.data bytes))) = some t) :
    t.session.pc = .returned .input := by
  simp only [event, handed, Option.bind_eq_bind, Option.bind_some, Option.bind_eq_some_iff, Option.pure_def] at ht
  obtain ⟨u, hstep, ht⟩ := ht
  obtain rfl := Option.some.inj ht
  obtain ⟨n', hpc', hreturns⟩ := step_data hstep
  have hsame : n' = n := by
    rcases hpc' with hpc' | hpc' <;> rw [hpc'] at hn <;> exact Option.some.inj hn
  obtain ⟨-, -, b, -, ⟨rfl, -⟩ | ⟨-, -, hfull⟩⟩ := readReturns_data hreturns
  · rfl
  · omega

/-- A connection whose buffers are well formed is at its end of the stream. -/
theorem flows_start {s : Session} (hread : WellFormed s.connection.readBuffer)
    (hwrite : WellFormed s.connection.writeBuffer) (hsize : s.connection.readBuffer.buffer.length < 2 ^ 30)
    (hpc : s.pc = .input ∨ s.pc = .output) :
    Flows ⟨s, []⟩ ⟨s.connection.readBuffer.readable, s.connection.writeBuffer.readable, []⟩ := by
  have hfits : s.connection.readBuffer.readable.length < 2 ^ 30 := by
    have hlen := hread.readable_length
    have hfirst := hread.read
    have hlast := hread.size
    simp only [readAble] at hlen
    omega
  obtain ⟨hcallee, hcount, htotal, hended⟩ : s.pc.callee ≠ .execute ∧ s.pc.readCount = none ∧
      s.pc.totalSize = none ∧ s.pc ≠ .returned .output := by
    rcases hpc with hpc | hpc <;> rw [hpc] <;> decide
  exact {
    callee := hcallee
    readBuffer := ⟨hread, hfits, .inr hsize⟩
    writeBuffer := hwrite
    received := rfl
    left := rfl
    taken := rfl
    count := fun n hn => by cases hcount.symm.trans hn
    total := fun n hn => by cases htotal.symm.trans hn
    ended := fun heq => absurd heq hended}

/-- **Partial reads and writes lose nothing.** What `input` has read stands behind what was there, and
what `output` has written and what is left are what there was to send. `input` returns behind a
short read, and `output` returns when nothing is left, unless it must not write. -/
theorem lossless (s : Session) (hread : WellFormed s.connection.readBuffer)
    (hwrite : WellFormed s.connection.writeBuffer) (hsize : s.connection.readBuffer.buffer.length < 2 ^ 30)
    (es : List Event) (hexpected : Meets (event dispatch) Expected ⟨s, []⟩ es) :
    (s.pc = .input → ∃ t, run (event dispatch) ⟨s, []⟩ es = some t ∧ WellFormed t.session.connection.readBuffer ∧
      t.session.connection.readBuffer.readable = s.connection.readBuffer.readable ++ delivered es ∧
      ∀ (bytes : Bytes) (n : Int) (u : Wire), t.session.pc.reading = some n → bytes.length < n →
        event dispatch t (.io (.read (.data bytes))) = some u →
        u.session.pc = .returned .input) ∧
    (s.pc = .output → ∃ t, run (event dispatch) ⟨s, []⟩ es = some t ∧ WellFormed t.session.connection.writeBuffer ∧
      t.taken ++ t.session.connection.writeBuffer.readable = s.connection.writeBuffer.readable ∧
      (t.session.pc = .returned .output → t.session.connection.writeBuffer.readable = [] ∨
        t.session.connection.state ≠ .connected ∨ t.session.connection.isOverTime = true)) := by
  constructor
  · intro hpc
    obtain ⟨t, hrun, ht⟩ := (event_refines dispatch).run (flows_start hread hwrite hsize (.inl hpc)) hexpected
    refine ⟨t, hrun, ht.readBuffer.wellFormed, ?_, fun _ _ _ hn hshort hu => event_short dispatch hn hshort hu⟩
    rw [ht.received, Endpoint.run_received]
  · intro hpc
    obtain ⟨t, hrun, ht⟩ := (event_refines dispatch).run (flows_start hread hwrite hsize (.inr hpc)) hexpected
    refine ⟨t, hrun, ht.writeBuffer, ?_, fun hreturned => ?_⟩
    · rw [ht.taken, ht.left, Endpoint.run_left]
      rfl
    · rw [ht.left]
      exact ht.ended hreturned

/-- A connection with buffers of four bytes, in front of `input`. -/
def fourBytes : Session := {connection := TcpConnection.server 5 4}

/-- A read that fills the space, one that finds nothing at first, and a short one. -/
def threeReads : List Event :=
  [.io .advance, .io (.read (.data [1, 2, 3, 4])), .io (.read .error), .io .resume, .io (.read (.data [5, 6, 7, 8])),
    .shutdownConnection, .io (.read (.data [9]))]

/-- A connection with six bytes to send, in front of `output`. -/
def sixBytes : Session :=
  {connection := {TcpConnection.server 5 4 with writeBuffer := ⟨1, 7, [0, 1, 2, 3, 4, 5, 6, 0]⟩}, pc := .output}

/-- A partial write, one that fails and is made again in part, and the last byte. -/
def threeWrites : List Event :=
  [.io .advance, .io (.write (.sent 2)), .io (.write .failed), .io .resume, .io (.write (.sent 3)),
    .io (.write (.sent 1))]

theorem lossless_readsAndWrites :
    (∃ t, run (event fun _ _ => none) ⟨fourBytes, []⟩ threeReads = some t ∧
      t.session.connection.readBuffer.readable = [1, 2, 3, 4, 5, 6, 7, 8, 9]) ∧
    ∃ t, run (event fun _ _ => none) ⟨sixBytes, []⟩ threeWrites = some t ∧
      t.taken ++ t.session.connection.writeBuffer.readable = [1, 2, 3, 4, 5, 6] := by
  constructor
  · obtain ⟨t, ht, -, hreadable, -⟩ := (lossless (fun _ _ => none) fourBytes (make_wellFormed 4 (by decide) (by decide))
      (make_wellFormed 4 (by decide) (by decide)) (by decide) threeReads (by decide)).1 rfl
    exact ⟨t, ht, hreadable⟩
  · obtain ⟨t, ht, -, htaken, -⟩ := (lossless (fun _ _ => none) sixBytes (make_wellFormed 4 (by decide) (by decide))
      ⟨by decide, by decide, by decide, by decide⟩ (by decide) threeWrites (by decide)).2 rfl
    exact ⟨t, ht, htaken⟩

end Wire

end CoroutineRpc.Net.Tcp
