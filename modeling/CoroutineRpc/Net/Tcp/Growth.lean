import CoroutineRpc.Net.Tcp.Streaming
import CoroutineRpc.Net.Http.Received

/-! How large a read buffer becomes.

`input` doubles a buffer that a read has filled and reads on, and only a short read ends it. Each
`int` it computes stays in range while a buffer that has to be doubled holds less than `2 ^ 30`
bytes (`inRange_iff_bounded`), and neither codec sees to that: a peer that is always faster than
the reads makes it double on (`not_inRange`). -/
namespace CoroutineRpc.Net.Tcp
open Rpc TcpBuffer Library.Refinement Library.Transition

inductive ProtocalType where
  | tinyPb
  | http
deriving DecidableEq

/-- `decode` on a fresh packet: whether it succeeded, and the buffer behind it. -/
def ProtocalType.decode (type : ProtocalType) (b : TcpBuffer) : Option (Bool × TcpBuffer) :=
  match type with
  | .tinyPb => (Rpc.decode b {}).map fun out => (out.data.decodeSucc, out.buf)
  | .http => (Http.decode b {}).map fun out => (out.request.decodeSucc, out.buffer)

/-- A connection that reads, and `count` of its `input`. -/
structure Receiver where
  session : Session
  count : Int := 0

namespace Receiver
open Session

inductive Event where
  | io (i : Session.Input)
  /-- A timer does this. -/
  | setOverTimeFlag (value : Bool)
  /-- The time wheel does this. -/
  | shutdownConnection

/-- What `read_hook` returns to the loop, where it does. Off the main coroutine it waits first when it
finds nothing. -/
def hookResult (s : Session) : Session.Input → Option Int
  | .read (.data bytes) => some bytes.length
  | .read result =>
    let rt := if result = .eof then 0 else -1
    match s.pc with
    | .read _ => if s.isMain then some rt else none
    | _ => some rt
  | _ => none

/-- `count += rt`. -/
def add (count : Int) : Option Int → Option Int
  | some rt => int (count + rt)
  | none => some count

/-- The loop of `execute` decodes one packet more, or ends. What is done with a packet does not
touch the read buffer. -/
def executeNext (type : ProtocalType) (s : Session) : Option Session := do
  if s.connection.readBuffer.readAble > 0 then
    let (succ, readBuffer) ← type.decode s.connection.readBuffer
    let s := s.setReadBuffer readBuffer
    pure (if succ then s else s.returns .execute)
  else pure (s.returns .execute)

/-- `input` and `execute` in turns. What a server does in `output` between them leaves the read
buffer alone. -/
def step (type : ProtocalType) (r : Receiver) : Event → Option Receiver
  | .setOverTimeFlag value =>
    some {r with session := {r.session with connection := {r.session.connection with isOverTime := value}}}
  | .shutdownConnection =>
    some {r with session := {r.session with connection := r.session.connection.shutdownConnection}}
  | .io i =>
    match r.session.pc, i with
    | .returned .input, .advance => some {r with session := {r.session with pc := .execute}}
    | .execute, .advance => (executeNext type r.session).map fun s => ⟨s, r.count⟩
    | .returned .execute, .advance => some ⟨{r.session with pc := .input}, 0⟩
    | _, i => do
      let session ← r.session.step (fun _ _ => none) i
      pure ⟨session, ← add r.count (hookResult r.session i)⟩

/-- What can come next where the coroutine stands. A read brings between one byte and as many as it
was asked for. -/
def Expected (r : Receiver) : Event → Prop
  | .io .advance => r.session.pc = .input ∨ r.session.pc = .returned .input ∨ r.session.pc = .execute ∨
      r.session.pc = .returned .execute
  | .io (.read (.data bytes)) => ∃ n ∈ r.session.pc.reading, bytes ≠ [] ∧ bytes.length ≤ n
  | .io (.read _) => r.session.pc.reading.isSome = true
  | .io (.write _) => False
  | .io .resume => r.session.pc.asleep = true
  | .setOverTimeFlag _ | .shutdownConnection => True

/-- A buffer that is full where `input` begins, or that a read fills without its being moved to the
front, holds less than `2 ^ 30` bytes. -/
def Bounded (r : Receiver) : Event → Prop
  | .io .advance => r.session.pc = .input → r.session.connection.isOverTime = false →
      r.session.connection.state ≠ .closed → r.session.connection.state ≠ .notConnected →
        r.session.connection.readBuffer.writeAble = 0 → r.session.connection.readBuffer.buffer.length < 2 ^ 30
  | .io (.read (.data bytes)) => r.session.connection.isOverTime = false →
      bytes.length = r.session.connection.readBuffer.writeAble →
        r.session.connection.readBuffer.readIndex ≤ r.session.connection.readBuffer.buffer.length / 3 →
          r.session.connection.readBuffer.buffer.length < 2 ^ 30
  | _ => True

end Receiver

instance (r : Receiver) : ∀ e : Receiver.Event, Decidable (r.Expected e)
  | .io .advance => inferInstanceAs (Decidable (_ ∨ _))
  | .io (.read (.data bytes)) =>
    inferInstanceAs (Decidable (∃ n ∈ r.session.pc.reading, bytes ≠ [] ∧ bytes.length ≤ n))
  | .io (.read .eof) | .io (.read .error) | .io .resume => inferInstanceAs (Decidable (_ = _))
  | .io (.write _) => inferInstanceAs (Decidable False)
  | .setOverTimeFlag _ | .shutdownConnection => inferInstanceAs (Decidable True)

/-! ### What a step does to the buffer -/

namespace TcpBuffer

theorem makeRoom_none {b : TcpBuffer} (hfull : b.writeAble = 0) (hsize : ¬ b.buffer.length < 2 ^ 30) :
    b.makeRoom = none := by
  rw [TcpBuffer.makeRoom, if_pos hfull, int, if_neg (by omega)]
  rfl

/-- A read fills the vector where it fills the space, and the bytes are not moved to the front. -/
theorem received_full {b b' : TcpBuffer} {bytes : Bytes} (h : WellFormed b)
    (hroom : (bytes.length : Int) ≤ b.writeAble) (hreceived : b.received bytes = some b') :
    b'.buffer.length = b.buffer.length ∧
      (bytes.length = b.writeAble → (b'.writeAble = 0 ↔ b.readIndex ≤ b.buffer.length / 3)) := by
  have hread := h.read
  have hwrite := h.write
  have hsize := h.size
  have hfits := h.fits
  simp only [writeAble] at hroom
  have hstore := @store_some b.buffer bytes b.writeIndex (by omega) (by omega)
  have hlength := store_length hstore
  have hnotPast : ¬ b.writeIndex + (bytes.length : Int) > ((b.buffer.take b.writeIndex.toNat ++ bytes ++
      b.buffer.drop (b.writeIndex.toNat + bytes.length)).length : Int) := by
    rw [hlength]
    omega
  simp only [received, recycleWrite, hstore, Option.bind_eq_bind, Option.bind_some,
    int_some (n := b.writeIndex + bytes.length) ⟨by omega, by omega⟩, if_neg hnotPast] at hreceived
  obtain ⟨hkeeps, -, -⟩ := adjustBuffer_index hreceived
  have hsame := hkeeps.trans hlength
  refine ⟨hsame, fun hall => ?_⟩
  simp only [writeAble] at hall ⊢
  unfold TcpBuffer.adjustBuffer adjustBufferVia at hreceived
  dsimp only at hreceived
  rw [hlength] at hreceived
  by_cases hthird : b.readIndex > b.buffer.length / 3
  · rw [if_pos hthird] at hreceived
    simp only [Option.bind_eq_bind, Option.bind_eq_some_iff, Option.pure_def] at hreceived
    obtain ⟨moved, -, buffer, -, h⟩ := hreceived
    have hindex : b.writeIndex + (bytes.length : Int) - b.readIndex = b'.writeIndex :=
      congrArg TcpBuffer.writeIndex (Option.some.inj h)
    omega
  · rw [if_neg hthird] at hreceived
    have hindex : b.writeIndex + (bytes.length : Int) = b'.writeIndex :=
      congrArg TcpBuffer.writeIndex (Option.some.inj hreceived)
    omega

end TcpBuffer

theorem ProtocalType.decode_spec (type : ProtocalType) {b : TcpBuffer} (h : WellFormed b) :
    ∃ succ b', type.decode b = some (succ, b') ∧ WellFormed b' := by
  cases type with
  | tinyPb =>
    obtain ⟨out, hout, hwf, -⟩ := decode_receive h {}
    exact ⟨out.data.decodeSucc, out.buf, by simp only [ProtocalType.decode, hout, Option.map_some], hwf⟩
  | http =>
    obtain ⟨b', hfresh, hwf, -⟩ := Http.decodeFresh_refines b h
    rw [Http.decodeFresh, Option.bind_eq_bind, Option.bind_eq_some_iff] at hfresh
    obtain ⟨out, hout, hpure⟩ := hfresh
    obtain rfl : out.buffer = b' := congrArg Prod.snd (Option.some.inj hpure)
    exact ⟨out.request.decodeSucc, out.buffer, by simp only [ProtocalType.decode, hout, Option.map_some], hwf⟩

/-! ### What the steps keep -/

namespace Receiver
open Session

structure Receives (r : Receiver) : Prop where
  callee : r.session.pc.callee ≠ .output
  buffer : WellFormed r.session.connection.readBuffer
  /-- What this `input` has read is in the buffer. -/
  count : ∀ n ∈ r.session.pc.readCount, n = r.session.connection.readBuffer.writeAble ∧ 0 ≤ r.count ∧
    r.count ≤ r.session.connection.readBuffer.readAble
  fresh : r.session.pc = .input → r.count = 0

variable {type : ProtocalType} {r : Receiver}

/-- The coroutine goes on, and no read is under way. -/
theorem Receives.moves (h : Receives r) {s : Session} (c : Int)
    (hread : s.connection.readBuffer = r.session.connection.readBuffer) (hcallee : s.pc.callee ≠ .output)
    (hcount : s.pc.readCount = none) (hfresh : s.pc = .input → c = 0) : Receives ⟨s, c⟩ where
  callee := hcallee
  buffer := hread ▸ h.buffer
  count n hn := by
    rw [hcount] at hn
    cases hn
  fresh := hfresh

/-- The coroutine goes on with the read that is under way, if one is. -/
theorem Receives.stays (h : Receives r) {s : Session}
    (hread : s.connection.readBuffer = r.session.connection.readBuffer) (hcallee : s.pc.callee ≠ .output)
    (hcount : s.pc.readCount = r.session.pc.readCount) (hfresh : s.pc = .input → r.session.pc = .input) :
    Receives ⟨s, r.count⟩ where
  callee := hcallee
  buffer := hread ▸ h.buffer
  count n hn := by
    rw [hread]
    exact h.count n (hcount ▸ hn)
  fresh heq := h.fresh (hfresh heq)

theorem Receives.returns (h : Receives r) (c : Int) {callee : Callee} (hcallee : callee ≠ .output) :
    Receives ⟨r.session.returns callee, c⟩ :=
  h.moves c rfl hcallee rfl fun heq => by cases heq

theorem Receives.closePath (h : Receives r) (c : Int) : Receives ⟨r.session.closePath, c⟩ := by
  have hclear : r.session.clearClient.connection.readBuffer = r.session.connection.readBuffer := by
    unfold clearClient
    split <;> rfl
  unfold Session.closePath
  dsimp only
  split
  · exact h.moves c hclear (fun heq => by cases heq) rfl fun heq => by cases heq
  · exact h.moves c hclear (fun heq => by cases heq) rfl fun heq => by cases heq

/-- A buffer that is full is doubled in front of a read. -/
theorem nextRead_receives {s : Session} {c : Int} (hbuffer : WellFormed s.connection.readBuffer)
    (hcount : 0 ≤ c ∧ c ≤ s.connection.readBuffer.readAble)
    (hsize : s.connection.readBuffer.writeAble = 0 → s.connection.readBuffer.buffer.length < 2 ^ 30) :
    ∃ t, s.nextRead = some t ∧ Receives ⟨t, c⟩ := by
  obtain ⟨b, hroom, hwf, hreadable, -⟩ := makeRoom_some hbuffer hsize
  have hsame : b.readAble = s.connection.readBuffer.readAble := by
    rw [← hwf.readable_length, ← hbuffer.readable_length, hreadable]
  refine ⟨{s.setReadBuffer b with pc := .read b.writeAble}, ?_, fun heq => (by cases heq), hwf, fun n hn => ?_,
    fun heq => by cases heq⟩
  · simp only [Session.nextRead, hroom, Option.bind_eq_bind, Option.bind_some, Option.pure_def]
  · exact ⟨(Option.some.inj hn).symm, hcount.1, hsame ▸ hcount.2⟩

theorem nextRead_none {s : Session} (hfull : s.connection.readBuffer.writeAble = 0)
    (hsize : ¬ s.connection.readBuffer.buffer.length < 2 ^ 30) : s.nextRead = none := by
  simp only [Session.nextRead, makeRoom_none hfull hsize, Option.bind_eq_bind, Option.bind_none]

/-- The step is enabled where the guard allows it, and nowhere else. -/
def Steps (type : ProtocalType) (r : Receiver) (e : Event) : Prop :=
  (∃ t, step type r e = some t ∧ Receives t) ∧ Bounded r e ∨ step type r e = none ∧ ¬ Bounded r e

theorem Receives.enterInput (h : Receives r) (hpc : r.session.pc = .input) : Steps type r (.io .advance) := by
  have hstep : step type r (.io .advance) = r.session.enterInput.map fun s => ⟨s, r.count⟩ := by
    simp only [step, hpc, Session.step, hookResult, add, Option.bind_eq_bind, Option.pure_def, Option.bind_some]
    cases r.session.enterInput <;> rfl
  unfold Steps
  rw [hstep]
  unfold Session.enterInput
  split
  · rename_i hover
    exact .inl ⟨⟨_, rfl, h.returns r.count (by decide)⟩, fun _ hopen => by rw [hover] at hopen; cases hopen⟩
  rename_i hover
  split
  · rename_i hstate
    exact .inl ⟨⟨_, rfl, h.returns r.count (by decide)⟩, fun _ _ hclosed hconnected =>
      absurd hstate (not_or.mpr ⟨hclosed, hconnected⟩)⟩
  rename_i hstate
  obtain ⟨hclosed, hconnected⟩ := not_or.mp hstate
  by_cases hsize : r.session.connection.readBuffer.writeAble = 0 →
      r.session.connection.readBuffer.buffer.length < 2 ^ 30
  · have hzero : 0 ≤ r.count ∧ r.count ≤ r.session.connection.readBuffer.readAble := by
      rw [h.fresh hpc]
      exact ⟨Int.le_refl 0, h.buffer.readAble_nonneg⟩
    obtain ⟨t, hnext, ht⟩ := nextRead_receives h.buffer hzero hsize
    exact .inl ⟨⟨_, by rw [hnext, Option.map_some], ht⟩, fun _ _ _ _ => hsize⟩
  · obtain ⟨hfull, hlarge⟩ := Classical.not_imp.mp hsize
    refine .inr ⟨by rw [nextRead_none hfull hlarge, Option.map_none], fun hbounded => hlarge ?_⟩
    exact hbounded hpc (Bool.not_eq_true _ ▸ hover) hclosed hconnected hfull

/-- What `count` is behind a read that brings bytes. -/
theorem Receives.counts (h : Receives r) {n : Int} {bytes : Bytes} (hcount : r.session.pc.readCount = some n)
    (hle : (bytes.length : Int) ≤ n) {b : TcpBuffer}
    (hreadable : b.readable = r.session.connection.readBuffer.readable ++ bytes) (hwf : WellFormed b) :
    int (r.count + bytes.length) = some (r.count + bytes.length) ∧ 0 ≤ r.count + bytes.length ∧
      r.count + bytes.length ≤ b.readAble := by
  obtain ⟨rfl, hnonneg, hread⟩ := h.count n hcount
  have hlen := hwf.readable_length
  have hlen' := h.buffer.readable_length
  rw [hreadable, List.length_append] at hlen
  have hfirst := hwf.read
  have hsize := hwf.size
  have hfits := hwf.fits
  have hrange : r.count + bytes.length ≤ b.readAble := by omega
  refine ⟨int_some ⟨by omega, ?_⟩, by omega, hrange⟩
  simp only [readAble] at hrange
  omega

theorem Receives.readData (h : Receives r) {n : Int} {bytes : Bytes} (hcount : r.session.pc.readCount = some n)
    (hne : bytes ≠ []) (hle : (bytes.length : Int) ≤ n) :
    int (r.count + bytes.length) = some (r.count + bytes.length) ∧
      ((∃ t, r.session.readReturns n (.data bytes) = some t ∧ Receives ⟨t, r.count + bytes.length⟩) ∧
          Bounded r (.io (.read (.data bytes))) ∨
        r.session.readReturns n (.data bytes) = none ∧ ¬ Bounded r (.io (.read (.data bytes)))) := by
  obtain ⟨hn, -⟩ := h.count n hcount
  have hroom : (bytes.length : Int) ≤ r.session.connection.readBuffer.writeAble := hn ▸ hle
  obtain ⟨b, hreceived, hwf, hreadable⟩ := received_spec h.buffer hroom
  obtain ⟨hlength, hfull⟩ := received_full h.buffer hroom hreceived
  obtain ⟨hint, hcounts⟩ := h.counts hcount hle hreadable hwf
  refine ⟨hint, ?_⟩
  have hset : ∀ callee, callee ≠ Callee.output →
      Receives ⟨(r.session.setReadBuffer b).returns callee, r.count + bytes.length⟩ :=
    fun callee hcallee => ⟨hcallee, hwf, fun n hn => (by cases hn), fun heq => by cases heq⟩
  cases hover : r.session.connection.isOverTime with
  | true =>
    refine .inl ⟨⟨_, ?_, hset .input (by decide)⟩, fun hopen => by rw [hover] at hopen; cases hopen⟩
    have hover' : (r.session.setReadBuffer b).connection.isOverTime = true := hover
    simp only [readReturns, if_neg (not_or.mpr ⟨hne, Int.not_lt.mpr hle⟩), hreceived, Option.bind_eq_bind,
      Option.bind_some, Option.pure_def, if_pos hover']
  | false =>
    have hover' : ¬ (r.session.setReadBuffer b).connection.isOverTime = true := by
      show ¬ r.session.connection.isOverTime = true
      rw [hover]
      decide
    have hread : r.session.readReturns n (.data bytes) =
        if (bytes.length : Int) = n then (r.session.setReadBuffer b).nextRead
        else some ((r.session.setReadBuffer b).returns .input) := by
      simp only [readReturns, if_neg (not_or.mpr ⟨hne, Int.not_lt.mpr hle⟩), hreceived, Option.bind_eq_bind,
        Option.bind_some, Option.pure_def, if_neg hover']
    rw [hread]
    by_cases hall : (bytes.length : Int) = n
    swap
    · rw [if_neg hall]
      exact .inl ⟨⟨_, rfl, hset .input (by decide)⟩, fun _ hwhole => absurd (hwhole.trans hn.symm) hall⟩
    rw [if_pos hall]
    have hfull := hfull (hall.trans hn)
    by_cases hsize : b.writeAble = 0 → b.buffer.length < 2 ^ 30
    · obtain ⟨t, hnext, ht⟩ := nextRead_receives (s := r.session.setReadBuffer b) hwf hcounts hsize
      exact .inl ⟨⟨t, hnext, ht⟩, fun _ _ hthird => hlength ▸ hsize (hfull.mpr hthird)⟩
    · obtain ⟨hempty, hlarge⟩ := Classical.not_imp.mp hsize
      refine .inr ⟨nextRead_none (s := r.session.setReadBuffer b) hempty hlarge, fun hbounded => hlarge ?_⟩
      rw [hlength]
      exact hbounded hover (hall.trans hn) (hfull.mp hempty)

/-- A read is answered in the coroutine that waits for it. -/
theorem step_reading (type : ProtocalType) {n : Int} (hpc : r.session.pc = .read n ∨ r.session.pc = .readAgain n)
    (result : ReadResult) : step type r (.io (.read result)) = (do
      let session ← r.session.step (fun _ _ => none) (.read result)
      pure ⟨session, ← add r.count (hookResult r.session (.read result))⟩) := by
  rcases hpc with hpc | hpc <;> simp only [step, hpc]

theorem step_data {s : Session} {n : Int} (hpc : s.pc = .read n ∨ s.pc = .readAgain n) (bytes : Bytes) :
    s.step (fun _ _ => none) (.read (.data bytes)) = s.readReturns n (.data bytes) := by
  rcases hpc with hpc | hpc
  · cases hmain : s.isMain <;> simp only [Session.step, hpc, hmain]
  · simp only [Session.step, hpc]

theorem Receives.answerData (h : Receives r) {bytes : Bytes} (he : Expected r (.io (.read (.data bytes)))) :
    Steps type r (.io (.read (.data bytes))) := by
  obtain ⟨n, hn, hne, hle⟩ := he
  have hpc := Pc.reading_eq hn
  have hcount : r.session.pc.readCount = some n := by
    rcases hpc with hpc | hpc <;> rw [hpc] <;> rfl
  obtain ⟨hint, hread⟩ := h.readData hcount hne hle
  have hstep : step type r (.io (.read (.data bytes))) =
      (r.session.readReturns n (.data bytes)).map fun s => ⟨s, r.count + bytes.length⟩ := by
    have hadd : add r.count (hookResult r.session (.read (.data bytes))) = some (r.count + bytes.length) := hint
    rw [step_reading type hpc, step_data hpc, hadd]
    cases r.session.readReturns n (.data bytes) <;> rfl
  unfold Steps
  rw [hstep]
  rcases hread with ⟨⟨t, hread, ht⟩, hbounded⟩ | ⟨hread, hbounded⟩
  · exact .inl ⟨⟨_, by rw [hread, Option.map_some], ht⟩, hbounded⟩
  · exact .inr ⟨by rw [hread, Option.map_none], hbounded⟩

theorem hookResult_returns {s : Session} {result : ReadResult} (hresult : result = .eof ∨ result = .error)
    (hwhere : s.isMain = true ∨ ∀ m, s.pc ≠ .read m) :
    hookResult s (.read result) = some (if result = .eof then 0 else -1) := by
  have heq : hookResult s (.read result) = match s.pc with
      | .read _ => if s.isMain then some (if result = .eof then 0 else -1) else none
      | _ => some (if result = .eof then 0 else -1) := by
    rcases hresult with rfl | rfl <;> rfl
  rw [heq]
  split
  · rename_i m hpc
    exact if_pos (hwhere.resolve_right fun hne => hne m hpc)
  · rfl

/-- The hook returns nothing, or the coroutine goes to sleep. -/
theorem Receives.answerNone (h : Receives r) {result : ReadResult} (hresult : result = .eof ∨ result = .error)
    {n : Int} (hn : r.session.pc.reading = some n) :
    ∃ t, step type r (.io (.read result)) = some t ∧ Receives t := by
  have hpc := Pc.reading_eq hn
  have hcount : r.session.pc.readCount = some n := by
    rcases hpc with hpc | hpc <;> rw [hpc] <;> rfl
  obtain ⟨-, hnonneg, hread⟩ := h.count n hcount
  have hrange := h.buffer.fits
  have hfirst := h.buffer.read
  have hsize := h.buffer.size
  simp only [readAble] at hread
  -- `rt` is zero or one below
  obtain ⟨rt, hrt, hsmall⟩ : ∃ rt : Int, (if result = .eof then 0 else -1) = rt ∧ -1 ≤ rt ∧ rt ≤ 0 :=
    ⟨_, rfl, by split <;> omega, by split <;> omega⟩
  have hint : int (r.count + rt) = some (r.count + rt) := int_some ⟨by omega, by omega⟩
  have hreturns : ∃ t, r.session.readReturns n result = some t ∧ Receives ⟨t, r.count + rt⟩ := by
    have heq : r.session.readReturns n result =
        if r.session.connection.isOverTime then some (r.session.returns .input) else some r.session.closePath := by
      rcases hresult with rfl | rfl <;> rfl
    rw [heq]
    split
    · exact ⟨_, rfl, h.returns _ (by decide)⟩
    · exact ⟨_, rfl, h.closePath _⟩
  obtain ⟨t, hread, ht⟩ := hreturns
  have hdone : r.session.isMain = true ∨ r.session.pc = .readAgain n →
      step type r (.io (.read result)) = some ⟨t, r.count + rt⟩ := by
    intro hwhere
    have hsession : r.session.step (fun _ _ => none) (.read result) = some t := by
      rcases hwhere with hmain | hpc'
      · rcases hpc with hpc | hpc <;> simp only [Session.step, hpc, hmain] <;> exact hread
      · simp only [Session.step, hpc']
        exact hread
    have hhook : hookResult r.session (.read result) = some rt := by
      rw [← hrt]
      exact hookResult_returns hresult (hwhere.imp_right fun hpc' m heq => by cases hpc'.symm.trans heq)
    rw [step_reading type hpc, hsession, hhook]
    simp only [add, hint, Option.bind_eq_bind, Option.bind_some, Option.pure_def]
  cases hmain : r.session.isMain with
  | true => exact ⟨_, hdone (.inl hmain), ht⟩
  | false =>
    rcases hpc with hpc | hpc
    swap
    · exact ⟨_, hdone (.inr hpc), ht⟩
    refine ⟨⟨{r.session with pc := .readWait n}, r.count⟩, ?_,
      h.stays rfl (fun heq => by cases heq) (by rw [hpc]; rfl) fun heq => by cases heq⟩
    rcases hresult with rfl | rfl <;>
      simp only [step, hpc, Session.step, hmain, hookResult, add, Option.bind_eq_bind, Option.bind_some,
        Option.pure_def, Bool.false_eq_true, if_false]

theorem Receives.answerResume (h : Receives r) (he : Expected r (.io .resume)) :
    ∃ t, step type r (.io .resume) = some t ∧ Receives t := by
  have hasleep : r.session.pc.asleep = true := he
  have hresume : ∀ pc, pc.readCount = r.session.pc.readCount → pc.callee ≠ .output → pc ≠ .input →
      Receives ⟨r.session.resume pc, r.count⟩ := by
    intro pc hcount hcallee hne
    unfold Session.resume
    split
    · exact h.stays rfl hcallee hcount fun heq => absurd heq hne
    · exact h
  cases hpc : r.session.pc with
  | readWait n =>
    refine ⟨_, ?_, hresume (.readAgain n) (by rw [hpc]; rfl) (fun heq => by cases heq)
      fun heq => by cases heq⟩
    simp only [step, hpc, Session.step, hookResult, add, Option.bind_eq_bind, Option.bind_some, Option.pure_def]
  | closeWait =>
    refine ⟨_, ?_, hresume (.returned .input) (by rw [hpc]; rfl) (fun heq => by cases heq)
      fun heq => by cases heq⟩
    simp only [step, hpc, Session.step, hookResult, add, Option.bind_eq_bind, Option.bind_some, Option.pure_def]
  | writeWait n => exact absurd (by rw [hpc]; rfl) h.callee
  | _ =>
    rw [hpc] at hasleep
    cases hasleep

theorem Receives.executeNext (h : Receives r) (hpc : r.session.pc = .execute) :
    ∃ t, step type r (.io .advance) = some t ∧ Receives t := by
  simp only [step, hpc, Receiver.executeNext]
  split
  swap
  · exact ⟨_, rfl, h.returns r.count (by decide)⟩
  obtain ⟨succ, b, hdecode, hwf⟩ := type.decode_spec h.buffer
  simp only [hdecode, Option.bind_eq_bind, Option.bind_some, Option.pure_def, Option.map_some]
  refine ⟨_, rfl, ?_⟩
  cases succ with
  | true =>
    refine ⟨by show r.session.pc.callee ≠ _; rw [hpc]; decide, hwf, fun n hn => ?_, fun heq => ?_⟩
    · have hnone : r.session.pc.readCount = none := by rw [hpc]; rfl
      cases hnone.symm.trans hn
    · cases hpc.symm.trans heq
  | false => exact ⟨fun heq => (by cases heq), hwf, fun n hn => (by cases hn), fun heq => by cases heq⟩

/-- **Whatever comes next** is done exactly where the guard allows it. -/
theorem Receives.steps (type : ProtocalType) (h : Receives r) {e : Event} (he : Expected r e) : Steps type r e := by
  cases e with
  | setOverTimeFlag value =>
    exact .inl ⟨⟨_, rfl, h.stays rfl h.callee rfl id⟩, trivial⟩
  | shutdownConnection =>
    refine .inl ⟨⟨_, rfl, h.stays ?_ h.callee rfl id⟩, trivial⟩
    show r.session.connection.shutdownConnection.readBuffer = _
    unfold TcpConnection.shutdownConnection
    split <;> rfl
  | io i =>
    cases i with
    | advance =>
      rcases he with hpc | hpc | hpc | hpc
      · exact h.enterInput hpc
      · refine .inl ⟨⟨⟨{r.session with pc := .execute}, r.count⟩, by simp only [step, hpc],
          h.moves r.count rfl (fun heq => by cases heq) rfl fun heq => by cases heq⟩, fun heq => ?_⟩
        cases hpc.symm.trans heq
      · exact .inl ⟨h.executeNext hpc, fun heq => by cases hpc.symm.trans heq⟩
      · refine .inl ⟨⟨⟨{r.session with pc := .input}, 0⟩, by simp only [step, hpc],
          h.moves 0 rfl (fun heq => by cases heq) rfl fun _ => rfl⟩, fun heq => ?_⟩
        cases hpc.symm.trans heq
    | read result =>
      rcases readResult_cases result with hresult | ⟨bytes, rfl⟩
      · obtain ⟨n, hn⟩ : ∃ n, r.session.pc.reading = some n := by
          rcases hresult with rfl | rfl <;> exact Option.isSome_iff_exists.mp he
        refine .inl ⟨h.answerNone hresult hn, ?_⟩
        rcases hresult with rfl | rfl <;> exact trivial
      · exact h.answerData he
    | write result => exact he.elim
    | resume => exact .inl ⟨h.answerResume he, trivial⟩

theorem Steps.enabled {e : Event} (h : Steps type r e) : (∃ t, step type r e = some t) ↔ Bounded r e := by
  rcases h with ⟨⟨t, ht, -⟩, hbounded⟩ | ⟨hnone, hbounded⟩
  · exact iff_of_true ⟨t, ht⟩ hbounded
  · exact iff_of_false (fun ⟨t, ht⟩ => by cases hnone.symm.trans ht) hbounded

theorem Steps.receives {e : Event} (h : Steps type r e) {t : Receiver} (ht : step type r e = some t) :
    Receives t := by
  rcases h with ⟨⟨u, hu, hreceives⟩, -⟩ | ⟨hnone, -⟩
  · exact Option.some.inj (hu.symm.trans ht) ▸ hreceives
  · cases hnone.symm.trans ht

/-! ### Any run -/

/-- A connection in front of `input`, with a buffer that nothing was read into. -/
theorem receives_start {s : Session} {buffSize : Int} (hsize : 0 ≤ buffSize ∧ buffSize < 2 ^ 31)
    (hbuffer : s.connection.readBuffer = .make buffSize) (hpc : s.pc = .input) : Receives ⟨s, 0⟩ where
  callee := by rw [hpc]; decide
  buffer := hbuffer ▸ make_wellFormed buffSize hsize.1 hsize.2
  count n hn := by
    rw [hpc] at hn
    cases hn
  fresh _ := rfl

/-- **No `int` that `input` computes overflows**, and no size that it gives is negative, in exactly the
runs that never have to double a buffer of `2 ^ 30` bytes. -/
theorem inRange_iff_bounded (type : ProtocalType) (s : Session) (buffSize : Int)
    (hsize : 0 ≤ buffSize ∧ buffSize < 2 ^ 31) (hbuffer : s.connection.readBuffer = .make buffSize)
    (hpc : s.pc = .input) (es : List Event) (hexpected : Meets (step type) Expected ⟨s, 0⟩ es) :
    (∃ t, run (step type) ⟨s, 0⟩ es = some t) ↔ Meets (step type) Bounded ⟨s, 0⟩ es :=
  enabled_iff_meets (fun _ _ _ h he ht => (h.steps type he).receives ht) (fun _ _ h he => (h.steps type he).enabled)
    (receives_start hsize hbuffer hpc) hexpected

theorem inRange_iff_bounded_short :
    (∃ t, run (step .http) ⟨Wire.fourBytes, 0⟩ [.io .advance, .io (.read (.data [71, 69])), .io .advance] = some t) ↔
      Meets (step .http) Bounded ⟨Wire.fourBytes, 0⟩ [.io .advance, .io (.read (.data [71, 69])), .io .advance] :=
  inRange_iff_bounded .http Wire.fourBytes 4 (by decide) rfl rfl _ (by decide)

/-! ### A peer that is faster than the reads -/

/-- In front of a read that may fill the buffer. -/
structure Filling (r : Receiver) (written space : Nat) : Prop where
  receives : Receives r
  pc : r.session.pc = .read space
  isOverTime : r.session.connection.isOverTime = false
  readIndex : r.session.connection.readBuffer.readIndex = 0
  writeIndex : r.session.connection.readBuffer.writeIndex = written
  size : r.session.connection.readBuffer.buffer.length = written + space

/-- It is filled. -/
def fill (space : Nat) : Event := .io (.read (.data (List.replicate space 0)))

theorem Filling.expected {i n : Nat} (h : Filling r i n) (hn : 0 < n) : Expected r (fill n) :=
  ⟨n, by rw [h.pc]; rfl, by rw [ne_eq, List.replicate_eq_nil_iff]; omega, by rw [List.length_replicate]⟩

theorem Filling.bounded_iff {i n : Nat} (h : Filling r i n) : Bounded r (fill n) ↔ i + n < 2 ^ 30 := by
  have hsize := h.size
  have hindex := h.readIndex
  have hwritten := h.writeIndex
  have hall : ((List.replicate n (0 : Byte)).length : Int) = r.session.connection.readBuffer.writeAble := by
    rw [List.length_replicate]
    simp only [writeAble]
    omega
  constructor
  · intro hbounded
    have := hbounded h.isOverTime hall (by omega)
    omega
  · intro hlt _ _ _
    omega

/-- The buffer is doubled, and the next read may fill it again. -/
theorem Filling.step (type : ProtocalType) {i n : Nat} (h : Filling r i n) (hn : 0 < n) (hsize : i + n < 2 ^ 30) :
    ∃ t, Receiver.step type r (fill n) = some t ∧ Filling t (i + n) (i + n) := by
  rcases h.receives.steps type (h.expected hn) with ⟨⟨t, ht, hreceives⟩, -⟩ | ⟨-, hbounded⟩
  swap
  · exact absurd (h.bounded_iff.mpr hsize) hbounded
  refine ⟨t, ht, ?_⟩
  obtain ⟨session, count⟩ := t
  have hread : r.session.readReturns n (.data (List.replicate n 0)) = some session := by
    rw [fill, step_reading type (.inl h.pc), step_data (.inl h.pc)] at ht
    simp only [Option.bind_eq_bind, Option.bind_eq_some_iff, Option.pure_def] at ht
    obtain ⟨s, hs, c, -, ht⟩ := ht
    obtain ⟨rfl, rfl⟩ := Receiver.mk.inj (Option.some.inj ht)
    exact hs
  obtain ⟨-, -, b, hreceived, ⟨-, hover | hshort⟩ | ⟨hnext, -, -⟩⟩ := readReturns_data hread
  · rw [h.isOverTime] at hover
    cases hover
  · rw [List.length_replicate] at hshort
    omega
  have hread := h.readIndex
  have hwrite := h.writeIndex
  have hlength := h.size
  have hroom : ((List.replicate n (0 : Byte)).length : Int) ≤ r.session.connection.readBuffer.writeAble := by
    rw [List.length_replicate]
    simp only [writeAble]
    omega
  obtain ⟨b', hb', hwf, hreadable⟩ := received_spec h.receives.buffer hroom
  obtain rfl := Option.some.inj (hb'.symm.trans hreceived)
  obtain ⟨hkeeps, -, hfirst⟩ := received_index (by simp only [writeAble] at hroom; omega) hreceived
  have hbytes := congrArg List.length hreadable
  have hlen := h.receives.buffer.readable_length
  have hlen' := hwf.readable_length
  rw [List.length_append, List.length_replicate] at hbytes
  simp only [readAble] at hlen hlen'
  obtain ⟨c, hmake, rfl⟩ := nextRead_some hnext
  have hfull : b'.writeAble = 0 := by
    simp only [writeAble]
    omega
  obtain ⟨c', hc', hwf', hreadable', hdouble, -⟩ := makeRoom_some hwf fun _ => by omega
  obtain rfl := Option.some.inj (hc'.symm.trans hmake)
  obtain ⟨hzero, htwice⟩ := hdouble hfull
  have hlast := hwf'.readable_length
  rw [hreadable'] at hlast
  simp only [readAble] at hlast
  have hwritten : c'.writeIndex = (i + n : Nat) := by omega
  refine ⟨hreceives, ?_, ?_, hzero, hwritten, ?_⟩
  · show Pc.read c'.writeAble = _
    congr 1
    simp only [writeAble]
    omega
  · exact h.isOverTime
  · show c'.buffer.length = _
    omega

/-- A peer that fills the buffer again and again. -/
def fills : Nat → Nat → List Event
  | _, 0 => []
  | n, k + 1 => fill n :: fills (2 * n) k

theorem Filling.run (type : ProtocalType) {k n : Nat} (h : Filling r n n) (hn : 0 < n) (hlast : 2 ^ k * n = 2 ^ 29) :
    Meets (Receiver.step type) Expected r (fills n (k + 1)) ∧
      run (Receiver.step type) r (fills n (k + 1)) = none := by
  induction k generalizing r n with
  | zero =>
    rw [pow_zero, Nat.one_mul] at hlast
    have hnone : Receiver.step type r (fill n) = none := by
      have hsteps := h.receives.steps type (h.expected hn)
      have hbounded : ¬ Bounded r (fill n) := fun hb => by
        have := h.bounded_iff.mp hb
        omega
      rcases hsteps with ⟨-, hb⟩ | ⟨hnone, -⟩
      · exact absurd hb hbounded
      · exact hnone
    refine ⟨⟨h.expected hn, fun t ht => by cases hnone.symm.trans ht⟩, ?_⟩
    simp only [fills, run_cons, hnone, Option.bind_none]
  | succ k ih =>
    have hsmall : n + n < 2 ^ 30 := by
      have hpos : 1 ≤ 2 ^ k := Nat.one_le_two_pow
      have : 2 * n ≤ 2 ^ (k + 1) * n := by
        rw [pow_succ, Nat.mul_assoc]
        exact Nat.le_mul_of_pos_left _ hpos
      omega
    obtain ⟨t, ht, hfilling⟩ := h.step type hn hsmall
    rw [← Nat.two_mul] at hfilling
    obtain ⟨hmeets, hnone⟩ := ih hfilling (by omega) (by rw [← hlast, pow_succ, Nat.mul_assoc])
    refine ⟨⟨h.expected hn, fun u hu => ?_⟩, ?_⟩
    · obtain rfl := Option.some.inj (ht.symm.trans hu)
      exact hmeets
    · rw [fills, run_cons, ht, Option.bind_some, hnone]

/-- A connection as a server accepts it. -/
def accepted : Session := {connection := TcpConnection.server 5 128}

/-- From the first `input` on, each read fills the buffer. -/
def endless : List Event := .io .advance :: fill 128 :: fills 128 23

/-- `input` reads into a fresh buffer as it is. -/
theorem filling_start (type : ProtocalType) {s : Session} {n : Nat} (hn : 0 < n ∧ n < 2 ^ 31)
    (hbuffer : s.connection.readBuffer = .make n) (hpc : s.pc = .input)
    (hover : s.connection.isOverTime = false) (hstate : s.connection.state = .connected) :
    ∃ t, step type ⟨s, 0⟩ (.io .advance) = some t ∧ Filling t 0 n := by
  have hsize : s.connection.readBuffer.buffer.length = n := by
    rw [hbuffer]
    exact List.length_replicate
  have hroom : s.connection.readBuffer.writeAble = n := by
    rw [writeAble, hsize, hbuffer]
    exact Int.sub_zero _
  have hreceives : Receives ⟨s, 0⟩ := receives_start (by omega) hbuffer hpc
  have hnext : s.nextRead = some {s with pc := .read n} := by
    have hmake : s.connection.readBuffer.makeRoom = some s.connection.readBuffer := if_neg (by omega)
    simp only [Session.nextRead, hmake, hroom, Option.bind_eq_bind, Option.bind_some, Option.pure_def]
    rfl
  have henter : step type ⟨s, 0⟩ (.io .advance) = some ⟨{s with pc := .read n}, 0⟩ := by
    have hinput : s.enterInput = s.nextRead := by
      rw [enterInput, hover, hstate]
      rfl
    simp only [step, hpc, Session.step, hinput, hnext, hookResult, add, Option.bind_eq_bind, Option.bind_some,
      Option.pure_def]
  refine ⟨_, henter, (hreceives.steps type (e := .io .advance) (.inl hpc)).receives henter, rfl, hover, ?_, ?_, ?_⟩
  · show s.connection.readBuffer.readIndex = 0
    rw [hbuffer]
    rfl
  · show s.connection.readBuffer.writeIndex = 0
    rw [hbuffer]
    rfl
  · rw [Nat.zero_add]
    exact hsize

theorem endless_overflows (type : ProtocalType) : Meets (step type) Expected ⟨accepted, 0⟩ endless ∧
    run (step type) ⟨accepted, 0⟩ endless = none := by
  obtain ⟨r, henter, hempty⟩ := filling_start type (s := accepted) (n := 128) (by omega) rfl rfl rfl rfl
  obtain ⟨t, hfirst, ht⟩ := hempty.step type (by omega) (by omega)
  obtain ⟨hmeets, hnone⟩ := ht.run type (k := 22) (by omega) (by omega)
  constructor
  · refine ⟨.inl rfl, fun u hu => ?_⟩
    obtain rfl := Option.some.inj (henter.symm.trans hu)
    refine ⟨hempty.expected (by omega), fun v hv => ?_⟩
    obtain rfl := Option.some.inj (hfirst.symm.trans hv)
    exact hmeets
  · rw [endless, run_cons, henter, Option.bind_some, run_cons, hfirst, Option.bind_some]
    exact hnone

/-- **A gigabyte that is always ready to be read** makes the doubled size overflow, with either codec. -/
theorem not_inRange :
    (¬ ∀ es, Meets (step .tinyPb) Expected ⟨accepted, 0⟩ es → ∃ t, run (step .tinyPb) ⟨accepted, 0⟩ es = some t) ∧
    ¬ ∀ es, Meets (step .http) Expected ⟨accepted, 0⟩ es → ∃ t, run (step .http) ⟨accepted, 0⟩ es = some t := by
  have hnone : ∀ type, ¬ ∀ es, Meets (step type) Expected ⟨accepted, 0⟩ es →
      ∃ t, run (step type) ⟨accepted, 0⟩ es = some t := by
    intro type h
    obtain ⟨hmeets, hnone⟩ := endless_overflows type
    obtain ⟨t, ht⟩ := h endless hmeets
    cases hnone.symm.trans ht
  exact ⟨hnone .tinyPb, hnone .http⟩

end Receiver

end CoroutineRpc.Net.Tcp
