import CoroutineRpc.Library.Refinement
import CoroutineRpc.Net.Tcp.TcpBuffer

/-! A `TcpBuffer` is a byte queue.

`Queue` is what the buffer is for: bytes are appended at the end and removed at the front. Every
call that is made as `Allowed` says stays inside the vector and does to the readable bytes what
it does to the queue (`callStep_refines`), wherever the indices are and whether or not the vector
is grown or compacted on the way; so does every run of such calls (`byteQueue`). -/
namespace CoroutineRpc.Net.Tcp
open Library.Refinement Library.Transition

namespace TcpBuffer

/-- The bytes read replace those in `re`, unless there are none. -/
def readFromBuffer (b : TcpBuffer) (re : Bytes) (size : Int) : Option (Bytes × TcpBuffer) := do
  if b.readAble = 0 then pure (re, b)
  else
    let readSize := if b.readAble > size then size else b.readAble
    let tmp ← b.all.load b.readIndex readSize
    let readIndex ← int (b.readIndex + readSize)
    let b ← adjustBuffer {b with readIndex}
    pure (tmp, b)

inductive Call where
  | writeToBuffer (buf : Bytes)
  | readFromBuffer (re : Bytes) (size : Int)
  | recycleRead (index : Int)
  /-- `recycleWrite`, behind so many bytes that were placed at the write index. -/
  | recycleWrite (bytes : Bytes)
  | adjustBuffer
  | resizeBuffer (size : Int)
deriving DecidableEq

/-- A buffer, and what each `readFromBuffer` left in its vector. -/
structure Traced where
  buffer : TcpBuffer
  reads : List Bytes := []
deriving DecidableEq

def callStep (s : Traced) : Call → Option Traced
  | .writeToBuffer buf => (s.buffer.writeToBuffer buf).map fun buffer => {s with buffer}
  | .readFromBuffer re size =>
    (s.buffer.readFromBuffer re size).map fun (re, buffer) => ⟨buffer, s.reads ++ [re]⟩
  | .recycleRead index => (s.buffer.recycleRead index).map fun buffer => {s with buffer}
  | .recycleWrite bytes => (s.buffer.received bytes).map fun buffer => {s with buffer}
  | .adjustBuffer => s.buffer.adjustBuffer.map fun buffer => {s with buffer}
  | .resizeBuffer size => (s.buffer.resizeBuffer size).map fun buffer => {s with buffer}

/-- How the calls are made. -/
def Allowed (s : Traced) : Call → Prop
  | .writeToBuffer buf => s.buffer.writeIndex + buf.length < 2 ^ 30
  | .readFromBuffer _ size => 0 < size
  | .recycleRead index => 0 ≤ index ∧ index ≤ s.buffer.readAble
  | .recycleWrite bytes => bytes.length ≤ s.buffer.writeAble
  | .adjustBuffer => True
  | .resizeBuffer size => s.buffer.readAble ≤ size ∧ size < 2 ^ 31

instance (s : Traced) (c : Call) : Decidable (Allowed s c) := by
  unfold Allowed
  split <;> infer_instance

/-! ### The queue -/

/-- A queue of bytes, and what was read of it. -/
structure Queue where
  bytes : Bytes := []
  reads : List Bytes := []
deriving DecidableEq

def Queue.call (q : Queue) : Call → Queue
  | .writeToBuffer buf => {q with bytes := q.bytes ++ buf}
  | .readFromBuffer re size =>
    ⟨q.bytes.drop size.toNat, q.reads ++ [if q.bytes = [] then re else q.bytes.take size.toNat]⟩
  | .recycleRead index => {q with bytes := q.bytes.drop index.toNat}
  | .recycleWrite bytes => {q with bytes := q.bytes ++ bytes}
  | .adjustBuffer | .resizeBuffer _ => q

/-- The readable bytes are the queue's. -/
structure Holds (s : Traced) (q : Queue) : Prop where
  wellFormed : WellFormed s.buffer
  bytes : s.buffer.readable = q.bytes
  reads : s.reads = q.reads

theorem WellFormed.readAble_eq_zero {b : TcpBuffer} (h : WellFormed b) : b.readAble = 0 ↔ b.readable = [] := by
  have := h.readable_length
  rw [← List.length_eq_zero_iff]
  omega

theorem adjustBuffer_spec {b : TcpBuffer} (h : WellFormed b) :
    ∃ b', b.adjustBuffer = some b' ∧ WellFormed b' ∧ b'.readable = b.readable := by
  obtain ⟨b', hadjust, hwf, hreadable, -⟩ := adjustBufferVia_spec h
  exact ⟨b', hadjust all covers_all, hwf, hreadable⟩

theorem recycleRead_spec {b : TcpBuffer} (h : WellFormed b) {n : Int} (hn : 0 ≤ n) (hle : n ≤ b.readAble) :
    ∃ b', b.recycleRead n = some b' ∧ WellFormed b' ∧ b'.readable = b.readable.drop n.toNat := by
  obtain ⟨b', hrecycle, hwf, hreadable, -⟩ := recycleReadVia_spec h hn hle
  exact ⟨b', hrecycle all covers_all, hwf, hreadable⟩

/-- **`readFromBuffer` takes from the front.** -/
theorem readFromBuffer_spec {b : TcpBuffer} (h : WellFormed b) (re : Bytes) {size : Int} (hsize : 0 < size) :
    ∃ b', b.readFromBuffer re size =
        some (if b.readable = [] then re else b.readable.take size.toNat, b') ∧
      WellFormed b' ∧ b'.readable = b.readable.drop size.toNat := by
  by_cases hempty : b.readable = []
  · refine ⟨b, ?_, h, by rw [hempty, List.drop_nil]⟩
    rw [readFromBuffer, if_pos (h.readAble_eq_zero.mpr hempty), if_pos hempty]
    rfl
  have hlen := h.readable_length
  obtain ⟨hread, hwrite, hroom, hfits⟩ := id h
  -- as many bytes as there are, but no more than were asked for
  obtain ⟨n, hn⟩ : ∃ n, n = if b.readAble > size then size else b.readAble := ⟨_, rfl⟩
  have hn' : 0 ≤ n ∧ n ≤ b.readAble ∧ (n = size ∨ n = b.readAble ∧ b.readAble ≤ size) := by
    have := h.readAble_nonneg
    rw [hn]
    split <;> omega
  obtain ⟨hpos, hle, hcases⟩ := hn'
  have htake : b.readable.take size.toNat = slice b.buffer b.readIndex n := by
    rw [← slice_take hle]
    rcases hcases with rfl | ⟨rfl, hall⟩
    · rfl
    · show b.readable.take _ = b.readable.take _
      rw [List.take_of_length_le (by omega), List.take_of_length_le (by omega)]
  have hdrop : b.readable.drop size.toNat = b.readable.drop n.toNat := by
    rcases hcases with rfl | ⟨rfl, hall⟩
    · rfl
    · rw [List.drop_of_length_le (by omega), List.drop_of_length_le (by omega)]
  simp only [readAble] at hle
  have hload : b.all.load b.readIndex n = some (slice b.buffer b.readIndex n) :=
    load_some hpos hread (by show b.readIndex + n ≤ b.buffer.length; omega) hread
      (by show b.readIndex + n ≤ b.buffer.length; omega)
  have hwf : WellFormed {b with readIndex := b.readIndex + n} :=
    ⟨by show 0 ≤ b.readIndex + n; omega, by show b.readIndex + n ≤ b.writeIndex; omega, hroom, hfits⟩
  obtain ⟨b', hadjust, hwf', hreadable⟩ := adjustBuffer_spec hwf
  refine ⟨b', ?_, hwf', ?_⟩
  · rw [readFromBuffer, if_neg fun hzero => hempty (h.readAble_eq_zero.mp hzero), if_neg hempty, htake]
    simp only [← hn, hload, int_some (n := b.readIndex + n) ⟨by omega, by omega⟩, hadjust, Option.bind_eq_bind,
      Option.bind_some, Option.pure_def]
  · rw [hreadable, hdrop]
    simp only [readable, readAble]
    rw [slice_drop hread hpos]
    congr 1
    omega

/-! ### The buffer refines the queue -/

/-- **One call.** -/
theorem callStep_refines : Refines callStep Queue.call Holds Allowed := by
  rintro s q c ⟨hwf, hbytes, hreads⟩ hallowed
  cases c with
  | writeToBuffer buf =>
    obtain ⟨b', hwrite, hwf', hreadable, -⟩ := writeToBuffer_spec hwf buf hallowed
    exact ⟨{s with buffer := b'}, by simp only [callStep, hwrite, Option.map_some], hwf',
      hreadable.trans (by rw [hbytes]; rfl), hreads⟩
  | readFromBuffer re size =>
    obtain ⟨b', hread, hwf', hreadable⟩ := readFromBuffer_spec hwf re hallowed
    rw [hbytes] at hread hreadable
    exact ⟨⟨b', s.reads ++ [if q.bytes = [] then re else q.bytes.take size.toNat]⟩,
      by simp only [callStep, hread, Option.map_some], hwf', hreadable, congrArg (· ++ _) hreads⟩
  | recycleRead index =>
    obtain ⟨b', hrecycle, hwf', hreadable⟩ := recycleRead_spec hwf hallowed.1 hallowed.2
    exact ⟨{s with buffer := b'}, by simp only [callStep, hrecycle, Option.map_some], hwf',
      hreadable.trans (by rw [hbytes]; rfl), hreads⟩
  | recycleWrite bytes =>
    obtain ⟨b', hreceived, hwf', hreadable⟩ := received_spec hwf hallowed
    exact ⟨{s with buffer := b'}, by simp only [callStep, hreceived, Option.map_some], hwf',
      hreadable.trans (by rw [hbytes]; rfl), hreads⟩
  | adjustBuffer =>
    obtain ⟨b', hadjust, hwf', hreadable⟩ := adjustBuffer_spec hwf
    exact ⟨{s with buffer := b'}, by simp only [callStep, hadjust, Option.map_some], hwf',
      hreadable.trans hbytes, hreads⟩
  | resizeBuffer size =>
    obtain ⟨hle, hfits⟩ := hallowed
    have hnat : ((size.toNat : Nat) : Int) = size := Int.toNat_of_nonneg (Int.le_trans hwf.readAble_nonneg hle)
    obtain ⟨b', hresize, hwf', hreadable⟩ := @resizeBuffer_spec _ hwf size.toNat (by omega) (by omega)
    rw [hnat] at hresize
    exact ⟨{s with buffer := b'}, by simp only [callStep, hresize, Option.map_some], hwf',
      hreadable.trans hbytes, hreads⟩

/-- **A buffer of any capacity is a byte queue** through any run of calls. -/
theorem byteQueue {capacity : Int} (hpos : 1 ≤ capacity) (hint : capacity < 2 ^ 31) {calls : List Call}
    (hallowed : Meets callStep Allowed ⟨make capacity, []⟩ calls) :
    ∃ s, run callStep ⟨make capacity, []⟩ calls = some s ∧
      0 ≤ s.buffer.readIndex ∧ s.buffer.readIndex ≤ s.buffer.writeIndex ∧
      s.buffer.writeIndex ≤ s.buffer.buffer.length ∧
      s.buffer.getBufferString = some (calls.foldl Queue.call {}).bytes ∧
      s.reads = (calls.foldl Queue.call {}).reads := by
  have hholds : Holds ⟨make capacity, []⟩ {} :=
    ⟨make_wellFormed capacity (by omega) hint, make_readable capacity, rfl⟩
  obtain ⟨s, hrun, hwf, hbytes, hreads⟩ := callStep_refines.run hholds hallowed
  exact ⟨s, hrun, hwf.read, hwf.write, hwf.size, by rw [getBufferString_spec hwf, hbytes], hreads⟩

/-- Four bytes in a buffer of four, three of them taken, and three more put behind the last. -/
theorem byteQueue_four : ∃ s, run callStep ⟨make 4, []⟩ [.recycleWrite [1, 2, 3, 4], .readFromBuffer [] 3,
      .writeToBuffer [5, 6, 7, 8]] = some s ∧
    0 ≤ s.buffer.readIndex ∧ s.buffer.readIndex ≤ s.buffer.writeIndex ∧
    s.buffer.writeIndex ≤ s.buffer.buffer.length ∧
    s.buffer.getBufferString = some [4, 5, 6, 7, 8] ∧ s.reads = [[1, 2, 3]] :=
  byteQueue (by decide) (by decide) (by decide)

end TcpBuffer

end CoroutineRpc.Net.Tcp
