import CoroutineRpc.Memory

/-! `TcpBuffer`: a vector of bytes with a read and a write index.

The readable bytes lie between the two indices. Appending grows the vector when the
space behind the write index is too small, and reading compacts it once the read
index has passed a third of it. The results below say that none of this shows:
from a well-formed buffer each operation is a queue operation on `readable`. -/
namespace CoroutineRpc.Net.Tcp

structure TcpBuffer where
  readIndex : Int
  writeIndex : Int
  buffer : Bytes
deriving DecidableEq

namespace TcpBuffer

/-- `TcpBuffer(size)`. -/
def make (size : Int) : TcpBuffer := ⟨0, 0, List.replicate size.toNat 0⟩

def readAble (b : TcpBuffer) : Int := b.writeIndex - b.readIndex

def writeAble (b : TcpBuffer) : Int := b.buffer.length - b.writeIndex

/-- What may be read of `m_buffer`: all of it. -/
def all (b : TcpBuffer) : Memory := .whole b.buffer

/-- The part of `m_buffer` that was received and not read yet. -/
def window (b : TcpBuffer) : Memory := ⟨b.buffer, b.readIndex, b.writeIndex⟩

/-- `std::vector<char> tmp(size)` throws on a negative size. -/
def resizeBuffer (b : TcpBuffer) (size : Int) : Option TcpBuffer := do
  if size < 0 then none
  else
    let c := min size b.readAble
    let bytes ← b.all.load b.readIndex c
    let buffer ← store (List.replicate size.toNat 0) 0 bytes
    pure ⟨0, c, buffer⟩

/-- The first half of `writeToBuffer`: a larger vector if the bytes do not fit behind
the write index. The product `1.5 * n` is exact and its conversion to `int` truncates. -/
def growFor (b : TcpBuffer) (size : Int) : Option TcpBuffer := do
  if size > b.writeAble then
    let n ← int (b.writeIndex + size)
    b.resizeBuffer (← int (3 * n / 2))
  else pure b

def writeToBuffer (b : TcpBuffer) (buf : Bytes) : Option TcpBuffer := do
  let b ← b.growFor buf.length
  let buffer ← store b.buffer b.writeIndex buf
  let writeIndex ← int (b.writeIndex + buf.length)
  pure ⟨b.readIndex, writeIndex, buffer⟩

/-- `adjustBuffer`, reading `m_buffer` through `view`. -/
def adjustBufferVia (view : TcpBuffer → Memory) (b : TcpBuffer) : Option TcpBuffer := do
  if b.readIndex > b.buffer.length / 3 then
    let count := b.readAble
    let bytes ← (view b).load b.readIndex count
    let buffer ← store (List.replicate b.buffer.length 0) 0 bytes
    pure ⟨0, count, buffer⟩
  else pure b

/-- `recycleRead`, reading `m_buffer` through `view`. -/
def recycleReadVia (view : TcpBuffer → Memory) (b : TcpBuffer) (index : Int) : Option TcpBuffer := do
  let j ← int (b.readIndex + index)
  if j > b.buffer.length then pure b
  else adjustBufferVia view {b with readIndex := j}

def adjustBuffer : TcpBuffer → Option TcpBuffer := adjustBufferVia all

def recycleRead : TcpBuffer → Int → Option TcpBuffer := recycleReadVia all

def recycleWrite (b : TcpBuffer) (index : Int) : Option TcpBuffer := do
  let j ← int (b.writeIndex + index)
  if j > b.buffer.length then pure b
  else adjustBuffer {b with writeIndex := j}

/-- What a read of `bytes` into `m_buffer` and the `recycleWrite` after it leave. -/
def received (b : TcpBuffer) (bytes : Bytes) : Option TcpBuffer := do
  let buffer ← store b.buffer b.writeIndex bytes
  recycleWrite {b with buffer} bytes.length

def getBufferString (b : TcpBuffer) : Option Bytes := b.all.load b.readIndex b.readAble

/-! ### The queue behind the indices -/

/-- The bytes between the indices. -/
def readable (b : TcpBuffer) : Bytes := slice b.buffer b.readIndex b.readAble

/-- The indices are in order and inside the vector, whose size is an `int`: only `int`
sizes are ever given to it. -/
structure WellFormed (b : TcpBuffer) : Prop where
  read : 0 ≤ b.readIndex
  write : b.readIndex ≤ b.writeIndex
  size : b.writeIndex ≤ b.buffer.length
  fits : (b.buffer.length : Int) < 2 ^ 31

theorem WellFormed.readAble_nonneg {b : TcpBuffer} (h : WellFormed b) : 0 ≤ b.readAble := by
  have := h.write
  simp only [readAble]
  omega

theorem WellFormed.readable_length {b : TcpBuffer} (h : WellFormed b) :
    (b.readable.length : Int) = b.readAble := by
  have := h.size
  exact slice_length h.read h.readAble_nonneg (by simp only [readAble]; omega)

theorem make_wellFormed (size : Int) (h : 0 ≤ size) (hsize : size < 2 ^ 31) :
    WellFormed (make size) := by
  have hlen : ((make size).buffer.length : Int) = size := by
    simp only [make, List.length_replicate]
    omega
  exact ⟨Int.le_refl 0, Int.le_refl 0, by rw [hlen]; exact h, by rw [hlen]; exact hsize⟩

@[simp] theorem make_readable (size : Int) : (make size).readable = [] := by
  simp [readable, make, readAble, slice]

/-- Moving the readable bytes to the front of a fresh vector that holds them. -/
theorem moved {b : TcpBuffer} (h : WellFormed b) (size : Nat) (hsize : b.readAble ≤ size)
    (hfits : (size : Int) < 2 ^ 31) :
    ∃ buffer, store (List.replicate size 0) 0 b.readable = some buffer ∧ buffer.length = size ∧
      WellFormed ⟨0, b.readAble, buffer⟩ ∧ readable ⟨0, b.readAble, buffer⟩ = b.readable := by
  have hlen := h.readable_length
  have hstore := @store_some (List.replicate size 0) b.readable 0 (Int.le_refl 0)
    (by rw [List.length_replicate]; omega)
  have hout := store_length hstore
  rw [List.length_replicate] at hout
  refine ⟨_, hstore, hout, ⟨Int.le_refl 0, h.readAble_nonneg, ?_, ?_⟩, ?_⟩
  · show b.readAble ≤ _
    rw [hout]
    exact hsize
  · show ((_ : Nat) : Int) < _
    rw [hout]
    exact hfits
  · have := @slice_store _ _ _ 0 0 (Int.le_refl 0) (Int.le_refl 0) hstore
    rw [slice_zero, List.nil_append, Int.zero_add, hlen] at this
    simpa only [readable, readAble, Int.sub_zero] using this

/-- A view that shows at least the bytes between the indices. -/
structure Covers (view : TcpBuffer → Memory) : Prop where
  bytes : ∀ b, (view b).bytes = b.buffer
  lo : ∀ b, WellFormed b → (view b).lo ≤ b.readIndex
  hi : ∀ b, WellFormed b → b.writeIndex ≤ (view b).hi

theorem covers_all : Covers all where
  bytes := fun _ => rfl
  lo := fun _ h => h.read
  hi := fun _ h => h.size

theorem covers_window : Covers window where
  bytes := fun _ => rfl
  lo := fun _ _ => Int.le_refl _
  hi := fun _ _ => Int.le_refl _

theorem Covers.load {view : TcpBuffer → Memory} (hv : Covers view) {b : TcpBuffer} (h : WellFormed b) :
    (view b).load b.readIndex b.readAble = some b.readable := by
  have hsize := h.size
  have hhi := hv.hi b h
  have hlast : b.readIndex + b.readAble = b.writeIndex := by
    simp only [readAble]
    omega
  rw [load_some h.readAble_nonneg h.read (by rw [hlast, hv.bytes]; exact hsize) (hv.lo b h)
    (by rw [hlast]; exact hhi), hv.bytes]
  rfl

theorem getBufferString_spec {b : TcpBuffer} (h : WellFormed b) :
    b.getBufferString = some b.readable := covers_all.load h

/-- Compaction keeps the readable bytes and the size, and moves no index up. -/
theorem adjustBufferVia_spec {b : TcpBuffer} (h : WellFormed b) :
    ∃ b', (∀ view, Covers view → b.adjustBufferVia view = some b') ∧ WellFormed b' ∧
      b'.readable = b.readable ∧ b'.writeIndex ≤ b.writeIndex := by
  have hread := h.read
  have hsize := h.size
  by_cases hthird : b.readIndex > b.buffer.length / 3
  · obtain ⟨buffer, hstore, _, hwf, hreadable⟩ := moved h b.buffer.length
      (by simp only [readAble]; omega) h.fits
    refine ⟨⟨0, b.readAble, buffer⟩, fun view hv => ?_, hwf, hreadable, ?_⟩
    · simp only [adjustBufferVia, if_pos hthird, hv.load h, hstore, Option.bind_eq_bind,
        Option.bind_some, Option.pure_def]
    · show b.readAble ≤ b.writeIndex
      simp only [readAble]
      omega
  · exact ⟨b, fun view _ => by simp only [adjustBufferVia, if_neg hthird, Option.pure_def], h, rfl,
      Int.le_refl _⟩

/-- **`recycleRead` drops from the front.** -/
theorem recycleReadVia_spec {b : TcpBuffer} (h : WellFormed b) {n : Int} (hn : 0 ≤ n)
    (hle : n ≤ b.readAble) :
    ∃ b', (∀ view, Covers view → b.recycleReadVia view n = some b') ∧ WellFormed b' ∧
      b'.readable = b.readable.drop n.toNat ∧ b'.writeIndex ≤ b.writeIndex := by
  obtain ⟨hread, hwrite, hsize, hfits⟩ := h
  simp only [readAble] at hle
  have hwf : WellFormed {b with readIndex := b.readIndex + n} :=
    ⟨by show 0 ≤ b.readIndex + n; omega, by show b.readIndex + n ≤ b.writeIndex; omega, hsize, hfits⟩
  obtain ⟨b', hadjust, hwf', hreadable, hindex⟩ := adjustBufferVia_spec hwf
  refine ⟨b', fun view hv => ?_, hwf', ?_, hindex⟩
  · rw [recycleReadVia, int_some ⟨by omega, by omega⟩]
    show (if b.readIndex + n > b.buffer.length then _ else _) = _
    rw [if_neg (by omega)]
    exact hadjust view hv
  · rw [hreadable]
    simp only [readable, readAble]
    rw [slice_drop hread hn]
    congr 1
    omega

/-- A larger vector for the bytes that are there. -/
theorem resizeBuffer_spec {b : TcpBuffer} (h : WellFormed b) {size : Nat} (hsize : b.readAble ≤ size)
    (hfits : (size : Int) < 2 ^ 31) :
    ∃ b', b.resizeBuffer size = some b' ∧ WellFormed b' ∧ b'.readable = b.readable := by
  obtain ⟨buffer, hstore, -, hwf, hreadable⟩ := moved h size hsize hfits
  refine ⟨⟨0, b.readAble, buffer⟩, ?_, hwf, hreadable⟩
  have hmin : min (size : Int) b.readAble = b.readAble := by omega
  rw [resizeBuffer, if_neg (by omega), hmin]
  simp only [covers_all.load h, Int.toNat_natCast, hstore, Option.bind_eq_bind, Option.bind_some,
    Option.pure_def]

/-- **Reading from a socket appends**, when it is no more than was asked for. -/
theorem received_spec {b : TcpBuffer} (h : WellFormed b) {bytes : Bytes}
    (hroom : (bytes.length : Int) ≤ b.writeAble) :
    ∃ b', b.received bytes = some b' ∧ WellFormed b' ∧ b'.readable = b.readable ++ bytes := by
  obtain ⟨hread, hwrite, hsize, hfits⟩ := h
  simp only [writeAble] at hroom
  obtain ⟨out, hstore⟩ : ∃ out, store b.buffer b.writeIndex bytes = some out :=
    ⟨_, store_some (by omega) (by omega)⟩
  have hlen := store_length hstore
  have hwf : WellFormed ⟨b.readIndex, b.writeIndex + bytes.length, out⟩ := by
    refine ⟨hread, ?_, ?_, hlen ▸ hfits⟩
    · show b.readIndex ≤ b.writeIndex + bytes.length
      omega
    · rw [hlen]
      show b.writeIndex + (bytes.length : Int) ≤ b.buffer.length
      omega
  obtain ⟨b', hadjust, hwf', hreadable, -⟩ := adjustBufferVia_spec hwf
  refine ⟨b', ?_, hwf', ?_⟩
  · simp only [received, recycleWrite, hstore, Option.bind_eq_bind, Option.bind_some,
      int_some (n := b.writeIndex + bytes.length) ⟨by omega, by omega⟩, hlen]
    rw [if_neg (by omega)]
    exact hadjust all covers_all
  · have hat : b.writeIndex = b.readIndex + b.readAble := by simp only [readAble]; omega
    have := slice_store hread (by simp only [readAble]; omega) (hat ▸ hstore)
    rw [hreadable]
    simp only [readable] at this ⊢
    rw [← this]
    congr 1
    simp only [readAble]
    omega

/-- The bytes fit behind the write index, or the size of the larger vector is an `int`. -/
def Room (b : TcpBuffer) (size : Int) : Prop :=
  size ≤ b.writeAble ∨ 3 * (b.writeIndex + size) / 2 < 2 ^ 31

theorem room_of_lt {b : TcpBuffer} {size : Int} (h : b.writeIndex + size < 2 ^ 30) : b.Room size :=
  Or.inr (by omega)

/-- Growing keeps the readable bytes and makes the room asked for. -/
theorem growFor_spec {b : TcpBuffer} (h : WellFormed b) {size : Int} (hfit : b.Room size) :
    ∃ b', b.growFor size = some b' ∧ WellFormed b' ∧ b'.readable = b.readable ∧
      b'.writeIndex + size ≤ b'.buffer.length ∧ b'.writeIndex ≤ b.writeIndex := by
  obtain ⟨hread, hwrite, hsize, hfits⟩ := id h
  by_cases hroom : size > b.writeAble
  · have hgrow : b.buffer.length < b.writeIndex + size := by
      simp only [writeAble] at hroom
      omega
    have hint := hfit.resolve_left (by omega)
    have hmin : min (3 * (b.writeIndex + size) / 2) b.readAble = b.readAble := by
      simp only [readAble]
      omega
    obtain ⟨buffer, hstore, hlen, hwf, hreadable⟩ := moved h
      (3 * (b.writeIndex + size) / 2).toNat (by simp only [readAble]; omega) (by omega)
    refine ⟨⟨0, b.readAble, buffer⟩, ?_, hwf, hreadable, ?_, ?_⟩
    · simp only [growFor, if_pos hroom, Option.bind_eq_bind, Option.bind_some,
        int_some (n := b.writeIndex + size) ⟨by omega, by omega⟩,
        int_some (n := 3 * (b.writeIndex + size) / 2) ⟨by omega, by omega⟩]
      rw [resizeBuffer, if_neg (by omega), hmin]
      simp only [covers_all.load h, hstore, Option.bind_eq_bind, Option.bind_some, Option.pure_def]
    · show b.readAble + size ≤ buffer.length
      simp only [hlen, readAble]
      omega
    · show b.readAble ≤ b.writeIndex
      simp only [readAble]
      omega
  · refine ⟨b, by simp only [growFor, if_neg hroom, Option.pure_def], h, rfl, ?_, Int.le_refl _⟩
    simp only [writeAble] at hroom
    omega

theorem writeToBuffer_room {b : TcpBuffer} (h : WellFormed b) (buf : Bytes) (hfit : b.Room buf.length) :
    ∃ b', b.writeToBuffer buf = some b' ∧ WellFormed b' ∧ b'.readable = b.readable ++ buf ∧
      b'.writeIndex ≤ b.writeIndex + buf.length := by
  obtain ⟨c, hgrow, ⟨hcr, hcw, hcs, hcf⟩, hreadable, hroom, hindex⟩ := growFor_spec h hfit
  obtain ⟨out, hstore⟩ : ∃ out, store c.buffer c.writeIndex buf = some out :=
    ⟨_, store_some (by omega) hroom⟩
  have hlen := store_length hstore
  refine ⟨⟨c.readIndex, c.writeIndex + buf.length, out⟩, ?_, ⟨hcr, ?_, ?_, ?_⟩, ?_, ?_⟩
  · simp only [writeToBuffer, hgrow, hstore, Option.bind_eq_bind, Option.bind_some,
      int_some (n := c.writeIndex + buf.length) ⟨by omega, by omega⟩, Option.pure_def]
  · show c.readIndex ≤ c.writeIndex + buf.length
    omega
  · rw [hlen]
    exact hroom
  · rw [hlen]
    exact hcf
  · have hat : c.writeIndex = c.readIndex + c.readAble := by simp only [readAble]; omega
    have := slice_store hcr (by simp only [readAble]; omega) (hat ▸ hstore)
    rw [← hreadable, readable, readable, ← this]
    congr 1
    simp only [readAble]
    omega
  · show c.writeIndex + buf.length ≤ b.writeIndex + buf.length
    omega

/-- **`writeToBuffer` appends.** -/
theorem writeToBuffer_spec {b : TcpBuffer} (h : WellFormed b) (buf : Bytes)
    (hfit : b.writeIndex + buf.length < 2 ^ 30) :
    ∃ b', b.writeToBuffer buf = some b' ∧ WellFormed b' ∧ b'.readable = b.readable ++ buf ∧
      b'.writeIndex ≤ b.writeIndex + buf.length :=
  writeToBuffer_room h buf (room_of_lt hfit)

/-- Without the room the size of the larger vector overflows. -/
theorem writeToBuffer_none {b : TcpBuffer} {buf : Bytes} (hfit : ¬ b.Room buf.length) :
    b.writeToBuffer buf = none := by
  unfold Room at hfit
  have hgrow : (buf.length : Int) > b.writeAble := by omega
  have hsize : int (3 * (b.writeIndex + buf.length) / 2) = none := if_neg (by omega)
  have hnone : b.growFor buf.length = none := by
    rw [growFor, if_pos hgrow, Option.bind_eq_bind, Option.bind_eq_none_iff]
    intro n hn
    obtain ⟨rfl, -⟩ := eq_of_int hn
    rw [hsize]
    rfl
  rw [writeToBuffer, hnone]
  rfl

end TcpBuffer

end CoroutineRpc.Net.Tcp
