import CoroutineRpc.Library.Framing
import CoroutineRpc.Net.Tcp.TcpBuffer

/-! A codec that decodes off a buffer until it fails.

Each chunk is appended to a `TcpBuffer`, and the codec takes what it can. If the codec does to
the readable bytes what a decoder of byte strings does (`Refines`), then the buffer does not
show: `receiveAll` is `Framing.feed` (`receiveAll_refines`). -/
namespace CoroutineRpc.Net.Tcp.Stream
open TcpBuffer Library.Framing

section
-- one call of a codec: what it took off the buffer, if it took something
variable {β : Type} (decode : TcpBuffer → Option (Option β × TcpBuffer))

/-- Decode until a call takes nothing. -/
def decodeAll : Nat → TcpBuffer → Option (List β × TcpBuffer)
  | 0, _ => none
  | n + 1, buf => do
    match ← decode buf with
    | (none, buf) => pure ([], buf)
    | (some x, buf) =>
      let (xs, buf) ← decodeAll n buf
      pure (x :: xs, buf)

/-- Append each chunk and decode what can be decoded. What is taken has a byte at least, which
bounds the number of calls. -/
def receiveAll : TcpBuffer → List Bytes → Option (List β × TcpBuffer)
  | buf, [] => some ([], buf)
  | buf, chunk :: rest => do
    let buf ← buf.writeToBuffer chunk
    let (xs, buf) ← decodeAll decode (buf.readAble.toNat + 1) buf
    let (later, buf) ← receiveAll buf rest
    pure (xs ++ later, buf)

/-- A call is a step of a decoder on the readable bytes. -/
def Refines (next : Decoder Byte β) : Prop :=
  ∀ b, WellFormed b → ∃ b', decode b = some ((next b.readable).1, b') ∧ WellFormed b' ∧
    b'.readable = (next b.readable).2 ∧ b'.writeIndex ≤ b.writeIndex

variable {decode} {next : Decoder Byte β}

theorem decodeAll_refines (hrefines : Refines decode next) {n : Nat} {b : TcpBuffer} (h : WellFormed b)
    {xs : List β} {left : Bytes} (hd : drain next n b.readable = some (xs, left)) :
    ∃ b', decodeAll decode n b = some (xs, b') ∧ WellFormed b' ∧ b'.readable = left ∧
      b'.writeIndex ≤ b.writeIndex := by
  induction n generalizing b xs with
  | zero => cases hd
  | succ n ih =>
    obtain ⟨c, hc, hwf, hreadable, hindex⟩ := hrefines b h
    obtain ⟨⟨found, after⟩, hr⟩ : ∃ r, r = next b.readable := ⟨_, rfl⟩
    rw [← hr] at hc hreadable
    rw [drain, ← hr] at hd
    rw [decodeAll, hc]
    cases found with
    | none =>
      obtain ⟨rfl, rfl⟩ := Prod.mk.inj (Option.some.inj hd)
      exact ⟨c, rfl, hwf, hreadable, hindex⟩
    | some x =>
      obtain ⟨⟨ys, rest⟩, hys, heq⟩ := Option.map_eq_some_iff.mp hd
      obtain ⟨rfl, rfl⟩ := Prod.mk.inj heq
      have hafter : c.readable = after := hreadable
      obtain ⟨b', hb', hwf', hreadable', hindex'⟩ := ih hwf (hafter ▸ hys)
      refine ⟨b', ?_, hwf', hreadable', by omega⟩
      simp only [Option.bind_eq_bind, Option.bind_some, hb', Option.pure_def]

/-- **A receiver of byte strings is behind the buffer.** -/
theorem receiveAll_refines (hrefines : Refines decode next) {chunks : List Bytes} {b : TcpBuffer}
    (h : WellFormed b) (hfit : b.writeIndex + chunks.flatten.length < 2 ^ 30) {xs : List β} {left : Bytes}
    (hf : feed next b.readable chunks = some (xs, left)) :
    ∃ b', receiveAll decode b chunks = some (xs, b') ∧ WellFormed b' ∧ b'.readable = left := by
  induction chunks generalizing b xs with
  | nil =>
    obtain ⟨rfl, rfl⟩ := Prod.mk.inj (Option.some.inj hf)
    exact ⟨b, rfl, h, rfl⟩
  | cons chunk rest ih =>
    rw [List.flatten_cons, List.length_append] at hfit
    obtain ⟨c, hc, hcwf, hcreadable, hcindex⟩ := writeToBuffer_spec h chunk (by omega)
    rw [feed, ← hcreadable, Option.bind_eq_some_iff] at hf
    obtain ⟨⟨ys, left₁⟩, hdrain, hf⟩ := hf
    obtain ⟨⟨zs, left₂⟩, hfeed, heq⟩ := Option.map_eq_some_iff.mp hf
    obtain ⟨rfl, rfl⟩ := Prod.mk.inj heq
    have hfuel : c.readable.length = c.readAble.toNat := by rw [← hcwf.readable_length]; rfl
    rw [hfuel] at hdrain
    obtain ⟨d, hd, hdwf, rfl, hdindex⟩ := decodeAll_refines hrefines hcwf hdrain
    obtain ⟨b', hb', hwf, hreadable⟩ := ih hdwf (by omega) hfeed
    refine ⟨b', ?_, hwf, hreadable⟩
    simp only [receiveAll, hc, hd, hb', Option.bind_eq_bind, Option.bind_some, Option.pure_def]

end

end CoroutineRpc.Net.Tcp.Stream
