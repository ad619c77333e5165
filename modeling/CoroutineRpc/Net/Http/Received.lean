import CoroutineRpc.Net.Http.HttpCodec
import CoroutineRpc.Net.Tcp.Stream
import Mathlib.Data.List.Forall2

/-! Requests over a stream that arrives in pieces.

`decode` starts from the first readable byte on every call. What it accepts it accepts
whatever follows (`judge_append`), and a call that takes nothing changes no byte, so the
requests are frames in the sense of `Library.Framing`. -/
namespace CoroutineRpc.Net.Http
open Net.Tcp Net.Tcp.TcpBuffer Library.Framing

/-- `decode` on a fresh request, which is taken if `decode_succ` is set. -/
def decodeFresh (buffer : TcpBuffer) : Option (Option HttpRequest × TcpBuffer) := do
  let out ← decode buffer {}
  pure (if out.request.decodeSucc then some out.request else none, out.buffer)

/-- `decode` on a fresh buffer that holds `bytes`. -/
def decodeAlone (capacity : Int) (bytes : Bytes) : Option Decoded := do
  let buffer ← (make capacity).writeToBuffer bytes
  decode buffer {}

/-- `decode` accepts `bytes` alone, as `request`, and consumes all of them. -/
def AcceptedAlone (bytes : Bytes) (request : HttpRequest) : Prop :=
  ∃ capacity : Int, 0 ≤ capacity ∧ capacity < 2 ^ 31 ∧ ∃ out, decodeAlone capacity bytes = some out ∧
    out.request = request ∧ out.request.decodeSucc = true ∧ out.buffer.readAble = 0

/-! ### One call -/

/-- A call that takes nothing leaves the buffer as it was. -/
theorem decode_failed {buffer : TcpBuffer} {request : HttpRequest} {out : Decoded}
    (h : decode buffer request = some out) (hsucc : out.request.decodeSucc = false) :
    out.buffer = buffer := by
  unfold decode at h
  rw [Option.bind_eq_bind, Option.bind_eq_some_iff] at h
  obtain ⟨bytes, -, h⟩ := h
  split at h
  · rw [← Option.some.inj h]
  · rw [← Option.some.inj h]
  · rw [Option.bind_eq_bind, Option.bind_eq_some_iff] at h
    obtain ⟨after, -, h⟩ := h
    rw [← Option.some.inj h] at hsucc
    cases hsucc

/-- A request that is accepted is taken off the buffer. -/
theorem decode_taken {b : TcpBuffer} (h : WellFormed b) {request parsed : HttpRequest} {total : Nat}
    (hv : judge {request with decodeSucc := false} b.readable = (parsed, .accept total)) :
    ∃ b', decode b request = some ⟨b', {parsed with decodeSucc := true}, none⟩ ∧ WellFormed b' ∧
      b'.readable = b.readable.drop total ∧ b'.writeIndex ≤ b.writeIndex := by
  have hle := (judge_le hv).2
  have hlen := h.readable_length
  obtain ⟨b', hb', hwf, hreadable, hindex⟩ := recycleReadVia_spec h (Int.natCast_nonneg total) (by omega)
  have hrecycle : b.recycleRead total = some b' := hb' all covers_all
  refine ⟨b', ?_, hwf, hreadable, hindex⟩
  simp only [decode, getBufferString_spec h, hv, hrecycle, Option.bind_eq_bind, Option.bind_some,
    Option.pure_def]

/-- Otherwise the call takes nothing. -/
theorem decode_left {b : TcpBuffer} (h : WellFormed b) {request : HttpRequest}
    (hv : ∀ total, (judge {request with decodeSucc := false} b.readable).2 ≠ .accept total) :
    ∃ parsed e, decode b request = some ⟨b, parsed, e⟩ ∧ parsed.decodeSucc = false := by
  have hdata := congrArg Rpc.AbstractData.decodeSucc (judge_data {request with decodeSucc := false} b.readable)
  simp only [decode, getBufferString_spec h, Option.bind_eq_bind, Option.bind_some]
  cases hj : judge {request with decodeSucc := false} b.readable with
  | mk parsed verdict =>
    rw [hj] at hdata hv
    cases verdict with
    | wait => exact ⟨parsed, none, rfl, hdata⟩
    | reject e => exact ⟨parsed, some e, rfl, hdata⟩
    | accept total => exact absurd rfl (hv total)

/-- What is taken was accepted. -/
theorem decode_accepted {b : TcpBuffer} (h : WellFormed b) {request : HttpRequest} {out : Decoded}
    (hout : decode b request = some out) (hsucc : out.request.decodeSucc = true) :
    ∃ parsed total, judge {request with decodeSucc := false} b.readable = (parsed, .accept total) ∧
      out.request = {parsed with decodeSucc := true} := by
  by_cases hv : ∃ parsed total, judge {request with decodeSucc := false} b.readable = (parsed, .accept total)
  · obtain ⟨parsed, total, hv⟩ := hv
    obtain ⟨b', hb', -⟩ := decode_taken h hv
    exact ⟨parsed, total, hv, by rw [← Option.some.inj (hb'.symm.trans hout)]⟩
  · obtain ⟨parsed, e, hb, hfailed⟩ := decode_left h fun total heq => hv ⟨_, total, Prod.ext rfl heq⟩
    rw [← Option.some.inj (hb.symm.trans hout), hfailed] at hsucc
    cases hsucc

theorem receive_taken {l : Bytes} {parsed : HttpRequest} {total : Nat}
    (hv : judge {} l = (parsed, .accept total)) :
    receive l = (some {parsed with decodeSucc := true}, l.drop total) := by
  rw [receive, hv]

theorem receive_left {l : Bytes} (hv : ∀ total, (judge {} l).2 ≠ .accept total) :
    receive l = (none, l) := by
  unfold receive
  split
  · rename_i heq
    exact absurd (congrArg Prod.snd heq) (hv _)
  · rfl

/-- A call takes what `receive` takes. -/
theorem decodeFresh_refines : Stream.Refines decodeFresh receive := by
  intro b h
  by_cases hv : ∃ parsed total, judge {} b.readable = (parsed, .accept total)
  · obtain ⟨parsed, total, hv⟩ := hv
    obtain ⟨b', hb', hwf, hreadable, hindex⟩ := @decode_taken b h {} parsed total hv
    rw [receive_taken hv]
    exact ⟨b', by rw [decodeFresh, hb']; rfl, hwf, hreadable, hindex⟩
  · have hv : ∀ total, (judge {} b.readable).2 ≠ .accept total := fun total heq =>
      hv ⟨(judge {} b.readable).1, total, Prod.ext rfl heq⟩
    obtain ⟨parsed, e, hb, hsucc⟩ := @decode_left b h {} hv
    rw [receive_left hv]
    exact ⟨b, by rw [decodeFresh, hb]; simp [hsucc], h, rfl, Int.le_refl _⟩

/-! ### Requests are frames -/

/-- What `receive` takes off the front, with the bytes it was. -/
def receiveWith (bytes : Bytes) : Option (Bytes × HttpRequest) × Bytes :=
  match judge {} bytes with
  | (request, .accept total) => (some (bytes.take total, {request with decodeSucc := true}), bytes.drop total)
  | _ => (none, bytes)

theorem receive_eq : receive = fun l => ((receiveWith l).1.map Prod.snd, (receiveWith l).2) := by
  funext l
  unfold receive receiveWith
  cases judge {} l with
  | mk parsed verdict => cases verdict <;> rfl

/-- `receive` takes all of the bytes. -/
def Whole (x : Bytes × HttpRequest) : Prop := receive x.1 = (some x.2, [])

theorem Whole.judge {x : Bytes × HttpRequest} (h : Whole x) : ∃ parsed,
    judge {} x.1 = (parsed, .accept x.1.length) ∧ x.2 = {parsed with decodeSucc := true} := by
  unfold Whole receive at h
  split at h
  · rename_i parsed total hv
    obtain ⟨hrequest, hrest⟩ := Prod.mk.inj h
    have hle := (judge_le hv).2
    have hlen : x.1.length ≤ total := List.drop_eq_nil_iff.mp hrest
    obtain rfl : total = x.1.length := by omega
    exact ⟨parsed, hv, (Option.some.inj hrequest).symm⟩
  · cases h

theorem frames_receiveWith : Frames receiveWith Prod.fst Whole where
  take x rest h := by
    obtain ⟨parsed, hv, hx⟩ := h.judge
    rw [receiveWith, judge_append hv rest]
    simp [← hx]
  wait x p h hp hne := by
    obtain ⟨parsed, hv, -⟩ := h.judge
    obtain ⟨rest, hrest⟩ := hp
    unfold receiveWith
    split
    · rename_i parsed' total hv'
      -- it would be accepted as a part of `x` too
      have happend := judge_append hv' rest
      rw [hrest, hv] at happend
      obtain ⟨-, htotal⟩ := Prod.mk.inj happend
      injection htotal with htotal
      have hle := (judge_le hv').2
      have hlen := congrArg List.length hrest
      rw [List.length_append] at hlen
      have hnil : rest = [] := List.length_eq_zero_iff.mp (by omega)
      rw [hnil, List.append_nil] at hrest
      exact absurd hrest hne
    · rfl
  empty := rfl
  nonempty x h hnil := by
    obtain ⟨parsed, hv, -⟩ := h.judge
    have := judge_le hv
    rw [hnil] at this
    exact absurd this.1 (Nat.lt_irrefl 0)

/-! ### However they arrive -/

/-- What is accepted alone is a whole request. -/
theorem whole_of_acceptedAlone {bytes : Bytes} {request : HttpRequest} (h : AcceptedAlone bytes request)
    (hfit : bytes.length < 2 ^ 30) : Whole (bytes, request) := by
  obtain ⟨capacity, hcap, hint, out, hout, rfl, hsucc, hempty⟩ := h
  obtain ⟨b, hb, hwf, hreadable, -⟩ := writeToBuffer_spec (make_wellFormed capacity hcap hint) bytes
    (by show (0 : Int) + _ < _; omega)
  rw [make_readable, List.nil_append] at hreadable
  rw [decodeAlone, hb, Option.bind_eq_bind, Option.bind_some] at hout
  obtain ⟨b', hb', hwf', hreadable', -⟩ := decodeFresh_refines b hwf
  rw [decodeFresh, hout, Option.bind_eq_bind, Option.bind_some, hsucc, if_pos rfl] at hb'
  obtain ⟨hfound, hbuffer⟩ := Prod.mk.inj (Option.some.inj hb')
  have hleft : (receive bytes).2 = [] := by
    have hlen := hwf'.readable_length
    rw [← hbuffer, hempty] at hlen
    rw [← hreadable, ← hreadable', ← hbuffer]
    exact List.length_eq_zero_iff.mp (by omega)
  rw [hreadable] at hfound
  exact Prod.ext hfound.symm hleft

/-- **Requests do not depend on how they arrive.** Byte strings that are each accepted
alone are sent one after the other; however the stream is cut, a receiver that starts empty
gets their requests, in order, once each, and is left with nothing. In between, a call that
fails changes nothing in the buffer. -/
theorem requests_received (strings : List Bytes) (requests : List HttpRequest)
    (halone : List.Forall₂ AcceptedAlone strings requests) (htotal : strings.flatten.length < 2 ^ 30)
    (capacity : Int) (hcap : 0 ≤ capacity) (hint : capacity < 2 ^ 31) :
    (∀ chunks : List Bytes, (∀ c ∈ chunks, c ≠ []) → chunks.flatten = strings.flatten →
      ∃ b, Stream.receiveAll decodeFresh (make capacity) chunks = some (requests, b) ∧ b.readAble = 0) ∧
    ∀ (b : TcpBuffer) (request : HttpRequest) (out : Decoded), decode b request = some out →
      out.request.decodeSucc = false → out.buffer.readable = b.readable := by
  refine ⟨fun chunks _ hchunks => ?_, fun b request out hout hsucc => by rw [decode_failed hout hsucc]⟩
  have hwhole : ∀ x ∈ strings.zip requests, Whole x := by
    intro x hx
    refine whole_of_acceptedAlone (List.forall₂_zip halone hx) (Nat.lt_of_le_of_lt ?_ htotal)
    exact (List.sublist_flatten_of_mem (List.of_mem_zip hx).1).length_le
  have hlen : strings.length = requests.length := halone.length_eq
  have hencode : (strings.zip requests).flatMap Prod.fst = strings.flatten := by
    rw [List.flatMap_def, List.map_fst_zip (Nat.le_of_eq hlen)]
  have hfeed := frames_receiveWith.feed_encoded chunks (strings.zip requests) hwhole []
    (by rw [List.nil_append, hchunks, hencode]) rfl
  have hreceive : feed receive (make capacity).readable chunks = some (requests, []) := by
    rw [make_readable, receive_eq, feed_map, hfeed, Option.map_some, List.map_snd_zip (Nat.le_of_eq hlen.symm)]
  obtain ⟨b, hb, hwf, hreadable⟩ := Stream.receiveAll_refines decodeFresh_refines
    (make_wellFormed capacity hcap hint) (by show (0 : Int) + _ < _; rw [hchunks]; omega) hreceive
  refine ⟨b, hb, ?_⟩
  rw [← hwf.readable_length, hreadable]
  rfl

def getText : Bytes := ascii "GET /hello HTTP/1.1\r\nHost: localhost\r\n\r\n"

def postText : Bytes := ascii "POST /echo HTTP/1.1\r\nContent-Length: 5\r\n\r\nhello"

def getRequest : HttpRequest where
  decodeSucc := true
  requestMethod := .get
  requestPath := ascii "/hello"
  requestHeader := .setAll {} [(ascii "host", ascii "localhost")]

def postRequest : HttpRequest where
  decodeSucc := true
  requestMethod := .post
  requestPath := ascii "/echo"
  requestHeader := .setAll {} [(ascii "content-length", ascii "5")]
  requestBody := ascii "hello"

theorem acceptedAlone_of_map {bytes : Bytes} {request : HttpRequest} {capacity : Int} (hcap : 0 ≤ capacity)
    (hint : capacity < 2 ^ 31) (hsucc : request.decodeSucc = true)
    (h : (decodeAlone capacity bytes).map (fun out => (out.request, out.buffer.readAble)) = some (request, 0)) :
    AcceptedAlone bytes request := by
  obtain ⟨out, hout, heq⟩ := Option.map_eq_some_iff.mp h
  obtain ⟨rfl, hempty⟩ := Prod.mk.inj heq
  exact ⟨capacity, hcap, hint, out, hout, rfl, hsucc, hempty⟩

/-- A `GET` and a `POST` with a body, down one stream. -/
theorem requests_received_two :
    (∀ chunks : List Bytes, (∀ c ∈ chunks, c ≠ []) → chunks.flatten = [getText, postText].flatten →
      ∃ b, Stream.receiveAll decodeFresh (make 16) chunks = some ([getRequest, postRequest], b) ∧
        b.readAble = 0) ∧
    ∀ (b : TcpBuffer) (request : HttpRequest) (out : Decoded), decode b request = some out →
      out.request.decodeSucc = false → out.buffer.readable = b.readable :=
  requests_received _ _
    (.cons (acceptedAlone_of_map (show (0 : Int) ≤ 16 by decide) (by decide) rfl (by decide +kernel))
      (.cons (acceptedAlone_of_map (show (0 : Int) ≤ 16 by decide) (by decide) rfl (by decide +kernel)) .nil))
    (by decide +kernel) 16 (by decide) (by decide)

end CoroutineRpc.Net.Http
