import CoroutineRpc.Net.Tcp.Stream
import CoroutineRpc.Rpc.Decode

/-! Packets over a stream that arrives in pieces.

A sender encodes one packet after the other into a buffer; a receiver appends what
arrives and decodes after each piece until a call fails. `decode` is a codec in the sense
of `Net.Tcp.Stream`, so `receiveAll` on a buffer is `Framing.feed` on its readable bytes
and the pieces do not matter (`feed_encoded`); `stream_received` brings that back to the
two buffers. -/
namespace CoroutineRpc.Rpc
open Net.Tcp Net.Tcp.TcpBuffer Library.Framing

/-! ### Sender and receiver -/

/-- One `encode` after the other into one buffer. `genMsgNumber` is what the number
generator would answer for a packet. -/
def encodeAll (genMsgNumber : RpcStruct → Bytes) : TcpBuffer → List RpcStruct → Option TcpBuffer
  | buf, [] => some buf
  | buf, p :: rest => do
    let (buf, _) ← encode (genMsgNumber p) buf p
    encodeAll genMsgNumber buf rest

/-- `decode` on a fresh packet each time, until `decode_succ` is false. -/
def decodeAll : Nat → TcpBuffer → Option (List RpcStruct × TcpBuffer)
  | 0, _ => none
  | n + 1, buf => do
    let out ← decode buf {}
    if out.data.decodeSucc then
      let (packets, buf) ← decodeAll n out.buf
      pure (out.data :: packets, buf)
    else pure ([], out.buf)

/-- Append each chunk and decode what can be decoded. A packet takes a byte at least, which
bounds the number of calls. -/
def receiveAll : TcpBuffer → List Bytes → Option (List RpcStruct × TcpBuffer)
  | buf, [] => some ([], buf)
  | buf, chunk :: rest => do
    let buf ← buf.writeToBuffer chunk
    let (packets, buf) ← decodeAll (buf.readAble.toNat + 1) buf
    let (later, buf) ← receiveAll buf rest
    pure (packets ++ later, buf)

/-! ### The sender appends frames -/

theorem encodeAll_spec (genMsgNumber : RpcStruct → Bytes) (packets : List RpcStruct)
    (hp : ∀ p ∈ packets, Sendable p.toRpcFields) {b : TcpBuffer} (h : WellFormed b)
    (hfit : b.writeIndex + (packets.map fun p => frameLength p.toRpcFields).sum < 2 ^ 30) :
    ∃ b', encodeAll genMsgNumber b packets = some b' ∧ WellFormed b' ∧
      b'.readable = b.readable ++ (packets.map RpcStruct.toRpcFields).flatMap frame := by
  induction packets generalizing b with
  | nil => exact ⟨b, rfl, h, by simp⟩
  | cons p rest ih =>
    have hsend := hp p (List.mem_cons_self ..)
    rw [List.map_cons, List.sum_cons] at hfit
    obtain ⟨c, hc, hcwf, hcreadable, hcindex⟩ := writeToBuffer_spec h (frame p.toRpcFields)
      (by rw [frame_length]; omega)
    rw [frame_length] at hcindex
    obtain ⟨b', hb', hwf, hreadable⟩ := ih (fun q hq => hp q (List.mem_cons_of_mem p hq)) hcwf
      (by omega)
    refine ⟨b', ?_, hwf, ?_⟩
    · rw [encodeAll, encode, show p = ⟨p.toAbstractData, p.toRpcFields⟩ from rfl,
        encodePbData_spec hsend]
      simp only [hc, Option.map_some, Option.bind_eq_bind, Option.bind_some, hb']
    · rw [hreadable, hcreadable, List.map_cons, List.flatMap_cons, List.append_assoc]

/-! ### The receiver is a receiver of byte strings -/

/-- One call, seen from the readable bytes. -/
theorem decode_receive {b : TcpBuffer} (h : WellFormed b) (data : RpcStruct) :
    ∃ out, decode b data = some out ∧ WellFormed out.buf ∧ out.buf.writeIndex ≤ b.writeIndex ∧
      out.buf.readable = (receive b.readable).2 ∧
      match (receive b.readable).1 with
      | none => out.data = {data with decodeSucc := false}
      | some p => out.data.decodeSucc = true ∧ out.data.toRpcFields = p := by
  obtain ⟨b', hb', hwf, hreadable, hindex⟩ := decodeVia_spec h data
  refine ⟨_, hb' _ covers_all, hwf, hindex, hreadable, ?_⟩
  simp only [receive]
  cases judge (fromStart b.readable) with
  | wait => rfl
  | reject n e => rfl
  | accept n p => exact ⟨rfl, rfl⟩

/-- A call on a fresh packet, and the fields it read if it succeeded. -/
def decodeFresh (buf : TcpBuffer) : Option (Option RpcFields × TcpBuffer) := do
  let out ← decode buf {}
  pure (if out.data.decodeSucc then some out.data.toRpcFields else none, out.buf)

theorem decodeFresh_refines : Stream.Refines decodeFresh receive := by
  intro b h
  obtain ⟨out, hout, hwf, hindex, hreadable, hdata⟩ := decode_receive h {}
  refine ⟨out.buf, ?_, hwf, hreadable, hindex⟩
  have hfound : (if out.data.decodeSucc then some out.data.toRpcFields else none) = (receive b.readable).1 := by
    cases hfound : (receive b.readable).1 with
    | none =>
      rw [hfound] at hdata
      rw [hdata]
      rfl
    | some p =>
      rw [hfound] at hdata
      rw [hdata.1, hdata.2, if_pos rfl]
  rw [decodeFresh, hout, ← hfound]
  rfl

theorem decodeAll_fields (n : Nat) (b : TcpBuffer) : Stream.decodeAll decodeFresh n b =
    (decodeAll n b).map fun x => (x.1.map RpcStruct.toRpcFields, x.2) := by
  induction n generalizing b with
  | zero => rfl
  | succ n ih =>
    rw [Stream.decodeAll, decodeAll, decodeFresh]
    cases decode b {} with
    | none => rfl
    | some out =>
      simp only [Option.bind_eq_bind, Option.bind_some, Option.pure_def]
      cases out.data.decodeSucc with
      | false => rfl
      | true =>
        simp only [if_true, ih]
        cases decodeAll n out.buf <;> rfl

theorem receiveAll_fields (chunks : List Bytes) (b : TcpBuffer) : Stream.receiveAll decodeFresh b chunks =
    (receiveAll b chunks).map fun x => (x.1.map RpcStruct.toRpcFields, x.2) := by
  induction chunks generalizing b with
  | nil => rfl
  | cons chunk rest ih =>
    rw [Stream.receiveAll, receiveAll]
    cases b.writeToBuffer chunk with
    | none => rfl
    | some c =>
      simp only [Option.bind_eq_bind, Option.bind_some, Option.pure_def, decodeAll_fields]
      cases decodeAll (c.readAble.toNat + 1) c with
      | none => rfl
      | some x =>
        simp only [Option.map_some, Option.bind_some, ih]
        cases receiveAll x.2 rest with
        | none => rfl
        | some y => simp only [Option.map_some, Option.bind_some, List.map_append]

theorem receiveAll_refines {chunks : List Bytes} {b : TcpBuffer} (h : WellFormed b)
    (hfit : b.writeIndex + chunks.flatten.length < 2 ^ 30) {ps : List RpcFields} {left : Bytes}
    (hf : feed receive b.readable chunks = some (ps, left)) :
    ∃ packets b', receiveAll b chunks = some (packets, b') ∧
      packets.map RpcStruct.toRpcFields = ps ∧ WellFormed b' ∧ b'.readable = left := by
  obtain ⟨b', hb', hwf, hreadable⟩ := Stream.receiveAll_refines decodeFresh_refines h hfit hf
  rw [receiveAll_fields] at hb'
  obtain ⟨⟨packets, c⟩, hc, heq⟩ := Option.map_eq_some_iff.mp hb'
  obtain ⟨hpackets, rfl⟩ := Prod.mk.inj heq
  exact ⟨packets, c, hc, hpackets, hwf, hreadable⟩

/-! ### What was sent is received -/

/-- A call that sees a proper prefix of a frame changes nothing. -/
theorem decode_prefix {p : RpcFields} (hp : Sendable p) {b : TcpBuffer} (h : WellFormed b)
    (data : RpcStruct) (hpart : b.readable <+: frame p) (hne : b.readable ≠ frame p) :
    ∃ out, decode b data = some out ∧ out.buf.readable = b.readable ∧
      out.data = {data with decodeSucc := false} := by
  obtain ⟨out, hout, _, _, hreadable, hdata⟩ := decode_receive h data
  rw [frames_receive.wait p _ hp hpart hne] at hreadable hdata
  exact ⟨out, hout, hreadable, hdata⟩

/-- However the frames are cut, an empty buffer with room for them yields the packets. -/
theorem receiveAll_frames {ps : List RpcFields} (hp : ∀ p ∈ ps, Sendable p) {chunks : List Bytes}
    (hchunks : chunks.flatten = ps.flatMap frame) {b : TcpBuffer} (h : WellFormed b)
    (hempty : b.readable = []) (hfit : b.writeIndex + (ps.map frameLength).sum < 2 ^ 30) :
    ∃ packets b', receiveAll b chunks = some (packets, b') ∧
      packets.map RpcStruct.toRpcFields = ps ∧ WellFormed b' ∧ b'.readAble = 0 := by
  have hlen : chunks.flatten.length = (ps.map frameLength).sum := by
    rw [hchunks, List.length_flatMap]
    exact congrArg List.sum (List.map_congr_left fun p _ => frame_length p)
  have hfeed := frames_receive.feed_encoded chunks ps hp b.readable
    (by rw [hempty, List.nil_append, hchunks]) (by rw [hempty, frames_receive.empty])
  obtain ⟨packets, b', hb', hpackets, hwf, hreadable⟩ :=
    receiveAll_refines h (by rw [hlen]; exact hfit) hfeed
  refine ⟨packets, b', hb', hpackets, hwf, ?_⟩
  rw [← hwf.readable_length, hreadable]
  rfl

/-- **What was sent is received.** The packets are encoded into one buffer; however the
stream is cut, a receiver that starts empty gets them all, in order, once each, and is
left with nothing. In between, a call that sees only part of a frame changes neither
the readable bytes nor a field. -/
theorem stream_received (genMsgNumber : RpcStruct → Bytes) (packets : List RpcStruct)
    (hp : ∀ p ∈ packets, Sendable p.toRpcFields)
    (htotal : (packets.map fun p => frameLength p.toRpcFields).sum < 2 ^ 30)
    (sendCapacity capacity : Int) (hsend : 1 ≤ sendCapacity) (hsendInt : sendCapacity < 2 ^ 31)
    (hcap : 1 ≤ capacity) (hint : capacity < 2 ^ 31) :
    ∃ sent stream, encodeAll genMsgNumber (make sendCapacity) packets = some sent ∧
      sent.getBufferString = some stream ∧
      (∀ chunks : List Bytes, (∀ c ∈ chunks, c ≠ []) → chunks.flatten = stream →
        ∃ received b, receiveAll (make capacity) chunks = some (received, b) ∧
          received.map RpcStruct.toRpcFields = packets.map RpcStruct.toRpcFields ∧ b.readAble = 0) ∧
      ∀ p ∈ packets, ∀ f, (encodePbData (genMsgNumber p) p).2 = .ok f →
        ∀ (b : TcpBuffer) (data : RpcStruct), WellFormed b → b.readable <+: f → b.readable ≠ f →
          ∃ out, decode b data = some out ∧ out.buf.readable = b.readable ∧
            out.data = {data with decodeSucc := false} := by
  have hfields : ∀ p ∈ packets.map RpcStruct.toRpcFields, Sendable p := by
    intro p hmem
    obtain ⟨q, hq, rfl⟩ := List.mem_map.mp hmem
    exact hp q hq
  have hsum : ((packets.map RpcStruct.toRpcFields).map frameLength).sum < 2 ^ 30 := by
    rwa [List.map_map]
  obtain ⟨sent, hsent, hwf, hreadable⟩ := encodeAll_spec genMsgNumber packets hp
    (make_wellFormed sendCapacity (by omega) hsendInt) (by show (0 : Int) + _ < _; omega)
  rw [make_readable, List.nil_append] at hreadable
  refine ⟨sent, sent.readable, hsent, getBufferString_spec hwf, ?_, ?_⟩
  · intro chunks _ hchunks
    obtain ⟨received, b, hb, hreceived, _, hempty⟩ := receiveAll_frames hfields
      (hchunks.trans hreadable) (make_wellFormed capacity (by omega) hint) (make_readable capacity)
      (by show (0 : Int) + _ < _; omega)
    exact ⟨received, b, hb, hreceived, hempty⟩
  · intro p hmem f hf b data hb hpart hne
    have hsend := hp p hmem
    rw [show p = ⟨p.toAbstractData, p.toRpcFields⟩ from rfl, encodePbData_spec hsend] at hf
    obtain rfl := Except.ok.inj hf
    exact decode_prefix hsend hb data hpart hne

/-- A longer one. -/
def farewell : RpcFields := {greeting with pbData := List.replicate 9 0x70}

theorem farewell_sendable : Sendable farewell := ⟨by decide, by decide, by decide, by decide, by decide⟩

theorem stream_received_greeting :
    ∃ sent stream, encodeAll (fun _ => []) (make 16) [⟨{}, greeting⟩, ⟨{}, farewell⟩, ⟨{}, greeting⟩] = some sent ∧
      sent.getBufferString = some stream ∧
      (∀ chunks : List Bytes, (∀ c ∈ chunks, c ≠ []) → chunks.flatten = stream →
        ∃ received b, receiveAll (make 1) chunks = some (received, b) ∧
          received.map RpcStruct.toRpcFields = [greeting, farewell, greeting] ∧ b.readAble = 0) ∧
      ∀ p ∈ [(⟨{}, greeting⟩ : RpcStruct), ⟨{}, farewell⟩, ⟨{}, greeting⟩], ∀ f, (encodePbData [] p).2 = .ok f →
        ∀ (b : TcpBuffer) (data : RpcStruct), WellFormed b → b.readable <+: f → b.readable ≠ f →
          ∃ out, decode b data = some out ∧ out.buf.readable = b.readable ∧
            out.data = {data with decodeSucc := false} := by
  refine stream_received (fun _ => []) [⟨{}, greeting⟩, ⟨{}, farewell⟩, ⟨{}, greeting⟩] (fun p hp => ?_) (by decide) 16 1
    (by decide) (by decide) (by decide) (by decide)
  rcases hp with _ | ⟨_, _ | ⟨_, _ | ⟨_, ⟨⟩⟩⟩⟩
  · exact greeting_sendable
  · exact farewell_sendable
  · exact greeting_sendable

end CoroutineRpc.Rpc
