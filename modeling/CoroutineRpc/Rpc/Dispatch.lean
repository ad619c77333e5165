import CoroutineRpc.Net.ErrorCode
import CoroutineRpc.Rpc.Stream
import CoroutineRpc.Text

/-! `RpcDispatcher`: a request in, one reply out.

Protobuf is a parameter: what parses, what a method computes and what serialises are
functions of the request. Each way out of `dispatch` encodes one reply and does not look
whether `encode` refused it, so a reply longer than a packet may be is lost
(`dispatch_replies_iff`). A refused reply can answer a request that was accepted: the texts
of the errors repeat its names. -/
namespace CoroutineRpc.Rpc
open Net Net.Tcp Net.Tcp.TcpBuffer

/-! ### Services -/

/-- A method of a service on the messages of protobuf, with the full name of its request type. -/
structure Method (Message : Type) where
  requestName : Bytes
  parseFromString : Bytes → Option Message
  callMethod : Message → Message
  serializeToString : Message → Option Bytes

structure Service (Message : Type) where
  findMethodByName : Bytes → Option (Method Message)

/-- `m_service_map`, whose pointers may be null. -/
abbrev ServiceMap (Message : Type) := Bytes → Option (Option (Service Message))

/-- What the coroutine of the connection remembers of the request. -/
structure RunTime where
  msgNo : Bytes
  interfaceName : Bytes
deriving DecidableEq

variable {Message : Type}

/-! ### The dispatcher -/

/-- The fields of a reply that are not the request's. -/
structure Answer where
  errCode : BitVec 32 := 0
  errInfo : Bytes := []
  pbData : Bytes := []
deriving DecidableEq

def Answer.error (e : ErrorCode) (errInfo : Bytes) : Answer := {errCode := e.value, errInfo}

/-- What each way out of `dispatch` puts in the reply. -/
def answer (services : ServiceMap Message) (tmp : RpcFields) : Answer :=
  match services tmp.serviceName with
  | none | some none =>
    .error .serviceNotFound (ascii "not found service_name:[" ++ tmp.serviceName ++ ascii "]")
  | some (some service) =>
    match service.findMethodByName tmp.methodName with
    | none => .error .methodNotFound (ascii "not found method_name:[" ++ tmp.methodName ++ ascii "]")
    | some method =>
      match method.parseFromString tmp.pbData with
      | none =>
        .error .failedSerialize
          (ascii "faild to parse request data, request.name:[" ++ method.requestName ++ ascii "]")
      | some request =>
        match method.serializeToString (method.callMethod request) with
        | none => .error .failedSerialize (ascii "failed to serilize relpy data")
        | some pbData => {pbData}

def reply (services : ServiceMap Message) (tmp : RpcFields) : RpcFields :=
  let a := answer services tmp
  { msgNo := tmp.msgNo
    serviceName := tmp.serviceName
    methodName := tmp.methodName
    errCode := a.errCode
    errInfo := a.errInfo
    pbData := a.pbData }

/-- The out buffer after `dispatch`, and the run time. -/
def dispatch (services : ServiceMap Message) (genMsgNumber : Bytes) (tmp : RpcStruct)
    (outBuffer : TcpBuffer) : Option (TcpBuffer × RunTime) := do
  let runTime := ⟨tmp.msgNo, tmp.serviceName ++ [dot] ++ tmp.methodName⟩
  let (outBuffer, _) ← encode genMsgNumber outBuffer ⟨{}, reply services tmp.toRpcFields⟩
  pure (outBuffer, runTime)

/-! ### What a reply should be -/

/-- What the method answers: the serialised response, if the service and the method exist, the
request parses and the response serialises. -/
def served (services : ServiceMap Message) (request : RpcFields) : Option Bytes := do
  let service ← (services request.serviceName).join
  let method ← service.findMethodByName request.methodName
  let message ← method.parseFromString request.pbData
  method.serializeToString (method.callMethod message)

/-- Bytes that are one frame: `decode` takes all of them, as this packet. -/
def DecodesTo (f : Bytes) (p : RpcFields) : Prop :=
  ∀ (b : TcpBuffer) (data : RpcStruct), WellFormed b → b.readable = f →
    ∃ out, decode b data = some out ∧ out.data.decodeSucc = true ∧ out.data.toRpcFields = p ∧
      out.buf.readable = []

/-- One frame was appended, and it answers the request. -/
def Replied (services : ServiceMap Message) (request : RpcFields) (before after : TcpBuffer) : Prop :=
  ∃ f p, after.readable = before.readable ++ f ∧ DecodesTo f p ∧ p.msgNo = request.msgNo ∧
    p.serviceName = request.serviceName ∧ p.methodName = request.methodName ∧
    match served services request with
    | some response => p.errCode = 0 ∧ p.pbData = response
    | none => p.errCode ≠ 0

/-- The length of the error text or of the response. -/
def answerLength (services : ServiceMap Message) (request : RpcFields) : Nat :=
  match (services request.serviceName).join with
  | none => 25 + request.serviceName.length
  | some service =>
    match service.findMethodByName request.methodName with
    | none => 24 + request.methodName.length
    | some method =>
      match method.parseFromString request.pbData with
      | none => 44 + method.requestName.length
      | some message => ((method.serializeToString (method.callMethod message)).map List.length).getD 29

/-- A reply has the request's number and names, and its answer. -/
def replyLength (services : ServiceMap Message) (request : RpcFields) : Nat :=
  kMinPacketLen + request.msgNo.length + request.fullName.length + answerLength services request

/-! ### The reply that is built -/

/-- The answer is the response, or one of the errors with its text. -/
theorem answer_cases (services : ServiceMap Message) (request : RpcFields) :
    (∃ response, served services request = some response ∧
      answer services request = {pbData := response} ∧
      answerLength services request = response.length) ∨
    ∃ e text, served services request = none ∧ answer services request = .error e text ∧
      answerLength services request = text.length := by
  unfold served answer answerLength
  cases services request.serviceName with
  | none => exact .inr ⟨_, _, rfl, rfl, by simp [ascii]; omega⟩
  | some service =>
    cases service with
    | none => exact .inr ⟨_, _, rfl, rfl, by simp [ascii]; omega⟩
    | some service =>
      simp only [Option.join_some, Option.bind_eq_bind, Option.bind_some]
      cases service.findMethodByName request.methodName with
      | none => exact .inr ⟨_, _, rfl, rfl, by simp [ascii]; omega⟩
      | some method =>
        simp only [Option.bind_some]
        cases method.parseFromString request.pbData with
        | none => exact .inr ⟨_, _, rfl, rfl, by simp [ascii]; omega⟩
        | some message =>
          simp only [Option.bind_some]
          cases method.serializeToString (method.callMethod message) with
          | none => exact .inr ⟨_, _, rfl, rfl, rfl⟩
          | some response => exact .inl ⟨response, rfl, rfl, rfl⟩

theorem frameLength_reply (services : ServiceMap Message) (request : RpcFields) :
    frameLength (reply services request) = replyLength services request := by
  unfold replyLength frameLength reply
  simp only [RpcFields.fullName]
  rcases answer_cases services request with ⟨response, -, hanswer, hlength⟩ | ⟨e, text, -, hanswer, hlength⟩
  · rw [hanswer, hlength]
    simp
  · rw [hanswer, hlength]
    simp [Answer.error]

theorem reply_served (services : ServiceMap Message) (request : RpcFields) :
    match served services request with
    | some response => (reply services request).errCode = 0 ∧ (reply services request).pbData = response
    | none => (reply services request).errCode ≠ 0 := by
  unfold reply
  rcases answer_cases services request with ⟨response, hserved, hanswer, -⟩ | ⟨e, text, hserved, hanswer, -⟩
  · rw [hserved, hanswer]
    exact ⟨rfl, rfl⟩
  · rw [hserved, hanswer]
    exact e.value_ne_zero

/-- A reply to a request that was accepted is a packet, unless it is too long. -/
theorem sendable_reply (services : ServiceMap Message) {request : RpcFields} (h : Sendable request)
    (hlength : replyLength services request ≤ kMaxPacketLen) : Sendable (reply services request) where
  service := h.service
  method := h.method
  noDot := h.noDot
  msgNo := h.msgNo
  size := (frameLength_reply services request).symm ▸ hlength

/-! ### The frame that is appended -/

theorem decodesTo_frame {p : RpcFields} (hp : Sendable p) : DecodesTo (frame p) p := by
  intro b data hb hreadable
  obtain ⟨out, hout, -, -, hleft, hdata⟩ := decode_receive hb data
  have htake := frames_receive.take p [] hp
  rw [List.append_nil] at htake
  rw [hreadable, htake] at hleft hdata
  exact ⟨out, hout, hdata.1, hdata.2, hleft⟩

theorem not_decodesTo_nil (p : RpcFields) : ¬ DecodesTo [] p := by
  intro h
  have hb := make_wellFormed 0 (by decide) (by decide)
  obtain ⟨out, hout, hsucc, -⟩ := h (make 0) {} hb (make_readable 0)
  obtain ⟨out', hout', -, -, -, hdata⟩ := decode_receive hb {}
  obtain rfl := Option.some.inj (hout.symm.trans hout')
  rw [make_readable, frames_receive.empty] at hdata
  rw [hdata] at hsucc
  cases hsucc

/-- A reply that is no longer than a packet may be is written. -/
theorem dispatch_write (services : ServiceMap Message) (genMsgNumber : Bytes) {tmp : RpcStruct}
    (h : Sendable tmp.toRpcFields) (hlength : replyLength services tmp.toRpcFields ≤ kMaxPacketLen)
    (outBuffer : TcpBuffer) :
    dispatch services genMsgNumber tmp outBuffer =
      (outBuffer.writeToBuffer (frame (reply services tmp.toRpcFields))).map
        fun after => (after, ⟨tmp.msgNo, tmp.serviceName ++ [dot] ++ tmp.methodName⟩) := by
  rw [dispatch, encode, encodePbData_spec (sendable_reply services h hlength)]
  simp only [Option.bind_eq_bind, Option.bind_map, Option.pure_def]
  cases outBuffer.writeToBuffer (frame (reply services tmp.toRpcFields)) with
  | none => rfl
  | some after => rfl

/-- A longer one is lost. -/
theorem dispatch_lost (services : ServiceMap Message) (genMsgNumber : Bytes) {tmp : RpcStruct}
    (h : Sendable tmp.toRpcFields) (hlength : kMaxPacketLen < replyLength services tmp.toRpcFields)
    (outBuffer : TcpBuffer) :
    dispatch services genMsgNumber tmp outBuffer =
      some (outBuffer, ⟨tmp.msgNo, tmp.serviceName ++ [dot] ++ tmp.methodName⟩) := by
  rw [← frameLength_reply] at hlength
  have hlost := @encodePbData_tooLarge (reply services tmp.toRpcFields) h.service h.method h.msgNo hlength
    genMsgNumber {}
  rw [dispatch, encode, hlost]
  rfl

theorem replied_iff (services : ServiceMap Message) (genMsgNumber : Bytes) {tmp : RpcStruct}
    (h : Sendable tmp.toRpcFields) {outBuffer : TcpBuffer} (ho : WellFormed outBuffer) :
    (∃ after runTime, dispatch services genMsgNumber tmp outBuffer = some (after, runTime) ∧
      Replied services tmp.toRpcFields outBuffer after) ↔
    replyLength services tmp.toRpcFields ≤ kMaxPacketLen ∧
      outBuffer.Room (replyLength services tmp.toRpcFields) := by
  by_cases hlength : replyLength services tmp.toRpcFields ≤ kMaxPacketLen
  · have hsize : (frame (reply services tmp.toRpcFields)).length = replyLength services tmp.toRpcFields := by
      rw [frame_length, frameLength_reply]
    rw [dispatch_write services genMsgNumber h hlength, ← hsize]
    constructor
    · rintro ⟨after, runTime, hafter, -⟩
      refine ⟨hsize ▸ hlength, ?_⟩
      by_contra hroom
      rw [writeToBuffer_none hroom] at hafter
      cases hafter
    · rintro ⟨-, hroom⟩
      obtain ⟨after, hafter, -, hreadable, -⟩ := writeToBuffer_room ho _ hroom
      have hdecodes := decodesTo_frame (sendable_reply services h hlength)
      exact ⟨after, _, by rw [hafter]; rfl, _, reply services tmp.toRpcFields, hreadable, hdecodes, rfl,
        rfl, rfl, reply_served services tmp.toRpcFields⟩
  · refine iff_of_false ?_ fun hfits => hlength hfits.1
    rintro ⟨after, runTime, hafter, f, p, hreadable, hdecodes, -⟩
    rw [dispatch_lost services genMsgNumber h (by omega)] at hafter
    obtain rfl := congrArg Prod.fst (Option.some.inj hafter)
    obtain rfl := List.append_right_eq_self.mp hreadable.symm
    exact not_decodesTo_nil p hdecodes

/-- **Every accepted request gets exactly one reply**, which answers it, as long as the reply is
no longer than a packet may be and the out buffer can hold it. -/
theorem dispatch_replies_iff (services : ServiceMap Message) (genMsgNumber : Bytes)
    {b : TcpBuffer} (hb : WellFormed b) {data : RpcStruct} {out : Decoded}
    (hout : decode b data = some out) (hsucc : out.data.decodeSucc = true)
    {outBuffer : TcpBuffer} (ho : WellFormed outBuffer) :
    (∃ after runTime, dispatch services genMsgNumber out.data outBuffer = some (after, runTime) ∧
      Replied services out.data.toRpcFields outBuffer after) ↔
    replyLength services out.data.toRpcFields ≤ kMaxPacketLen ∧
      outBuffer.Room (replyLength services out.data.toRpcFields) :=
  replied_iff services genMsgNumber (decode_sendable hb hout hsucc) ho

/-- A server with one method, which answers with its request. -/
def echo : ServiceMap Bytes := fun serviceName =>
  if serviceName = [0x41] then
    some (some ⟨fun methodName => if methodName = [0x42] then some ⟨ascii "Echo", some, id, some⟩ else none⟩)
  else none

theorem dispatch_replies_iff_echo :
    ∃ after runTime, dispatch echo [] ⟨{decodeSucc := true}, greeting⟩ (make 128) = some (after, runTime) ∧
      Replied echo greeting (make 128) after :=
  (@dispatch_replies_iff _ echo [] ⟨1, 34, 0xff :: 0xff :: frame greeting⟩
    ⟨by decide, by decide, by decide, by decide⟩ {}
    ⟨⟨0, 0, List.replicate 34 0⟩, ⟨{decodeSucc := true}, greeting⟩, none⟩ (by decide) rfl (make 128)
    (make_wellFormed 128 (by decide) (by decide))).mpr ⟨by decide, .inr (by decide)⟩

/-- A request for a service whose name has `n` bytes. -/
def named (n : Nat) : RpcFields :=
  {msgNo := [0x31], serviceName := List.replicate n 0x41, methodName := [0x42]}

theorem named_length (n : Nat) : frameLength (named n) = n + 29 := by
  simp only [frameLength, named, RpcFields.fullName, kMinPacketLen, List.length_append, List.length_cons,
    List.length_nil, List.length_replicate]
  omega

theorem named_sendable {n : Nat} (hn : 0 < n) (hsize : n + 29 ≤ kMaxPacketLen) : Sendable (named n) where
  service h := by
    have := congrArg List.length h
    simp only [named, List.length_replicate, List.length_nil] at this
    omega
  method := by simp [named]
  noDot := by simp [named, dot]
  msgNo := by simp [named]
  size := by rw [named_length]; exact hsize

theorem named_replyLength (n : Nat) :
    replyLength (fun _ => none : ServiceMap Message) (named n) = 2 * n + 54 := by
  simp only [replyLength, answerLength, named, RpcFields.fullName, kMinPacketLen, Option.join_none,
    List.length_append, List.length_cons, List.length_nil, List.length_replicate]
  omega

/-- A buffer that holds one frame. -/
theorem framed_wellFormed {p : RpcFields} (hp : Sendable p) :
    WellFormed ⟨0, frameLength p, frame p⟩ ∧ readable ⟨0, frameLength p, frame p⟩ = frame p := by
  have hsize := hp.size
  simp only [kMaxPacketLen] at hsize
  refine ⟨⟨Int.le_refl 0, Int.natCast_nonneg _, by simp only [frame_length]; omega,
    by simp only [frame_length]; omega⟩, ?_⟩
  simp only [readable, readAble, Int.sub_zero, slice, ← frame_length, Int.toNat_zero, List.drop_zero,
    Int.toNat_natCast, List.take_length]

/-- The reply that a service of nine million bytes was not found repeats its name, and is lost. -/
theorem not_replied_longName : ¬ ∀ (services : ServiceMap Bytes) (genMsgNumber : Bytes) (b : TcpBuffer)
    (data : RpcStruct) (out : Decoded) (outBuffer : TcpBuffer), WellFormed b → decode b data = some out →
      out.data.decodeSucc = true → WellFormed outBuffer →
      ∃ after runTime, dispatch services genMsgNumber out.data outBuffer = some (after, runTime) ∧
        Replied services out.data.toRpcFields outBuffer after := fun h => by
  have hsend : Sendable (named 9000000) := named_sendable (by decide) (by decide)
  obtain ⟨hb, hreadable⟩ := framed_wellFormed hsend
  obtain ⟨out, hout, hsucc, hdata, -⟩ := decodesTo_frame hsend _ {} hb hreadable
  have hwf := make_wellFormed 128 (by decide) (by decide)
  have hreplied := h (fun _ => none) [] _ {} out (make 128) hb hout hsucc hwf
  have hfits := ((replied_iff _ [] (hdata ▸ hsend) hwf).mp hreplied).1
  rw [hdata, named_replyLength] at hfits
  revert hfits
  decide

end CoroutineRpc.Rpc
