import CoroutineRpc.Rpc.Address
import CoroutineRpc.Rpc.Conversation

/-! `RpcChannel::CallMethod`, from the request to what the controller says.

A call looks up the address, encodes one packet into a new client, and makes of what `sendAndRecv`
returns a response or an error. If the client is in conversation with a server, a response is what
the server's method computed on the request, and whatever goes wrong is in the controller: at this
end, on the way, or what the server answered instead (`callMethod_answers`). -/
namespace CoroutineRpc.Rpc
open Net Net.Tcp Registry Library.Transition

/-! ### `RpcController` -/

structure RpcController where
  failed : Bool := false
  errText : Bytes := []
  errorCode : BitVec 32 := 0
  msgReq : Bytes := []
  timeout : Int := 5000
deriving DecidableEq

namespace RpcController

/-- The time-out stays. -/
def reset (c : RpcController) : RpcController :=
  {c with failed := false, errText := [], errorCode := 0, msgReq := []}

def setFailed (c : RpcController) (reason : Bytes) : RpcController := {c with failed := true, errText := reason}

def setErrorCode (c : RpcController) (code : BitVec 32) : RpcController := {c with errorCode := code}

def setError (c : RpcController) (errCode : BitVec 32) (errInfo : Bytes) : RpcController :=
  (c.setFailed errInfo).setErrorCode errCode

end RpcController

/-- What `CallMethod` is given as its controller: one of ours, or another of which it only knows
`SetFailed`. -/
inductive Controller where
  | rpc (c : RpcController)
  | other (failed : Bool) (errText : Bytes)
deriving DecidableEq

namespace Controller

def failed : Controller → Bool
  | rpc c => c.failed
  | other failed _ => failed

def setFailed (reason : Bytes) : Controller → Controller
  | rpc c => rpc (c.setFailed reason)
  | other _ _ => other true reason

/-- `SetError` on our own controller, `SetFailed` on another. -/
def setError (errCode : BitVec 32) (errInfo : Bytes) : Controller → Controller
  | rpc c => rpc (c.setError errCode errInfo)
  | other _ _ => other true errInfo

def msgSeq : Controller → Bytes
  | rpc c => c.msgReq
  | other _ _ => []

def timeout : Controller → Int
  | rpc c => c.timeout
  | other _ _ => 5000

@[simp] theorem setFailed_failed (reason : Bytes) (c : Controller) : (c.setFailed reason).failed = true := by
  cases c <;> rfl

@[simp] theorem setError_failed (errCode : BitVec 32) (errInfo : Bytes) (c : Controller) :
    (c.setError errCode errInfo).failed = true := by
  cases c <;> rfl

end Controller

/-! ### `CallMethod` -/

/-- The names of a method, the request that is passed and how its response parses. -/
structure Stub (Message : Type) where
  serviceName : Bytes
  methodName : Bytes
  serializeToString : Option Bytes
  parseFromString : Bytes → Option Message

variable {Message : Type} {σ : Type}

namespace RpcChannel

def pbStruct (stub : Stub Message) (controller : Controller) (genMsgNumber argsStr : Bytes) : RpcFields :=
  { serviceName := stub.serviceName
    methodName := stub.methodName
    pbData := argsStr
    msgNo := if controller.msgSeq ≠ [] then controller.msgSeq else genMsgNumber }

/-- What follows from the `rt` of `sendAndRecv`. -/
def finish (stub : Stub Message) (controller : Controller) (errInfo : Bytes) :
    Except ErrorCode RpcStruct → Controller × Option Message
  | .error rt => (controller.setError rt.value errInfo, none)
  | .ok resData =>
    if resData.errCode ≠ 0 then (controller.setError resData.errCode resData.errInfo, none)
    else
      match stub.parseFromString resData.pbData with
      | none => (controller.setError ErrorCode.failedDeserialize.value (ascii "deserialize response error"), none)
      | some response => (controller, some response)

/-- `sendAndRecv` gives what a new client returns, and its `getErrInfo`, if it is told the time-out, has the
packet encoded into its buffer and is called with the packet's number. `buffer` is what `GetData`
finds in its buffer. -/
def callMethod (zk : ZooKeeper σ) (server : σ) (buffer genMsgNumber : Bytes)
    (sendAndRecv : Bytes × BitVec 16 → Int → RpcStruct → Bytes → Option (Except ErrorCode RpcStruct × Bytes))
    (stub : Stub Message) (controller : Controller) : Option (Controller × Option Message) :=
  match stub.serializeToString with
  | none => some (controller.setFailed (ascii "serialize request error"), none)
  | some argsStr => do
    match ← address zk server stub.serviceName stub.methodName buffer with
    | .error reason => pure (controller.setFailed reason, none)
    | .ok addr =>
      let data : RpcStruct := ⟨{}, pbStruct stub controller genMsgNumber argsStr⟩
      let encoded := (encodePbData genMsgNumber data).1
      if ¬ encoded.encodeSucc then pure (controller.setFailed (ascii "encode request error"), none)
      else
        let (rt, errInfo) ← sendAndRecv addr controller.timeout data encoded.msgNo
        pure (finish stub controller errInfo rt)

end RpcChannel

/-! ### In conversation with a server -/

/-- The bytes of a text. -/
def utf8 (s : String) : Bytes := s.toUTF8.toList.map fun b => b.toBitVec

/-- What `CallMethod` does with its client. -/
def toldFirst (timeout : Int) (genMsgNumber : Bytes) (data : RpcStruct) (msgNo : Bytes) (isMain : Bool) :
    List Conversation.Input :=
  [.client (.setTimeout timeout), .client (.encode genMsgNumber data), .client (.call msgNo isMain)]

/-- The call was the only one of a client in conversation with this server, and this is what it
returned. -/
def Conversed (peers : Peers Message) (timeout : Int) (data : RpcStruct) (msgNo : Bytes)
    (rt : Except ErrorCode RpcStruct) (errInfo : Bytes) : Prop :=
  ∃ fd genMsgNumber isMain is t, Conversation.asked is = [] ∧
    Meets (Conversation.step peers) Conversation.Orderly (Conversation.initial peers fd)
      (toldFirst timeout genMsgNumber data msgNo isMain ++ is) ∧
    run (Conversation.step peers) (Conversation.initial peers fd)
      (toldFirst timeout genMsgNumber data msgNo isMain ++ is) = some t ∧
    t.client.result = some rt ∧ utf8 t.client.errInfo = errInfo

/-- A packet that came back is the reply. -/
theorem conversed_reply {peers : Peers Message} {timeout : Int} {data d : RpcStruct} {msgNo errInfo : Bytes}
    (h : Conversed peers timeout data msgNo (.ok d) errInfo) :
    d.toRpcFields = reply peers.services data.toRpcFields := by
  obtain ⟨fd, genMsgNumber, isMain, is, t, honly, hmeets, hr, hresult, -⟩ := h
  have hconverses := Conversation.converses_run (Conversation.converses_initial peers fd) hmeets hr
  obtain ⟨request, hrequest, -, hreply⟩ := hconverses.result hresult
  rw [List.nil_append] at hrequest
  have hasked : Conversation.asked (toldFirst timeout genMsgNumber data msgNo isMain ++ is) = [data.toRpcFields] := by
    have happend : Conversation.asked (toldFirst timeout genMsgNumber data msgNo isMain ++ is) =
        [data.toRpcFields] ++ Conversation.asked is := List.flatMap_append
    rw [happend, honly, List.append_nil]
  rw [hasked] at hrequest
  rw [hreply, List.mem_singleton.mp hrequest]

/-- **A call ends with what the method computed, or with an error in the controller.** A response is
there only if the server's method returned it for this request, and then the controller is left
alone. Without one the controller has failed: before the call, with the error of `sendAndRecv`, with
the error that the server answered, or because the response did not parse. -/
theorem callMethod_answers (peers : Peers Message) (zk : ZooKeeper σ) (server : σ) (buffer genMsgNumber : Bytes)
    {Response : Type} (stub : Stub Response) (controller : Controller)
    {sendAndRecv : Bytes × BitVec 16 → Int → RpcStruct → Bytes → Option (Except ErrorCode RpcStruct × Bytes)}
    (hconversed : ∀ addr timeout data msgNo rt errInfo, sendAndRecv addr timeout data msgNo = some (rt, errInfo) →
      Conversed peers timeout data msgNo rt errInfo)
    {after : Controller} {response : Option Response}
    (h : RpcChannel.callMethod zk server buffer genMsgNumber sendAndRecv stub controller = some (after, response)) :
    match response with
    | some m => after = controller ∧ ∃ argsStr bytes, stub.serializeToString = some argsStr ∧
        served peers.services (RpcChannel.pbStruct stub controller genMsgNumber argsStr) = some bytes ∧
        stub.parseFromString bytes = some m
    | none => after.failed = true ∧
        ((∃ reason, after = controller.setFailed reason) ∨
          ∃ argsStr, stub.serializeToString = some argsStr ∧
            let request := RpcChannel.pbStruct stub controller genMsgNumber argsStr
            ((∃ rt errInfo msgNo, after = controller.setError rt.value errInfo ∧
                Conversed peers controller.timeout ⟨{}, request⟩ msgNo (.error rt) errInfo) ∨
              (served peers.services request = none ∧ after =
                controller.setError (answer peers.services request).errCode (answer peers.services request).errInfo) ∨
              ∃ bytes, served peers.services request = some bytes ∧ stub.parseFromString bytes = none ∧ after =
                controller.setError ErrorCode.failedDeserialize.value (ascii "deserialize response error"))) := by
  unfold RpcChannel.callMethod at h
  cases hargs : stub.serializeToString with
  | none =>
    rw [hargs] at h
    obtain ⟨rfl, rfl⟩ := Prod.mk.inj (Option.some.inj h)
    exact ⟨by simp, .inl ⟨_, rfl⟩⟩
  | some argsStr =>
    rw [hargs] at h
    obtain ⟨found, -, h⟩ := Option.bind_eq_some_iff.mp h
    cases found with
    | error reason =>
      obtain ⟨rfl, rfl⟩ := Prod.mk.inj (Option.some.inj h)
      exact ⟨by simp, .inl ⟨_, rfl⟩⟩
    | ok addr =>
      dsimp only at h
      split at h
      · obtain ⟨rfl, rfl⟩ := Prod.mk.inj (Option.some.inj h)
        exact ⟨by simp, .inl ⟨_, rfl⟩⟩
      obtain ⟨⟨rt, errInfo⟩, hsent, h⟩ := Option.bind_eq_some_iff.mp h
      have hcall := hconversed _ _ _ _ _ _ hsent
      cases rt with
      | error rt =>
        obtain ⟨rfl, rfl⟩ := Prod.mk.inj (Option.some.inj h)
        exact ⟨by simp, .inr ⟨argsStr, rfl, .inl ⟨rt, errInfo, _, rfl, hcall⟩⟩⟩
      | ok d =>
        have hreply := conversed_reply hcall
        have hserved := reply_served peers.services (RpcChannel.pbStruct stub controller genMsgNumber argsStr)
        dsimp only at hreply
        have hcode : d.errCode = _ := congrArg RpcFields.errCode hreply
        have hinfo : d.errInfo = _ := congrArg RpcFields.errInfo hreply
        have hdata : d.pbData = _ := congrArg RpcFields.pbData hreply
        simp only [RpcChannel.finish, Option.pure_def] at h
        cases hbytes : served peers.services (RpcChannel.pbStruct stub controller genMsgNumber argsStr) with
        | none =>
          rw [hbytes] at hserved
          rw [if_pos (hcode ▸ hserved)] at h
          obtain ⟨rfl, rfl⟩ := Prod.mk.inj (Option.some.inj h)
          exact ⟨by simp, .inr ⟨argsStr, rfl, .inr (.inl ⟨hbytes, by rw [hcode, hinfo]; rfl⟩)⟩⟩
        | some bytes =>
          rw [hbytes] at hserved
          rw [if_neg (by rw [hcode, hserved.1]; exact fun hne => hne rfl), hdata, hserved.2] at h
          cases hparse : stub.parseFromString bytes with
          | none =>
            rw [hparse] at h
            obtain ⟨rfl, rfl⟩ := Prod.mk.inj (Option.some.inj h)
            exact ⟨by simp, .inr ⟨argsStr, rfl, .inr (.inr ⟨bytes, hbytes, hparse, rfl⟩)⟩⟩
          | some m =>
            rw [hparse] at h
            obtain ⟨rfl, rfl⟩ := Prod.mk.inj (Option.some.inj h)
            exact ⟨rfl, argsStr, bytes, rfl, hbytes, hparse⟩

/-! ### A call that is answered -/

def greetingStub : Stub Bytes := ⟨[0x41], [0x42], some [0x02, 0x03], some⟩

def greetingController : Controller := .rpc {msgReq := [0x31]}

/-- The node of the method. -/
def greetingNodes : Bytes → Option Bytes := fun path =>
  if path = ascii "/A/B" then some (ascii "127.0.0.1:8000") else none

/-- What a client returns in `oneCall`. -/
def echoCall (_ : Bytes × BitVec 16) (timeout : Int) (data : RpcStruct) (msgNo : Bytes) :
    Option (Except ErrorCode RpcStruct × Bytes) :=
  if timeout = 5000 ∧ data = ⟨{}, greeting⟩ ∧ msgNo = [0x31] then
    (run (Conversation.step Conversation.echoPeers) (Conversation.initial Conversation.echoPeers 7)
      Conversation.oneCall).bind fun t => t.client.result.map fun rt => (rt, utf8 t.client.errInfo)
  else none

theorem conversed_echoCall (addr : Bytes × BitVec 16) (timeout : Int) (data : RpcStruct) (msgNo : Bytes)
    (rt : Except ErrorCode RpcStruct) (errInfo : Bytes) (h : echoCall addr timeout data msgNo = some (rt, errInfo)) :
    Conversed Conversation.echoPeers timeout data msgNo rt errInfo := by
  unfold echoCall at h
  split at h
  swap
  · cases h
  rename_i hcall
  obtain ⟨rfl, rfl, rfl⟩ := hcall
  obtain ⟨t, hr, h⟩ := Option.bind_eq_some_iff.mp h
  obtain ⟨rt', hresult, heq⟩ := Option.map_eq_some_iff.mp h
  obtain ⟨rfl, rfl⟩ := Prod.mk.inj heq
  exact ⟨7, [], false, Conversation.oneAnswer, t, rfl, Conversation.meets_oneCall, hr, hresult, rfl⟩

theorem callMethod_answers_instance :
    RpcChannel.callMethod tree greetingNodes (List.replicate 64 0) [] echoCall greetingStub greetingController =
        some (greetingController, some [0x02, 0x03]) ∧
      greetingController = greetingController ∧ ∃ argsStr bytes, greetingStub.serializeToString = some argsStr ∧
        served echo (RpcChannel.pbStruct greetingStub greetingController [] argsStr) = some bytes ∧
        greetingStub.parseFromString bytes = some [0x02, 0x03] := by
  have hcall : RpcChannel.callMethod tree greetingNodes (List.replicate 64 0) [] echoCall greetingStub
      greetingController = some (greetingController, some [0x02, 0x03]) := by decide +kernel
  exact ⟨hcall, callMethod_answers Conversation.echoPeers tree greetingNodes _ [] greetingStub greetingController
    conversed_echoCall hcall⟩

end CoroutineRpc.Rpc
