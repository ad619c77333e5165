import CoroutineRpc.Net.Tcp.Asking
import CoroutineRpc.Rpc.Serving

/-! A client and a server, and the bytes between them.

The kernel hands the bytes of one end to the other in order, in any pieces and at any time, and both
ends go on in any order. A connection is new when a connect succeeds. While the client does not
connect again behind bytes that it wrote or read, every packet that a call returns is the server's
reply to a request with the call's number, which the client encoded (`result_is_reply`). -/
namespace CoroutineRpc.Rpc
open Net.Tcp Net.Tcp.TcpBuffer Net.Tcp.Serving Library.Framing Library.Transition

variable {Message : Type}

/-- What both ends take from their surroundings. -/
structure Peers (Message : Type) where
  settings : Client.Settings
  services : ServiceMap Message
  genMsgNumber : Bytes
  serverFd : Int
  buffSize : Int
  size : 0 ≤ buffSize ∧ buffSize < 2 ^ 31

/-- `sent` and `received` are what the client wrote to its connection and read from it, `arrived` is
what the server read. -/
structure Conversation where
  client : Client.State
  sent : Bytes := []
  received : Bytes := []
  server : Option Wire := none
  arrived : Bytes := []

namespace Conversation

inductive Input where
  | client (i : Client.Input)
  | server (i : Server.Input)

/-- What the server wrote. -/
def replied (c : Conversation) : Bytes :=
  match c.server with
  | none => []
  | some w => w.taken

def initial (peers : Peers Message) (fd : Int) : Conversation := {client := Client.initial peers.settings fd}

def step (peers : Peers Message) (c : Conversation) : Input → Option Conversation
  | .client i => do
    if c.received ++ i.bytes <+: c.replied then
      let bytes ← Client.handed c.client i
      let client ← Client.step peers.settings c.client i
      match i with
      | .connect _ =>
        if client.pc = .connected then
          pure {client, server := some ⟨Server.initial peers.serverFd peers.buffSize, []⟩}
        else pure {c with client}
      | _ => pure {c with client, sent := c.sent ++ bytes, received := c.received ++ i.bytes}
    else none
  | .server i => do
    let w ← c.server
    if c.arrived ++ arrival i <+: c.sent then
      let w ← serve (Server.step (dispatch peers.services peers.genMsgNumber)) w i
      pure {c with server := some w, arrived := c.arrived ++ arrival i}
    else none

/-- The packets that were encoded. -/
def asked (is : List Input) : List RpcFields :=
  is.flatMap fun
    | .client i => i.asks
    | .server _ => []

/-- The client encodes packets that can be sent, and connects only as long as nothing was sent. -/
def Orderly (c : Conversation) : Input → Prop
  | .client (.connect _) => c.sent = [] ∧ c.received = []
  | .client (.encode _ data) => Sendable data.toRpcFields
  | _ => True

instance (p : RpcFields) : Decidable (Sendable p) :=
  decidable_of_iff (p.serviceName ≠ [] ∧ p.methodName ≠ [] ∧ p.methodName.all (· ≠ dot) ∧ p.msgNo ≠ [] ∧
      frameLength p ≤ kMaxPacketLen) <| by
    constructor
    · rintro ⟨hservice, hmethod, hall, hmsgNo, hsize⟩
      refine ⟨hservice, hmethod, fun hmem => ?_, hmsgNo, hsize⟩
      exact absurd rfl (of_decide_eq_true (List.all_eq_true.mp hall dot hmem))
    · rintro ⟨hservice, hmethod, hnoDot, hmsgNo, hsize⟩
      refine ⟨hservice, hmethod, List.all_eq_true.mpr fun b hb => ?_, hmsgNo, hsize⟩
      exact decide_eq_true fun heq => hnoDot (heq ▸ hb)

instance (c : Conversation) : ∀ i : Input, Decidable (Orderly c i)
  | .client (.connect _) => inferInstanceAs (Decidable (_ ∧ _))
  | .client (.encode _ data) => inferInstanceAs (Decidable (Sendable data.toRpcFields))
  | .client (.call ..) | .client .resetFd | .client (.setTimeout _) | .client .destroy | .client .advance
  | .client (.read _) | .client (.write _) | .client (.socket ..) | .client .resume | .client (.timer _)
  | .client (.elsewhere _) | .server _ => isTrue trivial

/-! ### What both ends agree on -/

/-- The server answered these. -/
def Answers (peers : Peers Message) (c : Conversation) (answered : List RpcFields) : Prop :=
  match c.server with
  | none => answered = [] ∧ c.arrived = []
  | some w => Serves (packets peers.services) w c.arrived answered

structure Converses (peers : Peers Message) (c : Conversation) (asked : List RpcFields) : Prop where
  buffers : Session.Buffers c.client.session
  quiet : Client.Quiet c.client
  keyed : Client.Keyed c.client
  sendable : ∀ p ∈ asked, Sendable p
  arrived : c.arrived <+: c.sent
  received : c.received <+: c.replied
  talks : ∃ answered waiting heard unheard, asked = answered ++ waiting ∧
    answered.flatMap (replies peers.services) = heard ++ unheard ∧ Answers peers c answered ∧
      Client.Talks c.client c.sent c.received asked heard

variable {peers : Peers Message} {c : Conversation} {answered heard : List RpcFields}

/-- What the server wrote is replies. -/
theorem replied_of_answers (h : Answers peers c answered) :
    c.replied <+: (answered.flatMap (replies peers.services)).flatMap frame := by
  unfold Answers at h
  unfold replied
  cases hserver : c.server with
  | none => exact List.nil_prefix
  | some w =>
    rw [hserver] at h
    rw [List.flatMap_assoc]
    exact ⟨_, h.write⟩

theorem sendable_answers {services : ServiceMap Message} (h : ∀ p ∈ answered, Sendable p) :
    ∀ p ∈ answered.flatMap (replies services), Sendable p := by
  intro p hp
  obtain ⟨request, hrequest, hp⟩ := List.mem_flatMap.mp hp
  exact sendable_replies services (h request hrequest) p hp

/-- Who heard no byte heard no packet. -/
theorem heard_nil (hgood : ∀ p ∈ heard, Sendable p) {l : Bytes} (h : heard.flatMap frame ++ l = []) : heard = [] := by
  cases heard with
  | nil => rfl
  | cons p rest =>
    rw [List.flatMap_cons, List.append_assoc] at h
    exact absurd (List.append_eq_nil_iff.mp h).1 (frames_receive.nonempty p (hgood p (List.mem_cons_self ..)))

/-- The client's steps. -/
theorem converses_client {asked : List RpcFields} (h : Converses peers c asked) {i : Client.Input}
    (horderly : Orderly c (.client i)) {t : Conversation} (ht : step peers c (.client i) = some t) :
    Converses peers t (asked ++ i.asks) := by
  obtain ⟨answered, waiting, heard, unheard, rfl, hheard, hanswers, htalks⟩ := h.talks
  unfold step at ht
  dsimp only at ht
  split at ht
  swap
  · cases ht
  rename_i hreceived
  obtain ⟨bytes, hbytes, hrest⟩ := Option.bind_eq_some_iff.mp ht
  obtain ⟨client, hclient, hnext⟩ := Option.bind_eq_some_iff.mp hrest
  have hasks : ∀ p ∈ i.asks, Sendable p := by
    intro p hp
    cases i with
    | encode genMsgNumber data =>
      obtain rfl := List.mem_singleton.mp hp
      exact horderly
    | _ => cases hp
  have hgood : ∀ p ∈ heard ++ unheard, Sendable p := by
    rw [← hheard]
    exact sendable_answers fun p hp => h.sendable p (List.mem_append_left waiting hp)
  have hgot : c.received ++ i.bytes <+: (heard ++ unheard).flatMap frame :=
    hheard ▸ hreceived.trans (replied_of_answers hanswers)
  obtain ⟨more, rest, rfl, hnow⟩ := Client.talks_step htalks h.buffers
    (fun p hp => hgood p (List.mem_append_right heard hp)) hasks hgot hclient hbytes
  have hsendable : ∀ p ∈ answered ++ waiting ++ i.asks, Sendable p := by
    intro p hp
    rcases List.mem_append.mp hp with hp | hp
    · exact h.sendable p hp
    · exact hasks p hp
  have hbuffers := Client.buffers_step h.buffers h.quiet hclient
  have hquiet := Client.quiet_step h.quiet hclient
  have hkeyed := Client.keyed_step h.keyed hclient
  split at hnext
  · rename_i result
    obtain rfl := Option.some.inj hbytes
    rw [show (Client.Input.connect result).bytes = [] from rfl, List.append_nil, List.append_nil] at hnow
    split at hnext
    · -- nothing was sent on a connection before
      obtain rfl := Option.some.inj hnext
      obtain ⟨hsent, hnone⟩ := horderly
      have hread := hnow.read
      rw [hnone] at hread
      have hsilent := heard_nil (fun p hp => hgood p (by
        rw [← List.append_assoc]
        exact List.mem_append_left rest hp)) hread
      rw [hsent, hnone, hsilent] at hnow
      exact ⟨hbuffers, hquiet, hkeyed, hsendable, List.prefix_refl _, List.prefix_refl _, [],
        answered ++ waiting ++ (Client.Input.connect result).asks, [], [], rfl, rfl,
        serves_initial peers.serverFd peers.size.1 peers.size.2, hnow⟩
    · obtain rfl := Option.some.inj hnext
      exact ⟨hbuffers, hquiet, hkeyed, hsendable, h.arrived, h.received, answered,
        waiting ++ (Client.Input.connect result).asks, heard ++ more, rest, List.append_assoc .., by
          rw [hheard, List.append_assoc], hanswers, hnow⟩
  · obtain rfl := Option.some.inj hnext
    exact ⟨hbuffers, hquiet, hkeyed, hsendable, h.arrived.trans (List.prefix_append _ bytes), hreceived, answered,
      waiting ++ i.asks, heard ++ more, rest, List.append_assoc .., by rw [hheard, List.append_assoc], hanswers, hnow⟩

/-- The server's steps. -/
theorem converses_server {asked : List RpcFields} (h : Converses peers c asked) {i : Server.Input} {t : Conversation}
    (ht : step peers c (.server i) = some t) : Converses peers t asked := by
  obtain ⟨answered, waiting, heard, unheard, rfl, hheard, hanswers, htalks⟩ := h.talks
  obtain ⟨w, hw, hread⟩ := Option.bind_eq_some_iff.mp ht
  split at hread
  swap
  · cases hread
  rename_i harrived
  obtain ⟨u, hu, hnext⟩ := Option.bind_eq_some_iff.mp hread
  obtain rfl := Option.some.inj hnext
  unfold Answers at hanswers
  rw [hw] at hanswers
  have hgot : c.arrived ++ arrival i <+: (answered ++ waiting).flatMap frame := harrived.trans ⟨_, htalks.write⟩
  obtain ⟨more, rest, rfl, hserves⟩ := hanswers.step (executes_dispatch peers.services peers.genMsgNumber)
    h.sendable hgot hu
  obtain ⟨bytes, -, -, htaken⟩ := serve_some hu
  have hreplied : c.replied <+: u.taken := by
    unfold replied
    rw [hw, htaken]
    exact List.prefix_append _ bytes
  refine ⟨h.buffers, h.quiet, h.keyed, h.sendable, harrived, h.received.trans hreplied, answered ++ more, rest, heard,
    unheard ++ more.flatMap (replies peers.services), (List.append_assoc ..).symm, ?_, hserves, htalks⟩
  rw [List.flatMap_append, hheard, List.append_assoc]

theorem converses_initial (peers : Peers Message) (fd : Int) : Converses peers (initial peers fd) [] where
  buffers :=
    have hnone : run (Client.step peers.settings) (Client.initial peers.settings fd) [] = some _ := rfl
    Client.buffers_run hnone
  quiet _ := ⟨rfl, rfl⟩
  keyed := Client.keyed_initial peers.settings fd
  sendable := by simp
  arrived := List.prefix_refl _
  received := List.prefix_refl _
  talks := ⟨[], [], [], [], rfl, rfl, ⟨rfl, rfl⟩, Client.talks_initial peers.settings fd⟩

theorem converses_run {asked₀ : List RpcFields} {is : List Input} {t : Conversation} (h : Converses peers c asked₀)
    (hmeets : Meets (step peers) Orderly c is) (hr : run (step peers) c is = some t) :
    Converses peers t (asked₀ ++ asked is) := by
  induction is generalizing c asked₀ with
  | nil =>
    obtain rfl := Option.some.inj hr
    exact (List.append_nil asked₀).symm ▸ h
  | cons i rest ih =>
    obtain ⟨u, hu, hrest⟩ := run_cons_some.mp hr
    rw [asked, List.flatMap_cons, ← List.append_assoc]
    refine ih ?_ (hmeets.2 u hu) hrest
    cases i with
    | client i => exact converses_client h hmeets.1 hu
    | server i =>
      rw [List.append_nil]
      exact converses_server h hu

/-- What a call returned is a reply. -/
theorem Converses.result {asked : List RpcFields} (h : Converses peers c asked) {d : RpcStruct}
    (hd : c.client.result = some (.ok d)) :
    ∃ request ∈ asked, request.msgNo = c.client.msgNo ∧ d.toRpcFields = reply peers.services request := by
  obtain ⟨answered, waiting, heard, unheard, rfl, hheard, -, htalks⟩ := h.talks
  have hmem : d.toRpcFields ∈ answered.flatMap (replies peers.services) := by
    rw [hheard]
    exact List.mem_append_left unheard (htalks.result d hd)
  obtain ⟨request, hrequest, hreply⟩ := List.mem_flatMap.mp hmem
  unfold replies at hreply
  split at hreply
  swap
  · cases hreply
  have heq := List.mem_singleton.mp hreply
  refine ⟨request, List.mem_append_left waiting hrequest, ?_, heq⟩
  rw [← h.keyed.result d hd]
  exact (congrArg RpcFields.msgNo heq).symm

/-- **Every packet that a call returns is the server's reply to a request with the call's number.**
It holds in any run of the two ends, whatever the kernel does with the bytes between them. -/
theorem result_is_reply (peers : Peers Message) (fd : Int) {is : List Input}
    (hmeets : Meets (step peers) Orderly (initial peers fd) is) {t : Conversation}
    (hr : run (step peers) (initial peers fd) is = some t) {d : RpcStruct} (hd : t.client.result = some (.ok d)) :
    ∃ request ∈ asked is, request.msgNo = t.client.msgNo ∧ d.toRpcFields = reply peers.services request := by
  have hconverses := converses_run (converses_initial peers fd) hmeets hr
  exact hconverses.result hd

/-! ### A call that is answered -/

def echoPeers : Peers Bytes where
  settings := ⟨"127.0.0.1:8000", fun _ => "", 75000, fun _ => 0⟩
  services := echo
  genMsgNumber := []
  serverFd := 5
  buffSize := 64
  size := by decide

/-- `sendAndRecv` up to its first read, the server's loop once, and the rest of the call. -/
def oneAnswer : List Input :=
  [.client .advance, .client (.connect .ok), .client .advance, .client .advance, .client (.write (.sent 32)),
    .client .advance, .client .advance, .client .advance, .server (.io .advance),
    .server (.io (.read (.data (frame greeting)))), .server (.io .advance), .server (.io .advance),
    .server (.io .advance), .server (.io .advance), .server (.io .advance), .server (.io (.write (.sent 32))),
    .client (.read (.data (frame (reply echo greeting)))), .client .advance, .client .advance, .client .advance,
    .client .advance, .client .advance]

/-- The greeting is encoded and called. -/
def oneCall : List Input :=
  [.client (.setTimeout 5000), .client (.encode [] ⟨{}, greeting⟩), .client (.call [0x31] false)] ++ oneAnswer

theorem meets_oneCall : Meets (step echoPeers) Orderly (initial echoPeers 7) oneCall := by
  decide +kernel

theorem run_oneCall : ∃ t d, run (step echoPeers) (initial echoPeers 7) oneCall = some t ∧
    t.client.result = some (.ok d) ∧ t.client.errInfo = "" := by
  have hrun : (run (step echoPeers) (initial echoPeers 7) oneCall).any fun t =>
      (t.client.result.any Except.isOk) && t.client.errInfo == "" := by
    decide +kernel
  obtain ⟨t, ht, hreturned⟩ := (Option.any_eq_true _ _).mp hrun
  rw [Bool.and_eq_true, beq_iff_eq] at hreturned
  obtain ⟨hreturned, hinfo⟩ := hreturned
  obtain ⟨result, hresult, hok⟩ := (Option.any_eq_true _ _).mp hreturned
  cases result with
  | error => cases hok
  | ok d => exact ⟨t, d, ht, hresult, hinfo⟩

theorem result_is_reply_instance : ∃ t d, run (step echoPeers) (initial echoPeers 7) oneCall = some t ∧
    t.client.result = some (.ok d) ∧ ∃ request ∈ asked oneCall, request.msgNo = t.client.msgNo ∧
      d.toRpcFields = reply echo request := by
  obtain ⟨t, d, ht, hd, -⟩ := run_oneCall
  exact ⟨t, d, ht, hd, result_is_reply echoPeers 7 meets_oneCall ht hd⟩

end Conversation

end CoroutineRpc.Rpc
