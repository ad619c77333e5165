import CoroutineRpc.Net.Tcp.Serving

/-! What an RPC server answers.

The connection's loop keeps to the protocol of packets (`executes_dispatch`), so that a server that
is given packets sends the replies to the first of them, in order, once each, whatever the
segments, the system calls and the time wheel do (`server_answers`). A client decodes them, however
they are cut (`replies_received`). A reply that is longer than a packet may be is the only one that
is missing. -/
namespace CoroutineRpc.Rpc
open Net.Tcp Net.Tcp.TcpBuffer Net.Tcp.Session Net.Tcp.Serving Library.Framing Library.Transition

variable {Message : Type}

/-- The replies that are sent to a request: none, if it would be too long for a packet. -/
def replies (services : ServiceMap Message) (request : RpcFields) : List RpcFields :=
  if replyLength services request ≤ kMaxPacketLen then [reply services request] else []

/-- Requests and replies are packets. -/
def packets (services : ServiceMap Message) : Protocol RpcFields where
  next := receive
  encode := frame
  Good := Sendable
  frames := frames_receive
  answer request := (replies services request).flatMap frame

/-! ### `execute` -/

/-- The call of `dispatch`: what it adds to the write buffer. -/
theorem dispatch_answer (services : ServiceMap Message) (genMsgNumber : Bytes) {tmp : RpcStruct}
    (h : Sendable tmp.toRpcFields) {b : TcpBuffer} (hb : WellFormed b) {r : TcpBuffer × RunTime}
    (hr : dispatch services genMsgNumber tmp b = some r) :
    WellFormed r.1 ∧ r.1.readable = b.readable ++ (packets services).answer tmp.toRpcFields := by
  show _ ∧ _ = b.readable ++ (replies services tmp.toRpcFields).flatMap frame
  unfold replies
  by_cases hlength : replyLength services tmp.toRpcFields ≤ kMaxPacketLen
  · rw [if_pos hlength, List.flatMap_cons, List.flatMap_nil, List.append_nil]
    rw [dispatch_write services genMsgNumber h hlength] at hr
    obtain ⟨after, hwrite, rfl⟩ := Option.map_eq_some_iff.mp hr
    by_cases hroom : b.Room (frame (reply services tmp.toRpcFields)).length
    · obtain ⟨c, hc, hwf, hreadable, -⟩ := writeToBuffer_room hb _ hroom
      obtain rfl := Option.some.inj (hwrite.symm.trans hc)
      exact ⟨hwf, hreadable⟩
    · rw [writeToBuffer_none hroom] at hwrite
      cases hwrite
  · rw [if_neg hlength, List.flatMap_nil, List.append_nil]
    rw [dispatch_lost services genMsgNumber h (Nat.not_le.mp hlength)] at hr
    obtain rfl := Option.some.inj hr
    exact ⟨hb, rfl⟩

theorem decodeNext_packet {services : ServiceMap Message} {genMsgNumber : Bytes} {s t : Session} (h : Serving s)
    (hs : s.decodeNext (dispatch services genMsgNumber) = some t) : ExecutesOne (packets services) s t := by
  unfold decodeNext at hs
  split at hs
  swap
  · rename_i hnone
    have hempty : s.connection.readBuffer.readable = [] := by
      have := h.readBuffer.readAble_nonneg
      exact h.readBuffer.readAble_eq_zero.mp (by omega)
    obtain rfl := Option.some.inj hs
    unfold ExecutesOne
    rw [show (packets services).next = receive from rfl, hempty, frames_receive.empty]
    exact ⟨_, h.readBuffer, hempty, rfl⟩
  simp only [Option.bind_eq_bind, Option.bind_eq_some_iff, Option.pure_def] at hs
  obtain ⟨out, hout, hs⟩ := hs
  obtain ⟨out', hout', hwf, -, hreadable, hdata⟩ := decode_receive h.readBuffer {}
  obtain rfl := Option.some.inj (hout.symm.trans hout')
  unfold ExecutesOne
  rw [show (packets services).next = receive from rfl]
  revert hreadable hdata
  obtain ⟨found, left⟩ := receive s.connection.readBuffer.readable
  intro hreadable hdata
  cases found with
  | none =>
    have hdata : out.data = {({} : RpcStruct) with decodeSucc := false} := hdata
    rw [hdata] at hs
    exact ⟨out.buf, hwf, hreadable, (Option.some.inj hs).symm⟩
  | some request =>
    obtain ⟨hsucc, hfields⟩ : out.data.decodeSucc = true ∧ out.data.toRpcFields = request := hdata
    have hserver : (s.setReadBuffer out.buf).connection.connectionType = .serverConnection := h.server
    rw [hsucc] at hs
    simp only [not_true_eq_false, if_false] at hs
    split at hs
    · obtain ⟨r, hr, hs⟩ := Option.bind_eq_some_iff.mp hs
      refine ⟨out.buf, r.1, hwf, hreadable, (Option.some.inj hs).symm, fun hgood => ?_⟩
      rw [← hfields]
      exact dispatch_answer services genMsgNumber (hfields ▸ hgood) h.writeBuffer hr
    · rename_i hclient
      cases hserver.symm.trans hclient

/-- Only `execute` dispatches. -/
theorem step_dispatch {before after : RpcStruct → TcpBuffer → Option (TcpBuffer × RunTime)} {s : Session}
    (hs : s.pc ≠ .execute) (i : Session.Input) : s.step before i = s.step after i := by
  unfold Session.step
  split
  case h_6 hpc => exact absurd hpc hs
  all_goals rfl

theorem executes_dispatch (services : ServiceMap Message) (genMsgNumber : Bytes) :
    Executes (packets services) (Server.step (dispatch services genMsgNumber)) where
  shutdown hs := (Option.some.inj hs).symm
  returned {s t i callee} hpc hs := by
    have hother : i ≠ .advance → Server.step (dispatch services genMsgNumber) s (.io i) = none := by
      intro hi
      simp only [Server.step, hpc]
      split
      · exact absurd rfl hi
      · exact absurd rfl hi
      · exact absurd rfl hi
      · exact step_returned hpc
    by_cases hi : i = .advance
    · subst hi
      refine ⟨rfl, ?_⟩
      simp only [Server.step, hpc] at hs
      cases callee with
      | input => exact (Option.some.inj hs).symm
      | execute => exact (Option.some.inj hs).symm
      | output =>
        dsimp only at hs
        split at hs
        · cases hs
        · exact (Option.some.inj hs).symm
    · rw [hother hi] at hs
      cases hs
  execute {s t i} hserving hpc hs := by
    have hstep : s.step (dispatch services genMsgNumber) i = some t := by
      simp only [Server.step, hpc] at hs
      exact hs
    obtain ⟨-, rfl, hdecode⟩ := step_execute (by rw [hpc]; rfl) hstep
    exact ⟨rfl, decodeNext_packet hserving hdecode⟩
  call {s t i} hexecute hreturned hs := by
    have hstep : s.step (dispatch services genMsgNumber) i = some t := by
      unfold Server.step at hs
      dsimp only at hs
      split at hs
      · exact absurd ‹_› (hreturned _)
      · exact absurd ‹_› (hreturned _)
      · exact absurd ‹_› (hreturned _)
      · exact hs
    rw [← hstep]
    exact step_dispatch hexecute i

/-! ### A run of the server -/

section
variable (services : ServiceMap Message) (genMsgNumber : Bytes) (fd : Int) {buffSize : Int} {requests : List RpcFields}
  {is : List Server.Input} {w : Wire}

/-- Any run of the server in which packets come in. -/
theorem server_serves (hsize : 0 ≤ buffSize) (hint : buffSize < 2 ^ 31) (hgood : ∀ p ∈ requests, Sendable p)
    (harrived : is.flatMap arrival <+: requests.flatMap frame)
    (hr : run (serve (Server.step (dispatch services genMsgNumber))) ⟨Server.initial fd buffSize, []⟩ is = some w) :
    ∃ answered waiting, requests = answered ++ waiting ∧
      Serves (packets services) w (is.flatMap arrival) answered := by
  have hstart := serves_initial (P := packets services) fd hsize hint
  obtain ⟨answered, waiting, hsplit, hserves⟩ := serve_run (executes_dispatch services genMsgNumber) hgood hstart
    (List.nil_append requests).symm harrived hr
  exact ⟨answered, waiting, hsplit, hserves⟩

/-- **What a server has sent and what it is about to send are the replies to the first requests**, in
order, once each; what it has read and not answered is what came behind them. A reply that is too long
for a packet is missing. Where `output` has returned on an open connection, all is sent, and no request
that is complete was left. -/
theorem server_answers (hsize : 0 ≤ buffSize) (hint : buffSize < 2 ^ 31) (hgood : ∀ p ∈ requests, Sendable p)
    (harrived : is.flatMap arrival <+: requests.flatMap frame)
    (hr : run (serve (Server.step (dispatch services genMsgNumber))) ⟨Server.initial fd buffSize, []⟩ is = some w) :
    ∃ answered waiting, requests = answered ++ waiting ∧
      answered.flatMap frame ++ w.session.connection.readBuffer.readable = is.flatMap arrival ∧
      w.taken ++ w.session.connection.writeBuffer.readable = (answered.flatMap (replies services)).flatMap frame ∧
      (w.session.pc = .returned .output → w.session.connection.state = .connected →
        w.taken = (answered.flatMap (replies services)).flatMap frame ∧
          ∀ p, Sendable p → ¬ frame p <+: w.session.connection.readBuffer.readable) := by
  obtain ⟨answered, waiting, hsplit, hserves⟩ := server_serves services genMsgNumber fd hsize hint hgood harrived hr
  have hanswers : answered.flatMap (packets services).answer = (answered.flatMap (replies services)).flatMap frame :=
    List.flatMap_assoc.symm
  refine ⟨answered, waiting, hsplit, hserves.read, hserves.write.trans hanswers, fun hpc hstate => ?_⟩
  obtain ⟨htaken, hnone⟩ := hserves.answered hpc hstate
  exact ⟨htaken.trans hanswers, hnone⟩

/-- A request that comes in two parts, and its reply. -/
def inTwoParts : List Server.Input :=
  [.io .advance, .io (.read (.data ((frame greeting).take 10))), .io .advance, .io .advance, .io .advance,
    .io .advance, .io .advance, .io .advance, .io (.read (.data ((frame greeting).drop 10))), .io .advance,
    .io .advance, .io .advance, .io .advance, .io .advance, .io (.write (.sent 32))]

theorem run_inTwoParts : ∃ w, run (serve (Server.step (dispatch echo []))) ⟨Server.initial 5 64, []⟩ inTwoParts =
    some w ∧ w.session.pc = .returned .output ∧ w.session.connection.state = .connected ∧ w.taken.length = 32 := by
  have hrun : (run (serve (Server.step (dispatch echo []))) ⟨Server.initial 5 64, []⟩ inTwoParts).map
      (fun w => (w.session.pc, w.session.connection.state, w.taken.length)) =
        some (.returned .output, .connected, 32) := by decide +kernel
  obtain ⟨w, hw, heq⟩ := Option.map_eq_some_iff.mp hrun
  simp only [Prod.mk.injEq] at heq
  exact ⟨w, hw, heq⟩

theorem server_answers_instance : ∃ w, run (serve (Server.step (dispatch echo []))) ⟨Server.initial 5 64, []⟩
    inTwoParts = some w ∧ ∃ answered waiting, [greeting] = answered ++ waiting ∧
      answered.flatMap frame ++ w.session.connection.readBuffer.readable = inTwoParts.flatMap arrival ∧
      w.taken ++ w.session.connection.writeBuffer.readable = (answered.flatMap (replies echo)).flatMap frame ∧
      (w.session.pc = .returned .output → w.session.connection.state = .connected →
        w.taken = (answered.flatMap (replies echo)).flatMap frame ∧
          ∀ p, Sendable p → ¬ frame p <+: w.session.connection.readBuffer.readable) := by
  obtain ⟨w, hw, -⟩ := run_inTwoParts
  exact ⟨w, hw, server_answers echo [] 5 (by decide) (by decide)
    (fun p hp => by rw [List.mem_singleton.mp hp]; exact greeting_sendable) (by decide) hw⟩

theorem sendable_replies {request : RpcFields} (h : Sendable request) :
    ∀ p ∈ replies services request, Sendable p := by
  intro p hp
  unfold replies at hp
  split at hp
  · obtain rfl := List.mem_singleton.mp hp
    exact sendable_reply services h ‹_›
  · cases hp

/-- **Whoever sends requests gets their replies**, but for a reply that is too long for a packet, which
is not sent. All requests came in, however they were cut, and the server has come to the end of
`output`. Then a client that reads what the server wrote, less than 2^30 bytes in any pieces, decodes
the replies to all of them, in order, and is left with nothing. -/
theorem replies_received (hsize : 0 ≤ buffSize) (hint : buffSize < 2 ^ 31) (hgood : ∀ p ∈ requests, Sendable p)
    (harrived : is.flatMap arrival = requests.flatMap frame)
    (hr : run (serve (Server.step (dispatch services genMsgNumber))) ⟨Server.initial fd buffSize, []⟩ is = some w)
    (hpc : w.session.pc = .returned .output) (hstate : w.session.connection.state = .connected)
    {chunks : List Bytes} (hchunks : chunks.flatten = w.taken) {capacity : Int} (hcapacity : 0 ≤ capacity)
    (hcapacityInt : capacity < 2 ^ 31) (htotal : w.taken.length < 2 ^ 30) :
    ∃ received b, receiveAll (make capacity) chunks = some (received, b) ∧
      received.map RpcStruct.toRpcFields = requests.flatMap (replies services) ∧ b.readAble = 0 := by
  obtain ⟨answered, waiting, hsplit, hserves⟩ := server_serves services genMsgNumber fd hsize hint hgood
    (harrived ▸ List.prefix_refl _) hr
  obtain ⟨htaken, hnone⟩ := hserves.answered hpc hstate
  obtain rfl : waiting = [] := by
    cases waiting with
    | nil => rfl
    | cons p rest =>
      have hread := hserves.read
      rw [harrived, hsplit, List.flatMap_append] at hread
      refine absurd ?_ (hnone p (hgood p (by rw [hsplit]; simp)))
      rw [List.append_cancel_left hread, List.flatMap_cons]
      exact List.prefix_append _ _
  rw [List.append_nil] at hsplit
  subst hsplit
  have hframes : w.taken = (requests.flatMap (replies services)).flatMap frame := htaken.trans List.flatMap_assoc.symm
  have hlength : ((requests.flatMap (replies services)).map frameLength).sum = w.taken.length := by
    rw [hframes, List.length_flatMap]
    exact congrArg List.sum (List.map_congr_left fun p _ => (frame_length p).symm)
  obtain ⟨received, b, hb, hreceived, -, hempty⟩ := receiveAll_frames
    (fun p hp => by
      obtain ⟨request, hrequest, hp⟩ := List.mem_flatMap.mp hp
      exact sendable_replies services (hgood request hrequest) p hp)
    (hchunks.trans hframes) (make_wellFormed capacity hcapacity hcapacityInt) (make_readable capacity)
    (by rw [hlength]; show (0 : Int) + _ < _; omega)
  exact ⟨received, b, hb, hreceived, hempty⟩

theorem replies_received_instance : ∃ w, run (serve (Server.step (dispatch echo []))) ⟨Server.initial 5 64, []⟩
    inTwoParts = some w ∧ ∃ received b, receiveAll (make 1) [w.taken.take 7, w.taken.drop 7] = some (received, b) ∧
      received.map RpcStruct.toRpcFields = [greeting].flatMap (replies echo) ∧ b.readAble = 0 := by
  obtain ⟨w, hw, hpc, hstate, hlength⟩ := run_inTwoParts
  exact ⟨w, hw, replies_received echo [] 5 (by decide) (by decide)
    (fun p hp => by rw [List.mem_singleton.mp hp]; exact greeting_sendable) (by decide) hw hpc hstate
    (by simp) (by decide) (by decide) (by omega)⟩

end

end CoroutineRpc.Rpc
