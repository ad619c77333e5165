import CoroutineRpc.Net.Http.Connection
import CoroutineRpc.Net.Http.Responses
import CoroutineRpc.Net.Tcp.Serving

/-! What an HTTP server answers.

A servlet sees a request only when all of it is there, and its response is appended whole. So what a
server sends are the responses to the first requests of its client, in the order of the requests
(`http_server_answers`), and a client that reads to the `Content-Length` of each finds the status
line, the headers and the body of all of them (`responses_received`). -/
namespace CoroutineRpc.Net.Http
open Net.Tcp Net.Tcp.TcpBuffer Net.Tcp.Session Net.Tcp.Serving Library.Framing Library.Transition

/-- Requests come with their bytes. -/
def requests (dispatcher : HttpDispatcher) : Protocol (Bytes × HttpRequest) where
  next := receiveWith
  encode := Prod.fst
  Good := Whole
  frames := frames_receiveWith
  answer x := encoded (fillIn (dispatcher.respond x.2))

/-! ### `execute` -/

/-- The call of `dispatch`: what it adds to the write buffer. -/
theorem dispatch_response (dispatcher : HttpDispatcher) (genMsgNumber : Bytes) (request : HttpRequest) {b : TcpBuffer}
    (hb : WellFormed b) {r : TcpBuffer × Rpc.RunTime} (hr : dispatcher.dispatch genMsgNumber request b = some r) :
    WellFormed r.1 ∧ r.1.readable = b.readable ++ encoded (fillIn (dispatcher.respond request)) := by
  simp only [HttpDispatcher.dispatch, encode, fillIn_flag, Option.bind_eq_bind, Option.bind_eq_some_iff,
    Option.pure_def] at hr
  obtain ⟨sent, ⟨c, hwrite, hsent⟩, hr⟩ := hr
  obtain rfl := Option.some.inj hsent
  obtain rfl := Option.some.inj hr
  have hsame : encoded {fillIn (dispatcher.respond request) with encodeSucc := false} =
      encoded (fillIn (dispatcher.respond request)) := rfl
  rw [hsame] at hwrite
  by_cases hroom : b.Room (encoded (fillIn (dispatcher.respond request))).length
  · obtain ⟨d, hd, hwf, hreadable, -⟩ := writeToBuffer_room hb _ hroom
    obtain rfl := Option.some.inj (hwrite.symm.trans hd)
    exact ⟨hwf, hreadable⟩
  · rw [writeToBuffer_none hroom] at hwrite
    cases hwrite

theorem decodeNext_request {dispatcher : HttpDispatcher} {genMsgNumber : Bytes} {s t : Session} (h : Serving s)
    (hs : Connection.decodeNext (dispatcher.dispatch genMsgNumber) s = some t) :
    ExecutesOne (requests dispatcher) s t := by
  unfold ExecutesOne
  rw [show (requests dispatcher).next = receiveWith from rfl]
  unfold Connection.decodeNext at hs
  split at hs
  swap
  · rename_i hnone
    have hempty : s.connection.readBuffer.readable = [] := by
      have := h.readBuffer.readAble_nonneg
      exact h.readBuffer.readAble_eq_zero.mp (by omega)
    obtain rfl := Option.some.inj hs
    rw [hempty, frames_receiveWith.empty]
    exact ⟨_, h.readBuffer, hempty, rfl⟩
  simp only [Option.bind_eq_bind, Option.bind_eq_some_iff, Option.pure_def] at hs
  obtain ⟨out, hout, hs⟩ := hs
  by_cases hv : ∃ parsed total, judge {} s.connection.readBuffer.readable = (parsed, .accept total)
  · obtain ⟨parsed, total, hv⟩ := hv
    obtain ⟨b, hb, hwf, hreadable, -⟩ := @decode_taken _ h.readBuffer {} parsed total hv
    obtain rfl := Option.some.inj (hout.symm.trans hb)
    have hnext : receiveWith s.connection.readBuffer.readable =
        (some (s.connection.readBuffer.readable.take total, {parsed with decodeSucc := true}),
          s.connection.readBuffer.readable.drop total) := by
      rw [receiveWith, hv]
    have hserver : (s.setReadBuffer b).connection.connectionType = .serverConnection := h.server
    rw [hnext]
    simp only [not_true_eq_false, if_false] at hs
    split at hs
    · obtain ⟨r, hr, hs⟩ := Option.bind_eq_some_iff.mp hs
      exact ⟨b, r.1, hwf, hreadable, (Option.some.inj hs).symm,
        fun _ => dispatch_response dispatcher genMsgNumber _ h.writeBuffer hr⟩
    · rename_i hclient
      cases hserver.symm.trans hclient
  · have hv : ∀ total, (judge {} s.connection.readBuffer.readable).2 ≠ .accept total := fun total heq =>
      hv ⟨(judge {} s.connection.readBuffer.readable).1, total, Prod.ext rfl heq⟩
    obtain ⟨parsed, e, hb, hsucc⟩ := @decode_left _ h.readBuffer {} hv
    obtain rfl := Option.some.inj (hout.symm.trans hb)
    have hnext : receiveWith s.connection.readBuffer.readable = (none, s.connection.readBuffer.readable) := by
      unfold receiveWith
      split
      · rename_i heq
        exact absurd (congrArg Prod.snd heq) (hv _)
      · rfl
    rw [hnext]
    rw [hsucc] at hs
    exact ⟨_, h.readBuffer, rfl, (Option.some.inj hs).symm⟩

theorem executes_servlets (dispatcher : HttpDispatcher) (genMsgNumber : Bytes) :
    Executes (requests dispatcher) (Connection.step (dispatcher.dispatch genMsgNumber)) where
  shutdown {s t} hs := by
    have heq : Connection.step (dispatcher.dispatch genMsgNumber) s .shutdown =
        some {s with connection := s.connection.shutdownConnection} := by
      unfold Connection.step
      split <;> first | rfl | rename_i hother; cases hother
    exact (Option.some.inj (heq.symm.trans hs)).symm
  returned {s t i callee} hpc hs := by
    have hother : i ≠ .advance → Connection.step (dispatcher.dispatch genMsgNumber) s (.io i) = none := by
      intro hi
      simp only [Connection.step, hpc]
      split
      · exact absurd (Server.Input.io.inj ‹_›) hi
      · exact absurd (Server.Input.io.inj ‹_›) hi
      · exact absurd (Server.Input.io.inj ‹_›) hi
      · simp only [Connection.callStep, hpc]
        exact step_returned hpc
    by_cases hi : i = .advance
    · subst hi
      refine ⟨rfl, ?_⟩
      simp only [Connection.step, hpc] at hs
      cases callee with
      | input => exact (Option.some.inj hs).symm
      | execute => exact (Option.some.inj hs).symm
      | output =>
        dsimp only at hs
        split at hs
        · cases hs
        · exact (Option.some.inj hs).symm
    · rw [hother hi] at hs
      cases hs
  execute {s t i} hserving hpc hs := by
    rcases Connection.step_cases hs with hcall | ⟨callee, _, hreturned, -, -⟩
    · rcases Connection.callStep_cases hcall with ⟨hshut, -⟩ | ⟨-, hi, hdecode⟩ | ⟨j, -, hcallee, -⟩
      · cases hshut
      · exact ⟨Server.Input.io.inj hi, decodeNext_request hserving hdecode⟩
      · exact absurd (by rw [hpc]; rfl) hcallee
    · cases hpc.symm.trans hreturned
  call {s t i} hexecute hreturned hs := by
    rcases Connection.step_cases hs with hcall | ⟨callee, _, hpc, -, -⟩
    · rcases Connection.callStep_cases hcall with ⟨hshut, -⟩ | ⟨hpc, -, -⟩ | ⟨j, hj, -, hstep⟩
      · cases hshut
      · exact absurd hpc hexecute
      · obtain rfl := Server.Input.io.inj hj
        exact hstep
    · exact absurd hpc (hreturned callee)

/-! ### A run of the server -/

section
variable (dispatcher : HttpDispatcher) (genMsgNumber : Bytes) (fd : Int) {buffSize : Int}
  {xs : List (Bytes × HttpRequest)} {is : List Server.Input} {w : Wire}

/-- Any run of the server in which requests come in. -/
theorem site_serves (hsize : 0 ≤ buffSize) (hint : buffSize < 2 ^ 31) (hwhole : ∀ x ∈ xs, Whole x)
    (harrived : is.flatMap arrival <+: xs.flatMap Prod.fst)
    (hr : run (serve (Connection.step (dispatcher.dispatch genMsgNumber))) ⟨Server.initial fd buffSize, []⟩ is =
      some w) :
    ∃ answered waiting, xs = answered ++ waiting ∧ Serves (requests dispatcher) w (is.flatMap arrival) answered := by
  have hstart := serves_initial (P := requests dispatcher) fd hsize hint
  obtain ⟨answered, waiting, hsplit, hserves⟩ := serve_run (executes_servlets dispatcher genMsgNumber) hwhole hstart
    (List.nil_append xs).symm harrived hr
  exact ⟨answered, waiting, hsplit, hserves⟩

/-- **What a server has sent and what it is about to send are the responses to the first requests**, in
order and whole; what it has read and not answered is what came behind them. Where `output` has
returned on an open connection, all is sent, and no request that is complete was left. -/
theorem http_server_answers (hsize : 0 ≤ buffSize) (hint : buffSize < 2 ^ 31) (hwhole : ∀ x ∈ xs, Whole x)
    (harrived : is.flatMap arrival <+: xs.flatMap Prod.fst)
    (hr : run (serve (Connection.step (dispatcher.dispatch genMsgNumber))) ⟨Server.initial fd buffSize, []⟩ is =
      some w) :
    ∃ answered waiting, xs = answered ++ waiting ∧
      answered.flatMap Prod.fst ++ w.session.connection.readBuffer.readable = is.flatMap arrival ∧
      w.taken ++ w.session.connection.writeBuffer.readable =
        answered.flatMap (fun x => encoded (fillIn (dispatcher.respond x.2))) ∧
      (w.session.pc = .returned .output → w.session.connection.state = .connected →
        w.taken = answered.flatMap (fun x => encoded (fillIn (dispatcher.respond x.2))) ∧
          ∀ x, Whole x → ¬ x.1 <+: w.session.connection.readBuffer.readable) := by
  obtain ⟨answered, waiting, hsplit, hserves⟩ := site_serves dispatcher genMsgNumber fd hsize hint hwhole harrived hr
  exact ⟨answered, waiting, hsplit, hserves.read, hserves.write, hserves.answered⟩

/-- A request that comes in two parts, and its response. -/
def inTwoParts : List Server.Input :=
  [.io .advance, .io (.read (.data (postText.take 10))), .io .advance, .io .advance, .io .advance, .io .advance,
    .io .advance, .io .advance, .io (.read (.data (postText.drop 10))), .io .advance, .io .advance, .io .advance,
    .io .advance, .io .advance, .io (.write (.sent 189))]

theorem run_inTwoParts : ∃ w, run (serve (Connection.step (HttpDispatcher.dispatch {} []))) ⟨Server.initial 5 64, []⟩
    inTwoParts = some w ∧ w.session.pc = .returned .output ∧ w.session.connection.state = .connected := by
  have hrun : (run (serve (Connection.step (HttpDispatcher.dispatch {} []))) ⟨Server.initial 5 64, []⟩
      inTwoParts).map (fun w => (w.session.pc, w.session.connection.state)) =
        some (.returned .output, .connected) := by decide +kernel
  obtain ⟨w, hw, heq⟩ := Option.map_eq_some_iff.mp hrun
  simp only [Prod.mk.injEq] at heq
  exact ⟨w, hw, heq⟩

theorem whole_post : ∀ x ∈ [(postText, postRequest)], Whole x := by
  intro x hx
  obtain rfl := List.mem_singleton.mp hx
  show receive _ = _
  decide +kernel

theorem http_server_answers_instance :
    ∃ w, run (serve (Connection.step (HttpDispatcher.dispatch {} []))) ⟨Server.initial 5 64, []⟩ inTwoParts = some w ∧
      ∃ answered waiting, [(postText, postRequest)] = answered ++ waiting ∧
        answered.flatMap Prod.fst ++ w.session.connection.readBuffer.readable = inTwoParts.flatMap arrival ∧
        w.taken ++ w.session.connection.writeBuffer.readable =
          answered.flatMap (fun x => encoded (fillIn (HttpDispatcher.respond {} x.2))) ∧
        (w.session.pc = .returned .output → w.session.connection.state = .connected →
          w.taken = answered.flatMap (fun x => encoded (fillIn (HttpDispatcher.respond {} x.2))) ∧
            ∀ x, Whole x → ¬ x.1 <+: w.session.connection.readBuffer.readable) := by
  obtain ⟨w, hw, -⟩ := run_inTwoParts
  exact ⟨w, hw, http_server_answers {} [] 5 (by decide) (by decide) whole_post (by decide) hw⟩

/-- **Whoever sends requests gets their responses.** All requests came in, however they were cut, and
the server has come to the end of `output`. Then a client that reads what the server wrote finds the
responses to all of them, in order, and nothing else, if the servlets make framed ones. -/
theorem responses_received (hsize : 0 ≤ buffSize) (hint : buffSize < 2 ^ 31) (hwhole : ∀ x ∈ xs, Whole x)
    (hframed : ∀ x ∈ xs, Framed (dispatcher.respond x.2))
    (hbody : ∀ x ∈ xs, (dispatcher.respond x.2).responseBody.length < 2 ^ 63)
    (harrived : is.flatMap arrival = xs.flatMap Prod.fst)
    (hr : run (serve (Connection.step (dispatcher.dispatch genMsgNumber))) ⟨Server.initial fd buffSize, []⟩ is =
      some w)
    (hpc : w.session.pc = .returned .output) (hstate : w.session.connection.state = .connected) :
    readAll (w.taken.length + 1) w.taken = some (xs.map fun x => contentsOf (fillIn (dispatcher.respond x.2))) := by
  obtain ⟨answered, waiting, hsplit, hserves⟩ := site_serves dispatcher genMsgNumber fd hsize hint hwhole
    (harrived ▸ List.prefix_refl _) hr
  obtain ⟨htaken, hnone⟩ := hserves.answered hpc hstate
  obtain rfl : waiting = [] := by
    cases waiting with
    | nil => rfl
    | cons x rest =>
      have hread := hserves.read
      rw [harrived, hsplit, List.flatMap_append] at hread
      refine absurd ?_ (hnone x (hwhole x (by rw [hsplit]; simp)))
      rw [List.append_cancel_left hread, List.flatMap_cons]
      exact List.prefix_append _ _
  rw [List.append_nil] at hsplit
  subst hsplit
  have hresponses : w.taken = (xs.map fun x => dispatcher.respond x.2).flatMap fun r => encoded (fillIn r) := by
    rw [htaken, List.flatMap_map]
    rfl
  rw [hresponses, readAll_encoded (List.forall_mem_map.mpr hframed) (List.forall_mem_map.mpr hbody)
    (Nat.lt_succ_self _), List.map_map]
  rfl

/-- The page for a path that was not found is framed. -/
theorem framed_notFound : Framed (HttpDispatcher.respond {} postRequest) where
  version := by decide
  info := by decide
  header := by
    refine ⟨[(ascii "Connection", ascii "keep-alive"), (ascii "Content-Type", kDefaultHtmlContentType),
      (ascii "Content-Length", decimal (HttpDispatcher.respond {} postRequest).responseBody.length)], rfl, ?_⟩
    intro item hitem
    simp only [List.mem_cons, List.not_mem_nil, or_false] at hitem
    rcases hitem with rfl | rfl | rfl
    · exact settable_keepAlive
    · exact settable_of_name (by decide) (by decide)
    · exact settable_contentLength _

theorem responses_received_instance :
    ∃ w, run (serve (Connection.step (HttpDispatcher.dispatch {} []))) ⟨Server.initial 5 64, []⟩ inTwoParts = some w ∧
      readAll (w.taken.length + 1) w.taken =
        some ([(postText, postRequest)].map fun x => contentsOf (fillIn (HttpDispatcher.respond {} x.2))) := by
  obtain ⟨w, hw, hpc, hstate⟩ := run_inTwoParts
  refine ⟨w, hw, responses_received {} [] 5 (by decide) (by decide) whole_post ?_ ?_ (by decide) hw hpc hstate⟩
  · intro x hx
    obtain rfl := List.mem_singleton.mp hx
    exact framed_notFound
  · intro x hx
    obtain rfl := List.mem_singleton.mp hx
    decide +kernel

end

end CoroutineRpc.Net.Http
