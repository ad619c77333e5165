import CoroutineRpc.Net.Tcp.Delivered
import CoroutineRpc.Net.Tcp.Serving

/-! What a client sends, and what it hears.

Whatever a client does and however often it is called, the bytes that its writes handed over and
those that are left are the frames it encoded, and the bytes that its reads brought are the frames
it decoded and what is unread (`Talks`). A call returns one of the packets that were decoded. The
reads are those of any peer that sends frames. -/
namespace CoroutineRpc.Net.Tcp
open Rpc TcpBuffer Library.Framing Library.Transition Serving

namespace Session

/-- The loop of `execute` takes a frame more and keeps its packet, or takes none. -/
theorem heard_decodeNext {s t : Session} (hs : Buffers s) {todo : List RpcFields} (hgood : ∀ p ∈ todo, Sendable p)
    {later : Bytes} (hstream : s.connection.readBuffer.readable ++ later = todo.flatMap frame)
    (ht : s.decodeNext noServer = some t) :
    t.connection.writeBuffer = s.connection.writeBuffer ∧ ∃ more rest, todo = more ++ rest ∧
      more.flatMap frame ++ t.connection.readBuffer.readable = s.connection.readBuffer.readable ∧
      ∀ k d, t.connection.replyDatas k = some d → s.connection.replyDatas k = some d ∨ d.toRpcFields ∈ more := by
  rcases decodeNext_cases ht with ⟨rfl, -⟩ | ⟨out, -, hout, hrest⟩
  · exact ⟨rfl, [], todo, rfl, rfl, fun k d hd => .inl hd⟩
  obtain ⟨out', hout', -, -, hreadable, hdata⟩ := decode_receive hs.readBuffer {}
  obtain rfl := Option.some.inj (hout.symm.trans hout')
  rcases frames_receive.attempt hgood hstream with ⟨hwait, -⟩ | ⟨x, rest, after, rfl, hbytes, htake, -⟩
  · rw [hwait] at hreadable hdata
    have hsucc : out.data.decodeSucc = false := congrArg (fun d => d.decodeSucc) hdata
    rcases hrest with ⟨-, rfl⟩ | ⟨hyes, -⟩
    · exact ⟨rfl, [], todo, rfl, hreadable, fun k d hd => .inl hd⟩
    · rw [hsucc] at hyes
      cases hyes
  · rw [htake] at hreadable hdata
    obtain ⟨hsucc, hfields⟩ := hdata
    rcases hrest with ⟨hno, -⟩ | ⟨-, ⟨writeBuffer, hserver, -⟩ | ⟨-, rfl⟩⟩
    · rw [hsucc] at hno
      cases hno
    · rw [hs.client] at hserver
      cases hserver
    · have hsame : ((s.setReadBuffer out.buf).connection.insertReply out.data).readBuffer = out.buf ∧
          ((s.setReadBuffer out.buf).connection.insertReply out.data).writeBuffer = s.connection.writeBuffer := by
        unfold TcpConnection.insertReply
        split <;> exact ⟨rfl, rfl⟩
      refine ⟨hsame.2, [x], rest, rfl, ?_, fun k d hd => ?_⟩
      · show [x].flatMap frame ++ ((s.setReadBuffer out.buf).connection.insertReply out.data).readBuffer.readable = _
        rw [hsame.1, hreadable, hbytes]
        simp
      · have hinsert := (insertReply_replies (s.setReadBuffer out.buf).connection out.data k).symm.trans hd
        rcases Option.or_eq_some_iff.mp hinsert with hold | ⟨-, hnew⟩
        · exact .inl hold
        · split at hnew
          · obtain rfl := Option.some.inj hnew
            exact .inr (by rw [hfields]; exact List.mem_singleton.mpr rfl)
          · cases hnew

end Session

namespace Client

/-- What a step hands to the kernel. -/
def handed (s : State) : Input → Option Bytes
  | .write result => Wire.handed s.session (.write result)
  | _ => some []

/-- The packets that an input encodes. -/
def Input.asks : Input → List RpcFields
  | .encode _ data => [data.toRpcFields]
  | _ => []

/-- A client that encoded `asked` and decoded `heard`. -/
structure Talks (s : State) (sent got : Bytes) (asked heard : List RpcFields) : Prop where
  write : sent ++ s.session.connection.writeBuffer.readable = asked.flatMap frame
  read : heard.flatMap frame ++ s.session.connection.readBuffer.readable = got
  replies : ∀ k d, s.session.connection.replyDatas k = some d → d.toRpcFields ∈ heard
  result : ∀ d, s.result = some (.ok d) → d.toRpcFields ∈ heard

variable {s t : State} {sent got : Bytes} {asked heard todo : List RpcFields}

/-- A step at which nothing is sent, heard or encoded. -/
theorem Talks.same (h : Talks s sent got asked heard)
    (hread : t.session.connection.readBuffer = s.session.connection.readBuffer)
    (hwrite : t.session.connection.writeBuffer = s.session.connection.writeBuffer)
    (hreplies : ∀ k d, t.session.connection.replyDatas k = some d → s.session.connection.replyDatas k = some d)
    (hresult : ∀ d, t.result = some (.ok d) → d.toRpcFields ∈ heard) :
    ∃ more rest, todo = more ++ rest ∧ Talks t (sent ++ []) (got ++ []) (asked ++ []) (heard ++ more) := by
  refine ⟨[], todo, rfl, ?_⟩
  rw [List.append_nil, List.append_nil, List.append_nil, List.append_nil]
  exact ⟨hwrite ▸ h.write, hread ▸ h.read, fun k d hd => h.replies k d (hreplies k d hd), hresult⟩

/-- A step of one of the connection's functions. -/
theorem Talks.session (h : Talks s sent got asked heard) (hs : Session.Buffers s.session)
    (hgood : ∀ p ∈ todo, Sendable p) (i : Session.Input)
    (hgot : got ++ arrival (.io i) <+: (heard ++ todo).flatMap frame) {session : Session}
    (ht : s.session.step noServer i = some session) {bytes : Bytes} (hbytes : Wire.handed s.session i = some bytes) :
    ∃ more rest, todo = more ++ rest ∧
      Talks {s with session} (sent ++ bytes) (got ++ arrival (.io i)) (asked ++ []) (heard ++ more) := by
  rw [List.append_nil]
  by_cases hexecute : s.session.pc.callee = .execute
  · obtain ⟨-, rfl, hdecode⟩ := Session.step_execute hexecute ht
    obtain rfl := Option.some.inj hbytes
    have hnone : arrival (.io .advance) = [] := rfl
    rw [hnone, List.append_nil] at hgot
    rw [hnone, List.append_nil, List.append_nil]
    obtain ⟨later, hlater⟩ := hgot
    rw [← h.read, List.flatMap_append, List.append_assoc, List.append_cancel_left_eq] at hlater
    obtain ⟨hwrite, more, rest, hsplit, hread, hreplies⟩ := Session.heard_decodeNext hs hgood hlater hdecode
    refine ⟨more, rest, hsplit, ?_, ?_, fun k d hd => ?_, fun d hd => List.mem_append_left more (h.result d hd)⟩
    · show sent ++ session.connection.writeBuffer.readable = _
      rw [hwrite, h.write]
    · show _ ++ session.connection.readBuffer.readable = _
      rw [List.flatMap_append, List.append_assoc, hread, h.read]
    · rcases hreplies k d hd with hold | hnew
      · exact List.mem_append_left more (h.replies k d hold)
      · exact List.mem_append_right heard hnew
  · have hbuffered : Buffered s.session := ⟨hs.readBuffer, hs.writeBuffer, hs.count, hs.total⟩
    have hmoves := hbuffered.call (fun hpc => hexecute (by rw [hpc]; rfl))
      (fun callee hpc => by rw [Session.step_returned hpc] at ht; cases ht) ht hbytes
    refine ⟨[], todo, rfl, ?_⟩
    rw [List.append_nil]
    refine ⟨?_, ?_, fun k d hd => h.replies k d (hmoves.replyDatas ▸ hd), h.result⟩
    · show _ ++ session.connection.writeBuffer.readable = _
      rw [List.append_assoc, hmoves.write, h.write]
    · show _ ++ session.connection.readBuffer.readable = _
      rw [hmoves.read, ← List.append_assoc, h.read]

theorem Talks.resume (h : Talks s sent got asked heard) (hs : Session.Buffers s.session)
    (hgood : ∀ p ∈ todo, Sendable p) (hgot : got ++ [] <+: (heard ++ todo).flatMap frame)
    (hasleep : isAsleep s = true) :
    ∃ more rest, todo = more ++ rest ∧
      Talks (Client.resume s) (sent ++ []) (got ++ []) (asked ++ []) (heard ++ more) := by
  rcases resume_cases hasleep with ⟨-, heq⟩ | ⟨-, -, heq⟩ | ⟨-, -, session, hsession, heq⟩
  · rw [heq]
    exact h.same rfl rfl (fun _ _ => id) h.result
  · rw [heq]
    exact h.same rfl rfl (fun _ _ => id) h.result
  · rw [heq]
    exact h.session hs hgood .resume hgot hsession rfl

theorem Talks.find (h : Talks s sent got asked heard) :
    ∃ more rest, todo = more ++ rest ∧
      Talks (Client.find s) (sent ++ []) (got ++ []) (asked ++ []) (heard ++ more) := by
  unfold Client.find
  cases hres : s.session.connection.getResPackageData s.msgNo with
  | none => exact h.same rfl rfl (fun _ _ => id) h.result
  | some r =>
    obtain ⟨d, hd, rfl⟩ := Option.map_eq_some_iff.mp hres
    refine h.same rfl rfl (fun k e he => ?_) fun e he => ?_
    · by_cases hk : k = s.msgNo
      · rw [hk] at he
        exact absurd ((Function.update_self ..).symm.trans he) nofun
      · exact (Function.update_of_ne hk ..).symm.trans he
    · obtain rfl : d = e := Except.ok.inj (Option.some.inj he)
      exact h.replies s.msgNo d hd

/-- A packet that can be sent is appended to the write buffer. -/
theorem encode_frame {b : TcpBuffer} (hb : WellFormed b) {data : RpcStruct} (h : Sendable data.toRpcFields)
    {genMsgNumber : Bytes} {r : TcpBuffer × RpcStruct} (hr : encode genMsgNumber b data = some r) :
    r.1.readable = b.readable ++ frame data.toRpcFields := by
  rw [encode, show data = ⟨data.toAbstractData, data.toRpcFields⟩ from rfl, encodePbData_spec h] at hr
  obtain ⟨c, hwrite, rfl⟩ := Option.map_eq_some_iff.mp hr
  by_cases hroom : b.Room (frame data.toRpcFields).length
  · obtain ⟨d, hd, -, hreadable, -⟩ := writeToBuffer_room hb _ hroom
    obtain rfl := Option.some.inj (hwrite.symm.trans hd)
    exact hreadable
  · rw [writeToBuffer_none hroom] at hwrite
    cases hwrite

/-- **One step of a client.** -/
theorem talks_step {settings : Settings} {i : Input} (h : Talks s sent got asked heard)
    (hs : Session.Buffers s.session) (hgood : ∀ p ∈ todo, Sendable p) (hasks : ∀ p ∈ i.asks, Sendable p)
    (hgot : got ++ i.bytes <+: (heard ++ todo).flatMap frame) (ht : step settings s i = some t) {bytes : Bytes}
    (hbytes : handed s i = some bytes) :
    ∃ more rest, todo = more ++ rest ∧
      Talks t (sent ++ bytes) (got ++ i.bytes) (asked ++ i.asks) (heard ++ more) := by
  have hnothing : ∀ {j : Input}, (∀ result, j ≠ .write result) → handed s j = some [] := by
    intro j hj
    unfold handed
    split
    · exact absurd rfl (hj _)
    · rfl
  have herror : ∀ {u : State} {e : ErrorCode}, u.result = some (.error e) →
      ∀ d, u.result = some (.ok d) → d.toRpcFields ∈ heard := by
    intro u e hu d hd
    rw [hu] at hd
    cases hd
  by_cases hwrite : ∃ result, i = .write result
  · obtain ⟨result, rfl⟩ := hwrite
    cases step_moves ht with
    | write hpc hsession => exact h.session hs hgood (.write result) hgot hsession hbytes
  obtain rfl := Option.some.inj (hbytes.symm.trans (hnothing fun result heq => hwrite ⟨result, heq⟩))
  cases step_moves ht with
  | @fireRpc rest htasks hasleep =>
    have hflag : Talks (setOverTimeFlag {s with timer := {s.timer with tasks := rest}, isTimeout := true} true)
        sent got asked heard := ⟨h.write, h.read, h.replies, h.result⟩
    exact hflag.resume (hs.same rfl rfl rfl (.inl rfl)) hgood hgot hasleep
  | @fireConnect rest htasks hpc =>
    have hflag : Talks {s with timer := {s.timer with tasks := rest}, connectTimeout := true} sent got asked heard :=
      ⟨h.write, h.read, h.replies, h.result⟩
    exact hflag.resume hs hgood hgot (asleep_of_connectWait hpc)
  | call => exact h.same rfl rfl (fun _ _ => id) nofun
  | @encode genMsgNumber data writeBuffer hpc =>
    simp only [Client.step, hpc, outside, reduceIte] at ht
    split at ht
    · cases ht
    obtain ⟨r, hencode, heq⟩ := Option.map_eq_some_iff.mp ht
    have hbuffer : r.1 = writeBuffer := congrArg (fun t : State => t.session.connection.writeBuffer) heq
    have hframe := encode_frame hs.writeBuffer (hasks _ (List.mem_singleton.mpr rfl)) hencode
    rw [hbuffer] at hframe
    refine ⟨[], todo, rfl, ?_, ?_, fun k d hd => ?_, fun d hd => ?_⟩
    · show _ ++ writeBuffer.readable = _
      rw [hframe, List.append_nil, ← List.append_assoc, h.write, List.flatMap_append]
      simp [Input.asks]
    · rw [List.append_nil]
      exact h.read.trans (List.append_nil _).symm
    · rw [List.append_nil]
      exact h.replies k d hd
    · rw [List.append_nil]
      exact h.result d hd
  | destroy =>
    dsimp only
    split <;> exact h.same rfl rfl (fun _ _ => id) h.result
  | connectFailed =>
    unfold connectFailed
    split
    · exact h.same rfl rfl (fun _ _ => id) h.result
    split
    · exact h.same rfl rfl (fun _ _ => id) (herror rfl)
    split
    · exact h.same rfl rfl (fun _ _ => id) (herror rfl)
    · exact h.same rfl rfl (fun _ _ => id) h.result
  | connected =>
    unfold connected
    split
    · exact h.same rfl rfl (fun _ _ => id) (herror rfl)
    · exact h.same rfl rfl (fun _ _ => id) h.result
  | checkOutput =>
    unfold checkOutput
    split <;> exact h.same rfl rfl (fun _ _ => id) h.result
  | find => exact h.find
  | checkInput =>
    unfold checkInput
    split
    · exact h.same rfl rfl (fun _ _ => id) h.result
    split <;> exact h.same rfl rfl (fun _ _ => id) h.result
  | advance hpc hsession => exact h.session hs hgood .advance hgot hsession rfl
  | read hpc hsession =>
    rename_i result session
    cases result with
    | data bytes => exact h.session hs hgood (.read (.data bytes)) hgot hsession rfl
    | eof => exact h.session hs hgood (.read .eof) hgot hsession rfl
    | error => exact h.session hs hgood (.read .error) hgot hsession rfl
  | write => exact absurd ⟨_, rfl⟩ hwrite
  | errSocket =>
    unfold failed
    split <;> exact h.same rfl rfl (fun _ _ => id) (herror rfl)
  | resume hasleep => exact h.resume hs hgood hgot hasleep
  | _ => exact h.same rfl rfl (fun _ _ => id) h.result

theorem talks_initial (settings : Settings) (fd : Int) : Talks (initial settings fd) [] [] [] [] where
  write := make_readable 128
  read := make_readable 128
  replies _ _ := nofun
  result _ := nofun

end Client

end CoroutineRpc.Net.Tcp
