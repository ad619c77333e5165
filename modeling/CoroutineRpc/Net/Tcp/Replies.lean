import CoroutineRpc.Net.Tcp.Undecoded

/-! Replies that come in.

A peer sends frames, and a client's connection keeps the packets it decodes under their numbers. At
any time the bytes that were received are the frames that were decoded and what lies in the buffer
(`Replies.Split`): `input` puts bytes behind them and `execute` takes frames from the front, until
none is complete. -/
namespace CoroutineRpc.Net.Tcp
open Rpc TcpBuffer Library.Framing

/-! ### What the peer sends -/

/-- Valid packets, `reply` being the first with its number. -/
structure Replies where
  before : List RpcFields
  reply : RpcFields
  rest : List RpcFields
  first : ∀ q ∈ before, q.msgNo ≠ reply.msgNo
  sendable : ∀ q ∈ before ++ reply :: rest, Sendable q

namespace Replies

def packets (w : Replies) : List RpcFields := w.before ++ w.reply :: w.rest

/-- The stream. -/
def bytes (w : Replies) : Bytes := w.packets.flatMap frame

/-- The stream up to the reply's last byte. -/
def upto (w : Replies) : Bytes := (w.before ++ [w.reply]).flatMap frame

/-- The first packets of the stream end before the reply, or the reply is found among them. -/
theorem cut (w : Replies) {done todo : List RpcFields} (h : w.packets = done ++ todo) :
    done.find? (·.msgNo = w.reply.msgNo) = none ∧
        (∃ x ∈ todo.head?, done ++ [x] <+: w.before ++ [w.reply]) ∨
      done.find? (·.msgNo = w.reply.msgNo) = some w.reply ∧ w.before ++ [w.reply] <+: done := by
  have hnone : ∀ l, l <+: w.before → l.find? (·.msgNo = w.reply.msgNo) = none := by
    intro l hl
    rw [List.find?_eq_none]
    intro q hq
    simpa using w.first q (hl.subset hq)
  rcases List.append_eq_append_iff.mp h with ⟨as, hdone, hrest⟩ | ⟨as, hbefore, htodo⟩
  · cases as with
    | nil =>
      obtain rfl : todo = w.reply :: w.rest := hrest.symm
      rw [List.append_nil] at hdone
      exact .inl ⟨hnone done (hdone ▸ List.prefix_refl _), w.reply, rfl, hdone ▸ List.prefix_refl _⟩
    | cons x as =>
      obtain ⟨rfl, -⟩ := List.cons.inj hrest
      right
      rw [hdone, List.find?_append, hnone w.before (List.prefix_refl _), Option.none_or]
      refine ⟨List.find?_cons_of_pos (by simp), as, ?_⟩
      rw [List.append_assoc]
      rfl
  · left
    refine ⟨hnone done ⟨as, hbefore.symm⟩, ?_⟩
    cases as with
    | nil =>
      rw [List.append_nil] at hbefore
      exact ⟨w.reply, by rw [htodo]; rfl, hbefore ▸ List.prefix_refl _⟩
    | cons x as =>
      refine ⟨x, by rw [htodo]; rfl, as ++ [w.reply], ?_⟩
      rw [hbefore]
      simp

/-- The bytes that were received are the frames that were taken and what lies in the buffer; the
reply to be looked up is the first of them with the number. -/
structure Split (w : Replies) (got : Bytes) (c : TcpConnection) (done todo : List RpcFields) : Prop where
  packets : w.packets = done ++ todo
  bytes : done.flatMap frame ++ c.readBuffer.readable = got
  replies : (c.replyDatas w.reply.msgNo).map (·.toRpcFields) = done.find? (·.msgNo = w.reply.msgNo)

theorem Split.sendable {w : Replies} {got : Bytes} {c : TcpConnection} {done todo : List RpcFields}
    (h : w.Split got c done todo) : ∀ q ∈ todo, Sendable q := by
  intro q hq
  apply w.sendable
  show q ∈ w.packets
  rw [h.packets]
  exact List.mem_append_right done hq

/-- What lies in the buffer is the beginning of the frames that are to come. -/
theorem Split.todo {w : Replies} {got : Bytes} {c : TcpConnection} {done todo : List RpcFields}
    (h : w.Split got c done todo) (hgot : got <+: w.bytes) :
    ∃ later, c.readBuffer.readable ++ later = todo.flatMap frame := by
  obtain ⟨later, hlater⟩ := hgot
  refine ⟨later, ?_⟩
  rw [← h.bytes, Replies.bytes, h.packets, List.flatMap_append, List.append_assoc] at hlater
  exact List.append_cancel_left hlater

/-- A reply that is found is the first with the number, and it was received. -/
theorem Split.found {w : Replies} {got : Bytes} {c : TcpConnection} {done todo : List RpcFields}
    (h : w.Split got c done todo) {d : RpcStruct} (hd : c.replyDatas w.reply.msgNo = some d) :
    d.toRpcFields = w.reply ∧ w.upto <+: got := by
  have hreplies := h.replies
  rw [hd, Option.map_some] at hreplies
  rcases w.cut h.packets with ⟨hnone, -⟩ | ⟨hsome, hprefix⟩
  · rw [hnone] at hreplies
    cases hreplies
  · rw [hsome] at hreplies
    refine ⟨Option.some.inj hreplies, ?_⟩
    obtain ⟨more, rfl⟩ := hprefix
    refine ⟨more.flatMap frame ++ c.readBuffer.readable, ?_⟩
    have hdone : (w.before ++ [w.reply] ++ more).flatMap frame = w.upto ++ more.flatMap frame :=
      List.flatMap_append
    rw [← h.bytes, hdone, List.append_assoc]

/-- A reply that was received is found, once no complete frame is left in the buffer. -/
theorem Split.finds {w : Replies} {got : Bytes} {c : TcpConnection} {done todo : List RpcFields}
    (h : w.Split got c done todo) (hdrained : ∀ x ∈ todo.head?, ¬ frame x <+: c.readBuffer.readable)
    (hgot : w.upto <+: got) : c.replyDatas w.reply.msgNo ≠ none := by
  intro hnone
  have hreplies := h.replies
  rw [hnone, Option.map_none] at hreplies
  rcases w.cut h.packets with ⟨-, x, hx, more, hprefix⟩ | ⟨hsome, -⟩
  · apply hdrained x hx
    have hframe : done.flatMap frame ++ frame x <+: got := by
      refine List.IsPrefix.trans ⟨more.flatMap frame, ?_⟩ hgot
      rw [upto, ← hprefix]
      simp
    rw [← h.bytes] at hframe
    exact (List.prefix_append_right_inj _).mp hframe
  · rw [hsome] at hreplies
    cases hreplies

end Replies

/-! ### Decoding it -/

/-- The first reply with a number stays. -/
theorem insertReply_replies (c : TcpConnection) (tmp : RpcStruct) (k : Bytes) :
    (c.insertReply tmp).replyDatas k = (c.replyDatas k).or (if tmp.msgNo = k then some tmp else none) := by
  unfold TcpConnection.insertReply
  by_cases hk : tmp.msgNo = k
  · subst hk
    rw [if_pos rfl]
    cases hreply : c.replyDatas tmp.msgNo with
    | some d => exact hreply
    | none => exact Function.update_self ..
  · rw [if_neg hk, Option.or_none]
    split
    · rfl
    · exact Function.update_of_ne (Ne.symm hk) ..

theorem Replies.Split.take {w : Replies} {got : Bytes} {c : TcpConnection} {done todo : List RpcFields}
    {x : RpcFields} (h : w.Split got c done (x :: todo)) {readBuffer : TcpBuffer} {d : RpcStruct}
    (hbuffer : c.readBuffer.readable = frame x ++ readBuffer.readable) (hd : d.toRpcFields = x) :
    w.Split got (TcpConnection.insertReply {c with readBuffer} d) (done ++ [x]) todo where
  packets := by rw [h.packets, List.append_assoc]; rfl
  bytes := by
    have hsame : (TcpConnection.insertReply {c with readBuffer} d).readBuffer = readBuffer := by
      unfold TcpConnection.insertReply
      split <;> rfl
    rw [hsame, ← h.bytes, hbuffer]
    simp
  replies := by
    rw [insertReply_replies, List.find?_append, ← h.replies]
    show Option.map _ ((c.replyDatas w.reply.msgNo).or _) = _
    cases c.replyDatas w.reply.msgNo with
    | some y => rfl
    | none =>
      rw [Option.none_or, Option.map_none, Option.none_or, ← hd]
      by_cases hk : d.msgNo = w.reply.msgNo
      · rw [if_pos hk, List.find?_cons_of_pos (by simpa using hk)]
        rfl
      · rw [if_neg hk, List.find?_cons_of_neg (by simpa using hk)]
        rfl

namespace Session

/-- The loop of `execute` takes a frame more, or ends with no complete frame in the buffer. -/
theorem split_decodeNext {w : Replies} {got : Bytes} {s t : Session} {done todo : List RpcFields}
    (hbuffer : WellFormed s.connection.readBuffer) (hclient : s.connection.connectionType = .clientConnection)
    (h : w.Split got s.connection done todo) (hgot : got <+: w.bytes)
    (hs : s.decodeNext noServer = some t) :
    WellFormed t.connection.readBuffer ∧ t.connection.connectionType = .clientConnection ∧
      (t.pc = .returned .execute ∧ w.Split got t.connection done todo ∧
          (∀ x ∈ todo.head?, ¬ frame x <+: t.connection.readBuffer.readable) ∨
        t.pc = s.pc ∧ (∃ x more, todo = x :: more ∧ w.Split got t.connection (done ++ [x]) more) ∧
          t.connection.readBuffer.readable.length < s.connection.readBuffer.readable.length) := by
  obtain ⟨later, hlater⟩ := h.todo hgot
  have hattempt := frames_receive.attempt h.sendable hlater
  rcases decodeNext_cases hs with ⟨rfl, hempty⟩ | ⟨out, -, hout, hrest⟩
  · have hnil : s.connection.readBuffer.readable = [] := by
      have := hbuffer.readable_length
      exact List.eq_nil_of_length_eq_zero (by omega)
    refine ⟨hbuffer, hclient, .inl ⟨rfl, h, ?_⟩⟩
    intro x hx hprefix
    rw [show (s.returns .execute).connection = s.connection from rfl, hnil] at hprefix
    exact not_complete_nil ⟨x, h.sendable x (List.mem_of_mem_head? hx), hprefix⟩
  obtain ⟨out', hout', hwf, -, hreadable, hdata⟩ := decode_receive hbuffer {}
  obtain rfl := Option.some.inj (hout.symm.trans hout')
  rcases hattempt with ⟨hwait, hdrained⟩ | ⟨x, more, after, rfl, hl, htake, -⟩
  · rw [hwait] at hreadable hdata
    have hsucc : out.data.decodeSucc = false := congrArg (fun d => d.decodeSucc) hdata
    rcases hrest with ⟨-, rfl⟩ | ⟨hyes, -⟩
    · refine ⟨hwf, hclient, .inl ⟨rfl, ⟨h.packets, ?_, h.replies⟩, ?_⟩⟩
      · rw [← h.bytes]
        exact congrArg (_ ++ ·) hreadable
      · rw [show ((s.setReadBuffer out.buf).returns .execute).connection.readBuffer = out.buf from rfl,
          hreadable]
        exact hdrained
    · rw [hsucc] at hyes
      cases hyes
  · rw [htake] at hreadable hdata
    obtain ⟨hsucc, hfields⟩ := hdata
    rcases hrest with ⟨hno, -⟩ | ⟨-, ⟨writeBuffer, hserver, -⟩ | ⟨-, rfl⟩⟩
    · rw [hsucc] at hno
      cases hno
    · rw [hclient] at hserver
      cases hserver
    · have hinsert := h.take (hl.trans (congrArg (_ ++ ·) hreadable.symm)) hfields
      have hsame : ((s.setReadBuffer out.buf).connection.insertReply out.data).readBuffer = out.buf := by
        unfold TcpConnection.insertReply
        split <;> rfl
      refine ⟨?_, ?_, .inr ⟨rfl, ⟨x, more, rfl, hinsert⟩, ?_⟩⟩
      · show WellFormed ((s.setReadBuffer out.buf).connection.insertReply out.data).readBuffer
        rw [hsame]
        exact hwf
      · unfold TcpConnection.insertReply
        split <;> exact hclient
      · show ((s.setReadBuffer out.buf).connection.insertReply out.data).readBuffer.readable.length < _
        rw [hsame, hreadable, hl, List.length_append]
        have := List.length_pos_iff.mpr (frames_receive.nonempty x (h.sendable x (List.mem_cons_self ..)))
        show after.length < _
        omega

/-- `execute` goes on whatever lies in the buffer. -/
theorem decodeNext_some {s : Session} (hbuffer : WellFormed s.connection.readBuffer)
    (hclient : s.connection.connectionType = .clientConnection) : ∃ t, s.decodeNext noServer = some t := by
  unfold decodeNext
  split
  · obtain ⟨out, hout, -⟩ := decode_receive hbuffer {}
    rw [hout, Option.bind_eq_bind, Option.bind_some]
    dsimp only
    rw [show (s.setReadBuffer out.buf).connection.connectionType = .clientConnection from hclient]
    split <;> exact ⟨_, rfl⟩
  · exact ⟨_, rfl⟩

/-! ### Reading it -/

/-- What `input` leaves of a connection, and the space its reads are given. -/
structure Reads (s t : Session) : Prop where
  replies : t.connection.replyDatas = s.connection.replyDatas
  client : t.connection.connectionType = s.connection.connectionType
  isOverTime : t.connection.isOverTime = s.connection.isOverTime
  buffer : WellFormed t.connection.readBuffer
  count : ∀ n ∈ t.pc.readCount, n = t.connection.readBuffer.writeAble

theorem closePath_replies (s : Session) : s.closePath.connection.replyDatas = s.connection.replyDatas := by
  have hclear : s.clearClient.connection.replyDatas = s.connection.replyDatas := by
    unfold clearClient
    split <;> rfl
  unfold closePath
  dsimp only
  split <;> exact hclear

theorem nextRead_reads {s t : Session} (hbuffer : WellFormed s.connection.readBuffer)
    (h : s.nextRead = some t) : Reads s t ∧ t.connection.readBuffer.readable = s.connection.readBuffer.readable ∧
      t.connection.state = s.connection.state ∧ ∃ n, t.pc = .read n := by
  obtain ⟨readBuffer, hroom, rfl⟩ := nextRead_some h
  obtain ⟨hwf, hreadable⟩ := makeRoom_spec hbuffer hroom
  exact ⟨⟨rfl, rfl, rfl, hwf, fun n hn => (Option.some.inj hn).symm⟩, hreadable, rfl, _, rfl⟩

/-- A read that brings bytes: they lie in the buffer, and `input` returns if they did not fill the
space or the time is over. -/
theorem reads_data {s t : Session} {bytes : Bytes} (hbuffer : WellFormed s.connection.readBuffer)
    (hcount : ∀ n ∈ s.pc.readCount, n = s.connection.readBuffer.writeAble)
    (hs : s.step noServer (.read (.data bytes)) = some t) :
    Reads s t ∧ t.connection.readBuffer.readable = s.connection.readBuffer.readable ++ bytes ∧
      t.connection.state = s.connection.state ∧
      (t.pc = .returned .input ∧ (s.connection.isOverTime = true ∨
          (bytes.length : Int) < s.connection.readBuffer.writeAble) ∨
        (∃ n, t.pc = .read n) ∧ (bytes.length : Int) = s.connection.readBuffer.writeAble) := by
  obtain ⟨n, hpc, hread⟩ := step_data hs
  have hn : n = s.connection.readBuffer.writeAble := by
    apply hcount
    rcases hpc with hpc | hpc <;> rw [hpc] <;> rfl
  obtain ⟨-, hle, readBuffer, hreceived, hrest⟩ := readReturns_data hread
  have hroom : (bytes.length : Int) ≤ s.connection.readBuffer.writeAble := by omega
  obtain ⟨b, hb, hwf, hreadable⟩ := received_spec hbuffer hroom
  obtain rfl := Option.some.inj (hreceived.symm.trans hb)
  rcases hrest with ⟨rfl, hshort⟩ | ⟨hnext, -, hfull⟩
  · rw [hn] at hshort
    exact ⟨⟨rfl, rfl, rfl, hwf, nofun⟩, hreadable, rfl, .inl ⟨rfl, hshort⟩⟩
  · obtain ⟨hreads, hsame, hstate, hread⟩ := nextRead_reads (s := s.setReadBuffer readBuffer) hwf hnext
    exact ⟨⟨hreads.replies, hreads.client, hreads.isOverTime, hreads.buffer, hreads.count⟩,
      hsame.trans hreadable, hstate, .inr ⟨hread, hfull.trans hn⟩⟩

/-- Any other step of `input` brings nothing, and behind it `input` has not returned in time with
the connection up. -/
theorem reads_silent {s t : Session} {i : Input} (hbuffer : WellFormed s.connection.readBuffer)
    (hcount : ∀ n ∈ s.pc.readCount, n = s.connection.readBuffer.writeAble) (hs : s.pc.callee = .input)
    (hstate : s.connection.state = .connected ∨ s.pc = .closeWait)
    (hhung : s.pc = .closeWait → s.canResume = false) (hi : ∀ bytes, i ≠ .read (.data bytes))
    (h : s.step noServer i = some t) :
    Reads s t ∧ t.connection.readBuffer.readable = s.connection.readBuffer.readable ∧
      (t.connection.state = .connected ∧ (t.pc = .returned .input → s.connection.isOverTime = true) ∨
        t.pc = .returned .input ∧ t.connection.state = .closed ∨ t.pc = .closeWait) := by
  have hclose : s.pc = .closeWait → t = s := fun hpc => step_hung hpc (hhung hpc) h
  rcases step_input hs h with ⟨hpc, -, henter⟩ | ⟨n, result, hpc, rfl, hread⟩ | ⟨n, hpc, -, rfl⟩ |
    ⟨n, hpc, -, rfl⟩ | ⟨hpc, -, -⟩
  · have hup := hstate.resolve_right (by rw [hpc]; nofun)
    rcases enterInput_cases henter with ⟨rfl, hover | hdown⟩ | ⟨-, -, hnext⟩
    · exact ⟨⟨rfl, rfl, rfl, hbuffer, nofun⟩, rfl, .inl ⟨hup, fun _ => hover⟩⟩
    · rw [hup] at hdown
      rcases hdown with hdown | hdown <;> cases hdown
    · obtain ⟨hreads, hreadable, hsame, n, hn⟩ := nextRead_reads hbuffer hnext
      refine ⟨hreads, hreadable, .inl ⟨hsame.trans hup, fun hreturned => ?_⟩⟩
      rw [hn] at hreturned
      cases hreturned
  · have hup : s.connection.state = .connected := by
      refine hstate.resolve_right ?_
      rcases hpc with hpc | ⟨hpc, -⟩ <;> rw [hpc] <;> nofun
    rcases readResult_cases result with hresult | ⟨bytes, rfl⟩
    swap
    · exact absurd rfl (hi bytes)
    rcases readReturns_other hresult hread with ⟨hover, rfl⟩ | ⟨-, rfl⟩
    · exact ⟨⟨rfl, rfl, rfl, hbuffer, nofun⟩, rfl, .inl ⟨hup, fun _ => hover⟩⟩
    · have hne : s.connection.state ≠ .closed := by
        rw [hup]
        nofun
      obtain ⟨hconnection, -⟩ := closePath_spec hne
      refine ⟨⟨by rw [hconnection], by rw [hconnection], by rw [hconnection], ?_, ?_⟩, by rw [hconnection], ?_⟩
      · rw [hconnection]
        exact hbuffer
      · rw [closePath_pc]
        split <;> nofun
      · rw [closePath_pc]
        split
        · exact .inr (.inl ⟨rfl, by rw [hconnection]⟩)
        · exact .inr (.inr rfl)
  · have hup := hstate.resolve_right (by rw [hpc]; nofun)
    exact ⟨⟨rfl, rfl, rfl, hbuffer, fun m hm => hcount m (by rw [hpc]; exact hm)⟩, rfl, .inl ⟨hup, nofun⟩⟩
  · have hup := hstate.resolve_right (by rw [hpc]; nofun)
    unfold resume
    split
    · exact ⟨⟨rfl, rfl, rfl, hbuffer, fun m hm => hcount m (by rw [hpc]; exact hm)⟩, rfl, .inl ⟨hup, nofun⟩⟩
    · refine ⟨⟨rfl, rfl, rfl, hbuffer, hcount⟩, rfl, .inl ⟨hup, fun hreturned => ?_⟩⟩
      rw [hpc] at hreturned
      cases hreturned
  · rw [hclose hpc]
    exact ⟨⟨rfl, rfl, rfl, hbuffer, hcount⟩, rfl, .inr (.inr hpc)⟩

/-- Only `execute` has replies to keep. -/
theorem step_replies {s t : Session} {i : Input} (hs : s.pc.callee = .input)
    (h : s.step noServer i = some t) : t.connection.replyDatas = s.connection.replyDatas := by
  have hnext : ∀ {r : Session}, r.nextRead = some t → t.connection.replyDatas = r.connection.replyDatas := by
    intro r hr
    obtain ⟨readBuffer, -, rfl⟩ := nextRead_some hr
    rfl
  have hresume : ∀ pc, (s.resume pc).connection.replyDatas = s.connection.replyDatas := by
    intro pc
    unfold resume
    split <;> rfl
  rcases step_input hs h with ⟨-, -, henter⟩ | ⟨n, result, -, -, hread⟩ | ⟨n, -, -, rfl⟩ |
    ⟨n, -, -, rfl⟩ | ⟨-, -, rfl⟩
  · rcases enterInput_cases henter with ⟨rfl, -⟩ | ⟨-, -, hread⟩
    · rfl
    · exact hnext hread
  · rcases readResult_cases result with hresult | ⟨bytes, rfl⟩
    · rcases readReturns_other hresult hread with ⟨-, rfl⟩ | ⟨-, rfl⟩
      · rfl
      · exact closePath_replies s
    · obtain ⟨-, -, readBuffer, -, ⟨rfl, -⟩ | ⟨hagain, -, -⟩⟩ := readReturns_data hread
      · rfl
      · have hsame := hnext hagain
        exact hsame
  · rfl
  · exact hresume _
  · exact hresume _

end Session

end CoroutineRpc.Net.Tcp
