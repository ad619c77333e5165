import CoroutineRpc.Net.Tcp.Execute
import CoroutineRpc.Net.Tcp.Replies

/-! The buffers of a client.

In every state that a client comes to, both are well formed, and a read or a write that is under
way was given the size that there is. -/
namespace CoroutineRpc.Net.Tcp
open Rpc TcpBuffer Library.Transition

namespace Session

/-- How much the `write_hook` that is under way was given. -/
def Pc.totalSize : Pc → Option Int
  | .write n | .writeWait n | .writeAgain n => some n
  | _ => none

structure Buffers (s : Session) : Prop where
  client : s.connection.connectionType = .clientConnection
  readBuffer : WellFormed s.connection.readBuffer
  writeBuffer : WellFormed s.connection.writeBuffer
  count : ∀ n ∈ s.pc.readCount, n = s.connection.readBuffer.writeAble
  total : ∀ n ∈ s.pc.totalSize, n = s.connection.writeBuffer.readAble

/-- Neither a read nor a write is under way. -/
def Pc.Quiet (pc : Pc) : Prop := pc.readCount = none ∧ pc.totalSize = none

/-- Elsewhere nothing is done to the buffers. -/
theorem Buffers.same {s t : Session} (h : Buffers s)
    (hclient : t.connection.connectionType = s.connection.connectionType)
    (hread : t.connection.readBuffer = s.connection.readBuffer)
    (hwrite : t.connection.writeBuffer = s.connection.writeBuffer) (hpc : t.pc = s.pc ∨ t.pc.Quiet) :
    Buffers t where
  client := hclient.trans h.client
  readBuffer := hread ▸ h.readBuffer
  writeBuffer := hwrite ▸ h.writeBuffer
  count := by
    rw [hread]
    rcases hpc with hpc | ⟨hpc, -⟩ <;> rw [hpc]
    · exact h.count
    · nofun
  total := by
    rw [hwrite]
    rcases hpc with hpc | ⟨-, hpc⟩ <;> rw [hpc]
    · exact h.total
    · nofun

theorem Buffers.returns {s : Session} (h : Buffers s) (callee : Callee) : Buffers (s.returns callee) :=
  h.same rfl rfl rfl (.inr ⟨rfl, rfl⟩)

theorem Buffers.resume {s : Session} {pc : Pc} (h : Buffers s)
    (hpc : pc.readCount = s.pc.readCount ∧ pc.totalSize = s.pc.totalSize ∨ pc.Quiet) : Buffers (s.resume pc) := by
  unfold Session.resume
  split
  swap
  · exact h
  rcases hpc with ⟨hread, hwrite⟩ | hquiet
  · exact ⟨h.client, h.readBuffer, h.writeBuffer, hread ▸ h.count, hwrite ▸ h.total⟩
  · exact h.same rfl rfl rfl (.inr hquiet)

/-! ### `input` and `execute` -/

theorem Buffers.nextRead {s t : Session} (h : Buffers s) (hs : s.nextRead = some t) : Buffers t := by
  obtain ⟨readBuffer, hroom, rfl⟩ := nextRead_some hs
  obtain ⟨hwf, -⟩ := makeRoom_spec h.readBuffer hroom
  exact ⟨h.client, hwf, h.writeBuffer, fun n hn => (Option.some.inj hn).symm, nofun⟩

theorem Buffers.closePath {s : Session} (h : Buffers s) : Buffers s.closePath := by
  have hclear : Buffers {s.clearClient with canResume := false} := by
    unfold clearClient
    split
    · exact h.same rfl rfl rfl (.inl rfl)
    · exact h.same rfl rfl rfl (.inl rfl)
  unfold Session.closePath
  dsimp only
  split
  · exact hclear.returns .input
  · exact hclear.same rfl rfl rfl (.inr ⟨rfl, rfl⟩)

theorem Buffers.readReturns {s t : Session} {n : Int} {result : ReadResult} (h : Buffers s)
    (hn : n = s.connection.readBuffer.writeAble) (hs : s.readReturns n result = some t) : Buffers t := by
  rcases readResult_cases result with hresult | ⟨bytes, rfl⟩
  · rcases readReturns_other hresult hs with ⟨-, rfl⟩ | ⟨-, rfl⟩
    · exact h.returns .input
    · exact h.closePath
  obtain ⟨-, hle, readBuffer, hreceived, hrest⟩ := readReturns_data hs
  obtain ⟨b, hb, hwf, -⟩ := received_spec h.readBuffer (hn ▸ hle)
  obtain rfl := Option.some.inj (hreceived.symm.trans hb)
  -- the size that was given is used up
  have hset : Buffers ((s.setReadBuffer readBuffer).returns .input) :=
    ⟨h.client, hwf, h.writeBuffer, nofun, nofun⟩
  rcases hrest with ⟨rfl, -⟩ | ⟨hnext, -, -⟩
  · exact hset
  · exact hset.nextRead hnext

theorem Buffers.decodeNext {s t : Session} (h : Buffers s) (hpc : s.pc = .execute)
    (hs : s.decodeNext noServer = some t) : Buffers t := by
  obtain ⟨hwf, -⟩ := decodeNext_receive h.readBuffer hs
  rcases decodeNext_cases hs with ⟨rfl, -⟩ | ⟨out, -, -, hrest⟩
  · exact h.returns .execute
  rcases hrest with ⟨-, rfl⟩ | ⟨-, ⟨writeBuffer, hserver, -⟩ | ⟨-, rfl⟩⟩
  · exact ⟨h.client, hwf, h.writeBuffer, nofun, nofun⟩
  · rw [h.client] at hserver
    cases hserver
  · refine ⟨?_, hwf, ?_, ?_, ?_⟩
    · unfold TcpConnection.insertReply
      split <;> exact h.client
    · unfold TcpConnection.insertReply
      split <;> exact h.writeBuffer
    · show ∀ n ∈ s.pc.readCount, _
      rw [hpc]
      nofun
    · show ∀ n ∈ s.pc.totalSize, _
      rw [hpc]
      nofun

/-! ### `output` -/

/-- In front of a write. -/
theorem Buffers.writes {s : Session} (h : Buffers s) :
    Buffers {s with pc := .write s.connection.writeBuffer.readAble} :=
  ⟨h.client, h.readBuffer, h.writeBuffer, nofun, fun _ hn => (Option.some.inj hn).symm⟩

/-- Behind a write. -/
theorem Buffers.sent {s : Session} (h : Buffers s) {writeBuffer : TcpBuffer} (hwf : WellFormed writeBuffer) :
    Buffers ((s.setWriteBuffer writeBuffer).returns .output) :=
  ⟨h.client, h.readBuffer, hwf, nofun, nofun⟩

theorem Buffers.nextWrite {s : Session} (h : Buffers s) : Buffers s.nextWrite := by
  unfold Session.nextWrite
  split
  · exact h.returns .output
  split
  · exact h.returns .output
  · exact h.writes

theorem Buffers.written {s : Session} (h : Buffers s) : Buffers s.written := by
  unfold Session.written
  split
  · exact h.returns .output
  split
  · exact h.returns .output
  · exact h.nextWrite

/-- What was sent is dropped from the write buffer. -/
theorem writeReturns_sent {s : Session} {n : Int} {m : Nat} (h : Buffers s)
    (hn : n = s.connection.writeBuffer.readAble) (hm : 0 < m ∧ (m : Int) ≤ n) :
    ∃ writeBuffer, WellFormed writeBuffer ∧ writeBuffer.readAble = n - m ∧
      s.writeReturns n (.sent m) = some (s.setWriteBuffer writeBuffer).written := by
  obtain ⟨writeBuffer, hrecycle, hwf, hreadable, -⟩ := recycleReadVia_spec h.writeBuffer
    (Int.natCast_nonneg m) (hn ▸ hm.2)
  refine ⟨writeBuffer, hwf, ?_, ?_⟩
  · have hlength := hwf.readable_length
    have hbefore := h.writeBuffer.readable_length
    rw [hreadable, List.length_drop] at hlength
    omega
  · have hsent : ¬ (m = 0 ∨ n < m) := by omega
    simp only [writeReturns, if_neg hsent, recycleRead, hrecycle _ covers_all, Option.bind_eq_bind,
      Option.bind_some, Option.pure_def]

theorem Buffers.writeReturns {s t : Session} {n : Int} {result : WriteResult} (h : Buffers s)
    (hn : n = s.connection.writeBuffer.readAble) (hs : s.writeReturns n result = some t) : Buffers t := by
  cases result with
  | failed =>
    obtain rfl := Option.some.inj hs
    exact h.written
  | sent m =>
    by_cases hm : 0 < m ∧ (m : Int) ≤ n
    · obtain ⟨writeBuffer, hwf, -, heq⟩ := writeReturns_sent h hn hm
      obtain rfl := Option.some.inj (heq.symm.trans hs)
      exact (h.sent hwf).written
    · rw [Session.writeReturns, if_pos (by omega)] at hs
      cases hs

theorem Buffers.step {s t : Session} {i : Input} (h : Buffers s) (hs : s.step noServer i = some t) :
    Buffers t := by
  cases hcallee : s.pc.callee with
  | input =>
    rcases step_input hcallee hs with ⟨-, -, henter⟩ | ⟨n, result, hpc, -, hread⟩ | ⟨n, hpc, -, rfl⟩ |
      ⟨n, hpc, -, rfl⟩ | ⟨hpc, -, rfl⟩
    · rcases enterInput_cases henter with ⟨rfl, -⟩ | ⟨-, -, hnext⟩
      · exact h.returns .input
      · exact h.nextRead hnext
    · refine h.readReturns (h.count n ?_) hread
      rcases hpc with hpc | ⟨hpc, -⟩ <;> rw [hpc] <;> rfl
    · exact ⟨h.client, h.readBuffer, h.writeBuffer, fun m hm => h.count m (by rw [hpc]; exact hm), nofun⟩
    · exact h.resume (.inl (by rw [hpc]; exact ⟨rfl, rfl⟩))
    · exact h.resume (.inr ⟨rfl, rfl⟩)
  | execute =>
    obtain ⟨hpc, -, hdecode⟩ := step_execute hcallee hs
    exact h.decodeNext hpc hdecode
  | output =>
    have htotal : ∀ {n}, s.pc = .write n ∨ s.pc = .writeAgain n → n = s.connection.writeBuffer.readAble := by
      intro n hpc
      refine h.total n ?_
      rcases hpc with hpc | hpc <;> rw [hpc] <;> rfl
    unfold Session.step at hs
    split at hs
    case h_7 =>
      obtain rfl := Option.some.inj hs
      unfold enterOutput
      split
      · exact h.returns .output
      · exact h.nextWrite
    case h_8 n result hpc =>
      split at hs
      · obtain rfl := Option.some.inj hs
        exact ⟨h.client, h.readBuffer, h.writeBuffer, nofun, fun m hm => h.total m (by rw [hpc]; exact hm)⟩
      · exact h.writeReturns (htotal (.inl hpc)) hs
    case h_9 n hpc =>
      obtain rfl := Option.some.inj hs
      exact h.resume (.inl (by rw [hpc]; exact ⟨rfl, rfl⟩))
    case h_10 hpc => exact h.writeReturns (htotal (.inr hpc)) hs
    all_goals
      rename_i hpc
      first
      | rw [hpc] at hcallee; cases hcallee
      | cases hs

end Session

namespace Client
open Session

theorem wellFormed_encode {b b' : TcpBuffer} (h : WellFormed b) {genMsgNumber : Bytes} {data : RpcStruct}
    {r : RpcStruct} (hs : encode genMsgNumber b data = some (b', r)) : WellFormed b' := by
  unfold encode at hs
  split at hs
  · obtain ⟨rfl, -⟩ := Prod.mk.inj (Option.some.inj hs)
    exact h
  · rename_i frame _
    obtain ⟨c, hwrite, heq⟩ := Option.map_eq_some_iff.mp hs
    obtain ⟨rfl, -⟩ := Prod.mk.inj heq
    by_cases hroom : b.Room frame.length
    · obtain ⟨d, hd, hwf, -⟩ := writeToBuffer_room h frame hroom
      obtain rfl := Option.some.inj (hwrite.symm.trans hd)
      exact hwf
    · rw [writeToBuffer_none hroom] at hwrite
      cases hwrite

/-- Outside the connection's functions neither a read nor a write is under way. -/
def Quiet (s : State) : Prop := s.pc.callee = none → s.session.pc.Quiet

theorem quiet_resume {s : State} (h : Quiet s) (hasleep : isAsleep s = true) : Quiet (resume s) := by
  rcases resume_cases hasleep with ⟨-, heq⟩ | ⟨-, hpc, heq⟩ | ⟨-, hpc, session, -, heq⟩
  · rw [heq]
    exact h
  · rw [heq]
    exact fun _ => h (by rw [hpc]; rfl)
  · rw [heq]
    intro hnone
    rw [show ({s with session} : State).pc = s.pc from rfl] at hnone
    rcases hpc with hpc | hpc <;> rw [hpc] at hnone <;> cases hnone

theorem quiet_step {settings : Settings} {s t : State} {i : Input} (h : Quiet s)
    (hs : step settings s i = some t) : Quiet t := by
  have houtside : ∀ {pc : Pc}, s.pc = pc → pc.callee = none → s.session.pc.Quiet := by
    rintro _ rfl hpc
    exact h hpc
  have hreturned : ∀ {callee : Callee}, s.session.pc = .returned callee → s.session.pc.Quiet := by
    intro callee hpc
    rw [hpc]
    exact ⟨rfl, rfl⟩
  have hinside : ∀ {callee : Callee} {session : Session}, s.pc.callee = some callee → Quiet {s with session} := by
    intro callee session hpc hnone
    cases hpc.symm.trans hnone
  cases step_moves hs with
  | timer => exact h
  | fireOther => exact h
  | fireRpc htasks hasleep =>
    exact quiet_resume (s := setOverTimeFlag {s with timer := _, isTimeout := true} true) h hasleep
  | fireConnect htasks hpc =>
    exact quiet_resume (s := {s with timer := _, connectTimeout := true}) h (asleep_of_connectWait hpc)
  | elsewhere => exact h
  | call _ _ hpc => exact fun _ => houtside hpc rfl
  | callResetFd hpc => exact fun _ => houtside hpc rfl
  | setTimeout => exact h
  | encode => exact h
  | destroy hpc =>
    intro
    dsimp only
    split <;> exact houtside hpc rfl
  | leaveLoop hpc => exact fun _ => houtside hpc rfl
  | connectNext hpc => exact fun _ => houtside hpc rfl
  | connectResumed hpc => exact fun _ => houtside hpc rfl
  | closeFd hfd hpc =>
    rcases hpc with ⟨inCall, hpc, rfl⟩ | ⟨hpc, rfl⟩
    · exact fun _ => houtside hpc rfl
    · exact fun _ => houtside hpc rfl
  | connectFailed hpc =>
    unfold connectFailed
    split
    · exact fun _ => houtside hpc rfl
    split
    · exact fun _ => houtside hpc rfl
    split <;> exact fun _ => houtside hpc rfl
  | connected hpc =>
    unfold connected
    split
    · exact fun _ => houtside hpc rfl
    · nofun
  | checkOutput hpc hr =>
    unfold checkOutput
    split <;> exact fun _ => hreturned hr
  | find hpc =>
    unfold find
    split
    · exact fun _ => houtside hpc rfl
    · nofun
  | checkInput hpc hr =>
    unfold checkInput
    split
    · exact fun _ => hreturned hr
    split
    · exact fun _ => hreturned hr
    · nofun
  | executed hpc hr => exact fun _ => hreturned hr
  | advance hpc => exact hinside hpc
  | read hpc => exact hinside (congrArg Pc.callee hpc)
  | write hpc => exact hinside (congrArg Pc.callee hpc)
  | connectDone hpc => rcases hpc with hpc | hpc <;> exact fun _ => houtside hpc rfl
  | connectError _ hpc => rcases hpc with hpc | hpc <;> exact fun _ => houtside hpc rfl
  | connectWaits _ hpc => exact fun _ => houtside hpc rfl
  | resetSocket hpc => exact fun _ => houtside hpc rfl
  | errSocket hpc =>
    unfold failed
    split <;> exact fun _ => houtside hpc rfl
  | resume hasleep => exact quiet_resume h hasleep

theorem buffers_resume {s : State} (h : Buffers s.session) (hasleep : isAsleep s = true) :
    Buffers (resume s).session := by
  rcases resume_cases hasleep with ⟨-, heq⟩ | ⟨-, -, heq⟩ | ⟨-, -, session, hs, heq⟩
  · rw [heq]
    exact h
  · rw [heq]
    exact h
  · rw [heq]
    exact h.step hs

/-- **The buffers of a client stay well formed.** -/
theorem buffers_step {settings : Settings} {s t : State} {i : Input} (h : Buffers s.session) (hquiet : Quiet s)
    (hs : step settings s i = some t) : Buffers t.session := by
  have hsame : ∀ {session : Session}, session.connection.connectionType = s.session.connection.connectionType →
      session.connection.readBuffer = s.session.connection.readBuffer →
        session.connection.writeBuffer = s.session.connection.writeBuffer → session.pc = s.session.pc →
          Buffers session := fun hclient hread hwrite hpc => h.same hclient hread hwrite (.inl hpc)
  have henters : ∀ {session : Session}, session.connection.connectionType = s.session.connection.connectionType →
      session.connection.readBuffer = s.session.connection.readBuffer →
        session.connection.writeBuffer = s.session.connection.writeBuffer → session.pc.Quiet →
          Buffers session := fun hclient hread hwrite hpc => h.same hclient hread hwrite (.inr hpc)
  cases step_moves hs with
  | timer => exact h
  | fireOther => exact h
  | fireRpc htasks hasleep =>
    exact buffers_resume (s := setOverTimeFlag {s with timer := _, isTimeout := true} true)
      (hsame rfl rfl rfl rfl) hasleep
  | fireConnect htasks hpc =>
    exact buffers_resume (s := {s with timer := _, connectTimeout := true}) h (asleep_of_connectWait hpc)
  | elsewhere => exact hsame rfl rfl rfl rfl
  | call => exact hsame rfl rfl rfl rfl
  | callResetFd => exact h
  | setTimeout => exact h
  | encode writeBuffer hpc =>
    simp only [Client.step, hpc, outside, reduceIte] at hs
    split at hs
    · cases hs
    obtain ⟨⟨b, r⟩, hencode, heq⟩ := Option.map_eq_some_iff.mp hs
    obtain rfl : b = writeBuffer := congrArg (fun t : State => t.session.connection.writeBuffer) heq
    obtain ⟨hread, hwrite⟩ := hquiet (by rw [hpc]; rfl)
    refine ⟨h.client, h.readBuffer, wellFormed_encode h.writeBuffer hencode, ?_, ?_⟩
    · show ∀ n ∈ s.session.pc.readCount, _
      rw [hread]
      nofun
    · show ∀ n ∈ s.session.pc.totalSize, _
      rw [hwrite]
      nofun
  | destroy =>
    dsimp only
    split
    · exact hsame rfl rfl rfl rfl
    · exact h
  | leaveLoop => exact h
  | connectNext => exact h
  | connectResumed => exact h
  | closeFd => exact hsame rfl rfl rfl rfl
  | connectFailed =>
    unfold connectFailed
    split
    · exact h
    split
    · exact h
    split <;> exact h
  | connected =>
    unfold connected
    split
    · exact h
    · exact henters rfl rfl rfl ⟨rfl, rfl⟩
  | checkOutput =>
    unfold checkOutput
    split <;> exact h
  | find =>
    unfold find
    split
    · rename_i hfound
      obtain ⟨reply, -, heq⟩ := Option.map_eq_some_iff.mp hfound
      obtain ⟨-, rfl⟩ := Prod.mk.inj heq
      exact hsame rfl rfl rfl rfl
    · exact henters rfl rfl rfl ⟨rfl, rfl⟩
  | checkInput =>
    unfold checkInput
    split
    · exact h
    split
    · exact h
    · exact henters rfl rfl rfl ⟨rfl, rfl⟩
  | executed => exact h
  | advance hpc hsession => exact h.step hsession
  | read hpc hsession => exact h.step hsession
  | write hpc hsession => exact h.step hsession
  | connectDone => exact hsame rfl rfl rfl rfl
  | connectError => exact h
  | connectWaits => exact h
  | resetSocket => exact hsame rfl rfl rfl rfl
  | errSocket =>
    unfold failed
    split <;> exact hsame rfl rfl rfl rfl
  | resume hasleep => exact buffers_resume h hasleep

theorem buffers_run {settings : Settings} {fd : Int} {s : State} {is : List Input}
    (hr : run (step settings) (initial settings fd) is = some s) : Buffers s.session := by
  have hstart : Buffers (initial settings fd).session ∧ Quiet (initial settings fd) := by
    have hmake := make_wellFormed 128 (by decide) (by decide)
    exact ⟨⟨rfl, hmake, hmake, nofun, nofun⟩, fun _ => ⟨rfl, rfl⟩⟩
  have hstep : ∀ s i t, Buffers s.session ∧ Quiet s → step settings s i = some t → Buffers t.session ∧ Quiet t :=
    fun s i t h hs => ⟨buffers_step h.1 h.2 hs, quiet_step h.2 hs⟩
  exact ((always_of_inductive hstep hstart is).last hr).1

end Client

end CoroutineRpc.Net.Tcp
