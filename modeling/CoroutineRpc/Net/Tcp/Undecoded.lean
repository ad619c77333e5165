import CoroutineRpc.Net.Tcp.Client

/-! Frames that a connection sleeps on.

`input` reads again when a read filled the space it was given, whatever the bytes are;
`execute` stops at a packet it rejects, whatever follows; and a client's call that is out
of time leaves what it read. In each case a complete frame may stay in the buffer, and the
next read that finds nothing puts the coroutine to sleep in front of it. `Fed` is what
a connection keeps otherwise: a complete frame is on its way to `execute`, or there is none. -/
namespace CoroutineRpc.Net.Tcp
open Rpc TcpBuffer Library.Transition

/-- Bytes that begin with all of a valid frame. -/
def Complete (l : Bytes) : Prop := ∃ p, Sendable p ∧ frame p <+: l

theorem complete_judge {l : Bytes} (h : Complete l) : ∃ n p, judge l = .accept n p := by
  obtain ⟨p, hp, rest, rfl⟩ := h
  exact ⟨frameLength p, p, judge_frame hp rest⟩

theorem not_complete_nil : ¬ Complete [] := by
  rintro ⟨p, -, hprefix⟩
  have := List.prefix_nil.mp hprefix
  simp [frame] at this

theorem complete_iff {l : Bytes} : Complete l ↔ fromStart l = l ∧ (judge l).packet.isSome = true := by
  constructor
  · rintro ⟨p, hp, rest, rfl⟩
    exact ⟨fromStart_frame p rest, by rw [judge_frame hp rest]; rfl⟩
  · rintro ⟨hstart, hsome⟩
    cases hl : judge l with
    | wait => rw [hl] at hsome; cases hsome
    | reject n e => rw [hl] at hsome; cases hsome
    | accept n p =>
      obtain ⟨-, hp, rest, hrest⟩ := judge_fromStart_accept (hstart.symm ▸ hl)
      exact ⟨p, hp, rest, hrest.symm.trans hstart⟩

instance (l : Bytes) : Decidable (Complete l) := decidable_of_iff _ complete_iff.symm

/-- Behind the packet that is rejected. -/
def passed (l : Bytes) : Bytes :=
  match judge l with
  | .reject n _ => l.drop n
  | _ => []

theorem passed_iff {l : Bytes} : (∀ n e, judge l = .reject n e → ¬ Complete (l.drop n)) ↔ ¬ Complete (passed l) := by
  unfold passed
  cases judge l with
  | wait => exact iff_of_true nofun not_complete_nil
  | accept n p => exact iff_of_true nofun not_complete_nil
  | reject n e =>
    refine ⟨fun h => h n e rfl, fun h n' e' heq => ?_⟩
    obtain ⟨rfl, rfl⟩ := Verdict.reject.inj heq
    exact h

/-- A packet that is waited for leaves no complete frame; one that is rejected may. -/
theorem decode_complete {b : TcpBuffer} (h : WellFormed b) {out : Decoded}
    (hout : decode b {} = some out) (hsucc : out.data.decodeSucc = false)
    (hreject : ∀ n e, judge (fromStart b.readable) = .reject n e →
      ¬ Complete ((fromStart b.readable).drop n)) : ¬ Complete out.buf.readable := by
  obtain ⟨out', hout', -, -, hreadable, hdata⟩ := decode_receive h {}
  obtain rfl := Option.some.inj (hout.symm.trans hout')
  rw [hreadable]
  simp only [receive] at hdata ⊢
  cases hv : judge (fromStart b.readable) with
  | accept n p =>
    rw [hv] at hdata
    rw [hdata.1] at hsucc
    cases hsucc
  | reject n e => exact hreject n e hv
  | wait =>
    intro hcomplete
    obtain ⟨n, p, haccept⟩ := complete_judge hcomplete
    rw [show Verdict.wait.consumed = 0 from rfl, List.drop_zero, hv] at haccept
    cases haccept

theorem makeRoom_spec {b b' : TcpBuffer} (h : WellFormed b) (hroom : b.makeRoom = some b') :
    WellFormed b' ∧ b'.readable = b.readable := by
  unfold TcpBuffer.makeRoom at hroom
  split at hroom
  swap
  · obtain rfl := Option.some.inj hroom
    exact ⟨h, rfl⟩
  rw [Option.bind_eq_bind, Option.bind_eq_some_iff] at hroom
  obtain ⟨size, hint, hresize⟩ := hroom
  obtain ⟨rfl, -, hfits⟩ := eq_of_int hint
  obtain ⟨hread, hwrite, hsize, -⟩ := id h
  have hnat : 2 * (b.buffer.length : Int) = ((2 * b.buffer.length : Nat) : Int) := by omega
  rw [hnat] at hresize
  have hle : b.readAble ≤ (2 * b.buffer.length : Nat) := by
    simp only [readAble]
    omega
  obtain ⟨c, hc, hwf, hreadable⟩ := resizeBuffer_spec h hle (by omega)
  obtain rfl := Option.some.inj (hresize.symm.trans hc)
  exact ⟨hwf, hreadable⟩

/-! ### A connection -/

namespace Session

/-- How much the `read_hook` that is under way was asked for. -/
def Pc.readCount : Pc → Option Int
  | .read n | .readWait n | .readAgain n => some n
  | _ => none

/-- What a connection keeps while no frame is passed by. -/
structure Fed (s : Session) : Prop where
  buffer : WellFormed s.connection.readBuffer
  count : ∀ n ∈ s.pc.readCount, n = s.connection.readBuffer.writeAble ∧ s.connection.state ≠ .closed
  passed : Complete s.connection.readBuffer.readable → s.pc = .execute ∨
    s.pc = .returned .input ∧ s.connection.isOverTime = false ∧ s.connection.state ≠ .closed

/-- No frame is passed by: a read that fills the space it was given, or that is cut short by the
time-out, leaves no complete frame at the read index, and neither does a rejected packet. -/
def Calm (s : Session) : Input → Prop
  | .read (.data bytes) =>
    bytes.length = s.connection.readBuffer.writeAble ∨ s.connection.isOverTime = true →
      ¬ Complete (s.connection.readBuffer.readable ++ bytes)
  | .advance => s.pc = .execute → ∀ n e, judge (fromStart s.connection.readBuffer.readable) = .reject n e →
      ¬ Complete ((fromStart s.connection.readBuffer.readable).drop n)
  | _ => True

instance (s : Session) : ∀ i : Input, Decidable (s.Calm i)
  | .read (.data _) => inferInstanceAs (Decidable (_ ∨ _ → ¬ Complete _))
  | .advance => decidable_of_iff (s.pc = .execute → ¬ Complete (passed (fromStart s.connection.readBuffer.readable)))
      (imp_congr_right fun _ => passed_iff.symm)
  | .read .eof | .read .error | .write _ | .resume => isTrue trivial

theorem Fed.of_not_complete {s : Session} (hbuffer : WellFormed s.connection.readBuffer)
    (hcount : s.pc.readCount = none) (h : ¬ Complete s.connection.readBuffer.readable) : Fed s where
  buffer := hbuffer
  count := by simp [hcount]
  passed hcomplete := absurd hcomplete h

/-- Where the coroutine reads or sleeps there is no complete frame. -/
theorem Fed.not_complete {s : Session} (h : Fed s) (hexecute : s.pc ≠ .execute)
    (hinput : s.pc ≠ .returned .input) : ¬ Complete s.connection.readBuffer.readable := by
  intro hcomplete
  rcases h.passed hcomplete with hpc | ⟨hpc, -⟩
  · exact hexecute hpc
  · exact hinput hpc

theorem fed_nextRead {s t : Session} (hbuffer : WellFormed s.connection.readBuffer)
    (hstate : s.connection.state ≠ .closed) (hcomplete : ¬ Complete s.connection.readBuffer.readable)
    (h : s.nextRead = some t) : Fed t := by
  obtain ⟨readBuffer, hroom, rfl⟩ := nextRead_some h
  obtain ⟨hwf, hreadable⟩ := makeRoom_spec hbuffer hroom
  refine ⟨hwf, ?_, fun hc => absurd (hreadable ▸ hc) hcomplete⟩
  intro n hn
  exact ⟨(Option.some.inj hn).symm, hstate⟩

theorem fed_closePath {s : Session} (h : Fed s) (hstate : s.connection.state ≠ .closed)
    (hcomplete : ¬ Complete s.connection.readBuffer.readable) : Fed s.closePath := by
  obtain ⟨hconnection, -⟩ := closePath_spec hstate
  apply Fed.of_not_complete
  · rw [hconnection]
    exact h.buffer
  · rw [closePath_pc]
    split <;> rfl
  · rw [hconnection]
    exact hcomplete

theorem fed_readReturns {s t : Session} (h : Fed s) {n : Int} (hn : s.pc.readCount = some n)
    {result : ReadResult} (hcalm : Calm s (.read result)) (hs : s.readReturns n result = some t) :
    Fed t := by
  obtain ⟨hcount, hstate⟩ := h.count n hn
  have hcomplete : ¬ Complete s.connection.readBuffer.readable := by
    apply h.not_complete
    · intro hpc
      rw [hpc] at hn
      cases hn
    · intro hpc
      rw [hpc] at hn
      cases hn
  rcases readResult_cases result with hresult | ⟨bytes, rfl⟩
  · rcases readReturns_other hresult hs with ⟨-, rfl⟩ | ⟨-, rfl⟩
    · exact Fed.of_not_complete h.buffer rfl hcomplete
    · exact fed_closePath h hstate hcomplete
  · obtain ⟨-, hle, readBuffer, hreceived, hrest⟩ := readReturns_data hs
    have hroom : (bytes.length : Int) ≤ s.connection.readBuffer.writeAble := by omega
    obtain ⟨b, hb, hwf, hreadable⟩ := received_spec h.buffer hroom
    obtain rfl := Option.some.inj (hreceived.symm.trans hb)
    rcases hrest with ⟨rfl, hshort⟩ | ⟨hnext, -, hfull⟩
    · -- all that was read goes to `execute`, unless the time is over
      refine ⟨hwf, by simp [returns, Pc.readCount], fun hc => .inr ⟨rfl, ?_, hstate⟩⟩
      rw [← Bool.not_eq_true]
      intro hover
      refine hcalm (.inr hover) ?_
      rw [← hreadable]
      exact hc
    · refine fed_nextRead (s := s.setReadBuffer readBuffer) hwf hstate ?_ hnext
      show ¬ Complete readBuffer.readable
      rw [hreadable]
      exact hcalm (.inl (hfull.trans hcount))

theorem fed_input {dispatch : RpcStruct → TcpBuffer → Option (TcpBuffer × RunTime)} {s t : Session}
    {i : Input} (h : Fed s) (hcalm : Calm s i) (hcallee : s.pc.callee = .input)
    (hs : s.step dispatch i = some t) : Fed t := by
  rcases step_input hcallee hs with ⟨hpc, -, henter⟩ | ⟨n, result, hpc, rfl, hread⟩ | ⟨n, hpc, -, rfl⟩ |
    ⟨n, hpc, -, rfl⟩ | ⟨hpc, -, rfl⟩
  · have hcomplete := h.not_complete (by rw [hpc]; nofun) (by rw [hpc]; nofun)
    rcases enterInput_cases henter with ⟨rfl, -⟩ | ⟨-, hstate, hnext⟩
    · exact Fed.of_not_complete h.buffer rfl hcomplete
    · exact fed_nextRead h.buffer hstate hcomplete hnext
  · have hn : s.pc.readCount = some n := by
      rcases hpc with hpc | ⟨hpc, -⟩ <;> rw [hpc] <;> rfl
    exact fed_readReturns h hn hcalm hread
  · have hcount := h.count n (by rw [hpc]; rfl)
    have hcomplete := h.not_complete (by rw [hpc]; nofun) (by rw [hpc]; nofun)
    exact ⟨h.buffer, fun m hm => Option.some.inj hm ▸ hcount, fun hc => absurd hc hcomplete⟩
  · have hcount := h.count n (by rw [hpc]; rfl)
    have hcomplete := h.not_complete (by rw [hpc]; nofun) (by rw [hpc]; nofun)
    unfold resume
    split
    · exact ⟨h.buffer, fun m hm => Option.some.inj hm ▸ hcount, fun hc => absurd hc hcomplete⟩
    · exact h
  · have hcomplete := h.not_complete (by rw [hpc]; nofun) (by rw [hpc]; nofun)
    unfold resume
    split
    · exact Fed.of_not_complete h.buffer rfl hcomplete
    · exact h

theorem fed_execute {dispatch : RpcStruct → TcpBuffer → Option (TcpBuffer × RunTime)} {s t : Session}
    (h : Fed s) (hpc : s.pc = .execute) (hcalm : Calm s .advance) (hs : s.decodeNext dispatch = some t) :
    Fed t := by
  rcases decodeNext_cases hs with ⟨rfl, hempty⟩ | ⟨out, hsome, hout, hrest⟩
  · have hnil : s.connection.readBuffer.readable = [] := by
      have := h.buffer.readable_length
      exact List.eq_nil_of_length_eq_zero (by omega)
    refine Fed.of_not_complete h.buffer rfl ?_
    rw [show (s.returns .execute).connection = s.connection from rfl, hnil]
    exact not_complete_nil
  · obtain ⟨out', hout', hwf, -⟩ := decode_receive h.buffer {}
    obtain rfl := Option.some.inj (hout.symm.trans hout')
    have hpassed : ∀ u : Session, u.connection.readBuffer = out.buf → u.pc = .execute → Fed u := by
      intro u hbuffer hu
      exact ⟨hbuffer ▸ hwf, by simp [hu, Pc.readCount], fun _ => .inl hu⟩
    rcases hrest with ⟨hsucc, rfl⟩ | ⟨-, ⟨writeBuffer, -, rfl⟩ | ⟨-, rfl⟩⟩
    · exact Fed.of_not_complete hwf rfl (decode_complete h.buffer hout hsucc (hcalm hpc))
    · exact hpassed _ rfl hpc
    · refine hpassed _ ?_ hpc
      unfold TcpConnection.insertReply
      split <;> rfl

/-- **One step of a connection** that passes no frame by. -/
theorem fed_step {dispatch : RpcStruct → TcpBuffer → Option (TcpBuffer × RunTime)} {s t : Session}
    {i : Input} (h : Fed s) (hcalm : Calm s i) (hs : s.step dispatch i = some t) : Fed t := by
  cases hcallee : s.pc.callee with
  | input => exact fed_input h hcalm hcallee hs
  | execute =>
    obtain ⟨hpc, rfl, hdecode⟩ := step_execute hcallee hs
    exact fed_execute h hpc hcalm hdecode
  | output =>
    have hwrites := step_output hcallee hs
    have hcomplete : ¬ Complete s.connection.readBuffer.readable := by
      apply h.not_complete
      · intro hpc
        rw [hpc] at hcallee
        cases hcallee
      · intro hpc
        rw [hpc] at hcallee
        cases hcallee
    refine Fed.of_not_complete (hwrites.readBuffer ▸ h.buffer) ?_ (hwrites.readBuffer ▸ hcomplete)
    have houtput : t.pc.callee = .output := hwrites.callee.trans hcallee
    cases hpc : t.pc with
    | _ => first | rfl | (rw [hpc] at houtput; cases houtput)

/-- The coroutine does not sleep in `read_hook` with a complete frame at the read index. -/
def Awake (s : Session) : Prop := ∀ n, s.pc = .readWait n → ¬ Complete s.connection.readBuffer.readable

theorem Fed.awake {s : Session} (h : Fed s) : Awake s := by
  intro n hpc
  exact h.not_complete (by rw [hpc]; nofun) (by rw [hpc]; nofun)

/-- A connection with an empty buffer. -/
theorem fed_of_make {s : Session} {buffSize : Int} (hsize : 0 ≤ buffSize) (hint : buffSize < 2 ^ 31)
    (hbuffer : s.connection.readBuffer = make buffSize) (hpc : s.pc = .input) : Fed s := by
  apply Fed.of_not_complete
  · rw [hbuffer]
    exact make_wellFormed buffSize hsize hint
  · rw [hpc]
    rfl
  · rw [hbuffer, make_readable]
    exact not_complete_nil

end Session

/-! ### A server -/

namespace Server
open Session

def Calm (s : Session) : Server.Input → Prop
  | .io i => s.Calm i
  | .shutdown => True

instance (s : Session) : ∀ i : Server.Input, Decidable (Calm s i)
  | .io i => inferInstanceAs (Decidable (s.Calm i))
  | .shutdown => isTrue trivial

theorem fed_step {dispatch : RpcStruct → TcpBuffer → Option (TcpBuffer × RunTime)} {s t : Session}
    {i : Server.Input} (h : Fed s) (hcalm : Calm s i) (hs : step dispatch s i = some t) : Fed t := by
  cases i with
  | shutdown =>
    obtain rfl := Option.some.inj hs
    unfold TcpConnection.shutdownConnection
    split
    · exact h
    · refine ⟨h.buffer, fun n hn => ⟨(h.count n hn).1, nofun⟩, fun hc => ?_⟩
      exact (h.passed hc).imp_right fun hpassed => ⟨hpassed.1, hpassed.2.1, nofun⟩
  | io i =>
    simp only [step] at hs
    split at hs
    · obtain rfl := Option.some.inj hs
      exact ⟨h.buffer, by simp [Pc.readCount], fun _ => .inl rfl⟩
    · rename_i hpc
      obtain rfl := Option.some.inj hs
      exact Fed.of_not_complete h.buffer rfl (h.not_complete (by rw [hpc]; nofun) (by rw [hpc]; nofun))
    · rename_i hpc
      split at hs
      · cases hs
      · obtain rfl := Option.some.inj hs
        exact Fed.of_not_complete h.buffer rfl (h.not_complete (by rw [hpc]; nofun) (by rw [hpc]; nofun))
    · exact Session.fed_step h hcalm hs

end Server

/-! ### A client -/

namespace Client

def Calm (s : State) : Input → Prop
  | .advance => s.pc = .execute → s.session.Calm .advance
  | .read result => s.session.Calm (.read result)
  | _ => True

instance (s : State) : ∀ i : Input, Decidable (Calm s i)
  | .advance => inferInstanceAs (Decidable (_ → s.session.Calm .advance))
  | .read result => inferInstanceAs (Decidable (s.session.Calm (.read result)))
  | .call .. | .resetFd | .setTimeout _ | .encode .. | .destroy | .connect _ | .write _ | .socket .. | .resume
  | .timer _ | .elsewhere _ => isTrue trivial

/-- While the connection's functions run, the session stands in them; elsewhere there is no
complete frame. -/
structure Fed (s : State) : Prop where
  session : s.session.Fed
  callee : ∀ callee ∈ s.pc.callee, s.session.pc.callee = callee
  outside : s.pc ≠ .input → s.pc ≠ .execute → ¬ Complete s.session.connection.readBuffer.readable

theorem Fed.sessionStep {s : State} {session : Session} {i : Session.Input} (h : Fed s)
    (hpc : s.pc.callee ≠ none) (hcalm : s.session.Calm i) (hs : s.session.step noServer i = some session) :
    Fed {s with session} := by
  have hfed := Session.fed_step h.session hcalm hs
  have hframe := Session.step_frame hs
  refine ⟨hfed, fun callee hc => hframe.callee.trans (h.callee callee hc), fun hinput hexecute => ?_⟩
  -- only `output` is left
  have hcallee : session.pc.callee = .output := by
    apply hframe.callee.trans
    apply h.callee
    cases hs : s.pc with
    | input => exact absurd hs hinput
    | execute => exact absurd hs hexecute
    | output => rfl
    | _ => rw [hs] at hpc; exact absurd rfl hpc
  apply hfed.not_complete
  · intro hp
    rw [hp] at hcallee
    cases hcallee
  · intro hp
    rw [hp] at hcallee
    cases hcallee

/-- A step that touches neither the read buffer nor where the session stands. -/
theorem Fed.of_eq {s t : State} (h : Fed s) (hinput : s.pc ≠ .input) (hexecute : s.pc ≠ .execute)
    (hbuffer : t.session.connection.readBuffer = s.session.connection.readBuffer)
    (hstate : t.session.connection.state = s.session.connection.state ∨
      t.session.connection.state = .connected)
    (hpc : t.session.pc = s.session.pc) (ht : t.pc.callee = none) : Fed t := by
  have hcomplete := hbuffer ▸ h.outside hinput hexecute
  refine ⟨⟨hbuffer ▸ h.session.buffer, fun n hn => ?_, fun hc => absurd hc hcomplete⟩, by simp [ht],
    fun _ _ => hcomplete⟩
  rw [hpc] at hn
  obtain ⟨hcount, hclosed⟩ := h.session.count n hn
  refine ⟨hbuffer ▸ hcount, ?_⟩
  rcases hstate with hstate | hstate
  · rw [hstate]
    exact hclosed
  · rw [hstate]
    nofun

/-- The call goes on with a function of the connection. -/
theorem Fed.enter {s : State} (h : Fed s) (callee : Callee) {pc : Pc} {start : Session.Pc}
    (hpc : pc.callee = some callee) (hstart : start.callee = callee) (hread : start.readCount = none)
    (hcomplete : start = .execute ∨ ¬ Complete s.session.connection.readBuffer.readable) :
    Fed (enter s pc start) := by
  refine ⟨⟨h.session.buffer, by simp [Client.enter, hread], fun hc => ?_⟩, ?_, fun hinput hexecute => ?_⟩
  · exact .inl (hcomplete.resolve_right (not_not_intro hc))
  · intro c hc
    obtain rfl := Option.some.inj (hpc.symm.trans hc)
    exact hstart
  · rcases hcomplete with rfl | hcomplete
    · -- `execute` is run only in its own place
      obtain rfl : callee = .execute := hstart.symm
      cases pc with
      | execute => exact absurd rfl hexecute
      | _ => cases hpc
    · exact hcomplete

theorem Fed.asleep {s : State} (h : Fed s) (hasleep : isAsleep s = true) :
    ¬ Complete s.session.connection.readBuffer.readable := by
  unfold isAsleep at hasleep
  split at hasleep
  · rename_i hpc
    exact h.outside (by rw [hpc]; nofun) (by rw [hpc]; nofun)
  · rename_i hpc _
    exact h.outside (by rw [hpc]; nofun) (by rw [hpc]; nofun)
  · rename_i hpc
    exact h.session.not_complete (by rw [hpc]; nofun) (by rw [hpc]; nofun)
  · rename_i hpc
    exact h.session.not_complete (by rw [hpc]; nofun) (by rw [hpc]; nofun)
  · cases hasleep

theorem Fed.resume {s : State} (h : Fed s) (hasleep : isAsleep s = true) : Fed (resume s) := by
  rcases resume_cases hasleep with ⟨-, heq⟩ | ⟨-, hpc, heq⟩ | ⟨-, hpc, session, hs, heq⟩
  · rw [heq]
    exact h
  · rw [heq]
    exact h.of_eq (by rw [hpc]; nofun) (by rw [hpc]; nofun) rfl (.inl rfl) rfl rfl
  · rw [heq]
    refine h.sessionStep (i := .resume) ?_ trivial hs
    rcases hpc with hpc | hpc <;> rw [hpc] <;> nofun

/-- The flag is set while the coroutine sleeps. -/
theorem Fed.setOverTimeFlag {s : State} (h : Fed s) (value : Bool)
    (hcomplete : ¬ Complete s.session.connection.readBuffer.readable) : Fed (setOverTimeFlag s value) :=
  ⟨⟨h.session.buffer, h.session.count, fun hc => absurd hc hcomplete⟩, h.callee, fun _ _ => hcomplete⟩

theorem fed_connectFailed {settings : Settings} {s : State} (h : Fed s) (hpc : s.pc = .connectFailed) :
    Fed (connectFailed settings s) := by
  unfold connectFailed
  split
  · exact h.of_eq (by rw [hpc]; nofun) (by rw [hpc]; nofun) rfl (.inl rfl) rfl rfl
  split
  · exact h.of_eq (by rw [hpc]; nofun) (by rw [hpc]; nofun) rfl (.inl rfl) rfl rfl
  split
  · exact h.of_eq (by rw [hpc]; nofun) (by rw [hpc]; nofun) rfl (.inl rfl) rfl rfl
  · exact h.of_eq (by rw [hpc]; nofun) (by rw [hpc]; nofun) rfl (.inl rfl) rfl rfl

theorem fed_connected {settings : Settings} {s : State} (h : Fed s) (hpc : s.pc = .connected) :
    Fed (connected settings s) := by
  unfold connected
  split
  · exact h.of_eq (by rw [hpc]; nofun) (by rw [hpc]; nofun) rfl (.inl rfl) rfl rfl
  · have hcomplete := h.outside (by rw [hpc]; nofun) (by rw [hpc]; nofun)
    have hstate : Fed (setState s .connected) :=
      h.of_eq (by rw [hpc]; nofun) (by rw [hpc]; nofun) rfl (.inr rfl) rfl (by rw [setState, hpc]; rfl)
    exact hstate.enter .output rfl rfl rfl (.inr hcomplete)

theorem fed_find {s : State} (h : Fed s) (hpc : s.pc = .find) : Fed (find s) := by
  have hcomplete := h.outside (by rw [hpc]; nofun) (by rw [hpc]; nofun)
  unfold find
  split
  · rename_i res connection hres
    obtain ⟨pbStruct, -, heq⟩ := Option.map_eq_some_iff.mp hres
    obtain ⟨rfl, rfl⟩ := Prod.mk.inj heq
    exact h.of_eq (by rw [hpc]; nofun) (by rw [hpc]; nofun) rfl (.inl rfl) rfl rfl
  · exact h.enter .input rfl rfl rfl (.inr hcomplete)

theorem fed_checkInput {s : State} {callee : Callee} (h : Fed s) (hpc : s.session.pc = .returned callee) :
    Fed (checkInput s) := by
  have hpassed : s.session.connection.isOverTime = true ∨ s.session.connection.state = .closed →
      ¬ Complete s.session.connection.readBuffer.readable := by
    intro hcut hcomplete
    rcases h.session.passed hcomplete with hexecute | ⟨-, hover, hopen⟩
    · rw [hpc] at hexecute
      cases hexecute
    · rcases hcut with hcut | hcut
      · rw [hover] at hcut
        cases hcut
      · exact hopen hcut
  unfold checkInput
  split
  · exact ⟨h.session, nofun, fun _ _ => hpassed (.inl ‹_›)⟩
  split
  · exact ⟨h.session, nofun, fun _ _ => hpassed (.inr ‹_›)⟩
  · exact h.enter .execute rfl rfl rfl (.inl rfl)

theorem fed_checkOutput {s : State} (h : Fed s) (hpc : s.pc = .output) : Fed (checkOutput s) := by
  have hcomplete := h.outside (by rw [hpc]; nofun) (by rw [hpc]; nofun)
  unfold checkOutput
  split
  · exact ⟨h.session, nofun, fun _ _ => hcomplete⟩
  · exact ⟨h.session, nofun, fun _ _ => hcomplete⟩

theorem fed_failed {settings : Settings} {s : State} (h : Fed s)
    (hcomplete : ¬ Complete s.session.connection.readBuffer.readable) : Fed (failed settings s) := by
  unfold failed
  split
  · have hflag := h.setOverTimeFlag false hcomplete
    exact ⟨hflag.session, nofun, fun _ _ => hcomplete⟩
  · exact ⟨h.session, nofun, fun _ _ => hcomplete⟩

/-- **One step of a client** that passes no frame by. -/
theorem fed_step {settings : Settings} {s t : State} {i : Input} (h : Fed s) (hcalm : Calm s i)
    (hs : step settings s i = some t) : Fed t := by
  cases step_moves hs with
  | timer => exact ⟨h.session, h.callee, h.outside⟩
  | fireOther => exact ⟨h.session, h.callee, h.outside⟩
  | @fireRpc rest htasks hasleep =>
    have hcomplete := h.asleep hasleep
    have hstate : Fed {s with timer := {s.timer with tasks := rest}, isTimeout := true} :=
      ⟨h.session, h.callee, h.outside⟩
    exact (hstate.setOverTimeFlag true hcomplete).resume hasleep
  | @fireConnect rest htasks hpc =>
    have hstate : Fed {s with timer := {s.timer with tasks := rest}, connectTimeout := true} :=
      ⟨h.session, h.callee, h.outside⟩
    exact hstate.resume (asleep_of_connectWait hpc)
  | elsewhere =>
    exact ⟨⟨h.session.buffer, h.session.count, h.session.passed⟩, h.callee, h.outside⟩
  | call msgNo isMain hpc =>
    exact h.of_eq (by rw [hpc]; nofun) (by rw [hpc]; nofun) rfl (.inl rfl) rfl rfl
  | callResetFd hpc => exact h.of_eq (by rw [hpc]; nofun) (by rw [hpc]; nofun) rfl (.inl rfl) rfl rfl
  | setTimeout v hpc => exact ⟨h.session, h.callee, h.outside⟩
  | encode writeBuffer hpc =>
    exact ⟨⟨h.session.buffer, h.session.count, h.session.passed⟩, h.callee, h.outside⟩
  | destroy hpc =>
    refine h.of_eq (by rw [hpc]; nofun) (by rw [hpc]; nofun) ?_ (.inl ?_) ?_ rfl
    · dsimp only
      split <;> rfl
    · dsimp only
      split <;> rfl
    · dsimp only
      split <;> rfl
  | leaveLoop hpc => exact h.of_eq (by rw [hpc]; nofun) (by rw [hpc]; nofun) rfl (.inl rfl) rfl rfl
  | connectNext hpc => exact h.of_eq (by rw [hpc]; nofun) (by rw [hpc]; nofun) rfl (.inl rfl) rfl rfl
  | connectResumed hpc => exact h.of_eq (by rw [hpc]; nofun) (by rw [hpc]; nofun) rfl (.inl rfl) rfl rfl
  | closeFd hfd hpc =>
    rcases hpc with ⟨inCall, hpc, rfl⟩ | ⟨hpc, rfl⟩
    · exact h.of_eq (by rw [hpc]; nofun) (by rw [hpc]; nofun) rfl (.inl rfl) rfl rfl
    · exact h.of_eq (by rw [hpc]; nofun) (by rw [hpc]; nofun) rfl (.inl rfl) rfl rfl
  | connectFailed hpc => exact fed_connectFailed h hpc
  | connected hpc => exact fed_connected h hpc
  | checkOutput hpc => exact fed_checkOutput h hpc
  | find hpc => exact fed_find h hpc
  | checkInput hpc hreturned => exact fed_checkInput h hreturned
  | executed hpc hreturned =>
    refine ⟨h.session, nofun, fun _ _ => h.session.not_complete (by rw [hreturned]; nofun) ?_⟩
    -- `execute` does not return for `input`
    intro hinput
    have hcallee := h.callee .execute (by rw [hpc]; rfl)
    rw [hinput] at hcallee
    cases hcallee
  | @advance callee session hpc hsession =>
    refine h.sessionStep (by rw [hpc]; nofun) ?_ hsession
    intro hexecute
    refine hcalm ?_ hexecute
    have hcallee := h.callee callee hpc
    rw [hexecute] at hcallee
    obtain rfl : callee = .execute := hcallee.symm
    cases hs : s.pc with
    | execute => rfl
    | _ => rw [hs] at hpc; cases hpc
  | read hpc hsession => exact h.sessionStep (by rw [hpc]; nofun) hcalm hsession
  | @write result session hpc hsession =>
    exact h.sessionStep (i := .write result) (by rw [hpc]; nofun) trivial hsession
  | connectDone hpc =>
    rcases hpc with hpc | hpc
    · exact h.of_eq (by rw [hpc]; nofun) (by rw [hpc]; nofun) rfl (.inr rfl) rfl rfl
    · exact h.of_eq (by rw [hpc]; nofun) (by rw [hpc]; nofun) rfl (.inr rfl) rfl rfl
  | connectError errno hpc =>
    rcases hpc with hpc | hpc
    · exact h.of_eq (by rw [hpc]; nofun) (by rw [hpc]; nofun) rfl (.inl rfl) rfl rfl
    · exact h.of_eq (by rw [hpc]; nofun) (by rw [hpc]; nofun) rfl (.inl rfl) rfl rfl
  | connectWaits errno hpc => exact h.of_eq (by rw [hpc]; nofun) (by rw [hpc]; nofun) rfl (.inl rfl) rfl rfl
  | @resetSocket fd errno inCall descriptors hpc =>
    refine h.of_eq (by rw [hpc]; nofun) (by rw [hpc]; nofun) rfl (.inl rfl) rfl ?_
    cases inCall <;> rfl
  | errSocket hpc =>
    have hcomplete := h.outside (by rw [hpc]; nofun) (by rw [hpc]; nofun)
    refine fed_failed ⟨⟨h.session.buffer, h.session.count, h.session.passed⟩, h.callee, h.outside⟩ hcomplete
  | resume hasleep => exact h.resume hasleep

theorem fed_initial (settings : Settings) (fd : Int) : Fed (initial settings fd) := by
  have hsession := Session.fed_of_make (s := (initial settings fd).session) (by decide : (0 : Int) ≤ 128)
    (by decide) rfl rfl
  exact ⟨hsession, nofun, fun _ _ => hsession.not_complete nofun nofun⟩

end Client

/-- **A connection does not sleep on a complete frame**, as long as no frame is passed by. -/
theorem awake_of_calm (dispatch : RpcStruct → TcpBuffer → Option (TcpBuffer × RunTime)) (fd buffSize : Int)
    (is : List Server.Input) (settings : Client.Settings) (clientFd : Int) (js : List Client.Input) :
    (0 ≤ buffSize → buffSize < 2 ^ 31 →
      Meets (Server.step dispatch) Server.Calm (Server.initial fd buffSize) is →
        Always (Server.step dispatch) Session.Awake (Server.initial fd buffSize) is) ∧
    (Meets (Client.step settings) Client.Calm (Client.initial settings clientFd) js →
      Always (Client.step settings) (fun s => s.pc = .input → s.session.Awake)
        (Client.initial settings clientFd) js) := by
  constructor
  · intro hsize hint hcalm
    have hfed := Session.fed_of_make (s := Server.initial fd buffSize) hsize hint rfl rfl
    exact (always_of_step (fun _ _ _ h hc hs => Server.fed_step h hc hs) hfed hcalm).imp
      fun _ h => h.awake
  · intro hcalm
    exact (always_of_step (fun _ _ _ h hc hs => Client.fed_step h hc hs)
      (Client.fed_initial settings clientFd) hcalm).imp fun _ h _ => h.session.awake

/-- A request whose frame has 128 bytes. -/
def filling : RpcFields :=
  {msgNo := [0x31], serviceName := [0x41], methodName := [0x42], pbData := List.replicate 98 0}

theorem filling_sendable : Sendable filling :=
  ⟨by decide, by decide, by decide, by decide, by decide +kernel⟩

/-- A request in two reads, of which the first fills the buffer of 20 bytes, and the answer. -/
def greetingServed : List Server.Input :=
  List.flatten [[.io .advance, .io (.read (.data ((frame greeting).take 20))),
    .io (.read (.data ((frame greeting).drop 20)))], List.replicate 5 (.io .advance),
    [.io (.write (.sent 32)), .io .advance, .io .advance, .io (.read .error)]]

/-- A reply of 138 bytes in two reads, of which the first fills the buffer of a new client. -/
def replyTaken : List Client.Input :=
  let reply := frame {filling with pbData := List.replicate 108 0}
  List.flatten [[.call filling.msgNo false, .advance, .connect .ok], List.replicate 5 .advance,
    [.read (.data (reply.take 128)), .read (.data (reply.drop 128))], List.replicate 5 .advance]

theorem awake_of_calm_greeting :
    (∃ t, run (Server.step (dispatch echo [])) (Server.initial 7 20) greetingServed = some t ∧ t.pc = .readWait 40) ∧
      Always (Server.step (dispatch echo [])) Session.Awake (Server.initial 7 20) greetingServed ∧
      Always (Client.step ⟨"127.0.0.1:1", fun _ => "", 10, fun n => n⟩) (fun s => s.pc = .input → s.session.Awake)
        (Client.initial ⟨"127.0.0.1:1", fun _ => "", 10, fun n => n⟩ 5) replyTaken := by
  have hlast : (run (Server.step (dispatch echo [])) (Server.initial 7 20) greetingServed).map Session.pc =
      some (.readWait 40) := by
    decide +kernel
  obtain ⟨hserver, hclient⟩ := awake_of_calm (dispatch echo []) 7 20 greetingServed
    ⟨"127.0.0.1:1", fun _ => "", 10, fun n => n⟩ 5 replyTaken
  exact ⟨Option.map_eq_some_iff.mp hlast, hserver (by decide) (by decide) (by decide +kernel),
    hclient (by decide +kernel)⟩

/-- A request that fills the buffer of a new connection: the server reads on, finds nothing and
sleeps. -/
theorem not_awake_filling : ¬ ∀ is : List Server.Input,
    Always (Server.step (dispatch echo [])) Session.Awake (Server.initial 7 128) is := by
  intro h
  have hrun := h [.io .advance, .io (.read (.data (frame filling))), .io (.read .error)]
  have hlast : (run (Server.step (dispatch echo [])) (Server.initial 7 128)
      [.io .advance, .io (.read (.data (frame filling))), .io (.read .error)]).map
        (fun s => (s.pc, s.connection.readBuffer.readable)) = some (.readWait 128, frame filling) := by
    decide +kernel
  obtain ⟨u, hu, heq⟩ := Option.map_eq_some_iff.mp hlast
  obtain ⟨hpc, hreadable⟩ := Prod.mk.inj heq
  exact hrun.last hu 128 hpc ⟨filling, filling_sendable, hreadable ▸ List.prefix_rfl⟩

end CoroutineRpc.Net.Tcp
