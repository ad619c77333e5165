import CoroutineRpc.Net.Http.HttpServlet
import CoroutineRpc.Net.Tcp.Undecoded

/-! A connection of a server that speaks HTTP.

`input` and `output` do not know the protocol and are those of `Session`; `execute` decodes
`HttpRequest`s and gives them to the dispatcher. -/
namespace CoroutineRpc.Net.Http.Connection
open Net.Tcp TcpBuffer Session Library.Transition

section
-- what the dispatcher does with a request and the write buffer
variable (dispatch : HttpRequest → TcpBuffer → Option (TcpBuffer × Rpc.RunTime))

/-- The body of the loop of `execute`, or its end. A client has no use for a request. -/
def decodeNext (s : Session) : Option Session := do
  if s.connection.readBuffer.readAble > 0 then
    let out ← decode s.connection.readBuffer {}
    let s := s.setReadBuffer out.buffer
    if ¬ out.request.decodeSucc then pure (s.returns .execute)
    else
      match s.connection.connectionType with
      | .serverConnection =>
        let (writeBuffer, _) ← dispatch out.request s.connection.writeBuffer
        pure (s.setWriteBuffer writeBuffer)
      | .clientConnection => pure s
  else pure (s.returns .execute)

/-- A step of the function that the connection is in. The time wheel may shut it down meanwhile. -/
def callStep (s : Session) : Server.Input → Option Session
  | .shutdown => some {s with connection := s.connection.shutdownConnection}
  | .io i =>
    match s.pc, i with
    | .execute, .advance => decodeNext dispatch s
    | _, i => s.step (fun _ _ => none) i

/-- `MainServerLoopCorFunc`. -/
def step (s : Session) (i : Server.Input) : Option Session :=
  match s.pc, i with
  | .returned .input, .io .advance => some {s with pc := .execute}
  | .returned .execute, .io .advance => some {s with pc := .output}
  | .returned .output, .io .advance => if s.connection.stop then none else some {s with pc := .input}
  | _, i => callStep dispatch s i

end

variable {dispatch : HttpRequest → TcpBuffer → Option (TcpBuffer × Rpc.RunTime)}

/-! ### What a step can do -/

/-- The loop of `execute` decodes one request more, or ends. -/
theorem decodeNext_cases {s t : Session} (h : decodeNext dispatch s = some t) :
    t = s.returns .execute ∧ ¬ s.connection.readBuffer.readAble > 0 ∨
      ∃ out, s.connection.readBuffer.readAble > 0 ∧ decode s.connection.readBuffer {} = some out ∧
        (out.request.decodeSucc = false ∧ t = (s.setReadBuffer out.buffer).returns .execute ∨
          out.request.decodeSucc = true ∧
            ∃ writeBuffer, t = (s.setReadBuffer out.buffer).setWriteBuffer writeBuffer) := by
  unfold decodeNext at h
  split at h
  swap
  · exact .inl ⟨(Option.some.inj h).symm, ‹_›⟩
  rename_i hreadable
  simp only [Option.bind_eq_bind, Option.bind_eq_some_iff, Option.pure_def] at h
  obtain ⟨out, hout, h⟩ := h
  refine .inr ⟨out, hreadable, hout, ?_⟩
  split at h
  · rename_i hsucc
    exact .inl ⟨Bool.not_eq_true _ ▸ hsucc, (Option.some.inj h).symm⟩
  rename_i hsucc
  rw [not_not] at hsucc
  refine .inr ⟨hsucc, ?_⟩
  split at h
  · obtain ⟨r, -, h⟩ := Option.bind_eq_some_iff.mp h
    exact ⟨r.1, (Option.some.inj h).symm⟩
  · exact ⟨s.connection.writeBuffer, (Option.some.inj h).symm⟩

theorem callStep_cases {s t : Session} {i : Server.Input} (h : callStep dispatch s i = some t) :
    i = .shutdown ∧ t = {s with connection := s.connection.shutdownConnection} ∨
      s.pc = .execute ∧ i = .io .advance ∧ decodeNext dispatch s = some t ∨
      ∃ j, i = .io j ∧ s.pc.callee ≠ .execute ∧ s.step (fun _ _ => none) j = some t := by
  cases i with
  | shutdown => exact .inl ⟨rfl, (Option.some.inj h).symm⟩
  | io j =>
    simp only [callStep] at h
    split at h
    · exact .inr (.inl ⟨‹_›, rfl, h⟩)
    · rename_i hnot
      refine .inr (.inr ⟨_, rfl, fun hcallee => ?_, h⟩)
      obtain ⟨hpc, hj, -⟩ := step_execute hcallee h
      exact hnot hpc hj

/-- A step of `output` enters it, is behind a write, or only moves on. -/
theorem output_cases {rpc : Rpc.RpcStruct → TcpBuffer → Option (TcpBuffer × Rpc.RunTime)} {s t : Session}
    {i : Session.Input} (hs : s.pc.callee = .output) (h : s.step rpc i = some t) :
    t = s.enterOutput ∨ (∃ n result, s.writeReturns n result = some t) ∨ ∃ pc, t = {s with pc} := by
  unfold Session.step at h
  split at h
  case h_7 => exact .inl (Option.some.inj h).symm
  case h_8 =>
    split at h
    · exact .inr (.inr ⟨_, (Option.some.inj h).symm⟩)
    · exact .inr (.inl ⟨_, _, h⟩)
  case h_9 =>
    rename_i n _
    refine .inr (.inr ⟨(s.resume (.writeAgain n)).pc, (Option.some.inj h).symm.trans ?_⟩)
    unfold resume
    split <;> rfl
  case h_10 => exact .inr (.inl ⟨_, _, h⟩)
  all_goals
    rename_i hpc
    first
    | rw [hpc] at hs; cases hs
    | cases h

theorem step_cases {s t : Session} {i : Server.Input} (h : step dispatch s i = some t) :
    callStep dispatch s i = some t ∨ ∃ callee pc, s.pc = .returned callee ∧
      pc.readCount = none ∧ t = {s with pc} := by
  unfold step at h
  split at h
  · exact .inr ⟨_, _, ‹_›, rfl, (Option.some.inj h).symm⟩
  · exact .inr ⟨_, _, ‹_›, rfl, (Option.some.inj h).symm⟩
  · split at h
    · cases h
    · exact .inr ⟨_, _, ‹_›, rfl, (Option.some.inj h).symm⟩
  · exact .inl h

/-! ### Buffers -/

/-- A connection as a server has it: its reads fit the space they were asked to fill. -/
structure Serving (s : Session) : Prop where
  buffer : WellFormed s.connection.readBuffer
  count : ∀ n ∈ s.pc.readCount, n = s.connection.readBuffer.writeAble
  state : s.connection.state ≠ .notConnected

theorem Serving.of_eq {s t : Session} (h : Serving s) (hbuffer : t.connection.readBuffer = s.connection.readBuffer)
    (hcount : t.pc.readCount = none ∨ t.pc.readCount = s.pc.readCount)
    (hstate : t.connection.state ≠ .notConnected) : Serving t where
  buffer := hbuffer ▸ h.buffer
  count n hn := by
    rcases hcount with hcount | hcount <;> rw [hcount] at hn
    · cases hn
    · rw [hbuffer]
      exact h.count n hn
  state := hstate

/-- The read buffer grows at its end, and the write buffer is left alone. -/
structure Reads (s t : Session) : Prop where
  serving : Serving t
  read : s.connection.readBuffer.readable <+: t.connection.readBuffer.readable
  write : t.connection.writeBuffer = s.connection.writeBuffer

theorem nextRead_reads {s t : Session} (hbuffer : WellFormed s.connection.readBuffer)
    (hstate : s.connection.state ≠ .notConnected) (h : s.nextRead = some t) : Reads s t := by
  obtain ⟨readBuffer, hroom, rfl⟩ := nextRead_some h
  obtain ⟨hwf, hreadable⟩ := makeRoom_spec hbuffer hroom
  refine ⟨⟨hwf, fun n hn => (Option.some.inj hn).symm, hstate⟩, ?_, rfl⟩
  show _ <+: readBuffer.readable
  rw [hreadable]

theorem closePath_reads {s : Session} (h : Serving s) : Reads s s.closePath := by
  have hclear : s.clearClient.connection.readBuffer = s.connection.readBuffer ∧
      s.clearClient.connection.writeBuffer = s.connection.writeBuffer ∧
      s.clearClient.connection.state ≠ .notConnected := by
    unfold clearClient
    split
    · exact ⟨rfl, rfl, h.state⟩
    · exact ⟨rfl, rfl, nofun⟩
  have hconnection : s.closePath.connection = s.clearClient.connection := by
    simp only [closePath]
    split <;> rfl
  have hcount : s.closePath.pc.readCount = none := by
    rw [closePath_pc]
    split <;> rfl
  refine ⟨h.of_eq (hconnection ▸ hclear.1) (.inl hcount) (hconnection ▸ hclear.2.2), ?_, hconnection ▸ hclear.2.1⟩
  rw [hconnection, hclear.1]

theorem readReturns_reads {s t : Session} (h : Serving s) {n : Int} (hn : s.pc.readCount = some n)
    {result : ReadResult} (hs : s.readReturns n result = some t) : Reads s t := by
  rcases readResult_cases result with hresult | ⟨bytes, rfl⟩
  · rcases readReturns_other hresult hs with ⟨-, rfl⟩ | ⟨-, rfl⟩
    · exact ⟨h.of_eq rfl (.inl rfl) h.state, List.prefix_refl _, rfl⟩
    · exact closePath_reads h
  · obtain ⟨-, hle, readBuffer, hreceived, hrest⟩ := readReturns_data hs
    obtain ⟨b, hb, hwf, hreadable⟩ := received_spec h.buffer (h.count n hn ▸ hle)
    obtain rfl := Option.some.inj (hreceived.symm.trans hb)
    have hgrows : s.connection.readBuffer.readable <+: readBuffer.readable :=
      hreadable ▸ List.prefix_append _ bytes
    rcases hrest with ⟨rfl, -⟩ | ⟨hnext, -, -⟩
    · exact ⟨⟨hwf, by simp [returns, Pc.readCount], h.state⟩, hgrows, rfl⟩
    · have hreads := nextRead_reads (s := s.setReadBuffer readBuffer) hwf h.state hnext
      exact ⟨hreads.serving, hgrows.trans hreads.read, hreads.write⟩

/-- **A step of `input`** only appends to the read buffer. -/
theorem input_reads {rpc : Rpc.RpcStruct → TcpBuffer → Option (TcpBuffer × Rpc.RunTime)} {s t : Session}
    {i : Session.Input} (h : Serving s) (hcallee : s.pc.callee = .input) (hs : s.step rpc i = some t) :
    Reads s t := by
  have hresume : ∀ pc, pc.readCount = none ∨ pc.readCount = s.pc.readCount → Reads s (s.resume pc) := by
    intro pc hpc
    unfold resume
    split
    · exact ⟨h.of_eq rfl hpc h.state, List.prefix_refl _, rfl⟩
    · exact ⟨h, List.prefix_refl _, rfl⟩
  rcases step_input hcallee hs with ⟨hpc, -, henter⟩ | ⟨n, result, hpc, rfl, hread⟩ | ⟨n, hpc, -, rfl⟩ |
    ⟨n, hpc, -, rfl⟩ | ⟨hpc, -, rfl⟩
  · rcases enterInput_cases henter with ⟨rfl, -⟩ | ⟨-, -, hnext⟩
    · exact ⟨h.of_eq rfl (.inl rfl) h.state, List.prefix_refl _, rfl⟩
    · exact nextRead_reads h.buffer h.state hnext
  · refine readReturns_reads h ?_ hread
    rcases hpc with hpc | ⟨hpc, -⟩ <;> rw [hpc] <;> rfl
  · exact ⟨h.of_eq rfl (.inr (by rw [hpc]; rfl)) h.state, List.prefix_refl _, rfl⟩
  · exact hresume _ (.inr (by rw [hpc]; rfl))
  · exact hresume _ (.inl rfl)

theorem shutdownConnection_keeps (c : TcpConnection) : c.shutdownConnection.readBuffer = c.readBuffer ∧
    c.shutdownConnection.writeBuffer = c.writeBuffer ∧ c.shutdownConnection.stop = c.stop ∧
    (c.state ≠ .notConnected → c.shutdownConnection.state = .halfClosing ∨ c.shutdownConnection.state = .closed) := by
  unfold TcpConnection.shutdownConnection
  split
  · rename_i hstate
    exact ⟨rfl, rfl, rfl, fun hne => .inr (hstate.resolve_right hne)⟩
  · exact ⟨rfl, rfl, rfl, fun _ => .inl rfl⟩

theorem shutdown_serving {s : Session} (h : Serving s) :
    Serving {s with connection := s.connection.shutdownConnection} := by
  obtain ⟨hread, -, -, hstate⟩ := shutdownConnection_keeps s.connection
  refine h.of_eq hread (.inr rfl) ?_
  rcases hstate h.state with hstate | hstate <;> rw [hstate] <;> nofun

theorem output_serving {rpc : Rpc.RpcStruct → TcpBuffer → Option (TcpBuffer × Rpc.RunTime)} {s t : Session}
    {i : Session.Input} (h : Serving s) (hcallee : s.pc.callee = .output) (hs : s.step rpc i = some t) :
    Serving t := by
  have hwrites := step_output hcallee hs
  refine h.of_eq hwrites.readBuffer (.inl ?_) (hwrites.state ▸ h.state)
  have hcallee' := hwrites.callee.trans hcallee
  cases hpc : t.pc with
  | read n => rw [hpc] at hcallee'; cases hcallee'
  | readWait n => rw [hpc] at hcallee'; cases hcallee'
  | readAgain n => rw [hpc] at hcallee'; cases hcallee'
  | _ => rfl

theorem decode_wellFormed {b : TcpBuffer} (h : WellFormed b) {request : HttpRequest} {out : Decoded}
    (hout : decode b request = some out) : WellFormed out.buffer := by
  cases hsucc : out.request.decodeSucc with
  | false => exact decode_failed hout hsucc ▸ h
  | true =>
    obtain ⟨parsed, total, hjudge, -⟩ := decode_accepted h hout hsucc
    obtain ⟨b', hb', hwf, -⟩ := decode_taken h hjudge
    exact Option.some.inj (hb'.symm.trans hout) ▸ hwf

theorem decodeNext_serving {s t : Session} (h : Serving s) (hpc : s.pc = .execute)
    (hs : decodeNext dispatch s = some t) : Serving t := by
  have hcount : s.pc.readCount = none := by rw [hpc]; rfl
  rcases decodeNext_cases hs with ⟨rfl, -⟩ | ⟨out, -, hout, ⟨-, rfl⟩ | ⟨-, writeBuffer, rfl⟩⟩
  · exact h.of_eq rfl (.inl rfl) h.state
  · exact ⟨decode_wellFormed h.buffer hout, by simp [returns, Pc.readCount], h.state⟩
  · exact ⟨decode_wellFormed h.buffer hout, fun n hn => (by cases hcount.symm.trans hn), h.state⟩

theorem callStep_serving {s t : Session} {i : Server.Input} (h : Serving s)
    (hs : callStep dispatch s i = some t) : Serving t := by
  rcases callStep_cases hs with ⟨-, rfl⟩ | ⟨hpc, -, hnext⟩ | ⟨j, -, hcallee, hstep⟩
  · exact shutdown_serving h
  · exact decodeNext_serving h hpc hnext
  · cases hc : s.pc.callee with
    | input => exact (input_reads h hc hstep).serving
    | execute => exact absurd hc hcallee
    | output => exact output_serving h hc hstep

theorem step_serving {s t : Session} {i : Server.Input} (h : Serving s) (hs : step dispatch s i = some t) :
    Serving t := by
  rcases step_cases hs with hcall | ⟨callee, pc, -, hcount, rfl⟩
  · exact callStep_serving h hcall
  · exact h.of_eq rfl (.inl hcount) h.state

theorem initial_serving (fd : Int) {buffSize : Int} (hsize : 0 ≤ buffSize) (hint : buffSize < 2 ^ 31) :
    Serving (Server.initial fd buffSize) where
  buffer := make_wellFormed buffSize hsize hint
  count := by simp [Server.initial, Pc.readCount]
  state := nofun

/-- **A server's connection stays one** in every run. -/
theorem run_serving {s t : Session} {inputs : List Server.Input} (h : Serving s)
    (hrun : run (step dispatch) s inputs = some t) : Serving t :=
  (always_of_inductive (fun _ _ _ hs hstep => step_serving hs hstep) h inputs).last hrun

end CoroutineRpc.Net.Http.Connection
