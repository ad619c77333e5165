import CoroutineRpc.Net.Http.Connection

/-! Requests that cannot be completed.

There are bytes that begin no request: a method that is not known, a head that is refused.
`decode` says so in the log and takes nothing, `execute` takes that for a request that is
not complete yet, and `output` has nothing to write. Unless the connection is going down
anyway, the next read is made behind the same bytes (`progress_iff`), and so on for good
(`wedged`). -/
namespace CoroutineRpc.Net.Http
open Net.Tcp TcpBuffer Library.Search Library.Transition

/-! ### Bytes that begin no request -/

/-- `decode` accepts these bytes in no buffer, whatever follows them. -/
def Malformed (bytes : Bytes) : Prop :=
  ∀ (b : TcpBuffer) (out : Decoded), WellFormed b → bytes <+: b.readable → decode b {} = some out →
    out.request.decodeSucc = false

theorem Malformed.append {bytes longer : Bytes} (h : Malformed bytes) (hpre : bytes <+: longer) :
    Malformed longer := fun b out hb hlonger hout => h b out hb (hpre.trans hlonger) hout

/-- What is refused is refused whatever follows. -/
theorem judge_reject_append {request parsed : HttpRequest} {bytes : Bytes} {e : DecodeError}
    (h : judge request bytes = (parsed, .reject e)) (more : Bytes) :
    judge request (bytes ++ more) = (parsed, .reject e) := by
  unfold judge at h
  split at h
  · rename_i a n hline hheader
    have hline' := find_append hline more
    have hheader' := find_append hheader more
    split at h
    · rename_i hboundary
      simp only [judge, hline', hheader', if_pos hboundary]
      exact h
    rename_i hboundary
    have hle := find_le hline
    have hle' := find_le hheader
    have hcrlf : kHttpCrlf.length = 2 := by decide
    have hend : kHttpHeaderEnd.length = 4 := by decide
    have htake : (bytes ++ more).take a = bytes.take a := List.take_append_of_le_length (by omega)
    have hdrop : ((bytes ++ more).drop (a + kHttpCrlf.length)).take (n - (a + kHttpCrlf.length)) =
        (bytes.drop (a + kHttpCrlf.length)).take (n - (a + kHttpCrlf.length)) := by
      rw [List.drop_append_of_le_length (by omega), List.take_append_of_le_length]
      rw [List.length_drop]
      omega
    simp only [judge, hline', hheader', if_neg hboundary, htake, hdrop]
    dsimp only at h
    split at h
    · exact h
    · split at h
      · cases h
      · cases h
  · cases h

theorem malformed_of_reject {bytes : Bytes} {parsed : HttpRequest} {e : DecodeError}
    (h : judge {} bytes = (parsed, .reject e)) : Malformed bytes := by
  rintro b out hb ⟨more, hmore⟩ hout
  by_contra hsucc
  obtain ⟨parsed', total, hjudge, -⟩ := decode_accepted hb hout (Bool.not_eq_false _ ▸ hsucc)
  rw [← hmore, judge_reject_append h more] at hjudge
  cases hjudge

/-! ### One pass through `execute` and `output` -/

/-- The loop ends, or `shutdown` or `close` was called. -/
def Stopping (c : TcpConnection) : Prop := c.stop = true ∨ c.state = .halfClosing ∨ c.state = .closed

instance (c : TcpConnection) : Decidable (Stopping c) := inferInstanceAs (Decidable (_ ∨ _))

/-- Between `s` and `u` there is `execute`, between `u` and `t` there is `output`: a byte was
consumed, or a response queued, or the connection is going down. -/
def Progress (s u t : Session) : Prop :=
  t.connection.readBuffer.readAble < s.connection.readBuffer.readAble ∨
    (∃ response, response ≠ [] ∧
      u.connection.writeBuffer.readable = s.connection.writeBuffer.readable ++ response) ∨
    Stopping t.connection

namespace Connection
variable {dispatch : HttpRequest → TcpBuffer → Option (TcpBuffer × Rpc.RunTime)}

/-- What such a pass does in front of a malformed request. -/
structure Passes (s t : Session) (shut : Prop) : Prop where
  serving : Serving t
  callee : t.pc.callee = s.pc.callee
  readBuffer : t.connection.readBuffer = s.connection.readBuffer
  writeBuffer : s.pc.callee = .execute → t.connection.writeBuffer = s.connection.writeBuffer
  stopping : Stopping t.connection ↔ Stopping s.connection ∨ shut

/-- `execute` leaves its loop, and both buffers; the dispatcher is not asked. -/
theorem decodeNext_malformed {s : Session} (hbuffer : WellFormed s.connection.readBuffer)
    (hm : Malformed s.connection.readBuffer.readable) : decodeNext dispatch s = some (s.returns .execute) := by
  have hleft : ∀ total, (judge {} s.connection.readBuffer.readable).2 ≠ .accept total := by
    intro total hverdict
    obtain ⟨b', hb', -⟩ := @decode_taken _ hbuffer {} _ total (Prod.ext rfl hverdict)
    cases hm _ _ hbuffer (List.prefix_refl _) hb'
  obtain ⟨parsed, e, hdecode, hfailed⟩ := @decode_left _ hbuffer {} hleft
  unfold decodeNext
  split
  · simp only [hdecode, hfailed, Option.bind_eq_bind, Option.bind_some, Option.pure_def]
    rfl
  · rfl

/-- `output` does not look at `stop`, nor does it set it. -/
theorem output_stop {rpc : Rpc.RpcStruct → TcpBuffer → Option (TcpBuffer × Rpc.RunTime)} {s t : Session}
    {i : Session.Input} (hcallee : s.pc.callee = .output) (hs : s.step rpc i = some t) :
    t.connection.stop = s.connection.stop := by
  have hnext : ∀ u : Session, u.nextWrite.connection = u.connection := by
    intro u
    unfold Session.nextWrite
    split
    · rfl
    · split <;> rfl
  have hwritten : ∀ u : Session, u.written.connection = u.connection := by
    intro u
    unfold Session.written
    split
    · rfl
    · split
      · rfl
      · exact hnext u
  rcases output_cases hcallee hs with rfl | ⟨n, result, hwrite⟩ | ⟨pc, rfl⟩
  · unfold Session.enterOutput
    split
    · rfl
    · rw [hnext]
  · obtain ⟨writeBuffer, rfl⟩ := Session.writeReturns_written hwrite
    rw [hwritten]
    rfl
  · rfl

theorem shutdown_stopping {s : Session} (h : Serving s) : Stopping s.connection.shutdownConnection := by
  obtain ⟨-, -, -, hstate⟩ := shutdownConnection_keeps s.connection
  exact .inr (hstate h.state)

/-- **One step of a pass**: nothing is consumed or queued, and only a shutdown stops the connection. -/
theorem callStep_passes {s t : Session} {i : Server.Input} (h : Serving s)
    (hm : Malformed s.connection.readBuffer.readable) (hcallee : s.pc.callee ≠ .input)
    (hs : callStep dispatch s i = some t) : Passes s t (i = .shutdown) := by
  have hserving := callStep_serving h hs
  rcases callStep_cases hs with ⟨rfl, rfl⟩ | ⟨hpc, rfl, hnext⟩ | ⟨j, rfl, hexecute, hstep⟩
  · obtain ⟨hread, hwrite, -, -⟩ := shutdownConnection_keeps s.connection
    exact ⟨hserving, rfl, hread, fun _ => hwrite, iff_of_true (shutdown_stopping h) (.inr rfl)⟩
  · obtain rfl := Option.some.inj ((decodeNext_malformed h.buffer hm).symm.trans hnext)
    exact ⟨hserving, by rw [hpc]; rfl, rfl, fun _ => rfl, by simp [Session.returns]⟩
  · have houtput : s.pc.callee = .output := by
      cases hc : s.pc.callee with
      | input => exact absurd hc hcallee
      | execute => exact absurd hc hexecute
      | output => rfl
    have hwrites := Session.step_output houtput hstep
    refine ⟨hserving, hwrites.callee, hwrites.readBuffer, fun hc => absurd hc hexecute, ?_⟩
    rw [Stopping, Stopping, output_stop houtput hstep, hwrites.state]
    simp

theorem run_passes {s t : Session} {inputs : List Server.Input} (h : Serving s)
    (hm : Malformed s.connection.readBuffer.readable) (hcallee : s.pc.callee ≠ .input)
    (hrun : run (callStep dispatch) s inputs = some t) : Passes s t (.shutdown ∈ inputs) := by
  induction inputs generalizing s with
  | nil =>
    obtain rfl := Option.some.inj hrun
    exact ⟨h, rfl, rfl, fun _ => rfl, by simp⟩
  | cons i rest ih =>
    obtain ⟨u, hu, hrest⟩ := run_cons_some.mp hrun
    have hfirst := callStep_passes h hm hcallee hu
    have hlater := ih hfirst.serving (hfirst.readBuffer ▸ hm) (hfirst.callee ▸ hcallee) hrest
    refine ⟨hlater.serving, hlater.callee.trans hfirst.callee, hlater.readBuffer.trans hfirst.readBuffer,
      fun hc => (hlater.writeBuffer (hfirst.callee.trans hc)).trans (hfirst.writeBuffer hc), ?_⟩
    rw [hlater.stopping, hfirst.stopping, List.mem_cons, or_assoc, eq_comm]

/-! ### The runs behind it -/

/-- The dispatcher makes no difference. -/
theorem step_malformed {dispatch' : HttpRequest → TcpBuffer → Option (TcpBuffer × Rpc.RunTime)} {s : Session}
    (h : Serving s) (hm : Malformed s.connection.readBuffer.readable) (i : Server.Input) :
    step dispatch s i = step dispatch' s i := by
  have hcall : callStep dispatch s i = callStep dispatch' s i := by
    cases i with
    | shutdown => rfl
    | io j =>
      simp only [callStep]
      split
      · rw [decodeNext_malformed h.buffer hm, decodeNext_malformed h.buffer hm]
      · rfl
  unfold step
  split
  · rfl
  · rfl
  · rfl
  · exact hcall

/-- What was read stays, and more is read behind it. -/
theorem step_grows {s t : Session} {i : Server.Input} (h : Serving s)
    (hm : Malformed s.connection.readBuffer.readable) (hs : step dispatch s i = some t) :
    s.connection.readBuffer.readable <+: t.connection.readBuffer.readable := by
  rcases step_cases hs with hcall | ⟨callee, pc, -, -, rfl⟩
  · by_cases hcallee : s.pc.callee = .input
    · rcases callStep_cases hcall with ⟨-, rfl⟩ | ⟨hpc, -⟩ | ⟨j, -, -, hstep⟩
      · rw [show _ = s.connection.readBuffer from (shutdownConnection_keeps s.connection).1]
      · rw [hpc] at hcallee
        cases hcallee
      · exact (input_reads h hcallee hstep).read
    · rw [(callStep_passes h hm hcallee hcall).readBuffer]
  · exact List.prefix_refl _

/-- **For good**: no byte is consumed, and no request is given to any dispatcher. -/
theorem wedged (dispatch' : HttpRequest → TcpBuffer → Option (TcpBuffer × Rpc.RunTime)) {s : Session}
    (h : Serving s) (hm : Malformed s.connection.readBuffer.readable) (inputs : List Server.Input) :
    run (step dispatch) s inputs = run (step dispatch') s inputs ∧
      Always (step dispatch) (fun t => s.connection.readBuffer.readable <+: t.connection.readBuffer.readable)
        s inputs := by
  constructor
  · induction inputs generalizing s with
    | nil => rfl
    | cons i rest ih =>
      have hsame : step dispatch s i = step dispatch' s i := step_malformed h hm i
      rw [run_cons, run_cons, ← hsame]
      cases hs : step dispatch s i with
      | none => rfl
      | some u => exact ih (step_serving h hs) (hm.append (step_grows h hm hs))
  · have hkept : Always (step dispatch) (fun t => Serving t ∧
        s.connection.readBuffer.readable <+: t.connection.readBuffer.readable) s inputs :=
      always_of_inductive
        (fun t i u ht hs => ⟨step_serving ht.1 hs, ht.2.trans (step_grows ht.1 (hm.append ht.2) hs)⟩)
        ⟨h, List.prefix_refl _⟩ inputs
    exact hkept.imp fun _ ht => ht.2

theorem pass_progress {during later : List Server.Input} {s u t : Session} (h : Serving s)
    (hpc : s.pc = .execute) (hm : Malformed s.connection.readBuffer.readable)
    (hexecute : run (callStep dispatch) s during = some u)
    (houtput : run (callStep dispatch) {u with pc := .output} later = some t) :
    Progress s u t ↔ Stopping s.connection ∨ Server.Input.shutdown ∈ during ++ later := by
  have hfirst := run_passes h hm (by rw [hpc]; nofun) hexecute
  have hentered : Serving {u with pc := .output} := hfirst.serving.of_eq rfl (.inl rfl) hfirst.serving.state
  have hsecond := run_passes hentered (hfirst.readBuffer ▸ hm) nofun houtput
  have hstopping : Stopping t.connection ↔ Stopping s.connection ∨ Server.Input.shutdown ∈ during ++ later := by
    rw [hsecond.stopping, hfirst.stopping, List.mem_append, or_assoc]
  rw [← hstopping, Progress, hsecond.readBuffer, hfirst.readBuffer, hfirst.writeBuffer (by rw [hpc]; rfl)]
  constructor
  · rintro (hconsumed | ⟨response, hne, hqueued⟩ | hstop)
    · exact absurd hconsumed (Int.lt_irrefl _)
    · exact absurd (List.append_right_eq_self.mp hqueued.symm) hne
    · exact hstop
  · exact fun hstop => .inr (.inr hstop)

end Connection

/-- **A malformed request wedges its connection.** In any state that a server's connection
reaches, with bytes to decode that begin no request, `execute` and `output` run, and the time
wheel may shut the connection down meanwhile. There is progress exactly when the connection
was going down before or is shut down. -/
theorem progress_iff (dispatch : HttpRequest → TcpBuffer → Option (TcpBuffer × Rpc.RunTime)) (fd buffSize : Int)
    (hsize : 0 ≤ buffSize) (hint : buffSize < 2 ^ 31) (before during later : List Server.Input)
    (s u t : Session) (hbefore : run (Connection.step dispatch) (Server.initial fd buffSize) before = some s)
    (hpc : s.pc = .execute) (hm : Malformed s.connection.readBuffer.readable)
    (hexecute : run (Connection.callStep dispatch) s during = some u) (_ : u.pc = .returned .execute)
    (houtput : run (Connection.callStep dispatch) {u with pc := .output} later = some t)
    (_ : t.pc = .returned .output) :
    Progress s u t ↔ Stopping s.connection ∨ Server.Input.shutdown ∈ during ++ later :=
  Connection.pass_progress (Connection.run_serving (Connection.initial_serving fd hsize hint) hbefore)
    hpc hm hexecute houtput

/-- A method that is not supported. -/
def deleteText : Bytes := ascii "DELETE /hello HTTP/1.1\r\nHost: localhost\r\n\r\n"

theorem malformed_delete : Malformed deleteText := by
  have hjudge : judge {} deleteText = ((judge {} deleteText).1, .reject (.unsupportedMethod (ascii "DELETE"))) :=
    Prod.ext rfl (by decide +kernel)
  exact malformed_of_reject hjudge

/-- The request is read at once. -/
def readDelete : List Server.Input := [.io .advance, .io (.read (.data deleteText)), .io .advance]

def noServlet : HttpRequest → TcpBuffer → Option (TcpBuffer × Rpc.RunTime) :=
  HttpDispatcher.dispatch {} (ascii "1")

/-- It is executed, and `later` happens in `output`. -/
def passDelete (later : List Server.Input) : Option (Session × Session × Session) := do
  let s ← run (Connection.step noServlet) (Server.initial 7 128) readDelete
  let u ← run (Connection.callStep noServlet) s [.io .advance]
  let t ← run (Connection.callStep noServlet) {u with pc := .output} later
  pure (s, u, t)

theorem exists_pass (later : List Server.Input)
    (h : (passDelete later).map (fun x => (x.1.pc, x.1.connection.readBuffer.readable,
      decide (Stopping x.1.connection), x.2.1.pc, x.2.2.pc)) =
        some (.execute, deleteText, false, .returned .execute, .returned .output)) :
    ∃ s u t, run (Connection.step noServlet) (Server.initial 7 128) readDelete = some s ∧ s.pc = .execute ∧
      s.connection.readBuffer.readable = deleteText ∧ ¬ Stopping s.connection ∧
      run (Connection.callStep noServlet) s [.io .advance] = some u ∧ u.pc = .returned .execute ∧
      run (Connection.callStep noServlet) {u with pc := .output} later = some t ∧ t.pc = .returned .output := by
  obtain ⟨⟨s, u, t⟩, hpass, heq⟩ := Option.map_eq_some_iff.mp h
  simp only [Prod.mk.injEq] at heq
  obtain ⟨hpc, hreadable, hstopping, hu, ht⟩ := heq
  simp only [passDelete, Option.bind_eq_bind, Option.bind_eq_some_iff, Option.pure_def, Option.some.injEq,
    Prod.mk.injEq] at hpass
  obtain ⟨s', hs, u', hexecute, t', houtput, rfl, rfl, rfl⟩ := hpass
  exact ⟨s', u', t', hs, hpc, hreadable, of_decide_eq_false hstopping, hexecute, hu, houtput, ht⟩

/-- The time wheel shuts it down in front of `output`. -/
theorem progress_iff_shutdown : ∃ s u t, Malformed s.connection.readBuffer.readable ∧
    run (Connection.callStep noServlet) s [.io .advance] = some u ∧
    run (Connection.callStep noServlet) {u with pc := .output} [.shutdown, .io .advance] = some t ∧
    (Progress s u t ↔ Stopping s.connection ∨ Server.Input.shutdown ∈ [.io .advance] ++ [.shutdown, .io .advance]) := by
  obtain ⟨s, u, t, hs, hpc, hreadable, -, hexecute, hu, houtput, ht⟩ :=
    exists_pass [.shutdown, .io .advance] (by decide +kernel)
  have hm : Malformed s.connection.readBuffer.readable := hreadable ▸ malformed_delete
  exact ⟨s, u, t, hm, hexecute, houtput, progress_iff noServlet 7 128 (by decide) (by decide) readDelete _ _ s u t
    hs hpc hm hexecute hu houtput ht⟩

/-- Nobody answers, and nobody closes. -/
theorem not_progress_delete : ∃ s u t,
    run (Connection.step noServlet) (Server.initial 7 128) readDelete = some s ∧ s.pc = .execute ∧
    s.connection.readBuffer.readable = deleteText ∧ Malformed deleteText ∧
    run (Connection.callStep noServlet) s [.io .advance] = some u ∧ u.pc = .returned .execute ∧
    run (Connection.callStep noServlet) {u with pc := .output} [.io .advance] = some t ∧
    t.pc = .returned .output ∧ ¬ Progress s u t := by
  obtain ⟨s, u, t, hs, hpc, hreadable, hstopping, hexecute, hu, houtput, ht⟩ :=
    exists_pass [.io .advance] (by decide +kernel)
  refine ⟨s, u, t, hs, hpc, hreadable, malformed_delete, hexecute, hu, houtput, ht, ?_⟩
  have hserving := Connection.run_serving (Connection.initial_serving 7 (by decide) (by decide)) hs
  rw [Connection.pass_progress hserving hpc (hreadable ▸ malformed_delete) hexecute houtput]
  simp [hstopping]

end CoroutineRpc.Net.Http
