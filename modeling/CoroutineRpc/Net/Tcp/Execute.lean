import CoroutineRpc.Net.Tcp.Connection

/-! What `execute` leaves in the read buffer.

The loop of `execute` ends at the first packet that `decode` does not deliver, whether it
waits for the rest of it or has rejected it and dropped bytes. Behind a rejected packet the
loop does not look: what stands there is left, complete frames too (`execute_drains_iff`). -/
namespace CoroutineRpc.Net.Tcp
open Rpc TcpBuffer Library.Transition

/-- One more call of `decode` would neither succeed nor consume anything. -/
def Drained (b : TcpBuffer) : Prop :=
  ∃ out, decode b {} = some out ∧ out.data.decodeSucc = false ∧ out.buf.readable = b.readable

/-- Nothing, or the beginning of a frame that lacks bytes. -/
def Unfinished (l : Bytes) : Prop := l = [] ∨ fromStart l = l ∧ judge l = .wait

/-- `l` begins with frames that are accepted and a packet that is then rejected, and `rest`
is behind it. -/
inductive Refuses : Bytes → Bytes → Prop where
  | here {l : Bytes} {n : Nat} {e : DecodeError} :
    judge (fromStart l) = .reject n e → Refuses l ((fromStart l).drop n)
  | later {l rest : Bytes} {n : Nat} {p : RpcFields} :
    judge (fromStart l) = .accept n p → Refuses ((fromStart l).drop n) rest → Refuses l rest

theorem fromStart_length (l : Bytes) : (fromStart l).length ≤ l.length :=
  (List.dropWhile_sublist _).length_le

/-- A rejection changes what is there, unless nothing is. -/
theorem ne_of_reject {l : Bytes} {n : Nat} {e : DecodeError} (hl : l ≠ [])
    (h : judge (fromStart l) = .reject n e) : (fromStart l).drop n ≠ l := by
  intro heq
  have hlength := congrArg List.length heq
  rw [List.length_drop] at hlength
  have := fromStart_length l
  have := List.length_pos_iff.mpr hl
  by_cases hstart : fromStart l = []
  · rw [hstart] at hlength
    simp only [List.length_nil] at hlength
    omega
  · have := judge_reject hstart h
    have := List.length_pos_iff.mpr hstart
    omega

theorem drained_iff {b : TcpBuffer} (h : WellFormed b) : Drained b ↔ Unfinished b.readable := by
  obtain ⟨out, hout, -, -, hreadable, hdata⟩ := decode_receive h {}
  have hiff : Drained b ↔ out.data.decodeSucc = false ∧ out.buf.readable = b.readable := by
    constructor
    · rintro ⟨out', hout', hdrained⟩
      obtain rfl := Option.some.inj (hout.symm.trans hout')
      exact hdrained
    · exact fun hdrained => ⟨out, hout, hdrained⟩
  rw [hiff, hreadable]
  simp only [receive] at hdata ⊢
  cases hv : judge (fromStart b.readable) with
  | accept n p =>
    rw [hv] at hdata
    rw [hdata.1]
    refine ⟨fun hfalse => absurd hfalse.1 (by decide), ?_⟩
    rintro (hnil | ⟨hstart, hwait⟩)
    · rw [hnil] at hv
      cases hv
    · rw [hstart, hwait] at hv
      cases hv
  | reject n e =>
    rw [hv] at hdata
    rw [hdata]
    constructor
    · rintro ⟨-, heq⟩
      by_contra hopen
      exact ne_of_reject (fun hnil => hopen (.inl hnil)) hv heq
    · rintro (hnil | ⟨hstart, hwait⟩)
      · rw [hnil]
        exact ⟨rfl, List.drop_nil⟩
      · rw [hstart, hwait] at hv
        cases hv
  | wait =>
    rw [hv] at hdata
    rw [hdata]
    show _ ∧ (fromStart b.readable).drop 0 = _ ↔ _
    rw [List.drop_zero]
    constructor
    · rintro ⟨-, hstart⟩
      exact .inr ⟨hstart, by rw [← hstart]; exact hv⟩
    · rintro (hnil | ⟨hstart, -⟩)
      · rw [hnil] at hv
        cases hv
      · exact ⟨rfl, hstart⟩

/-- The packet that ends the loop decides about what is left. -/
theorem unfinished_iff_of_failed {l : Bytes} (h : (receive l).1 = none) :
    Unfinished (receive l).2 ↔ ∀ rest, Refuses l rest → Unfinished rest := by
  simp only [receive] at h ⊢
  cases hv : judge (fromStart l) with
  | accept n p =>
    rw [hv] at h
    cases h
  | reject n e =>
    constructor
    · rintro hrest rest (⟨hreject⟩ | ⟨haccept, -⟩)
      · obtain ⟨rfl, rfl⟩ := Verdict.reject.inj (hv.symm.trans hreject)
        exact hrest
      · cases hv.symm.trans haccept
    · exact fun hrest => hrest _ (.here hv)
  | wait =>
    -- `decode` waits with the garbage gone
    refine ⟨?_, fun _ => .inr ⟨?_, hv⟩⟩
    · rintro - rest (⟨hreject⟩ | ⟨haccept, -⟩)
      · cases hv.symm.trans hreject
      · cases hv.symm.trans haccept
    · cases hstart : fromStart l with
      | nil => rfl
      | cons x r =>
        obtain rfl := fromStart_cons hstart
        exact fromStart_start r

theorem refuses_of_accept {l : Bytes} {n : Nat} {p : RpcFields} (h : judge (fromStart l) = .accept n p) :
    (∀ rest, Refuses l rest → Unfinished rest) ↔
      ∀ rest, Refuses ((fromStart l).drop n) rest → Unfinished rest := by
  constructor
  · exact fun hrest rest hrefuses => hrest rest (.later h hrefuses)
  · rintro hrest rest (⟨hreject⟩ | ⟨haccept, hrefuses⟩)
    · cases h.symm.trans hreject
    · obtain ⟨rfl, rfl⟩ := Verdict.accept.inj (h.symm.trans haccept)
      exact hrest rest hrefuses

section
variable {dispatch : RpcStruct → TcpBuffer → Option (TcpBuffer × RunTime)}

/-- One turn of the loop: a packet is delivered, or the loop is over. -/
theorem decodeNext_receive {s t : Session} (h : WellFormed s.connection.readBuffer)
    (hs : s.decodeNext dispatch = some t) :
    WellFormed t.connection.readBuffer ∧
      (t.pc = s.pc ∧ (∃ p, (receive s.connection.readBuffer.readable).1 = some p) ∧
          t.connection.readBuffer.readable = (receive s.connection.readBuffer.readable).2 ∨
        t.pc = .returned .execute ∧ (receive s.connection.readBuffer.readable).1 = none ∧
          t.connection.readBuffer.readable = (receive s.connection.readBuffer.readable).2) := by
  rcases Session.decodeNext_cases hs with ⟨rfl, hempty⟩ | ⟨out, -, hout, hrest⟩
  · have hnil : s.connection.readBuffer.readable = [] := by
      have := h.readable_length
      exact List.eq_nil_of_length_eq_zero (by omega)
    rw [hnil]
    exact ⟨h, .inr ⟨rfl, rfl, hnil⟩⟩
  obtain ⟨out', hout', hwf, -, hreadable, hdata⟩ := decode_receive h {}
  obtain rfl := Option.some.inj (hout.symm.trans hout')
  rcases hrest with ⟨hsucc, rfl⟩ | ⟨hsucc, hdelivers⟩
  · refine ⟨hwf, .inr ⟨rfl, ?_, hreadable⟩⟩
    cases hp : (receive s.connection.readBuffer.readable).1 with
    | none => rfl
    | some p =>
      rw [hp, hsucc] at hdata
      cases hdata.1
  · have hsome : ∃ p, (receive s.connection.readBuffer.readable).1 = some p := by
      cases hp : (receive s.connection.readBuffer.readable).1 with
      | none =>
        rw [hp] at hdata
        rw [hdata] at hsucc
        cases hsucc
      | some p => exact ⟨p, rfl⟩
    have hbuffer : t.connection.readBuffer = out.buf ∧ t.pc = s.pc := by
      rcases hdelivers with ⟨writeBuffer, -, rfl⟩ | ⟨-, rfl⟩
      · exact ⟨rfl, rfl⟩
      · refine ⟨?_, rfl⟩
        unfold TcpConnection.insertReply
        split <;> rfl
    rw [hbuffer.1]
    exact ⟨hwf, .inl ⟨hbuffer.2, hsome, hreadable⟩⟩

/-- **What `execute` leaves.** Whatever the read buffer holds, the bytes left when `execute`
returns are drained exactly when none stand behind a packet that is rejected, but for the
beginning of a frame. -/
theorem execute_drains_iff {s t : Session} {is : List Session.Input}
    (hbuffer : WellFormed s.connection.readBuffer) (hpc : s.pc = .execute)
    (hr : run (Session.step dispatch) s is = some t) (ht : t.pc = .returned .execute) :
    Drained t.connection.readBuffer ↔
      ∀ rest, Refuses s.connection.readBuffer.readable rest → Unfinished rest := by
  induction is generalizing s with
  | nil =>
    obtain rfl := Option.some.inj hr
    rw [hpc] at ht
    cases ht
  | cons i rest ih =>
    obtain ⟨u, hs, hr⟩ := run_cons_some.mp hr
    obtain ⟨-, -, hdecode⟩ := Session.step_execute (by rw [hpc]; rfl) hs
    obtain ⟨hwf, ⟨hu, ⟨p, hp⟩, hreadable⟩ | ⟨hu, hp, hreadable⟩⟩ := decodeNext_receive hbuffer hdecode
    · rw [ih hwf (hu.trans hpc) hr, hreadable]
      simp only [receive] at hp ⊢
      cases hv : judge (fromStart s.connection.readBuffer.readable) with
      | accept n q => exact (refuses_of_accept hv).symm
      | reject n e =>
        rw [hv] at hp
        cases hp
      | wait =>
        rw [hv] at hp
        cases hp
    · -- no step is left
      have hend : rest = [] := by
        cases rest with
        | nil => rfl
        | cons j rest =>
          obtain ⟨v, hv, -⟩ := run_cons_some.mp hr
          obtain ⟨hexecute, -⟩ := Session.step_execute (by rw [hu]; rfl) hv
          rw [hu] at hexecute
          cases hexecute
      subst hend
      obtain rfl := Option.some.inj hr
      rw [drained_iff hwf, hreadable]
      exact unfinished_iff_of_failed hp

/-- Each packet delivered is some bytes gone. -/
theorem receive_length {l : Bytes} {p : RpcFields} (h : (receive l).1 = some p) :
    (receive l).2.length < l.length := by
  simp only [receive] at h ⊢
  cases hv : judge (fromStart l) with
  | accept n q =>
    obtain ⟨rfl, -, rest, hrest⟩ := judge_fromStart_accept hv
    have := fromStart_length l
    show ((fromStart l).drop (frameLength q)).length < _
    rw [hrest, List.length_append, frame_length] at this
    rw [List.length_drop, hrest, List.length_append, frame_length]
    have hmin := frameLength_min q
    simp only [kMinPacketLen] at hmin
    omega
  | reject n e =>
    rw [hv] at h
    cases h
  | wait =>
    rw [hv] at h
    cases h

/-- `execute` returns, if the dispatcher does. -/
theorem execute_returns (hdispatch : ∀ data b, (dispatch data b).isSome) {s : Session}
    (hbuffer : WellFormed s.connection.readBuffer) (hpc : s.pc = .execute) :
    ∃ is t, run (Session.step dispatch) s is = some t ∧ t.pc = .returned .execute := by
  obtain ⟨n, hn⟩ : ∃ n, n = s.connection.readBuffer.readable.length := ⟨_, rfl⟩
  induction n using Nat.strong_induction_on generalizing s with
  | _ n ih =>
    obtain ⟨t, hs⟩ : ∃ t, s.decodeNext dispatch = some t := by
      obtain ⟨out, hout, -⟩ := decode_receive hbuffer {}
      unfold Session.decodeNext
      split
      · simp only [Option.bind_eq_bind, hout, Option.bind_some]
        split
        · exact ⟨_, rfl⟩
        · split
          · obtain ⟨r, hr⟩ := Option.isSome_iff_exists.mp (hdispatch out.data s.connection.writeBuffer)
            exact ⟨_, by
              show Option.bind (dispatch out.data s.connection.writeBuffer) _ = _
              rw [hr]
              rfl⟩
          · exact ⟨_, rfl⟩
      · exact ⟨_, rfl⟩
    have hstep : s.step dispatch .advance = some t := (Session.step_decode hpc).trans hs
    obtain ⟨hwf, ⟨ht, ⟨p, hp⟩, hreadable⟩ | ⟨ht, -⟩⟩ := decodeNext_receive hbuffer hs
    · have hless : t.connection.readBuffer.readable.length < n := by
        rw [hreadable, hn]
        exact receive_length hp
      obtain ⟨is, u, hr, hu⟩ := ih _ hless hwf (ht.trans hpc) rfl
      exact ⟨.advance :: is, u, run_cons_some.mpr ⟨t, hstep, hr⟩, hu⟩
    · exact ⟨[.advance], t, run_cons_some.mpr ⟨t, hstep, rfl⟩, ht⟩

end

/-- A server in front of the given bytes. -/
def executing (l : Bytes) : Session :=
  {connection := {TcpConnection.server 7 128 with readBuffer := ⟨0, l.length, l⟩}, pc := .execute}

theorem executing_wellFormed {l : Bytes} (hl : l.length < 2 ^ 31) :
    WellFormed (executing l).connection.readBuffer := by
  refine ⟨Int.le_refl _, ?_, ?_, ?_⟩
  · exact Int.natCast_nonneg _
  · exact Int.le_refl _
  · exact Int.ofNat_lt.mpr hl

/-- One request and nothing else. -/
theorem execute_drains_iff_greeting : ∃ t,
    run (Session.step (dispatch echo [])) (executing (frame greeting)) [.advance, .advance] = some t ∧
      (Drained t.connection.readBuffer ↔
        ∀ rest, Refuses (executing (frame greeting)).connection.readBuffer.readable rest → Unfinished rest) := by
  have hlast : (run (Session.step (dispatch echo [])) (executing (frame greeting))
      [.advance, .advance]).map (fun s => s.pc) = some (.returned .execute) := by decide +kernel
  obtain ⟨t, hr, ht⟩ := Option.map_eq_some_iff.mp hlast
  exact ⟨t, hr, execute_drains_iff (executing_wellFormed (by decide)) rfl hr ht⟩

/-- A packet of length zero, and a request behind it: the request is left. -/
theorem not_drained_behind : ¬ ∀ (s t : Session) (is : List Session.Input),
    WellFormed s.connection.readBuffer → s.pc = .execute →
      run (Session.step (dispatch echo [])) s is = some t → t.pc = .returned .execute →
        Drained t.connection.readBuffer := by
  intro h
  have hlast : (run (Session.step (dispatch echo []))
      (executing (kPacketStart :: 0 :: 0 :: 0 :: 0 :: frame greeting)) [.advance]).map
        (fun s => (s.pc, s.connection.readBuffer)) =
      some (.returned .execute, ⟨1, 37, kPacketStart :: 0 :: 0 :: 0 :: 0 :: frame greeting⟩) := by
    decide +kernel
  obtain ⟨t, hr, heq⟩ := Option.map_eq_some_iff.mp hlast
  obtain ⟨hpc, hreadable⟩ := Prod.mk.inj heq
  obtain ⟨out, hout, hsucc, -⟩ := h _ t _ (executing_wellFormed (by decide)) rfl hr hpc
  rw [hreadable] at hout
  have hserved : (decode ⟨1, 37, kPacketStart :: 0 :: 0 :: 0 :: 0 :: frame greeting⟩ {}).map
      (fun out => out.data.decodeSucc) = some true := by decide +kernel
  rw [hout, Option.map_some, hsucc] at hserved
  cases hserved

end CoroutineRpc.Net.Tcp
