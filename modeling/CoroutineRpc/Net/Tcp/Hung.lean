import CoroutineRpc.Net.Tcp.Pooled

/-! What runs on the coroutine of a closed connection.

Behind `clearClient` the coroutine goes on to its `Yield`, and then never again: nobody resumes
it, nobody gives it another function, and the pool does not hand it out, whatever becomes of
its connection. On the way to the `Yield` it is still in `input`, and a connection that is
destroyed there has a coroutine that runs on it (`hung_forever_iff`). -/
namespace CoroutineRpc.Net.Tcp.Pooled
open Rpc Coroutine Library.Transition

/-! ### A closed connection -/

section
variable (dispatch : RpcStruct → TcpBuffer → Option (TcpBuffer × RunTime))

/-- The coroutine of the connection `k`, which is `c`, makes no further step of its session, and
none behind `close` once the connection is destroyed. -/
structure Gone (k : Nat) (c : Connection) (s : State) : Prop where
  leave : c.alive = false → leave s k = none
  session : ∀ i t, step dispatch s i = some t → ∃ leaving alive,
    (c.leaving = .no → leaving = .no) ∧ t.connections[k]? = some {c with leaving, alive}
  alone : ∀ (j : Nat) c', s.connections[j]? = some c' → c'.loopCor.corId = c.loopCor.corId → j = k
  io : ∀ i, io dispatch s k i = none
  resume : resume s c.loopCor.corId = if c.leaving = .no then some s else none
  setCallBack : setCallBack s c.loopCor.corId = some s
  getCoroutineInstanse : ∀ start cor pool,
    s.pool.getCoroutineInstanse s.isInCoFunc start = some (cor, pool) → cor.corId ≠ c.loopCor.corId

/-- Every connection on a coroutine of the pool that has closed is gone. -/
def AllGone (s : State) : Prop := ∀ (k : Nat) c, s.connections[k]? = some c → 0 ≤ c.loopCor.index →
  c.session.connection.state = .closed → Gone dispatch k c s

end

/-- No connection on a coroutine of the pool is destroyed while the coroutine is between the `close`
in `clearClient` and its `Yield`. -/
def Waits (s : State) (i : Input) : Prop :=
  ∀ k ∈ destroyed s i, ∀ c ∈ s.connections[k]?, 0 ≤ c.loopCor.index → c.leaving = .no

instance (s : State) (i : Input) : Decidable (Waits s i) :=
  inferInstanceAs (Decidable (∀ k ∈ destroyed s i, ∀ c ∈ s.connections[k]?, 0 ≤ c.loopCor.index → c.leaving = .no))

section
variable {dispatch : RpcStruct → TcpBuffer → Option (TcpBuffer × RunTime)} {s t : State} {k : Nat}
  {c : Connection}

theorem leave_eq_none_iff (hk : s.connections[k]? = some c) : leave s k = none ↔ c.leaving = .no := by
  simp only [leave, hk, Option.bind_eq_bind, Option.bind_some, Option.pure_def]
  cases hleaving : c.leaving with
  | no => exact iff_of_true rfl rfl
  | closed => exact iff_of_false (Option.some_ne_none _) (by decide)
  | cleared => exact iff_of_false (Option.some_ne_none _) (by decide)

/-- Nothing but the connection itself can be missing. -/
theorem Seated.gone (h : Seated s) (hk : s.connections[k]? = some c) (hpool : 0 ≤ c.loopCor.index)
    (hhung : Hung c.session) (halive : c.leaving ≠ .no → c.alive = true) : Gone dispatch k c s := by
  have hplace := h.place k c hk
  have hin : s.isInCoFunc c.loopCor.corId = true :=
    hplace.mode.elim (fun hgoing => absurd hhung.pc hgoing.1.pc) And.right
  have hfreed : s.freed c.loopCor.corId = false := by
    rw [← Bool.not_eq_true]
    intro hfreed
    rcases hplace.slot with ⟨j, -, hj⟩ | ⟨hindex, -⟩
    · have := (h.cors j _ _ hj).1
      have := (h.slot_lt hj).1
      have := (h.freed _ hfreed).1
      omega
    · omega
  refine ⟨fun hdead => ?_, fun i t hs => ?_, fun j c' hj heq => h.eq_of_corId hj hk heq, fun i => ?_, ?_, ?_,
    fun start cor pool hget => ((h.obtained hget).other k c hk).symm⟩
  · rw [leave_eq_none_iff hk]
    by_contra hleaving
    cases hdead.symm.trans (halive hleaving)
  · obtain ⟨c', hk', hgoes⟩ := step_connection hs hk
    refine ⟨c'.leaving, c'.alive, fun hno => ?_, ?_⟩
    · by_contra hleaving
      rcases hgoes.leaving hleaving with hnot | hnot
      · exact hnot hno
      · exact hnot hhung
    · rw [hk', ← hgoes.session hhung, ← hgoes.loopCor]
  · rw [Option.eq_none_iff_forall_ne_some]
    intro t hs
    obtain ⟨c', hk', hi, -, ⟨hpc, -⟩ | ⟨session, hstep, -⟩⟩ := io_cases hs
    · obtain rfl : c' = c := Option.some.inj (hk'.symm.trans hk)
      cases hpc.symm.trans hhung.pc
    · obtain rfl : c' = c := Option.some.inj (hk'.symm.trans hk)
      cases (hhung.serverStep hi).symm.trans hstep
  · simp only [Pooled.resume, hplace.started hin, hk, hfreed, hhung.canResume, Option.bind_eq_bind,
      Option.bind_some, Bool.false_eq_true, false_or, not_false_eq_true, if_true, Option.pure_def]
    exact ite_not ..
  · rw [Pooled.setCallBack, if_neg (by rw [hfreed]; exact Bool.false_ne_true), if_pos hin]

/-- All are gone exactly if no coroutine runs on a connection that is not there. -/
theorem Seated.allGone_iff (h : Seated s) : AllGone dispatch s ↔ ∀ (k : Nat) c, s.connections[k]? = some c →
    0 ≤ c.loopCor.index → c.leaving ≠ .no → c.alive = true := by
  constructor
  · intro hgone k c hk hpool hleaving
    have hleave := (hgone k c hk hpool ((h.place k c hk).leaving hleaving).state).leave
    rw [leave_eq_none_iff hk] at hleave
    by_contra hdead
    exact hleaving (hleave (Bool.not_eq_true _ ▸ hdead))
  · intro halive k c hk hpool hclosed
    exact h.gone hk hpool (h.hung_of_closed hk hclosed) (halive k c hk hpool)

theorem Seated.allGone_step {i : Input} (h : Seated s) (hgone : AllGone dispatch s)
    (hs : Pooled.step dispatch s i = some t) : AllGone dispatch t ↔ Waits s i := by
  rw [h.allGone_iff] at hgone
  rw [(h.step hs).allGone_iff]
  constructor
  · intro halive k hmem c hk hpool
    obtain ⟨c', hk', hgoes⟩ := step_connection hs (Option.mem_def.mp hk)
    by_contra hleaving
    rw [← hgoes.destroyed hmem] at hleaving
    rw [← hgoes.loopCor] at hpool
    have hdead := halive k c' hk' hpool hleaving
    simp [hgoes.alive, hmem] at hdead
  · intro hwaits k c' hk' hpool hleaving
    rcases step_new hs hk' with ⟨halive, -⟩ | ⟨c, hk⟩
    · exact halive
    obtain ⟨c'', ht, hgoes⟩ := step_connection hs hk
    obtain rfl : c' = c'' := Option.some.inj (hk'.symm.trans ht)
    rw [hgoes.loopCor] at hpool
    -- the coroutine was there before, or has just closed its descriptor
    have hnot : k ∉ destroyed s i := fun hmem => by
      rw [hgoes.destroyed hmem] at hleaving
      exact hleaving (hwaits k hmem c hk hpool)
    have halive : c.alive = true := by
      rcases hgoes.leaving hleaving with hwas | hwas
      · exact hgone k c hk hpool hwas
      · exact (h.place k c hk).mode.elim And.right fun hhung => absurd hhung.1 hwas
    rw [hgoes.alive, halive, decide_eq_true hnot]
    rfl

end

/-- **A closed connection never runs again**, nor does anything else on its coroutine, exactly in those
runs in which no connection on a coroutine of the pool is destroyed before the coroutine has
come to its `Yield`. -/
theorem hung_forever_iff (dispatch : RpcStruct → TcpBuffer → Option (TcpBuffer × RunTime))
    (poolSize stackSize start : Int) (s₀ u : State) (is : List Input)
    (h₀ : initial poolSize stackSize start = some s₀) (hr : run (step dispatch) s₀ is = some u) :
    Always (step dispatch) (AllGone dispatch) s₀ is ↔ Meets (step dispatch) Waits s₀ is := by
  have hseated := seated_initial h₀
  have hgone : AllGone dispatch s₀ := by
    intro k c hk
    rw [connections_initial h₀] at hk
    cases List.getElem?_nil.symm.trans hk
  exact always_iff_meets (Q := Seated) (fun _ _ _ h hs => h.step hs)
    (fun _ _ _ h hgone hs => h.allGone_step hgone hs) hseated hgone hr

/-- A connection that its peer closes; it is destroyed, and its descriptor comes again. -/
theorem hung_forever_iff_eof : ∃ s₀ u, initial 2 16 1000 = some s₀ ∧
    run (step fun _ _ => none) s₀ [.accept 5 2000, .resume 2, .io 0 .advance, .io 0 (.read .eof), .resume 2,
      .io 0 (.read .eof), .leave 0, .leave 0, .resume 2, .clearClientTimer, .setCallBack 2, .resume 2,
      .accept 5 2000] = some u ∧
    Always (step fun _ _ => none) (AllGone fun _ _ => none) s₀ [.accept 5 2000, .resume 2, .io 0 .advance,
      .io 0 (.read .eof), .resume 2, .io 0 (.read .eof), .leave 0, .leave 0, .resume 2, .clearClientTimer,
      .setCallBack 2, .resume 2, .accept 5 2000] := by
  have hmeets : ∃ s₀ ∈ initial 2 16 1000, (run (step fun _ _ => none) s₀ [.accept 5 2000, .resume 2,
      .io 0 .advance, .io 0 (.read .eof), .resume 2, .io 0 (.read .eof), .leave 0, .leave 0, .resume 2,
      .clearClientTimer, .setCallBack 2, .resume 2, .accept 5 2000]).isSome ∧
      Meets (step fun _ _ => none) Waits s₀ [.accept 5 2000, .resume 2, .io 0 .advance, .io 0 (.read .eof),
        .resume 2, .io 0 (.read .eof), .leave 0, .leave 0, .resume 2, .clearClientTimer, .setCallBack 2,
        .resume 2, .accept 5 2000] := by
    decide +kernel
  obtain ⟨s₀, h₀, hsome, hmeets⟩ := hmeets
  obtain ⟨u, hr⟩ := Option.isSome_iff_exists.mp hsome
  exact ⟨s₀, u, h₀, hr, (hung_forever_iff _ 2 16 1000 s₀ u _ h₀ hr).mpr hmeets⟩

/-- The main thread destroys a connection that has just set `m_state`; its coroutine is still in
`input`. -/
theorem not_hung_forever_cleared : ¬ ∀ (dispatch : RpcStruct → TcpBuffer → Option (TcpBuffer × RunTime))
    (poolSize stackSize start : Int) (s₀ : State) (is : List Input), initial poolSize stackSize start = some s₀ →
      Always (step dispatch) (AllGone dispatch) s₀ is := fun h => by
  have hleft : ∃ s₀ ∈ initial 2 16 1000, ∃ u ∈ run (step fun _ _ => none) s₀ [.accept 5 2000, .resume 2,
      .io 0 .advance, .io 0 (.read .eof), .resume 2, .io 0 (.read .eof), .leave 0, .clearClientTimer],
      ∃ c ∈ u.connections[0]?, 0 ≤ c.loopCor.index ∧ c.session.connection.state = .closed ∧
        c.alive = false ∧ c.leaving ≠ .no := by
    decide +kernel
  obtain ⟨s₀, h₀, u, hr, c, hk, hpool, hclosed, hdead, hleaving⟩ := hleft
  have hgone := (h _ 2 16 1000 s₀ _ h₀).last hr
  exact hleaving ((leave_eq_none_iff hk).mp ((hgone 0 c hk hpool hclosed).leave hdead))

end CoroutineRpc.Net.Tcp.Pooled
