import CoroutineRpc.Net.Tcp.Delivery

/-! What a call brings back.

A call that owes its reply returns it by steps of its own, so a received reply is delivered exactly
when a read ends `input` with it (`delivers_iff_takenUp`). When every read up to its last byte and
from there on fills the space it was given, what comes next ends the call, be it the end of the
stream or the time-out. -/
namespace CoroutineRpc.Net.Tcp.Client
open Rpc TcpBuffer Library.Transition
variable {w : Replies} {got : Bytes} {s t : State}

/-! ### What is owed is delivered -/

theorem Delivers.cons {settings : Settings} {p : RpcFields} {i : Input} (hi : Own i)
    (hs : step settings s i = some t) (h : Delivers settings p t) : Delivers settings p s := by
  obtain ⟨is, u, d, hown, hrun, hresult, hd⟩ := h
  refine ⟨i :: is, u, d, fun j hj => ?_, run_cons_some.mpr ⟨t, hs, hrun⟩, hresult, hd⟩
  rcases List.mem_cons.mp hj with rfl | hj
  · exact hi
  · exact hown j hj

theorem delivers_find {settings : Settings} (h : Delivering w got s) (hpc : s.pc = .find)
    (hquiet : s.timer.resetting = false) (howed : Owed w got s) : Delivers settings w.reply s := by
  have hcall : s.pc.inCall = true := by rw [hpc]; rfl
  obtain ⟨-, hnumber⟩ := h.call hcall
  obtain ⟨done, todo, hsplit⟩ := h.split hcall
  obtain ⟨d, hd⟩ := Option.ne_none_iff_exists'.mp ((owed_find hpc).mp howed)
  have hstep : step settings s .advance = some (find s) := by
    rw [step_advance hquiet (by rw [hpc]; nofun), advance, hpc]
  refine ⟨[.advance], find s, d, ?_, run_cons_some.mpr ⟨_, hstep, rfl⟩, ?_, (hsplit.found hd).1⟩
  · intro i hi
    exact .inl (List.mem_singleton.mp hi)
  · rw [find, TcpConnection.getResPackageData, hnumber, hd]
    rfl

theorem delivers_executed {settings : Settings} {callee : Callee} (h : Delivering w got s)
    (hpc : s.pc = .execute) (hreturned : s.session.pc = .returned callee)
    (hquiet : s.timer.resetting = false) (howed : Owed w got s) : Delivers settings w.reply s := by
  have hgoes := goes_executed h hpc hreturned
  have hstep : step settings s .advance = some {s with pc := .find} := by
    rw [step_advance hquiet (by rw [hpc]; nofun), advance, hpc, hreturned]
  exact (delivers_find hgoes.delivering rfl hquiet (hgoes.owed.mpr howed)).cons (.inl rfl) hstep

/-- `execute` takes one frame after the other, each of some bytes. -/
theorem delivers_execute {settings : Settings} (hgot : got <+: w.bytes) {n : Nat} (h : Delivering w got s)
    (hn : s.session.connection.readBuffer.readable.length < n) (hpc : s.pc = .execute)
    (hquiet : s.timer.resetting = false) (howed : Owed w got s) : Delivers settings w.reply s := by
  induction n generalizing s with
  | zero => cases hn
  | succ n ih =>
    have hcallee : s.session.pc.callee = .execute := h.placed.callee .execute (by rw [hpc]; rfl)
    cases hp : s.session.pc with
    | returned callee => exact delivers_executed h hpc hp hquiet howed
    | execute =>
      obtain ⟨done, todo, hsplit⟩ := h.split (by rw [hpc]; rfl)
      obtain ⟨session, hdecode⟩ := Session.decodeNext_some h.buffer h.client
      have hsession : s.session.step noServer .advance = some session := by
        rw [Session.step_decode hp, hdecode]
      have hgoes := h.execute hgot hpc hsession
      have hstep : step settings s .advance = some {s with session} := by
        rw [step_advance hquiet (by rw [hpc]; nofun), advance_execute hpc hp hsession]
      refine Delivers.cons (.inl rfl) hstep ?_
      obtain ⟨-, -, ⟨hreturned, -⟩ | ⟨-, -, hless⟩⟩ :=
        Session.split_decodeNext h.buffer h.client hsplit hgot hdecode
      · exact delivers_executed hgoes.delivering hpc hreturned hquiet (hgoes.owed.mpr howed)
      · exact ih hgoes.delivering (Nat.lt_of_lt_of_le hless (Nat.le_of_lt_succ hn)) hpc hquiet
          (hgoes.owed.mpr howed)
    | _ => rw [hp] at hcallee; cases hcallee

/-- Behind a call of the timer that is under way. -/
theorem reset_step (settings : Settings) (hresetting : s.timer.resetting = true) :
    ∃ timer : Timer.State Event, step settings s (.timer .reset) = some {s with timer} ∧
      timer.resetting = false := by
  refine ⟨{Timer.resetArriveTime settings.clock s.timer with resetting := false}, ?_, rfl⟩
  simp only [step, timerStep, Timer.step, hresetting, if_true, Option.bind_eq_bind, Option.bind_some]

/-- **What is owed is delivered**, by the client's own steps. -/
theorem delivers_of_owed {settings : Settings} (h : Delivering w got s) (hgot : got <+: w.bytes)
    (howed : Owed w got s) : Delivers settings w.reply s := by
  have hquiet : ∀ {s}, s.timer.resetting = false → Delivering w got s → Owed w got s →
      Delivers settings w.reply s := by
    intro s hquiet h howed
    cases hcall : s.pc.inCall with
    | false =>
      obtain ⟨d, hresult, hd⟩ := (owed_outside hcall).mp howed
      exact ⟨[], s, d, nofun, rfl, hresult, hd⟩
    | true =>
      cases hpc : s.pc with
      | find => exact delivers_find h hpc hquiet howed
      | execute => exact delivers_execute hgot h (Nat.lt_succ_self _) hpc hquiet howed
      | input =>
        have hreturned := ((owed_input hpc).mp howed).1
        have hgoes := goes_checkInput h hpc hreturned
        have hstep : step settings s .advance = some (checkInput s) := by
          rw [step_advance hquiet (by rw [hpc]; nofun), advance_checkInput hpc hreturned]
        refine Delivers.cons (.inl rfl) hstep ?_
        obtain ⟨-, hover, hup, -⟩ := (owed_input hpc).mp howed
        rw [checkInput_execute hover hup] at hgoes ⊢
        exact delivers_execute hgot hgoes.delivering (Nat.lt_succ_self _) rfl hquiet (hgoes.owed.mpr howed)
      | _ => exact absurd howed (not_owed hcall (by rw [hpc]; exact ⟨nofun, nofun, nofun⟩))
  cases hresetting : s.timer.resetting with
  | false => exact hquiet hresetting h howed
  | true =>
    obtain ⟨timer, hstep, hdone⟩ := reset_step settings hresetting
    have hgoes := h.keep (placed_step h.placed hstep) ⟨rfl, rfl, rfl, rfl⟩ rfl rfl rfl rfl rfl
    exact Delivers.cons (.inr rfl) hstep (hquiet hdone hgoes.delivering (hgoes.owed.mpr howed))

/-- And only that: no step of its own brings the call a byte. -/
theorem owed_of_delivers {settings : Settings} (h : Delivering w got s) (hgot : got <+: w.bytes)
    (hdelivers : Delivers settings w.reply s) : Owed w got s := by
  obtain ⟨is, t, d, hown, hrun, hresult, hd⟩ := hdelivers
  have hsilent : ∀ i ∈ is, ∀ bytes, i ≠ .read (.data bytes) := by
    rintro i hi bytes rfl
    rcases hown _ hi with heq | heq <;> cases heq
  have hnothing : received is = [] := List.flatMap_eq_nil_iff.mpr fun i hi => bytes_silent (hsilent i hi)
  have hgot' : got ++ received is <+: w.bytes := by rwa [hnothing, List.append_nil]
  have hcall : ∀ i ∈ is, ∀ msgNo isMain, i ≠ .call msgNo isMain := by
    rintro i hi msgNo isMain rfl
    rcases hown _ hi with heq | heq <;> cases heq
  obtain ⟨hlast, howed⟩ := delivering_run h hgot' hcall hrun
  have hpaid : Owed w (got ++ received is) t := by
    cases hcall : t.pc.inCall with
    | false => exact (owed_outside hcall).mpr ⟨d, hresult, hd⟩
    | true =>
      rw [(hlast.call hcall).1] at hresult
      cases hresult
  refine (howed.mp hpaid).resolve_right ?_
  rintro ⟨a, i, b, u, rfl, -, hends⟩
  exact not_ends (hsilent i (by simp)) hends

/-! ### Every reply has its number -/

/-- Replies are kept under their numbers, and the one that a call returned has its number. -/
structure Keyed (s : State) : Prop where
  replies : ∀ k d, s.session.connection.replyDatas k = some d → d.msgNo = k
  result : ∀ d, s.result = some (.ok d) → d.msgNo = s.msgNo

theorem Keyed.of_eq (h : Keyed s)
    (hreplies : t.session.connection.replyDatas = s.session.connection.replyDatas)
    (hresult : ∀ d, t.result = some (.ok d) → s.result = some (.ok d)) (hnumber : t.msgNo = s.msgNo) :
    Keyed t where
  replies := by rw [hreplies]; exact h.replies
  result d hd := by rw [hnumber]; exact h.result d (hresult d hd)

theorem keyed_insertReply {c : TcpConnection} (tmp : RpcStruct)
    (h : ∀ k d, c.replyDatas k = some d → d.msgNo = k) :
    ∀ k d, (c.insertReply tmp).replyDatas k = some d → d.msgNo = k := by
  intro k d hd
  rw [insertReply_replies, Option.or_eq_some_iff] at hd
  rcases hd with hd | ⟨-, hd⟩
  · exact h k d hd
  · split at hd
    · obtain rfl := Option.some.inj hd
      assumption
    · cases hd

theorem keyed_session {session : Session} {i : Session.Input} (h : Keyed s)
    (hs : s.session.step noServer i = some session) : Keyed {s with session} := by
  refine ⟨?_, h.result⟩
  cases hcallee : s.session.pc.callee with
  | input => exact Session.step_replies hcallee hs ▸ h.replies
  | output => exact (Session.step_output hcallee hs).replyDatas ▸ h.replies
  | execute =>
    obtain ⟨-, -, hdecode⟩ := Session.step_execute hcallee hs
    rcases Session.decodeNext_cases hdecode with
      ⟨rfl, -⟩ | ⟨out, -, -, ⟨-, rfl⟩ | ⟨-, ⟨writeBuffer, -, rfl⟩ | ⟨-, rfl⟩⟩⟩
    · exact h.replies
    · exact h.replies
    · exact h.replies
    · exact keyed_insertReply (c := (s.session.setReadBuffer out.buf).connection) out.data h.replies

theorem Keyed.resume (h : Keyed s) (hasleep : isAsleep s = true) : Keyed (resume s) := by
  rcases resume_cases hasleep with ⟨-, heq⟩ | ⟨-, -, heq⟩ | ⟨-, -, session, hs, heq⟩
  · rw [heq]
    exact h
  · rw [heq]
    exact ⟨h.replies, h.result⟩
  · rw [heq]
    exact keyed_session h hs

theorem keyed_find (h : Keyed s) : Keyed (find s) := by
  unfold find
  cases hres : s.session.connection.getResPackageData s.msgNo with
  | none => exact ⟨h.replies, h.result⟩
  | some r =>
    obtain ⟨d, hd, rfl⟩ := Option.map_eq_some_iff.mp hres
    constructor
    · intro k e he
      by_cases hk : k = s.msgNo
      · rw [hk] at he
        exact absurd ((Function.update_self ..).symm.trans he) nofun
      · exact h.replies k e ((Function.update_of_ne hk ..).symm.trans he)
    · intro e he
      obtain rfl : d = e := Except.ok.inj (Option.some.inj he)
      exact h.replies s.msgNo d hd

theorem keyed_step {settings : Settings} {i : Input} (h : Keyed s) (hs : step settings s i = some t) :
    Keyed t := by
  have herror : ∀ {u : State} {e : ErrorCode},
      u.session.connection.replyDatas = s.session.connection.replyDatas → u.result = some (.error e) →
      u.msgNo = s.msgNo → Keyed u := by
    intro u e hreplies hresult hnumber
    refine h.of_eq hreplies (fun d hd => ?_) hnumber
    rw [hresult] at hd
    cases hd
  cases step_moves hs with
  | @fireRpc rest htasks hasleep =>
    have hflag : Keyed (setOverTimeFlag {s with timer := {s.timer with tasks := rest}, isTimeout := true} true) :=
      ⟨h.replies, h.result⟩
    exact hflag.resume hasleep
  | @fireConnect rest htasks hpc =>
    have hflag : Keyed {s with timer := {s.timer with tasks := rest}, connectTimeout := true} :=
      ⟨h.replies, h.result⟩
    exact hflag.resume (asleep_of_connectWait hpc)
  | call => exact ⟨h.replies, nofun⟩
  | destroy =>
    refine h.of_eq ?_ (fun _ => id) rfl
    dsimp only
    split <;> rfl
  | connectFailed =>
    unfold connectFailed
    split
    · exact ⟨h.replies, h.result⟩
    split
    · exact herror rfl rfl rfl
    split
    · exact herror rfl rfl rfl
    · exact ⟨h.replies, h.result⟩
  | connected =>
    unfold connected
    split
    · exact herror rfl rfl rfl
    · exact ⟨h.replies, h.result⟩
  | checkOutput =>
    unfold checkOutput
    split <;> exact ⟨h.replies, h.result⟩
  | find => exact keyed_find h
  | checkInput =>
    unfold checkInput
    split
    · exact ⟨h.replies, h.result⟩
    split <;> exact ⟨h.replies, h.result⟩
  | advance hpc hsession => exact keyed_session h hsession
  | read hpc hsession => exact keyed_session h hsession
  | write hpc hsession => exact keyed_session h hsession
  | errSocket =>
    unfold failed
    split <;> exact herror rfl rfl rfl
  | resume hasleep => exact h.resume hasleep
  | _ => exact ⟨h.replies, h.result⟩

theorem keyed_initial (settings : Settings) (fd : Int) : Keyed (initial settings fd) where
  replies _ _ := nofun
  result _ := nofun

/-! ### Every run -/

theorem delivering_call (settings : Settings) (isMain : Bool) (h : Ready w.reply.msgNo s) :
    Delivering w s.session.connection.readBuffer.readable (call settings s w.reply.msgNo isMain) where
  placed := placed_outside rfl
  reached := rfl
  call _ := ⟨rfl, rfl⟩
  client := h.client
  buffer := h.buffer
  split _ := ⟨[], w.packets, rfl, rfl, congrArg (Option.map _) h.reply⟩
  up _ := h.state
  inTime _ _ := h.isOverTime
  reading := nofun
  asking _ := h.reply
  count := nofun
  drained := nofun

/-- **A received reply is delivered** exactly if a read made in time, with the reply's last byte or
after it, brings less than there was space for; what lay in the buffer before the call counts as
received. And whatever a peer sends, a call that returns zero returns a packet with its number. -/
theorem delivers_iff_takenUp (settings : Settings) (w : Replies) (s u : State) (isMain : Bool)
    (is : List Input) (fd : Int) (js : List Input) :
    (Ready w.reply.msgNo s → (∀ i ∈ is, ∀ msgNo isMain, i ≠ .call msgNo isMain) →
      s.session.connection.readBuffer.readable ++ received is <+: w.bytes →
      run (step settings) s (.call w.reply.msgNo isMain :: is) = some u →
        (Delivers settings w.reply u ↔ TakenUp settings w.upto s.session.connection.readBuffer.readable s
          (.call w.reply.msgNo isMain :: is))) ∧
    Always (step settings) (fun s => ∀ d, s.result = some (.ok d) → d.msgNo = s.msgNo)
      (initial settings fd) js := by
  constructor
  · intro hready hcall hgot hr
    obtain ⟨t, ht, hrest⟩ := run_cons_some.mp hr
    obtain rfl : t = call settings s w.reply.msgNo isMain := by
      cases step_moves ht with
      | call => rfl
    obtain ⟨hlast, howed⟩ := delivering_run (delivering_call settings isMain hready) hgot hcall hrest
    have hnot : ¬ Owed w s.session.connection.readBuffer.readable (call settings s w.reply.msgNo isMain) :=
      not_owed rfl ⟨nofun, nofun, nofun⟩
    have hfirst : TakenUp settings w.upto s.session.connection.readBuffer.readable s
        (.call w.reply.msgNo isMain :: is) ↔ _ := takenUp_cons ht
    have hcalled : ¬ Ends w.upto s.session.connection.readBuffer.readable s (.call w.reply.msgNo isMain) :=
      not_ends nofun
    rw [hfirst, or_iff_right hcalled]
    constructor
    · intro hdelivers
      have hlater := (howed.mp (owed_of_delivers hlast hgot hdelivers)).resolve_left hnot
      rwa [show Input.bytes (.call w.reply.msgNo isMain) = [] from rfl, List.append_nil]
    · intro htaken
      rw [show Input.bytes (.call w.reply.msgNo isMain) = [] from rfl, List.append_nil] at htaken
      exact delivers_of_owed hlast hgot (howed.mpr (.inr htaken))
  · have halways : Always (step settings) Keyed (initial settings fd) js :=
      always_of_inductive (fun _ _ _ hk ht => keyed_step hk ht) (keyed_initial settings fd) js
    exact halways.imp fun _ h => h.result

/-- The reply between two others. -/
def greeted : Replies where
  before := [{greeting with msgNo := [0x30]}]
  reply := greeting
  rest := [{greeting with msgNo := [0x32]}]
  first := by decide
  sendable q hq := by
    rcases hq with _ | ⟨_, _ | ⟨_, _ | ⟨_, ⟨⟩⟩⟩⟩ <;> exact ⟨by decide, by decide, by decide, by decide, by decide⟩

/-- The steps of a call up to its first read, and from one read to the next. -/
def awaits : List Input := List.replicate 6 .advance

/-- A call that reads them in two pieces, of which the first ends in the reply. -/
def greetedReads : List Input :=
  awaits ++ .read (.data (greeted.bytes.take 40)) :: (awaits ++ [.read (.data (greeted.bytes.drop 40))])

theorem delivers_iff_takenUp_greeted :
    ∃ u, run (step surroundings) (setState (initial surroundings 5) .connected)
        (.call greeting.msgNo false :: greetedReads) = some u ∧ Delivers surroundings greeting u := by
  have hsome : (run (step surroundings) (setState (initial surroundings 5) .connected)
      (.call greeting.msgNo false :: greetedReads)).isSome = true := by
    decide +kernel
  obtain ⟨u, hu⟩ := Option.isSome_iff_exists.mp hsome
  have hready : Ready greeted.reply.msgNo (setState (initial surroundings 5) .connected) :=
    ⟨rfl, rfl, rfl, rfl, make_wellFormed 128 (by decide) (by decide), rfl⟩
  have hbefore : (run (step surroundings) (setState (initial surroundings 5) .connected)
      (.call greeting.msgNo false :: (awaits ++ .read (.data (greeted.bytes.take 40)) :: awaits))).map (fun s =>
        (s.session.connection.isOverTime, s.session.connection.readBuffer.writeAble)) = some (false, 88) := by
    decide +kernel
  obtain ⟨t, ht, heq⟩ := Option.map_eq_some_iff.mp hbefore
  obtain ⟨htime, hspace⟩ := Prod.mk.inj heq
  have htaken : TakenUp surroundings greeted.upto [] (setState (initial surroundings 5) .connected)
      (.call greeting.msgNo false :: greetedReads) := by
    refine ⟨_, .read (.data (greeted.bytes.drop 40)), [], t, ?_, ht, _, rfl, htime, ?_, ?_⟩
    · simp only [greetedReads, List.cons_append, List.append_assoc]
    · rw [hspace]
      decide +kernel
    · decide +kernel
  have hiff := (delivers_iff_takenUp surroundings greeted _ u false greetedReads 5 []).1 hready
    (by
      rintro i hi msgNo isMain rfl
      simp [greetedReads, awaits] at hi)
    (by decide +kernel) hu
  exact ⟨u, hu, hiff.mpr htaken⟩

/-- A first call, whose reply leaves the buffer of 128 bytes empty. -/
def firstCall : List Input :=
  [.call [0x30] true, .advance, .connect .ok, .advance, .advance, .advance, .advance, .advance,
    .read (.data (frame {filling with msgNo := [0x30], pbData := List.replicate 20 0})),
    .advance, .advance, .advance, .advance, .advance]

/-- A reply that fills the buffer, and the end. -/
def filled : Replies where
  before := []
  reply := filling
  rest := []
  first := nofun
  sendable q hq := by
    obtain rfl := List.mem_singleton.mp hq
    exact filling_sendable

def filledReads : List Input :=
  [.advance, .advance, .advance, .advance, .advance, .advance, .read (.data (frame filling)), .read .eof,
    .advance, .advance, .socket 5 (.other 0)]

/-- Between calls no step of its own changes a client. -/
theorem delivered_of_idle {settings : Settings} {p : RpcFields} (hpc : s.pc = .idle)
    (hquiet : s.timer.resetting = false) (h : Delivers settings p s) :
    ∃ d, s.result = some (.ok d) ∧ d.toRpcFields = p := by
  obtain ⟨is, t, d, hown, hrun, hresult, hd⟩ := h
  cases is with
  | nil =>
    obtain rfl := Option.some.inj hrun
    exact ⟨d, hresult, hd⟩
  | cons i rest =>
    obtain ⟨u, hu, -⟩ := run_cons_some.mp hrun
    rcases hown i (List.mem_cons_self ..) with rfl | rfl
    · rw [show step settings s .advance = if s.timer.resetting then none else if s.pc = .idle then none else
          advance settings s from rfl, hquiet, if_neg Bool.false_ne_true, if_pos hpc] at hu
      cases hu
    · simp only [step, timerStep, Timer.step, hquiet, if_neg Bool.false_ne_true, Option.bind_eq_bind,
        Option.bind_none] at hu
      cases hu

/-- The call returns that the peer has closed, with the whole reply in the buffer. -/
theorem not_delivers_filled : ¬ ∀ (settings : Settings) (fd : Int) (js : List Input) (w : Replies)
    (s u : State) (isMain : Bool) (is : List Input), run (step settings) (initial settings fd) js = some s →
      Ready w.reply.msgNo s → (∀ i ∈ is, ∀ msgNo isMain, i ≠ .call msgNo isMain) →
      s.session.connection.readBuffer.readable ++ received is = w.bytes →
      run (step settings) s (.call w.reply.msgNo isMain :: is) = some u → u.pc = .idle →
        Delivers settings w.reply u := by
  intro h
  have hfirst : (run (step surroundings) (initial surroundings 5) firstCall).map (fun s =>
      (s.pc, s.session.connection.state, s.session.connection.connectionType,
        s.session.connection.isOverTime)) = some (.idle, .connected, .clientConnection, false) := by
    decide +kernel
  have hbuffer : (run (step surroundings) (initial surroundings 5) firstCall).map (fun s =>
      (s.session.connection.readBuffer.readIndex, s.session.connection.readBuffer.writeIndex,
        s.session.connection.readBuffer.buffer.length, s.session.connection.readBuffer.readable,
        (s.session.connection.replyDatas [0x31]).isNone)) = some (0, 0, 128, [], true) := by
    decide +kernel
  obtain ⟨s, hs, heq⟩ := Option.map_eq_some_iff.mp hfirst
  rw [hs, Option.map_some, Option.some.injEq] at hbuffer
  simp only [Prod.mk.injEq] at heq hbuffer
  obtain ⟨hpc, hstate, hclient, hover⟩ := heq
  obtain ⟨hread, hwrite, hlength, hempty, hreply⟩ := hbuffer
  have hready : Ready filled.reply.msgNo s :=
    ⟨hpc, hstate, hclient, hover, ⟨by omega, by omega, by omega, by omega⟩,
      Option.isNone_iff_eq_none.mp hreply⟩
  have hsecond : (run (step surroundings) (initial surroundings 5)
      (firstCall ++ .call [0x31] true :: filledReads)).map (fun s => (s.pc, s.timer.resetting, s.result)) =
      some (.idle, false, some (.error .peerClosed)) := by
    decide +kernel
  rw [run_append, hs, Option.bind_some] at hsecond
  obtain ⟨u, hu, heq⟩ := Option.map_eq_some_iff.mp hsecond
  simp only [Prod.mk.injEq] at heq
  obtain ⟨hidle, hquiet, hresult⟩ := heq
  have hdelivers := h surroundings 5 firstCall filled s u true filledReads hs hready
    (by
      rintro i hi msgNo isMain rfl
      simp [filledReads] at hi)
    (by
      rw [hempty]
      decide +kernel) hu hidle
  obtain ⟨d, hd, -⟩ := delivered_of_idle hidle hquiet hdelivers
  rw [hresult] at hd
  cases hd

end CoroutineRpc.Net.Tcp.Client
