import CoroutineRpc.Net.Tcp.Ownership

/-! What a failed call leaves.

A call that fails has replaced the socket, and the next one should start by connecting. But
only `clearClient` ever takes the connection out of the connected state, and nothing empties the
read buffer: a call that is out of time behind its connect leaves both as they were, and one
whose peer closes leaves the bytes it had. -/
namespace CoroutineRpc.Net.Tcp.Client
open Library.Transition

/-- Behind a call that returned an error the next call can begin. -/
def Reusable (s : State) : Prop := s.pc = .idle → ∀ e, s.result = some (.error e) →
  s.session.connection.state ≠ .connected ∧ s.session.connection.isOverTime = false ∧
    s.session.connection.readBuffer.readable = []

/-- The call sleeps on the close path, for good. -/
def Hung (s : State) : Prop := s.pc = .input ∧ s.session.pc = .closeWait

/-- The timer of a call that will return fires only while it waits for a connect, which then fails;
and in the main coroutine a read that brings nothing finds nothing in the buffer. -/
def FailsClean (s : State) : Input → Prop
  | .timer .runTask => s.timer.tasks.head? = some (.rpc s.calls) → s.pc = .connectWait ∨ Hung s
  | .connect result => s.isTimeout = true → result ≠ .ok ∧ result ≠ .failed .isConn
  | .read result => s.session.isMain = true → (result = .eof ∨ result = .error) →
      s.session.connection.readBuffer.readable = []
  | _ => True

/-- Where a call has no connection. -/
def Pc.unconnected : Pc → Bool
  | .connect | .connectWait | .connectResumed | .connectAgain | .resetFd true | .resetSocket true
  | .connectFailed | .errDeal | .errSocket => true
  | _ => false

/-- Where a call has one. -/
def Pc.running : Pc → Bool
  | .output | .find | .execute => true
  | _ => false

/-- Where there is no call. -/
def Pc.outside : Pc → Bool
  | .idle | .resetFd false | .resetSocket false => true
  | _ => false

/-- What a run keeps that meets `FailsClean`. -/
structure Clean (s : State) : Prop where
  empty : s.session.connection.state ≠ .connected →
    s.session.connection.readBuffer.readable = [] ∨ Hung s
  flag : s.session.connection.isOverTime = true →
    s.isTimeout = true ∧ s.pc.unconnected = true ∨ Hung s
  unconnected : s.pc.unconnected = true → s.session.connection.state ≠ .connected
  running : s.pc.running = true → s.session.connection.state = .connected
  reading : s.pc = .input → s.session.connection.state = .connected ∨
    s.session.pc = .returned .input ∧ s.session.connection.state = .closed ∨ s.session.pc = .closeWait
  returned : s.pc.outside = true → ∀ e, s.result = some (.error e) → s.session.connection.state ≠ .connected

/-- A step that leaves the call where it stands. -/
theorem Clean.keep {s t : State} (h : Clean s)
    (hconnection : t.session.connection.state = s.session.connection.state ∧
      t.session.connection.readBuffer = s.session.connection.readBuffer ∧
      t.session.connection.isOverTime = s.session.connection.isOverTime)
    (hsession : t.session.pc = s.session.pc) (hpc : t.pc = s.pc) (htimeout : t.isTimeout = s.isTimeout)
    (hresult : t.result = s.result) : Clean t := by
  obtain ⟨hstate, hbuffer, hover⟩ := hconnection
  have hhung : Hung t ↔ Hung s := by rw [Hung, Hung, hpc, hsession]
  refine ⟨?_, ?_, ?_, ?_, ?_, ?_⟩
  · rw [hstate, hbuffer, hhung]
    exact h.empty
  · rw [hover, htimeout, hpc, hhung]
    exact h.flag
  · rw [hpc, hstate]
    exact h.unconnected
  · rw [hpc, hstate]
    exact h.running
  · rw [hpc, hstate, hsession]
    exact h.reading
  · rw [hpc, hstate, hresult]
    exact h.returned

/-- A step from one place to another, outside `input`. -/
theorem Clean.move {s t : State} (h : Clean s) (hs : s.pc ≠ .input) (ht : t.pc ≠ .input)
    (hstate : t.session.connection.state = s.session.connection.state)
    (hbuffer : t.session.connection.readBuffer = s.session.connection.readBuffer)
    (hflag : t.session.connection.isOverTime = true → t.isTimeout = true ∧ t.pc.unconnected = true)
    (hunconnected : t.pc.unconnected = true → s.session.connection.state ≠ .connected)
    (hrunning : t.pc.running = true → s.session.connection.state = .connected)
    (hreturned : t.pc.outside = true → ∀ e, t.result = some (.error e) →
      s.session.connection.state ≠ .connected) : Clean t := by
  refine ⟨?_, fun hover => .inl (hflag hover), ?_, ?_, fun hinput => absurd hinput ht, ?_⟩
  · rw [hstate, hbuffer]
    exact fun hne => .inl ((h.empty hne).resolve_right fun hhung => hs hhung.1)
  · rw [hstate]
    exact hunconnected
  · rw [hstate]
    exact hrunning
  · rw [hstate]
    exact hreturned

/-- The flag is down where the call is not connecting. -/
theorem Clean.inTime {s : State} (h : Clean s) (hpc : s.pc.unconnected = false) (hhung : ¬ Hung s) :
    s.session.connection.isOverTime = false := by
  rw [← Bool.not_eq_true]
  intro hover
  have hflag := (h.flag hover).resolve_right hhung
  rw [hpc] at hflag
  cases hflag.2

theorem Clean.sessionStep {s : State} {session : Session} {i : Session.Input} (h : Clean s)
    (hplaced : Placed s) (hpc : s.pc.callee ≠ none)
    (hread : ∀ result, i = .read result → s.session.isMain = true → (result = .eof ∨ result = .error) →
      s.session.connection.readBuffer.readable = [])
    (hs : s.session.step noServer i = some session) : Clean {s with session} := by
  by_cases hhung : Hung s
  · obtain rfl := Session.step_hung hhung.2 (hplaced.hung hhung.1 hhung.2) hs
    exact h
  have hplain : s.pc.unconnected = false ∧ s.pc.outside = false := by
    cases hp : s.pc with
    | output => exact ⟨rfl, rfl⟩
    | input => exact ⟨rfl, rfl⟩
    | execute => exact ⟨rfl, rfl⟩
    | _ => rw [hp] at hpc; exact absurd rfl hpc
  have hover := h.inTime hplain.1 hhung
  have hframe := Session.step_frame hs
  -- the functions that are run have a connection, or `input` has returned
  have hconnected : s.session.connection.state = .connected := by
    cases hp : s.pc with
    | output => exact h.running (by rw [hp]; rfl)
    | execute => exact h.running (by rw [hp]; rfl)
    | input =>
      rcases h.reading hp with hstate | ⟨hreturned, -⟩ | hwait
      · exact hstate
      · rw [Session.step_returned hreturned] at hs
        cases hs
      · exact absurd ⟨hp, hwait⟩ hhung
    | _ => rw [hp] at hpc; exact absurd rfl hpc
  have hflag : session.connection.isOverTime = true → s.isTimeout = true ∧ s.pc.unconnected = true ∨
      Hung {s with session} := by
    intro hset
    rw [hframe.isOverTime, hover] at hset
    cases hset
  rcases Session.step_open hs with hopen | ⟨⟨hresult, -, hpcs⟩, rfl⟩
  · have hstate := hopen.state.trans hconnected
    exact ⟨fun hne => absurd hstate hne, hflag, fun hun => absurd (hplain.1.symm.trans hun) nofun,
      fun _ => hstate, fun _ => .inl hstate, fun hout => absurd (hplain.2.symm.trans hout) nofun⟩
  · have hinput : s.pc = .input := by
      have hcallee : s.session.pc.callee = .input := by
        rcases hpcs with ⟨n, hp⟩ | ⟨-, n, hp⟩ <;> rw [hp] <;> rfl
      exact hplaced.input hpc hcallee
    have hne : s.session.connection.state ≠ .closed := by
      rw [hconnected]
      nofun
    obtain ⟨hconnection, -⟩ := Session.closePath_spec hne
    refine ⟨fun _ => ?_, hflag, fun hun => absurd (hplain.1.symm.trans hun) nofun, ?_, fun _ => ?_,
      fun hout => absurd (hplain.2.symm.trans hout) nofun⟩
    · cases hmain : s.session.isMain with
      | true =>
        left
        rw [hconnection]
        rcases hresult with rfl | rfl
        · exact hread _ rfl hmain (.inl rfl)
        · exact hread _ rfl hmain (.inr rfl)
      | false =>
        right
        refine ⟨hinput, ?_⟩
        rw [Session.closePath_pc, hmain]
        rfl
    · intro hrun
      rw [show ({s with session := s.session.closePath} : State).pc = s.pc from rfl, hinput] at hrun
      cases hrun
    · right
      rw [Session.closePath_pc]
      split
      · exact .inl ⟨rfl, by rw [hconnection]⟩
      · exact .inr rfl

theorem Clean.outOfTime {s : State} (h : Clean s) (hs : s.pc ≠ .input)
    (hover : s.session.connection.isOverTime = true) : s.isTimeout = true ∧ s.pc.unconnected = true :=
  (h.flag hover).resolve_right fun hhung => hs hhung.1

/-- From one place without a connection to another. -/
theorem Clean.unconnectedMove {s t : State} (h : Clean s) (hs : s.pc.unconnected = true)
    (ht : t.pc.unconnected = true) (hout : t.pc.running = false ∧ t.pc.outside = false)
    (hconnection : t.session.connection = s.session.connection) (htimeout : t.isTimeout = s.isTimeout) :
    Clean t := by
  have hinput : s.pc ≠ .input ∧ t.pc ≠ .input := by
    constructor
    · intro hp
      rw [hp] at hs
      cases hs
    · intro hp
      rw [hp] at ht
      cases ht
  refine h.move hinput.1 hinput.2 (by rw [hconnection]) (by rw [hconnection]) ?_
    (fun _ => h.unconnected hs) (fun hrun => absurd (hout.1.symm.trans hrun) nofun)
    (fun ho => absurd (hout.2.symm.trans ho) nofun)
  intro hover
  rw [hconnection] at hover
  exact ⟨htimeout ▸ (h.outOfTime hinput.1 hover).1, ht⟩

/-- From a place where the flag is down to one where a connection is not missed. -/
theorem Clean.inTimeMove {s t : State} (h : Clean s) (hs : s.pc.unconnected = false ∧ s.pc ≠ .input)
    (ht : t.pc.unconnected = false ∧ t.pc ≠ .input)
    (hconnection : t.session.connection.state = s.session.connection.state ∧
      t.session.connection.readBuffer = s.session.connection.readBuffer ∧
      t.session.connection.isOverTime = s.session.connection.isOverTime)
    (hrunning : t.pc.running = true → s.session.connection.state = .connected)
    (hreturned : t.pc.outside = true → ∀ e, t.result = some (.error e) →
      s.session.connection.state ≠ .connected) : Clean t := by
  obtain ⟨hstate, hbuffer, hover⟩ := hconnection
  refine h.move hs.2 ht.2 hstate hbuffer ?_ (fun hun => absurd (ht.1.symm.trans hun) nofun) hrunning hreturned
  intro hset
  rw [hover, h.inTime hs.1 fun hhung => hs.2 hhung.1] at hset
  cases hset

theorem Clean.resume {s : State} (h : Clean s) (hplaced : Placed s) (hasleep : isAsleep s = true) :
    Clean (resume s) := by
  rcases resume_cases hasleep with ⟨-, heq⟩ | ⟨-, hpc, heq⟩ | ⟨-, hpc, session, hs, heq⟩
  · rw [heq]
    exact h
  · rw [heq]
    exact h.unconnectedMove (by rw [hpc]; rfl) rfl ⟨rfl, rfl⟩ rfl rfl
  · rw [heq]
    refine h.sessionStep (i := .resume) hplaced ?_ nofun hs
    rcases hpc with hpc | hpc <;> rw [hpc] <;> nofun

theorem clean_connectFailed {settings : Settings} {s : State} (h : Clean s) (hpc : s.pc = .connectFailed) :
    Clean (connectFailed settings s) := by
  have hstate : s.session.connection.state ≠ .connected := h.unconnected (by rw [hpc]; rfl)
  have hinput : s.pc ≠ .input := by rw [hpc]; nofun
  unfold connectFailed
  split
  · exact h.unconnectedMove (by rw [hpc]; rfl) rfl ⟨rfl, rfl⟩ rfl rfl
  rename_i htimeout
  have hflag : s.session.connection.isOverTime ≠ true := fun hover => htimeout (h.outOfTime hinput hover).1
  split
  · exact h.move hinput nofun rfl rfl (fun hover => absurd hover hflag) nofun nofun fun _ _ _ => hstate
  split
  · exact h.move hinput nofun rfl rfl (fun hover => absurd hover hflag) nofun nofun fun _ _ _ => hstate
  · exact h.move hinput nofun rfl rfl (fun hover => absurd hover hflag) nofun nofun nofun

theorem clean_checkInput {s : State} {callee : Callee} (h : Clean s) (hpc : s.pc = .input)
    (hreturned : s.session.pc = .returned callee) : Clean (checkInput s) := by
  have hhung : ¬ Hung s := by
    rintro ⟨-, hwait⟩
    rw [hreturned] at hwait
    cases hwait
  have hover := h.inTime (by rw [hpc]; rfl) hhung
  have hempty : s.session.connection.state ≠ .connected →
      s.session.connection.readBuffer.readable = [] := fun hne => (h.empty hne).resolve_right hhung
  have hflag : s.session.connection.isOverTime ≠ true := by simp [hover]
  unfold checkInput
  rw [if_neg hflag]
  split
  · rename_i hclosed
    have hstate : s.session.connection.state ≠ .connected := by
      rw [hclosed]
      nofun
    exact ⟨fun hne => .inl (hempty hne), fun hset => absurd hset hflag, fun _ => hstate, nofun, nofun, nofun⟩
  · rename_i hclosed
    refine ⟨fun hne => .inl (hempty hne), fun hset => absurd hset hflag, nofun, fun _ => ?_, nofun, nofun⟩
    rcases h.reading hpc with hstate | ⟨-, hstate⟩ | hwait
    · exact hstate
    · exact absurd hstate hclosed
    · exact absurd ⟨hpc, hwait⟩ hhung

theorem clean_step {settings : Settings} {s t : State} {i : Input} (h : Clean s) (hplaced : Placed s)
    (hclean : FailsClean s i) (hs : step settings s i = some t) : Clean t := by
  cases step_moves hs with
  | timer => exact h.keep ⟨rfl, rfl, rfl⟩ rfl rfl rfl rfl
  | fireOther => exact h.keep ⟨rfl, rfl, rfl⟩ rfl rfl rfl rfl
  | @fireRpc rest htasks hasleep =>
    have hflag : Clean (setOverTimeFlag
        {s with timer := {s.timer with tasks := rest}, isTimeout := true} true) := by
      rcases hclean (by rw [htasks]; rfl) with hpc | hhung
      swap
      · exact ⟨h.empty, fun _ => .inr hhung, h.unconnected, h.running, h.reading, h.returned⟩
      refine h.move (by rw [hpc]; nofun) ?_ rfl rfl (fun _ => ⟨rfl, ?_⟩) (fun _ => ?_) ?_ ?_
      · show s.pc ≠ .input
        rw [hpc]
        nofun
      · show s.pc.unconnected = true
        rw [hpc]
        rfl
      · exact h.unconnected (by rw [hpc]; rfl)
      · exact h.running
      · exact h.returned
    exact hflag.resume ⟨hplaced.callee, hplaced.hung⟩ hasleep
  | @fireConnect rest htasks hpc =>
    have hflag : Clean {s with timer := {s.timer with tasks := rest}, connectTimeout := true} :=
      h.keep ⟨rfl, rfl, rfl⟩ rfl rfl rfl rfl
    exact hflag.resume ⟨hplaced.callee, hplaced.hung⟩ (asleep_of_connectWait hpc)
  | elsewhere => exact h.keep ⟨rfl, rfl, rfl⟩ rfl rfl rfl rfl
  | call msgNo isMain hpc =>
    exact h.inTimeMove (by rw [hpc]; exact ⟨rfl, nofun⟩) ⟨rfl, nofun⟩ ⟨rfl, rfl, rfl⟩ nofun nofun
  | callResetFd hpc =>
    exact h.inTimeMove (by rw [hpc]; exact ⟨rfl, nofun⟩) ⟨rfl, nofun⟩ ⟨rfl, rfl, rfl⟩ nofun
      fun _ => h.returned (by rw [hpc]; rfl)
  | setTimeout v hpc => exact h.keep ⟨rfl, rfl, rfl⟩ rfl rfl rfl rfl
  | encode writeBuffer hpc => exact h.keep ⟨rfl, rfl, rfl⟩ rfl rfl rfl rfl
  | destroy hpc =>
    refine h.inTimeMove (by rw [hpc]; exact ⟨rfl, nofun⟩) ⟨rfl, nofun⟩ ?_ nofun nofun
    dsimp only
    split <;> exact ⟨rfl, rfl, rfl⟩
  | leaveLoop hpc =>
    exact h.inTimeMove (by rw [hpc]; exact ⟨rfl, nofun⟩) ⟨rfl, nofun⟩ ⟨rfl, rfl, rfl⟩ nofun nofun
  | connectNext hpc htimeout hstate =>
    have hinput : s.pc ≠ .input := by rw [hpc]; nofun
    have hover := h.inTime (by rw [hpc]; rfl) fun hhung => hinput hhung.1
    refine h.move hinput nofun rfl rfl (fun hset => ?_) (fun _ => hstate) nofun nofun
    exact absurd (hover.symm.trans hset) nofun
  | connectResumed hpc => exact h.unconnectedMove (by rw [hpc]; rfl) rfl ⟨rfl, rfl⟩ rfl rfl
  | closeFd hfd hpc =>
    rcases hpc with ⟨inCall, hpc, rfl⟩ | ⟨hpc, rfl⟩
    · cases inCall with
      | true => exact h.unconnectedMove (by rw [hpc]; rfl) rfl ⟨rfl, rfl⟩ rfl rfl
      | false =>
        exact h.inTimeMove (by rw [hpc]; exact ⟨rfl, nofun⟩) ⟨rfl, nofun⟩ ⟨rfl, rfl, rfl⟩ nofun
          fun _ => h.returned (by rw [hpc]; rfl)
    · exact h.unconnectedMove (by rw [hpc]; rfl) rfl ⟨rfl, rfl⟩ rfl rfl
  | connectFailed hpc => exact clean_connectFailed h hpc
  | connected hpc =>
    have hplace : s.pc.unconnected = false ∧ s.pc ≠ .input := by rw [hpc]; exact ⟨rfl, nofun⟩
    unfold connected
    split
    · rename_i hstate
      exact h.inTimeMove hplace ⟨rfl, nofun⟩ ⟨rfl, rfl, rfl⟩ nofun fun _ _ _ => hstate
    · rename_i hstate
      rw [not_not] at hstate
      exact h.inTimeMove hplace ⟨rfl, nofun⟩ ⟨hstate.symm, rfl, rfl⟩ (fun _ => hstate) nofun
  | checkOutput hpc =>
    have hplace : s.pc.unconnected = false ∧ s.pc ≠ .input := by rw [hpc]; exact ⟨rfl, nofun⟩
    have hover := h.inTime hplace.1 fun hhung => hplace.2 hhung.1
    unfold checkOutput
    rw [if_neg (by simp [hover])]
    exact h.inTimeMove hplace ⟨rfl, nofun⟩ ⟨rfl, rfl, rfl⟩ (fun _ => h.running (by rw [hpc]; rfl)) nofun
  | find hpc =>
    have hplace : s.pc.unconnected = false ∧ s.pc ≠ .input := by rw [hpc]; exact ⟨rfl, nofun⟩
    have hstate := h.running (by rw [hpc]; rfl)
    have hover := h.inTime hplace.1 fun hhung => hplace.2 hhung.1
    unfold find
    split
    · rename_i res connection hres
      obtain ⟨pbStruct, -, heq⟩ := Option.map_eq_some_iff.mp hres
      obtain ⟨rfl, rfl⟩ := Prod.mk.inj heq
      exact h.inTimeMove hplace ⟨rfl, nofun⟩ ⟨rfl, rfl, rfl⟩ nofun fun _ _ hres => nomatch hres
    · refine ⟨fun hne => absurd hstate hne, fun hset => ?_, nofun, nofun, fun _ => .inl hstate, nofun⟩
      exact absurd (hover.symm.trans hset) nofun
  | checkInput hpc hreturned => exact clean_checkInput h hpc hreturned
  | executed hpc =>
    exact h.inTimeMove (by rw [hpc]; exact ⟨rfl, nofun⟩) ⟨rfl, nofun⟩ ⟨rfl, rfl, rfl⟩
      (fun _ => h.running (by rw [hpc]; rfl)) nofun
  | advance hpc hsession => exact h.sessionStep (i := .advance) hplaced (by rw [hpc]; nofun) nofun hsession
  | read hpc hsession =>
    refine h.sessionStep hplaced (by rw [hpc]; nofun) ?_ hsession
    intro result hresult
    obtain rfl := Session.Input.read.inj hresult
    exact hclean
  | @write result session hpc hsession =>
    exact h.sessionStep (i := .write result) hplaced (by rw [hpc]; nofun) nofun hsession
  | connectDone hpc hresult =>
    -- the call is in time, or its connect fails
    have htimeout : s.isTimeout ≠ true := by
      intro htimeout
      obtain ⟨hok, hconn⟩ := hclean htimeout
      exact hresult.elim hok hconn
    have hinput : s.pc ≠ .input := by
      rcases hpc with hpc | hpc <;> rw [hpc] <;> nofun
    exact ⟨fun hne => absurd rfl hne, fun hset => absurd (h.outOfTime hinput hset).1 htimeout, nofun, nofun,
      nofun, nofun⟩
  | connectError errno hpc =>
    rcases hpc with hpc | hpc
    · exact h.unconnectedMove (by rw [hpc]; rfl) rfl ⟨rfl, rfl⟩ rfl rfl
    · exact h.unconnectedMove (by rw [hpc]; rfl) rfl ⟨rfl, rfl⟩ rfl rfl
  | connectWaits errno hpc => exact h.unconnectedMove (by rw [hpc]; rfl) rfl ⟨rfl, rfl⟩ rfl rfl
  | @resetSocket fd errno inCall descriptors hpc =>
    cases inCall with
    | true => exact h.unconnectedMove (by rw [hpc]; rfl) rfl ⟨rfl, rfl⟩ rfl rfl
    | false =>
      exact h.inTimeMove (by rw [hpc]; exact ⟨rfl, nofun⟩) ⟨rfl, nofun⟩ ⟨rfl, rfl, rfl⟩ nofun
        fun _ => h.returned (by rw [hpc]; rfl)
  | errSocket hpc =>
    have hinput : s.pc ≠ .input := by rw [hpc]; nofun
    have hstate := h.unconnected (by rw [hpc]; rfl)
    unfold failed
    split
    · exact h.move hinput nofun rfl rfl nofun nofun nofun fun _ _ _ => hstate
    · rename_i htimeout
      refine h.move hinput nofun rfl rfl (fun hset => ?_) nofun nofun fun _ _ _ => hstate
      exact absurd (h.outOfTime hinput hset).1 htimeout
  | resume hasleep => exact h.resume hplaced hasleep

theorem clean_initial (settings : Settings) (fd : Int) : Clean (initial settings fd) where
  empty _ := .inl (TcpBuffer.make_readable 128)
  flag := nofun
  unconnected := nofun
  running := nofun
  reading := nofun
  returned _ _ := nofun

/-- **A failed call leaves the client reusable** in every run in which a call's timer fires only
during a connect that fails, and the main coroutine has no bytes when its peer ends. -/
theorem reusable_of_failsClean (settings : Settings) (fd : Int) (is : List Input)
    (h : Meets (step settings) FailsClean (initial settings fd) is) :
    Always (step settings) Reusable (initial settings fd) is := by
  have halways : Always (step settings) (fun s => Placed s ∧ Clean s) (initial settings fd) is :=
    always_of_step (fun _ _ _ hs hk ht => ⟨placed_step hs.1 ht, clean_step hs.2 hs.1 hk ht⟩)
      ⟨placed_initial settings fd, clean_initial settings fd⟩ h
  refine halways.imp fun s hs hpc e he => ?_
  have hinput : s.pc ≠ .input := by rw [hpc]; nofun
  have hstate := hs.2.returned (by rw [hpc]; rfl) e he
  exact ⟨hstate, hs.2.inTime (by rw [hpc]; rfl) fun hhung => hinput hhung.1,
    (hs.2.empty hstate).resolve_right fun hhung => hinput hhung.1⟩

/-- A refused call. -/
theorem reusable_of_failsClean_refused :
    Always (step surroundings) Reusable (initial surroundings 5)
      [.call [0x31] true, .advance, .connect (.failed .connRefused), .advance, .socket 5 .connRefused,
        .advance] := by
  apply reusable_of_failsClean
  refine ⟨trivial, fun t ht => ?_⟩
  obtain rfl := Option.some.inj ht
  refine ⟨trivial, fun t ht => ?_⟩
  obtain rfl := Option.some.inj ht
  exact ⟨nofun, fun t ht => ⟨trivial, fun _ _ => ⟨trivial, fun _ _ => ⟨trivial, fun _ _ => trivial⟩⟩⟩⟩

/-- A call whose time is over while it waits for its reply. -/
def silence : List Input :=
  [.setTimeout 0, .call [0x31] false, .advance, .connect .ok, .advance, .advance, .advance, .advance,
    .advance, .read .error, .timer .onTimer, .timer .reset, .timer .runTask, .read .error, .advance, .advance,
    .socket 5 (.other 0)]

/-- The next call will not connect. -/
theorem not_reusable_silence : ¬ ∀ (settings : Settings) (fd : Int) (is : List Input),
    Always (step settings) Reusable (initial settings fd) is := by
  intro h
  have hrun := h surroundings 5 silence
  have hlast : (run (step surroundings) (initial surroundings 5) silence).map
      (fun s => (s.pc, s.result, s.session.connection.state)) =
        some (.idle, some (.error .rpcCallTimeout), .connected) := by
    decide +kernel
  obtain ⟨u, hu, heq⟩ := Option.map_eq_some_iff.mp hlast
  obtain ⟨hpc, hrest⟩ := Prod.mk.inj heq
  obtain ⟨hresult, hstate⟩ := Prod.mk.inj hrest
  exact (hrun.last hu hpc _ hresult).1 hstate

end CoroutineRpc.Net.Tcp.Client
