import CoroutineRpc.Net.Tcp.Client

/-! Which descriptor a client owns.

The descriptor is in three places: the client, its connection and the connection's event.
`resetFd` and `err_deal` close it and put what `socket()` returns in the first alone, and
`clearClient` closes it through the last. So the places agree only as long as the kernel
hands back the number that was just closed, and in the main coroutine, where a call goes on
behind `clearClient`, the descriptor is closed again. -/
namespace CoroutineRpc.Net.Tcp.Client
open Library.Transition

/-- Outside calls the connection uses the client's descriptor, and none was closed twice. -/
def Owns (s : State) : Prop :=
  (s.pc = .idle → s.session.connection.fd = s.fd) ∧ ClosedOnce s.session.descriptors.calls

/-- `socket()` returns the number that was just closed, and no read of the main coroutine
fails or finds the end. -/
def KeepsNumber (s : State) : Input → Prop
  | .socket fd _ => fd = s.fd
  | .read result => s.session.isMain = true → ∃ bytes, result = .data bytes
  | _ => True

/-- Where the client has closed its descriptor. -/
def Pc.closed : Pc → Bool
  | .resetSocket _ | .errSocket | .destroyed => true
  | _ => false

/-- What a run keeps that meets `KeepsNumber`. -/
structure Owning (s : State) : Prop where
  same : s.session.connection.fd = s.fd
  once : ClosedOnce s.session.descriptors.calls
  held : s.pc.closed = false →
    Held s.fd s.session.descriptors.calls ∨ s.pc = .input ∧ s.session.pc = .closeWait
  valid : s.pc.closed = true → 0 ≤ s.fd ∨ s.pc = .destroyed

/-- A step that moves no descriptor. -/
theorem Owning.of_eq {s t : State} (h : Owning s)
    (hconnection : t.session.connection.fd = s.session.connection.fd) (hfd : t.fd = s.fd)
    (hcalls : t.session.descriptors.calls = s.session.descriptors.calls)
    (hs : s.pc.closed = false ∧ s.pc ≠ .input) (ht : t.pc.closed = false) : Owning t where
  same := by rw [hconnection, hfd, h.same]
  once := by rw [hcalls]; exact h.once
  held _ := by
    rw [hfd, hcalls]
    exact .inl ((h.held hs.1).resolve_right fun hinput => hs.2 hinput.1)
  valid hclosed := by rw [ht] at hclosed; cases hclosed

/-- Nor does one that leaves the client where it stands. -/
theorem Owning.of_pc {s t : State} (h : Owning s)
    (hconnection : t.session.connection.fd = s.session.connection.fd) (hfd : t.fd = s.fd)
    (hcalls : t.session.descriptors.calls = s.session.descriptors.calls)
    (hsession : t.session.pc = s.session.pc) (hpc : t.pc = s.pc) : Owning t where
  same := by rw [hconnection, hfd, h.same]
  once := by rw [hcalls]; exact h.once
  held hclosed := by
    rw [hpc, hfd, hcalls, hsession]
    exact h.held (hpc ▸ hclosed)
  valid hclosed := by
    rw [hpc, hfd]
    exact h.valid (hpc ▸ hclosed)

theorem elsewhere_calls {d d' : Descriptors} {fd : Int} (h : d.elsewhere fd = some d') :
    d'.calls = d.calls := by
  unfold Descriptors.elsewhere at h
  split at h
  · exact Option.some.inj h ▸ rfl
  split at h
  · exact Option.some.inj h ▸ rfl
  · cases h

theorem closed_of_callee {pc : Pc} (h : pc.callee ≠ none) : pc.closed = false := by
  cases pc with
  | resetSocket inCall => exact absurd rfl h
  | errSocket => exact absurd rfl h
  | destroyed => exact absurd rfl h
  | _ => rfl

/-- The connection's functions close the descriptor only where the call then hangs. -/
theorem Owning.sessionStep {s : State} {session : Session} {i : Session.Input} (h : Owning s)
    (hplaced : Placed s) (hpc : s.pc.callee ≠ none)
    (hmain : ∀ result, i = .read result → s.session.isMain = true → ∃ bytes, result = .data bytes)
    (hs : s.session.step noServer i = some session) : Owning {s with session} := by
  have hclosed := closed_of_callee hpc
  have hframe := Session.step_frame hs
  have hvalid : s.pc.closed = true → 0 ≤ s.fd ∨ s.pc = .destroyed := fun hc => by
    rw [hclosed] at hc
    cases hc
  have hcases : (session = s.session ∨ ¬ (s.pc = .input ∧ s.session.pc = .closeWait)) := by
    by_cases hhung : s.pc = .input ∧ s.session.pc = .closeWait
    · exact .inl (Session.step_hung hhung.2 (hplaced.hung hhung.1 hhung.2) hs)
    · exact .inr hhung
  rcases hcases with rfl | hnot
  · exact h
  have hheld := (h.held hclosed).resolve_right hnot
  rcases Session.step_open hs with hopen | ⟨⟨hresult, -, hread⟩, rfl⟩
  · refine ⟨hframe.fd.trans h.same, ?_, fun _ => .inl ?_, hvalid⟩
    · rw [hopen.descriptors]
      exact h.once
    · rw [hopen.descriptors]
      exact hheld
  · -- a call of the main coroutine would go on
    have hcoroutine : s.session.isMain = false := by
      rw [← Bool.not_eq_true]
      intro hm
      rcases hresult with rfl | rfl
      · obtain ⟨bytes, hbytes⟩ := hmain _ rfl hm
        cases hbytes
      · obtain ⟨bytes, hbytes⟩ := hmain _ rfl hm
        cases hbytes
    have hinput : s.pc = .input := by
      have hcallee : s.session.pc.callee = .input := by
        rcases hread with ⟨n, hp⟩ | ⟨-, n, hp⟩ <;> rw [hp] <;> rfl
      exact hplaced.input hpc hcallee
    refine ⟨hframe.fd.trans h.same, ?_, fun _ => .inr ⟨hinput, ?_⟩, hvalid⟩
    · show ClosedOnce s.session.closePath.descriptors.calls
      by_cases hstate : s.session.connection.state = .closed
      · rw [Session.closePath_closed hstate]
        exact h.once
      · rw [(Session.closePath_spec hstate).2, Descriptors.close, h.same]
        exact closedOnce_close h.once hheld
    · rw [Session.closePath_pc, hcoroutine]
      rfl

theorem Owning.resume {s : State} (h : Owning s) (hplaced : Placed s) (hasleep : isAsleep s = true) :
    Owning (resume s) := by
  rcases resume_cases hasleep with ⟨-, heq⟩ | ⟨-, hpc, heq⟩ | ⟨-, hpc, session, hs, heq⟩
  · rw [heq]
    exact h
  · rw [heq]
    exact h.of_eq rfl rfl rfl (by rw [hpc]; exact ⟨rfl, nofun⟩) rfl
  · rw [heq]
    refine h.sessionStep (i := .resume) hplaced ?_ nofun hs
    rcases hpc with hpc | hpc <;> rw [hpc] <;> nofun

/-- The descriptor is closed, and the client knows its number until there is another. -/
theorem Owning.closeFd {s : State} {pc : Pc} (h : Owning s) (hfd : 0 ≤ s.fd)
    (hs : s.pc.closed = false ∧ s.pc ≠ .input) (hpc : pc.closed = true) :
    Owning {s with pc, session := {s.session with descriptors := s.session.descriptors.close s.fd}} where
  same := h.same
  once := closedOnce_close h.once ((h.held hs.1).resolve_right fun hinput => hs.2 hinput.1)
  held hclosed := by
    rw [hpc] at hclosed
    cases hclosed
  valid _ := .inl hfd

/-- The number that was just closed is the client's again. -/
theorem Owning.socket {s t : State} {fd : Int} {descriptors : Descriptors} (h : Owning s)
    (hsocket : s.session.descriptors.socket fd = some descriptors) (hfd : fd = s.fd)
    (hs : s.pc.closed = true ∧ s.pc ≠ .destroyed)
    (hconnection : t.session.connection.fd = s.session.connection.fd) (ht : t.fd = fd)
    (hdescriptors : t.session.descriptors = descriptors) (hpc : t.pc.closed = false) : Owning t := by
  have hnonneg := (h.valid hs.1).resolve_right hs.2
  have hcalls : descriptors.calls = s.session.descriptors.calls ++ [.socket fd] := by
    unfold Descriptors.socket at hsocket
    rw [if_neg (by omega)] at hsocket
    split at hsocket
    · exact Option.some.inj hsocket ▸ rfl
    · cases hsocket
  refine ⟨?_, ?_, fun _ => .inl ?_, fun hclosed => ?_⟩
  · rw [hconnection, ht, hfd, h.same]
  · rw [hdescriptors, hcalls]
    exact closedOnce_socket h.once fd
  · rw [hdescriptors, hcalls, ht]
    exact held_socket fd _
  · rw [hpc] at hclosed
    cases hclosed

theorem owning_step {settings : Settings} {s t : State} {i : Input} (h : Owning s) (hplaced : Placed s)
    (hkeeps : KeepsNumber s i) (hs : step settings s i = some t) : Owning t := by
  cases step_moves hs with
  | timer => exact h.of_pc rfl rfl rfl rfl rfl
  | fireOther => exact h.of_pc rfl rfl rfl rfl rfl
  | @fireRpc rest htasks hasleep =>
    have hflag : Owning (setOverTimeFlag
        {s with timer := {s.timer with tasks := rest}, isTimeout := true} true) :=
      h.of_pc rfl rfl rfl rfl rfl
    exact hflag.resume ⟨hplaced.callee, hplaced.hung⟩ hasleep
  | @fireConnect rest htasks hpc =>
    have hflag : Owning {s with timer := {s.timer with tasks := rest}, connectTimeout := true} :=
      h.of_pc rfl rfl rfl rfl rfl
    exact hflag.resume ⟨hplaced.callee, hplaced.hung⟩ (asleep_of_connectWait hpc)
  | elsewhere helse => exact h.of_pc rfl rfl (elsewhere_calls helse) rfl rfl
  | call msgNo isMain hpc => exact h.of_eq rfl rfl rfl (by rw [hpc]; exact ⟨rfl, nofun⟩) rfl
  | callResetFd hpc => exact h.of_eq rfl rfl rfl (by rw [hpc]; exact ⟨rfl, nofun⟩) rfl
  | setTimeout v hpc => exact h.of_pc rfl rfl rfl rfl rfl
  | encode writeBuffer hpc => exact h.of_pc rfl rfl rfl rfl rfl
  | destroy hpc =>
    dsimp only
    split
    · exact h.closeFd (by omega) (by rw [hpc]; exact ⟨rfl, nofun⟩) rfl
    · exact ⟨h.same, h.once, nofun, fun _ => .inr rfl⟩
  | leaveLoop hpc => exact h.of_eq rfl rfl rfl (by rw [hpc]; exact ⟨rfl, nofun⟩) rfl
  | connectNext hpc => exact h.of_eq rfl rfl rfl (by rw [hpc]; exact ⟨rfl, nofun⟩) rfl
  | connectResumed hpc => exact h.of_eq rfl rfl rfl (by rw [hpc]; exact ⟨rfl, nofun⟩) rfl
  | closeFd hfd hpc =>
    rcases hpc with ⟨inCall, hpc, rfl⟩ | ⟨hpc, rfl⟩
    · exact h.closeFd hfd (by rw [hpc]; exact ⟨rfl, nofun⟩) rfl
    · exact h.closeFd hfd (by rw [hpc]; exact ⟨rfl, nofun⟩) rfl
  | connectFailed hpc =>
    have hs : s.pc.closed = false ∧ s.pc ≠ .input := by rw [hpc]; exact ⟨rfl, nofun⟩
    unfold connectFailed
    split
    · exact h.of_eq rfl rfl rfl hs rfl
    split
    · exact h.of_eq rfl rfl rfl hs rfl
    split <;> exact h.of_eq rfl rfl rfl hs rfl
  | connected hpc =>
    have hs : s.pc.closed = false ∧ s.pc ≠ .input := by rw [hpc]; exact ⟨rfl, nofun⟩
    unfold connected
    split <;> exact h.of_eq rfl rfl rfl hs rfl
  | checkOutput hpc =>
    have hs : s.pc.closed = false ∧ s.pc ≠ .input := by rw [hpc]; exact ⟨rfl, nofun⟩
    unfold checkOutput
    split <;> exact h.of_eq rfl rfl rfl hs rfl
  | find hpc =>
    have hs : s.pc.closed = false ∧ s.pc ≠ .input := by rw [hpc]; exact ⟨rfl, nofun⟩
    unfold find
    split
    · rename_i res connection hres
      obtain ⟨pbStruct, -, heq⟩ := Option.map_eq_some_iff.mp hres
      obtain ⟨rfl, rfl⟩ := Prod.mk.inj heq
      exact h.of_eq rfl rfl rfl hs rfl
    · exact h.of_eq rfl rfl rfl hs rfl
  | checkInput hpc hreturned =>
    -- `input` has returned, so the call does not hang
    have hheld := (h.held (by rw [hpc]; rfl)).resolve_right fun hhung => by
      rw [hreturned] at hhung
      cases hhung.2
    unfold checkInput
    split
    · exact ⟨h.same, h.once, fun _ => .inl hheld, nofun⟩
    split
    · exact ⟨h.same, h.once, fun _ => .inl hheld, nofun⟩
    · exact ⟨h.same, h.once, fun _ => .inl hheld, nofun⟩
  | executed hpc => exact h.of_eq rfl rfl rfl (by rw [hpc]; exact ⟨rfl, nofun⟩) rfl
  | advance hpc hsession => exact h.sessionStep (i := .advance) hplaced (by rw [hpc]; nofun) nofun hsession
  | read hpc hsession =>
    refine h.sessionStep hplaced (by rw [hpc]; nofun) ?_ hsession
    intro result hresult
    obtain rfl := Session.Input.read.inj hresult
    exact hkeeps
  | @write result session hpc hsession =>
    exact h.sessionStep (i := .write result) hplaced (by rw [hpc]; nofun) nofun hsession
  | connectDone hpc =>
    rcases hpc with hpc | hpc
    · exact h.of_eq rfl rfl rfl (by rw [hpc]; exact ⟨rfl, nofun⟩) rfl
    · exact h.of_eq rfl rfl rfl (by rw [hpc]; exact ⟨rfl, nofun⟩) rfl
  | connectError errno hpc =>
    rcases hpc with hpc | hpc
    · exact h.of_eq rfl rfl rfl (by rw [hpc]; exact ⟨rfl, nofun⟩) rfl
    · exact h.of_eq rfl rfl rfl (by rw [hpc]; exact ⟨rfl, nofun⟩) rfl
  | connectWaits errno hpc => exact h.of_eq rfl rfl rfl (by rw [hpc]; exact ⟨rfl, nofun⟩) rfl
  | @resetSocket fd errno inCall descriptors hpc hsocket =>
    refine h.socket hsocket hkeeps (by rw [hpc]; exact ⟨rfl, nofun⟩) rfl rfl rfl ?_
    cases inCall <;> rfl
  | errSocket hpc hsocket =>
    unfold failed
    split
    · exact h.socket hsocket hkeeps (by rw [hpc]; exact ⟨rfl, nofun⟩) rfl rfl rfl rfl
    · exact h.socket hsocket hkeeps (by rw [hpc]; exact ⟨rfl, nofun⟩) rfl rfl rfl rfl
  | resume hasleep => exact h.resume hplaced hasleep

theorem owning_initial (settings : Settings) (fd : Int) : Owning (initial settings fd) where
  same := rfl
  once := @closedOnce_socket [] (fun before n after h => by simp at h) fd
  held _ := .inl (held_socket fd [])
  valid := nofun

/-- **The client owns its descriptor** in every run in which `socket()` returns the number that
was just closed and the main coroutine reads no end and no error. -/
theorem owns_of_keepsNumber (settings : Settings) (fd : Int) (is : List Input)
    (h : Meets (step settings) KeepsNumber (initial settings fd) is) :
    Always (step settings) Owns (initial settings fd) is := by
  have halways : Always (step settings) (fun s => Placed s ∧ Owning s) (initial settings fd) is :=
    always_of_step (fun _ _ _ hs hk ht => ⟨placed_step hs.1 ht, owning_step hs.2 hs.1 hk ht⟩)
      ⟨placed_initial settings fd, owning_initial settings fd⟩ h
  exact halways.imp fun s hs => ⟨fun _ => hs.2.same, hs.2.once⟩

/-- A peer that nobody listens to. -/
def surroundings : Settings := ⟨"127.0.0.1:1", fun _ => "", 10, fun n => n⟩

/-- A refused call, after which the kernel gives the same number again. -/
theorem owns_of_keepsNumber_refused :
    Always (step surroundings) Owns (initial surroundings 5)
      [.call [0x31] true, .advance, .connect (.failed .connRefused), .advance, .socket 5 .connRefused,
        .advance] := by
  apply owns_of_keepsNumber
  refine ⟨trivial, fun t ht => ?_⟩
  obtain rfl := Option.some.inj ht
  refine ⟨trivial, fun t ht => ?_⟩
  obtain rfl := Option.some.inj ht
  refine ⟨trivial, fun t ht => ?_⟩
  obtain rfl := Option.some.inj ht
  refine ⟨trivial, fun t ht => ?_⟩
  obtain rfl := Option.some.inj ht
  exact ⟨rfl, fun t ht => ⟨trivial, fun _ _ => trivial⟩⟩

/-- Another thread takes the number between the `close` and the `socket`: the connection keeps it. -/
theorem not_owns_number_taken : ¬ ∀ (settings : Settings) (fd : Int) (is : List Input),
    Always (step settings) Owns (initial settings fd) is := by
  intro h
  have hrun := h surroundings 5 [.call [0x31] true, .advance, .connect (.failed .connRefused), .advance,
    .elsewhere 5, .socket 6 .connRefused, .advance]
  have hsame : (5 : Int) = 6 := (hrun.last rfl).1 rfl
  cases hsame

end CoroutineRpc.Net.Tcp.Client
