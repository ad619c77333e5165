import CoroutineRpc.Library.Transition
import CoroutineRpc.Net.FdEvent

/-! The accept loop of `TcpServer`.

`MainAcceptCorFunc` is suspended at two places: in `accept_hook`, which has registered READ
and the coroutine with the `FdEvent` of the listening descriptor, and after a `toAccept` that
failed. At the second nothing is registered: `accept_hook` withdraws both when it is resumed,
before it calls `accept` again. The accept loop keeps listening exactly as long as no such
call fails (`listening_iff`). -/
namespace CoroutineRpc.Net.Tcp
open Library.Transition

inductive Family where
  | inet
  | unix
  | other
deriving DecidableEq

/-- The `TcpAcceptor` of a server, the reactor of the main thread and the coroutine that accepts. -/
structure TcpAcceptor (ρ κ : Type) where
  mFd : Int
  mFamily : Family
  mMainReactor : ρ
  mAcceptCor : κ

namespace Accept
variable {ρ κ : Type}

/-- Where the accept coroutine is: not started, about to make the first or the second `accept`
of `accept_hook`, suspended between them, or suspended by `MainAcceptCorFunc`. -/
inductive Pc where
  | created
  | accepting
  | hooked
  | woken
  | yielded
deriving DecidableEq

structure State (ρ κ : Type) where
  registry : Registry ρ κ := {}
  pc : Pc := .created
  /-- The reactor of the connection made for a descriptor. -/
  mClients : Int → Option ρ := fun _ => none
  mTcpCounts : Nat := 0

inductive Input (ρ : Type) where
  /-- The accept coroutine is resumed: by `start`, for an event, or for no reason. -/
  | resume
  /-- `accept` returns `rt`; a connection for it goes to `ioReactor`. -/
  | accept (rt : Int) (ioReactor : ρ)

section
variable (a : TcpAcceptor ρ κ)

/-- `toAccept`, up to the first `accept`. -/
def toAccept (s : State ρ κ) : State ρ κ :=
  match a.mFamily with
  | .inet | .unix =>
    let reactor := s.registry.reactorOf a.mMainReactor a.mFd
    {s with registry := s.registry.setFdReactor a.mFd (some reactor), pc := .accepting}
  -- the error path closes descriptor 0, the initial value of `rt`
  | .other => {s with pc := .yielded}

def addClient (s : State ρ κ) (fd : Int) (ioReactor : ρ) : State ρ κ :=
  {s with
    registry := s.registry.setFdReactor fd (some ioReactor)
    mClients := Function.update s.mClients fd (some ioReactor)}

/-- `MainAcceptCorFunc` after `toAccept` has returned `fd`. -/
def accepted (s : State ρ κ) (fd : Int) (ioReactor : ρ) : State ρ κ :=
  if fd = -1 then {s with pc := .yielded}
  else
    let s := addClient s fd ioReactor
    toAccept a {s with mTcpCounts := s.mTcpCounts + 1}

/-- `accept` returns -1 or a descriptor. -/
def step [DecidableEq ρ] (s : State ρ κ) : Input ρ → Option (State ρ κ)
  | .resume =>
    match s.pc with
    | .created | .yielded => some (toAccept a s)
    | .hooked =>
      let registry := s.registry.leaveEpoll a.mMainReactor a.mFd .read
      some {s with registry, pc := .woken}
    | .accepting | .woken => none
  | .accept rt ioReactor =>
    if rt < -1 then none
    else
      match s.pc with
      | .accepting =>
        if rt > 0 then some (accepted a s rt ioReactor)
        else
          let registry := s.registry.toEpoll a.mMainReactor a.mAcceptCor a.mFd .read
          some {s with registry, pc := .hooked}
      | .woken => some (accepted a s rt ioReactor)
      | .created | .hooked | .yielded => none

end

/-- The listening `FdEvent` waits to read, for the accept coroutine. -/
def Registered (a : TcpAcceptor ρ κ) (s : State ρ κ) : Prop :=
  (s.registry.fdEvents a.mFd).listenEvents.epollin ∧
    (s.registry.fdEvents a.mFd).coroutine = some a.mAcceptCor

def Listening (a : TcpAcceptor ρ κ) (s : State ρ κ) : Prop :=
  s.pc = .hooked ∨ s.pc = .yielded → Registered a s

/-- The family is supported, and an `accept` that `accept_hook` makes after it was resumed
returns a descriptor. -/
def Accepts (a : TcpAcceptor ρ κ) (s : State ρ κ) (i : Input ρ) : Prop :=
  a.mFamily ≠ .other ∧ ∀ rt r, i = .accept rt r → s.pc = .woken → rt ≠ -1

/-! ### What the hook leaves -/

/-- Outside the hook the `FdEvent` waits for nothing, inside it for the accept coroutine. -/
structure Hooked (a : TcpAcceptor ρ κ) (s : State ρ κ) : Prop where
  inside : s.pc = .hooked → Registered a s
  listens : s.pc ≠ .hooked → (s.registry.fdEvents a.mFd).listenEvents.has .read = false
  coroutine : s.pc ≠ .hooked → (s.registry.fdEvents a.mFd).coroutine = none
  family : s.pc ≠ .created → s.pc ≠ .yielded → a.mFamily ≠ .other

theorem hooked_init (a : TcpAcceptor ρ κ) : Hooked a {} where
  inside := by simp
  listens _ := rfl
  coroutine _ := rfl
  family hpc := absurd rfl hpc

/-- Outside the hook only the last suspension is wrong. -/
theorem Hooked.listening_iff_pc {a : TcpAcceptor ρ κ} {s : State ρ κ} (h : Hooked a s) :
    Listening a s ↔ s.pc ≠ .yielded := by
  constructor
  · intro hlisten hpc
    have hnone := h.coroutine (by simp [hpc])
    rw [(hlisten (.inr hpc)).2] at hnone
    cases hnone
  · intro hpc hsuspended
    exact h.inside (hsuspended.resolve_right hpc)

theorem setFdReactor_listens (g : Registry ρ κ) (fd other : Int) (r : Option ρ) :
    ((g.setFdReactor fd r).fdEvents other).listenEvents = (g.fdEvents other).listenEvents := by
  unfold Registry.setFdReactor Registry.setFdEvent
  by_cases hfd : other = fd
  · simp [hfd]
  · simp [hfd]

/-- Outside the hook a connection and a reactor are given without a change to that. -/
theorem Hooked.outside {a : TcpAcceptor ρ κ} {s t : State ρ κ} (h : Hooked a s) (hs : s.pc ≠ .hooked)
    (ht : t.pc ≠ .hooked)
    (hlistens : (t.registry.fdEvents a.mFd).listenEvents = (s.registry.fdEvents a.mFd).listenEvents)
    (hcoroutine : (t.registry.fdEvents a.mFd).coroutine = (s.registry.fdEvents a.mFd).coroutine)
    (hfamily : t.pc ≠ .created → t.pc ≠ .yielded → a.mFamily ≠ .other) : Hooked a t where
  inside hpc := absurd hpc ht
  listens _ := by rw [hlistens, h.listens hs]
  coroutine _ := by rw [hcoroutine, h.coroutine hs]
  family := hfamily

section
variable {a : TcpAcceptor ρ κ} {s t : State ρ κ}

theorem toAccept_pc (a : TcpAcceptor ρ κ) (s : State ρ κ) :
    (toAccept a s).pc = if a.mFamily = .other then .yielded else .accepting := by
  unfold toAccept
  cases a.mFamily with
  | inet => rfl
  | unix => rfl
  | other => rfl

theorem accepted_pc (a : TcpAcceptor ρ κ) (s : State ρ κ) (fd : Int) (ioReactor : ρ) :
    (accepted a s fd ioReactor).pc =
      if fd = -1 ∨ a.mFamily = .other then .yielded else .accepting := by
  unfold accepted
  by_cases hfd : fd = -1
  · simp [hfd]
  · simp only [hfd, if_false, toAccept_pc, false_or]

theorem Hooked.toAccept (h : Hooked a s) (hs : s.pc ≠ .hooked) : Hooked a (toAccept a s) := by
  have hpc := toAccept_pc a s
  refine h.outside hs ?_ ?_ ?_ ?_
  · rw [hpc]
    split <;> simp
  · unfold Accept.toAccept
    cases a.mFamily with
    | inet | unix => exact setFdReactor_listens ..
    | other => rfl
  · unfold Accept.toAccept
    cases a.mFamily with
    | inet | unix => exact Registry.setFdReactor_coroutine ..
    | other => rfl
  · intro _ hyielded hfamily
    rw [hpc, if_pos hfamily] at hyielded
    exact hyielded rfl

theorem Hooked.accepted (h : Hooked a s) (hs : s.pc ≠ .hooked) (fd : Int) (ioReactor : ρ) :
    Hooked a (accepted a s fd ioReactor) := by
  unfold Accept.accepted
  split
  · exact h.outside hs (by simp) rfl rfl fun _ hyielded => absurd rfl hyielded
  · have hclient : Hooked a {addClient s fd ioReactor with mTcpCounts := s.mTcpCounts + 1} :=
      h.outside hs hs (setFdReactor_listens ..) (Registry.setFdReactor_coroutine ..) h.family
    exact hclient.toAccept hs

end

section
variable [DecidableEq ρ] {a : TcpAcceptor ρ κ} {s t : State ρ κ}

theorem Hooked.toEpoll (h : Hooked a s) (hs : s.pc = .accepting) :
    Hooked a {s with
      registry := s.registry.toEpoll a.mMainReactor a.mAcceptCor a.mFd .read
      pc := .hooked} where
  inside _ := by
    have hat := (Registry.toEpoll_spec a.mMainReactor a.mAcceptCor (h.listens (by simp [hs]))).1
    show _ ∧ _
    rw [hat]
    exact ⟨rfl, rfl⟩
  listens hpc := absurd rfl hpc
  coroutine hpc := absurd rfl hpc
  family _ _ := h.family (by simp [hs]) (by simp [hs])

theorem Hooked.leaveEpoll (h : Hooked a s) (hs : s.pc = .hooked) :
    Hooked a {s with
      registry := s.registry.leaveEpoll a.mMainReactor a.mFd .read
      pc := .woken} where
  inside hpc := by cases hpc
  listens _ := by
    rw [Registry.leaveEpoll_listens]
    simp
  coroutine _ := by
    rw [Registry.leaveEpoll_coroutine]
    simp
  family _ _ := h.family (by simp [hs]) (by simp [hs])

/-! ### A step -/

/-- What a step can do. -/
theorem step_cases {i : Input ρ} (h : step a s i = some t) :
    (i = .resume ∧ (s.pc = .created ∨ s.pc = .yielded) ∧ t = toAccept a s) ∨
    (i = .resume ∧ s.pc = .hooked ∧ t =
      {s with registry := s.registry.leaveEpoll a.mMainReactor a.mFd .read, pc := .woken}) ∨
    (∃ rt r, i = .accept rt r ∧ s.pc = .accepting ∧ 0 < rt ∧ t = accepted a s rt r) ∨
    (∃ rt r, i = .accept rt r ∧ s.pc = .accepting ∧ t =
      {s with registry := s.registry.toEpoll a.mMainReactor a.mAcceptCor a.mFd .read, pc := .hooked}) ∨
    (∃ rt r, i = .accept rt r ∧ s.pc = .woken ∧ t = accepted a s rt r) := by
  cases i with
  | resume =>
    simp only [step] at h
    cases hpc : s.pc with
    | created | yielded =>
      simp only [hpc] at h
      exact .inl ⟨rfl, by simp, (Option.some.inj h).symm⟩
    | hooked =>
      simp only [hpc] at h
      exact .inr (.inl ⟨rfl, rfl, (Option.some.inj h).symm⟩)
    | accepting | woken => simp [hpc] at h
  | accept rt r =>
    simp only [step] at h
    split at h
    · cases h
    cases hpc : s.pc with
    | accepting =>
      simp only [hpc] at h
      split at h
      · next hrt => exact .inr (.inr (.inl ⟨rt, r, rfl, rfl, hrt, (Option.some.inj h).symm⟩))
      · exact .inr (.inr (.inr (.inl ⟨rt, r, rfl, rfl, (Option.some.inj h).symm⟩)))
    | woken =>
      simp only [hpc] at h
      exact .inr (.inr (.inr (.inr ⟨rt, r, rfl, rfl, (Option.some.inj h).symm⟩)))
    | created | hooked | yielded => simp [hpc] at h

theorem Hooked.step {i : Input ρ} (h : Hooked a s) (hs : step a s i = some t) : Hooked a t := by
  rcases step_cases hs with ⟨-, hpc, rfl⟩ | ⟨-, hpc, rfl⟩ | ⟨rt, r, -, hpc, -, rfl⟩ |
    ⟨rt, r, -, hpc, rfl⟩ | ⟨rt, r, -, hpc, rfl⟩
  · refine h.toAccept fun hhooked => ?_
    rw [hhooked] at hpc
    simp at hpc
  · exact h.leaveEpoll hpc
  · exact h.accepted (by simp [hpc]) rt r
  · exact h.toEpoll hpc
  · exact h.accepted (by simp [hpc]) rt r

/-- A step does not end at the last suspension exactly when it accepts. -/
theorem Hooked.accepts_iff {i : Input ρ} (h : Hooked a s) (hs : Accept.step a s i = some t) :
    t.pc ≠ .yielded ↔ Accepts a s i := by
  rcases step_cases hs with ⟨rfl, hpc, rfl⟩ | ⟨rfl, hpc, rfl⟩ | ⟨rt, r, rfl, hpc, hrt, rfl⟩ |
    ⟨rt, r, rfl, hpc, rfl⟩ | ⟨rt, r, rfl, hpc, rfl⟩
  · rw [toAccept_pc]
    simp [Accepts]
  · have hfamily := h.family (by simp [hpc]) (by simp [hpc])
    simp [Accepts, hfamily]
  · have hfamily := h.family (by simp [hpc]) (by simp [hpc])
    have hne : rt ≠ -1 := by omega
    rw [accepted_pc]
    simp [Accepts, hfamily, hpc, hne]
  · have hfamily := h.family (by simp [hpc]) (by simp [hpc])
    simp [Accepts, hfamily, hpc]
  · have hfamily := h.family (by simp [hpc]) (by simp [hpc])
    rw [accepted_pc]
    simp [Accepts, hfamily, hpc]

/-! ### Runs -/

/-- **The server keeps accepting** in a run exactly if each `accept` made after a wake-up
returns a descriptor, for a supported family. -/
theorem listening_iff (a : TcpAcceptor ρ κ) (u : State ρ κ) (inputs : List (Input ρ))
    (hr : run (step a) {} inputs = some u) :
    Always (step a) (Listening a) {} inputs ↔ Meets (step a) (Accepts a) {} inputs := by
  refine always_iff_meets (fun _ _ _ h hs => Hooked.step h hs) ?_ (hooked_init a) ?_ hr
  · intro s i t h _ hs
    rw [(h.step hs).listening_iff_pc]
    exact h.accepts_iff hs
  · rw [(hooked_init a).listening_iff_pc]
    simp

end

/-- A connection is accepted at once, another after a wake-up. -/
theorem listening_iff_two : let a : TcpAcceptor Bool Unit := ⟨3, .inet, false, ()⟩
    let inputs : List (Input Bool) := [.resume, .accept 7 true, .accept (-1) true, .resume, .accept 8 true]
    Always (step a) (Listening a) {} inputs ↔ Meets (step a) (Accepts a) {} inputs :=
  listening_iff _ _ _ rfl

/-- A wake-up whose connection is gone by the second `accept` leaves the server deaf. -/
theorem not_listening_aborted : ¬ ∀ (a : TcpAcceptor Unit Unit) (inputs : List (Input Unit)),
    Always (step a) (Listening a) {} inputs := fun h => by
  have hlast := (h ⟨3, .inet, (), ()⟩ [.resume, .accept (-1) (), .resume, .accept (-1) ()]).last rfl
  have hnone := (hlast (.inr rfl)).2
  cases hnone

end Accept
end CoroutineRpc.Net.Tcp
