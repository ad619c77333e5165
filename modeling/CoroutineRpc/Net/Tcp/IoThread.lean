import CoroutineRpc.Library.Transition

/-! An IO thread from its constructor to its destructor.

The owner constructs it and waits for its reactor, posts its start semaphore, and destroys it: `stop`,
and then `pthread_join`. `stop` and `loop` read and write `m_stop_flag` and `m_is_looping` without a
lock, so each access is a step. `loop` clears the flag after it has said that it loops, and `stop` sets
it only if it loops: what the thread does in between, and before, decides whether the destructor
returns (`destroyed_iff`). Others may write the eventfd at any time; nobody else stops the reactor. -/
namespace CoroutineRpc.Net.Tcp.IoThread
open Library.Transition

/-- Where `main` is, or the `loop` that it calls. -/
inductive Pc where
  | unborn
  /-- Up to `thread->m_reactor = t_reactor_ptr`. -/
  | constructing
  | posting
  /-- In `sem_wait(&thread->m_start_semaphore)`. -/
  | waiting
  | entering
  /-- Between `m_is_looping = true` and `m_stop_flag = false`. -/
  | clearing
  /-- At the condition of the loop. -/
  | test
  /-- Coroutines and tasks run. -/
  | working
  | blocked
  /-- The flag says that the eventfd is still to be read. -/
  | events (wake : Bool)
  | leaving
  | ended
deriving DecidableEq

/-- Where the owner is. -/
inductive Owner where
  | none
  /-- In `sem_wait(&m_init_semaphore)`. -/
  | constructing
  | made
  | started
  /-- In `stop`, at `!m_stop_flag`. -/
  | testing
  | asking
  | storing
  /-- In `wakeup`, at `m_is_looping`. -/
  | waking
  | writing
  /-- In `pthread_join`. -/
  | joining
  | gone
deriving DecidableEq

/-- `readable` if the eventfd has something to read. -/
structure State where
  owner : Owner := .none
  pc : Pc := .unborn
  reactor : Bool := false
  initSemaphore : Nat := 0
  startSemaphore : Nat := 0
  stopFlag : Bool := false
  isLooping : Bool := false
  readable : Bool := false
deriving DecidableEq

inductive Input where
  | construct
  /-- `IOThreadPool::start` for this thread. -/
  | start
  | destroy
  /-- The owner goes on in what it has called. -/
  | goOn
  /-- The thread goes on. -/
  | thread
  /-- `epoll_wait` returns, with or without the eventfd: there is a timeout. -/
  | ready (wake : Bool)
  /-- Someone else writes the eventfd. -/
  | wakeup
deriving DecidableEq

/-- `~IOThread` does not look at `m_reactor` before it calls `stop`. -/
def goOn (s : State) : Option State :=
  match s.owner with
  | .constructing =>
    if 0 < s.initSemaphore then some {s with initSemaphore := s.initSemaphore - 1, owner := .made} else none
  | .testing => some {s with owner := if s.stopFlag then .joining else .asking}
  | .asking => some {s with owner := if s.isLooping then .storing else .joining}
  | .storing => some {s with stopFlag := true, owner := .waking}
  | .waking => some {s with owner := if s.isLooping then .writing else .joining}
  | .writing => some {s with readable := true, owner := .joining}
  | .joining => if s.pc = .ended then some {s with reactor := false, owner := .gone} else none
  | .none | .made | .started | .gone => none

def thread (s : State) : Option State :=
  match s.pc with
  | .constructing => some {s with reactor := true, pc := .posting}
  | .posting => some {s with initSemaphore := s.initSemaphore + 1, pc := .waiting}
  | .waiting =>
    if 0 < s.startSemaphore then some {s with startSemaphore := s.startSemaphore - 1, pc := .entering} else none
  | .entering =>
    if s.isLooping then some {s with pc := .ended} else some {s with isLooping := true, pc := .clearing}
  | .clearing => some {s with stopFlag := false, pc := .test}
  | .test => some {s with pc := if s.stopFlag then .leaving else .working}
  | .working => some {s with pc := .blocked}
  | .events true => some {s with readable := false, pc := .events false}
  | .events false => some {s with pc := .test}
  | .leaving => some {s with isLooping := false, pc := .ended}
  | .unborn | .blocked | .ended => none

def step (s : State) : Input → Option State
  | .construct => if s.owner = .none then some {s with owner := .constructing, pc := .constructing} else none
  | .start =>
    if s.owner = .made then some {s with startSemaphore := s.startSemaphore + 1, owner := .started} else none
  | .destroy => if s.owner = .made ∨ s.owner = .started then some {s with owner := .testing} else none
  | .goOn => goOn s
  | .thread => thread s
  | .ready wake =>
    if s.pc = .blocked ∧ (wake = true → s.readable = true) then some {s with pc := .events wake} else none
  | .wakeup => if s.reactor then some {s with readable := true} else none

/-! ### What every step keeps -/

/-- Inside `loop`, where `m_is_looping` is set. -/
def Pc.loops : Pc → Bool
  | .clearing | .test | .working | .blocked | .events _ | .leaving => true
  | .unborn | .constructing | .posting | .waiting | .entering | .ended => false

/-- `m_init_semaphore` has not been posted. -/
def Pc.early : Pc → Bool
  | .unborn | .constructing | .posting => true
  | _ => false

/-- The owner is behind its store to `m_stop_flag`, or has found nothing to stop. -/
def Owner.stopped : Owner → Bool
  | .waking | .writing | .joining | .gone => true
  | _ => false

/-- The reactor is there when the constructor returns, and says that it loops exactly while it does. -/
structure Made (s : State) : Prop where
  born : s.owner = .none → s.pc = .unborn
  made : s.pc.early = true → s.initSemaphore = 0 ∧ (s.owner = .none ∨ s.owner = .constructing)
  reactor : s.owner ≠ .gone → s.pc ≠ .unborn → s.pc ≠ .constructing → s.reactor = true
  looping : s.isLooping = s.pc.loops

/-- The flag is set by the owner alone, while the thread loops, and the thread ends for it alone. -/
structure Stopping (s : State) : Prop where
  storing : s.owner = .storing → s.pc.loops = true
  stop : s.stopFlag = true → s.owner.stopped = true ∧ (s.pc.loops = true ∨ s.pc = .ended)
  left : s.pc = .leaving ∨ s.pc = .ended → s.stopFlag = true
  gone : s.owner = .gone → s.pc = .ended

/-- Once `stop` has returned, a loop that did not see its flag is woken. -/
def Woken (s : State) : Prop :=
  s.owner = .joining → s.stopFlag = true → s.pc = .working ∨ s.pc = .blocked → s.readable = true

variable {s t u : State} {i : Input} {is : List Input}

theorem made_step (h : Made s) (ht : step s i = some t) (hgone : s.owner = .gone → s.pc = .ended) : Made t := by
  obtain ⟨hborn, hmade, hreactor, hlooping⟩ := h
  cases i with
  | thread =>
    simp only [step, thread] at ht
    split at ht
    all_goals constructor <;> grind -linarith [Pc.loops, Pc.early]
  | goOn =>
    simp only [step, goOn] at ht
    split at ht
    all_goals constructor <;> grind -linarith [Pc.early]
  | construct | start | destroy | ready wake | wakeup =>
    simp only [step] at ht
    constructor <;> grind -linarith [Pc.loops, Pc.early]

theorem stopping_step (hmade : Made s) (h : Stopping s) (ht : step s i = some t) : Stopping t := by
  have hlooping := hmade.looping
  have hborn := hmade.born
  obtain ⟨hstoring, hstop, hleft, hgone⟩ := h
  cases i with
  | thread =>
    simp only [step, thread] at ht
    split at ht
    all_goals constructor <;> grind -linarith [Pc.loops, Owner.stopped]
  | goOn =>
    simp only [step, goOn] at ht
    split at ht
    all_goals constructor <;> grind -linarith [Owner.stopped]
  | construct | start | destroy | ready wake | wakeup =>
    simp only [step] at ht
    constructor <;> grind -linarith [Pc.loops, Owner.stopped]

theorem woken_step (hmade : Made s) (hstopping : Stopping s) (h : Woken s) (ht : step s i = some t) : Woken t := by
  have hlooping := hmade.looping
  have hstop := hstopping.stop
  unfold Woken at h ⊢
  intro hjoin hflag hpc
  cases i with
  | thread =>
    simp only [step, thread] at ht
    split at ht
    all_goals grind -linarith
  | goOn =>
    simp only [step, goOn] at ht
    split at ht
    all_goals grind -linarith [Pc.loops, Owner.stopped]
  | construct | start | destroy | ready wake | wakeup =>
    simp only [step] at ht
    grind -linarith

structure Kept (s : State) : Prop where
  made : Made s
  stopping : Stopping s
  woken : Woken s

theorem kept_initial : Kept {} where
  made := ⟨fun _ => rfl, fun _ => ⟨rfl, .inl rfl⟩, fun _ h => absurd rfl h, rfl⟩
  stopping := ⟨nofun, nofun, fun h => by simp at h, nofun⟩
  woken := nofun

theorem kept_step (h : Kept s) (ht : step s i = some t) : Kept t where
  made := made_step h.made ht h.stopping.gone
  stopping := stopping_step h.made h.stopping ht
  woken := woken_step h.made h.stopping h.woken ht

theorem kept_run (hr : run step {} is = some t) : Kept t :=
  (always_of_inductive (fun _ _ _ h ht => kept_step h ht) kept_initial is).last hr

/-! ### What `stop` comes to -/

/-- The flag is set for good. -/
def Heard (s : State) : Prop := s.stopFlag = true ∧ s.pc ≠ .clearing

/-- The owner sets the flag while the thread is in its loop, and not on the way in. -/
def Landed (s : State) (i : Input) : Prop := i = .goOn ∧ s.owner = .storing ∧ s.pc ≠ .clearing

theorem heard_step (h : Kept s) (ht : step s i = some t) : Heard t ↔ Heard s ∨ Landed s i := by
  have hlooping := h.made.looping
  have hstop := h.stopping.stop
  unfold Heard Landed
  cases i with
  | thread =>
    simp only [step, thread] at ht
    split at ht
    all_goals grind -linarith [Pc.loops]
  | goOn =>
    simp only [step, goOn] at ht
    split at ht
    all_goals grind -linarith [Owner.stopped]
  | construct | start | destroy | ready wake | wakeup =>
    simp only [step] at ht
    grind -linarith [Owner.stopped]

theorem heard_iff (hs : Kept s) (hr : run step s is = some t) :
    Heard t ↔ Heard s ∨ Sometime step (fun s i _ _ => Landed s i) s is :=
  sometime_iff_of_step (fun _ _ _ h ht => kept_step h ht) (fun _ _ _ h ht => heard_step h ht) hs hr

/-- The steps that a thread with the flag set has still to take. -/
def Pc.left : Pc → Nat
  | .working => 6
  | .blocked => 5
  | .events true => 4
  | .events false => 3
  | .test => 2
  | .leaving => 1
  | _ => 0

def Input.isThread : Input → Bool
  | .thread | .ready _ => true
  | _ => false

theorem left_step (h : Kept s) (hheard : Heard s) (ht : step s i = some t) :
    t.pc.left + (if i.isThread then 1 else 0) ≤ s.pc.left := by
  have hborn := h.made.born
  have hstop := h.stopping.stop
  obtain ⟨hflag, hclear⟩ := hheard
  cases i with
  | thread =>
    simp only [step, thread] at ht
    split at ht
    all_goals grind -linarith [Pc.left, Input.isThread, Pc.loops]
  | goOn =>
    simp only [step, goOn] at ht
    split at ht
    all_goals grind -linarith [Input.isThread]
  | ready wake =>
    have hleft : (Pc.events wake).left ≤ 4 := by cases wake <;> decide
    simp only [step] at ht
    grind -linarith [Pc.left, Input.isThread]
  | construct | start | destroy | wakeup =>
    simp only [step] at ht
    grind -linarith [Input.isThread, Owner.stopped]

theorem left_le (pc : Pc) : pc.left ≤ 6 := by
  cases pc with
  | events wake => cases wake <;> decide
  | unborn | constructing | posting | waiting | entering | clearing | test | working | blocked | leaving | ended =>
    decide

theorem clearing_of_left {pc : Pc} (hleft : pc.left = 0) (hloops : pc.loops = true) : pc = .clearing := by
  cases pc with
  | clearing => rfl
  | events wake => cases wake <;> exact absurd hleft (by decide)
  | test | working | blocked | leaving => exact absurd hleft (by decide)
  | unborn | constructing | posting | waiting | entering | ended => exact absurd hloops (by decide)

theorem ended_of_left (h : Kept s) (hheard : Heard s) (hleft : s.pc.left = 0) : s.pc = .ended := by
  obtain ⟨-, hloops | hended⟩ := h.stopping.stop hheard.1
  · exact absurd (clearing_of_left hleft hloops) hheard.2
  · exact hended

/-- A thread with the flag set has ended when it has gone on so often. -/
theorem ended_run (h : Kept s) (hheard : Heard s) (hr : run step s is = some t)
    (hsteps : s.pc.left ≤ is.countP Input.isThread) : t.pc = .ended := by
  induction is generalizing s with
  | nil =>
    obtain rfl := Option.some.inj hr
    exact ended_of_left h hheard (Nat.le_zero.mp hsteps)
  | cons i rest ih =>
    obtain ⟨v, hv, hrest⟩ := run_cons_some.mp hr
    refine ih (kept_step h hv) ((heard_step h hv).mpr (.inl hheard)) hrest ?_
    have hless := left_step h hheard hv
    rw [List.countP_cons] at hsteps
    omega

/-- It waits for nothing but the timeout of `epoll_wait`. -/
theorem goes_on (h : Kept s) (hheard : Heard s) (hpc : s.pc ≠ .ended) :
    ∃ i v, i.isThread = true ∧ step s i = some v ∧ v.owner = s.owner := by
  have hstop := h.stopping.stop hheard.1
  have hclear := hheard.2
  cases hwhere : s.pc with
  | test =>
    have hv : step s .thread = some {s with pc := if s.stopFlag then .leaving else .working} := by
      simp only [step, thread, hwhere]
    exact ⟨_, _, rfl, hv, rfl⟩
  | working =>
    have hv : step s .thread = some {s with pc := .blocked} := by simp only [step, thread, hwhere]
    exact ⟨_, _, rfl, hv, rfl⟩
  | blocked =>
    have hv : step s (.ready false) = some {s with pc := .events false} := by simp [step, hwhere]
    exact ⟨_, _, rfl, hv, rfl⟩
  | events wake =>
    cases wake with
    | true =>
      have hv : step s .thread = some {s with readable := false, pc := .events false} := by
        simp only [step, thread, hwhere]
      exact ⟨_, _, rfl, hv, rfl⟩
    | false =>
      have hv : step s .thread = some {s with pc := .test} := by simp only [step, thread, hwhere]
      exact ⟨_, _, rfl, hv, rfl⟩
  | leaving =>
    have hv : step s .thread = some {s with isLooping := false, pc := .ended} := by simp only [step, thread, hwhere]
    exact ⟨_, _, rfl, hv, rfl⟩
  | unborn | constructing | posting | waiting | entering | clearing | ended => grind -linarith [Pc.loops]

theorem exists_ended (h : Kept s) (hheard : Heard s) :
    ∃ js u, run step s js = some u ∧ u.pc = .ended ∧ u.owner = s.owner := by
  induction hn : s.pc.left using Nat.strongRecOn generalizing s with
  | _ n ih =>
    by_cases hpc : s.pc = .ended
    · exact ⟨[], s, rfl, hpc, rfl⟩
    obtain ⟨i, v, hthread, hv, howner⟩ := goes_on h hheard hpc
    have hless := left_step h hheard hv
    rw [if_pos hthread] at hless
    obtain ⟨js, u, hu, hended, hsame⟩ := ih v.pc.left (by omega) (kept_step h hv)
      ((heard_step h hv).mpr (.inl hheard)) rfl
    exact ⟨i :: js, u, run_cons_some.mpr ⟨v, hv, hu⟩, hended, hsame.trans howner⟩

/-- In `pthread_join`, or behind it. -/
theorem joining_step (h : s.owner = .joining ∨ s.owner = .gone) (ht : step s i = some t) :
    t.owner = .joining ∨ t.owner = .gone := by
  cases i with
  | thread =>
    simp only [step, thread] at ht
    split at ht
    all_goals grind -linarith
  | goOn =>
    simp only [step, goOn] at ht
    split at ht
    all_goals grind -linarith
  | construct | start | destroy | ready wake | wakeup =>
    simp only [step] at ht
    grind -linarith

theorem heard_of_gone (hs : Kept s) (hjoin : s.owner = .joining) (hr : run step s is = some t)
    (hgone : t.owner = .gone) : Heard s := by
  have ht : Kept t := (always_of_inductive (fun _ _ _ h ht => kept_step h ht) hs is).last hr
  have hended := ht.stopping.gone hgone
  have hheard : Heard t := ⟨ht.stopping.left (.inr hended), by rw [hended]; decide⟩
  rcases (heard_iff hs hr).mp hheard with h | h
  · exact h
  · obtain ⟨v, i, w, rest, hv, -, -, hstoring, -⟩ := h.of_inductive (fun _ _ _ h ht => joining_step h ht) (.inl hjoin)
    rw [hstoring] at hv
    exact absurd hv (by decide)

/-- **A destructor that waits for its thread** can return exactly if `stop` set its flag while the thread
was in the loop: not before, and not between the two lines with which `loop` begins. Then six steps of
the thread are enough, whatever else goes on, and if it has not seen the flag yet it is woken; else the
destructor never returns. -/
theorem destroyed_iff (hr : run step {} is = some t) (hjoin : t.owner = .joining) :
    ((∃ js u, run step t js = some u ∧ u.owner = .gone) ↔ Sometime step (fun s i _ _ => Landed s i) {} is) ∧
      (Sometime step (fun s i _ _ => Landed s i) {} is →
        (t.pc = .working ∨ t.pc = .blocked → t.readable = true) ∧
        ∀ js u, run step t js = some u → 6 ≤ js.countP Input.isThread → u.pc = .ended) := by
  have hkept : Kept t := kept_run hr
  have hnot : ¬ Heard {} := fun h => Bool.noConfusion h.1
  have hheard : Heard t ↔ Sometime step (fun s i _ _ => Landed s i) {} is :=
    (heard_iff kept_initial hr).trans (or_iff_right hnot)
  rw [← hheard]
  refine ⟨⟨fun ⟨js, u, hu, hgone⟩ => heard_of_gone hkept hjoin hu hgone, fun h => ?_⟩, fun h => ⟨?_, ?_⟩⟩
  · obtain ⟨js, u, hu, hended, howner⟩ := exists_ended hkept h
    refine ⟨js ++ [.goOn], {u with reactor := false, owner := .gone}, ?_, rfl⟩
    rw [run_append, hu, Option.bind_some, run_cons, step, goOn, howner, hjoin]
    dsimp only
    rw [if_pos hended]
    rfl
  · exact hkept.woken hjoin h.1
  · intro js u hu hsteps
    exact ended_run hkept h hu (Nat.le_trans (left_le t.pc) hsteps)

/-- The destructor is called while the thread is in `epoll_wait`. -/
def calledLooping : State where
  owner := .joining
  pc := .blocked
  reactor := true
  stopFlag := true
  isLooping := true
  readable := true

theorem destroyed_iff_instance : ∃ js u, run step calledLooping js = some u ∧ u.owner = .gone := by
  have hr : run step {} ([.construct, .thread, .thread, .goOn, .start, .thread, .thread, .thread, .thread, .thread,
      .destroy, .goOn, .goOn] ++ .goOn :: [.goOn, .goOn]) = some calledLooping := by decide
  exact (destroyed_iff hr rfl).1.mpr (sometime_at rfl rfl ⟨rfl, by decide, by decide⟩)

/-- **Without `start` the destructor does not return**, as there is no loop to stop. -/
theorem never_destroyed (hr : run step {} is = some t) (hstart : .start ∉ is) : t.owner ≠ .gone := by
  have hwaits : ∀ s i t, s.startSemaphore = 0 ∧ (s.pc.early = true ∨ s.pc = .waiting) → i ≠ .start →
      step s i = some t → t.startSemaphore = 0 ∧ (t.pc.early = true ∨ t.pc = .waiting) := by
    intro s i t hs hi ht
    cases i with
    | thread =>
      simp only [step, thread] at ht
      split at ht
      all_goals grind -linarith [Pc.early]
    | goOn =>
      simp only [step, goOn] at ht
      split at ht
      all_goals grind -linarith
    | start => exact absurd rfl hi
    | construct | destroy | ready wake | wakeup =>
      simp only [step] at ht
      grind -linarith [Pc.early]
  have hguard : Meets step (fun _ i => i ≠ .start) {} is := meets_of_mem (fun i hi => ne_of_mem_of_not_mem hi hstart) _
  have hpc := ((always_of_step hwaits ⟨rfl, .inl rfl⟩ hguard).last hr).2
  intro hgone
  rw [(kept_run hr).stopping.gone hgone] at hpc
  exact absurd hpc (by decide)

/-- The destructor is called before `start`. -/
def calledWaiting : State where
  owner := .joining
  pc := .waiting
  reactor := true

theorem never_destroyed_instance : calledWaiting.owner ≠ .gone := by
  have hr : run step {} [.construct, .thread, .thread, .goOn, .destroy, .goOn, .goOn] = some calledWaiting := by decide
  exact never_destroyed hr (by decide)

end CoroutineRpc.Net.Tcp.IoThread
