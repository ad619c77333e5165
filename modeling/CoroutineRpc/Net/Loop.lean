import CoroutineRpc.Library.Transition
import CoroutineRpc.Net.FdEvent

/-! `Reactor::loop` on every thread, with the coroutines it resumes.

A `World` is the registry, the `CoroutineTaskQueue` that all loops share, where each
coroutine is, and for each reactor the place its loop has reached. A loop goes on by
`advance`; what the environment chooses are the events `epoll_wait` reports, the coroutines
that tasks and timer callbacks resume, and what a coroutine does while it runs. The sections
under a mutex are one step each, and so is `toEpoll` with the `Yield` after it.

Hook calls are numbered by tickets, and a log keeps every resumption that an event caused;
the program reads neither. -/
namespace CoroutineRpc.Net.Loop
open Library.Transition

inductive ReactorType where
  | main
  | sub
deriving DecidableEq

/-- A hook call that waits for an event of a descriptor. -/
structure Hook where
  fd : Int
  event : IOEvent
  ticket : Nat
deriving DecidableEq

/-- Where a coroutine is: in no hook, in one, or running on a thread. -/
inductive Place (ρ : Type) where
  | suspended
  | hook (h : Hook)
  | running (r : ρ)
deriving DecidableEq

/-- An event of `epoll_wait`: the eventfd, the timerfd, or a descriptor of the container. -/
inductive Report where
  | wakeup
  | timer
  | io (fd : Int) (events : Mask)
deriving DecidableEq

def Report.fd : Report → Option Int
  | .io fd _ => some fd
  | _ => none

/-- The events of a batch still to be handled, each with the ticket of the hook call that
registered its descriptor. -/
abbrev Batch := List (Report × Option Nat)

/-- Where a loop is; after a `Resume` the rest of its statement comes when the coroutine yields. -/
inductive Pc where
  | outside
  | top
  | resumedFirst
  | queue
  | tasks
  | events (batch : Batch)
  | timer (batch : Batch)
  | resumedDirectly (batch : Batch)
deriving DecidableEq

/-- A loop: `first_coroutine` with the ticket it was taken for, and the coroutine that runs
on the thread. -/
structure Thread (κ : Type) where
  pc : Pc := .outside
  firstCoroutine : Option (κ × Option Nat) := none
  current : Option κ := none

/-- A resumption that an event caused: where the coroutine was, and the hook call that
registered the descriptor. -/
structure Wakeup (ρ : Type) where
  place : Place ρ
  cause : Option Nat
deriving DecidableEq

structure World (ρ κ : Type) where
  registry : Registry ρ κ := {}
  queue : List (Int × Option Nat) := []
  place : κ → Place ρ := fun _ => .suspended
  canResume : κ → Bool := fun _ => true
  threads : ρ → Thread κ := fun _ => {}
  tickets : Nat := 0
  registrant : Int → Option Nat := fun _ => none
  wakeups : List (Wakeup ρ) := []

inductive Input (ρ κ : Type) where
  /-- The loop goes on. -/
  | advance (r : ρ)
  /-- The loop finds `m_stop_flag` set. -/
  | leave (r : ρ)
  /-- A task or a timer callback resumes a coroutine. -/
  | callback (r : ρ) (c : κ)
  | poll (r : ρ) (reports : List Report)
  | pollError (r : ρ)
  /-- The coroutine that runs calls a hook and waits. -/
  | hook (r : ρ) (fd : Int) (event : IOEvent)
  /-- It calls a hook that returns at once. -/
  | hookReturn (r : ρ) (fd : Int)
  | yield (r : ρ)
  /-- It yields with `m_can_resume` cleared, as a server connection does after `clearClient`. -/
  | quit (r : ρ)
  | unregister (r : ρ) (fd : Int)
  /-- A `TcpConnection` is made for a descriptor, on the reactor `owner`. -/
  | connection (fd : Int) (owner : ρ)

/-- A descriptor is reported while it is registered, with EPOLLIN and EPOLLOUT only where
they were asked for; other bits come with them or alone. -/
def Report.ready (s : Reactor Mask) : Report → Bool
  | .io fd events => (s.epoll fd).any fun interest =>
      (!events.epollin || interest.epollin) && (!events.epollout || interest.epollout)
  | _ => true

/-- What `epoll_wait` may report: at most `MAX_EVENTS` events, of different descriptors. -/
abbrev Reported (s : Reactor Mask) (reports : List Report) : Prop :=
  reports.length ≤ 10 ∧ (reports.filterMap Report.fd).Nodup ∧ ∀ report ∈ reports, report.ready s

namespace World
variable {ρ κ : Type}

/-- Coroutines at different places are different. -/
theorem ne_of_place {w : World ρ κ} {c other : κ} {p q : Place ρ} (hc : w.place c = p)
    (hother : w.place other = q) (hne : p ≠ q) : other ≠ c := by
  rintro rfl
  exact hne (hc.symm.trans hother)

section
variable [DecidableEq ρ]

def setThread (w : World ρ κ) (r : ρ) (t : Thread κ) : World ρ κ :=
  {w with threads := Function.update w.threads r t}

def goto (w : World ρ κ) (r : ρ) (pc : Pc) : World ρ κ :=
  w.setThread r {w.threads r with pc}

def setFirst (w : World ρ κ) (r : ρ) (first : Option (κ × Option Nat)) : World ρ κ :=
  w.setThread r {w.threads r with firstCoroutine := first}

@[simp] theorem goto_thread (w : World ρ κ) (r : ρ) (pc : Pc) :
    (w.goto r pc).threads r = {w.threads r with pc} := Function.update_self ..

@[simp] theorem setFirst_thread (w : World ρ κ) (r : ρ) (first : Option (κ × Option Nat)) :
    (w.setFirst r first).threads r = {w.threads r with firstCoroutine := first} := Function.update_self ..

@[simp] theorem goto_current (w : World ρ κ) (r r' : ρ) (pc : Pc) :
    ((w.goto r pc).threads r').current = (w.threads r').current := by
  unfold goto setThread
  by_cases hr : r' = r
  · simp [hr]
  · simp [hr]

@[simp] theorem setFirst_current (w : World ρ κ) (r r' : ρ) (first : Option (κ × Option Nat)) :
    ((w.setFirst r first).threads r').current = (w.threads r').current := by
  unfold setFirst setThread
  by_cases hr : r' = r
  · simp [hr]
  · simp [hr]

end

section
variable [DecidableEq ρ] [DecidableEq κ]

/-- `coctx_swap` on the thread of `r`: `c` is at `place`, and `current` runs. -/
def swap (w : World ρ κ) (r : ρ) (c : κ) (place : Place ρ) (current : Option κ) : World ρ κ :=
  {w with place := Function.update w.place c place}.setThread r {w.threads r with current}

theorem swap_place (w : World ρ κ) (r : ρ) (c other : κ) (place : Place ρ) (current : Option κ) :
    (w.swap r c place current).place other = if other = c then place else w.place other :=
  Function.update_apply ..

@[simp] theorem swap_thread (w : World ρ κ) (r : ρ) (c : κ) (place : Place ρ) (current : Option κ) :
    (w.swap r c place current).threads r = {w.threads r with current} := Function.update_self ..

theorem swap_current (w : World ρ κ) (r r' : ρ) (c : κ) (place : Place ρ) (current : Option κ) :
    ((w.swap r c place current).threads r').current = if r' = r then current else (w.threads r').current := by
  unfold swap setThread
  by_cases hr : r' = r
  · simp [hr]
  · simp [hr]

/-- `Resume`, from the main coroutine of the thread of `r`. A coroutine that returns into a
hook leaves the descriptor before anything else. To switch to a coroutine that runs on
another thread is undefined behaviour, and no step. -/
def resume (w : World ρ κ) (r : ρ) (c : κ) : Option (World ρ κ) :=
  if w.canResume c then
    match w.place c with
    | .running _ => none
    | .suspended => some (w.swap r c (.running r) (some c))
    | .hook h =>
      let registry := w.registry.leaveEpoll r h.fd h.event
      some ({w with registry}.swap r c (.running r) (some c))
  else some w

/-- The log before a `Resume` that an event causes. -/
def log (w : World ρ κ) (c : κ) (cause : Option Nat) : World ρ κ :=
  {w with wakeups := if w.canResume c then w.wakeups ++ [⟨w.place c, cause⟩] else w.wakeups}

/-- `Resume` because of an event. -/
def wake (w : World ρ κ) (r : ρ) (c : κ) (cause : Option Nat) : Option (World ρ κ) :=
  (w.log c cause).resume r c

/-- What the loop of `r` does with a descriptor popped from the queue. -/
def popped (w : World ρ κ) (r : ρ) (fd : Int) (cause : Option Nat) : Option (World ρ κ) :=
  let w := {w with registry := w.registry.setFdReactor fd (some r)}
  match (w.registry.fdEvents fd).coroutine with
  | none => some w
  | some c => w.wake r c cause

/-- The body of the loop over the events, for one event. -/
def handle (type : ρ → ReactorType) (w : World ρ κ) (r : ρ) (report : Report) (cause : Option Nat)
    (rest : Batch) : Option (World ρ κ) :=
  match report with
  | .wakeup => some (w.goto r (.events rest))
  | .timer => some (w.goto r (.timer rest))
  | .io fd events =>
    if !events.epollin && !events.epollout then
      let registry := w.registry.setReactor r ((w.registry.reactors r).delEventInLoopThread fd)
      some ({w with registry}.goto r (.events rest))
    else
      match (w.registry.fdEvents fd).coroutine with
      -- the callbacks of a descriptor of the container are null
      | none => some (w.goto r (.events rest))
      | some c =>
        match (w.threads r).firstCoroutine with
        | none => some ((w.setFirst r (some (c, cause))).goto r (.events rest))
        | some _ =>
          match type r with
          | .sub =>
            let registry := w.registry.setReactor r ((w.registry.reactors r).delEventInLoopThread fd)
            let registry := registry.setFdReactor fd none
            some ({w with registry, queue := w.queue ++ [(fd, cause)]}.goto r (.events rest))
          | .main => (w.goto r (.resumedDirectly rest)).wake r c cause

def advance (type : ρ → ReactorType) (w : World ρ κ) (r : ρ) : Option (World ρ κ) :=
  match (w.threads r).pc with
  | .outside => some (w.goto r .top)
  | .top =>
    match (w.threads r).firstCoroutine with
    | none => some (w.goto r .queue)
    | some (c, cause) => (w.goto r .resumedFirst).wake r c cause
  | .resumedFirst => some ((w.setFirst r none).goto r .queue)
  | .queue =>
    match type r, w.queue with
    | .main, _ => some (w.goto r .tasks)
    | .sub, [] => some (w.goto r .tasks)
    | .sub, (fd, cause) :: rest => {w with queue := rest}.popped r fd cause
  | .tasks => none
  | .events [] =>
    let registry := w.registry.setReactor r (w.registry.reactors r).drain
    some ({w with registry}.goto r .top)
  | .events ((report, cause) :: rest) => w.handle type r report cause rest
  | .timer rest => some (w.goto r (.events rest))
  | .resumedDirectly rest => some ((w.setFirst r none).goto r (.events rest))

def callback (w : World ρ κ) (r : ρ) (c : κ) : Option (World ρ κ) :=
  match (w.threads r).pc with
  | .tasks | .timer _ => w.resume r c
  -- `TcpServer::start` resumes the accept coroutine before its loop
  | .outside => w.resume r c
  | _ => none

/-- A report with the ticket of the last hook call on its descriptor. -/
def withCause (w : World ρ κ) (report : Report) : Report × Option Nat :=
  (report, report.fd.bind w.registrant)

def poll (w : World ρ κ) (r : ρ) (reports : List Report) : Option (World ρ κ) :=
  if (w.threads r).pc = .tasks ∧ Reported (w.registry.reactors r) reports then
    some (w.goto r (.events (reports.map w.withCause)))
  else none

/-- `read_hook`, `accept_hook`, `write_hook` or `connect_hook`, called by `c`, up to its `Yield`. -/
def hook (w : World ρ κ) (r : ρ) (c : κ) (fd : Int) (event : IOEvent) : World ρ κ :=
  let registry := w.registry.setFdReactor fd (some (w.registry.reactorOf r fd))
  let ticket := w.tickets
  let w := {w with
    registry := registry.toEpoll r c fd event
    tickets := ticket + 1
    registrant := Function.update w.registrant fd (some ticket)}
  w.swap r c (.hook ⟨fd, event, ticket⟩) none

theorem hook_place (w : World ρ κ) (r : ρ) (c other : κ) (fd : Int) (event : IOEvent) :
    (w.hook r c fd event).place other =
      if other = c then .hook ⟨fd, event, w.tickets⟩ else w.place other := Function.update_apply ..

theorem hook_current (w : World ρ κ) (r r' : ρ) (c : κ) (fd : Int) (event : IOEvent) :
    ((w.hook r c fd event).threads r').current = if r' = r then none else (w.threads r').current :=
  swap_current ..

/-- The descriptors of the container start at 0. -/
def step (type : ρ → ReactorType) (w : World ρ κ) : Input ρ κ → Option (World ρ κ)
  | .advance r => if (w.threads r).current.isNone then w.advance type r else none
  | .leave r =>
    if (w.threads r).current.isNone ∧ (w.threads r).pc = .top then
      some ((w.setFirst r none).goto r .outside)
    else none
  | .callback r c => if (w.threads r).current.isNone then w.callback r c else none
  | .poll r reports => if (w.threads r).current.isNone then w.poll r reports else none
  | .pollError r =>
    if (w.threads r).current.isNone ∧ (w.threads r).pc = .tasks then some (w.goto r .top) else none
  | .hook r fd event =>
    match (w.threads r).current with
    | some c => if 0 ≤ fd then some (w.hook r c fd event) else none
    | none => none
  | .hookReturn r fd =>
    if (w.threads r).current.isSome ∧ 0 ≤ fd then
      some {w with registry := w.registry.setFdReactor fd (some (w.registry.reactorOf r fd))}
    else none
  | .yield r =>
    match (w.threads r).current with
    | some c => some (w.swap r c .suspended none)
    | none => none
  | .quit r =>
    match (w.threads r).current with
    | some c =>
      let w := {w with canResume := Function.update w.canResume c false}
      some (w.swap r c .suspended none)
    | none => none
  | .unregister r fd =>
    if 0 ≤ fd then some {w with registry := w.registry.unregisterFromReactor r fd} else none
  | .connection fd owner =>
    if 0 ≤ fd then some {w with registry := w.registry.setFdReactor fd (some owner)} else none

/-! ### What a resumption does -/

/-- `c`, out of its hook, runs on the thread of `r`. -/
def running (w : World ρ κ) (r : ρ) (c : κ) (registry : Registry ρ κ) : World ρ κ :=
  {w with registry}.swap r c (.running r) (some c)

theorem resume_cases {w w' : World ρ κ} {r : ρ} {c : κ} (h : w.resume r c = some w') :
    (w.canResume c = false ∧ w' = w) ∨
    (w.canResume c ∧ w.place c = .suspended ∧ w' = w.running r c w.registry) ∨
    ∃ k, w.canResume c ∧ w.place c = .hook k ∧
      w' = w.running r c (w.registry.leaveEpoll r k.fd k.event) := by
  unfold resume at h
  split at h
  · next hable =>
    cases hplace : w.place c with
    | suspended =>
      rw [hplace] at h
      exact Or.inr (Or.inl ⟨hable, rfl, (Option.some.inj h).symm⟩)
    | hook k =>
      rw [hplace] at h
      exact Or.inr (Or.inr ⟨k, hable, rfl, (Option.some.inj h).symm⟩)
    | running r' =>
      rw [hplace] at h
      cases h
  · next hable => exact Or.inl ⟨by simpa using hable, (Option.some.inj h).symm⟩

/-- The other coroutines stay in their hooks. -/
theorem running_hook {w : World ρ κ} {r : ρ} {c other : κ} {registry : Registry ρ κ} {k : Hook} :
    (w.running r c registry).place other = .hook k ↔ other ≠ c ∧ w.place other = .hook k := by
  rw [running, swap_place]
  by_cases hother : other = c
  · simp [hother]
  · simp [hother]

/-! ### What a step does -/

theorem callback_resume {w w' : World ρ κ} {r : ρ} {c : κ} (h : w.callback r c = some w') :
    w.resume r c = some w' := by
  unfold callback at h
  split at h
  · exact h
  · exact h
  · exact h
  · cases h

/-- What a step can do, guards included where later results need them. -/
theorem step_cases {type : ρ → ReactorType} {w w' : World ρ κ} {i : Input ρ κ}
    (h : w.step type i = some w') :
    (∃ r, i = .advance r ∧ w.advance type r = some w') ∨
    (∃ r, i = .leave r ∧ w' = (w.setFirst r none).goto r .outside) ∨
    (∃ r c, i = .callback r c ∧ w.resume r c = some w') ∨
    (∃ r reports, i = .poll r reports ∧ (w.threads r).pc = .tasks ∧
      w' = w.goto r (.events (reports.map w.withCause))) ∨
    (∃ r, i = .pollError r ∧ (w.threads r).pc = .tasks ∧ w' = w.goto r .top) ∨
    (∃ r c fd event, i = .hook r fd event ∧ (w.threads r).current = some c ∧ 0 ≤ fd ∧
      w' = w.hook r c fd event) ∨
    (∃ r fd, i = .hookReturn r fd ∧
      w' = {w with registry := w.registry.setFdReactor fd (some (w.registry.reactorOf r fd))}) ∨
    (∃ r c canResume, (i = .yield r ∨ i = .quit r) ∧ (w.threads r).current = some c ∧
      (∀ other, other ≠ c → canResume other = w.canResume other) ∧
      w' = {w with canResume}.swap r c .suspended none) ∨
    (∃ r fd, i = .unregister r fd ∧ w' = {w with registry := w.registry.unregisterFromReactor r fd}) ∨
    (∃ fd owner, i = .connection fd owner ∧
      w' = {w with registry := w.registry.setFdReactor fd (some owner)}) := by
  cases i with
  | advance r =>
    obtain ⟨-, h⟩ := Option.ite_none_right_eq_some.mp h
    exact .inl ⟨r, rfl, h⟩
  | leave r =>
    obtain ⟨-, h⟩ := Option.ite_none_right_eq_some.mp h
    exact .inr (.inl ⟨r, rfl, (Option.some.inj h).symm⟩)
  | callback r c =>
    obtain ⟨-, h⟩ := Option.ite_none_right_eq_some.mp h
    exact .inr (.inr (.inl ⟨r, c, rfl, callback_resume h⟩))
  | poll r reports =>
    obtain ⟨-, h⟩ := Option.ite_none_right_eq_some.mp h
    obtain ⟨⟨hpc, -⟩, h⟩ := Option.ite_none_right_eq_some.mp h
    exact .inr (.inr (.inr (.inl ⟨r, reports, rfl, hpc, (Option.some.inj h).symm⟩)))
  | pollError r =>
    obtain ⟨⟨-, hpc⟩, h⟩ := Option.ite_none_right_eq_some.mp h
    exact .inr (.inr (.inr (.inr (.inl ⟨r, rfl, hpc, (Option.some.inj h).symm⟩))))
  | hook r fd event =>
    simp only [step] at h
    split at h
    · next c hcur =>
      obtain ⟨hfd, h⟩ := Option.ite_none_right_eq_some.mp h
      exact .inr (.inr (.inr (.inr (.inr (.inl ⟨r, c, fd, event, rfl, hcur, hfd, (Option.some.inj h).symm⟩)))))
    · cases h
  | hookReturn r fd =>
    obtain ⟨-, h⟩ := Option.ite_none_right_eq_some.mp h
    exact .inr (.inr (.inr (.inr (.inr (.inr (.inl ⟨r, fd, rfl, (Option.some.inj h).symm⟩))))))
  | yield r =>
    simp only [step] at h
    split at h
    · next c hcur =>
      exact .inr (.inr (.inr (.inr (.inr (.inr (.inr (.inl ⟨r, c, w.canResume, .inl rfl, hcur,
        fun _ _ => rfl, (Option.some.inj h).symm⟩)))))))
    · cases h
  | quit r =>
    simp only [step] at h
    split at h
    · next c hcur =>
      exact .inr (.inr (.inr (.inr (.inr (.inr (.inr (.inl ⟨r, c, _, .inr rfl, hcur,
        fun _ hne => Function.update_of_ne hne .., (Option.some.inj h).symm⟩)))))))
    · cases h
  | unregister r fd =>
    obtain ⟨-, h⟩ := Option.ite_none_right_eq_some.mp h
    exact .inr (.inr (.inr (.inr (.inr (.inr (.inr (.inr (.inl ⟨r, fd, rfl, (Option.some.inj h).symm⟩))))))))
  | connection fd owner =>
    obtain ⟨-, h⟩ := Option.ite_none_right_eq_some.mp h
    exact .inr (.inr (.inr (.inr (.inr (.inr (.inr (.inr (.inr ⟨fd, owner, rfl, (Option.some.inj h).symm⟩))))))))

end

end World

end CoroutineRpc.Net.Loop
