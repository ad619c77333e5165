import CoroutineRpc.Net.Mutex
import CoroutineRpc.Net.Tasks
import CoroutineRpc.Net.LoopSingle

/-! What `Resume` switches to.

`lock` pushes its coroutine before it yields, and a hook registers its coroutine before it
yields. In between the coroutine is published: another thread can pop it and run its resume
task, or handle the event of its descriptor, while it still runs. `Resume` would not notice.
In the model of the loops a published coroutine is already where it is going to wait, and
the thread keeps it in `publishing` until its `Yield`. What keeps it from being resumed too
early is when its mutex pops it and when its descriptor is reported (`Settled`). A loop that goes
on resumes only what it has an event for (`nextResumed_called`), and gets no event that way
(`called_advance`). -/
namespace CoroutineRpc.Net.Switch
open Library.Transition Loop

/-- The threads are named by their reactors. -/
structure State (ρ κ μ : Type) where
  world : World ρ κ := {}
  mutexes : μ → CoroutineMutex κ := fun _ => {}
  /-- The resume tasks. -/
  tasks : ρ → TaskList κ := fun _ => {}
  /-- The coroutine of a thread between its publication and its `Yield`. -/
  publishing : ρ → Option κ := fun _ => none
  started : κ → Bool := fun _ => false

inductive Input (ρ κ μ : Type) where
  /-- The loop goes on; it takes the pending tasks after the queue. -/
  | advance (r : ρ)
  | leave (r : ρ)
  | poll (r : ρ) (reports : List Report)
  | pollError (r : ρ)
  /-- The loop runs its next resume task. -/
  | task (r : ρ)
  /-- `addCoroutine` of a new coroutine, on any thread. -/
  | addCoroutine (r : ρ) (c : κ)
  /-- The coroutine that runs calls a hook, up to its `toEpoll`. -/
  | hook (r : ρ) (fd : Int) (event : IOEvent)
  | hookReturn (r : ρ) (fd : Int)
  | lock (r : ρ) (m : μ)
  | unlock (r : ρ) (m : μ)
  /-- The `Yield` of a hook or of `lock`. -/
  | yield (r : ρ)
  /-- The last `Yield` of a coroutine. -/
  | finish (r : ρ)

variable {ρ κ μ : Type}

/-- The coroutine that the loop of `r` resumes when it goes on. -/
def nextResumed (type : ρ → ReactorType) (w : World ρ κ) (r : ρ) : Option κ :=
  match (w.threads r).pc with
  | .top => (w.threads r).firstCoroutine.map Prod.fst
  | .queue =>
    match type r, w.queue with
    | .sub, (fd, _) :: _ => (w.registry.fdEvents fd).coroutine
    | _, _ => none
  | .events ((.io fd events, _) :: _) =>
    if !events.epollin && !events.epollout then none
    else
      match type r, (w.threads r).firstCoroutine with
      | .main, some _ => (w.registry.fdEvents fd).coroutine
      | _, _ => none
  | _ => none

/-- The coroutine that a step would switch to: `Resume` asks only for `m_can_resume`, and its
thread is on the main coroutine. -/
def switches (type : ρ → ReactorType) (s : State ρ κ μ) (i : Input ρ κ μ) : Option κ :=
  let target := match i with
    | .advance r => nextResumed type s.world r
    | .task r => (s.tasks r).tmp.head?
    | _ => none
  target.filter s.world.canResume

/-- The coroutine has completed its `Yield` and runs on no thread. -/
def Suspended (s : State ρ κ μ) (c : κ) : Prop :=
  (∀ r, s.publishing r ≠ some c) ∧ ∀ r, s.world.place c ≠ .running r

/-- Whatever a step switches to is suspended. -/
def Switched (type : ρ → ReactorType) (s : State ρ κ μ) (i : Input ρ κ μ) : Prop :=
  ∀ c ∈ switches type s i, Suspended s c

/-- The coroutine that a step takes from a mutex. -/
def Input.popped (s : State ρ κ μ) : Input ρ κ μ → Option κ
  | .unlock _ m => (s.mutexes m).mSleepCors.head?
  | _ => none

/-- The descriptors that `epoll_wait` reports in a step. -/
def Input.reported : Input ρ κ μ → List Int
  | .poll _ reports => reports.filterMap Report.due
  | _ => []

/-- The descriptor that a step waits for. -/
def Input.hooked : Input ρ κ μ → Option Int
  | .hook _ fd _ => some fd
  | _ => none

/-- `unlock` pops a coroutine, and `epoll_wait` reports the descriptor that it waits for, only
behind the `Yield` that follows its push or its `toEpoll`, and a hook waits only for a
descriptor that no coroutine waits for. -/
structure Settled (s : State ρ κ μ) (i : Input ρ κ μ) : Prop where
  popped : ∀ c ∈ i.popped s, ∀ r, s.publishing r ≠ some c
  reported : ∀ fd ∈ i.reported, ∀ c ∈ (s.world.registry.fdEvents fd).coroutine, ∀ r, s.publishing r ≠ some c
  free : ∀ fd ∈ i.hooked, (s.world.registry.fdEvents fd).coroutine = none

section
variable [Fintype ρ] [DecidableEq ρ] [DecidableEq κ]

instance (s : State ρ κ μ) (c : κ) : Decidable (Suspended s c) := inferInstanceAs (Decidable (_ ∧ _))

instance (type : ρ → ReactorType) (s : State ρ κ μ) (i : Input ρ κ μ) : Decidable (Switched type s i) :=
  inferInstanceAs (Decidable (∀ c ∈ switches type s i, Suspended s c))

instance (s : State ρ κ μ) (i : Input ρ κ μ) : Decidable (Settled s i) :=
  decidable_of_iff ((∀ c ∈ i.popped s, ∀ r, s.publishing r ≠ some c) ∧
      (∀ fd ∈ i.reported, ∀ c ∈ (s.world.registry.fdEvents fd).coroutine, ∀ r, s.publishing r ≠ some c) ∧
      ∀ fd ∈ i.hooked, (s.world.registry.fdEvents fd).coroutine = none)
    ⟨fun h => ⟨h.1, h.2.1, h.2.2⟩, fun h => ⟨h.popped, h.reported, h.free⟩⟩

end

section
variable [DecidableEq ρ] [DecidableEq κ] [DecidableEq μ]

def setTasks (s : State ρ κ μ) (r : ρ) (l : TaskList κ) : State ρ κ μ :=
  {s with tasks := Function.update s.tasks r l}

/-- The loop of `r` goes on by an input of `World.step`. -/
def loopStep (type : ρ → ReactorType) (s : State ρ κ μ) (r : ρ) (i : Loop.Input ρ κ) :
    Option (State ρ κ μ) :=
  if s.publishing r = none then (s.world.step type i).map fun world => {s with world} else none

/-- After the queue the loop swaps the pending tasks with the empty `tmp_tasks`. -/
def swapTasks (s : State ρ κ μ) (r : ρ) : State ρ κ μ :=
  if (s.world.threads r).pc = .tasks then setTasks s r (s.tasks r).swap else s

/-- The coroutine that runs on a thread, unless it has been published. -/
def caller (s : State ρ κ μ) (r : ρ) : Option κ :=
  if s.publishing r = none then (s.world.threads r).current else none

/-- `c`, which runs on the thread of `r`, is published. -/
def publish (s : State ρ κ μ) (r : ρ) (c : κ) (world : World ρ κ) : State ρ κ μ :=
  {s with world, publishing := Function.update s.publishing r (some c)}

/-- `lock` of a held mutex pushes `c`, which will yield. -/
def lockBy (s : State ρ κ μ) (r : ρ) (m : μ) (c : κ) : State ρ κ μ :=
  match (s.mutexes m).lock c with
  | (mutex, true) => {s with mutexes := Function.update s.mutexes m mutex}
  | (mutex, false) =>
    publish {s with mutexes := Function.update s.mutexes m mutex} r c (s.world.swap r c .suspended none)

/-- `unlock` adds the resume task to the reactor of its own thread. -/
def unlockBy (s : State ρ κ μ) (r : ρ) (m : μ) : State ρ κ μ :=
  let (mutex, next) := (s.mutexes m).unlock
  setTasks {s with mutexes := Function.update s.mutexes m mutex} r ((s.tasks r).push next.toList)

def step (type : ρ → ReactorType) (s : State ρ κ μ) : Input ρ κ μ → Option (State ρ κ μ)
  | .advance r => (loopStep type s r (.advance r)).map fun s => swapTasks s r
  | .leave r => loopStep type s r (.leave r)
  | .poll r reports =>
    if (s.tasks r).tmp = [] then loopStep type s r (.poll r reports) else none
  | .pollError r => if (s.tasks r).tmp = [] then loopStep type s r (.pollError r) else none
  | .task r =>
    match (s.world.threads r).pc, (s.tasks r).tmp with
    | .tasks, c :: rest => loopStep type (setTasks s r {s.tasks r with tmp := rest}) r (.callback r c)
    | _, _ => none
  | .addCoroutine r c =>
    if s.started c then none
    else
      some (setTasks {s with started := Function.update s.started c true} r ((s.tasks r).push [c]))
  | .hook r fd event =>
    match caller s r with
    | some c => if 0 ≤ fd then some (publish s r c (s.world.hook r c fd event)) else none
    | none => none
  | .hookReturn r fd => loopStep type s r (.hookReturn r fd)
  | .lock r m =>
    match caller s r with
    | some c => some (lockBy s r m c)
    | none => none
  | .unlock r m =>
    match caller s r with
    | some _ => some (unlockBy s r m)
    | none => none
  | .yield r =>
    match s.publishing r with
    | some _ => some {s with publishing := Function.update s.publishing r none}
    | none => none
  | .finish r => loopStep type s r (.yield r)

end

/-! ### Who is resumed -/

/-- A loop has an event for the coroutine of `fd`: the descriptor is in the queue, its report is
still to be handled, or the coroutine is `first_coroutine`. -/
def Called (w : World ρ κ) (fd : Int) : Prop :=
  fd ∈ w.queue.map Prod.fst ∨ ∃ r, fd ∈ w.dueAt r ∨ w.First r fd

/-- Whatever a loop resumes waits in a hook whose descriptor it has an event for. -/
theorem nextResumed_called {type : ρ → ReactorType} {w : World ρ κ} (h : w.Single) {r : ρ} {c : κ}
    (hc : nextResumed type w r = some c) : ∃ k, w.place c = .hook k ∧ Called w k.fd := by
  unfold nextResumed at hc
  split at hc
  · next hpc =>
    obtain ⟨⟨c, cause⟩, hfirst, rfl⟩ := Option.map_eq_some_iff.mp hc
    have hclear : ¬ (w.threads r).pc.Clearing := by rw [hpc]; exact not_false
    obtain ⟨k, hk⟩ := (h.first r c cause hfirst).resolve_left hclear
    have hcor := (h.owner k.fd c).mpr ⟨k.event, k.ticket, hk⟩
    exact ⟨k, hk, .inr ⟨r, .inr ⟨hclear, c, cause, hfirst, hcor⟩⟩⟩
  · split at hc
    · next hqueue =>
      obtain ⟨event, ticket, hk⟩ := (h.owner _ c).mp hc
      refine ⟨_, hk, .inl ?_⟩
      rw [hqueue]
      exact List.mem_cons_self ..
    · cases hc
  · next fd events cause rest hpc =>
    split at hc
    · cases hc
    next hsome =>
    split at hc
    · obtain ⟨event, ticket, hk⟩ := (h.owner _ c).mp hc
      refine ⟨_, hk, .inr ⟨r, .inl ?_⟩⟩
      have hdue : (Report.io fd events).due = some fd :=
        if_pos (by simpa [Decidable.or_iff_not_not_and_not] using hsome)
      rw [World.dueAt, hpc, Pc.batch, List.map_cons, List.filterMap_cons_some hdue]
      exact List.mem_cons_self ..
    · cases hc
  · cases hc

section
variable [DecidableEq ρ] [DecidableEq κ]

theorem wake_place {w w' : World ρ κ} {r : ρ} {c : κ} {cause : Option Nat}
    (h : w.wake r c cause = some w') :
    w'.place = w.place ∨ w'.place = Function.update w.place c (.running r) := by
  rcases World.resume_cases h with ⟨-, rfl⟩ | ⟨-, -, rfl⟩ | ⟨k, -, -, rfl⟩
  · exact .inl rfl
  · exact .inr rfl
  · exact .inr rfl

/-- The loop moves the coroutine that it resumes, and no other. -/
theorem advance_place {type : ρ → ReactorType} {w w' : World ρ κ} {r : ρ}
    (h : w.advance type r = some w') :
    w'.place = w.place ∨
      ∃ c, nextResumed type w r = some c ∧ w'.place = Function.update w.place c (.running r) := by
  unfold World.advance at h
  unfold nextResumed
  cases hpc : (w.threads r).pc with
  | outside | timer rest | resumedFirst | resumedDirectly rest =>
    simp only [hpc] at h
    exact .inl (Option.some.inj h ▸ rfl)
  | top =>
    simp only [hpc] at h
    split at h
    · exact .inl (Option.some.inj h ▸ rfl)
    · next c cause hfirst => exact (wake_place h).imp_right fun hplace => ⟨c, by simp [hfirst], hplace⟩
  | queue =>
    simp only [hpc] at h
    split at h
    · exact .inl (Option.some.inj h ▸ rfl)
    · exact .inl (Option.some.inj h ▸ rfl)
    · next fd cause rest htype hqueue =>
      simp only [World.popped, Registry.setFdReactor_coroutine] at h
      cases hcor : (w.registry.fdEvents fd).coroutine with
      | none =>
        rw [hcor] at h
        exact .inl (Option.some.inj h ▸ rfl)
      | some c =>
        rw [hcor] at h
        exact (wake_place h).imp_right fun hplace => ⟨c, by simp [htype, hqueue, hcor], hplace⟩
  | tasks => simp [hpc] at h
  | events batch =>
    cases batch with
    | nil =>
      simp only [hpc] at h
      exact .inl (Option.some.inj h ▸ rfl)
    | cons item rest =>
      obtain ⟨report, cause⟩ := item
      simp only [hpc, World.handle] at h
      cases report with
      | wakeup | timer => exact .inl (Option.some.inj h ▸ rfl)
      | io fd events =>
        simp only at h
        split at h
        · exact .inl (Option.some.inj h ▸ rfl)
        · next hevents =>
          cases hcor : (w.registry.fdEvents fd).coroutine with
          | none =>
            simp only [hcor] at h
            exact .inl (Option.some.inj h ▸ rfl)
          | some c =>
            simp only [hcor] at h
            split at h
            · exact .inl (Option.some.inj h ▸ rfl)
            · next first hfirst =>
              split at h
              · exact .inl (Option.some.inj h ▸ rfl)
              · next htype =>
                refine (wake_place h).imp_right fun hplace => ⟨c, ?_, hplace⟩
                simp only [if_neg hevents, htype, hfirst, hcor]

/-- A loop that goes on resumes no coroutine but those in hooks. -/
theorem advance_suspended {type : ρ → ReactorType} {w w' : World ρ κ} (h : w.Single) {r : ρ}
    (hs : w.advance type r = some w') {c : κ} (hc : w.place c = .suspended) : w'.place c = .suspended := by
  rcases advance_place hs with heq | ⟨other, hother, heq⟩
  · rw [heq]
    exact hc
  · obtain ⟨k, hk, -⟩ := nextResumed_called h hother
    rw [heq, Function.update_of_ne (World.ne_of_place hk hc (by simp))]
    exact hc

end

/-! ### A loop that goes on has no new events -/

section
variable [DecidableEq ρ]

/-- A thread is called for what it was called for, or for what its new place says. -/
theorem called_setThread {w : World ρ κ} {r : ρ} {t : Thread κ} {fd : Int} (h : Called (w.setThread r t) fd)
    (hdue : fd ∈ (t.pc.batch.map Prod.fst).filterMap Report.due → Called w fd)
    (hfirst : ∀ c cause, ¬ t.pc.Clearing → t.firstCoroutine = some (c, cause) →
      (w.registry.fdEvents fd).coroutine = some c → Called w fd) : Called w fd := by
  rcases h with hqueue | ⟨r', h⟩
  · exact .inl hqueue
  by_cases hr : r' = r
  · subst hr
    rcases h with hin | ⟨hclear, c, cause, hc, hcor⟩
    · rw [World.dueAt, World.setThread_self] at hin
      exact hdue hin
    · rw [World.setThread_self] at hclear hc
      exact hfirst c cause hclear hc hcor
  · unfold World.dueAt World.First at h
    rw [World.setThread_ne w t hr] at h
    exact .inr ⟨r', h⟩

/-- A loop goes on with no more events than before. -/
theorem called_goto {w : World ρ κ} {r : ρ} {pc : Pc} {fd : Int} (h : Called (w.goto r pc) fd)
    (hbatch : pc.batch.Sublist (w.threads r).pc.batch) (hclear : ¬ (w.threads r).pc.Clearing) : Called w fd :=
  called_setThread h (fun hin => .inr ⟨r, .inl ((World.due_sublist hbatch).subset hin)⟩)
    fun c cause _ hc hcor => .inr ⟨r, .inr ⟨hclear, c, cause, hc, hcor⟩⟩

/-- And forgets `first_coroutine`. -/
theorem called_cleared {w : World ρ κ} {r : ρ} {pc : Pc} {fd : Int}
    (h : Called ((w.setFirst r none).goto r pc) fd) (hbatch : pc.batch.Sublist (w.threads r).pc.batch) :
    Called w fd := by
  rw [World.setFirst_goto] at h
  exact called_setThread h (fun hin => .inr ⟨r, .inl ((World.due_sublist hbatch).subset hin)⟩) fun _ _ _ hc => nomatch hc

end

/-- The queue gets no descriptor and no `FdEvent` a coroutine. -/
theorem called_of_le {w : World ρ κ} {registry : Registry ρ κ} {queue : List (Int × Option Nat)} {fd : Int}
    (h : Called {w with registry, queue} fd) (hqueue : fd ∈ queue.map Prod.fst → Called w fd)
    (hcor : ∀ c, (registry.fdEvents fd).coroutine = some c → (w.registry.fdEvents fd).coroutine = some c) :
    Called w fd := by
  rcases h with hin | ⟨r, hdue | ⟨hclear, c, cause, hc, hc'⟩⟩
  · exact hqueue hin
  · exact .inr ⟨r, .inl hdue⟩
  · exact .inr ⟨r, .inr ⟨hclear, c, cause, hc, hcor c hc'⟩⟩

section
variable [DecidableEq ρ] [DecidableEq κ]

theorem called_swap {w : World ρ κ} {r : ρ} {c : κ} {place : Place ρ} {current : Option κ} {fd : Int} :
    Called (w.swap r c place current) fd ↔ Called w fd := by
  unfold Called World.First
  simp only [World.swap_dueAt, World.swap_pc, World.swap_first]
  rfl

theorem called_resume {w w' : World ρ κ} {r : ρ} {c : κ} (hs : w.resume r c = some w') {fd : Int}
    (h : Called w' fd) : Called w fd := by
  rcases World.resume_cases hs with ⟨-, rfl⟩ | ⟨-, -, rfl⟩ | ⟨k, -, -, rfl⟩
  · exact h
  · exact called_swap.mp h
  · refine called_of_le (called_swap.mp h) .inl fun d hd => ?_
    rw [Registry.leaveEpoll_coroutine] at hd
    split at hd
    · cases hd
    · exact hd

theorem called_popped {w w' : World ρ κ} {r : ρ} {popped : Int} {cause : Option Nat}
    {rest : List (Int × Option Nat)} (hqueue : w.queue = (popped, cause) :: rest)
    (hs : {w with queue := rest}.popped r popped cause = some w') {fd : Int} (h : Called w' fd) : Called w fd := by
  have hset : Called {w with queue := rest, registry := w.registry.setFdReactor popped (some r)} fd →
      Called w fd := fun h => by
    refine called_of_le h (fun hin => .inl ?_) fun c hc => ?_
    · rw [hqueue]
      exact List.mem_cons_of_mem _ hin
    · rwa [Registry.setFdReactor_coroutine] at hc
  simp only [World.popped] at hs
  split at hs
  · obtain rfl := Option.some.inj hs
    exact hset h
  · exact hset (called_resume (w := World.log _ _ _) hs h)

theorem called_handle {type : ρ → ReactorType} {w w' : World ρ κ} (hw : w.Single) {r : ρ} {report : Report}
    {cause : Option Nat} {rest : Batch} (hpc : (w.threads r).pc = .events ((report, cause) :: rest))
    (hs : w.handle type r report cause rest = some w') {fd : Int} (h : Called w' fd) : Called w fd := by
  have hclear : ¬ (w.threads r).pc.Clearing := by rw [hpc]; exact not_false
  have hsub : rest.Sublist (w.threads r).pc.batch := by
    rw [hpc]
    exact List.sublist_cons_self ..
  have hgoto : ∀ pc : Pc, pc.batch = rest → Called (w.goto r pc) fd → Called w fd := fun pc hbatch h =>
    called_goto h (by rw [hbatch]; exact hsub) hclear
  unfold World.handle at hs
  cases report with
  | wakeup => exact hgoto (.events rest) rfl (Option.some.inj hs ▸ h)
  | timer => exact hgoto (.timer rest) rfl (Option.some.inj hs ▸ h)
  | io d events =>
    simp only at hs
    split at hs
    · obtain rfl := Option.some.inj hs
      exact called_of_le (called_goto h hsub hclear) .inl fun c hc => hc
    next hsome =>
    have hdue : w.dueAt r = d :: (rest.map Prod.fst).filterMap Report.due := by
      unfold World.dueAt
      rw [hpc]
      show ((.io d events : Report) :: rest.map Prod.fst).filterMap Report.due = _
      refine List.filterMap_cons_some (if_pos ?_)
      simpa [Decidable.or_iff_not_not_and_not] using hsome
    have hhead : Called w d := .inr ⟨r, .inl (by rw [hdue]; exact List.mem_cons_self ..)⟩
    cases hcor : (w.registry.fdEvents d).coroutine with
    | none =>
      simp only [hcor] at hs
      exact hgoto (.events rest) rfl (Option.some.inj hs ▸ h)
    | some c =>
      simp only [hcor] at hs
      split at hs
      · obtain rfl := Option.some.inj hs
        rw [World.setFirst_goto] at h
        refine called_setThread h (fun hin => ?_) fun c' cause' _ hc' hcor' => ?_
        · exact .inr ⟨r, .inl ((World.due_sublist hsub).subset hin)⟩
        · -- the coroutine of `d` waits for no other descriptor
          obtain ⟨rfl, -⟩ := Prod.mk.inj (Option.some.inj hc')
          obtain ⟨event, ticket, hk⟩ := (hw.owner d c).mp hcor
          obtain ⟨event', ticket', hk'⟩ := (hw.owner fd c).mp hcor'
          rw [hk] at hk'
          obtain rfl : d = fd := congrArg Hook.fd (Place.hook.inj hk')
          exact hhead
      · split at hs
        · obtain rfl := Option.some.inj hs
          refine called_of_le (called_goto h hsub hclear) (fun hin => ?_) fun c hc => ?_
          · rw [List.map_append, List.mem_append, List.map_singleton, List.mem_singleton] at hin
            rcases hin with hin | rfl
            · exact .inl hin
            · exact hhead
          · rwa [Registry.setFdReactor_coroutine] at hc
        · exact hgoto (.resumedDirectly rest) rfl (called_resume (w := World.log _ _ _) hs h)

theorem called_advance {type : ρ → ReactorType} {w w' : World ρ κ} (hw : w.Single) {r : ρ}
    (hs : w.advance type r = some w') {fd : Int} (h : Called w' fd) : Called w fd := by
  unfold World.advance at hs
  cases hpc : (w.threads r).pc with
  | outside =>
    simp only [hpc] at hs
    obtain rfl := Option.some.inj hs
    exact called_goto h (List.nil_sublist _) (by rw [hpc]; exact not_false)
  | timer rest =>
    simp only [hpc] at hs
    obtain rfl := Option.some.inj hs
    exact called_goto h (by rw [hpc]; exact List.Sublist.refl _) (by rw [hpc]; exact not_false)
  | resumedFirst =>
    simp only [hpc] at hs
    obtain rfl := Option.some.inj hs
    exact called_cleared h (List.nil_sublist _)
  | resumedDirectly rest =>
    simp only [hpc] at hs
    obtain rfl := Option.some.inj hs
    exact called_cleared h (by rw [hpc]; exact List.Sublist.refl _)
  | top =>
    simp only [hpc] at hs
    split at hs
    · obtain rfl := Option.some.inj hs
      exact called_goto h (List.nil_sublist _) (by rw [hpc]; exact not_false)
    · have hfirst := called_resume (w := World.log _ _ _) hs h
      exact called_goto hfirst (List.nil_sublist _) (by rw [hpc]; exact not_false)
  | queue =>
    have htasks : Called (w.goto r .tasks) fd → Called w fd := fun h =>
      called_goto h (List.nil_sublist _) (by rw [hpc]; exact not_false)
    simp only [hpc] at hs
    split at hs
    · exact htasks (Option.some.inj hs ▸ h)
    · exact htasks (Option.some.inj hs ▸ h)
    · next hqueue => exact called_popped hqueue hs h
  | tasks => simp [hpc] at hs
  | events batch =>
    cases batch with
    | nil =>
      simp only [hpc] at hs
      obtain rfl := Option.some.inj hs
      have hclear : ¬ (w.threads r).pc.Clearing := by rw [hpc]; exact not_false
      exact called_of_le (called_goto h (List.nil_sublist _) hclear) .inl fun c hc => hc
    | cons item rest =>
      obtain ⟨report, cause⟩ := item
      simp only [hpc] at hs
      exact called_handle hw hpc hs h

/-- A hook that has just registered is called by nobody, if nobody waited for its descriptor. -/
theorem called_hook {w : World ρ κ} (hw : w.Single) {r : ρ} {c : κ} {fd : Int} {event : IOEvent}
    (hc : w.place c = .running r) (hfree : (w.registry.fdEvents fd).coroutine = none) {d : Int}
    (h : Called (w.hook r c fd event) d) : d ≠ fd ∧ Called w d := by
  have hcor : ((w.hook r c fd event).registry.fdEvents d).coroutine =
      if d = fd then some c else (w.registry.fdEvents d).coroutine := by
    rw [← Registry.setFdReactor_coroutine w.registry fd d (some (w.registry.reactorOf r fd))]
    exact Registry.toEpoll_coroutine ..
  rcases h with hin | ⟨s, hdue | ⟨hclear, other, cause, hother, hcor'⟩⟩
  · refine ⟨?_, .inl hin⟩
    rintro rfl
    exact hw.queued d hin hfree
  · rw [World.hook, World.swap_dueAt] at hdue
    refine ⟨?_, .inr ⟨s, .inl hdue⟩⟩
    rintro rfl
    exact (hw.nowhere (.inr hfree) s).2.2.1 hdue
  · rw [World.hook, World.swap_pc] at hclear
    rw [World.hook, World.swap_first] at hother
    rw [hcor] at hcor'
    split at hcor'
    · -- `c` runs, so it is no loop's `first_coroutine`
      obtain rfl := Option.some.inj hcor'
      obtain ⟨k, hk⟩ := (hw.first s c cause hother).resolve_left hclear
      rw [hc] at hk
      cases hk
    · exact ⟨‹_›, .inr ⟨s, .inr ⟨hclear, other, cause, hother, hcor'⟩⟩⟩

end

end CoroutineRpc.Net.Switch
