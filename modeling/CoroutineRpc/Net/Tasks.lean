import CoroutineRpc.Library.Transition
import Mathlib.Algebra.Order.Ring.Int
import Mathlib.Logic.Function.Basic
import Mathlib.Data.List.ReduceOption

/-! The tasks of a reactor, and the eventfd that wakes its loop.

`addTask` pushes under the mutex, then tests `m_is_looping`, then writes the eventfd: three
steps, between which any other thread may take its own. The loop takes all pending tasks at
once, runs them, and blocks in `epoll_wait`; the eventfd is read only after that. Threads
other than the loop's call `addTask` at any time, the loop's own while it is not blocked.

Two lists only record: what was pushed and what was run, in order. -/
namespace CoroutineRpc.Net
open Library.Transition

/-- `m_pending_tasks`, and what is left of `tmp_tasks`. -/
structure TaskList (τ : Type) where
  pending : List τ := []
  tmp : List τ := []

namespace TaskList
variable {τ : Type}

def push (l : TaskList τ) (tasks : List τ) : TaskList τ := {l with pending := l.pending ++ tasks}

def swap (l : TaskList τ) : TaskList τ := ⟨[], l.pending⟩

end TaskList

namespace TaskLoop

/-- A `std::function`, which may be empty, with the call that pushed it. -/
structure Task (τ : Type) where
  body : Option τ
  isWakeup : Bool
  ticket : Nat

/-- A call of `addTask` that has pushed; `looping` once it has found `m_is_looping` set. -/
structure Call where
  isWakeup : Bool
  ticket : Nat
  looping : Bool := false

/-- Where the loop is. In `events` the flag says that the eventfd's event is still to be
handled. -/
inductive Pc where
  | outside
  | top
  | tasks
  | blocked
  | events (wake : Bool)
deriving DecidableEq

/-- `wakeFd` is the counter of the eventfd. -/
structure State (π τ : Type) where
  tasks : TaskList (Task τ) := {}
  isLooping : Bool := false
  wakeFd : Nat := 0
  pc : Pc := .outside
  calls : π → Option Call := fun _ => none
  tickets : Nat := 0
  inserted : List (Option τ) := []
  executed : List τ := []

inductive Input (π τ : Type) where
  /-- `addTask(task, is_wakeup)`, up to the end of its critical section. -/
  | addTask (p : π) (task : Option τ) (isWakeup : Bool)
  | addTasks (p : π) (tasks : List (Option τ)) (isWakeup : Bool)
  /-- The call goes on to `wakeup` and its test. -/
  | wakeup (p : π)
  | write (p : π)
  | start
  | swap
  | runTask
  | wait
  /-- `epoll_wait` returns events, with or without the eventfd's. -/
  | ready (wake : Bool)
  | error
  /-- One `read` of the eventfd. -/
  | drain
  /-- The loop itself pushes a callback of a descriptor. -/
  | callback (cb : Option τ)
  | next

section
variable {π τ : Type}

/-- The critical section of both overloads. -/
def insert (s : State π τ) (tasks : List (Option τ)) (isWakeup : Bool) : State π τ :=
  {s with
    tasks := s.tasks.push (tasks.map fun body => ⟨body, isWakeup, s.tickets⟩)
    tickets := s.tickets + 1
    inserted := s.inserted ++ tasks}

/-- A thread calls `addTask` while it is in no other call, the loop's own while it runs. -/
def mayCall [DecidableEq π] (me : π) (s : State π τ) (p : π) : Bool :=
  (s.calls p).isNone ∧ (p = me → s.pc ≠ .blocked)

/-- The loop goes on, its thread being in no call. -/
def loopStep (s : State π τ) : Input π τ → Option (State π τ)
  | .start => if s.pc = .outside then some {s with isLooping := true, pc := .top} else none
  | .swap => if s.pc = .top then some {s with tasks := s.tasks.swap, pc := .tasks} else none
  | .runTask =>
    match s.pc, s.tasks.tmp with
    | .tasks, task :: rest =>
      some {s with tasks := {s.tasks with tmp := rest}, executed := s.executed ++ task.body.toList}
    | _, _ => none
  | .wait => if s.pc = .tasks ∧ s.tasks.tmp = [] then some {s with pc := .blocked} else none
  | .ready wake =>
    if s.pc = .blocked ∧ (wake → 0 < s.wakeFd) then some {s with pc := .events wake} else none
  | .error => if s.pc = .blocked then some {s with pc := .top} else none
  | .drain =>
    if s.pc = .events true then
      -- the second read fails with EAGAIN
      if s.wakeFd = 0 then some {s with pc := .events false} else some {s with wakeFd := 0}
    else none
  | .callback cb =>
    match s.pc with
    | .events _ => some (insert s [cb] false)
    | _ => none
  | .next => if s.pc = .events false then some {s with pc := .top} else none
  | _ => none

section
variable [DecidableEq π]

def call (s : State π τ) (p : π) (tasks : List (Option τ)) (isWakeup : Bool) : State π τ :=
  {insert s tasks isWakeup with
    calls := Function.update s.calls p (some ⟨isWakeup, s.tickets, false⟩)}

def returned (s : State π τ) (p : π) : State π τ := {s with calls := Function.update s.calls p none}

def step (me : π) (s : State π τ) : Input π τ → Option (State π τ)
  | .addTask p task isWakeup => if mayCall me s p then some (call s p [task] isWakeup) else none
  | .addTasks p tasks isWakeup =>
    if mayCall me s p then
      if tasks = [] then some s else some (call s p tasks isWakeup)
    else none
  | .wakeup p =>
    match s.calls p with
    | some c =>
      if c.looping then none
      else if c.isWakeup ∧ s.isLooping then
        some {s with calls := Function.update s.calls p (some {c with looping := true})}
      else some (returned s p)
    | none => none
  | .write p =>
    match s.calls p with
    | some c =>
      if c.looping then
        -- a full counter refuses the write and stays readable
        let wakeFd := if s.wakeFd < 2 ^ 64 - 2 then s.wakeFd + 1 else s.wakeFd
        some (returned {s with wakeFd} p)
      else none
    | none => none
  | i => if (s.calls me).isNone then loopStep s i else none

end

/-! ### What is kept -/

/-- The functions that are not empty were executed in the order of insertion, up to some
point of it. -/
def InOrder (s : State π τ) : Prop := s.executed <+: s.inserted.reduceOption

/-- What was inserted and not executed is among the tasks that the loop has taken, or pending. -/
def NoneLost (s : State π τ) : Prop :=
  s.inserted.reduceOption = s.executed ++ (s.tasks.tmp.map Task.body ++ s.tasks.pending.map Task.body).reduceOption

/-- A blocked loop with a task whose `addTask(task, true)` has returned can read its eventfd. -/
def Woken (s : State π τ) : Prop := s.pc = .blocked → ∀ t ∈ s.tasks.pending, t.isWakeup →
  (∀ p c, s.calls p = some c → c.ticket ≠ t.ticket) → 0 < s.wakeFd

/-- A call that pushed `t` and will write the eventfd is under way. -/
def Announced (s : State π τ) (t : Task τ) : Prop :=
  ∃ p c, s.calls p = some c ∧ c.ticket = t.ticket ∧ c.isWakeup

structure Kept (s : State π τ) : Prop where
  order : s.inserted.reduceOption =
    s.executed ++ (s.tasks.tmp.map Task.body ++ s.tasks.pending.map Task.body).reduceOption
  ran : s.pc ≠ .tasks → s.tasks.tmp = []
  looping : s.pc ≠ .outside → s.isLooping
  /-- Between the swap and the next wake-up. -/
  woken : s.pc = .tasks ∨ s.pc = .blocked →
    ∀ t ∈ s.tasks.pending, t.isWakeup → 0 < s.wakeFd ∨ Announced s t

theorem kept_init : Kept ({} : State π τ) where
  order := rfl
  ran _ := rfl
  looping h := absurd rfl h
  woken _ _ := nofun

theorem Kept.inOrder {s : State π τ} (h : Kept s) : InOrder s := ⟨_, h.order.symm⟩

theorem Kept.noneLost {s : State π τ} (h : Kept s) : NoneLost s := h.order

theorem Kept.isWoken {s : State π τ} (h : Kept s) : Woken s := fun hpc t ht hwake hreturned => by
  rcases h.woken (.inr hpc) t ht hwake with hfd | ⟨p, c, hc, hticket, -⟩
  · exact hfd
  · exact absurd hticket (hreturned p c hc)

/-- What is inserted goes to the end of the pending tasks. -/
theorem insert_order {s : State π τ} (h : Kept s) (tasks : List (Option τ)) (isWakeup : Bool) :
    (insert s tasks isWakeup).inserted.reduceOption = s.executed ++
      (s.tasks.tmp.map Task.body ++ (insert s tasks isWakeup).tasks.pending.map Task.body).reduceOption := by
  have hbody : (insert s tasks isWakeup).tasks.pending.map Task.body =
      s.tasks.pending.map Task.body ++ tasks := by
    show (s.tasks.pending ++ tasks.map _).map Task.body = _
    rw [List.map_append, List.map_map]
    exact congrArg _ (List.map_id tasks)
  show (s.inserted ++ tasks).reduceOption = _
  rw [List.reduceOption_append, h.order, hbody, ← List.append_assoc, List.reduceOption_append _ tasks,
    List.append_assoc]

/-! ### The loop -/

/-- The loop moves on without a task. -/
theorem Kept.goto {s : State π τ} (h : Kept s) {pc : Pc} (htmp : s.tasks.tmp = [])
    (hlooping : s.pc ≠ .outside) (hpc : pc = .tasks ∨ pc = .blocked → s.pc = .tasks ∨ s.pc = .blocked) :
    Kept {s with pc} where
  order := h.order
  ran _ := htmp
  looping _ := h.looping hlooping
  woken hpc' := h.woken (hpc hpc')

/-- The swap leaves no task pending. -/
theorem Kept.swap {s : State π τ} (h : Kept s) (hpc : s.pc = .top) :
    Kept {s with tasks := s.tasks.swap, pc := .tasks} where
  order := by
    rw [h.order, h.ran (by rw [hpc]; nofun)]
    show _ = s.executed ++ (s.tasks.pending.map Task.body ++ []).reduceOption
    rw [List.append_nil]
    rfl
  ran hne := absurd rfl hne
  looping _ := h.looping (by rw [hpc]; nofun)
  woken _ _ := nofun

/-- A task is executed as the next one. -/
theorem Kept.runTask {s : State π τ} (h : Kept s) (hpc : s.pc = .tasks) {task : Task τ}
    {rest : List (Task τ)} (htmp : s.tasks.tmp = task :: rest) :
    Kept {s with tasks := {s.tasks with tmp := rest}, executed := s.executed ++ task.body.toList} where
  order := by
    show s.inserted.reduceOption = (s.executed ++ task.body.toList) ++ _
    rw [h.order, htmp, List.map_cons, List.cons_append, List.append_assoc]
    cases task.body with
    | none => rw [List.reduceOption_cons_of_none]; rfl
    | some body => rw [List.reduceOption_cons_of_some]; rfl
  ran hne := absurd hpc hne
  looping := h.looping
  woken := h.woken

/-- While events are handled no task is relied on. -/
theorem Kept.events {s s' : State π τ} (h : Kept s) {wake wake' : Bool} (hpc : s.pc = .events wake)
    (hpc' : s'.pc = .events wake') (hlooping : s'.isLooping = s.isLooping)
    (htmp : s'.tasks.tmp = s.tasks.tmp) (horder : s'.inserted.reduceOption =
      s'.executed ++ (s'.tasks.tmp.map Task.body ++ s'.tasks.pending.map Task.body).reduceOption) :
    Kept s' where
  order := horder
  ran _ := htmp.trans (h.ran (by rw [hpc]; nofun))
  looping _ := by
    rw [hlooping]
    exact h.looping (by rw [hpc]; nofun)
  woken hor := by
    rw [hpc'] at hor
    exact hor.elim nofun nofun

theorem Kept.loopStep {s s' : State π τ} {i : Input π τ} (h : Kept s) (hs : loopStep s i = some s') :
    Kept s' := by
  cases i with
  | start =>
    obtain ⟨hpc, heq⟩ := Option.ite_none_right_eq_some.mp hs
    obtain rfl := Option.some.inj heq
    exact ⟨h.order, fun _ => h.ran (by rw [hpc]; nofun), fun _ => rfl, fun hor => hor.elim nofun nofun⟩
  | swap =>
    obtain ⟨hpc, heq⟩ := Option.ite_none_right_eq_some.mp hs
    exact Option.some.inj heq ▸ h.swap hpc
  | runTask =>
    simp only [TaskLoop.loopStep] at hs
    split at hs
    · next hpc htmp => exact Option.some.inj hs ▸ h.runTask hpc htmp
    · cases hs
  | wait =>
    obtain ⟨⟨hpc, htmp⟩, heq⟩ := Option.ite_none_right_eq_some.mp hs
    exact Option.some.inj heq ▸ h.goto htmp (by rw [hpc]; nofun) fun _ => .inl hpc
  | ready wake =>
    obtain ⟨⟨hpc, -⟩, heq⟩ := Option.ite_none_right_eq_some.mp hs
    exact Option.some.inj heq ▸ h.goto (h.ran (by rw [hpc]; nofun)) (by rw [hpc]; nofun)
      fun hor => hor.elim nofun nofun
  | error =>
    obtain ⟨hpc, heq⟩ := Option.ite_none_right_eq_some.mp hs
    exact Option.some.inj heq ▸ h.goto (h.ran (by rw [hpc]; nofun)) (by rw [hpc]; nofun)
      fun hor => hor.elim nofun nofun
  | drain =>
    obtain ⟨hpc, heq⟩ := Option.ite_none_right_eq_some.mp hs
    split at heq
    · obtain rfl := Option.some.inj heq
      exact h.events hpc rfl rfl rfl h.order
    · obtain rfl := Option.some.inj heq
      exact h.events hpc hpc rfl rfl h.order
  | callback cb =>
    simp only [TaskLoop.loopStep] at hs
    split at hs
    · next hpc =>
      obtain rfl := Option.some.inj hs
      exact h.events hpc hpc rfl rfl (insert_order h [cb] false)
    · cases hs
  | next =>
    obtain ⟨hpc, heq⟩ := Option.ite_none_right_eq_some.mp hs
    exact Option.some.inj heq ▸ h.goto (h.ran (by rw [hpc]; nofun)) (by rw [hpc]; nofun)
      fun hor => hor.elim nofun nofun
  | addTask | addTasks | wakeup | write => cases hs

/-! ### Calls -/

section
variable [DecidableEq π]

theorem Announced.call {s : State π τ} {t : Task τ} {p : π} (h : Announced s t) (hp : s.calls p = none)
    (tasks : List (Option τ)) (isWakeup : Bool) : Announced (call s p tasks isWakeup) t := by
  obtain ⟨q, c, hc, hrest⟩ := h
  refine ⟨q, c, ?_, hrest⟩
  have hne : q ≠ p := by
    rintro rfl
    rw [hp] at hc
    cases hc
  show Function.update s.calls p _ q = some c
  rw [Function.update_of_ne hne, hc]

theorem Kept.call {s : State π τ} {p : π} (h : Kept s) (hp : s.calls p = none) (tasks : List (Option τ))
    (isWakeup : Bool) : Kept (call s p tasks isWakeup) where
  order := insert_order h tasks isWakeup
  ran := h.ran
  looping := h.looping
  woken hpc t ht hwake := by
    rcases List.mem_append.mp ht with hold | hnew
    · exact (h.woken hpc t hold hwake).imp_right fun hannounced => hannounced.call hp tasks isWakeup
    · obtain ⟨body, -, rfl⟩ := List.mem_map.mp hnew
      exact .inr ⟨p, _, Function.update_self .., rfl, hwake⟩

/-- A call may return when it was not going to wake the loop, or has. -/
theorem Kept.returned {s : State π τ} {p : π} {c : Call} (h : Kept s) (hp : s.calls p = some c)
    (hdone : c.isWakeup → s.pc = .outside ∨ 0 < s.wakeFd) : Kept (returned s p) where
  order := h.order
  ran := h.ran
  looping := h.looping
  woken hpc t ht hwake := by
    rcases h.woken hpc t ht hwake with hfd | ⟨q, d, hd, hticket, hcall⟩
    · exact .inl hfd
    · by_cases hq : q = p
      · subst hq
        obtain rfl : c = d := Option.some.inj (hp.symm.trans hd)
        refine .inl ((hdone hcall).resolve_left fun hout => ?_)
        change s.pc = .tasks ∨ s.pc = .blocked at hpc
        rw [hout] at hpc
        exact hpc.elim nofun nofun
      · exact .inr ⟨q, d, by rw [← hd]; exact Function.update_of_ne hq .., hticket, hcall⟩

/-- The call has found `m_is_looping` set. -/
theorem Kept.goesOn {s : State π τ} {p : π} {c : Call} (h : Kept s) (hp : s.calls p = some c) :
    Kept {s with calls := Function.update s.calls p (some {c with looping := true})} where
  order := h.order
  ran := h.ran
  looping := h.looping
  woken hpc t ht hwake := by
    refine (h.woken hpc t ht hwake).imp_right fun ⟨q, d, hd, hrest⟩ => ?_
    by_cases hq : q = p
    · subst hq
      obtain rfl : c = d := Option.some.inj (hp.symm.trans hd)
      exact ⟨q, _, Function.update_self .., hrest⟩
    · exact ⟨q, d, by rw [← hd]; exact Function.update_of_ne hq .., hrest⟩

/-- A write leaves the eventfd readable. -/
theorem Kept.write {s : State π τ} {p : π} {c : Call} (h : Kept s) (hp : s.calls p = some c) :
    Kept (TaskLoop.returned
      {s with wakeFd := if s.wakeFd < 2 ^ 64 - 2 then s.wakeFd + 1 else s.wakeFd} p) := by
  have hpos : 0 < if s.wakeFd < 2 ^ 64 - 2 then s.wakeFd + 1 else s.wakeFd := by
    split <;> omega
  have hwritten : Kept {s with wakeFd := if s.wakeFd < 2 ^ 64 - 2 then s.wakeFd + 1 else s.wakeFd} :=
    ⟨h.order, h.ran, h.looping, fun _ _ _ _ => .inl hpos⟩
  exact hwritten.returned hp fun _ => .inr hpos

theorem Kept.step {me : π} {s s' : State π τ} {i : Input π τ} (h : Kept s) (hs : step me s i = some s') :
    Kept s' := by
  cases i with
  | addTask p task isWakeup =>
    obtain ⟨hmay, heq⟩ := Option.ite_none_right_eq_some.mp hs
    simp only [mayCall, decide_eq_true_eq, Option.isNone_iff_eq_none] at hmay
    exact Option.some.inj heq ▸ h.call hmay.1 [task] isWakeup
  | addTasks p tasks isWakeup =>
    obtain ⟨hmay, heq⟩ := Option.ite_none_right_eq_some.mp hs
    simp only [mayCall, decide_eq_true_eq, Option.isNone_iff_eq_none] at hmay
    split at heq
    · exact Option.some.inj heq ▸ h
    · exact Option.some.inj heq ▸ h.call hmay.1 tasks isWakeup
  | wakeup p =>
    simp only [TaskLoop.step] at hs
    split at hs
    · next c hp =>
      split at hs
      · cases hs
      · split at hs
        · exact Option.some.inj hs ▸ h.goesOn hp
        · next hnot =>
          refine Option.some.inj hs ▸ h.returned hp fun hwake => .inl ?_
          by_contra hpc
          exact hnot ⟨hwake, h.looping hpc⟩
    · cases hs
  | write p =>
    simp only [TaskLoop.step] at hs
    split at hs
    · next c hp =>
      obtain ⟨-, heq⟩ := Option.ite_none_right_eq_some.mp hs
      exact Option.some.inj heq ▸ h.write hp
    · cases hs
  | start | swap | runTask | wait | ready | error | drain | callback | next =>
    exact h.loopStep (Option.ite_none_right_eq_some.mp hs).2

/-- **No task and no wake-up is lost.** In every run, by any threads, the functions are
executed in the order of their insertion, each once, those that are not executed are with the loop
or pending, and a blocked loop never has a task that nobody will wake it for. -/
theorem tasks_kept (me : π) (inputs : List (Input π τ)) :
    Always (step me) (fun s => InOrder s ∧ NoneLost s ∧ Woken s) {} inputs :=
  (always_of_inductive (fun _ _ _ h hs => h.step hs) kept_init inputs).imp fun _ h =>
    ⟨h.inOrder, h.noneLost, h.isWoken⟩

end

end

end TaskLoop

end CoroutineRpc.Net
