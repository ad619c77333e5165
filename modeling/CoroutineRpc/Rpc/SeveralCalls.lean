import CoroutineRpc.Rpc.OneCall
import Mathlib.Data.Finset.Card

/-! Several calls on an `RpcAsyncChannel`, and `wait`.

`finished_` and `need_resume_` are set and never reset. So `wait` returns for a call that failed
or completed before another did, and a call that is made behind a `wait` resumes the origin
coroutine wherever it is when it completes. Each call is at one `Place` on the way to its
completion (`Flow`); a channel that is used as `WaitsLast` says is waited for when one call is on
its way and nothing has finished, or when nothing is on its way (`Phase`). -/
namespace CoroutineRpc.Rpc.RpcAsyncChannel
open Library.Transition

section
variable {τ : Type} [DecidableEq τ]

/-- The calls that passed their checks are all made before `wait` is called, and `wait` is called on
the thread of the channel, where they have completed, or there was one and nothing has finished. -/
def WaitsLast (home : τ) (s : State τ) : Input τ → Prop
  | .callMethod checks _ => s.prepared = true → checks = true → s.needResume = false
  | .wait => s.origin = .running home ∧
      (s.completions.length = s.calls.length ∨ s.calls.length = 1 ∧ s.finished = false)
  | _ => True

instance (home : τ) (s : State τ) : ∀ i : Input τ, Decidable (WaitsLast home s i)
  | .callMethod checks _ => inferInstanceAs (Decidable (s.prepared = true → checks = true → s.needResume = false))
  | .wait => inferInstanceAs (Decidable (s.origin = .running home ∧ (_ ∨ _)))
  | .saveCallee .. | .advance | .drop | .yield | .resumeOrigin _ | .addTask _ | .loop _ | .main _ | .pending _
  | .yieldPending _ | .resumePending .. => isTrue trivial

/-- Every call that passed its checks has completed, and no thread has anything of it to do before. -/
structure Completed (s : State τ) : Prop where
  all : s.completions.length = s.calls.length
  tasks : ∀ t, ∀ task ∈ (s.threads t).tasks, task = .other

/-- A `wait` that returns in the step finds all calls completed, and a completion that resumes the
origin coroutine finds it in `wait`. -/
def WaitsRightly (home : τ) (s : State τ) (i : Input τ) : Prop :=
  ∀ t, step home s i = some t → (s.waits < t.waits → Completed t) ∧ ∀ suspended ∈ t.resumes, suspended = true

/-! ### The calls on their way -/

/-- Where a call is on the way to its completion. -/
inductive Place (τ : Type) where
  /-- Its coroutine is in the tasks of a thread. -/
  | queued (t : τ)
  | calling
  /-- Its `post_to_origin` is in the tasks of a thread. -/
  | away (t : τ)
  | posting (t : τ)
  /-- Its completion is in the tasks. -/
  | sent
  | completing
  | over
deriving DecidableEq

/-- The call that a task belongs to. -/
def Task.call : Task → Nat
  | .resume k | .postToOrigin k | .completion k => k
  | .other => 0

/-- The task of a call, and the thread that has it. -/
def Place.task (home : τ) (k : Nat) : Place τ → Option (τ × Task)
  | .queued t => some (t, .resume k)
  | .away t => some (t, .postToOrigin k)
  | .sent => some (home, .completion k)
  | _ => none

def Place.isOver : Place τ → Bool
  | .over => true
  | _ => false

/-- The thread that the coroutine of a call is on. -/
def Pending.on : Pending τ → Option τ
  | .calling t | .posted t | .reset t | .returned t | .left t => some t
  | .created | .yielded | .gone => none

def Pending.isCalling : Pending τ → Bool
  | .calling _ | .yielded => true
  | _ => false

/-- The main coroutine is at the head of a task. -/
def Main.starting : Main → Bool
  | .postToOrigin _ | .completion => true
  | _ => false

/-- The main coroutine is inside a completion, behind `finished_`. -/
def Main.finishing : Main → Bool
  | .finished | .ran => true
  | _ => false

/-- What the threads do for the calls, each at its place; `inHand` is the call whose completion runs. -/
structure Flow (home : τ) (place : Nat → Place τ) (inHand : Option Nat) (s : State τ) : Prop where
  tasks : ∀ t task, task ≠ .other →
    (s.threads t).tasks.count task = if (place task.call).task home task.call = some (t, task) then 1 else 0
  posting : ∀ t k, (s.threads t).main = .postToOrigin k ↔ place k = .posting t
  completion : ∀ t, (s.threads t).main = .completion ↔ t = home ∧ inHand.isSome = true
  completing : ∀ k, place k = .completing ↔ inHand = some k
  finishing : ∀ t, (s.threads t).main.finishing = true → t = home
  calls : ∀ k p, s.calls[k]? = some p → p.isCalling = true → place k = .calling
  fresh : ∀ k, s.calls.length ≤ k → place k = .over
  ended : ((Finset.range s.calls.length).filter fun k => place k = .over).card = s.completions.length
  pendings : ∀ k p t, s.calls[k]? = some p → p.on = some t → (s.threads t).current = .pending k
  origin : ∀ t, s.origin.on = some t →
    (s.threads t).current = .origin ∧ ((s.threads t).main = .loop ∨ (s.threads t).main = .resumed)
  finished : s.completions ≠ [] → s.finished = true

attribute [grind =] Task.call Place.task Pending.on Pending.isCalling Main.starting Main.finishing

variable {home : τ} {place : Nat → Place τ} {inHand : Option Nat} {s t : State τ}

theorem flow_initial (home : τ) : Flow home (fun _ => .over) none (initial home) := by
  unfold initial
  constructor <;> grind [Function.update_apply]

/-- Where as many calls have completed as were made, all are over. -/
theorem Flow.all_over (h : Flow home place inHand s) (hall : s.completions.length = s.calls.length) (k : Nat) :
    place k = .over := by
  rcases Nat.lt_or_ge k s.calls.length with hk | hk
  · have hcard : ((Finset.range s.calls.length).filter fun k => place k = .over).card =
        (Finset.range s.calls.length).card := by
      rw [h.ended, hall, Finset.card_range]
    have hfilter := Finset.eq_of_subset_of_card_le (Finset.filter_subset _ _) (Nat.le_of_eq hcard.symm)
    have hmem := Finset.mem_range.mpr hk
    rw [← hfilter] at hmem
    exact (Finset.mem_filter.mp hmem).2
  · exact h.fresh k hk

theorem Flow.completed (h : Flow home place inHand s) (hall : s.completions.length = s.calls.length) :
    Completed s := by
  refine ⟨hall, fun t task htask => ?_⟩
  by_contra hother
  have hcount := h.tasks t task hother
  rw [h.all_over hall, if_neg (by simp [Place.task])] at hcount
  exact List.count_eq_zero.mp hcount htask

/-! ### A call goes on -/

omit [DecidableEq τ] in
theorem Place.call_of_task {p : Place τ} {k : Nat} {u : τ} {task : Task} (h : p.task home k = some (u, task)) :
    task.call = k := by
  cases p <;> cases h <;> rfl

omit [DecidableEq τ] in
theorem Place.of_resume {p : Place τ} {k j : Nat} {u : τ} (h : p.task home k = some (u, .resume j)) :
    p = .queued u := by
  cases p <;> cases h
  rfl

omit [DecidableEq τ] in
theorem Place.of_postToOrigin {p : Place τ} {k j : Nat} {u : τ} (h : p.task home k = some (u, .postToOrigin j)) :
    p = .away u := by
  cases p <;> cases h
  rfl

omit [DecidableEq τ] in
theorem Place.of_completion {p : Place τ} {k j : Nat} {u : τ} (h : p.task home k = some (u, .completion j)) :
    p = .sent ∧ home = u := by
  cases p <;> cases h
  exact ⟨rfl, rfl⟩

/-- The tasks, when one call goes to another place. -/
theorem Flow.tasks_moved (h : Flow home place inHand s) {threads : τ → IOThread} {k : Nat} (p : Place τ)
    (hcount : ∀ v task, task ≠ .other →
      (threads v).tasks.count task + (if (place k).task home k = some (v, task) then 1 else 0) =
        (s.threads v).tasks.count task + if p.task home k = some (v, task) then 1 else 0) (v : τ) (task : Task)
    (hother : task ≠ .other) : (threads v).tasks.count task =
      if (Function.update place k p task.call).task home task.call = some (v, task) then 1 else 0 := by
  have hmoved := hcount v task hother
  rw [h.tasks v task hother] at hmoved
  by_cases hcall : task.call = k
  · rw [hcall] at hmoved ⊢
    rw [Function.update_self]
    omega
  · have hnone : ∀ q : Place τ, ¬ q.task home k = some (v, task) := fun q hq => hcall (Place.call_of_task hq)
    rw [Function.update_of_ne hcall]
    rw [if_neg (hnone _), if_neg (hnone _)] at hmoved
    omega

/-- How many calls are over, when one goes to another place and is over neither before nor then. -/
theorem Flow.over_moved (h : Flow home place inHand s) {k : Nat} {p : Place τ} (hk : (place k).isOver = false)
    (hp : p.isOver = false) :
    ((Finset.range s.calls.length).filter fun j => Function.update place k p j = .over).card =
      s.completions.length := by
  rw [← h.ended]
  refine congrArg _ (Finset.filter_congr fun j _ => ?_)
  by_cases hj : j = k
  · obtain rfl := hj
    rw [Function.update_self]
    refine iff_of_false (fun hover => ?_) fun hover => ?_
    · rw [hover] at hp
      cases hp
    · rw [hover] at hk
      cases hk
  · rw [Function.update_of_ne hj]

/-- And when its completion has run. -/
theorem Flow.over_completed (h : Flow home place inHand s) {k : Nat} (hk : place k = .completing) :
    ((Finset.range s.calls.length).filter fun j => Function.update place k .over j = .over).card =
      s.completions.length + 1 := by
  have hlt : k < s.calls.length := by
    by_contra hge
    rw [h.fresh k (by omega)] at hk
    cases hk
  have hinsert : ((Finset.range s.calls.length).filter fun j => Function.update place k .over j = .over) =
      insert k ((Finset.range s.calls.length).filter fun j => place j = .over) := by
    ext j
    by_cases hj : j = k
    · obtain rfl := hj
      simp [hlt]
    · simp [hj]
  rw [hinsert, Finset.card_insert_of_notMem (by simp [hk]), h.ended]

/-! ### The origin coroutine -/

/-- A call is made. -/
theorem Flow.callMethod {checks : Bool} {u : τ} (h : Flow home place inHand s)
    (hs : RpcAsyncChannel.callMethod s checks u = some t) : ∃ place', Flow home place' inHand t := by
  unfold RpcAsyncChannel.callMethod at hs
  split at hs
  swap
  · cases hs
  rename_i here horigin _
  split at hs
  · obtain rfl := Option.some.inj hs
    exact ⟨place, h.tasks, h.posting, h.completion, h.completing, h.finishing, h.calls, h.fresh, h.ended, h.pendings,
      h.origin, fun _ => rfl⟩
  obtain rfl := Option.some.inj hs
  have hnew := h.fresh s.calls.length (Nat.le_refl _)
  have hover : ((Finset.range (s.calls.length + 1)).filter fun j =>
      Function.update place s.calls.length (.queued u) j = .over).card = s.completions.length := by
    rw [Finset.range_add_one, Finset.filter_insert, Function.update_self, if_neg (by nofun), ← h.ended]
    refine congrArg _ (Finset.filter_congr fun j hj => ?_)
    rw [Function.update_of_ne (Nat.ne_of_lt (Finset.mem_range.mp hj))]
  have hflow := h
  obtain ⟨-, hposting, hcompletion, hcompleting, hfinishing, hcalls, hfresh, -, hpendings, horigin', hfinished⟩ := h
  refine ⟨Function.update place s.calls.length (.queued u), ?_⟩
  simp only [RpcAsyncChannel.addTask, setThread]
  refine ⟨hflow.tasks_moved (.queued u) ?_, ?_, ?_, ?_, ?_, ?_, ?_, by rw [List.length_append]; exact hover,
    ?_, ?_, hfinished⟩
  all_goals grind [Function.update_apply]

/-- The threads are not concerned, nor are the calls. -/
theorem Flow.frame (h : Flow home place inHand s) (hthreads : t.threads = s.threads) (hcalls : t.calls = s.calls)
    (hcompletions : t.completions = s.completions) (hon : ∀ v, t.origin.on = some v → s.origin.on = some v)
    (hfinished : s.finished = true → t.finished = true) : Flow home place inHand t where
  tasks := hthreads ▸ h.tasks
  posting := hthreads ▸ h.posting
  completion := hthreads ▸ h.completion
  completing := h.completing
  finishing := hthreads ▸ h.finishing
  calls := hcalls ▸ h.calls
  fresh := hcalls ▸ h.fresh
  ended := by
    rw [hcalls, hcompletions]
    exact h.ended
  pendings := by
    rw [hcalls, hthreads]
    exact h.pendings
  origin v hv := by
    rw [hthreads]
    exact h.origin v (hon v hv)
  finished hne := hfinished (h.finished (hcompletions ▸ hne))

/-- Where the main coroutine runs, no other does. -/
theorem Flow.free {u : τ} (h : Flow home place inHand s) (hcurrent : (s.threads u).current = .main) :
    s.origin.on ≠ some u ∧ ∀ (k : Nat) (p : Pending τ), s.calls[k]? = some p → p.on ≠ some u := by
  constructor
  · intro hon
    rw [(h.origin u hon).1] at hcurrent
    cases hcurrent
  · intro k p hp hon
    rw [h.pendings k p u hp hon] at hcurrent
    cases hcurrent

/-- The origin coroutine yields. -/
theorem Flow.leaves {here : τ} {origin : Origin τ} (h : Flow home place inHand s) (hon : s.origin.on = some here)
    (horigin : origin.on = none) {stayed : Bool} :
    Flow home place inHand (setCurrent {s with origin, stayed} here .main) := by
  have hhere := h.origin here hon
  obtain ⟨htasks, hposting, hcompletion, hcompleting, hfinishing, hcalls, hfresh, hover, hpendings, horigin',
    hfinished⟩ := h
  simp only [setCurrent, setThread]
  constructor <;> grind [Function.update_apply]

/-- It goes on, on a thread whose main coroutine resumes it. -/
theorem Flow.enters {u : τ} {resumes : List Bool} {waits : Nat} (h : Flow home place inHand s)
    (hcurrent : (s.threads u).current = .main) (hmain : (s.threads u).main = .loop ∨ (s.threads u).main = .resumed) :
    Flow home place inHand (setCurrent {s with origin := .running u, resumes, waits} u .origin) := by
  obtain ⟨hnone, hapart⟩ := h.free hcurrent
  obtain ⟨htasks, hposting, hcompletion, hcompleting, hfinishing, hcalls, hfresh, hover, hpendings, horigin,
    hfinished⟩ := h
  simp only [setCurrent, setThread]
  constructor <;> grind [Function.update_apply]

theorem Flow.addTask {u : τ} (h : Flow home place inHand s) :
    Flow home place inHand (RpcAsyncChannel.addTask s u .other) := by
  obtain ⟨htasks, hposting, hcompletion, hcompleting, hfinishing, hcalls, hfresh, hover, hpendings, horigin,
    hfinished⟩ := h
  simp only [RpcAsyncChannel.addTask, setThread]
  constructor <;> grind [Function.update_apply]

theorem Flow.release (h : Flow home place inHand s) : Flow home place inHand (RpcAsyncChannel.release s) := by
  unfold RpcAsyncChannel.release
  split
  · exact h.frame rfl rfl rfl (fun _ hv => hv) fun hf => hf
  · exact h.frame rfl rfl rfl (fun _ hv => hv) fun hf => hf

omit [DecidableEq τ] in
theorem release_threads (s : State τ) : (RpcAsyncChannel.release s).threads = s.threads := by
  unfold RpcAsyncChannel.release
  split <;> rfl

/-! ### The reactors -/

/-- The main coroutine of a thread goes on to a place outside `post_to_origin` and the head of a completion. -/
theorem Flow.setMain {u : τ} {main : Main} (h : Flow home place inHand s)
    (hfrom : (s.threads u).main.starting = false) (hto : main.starting = false)
    (hfinishing : main.finishing = true → u = home) (hcurrent : (s.threads u).current = .main) :
    Flow home place inHand (RpcAsyncChannel.setMain s u main) := by
  obtain ⟨htasks, hposting, hcompletion, hcompleting, hfinishing', hcalls, hfresh, hover, hpendings, horigin,
    hfinished⟩ := h
  simp only [RpcAsyncChannel.setMain, setThread]
  constructor <;> grind [Function.update_apply]

/-- The call of the task that a reactor takes next is at its place. -/
theorem Flow.place_of_head {u : τ} {task : Task} {tasks : List Task} (h : Flow home place inHand s)
    (hhead : (s.threads u).tasks = task :: tasks) (hother : task ≠ .other) :
    (place task.call).task home task.call = some (u, task) := by
  have hcount := h.tasks u task hother
  rw [hhead, List.count_cons_self] at hcount
  by_contra hne
  rw [if_neg hne] at hcount
  omega

/-- A reactor takes a task that belongs to no call. -/
theorem Flow.takesOther {u : τ} {tasks : List Task} (h : Flow home place inHand s)
    (hhead : (s.threads u).tasks = .other :: tasks) :
    Flow home place inHand (setThread s u fun thread => {thread with tasks}) := by
  obtain ⟨htasks, hposting, hcompletion, hcompleting, hfinishing, hcalls, hfresh, hover, hpendings, horigin,
    hfinished⟩ := h
  simp only [setThread]
  constructor <;> grind [Function.update_apply]

/-- It resumes the coroutine of a call. -/
theorem Flow.takesResume {u : τ} {k : Nat} {tasks : List Task} (h : Flow home place inHand s)
    (hhead : (s.threads u).tasks = .resume k :: tasks) (hcurrent : (s.threads u).current = .main) :
    Flow home (Function.update place k .calling) inHand
      (setCurrent (RpcAsyncChannel.setPending (setThread s u fun thread => {thread with tasks}) k (.calling u)) u
        (.pending k)) := by
  have hk : place k = .queued u := Place.of_resume (h.place_of_head hhead Task.noConfusion)
  obtain ⟨hnone, hapart⟩ := h.free hcurrent
  have hflow := h
  obtain ⟨-, hposting, hcompletion, hcompleting, hfinishing, hcalls, hfresh, -, hpendings, horigin,
    hfinished⟩ := h
  simp only [setCurrent, RpcAsyncChannel.setPending, setThread]
  refine ⟨hflow.tasks_moved .calling ?_, ?_, ?_, ?_, ?_, ?_, ?_,
    by rw [List.length_set]; exact hflow.over_moved (by rw [hk]; rfl) rfl, ?_, ?_, hfinished⟩
  all_goals grind [Function.update_apply]

/-- It begins with `post_to_origin`. -/
theorem Flow.takesPost {u : τ} {k : Nat} {tasks : List Task} (h : Flow home place inHand s)
    (hhead : (s.threads u).tasks = .postToOrigin k :: tasks) (hmain : (s.threads u).main = .loop)
    (hcurrent : (s.threads u).current = .main) :
    Flow home (Function.update place k (.posting u)) inHand
      (RpcAsyncChannel.setMain (setThread s u fun thread => {thread with tasks}) u (.postToOrigin k)) := by
  have hk : place k = .away u := Place.of_postToOrigin (h.place_of_head hhead Task.noConfusion)
  obtain ⟨hnone, hapart⟩ := h.free hcurrent
  have hflow := h
  obtain ⟨-, hposting, hcompletion, hcompleting, hfinishing, hcalls, hfresh, -, hpendings, horigin,
    hfinished⟩ := h
  simp only [RpcAsyncChannel.setMain, setThread]
  refine ⟨hflow.tasks_moved (.posting u) ?_, ?_, ?_, ?_, ?_, ?_, ?_,
    hflow.over_moved (by rw [hk]; rfl) rfl, ?_, ?_, hfinished⟩
  all_goals grind [Function.update_apply]

/-- It begins with a completion. -/
theorem Flow.takesCompletion {u : τ} {k : Nat} {tasks : List Task} (h : Flow home place inHand s)
    (hhead : (s.threads u).tasks = .completion k :: tasks) (hmain : (s.threads u).main = .loop)
    (hcurrent : (s.threads u).current = .main) :
    Flow home (Function.update place k .completing) (some k)
      (RpcAsyncChannel.setMain (setThread s u fun thread => {thread with tasks}) u .completion) := by
  obtain ⟨hsent, rfl⟩ := Place.of_completion (h.place_of_head hhead Task.noConfusion)
  have hk : place k = .sent := hsent
  obtain ⟨hnone, hapart⟩ := h.free hcurrent
  have hflow := h
  obtain ⟨-, hposting, hcompletion, hcompleting, hfinishing, hcalls, hfresh, -, hpendings, horigin,
    hfinished⟩ := h
  simp only [RpcAsyncChannel.setMain, setThread]
  refine ⟨hflow.tasks_moved .completing ?_, ?_, ?_, ?_, ?_, ?_, ?_,
    hflow.over_moved (by rw [hk]; rfl) rfl, ?_, ?_, hfinished⟩
  all_goals grind [Function.update_apply]

theorem Flow.loop {u : τ} (h : Flow home place inHand s) (hs : RpcAsyncChannel.loop s u = some t) :
    ∃ place' inHand', Flow home place' inHand' t := by
  unfold RpcAsyncChannel.loop at hs
  split at hs
  swap
  · cases hs
  rename_i task tasks hthread
  have hmain : (s.threads u).main = .loop := by rw [hthread]
  have hcurrent : (s.threads u).current = .main := by rw [hthread]
  have hhead : (s.threads u).tasks = task :: tasks := by rw [hthread]
  cases task with
  | other =>
    obtain rfl := Option.some.inj hs
    exact ⟨_, _, h.takesOther hhead⟩
  | resume k =>
    obtain rfl := Option.some.inj hs
    exact ⟨_, _, h.takesResume hhead hcurrent⟩
  | postToOrigin k =>
    obtain rfl := Option.some.inj hs
    exact ⟨_, _, h.takesPost hhead hmain hcurrent⟩
  | completion k =>
    obtain rfl := Option.some.inj hs
    exact ⟨_, _, h.takesCompletion hhead hmain hcurrent⟩

/-- `Resume` of the origin coroutine, on a thread whose main coroutine is behind it. -/
theorem Flow.resumeOrigin {u : τ} (h : Flow home place inHand s) (hcurrent : (s.threads u).current = .main)
    (hmain : (s.threads u).main = .resumed) : Flow home place inHand (RpcAsyncChannel.resumeOrigin s u) := by
  unfold RpcAsyncChannel.resumeOrigin
  split
  · exact h.enters hcurrent (.inr hmain)
  · exact h.enters hcurrent (.inr hmain)
  · exact h.frame rfl rfl rfl (fun _ hv => hv) fun hf => hf

/-- `post_to_origin` gives the completion to the thread of the channel. -/
theorem Flow.posts {u : τ} {k : Nat} (h : Flow home place inHand s) (hmain : (s.threads u).main = .postToOrigin k)
    (hcurrent : (s.threads u).current = .main) :
    Flow home (Function.update place k .sent) inHand
      (RpcAsyncChannel.setMain (RpcAsyncChannel.addTask {s with refs := s.refs + 2} home (.completion k)) u .posted) := by
  have hk : place k = .posting u := (h.posting u k).mp hmain
  obtain ⟨hnone, hapart⟩ := h.free hcurrent
  have hflow := h
  obtain ⟨-, hposting, hcompletion, hcompleting, hfinishing, hcalls, hfresh, -, hpendings, horigin,
    hfinished⟩ := h
  simp only [RpcAsyncChannel.setMain, RpcAsyncChannel.addTask, setThread]
  refine ⟨hflow.tasks_moved .sent ?_, ?_, ?_, ?_, ?_, ?_, ?_,
    hflow.over_moved (by rw [hk]; rfl) rfl, ?_, ?_, hfinished⟩
  all_goals grind [Function.update_apply]

/-- A completion sets `finished_`. -/
theorem Flow.completes {u : τ} (h : Flow home place inHand s) (hmain : (s.threads u).main = .completion)
    (hcurrent : (s.threads u).current = .main) : ∃ place', Flow home place' none
      (RpcAsyncChannel.setMain {s with finished := true, completions := s.completions ++ [u]} u .finished) := by
  obtain ⟨rfl, hinHand⟩ := (h.completion u).mp hmain
  obtain ⟨k, rfl⟩ := Option.isSome_iff_exists.mp hinHand
  have hk : place k = .completing := (h.completing k).mpr rfl
  obtain ⟨hnone, hapart⟩ := h.free hcurrent
  have hflow := h
  obtain ⟨-, hposting, hcompletion, hcompleting, hfinishing, hcalls, hfresh, -, hpendings, horigin,
    hfinished⟩ := h
  refine ⟨Function.update place k .over, ?_⟩
  simp only [RpcAsyncChannel.setMain, setThread]
  refine ⟨hflow.tasks_moved .over ?_, ?_, ?_, ?_, ?_, ?_, ?_,
    by rw [List.length_append]; exact hflow.over_completed hk, ?_, ?_, fun _ => rfl⟩
  all_goals grind [Function.update_apply]

theorem Flow.main {u : τ} (h : Flow home place inHand s) (hs : RpcAsyncChannel.main home s u = some t) :
    ∃ place' inHand', Flow home place' inHand' t := by
  unfold RpcAsyncChannel.main at hs
  split at hs
  swap
  · cases hs
  rename_i tasks main hthread
  have hmain : (s.threads u).main = main := by rw [hthread]
  have hcurrent : (s.threads u).current = .main := by rw [hthread]
  cases main with
  | loop => cases hs
  | postToOrigin k =>
    obtain rfl := Option.some.inj hs
    exact ⟨_, _, h.posts hmain hcurrent⟩
  | posted =>
    obtain rfl := Option.some.inj hs
    exact ⟨place, inHand, h.release.setMain (by rw [release_threads, hmain]; rfl) rfl Bool.noConfusion
      (by rw [release_threads, hcurrent])⟩
  | leaving =>
    obtain rfl := Option.some.inj hs
    exact ⟨place, inHand, h.release.setMain (by rw [release_threads, hmain]; rfl) rfl Bool.noConfusion
      (by rw [release_threads, hcurrent])⟩
  | completion =>
    obtain rfl := Option.some.inj hs
    obtain ⟨place', hcompletes⟩ := h.completes hmain hcurrent
    exact ⟨place', _, hcompletes⟩
  | finished =>
    obtain rfl := Option.some.inj hs
    have hframe : Flow home place inHand {s with closureRuns := if s.closure then s.closureRuns + 1 else s.closureRuns} :=
      h.frame rfl rfl rfl (fun _ hv => hv) fun hf => hf
    exact ⟨place, inHand,
      hframe.setMain (by rw [hmain]; rfl) rfl (fun _ => h.finishing u (by rw [hmain]; rfl)) hcurrent⟩
  | ran =>
    obtain rfl := Option.some.inj hs
    have hresumed : Flow home place inHand (RpcAsyncChannel.setMain s u .resumed) :=
      h.setMain (by rw [hmain]; rfl) rfl Bool.noConfusion hcurrent
    refine ⟨place, inHand, ?_⟩
    show Flow home place inHand (if s.needResume then _ else _)
    split
    · refine hresumed.resumeOrigin ?_ ?_ <;> simp [RpcAsyncChannel.setMain, setThread, hcurrent]
    · exact hresumed
  | resumed =>
    obtain rfl := Option.some.inj hs
    exact ⟨place, inHand, h.release.setMain (by rw [release_threads, hmain]; rfl) rfl Bool.noConfusion
      (by rw [release_threads, hcurrent])⟩

/-! ### The coroutines of the calls -/

/-- The coroutine of a call goes on, on the thread that it is on. -/
theorem Flow.setPending {k : Nat} {p q : Pending τ} (h : Flow home place inHand s) (hp : s.calls[k]? = some p)
    (hon : q.on = p.on) (hcalling : q.isCalling = true → p.isCalling = true) :
    Flow home place inHand (RpcAsyncChannel.setPending s k q) := by
  obtain ⟨htasks, hposting, hcompletion, hcompleting, hfinishing, hcalls, hfresh, hover, hpendings, horigin,
    hfinished⟩ := h
  simp only [RpcAsyncChannel.setPending]
  refine ⟨htasks, hposting, hcompletion, hcompleting, hfinishing, ?_, ?_, by rw [List.length_set]; exact hover, ?_,
    horigin, hfinished⟩
  all_goals grind

/-- It leaves its thread. -/
theorem Flow.pendingLeaves {k : Nat} {p q : Pending τ} {u : τ} (h : Flow home place inHand s)
    (hp : s.calls[k]? = some p) (hon : p.on = some u) (hq : q.on = none)
    (hcalling : q.isCalling = true → p.isCalling = true) :
    Flow home place inHand (setCurrent (RpcAsyncChannel.setPending s k q) u .main) := by
  have hcurrent := h.pendings k p u hp hon
  obtain ⟨htasks, hposting, hcompletion, hcompleting, hfinishing, hcalls, hfresh, hover, hpendings, horigin,
    hfinished⟩ := h
  simp only [RpcAsyncChannel.setPending, setCurrent, setThread]
  refine ⟨?_, ?_, ?_, hcompleting, ?_, ?_, ?_, by rw [List.length_set]; exact hover, ?_, ?_, hfinished⟩
  all_goals grind [Function.update_apply]

/-- It goes on, on a thread whose main coroutine resumes it. -/
theorem Flow.pendingEnters {k : Nat} {p q : Pending τ} {u : τ} (h : Flow home place inHand s)
    (hp : s.calls[k]? = some p) (hq : q.on = some u) (hcalling : q.isCalling = true → p.isCalling = true)
    (hcurrent : (s.threads u).current = .main) :
    Flow home place inHand (setCurrent (RpcAsyncChannel.setPending s k q) u (.pending k)) := by
  obtain ⟨hnone, hapart⟩ := h.free hcurrent
  obtain ⟨htasks, hposting, hcompletion, hcompleting, hfinishing, hcalls, hfresh, hover, hpendings, horigin,
    hfinished⟩ := h
  simp only [RpcAsyncChannel.setPending, setCurrent, setThread]
  refine ⟨?_, ?_, ?_, hcompleting, ?_, ?_, ?_, by rw [List.length_set]; exact hover, ?_, ?_, hfinished⟩
  all_goals grind [Function.update_apply]

/-- Its call has come back, and `post_to_origin` is posted. -/
theorem Flow.pendingPosts {k : Nat} {u : τ} (h : Flow home place inHand s) (hp : s.calls[k]? = some (.calling u)) :
    Flow home (Function.update place k (.away u)) inHand (RpcAsyncChannel.setPending
      (RpcAsyncChannel.addTask {s with refs := s.refs + 2} u (.postToOrigin k)) k (.posted u)) := by
  have hk : place k = .calling := h.calls k _ hp rfl
  have hflow := h
  obtain ⟨-, hposting, hcompletion, hcompleting, hfinishing, hcalls, hfresh, -, hpendings, horigin,
    hfinished⟩ := h
  simp only [RpcAsyncChannel.setPending, RpcAsyncChannel.addTask, setThread]
  refine ⟨hflow.tasks_moved (.away u) ?_, ?_, ?_, ?_, ?_, ?_, ?_,
    by rw [List.length_set]; exact hflow.over_moved (by rw [hk]; rfl) rfl, ?_, ?_, hfinished⟩
  all_goals grind [Function.update_apply]

theorem Flow.pending {k : Nat} (h : Flow home place inHand s) (hs : RpcAsyncChannel.pending s k = some t) :
    ∃ place', Flow home place' inHand t := by
  obtain ⟨p, hp, hs⟩ := Option.bind_eq_some_iff.mp hs
  have hrelease : (RpcAsyncChannel.release s).calls[k]? = some p := by
    unfold RpcAsyncChannel.release
    split <;> exact hp
  cases p with
  | calling u =>
    obtain rfl := Option.some.inj hs
    exact ⟨_, h.pendingPosts hp⟩
  | posted u =>
    obtain rfl := Option.some.inj hs
    exact ⟨place, h.release.setPending hrelease rfl Bool.noConfusion⟩
  | reset u =>
    obtain rfl := Option.some.inj hs
    exact ⟨place, h.release.setPending hrelease rfl Bool.noConfusion⟩
  | returned u =>
    obtain rfl := Option.some.inj hs
    exact ⟨place, h.setPending hp rfl Bool.noConfusion⟩
  | left u =>
    obtain rfl := Option.some.inj hs
    exact ⟨place, h.pendingLeaves hp rfl rfl Bool.noConfusion⟩
  | created => cases hs
  | yielded => cases hs
  | gone => cases hs

/-- **One step**: what is done for a call goes from place to place. -/
theorem flow_step {i : Input τ} (h : Flow home place inHand s) (hs : step home s i = some t) :
    ∃ place' inHand', Flow home place' inHand' t := by
  cases i with
  | saveCallee prepared closure =>
    simp only [step] at hs
    split at hs
    · obtain rfl := Option.some.inj hs
      exact ⟨place, inHand, h.frame rfl rfl rfl (fun _ hv => hv) fun hf => hf⟩
    · cases hs
  | callMethod checks u =>
    obtain ⟨place', h'⟩ := h.callMethod hs
    exact ⟨place', inHand, h'⟩
  | wait =>
    simp only [step, RpcAsyncChannel.wait] at hs
    split at hs
    · rename_i here horigin _
      obtain rfl := Option.some.inj hs
      exact ⟨place, inHand, h.frame rfl rfl rfl (fun v hv => by rw [horigin]; exact hv) fun hf => hf⟩
    · cases hs
  | advance =>
    simp only [step, RpcAsyncChannel.advance] at hs
    split at hs
    · rename_i here horigin
      obtain rfl := Option.some.inj hs
      exact ⟨place, inHand, h.frame rfl rfl rfl (fun v hv => by rw [horigin]; exact hv) fun hf => hf⟩
    · rename_i here horigin
      split at hs <;> obtain rfl := Option.some.inj hs <;>
        exact ⟨place, inHand, h.frame rfl rfl rfl (fun v hv => by rw [horigin]; exact hv) fun hf => hf⟩
    · rename_i here horigin
      obtain rfl := Option.some.inj hs
      exact ⟨place, inHand, h.leaves (by rw [horigin]; rfl) rfl⟩
    · cases hs
  | drop =>
    simp only [step] at hs
    split at hs
    · obtain rfl := Option.some.inj hs
      have hframe : Flow home place inHand {s with held := false} := h.frame rfl rfl rfl (fun _ hv => hv) fun hf => hf
      exact ⟨place, inHand, hframe.release⟩
    · cases hs
  | yield =>
    simp only [step] at hs
    split at hs
    · rename_i here horigin
      obtain rfl := Option.some.inj hs
      exact ⟨place, inHand, h.leaves (by rw [horigin]; rfl) rfl⟩
    · cases hs
  | resumeOrigin u =>
    simp only [step] at hs
    split at hs
    · rename_i hthread
      obtain rfl := Option.some.inj hs
      exact ⟨place, inHand, h.enters (by rw [hthread]) (.inl (by rw [hthread]))⟩
    · cases hs
  | addTask u =>
    obtain rfl := Option.some.inj hs
    exact ⟨place, inHand, h.addTask⟩
  | loop u => exact h.loop hs
  | main u => exact h.main hs
  | pending k =>
    obtain ⟨place', h'⟩ := h.pending hs
    exact ⟨place', inHand, h'⟩
  | yieldPending k =>
    simp only [step] at hs
    split at hs
    · rename_i u hp
      obtain rfl := Option.some.inj hs
      exact ⟨place, inHand, h.pendingLeaves hp rfl rfl fun _ => rfl⟩
    · cases hs
  | resumePending k u =>
    simp only [step] at hs
    split at hs
    · rename_i hp hthread
      obtain rfl := Option.some.inj hs
      exact ⟨place, inHand, h.pendingEnters hp rfl (fun _ => rfl) (by rw [hthread])⟩
    · cases hs

/-! ### The caller -/

/-- What `wait` has to do with the calls. -/
inductive Phase (home : τ) (s : State τ) : Prop where
  | before (hneed : s.needResume = false) (horigin : s.origin.inWait = false)
  /-- One call is on its way, and `wait` was called for it. -/
  | awaits (hneed : s.needResume = true) (hone : s.calls.length = 1) (hfinished : s.finished = false)
      (horigin : s.origin = .asking home ∨ s.origin = .yielding home ∨ s.origin = .waiting)
      (hmain : (s.threads home).main.finishing = false)
  /-- Its completion has run, but for `Resume`. -/
  | completes (hneed : s.needResume = true) (hall : s.completions.length = s.calls.length)
      (horigin : s.origin = .waiting) (hmain : (s.threads home).main.finishing = true)
  | settled (hneed : s.needResume = true) (hall : s.completions.length = s.calls.length)
      (hmain : (s.threads home).main.finishing = false)

/-- A step that concerns neither the caller nor what it waits for. -/
structure Beside (home : τ) (s t : State τ) : Prop where
  origin : t.origin = s.origin
  needResume : t.needResume = s.needResume
  calls : t.calls.length = s.calls.length
  completions : t.completions = s.completions
  finished : t.finished = s.finished
  main : (t.threads home).main.finishing = (s.threads home).main.finishing
  waits : t.waits = s.waits
  resumes : t.resumes = s.resumes

/-- What is kept of the caller, and that a `wait` returns rightly. -/
structure Rightly (home : τ) (s t : State τ) : Prop where
  phase : Phase home t
  resumes : ∀ suspended ∈ t.resumes, suspended = true
  waits : s.waits < t.waits → t.completions.length = t.calls.length

omit [DecidableEq τ] in
/-- No `wait` returns. -/
theorem Rightly.of_waits (hphase : Phase home t) (hresumes : ∀ suspended ∈ t.resumes, suspended = true)
    (hwaits : t.waits = s.waits) : Rightly home s t :=
  ⟨hphase, hresumes, fun hlt => absurd hwaits (Nat.ne_of_gt hlt)⟩

omit [DecidableEq τ] in
theorem Beside.rightly (h : Beside home s t) (hphase : Phase home s)
    (hresumes : ∀ suspended ∈ s.resumes, suspended = true) : Rightly home s t := by
  obtain ⟨horigin, hneed, hcalls, hcompletions, hfinished, hmain, hwaits, hresumes'⟩ := h
  refine .of_waits ?_ (hresumes' ▸ hresumes) hwaits
  cases hphase with
  | before hneed' horigin' => exact .before (hneed.trans hneed') (horigin ▸ horigin')
  | awaits hneed' hone hfinished' horigin' hmain' =>
    exact .awaits (hneed.trans hneed') (hcalls.trans hone) (hfinished.trans hfinished') (horigin ▸ horigin')
      (hmain.trans hmain')
  | completes hneed' hall horigin' hmain' =>
    exact .completes (hneed.trans hneed') (by rw [hcompletions, hcalls, hall]) (horigin.trans horigin')
      (hmain.trans hmain')
  | settled hneed' hall hmain' =>
    exact .settled (hneed.trans hneed') (by rw [hcompletions, hcalls, hall]) (hmain.trans hmain')

omit [DecidableEq τ] in
/-- The origin coroutine does something outside `wait`. -/
theorem Phase.outside (h : Phase home s) (horigin : s.origin.inWait = false) :
    s.needResume = false ∨ s.needResume = true ∧ s.completions.length = s.calls.length ∧
      (s.threads home).main.finishing = false := by
  cases h with
  | before hneed => exact .inl hneed
  | awaits _ _ _ hwait =>
    rcases hwait with hwait | hwait | hwait <;> rw [hwait] at horigin <;> cases horigin
  | completes _ _ hwait =>
    rw [hwait] at horigin
    cases horigin
  | settled hneed hall hmain => exact .inr ⟨hneed, hall, hmain⟩

omit [DecidableEq τ] in
/-- And stays outside. -/
theorem Phase.stays_outside (h : Phase home s) (horigin : s.origin.inWait = false)
    (horigin' : t.origin.inWait = false) (hneed : t.needResume = s.needResume)
    (hcalls : s.needResume = true → t.calls.length = s.calls.length) (hcompletions : t.completions = s.completions)
    (hmain : (t.threads home).main.finishing = (s.threads home).main.finishing) : Phase home t := by
  rcases h.outside horigin with hfalse | ⟨htrue, hall, hmain'⟩
  · exact .before (hneed.trans hfalse) horigin'
  · exact .settled (hneed.trans htrue) (by rw [hcompletions, hcalls htrue, hall]) (hmain.trans hmain')

theorem rightly_callMethod {checks : Bool} {u : τ} (hphase : Phase home s)
    (hresumes : ∀ suspended ∈ s.resumes, suspended = true) (hguard : WaitsLast home s (.callMethod checks u))
    (hs : RpcAsyncChannel.callMethod s checks u = some t) : Rightly home s t := by
  unfold RpcAsyncChannel.callMethod at hs
  split at hs
  swap
  · cases hs
  rename_i here horigin _
  have hout : s.origin.inWait = false := by rw [horigin]; rfl
  split at hs
  · obtain rfl := Option.some.inj hs
    exact .of_waits (hphase.stays_outside hout hout rfl (fun _ => rfl) rfl rfl) hresumes rfl
  · rename_i hchecks
    obtain rfl := Option.some.inj hs
    have hneed : s.needResume = false := hguard (by grind) (by grind)
    exact .of_waits (.before hneed rfl) hresumes rfl

theorem rightly_wait (hflow : Flow home place inHand s) (hresumes : ∀ suspended ∈ s.resumes, suspended = true)
    (hguard : WaitsLast home s .wait) (hs : RpcAsyncChannel.wait s = some t) : Rightly home s t := by
  obtain ⟨horigin, hcalls⟩ := hguard
  unfold RpcAsyncChannel.wait at hs
  rw [horigin] at hs
  split at hs
  swap
  · cases hs
  rename_i hhere _
  obtain rfl := Origin.running.inj hhere
  obtain rfl := Option.some.inj hs
  have hmain : (s.threads home).main.finishing = false := by
    rcases (hflow.origin home (by rw [horigin]; rfl)).2 with hmain | hmain <;> rw [hmain] <;> rfl
  refine .of_waits ?_ hresumes rfl
  rcases hcalls with hall | ⟨hone, hfinished⟩
  · exact .settled rfl hall hmain
  · exact .awaits rfl hone hfinished (.inl rfl) hmain

theorem rightly_advance (hphase : Phase home s) (hresumes : ∀ suspended ∈ s.resumes, suspended = true)
    (hs : RpcAsyncChannel.advance s = some t) : Rightly home s t := by
  unfold RpcAsyncChannel.advance at hs
  split at hs
  · rename_i here horigin
    have hout : s.origin.inWait = false := by rw [horigin]; rfl
    obtain rfl := Option.some.inj hs
    exact .of_waits (hphase.stays_outside hout rfl rfl (fun _ => rfl) rfl rfl) hresumes rfl
  · rename_i here horigin
    cases hphase with
    | before _ hout =>
      rw [horigin] at hout
      cases hout
    | completes _ _ hwaiting =>
      rw [horigin] at hwaiting
      cases hwaiting
    | awaits hneed hone hfinished hat hmain =>
      rw [horigin] at hat
      obtain rfl : here = home := by
        rcases hat with heq | heq | heq
        · exact Origin.asking.inj heq
        · cases heq
        · cases heq
      rw [if_neg (by rw [hfinished]; exact Bool.false_ne_true)] at hs
      obtain rfl := Option.some.inj hs
      exact .of_waits (.awaits hneed hone hfinished (.inr (.inl rfl)) hmain) hresumes rfl
    | settled hneed hall hmain =>
      split at hs
      · obtain rfl := Option.some.inj hs
        exact ⟨.settled hneed hall hmain, hresumes, fun _ => hall⟩
      · obtain rfl := Option.some.inj hs
        exact .of_waits (.settled hneed hall hmain) hresumes rfl
  · rename_i here horigin
    obtain rfl := Option.some.inj hs
    have hkept : ((Function.update s.threads here {s.threads here with current := .main}) home).main =
        (s.threads home).main := by
      grind [Function.update_apply]
    refine .of_waits ?_ hresumes rfl
    cases hphase with
    | before _ hout =>
      rw [horigin] at hout
      cases hout
    | completes _ _ hwaiting =>
      rw [horigin] at hwaiting
      cases hwaiting
    | awaits hneed hone hfinished _ hmain =>
      exact .awaits hneed hone hfinished (.inr (.inr rfl)) (hkept ▸ hmain)
    | settled hneed hall hmain => exact .settled hneed hall (hkept ▸ hmain)
  · cases hs

/-! ### The completion -/

theorem finishing_update {threads : τ → IOThread} {u : τ} {thread : IOThread}
    (h : thread.main.finishing = (threads u).main.finishing) :
    (Function.update threads u thread home).main.finishing = (threads home).main.finishing := by
  rw [Function.update_apply]
  split
  · rename_i heq
    rw [h, heq]
  · rfl

/-- A task lets go of the channel. -/
theorem beside_leaves {u : τ} {main : Main} (h : main.finishing = (s.threads u).main.finishing) :
    Beside home s (setMain (release s) u main) := by
  unfold release
  split <;> exact ⟨rfl, rfl, rfl, rfl, rfl, finishing_update h, rfl, rfl⟩

theorem rightly_main {u : τ} (hflow : Flow home place inHand s) (hphase : Phase home s)
    (hresumes : ∀ suspended ∈ s.resumes, suspended = true) (hs : RpcAsyncChannel.main home s u = some t) :
    Rightly home s t := by
  unfold RpcAsyncChannel.main at hs
  split at hs
  swap
  · cases hs
  rename_i tasks main hthread
  have hmain : (s.threads u).main = main := by rw [hthread]
  have hcurrent : (s.threads u).current = .main := by rw [hthread]
  have hwaiting : u = home → ¬ (s.origin = .asking home ∨ s.origin = .yielding home) := by
    rintro rfl hat
    refine (hflow.free hcurrent).1 ?_
    rcases hat with hat | hat <;> rw [hat] <;> rfl
  cases main with
  | loop => cases hs
  | postToOrigin k =>
    obtain rfl := Option.some.inj hs
    refine Beside.rightly ⟨rfl, rfl, rfl, rfl, rfl, ?_, rfl, rfl⟩ hphase hresumes
    refine (finishing_update ?_).trans (finishing_update rfl)
    refine Eq.symm (Eq.trans (finishing_update rfl) ?_)
    rw [hmain]
    rfl
  | posted =>
    obtain rfl := Option.some.inj hs
    exact (beside_leaves (by rw [hmain]; rfl)).rightly hphase hresumes
  | leaving =>
    obtain rfl := Option.some.inj hs
    exact (beside_leaves (by rw [hmain]; rfl)).rightly hphase hresumes
  | resumed =>
    obtain rfl := Option.some.inj hs
    exact (beside_leaves (by rw [hmain]; rfl)).rightly hphase hresumes
  | completion =>
    obtain rfl := Option.some.inj hs
    obtain ⟨rfl, hinHand⟩ := (hflow.completion u).mp hmain
    refine .of_waits ?_ hresumes rfl
    have hmain' : ((setMain {s with finished := true, completions := s.completions ++ [u]} u .finished).threads
        u).main.finishing = true := by
      simp [setMain, setThread, Main.finishing]
    cases hphase with
    | before hneed hout => exact .before hneed hout
    | awaits hneed hone hfinished hat =>
      have hnone : s.completions = [] := by
        by_contra hne
        rw [hflow.finished hne] at hfinished
        cases hfinished
      refine .completes hneed ?_ ?_ hmain'
      · show (s.completions ++ [u]).length = s.calls.length
        rw [hnone, hone]
        rfl
      · rcases hat with hat | hat | hat
        · exact absurd (.inl hat) (hwaiting rfl)
        · exact absurd (.inr hat) (hwaiting rfl)
        · exact hat
    | completes _ _ _ hfinishing =>
      rw [hmain] at hfinishing
      cases hfinishing
    | settled _ hall =>
      obtain ⟨k, rfl⟩ := Option.isSome_iff_exists.mp hinHand
      have hk := (hflow.completing k).mpr rfl
      rw [hflow.all_over hall] at hk
      cases hk
  | finished =>
    obtain rfl := Option.some.inj hs
    obtain rfl := hflow.finishing u (by rw [hmain]; rfl)
    refine Beside.rightly ⟨rfl, rfl, rfl, rfl, rfl, ?_, rfl, rfl⟩ hphase hresumes
    rw [hmain]
    simp [setMain, setThread, Main.finishing]
  | ran =>
    obtain rfl := Option.some.inj hs
    obtain rfl := hflow.finishing u (by rw [hmain]; rfl)
    cases hphase with
    | before hneed hout =>
      have hneed' : (setMain s u .resumed).needResume = false := hneed
      rw [if_neg (by rw [hneed']; exact Bool.false_ne_true)]
      exact .of_waits (.before hneed hout) hresumes rfl
    | awaits _ _ _ _ hfinishing =>
      rw [hmain] at hfinishing
      cases hfinishing
    | completes hneed hall horigin _ =>
      have hneed' : (setMain s u .resumed).needResume = true := hneed
      have horigin' : (setMain s u .resumed).origin = .waiting := horigin
      simp only [hneed', if_true, RpcAsyncChannel.resumeOrigin, horigin']
      refine ⟨.settled rfl hall ?_, ?_, fun _ => hall⟩
      · simp [setMain, setCurrent, setThread, Main.finishing]
      · intro suspended hmem
        rcases List.mem_append.mp hmem with hmem | hmem
        · exact hresumes suspended hmem
        · exact List.mem_singleton.mp hmem
    | settled _ _ hfinishing =>
      rw [hmain] at hfinishing
      cases hfinishing

/-! ### What a run keeps -/

theorem beside_loop {u : τ} (hs : RpcAsyncChannel.loop s u = some t) : Beside home s t := by
  unfold RpcAsyncChannel.loop at hs
  split at hs
  swap
  · cases hs
  rename_i task tasks hthread
  have hmain : (s.threads u).main.finishing = false := by rw [hthread]; rfl
  have hstarts : ∀ main : Main, main.finishing = false →
      main.finishing = ((setThread s u fun thread => {thread with tasks}).threads u).main.finishing := by
    intro main hfinishing
    refine hfinishing.trans (Eq.symm ((finishing_update ?_).trans hmain))
    rfl
  cases task with
  | other =>
    obtain rfl := Option.some.inj hs
    exact ⟨rfl, rfl, rfl, rfl, rfl, finishing_update rfl, rfl, rfl⟩
  | resume k =>
    obtain rfl := Option.some.inj hs
    refine ⟨rfl, rfl, List.length_set, rfl, rfl, (finishing_update ?_).trans (finishing_update ?_), rfl, rfl⟩ <;> rfl
  | postToOrigin k =>
    obtain rfl := Option.some.inj hs
    refine ⟨rfl, rfl, rfl, rfl, rfl, (finishing_update (hstarts _ rfl)).trans (finishing_update ?_), rfl, rfl⟩
    rfl
  | completion k =>
    obtain rfl := Option.some.inj hs
    refine ⟨rfl, rfl, rfl, rfl, rfl, (finishing_update (hstarts _ rfl)).trans (finishing_update ?_), rfl, rfl⟩
    rfl

theorem beside_pending {k : Nat} (hs : RpcAsyncChannel.pending s k = some t) : Beside home s t := by
  obtain ⟨p, -, hs⟩ := Option.bind_eq_some_iff.mp hs
  cases p with
  | calling u =>
    obtain rfl := Option.some.inj hs
    exact ⟨rfl, rfl, List.length_set, rfl, rfl, finishing_update rfl, rfl, rfl⟩
  | posted u =>
    obtain rfl := Option.some.inj hs
    unfold release
    split <;> exact ⟨rfl, rfl, List.length_set, rfl, rfl, rfl, rfl, rfl⟩
  | reset u =>
    obtain rfl := Option.some.inj hs
    unfold release
    split <;> exact ⟨rfl, rfl, List.length_set, rfl, rfl, rfl, rfl, rfl⟩
  | returned u =>
    obtain rfl := Option.some.inj hs
    exact ⟨rfl, rfl, List.length_set, rfl, rfl, rfl, rfl, rfl⟩
  | left u =>
    obtain rfl := Option.some.inj hs
    exact ⟨rfl, rfl, List.length_set, rfl, rfl, finishing_update rfl, rfl, rfl⟩
  | created => cases hs
  | yielded => cases hs
  | gone => cases hs

theorem rightly_step {i : Input τ} (hflow : Flow home place inHand s) (hphase : Phase home s)
    (hresumes : ∀ suspended ∈ s.resumes, suspended = true) (hguard : WaitsLast home s i)
    (hs : step home s i = some t) : Rightly home s t := by
  cases i with
  | saveCallee prepared closure =>
    simp only [step] at hs
    split at hs
    · obtain rfl := Option.some.inj hs
      exact Beside.rightly ⟨rfl, rfl, rfl, rfl, rfl, rfl, rfl, rfl⟩ hphase hresumes
    · cases hs
  | callMethod checks u => exact rightly_callMethod hphase hresumes hguard hs
  | wait => exact rightly_wait hflow hresumes hguard hs
  | advance => exact rightly_advance hphase hresumes hs
  | drop =>
    simp only [step] at hs
    split at hs
    · obtain rfl := Option.some.inj hs
      refine Beside.rightly ?_ hphase hresumes
      unfold release
      split <;> exact ⟨rfl, rfl, rfl, rfl, rfl, rfl, rfl, rfl⟩
    · cases hs
  | yield =>
    simp only [step] at hs
    split at hs
    · rename_i here horigin
      obtain rfl := Option.some.inj hs
      have hout : s.origin.inWait = false := by rw [horigin]; rfl
      exact .of_waits (hphase.stays_outside hout rfl rfl (fun _ => rfl) rfl (finishing_update rfl)) hresumes rfl
    · cases hs
  | resumeOrigin u =>
    simp only [step] at hs
    split at hs
    · rename_i horigin hthread
      obtain rfl := Option.some.inj hs
      have hout : s.origin.inWait = false := by rw [horigin]; rfl
      exact .of_waits (hphase.stays_outside hout rfl rfl (fun _ => rfl) rfl (finishing_update rfl)) hresumes rfl
    · cases hs
  | addTask u =>
    obtain rfl := Option.some.inj hs
    exact Beside.rightly ⟨rfl, rfl, rfl, rfl, rfl, finishing_update rfl, rfl, rfl⟩ hphase hresumes
  | loop u => exact (beside_loop hs).rightly hphase hresumes
  | main u => exact rightly_main hflow hphase hresumes hs
  | pending k => exact (beside_pending hs).rightly hphase hresumes
  | yieldPending k =>
    simp only [step] at hs
    split at hs
    · obtain rfl := Option.some.inj hs
      exact Beside.rightly ⟨rfl, rfl, List.length_set, rfl, rfl, finishing_update rfl, rfl, rfl⟩ hphase hresumes
    · cases hs
  | resumePending k u =>
    simp only [step] at hs
    split at hs
    · obtain rfl := Option.some.inj hs
      exact Beside.rightly ⟨rfl, rfl, List.length_set, rfl, rfl, finishing_update rfl, rfl, rfl⟩ hphase hresumes
    · cases hs

/-- **`wait` waits for all calls**: in a run of which `WaitsLast` holds no call of `wait` returns before
all calls have completed, and completions resume the origin coroutine in `wait` only. -/
theorem waits_rightly (home : τ) {is : List (Input τ)} (hg : Meets (step home) (WaitsLast home) (initial home) is) :
    Meets (step home) (WaitsRightly home) (initial home) is := by
  refine hg.imp_of_step (Q := fun s => ∃ place inHand, Flow home place inHand s ∧ Phase home s ∧
    ∀ suspended ∈ s.resumes, suspended = true) ?_ ?_ ⟨_, _, flow_initial home, .before rfl rfl, nofun⟩
  · rintro s i t ⟨place, inHand, hflow, hphase, hresumes⟩ hguard hs
    obtain ⟨place', inHand', hflow'⟩ := flow_step hflow hs
    have hrightly := rightly_step hflow hphase hresumes hguard hs
    exact ⟨place', inHand', hflow', hrightly.phase, hrightly.resumes⟩
  · rintro s i ⟨place, inHand, hflow, hphase, hresumes⟩ hguard t hs
    obtain ⟨place', inHand', hflow'⟩ := flow_step hflow hs
    have hrightly := rightly_step hflow hphase hresumes hguard hs
    exact ⟨fun hlt => hflow'.completed (hrightly.waits hlt), hrightly.resumes⟩

end

/-! ### Runs -/

/-- A call that is made, to be resumed on another thread. -/
def makesCall : List (Input Nat) := [.callMethod true 2, .advance]

/-- Its coroutine runs to its end. -/
def runsCall (k : Nat) : List (Input Nat) := .loop 2 :: List.replicate 5 (.pending k)

/-- Its completion is posted. -/
def postsCall : List (Input Nat) := .loop 2 :: List.replicate 3 (.main 2)

def servesCall (k : Nat) : List (Input Nat) := runsCall k ++ postsCall

/-- Its completion, up to `Resume`. -/
def completesCall : List (Input Nat) := [.loop 1] ++ List.replicate 3 (.main 1)

/-- A call is made and waited for. -/
def waitsOnce : List (Input Nat) :=
  [.saveCallee true true] ++ makesCall ++ [.wait, .advance, .advance] ++ servesCall 0 ++ completesCall

example : ((run (step 1) (initial 1) waitsOnce).any fun s => s.waits = 1 ∧ s.completions = [1]) = true := by
  decide +kernel

/-- Two calls are made, and waited for when both have completed. -/
def waitsForTwo : List (Input Nat) :=
  List.flatten [[.saveCallee true true], makesCall, makesCall, [.yield], runsCall 0, runsCall 1, postsCall, postsCall,
    completesCall, [.main 1], completesCall, [.main 1, .resumeOrigin 1, .wait, .advance]]

theorem waits_rightly_two :
    ((run (step 1) (initial 1) waitsForTwo).any fun s => s.waits = 1 ∧ s.completions = [1, 1]) = true ∧
      Meets (step 1) (WaitsRightly 1) (initial 1) waitsForTwo :=
  ⟨by decide +kernel, waits_rightly 1 (by decide +kernel)⟩

/-- Another call, of which the next `wait` does not know. -/
def waitsAgain : List (Input Nat) := waitsOnce ++ makesCall ++ [.wait]

theorem waitsAgain_run : ((run (step 1) (initial 1) waitsAgain).any fun s => (step 1 s .advance).any fun t =>
    s.waits < t.waits ∧ t.completions.length ≠ t.calls.length) = true := by
  decide +kernel

/-- Another call, behind which the origin coroutine goes on and yields elsewhere. -/
def goesOn : List (Input Nat) :=
  waitsOnce ++ makesCall ++ [.yield, .main 1] ++ servesCall 1 ++ [.loop 1] ++ List.replicate 2 (.main 1)

theorem goesOn_run : ((run (step 1) (initial 1) goesOn).any fun s => (step 1 s (.main 1)).any fun t =>
    false ∈ t.resumes) = true := by
  decide +kernel

/-- **`wait` does not wait for all calls**: the second of two returns at once, and a call that is made
behind a `wait` resumes the origin coroutine where it does not wait. -/
theorem not_waits_rightly : ¬ Meets (step 1) (WaitsRightly 1) (initial 1) (waitsAgain ++ [.advance]) ∧
    ¬ Meets (step 1) (WaitsRightly 1) (initial 1) (goesOn ++ [.main 1]) := by
  constructor
  · intro h
    obtain ⟨s, hrun, hs⟩ := (Option.any_eq_true _ _).mp waitsAgain_run
    obtain ⟨t, hstep, ht⟩ := (Option.any_eq_true _ _).mp hs
    obtain ⟨hwaits, hcalls⟩ := of_decide_eq_true ht
    exact hcalls ((h.at_step hrun t hstep).1 hwaits).all
  · intro h
    obtain ⟨s, hrun, hs⟩ := (Option.any_eq_true _ _).mp goesOn_run
    obtain ⟨t, hstep, ht⟩ := (Option.any_eq_true _ _).mp hs
    cases (h.at_step hrun t hstep).2 false (of_decide_eq_true ht)

end CoroutineRpc.Rpc.RpcAsyncChannel
