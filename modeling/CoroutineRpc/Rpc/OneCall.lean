import CoroutineRpc.Rpc.RpcAsyncChannel

/-! One call on an `RpcAsyncChannel`.

What `CallMethod` started is at one place at a time: in the tasks of a thread, inside a coroutine,
inside a task. It is in two places only behind `post_to_origin`, which has posted the completion
and has still to let go of the channel. `Worker` and `Completion` are these places; what the threads
do, who has a reference and what has happened all follow from them (`Matches`). -/
namespace CoroutineRpc.Rpc.RpcAsyncChannel
open Library.Transition

section
variable {τ : Type} [DecidableEq τ]

/-- One `CallMethod` that passes its checks, on the thread that the channel was made on, and behind it
at most one `wait`, before the origin coroutine yields elsewhere. -/
def OneCall (home : τ) (s : State τ) : Input τ → Prop
  | .saveCallee _ _ => s.calls = []
  | .callMethod checks _ => s.calls = [] ∧ s.prepared = true ∧ checks = true ∧ s.origin = .running home
  | .wait => s.stayed = true ∧ s.needResume = false
  | _ => True

instance (home : τ) (s : State τ) (i : Input τ) : Decidable (OneCall home s i) := by
  unfold OneCall
  split <;> infer_instance

/-- It starts something new. -/
def Input.starts : Input τ → Bool
  | .saveCallee _ _ | .callMethod _ _ | .resumeOrigin _ | .addTask _ => true
  | _ => false

/-- Nothing that was started can go on. -/
def Quiet (home : τ) (s : State τ) : Prop := ∀ i : Input τ, i.starts = false → step home s i = none

/-- The call completes at most once, on the origin thread, and wakes its caller as it should. -/
structure Sound (home : τ) (s : State τ) : Prop where
  completions : s.completions = [] ∨ s.completions = [home]
  closureRuns : s.closureRuns ≤ if s.closure then 1 else 0
  waits : 0 < s.waits → s.waits = 1 ∧ s.finished = true ∧ s.closureRuns = if s.closure then 1 else 0
  resumes : s.resumes = [] ∨ s.resumes = [true]
  returned : s.returned = [] ∨ s.returned = [.gone]

/-- The call is over. -/
structure Done (home : τ) (s : State τ) : Prop where
  completions : s.completions = [home]
  closureRuns : s.closureRuns = if s.closure then 1 else 0
  waits : s.waits = if s.needResume then 1 else 0
  returned : s.held = false → s.returned = [.gone]

/-! ### The places of one call -/

/-- Where `rpc_task` and the task that it posts are. -/
inductive Worker (τ : Type) where
  | absent
  /-- In the tasks of a thread. -/
  | queued (t : τ)
  | calling (t : τ)
  | yielded
  | posted (t : τ)
  | reset (t : τ)
  | returned (t : τ)
  | left (t : τ)
  /-- `post_to_origin` is in the tasks of a thread. -/
  | away (t : τ)
  | posting (t : τ)
  | sent (t : τ)
  | leaving (t : τ)
  | done

/-- Where `completion` is. -/
inductive Completion where
  | absent
  | queued
  | started
  | finished
  | ran
  | resumed
  | done

namespace Worker

def calls : Worker τ → List (Pending τ)
  | absent => []
  | queued _ => [.created]
  | calling t => [.calling t]
  | yielded => [.yielded]
  | posted t => [.posted t]
  | reset t => [.reset t]
  | returned t => [.returned t]
  | left t => [.left t]
  | away _ | posting _ | sent _ | leaving _ | done => [.gone]

/-- Its task on a thread. -/
def tasks : Worker τ → τ → List Task
  | queued t', t => if t = t' then [.resume 0] else []
  | posted t', t | reset t', t | returned t', t | left t', t | away t', t =>
    if t = t' then [.postToOrigin 0] else []
  | _, _ => []

/-- Where it has the main coroutine of a thread. -/
def main : Worker τ → τ → Main
  | posting t', t => if t = t' then .postToOrigin 0 else .loop
  | sent t', t => if t = t' then .posted else .loop
  | leaving t', t => if t = t' then .leaving else .loop
  | _, _ => .loop

/-- The thread that its coroutine is on. -/
def on : Worker τ → Option τ
  | calling t | posted t | reset t | returned t | left t => some t
  | _ => none

/-- Its references. -/
def refs : Worker τ → Nat
  | absent | done => 0
  | queued _ | calling _ | yielded | returned _ | left _ | away _ | posting _ | leaving _ => 1
  | reset _ | sent _ => 2
  | posted _ => 3

/-- The completion has been posted. -/
def isSent : Worker τ → Bool
  | sent _ | leaving _ | done => true
  | _ => false

/-- The coroutine of the call is at a place. -/
def HasPending (w : Worker τ) : Pending τ → Prop
  | .created => ∃ u, w = .queued u
  | .calling u => w = .calling u
  | .yielded => w = .yielded
  | .posted u => w = .posted u
  | .reset u => w = .reset u
  | .returned u => w = .returned u
  | .left u => w = .left u
  | .gone => True

/-- The worker has the main coroutine of a thread at a place. -/
def HasMain (w : Worker τ) (u : τ) : Main → Prop
  | .loop => True
  | .postToOrigin k => w = .posting u ∧ k = 0
  | .posted => w = .sent u
  | .leaving => w = .leaving u
  | .completion | .finished | .ran | .resumed => False

end Worker

namespace Completion

def tasks : Completion → List Task
  | queued => [.completion 0]
  | _ => []

def main : Completion → Main
  | started => .completion
  | finished => .finished
  | ran => .ran
  | resumed => .resumed
  | absent | queued | done => .loop

def refs : Completion → Nat
  | absent | done => 0
  | queued | started | finished | ran | resumed => 1

def isEarly : Completion → Bool
  | absent | queued => true
  | _ => false

/-- It is behind `finished_`. -/
def isFinished : Completion → Bool
  | finished | ran | resumed | done => true
  | absent | queued | started => false

/-- It is behind the closure. -/
def hasRun : Completion → Bool
  | ran | resumed | done => true
  | absent | queued | started | finished => false

/-- It is behind `Resume`. -/
def isOver : Completion → Bool
  | resumed | done => true
  | absent | queued | started | finished | ran => false

/-- The completion has the main coroutine at a place. -/
def HasMain (c : Completion) : Main → Prop
  | .loop => True
  | .completion => c = .started
  | .finished => c = .finished
  | .ran => c = .ran
  | .resumed => c = .resumed
  | .postToOrigin _ | .posted | .leaving => False

end Completion

namespace Origin

/-- The thread that the origin coroutine is on. -/
def on : Origin τ → Option τ
  | running t | calling t | asking t | yielding t => some t
  | waiting | away => none

def inWait : Origin τ → Bool
  | asking _ | yielding _ | waiting => true
  | running _ | calling _ | away => false

def isCalling : Origin τ → Bool
  | calling _ => true
  | _ => false

end Origin

/-- The tasks of the channel. -/
def own (tasks : List Task) : List Task := tasks.filter (· ≠ .other)

/-- The threads, with the worker at `w` and the completion at `c`. -/
structure Placed (home : τ) (w : Worker τ) (c : Completion) (on : Option τ) (threads : τ → IOThread) : Prop where
  tasks : ∀ t, own (threads t).tasks = w.tasks t ++ if t = home then c.tasks else []
  main : ∀ t, (threads t).main = if t = home ∧ c.main ≠ .loop then c.main else w.main t
  single : c.main ≠ .loop → w.main home = .loop
  current : ∀ t, (threads t).current = if on = some t then .origin else if w.on = some t then .pending 0 else .main
  apart : ∀ t, on = some t → w.on ≠ some t

/-- The origin coroutine, with the completion at `c`. -/
structure Caller (home : τ) (c : Completion) (s : State τ) : Prop where
  calling : s.origin.isCalling = true → s.needResume = false ∧ s.stayed = true ∧ s.calls ≠ [] ∧ s.held = true
  asked : s.origin.inWait = true → s.needResume = true ∧ s.stayed = true ∧ c.isOver = false ∧ s.held = true
  asleep : s.needResume = true → c.isOver = false → s.origin.inWait = true
  stayed : s.stayed = true → s.origin.on = some home ∨ s.origin = .waiting
  early : s.origin.on = some home → c.isEarly = true ∨ c.isOver = true
  fresh : s.stayed = true → s.needResume = false → c.isOver = false
  idle : s.calls = [] → s.stayed = false ∧ s.needResume = false

/-- One call, with the worker at `w` and the completion at `c`. -/
structure Matches (home : τ) (w : Worker τ) (c : Completion) (s : State τ) : Prop extends Caller home c s where
  placed : Placed home w c s.origin.on s.threads
  linked : w.isSent = true ↔ c ≠ .absent
  calls : s.calls = w.calls
  refs : s.refs = w.refs + c.refs + s.held.toNat
  finished : s.finished = c.isFinished
  completions : s.completions = if c.isFinished then [home] else []
  closureRuns : s.closureRuns = if s.closure ∧ c.hasRun then 1 else 0
  pendingCoroutine : s.pendingCoroutine = if s.calls = [] ∨ s.origin.isCalling then none else some 0
  resumes : s.resumes = if s.needResume ∧ c.isOver then [true] else []
  waits : s.waits = if s.needResume ∧ c.isOver then 1 else 0
  returned : s.returned = if s.refs = 0 ∧ s.calls ≠ [] then [.gone] else []


attribute [grind =] Worker.tasks Worker.main Worker.on Worker.refs Worker.isSent Worker.calls Completion.tasks
  Completion.main Completion.refs Completion.isFinished Completion.hasRun Completion.isOver Completion.isEarly
  Origin.on Origin.inWait Origin.isCalling own

omit [DecidableEq τ] in
/-- A reference goes, and with the last one the channel. -/
theorem release_eq {s : State τ} {n : Nat} (hrefs : s.refs = n + 1) (hreturned : s.returned = [])
    (hnone : n = 0 → s.calls = [] → s.pendingCoroutine = none)
    (hgone : n = 0 → s.calls ≠ [] → s.calls = [.gone] ∧ s.pendingCoroutine = some 0) :
    release s = {s with refs := n, returned := if n = 0 ∧ s.calls ≠ [] then [.gone] else []} := by
  cases n with
  | zero =>
    rw [release, if_pos hrefs]
    by_cases hcalls : s.calls = []
    · simp [hcalls, hreturned, hnone rfl hcalls]
    · obtain ⟨hcall, hpending⟩ := hgone rfl hcalls
      simp [hcall, hreturned, hpending]
  | succ n =>
    rw [release, if_neg (by omega), hrefs]
    simp [hreturned]

variable {home : τ} {w : Worker τ} {c : Completion} {s t : State τ}

omit [DecidableEq τ] in
theorem Worker.eq_absent (h : w.calls = []) : w = .absent := by
  cases w <;> first | rfl | cases h

theorem Completion.of_isEarly (h : c.isEarly = true) :
    c.isFinished = false ∧ c.hasRun = false ∧ c.isOver = false ∧ c.main = .loop := by
  cases c <;> first | exact ⟨rfl, rfl, rfl, rfl⟩ | cases h

theorem Matches.absent (h : Matches home w c s) (hcalls : s.calls = []) : w = .absent ∧ c = .absent := by
  obtain rfl := Worker.eq_absent (h.calls.symm.trans hcalls)
  exact ⟨rfl, by grind [h.linked]⟩

/-! ### The origin coroutine -/

theorem Matches.saveCallee {prepared closure : Bool} (h : Matches home w c s) (hcalls : s.calls = [])
    (hs : step home s (.saveCallee prepared closure) = some t) : Matches home w c t := by
  simp only [step] at hs
  split at hs
  swap
  · cases hs
  obtain rfl := Option.some.inj hs
  obtain ⟨rfl, rfl⟩ := h.absent hcalls
  exact ⟨⟨h.calling, h.asked, h.asleep, h.stayed, h.early, h.fresh, h.idle⟩, h.placed, h.linked, h.calls, h.refs,
    h.finished, h.completions, by grind [h.closureRuns], h.pendingCoroutine, h.resumes, h.waits, h.returned⟩

theorem Matches.callMethod {checks : Bool} {u : τ} (h : Matches home w c s)
    (hg : OneCall home s (.callMethod checks u)) (hs : step home s (.callMethod checks u) = some t) :
    Matches home (.queued u) c t := by
  obtain ⟨hcalls, hprepared, rfl, horigin⟩ := hg
  obtain ⟨rfl, rfl⟩ := h.absent hcalls
  have hidle := h.idle hcalls
  simp only [step, RpcAsyncChannel.callMethod, horigin] at hs
  split at hs
  swap
  · cases hs
  rename_i hheld
  rw [if_neg (by simp [hprepared]), hcalls] at hs
  have hplaced : Placed home (.queued u) .absent t.origin.on t.threads := by
    obtain ⟨htasks, hmain, hsingle, hcurrent, hapart⟩ := h.placed
    obtain rfl := Option.some.inj hs
    simp only [addTask, setThread]
    constructor <;> grind [Function.update_apply]
  have hcaller : Caller home .absent t := by
    constructor <;> grind [addTask, setThread]
  obtain rfl := Option.some.inj hs
  refine ⟨hcaller, hplaced, by grind, rfl, ?_, h.finished, h.completions, h.closureRuns, ?_, h.resumes, h.waits, ?_⟩
  · change s.refs + 1 = _
    rw [h.refs]
    grind [addTask, setThread]
  · rw [h.pendingCoroutine, hcalls]
    grind [addTask, setThread]
  · change s.returned = _
    rw [h.returned, hcalls]
    simp [addTask, setThread]

theorem Matches.wait (h : Matches home w c s) (hg : OneCall home s .wait) (hs : step home s .wait = some t) :
    Matches home w c t := by
  simp only [step, RpcAsyncChannel.wait] at hs
  split at hs
  swap
  · cases hs
  obtain ⟨hstayed, hasked⟩ := hg
  have hover := h.fresh hstayed hasked
  have hon := h.stayed hstayed
  have hcaller : Caller home c t := by
    constructor <;> grind [h.early, h.idle]
  obtain rfl := Option.some.inj hs
  exact ⟨hcaller, by grind [h.placed], h.linked, h.calls, h.refs, h.finished, h.completions, h.closureRuns,
    by grind [h.pendingCoroutine], by grind [h.resumes], by grind [h.waits], h.returned⟩

/-- The origin coroutine is somewhere else, and calls as it did. -/
theorem Matches.moved {origin : Origin τ} {threads : τ → IOThread} {stayed : Bool} (h : Matches home w c s)
    (hplaced : Placed home w c origin.on threads)
    (hcaller : Caller home c {s with origin := origin, threads := threads, stayed := stayed})
    (hcalling : origin.isCalling = s.origin.isCalling) :
    Matches home w c {s with origin := origin, threads := threads, stayed := stayed} :=
  ⟨hcaller, hplaced, h.linked, h.calls, h.refs, h.finished, h.completions, h.closureRuns,
    h.pendingCoroutine.trans (by simp [hcalling]), h.resumes, h.waits, h.returned⟩

theorem Matches.advance (h : Matches home w c s) (hs : step home s .advance = some t) : Matches home w c t := by
  simp only [step, RpcAsyncChannel.advance] at hs
  split at hs
  · rename_i here horigin
    have hcalling := h.calling (by grind)
    have hlength : s.calls.length = 1 := by cases w <;> grind [h.calls]
    have hon := h.stayed hcalling.2.1
    have hcaller : Caller home c t := by
      constructor <;> grind [h.early, h.fresh]
    obtain rfl := Option.some.inj hs
    exact ⟨hcaller, by grind [h.placed], h.linked, h.calls, h.refs, h.finished, h.completions, h.closureRuns,
      by grind, h.resumes, h.waits, h.returned⟩
  · rename_i here horigin
    have hasked := h.asked (by grind)
    have hon := h.stayed hasked.2.1
    have hearly : c.isEarly = true := by grind [h.early]
    have hfinished : s.finished = false := h.finished.trans (Completion.of_isEarly hearly).1
    rw [if_neg (by simp [hfinished])] at hs
    have hcaller : Caller home c t := by
      constructor <;> grind [h.early, h.idle]
    obtain rfl := Option.some.inj hs
    exact ⟨hcaller, by grind [h.placed], h.linked, h.calls, h.refs, h.finished, h.completions, h.closureRuns,
      by grind [h.pendingCoroutine], h.resumes, h.waits, h.returned⟩
  · rename_i here horigin
    have hasked := h.asked (by grind)
    have hplaced : Placed home w c t.origin.on t.threads := by
      obtain ⟨htasks, hmain, hsingle, hcurrent, hapart⟩ := h.placed
      obtain rfl := Option.some.inj hs
      simp only [setCurrent, setThread]
      constructor <;> grind [Function.update_apply]
    have hcaller : Caller home c t := by
      obtain ⟨hcalling, hasked, hasleep, hstayed, hearly, hfresh, hidle⟩ := h.toCaller
      constructor <;> grind [setCurrent, setThread]
    obtain rfl := Option.some.inj hs
    exact h.moved hplaced hcaller (by simp [horigin, Origin.isCalling])
  · cases hs

/-- Somebody lets go of the channel. What is left to return is returned by the last one. -/
theorem Matches.release_eq (h : Matches home w c s) {u : State τ} {n : Nat} (hrefs : u.refs = n + 1)
    (hreturned : s.refs ≠ 0) (hcalls : u.calls = s.calls) (hpending : u.pendingCoroutine = s.pendingCoroutine)
    (hkept : u.returned = s.returned) (hlast : n = 0 → s.calls ≠ [] → s.calls = [.gone] ∧ s.origin.isCalling = false) :
    release u = {u with refs := n, returned := if n = 0 ∧ s.calls ≠ [] then [.gone] else []} := by
  have hnone : s.returned = [] := by grind [h.returned]
  rw [← hcalls]
  refine RpcAsyncChannel.release_eq hrefs (hkept.trans hnone) ?_ ?_
  · grind [h.pendingCoroutine]
  · grind [h.pendingCoroutine]

theorem Matches.drop (h : Matches home w c s) (hs : step home s .drop = some t) : Matches home w c t := by
  simp only [step] at hs
  split at hs
  swap
  · cases hs
  rename_i here horigin hheld
  have hrefs := h.refs
  rw [hheld] at hrefs
  have hgone : w.refs + c.refs = 0 → s.calls ≠ [] → s.calls = [.gone] := by
    cases w <;> grind [h.calls]
  rw [h.release_eq (u := {s with held := false}) (n := w.refs + c.refs) hrefs (by simp [hrefs]) rfl rfl rfl
    fun hzero hcalls => ⟨hgone hzero hcalls, by grind⟩] at hs
  have hcaller : Caller home c t := by
    constructor <;> grind [h.calling, h.asked, h.asleep, h.stayed, h.early, h.fresh, h.idle]
  obtain rfl := Option.some.inj hs
  exact ⟨hcaller, h.placed, h.linked, h.calls, rfl, h.finished, h.completions, h.closureRuns,
    h.pendingCoroutine, h.resumes, h.waits, rfl⟩

theorem Matches.yield (h : Matches home w c s) (hs : step home s .yield = some t) : Matches home w c t := by
  simp only [step] at hs
  split at hs
  swap
  · cases hs
  rename_i here horigin
  have hplaced : Placed home w c t.origin.on t.threads := by
    obtain ⟨htasks, hmain, hsingle, hcurrent, hapart⟩ := h.placed
    obtain rfl := Option.some.inj hs
    simp only [setCurrent, setThread]
    constructor <;> grind [Function.update_apply]
  have hcaller : Caller home c t := by
    obtain ⟨hcalling, hasked, hasleep, hstayed, hearly, hfresh, hidle⟩ := h.toCaller
    constructor <;> grind [setCurrent, setThread]
  obtain rfl := Option.some.inj hs
  exact h.moved hplaced hcaller (by simp [horigin, Origin.isCalling])

theorem Matches.resumeOrigin {u : τ} (h : Matches home w c s) (hs : step home s (.resumeOrigin u) = some t) :
    Matches home w c t := by
  simp only [step] at hs
  split at hs
  swap
  · cases hs
  rename_i tasks horigin hthread
  have hplaced : Placed home w c t.origin.on t.threads := by
    obtain ⟨htasks, hmain, hsingle, hcurrent, hapart⟩ := h.placed
    obtain rfl := Option.some.inj hs
    simp only [setCurrent, setThread]
    constructor <;> grind [Function.update_apply]
  have hhome : u = home → c.isEarly = true ∨ c.isOver = true := by
    rintro rfl
    have hmain := h.placed.main u
    cases c <;> grind
  have hcaller : Caller home c t := by
    obtain ⟨hcalling, hasked, hasleep, hstayed, hearly, hfresh, hidle⟩ := h.toCaller
    constructor <;> grind [setCurrent, setThread]
  obtain rfl := Option.some.inj hs
  exact h.moved hplaced hcaller (by simp [horigin, Origin.isCalling])

/-! ### The reactors -/

/-- A step that leaves alone what concerns the origin coroutine. -/
structure Aside (s t : State τ) : Prop where
  origin : t.origin = s.origin
  held : t.held = s.held
  needResume : t.needResume = s.needResume
  stayed : t.stayed = s.stayed
  pendingCoroutine : t.pendingCoroutine = s.pendingCoroutine
  resumes : t.resumes = s.resumes
  waits : t.waits = s.waits

/-- The call goes on to other places. -/
theorem Matches.goes {w' : Worker τ} {c' : Completion} (h : Matches home w c s) (haside : Aside s t)
    (hplaced : Placed home w' c' s.origin.on t.threads) (hstarted : w ≠ .absent) (hcalls : t.calls = w'.calls)
    (hlinked : w' ≠ .absent ∧ (w'.isSent = true ↔ c' ≠ .absent))
    (hrefs : t.refs = w'.refs + c'.refs + s.held.toNat)
    (hreturned : t.returned = if t.refs = 0 then [.gone] else [])
    (hover : c'.isOver = c.isOver) (hearly : s.origin.on = some home → c'.isEarly = true ∨ c'.isOver = true)
    (hfinished : t.finished = c'.isFinished) (hcompletions : t.completions = if c'.isFinished then [home] else [])
    (hclosure : t.closureRuns = if t.closure ∧ c'.hasRun then 1 else 0) : Matches home w' c' t := by
  have hbefore : s.calls ≠ [] := fun hnil => hstarted (Worker.eq_absent (h.calls.symm.trans hnil))
  have hafter : t.calls ≠ [] := fun hnil => hlinked.1 (Worker.eq_absent (hcalls.symm.trans hnil))
  obtain ⟨horigin, hheld, hneed, hstay, hpending, hresumes, hwaits⟩ := haside
  have hcaller : Caller home c' t := by
    obtain ⟨hcalling, hasked, hasleep, hstays, -, hfresh, hidle⟩ := h.toCaller
    constructor <;> grind
  refine ⟨hcaller, horigin ▸ hplaced, hlinked.2, hcalls, hheld ▸ hrefs, hfinished, hcompletions, hclosure,
    ?_, ?_, ?_, ?_⟩
  · rw [hpending, h.pendingCoroutine, horigin]
    simp only [hbefore, hafter, false_or]
  · rw [hresumes, h.resumes, hneed, hover]
  · rw [hwaits, h.waits, hneed, hover]
  · rw [hreturned]
    simp [hafter]

/-- Nothing was returned while the call has references. -/
theorem Matches.kept (h : Matches home w c s) (hpos : w.refs + c.refs ≠ 0) :
    s.returned = if s.refs = 0 then [.gone] else [] := by
  have hrefs := h.refs
  rw [h.returned, if_neg (by omega), if_neg (by omega)]

theorem Worker.of_isSent (h : w.isSent = true) :
    w ≠ .absent ∧ w.calls = [.gone] ∧ w.on = none ∧ ∀ t, w.tasks t = [] := by
  cases w <;> first | exact ⟨nofun, rfl, rfl, fun _ => rfl⟩ | cases h

theorem Matches.addTask {u : τ} (h : Matches home w c s) (hs : step home s (.addTask u) = some t) :
    Matches home w c t := by
  obtain rfl := Option.some.inj hs
  have hplaced : Placed home w c s.origin.on (RpcAsyncChannel.addTask s u .other).threads := by
    obtain ⟨htasks, hmain, hsingle, hcurrent, hapart⟩ := h.placed
    simp only [RpcAsyncChannel.addTask, setThread]
    constructor <;> grind [Function.update_apply]
  exact ⟨⟨h.calling, h.asked, h.asleep, h.stayed, h.early, h.fresh, h.idle⟩, hplaced, h.linked, h.calls, h.refs,
    h.finished, h.completions, h.closureRuns, h.pendingCoroutine, h.resumes, h.waits, h.returned⟩

theorem Completion.tasks_cases (c : Completion) : c.tasks = [] ∨ c = .queued ∧ c.tasks = [.completion 0] := by
  cases c <;> first | exact .inr ⟨rfl, rfl⟩ | exact .inl rfl

/-- The task of the call that a thread has next. -/
theorem Placed.of_resume {on : Option τ} {threads : τ → IOThread} (h : Placed home w c on threads) {u : τ}
    {k : Nat} {rest : List Task} (hu : (threads u).tasks = .resume k :: rest) : w = .queued u ∧ k = 0 := by
  have htasks := h.tasks u
  have hc := c.tasks_cases
  cases w <;> grind

theorem Placed.of_postToOrigin {on : Option τ} {threads : τ → IOThread} (h : Placed home w c on threads) {u : τ}
    {k : Nat} {rest : List Task} (hu : (threads u).tasks = .postToOrigin k :: rest)
    (hcurrent : (threads u).current = .main) : w = .away u ∧ k = 0 := by
  have htasks := h.tasks u
  have hthread := h.current u
  have hapart := h.apart u
  have hc := c.tasks_cases
  cases w <;> grind

theorem Placed.of_completion {on : Option τ} {threads : τ → IOThread} (h : Placed home w c on threads) {u : τ}
    {k : Nat} {rest : List Task} (hu : (threads u).tasks = .completion k :: rest) : u = home ∧ c = .queued := by
  have htasks := h.tasks u
  have hc := c.tasks_cases
  cases w <;> grind

theorem Matches.loop {u : τ} (h : Matches home w c s) (hs : step home s (.loop u) = some t) :
    ∃ w' c', Matches home w' c' t := by
  simp only [step, RpcAsyncChannel.loop] at hs
  split at hs
  swap
  · cases hs
  rename_i task tasks hthread
  have hhead : (s.threads u).tasks = task :: tasks := by rw [hthread]
  have hcurrent : (s.threads u).current = .main := by rw [hthread]
  obtain ⟨htasks, hmain, hsingle, hcurrents, hapart⟩ := h.placed
  cases task with
  | other =>
    obtain rfl := Option.some.inj hs
    have hplaced : Placed home w c s.origin.on (setThread s u fun thread => {thread with tasks}).threads := by
      simp only [setThread]
      constructor <;> grind [Function.update_apply]
    exact ⟨w, c, ⟨h.calling, h.asked, h.asleep, h.stayed, h.early, h.fresh, h.idle⟩, hplaced, h.linked, h.calls,
      h.refs, h.finished, h.completions, h.closureRuns, h.pendingCoroutine, h.resumes, h.waits, h.returned⟩
  | resume k =>
    obtain ⟨rfl, rfl⟩ := h.placed.of_resume hhead
    obtain rfl := Option.some.inj hs
    refine ⟨.calling u, c, h.goes ⟨rfl, rfl, rfl, rfl, rfl, rfl, rfl⟩ ?_ nofun ?_ ⟨nofun, h.linked⟩ h.refs
      (h.kept (by simp [Worker.refs])) rfl h.early h.finished h.completions h.closureRuns⟩
    · simp only [setCurrent, setPending, setThread]
      constructor <;> grind [Function.update_apply]
    · simp [setCurrent, setPending, setThread, h.calls, Worker.calls]
  | postToOrigin k =>
    obtain ⟨rfl, rfl⟩ := h.placed.of_postToOrigin hhead hcurrent
    obtain rfl := Option.some.inj hs
    refine ⟨.posting u, c, h.goes ⟨rfl, rfl, rfl, rfl, rfl, rfl, rfl⟩ ?_ nofun h.calls ⟨nofun, h.linked⟩ h.refs
      (h.kept (by simp [Worker.refs])) rfl h.early h.finished h.completions h.closureRuns⟩
    simp only [setMain, setThread]
    constructor <;> grind [Function.update_apply]
  | completion k =>
    obtain ⟨rfl, rfl⟩ := h.placed.of_completion hhead
    obtain ⟨hne, hgone, hon, hnone⟩ := Worker.of_isSent (h.linked.mpr nofun)
    obtain rfl := Option.some.inj hs
    refine ⟨w, .started, h.goes ⟨rfl, rfl, rfl, rfl, rfl, rfl, rfl⟩ ?_ hne h.calls
      ⟨hne, iff_of_true (h.linked.mpr nofun) nofun⟩ h.refs (h.kept (by simp [Completion.refs])) rfl (by grind)
      h.finished h.completions h.closureRuns⟩
    simp only [setMain, setThread]
    constructor <;> grind [Function.update_apply]

/-- A reference of the call goes. -/
theorem Matches.release_call {n : Nat} (h : Matches home w c s) (hstarted : w ≠ .absent)
    (hrefs : w.refs + c.refs = n + 1) (hlast : n = 0 → w.calls = [.gone]) :
    release s = {s with
      refs := n + s.held.toNat, returned := if n + s.held.toNat = 0 then [.gone] else []} := by
  have hbefore : s.calls ≠ [] := fun hnil => hstarted (Worker.eq_absent (h.calls.symm.trans hnil))
  have hcount := h.refs
  rw [h.release_eq (n := n + s.held.toNat) (by omega) (by omega) rfl rfl rfl fun hzero _ =>
    ⟨h.calls.trans (hlast (by omega)), ?_⟩]
  · simp only [ne_eq, hbefore, not_false_eq_true, and_true]
  · by_contra hcalling
    have hheld := (h.calling (by simpa using hcalling)).2.2.2
    simp [hheld] at hzero

omit [DecidableEq τ] in
theorem Worker.of_calls {k : Nat} {p : Pending τ} (h : w.calls[k]? = some p) : k = 0 ∧ w.HasPending p := by
  have hone : w.calls.length ≤ 1 := by cases w <;> simp [Worker.calls]
  obtain ⟨hlt, -⟩ := List.getElem?_eq_some_iff.mp h
  obtain rfl : k = 0 := by omega
  refine ⟨rfl, ?_⟩
  cases w with
  | absent => cases h
  | queued u =>
    obtain rfl := Option.some.inj h
    exact ⟨u, rfl⟩
  | _ =>
    obtain rfl := Option.some.inj h
    trivial

theorem Matches.pending {k : Nat} (h : Matches home w c s) (hs : step home s (.pending k) = some t) :
    ∃ w' c', Matches home w' c' t := by
  simp only [step, RpcAsyncChannel.pending, Option.bind_eq_bind, Option.bind_eq_some_iff] at hs
  obtain ⟨p, hp, hs⟩ := hs
  rw [h.calls] at hp
  obtain ⟨rfl, hw⟩ := Worker.of_calls hp
  obtain ⟨htasks, hmain, hsingle, hcurrents, hapart⟩ := h.placed
  split at hs
  · rename_i u
    obtain rfl : w = .calling u := hw
    obtain rfl : c = .absent := by grind [h.linked]
    obtain rfl := Option.some.inj hs
    refine ⟨.posted u, .absent, h.goes ⟨rfl, rfl, rfl, rfl, rfl, rfl, rfl⟩ ?_ nofun ?_ ⟨nofun, h.linked⟩ ?_ ?_ rfl
      h.early h.finished h.completions h.closureRuns⟩
    · simp only [RpcAsyncChannel.addTask, setPending, setThread]
      constructor <;> grind [Function.update_apply]
    · simp [RpcAsyncChannel.addTask, setPending, setThread, h.calls, Worker.calls]
    · change s.refs + 2 = _
      rw [h.refs]
      simp only [Worker.refs, Completion.refs]
      omega
    · change s.returned = if s.refs + 2 = 0 then [.gone] else []
      rw [h.kept (by simp [Worker.refs]), h.refs]
      simp [Worker.refs, Completion.refs]
  · rename_i u
    obtain rfl : w = .posted u := hw
    obtain rfl : c = .absent := by grind [h.linked]
    rw [h.release_call (n := 2) nofun rfl nofun] at hs
    obtain rfl := Option.some.inj hs
    have hplaced : Placed home (.reset u) .absent s.origin.on s.threads := by
      constructor <;> grind
    exact ⟨.reset u, .absent, h.goes ⟨rfl, rfl, rfl, rfl, rfl, rfl, rfl⟩ hplaced nofun
      (by simp [setPending, h.calls, Worker.calls]) ⟨nofun, h.linked⟩ rfl rfl rfl h.early h.finished h.completions
      h.closureRuns⟩
  · rename_i u
    obtain rfl : w = .reset u := hw
    obtain rfl : c = .absent := by grind [h.linked]
    rw [h.release_call (n := 1) nofun rfl nofun] at hs
    obtain rfl := Option.some.inj hs
    have hplaced : Placed home (.returned u) .absent s.origin.on s.threads := by
      constructor <;> grind
    exact ⟨.returned u, .absent, h.goes ⟨rfl, rfl, rfl, rfl, rfl, rfl, rfl⟩ hplaced nofun
      (by simp [setPending, h.calls, Worker.calls]) ⟨nofun, h.linked⟩ rfl rfl rfl h.early h.finished h.completions
      h.closureRuns⟩
  · rename_i u
    obtain rfl : w = .returned u := hw
    obtain rfl := Option.some.inj hs
    have hplaced : Placed home (.left u) c s.origin.on s.threads := by
      constructor <;> grind
    exact ⟨.left u, c, h.goes ⟨rfl, rfl, rfl, rfl, rfl, rfl, rfl⟩ hplaced nofun
      (by simp [setPending, h.calls, Worker.calls]) ⟨nofun, h.linked⟩ h.refs (h.kept (by simp [Worker.refs])) rfl
      h.early h.finished h.completions h.closureRuns⟩
  · rename_i u
    obtain rfl : w = .left u := hw
    obtain rfl := Option.some.inj hs
    refine ⟨.away u, c, h.goes ⟨rfl, rfl, rfl, rfl, rfl, rfl, rfl⟩ ?_ nofun ?_ ⟨nofun, h.linked⟩ h.refs
      (h.kept (by simp [Worker.refs])) rfl h.early h.finished h.completions h.closureRuns⟩
    · simp only [setCurrent, setPending, setThread]
      constructor <;> grind [Function.update_apply]
    · simp [setCurrent, setThread, setPending, h.calls, Worker.calls]
  · cases hs
  · cases hs
  · cases hs

theorem Matches.yieldPending {k : Nat} (h : Matches home w c s) (hs : step home s (.yieldPending k) = some t) :
    ∃ w' c', Matches home w' c' t := by
  simp only [step] at hs
  split at hs
  swap
  · cases hs
  rename_i u hp
  obtain ⟨rfl, hw⟩ := Worker.of_calls (h.calls ▸ hp)
  obtain rfl : w = .calling u := hw
  obtain ⟨htasks, hmain, hsingle, hcurrents, hapart⟩ := h.placed
  obtain rfl := Option.some.inj hs
  refine ⟨.yielded, c, h.goes ⟨rfl, rfl, rfl, rfl, rfl, rfl, rfl⟩ ?_ nofun ?_ ⟨nofun, h.linked⟩ h.refs
    (h.kept (by simp [Worker.refs])) rfl h.early h.finished h.completions h.closureRuns⟩
  · simp only [setCurrent, setPending, setThread]
    constructor <;> grind [Function.update_apply]
  · simp [setCurrent, setThread, setPending, h.calls, Worker.calls]

theorem Matches.resumePending {k : Nat} {u : τ} (h : Matches home w c s)
    (hs : step home s (.resumePending k u) = some t) : ∃ w' c', Matches home w' c' t := by
  simp only [step] at hs
  split at hs
  swap
  · cases hs
  rename_i tasks hp hthread
  obtain ⟨rfl, hw⟩ := Worker.of_calls (h.calls ▸ hp)
  obtain rfl : w = .yielded := hw
  obtain ⟨htasks, hmain, hsingle, hcurrents, hapart⟩ := h.placed
  have hcurrent := hcurrents u
  rw [hthread] at hcurrent
  obtain rfl := Option.some.inj hs
  refine ⟨.calling u, c, h.goes ⟨rfl, rfl, rfl, rfl, rfl, rfl, rfl⟩ ?_ nofun ?_ ⟨nofun, h.linked⟩ h.refs
    (h.kept (by simp [Worker.refs])) rfl h.early h.finished h.completions h.closureRuns⟩
  · simp only [setCurrent, setPending, setThread]
    constructor <;> grind [Function.update_apply]
  · simp [setCurrent, setThread, setPending, h.calls, Worker.calls]

theorem Completion.hasMain (c : Completion) : c.HasMain c.main := by
  cases c <;> trivial

theorem Worker.hasMain (w : Worker τ) (u : τ) : w.HasMain u (w.main u) := by
  cases w with
  | posting v => by_cases hv : u = v <;> simp [Worker.main, Worker.HasMain, hv]
  | sent v => by_cases hv : u = v <;> simp [Worker.main, Worker.HasMain, hv]
  | leaving v => by_cases hv : u = v <;> simp [Worker.main, Worker.HasMain, hv]
  | _ => trivial

/-- Who has the main coroutine of a thread. -/
theorem Placed.of_main {on : Option τ} {threads : τ → IOThread} (h : Placed home w c on threads) {u : τ} {m : Main}
    (hu : (threads u).main = m) : u = home ∧ c.HasMain m ∨ w.HasMain u m := by
  have hmain := h.main u
  rw [hu] at hmain
  split at hmain
  · rename_i hhome
    exact .inl ⟨hhome.1, hmain ▸ c.hasMain⟩
  · exact .inr (hmain ▸ w.hasMain u)

/-- `Resume` of the origin coroutine, if it waits. -/
theorem Matches.wakes (h : Matches home w .ran s) (hcurrent : (s.threads home).current = .main) :
    Matches home w .resumed (if s.needResume then RpcAsyncChannel.resumeOrigin (setMain s home .resumed) home
      else setMain s home .resumed) := by
  have hsent : w.isSent = true := h.linked.mpr nofun
  obtain ⟨hne, -, hon, hnone⟩ := Worker.of_isSent hsent
  obtain ⟨htasks, hmain, hsingle, hcurrents, hapart⟩ := h.placed
  obtain ⟨hcalling, hasked, hasleep, hstays, hearly, hfresh, hidle⟩ := h.toCaller
  have hnothome : s.origin.on ≠ some home := by
    intro heq
    have := hcurrents home
    rw [if_pos heq, hcurrent] at this
    cases this
  have hlinked : w.isSent = true ↔ Completion.resumed ≠ .absent := iff_of_true hsent nofun
  cases hneed : s.needResume with
  | false =>
    have hplaced : Placed home w .resumed s.origin.on (setMain s home .resumed).threads := by
      simp only [setMain, setThread]
      constructor <;> grind [Function.update_apply]
    have hstayed : s.stayed = false := by
      by_contra hstayed
      rcases hstays (by simpa using hstayed) with hhome | hwaiting
      · exact hnothome hhome
      · grind
    have hcaller : Caller home .resumed (setMain s home .resumed) := by
      constructor <;> grind [setMain, setThread]
    exact ⟨hcaller, hplaced, hlinked, h.calls, h.refs, h.finished, h.completions, h.closureRuns, h.pendingCoroutine,
      h.resumes.trans (by simp [setMain, setThread, hneed]), h.waits.trans (by simp [setMain, setThread, hneed]),
      h.returned⟩
  | true =>
    have hwaiting : s.origin = .waiting := by
      have hinWait := hasleep hneed rfl
      rcases hstays (hasked hinWait).2.1 with hhome | hwaiting
      · exact absurd hhome hnothome
      · exact hwaiting
    have hplaced : Placed home w .resumed (some home)
        (setCurrent (setMain s home .resumed) home .origin).threads := by
      simp only [setMain, setCurrent, setThread]
      constructor <;> grind [Function.update_apply]
    have hresume : RpcAsyncChannel.resumeOrigin (setMain s home .resumed) home =
        setCurrent {setMain s home .resumed with
          origin := .running home, resumes := s.resumes ++ [true], waits := s.waits + 1} home .origin := by
      simp only [RpcAsyncChannel.resumeOrigin, setMain, setThread, hwaiting]
    rw [if_pos rfl, hresume]
    refine ⟨?_, hplaced, hlinked, h.calls, h.refs, h.finished, h.completions, h.closureRuns, ?_, ?_, ?_, h.returned⟩
    · constructor <;> grind [setCurrent, setMain, setThread]
    · exact h.pendingCoroutine.trans (by simp [hwaiting, setCurrent, setMain, setThread, Origin.isCalling])
    · change s.resumes ++ [true] = if s.needResume ∧ true then [true] else []
      rw [h.resumes]
      simp [hneed, Completion.isOver]
    · change s.waits + 1 = if s.needResume ∧ true then 1 else 0
      rw [h.waits]
      simp [hneed, Completion.isOver]

theorem Matches.main {u : τ} (h : Matches home w c s) (hs : step home s (.main u) = some t) :
    ∃ w' c', Matches home w' c' t := by
  simp only [step, RpcAsyncChannel.main] at hs
  split at hs
  swap
  · cases hs
  rename_i tasks m hthread
  have hm : (s.threads u).main = m := by rw [hthread]
  have hcurrent : (s.threads u).current = .main := by rw [hthread]
  have hplace := h.placed.of_main hm
  obtain ⟨htasks, hmain, hsingle, hcurrents, hapart⟩ := h.placed
  cases m with
  | loop => cases hs
  | postToOrigin k =>
    obtain ⟨-, hc⟩ | hw := hplace
    · cases hc
    obtain ⟨rfl, rfl⟩ := hw
    obtain rfl : c = .absent := by grind [h.linked]
    obtain rfl := Option.some.inj hs
    refine ⟨.sent u, .queued, h.goes ⟨rfl, rfl, rfl, rfl, rfl, rfl, rfl⟩ ?_ nofun h.calls
      ⟨nofun, iff_of_true rfl nofun⟩ ?_ ?_ rfl (fun _ => .inl rfl) h.finished h.completions h.closureRuns⟩
    · simp only [setMain, RpcAsyncChannel.addTask, setThread]
      constructor <;> grind [Function.update_apply]
    · change s.refs + 2 = _
      rw [h.refs]
      simp only [Worker.refs, Completion.refs]
      omega
    · change s.returned = if s.refs + 2 = 0 then [.gone] else []
      rw [h.kept (by simp [Worker.refs]), h.refs]
      simp [Worker.refs, Completion.refs]
  | posted =>
    obtain ⟨-, hc⟩ | hw := hplace
    · cases hc
    obtain rfl : w = .sent u := hw
    rw [h.release_call (n := 1 + c.refs) nofun (by simp only [Worker.refs]; omega) (by omega)] at hs
    obtain rfl := Option.some.inj hs
    refine ⟨.leaving u, c, h.goes ⟨rfl, rfl, rfl, rfl, rfl, rfl, rfl⟩ ?_ nofun h.calls ⟨nofun, h.linked⟩ rfl rfl rfl
      h.early h.finished h.completions h.closureRuns⟩
    simp only [setMain, setThread]
    constructor <;> grind [Function.update_apply]
  | leaving =>
    obtain ⟨-, hc⟩ | hw := hplace
    · cases hc
    obtain rfl : w = .leaving u := hw
    rw [h.release_call (n := c.refs) nofun (by simp only [Worker.refs]; omega) fun _ => rfl] at hs
    obtain rfl := Option.some.inj hs
    refine ⟨.done, c, h.goes ⟨rfl, rfl, rfl, rfl, rfl, rfl, rfl⟩ ?_ nofun h.calls ⟨nofun, h.linked⟩
      (by simp only [setMain, setThread, Worker.refs]; omega) rfl rfl
      h.early h.finished h.completions h.closureRuns⟩
    simp only [setMain, setThread]
    constructor <;> grind [Function.update_apply]
  | completion =>
    obtain ⟨rfl, hc⟩ | hw := hplace
    swap
    · cases hw
    obtain rfl : c = .started := hc
    obtain ⟨hne, -⟩ := Worker.of_isSent (h.linked.mpr nofun)
    obtain rfl := Option.some.inj hs
    refine ⟨w, .finished, h.goes ⟨rfl, rfl, rfl, rfl, rfl, rfl, rfl⟩ ?_ hne h.calls
      ⟨hne, iff_of_true (h.linked.mpr nofun) nofun⟩ h.refs (h.kept (by simp [Completion.refs])) rfl ?_ rfl ?_
      h.closureRuns⟩
    · simp only [setMain, setThread]
      constructor <;> grind [Function.update_apply]
    · grind
    · simp [setMain, setThread, h.completions, Completion.isFinished]
  | finished =>
    obtain ⟨rfl, hc⟩ | hw := hplace
    swap
    · cases hw
    obtain rfl : c = .finished := hc
    obtain ⟨hne, -⟩ := Worker.of_isSent (h.linked.mpr nofun)
    obtain rfl := Option.some.inj hs
    refine ⟨w, .ran, h.goes ⟨rfl, rfl, rfl, rfl, rfl, rfl, rfl⟩ ?_ hne h.calls
      ⟨hne, iff_of_true (h.linked.mpr nofun) nofun⟩ h.refs (h.kept (by simp [Completion.refs])) rfl ?_ h.finished
      h.completions ?_⟩
    · simp only [setMain, setThread]
      constructor <;> grind [Function.update_apply]
    · grind
    · simp [setMain, setThread, h.closureRuns, Completion.hasRun]
  | ran =>
    obtain ⟨rfl, hc⟩ | hw := hplace
    swap
    · cases hw
    obtain rfl : c = .ran := hc
    obtain rfl := Option.some.inj hs
    exact ⟨w, .resumed, h.wakes hcurrent⟩
  | resumed =>
    obtain ⟨rfl, hc⟩ | hw := hplace
    swap
    · cases hw
    obtain rfl : c = .resumed := hc
    obtain ⟨hne, hgone, -⟩ := Worker.of_isSent (h.linked.mpr nofun)
    rw [h.release_call (n := w.refs) hne rfl fun _ => hgone] at hs
    obtain rfl := Option.some.inj hs
    refine ⟨w, .done, h.goes ⟨rfl, rfl, rfl, rfl, rfl, rfl, rfl⟩ ?_ hne h.calls
      ⟨hne, iff_of_true (h.linked.mpr nofun) nofun⟩ rfl rfl rfl (fun _ => .inr rfl) h.finished
      h.completions h.closureRuns⟩
    simp only [setMain, setThread]
    constructor <;> grind [Function.update_apply]

/-! ### What a run keeps -/

theorem Matches.sound (h : Matches home w c s) : Sound home s := by
  refine ⟨?_, ?_, ?_, ?_, ?_⟩
  · rw [h.completions]
    split
    · exact .inr rfl
    · exact .inl rfl
  · rw [h.closureRuns]
    grind
  · rw [h.waits, h.finished, h.closureRuns]
    cases c <;> grind
  · rw [h.resumes]
    grind
  · rw [h.returned]
    grind

/-- Where nobody can go on, nobody is on a thread. -/
theorem Matches.idle_of_quiet (h : Matches home w c s) (hquiet : Quiet home s) :
    (s.origin = .waiting ∨ s.origin = .away) ∧ w.on = none ∧ ∀ u, (s.threads u).current = .main := by
  have horigin : s.origin = .waiting ∨ s.origin = .away := by
    cases hs : s.origin with
    | running u => simpa [step, hs] using hquiet .yield rfl
    | calling u => simpa [step, RpcAsyncChannel.advance, hs] using hquiet .advance rfl
    | asking u =>
      have hnone := hquiet .advance rfl
      simp only [step, RpcAsyncChannel.advance, hs] at hnone
      split at hnone <;> cases hnone
    | yielding u => simpa [step, RpcAsyncChannel.advance, hs] using hquiet .advance rfl
    | waiting => exact .inl rfl
    | away => exact .inr rfl
  have hon : w.on = none := by
    have hpending := hquiet (.pending 0) rfl
    simp only [step, RpcAsyncChannel.pending, h.calls] at hpending
    cases w <;> first | rfl | cases hpending
  refine ⟨horigin, hon, fun u => ?_⟩
  rw [h.placed.current u, hon]
  rcases horigin with hs | hs <;> simp [hs, Origin.on]

/-- Nor is anybody inside a task or among the tasks. -/
theorem Matches.over_of_quiet (h : Matches home w c s) (hquiet : Quiet home s) (hcalls : s.calls ≠ []) :
    w = .done ∧ c = .done := by
  obtain ⟨-, hon, hcurrent⟩ := h.idle_of_quiet hquiet
  have hthread : ∀ u, s.threads u = ⟨[], .loop, .main⟩ := by
    intro u
    have hmain := hquiet (.main u) rfl
    have hloop := hquiet (.loop u) rfl
    have hmain_u := hcurrent u
    cases hu : s.threads u with
    | mk tasks m current =>
      rw [hu] at hmain_u
      obtain rfl : current = .main := hmain_u
      simp only [step, RpcAsyncChannel.main, RpcAsyncChannel.loop, hu] at hmain hloop
      cases m with
      | loop =>
        cases tasks with
        | nil => rfl
        | cons task rest => cases task <;> cases hloop
      | _ => cases hmain
  have htasks : ∀ u, w.tasks u = [] ∧ (u = home → c.tasks = []) := by
    intro u
    have htasks := h.placed.tasks u
    rw [hthread u] at htasks
    obtain ⟨hw, hc⟩ := List.append_eq_nil_iff.mp htasks.symm
    exact ⟨hw, fun hu => by rwa [if_pos hu] at hc⟩
  have hmain : ∀ u, w.main u = .loop ∧ (u = home → c.main = .loop) := by
    intro u
    have hmain := h.placed.main u
    rw [hthread u] at hmain
    split at hmain
    · rename_i hhome
      exact absurd hmain.symm hhome.2
    · grind
  have hw : w = .done := by
    cases w with
    | absent => exact absurd h.calls hcalls
    | queued u => simpa [Worker.tasks] using (htasks u).1
    | away u => simpa [Worker.tasks] using (htasks u).1
    | yielded => simpa [step, h.calls, Worker.calls, hthread home] using hquiet (.resumePending 0 home) rfl
    | posting u => simpa [Worker.main] using (hmain u).1
    | sent u => simpa [Worker.main] using (hmain u).1
    | leaving u => simpa [Worker.main] using (hmain u).1
    | done => rfl
    | _ => cases hon
  subst hw
  refine ⟨rfl, ?_⟩
  cases c with
  | absent => exact absurd rfl (h.linked.mp rfl)
  | queued => cases (htasks home).2 rfl
  | done => rfl
  | _ => cases (hmain home).2 rfl

theorem Matches.done (h : Matches home w c s) (hquiet : Quiet home s) (hcalls : s.calls ≠ []) : Done home s := by
  obtain ⟨rfl, rfl⟩ := h.over_of_quiet hquiet hcalls
  refine ⟨h.completions, ?_, ?_, fun hheld => ?_⟩
  · rw [h.closureRuns]
    simp [Completion.hasRun]
  · rw [h.waits]
    simp [Completion.isOver]
  · rw [h.returned, h.refs, hheld]
    simp [Worker.refs, Completion.refs, hcalls]

end

end CoroutineRpc.Rpc.RpcAsyncChannel
