import CoroutineRpc.Coroutine.Coctx
import CoroutineRpc.Library.Transition

/-! `Resume` and `Yield` on one thread, down to the machine.

A thread is its machine and the thread-local variables of `coroutine.cc`. Between the calls
of that file the coroutine that runs executes whatever it likes, as long as it leaves every
`coctx` alone (`Disciplined`). It may write onto the stack of another coroutine: the timer
callbacks of the hooks and of `sendAndRecv` do, each to the `is_timeout` of a coroutine that
waits. `own` gives each coroutine the bytes of its stack. Under these conditions a coroutine
goes on behind the call by which it was left, with the registers that a call preserves, and
finds on its stack what it left there and what others have written there (`resumed_as_called`);
a coroutine that was given a callback begins in `CoFunction` (`entered_in_coFunction`). -/
namespace CoroutineRpc.Coroutine.Switching
open Library.X64 Library.Transition

/-- Where the program keeps its coroutines. -/
structure Layout (κ : Type) where
  /-- The object. -/
  self : κ → Word
  /-- Its `m_coctx`. -/
  coctx : κ → Word
  stackSp : κ → Word
  stackSize : κ → Word
  /-- The code of `CoFunction`. -/
  coFunction : Word

structure Thread (κ : Type) where
  cpu : Machine
  tMainCoroutine : Option κ := none
  tCurCoroutine : Option κ := none
  /-- `t_cur_run_time`, by the coroutine it is in. -/
  tCurRunTime : Option κ := none
  canResume : κ → Bool := fun _ => true
  isInCoFunc : κ → Bool := fun _ => false
  /-- The `m_coctx` that hold something: the constructor of a coroutine leaves its own as it is. -/
  hasCoctx : κ → Bool := fun _ => false

inductive Input (κ : Type) where
  /-- The coroutine that runs goes on, up to its next call. -/
  | exec (cpu : Machine)
  /-- With the object that `new Coroutine()` would return. -/
  | getCurrentCoroutine (main : κ)
  /-- The constructor of a coroutine begins the same way. -/
  | getMainCoroutine (main : κ)
  | setCallBack (co : κ)
  /-- `CoFunction`, around the callback of the coroutine that runs. -/
  | setIsInCoFunc (v : Bool)
  /-- On the coroutine that runs. -/
  | setCanResume (v : Bool)
  /-- Before a coroutine dispatches a request. -/
  | setCurrentRunTime
  | resume (co : Option κ)
  | yield

namespace Thread
variable {κ : Type} [DecidableEq κ] (L : Layout κ) (s : Thread κ)

/-- `t_main_coroutine = new Coroutine()`. -/
def newMain (main : κ) : Thread κ :=
  {s with
    cpu := {s.cpu with mem := Coctx.put s.cpu.mem (L.coctx main) fun _ => 0}
    tMainCoroutine := some main
    tCurCoroutine := some main}

/-- The end of the stack, at a multiple of 16. -/
def stackTop (co : κ) : Word := (L.stackSp co + L.stackSize co) &&& (-16)

def setCallBack (co : κ) : Thread κ :=
  if s.tMainCoroutine = some co then s
  else if s.isInCoFunc co then s
  else
    let top := stackTop L co
    let a := L.coctx co
    let mem := Coctx.put s.cpu.mem a fun _ => 0
    let mem := mem.write (Coctx.regAddr a kRSP) top
    let mem := mem.write (Coctx.regAddr a kRBP) top
    let mem := mem.write (Coctx.regAddr a kRETAddr) L.coFunction
    let mem := mem.write (Coctx.regAddr a kRDI) (L.self co)
    {s with
      cpu := {s.cpu with mem}
      canResume := Function.update s.canResume co true
      hasCoctx := Function.update s.hasCoctx co true}

/-- The machine where `coctx_swap(&from->m_coctx, &to->m_coctx)` begins. -/
def calling (cpu : Machine) (a b : Word) : Machine := (cpu.set .rdi a).set .rsi b

/-- To go on with registers that nobody has set is undefined. -/
def swap (a b : κ) : Option (Thread κ) :=
  if s.hasCoctx b then
    some {s with
      cpu := (calling s.cpu (L.coctx a) (L.coctx b)).execAll coctxSwap
      hasCoctx := Function.update s.hasCoctx a true}
  else none

def yield : Option (Thread κ) :=
  match s.tMainCoroutine, s.tCurCoroutine with
  | none, _ => some s
  | some main, cur =>
    if cur = some main then some s
    else
      match cur with
      -- `co->m_coctx` of a null pointer
      | none => none
      | some co => swap L {s with tCurCoroutine := some main, tCurRunTime := none} co main

def resume (co : Option κ) : Option (Thread κ) :=
  if s.tCurCoroutine ≠ s.tMainCoroutine then some s
  else
    match s.tMainCoroutine, co with
    | none, _ => some s
    | some _, none => some s
    | some main, some co =>
      if !s.canResume co then some s
      else if s.tCurCoroutine = some co then some s
      else swap L {s with tCurCoroutine := some co, tCurRunTime := some co} main co

def step : Input κ → Option (Thread κ)
  | .exec cpu => some {s with cpu}
  | .getCurrentCoroutine main => some (if s.tCurCoroutine = none then s.newMain L main else s)
  | .getMainCoroutine main => some (if s.tMainCoroutine = none then s.newMain L main else s)
  | .setCallBack co => some (s.setCallBack L co)
  | .setIsInCoFunc v =>
    s.tCurCoroutine.map fun co => {s with isInCoFunc := Function.update s.isInCoFunc co v}
  | .setCanResume v =>
    s.tCurCoroutine.map fun co => {s with canResume := Function.update s.canResume co v}
  | .setCurrentRunTime => s.tCurCoroutine.map fun co => {s with tCurRunTime := some co}
  | .resume co => s.resume L co
  | .yield => s.yield L

end Thread

/-! ### What the program promises -/

/-- The objects lie apart from each other and from the stacks, and so do the stacks; `own` gives
a coroutine its stack. -/
structure Separate {κ : Type} (L : Layout κ) (own : κ → Word → Prop) : Prop where
  objects : ∀ c d, c ≠ d → Apart (L.coctx c) Coctx.size (L.coctx d) Coctx.size
  areas : ∀ c d x, own c x → own d x → c = d
  stackObject : ∀ c d x, own c x → ¬ Within (L.coctx d) Coctx.size x

/-- What is left alone while another coroutine runs: the registers and the stack. -/
def Private {κ : Type} (L : Layout κ) (own : κ → Word → Prop) (c : κ) (x : Word) : Prop :=
  Within (L.coctx c) Coctx.size x ∨ own c x

/-- The coroutine that runs writes into no `coctx`, calls with its return address on its own stack,
and `new` returns memory that is not in use; a coroutine that is given a callback has a stack, to
which the word at its top counts. -/
def Disciplined {κ : Type} (L : Layout κ) (own : κ → Word → Prop) (s : Thread κ) : Input κ → Prop
  | .exec cpu => ∀ c x, s.hasCoctx c → Within (L.coctx c) Coctx.size x → cpu.mem x = s.cpu.mem x
  | .getCurrentCoroutine main | .getMainCoroutine main => s.hasCoctx main = false
  | .setCallBack co => ∀ x, s.tMainCoroutine ≠ some co → Within (Thread.stackTop L co) 8 x → own co x
  | .resume _ | .yield => ∀ c x, s.tCurCoroutine = some c → Within (s.cpu.regs .rsp) 8 x → own c x
  | _ => True

/-- The coroutine that runs does not change the byte `x`. -/
def Spares {κ : Type} (x : Word) (s : Thread κ) (i : Input κ) : Prop := ∀ cpu, i = .exec cpu → cpu.mem x = s.cpu.mem x

/-- What every thread keeps that follows the rules. -/
structure Inv {κ : Type} (L : Layout κ) (own : κ → Word → Prop) (s : Thread κ) : Prop where
  main : s.tCurCoroutine = none ↔ s.tMainCoroutine = none
  runTime : ∀ c, s.tCurRunTime = some c → s.tCurCoroutine = some c
  /-- The main coroutine has been left, not forgotten. -/
  left : ∀ c, s.tMainCoroutine = some c → s.tCurCoroutine ≠ some c → s.hasCoctx c
  /-- A switch to a coroutine writes onto its own stack. -/
  rsp : ∀ c x, s.hasCoctx c → s.tCurCoroutine ≠ some c →
    Within (Coctx.held s.cpu.mem (L.coctx c) kRSP) 8 x → own c x

theorem inv_init {κ : Type} {L : Layout κ} {own : κ → Word → Prop} (cpu : Machine) : Inv L own {cpu} := by
  refine ⟨⟨fun _ => rfl, fun _ => rfl⟩, ?_, ?_, ?_⟩
  · intro c hc
    cases hc
  · intro c hc
    cases hc
  · intro c x hc
    cases hc

/-! ### What a switch does -/

/-- The thread goes from the coroutine `a` to the coroutine `b`. -/
structure Switch {κ : Type} [DecidableEq κ] (L : Layout κ) (s t : Thread κ) (a b : κ) : Prop where
  ne : a ≠ b
  cur : s.tCurCoroutine = some a
  next : t.tCurCoroutine = some b
  runTime : t.tCurRunTime = none ∨ t.tCurRunTime = some b
  main : t.tMainCoroutine = s.tMainCoroutine
  hasCoctx : s.hasCoctx b
  cpu : t.cpu = (Thread.calling s.cpu (L.coctx a) (L.coctx b)).execAll coctxSwap
  saved : t.hasCoctx = Function.update s.hasCoctx a true
  isInCoFunc : t.isInCoFunc = s.isInCoFunc

section
variable {κ : Type} [DecidableEq κ] {L : Layout κ} {own : κ → Word → Prop} {s t : Thread κ} {a b c : κ} {x : Word}

theorem Switch.ne_left (h : Switch L s t a b) (hc : s.tCurCoroutine ≠ some c) : c ≠ a := by
  rintro rfl
  exact hc h.cur

theorem Switch.cur_ne (h : Switch L s t a b) (hc : c ≠ a) : s.tCurCoroutine ≠ some c :=
  fun heq => hc (Option.some.inj (heq.symm.trans h.cur))

theorem Switch.ne_right (h : Switch L s t a b) (hc : t.tCurCoroutine ≠ some c) : c ≠ b := by
  rintro rfl
  exact hc h.next

/-- The registers that `a` leaves. -/
def leaving (L : Layout κ) (s : Thread κ) (a b : κ) : Coctx :=
  Coctx.of (Thread.calling s.cpu (L.coctx a) (L.coctx b))

theorem Switch.cpu_eq (hsep : Separate L own) (hinv : Inv L own s) (h : Switch L s t a b)
    (hret : ∀ x, Within (s.cpu.regs .rsp) 8 x → own a x) :
    let saved := Coctx.held s.cpu.mem (L.coctx b)
    t.cpu = ⟨saved.regs (Thread.calling s.cpu (L.coctx a) (L.coctx b)).regs, saved kRETAddr,
      (Coctx.put s.cpu.mem (L.coctx a) (leaving L s a b)).write (saved kRSP) (saved kRETAddr)⟩ := by
  rw [h.cpu]
  exact coctx_swap_spec (m := Thread.calling s.cpu (L.coctx a) (L.coctx b)) rfl
    (fun x hx => hsep.stackObject a a x (hret x hx)) (hsep.objects b a h.ne.symm)
    (fun x hx => hsep.stackObject b b x (hinv.rsp b x h.hasCoctx (h.cur_ne h.ne.symm) hx))

section
variable (hsep : Separate L own) (hinv : Inv L own s) (h : Switch L s t a b)
  (hret : ∀ x, Within (s.cpu.regs .rsp) 8 x → own a x)
include hsep hinv h hret

/-- The bytes that a switch writes are the `coctx` of `a` and a word on the stack of `b`. -/
theorem Switch.mem_eq (hobject : ¬ Within (L.coctx a) Coctx.size x)
    (htop : ¬ Within (Coctx.held s.cpu.mem (L.coctx b) kRSP) 8 x) : t.cpu.mem x = s.cpu.mem x := by
  rw [h.cpu_eq hsep hinv hret]
  exact (Memory.write_apart htop).trans (Coctx.put_apart _ _ hobject)

omit hsep hret in
theorem Switch.top_own (hx : Within (Coctx.held s.cpu.mem (L.coctx b) kRSP) 8 x) : own b x :=
  hinv.rsp b x h.hasCoctx (h.cur_ne h.ne.symm) hx

/-- Other coroutines do not notice. -/
theorem Switch.mem_private (ha : c ≠ a) (hb : c ≠ b) (hx : Private L own c x) : t.cpu.mem x = s.cpu.mem x := by
  refine h.mem_eq hsep hinv hret (fun hobject => ?_) fun htop => ?_
  · rcases hx with hx | hx
    · exact hsep.objects c a ha x hx hobject
    · exact hsep.stackObject c a x hx hobject
  · have hown := h.top_own hinv htop
    rcases hx with hx | hx
    · exact hsep.stackObject b c x hown hx
    · exact hb (hsep.areas c b x hx hown)

/-- The stack of the coroutine that is left stays as it is. -/
theorem Switch.mem_own (hx : own a x) : t.cpu.mem x = s.cpu.mem x :=
  h.mem_eq hsep hinv hret (hsep.stackObject a a x hx) fun htop =>
    h.ne (hsep.areas a b x hx (h.top_own hinv htop))

/-- The registers of the coroutine that is left are in its `coctx`. -/
theorem Switch.held_left : Coctx.held t.cpu.mem (L.coctx a) = leaving L s a b := by
  rw [h.cpu_eq hsep hinv hret]
  refine (Coctx.held_congr fun x hx => Memory.write_apart fun htop => ?_).trans (Coctx.held_put ..)
  exact hsep.stackObject b a x (h.top_own hinv htop) hx

theorem Switch.held_private (ha : c ≠ a) (hb : c ≠ b) :
    Coctx.held t.cpu.mem (L.coctx c) = Coctx.held s.cpu.mem (L.coctx c) :=
  Coctx.held_congr fun _ hx => h.mem_private hsep hinv hret ha hb (.inl hx)

end

/-! ### What a step does -/

theorem swap_some {u : Thread κ} (h : s.swap L a b = some u) :
    s.hasCoctx b ∧ u = {s with
      cpu := (Thread.calling s.cpu (L.coctx a) (L.coctx b)).execAll coctxSwap
      hasCoctx := Function.update s.hasCoctx a true} := by
  unfold Thread.swap at h
  split at h
  · next hb => exact ⟨hb, (Option.some.inj h).symm⟩
  · cases h

/-- `Yield` does nothing, or it goes to the main coroutine. -/
theorem yield_cases (h : s.yield L = some t) :
    t = s ∨ ∃ a b, s.tMainCoroutine = some b ∧ Switch L s t a b := by
  unfold Thread.yield at h
  split at h
  · exact .inl (Option.some.inj h).symm
  · next main hmain =>
    split at h
    · exact .inl (Option.some.inj h).symm
    · next hcur =>
      split at h
      · cases h
      · next co hco =>
        obtain ⟨hhas, rfl⟩ := swap_some h
        have hne : co ≠ main := fun heq => hcur (hco ▸ congrArg some heq)
        exact .inr ⟨co, main, hmain, ⟨hne, hco, rfl, .inl rfl, rfl, hhas, rfl, rfl, rfl⟩⟩

/-- `Resume` does nothing, or it goes from the main coroutine to one that can be resumed. -/
theorem resume_cases {co : Option κ} (h : s.resume L co = some t) :
    t = s ∨ ∃ a b, s.tMainCoroutine = some a ∧ s.canResume b ∧ Switch L s t a b := by
  unfold Thread.resume at h
  split at h
  · exact .inl (Option.some.inj h).symm
  · next hcur =>
    split at h
    · exact .inl (Option.some.inj h).symm
    · exact .inl (Option.some.inj h).symm
    · next main b hmain =>
      split at h
      · exact .inl (Option.some.inj h).symm
      · next hcan =>
        split at h
        · exact .inl (Option.some.inj h).symm
        · next hne =>
          obtain ⟨hhas, rfl⟩ := swap_some h
          have hmaincur : s.tCurCoroutine = some main := (not_not.mp hcur).trans hmain
          exact .inr ⟨main, b, hmain, by simpa using hcan,
            ⟨fun heq => hne (heq ▸ hmaincur), hmaincur, rfl, .inr rfl, rfl, hhas, rfl, rfl, rfl⟩⟩

/-- The registers with which a coroutine begins. -/
def beginning (L : Layout κ) (c : κ) : Coctx := fun i =>
  if i = kRDI then L.self c
  else if i = kRETAddr then L.coFunction
  else if i = kRBP ∨ i = kRSP then Thread.stackTop L c
  else 0

/-- `setCallBack` was not refused. -/
structure Armed (L : Layout κ) (s t : Thread κ) (c : κ) : Prop where
  notMain : s.tMainCoroutine ≠ some c
  notInCoFunc : s.isInCoFunc c = false
  mem : ∀ x, ¬ Within (L.coctx c) Coctx.size x → t.cpu.mem x = s.cpu.mem x
  held : Coctx.held t.cpu.mem (L.coctx c) = beginning L c
  hasCoctx : t.hasCoctx = Function.update s.hasCoctx c true
  canResume : t.canResume c

theorem setCallBack_cases (L : Layout κ) (s : Thread κ) (c : κ) :
    ((s.tMainCoroutine = some c ∨ s.isInCoFunc c) ∧ s.setCallBack L c = s) ∨ Armed L s (s.setCallBack L c) c := by
  by_cases hmain : s.tMainCoroutine = some c
  · exact .inl ⟨.inl hmain, if_pos hmain⟩
  · by_cases hin : s.isInCoFunc c
    · exact .inl ⟨.inr hin, (if_neg hmain).trans (if_pos hin)⟩
    · refine .inr ⟨hmain, by simpa using hin, fun x hx => ?_, ?_, ?_, ?_⟩ <;>
        simp only [Thread.setCallBack, if_neg hmain, if_neg hin]
      · have hreg (i : Fin 14) : ¬ Within (Coctx.regAddr (L.coctx c) i) 8 x :=
          fun h => hx (Coctx.within_regAddr h)
        rw [Memory.write_apart (hreg _), Memory.write_apart (hreg _), Memory.write_apart (hreg _),
          Memory.write_apart (hreg _), Coctx.put_apart _ _ hx]
      · funext i
        simp only [Coctx.held_write, Coctx.held_put, beginning]
        by_cases hdi : i = kRDI <;> by_cases hret : i = kRETAddr <;> by_cases hbp : i = kRBP <;>
          simp only [hdi, hret, hbp, if_true, if_false, true_or, false_or]
      · exact Function.update_self ..

theorem setCallBack_frame (L : Layout κ) (s : Thread κ) (c : κ) :
    (s.setCallBack L c).tCurCoroutine = s.tCurCoroutine ∧ (s.setCallBack L c).tMainCoroutine = s.tMainCoroutine ∧
      (s.setCallBack L c).tCurRunTime = s.tCurRunTime ∧ (s.setCallBack L c).isInCoFunc = s.isInCoFunc := by
  unfold Thread.setCallBack
  split
  · exact ⟨rfl, rfl, rfl, rfl⟩
  · split <;> exact ⟨rfl, rfl, rfl, rfl⟩

/-- A step that leaves the thread with the coroutine that runs. -/
structure Stays (L : Layout κ) (s : Thread κ) (i : Input κ) (t : Thread κ) : Prop where
  cur : t.tCurCoroutine = s.tCurCoroutine
  main : t.tMainCoroutine = s.tMainCoroutine
  runTime : t.tCurRunTime = s.tCurRunTime ∨ t.tCurRunTime = s.tCurCoroutine
  isInCoFunc : ∀ c, s.tCurCoroutine ≠ some c → t.isInCoFunc c = s.isInCoFunc c
  memory : (t.hasCoctx = s.hasCoctx ∧ (i = .exec t.cpu ∨ t.cpu = s.cpu)) ∨
    ∃ c, i = .setCallBack c ∧ Armed L s t c

theorem Stays.refl (L : Layout κ) (s : Thread κ) (i : Input κ) : Stays L s i s :=
  ⟨rfl, rfl, .inl rfl, fun _ _ => rfl, .inl ⟨rfl, .inr rfl⟩⟩

theorem step_cases {i : Input κ} (h : s.step L i = some t) :
    (∃ m, (i = .getCurrentCoroutine m ∧ s.tCurCoroutine = none ∨ i = .getMainCoroutine m ∧ s.tMainCoroutine = none) ∧
      t = s.newMain L m) ∨
    ((i = .yield ∨ ∃ co, i = .resume co) ∧ ∃ a b, Switch L s t a b) ∨ Stays L s i t := by
  cases i with
  | exec cpu =>
    obtain rfl := Option.some.inj h
    exact .inr (.inr ⟨rfl, rfl, .inl rfl, fun _ _ => rfl, .inl ⟨rfl, .inl rfl⟩⟩)
  | getCurrentCoroutine m =>
    obtain rfl := Option.some.inj h
    split
    · next hnone => exact .inl ⟨m, .inl ⟨rfl, hnone⟩, rfl⟩
    · exact .inr (.inr (.refl L s _))
  | getMainCoroutine m =>
    obtain rfl := Option.some.inj h
    split
    · next hnone => exact .inl ⟨m, .inr ⟨rfl, hnone⟩, rfl⟩
    · exact .inr (.inr (.refl L s _))
  | setCallBack c =>
    obtain rfl := Option.some.inj h
    refine .inr (.inr ?_)
    rcases setCallBack_cases L s c with ⟨_, heq⟩ | harmed
    · rw [heq]
      exact .refl L s _
    · obtain ⟨hcur, hmain, hrun, hin⟩ := setCallBack_frame L s c
      exact ⟨hcur, hmain, .inl hrun, fun d _ => congrFun hin d, .inr ⟨c, rfl, harmed⟩⟩
  | setIsInCoFunc v =>
    obtain ⟨co, hco, rfl⟩ := Option.map_eq_some_iff.mp h
    refine .inr (.inr ⟨rfl, rfl, .inl rfl, fun c hc => ?_, .inl ⟨rfl, .inr rfl⟩⟩)
    exact Function.update_of_ne (fun heq : c = co => hc (heq ▸ hco)) ..
  | setCanResume v =>
    obtain ⟨co, hco, rfl⟩ := Option.map_eq_some_iff.mp h
    exact .inr (.inr ⟨rfl, rfl, .inl rfl, fun _ _ => rfl, .inl ⟨rfl, .inr rfl⟩⟩)
  | setCurrentRunTime =>
    obtain ⟨co, hco, rfl⟩ := Option.map_eq_some_iff.mp h
    exact .inr (.inr ⟨rfl, rfl, .inr hco.symm, fun _ _ => rfl, .inl ⟨rfl, .inr rfl⟩⟩)
  | resume co =>
    rcases resume_cases h with rfl | ⟨a, b, _, _, hswitch⟩
    · exact .inr (.inr (.refl L t _))
    · exact .inr (.inl ⟨.inr ⟨co, rfl⟩, a, b, hswitch⟩)
  | yield =>
    rcases yield_cases h with rfl | ⟨a, b, _, hswitch⟩
    · exact .inr (.inr (.refl L t _))
    · exact .inr (.inl ⟨.inl rfl, a, b, hswitch⟩)

/-! ### What a step keeps -/

omit [DecidableEq κ] in
theorem newMain_mem (L : Layout κ) (s : Thread κ) (m : κ) :
    (s.newMain L m).cpu.mem = Coctx.put s.cpu.mem (L.coctx m) fun _ => 0 := rfl

omit [DecidableEq κ] in
theorem Disciplined.spares {i : Input κ} (hd : Disciplined L own s i) (hhas : s.hasCoctx c)
    (hx : Within (L.coctx c) Coctx.size x) : Spares x s i := by
  rintro cpu rfl
  exact hd c x hhas hx

/-- A step writes nothing private of a coroutine that runs neither before nor after it, unless it
gives it a callback or the coroutine that runs writes there. -/
theorem step_private {i : Input κ} (hsep : Separate L own) (hinv : Inv L own s) (hd : Disciplined L own s i)
    (h : s.step L i = some t) (hhas : s.hasCoctx c) (hs : s.tCurCoroutine ≠ some c) (ht : t.tCurCoroutine ≠ some c)
    (hback : i = .setCallBack c → s.tMainCoroutine = some c ∨ s.isInCoFunc c) (hx : Private L own c x)
    (hspares : Spares x s i) : t.cpu.mem x = s.cpu.mem x := by
  rcases step_cases h with ⟨m, hi, rfl⟩ | ⟨hi, a, b, hswitch⟩ | hstays
  · have hfresh : s.hasCoctx m = false := by
      rcases hi with ⟨rfl, _⟩ | ⟨rfl, _⟩ <;> exact hd
    have hne : c ≠ m := by
      rintro rfl
      exact Bool.false_ne_true (hfresh.symm.trans hhas)
    rw [newMain_mem]
    refine Coctx.put_apart _ _ fun hobject => ?_
    rcases hx with hx | hx
    · exact hsep.objects c m hne x hx hobject
    · exact hsep.stackObject c m x hx hobject
  · have hret : ∀ x, Within (s.cpu.regs .rsp) 8 x → own a x := by
      rcases hi with rfl | ⟨co, rfl⟩ <;> exact fun x hx => hd a x hswitch.cur hx
    exact hswitch.mem_private hsep hinv hret (hswitch.ne_left hs) (hswitch.ne_right ht) hx
  · rcases hstays.memory with ⟨_, rfl | hcpu⟩ | ⟨d, rfl, harmed⟩
    · exact hspares t.cpu rfl
    · rw [hcpu]
    · by_cases hdc : c = d
      · subst hdc
        rcases hback rfl with hmain | hin
        · exact absurd hmain harmed.notMain
        · exact absurd hin (by simp [harmed.notInCoFunc])
      · refine harmed.mem x fun hobject => ?_
        rcases hx with hx | hx
        · exact hsep.objects c d hdc x hx hobject
        · exact hsep.stackObject c d x hx hobject

theorem inv_step {i : Input κ} (hsep : Separate L own) (hinv : Inv L own s) (hd : Disciplined L own s i)
    (h : s.step L i = some t) : Inv L own t := by
  rcases step_cases h with ⟨m, hi, rfl⟩ | ⟨hi, a, b, hswitch⟩ | hstays
  · have hcur : s.tCurCoroutine = none := hi.elim And.right fun hi => hinv.main.mpr hi.2
    have hfresh : s.hasCoctx m = false := by
      rcases hi with ⟨rfl, _⟩ | ⟨rfl, _⟩ <;> exact hd
    refine ⟨⟨nofun, nofun⟩, fun c hc => ?_, fun c hc haway => absurd hc haway, fun c x hhas haway hx => ?_⟩
    · exact absurd (hcur.symm.trans (hinv.runTime c hc)) nofun
    · have hne : c ≠ m := fun heq => haway (congrArg some heq.symm)
      refine hinv.rsp c x hhas (by rw [hcur]; nofun) ?_
      rwa [newMain_mem, Coctx.held_congr fun y hy => Coctx.put_apart _ _ (hsep.objects c m hne y hy)] at hx
  · have hret : ∀ x, Within (s.cpu.regs .rsp) 8 x → own a x := by
      rcases hi with rfl | ⟨co, rfl⟩ <;> exact fun x hx => hd a x hswitch.cur hx
    have hmain : s.tMainCoroutine ≠ none := fun hnone =>
      absurd (hswitch.cur.symm.trans (hinv.main.mpr hnone)) nofun
    refine ⟨?_, fun c hc => ?_, fun c hc haway => ?_, fun c x hhas haway hx => ?_⟩
    · rw [hswitch.next, hswitch.main]
      exact ⟨nofun, fun hnone => absurd hnone hmain⟩
    · rcases hswitch.runTime with hnone | hsome
      · exact absurd (hnone.symm.trans hc) nofun
      · rw [hswitch.next, ← hsome, hc]
    · rw [hswitch.saved]
      by_cases hca : c = a
      · rw [hca, Function.update_self]
      · rw [Function.update_of_ne hca]
        exact hinv.left c (hswitch.main ▸ hc) (hswitch.cur_ne hca)
    · have hcb : c ≠ b := hswitch.ne_right haway
      by_cases hca : c = a
      · subst hca
        rw [hswitch.held_left hsep hinv hret] at hx
        exact hret x hx
      · rw [hswitch.saved, Function.update_of_ne hca] at hhas
        rw [hswitch.held_private hsep hinv hret hca hcb] at hx
        exact hinv.rsp c x hhas (hswitch.cur_ne hca) hx
  · refine ⟨?_, fun c hc => ?_, fun c hc haway => ?_, fun c x hhas haway hx => ?_⟩
    · rw [hstays.cur, hstays.main]
      exact hinv.main
    · rw [hstays.cur]
      rcases hstays.runTime with hsame | hcur
      · exact hinv.runTime c (hsame ▸ hc)
      · exact hcur ▸ hc
    · have := hinv.left c (hstays.main ▸ hc) (hstays.cur ▸ haway)
      rcases hstays.memory with ⟨hhas, _⟩ | ⟨d, _, harmed⟩
      · rw [hhas]
        exact this
      · rw [harmed.hasCoctx, Function.update_apply]
        split
        · rfl
        · exact this
    · rw [hstays.cur] at haway
      rcases hstays.memory with ⟨hsame, hcpu⟩ | ⟨d, rfl, harmed⟩
      · rw [hsame] at hhas
        refine hinv.rsp c x hhas haway ?_
        rcases hcpu with rfl | hcpu
        · rwa [Coctx.held_congr fun y hy => hd c y hhas hy] at hx
        · rwa [hcpu] at hx
      · by_cases hcd : c = d
        · subst hcd
          rw [harmed.held] at hx
          exact hd x harmed.notMain hx
        · rw [harmed.hasCoctx, Function.update_of_ne hcd] at hhas
          rw [Coctx.held_congr fun y hy => harmed.mem y (hsep.objects c d hcd y hy)] at hx
          exact hinv.rsp c x hhas haway hx

theorem step_hasCoctx {i : Input κ} (h : s.step L i = some t) (hhas : s.hasCoctx c) : t.hasCoctx c := by
  have hset (d : κ) : Function.update s.hasCoctx d true c := by
    rw [Function.update_apply]
    split
    · rfl
    · exact hhas
  rcases step_cases h with ⟨m, _, rfl⟩ | ⟨_, a, b, hswitch⟩ | hstays
  · exact hhas
  · exact hswitch.saved ▸ hset a
  · rcases hstays.memory with ⟨hsame, _⟩ | ⟨d, _, harmed⟩
    · exact hsame ▸ hhas
    · exact harmed.hasCoctx ▸ hset d

/-- Only a switch goes to a coroutine that has a `coctx`. -/
theorem step_switch_in {i : Input κ} (hd : Disciplined L own s i) (h : s.step L i = some t) (hhas : s.hasCoctx c)
    (hs : s.tCurCoroutine ≠ some c) (ht : t.tCurCoroutine = some c) :
    ∃ a, Switch L s t a c ∧ ∀ x, Within (s.cpu.regs .rsp) 8 x → own a x := by
  rcases step_cases h with ⟨m, hi, rfl⟩ | ⟨hi, a, b, hswitch⟩ | hstays
  · have hfresh : s.hasCoctx m = false := by
      rcases hi with ⟨rfl, _⟩ | ⟨rfl, _⟩ <;> exact hd
    obtain rfl : m = c := Option.some.inj ht
    exact absurd (hfresh.symm.trans hhas) Bool.false_ne_true
  · obtain rfl : b = c := Option.some.inj (hswitch.next.symm.trans ht)
    refine ⟨a, hswitch, ?_⟩
    rcases hi with rfl | ⟨co, rfl⟩ <;> exact fun x hx => hd a x hswitch.cur hx
  · exact absurd (hstays.cur.symm.trans ht) hs

/-- Only a switch leaves the coroutine that runs. -/
theorem step_switch_out {i : Input κ} (hinv : Inv L own s) (hd : Disciplined L own s i) (h : s.step L i = some t)
    (hs : s.tCurCoroutine = some c) (ht : t.tCurCoroutine ≠ some c) :
    ∃ b, Switch L s t c b ∧ ∀ x, Within (s.cpu.regs .rsp) 8 x → own c x := by
  rcases step_cases h with ⟨m, hi, rfl⟩ | ⟨hi, a, b, hswitch⟩ | hstays
  · have hcur : s.tCurCoroutine = none := hi.elim And.right fun hi => hinv.main.mpr hi.2
    exact absurd (hcur.symm.trans hs) nofun
  · obtain rfl : a = c := Option.some.inj (hswitch.cur.symm.trans hs)
    refine ⟨b, hswitch, ?_⟩
    rcases hi with rfl | ⟨co, rfl⟩ <;> exact fun x hx => hd a x hswitch.cur hx
  · exact absurd (hstays.cur.trans hs) ht

/-! ### While other coroutines run -/

/-- `setCallBack` of `c` would be refused. -/
def Refuses (c : κ) (s : Thread κ) : Prop := s.tMainCoroutine = some c ∨ s.isInCoFunc c

/-- Nobody gives `c` another callback. -/
def Kept (c : κ) (s : Thread κ) (i : Input κ) : Prop := i = .setCallBack c → Refuses c s

/-- What is private of a coroutine changes while it does not run only where others write: its registers
not at all, and of its stack the bytes that are not spared. -/
theorem run_private {is : List (Input κ)} (hsep : Separate L own) (hinv : Inv L own s)
    (hd : Meets (Thread.step L) (Disciplined L own) s is) (hkept : Meets (Thread.step L) (Kept c) s is)
    (hr : run (Thread.step L) s is = some t) (hhas : s.hasCoctx c)
    (haway : Always (Thread.step L) (fun s => s.tCurCoroutine ≠ some c) s is) :
    Inv L own t ∧ t.hasCoctx c ∧ t.tCurCoroutine ≠ some c ∧
      (∀ x, Within (L.coctx c) Coctx.size x → t.cpu.mem x = s.cpu.mem x) ∧
      ∀ x, own c x → Meets (Thread.step L) (Spares x) s is → t.cpu.mem x = s.cpu.mem x := by
  induction is generalizing s with
  | nil =>
    obtain rfl := Option.some.inj hr
    exact ⟨hinv, hhas, haway, fun _ _ => rfl, fun _ _ _ => rfl⟩
  | cons i rest ih =>
    obtain ⟨u, hu, hrest⟩ := run_cons_some.mp hr
    obtain ⟨hinv', hhas', haway', hobject, hstack⟩ := ih (inv_step hsep hinv hd.1 hu) (hd.2 u hu) (hkept.2 u hu)
      hrest (step_hasCoctx hu hhas) (haway.2 u hu)
    have hstep {x : Word} (hx : Private L own c x) (hspares : Spares x s i) : u.cpu.mem x = s.cpu.mem x :=
      step_private hsep hinv hd.1 hu hhas haway.1 (haway.2 u hu).head hkept.1 hx hspares
    refine ⟨hinv', hhas', haway', fun x hx => ?_, fun x hx hspares => ?_⟩
    · exact (hobject x hx).trans (hstep (.inl hx) (hd.1.spares hhas hx))
    · exact (hstack x hx (hspares.2 u hu)).trans (hstep (.inr hx) hspares.1)

/-- A coroutine that has not returned from its callback is not given another one while it does
not run. -/
theorem step_refuses {i : Input κ} (hinv : Inv L own s) (h : s.step L i = some t) (hs : s.tCurCoroutine ≠ some c)
    (hsafe : Refuses c s) : Refuses c t := by
  rcases step_cases h with ⟨m, hi, rfl⟩ | ⟨_, a, b, hswitch⟩ | hstays
  · have hmain : s.tMainCoroutine = none := hi.elim (fun hi => hinv.main.mp hi.2) And.right
    rcases hsafe with hc | hc
    · exact absurd (hmain.symm.trans hc) nofun
    · exact .inr hc
  · exact hsafe.imp (fun hc => hswitch.main.trans hc) fun hc => (congrFun hswitch.isInCoFunc c).trans hc
  · exact hsafe.imp (fun hc => hstays.main.trans hc) fun hc => (hstays.isInCoFunc c hs).trans hc

theorem meets_kept {is : List (Input κ)} (hsep : Separate L own) (hinv : Inv L own s)
    (hd : Meets (Thread.step L) (Disciplined L own) s is) (hsafe : Refuses c s)
    (haway : Always (Thread.step L) (fun s => s.tCurCoroutine ≠ some c) s is) :
    Meets (Thread.step L) (Kept c) s is := by
  induction is generalizing s with
  | nil => trivial
  | cons i rest ih =>
    exact ⟨fun _ => hsafe, fun u hu => ih (inv_step hsep hinv hd.1 hu) (hd.2 u hu)
      (step_refuses hinv hu haway.1 hsafe) (haway.2 u hu)⟩

/-! ### How a coroutine goes on -/

theorem and_neg_16_mod (w : Word) : (w &&& -16).toNat % 16 = 0 := by
  have hlow : (w &&& -16).setWidth 4 = 0 := by
    rw [BitVec.setWidth_and, show BitVec.setWidth 4 (-16 : Word) = 0 from rfl]
    exact BitVec.and_zero
  have := congrArg BitVec.toNat hlow
  rwa [BitVec.toNat_setWidth] at this

omit [DecidableEq κ] in
/-- On the entry of a function the stack pointer stands one word below a multiple of 16. -/
theorem stackTop_aligned (L : Layout κ) (c : κ) : (Thread.stackTop L c + 8).toNat % 16 = 8 := by
  have htop : (Thread.stackTop L c).toNat % 16 = 0 := and_neg_16_mod _
  rw [BitVec.toNat_add, show (8 : Word).toNat = 8 from rfl]
  omega

/-- What a function finds behind a call: the address, its stack pointer, and the registers that
calls preserve. -/
structure Frame where
  rip : Word
  rsp : Word
  rbx : Word
  rbp : Word
  r12 : Word
  r13 : Word
  r14 : Word
  r15 : Word
deriving DecidableEq

/-- What is to be found behind the call that has just been made. -/
def Frame.behind (cpu : Machine) : Frame :=
  ⟨cpu.mem.read (cpu.regs .rsp), cpu.regs .rsp + 8, cpu.regs .rbx, cpu.regs .rbp, cpu.regs .r12, cpu.regs .r13,
    cpu.regs .r14, cpu.regs .r15⟩

def Frame.found (cpu : Machine) : Frame :=
  ⟨cpu.rip, cpu.regs .rsp, cpu.regs .rbx, cpu.regs .rbp, cpu.regs .r12, cpu.regs .r13, cpu.regs .r14, cpu.regs .r15⟩

/-- The run of a thread from its start. -/
def Reached (L : Layout κ) (own : κ → Word → Prop) (s : Thread κ) : Prop :=
  ∃ cpu is, Meets (Thread.step L) (Disciplined L own) {cpu} is ∧ run (Thread.step L) {cpu} is = some s

theorem reached_init (cpu : Machine) : Reached L own {cpu} := ⟨cpu, [], trivial, rfl⟩

theorem Reached.step {i : Input κ} (h : Reached L own s) (hd : Disciplined L own s i) (hs : s.step L i = some t) :
    Reached L own t := by
  obtain ⟨cpu, is, hmeets, hr⟩ := h
  refine ⟨cpu, is ++ [i], hmeets.append hr ⟨hd, fun _ _ => trivial⟩, ?_⟩
  rw [run_append, hr]
  exact run_cons_some.mpr ⟨t, hs, rfl⟩

theorem Reached.inv (hsep : Separate L own) (h : Reached L own s) : Inv L own s := by
  obtain ⟨cpu, is, hd, hr⟩ := h
  exact (always_of_step (fun _ _ _ hinv hd h => inv_step hsep hinv hd h) (inv_init cpu) hd).last hr

/-- What a coroutine finds that is switched to. -/
theorem Switch.found (hsep : Separate L own) (hinv : Inv L own s) (h : Switch L s t a b)
    (hret : ∀ x, Within (s.cpu.regs .rsp) 8 x → own a x) {saved : Coctx}
    (hsaved : Coctx.held s.cpu.mem (L.coctx b) = saved) :
    t.cpu.rip = saved kRETAddr ∧ t.cpu.regs = saved.regs (Thread.calling s.cpu (L.coctx a) (L.coctx b)).regs ∧
      t.cpu.mem = (Coctx.put s.cpu.mem (L.coctx a) (leaving L s a b)).write (saved kRSP) (saved kRETAddr) := by
  rw [h.cpu_eq hsep hinv hret, hsaved]
  exact ⟨rfl, rfl, rfl⟩

/-- **A coroutine that is left in its callback, and the main coroutine, goes on as behind a call:
whatever others do in between, it finds the return address, the stack pointer and the preserved
registers as they were; and of its stack the return address and every byte that nobody wrote.** -/
theorem resumed_as_called {i j : Input κ} {is : List (Input κ)} {s' t' : Thread κ} (hsep : Separate L own)
    (hreached : Reached L own s) (hcur : s.tCurCoroutine = some c) (hsafe : Refuses c s)
    (hdi : Disciplined L own s i) (hout : s.step L i = some s')
    (hd : Meets (Thread.step L) (Disciplined L own) s' is) (hr : run (Thread.step L) s' is = some t')
    (haway : Always (Thread.step L) (fun s => s.tCurCoroutine ≠ some c) s' is)
    (hdj : Disciplined L own t' j) (hin : t'.step L j = some t) (hback : t.tCurCoroutine = some c) :
    Frame.found t.cpu = Frame.behind s.cpu ∧
      (∀ x, Within (s.cpu.regs .rsp) 8 x → t.cpu.mem x = s.cpu.mem x) ∧
      ∀ x, own c x → Meets (Thread.step L) (Spares x) s' is → t.cpu.mem x = s.cpu.mem x := by
  have hinv := hreached.inv hsep
  obtain ⟨b, hleft, hret⟩ := step_switch_out hinv hdi hout hcur haway.head
  have hinv' : Inv L own s' := inv_step hsep hinv hdi hout
  have hsafe' : Refuses c s' := hsafe.imp (fun hc => hleft.main.trans hc) fun hc =>
    (congrFun hleft.isInCoFunc c).trans hc
  have hhas' : s'.hasCoctx c := by rw [hleft.saved, Function.update_self]
  obtain ⟨hinvt, hhast, hawayt, hobject, hstack⟩ :=
    run_private hsep hinv' hd (meets_kept hsep hinv' hd hsafe' haway) hr hhas' haway
  obtain ⟨a, hcame, hreta⟩ := step_switch_in hdj hin hhast hawayt hback
  have hsaved : Coctx.held t'.cpu.mem (L.coctx c) = leaving L s c b :=
    (Coctx.held_congr hobject).trans (hleft.held_left hsep hinv hret)
  obtain ⟨hrip, hregs, hmem⟩ := hcame.found hsep hinvt hreta hsaved
  -- the switch writes the return address where it was
  have htop (x : Word) (hx : Within (s.cpu.regs .rsp) 8 x) : t.cpu.mem x = s.cpu.mem x := by
    rw [hmem]
    exact Memory.write_within hx
  refine ⟨?_, htop, fun x hx hspares => ?_⟩
  · rw [Frame.found, hrip, hregs]
    rfl
  · by_cases hword : Within (s.cpu.regs .rsp) 8 x
    · exact htop x hword
    · rw [hmem]
      calc ((Coctx.put t'.cpu.mem (L.coctx a) (leaving L t' a c)).write _ _) x
        _ = Coctx.put t'.cpu.mem (L.coctx a) (leaving L t' a c) x := Memory.write_apart hword
        _ = t'.cpu.mem x := Coctx.put_apart _ _ (hsep.stackObject c a x hx)
        _ = s'.cpu.mem x := hstack x hx hspares
        _ = s.cpu.mem x := hleft.mem_own hsep hinv hret hx

/-- From a `setCallBack` that is not refused to the switch that enters the callback: `s'` is the state
after the one, `t'` and `t` are those around the other. -/
structure Entering (L : Layout κ) (own : κ → Word → Prop) (c : κ) (s s' t' t : Thread κ) : Prop where
  reached : Reached L own s
  set : s.step L (.setCallBack c) = some s'
  accepted : ¬ Refuses c s
  stack : ∀ x, Within (Thread.stackTop L c) 8 x → own c x
  /-- Others run in between, and nobody sets the callback again. -/
  between : ∃ is, Meets (Thread.step L) (Disciplined L own) s' is ∧ run (Thread.step L) s' is = some t' ∧
    Always (Thread.step L) (fun s => s.tCurCoroutine ≠ some c) s' is ∧ .setCallBack c ∉ is
  last : ∃ j, Disciplined L own t' j ∧ t'.step L j = some t
  back : t.tCurCoroutine = some c

theorem Entering.found {s' t' : Thread κ} (hsep : Separate L own) (h : Entering L own c s s' t' t) :
    t.cpu.rip = L.coFunction ∧ ∃ a, t'.tCurCoroutine = some a ∧
      t.cpu.regs = (beginning L c).regs (Thread.calling t'.cpu (L.coctx a) (L.coctx c)).regs ∧
      t.cpu.mem = (Coctx.put t'.cpu.mem (L.coctx a) (leaving L t' a c)).write (Thread.stackTop L c) L.coFunction := by
  obtain ⟨is, hd, hr, haway, honce⟩ := h.between
  obtain ⟨j, hdj, hin⟩ := h.last
  have hinv := h.reached.inv hsep
  have hinv' : Inv L own s' := inv_step hsep hinv (i := .setCallBack c) (fun x _ => h.stack x) h.set
  obtain rfl : s.setCallBack L c = s' := Option.some.inj h.set
  have harmed : Armed L s (s.setCallBack L c) c :=
    (setCallBack_cases L s c).resolve_left fun hrefused => h.accepted hrefused.1
  have hhas' : (s.setCallBack L c).hasCoctx c := by rw [harmed.hasCoctx, Function.update_self]
  have hkept : Meets (Thread.step L) (Kept c) (s.setCallBack L c) is :=
    (meets_of_mem (H := (· ≠ .setCallBack c)) (fun _ hi => ne_of_mem_of_not_mem hi honce) _).imp_of_step
      (Q := fun _ => True) (fun _ _ _ _ _ _ => trivial) (fun _ _ _ hne heq => absurd heq hne) trivial
  obtain ⟨hinvt, hhast, hawayt, hobject, _⟩ := run_private hsep hinv' hd hkept hr hhas' haway
  obtain ⟨a, hcame, hreta⟩ := step_switch_in hdj hin hhast hawayt h.back
  have hsaved : Coctx.held t'.cpu.mem (L.coctx c) = beginning L c :=
    (Coctx.held_congr hobject).trans harmed.held
  obtain ⟨hrip, hregs, hmem⟩ := hcame.found hsep hinvt hreta hsaved
  exact ⟨hrip, a, hcame.cur, hregs, hmem⟩

/-- **A coroutine that was given a callback begins in `CoFunction`, with itself as the argument, an
empty stack aligned as calls have it and the other registers zero, whatever ran before it; the switch
writes the `coctx` it leaves and one word, at the end of the stack.** -/
theorem entered_in_coFunction {s' t' : Thread κ} (hsep : Separate L own) (h : Entering L own c s s' t' t) :
    t.cpu.rip = L.coFunction ∧ t.cpu.regs .rdi = L.self c ∧
      t.cpu.regs .rbp = Thread.stackTop L c ∧ t.cpu.regs .rsp = Thread.stackTop L c + 8 ∧
      (t.cpu.regs .rsp).toNat % 16 = 8 ∧
      (∀ r ∈ [Reg.rax, .rbx, .rcx, .rdx, .rsi, .r8, .r9, .r12, .r13, .r14, .r15], t.cpu.regs r = 0) ∧
      ∃ a, t'.tCurCoroutine = some a ∧ ∀ x, ¬ Within (L.coctx a) Coctx.size x →
        ¬ Within (Thread.stackTop L c) 8 x → t.cpu.mem x = t'.cpu.mem x := by
  obtain ⟨hrip, a, hcur, hregs, hmem⟩ := h.found hsep
  rw [hregs]
  refine ⟨hrip, rfl, rfl, rfl, stackTop_aligned L c, fun r hr => ?_, a, hcur, fun x hobject htop => ?_⟩
  · simp only [List.mem_cons, List.not_mem_nil, or_false] at hr
    rcases hr with rfl | rfl | rfl | rfl | rfl | rfl | rfl | rfl | rfl | rfl | rfl <;> rfl
  · rw [hmem]
    exact (Memory.write_apart htop).trans (Coctx.put_apart _ _ hobject)

/-- **`Yield` is never without a coroutine to go to: in every state that a run reaches it ends on the
main coroutine, and the run time of the thread is that of no other coroutine.** -/
theorem yield_to_main (hsep : Separate L own) (hreached : Reached L own s) :
    ∃ t, s.step L .yield = some t ∧ t.tCurCoroutine = t.tMainCoroutine ∧
      ∀ c, t.tCurRunTime = some c → t.tCurCoroutine = some c := by
  have hinv := hreached.inv hsep
  show ∃ t, s.yield L = some t ∧ _
  unfold Thread.yield
  cases hmain : s.tMainCoroutine with
  | none => exact ⟨s, rfl, (hinv.main.mpr hmain).trans hmain.symm, hinv.runTime⟩
  | some main =>
    by_cases hcur : s.tCurCoroutine = some main
    · exact ⟨s, if_pos hcur, hcur.trans hmain.symm, hinv.runTime⟩
    · cases hco : s.tCurCoroutine with
      | none => exact absurd (hmain.symm.trans (hinv.main.mp hco)) nofun
      | some co =>
        have hhas : s.hasCoctx main := hinv.left main hmain hcur
        rw [hco] at hcur
        refine ⟨_, (if_neg hcur).trans (if_pos hhas), rfl, ?_⟩
        intro c hc
        cases hc

end

/-! ### Two coroutines -/

/-- The main coroutine, `false`, and another one. -/
def pair : Layout Bool where
  self co := if co then 0x2000 else 0x1000
  coctx co := if co then 0x2008 else 0x1008
  stackSp co := if co then 0x10000 else 0
  stackSize co := if co then 0x100 else 0
  coFunction := 0x400000

def pairOwn (co : Bool) (x : Word) : Prop := if co then Within 0x10008 0x100 x else Within 0x20000 0x1000 x

theorem pair_separate : Separate pair pairOwn := by
  refine ⟨?_, ?_, ?_⟩
  · intro c d hne x
    cases c <;> cases d <;> simp only [pair, Within, Coctx.size, Bool.false_eq_true, ↓reduceIte] <;>
      first | exact absurd rfl hne | bv_omega
  · intro c d x hc hd
    by_contra hne
    cases c <;> cases d <;> simp only [pairOwn, Within, Bool.false_eq_true, ↓reduceIte] at hc hd <;>
      first | exact hne rfl | bv_omega
  · intro c d x
    cases c <;> cases d <;> simp only [pair, pairOwn, Within, Coctx.size, Bool.false_eq_true, ↓reduceIte] <;> bv_omega

/-- The thread before the callback is set. -/
def pairBefore : Thread Bool :=
  Thread.newMain pair {cpu := ⟨fun r => if r = .rsp then 0x20800 else 7, 0, fun _ => 1⟩} false

/-- The thread before its main coroutine calls `Resume` of the other one. -/
def pairThread : Thread Bool := pairBefore.setCallBack pair true

theorem pairBefore_reached : Reached pair pairOwn pairBefore :=
  (reached_init _).step (i := .getCurrentCoroutine false) rfl rfl

theorem pair_top (x : Word) (hx : Within (Thread.stackTop pair true) 8 x) : pairOwn true x := by
  rw [show Thread.stackTop pair true = 0x10100 by decide] at hx
  show Within 0x10008 0x100 x
  unfold Within at *
  bv_omega

theorem pairThread_reached : Reached pair pairOwn pairThread :=
  pairBefore_reached.step (i := .setCallBack true) (fun x _ => pair_top x) rfl

theorem pairThread_calls : Disciplined pair pairOwn pairThread (.resume (some true)) := by
  intro c x hc hx
  obtain rfl : false = c := Option.some.inj hc
  change Within 0x20800 8 x at hx
  show Within 0x20000 0x1000 x
  unfold Within at *
  bv_omega

/-- Where the other one calls `Yield`: it has written the `is_timeout` of the main coroutine. -/
def pairOther (cpu : Machine) : Machine := {cpu.set .rsp 0x10080 with mem := Function.update cpu.mem 0x20900 0}

theorem resumed_as_called_instance : ∃ s' t, pairThread.step pair (.resume (some true)) = some s' ∧
    Thread.step pair {s' with cpu := pairOther s'.cpu} .yield = some t ∧
    Frame.found t.cpu = Frame.behind pairThread.cpu ∧ t.cpu.regs .rsp = 0x20808 ∧
    t.cpu.mem 0x20810 = pairThread.cpu.mem 0x20810 := by
  obtain ⟨s', hout⟩ : ∃ s', pairThread.step pair (.resume (some true)) = some s' := ⟨_, rfl⟩
  have hcur : s'.tCurCoroutine = some true := by
    obtain rfl := Option.some.inj hout
    rfl
  obtain ⟨t, hin⟩ : ∃ t, Thread.step pair {s' with cpu := pairOther s'.cpu} .yield = some t := by
    obtain rfl := Option.some.inj hout
    exact ⟨_, rfl⟩
  have hback : t.tCurCoroutine = some false := by
    obtain rfl := Option.some.inj hout
    obtain rfl := Option.some.inj hin
    rfl
  have hr : run (Thread.step pair) s' [.exec (pairOther s'.cpu)] = some {s' with cpu := pairOther s'.cpu} := rfl
  have hother (x : Word) (hx : x ≠ 0x20900) : (pairOther s'.cpu).mem x = s'.cpu.mem x := Function.update_of_ne hx ..
  have hd : Meets (Thread.step pair) (Disciplined pair pairOwn) s' [.exec (pairOther s'.cpu)] := by
    refine ⟨fun c x _ hx => hother x ?_, fun _ _ => trivial⟩
    rintro rfl
    cases c <;> exact absurd hx (by decide)
  have haway : Always (Thread.step pair) (fun s => s.tCurCoroutine ≠ some false) s' [.exec (pairOther s'.cpu)] := by
    have hne : s'.tCurCoroutine ≠ some false := by
      rw [hcur]
      decide
    refine ⟨hne, fun u hu => ?_⟩
    obtain rfl := Option.some.inj hu
    exact hne
  have hcalls : Disciplined pair pairOwn {s' with cpu := pairOther s'.cpu} .yield := by
    intro c x hc hx
    obtain rfl : true = c := Option.some.inj (hcur.symm.trans hc)
    change Within 0x10080 8 x at hx
    show Within 0x10008 0x100 x
    unfold Within at *
    bv_omega
  obtain ⟨hframe, _, hmem⟩ := resumed_as_called (j := .yield) pair_separate pairThread_reached rfl (.inl rfl)
    pairThread_calls hout hd hr haway hcalls hin hback
  refine ⟨s', t, hout, hin, hframe, congrArg Frame.rsp hframe, hmem 0x20810 (by decide : Within 0x20000 0x1000 _) ?_⟩
  refine ⟨fun cpu hcpu => ?_, fun _ _ => trivial⟩
  obtain rfl := Input.exec.inj hcpu
  exact hother _ (by decide)

theorem pair_entering : ∃ t, pairThread.step pair (.resume (some true)) = some t ∧
    Entering pair pairOwn true pairBefore pairThread pairThread t := by
  obtain ⟨t, hin⟩ : ∃ t, pairThread.step pair (.resume (some true)) = some t := ⟨_, rfl⟩
  have hback : t.tCurCoroutine = some true := by
    obtain rfl := Option.some.inj hin
    rfl
  have haway : pairThread.tCurCoroutine ≠ some true := by decide
  exact ⟨t, hin, pairBefore_reached, rfl, fun h => h.elim nofun nofun, pair_top,
    ⟨[], trivial, rfl, haway, List.not_mem_nil⟩, ⟨_, pairThread_calls, hin⟩, hback⟩

theorem entered_in_coFunction_instance : ∃ t, pairThread.step pair (.resume (some true)) = some t ∧
    t.cpu.rip = 0x400000 ∧ t.cpu.regs .rdi = 0x2000 ∧ t.cpu.regs .rsp = 0x10108 := by
  obtain ⟨t, hin, hentering⟩ := pair_entering
  obtain ⟨hrip, hrdi, _, hrsp, _⟩ := entered_in_coFunction pair_separate hentering
  exact ⟨t, hin, hrip, hrdi, hrsp⟩

theorem yield_to_main_instance : ∃ s t, pairThread.step pair (.resume (some true)) = some s ∧
    s.tCurCoroutine = some true ∧ s.step pair .yield = some t ∧ t.tCurCoroutine = t.tMainCoroutine := by
  obtain ⟨s, hs⟩ : ∃ s, pairThread.step pair (.resume (some true)) = some s := ⟨_, rfl⟩
  obtain ⟨t, ht, hmain, _⟩ := yield_to_main pair_separate (pairThread_reached.step pairThread_calls hs)
  have hcur : s.tCurCoroutine = some true := by
    obtain rfl := Option.some.inj hs
    rfl
  exact ⟨s, t, hs, hcur, ht, hmain⟩

end CoroutineRpc.Coroutine.Switching
