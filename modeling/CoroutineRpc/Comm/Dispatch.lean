import CoroutineRpc.Comm.AsyncDelivery
import CoroutineRpc.Comm.Logger

/-! Where a message is.

A message that was appended is in its buffer, in a thread's local vector, or has been accepted by
its `AsyncLogger`; it is nowhere twice, and it is lost only when it is handed over to one that
does not accept it any more (`covered_step`). -/
namespace CoroutineRpc.Comm.Logger
open Library.Transition
open AsyncLogger (Sound)

/-! ### The parts of a state -/

section
variable (s : State) (t : Thread) (pc : Pc) (t' : Thread)

theorem goTo_held : ((s.goTo t pc).threads t').held = (s.threads t').held := by
  show (Function.update s.threads t {s.threads t with pc} t').held = _
  rw [Function.update_apply]
  split
  · rename_i heq
    rw [heq]
  · rfl

theorem goTo_since : ((s.goTo t pc).threads t').since = (s.threads t').since := by
  show (Function.update s.threads t {s.threads t with pc} t').since = _
  rw [Function.update_apply]
  split
  · rename_i heq
    rw [heq]
  · rfl

theorem goTo_pc : ((s.goTo t pc).threads t').pc = if t' = t then pc else (s.threads t').pc := by
  show (Function.update s.threads t {s.threads t with pc} t').pc = _
  rw [Function.update_apply]
  split <;> rfl

end

/-- Where a thread may have messages of a log in its local vectors. -/
def Pc.holds (type : LogType) : Pc → Bool
  | .swap .appLog => type = .rpcLog
  | .push .rpcLog => true
  | .push .appLog => type = .appLog
  | _ => false

theorem holds_afterSwap (type : LogType) : (afterSwap type).holds type = true := by
  cases type <;> rfl

/-- What holds in every state. -/
structure Books (config : Config) (files : LogType → Bytes → Bytes) (s : State) : Prop where
  sound : ∀ type, Sound (asyncSettings config type) (files type) (s.async type)
  index : ∀ type k (m : Message), (s.appended type)[k]? = some m → m.index = k
  accepted : ∀ type, ∀ m ∈ (s.async type).accepted.flatten, m ∈ s.appended type
  buffer : ∀ type, ∀ m ∈ s.buffer type, m ∈ s.appended type
  held : ∀ t type, ∀ m ∈ (s.threads t).held type, m ∈ s.appended type ∧ (s.threads t).pc.holds type = true
  since : ∀ t type, (s.threads t).since type ≤ (s.appended type).length

/-- Whoever cannot hold messages of a log holds none. -/
theorem Books.nothing {config : Config} {files : LogType → Bytes → Bytes} {s : State} (h : Books config files s)
    {t : Thread} {type : LogType} (hpc : (s.threads t).pc.holds type = false) :
    (s.threads t).held type = [] := by
  refine List.eq_nil_iff_forall_not_mem.mpr fun m hm => ?_
  have := (h.held t type m hm).2
  rw [hpc] at this
  cases this

variable {config : Config} {files : LogType → Bytes → Bytes}

theorem books_initial : Books config files (initial files) where
  sound _ := AsyncLogger.sound_initial
  index _ _ _ h := by
    simp [initial] at h
  accepted _ := nofun
  buffer _ := nofun
  held _ _ := nofun
  since _ _ := Nat.le_refl _

/-- Another thread's place does not matter, nor does that of one which has nothing. -/
theorem Books.goes {s : State} (h : Books config files s) {t : Thread} (pc : Pc)
    (hnone : ∀ type, (s.threads t).pc.holds type = false) : Books config files (s.goTo t pc) where
  sound := h.sound
  index := h.index
  accepted := h.accepted
  buffer := h.buffer
  held t' type m hm := by
    rw [goTo_held] at hm
    refine ⟨(h.held t' type m hm).1, ?_⟩
    rw [goTo_pc]
    split
    · rename_i heq
      rw [heq, h.nothing (hnone type)] at hm
      cases hm
    · exact (h.held t' type m hm).2
  since t' type := by
    rw [goTo_since]
    exact h.since t' type

theorem Books.async {s : State} (h : Books config files s) {type : LogType} {async : AsyncLogger.State Message}
    (hsound : Sound (asyncSettings config type) (files type) async)
    (haccepted : ∀ m ∈ async.accepted.flatten, m ∈ s.appended type) : Books config files (s.setAsync type async) where
  sound type' := by
    show Sound _ _ (Function.update s.async type async type')
    by_cases htype : type' = type
    · obtain rfl := htype
      rw [Function.update_self]
      exact hsound
    · rw [Function.update_of_ne htype]
      exact h.sound type'
  index := h.index
  accepted type' := by
    show ∀ m ∈ (Function.update s.async type async type').accepted.flatten, m ∈ s.appended type'
    by_cases htype : type' = type
    · obtain rfl := htype
      rw [Function.update_self]
      exact haccepted
    · rw [Function.update_of_ne htype]
      exact h.accepted type'
  buffer := h.buffer
  held := h.held
  since := h.since

theorem books_append {s : State} (h : Books config files s) (n : Nat) (type : LogType) (logMsg : Bytes) :
    Books config files (append s n type logMsg) := by
  have hgrows : ∀ type' m, m ∈ s.appended type' → m ∈ (append s n type logMsg).appended type' := by
    intro type' m hm
    show m ∈ Function.update s.appended type _ type'
    rw [Function.update_apply]
    split
    · rename_i heq
      exact List.mem_append_left _ (heq ▸ hm)
    · exact hm
  refine ⟨h.sound, fun type' k m hm => ?_, fun type' m hm => hgrows type' m (h.accepted type' m hm),
    fun type' m hm => ?_, fun t type' m hm => ⟨hgrows type' m (h.held t type' m hm).1, (h.held t type' m hm).2⟩,
    fun t type' => (h.since t type').trans ?_⟩
  · simp only [append, Function.update_apply] at hm
    split at hm
    · rename_i heq
      obtain rfl := heq
      rcases Nat.lt_or_ge k (s.appended type').length with hk | hk
      · rw [List.getElem?_append_left hk] at hm
        exact h.index type' k m hm
      · rw [List.getElem?_append_right hk] at hm
        obtain hzero : k - (s.appended type').length = 0 := by
          by_contra hne
          rw [List.getElem?_eq_none (by simp only [List.length_singleton]; omega)] at hm
          cases hm
        rw [hzero] at hm
        obtain rfl := Option.some.inj hm
        show (s.appended type').length = k
        omega
    · exact h.index type' k m hm
  · simp only [append, Function.update_apply] at hm ⊢
    split at hm
    · rename_i heq
      rw [if_pos heq]
      rcases List.mem_append.mp hm with hm | hm
      · exact List.mem_append_left _ (h.buffer type m hm)
      · exact List.mem_append_right _ hm
    · rename_i hne
      rw [if_neg hne]
      exact h.buffer type' m hm
  · simp only [append, Function.update_apply]
    split
    · rename_i heq
      rw [heq, List.length_append]
      omega
    · exact Nat.le_refl _

/-- Where a thread's local vectors are after a step of its own. -/
theorem setThread_threads (s : State) (t t' : Thread) (d : Dispatcher) :
    (s.setThread t d).threads t' = if t' = t then d else s.threads t' := Function.update_apply ..

theorem swap_held (s : State) (t t' : Thread) (type type' : LogType) :
    ((swap s t type).threads t').held type' =
      if t' = t ∧ type' = type then s.buffer type else (s.threads t').held type' := by
  simp only [swap, setThread_threads]
  by_cases ht : t' = t
  · rw [if_pos ht, ht]
    show Function.update (s.threads t).held type (s.buffer type) type' = _
    rw [Function.update_apply]
    by_cases htype : type' = type
    · rw [if_pos htype, if_pos ⟨rfl, htype⟩]
    · rw [if_neg htype, if_neg fun hboth => htype hboth.2]
  · rw [if_neg ht, if_neg fun hboth => ht hboth.1]

theorem swap_buffer {s : State} {t : Thread} {type : LogType} (h : (s.threads t).held type = [])
    (type' : LogType) : (swap s t type).buffer type' = if type' = type then [] else s.buffer type' := by
  show Function.update s.buffer type ((s.threads t).held type) type' = _
  rw [Function.update_apply, h]

theorem Books.swap_nothing {s : State} (h : Books config files s) {t : Thread} {type : LogType}
    (hpc : (s.threads t).pc = .swap type) : (s.threads t).held type = [] := by
  apply h.nothing
  rw [hpc]
  cases type <;> rfl

theorem books_swap {s : State} (h : Books config files s) {t : Thread} {type : LogType}
    (hpc : (s.threads t).pc = .swap type) : Books config files (swap s t type) := by
  have hnone : (s.threads t).held type = [] := h.swap_nothing hpc
  refine ⟨h.sound, h.index, h.accepted, fun type' m hm => ?_, fun t' type' m hm => ?_, fun t' type' => ?_⟩
  · simp only [swap, Function.update_apply] at hm
    split at hm
    · rw [hnone] at hm
      cases hm
    · exact h.buffer type' m hm
  · simp only [swap, setThread_threads] at hm ⊢
    split at hm
    swap
    · rename_i hne
      rw [if_neg hne]
      exact h.held t' type' m hm
    rename_i heq
    rw [if_pos heq]
    dsimp only at hm
    rw [Function.update_apply] at hm
    split at hm
    · rename_i htype
      rw [htype]
      exact ⟨h.buffer type m hm, holds_afterSwap type⟩
    · -- the vector that was taken before
      rename_i htype
      obtain ⟨happended, hholds⟩ := h.held t type' m hm
      refine ⟨happended, ?_⟩
      rw [hpc] at hholds
      cases type <;> cases type' <;> first | rfl | cases hholds
  · simp only [swap, setThread_threads]
    split
    · rename_i heq
      rw [← heq]
      exact h.since t' type'
    · exact h.since t' type'

theorem async_push_accepted (async : AsyncLogger.State Message) (buffer : List Message) :
    (AsyncLogger.push async buffer).accepted.flatten =
      async.accepted.flatten ++ if async.stopping then [] else buffer := by
  unfold AsyncLogger.push
  split
  · rw [ite_self, List.append_nil]
  split
  · exact (List.append_nil _).symm
  · exact List.flatten_concat

/-- What a hand-over adds to what is accepted. -/
theorem push_accepted (s : State) (t : Thread) (type : LogType) :
    ((push s t type).async type).accepted.flatten = (s.async type).accepted.flatten ++
      if s.alive = true ∧ (s.async type).stopping = false then (s.threads t).held type else [] := by
  show (Function.update s.async type _ type).accepted.flatten = _
  rw [Function.update_self]
  cases s.alive with
  | false => simp
  | true =>
    rw [if_pos rfl, async_push_accepted]
    cases (s.async type).stopping <;> simp

theorem push_held (s : State) (t t' : Thread) (type type' : LogType) :
    ((push s t type).threads t').held type' =
      if t' = t ∧ type' = type then [] else (s.threads t').held type' := by
  simp only [push, setThread_threads]
  by_cases ht : t' = t
  · rw [if_pos ht, ht]
    show Function.update (s.threads t).held type [] type' = _
    rw [Function.update_apply]
    by_cases htype : type' = type
    · rw [if_pos htype, if_pos ⟨rfl, htype⟩]
    · rw [if_neg htype, if_neg fun hboth => htype hboth.2]
  · have hother : ¬ (t' = t ∧ type' = type) := fun hboth => ht hboth.1
    rw [if_neg ht, if_neg hother]
    rfl

theorem push_async_other (s : State) (t : Thread) {type type' : LogType} (h : type' ≠ type) :
    (push s t type).async type' = s.async type' := Function.update_of_ne h ..

theorem stop_accepted {async async' : AsyncLogger.State Message} (h : AsyncLogger.stop async = some async') :
    async'.accepted = async.accepted := by
  unfold AsyncLogger.stop at h
  split at h
  · rw [← Option.some.inj h]
  · rw [← Option.some.inj h]
  · cases h

theorem stopper_accepted {async async' : AsyncLogger.State Message} (h : AsyncLogger.stopper async = some async') :
    async'.accepted = async.accepted := by
  unfold AsyncLogger.stopper at h
  split at h
  · rw [← Option.some.inj h]
  · rw [← Option.some.inj h]
    exact (AsyncLogger.closeFile_same _).accepted
  · cases h

theorem books_push {s : State} (h : Books config files s) {t : Thread} {type : LogType}
    (hpc : (s.threads t).pc = .push type) : Books config files (push s t type) := by
  refine ⟨fun type' => ?_, h.index, fun type' m hm => ?_, h.buffer, fun t' type' m hm => ?_, fun t' type' => ?_⟩
  · show Sound _ _ (Function.update s.async type _ type')
    by_cases htype : type' = type
    · obtain rfl := htype
      rw [Function.update_self]
      split
      · exact AsyncLogger.sound_push (h.sound type') _
      · exact h.sound type'
    · rw [Function.update_of_ne htype]
      exact h.sound type'
  · by_cases htype : type' = type
    · obtain rfl := htype
      rw [push_accepted] at hm
      rcases List.mem_append.mp hm with hm | hm
      · exact h.accepted type' m hm
      · split at hm
        · exact (h.held t type' m hm).1
        · cases hm
    · rw [push_async_other s t htype] at hm
      exact h.accepted type' m hm
  · rw [push_held] at hm
    split at hm
    · cases hm
    rename_i hne
    obtain ⟨happended, hholds⟩ := h.held t' type' m hm
    refine ⟨happended, ?_⟩
    simp only [push, setThread_threads]
    by_cases ht : t' = t
    · rw [if_pos ht]
      rw [ht, hpc] at hholds
      have htype : type' ≠ type := fun heq => hne ⟨ht, heq⟩
      cases type <;> cases type' <;> first | rfl | exact absurd rfl htype | cases hholds
    · rw [if_neg ht]
      exact hholds
  · simp only [push, setThread_threads]
    split
    · rename_i heq
      rw [← heq]
      exact h.since t' type'
    · exact h.since t' type'

theorem goes_holds {s : State} {t : Thread} {pc : Pc} (h : Goes s t pc) (type : LogType) :
    (s.threads t).pc.holds type = false := by
  cases h with
  | leave _ hpc => rw [hpc]; rfl
  | dispatch _ hpc => rw [hpc]; rfl
  | joined hpc => rw [hpc]; rfl
  | noWait hpc => rw [hpc]; rfl
  | stopped hpc => rw [hpc]; rfl

theorem books_step {s u : State} {i : Input} (h : Books config files s) (hs : step config s i = some u) :
    Books config files u := by
  have hkept : ∀ {type : LogType} {async : AsyncLogger.State Message},
      async.accepted = (s.async type).accepted → ∀ m ∈ async.accepted.flatten, m ∈ s.appended type := by
    intro type async heq
    rw [heq]
    exact h.accepted type
  cases step_moves hs with
  | ignored => exact h
  | test => exact ⟨h.sound, h.index, h.accepted, h.buffer, h.held, h.since⟩
  | append => exact books_append h _ _ _
  | @flush n hpc =>
    have hnone : ∀ type, (s.threads (.flush n)).pc.holds type = false := by
      intro type
      rcases hpc with hpc | hpc <;> rw [hpc] <;> rfl
    have hcalls := h.goes (.swap .rpcLog) hnone
    refine ⟨h.sound, h.index, h.accepted, h.buffer, fun t' type m hm => ?_, fun t' type => ?_⟩
    · simp only [setThread_threads] at hm ⊢
      split at hm
      · rename_i heq
        dsimp only at hm
        rw [h.nothing (hnone type)] at hm
        cases hm
      · rename_i hne
        rw [if_neg hne]
        exact h.held t' type m hm
    · simp only [setThread_threads]
      split
      · exact Nat.le_refl _
      · exact h.since t' type
  | shutdown hpc =>
    have hgoes := h.goes (t := .shutdown) .join fun type => by rw [hpc]; rfl
    exact ⟨hgoes.sound, hgoes.index, hgoes.accepted, hgoes.buffer, hgoes.held, hgoes.since⟩
  | goes hgoes => exact h.goes _ (goes_holds hgoes)
  | swap hpc => exact books_swap h hpc
  | push hpc => exact books_push h hpc
  | @wait t type async hpc hflush =>
    obtain ⟨-, -, rfl⟩ := AsyncLogger.flush_some hflush
    have hkept' := h.async (h.sound type).fflush (hkept (AsyncLogger.fflush_same _).accepted)
    exact hkept'.goes _ fun type => by rw [show ((s.setAsync _ _).threads t).pc = _ from hpc]; rfl
  | @stop t type async hpc hstop =>
    have hkept' := h.async (AsyncLogger.sound_stop (h.sound type) hstop) (hkept (stop_accepted hstop))
    exact hkept'.goes _ fun type => by rw [show ((s.setAsync _ _).threads t).pc = _ from hpc]; rfl
  | @stopper t type async hpc hstopper =>
    exact h.async (AsyncLogger.sound_stopper (h.sound type) hstopper) (hkept (stopper_accepted hstopper))
  | @reset t hpc =>
    have hgoes := h.goes (t := t) .returned fun type => by rw [hpc]; rfl
    exact ⟨hgoes.sound, hgoes.index, hgoes.accepted, hgoes.buffer, hgoes.held, hgoes.since⟩
  | @worker type date async hasync =>
    exact h.async (AsyncLogger.sound_execute (h.sound type) hasync) (hkept (AsyncLogger.execute_kept hasync).accepted)
  | spill type n =>
    exact h.async ((h.sound type).spill n) (hkept (AsyncLogger.spill_same _ n).accepted)

/-! ### Where messages move -/

/-- No message moves. -/
structure Still (s u : State) : Prop where
  appended : u.appended = s.appended
  buffer : u.buffer = s.buffer
  held : ∀ t, (u.threads t).held = (s.threads t).held
  accepted : ∀ type, (u.async type).accepted = (s.async type).accepted

/-- The steps, by what they do with messages. -/
inductive Carries (s : State) : Input → State → Prop where
  | still {i : Input} {u : State} (h : Still s u) : Carries s i u
  | append {n : Nat} {type : LogType} {logMsg : Bytes} (h : s.producers n = .append type logMsg) :
      Carries s (.producer n) (append s n type logMsg)
  | swap {t : Thread} {type : LogType} (hpc : (s.threads t).pc = .swap type) :
      Carries s (.thread t) (swap s t type)
  | push {t : Thread} {type : LogType} (hpc : (s.threads t).pc = .push type) :
      Carries s (.thread t) (push s t type)

theorem still_setAsync {s : State} {type : LogType} {async : AsyncLogger.State Message}
    (h : async.accepted = (s.async type).accepted) : Still s (s.setAsync type async) := by
  refine ⟨rfl, rfl, fun _ => rfl, fun type' => ?_⟩
  show (Function.update s.async type async type').accepted = _
  by_cases htype : type' = type
  · obtain rfl := htype
    rw [Function.update_self, h]
  · rw [Function.update_of_ne htype]

theorem still_goTo (s : State) (t : Thread) (pc : Pc) : Still s (s.goTo t pc) :=
  ⟨rfl, rfl, fun t' => funext fun type => congrFun (goTo_held s t pc t') type, fun _ => rfl⟩

theorem Still.trans {s u v : State} (h : Still s u) (h' : Still u v) : Still s v :=
  ⟨h'.appended.trans h.appended, h'.buffer.trans h.buffer, fun t => (h'.held t).trans (h.held t),
    fun type => (h'.accepted type).trans (h.accepted type)⟩

theorem step_carries {s u : State} {i : Input} (hs : step config s i = some u) : Carries s i u := by
  cases step_moves hs with
  | append h => exact .append h
  | swap hpc => exact .swap hpc
  | push hpc => exact .push hpc
  | ignored => exact .still ⟨rfl, rfl, fun _ => rfl, fun _ => rfl⟩
  | test => exact .still ⟨rfl, rfl, fun _ => rfl, fun _ => rfl⟩
  | @flush n hpc =>
    refine .still ⟨rfl, rfl, fun t => ?_, fun _ => rfl⟩
    rw [setThread_threads]
    split
    · rename_i heq
      rw [heq]
    · rfl
  | shutdown =>
    obtain ⟨happended, hbuffer, hheld, haccepted⟩ := still_goTo s .shutdown .join
    exact .still ⟨happended, hbuffer, hheld, haccepted⟩
  | goes => exact .still (still_goTo s _ _)
  | @wait t type async _ h =>
    obtain ⟨-, -, rfl⟩ := AsyncLogger.flush_some h
    exact .still ((still_setAsync (AsyncLogger.fflush_same _).accepted).trans (still_goTo _ _ _))
  | @stop t type async _ h => exact .still ((still_setAsync (stop_accepted h)).trans (still_goTo _ _ _))
  | stopper _ h => exact .still (still_setAsync (stopper_accepted h))
  | @reset t =>
    obtain ⟨happended, hbuffer, hheld, haccepted⟩ := still_goTo s t .returned
    exact .still ⟨happended, hbuffer, hheld, haccepted⟩
  | worker h => exact .still (still_setAsync (AsyncLogger.execute_kept h).accepted)
  | spill type n => exact .still (still_setAsync (AsyncLogger.spill_same _ n).accepted)

/-- A thread that does not move gets nothing. -/
theorem step_held {s u : State} {i : Input} {t : Thread} (hi : i ≠ .thread t) (hs : step config s i = some u) :
    (u.threads t).held = (s.threads t).held := by
  cases step_carries hs with
  | still h => exact h.held t
  | append => rfl
  | @swap t' type =>
    funext type'
    have hother : ¬ (t = t' ∧ type' = type) := fun hboth => hi (hboth.1 ▸ rfl)
    rw [swap_held, if_neg hother]
  | @push t' type =>
    funext type'
    have hother : ¬ (t = t' ∧ type' = type) := fun hboth => hi (hboth.1 ▸ rfl)
    rw [push_held, if_neg hother]

/-- A guard on what threads hold may leave out those that never move. -/
theorem meets_of_threads {G H : State → Input → Prop} {is : List Input} (ts : List Thread)
    (hts : ∀ t, Input.thread t ∈ is → t ∈ ts) (hG : Meets (step config) G (initial files) is)
    (himp : ∀ s i, (∀ t ∉ ts, ∀ type, (s.threads t).held type = []) → (∀ t, i = .thread t → t ∈ ts) →
      G s i → H s i) :
    Meets (step config) H (initial files) is := by
  have hinputs : ∀ i ∈ is, ∀ t, i = .thread t → t ∈ ts := fun i hi t heq => hts t (heq ▸ hi)
  refine ((meets_of_mem hinputs _).and hG).imp_of_step
    (Q := fun s => ∀ t ∉ ts, ∀ type, (s.threads t).held type = []) (fun s i u hnone hi hs t ht type => ?_)
    (fun s i hnone hi => himp s i hnone hi.1 hi.2) fun _ _ _ => rfl
  rw [step_held (fun heq => ht (hi.1 t heq)) hs]
  exact hnone t ht type

/-- Each message that has something to write is somewhere. -/
def Covered (s : State) : Prop := ∀ type, ∀ m ∈ s.appended type, m.text ≠ [] →
  m ∈ (s.async type).accepted.flatten ∨ m ∈ s.buffer type ∨ ∃ t, m ∈ (s.threads t).held type

/-- Nothing is lost by a step whose hand-over, if it is one, is accepted. -/
theorem covered_step {s u : State} {i : Input} (hbooks : Books config files s) (h : Covered s)
    (hpush : ∀ t type, i = .thread t → (s.threads t).pc = .push type → ∀ m ∈ (s.threads t).held type,
      m.text ≠ [] → m ∈ (u.async type).accepted.flatten) (hs : step config s i = some u) : Covered u := by
  cases step_carries hs with
  | still hstill =>
    obtain ⟨happended, hbuffer, hheld, haccepted⟩ := hstill
    intro type m hm htext
    rw [happended] at hm
    rw [haccepted, hbuffer]
    simp only [hheld]
    exact h type m hm htext
  | @append n type logMsg _ =>
    intro type' m hm htext
    simp only [append, Function.update_apply] at hm ⊢
    by_cases htype : type' = type
    · obtain rfl := htype
      rw [if_pos rfl] at hm ⊢
      rcases List.mem_append.mp hm with hm | hm
      · rcases h type' m hm htext with haccepted | hbuffer | hheld
        · exact .inl haccepted
        · exact .inr (.inl (List.mem_append_left _ hbuffer))
        · exact .inr (.inr hheld)
      · exact .inr (.inl (List.mem_append_right _ hm))
    · rw [if_neg htype] at hm ⊢
      exact h type' m hm htext
  | @swap t type hpc =>
    have hnone : (s.threads t).held type = [] := hbooks.swap_nothing hpc
    intro type' m hm htext
    rcases h type' m hm htext with haccepted | hbuffer | ⟨t', hheld⟩
    · exact .inl haccepted
    · by_cases htype : type' = type
      · obtain rfl := htype
        refine .inr (.inr ⟨t, ?_⟩)
        rw [swap_held, if_pos ⟨rfl, rfl⟩]
        exact hbuffer
      · refine .inr (.inl ?_)
        rw [swap_buffer hnone, if_neg htype]
        exact hbuffer
    · refine .inr (.inr ⟨t', ?_⟩)
      rw [swap_held]
      split
      · rename_i hboth
        rw [hboth.1, hboth.2, hnone] at hheld
        cases hheld
      · exact hheld
  | @push t type hpc =>
    intro type' m hm htext
    rcases h type' m hm htext with haccepted | hbuffer | ⟨t', hheld⟩
    · refine .inl ?_
      by_cases htype : type' = type
      · obtain rfl := htype
        rw [push_accepted]
        exact List.mem_append_left _ haccepted
      · rw [push_async_other _ _ htype]
        exact haccepted
    · exact .inr (.inl hbuffer)
    · by_cases hboth : t' = t ∧ type' = type
      · obtain ⟨rfl, rfl⟩ := hboth
        exact .inl (hpush t' type' rfl hpc m hheld htext)
      · refine .inr (.inr ⟨t', ?_⟩)
        rw [push_held, if_neg hboth]
        exact hheld

end CoroutineRpc.Comm.Logger
