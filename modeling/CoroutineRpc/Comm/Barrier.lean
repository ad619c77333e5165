import CoroutineRpc.Comm.Dispatch

/-! What `flush` of the `Logger` waits for.

`flush` hands over what is in the buffers and waits for the two `AsyncLogger`s. What was pushed
before is then in the buffer, with the `AsyncLogger`, or in the local vector of another thread
that dispatches, and in the last case `flush` does not wait for it (`not_barrier`). While that
does not happen it is a barrier (`flush_barrier`). -/
namespace CoroutineRpc.Comm

/-! ### What is written stays -/

namespace AsyncLogger
variable {μ : Type} {settings : Settings μ}

/-- What was written stays, and files only grow. -/
structure Grows (s t : State μ) : Prop where
  written : s.written <+: t.written
  files : ∀ file, s.files file <+: t.files file

theorem Grows.of_eq {s t : State μ} (hwritten : t.written = s.written) (hfiles : t.files = s.files) : Grows s t :=
  ⟨hwritten ▸ List.prefix_refl _, fun _ => hfiles ▸ List.prefix_refl _⟩

theorem spill_grows (s : State μ) (n : Nat) : Grows s (spill s n) := by
  refine ⟨(spill_same s n).written ▸ List.prefix_refl _, fun file => ?_⟩
  cases hhandle : s.fileHandle with
  | none =>
    rw [spill_none hhandle]
  | some stream =>
    rw [spill_some hhandle]
    dsimp only
    rw [Function.update_apply]
    split
    · rename_i hfile
      rw [hfile]
      exact List.prefix_append _ _
    · exact List.prefix_refl _

theorem fflush_grows (s : State μ) : Grows s (fflush s) := by
  obtain ⟨n, heq, -⟩ := fflush_eq s
  rw [heq]
  exact spill_grows s n

theorem closeFile_grows (s : State μ) : Grows s (closeFile s) :=
  ⟨(fflush_grows s).written, (fflush_grows s).files⟩

theorem changeDate_grows (s : State μ) (date : Bytes) : Grows s (changeDate s date) := by
  unfold changeDate
  split
  · exact .of_eq rfl rfl
  · exact ⟨(closeFile_grows s).written, (closeFile_grows s).files⟩

theorem execute_grows {s t : State μ} {date : Bytes} (ht : execute settings s date = some t) : Grows s t := by
  unfold execute at ht
  split at ht
  · unfold take at ht
    split at ht
    · obtain rfl := Option.some.inj ht
      exact .of_eq rfl rfl
    split at ht
    · obtain rfl := Option.some.inj ht
      exact .of_eq rfl rfl
    · cases ht
  · obtain rfl := Option.some.inj ht
    unfold nextMessage
    split
    · exact .of_eq rfl rfl
    split
    · exact .of_eq rfl rfl
    · obtain ⟨hwritten, hfiles⟩ := changeDate_grows s date
      unfold findLogFile
      split <;> exact ⟨hwritten, hfiles⟩
  · unfold openLogFile at ht
    dsimp only at ht
    split at ht
    · obtain rfl := Option.some.inj ht
      exact .of_eq rfl rfl
    · obtain ⟨fileNo, -, ht⟩ := Option.bind_eq_some_iff.mp ht
      obtain rfl := Option.some.inj ht
      exact .of_eq rfl rfl
  · unfold rotateIfNeeded at ht
    dsimp only at ht
    split at ht
    · obtain rfl := Option.some.inj ht
      exact .of_eq rfl rfl
    · obtain ⟨fileNo, -, ht⟩ := Option.bind_eq_some_iff.mp ht
      obtain rfl := Option.some.inj ht
      exact ⟨(closeFile_grows s).written, (closeFile_grows s).files⟩
  · obtain ⟨stream, -, rfl⟩ := Option.map_eq_some_iff.mp ht
    exact ⟨List.prefix_append _ _, fun _ => List.prefix_refl _⟩
  · obtain rfl := Option.some.inj ht
    exact ⟨(fflush_grows s).written, (fflush_grows s).files⟩
  · obtain rfl := Option.some.inj ht
    exact .of_eq rfl rfl
  · obtain rfl := Option.some.inj ht
    exact ⟨(fflush_grows s).written, (fflush_grows s).files⟩
  · obtain rfl := Option.some.inj ht
    exact .of_eq rfl rfl
  · cases ht

theorem step_grows {s t : State μ} {i : Input μ} (ht : step settings s i = some t) : Grows s t := by
  cases i with
  | push buffer =>
    obtain rfl := Option.some.inj ht
    unfold push
    split
    · exact .of_eq rfl rfl
    split <;> exact .of_eq rfl rfl
  | flush =>
    obtain ⟨-, -, rfl⟩ := flush_some ht
    exact fflush_grows s
  | stop =>
    simp only [step, stop] at ht
    split at ht
    · obtain rfl := Option.some.inj ht
      exact .of_eq rfl rfl
    · obtain rfl := Option.some.inj ht
      exact .of_eq rfl rfl
    · cases ht
  | stopper =>
    simp only [step, stopper] at ht
    split at ht
    · obtain rfl := Option.some.inj ht
      exact .of_eq rfl rfl
    · obtain rfl := Option.some.inj ht
      exact ⟨(closeFile_grows s).written, (closeFile_grows s).files⟩
    · cases ht
  | worker date => exact execute_grows ht
  | spill n =>
    obtain rfl := Option.some.inj ht
    exact spill_grows s n

/-- A message was written, and it is in its file with all that was written before. -/
def Stored (settings : Settings μ) (files : Bytes → Bytes) (s : State μ) (message : μ) : Prop :=
  ∃ written, written <+: s.written ∧ message ∈ written.map Prod.snd ∧
    ∀ file, files file ++ content settings written file <+: s.files file

theorem Stored.grows {files : Bytes → Bytes} {s t : State μ} {message : μ} (h : Stored settings files s message)
    (hgrows : Grows s t) : Stored settings files t message := by
  obtain ⟨written, hwritten, hmessage, hfiles⟩ := h
  exact ⟨written, hwritten.trans hgrows.written, hmessage, fun file => (hfiles file).trans (hgrows.files file)⟩

/-- Behind `flush` all that was accepted is stored. -/
theorem flush_stored {files : Bytes → Bytes} {s t : State μ} {message : μ} (h : Sound settings files s)
    (ht : flush s = some t) (hmessage : message ∈ s.accepted.flatten) (htext : settings.text message ≠ []) :
    Stored settings files t message := by
  obtain ⟨hall, -, hstored⟩ := flush_delivered h ht
  refine ⟨t.written, List.prefix_refl _, ?_, fun file => hstored file ▸ List.prefix_refl _⟩
  rw [hall]
  exact List.mem_filter.mpr ⟨hmessage, decide_eq_true htext⟩

end AsyncLogger

namespace Logger
open Library.Transition
open AsyncLogger (Grows Stored)
variable {config : Config} {files : LogType → Bytes → Bytes}

/-- Each `AsyncLogger` takes at most one step of its own. -/
theorem step_async {s u : State} {i : Input} (hs : step config s i = some u) (type : LogType) :
    u.async type = s.async type ∨
      ∃ j, AsyncLogger.step (asyncSettings config type) (s.async type) j = some (u.async type) := by
  have hset : ∀ type' async j,
      AsyncLogger.step (asyncSettings config type') (s.async type') j = some async →
      Function.update s.async type' async type = s.async type ∨
        ∃ j, AsyncLogger.step (asyncSettings config type) (s.async type) j =
          some (Function.update s.async type' async type) := by
    intro type' async j hj
    by_cases htype : type = type'
    · obtain rfl := htype
      rw [Function.update_self]
      exact .inr ⟨j, hj⟩
    · rw [Function.update_of_ne htype]
      exact .inl rfl
  cases step_moves hs with
  | @push t type' =>
    cases halive : s.alive with
    | true =>
      have := hset type' _ (.push ((s.threads t).held type')) rfl
      simpa [push, State.setThread, State.setAsync, halive] using this
    | false =>
      left
      simp [push, State.setThread, State.setAsync, halive]
  | wait _ h => exact hset _ _ .flush h
  | stop _ h => exact hset _ _ .stop h
  | stopper _ h => exact hset _ _ .stopper h
  | worker h => exact hset _ _ (.worker _) h
  | spill type' n => exact hset type' _ (.spill n) rfl
  | ignored => exact .inl rfl
  | test => exact .inl rfl
  | append => exact .inl rfl
  | flush => exact .inl rfl
  | shutdown => exact .inl rfl
  | goes => exact .inl rfl
  | swap => exact .inl rfl
  | reset => exact .inl rfl

theorem step_grows {s u : State} {i : Input} (hs : step config s i = some u) (type : LogType) :
    Grows (s.async type) (u.async type) := by
  rcases step_async hs type with heq | ⟨j, hj⟩
  · exact .of_eq (by rw [heq]) (by rw [heq])
  · exact AsyncLogger.step_grows hj

/-! ### While nobody shuts down -/

/-- Where the threads are then. -/
def Pc.plain : Pc → Bool
  | .join | .stop _ | .stopping _ | .reset => false
  | _ => true

/-- The logger is not shut down. -/
structure Up (s : State) : Prop where
  stopping : s.stopping = false
  alive : s.alive = true
  async : ∀ type, (s.async type).stopping = false
  plain : ∀ t, (s.threads t).pc.plain = true
  shutdown : (s.threads .shutdown).pc = .idle

theorem up_initial : Up (initial files) := ⟨rfl, rfl, fun _ => rfl, fun _ => rfl, rfl⟩

theorem Up.setThread {s : State} (h : Up s) {t : Thread} {d : Dispatcher} (ht : t ≠ .shutdown)
    (hplain : d.pc.plain = true) : Up (s.setThread t d) where
  stopping := h.stopping
  alive := h.alive
  async := h.async
  plain t' := by
    rw [setThread_threads]
    split
    · exact hplain
    · exact h.plain t'
  shutdown := by
    rw [setThread_threads, if_neg ht.symm]
    exact h.shutdown

theorem Up.setAsync {s : State} (h : Up s) {type : LogType} {async : AsyncLogger.State Message}
    (hstopping : async.stopping = (s.async type).stopping) : Up (s.setAsync type async) where
  stopping := h.stopping
  alive := h.alive
  async type' := by
    show (Function.update s.async type async type').stopping = false
    by_cases htype : type' = type
    · obtain rfl := htype
      rw [Function.update_self, hstopping]
      exact h.async type'
    · rw [Function.update_of_ne htype]
      exact h.async type'
  plain := h.plain
  shutdown := h.shutdown

theorem push_stopping (async : AsyncLogger.State Message) (buffer : List Message) :
    (AsyncLogger.push async buffer).stopping = async.stopping := by
  unfold AsyncLogger.push
  split
  · rfl
  split <;> rfl

theorem up_step {s u : State} {i : Input} (h : Up s) (hi : i ≠ .shutdown) (hs : step config s i = some u) :
    Up u := by
  have hmoves : ∀ {t : Thread}, (s.threads t).pc ≠ .idle → t ≠ .shutdown := by
    rintro t hpc rfl
    exact hpc h.shutdown
  cases step_moves hs with
  | ignored => exact h
  | test => exact ⟨h.stopping, h.alive, h.async, h.plain, h.shutdown⟩
  | append => exact ⟨h.stopping, h.alive, h.async, h.plain, h.shutdown⟩
  | flush => exact h.setThread Thread.noConfusion rfl
  | shutdown => exact absurd rfl hi
  | @goes t pc hgoes =>
    have hplain := h.plain t
    cases hgoes with
    | leave ht => exact h.setThread (by rw [ht]; decide) rfl
    | dispatch ht => exact h.setThread (by rw [ht]; decide) rfl
    | joined hpc => rw [hpc] at hplain; cases hplain
    | noWait _ halive => rw [h.alive] at halive; cases halive
    | stopped hpc => rw [hpc] at hplain; cases hplain
  | @swap t type hpc =>
    have hplain : (afterSwap type).plain = true := by cases type <;> rfl
    have hthread := h.setThread
      (d := ⟨_, Function.update (s.threads t).held type (s.buffer type), (s.threads t).since⟩)
      (hmoves (by rw [hpc]; exact Pc.noConfusion)) hplain
    exact ⟨hthread.stopping, hthread.alive, hthread.async, hthread.plain, hthread.shutdown⟩
  | @push t type hpc =>
    have ht : t ≠ .shutdown := hmoves (by rw [hpc]; exact Pc.noConfusion)
    have hplain : (afterPush t type).plain = true := by
      cases type with
      | rpcLog => rfl
      | appLog => cases t <;> first | rfl | exact absurd rfl ht
    refine (h.setAsync ?_).setThread ht hplain
    rw [if_pos h.alive]
    exact push_stopping ..
  | @wait t type async hpc hflush =>
    obtain ⟨-, -, rfl⟩ := AsyncLogger.flush_some hflush
    have hplain : (afterWait type).plain = true := by cases type <;> rfl
    exact (h.setAsync (AsyncLogger.fflush_same _).stopping).setThread
      (hmoves (by rw [hpc]; exact Pc.noConfusion)) hplain
  | @stop t type async hpc =>
    have hplain := h.plain t
    rw [hpc] at hplain
    cases hplain
  | @stopper t type async hpc =>
    have hplain := h.plain t
    rw [hpc] at hplain
    cases hplain
  | @reset t hpc =>
    have hplain := h.plain t
    rw [hpc] at hplain
    cases hplain
  | worker hasync => exact h.setAsync (AsyncLogger.execute_kept hasync).stopping
  | spill type n => exact h.setAsync (AsyncLogger.spill_same _ n).stopping

/-! ### A call of `flush` -/

/-- The thread has taken what was in the buffer. -/
def Pc.taken (type : LogType) : Pc → Bool
  | .swap .appLog => type = .rpcLog
  | .push _ | .wait _ | .returned => true
  | _ => false

/-- And it has waited for the `AsyncLogger`. -/
def Pc.waited (type : LogType) : Pc → Bool
  | .wait .appLog => type = .rpcLog
  | .returned => true
  | _ => false

/-- What a step does to a thread that flushes. -/
inductive Flushes (s u : State) (i : Input) (n : Nat) : Prop where
  | still (h : u.threads (.flush n) = s.threads (.flush n))
  | called (hpc : (u.threads (.flush n)).pc = .swap .rpcLog)
  | goes (pc : Pc) (hpc : (u.threads (.flush n)).pc = pc)
      (hsince : (u.threads (.flush n)).since = (s.threads (.flush n)).since)
      (htaken : ∀ type, pc.taken type = true → (s.threads (.flush n)).pc.taken type = true ∨ u.buffer type = [])
      (hwaited : ∀ type, pc.waited type = true → (s.threads (.flush n)).pc.waited type = true ∨
        i = .thread (.flush n) ∧ (s.threads (.flush n)).pc = .wait type ∧
          AsyncLogger.flush (s.async type) = some (u.async type))

theorem goTo_threads_of_ne (s : State) {t t' : Thread} (pc : Pc) (h : t' ≠ t) :
    (s.goTo t pc).threads t' = s.threads t' := Function.update_of_ne h ..

theorem flushes_step {s u : State} {i : Input} (h : Books config files s) (hup : Up s)
    (hs : step config s i = some u) (n : Nat) : Flushes s u i n := by
  cases step_moves hs with
  | ignored => exact .still rfl
  | test => exact .still rfl
  | append => exact .still rfl
  | @flush n' =>
    by_cases hn : Thread.flush n = .flush n'
    · obtain rfl := Thread.flush.inj hn
      refine .called ?_
      rw [setThread_threads, if_pos rfl]
    · exact .still (Function.update_of_ne hn ..)
  | shutdown => exact .still (goTo_threads_of_ne s .join (show Thread.flush n ≠ .shutdown from Thread.noConfusion))
  | @goes t pc hgoes =>
    have ht : t = .sync := by
      have hplain := hup.plain t
      cases hgoes with
      | leave ht => exact ht
      | dispatch ht => exact ht
      | joined hpc => rw [hpc] at hplain; cases hplain
      | noWait _ halive => rw [hup.alive] at halive; cases halive
      | stopped hpc => rw [hpc] at hplain; cases hplain
    rw [ht]
    exact .still (goTo_threads_of_ne s pc (show Thread.flush n ≠ .sync from Thread.noConfusion))
  | @swap t type hpc =>
    by_cases ht : Thread.flush n = t
    swap
    · exact .still (Function.update_of_ne ht ..)
    obtain rfl := ht
    refine .goes (afterSwap type) ?_ ?_ (fun type' htaken => ?_) fun type' hwaited => ?_
    · simp only [swap, setThread_threads, if_pos]
    · simp only [swap, setThread_threads, if_pos]
    · rw [swap_buffer (h.swap_nothing hpc), hpc]
      cases type <;> cases type' <;> first | exact .inr rfl | exact .inl rfl | cases htaken
    · cases type <;> cases hwaited
  | @push t type hpc =>
    by_cases ht : Thread.flush n = t
    swap
    · exact .still (Function.update_of_ne ht ..)
    obtain rfl := ht
    refine .goes (afterPush (.flush n) type) ?_ ?_ (fun type' htaken => ?_) fun type' hwaited => ?_
    · simp only [push, setThread_threads, if_pos]
    · simp only [push, setThread_threads, if_pos]
    · rw [hpc]
      exact .inl rfl
    · cases type <;> cases hwaited
  | @wait t type async hpc hflush =>
    by_cases ht : Thread.flush n = t
    swap
    · exact .still (Function.update_of_ne ht ..)
    obtain rfl := ht
    refine .goes (afterWait type) ?_ ?_ (fun type' htaken => ?_) fun type' hwaited => ?_
    · rw [goTo_pc, if_pos rfl]
    · exact goTo_since (s.setAsync type _) ..
    · rw [hpc]
      exact .inl rfl
    · by_cases htype : type' = type
      · obtain rfl := htype
        refine .inr ⟨rfl, hpc, ?_⟩
        show _ = some (Function.update s.async type' async type')
        rw [Function.update_self]
        exact hflush
      · rw [hpc]
        cases type <;> cases type' <;> first | exact .inl rfl | exact absurd rfl htype | cases hwaited
  | @stop t type async hpc =>
    have hplain := hup.plain t
    rw [hpc] at hplain
    cases hplain
  | @stopper t type async hpc => exact .still rfl
  | @reset t hpc =>
    have hplain := hup.plain t
    rw [hpc] at hplain
    cases hplain
  | worker => exact .still rfl
  | spill => exact .still rfl

/-! ### The barrier -/

/-- Where a call of `flush` has returned, what was pushed before it was called is stored. -/
def Barrier (config : Config) (files : LogType → Bytes → Bytes) (s : State) : Prop :=
  ∀ n, (s.threads (.flush n)).pc = .returned → ∀ type, ∀ m ∈ s.appended type,
    m.index < (s.threads (.flush n)).since type → m.text ≠ [] →
      Stored (asyncSettings config type) (files type) (s.async type) m

/-- No other thread has such messages in its local vectors when `flush` leaves an `AsyncLogger`. -/
def Alone (s : State) : Input → Prop
  | .thread (.flush n) => ∀ type, (s.threads (.flush n)).pc = .wait type → ∀ t ≠ Thread.flush n,
      ∀ m ∈ (s.threads t).held type, m.text ≠ [] → (s.threads (.flush n)).since type ≤ m.index
  | _ => True

/-- What a run keeps that meets `Alone`, while nobody shuts down. -/
structure Behind (config : Config) (files : LogType → Bytes → Bytes) (s : State) : Prop where
  books : Books config files s
  up : Up s
  covered : Covered s
  taken : ∀ n type, (s.threads (.flush n)).pc.taken type = true →
    ∀ m ∈ s.buffer type, (s.threads (.flush n)).since type ≤ m.index
  waited : ∀ n type, (s.threads (.flush n)).pc.waited type = true → ∀ m ∈ s.appended type,
    m.index < (s.threads (.flush n)).since type → m.text ≠ [] →
      Stored (asyncSettings config type) (files type) (s.async type) m

theorem behind_initial : Behind config files (initial files) where
  books := books_initial
  up := up_initial
  covered _ := nofun
  taken _ _ := nofun
  waited _ _ := nofun

theorem mem_update_append {f : LogType → List Message} {type type' : LogType} {m new : Message}
    (hm : m ∈ Function.update f type' (f type' ++ [new]) type) : m ∈ f type ∨ type = type' ∧ m = new := by
  rw [Function.update_apply] at hm
  split at hm
  · rename_i htype
    obtain rfl := htype
    exact (List.mem_append.mp hm).imp_right fun hm => ⟨rfl, List.mem_singleton.mp hm⟩
  · exact .inl hm

/-- Messages that come later have later places. -/
theorem step_appended {s u : State} {i : Input} (hs : step config s i = some u) {type : LogType} {m : Message}
    (hm : m ∈ u.appended type) : m ∈ s.appended type ∨ (s.appended type).length ≤ m.index := by
  cases step_carries hs with
  | still h =>
    rw [h.appended] at hm
    exact .inl hm
  | swap => exact .inl hm
  | push => exact .inl hm
  | @append n type' logMsg _ =>
    rcases mem_update_append hm with hm | ⟨rfl, rfl⟩
    · exact .inl hm
    · exact .inr (Nat.le_refl _)

theorem step_buffer {s u : State} {i : Input} (hbooks : Books config files s) (hs : step config s i = some u)
    {type : LogType} {m : Message} (hm : m ∈ u.buffer type) :
    m ∈ s.buffer type ∨ (s.appended type).length ≤ m.index := by
  cases step_carries hs with
  | still h =>
    rw [h.buffer] at hm
    exact .inl hm
  | @swap t type' hpc =>
    rw [swap_buffer (hbooks.swap_nothing hpc)] at hm
    split at hm
    · cases hm
    · exact .inl hm
  | push => exact .inl hm
  | @append n type' logMsg _ =>
    rcases mem_update_append hm with hm | ⟨rfl, rfl⟩
    · exact .inl hm
    · exact .inr (Nat.le_refl _)

theorem Behind.covered_step {s u : State} {i : Input} (h : Behind config files s)
    (hs : step config s i = some u) : Covered u := by
  refine Logger.covered_step h.books h.covered (fun t type hi hpc m hm _ => ?_) hs
  subst hi
  obtain rfl : push s t type = u := by
    simp only [step, goOn, hpc] at hs
    exact Option.some.inj hs
  rw [push_accepted, if_pos ⟨h.up.alive, h.up.async type⟩]
  exact List.mem_append_right _ hm

/-- Where `flush` leaves an `AsyncLogger`, everything older is with it. -/
theorem Behind.wait {s : State} {n : Nat} {type : LogType} {async : AsyncLogger.State Message}
    (h : Behind config files s) (hguard : Alone s (.thread (.flush n)))
    (hpc : (s.threads (.flush n)).pc = .wait type) (hflush : AsyncLogger.flush (s.async type) = some async)
    {m : Message} (hm : m ∈ s.appended type) (hold : m.index < (s.threads (.flush n)).since type)
    (htext : m.text ≠ []) : Stored (asyncSettings config type) (files type) async m := by
  refine AsyncLogger.flush_stored (h.books.sound type) hflush ?_ htext
  rcases h.covered type m hm htext with haccepted | hbuffer | ⟨t, hheld⟩
  · exact haccepted
  · have := h.taken n type (by rw [hpc]; rfl) m hbuffer
    omega
  · by_cases ht : t = .flush n
    · have hholds := (h.books.held t type m hheld).2
      rw [ht, hpc] at hholds
      cases hholds
    · have := hguard type hpc t ht m hheld htext
      omega

theorem behind_step {s u : State} {i : Input} (h : Behind config files s) (hi : i ≠ .shutdown)
    (hguard : Alone s i) (hs : step config s i = some u) : Behind config files u := by
  have hlater : ∀ {n type} {m : Message}, (s.appended type).length ≤ m.index →
      (s.threads (.flush n)).since type ≤ m.index := fun hle => (h.books.since _ _).trans hle
  refine ⟨books_step h.books hs, up_step h.up hi hs, h.covered_step hs, fun n type hpc m hm => ?_,
    fun n type hpc m hm hold htext => ?_⟩
  · have hkept : (s.threads (.flush n)).pc.taken type = true → (s.threads (.flush n)).since type ≤ m.index := by
      intro htaken
      rcases step_buffer h.books hs hm with hm | hle
      · exact h.taken n type htaken m hm
      · exact hlater hle
    cases flushes_step h.books h.up hs n with
    | still hthread =>
      rw [hthread] at hpc ⊢
      exact hkept hpc
    | called hcalled =>
      rw [hcalled] at hpc
      cases hpc
    | goes pc hgoes hsince htaken =>
      rw [hgoes] at hpc
      rw [hsince]
      rcases htaken type hpc with htaken | hempty
      · exact hkept htaken
      · rw [hempty] at hm
        cases hm
  · have hkept : (s.threads (.flush n)).pc.waited type = true → m.index < (s.threads (.flush n)).since type →
        Stored (asyncSettings config type) (files type) (u.async type) m := by
      intro hwaited hold
      rcases step_appended hs hm with hm | hle
      · exact (h.waited n type hwaited m hm hold htext).grows (step_grows hs type)
      · have := hlater (n := n) hle
        omega
    cases flushes_step h.books h.up hs n with
    | still hthread =>
      rw [hthread] at hpc hold
      exact hkept hpc hold
    | called hcalled =>
      rw [hcalled] at hpc
      cases hpc
    | goes pc hgoes hsince _ hwaited =>
      rw [hgoes] at hpc
      rw [hsince] at hold
      rcases hwaited type hpc with hwaited | ⟨rfl, hwait, hflush⟩
      · exact hkept hwaited hold
      · rcases step_appended hs hm with hm | hle
        · exact h.wait hguard hwait hflush hm hold htext
        · have := hlater (n := n) hle
          omega

/-- **`flush` is a barrier** in every run without a `shutdown` in which no other thread has older
messages in its local vectors where a call of `flush` leaves an `AsyncLogger`. -/
theorem flush_barrier (config : Config) (files : LogType → Bytes → Bytes) {is : List Input}
    (hrun : Input.shutdown ∉ is) (hguard : Meets (step config) Alone (initial files) is) :
    Always (step config) (Barrier config files) (initial files) is := by
  have hinputs : ∀ i ∈ is, i ≠ .shutdown := fun i hi heq => hrun (heq ▸ hi)
  have hbehind : Always (step config) (Behind config files) (initial files) is :=
    always_of_step (fun s i t h hg hs => behind_step h hg.1 hg.2 hs) behind_initial
      ((meets_of_mem hinputs _).and hguard)
  refine hbehind.imp fun s h n hpc type m hm hold htext => ?_
  exact h.waited n type (by rw [hpc]; rfl) m hm hold htext

/-- A thread that dispatches alone does not meet others. -/
theorem meets_alone {config : Config} {files : LogType → Bytes → Bytes} {n : Nat} {is : List Input}
    (h : ∀ t, Input.thread t ∈ is → t = .flush n) : Meets (step config) Alone (initial files) is := by
  refine meets_of_threads (G := fun _ _ => True) [.flush n] (fun t ht => List.mem_singleton.mpr (h t ht))
    ((meets_of_mem (H := fun _ => True) (fun _ _ => trivial) _)) fun s i hnone hi _ => ?_
  unfold Alone
  split
  · rename_i n'
    intro type _ t ht m hm
    have hn : Thread.flush n' = .flush n := List.mem_singleton.mp (hi _ rfl)
    rw [hnone t fun hmem => ht ((List.mem_singleton.mp hmem).trans hn.symm)] at hm
    cases hm
  · trivial

/-- Settings to run with. -/
def exampleConfig : Config := ⟨ascii "./", ascii "rpc", 100⟩

/-- A message is pushed, and `flush` hands it over and waits until it is written. -/
def flushAlone : List Input :=
  [.pushLog 0 .rpcLog (ascii "a"), .producer 0, .producer 0, .flush 0] ++ List.replicate 4 (.thread (.flush 0)) ++
    List.replicate 8 (.worker .rpcLog (ascii "20250101")) ++ List.replicate 2 (.thread (.flush 0))

/-- The call returns there. -/
example : (run (step exampleConfig) (initial fun _ _ => []) flushAlone).any
    (fun s => (s.threads (.flush 0)).pc = .returned ∧ (s.async .rpcLog).written.length = 1) = true := by
  decide +kernel

theorem flush_barrier_alone :
    Always (step exampleConfig) (Barrier exampleConfig fun _ _ => []) (initial fun _ _ => []) flushAlone :=
  flush_barrier exampleConfig (fun _ _ => []) (by decide)
    (meets_alone (n := 0) fun t ht => by simpa [flushAlone] using ht)

/-- The thread of `syncLoop` has taken a message and not handed it over, and `flush` finds nothing. -/
def flushOvertakes : List Input :=
  [.pushLog 0 .rpcLog (ascii "a"), .producer 0, .producer 0, .thread .sync, .thread .sync, .flush 0] ++
    List.replicate 6 (.thread (.flush 0))

theorem flushOvertakes_run : (run (step exampleConfig) (initial fun _ _ => []) flushOvertakes).any
    (fun s => (s.threads (.flush 0)).pc = .returned ∧ s.appended .rpcLog = [⟨0, 0, ascii "a"⟩] ∧
      (s.threads (.flush 0)).since .rpcLog = 1 ∧ (s.async .rpcLog).written = []) = true := by
  decide +kernel

/-- **`flush` is not a barrier** when another thread dispatches: it returns with nothing written. -/
theorem not_flush_barrier : Input.shutdown ∉ flushOvertakes ∧
    ¬ Always (step exampleConfig) (Barrier exampleConfig fun _ _ => []) (initial fun _ _ => []) flushOvertakes := by
  refine ⟨by decide, fun h => ?_⟩
  obtain ⟨s, hrun, hs⟩ := (Option.any_eq_true _ _).mp flushOvertakes_run
  obtain ⟨hpc, happended, hsince, hwritten⟩ := of_decide_eq_true hs
  have hbarrier := h.last hrun 0 hpc .rpcLog ⟨0, 0, ascii "a"⟩
  rw [happended, hsince] at hbarrier
  obtain ⟨written, hprefix, hmessage, -⟩ := hbarrier List.mem_cons_self (by decide) (by decide)
  rw [hwritten] at hprefix
  rw [List.prefix_nil.mp hprefix] at hmessage
  cases hmessage

end Logger

end CoroutineRpc.Comm
