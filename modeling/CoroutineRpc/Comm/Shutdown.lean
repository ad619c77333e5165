import CoroutineRpc.Comm.Barrier

/-! What `shutdown` of the `Logger` leaves written.

`shutdown` waits for the thread of `syncLoop`, dispatches once more and stops the two
`AsyncLogger`s. A message is lost if it is appended behind that, or if another thread has it in
its local vector meanwhile; and two messages of one thread change their order if the later one
is handed over while another thread has the earlier. A run in which none of this happens
delivers all messages in order (`shutdown_delivers`). -/
namespace CoroutineRpc.Comm.Logger
open Library.Transition
open AsyncLogger (shown content)
variable {config : Config} {files : LogType → Bytes → Bytes}

/-- The order of two messages that have something to write, if one thread pushed both. -/
def InOrder (m m' : Message) : Prop :=
  m.text ≠ [] → m'.text ≠ [] → m.producer = m'.producer → m.index < m'.index

instance : DecidableRel InOrder := fun _ _ => inferInstanceAs (Decidable (_ → _ → _ → _))

/-- No message comes to a log that is stopped, is handed over in front of an earlier one of its
thread, or is left behind when its log is stopped. -/
def Keeps (s : State) : Input → Prop
  | .producer n =>
    match s.producers n with
    | .append type logMsg => logMsg ≠ [] → (s.async type).stopping = false
    | _ => True
  | .thread t =>
    match (s.threads t).pc with
    | .push type => ∀ t' ≠ t, ∀ m ∈ (s.threads t).held type, ∀ m' ∈ (s.threads t').held type, InOrder m m'
    | .stop type => ∀ t', ∀ m ∈ s.buffer type ++ (s.threads t').held type, m.text = []
    | _ => True
  | _ => True

/-- All that was appended is written, each message once, those of one thread in their order, and
the files have it. -/
structure Delivers (config : Config) (files : LogType → Bytes → Bytes) (s : State) : Prop where
  all : ∀ type, ((s.async type).written.map Prod.snd).Perm (shown (asyncSettings config type) (s.appended type))
  order : ∀ type, ((s.async type).written.map Prod.snd).Pairwise fun m m' =>
    m.producer = m'.producer → m.index < m'.index
  stored : ∀ type file, (s.async type).files file =
    files type file ++ content (asyncSettings config type) (s.async type).written file

/-- `shutdown` has returned, and so have all calls that push. -/
def Finished (s : State) : Prop := (s.threads .shutdown).pc = .returned ∧ ∀ n, s.producers n = .idle

/-! ### The `AsyncLogger`s stop -/

theorem async_returned {type : LogType} {async async' : AsyncLogger.State Message}
    {j : AsyncLogger.Input Message} (hj : AsyncLogger.step (asyncSettings config type) async j = some async')
    (h : async.stopper = .returned) : async'.stopper = .returned := by
  cases j with
  | push buffer =>
    obtain rfl := Option.some.inj hj
    unfold AsyncLogger.push
    split
    · exact h
    split <;> exact h
  | flush =>
    obtain ⟨-, -, rfl⟩ := AsyncLogger.flush_some hj
    rw [(AsyncLogger.fflush_same async).stopper, h]
  | stop =>
    simp only [AsyncLogger.step, AsyncLogger.stop, h] at hj
    rw [← Option.some.inj hj, h]
  | stopper =>
    simp only [AsyncLogger.step, AsyncLogger.stopper, h] at hj
    cases hj
  | worker date => rw [(AsyncLogger.execute_kept hj).stopper, h]
  | spill n =>
    obtain rfl := Option.some.inj hj
    rw [(AsyncLogger.spill_same async n).stopper, h]

theorem step_returned {s u : State} {i : Input} (hs : step config s i = some u) {type : LogType}
    (h : (s.async type).stopper = .returned) : (u.async type).stopper = .returned := by
  rcases step_async hs type with heq | ⟨j, hj⟩
  · rw [heq, h]
  · exact async_returned hj h

theorem step_accepted {s u : State} {i : Input} (hs : step config s i = some u) (type : LogType) :
    (s.async type).accepted <+: (u.async type).accepted := by
  rcases step_async hs type with heq | ⟨j, hj⟩
  · rw [heq]
  · exact AsyncLogger.step_accepted hj

/-- The `AsyncLogger` is stopped where a thread stands. -/
def Pc.closed (type : LogType) : Pc → Bool
  | .stop .appLog | .stopping .appLog => type = .rpcLog
  | .reset => true
  | _ => false

/-- How far `shutdown` is. -/
structure Placed (s : State) : Prop where
  wait : ∀ type, (s.threads .shutdown).pc ≠ .wait type
  closed : ∀ t type, (s.threads t).pc.closed type = true → (s.async type).stopper = .returned
  returned : (s.threads .shutdown).pc = .returned → ∀ type, (s.async type).stopper = .returned
  alive : s.alive = false → ∀ type, (s.async type).stopper = .returned

theorem placed_initial : Placed (initial files) where
  wait _ := Pc.noConfusion
  closed _ _ := nofun
  returned := nofun
  alive := nofun

theorem Placed.same {s u : State} (h : Placed s) (hthreads : u.threads = s.threads) (halive : u.alive = s.alive)
    (hasync : ∀ type, (s.async type).stopper = .returned → (u.async type).stopper = .returned) : Placed u where
  wait := hthreads ▸ h.wait
  closed t type hpc := hasync type (h.closed t type (hthreads ▸ hpc))
  returned hpc type := hasync type (h.returned (hthreads ▸ hpc) type)
  alive hdead type := hasync type (h.alive (halive ▸ hdead) type)

/-- A thread goes on. -/
theorem Placed.goes {s u : State} (h : Placed s) (t : Thread) (pc : Pc)
    (hpc : ∀ t', (u.threads t').pc = if t' = t then pc else (s.threads t').pc)
    (hasync : ∀ type, (s.async type).stopper = .returned → (u.async type).stopper = .returned)
    (hwait : t = .shutdown → ∀ type, pc ≠ .wait type)
    (hclosed : ∀ type, pc.closed type = true → (s.async type).stopper = .returned)
    (hreturned : t = .shutdown → pc = .returned → ∀ type, (s.async type).stopper = .returned)
    (halive : u.alive = false → ∀ type, (s.async type).stopper = .returned) : Placed u where
  wait type := by
    rw [hpc]
    split
    · exact hwait (Eq.symm ‹_›) type
    · exact h.wait type
  closed t' type hclosed' := by
    apply hasync
    rw [hpc] at hclosed'
    split at hclosed'
    · exact hclosed type hclosed'
    · exact h.closed t' type hclosed'
  returned hreturned' type := by
    apply hasync
    rw [hpc] at hreturned'
    split at hreturned'
    · exact hreturned (Eq.symm ‹_›) hreturned' type
    · exact h.returned hreturned' type
  alive hdead type := hasync type (halive hdead type)

theorem placed_step {s u : State} {i : Input} (h : Placed s) (hs : step config s i = some u) : Placed u := by
  have hasync : ∀ type, (s.async type).stopper = .returned → (u.async type).stopper = .returned :=
    fun _ => step_returned hs
  have hset : ∀ (t t' : Thread) (d : Dispatcher),
      (Function.update s.threads t d t').pc = if t' = t then d.pc else (s.threads t').pc := by
    intro t t' d
    rw [Function.update_apply]
    split <;> rfl
  cases step_moves hs with
  | ignored => exact h
  | test => exact h.same rfl rfl hasync
  | append => exact h.same rfl rfl hasync
  | stopper => exact h.same rfl rfl hasync
  | worker => exact h.same rfl rfl hasync
  | spill => exact h.same rfl rfl hasync
  | @flush n =>
    exact h.goes (.flush n) (.swap .rpcLog) (fun t' => hset _ t' _) hasync (by nofun) (by nofun) (by nofun) h.alive
  | shutdown => exact h.goes .shutdown .join (fun t' => hset _ t' _) hasync (by nofun) (by nofun) (by nofun) h.alive
  | @goes t pc hgoes =>
    refine h.goes t pc (fun t' => hset _ t' _) hasync ?_ ?_ ?_ h.alive
    · rintro rfl type
      cases hgoes with
      | leave ht => cases ht
      | dispatch ht => cases ht
      | joined => exact Pc.noConfusion
      | noWait hpc => exact absurd hpc (h.wait _)
      | @stopped type' => cases type' <;> exact Pc.noConfusion
    · intro type hclosed
      cases hgoes with
      | leave => cases hclosed
      | dispatch => cases hclosed
      | joined => cases hclosed
      | @noWait type' => cases type' <;> cases hclosed
      | @stopped type' hpc hstopper =>
        by_cases htype : type = type'
        · exact htype ▸ hstopper
        · apply h.closed t
          rw [hpc]
          cases type <;> cases type' <;> first | rfl | exact absurd rfl htype | cases hclosed
    · rintro rfl hreturned
      cases hgoes with
      | leave ht => cases ht
      | dispatch => cases hreturned
      | joined => cases hreturned
      | noWait hpc => exact absurd hpc (h.wait _)
      | @stopped type' => cases type' <;> cases hreturned
  | @swap t type =>
    refine h.goes t (afterSwap type) (fun t' => hset _ t' _) hasync ?_ ?_ ?_ h.alive
    · intro _ _
      cases type <;> exact Pc.noConfusion
    · intro _ hclosed
      cases type <;> cases hclosed
    · intro _ hreturned
      cases type <;> cases hreturned
  | @push t type =>
    refine h.goes t (afterPush t type) (fun t' => hset _ t' _) hasync ?_ ?_ ?_ h.alive
    · rintro rfl _
      cases type <;> exact Pc.noConfusion
    · intro _ hclosed
      cases type <;> cases t <;> cases hclosed
    · rintro rfl hreturned
      cases type <;> cases hreturned
  | @wait t type async hpc =>
    refine h.goes t (afterWait type) (fun t' => hset _ t' _) hasync ?_ ?_ ?_ h.alive
    · rintro rfl
      exact absurd hpc (h.wait type)
    · intro _ hclosed
      cases type <;> cases hclosed
    · rintro rfl
      exact absurd hpc (h.wait type)
  | @stop t type async hpc =>
    refine h.goes t (.stopping type) (fun t' => hset _ t' _) hasync (by nofun) (fun type' hclosed => ?_) (by nofun)
      h.alive
    apply h.closed t
    rw [hpc]
    cases type <;> exact hclosed
  | @reset t hpc =>
    have hall : ∀ type, (s.async type).stopper = .returned := fun type => h.closed t type (by rw [hpc]; rfl)
    exact h.goes t .returned (fun t' => hset _ t' _) hasync (by nofun) (by nofun) (fun _ _ => hall) fun _ => hall

/-! ### Nothing is left behind -/

/-- What of a log was handed over, what a thread holds of it and what is in its buffer. -/
def line (s : State) (t : Thread) (type : LogType) : List Message :=
  (s.async type).accepted.flatten ++ ((s.threads t).held type ++ s.buffer type)

/-- What a run keeps that meets `Keeps`. -/
structure Whole (config : Config) (files : LogType → Bytes → Bytes) (s : State) : Prop where
  books : Books config files s
  placed : Placed s
  covered : Covered s
  order : ∀ t type, (line s t type).Pairwise InOrder
  complete : ∀ type, (s.async type).stopping = true → ∀ m ∈ s.appended type, m.text ≠ [] →
    m ∈ (s.async type).accepted.flatten

theorem whole_initial : Whole config files (initial files) where
  books := books_initial
  placed := placed_initial
  covered _ := nofun
  order _ _ := .nil
  complete _ := nofun

theorem Books.index_lt {s : State} (h : Books config files s) {type : LogType} {m : Message}
    (hm : m ∈ s.appended type) : m.index < (s.appended type).length := by
  obtain ⟨k, hk⟩ := List.mem_iff_getElem?.mp hm
  rw [h.index type k m hk]
  exact (List.getElem?_eq_some_iff.mp hk).1

theorem Books.line_appended {s : State} (h : Books config files s) {t : Thread} {type : LogType} {m : Message}
    (hm : m ∈ line s t type) : m ∈ s.appended type := by
  rcases List.mem_append.mp hm with hm | hm
  · exact h.accepted type m hm
  rcases List.mem_append.mp hm with hm | hm
  · exact (h.held t type m hm).1
  · exact h.buffer type m hm

theorem stopper_stopping {async async' : AsyncLogger.State Message} (h : AsyncLogger.stopper async = some async') :
    async'.stopping = async.stopping := by
  unfold AsyncLogger.stopper at h
  split at h
  · rw [← Option.some.inj h]
  · rw [← Option.some.inj h]
    exact (AsyncLogger.closeFile_same _).stopping
  · cases h

theorem Books.returned_stopping {s : State} (h : Books config files s) {type : LogType}
    (hreturned : (s.async type).stopper = .returned) : (s.async type).stopping = true := by
  have hsound := h.sound type
  have hpc := hsound.stopper (.inr hreturned)
  exact (hsound.leaving (by rw [hpc]; rfl)).1

/-- Who is stopped already stays so, and `stop` is called at one place. -/
theorem step_stopping {s u : State} {i : Input} (hs : step config s i = some u) {type : LogType}
    (h : (u.async type).stopping = true) :
    (s.async type).stopping = true ∨ ∃ t, i = .thread t ∧ (s.threads t).pc = .stop type := by
  have hset : ∀ type' async, async.stopping = (s.async type').stopping →
      (Function.update s.async type' async type).stopping = true → (s.async type).stopping = true := by
    intro type' async heq hstopping
    by_cases htype : type = type'
    · obtain rfl := htype
      rw [Function.update_self, heq] at hstopping
      exact hstopping
    · rw [Function.update_of_ne htype] at hstopping
      exact hstopping
  cases step_moves hs with
  | ignored => exact .inl h
  | test => exact .inl h
  | append => exact .inl h
  | flush => exact .inl h
  | shutdown => exact .inl h
  | goes => exact .inl h
  | swap => exact .inl h
  | reset => exact .inl h
  | push =>
    refine .inl (hset _ _ ?_ h)
    split
    · exact push_stopping ..
    · rfl
  | wait _ hflush =>
    obtain ⟨-, -, rfl⟩ := AsyncLogger.flush_some hflush
    exact .inl (hset _ _ (AsyncLogger.fflush_same _).stopping h)
  | @stop t type' async hpc =>
    by_cases htype : type = type'
    · exact .inr ⟨t, rfl, htype ▸ hpc⟩
    · refine .inl ?_
      have hother : (Function.update s.async type' async type).stopping = true := h
      rw [Function.update_of_ne htype] at hother
      exact hother
  | stopper _ hstopper => exact .inl (hset _ _ (stopper_stopping hstopper) h)
  | worker hasync => exact .inl (hset _ _ (AsyncLogger.execute_kept hasync).stopping h)
  | spill type' n => exact .inl (hset type' _ (AsyncLogger.spill_same _ n).stopping h)

theorem Whole.complete_step {s u : State} {i : Input} (h : Whole config files s) (hguard : Keeps s i)
    (hs : step config s i = some u) (type : LogType) (hstopping : (u.async type).stopping = true) :
    ∀ m ∈ u.appended type, m.text ≠ [] → m ∈ (u.async type).accepted.flatten := by
  have hgrows : ∀ {m}, m ∈ (s.async type).accepted.flatten → m ∈ (u.async type).accepted.flatten := by
    intro m hm
    obtain ⟨later, hlater⟩ := step_accepted hs type
    rw [← hlater, List.flatten_append]
    exact List.mem_append_left _ hm
  have hold : ∀ m ∈ s.appended type, m.text ≠ [] → m ∈ (s.async type).accepted.flatten := by
    rcases step_stopping hs hstopping with hstopped | ⟨t, rfl, hpc⟩
    · exact h.complete type hstopped
    · simp only [Keeps, hpc] at hguard
      intro m hm htext
      rcases h.covered type m hm htext with haccepted | hbuffer | ⟨t', hheld⟩
      · exact haccepted
      · exact absurd (hguard t m (List.mem_append_left _ hbuffer)) htext
      · exact absurd (hguard t' m (List.mem_append_right _ hheld)) htext
  intro m hm htext
  cases step_carries hs with
  | still hstill =>
    rw [hstill.appended] at hm
    exact hgrows (hold m hm htext)
  | swap => exact hgrows (hold m hm htext)
  | push => exact hgrows (hold m hm htext)
  | @append n type' logMsg hproducer =>
    simp only [append, Function.update_apply] at hm
    split at hm
    · rename_i htype
      obtain rfl := htype
      rcases List.mem_append.mp hm with hm | hm
      · exact hgrows (hold m hm htext)
      · rw [List.mem_singleton.mp hm] at htext
        simp only [Keeps, hproducer] at hguard
        have hrunning := hguard htext
        have hstopped : (s.async type).stopping = true := hstopping
        rw [hrunning] at hstopped
        cases hstopped
    · exact hgrows (hold m hm htext)

/-! ### And none passes another -/

theorem pairwise_passed {α : Type} {R : α → α → Prop} {accepted held held' buffer : List α}
    (h : (accepted ++ (held ++ buffer)).Pairwise R) (h' : (accepted ++ (held' ++ buffer)).Pairwise R)
    (hcross : ∀ a ∈ held, ∀ b ∈ held', R a b) : ((accepted ++ held) ++ (held' ++ buffer)).Pairwise R := by
  rw [← List.append_assoc] at h
  obtain ⟨hfirst, hbuffer, hlast⟩ := List.pairwise_append.mp h
  obtain ⟨-, hsecond, hlast'⟩ := List.pairwise_append.mp h'
  refine List.pairwise_append.mpr ⟨hfirst, hsecond, fun a ha b hb => ?_⟩
  rcases List.mem_append.mp hb with hb' | hb'
  · rcases List.mem_append.mp ha with ha | ha
    · exact hlast' a ha b hb
    · exact hcross a ha b hb'
  · exact hlast a ha b hb'

theorem Whole.order_step {s u : State} {i : Input} (h : Whole config files s) (hguard : Keeps s i)
    (hs : step config s i = some u) (t : Thread) (type : LogType) : (line u t type).Pairwise InOrder := by
  have horder := h.order t type
  cases step_carries hs with
  | still hstill =>
    unfold line
    rw [hstill.accepted, hstill.held, hstill.buffer]
    exact horder
  | @append n type' logMsg _ =>
    unfold line
    simp only [append, Function.update_apply]
    split
    · rename_i htype
      obtain rfl := htype
      show ((s.async type).accepted.flatten ++ ((s.threads t).held type ++ (s.buffer type ++ _))).Pairwise InOrder
      rw [← List.append_assoc, ← List.append_assoc, List.append_assoc (s.async type).accepted.flatten]
      refine List.pairwise_append.mpr ⟨horder, List.pairwise_singleton .., fun m hm m' hm' => ?_⟩
      rw [List.mem_singleton.mp hm']
      exact fun _ _ _ => h.books.index_lt (h.books.line_appended hm)
    · exact horder
  | @swap t' type' hpc =>
    have hnone := h.books.swap_nothing hpc
    unfold line
    rw [swap_held, swap_buffer hnone]
    show ((s.async type).accepted.flatten ++ _).Pairwise InOrder
    by_cases htype : type = type'
    · obtain rfl := htype
      rw [if_pos rfl, List.append_nil]
      refine horder.sublist ((List.Sublist.refl _).append ?_)
      split
      · exact List.sublist_append_right ..
      · exact List.sublist_append_left ..
    · rw [if_neg htype, if_neg fun hboth => htype hboth.2]
      exact horder
  | @push t' type' hpc =>
    unfold line
    rw [push_held]
    show (_ ++ (_ ++ s.buffer type)).Pairwise InOrder
    by_cases htype : type = type'
    swap
    · rw [push_async_other s t' htype, if_neg fun hboth => htype hboth.2]
      exact horder
    obtain rfl := htype
    rw [push_accepted]
    simp only [Keeps, hpc] at hguard
    by_cases ht : t = t'
    · obtain rfl := ht
      have hself : t = t ∧ type = type := ⟨rfl, rfl⟩
      rw [if_pos hself, List.nil_append, List.append_assoc]
      refine horder.sublist ((List.Sublist.refl _).append ?_)
      split
      · exact List.Sublist.refl _
      · exact List.sublist_append_right ..
    · have hother : ¬ (t = t' ∧ type = type) := fun hboth => ht hboth.1
      rw [if_neg hother]
      split
      · exact pairwise_passed (h.order t' type) horder fun m hm m' hm' => hguard t ht m hm m' hm'
      · rw [List.append_nil]
        exact horder

theorem Whole.covered_step {s u : State} {i : Input} (h : Whole config files s)
    (hs : step config s i = some u) : Covered u := by
  refine Logger.covered_step h.books h.covered (fun t type hi hpc m hm htext => ?_) hs
  subst hi
  obtain rfl : push s t type = u := by
    simp only [step, goOn, hpc] at hs
    exact Option.some.inj hs
  rw [push_accepted]
  cases hstopping : (s.async type).stopping with
  | true => exact List.mem_append_left _ (h.complete type hstopping m (h.books.held t type m hm).1 htext)
  | false =>
    have halive : s.alive = true := by
      cases halive : s.alive with
      | true => rfl
      | false =>
        have hreturned := h.books.returned_stopping (h.placed.alive halive type)
        rw [hstopping] at hreturned
        cases hreturned
    rw [if_pos ⟨halive, rfl⟩]
    exact List.mem_append_right _ hm

theorem whole_step {s u : State} {i : Input} (h : Whole config files s) (hguard : Keeps s i)
    (hs : step config s i = some u) : Whole config files u where
  books := books_step h.books hs
  placed := placed_step h.placed hs
  covered := h.covered_step hs
  order := h.order_step hguard hs
  complete := h.complete_step hguard hs

theorem Books.nodup_appended {s : State} (h : Books config files s) (type : LogType) :
    (s.appended type).Nodup := by
  refine List.pairwise_iff_getElem.mpr fun j k hj hk hjk heq => ?_
  have hindex := h.index type j _ (List.getElem?_eq_getElem hj)
  rw [heq, h.index type k _ (List.getElem?_eq_getElem hk)] at hindex
  omega

theorem Whole.all_delivered {s : State} (h : Whole config files s) (hfinished : Finished s) :
    Delivers config files s := by
  have hreturned := h.placed.returned hfinished.1
  have hwritten := fun type => AsyncLogger.stop_delivered (h.books.sound type) (hreturned type)
  have hshown : ∀ {type : LogType} {l : List Message} {m : Message},
      m ∈ shown (asyncSettings config type) l ↔ m ∈ l ∧ m.text ≠ [] := by
    intro type l m
    exact List.mem_filter.trans (and_congr_right fun _ => decide_eq_true_iff)
  have horder : ∀ type, ((s.async type).written.map Prod.snd).Pairwise fun m m' =>
      m.producer = m'.producer → m.index < m'.index := by
    intro type
    rw [(hwritten type).1]
    have haccepted := (List.pairwise_append.mp (h.order .shutdown type)).1
    refine (haccepted.filter _).imp_of_mem fun hm hm' hinOrder => ?_
    exact hinOrder (hshown.mp hm).2 (hshown.mp hm').2
  refine ⟨fun type => ?_, horder, fun type => (hwritten type).2.stored⟩
  refine (List.perm_ext_iff_of_nodup ?_ ((h.books.nodup_appended type).filter _)).mpr fun m => ?_
  · refine (horder type).imp fun {m m'} hlt heq => ?_
    have := hlt (congrArg _ heq)
    rw [heq] at this
    omega
  · rw [(hwritten type).1]
    refine hshown.trans (Iff.trans (and_congr_left fun htext => ?_) hshown.symm)
    exact ⟨fun hm => h.books.accepted type m hm,
      fun hm => h.complete type (h.books.returned_stopping (hreturned type)) m hm htext⟩

/-- **`shutdown` delivers all messages in order** in every run that keeps them. -/
theorem shutdown_delivers (config : Config) (files : LogType → Bytes → Bytes) {is : List Input}
    (hguard : Meets (step config) Keeps (initial files) is) :
    Always (step config) (fun s => Finished s → Delivers config files s) (initial files) is :=
  (always_of_step (fun _ _ _ => whole_step) whole_initial hguard).imp fun _ h => h.all_delivered

/-! ### Runs -/

/-- `Keeps`, where only the given threads hold messages. -/
def keepsAmong (ts : List Thread) (s : State) : Input → Bool
  | .producer n =>
    match s.producers n with
    | .append type logMsg => logMsg ≠ [] → (s.async type).stopping = false
    | _ => true
  | .thread t =>
    match (s.threads t).pc with
    | .push type =>
      ∀ t' ∈ ts, t' ≠ t → ∀ m ∈ (s.threads t).held type, ∀ m' ∈ (s.threads t').held type, InOrder m m'
    | .stop type => ∀ t' ∈ ts, ∀ m ∈ s.buffer type ++ (s.threads t').held type, m.text = []
    | _ => true
  | _ => true

theorem keeps_of_among {ts : List Thread} {s : State} {i : Input}
    (hnone : ∀ t ∉ ts, ∀ type, (s.threads t).held type = []) (hi : ∀ t, i = .thread t → t ∈ ts)
    (h : keepsAmong ts s i = true) : Keeps s i := by
  cases i with
  | producer n =>
    simp only [keepsAmong] at h
    simp only [Keeps]
    split at h
    · exact of_decide_eq_true h
    · trivial
  | thread t =>
    simp only [keepsAmong] at h
    simp only [Keeps]
    split at h
    · rename_i type hpc
      intro t' ht' m hm m' hm'
      by_cases hmem : t' ∈ ts
      · exact of_decide_eq_true h t' hmem ht' m hm m' hm'
      · rw [hnone t' hmem type] at hm'
        cases hm'
    · rename_i type hpc
      intro t' m hm
      by_cases hmem : t' ∈ ts
      · exact of_decide_eq_true h t' hmem m hm
      · rw [hnone t' hmem type, List.append_nil] at hm
        exact of_decide_eq_true h t (hi t rfl) m (List.mem_append_left _ hm)
    · trivial
  | pushLog => trivial
  | flush => trivial
  | shutdown => trivial
  | worker => trivial
  | spill => trivial

/-- Messages are kept where they are among the threads that move. -/
theorem meets_keeps {is : List Input} (ts : List Thread) (hts : ∀ t, Input.thread t ∈ is → t ∈ ts)
    (h : Meets (step config) (fun s i => keepsAmong ts s i = true) (initial files) is) :
    Meets (step config) Keeps (initial files) is :=
  meets_of_threads ts hts h fun _ _ => keeps_of_among

/-- A thread that pushes nothing is in no call. -/
theorem step_idle {s u : State} {i : Input} {n : Nat} (hi : ∀ type logMsg, i ≠ .pushLog n type logMsg)
    (h : s.producers n = .idle) (hs : step config s i = some u) : u.producers n = .idle := by
  cases step_moves hs with
  | @test _ n' producer hcall =>
    rcases hcall with rfl | ⟨type, logMsg, rfl⟩
    · have hne : n ≠ n' := by
        rintro rfl
        simp only [step, pushOn, h] at hs
        cases hs
      exact (Function.update_of_ne hne ..).trans h
    · have hne : n ≠ n' := fun heq => hi type logMsg (heq ▸ rfl)
      exact (Function.update_of_ne hne ..).trans h
  | @append n' type logMsg hproducer =>
    have hne : n ≠ n' := by
      rintro rfl
      rw [h] at hproducer
      cases hproducer
    exact (Function.update_of_ne hne ..).trans h
  | ignored => exact h
  | flush => exact h
  | shutdown => exact h
  | goes => exact h
  | swap => exact h
  | push => exact h
  | wait => exact h
  | stop => exact h
  | stopper => exact h
  | reset => exact h
  | worker => exact h
  | spill => exact h

theorem run_idle {s : State} {is : List Input} {n : Nat} (hi : ∀ type logMsg, Input.pushLog n type logMsg ∉ is)
    (hr : run (step config) (initial files) is = some s) : s.producers n = .idle := by
  have hinputs : ∀ i ∈ is, ∀ type logMsg, i ≠ .pushLog n type logMsg :=
    fun i hmem type logMsg heq => hi type logMsg (heq ▸ hmem)
  exact (always_of_step (P := fun s => s.producers n = .idle) (fun _ _ _ h hi => step_idle hi h) rfl
    (meets_of_mem hinputs _)).last hr

/-- The calls that `pushRpcLog` takes. -/
def pushes (n : Nat) (logMsg : Bytes) : List Input := [.pushLog n .rpcLog logMsg, .producer n, .producer n]

/-- `shutdown` is called and dispatches. -/
def shutsDown : List Input := [.shutdown, .thread .sync] ++ List.replicate 5 (.thread .shutdown)

/-- It stops the `AsyncLogger`s, whose workers take so many steps. -/
def stops (steps : Nat) : List Input :=
  [.thread .shutdown] ++ List.replicate steps (.worker .rpcLog (ascii "20250101")) ++
    List.replicate 4 (.thread .shutdown) ++ List.replicate 3 (.worker .appLog (ascii "20250101")) ++
    List.replicate 4 (.thread .shutdown)

/-- The thread of `syncLoop` hands over the first message, and `shutdown` the second. -/
def orderly : List Input :=
  pushes 0 (ascii "a") ++ List.replicate 5 (.thread .sync) ++ pushes 0 (ascii "b") ++ shutsDown ++ stops 18

theorem shutdown_delivers_orderly :
    Always (step exampleConfig) (fun s => Finished s → Delivers exampleConfig (fun _ _ => []) s)
      (initial fun _ _ => []) orderly :=
  shutdown_delivers exampleConfig (fun _ _ => []) (meets_keeps [.sync, .shutdown]
    (fun t ht => by simpa [orderly, pushes, shutsDown, stops] using ht) (by decide +kernel))

/-- A call has passed its tests before `shutdown` is called, and appends behind it. -/
def comesLate : List Input :=
  [.pushLog 0 .rpcLog (ascii "a"), .producer 0] ++ shutsDown ++ stops 3 ++ [.producer 0]

/-- A call of `flush` has taken a message that `shutdown` then does not find. -/
def leftBehind : List Input :=
  pushes 0 (ascii "a") ++ [.flush 0, .thread (.flush 0)] ++ shutsDown ++ stops 3

/-- A call of `flush` has taken a message, and the thread of `syncLoop` hands over the next. -/
def passedBy : List Input :=
  pushes 0 (ascii "a") ++ [.flush 0, .thread (.flush 0)] ++ pushes 0 (ascii "b") ++
    List.replicate 5 (.thread .sync) ++ List.replicate 2 (.thread (.flush 0)) ++ shutsDown ++ stops 18

/-- What the first log has written and was given where `shutdown` and the calls of a thread have returned. -/
def writtenAt (is : List Input) : Option (List Message × List Message) :=
  (run (step exampleConfig) (initial fun _ _ => []) is).bind fun s =>
    if (s.threads .shutdown).pc = .returned ∧ s.producers 0 = .idle then
      some ((s.async .rpcLog).written.map Prod.snd, s.appended .rpcLog)
    else none

example : writtenAt orderly =
    some ([⟨0, 0, ascii "a"⟩, ⟨0, 1, ascii "b"⟩], [⟨0, 0, ascii "a"⟩, ⟨0, 1, ascii "b"⟩]) := by
  decide +kernel

/-- Some thread alone pushes, and what is written there is as `Delivers` asks. -/
theorem writtenAt_delivers {is : List Input} {written appended : List Message}
    (h : writtenAt is = some (written, appended)) (hi : ∀ n type logMsg, Input.pushLog n type logMsg ∈ is → n = 0)
    (hdelivers : Always (step exampleConfig) (fun s => Finished s → Delivers exampleConfig (fun _ _ => []) s)
      (initial fun _ _ => []) is) :
    written.Perm (shown (asyncSettings exampleConfig .rpcLog) appended) ∧
      written.Pairwise fun m m' => m.producer = m'.producer → m.index < m'.index := by
  obtain ⟨s, hrun, h⟩ := Option.bind_eq_some_iff.mp h
  split at h
  · rename_i hreturned
    obtain ⟨rfl, rfl⟩ := Prod.mk.inj (Option.some.inj h)
    have hfinished : Finished s := by
      refine ⟨hreturned.1, fun n => ?_⟩
      by_cases hn : n = 0
      · exact hn ▸ hreturned.2
      · exact run_idle (fun type logMsg hmem => hn (hi n type logMsg hmem)) hrun
    have hs := hdelivers.last hrun hfinished
    exact ⟨hs.all .rpcLog, hs.order .rpcLog⟩
  · cases h

theorem comesLate_written : writtenAt comesLate = some ([], [⟨0, 0, ascii "a"⟩]) := by decide +kernel

theorem leftBehind_written : writtenAt leftBehind = some ([], [⟨0, 0, ascii "a"⟩]) := by decide +kernel

theorem passedBy_written : writtenAt passedBy =
    some ([⟨0, 1, ascii "b"⟩, ⟨0, 0, ascii "a"⟩], [⟨0, 0, ascii "a"⟩, ⟨0, 1, ascii "b"⟩]) := by
  decide +kernel

/-- **`shutdown` does not deliver all messages in order**: it loses one that is appended behind its
dispatch, and one that a call of `flush` has, and it leaves two in the wrong order. -/
theorem not_shutdown_delivers :
    ¬ Always (step exampleConfig) (fun s => Finished s → Delivers exampleConfig (fun _ _ => []) s)
        (initial fun _ _ => []) comesLate ∧
      ¬ Always (step exampleConfig) (fun s => Finished s → Delivers exampleConfig (fun _ _ => []) s)
        (initial fun _ _ => []) leftBehind ∧
      ¬ Always (step exampleConfig) (fun s => Finished s → Delivers exampleConfig (fun _ _ => []) s)
        (initial fun _ _ => []) passedBy := by
  refine ⟨?_, ?_, ?_⟩ <;> intro hdelivers
  · have hproducer : ∀ n type logMsg, Input.pushLog n type logMsg ∈ comesLate → n = 0 := by
      simp +contextual [comesLate, shutsDown, stops]
    cases (writtenAt_delivers comesLate_written hproducer hdelivers).1.nil_eq
  · have hproducer : ∀ n type logMsg, Input.pushLog n type logMsg ∈ leftBehind → n = 0 := by
      simp +contextual [leftBehind, pushes, shutsDown, stops]
    cases (writtenAt_delivers leftBehind_written hproducer hdelivers).1.nil_eq
  · have hproducer : ∀ n type logMsg, Input.pushLog n type logMsg ∈ passedBy → n = 0 := by
      simp +contextual [passedBy, pushes, shutsDown, stops]
      omega
    have horder := (writtenAt_delivers passedBy_written hproducer hdelivers).2
    revert horder
    decide

end CoroutineRpc.Comm.Logger
