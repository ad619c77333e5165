import CoroutineRpc.Net.Loop

/-! No stale resumption on one thread.

The loop keeps its first ready coroutine for the next iteration, and a batch or the queue
keeps a descriptor until its turn. `Timely` says which steps do not let either grow old: a
callback leaves `first_coroutine` alone, and a hook does not wait for a descriptor whose
event is still to be handled. -/
namespace CoroutineRpc.Net.Loop
open Library.Transition

/-- The coroutine was in the hook call that registered the descriptor. -/
def Wakeup.Fresh {ρ : Type} (u : Wakeup ρ) : Prop := ∃ h, u.place = .hook h ∧ u.cause = some h.ticket

/-- The descriptor of an event that would resume a coroutine. -/
def Report.due : Report → Option Int
  | .io fd events => if events.epollin || events.epollout then some fd else none
  | _ => none

theorem Report.fd_of_due {report : Report} {fd : Int} (h : report.due = some fd) :
    report.fd = some fd := by
  cases report with
  | io d events => exact (Option.ite_none_right_eq_some.mp h).2
  | wakeup => cases h
  | timer => cases h

def Pc.batch : Pc → Batch
  | .events batch => batch
  | .timer batch => batch
  | .resumedDirectly batch => batch
  | _ => []

/-- A coroutine was resumed and `first_coroutine` is to be cleared. -/
def Pc.Clearing : Pc → Prop
  | .resumedFirst => True
  | .resumedDirectly _ => True
  | _ => False

/-- `first_coroutine` is null. -/
def Pc.Cleared : Pc → Prop
  | .outside => True
  | .queue => True
  | .tasks => True
  | _ => False

namespace World
variable {κ : Type}

def NoStale (w : World Unit κ) : Prop := ∀ u ∈ w.wakeups, u.Fresh

/-- The descriptors whose events are still to be handled. -/
def due (w : World Unit κ) : List Int :=
  ((w.threads ()).pc.batch.map Prod.fst).filterMap Report.due ++ w.queue.map Prod.fst

def Timely (w : World Unit κ) : Input Unit κ → Prop
  | .callback _ c => (w.threads ()).firstCoroutine.map Prod.fst ≠ some c
  | .hook _ fd _ => fd ∉ w.due
  | _ => True

instance [DecidableEq κ] (w : World Unit κ) : DecidablePred w.Timely
  | .callback _ c => inferInstanceAs (Decidable (_ ≠ some c))
  | .hook _ fd _ => inferInstanceAs (Decidable (fd ∉ w.due))
  | .advance _ | .leave _ | .poll _ _ | .pollError _ | .hookReturn _ _ | .yield _ | .quit _
  | .unregister _ _ | .connection _ _ => isTrue trivial

/-! ### What is remembered is what is -/

/-- An `FdEvent` has a coroutine only while it waits in the last hook call on the
descriptor, events still to be handled are of that call, and `first_coroutine` still waits. -/
structure UpToDate (w : World Unit κ) : Prop where
  owner : ∀ fd c, (w.registry.fdEvents fd).coroutine = some c →
    ∃ event ticket, w.place c = .hook ⟨fd, event, ticket⟩ ∧ w.registrant fd = some ticket
  current : ∀ c, (w.threads ()).current = some c → w.place c = .running ()
  batch : ∀ report cause fd, (report, cause) ∈ (w.threads ()).pc.batch → report.due = some fd →
    cause = w.registrant fd
  queue : ∀ fd cause, (fd, cause) ∈ w.queue → cause = w.registrant fd
  first : ∀ c cause, (w.threads ()).firstCoroutine = some (c, cause) →
    (w.threads ()).pc.Clearing ∨ ∃ h, w.place c = .hook h ∧ cause = some h.ticket
  cleared : (w.threads ()).pc.Cleared → (w.threads ()).firstCoroutine = none
  noStale : w.NoStale

theorem upToDate_init : UpToDate ({} : World Unit κ) where
  owner _ _ := nofun
  current _ := nofun
  batch _ _ _ := nofun
  queue _ _ := nofun
  first _ _ := nofun
  cleared _ := rfl
  noStale _ := nofun

/-- The coroutine of a descriptor waits in the descriptor's last hook call. -/
theorem UpToDate.waits {w : World Unit κ} (h : UpToDate w) {fd : Int} {c : κ} {cause : Option Nat}
    (hcor : (w.registry.fdEvents fd).coroutine = some c) (hcause : cause = w.registrant fd) :
    ∃ k, w.place c = .hook k ∧ cause = some k.ticket := by
  obtain ⟨event, ticket, hk, hregistrant⟩ := h.owner fd c hcor
  exact ⟨_, hk, hcause.trans hregistrant⟩

/-- The loop may move on while no coroutine moves and no hook is called. -/
theorem UpToDate.of_eq {w w' : World Unit κ} (h : UpToDate w)
    (hcor : ∀ fd, (w'.registry.fdEvents fd).coroutine = (w.registry.fdEvents fd).coroutine)
    (hplace : w'.place = w.place) (hregistrant : w'.registrant = w.registrant)
    (hwakeups : w'.wakeups = w.wakeups) (hcurrent : (w'.threads ()).current = (w.threads ()).current)
    (hbatch : ∀ report cause fd, (report, cause) ∈ (w'.threads ()).pc.batch → report.due = some fd →
      (report, cause) ∈ (w.threads ()).pc.batch ∨ cause = w.registrant fd)
    (hqueue : ∀ fd cause, (fd, cause) ∈ w'.queue → (fd, cause) ∈ w.queue ∨ cause = w.registrant fd)
    (hfirst : ∀ c cause, (w'.threads ()).firstCoroutine = some (c, cause) →
      (w'.threads ()).pc.Clearing ∨ ∃ k, w.place c = .hook k ∧ cause = some k.ticket)
    (hcleared : (w'.threads ()).pc.Cleared → (w'.threads ()).firstCoroutine = none) : UpToDate w' where
  owner fd c hc := by
    rw [hcor] at hc
    rw [hplace, hregistrant]
    exact h.owner fd c hc
  current c hc := by
    rw [hcurrent] at hc
    rw [hplace]
    exact h.current c hc
  batch report cause fd hin hdue := by
    rw [hregistrant]
    exact (hbatch report cause fd hin hdue).elim (fun hin => h.batch report cause fd hin hdue) id
  queue fd cause hin := by
    rw [hregistrant]
    exact (hqueue fd cause hin).elim (h.queue fd cause) id
  first c cause hc := by
    rw [hplace]
    exact hfirst c cause hc
  cleared := hcleared
  noStale u hu := h.noStale u (hwakeups ▸ hu)

/-- The loop goes to `pc`, which keeps no more events than before. -/
theorem UpToDate.goto {w : World Unit κ} (h : UpToDate w) {pc : Pc}
    (hbatch : ∀ item ∈ pc.batch, item ∈ (w.threads ()).pc.batch)
    (hfirst : (w.threads ()).pc.Clearing → pc.Clearing ∨ (w.threads ()).firstCoroutine = none)
    (hcleared : pc.Cleared → (w.threads ()).firstCoroutine = none) : UpToDate (w.goto () pc) := by
  refine h.of_eq (fun _ => rfl) rfl rfl rfl (by simp) (fun report cause fd hin _ => ?_)
    (fun _ _ hin => Or.inl hin) (fun c cause hc => ?_) ?_
  · rw [goto_thread] at hin
    exact Or.inl (hbatch _ hin)
  · rw [goto_thread] at hc ⊢
    refine (h.first c cause hc).imp_left fun hclearing => (hfirst hclearing).resolve_right fun hnone => ?_
    rw [hnone] at hc
    cases hc
  · rw [goto_thread]
    exact hcleared

/-- `first_coroutine` changes to null, or to a coroutine that waits. -/
theorem UpToDate.setFirst {w : World Unit κ} (h : UpToDate w) {first : Option (κ × Option Nat)}
    (hfirst : ∀ c cause, first = some (c, cause) → ∃ k, w.place c = .hook k ∧ cause = some k.ticket)
    (hcleared : (w.threads ()).pc.Cleared → first = none) : UpToDate (w.setFirst () first) := by
  refine h.of_eq (fun _ => rfl) rfl rfl rfl (by simp) (fun report cause fd hin _ => ?_)
    (fun _ _ hin => Or.inl hin) (fun c cause hc => ?_) ?_
  · rw [setFirst_thread] at hin
    exact Or.inl hin
  · rw [setFirst_thread] at hc
    exact Or.inr (hfirst c cause hc)
  · rw [setFirst_thread]
    exact hcleared

theorem UpToDate.clear {w : World Unit κ} (h : UpToDate w) {pc : Pc}
    (hbatch : ∀ item ∈ pc.batch, item ∈ (w.threads ()).pc.batch) :
    UpToDate ((w.setFirst () none).goto () pc) := by
  have hnone : ((w.setFirst () none).threads ()).firstCoroutine = none := by rw [setFirst_thread]
  have hset : UpToDate (w.setFirst () none) := h.setFirst (fun _ _ => nofun) fun _ => rfl
  refine hset.goto (fun item hin => ?_) (fun _ => Or.inr hnone) fun _ => hnone
  rw [setFirst_thread]
  exact hbatch item hin

/-- An event of a batch is handled, and the loop goes to `pc` for the rest. -/
theorem UpToDate.next {w : World Unit κ} (h : UpToDate w) {item : Report × Option Nat} {rest : Batch}
    (hpc : (w.threads ()).pc = .events (item :: rest)) {pc : Pc} (hbatch : pc.batch = rest)
    (hnot : ¬pc.Cleared) : UpToDate (w.goto () pc) := by
  refine h.goto (fun item hin => ?_) (fun hclearing => ?_) fun hcleared => absurd hcleared hnot
  · rw [hpc]
    exact List.mem_cons_of_mem _ (hbatch ▸ hin)
  · rw [hpc] at hclearing
    cases hclearing

/-- The reports of a batch come with the last hook call on their descriptors. -/
theorem UpToDate.poll {w : World Unit κ} (h : UpToDate w) (hpc : (w.threads ()).pc = .tasks)
    (reports : List Report) : UpToDate (w.goto () (.events (reports.map w.withCause))) := by
  have hnone := h.cleared (by rw [hpc]; trivial)
  refine h.of_eq (fun _ => rfl) rfl rfl rfl (by simp) (fun report cause fd hin hdue => Or.inr ?_)
    (fun _ _ hin => Or.inl hin) (fun c cause hc => ?_) fun hcleared => ?_
  · rw [goto_thread] at hin
    obtain ⟨_, _, heq⟩ := List.mem_map.mp hin
    cases heq
    rw [Report.fd_of_due hdue]
    rfl
  · rw [goto_thread] at hc
    rw [show (w.threads ()).firstCoroutine = _ from hc] at hnone
    cases hnone
  · rw [goto_thread] at hcleared
    cases hcleared

/-- Descriptors change, but no `FdEvent` its coroutine. -/
theorem UpToDate.setRegistry {w : World Unit κ} (h : UpToDate w) {g : Registry Unit κ}
    {queue : List (Int × Option Nat)}
    (hg : ∀ fd, (g.fdEvents fd).coroutine = (w.registry.fdEvents fd).coroutine)
    (hqueue : ∀ fd cause, (fd, cause) ∈ queue → (fd, cause) ∈ w.queue ∨ cause = w.registrant fd) :
    UpToDate {w with registry := g, queue} :=
  h.of_eq hg rfl rfl rfl rfl (fun _ _ _ hin _ => Or.inl hin) hqueue h.first h.cleared

/-! ### What a resumption leaves -/

section
variable [DecidableEq κ]

/-- A coroutine that `first_coroutine` does not hold may be resumed. -/
theorem UpToDate.resume {w w' : World Unit κ} (h : UpToDate w) {c : κ}
    (hc : ∀ cause, (w.threads ()).firstCoroutine = some (c, cause) → (w.threads ()).pc.Clearing)
    (hr : w.resume () c = some w') : UpToDate w' := by
  rcases resume_cases hr with ⟨-, rfl⟩ | hcases
  · exact h
  obtain ⟨g, rfl, howner⟩ : ∃ g, w' = w.running () c g ∧
      ∀ fd other, (g.fdEvents fd).coroutine = some other →
        other ≠ c ∧ (w.registry.fdEvents fd).coroutine = some other := by
    rcases hcases with ⟨-, hplace, rfl⟩ | ⟨k, -, hplace, rfl⟩
    · refine ⟨_, rfl, fun fd other hother => ⟨?_, hother⟩⟩
      obtain ⟨event, ticket, hk, -⟩ := h.owner fd other hother
      exact ne_of_place hplace hk (by simp)
    · refine ⟨_, rfl, fun fd other hother => ?_⟩
      rw [Registry.leaveEpoll_coroutine] at hother
      split at hother
      · cases hother
      · next hfd =>
        obtain ⟨event, ticket, hk, -⟩ := h.owner fd other hother
        refine ⟨ne_of_place hplace hk fun heq => ?_, hother⟩
        cases heq
        exact hfd rfl
  have hthread : (w.running () c g).threads () = {w.threads () with current := some c} := swap_thread ..
  refine ⟨fun fd other hother => ?_, fun other hother => ?_, fun report cause fd hin hdue => ?_, h.queue,
    fun other cause hother => ?_, fun hcleared => ?_, h.noStale⟩
  · obtain ⟨hne, hold⟩ := howner fd other hother
    obtain ⟨event, ticket, hk, hregistrant⟩ := h.owner fd other hold
    exact ⟨event, ticket, running_hook.mpr ⟨hne, hk⟩, hregistrant⟩
  · rw [hthread] at hother
    rw [running, swap_place, if_pos (Option.some.inj hother).symm]
  · rw [hthread] at hin
    exact h.batch report cause fd hin hdue
  · rw [hthread] at hother ⊢
    rcases h.first other cause hother with hclearing | ⟨k, hk, hcause⟩
    · exact Or.inl hclearing
    · by_cases hne : other = c
      · exact Or.inl (hc cause (hne ▸ hother))
      · exact Or.inr ⟨k, running_hook.mpr ⟨hne, hk⟩, hcause⟩
  · rw [hthread] at hcleared ⊢
    exact h.cleared hcleared

/-- A fresh resumption goes to the log. -/
theorem UpToDate.wake {w w' : World Unit κ} (h : UpToDate w) {c : κ} {cause : Option Nat}
    (hc : ∀ k, (w.threads ()).firstCoroutine = some (c, k) → (w.threads ()).pc.Clearing)
    (hfresh : ∃ k, w.place c = .hook k ∧ cause = some k.ticket)
    (hr : w.wake () c cause = some w') : UpToDate w' := by
  have hlog : UpToDate (w.log c cause) := by
    refine ⟨h.owner, h.current, h.batch, h.queue, h.first, h.cleared, fun u hu => ?_⟩
    unfold log at hu
    split at hu
    · rcases List.mem_append.mp hu with hold | hnew
      · exact h.noStale u hold
      · rw [List.mem_singleton.mp hnew]
        exact hfresh
    · exact h.noStale u hu
  exact hlog.resume hc hr

/-- A hook makes its coroutine the one of the descriptor, and its call the last one there. -/
theorem UpToDate.hook {w : World Unit κ} (h : UpToDate w) {c : κ} {fd : Int} {event : IOEvent}
    (hc : w.place c = .running ()) (hfd : fd ∉ w.due) : UpToDate (w.hook () c fd event) := by
  have hthread : (w.hook () c fd event).threads () = {w.threads () with current := none} := swap_thread ..
  have hcor : ∀ d, ((w.hook () c fd event).registry.fdEvents d).coroutine =
      if d = fd then some c else (w.registry.fdEvents d).coroutine := fun d => by
    rw [← Registry.setFdReactor_coroutine w.registry fd d (some (w.registry.reactorOf () fd))]
    exact Registry.toEpoll_coroutine ..
  have hregistrant : ∀ d, (w.hook () c fd event).registrant d =
      if d = fd then some w.tickets else w.registrant d := fun d => Function.update_apply ..
  have hother : ∀ other k, w.place other = .hook k → (w.hook () c fd event).place other = .hook k := by
    intro other k hk
    rw [hook_place, if_neg (ne_of_place hc hk (by simp)), hk]
  unfold due at hfd
  rw [List.mem_append, not_or] at hfd
  refine ⟨fun d other hd => ?_, fun other hcur => ?_, fun report cause d hin hdue => ?_,
    fun d cause hin => ?_, fun other cause hfirst => ?_, fun hcleared => ?_, h.noStale⟩
  · rw [hcor] at hd
    rw [hregistrant]
    split at hd
    · next heq =>
      obtain rfl := Option.some.inj hd
      exact ⟨event, w.tickets, by rw [hook_place, if_pos rfl, heq], by rw [if_pos heq]⟩
    · next hne =>
      obtain ⟨e, ticket, hk, ht⟩ := h.owner d other hd
      exact ⟨e, ticket, hother other _ hk, by rw [if_neg hne, ht]⟩
  · rw [hthread] at hcur
    cases hcur
  · rw [hthread] at hin
    rw [hregistrant, if_neg]
    · exact h.batch report cause d hin hdue
    · rintro rfl
      exact hfd.1 (List.mem_filterMap.mpr ⟨report, List.mem_map_of_mem hin, hdue⟩)
  · rw [hregistrant, if_neg]
    · exact h.queue d cause hin
    · rintro rfl
      exact hfd.2 (List.mem_map_of_mem (f := Prod.fst) hin)
  · rw [hthread] at hfirst ⊢
    exact (h.first other cause hfirst).imp_right fun ⟨k, hk, hcause⟩ => ⟨k, hother other k hk, hcause⟩
  · rw [hthread] at hcleared ⊢
    exact h.cleared hcleared

theorem UpToDate.yield {w : World Unit κ} (h : UpToDate w) {c : κ} (hc : w.place c = .running ())
    (canResume : κ → Bool) : UpToDate ({w with canResume}.swap () c .suspended none) := by
  have hthread : ({w with canResume}.swap () c .suspended none).threads () =
      {w.threads () with current := none} := swap_thread ..
  have hother : ∀ other k, w.place other = .hook k →
      ({w with canResume}.swap () c .suspended none).place other = .hook k := by
    intro other k hk
    rw [swap_place, if_neg (ne_of_place hc hk (by simp))]
    exact hk
  refine ⟨fun d other hd => ?_, fun other hcur => ?_, fun report cause d hin hdue => ?_, h.queue,
    fun other cause hfirst => ?_, fun hcleared => ?_, h.noStale⟩
  · obtain ⟨e, ticket, hk, ht⟩ := h.owner d other hd
    exact ⟨e, ticket, hother other _ hk, ht⟩
  · rw [hthread] at hcur
    cases hcur
  · rw [hthread] at hin
    exact h.batch report cause d hin hdue
  · rw [hthread] at hfirst ⊢
    exact (h.first other cause hfirst).imp_right fun ⟨k, hk, hcause⟩ => ⟨k, hother other k hk, hcause⟩
  · rw [hthread] at hcleared ⊢
    exact h.cleared hcleared

/-! ### A step -/

theorem UpToDate.popped {w w' : World Unit κ} (h : UpToDate w) {fd : Int} {cause : Option Nat}
    {rest : List (Int × Option Nat)} (hpc : (w.threads ()).pc = .queue)
    (hqueue : w.queue = (fd, cause) :: rest)
    (hs : {w with queue := rest}.popped () fd cause = some w') : UpToDate w' := by
  have hset : UpToDate {w with queue := rest, registry := w.registry.setFdReactor fd (some ())} :=
    h.setRegistry (fun _ => Registry.setFdReactor_coroutine ..) fun d k hin =>
      Or.inl (by rw [hqueue]; exact List.mem_cons_of_mem _ hin)
  simp only [World.popped, Registry.setFdReactor_coroutine] at hs
  cases hcor : (w.registry.fdEvents fd).coroutine with
  | none =>
    rw [hcor] at hs
    exact Option.some.inj hs ▸ hset
  | some c =>
    rw [hcor] at hs
    refine hset.wake (fun k hk => ?_) ?_ hs
    · have hnone := h.cleared (by rw [hpc]; trivial)
      rw [show (w.threads ()).firstCoroutine = _ from hk] at hnone
      cases hnone
    · exact h.waits hcor (h.queue fd cause (by rw [hqueue]; exact List.mem_cons_self ..))

theorem UpToDate.handle {type : Unit → ReactorType} {w w' : World Unit κ} (h : UpToDate w)
    {report : Report} {cause : Option Nat} {rest : Batch}
    (hpc : (w.threads ()).pc = .events ((report, cause) :: rest))
    (hs : w.handle type () report cause rest = some w') : UpToDate w' := by
  unfold World.handle at hs
  cases report with
  | wakeup => exact Option.some.inj hs ▸ h.next hpc rfl id
  | timer => exact Option.some.inj hs ▸ h.next hpc rfl id
  | io fd events =>
    simp only at hs
    split at hs
    · let registry := w.registry.setReactor () ((w.registry.reactors ()).delEventInLoopThread fd)
      have hdel : UpToDate {w with registry} := h.setRegistry (fun _ => rfl) fun _ _ => Or.inl
      exact Option.some.inj hs ▸ hdel.next hpc rfl id
    · next hdue =>
      have hcause : cause = w.registrant fd := by
        refine h.batch (.io fd events) cause fd (by rw [hpc]; exact List.mem_cons_self ..) ?_
        show (if events.epollin || events.epollout then some fd else none) = some fd
        rw [if_pos]
        cases hin : events.epollin with
        | true => rfl
        | false => simpa [hin] using hdue
      cases hcor : (w.registry.fdEvents fd).coroutine with
      | none =>
        simp only [hcor] at hs
        exact Option.some.inj hs ▸ h.next hpc rfl id
      | some c =>
        have hwaits := h.waits hcor hcause
        simp only [hcor] at hs
        split at hs
        · have hset : UpToDate (w.setFirst () (some (c, cause))) := by
            refine h.setFirst (fun _ _ heq => ?_) fun hcleared => ?_
            · cases heq
              exact hwaits
            · rw [hpc] at hcleared
              cases hcleared
          exact Option.some.inj hs ▸ hset.next (by rw [setFirst_thread]; exact hpc) rfl id
        · split at hs
          · let registry := w.registry.setReactor () ((w.registry.reactors ()).delEventInLoopThread fd)
            have hpush : UpToDate {w with
                registry := registry.setFdReactor fd none, queue := w.queue ++ [(fd, cause)]} := by
              refine h.setRegistry (fun _ => Registry.setFdReactor_coroutine ..) fun d k hin => ?_
              rcases List.mem_append.mp hin with hold | hnew
              · exact Or.inl hold
              · cases List.mem_singleton.mp hnew
                exact Or.inr hcause
            exact Option.some.inj hs ▸ hpush.next hpc rfl id
          · have hgoto : UpToDate (w.goto () (.resumedDirectly rest)) := h.next hpc rfl id
            refine hgoto.wake (fun _ _ => ?_) hwaits hs
            rw [goto_thread]
            trivial

theorem UpToDate.advance {type : Unit → ReactorType} {w w' : World Unit κ} (h : UpToDate w)
    (hs : w.advance type () = some w') : UpToDate w' := by
  unfold World.advance at hs
  cases hpc : (w.threads ()).pc with
  | outside =>
    simp only [hpc] at hs
    refine Option.some.inj hs ▸ h.goto nofun (fun hclearing => ?_) nofun
    rw [hpc] at hclearing
    cases hclearing
  | top =>
    simp only [hpc] at hs
    have hnot : ¬(w.threads ()).pc.Clearing := by rw [hpc]; exact id
    split at hs
    · next hnone => exact Option.some.inj hs ▸ h.goto nofun (fun hc => absurd hc hnot) fun _ => hnone
    · next c cause hfirst =>
      have hgoto : UpToDate (w.goto () .resumedFirst) := h.goto nofun (fun _ => Or.inl trivial) nofun
      exact hgoto.wake (fun _ _ => by rw [goto_thread]; trivial)
        ((h.first c cause hfirst).resolve_left hnot) hs
  | resumedFirst =>
    simp only [hpc] at hs
    exact Option.some.inj hs ▸ h.clear nofun
  | queue =>
    simp only [hpc] at hs
    have hnone := h.cleared (by rw [hpc]; trivial)
    have hgoto : UpToDate (w.goto () .tasks) := h.goto nofun (fun _ => Or.inr hnone) fun _ => hnone
    split at hs
    · exact Option.some.inj hs ▸ hgoto
    · exact Option.some.inj hs ▸ hgoto
    · next hqueue => exact h.popped hpc hqueue hs
  | tasks => simp [hpc] at hs
  | events batch =>
    cases batch with
    | nil =>
      simp only [hpc] at hs
      have hdrain : UpToDate {w with registry := w.registry.setReactor () (w.registry.reactors ()).drain} :=
        h.setRegistry (fun _ => rfl) fun _ _ => Or.inl
      refine Option.some.inj hs ▸ hdrain.goto nofun (fun hclearing => ?_) nofun
      rw [show (w.threads ()).pc = _ from hpc] at hclearing
      cases hclearing
    | cons item rest =>
      simp only [hpc] at hs
      exact h.handle hpc hs
  | timer rest =>
    simp only [hpc] at hs
    refine Option.some.inj hs ▸ h.goto (fun item hin => ?_) (fun hclearing => ?_) nofun
    · rw [hpc]
      exact hin
    · rw [hpc] at hclearing
      cases hclearing
  | resumedDirectly rest =>
    simp only [hpc] at hs
    refine Option.some.inj hs ▸ h.clear fun item hin => ?_
    rw [hpc]
    exact hin

theorem UpToDate.step {type : Unit → ReactorType} {w w' : World Unit κ} {i : Input Unit κ}
    (h : UpToDate w) (hi : w.Timely i) (hs : w.step type i = some w') : UpToDate w' := by
  rcases step_cases hs with ⟨r, rfl, hadvance⟩ | ⟨r, rfl, rfl⟩ | ⟨r, c, rfl, hresume⟩ |
    ⟨r, reports, rfl, hpc, rfl⟩ | ⟨r, rfl, hpc, rfl⟩ | ⟨r, c, fd, event, rfl, hcur, -, rfl⟩ | ⟨r, fd, rfl, rfl⟩ |
    ⟨r, c, canResume, -, hcur, -, rfl⟩ | ⟨r, fd, rfl, rfl⟩ | ⟨fd, owner, rfl, rfl⟩
  · exact h.advance hadvance
  · exact h.clear nofun
  · refine h.resume (fun cause hfirst => absurd ?_ hi) hresume
    rw [hfirst]
    rfl
  · exact h.poll hpc reports
  · have hnone := h.cleared (by rw [show (w.threads ()).pc = _ from hpc]; trivial)
    exact h.goto nofun (fun _ => Or.inr hnone) nofun
  · exact h.hook (h.current c hcur) hi
  · exact h.setRegistry (fun _ => Registry.setFdReactor_coroutine ..) fun _ _ => Or.inl
  · exact h.yield (h.current c hcur) canResume
  · exact h.setRegistry (fun _ => Registry.unregisterFromReactor_coroutine ..) fun _ _ => Or.inl
  · exact h.setRegistry (fun _ => Registry.setFdReactor_coroutine ..) fun _ _ => Or.inl

/-- **No stale resumption** in a run of one loop whose steps are timely: every coroutine that
an event resumes waits in the hook call that registered the descriptor. -/
theorem noStale_of_timely (type : Unit → ReactorType) (inputs : List (Input Unit κ))
    (h : Meets (World.step type) Timely {} inputs) : Always (World.step type) NoStale {} inputs :=
  (always_of_step (fun _ _ _ hw hi hs => hw.step hi hs) upToDate_init h).imp fun _ hw => hw.noStale

end

/-- After the first ready coroutine a timer callback resumes another, which waits again. -/
theorem noStale_of_timely_two :
    Always (World.step fun _ => .main) NoStale ({} : World Unit Bool)
      [.callback () true, .hook () 5 .read, .callback () false, .hook () 6 .write, .advance (),
        .advance (), .advance (), .poll () [.io 5 {epollin := true}, .timer], .advance (), .advance (),
        .callback () false, .hook () 7 .read, .advance (), .advance (), .advance (), .hook () 5 .read] :=
  noStale_of_timely _ _ (by decide)

/-- A timer callback resumes the coroutine in `first_coroutine`, which goes on to wait for
nothing; the next iteration resumes it once more. -/
theorem not_noStale_timeout : ¬ ∀ (type : Unit → ReactorType) (inputs : List (Input Unit Unit)),
    Always (World.step type) NoStale {} inputs := fun h => by
  have hlast := (h (fun _ => .sub) [.callback () (), .hook () 5 .read, .advance (), .advance (),
    .advance (), .poll () [.io 5 {epollin := true}, .timer], .advance (), .advance (), .callback () (),
    .yield (), .advance (), .advance (), .advance ()]).last rfl
  obtain ⟨k, hk, -⟩ := hlast ⟨.suspended, some 0⟩ (by decide)
  cases hk

end World

end CoroutineRpc.Net.Loop
