import CoroutineRpc.Net.LoopWake
import CoroutineRpc.Net.LoopStale

/-! The event of a descriptor is delivered by one loop, and once.

Four things at a reactor lead to the resumption of the coroutine that waits for a
descriptor: an interest in its epoll set, a pending add, a report still to be handled and
`first_coroutine`. As long as no hook waits for a descriptor that another coroutine waits
for, all of them are at the descriptor's own reactor, and none is anywhere while the
descriptor is in the queue (`Single`). So whatever a loop resumes waits in a hook. -/
namespace CoroutineRpc.Net.Loop
open Library.Transition

namespace World
variable {ρ κ : Type}

/-- A coroutine waits for `fd`, whose event is for the loop of `r` to deliver. -/
structure At (w : World ρ κ) (r : ρ) (fd : Int) : Prop where
  waited : (w.registry.fdEvents fd).coroutine ≠ none
  reactor : (w.registry.fdEvents fd).reactor = some r
  queue : fd ∉ w.queue.map Prod.fst

def Armed (w : World ρ κ) (r : ρ) (fd : Int) : Prop :=
  ∃ m, (w.registry.reactors r).epoll fd = some m ∧ m ≠ {}

def Pending (w : World ρ κ) (r : ρ) (fd : Int) : Prop :=
  ∃ m, (fd, m) ∈ (w.registry.reactors r).pendingAddFds

/-- The descriptors whose reports the loop of `r` is still to handle. -/
def dueAt (w : World ρ κ) (r : ρ) : List Int :=
  ((w.threads r).pc.batch.map Prod.fst).filterMap Report.due

/-- The loop of `r` is to resume the coroutine of `fd`. -/
def First (w : World ρ κ) (r : ρ) (fd : Int) : Prop := ¬ (w.threads r).pc.Clearing ∧
  ∃ c cause, (w.threads r).firstCoroutine = some (c, cause) ∧
    (w.registry.fdEvents fd).coroutine = some c

/-- What the loop of `r` has for `fd` is its own to deliver, and delivered once. -/
structure Owned (w : World ρ κ) (r : ρ) (fd : Int) : Prop where
  armed : w.Armed r fd → w.At r fd
  pending : w.Pending r fd → w.At r fd ∧ ¬ w.Armed r fd ∧ fd ∉ w.dueAt r ∧ ¬ w.First r fd
  due : fd ∈ w.dueAt r → w.At r fd ∧ ¬ w.First r fd
  first : w.First r fd → w.At r fd

structure Single (w : World ρ κ) : Prop extends Sound w where
  listening : ∀ c k, w.place c = .hook k → (w.registry.fdEvents k.fd).listenEvents.has k.event
  owned : ∀ r fd, w.Owned r fd
  dueOnce : ∀ r, (w.dueAt r).Nodup
  queueOnce : (w.queue.map Prod.fst).Nodup
  queued : ∀ fd ∈ w.queue.map Prod.fst, (w.registry.fdEvents fd).coroutine ≠ none
  first : ∀ r c cause, (w.threads r).firstCoroutine = some (c, cause) →
    (w.threads r).pc.Clearing ∨ ∃ k, w.place c = .hook k
  cleared : ∀ r, (w.threads r).pc.Cleared → (w.threads r).firstCoroutine = none

theorem single_init : Single ({} : World ρ κ) where
  toSound := attended_init.toSound
  listening _ _ := nofun
  owned _ _ :=
    { armed := fun ⟨_, hm, _⟩ => nomatch hm
      pending := fun ⟨_, hm⟩ => nomatch hm
      due := nofun
      first := fun ⟨_, _, _, hfirst, _⟩ => nomatch hfirst }
  dueOnce _ := List.nodup_nil
  queueOnce := List.nodup_nil
  queued _ := nofun
  first _ _ _ := nofun
  cleared _ _ := rfl

/-- Another reactor has nothing for a descriptor. -/
theorem Single.elsewhere {w : World ρ κ} (h : Single w) {r r' : ρ} {fd : Int}
    (hreactor : (w.registry.fdEvents fd).reactor = some r) (hr : r' ≠ r) :
    ¬ w.Armed r' fd ∧ ¬ w.Pending r' fd ∧ fd ∉ w.dueAt r' ∧ ¬ w.First r' fd := by
  have hnot : ¬ w.At r' fd := fun hat => hr (Option.some.inj (hat.reactor.symm.trans hreactor))
  have howned := h.owned r' fd
  exact ⟨fun ha => hnot (howned.armed ha), fun hp => hnot (howned.pending hp).1,
    fun hd => hnot (howned.due hd).1, fun hf => hnot (howned.first hf)⟩

/-- Nobody has anything for a descriptor in the queue, or one nobody waits for. -/
theorem Single.nowhere {w : World ρ κ} (h : Single w) {fd : Int}
    (hfd : fd ∈ w.queue.map Prod.fst ∨ (w.registry.fdEvents fd).coroutine = none) (r : ρ) :
    ¬ w.Armed r fd ∧ ¬ w.Pending r fd ∧ fd ∉ w.dueAt r ∧ ¬ w.First r fd := by
  have hnot : ¬ w.At r fd := fun hat => hfd.elim hat.queue hat.waited
  have howned := h.owned r fd
  exact ⟨fun ha => hnot (howned.armed ha), fun hp => hnot (howned.pending hp).1,
    fun hd => hnot (howned.due hd).1, fun hf => hnot (howned.first hf)⟩

/-- Without anything at a reactor nothing is asked. -/
theorem owned_of_none {w : World ρ κ} {r : ρ} {fd : Int} (harmed : ¬ w.Armed r fd)
    (hpending : ¬ w.Pending r fd) (hdue : fd ∉ w.dueAt r) (hfirst : ¬ w.First r fd) : w.Owned r fd where
  armed ha := absurd ha harmed
  pending hp := absurd hp hpending
  due hd := absurd hd hdue
  first hf := absurd hf hfirst

/-- From `w` to `w'` a reactor gets nothing new for a descriptor. -/
structure Under (w w' : World ρ κ) (r : ρ) (fd : Int) : Prop where
  at_ : w.At r fd → w'.At r fd
  armed : w'.Armed r fd → w.Armed r fd
  pending : w'.Pending r fd → w.Pending r fd
  due : fd ∈ w'.dueAt r → fd ∈ w.dueAt r
  first : w'.First r fd → w.First r fd

theorem Owned.under {w w' : World ρ κ} {r : ρ} {fd : Int} (h : w.Owned r fd) (hu : Under w w' r fd) :
    w'.Owned r fd where
  armed ha := hu.at_ (h.armed (hu.armed ha))
  pending hp := by
    obtain ⟨hat, harmed, hdue, hfirst⟩ := h.pending (hu.pending hp)
    exact ⟨hu.at_ hat, mt hu.armed harmed, mt hu.due hdue, mt hu.first hfirst⟩
  due hd := by
    obtain ⟨hat, hfirst⟩ := h.due (hu.due hd)
    exact ⟨hu.at_ hat, mt hu.first hfirst⟩
  first hf := hu.at_ (h.first (hu.first hf))

/-- An operation on `fd` is nothing new for other descriptors. -/
theorem under_of_onlyAt {w w' : World ρ κ} {fd other : Int} {r : ρ}
    (hg : w.registry.OnlyAt fd w'.registry) (hne : other ≠ fd)
    (hqueue : other ∈ w'.queue.map Prod.fst → other ∈ w.queue.map Prod.fst)
    (hdue : other ∈ w'.dueAt r → other ∈ w.dueAt r)
    (hfirst : ¬ (w'.threads r).pc.Clearing → ∀ c cause, (w'.threads r).firstCoroutine = some (c, cause) →
      (w.registry.fdEvents other).coroutine = some c →
      ¬ (w.threads r).pc.Clearing ∧ (w.threads r).firstCoroutine = some (c, cause)) :
    Under w w' r other where
  at_ hat := by
    have heq := hg.fdEvents other hne
    exact ⟨by rw [heq]; exact hat.waited, by rw [heq]; exact hat.reactor, mt hqueue hat.queue⟩
  armed := fun ⟨m, hm, hmask⟩ => ⟨m, by rw [← (hg.reactors r other hne).epoll]; exact hm, hmask⟩
  pending := fun ⟨m, hm⟩ => ⟨m, ((hg.reactors r other hne).adds m).mp hm⟩
  due := hdue
  first := fun ⟨hclear, c, cause, hc, hcor⟩ => by
    rw [hg.fdEvents other hne] at hcor
    obtain ⟨hclear', hc'⟩ := hfirst hclear c cause hc hcor
    exact ⟨hclear', c, cause, hc', hcor⟩

/-- The descriptors that are due are among those reported. -/
theorem filterMap_due_sublist (reports : List Report) :
    (reports.filterMap Report.due).Sublist (reports.filterMap Report.fd) := by
  induction reports with
  | nil => exact List.Sublist.refl _
  | cons report rest ih =>
    cases hdue : report.due with
    | none =>
      rw [List.filterMap_cons_none hdue]
      exact ih.trans (List.sublist_cons_self report rest |>.filterMap Report.fd)
    | some fd =>
      rw [List.filterMap_cons_some hdue, List.filterMap_cons_some (Report.fd_of_due hdue)]
      exact ih.cons_cons fd

/-- What is due was registered for the event. -/
theorem armed_of_due {w : World ρ κ} {r : ρ} {report : Report} {fd : Int}
    (hready : report.ready (w.registry.reactors r)) (hdue : report.due = some fd) : w.Armed r fd := by
  cases report with
  | wakeup => cases hdue
  | timer => cases hdue
  | io d events =>
    obtain ⟨hsome, hd⟩ := Option.ite_none_right_eq_some.mp hdue
    obtain rfl : d = fd := Option.some.inj hd
    simp only [Report.ready] at hready
    cases hm : (w.registry.reactors r).epoll d with
    | none => simp [hm] at hready
    | some m =>
      refine ⟨m, hm, fun hempty => ?_⟩
      rw [hm, hempty] at hready
      simp at hready
      simp [hready] at hsome

/-! ### The loop moves on -/

section
variable [DecidableEq ρ]

theorem setThread_self (w : World ρ κ) (r : ρ) (t : Thread κ) : (w.setThread r t).threads r = t :=
  Function.update_self ..

theorem setThread_ne (w : World ρ κ) {r r' : ρ} (t : Thread κ) (hr : r' ≠ r) :
    (w.setThread r t).threads r' = w.threads r' := Function.update_of_ne hr ..

theorem setFirst_goto (w : World ρ κ) (r : ρ) (firstCoroutine : Option (κ × Option Nat)) (pc : Pc) :
    (w.setFirst r firstCoroutine).goto r pc = w.setThread r {w.threads r with pc, firstCoroutine} := by
  show (w.setFirst r firstCoroutine).setThread r
    {(w.setFirst r firstCoroutine).threads r with pc} = _
  rw [setFirst_thread]
  unfold setFirst setThread
  simp only [Function.update_idem]

theorem Single.setThread {w : World ρ κ} (h : Single w) {r : ρ} {t : Thread κ}
    (hcurrent : t.current = (w.threads r).current) (howned : ∀ fd, (w.setThread r t).Owned r fd)
    (hdue : ((t.pc.batch.map Prod.fst).filterMap Report.due).Nodup)
    (hfirst : ∀ c cause, t.firstCoroutine = some (c, cause) → t.pc.Clearing ∨ ∃ k, w.place c = .hook k)
    (hcleared : t.pc.Cleared → t.firstCoroutine = none) : Single (w.setThread r t) where
  toSound := h.toSound.of_eq rfl rfl rfl fun r' => by
    by_cases hr : r' = r
    · rw [hr, setThread_self, hcurrent]
    · rw [setThread_ne w t hr]
  listening := h.listening
  owned r' fd := by
    by_cases hr : r' = r
    · rw [hr]
      exact howned fd
    · refine (h.owned r' fd).under ⟨fun hat => ⟨hat.1, hat.2, hat.3⟩, id, id, fun hd => ?_, fun hf => ?_⟩
      · unfold dueAt at hd
        rwa [setThread_ne w t hr] at hd
      · unfold First at hf
        rwa [setThread_ne w t hr] at hf
  dueOnce r' := by
    unfold dueAt
    by_cases hr : r' = r
    · rw [hr, setThread_self]
      exact hdue
    · rw [setThread_ne w t hr]
      exact h.dueOnce r'
  queueOnce := h.queueOnce
  queued := h.queued
  first r' := by
    by_cases hr : r' = r
    · rw [hr, setThread_self]
      exact hfirst
    · rw [setThread_ne w t hr]
      exact h.first r'
  cleared r' := by
    by_cases hr : r' = r
    · rw [hr, setThread_self]
      exact hcleared
    · rw [setThread_ne w t hr]
      exact h.cleared r'

theorem due_sublist {b b' : Batch} (h : b'.Sublist b) :
    ((b'.map Prod.fst).filterMap Report.due).Sublist ((b.map Prod.fst).filterMap Report.due) :=
  (h.map Prod.fst).filterMap Report.due

/-- The loop of `r` goes on with no more events than before and the same `first_coroutine`,
or none. -/
theorem Single.goto {w : World ρ κ} (h : Single w) {r : ρ} {t : Thread κ}
    (hcurrent : t.current = (w.threads r).current)
    (hfirst : t.firstCoroutine = none ∨ t.firstCoroutine = (w.threads r).firstCoroutine)
    (hbatch : t.pc.batch.Sublist (w.threads r).pc.batch)
    (hclearing : (w.threads r).pc.Clearing → t.pc.Clearing ∨ t.firstCoroutine = none)
    (hcleared : t.pc.Cleared → t.firstCoroutine = none) : Single (w.setThread r t) := by
  have hsame : ∀ c cause, t.firstCoroutine = some (c, cause) →
      (w.threads r).firstCoroutine = some (c, cause) := by
    intro c cause hc
    rcases hfirst with hnone | heq
    · rw [hnone] at hc
      cases hc
    · exact heq ▸ hc
  have hnot : ¬ t.pc.Clearing → ∀ c cause, t.firstCoroutine = some (c, cause) →
      ¬ (w.threads r).pc.Clearing := by
    intro ht c cause hc hclear
    rw [(hclearing hclear).resolve_left ht] at hc
    cases hc
  refine h.setThread hcurrent (fun fd => ?_) ((h.dueOnce r).sublist (due_sublist hbatch))
    (fun c cause hc => ?_) hcleared
  · refine (h.owned r fd).under ⟨fun hat => ⟨hat.1, hat.2, hat.3⟩, id, id, fun hd => ?_, fun hf => ?_⟩
    · unfold dueAt at hd
      rw [setThread_self] at hd
      exact (due_sublist hbatch).subset hd
    · unfold First at hf
      rw [setThread_self] at hf
      obtain ⟨hclear, c, cause, hc, hcor⟩ := hf
      exact ⟨hnot hclear c cause hc, c, cause, hsame c cause hc, hcor⟩
  · by_cases ht : t.pc.Clearing
    · exact .inl ht
    · exact .inr ((h.first r c cause (hsame c cause hc)).resolve_left (hnot ht c cause hc))

/-- The coroutine of a reported descriptor becomes `first_coroutine`. -/
theorem Single.setFirst {w : World ρ κ} (h : Single w) {r : ρ} {pc : Pc} {fd : Int} {c : κ}
    {cause : Option Nat} (hdue : w.dueAt r = fd :: (pc.batch.map Prod.fst).filterMap Report.due)
    (hcor : (w.registry.fdEvents fd).coroutine = some c) (hcleared : ¬ pc.Cleared) :
    Single ((w.setFirst r (some (c, cause))).goto r pc) := by
  rw [setFirst_goto]
  obtain ⟨event, ticket, hk⟩ := (h.owner fd c).mp hcor
  have honce := h.dueOnce r
  rw [hdue, List.nodup_cons] at honce
  have hhead : fd ∈ w.dueAt r := by
    rw [hdue]
    exact List.mem_cons_self ..
  have hthread := setThread_self w r {w.threads r with pc, firstCoroutine := some (c, cause)}
  refine h.setThread rfl (fun d => ?_) honce.2 (fun c' cause' hc' => ?_) (absurd · hcleared)
  · have hdueAt : d ∈ (w.setThread r {w.threads r with pc, firstCoroutine := some (c, cause)}).dueAt r →
        d ∈ (pc.batch.map Prod.fst).filterMap Report.due := fun hd => by
      unfold dueAt at hd
      rwa [hthread] at hd
    have hfirst : (w.setThread r {w.threads r with pc, firstCoroutine := some (c, cause)}).First r d →
        d = fd := by
      rintro ⟨-, c', cause', hc', hcor'⟩
      rw [hthread] at hc'
      obtain ⟨rfl, rfl⟩ := Prod.mk.inj (Option.some.inj hc')
      obtain ⟨event', ticket', hk'⟩ := (h.owner d c).mp hcor'
      rw [hk] at hk'
      exact (congrArg Hook.fd (Place.hook.inj hk')).symm
    have howned := h.owned r d
    have hin : d ∈ (pc.batch.map Prod.fst).filterMap Report.due → d ∈ w.dueAt r := fun hd => by
      rw [hdue]
      exact List.mem_cons_of_mem fd hd
    have hat : w.At r d → (w.setThread r {w.threads r with pc, firstCoroutine := some (c, cause)}).At r d :=
      fun hat => ⟨hat.1, hat.2, hat.3⟩
    refine ⟨fun ha => hat (howned.armed ha), fun hp => ?_, fun hd => ?_, fun hf => ?_⟩
    · obtain ⟨hwas, harmed, hnotdue, -⟩ := howned.pending hp
      exact ⟨hat hwas, harmed, fun hd => hnotdue (hin (hdueAt hd)), fun hf => hnotdue (hfirst hf ▸ hhead)⟩
    · refine ⟨hat (howned.due (hin (hdueAt hd))).1, fun hf => ?_⟩
      have := hdueAt hd
      rw [hfirst hf] at this
      exact honce.1 this
    · exact hat (howned.due (hfirst hf ▸ hhead)).1
  · obtain ⟨rfl, rfl⟩ := Prod.mk.inj (Option.some.inj hc')
    exact .inr ⟨_, hk⟩

/-- `epoll_wait` returns: what is reported was registered. -/
theorem Single.poll {w : World ρ κ} (h : Single w) {r : ρ} {reports : List Report}
    (hpc : (w.threads r).pc = .tasks) (hreported : Reported (w.registry.reactors r) reports) :
    Single (w.goto r (.events (reports.map w.withCause))) := by
  have hnone : (w.threads r).firstCoroutine = none := h.cleared r (by rw [hpc]; trivial)
  have hmap : (reports.map w.withCause).map Prod.fst = reports := by
    rw [List.map_map]
    exact List.map_id reports
  refine h.setThread rfl (fun fd => ?_) ?_ (fun c cause hc => ?_) (absurd · not_false)
  · have hthread := setThread_self w r {w.threads r with pc := .events (reports.map w.withCause)}
    have hfirst : ¬ (w.goto r (.events (reports.map w.withCause))).First r fd := by
      rintro ⟨-, c, cause, hc, -⟩
      rw [goto_thread, hnone] at hc
      cases hc
    have hdue : fd ∈ (w.goto r (.events (reports.map w.withCause))).dueAt r → w.Armed r fd := by
      intro hin
      unfold dueAt at hin
      rw [goto_thread] at hin
      replace hin : fd ∈ ((reports.map w.withCause).map Prod.fst).filterMap Report.due := hin
      rw [hmap, List.mem_filterMap] at hin
      obtain ⟨report, hreport, hdue⟩ := hin
      exact armed_of_due (hreported.2.2 report hreport) hdue
    have howned := h.owned r fd
    have hat : w.At r fd → (w.goto r (.events (reports.map w.withCause))).At r fd :=
      fun hat => ⟨hat.1, hat.2, hat.3⟩
    refine ⟨fun ha => hat (howned.armed ha), fun hp => ?_, fun hd => ⟨hat (howned.armed (hdue hd)), hfirst⟩,
      fun hf => absurd hf hfirst⟩
    obtain ⟨hwas, harmed, -, -⟩ := howned.pending hp
    exact ⟨hat hwas, harmed, mt hdue harmed, hfirst⟩
  · show (((reports.map w.withCause).map Prod.fst).filterMap Report.due).Nodup
    rw [hmap]
    exact hreported.2.1.sublist (filterMap_due_sublist reports)
  · rw [show (w.threads r).firstCoroutine = none from hnone] at hc
    cases hc

/-- The loop of `r` is about to resume the coroutine of a descriptor, and has nothing else for it. -/
theorem Single.clearing {w : World ρ κ} (h : Single w) {r : ρ} {pc : Pc} {fd : Int} (hat : w.At r fd)
    (hpending : ¬ w.Pending r fd) (hdue : fd ∉ (pc.batch.map Prod.fst).filterMap Report.due)
    (hclear : pc.Clearing) (s : ρ) :
    ¬ (w.goto r pc).Pending s fd ∧ fd ∉ (w.goto r pc).dueAt s ∧ ¬ (w.goto r pc).First s fd := by
  by_cases hs : s = r
  · subst hs
    refine ⟨hpending, ?_, fun hf => hf.1 ?_⟩
    · unfold dueAt
      rw [goto_thread]
      exact hdue
    · rw [goto_thread]
      exact hclear
  · obtain ⟨-, hpending, hdue, hfirst⟩ := h.elsewhere hat.reactor hs
    have hthread : (w.goto r pc).threads s = w.threads s := setThread_ne w _ hs
    refine ⟨hpending, ?_, fun hf => hfirst ?_⟩
    · unfold dueAt
      rw [hthread]
      exact hdue
    · unfold First at hf
      rw [hthread] at hf
      exact hf

end

/-! ### What the loop does with descriptors -/

/-- An operation on `fd` that keeps its coroutine, its interest and what is its reactor's. -/
theorem Single.at {w : World ρ κ} (h : Single w) {fd : Int} {g : Registry ρ κ}
    {queue : List (Int × Option Nat)} (hg : w.registry.OnlyAt fd g)
    (hcor : (g.fdEvents fd).coroutine = (w.registry.fdEvents fd).coroutine)
    (hlisten : (g.fdEvents fd).listenEvents = (w.registry.fdEvents fd).listenEvents)
    (hqueue : ∀ d ≠ fd, d ∈ queue.map Prod.fst ↔ d ∈ w.queue.map Prod.fst)
    (honce : (queue.map Prod.fst).Nodup)
    (hqueued : fd ∈ queue.map Prod.fst → (w.registry.fdEvents fd).coroutine ≠ none)
    (howned : ∀ r, Owned {w with registry := g, queue} r fd) : Single {w with registry := g, queue} where
  toSound := h.toSound.at queue hg hcor fun event he => by rw [← hlisten]; exact he
  listening c k hk := by
    by_cases hd : k.fd = fd
    · have hhas := h.listening c k hk
      rw [hd] at hhas ⊢
      rw [hlisten]
      exact hhas
    · rw [hg.fdEvents k.fd hd]
      exact h.listening c k hk
  owned r d := by
    by_cases hd : d = fd
    · rw [hd]
      exact howned r
    · exact (h.owned r d).under
        (under_of_onlyAt hg hd (hqueue d hd).mp id fun hclear c cause hc _ => ⟨hclear, hc⟩)
  dueOnce := h.dueOnce
  queueOnce := honce
  queued d hd := by
    by_cases heq : d = fd
    · rw [heq] at hd ⊢
      rw [hcor]
      exact hqueued hd
    · rw [hg.fdEvents d heq]
      exact h.queued d ((hqueue d heq).mp hd)
  first := h.first
  cleared := h.cleared

section
variable [DecidableEq ρ]

theorem disarmed {w : World ρ κ} (h : w.registry.Valid) (r : ρ) (fd : Int)
    (queue : List (Int × Option Nat)) :
    ¬ Armed {w with
      registry := w.registry.setReactor r ((w.registry.reactors r).delEventInLoopThread fd), queue} r fd := by
  rintro ⟨m, hm, -⟩
  simp only [Registry.setReactor, Function.update_self] at hm
  rw [(Reactor.delEventInLoopThread_spec (h r).consistent fd).2, Function.update_self] at hm
  cases hm

/-- The loop of `r` unregisters a descriptor. -/
theorem Single.disarm {w : World ρ κ} (h : Single w) (r : ρ) (fd : Int) :
    Single {w with
      registry := w.registry.setReactor r ((w.registry.reactors r).delEventInLoopThread fd)} := by
  have hg := Registry.onlyAt_delEventInLoopThread h.valid r fd
  refine h.at hg rfl rfl (fun _ _ => Iff.rfl) h.queueOnce (h.queued fd) fun s => ?_
  by_cases hs : s = r
  · rw [hs]
    have hnot := disarmed h.valid r fd w.queue
    have howned := h.owned r fd
    refine ⟨fun ha => absurd ha hnot, fun hp => ?_, fun hd => ?_, fun hf => ?_⟩
    · have hwas : w.Pending r fd := by
        obtain ⟨m, hm⟩ := hp
        simp only [Registry.setReactor, Function.update_self,
          Reactor.delEventInLoopThread_pendingAddFds] at hm
        exact ⟨m, hm⟩
      obtain ⟨hat, -, hdue, hfirst⟩ := howned.pending hwas
      exact ⟨⟨hat.1, hat.2, hat.3⟩, hnot, hdue, hfirst⟩
    · obtain ⟨hat, hfirst⟩ := howned.due hd
      exact ⟨⟨hat.1, hat.2, hat.3⟩, hfirst⟩
    · have hat := howned.first hf
      exact ⟨hat.1, hat.2, hat.3⟩
  · have hreactor : (w.registry.setReactor r
        ((w.registry.reactors r).delEventInLoopThread fd)).reactors s = w.registry.reactors s :=
      Function.update_of_ne hs ..
    refine (h.owned s fd).under ⟨fun hat => ⟨hat.1, hat.2, hat.3⟩, fun ha => ?_, fun hp => ?_, id, id⟩
    · unfold Armed at ha ⊢
      rwa [hreactor] at ha
    · unfold Pending at hp ⊢
      rwa [hreactor] at hp

/-- The descriptor of a reported coroutine goes to the queue; nothing else is left of its event. -/
theorem Single.push {w : World ρ κ} (h : Single w) {r : ρ} {fd : Int} {c : κ} (cause : Option Nat)
    (hcor : (w.registry.fdEvents fd).coroutine = some c) (hat : w.At r fd) (hpending : ¬ w.Pending r fd)
    (hdue : fd ∉ w.dueAt r) (hfirst : ¬ w.First r fd) :
    Single {w with
      registry := (w.registry.setReactor r
        ((w.registry.reactors r).delEventInLoopThread fd)).setFdReactor fd none
      queue := w.queue ++ [(fd, cause)]} := by
  have hdel := Registry.onlyAt_delEventInLoopThread h.valid r fd
  have hg := hdel.trans (Registry.onlyAt_setFdEvent hdel.valid fd
    {w.registry.fdEvents fd with reactor := none})
  have hsame : ((w.registry.setReactor r
      ((w.registry.reactors r).delEventInLoopThread fd)).setFdReactor fd none).fdEvents fd =
      {w.registry.fdEvents fd with reactor := none} := Function.update_self ..
  refine h.at hg (by rw [hsame]) (by rw [hsame]) (fun d hd => ?_) ?_ (fun _ => ?_) fun s => ?_
  · simp [hd]
  · rw [List.map_append, List.nodup_append]
    refine ⟨h.queueOnce, List.nodup_singleton _, fun a ha b hb => ?_⟩
    rw [List.mem_singleton.mp hb]
    rintro rfl
    exact hat.queue ha
  · rw [hcor]
    simp
  · have hfirst' : ∀ s, First {w with
        registry := (w.registry.setReactor r
          ((w.registry.reactors r).delEventInLoopThread fd)).setFdReactor fd none
        queue := w.queue ++ [(fd, cause)]} s fd → w.First s fd := by
      rintro s ⟨hclear, c', cause', hc', hcor'⟩
      rw [hsame] at hcor'
      exact ⟨hclear, c', cause', hc', hcor'⟩
    by_cases hs : s = r
    · rw [hs]
      refine owned_of_none (disarmed h.valid r fd w.queue) (fun ⟨m, hm⟩ => hpending ⟨m, ?_⟩) hdue
        (fun hf => hfirst (hfirst' r hf))
      simpa [Registry.setFdReactor, Registry.setFdEvent, Registry.setReactor] using hm
    · obtain ⟨harmed, hpending, hdue, hfirst⟩ := h.elsewhere hat.reactor hs
      have hreactor : ((w.registry.setReactor r
          ((w.registry.reactors r).delEventInLoopThread fd)).setFdReactor fd none).reactors s =
          w.registry.reactors s := Function.update_of_ne hs ..
      refine owned_of_none (fun ha => harmed ?_) (fun hp => hpending ?_) hdue (fun hf => hfirst (hfirst' s hf))
      · unfold Armed at ha ⊢
        rwa [hreactor] at ha
      · unfold Pending at hp ⊢
        rwa [hreactor] at hp

end

/-- A descriptor for which nothing is left anywhere gets a reactor. -/
theorem Single.setFdReactor {w : World ρ κ} (h : Single w) {fd : Int} (reactor : Option ρ)
    {queue : List (Int × Option Nat)} (hsub : queue.Sublist w.queue)
    (hqueue : ∀ d ≠ fd, d ∈ w.queue.map Prod.fst → d ∈ queue.map Prod.fst)
    (hnone : ∀ r, ¬ w.Armed r fd ∧ ¬ w.Pending r fd ∧ fd ∉ w.dueAt r ∧ ¬ w.First r fd) :
    Single {w with registry := w.registry.setFdReactor fd reactor, queue} := by
  have hg := Registry.onlyAt_setFdEvent h.valid fd {w.registry.fdEvents fd with reactor}
  have hsame : (w.registry.setFdReactor fd reactor).fdEvents fd = {w.registry.fdEvents fd with reactor} :=
    Function.update_self ..
  have hmap := hsub.map Prod.fst
  refine h.at hg (by rw [hsame]) (by rw [hsame]) (fun d hd => ⟨fun hin => hmap.subset hin, hqueue d hd⟩)
    (h.queueOnce.sublist hmap) (fun hin => h.queued fd (hmap.subset hin)) fun r => ?_
  obtain ⟨harmed, hpending, hdue, hfirst⟩ := hnone r
  refine owned_of_none harmed hpending hdue ?_
  rintro ⟨hclear, c, cause, hc, hcor⟩
  rw [hsame] at hcor
  exact hfirst ⟨hclear, c, cause, hc, hcor⟩

/-- A hook that returns at once gives a reactor to a descriptor without one. -/
theorem Single.hookReturn {w : World ρ κ} (h : Single w) (r : ρ) (fd : Int) :
    Single {w with registry := w.registry.setFdReactor fd (some (w.registry.reactorOf r fd))} := by
  unfold Registry.reactorOf
  cases hreactor : (w.registry.fdEvents fd).reactor with
  | some s =>
    have hsame : w.registry.setFdReactor fd (some s) = w.registry := by
      unfold Registry.setFdReactor Registry.setFdEvent
      rw [← hreactor, Function.update_eq_self]
    rw [Option.getD_some, hsame]
    exact h
  | none =>
    refine h.setFdReactor _ (List.Sublist.refl _) (fun _ _ hin => hin) fun s => ?_
    have hnot : ¬ w.At s fd := fun hat => by
      have := hat.reactor
      rw [hreactor] at this
      cases this
    have howned := h.owned s fd
    exact ⟨mt howned.armed hnot, fun hp => hnot (howned.pending hp).1, fun hd => hnot (howned.due hd).1,
      mt howned.first hnot⟩

section
variable [DecidableEq ρ]

/-- What was pending is registered. -/
theorem Single.drain {w : World ρ κ} (h : Single w) (r : ρ) :
    Single {w with registry := w.registry.setReactor r (w.registry.reactors r).drain} where
  toSound := h.toSound.drain r
  listening := h.listening
  owned s fd := by
    have howned := h.owned s fd
    by_cases hs : s = r
    · subst hs
      have hat : w.At s fd → At {w with
          registry := w.registry.setReactor s (w.registry.reactors s).drain} s fd :=
        fun hat => ⟨hat.1, hat.2, hat.3⟩
      refine ⟨fun ⟨m, hm, hne⟩ => hat ?_, fun ⟨m, hm⟩ => ?_, fun hd => ?_, fun hf => hat (howned.first hf)⟩
      · simp only [Registry.setReactor, Function.update_self] at hm
        rcases Reactor.epoll_drain (h.valid s) hm with harmed | hpending
        · exact howned.armed ⟨m, harmed, hne⟩
        · exact (howned.pending ⟨m, hpending⟩).1
      · simp [Registry.setReactor] at hm
      · exact ⟨hat (howned.due hd).1, (howned.due hd).2⟩
    · refine howned.under ⟨fun hat => ⟨hat.1, hat.2, hat.3⟩, fun ha => ?_, fun hp => ?_, id, id⟩
      · unfold Armed at ha ⊢
        simpa [Registry.setReactor, hs] using ha
      · unfold Pending at hp ⊢
        simpa [Registry.setReactor, hs] using hp
  dueOnce := h.dueOnce
  queueOnce := h.queueOnce
  queued := h.queued
  first := h.first
  cleared := h.cleared

end

/-! ### Coroutines that run and wait -/

/-- A hook listens for its event alone. -/
theorem Single.listens_alone {w : World ρ κ} (h : Single w) {c : κ} {k : Hook} (hc : w.place c = .hook k) :
    (w.registry.fdEvents k.fd).listenEvents.set k.event false = {} := by
  refine Mask.eq_empty fun event => ?_
  rw [Mask.has_set]
  split
  · rfl
  · next hne =>
    rw [Bool.eq_false_iff]
    intro hhas
    obtain ⟨other, ticket, hother⟩ := h.listens k.fd event hhas
    obtain rfl := h.unique hc hother rfl
    rw [hc] at hother
    exact hne (congrArg Hook.event (Place.hook.inj hother)).symm

section
variable [DecidableEq ρ] [DecidableEq κ]

theorem swap_ne (w : World ρ κ) {r r' : ρ} (c : κ) (place : Place ρ) (current : Option κ) (hr : r' ≠ r) :
    (w.swap r c place current).threads r' = w.threads r' := Function.update_of_ne hr ..

theorem swap_dueAt (w : World ρ κ) (r r' : ρ) (c : κ) (place : Place ρ) (current : Option κ) :
    (w.swap r c place current).dueAt r' = w.dueAt r' := by
  unfold dueAt
  by_cases hr : r' = r
  · rw [hr, swap_thread]
  · rw [swap_ne w c place current hr]

theorem swap_first (w : World ρ κ) (r r' : ρ) (c : κ) (place : Place ρ) (current : Option κ) :
    ((w.swap r c place current).threads r').firstCoroutine = (w.threads r').firstCoroutine := by
  by_cases hr : r' = r
  · rw [hr, swap_thread]
  · rw [swap_ne w c place current hr]

theorem swap_pc (w : World ρ κ) (r r' : ρ) (c : κ) (place : Place ρ) (current : Option κ) :
    ((w.swap r c place current).threads r').pc = (w.threads r').pc := by
  by_cases hr : r' = r
  · rw [hr, swap_thread]
  · rw [swap_ne w c place current hr]

/-- A coroutine that is in no hook runs or stops. -/
theorem Single.swap {w : World ρ κ} (h : Single w) {r : ρ} {c : κ} {place : Place ρ} {current : Option κ}
    (hc : ∀ k, w.place c ≠ .hook k) (hplace : ∀ k, place ≠ .hook k)
    (hsound : Sound (w.swap r c place current)) : Single (w.swap r c place current) where
  toSound := hsound
  listening other k hk := by
    rw [swap_place] at hk
    split at hk
    · exact absurd hk (hplace k)
    · exact h.listening other k hk
  owned s fd := by
    refine (h.owned s fd).under ⟨fun hat => ⟨hat.1, hat.2, hat.3⟩, id, id, fun hd => ?_, fun hf => ?_⟩
    · rwa [swap_dueAt] at hd
    · unfold First at hf
      rwa [swap_pc, swap_first] at hf
  dueOnce s := by
    rw [swap_dueAt]
    exact h.dueOnce s
  queueOnce := h.queueOnce
  queued := h.queued
  first s other cause hfirst := by
    rw [swap_first] at hfirst
    rw [swap_pc]
    refine (h.first s other cause hfirst).imp_right fun ⟨k, hk⟩ => ⟨k, ?_⟩
    rw [swap_place, if_neg (ne_of_place (q := .hook k) rfl hk (hc k))]
    exact hk
  cleared s hs := by
    rw [swap_pc] at hs
    rw [swap_first]
    exact h.cleared s hs

/-- A coroutine yields outside a hook. -/
theorem Single.yield {w : World ρ κ} (h : Single w) {r : ρ} {c : κ} (hc : w.place c = .running r) :
    Single (w.swap r c .suspended none) :=
  h.swap (fun k => by rw [hc]; simp) (fun k => by simp)
    (@Sound.yield ρ κ _ _ w h.toSound r c hc w.canResume fun _ _ => rfl)

/-- A coroutine that waits in no hook is resumed. -/
theorem Single.start {w : World ρ κ} (h : Single w) (r : ρ) {c : κ} (hable : w.canResume c)
    (hc : w.place c = .suspended) : Single (w.running r c w.registry) :=
  h.swap (fun k => by rw [hc]; simp) (fun k => by simp) (h.toSound.running r hable (Or.inl ⟨hc, rfl⟩))

/-- A coroutine leaves its hook on the descriptor's own reactor, where only its registration
is left of the event. -/
theorem Single.resume {w : World ρ κ} (h : Single w) {r : ρ} {c : κ} {k : Hook} (hable : w.canResume c)
    (hc : w.place c = .hook k) (hreactor : (w.registry.fdEvents k.fd).reactor = some r)
    (hqueue : k.fd ∉ w.queue.map Prod.fst)
    (hnone : ∀ s, ¬ w.Pending s k.fd ∧ k.fd ∉ w.dueAt s ∧ ¬ w.First s k.fd) :
    Single (w.running r c (w.registry.leaveEpoll r k.fd k.event)) := by
  have hg := Registry.onlyAt_leaveEpoll h.valid r k.fd k.event
  have hreactors := Registry.leaveEpoll_spec (h.listening c k hc) hreactor
  rw [h.listens_alone hc] at hreactors
  have hcor : ((w.registry.leaveEpoll r k.fd k.event).fdEvents k.fd).coroutine = none := by
    rw [Registry.leaveEpoll_coroutine, if_pos rfl]
  have hfd : k.fd ≠ -1 := by
    have := h.nonneg c k hc
    omega
  have howner : (w.registry.fdEvents k.fd).coroutine = some c :=
    (h.owner k.fd c).mpr ⟨k.event, k.ticket, hc⟩
  refine
    { toSound := h.toSound.running r hable (Or.inr ⟨k, hc, rfl⟩)
      listening := fun other k' hk' => ?_
      owned := fun s fd => ?_
      dueOnce := fun s => by rw [running, swap_dueAt]; exact h.dueOnce s
      queueOnce := h.queueOnce
      queued := fun d hd => ?_
      first := fun s other cause hfirst => ?_
      cleared := fun s hs => ?_ }
  · obtain ⟨hne, hother⟩ := running_hook.mp hk'
    have hfd' : k'.fd ≠ k.fd := fun heq => hne (h.unique hother hc heq)
    show ((w.registry.leaveEpoll r k.fd k.event).fdEvents k'.fd).listenEvents.has k'.event
    rw [hg.fdEvents k'.fd hfd']
    exact h.listening other k' hother
  · by_cases hd : fd = k.fd
    · subst hd
      obtain ⟨hpending, hdue, -⟩ := hnone s
      refine owned_of_none ?_ ?_ ?_ ?_
      · rintro ⟨m, hm, hmask⟩
        replace hm : ((w.registry.leaveEpoll r k.fd k.event).reactors s).epoll k.fd = some m := hm
        rw [hreactors] at hm
        by_cases hs : s = r
        · subst hs
          rw [Function.update_self, Reactor.addEvent, if_neg hfd, if_pos rfl,
            (Reactor.addEventInLoopThread_spec (h.valid s).consistent k.fd {}).2, Function.update_self] at hm
          exact hmask (Option.some.inj hm).symm
        · rw [Function.update_of_ne hs] at hm
          exact (h.elsewhere hreactor hs).1 ⟨m, hm, hmask⟩
      · rintro ⟨m, hm⟩
        apply hpending
        refine ⟨m, ?_⟩
        replace hm : (k.fd, m) ∈ ((w.registry.leaveEpoll r k.fd k.event).reactors s).pendingAddFds := hm
        rw [hreactors] at hm
        by_cases hs : s = r
        · subst hs
          rw [Function.update_self, Reactor.addEvent, if_neg hfd, if_pos rfl,
            Reactor.addEventInLoopThread_pendingAddFds] at hm
          exact hm
        · rw [Function.update_of_ne hs] at hm
          exact hm
      · rw [running, swap_dueAt]
        exact hdue
      · rintro ⟨-, c', cause, -, hc'⟩
        rw [show ((w.running r c (w.registry.leaveEpoll r k.fd k.event)).registry.fdEvents k.fd).coroutine =
          none from hcor] at hc'
        cases hc'
    · refine (h.owned s fd).under (under_of_onlyAt hg hd id (fun hd => ?_) fun hclear c' cause hc' _ => ?_)
      · rwa [running, swap_dueAt] at hd
      · rw [running, swap_pc] at hclear
        rw [running, swap_first] at hc'
        exact ⟨hclear, hc'⟩
  · show ((w.registry.leaveEpoll r k.fd k.event).fdEvents d).coroutine ≠ none
    rw [hg.fdEvents d fun heq => hqueue (heq ▸ hd)]
    exact h.queued d hd
  · rw [running, swap_first] at hfirst
    rw [running, swap_pc]
    by_cases hclear : (w.threads s).pc.Clearing
    · exact .inl hclear
    · obtain ⟨k', hk'⟩ := (h.first s other cause hfirst).resolve_left hclear
      refine .inr ⟨k', running_hook.mpr ⟨?_, hk'⟩⟩
      rintro rfl
      exact (hnone s).2.2 ⟨hclear, other, cause, hfirst, howner⟩
  · rw [running, swap_pc] at hs
    rw [running, swap_first]
    exact h.cleared s hs

/-- A coroutine waits for a descriptor that nobody waits for. -/
theorem Single.hook {w : World ρ κ} (h : Single w) {r : ρ} {c : κ} {fd : Int} (event : IOEvent)
    (hc : w.place c = .running r) (hfd : 0 ≤ fd) (hfree : (w.registry.fdEvents fd).coroutine = none) :
    Single (w.hook r c fd event) := by
  have hg := h.onlyAt_hook r c fd event
  have hat := (h.hook_spec r c event hfree).1
  have hreactors := h.hook_reactors r c event hfree
  have hnone := h.nowhere (.inr hfree)
  have hqueue : fd ∉ w.queue.map Prod.fst := fun hin => h.queued fd hin hfree
  have hdueAt : ∀ s, (w.hook r c fd event).dueAt s = w.dueAt s := fun s => swap_dueAt ..
  have hpc : ∀ s, ((w.hook r c fd event).threads s).pc = (w.threads s).pc := fun s => swap_pc ..
  have hfirst : ∀ s, ((w.hook r c fd event).threads s).firstCoroutine = (w.threads s).firstCoroutine :=
    fun s => swap_first ..
  have hwas : ∀ s other cause, (w.threads s).firstCoroutine = some (other, cause) →
      (w.threads s).pc.Clearing ∨ ∃ k, w.place other = .hook k := h.first
  refine
    { toSound := h.toSound.hook event hc hfd hfree
      listening := fun other k hk => ?_
      owned := fun s d => ?_
      dueOnce := fun s => by rw [hdueAt]; exact h.dueOnce s
      queueOnce := h.queueOnce
      queued := fun d hd => ?_
      first := fun s other cause hother => ?_
      cleared := fun s hs => ?_ }
  · rw [hook_place] at hk
    split at hk
    · cases hk
      show ((w.hook r c fd event).registry.fdEvents fd).listenEvents.has event
      rw [hat, Mask.has_set, if_pos rfl]
    · have hne : k.fd ≠ fd := fun heq => h.not_waited hfree other k.event k.ticket (by rw [← heq]; exact hk)
      rw [hg.fdEvents k.fd hne]
      exact h.listening other k hk
  · by_cases hd : d = fd
    · subst hd
      have hnotFirst : ¬ (w.hook r c d event).First s d := by
        rintro ⟨hclear, other, cause, hother, hcor⟩
        rw [hat] at hcor
        obtain rfl := Option.some.inj hcor
        rw [hpc] at hclear
        rw [hfirst] at hother
        obtain ⟨k, hk⟩ := (hwas s c cause hother).resolve_left hclear
        rw [hc] at hk
        cases hk
      obtain ⟨harmed, hpending, hdue, -⟩ := hnone s
      have hnotDue : d ∉ (w.hook r c d event).dueAt s := by rwa [hdueAt]
      by_cases hs : s = w.registry.reactorOf r d
      · have hat' : (w.hook r c d event).At s d :=
          ⟨by rw [hat]; simp, by rw [hat, hs], hqueue⟩
        refine ⟨fun _ => hat', fun hp => ⟨hat', ?_, hnotDue, hnotFirst⟩, fun hd => absurd hd hnotDue,
          fun hf => absurd hf hnotFirst⟩
        have hreactor : (w.hook r c d event).registry.reactors s =
            (w.registry.reactors s).addEvent (s = r) d ((w.registry.fdEvents d).listenEvents.set event true) := by
          rw [hreactors, ← hs, Function.update_self]
        unfold Armed
        unfold Pending at hp
        rw [hreactor, Reactor.addEvent, if_neg (by omega)] at hp ⊢
        by_cases hown : s = r
        · rw [if_pos (by simpa using hown), Reactor.addEventInLoopThread_pendingAddFds] at hp
          exact absurd hp hpending
        · rw [if_neg (by simpa using hown)]
          exact harmed
      · have hreactor : (w.hook r c d event).registry.reactors s = w.registry.reactors s := by
          rw [hreactors, Function.update_of_ne hs]
        refine owned_of_none (fun ha => harmed ?_) (fun hp => hpending ?_) hnotDue hnotFirst
        · unfold Armed at ha ⊢
          rwa [hreactor] at ha
        · unfold Pending at hp ⊢
          rwa [hreactor] at hp
    · refine (h.owned s d).under (under_of_onlyAt hg hd id (fun hin => ?_) fun hclear other cause hother _ => ?_)
      · rwa [hdueAt] at hin
      · rw [hpc] at hclear
        rw [hfirst] at hother
        exact ⟨hclear, hother⟩
  · rw [hg.fdEvents d fun heq => hqueue (heq ▸ hd)]
    exact h.queued d hd
  · rw [hfirst] at hother
    rw [hpc]
    rcases hwas s other cause hother with hclear | ⟨k, hk⟩
    · exact Or.inl hclear
    right
    use k
    rw [hook_place, if_neg (ne_of_place hc hk (by simp))]
    exact hk
  · rw [hpc] at hs
    rw [hfirst]
    exact h.cleared s hs

/-! ### A step -/

/-- What an event causes is a `Resume` with an entry in the log. -/
theorem Single.wake {w w' : World ρ κ} (h : Single w) {r : ρ} {c : κ} {k : Hook} {cause : Option Nat}
    (hc : w.place c = .hook k) (hreactor : (w.registry.fdEvents k.fd).reactor = some r)
    (hqueue : k.fd ∉ w.queue.map Prod.fst)
    (hnone : ∀ s, ¬ w.Pending s k.fd ∧ k.fd ∉ w.dueAt s ∧ ¬ w.First s k.fd)
    (hs : w.wake r c cause = some w') : Single w' := by
  have hsound : Sound (w.log c cause) := ⟨h.valid, h.owner, h.listens, h.nonneg, h.able, h.current⟩
  have hlog : Single (w.log c cause) :=
    { toSound := hsound
      listening := h.listening
      owned := fun s fd => (h.owned s fd).under ⟨fun hat => ⟨hat.1, hat.2, hat.3⟩, id, id, id, id⟩
      dueOnce := h.dueOnce
      queueOnce := h.queueOnce
      queued := h.queued
      first := h.first
      cleared := h.cleared }
  have hable : (w.log c cause).canResume c := h.able c (by rw [hc]; simp)
  have hplace : (w.log c cause).place c = .hook k := hc
  unfold World.wake World.resume at hs
  rw [if_pos hable, hplace] at hs
  obtain rfl := Option.some.inj hs
  exact hlog.resume hable hc hreactor hqueue hnone

/-- `first_coroutine` is resumed. -/
theorem Single.resumeFirst {w w' : World ρ κ} (h : Single w) {r : ρ} {c : κ} {cause : Option Nat}
    (hpc : (w.threads r).pc = .top) (hfirst : (w.threads r).firstCoroutine = some (c, cause))
    (hs : (w.goto r .resumedFirst).wake r c cause = some w') : Single w' := by
  have hclear : ¬ (w.threads r).pc.Clearing := by rw [hpc]; exact not_false
  obtain ⟨k, hk⟩ := (h.first r c cause hfirst).resolve_left hclear
  have hcor : (w.registry.fdEvents k.fd).coroutine = some c := (h.owner k.fd c).mpr ⟨k.event, k.ticket, hk⟩
  have hf : w.First r k.fd := ⟨hclear, c, cause, hfirst, hcor⟩
  have hat := (h.owned r k.fd).first hf
  have hgoto : Single (w.goto r .resumedFirst) :=
    h.goto rfl (.inr rfl) (List.nil_sublist _) (fun _ => .inl trivial) (fun hc => hc.elim)
  exact hgoto.wake hk hat.reactor hat.queue (h.clearing hat
    (fun hp => ((h.owned r k.fd).pending hp).2.2.2 hf) List.not_mem_nil trivial) hs

/-- The descriptor popped from the queue belongs to the loop that popped it. -/
theorem Single.popped {w w' : World ρ κ} (h : Single w) {r : ρ} {fd : Int} {cause : Option Nat}
    {rest : List (Int × Option Nat)} (hqueue : w.queue = (fd, cause) :: rest)
    (hs : {w with queue := rest}.popped r fd cause = some w') : Single w' := by
  have honce := h.queueOnce
  rw [hqueue, List.map_cons, List.nodup_cons] at honce
  have hnowhere := @Single.nowhere ρ κ w h fd (.inl (by rw [hqueue]; simp))
  have hset : Single {w with queue := rest, registry := w.registry.setFdReactor fd (some r)} := by
    refine h.setFdReactor (some r) (by rw [hqueue]; exact List.sublist_cons_self ..) (fun d hd hin => ?_)
      hnowhere
    rw [hqueue, List.map_cons, List.mem_cons] at hin
    exact hin.resolve_left hd
  have hsame : (w.registry.setFdReactor fd (some r)).fdEvents fd =
      {w.registry.fdEvents fd with reactor := some r} := Function.update_self ..
  simp only [World.popped, Registry.setFdReactor_coroutine] at hs
  cases hcor : (w.registry.fdEvents fd).coroutine with
  | none =>
    rw [hcor] at hs
    exact Option.some.inj hs ▸ hset
  | some c =>
    rw [hcor] at hs
    obtain ⟨event, ticket, hk⟩ := (h.owner fd c).mp hcor
    refine hset.wake (k := ⟨fd, event, ticket⟩) hk (by rw [hsame]) honce.1 (fun s => ?_) hs
    obtain ⟨-, hpending, hdue, hfirst⟩ := hnowhere s
    refine ⟨hpending, hdue, ?_⟩
    rintro ⟨hclear, c', cause', hc', hcor'⟩
    rw [hsame] at hcor'
    exact hfirst ⟨hclear, c', cause', hc', hcor'⟩

theorem Single.handle {type : ρ → ReactorType} {w w' : World ρ κ} (h : Single w) {r : ρ}
    {report : Report} {cause : Option Nat} {rest : Batch}
    (hpc : (w.threads r).pc = .events ((report, cause) :: rest))
    (hs : w.handle type r report cause rest = some w') : Single w' := by
  have hclear : ¬ (w.threads r).pc.Clearing := by rw [hpc]; exact not_false
  have hsub : rest.Sublist (w.threads r).pc.batch := by
    rw [hpc]
    exact List.sublist_cons_self ..
  have hgoto : ∀ pc : Pc, pc.batch = rest → ¬ pc.Cleared → Single (w.goto r pc) := fun pc hbatch hcleared =>
    h.goto rfl (.inr rfl) (by rw [hbatch]; exact hsub) (absurd · hclear) (absurd · hcleared)
  unfold World.handle at hs
  cases report with
  | wakeup => exact Option.some.inj hs ▸ hgoto (.events rest) rfl not_false
  | timer => exact Option.some.inj hs ▸ hgoto (.timer rest) rfl not_false
  | io fd events =>
    simp only at hs
    split at hs
    · obtain rfl := Option.some.inj hs
      exact (hgoto (.events rest) rfl not_false).disarm r fd
    · next hsome =>
      have hdue : w.dueAt r = fd :: (rest.map Prod.fst).filterMap Report.due := by
        unfold dueAt
        rw [hpc]
        show ((.io fd events : Report) :: rest.map Prod.fst).filterMap Report.due = _
        refine List.filterMap_cons_some (if_pos ?_)
        simpa [Decidable.or_iff_not_not_and_not] using hsome
      have hhead : fd ∈ w.dueAt r := by
        rw [hdue]
        exact List.mem_cons_self ..
      have honce := h.dueOnce r
      rw [hdue, List.nodup_cons] at honce
      obtain ⟨hat, hfirst⟩ := (h.owned r fd).due hhead
      have hpending : ¬ w.Pending r fd := fun hp => ((h.owned r fd).pending hp).2.2.1 hhead
      cases hcor : (w.registry.fdEvents fd).coroutine with
      | none =>
        simp only [hcor] at hs
        exact Option.some.inj hs ▸ hgoto (.events rest) rfl not_false
      | some c =>
        simp only [hcor] at hs
        split at hs
        · exact Option.some.inj hs ▸ h.setFirst hdue hcor not_false
        · next first hfirstCoroutine =>
          split at hs
          · obtain rfl := Option.some.inj hs
            have hthread := goto_thread w r (.events rest)
            refine (hgoto (.events rest) rfl not_false).push cause hcor ⟨hat.1, hat.2, hat.3⟩ hpending ?_ ?_
            · unfold dueAt
              rw [hthread]
              exact honce.1
            · unfold First at hfirst ⊢
              rw [hthread]
              rw [hpc] at hfirst
              exact hfirst
          · obtain ⟨event, ticket, hk⟩ := (h.owner fd c).mp hcor
            exact (hgoto (.resumedDirectly rest) rfl not_false).wake (k := ⟨fd, event, ticket⟩) hk
              hat.reactor hat.queue (h.clearing hat hpending honce.1 trivial) hs

theorem Single.advance {type : ρ → ReactorType} {w w' : World ρ κ} (h : Single w) {r : ρ}
    (hs : w.advance type r = some w') : Single w' := by
  unfold World.advance at hs
  cases hpc : (w.threads r).pc with
  | outside =>
    simp only [hpc] at hs
    exact Option.some.inj hs ▸ h.goto rfl (.inr rfl) (List.nil_sublist _)
      (fun hclear => absurd hclear (by rw [hpc]; exact not_false)) (absurd · not_false)
  | timer rest =>
    simp only [hpc] at hs
    exact Option.some.inj hs ▸ h.goto rfl (.inr rfl) (by rw [hpc]; exact List.Sublist.refl _)
      (fun hclear => absurd hclear (by rw [hpc]; exact not_false)) (absurd · not_false)
  | resumedFirst =>
    simp only [hpc, setFirst_goto] at hs
    exact Option.some.inj hs ▸ h.goto rfl (.inl rfl) (List.nil_sublist _) (fun _ => .inr rfl) fun _ => rfl
  | resumedDirectly rest =>
    simp only [hpc, setFirst_goto] at hs
    exact Option.some.inj hs ▸ h.goto rfl (.inl rfl) (by rw [hpc]; exact List.Sublist.refl _)
      (fun _ => .inr rfl) fun _ => rfl
  | top =>
    simp only [hpc] at hs
    split at hs
    · next hnone =>
      exact Option.some.inj hs ▸ h.goto rfl (.inr rfl) (List.nil_sublist _)
        (fun hclear => absurd hclear (by rw [hpc]; exact not_false)) fun _ => hnone
    · next hsome => exact h.resumeFirst hpc hsome hs
  | queue =>
    have hnone : (w.threads r).firstCoroutine = none := h.cleared r (by rw [hpc]; trivial)
    have hgoto : Single (w.goto r .tasks) := h.goto rfl (.inr rfl) (List.nil_sublist _)
      (fun hclear => absurd hclear (by rw [hpc]; exact not_false)) fun _ => hnone
    simp only [hpc] at hs
    split at hs
    · exact Option.some.inj hs ▸ hgoto
    · exact Option.some.inj hs ▸ hgoto
    · next hqueue => exact h.popped hqueue hs
  | tasks => simp [hpc] at hs
  | events batch =>
    cases batch with
    | nil =>
      simp only [hpc] at hs
      exact Option.some.inj hs ▸ (h.drain r).goto rfl (.inr rfl) (List.nil_sublist _)
        (fun hclear => absurd hclear (by show ¬ (w.threads r).pc.Clearing; rw [hpc]; exact not_false))
        (absurd · not_false)
    | cons item rest =>
      obtain ⟨report, cause⟩ := item
      simp only [hpc] at hs
      exact h.handle hpc hs

end

end World

end CoroutineRpc.Net.Loop
