import CoroutineRpc.Net.Switch

/-! Runs of the threads that switch.

A coroutine waits in one place: in the line of a mutex, among the resume tasks of a reactor or
in a hook (`Seated`). One that is published has not been picked out of there (`Unpicked`) as
long as mutexes pop and `epoll_wait` reports behind the `Yield`, so that what is switched to
is suspended (`switched_of_settled`). -/
namespace CoroutineRpc.Net.Switch
open Library.Transition Loop

variable {ρ κ μ : Type}

/-! ### Every coroutine has one place -/

/-- The coroutines that wait for a mutex, or whose resume tasks wait at a reactor. -/
def line (s : State ρ κ μ) : μ ⊕ ρ → List κ
  | .inl m => (s.mutexes m).mSleepCors
  | .inr r => (s.tasks r).tmp ++ (s.tasks r).pending

/-- A coroutine is in at most one line, once, and suspended there. -/
structure Seated (s : State ρ κ μ) (seat : κ → Option (μ ⊕ ρ)) : Prop where
  line : ∀ q, ∀ c ∈ line s q, seat c = some q
  once : ∀ q, (Switch.line s q).Nodup
  suspended : ∀ c, seat c ≠ none → s.world.place c = .suspended
  fresh : ∀ c, s.started c = false → seat c = none ∧ s.world.place c = .suspended

/-- A coroutine that is published is still in the line of its mutex, or no loop has an event for
the descriptor of its hook. -/
def Unpicked (s : State ρ κ μ) (c : κ) : Prop :=
  (∃ m, c ∈ (s.mutexes m).mSleepCors) ∨ ∃ k, s.world.place c = .hook k ∧ ¬ Called s.world k.fd

structure Kept (s : State ρ κ μ) : Prop where
  single : s.world.Single
  seated : ∃ seat, Seated s seat
  unpicked : ∀ r c, s.publishing r = some c → Unpicked s c

theorem kept_init : Kept ({} : State ρ κ μ) where
  single := World.single_init
  seated := ⟨fun _ => none,
    { line := fun q c hc => by cases q <;> cases hc
      once := fun q => by cases q <;> exact List.nodup_nil
      suspended := fun _ h => absurd rfl h
      fresh := fun _ _ => ⟨rfl, rfl⟩ }⟩
  unpicked _ _ := nofun

/-- The lines get shorter, and the coroutines in them stay suspended. -/
theorem Seated.of_sublist {s t : State ρ κ μ} {seat : κ → Option (μ ⊕ ρ)} (h : Seated s seat)
    (hline : ∀ q, (Switch.line t q).Sublist (Switch.line s q)) (hstarted : t.started = s.started)
    (hplace : ∀ c, s.world.place c = .suspended → t.world.place c = .suspended) : Seated t seat where
  line q c hc := h.line q c ((hline q).subset hc)
  once q := (h.once q).sublist (hline q)
  suspended c hc := hplace c (h.suspended c hc)
  fresh c hc := by
    rw [hstarted] at hc
    exact ⟨(h.fresh c hc).1, hplace c (h.fresh c hc).2⟩

/-- `c` moves to the line `dest`, or out of all lines. -/
theorem Seated.move [DecidableEq κ] {s t : State ρ κ μ} {seat : κ → Option (μ ⊕ ρ)} (h : Seated s seat)
    (c : κ) (dest : Option (μ ⊕ ρ))
    (hline : ∀ q, ∀ d ∈ Switch.line t q, d = c ∧ dest = some q ∨ d ≠ c ∧ d ∈ Switch.line s q)
    (honce : ∀ q, (Switch.line t q).Nodup) (hdest : dest ≠ none → t.world.place c = .suspended)
    (hplace : ∀ d ≠ c, s.world.place d = .suspended → t.world.place d = .suspended)
    (hc : t.started c = true) (hstarted : ∀ d ≠ c, t.started d = s.started d) :
    Seated t (Function.update seat c dest) where
  line q d hd := by
    rcases hline q d hd with ⟨rfl, hq⟩ | ⟨hne, hd⟩
    · rw [Function.update_self, hq]
    · rw [Function.update_of_ne hne]
      exact h.line q d hd
  once := honce
  suspended d hd := by
    by_cases hne : d = c
    · rw [hne, Function.update_self] at hd
      rw [hne]
      exact hdest hd
    · rw [Function.update_of_ne hne] at hd
      exact hplace d hne (h.suspended d hd)
  fresh d hd := by
    have hne : d ≠ c := by
      rintro rfl
      rw [hc] at hd
      cases hd
    rw [hstarted d hne] at hd
    rw [Function.update_of_ne hne]
    exact ⟨(h.fresh d hd).1, hplace d hne (h.fresh d hd).2⟩

section
variable {s : State ρ κ μ} {seat : κ → Option (μ ⊕ ρ)} {q : μ ⊕ ρ} {c : κ}

theorem Seated.waits (h : Seated s seat) (hc : c ∈ Switch.line s q) : s.world.place c = .suspended := by
  refine h.suspended c ?_
  rw [h.line q c hc]
  exact Option.some_ne_none q

/-- A coroutine that is not suspended is in no line. -/
theorem Seated.not_mem (h : Seated s seat) (hc : s.world.place c ≠ .suspended) (q : μ ⊕ ρ) :
    c ∉ Switch.line s q := mt h.waits hc

theorem Seated.same_line (h : Seated s seat) (hc : c ∈ Switch.line s q) {q' : μ ⊕ ρ}
    (hc' : c ∈ Switch.line s q') : q = q' :=
  Option.some.inj ((h.line q c hc).symm.trans (h.line q' c hc'))

/-- A coroutine that is in a line has been started. -/
theorem Seated.started (h : Seated s seat) (hc : c ∈ Switch.line s q) : s.started c = true := by
  by_contra hfresh
  have hnone := (h.fresh c (Bool.not_eq_true _ ▸ hfresh)).1
  rw [h.line q c hc] at hnone
  cases hnone

end

/-- What `unlock` does with the coroutines that wait. -/
theorem unlock_cases (m : CoroutineMutex κ) :
    (m.unlock.2 = none ∧ m.unlock.1.mSleepCors = m.mSleepCors) ∨
      ∃ c, m.unlock.2 = some c ∧ m.mSleepCors = c :: m.unlock.1.mSleepCors := by
  unfold CoroutineMutex.unlock
  split
  · split
    · next hcors => exact .inl ⟨rfl, rfl⟩
    · next c rest hcors => exact .inr ⟨c, rfl, hcors⟩
  · exact .inl ⟨rfl, rfl⟩

/-- What a published coroutine is not: it is not running, and no resume task of it waits. -/
theorem Kept.not_publishing {s : State ρ κ μ} (h : Kept s) {c : κ}
    (hc : (∃ r, s.world.place c = .running r) ∨ (∃ r, c ∈ line s (.inr r)) ∨
      ∃ k, s.world.place c = .hook k ∧ Called s.world k.fd) (r : ρ) : s.publishing r ≠ some c := by
  intro hpublishing
  obtain ⟨seat, hseat⟩ := h.seated
  rcases h.unpicked r c hpublishing with ⟨m, hm⟩ | ⟨k, hk, hnot⟩
  · replace hm : c ∈ line s (.inl m) := hm
    have hplace := hseat.waits hm
    rcases hc with ⟨r', hrunning⟩ | ⟨r', htask⟩ | ⟨k, hk, -⟩
    · rw [hplace] at hrunning
      cases hrunning
    · cases hseat.same_line hm htask
    · rw [hplace] at hk
      cases hk
  · rcases hc with ⟨r', hrunning⟩ | ⟨r', htask⟩ | ⟨k', hk', hcalled⟩
    · rw [hk] at hrunning
      cases hrunning
    · rw [hseat.waits htask] at hk
      cases hk
    · obtain rfl := Place.hook.inj (hk.symm.trans hk')
      exact hnot hcalled

/-- The loops get no event for the descriptor of a published coroutine. -/
theorem Kept.world {s : State ρ κ μ} (h : Kept s) {world : World ρ κ} (hsingle : world.Single)
    (hplace : ∀ c, s.world.place c = .suspended → world.place c = .suspended)
    (hcalled : ∀ r c k, s.publishing r = some c → s.world.place c = .hook k → ¬ Called s.world k.fd →
      world.place c = .hook k ∧ ¬ Called world k.fd) : Kept {s with world} := by
  obtain ⟨seat, hseat⟩ := h.seated
  refine ⟨hsingle, ⟨seat, hseat.of_sublist (fun _ => List.Sublist.refl _) rfl hplace⟩, fun r c hc => ?_⟩
  rcases h.unpicked r c hc with hmutex | ⟨k, hk, hnot⟩
  · exact .inl hmutex
  · exact .inr ⟨k, hcalled r c k hc hk hnot⟩

/-- The coroutines that are published when another one is. -/
theorem publish_cases [DecidableEq ρ] {s : State ρ κ μ} {r r' : ρ} {c d : κ} {world : World ρ κ}
    (h : (publish s r c world).publishing r' = some d) : d = c ∨ s.publishing r' = some d := by
  replace h : Function.update s.publishing r (some c) r' = some d := h
  rw [Function.update_apply] at h
  split at h
  · exact .inl (Option.some.inj h).symm
  · exact .inr h

theorem caller_running {s : State ρ κ μ} (h : Kept s) {r : ρ} {c : κ} (hc : caller s r = some c) :
    s.world.place c = .running r := by
  obtain ⟨-, hcur⟩ := Option.ite_none_right_eq_some.mp hc
  exact h.single.current r c hcur

/-- **Whatever is switched to is suspended**: a task was popped behind the `Yield`, and an event
reported behind it. -/
theorem Kept.switched {type : ρ → ReactorType} {s : State ρ κ μ} {i : Input ρ κ μ} (h : Kept s) :
    Switched type s i := by
  intro c hc
  obtain ⟨htarget, -⟩ := Option.filter_eq_some_iff.mp hc
  cases i with
  | advance r' =>
    obtain ⟨k, hk, hcalled⟩ := nextResumed_called h.single htarget
    refine ⟨h.not_publishing (.inr (.inr ⟨k, hk, hcalled⟩)), fun r hrunning => ?_⟩
    rw [hrunning] at hk
    cases hk
  | task r' =>
    have hin : c ∈ line s (.inr r') :=
      List.mem_append_left _ (List.mem_of_mem_head? (Option.mem_def.mpr htarget))
    refine ⟨h.not_publishing (.inr (.inl ⟨r', hin⟩)), fun r hrunning => ?_⟩
    obtain ⟨seat, hseat⟩ := h.seated
    cases hrunning.symm.trans (hseat.waits hin)
  | _ => cases htarget

/-- What is reported is for coroutines behind their `Yield`. -/
theorem Kept.poll [DecidableEq ρ] {s : State ρ κ μ} (h : Kept s) {r : ρ} {reports : List Report}
    (hpc : (s.world.threads r).pc = .tasks) (hready : Reported (s.world.registry.reactors r) reports)
    (hreported : ∀ fd ∈ reports.filterMap Report.due, ∀ c ∈ (s.world.registry.fdEvents fd).coroutine,
      ∀ r, s.publishing r ≠ some c) :
    Kept {s with world := s.world.goto r (.events (reports.map s.world.withCause))} := by
  refine h.world (h.single.poll hpc hready) (fun _ hc => hc) fun r' c k hc hk hnot => ⟨hk, fun hcalled => ?_⟩
  have hclear : ¬ (s.world.threads r).pc.Clearing := by rw [hpc]; exact not_false
  have hmap : (reports.map s.world.withCause).map Prod.fst = reports := by
    rw [List.map_map]
    exact List.map_id reports
  refine hnot (called_setThread hcalled (fun hin => ?_) fun d cause _ hfirst hcor => ?_)
  · replace hin : k.fd ∈ ((reports.map s.world.withCause).map Prod.fst).filterMap Report.due := hin
    rw [hmap] at hin
    have hcor := (h.single.owner k.fd c).mpr ⟨k.event, k.ticket, hk⟩
    exact absurd hc (hreported k.fd hin c hcor r')
  · exact .inr ⟨r, .inr ⟨hclear, d, cause, hfirst, hcor⟩⟩

section
variable [DecidableEq ρ] [DecidableEq κ]

theorem Kept.advance {type : ρ → ReactorType} {s : State ρ κ μ} (h : Kept s) {r : ρ} {world : World ρ κ}
    (hs : s.world.advance type r = some world) : Kept {s with world} := by
  refine h.world (h.single.advance hs) (fun c hc => advance_suspended h.single hs hc) ?_
  intro r' c k _ hk hnot
  refine ⟨?_, mt (called_advance h.single hs) hnot⟩
  rcases advance_place hs with heq | ⟨other, hother, heq⟩
  · rw [heq]
    exact hk
  · -- it resumes a coroutine whose descriptor it has an event for
    have hne : c ≠ other := by
      rintro rfl
      obtain ⟨k', hk', hcalled⟩ := nextResumed_called h.single hother
      obtain rfl := Place.hook.inj (hk.symm.trans hk')
      exact hnot hcalled
    rw [heq, Function.update_of_ne hne]
    exact hk

/-- The steps of a loop that run no coroutine but those in hooks, and of a coroutine. -/
theorem Kept.loop {type : ρ → ReactorType} {s t : State ρ κ μ} (h : Kept s) {r : ρ} {i : Loop.Input ρ κ}
    (hi : i = .advance r ∨ i = .leave r ∨ (∃ reports, i = .poll r reports ∧
      ∀ fd ∈ reports.filterMap Report.due, ∀ c ∈ (s.world.registry.fdEvents fd).coroutine,
        ∀ r, s.publishing r ≠ some c) ∨ i = .pollError r ∨ (∃ fd, i = .hookReturn r fd) ∨ i = .yield r)
    (hs : loopStep type s r i = some t) : Kept t := by
  obtain ⟨-, hs⟩ := Option.ite_none_right_eq_some.mp hs
  obtain ⟨world, hworld, rfl⟩ := Option.map_eq_some_iff.mp hs
  rcases hi with rfl | rfl | ⟨reports, rfl, hreported⟩ | rfl | ⟨fd, rfl⟩ | rfl
  · obtain ⟨-, hadvance⟩ := Option.ite_none_right_eq_some.mp hworld
    exact h.advance hadvance
  · obtain ⟨⟨-, hpc⟩, hleave⟩ := Option.ite_none_right_eq_some.mp hworld
    obtain rfl := Option.some.inj hleave
    refine h.world ?_ (fun _ hc => hc) fun _ _ _ _ hk hnot => ⟨hk, fun hcalled => hnot ?_⟩
    · rw [World.setFirst_goto]
      exact h.single.goto rfl (.inl rfl) (List.nil_sublist _) (fun _ => .inr rfl) fun _ => rfl
    · exact called_cleared hcalled (List.nil_sublist _)
  · obtain ⟨-, hpoll⟩ := Option.ite_none_right_eq_some.mp hworld
    obtain ⟨⟨hpc, hready⟩, hpoll⟩ := Option.ite_none_right_eq_some.mp hpoll
    obtain rfl := Option.some.inj hpoll
    exact h.poll hpc hready hreported
  · obtain ⟨⟨-, hpc⟩, herror⟩ := Option.ite_none_right_eq_some.mp hworld
    obtain rfl := Option.some.inj herror
    have hclear : ¬ (s.world.threads r).pc.Clearing := by rw [hpc]; exact not_false
    refine h.world ?_ (fun _ hc => hc) fun _ _ _ _ hk hnot => ⟨hk, fun hcalled => hnot ?_⟩
    · exact h.single.goto rfl (.inr rfl) (List.nil_sublist _) (absurd · hclear) (absurd · not_false)
    · exact called_goto hcalled (List.nil_sublist _) hclear
  · obtain ⟨-, hreturn⟩ := Option.ite_none_right_eq_some.mp hworld
    obtain rfl := Option.some.inj hreturn
    refine h.world (h.single.hookReturn r fd) (fun _ hc => hc) fun _ _ _ _ hk hnot => ⟨hk, fun hcalled => hnot ?_⟩
    refine called_of_le hcalled .inl fun c hc => ?_
    rwa [Registry.setFdReactor_coroutine] at hc
  · simp only [World.step] at hworld
    split at hworld
    · next c hcur =>
      obtain rfl := Option.some.inj hworld
      have hc := h.single.current r c hcur
      refine h.world (h.single.yield hc) (fun d hd => ?_) fun _ d k _ hk hnot => ⟨?_, mt called_swap.mp hnot⟩
      · rw [World.swap_place]
        split
        · rfl
        · exact hd
      · rw [World.swap_place, if_neg (World.ne_of_place hc hk (by simp))]
        exact hk
    · cases hworld

theorem Kept.hook {s : State ρ κ μ} (h : Kept s) {r : ρ} {c : κ} {fd : Int} (event : IOEvent)
    (hc : s.world.place c = .running r) (hfd : 0 ≤ fd)
    (hfree : (s.world.registry.fdEvents fd).coroutine = none) :
    Kept (publish s r c (s.world.hook r c fd event)) := by
  obtain ⟨seat, hseat⟩ := h.seated
  have hplace : ∀ d, s.world.place d ≠ .running r →
      (s.world.hook r c fd event).place d = s.world.place d := fun d hd => by
    rw [World.hook_place, if_neg]
    rintro rfl
    exact hd hc
  refine ⟨h.single.hook event hc hfd hfree, ⟨seat, hseat.of_sublist (fun _ => List.Sublist.refl _) rfl ?_⟩, ?_⟩
  · intro d hd
    exact (hplace d (by rw [hd]; simp)).trans hd
  intro r' d hd
  rcases publish_cases hd with rfl | hd
  · refine .inr ⟨⟨fd, event, s.world.tickets⟩, ?_, fun hcalled => (called_hook h.single hc hfree hcalled).1 rfl⟩
    exact (World.hook_place ..).trans (if_pos rfl)
  · rcases h.unpicked r' d hd with hmutex | ⟨k, hk, hnot⟩
    · exact .inl hmutex
    · refine .inr ⟨k, ?_, fun hcalled => hnot (called_hook h.single hc hfree hcalled).2⟩
      exact (hplace d (by rw [hk]; simp)).trans hk

end

section
variable [DecidableEq ρ] [DecidableEq μ]

theorem line_setTasks (s : State ρ κ μ) (r : ρ) (l : TaskList κ) (q : μ ⊕ ρ) :
    line (setTasks s r l) q = if q = .inr r then l.tmp ++ l.pending else line s q := by
  cases q with
  | inl m => rfl
  | inr r' =>
    show (Function.update s.tasks r l r').tmp ++ (Function.update s.tasks r l r').pending = _
    by_cases hr : r' = r
    · simp [hr]
    · simp [hr, line]

theorem line_setMutex (s : State ρ κ μ) (m : μ) (mutex : CoroutineMutex κ) (q : μ ⊕ ρ) :
    line {s with mutexes := Function.update s.mutexes m mutex} q =
      if q = .inl m then mutex.mSleepCors else line s q := by
  cases q with
  | inr r => rfl
  | inl m' =>
    show (Function.update s.mutexes m mutex m').mSleepCors = _
    by_cases hm : m' = m
    · simp [hm]
    · simp [hm, line]

/-- A mutex that nobody holds is taken. -/
theorem Kept.take {s : State ρ κ μ} (h : Kept s) (m : μ) :
    Kept {s with mutexes := Function.update s.mutexes m {s.mutexes m with mLock := true}} := by
  obtain ⟨seat, hseat⟩ := h.seated
  have hline : ∀ q, line {s with
      mutexes := Function.update s.mutexes m {s.mutexes m with mLock := true}} q = line s q := fun q => by
    rw [line_setMutex]
    split
    · next hq => rw [hq]; rfl
    · rfl
  refine ⟨h.single, ⟨seat, hseat.of_sublist (fun q => by rw [hline]) rfl fun _ hc => hc⟩, fun r d hd => ?_⟩
  refine (h.unpicked r d hd).imp_left fun ⟨m', hin⟩ => ⟨m', ?_⟩
  replace hin : d ∈ line s (.inl m') := hin
  rwa [← hline] at hin

theorem Kept.swapTasks {s : State ρ κ μ} (h : Kept s) (r : ρ) : Kept (swapTasks s r) := by
  unfold Switch.swapTasks
  split
  · obtain ⟨seat, hseat⟩ := h.seated
    refine ⟨h.single, ⟨seat, hseat.of_sublist (fun q => ?_) rfl fun _ hc => hc⟩, h.unpicked⟩
    rw [line_setTasks]
    split
    · next hq =>
      rw [hq]
      show ((s.tasks r).pending ++ []).Sublist ((s.tasks r).tmp ++ (s.tasks r).pending)
      rw [List.append_nil]
      exact List.sublist_append_right ..
    · exact List.Sublist.refl _
  · exact h

end

section
variable [DecidableEq ρ] [DecidableEq κ] [DecidableEq μ]

/-- `c` joins the resume tasks of `r`. -/
theorem Seated.push {s t : State ρ κ μ} {seat : κ → Option (μ ⊕ ρ)} (h : Seated s seat) {r : ρ} {c : κ}
    (hline : ∀ q, (Switch.line t q).Sublist (Switch.line s q)) (hnot : ∀ q, c ∉ Switch.line t q)
    (hc : t.world.place c = .suspended) (hstarted : t.started c = true)
    (hothers : ∀ d ≠ c, t.started d = s.started d) (hworld : t.world = s.world) :
    Seated (setTasks t r ((t.tasks r).push [c])) (Function.update seat c (some (.inr r))) := by
  have hpush : ∀ q, Switch.line (setTasks t r ((t.tasks r).push [c])) q =
      if q = .inr r then Switch.line t q ++ [c] else Switch.line t q := by
    intro q
    rw [line_setTasks]
    split
    · next hq =>
      rw [hq]
      exact (List.append_assoc ..).symm
    · rfl
  refine h.move c _ (fun q d hd => ?_) (fun q => ?_) (fun _ => hc) (fun d _ hd => ?_) hstarted hothers
  · rw [hpush] at hd
    split at hd
    · next hq =>
      rcases List.mem_append.mp hd with hd | hd
      · exact .inr ⟨fun heq => hnot q (heq ▸ hd), (hline q).subset hd⟩
      · exact .inl ⟨List.mem_singleton.mp hd, by rw [hq]⟩
    · exact .inr ⟨fun heq => hnot q (heq ▸ hd), (hline q).subset hd⟩
  · rw [hpush]
    have honce := (h.once q).sublist (hline q)
    split
    · exact List.concat_eq_append ▸ honce.concat (hnot q)
    · exact honce
  · show t.world.place d = .suspended
    rw [hworld]
    exact hd

theorem Kept.addCoroutine {s : State ρ κ μ} (h : Kept s) (r : ρ) {c : κ} (hc : s.started c = false) :
    Kept (setTasks {s with started := Function.update s.started c true} r ((s.tasks r).push [c])) := by
  obtain ⟨seat, hseat⟩ := h.seated
  obtain ⟨hnone, hplace⟩ := hseat.fresh c hc
  refine ⟨h.single, ⟨_, hseat.push (t := {s with started := Function.update s.started c true})
    (fun q => List.Sublist.refl _) (fun q hin => ?_) hplace (Function.update_self ..)
    (fun d hd => Function.update_of_ne hd ..) rfl⟩, h.unpicked⟩
  have := hseat.line q c hin
  rw [hnone] at this
  cases this

theorem Kept.unlock {s : State ρ κ μ} (h : Kept s) (r : ρ) (m : μ)
    (hpopped : ∀ c ∈ (s.mutexes m).mSleepCors.head?, ∀ r, s.publishing r ≠ some c) : Kept (unlockBy s r m) := by
  obtain ⟨seat, hseat⟩ := h.seated
  have hunpicked : ∀ r' d, s.publishing r' = some d → Unpicked (unlockBy s r m) d := by
    intro r' d hd
    rcases h.unpicked r' d hd with ⟨m', hin⟩ | hhook
    · refine .inl ⟨m', ?_⟩
      show d ∈ (Function.update s.mutexes m (s.mutexes m).unlock.1 m').mSleepCors
      by_cases hm : m' = m
      · subst hm
        rw [Function.update_self]
        rcases unlock_cases (s.mutexes m') with ⟨-, hcors⟩ | ⟨c, -, hcors⟩
        · rwa [hcors]
        · rw [hcors] at hin hpopped
          have hne : d ≠ c := fun heq => hpopped c rfl r' (heq ▸ hd)
          exact (List.mem_cons.mp hin).resolve_left hne
      · rwa [Function.update_of_ne hm]
    · exact .inr hhook
  let t : State ρ κ μ := {s with mutexes := Function.update s.mutexes m (s.mutexes m).unlock.1}
  have hsub : ∀ q, (line t q).Sublist (line s q) := by
    intro q
    rw [line_setMutex]
    split
    · next hq =>
      rw [hq]
      rcases unlock_cases (s.mutexes m) with ⟨-, hcors⟩ | ⟨c, -, hcors⟩
      · rw [hcors]
        exact List.Sublist.refl _
      · show (_ : List κ).Sublist (s.mutexes m).mSleepCors
        rw [hcors]
        exact List.sublist_cons_self ..
    · exact List.Sublist.refl _
  show Kept (setTasks t r ((t.tasks r).push (s.mutexes m).unlock.2.toList))
  rcases unlock_cases (s.mutexes m) with ⟨hnext, -⟩ | ⟨c, hnext, hcors⟩
  · refine ⟨h.single, ⟨seat, hseat.of_sublist (fun q => ?_) rfl fun _ hc => hc⟩, hunpicked⟩
    rw [line_setTasks, hnext]
    split
    · next hq =>
      rw [hq]
      show ((t.tasks r).tmp ++ ((t.tasks r).pending ++ [])).Sublist _
      rw [List.append_nil]
      exact hsub (.inr r)
    · exact hsub q
  · rw [hnext]
    have hin : c ∈ line s (.inl m) := by
      show c ∈ (s.mutexes m).mSleepCors
      rw [hcors]
      exact List.mem_cons_self ..
    refine ⟨h.single, ⟨_, hseat.push (t := t) hsub (fun q hq => ?_) (hseat.waits hin) (hseat.started hin)
      (fun _ _ => rfl) rfl⟩, hunpicked⟩
    obtain rfl := hseat.same_line ((hsub q).subset hq) hin
    rw [line_setMutex, if_pos rfl] at hq
    have honce : (s.mutexes m).mSleepCors.Nodup := hseat.once (.inl m)
    rw [hcors, List.nodup_cons] at honce
    exact honce.1 hq

/-- A coroutine that waits for a mutex is published in its line. -/
theorem Kept.wait {s : State ρ κ μ} (h : Kept s) {r : ρ} {c : κ} (hc : s.world.place c = .running r) (m : μ) :
    Kept (publish {s with
      mutexes := Function.update s.mutexes m
        {s.mutexes m with mSleepCors := (s.mutexes m).mSleepCors ++ [c]}} r c
      (s.world.swap r c .suspended none)) := by
  obtain ⟨seat, hseat⟩ := h.seated
  have hne : s.world.place c ≠ .suspended := by rw [hc]; simp
  let t : State ρ κ μ := {s with
    mutexes := Function.update s.mutexes m
      {s.mutexes m with mSleepCors := (s.mutexes m).mSleepCors ++ [c]}}
  have hline : ∀ q, line t q = if q = .inl m then line s q ++ [c] else line s q := by
    intro q
    rw [line_setMutex]
    split
    · next hq => rw [hq]; rfl
    · rfl
  have hold : ∀ q, ∀ d ∈ line s q, d ∈ line t q := by
    intro q d hd
    rw [hline]
    split
    · exact List.mem_append_left _ hd
    · exact hd
  refine ⟨h.single.yield hc, ⟨_, hseat.move c (some (.inl m)) (fun q d hd => ?_) (fun q => ?_)
    (fun _ => Function.update_self ..) (fun d hd hplace => ?_) ?_ fun _ _ => rfl⟩, fun r' d hd => ?_⟩
  · replace hd : d ∈ line t q := hd
    rw [hline] at hd
    split at hd
    · next hq =>
      rcases List.mem_append.mp hd with hd | hd
      · exact .inr ⟨fun heq => hseat.not_mem hne q (heq ▸ hd), hd⟩
      · exact .inl ⟨List.mem_singleton.mp hd, by rw [hq]⟩
    · exact .inr ⟨fun heq => hseat.not_mem hne q (heq ▸ hd), hd⟩
  · show (line t q).Nodup
    rw [hline]
    split
    · exact List.concat_eq_append ▸ (hseat.once q).concat (hseat.not_mem hne q)
    · exact hseat.once q
  · exact (Function.update_of_ne hd ..).trans hplace
  · by_contra hfresh
    exact hne (hseat.fresh c (by simpa [publish] using hfresh)).2
  · rcases publish_cases hd with rfl | hd
    · have hin : d ∈ line t (.inl m) := by
        rw [hline, if_pos rfl]
        exact List.mem_append_right _ (List.mem_singleton_self d)
      exact .inl ⟨m, hin⟩
    · rcases h.unpicked r' d hd with ⟨m', hin⟩ | ⟨k, hk, hnot⟩
      · exact .inl ⟨m', hold (.inl m') d hin⟩
      · refine .inr ⟨k, ?_, mt called_swap.mp hnot⟩
        exact (World.swap_place ..).trans ((if_neg (World.ne_of_place hc hk (by simp))).trans hk)

theorem Kept.lock {s : State ρ κ μ} (h : Kept s) {r : ρ} {c : κ} (hc : s.world.place c = .running r) (m : μ) :
    Kept (lockBy s r m c) := by
  unfold lockBy CoroutineMutex.lock
  split
  · next mutex heq =>
    split at heq
    · obtain ⟨rfl, -⟩ := Prod.mk.inj heq
      exact h.take m
    · cases heq
  · next mutex heq =>
    split at heq
    · cases heq
    · obtain ⟨rfl, -⟩ := Prod.mk.inj heq
      exact h.wait hc m

/-- A resume task starts a coroutine that was in a line. -/
theorem Kept.task {s : State ρ κ μ} (h : Kept s) {r : ρ} {c : κ} {rest : List κ}
    (htmp : (s.tasks r).tmp = c :: rest) {world : World ρ κ} (hs : s.world.resume r c = some world) :
    Kept {setTasks s r {s.tasks r with tmp := rest} with world} := by
  obtain ⟨seat, hseat⟩ := h.seated
  have hin : c ∈ line s (.inr r) := by
    show c ∈ (s.tasks r).tmp ++ (s.tasks r).pending
    rw [htmp]
    simp
  have hplace := hseat.waits hin
  have hworld : world.Single ∧ ∀ d ≠ c, world.place d = s.world.place d := by
    rcases World.resume_cases hs with ⟨-, rfl⟩ | ⟨hable, -, rfl⟩ | ⟨k, -, hk, -⟩
    · exact ⟨h.single, fun _ _ => rfl⟩
    · exact ⟨h.single.start r hable hplace, fun d hd => Function.update_of_ne hd ..⟩
    · rw [hplace] at hk
      cases hk
  have honce : (line s (.inr r)).Nodup := hseat.once (.inr r)
  have hcons : line s (.inr r) = c :: (rest ++ (s.tasks r).pending) := by
    show (s.tasks r).tmp ++ (s.tasks r).pending = _
    rw [htmp]
    rfl
  rw [hcons, List.nodup_cons] at honce
  have hline : ∀ q, line {setTasks s r {s.tasks r with tmp := rest} with world} q =
      if q = .inr r then rest ++ (s.tasks r).pending else line s q := fun q =>
    line_setTasks s r {s.tasks r with tmp := rest} q
  refine ⟨hworld.1, ⟨_, hseat.move c none (fun q d hd => .inr ?_) (fun q => ?_) (fun hne => absurd rfl hne)
    (fun d hd hplace => (hworld.2 d hd).trans hplace) (hseat.started hin) fun _ _ => rfl⟩, fun r' d hd => ?_⟩
  · rw [hline] at hd
    split at hd
    · next hq =>
      rw [hq, hcons]
      exact ⟨fun heq => honce.1 (heq ▸ hd), List.mem_cons_of_mem c hd⟩
    · next hq =>
      exact ⟨fun heq => hq (hseat.same_line (heq ▸ hd) hin), hd⟩
  · rw [hline]
    split
    · exact honce.2
    · exact hseat.once q
  · rcases h.unpicked r' d hd with hmutex | ⟨k, hk, hnot⟩
    · exact .inl hmutex
    · have hne : d ≠ c := World.ne_of_place hplace hk (by simp)
      exact .inr ⟨k, (hworld.2 d hne).trans hk, mt (called_resume hs) hnot⟩

theorem Kept.step {type : ρ → ReactorType} {s t : State ρ κ μ} {i : Input ρ κ μ} (h : Kept s)
    (hi : Settled s i) (hs : step type s i = some t) : Kept t := by
  cases i with
  | advance r =>
    obtain ⟨u, hu, rfl⟩ := Option.map_eq_some_iff.mp hs
    exact (h.loop (.inl rfl) hu).swapTasks r
  | leave r => exact h.loop (.inr (.inl rfl)) hs
  | poll r reports =>
    obtain ⟨-, hs⟩ := Option.ite_none_right_eq_some.mp hs
    exact h.loop (.inr (.inr (.inl ⟨reports, rfl, hi.reported⟩))) hs
  | pollError r =>
    obtain ⟨-, hs⟩ := Option.ite_none_right_eq_some.mp hs
    exact h.loop (.inr (.inr (.inr (.inl rfl)))) hs
  | task r =>
    simp only [Switch.step] at hs
    split at hs
    · next c rest hpc htmp =>
      obtain ⟨-, hs⟩ := Option.ite_none_right_eq_some.mp hs
      obtain ⟨world, hworld, rfl⟩ := Option.map_eq_some_iff.mp hs
      obtain ⟨-, hcallback⟩ := Option.ite_none_right_eq_some.mp hworld
      exact h.task htmp (World.callback_resume hcallback)
    · cases hs
  | addCoroutine r c =>
    simp only [Switch.step] at hs
    split at hs
    · cases hs
    · next hc => exact Option.some.inj hs ▸ h.addCoroutine r (by simpa using hc)
  | hook r fd event =>
    simp only [Switch.step] at hs
    split at hs
    · next c hc =>
      obtain ⟨hfd, hs⟩ := Option.ite_none_right_eq_some.mp hs
      exact Option.some.inj hs ▸ h.hook event (caller_running h hc) hfd (hi.free fd rfl)
    · cases hs
  | hookReturn r fd => exact h.loop (.inr (.inr (.inr (.inr (.inl ⟨fd, rfl⟩))))) hs
  | lock r m =>
    simp only [Switch.step] at hs
    split at hs
    · next c hc => exact Option.some.inj hs ▸ h.lock (caller_running h hc) m
    · cases hs
  | unlock r m =>
    simp only [Switch.step] at hs
    split at hs
    · exact Option.some.inj hs ▸ h.unlock r m hi.popped
    · cases hs
  | yield r =>
    simp only [Switch.step] at hs
    split at hs
    · obtain rfl := Option.some.inj hs
      refine ⟨h.single, h.seated.imp fun _ hseat =>
        hseat.of_sublist (fun _ => List.Sublist.refl _) rfl fun _ hc => hc, fun r' d hd => ?_⟩
      replace hd : Function.update s.publishing r none r' = some d := hd
      rw [Function.update_apply] at hd
      split at hd
      · cases hd
      · exact h.unpicked r' d hd
    · cases hs
  | finish r => exact h.loop (.inr (.inr (.inr (.inr (.inr rfl))))) hs

/-! ### Runs -/

/-- **A coroutine is switched into only while it is suspended**, in every run in which mutexes pop
coroutines and `epoll_wait` reports their descriptors behind their `Yield`, and no two
coroutines wait for one descriptor. -/
theorem switched_of_settled (type : ρ → ReactorType) (inputs : List (Input ρ κ μ))
    (h : Meets (step type) Settled {} inputs) : Meets (step type) (Switched type) {} inputs :=
  Meets.imp_of_step (fun _ _ _ hs hi ht => Kept.step hs hi ht) (fun _ _ hs _ => hs.switched) kept_init h

end

/-- A coroutine waits for the mutex that another holds, is resumed, and then waits to read. -/
theorem switched_of_settled_handover :
    Meets (step fun _ => .sub) (Switched fun _ => .sub) ({} : State Bool Bool Unit)
      [.addCoroutine false false, .addCoroutine true true, .advance false, .advance false, .advance false,
        .task false, .lock false (), .advance true, .advance true, .advance true, .task true,
        .lock true (), .yield true, .unlock false (), .finish false, .poll false [], .advance false,
        .advance false, .advance false, .task false, .hook false 5 .read, .yield false,
        .poll false [.io 5 {epollin := true}], .advance false, .advance false, .advance false] :=
  switched_of_settled _ _ (by decide)

/-- A coroutine has pushed itself and not yielded yet when the holder unlocks on another thread,
whose loop then runs the resume task. -/
theorem not_switched_unlock : ¬ ∀ (type : Bool → ReactorType) (inputs : List (Input Bool Bool Unit)),
    Meets (step type) (Switched type) {} inputs := fun h => by
  have := h (fun _ => .sub) [.addCoroutine false false, .addCoroutine true true, .advance false,
    .advance false, .advance false, .task false, .lock false (), .advance true, .advance true,
    .advance true, .task true, .lock true (), .unlock false (), .finish false, .poll false [],
    .advance false, .advance false, .advance false, .task false]
  revert this
  decide

end CoroutineRpc.Net.Switch
