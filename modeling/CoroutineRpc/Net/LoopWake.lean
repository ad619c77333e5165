import CoroutineRpc.Net.Loop

/-! A coroutine that waits in a hook can be woken.

Four places may keep it: the registered set of its descriptor's reactor, the pending adds
there, the queue, and `first_coroutine`. `Attended` is the invariant, and `Careful` says
which steps keep it: an event without EPOLLIN and EPOLLOUT unregisters a descriptor without
a look at its coroutine, an `FdEvent` has room for one coroutine, and a pending add that is
narrower than a new one wins. -/
namespace CoroutineRpc.Net.Loop
open Library.Transition

namespace World
variable {ρ κ : Type}

/-- The ways in which the coroutine `c`, waiting in the hook call `h`, can be woken. -/
def Wakeable (w : World ρ κ) (c : κ) (h : Hook) : Prop :=
  (∃ r, (w.registry.fdEvents h.fd).reactor = some r ∧
    ((h.fd ∈ (w.registry.reactors r).fds ∧ ∃ m ∈ (w.registry.reactors r).epoll h.fd, m.has h.event) ∨
      ∃ m, (h.fd, m) ∈ (w.registry.reactors r).pendingAddFds ∧ m.has h.event)) ∨
  h.fd ∈ w.queue.map Prod.fst ∨
  ∃ r cause, (w.threads r).firstCoroutine = some (c, cause)

def NoOrphan (w : World ρ κ) : Prop := ∀ c h, w.place c = .hook h → w.Wakeable c h

/-- No coroutine depends on how `fd` is registered. -/
abbrev Unneeded (w : World ρ κ) (fd : Int) : Prop :=
  (w.registry.fdEvents fd).coroutine = none ∨ fd ∈ w.queue.map Prod.fst

/-- An event without EPOLLIN and EPOLLOUT comes for a descriptor that is not needed, or
needed elsewhere: at another reactor or through a pending add. -/
abbrev Harmless (w : World ρ κ) (r : ρ) (fd : Int) (events : Mask) : Prop :=
  events.epollin ∨ events.epollout ∨ w.Unneeded fd ∨ (w.registry.fdEvents fd).reactor ≠ some r ∨
    fd ∈ (w.registry.reactors r).pendingAddFds.map Prod.fst

/-- Nothing is pending at the reactor of `fd` that would drop an interest in `event`. -/
abbrev Undisputed (w : World ρ κ) (r : ρ) (fd : Int) (event : IOEvent) : Prop :=
  (∀ p ∈ (w.registry.reactors (w.registry.reactorOf r fd)).pendingAddFds, p.1 = fd → p.2.has event) ∧
    fd ∉ (w.registry.reactors (w.registry.reactorOf r fd)).pendingDelFds

/-- The descriptor event that the loop of `r` handles next. -/
def nextEvent (w : World ρ κ) (r : ρ) : Option (Int × Mask) :=
  match (w.threads r).pc with
  | .events ((.io fd events, _) :: _) => some (fd, events)
  | _ => none

/-- The steps that leave every waiting coroutine a way to be woken. -/
def Careful (w : World ρ κ) : Input ρ κ → Prop
  | .advance r => ∀ event ∈ w.nextEvent r, w.Harmless r event.1 event.2
  | .hook r fd event => (w.registry.fdEvents fd).coroutine = none ∧ w.Undisputed r fd event
  | .unregister _ fd => w.Unneeded fd
  | .connection fd owner => w.Unneeded fd ∨ (w.registry.fdEvents fd).reactor = some owner
  | _ => True

instance [DecidableEq ρ] (w : World ρ κ) : DecidablePred w.Careful
  | .advance r => inferInstanceAs (Decidable (∀ event ∈ w.nextEvent r, _))
  | .hook _ _ _ => inferInstanceAs (Decidable (_ ∧ _))
  | .unregister _ fd => inferInstanceAs (Decidable (w.Unneeded fd))
  | .connection _ _ => inferInstanceAs (Decidable (_ ∨ _))
  | .leave _ | .callback _ _ | .poll _ _ | .pollError _ | .hookReturn _ _ | .yield _ | .quit _ =>
    isTrue trivial

/-! ### What keeps a waiting coroutine -/

/-- What holds of descriptors and coroutines whether or not a coroutine can be woken: an
`FdEvent` has the one coroutine that waits for its descriptor, and listens for nothing else. -/
structure Sound (w : World ρ κ) : Prop where
  valid : w.registry.Valid
  owner : ∀ fd c, (w.registry.fdEvents fd).coroutine = some c ↔
    ∃ event ticket, w.place c = .hook ⟨fd, event, ticket⟩
  listens : ∀ fd event, (w.registry.fdEvents fd).listenEvents.has event →
    ∃ c ticket, w.place c = .hook ⟨fd, event, ticket⟩
  nonneg : ∀ c h, w.place c = .hook h → 0 ≤ h.fd
  able : ∀ c, w.place c ≠ .suspended → w.canResume c
  current : ∀ r c, (w.threads r).current = some c → w.place c = .running r

/-- The hook call is kept by its reactor or by the queue. -/
def Kept (w : World ρ κ) (h : Hook) : Prop :=
  (∃ r, (w.registry.fdEvents h.fd).reactor = some r ∧ (w.registry.reactors r).Awaits h.fd h.event) ∨
    h.fd ∈ w.queue.map Prod.fst

structure Attended (w : World ρ κ) : Prop extends Sound w where
  kept : ∀ c h, w.place c = .hook h → w.Kept h

theorem Sound.unique {w : World ρ κ} (h : Sound w) {c c' : κ} {k k' : Hook} (hc : w.place c = .hook k)
    (hc' : w.place c' = .hook k') (hfd : k.fd = k'.fd) : c = c' := by
  have hk := (h.owner k.fd c).mpr ⟨k.event, k.ticket, hc⟩
  have hk' := (h.owner k.fd c').mpr ⟨k'.event, k'.ticket, by rw [hfd]; exact hc'⟩
  exact Option.some.inj (hk.symm.trans hk')

/-- A running coroutine is in no `FdEvent`. -/
theorem Sound.not_owner {w : World ρ κ} (h : Sound w) {r : ρ} {c : κ} (hc : w.place c = .running r)
    (fd : Int) : (w.registry.fdEvents fd).coroutine ≠ some c := by
  intro hcor
  obtain ⟨event, ticket, hk⟩ := (h.owner fd c).mp hcor
  rw [hc] at hk
  cases hk

/-- Without a coroutine in its `FdEvent` nobody waits for a descriptor. -/
theorem Sound.not_waited {w : World ρ κ} (h : Sound w) {fd : Int}
    (hfd : (w.registry.fdEvents fd).coroutine = none) (c : κ) (event : IOEvent) (ticket : Nat) :
    w.place c ≠ .hook ⟨fd, event, ticket⟩ := by
  intro hc
  have := (h.owner fd c).mpr ⟨event, ticket, hc⟩
  rw [hfd] at this
  cases this

theorem Sound.not_listening {w : World ρ κ} (h : Sound w) {fd : Int}
    (hfd : (w.registry.fdEvents fd).coroutine = none) (event : IOEvent) :
    (w.registry.fdEvents fd).listenEvents.has event = false := by
  cases hhas : (w.registry.fdEvents fd).listenEvents.has event with
  | false => rfl
  | true =>
    obtain ⟨c, ticket, hc⟩ := h.listens fd event hhas
    exact absurd hc (h.not_waited hfd c event ticket)

theorem attended_init : Attended ({} : World ρ κ) where
  valid _ := ⟨Reactor.consistent_empty, List.Pairwise.nil⟩
  owner _ _ := ⟨nofun, nofun⟩
  listens _ event h := absurd h (by simp [Mask.has_empty])
  nonneg _ _ := nofun
  able _ h := absurd rfl h
  current _ _ := nofun
  kept _ _ := nofun

theorem Attended.noOrphan {w : World ρ κ} (h : Attended w) : w.NoOrphan := by
  intro c k hk
  rcases h.kept c k hk with ⟨r, hreactor, hawaits⟩ | hqueue
  · refine Or.inl ⟨r, hreactor, ?_⟩
    rcases hawaits.found with ⟨m, hm, hhas⟩ | ⟨m, hm⟩
    · have hfd := ((h.valid r).consistent.registered k.fd).mpr (Option.ne_none_iff_exists'.mpr ⟨m, hm⟩)
      exact Or.inl ⟨hfd, m, hm, hhas⟩
    · exact Or.inr ⟨m, hm, hawaits.adds m hm⟩
  · exact Or.inr (Or.inl hqueue)

/-- The loop may move on and change its `first_coroutine`. -/
theorem Sound.of_eq {w w' : World ρ κ} (h : Sound w) (hregistry : w'.registry = w.registry)
    (hplace : w'.place = w.place) (hable : w'.canResume = w.canResume)
    (hcurrent : ∀ r, (w'.threads r).current = (w.threads r).current) : Sound w' where
  valid := by rw [hregistry]; exact h.valid
  owner := by rw [hregistry, hplace]; exact h.owner
  listens := by rw [hregistry, hplace]; exact h.listens
  nonneg := by rw [hplace]; exact h.nonneg
  able := by rw [hplace, hable]; exact h.able
  current r c := by rw [hcurrent, hplace]; exact h.current r c

theorem Attended.of_eq {w w' : World ρ κ} (h : Attended w) (hregistry : w'.registry = w.registry)
    (hqueue : w'.queue = w.queue) (hplace : w'.place = w.place) (hable : w'.canResume = w.canResume)
    (hcurrent : ∀ r, (w'.threads r).current = (w.threads r).current) : Attended w' where
  toSound := h.toSound.of_eq hregistry hplace hable hcurrent
  kept := by unfold Kept; rw [hregistry, hqueue, hplace]; exact h.kept

/-! ### Operations at one descriptor -/

/-- An operation on `fd` leaves the hooks on other descriptors as they are. -/
theorem Kept.of_onlyAt {w : World ρ κ} {h : Hook} (hk : w.Kept h) {fd : Int} {g : Registry ρ κ}
    (queue : List (Int × Option Nat)) (hg : w.registry.OnlyAt fd g) (hfd : h.fd ≠ fd)
    (hqueue : h.fd ∈ w.queue.map Prod.fst → h.fd ∈ queue.map Prod.fst) :
    Kept {w with registry := g, queue} h := by
  rcases hk with ⟨r, hreactor, hawaits⟩ | hin
  · exact Or.inl ⟨r, by rw [hg.fdEvents h.fd hfd]; exact hreactor,
      hawaits.of_sameAt (hg.reactors r h.fd hfd)⟩
  · exact Or.inr (hqueue hin)

theorem Sound.at {w : World ρ κ} (h : Sound w) {fd : Int} {g : Registry ρ κ}
    (queue : List (Int × Option Nat)) (hg : w.registry.OnlyAt fd g)
    (hcor : (g.fdEvents fd).coroutine = (w.registry.fdEvents fd).coroutine)
    (hlisten : ∀ event, (g.fdEvents fd).listenEvents.has event →
      (w.registry.fdEvents fd).listenEvents.has event) : Sound {w with registry := g, queue} where
  valid := hg.valid
  owner d c := by
    by_cases hd : d = fd
    · subst hd
      rw [hcor]
      exact h.owner d c
    · rw [hg.fdEvents d hd]
      exact h.owner d c
  listens d event he := by
    by_cases hd : d = fd
    · subst hd
      exact h.listens d event (hlisten event he)
    · exact h.listens d event (by rw [← hg.fdEvents d hd]; exact he)
  nonneg := h.nonneg
  able := h.able
  current := h.current

/-- An operation on `fd` that leaves the coroutine waiting for it, if any, kept. -/
theorem Attended.at {w : World ρ κ} (h : Attended w) {fd : Int} {g : Registry ρ κ}
    {queue : List (Int × Option Nat)} (hg : w.registry.OnlyAt fd g)
    (hcor : (g.fdEvents fd).coroutine = (w.registry.fdEvents fd).coroutine)
    (hlisten : ∀ event, (g.fdEvents fd).listenEvents.has event →
      (w.registry.fdEvents fd).listenEvents.has event)
    (hqueue : ∀ d ∈ w.queue.map Prod.fst, d ∈ queue.map Prod.fst)
    (hkept : ∀ c event ticket, w.place c = .hook ⟨fd, event, ticket⟩ →
      Kept {w with registry := g, queue} ⟨fd, event, ticket⟩) :
    Attended {w with registry := g, queue} where
  toSound := h.toSound.at queue hg hcor hlisten
  kept c k hk := by
    by_cases hfd : k.fd = fd
    · obtain ⟨d, event, ticket⟩ := k
      obtain rfl : d = fd := hfd
      exact hkept c event ticket hk
    · exact (h.kept c k hk).of_onlyAt queue hg hfd (hqueue k.fd)

/-- A coroutine that waits for an unneeded descriptor is in the queue. -/
theorem Attended.queued {w : World ρ κ} (h : Attended w) {fd : Int} (hfd : w.Unneeded fd) {c : κ}
    {event : IOEvent} {ticket : Nat} (hc : w.place c = .hook ⟨fd, event, ticket⟩) :
    fd ∈ w.queue.map Prod.fst := by
  refine hfd.resolve_left fun hnone => ?_
  have := (h.owner fd c).mpr ⟨event, ticket, hc⟩
  rw [hnone] at this
  cases this

/-- The reactor of a descriptor changes while no coroutine needs it. -/
theorem Attended.setFdReactor {w : World ρ κ} (h : Attended w) {fd : Int} {s : ρ}
    (hfd : w.Unneeded fd ∨ (w.registry.fdEvents fd).reactor = some s) :
    Attended {w with registry := w.registry.setFdReactor fd (some s)} := by
  have hg := Registry.onlyAt_setFdEvent h.valid fd {w.registry.fdEvents fd with reactor := some s}
  refine h.at hg ?_ ?_ (fun _ hd => hd) fun c event ticket hc => ?_
  · simp [Registry.setFdReactor, Registry.setFdEvent]
  · simp [Registry.setFdReactor, Registry.setFdEvent]
  · rcases hfd with hunneeded | hreactor
    · exact Or.inr (h.queued hunneeded hc)
    · have hsame : w.registry.setFdReactor fd (some s) = w.registry := by
        unfold Registry.setFdReactor Registry.setFdEvent
        rw [← hreactor, Function.update_eq_self]
      show Kept {w with registry := w.registry.setFdReactor fd (some s)} _
      rw [hsame]
      exact h.kept c _ hc

/-- A hook that returns at once gives a reactor to a descriptor without one. -/
theorem Attended.hookReturn {w : World ρ κ} (h : Attended w) (r : ρ) (fd : Int) :
    Attended {w with registry := w.registry.setFdReactor fd (some (w.registry.reactorOf r fd))} := by
  refine h.setFdReactor ?_
  unfold Registry.reactorOf
  cases hreactor : (w.registry.fdEvents fd).reactor with
  | some s => exact Or.inr rfl
  | none =>
    refine Or.inl ?_
    cases hcor : (w.registry.fdEvents fd).coroutine with
    | none => exact Or.inl hcor
    | some c =>
      obtain ⟨event, ticket, hc⟩ := (h.owner fd c).mp hcor
      rcases h.kept c _ hc with ⟨s, hs, -⟩ | hqueue
      · rw [hreactor] at hs
        cases hs
      · exact Or.inr hqueue

/-! ### What the loop does with descriptors -/

section
variable [DecidableEq ρ]

theorem Attended.goto {w : World ρ κ} (h : Attended w) (r : ρ) (pc : Pc) : Attended (w.goto r pc) :=
  h.of_eq rfl rfl rfl rfl fun _ => goto_current ..

theorem Attended.setFirst {w : World ρ κ} (h : Attended w) (r : ρ) (first : Option (κ × Option Nat)) :
    Attended (w.setFirst r first) :=
  h.of_eq rfl rfl rfl rfl fun _ => setFirst_current ..

/-- The loop of `r` unregisters a descriptor that is not needed here. -/
theorem Attended.delEventInLoopThread {w : World ρ κ} (h : Attended w) {r : ρ} {fd : Int} {events : Mask}
    (hfd : w.Harmless r fd events) (hin : events.epollin = false) (hout : events.epollout = false) :
    Attended {w with
      registry := w.registry.setReactor r ((w.registry.reactors r).delEventInLoopThread fd)} := by
  have hg := Registry.onlyAt_delEventInLoopThread h.valid r fd
  refine h.at hg rfl (fun _ he => he) (fun _ hd => hd) fun c event ticket hc => ?_
  rcases h.kept c _ hc with ⟨s, hreactor, hawaits⟩ | hqueue
  · rcases hfd with hin' | hout' | hunneeded | hother | hpending
    · rw [hin] at hin'
      cases hin'
    · rw [hout] at hout'
      cases hout'
    · exact Or.inr (h.queued hunneeded hc)
    · refine Or.inl ⟨s, hreactor, ?_⟩
      have hs : s ≠ r := fun hs => hother (hs ▸ hreactor)
      show ((Function.update _ r _ : ρ → Reactor Mask) s).Awaits fd event
      rw [Function.update_of_ne hs]
      exact hawaits
    · refine Or.inl ⟨s, hreactor, ?_⟩
      show ((Function.update _ r _ : ρ → Reactor Mask) s).Awaits fd event
      by_cases hs : s = r
      · subst hs
        obtain ⟨⟨d, m⟩, hm, rfl⟩ := List.mem_map.mp hpending
        rw [Function.update_self]
        exact ⟨Or.inr ⟨m, by simpa using hm⟩, by simpa using hawaits.adds, by simpa using hawaits.dels⟩
      · rw [Function.update_of_ne hs]
        exact hawaits
  · exact Or.inr hqueue

/-- A second ready coroutine of a sub reactor goes to the queue. -/
theorem Attended.push {w : World ρ κ} (h : Attended w) (r : ρ) (fd : Int) (cause : Option Nat) :
    Attended {w with
      registry := (w.registry.setReactor r
        ((w.registry.reactors r).delEventInLoopThread fd)).setFdReactor fd none
      queue := w.queue ++ [(fd, cause)]} := by
  have hdel := Registry.onlyAt_delEventInLoopThread h.valid r fd
  have hg := hdel.trans (Registry.onlyAt_setFdEvent hdel.valid fd
    {w.registry.fdEvents fd with reactor := none})
  refine h.at hg ?_ ?_ (fun d hd => ?_) fun c event ticket _ => Or.inr ?_
  · simp [Registry.setFdReactor, Registry.setFdEvent, Registry.setReactor]
  · simp [Registry.setFdReactor, Registry.setFdEvent, Registry.setReactor]
  · rw [List.map_append]
    exact List.mem_append_left _ hd
  · simp

theorem Sound.drain {w : World ρ κ} (h : Sound w) (r : ρ) :
    Sound {w with registry := w.registry.setReactor r (w.registry.reactors r).drain} where
  valid s := by
    show (Function.update w.registry.reactors r _ s).Valid
    by_cases hs : s = r
    · rw [hs, Function.update_self]
      exact (h.valid r).drain
    · rw [Function.update_of_ne hs]
      exact h.valid s
  owner := h.owner
  listens := h.listens
  nonneg := h.nonneg
  able := h.able
  current := h.current

theorem Attended.drain {w : World ρ κ} (h : Attended w) (r : ρ) :
    Attended {w with registry := w.registry.setReactor r (w.registry.reactors r).drain} where
  toSound := h.toSound.drain r
  kept c k hk := by
    rcases h.kept c k hk with ⟨s, hreactor, hawaits⟩ | hqueue
    · refine Or.inl ⟨s, hreactor, ?_⟩
      show (Function.update w.registry.reactors r _ s).Awaits k.fd k.event
      by_cases hs : s = r
      · subst hs
        rw [Function.update_self]
        exact hawaits.drain (h.valid s)
      · rw [Function.update_of_ne hs]
        exact hawaits
    · exact Or.inr hqueue

theorem Attended.unregister {w : World ρ κ} (h : Attended w) (r : ρ) {fd : Int} (hfd : w.Unneeded fd) :
    Attended {w with registry := w.registry.unregisterFromReactor r fd} := by
  refine h.at (Registry.onlyAt_unregisterFromReactor h.valid r fd) ?_ ?_ (fun _ hd => hd)
    fun c event ticket hc => Or.inr (h.queued hfd hc)
  · simp [Registry.unregisterFromReactor, Registry.setFdEvent, Registry.setReactor]
  · simp [Registry.unregisterFromReactor, Registry.setFdEvent, Registry.setReactor, Mask.has_empty]

end

/-! ### What the coroutines do -/

section
variable [DecidableEq ρ] [DecidableEq κ]

/-- A coroutine that is switched to was in no hook, or leaves its hook's descriptor. -/
theorem Sound.running {w : World ρ κ} (h : Sound w) (r : ρ) {c : κ} {g : Registry ρ κ}
    (hable : w.canResume c) (hc : w.place c = .suspended ∧ g = w.registry ∨
      ∃ k, w.place c = .hook k ∧ g = w.registry.leaveEpoll r k.fd k.event) :
    Sound (w.running r c g) where
  valid := by
    rcases hc with ⟨-, rfl⟩ | ⟨k, -, rfl⟩
    · exact h.valid
    · exact (Registry.onlyAt_leaveEpoll h.valid r k.fd k.event).valid
  owner fd other := by
    show (g.fdEvents fd).coroutine = some other ↔ _
    simp only [running_hook, exists_and_left]
    rcases hc with ⟨hc, rfl⟩ | ⟨k, hc, rfl⟩
    · rw [h.owner, iff_and_self]
      exact fun ⟨event, ticket, hother⟩ => ne_of_place hc hother (by simp)
    · rw [Registry.leaveEpoll_coroutine]
      by_cases hfd : fd = k.fd
      · rw [if_pos hfd]
        exact iff_of_false nofun fun ⟨hne, event, ticket, hother⟩ => hne (h.unique hother hc hfd)
      · rw [if_neg hfd, h.owner, iff_and_self]
        refine fun ⟨event, ticket, hother⟩ => ne_of_place hc hother fun heq => ?_
        cases heq
        exact hfd rfl
  listens fd event he := by
    change (g.fdEvents fd).listenEvents.has event at he
    simp only [running_hook]
    rcases hc with ⟨hc, rfl⟩ | ⟨k, hc, rfl⟩
    · obtain ⟨other, ticket, hother⟩ := h.listens fd event he
      exact ⟨other, ticket, ne_of_place hc hother (by simp), hother⟩
    · rw [Registry.leaveEpoll_listens] at he
      split at he
      · cases he
      · next hne =>
        obtain ⟨other, ticket, hother⟩ := h.listens fd event he
        refine ⟨other, ticket, ne_of_place hc hother fun heq => ?_, hother⟩
        cases heq
        exact hne ⟨rfl, rfl⟩
  nonneg other k hk := h.nonneg other k (running_hook.mp hk).2
  able other hother := by
    rw [World.running, swap_place] at hother
    split at hother
    · next heq => exact heq ▸ hable
    · exact h.able other hother
  current r' other hcur := by
    rw [World.running, swap_current] at hcur
    rw [World.running, swap_place]
    by_cases hr : r' = r
    · rw [if_pos hr] at hcur
      rw [if_pos (Option.some.inj hcur).symm, hr]
    · rw [if_neg hr] at hcur
      have hother : w.place other = .running r' := h.current r' other hcur
      rw [if_neg]
      · exact hother
      · rcases hc with ⟨hc, -⟩ | ⟨k, hc, -⟩
        · exact ne_of_place hc hother (by simp)
        · exact ne_of_place hc hother (by simp)

theorem Sound.of_resume {w w' : World ρ κ} (h : Sound w) {r : ρ} {c : κ} (hr : w.resume r c = some w') :
    Sound w' := by
  rcases resume_cases hr with ⟨-, rfl⟩ | ⟨hable, hc, rfl⟩ | ⟨k, hable, hc, rfl⟩
  · exact h
  · exact h.running r hable (Or.inl ⟨hc, rfl⟩)
  · exact h.running r hable (Or.inr ⟨k, hc, rfl⟩)

/-- `Resume` may take a coroutine that is not kept; the others must be. -/
theorem Sound.resume {w w' : World ρ κ} (h : Sound w) {r : ρ} {c : κ}
    (hkept : ∀ other k, other ≠ c → w.place other = .hook k → w.Kept k)
    (hr : w.resume r c = some w') : Attended w' := by
  rcases resume_cases hr with ⟨hable, rfl⟩ | ⟨hable, hc, rfl⟩ | ⟨k, hable, hc, rfl⟩
  · refine ⟨h, fun other k hk => hkept other k ?_ hk⟩
    rintro rfl
    have := h.able other (by rw [hk]; nofun)
    rw [hable] at this
    cases this
  · refine ⟨h.running r hable (Or.inl ⟨hc, rfl⟩), fun other k hk => ?_⟩
    obtain ⟨hne, hother⟩ := running_hook.mp hk
    exact hkept other k hne hother
  · refine ⟨h.running r hable (Or.inr ⟨k, hc, rfl⟩), fun other k' hk' => ?_⟩
    obtain ⟨hne, hother⟩ := running_hook.mp hk'
    exact (hkept other k' hne hother).of_onlyAt w.queue (Registry.onlyAt_leaveEpoll h.valid r k.fd k.event)
      (fun hfd => hne (h.unique hother hc hfd)) id

/-- A hook on a free descriptor puts its event and its coroutine in the `FdEvent`, and the
reactor is told. -/
theorem Sound.hook_spec {w : World ρ κ} (h : Sound w) (r : ρ) (c : κ) {fd : Int} (event : IOEvent)
    (hfree : (w.registry.fdEvents fd).coroutine = none) :
    (w.hook r c fd event).registry.fdEvents fd =
        ⟨(w.registry.fdEvents fd).listenEvents.set event true, some (w.registry.reactorOf r fd), some c⟩ ∧
      (w.hook r c fd event).registry.reactors (w.registry.reactorOf r fd) =
        (w.registry.reactors (w.registry.reactorOf r fd)).addEvent (w.registry.reactorOf r fd = r) fd
          ((w.registry.fdEvents fd).listenEvents.set event true) := by
  let g := w.registry.setFdReactor fd (some (w.registry.reactorOf r fd))
  have hat : g.fdEvents fd = {w.registry.fdEvents fd with reactor := some (w.registry.reactorOf r fd)} :=
    Function.update_self ..
  have hg := @Registry.toEpoll_spec ρ κ _ g r c fd event (by rw [hat]; exact h.not_listening hfree event)
  have hs : g.reactorOf r fd = w.registry.reactorOf r fd := by
    rw [Registry.reactorOf, hat]
    rfl
  rw [hs, hat] at hg
  exact hg

/-- The other reactors are told nothing. -/
theorem Sound.hook_reactors {w : World ρ κ} (h : Sound w) (r : ρ) (c : κ) {fd : Int} (event : IOEvent)
    (hfree : (w.registry.fdEvents fd).coroutine = none) :
    (w.hook r c fd event).registry.reactors =
      Function.update w.registry.reactors (w.registry.reactorOf r fd)
        ((w.registry.reactors (w.registry.reactorOf r fd)).addEvent (w.registry.reactorOf r fd = r) fd
          ((w.registry.fdEvents fd).listenEvents.set event true)) := by
  let g := w.registry.setFdReactor fd (some (w.registry.reactorOf r fd))
  have hat : g.fdEvents fd = {w.registry.fdEvents fd with reactor := some (w.registry.reactorOf r fd)} :=
    Function.update_self ..
  have hg := @Registry.toEpoll_reactors ρ κ _ g r c fd event (by rw [hat]; exact h.not_listening hfree event)
  have hs : g.reactorOf r fd = w.registry.reactorOf r fd := by
    rw [Registry.reactorOf, hat]
    rfl
  rw [hs, hat] at hg
  exact hg

/-- What a hook tells the reactor of its descriptor stays. -/
theorem Sound.kept_hook {w : World ρ κ} (h : Sound w) {r : ρ} {c : κ} {fd : Int} {event : IOEvent}
    (hfd : 0 ≤ fd) (hfree : (w.registry.fdEvents fd).coroutine = none) (hun : w.Undisputed r fd event) :
    Kept (w.hook r c fd event) ⟨fd, event, w.tickets⟩ := by
  obtain ⟨hat, hreactor⟩ := h.hook_spec r c event hfree
  refine Or.inl ⟨w.registry.reactorOf r fd, by rw [hat], ?_⟩
  rw [hreactor]
  refine Reactor.awaits_addEvent (h.valid _) _ (by omega) ?_ (fun m hm => hun.1 _ hm rfl) hun.2
  rw [Mask.has_set, if_pos rfl]

theorem Sound.onlyAt_hook {w : World ρ κ} (h : Sound w) (r : ρ) (c : κ) (fd : Int) (event : IOEvent) :
    w.registry.OnlyAt fd (w.hook r c fd event).registry := by
  have hset := Registry.onlyAt_setFdEvent h.valid fd
    {w.registry.fdEvents fd with reactor := some (w.registry.reactorOf r fd)}
  exact hset.trans (Registry.onlyAt_toEpoll hset.valid r c fd event)

theorem Sound.hook {w : World ρ κ} (h : Sound w) {r : ρ} {c : κ} {fd : Int} (event : IOEvent)
    (hc : w.place c = .running r) (hfd : 0 ≤ fd) (hfree : (w.registry.fdEvents fd).coroutine = none) :
    Sound (w.hook r c fd event) where
  valid := (h.onlyAt_hook r c fd event).valid
  owner d other := by
    rw [hook_place]
    by_cases hd : d = fd
    · subst hd
      rw [(h.hook_spec r c event hfree).1]
      by_cases hother : other = c
      · simp [hother]
      · rw [if_neg hother]
        exact iff_of_false (fun heq => hother (Option.some.inj heq).symm) fun ⟨e, t, ht⟩ =>
          h.not_waited hfree other e t ht
    · rw [(h.onlyAt_hook r c fd event).fdEvents d hd]
      by_cases hother : other = c
      · subst hother
        simp [h.not_owner hc, Ne.symm hd]
      · rw [if_neg hother]
        exact h.owner d other
  listens d e he := by
    by_cases hd : d = fd
    · subst hd
      rw [(h.hook_spec r c event hfree).1, Mask.has_set] at he
      split at he
      · next heq => exact ⟨c, w.tickets, by rw [hook_place, if_pos rfl, heq]⟩
      · rw [h.not_listening hfree e] at he
        cases he
    · rw [(h.onlyAt_hook r c fd event).fdEvents d hd] at he
      obtain ⟨other, ticket, hother⟩ := h.listens d e he
      exact ⟨other, ticket, by rw [hook_place, if_neg (ne_of_place hc hother (by simp)), hother]⟩
  nonneg other k hk := by
    rw [hook_place] at hk
    split at hk
    · cases hk
      exact hfd
    · exact h.nonneg other k hk
  able other hother := by
    rw [hook_place] at hother
    split at hother
    · next heq => exact h.able other (by rw [heq, hc]; nofun)
    · exact h.able other hother
  current r' other hcur := by
    rw [hook_current] at hcur
    split at hcur
    · cases hcur
    · next hr =>
      have hother := h.current r' other hcur
      rw [hook_place, if_neg (ne_of_place hc hother fun heq => ?_), hother]
      cases heq
      exact hr rfl

theorem Attended.hook {w : World ρ κ} (h : Attended w) {r : ρ} {c : κ} {fd : Int} {event : IOEvent}
    (hc : w.place c = .running r) (hfd : 0 ≤ fd) (hfree : (w.registry.fdEvents fd).coroutine = none)
    (hun : w.Undisputed r fd event) : Attended (w.hook r c fd event) where
  toSound := h.toSound.hook event hc hfd hfree
  kept other k hk := by
    rw [hook_place] at hk
    split at hk
    · cases hk
      exact h.kept_hook hfd hfree hun
    · refine (h.kept other k hk).of_onlyAt w.queue (h.onlyAt_hook r c fd event) (fun heq => ?_) id
      exact h.not_waited hfree other k.event k.ticket (by rw [← heq]; exact hk)

/-- A coroutine that yields outside a hook was in none. -/
theorem yield_hook {w : World ρ κ} {r : ρ} {c : κ} (hc : w.place c = .running r) (canResume : κ → Bool)
    (other : κ) (k : Hook) :
    ({w with canResume}.swap r c .suspended none).place other = .hook k ↔ w.place other = .hook k := by
  rw [swap_place]
  by_cases hother : other = c
  · simp [hother, hc]
  · simp [hother]

theorem Sound.yield {w : World ρ κ} (h : Sound w) {r : ρ} {c : κ} (hc : w.place c = .running r)
    {canResume : κ → Bool} (hable : ∀ other, other ≠ c → canResume other = w.canResume other) :
    Sound ({w with canResume}.swap r c .suspended none) where
  valid := h.valid
  owner d other := by
    simp only [yield_hook hc]
    exact h.owner d other
  listens d e he := by
    simp only [yield_hook hc]
    exact h.listens d e he
  nonneg other k hk := h.nonneg other k ((yield_hook hc canResume other k).mp hk)
  able other hother := by
    rw [swap_place] at hother
    split at hother
    · exact absurd rfl hother
    · next hne =>
      show canResume other = true
      rw [hable other hne]
      exact h.able other hother
  current r' other hcur := by
    rw [swap_current] at hcur
    split at hcur
    · cases hcur
    · next hr =>
      have hother : w.place other = .running r' := h.current r' other hcur
      rw [swap_place, if_neg]
      · exact hother
      · refine ne_of_place hc hother fun heq => ?_
        cases heq
        exact hr rfl

theorem Attended.yield {w : World ρ κ} (h : Attended w) {r : ρ} {c : κ} (hc : w.place c = .running r)
    {canResume : κ → Bool} (hable : ∀ other, other ≠ c → canResume other = w.canResume other) :
    Attended ({w with canResume}.swap r c .suspended none) where
  toSound := h.toSound.yield hc hable
  kept other k hk := h.kept other k ((yield_hook hc canResume other k).mp hk)

/-! ### A step -/

/-- What an event causes is a `Resume` with an entry in the log. -/
theorem Sound.wake {w w' : World ρ κ} (h : Sound w) {r : ρ} {c : κ} {cause : Option Nat}
    (hkept : ∀ other k, other ≠ c → w.place other = .hook k → w.Kept k)
    (hr : w.wake r c cause = some w') : Attended w' := by
  have hlog : Sound (w.log c cause) := ⟨h.valid, h.owner, h.listens, h.nonneg, h.able, h.current⟩
  exact hlog.resume hkept hr

/-- The coroutine of the descriptor popped from the queue is resumed; the others do not need it there. -/
theorem Attended.popped {w w' : World ρ κ} (h : Attended w) {r : ρ} {fd : Int} {cause : Option Nat}
    {rest : List (Int × Option Nat)} (hqueue : w.queue = (fd, cause) :: rest)
    (hr : {w with queue := rest}.popped r fd cause = some w') : Attended w' := by
  have hg := Registry.onlyAt_setFdEvent h.valid fd {w.registry.fdEvents fd with reactor := some r}
  have hsound : Sound {w with queue := rest, registry := w.registry.setFdReactor fd (some r)} :=
    h.toSound.at rest hg (Registry.setFdReactor_coroutine ..)
      (by simp [Registry.setFdReactor, Registry.setFdEvent])
  have hother : ∀ c k, k.fd ≠ fd → w.place c = .hook k →
      Kept {w with queue := rest, registry := w.registry.setFdReactor fd (some r)} k := by
    intro c k hfd hk
    refine (h.kept c k hk).of_onlyAt rest hg hfd fun hin => ?_
    rw [hqueue, List.map_cons, List.mem_cons] at hin
    exact hin.resolve_left hfd
  simp only [World.popped, Registry.setFdReactor_coroutine] at hr
  cases hcor : (w.registry.fdEvents fd).coroutine with
  | none =>
    rw [hcor] at hr
    obtain rfl := Option.some.inj hr
    refine ⟨hsound, fun c k hk => hother c k (fun hfd => ?_) hk⟩
    subst hfd
    exact h.not_waited hcor c k.event k.ticket hk
  | some c =>
    rw [hcor] at hr
    refine hsound.wake (fun other k hne hk => hother other k (fun hfd => hne ?_) hk) hr
    subst hfd
    have := (h.owner k.fd other).mpr ⟨k.event, k.ticket, hk⟩
    rw [hcor] at this
    exact (Option.some.inj this).symm

theorem Attended.handle {type : ρ → ReactorType} {w w' : World ρ κ} (h : Attended w) {r : ρ}
    {report : Report} {cause : Option Nat} {rest : Batch}
    (hharmless : ∀ fd events, report = .io fd events → w.Harmless r fd events)
    (hs : w.handle type r report cause rest = some w') : Attended w' := by
  unfold World.handle at hs
  cases report with
  | wakeup => exact Option.some.inj hs ▸ h.goto r _
  | timer => exact Option.some.inj hs ▸ h.goto r _
  | io fd events =>
    simp only at hs
    split at hs
    · next hnone =>
      simp only [Bool.and_eq_true, Bool.not_eq_true'] at hnone
      exact Option.some.inj hs ▸ (h.delEventInLoopThread (hharmless fd events rfl) hnone.1 hnone.2).goto r _
    · cases hcor : (w.registry.fdEvents fd).coroutine with
      | none =>
        simp only [hcor] at hs
        exact Option.some.inj hs ▸ h.goto r _
      | some c =>
        simp only [hcor] at hs
        split at hs
        · exact Option.some.inj hs ▸ (h.setFirst r _).goto r _
        · split at hs
          · exact Option.some.inj hs ▸ (h.push r fd cause).goto r _
          · exact (h.goto r _).toSound.wake (fun other k _ hk => (h.goto r _).kept other k hk) hs

theorem Attended.advance {type : ρ → ReactorType} {w w' : World ρ κ} (h : Attended w) {r : ρ}
    (hharmless : ∀ event ∈ w.nextEvent r, w.Harmless r event.1 event.2)
    (hs : w.advance type r = some w') : Attended w' := by
  unfold World.advance at hs
  unfold nextEvent at hharmless
  cases hpc : (w.threads r).pc with
  | outside | timer =>
    simp only [hpc] at hs
    exact Option.some.inj hs ▸ h.goto r _
  | resumedFirst | resumedDirectly =>
    simp only [hpc] at hs
    exact Option.some.inj hs ▸ (h.setFirst r none).goto r _
  | top =>
    simp only [hpc] at hs
    split at hs
    · exact Option.some.inj hs ▸ h.goto r _
    · exact (h.goto r _).toSound.wake (fun other k _ hk => (h.goto r _).kept other k hk) hs
  | queue =>
    simp only [hpc] at hs
    split at hs
    · exact Option.some.inj hs ▸ h.goto r _
    · exact Option.some.inj hs ▸ h.goto r _
    · next hqueue => exact h.popped hqueue hs
  | tasks => simp [hpc] at hs
  | events batch =>
    cases batch with
    | nil =>
      simp only [hpc] at hs
      exact Option.some.inj hs ▸ (h.drain r).goto r _
    | cons item rest =>
      obtain ⟨report, cause⟩ := item
      simp only [hpc] at hs
      refine h.handle (fun fd events heq => hharmless (fd, events) ?_) hs
      rw [hpc, heq]
      rfl

theorem Attended.step {type : ρ → ReactorType} {w w' : World ρ κ} {i : Input ρ κ} (h : Attended w)
    (hi : w.Careful i) (hs : w.step type i = some w') : Attended w' := by
  rcases step_cases hs with ⟨r, rfl, hadvance⟩ | ⟨r, rfl, rfl⟩ | ⟨r, c, rfl, hresume⟩ |
    ⟨r, reports, rfl, -, rfl⟩ | ⟨r, rfl, -, rfl⟩ | ⟨r, c, fd, event, rfl, hcur, hfd, rfl⟩ | ⟨r, fd, rfl, rfl⟩ |
    ⟨r, c, canResume, -, hcur, hable, rfl⟩ | ⟨r, fd, rfl, rfl⟩ | ⟨fd, owner, rfl, rfl⟩
  · exact h.advance hi hadvance
  · exact (h.setFirst r none).goto r .outside
  · exact h.toSound.resume (fun other k _ hk => h.kept other k hk) hresume
  · exact h.goto r _
  · exact h.goto r .top
  · exact h.hook (h.current r c hcur) hfd hi.1 hi.2
  · exact h.hookReturn r fd
  · exact h.yield (h.current r c hcur) hable
  · exact h.unregister r hi
  · exact h.setFdReactor hi

/-- **No coroutine is orphaned** in a run whose steps are careful, whatever the types of the
reactors and the order of their steps. -/
theorem noOrphan_of_careful (type : ρ → ReactorType) (inputs : List (Input ρ κ))
    (h : Meets (World.step type) Careful {} inputs) : Always (World.step type) NoOrphan {} inputs :=
  (always_of_step (fun _ _ _ hw hi hs => hw.step hi hs) attended_init h).imp fun _ hw => hw.noOrphan

end

/-- Two ready coroutines: one is resumed first, the other through the queue, and waits again. -/
theorem noOrphan_of_careful_two :
    Always (World.step fun _ => .sub) NoOrphan ({} : World Unit Bool)
      [.callback () true, .hook () 5 .read, .callback () false, .hook () 6 .write, .advance (),
        .advance (), .advance (), .poll () [.io 5 {epollin := true}, .wakeup, .io 6 {epollout := true}],
        .advance (), .advance (), .advance (), .advance (), .advance (), .yield (), .advance (),
        .advance (), .hook () 6 .read] :=
  noOrphan_of_careful _ _ (by decide)

/-- A coroutine waits to read, and its descriptor is reported with neither EPOLLIN nor EPOLLOUT. -/
theorem not_noOrphan_hangup : ¬ ∀ (type : Unit → ReactorType) (inputs : List (Input Unit Unit)),
    Always (World.step type) NoOrphan {} inputs := fun h => by
  have hlast := (h (fun _ => .sub) [.callback () (), .hook () 5 .read, .advance (), .advance (),
    .advance (), .poll () [.io 5 {}], .advance ()]).last rfl
  rcases hlast () ⟨5, .read, 0⟩ (by decide) with
    ⟨⟨⟩, -, ⟨hfd, -⟩ | ⟨m, hm, -⟩⟩ | hqueue | ⟨⟨⟩, cause, hfirst⟩
  · revert hfd
    decide
  · cases hm
  · revert hqueue
    decide
  · cases hfirst

end World

end CoroutineRpc.Net.Loop
