import CoroutineRpc.Net.Reactor

/-! `FdEvent`: what the program wants from a descriptor, and the reactor that is told.

A `Registry` is the reactors of all threads and the `FdEvent` of each descriptor. Every
operation is made on some thread, whose reactor is `here`; on the descriptor's own
reactor it takes effect at once if that is `here` and is left pending otherwise. An
operation on one descriptor does not show at another (`OnlyAt`). -/
namespace CoroutineRpc.Net
open Library.Multimap

inductive IOEvent where
  | read
  | write
deriving DecidableEq

/-- The `EPOLLIN` and `EPOLLOUT` bits of an event mask. -/
structure Mask where
  epollin : Bool := false
  epollout : Bool := false
deriving DecidableEq

def Mask.has (m : Mask) : IOEvent → Bool
  | .read => m.epollin
  | .write => m.epollout

def Mask.set (m : Mask) (event : IOEvent) (on : Bool) : Mask :=
  match event with
  | .read => {m with epollin := on}
  | .write => {m with epollout := on}

@[simp] theorem Mask.has_set (m : Mask) (event other : IOEvent) (on : Bool) :
    (m.set event on).has other = if other = event then on else m.has other := by
  cases event <;> cases other <;> rfl

theorem Mask.eq_empty {m : Mask} (h : ∀ event, m.has event = false) : m = {} := by
  obtain ⟨epollin, epollout⟩ := m
  obtain rfl : epollin = false := h .read
  obtain rfl : epollout = false := h .write
  rfl

theorem Mask.has_empty (event : IOEvent) : (({} : Mask).has event) = false := by cases event <;> rfl

structure FdEvent (ρ κ : Type) where
  listenEvents : Mask := {}
  reactor : Option ρ := none
  coroutine : Option κ := none

structure Registry (ρ κ : Type) where
  reactors : ρ → Reactor Mask := fun _ => {}
  fdEvents : Int → FdEvent ρ κ := fun _ => {}

namespace Registry
variable {ρ κ : Type}

def setFdEvent (g : Registry ρ κ) (fd : Int) (event : FdEvent ρ κ) : Registry ρ κ :=
  {g with fdEvents := Function.update g.fdEvents fd event}

section
variable [DecidableEq ρ]

def setReactor (g : Registry ρ κ) (r : ρ) (reactor : Reactor Mask) : Registry ρ κ :=
  {g with reactors := Function.update g.reactors r reactor}

/-- The reactor of a descriptor; without one it is given the thread's own. -/
def reactorOf (g : Registry ρ κ) (here : ρ) (fd : Int) : ρ := (g.fdEvents fd).reactor.getD here

def updateToReactor (g : Registry ρ κ) (here : ρ) (fd : Int) : Registry ρ κ :=
  let r := g.reactorOf here fd
  (g.setFdEvent fd {g.fdEvents fd with reactor := some r}).setReactor r
    ((g.reactors r).addEvent (r = here) fd (g.fdEvents fd).listenEvents)

def addListenEvents (g : Registry ρ κ) (here : ρ) (fd : Int) (event : IOEvent) : Registry ρ κ :=
  if (g.fdEvents fd).listenEvents.has event then g
  else
    (g.setFdEvent fd {g.fdEvents fd with
      listenEvents := (g.fdEvents fd).listenEvents.set event true}).updateToReactor here fd

def delListenEvents (g : Registry ρ κ) (here : ρ) (fd : Int) (event : IOEvent) : Registry ρ κ :=
  if (g.fdEvents fd).listenEvents.has event then
    (g.setFdEvent fd {g.fdEvents fd with
      listenEvents := (g.fdEvents fd).listenEvents.set event false}).updateToReactor here fd
  else g

def unregisterFromReactor (g : Registry ρ κ) (here : ρ) (fd : Int) : Registry ρ κ :=
  let r := g.reactorOf here fd
  (g.setFdEvent fd {g.fdEvents fd with reactor := some r, listenEvents := {}}).setReactor r
    ((g.reactors r).delEvent (r = here) fd)

def setFdReactor (g : Registry ρ κ) (fd : Int) (r : Option ρ) : Registry ρ κ :=
  g.setFdEvent fd {g.fdEvents fd with reactor := r}

def setCoroutine (g : Registry ρ κ) (fd : Int) (cor : Option κ) : Registry ρ κ :=
  g.setFdEvent fd {g.fdEvents fd with coroutine := cor}

/-- `toEpoll`, called by `cor`. -/
def toEpoll (g : Registry ρ κ) (here : ρ) (cor : κ) (fd : Int) (event : IOEvent) : Registry ρ κ :=
  (g.setCoroutine fd (some cor)).addListenEvents here fd event

/-- What a hook does when its coroutine is resumed. -/
def leaveEpoll (g : Registry ρ κ) (here : ρ) (fd : Int) (event : IOEvent) : Registry ρ κ :=
  (g.delListenEvents here fd event).setCoroutine fd none

end

end Registry

/-! ### What a reactor knows of one descriptor -/

namespace Reactor

/-- Two reactors know the same of a descriptor. -/
structure SameAt (fd : Int) (r s : Reactor Mask) : Prop where
  epoll : s.epoll fd = r.epoll fd
  adds : ∀ m, (fd, m) ∈ s.pendingAddFds ↔ (fd, m) ∈ r.pendingAddFds
  dels : fd ∈ s.pendingDelFds ↔ fd ∈ r.pendingDelFds

theorem SameAt.refl (fd : Int) (r : Reactor Mask) : SameAt fd r r := ⟨rfl, fun _ => Iff.rfl, Iff.rfl⟩

theorem SameAt.trans {fd : Int} {r s t : Reactor Mask} (h : SameAt fd r s) (h' : SameAt fd s t) :
    SameAt fd r t :=
  ⟨h'.epoll.trans h.epoll, fun m => (h'.adds m).trans (h.adds m), h'.dels.trans h.dels⟩

/-- The pending adds are a map, and `m_fds` lists the registered descriptors. -/
structure Valid (r : Reactor Mask) : Prop where
  consistent : Consistent r
  distinct : Distinct r.pendingAddFds

theorem Valid.delEventInLoopThread {r : Reactor Mask} (h : Valid r) (fd : Int) :
    Valid (r.delEventInLoopThread fd) := by
  refine ⟨(delEventInLoopThread_spec h.consistent fd).1, ?_⟩
  rw [delEventInLoopThread_pendingAddFds]
  exact h.distinct

theorem Valid.addEvent {r : Reactor Mask} (h : Valid r) (isLoopThread : Bool) (fd : Int) (m : Mask) :
    Valid (r.addEvent isLoopThread fd m) := by
  unfold Reactor.addEvent
  split
  · exact h
  · split
    · refine ⟨(addEventInLoopThread_spec h.consistent fd m).1, ?_⟩
      rw [addEventInLoopThread_pendingAddFds]
      exact h.distinct
    · exact ⟨⟨h.consistent.nodup, h.consistent.registered⟩, h.distinct.insertNew⟩

theorem Valid.delEvent {r : Reactor Mask} (h : Valid r) (isLoopThread : Bool) (fd : Int) :
    Valid (r.delEvent isLoopThread fd) := by
  unfold Reactor.delEvent
  split
  · exact h
  · split
    · exact h.delEventInLoopThread fd
    · exact ⟨⟨h.consistent.nodup, h.consistent.registered⟩, h.distinct⟩

theorem sameAt_delEventInLoopThread {r : Reactor Mask} (h : Valid r) {fd other : Int}
    (hne : other ≠ fd) : SameAt other r (r.delEventInLoopThread fd) := by
  refine ⟨?_, by simp, by simp⟩
  rw [(delEventInLoopThread_spec h.consistent fd).2, Function.update_of_ne hne]

theorem sameAt_addEvent {r : Reactor Mask} (h : Valid r) (isLoopThread : Bool) {fd other : Int}
    (m : Mask) (hne : other ≠ fd) : SameAt other r (r.addEvent isLoopThread fd m) := by
  unfold Reactor.addEvent
  split
  · exact .refl other r
  · split
    · refine ⟨?_, by simp, by simp⟩
      rw [(addEventInLoopThread_spec h.consistent fd m).2, Function.update_of_ne hne]
    · refine ⟨rfl, fun m' => ?_, Iff.rfl⟩
      simp [mem_insertNew, hne]

theorem sameAt_delEvent {r : Reactor Mask} (h : Valid r) (isLoopThread : Bool) {fd other : Int}
    (hne : other ≠ fd) : SameAt other r (r.delEvent isLoopThread fd) := by
  unfold Reactor.delEvent
  split
  · exact .refl other r
  · split
    · exact sameAt_delEventInLoopThread h hne
    · refine ⟨rfl, fun _ => Iff.rfl, ?_⟩
      simp [hne]

/-- A reactor waits for an event of a descriptor: it has it registered or pending, and the
next drain does not lose it. -/
structure Awaits (r : Reactor Mask) (fd : Int) (event : IOEvent) : Prop where
  found : (∃ m ∈ r.epoll fd, m.has event) ∨ ∃ m, (fd, m) ∈ r.pendingAddFds
  adds : ∀ m, (fd, m) ∈ r.pendingAddFds → m.has event
  dels : fd ∉ r.pendingDelFds

theorem Awaits.of_sameAt {r s : Reactor Mask} {fd : Int} {event : IOEvent} (h : Awaits r fd event)
    (hs : SameAt fd r s) : Awaits s fd event := by
  refine ⟨?_, fun m hm => h.adds m ((hs.adds m).mp hm), fun hd => h.dels (hs.dels.mp hd)⟩
  rcases h.found with ⟨m, hm, hhas⟩ | ⟨m, hm⟩
  · exact Or.inl ⟨m, by rw [hs.epoll]; exact hm, hhas⟩
  · exact Or.inr ⟨m, (hs.adds m).mpr hm⟩

/-- An add whose interest has the event, with nothing pending against it. -/
theorem awaits_addEvent {r : Reactor Mask} (h : Valid r) (isLoopThread : Bool) {fd : Int} {m : Mask}
    {event : IOEvent} (hfd : fd ≠ -1) (hm : m.has event)
    (hadds : ∀ m', (fd, m') ∈ r.pendingAddFds → m'.has event) (hdels : fd ∉ r.pendingDelFds) :
    Awaits (r.addEvent isLoopThread fd m) fd event := by
  unfold Reactor.addEvent
  rw [if_neg hfd]
  cases isLoopThread with
  | true =>
    refine ⟨Or.inl ⟨m, ?_, hm⟩, by simpa using hadds, by simpa using hdels⟩
    show (r.addEventInLoopThread fd m).epoll fd = some m
    rw [(addEventInLoopThread_spec h.consistent fd m).2, Function.update_self]
  | false =>
    refine ⟨Or.inr ?_, fun m' hm' => ?_, hdels⟩
    · by_cases hold : ∃ m', (fd, m') ∈ r.pendingAddFds
      · obtain ⟨m', hm'⟩ := hold
        exact ⟨m', mem_insertNew.mpr (Or.inl hm')⟩
      · exact ⟨m, mem_insertNew.mpr (Or.inr ⟨rfl, fun m' hm' => hold ⟨m', hm'⟩⟩)⟩
    · rcases mem_insertNew.mp hm' with hold | ⟨heq, -⟩
      · exact hadds m' hold
      · cases heq
        exact hm

theorem Valid.drain {r : Reactor Mask} (h : Valid r) : Valid r.drain := by
  have hstart : Consistent {r with pendingAddFds := [], pendingDelFds := []} :=
    ⟨h.consistent.nodup, h.consistent.registered⟩
  obtain ⟨hcons, -⟩ := drainAdds_spec hstart h.distinct
  refine ⟨(drainDels_spec hcons r.pendingDelFds).1, ?_⟩
  rw [drain_pendingAddFds]
  exact List.Pairwise.nil

/-- What is registered after a drain was registered or pending. -/
theorem epoll_drain {r : Reactor Mask} (h : Valid r) {fd : Int} {m : Mask} (hm : r.drain.epoll fd = some m) :
    r.epoll fd = some m ∨ (fd, m) ∈ r.pendingAddFds := by
  have hstart : Consistent {r with pendingAddFds := [], pendingDelFds := []} :=
    ⟨h.consistent.nodup, h.consistent.registered⟩
  obtain ⟨hcons, hadds⟩ := drainAdds_spec hstart h.distinct
  have hepoll := (drainDels_spec hcons r.pendingDelFds).2 fd
  unfold Reactor.drain at hm
  rw [hepoll] at hm
  split at hm
  · cases hm
  · by_cases hpending : ∃ m', (fd, m') ∈ r.pendingAddFds
    · obtain ⟨m', hm'⟩ := hpending
      rw [(hadds fd).1 m' hm'] at hm
      exact Or.inr (Option.some.inj hm ▸ hm')
    · rw [(hadds fd).2 fun m' hm' => hpending ⟨m', hm'⟩] at hm
      exact Or.inl hm

theorem Awaits.drain {r : Reactor Mask} {fd : Int} {event : IOEvent} (h : Awaits r fd event)
    (hr : Valid r) : Awaits r.drain fd event := by
  have hstart : Consistent {r with pendingAddFds := [], pendingDelFds := []} :=
    ⟨hr.consistent.nodup, hr.consistent.registered⟩
  obtain ⟨hcons, hadds⟩ := drainAdds_spec hstart hr.distinct
  have hepoll := (drainDels_spec hcons r.pendingDelFds).2 fd
  rw [if_neg h.dels] at hepoll
  refine ⟨Or.inl ?_, by simp, by simp⟩
  show ∃ m ∈ (Reactor.drain r).epoll fd, m.has event
  unfold Reactor.drain
  rw [hepoll]
  by_cases hpending : ∃ m, (fd, m) ∈ r.pendingAddFds
  · obtain ⟨m, hm⟩ := hpending
    exact ⟨m, (hadds fd).1 m hm, h.adds m hm⟩
  · rw [(hadds fd).2 fun m hm => hpending ⟨m, hm⟩]
    exact h.found.resolve_right hpending

end Reactor

/-! ### Operations on one descriptor -/

namespace Registry
variable {ρ κ : Type}

def Valid (g : Registry ρ κ) : Prop := ∀ r, (g.reactors r).Valid

/-- From `g` to `g'` nothing changes but at one descriptor. -/
structure OnlyAt (fd : Int) (g g' : Registry ρ κ) : Prop where
  valid : Valid g'
  fdEvents : ∀ other, other ≠ fd → g'.fdEvents other = g.fdEvents other
  reactors : ∀ r other, other ≠ fd → Reactor.SameAt other (g.reactors r) (g'.reactors r)

theorem OnlyAt.refl {g : Registry ρ κ} (h : Valid g) (fd : Int) : OnlyAt fd g g where
  valid := h
  fdEvents _ _ := rfl
  reactors r other _ := .refl other (g.reactors r)

theorem OnlyAt.trans {fd : Int} {g g' g'' : Registry ρ κ} (h : OnlyAt fd g g') (h' : OnlyAt fd g' g'') :
    OnlyAt fd g g'' where
  valid := h'.valid
  fdEvents other hne := (h'.fdEvents other hne).trans (h.fdEvents other hne)
  reactors r other hne := (h.reactors r other hne).trans (h'.reactors r other hne)

theorem onlyAt_setFdEvent {g : Registry ρ κ} (h : Valid g) (fd : Int) (event : FdEvent ρ κ) :
    OnlyAt fd g (g.setFdEvent fd event) where
  valid := h
  fdEvents _ hne := Function.update_of_ne hne ..
  reactors r other _ := .refl other (g.reactors r)

@[simp] theorem setFdReactor_coroutine (g : Registry ρ κ) (fd other : Int) (r : Option ρ) :
    ((g.setFdReactor fd r).fdEvents other).coroutine = (g.fdEvents other).coroutine := by
  unfold setFdReactor setFdEvent
  by_cases hfd : other = fd
  · simp [hfd]
  · simp [hfd]

section
variable [DecidableEq ρ]

theorem onlyAt_setReactor {g : Registry ρ κ} (h : Valid g) {fd : Int} {r : ρ} {s : Reactor Mask}
    (hs : s.Valid) (hsame : ∀ other, other ≠ fd → Reactor.SameAt other (g.reactors r) s) :
    OnlyAt fd g (g.setReactor r s) where
  valid r' := by
    show (Function.update g.reactors r s r').Valid
    by_cases hr : r' = r
    · rw [hr, Function.update_self]
      exact hs
    · rw [Function.update_of_ne hr]
      exact h r'
  fdEvents _ _ := rfl
  reactors r' other hne := by
    show Reactor.SameAt other (g.reactors r') (Function.update g.reactors r s r')
    by_cases hr : r' = r
    · rw [hr, Function.update_self]
      exact hsame other hne
    · rw [Function.update_of_ne hr]
      exact .refl other (g.reactors r')

theorem onlyAt_delEventInLoopThread {g : Registry ρ κ} (h : Valid g) (r : ρ) (fd : Int) :
    OnlyAt fd g (g.setReactor r ((g.reactors r).delEventInLoopThread fd)) :=
  onlyAt_setReactor h ((h r).delEventInLoopThread fd) fun _ hne =>
    Reactor.sameAt_delEventInLoopThread (h r) hne

theorem onlyAt_updateToReactor {g : Registry ρ κ} (h : Valid g) (here : ρ) (fd : Int) :
    OnlyAt fd g (g.updateToReactor here fd) := by
  let r := g.reactorOf here fd
  have hfd := onlyAt_setFdEvent h fd {g.fdEvents fd with reactor := some r}
  exact hfd.trans (onlyAt_setReactor hfd.valid ((h r).addEvent _ fd _) fun _ hne =>
    Reactor.sameAt_addEvent (h r) _ _ hne)

theorem onlyAt_addListenEvents {g : Registry ρ κ} (h : Valid g) (here : ρ) (fd : Int) (event : IOEvent) :
    OnlyAt fd g (g.addListenEvents here fd event) := by
  unfold addListenEvents
  split
  · exact .refl h fd
  · have hfd := onlyAt_setFdEvent h fd {g.fdEvents fd with
      listenEvents := (g.fdEvents fd).listenEvents.set event true}
    exact hfd.trans (onlyAt_updateToReactor hfd.valid here fd)

theorem onlyAt_delListenEvents {g : Registry ρ κ} (h : Valid g) (here : ρ) (fd : Int) (event : IOEvent) :
    OnlyAt fd g (g.delListenEvents here fd event) := by
  unfold delListenEvents
  split
  · have hfd := onlyAt_setFdEvent h fd {g.fdEvents fd with
      listenEvents := (g.fdEvents fd).listenEvents.set event false}
    exact hfd.trans (onlyAt_updateToReactor hfd.valid here fd)
  · exact .refl h fd

theorem onlyAt_unregisterFromReactor {g : Registry ρ κ} (h : Valid g) (here : ρ) (fd : Int) :
    OnlyAt fd g (g.unregisterFromReactor here fd) := by
  let r := g.reactorOf here fd
  have hfd := onlyAt_setFdEvent h fd {g.fdEvents fd with reactor := some r, listenEvents := {}}
  exact hfd.trans (onlyAt_setReactor hfd.valid ((h r).delEvent _ fd) fun _ hne =>
    Reactor.sameAt_delEvent (h r) _ hne)

theorem onlyAt_toEpoll {g : Registry ρ κ} (h : Valid g) (here : ρ) (cor : κ) (fd : Int)
    (event : IOEvent) : OnlyAt fd g (g.toEpoll here cor fd event) := by
  have hfd := onlyAt_setFdEvent h fd {g.fdEvents fd with coroutine := some cor}
  exact hfd.trans (onlyAt_addListenEvents hfd.valid here fd event)

theorem onlyAt_leaveEpoll {g : Registry ρ κ} (h : Valid g) (here : ρ) (fd : Int) (event : IOEvent) :
    OnlyAt fd g (g.leaveEpoll here fd event) := by
  have hdel := onlyAt_delListenEvents h here fd event
  exact hdel.trans (onlyAt_setFdEvent hdel.valid fd _)

/-! ### What the hooks leave at their descriptor -/

/-- Without a listener for the event, `toEpoll` puts the coroutine in the `FdEvent` and has
its reactor told. -/
theorem toEpoll_spec {g : Registry ρ κ} (here : ρ) (cor : κ) {fd : Int} {event : IOEvent}
    (h : (g.fdEvents fd).listenEvents.has event = false) :
    (g.toEpoll here cor fd event).fdEvents fd =
        ⟨(g.fdEvents fd).listenEvents.set event true, some (g.reactorOf here fd), some cor⟩ ∧
      (g.toEpoll here cor fd event).reactors (g.reactorOf here fd) =
        (g.reactors (g.reactorOf here fd)).addEvent (g.reactorOf here fd = here) fd
          ((g.fdEvents fd).listenEvents.set event true) := by
  simp only [toEpoll, addListenEvents, setCoroutine, setFdEvent, Function.update_self, h,
    Bool.false_eq_true, if_false, updateToReactor, setReactor, reactorOf]
  exact ⟨trivial, rfl⟩

theorem toEpoll_reactors {g : Registry ρ κ} (here : ρ) (cor : κ) {fd : Int} {event : IOEvent}
    (h : (g.fdEvents fd).listenEvents.has event = false) :
    (g.toEpoll here cor fd event).reactors =
      Function.update g.reactors (g.reactorOf here fd)
        ((g.reactors (g.reactorOf here fd)).addEvent (g.reactorOf here fd = here) fd
          ((g.fdEvents fd).listenEvents.set event true)) := by
  simp only [toEpoll, addListenEvents, setCoroutine, setFdEvent, Function.update_self, h,
    Bool.false_eq_true, if_false, updateToReactor, setReactor, reactorOf]
  rfl

theorem toEpoll_coroutine (g : Registry ρ κ) (here : ρ) (cor : κ) (fd other : Int) (event : IOEvent) :
    ((g.toEpoll here cor fd event).fdEvents other).coroutine =
      if other = fd then some cor else (g.fdEvents other).coroutine := by
  unfold toEpoll addListenEvents setCoroutine setFdEvent
  by_cases hfd : other = fd
  · split <;> simp [hfd, updateToReactor, setFdEvent, setReactor]
  · split <;> simp [hfd, updateToReactor, setFdEvent, setReactor]

@[simp] theorem unregisterFromReactor_coroutine (g : Registry ρ κ) (here : ρ) (fd other : Int) :
    ((g.unregisterFromReactor here fd).fdEvents other).coroutine = (g.fdEvents other).coroutine := by
  unfold unregisterFromReactor setFdEvent setReactor
  by_cases hfd : other = fd
  · simp [hfd]
  · simp [hfd]

/-- On the descriptor's own reactor a hook that is resumed registers what is left of the
interest. -/
theorem leaveEpoll_spec {g : Registry ρ κ} {here : ρ} {fd : Int} {event : IOEvent}
    (h : (g.fdEvents fd).listenEvents.has event) (hreactor : (g.fdEvents fd).reactor = some here) :
    (g.leaveEpoll here fd event).reactors =
      Function.update g.reactors here ((g.reactors here).addEvent true fd
        ((g.fdEvents fd).listenEvents.set event false)) := by
  simp only [leaveEpoll, delListenEvents, h, if_true, updateToReactor, reactorOf, setFdEvent,
    Function.update_self, hreactor, Option.getD_some, setReactor, setCoroutine, decide_true]

/-- A hook that is resumed takes its coroutine from the `FdEvent`. -/
theorem leaveEpoll_coroutine (g : Registry ρ κ) (here : ρ) (fd other : Int) (event : IOEvent) :
    ((g.leaveEpoll here fd event).fdEvents other).coroutine =
      if other = fd then none else (g.fdEvents other).coroutine := by
  unfold leaveEpoll delListenEvents setCoroutine setFdEvent
  by_cases hfd : other = fd
  · simp [hfd]
  · split <;> simp [hfd, updateToReactor, setFdEvent, setReactor]

/-- And its event. -/
theorem leaveEpoll_listens (g : Registry ρ κ) (here : ρ) (fd other : Int) (event e : IOEvent) :
    ((g.leaveEpoll here fd event).fdEvents other).listenEvents.has e =
      if other = fd ∧ e = event then false else (g.fdEvents other).listenEvents.has e := by
  unfold leaveEpoll delListenEvents setCoroutine setFdEvent
  by_cases hfd : other = fd
  · by_cases hhas : (g.fdEvents fd).listenEvents.has event
    · simp [hfd, hhas, updateToReactor, setFdEvent, setReactor]
    · by_cases he : e = event
      · subst he
        simp [hfd, hhas]
      · simp [hfd, hhas, he]
  · split <;> simp [hfd, updateToReactor, setFdEvent, setReactor]

end

end Registry

end CoroutineRpc.Net
