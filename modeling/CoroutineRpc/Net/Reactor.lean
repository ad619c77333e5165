import CoroutineRpc.Library.Multimap
import Mathlib.Data.Int.Order.Basic
import Mathlib.Data.List.Induction
import Mathlib.Data.List.Nodup
import Mathlib.Logic.Function.Basic

/-! How a `Reactor` registers descriptors.

On the loop's own thread a call goes to `epoll_ctl` at once. Calls of other threads are
collected, the adds in a map and the deletes in a list, until `loop` drains both, the
adds first. `drain_eq_iff` says which sequences of calls come out the same either way. -/
namespace CoroutineRpc.Net
open Library.Multimap

/-- An operation of `epoll_ctl`, with its event. -/
inductive EpollCtl (ε : Type) where
  | add (event : ε)
  | mod (event : ε)
  | del

/-- The interest set after `epoll_ctl`; `none` is an error, which changes nothing. -/
def epollCtl {ε : Type} (epoll : Int → Option ε) (op : EpollCtl ε) (fd : Int) :
    Option (Int → Option ε) :=
  match op, epoll fd with
  | .add event, none => some (Function.update epoll fd (some event))
  | .mod event, some _ => some (Function.update epoll fd (some event))
  | .del, some _ => some (Function.update epoll fd none)
  | _, _ => none

/-- What a reactor knows of descriptors: `m_fds`, the interest set of its `m_epfd`, and the
calls of other threads that are pending. -/
structure Reactor (ε : Type) where
  fds : List Int := []
  epoll : Int → Option ε := fun _ => none
  pendingAddFds : List (Int × ε) := []
  pendingDelFds : List Int := []

namespace Reactor
variable {ε : Type}

def addEventInLoopThread (r : Reactor ε) (fd : Int) (event : ε) : Reactor ε :=
  if fd ∈ r.fds then
    match epollCtl r.epoll (.mod event) fd with
    | none => r
    | some epoll => {r with epoll}
  else
    match epollCtl r.epoll (.add event) fd with
    | none => r
    | some epoll => {r with epoll, fds := r.fds ++ [fd]}

/-- The descriptor leaves `m_fds` also when `epoll_ctl` fails. -/
def delEventInLoopThread (r : Reactor ε) (fd : Int) : Reactor ε :=
  if fd ∉ r.fds then r
  else {r with epoll := (epollCtl r.epoll .del fd).getD r.epoll, fds := r.fds.erase fd}

def addEvent (r : Reactor ε) (isLoopThread : Bool) (fd : Int) (event : ε) : Reactor ε :=
  if fd = -1 then r
  else if isLoopThread then r.addEventInLoopThread fd event
  else {r with pendingAddFds := insertNew fd event r.pendingAddFds}

def delEvent (r : Reactor ε) (isLoopThread : Bool) (fd : Int) : Reactor ε :=
  if fd = -1 then r
  else if isLoopThread then r.delEventInLoopThread fd
  else {r with pendingDelFds := r.pendingDelFds ++ [fd]}

/-- The end of an iteration of `loop`. -/
def drain (r : Reactor ε) : Reactor ε :=
  let tmpAdd := r.pendingAddFds
  let tmpDel := r.pendingDelFds
  let r := {r with pendingAddFds := [], pendingDelFds := []}
  tmpDel.foldl delEventInLoopThread (tmpAdd.foldl (fun r p => r.addEventInLoopThread p.1 p.2) r)

/-- `m_fds` lists the registered descriptors. -/
structure Consistent (r : Reactor ε) : Prop where
  nodup : r.fds.Nodup
  registered : ∀ fd, fd ∈ r.fds ↔ r.epoll fd ≠ none

/-! ### What is pending -/

@[simp] theorem addEventInLoopThread_pendingAddFds (r : Reactor ε) (fd : Int) (event : ε) :
    (r.addEventInLoopThread fd event).pendingAddFds = r.pendingAddFds := by
  unfold addEventInLoopThread
  split <;> split <;> rfl

@[simp] theorem addEventInLoopThread_pendingDelFds (r : Reactor ε) (fd : Int) (event : ε) :
    (r.addEventInLoopThread fd event).pendingDelFds = r.pendingDelFds := by
  unfold addEventInLoopThread
  split <;> split <;> rfl

@[simp] theorem delEventInLoopThread_pendingAddFds (r : Reactor ε) (fd : Int) :
    (r.delEventInLoopThread fd).pendingAddFds = r.pendingAddFds := by
  unfold delEventInLoopThread
  split <;> rfl

@[simp] theorem delEventInLoopThread_pendingDelFds (r : Reactor ε) (fd : Int) :
    (r.delEventInLoopThread fd).pendingDelFds = r.pendingDelFds := by
  unfold delEventInLoopThread
  split <;> rfl

/-- What a call keeps, a list of calls keeps. -/
theorem foldl_field {α β : Type} (field : Reactor ε → β) (call : Reactor ε → α → Reactor ε)
    (h : ∀ r a, field (call r a) = field r) (l : List α) (r : Reactor ε) :
    field (l.foldl call r) = field r := by
  induction l generalizing r with
  | nil => rfl
  | cons a rest ih => rw [List.foldl_cons, ih, h]

@[simp] theorem drain_pendingAddFds (r : Reactor ε) : r.drain.pendingAddFds = [] := by
  unfold drain
  rw [foldl_field Reactor.pendingAddFds _ (by simp), foldl_field Reactor.pendingAddFds _ (by simp)]

@[simp] theorem drain_pendingDelFds (r : Reactor ε) : r.drain.pendingDelFds = [] := by
  unfold drain
  rw [foldl_field Reactor.pendingDelFds _ (by simp), foldl_field Reactor.pendingDelFds _ (by simp)]

/-! ### What a call does to the interest set -/

/-- With a consistent reactor `epoll_ctl` succeeds. -/
theorem addEventInLoopThread_spec {r : Reactor ε} (h : Consistent r) (fd : Int) (event : ε) :
    Consistent (r.addEventInLoopThread fd event) ∧
      (r.addEventInLoopThread fd event).epoll = Function.update r.epoll fd (some event) := by
  unfold addEventInLoopThread
  by_cases hfd : fd ∈ r.fds
  · obtain ⟨old, hold⟩ := Option.ne_none_iff_exists'.mp ((h.registered fd).mp hfd)
    rw [if_pos hfd]
    simp only [epollCtl, hold]
    refine ⟨⟨h.nodup, fun d => ?_⟩, trivial⟩
    by_cases hd : d = fd
    · simp [hd, hfd]
    · simp only [Function.update_of_ne hd]
      exact h.registered d
  · have hnone : r.epoll fd = none := Classical.byContradiction fun hne => hfd ((h.registered fd).mpr hne)
    rw [if_neg hfd]
    simp only [epollCtl, hnone]
    refine ⟨⟨?_, fun d => ?_⟩, trivial⟩
    · refine List.nodup_append.mpr ⟨h.nodup, List.nodup_singleton fd, fun a ha b hb hab => ?_⟩
      rw [List.mem_singleton.mp hb] at hab
      exact hfd (hab ▸ ha)
    · by_cases hd : d = fd
      · simp [hd]
      · simp only [Function.update_of_ne hd, List.mem_append, List.mem_singleton, hd, or_false]
        exact h.registered d

theorem delEventInLoopThread_spec {r : Reactor ε} (h : Consistent r) (fd : Int) :
    Consistent (r.delEventInLoopThread fd) ∧
      (r.delEventInLoopThread fd).epoll = Function.update r.epoll fd none := by
  unfold delEventInLoopThread
  by_cases hfd : fd ∈ r.fds
  · obtain ⟨old, hold⟩ := Option.ne_none_iff_exists'.mp ((h.registered fd).mp hfd)
    rw [if_neg (not_not.mpr hfd)]
    simp only [epollCtl, hold, Option.getD_some]
    refine ⟨⟨h.nodup.erase fd, fun d => ?_⟩, trivial⟩
    by_cases hd : d = fd
    · simp [hd, h.nodup.not_mem_erase]
    · simp only [Function.update_of_ne hd, List.mem_erase_of_ne hd]
      exact h.registered d
  · have hnone : r.epoll fd = none := Classical.byContradiction fun hne => hfd ((h.registered fd).mpr hne)
    rw [if_pos hfd]
    exact ⟨h, by rw [← hnone, Function.update_eq_self]⟩

/-! ### Sequences of calls -/

inductive Call (ε : Type) where
  | add (fd : Int) (event : ε)
  | del (fd : Int)
deriving DecidableEq

def Call.fd : Call ε → Int
  | .add fd _ => fd
  | .del fd => fd

/-- The interest a call leaves. -/
def Call.interest : Call ε → Option ε
  | .add _ event => some event
  | .del _ => none

def make (isLoopThread : Bool) (r : Reactor ε) : Call ε → Reactor ε
  | .add fd event => r.addEvent isLoopThread fd event
  | .del fd => r.delEvent isLoopThread fd

/-- The events added for `fd`, in order. -/
def adds (fd : Int) (calls : List (Call ε)) : List ε :=
  calls.filterMap fun
    | .add d event => if d = fd then some event else none
    | .del _ => none

def lastCall (fd : Int) (calls : List (Call ε)) : Option (Call ε) :=
  (calls.filter (·.fd = fd)).getLast?

theorem adds_concat (fd : Int) (calls : List (Call ε)) (c : Call ε) :
    adds fd (calls ++ [c]) = adds fd calls ++ adds fd [c] := List.filterMap_append

theorem lastCall_concat (fd : Int) (calls : List (Call ε)) (c : Call ε) :
    lastCall fd (calls ++ [c]) = if c.fd = fd then some c else lastCall fd calls := by
  unfold lastCall
  by_cases hc : c.fd = fd
  · simp [List.filter_append, hc]
  · simp [List.filter_append, hc]

/-! ### Calls on the loop's thread -/

theorem inLoop_step {r : Reactor ε} (h : Consistent r) (c : Call ε) :
    Consistent (make true r c) ∧
      (make true r c).epoll = if c.fd = -1 then r.epoll else Function.update r.epoll c.fd c.interest := by
  cases c with
  | add d event =>
    show Consistent (if d = -1 then r else r.addEventInLoopThread d event) ∧
      (if d = -1 then r else r.addEventInLoopThread d event).epoll = if d = -1 then _ else _
    by_cases hd : d = -1
    · simp only [if_pos hd]
      exact ⟨h, trivial⟩
    · simp only [if_neg hd]
      exact addEventInLoopThread_spec h d event
  | del d =>
    show Consistent (if d = -1 then r else r.delEventInLoopThread d) ∧
      (if d = -1 then r else r.delEventInLoopThread d).epoll = if d = -1 then _ else _
    by_cases hd : d = -1
    · simp only [if_pos hd]
      exact ⟨h, trivial⟩
    · simp only [if_neg hd]
      exact delEventInLoopThread_spec h d

/-- The last call for a descriptor decides. -/
theorem inLoop_spec {r : Reactor ε} (h : Consistent r) (calls : List (Call ε)) :
    Consistent (calls.foldl (make true) r) ∧ ∀ fd, (calls.foldl (make true) r).epoll fd =
      if fd = -1 then r.epoll fd
      else match lastCall fd calls with
        | none => r.epoll fd
        | some c => c.interest := by
  induction calls using List.reverseRecOn with
  | nil => exact ⟨h, fun fd => by simp [lastCall]⟩
  | append_singleton calls c ih =>
    obtain ⟨hcons, hepoll⟩ := inLoop_step ih.1 c
    rw [List.foldl_append]
    refine ⟨hcons, fun fd => ?_⟩
    show (make true (calls.foldl (make true) r) c).epoll fd = _
    rw [hepoll, lastCall_concat]
    by_cases hc : c.fd = fd
    · subst hc
      by_cases hfd : c.fd = -1
      · simp only [if_pos hfd, ih.2]
      · simp [hfd]
    · by_cases hd : c.fd = -1
      · simp only [if_pos hd, if_neg hc, ih.2]
      · simp only [if_neg hd, if_neg hc, Function.update_of_ne (Ne.symm hc), ih.2]

/-! ### Calls of other threads -/

theorem crossThread_spec {r : Reactor ε} (hadd : r.pendingAddFds = []) (hdel : r.pendingDelFds = [])
    (calls : List (Call ε)) :
    ∃ pendingAddFds pendingDelFds, calls.foldl (make false) r = {r with pendingAddFds, pendingDelFds} ∧
      Distinct pendingAddFds ∧
      (∀ fd event, (fd, event) ∈ pendingAddFds ↔ fd ≠ -1 ∧ (adds fd calls).head? = some event) ∧
      ∀ fd, fd ∈ pendingDelFds ↔ fd ≠ -1 ∧ .del fd ∈ calls := by
  induction calls using List.reverseRecOn with
  | nil => exact ⟨[], [], by rw [← hadd, ← hdel]; rfl, List.Pairwise.nil, by simp [adds], by simp⟩
  | append_singleton calls c ih =>
    obtain ⟨addFds, delFds, heq, hdistinct, hmem, hdels⟩ := ih
    rw [List.foldl_append, heq]
    show ∃ pendingAddFds pendingDelFds, make false _ c = _ ∧ _
    cases c with
    | add d event =>
      simp only [make, addEvent, Bool.false_eq_true, if_false]
      have hhead : ∀ fd, (adds fd (calls ++ [.add d event])).head? =
          (adds fd calls).head?.or (if d = fd then some event else none) := by
        intro fd
        rw [adds_concat, List.head?_append]
        by_cases hd : d = fd
        · simp [adds, hd]
        · simp [adds, hd]
      have hdels' : ∀ fd, fd ∈ delFds ↔ fd ≠ -1 ∧ .del fd ∈ calls ++ [.add d event] := by
        intro fd
        rw [hdels]
        simp
      by_cases hd : d = -1
      · rw [if_pos hd]
        refine ⟨addFds, delFds, rfl, hdistinct, fun fd e => ?_, hdels'⟩
        rw [hmem, hhead]
        refine and_congr_right fun hfd => ?_
        rw [if_neg (fun h => hfd (h.symm.trans hd)), Option.or_none]
      · rw [if_neg hd]
        refine ⟨_, delFds, rfl, hdistinct.insertNew, fun fd e => ?_, hdels'⟩
        rw [mem_insertNew, hmem, hhead]
        by_cases hfd : d = fd
        · subst hfd
          cases hold : (adds d calls).head? with
          | none =>
            have hnone : ∀ w, (d, w) ∉ addFds := fun w hw => by
              rw [hmem, hold] at hw
              cases hw.2
            simp [hd, hnone, eq_comm]
          | some old =>
            have hsome : (d, old) ∈ addFds := (hmem d old).mpr ⟨hd, hold⟩
            simp only [Option.some_or, or_iff_left_iff_imp]
            exact fun h => absurd hsome (h.2 old)
        · simp [hfd, Ne.symm hfd]
    | del d =>
      simp only [make, delEvent, Bool.false_eq_true, if_false]
      have hadds : ∀ fd, adds fd (calls ++ [.del d]) = adds fd calls := by
        intro fd
        rw [adds_concat]
        simp [adds]
      by_cases hd : d = -1
      · rw [if_pos hd]
        refine ⟨addFds, delFds, rfl, hdistinct, fun fd e => by rw [hmem, hadds], fun fd => ?_⟩
        rw [hdels]
        refine and_congr_right fun hfd => ?_
        simp [hd, hfd]
      · rw [if_neg hd]
        refine ⟨addFds, _, rfl, hdistinct, fun fd e => by rw [hmem, hadds], fun fd => ?_⟩
        rw [List.mem_append, hdels, List.mem_append, List.mem_singleton, List.mem_singleton]
        by_cases hfd : fd = d
        · simp [hfd, hd]
        · simp [hfd]

theorem drainAdds_spec {r : Reactor ε} (h : Consistent r) {l : List (Int × ε)} (hl : Distinct l) :
    Consistent (l.foldl (fun r p => r.addEventInLoopThread p.1 p.2) r) ∧
      ∀ fd, (∀ event, (fd, event) ∈ l →
          (l.foldl (fun r p => r.addEventInLoopThread p.1 p.2) r).epoll fd = some event) ∧
        ((∀ event, (fd, event) ∉ l) →
          (l.foldl (fun r p => r.addEventInLoopThread p.1 p.2) r).epoll fd = r.epoll fd) := by
  induction l generalizing r with
  | nil => exact ⟨h, fun fd => ⟨fun _ hp => absurd hp List.not_mem_nil, fun _ => rfl⟩⟩
  | cons p rest ih =>
    obtain ⟨hne, hrest⟩ := List.pairwise_cons.mp hl
    obtain ⟨hcons, hepoll⟩ := addEventInLoopThread_spec h p.1 p.2
    obtain ⟨hcons', hspec⟩ := ih hcons hrest
    refine ⟨hcons', fun fd => ⟨fun event hmem => ?_, fun hno => ?_⟩⟩
    · rcases List.mem_cons.mp hmem with rfl | hmem
      · have := (hspec fd).2 fun e he => hne (fd, e) he rfl
        rw [List.foldl_cons, this, hepoll, Function.update_self]
      · exact (hspec fd).1 event hmem
    · have hfd : fd ≠ p.1 := fun heq => hno p.2 (by rw [heq]; exact List.mem_cons_self ..)
      have := (hspec fd).2 fun e he => hno e (List.mem_cons_of_mem p he)
      rw [List.foldl_cons, this, hepoll, Function.update_of_ne hfd]

theorem drainDels_spec {r : Reactor ε} (h : Consistent r) (l : List Int) :
    Consistent (l.foldl delEventInLoopThread r) ∧
      ∀ fd, (l.foldl delEventInLoopThread r).epoll fd = if fd ∈ l then none else r.epoll fd := by
  induction l generalizing r with
  | nil => exact ⟨h, fun fd => by simp⟩
  | cons d rest ih =>
    obtain ⟨hcons, hepoll⟩ := delEventInLoopThread_spec h d
    obtain ⟨hcons', hspec⟩ := ih hcons
    refine ⟨hcons', fun fd => ?_⟩
    rw [List.foldl_cons, hspec, hepoll, Function.update_apply]
    by_cases hfd : fd = d
    · simp [hfd]
    · simp [hfd]

/-- Any delete decides, and else the first add. -/
theorem drain_crossThread {r : Reactor ε} (h : Consistent r) (hadd : r.pendingAddFds = [])
    (hdel : r.pendingDelFds = []) (calls : List (Call ε)) (fd : Int) :
    (fd = -1 → (drain (calls.foldl (make false) r)).epoll fd = r.epoll fd) ∧
      (fd ≠ -1 → .del fd ∈ calls → (drain (calls.foldl (make false) r)).epoll fd = none) ∧
      (fd ≠ -1 → .del fd ∉ calls →
        (drain (calls.foldl (make false) r)).epoll fd = (adds fd calls).head?.or (r.epoll fd)) := by
  obtain ⟨addFds, delFds, heq, hdistinct, hmem, hdels⟩ := crossThread_spec hadd hdel calls
  have hstart : Consistent {r with pendingAddFds := [], pendingDelFds := []} := ⟨h.nodup, h.registered⟩
  obtain ⟨hcons, hadds⟩ := drainAdds_spec hstart hdistinct
  have hspec := (drainDels_spec hcons delFds).2 fd
  have hdrain : drain (calls.foldl (make false) r) = delFds.foldl delEventInLoopThread
      (addFds.foldl (fun r p => r.addEventInLoopThread p.1 p.2)
        {r with pendingAddFds := [], pendingDelFds := []}) := by rw [heq]; rfl
  rw [hdrain, hspec]
  refine ⟨fun hfd => ?_, fun hfd hin => if_pos ((hdels fd).mpr ⟨hfd, hin⟩), fun hfd hin => ?_⟩
  · have hno : ∀ event, (fd, event) ∉ addFds := fun event he => ((hmem fd event).mp he).1 hfd
    rw [if_neg fun hin => ((hdels fd).mp hin).1 hfd, (hadds fd).2 hno]
  · rw [if_neg fun hd => hin ((hdels fd).mp hd).2]
    cases hhead : (adds fd calls).head? with
    | none =>
      have hno : ∀ event, (fd, event) ∉ addFds := fun event he => by
        rw [hmem, hhead] at he
        cases he.2
      rw [(hadds fd).2 hno, Option.none_or]
    | some event => rw [(hadds fd).1 event ((hmem fd event).mpr ⟨hfd, hhead⟩), Option.some_or]

/-! ### Where the two agree -/

/-- A descriptor comes out the same: it is deleted last if at all, and otherwise the first
event added for it is also the last. -/
structure Agree (fd : Int) (calls : List (Call ε)) : Prop where
  deleted : .del fd ∈ calls → lastCall fd calls = some (.del fd)
  added : .del fd ∉ calls → (adds fd calls).head? = (adds fd calls).getLast?

theorem lastCall_mem {fd : Int} {calls : List (Call ε)} {c : Call ε} (h : lastCall fd calls = some c) :
    c ∈ calls ∧ c.fd = fd := by
  have := List.mem_filter.mp (List.mem_of_getLast? h)
  exact ⟨this.1, of_decide_eq_true this.2⟩

theorem lastCall_ne_none {fd : Int} {calls : List (Call ε)} {c : Call ε} (hc : c ∈ calls)
    (hfd : c.fd = fd) : lastCall fd calls ≠ none := by
  rw [lastCall, ne_eq, List.getLast?_eq_none_iff]
  exact List.ne_nil_of_mem (List.mem_filter.mpr ⟨hc, decide_eq_true hfd⟩)

/-- Without a delete the last call is the last add. -/
theorem lastCall_of_no_del {fd : Int} {calls : List (Call ε)} (h : .del fd ∉ calls) :
    (lastCall fd calls).bind Call.interest = (adds fd calls).getLast? := by
  induction calls using List.reverseRecOn with
  | nil => rfl
  | append_singleton calls c ih =>
    have hrest := ih fun hin => h (List.mem_append_left _ hin)
    rw [lastCall_concat, adds_concat, List.getLast?_append]
    cases c with
    | add d event =>
      by_cases hd : d = fd
      · simp [adds, Call.fd, Call.interest, hd]
      · simp [adds, Call.fd, hd, hrest]
    | del d =>
      have hd : d ≠ fd := fun heq => h (by simp [heq])
      simp [adds, Call.fd, hd, hrest]

/-- **When the two ways agree**: the interest set after a drain is the one the same calls
leave on the loop's thread exactly when each descriptor comes out the same. -/
theorem drain_eq_iff {r : Reactor ε} (h : Consistent r) (hadd : r.pendingAddFds = [])
    (hdel : r.pendingDelFds = []) (calls : List (Call ε)) :
    (drain (calls.foldl (make false) r)).epoll = (calls.foldl (make true) r).epoll ↔
      ∀ fd, fd ≠ -1 → Agree fd calls := by
  rw [funext_iff]
  refine forall_congr' fun fd => ?_
  obtain ⟨hinvalid, hdeleted, hadded⟩ := drain_crossThread h hadd hdel calls fd
  rw [(inLoop_spec h calls).2]
  by_cases hfd : fd = -1
  · rw [hinvalid hfd, if_pos hfd]
    exact iff_of_true rfl fun hne => absurd hfd hne
  · rw [if_neg hfd]
    simp only [ne_eq, hfd, not_false_eq_true, forall_const]
    by_cases hin : .del fd ∈ calls
    · rw [hdeleted hfd hin]
      refine ⟨fun heq => ⟨fun _ => ?_, fun hno => absurd hin hno⟩, fun hagree => ?_⟩
      · cases hlast : lastCall fd calls with
        | none => exact absurd hlast (lastCall_ne_none hin rfl)
        | some c =>
          rw [hlast] at heq
          obtain ⟨_, hc⟩ := lastCall_mem hlast
          cases c with
          | add d event => cases heq
          | del d =>
            obtain rfl : d = fd := hc
            rfl
      · rw [hagree.deleted hin]
        rfl
    · have hbind := lastCall_of_no_del hin
      rw [hadded hfd hin]
      have hagree : Agree fd calls ↔ (adds fd calls).head? = (adds fd calls).getLast? :=
        ⟨fun h => h.added hin, fun h => ⟨fun h' => absurd h' hin, fun _ => h⟩⟩
      rw [hagree]
      cases hlast : lastCall fd calls with
      | none =>
        rw [hlast, Option.bind_none, eq_comm, List.getLast?_eq_none_iff] at hbind
        simp [hbind]
      | some c =>
        obtain ⟨hmem, hc⟩ := lastCall_mem hlast
        cases c with
        | del d => exact absurd (hc ▸ hmem) hin
        | add d event =>
          rw [hlast] at hbind
          rw [← hbind]
          cases hhead : (adds fd calls).head? with
          | none =>
            rw [List.head?_eq_none_iff] at hhead
            rw [hhead] at hbind
            cases hbind
          | some first => simp [Call.interest]

theorem consistent_empty : Consistent ({} : Reactor ε) where
  nodup := List.nodup_nil
  registered := by simp

/-- One descriptor added twice with one interest, another deleted. -/
theorem drain_eq_iff_repeated :
    (drain ([.add 5 1, .add 5 1, .del 6].foldl (make false) ({} : Reactor Nat))).epoll =
        ([.add 5 1, .add 5 1, .del 6].foldl (make true) ({} : Reactor Nat)).epoll ↔
      ∀ fd, fd ≠ -1 → Agree fd [Call.add 5 1, .add 5 1, .del 6] :=
  drain_eq_iff consistent_empty rfl rfl _

/-- An interest that is widened between two drains is lost. -/
theorem drain_ne_widened : ¬ ∀ r : Reactor Nat, Consistent r → r.pendingAddFds = [] →
    r.pendingDelFds = [] → ∀ calls : List (Call Nat),
      (drain (calls.foldl (make false) r)).epoll = (calls.foldl (make true) r).epoll := fun h => by
  have := congrFun (h {} consistent_empty rfl rfl [.add 5 1, .add 5 5]) 5
  revert this
  decide

end Reactor

end CoroutineRpc.Net
