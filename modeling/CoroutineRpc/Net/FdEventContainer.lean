import CoroutineRpc.Library.Refinement
import CoroutineRpc.Memory

/-! `FdEventContainer`: the event of each descriptor.

An event is an object: it is known by its number among all that were made, and has the
descriptor it was made for. `none` is undefined behaviour, as in `Memory`: an access out of
range, or a number that is no `int`. A container that grew holds at each index the event that
was made for it first (`made`), so a call gives a descriptor its own event, and always the
same, exactly when the index is reached (`stable_iff`). -/
namespace CoroutineRpc.Net
open Library Library.Transition

/-- A `FdEvent::ptr`. -/
structure FdEventPtr where
  object : Nat
  fd : Int
deriving DecidableEq

def FdEventPtr.getFd (event : FdEventPtr) : Int := event.fd

structure FdEventContainer where
  fds : List FdEventPtr := []
  /-- How many objects were made. -/
  objects : Nat := 0
deriving DecidableEq

namespace FdEventContainer

/-- `static_cast<int>` of a size. -/
def toInt (size : Nat) : Int := (BitVec.ofNat 32 size).toInt

/-- `m_fds[fd]`; a negative index becomes one far behind the end. -/
def access (c : FdEventContainer) (fd : Int) : Option FdEventPtr :=
  if 0 ≤ fd then c.fds[fd.toNat]? else none

/-- `m_fds.push_back(std::make_shared<FdEvent>(i))`. -/
def pushBack (c : FdEventContainer) (i : Int) : FdEventContainer :=
  ⟨c.fds ++ [⟨c.objects, i⟩], c.objects + 1⟩

/-- The loop that pushes events, for the `count` indices from `i` on. -/
def pushFrom : (count : Nat) → (i : Int) → FdEventContainer → FdEventContainer
  | 0, _, c => c
  | count + 1, i, c => pushFrom count (i + 1) (c.pushBack i)

def getFdEvent (c : FdEventContainer) (fd : Int) : Option (FdEventContainer × FdEventPtr) :=
  if fd < toInt c.fds.length then do
    let re ← c.access fd
    pure (c, re)
  else do
    -- `fd * 1.5` is exact in a `double`
    let n ← int ((fd * 3).tdiv 2)
    let i := toInt c.fds.length
    let c := pushFrom (n - i).toNat i c
    let re ← c.access fd
    pure (c, re)

/-- The constructor. -/
def ofSize (size : Int) : FdEventContainer := pushFrom size.toNat 0 {}

def getFdContainer : FdEventContainer := ofSize 1000

/-- One call after the other. -/
def calls : FdEventContainer → List Int → Option (List FdEventPtr)
  | _, [] => some []
  | c, fd :: fds => do
    let (c, event) ← getFdEvent c fd
    let events ← calls c fds
    pure (event :: events)

/-! ### What a container holds -/

/-- The container of some size: the event at an index was made for it, in the order of the indices. -/
def made (size : Nat) : FdEventContainer := ⟨(List.range size).map fun i => ⟨i, i⟩, size⟩

@[simp] theorem made_length (size : Nat) : (made size).fds.length = size := by simp [made]

theorem made_pushBack (size : Nat) : (made size).pushBack size = made (size + 1) := by
  simp [made, pushBack, List.range_succ]

theorem made_pushFrom (count size : Nat) : pushFrom count size (made size) = made (size + count) := by
  induction count generalizing size with
  | zero => rfl
  | succ count ih =>
    rw [pushFrom, made_pushBack, show (size : Int) + 1 = (size + 1 : Nat) from rfl, ih]
    congr 1
    omega

theorem getFdContainer_made : getFdContainer = made 1000 := by
  have h := made_pushFrom 1000 0
  rw [Nat.zero_add] at h
  exact h

theorem access_made {size : Nat} {fd : Int} (h : 0 ≤ fd ∧ fd < size) :
    (made size).access fd = some ⟨fd.toNat, fd⟩ := by
  have hfd : fd.toNat < size := by omega
  rw [access, if_pos h.1, made, List.getElem?_map, List.getElem?_range hfd, Option.map_some,
    Int.toNat_of_nonneg h.1]

theorem access_negative (c : FdEventContainer) {fd : Int} (h : fd < 0) : c.access fd = none :=
  if_neg (Int.not_le.mpr h)

theorem toInt_eq {size : Nat} (h : size < 2 ^ 31) : toInt size = size := by
  rw [toInt, BitVec.toInt_eq_toNat_of_lt, BitVec.toNat_ofNat, Nat.mod_eq_of_lt (by omega)]
  rw [BitVec.toNat_ofNat]
  omega

/-! ### A call -/

/-- The index is there, or half as much again as the descriptor is still an `int`. -/
def Reached (c : FdEventContainer) (fd : Int) : Prop :=
  0 ≤ fd ∧ (fd < c.fds.length ∨ fd ≤ 1431655765)

/-- A container as calls leave it. -/
def Made (c : FdEventContainer) : Prop := ∃ size, 1000 ≤ size ∧ size < 2 ^ 31 ∧ c = made size

theorem made_getFdContainer : Made getFdContainer := ⟨1000, le_refl _, by decide, getFdContainer_made⟩

/-- **A call that reaches its index** gives the event that was made for it. -/
theorem getFdEvent_reached {c : FdEventContainer} (hc : Made c) {fd : Int} (h : Reached c fd) :
    ∃ c', getFdEvent c fd = some (c', ⟨fd.toNat, fd⟩) ∧ Made c' := by
  obtain ⟨size, hmin, hmax, rfl⟩ := hc
  obtain ⟨hpos, hreach⟩ := h
  rw [made_length] at hreach
  rw [getFdEvent, made_length, toInt_eq hmax]
  by_cases hfd : fd < size
  · rw [if_pos hfd, access_made ⟨hpos, hfd⟩]
    exact ⟨_, rfl, size, hmin, hmax, rfl⟩
  · have hlarge : fd ≤ 1431655765 := hreach.resolve_left hfd
    have hn : int ((fd * 3).tdiv 2) = some (fd * 3 / 2) := by
      rw [Int.tdiv_eq_ediv_of_nonneg (by omega), int_some (by omega)]
    have hgrown : pushFrom (fd * 3 / 2 - size).toNat size (made size) = made (fd * 3 / 2).toNat := by
      rw [made_pushFrom]
      congr 1
      omega
    rw [if_neg hfd, hn]
    show ∃ c', ((pushFrom (fd * 3 / 2 - size).toNat size (made size)).access fd).bind _ = _ ∧ _
    rw [hgrown, access_made ⟨hpos, by omega⟩]
    exact ⟨_, rfl, _, by omega, by omega, rfl⟩

/-- A call that does not is undefined. -/
theorem getFdEvent_none {c : FdEventContainer} (hc : Made c) {fd : Int} (h : ¬ Reached c fd) :
    getFdEvent c fd = none := by
  obtain ⟨size, hmin, hmax, rfl⟩ := hc
  rw [Reached, made_length] at h
  rw [getFdEvent, made_length, toInt_eq hmax]
  by_cases hneg : fd < 0
  · rw [if_pos (by omega), access_negative _ hneg]
    rfl
  · have hn : int ((fd * 3).tdiv 2) = none := by
      rw [Int.tdiv_eq_ediv_of_nonneg (by omega)]
      exact if_neg (by omega)
    rw [if_neg (by omega), hn]
    rfl

theorem reached_of_some {c c' : FdEventContainer} (hc : Made c) {fd : Int} {event : FdEventPtr}
    (h : getFdEvent c fd = some (c', event)) : Reached c fd ∧ event = ⟨fd.toNat, fd⟩ ∧ Made c' := by
  by_cases hreach : Reached c fd
  · obtain ⟨d, hd, hmade⟩ := getFdEvent_reached hc hreach
    obtain ⟨rfl, rfl⟩ := Prod.mk.inj (Option.some.inj (h.symm.trans hd))
    exact ⟨hreach, rfl, hmade⟩
  · rw [getFdEvent_none hc hreach] at h
    cases h

/-! ### Calls one after the other -/

/-- What a call leaves of the container. -/
def step (c : FdEventContainer) (fd : Int) : Option FdEventContainer := (getFdEvent c fd).map Prod.fst

theorem calls_eq {c : FdEventContainer} (hc : Made c) {fds : List Int} {events : List FdEventPtr}
    (h : calls c fds = some events) : events = fds.map fun fd => ⟨fd.toNat, fd⟩ := by
  induction fds generalizing c events with
  | nil => exact (Option.some.inj h).symm
  | cons fd fds ih =>
    obtain ⟨⟨c', event⟩, hcall, h⟩ := Option.bind_eq_some_iff.mp h
    obtain ⟨rest, hrest, h⟩ := Option.bind_eq_some_iff.mp h
    obtain ⟨-, rfl, hc'⟩ := reached_of_some hc hcall
    rw [← Option.some.inj h, ih hc' hrest, List.map_cons]

theorem calls_some_iff {c : FdEventContainer} (hc : Made c) (fds : List Int) :
    (∃ events, calls c fds = some events) ↔ Meets step Reached c fds := by
  induction fds generalizing c with
  | nil => exact ⟨fun _ => trivial, fun _ => ⟨[], rfl⟩⟩
  | cons fd fds ih =>
    constructor
    · rintro ⟨events, h⟩
      obtain ⟨⟨c', event⟩, hcall, h⟩ := Option.bind_eq_some_iff.mp h
      obtain ⟨rest, hrest, -⟩ := Option.bind_eq_some_iff.mp h
      obtain ⟨hreach, -, hc'⟩ := reached_of_some hc hcall
      refine ⟨hreach, fun t ht => ?_⟩
      rw [step, hcall] at ht
      obtain rfl := Option.some.inj ht
      exact (ih hc').mp ⟨rest, hrest⟩
    · rintro ⟨hreach, hmore⟩
      obtain ⟨c', hcall, hc'⟩ := getFdEvent_reached hc hreach
      obtain ⟨rest, hrest⟩ := (ih hc').mpr (hmore c' (by rw [step, hcall]; rfl))
      exact ⟨⟨fd.toNat, fd⟩ :: rest, by rw [calls, hcall]; simp [hrest]⟩

/-- Every access is in range, each event has the descriptor that was asked for, and the same
descriptor is given the same object. -/
def Stable (fds : List Int) : Prop :=
  ∃ events, calls getFdContainer fds = some events ∧ events.map FdEventPtr.getFd = fds ∧
    ∀ i j : Nat, fds[i]? = fds[j]? → events[i]? = events[j]?

/-- **The container is in bounds and stable** on calls that each reach their index. -/
theorem stable_iff (fds : List Int) : Stable fds ↔ Meets step Reached getFdContainer fds := by
  rw [← calls_some_iff made_getFdContainer]
  constructor
  · rintro ⟨events, h, -⟩
    exact ⟨events, h⟩
  · rintro ⟨events, h⟩
    obtain rfl := calls_eq made_getFdContainer h
    refine ⟨_, h, ?_, fun i j hij => ?_⟩
    · rw [List.map_map]
      exact List.map_id fds
    · rw [List.getElem?_map, List.getElem?_map, hij]

/-- The descriptor of a socket that could not be had. -/
theorem not_stable_noSocket : ¬ ∀ fds : List Int, (∀ fd ∈ fds, fd = -1 ∨ 0 ≤ fd) → Stable fds := by
  intro h
  obtain ⟨events, hcalls, -⟩ := h [-1] (by simp)
  have hmeets : Meets step Reached getFdContainer [-1] :=
    (calls_some_iff made_getFdContainer [-1]).mp ⟨events, hcalls⟩
  have hpos : (0 : Int) ≤ -1 := hmeets.1.1
  omega

end FdEventContainer

end CoroutineRpc.Net
