import CoroutineRpc.Net.Tcp.Connection
import Mathlib.Data.List.Induction
import Mathlib.Data.List.Dedup

/-! `TcpTimeWheel`: connections that are idle for too long are shut down.

The wheel is a queue of buckets of pointers. `fresh` adds a pointer to the last bucket,
`loopFunc` drops the first bucket and adds an empty one. A slot dies with the last pointer to
it and then shuts its connection down. The last pointer to a slot lies as many buckets from the
end as there were ticks since the slot was last freshed (`Placed`), so the slot dies in the tick
that makes these as many as there are buckets (`destructs_iff`). -/
namespace CoroutineRpc.Net.Tcp
open Library.Transition
variable {σ κ : Type}

namespace TcpTimeWheel

/-- The wheel holds the only strong references to the slots, and a slot holds a weak one to its
connection. -/
structure State (σ κ : Type) where
  wheel : List (List σ)
  /-- The slots that have died, in this order. -/
  destroyed : List σ := []
  /-- The connections that there are. -/
  connections : κ → Option TcpConnection

inductive Input (σ κ : Type) where
  | fresh (slot : σ)
  | loopFunc
  /-- Whatever else happens to a connection, its end included. -/
  | connection (c : κ) (conn : Option TcpConnection)

/-- `TcpTimeWheel(bucket_count)`. -/
def make (bucketCount : Nat) (connections : κ → Option TcpConnection) : State σ κ :=
  {wheel := List.replicate bucketCount [], connections}

/-- `m_wheel.back().emplace_back(slot)`. -/
def emplaceBack (slot : σ) : List (List σ) → List (List σ)
  | [] => []
  | [bucket] => [bucket ++ [slot]]
  | bucket :: rest => bucket :: emplaceBack slot rest

section
variable [DecidableEq σ] [DecidableEq κ] (weakPtr : σ → κ)

/-- `~AbstractSlot`. -/
def destruct (s : State σ κ) (slot : σ) : State σ κ :=
  {s with
    destroyed := s.destroyed ++ [slot]
    connections := Function.update s.connections (weakPtr slot)
      ((s.connections (weakPtr slot)).map TcpConnection.shutdownConnection)}

/-- The end of a bucket that was popped: its pointers are released one after the other. -/
def release (s : State σ κ) : List σ → State σ κ
  | [] => s
  | slot :: rest =>
    if slot ∈ rest ∨ slot ∈ s.wheel.flatten then release s rest else release (destruct weakPtr s slot) rest

def loopFunc (s : State σ κ) : Option (State σ κ) :=
  match s.wheel with
  | [] => none
  | bucket :: rest =>
    let s := release weakPtr {s with wheel := rest} bucket
    some {s with wheel := s.wheel ++ [[]]}

/-- There is no pointer to a dead slot. -/
def fresh (s : State σ κ) (slot : σ) : Option (State σ κ) :=
  if s.wheel = [] ∨ slot ∈ s.destroyed then none else some {s with wheel := emplaceBack slot s.wheel}

def step (s : State σ κ) : Input σ κ → Option (State σ κ)
  | .fresh slot => fresh s slot
  | .loopFunc => loopFunc weakPtr s
  | .connection c conn => some {s with connections := Function.update s.connections c conn}

end

/-! ### Ticks -/

def Input.isTick : Input σ κ → Bool
  | .loopFunc => true
  | _ => false

/-- The calls of `loopFunc` in a run. -/
def ticks (is : List (Input σ κ)) : Nat := is.countP Input.isTick

/-- The ticks since a slot was last freshed, if it ever was. -/
def ageAfter [DecidableEq σ] (slot : σ) (age : Option Nat) : Input σ κ → Option Nat
  | .fresh other => if other = slot then some 0 else age
  | .loopFunc => age.map (· + 1)
  | .connection _ _ => age

def age [DecidableEq σ] (slot : σ) (is : List (Input σ κ)) : Option Nat :=
  is.foldl (ageAfter slot) none

theorem age_concat [DecidableEq σ] (slot : σ) (is : List (Input σ κ)) (i : Input σ κ) :
    age slot (is ++ [i]) = ageAfter slot (age slot is) i := by
  rw [age, List.foldl_append]
  rfl

theorem ticks_concat (is : List (Input σ κ)) (i : Input σ κ) :
    ticks (is ++ [i]) = ticks is + if i.isTick then 1 else 0 := by
  rw [ticks, List.countP_append, List.countP_singleton, ticks]

/-- The age counts from the latest `fresh`. -/
theorem age_eq_some [DecidableEq σ] {slot : σ} {is : List (Input σ κ)} {k : Nat} :
    age slot is = some k ↔ ∃ a b, is = a ++ .fresh slot :: b ∧ .fresh slot ∉ b ∧ ticks b = k := by
  induction is using List.reverseRecOn generalizing k with
  | nil => simp [age]
  | append_singleton is i ih =>
    -- the last input is the latest `fresh` or belongs to what follows it
    have hsplit : (∃ a b, is ++ [i] = a ++ .fresh slot :: b ∧ .fresh slot ∉ b ∧ ticks b = k) ↔
        i = .fresh slot ∧ k = 0 ∨ i ≠ .fresh slot ∧ ∃ a b, is = a ++ .fresh slot :: b ∧ .fresh slot ∉ b ∧
          ticks (b ++ [i]) = k := by
      constructor
      · rintro ⟨a, b, heq, hnot, hticks⟩
        rcases List.eq_nil_or_concat b with rfl | ⟨b, j, rfl⟩
        · obtain ⟨-, hlast⟩ := List.append_inj' heq rfl
          exact .inl ⟨List.singleton_inj.mp hlast, hticks.symm⟩
        · rw [List.concat_eq_append] at heq hnot hticks
          rw [show a ++ Input.fresh slot :: (b ++ [j]) = (a ++ Input.fresh slot :: b) ++ [j] by simp] at heq
          obtain ⟨rfl, hlast⟩ := List.append_inj' heq rfl
          obtain rfl := List.singleton_inj.mp hlast
          rw [List.mem_append, not_or, List.mem_singleton] at hnot
          exact .inr ⟨Ne.symm hnot.2, a, b, rfl, hnot.1, hticks⟩
      · rintro (⟨rfl, rfl⟩ | ⟨hne, a, b, rfl, hnot, hticks⟩)
        · exact ⟨is, [], rfl, by simp, rfl⟩
        · refine ⟨a, b ++ [i], by simp, ?_, hticks⟩
          rw [List.mem_append, not_or, List.mem_singleton]
          exact ⟨hnot, Ne.symm hne⟩
    rw [age_concat, hsplit]
    cases i with
    | fresh other =>
      by_cases hother : other = slot
      · subst hother
        simp [ageAfter, eq_comm]
      · simp [ageAfter, hother, ih, ticks_concat, Input.isTick]
    | loopFunc =>
      simp only [ageAfter, Option.map_eq_some_iff, ih, ticks_concat, Input.isTick, if_true]
      constructor
      · rintro ⟨m, ⟨a, b, heq, hnot, hm⟩, rfl⟩
        exact .inr ⟨nofun, a, b, heq, hnot, by rw [hm]⟩
      · rintro (⟨heq, -⟩ | ⟨-, a, b, heq, hnot, hticks⟩)
        · cases heq
        · exact ⟨ticks b, ⟨a, b, heq, hnot, rfl⟩, hticks⟩
    | connection c conn => simp [ageAfter, ih, ticks_concat, Input.isTick]

/-! ### What dies in a tick -/

section
variable [DecidableEq σ] [DecidableEq κ] {weakPtr : σ → κ} {s t : State σ κ}

/-- The slots that die with a bucket in front of `wheel`: the pointer behind all others counts. -/
def dying (wheel : List (List σ)) (bucket : List σ) : List σ := bucket.dedup.filter (· ∉ wheel.flatten)

theorem mem_dying {wheel : List (List σ)} {bucket : List σ} {slot : σ} :
    slot ∈ dying wheel bucket ↔ slot ∈ bucket ∧ slot ∉ wheel.flatten := by
  simp [dying]

theorem dying_nodup (wheel : List (List σ)) (bucket : List σ) : (dying wheel bucket).Nodup :=
  (List.nodup_dedup bucket).filter _

/-- A connection after the end of some of the slots that point to it. -/
theorem shutdownConnection_twice (c : TcpConnection) :
    c.shutdownConnection.shutdownConnection = c.shutdownConnection := by
  unfold TcpConnection.shutdownConnection
  by_cases hdown : c.state = .closed ∨ c.state = .notConnected
  · rw [if_pos hdown, if_pos hdown]
  · rw [if_neg hdown]
    simp

variable (weakPtr) in
theorem release_spec (bucket : List σ) (s : State σ κ) :
    (release weakPtr s bucket).wheel = s.wheel ∧
      (release weakPtr s bucket).destroyed = s.destroyed ++ dying s.wheel bucket ∧
      ∀ c, (release weakPtr s bucket).connections c =
        if ∃ slot ∈ dying s.wheel bucket, weakPtr slot = c then
          (s.connections c).map TcpConnection.shutdownConnection
        else s.connections c := by
  induction bucket generalizing s with
  | nil => simp [release, dying]
  | cons slot rest ih =>
    rw [release]
    by_cases hlast : slot ∈ rest ∨ slot ∈ s.wheel.flatten
    · have hdying : dying s.wheel (slot :: rest) = dying s.wheel rest := by
        by_cases hrest : slot ∈ rest
        · rw [dying, List.dedup_cons_of_mem hrest, dying]
        · rw [dying, List.dedup_cons_of_notMem hrest, List.filter_cons_of_neg, dying]
          simpa using hlast.resolve_left hrest
      rw [if_pos hlast, hdying]
      exact ih s
    · rw [not_or] at hlast
      have hdying : dying s.wheel (slot :: rest) = slot :: dying s.wheel rest := by
        rw [dying, List.dedup_cons_of_notMem hlast.1, List.filter_cons_of_pos, dying]
        simpa using hlast.2
      rw [if_neg (not_or.mpr hlast), hdying]
      obtain ⟨hwheel, hdestroyed, hconnections⟩ := ih (destruct weakPtr s slot)
      refine ⟨hwheel, ?_, fun c => ?_⟩
      · rw [hdestroyed, destruct, List.append_assoc]
        rfl
      · have hfirst : (destruct weakPtr s slot).connections c =
            if weakPtr slot = c then (s.connections c).map TcpConnection.shutdownConnection
            else s.connections c := by
          by_cases hc : weakPtr slot = c
          · subst hc
            simp [destruct]
          · simp [destruct, hc, Function.update_of_ne (Ne.symm hc)]
        rw [hconnections, hfirst, show (destruct weakPtr s slot).wheel = s.wheel from rfl]
        by_cases hc : weakPtr slot = c
        · have htwice : ((s.connections c).map TcpConnection.shutdownConnection).map
              TcpConnection.shutdownConnection = (s.connections c).map TcpConnection.shutdownConnection := by
            rw [Option.map_map]
            exact congrArg (fun f => Option.map f _) (funext shutdownConnection_twice)
          simp [hc, htwice]
        · simp [hc]

/-- What a tick does. -/
theorem loopFunc_some (h : loopFunc weakPtr s = some t) : ∃ bucket rest, s.wheel = bucket :: rest ∧
    t.wheel = rest ++ [[]] ∧ t.destroyed = s.destroyed ++ dying rest bucket ∧
    ∀ c, t.connections c =
      if ∃ slot ∈ dying rest bucket, weakPtr slot = c then
        (s.connections c).map TcpConnection.shutdownConnection
      else s.connections c := by
  unfold loopFunc at h
  split at h
  · cases h
  · rename_i bucket rest hwheel
    obtain rfl := Option.some.inj h
    obtain ⟨hrest, hdestroyed, hconnections⟩ := release_spec weakPtr bucket {s with wheel := rest}
    exact ⟨bucket, rest, hwheel, by rw [hrest], hdestroyed, hconnections⟩

end

/-! ### Where the last pointer to a slot lies -/

theorem emplaceBack_length (slot : σ) (wheel : List (List σ)) :
    (emplaceBack slot wheel).length = wheel.length := by
  induction wheel with
  | nil => rfl
  | cons bucket rest ih =>
    cases rest with
    | nil => rfl
    | cons next rest => exact congrArg (· + 1) ih

theorem mem_drop_emplaceBack {slot other : σ} {wheel : List (List σ)} {m : Nat} (hm : m < wheel.length) :
    other ∈ ((emplaceBack slot wheel).drop m).flatten ↔ other = slot ∨ other ∈ (wheel.drop m).flatten := by
  induction wheel generalizing m with
  | nil => cases hm
  | cons bucket rest ih =>
    cases rest with
    | nil =>
      obtain rfl : m = 0 := Nat.lt_one_iff.mp hm
      simp [emplaceBack, or_comm]
    | cons next rest =>
      have hcons : emplaceBack slot (bucket :: next :: rest) = bucket :: emplaceBack slot (next :: rest) := rfl
      rw [hcons]
      cases m with
      | zero =>
        have hrest := ih (m := 0) (Nat.succ_pos _)
        rw [List.drop_zero, List.drop_zero] at hrest
        have hfirst : ∀ l : List (List σ), other ∈ (bucket :: l).flatten ↔ other ∈ bucket ∨ other ∈ l.flatten :=
          fun l => by rw [List.flatten_cons, List.mem_append]
        rw [List.drop_zero, List.drop_zero, hfirst, hfirst, hrest]
        exact or_left_comm
      | succ m => exact ih (Nat.lt_of_succ_lt_succ hm)

theorem mem_drop_emplaceBack_ne {slot other : σ} (hne : other ≠ slot) (wheel : List (List σ)) (m : Nat) :
    other ∈ ((emplaceBack slot wheel).drop m).flatten ↔ other ∈ (wheel.drop m).flatten := by
  by_cases hm : m < wheel.length
  · rw [mem_drop_emplaceBack hm, or_iff_right hne]
  · rw [List.drop_of_length_le (by rw [emplaceBack_length]; omega), List.drop_of_length_le (by omega)]

theorem mem_drop_append_nil {slot : σ} (bucket : List σ) (rest : List (List σ)) (m : Nat) :
    slot ∈ ((rest ++ [[]]).drop m).flatten ↔ slot ∈ ((bucket :: rest).drop (m + 1)).flatten := by
  have hempty : ((([[]] : List (List σ))).drop (m - rest.length)).flatten = [] := by
    cases m - rest.length with
    | zero => rfl
    | succ k => simp
  rw [List.drop_append, List.flatten_append, hempty, List.append_nil, List.drop_succ_cons]

/-- The last pointer to a slot lies as many buckets from the end as there were ticks since its latest
`fresh`. There is none to a slot that was never freshed or has died. -/
def Placed (n : Nat) (s : State σ κ) (slot : σ) : Option Nat → Prop
  | none => slot ∉ s.wheel.flatten ∧ slot ∉ s.destroyed
  | some k =>
    if k < n then
      slot ∈ (s.wheel.drop (n - (k + 1))).flatten ∧ slot ∉ (s.wheel.drop (n - k)).flatten ∧ slot ∉ s.destroyed
    else slot ∉ s.wheel.flatten ∧ slot ∈ s.destroyed

theorem Placed.emplaceBack {slot other : σ} {n : Nat} {s : State σ κ} {k : Option Nat}
    (h : Placed n s other k) (hne : other ≠ slot) :
    Placed n {s with wheel := TcpTimeWheel.emplaceBack slot s.wheel} other k := by
  have hdrop := mem_drop_emplaceBack_ne hne s.wheel
  have hall : other ∈ (TcpTimeWheel.emplaceBack slot s.wheel).flatten ↔ other ∈ s.wheel.flatten := hdrop 0
  cases k with
  | none => exact ⟨fun hmem => h.1 (hall.mp hmem), h.2⟩
  | some k =>
    rw [Placed] at h ⊢
    split
    · rename_i hk
      rw [if_pos hk] at h
      exact ⟨(hdrop _).mpr h.1, fun hmem => h.2.1 ((hdrop _).mp hmem), h.2.2⟩
    · rename_i hk
      rw [if_neg hk] at h
      exact ⟨fun hmem => h.1 (hall.mp hmem), h.2⟩

/-- A wheel of `n` buckets after the inputs `is`. -/
structure Turned [DecidableEq σ] (n : Nat) (is : List (Input σ κ)) (s : State σ κ) : Prop where
  length : s.wheel.length = n
  placed : ∀ slot, Placed n s slot (age slot is)
  nodup : s.destroyed.Nodup

section
variable [DecidableEq σ] {n : Nat} {s : State σ κ}

theorem turned_make (n : Nat) (connections : κ → Option TcpConnection) :
    Turned n [] (make n connections : State σ κ) where
  length := List.length_replicate
  placed _ := by simp [Placed, age, make]
  nodup := List.nodup_nil

/-- A slot dies in a tick exactly if it is the tick that its age was short of. -/
theorem Placed.dying_iff {slot : σ} {k : Option Nat} (h : Placed n s slot k) (hn : 1 ≤ n) {bucket : List σ}
    {rest : List (List σ)} (hwheel : s.wheel = bucket :: rest) :
    slot ∈ dying rest bucket ↔ k = some (n - 1) := by
  rw [mem_dying]
  cases k with
  | none =>
    rw [Placed, hwheel, List.flatten_cons, List.mem_append, not_or] at h
    simp [h.1.1]
  | some k =>
    rw [Placed, hwheel] at h
    split at h
    · rename_i hk
      obtain ⟨hlast, hbehind, -⟩ := h
      by_cases hage : k = n - 1
      · subst hage
        rw [show n - (n - 1 + 1) = 0 by omega, List.drop_zero, List.flatten_cons, List.mem_append] at hlast
        rw [show n - (n - 1) = 1 by omega, List.drop_one, List.tail_cons] at hbehind
        exact iff_of_true ⟨hlast.resolve_right hbehind, hbehind⟩ rfl
      · refine iff_of_false (fun hmem => hmem.2 ?_) (by simpa using hage)
        obtain ⟨m, hm⟩ : ∃ m, n - (k + 1) = m + 1 := ⟨n - (k + 2), by omega⟩
        rw [hm, List.drop_succ_cons] at hlast
        obtain ⟨b, hb, hslot⟩ := List.mem_flatten.mp hlast
        exact List.mem_flatten.mpr ⟨b, List.mem_of_mem_drop hb, hslot⟩
    · rename_i hk
      rw [List.flatten_cons, List.mem_append, not_or] at h
      refine iff_of_false (fun hmem => h.1.1 hmem.1) ?_
      rintro heq
      obtain rfl := Option.some.inj heq
      omega

theorem Turned.dying_iff {is : List (Input σ κ)} (h : Turned n is s) (hn : 1 ≤ n) {bucket : List σ}
    {rest : List (List σ)} (hwheel : s.wheel = bucket :: rest) (slot : σ) :
    slot ∈ dying rest bucket ↔
      ∃ a b, is = a ++ .fresh slot :: b ∧ .fresh slot ∉ b ∧ ticks b + 1 = n := by
  rw [(h.placed slot).dying_iff hn hwheel, age_eq_some]
  refine exists_congr fun a => exists_congr fun b => and_congr_right fun _ => and_congr_right fun _ => ?_
  omega

/-! ### One turn -/

theorem Turned.fresh {is : List (Input σ κ)} {t : State σ κ} {slot : σ} (h : Turned n is s) (hn : 1 ≤ n)
    (ht : TcpTimeWheel.fresh s slot = some t) : Turned n (is ++ [.fresh slot]) t := by
  unfold TcpTimeWheel.fresh at ht
  split at ht
  · cases ht
  rename_i hlive
  rw [not_or] at hlive
  obtain rfl := Option.some.inj ht
  refine ⟨(emplaceBack_length slot s.wheel).trans h.length, fun other => ?_, h.nodup⟩
  rw [age_concat, ageAfter]
  by_cases hother : other = slot
  · subst hother
    have hlast : n - 1 < s.wheel.length := by
      rw [h.length]
      omega
    rw [if_pos rfl, Placed, if_pos (by omega)]
    refine ⟨(mem_drop_emplaceBack hlast).mpr (.inl rfl), ?_, hlive.2⟩
    rw [List.drop_of_length_le (by rw [emplaceBack_length, h.length]; omega)]
    simp
  · rw [if_neg (Ne.symm hother)]
    exact (h.placed other).emplaceBack hother

theorem Placed.tick {t : State σ κ} {slot : σ} {k : Option Nat} (h : Placed n s slot k) (hn : 1 ≤ n)
    {bucket : List σ} {rest : List (List σ)} (hwheel : s.wheel = bucket :: rest) (ht : t.wheel = rest ++ [[]])
    (hdestroyed : t.destroyed = s.destroyed ++ dying rest bucket) : Placed n t slot (k.map (· + 1)) := by
  have hdying := h.dying_iff hn hwheel
  have hdrop : ∀ m, slot ∈ (t.wheel.drop m).flatten ↔ slot ∈ (s.wheel.drop (m + 1)).flatten := by
    intro m
    rw [ht, hwheel]
    exact mem_drop_append_nil bucket rest m
  have hgone : slot ∉ s.wheel.flatten → slot ∉ t.wheel.flatten := by
    rw [hwheel, ht]
    intro hnot
    rw [List.flatten_cons, List.mem_append, not_or] at hnot
    simpa using hnot.2
  cases k with
  | none =>
    refine ⟨hgone h.1, ?_⟩
    rw [hdestroyed, List.mem_append, hdying, not_or]
    exact ⟨h.2, nofun⟩
  | some k =>
    rw [Option.map_some]
    rw [Placed] at h ⊢
    split at h
    · rename_i hk
      by_cases hnext : k + 1 < n
      · rw [if_pos hnext, hdrop, hdrop, hdestroyed, List.mem_append, hdying, not_or]
        rw [show n - (k + 1 + 1) + 1 = n - (k + 1) by omega, show n - (k + 1) + 1 = n - k by omega]
        refine ⟨h.1, h.2.1, h.2.2, fun heq => ?_⟩
        have := Option.some.inj heq
        omega
      · obtain rfl : k = n - 1 := by omega
        have hdead : slot ∈ dying rest bucket := hdying.mpr rfl
        rw [if_neg hnext, hdestroyed]
        refine ⟨?_, List.mem_append_right _ hdead⟩
        rw [ht]
        simpa using (mem_dying.mp hdead).2
    · rw [if_neg (by omega), hdestroyed]
      exact ⟨hgone h.1, List.mem_append_left _ h.2⟩

end

section
variable [DecidableEq σ] [DecidableEq κ] {weakPtr : σ → κ} {n : Nat} {s t : State σ κ}

theorem turned_step {is : List (Input σ κ)} {i : Input σ κ} (h : Turned n is s) (hn : 1 ≤ n)
    (hs : step weakPtr s i = some t) : Turned n (is ++ [i]) t := by
  cases i with
  | fresh slot => exact h.fresh hn hs
  | loopFunc =>
    obtain ⟨bucket, rest, hwheel, hrest, hdestroyed, -⟩ := loopFunc_some hs
    refine ⟨?_, fun slot => ?_, ?_⟩
    · have hlength := h.length
      rw [hwheel, List.length_cons] at hlength
      rw [hrest, List.length_append, List.length_singleton, hlength]
    · rw [age_concat, ageAfter]
      exact (h.placed slot).tick hn hwheel hrest hdestroyed
    · rw [hdestroyed]
      refine List.nodup_append'.mpr ⟨h.nodup, dying_nodup _ _, fun slot hdead hdying => ?_⟩
      -- a dead slot is older than one that dies
      have hplaced := h.placed slot
      rw [(hplaced.dying_iff hn hwheel).mp hdying, Placed, if_pos (by omega)] at hplaced
      exact hplaced.2.2 hdead
  | connection c conn =>
    obtain rfl := Option.some.inj hs
    refine ⟨h.length, fun slot => ?_, h.nodup⟩
    rw [age_concat]
    exact h.placed slot

theorem turned_run {is js : List (Input σ κ)} (h : Turned n is s) (hn : 1 ≤ n)
    (hr : run (step weakPtr) s js = some t) : Turned n (is ++ js) t := by
  induction js generalizing is s with
  | nil =>
    obtain rfl := Option.some.inj hr
    rwa [List.append_nil]
  | cons i rest ih =>
    obtain ⟨u, hu, hrest⟩ := run_cons_some.mp hr
    have := ih (turned_step h hn hu) hrest
    rwa [List.append_assoc] at this

/-- **A slot dies in the tick that is the `n`-th since its latest `fresh`** and in no other, and so
once at most; its connection is shut down if there still is one. -/
theorem destructs_iff (weakPtr : σ → κ) (n : Nat) (connections : κ → Option TcpConnection)
    (is : List (Input σ κ)) (s : State σ κ) (hn : 1 ≤ n)
    (hr : run (step weakPtr) (make n connections) is = some s) :
    ∃ t dead, step weakPtr s .loopFunc = some t ∧ t.destroyed = s.destroyed ++ dead ∧ t.destroyed.Nodup ∧
      (∀ slot, slot ∈ dead ↔
        ∃ a b, is = a ++ .fresh slot :: b ∧ .fresh slot ∉ b ∧ ticks b + 1 = n) ∧
      ∀ slot ∈ dead, ∀ conn, s.connections (weakPtr slot) = some conn →
        t.connections (weakPtr slot) = some conn.shutdownConnection := by
  have hturned : Turned n is s := turned_run (turned_make n connections) hn hr
  have hsome : (step weakPtr s .loopFunc).isSome := by
    cases hwheel : s.wheel with
    | nil =>
      have := hturned.length
      rw [hwheel, List.length_nil] at this
      omega
    | cons bucket rest => simp [step, loopFunc, hwheel]
  obtain ⟨t, ht⟩ := Option.isSome_iff_exists.mp hsome
  obtain ⟨bucket, rest, hwheel, -, hdestroyed, hconnections⟩ := loopFunc_some ht
  refine ⟨t, dying rest bucket, ht, hdestroyed, (turned_step hturned hn ht).nodup,
    hturned.dying_iff hn hwheel, fun slot hdead conn hconn => ?_⟩
  rw [hconnections, if_pos ⟨slot, hdead, rfl⟩, hconn, Option.map_some]

end

/-- Two buckets and two slots, one of them freshed again. -/
theorem destructs_iff_two :
    ∃ s t dead, run (step (id : Nat → Nat)) (make 2 fun _ => some (.server 7 128))
        [.fresh 0, .fresh 1, .loopFunc, .fresh 1] = some s ∧
      step id s .loopFunc = some t ∧ t.destroyed = s.destroyed ++ dead ∧ 0 ∈ dead ∧ 1 ∉ dead := by
  obtain ⟨s, hs⟩ : ∃ s, run (step (id : Nat → Nat)) (make 2 fun _ => some (.server 7 128))
      [.fresh 0, .fresh 1, .loopFunc, .fresh 1] = some s := ⟨_, rfl⟩
  obtain ⟨t, dead, ht, hdestroyed, -, hdead, -⟩ := destructs_iff id 2 _ _ s (by decide) hs
  refine ⟨s, t, dead, hs, ht, hdestroyed, ?_, ?_⟩
  · exact (hdead 0).mpr ⟨[], [.fresh 1, .loopFunc, .fresh 1], rfl, by simp, rfl⟩
  · rw [hdead 1]
    rintro ⟨a, b, heq, hnot, hticks⟩
    have hage : age 1 [.fresh 0, .fresh 1, .loopFunc, .fresh 1] = some (ticks b) :=
      age_eq_some.mpr ⟨a, b, heq, hnot, rfl⟩
    have : ticks b = 0 := (Option.some.inj hage).symm
    omega

end TcpTimeWheel

end CoroutineRpc.Net.Tcp
