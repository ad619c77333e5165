import CoroutineRpc.Net.Tcp.Pooled
import Mathlib.Data.List.Perm.Basic

/-! What a closed connection costs the pool.

A connection that its peer closed sleeps on the close path, inside `CoFunction`. When it is
destroyed its coroutine is returned and the flag is cleared, but `getCoroutineInstanse` never
hands that coroutine out again. So what is given back is usable, and the coroutines that can be
handed out and those in use add up to the pool, exactly as long as no connection on a coroutine
of the pool is destroyed (`reusable_iff_spares`). -/
namespace CoroutineRpc.Net.Tcp.Pooled
open Rpc Coroutine Library.Transition

/-- How many coroutines of the pool can be handed out. -/
def eligible (s : State) : Nat := s.pool.freeCors.countP fun c => !s.isInCoFunc c.1.corId && !c.2

/-- How many of them the accept loop and the connections have. -/
def inUse (s : State) : Nat := 1 + s.connections.countP fun c => c.alive && decide (0 ≤ c.loopCor.index)

/-- What was given back can be handed out, and nothing is missing. -/
structure Reusable (s : State) : Prop where
  returned : ∀ c ∈ s.pool.freeCors, c.2 = false → s.isInCoFunc c.1.corId = false
  count : ((eligible s + inUse s : Nat) : Int) = s.pool.poolSize

instance (s : State) : Decidable (Reusable s) :=
  decidable_of_iff ((∀ c ∈ s.pool.freeCors, c.2 = false → s.isInCoFunc c.1.corId = false) ∧
    ((eligible s + inUse s : Nat) : Int) = s.pool.poolSize) ⟨fun h => ⟨h.1, h.2⟩, fun h => ⟨h.1, h.2⟩⟩

/-- No connection on a coroutine of the pool is destroyed. -/
def Spares (s : State) (i : Input) : Prop :=
  ∀ k ∈ destroyed s i, ∀ c ∈ s.connections[k]?, c.loopCor.index < 0

instance (s : State) (i : Input) : Decidable (Spares s i) :=
  inferInstanceAs (Decidable (∀ k ∈ destroyed s i, ∀ c ∈ s.connections[k]?, c.loopCor.index < 0))

section
variable {s t : State} {k : Nat} {c : Connection}

/-! ### The flags say who is in use -/

theorem Seated.ids_nodup (h : Seated s) : (s.pool.freeCors.map fun c => c.1.corId).Nodup := by
  have hids : (s.pool.freeCors.map fun c => c.1.corId) = (List.range s.pool.freeCors.length).map (· + 1) := by
    refine List.ext_getElem (by simp) fun j hj _ => ?_
    rw [List.length_map] at hj
    rw [List.getElem_map, List.getElem_map, List.getElem_range]
    exact (h.cors j _ _ (List.getElem?_eq_getElem hj)).1
  rw [hids]
  exact List.nodup_range.map fun _ _ => Nat.succ.inj

/-- A flag is set for the accept loop and for each connection that is not destroyed. -/
theorem Seated.flag_iff (h : Seated s) (corId : Nat) :
    (∃ c ∈ s.pool.freeCors, c.2 = true ∧ c.1.corId = corId) ↔
      corId = 1 ∨ ∃ c ∈ s.connections, (c.alive = true ∧ 0 ≤ c.loopCor.index) ∧ c.loopCor.corId = corId := by
  constructor
  · rintro ⟨⟨cor, used⟩, hmem, rfl, rfl⟩
    obtain ⟨j, hj⟩ := List.getElem?_of_mem hmem
    obtain ⟨hid, hindex⟩ := h.cors j cor true hj
    refine (h.used j cor hj).imp (fun hzero => by rw [hid, hzero]) fun hcor => ?_
    obtain ⟨c, hc, rfl⟩ := List.mem_map.mp hcor
    obtain ⟨k, hk⟩ := List.getElem?_of_mem hc
    exact ⟨c, hc, ⟨(h.slot_of_corId hk hj rfl).2.symm, by omega⟩, rfl⟩
  · rintro (rfl | ⟨c, hc, ⟨halive, hindex⟩, rfl⟩)
    · obtain ⟨cor, hcor⟩ := h.acceptCor.1
      exact ⟨_, List.mem_of_getElem? hcor, rfl, (h.cors 0 cor true hcor).1⟩
    · obtain ⟨k, hk⟩ := List.getElem?_of_mem hc
      rcases (h.place k c hk).slot with ⟨j, -, hj⟩ | ⟨hnone, -⟩
      · exact ⟨_, List.mem_of_getElem? hj, halive, rfl⟩
      · omega

theorem Seated.inUse_eq (h : Seated s) : inUse s = s.pool.freeCors.countP fun c => c.2 := by
  have hflags : ((s.pool.freeCors.filter fun c => c.2).map fun c => c.1.corId).Nodup :=
    h.ids_nodup.sublist (List.filter_sublist.map _)
  have hconns : ((s.connections.filter fun c => c.alive && decide (0 ≤ c.loopCor.index)).map
      fun c => c.loopCor.corId).Nodup := by
    refine List.Nodup.sublist (List.filter_sublist.map _) ?_
    have hown := h.own
    rwa [loopCors, List.map_map] at hown
  have hone : 1 ∉ (s.connections.filter fun c => c.alive && decide (0 ≤ c.loopCor.index)).map
      fun c => c.loopCor.corId := by
    intro hmem
    obtain ⟨c, hc, hid⟩ := List.mem_map.mp hmem
    obtain ⟨k, hk⟩ := List.getElem?_of_mem (List.mem_of_mem_filter hc)
    exact (h.place k c hk).corId.1 hid
  have hperm := (List.perm_ext_iff_of_nodup hflags (List.nodup_cons.mpr ⟨hone, hconns⟩)).mpr fun corId => by
    have hiff := h.flag_iff corId
    simpa [List.mem_map, List.mem_filter, and_assoc] using hiff
  have hlength := hperm.length_eq
  rw [List.length_map, ← List.countP_eq_length_filter, List.length_cons, List.length_map,
    ← List.countP_eq_length_filter] at hlength
  rw [inUse, hlength, Nat.add_comm]

/-- What is missing are the coroutines of the connections that were destroyed. -/
theorem Seated.reusable_iff (h : Seated s) : Reusable s ↔
    ∀ (k : Nat) c, s.connections[k]? = some c → c.alive = false → c.loopCor.index < 0 := by
  constructor
  · intro hreusable k c hk hdead
    have hplace := h.place k c hk
    rcases hplace.slot with ⟨j, -, hj⟩ | ⟨hindex, -⟩
    · rcases hplace.mode with ⟨-, halive⟩ | ⟨-, hin⟩
      · cases hdead.symm.trans halive
      · cases (hreusable.returned _ (List.mem_of_getElem? hj) hdead).symm.trans hin
    · omega
  · intro hdead
    have hreturned : ∀ c ∈ s.pool.freeCors, c.2 = false → s.isInCoFunc c.1.corId = false := by
      rintro ⟨cor, used⟩ hmem hused
      obtain ⟨j, hj⟩ := List.getElem?_of_mem hmem
      obtain ⟨hid, hindex⟩ := h.cors j cor used hj
      by_contra hin
      rw [Bool.not_eq_false] at hin
      rcases h.running _ hin with hone | ⟨k, hcall⟩
      · obtain ⟨acceptCor, hacceptCor⟩ := h.acceptCor.1
        obtain rfl : j = 0 := Nat.succ.inj (hid.symm.trans hone)
        obtain ⟨-, rfl⟩ := Prod.mk.inj (Option.some.inj (hj.symm.trans hacceptCor))
        cases hused
      · obtain ⟨c, hk, hcorId⟩ := h.of_callBack hcall
        obtain ⟨rfl, rfl⟩ := h.slot_of_corId hk hj hcorId.symm
        have := hdead k c hk hused
        omega
    refine ⟨hreturned, ?_⟩
    have hcount : (s.pool.freeCors.countP fun c => !(!s.isInCoFunc c.1.corId && !c.2)) =
        s.pool.freeCors.countP fun c => c.2 := by
      refine List.countP_congr fun c hc => ?_
      cases hused : c.2 with
      | true => simp
      | false => simp [hreturned c hc hused]
    have htotal := List.length_eq_countP_add_countP (l := s.pool.freeCors)
      fun c => !s.isInCoFunc c.1.corId && !c.2
    rw [h.inUse_eq, h.poolSize, htotal, eligible, ← hcount]
    simp only [Bool.not_eq_true, Bool.decide_eq_false]

/-! ### Runs -/

variable {dispatch : RpcStruct → TcpBuffer → Option (TcpBuffer × RunTime)}

theorem Seated.reusable_step {i : Input} (h : Seated s) (hreusable : Reusable s)
    (hs : Pooled.step dispatch s i = some t) : Reusable t ↔ Spares s i := by
  rw [(h.step hs).reusable_iff]
  constructor
  · intro hdead k hk c hc
    obtain ⟨c', hk', hgoes⟩ := step_connection hs (Option.mem_def.mp hc)
    have hindex := hdead k c' hk' (by simp [hgoes.alive, hk])
    rwa [hgoes.loopCor] at hindex
  · intro hspares k c' hk' hdead
    rcases step_new hs hk' with ⟨halive, -⟩ | ⟨c, hk⟩
    · cases hdead.symm.trans halive
    obtain ⟨c'', ht, hgoes⟩ := step_connection hs hk
    obtain rfl : c' = c'' := Option.some.inj (hk'.symm.trans ht)
    rw [hgoes.alive] at hdead
    rw [hgoes.loopCor]
    rcases Bool.and_eq_false_iff.mp hdead with halive | hmem
    · exact h.reusable_iff.mp hreusable k c hk halive
    · exact hspares k (by simpa using hmem) c hk

end

/-- **Coroutines that are returned become usable again** exactly in those runs that destroy no connection on
a coroutine of the pool. -/
theorem reusable_iff_spares (dispatch : RpcStruct → TcpBuffer → Option (TcpBuffer × RunTime))
    (poolSize stackSize start : Int) (s₀ u : State) (is : List Input)
    (h₀ : initial poolSize stackSize start = some s₀) (hr : run (step dispatch) s₀ is = some u) :
    Always (step dispatch) Reusable s₀ is ↔ Meets (step dispatch) Spares s₀ is := by
  have hseated := seated_initial h₀
  have hreusable : Reusable s₀ := by
    rw [hseated.reusable_iff, connections_initial h₀]
    intro k c hk
    cases List.getElem?_nil.symm.trans hk
  exact always_iff_meets (Q := Seated) (fun _ _ _ h hs => h.step hs)
    (fun _ _ _ h hreusable hs => h.reusable_step hreusable hs) hseated hreusable hr

/-- A connection is accepted, starts to read, and is shut down by the time wheel. -/
theorem reusable_iff_spares_open : ∃ s₀ u, initial 2 16 1000 = some s₀ ∧
    run (step fun _ _ => none) s₀ [.accept 5 2000, .resume 2, .io 0 .advance, .shutdown 0, .clearClientTimer,
      .accept 6 3000] = some u ∧
    Always (step fun _ _ => none) Reusable s₀ [.accept 5 2000, .resume 2, .io 0 .advance, .shutdown 0,
      .clearClientTimer, .accept 6 3000] := by
  have hmeets : (∃ s₀ ∈ initial 2 16 1000, (run (step fun _ _ => none) s₀ [.accept 5 2000, .resume 2,
      .io 0 .advance, .shutdown 0, .clearClientTimer, .accept 6 3000]).isSome ∧
      Meets (step fun _ _ => none) Spares s₀ [.accept 5 2000, .resume 2, .io 0 .advance, .shutdown 0,
        .clearClientTimer, .accept 6 3000]) := by
    decide +kernel
  obtain ⟨s₀, h₀, hsome, hmeets⟩ := hmeets
  obtain ⟨u, hr⟩ := Option.isSome_iff_exists.mp hsome
  exact ⟨s₀, u, h₀, hr, (reusable_iff_spares _ 2 16 1000 s₀ u _ h₀ hr).mpr hmeets⟩

/-- The peer closes a connection, which is destroyed; the coroutine that it gave back is stuck. -/
theorem not_reusable_eof : ¬ ∀ (dispatch : RpcStruct → TcpBuffer → Option (TcpBuffer × RunTime))
    (poolSize stackSize start : Int) (s₀ : State) (is : List Input), initial poolSize stackSize start = some s₀ →
      Always (step dispatch) Reusable s₀ is := fun h => by
  have hnot : ∃ s₀ ∈ initial 2 16 1000, ¬ Always (step fun _ _ => none) Reusable s₀ [.accept 5 2000, .resume 2,
      .io 0 .advance, .io 0 (.read .eof), .resume 2, .io 0 (.read .eof), .leave 0, .leave 0,
      .clearClientTimer] := by
    decide +kernel
  obtain ⟨s₀, h₀, hnot⟩ := hnot
  exact hnot (h _ 2 16 1000 s₀ _ h₀)

end CoroutineRpc.Net.Tcp.Pooled
