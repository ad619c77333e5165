import CoroutineRpc.Coroutine.CoroutinePool
import CoroutineRpc.Net.Tcp.Connection

/-! Server connections on the coroutines of the pool.

A connection obtains its coroutine when it is accepted and returns it when it is destroyed. The
coroutine enters `CoFunction` the first time it is resumed and runs `MainServerLoopCorFunc`; on
the close path of `input` it yields for good. Anybody who has a pointer to a coroutine may try
to resume it or to give it another function. Neither reaches a coroutine whose connection has
closed: `Resume` asks for `m_can_resume`, `setCallBack` and the pool ask whether it is in
`CoFunction`, which it never leaves. But on its way to the `Yield` it still uses the connection,
which the main thread may destroy as soon as `m_state` says `Closed`, or when the descriptor
comes again.

In the model a session on the close path is already where it is going to wait, and `leaving`
says how far its coroutine is. To resume a coroutine that runs is no step. -/
namespace CoroutineRpc.Net.Tcp.Pooled
open Rpc Coroutine Library.Transition

/-- Where a coroutine is between the `close` of its descriptor in `clearClient` and its `Yield`: in
front of `setState(Closed)` or behind it. -/
inductive Leaving where
  | no
  | closed
  | cleared
deriving DecidableEq

/-- A `TcpConnection` and the coroutine that runs it. The session is also what that coroutine has on
its stack. -/
structure Connection where
  session : Session
  loopCor : Coroutine
  leaving : Leaving := .no
  /-- The object is not destroyed. -/
  alive : Bool := true

/-- `callBack` is the connection whose loop a coroutine has for its function. `m_can_resume` of a
connection's coroutine is the session's. -/
structure State where
  pool : CoroutinePool
  connections : List Connection := []
  isInCoFunc : Nat → Bool
  callBack : Nat → Option Nat := fun _ => none
  /-- The coroutines that the pool does not keep and that were returned. -/
  freed : Nat → Bool := fun _ => false

inductive Input where
  /-- `accept` returns `fd`; `malloc` returns `start` if the pool calls it. -/
  | accept (fd start : Int)
  /-- `Coroutine::Resume`, by a loop, a task or a timer. -/
  | resume (corId : Nat)
  /-- The coroutine of a connection goes on, up to where it sleeps. -/
  | io (k : Nat) (i : Session.Input)
  /-- The coroutine of a connection goes on behind `close`: `setState(Closed)`, or what `input` does
  behind `clearClient` up to its `Yield`. -/
  | leave (k : Nat)
  /-- The time wheel shuts a connection down. -/
  | shutdown (k : Nat)
  | clearClientTimer
  /-- Somebody else's function for a coroutine. -/
  | setCallBack (corId : Nat)
deriving DecidableEq

/-- The coroutine that accepts is the first that the pool hands out, and it is resumed at once. -/
def initial (poolSize stackSize start : Int) : Option State := do
  let pool ← CoroutinePool.make poolSize stackSize start
  let (acceptCor, pool) ← pool.getCoroutineInstanse (fun _ => false) start
  pure {pool, isInCoFunc := Function.update (fun _ => false) acceptCor.corId true}

/-- A session that comes to the close path has closed its descriptor. -/
def setSession (s : State) (k : Nat) (session : Session) : State :=
  {s with
    connections := s.connections.modify k fun c =>
      {c with
        session
        leaving := if session.pc = .closeWait ∧ c.session.pc ≠ .closeWait then .closed else c.leaving}}

def setLeaving (s : State) (k : Nat) (leaving : Leaving) : State :=
  {s with connections := s.connections.modify k fun c => {c with leaving}}

/-- `~TcpConnection`. The pool keeps its own coroutines. -/
def destroy (s : State) (k : Nat) : State :=
  match s.connections[k]? with
  | none => s
  | some c =>
    {s with
      connections := s.connections.modify k fun c => {c with alive := false}
      pool := s.pool.returnCoroutine c.loopCor
      freed := if 0 ≤ c.loopCor.index then s.freed else Function.update s.freed c.loopCor.corId true}

def destroyAll (s : State) : List Nat → State
  | [] => s
  | k :: rest => destroyAll (destroy s k) rest

/-- The connections that `m_clients` has and that satisfy `p`. -/
def clients (s : State) (p : Connection → Bool) : List Nat :=
  (List.range s.connections.length).filter fun k => s.connections[k]?.any fun c => c.alive && p c

/-- The connection that `m_clients` has for a descriptor. -/
def onFd (s : State) (fd : Int) : List Nat := clients s fun c => c.session.connection.fd = fd

/-- Those that have closed their descriptor. -/
def closedFds (s : State) : List Nat := clients s fun c => c.session.connection.state = .closed

/-- Those that have set `m_state` too. -/
def closedClients (s : State) : List Nat :=
  clients s fun c => decide (c.session.connection.state = .closed) && decide (c.leaving ≠ .closed)

/-- A new connection on the coroutine `cor`, whose function it sets. -/
def initServer (s : State) (fd : Int) (cor : Coroutine) : State :=
  {s with
    connections := s.connections ++ [{session := {connection := .server fd 128}, loopCor := cor}]
    callBack :=
      if s.isInCoFunc cor.corId then s.callBack
      else Function.update s.callBack cor.corId (some s.connections.length)}

/-- `addClient` and `initServer`. A descriptor that `accept` returns is not open, so the connection
that had it has closed it. -/
def accept (s : State) (fd start : Int) : Option State := do
  if ∀ k ∈ onFd s fd, k ∈ closedFds s then
    let s := destroyAll s (onFd s fd)
    let (cor, pool) ← s.pool.getCoroutineInstanse s.isInCoFunc start
    pure (initServer {s with pool} fd cor)
  else none

/-- A coroutine that may be resumed enters its function or returns from its `Yield`. -/
def resume (s : State) (corId : Nat) : Option State := do
  let k ← s.callBack corId
  let c ← s.connections[k]?
  if s.freed corId ∨ c.leaving ≠ .no then none
  else if ¬ c.session.canResume then pure s
  else if ¬ s.isInCoFunc corId then pure {s with isInCoFunc := Function.update s.isInCoFunc corId true}
  else setSession s k <$> c.session.step noDispatch .resume
where
  -- nobody is resumed inside `execute`
  noDispatch : RpcStruct → TcpBuffer → Option (TcpBuffer × RunTime) := fun _ _ => none

/-- The coroutine of a connection goes on behind `close`. -/
def leave (s : State) (k : Nat) : Option State := do
  let c ← s.connections[k]?
  match c.leaving with
  | .no => none
  | .closed => pure (setLeaving s k .cleared)
  | .cleared => pure (setLeaving s k .no)

/-- `setCallBack`. -/
def setCallBack (s : State) (corId : Nat) : Option State :=
  if s.freed corId then none
  else if s.isInCoFunc corId then some s
  else some {s with callBack := Function.update s.callBack corId none}

section
variable (dispatch : RpcStruct → TcpBuffer → Option (TcpBuffer × RunTime))

/-- A step of `MainServerLoopCorFunc`, or its end and that of `CoFunction`. -/
def io (s : State) (k : Nat) (i : Session.Input) : Option State := do
  let c ← s.connections[k]?
  if i = .resume ∨ s.isInCoFunc c.loopCor.corId = false ∨ s.callBack c.loopCor.corId ≠ some k then none
  else if c.session.pc = .returned .output ∧ c.session.connection.stop ∧ i = .advance then
    pure {s with
      isInCoFunc := Function.update s.isInCoFunc c.loopCor.corId false
      callBack := Function.update s.callBack c.loopCor.corId none}
  else setSession s k <$> Server.step dispatch c.session (.io i)

def step (s : State) : Input → Option State
  | .accept fd start => accept s fd start
  | .resume corId => resume s corId
  | .io k i => io dispatch s k i
  | .leave k => leave s k
  | .shutdown k => do
    let c ← s.connections[k]?
    if c.alive then
      pure (setSession s k {c.session with connection := c.session.connection.shutdownConnection})
    else none
  | .clearClientTimer => some (destroyAll s (closedClients s))
  | .setCallBack corId => setCallBack s corId

end

/-! ### The session on a coroutine -/

/-- It sleeps on the close path. -/
structure Hung (s : Session) : Prop where
  pc : s.pc = .closeWait
  canResume : s.canResume = false
  state : s.connection.state = .closed

/-- It has not taken the close path. -/
structure Going (s : Session) : Prop where
  pc : s.pc ≠ .closeWait
  canResume : s.canResume = true
  state : s.connection.state ≠ .closed

section
variable {dispatch : RpcStruct → TcpBuffer → Option (TcpBuffer × RunTime)} {s t : Session}

theorem Going.step {i : Session.Input} (h : Going s) (hmain : s.isMain = false)
    (hs : s.step dispatch i = some t) : t.isMain = false ∧ (Going t ∨ Hung t) := by
  have hframe := Session.step_frame hs
  refine ⟨hframe.isMain.trans hmain, ?_⟩
  rcases Session.step_open hs with hopen | ⟨-, rfl⟩
  · refine .inl ⟨fun hpc => ?_, hopen.canResume.trans h.canResume, fun hstate => ?_⟩
    · have hcan := Session.step_closeWait (fun hpc => absurd hpc h.pc) hs hpc
      rw [hopen.canResume, h.canResume] at hcan
      cases hcan
    · exact h.state (hopen.state.symm.trans hstate)
  · refine .inr ⟨?_, Session.closePath_canResume s, ?_⟩
    · rw [Session.closePath_pc, hmain]
      rfl
    · rw [(Session.closePath_spec h.state).1]

/-- A step of the loop, or of what it calls. -/
theorem Going.serverStep {i : Session.Input} (h : Going s) (hmain : s.isMain = false)
    (hs : Server.step dispatch s (.io i) = some t) : t.isMain = false ∧ (Going t ∨ Hung t) := by
  have hpc : ∀ pc, pc ≠ .closeWait → Going {s with pc} := fun pc hne => ⟨hne, h.canResume, h.state⟩
  unfold Server.step at hs
  split at hs
  · cases ‹Server.Input.io i = _›
  rename_i j hij
  obtain rfl := Server.Input.io.inj hij
  split at hs
  · obtain rfl := Option.some.inj hs
    exact ⟨hmain, .inl (hpc _ nofun)⟩
  · obtain rfl := Option.some.inj hs
    exact ⟨hmain, .inl (hpc _ nofun)⟩
  · split at hs
    · cases hs
    · obtain rfl := Option.some.inj hs
      exact ⟨hmain, .inl (hpc _ nofun)⟩
  · exact h.step hmain hs

theorem Going.shutdown (h : Going s) :
    Going {s with connection := s.connection.shutdownConnection} := by
  refine ⟨h.pc, h.canResume, ?_⟩
  unfold TcpConnection.shutdownConnection
  split
  · exact h.state
  · exact nofun

theorem Hung.shutdown (h : Hung s) : {s with connection := s.connection.shutdownConnection} = s := by
  rw [TcpConnection.shutdownConnection, if_pos (.inl h.state)]

/-- Only `Resume` could make it go on. -/
theorem Hung.serverStep {i : Session.Input} (h : Hung s) (hi : i ≠ .resume) :
    Server.step dispatch s (.io i) = none := by
  have hstep : Server.step dispatch s (.io i) = s.step dispatch i := by
    unfold Server.step
    rw [h.pc]
  rw [hstep, Option.eq_none_iff_forall_ne_some]
  intro t hs
  rcases Session.step_input (by rw [h.pc]; rfl) hs with ⟨hpc, -⟩ | ⟨n, result, hpc | ⟨hpc, -⟩, -⟩ |
    ⟨n, hpc, -⟩ | ⟨n, hpc, -⟩ | ⟨-, hresume, -⟩
  · cases h.pc.symm.trans hpc
  · cases h.pc.symm.trans hpc
  · cases h.pc.symm.trans hpc
  · cases h.pc.symm.trans hpc
  · cases h.pc.symm.trans hpc
  · exact hi hresume

end

/-! ### Who is on which coroutine -/

/-- Where the connection `k` is. -/
structure Place (s : State) (k : Nat) (c : Connection) : Prop where
  isMain : c.session.isMain = false
  corId : c.loopCor.corId ≠ 1 ∧ c.loopCor.corId < s.pool.curCoroutineId
  slot : (∃ j : Nat, c.loopCor.index = (j : Int) ∧ s.pool.freeCors[j]? = some (c.loopCor, c.alive)) ∨
    c.loopCor.index = -1 ∧ s.pool.freeCors.length < c.loopCor.corId
  started : s.isInCoFunc c.loopCor.corId = true → s.callBack c.loopCor.corId = some k
  mode : Going c.session ∧ c.alive = true ∨ Hung c.session ∧ s.isInCoFunc c.loopCor.corId = true
  leaving : c.leaving ≠ .no → Hung c.session

def loopCors (s : State) : List Coroutine := s.connections.map Connection.loopCor

/-- Each coroutine that the pool keeps is that of the accept loop, or of one connection, which it
keeps for good, or has never run. -/
structure Seated (s : State) : Prop where
  cors : ∀ (j : Nat) cor used, s.pool.freeCors[j]? = some (cor, used) →
    cor.corId = j + 1 ∧ cor.index = (j : Int)
  poolSize : s.pool.poolSize = s.pool.freeCors.length
  curCoroutineId : s.pool.freeCors.length < s.pool.curCoroutineId
  acceptCor : (∃ cor, s.pool.freeCors[0]? = some (cor, true)) ∧ s.isInCoFunc 1 = true
  place : ∀ (k : Nat) c, s.connections[k]? = some c → Place s k c
  own : ((loopCors s).map Coroutine.corId).Nodup
  used : ∀ (j : Nat) cor, s.pool.freeCors[j]? = some (cor, true) → j = 0 ∨ cor ∈ loopCors s
  callBack : ∀ corId k, s.callBack corId = some k → ∃ cor, (loopCors s)[k]? = some cor ∧ cor.corId = corId
  running : ∀ corId, s.isInCoFunc corId = true → corId = 1 ∨ ∃ k, s.callBack corId = some k
  freed : ∀ corId, s.freed corId = true →
    s.pool.freeCors.length < corId ∧ corId < s.pool.curCoroutineId

section
variable {s t : State} {k : Nat} {c : Connection}

theorem getElem?_loopCors (hk : s.connections[k]? = some c) : (loopCors s)[k]? = some c.loopCor := by
  rw [loopCors, List.getElem?_map, hk]
  rfl

theorem loopCors_modify (s : State) (k : Nat) {f : Connection → Connection}
    (hf : ∀ c, (f c).loopCor = c.loopCor) :
    (s.connections.modify k f).map Connection.loopCor = loopCors s := by
  refine List.ext_getElem? fun j => ?_
  rw [List.getElem?_map, List.getElem?_modify, loopCors, List.getElem?_map, Option.map_eq_map, Option.map_map]
  congr 1
  funext c
  rw [Function.comp_apply]
  split
  · exact hf c
  · rfl

theorem Seated.slot_lt (h : Seated s) {j : Nat} {cor : Coroutine} {used : Bool}
    (hj : s.pool.freeCors[j]? = some (cor, used)) : j < s.pool.freeCors.length ∧ (j : Int) < s.pool.poolSize := by
  obtain ⟨hlt, -⟩ := List.getElem?_eq_some_iff.mp hj
  have hsize := h.poolSize
  exact ⟨hlt, by omega⟩

/-- The slot of a connection, from the number of its coroutine. -/
theorem Seated.slot_of_corId (h : Seated s) (hk : s.connections[k]? = some c) {j : Nat} {cor : Coroutine}
    {used : Bool} (hj : s.pool.freeCors[j]? = some (cor, used)) (hid : cor.corId = c.loopCor.corId) :
    cor = c.loopCor ∧ used = c.alive := by
  obtain ⟨hcor, -⟩ := h.cors j cor used hj
  rcases (h.place k c hk).slot with ⟨j', -, hj'⟩ | ⟨-, hlt⟩
  · obtain ⟨hcor', -⟩ := h.cors j' _ _ hj'
    obtain rfl : j = j' := by omega
    exact Prod.mk.inj (Option.some.inj (hj.symm.trans hj'))
  · have hle := (h.slot_lt hj).1
    omega

/-- No two connections run on one coroutine. -/
theorem Seated.eq_of_corId (h : Seated s) (hk : s.connections[k]? = some c) {k' : Nat} {c' : Connection}
    (hk' : s.connections[k']? = some c') (hid : c.loopCor.corId = c'.loopCor.corId) : k = k' := by
  have hmap : ∀ (j : Nat) (d : Connection), s.connections[j]? = some d →
      ((loopCors s).map Coroutine.corId)[j]? = some d.loopCor.corId := by
    intro j d hj
    rw [List.getElem?_map, getElem?_loopCors hj]
    rfl
  obtain ⟨hlt, -⟩ := List.getElem?_eq_some_iff.mp (hmap k c hk)
  exact (List.getElem?_inj hlt h.own).mp (by rw [hmap k c hk, hmap k' c' hk', hid])

/-- The coroutine's function is the loop of the connection that runs on it. -/
theorem Seated.of_callBack (h : Seated s) {corId : Nat} (hcall : s.callBack corId = some k) :
    ∃ c, s.connections[k]? = some c ∧ c.loopCor.corId = corId := by
  obtain ⟨cor, hcor, hid⟩ := h.callBack corId k hcall
  rw [loopCors, List.getElem?_map] at hcor
  obtain ⟨c, hk, rfl⟩ := Option.map_eq_some_iff.mp hcor
  exact ⟨c, hk, hid⟩

/-! ### What the steps keep -/

theorem getElem?_setSession (s : State) (k : Nat) (session : Session) (j : Nat) :
    (setSession s k session).connections[j]? = s.connections[j]?.map fun c =>
      if k = j then
        {c with
          session
          leaving := if session.pc = .closeWait ∧ c.session.pc ≠ .closeWait then .closed else c.leaving}
      else c :=
  List.getElem?_modify ..

theorem getElem?_setLeaving (s : State) (k : Nat) (leaving : Leaving) (j : Nat) :
    (setLeaving s k leaving).connections[j]? =
      s.connections[j]?.map fun c => if k = j then {c with leaving} else c :=
  List.getElem?_modify ..

/-- A step of the session `k`. -/
theorem Seated.setSession (h : Seated s) (hk : s.connections[k]? = some c) {session : Session}
    (hmain : session.isMain = false)
    (hmode : Going session ∧ c.alive = true ∨ Hung session ∧ s.isInCoFunc c.loopCor.corId = true)
    (hstays : Hung c.session → Hung session) : Seated (setSession s k session) := by
  have hcors : loopCors (Pooled.setSession s k session) = loopCors s := loopCors_modify s k fun _ => rfl
  refine ⟨h.cors, h.poolSize, h.curCoroutineId, h.acceptCor, ?_, hcors.symm ▸ h.own, hcors.symm ▸ h.used,
    hcors.symm ▸ h.callBack, h.running, h.freed⟩
  intro j c' hj
  rw [getElem?_setSession] at hj
  obtain ⟨old, hold, rfl⟩ := Option.map_eq_some_iff.mp hj
  have hplace := h.place j old hold
  split
  · rename_i hkj
    obtain rfl : c = old := Option.some.inj (hk.symm.trans (hkj ▸ hold))
    refine ⟨hmain, hplace.corId, hplace.slot, hplace.started, hmode, fun hleaving => ?_⟩
    rcases hmode with ⟨hgoing, -⟩ | ⟨hhung, -⟩
    · dsimp only at hleaving
      rw [if_neg fun hpc => hgoing.pc hpc.1] at hleaving
      exact hstays (hplace.leaving hleaving)
    · exact hhung
  · exact ⟨hplace.isMain, hplace.corId, hplace.slot, hplace.started, hplace.mode, hplace.leaving⟩

/-- A coroutine goes on behind `close`. -/
theorem Seated.setLeaving (h : Seated s) (hk : s.connections[k]? = some c) (hhung : Hung c.session)
    (leaving : Leaving) : Seated (setLeaving s k leaving) := by
  have hcors : loopCors (Pooled.setLeaving s k leaving) = loopCors s := loopCors_modify s k fun _ => rfl
  refine ⟨h.cors, h.poolSize, h.curCoroutineId, h.acceptCor, ?_, hcors.symm ▸ h.own, hcors.symm ▸ h.used,
    hcors.symm ▸ h.callBack, h.running, h.freed⟩
  intro j c' hj
  rw [getElem?_setLeaving] at hj
  obtain ⟨old, hold, rfl⟩ := Option.map_eq_some_iff.mp hj
  have hplace := h.place j old hold
  split
  · rename_i hkj
    obtain rfl : c = old := Option.some.inj (hk.symm.trans (hkj ▸ hold))
    exact ⟨hplace.isMain, hplace.corId, hplace.slot, hplace.started, hplace.mode, fun _ => hhung⟩
  · exact ⟨hplace.isMain, hplace.corId, hplace.slot, hplace.started, hplace.mode, hplace.leaving⟩

theorem getElem?_destroy (s : State) (k : Nat) (j : Nat) : (destroy s k).connections[j]? =
    s.connections[j]?.map fun c => if k = j then {c with alive := false} else c := by
  unfold destroy
  split
  · rename_i hk
    cases hj : s.connections[j]? with
    | none => rfl
    | some c =>
      rw [Option.map_some, if_neg]
      rintro rfl
      cases hk.symm.trans hj
  · exact List.getElem?_modify ..

theorem destroy_frame (s : State) (k : Nat) : (destroy s k).isInCoFunc = s.isInCoFunc ∧
    (destroy s k).callBack = s.callBack ∧ loopCors (destroy s k) = loopCors s := by
  unfold destroy
  split
  · exact ⟨rfl, rfl, rfl⟩
  · exact ⟨rfl, rfl, loopCors_modify s k fun _ => rfl⟩

/-- The coroutine of a connection is given back to the pool, or freed. -/
theorem Seated.destroy_pool (h : Seated s) (hk : s.connections[k]? = some c) :
    (destroy s k).pool.curCoroutineId = s.pool.curCoroutineId ∧
    (destroy s k).pool.poolSize = s.pool.poolSize ∧
    ((∃ j : Nat, s.pool.freeCors[j]? = some (c.loopCor, c.alive) ∧ (destroy s k).freed = s.freed ∧
        (destroy s k).pool.freeCors = s.pool.freeCors.modify j fun c => (c.1, false)) ∨
      s.pool.freeCors.length < c.loopCor.corId ∧
        (destroy s k).freed = Function.update s.freed c.loopCor.corId true ∧
        (destroy s k).pool.freeCors = s.pool.freeCors) := by
  rw [destroy, hk]
  rcases (h.place k c hk).slot with ⟨j, hindex, hj⟩ | ⟨hindex, hlt⟩
  · simp only [CoroutinePool.returnCoroutine_kept hindex (h.slot_lt hj).2]
    exact ⟨trivial, trivial, .inl ⟨j, hj, if_pos (by omega), rfl⟩⟩
  · have hreturn := s.pool.returnCoroutine_further c.loopCor (by omega)
    exact ⟨hreturn.1, hreturn.2.1, .inr ⟨hlt, if_neg (by omega), hreturn.2.2⟩⟩

/-- What the pool keeps when the coroutine of `c` is given back. -/
structure Returned (s t : State) (c : Connection) : Prop where
  poolSize : t.pool.poolSize = s.pool.poolSize
  length : t.pool.freeCors.length = s.pool.freeCors.length
  curCoroutineId : t.pool.curCoroutineId = s.pool.curCoroutineId
  keeps : ∀ (j : Nat) cor used, s.pool.freeCors[j]? = some (cor, used) → cor.corId ≠ c.loopCor.corId →
    t.pool.freeCors[j]? = some (cor, used)
  clears : ∀ j : Nat, s.pool.freeCors[j]? = some (c.loopCor, c.alive) →
    t.pool.freeCors[j]? = some (c.loopCor, false)
  cors : ∀ (j : Nat) cor used, t.pool.freeCors[j]? = some (cor, used) →
    ∃ old, s.pool.freeCors[j]? = some (cor, old) ∧ (used = true → old = true)
  freed : ∀ corId, t.freed corId = true →
    s.freed corId = true ∨ corId = c.loopCor.corId ∧ s.pool.freeCors.length < corId

theorem Seated.returned (h : Seated s) (hk : s.connections[k]? = some c) : Returned s (destroy s k) c := by
  obtain ⟨hid, hsize, ⟨i, hi, hfreed, heq⟩ | ⟨hlt, hfreed, heq⟩⟩ := h.destroy_pool hk
  · -- it is cleared where the pool has it
    refine ⟨hsize, by rw [heq, List.length_modify], hid, fun j cor used hj hne => ?_, fun j hj => ?_,
      fun j cor used hj => ?_, fun corId hf => .inl (hfreed ▸ hf)⟩
    · rw [heq, List.getElem?_modify_ne _ _ (fun hij => ?_), hj]
      exact hne (congrArg Coroutine.corId (Prod.mk.inj (Option.some.inj (hj.symm.trans (hij ▸ hi)))).1)
    · have hij : i = j := by
        have := (h.cors i _ _ hi).1
        have := (h.cors j _ _ hj).1
        omega
      rw [heq, hij, List.getElem?_modify_eq, hj]
      rfl
    · rw [heq, List.getElem?_modify] at hj
      obtain ⟨⟨other, flag⟩, hold, hflag⟩ := Option.map_eq_some_iff.mp hj
      split at hflag
      · obtain ⟨rfl, rfl⟩ := Prod.mk.inj hflag
        exact ⟨flag, hold, nofun⟩
      · obtain ⟨rfl, rfl⟩ := Prod.mk.inj hflag
        exact ⟨flag, hold, id⟩
  · -- the pool does not have it
    refine ⟨hsize, by rw [heq], hid, fun j cor used hj _ => heq ▸ hj, fun j hj => ?_,
      fun j cor used hj => ⟨used, heq ▸ hj, id⟩, fun corId hf => ?_⟩
    · have := (h.cors j _ _ hj).1
      have := (h.slot_lt hj).1
      omega
    · rw [hfreed, Function.update_apply] at hf
      split at hf
      · rename_i hsame
        exact .inr ⟨hsame, hsame ▸ hlt⟩
      · exact .inl hf

/-- A connection that sleeps on the close path is destroyed. -/
theorem Seated.destroy (h : Seated s) (hhung : ∀ c, s.connections[k]? = some c → Hung c.session) :
    Seated (destroy s k) := by
  cases hk : s.connections[k]? with
  | none =>
    have heq : Pooled.destroy s k = s := by rw [Pooled.destroy, hk]
    exact heq.symm ▸ h
  | some c =>
    obtain ⟨hin, hcall, hcors⟩ := destroy_frame s k
    have hreturned := h.returned hk
    have hlength := hreturned.length
    have hplace := h.place k c hk
    refine ⟨?_, ?_, ?_, ⟨?_, ?_⟩, ?_, ?_, ?_, ?_, ?_, ?_⟩
    · intro j cor used hj
      obtain ⟨old, hold, -⟩ := hreturned.cors j cor used hj
      exact h.cors j cor old hold
    · rw [hreturned.poolSize, hlength, h.poolSize]
    · rw [hreturned.curCoroutineId, hlength]
      exact h.curCoroutineId
    · obtain ⟨cor, hcor⟩ := h.acceptCor.1
      refine ⟨cor, hreturned.keeps 0 cor true hcor ?_⟩
      rw [(h.cors 0 cor true hcor).1]
      exact hplace.corId.1.symm
    · rw [hin]
      exact h.acceptCor.2
    · intro j c' hj
      rw [getElem?_destroy] at hj
      obtain ⟨old, hold, rfl⟩ := Option.map_eq_some_iff.mp hj
      have hplace' := h.place j old hold
      have hid := hreturned.curCoroutineId.symm ▸ hplace'.corId
      split
      · rename_i hkj
        obtain rfl : c = old := Option.some.inj (hk.symm.trans (hkj ▸ hold))
        refine ⟨hplace'.isMain, hid, ?_, by rw [hin, hcall]; exact hplace'.started, .inr ⟨hhung c hk, ?_⟩,
          hplace'.leaving⟩
        · rw [hlength]
          exact hplace'.slot.imp_left fun ⟨j, hindex, hj⟩ => ⟨j, hindex, hreturned.clears j hj⟩
        · rw [hin]
          exact hplace'.mode.elim (fun hgoing => absurd (hhung c hk).pc hgoing.1.pc) And.right
      · rename_i hkj
        have hne : old.loopCor.corId ≠ c.loopCor.corId := fun heq => hkj (h.eq_of_corId hk hold heq.symm)
        refine ⟨hplace'.isMain, hid, ?_, by rw [hin, hcall]; exact hplace'.started,
          by rw [hin]; exact hplace'.mode, hplace'.leaving⟩
        rw [hlength]
        exact hplace'.slot.imp_left fun ⟨j, hindex, hj⟩ => ⟨j, hindex, hreturned.keeps j _ _ hj hne⟩
    · rw [hcors]
      exact h.own
    · intro j cor hj
      obtain ⟨old, hold, himp⟩ := hreturned.cors j cor true hj
      rw [hcors]
      exact h.used j cor (himp rfl ▸ hold)
    · rw [hcall, hcors]
      exact h.callBack
    · rw [hin, hcall]
      exact h.running
    · intro corId hfreed
      rw [hreturned.curCoroutineId, hlength]
      rcases hreturned.freed corId hfreed with hold | ⟨rfl, hlt⟩
      · exact h.freed corId hold
      · exact ⟨hlt, hplace.corId.2⟩

theorem getElem?_destroyAll (s : State) (ks : List Nat) (j : Nat) : (destroyAll s ks).connections[j]? =
    s.connections[j]?.map fun c => if j ∈ ks then {c with alive := false} else c := by
  induction ks generalizing s with
  | nil => simp only [Pooled.destroyAll, List.not_mem_nil, if_false, Option.map_id']
  | cons k rest ih =>
    rw [Pooled.destroyAll, ih, getElem?_destroy, Option.map_map]
    congr 1
    funext c
    by_cases hk : k = j
    · simp [hk]
    · simp [hk, Ne.symm hk]

theorem Seated.destroyAll (h : Seated s) (ks : List Nat)
    (hhung : ∀ k ∈ ks, ∀ c, s.connections[k]? = some c → Hung c.session) : Seated (destroyAll s ks) := by
  induction ks generalizing s with
  | nil => exact h
  | cons k rest ih =>
    refine ih (h.destroy (hhung k (List.mem_cons_self ..))) fun j hj c hc => ?_
    rw [getElem?_destroy] at hc
    obtain ⟨old, hold, rfl⟩ := Option.map_eq_some_iff.mp hc
    have hung := hhung j (List.mem_cons_of_mem _ hj) old hold
    split
    · exact hung
    · exact hung

/-- Who can be resumed goes on. -/
theorem Seated.going (h : Seated s) (hk : s.connections[k]? = some c) (hcan : c.session.canResume = true) :
    Going c.session := by
  rcases (h.place k c hk).mode with ⟨hgoing, -⟩ | ⟨hhung, -⟩
  · exact hgoing
  · cases hcan.symm.trans hhung.canResume

theorem mem_clients {p : Connection → Bool} :
    k ∈ clients s p ↔ ∃ c, s.connections[k]? = some c ∧ c.alive = true ∧ p c = true := by
  rw [clients, List.mem_filter, List.mem_range, Option.any_eq_true]
  simp only [Bool.and_eq_true]
  constructor
  · exact And.right
  · rintro ⟨c, hk, h⟩
    exact ⟨(List.getElem?_eq_some_iff.mp hk).1, c, hk, h⟩

theorem closedFds_of_closedClients (hk : k ∈ closedClients s) : k ∈ closedFds s := by
  obtain ⟨c, hc, halive, hp⟩ := mem_clients.mp hk
  exact mem_clients.mpr ⟨c, hc, halive, (Bool.and_eq_true_iff.mp hp).1⟩

/-- Who is closed is on the close path. -/
theorem Seated.hung_of_closed (h : Seated s) (hk : s.connections[k]? = some c)
    (hclosed : c.session.connection.state = .closed) : Hung c.session := by
  rcases (h.place k c hk).mode with ⟨hgoing, -⟩ | ⟨hhung, -⟩
  · exact absurd hclosed hgoing.state
  · exact hhung

theorem Seated.hung_of_mem (h : Seated s) (hk : k ∈ closedFds s) (hc : s.connections[k]? = some c) :
    Hung c.session := by
  obtain ⟨c', hc', -, hp⟩ := mem_clients.mp hk
  obtain rfl : c' = c := Option.some.inj (hc'.symm.trans hc)
  exact h.hung_of_closed hc (of_decide_eq_true hp)

/-- What the pool hands out to a new connection. -/
structure Obtained (s : State) (cor : Coroutine) (pool : CoroutinePool) : Prop where
  isInCoFunc : s.isInCoFunc cor.corId = false
  corId : cor.corId ≠ 1 ∧ cor.corId < pool.curCoroutineId
  slot : (∃ j : Nat, cor.index = (j : Int) ∧ pool.freeCors[j]? = some (cor, true)) ∨
    cor.index = -1 ∧ s.pool.freeCors.length < cor.corId
  other : ∀ (k : Nat) c, s.connections[k]? = some c → c.loopCor.corId ≠ cor.corId
  poolSize : pool.poolSize = s.pool.poolSize
  length : pool.freeCors.length = s.pool.freeCors.length
  curCoroutineId : s.pool.curCoroutineId ≤ pool.curCoroutineId
  keeps : ∀ (j : Nat) other used, s.pool.freeCors[j]? = some (other, used) → other.corId ≠ cor.corId →
    pool.freeCors[j]? = some (other, used)
  cors : ∀ (j : Nat) other used, pool.freeCors[j]? = some (other, used) →
    ∃ old, s.pool.freeCors[j]? = some (other, old) ∧ (used = true → other = cor ∨ old = true)

theorem Seated.obtained (h : Seated s) {start : Int} {cor : Coroutine} {pool : CoroutinePool}
    (hget : s.pool.getCoroutineInstanse s.isInCoFunc start = some (cor, pool)) : Obtained s cor pool := by
  rcases CoroutinePool.getCoroutineInstanse_cases hget with ⟨i, hi, hout, rfl⟩ | ⟨-, tmp, overflow, heq⟩
  · obtain ⟨hid, hindex⟩ := h.cors i cor false hi
    have hlt := (h.slot_lt hi).1
    have hcur := h.curCoroutineId
    refine ⟨hout, ⟨fun hone => ?_, by change cor.corId < s.pool.curCoroutineId; omega⟩,
      .inl ⟨i, hindex, List.getElem?_set_self hlt⟩, fun k c hk heq => ?_, rfl, List.length_set ..,
      Nat.le_refl _, fun j other used hj hne => ?_, fun j other used hj => ?_⟩
    · obtain ⟨acceptCor, hacceptCor⟩ := h.acceptCor.1
      obtain rfl : i = 0 := by omega
      cases hi.symm.trans hacceptCor
    · obtain ⟨rfl, hdead⟩ := h.slot_of_corId hk hi heq.symm
      rcases (h.place k c hk).mode with ⟨-, halive⟩ | ⟨-, hin⟩
      · cases hdead.trans halive
      · cases hout.symm.trans hin
    · rw [List.getElem?_set_ne, hj]
      rintro rfl
      exact hne (congrArg Coroutine.corId (Prod.mk.inj (Option.some.inj (hj.symm.trans hi))).1)
    · rw [List.getElem?_set] at hj
      split at hj
      · rename_i hij
        obtain ⟨rfl, rfl⟩ := Prod.mk.inj (Option.some.inj hj)
        exact ⟨false, hij ▸ hi, fun _ => .inl rfl⟩
      · exact ⟨used, hj, .inr⟩
  · obtain ⟨rfl, rfl⟩ := Prod.mk.inj heq
    have hcur := h.curCoroutineId
    have hpos : 0 < s.pool.freeCors.length := (h.slot_lt h.acceptCor.1.choose_spec).1
    refine ⟨?_, ⟨by change s.pool.curCoroutineId ≠ 1; omega, Nat.lt_succ_self _⟩, .inr ⟨rfl, hcur⟩,
      fun k c hk => Nat.ne_of_lt (h.place k c hk).corId.2, rfl, rfl, Nat.le_succ _, fun j other used hj _ => hj,
      fun j other used hj => ⟨used, hj, .inr⟩⟩
    by_contra hin
    rw [Bool.not_eq_false] at hin
    rcases h.running _ hin with hone | ⟨k, hcall⟩
    · change s.pool.curCoroutineId = 1 at hone
      omega
    · obtain ⟨c, hk, hid⟩ := h.of_callBack hcall
      exact Nat.ne_of_lt (h.place k c hk).corId.2 hid

/-- A connection starts on a coroutine that nobody uses. -/
theorem Seated.initServer (h : Seated s) {fd : Int} {cor : Coroutine} {pool : CoroutinePool}
    (hget : Obtained s cor pool) : Seated (initServer {s with pool} fd cor) := by
  have hloop : loopCors (Pooled.initServer {s with pool} fd cor) = loopCors s ++ [cor] := List.map_append ..
  have hcall : (Pooled.initServer {s with pool} fd cor).callBack =
      Function.update s.callBack cor.corId (some s.connections.length) := by
    simp only [Pooled.initServer, hget.isInCoFunc, Bool.false_eq_true, if_false]
  have hother : ∀ other ∈ loopCors s, other.corId ≠ cor.corId := by
    intro other hmem
    obtain ⟨c, hc, rfl⟩ := List.mem_map.mp hmem
    obtain ⟨k, hk⟩ := List.getElem?_of_mem hc
    exact hget.other k c hk
  refine ⟨?_, ?_, ?_, ⟨?_, h.acceptCor.2⟩, ?_, ?_, ?_, ?_, ?_, ?_⟩
  · intro j other used hj
    obtain ⟨old, hold, -⟩ := hget.cors j other used hj
    exact h.cors j other old hold
  · exact hget.poolSize.trans (h.poolSize.trans (congrArg _ hget.length.symm))
  · exact hget.length ▸ Nat.lt_of_lt_of_le h.curCoroutineId hget.curCoroutineId
  · obtain ⟨acceptCor, hacceptCor⟩ := h.acceptCor.1
    refine ⟨acceptCor, hget.keeps 0 acceptCor true hacceptCor ?_⟩
    rw [(h.cors 0 acceptCor true hacceptCor).1]
    exact hget.corId.1.symm
  · intro k c hk
    change (s.connections ++ _)[k]? = some c at hk
    rw [List.getElem?_append] at hk
    split at hk
    · have hplace := h.place k c hk
      have hne := hget.other k c hk
      refine ⟨hplace.isMain, ⟨hplace.corId.1, Nat.lt_of_lt_of_le hplace.corId.2 hget.curCoroutineId⟩, ?_, ?_,
        hplace.mode, hplace.leaving⟩
      · refine hplace.slot.imp (fun ⟨j, hindex, hj⟩ => ⟨j, hindex, hget.keeps j _ _ hj hne⟩) fun hfurther => ?_
        exact ⟨hfurther.1, hget.length.symm ▸ hfurther.2⟩
      · rw [hcall, Function.update_of_ne hne]
        exact hplace.started
    · rename_i hle
      rw [List.getElem?_singleton] at hk
      split at hk
      swap
      · cases hk
      obtain rfl := Option.some.inj hk
      obtain rfl : k = s.connections.length := by omega
      refine ⟨rfl, hget.corId, ?_, ?_, .inl ⟨⟨nofun, rfl, nofun⟩, rfl⟩, fun hleaving => absurd rfl hleaving⟩
      · exact hget.slot.imp_right fun hfurther => ⟨hfurther.1, hget.length.symm ▸ hfurther.2⟩
      · rw [hcall, Function.update_self]
        exact fun _ => rfl
  · rw [hloop, List.map_append, List.nodup_append']
    refine ⟨h.own, List.nodup_singleton _, fun corId hmem hlast => ?_⟩
    obtain ⟨other, hold, rfl⟩ := List.mem_map.mp hmem
    exact hother other hold (List.mem_singleton.mp hlast)
  · intro j other hj
    obtain ⟨old, hold, hused⟩ := hget.cors j other true hj
    rw [hloop, List.mem_append, List.mem_singleton]
    rcases hused rfl with rfl | rfl
    · exact .inr (.inr rfl)
    · exact (h.used j other hold).imp_right .inl
  · intro corId k hk
    rw [hcall, Function.update_apply] at hk
    rw [hloop]
    split at hk
    · rename_i hid
      obtain rfl := Option.some.inj hk
      refine ⟨cor, ?_, hid.symm⟩
      rw [List.getElem?_append_right (by rw [loopCors, List.length_map]), loopCors, List.length_map,
        Nat.sub_self]
      rfl
    · obtain ⟨other, hother, hid⟩ := h.callBack corId k hk
      exact ⟨other, List.getElem?_append_left (List.getElem?_eq_some_iff.mp hother).1 ▸ hother, hid⟩
  · intro corId hin
    refine (h.running corId hin).imp_right fun ⟨k, hk⟩ => ⟨k, ?_⟩
    rw [hcall, Function.update_of_ne, hk]
    rintro rfl
    cases hget.isInCoFunc.symm.trans hin
  · intro corId hfreed
    obtain ⟨hlt, hcur⟩ := h.freed corId hfreed
    exact ⟨hget.length.symm ▸ hlt, Nat.lt_of_lt_of_le hcur hget.curCoroutineId⟩

/-- The coroutine of a connection that is not closed goes in or out of `CoFunction`. -/
theorem Seated.setIsInCoFunc (h : Seated s) (hk : s.connections[k]? = some c) (hgoing : Going c.session)
    {v : Bool} {callBack : Nat → Option Nat} (hself : callBack c.loopCor.corId = if v then some k else none)
    (hother : ∀ corId, corId ≠ c.loopCor.corId → callBack corId = s.callBack corId) :
    Seated {s with isInCoFunc := Function.update s.isInCoFunc c.loopCor.corId v, callBack} := by
  have hplace := h.place k c hk
  have hv : Function.update s.isInCoFunc c.loopCor.corId v c.loopCor.corId = v := Function.update_self ..
  have hin : ∀ corId, corId ≠ c.loopCor.corId →
      Function.update s.isInCoFunc c.loopCor.corId v corId = s.isInCoFunc corId :=
    fun _ hne => Function.update_of_ne hne ..
  refine ⟨h.cors, h.poolSize, h.curCoroutineId, ⟨h.acceptCor.1, ?_⟩, ?_, h.own, h.used, ?_, ?_, h.freed⟩
  · exact (hin 1 hplace.corId.1.symm).trans h.acceptCor.2
  · intro j c' hj
    have hplace' := h.place j c' hj
    by_cases heq : c'.loopCor.corId = c.loopCor.corId
    · obtain rfl : j = k := h.eq_of_corId hj hk heq
      obtain rfl : c' = c := Option.some.inj (hj.symm.trans hk)
      refine ⟨hplace.isMain, hplace.corId, hplace.slot, fun hrun => ?_, .inl ⟨hgoing, ?_⟩, hplace.leaving⟩
      · exact hself.trans (if_pos (hv.symm.trans hrun))
      · exact hplace.mode.elim And.right fun hhung => absurd hhung.1.pc hgoing.pc
    · refine ⟨hplace'.isMain, hplace'.corId, hplace'.slot, fun hrun => ?_, ?_, hplace'.leaving⟩
      · exact (hother _ heq).trans (hplace'.started ((hin _ heq).symm.trans hrun))
      · exact hplace'.mode.imp_right fun ⟨hhung, hrun⟩ => ⟨hhung, (hin _ heq).trans hrun⟩
  · intro corId j hj
    by_cases heq : corId = c.loopCor.corId
    · subst heq
      have hj' := hself.symm.trans hj
      split at hj'
      · obtain rfl := Option.some.inj hj'
        exact ⟨c.loopCor, getElem?_loopCors hk, rfl⟩
      · cases hj'
    · exact h.callBack corId j ((hother corId heq).symm.trans hj)
  · intro corId hrun
    by_cases heq : corId = c.loopCor.corId
    · subst heq
      exact .inr ⟨k, hself.trans (if_pos (hv.symm.trans hrun))⟩
    · refine (h.running corId ((hin corId heq).symm.trans hrun)).imp_right fun ⟨j, hj⟩ => ⟨j, ?_⟩
      exact (hother corId heq).trans hj

variable {dispatch : RpcStruct → TcpBuffer → Option (TcpBuffer × RunTime)}

theorem accept_cases {fd start : Int} (hs : accept s fd start = some t) :
    (∀ k ∈ onFd s fd, k ∈ closedFds s) ∧ ∃ cor pool,
      (destroyAll s (onFd s fd)).pool.getCoroutineInstanse (destroyAll s (onFd s fd)).isInCoFunc start =
        some (cor, pool) ∧ t = initServer {destroyAll s (onFd s fd) with pool} fd cor := by
  unfold accept at hs
  split at hs
  · rename_i hclosed
    simp only [Option.bind_eq_bind, Option.bind_eq_some_iff, Option.pure_def] at hs
    obtain ⟨⟨cor, pool⟩, hget, heq⟩ := hs
    exact ⟨hclosed, cor, pool, hget, (Option.some.inj heq).symm⟩
  · cases hs

/-- `Resume` on the coroutine of a connection. -/
theorem resume_cases {corId : Nat} (hs : resume s corId = some t) :
    ∃ k c, s.callBack corId = some k ∧ s.connections[k]? = some c ∧ c.leaving = .no ∧
      (c.session.canResume = false ∧ t = s ∨
        c.session.canResume = true ∧ s.isInCoFunc corId = false ∧
          t = {s with isInCoFunc := Function.update s.isInCoFunc corId true} ∨
        c.session.canResume = true ∧ s.isInCoFunc corId = true ∧ ∃ session,
          c.session.step resume.noDispatch .resume = some session ∧ t = setSession s k session) := by
  simp only [resume, Option.bind_eq_bind, Option.bind_eq_some_iff, Option.pure_def] at hs
  obtain ⟨k, hcall, c, hk, hs⟩ := hs
  split at hs
  · cases hs
  rename_i hruns
  refine ⟨k, c, hcall, hk, not_not.mp (not_or.mp hruns).2, ?_⟩
  split at hs
  · rename_i hcan
    exact .inl ⟨Bool.not_eq_true _ ▸ hcan, (Option.some.inj hs).symm⟩
  rename_i hcan
  rw [not_not] at hcan
  split at hs
  · rename_i hin
    exact .inr (.inl ⟨hcan, Bool.not_eq_true _ ▸ hin, (Option.some.inj hs).symm⟩)
  · rename_i hin
    rw [Bool.not_eq_true, Bool.not_eq_false] at hin
    obtain ⟨session, hstep, rfl⟩ := Option.map_eq_some_iff.mp hs
    exact .inr (.inr ⟨hcan, hin, session, hstep, rfl⟩)

/-- A step of the loop of a connection whose coroutine runs it. -/
theorem io_cases {i : Session.Input} (hs : io dispatch s k i = some t) :
    ∃ c, s.connections[k]? = some c ∧ i ≠ .resume ∧ s.isInCoFunc c.loopCor.corId = true ∧
      (c.session.pc = .returned .output ∧ t = {s with
          isInCoFunc := Function.update s.isInCoFunc c.loopCor.corId false
          callBack := Function.update s.callBack c.loopCor.corId none} ∨
        ∃ session, Server.step dispatch c.session (.io i) = some session ∧ t = setSession s k session) := by
  simp only [io, Option.bind_eq_bind, Option.bind_eq_some_iff, Option.pure_def] at hs
  obtain ⟨c, hk, hs⟩ := hs
  refine ⟨c, hk, ?_⟩
  split at hs
  · cases hs
  rename_i hrun
  simp only [not_or, Bool.not_eq_false] at hrun
  refine ⟨hrun.1, hrun.2.1, ?_⟩
  split at hs
  · rename_i hend
    exact .inl ⟨hend.1, (Option.some.inj hs).symm⟩
  · obtain ⟨session, hstep, rfl⟩ := Option.map_eq_some_iff.mp hs
    exact .inr ⟨session, hstep, rfl⟩

theorem shutdown_cases (hs : step dispatch s (.shutdown k) = some t) : ∃ c, s.connections[k]? = some c ∧
    c.alive = true ∧
      t = setSession s k {c.session with connection := c.session.connection.shutdownConnection} := by
  simp only [step, Option.bind_eq_bind, Option.bind_eq_some_iff, Option.pure_def] at hs
  obtain ⟨c, hk, hs⟩ := hs
  split at hs
  · exact ⟨c, hk, ‹_›, (Option.some.inj hs).symm⟩
  · cases hs

/-- A coroutine that goes on behind `close` is on the close path, and no step of its session follows. -/
theorem leave_cases (hs : leave s k = some t) : ∃ c leaving, s.connections[k]? = some c ∧ c.leaving ≠ .no ∧
    t = setLeaving s k leaving := by
  simp only [leave, Option.bind_eq_bind, Option.bind_eq_some_iff, Option.pure_def] at hs
  obtain ⟨c, hk, hs⟩ := hs
  split at hs
  · cases hs
  · rename_i hleaving
    exact ⟨c, _, hk, by rw [hleaving]; exact nofun, (Option.some.inj hs).symm⟩
  · rename_i hleaving
    exact ⟨c, _, hk, by rw [hleaving]; exact nofun, (Option.some.inj hs).symm⟩

theorem setCallBack_cases {corId : Nat} (hs : setCallBack s corId = some t) :
    t = s ∨ s.isInCoFunc corId = false ∧ t = {s with callBack := Function.update s.callBack corId none} := by
  unfold setCallBack at hs
  split at hs
  · cases hs
  split at hs
  · exact .inl (Option.some.inj hs).symm
  · rename_i hin
    exact .inr ⟨Bool.not_eq_true _ ▸ hin, (Option.some.inj hs).symm⟩

/-- **One step** keeps everybody in place. -/
theorem Seated.step {i : Input} (h : Seated s) (hs : step dispatch s i = some t) : Seated t := by
  cases i with
  | accept fd start =>
    obtain ⟨hclosed, cor, pool, hget, rfl⟩ := accept_cases hs
    have hafter := h.destroyAll (onFd s fd) fun k hk c hc => h.hung_of_mem (hclosed k hk) hc
    exact hafter.initServer (hafter.obtained hget)
  | resume corId =>
    obtain ⟨k, c, hcall, hk, -, ⟨-, rfl⟩ | ⟨hcan, -, rfl⟩ | ⟨hcan, hin, session, hstep, rfl⟩⟩ :=
      resume_cases hs
    · exact h
    · obtain ⟨c', hk', rfl⟩ := h.of_callBack hcall
      obtain rfl : c' = c := Option.some.inj (hk'.symm.trans hk)
      exact h.setIsInCoFunc hk (h.going hk hcan) (if_pos rfl ▸ hcall) fun _ _ => rfl
    · obtain ⟨hmain, hmode⟩ := (h.going hk hcan).step (h.place k c hk).isMain hstep
      obtain ⟨c', hk', rfl⟩ := h.of_callBack hcall
      obtain rfl : c' = c := Option.some.inj (hk'.symm.trans hk)
      have halive : c'.alive = true :=
        (h.place k c' hk).mode.elim And.right fun hhung => absurd hhung.1.pc (h.going hk hcan).pc
      exact h.setSession hk hmain (hmode.imp (⟨·, halive⟩) (⟨·, hin⟩))
        fun hhung => absurd hhung.pc (h.going hk hcan).pc
  | io k i =>
    obtain ⟨c, hk, hi, hin, ⟨hpc, rfl⟩ | ⟨session, hstep, rfl⟩⟩ := io_cases hs
    · have hgoing : Going c.session := by
        rcases (h.place k c hk).mode with ⟨hgoing, -⟩ | ⟨hhung, -⟩
        · exact hgoing
        · cases hpc.symm.trans hhung.pc
      exact h.setIsInCoFunc hk hgoing (Function.update_self ..) fun corId hne => Function.update_of_ne hne ..
    · rcases (h.place k c hk).mode with ⟨hgoing, halive⟩ | ⟨hhung, -⟩
      · obtain ⟨hmain, hmode⟩ := hgoing.serverStep (h.place k c hk).isMain hstep
        exact h.setSession hk hmain (hmode.imp (⟨·, halive⟩) (⟨·, hin⟩)) fun hhung => absurd hhung.pc hgoing.pc
      · cases (hhung.serverStep hi).symm.trans hstep
  | leave k =>
    obtain ⟨c, leaving, hk, hleaving, rfl⟩ := leave_cases hs
    exact h.setLeaving hk ((h.place k c hk).leaving hleaving) leaving
  | shutdown k =>
    obtain ⟨c, hk, halive, rfl⟩ := shutdown_cases hs
    refine h.setSession hk (h.place k c hk).isMain ?_ fun hhung => by rw [hhung.shutdown]; exact hhung
    refine (h.place k c hk).mode.imp (fun hgoing => ⟨hgoing.1.shutdown, halive⟩) fun ⟨hhung, hin⟩ => ?_
    rw [hhung.shutdown]
    exact ⟨hhung, hin⟩
  | clearClientTimer =>
    obtain rfl := Option.some.inj hs
    exact h.destroyAll _ fun k hk c hc => h.hung_of_mem (closedFds_of_closedClients hk) hc
  | setCallBack corId =>
    rcases setCallBack_cases hs with rfl | ⟨hin, rfl⟩
    · exact h
    have hother : ∀ id, s.isInCoFunc id = true → Function.update s.callBack corId none id = s.callBack id := by
      intro id hrun
      refine Function.update_of_ne ?_ ..
      rintro rfl
      cases hin.symm.trans hrun
    refine ⟨h.cors, h.poolSize, h.curCoroutineId, h.acceptCor, ?_, h.own, h.used, ?_, ?_, h.freed⟩
    · intro j c hj
      have hplace := h.place j c hj
      exact ⟨hplace.isMain, hplace.corId, hplace.slot,
        fun hrun => (hother _ hrun).trans (hplace.started hrun), hplace.mode, hplace.leaving⟩
    · intro id j hj
      refine h.callBack id j ?_
      change Function.update s.callBack corId none id = some j at hj
      rw [Function.update_apply] at hj
      split at hj
      · cases hj
      · exact hj
    · intro id hrun
      exact (h.running id hrun).imp_right fun ⟨j, hj⟩ => ⟨j, (hother id hrun).trans hj⟩

theorem seated_initial {poolSize stackSize start : Int} (hs : initial poolSize stackSize start = some s) :
    Seated s := by
  simp only [initial, Option.bind_eq_bind, Option.bind_eq_some_iff, Option.pure_def] at hs
  obtain ⟨pool, hmake, ⟨acceptCor, pool'⟩, hget, heq⟩ := hs
  obtain rfl := Option.some.inj heq
  obtain ⟨hfirst, rfl⟩ := CoroutinePool.make_getCoroutineInstanse hmake hget
  obtain ⟨hsize, hlength, hcur, hcors⟩ := CoroutinePool.make_ids hmake
  obtain ⟨hlt, -⟩ := List.getElem?_eq_some_iff.mp hfirst
  have hid : acceptCor.corId = 1 := (hcors 0 acceptCor false hfirst).2.1
  have hset : (pool.freeCors.set 0 (acceptCor, true)).length = pool.freeCors.length := List.length_set ..
  have hslot : ∀ (j : Nat) cor used, (pool.freeCors.set 0 (acceptCor, true))[j]? = some (cor, used) →
      (used = true → j = 0) ∧ cor.corId = j + 1 ∧ cor.index = (j : Int) := by
    intro j cor used hj
    cases j with
    | zero =>
      rw [List.getElem?_set_self hlt] at hj
      obtain ⟨rfl, rfl⟩ := Prod.mk.inj (Option.some.inj hj)
      exact ⟨fun _ => rfl, (hcors 0 _ _ hfirst).2⟩
    | succ j =>
      rw [List.getElem?_set_ne (Nat.zero_ne_add_one j)] at hj
      obtain ⟨hused, hcor⟩ := hcors (j + 1) cor used hj
      exact ⟨fun htrue => (by cases hused.symm.trans htrue), hcor⟩
  refine ⟨fun j cor used hj => (hslot j cor used hj).2, ?_, ?_,
    ⟨⟨acceptCor, List.getElem?_set_self hlt⟩, ?_⟩, ?_, List.nodup_nil,
    fun j cor hj => .inl ((hslot j cor true hj).1 rfl), nofun, ?_, nofun⟩
  · change pool.poolSize = ((pool.freeCors.set 0 (acceptCor, true)).length : Int)
    omega
  · change (pool.freeCors.set 0 (acceptCor, true)).length < pool.curCoroutineId
    omega
  · change Function.update (fun _ => false) acceptCor.corId true 1 = true
    rw [hid, Function.update_self]
  · intro k c hk
    cases List.getElem?_nil.symm.trans hk
  · intro corId hrun
    by_cases heq : corId = acceptCor.corId
    · exact .inl (heq.trans hid)
    · change Function.update (fun _ => false) acceptCor.corId true corId = true at hrun
      rw [Function.update_of_ne heq] at hrun
      cases hrun

/-! ### One connection -/

/-- The connections that a step destroys. -/
def destroyed (s : State) : Input → List Nat
  | .accept fd _ => onFd s fd
  | .clearClientTimer => closedClients s
  | _ => []

/-- What a step makes of a connection: none touches a session on the close path, and one that
destroys the connection does nothing else to it. -/
structure Goes (s : State) (i : Input) (k : Nat) (c c' : Connection) : Prop where
  session : Hung c.session → c'.session = c.session
  loopCor : c'.loopCor = c.loopCor
  leaving : c'.leaving ≠ .no → c.leaving ≠ .no ∨ ¬ Hung c.session
  destroyed : k ∈ destroyed s i → c'.leaving = c.leaving
  alive : c'.alive = (c.alive && decide (k ∉ Pooled.destroyed s i))

theorem goes_self {i : Input} (hnone : destroyed s i = []) : Goes s i k c c :=
  ⟨fun _ => rfl, rfl, .inl, fun _ => rfl, by simp [hnone]⟩

theorem goes_setSession {i : Input} (hnone : destroyed s i = []) (hk : s.connections[k]? = some c) {j : Nat}
    {session : Session} (hsession : j = k → Hung c.session → session = c.session) :
    ∃ c', (setSession s j session).connections[k]? = some c' ∧ Goes s i k c c' := by
  rw [getElem?_setSession, hk, Option.map_some]
  refine ⟨_, rfl, ?_⟩
  split
  · rename_i hjk
    refine ⟨hsession hjk, rfl, fun hleaving => ?_, fun hmem => ?_, by simp [hnone]⟩
    · dsimp only at hleaving
      split at hleaving
      · rename_i hpc
        exact .inr fun hhung => hpc.2 hhung.pc
      · exact .inl hleaving
    · rw [hnone] at hmem
      cases hmem
  · exact goes_self hnone

theorem step_connection {i : Input} (hs : step dispatch s i = some t) (hk : s.connections[k]? = some c) :
    ∃ c', t.connections[k]? = some c' ∧ Goes s i k c c' := by
  have hdestroy : ∀ ks, (destroyAll s ks).connections[k]? =
      some {c with alive := c.alive && decide (k ∉ ks)} := by
    intro ks
    rw [getElem?_destroyAll, hk, Option.map_some]
    by_cases hmem : k ∈ ks <;> simp [hmem]
  cases i with
  | accept fd start =>
    obtain ⟨-, cor, pool, -, rfl⟩ := accept_cases hs
    have hold := hdestroy (onFd s fd)
    refine ⟨{c with alive := c.alive && decide (k ∉ onFd s fd)}, ?_, fun _ => rfl, rfl, .inl, fun _ => rfl, rfl⟩
    change ((destroyAll s (onFd s fd)).connections ++ _)[k]? = _
    rw [List.getElem?_append_left (List.getElem?_eq_some_iff.mp hold).1, hold]
  | resume corId =>
    obtain ⟨j, c', -, hj, -, ⟨-, rfl⟩ | ⟨-, -, rfl⟩ | ⟨hcan, -, session, -, rfl⟩⟩ := resume_cases hs
    · exact ⟨c, hk, goes_self rfl⟩
    · exact ⟨c, hk, goes_self rfl⟩
    · refine goes_setSession rfl hk fun hjk hhung => ?_
      obtain rfl : c' = c := Option.some.inj (hj.symm.trans (hjk ▸ hk))
      cases hcan.symm.trans hhung.canResume
  | io j i =>
    obtain ⟨c', hj, hi, -, ⟨-, rfl⟩ | ⟨session, hstep, rfl⟩⟩ := io_cases hs
    · exact ⟨c, hk, goes_self rfl⟩
    · refine goes_setSession rfl hk fun hjk hhung => ?_
      obtain rfl : c' = c := Option.some.inj (hj.symm.trans (hjk ▸ hk))
      cases (hhung.serverStep hi).symm.trans hstep
  | leave j =>
    obtain ⟨c', leaving, hj, hleaving, rfl⟩ := leave_cases hs
    rw [getElem?_setLeaving, hk, Option.map_some]
    refine ⟨_, rfl, ?_⟩
    split
    · rename_i hjk
      obtain rfl : c' = c := Option.some.inj (hj.symm.trans (hjk ▸ hk))
      exact ⟨fun _ => rfl, rfl, fun _ => .inl hleaving, fun hmem => absurd hmem List.not_mem_nil, by simp [destroyed]⟩
    · exact goes_self rfl
  | shutdown j =>
    obtain ⟨c', hj, -, rfl⟩ := shutdown_cases hs
    refine goes_setSession rfl hk fun hjk hhung => ?_
    obtain rfl : c' = c := Option.some.inj (hj.symm.trans (hjk ▸ hk))
    exact hhung.shutdown
  | clearClientTimer =>
    obtain rfl := Option.some.inj hs
    exact ⟨_, hdestroy _, fun _ => rfl, rfl, .inl, fun _ => rfl, rfl⟩
  | setCallBack corId =>
    rcases setCallBack_cases hs with rfl | ⟨-, rfl⟩
    · exact ⟨c, hk, goes_self rfl⟩
    · exact ⟨c, hk, goes_self rfl⟩

/-- A connection that a step brings is not destroyed by it, nor on the close path. -/
theorem step_new {i : Input} (hs : step dispatch s i = some t) (hk : t.connections[k]? = some c) :
    c.alive = true ∧ c.leaving = .no ∨ ∃ c', s.connections[k]? = some c' := by
  have hsame : t.connections.length = s.connections.length → ∃ c', s.connections[k]? = some c' := by
    intro hlength
    obtain ⟨hlt, -⟩ := List.getElem?_eq_some_iff.mp hk
    exact ⟨_, List.getElem?_eq_getElem (hlength ▸ hlt)⟩
  have hset : ∀ (u : State) j session, (setSession u j session).connections.length = u.connections.length :=
    fun _ _ _ => List.length_modify ..
  cases i with
  | accept fd start =>
    obtain ⟨-, cor, pool, -, rfl⟩ := accept_cases hs
    change ((destroyAll s (onFd s fd)).connections ++ _)[k]? = some c at hk
    rw [List.getElem?_append] at hk
    split at hk
    · rw [getElem?_destroyAll] at hk
      obtain ⟨c', hc', -⟩ := Option.map_eq_some_iff.mp hk
      exact .inr ⟨c', hc'⟩
    · rw [List.getElem?_singleton] at hk
      split at hk
      · obtain rfl := Option.some.inj hk
        exact .inl ⟨rfl, rfl⟩
      · cases hk
  | resume corId =>
    obtain ⟨j, c', -, -, -, ⟨-, rfl⟩ | ⟨-, -, rfl⟩ | ⟨-, -, session, -, rfl⟩⟩ := resume_cases hs
    · exact .inr ⟨c, hk⟩
    · exact .inr ⟨c, hk⟩
    · exact .inr (hsame (hset ..))
  | io j i =>
    obtain ⟨c', -, -, -, ⟨-, rfl⟩ | ⟨session, -, rfl⟩⟩ := io_cases hs
    · exact .inr ⟨c, hk⟩
    · exact .inr (hsame (hset ..))
  | leave j =>
    obtain ⟨c', leaving, -, -, rfl⟩ := leave_cases hs
    exact .inr (hsame (List.length_modify ..))
  | shutdown j =>
    obtain ⟨c', -, -, rfl⟩ := shutdown_cases hs
    exact .inr (hsame (hset ..))
  | clearClientTimer =>
    obtain rfl := Option.some.inj hs
    rw [getElem?_destroyAll] at hk
    obtain ⟨c', hc', -⟩ := Option.map_eq_some_iff.mp hk
    exact .inr ⟨c', hc'⟩
  | setCallBack corId =>
    rcases setCallBack_cases hs with rfl | ⟨-, rfl⟩
    · exact .inr ⟨c, hk⟩
    · exact .inr ⟨c, hk⟩

end

theorem connections_initial {poolSize stackSize start : Int} {s₀ : State}
    (h₀ : initial poolSize stackSize start = some s₀) : s₀.connections = [] := by
  simp only [initial, Option.bind_eq_bind, Option.bind_eq_some_iff, Option.pure_def] at h₀
  obtain ⟨pool, -, r, -, heq⟩ := h₀
  obtain rfl := Option.some.inj heq
  rfl

end CoroutineRpc.Net.Tcp.Pooled
