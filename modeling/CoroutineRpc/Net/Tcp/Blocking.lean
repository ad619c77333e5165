import Mathlib.Data.Nat.Find
import Mathlib.Data.Prod.Lex
import CoroutineRpc.Library.Progress
import CoroutineRpc.Net.Tcp.Buffers
import CoroutineRpc.Net.Tcp.Ownership

/-! A call in the main coroutine.

There the hooks are the system calls: no step waits for the loop, no timer fires during the
call, and what happens is up to the kernel alone. Reads that fail end the call, since the
close path returns. A connect that fails does not, unless it leaves one of two error
numbers, and a write that fails never does: both loops were written for a flag that only the
timer sets (`call_ends_iff`). -/
namespace CoroutineRpc.Net.Tcp.Client
open Library.Progress Library.Transition Rpc TcpBuffer

/-! ### The kernel -/

/-- How the kernel answers: the `n`th of the calls of `connect`, `write` and `read`, the last
two with the size they are given. A `socket()` behind `n` of these calls succeeds: it gives the
number `socket n`, if that is free, and otherwise the one that was closed. -/
structure Kernel where
  connect : Nat → ConnectResult
  write : Nat → Int → WriteResult
  read : Nat → Int → ReadResult
  socket : Nat → Int
  sent : ∀ n size k, write n size = .sent k → 0 < k ∧ (k : Int) ≤ size
  received : ∀ n size bytes, read n size = .data bytes → bytes ≠ [] ∧ (bytes.length : Int) ≤ size

namespace Kernel

/-- The input that the client waits for, which has made `n` calls. `errno` is what the call that
failed last left: a `socket()` that succeeds does not set it. -/
def input (kernel : Kernel) (s : State) (n : Nat) : Input :=
  let fd :=
    if 0 ≤ kernel.socket n ∧ s.session.descriptors.owner (kernel.socket n) = none then kernel.socket n
    else s.fd
  match s.pc, s.session.pc with
  | .connect, _ => .connect (kernel.connect n)
  | .output, .write size => .write (kernel.write n size)
  | .input, .read size => .read (kernel.read n size)
  | .resetSocket _, _ => .socket fd s.errno
  | .errSocket, _ => .socket fd s.errno
  | _, _ => .advance

/-- From some call on all fail. -/
structure DeadAfter (kernel : Kernel) (n : Nat) : Prop where
  connect : ∀ m, n ≤ m → kernel.connect m ≠ .ok
  write : ∀ m size, n ≤ m → kernel.write m size = .failed
  read : ∀ m size, n ≤ m → kernel.read m size = .error

end Kernel

/-- How many of the kernel's calls an input is. -/
def Input.calls : Input → Nat
  | .connect _ | .read _ | .write _ => 1
  | _ => 0

section
variable (settings : Settings) (kernel : Kernel)

/-- One step of a client that has made as many calls as the number says. -/
def next (c : State × Nat) : Option (State × Nat) :=
  (step settings c.1 (kernel.input c.1 c.2)).map fun t => (t, c.2 + (kernel.input c.1 c.2).calls)

/-- The call has returned, or has come to what is undefined: a read buffer of `2 ^ 30` bytes that
has to grow. -/
def Ended (c : State × Nat) : Prop := c.1.pc = .idle ∨ c.1.pc = .input ∧ next settings kernel c = none

end

/-! ### When a call ends -/

/-- The error numbers that end the loop which connects. -/
def Errno.Final (errno : Errno) : Prop := errno = .connRefused ∨ errno = .afNoSupport

namespace Kernel

/-- The first `n` connects fail and leave the loop going on. -/
def Retries (kernel : Kernel) (n : Nat) : Prop :=
  ∀ m < n, ∃ errno, kernel.connect m = .failed errno ∧ ¬ Errno.Final errno

/-- A connect fails in a way that ends the loop. -/
def Refuses (kernel : Kernel) : Prop :=
  ∃ n errno, kernel.Retries n ∧ kernel.connect n = .failed errno ∧ Errno.Final errno

/-- The connection is there after `n` connects. -/
def Connects (kernel : Kernel) (state : TcpConnectionState) (n : Nat) : Prop :=
  state = .connected ∧ n = 0 ∨
    state ≠ .connected ∧ ∃ m, n = m + 1 ∧ kernel.Retries m ∧ kernel.connect m = .ok

/-- How many of `size` bytes the write that is the `n`th call leaves to be written. -/
def rest (kernel : Kernel) (n : Nat) (size : Int) : Int :=
  match kernel.write n size with
  | .sent k => size - k
  | .failed => size

/-- How many of `total` bytes are left after `m` writes, the first of which is the `n`th call. -/
def left (kernel : Kernel) (n : Nat) (total : Int) : Nat → Int
  | 0 => total
  | m + 1 => kernel.rest (n + m) (left kernel n total m)

end Kernel

/-- A connect is refused, or one succeeds and the writes that follow take all the bytes there are
to write. -/
def Answered (kernel : Kernel) (connection : TcpConnection) : Prop :=
  connection.state ≠ .connected ∧ kernel.Refuses ∨
    ∃ n, kernel.Connects connection.state n ∧
      (connection.isOverTime = true ∨ ∃ m, kernel.left n connection.writeBuffer.readAble m ≤ 0)

/-! ### Steps of a call -/

section
variable {settings : Settings} {kernel : Kernel}

/-- A call that has started comes to an end. -/
def Finishes (settings : Settings) (kernel : Kernel) (c : State × Nat) : Prop :=
  Eventually (next settings kernel) (Ended settings kernel) c

/-- The call is still under way when it comes from one place to the other. -/
def LeadsTo (settings : Settings) (kernel : Kernel) (c d : State × Nat) : Prop :=
  Leads (next settings kernel) (Ended settings kernel) c d

theorem next_step {s t : State} {n : Nat} {i : Input} (hinput : kernel.input s n = i)
    (hstep : step settings s i = some t) : next settings kernel (s, n) = some (t, n + i.calls) := by
  simp only [next, hinput, hstep, Option.map_some]

theorem leadsTo_step {s t : State} {n : Nat} {i : Input} (hidle : s.pc ≠ .idle)
    (hinput : kernel.input s n = i) (hstep : step settings s i = some t) :
    LeadsTo settings kernel (s, n) (t, n + i.calls) := by
  have hnext := next_step hinput hstep
  refine .one ?_ hnext
  rintro (hpc | ⟨-, hnone⟩)
  · exact hidle hpc
  · rw [hnext] at hnone
    cases hnone

/-- A call in the main coroutine. -/
structure Blocks (s : State) : Prop where
  isMain : s.session.isMain = true
  quiet : s.timer.resetting = false
  fd : 0 ≤ s.fd

theorem step_socket {s : State} (hquiet : s.timer.resetting = false) (hidle : s.pc ≠ .idle) (fd : Int)
    (errno : Errno) : step settings s (.socket fd errno) = socket settings s fd errno := by
  simp only [step, hquiet, if_neg Bool.false_ne_true, if_neg hidle]

/-- In the main coroutine `connect_hook` is its system call. -/
theorem step_connect {s : State} (hquiet : s.timer.resetting = false) (hmain : s.session.isMain = true)
    (hpc : s.pc = .connect) (result : ConnectResult) :
    step settings s (.connect result) =
      match result with
      | .ok => some (connectDone s)
      | .failed errno => some (connectError s errno) := by
  cases result <;>
    simp only [step, hquiet, hpc, reduceCtorEq, if_false, connect, hmain, not_true_eq_false, and_false, true_or,
      if_true]

/-- The number that `socket()` gives behind a `close`. -/
theorem socket_free (kernel : Kernel) {s : State} (hfd : 0 ≤ s.fd)
    (hfree : s.session.descriptors.owner s.fd = none) (n : Nat) : ∃ fd descriptors, 0 ≤ fd ∧
      s.session.descriptors.socket fd = some descriptors ∧
        ∀ inCall, s.pc = .resetSocket inCall ∨ s.pc = .errSocket →
          kernel.input s n = .socket fd s.errno := by
  have hsocket : ∀ fd, 0 ≤ fd → s.session.descriptors.owner fd = none →
      ∃ descriptors, s.session.descriptors.socket fd = some descriptors := by
    intro fd hpos hnone
    rw [Descriptors.socket, if_neg (by omega), if_pos ⟨hpos, hnone⟩]
    exact ⟨_, rfl⟩
  by_cases hgiven : 0 ≤ kernel.socket n ∧ s.session.descriptors.owner (kernel.socket n) = none
  · obtain ⟨descriptors, hsome⟩ := hsocket _ hgiven.1 hgiven.2
    refine ⟨kernel.socket n, descriptors, hgiven.1, hsome, fun inCall hpc => ?_⟩
    rcases hpc with hpc | hpc <;> simp only [Kernel.input, hpc, if_pos hgiven]
  · obtain ⟨descriptors, hsome⟩ := hsocket _ hfd hfree
    refine ⟨s.fd, descriptors, hfd, hsome, fun inCall hpc => ?_⟩
    rcases hpc with hpc | hpc <;> simp only [Kernel.input, hpc, if_neg hgiven]

/-! ### Connecting -/

/-- At the head of the loop that connects, after `n` calls; the connection is as it was. -/
structure AtLoop (connection : TcpConnection) (n : Nat) (c : State × Nat) : Prop where
  blocks : Blocks c.1
  inTime : c.1.isTimeout = false
  connection : c.1.session.connection = connection
  pc : c.1.pc = .connectLoop
  calls : c.2 = n

/-- Behind that loop. -/
structure AtConnected (connection : TcpConnection) (n : Nat) (c : State × Nat) : Prop where
  blocks : Blocks c.1
  connection : c.1.session.connection = {connection with state := .connected}
  pc : c.1.pc = .connected
  calls : c.2 = n

/-- A connection that is up is not made again. -/
theorem atLoop_connected {connection : TcpConnection} {c : State × Nat} {n : Nat} (h : AtLoop connection n c)
    (hstate : connection.state = .connected) :
    ∃ d, AtConnected connection n d ∧ LeadsTo settings kernel c d := by
  obtain ⟨s, m⟩ := c
  obtain ⟨hblocks, hinTime, hconnection, hpc, rfl⟩ := h
  dsimp only at hblocks hinTime hconnection hpc
  have hidle : s.pc ≠ .idle := by rw [hpc]; decide
  have hstep : step settings s .advance = some {s with pc := .connected} := by
    rw [step_advance hblocks.quiet hidle]
    simp only [advance, hpc, hconnection, hstate, or_true, if_true]
  refine ⟨_, ?_, leadsTo_step hidle (by simp only [Kernel.input, hpc]) hstep⟩
  exact ⟨⟨hblocks.isMain, hblocks.quiet, hblocks.fd⟩, hconnection.trans (by rw [← hstate]), rfl, rfl⟩

/-- The way to the next connect. -/
theorem atLoop_connect {connection : TcpConnection} {s : State} {n m : Nat}
    (h : AtLoop connection n (s, m)) (hstate : connection.state ≠ .connected) :
    LeadsTo settings kernel (s, m) ({s with pc := .connect}, n) := by
  obtain ⟨hblocks, hinTime, hconnection, hpc, rfl⟩ := h
  dsimp only at hblocks hinTime hconnection hpc
  have hidle : s.pc ≠ .idle := by rw [hpc]; decide
  refine leadsTo_step (i := .advance) hidle (by simp only [Kernel.input, hpc]) ?_
  rw [step_advance hblocks.quiet hidle]
  simp only [advance, hpc, hconnection, hinTime, Bool.false_eq_true, false_or, if_neg hstate]

theorem atLoop_ok {connection : TcpConnection} {c : State × Nat} {n : Nat} (h : AtLoop connection n c)
    (hstate : connection.state ≠ .connected) (hok : kernel.connect n = .ok) :
    ∃ d, AtConnected connection (n + 1) d ∧ LeadsTo settings kernel c d := by
  obtain ⟨s, m⟩ := c
  have hconnect := @atLoop_connect settings kernel _ _ _ _ h hstate
  obtain ⟨hblocks, -, hconnection, -, rfl⟩ := h
  dsimp only at hblocks hconnection
  have hstep := @step_connect settings {s with pc := .connect} hblocks.quiet hblocks.isMain rfl .ok
  refine ⟨_, ?_, hconnect.trans (leadsTo_step (show Pc.connect ≠ .idle by decide) ?_ hstep)⟩
  · exact ⟨⟨hblocks.isMain, hblocks.quiet, hblocks.fd⟩, by rw [← hconnection]; rfl, rfl, rfl⟩
  · rw [← hok]
    rfl

/-- A connect that fails is followed by a new socket. -/
theorem atLoop_failed {connection : TcpConnection} {c : State × Nat} {n : Nat} (h : AtLoop connection n c)
    (hstate : connection.state ≠ .connected) {errno : Errno} (hfailed : kernel.connect n = .failed errno) :
    ∃ s, Blocks s ∧ s.isTimeout = false ∧ s.session.connection = connection ∧ s.pc = .connectFailed ∧
      s.errno = errno ∧ LeadsTo settings kernel c (s, n + 1) := by
  obtain ⟨s, m⟩ := c
  have hconnect := @atLoop_connect settings kernel _ _ _ _ h hstate
  obtain ⟨hblocks, hinTime, hconnection, -, rfl⟩ := h
  dsimp only at hblocks hinTime hconnection hconnect
  -- `connect`, `close` and `socket`
  obtain ⟨t, ht⟩ : ∃ t, t = connectError {s with pc := .connect} errno := ⟨_, rfl⟩
  have htpc : t.pc = .resetFd true := by rw [ht]; rfl
  have htfd : t.fd = s.fd := by rw [ht]; rfl
  have htquiet : t.timer.resetting = false := by rw [ht]; exact hblocks.quiet
  have hfailedStep := @step_connect settings {s with pc := .connect} hblocks.quiet hblocks.isMain rfl
    (.failed errno)
  have hidle : t.pc ≠ .idle := by rw [htpc]; decide
  have hclose : step settings t .advance = some {t with
      pc := .resetSocket true
      session := {t.session with descriptors := t.session.descriptors.close t.fd}} := by
    rw [step_advance htquiet hidle]
    simp only [advance, htpc, closeFd]
    rw [if_neg (by rw [htfd]; have := hblocks.fd; omega)]
  obtain ⟨u, hu⟩ : ∃ u : State, u = {t with
      pc := .resetSocket true
      session := {t.session with descriptors := t.session.descriptors.close t.fd}} := ⟨_, rfl⟩
  rw [← hu] at hclose
  have hupc : u.pc = .resetSocket true := by rw [hu]
  have huquiet : u.timer.resetting = false := by rw [hu]; exact htquiet
  have hufree : u.session.descriptors.owner u.fd = none := by
    rw [hu]
    exact Function.update_self ..
  have hufd : 0 ≤ u.fd := by
    rw [hu]
    show 0 ≤ t.fd
    rw [htfd]
    exact hblocks.fd
  obtain ⟨fd, descriptors, hfd, hdescriptors, hinput⟩ := socket_free kernel hufd hufree (m + 1)
  have hsocket : step settings u (.socket fd u.errno) = some {u with
      fd, session := {u.session with descriptors}, pc := .connectFailed} := by
    rw [step_socket huquiet (by rw [hupc]; decide)]
    simp only [socket, hdescriptors, Option.bind_eq_bind, Option.bind_some, hupc]
  obtain ⟨v, hv⟩ : ∃ v : State, v = {u with
      fd, session := {u.session with descriptors}, pc := .connectFailed} := ⟨_, rfl⟩
  refine ⟨v, ⟨?_, ?_, ?_⟩, ?_, ?_, by rw [hv], by rw [hv, hu, ht]; rfl, ?_⟩
  · rw [hv, hu, ht]
    exact hblocks.isMain
  · rw [hv]
    exact huquiet
  · rw [hv]
    exact hfd
  · rw [hv, hu, ht]
    exact hinTime
  · rw [hv, hu, ht]
    exact hconnection
  · have hfail := @leadsTo_step settings kernel {s with pc := .connect} _ m _
      (show Pc.connect ≠ .idle by decide) (by rw [← hfailed]; rfl) hfailedStep
    rw [← ht] at hfail
    have hclosed := @leadsTo_step settings kernel _ _ (m + 1) _ hidle (by simp only [Kernel.input, htpc]) hclose
    have hopened := leadsTo_step (by rw [hupc]; decide) (hinput true (.inl hupc)) hsocket
    exact hconnect.trans (hfail.trans (hclosed.trans (hv ▸ hopened)))

/-- After a failure that ends the loop the call returns. -/
theorem atLoop_final {connection : TcpConnection} {c : State × Nat} {n : Nat} (h : AtLoop connection n c)
    (hstate : connection.state ≠ .connected) {errno : Errno} (hfailed : kernel.connect n = .failed errno)
    (hfinal : Errno.Final errno) : Finishes settings kernel c := by
  obtain ⟨s, hblocks, hinTime, -, hpc, herrno, hends⟩ := @atLoop_failed settings kernel _ _ _ h hstate _ hfailed
  have hidle : s.pc ≠ .idle := by rw [hpc]; decide
  have hstep : step settings s .advance = some (connectFailed settings s) := by
    rw [step_advance hblocks.quiet hidle]
    simp only [advance, hpc]
  have hreturns := hends.trans (leadsTo_step hidle (by simp only [Kernel.input, hpc]) hstep)
  refine hreturns.eventually_iff.mpr (.now (.inl ?_))
  show (connectFailed settings s).pc = .idle
  unfold connectFailed
  rw [if_neg (by rw [hinTime]; decide)]
  split
  · rfl
  rename_i hrefused
  rw [if_pos]
  · rfl
  · rw [herrno] at hrefused ⊢
    exact hfinal.resolve_left hrefused

/-- After any other the loop goes on. -/
theorem atLoop_again {connection : TcpConnection} {c : State × Nat} {n : Nat} (h : AtLoop connection n c)
    (hstate : connection.state ≠ .connected) {errno : Errno} (hfailed : kernel.connect n = .failed errno)
    (hfinal : ¬ Errno.Final errno) :
    ∃ d, AtLoop connection (n + 1) d ∧ LeadsTo settings kernel c d := by
  obtain ⟨s, hblocks, hinTime, hconnection, hpc, herrno, hends⟩ :=
    @atLoop_failed settings kernel _ _ _ h hstate _ hfailed
  have hidle : s.pc ≠ .idle := by rw [hpc]; decide
  have hagain : connectFailed settings s = {s with pc := .connectLoop} := by
    unfold connectFailed
    rw [if_neg (by rw [hinTime]; decide), herrno, if_neg fun hno => hfinal (.inl hno),
      if_neg fun hno => hfinal (.inr hno)]
  have hstep : step settings s .advance = some {s with pc := .connectLoop} := by
    rw [step_advance hblocks.quiet hidle, ← hagain]
    simp only [advance, hpc]
  refine ⟨_, ?_, hends.trans (leadsTo_step hidle (by simp only [Kernel.input, hpc]) hstep)⟩
  exact ⟨⟨hblocks.isMain, hblocks.quiet, hblocks.fd⟩, hinTime, hconnection, rfl, rfl⟩

theorem atLoop_retries {connection : TcpConnection} {c : State × Nat} (h : AtLoop connection 0 c)
    (hstate : connection.state ≠ .connected) {n : Nat} (hretries : kernel.Retries n) :
    ∃ d, AtLoop connection n d ∧ (Finishes settings kernel c ↔ Finishes settings kernel d) := by
  induction n with
  | zero => exact ⟨c, h, Iff.rfl⟩
  | succ n ih =>
    obtain ⟨d, hd, hends⟩ := ih fun m hm => hretries m (by omega)
    obtain ⟨errno, hfailed, hfinal⟩ := hretries n (by omega)
    obtain ⟨e, he, hends'⟩ := atLoop_again hd hstate hfailed hfinal
    exact ⟨e, he, hends.trans hends'.eventually_iff⟩

/-- Connects that all fail, none in a way that ends the loop, are made for ever. -/
theorem atLoop_forever {connection : TcpConnection} {c : State × Nat} {n : Nat} (h : AtLoop connection n c)
    (hstate : connection.state ≠ .connected) (hretries : ∀ m, kernel.Retries m) : ¬ Finishes settings kernel c := by
  refine not_eventually_of_leads (Q := fun c => ∃ n, AtLoop connection n c) ?_ ⟨n, h⟩
  rintro c ⟨n, hc⟩
  obtain ⟨errno, hfailed, hfinal⟩ := hretries (n + 1) n (by omega)
  obtain ⟨d, hd, hgoes⟩ := atLoop_again hc hstate hfailed hfinal
  exact ⟨d, hgoes, n + 1, hd⟩

/-! ### Reading -/

/-- Where a call stands whose packet is written, and the number of places that may still come
before the next read. -/
inductive Place (s : State) : Nat → Prop where
  | errSocket (hpc : s.pc = .errSocket) (hfree : s.session.descriptors.owner s.fd = none) : Place s 0
  | errDeal (hpc : s.pc = .errDeal) : Place s 1
  | failed (hpc : s.pc = .input) (hreturned : s.session.pc = .returned .input)
      (h : s.session.connection.isOverTime = true ∨ s.session.connection.state = .closed) : Place s 2
  | read {n : Int} (hpc : s.pc = .input) (hread : s.session.pc = .read n)
      (hup : s.session.connection.state = .connected) : Place s 3
  | input (hpc : s.pc = .input) (hinput : s.session.pc = .input)
      (hup : s.session.connection.state = .connected) : Place s 4
  | find (hpc : s.pc = .find) (hup : s.session.connection.state = .connected) : Place s 5
  | executed (hpc : s.pc = .execute) (hreturned : s.session.pc = .returned .execute)
      (hup : s.session.connection.state = .connected) : Place s 6
  | execute (hpc : s.pc = .execute) (hexecute : s.session.pc = .execute)
      (hup : s.session.connection.state = .connected) : Place s 7
  | received (hpc : s.pc = .input) (hreturned : s.session.pc = .returned .input)
      (hover : s.session.connection.isOverTime = false)
      (hup : s.session.connection.state = .connected) : Place s 8
  | written (hpc : s.pc = .output) (hreturned : s.session.pc = .returned .output)
      (hup : s.session.connection.state = .connected) : Place s 8

/-- How far it may be to the end of a call: the calls of the kernel that may succeed, the places
before the next read, and the bytes that may be decoded. -/
def Far (n : Nat) (far : Nat ×ₗ Nat ×ₗ Nat) (c : State × Nat) : Prop :=
  Blocks c.1 ∧ c.1.session.Buffers ∧ ∃ place, Place c.1 place ∧
    far = toLex (n - c.2, toLex (place, c.1.session.connection.readBuffer.readable.length))

/-- The call goes on in a place further down. -/
theorem far_place {n m place place' : Nat} {t : State} (hblocks : Blocks t) (hbuffers : t.session.Buffers)
    (hplace : Place t place') (hless : place' < place) (readable : Nat) :
    ∃ far < toLex (n - m, toLex (place, readable)), Far n far (t, m) := by
  refine ⟨_, ?_, hblocks, hbuffers, place', hplace, rfl⟩
  exact Prod.Lex.toLex_lt_toLex.mpr (.inr ⟨rfl, Prod.Lex.toLex_lt_toLex.mpr (.inl hless)⟩)

/-- A call that is behind its writes ends, or goes on in a state that is less far from the end. -/
def Nears (settings : Settings) (kernel : Kernel) (n place : Nat) (c : State × Nat) : Prop :=
  Ended settings kernel c ∨ ∃ d, next settings kernel c = some d ∧
    (Ended settings kernel d ∨
      ∃ far < toLex (n - c.2, toLex (place, c.1.session.connection.readBuffer.readable.length)), Far n far d)

theorem nears_advance {n m place : Nat} {s t : State} (hinput : kernel.input s m = .advance)
    (hquiet : s.timer.resetting = false) (hidle : s.pc ≠ .idle) (hstep : advance settings s = some t)
    (hend : t.pc = .idle ∨ ∃ place' < place, Place t place' ∧ Blocks t ∧ t.session.Buffers) :
    Nears settings kernel n place (s, m) := by
  refine .inr ⟨_, next_step hinput ((step_advance hquiet hidle).trans hstep), ?_⟩
  rcases hend with hpc | ⟨place', hless, hplace, hblocks, hbuffers⟩
  · exact .inl (.inl hpc)
  · exact .inr (far_place hblocks hbuffers hplace hless _)

theorem nears_errSocket {n m : Nat} {s : State} (hblocks : Blocks s) (hpc : s.pc = .errSocket)
    (hfree : s.session.descriptors.owner s.fd = none) : Nears settings kernel n 0 (s, m) := by
  obtain ⟨fd, descriptors, -, hdescriptors, hinput⟩ := socket_free kernel hblocks.fd hfree m
  have hsocket : step settings s (.socket fd s.errno) = some (failed settings {s with
      fd, session := {s.session with descriptors}}) := by
    rw [step_socket hblocks.quiet (by rw [hpc]; decide)]
    simp only [socket, hdescriptors, Option.bind_eq_bind, Option.bind_some, hpc]
  refine .inr ⟨_, next_step (hinput false (.inr hpc)) hsocket, .inl (.inl ?_)⟩
  dsimp only
  unfold failed
  split <;> rfl

theorem nears_errDeal {n m : Nat} {s : State} (hblocks : Blocks s) (hbuffers : s.session.Buffers)
    (hpc : s.pc = .errDeal) : Nears settings kernel n 1 (s, m) := by
  have hclose : advance settings s = some {s with
      pc := .errSocket, session := {s.session with descriptors := s.session.descriptors.close s.fd}} := by
    simp only [advance, hpc, closeFd]
    rw [if_neg (by have := hblocks.fd; omega)]
  refine nears_advance (by simp only [Kernel.input, hpc]) hblocks.quiet (by rw [hpc]; decide) hclose (.inr ⟨0, ?_⟩)
  refine ⟨by omega, .errSocket rfl (Function.update_self ..), ⟨hblocks.isMain, hblocks.quiet, hblocks.fd⟩, ?_⟩
  exact hbuffers.same rfl rfl rfl (.inl rfl)

/-- Behind `input`. -/
theorem nears_checkInput {n m place : Nat} {s : State} (hblocks : Blocks s) (hbuffers : s.session.Buffers)
    (hpc : s.pc = .input) (hreturned : s.session.pc = .returned .input)
    (hplace : 7 < place ∧ s.session.connection.state = .connected ∨
      1 < place ∧ (s.session.connection.isOverTime = true ∨ s.session.connection.state = .closed)) :
    Nears settings kernel n place (s, m) := by
  refine nears_advance (by simp only [Kernel.input, hpc, hreturned]) hblocks.quiet (by rw [hpc]; decide)
    (advance_checkInput hpc hreturned) (.inr ?_)
  unfold checkInput
  split
  · exact ⟨1, by omega, .errDeal rfl, ⟨hblocks.isMain, hblocks.quiet, hblocks.fd⟩, hbuffers⟩
  rename_i hover
  split
  · exact ⟨1, by omega, .errDeal rfl, ⟨hblocks.isMain, hblocks.quiet, hblocks.fd⟩, hbuffers⟩
  rename_i hopen
  obtain ⟨hlarge, hup⟩ := hplace.resolve_right (by
    rintro ⟨-, h | h⟩
    · exact hover h
    · exact hopen h)
  refine ⟨7, hlarge, .execute rfl rfl hup, ⟨hblocks.isMain, hblocks.quiet, hblocks.fd⟩, ?_⟩
  exact hbuffers.same rfl rfl rfl (.inr ⟨rfl, rfl⟩)

theorem nears_find {n m : Nat} {s : State} (hblocks : Blocks s) (hbuffers : s.session.Buffers)
    (hpc : s.pc = .find) (hup : s.session.connection.state = .connected) :
    Nears settings kernel n 5 (s, m) := by
  have hfind : advance settings s = some (find s) := by simp only [advance, hpc]
  refine nears_advance (by simp only [Kernel.input, hpc]) hblocks.quiet (by rw [hpc]; decide) hfind ?_
  unfold find
  split
  · exact .inl rfl
  · refine .inr ⟨4, by omega, .input rfl rfl hup, ⟨hblocks.isMain, hblocks.quiet, hblocks.fd⟩, ?_⟩
    exact hbuffers.same rfl rfl rfl (.inr ⟨rfl, rfl⟩)

/-- Behind `output`. -/
theorem nears_checkOutput {n m : Nat} {s : State} (hblocks : Blocks s) (hbuffers : s.session.Buffers)
    (hpc : s.pc = .output) (hreturned : s.session.pc = .returned .output)
    (hup : s.session.connection.state = .connected) : Nears settings kernel n 8 (s, m) := by
  have hcheck : advance settings s = some (checkOutput s) := by simp only [advance, hpc, hreturned]
  refine nears_advance (by simp only [Kernel.input, hpc, hreturned]) hblocks.quiet (by rw [hpc]; decide) hcheck
    (.inr ?_)
  unfold checkOutput
  split
  · exact ⟨1, by omega, .errDeal rfl, ⟨hblocks.isMain, hblocks.quiet, hblocks.fd⟩, hbuffers⟩
  · exact ⟨5, by omega, .find rfl hup, ⟨hblocks.isMain, hblocks.quiet, hblocks.fd⟩, hbuffers⟩

/-- A step of one of the connection's functions, with the session it leaves. -/
theorem nears_session {n m place : Nat} {s : State} {i : Input} {j : Session.Input}
    (hinput : kernel.input s m = i)
    (hstep : step settings s i = (s.session.step noServer j).map fun session => {s with session})
    (hsome : s.pc = .input ∨ ∃ session, s.session.step noServer j = some session)
    (hend : ∀ session, s.session.step noServer j = some session →
      ∃ far < toLex (n - m, toLex (place, s.session.connection.readBuffer.readable.length)),
        Far n far ({s with session}, m + i.calls)) : Nears settings kernel n place (s, m) := by
  cases hsession : s.session.step noServer j with
  | none =>
    rw [hsession] at hstep hsome
    have hpc := hsome.resolve_right (by rintro ⟨session, h⟩; cases h)
    exact .inl (.inr ⟨hpc, by simp only [next, hinput, hstep, Option.map_none]⟩)
  | some session =>
    rw [hsession] at hstep
    exact .inr ⟨_, next_step hinput hstep, .inr (hend session hsession)⟩

theorem nears_input {n m : Nat} {s : State} (hblocks : Blocks s) (hbuffers : s.session.Buffers)
    (hpc : s.pc = .input) (hinput : s.session.pc = .input) (hup : s.session.connection.state = .connected) :
    Nears settings kernel n 4 (s, m) := by
  have hstep : step settings s .advance =
      (s.session.step noServer .advance).map fun session => {s with session} := by
    rw [step_advance hblocks.quiet (by rw [hpc]; decide)]
    simp only [advance, hpc, hinput, sessionStep]
  refine nears_session (i := .advance) (by simp only [Kernel.input, hpc, hinput]) hstep (.inl hpc)
    fun session hsession => ?_
  have henter : s.session.enterInput = some session := by simpa only [Session.step, hinput] using hsession
  have hopen := Session.enterInput_open (by rw [hinput]; rfl) henter
  have hblocks' : Blocks {s with session} := ⟨hopen.isMain.trans hblocks.isMain, hblocks.quiet, hblocks.fd⟩
  rcases Session.enterInput_cases henter with ⟨rfl, hover⟩ | ⟨-, -, hnext⟩
  · have hfailed : s.session.connection.isOverTime = true ∨ s.session.connection.state = .closed := by
      refine hover.imp_right fun hdown => hdown.resolve_right ?_
      rw [hup]
      decide
    exact far_place hblocks' (hbuffers.step hsession) (.failed hpc rfl hfailed) (by omega) _
  · obtain ⟨readBuffer, -, hread⟩ := Session.nextRead_some hnext
    have hplace : Place {s with session} 3 := .read hpc (by rw [hread]) (hopen.state.trans hup)
    exact far_place hblocks' (hbuffers.step hsession) hplace (by omega) _

/-- A read that may succeed is one less of them; any other fails, and the call with it. -/
theorem nears_read {n m : Nat} {s : State} {size : Int} (hdead : kernel.DeadAfter n) (hblocks : Blocks s)
    (hbuffers : s.session.Buffers) (hpc : s.pc = .input) (hread : s.session.pc = .read size)
    (hup : s.session.connection.state = .connected) : Nears settings kernel n 3 (s, m) := by
  have hstep : ∀ result, step settings s (.read result) =
      (s.session.step noServer (.read result)).map fun session => {s with session} := by
    intro result
    simp only [step, hblocks.quiet, hpc, reduceCtorEq, Bool.false_eq_true, if_false, if_true, sessionStep]
  refine nears_session (by simp only [Kernel.input, hpc, hread]) (hstep (kernel.read m size))
    (.inl hpc) fun session hsession => ?_
  have hbuffers' := hbuffers.step hsession
  have hcallee : s.session.pc.callee = .input := by rw [hread]; rfl
  have hreturns : s.session.readReturns size (kernel.read m size) = some session := by
    simpa only [Session.step, hread, hblocks.isMain] using hsession
  have hframe := Session.step_frame hsession
  have hblocks' : Blocks {s with session} := ⟨hframe.isMain.trans hblocks.isMain, hblocks.quiet, hblocks.fd⟩
  -- a read that brings nothing
  have hnothing : (kernel.read m size = .eof ∨ kernel.read m size = .error) → Place {s with session} 2 := by
    intro hresult
    rcases Session.readReturns_other hresult hreturns with ⟨hover, rfl⟩ | ⟨-, rfl⟩
    · exact .failed hpc rfl (.inl hover)
    · obtain ⟨hconnection, -⟩ := Session.closePath_spec (s := s.session) (by rw [hup]; decide)
      refine .failed hpc ?_ (.inr (by rw [hconnection]))
      rw [Session.closePath_pc, if_pos hblocks.isMain]
  by_cases hm : n ≤ m
  · have hfar := far_place (n := n) (m := m + 1) hblocks' hbuffers' (hnothing (.inr (hdead.read m size hm)))
      (show 2 < 3 by omega) s.session.connection.readBuffer.readable.length
    have hzero : n - (m + 1) = n - m := by omega
    rw [hzero] at hfar
    exact hfar
  · have hplace : ∃ place, Place {s with session} place := by
      rcases Session.readResult_cases (kernel.read m size) with hresult | ⟨bytes, hresult⟩
      · exact ⟨2, hnothing hresult⟩
      rw [hresult] at hreturns
      have hstate : session.connection.state = .connected := by
        rcases Session.readReturns_open hcallee hreturns with hopen | ⟨h | h, -⟩
        · exact hopen.state.trans hup
        · cases h
        · cases h
      obtain ⟨-, -, readBuffer, -, ⟨rfl, -⟩ | ⟨hnext, -⟩⟩ := Session.readReturns_data hreturns
      · cases hover : s.session.connection.isOverTime with
        | true => exact ⟨2, .failed hpc rfl (.inl hover)⟩
        | false => exact ⟨8, .received hpc rfl hover hstate⟩
      · obtain ⟨readBuffer', -, hread'⟩ := Session.nextRead_some hnext
        exact ⟨3, .read hpc (by rw [hread']) hstate⟩
    obtain ⟨place, hplace⟩ := hplace
    refine ⟨_, ?_, hblocks', hbuffers', place, hplace, rfl⟩
    refine Prod.Lex.toLex_lt_toLex.mpr (.inl ?_)
    show n - (m + 1) < n - m
    omega

/-- A packet that is decoded is some bytes gone. -/
theorem nears_execute {n m : Nat} {s : State} (hblocks : Blocks s) (hbuffers : s.session.Buffers)
    (hpc : s.pc = .execute) (hexecute : s.session.pc = .execute)
    (hup : s.session.connection.state = .connected) : Nears settings kernel n 7 (s, m) := by
  have hstep : step settings s .advance =
      (s.session.step noServer .advance).map fun session => {s with session} := by
    rw [step_advance hblocks.quiet (by rw [hpc]; decide)]
    simp only [advance, hpc, hexecute, sessionStep]
  have hsome : ∃ session, s.session.step noServer .advance = some session := by
    rw [Session.step_decode hexecute]
    exact Session.decodeNext_some hbuffers.readBuffer hbuffers.client
  refine nears_session (i := .advance) (by simp only [Kernel.input, hpc]) hstep (.inr hsome)
    fun session hsession => ?_
  have hdecode : s.session.decodeNext noServer = some session :=
    (Session.step_decode hexecute).symm.trans hsession
  have hopen := Session.decodeNext_open (by rw [hexecute]; rfl) hdecode
  have hblocks' : Blocks {s with session} := ⟨hopen.isMain.trans hblocks.isMain, hblocks.quiet, hblocks.fd⟩
  have hstate := hopen.state.trans hup
  obtain ⟨-, ⟨hsame, ⟨p, hp⟩, hreadable⟩ | ⟨hreturned, -⟩⟩ := decodeNext_receive hbuffers.readBuffer hdecode
  · refine ⟨_, ?_, hblocks', hbuffers.step hsession, 7, .execute hpc (hsame.trans hexecute) hstate, rfl⟩
    refine Prod.Lex.toLex_lt_toLex.mpr (.inr ⟨rfl, Prod.Lex.toLex_lt_toLex.mpr (.inr ⟨rfl, ?_⟩)⟩)
    show session.connection.readBuffer.readable.length < s.session.connection.readBuffer.readable.length
    rw [hreadable]
    exact receive_length hp
  · exact far_place hblocks' (hbuffers.step hsession) (.executed hpc hreturned hstate) (by omega) _

theorem nears_executed {n m : Nat} {s : State} (hblocks : Blocks s) (hbuffers : s.session.Buffers)
    (hpc : s.pc = .execute) (hreturned : s.session.pc = .returned .execute)
    (hup : s.session.connection.state = .connected) : Nears settings kernel n 6 (s, m) := by
  have hfound : advance settings s = some {s with pc := .find} := by simp only [advance, hpc, hreturned]
  refine nears_advance (by simp only [Kernel.input, hpc]) hblocks.quiet (by rw [hpc]; decide) hfound (.inr ?_)
  exact ⟨5, by omega, .find rfl hup, ⟨hblocks.isMain, hblocks.quiet, hblocks.fd⟩, hbuffers⟩

/-- **A call that is behind its writes ends**, when from some call on the kernel only fails. -/
theorem far_ends {n : Nat} (hdead : kernel.DeadAfter n) {far : Nat ×ₗ Nat ×ₗ Nat} {c : State × Nat}
    (h : Far n far c) : Finishes settings kernel c := by
  refine eventually_of_variant (Q := Far n) ?_ h
  rintro far ⟨s, m⟩ ⟨hblocks, hbuffers, place, hplace, rfl⟩
  have hnears : Nears settings kernel n place (s, m) := by
    cases hplace with
    | errSocket hpc hfree => exact nears_errSocket hblocks hpc hfree
    | errDeal hpc => exact nears_errDeal hblocks hbuffers hpc
    | failed hpc hreturned hfailed =>
      exact nears_checkInput hblocks hbuffers hpc hreturned (.inr ⟨by omega, hfailed⟩)
    | read hpc hread hup => exact nears_read hdead hblocks hbuffers hpc hread hup
    | input hpc hinput hup => exact nears_input hblocks hbuffers hpc hinput hup
    | find hpc hup => exact nears_find hblocks hbuffers hpc hup
    | executed hpc hreturned hup => exact nears_executed hblocks hbuffers hpc hreturned hup
    | execute hpc hexecute hup => exact nears_execute hblocks hbuffers hpc hexecute hup
    | received hpc hreturned hover hup =>
      exact nears_checkInput hblocks hbuffers hpc hreturned (.inl ⟨by omega, hup⟩)
    | written hpc hreturned hup => exact nears_checkOutput hblocks hbuffers hpc hreturned hup
  exact hnears

/-! ### Writing -/

/-- In front of the write that is the `n`th call and is given `size` bytes. -/
structure Writing (n : Nat) (size : Int) (c : State × Nat) : Prop where
  blocks : Blocks c.1
  buffers : c.1.session.Buffers
  up : c.1.session.connection.state = .connected
  inTime : c.1.session.connection.isOverTime = false
  pc : c.1.pc = .output
  write : c.1.session.pc = .write size
  calls : c.2 = n

/-- Behind `output`. -/
def Written (c : State × Nat) : Prop := Blocks c.1 ∧ c.1.session.Buffers ∧ Place c.1 8

theorem Written.ends {n : Nat} (hdead : kernel.DeadAfter n) {c : State × Nat} (h : Written c) :
    Finishes settings kernel c := far_ends hdead ⟨h.1, h.2.1, 8, h.2.2, rfl⟩

/-- The loop of `output` goes on while there is something to write. -/
theorem nextWrite_up {s : Session} (hup : s.connection.state = .connected) :
    s.nextWrite =
      if s.connection.writeBuffer.readAble = 0 then s.returns .output
      else {s with pc := .write s.connection.writeBuffer.readAble} := by
  unfold Session.nextWrite
  rw [if_neg (by rw [hup]; decide)]

theorem written_up {s : Session} (hup : s.connection.state = .connected) (hover : s.connection.isOverTime = false)
    (hbuffer : WellFormed s.connection.writeBuffer) : s.written = s.nextWrite := by
  have := hbuffer.readAble_nonneg
  unfold Session.written
  split
  · rw [nextWrite_up hup, if_pos (by omega)]
  · rw [if_neg (by rw [hover]; decide)]

/-- A write, and the loop behind it. -/
theorem writing_step {n : Nat} {size : Int} {c : State × Nat} (h : Writing n size c) :
    ∃ d, (kernel.rest n size ≤ 0 ∧ Written d ∨ 0 < kernel.rest n size ∧ Writing (n + 1) (kernel.rest n size) d) ∧
      LeadsTo settings kernel c d := by
  obtain ⟨s, m⟩ := c
  obtain ⟨hblocks, hbuffers, hup, hover, hpc, hwrite, rfl⟩ := h
  dsimp only at hblocks hbuffers hup hover hpc hwrite
  have hsize : size = s.session.connection.writeBuffer.readAble := hbuffers.total size (by rw [hwrite]; rfl)
  -- the session behind `write_hook`
  obtain ⟨writeBuffer, hwf, hreadAble, hreturns⟩ : ∃ writeBuffer, WellFormed writeBuffer ∧
      writeBuffer.readAble = kernel.rest m size ∧ s.session.writeReturns size (kernel.write m size) =
        some (s.session.setWriteBuffer writeBuffer).written := by
    unfold Kernel.rest
    cases hresult : kernel.write m size with
    | sent k => exact Session.writeReturns_sent hbuffers hsize (kernel.sent m size k hresult)
    | failed => exact ⟨s.session.connection.writeBuffer, hbuffers.writeBuffer, hsize.symm, rfl⟩
  rw [@written_up (s.session.setWriteBuffer writeBuffer) hup hover hwf,
    @nextWrite_up (s.session.setWriteBuffer writeBuffer) hup] at hreturns
  have hsession : s.session.step noServer (.write (kernel.write m size)) =
      s.session.writeReturns size (kernel.write m size) := by
    simp only [Session.step, hwrite, hblocks.isMain]
  have hstep : step settings s (.write (kernel.write m size)) = some {s with
      session :=
        if writeBuffer.readAble = 0 then (s.session.setWriteBuffer writeBuffer).returns .output
        else {s.session.setWriteBuffer writeBuffer with pc := .write writeBuffer.readAble}} := by
    simp only [step, hblocks.quiet, hpc, reduceCtorEq, Bool.false_eq_true, if_false, if_true, sessionStep,
      hsession, hreturns, Option.map_some]
    rfl
  have hgoes := @leadsTo_step settings kernel s _ m (.write (kernel.write m size)) (by rw [hpc]; decide)
    (by simp only [Kernel.input, hpc, hwrite]) hstep
  have hnonneg := hwf.readAble_nonneg
  by_cases hzero : writeBuffer.readAble = 0
  · rw [if_pos hzero] at hgoes
    refine ⟨_, .inl ⟨show kernel.rest m size ≤ 0 by omega, ⟨hblocks.isMain, hblocks.quiet, hblocks.fd⟩, ?_,
      .written hpc rfl hup⟩, hgoes⟩
    exact hbuffers.sent hwf
  · rw [if_neg hzero] at hgoes
    refine ⟨_, .inr ⟨show 0 < kernel.rest m size by omega, ⟨hblocks.isMain, hblocks.quiet, hblocks.fd⟩, ?_, hup,
      hover, hpc, ?_, rfl⟩, hgoes⟩
    · exact (hbuffers.sent hwf).writes
    · rw [← hreadAble]

/-- The writes of the loop one after the other. -/
theorem writing_run {n : Nat} {total : Int} {c : State × Nat} (h : Writing n total c) (m : Nat)
    (hleft : ∀ k ≤ m, 0 < kernel.left n total k) :
    ∃ d, Writing (n + m) (kernel.left n total m) d ∧ (Finishes settings kernel c ↔ Finishes settings kernel d) := by
  induction m with
  | zero => exact ⟨c, h, Iff.rfl⟩
  | succ m ih =>
    obtain ⟨d, hd, hends⟩ := ih fun k hk => hleft k (by omega)
    obtain ⟨e, he, hgoes⟩ := @writing_step settings kernel _ _ _ hd
    have hmore : 0 < kernel.rest (n + m) (kernel.left n total m) := hleft (m + 1) (Nat.le_refl _)
    rcases he with ⟨hdone, -⟩ | ⟨-, he⟩
    · omega
    · exact ⟨e, he, hends.trans hgoes.eventually_iff⟩

/-- **The loop of `output` ends** when the writes take everything, and only then. -/
theorem writing_ends_iff {n n' : Nat} (hdead : kernel.DeadAfter n') {total : Int} {c : State × Nat}
    (h : Writing n total c) (htotal : 0 < total) :
    Finishes settings kernel c ↔ ∃ m, kernel.left n total m ≤ 0 := by
  constructor
  · intro hends
    by_contra hno
    have hleft : ∀ m, 0 < kernel.left n total m := fun m => Int.not_le.mp fun hle => hno ⟨m, hle⟩
    refine not_eventually_of_leads (Q := fun c => ∃ m, Writing (n + m) (kernel.left n total m) c) ?_ ⟨0, h⟩ hends
    rintro c ⟨m, hc⟩
    obtain ⟨d, hd, hgoes⟩ := @writing_step settings kernel _ _ _ hc
    have hmore : 0 < kernel.rest (n + m) (kernel.left n total m) := hleft (m + 1)
    rcases hd with ⟨hdone, -⟩ | ⟨-, hd⟩
    · omega
    · exact ⟨d, hgoes, m + 1, hd⟩
  · intro hdone
    -- the first write behind which nothing is left
    have hfirst := Nat.find_spec hdone
    have hbefore : ∀ k < Nat.find hdone, 0 < kernel.left n total k :=
      fun k hk => Int.not_le.mp (Nat.find_min hdone hk)
    cases hm : Nat.find hdone with
    | zero =>
      rw [hm] at hfirst
      exact absurd htotal (Int.not_lt.mpr hfirst)
    | succ m =>
      rw [hm] at hfirst hbefore
      obtain ⟨d, hd, hends⟩ := @writing_run settings kernel _ _ _ h m fun k hk => hbefore k (by omega)
      obtain ⟨e, he, hgoes⟩ := @writing_step settings kernel _ _ _ hd
      have hlast : kernel.rest (n + m) (kernel.left n total m) ≤ 0 := hfirst
      rcases he with ⟨-, he⟩ | ⟨hmore, -⟩
      · exact hends.mpr (hgoes.eventually_iff.mpr (he.ends hdead))
      · omega

/-- From the loop that connects to the loop that writes, unless there is nothing to write. -/
theorem atConnected_output {session : Session} {n : Nat} {c : State × Nat} (hbuffers : session.Buffers)
    (h : AtConnected session.connection n c) :
    ∃ d, ((session.connection.isOverTime = true ∨ session.connection.writeBuffer.readAble = 0) ∧ Written d ∨
      (session.connection.isOverTime = false ∧ session.connection.writeBuffer.readAble ≠ 0) ∧
        Writing n session.connection.writeBuffer.readAble d) ∧ LeadsTo settings kernel c d := by
  obtain ⟨s, m⟩ := c
  obtain ⟨hblocks, hconnection, hpc, rfl⟩ := h
  dsimp only at hblocks hconnection hpc
  obtain ⟨t, ht⟩ : ∃ t, t = enter (setState s .connected) .output .output := ⟨_, rfl⟩
  have htsession : t.session =
      {s.session with connection := {session.connection with state := .connected}, pc := .output} := by
    rw [ht, enter, setState]
    dsimp only
    rw [hconnection]
  have htblocks : Blocks t := by
    rw [ht]
    exact ⟨hblocks.isMain, hblocks.quiet, hblocks.fd⟩
  have htpc : t.pc = .output := by rw [ht]; rfl
  have htbuffers : t.session.Buffers := by
    rw [htsession]
    exact hbuffers.same rfl rfl rfl (.inr ⟨rfl, rfl⟩)
  have hconnected : step settings s .advance = some t := by
    rw [step_advance hblocks.quiet (by rw [hpc]; decide)]
    simp only [advance, hpc, connected, hconnection, ne_eq, not_true_eq_false, if_false, ht]
  have henter : step settings t .advance = some {t with session := t.session.enterOutput} := by
    rw [step_advance htblocks.quiet (by rw [htpc]; decide)]
    have hsession : t.session.pc = .output := by rw [htsession]
    simp only [advance, htpc, hsession, sessionStep, Session.step, Option.map_some]
  have hgoes := (@leadsTo_step settings kernel s t m .advance (by rw [hpc]; decide) (by simp only [Kernel.input, hpc])
    hconnected).trans (leadsTo_step (by rw [htpc]; decide)
      (by simp only [Kernel.input, htpc, htsession]) henter)
  have hup : t.session.connection.state = .connected := by rw [htsession]
  have hover : t.session.connection.isOverTime = session.connection.isOverTime := by rw [htsession]
  have hwrite : t.session.connection.writeBuffer = session.connection.writeBuffer := by rw [htsession]
  refine ⟨_, ?_, hgoes⟩
  unfold Session.enterOutput
  rw [nextWrite_up hup, hover, hwrite]
  split
  · refine .inl ⟨.inl ‹_›, ⟨htblocks.isMain, htblocks.quiet, htblocks.fd⟩, ?_, .written htpc rfl hup⟩
    exact htbuffers.returns .output
  rename_i hinTime
  rw [Bool.not_eq_true] at hinTime
  split
  · refine .inl ⟨.inr ‹_›, ⟨htblocks.isMain, htblocks.quiet, htblocks.fd⟩, ?_, .written htpc rfl hup⟩
    exact htbuffers.returns .output
  · refine .inr ⟨⟨hinTime, ‹_›⟩, ⟨htblocks.isMain, htblocks.quiet, htblocks.fd⟩, ?_, hup, hover.trans hinTime,
      htpc, rfl, rfl⟩
    rw [← hwrite]
    exact htbuffers.writes

/-- Behind the loop that connects, the writes decide. -/
theorem atConnected_ends_iff {session : Session} {n n' : Nat} {c : State × Nat} (hbuffers : session.Buffers)
    (hdead : kernel.DeadAfter n') (h : AtConnected session.connection n c) :
    Finishes settings kernel c ↔ session.connection.isOverTime = true ∨
      ∃ m, kernel.left n session.connection.writeBuffer.readAble m ≤ 0 := by
  obtain ⟨d, hd, hgoes⟩ := @atConnected_output settings kernel _ _ _ hbuffers h
  have hnonneg := hbuffers.writeBuffer.readAble_nonneg
  refine hgoes.eventually_iff.trans ?_
  rcases hd with ⟨hnone, hd⟩ | ⟨⟨hover, hsome⟩, hd⟩
  · refine iff_of_true (hd.ends hdead) (hnone.imp_right fun hzero => ⟨0, ?_⟩)
    show session.connection.writeBuffer.readAble ≤ 0
    omega
  · refine (writing_ends_iff hdead hd (by omega)).trans ?_
    rw [hover]
    exact (or_iff_right Bool.false_ne_true).symm

/-! ### The call -/

namespace Kernel

/-- A connect that ends the loop: it succeeds, or it is refused. -/
def Decides (kernel : Kernel) (n : Nat) : Prop :=
  kernel.connect n = .ok ∨ ∃ errno, kernel.connect n = .failed errno ∧ Errno.Final errno

/-- Every connect that does not decide leaves the loop going on. -/
theorem decides_or (kernel : Kernel) (n : Nat) :
    kernel.Decides n ∨ ∃ errno, kernel.connect n = .failed errno ∧ ¬ Errno.Final errno := by
  cases hresult : kernel.connect n with
  | ok => exact .inl (.inl hresult)
  | failed errno =>
    by_cases hfinal : Errno.Final errno
    · exact .inl (.inr ⟨errno, hresult, hfinal⟩)
    · exact .inr ⟨errno, rfl, hfinal⟩

theorem Retries.not_decides {kernel : Kernel} {n m : Nat} (h : kernel.Retries n) (hless : m < n) :
    ¬ kernel.Decides m := by
  obtain ⟨errno, hfailed, hfinal⟩ := h m hless
  rintro (hok | ⟨errno', hfailed', hfinal'⟩)
  · rw [hok] at hfailed
    cases hfailed
  · rw [hfailed] at hfailed'
    cases hfailed'
    exact hfinal hfinal'

/-- The connects that come before the one that is decisive. -/
theorem first {kernel : Kernel} {n m : Nat} (hn : kernel.Retries n) (hm : kernel.Retries m)
    (hn' : kernel.Decides n) (hm' : kernel.Decides m) : n = m := by
  have hle : ¬ n < m := fun hless => hm.not_decides hless hn'
  have hge : ¬ m < n := fun hless => hn.not_decides hless hm'
  omega

theorem retries_cases (kernel : Kernel) :
    (∀ n, kernel.Retries n) ∨ ∃ n, kernel.Retries n ∧ kernel.Decides n := by
  by_cases hsome : ∃ n, kernel.Decides n
  · classical
    refine .inr ⟨Nat.find hsome, fun m hm => ?_, Nat.find_spec hsome⟩
    exact (kernel.decides_or m).resolve_left (Nat.find_min hsome hm)
  · exact .inl fun n m _ => (kernel.decides_or m).resolve_left fun h => hsome ⟨m, h⟩

end Kernel

theorem startTimer_quiet {settings : Settings} {s : State} {event : Event} {interval : Int} :
    (startTimer settings s event interval).timer.resetting = false := by
  unfold startTimer
  dsimp only
  split
  · rfl
  · exact Bool.not_eq_true _ ▸ ‹_›

/-- A call in the main coroutine starts at the head of the loop that connects. -/
theorem atLoop_call {settings : Settings} {s t : State} {msgNo : Bytes} (hfd : 0 ≤ s.fd)
    (hcall : step settings s (.call msgNo true) = some t) : AtLoop s.session.connection 0 (t, 0) := by
  obtain rfl : t = call settings s msgNo true := by
    cases step_moves hcall with
    | call => rfl
  exact ⟨⟨rfl, startTimer_quiet, hfd⟩, rfl, rfl, rfl, rfl⟩

/-- **When a call in the main coroutine ends.** From some call on the kernel only fails: then the
client's call ends exactly when a connect is refused, or one succeeds and what is there to write
is taken before. -/
theorem call_ends_iff {settings : Settings} {kernel : Kernel} {fd : Int} {s t : State} {is : List Input} {n : Nat}
    {msgNo : Bytes} (hr : run (step settings) (initial settings fd) is = some s) (hfd : 0 ≤ s.fd)
    (hcall : step settings s (.call msgNo true) = some t) (hdead : kernel.DeadAfter n) :
    Finishes settings kernel (t, 0) ↔ Answered kernel s.session.connection := by
  have hbuffers := buffers_run hr
  have hloop := atLoop_call hfd hcall
  by_cases hstate : s.session.connection.state = .connected
  · -- the connection is up
    obtain ⟨d, hd, hgoes⟩ := @atLoop_connected settings kernel _ _ _ hloop hstate
    refine (hgoes.eventually_iff.trans (atConnected_ends_iff hbuffers hdead hd)).trans ?_
    constructor
    · exact fun hends => .inr ⟨0, .inl ⟨hstate, rfl⟩, hends⟩
    · rintro (⟨hdown, -⟩ | ⟨m, ⟨-, rfl⟩ | ⟨hdown, -⟩, hends⟩)
      · exact absurd hstate hdown
      · exact hends
      · exact absurd hstate hdown
  rcases kernel.retries_cases with hforever | ⟨m, hretries, hok | ⟨errno, hfailed, hfinal⟩⟩
  · refine iff_of_false (atLoop_forever hloop hstate hforever) ?_
    rintro (⟨-, k, errno, -, hfailed, hfinal⟩ | ⟨k, ⟨hup, -⟩ | ⟨-, j, -, -, hok⟩, -⟩)
    · exact (hforever (k + 1)).not_decides (Nat.lt_succ_self k) (.inr ⟨errno, hfailed, hfinal⟩)
    · exact hstate hup
    · exact (hforever (j + 1)).not_decides (Nat.lt_succ_self j) (.inl hok)
  · -- a connect succeeds
    obtain ⟨d, hd, hends⟩ := @atLoop_retries settings kernel _ _ hloop hstate _ hretries
    obtain ⟨e, he, hgoes⟩ := @atLoop_ok settings kernel _ _ _ hd hstate hok
    refine (hends.trans (hgoes.eventually_iff.trans (atConnected_ends_iff hbuffers hdead he))).trans ?_
    constructor
    · exact fun hwritten => .inr ⟨m + 1, .inr ⟨hstate, m, rfl, hretries, hok⟩, hwritten⟩
    · rintro (⟨-, k, errno, hretries', hfailed, hfinal⟩ | ⟨k, ⟨hup, -⟩ | ⟨-, j, rfl, hretries', hok'⟩, hwritten⟩)
      · obtain rfl := Kernel.first hretries hretries' (.inl hok) (.inr ⟨errno, hfailed, hfinal⟩)
        rw [hok] at hfailed
        cases hfailed
      · exact absurd hup hstate
      · obtain rfl := Kernel.first hretries hretries' (.inl hok) (.inl hok')
        exact hwritten
  · obtain ⟨d, hd, hends⟩ := @atLoop_retries settings kernel _ _ hloop hstate _ hretries
    refine iff_of_true (hends.mpr (atLoop_final hd hstate hfailed hfinal)) (.inl ?_)
    exact ⟨hstate, m, errno, hretries, hfailed, hfinal⟩

end

/-- A kernel where nothing succeeds; each connect fails with one error number. -/
def unreachable (errno : Errno) : Kernel where
  connect _ := .failed errno
  write _ _ := .failed
  read _ _ := .error
  socket _ := 5
  sent := nofun
  received := nofun

theorem unreachable_dead (errno : Errno) : (unreachable errno).DeadAfter 0 :=
  ⟨nofun, fun _ _ _ => rfl, fun _ _ _ => rfl⟩

/-- A call to a port where nobody listens. -/
theorem call_ends_iff_refused : ∃ t, step surroundings (initial surroundings 5) (.call [0x31] true) = some t ∧
    (Finishes surroundings (unreachable .connRefused) (t, 0) ↔
      Answered (unreachable .connRefused) (initial surroundings 5).session.connection) :=
  ⟨_, rfl, @call_ends_iff surroundings (unreachable .connRefused) 5 (initial surroundings 5) _ [] 0 [0x31]
    rfl (by decide) rfl (unreachable_dead .connRefused)⟩

/-- A call to a host that does not answer. -/
theorem not_finishes_timedOut : ¬ ∀ (kernel : Kernel) (n : Nat) (s t : State) (is : List Input) (msgNo : Bytes),
    run (step surroundings) (initial surroundings 5) is = some s → 0 ≤ s.fd →
      step surroundings s (.call msgNo true) = some t → kernel.DeadAfter n → Finishes surroundings kernel (t, 0) := by
  intro h
  obtain ⟨t, hcall⟩ : ∃ t, step surroundings (initial surroundings 5) (.call [0x31] true) = some t := ⟨_, rfl⟩
  have hends := h (unreachable .timedOut) 0 (initial surroundings 5) t [] [0x31] rfl (by decide) hcall
    (unreachable_dead .timedOut)
  refine atLoop_forever (atLoop_call (by decide) hcall) (by decide) ?_ hends
  intro n m _
  refine ⟨.timedOut, rfl, ?_⟩
  rintro (h | h) <;> cases h

end CoroutineRpc.Net.Tcp.Client
