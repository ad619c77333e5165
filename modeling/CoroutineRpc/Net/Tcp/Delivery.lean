import CoroutineRpc.Net.Tcp.CallTimer
import CoroutineRpc.Net.Tcp.Replies

/-! When a call owes its reply.

`input` returns behind a read that brought less than there was space for, and only then is the
buffer decoded. So a call is bound to return the reply (`Owed`) from such a read on, if it is made
in time with the reply's last byte or after it (`Ends`), and from no other step on
(`delivering_step`). -/
namespace CoroutineRpc.Net.Tcp
open Rpc TcpBuffer Library.Transition

namespace Client

/-! ### Calls that are answered -/

def Input.bytes : Input → Bytes
  | .read (.data bytes) => bytes
  | _ => []

/-- What the reads of a run brought. -/
def received (is : List Input) : Bytes := is.flatMap Input.bytes

/-- The connection is up, no call is under way, and there is no reply to this number. -/
structure Ready (msgNo : Bytes) (s : State) : Prop where
  pc : s.pc = .idle
  state : s.session.connection.state = .connected
  client : s.session.connection.connectionType = .clientConnection
  isOverTime : s.session.connection.isOverTime = false
  buffer : WellFormed s.session.connection.readBuffer
  reply : s.session.connection.replyDatas msgNo = none

/-- A step that waits for nobody. -/
def Own (i : Input) : Prop := i = .advance ∨ i = .timer .reset

/-- The call returns zero with this packet, or has done so. -/
def Delivers (settings : Settings) (p : RpcFields) (s : State) : Prop :=
  ∃ is t d, (∀ i ∈ is, Own i) ∧ run (step settings) s is = some t ∧ t.result = some (.ok d) ∧
    d.toRpcFields = p

/-- The read that ends `input`, made in time: it brings less than there is space, with the last of
`upto` or after it. `got` was received before. -/
def Ends (upto got : Bytes) (s : State) (i : Input) : Prop :=
  ∃ bytes, i = .read (.data bytes) ∧ s.session.connection.isOverTime = false ∧
    (bytes.length : Int) < s.session.connection.readBuffer.writeAble ∧ upto <+: got ++ bytes

/-- Such a read is made in the run. -/
def TakenUp (settings : Settings) (upto got : Bytes) (s : State) (is : List Input) : Prop :=
  ∃ a i b t, is = a ++ i :: b ∧ run (step settings) s a = some t ∧ Ends upto (got ++ received a) t i

theorem takenUp_nil {settings : Settings} {upto got : Bytes} {s : State} :
    ¬ TakenUp settings upto got s [] := by
  rintro ⟨a, i, b, t, heq, -⟩
  exact absurd heq.symm (List.append_ne_nil_of_right_ne_nil a (List.cons_ne_nil i b))

theorem takenUp_cons {settings : Settings} {upto got : Bytes} {s t : State} {i : Input} {rest : List Input}
    (hs : step settings s i = some t) :
    TakenUp settings upto got s (i :: rest) ↔
      Ends upto got s i ∨ TakenUp settings upto (got ++ i.bytes) t rest := by
  constructor
  · rintro ⟨a, j, b, u, heq, hrun, hends⟩
    cases a with
    | nil =>
      obtain ⟨rfl, -⟩ := List.cons.inj heq
      obtain rfl := Option.some.inj hrun
      rw [received, List.flatMap_nil, List.append_nil] at hends
      exact .inl hends
    | cons k a =>
      obtain ⟨rfl, rfl⟩ := List.cons.inj heq
      obtain ⟨t', ht', hrun⟩ := run_cons_some.mp hrun
      obtain rfl := Option.some.inj (ht'.symm.trans hs)
      rw [received, List.flatMap_cons, ← List.append_assoc] at hends
      exact .inr ⟨a, j, b, u, rfl, hrun, hends⟩
  · rintro (hends | ⟨a, j, b, u, rfl, hrun, hends⟩)
    · refine ⟨[], i, rest, s, rfl, rfl, ?_⟩
      rw [received, List.flatMap_nil, List.append_nil]
      exact hends
    · refine ⟨i :: a, j, b, u, rfl, run_cons_some.mpr ⟨t, hs, hrun⟩, ?_⟩
      rw [received, List.flatMap_cons, ← List.append_assoc]
      exact hends

theorem not_ends {upto got : Bytes} {s : State} {i : Input} (hi : ∀ bytes, i ≠ .read (.data bytes)) :
    ¬ Ends upto got s i := by
  rintro ⟨bytes, rfl, -⟩
  exact hi bytes rfl

theorem bytes_silent {i : Input} (hi : ∀ bytes, i ≠ .read (.data bytes)) : i.bytes = [] := by
  unfold Input.bytes
  split
  · exact absurd rfl (hi _)
  · rfl

/-! ### Where such a call stands -/

/-- Where a call can be that found its connection up. -/
def Pc.reached : Pc → Bool
  | .connect | .connectWait | .connectResumed | .connectAgain => false
  | .connectFailed | .resetFd true | .resetSocket true => false
  | _ => true

/-- Where the connection is up. -/
def Pc.up : Pc → Bool
  | .connectLoop | .connected | .output | .find | .execute => true
  | _ => false

/-- Where the call has no reply yet. -/
def Pc.asking : Pc → Bool
  | .connectLoop | .connected | .output | .input => true
  | _ => false

/-- What holds while the stream `w` comes in, of which `got` was received. -/
structure Delivering (w : Replies) (got : Bytes) (s : State) : Prop where
  placed : Placed s
  reached : s.pc.reached = true
  call : s.pc.inCall = true → s.result = none ∧ s.msgNo = w.reply.msgNo
  client : s.session.connection.connectionType = .clientConnection
  buffer : WellFormed s.session.connection.readBuffer
  split : s.pc.inCall = true → ∃ done todo, w.Split got s.session.connection done todo
  up : s.pc.up = true → s.session.connection.state = .connected
  inTime : s.pc.up = true → s.pc ≠ .output → s.session.connection.isOverTime = false
  reading : s.pc = .input → s.session.connection.state = .connected ∨
    s.session.pc = .returned .input ∧ s.session.connection.state = .closed ∨ s.session.pc = .closeWait
  asking : s.pc.asking = true → s.session.connection.replyDatas w.reply.msgNo = none
  count : s.pc = .input → ∀ n ∈ s.session.pc.readCount, n = s.session.connection.readBuffer.writeAble
  drained : s.pc = .execute → s.session.pc = .returned .execute → w.upto <+: got →
    s.session.connection.replyDatas w.reply.msgNo ≠ none

/-- The call is bound to return the reply. -/
def Owed (w : Replies) (got : Bytes) (s : State) : Prop :=
  match s.pc with
  | .find => s.session.connection.replyDatas w.reply.msgNo ≠ none
  | .input => s.session.pc = .returned .input ∧ s.session.connection.isOverTime = false ∧
      s.session.connection.state = .connected ∧ w.upto <+: got
  | .execute => w.upto <+: got
  | .idle | .resetFd false | .resetSocket false | .destroyed =>
    ∃ d, s.result = some (.ok d) ∧ d.toRpcFields = w.reply
  | _ => False

theorem owed_find {w : Replies} {got : Bytes} {s : State} (hpc : s.pc = .find) :
    Owed w got s ↔ s.session.connection.replyDatas w.reply.msgNo ≠ none := by
  unfold Owed
  rw [hpc]

theorem owed_input {w : Replies} {got : Bytes} {s : State} (hpc : s.pc = .input) :
    Owed w got s ↔ s.session.pc = .returned .input ∧ s.session.connection.isOverTime = false ∧
      s.session.connection.state = .connected ∧ w.upto <+: got := by
  unfold Owed
  rw [hpc]

theorem owed_execute {w : Replies} {got : Bytes} {s : State} (hpc : s.pc = .execute) :
    Owed w got s ↔ w.upto <+: got := by
  unfold Owed
  rw [hpc]

theorem owed_outside {w : Replies} {got : Bytes} {s : State} (hpc : s.pc.inCall = false) :
    Owed w got s ↔ ∃ d, s.result = some (.ok d) ∧ d.toRpcFields = w.reply := by
  unfold Owed
  unfold Pc.inCall at hpc
  split at hpc
  · rename_i hp
    rw [hp]
  · rename_i hp
    rw [hp]
  · rename_i hp
    rw [hp]
  · rename_i hp
    rw [hp]
  · cases hpc

theorem not_owed {w : Replies} {got : Bytes} {s : State} (hcall : s.pc.inCall = true)
    (hpc : s.pc ≠ .find ∧ s.pc ≠ .input ∧ s.pc ≠ .execute) : ¬ Owed w got s := by
  obtain ⟨hfind, hinput, hexecute⟩ := hpc
  unfold Owed
  split
  · exact absurd ‹_› hfind
  · exact absurd ‹_› hinput
  · exact absurd ‹_› hexecute
  · rename_i hp
    rw [hp] at hcall
    cases hcall
  · rename_i hp
    rw [hp] at hcall
    cases hcall
  · rename_i hp
    rw [hp] at hcall
    cases hcall
  · rename_i hp
    rw [hp] at hcall
    cases hcall
  · exact id

/-- One silent step. -/
structure Goes (w : Replies) (got : Bytes) (s t : State) : Prop where
  delivering : Delivering w got t
  owed : Owed w got t ↔ Owed w got s

/-- What reading and decoding are about is the same. -/
structure SameConnection (c d : TcpConnection) : Prop where
  replies : d.replyDatas = c.replyDatas
  client : d.connectionType = c.connectionType
  buffer : d.readBuffer = c.readBuffer
  state : d.state = c.state

theorem SameConnection.split {c d : TcpConnection} (h : SameConnection c d) {w : Replies} {got : Bytes}
    (hsplit : ∃ done todo, w.Split got c done todo) : ∃ done todo, w.Split got d done todo := by
  obtain ⟨done, todo, hpackets, hbytes, hreplies⟩ := hsplit
  refine ⟨done, todo, hpackets, ?_, ?_⟩
  · rw [h.buffer]
    exact hbytes
  · rw [h.replies]
    exact hreplies

variable {w : Replies} {got : Bytes} {s t : State}

/-- A step that leaves the call where it stands. -/
theorem Delivering.keep (h : Delivering w got s) (hplaced : Placed t)
    (hsame : SameConnection s.session.connection t.session.connection)
    (hover : t.session.connection.isOverTime = s.session.connection.isOverTime) (hpc : t.pc = s.pc)
    (hsession : t.session.pc = s.session.pc) (hresult : t.result = s.result) (hnumber : t.msgNo = s.msgNo) :
    Goes w got s t := by
  constructor
  · refine ⟨hplaced, hpc ▸ h.reached, ?_, hsame.client.trans h.client, hsame.buffer ▸ h.buffer, ?_, ?_, ?_,
      ?_, ?_, ?_, ?_⟩
    · rw [hpc, hresult, hnumber]
      exact h.call
    · rw [hpc]
      exact fun hcall => hsame.split (h.split hcall)
    · rw [hpc, hsame.state]
      exact h.up
    · rw [hpc, hover]
      exact h.inTime
    · rw [hpc, hsame.state, hsession]
      exact h.reading
    · rw [hpc, hsame.replies]
      exact h.asking
    · rw [hpc, hsession, hsame.buffer]
      exact h.count
    · rw [hpc, hsession, hsame.replies]
      exact h.drained
  · unfold Owed
    rw [hpc, hsession, hsame.replies, hsame.state, hover, hresult]

/-- A step of the call to the beginning of another place. -/
theorem Delivering.move (h : Delivering w got s) (hplaced : Placed t) (hreached : t.pc.reached = true)
    (hcall : t.pc.inCall = true → s.pc.inCall = true ∧ t.result = s.result ∧ t.msgNo = s.msgNo)
    (hsame : SameConnection s.session.connection t.session.connection)
    (hup : t.pc.up = true ∨ t.pc = .input → s.session.connection.state = .connected)
    (htime : t.pc.up = true → t.pc ≠ .output → t.session.connection.isOverTime = false)
    (hasking : t.pc.asking = true → s.session.connection.replyDatas w.reply.msgNo = none)
    (hstart : t.pc = .input ∨ t.pc = .execute → t.session.pc = .input ∨ t.session.pc = .execute) :
    Delivering w got t := by
  refine ⟨hplaced, hreached, fun ht => ?_, hsame.client.trans h.client, hsame.buffer ▸ h.buffer,
    fun ht => hsame.split (h.split (hcall ht).1), fun ht => hsame.state.trans (hup (.inl ht)), htime,
    fun ht => .inl (hsame.state.trans (hup (.inr ht))), fun ht => ?_, fun ht => ?_, fun ht hreturned => ?_⟩
  · obtain ⟨hs, hresult, hnumber⟩ := hcall ht
    rw [hresult, hnumber]
    exact h.call hs
  · rw [hsame.replies]
    exact hasking ht
  · rcases hstart (.inl ht) with hpc | hpc <;> rw [hpc] <;> nofun
  · rcases hstart (.inr ht) with hpc | hpc <;> rw [hpc] at hreturned <;> cases hreturned

/-! ### The connection's functions -/

/-- In `input` a function is under way, the call sleeps for good, or `input` has returned. -/
theorem Delivering.connected {session : Session} {i : Session.Input} (h : Delivering w got s)
    (hpc : s.pc = .input) (hs : s.session.step noServer i = some session) :
    s.session.connection.state = .connected ∨ s.session.pc = .closeWait := by
  rcases h.reading hpc with hstate | ⟨hreturned, -⟩ | hwait
  · exact .inl hstate
  · rw [Session.step_returned hreturned] at hs
    cases hs
  · exact .inr hwait

/-- `input` has gone on, whatever it read. -/
theorem Delivering.input {session : Session} (h : Delivering w got s) (hpc : s.pc = .input)
    (hplaced : Placed {s with session}) (hreads : Session.Reads s.session session) {bytes : Bytes}
    (hreadable : session.connection.readBuffer.readable = s.session.connection.readBuffer.readable ++ bytes)
    (hreading : session.connection.state = .connected ∨
      session.pc = .returned .input ∧ session.connection.state = .closed ∨ session.pc = .closeWait) :
    Delivering w (got ++ bytes) {s with session} := by
  refine ⟨hplaced, h.reached, h.call, hreads.client.trans h.client, hreads.buffer, fun hcall => ?_, ?_, ?_,
    fun _ => hreading, fun hasking => ?_, fun _ => hreads.count, ?_⟩
  · obtain ⟨done, todo, hpackets, hbytes, hreplies⟩ := h.split hcall
    refine ⟨done, todo, hpackets, ?_, ?_⟩
    · rw [hreadable, ← List.append_assoc, hbytes]
    · rw [hreads.replies]
      exact hreplies
  · intro hup
    rw [show ({s with session} : State).pc = .input from hpc] at hup
    cases hup
  · intro hup
    rw [show ({s with session} : State).pc = .input from hpc] at hup
    cases hup
  · rw [hreads.replies]
    exact h.asking hasking
  · intro hexecute
    rw [show ({s with session} : State).pc = .input from hpc] at hexecute
    cases hexecute

theorem Delivering.silentInput {session : Session} {i : Session.Input} (h : Delivering w got s)
    (hpc : s.pc = .input) (hi : ∀ bytes, i ≠ .read (.data bytes))
    (hs : s.session.step noServer i = some session) : Goes w got s {s with session} := by
  have hcallee : s.session.pc.callee = .input := h.placed.callee .input (by rw [hpc]; rfl)
  obtain ⟨hreads, hreadable, hreading⟩ := Session.reads_silent h.buffer (h.count hpc) hcallee
    (h.connected hpc hs) (h.placed.hung hpc) hi hs
  constructor
  · have hnext : Delivering w (got ++ []) {s with session} := h.input hpc (h.placed.sessionStep hs) hreads
      (hreadable.trans (List.append_nil _).symm) (hreading.imp_left And.left)
    rwa [List.append_nil] at hnext
  · -- before, `input` had not returned; now it has done so for nothing
    rw [owed_input (s := {s with session}) hpc, owed_input hpc]
    constructor
    · rintro ⟨hreturned, hover, hstate, -⟩
      rcases hreading with ⟨-, hlate⟩ | ⟨-, hclosed⟩ | hwait
      · rw [hreads.isOverTime.trans (hlate hreturned)] at hover
        cases hover
      · rw [show session.connection.state = .connected from hstate] at hclosed
        cases hclosed
      · rw [show session.pc = .returned .input from hreturned] at hwait
        cases hwait
    · rintro ⟨hreturned, -⟩
      rw [Session.step_returned hreturned] at hs
      cases hs

theorem Delivering.output {session : Session} {i : Session.Input} (h : Delivering w got s)
    (hpc : s.pc = .output) (hs : s.session.step noServer i = some session) :
    Goes w got s {s with session} := by
  have hcallee : s.session.pc.callee = .output := h.placed.callee .output (by rw [hpc]; rfl)
  have hwrites := Session.step_output hcallee hs
  have hto : ({s with session} : State).pc = .output := hpc
  constructor
  · refine h.move (h.placed.sessionStep hs) h.reached (fun hcall => ⟨hcall, rfl, rfl⟩)
      ⟨hwrites.replyDatas, hwrites.connectionType, hwrites.readBuffer, hwrites.state⟩ (fun _ => ?_)
      (fun _ hne => absurd hto hne) h.asking (fun hne => ?_)
    · exact h.up (by rw [hpc]; rfl)
    · rw [hto] at hne
      rcases hne with hne | hne <;> cases hne
  · refine iff_of_false (not_owed ?_ ?_) (not_owed ?_ ?_)
    · rw [hto]
      rfl
    · rw [hto]
      exact ⟨nofun, nofun, nofun⟩
    · rw [hpc]
      rfl
    · rw [hpc]
      exact ⟨nofun, nofun, nofun⟩

theorem Delivering.execute {session : Session} {i : Session.Input} (h : Delivering w got s)
    (hgot : got <+: w.bytes) (hpc : s.pc = .execute) (hs : s.session.step noServer i = some session) :
    Goes w got s {s with session} := by
  have hcallee : s.session.pc.callee = .execute := h.placed.callee .execute (by rw [hpc]; rfl)
  have hto : ({s with session} : State).pc = .execute := hpc
  obtain ⟨hp, -, hdecode⟩ := Session.step_execute hcallee hs
  have hopen := Session.decodeNext_open hcallee hdecode
  obtain ⟨done, todo, hsplit⟩ := h.split (by rw [hpc]; rfl)
  have hup : s.pc.up = true := by rw [hpc]; rfl
  obtain ⟨hbuffer, hclient, hrest⟩ := Session.split_decodeNext h.buffer h.client hsplit hgot hdecode
  constructor
  · refine ⟨h.placed.sessionStep hs, h.reached, h.call, hclient, hbuffer, fun _ => ?_,
      fun _ => hopen.state.trans (h.up hup), fun _ _ => hopen.isOverTime.trans (h.inTime hup (by rw [hpc]; nofun)),
      ?_, ?_, ?_, fun _ hreturned hupto => ?_⟩
    · rcases hrest with ⟨-, hnext, -⟩ | ⟨-, ⟨x, more, -, hnext⟩, -⟩
      · exact ⟨done, todo, hnext⟩
      · exact ⟨done ++ [x], more, hnext⟩
    · rw [hto]
      nofun
    · rw [hto]
      nofun
    · rw [hto]
      nofun
    · rcases hrest with ⟨-, hnext, hdrained⟩ | ⟨hsame, -⟩
      · exact hnext.finds hdrained hupto
      · rw [hsame, hp] at hreturned
        cases hreturned
  · rw [owed_execute hto, owed_execute hpc]

/-- A step of the function that the call is in, but for the read that brings bytes. -/
theorem Delivering.silent {session : Session} {i : Session.Input} (h : Delivering w got s)
    (hgot : got <+: w.bytes) (hpc : s.pc.callee ≠ none) (hi : ∀ bytes, i ≠ .read (.data bytes))
    (hs : s.session.step noServer i = some session) : Goes w got s {s with session} := by
  cases hp : s.pc with
  | output => exact hp ▸ h.output hp hs
  | input => exact hp ▸ h.silentInput hp hi hs
  | execute => exact hp ▸ h.execute hgot hp hs
  | _ => rw [hp] at hpc; exact absurd rfl hpc

/-- **The read that brings bytes.** The reply is owed from then on exactly if it ends `input`. -/
theorem Delivering.data {session : Session} {bytes : Bytes} (h : Delivering w got s) (hpc : s.pc = .input)
    (hs : s.session.step noServer (.read (.data bytes)) = some session) :
    Delivering w (got ++ bytes) {s with session} ∧
      (Owed w (got ++ bytes) {s with session} ↔ Owed w got s ∨ Ends w.upto got s (.read (.data bytes))) := by
  obtain ⟨hreads, hreadable, hstate, hrest⟩ := Session.reads_data h.buffer (h.count hpc) hs
  have hup : s.session.connection.state = .connected := by
    refine (h.connected hpc hs).resolve_right fun hwait => ?_
    obtain ⟨n, hp | hp, -⟩ := Session.step_data hs <;> rw [hwait] at hp <;> cases hp
  refine ⟨h.input hpc (h.placed.sessionStep hs) hreads hreadable (.inl (hstate.trans hup)), ?_⟩
  rw [owed_input (s := {s with session}) hpc, owed_input hpc]
  constructor
  · rintro ⟨hreturned, hover, -, hupto⟩
    rw [hreads.isOverTime] at hover
    right
    rcases hrest with ⟨-, hlate | hshort⟩ | ⟨⟨n, hread⟩, -⟩
    · rw [hlate] at hover
      cases hover
    · exact ⟨bytes, rfl, hover, hshort, hupto⟩
    · rw [show session.pc = .returned .input from hreturned] at hread
      cases hread
  · rintro (⟨hreturned, -⟩ | ⟨bytes', heq, hover, hshort, hupto⟩)
    · rw [Session.step_returned hreturned] at hs
      cases hs
    · obtain rfl := ReadResult.data.inj (Input.read.inj heq)
      rcases hrest with ⟨hreturned, -⟩ | ⟨-, hfull⟩
      · exact ⟨hreturned, hreads.isOverTime.trans hover, hstate.trans hup, hupto⟩
      · omega

theorem Delivering.resume (h : Delivering w got s) (hgot : got <+: w.bytes) (hasleep : isAsleep s = true) :
    Goes w got s (resume s) := by
  rcases resume_cases hasleep with ⟨-, heq⟩ | ⟨-, hpc, -⟩ | ⟨-, hpc, session, hs, heq⟩
  · rw [heq]
    exact ⟨h, Iff.rfl⟩
  · have hreached := h.reached
    rw [hpc] at hreached
    cases hreached
  · rw [heq]
    refine h.silent (i := .resume) hgot ?_ nofun hs
    rcases hpc with hpc | hpc <;> rw [hpc] <;> nofun

/-! ### One step -/

theorem Goes.trans {u : State} (h : Goes w got s t) (h' : Goes w got t u) : Goes w got s u :=
  ⟨h'.delivering, h'.owed.trans h.owed⟩

theorem delivering_outside (hpc : t.pc.inCall = false) (hreached : t.pc.reached = true)
    (hclient : t.session.connection.connectionType = .clientConnection)
    (hbuffer : WellFormed t.session.connection.readBuffer) : Delivering w got t := by
  have hplace : t.pc.callee = none ∧ t.pc.up = false ∧ t.pc.asking = false ∧ t.pc ≠ .input ∧
      t.pc ≠ .execute := by
    cases hp : t.pc with
    | idle => exact ⟨rfl, rfl, rfl, nofun, nofun⟩
    | resetFd inCall => exact ⟨rfl, rfl, rfl, nofun, nofun⟩
    | resetSocket inCall => exact ⟨rfl, rfl, rfl, nofun, nofun⟩
    | destroyed => exact ⟨rfl, rfl, rfl, nofun, nofun⟩
    | _ => rw [hp] at hpc; cases hpc
  obtain ⟨hcallee, hup, hasking, hinput, hexecute⟩ := hplace
  exact ⟨placed_outside hcallee, hreached, fun hcall => absurd (hpc.symm.trans hcall) nofun, hclient, hbuffer,
    fun hcall => absurd (hpc.symm.trans hcall) nofun, fun h => absurd (hup.symm.trans h) nofun,
    fun h => absurd (hup.symm.trans h) nofun, fun h => absurd h hinput,
    fun h => absurd (hasking.symm.trans h) nofun, fun h => absurd h hinput, fun h => absurd h hexecute⟩

/-- Between calls nothing happens to the result. -/
theorem Delivering.outside (h : Delivering w got s) (hs : s.pc.inCall = false) (ht : t.pc.inCall = false)
    (hreached : t.pc.reached = true)
    (hclient : t.session.connection.connectionType = s.session.connection.connectionType)
    (hbuffer : t.session.connection.readBuffer = s.session.connection.readBuffer)
    (hresult : t.result = s.result) : Goes w got s t := by
  refine ⟨delivering_outside ht hreached (hclient.trans h.client) (hbuffer ▸ h.buffer), ?_⟩
  rw [owed_outside ht, owed_outside hs, hresult]

/-- From one place where nothing is owed to another. -/
theorem Delivering.pass (h : Delivering w got s)
    (hs : s.pc.inCall = true ∧ s.pc ≠ .find ∧ s.pc ≠ .input ∧ s.pc ≠ .execute)
    (ht : t.pc.inCall = true ∧ t.pc ≠ .find ∧ t.pc ≠ .input ∧ t.pc ≠ .execute)
    (hplaced : Placed t) (hreached : t.pc.reached = true) (hresult : t.result = s.result)
    (hnumber : t.msgNo = s.msgNo) (hsame : SameConnection s.session.connection t.session.connection)
    (hup : t.pc.up = true → s.session.connection.state = .connected)
    (htime : t.pc.up = true → t.pc ≠ .output → t.session.connection.isOverTime = false)
    (hasking : t.pc.asking = true → s.session.connection.replyDatas w.reply.msgNo = none) :
    Goes w got s t := by
  obtain ⟨hcall, hfind, hinput, hexecute⟩ := ht
  constructor
  · refine h.move hplaced hreached (fun _ => ⟨hs.1, hresult, hnumber⟩) hsame ?_ htime hasking ?_
    · rintro (hp | hp)
      · exact hup hp
      · exact absurd hp hinput
    · rintro (hp | hp)
      · exact absurd hp hinput
      · exact absurd hp hexecute
  · exact iff_of_false (not_owed hcall ⟨hfind, hinput, hexecute⟩) (not_owed hs.1 hs.2)

theorem goes_connected {settings : Settings} (h : Delivering w got s) (hpc : s.pc = .connected) :
    Goes w got s (connected settings s) := by
  have hup := h.up (by rw [hpc]; rfl)
  unfold connected
  rw [if_neg (not_not_intro hup)]
  refine h.pass (by rw [hpc]; exact ⟨rfl, nofun, nofun, nofun⟩) ⟨rfl, nofun, nofun, nofun⟩
    (placed_enter _ .output rfl rfl nofun) rfl rfl rfl ⟨rfl, rfl, rfl, hup.symm⟩ (fun _ => hup)
    (fun _ hne => absurd rfl hne) (fun _ => h.asking (by rw [hpc]; rfl))

theorem goes_checkOutput (h : Delivering w got s) (hpc : s.pc = .output) : Goes w got s (checkOutput s) := by
  have hup := h.up (by rw [hpc]; rfl)
  have hasking := h.asking (by rw [hpc]; rfl)
  have hplace : s.pc.inCall = true ∧ s.pc ≠ .find ∧ s.pc ≠ .input ∧ s.pc ≠ .execute := by
    rw [hpc]
    exact ⟨rfl, nofun, nofun, nofun⟩
  unfold checkOutput
  split
  · exact h.pass hplace ⟨rfl, nofun, nofun, nofun⟩ (placed_outside rfl) rfl rfl rfl ⟨rfl, rfl, rfl, rfl⟩
      nofun nofun nofun
  · rename_i hover
    constructor
    · exact h.move (placed_outside rfl) rfl (fun _ => ⟨hplace.1, rfl, rfl⟩) ⟨rfl, rfl, rfl, rfl⟩ (fun _ => hup)
        (fun _ _ => Bool.not_eq_true _ ▸ hover) nofun (by rintro (hp | hp) <;> cases hp)
    · rw [owed_find (s := {s with pc := .find}) rfl]
      exact iff_of_false (fun hne => hne hasking) (not_owed hplace.1 hplace.2)

/-- The reply is taken out, and it is the right one. -/
theorem goes_find (h : Delivering w got s) (hpc : s.pc = .find) : Goes w got s (find s) := by
  have hcall : s.pc.inCall = true := by rw [hpc]; rfl
  obtain ⟨-, hnumber⟩ := h.call hcall
  obtain ⟨done, todo, hsplit⟩ := h.split hcall
  unfold find
  rw [TcpConnection.getResPackageData, hnumber]
  cases hreply : s.session.connection.replyDatas w.reply.msgNo with
  | some d =>
    rw [Option.map_some]
    constructor
    · exact delivering_outside rfl rfl h.client h.buffer
    · rw [owed_outside rfl, owed_find hpc, hreply]
      exact iff_of_true ⟨d, rfl, (hsplit.found hreply).1⟩ nofun
  | none =>
    rw [Option.map_none]
    constructor
    · exact h.move (placed_enter _ .input rfl rfl nofun) rfl (fun _ => ⟨hcall, rfl, rfl⟩)
        ⟨rfl, rfl, rfl, rfl⟩ (fun _ => h.up (by rw [hpc]; rfl)) nofun (fun _ => hreply) (fun _ => .inl rfl)
    · rw [owed_input rfl, owed_find hpc]
      exact iff_of_false nofun (fun hne => hne hreply)

theorem goes_checkInput {callee : Callee} (h : Delivering w got s) (hpc : s.pc = .input)
    (hreturned : s.session.pc = .returned callee) : Goes w got s (checkInput s) := by
  have hcall : s.pc.inCall = true := by rw [hpc]; rfl
  obtain rfl : callee = .input := by
    have hcallee := h.placed.callee .input (by rw [hpc]; rfl)
    rw [hreturned] at hcallee
    exact hcallee
  have hfailed : ∀ {u : State}, u.pc = .errDeal → u.result = s.result → u.msgNo = s.msgNo →
      u.session = s.session → Delivering w got u := by
    intro u hu hresult hnumber hsession
    refine h.move (placed_outside (by rw [hu]; rfl)) (by rw [hu]; rfl) (fun _ => ⟨hcall, hresult, hnumber⟩)
      ?_ ?_ ?_ ?_ ?_
    · rw [hsession]
      exact ⟨rfl, rfl, rfl, rfl⟩
    all_goals
      rw [hu]
      nofun
  unfold checkInput
  split
  · rename_i hover
    refine ⟨hfailed rfl rfl rfl rfl, iff_of_false (not_owed rfl ⟨nofun, nofun, nofun⟩) ?_⟩
    rw [owed_input hpc, hover]
    nofun
  rename_i hover
  split
  · rename_i hclosed
    refine ⟨hfailed rfl rfl rfl rfl, iff_of_false (not_owed rfl ⟨nofun, nofun, nofun⟩) ?_⟩
    rw [owed_input hpc, hclosed]
    nofun
  · rename_i hclosed
    rw [Bool.not_eq_true] at hover
    have hup : s.session.connection.state = .connected := by
      rcases h.reading hpc with hstate | ⟨-, hstate⟩ | hwait
      · exact hstate
      · exact absurd hstate hclosed
      · rw [hreturned] at hwait
        cases hwait
    constructor
    · exact h.move (placed_enter _ .execute rfl rfl nofun) rfl (fun _ => ⟨hcall, rfl, rfl⟩)
        ⟨rfl, rfl, rfl, rfl⟩ (fun _ => hup) (fun _ _ => hover) nofun (fun _ => .inr rfl)
    · rw [owed_execute rfl, owed_input hpc]
      exact ⟨fun hupto => ⟨hreturned, hover, hup, hupto⟩, fun howed => howed.2.2.2⟩

theorem goes_executed {callee : Callee} (h : Delivering w got s) (hpc : s.pc = .execute)
    (hreturned : s.session.pc = .returned callee) : Goes w got s {s with pc := .find} := by
  have hcall : s.pc.inCall = true := by rw [hpc]; rfl
  have hup : s.pc.up = true := by rw [hpc]; rfl
  obtain rfl : callee = .execute := by
    have hcallee := h.placed.callee .execute (by rw [hpc]; rfl)
    rw [hreturned] at hcallee
    exact hcallee
  obtain ⟨done, todo, hsplit⟩ := h.split hcall
  constructor
  · exact h.move (placed_outside rfl) rfl (fun _ => ⟨hcall, rfl, rfl⟩) ⟨rfl, rfl, rfl, rfl⟩ (fun _ => h.up hup)
      (fun _ _ => h.inTime hup (by rw [hpc]; nofun)) nofun (by rintro (hp | hp) <;> cases hp)
  · rw [owed_find (s := {s with pc := .find}) rfl, owed_execute hpc]
    constructor
    · intro hne
      obtain ⟨d, hd⟩ := Option.ne_none_iff_exists'.mp hne
      exact (hsplit.found hd).2
    · exact h.drained hpc hreturned

/-- The task of the call's timer: a call that sleeps owes nothing, and it will not read in time. -/
theorem goes_fireRpc (h : Delivering w got s) (hgot : got <+: w.bytes) (hasleep : isAsleep s = true)
    (rest : List Event) : Goes w got s
      (resume (setOverTimeFlag {s with timer := {s.timer with tasks := rest}, isTimeout := true} true)) := by
  have hpc : s.pc = .output ∨ s.pc = .input ∧ s.session.pc.asleep = true := by
    rcases isAsleep_cases hasleep with hpc | ⟨hpc | hpc, hwait⟩
    · have hreached := h.reached
      rw [hpc] at hreached
      cases hreached
    · exact .inl hpc
    · exact .inr ⟨hpc, hwait⟩
  have hflag : Goes w got s
      (setOverTimeFlag {s with timer := {s.timer with tasks := rest}, isTimeout := true} true) := by
    constructor
    · refine ⟨⟨h.placed.callee, h.placed.hung⟩, h.reached, h.call, h.client, h.buffer, ?_, h.up, ?_, h.reading,
        h.asking, h.count, h.drained⟩
      · have hsame : SameConnection s.session.connection {s.session.connection with isOverTime := true} :=
          ⟨rfl, rfl, rfl, rfl⟩
        exact fun hcall => hsame.split (h.split hcall)
      · intro hup hne
        rcases hpc with hpc | ⟨hpc, -⟩
        · exact absurd hpc hne
        · rw [show s.pc = .input from hpc] at hup
          cases hup
    · rcases hpc with hpc | ⟨hpc, hwait⟩
      · have hplace : s.pc.inCall = true ∧ s.pc ≠ .find ∧ s.pc ≠ .input ∧ s.pc ≠ .execute := by
          rw [hpc]
          exact ⟨rfl, nofun, nofun, nofun⟩
        exact iff_of_false (not_owed hplace.1 hplace.2) (not_owed hplace.1 hplace.2)
      · refine iff_of_false (fun howed => ?_) fun howed => ?_
        · exact absurd ((owed_input (by exact hpc)).mp howed).2.1 nofun
        · rw [((owed_input hpc).mp howed).1] at hwait
          cases hwait
  exact hflag.trans (hflag.delivering.resume hgot hasleep)

theorem delivering_silent {settings : Settings} {i : Input} (h : Delivering w got s) (hgot : got <+: w.bytes)
    (hcall : ∀ msgNo isMain, i ≠ .call msgNo isMain) (hi : ∀ bytes, i ≠ .read (.data bytes))
    (hs : step settings s i = some t) : Goes w got s t := by
  have hunreached : ∀ {u : State}, s.pc.reached = false → Goes w got s u := fun hno =>
    absurd (hno.symm.trans h.reached) nofun
  have hplaced := placed_step h.placed hs
  cases step_moves hs with
  | timer => exact h.keep hplaced ⟨rfl, rfl, rfl, rfl⟩ rfl rfl rfl rfl rfl
  | fireOther => exact h.keep hplaced ⟨rfl, rfl, rfl, rfl⟩ rfl rfl rfl rfl rfl
  | @fireRpc rest htasks hasleep => exact goes_fireRpc h hgot hasleep rest
  | fireConnect htasks hpc => exact hunreached (by rw [hpc]; rfl)
  | elsewhere => exact h.keep hplaced ⟨rfl, rfl, rfl, rfl⟩ rfl rfl rfl rfl rfl
  | call msgNo isMain => exact absurd rfl (hcall msgNo isMain)
  | callResetFd hpc => exact h.outside (by rw [hpc]; rfl) rfl rfl rfl rfl rfl
  | setTimeout => exact h.keep hplaced ⟨rfl, rfl, rfl, rfl⟩ rfl rfl rfl rfl rfl
  | encode => exact h.keep hplaced ⟨rfl, rfl, rfl, rfl⟩ rfl rfl rfl rfl rfl
  | destroy hpc =>
    apply h.outside (by rw [hpc]; rfl) rfl rfl
    · dsimp only
      split <;> rfl
    · dsimp only
      split <;> rfl
    · rfl
  | leaveLoop hpc =>
    exact h.pass (by rw [hpc]; exact ⟨rfl, nofun, nofun, nofun⟩) ⟨rfl, nofun, nofun, nofun⟩ hplaced rfl rfl rfl
      ⟨rfl, rfl, rfl, rfl⟩ (fun _ => h.up (by rw [hpc]; rfl))
      (fun _ _ => h.inTime (by rw [hpc]; rfl) (by rw [hpc]; nofun)) (fun _ => h.asking (by rw [hpc]; rfl))
  | connectNext hpc htimeout hdown => exact absurd (h.up (by rw [hpc]; rfl)) hdown
  | connectResumed hpc => exact hunreached (by rw [hpc]; rfl)
  | closeFd hfd hpc =>
    rcases hpc with ⟨inCall, hpc, rfl⟩ | ⟨hpc, rfl⟩
    · cases inCall with
      | true => exact hunreached (by rw [hpc]; rfl)
      | false => exact h.outside (by rw [hpc]; rfl) rfl rfl rfl rfl rfl
    · exact h.pass (by rw [hpc]; exact ⟨rfl, nofun, nofun, nofun⟩) ⟨rfl, nofun, nofun, nofun⟩ hplaced rfl rfl
        rfl ⟨rfl, rfl, rfl, rfl⟩ nofun nofun nofun
  | connectFailed hpc => exact hunreached (by rw [hpc]; rfl)
  | connected hpc => exact goes_connected h hpc
  | checkOutput hpc => exact goes_checkOutput h hpc
  | find hpc => exact goes_find h hpc
  | checkInput hpc hreturned => exact goes_checkInput h hpc hreturned
  | executed hpc hreturned => exact goes_executed h hpc hreturned
  | advance hpc hsession => exact h.silent (i := .advance) hgot (by rw [hpc]; nofun) nofun hsession
  | @read result session hpc hsession =>
    refine h.silent hgot (by rw [hpc]; nofun) (fun bytes heq => ?_) hsession
    exact hi bytes (congrArg Input.read (Session.Input.read.inj heq))
  | @write result session hpc hsession =>
    exact h.silent (i := .write result) hgot (by rw [hpc]; nofun) nofun hsession
  | connectDone hpc => rcases hpc with hpc | hpc <;> exact hunreached (by rw [hpc]; rfl)
  | connectError errno hpc => rcases hpc with hpc | hpc <;> exact hunreached (by rw [hpc]; rfl)
  | connectWaits errno hpc => exact hunreached (by rw [hpc]; rfl)
  | @resetSocket fd errno inCall descriptors hpc =>
    cases inCall with
    | true => exact hunreached (by rw [hpc]; rfl)
    | false => exact h.outside (by rw [hpc]; rfl) rfl rfl rfl rfl rfl
  | errSocket hpc =>
    have howed : ¬ Owed w got s := not_owed (by rw [hpc]; rfl) (by rw [hpc]; exact ⟨nofun, nofun, nofun⟩)
    unfold failed
    split
    · refine ⟨delivering_outside rfl rfl h.client h.buffer, iff_of_false ?_ howed⟩
      rw [owed_outside rfl]
      rintro ⟨d, hd, -⟩
      cases hd
    · refine ⟨delivering_outside rfl rfl h.client h.buffer, iff_of_false ?_ howed⟩
      rw [owed_outside rfl]
      rintro ⟨d, hd, -⟩
      cases hd
  | resume hasleep => exact h.resume hgot hasleep

/-- **One step**: the reply is owed behind it if it was before, or if the step is the read that
ends `input` with it. -/
theorem delivering_step {settings : Settings} {i : Input} (h : Delivering w got s)
    (hgot : got ++ i.bytes <+: w.bytes) (hcall : ∀ msgNo isMain, i ≠ .call msgNo isMain)
    (hs : step settings s i = some t) : Delivering w (got ++ i.bytes) t ∧
      (Owed w (got ++ i.bytes) t ↔ Owed w got s ∨ Ends w.upto got s i) := by
  by_cases hi : ∃ bytes, i = .read (.data bytes)
  · obtain ⟨bytes, rfl⟩ := hi
    cases step_moves hs with
    | read hpc hsession => exact h.data hpc hsession
  · have hsilent : ∀ bytes, i ≠ .read (.data bytes) := fun bytes heq => hi ⟨bytes, heq⟩
    rw [bytes_silent hsilent, List.append_nil] at hgot ⊢
    obtain ⟨hdelivering, howed⟩ := delivering_silent h hgot hcall hsilent hs
    exact ⟨hdelivering, howed.trans (or_iff_left (not_ends hsilent)).symm⟩

theorem delivering_run {settings : Settings} {u : State} {is : List Input} (h : Delivering w got s)
    (hgot : got ++ received is <+: w.bytes) (hcall : ∀ i ∈ is, ∀ msgNo isMain, i ≠ .call msgNo isMain)
    (hr : run (step settings) s is = some u) : Delivering w (got ++ received is) u ∧
      (Owed w (got ++ received is) u ↔ Owed w got s ∨ TakenUp settings w.upto got s is) := by
  induction is generalizing s got with
  | nil =>
    obtain rfl := Option.some.inj hr
    rw [received, List.flatMap_nil, List.append_nil]
    exact ⟨h, (or_iff_left takenUp_nil).symm⟩
  | cons i rest ih =>
    obtain ⟨t, ht, hrest⟩ := run_cons_some.mp hr
    have hreceived : got ++ received (i :: rest) = got ++ i.bytes ++ received rest := by
      rw [received, List.flatMap_cons, ← List.append_assoc]
      rfl
    rw [hreceived] at hgot ⊢
    have hfirst := (List.prefix_append (got ++ i.bytes) (received rest)).trans hgot
    obtain ⟨hdelivering, howed⟩ := delivering_step h hfirst (hcall i (List.mem_cons_self ..)) ht
    obtain ⟨hlast, howedLast⟩ := ih hdelivering hgot (fun j hj => hcall j (List.mem_cons_of_mem i hj)) hrest
    refine ⟨hlast, howedLast.trans ?_⟩
    rw [howed, takenUp_cons ht, or_assoc]

end Client

end CoroutineRpc.Net.Tcp
