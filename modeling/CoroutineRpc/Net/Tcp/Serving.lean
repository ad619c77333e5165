import CoroutineRpc.Net.Tcp.Streaming

/-! What a server's connection sends, whatever its protocol.

`MainServerLoopCorFunc` reads, decodes and answers, and writes. A protocol says how requests lie in
a stream and which bytes answer one (`Protocol`), and a loop keeps to it if `execute` takes one
request off the read buffer and puts its answer into the write buffer (`Executes`). However the
stream is cut, whatever the kernel takes of the answers and whenever the connection is shut down,
what was sent and what is left to send are then the answers of the first requests, in order
(`serve_run`). -/
namespace CoroutineRpc.Net.Tcp.Serving
open TcpBuffer Library.Framing Library.Transition Session

/-- Requests in a stream, and their answers. -/
structure Protocol (β : Type) where
  next : Decoder Byte β
  encode : β → Bytes
  Good : β → Prop
  frames : Frames next encode Good
  answer : β → Bytes

/-- What a read or a write was given is what there is. -/
structure Buffered (s : Session) : Prop where
  readBuffer : WellFormed s.connection.readBuffer
  writeBuffer : WellFormed s.connection.writeBuffer
  count : ∀ n ∈ s.pc.readCount, n = s.connection.readBuffer.writeAble
  total : ∀ n ∈ s.pc.totalSize, n = s.connection.writeBuffer.readAble

/-- A server's connection. -/
structure Serving (s : Session) : Prop extends Buffered s where
  server : s.connection.connectionType = .serverConnection
  time : s.connection.isOverTime = false

/-- Where `MainServerLoopCorFunc` goes on behind a call. -/
def after : Callee → Pc
  | .input => .execute
  | .execute => .output
  | .output => .input

/-- One turn of the loop of `execute`. -/
def ExecutesOne {β : Type} (P : Protocol β) (s t : Session) : Prop :=
  let (found, left) := P.next s.connection.readBuffer.readable
  match found with
  | none => ∃ readBuffer, WellFormed readBuffer ∧ readBuffer.readable = left ∧
      t = (s.setReadBuffer readBuffer).returns .execute
  | some x => ∃ readBuffer writeBuffer, WellFormed readBuffer ∧ readBuffer.readable = left ∧
      t = (s.setReadBuffer readBuffer).setWriteBuffer writeBuffer ∧
      (P.Good x → WellFormed writeBuffer ∧
        writeBuffer.readable = s.connection.writeBuffer.readable ++ P.answer x)

/-- A loop whose `execute` answers as the protocol says. -/
structure Executes {β : Type} (P : Protocol β) (step : Session → Server.Input → Option Session) : Prop where
  shutdown : ∀ {s t}, step s .shutdown = some t → t = {s with connection := s.connection.shutdownConnection}
  returned : ∀ {s t i callee}, s.pc = .returned callee → step s (.io i) = some t →
    i = .advance ∧ t = {s with pc := after callee}
  execute : ∀ {s t i}, Serving s → s.pc = .execute → step s (.io i) = some t → i = .advance ∧ ExecutesOne P s t
  call : ∀ {s t i}, s.pc ≠ .execute → (∀ callee, s.pc ≠ .returned callee) → step s (.io i) = some t →
    s.step (fun _ _ => none) i = some t

/-! ### A server and the kernel -/

/-- What a step hands to the kernel. -/
def handed (s : Session) : Server.Input → Option Bytes
  | .io i => Wire.handed s i
  | .shutdown => some []

def serve (step : Session → Server.Input → Option Session) (w : Wire) (i : Server.Input) : Option Wire := do
  let bytes ← handed w.session i
  let session ← step w.session i
  pure ⟨session, w.taken ++ bytes⟩

/-- What an input brings. -/
def arrival : Server.Input → Bytes
  | .io (.read (.data bytes)) => bytes
  | _ => []

theorem serve_some {step : Session → Server.Input → Option Session} {w t : Wire} {i : Server.Input}
    (h : serve step w i = some t) : ∃ bytes, handed w.session i = some bytes ∧
      step w.session i = some t.session ∧ t.taken = w.taken ++ bytes := by
  simp only [serve, Option.bind_eq_bind, Option.bind_eq_some_iff, Option.pure_def] at h
  obtain ⟨bytes, hbytes, session, hsession, h⟩ := h
  obtain rfl := Option.some.inj h
  exact ⟨bytes, hbytes, hsession, rfl⟩

/-! ### `input` and `output` -/

variable {s t : Session}

theorem Buffered.same (h : Buffered s) (hread : t.connection.readBuffer = s.connection.readBuffer)
    (hwrite : t.connection.writeBuffer = s.connection.writeBuffer)
    (hpc : t.pc.readCount = s.pc.readCount ∧ t.pc.totalSize = s.pc.totalSize ∨ t.pc.Quiet) : Buffered t where
  readBuffer := hread ▸ h.readBuffer
  writeBuffer := hwrite ▸ h.writeBuffer
  count n hn := by
    rw [hread]
    rcases hpc with ⟨hpc, -⟩ | ⟨hpc, -⟩ <;> rw [hpc] at hn
    · exact h.count n hn
    · cases hn
  total n hn := by
    rw [hwrite]
    rcases hpc with ⟨-, hpc⟩ | ⟨-, hpc⟩ <;> rw [hpc] at hn
    · exact h.total n hn
    · cases hn

/-- The members of a connection that neither `input` nor `output` writes to. -/
structure Keeps (s t : Session) : Prop where
  connectionType : t.connection.connectionType = s.connection.connectionType
  isOverTime : t.connection.isOverTime = s.connection.isOverTime
  replyDatas : t.connection.replyDatas = s.connection.replyDatas

theorem Keeps.trans {u : Session} (h : Keeps s t) (h' : Keeps t u) : Keeps s u :=
  ⟨h'.connectionType.trans h.connectionType, h'.isOverTime.trans h.isOverTime, h'.replyDatas.trans h.replyDatas⟩

/-- What a step of a call does: bytes come in behind, or go out in front. -/
structure Moves (s t : Session) (came went : Bytes) : Prop extends Keeps s t where
  buffered : Buffered t
  callee : t.pc.callee = s.pc.callee
  read : t.connection.readBuffer.readable = s.connection.readBuffer.readable ++ came
  write : went ++ t.connection.writeBuffer.readable = s.connection.writeBuffer.readable
  flushed : t.pc = .returned .output → t.connection.writeBuffer.readable = [] ∨
    t.connection.state ≠ .connected ∨ t.connection.isOverTime = true

theorem Buffered.moves (h : Buffered s) (hkeeps : Keeps s t)
    (hread : t.connection.readBuffer = s.connection.readBuffer)
    (hwrite : t.connection.writeBuffer = s.connection.writeBuffer)
    (hpc : t.pc.readCount = s.pc.readCount ∧ t.pc.totalSize = s.pc.totalSize ∨ t.pc.Quiet)
    (hcallee : t.pc.callee = s.pc.callee)
    (hflushed : t.pc = .returned .output → t.connection.writeBuffer.readable = [] ∨
      t.connection.state ≠ .connected ∨ t.connection.isOverTime = true) : Moves s t [] [] where
  toKeeps := hkeeps
  buffered := h.same hread hwrite hpc
  callee := hcallee
  read := by rw [hread, List.append_nil]
  write := by rw [hwrite, List.nil_append]
  flushed := hflushed

theorem keeps_refl (s : Session) : Keeps s s := ⟨rfl, rfl, rfl⟩

theorem Buffered.resume (h : Buffered s) {pc : Pc}
    (hpc : pc.readCount = s.pc.readCount ∧ pc.totalSize = s.pc.totalSize ∨ pc.Quiet)
    (hcallee : pc.callee = s.pc.callee) (hnot : ∀ callee, s.pc ≠ .returned callee)
    (hreturned : pc ≠ .returned .output) : Moves s (s.resume pc) [] [] := by
  unfold Session.resume
  split
  · exact h.moves ⟨rfl, rfl, rfl⟩ rfl rfl hpc hcallee fun heq => absurd heq hreturned
  · exact h.moves (keeps_refl s) rfl rfl (.inl ⟨rfl, rfl⟩) rfl fun heq => absurd heq (hnot _)

theorem Moves.trans {s t u : Session} {came went : Bytes} (h : Moves s t came went) (h' : Moves t u [] []) :
    Moves s u came went where
  toKeeps := h.toKeeps.trans h'.toKeeps
  buffered := h'.buffered
  callee := h'.callee.trans h.callee
  read := by rw [h'.read, List.append_nil, h.read]
  write := by rw [← h.write, ← h'.write, List.nil_append]
  flushed := h'.flushed

theorem Buffered.returnsInput (h : Buffered s) (hs : s.pc.callee = .input) : Moves s (s.returns .input) [] [] :=
  h.moves ⟨rfl, rfl, rfl⟩ rfl rfl (.inr ⟨rfl, rfl⟩) hs.symm nofun

theorem Buffered.nextRead (h : Buffered s) (hs : s.pc.callee = .input) (ht : s.nextRead = some t) :
    Moves s t [] [] := by
  obtain ⟨readBuffer, hroom, rfl⟩ := nextRead_some ht
  obtain ⟨hwf, hreadable⟩ := makeRoom_spec h.readBuffer hroom
  exact ⟨⟨rfl, rfl, rfl⟩, ⟨hwf, h.writeBuffer, fun n hn => (Option.some.inj hn).symm, nofun⟩, hs.symm,
    by rw [List.append_nil]; exact hreadable, rfl, nofun⟩

theorem Buffered.closePath (h : Buffered s) (hs : s.pc.callee = .input) : Moves s s.closePath [] [] := by
  have hclear : s.clearClient.connection.connectionType = s.connection.connectionType ∧
      s.clearClient.connection.isOverTime = s.connection.isOverTime ∧
      s.clearClient.connection.replyDatas = s.connection.replyDatas ∧
      s.clearClient.connection.readBuffer = s.connection.readBuffer ∧
      s.clearClient.connection.writeBuffer = s.connection.writeBuffer := by
    unfold clearClient
    split <;> exact ⟨rfl, rfl, rfl, rfl, rfl⟩
  obtain ⟨htype, htime, hreplies, hread, hwrite⟩ := hclear
  unfold Session.closePath
  dsimp only
  split
  · exact h.moves ⟨htype, htime, hreplies⟩ hread hwrite (.inr ⟨rfl, rfl⟩) hs.symm nofun
  · exact h.moves ⟨htype, htime, hreplies⟩ hread hwrite (.inr ⟨rfl, rfl⟩) hs.symm nofun

/-- The bytes of a read come in behind the ones that are there. -/
theorem Buffered.readReturns (h : Buffered s) (hs : s.pc.callee = .input) {n : Int}
    (hn : n = s.connection.readBuffer.writeAble) {result : ReadResult}
    (ht : s.readReturns n result = some t) : Moves s t (arrival (.io (.read result))) [] := by
  rcases readResult_cases result with hresult | ⟨bytes, rfl⟩
  · have hnone : arrival (.io (.read result)) = [] := by rcases hresult with rfl | rfl <;> rfl
    rw [hnone]
    rcases readReturns_other hresult ht with ⟨-, rfl⟩ | ⟨-, rfl⟩
    · exact h.returnsInput hs
    · exact h.closePath hs
  obtain ⟨-, hle, readBuffer, hreceived, hrest⟩ := readReturns_data ht
  obtain ⟨b, hb, hwf, hreadable⟩ := received_spec h.readBuffer (hn ▸ hle)
  obtain rfl := Option.some.inj (hreceived.symm.trans hb)
  -- the size that was given is used up
  have hset : Moves s ((s.setReadBuffer readBuffer).returns .input) bytes [] :=
    ⟨⟨rfl, rfl, rfl⟩, ⟨hwf, h.writeBuffer, nofun, nofun⟩, hs.symm, hreadable, rfl, nofun⟩
  rcases hrest with ⟨rfl, -⟩ | ⟨hnext, -, -⟩
  · exact hset
  · exact hset.trans (hset.buffered.nextRead rfl hnext)

theorem Buffered.nextWrite (h : Buffered s) (hs : s.pc.callee = .output) : Moves s s.nextWrite [] [] := by
  unfold Session.nextWrite
  split
  · rename_i hstate
    exact h.moves ⟨rfl, rfl, rfl⟩ rfl rfl (.inr ⟨rfl, rfl⟩) hs.symm fun _ => .inr (.inl hstate)
  split
  · rename_i hempty
    exact h.moves ⟨rfl, rfl, rfl⟩ rfl rfl (.inr ⟨rfl, rfl⟩) hs.symm
      fun _ => .inl (h.writeBuffer.readAble_eq_zero.mp hempty)
  · exact ⟨⟨rfl, rfl, rfl⟩, ⟨h.readBuffer, h.writeBuffer, nofun, fun n hn => (Option.some.inj hn).symm⟩,
      hs.symm, (List.append_nil _).symm, rfl, nofun⟩

theorem Buffered.enterOutput (h : Buffered s) (hs : s.pc.callee = .output) : Moves s s.enterOutput [] [] := by
  unfold Session.enterOutput
  split
  · rename_i htime
    exact h.moves ⟨rfl, rfl, rfl⟩ rfl rfl (.inr ⟨rfl, rfl⟩) hs.symm fun _ => .inr (.inr htime)
  · exact h.nextWrite hs

theorem Buffered.written (h : Buffered s) (hs : s.pc.callee = .output) : Moves s s.written [] [] := by
  unfold Session.written
  split
  · refine h.moves ⟨rfl, rfl, rfl⟩ rfl rfl (.inr ⟨rfl, rfl⟩) hs.symm fun _ => .inl ?_
    have := h.writeBuffer.readAble_nonneg
    exact h.writeBuffer.readAble_eq_zero.mp (by omega)
  split
  · rename_i htime
    exact h.moves ⟨rfl, rfl, rfl⟩ rfl rfl (.inr ⟨rfl, rfl⟩) hs.symm fun _ => .inr (.inr htime)
  · exact h.nextWrite hs

/-- The bytes that a write takes go out in front. -/
theorem Buffered.writeReturns (h : Buffered s) (hs : s.pc.callee = .output) {n : Int}
    (hn : n = s.connection.writeBuffer.readAble) {result : WriteResult} (ht : s.writeReturns n result = some t)
    {bytes : Bytes} (hbytes : Wire.handed s (.write result) = some bytes) : Moves s t [] bytes := by
  cases result with
  | failed =>
    obtain rfl := Option.some.inj ht
    obtain rfl := Option.some.inj hbytes
    exact h.written hs
  | sent m =>
    by_cases hm : m = 0 ∨ n < m
    · rw [Session.writeReturns, if_pos hm] at ht
      cases ht
    have hle : (m : Int) ≤ s.connection.writeBuffer.readAble := by omega
    obtain ⟨writeBuffer, hrecycle, hwf, hreadable⟩ := recycleRead_spec h.writeBuffer (Int.natCast_nonneg m) hle
    obtain ⟨hread, -, hsize, -⟩ := id h.writeBuffer
    have htake : bytes = s.connection.writeBuffer.readable.take m := by
      have hend : s.connection.writeBuffer.readIndex + (m : Int) ≤
          (s.connection.writeBuffer.buffer.length : Int) := by
        simp only [readAble] at hle
        omega
      have hload : Wire.handed s (.write (.sent m)) = some (slice s.connection.writeBuffer.buffer
          s.connection.writeBuffer.readIndex m) := load_some (Int.natCast_nonneg m) hread hend hread hend
      rw [hload, ← slice_take hle, Int.toNat_natCast] at hbytes
      exact (Option.some.inj hbytes).symm
    have hset : Moves s {s.setWriteBuffer writeBuffer with pc := .output} [] bytes := by
      have hcount (n : Int) : n ∉ (none : Option Int) := Option.not_mem_none n
      refine ⟨⟨rfl, rfl, rfl⟩, ⟨h.readBuffer, hwf, fun n hn => absurd hn (hcount n), fun n hn => absurd hn (hcount n)⟩,
        hs.symm, (List.append_nil _).symm, ?_, Pc.noConfusion⟩
      rw [htake]
      show _ ++ writeBuffer.readable = _
      rw [hreadable, Int.toNat_natCast, List.take_append_drop]
    simp only [Session.writeReturns, if_neg hm, hrecycle, Option.bind_eq_bind, Option.bind_some,
      Option.pure_def] at ht
    obtain rfl := Option.some.inj ht
    exact hset.trans (hset.buffered.written rfl)

variable {dispatch : Rpc.RpcStruct → TcpBuffer → Option (TcpBuffer × Rpc.RunTime)}

/-- Nothing but a write hands bytes over. -/
theorem handed_nil {i : Session.Input} (hi : ∀ n, i ≠ .write (.sent n)) : Wire.handed s i = some [] := by
  unfold Wire.handed
  split
  · exact absurd rfl (hi _)
  · rfl

theorem Buffered.input (h : Buffered s) (hs : s.pc.callee = .input) {i : Session.Input}
    (ht : s.step dispatch i = some t) :
    Moves s t (arrival (.io i)) [] ∧ Wire.handed s i = some [] := by
  rcases step_input hs ht with ⟨-, rfl, henter⟩ | ⟨n, result, hpc, rfl, hread⟩ | ⟨n, hpc, hmain, rfl⟩ |
    ⟨n, hpc, rfl, rfl⟩ | ⟨hpc, rfl, rfl⟩
  · refine ⟨?_, handed_nil fun _ => Input.noConfusion⟩
    rcases enterInput_cases henter with ⟨rfl, -⟩ | ⟨-, -, hnext⟩
    · exact h.returnsInput hs
    · exact h.nextRead hs hnext
  · refine ⟨h.readReturns hs (h.count n ?_) hread, handed_nil fun _ => Input.noConfusion⟩
    rcases hpc with hpc | ⟨hpc, -⟩ <;> rw [hpc] <;> rfl
  · -- the read that made it sleep brought nothing
    have hi : i = .read .eof ∨ i = .read .error := by
      cases i with
      | read result =>
        rcases readResult_cases result with hresult | ⟨bytes, rfl⟩
        · exact hresult.imp (congrArg _) (congrArg _)
        obtain ⟨m, -, hread⟩ := step_data ht
        rcases readReturns_pc hread with ⟨k, hwait, -⟩ | hwait | ⟨hnone | hnone, -⟩
        · exact Pc.noConfusion (hwait : Pc.readWait n = .read k)
        · exact Pc.noConfusion (hwait : Pc.readWait n = .returned .input)
        · cases hnone
        · cases hnone
      | _ =>
        simp only [Session.step, hpc] at ht
        cases ht
    rcases hi with rfl | rfl
    all_goals
      refine ⟨h.moves ⟨rfl, rfl, rfl⟩ rfl rfl (.inl (by rw [hpc]; exact ⟨rfl, rfl⟩)) hs.symm ?_, rfl⟩
      exact Pc.noConfusion
  · refine ⟨h.resume (.inl (by rw [hpc]; exact ⟨rfl, rfl⟩)) hs.symm (fun _ heq => ?_) Pc.noConfusion, rfl⟩
    rw [hpc] at heq
    cases heq
  · have hne : Pc.returned .input ≠ .returned .output := fun heq => Callee.noConfusion (Pc.returned.inj heq)
    refine ⟨h.resume (.inr ⟨rfl, rfl⟩) hs.symm (fun _ heq => ?_) hne, rfl⟩
    rw [hpc] at heq
    cases heq

theorem Buffered.output (h : Buffered s) (hs : s.pc.callee = .output) {i : Session.Input}
    (ht : s.step dispatch i = some t) {bytes : Bytes} (hbytes : Wire.handed s i = some bytes) :
    Moves s t (arrival (.io i)) bytes := by
  have htotal : ∀ {n}, s.pc = .write n ∨ s.pc = .writeAgain n → n = s.connection.writeBuffer.readAble := by
    intro n hpc
    refine h.total n ?_
    rcases hpc with hpc | hpc <;> rw [hpc] <;> rfl
  unfold Session.step at ht
  split at ht
  case h_7 =>
    obtain rfl := Option.some.inj ht
    obtain rfl := Option.some.inj hbytes
    exact h.enterOutput hs
  case h_8 n result hpc =>
    split at ht
    · obtain rfl := Option.some.inj ht
      obtain rfl := Option.some.inj hbytes
      exact h.moves ⟨rfl, rfl, rfl⟩ rfl rfl (.inl (by rw [hpc]; exact ⟨rfl, rfl⟩)) hs.symm nofun
    · exact h.writeReturns hs (htotal (.inl hpc)) ht hbytes
  case h_9 n hpc =>
    obtain rfl := Option.some.inj ht
    obtain rfl := Option.some.inj hbytes
    exact h.resume (.inl (by rw [hpc]; exact ⟨rfl, rfl⟩)) hs.symm (fun _ heq => by rw [hpc] at heq; cases heq) nofun
  case h_10 n result hpc => exact h.writeReturns hs (htotal (.inr hpc)) ht hbytes
  all_goals
    rename_i hpc
    first
    | rw [hpc] at hs; cases hs
    | cases ht

/-- A step of a call that does not decode. -/
theorem Buffered.call (h : Buffered s) (hs : s.pc ≠ .execute) (hreturned : ∀ callee, s.pc ≠ .returned callee)
    {i : Session.Input} (ht : s.step dispatch i = some t) {bytes : Bytes}
    (hbytes : Wire.handed s i = some bytes) : Moves s t (arrival (.io i)) bytes := by
  cases hcallee : s.pc.callee with
  | input =>
    obtain ⟨hmoves, hnil⟩ := h.input hcallee ht
    obtain rfl := Option.some.inj (hbytes.symm.trans hnil)
    exact hmoves
  | execute =>
    cases hpc : s.pc with
    | execute => exact absurd hpc hs
    | returned callee => exact absurd hpc (hreturned callee)
    | _ =>
      rw [hpc] at hcallee
      cases hcallee
  | output => exact h.output hcallee ht hbytes

/-! ### A step, and a run -/

section
variable {β : Type} (P : Protocol β)

/-- A server that has answered `done`, the first requests of what it got. -/
structure Serves (w : Wire) (got : Bytes) (done : List β) : Prop where
  serving : Serving w.session
  read : done.flatMap P.encode ++ w.session.connection.readBuffer.readable = got
  write : w.taken ++ w.session.connection.writeBuffer.readable = done.flatMap P.answer
  drained : w.session.pc = .returned .execute ∨ w.session.pc.callee = .output →
    P.next w.session.connection.readBuffer.readable = (none, w.session.connection.readBuffer.readable)
  flushed : w.session.pc = .returned .output →
    w.session.connection.writeBuffer.readable = [] ∨ w.session.connection.state ≠ .connected

variable {P} {w : Wire} {got : Bytes} {done todo : List β}

/-- Nothing comes in or goes out. -/
theorem Serves.same (h : Serves P w got done) {s : Session}
    (hserver : s.connection.connectionType = w.session.connection.connectionType)
    (htime : s.connection.isOverTime = w.session.connection.isOverTime)
    (hread : s.connection.readBuffer = w.session.connection.readBuffer)
    (hwrite : s.connection.writeBuffer = w.session.connection.writeBuffer)
    (hpc : s.pc.readCount = w.session.pc.readCount ∧ s.pc.totalSize = w.session.pc.totalSize ∨ s.pc.Quiet)
    (hdrained : s.pc = .returned .execute ∨ s.pc.callee = .output →
      w.session.pc = .returned .execute ∨ w.session.pc.callee = .output)
    (hflushed : s.pc = .returned .output → s.connection.writeBuffer.readable = [] ∨ s.connection.state ≠ .connected) :
    Serves P ⟨s, w.taken ++ []⟩ (got ++ []) done where
  serving := ⟨h.serving.same hread hwrite hpc, hserver.trans h.serving.server, htime.trans h.serving.time⟩
  read := by rw [hread, h.read, List.append_nil]
  write := by rw [hwrite, List.append_nil, h.write]
  drained hs := by
    rw [hread]
    exact h.drained (hdrained hs)
  flushed := hflushed

theorem Serves.shutdown (h : Serves P w got done) :
    Serves P ⟨{w.session with connection := w.session.connection.shutdownConnection}, w.taken ++ []⟩
      (got ++ []) done := by
  unfold TcpConnection.shutdownConnection
  split
  · exact h.same rfl rfl rfl rfl (.inl ⟨rfl, rfl⟩) id h.flushed
  · exact h.same rfl rfl rfl rfl (.inl ⟨rfl, rfl⟩) id fun _ => .inr nofun

theorem Serves.returned (h : Serves P w got done) {callee : Callee} (hpc : w.session.pc = .returned callee) :
    Serves P ⟨{w.session with pc := after callee}, w.taken ++ []⟩ (got ++ []) done := by
  cases callee with
  | input => exact h.same rfl rfl rfl rfl (.inr ⟨rfl, rfl⟩) (by rintro (hs | hs) <;> cases hs) nofun
  | execute => exact h.same rfl rfl rfl rfl (.inr ⟨rfl, rfl⟩) (fun _ => .inl hpc) nofun
  | output => exact h.same rfl rfl rfl rfl (.inr ⟨rfl, rfl⟩) (by rintro (hs | hs) <;> cases hs) nofun

theorem Serves.moves (h : Serves P w got done) {s : Session} {came went : Bytes}
    (hcallee : w.session.pc.callee = .input ∧ went = [] ∨ w.session.pc.callee = .output ∧ came = [])
    (hs : Moves w.session s came went) : Serves P ⟨s, w.taken ++ went⟩ (got ++ came) done where
  serving := ⟨hs.buffered, hs.connectionType.trans h.serving.server, hs.isOverTime.trans h.serving.time⟩
  read := by rw [hs.read, ← List.append_assoc, h.read]
  write := by rw [List.append_assoc, hs.write, h.write]
  drained hpc := by
    have hout : w.session.pc.callee = .output := by
      rw [← hs.callee]
      rcases hpc with hpc | hpc
      · -- what has returned from `execute` was in it
        have hsame := hs.callee
        rw [hpc] at hsame
        rcases hcallee with ⟨hcallee, -⟩ | ⟨hcallee, -⟩ <;> rw [hcallee] at hsame <;> cases hsame
      · exact hpc
    rcases hcallee with ⟨hcallee, -⟩ | ⟨-, rfl⟩
    · rw [hcallee] at hout
      cases hout
    · rw [hs.read, List.append_nil]
      exact h.drained (.inr hout)
  flushed hpc := (hs.flushed hpc).imp_right fun hclosed =>
    hclosed.resolve_right (by rw [hs.isOverTime, h.serving.time]; nofun)

/-- `execute` takes the next request and answers it, or finds none. -/
theorem Serves.execute (h : Serves P w got done) (hgood : ∀ x ∈ done ++ todo, P.Good x)
    (hgot : got <+: (done ++ todo).flatMap P.encode) (hpc : w.session.pc = .execute) {s : Session}
    (hs : ExecutesOne P w.session s) :
    ∃ more rest, todo = more ++ rest ∧ Serves P ⟨s, w.taken ++ []⟩ (got ++ []) (done ++ more) := by
  obtain ⟨later, hlater⟩ := hgot
  rw [← h.read, List.flatMap_append, List.append_assoc, List.append_cancel_left_eq] at hlater
  have hserving := h.serving
  rcases P.frames.attempt (fun x hx => hgood x (List.mem_append_right done hx)) hlater with
    ⟨hwait, -⟩ | ⟨x, rest, more, rfl, hbytes, htake, -⟩
  · simp only [ExecutesOne, hwait] at hs
    obtain ⟨readBuffer, hwf, hreadable, rfl⟩ := hs
    have hwaits : Serving ((w.session.setReadBuffer readBuffer).returns .execute) :=
      ⟨⟨hwf, hserving.writeBuffer, nofun, nofun⟩, hserving.server, hserving.time⟩
    rw [List.append_nil, List.append_nil]
    refine ⟨[], todo, rfl, hwaits, ?_, ?_, ?_, nofun⟩
    · show _ ++ readBuffer.readable = _
      rw [hreadable, List.append_nil, h.read]
    · rw [List.append_nil]
      exact h.write
    · intro _
      show P.next readBuffer.readable = (none, readBuffer.readable)
      rw [hreadable, hwait]
  · simp only [ExecutesOne, htake] at hs
    obtain ⟨readBuffer, writeBuffer, hwf, hreadable, rfl, hanswer⟩ := hs
    obtain ⟨hwwf, hwreadable⟩ := hanswer (hgood x (List.mem_append_right done (List.mem_cons_self ..)))
    have hcount : w.session.pc.readCount = none ∧ w.session.pc.totalSize = none := by rw [hpc]; exact ⟨rfl, rfl⟩
    refine ⟨[x], rest, rfl, ⟨⟨hwf, hwwf, ?_, ?_⟩, hserving.server, hserving.time⟩, ?_, ?_, ?_, ?_⟩
    · intro n hn
      cases hcount.1.symm.trans hn
    · intro n hn
      cases hcount.2.symm.trans hn
    · show _ ++ readBuffer.readable = _
      rw [hreadable, List.append_nil, ← h.read, hbytes, List.flatMap_append, List.append_assoc]
      simp
    · show w.taken ++ [] ++ writeBuffer.readable = _
      rw [hwreadable, List.append_nil, ← List.append_assoc, h.write, List.flatMap_append]
      simp
    · show w.session.pc = .returned .execute ∨ w.session.pc.callee = .output → _
      rw [hpc]
      rintro (heq | heq) <;> cases heq
    · show w.session.pc = .returned .output → _
      rw [hpc]
      nofun

/-- **One step** of the server. -/
theorem Serves.step {step : Session → Server.Input → Option Session} (hstep : Executes P step)
    (h : Serves P w got done) (hgood : ∀ x ∈ done ++ todo, P.Good x) {i : Server.Input}
    (hgot : got ++ arrival i <+: (done ++ todo).flatMap P.encode) {t : Wire} (ht : serve step w i = some t) :
    ∃ more rest, todo = more ++ rest ∧ Serves P t (got ++ arrival i) (done ++ more) := by
  obtain ⟨bytes, hbytes, hs, htaken⟩ := serve_some ht
  have hnone : Serves P t (got ++ arrival i) done →
      ∃ more rest, todo = more ++ rest ∧ Serves P t (got ++ arrival i) (done ++ more) := fun h =>
    ⟨[], todo, rfl, by rwa [List.append_nil]⟩
  obtain ⟨s, taken⟩ := t
  dsimp only at hs htaken
  subst htaken
  cases i with
  | shutdown =>
    obtain rfl := hstep.shutdown hs
    obtain rfl := Option.some.inj hbytes
    exact hnone h.shutdown
  | io i =>
    by_cases hexecute : w.session.pc = .execute
    · obtain ⟨rfl, hone⟩ := hstep.execute h.serving hexecute hs
      obtain rfl := Option.some.inj hbytes
      exact h.execute hgood (by rw [show arrival (.io .advance) = [] from rfl, List.append_nil] at hgot; exact hgot)
        hexecute hone
    by_cases hreturned : ∃ callee, w.session.pc = .returned callee
    · obtain ⟨callee, hreturned⟩ := hreturned
      obtain ⟨rfl, rfl⟩ := hstep.returned hreturned hs
      obtain rfl := Option.some.inj hbytes
      exact hnone (h.returned hreturned)
    · have hcall := hstep.call hexecute (fun callee hpc => hreturned ⟨callee, hpc⟩) hs
      have hmoves := h.serving.call hexecute (fun callee hpc => hreturned ⟨callee, hpc⟩) hcall hbytes
      refine hnone (h.moves ?_ hmoves)
      cases hcallee : w.session.pc.callee with
      | input =>
        obtain ⟨-, hnil⟩ := h.serving.input hcallee hcall
        exact .inl ⟨rfl, Option.some.inj (hbytes.symm.trans hnil)⟩
      | execute => exact absurd (step_execute hcallee hcall).1 hexecute
      | output =>
        refine .inr ⟨rfl, ?_⟩
        cases i with
        | read result =>
          cases result with
          | data data =>
            obtain ⟨n, hpc, -⟩ := step_data hcall
            rcases hpc with hpc | hpc <;> rw [hpc] at hcallee <;> cases hcallee
          | eof => rfl
          | error => rfl
        | _ => rfl

/-- **A whole run**: what went in is the answered requests and what is unread, and what came out
and is left to send is their answers. -/
theorem serve_run {step : Session → Server.Input → Option Session} (hstep : Executes P step) {xs : List β}
    (hgood : ∀ x ∈ xs, P.Good x) {is : List Server.Input} {got : Bytes} {done todo : List β} {w t : Wire}
    (h : Serves P w got done) (hxs : xs = done ++ todo) (harrived : got ++ is.flatMap arrival <+: xs.flatMap P.encode)
    (hr : run (serve step) w is = some t) :
    ∃ done' todo', xs = done' ++ todo' ∧ Serves P t (got ++ is.flatMap arrival) done' := by
  induction is generalizing w got done todo with
  | nil =>
    obtain rfl := Option.some.inj hr
    exact ⟨done, todo, hxs, by rwa [List.flatMap_nil, List.append_nil]⟩
  | cons i rest ih =>
    obtain ⟨u, hu, hrest⟩ := run_cons_some.mp hr
    rw [List.flatMap_cons, ← List.append_assoc] at harrived ⊢
    have hnow := (List.prefix_append (got ++ arrival i) _).trans harrived
    obtain ⟨more, todo', hsplit, hserves⟩ := h.step hstep (hxs ▸ hgood) (hxs ▸ hnow) hu
    exact ih hserves (by rw [hxs, hsplit, List.append_assoc]) harrived hrest

/-- A new connection has answered nothing. -/
theorem serves_initial (fd : Int) {buffSize : Int} (hsize : 0 ≤ buffSize) (hint : buffSize < 2 ^ 31) :
    Serves P ⟨Server.initial fd buffSize, []⟩ [] [] := by
  have hmake := make_wellFormed buffSize hsize hint
  refine ⟨⟨⟨hmake, hmake, nofun, nofun⟩, rfl, rfl⟩, make_readable buffSize, make_readable buffSize, ?_, nofun⟩
  rintro (hpc | hpc) <;> cases hpc

/-- Where `output` has returned on an open connection, all is sent, and no request is left that is
complete. -/
theorem Serves.answered (h : Serves P w got done) (hpc : w.session.pc = .returned .output)
    (hstate : w.session.connection.state = .connected) :
    w.taken = done.flatMap P.answer ∧
      ∀ x, P.Good x → ¬ P.encode x <+: w.session.connection.readBuffer.readable := by
  refine ⟨?_, ?_⟩
  · have hwrite := h.write
    rwa [(h.flushed hpc).resolve_right fun hno => hno hstate, List.append_nil] at hwrite
  · rintro x hx ⟨rest, hrest⟩
    have hnone := h.drained (.inr (by rw [hpc]; rfl))
    rw [← hrest, P.frames.take x rest hx] at hnone
    cases congrArg Prod.fst hnone

end

end CoroutineRpc.Net.Tcp.Serving
