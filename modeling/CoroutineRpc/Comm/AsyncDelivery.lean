import CoroutineRpc.Comm.AsyncLogger
import CoroutineRpc.Library.Progress
import CoroutineRpc.Library.Transition
import Mathlib.Data.List.Infix
import Mathlib.Data.Prod.Lex

/-! What an `AsyncLogger` writes.

At any time the messages that were written, what is left of the worker's task and what is in the
queue are, in this order, the messages that were accepted; and a file holds what it held before
and what was written to it, but for what the open stream still has (`Sound`). The worker flushes
the stream before it says that it has finished a task, and leaves only when the queue is empty
and nothing is accepted any more. That is all that `flush` and `stop` rely on (`delivers`). -/
namespace CoroutineRpc.Comm.AsyncLogger
open Library.Progress Library.Transition
variable {μ : Type} (settings : Settings μ)

/-! ### What is written where -/

/-- What was given to a file, by its stream or not yet. -/
def State.given (s : State μ) (file : Bytes) : Bytes :=
  match s.fileHandle with
  | none => s.files file
  | some stream => s.files file ++ if stream.name = file then stream.held else []

theorem given_none {s : State μ} (h : s.fileHandle = none) (file : Bytes) : s.given file = s.files file := by
  simp only [State.given, h]

theorem given_some {s : State μ} {stream : Stream} (h : s.fileHandle = some stream) (file : Bytes) :
    s.given file = s.files file ++ if stream.name = file then stream.held else [] := by
  simp only [State.given, h]

theorem spill_none {s : State μ} (h : s.fileHandle = none) (n : Nat) : spill s n = s := by
  simp only [spill, h]

theorem spill_some {s : State μ} {stream : Stream} (h : s.fileHandle = some stream) (n : Nat) :
    spill s n = {s with
      files := Function.update s.files stream.name (s.files stream.name ++ stream.held.take n)
      fileHandle := some {stream with held := stream.held.drop n}} := by
  simp only [spill, h]

theorem spill_given (s : State μ) (n : Nat) (file : Bytes) : (spill s n).given file = s.given file := by
  cases hhandle : s.fileHandle with
  | none => rw [spill_none hhandle]
  | some stream =>
    rw [spill_some hhandle, given_some hhandle, given_some rfl]
    dsimp only
    by_cases hname : stream.name = file
    · rw [if_pos hname, if_pos hname, hname, Function.update_self, List.append_assoc, List.take_append_drop]
    · rw [if_neg hname, if_neg hname, Function.update_of_ne (Ne.symm hname)]

theorem fflush_eq (s : State μ) :
    ∃ n, fflush s = spill s n ∧ ∀ stream ∈ s.fileHandle, n = stream.held.length := by
  unfold fflush
  cases hhandle : s.fileHandle with
  | none => exact ⟨0, (spill_none hhandle 0).symm, nofun⟩
  | some stream => exact ⟨_, rfl, fun stream' hstream => by rw [Option.some.inj hstream]⟩

theorem fflush_given (s : State μ) (file : Bytes) : (fflush s).given file = s.given file := by
  obtain ⟨n, heq, -⟩ := fflush_eq s
  rw [heq, spill_given]

/-- Nothing is held back. -/
def State.Flushed (s : State μ) : Prop := ∀ stream ∈ s.fileHandle, stream.held = []

theorem State.Flushed.given {s : State μ} (h : s.Flushed) (file : Bytes) : s.given file = s.files file := by
  cases hhandle : s.fileHandle with
  | none => exact given_none hhandle file
  | some stream =>
    rw [given_some hhandle, h stream hhandle, ite_self, List.append_nil]

theorem fflush_flushed (s : State μ) : (fflush s).Flushed := by
  obtain ⟨n, heq, hn⟩ := fflush_eq s
  intro stream hstream
  rw [heq] at hstream
  cases hhandle : s.fileHandle with
  | none =>
    rw [spill_none hhandle, hhandle] at hstream
    cases hstream
  | some stream' =>
    rw [spill_some hhandle] at hstream
    obtain rfl := Option.some.inj hstream
    rw [hn stream' hhandle]
    exact List.drop_length

theorem closeFile_given (s : State μ) (file : Bytes) : (closeFile s).given file = s.given file := by
  rw [← fflush_given s file, (fflush_flushed s).given file]
  exact given_none rfl file

/-- What the functions on the stream leave. -/
structure Same (s t : State μ) : Prop where
  tasks : t.tasks = s.tasks
  stopping : t.stopping = s.stopping
  writing : t.writing = s.writing
  pc : t.pc = s.pc
  stopper : t.stopper = s.stopper
  accepted : t.accepted = s.accepted
  written : t.written = s.written
  given : ∀ file, t.given file = s.given file

theorem spill_same (s : State μ) (n : Nat) : Same s (spill s n) := by
  refine ⟨?_, ?_, ?_, ?_, ?_, ?_, ?_, spill_given s n⟩ <;>
    (unfold spill; split <;> rfl)

theorem fflush_same (s : State μ) : Same s (fflush s) := by
  obtain ⟨n, heq, -⟩ := fflush_eq s
  rw [heq]
  exact spill_same s n

theorem closeFile_same (s : State μ) : Same s (closeFile s) := by
  obtain ⟨htasks, hstopping, hwriting, hpc, hstopper, haccepted, hwritten, -⟩ := fflush_same s
  exact ⟨htasks, hstopping, hwriting, hpc, hstopper, haccepted, hwritten, closeFile_given s⟩

/-! ### Nothing is lost -/

/-- What of the task is not written yet. -/
def Pc.rest : Pc μ → List μ
  | .next rest => rest
  | .openLogFile _ message rest | .rotateIfNeeded message rest | .write message rest => message :: rest
  | _ => []

/-- The worker has a task. -/
def Pc.inTask : Pc μ → Bool
  | .take | .flushLast | .leave | .done => false
  | _ => true

/-- In front of these the stream was flushed. -/
def Pc.flushed : Pc μ → Bool
  | .take | .finish | .flushLast | .leave | .done => true
  | _ => false

/-- The worker has left the outer loop. -/
def Pc.leaving : Pc μ → Bool
  | .flushLast | .leave | .done => true
  | _ => false

/-- Whether a file is open, where that matters. -/
def Pc.opened : Pc μ → Option Bool
  | .openLogFile .. => some false
  | .rotateIfNeeded .. | .write .. => some true
  | _ => none

/-- The messages that have something to write. -/
def shown (messages : List μ) : List μ := messages.filter fun message => settings.text message ≠ []

/-- What of the messages that were written went to a file. -/
def content (written : List (Bytes × μ)) (file : Bytes) : Bytes :=
  (written.filter fun w => w.1 = file).flatMap fun w => settings.text w.2

/-- What holds in every state of a logger that was made over the files. -/
structure Sound (files : Bytes → Bytes) (s : State μ) : Prop where
  order : s.written.map Prod.snd ++ shown settings (s.pc.rest ++ s.tasks.flatten) =
    shown settings s.accepted.flatten
  given : ∀ file, s.given file = files file ++ content settings s.written file
  flushed : s.pc.flushed = true → s.Flushed
  writing : s.writing = s.pc.inTask
  leaving : s.pc.leaving = true → s.stopping = true ∧ s.tasks = []
  stopper : s.stopper = .closeFile ∨ s.stopper = .returned → s.pc = .done
  /-- Past the test for an empty message there is something to write. -/
  shows : ∀ message ∈ s.pc.rest.head?, (∀ rest, s.pc ≠ .next rest) → settings.text message ≠ []
  handle : ∀ opened ∈ s.pc.opened, s.fileHandle.isSome = opened

variable {settings} {files : Bytes → Bytes}

theorem sound_initial : Sound settings files (initial files) where
  order := rfl
  given _ := (List.append_nil _).symm
  flushed _ := nofun
  writing := rfl
  leaving := nofun
  stopper := nofun
  shows := nofun
  handle := nofun

theorem shown_append (l l' : List μ) : shown settings (l ++ l') = shown settings l ++ shown settings l' :=
  List.filter_append ..

theorem Sound.spill {s : State μ} (h : Sound settings files s) (n : Nat) : Sound settings files (spill s n) := by
  obtain ⟨htasks, hstopping, hwriting, hpc, hstopper, haccepted, hwritten, hgiven⟩ := spill_same s n
  refine ⟨?_, ?_, ?_, ?_, ?_, ?_, ?_, ?_⟩
  · rw [hwritten, hpc, htasks, haccepted]
    exact h.order
  · intro file
    rw [hgiven, hwritten]
    exact h.given file
  · rw [hpc]
    intro hflushed stream hstream
    cases hhandle : s.fileHandle with
    | none =>
      rw [spill_none hhandle, hhandle] at hstream
      cases hstream
    | some stream' =>
      rw [spill_some hhandle] at hstream
      obtain rfl := Option.some.inj hstream
      show stream'.held.drop n = []
      rw [h.flushed hflushed stream' hhandle, List.drop_nil]
  · rw [hwriting, hpc]
    exact h.writing
  · rw [hpc, hstopping, htasks]
    exact h.leaving
  · rw [hstopper, hpc]
    exact h.stopper
  · rw [hpc]
    exact h.shows
  · rw [hpc, show (AsyncLogger.spill s n).fileHandle.isSome = s.fileHandle.isSome by
      unfold AsyncLogger.spill; split <;> simp [*]]
    exact h.handle

theorem Sound.fflush {s : State μ} (h : Sound settings files s) : Sound settings files (fflush s) := by
  obtain ⟨n, heq, -⟩ := fflush_eq s
  rw [heq]
  exact h.spill n

/-- The worker goes on, and the task is as it was. -/
theorem Sound.goes {s t : State μ} (h : Sound settings files s) (hsame : Same s t) (pc : Pc μ)
    (hrest : pc.rest = s.pc.rest) (htask : pc.inTask = s.pc.inTask) (hleaving : pc.leaving = s.pc.leaving)
    (hdone : s.pc ≠ .done) (hflushed : pc.flushed = true → t.Flushed)
    (hshows : ∀ message ∈ pc.rest.head?, (∀ rest, pc ≠ .next rest) → settings.text message ≠ [])
    (hhandle : ∀ opened ∈ pc.opened, t.fileHandle.isSome = opened) : Sound settings files {t with pc} where
  order := by
    show t.written.map Prod.snd ++ shown settings (pc.rest ++ t.tasks.flatten) = shown settings t.accepted.flatten
    rw [hsame.written, hrest, hsame.tasks, hsame.accepted]
    exact h.order
  given file := by
    show t.given file = files file ++ content settings t.written file
    rw [hsame.given, hsame.written]
    exact h.given file
  flushed := hflushed
  writing := by
    show t.writing = pc.inTask
    rw [hsame.writing, htask]
    exact h.writing
  leaving := by
    show pc.leaving = true → t.stopping = true ∧ t.tasks = []
    rw [hleaving, hsame.stopping, hsame.tasks]
    exact h.leaving
  stopper := by
    show t.stopper = .closeFile ∨ t.stopper = .returned → pc = .done
    rw [hsame.stopper]
    exact fun hstopper => absurd (h.stopper hstopper) hdone
  shows := hshows
  handle := hhandle

theorem Same.refl (s : State μ) : Same s s := ⟨rfl, rfl, rfl, rfl, rfl, rfl, rfl, fun _ => rfl⟩

theorem sound_take {s t : State μ} (h : Sound settings files s) (hpc : s.pc = .take) (ht : take s = some t) :
    Sound settings files t := by
  have horder := h.order
  rw [hpc] at horder
  unfold take at ht
  split at ht
  · rename_i task rest htasks
    obtain rfl := Option.some.inj ht
    rw [htasks] at horder
    refine ⟨horder, h.given, nofun, rfl, nofun, fun hstopper => ?_, fun _ _ hno => absurd rfl (hno task), nofun⟩
    rw [h.stopper hstopper] at hpc
    cases hpc
  · rename_i htasks
    split at ht
    · obtain rfl := Option.some.inj ht
      refine ⟨horder, h.given, fun _ => h.flushed (by rw [hpc]; rfl), ?_, fun _ => ⟨‹_›, htasks⟩, ?_, nofun,
        nofun⟩
      · show s.writing = false
        rw [h.writing, hpc]
        rfl
      · intro hstopper
        rw [h.stopper hstopper] at hpc
        cases hpc
    · cases ht

theorem changeDate_same (s : State μ) (date : Bytes) : Same s (changeDate s date) := by
  unfold changeDate
  split
  · exact .refl s
  · obtain ⟨htasks, hstopping, hwriting, hpc, hstopper, haccepted, hwritten, hgiven⟩ := closeFile_same s
    exact ⟨htasks, hstopping, hwriting, hpc, hstopper, haccepted, hwritten, hgiven⟩

theorem sound_findLogFile {s t : State μ} {message : μ} {rest : List μ} (h : Sound settings files s)
    (hpc : s.pc = .next (message :: rest)) (hshows : settings.text message ≠ []) (hsame : Same s t) :
    Sound settings files (findLogFile t message rest) := by
  have hdone : s.pc ≠ .done := by
    rw [hpc]
    nofun
  have hmessage : ∀ m ∈ (message :: rest).head?, settings.text m ≠ [] := by
    rintro _ ⟨⟩
    exact hshows
  unfold findLogFile
  split
  · rename_i hstream
    refine h.goes hsame (.rotateIfNeeded message rest) (by rw [hpc]; rfl) (by rw [hpc]; rfl) (by rw [hpc]; rfl)
      hdone nofun (fun m hm _ => hmessage m hm) ?_
    rintro _ ⟨⟩
    rw [hstream]
    rfl
  · rename_i hnone
    refine h.goes hsame (.openLogFile false message rest) (by rw [hpc]; rfl) (by rw [hpc]; rfl) (by rw [hpc]; rfl)
      hdone nofun (fun m hm _ => hmessage m hm) ?_
    rintro _ ⟨⟩
    rw [hnone]
    rfl

theorem sound_nextMessage {s : State μ} {date : Bytes} {rest : List μ} (h : Sound settings files s)
    (hpc : s.pc = .next rest) : Sound settings files (nextMessage settings s date rest) := by
  have hdone : s.pc ≠ .done := by
    rw [hpc]
    nofun
  cases rest with
  | nil =>
    exact h.goes (.refl s) .flushTask (by rw [hpc]; rfl) (by rw [hpc]; rfl) (by rw [hpc]; rfl) hdone nofun nofun
      nofun
  | cons message rest =>
    simp only [nextMessage]
    split
    swap
    · exact sound_findLogFile h hpc ‹_› (changeDate_same s date)
    -- an empty message is passed over
    rename_i hempty
    have horder := h.order
    rw [hpc] at horder
    have hdrop : shown settings (message :: rest) = shown settings rest :=
      List.filter_cons_of_neg (by simp [hempty])
    refine ⟨?_, h.given, nofun, ?_, nofun, ?_, fun _ _ hno => absurd rfl (hno rest), nofun⟩
    · show s.written.map Prod.snd ++ shown settings (rest ++ s.tasks.flatten) = shown settings s.accepted.flatten
      rw [← horder, shown_append, ← hdrop, ← shown_append]
      rfl
    · show s.writing = true
      rw [h.writing, hpc]
      rfl
    · exact fun hstopper => absurd (h.stopper hstopper) hdone

theorem sound_openLogFile {s t : State μ} {rotating : Bool} {message : μ} {rest : List μ}
    (h : Sound settings files s) (hpc : s.pc = .openLogFile rotating message rest)
    (ht : openLogFile settings s rotating message rest = some t) : Sound settings files t := by
  have hnone : s.fileHandle = none := by
    rw [← Option.not_isSome_iff_eq_none, h.handle false (by rw [hpc]; rfl)]
    exact Bool.false_ne_true
  have hdone : s.pc ≠ .done := by
    rw [hpc]
    nofun
  have hmessage : ∀ m ∈ (message :: rest).head?, settings.text m ≠ [] := by
    intro m hm
    apply h.shows m
    · rw [hpc]
      exact hm
    · rw [hpc]
      nofun
  unfold openLogFile at ht
  dsimp only at ht
  split at ht
  · obtain rfl := Option.some.inj ht
    have hsame : Same s {s with
        fileHandle := some ⟨makeFileName settings s, []⟩
        fileSize := (s.files (makeFileName settings s)).length} := by
      refine ⟨rfl, rfl, rfl, rfl, rfl, rfl, rfl, fun file => ?_⟩
      rw [given_some rfl, given_none hnone, ite_self, List.append_nil]
    cases rotating with
    | true =>
      exact h.goes hsame (.write message rest) (by rw [hpc]; rfl) (by rw [hpc]; rfl) (by rw [hpc]; rfl) hdone
        nofun (fun m hm _ => hmessage m hm) fun _ hopened => Option.some.inj hopened
    | false =>
      exact h.goes hsame (.rotateIfNeeded message rest) (by rw [hpc]; rfl) (by rw [hpc]; rfl) (by rw [hpc]; rfl)
        hdone nofun (fun m hm _ => hmessage m hm) fun _ hopened => Option.some.inj hopened
  · obtain ⟨fileNo, -, ht⟩ := Option.bind_eq_some_iff.mp ht
    obtain rfl := Option.some.inj ht
    have hgiven : ∀ file, State.given {s with fileNo, fileHandle := none, fileSize := 0} file = s.given file := by
      intro file
      rw [given_none hnone, given_none rfl]
    refine ⟨h.order, fun file => (hgiven file).trans (h.given file), ?_, h.writing, h.leaving, h.stopper,
      h.shows, ?_⟩
    · intro hflushed
      rw [show s.pc.flushed = false by rw [hpc]; rfl] at hflushed
      cases hflushed
    · show ∀ opened ∈ s.pc.opened, _
      rw [hpc]
      exact fun _ hopened => Option.some.inj hopened

theorem sound_rotateIfNeeded {s t : State μ} {message : μ} {rest : List μ}
    (h : Sound settings files s) (hpc : s.pc = .rotateIfNeeded message rest)
    (ht : rotateIfNeeded settings s message rest = some t) : Sound settings files t := by
  have hdone : s.pc ≠ .done := by
    rw [hpc]
    nofun
  have hmessage : ∀ m ∈ (message :: rest).head?, settings.text m ≠ [] := by
    intro m hm
    apply h.shows m
    · rw [hpc]
      exact hm
    · rw [hpc]
      nofun
  unfold rotateIfNeeded at ht
  dsimp only at ht
  split at ht
  · obtain rfl := Option.some.inj ht
    have hopened := h.handle
    rw [hpc] at hopened
    exact h.goes (.refl s) (.write message rest) (by rw [hpc]; rfl) (by rw [hpc]; rfl) (by rw [hpc]; rfl) hdone
      nofun (fun m hm _ => hmessage m hm) hopened
  · obtain ⟨fileNo, -, ht⟩ := Option.bind_eq_some_iff.mp ht
    obtain rfl := Option.some.inj ht
    obtain ⟨htasks, hstopping, hwriting, hpc', hstopper, haccepted, hwritten, hgiven⟩ := closeFile_same s
    have hsame : Same s {closeFile s with fileNo} :=
      ⟨htasks, hstopping, hwriting, hpc', hstopper, haccepted, hwritten, hgiven⟩
    exact h.goes hsame (.openLogFile true message rest) (by rw [hpc]; rfl) (by rw [hpc]; rfl) (by rw [hpc]; rfl)
      hdone nofun (fun m hm _ => hmessage m hm) fun _ hopened => Option.some.inj hopened

theorem content_append (written : List (Bytes × μ)) (name : Bytes) (message : μ) (file : Bytes) :
    content settings (written ++ [(name, message)]) file =
      content settings written file ++ if name = file then settings.text message else [] := by
  unfold content
  rw [List.filter_append, List.flatMap_append]
  by_cases hname : name = file
  · simp [hname]
  · simp [hname]

theorem sound_fwrite {s t : State μ} {message : μ} {rest : List μ} (h : Sound settings files s)
    (hpc : s.pc = .write message rest) (ht : fwrite settings s message rest = some t) :
    Sound settings files t := by
  obtain ⟨stream, hstream, rfl⟩ := Option.map_eq_some_iff.mp ht
  have horder := h.order
  have hshows : settings.text message ≠ [] := by
    apply h.shows message
    · rw [hpc]
      rfl
    · rw [hpc]
      nofun
  rw [hpc] at horder
  refine ⟨?_, fun file => ?_, nofun, ?_, nofun, ?_, fun _ _ hno => absurd rfl (hno rest), nofun⟩
  · have hkeep : shown settings (message :: rest ++ s.tasks.flatten) =
        message :: shown settings (rest ++ s.tasks.flatten) :=
      List.filter_cons_of_pos (by simpa using hshows)
    show (s.written ++ [(stream.name, message)]).map Prod.snd ++ shown settings (rest ++ s.tasks.flatten) = _
    rw [← horder, List.map_append, List.append_assoc]
    exact congrArg (s.written.map Prod.snd ++ ·) hkeep.symm
  · have hgiven := h.given file
    rw [given_some hstream] at hgiven
    rw [given_some rfl, content_append, ← List.append_assoc, ← hgiven]
    dsimp only
    by_cases hname : stream.name = file
    · rw [if_pos hname, if_pos hname, if_pos hname, List.append_assoc]
    · rw [if_neg hname, if_neg hname, if_neg hname, List.append_nil, List.append_nil]
  · show s.writing = true
    rw [h.writing, hpc]
    rfl
  · intro hstopper
    rw [h.stopper hstopper] at hpc
    cases hpc

/-- Every step of the worker. -/
theorem sound_execute {s t : State μ} {date : Bytes} (h : Sound settings files s)
    (ht : execute settings s date = some t) : Sound settings files t := by
  unfold execute at ht
  split at ht
  · exact sound_take h ‹_› ht
  · obtain rfl := Option.some.inj ht
    exact sound_nextMessage h ‹_›
  · exact sound_openLogFile h ‹_› ht
  · exact sound_rotateIfNeeded h ‹_› ht
  · exact sound_fwrite h ‹_› ht
  · rename_i hpc
    obtain rfl := Option.some.inj ht
    exact h.goes (fflush_same s) .finish (by rw [hpc]; rfl) (by rw [hpc]; rfl) (by rw [hpc]; rfl)
      (by rw [hpc]; nofun) (fun _ => fflush_flushed s) nofun nofun
  · rename_i hpc
    obtain rfl := Option.some.inj ht
    have horder := h.order
    rw [hpc] at horder
    refine ⟨horder, h.given, fun _ => h.flushed (by rw [hpc]; rfl), rfl, nofun, fun hstopper => ?_, nofun, nofun⟩
    rw [h.stopper hstopper] at hpc
    cases hpc
  · rename_i hpc
    obtain rfl := Option.some.inj ht
    exact h.goes (fflush_same s) .leave (by rw [hpc]; rfl) (by rw [hpc]; rfl) (by rw [hpc]; rfl)
      (by rw [hpc]; nofun) (fun _ => fflush_flushed s) nofun nofun
  · rename_i hpc
    obtain rfl := Option.some.inj ht
    have horder := h.order
    rw [hpc] at horder
    exact ⟨horder, h.given, fun _ => h.flushed (by rw [hpc]; rfl), rfl, fun _ => h.leaving (by rw [hpc]; rfl),
      fun _ => rfl, nofun, nofun⟩
  · cases ht

theorem sound_push {s : State μ} (h : Sound settings files s) (buffer : List μ) :
    Sound settings files (push s buffer) := by
  unfold push
  split
  · exact h
  split
  · exact h
  rename_i hstopping
  refine ⟨?_, h.given, h.flushed, h.writing, fun hleaving => ?_, h.stopper, h.shows, h.handle⟩
  · show s.written.map Prod.snd ++ shown settings (s.pc.rest ++ (s.tasks ++ [buffer]).flatten) =
      shown settings (s.accepted ++ [buffer]).flatten
    rw [List.flatten_concat, List.flatten_concat, ← List.append_assoc s.pc.rest, shown_append _ buffer,
      shown_append _ buffer, ← h.order, List.append_assoc]
  · exact absurd (h.leaving hleaving).1 hstopping

theorem sound_stopper {s t : State μ} (h : Sound settings files s) (ht : stopper s = some t) :
    Sound settings files t := by
  unfold stopper at ht
  split at ht
  · rename_i hpc
    obtain rfl := Option.some.inj ht
    exact ⟨h.order, h.given, h.flushed, h.writing, h.leaving, fun _ => hpc, h.shows, h.handle⟩
  · rename_i hstopper
    obtain rfl := Option.some.inj ht
    have hpc := h.stopper (.inl hstopper)
    obtain ⟨htasks, hstopping, hwriting, hpc', -, haccepted, hwritten, hgiven⟩ := closeFile_same s
    refine ⟨?_, fun file => (hgiven file).trans ?_, fun _ => nofun, ?_, fun _ => ?_, fun _ => hpc'.trans hpc,
      ?_, ?_⟩
    · show (closeFile s).written.map Prod.snd ++
        shown settings ((closeFile s).pc.rest ++ (closeFile s).tasks.flatten) =
          shown settings (closeFile s).accepted.flatten
      rw [hwritten, hpc', htasks, haccepted]
      exact h.order
    · show s.given file = files file ++ content settings (closeFile s).written file
      rw [hwritten]
      exact h.given file
    · show (closeFile s).writing = (closeFile s).pc.inTask
      rw [hwriting, hpc']
      exact h.writing
    · show (closeFile s).stopping = true ∧ (closeFile s).tasks = []
      rw [hstopping, htasks]
      exact h.leaving (by rw [hpc]; rfl)
    · show ∀ message ∈ (closeFile s).pc.rest.head?, _
      rw [hpc', hpc]
      nofun
    · show ∀ opened ∈ (closeFile s).pc.opened, _
      rw [hpc', hpc]
      nofun
  · cases ht

theorem sound_stop {s t : State μ} (h : Sound settings files s) (ht : stop s = some t) :
    Sound settings files t := by
  unfold stop at ht
  split at ht
  · obtain rfl := Option.some.inj ht
    exact ⟨h.order, h.given, h.flushed, h.writing, fun hleaving => ⟨rfl, (h.leaving hleaving).2⟩, nofun, h.shows,
      h.handle⟩
  · obtain rfl := Option.some.inj ht
    exact h
  · cases ht

theorem flush_some {s t : State μ} (ht : flush s = some t) : s.tasks = [] ∧ s.writing = false ∧ t = fflush s := by
  unfold flush at ht
  split at ht
  · exact ⟨‹_›, ‹_›, (Option.some.inj ht).symm⟩
  · cases ht

theorem sound_step {s t : State μ} {i : Input μ} (h : Sound settings files s) (ht : step settings s i = some t) :
    Sound settings files t := by
  cases i with
  | push buffer =>
    obtain rfl := Option.some.inj ht
    exact sound_push h buffer
  | flush =>
    obtain ⟨-, -, rfl⟩ := flush_some ht
    exact h.fflush
  | stop => exact sound_stop h ht
  | stopper => exact sound_stopper h ht
  | worker date => exact sound_execute h ht
  | spill n =>
    obtain rfl := Option.some.inj ht
    exact h.spill n

theorem sound_run {s : State μ} {is : List (Input μ)} (hr : run (step settings) (initial files) is = some s) :
    Sound settings files s :=
  (always_of_inductive (fun _ _ _ h ht => sound_step h ht) sound_initial is).last hr

/-! ### What `flush` and `stop` wait for -/

/-- The messages of the batches are written before all others, in their order, and the files hold
what was written. -/
structure Delivered (settings : Settings μ) (files : Bytes → Bytes) (batches : List (List μ)) (s : State μ) :
    Prop where
  written : shown settings batches.flatten <+: s.written.map Prod.snd
  stored : ∀ file, s.files file = files file ++ content settings s.written file

/-- Where the stream was flushed and nothing is left of the tasks, everything is written. -/
theorem Sound.delivered {s : State μ} (h : Sound settings files s) (hrest : s.pc.rest = [])
    (htasks : s.tasks = []) (hflushed : s.Flushed) : s.written.map Prod.snd = shown settings s.accepted.flatten ∧
      Delivered settings files s.accepted s := by
  have hall : s.written.map Prod.snd = shown settings s.accepted.flatten := by
    rw [← h.order, hrest, htasks]
    exact (List.append_nil _).symm
  exact ⟨hall, hall ▸ List.prefix_refl _, fun file => (hflushed.given file).symm.trans (h.given file)⟩

/-- What the worker leaves to the others. -/
structure Kept (s t : State μ) : Prop where
  stopping : t.stopping = s.stopping
  stopper : t.stopper = s.stopper
  accepted : t.accepted = s.accepted

theorem Same.kept {s t : State μ} (h : Same s t) : Kept s t := ⟨h.stopping, h.stopper, h.accepted⟩

theorem execute_kept {s t : State μ} {date : Bytes} (ht : execute settings s date = some t) : Kept s t := by
  unfold execute at ht
  split at ht
  · unfold take at ht
    split at ht
    · obtain rfl := Option.some.inj ht
      exact ⟨rfl, rfl, rfl⟩
    split at ht
    · obtain rfl := Option.some.inj ht
      exact ⟨rfl, rfl, rfl⟩
    · cases ht
  · obtain rfl := Option.some.inj ht
    unfold nextMessage
    split
    · exact ⟨rfl, rfl, rfl⟩
    split
    · exact ⟨rfl, rfl, rfl⟩
    · obtain ⟨hstopping, hstopper, haccepted⟩ := (changeDate_same s date).kept
      unfold findLogFile
      split <;> exact ⟨hstopping, hstopper, haccepted⟩
  · unfold openLogFile at ht
    dsimp only at ht
    split at ht
    · obtain rfl := Option.some.inj ht
      exact ⟨rfl, rfl, rfl⟩
    · obtain ⟨fileNo, -, ht⟩ := Option.bind_eq_some_iff.mp ht
      obtain rfl := Option.some.inj ht
      exact ⟨rfl, rfl, rfl⟩
  · unfold rotateIfNeeded at ht
    dsimp only at ht
    split at ht
    · obtain rfl := Option.some.inj ht
      exact ⟨rfl, rfl, rfl⟩
    · obtain ⟨fileNo, -, ht⟩ := Option.bind_eq_some_iff.mp ht
      obtain rfl := Option.some.inj ht
      obtain ⟨hstopping, hstopper, haccepted⟩ := (closeFile_same s).kept
      exact ⟨hstopping, hstopper, haccepted⟩
  · obtain ⟨stream, -, rfl⟩ := Option.map_eq_some_iff.mp ht
    exact ⟨rfl, rfl, rfl⟩
  · obtain rfl := Option.some.inj ht
    obtain ⟨hstopping, hstopper, haccepted⟩ := (fflush_same s).kept
    exact ⟨hstopping, hstopper, haccepted⟩
  · obtain rfl := Option.some.inj ht
    exact ⟨rfl, rfl, rfl⟩
  · obtain rfl := Option.some.inj ht
    obtain ⟨hstopping, hstopper, haccepted⟩ := (fflush_same s).kept
    exact ⟨hstopping, hstopper, haccepted⟩
  · obtain rfl := Option.some.inj ht
    exact ⟨rfl, rfl, rfl⟩
  · cases ht

/-- Batches that were accepted stay so. -/
theorem step_accepted {s t : State μ} {i : Input μ} (ht : step settings s i = some t) :
    s.accepted <+: t.accepted := by
  cases i with
  | push buffer =>
    obtain rfl := Option.some.inj ht
    unfold push
    split
    · exact List.prefix_refl _
    split
    · exact List.prefix_refl _
    · exact List.prefix_append _ _
  | flush =>
    obtain ⟨-, -, rfl⟩ := flush_some ht
    exact (fflush_same s).accepted ▸ List.prefix_refl _
  | stop =>
    simp only [step, stop] at ht
    split at ht
    · obtain rfl := Option.some.inj ht
      exact List.prefix_refl _
    · obtain rfl := Option.some.inj ht
      exact List.prefix_refl _
    · cases ht
  | stopper =>
    simp only [step, stopper] at ht
    split at ht
    · obtain rfl := Option.some.inj ht
      exact List.prefix_refl _
    · obtain rfl := Option.some.inj ht
      show s.accepted <+: (closeFile s).accepted
      exact (closeFile_same s).accepted ▸ List.prefix_refl _
    · cases ht
  | worker date => exact (execute_kept ht).accepted ▸ List.prefix_refl _
  | spill n =>
    obtain rfl := Option.some.inj ht
    exact (spill_same s n).accepted ▸ List.prefix_refl _

theorem run_accepted {s t : State μ} {is : List (Input μ)} (hr : run (step settings) s is = some t) :
    s.accepted <+: t.accepted := by
  induction is generalizing s with
  | nil => exact Option.some.inj hr ▸ List.prefix_refl _
  | cons i rest ih =>
    obtain ⟨u, hu, hr⟩ := run_cons_some.mp hr
    exact (step_accepted hu).trans (ih hr)

theorem Delivered.of_begins {batches batches' : List (List μ)} {s : State μ}
    (h : Delivered settings files batches' s) (hbegins : batches <+: batches') :
    Delivered settings files batches s := by
  refine ⟨?_, h.stored⟩
  obtain ⟨later, rfl⟩ := hbegins
  refine List.IsPrefix.trans ?_ h.written
  rw [List.flatten_append, shown_append]
  exact List.prefix_append _ _

/-- Behind the wait of `flush` the queue and the worker have nothing. -/
theorem flush_delivered {s t : State μ} (h : Sound settings files s) (ht : flush s = some t) :
    t.written.map Prod.snd = shown settings s.accepted.flatten ∧ Delivered settings files s.accepted t := by
  obtain ⟨htasks, hwriting, rfl⟩ := flush_some ht
  have hsame := fflush_same s
  have hrest : (AsyncLogger.fflush s).pc.rest = [] := by
    rw [hsame.pc]
    have htask := h.writing
    rw [hwriting] at htask
    cases hpc : s.pc <;> rw [hpc] at htask <;> first | rfl | cases htask
  rw [← hsame.accepted]
  exact h.fflush.delivered hrest (hsame.tasks.trans htasks) (fflush_flushed s)

/-- And behind `stop` the worker is done. -/
theorem stop_delivered {s : State μ} (h : Sound settings files s) (hs : s.stopper = .returned) :
    s.written.map Prod.snd = shown settings s.accepted.flatten ∧ Delivered settings files s.accepted s := by
  have hpc := h.stopper (.inr hs)
  refine h.delivered (by rw [hpc]; rfl) (h.leaving (by rw [hpc]; rfl)).2 (h.flushed (by rw [hpc]; rfl))

/-! ### The worker gets there -/

/-- The worker alone, with the dates it will read; the number counts its steps. -/
def works (settings : Settings μ) (dates : Nat → Bytes) (c : State μ × Nat) : Option (State μ × Nat) :=
  (execute settings c.1 (dates c.2)).map fun t => (t, c.2 + 1)

/-- The numbers of the files are used up. -/
def Full (s : State μ) : Prop := int (s.fileNo + 1) = none

/-- What is left to do of the task and of the queue. -/
def left (s : State μ) : Nat := s.pc.rest.length + (s.tasks.map fun task => task.length + 1).sum

/-- The steps between two messages, counted from the last. -/
def Pc.place : Pc μ → Nat
  | .next _ => 7
  | .openLogFile false _ _ => 6
  | .rotateIfNeeded .. => 5
  | .openLogFile true _ _ => 4
  | .write .. => 3
  | .flushTask => 2
  | .finish => 1
  | _ => 0

/-- How far the worker is from the end of the queue. -/
def far (s : State μ) : Nat ×ₗ Nat ×ₗ Nat := toLex (left s, toLex (s.pc.place, (2 ^ 31 - s.fileNo).toNat))

theorem far_left {s t : State μ} (h : left t < left s) : far t < far s :=
  Prod.Lex.toLex_lt_toLex.mpr (.inl h)

theorem far_place {s t : State μ} (hrest : t.pc.rest = s.pc.rest) (htasks : t.tasks = s.tasks)
    (h : t.pc.place < s.pc.place) : far t < far s := by
  have hleft : left t = left s := by
    unfold left
    rw [hrest, htasks]
  exact Prod.Lex.toLex_lt_toLex.mpr (.inr ⟨hleft, Prod.Lex.toLex_lt_toLex.mpr (.inl h)⟩)

theorem execute_nextMessage {s : State μ} {date : Bytes} {rest : List μ} (hpc : s.pc = .next rest) :
    far (nextMessage settings s date rest) < far s := by
  cases rest with
  | nil => exact far_place (by rw [hpc]; rfl) rfl (by rw [hpc]; show 2 < 7; omega)
  | cons message rest =>
    simp only [nextMessage]
    split
    · apply far_left
      unfold left
      rw [hpc]
      simp only [Pc.rest, List.length_cons]
      omega
    · have hsame := changeDate_same s date
      unfold findLogFile
      split
      · exact far_place (by rw [hpc]; rfl) hsame.tasks (by rw [hpc]; show 5 < 7; omega)
      · exact far_place (by rw [hpc]; rfl) hsame.tasks (by rw [hpc]; show 6 < 7; omega)

/-- Each step of the worker brings it nearer, unless there is nothing to do or no number left. -/
theorem execute_far {s : State μ} {date : Bytes} (h : Sound settings files s) :
    Delivered settings files s.accepted s ∨ Full s ∨ ∃ t, execute settings s date = some t ∧ far t < far s := by
  unfold execute
  cases hpc : s.pc with
  | take =>
    unfold take
    cases htasks : s.tasks with
    | nil => exact .inl (h.delivered (by rw [hpc]; rfl) htasks (h.flushed (by rw [hpc]; rfl))).2
    | cons task rest =>
      refine .inr (.inr ⟨_, rfl, far_left ?_⟩)
      unfold left
      rw [hpc, htasks]
      simp only [Pc.rest, List.map_cons, List.sum_cons, List.length_nil]
      omega
  | next rest => exact .inr (.inr ⟨_, rfl, execute_nextMessage hpc⟩)
  | openLogFile rotating message rest =>
    dsimp only
    unfold openLogFile
    dsimp only
    split
    · refine .inr (.inr ⟨_, rfl, ?_⟩)
      cases rotating with
      | true => exact far_place (by rw [hpc]; rfl) rfl (by rw [hpc]; show 3 < 4; omega)
      | false => exact far_place (by rw [hpc]; rfl) rfl (by rw [hpc]; show 5 < 6; omega)
    · cases hint : int (s.fileNo + 1) with
      | none => exact .inr (.inl hint)
      | some fileNo =>
        refine .inr (.inr ⟨_, rfl, ?_⟩)
        obtain ⟨rfl, -, hlast⟩ := eq_of_int hint
        refine Prod.Lex.toLex_lt_toLex.mpr (.inr ⟨rfl, Prod.Lex.toLex_lt_toLex.mpr (.inr ⟨rfl, ?_⟩)⟩)
        show (2 ^ 31 - (s.fileNo + 1)).toNat < (2 ^ 31 - s.fileNo).toNat
        omega
  | rotateIfNeeded message rest =>
    dsimp only
    unfold rotateIfNeeded
    dsimp only
    split
    · exact .inr (.inr ⟨_, rfl, far_place (by rw [hpc]; rfl) rfl (by rw [hpc]; show 3 < 5; omega)⟩)
    · cases hint : int (s.fileNo + 1) with
      | none => exact .inr (.inl hint)
      | some fileNo =>
        refine .inr (.inr ⟨_, rfl, ?_⟩)
        exact far_place (by rw [hpc]; rfl) (closeFile_same s).tasks (by rw [hpc]; show 4 < 5; omega)
  | write message rest =>
    have hopened := h.handle true (by rw [hpc]; rfl)
    obtain ⟨stream, hstream⟩ := Option.isSome_iff_exists.mp hopened
    refine .inr (.inr ⟨_, congrArg (Option.map _) hstream, far_left ?_⟩)
    unfold left
    rw [hpc]
    simp only [Pc.rest, List.length_cons]
    omega
  | flushTask =>
    refine .inr (.inr ⟨_, rfl, ?_⟩)
    exact far_place (by rw [hpc]; rfl) (fflush_same s).tasks (by rw [hpc]; show 1 < 2; omega)
  | finish => exact .inr (.inr ⟨_, rfl, far_place (by rw [hpc]; rfl) rfl (by rw [hpc]; show 0 < 1; omega)⟩)
  | flushLast =>
    have htasks := (h.leaving (by rw [hpc]; rfl)).2
    exact .inl (h.delivered (by rw [hpc]; rfl) htasks (h.flushed (by rw [hpc]; rfl))).2
  | leave =>
    have htasks := (h.leaving (by rw [hpc]; rfl)).2
    exact .inl (h.delivered (by rw [hpc]; rfl) htasks (h.flushed (by rw [hpc]; rfl))).2
  | done =>
    have htasks := (h.leaving (by rw [hpc]; rfl)).2
    exact .inl (h.delivered (by rw [hpc]; rfl) htasks (h.flushed (by rw [hpc]; rfl))).2

/-- **What was accepted gets written**, if only the worker goes on. -/
theorem works_delivers {s : State μ} (h : Sound settings files s) (dates : Nat → Bytes) (n : Nat) :
    Eventually (works settings dates) (fun c => Delivered settings files s.accepted c.1 ∨ Full c.1) (s, n) := by
  have hstep : ∀ far' (c : State μ × Nat), Sound settings files c.1 ∧ c.1.accepted = s.accepted ∧ far' = far c.1 →
      (Delivered settings files s.accepted c.1 ∨ Full c.1) ∨ ∃ d, works settings dates c = some d ∧
        ((Delivered settings files s.accepted d.1 ∨ Full d.1) ∨ ∃ far'' < far',
          Sound settings files d.1 ∧ d.1.accepted = s.accepted ∧ far'' = far d.1) := by
    rintro _ ⟨t, m⟩ ⟨ht, haccepted, rfl⟩
    dsimp only at ht haccepted
    rcases @execute_far μ settings files t (dates m) ht with hdelivered | hfull | ⟨u, hu, hless⟩
    · exact .inl (.inl (haccepted ▸ hdelivered))
    · exact .inl (.inr hfull)
    · refine .inr ⟨(u, m + 1), by rw [works, hu]; rfl, .inr ⟨far u, hless, sound_execute ht hu, ?_, rfl⟩⟩
      exact (execute_kept hu).accepted.trans haccepted
  exact eventually_of_variant hstep ⟨h, rfl, rfl⟩

theorem push_accepted (s : State μ) {buffer : List μ} (hne : buffer ≠ []) (hstopping : ¬ s.stopping) :
    (push s buffer).accepted = s.accepted ++ [buffer] := by
  cases buffer with
  | nil => exact absurd rfl hne
  | cons message rest =>
    show (if s.stopping then s else _).accepted = _
    rw [if_neg hstopping]

/-- What a logger owes in a state that it has come to. -/
structure Owes (settings : Settings μ) (files : Bytes → Bytes) (s : State μ) : Prop where
  /-- Until it is told to stop it accepts every batch. -/
  accepts : ∀ buffer, buffer ≠ [] → ¬ s.stopping → (push s buffer).accepted = s.accepted ++ [buffer]
  /-- What is written was accepted: each message once and whole, in the order of the batches. -/
  order : s.written.map Prod.snd <+: shown settings s.accepted.flatten
  given : ∀ file, s.given file = files file ++ content settings s.written file
  /-- When a `flush` that is called here returns, what was accepted before is in the files. -/
  flush : ∀ is t u, run (step settings) s is = some t → flush t = some u →
    Delivered settings files s.accepted u
  stop : s.stopper = .returned → s.written.map Prod.snd = shown settings s.accepted.flatten ∧
    Delivered settings files s.accepted s
  works : ∀ dates n, Eventually (works settings dates)
    (fun c => Delivered settings files s.accepted c.1 ∨ Full c.1) (s, n)

/-- **The logger loses nothing and changes no order**, whoever pushes, flushes and stops it, and
however they take turns with the worker. -/
theorem delivers (settings : Settings μ) (files : Bytes → Bytes) (is : List (Input μ)) :
    Always (step settings) (Owes settings files) (initial files) is := by
  have hsound : Always (step settings) (Sound settings files) (initial files) is :=
    always_of_inductive (fun _ _ _ h ht => sound_step h ht) sound_initial is
  refine hsound.imp fun s h => ⟨fun _ => push_accepted s, ?_, h.given, ?_, stop_delivered h, works_delivers h⟩
  · rw [← h.order]
    exact List.prefix_append _ _
  · intro js t u hr hflush
    have ht : Sound settings files t := (always_of_inductive (fun _ _ _ h ht => sound_step h ht) h js).last hr
    exact (flush_delivered ht hflush).2.of_begins (run_accepted hr)

end CoroutineRpc.Comm.AsyncLogger
