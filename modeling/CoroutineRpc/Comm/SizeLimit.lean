import CoroutineRpc.Comm.AsyncDelivery

/-! How large a log file becomes.

`rotateIfNeeded` keeps a message out of a file that it does not fit into, and goes over to the next
file; but whether it fits into that one is not looked at, and an earlier logger may have written to it.
While every rotation comes to a file with room, or an empty one, no file that is not empty grows past
the limit (`within_limit`), and otherwise one does (`breaks_limit`). -/
namespace CoroutineRpc.Comm.AsyncLogger
open Library.Transition
variable {μ : Type} (settings : Settings μ)

inductive Event (μ : Type) where
  | input (i : Input μ)
  /-- The process ends, and the next one makes a logger over the files that are there. -/
  | restart

def event (s : State μ) : Event μ → Option (State μ)
  | .input i => step settings s i
  | .restart => some (initial s.files)

/-- A file that grows was empty, or it stays within the limit. -/
def Within (s t : State μ) : Prop :=
  ∀ file, (s.given file).length < (t.given file).length →
    s.given file = [] ∨ (t.given file).length ≤ settings.maxSize

/-- The message that a rotation is made for. -/
def Pc.rotates : Pc μ → Option μ
  | .openLogFile true message _ => some message
  | _ => none

/-- The file that a rotation opens is empty, or the message fits into it. -/
def HasRoom (s : State μ) : Event μ → Prop
  | .input (.worker _) => ∀ message ∈ s.pc.rotates,
    (s.files (makeFileName settings s)).length < settings.maxSize →
      s.files (makeFileName settings s) = [] ∨
        (s.files (makeFileName settings s)).length + (settings.text message).length ≤ settings.maxSize
  | _ => True

instance (s : State μ) : ∀ e : Event μ, Decidable (HasRoom settings s e)
  | .input (.worker _) => inferInstanceAs (Decidable (∀ message ∈ s.pc.rotates, _ → _ ∨ _))
  | .input (.push _) | .input .flush | .input .stop | .input .stopper | .input (.spill _) | .restart =>
    inferInstanceAs (Decidable True)

/-- What holds in every state of a logger whose rotations find room. -/
structure Sized (s : State μ) : Prop where
  sound : ∃ files, Sound settings files s
  size : ∀ stream ∈ s.fileHandle, s.fileSize = (s.given stream.name).length
  fits : ∀ message rest, s.pc = .write message rest →
    s.fileSize = 0 ∨ s.fileSize + (settings.text message).length ≤ settings.maxSize

variable {settings} {s t : State μ}

theorem sized_initial (files : Bytes → Bytes) : Sized settings (initial files) :=
  ⟨⟨files, sound_initial⟩, nofun, nofun⟩

theorem within_of_le (h : ∀ file, (t.given file).length ≤ (s.given file).length) : Within settings s t :=
  fun file hlt => absurd hlt (Nat.not_lt.mpr (h file))

/-- Nothing is written, and the file that is open stays open or is closed. -/
theorem Sized.same (h : Sized settings s) (hsound : ∃ files, Sound settings files t)
    (hgiven : ∀ file, t.given file = s.given file)
    (hhandle : ∀ stream ∈ t.fileHandle, t.fileSize = s.fileSize ∧ ∃ old ∈ s.fileHandle, old.name = stream.name)
    (hfits : ∀ message rest, t.pc = .write message rest →
      t.fileSize = 0 ∨ t.fileSize + (settings.text message).length ≤ settings.maxSize) :
    Sized settings t ∧ Within settings s t := by
  refine ⟨⟨hsound, fun stream hstream => ?_, hfits⟩, within_of_le fun file => by rw [hgiven]⟩
  obtain ⟨hsize, old, hold, hname⟩ := hhandle stream hstream
  rw [hsize, hgiven, ← hname]
  exact h.size old hold

/-! ### The stream -/

theorem spill_handle (s : State μ) (n : Nat) :
    (spill s n).fileSize = s.fileSize ∧ (spill s n).pc = s.pc ∧
      ∀ stream ∈ (spill s n).fileHandle, ∃ old ∈ s.fileHandle, old.name = stream.name := by
  cases hhandle : s.fileHandle with
  | none =>
    rw [spill_none hhandle, hhandle]
    exact ⟨rfl, rfl, nofun⟩
  | some old =>
    rw [spill_some hhandle]
    refine ⟨rfl, rfl, fun stream hstream => ⟨old, rfl, ?_⟩⟩
    rw [← Option.some.inj hstream]

theorem Sized.spill (h : Sized settings s) (n : Nat) :
    Sized settings (spill s n) ∧ Within settings s (AsyncLogger.spill s n) := by
  obtain ⟨hsize, hpc, hhandle⟩ := spill_handle s n
  obtain ⟨files, hsound⟩ := h.sound
  refine h.same ⟨files, hsound.spill n⟩ (spill_given s n) (fun stream hstream => ⟨hsize, hhandle stream hstream⟩) ?_
  rw [hsize, hpc]
  exact h.fits

theorem Sized.fflush (h : Sized settings s) :
    Sized settings (fflush s) ∧ Within settings s (AsyncLogger.fflush s) := by
  obtain ⟨n, heq, -⟩ := fflush_eq s
  rw [heq]
  exact h.spill n

theorem fflush_handle (s : State μ) : (fflush s).fileSize = s.fileSize ∧
    ∀ stream ∈ (fflush s).fileHandle, ∃ old ∈ s.fileHandle, old.name = stream.name := by
  obtain ⟨n, heq, -⟩ := fflush_eq s
  rw [heq]
  exact ⟨(spill_handle s n).1, (spill_handle s n).2.2⟩

theorem changeDate_handle (s : State μ) (date : Bytes) : ∀ stream ∈ (changeDate s date).fileHandle,
    (changeDate s date).fileSize = s.fileSize ∧ ∃ old ∈ s.fileHandle, old.name = stream.name := by
  unfold changeDate
  split
  · exact fun stream hstream => ⟨rfl, stream, hstream, rfl⟩
  · nofun

theorem findLogFile_handle (s : State μ) (message : μ) (rest : List μ) :
    (findLogFile s message rest).fileHandle = s.fileHandle ∧ (findLogFile s message rest).fileSize = s.fileSize ∧
      (∀ file, (findLogFile s message rest).given file = s.given file) ∧
      ∀ m r, (findLogFile s message rest).pc ≠ .write m r := by
  unfold findLogFile
  split
  · exact ⟨rfl, rfl, fun _ => rfl, nofun⟩
  · exact ⟨rfl, rfl, fun _ => rfl, nofun⟩

/-! ### The worker -/

theorem Sized.nextMessage (h : Sized settings s) {date : Bytes} {rest : List μ} (hpc : s.pc = .next rest) :
    Sized settings (nextMessage settings s date rest) ∧
      Within settings s (AsyncLogger.nextMessage settings s date rest) := by
  obtain ⟨files, hsound⟩ := h.sound
  have hnext : Sound settings files (AsyncLogger.nextMessage settings s date rest) :=
    sound_nextMessage hsound hpc
  have hstays : ∀ stream ∈ s.fileHandle, s.fileSize = s.fileSize ∧ ∃ old ∈ s.fileHandle, old.name = stream.name :=
    fun stream hstream => ⟨rfl, stream, hstream, rfl⟩
  unfold AsyncLogger.nextMessage at hnext ⊢
  split at hnext
  · exact h.same ⟨files, hnext⟩ (fun _ => rfl) hstays nofun
  split at hnext
  · rename_i hempty
    rw [if_pos hempty]
    exact h.same ⟨files, hnext⟩ (fun _ => rfl) hstays nofun
  rename_i message rest hempty
  rw [if_neg hempty]
  obtain ⟨hhandle, hsize, hgiven, hwrite⟩ := findLogFile_handle (changeDate s date) message rest
  refine h.same ⟨files, hnext⟩ (fun file => (hgiven file).trans ((changeDate_same s date).given file)) ?_
    fun m r heq => absurd heq (hwrite m r)
  rw [hhandle, hsize]
  exact changeDate_handle s date

/-- A file that is opened has its size counted, and a rotation may write to it. -/
theorem Sized.openLogFile (hmax : 0 < settings.maxSize) (h : Sized settings s) {rotating : Bool} {message : μ}
    {rest : List μ} (hpc : s.pc = .openLogFile rotating message rest) {date : Bytes}
    (hroom : HasRoom settings s (.input (.worker date))) (ht : openLogFile settings s rotating message rest = some t) :
    Sized settings t ∧ Within settings s t := by
  obtain ⟨files, hsound⟩ := h.sound
  have hsound' := sound_openLogFile hsound hpc ht
  have hnone : s.fileHandle = none := by
    rw [← Option.not_isSome_iff_eq_none, hsound.handle false (by rw [hpc]; rfl)]
    exact Bool.false_ne_true
  rw [HasRoom, hpc] at hroom
  unfold AsyncLogger.openLogFile at ht
  dsimp only at ht
  split at ht
  · rename_i hfits
    obtain rfl := Option.some.inj ht
    refine ⟨⟨⟨files, hsound'⟩, fun stream hstream => ?_, fun m r heq => ?_⟩, within_of_le fun file => ?_⟩
    · obtain rfl := Option.some.inj hstream
      rw [given_some rfl, ite_self, List.append_nil]
    · cases rotating with
      | false => cases heq
      | true =>
        obtain ⟨rfl, rfl⟩ := Pc.write.inj heq
        exact (hroom message rfl (hfits.resolve_left (by omega))).imp_left fun hnil => by
          show (s.files (makeFileName settings s)).length = 0
          rw [hnil]
          rfl
    · rw [given_some rfl, given_none hnone, ite_self, List.append_nil]
  · obtain ⟨fileNo, -, ht⟩ := Option.bind_eq_some_iff.mp ht
    obtain rfl := Option.some.inj ht
    refine ⟨⟨⟨files, hsound'⟩, nofun, fun _ _ _ => .inl rfl⟩, within_of_le fun file => ?_⟩
    rw [given_none hnone, given_none rfl]

theorem Sized.rotateIfNeeded (hmax : 0 < settings.maxSize) (h : Sized settings s) {message : μ} {rest : List μ}
    (hpc : s.pc = .rotateIfNeeded message rest) (ht : rotateIfNeeded settings s message rest = some t) :
    Sized settings t ∧ Within settings s t := by
  obtain ⟨files, hsound⟩ := h.sound
  have hsound' := sound_rotateIfNeeded hsound hpc ht
  unfold AsyncLogger.rotateIfNeeded at ht
  dsimp only at ht
  split at ht
  · rename_i hfits
    obtain rfl := Option.some.inj ht
    refine h.same ⟨files, hsound'⟩ (fun _ => rfl) (fun stream hstream => ⟨rfl, stream, hstream, rfl⟩) ?_
    intro m r heq
    obtain ⟨rfl, rfl⟩ := Pc.write.inj heq
    exact hfits.resolve_left (by omega)
  · obtain ⟨fileNo, -, ht⟩ := Option.bind_eq_some_iff.mp ht
    obtain rfl := Option.some.inj ht
    exact h.same ⟨files, hsound'⟩ (closeFile_given s) nofun nofun

/-- **A write** stays within the limit, or the file was empty. -/
theorem Sized.fwrite (h : Sized settings s) {message : μ} {rest : List μ} (hpc : s.pc = .write message rest)
    (ht : fwrite settings s message rest = some t) : Sized settings t ∧ Within settings s t := by
  obtain ⟨files, hsound⟩ := h.sound
  have hsound' := sound_fwrite hsound hpc ht
  obtain ⟨stream, hstream, rfl⟩ := Option.map_eq_some_iff.mp ht
  have hsize := h.size stream hstream
  have hgiven : ∀ file, State.given {s with
      fileHandle := some {stream with held := stream.held ++ settings.text message}
      fileSize := s.fileSize + (settings.text message).length
      written := s.written ++ [(stream.name, message)]
      pc := .next rest} file = s.given file ++ if stream.name = file then settings.text message else [] := by
    intro file
    rw [given_some hstream, given_some rfl]
    dsimp only
    by_cases hname : stream.name = file
    · rw [if_pos hname, if_pos hname, if_pos hname, List.append_assoc]
    · rw [if_neg hname, if_neg hname, if_neg hname, List.append_nil, List.append_nil]
  refine ⟨⟨⟨files, hsound'⟩, fun stream' hstream' => ?_, nofun⟩, fun file hlt => ?_⟩
  · obtain rfl := Option.some.inj hstream'
    rw [hgiven, if_pos rfl, List.length_append, ← hsize]
  · rw [hgiven] at hlt ⊢
    by_cases hname : stream.name = file
    · subst hname
      rw [if_pos rfl, List.length_append, ← hsize]
      rcases h.fits message rest hpc with hempty | hfits
      · exact .inl (List.length_eq_zero_iff.mp (hsize.symm.trans hempty))
      · exact .inr hfits
    · rw [if_neg hname, List.append_nil] at hlt
      exact absurd hlt (Nat.lt_irrefl _)

theorem Sized.execute (hmax : 0 < settings.maxSize) (h : Sized settings s) {date : Bytes}
    (hroom : HasRoom settings s (.input (.worker date))) (ht : execute settings s date = some t) :
    Sized settings t ∧ Within settings s t := by
  have hstays : ∀ stream ∈ s.fileHandle, s.fileSize = s.fileSize ∧ ∃ old ∈ s.fileHandle, old.name = stream.name :=
    fun stream hstream => ⟨rfl, stream, hstream, rfl⟩
  obtain ⟨files, hsound⟩ := h.sound
  have hsound' := sound_execute hsound ht
  unfold AsyncLogger.execute at ht
  split at ht
  · unfold take at ht
    split at ht
    · obtain rfl := Option.some.inj ht
      exact h.same ⟨files, hsound'⟩ (fun _ => rfl) hstays nofun
    · split at ht
      · obtain rfl := Option.some.inj ht
        exact h.same ⟨files, hsound'⟩ (fun _ => rfl) hstays nofun
      · cases ht
  · obtain rfl := Option.some.inj ht
    exact h.nextMessage ‹_›
  · exact h.openLogFile hmax ‹_› hroom ht
  · exact h.rotateIfNeeded hmax ‹_› ht
  · exact h.fwrite ‹_› ht
  · obtain rfl := Option.some.inj ht
    exact h.same ⟨files, hsound'⟩ (fflush_given s)
      (fun stream hstream => ⟨(fflush_handle s).1, (fflush_handle s).2 stream hstream⟩) nofun
  · obtain rfl := Option.some.inj ht
    exact h.same ⟨files, hsound'⟩ (fun _ => rfl) hstays nofun
  · obtain rfl := Option.some.inj ht
    exact h.same ⟨files, hsound'⟩ (fflush_given s)
      (fun stream hstream => ⟨(fflush_handle s).1, (fflush_handle s).2 stream hstream⟩) nofun
  · obtain rfl := Option.some.inj ht
    exact h.same ⟨files, hsound'⟩ (fun _ => rfl) hstays nofun
  · cases ht

/-! ### Any run -/

theorem Sized.event (hmax : 0 < settings.maxSize) (h : Sized settings s) {e : Event μ} (hroom : HasRoom settings s e)
    (ht : event settings s e = some t) : Sized settings t ∧ Within settings s t := by
  have hstays : ∀ stream ∈ s.fileHandle, s.fileSize = s.fileSize ∧ ∃ old ∈ s.fileHandle, old.name = stream.name :=
    fun stream hstream => ⟨rfl, stream, hstream, rfl⟩
  obtain ⟨files, hsound⟩ := h.sound
  cases e with
  | restart =>
    obtain rfl := Option.some.inj ht
    refine ⟨sized_initial s.files, within_of_le fun file => ?_⟩
    rw [show (initial (μ := μ) s.files).given file = s.files file from rfl]
    cases hhandle : s.fileHandle with
    | none => rw [given_none hhandle]
    | some stream =>
      rw [given_some hhandle, List.length_append]
      exact Nat.le_add_right _ _
  | input i =>
    have hsound' := sound_step hsound ht
    cases i with
    | push buffer =>
      obtain rfl := Option.some.inj ht
      unfold push at hsound' ⊢
      split
      · exact ⟨h, within_of_le fun _ => Nat.le_refl _⟩
      split
      · exact ⟨h, within_of_le fun _ => Nat.le_refl _⟩
      · rename_i hstopping
        simp only [if_neg hstopping] at hsound'
        exact h.same ⟨files, hsound'⟩ (fun _ => rfl) hstays h.fits
    | flush =>
      obtain ⟨-, -, rfl⟩ := flush_some ht
      exact h.fflush
    | stop =>
      simp only [AsyncLogger.event, step, stop] at ht
      split at ht
      · obtain rfl := Option.some.inj ht
        exact h.same ⟨files, hsound'⟩ (fun _ => rfl) hstays h.fits
      · obtain rfl := Option.some.inj ht
        exact ⟨h, within_of_le fun _ => Nat.le_refl _⟩
      · cases ht
    | stopper =>
      simp only [AsyncLogger.event, step, stopper] at ht
      split at ht
      · obtain rfl := Option.some.inj ht
        exact h.same ⟨files, hsound'⟩ (fun _ => rfl) hstays h.fits
      · obtain rfl := Option.some.inj ht
        exact h.same ⟨files, hsound'⟩ (closeFile_given s) (fun stream hstream => by cases hstream)
          fun _ _ _ => .inl rfl
      · cases ht
    | worker date => exact h.execute hmax hroom ht
    | spill n =>
      obtain rfl := Option.some.inj ht
      exact h.spill n

/-- **No write makes a file larger than the limit that was not empty**, in every run of loggers one
after the other, whatever files there were, while each rotation comes to a file with room. -/
theorem within_limit (settings : Settings μ) (hmax : 0 < settings.maxSize) (files : Bytes → Bytes) (es : List (Event μ))
    (hroom : Meets (event settings) (HasRoom settings) (initial files) es) :
    Meets (event settings) (fun s e => ∀ t, event settings s e = some t → Within settings s t) (initial files) es :=
  Meets.imp_of_step (fun _ _ _ h hg ht => (h.event hmax hg ht).1) (fun _ _ h hg _ ht => (h.event hmax hg ht).2)
    (sized_initial files) hroom

/-- **Without the room the message that is written next goes past the limit.** -/
theorem breaks_limit {files : Bytes → Bytes} (h : Sound settings files s) {message : μ} {rest : List μ}
    (hpc : s.pc = .openLogFile true message rest) {date : Bytes}
    (hroom : ¬ HasRoom settings s (.input (.worker date))) (date' : Bytes) :
    ∃ t u, execute settings s date = some t ∧ execute settings t date' = some u ∧ ¬ Within settings t u := by
  obtain ⟨hsize, hne, hlarge⟩ : (s.files (makeFileName settings s)).length < settings.maxSize ∧
      s.files (makeFileName settings s) ≠ [] ∧
      ¬ (s.files (makeFileName settings s)).length + (settings.text message).length ≤ settings.maxSize := by
    refine Classical.byContradiction fun hnot => hroom ?_
    rw [HasRoom, hpc]
    intro m hm hsize
    obtain rfl := Option.some.inj hm
    exact Classical.byContradiction fun hor => hnot ⟨hsize, not_or.mp hor⟩
  have hnone : s.fileHandle = none := by
    rw [← Option.not_isSome_iff_eq_none, h.handle false (by rw [hpc]; rfl)]
    exact Bool.false_ne_true
  have hopens : execute settings s date = some {s with
      fileHandle := some ⟨makeFileName settings s, []⟩
      fileSize := (s.files (makeFileName settings s)).length
      pc := .write message rest} := by
    simp only [execute, hpc, openLogFile, if_pos (Or.inr hsize), if_true, Option.pure_def]
  refine ⟨_, _, hopens, rfl, fun hwithin => ?_⟩
  have hlt : 0 < (settings.text message).length := by omega
  have := hwithin (makeFileName settings s)
  rw [given_some rfl, given_some rfl] at this
  simp only [if_true, List.append_nil, List.nil_append, List.length_append] at this
  rcases this (by omega) with hnil | hle
  · exact hne hnil
  · omega

/-- Files of at most ten bytes. -/
def tenBytes : Settings Bytes := ⟨ascii "a", ascii "./", 10, .appLog, id⟩

/-- The first two files of a day, with eight bytes each. -/
def earlier (file : Bytes) : Bytes :=
  if file = ascii "./a_20240101_app_0.log" ∨ file = ascii "./a_20240101_app_1.log" then List.replicate 8 0 else []

def writes : Event Bytes := .input (.worker (ascii "20240101"))

/-- The worker takes a message of five bytes, and finds a file for it. -/
def oneMessage : List (Event Bytes) := .input (.push [List.replicate 5 1]) :: List.replicate 5 writes

/-- The first file of a day, with eight bytes. -/
def firstFile (file : Bytes) : Bytes :=
  if file = ascii "./a_20240101_app_0.log" then List.replicate 8 0 else []

/-- Two messages, which go to one new file each. -/
def twoMessages : List (Event Bytes) :=
  .input (.push [List.replicate 5 1, List.replicate 6 2]) :: List.replicate 11 writes

theorem within_limit_rotated :
    ((run (event tenBytes) (initial firstFile) twoMessages).map State.written = some
      [(ascii "./a_20240101_app_1.log", List.replicate 5 1), (ascii "./a_20240101_app_2.log", List.replicate 6 2)]) ∧
      Meets (event tenBytes) (fun s e => ∀ t, event tenBytes s e = some t → Within tenBytes s t) (initial firstFile)
        twoMessages :=
  ⟨by decide +kernel, within_limit tenBytes (by decide) firstFile twoMessages (by decide +kernel)⟩

/-- The rotation goes from the first file to the second, and the message to that. -/
theorem not_within_limit : ¬ ∀ (settings : Settings Bytes) (files : Bytes → Bytes) (es : List (Event Bytes)),
    0 < settings.maxSize → Meets (event settings)
      (fun s e => ∀ t, event settings s e = some t → Within settings s t) (initial files) es := by
  intro h
  have hmeets := h tenBytes earlier (oneMessage ++ [writes]) (by decide)
  have hbefore : (run (event tenBytes) (initial earlier) oneMessage).map
      (fun s => (s.given (ascii "./a_20240101_app_1.log")).length) = some 8 := by decide +kernel
  have hafter : (run (event tenBytes) (initial earlier) (oneMessage ++ [writes])).map
      (fun s => (s.given (ascii "./a_20240101_app_1.log")).length) = some 13 := by decide +kernel
  obtain ⟨s, hs, height⟩ := Option.map_eq_some_iff.mp hbefore
  obtain ⟨t, ht, hthirteen⟩ := Option.map_eq_some_iff.mp hafter
  rw [run_append, hs, Option.bind_some] at ht
  obtain ⟨u, hu, hdone⟩ := run_cons_some.mp ht
  obtain rfl := Option.some.inj hdone
  have hwithin := hmeets.at_step hs u hu (ascii "./a_20240101_app_1.log")
  rw [height, hthirteen] at hwithin
  rcases hwithin (by decide) with hnil | hle
  · rw [hnil] at height
    cases height
  · exact absurd hle (by decide)

end CoroutineRpc.Comm.AsyncLogger
