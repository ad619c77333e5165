import CoroutineRpc.Net.Http.Head

/-! Header blocks of any kind.

A line of a block is read up to its first colon: a name must stand there that is not all
blank. A block is parsed when every line that is not empty has one, and the last line with
a name gives its value (`parseHttpRequestHeader_iff`). A later colon does not help a line
that begins with one. -/
namespace CoroutineRpc.Net.Http
open Comm.StringUtil Library.Search

/-- A character other than space and tab. -/
def NotBlank (text : Bytes) : Prop := ∃ c ∈ text, isBlank c = false

/-- The line has a name in front of its first colon. -/
def HasName (line : Bytes) : Prop := ∃ name value, FirstCut (ascii ":") line name value ∧ NotBlank name

/-- `value` is the trimmed text behind the first colon of a line named `key`, in any case. -/
def Names (key line value : Bytes) : Prop :=
  ∃ name text, FirstCut (ascii ":") line name text ∧
    normalizeHeaderKey (trim name) = normalizeHeaderKey key ∧ value = trim text

/-! ### A line -/

theorem trim_eq_nil {value : Bytes} (h : ¬ NotBlank value) : trim value = [] := by
  have hblank : ∀ c ∈ value, isBlank c = true := fun c hc => by
    cases hc' : isBlank c with
    | true => rfl
    | false => exact absurd ⟨c, hc, hc'⟩ h
  rw [trim, List.dropWhile_eq_nil_iff.mpr hblank]
  rfl

theorem parseLine_ok {line key value : Bytes} : parseLine line = .ok (key, value) ↔
    ∃ name text, FirstCut (ascii ":") line name text ∧ NotBlank name ∧ key = trim name ∧ value = trim text := by
  cases hf : find (ascii ":") line with
  | none =>
    simp only [parseLine, hf]
    constructor
    · intro h
      cases h
    · rintro ⟨name, text, hcut, -⟩
      exact absurd hcut (not_firstCut hf name text)
  | some separator =>
    have hcut : FirstCut (ascii ":") line (line.take separator) (line.drop (separator + 1)) :=
      firstCut_of_find hf
    have honly : (∃ name text, FirstCut (ascii ":") line name text ∧ NotBlank name ∧ key = trim name ∧
        value = trim text) ↔ NotBlank (line.take separator) ∧ key = trim (line.take separator) ∧
          value = trim (line.drop (separator + 1)) := by
      constructor
      · rintro ⟨name, text, h, hparts⟩
        obtain ⟨rfl, rfl⟩ := hcut.unique h
        exact hparts
      · exact fun hparts => ⟨_, _, hcut, hparts⟩
    rw [honly]
    by_cases hname : NotBlank (line.take separator)
    · have hkey := trim_ne_nil hname
      have hpos : separator ≠ 0 := by
        rintro rfl
        exact hkey rfl
      obtain ⟨n, rfl⟩ := Nat.exists_eq_succ_of_ne_zero hpos
      simp only [parseLine, hf, if_neg hkey]
      simp [hname, eq_comm]
    · have hkey := trim_eq_nil hname
      have herror : ∃ e, parseLine line = .error e := by
        cases separator with
        | zero => exact ⟨.malformedHeader, by simp only [parseLine, hf]⟩
        | succ n => exact ⟨.emptyHeaderName, by simp only [parseLine, hf, if_pos hkey]⟩
      obtain ⟨e, he⟩ := herror
      simp [he, hname]

theorem hasName_iff {line : Bytes} : HasName line ↔ ∃ item, parseLine line = .ok item := by
  constructor
  · rintro ⟨name, text, hcut, hname⟩
    exact ⟨(trim name, trim text), parseLine_ok.mpr ⟨name, text, hcut, hname, rfl, rfl⟩⟩
  · rintro ⟨item, hitem⟩
    obtain ⟨name, text, hcut, hname, -⟩ := parseLine_ok.mp hitem
    exact ⟨name, text, hcut, hname⟩

/-! ### The lines -/

theorem parseLines_none (request : HttpRequest) (lines : List Bytes) :
    (parseLines request lines).2 = none ↔ ∀ line ∈ lines, HasName line := by
  induction lines generalizing request with
  | nil => simp [parseLines]
  | cons line lines ih =>
    rw [List.forall_mem_cons, hasName_iff, parseLines]
    cases hline : parseLine line with
    | error e => simp
    | ok item => simp [ih]

theorem parseLines_concat {request parsed : HttpRequest} {lines : List Bytes}
    (h : parseLines request lines = (parsed, none)) (line : Bytes) :
    parseLines request (lines ++ [line]) = parseLines parsed [line] := by
  induction lines generalizing request with
  | nil => rw [← (Prod.mk.inj h).1, List.nil_append]
  | cons first lines ih =>
    rw [List.cons_append, parseLines]
    rw [parseLines] at h
    cases hfirst : parseLine first with
    | error e => simp [hfirst] at h
    | ok item =>
      rw [hfirst] at h
      exact ih h

/-- **The last line with a name sets its value.** -/
theorem parseLines_lookup {parsed : HttpRequest} {lines : List Bytes}
    (h : parseLines {} lines = (parsed, none)) (key value : Bytes) :
    parsed.requestHeader.maps[normalizeHeaderKey key]? = some value ↔
      LastGives (Names key) lines value := by
  induction lines using List.reverseRecOn generalizing parsed value with
  | nil =>
    obtain rfl := (Prod.mk.inj h).1
    simp
  | append_singleton lines line ih =>
    have hlines : (parseLines {} (lines ++ [line])).2 = none := by rw [h]
    rw [parseLines_none] at hlines
    have hfront := (parseLines_none {} lines).mpr fun l hl => hlines l (List.mem_append_left _ hl)
    have hbefore : parseLines {} lines = ((parseLines {} lines).1, none) := Prod.ext rfl hfront
    obtain ⟨name, text, hcut, hname⟩ := hlines line (by simp)
    have hline : parseLine line = .ok (trim name, trim text) :=
      parseLine_ok.mpr ⟨name, text, hcut, hname, rfl, rfl⟩
    rw [parseLines_concat hbefore, parseLines, hline] at h
    obtain rfl := (Prod.mk.inj h).1
    have hgives : ∀ value, Names key line value ↔
        normalizeHeaderKey (trim name) = normalizeHeaderKey key ∧ value = trim text := by
      refine fun value => ⟨?_, fun hparts => ⟨name, text, hcut, hparts⟩⟩
      rintro ⟨name', text', hcut', hparts⟩
      obtain ⟨rfl, rfl⟩ := hcut.unique hcut'
      exact hparts
    rw [HttpHeaderComm.setKeyValue_lookup, lastGives_concat, hgives]
    split
    · rename_i hkey
      simp [hgives, hkey, eq_comm]
    · rename_i hkey
      simp [hgives, hkey, ih hbefore]

/-! ### The block -/

theorem parseHttpRequestHeader_pieces (headers : Bytes) : parseHttpRequestHeader {} headers =
    parseLines {} ((pieces kHttpCrlf headers).filter (· ≠ [])) := by
  rw [parseHttpRequestHeader, splitStrToVector_eq _ kHttpCrlf_ne_nil, List.nil_append]
  split
  · rename_i hnil
    subst hnil
    rw [pieces_none (find_eq_none.mpr fun h => kHttpCrlf_ne_nil (List.infix_nil.mp h))]
    rfl
  · rfl

theorem not_names_nil (key value : Bytes) : ¬ Names key [] value := by
  rintro ⟨name, text, hcut, -⟩
  exact absurd hcut.whole.symm (by simp [ascii])

/-- **A header block is parsed** when a name stands before the first colon of every line, and
then each key has what the last line with it gives. -/
theorem parseHttpRequestHeader_iff (headers : Bytes) : ∃ lines : List Bytes, Cutting kHttpCrlf headers lines ∧
    ((parseHttpRequestHeader {} headers).2 = none ↔ ∀ line ∈ lines, line ≠ [] → HasName line) ∧
    ((parseHttpRequestHeader {} headers).2 = none → ∀ key,
      (∀ value, LastGives (Names key) lines value →
        (parseHttpRequestHeader {} headers).1.requestHeader.getValue key = value) ∧
      ((∀ line ∈ lines, ∀ value, ¬ Names key line value) →
        (parseHttpRequestHeader {} headers).1.requestHeader.getValue key = [])) := by
  refine ⟨pieces kHttpCrlf headers, cutting_pieces kHttpCrlf_ne_nil, ?_, fun hparsed key => ?_⟩
  · rw [parseHttpRequestHeader_pieces, parseLines_none]
    simp
  · rw [parseHttpRequestHeader_pieces] at hparsed ⊢
    have hlookup : ∀ value, (parseLines {} _).1.requestHeader.maps[normalizeHeaderKey key]? = some value ↔
        LastGives (Names key) (pieces kHttpCrlf headers) value := fun value => by
      rw [parseLines_lookup (Prod.ext rfl hparsed) key value, lastGives_filter]
      intro line hline value'
      obtain rfl : line = [] := by simpa using hline
      exact not_names_nil key value'
    constructor
    · intro value hvalue
      rw [HttpHeaderComm.getValue, (hlookup value).mpr hvalue]
      rfl
    · intro hnone
      rw [HttpHeaderComm.getValue]
      cases hmap : (parseLines {} ((pieces kHttpCrlf headers).filter (· ≠ []))).1.requestHeader.maps[
          normalizeHeaderKey key]? with
      | none => rfl
      | some value =>
        obtain ⟨before, line, after, hlines, hgives, -⟩ := (hlookup value).mp hmap
        exact absurd hgives (hnone line (by rw [hlines]; simp) value)

/-- The second colon of this line has a name before it, but the line is not parsed. -/
theorem not_parsed_of_laterColon : ¬ ∀ headers : Bytes,
    ((parseHttpRequestHeader {} headers).2 = none ↔ ∀ line ∈ pieces kHttpCrlf headers, line ≠ [] →
      ∃ before after, line = before ++ byte ':' :: after ∧ NotBlank before) := by
  intro h
  have hpieces : pieces kHttpCrlf (ascii ":a:b") = [ascii ":a:b"] := pieces_none (by decide)
  have hparsed : (parseHttpRequestHeader {} (ascii ":a:b")).2 = none := by
    rw [h, hpieces]
    intro line hline _
    obtain rfl := List.mem_singleton.mp hline
    exact ⟨ascii ":a", ascii "b", by decide, byte 'a', by decide, by decide⟩
  have hline : parseLine (ascii ":a:b") = .error .malformedHeader := by
    simp only [parseLine, show find (ascii ":") (ascii ":a:b") = some 0 by decide]
  rw [parseHttpRequestHeader_pieces, hpieces, parseLines_none] at hparsed
  obtain ⟨item, hitem⟩ := hasName_iff.mp (hparsed (ascii ":a:b") (by decide))
  rw [hline] at hitem
  cases hitem

end CoroutineRpc.Net.Http
