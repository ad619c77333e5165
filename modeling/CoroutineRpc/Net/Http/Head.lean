import CoroutineRpc.Net.Http.HttpCodec

/-! Heads: lines with a line end behind each, and an empty line.

A line may hold anything but a line end. The first empty line is then where the head says
it is (`find_headerEnd`), whatever lone `CR`s and `LF`s the lines hold; and if there are no
`CR`s, `SplitStrToVector` gives the lines back (`splitStrToVector_joined`). -/
namespace CoroutineRpc.Net.Http
open Comm.StringUtil Library.Search

def cr : Byte := byte '\r'
def lf : Byte := byte '\n'

theorem kHttpCrlf_eq : kHttpCrlf = [cr, lf] := by decide

theorem kHttpHeaderEnd_eq : kHttpHeaderEnd = [cr, lf, cr, lf] := by decide

theorem kHttpCrlf_ne_nil : kHttpCrlf ≠ [] := by decide

/-- A line as it may stand in a head. -/
structure IsLine (line : Bytes) : Prop where
  nonempty : line ≠ []
  unbroken : ¬ kHttpCrlf <:+: line

theorem isLine_of_not_mem {line : Bytes} (hne : line ≠ []) (h : cr ∉ line) : IsLine line where
  nonempty := hne
  unbroken hinside := h (hinside.subset (by decide))

/-- A part without a `CR` in front changes nothing. -/
theorem IsLine.append {line : Bytes} (hcr : cr ∉ line) (hne : line ≠ []) {value : Bytes}
    (hvalue : ¬ kHttpCrlf <:+: value) : IsLine (line ++ value) where
  nonempty := List.append_ne_nil_of_left_ne_nil hne value
  unbroken hinside := by
    obtain ⟨i, hi⟩ := find_infix hinside
    rw [kHttpCrlf_eq, find_skip hcr] at hi
    obtain ⟨j, hj, -⟩ := Option.map_eq_some_iff.mp hi
    exact hvalue (kHttpCrlf_eq ▸ infix_of_find hj)

/-- Lines with line ends between them. -/
def joined (line : Bytes) : List Bytes → Bytes
  | [] => line
  | next :: lines => line ++ (kHttpCrlf ++ joined next lines)

/-- Every line is ended. -/
theorem flatMap_crlf (line : Bytes) (lines : List Bytes) :
    (line :: lines).flatMap (· ++ kHttpCrlf) = joined line lines ++ kHttpCrlf := by
  induction lines generalizing line with
  | nil => simp [joined]
  | cons next lines ih => rw [List.flatMap_cons, ih, joined, List.append_assoc, List.append_assoc,
      List.append_assoc]

/-! ### The end of the head -/

/-- A line does not begin with a line end, whatever it ends in. -/
theorem IsLine.not_prefix {line : Bytes} (h : IsLine line) (more : Bytes) :
    ¬ [cr, lf] <+: line ++ (kHttpCrlf ++ more) := by
  obtain ⟨a, line, rfl⟩ := List.exists_cons_of_ne_nil h.nonempty
  intro hpre
  obtain ⟨rfl, hlf⟩ := List.cons_prefix_cons.mp hpre
  cases line with
  | nil =>
    rw [kHttpCrlf_eq] at hlf
    exact absurd (List.cons_prefix_cons.mp hlf).1 (by decide)
  | cons b line =>
    obtain ⟨rfl, -⟩ := List.cons_prefix_cons.mp hlf
    exact h.unbroken (kHttpCrlf_eq ▸ (List.prefix_append [cr, lf] line).isInfix)

/-- The head does not end in a line. -/
theorem find_line {line : Bytes} (h : ¬ kHttpCrlf <:+: line) (more : Bytes) :
    find kHttpHeaderEnd (line ++ (kHttpCrlf ++ more)) =
      (find kHttpHeaderEnd (kHttpCrlf ++ more)).map (· + line.length) := by
  induction line with
  | nil => simp
  | cons a line ih =>
    have hnot : ¬ kHttpHeaderEnd <+: a :: line ++ (kHttpCrlf ++ more) := fun hpre =>
      IsLine.not_prefix ⟨List.cons_ne_nil a line, h⟩ more
        ((show [cr, lf] <+: kHttpHeaderEnd by decide).trans hpre)
    have hline : ¬ kHttpCrlf <:+: line := fun hinside => h (hinside.trans (List.suffix_cons a line).isInfix)
    rw [List.cons_append] at hnot ⊢
    rw [find_cons hnot, ih hline, Option.map_map]
    rfl

/-- A line end in front of a line is not the end of the head. -/
theorem find_crlf_line {line : Bytes} (h : IsLine line) (more : Bytes) :
    find kHttpHeaderEnd (kHttpCrlf ++ (line ++ (kHttpCrlf ++ more))) =
      (find kHttpHeaderEnd (line ++ (kHttpCrlf ++ more))).map (· + 2) := by
  have hnot := h.not_prefix more
  have hcons : kHttpCrlf ++ (line ++ (kHttpCrlf ++ more)) = cr :: lf :: (line ++ (kHttpCrlf ++ more)) := by
    rw [kHttpCrlf_eq]
    rfl
  rw [hcons, kHttpHeaderEnd_eq, find_cons, find_cons, Option.map_map]
  · rfl
  · exact fun hpre => absurd (List.cons_prefix_cons.mp hpre).1 (by decide)
  · exact fun hpre => hnot (List.cons_prefix_cons.mp (List.cons_prefix_cons.mp hpre).2).2

/-- **The head ends at its empty line.** -/
theorem find_headerEnd {line : Bytes} {lines : List Bytes} (h : ∀ l ∈ line :: lines, IsLine l)
    (more : Bytes) : find kHttpHeaderEnd (joined line lines ++ (kHttpHeaderEnd ++ more)) =
      some (joined line lines).length := by
  have hend : kHttpHeaderEnd = kHttpCrlf ++ kHttpCrlf := by decide
  induction lines generalizing line with
  | nil =>
    have hline := find_line (h line (List.mem_cons_self ..)).unbroken (kHttpCrlf ++ more)
    rw [← List.append_assoc kHttpCrlf, ← hend] at hline
    rw [joined, hline, find_begins (List.prefix_append _ more), Option.map_some, Nat.zero_add]
  | cons next lines ih =>
    have hnext := ih fun l hl => h l (List.mem_cons_of_mem line hl)
    obtain ⟨tail, htail⟩ : ∃ tail, joined next lines ++ (kHttpHeaderEnd ++ more) =
        next ++ (kHttpCrlf ++ tail) := by
      cases lines with
      | nil => exact ⟨kHttpCrlf ++ more, by rw [joined, hend, List.append_assoc]⟩
      | cons l lines => exact ⟨joined l lines ++ (kHttpHeaderEnd ++ more), by
          rw [joined, List.append_assoc, List.append_assoc]⟩
    rw [joined, List.append_assoc, List.append_assoc,
      find_line (h line (List.mem_cons_self ..)).unbroken, htail,
      find_crlf_line (h next (by simp)), ← htail, hnext, Option.map_some, Option.map_some,
      List.length_append, List.length_append]
    congr 1
    show _ + 2 + _ = _ + (2 + _)
    omega

/-! ### The lines -/

theorem find_firstLine {line : Bytes} (h : cr ∉ line) (more : Bytes) :
    find kHttpCrlf (line ++ (kHttpCrlf ++ more)) = some line.length := by
  rw [kHttpCrlf_eq]
  exact find_of_not_mem h more

/-- **Lines that were joined are split again.** -/
theorem splitStrToVector_joined {line : Bytes} {lines : List Bytes}
    (h : ∀ l ∈ line :: lines, l ≠ [] ∧ cr ∉ l) :
    splitStrToVector (joined line lines) kHttpCrlf [] = line :: lines := by
  have hpieces : pieces kHttpCrlf (joined line lines) = line :: lines := by
    induction lines generalizing line with
    | nil =>
      have hcr := (h line (List.mem_cons_self ..)).2
      exact pieces_none (kHttpCrlf_eq ▸ find_none_of_not_mem hcr)
    | cons next lines ih =>
      rw [joined, pieces_cut kHttpCrlf_ne_nil (find_firstLine (h line (List.mem_cons_self ..)).2 _),
        ih fun l hl => h l (List.mem_cons_of_mem line hl)]
  rw [splitStrToVector_eq _ kHttpCrlf_ne_nil, hpieces, List.nil_append]
  exact List.filter_eq_self.mpr fun l hl => decide_eq_true (h l hl).1

/-- **A request in its parts is accepted**, when the two searches find their ends. -/
theorem judge_parts {request parsed : HttpRequest} {line headers body rest bytes : Bytes}
    (hbytes : bytes = line ++ (kHttpCrlf ++ (headers ++ (kHttpHeaderEnd ++ (body ++ rest)))))
    (hline : find kHttpCrlf bytes = some line.length)
    (hend : find kHttpHeaderEnd bytes = some (line.length + 2 + headers.length))
    (hparse : parseHead request line headers = (parsed, .ok body.length)) :
    ∃ total, judge request bytes = (parseHttpRequestContent parsed body, .accept total) ∧
      bytes.drop total = rest := by
  have htake : bytes.take line.length = line := by rw [hbytes, List.take_left]
  have hheaders : bytes.drop (line.length + 2) = headers ++ (kHttpHeaderEnd ++ (body ++ rest)) := by
    rw [hbytes, ← List.append_assoc]
    exact List.drop_left' List.length_append
  have hbody : bytes.drop (line.length + 2 + headers.length + 4) = body ++ rest := by
    rw [Nat.add_assoc _ headers.length, ← List.drop_drop, hheaders, ← List.append_assoc]
    exact List.drop_left' List.length_append
  have haccepts : Accepts request bytes line.length (line.length + 2 + headers.length) body.length parsed := by
    refine ⟨hline, hend, Nat.le_add_right _ _, ?_, ?_⟩
    · rw [htake, hheaders, Nat.add_sub_cancel_left, List.take_left, hparse]
    · rw [hbytes]
      simp only [List.length_append]
      show line.length + 2 + headers.length + 4 + body.length ≤
        line.length + (2 + (headers.length + (4 + (body.length + rest.length))))
      omega
  refine ⟨_, by rw [haccepts.judge, hbody, List.take_left], ?_⟩
  rw [← List.drop_drop, hbody, List.drop_left]

/-! ### The request line -/

/-- A line that is accepted sets the target that is its second word. -/
theorem parseHttpRequestLine_some {request parsed : HttpRequest} {line : Bytes}
    (h : parseHttpRequestLine request line = (parsed, none)) :
    ∃ method target version request', requestWords line = some (method, target, version) ∧
      request'.requestQuery = request.requestQuery ∧ request'.requestHeader = request.requestHeader ∧
      parsed = setTarget request' target := by
  unfold parseHttpRequestLine at h
  split at h
  · cases h
  rename_i method target version hwords
  split at h
  · cases h
  rename_i requestMethod _
  dsimp only at h
  split at h
  · cases h
  · exact ⟨method, target, version, {request with requestMethod, requestVersion := toUpper version}, hwords, rfl,
      rfl, (Prod.mk.inj h).1.symm⟩

/-! ### Headers -/

theorem trim_blank {c : Byte} (h : isBlank c = true) (value : Bytes) : trim (c :: value) = trim value := by
  rw [trim, List.dropWhile_cons_of_pos h]
  rfl

theorem trim_ne_nil {value : Bytes} (h : ∃ c ∈ value, isBlank c = false) : trim value ≠ [] := by
  obtain ⟨c, hc, hblank⟩ := h
  intro hnil
  have hall := List.rdropWhile_eq_nil_iff.mp hnil
  cases hd : value.dropWhile isBlank with
  | nil =>
    rw [List.dropWhile_eq_nil_iff.mp hd c hc] at hblank
    cases hblank
  | cons d rest =>
    have hhead := List.head?_dropWhile_not isBlank value
    rw [hd] at hhead hall
    have := hall d (List.mem_cons_self ..)
    simp [this] at hhead

/-- The first colon of a line is the one behind the name. -/
theorem parseLine_spec {name : Bytes} (hne : trim name ≠ []) (hcolon : byte ':' ∉ name) (value : Bytes) :
    parseLine (name ++ byte ':' :: value) = .ok (trim name, trim value) := by
  have hfind : find (ascii ":") (name ++ byte ':' :: value) = some name.length := find_of_not_mem hcolon value
  obtain ⟨c, cs, rfl⟩ : ∃ c cs, name = c :: cs :=
    List.exists_cons_of_ne_nil fun hnil => hne (by rw [hnil]; rfl)
  have hdrop : (c :: cs ++ byte ':' :: value).drop (cs.length + 1 + 1) = value := by simp
  simp only [parseLine, hfind, List.length_cons, List.take_left' (List.length_cons ..), hdrop, if_neg hne]

/-- What a line of the head sets. -/
def setter (item : Bytes × Bytes) : Bytes × Bytes := (trim item.1, trim item.2)

/-- A name and a value that a head can carry. -/
structure IsHeader (item : Bytes × Bytes) : Prop where
  name : trim item.1 ≠ []
  colon : byte ':' ∉ item.1
  nameLine : cr ∉ item.1
  valueLine : cr ∉ item.2

theorem IsHeader.parseLine {item : Bytes × Bytes} (h : IsHeader item) :
    parseLine (HttpHeaderComm.line item) = .ok (setter item) := by
  have hline : HttpHeaderComm.line item = item.1 ++ byte ':' :: (byte ' ' :: item.2) := by
    show item.1 ++ [byte ':', byte ' '] ++ item.2 = _
    simp
  rw [hline, parseLine_spec h.name h.colon, trim_blank (by decide)]
  rfl

theorem IsHeader.line {item : Bytes × Bytes} (h : IsHeader item) :
    HttpHeaderComm.line item ≠ [] ∧ cr ∉ HttpHeaderComm.line item := by
  constructor
  · simp [HttpHeaderComm.line, ascii]
  · have hmark : cr ∉ ascii ": " := by decide
    simp [HttpHeaderComm.line, h.nameLine, h.valueLine, hmark]

/-- Lines that name a value each set it. -/
theorem parseLines_items {lines : List Bytes} {items : List (Bytes × Bytes)}
    (h : lines.map parseLine = items.map Except.ok) (request : HttpRequest) :
    parseLines request lines = ({request with requestHeader := request.requestHeader.setAll items}, none) := by
  induction lines generalizing items request with
  | nil =>
    obtain rfl : items = [] := List.map_eq_nil_iff.mp h.symm
    rfl
  | cons line lines ih =>
    cases items with
    | nil => cases h
    | cons item items =>
      obtain ⟨hline, hlines⟩ := List.cons.inj h
      rw [parseLines, hline]
      exact ih hlines _

theorem parseLines_setAll {items : List (Bytes × Bytes)} (h : ∀ item ∈ items, IsHeader item)
    (request : HttpRequest) : parseLines request (items.map HttpHeaderComm.line) =
      ({request with requestHeader := request.requestHeader.setAll (items.map setter)}, none) := by
  refine parseLines_items ?_ request
  rw [List.map_map, List.map_map]
  exact List.map_congr_left fun item hitem => (h item hitem).parseLine

/-- **The headers of a head are set one after the other.** -/
theorem parseHttpRequestHeader_joined {item : Bytes × Bytes} {items : List (Bytes × Bytes)}
    (h : ∀ i ∈ item :: items, IsHeader i) (request : HttpRequest) :
    parseHttpRequestHeader request (joined (HttpHeaderComm.line item) (items.map HttpHeaderComm.line)) =
      ({request with requestHeader := request.requestHeader.setAll ((item :: items).map setter)}, none) := by
  have hlines : ∀ l ∈ HttpHeaderComm.line item :: items.map HttpHeaderComm.line, l ≠ [] ∧ cr ∉ l := by
    rw [← List.map_cons]
    intro l hl
    obtain ⟨i, hi, rfl⟩ := List.mem_map.mp hl
    exact (h i hi).line
  have hne : joined (HttpHeaderComm.line item) (items.map HttpHeaderComm.line) ≠ [] := by
    have := (h item (List.mem_cons_self ..)).line.1
    cases items with
    | nil => exact this
    | cons i items => exact List.append_ne_nil_of_left_ne_nil this _
  rw [parseHttpRequestHeader, if_neg hne, splitStrToVector_joined hlines, ← List.map_cons]
  exact parseLines_setAll h request

end CoroutineRpc.Net.Http
