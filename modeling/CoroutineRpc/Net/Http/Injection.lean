import CoroutineRpc.Net.Http.HttpServlet
import CoroutineRpc.Net.Http.Responses

/-! What a request can put into the head of its response.

The version is one of two, and a servlet's own texts are single lines; the value of the
`Connection` header is copied as it was parsed. The parser cuts lines at `CRLF` and trims
blanks, so the value may hold a `CR` or an `LF` by itself, and these are the requests whose
responses have a line end where no line ends (`clean_iff`). -/
namespace CoroutineRpc.Net.Http
open Comm.StringUtil Library.Search Net.Tcp Net.Tcp.TcpBuffer

/-! ### Where lines end -/

/-- The places of the line ends behind lines that are written from `first` on. -/
def lineEnds (first : Nat) : List Bytes → List Nat
  | [] => []
  | line :: lines => (first + line.length) :: lineEnds (first + line.length + 2) lines

/-- At every `CR` and `LF` of the text a line ends. -/
def EndsOnly (first : Nat) (lines : List Bytes) (text : Bytes) : Prop :=
  ∀ i c, text[i]? = some c → c = cr ∨ c = lf → ∃ p ∈ lineEnds first lines, first + i = p ∨ first + i = p + 1

theorem le_of_mem_lineEnds {lines : List Bytes} {first p : Nat} (h : p ∈ lineEnds first lines) : first ≤ p := by
  induction lines generalizing first with
  | nil => cases h
  | cons line lines ih =>
    rcases List.mem_cons.mp h with rfl | h
    · exact Nat.le_add_right _ _
    · have := ih h
      omega

theorem not_oneLine {text : Bytes} (h : ¬ OneLine text) :
    ∃ (i : Nat) (c : Byte), text[i]? = some c ∧ (c = cr ∨ c = lf) := by
  rw [OneLine, not_and_or, Classical.not_not, Classical.not_not] at h
  rcases h with h | h
  · obtain ⟨i, hi⟩ := List.mem_iff_getElem?.mp h
    exact ⟨i, cr, hi, .inl rfl⟩
  · obtain ⟨i, hi⟩ := List.mem_iff_getElem?.mp h
    exact ⟨i, lf, hi, .inr rfl⟩

/-- The first line, and what is behind its end. -/
theorem endsOnly_cons (first : Nat) (l : Bytes) (lines : List Bytes) (rest : Bytes) :
    EndsOnly first (l :: lines) (l ++ (kHttpCrlf ++ rest)) ↔
      OneLine l ∧ EndsOnly (first + l.length + 2) lines rest := by
  have hinside : ∀ {i}, i < l.length → (l ++ (kHttpCrlf ++ rest))[i]? = l[i]? :=
    fun hi => List.getElem?_append_left hi
  have hbehind : ∀ j, (l ++ (kHttpCrlf ++ rest))[l.length + 2 + j]? = rest[j]? := fun j => by
    rw [← List.append_assoc, List.getElem?_append_right (by rw [List.length_append]; exact Nat.le_add_right _ j)]
    congr 1
    rw [List.length_append]
    exact Nat.add_sub_cancel_left ..
  constructor
  · intro h
    refine ⟨Classical.byContradiction fun hnot => ?_, fun j c hc hend => ?_⟩
    · obtain ⟨i, c, hi, hend⟩ := not_oneLine hnot
      have hlt := (List.getElem?_eq_some_iff.mp hi).1
      obtain ⟨p, hp, hat⟩ := h i c (hinside hlt ▸ hi) hend
      rcases List.mem_cons.mp hp with rfl | hp
      · omega
      · have := le_of_mem_lineEnds hp
        omega
    · obtain ⟨p, hp, hat⟩ := h _ c (hbehind j ▸ hc) hend
      rcases List.mem_cons.mp hp with rfl | hp
      · omega
      · exact ⟨p, hp, by omega⟩
  · rintro ⟨hline, hrest⟩ i c hc hend
    by_cases hi : i < l.length
    · rw [hinside hi] at hc
      have hmem := List.mem_of_getElem? hc
      rcases hend with rfl | rfl
      · exact absurd hmem hline.1
      · exact absurd hmem hline.2
    · by_cases hbehind' : i < l.length + 2
      · exact ⟨_, List.mem_cons_self .., by omega⟩
      · obtain ⟨j, rfl⟩ := Nat.exists_eq_add_of_le (Nat.not_lt.mp hbehind')
        obtain ⟨p, hp, hat⟩ := hrest j c (hbehind j ▸ hc) hend
        exact ⟨p, List.mem_cons_of_mem _ hp, by omega⟩

/-- **Only where lines end is there a `CR` or `LF`**, exactly when every line is one line. -/
theorem endsOnly_iff (lines : List Bytes) (first : Nat) :
    EndsOnly first lines (lines.flatMap (· ++ kHttpCrlf)) ↔ ∀ line ∈ lines, OneLine line := by
  induction lines generalizing first with
  | nil => simp [EndsOnly]
  | cons line lines ih =>
    rw [List.flatMap_cons, List.append_assoc, endsOnly_cons, ih, List.forall_mem_cons]

/-- The last line ends where the lines without their last end do. -/
theorem last_mem_lineEnds (line : Bytes) (lines : List Bytes) (first : Nat) :
    first + (joined line lines).length ∈ lineEnds first (line :: lines) := by
  induction lines generalizing line first with
  | nil => exact List.mem_cons_self ..
  | cons next lines ih =>
    refine List.mem_cons_of_mem _ ?_
    have := ih next (first + line.length + 2)
    rw [joined, List.length_append, List.length_append]
    convert this using 1
    show first + (line.length + (2 + _)) = _
    omega

/-- A line end is a `CRLF`. -/
theorem crlf_of_mem_lineEnds {lines : List Bytes} {first p : Nat} (h : p ∈ lineEnds first lines)
    (more : Bytes) : kHttpCrlf <+: (lines.flatMap (· ++ kHttpCrlf) ++ more).drop (p - first) := by
  induction lines generalizing first with
  | nil => cases h
  | cons line lines ih =>
    rw [List.flatMap_cons, List.append_assoc, List.append_assoc]
    rcases List.mem_cons.mp h with rfl | h
    · rw [Nat.add_sub_cancel_left, List.drop_left]
      exact List.prefix_append ..
    · have hle := le_of_mem_lineEnds h
      have hskip : p - first = (line ++ kHttpCrlf).length + (p - (first + line.length + 2)) := by
        rw [List.length_append]
        show p - first = line.length + 2 + _
        omega
      rw [hskip, ← List.append_assoc, ← List.drop_drop, List.drop_left]
      exact ih h

/-! ### A response's head -/

/-- The status line and the headers. -/
def headLines (sent : HttpResponse) : List Bytes :=
  statusLine sent :: sent.responseHeader.maps.toList.map HttpHeaderComm.line

/-- In front of the first empty line of what was queued, a `CR` or an `LF` stands only in the
pair that ends the status line or a header of the response. -/
def Clean (sent : HttpResponse) (queued : Bytes) : Prop :=
  ∃ headEnd, find kHttpHeaderEnd queued = some headEnd ∧
    ∀ i < headEnd, ∀ c, queued[i]? = some c → c = cr ∨ c = lf →
      ∃ p ∈ lineEnds 0 (headLines sent), kHttpCrlf <+: queued.drop p ∧ (i = p ∨ i = p + 1)

/-- **A head is clean exactly when its lines are**, whatever else they hold. -/
theorem clean_encoded {sent : HttpResponse} (hne : sent.responseHeader.maps.toList ≠ [])
    (hlines : ∀ line ∈ headLines sent, IsLine line) :
    Clean sent (encoded sent) ↔ ∀ line ∈ headLines sent, OneLine line := by
  obtain ⟨item, items, hitems⟩ := List.exists_cons_of_ne_nil hne
  have hhead : headLines sent = statusLine sent :: HttpHeaderComm.line item :: items.map HttpHeaderComm.line := by
    rw [headLines, hitems, List.map_cons]
  obtain ⟨head, hdef⟩ : ∃ head, head = joined (statusLine sent)
      (HttpHeaderComm.line item :: items.map HttpHeaderComm.line) := ⟨_, rfl⟩
  have hend : find kHttpHeaderEnd (encoded sent) = some head.length := by
    rw [hdef, ← find_encoded hitems (hhead ▸ hlines) [], List.append_nil]
  have hended : (headLines sent).flatMap (· ++ kHttpCrlf) = head ++ kHttpCrlf := by
    rw [hhead, flatMap_crlf, hdef]
  have htext : encoded sent = (headLines sent).flatMap (· ++ kHttpCrlf) ++ (kHttpCrlf ++ sent.responseBody) := by
    have hcrlf : kHttpHeaderEnd = kHttpCrlf ++ kHttpCrlf := by decide
    rw [encoded_eq hitems, hended, ← hdef, hcrlf]
    simp only [List.append_assoc]
  have hsame : ∀ i < head.length, (encoded sent)[i]? = ((headLines sent).flatMap (· ++ kHttpCrlf))[i]? := by
    intro i hi
    rw [htext, List.getElem?_append_left]
    rw [hended, List.length_append]
    omega
  rw [← endsOnly_iff (headLines sent) 0]
  constructor
  · rintro ⟨headEnd, hfound, hclean⟩ i c hc hline
    obtain rfl := Option.some.inj (hend.symm.trans hfound)
    by_cases hi : i < head.length
    · obtain ⟨p, hp, -, hat⟩ := hclean i hi c (hsame i hi ▸ hc) hline
      exact ⟨p, hp, by omega⟩
    · -- the end of the last line
      have hroom := (List.getElem?_eq_some_iff.mp hc).1
      rw [hended, List.length_append] at hroom
      have hroom : i < head.length + 2 := hroom
      exact ⟨_, hhead ▸ last_mem_lineEnds _ _ 0, by rw [← hdef]; omega⟩
  · intro h
    refine ⟨head.length, hend, fun i hi c hc hline => ?_⟩
    obtain ⟨p, hp, hat⟩ := h i c (hsame i hi ▸ hc) hline
    exact ⟨p, hp, htext ▸ crlf_of_mem_lineEnds hp _, by omega⟩

/-! ### What is accepted of a request -/

/-- No value of a header holds a line end. -/
def Unbroken (header : HttpHeaderComm) : Prop :=
  ∀ (key value : Bytes), header.maps[key]? = some value → ¬ kHttpCrlf <:+: value

theorem trim_inside (value : Bytes) : trim value <:+: value :=
  (List.rdropWhile_prefix isBlank _).isInfix.trans (List.dropWhile_suffix isBlank).isInfix

theorem parseLine_inside {line key value : Bytes} (h : parseLine line = .ok (key, value)) : value <:+: line := by
  unfold parseLine at h
  split at h
  · cases h
  · cases h
  · dsimp only at h
    split at h
    · cases h
    · rw [← (Prod.mk.inj (Except.ok.inj h)).2]
      exact (trim_inside _).trans (List.drop_suffix _ line).isInfix

theorem parseLines_keeps {lines : List Bytes} (hlines : ∀ line ∈ lines, ¬ kHttpCrlf <:+: line)
    {request : HttpRequest} (h : Unbroken request.requestHeader) :
    (parseLines request lines).1.requestVersion = request.requestVersion ∧
      Unbroken (parseLines request lines).1.requestHeader := by
  induction lines generalizing request with
  | nil => exact ⟨rfl, h⟩
  | cons line lines ih =>
    unfold parseLines
    split
    · exact ⟨rfl, h⟩
    · rename_i key value hparse
      refine ih (fun l hl => hlines l (List.mem_cons_of_mem line hl)) fun k v hk => ?_
      rw [HttpHeaderComm.setKeyValue_lookup] at hk
      split at hk
      · obtain rfl := Option.some.inj hk
        exact fun hinside => hlines line (List.mem_cons_self ..) (hinside.trans (parseLine_inside hparse))
      · exact h k v hk

theorem parseHttpRequestHeader_keeps (headers : Bytes) {request : HttpRequest}
    (h : Unbroken request.requestHeader) :
    (parseHttpRequestHeader request headers).1.requestVersion = request.requestVersion ∧
      Unbroken (parseHttpRequestHeader request headers).1.requestHeader := by
  unfold parseHttpRequestHeader
  split
  · exact ⟨rfl, h⟩
  · refine parseLines_keeps (fun line hline => ?_) h
    rw [splitStrToVector_eq headers kHttpCrlf_ne_nil, List.nil_append] at hline
    exact not_infix_of_mem_pieces kHttpCrlf_ne_nil (List.mem_filter.mp hline).1

/-- A request line that is accepted has one of two versions. -/
theorem parseHttpRequestLine_keeps {request parsed : HttpRequest} {line : Bytes}
    (h : parseHttpRequestLine request line = (parsed, none)) :
    OneLine parsed.requestVersion ∧ parsed.requestHeader = request.requestHeader := by
  unfold parseHttpRequestLine at h
  split at h
  · cases h
  split at h
  · cases h
  rename_i method target version _ _ _ _
  dsimp only at h
  split at h
  · cases h
  rename_i hversion
  obtain ⟨-, hkept, hheader⟩ := setTarget_keeps
    {request with requestMethod := _, requestVersion := toUpper version} target
  rw [← (Prod.mk.inj h).1, hkept, hheader]
  refine ⟨?_, rfl⟩
  show OneLine (toUpper version)
  rw [not_and_or, Classical.not_not, Classical.not_not] at hversion
  rcases hversion with hversion | hversion <;> rw [hversion] <;> decide

/-- **What an accepted request may hold**: one of two versions, and values without a line end. -/
theorem accepted_keeps {bytes : Bytes} {request : HttpRequest} {total : Nat}
    (h : judge {} bytes = (request, .accept total)) :
    OneLine request.requestVersion ∧ Unbroken request.requestHeader := by
  obtain ⟨a, e, n, parsed, haccepts, -, rfl⟩ := judge_accept h
  show OneLine parsed.requestVersion ∧ Unbroken parsed.requestHeader
  have hhead := haccepts.head
  unfold parseHead at hhead
  split at hhead
  · cases hhead
  rename_i first hline
  obtain ⟨hversion, hheader⟩ := parseHttpRequestLine_keeps hline
  have hkeeps := parseHttpRequestHeader_keeps ((bytes.drop (a + 2)).take (e - (a + 2)))
    (show Unbroken first.requestHeader by rw [hheader]; intro key value hvalue; simp at hvalue)
  split at hhead
  · cases hhead
  rename_i second hsecond
  rw [hsecond] at hkeeps
  dsimp only at hhead
  split at hhead
  · cases hhead
  · rw [← (Prod.mk.inj hhead).1]
    exact ⟨hkeeps.1 ▸ hversion, hkeeps.2⟩

theorem Unbroken.getValue {header : HttpHeaderComm} (h : Unbroken header) (key : Bytes) :
    ¬ kHttpCrlf <:+: header.getValue key := by
  rw [HttpHeaderComm.getValue]
  cases hvalue : header.maps[normalizeHeaderKey key]? with
  | none => exact fun hinside => kHttpCrlf_ne_nil (List.infix_nil.mp hinside)
  | some value => exact h _ value hvalue

/-! ### What a response is made of -/

/-- A call that puts single lines into the head. -/
def Harmless : ServletCall → Prop
  | .setHttpContentType contentType => OneLine contentType
  | _ => True

/-- What such calls set. -/
structure Own (item : Bytes × Bytes) : Prop where
  name : item.1 = ascii "Content-Type" ∨ item.1 = ascii "Content-Length"
  value : OneLine item.2

theorem run_spec {call : ServletCall} (h : Harmless call) (response : HttpResponse) :
    (call.run response).responseVersion = response.responseVersion ∧
      (OneLine response.responseInfo → OneLine (call.run response).responseInfo) ∧
      ∃ items, (∀ item ∈ items, Own item) ∧
        (call.run response).responseHeader = response.responseHeader.setAll items := by
  cases call with
  | setHttpCode code => exact ⟨rfl, fun _ => httpCodeToString_oneLine code, [], by simp, rfl⟩
  | setHttpContentType contentType =>
    refine ⟨rfl, id, [(ascii "Content-Type", contentType)], fun item hitem => ?_, rfl⟩
    obtain rfl := List.mem_singleton.mp hitem
    exact ⟨.inl rfl, h⟩
  | setHttpBody body =>
    refine ⟨rfl, id, [(ascii "Content-Length", decimal body.length)], fun item hitem => ?_, rfl⟩
    obtain rfl := List.mem_singleton.mp hitem
    exact ⟨.inr rfl, decimal_oneLine _⟩

theorem calls_spec {calls : List ServletCall} (h : ∀ call ∈ calls, Harmless call) (response : HttpResponse) :
    (calls.foldl ServletCall.run response).responseVersion = response.responseVersion ∧
      (OneLine response.responseInfo → OneLine (calls.foldl ServletCall.run response).responseInfo) ∧
      ∃ items, (∀ item ∈ items, Own item) ∧ (calls.foldl ServletCall.run response).responseHeader =
        response.responseHeader.setAll items := by
  induction calls generalizing response with
  | nil => exact ⟨rfl, id, [], by simp, rfl⟩
  | cons call calls ih =>
    obtain ⟨hversion, hinfo, items, hitems, hheader⟩ := run_spec (h call (List.mem_cons_self ..)) response
    obtain ⟨hversion', hinfo', later, hlater, hheader'⟩ :=
      ih (fun c hc => h c (List.mem_cons_of_mem call hc)) (call.run response)
    refine ⟨hversion'.trans hversion, fun hone => hinfo' (hinfo hone), items ++ later, ?_, ?_⟩
    · exact fun item hitem => (List.mem_append.mp hitem).elim (hitems item) (hlater item)
    · rw [List.foldl_cons, hheader', hheader, HttpHeaderComm.setAll, HttpHeaderComm.setAll,
        HttpHeaderComm.setAll, List.foldl_append]

/-- What `setCommParam` takes for the version. -/
def versionOf (request : HttpRequest) : Bytes :=
  if request.requestVersion = [] then ascii "HTTP/1.1" else request.requestVersion

theorem respond_spec {dispatcher : HttpDispatcher}
    (h : ∀ (path : Bytes) (servlet : HttpServlet), dispatcher.servlets[path]? = some servlet →
      servlet.CallsOnly Harmless) (request : HttpRequest) :
    (dispatcher.respond request).responseVersion = versionOf request ∧
      OneLine (dispatcher.respond request).responseInfo ∧
      ∃ items, (∀ item ∈ items, Own item) ∧ (dispatcher.respond request).responseHeader =
        .setAll {} ((ascii "Connection", connectionOf request (versionOf request)) :: items) := by
  have hnot : notFoundHttpServlet.CallsOnly Harmless :=
    notFound_callsOnly (fun _ => trivial) (show OneLine kDefaultHtmlContentType by decide) fun _ => trivial
  obtain ⟨calls, hcalls, hrespond⟩ :=
    HttpDispatcher.servletOf_callsOnly h hnot request request (setCommParam request {})
  obtain ⟨hversion, hinfo, items, hitems, hheader⟩ := calls_spec hcalls (setCommParam request {})
  rw [HttpDispatcher.respond, hrespond]
  exact ⟨hversion, hinfo (httpCodeToString_oneLine httpOk), items, hitems, hheader⟩

theorem connectionOf_ne_nil (request : HttpRequest) (version : Bytes) : connectionOf request version ≠ [] := by
  unfold connectionOf
  dsimp only
  split
  · split <;> decide
  · assumption

theorem connectionOf_unbroken {request : HttpRequest} (h : Unbroken request.requestHeader) (version : Bytes) :
    ¬ kHttpCrlf <:+: connectionOf request version := by
  unfold connectionOf
  dsimp only
  split
  · exact OneLine.unbroken (by split <;> decide)
  · exact h.getValue _

/-- The `Connection` value of the response is one line exactly when that of the request is. -/
theorem connectionOf_oneLine (request : HttpRequest) (version : Bytes) :
    OneLine (connectionOf request version) ↔ OneLine (request.requestHeader.getValue (ascii "Connection")) := by
  unfold connectionOf
  dsimp only
  split
  · rename_i hnil
    rw [hnil]
    split <;> decide
  · exact Iff.rfl

/-! ### What is sent -/

/-- The header of a response as it is sent: the `Connection` value, and items of its own. -/
structure Answer (connection : Bytes) (header : HttpHeaderComm) : Prop where
  copied : (normalizeHeaderKey (ascii "Connection"), connection) ∈ header.maps.toList
  own : ∀ item ∈ header.maps.toList, item = (normalizeHeaderKey (ascii "Connection"), connection) ∨
    ∃ set, Own set ∧ item = (normalizeHeaderKey set.1, set.2)

theorem Own.not_connection {item : Bytes × Bytes} (h : Own item) :
    normalizeHeaderKey item.1 ≠ normalizeHeaderKey (ascii "Connection") := by
  rcases h.name with hname | hname <;> rw [hname] <;> decide

/-- Nothing that is set later changes the `Connection` value. -/
theorem connection_lookup (connection : Bytes) {items : List (Bytes × Bytes)} (h : ∀ item ∈ items, Own item) :
    (HttpHeaderComm.setAll {} ((ascii "Connection", connection) :: items)).maps[normalizeHeaderKey
      (ascii "Connection")]? = some connection := by
  have hothers : HttpHeaderComm.settersOf items (normalizeHeaderKey (ascii "Connection")) = [] :=
    List.filter_eq_nil_iff.mpr fun item hitem hkey => (h item hitem).not_connection (of_decide_eq_true hkey)
  have hsetters : HttpHeaderComm.settersOf ((ascii "Connection", connection) :: items)
      (normalizeHeaderKey (ascii "Connection")) = [(ascii "Connection", connection)] :=
    (List.filter_cons_of_pos (by simp)).trans (congrArg (List.cons _) hothers)
  rw [HttpHeaderComm.setAll_lookup, hsetters]
  rfl

theorem answer_setAll (connection : Bytes) {items : List (Bytes × Bytes)} (h : ∀ item ∈ items, Own item) :
    Answer connection (.setAll {} ((ascii "Connection", connection) :: items)) where
  copied := Std.ExtTreeMap.mem_toList_iff_getElem?_eq_some.mpr (connection_lookup connection h)
  own item hitem := by
    obtain ⟨set, hset, rfl⟩ := HttpHeaderComm.mem_setAll hitem
    rcases List.mem_cons.mp hset with rfl | hset
    · exact .inl rfl
    · exact .inr ⟨set, h set hset, rfl⟩

/-- `encode` only adds the length of the body: whether the connection is kept is said. -/
theorem answer_fillIn {response : HttpResponse} {connection : Bytes} (hne : connection ≠ [])
    {items : List (Bytes × Bytes)} (h : ∀ item ∈ items, Own item)
    (hheader : response.responseHeader = .setAll {} ((ascii "Connection", connection) :: items)) :
    Answer connection (fillIn response).responseHeader := by
  have hown : ∀ item ∈ items ++ [(ascii "Content-Length", decimal response.responseBody.length)], Own item := by
    intro item hitem
    rcases List.mem_append.mp hitem with hitem | hitem
    · exact h item hitem
    · exact List.mem_singleton.mp hitem ▸ ⟨.inr rfl, decimal_oneLine _⟩
  have hlength : response.responseHeader.setKeyValue (ascii "Content-Length")
      (decimal response.responseBody.length) = .setAll {} ((ascii "Connection", connection) ::
        (items ++ [(ascii "Content-Length", decimal response.responseBody.length)])) := by
    rw [hheader, HttpHeaderComm.setAll, HttpHeaderComm.setAll, ← List.cons_append, List.foldl_append]
    rfl
  obtain ⟨more, rfl | ⟨rfl, hnil⟩, hfilled⟩ := fillIn_header response
  · rw [hfilled, hlength]
    exact answer_setAll connection hown
  · rw [hlength, HttpHeaderComm.getValue, connection_lookup connection hown] at hnil
    exact absurd hnil hne

/-- **One line hangs on the request**: the others are one line each. -/
theorem Answer.lines {connection : Bytes} {header : HttpHeaderComm} (h : Answer connection header)
    (hconn : ¬ kHttpCrlf <:+: connection) :
    (∀ line ∈ header.maps.toList.map HttpHeaderComm.line, IsLine line) ∧
      ((∀ line ∈ header.maps.toList.map HttpHeaderComm.line, OneLine line) ↔ OneLine connection) := by
  have hname : ∀ {name : Bytes}, name = ascii "Connection" ∨ name = ascii "Content-Type" ∨
      name = ascii "Content-Length" → OneLine (normalizeHeaderKey name ++ ascii ": ") := by
    rintro name (rfl | rfl | rfl) <;> decide
  have hline : ∀ {name value : Bytes}, name = ascii "Connection" ∨ name = ascii "Content-Type" ∨
      name = ascii "Content-Length" → ¬ kHttpCrlf <:+: value →
        IsLine (HttpHeaderComm.line (normalizeHeaderKey name, value)) := fun hname' hvalue =>
    .append (hname hname').1 (by simp [ascii]) hvalue
  constructor
  · intro line hmem
    obtain ⟨item, hitem, rfl⟩ := List.mem_map.mp hmem
    rcases h.own item hitem with rfl | ⟨set, hset, rfl⟩
    · exact hline (.inl rfl) hconn
    · exact hline (.inr hset.name) hset.value.unbroken
  constructor
  · intro hall
    exact (oneLine_append.mp (hall _ (List.mem_map_of_mem h.copied))).2
  · intro hone line hmem
    obtain ⟨item, hitem, rfl⟩ := List.mem_map.mp hmem
    rcases h.own item hitem with rfl | ⟨set, hset, rfl⟩
    · exact oneLine_append.mpr ⟨hname (.inl rfl), hone⟩
    · exact oneLine_append.mpr ⟨hname (.inr hset.name), hset.value⟩

theorem clean_answer {response : HttpResponse} (hversion : OneLine response.responseVersion)
    (hinfo : OneLine response.responseInfo) {connection : Bytes}
    (h : Answer connection (fillIn response).responseHeader) (hconn : ¬ kHttpCrlf <:+: connection) :
    Clean (fillIn response) (encoded (fillIn response)) ↔ OneLine connection := by
  have hstatus := statusLine_oneLine hversion hinfo
  obtain ⟨hlines, hone⟩ := h.lines hconn
  have hstatusLine : IsLine (statusLine (fillIn response)) :=
    isLine_of_not_mem (by simp [statusLine, ascii]) hstatus.1
  rw [clean_encoded (fillIn_toList response) (List.forall_mem_cons.mpr ⟨hstatusLine, hlines⟩), headLines,
    List.forall_mem_cons, hone]
  exact and_iff_right hstatus

/-- What `encode` puts behind what is in the buffer. -/
theorem encode_queues {before after : TcpBuffer} (h : WellFormed before) {response sent : HttpResponse}
    (hencode : encode before response = some (after, sent)) :
    after.readable = before.readable ++ encoded (fillIn response) := by
  unfold encode at hencode
  rw [Option.bind_eq_bind, Option.bind_eq_some_iff] at hencode
  obtain ⟨written, hwrite, hafter⟩ := hencode
  rw [fillIn_flag] at hwrite
  by_cases hroom : before.Room (encoded (fillIn response)).length
  · obtain ⟨c, hc, -, hreadable, -⟩ := writeToBuffer_room h (encoded (fillIn response)) hroom
    obtain rfl := Option.some.inj (hc.symm.trans hwrite)
    rw [← (Prod.mk.inj (Option.some.inj hafter)).1, hreadable]
  · exact absurd ((writeToBuffer_none hroom).symm.trans hwrite) nofun

theorem dispatch_queues {dispatcher : HttpDispatcher} {genMsgNumber : Bytes} {request : HttpRequest}
    {before after : TcpBuffer} (h : WellFormed before) {runTime : Rpc.RunTime}
    (hdispatch : dispatcher.dispatch genMsgNumber request before = some (after, runTime)) :
    after.readable = before.readable ++ encoded (fillIn (dispatcher.respond request)) := by
  unfold HttpDispatcher.dispatch at hdispatch
  rw [Option.bind_eq_bind, Option.bind_eq_some_iff] at hdispatch
  obtain ⟨⟨written, sent⟩, hencode, hafter⟩ := hdispatch
  rw [← (Prod.mk.inj (Option.some.inj hafter)).1]
  exact encode_queues h hencode

/-- The responses of such servlets to a request that was accepted. -/
theorem clean_respond {bytes : Bytes} {parsed : HttpRequest} {total : Nat}
    (hjudge : judge {} bytes = (parsed, .accept total)) {dispatcher : HttpDispatcher}
    (hservlets : ∀ (path : Bytes) (servlet : HttpServlet), dispatcher.servlets[path]? = some servlet →
      servlet.CallsOnly Harmless)
    {request : HttpRequest} (hrequest : request = {parsed with decodeSucc := true}) :
    Clean (fillIn (dispatcher.respond request)) (encoded (fillIn (dispatcher.respond request))) ↔
      OneLine (request.requestHeader.getValue (ascii "Connection")) := by
  obtain ⟨hversion, hunbroken⟩ := accepted_keeps hjudge
  obtain ⟨hresponse, hinfo, items, hitems, hheader⟩ := respond_spec hservlets request
  have hanswer := answer_fillIn (connectionOf_ne_nil _ _) hitems hheader
  have hcopied : ¬ kHttpCrlf <:+: connectionOf request (versionOf request) := by
    rw [hrequest]
    exact connectionOf_unbroken hunbroken _
  have honeLine : OneLine (dispatcher.respond request).responseVersion := by
    rw [hresponse, versionOf, hrequest]
    split
    · decide
    · exact hversion
  rw [clean_answer honeLine hinfo hanswer hcopied, connectionOf_oneLine]

/-- **When the head of a response is clean.** A request was accepted, whatever its bytes, and
a servlet that sets nothing but the status code, the body and a content type of one line has
answered. In what is queued `CR` and `LF` stand only where lines end, exactly when the
`Connection` value of the request is one line. -/
theorem clean_iff (b : TcpBuffer) (hb : WellFormed b) (out : Decoded) (hout : decode b {} = some out)
    (hsucc : out.request.decodeSucc = true) (dispatcher : HttpDispatcher)
    (hservlets : ∀ (path : Bytes) (servlet : HttpServlet), dispatcher.servlets[path]? = some servlet →
      servlet.CallsOnly Harmless)
    (genMsgNumber : Bytes) (before after : TcpBuffer) (hbefore : WellFormed before) (runTime : Rpc.RunTime)
    (hdispatch : dispatcher.dispatch genMsgNumber out.request before = some (after, runTime)) :
    ∃ queued, after.readable = before.readable ++ queued ∧
      (Clean (fillIn (dispatcher.respond out.request)) queued ↔
        OneLine (out.request.requestHeader.getValue (ascii "Connection"))) := by
  obtain ⟨parsed, total, hjudge, hrequest⟩ := decode_accepted hb hout hsucc
  exact ⟨_, dispatch_queues hbefore hdispatch, clean_respond hjudge hservlets hrequest⟩

/-- An accepted request is answered, when there is room. -/
theorem exists_answer {bytes : Bytes} {parsed : HttpRequest} {total : Nat}
    (hjudge : judge {} bytes = (parsed, .accept total)) (hfit : bytes.length < 2 ^ 30)
    (dispatcher : HttpDispatcher) (genMsgNumber : Bytes)
    (hroom : (encoded (fillIn (dispatcher.respond {parsed with decodeSucc := true}))).length < 2 ^ 30) :
    ∃ b out after runTime, (make 16).writeToBuffer bytes = some b ∧ WellFormed b ∧ decode b {} = some out ∧
      out.request = {parsed with decodeSucc := true} ∧
      dispatcher.dispatch genMsgNumber out.request (make 16) = some (after, runTime) := by
  have hmake := make_wellFormed 16 (by decide) (by decide)
  obtain ⟨b, hb, hwf, hreadable, -⟩ := writeToBuffer_spec hmake bytes (by show (0 : Int) + _ < _; omega)
  rw [make_readable, List.nil_append] at hreadable
  obtain ⟨b', hb', -⟩ := @decode_taken b hwf {} _ _ (hreadable ▸ hjudge)
  obtain ⟨after, hafter, -⟩ := writeToBuffer_spec hmake
    (encoded (fillIn (dispatcher.respond {parsed with decodeSucc := true}))) (by show (0 : Int) + _ < _; omega)
  refine ⟨b, _, after, ⟨genMsgNumber, (dispatcher.servletOf {parsed with decodeSucc := true}).servletName⟩,
    hb, hwf, hb', rfl, ?_⟩
  have hencoded : ∀ response : HttpResponse,
      encoded (fillIn {response with encodeSucc := false}) = encoded (fillIn response) := fun response => by
    rw [fillIn_flag]
    rfl
  simp only [HttpDispatcher.dispatch, encode, hencoded, hafter, Option.bind_eq_bind, Option.bind_some,
    Option.pure_def]

/-- The `EchoServlet` of the HTTP server. -/
def echoServlet : HttpServlet where
  servletName := ascii "EchoServlet"
  handle request response :=
    setHttpBody (setHttpContentType (setHttpCode response httpOk) (ascii "text/plain;charset=utf-8"))
      request.requestBody

theorem echo_callsOnly : echoServlet.CallsOnly Harmless := by
  intro request response
  refine ⟨[.setHttpCode httpOk, .setHttpContentType (ascii "text/plain;charset=utf-8"),
    .setHttpBody request.requestBody], fun call hcall => ?_, rfl⟩
  simp only [List.mem_cons, List.not_mem_nil, or_false] at hcall
  obtain rfl | rfl | rfl := hcall
  · trivial
  · exact (by decide : OneLine (ascii "text/plain;charset=utf-8"))
  · trivial

def echoDispatcher : HttpDispatcher := (HttpDispatcher.registerServlet {} (ascii "/echo") echoServlet).1

theorem echoDispatcher_callsOnly : ∀ (path : Bytes) (servlet : HttpServlet),
    echoDispatcher.servlets[path]? = some servlet → servlet.CallsOnly Harmless :=
  HttpDispatcher.registerServlet_callsOnly (by simp) _ echo_callsOnly

def closeText : Bytes := ascii "GET /echo HTTP/1.1\r\nConnection: close\r\n\r\n"

/-- With an `LF` in the value of `Connection`. -/
def splitText : Bytes := ascii "GET /echo HTTP/1.1\r\nConnection: close\nSet-Cookie: id=1\r\n\r\n"

theorem clean_iff_close : ∃ b out after runTime, (make 16).writeToBuffer closeText = some b ∧
    decode b {} = some out ∧ out.request.decodeSucc = true ∧
    echoDispatcher.dispatch (ascii "1") out.request (make 16) = some (after, runTime) ∧
    ∃ queued, after.readable = (make 16).readable ++ queued ∧
      (Clean (fillIn (echoDispatcher.respond out.request)) queued ↔
        OneLine (out.request.requestHeader.getValue (ascii "Connection"))) := by
  have hjudge : judge {} closeText = ((judge {} closeText).1, .accept 41) := Prod.ext rfl (by decide +kernel)
  obtain ⟨b, out, after, runTime, hb, hwf, hout, hrequest, hafter⟩ :=
    exists_answer hjudge (by decide) echoDispatcher (ascii "1") (by decide +kernel)
  have hsucc : out.request.decodeSucc = true := by rw [hrequest]
  exact ⟨b, out, after, runTime, hb, hout, hsucc, hafter, clean_iff b hwf out hout hsucc echoDispatcher
    echoDispatcher_callsOnly _ _ after (make_wellFormed 16 (by decide) (by decide)) runTime hafter⟩

/-- A header of the sender's choice is queued. -/
theorem not_clean_split : ∃ b out after runTime, (make 16).writeToBuffer splitText = some b ∧
    decode b {} = some out ∧ out.request.decodeSucc = true ∧
    echoDispatcher.dispatch (ascii "1") out.request (make 16) = some (after, runTime) ∧
    (∀ (path : Bytes) (servlet : HttpServlet), echoDispatcher.servlets[path]? = some servlet →
      servlet.CallsOnly Harmless) ∧
    ¬ ∃ queued, after.readable = (make 16).readable ++ queued ∧
      Clean (fillIn (echoDispatcher.respond out.request)) queued := by
  have hjudge : judge {} splitText = ((judge {} splitText).1, .accept 58) := Prod.ext rfl (by decide +kernel)
  obtain ⟨b, out, after, runTime, hb, hwf, hout, hrequest, hafter⟩ :=
    exists_answer hjudge (by decide) echoDispatcher (ascii "1") (by decide +kernel)
  refine ⟨b, out, after, runTime, hb, hout, by rw [hrequest], hafter, echoDispatcher_callsOnly,
    fun ⟨queued, hqueued, hclean⟩ => ?_⟩
  rw [dispatch_queues (make_wellFormed 16 (by decide) (by decide)) hafter] at hqueued
  obtain rfl := List.append_cancel_left hqueued
  have hvalue := (clean_respond hjudge echoDispatcher_callsOnly hrequest).mp hclean
  rw [hrequest] at hvalue
  exact absurd hvalue (by decide +kernel)

end CoroutineRpc.Net.Http
