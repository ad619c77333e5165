import CoroutineRpc.Net.Http.Head

/-! Responses that frame themselves.

Every response is written with a head of lines that hold no line end, and with the length of
its body under a name that `encode` sets last. A reader needs nothing else: whatever the
bodies hold, it finds the responses one after the other (`responses_framed`). -/
namespace CoroutineRpc.Net.Http
open Library.Search Net.Tcp Net.Tcp.TcpBuffer

/-! ### A reader -/

structure Contents where
  statusLine : Bytes
  header : HttpHeaderComm
  body : Bytes
deriving DecidableEq

/-- Cut at the first empty line and split off the first line; the rest of the head is parsed
and says how long the body is. -/
def readResponse (bytes : Bytes) : Option (Contents × Bytes) := do
  let headEnd ← find kHttpHeaderEnd bytes
  let head := bytes.take headEnd
  let lineEnd ← find kHttpCrlf head
  let (request, none) := parseHttpRequestHeader {} (head.drop (lineEnd + 2)) | none
  let (length, []) ← strtoll (request.requestHeader.getValue (ascii "Content-Length")) | none
  let rest := bytes.drop (headEnd + 4)
  if length < 0 ∨ rest.length < length then none
  else pure (⟨head.take lineEnd, request.requestHeader, rest.take length.toNat⟩, rest.drop length.toNat)

/-- Read until nothing is left. The fuel bounds the number of responses. -/
def readAll : Nat → Bytes → Option (List Contents)
  | 0, _ => none
  | _ + 1, [] => some []
  | n + 1, bytes => do
    let (contents, rest) ← readResponse bytes
    let later ← readAll n rest
    pure (contents :: later)

/-- One `encode` after the other into one buffer: the buffer, and the responses as they are left. -/
def encodeAll : TcpBuffer → List HttpResponse → Option (TcpBuffer × List HttpResponse)
  | buffer, [] => some (buffer, [])
  | buffer, response :: rest => do
    let (buffer, sent) ← encode buffer response
    let (buffer, later) ← encodeAll buffer rest
    pure (buffer, sent :: later)

/-! ### Headers as they are set -/

/-- No line end in a text, nor a part of one. -/
def OneLine (text : Bytes) : Prop := cr ∉ text ∧ lf ∉ text

instance (text : Bytes) : Decidable (OneLine text) := inferInstanceAs (Decidable (_ ∧ _))

@[simp] theorem oneLine_append {text more : Bytes} : OneLine (text ++ more) ↔ OneLine text ∧ OneLine more := by
  simp only [OneLine, List.mem_append, not_or]
  exact ⟨fun h => ⟨⟨h.1.1, h.2.1⟩, h.1.2, h.2.2⟩, fun h => ⟨⟨h.1.1, h.2.1⟩, h.1.2, h.2.2⟩⟩

theorem OneLine.unbroken {text : Bytes} (h : OneLine text) : ¬ kHttpCrlf <:+: text := fun hinside =>
  h.1 (hinside.subset (by decide))

/-- A name and a value as `setKeyValue` may be given them. -/
structure Settable (item : Bytes × Bytes) : Prop where
  nonempty : item.1 ≠ []
  colon : byte ':' ∉ item.1
  name : trim item.1 = item.1 ∧ OneLine item.1
  value : trim item.2 = item.2 ∧ OneLine item.2

/-- A response whose texts are single lines. -/
structure Framed (response : HttpResponse) : Prop where
  version : OneLine response.responseVersion
  info : OneLine response.responseInfo
  header : ∃ items, response.responseHeader = .setAll {} items ∧ ∀ item ∈ items, Settable item

/-- Lower case has the same spaces, and the same colon and line ends. -/
theorem tolower_special (c : Byte) : isBlank (tolower c) = isBlank c ∧
    (tolower c = byte ':' → c = byte ':') ∧ (tolower c = cr → c = cr) := by
  revert c
  decide +kernel

theorem trim_normalizeHeaderKey (key : Bytes) : trim (normalizeHeaderKey key) = normalizeHeaderKey (trim key) := by
  have hblank : isBlank ∘ tolower = isBlank := funext fun c => (tolower_special c).1
  simp only [trim, normalizeHeaderKey, List.rdropWhile, List.dropWhile_map, ← List.map_reverse, hblank]

theorem not_mem_normalizeHeaderKey {c : Byte} (hc : ∀ d, tolower d = c → d = c) {key : Bytes} (h : c ∉ key) :
    c ∉ normalizeHeaderKey key := by
  intro hmem
  obtain ⟨d, hd, heq⟩ := List.mem_map.mp hmem
  exact h (hc d heq ▸ hd)

/-- What a map holds is a header that is read as it is. -/
structure Kept (item : Bytes × Bytes) : Prop extends IsHeader item where
  normal : normalizeHeaderKey item.1 = item.1
  trimmed : setter item = item

theorem Settable.kept {item : Bytes × Bytes} (h : Settable item) :
    Kept (normalizeHeaderKey item.1, item.2) where
  name := by
    rw [trim_normalizeHeaderKey, h.name.1]
    exact fun hnil => h.nonempty (List.map_eq_nil_iff.mp hnil)
  colon := not_mem_normalizeHeaderKey (fun d => (tolower_special d).2.1) h.colon
  nameLine := not_mem_normalizeHeaderKey (fun d => (tolower_special d).2.2) h.name.2.1
  valueLine := h.value.2.1
  normal := normalizeHeaderKey_idem item.1
  trimmed := by rw [setter, trim_normalizeHeaderKey, h.name.1, h.value.1]

theorem kept_of_settable {items : List (Bytes × Bytes)} (h : ∀ item ∈ items, Settable item) :
    ∀ item ∈ (HttpHeaderComm.setAll {} items).maps.toList, Kept item := by
  intro item hitem
  obtain ⟨set, hset, rfl⟩ := HttpHeaderComm.mem_setAll hitem
  exact (h set hset).kept

/-! ### What `encode` fills in -/

theorem trim_of_not_blank {value : Bytes} (h : ∀ c ∈ value, isBlank c = false) : trim value = value := by
  have hfront : value.dropWhile isBlank = value :=
    List.dropWhile_eq_self_iff.mpr fun hpos => by simp [h _ (List.getElem_mem hpos)]
  rw [trim, hfront]
  exact List.rdropWhile_eq_self_iff.mpr fun hne => by simp [h _ (List.getLast_mem hne)]

theorem digit_special (c : Byte) : isdigit c = true ∨ c = byte '-' → isBlank c = false ∧ c ≠ cr ∧ c ≠ lf := by
  revert c
  decide +kernel

theorem decimal_oneLine (n : Int) : OneLine (decimal n) :=
  ⟨fun h => (digit_special cr (decimal_mem h)).2.1 rfl, fun h => (digit_special lf (decimal_mem h)).2.2 rfl⟩

theorem settable_of_name {name value : Bytes} (hname : name ≠ [] ∧ byte ':' ∉ name ∧ trim name = name ∧ OneLine name)
    (hvalue : trim value = value ∧ OneLine value) : Settable (name, value) :=
  ⟨hname.1, hname.2.1, hname.2.2, hvalue⟩

theorem settable_contentLength (n : Nat) : Settable (ascii "Content-Length", decimal n) :=
  settable_of_name (by decide)
    ⟨trim_of_not_blank fun c hc => (digit_special c (decimal_mem hc)).1, decimal_oneLine n⟩

theorem settable_keepAlive : Settable (ascii "Connection", ascii "keep-alive") :=
  settable_of_name (by decide) (by decide)

theorem httpCodeToString_oneLine (code : Int) : OneLine (httpCodeToString code) := by
  unfold httpCodeToString
  repeat' split
  all_goals decide

theorem fillIn_version (response : HttpResponse) : (fillIn response).responseVersion =
    if response.responseVersion = [] then ascii "HTTP/1.1" else response.responseVersion := by
  unfold fillIn
  dsimp only
  split <;> split <;> rfl

theorem fillIn_info (response : HttpResponse) : (fillIn response).responseInfo =
    if response.responseInfo = [] then httpCodeToString response.responseCode else response.responseInfo := by
  unfold fillIn
  dsimp only
  split <;> split <;> rfl

theorem fillIn_body (response : HttpResponse) : (fillIn response).responseBody = response.responseBody := by
  unfold fillIn
  dsimp only
  split <;> split <;> rfl

/-- The length of the body is set, and whether the connection is kept if nothing is said of it. -/
theorem fillIn_header (response : HttpResponse) :
    ∃ items, (items = [] ∨ items = [(ascii "Connection", ascii "keep-alive")] ∧
        (response.responseHeader.setKeyValue (ascii "Content-Length")
          (decimal response.responseBody.length)).getValue (ascii "Connection") = []) ∧
      (fillIn response).responseHeader = (response.responseHeader.setKeyValue (ascii "Content-Length")
        (decimal response.responseBody.length)).setAll items := by
  have hheader : (fillIn response).responseHeader =
      let header := response.responseHeader.setKeyValue (ascii "Content-Length")
        (decimal response.responseBody.length)
      if header.getValue (ascii "Connection") = [] then
        header.setKeyValue (ascii "Connection") (ascii "keep-alive")
      else header := by
    unfold fillIn
    dsimp only
    split <;> split <;> rfl
  rw [hheader]
  dsimp only
  split
  · exact ⟨_, .inr ⟨rfl, ‹_›⟩, rfl⟩
  · exact ⟨_, .inl rfl, rfl⟩

theorem fillIn_length (response : HttpResponse) :
    (fillIn response).responseHeader.getValue (ascii "Content-Length") =
      decimal response.responseBody.length := by
  have hother : normalizeHeaderKey (ascii "Connection") ≠ normalizeHeaderKey (ascii "Content-Length") := by
    decide
  have hset : ∀ header : HttpHeaderComm, (header.setKeyValue (ascii "Content-Length")
      (decimal response.responseBody.length)).getValue (ascii "Content-Length") =
        decimal response.responseBody.length := fun header => by
    rw [HttpHeaderComm.getValue, HttpHeaderComm.setKeyValue_lookup, if_pos rfl, Option.getD_some]
  obtain ⟨items, rfl | ⟨rfl, -⟩, hheader⟩ := fillIn_header response
  · rw [hheader]
    exact hset _
  · rw [hheader]
    show HttpHeaderComm.getValue (HttpHeaderComm.setKeyValue _ _ _) _ = _
    rw [HttpHeaderComm.getValue, HttpHeaderComm.setKeyValue_lookup, if_neg hother]
    exact hset _

/-- The status line is one line, if what the response has of it is. -/
theorem statusLine_oneLine {response : HttpResponse} (hversion : OneLine response.responseVersion)
    (hinfo : OneLine response.responseInfo) : OneLine (statusLine (fillIn response)) := by
  have hversion' : OneLine (fillIn response).responseVersion := by
    rw [fillIn_version]
    split
    · decide
    · exact hversion
  have hinfo' : OneLine (fillIn response).responseInfo := by
    rw [fillIn_info]
    split
    · exact httpCodeToString_oneLine _
    · exact hinfo
  have hspace : OneLine (ascii " ") := by decide
  simp only [statusLine, oneLine_append]
  exact ⟨⟨⟨⟨hversion', hspace⟩, decimal_oneLine _⟩, hspace⟩, hinfo'⟩

theorem Framed.kept {response : HttpResponse} (h : Framed response) :
    ∀ item ∈ (fillIn response).responseHeader.maps.toList, Kept item := by
  obtain ⟨items, hitems, hset⟩ := h.header
  obtain ⟨more, hmore, hheader⟩ := fillIn_header response
  have hall : (fillIn response).responseHeader = .setAll {}
      (items ++ (ascii "Content-Length", decimal response.responseBody.length) :: more) := by
    rw [hheader, hitems, HttpHeaderComm.setAll, HttpHeaderComm.setAll, HttpHeaderComm.setAll, List.foldl_append]
    rfl
  rw [hall]
  refine kept_of_settable fun item hitem => ?_
  rcases List.mem_append.mp hitem with hitem | hitem
  · exact hset item hitem
  rcases List.mem_cons.mp hitem with rfl | hitem
  · exact settable_contentLength _
  · rcases hmore with rfl | ⟨rfl, -⟩
    · cases hitem
    · exact List.mem_singleton.mp hitem ▸ settable_keepAlive

/-! ### Reading what was encoded -/

/-- What a reader gets of a response that was sent. -/
def contentsOf (sent : HttpResponse) : Contents :=
  ⟨statusLine sent, sent.responseHeader, sent.responseBody⟩

/-- Something is set in every response. -/
theorem fillIn_toList (response : HttpResponse) : (fillIn response).responseHeader.maps.toList ≠ [] := by
  have hvalue := fillIn_length response
  rw [HttpHeaderComm.getValue] at hvalue
  intro hnil
  cases hlookup : (fillIn response).responseHeader.maps[normalizeHeaderKey (ascii "Content-Length")]? with
  | none =>
    rw [hlookup] at hvalue
    exact decimal_ne_nil _ hvalue.symm
  | some value =>
    have := Std.ExtTreeMap.mem_toList_iff_getElem?_eq_some.mpr hlookup
    rw [hnil] at this
    cases this

/-- What is written of a response, line by line. -/
theorem encoded_eq {sent : HttpResponse} {item : Bytes × Bytes} {items : List (Bytes × Bytes)}
    (h : sent.responseHeader.maps.toList = item :: items) : encoded sent =
      joined (statusLine sent) (HttpHeaderComm.line item :: items.map HttpHeaderComm.line) ++
        (kHttpHeaderEnd ++ sent.responseBody) := by
  have hend : kHttpHeaderEnd = kHttpCrlf ++ kHttpCrlf := by decide
  have hlines : sent.responseHeader.toHttpString =
      joined (HttpHeaderComm.line item) (items.map HttpHeaderComm.line) ++ kHttpCrlf := by
    rw [HttpHeaderComm.toHttpString, h, ← flatMap_crlf, ← List.map_cons, List.flatMap_map]
  rw [encoded, hlines, hend, joined]
  simp only [List.append_assoc]

/-- Where the head ends in what is written. -/
theorem find_encoded {sent : HttpResponse} {item : Bytes × Bytes} {items : List (Bytes × Bytes)}
    (h : sent.responseHeader.maps.toList = item :: items)
    (hlines : ∀ l ∈ statusLine sent :: HttpHeaderComm.line item :: items.map HttpHeaderComm.line, IsLine l)
    (more : Bytes) : find kHttpHeaderEnd (encoded sent ++ more) =
      some (joined (statusLine sent) (HttpHeaderComm.line item :: items.map HttpHeaderComm.line)).length := by
  rw [encoded_eq h, List.append_assoc, List.append_assoc]
  exact find_headerEnd hlines _

/-- The headers are parsed as the map they were written from. -/
theorem parse_headers {header : HttpHeaderComm} (hkept : ∀ item ∈ header.maps.toList, Kept item)
    {item : Bytes × Bytes} {items : List (Bytes × Bytes)} (h : header.maps.toList = item :: items) :
    parseHttpRequestHeader {} (joined (HttpHeaderComm.line item) (items.map HttpHeaderComm.line)) =
      ({requestHeader := header}, none) := by
  have hheaders : ∀ i ∈ item :: items, Kept i := h ▸ hkept
  have hsetters : (item :: items).map setter = item :: items :=
    (List.map_congr_left fun i hi => (hheaders i hi).trimmed).trans (List.map_id _)
  rw [parseHttpRequestHeader_joined fun i hi => (hheaders i hi).toIsHeader, hsetters, ← h,
    HttpHeaderComm.setAll_toList fun i hi => (hkept i hi).normal]

/-- **A response is read off the front**, whatever follows it. -/
theorem readResponse_encoded {response : HttpResponse} (h : Framed response)
    (hlen : response.responseBody.length < 2 ^ 63) (more : Bytes) :
    readResponse (encoded (fillIn response) ++ more) = some (contentsOf (fillIn response), more) := by
  obtain ⟨item, items, hitems⟩ := List.exists_cons_of_ne_nil (fillIn_toList response)
  have hkept := h.kept
  have hstatus := (statusLine_oneLine h.version h.info).1
  have hlength := fillIn_length response
  rw [← fillIn_body] at hlen hlength
  generalize fillIn response = sent at *
  have hisLine : ∀ l ∈ statusLine sent :: HttpHeaderComm.line item :: items.map HttpHeaderComm.line,
      IsLine l := by
    intro l hl
    rcases List.mem_cons.mp hl with rfl | hl
    · exact isLine_of_not_mem (by simp [statusLine, ascii]) hstatus
    · obtain ⟨i, hi, rfl⟩ := List.mem_map.mp (List.map_cons ▸ hl)
      have hline := (hkept i (hitems ▸ hi)).toIsHeader.line
      exact isLine_of_not_mem hline.1 hline.2
  have hend := find_encoded hitems hisLine more
  have hbytes : encoded sent ++ more = joined (statusLine sent) (HttpHeaderComm.line item ::
      items.map HttpHeaderComm.line) ++ (kHttpHeaderEnd ++ (sent.responseBody ++ more)) := by
    rw [encoded_eq hitems, List.append_assoc, List.append_assoc]
  have hsplit : joined (statusLine sent) (HttpHeaderComm.line item :: items.map HttpHeaderComm.line) =
      statusLine sent ++ (kHttpCrlf ++ joined (HttpHeaderComm.line item) (items.map HttpHeaderComm.line)) := rfl
  generalize joined (statusLine sent) (HttpHeaderComm.line item :: items.map HttpHeaderComm.line) = head at *
  have hline : find kHttpCrlf head = some (statusLine sent).length := hsplit ▸ find_firstLine hstatus _
  have hrest : head.drop ((statusLine sent).length + 2) =
      joined (HttpHeaderComm.line item) (items.map HttpHeaderComm.line) := by
    rw [hsplit, ← List.append_assoc]
    exact List.drop_left' List.length_append
  have hparse := hrest ▸ parse_headers hkept hitems
  have hbody : (encoded sent ++ more).drop (head.length + 4) = sent.responseBody ++ more := by
    rw [hbytes, ← List.append_assoc]
    exact List.drop_left' List.length_append
  have htake : (encoded sent ++ more).take head.length = head := by rw [hbytes, List.take_left]
  have hfirst : head.take (statusLine sent).length = statusLine sent := by rw [hsplit, List.take_left]
  have hroom : ¬ ((sent.responseBody.length : Int) < 0 ∨
      ((sent.responseBody ++ more).length : Int) < sent.responseBody.length) := by
    rw [List.length_append]
    omega
  simp only [readResponse, hend, htake, hline, hparse, hlength, strtoll_decimal hlen, hbody, hfirst, if_neg hroom,
    Int.toNat_natCast, List.take_left, List.drop_left, Option.bind_eq_bind, Option.bind_some, Option.pure_def]
  rfl

theorem encoded_ne_nil (response : HttpResponse) : encoded response ≠ [] := by
  simp [encoded, kHttpCrlf_ne_nil]

theorem readAll_encoded {responses : List HttpResponse} (h : ∀ r ∈ responses, Framed r)
    (hlen : ∀ r ∈ responses, r.responseBody.length < 2 ^ 63) {n : Nat}
    (hn : (responses.flatMap fun r => encoded (fillIn r)).length < n) :
    readAll n (responses.flatMap fun r => encoded (fillIn r)) =
      some (responses.map fun r => contentsOf (fillIn r)) := by
  obtain ⟨m, rfl⟩ : ∃ m, n = m + 1 := ⟨n - 1, by omega⟩
  induction responses generalizing m with
  | nil => rfl
  | cons r rest ih =>
    have hread := readResponse_encoded (h r (List.mem_cons_self ..)) (hlen r (List.mem_cons_self ..))
      (rest.flatMap fun r => encoded (fillIn r))
    have hpos := List.length_pos_iff.mpr (encoded_ne_nil (fillIn r))
    rw [List.flatMap_cons, List.length_append] at hn
    obtain ⟨k, rfl⟩ : ∃ k, m = k + 1 := ⟨m - 1, by omega⟩
    have hlater := ih (fun q hq => h q (List.mem_cons_of_mem r hq))
      (fun q hq => hlen q (List.mem_cons_of_mem r hq)) k (by omega)
    rw [List.flatMap_cons, readAll, hread]
    · simp only [Option.bind_eq_bind, Option.bind_some, Option.pure_def, List.map_cons, hlater]
    · exact List.append_ne_nil_of_left_ne_nil (encoded_ne_nil _) _

/-! ### Writing and reading -/

/-- A response as `encode` leaves it. -/
def sentOf (response : HttpResponse) : HttpResponse :=
  {fillIn {response with encodeSucc := false} with encodeSucc := true}

theorem fillIn_flag (response : HttpResponse) (flag : Bool) :
    fillIn {response with encodeSucc := flag} = {fillIn response with encodeSucc := flag} := by
  unfold fillIn
  dsimp only
  split <;> split <;> rfl

theorem encodeAll_spec (responses : List HttpResponse) {b : TcpBuffer} (h : WellFormed b)
    (hfit : b.writeIndex + (responses.map fun r => (encoded (fillIn r)).length).sum < 2 ^ 30) :
    ∃ b', encodeAll b responses = some (b', responses.map sentOf) ∧ WellFormed b' ∧
      b'.readable = b.readable ++ responses.flatMap fun r => encoded (fillIn r) := by
  induction responses generalizing b with
  | nil => exact ⟨b, rfl, h, by simp⟩
  | cons r rest ih =>
    rw [List.map_cons, List.sum_cons] at hfit
    have hencoded : encoded (fillIn {r with encodeSucc := false}) = encoded (fillIn r) := by
      rw [fillIn_flag]
      rfl
    obtain ⟨c, hc, hcwf, hcreadable, hcindex⟩ := writeToBuffer_spec h (encoded (fillIn r)) (by omega)
    obtain ⟨b', hb', hwf, hreadable⟩ := ih hcwf (by omega)
    refine ⟨b', ?_, hwf, ?_⟩
    · simp only [encodeAll, encode, hencoded, hc, hb', Option.bind_eq_bind, Option.bind_some, Option.pure_def,
        List.map_cons, sentOf]
    · rw [hreadable, hcreadable, List.flatMap_cons, List.append_assoc]

/-- **Responses frame themselves.** They are encoded into one buffer; a reader of its bytes
gets the status line, the header as `encode` left it and the body of each, in order, and
nothing is left. -/
theorem responses_framed (responses : List HttpResponse) (hr : ∀ r ∈ responses, Framed r)
    (htotal : (responses.map fun r => (encoded (fillIn r)).length).sum < 2 ^ 30) (capacity : Int)
    (hcap : 0 ≤ capacity) (hint : capacity < 2 ^ 31) :
    ∃ buffer sent bytes, encodeAll (make capacity) responses = some (buffer, sent) ∧
      buffer.getBufferString = some bytes ∧ readAll (bytes.length + 1) bytes = some (sent.map contentsOf) ∧
      sent.map (fun r => r.responseBody) = responses.map fun r => r.responseBody := by
  obtain ⟨b, hb, hwf, hreadable⟩ := encodeAll_spec responses (make_wellFormed capacity hcap hint)
    (by show (0 : Int) + _ < _; omega)
  rw [make_readable, List.nil_append] at hreadable
  have hlen : ∀ r ∈ responses, r.responseBody.length < 2 ^ 63 := by
    intro r hr
    have hsum : (encoded (fillIn r)).length ≤ (responses.map fun r => (encoded (fillIn r)).length).sum := by
      have hmem : encoded (fillIn r) ∈ responses.map fun r => encoded (fillIn r) :=
        List.mem_map.mpr ⟨r, hr, rfl⟩
      rw [← List.length_flatMap, List.flatMap_def]
      exact (List.sublist_flatten_of_mem hmem).length_le
    have hpart : r.responseBody.length ≤ (encoded (fillIn r)).length := by
      rw [encoded, List.length_append, fillIn_body]
      exact Nat.le_add_left _ _
    omega
  have hsent : ∀ r ∈ responses, contentsOf (sentOf r) = contentsOf (fillIn r) := by
    intro r _
    rw [sentOf, fillIn_flag]
    rfl
  refine ⟨b, _, _, hb, getBufferString_spec hwf, ?_, ?_⟩
  · rw [hreadable, readAll_encoded hr hlen (Nat.lt_succ_self _), List.map_map]
    exact congrArg some (List.map_congr_left fun r hr => (hsent r hr).symm)
  · rw [List.map_map]
    exact List.map_congr_left fun r _ => fillIn_body _

/-- A page with an empty line in it. -/
def page : HttpResponse where
  responseHeader := .setAll {} [(ascii "Content-Type", ascii "text/plain")]
  responseBody := ascii "one\r\n\r\ntwo"

theorem framed_page : Framed page where
  version := by decide
  info := by decide
  header := ⟨_, rfl, fun item hitem => List.mem_singleton.mp hitem ▸ settable_of_name (by decide) (by decide)⟩

theorem responses_framed_page :
    ∃ buffer sent bytes, encodeAll (make 16) [page, page] = some (buffer, sent) ∧
      buffer.getBufferString = some bytes ∧ readAll (bytes.length + 1) bytes = some (sent.map contentsOf) ∧
      sent.map (fun r => r.responseBody) = [page, page].map fun r => r.responseBody :=
  responses_framed [page, page] (by simp [framed_page]) (by decide +kernel) 16 (by decide) (by decide)

end CoroutineRpc.Net.Http
