import CoroutineRpc.Net.Http.Head
import CoroutineRpc.Net.Http.Received

/-! The requests that `decode` means to accept.

A `RequestText` is a request as a client writes it. The end of the request line and the end
of the head are searched for separately and compared; they overlap when there is no header
line. Every other request is accepted (`decodes_iff`). -/
namespace CoroutineRpc.Net.Http
open Comm.StringUtil Library.Search Net.Tcp Net.Tcp.TcpBuffer

/-- A number in decimal. -/
structure Denotes (digits : Bytes) (n : Nat) : Prop where
  nonempty : digits ≠ []
  digit : ∀ c ∈ digits, isdigit c = true
  value : digitsValue digits = n

/-- The header lines with a name, in any case. -/
def linesOf (headers : List (Bytes × Bytes)) (name : Bytes) : List (Bytes × Bytes) :=
  headers.filter fun h => normalizeHeaderKey (trim h.1) = normalizeHeaderKey name

structure RequestText where
  method : Bytes
  target : Bytes
  version : Bytes
  headers : List (Bytes × Bytes)
  body : Bytes
  method_ok : toUpper method = ascii "GET" ∨ toUpper method = ascii "POST"
  target_ok : target.head? = some (byte '/') ∧ ∀ c ∈ target, isspace c = false
  version_ok : toUpper version = ascii "HTTP/1.0" ∨ toUpper version = ascii "HTTP/1.1"
  name_ok : ∀ h ∈ headers, (∃ c ∈ h.1, isBlank c = false) ∧ byte ':' ∉ h.1 ∧ cr ∉ h.1 ∧ lf ∉ h.1
  value_ok : ∀ h ∈ headers, cr ∉ h.2 ∧ lf ∉ h.2
  transferEncoding_ok : linesOf headers (ascii "Transfer-Encoding") = []
  contentLength_ok : body = [] ∧ linesOf headers (ascii "Content-Length") = [] ∨
    body ≠ [] ∧ body.length ≤ kMaxHttpBodySize ∧
      ∃ h, linesOf headers (ascii "Content-Length") = [h] ∧ Denotes (trim h.2) body.length

namespace RequestText

def requestLine (r : RequestText) : Bytes := r.method ++ ascii " " ++ r.target ++ ascii " " ++ r.version

def render (r : RequestText) : Bytes :=
  r.requestLine ++ kHttpCrlf ++ r.headers.flatMap (fun h => h.1 ++ ascii ": " ++ h.2 ++ kHttpCrlf) ++
    kHttpCrlf ++ r.body

/-- `decode` takes the request off the buffer, and `rest` stays. -/
def Decodes (b : TcpBuffer) (r : RequestText) (rest : Bytes) : Prop :=
  ∃ out, decode b {} = some out ∧ out.request.decodeSucc = true ∧
    (toUpper r.method = ascii "GET" → out.request.requestMethod = .get) ∧
    (toUpper r.method = ascii "POST" → out.request.requestMethod = .post) ∧
    out.request.requestVersion = toUpper r.version ∧ out.request.requestBody = r.body ∧
    out.buffer.readable = rest

/-! ### The request line -/

/-- A word that is spelled like a word is one. -/
theorem word_of_toUpper {word spelled : Bytes} (h : toUpper word = spelled)
    (hspelled : spelled ≠ [] ∧ ∀ c ∈ spelled, isspace c = false) :
    word ≠ [] ∧ ∀ c ∈ word, isspace c = false := by
  subst h
  refine ⟨fun hnil => hspelled.1 (by rw [hnil]; rfl), fun c hc => ?_⟩
  rw [← isspace_toupper]
  exact hspelled.2 _ (List.mem_map_of_mem hc)

theorem method_word (r : RequestText) : r.method ≠ [] ∧ ∀ c ∈ r.method, isspace c = false := by
  rcases r.method_ok with h | h
  · exact word_of_toUpper h (by decide)
  · exact word_of_toUpper h (by decide)

theorem version_word (r : RequestText) : r.version ≠ [] ∧ ∀ c ∈ r.version, isspace c = false := by
  rcases r.version_ok with h | h
  · exact word_of_toUpper h (by decide)
  · exact word_of_toUpper h (by decide)

theorem target_ne_nil (r : RequestText) : r.target ≠ [] := by
  intro hnil
  have := r.target_ok.1
  rw [hnil] at this
  cases this

theorem requestWords_requestLine (r : RequestText) :
    requestWords r.requestLine = some (r.method, r.target, r.version) := by
  have hspace : isspace (byte ' ') = true := by decide
  have hmethod : extract r.requestLine =
      some (r.method, byte ' ' :: (r.target ++ (byte ' ' :: r.version))) := by
    have hline : r.requestLine = r.method ++ (byte ' ' :: (r.target ++ (byte ' ' :: r.version))) := by
      simp [requestLine, ascii]
    rw [hline]
    exact extract_word r.method_word.1 r.method_word.2 (by simpa using hspace)
  have htarget := extract_word r.target_ne_nil r.target_ok.2
    (show ∀ c ∈ (byte ' ' :: r.version).head?, isspace c = true by simpa using hspace)
  have hversion := extract_word r.version_word.1 r.version_word.2
    (show ∀ c ∈ ([] : Bytes).head?, isspace c = true by simp)
  rw [List.append_nil] at hversion
  simp only [requestWords, hmethod, extract_space hspace, htarget, hversion, extract_nil,
    Option.bind_eq_bind, Option.bind_some, Option.pure_def]

/-- No `CR` in the request line. -/
theorem cr_requestLine (r : RequestText) : cr ∉ r.requestLine := by
  have hcr : ∀ {word : Bytes}, (∀ c ∈ word, isspace c = false) → cr ∉ word := fun h hmem =>
    absurd (h cr hmem) (by decide)
  have hspace : cr ∉ ascii " " := by decide
  simp [requestLine, hcr r.method_word.2, hcr r.target_ok.2, hcr r.version_word.2, hspace]

def httpMethod (r : RequestText) : HttpMethod := if toUpper r.method = ascii "GET" then .get else .post

theorem methodOf_method (r : RequestText) : methodOf (toUpper r.method) = some r.httpMethod := by
  rcases r.method_ok with h | h
  · rw [methodOf, httpMethod, if_pos h, if_pos h]
  · rw [methodOf, httpMethod, h]
    rfl

theorem parseHttpRequestLine_spec (r : RequestText) (request : HttpRequest) :
    parseHttpRequestLine request r.requestLine =
      (setTarget {request with requestMethod := r.httpMethod, requestVersion := toUpper r.version} r.target,
        none) := by
  have hversion : ¬ (toUpper r.version ≠ ascii "HTTP/1.1" ∧ toUpper r.version ≠ ascii "HTTP/1.0") :=
    fun h => r.version_ok.elim h.2 h.1
  simp only [parseHttpRequestLine, requestWords_requestLine, methodOf_method, if_neg hversion]

/-! ### The head -/

theorem isHeader (r : RequestText) : ∀ h ∈ r.headers, IsHeader h := fun h hh =>
  ⟨trim_ne_nil (r.name_ok h hh).1, (r.name_ok h hh).2.1, (r.name_ok h hh).2.2.1, (r.value_ok h hh).1⟩

/-- What the header lines leave under a name. -/
theorem getValue_setters (headers : List (Bytes × Bytes)) (name : Bytes) :
    (HttpHeaderComm.setAll {} (headers.map setter)).getValue name =
      ((linesOf headers name).getLast?.map fun h => trim h.2).getD [] := by
  have hsetters : HttpHeaderComm.settersOf (headers.map setter) (normalizeHeaderKey name) =
      (linesOf headers name).map setter := List.filter_map
  rw [HttpHeaderComm.setAll_getValue, hsetters, List.getLast?_map, Option.map_map]
  rfl

theorem contentLengthOf_headers (r : RequestText) {header : HttpHeaderComm}
    (h : header = .setAll {} (r.headers.map setter)) : contentLengthOf header = .ok r.body.length := by
  subst h
  rcases r.contentLength_ok with ⟨hbody, hnone⟩ | ⟨-, hmax, line, hlines, hdenotes⟩
  · have hvalue : (HttpHeaderComm.setAll {} (r.headers.map setter)).getValue (ascii "Content-Length") = [] := by
      rw [getValue_setters, hnone]
      rfl
    rw [contentLengthOf, hvalue, hbody]
    rfl
  · have hvalue : (HttpHeaderComm.setAll {} (r.headers.map setter)).getValue (ascii "Content-Length") =
        trim line.2 := by
      rw [getValue_setters, hlines]
      rfl
    have hmax' : (r.body.length : Int) ≤ 16 * 1024 * 1024 := hmax
    have hread := strtoll_digits hdenotes.nonempty hdenotes.digit (by rw [hdenotes.value]; omega)
    rw [hdenotes.value] at hread
    have hok : ¬ (([] : Bytes) ≠ [] ∨ (r.body.length : Int) < 0 ∨ (r.body.length : Int) > kMaxHttpBodySize) := by
      simp only [ne_eq, not_true, false_or, not_or]
      exact ⟨by omega, Int.not_lt.mpr hmax⟩
    simp only [contentLengthOf, hvalue, if_neg hdenotes.nonempty, hread, if_neg hok, Int.toNat_natCast]

/-- **The head of a request with headers is parsed**, and says how long the body is. -/
theorem parseHead_spec (r : RequestText) {h : Bytes × Bytes} {hs : List (Bytes × Bytes)}
    (hheaders : r.headers = h :: hs) : ∃ parsed,
      parseHead {} r.requestLine (joined (HttpHeaderComm.line h) (hs.map HttpHeaderComm.line)) =
        (parsed, .ok r.body.length) ∧
      parsed.requestMethod = r.httpMethod ∧ parsed.requestVersion = toUpper r.version := by
  have hlines := parseHttpRequestHeader_joined fun i hi => r.isHeader i (hheaders ▸ hi)
  obtain ⟨hmethod, hversion, hheader⟩ := setTarget_keeps
    {requestMethod := r.httpMethod, requestVersion := toUpper r.version} r.target
  refine ⟨{setTarget {requestMethod := r.httpMethod, requestVersion := toUpper r.version} r.target with
    requestHeader := .setAll {} (r.headers.map setter)}, ?_, hmethod, hversion⟩
  rw [parseHead, parseHttpRequestLine_spec]
  dsimp only
  rw [hlines, ← hheaders]
  dsimp only
  rw [hheader]
  have hidentity : toLower ((HttpHeaderComm.setAll {} (r.headers.map setter)).getValue
      (ascii "Transfer-Encoding")) = [] := by
    rw [getValue_setters, r.transferEncoding_ok]
    rfl
  rw [hidentity, if_neg (fun h => h.1 rfl), r.contentLengthOf_headers rfl]

/-! ### What is accepted -/

/-- The request behind its first line. -/
theorem render_eq (r : RequestText) {h : Bytes × Bytes} {hs : List (Bytes × Bytes)}
    (hheaders : r.headers = h :: hs) : r.render =
      joined r.requestLine (HttpHeaderComm.line h :: hs.map HttpHeaderComm.line) ++ (kHttpHeaderEnd ++ r.body) := by
  have hend : kHttpHeaderEnd = kHttpCrlf ++ kHttpCrlf := by decide
  have hlines : r.headers.flatMap (fun h => h.1 ++ ascii ": " ++ h.2 ++ kHttpCrlf) =
      joined (HttpHeaderComm.line h) (hs.map HttpHeaderComm.line) ++ kHttpCrlf := by
    rw [← flatMap_crlf, ← List.map_cons, List.flatMap_map, hheaders]
    rfl
  rw [render, hlines, hend, joined]
  simp only [List.append_assoc]

/-- **A request with a header line is accepted**, whatever follows it. -/
theorem decodes_of_headers (r : RequestText) (hheaders : r.headers ≠ []) {b : TcpBuffer} (hwf : WellFormed b)
    {rest : Bytes} (hb : b.readable = r.render ++ rest) : Decodes b r rest := by
  obtain ⟨h, hs, hcons⟩ := List.exists_cons_of_ne_nil hheaders
  obtain ⟨parsed, hparse, hmethod, hversion⟩ := r.parseHead_spec hcons
  obtain ⟨lines, hlines⟩ : ∃ lines, lines = joined (HttpHeaderComm.line h) (hs.map HttpHeaderComm.line) :=
    ⟨_, rfl⟩
  have hbytes : b.readable = r.requestLine ++ (kHttpCrlf ++ (lines ++ (kHttpHeaderEnd ++ (r.body ++ rest)))) := by
    rw [hb, r.render_eq hcons, joined, hlines]
    simp only [List.append_assoc]
  have hisLine : ∀ l ∈ r.requestLine :: HttpHeaderComm.line h :: hs.map HttpHeaderComm.line, IsLine l := by
    rw [← List.map_cons, ← hcons]
    intro l hl
    rcases List.mem_cons.mp hl with rfl | hl
    · exact isLine_of_not_mem (by simp [requestLine, r.method_word.1]) r.cr_requestLine
    · obtain ⟨i, hi, rfl⟩ := List.mem_map.mp hl
      exact isLine_of_not_mem (r.isHeader i hi).line.1 (r.isHeader i hi).line.2
  have hline : find kHttpCrlf b.readable = some r.requestLine.length :=
    hbytes ▸ find_firstLine r.cr_requestLine _
  have hend : find kHttpHeaderEnd b.readable = some (r.requestLine.length + 2 + lines.length) := by
    have := find_headerEnd hisLine (r.body ++ rest)
    rw [joined, ← hlines] at this
    rw [hbytes]
    simp only [List.append_assoc, List.length_append] at this ⊢
    rw [this, Nat.add_assoc]
    rfl
  obtain ⟨total, hjudge, hrest⟩ := judge_parts hbytes hline hend (hlines ▸ hparse)
  obtain ⟨b', hb', -, hreadable, -⟩ := @decode_taken b hwf {} _ total hjudge
  refine ⟨_, hb', rfl, fun hget => ?_, fun hpost => ?_, hversion, rfl, hreadable.trans hrest⟩
  · exact hmethod.trans (if_pos hget)
  · exact hmethod.trans (if_neg (by rw [hpost]; decide))

/-- Without one the two ends overlap, and the request is refused. -/
theorem not_decodes_of_nil (r : RequestText) (hheaders : r.headers = []) {b : TcpBuffer} (hwf : WellFormed b)
    {rest : Bytes} (hb : b.readable = r.render ++ rest) : ¬ Decodes b r rest := by
  have hend : kHttpHeaderEnd = kHttpCrlf ++ kHttpCrlf := by decide
  have hbytes : b.readable = r.requestLine ++ (kHttpHeaderEnd ++ (r.body ++ rest)) := by
    rw [hb, render, hheaders, hend]
    simp only [List.flatMap_nil, List.append_nil, List.append_assoc]
  have hfirst : find kHttpCrlf b.readable = some r.requestLine.length := by
    rw [hbytes, hend, List.append_assoc]
    exact find_firstLine r.cr_requestLine _
  have hlast : find kHttpHeaderEnd b.readable = some r.requestLine.length := by
    rw [hbytes, kHttpHeaderEnd_eq]
    exact find_of_not_mem r.cr_requestLine _
  have hjudge : judge {} b.readable = ({}, .reject .invalidHeaderBoundary) := by
    have hoverlap : r.requestLine.length < r.requestLine.length + kHttpCrlf.length :=
      Nat.lt_add_of_pos_right (by decide)
    simp only [judge, hfirst, hlast, if_pos hoverlap]
  rintro ⟨out, hout, hsucc, -⟩
  have hrefused : ∀ total, (judge {} b.readable).2 ≠ .accept total := by
    intro total haccept
    rw [hjudge] at haccept
    cases haccept
  obtain ⟨parsed, e, hleft, hfail⟩ := @decode_left b hwf {} hrefused
  obtain rfl := Option.some.inj (hout.symm.trans hleft)
  rw [hfail] at hsucc
  cases hsucc

/-- **A request of the grammar is accepted exactly when it has a header line.** -/
theorem decodes_iff (r : RequestText) {b : TcpBuffer} (hwf : WellFormed b) {rest : Bytes}
    (hb : b.readable = r.render ++ rest) : Decodes b r rest ↔ r.headers ≠ [] :=
  ⟨fun h hnil => r.not_decodes_of_nil hnil hwf hb h, fun h => r.decodes_of_headers h hwf hb⟩

/-- `GET /hello HTTP/1.1` with one header line. -/
def hello : RequestText where
  method := ascii "GET"
  target := ascii "/hello"
  version := ascii "HTTP/1.1"
  headers := [(ascii "Host", ascii "localhost")]
  body := []
  method_ok := by decide
  target_ok := by decide
  version_ok := by decide
  name_ok := by decide
  value_ok := by decide
  transferEncoding_ok := by decide
  contentLength_ok := .inl (by decide)

theorem decodes_iff_hello :
    Decodes ⟨0, 40, hello.render⟩ hello [] ↔ hello.headers ≠ [] :=
  hello.decodes_iff ⟨by decide, by decide, by decide, by decide⟩ (by decide)

/-- The same request with no header line. -/
def bare : RequestText where
  method := ascii "GET"
  target := ascii "/"
  version := ascii "HTTP/1.1"
  headers := []
  body := []
  method_ok := by decide
  target_ok := by decide
  version_ok := by decide
  name_ok := by decide
  value_ok := by decide
  transferEncoding_ok := by decide
  contentLength_ok := .inl (by decide)

/-- `GET / HTTP/1.1` and two line ends are refused. -/
theorem not_decodes_bare : ¬ ∀ (r : RequestText) (b : TcpBuffer), WellFormed b →
    b.readable = r.render → Decodes b r [] := by
  intro h
  obtain ⟨out, hout, hsucc, -⟩ := h bare ⟨0, 18, ascii "GET / HTTP/1.1\r\n\r\n"⟩
    ⟨by decide, by decide, by decide, by decide⟩ (by decide)
  have hfail : (decode ⟨0, 18, ascii "GET / HTTP/1.1\r\n\r\n"⟩ {}).map (fun out => out.request.decodeSucc) =
      some false := by decide +kernel
  rw [hout, Option.map_some, hsucc] at hfail
  cases hfail

end RequestText

end CoroutineRpc.Net.Http
