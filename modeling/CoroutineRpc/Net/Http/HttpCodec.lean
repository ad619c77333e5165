import CoroutineRpc.Net.Http.HttpDefine
import Mathlib.Data.List.DropRight

/-! `HttpCodec`: requests off a `TcpBuffer`, responses onto one.

`decode` looks at all that is readable: the request line ends at the first line end, the
head at the first empty line, and the head says how long the body is. It takes a request
as a whole or leaves the buffer as it is. `none` is undefined behaviour, as in `Memory`. -/
namespace CoroutineRpc.Net.Http
open Comm Comm.StringUtil Library.Search Net.Tcp

def kMaxHttpBodySize : Int := 16 * 1024 * 1024

def isBlank (c : Byte) : Bool := c = byte ' ' ∨ c = byte '\t'

def trim (value : Bytes) : Bytes := (value.dropWhile isBlank).rdropWhile isBlank

def toUpper (value : Bytes) : Bytes := value.map toupper

def toLower (value : Bytes) : Bytes := value.map tolower

/-! ### Encoding -/

/-- What `encode` fills in. -/
def fillIn (response : HttpResponse) : HttpResponse :=
  let response :=
    if response.responseVersion = [] then {response with responseVersion := ascii "HTTP/1.1"} else response
  let response :=
    if response.responseInfo = [] then {response with responseInfo := httpCodeToString response.responseCode}
    else response
  let header := response.responseHeader.setKeyValue (ascii "Content-Length")
    (decimal response.responseBody.length)
  let header :=
    if header.getValue (ascii "Connection") = [] then
      header.setKeyValue (ascii "Connection") (ascii "keep-alive")
    else header
  {response with responseHeader := header}

def statusLine (response : HttpResponse) : Bytes :=
  response.responseVersion ++ ascii " " ++ decimal response.responseCode ++ ascii " " ++ response.responseInfo

/-- What is written for a response that is filled in. -/
def encoded (response : HttpResponse) : Bytes :=
  statusLine response ++ kHttpCrlf ++ response.responseHeader.toHttpString ++ kHttpCrlf ++ response.responseBody

def encode (buffer : TcpBuffer) (response : HttpResponse) : Option (TcpBuffer × HttpResponse) := do
  let response := fillIn {response with encodeSucc := false}
  let buffer ← buffer.writeToBuffer (encoded response)
  pure (buffer, {response with encodeSucc := true})

/-! ### Decoding -/

/-- What `decode` and the parsers write to the error log. -/
inductive DecodeError where
  | invalidHeaderBoundary
  | malformedRequestLine
  | unsupportedMethod (method : Bytes)
  | unsupportedVersion (version : Bytes)
  | malformedHeader
  | emptyHeaderName
  | unsupportedTransferEncoding (transferEncoding : Bytes)
  | invalidContentLength (value : Bytes)
deriving DecidableEq

def DecodeError.text : DecodeError → Bytes
  | .invalidHeaderBoundary => ascii "event=http_decode_failed stage=headers reason=invalid_header_boundary"
  | .malformedRequestLine =>
    ascii "event=http_decode_failed stage=request_line reason=malformed_request_line"
  | .unsupportedMethod method =>
    ascii "event=http_decode_failed stage=request_line reason=unsupported_method method=" ++ method
  | .unsupportedVersion version =>
    ascii "event=http_decode_failed stage=request_line reason=unsupported_version version=" ++ version
  | .malformedHeader => ascii "event=http_decode_failed stage=headers reason=malformed_header"
  | .emptyHeaderName => ascii "event=http_decode_failed stage=headers reason=empty_header_name"
  | .unsupportedTransferEncoding transferEncoding =>
    ascii "event=http_decode_failed stage=headers reason=unsupported_transfer_encoding transfer_encoding=" ++
      transferEncoding
  | .invalidContentLength value =>
    ascii "event=http_decode_failed stage=headers reason=invalid_content_length value=" ++ value

/-- Three words and no more. -/
def requestWords (line : Bytes) : Option (Bytes × Bytes × Bytes) := do
  let (method, stream) ← extract line
  let (target, stream) ← extract stream
  let (version, stream) ← extract stream
  match extract stream with
  | some _ => none
  | none => pure (method, target, version)

def methodOf (method : Bytes) : Option HttpMethod :=
  if method = ascii "GET" then some .get
  else if method = ascii "POST" then some .post
  else none

/-- What is left of a target with a scheme. -/
def stripScheme (target : Bytes) : Bytes :=
  match find (ascii "://") target with
  | none => target
  | some scheme =>
    match find (ascii "/") (target.drop (scheme + 3)) with
    | none => ascii "/"
    | some length => target.drop (scheme + 3 + length)

def stripFragment (target : Bytes) : Bytes :=
  match find (ascii "#") target with
  | none => target
  | some fragment => target.take fragment

/-- A path that is empty or relative begins at the root. -/
def rooted (path : Bytes) : Bytes :=
  let path := if path = [] then ascii "/" else path
  if path.head? ≠ some (byte '/') then byte '/' :: path else path

def setTarget (request : HttpRequest) (target : Bytes) : HttpRequest :=
  let target := stripFragment (stripScheme target)
  match find (ascii "?") target with
  | none => {request with requestPath := rooted target}
  | some query =>
    let requestQuery := target.drop (query + 1)
    {request with
      requestPath := rooted (target.take query)
      requestQuery
      queryMaps := splitStrToMap requestQuery (ascii "&") (ascii "=") request.queryMaps}

/-- The request as far as it was parsed, and what was wrong. -/
def parseHttpRequestLine (request : HttpRequest) (line : Bytes) : HttpRequest × Option DecodeError :=
  match requestWords line with
  | none => (request, some .malformedRequestLine)
  | some (method, target, version) =>
    match methodOf (toUpper method) with
    | none => (request, some (.unsupportedMethod (toUpper method)))
    | some requestMethod =>
      let request := {request with requestMethod}
      let version := toUpper version
      if version ≠ ascii "HTTP/1.1" ∧ version ≠ ascii "HTTP/1.0" then
        (request, some (.unsupportedVersion version))
      else (setTarget {request with requestVersion := version} target, none)

/-- The name and the value of a header line. -/
def parseLine (line : Bytes) : Except DecodeError (Bytes × Bytes) :=
  match find (ascii ":") line with
  | none | some 0 => .error .malformedHeader
  | some separator =>
    let key := trim (line.take separator)
    let value := trim (line.drop (separator + 1))
    if key = [] then .error .emptyHeaderName else .ok (key, value)

/-- The loop of `parseHttpRequestHeader`. -/
def parseLines (request : HttpRequest) : List Bytes → HttpRequest × Option DecodeError
  | [] => (request, none)
  | line :: lines =>
    match parseLine line with
    | .error e => (request, some e)
    | .ok (key, value) =>
      parseLines {request with requestHeader := request.requestHeader.setKeyValue key value} lines

def parseHttpRequestHeader (request : HttpRequest) (headers : Bytes) : HttpRequest × Option DecodeError :=
  if headers = [] then (request, none)
  else parseLines request (splitStrToVector headers kHttpCrlf [])

def parseHttpRequestContent (request : HttpRequest) (content : Bytes) : HttpRequest :=
  {request with requestBody := content}

def contentLengthOf (header : HttpHeaderComm) : Except DecodeError Nat :=
  let text := header.getValue (ascii "Content-Length")
  if text = [] then .ok 0
  else
    match strtoll text with
    | none => .error (.invalidContentLength text)
    | some (value, rest) =>
      if rest ≠ [] ∨ value < 0 ∨ value > kMaxHttpBodySize then .error (.invalidContentLength text)
      else .ok value.toNat

/-- From the request line to the length of the body. -/
def parseHead (request : HttpRequest) (line headers : Bytes) : HttpRequest × Except DecodeError Nat :=
  match parseHttpRequestLine request line with
  | (request, some e) => (request, .error e)
  | (request, none) =>
    match parseHttpRequestHeader request headers with
    | (request, some e) => (request, .error e)
    | (request, none) =>
      let transferEncoding := toLower (request.requestHeader.getValue (ascii "Transfer-Encoding"))
      if transferEncoding ≠ [] ∧ transferEncoding ≠ ascii "identity" then
        (request, .error (.unsupportedTransferEncoding transferEncoding))
      else (request, contentLengthOf request.requestHeader)

/-- What becomes of the bytes that are readable. -/
inductive Verdict where
  | wait
  | reject (error : DecodeError)
  | accept (totalLength : Nat)
deriving DecidableEq

/-- `decode` between `getBufferString` and `recycleRead`. -/
def judge (request : HttpRequest) (bytes : Bytes) : HttpRequest × Verdict :=
  match find kHttpCrlf bytes, find kHttpHeaderEnd bytes with
  | some requestLineEnd, some headerEnd =>
    if headerEnd < requestLineEnd + kHttpCrlf.length then (request, .reject .invalidHeaderBoundary)
    else
      let headersBegin := requestLineEnd + kHttpCrlf.length
      match parseHead request (bytes.take requestLineEnd)
        ((bytes.drop headersBegin).take (headerEnd - headersBegin)) with
      | (request, .error e) => (request, .reject e)
      | (request, .ok contentLength) =>
        let bodyBegin := headerEnd + kHttpHeaderEnd.length
        let totalLength := bodyBegin + contentLength
        if bytes.length < totalLength then (request, .wait)
        else
          (parseHttpRequestContent request ((bytes.drop bodyBegin).take contentLength),
            .accept totalLength)
  | _, _ => (request, .wait)

structure Decoded where
  buffer : TcpBuffer
  request : HttpRequest
  error : Option DecodeError
deriving DecidableEq

def decode (buffer : TcpBuffer) (request : HttpRequest) : Option Decoded := do
  let bytes ← buffer.getBufferString
  match judge {request with decodeSucc := false} bytes with
  | (request, .wait) => pure ⟨buffer, request, none⟩
  | (request, .reject e) => pure ⟨buffer, request, some e⟩
  | (request, .accept totalLength) =>
    let buffer ← buffer.recycleRead totalLength
    pure ⟨buffer, {request with decodeSucc := true}, none⟩

/-! ### What is accepted -/

/-- A request in the first bytes: where its line and its head end, and how long its body is. -/
structure Accepts (request : HttpRequest) (bytes : Bytes) (requestLineEnd headerEnd contentLength : Nat)
    (parsed : HttpRequest) : Prop where
  line : find kHttpCrlf bytes = some requestLineEnd
  header : find kHttpHeaderEnd bytes = some headerEnd
  boundary : requestLineEnd + 2 ≤ headerEnd
  head : parseHead request (bytes.take requestLineEnd)
    ((bytes.drop (requestLineEnd + 2)).take (headerEnd - (requestLineEnd + 2))) = (parsed, .ok contentLength)
  body : headerEnd + 4 + contentLength ≤ bytes.length

theorem Accepts.judge {request parsed : HttpRequest} {bytes : Bytes} {a e n : Nat}
    (h : Accepts request bytes a e n parsed) : judge request bytes =
      (parseHttpRequestContent parsed ((bytes.drop (e + 4)).take n), .accept (e + 4 + n)) := by
  have hboundary : ¬ e < a + kHttpCrlf.length := Nat.not_lt.mpr h.boundary
  have hbody : ¬ bytes.length < e + kHttpHeaderEnd.length + n := Nat.not_lt.mpr h.body
  have hhead : parseHead request (bytes.take a) ((bytes.drop (a + kHttpCrlf.length)).take
      (e - (a + kHttpCrlf.length))) = (parsed, .ok n) := h.head
  simp only [Http.judge, h.line, h.header, if_neg hboundary, hhead, if_neg hbody]
  rfl

theorem judge_accept {request request' : HttpRequest} {bytes : Bytes} {total : Nat}
    (h : judge request bytes = (request', .accept total)) :
    ∃ a e n parsed, Accepts request bytes a e n parsed ∧ total = e + 4 + n ∧
      request' = parseHttpRequestContent parsed ((bytes.drop (e + 4)).take n) := by
  unfold judge at h
  split at h
  · rename_i a e hline hheader
    split at h
    · cases h
    rename_i hboundary
    dsimp only at h
    split at h
    · cases h
    rename_i parsed n hhead
    split at h
    · cases h
    rename_i hbody
    obtain ⟨hrequest, htotal⟩ := Prod.mk.inj h
    refine ⟨a, e, n, parsed, ⟨hline, hheader, Nat.not_lt.mp hboundary, hhead, Nat.not_lt.mp hbody⟩, ?_,
      hrequest.symm⟩
    injection htotal with htotal
    exact htotal.symm
  · cases h

/-- **What follows a request does not matter**: no boundary moves. -/
theorem Accepts.append {request parsed : HttpRequest} {bytes : Bytes} {a e n : Nat}
    (h : Accepts request bytes a e n parsed) (more : Bytes) :
    Accepts request (bytes ++ more) a e n parsed := by
  have hline := find_le h.line
  have hheader := find_le h.header
  refine ⟨find_append h.line more, find_append h.header more, h.boundary, ?_, ?_⟩
  · have hroom : e - (a + 2) ≤ (bytes.drop (a + 2)).length := by
      rw [List.length_drop]
      omega
    rw [List.take_append_of_le_length (by omega),
      List.drop_append_of_le_length (Nat.le_trans h.boundary (by omega)),
      List.take_append_of_le_length hroom]
    exact h.head
  · rw [List.length_append]
    exact Nat.le_trans h.body (Nat.le_add_right _ _)

theorem judge_append {request request' : HttpRequest} {bytes : Bytes} {total : Nat}
    (h : judge request bytes = (request', .accept total)) (more : Bytes) :
    judge request (bytes ++ more) = (request', .accept total) := by
  obtain ⟨a, e, n, parsed, haccepts, rfl, rfl⟩ := judge_accept h
  have hroom : n ≤ (bytes.drop (e + 4)).length := by
    have := haccepts.body
    rw [List.length_drop]
    omega
  rw [(haccepts.append more).judge,
    List.drop_append_of_le_length (Nat.le_trans (Nat.le_add_right _ n) haccepts.body),
    List.take_append_of_le_length hroom]

theorem judge_le {request request' : HttpRequest} {bytes : Bytes} {total : Nat}
    (h : judge request bytes = (request', .accept total)) : 0 < total ∧ total ≤ bytes.length := by
  obtain ⟨a, e, n, parsed, haccepts, rfl, -⟩ := judge_accept h
  exact ⟨by omega, haccepts.body⟩

/-! ### What `decode` does to a buffer -/

/-- What the target leaves alone. -/
theorem setTarget_keeps (request : HttpRequest) (target : Bytes) :
    (setTarget request target).requestMethod = request.requestMethod ∧
      (setTarget request target).requestVersion = request.requestVersion ∧
      (setTarget request target).requestHeader = request.requestHeader := by
  unfold setTarget
  dsimp only
  split <;> exact ⟨rfl, rfl, rfl⟩

theorem setTarget_data (request : HttpRequest) (target : Bytes) :
    (setTarget request target).toAbstractData = request.toAbstractData := by
  unfold setTarget
  dsimp only
  split <;> rfl

theorem parseHttpRequestLine_data (request : HttpRequest) (line : Bytes) :
    (parseHttpRequestLine request line).1.toAbstractData = request.toAbstractData := by
  unfold parseHttpRequestLine
  split
  · rfl
  split
  · rfl
  dsimp only
  split
  · rfl
  · exact setTarget_data _ _

theorem parseLines_data (lines : List Bytes) (request : HttpRequest) :
    (parseLines request lines).1.toAbstractData = request.toAbstractData := by
  induction lines generalizing request with
  | nil => rfl
  | cons line lines ih =>
    unfold parseLines
    split
    · rfl
    · exact ih _

theorem parseHttpRequestHeader_data (request : HttpRequest) (headers : Bytes) :
    (parseHttpRequestHeader request headers).1.toAbstractData = request.toAbstractData := by
  unfold parseHttpRequestHeader
  split
  · rfl
  · exact parseLines_data _ request

theorem parseHead_data (request : HttpRequest) (line headers : Bytes) :
    (parseHead request line headers).1.toAbstractData = request.toAbstractData := by
  have hline := parseHttpRequestLine_data request line
  unfold parseHead
  split
  · rename_i heq
    rwa [heq] at hline
  rename_i parsed heq
  rw [heq] at hline
  have hheader := parseHttpRequestHeader_data parsed headers
  split
  · rename_i heq'
    rw [heq'] at hheader
    exact hheader.trans hline
  · rename_i heq'
    rw [heq'] at hheader
    dsimp only
    split <;> exact hheader.trans hline

theorem judge_data (request : HttpRequest) (bytes : Bytes) :
    (judge request bytes).1.toAbstractData = request.toAbstractData := by
  unfold judge
  split
  · split
    · rfl
    rename_i a e _ _ _
    have hhead := parseHead_data request (bytes.take a)
      ((bytes.drop (a + kHttpCrlf.length)).take (e - (a + kHttpCrlf.length)))
    dsimp only
    split
    · rename_i heq
      rwa [heq] at hhead
    · rename_i heq
      rw [heq] at hhead
      split <;> exact hhead
  · rfl

/-- The request that is taken off the front, and the bytes that are left. -/
def receive (bytes : Bytes) : Option HttpRequest × Bytes :=
  match judge {} bytes with
  | (request, .accept total) => (some {request with decodeSucc := true}, bytes.drop total)
  | _ => (none, bytes)

end CoroutineRpc.Net.Http
