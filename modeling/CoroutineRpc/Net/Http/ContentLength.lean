import CoroutineRpc.Net.Http.Grammar

/-! What `decode` reads in a `Content-Length`.

The value is given to `strtoll`, which reads past white space and a sign, ends at a NUL, and says
nothing of any of them; and an empty value counts as no header at all. All other values are taken for
what they say (`strict_iff_undecorated`). -/
namespace CoroutineRpc.Net.Http
open Comm.StringUtil Library.Search Net.Tcp Net.Tcp.TcpBuffer

/-! ### Numbers as `strtoll` reads them -/

/-- A text that `strtoll` reads to its end as a C string. -/
structure Numeral (text spaces sign digits rest : Bytes) : Prop where
  parts : text = spaces ++ (sign ++ (digits ++ rest))
  space : ∀ c ∈ spaces, isspace c = true
  sign : sign = [] ∨ sign = ascii "+" ∨ sign = ascii "-"
  nonempty : digits ≠ []
  digit : ∀ c ∈ digits, isdigit c = true
  rest : ∀ c ∈ rest.head?, c = 0

/-- The number behind the sign. -/
def signed (sign digits : Bytes) : Int :=
  if sign = ascii "-" then -digitsValue digits else digitsValue digits

theorem space_begins {c : Byte} : isspace c = true → c ≠ 0 ∧ c ≠ byte '-' ∧ c ≠ byte '+' := by
  revert c
  decide +kernel

theorem takeSign_spec (text : Bytes) : ∃ sign, (sign = [] ∨ sign = ascii "+" ∨ sign = ascii "-") ∧
    text = sign ++ (takeSign text).2 ∧ ((takeSign text).1 = true ↔ sign = ascii "-") := by
  cases text with
  | nil => exact ⟨[], .inl rfl, rfl, by decide⟩
  | cons c text =>
    by_cases hminus : c = byte '-'
    · subst hminus
      exact ⟨ascii "-", .inr (.inr rfl), rfl, iff_of_true rfl rfl⟩
    by_cases hplus : c = byte '+'
    · subst hplus
      have hsign : ascii "+" ≠ ascii "-" := by decide
      exact ⟨ascii "+", .inr (.inl rfl), rfl, iff_of_false Bool.false_ne_true hsign⟩
    · have hnone : takeSign (c :: text) = (false, c :: text) := by rw [takeSign, if_neg hminus, if_neg hplus]
      have hnil : [] ≠ ascii "-" := by decide
      rw [hnone]
      exact ⟨[], .inl rfl, rfl, iff_of_false Bool.false_ne_true hnil⟩

/-- **What is read to the end is a number.** -/
theorem numeral_of_strtoll {text : Bytes} {value : Int} (h : strtoll text = some (value, [])) :
    ∃ spaces sign digits rest, Numeral text spaces sign digits rest ∧
      value = max (-2 ^ 63) (min (signed sign digits) (2 ^ 63 - 1)) := by
  obtain ⟨content, hcontent⟩ : ∃ content, content = text.takeWhile (· ≠ 0) := ⟨_, rfl⟩
  obtain ⟨sign, hsign, hbehind, hnegative⟩ := takeSign_spec (content.dropWhile isspace)
  simp only [strtoll, ← hcontent] at h
  split at h
  · cases h
  rename_i hdigits
  obtain ⟨hvalue, hrest⟩ := Prod.mk.inj (Option.some.inj h)
  -- the digits are all that is behind the sign
  have hall : (takeSign (content.dropWhile isspace)).2.takeWhile isdigit =
      (takeSign (content.dropWhile isspace)).2 := by
    have hsplit := List.take_append_drop ((takeSign (content.dropWhile isspace)).2.takeWhile isdigit).length
      (takeSign (content.dropWhile isspace)).2
    rwa [hrest, List.append_nil, ← List.prefix_iff_eq_take.mp (List.takeWhile_prefix _)] at hsplit
  refine ⟨content.takeWhile isspace, sign, _, text.dropWhile (· ≠ 0),
    ⟨?_, fun c hc => List.mem_takeWhile_imp hc, hsign, hdigits, fun c hc => List.mem_takeWhile_imp hc, ?_⟩, ?_⟩
  · rw [hall, ← List.append_assoc sign, ← hbehind, ← List.append_assoc, List.takeWhile_append_dropWhile, hcontent,
      List.takeWhile_append_dropWhile]
  · intro c hc
    have hhead := List.head?_dropWhile_not (fun c : Byte => decide (c ≠ 0)) text
    rw [Option.mem_def.mp hc] at hhead
    simpa using hhead
  · rw [← hvalue, signed]
    by_cases hneg : sign = ascii "-"
    · rw [if_pos hneg, if_pos (hnegative.mpr hneg)]
    · rw [if_neg hneg, if_neg (mt hnegative.mp hneg)]

/-- **A number is read to the end.** -/
theorem Numeral.strtoll {text spaces sign digits rest : Bytes} (h : Numeral text spaces sign digits rest) :
    strtoll text = some (max (-2 ^ 63) (min (signed sign digits) (2 ^ 63 - 1)), []) := by
  have hdigit0 : ∀ c ∈ digits, decide (c ≠ 0) = true := fun c hc => decide_eq_true (digit_begins (h.digit c hc)).1
  have hsign0 : ∀ c ∈ sign, decide (c ≠ 0) = true := by
    rcases h.sign with rfl | rfl | rfl <;> decide
  have hspace0 : ∀ c ∈ spaces, decide (c ≠ 0) = true := fun c hc => decide_eq_true (space_begins (h.space c hc)).1
  have hrest : rest.takeWhile (fun c => decide (c ≠ 0)) = [] := by
    cases hr : rest with
    | nil => rfl
    | cons c rest' => exact List.takeWhile_cons_of_neg (by simp [h.rest c (by rw [hr]; rfl)])
  have hcString : text.takeWhile (· ≠ 0) = spaces ++ (sign ++ digits) := by
    rw [h.parts, List.takeWhile_append_of_pos hspace0, List.takeWhile_append_of_pos hsign0,
      List.takeWhile_append_of_pos hdigit0, hrest, List.append_nil]
  obtain ⟨d, ds, hd⟩ := List.exists_cons_of_ne_nil h.nonempty
  have hfirst := h.digit d (by rw [hd]; exact List.mem_cons_self ..)
  have hnot : ∀ c ∈ (sign ++ digits).head?, isspace c = false := by
    rcases h.sign with hs | hs | hs
    · rw [hs, hd]
      rintro c hc
      obtain rfl := Option.some.inj hc
      exact not_isspace_of_isdigit hfirst
    · rw [hs]
      rintro c hc
      obtain rfl := Option.some.inj hc
      decide
    · rw [hs]
      rintro c hc
      obtain rfl := Option.some.inj hc
      decide
  have hspaces : (spaces ++ (sign ++ digits)).dropWhile isspace = sign ++ digits := by
    rw [List.dropWhile_append_of_pos h.space]
    cases hs : sign ++ digits with
    | nil => rfl
    | cons c cs => exact List.dropWhile_cons_of_neg (by rw [hnot c (by rw [hs]; rfl)]; decide)
  have hsigned : takeSign (sign ++ digits) = (decide (sign = ascii "-"), digits) := by
    rcases h.sign with hs | hs | hs
    · obtain ⟨-, hminus, hplus⟩ := digit_begins hfirst
      rw [hs, hd, List.nil_append, takeSign, if_neg hminus, if_neg hplus]
      rfl
    · rw [hs]
      rfl
    · rw [hs]
      rfl
  simp only [CoroutineRpc.strtoll, hcString, hspaces, hsigned, List.takeWhile_eq_self_iff.mpr h.digit,
    if_neg h.nonempty, List.drop_length, decide_eq_true_eq]
  rfl

/-! ### Requests with one `Content-Length` -/

/-- A request in the first bytes that only its `Content-Length` can make unacceptable; `value` is
what that says. -/
structure OneLength (bytes : Bytes) (requestLineEnd headerEnd : Nat) (value : Bytes) : Prop where
  line : find kHttpCrlf bytes = some requestLineEnd
  header : find kHttpHeaderEnd bytes = some headerEnd
  boundary : requestLineEnd + 2 ≤ headerEnd
  requestLine : (parseHttpRequestLine {} (bytes.take requestLineEnd)).2 = none
  headers : ∃ items name,
    (splitStrToVector ((bytes.drop (requestLineEnd + 2)).take (headerEnd - (requestLineEnd + 2))) kHttpCrlf []).map
        parseLine = items.map .ok ∧
      (toLower ((HttpHeaderComm.setAll {} items).getValue (ascii "Transfer-Encoding")) = [] ∨
        toLower ((HttpHeaderComm.setAll {} items).getValue (ascii "Transfer-Encoding")) = ascii "identity") ∧
      HttpHeaderComm.settersOf items (normalizeHeaderKey (ascii "Content-Length")) = [(name, value)]

/-- `decode` takes as many bytes for the body as the value says, where it is a number that may be, and
refuses the request otherwise. -/
structure Strict (b : TcpBuffer) (headerEnd : Nat) (value : Bytes) : Prop where
  valid : ∀ n, Denotes value n → n ≤ kMaxHttpBodySize → ∃ out, decode b {} = some out ∧ out.error = none ∧
    (headerEnd + 4 + n ≤ b.readable.length → out.request.decodeSucc = true ∧
      out.request.requestBody = (b.readable.drop (headerEnd + 4)).take n ∧
      out.buffer.readable = b.readable.drop (headerEnd + 4 + n)) ∧
    (b.readable.length < headerEnd + 4 + n → out.request.decodeSucc = false ∧ out.buffer = b)
  invalid : (∀ n, Denotes value n → ¬ n ≤ kMaxHttpBodySize) → ∃ out, decode b {} = some out ∧
    out.error = some (.invalidContentLength value) ∧ out.request.decodeSucc = false ∧ out.buffer = b

/-- A number that may be, with white space or a sign in front of it or a NUL behind it. -/
def Decorated (value : Bytes) : Prop :=
  ∃ spaces sign digits rest, Numeral value spaces sign digits rest ∧ 0 ≤ signed sign digits ∧
    signed sign digits ≤ kMaxHttpBodySize ∧ (spaces ≠ [] ∨ sign ≠ [] ∨ rest ≠ [])

/-- Of such a request the head says how long the body is. -/
theorem OneLength.parseHead {bytes value : Bytes} {a e : Nat} (h : OneLength bytes a e value) :
    ∃ parsed header, header.getValue (ascii "Content-Length") = value ∧ Http.parseHead {} (bytes.take a)
      ((bytes.drop (a + 2)).take (e - (a + 2))) = (parsed, contentLengthOf header) := by
  obtain ⟨items, name, hlines, htransfer, hone⟩ := h.headers
  cases hline : parseHttpRequestLine {} (bytes.take a) with
  | mk request error =>
    have hnone := h.requestLine
    rw [hline] at hnone
    obtain rfl : error = none := hnone
    obtain ⟨method, target, version, request', -, -, hempty, rfl⟩ := parseHttpRequestLine_some hline
    have hheader : (setTarget request' target).requestHeader = {} :=
      (setTarget_keeps request' target).2.2.trans hempty
    have hne : (bytes.drop (a + 2)).take (e - (a + 2)) ≠ [] := by
      intro hnil
      rw [hnil] at hlines
      rw [show splitStrToVector [] kHttpCrlf [] = [] from if_pos (.inl rfl), List.map_nil] at hlines
      rw [List.map_eq_nil_iff.mp hlines.symm] at hone
      cases hone
    have hparse := parseLines_items hlines (setTarget request' target)
    rw [hheader] at hparse
    refine ⟨{setTarget request' target with requestHeader := .setAll {} items}, .setAll {} items, ?_, ?_⟩
    · rw [HttpHeaderComm.setAll_getValue, hone]
      rfl
    · have hidentity : ¬ (toLower ((HttpHeaderComm.setAll {} items).getValue (ascii "Transfer-Encoding")) ≠ [] ∧
          toLower ((HttpHeaderComm.setAll {} items).getValue (ascii "Transfer-Encoding")) ≠ ascii "identity") :=
        fun hnot => htransfer.elim hnot.1 hnot.2
      rw [Http.parseHead, hline]
      dsimp only
      rw [parseHttpRequestHeader, if_neg hne, hparse]
      dsimp only
      rw [if_neg hidentity]

theorem OneLength.judge {bytes value : Bytes} {a e : Nat} (h : OneLength bytes a e value) {parsed : HttpRequest}
    {length : Except DecodeError Nat} (hhead : Http.parseHead {} (bytes.take a)
      ((bytes.drop (a + 2)).take (e - (a + 2))) = (parsed, length)) :
    Http.judge {} bytes = match length with
      | .error error => (parsed, .reject error)
      | .ok n => if bytes.length < e + 4 + n then (parsed, .wait)
        else (parseHttpRequestContent parsed ((bytes.drop (e + 4)).take n), .accept (e + 4 + n)) := by
  have hboundary : ¬ e < a + kHttpCrlf.length := Nat.not_lt.mpr h.boundary
  have hhead' : Http.parseHead {} (bytes.take a) ((bytes.drop (a + kHttpCrlf.length)).take
      (e - (a + kHttpCrlf.length))) = (parsed, length) := hhead
  simp only [Http.judge, h.line, h.header, if_neg hboundary, hhead']
  cases length <;> rfl

/-- **A length is taken**, where the head gives one. -/
theorem OneLength.decode_ok {b : TcpBuffer} (hwf : WellFormed b) {value : Bytes} {a e n : Nat} {parsed : HttpRequest}
    (h : OneLength b.readable a e value) (hhead : Http.parseHead {} (b.readable.take a)
      ((b.readable.drop (a + 2)).take (e - (a + 2))) = (parsed, .ok n)) :
    ∃ out, decode b {} = some out ∧ out.error = none ∧
      (e + 4 + n ≤ b.readable.length → out.request.decodeSucc = true ∧
        out.request.requestBody = (b.readable.drop (e + 4)).take n ∧
        out.buffer.readable = b.readable.drop (e + 4 + n)) ∧
      (b.readable.length < e + 4 + n → out.request.decodeSucc = false ∧ out.buffer = b) := by
  have hjudge := h.judge hhead
  by_cases hroom : b.readable.length < e + 4 + n
  · simp only [if_pos hroom] at hjudge
    have hdata := congrArg Rpc.AbstractData.decodeSucc (judge_data {} b.readable)
    rw [hjudge] at hdata
    refine ⟨⟨b, parsed, none⟩, ?_, rfl, fun hfits => absurd hroom (Nat.not_lt.mpr hfits), fun _ => ⟨hdata, rfl⟩⟩
    simp only [decode, getBufferString_spec hwf, Option.bind_eq_bind, Option.bind_some]
    rw [show ({({} : HttpRequest) with decodeSucc := false} : HttpRequest) = {} from rfl, hjudge]
    rfl
  · simp only [if_neg hroom] at hjudge
    obtain ⟨b', hout, -, hreadable, -⟩ := @decode_taken b hwf {} _ (e + 4 + n) hjudge
    exact ⟨_, hout, rfl, fun _ => ⟨rfl, rfl, hreadable⟩, fun hshort => absurd hshort hroom⟩

/-- A request is refused where it does not. -/
theorem OneLength.decode_error {b : TcpBuffer} (hwf : WellFormed b) {value : Bytes} {a e : Nat} {parsed : HttpRequest}
    {error : DecodeError} (h : OneLength b.readable a e value) (hhead : Http.parseHead {} (b.readable.take a)
      ((b.readable.drop (a + 2)).take (e - (a + 2))) = (parsed, .error error)) :
    ∃ out, decode b {} = some out ∧ out.error = some error ∧ out.request.decodeSucc = false ∧ out.buffer = b := by
  have hjudge := h.judge hhead
  dsimp only at hjudge
  have hdata := congrArg Rpc.AbstractData.decodeSucc (judge_data {} b.readable)
  rw [hjudge] at hdata
  refine ⟨⟨b, parsed, some error⟩, ?_, rfl, hdata, rfl⟩
  simp only [decode, getBufferString_spec hwf, Option.bind_eq_bind, Option.bind_some]
  rw [show ({({} : HttpRequest) with decodeSucc := false} : HttpRequest) = {} from rfl, hjudge]
  rfl

/-! ### What is taken for a length -/

theorem contentLengthOf_value {header : HttpHeaderComm} {value : Bytes} (hne : value ≠ [])
    (h : header.getValue (ascii "Content-Length") = value) : contentLengthOf header = match strtoll value with
      | none => .error (.invalidContentLength value)
      | some (n, rest) =>
        if rest ≠ [] ∨ n < 0 ∨ n > kMaxHttpBodySize then .error (.invalidContentLength value) else .ok n.toNat := by
  subst h
  unfold contentLengthOf
  exact if_neg hne

/-- The range of `strtoll` is larger than that of a length. -/
theorem clamp_eq {n : Int} (h : 0 ≤ n ∧ n ≤ kMaxHttpBodySize) : max (-2 ^ 63) (min n (2 ^ 63 - 1)) = n := by
  have hmax : n ≤ 16 * 1024 * 1024 := h.2
  omega

/-- A number that may be is taken for itself, whatever stands around it. -/
theorem Numeral.contentLengthOf {header : HttpHeaderComm} {value spaces sign digits rest : Bytes}
    (hnumeral : Numeral value spaces sign digits rest)
    (hrange : 0 ≤ signed sign digits ∧ signed sign digits ≤ kMaxHttpBodySize)
    (h : header.getValue (ascii "Content-Length") = value) :
    Http.contentLengthOf header = .ok (signed sign digits).toNat := by
  have hne : value ≠ [] := by
    rw [hnumeral.parts]
    simp [hnumeral.nonempty]
  have hok : ¬ (([] : Bytes) ≠ [] ∨ signed sign digits < 0 ∨ signed sign digits > kMaxHttpBodySize) := by
    simp only [ne_eq, not_true, false_or, not_or]
    exact ⟨Int.not_lt.mpr hrange.1, Int.not_lt.mpr hrange.2⟩
  rw [contentLengthOf_value hne h, hnumeral.strtoll, clamp_eq hrange]
  exact if_neg hok

theorem Denotes.numeral {value : Bytes} {n : Nat} (h : Denotes value n) : Numeral value [] [] value [] :=
  ⟨(List.append_nil _).symm, nofun, .inl rfl, h.nonempty, h.digit, nofun⟩

theorem signed_nil (digits : Bytes) : signed [] digits = digitsValue digits := if_neg (by decide)

/-- **Nothing else is**, if it is not a number in disguise. -/
theorem contentLengthOf_invalid {header : HttpHeaderComm} {value : Bytes} (hne : value ≠ [])
    (hplain : ∀ n, Denotes value n → ¬ n ≤ kMaxHttpBodySize) (hdecorated : ¬ Decorated value)
    (h : header.getValue (ascii "Content-Length") = value) :
    contentLengthOf header = .error (.invalidContentLength value) := by
  rw [contentLengthOf_value hne h]
  cases hread : strtoll value with
  | none => rfl
  | some read =>
    obtain ⟨n, rest⟩ := read
    refine if_pos (Classical.byContradiction fun hok => ?_)
    obtain ⟨hrest, hok⟩ := not_or.mp hok
    obtain ⟨hnonneg, hmax⟩ := not_or.mp hok
    rw [not_not] at hrest
    subst hrest
    obtain ⟨spaces, sign, digits, rest, hnumeral, rfl⟩ := numeral_of_strtoll hread
    have hmax' : max (-2 ^ 63) (min (signed sign digits) (2 ^ 63 - 1)) ≤ 16 * 1024 * 1024 := Int.not_lt.mp hmax
    have hsmall : signed sign digits ≤ 16 * 1024 * 1024 := by omega
    have hrange : 0 ≤ signed sign digits := by omega
    by_cases hbare : spaces = [] ∧ sign = [] ∧ rest = []
    · obtain ⟨rfl, rfl, rfl⟩ := hbare
      have hvalue : value = digits := hnumeral.parts.trans (List.append_nil _)
      rw [signed_nil] at hsmall
      exact hplain (digitsValue digits) ⟨hne, hvalue ▸ hnumeral.digit, hvalue ▸ rfl⟩ hsmall
    · exact hdecorated ⟨spaces, sign, digits, rest, hnumeral, hrange, hsmall, by
        rw [← not_and_or, ← not_and_or]
        exact fun heq => hbare ⟨heq.1, heq.2⟩⟩

/-- A decoration is no digit. -/
theorem Decorated.not_denotes {value : Bytes} (h : Decorated value) (n : Nat) : ¬ Denotes value n := by
  obtain ⟨spaces, sign, digits, rest, hnumeral, -, -, hdecoration⟩ := h
  intro hdenotes
  have hdigit := hdenotes.digit
  rw [hnumeral.parts] at hdigit
  rcases hdecoration with hne | hne | hne
  · obtain ⟨c, cs, rfl⟩ := List.exists_cons_of_ne_nil hne
    have hspace := hnumeral.space c (List.mem_cons_self ..)
    rw [not_isspace_of_isdigit (hdigit c (by simp))] at hspace
    cases hspace
  · rcases hnumeral.sign with hs | rfl | rfl
    · exact hne hs
    · exact absurd (hdigit (byte '+') (by simp [ascii])) (by decide)
    · exact absurd (hdigit (byte '-') (by simp [ascii])) (by decide)
  · obtain ⟨c, cs, rfl⟩ := List.exists_cons_of_ne_nil hne
    have hzero := hnumeral.rest c rfl
    exact (digit_begins (hdigit c (by simp))).1 hzero

/-- **`Content-Length` is parsed strictly** exactly where it is neither empty nor decorated. -/
theorem strict_iff_undecorated (b : TcpBuffer) (hwf : WellFormed b) (requestLineEnd headerEnd : Nat) (value : Bytes)
    (h : OneLength b.readable requestLineEnd headerEnd value) :
    Strict b headerEnd value ↔ value ≠ [] ∧ ¬ Decorated value := by
  obtain ⟨parsed, header, hvalue, hhead⟩ := h.parseHead
  constructor
  · intro hstrict
    -- a length that is taken is no error
    have hnot : (∀ n, ¬ Denotes value n) → ∀ n, contentLengthOf header ≠ .ok n := by
      intro hnone n hok
      obtain ⟨out, hout, herror, -⟩ := hstrict.invalid fun n hn => absurd hn (hnone n)
      obtain ⟨out', hout', hfine, -⟩ := h.decode_ok hwf (hok ▸ hhead)
      obtain rfl := Option.some.inj (hout.symm.trans hout')
      cases herror.symm.trans hfine
    refine ⟨?_, fun hdecorated => ?_⟩
    · rintro rfl
      exact hnot (fun n hn => hn.nonempty rfl) 0 (by simp only [contentLengthOf, hvalue, if_true])
    · have hnone := hdecorated.not_denotes
      obtain ⟨spaces, sign, digits, rest, hnumeral, hlow, hhigh, -⟩ := hdecorated
      exact hnot hnone _ (hnumeral.contentLengthOf ⟨hlow, hhigh⟩ hvalue)
  · rintro ⟨hne, hdecorated⟩
    refine ⟨fun n hn hmax => ?_, fun hplain => ?_⟩
    · have hsigned : signed [] value = n := by rw [signed_nil, hn.value]
      have hok := hn.numeral.contentLengthOf (by rw [hsigned]; exact ⟨Int.natCast_nonneg n, hmax⟩) hvalue
      rw [hsigned, Int.toNat_natCast] at hok
      exact h.decode_ok hwf (hok ▸ hhead)
    · have herror := contentLengthOf_invalid hne hplain hdecorated hvalue
      exact h.decode_error hwf (herror ▸ hhead)

/-- A request with a body of three bytes. -/
def threeBytes : TcpBuffer := ⟨0, 40, ascii "POST / HTTP/1.1\r\nContent-Length: 3\r\n\r\nabc"⟩

theorem oneLength_threeBytes : OneLength threeBytes.readable 15 34 (ascii "3") where
  line := by decide
  header := by decide
  boundary := by decide
  requestLine := by decide +kernel
  headers := ⟨[(ascii "Content-Length", ascii "3")], ascii "Content-Length", by decide +kernel,
    .inl (by decide +kernel), by decide +kernel⟩

theorem strict_iff_undecorated_threeBytes :
    Strict threeBytes 34 (ascii "3") ↔ ascii "3" ≠ [] ∧ ¬ Decorated (ascii "3") :=
  strict_iff_undecorated threeBytes ⟨by decide, by decide, by decide, by decide⟩ 15 34 (ascii "3")
    oneLength_threeBytes

/-- The same with a sign. -/
def plusThree : TcpBuffer := ⟨0, 41, ascii "POST / HTTP/1.1\r\nContent-Length: +3\r\n\r\nabc"⟩

theorem oneLength_plusThree : OneLength plusThree.readable 15 35 (ascii "+3") where
  line := by decide
  header := by decide
  boundary := by decide
  requestLine := by decide +kernel
  headers := ⟨[(ascii "Content-Length", ascii "+3")], ascii "Content-Length", by decide +kernel,
    .inl (by decide +kernel), by decide +kernel⟩

/-- The sign is read over, and three bytes are taken. -/
theorem not_strict_plusThree : ¬ ∀ (b : TcpBuffer) (requestLineEnd headerEnd : Nat) (value : Bytes), WellFormed b →
    OneLength b.readable requestLineEnd headerEnd value → Strict b headerEnd value := by
  intro h
  have hwf : WellFormed plusThree := ⟨by decide, by decide, by decide, by decide⟩
  have hstrict := h plusThree 15 35 (ascii "+3") hwf oneLength_plusThree
  obtain ⟨out, hout, herror, -⟩ := hstrict.invalid fun n hn => by
    have hdigit := hn.digit (byte '+') (by decide)
    rw [show isdigit (byte '+') = false by decide] at hdigit
    cases hdigit
  have hnumeral : Numeral (ascii "+3") [] (ascii "+") (ascii "3") [] :=
    ⟨by decide, nofun, .inr (.inl rfl), by decide, by decide, nofun⟩
  obtain ⟨parsed, header, hvalue, hhead⟩ := oneLength_plusThree.parseHead
  have hok := hnumeral.contentLengthOf (by decide) hvalue
  obtain ⟨out', hout', hfine, -⟩ := oneLength_plusThree.decode_ok hwf (hok ▸ hhead)
  obtain rfl := Option.some.inj (hout.symm.trans hout')
  cases herror.symm.trans hfine

end CoroutineRpc.Net.Http
