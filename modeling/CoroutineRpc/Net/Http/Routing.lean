import CoroutineRpc.Net.Http.Head
import CoroutineRpc.Net.Http.HttpServlet
import Mathlib.Data.List.Infix

/-! Where a request goes.

The target of a request has a path, a query and a fragment, in this order. `setTarget` first takes off
what stands in front of a scheme's marker and behind it up to a '/', wherever the marker stands, so the
path and the query are those of the target exactly while there is no marker or the fragment repeats them
behind it (`routes_iff_undisturbed`): a target without a fragment must have no marker at all
(`undisturbed_iff`). -/
namespace CoroutineRpc.Net.Http
open Net.Tcp Net.Tcp.TcpBuffer Library.Search

/-! ### The parts of a target -/

/-- Everything in front of the first '?' or '#'. -/
def pathOf (target : Bytes) : Bytes := target.takeWhile fun c => c ≠ byte '?' ∧ c ≠ byte '#'

/-- There is a '?' in front of any '#'. -/
def HasQuery (target : Bytes) : Prop := byte '?' ∈ target.takeWhile (· ≠ byte '#')

/-- What is between the first '?' and the '#', or the end. -/
def queryOf (target : Bytes) : Bytes := ((target.takeWhile (· ≠ byte '#')).dropWhile (· ≠ byte '?')).tail

/-- The target of a request in the first bytes: the second word of its first line. -/
def targetOf (bytes : Bytes) : Option Bytes := do
  let requestLineEnd ← find kHttpCrlf bytes
  let (_, target, _) ← requestWords (bytes.take requestLineEnd)
  pure target

/-- A request that is handled as its target says. -/
structure Routes (request : HttpRequest) (target : Bytes) : Prop where
  path : request.requestPath = pathOf target
  query : HasQuery target → request.requestQuery = queryOf target
  servlet : ∀ dispatcher : HttpDispatcher,
    dispatcher.servletOf request = dispatcher.servlets[pathOf target]?.getD notFoundHttpServlet

/-- What begins with the first '/', or a '/' alone. -/
def fromSlash (l : Bytes) : Bytes :=
  match l.dropWhile (· ≠ byte '/') with
  | [] => ascii "/"
  | c :: rest => c :: rest

/-- `again` is `text` over again. A '?' behind it brings a query where `text` has none, and one at its end
may be missing. -/
def Repeats (text again : Bytes) : Prop :=
  again = text ∨ byte '?' ∉ text ∧ text ++ [byte '?'] <+: again ∨ byte '?' ∉ again ∧ text = again ++ [byte '?']

/-- Behind the first marker, if there is one, what begins with the next '/' repeats what the target has in
front of its fragment. -/
def Undisturbed (target : Bytes) : Prop :=
  ∀ i, ascii "://" <+: target.drop i → (∀ j < i, ¬ ascii "://" <+: target.drop j) →
    Repeats (target.takeWhile (· ≠ byte '#')) ((fromSlash (target.drop (i + 3))).takeWhile (· ≠ byte '#'))

theorem all_ne_of_not_mem {c : Byte} {l : Bytes} (h : c ∉ l) : ∀ x ∈ l, decide (x ≠ c) = true := by
  intro x hx
  refine decide_eq_true ?_
  rintro rfl
  exact h hx

/-- Without a fragment, all of a target is in front of it. -/
theorem takeWhile_fragment {target : Bytes} (h : byte '#' ∉ target) : target.takeWhile (· ≠ byte '#') = target :=
  List.takeWhile_eq_self_iff.mpr (all_ne_of_not_mem h)

theorem pathOf_eq (target : Bytes) :
    pathOf target = (target.takeWhile (· ≠ byte '#')).takeWhile (· ≠ byte '?') := by
  rw [pathOf, List.takeWhile_takeWhile]
  congr 1
  funext c
  simp

/-- A text is cut at its first '?'. -/
theorem cut_text {text : Bytes} (h : byte '?' ∉ text) (rest : Bytes) :
    (text ++ byte '?' :: rest).takeWhile (· ≠ byte '?') = text ∧
      ((text ++ byte '?' :: rest).dropWhile (· ≠ byte '?')).tail = rest := by
  rw [List.takeWhile_append_of_pos (all_ne_of_not_mem h), List.dropWhile_append_of_pos (all_ne_of_not_mem h),
    List.takeWhile_cons_of_neg (by decide), List.append_nil, List.dropWhile_cons_of_neg (by decide)]
  exact ⟨rfl, rfl⟩

/-- With a query, the two parts and the '?' are all there is in front of the fragment. -/
theorem path_query {target : Bytes} (h : HasQuery target) :
    pathOf target ++ byte '?' :: queryOf target = target.takeWhile (· ≠ byte '#') := by
  have hsplit := List.takeWhile_append_dropWhile (p := fun c => decide (c ≠ byte '?'))
    (l := target.takeWhile (· ≠ byte '#'))
  rw [pathOf_eq, queryOf]
  cases hrest : (target.takeWhile (· ≠ byte '#')).dropWhile (· ≠ byte '?') with
  | nil =>
    have := List.dropWhile_eq_nil_iff.mp hrest _ h
    simp at this
  | cons c rest =>
    have hc : c = byte '?' := by
      have := List.head?_dropWhile_not (fun c => decide (c ≠ byte '?')) (target.takeWhile (· ≠ byte '#'))
      rw [hrest] at this
      simpa using this
    rw [hrest, hc] at hsplit
    exact hsplit

/-- Without one, the path is. -/
theorem path_alone {target : Bytes} (h : ¬ HasQuery target) :
    pathOf target = target.takeWhile (· ≠ byte '#') ∧ queryOf target = [] := by
  have hall := all_ne_of_not_mem h
  exact ⟨by rw [pathOf_eq, List.takeWhile_eq_self_iff.mpr hall],
    by rw [queryOf, List.dropWhile_eq_nil_iff.mpr hall, List.tail_nil]⟩

/-! ### What the parser takes them to be -/

theorem stripFragment_eq (target : Bytes) : stripFragment target = target.takeWhile (· ≠ byte '#') := by
  unfold stripFragment
  rw [show ascii "#" = [byte '#'] from rfl]
  by_cases h : byte '#' ∈ target
  · rw [find_element h]
    exact (List.prefix_iff_eq_take.mp (List.takeWhile_prefix _)).symm
  · rw [find_none_of_not_mem h, takeWhile_fragment h]

/-- **The parser's path and query** are those of what is left when the scheme is off. -/
theorem setTarget_spec (request : HttpRequest) (target : Bytes) :
    (setTarget request target).requestPath = rooted (pathOf (stripScheme target)) ∧
      (HasQuery (stripScheme target) → (setTarget request target).requestQuery = queryOf (stripScheme target)) ∧
      (¬ HasQuery (stripScheme target) → (setTarget request target).requestQuery = request.requestQuery) := by
  unfold setTarget
  dsimp only
  rw [stripFragment_eq, show ascii "?" = [byte '?'] from rfl]
  by_cases h : HasQuery (stripScheme target)
  · have hparts := path_query h
    have hat : ((stripScheme target).takeWhile (· ≠ byte '#')).takeWhile (· ≠ byte '?') =
        pathOf (stripScheme target) := (pathOf_eq _).symm
    rw [find_element h, hat]
    dsimp only
    rw [← hparts]
    refine ⟨by rw [List.take_left], fun _ => ?_, fun hnot => absurd h hnot⟩
    rw [List.drop_append, List.drop_of_length_le (Nat.le_succ _), List.nil_append, Nat.add_sub_cancel_left]
    rfl
  · rw [find_none_of_not_mem h]
    exact ⟨by rw [(path_alone h).1], fun hq => absurd hq h, fun _ => rfl⟩

/-- A target that begins at the root still does when the scheme is off. -/
theorem stripScheme_head {target : Bytes} (h : target.head? = some (byte '/')) :
    (stripScheme target).head? = some (byte '/') := by
  unfold stripScheme
  split
  · exact h
  split
  · rfl
  · rename_i n hn
    obtain ⟨-, hstands, -⟩ := find_eq_some.mp hn
    obtain ⟨rest, hrest⟩ := hstands
    rw [← List.drop_drop, ← hrest]
    rfl

theorem pathOf_head {target : Bytes} (h : target.head? = some (byte '/')) :
    (pathOf target).head? = some (byte '/') := by
  obtain ⟨rest, rfl⟩ : ∃ rest, target = byte '/' :: rest := by
    cases target with
    | nil => cases h
    | cons c rest => exact ⟨rest, by rw [Option.some.inj h]⟩
  rw [pathOf, List.takeWhile_cons_of_pos (by decide)]
  rfl

theorem rooted_eq {path : Bytes} (h : path.head? = some (byte '/')) : rooted path = path := by
  have hne : path ≠ [] := fun hnil => by rw [hnil] at h; cases h
  simp only [rooted, if_neg hne, h, ne_eq, not_true, if_false]

theorem normalizePath_eq {path : Bytes} (h : path.head? = some (byte '/')) : normalizePath path = path := by
  have hne : path ≠ [] := fun hnil => by rw [hnil] at h; cases h
  rw [normalizePath, if_neg hne, if_pos h]

/-! ### From the first line to the dispatcher -/

/-- The headers leave the path and the query alone. -/
theorem parseLines_target (lines : List Bytes) (request : HttpRequest) :
    (parseLines request lines).1.requestPath = request.requestPath ∧
      (parseLines request lines).1.requestQuery = request.requestQuery := by
  induction lines generalizing request with
  | nil => exact ⟨rfl, rfl⟩
  | cons line lines ih =>
    unfold parseLines
    split
    · exact ⟨rfl, rfl⟩
    · exact ih _

theorem parseHttpRequestHeader_target (request : HttpRequest) (headers : Bytes) :
    (parseHttpRequestHeader request headers).1.requestPath = request.requestPath ∧
      (parseHttpRequestHeader request headers).1.requestQuery = request.requestQuery := by
  unfold parseHttpRequestHeader
  split
  · exact ⟨rfl, rfl⟩
  · exact parseLines_target _ request

theorem parseHead_target {request parsed : HttpRequest} {line headers : Bytes} {n : Nat}
    (h : parseHead request line headers = (parsed, .ok n)) :
    ∃ method target version request', requestWords line = some (method, target, version) ∧
      request'.requestQuery = request.requestQuery ∧
      parsed.requestPath = (setTarget request' target).requestPath ∧
      parsed.requestQuery = (setTarget request' target).requestQuery := by
  unfold parseHead at h
  split at h
  · cases h
  rename_i first hline
  obtain ⟨method, target, version, request', hwords, hquery, -, rfl⟩ := parseHttpRequestLine_some hline
  refine ⟨method, target, version, request', hwords, hquery, ?_⟩
  obtain ⟨hpath, hquery'⟩ := parseHttpRequestHeader_target (setTarget request' target) headers
  split at h
  · cases h
  rename_i parsed' hheaders
  rw [hheaders] at hpath hquery'
  dsimp only at h hpath hquery'
  split at h
  · cases h
  · rw [← (Prod.mk.inj h).1]
    exact ⟨hpath, hquery'⟩

/-- **What a request is accepted with**: the path and the query that are left of its target. -/
theorem decode_target {b : TcpBuffer} (hwf : WellFormed b) {out : Decoded} (hout : decode b {} = some out)
    (hsucc : out.request.decodeSucc = true) {target : Bytes} (htarget : targetOf b.readable = some target) :
    ∃ request : HttpRequest, request.requestQuery = [] ∧
      out.request.requestPath = (setTarget request target).requestPath ∧
      out.request.requestQuery = (setTarget request target).requestQuery := by
  obtain ⟨parsed, total, hjudge, hrequest⟩ := decode_accepted hwf hout hsucc
  obtain ⟨a, e, n, head, haccepts, -, rfl⟩ := judge_accept hjudge
  obtain ⟨method, target', version, request', hwords, hquery, hpath, hquery'⟩ := parseHead_target haccepts.head
  simp only [targetOf, haccepts.line, hwords, Option.bind_eq_bind, Option.bind_some, Option.pure_def] at htarget
  obtain rfl := Option.some.inj htarget
  rw [hrequest]
  exact ⟨request', hquery, hpath, hquery'⟩

/-! ### What is left when the scheme is off -/

/-- What is left of a target without the marker. -/
theorem stripScheme_none {target : Bytes} (h : ¬ ascii "://" <:+: target) : stripScheme target = target := by
  rw [stripScheme, find_eq_none.mpr h]

theorem drop_takeWhile (p : Byte → Bool) (l : Bytes) : l.drop (l.takeWhile p).length = l.dropWhile p := by
  have hsplit := congrArg (List.drop (l.takeWhile p).length) (List.takeWhile_append_dropWhile (p := p) (l := l))
  rw [List.drop_left] at hsplit
  exact hsplit.symm

theorem stripScheme_some {target : Bytes} {i : Nat} (h : find (ascii "://") target = some i) :
    stripScheme target = fromSlash (target.drop (i + 3)) := by
  rw [stripScheme, h, show ascii "/" = [byte '/'] from rfl]
  dsimp only
  unfold fromSlash
  by_cases hmem : byte '/' ∈ target.drop (i + 3)
  · rw [find_element hmem]
    dsimp only
    rw [← List.drop_drop, drop_takeWhile]
    split
    · rename_i hnil
      exact absurd (List.dropWhile_eq_nil_iff.mp hnil _ hmem) (by simp)
    · rename_i hcons
      exact hcons
  · rw [find_none_of_not_mem hmem, List.dropWhile_eq_nil_iff.mpr (all_ne_of_not_mem hmem)]
    rfl

/-- A text in front of the fragment has the same parts as the one that it repeats. -/
theorem repeats_iff {target left : Bytes} :
    Repeats (target.takeWhile (· ≠ byte '#')) (left.takeWhile (· ≠ byte '#')) ↔
      pathOf left = pathOf target ∧ (HasQuery target → queryOf left = queryOf target) := by
  by_cases ht : HasQuery target
  · have htparts := path_query ht
    by_cases hl : HasQuery left
    · have hlparts := path_query hl
      refine ⟨fun h => ?_, fun ⟨hpath, hquery⟩ => .inl (by rw [← htparts, ← hlparts, hpath, hquery ht])⟩
      rcases h with heq | ⟨hno, -⟩ | ⟨hno, -⟩
      · exact ⟨by rw [pathOf_eq, heq, ← pathOf_eq], fun _ => by rw [queryOf, heq, ← queryOf]⟩
      · exact absurd ht hno
      · exact absurd hl hno
    · obtain ⟨hpath, hquery⟩ := path_alone hl
      rw [hpath, hquery]
      refine ⟨fun h => ?_, fun ⟨hpath, hnil⟩ => .inr (.inr ⟨hl, by rw [← htparts, ← hpath, ← hnil ht]⟩)⟩
      rcases h with heq | ⟨hno, -⟩ | ⟨hno, heq⟩
      · exact absurd (show byte '?' ∈ left.takeWhile (· ≠ byte '#') from heq ▸ ht) hl
      · exact absurd ht hno
      · obtain ⟨hfront, hrest⟩ := cut_text hl []
        exact ⟨by rw [pathOf_eq, heq, hfront], fun _ => by rw [queryOf, heq, hrest]⟩
  · obtain ⟨hpath, -⟩ := path_alone ht
    rw [hpath]
    by_cases hl : HasQuery left
    · have hlparts := path_query hl
      refine ⟨fun h => ⟨?_, fun h => absurd h ht⟩, fun ⟨hsame, _⟩ => .inr (.inl ⟨ht, queryOf left, ?_⟩)⟩
      · rcases h with heq | ⟨-, rest, heq⟩ | ⟨hno, -⟩
        · exact absurd (show byte '?' ∈ target.takeWhile (· ≠ byte '#') from heq ▸ hl) ht
        · rw [pathOf_eq, ← heq, List.append_assoc]
          exact (cut_text ht rest).1
        · exact absurd hl hno
      · rw [← hlparts, hsame, List.append_assoc]
        rfl
    · rw [(path_alone hl).1]
      refine ⟨fun h => ⟨?_, fun h => absurd h ht⟩, fun ⟨hsame, _⟩ => .inl hsame⟩
      rcases h with heq | ⟨-, hpre⟩ | ⟨-, heq⟩
      · exact heq
      · exact absurd (hpre.subset (List.mem_append_right _ (List.mem_singleton_self _))) hl
      · exact absurd (show byte '?' ∈ _ from heq ▸ List.mem_append_right _ (List.mem_singleton_self _)) ht

theorem undisturbed_strip {target : Bytes} : Undisturbed target ↔
    pathOf (stripScheme target) = pathOf target ∧
      (HasQuery target → queryOf (stripScheme target) = queryOf target) := by
  cases hfind : find (ascii "://") target with
  | none =>
    have hnone := find_eq_none.mp hfind
    rw [stripScheme_none hnone]
    refine iff_of_true (fun i hstands _ => ?_) ⟨rfl, fun _ => rfl⟩
    exact absurd (hstands.isInfix.trans (List.drop_suffix i target).isInfix) hnone
  | some i =>
    obtain ⟨-, hstands, hfirst⟩ := find_eq_some.mp hfind
    rw [stripScheme_some hfind, ← repeats_iff]
    refine ⟨fun h => h i hstands hfirst, fun h k hk hkfirst => ?_⟩
    obtain rfl : k = i := by
      rcases Nat.lt_trichotomy k i with hlt | heq | hlt
      · exact absurd hk (hfirst k hlt)
      · exact heq
      · exact absurd hstands (hkfirst i hlt)
    exact h

/-- **Routing follows the target** of a request that is accepted exactly while no scheme is taken off
it, or off without harm. -/
theorem routes_iff_undisturbed (b : TcpBuffer) (hwf : WellFormed b) (out : Decoded) (hout : decode b {} = some out)
    (hsucc : out.request.decodeSucc = true) (target : Bytes) (htarget : targetOf b.readable = some target)
    (horigin : target.head? = some (byte '/')) : Routes out.request target ↔ Undisturbed target := by
  obtain ⟨request, hnone, hpath, hquery⟩ := decode_target hwf hout hsucc htarget
  obtain ⟨hpath', hquery', hempty⟩ := setTarget_spec request target
  rw [rooted_eq (pathOf_head (stripScheme_head horigin))] at hpath'
  have hleft : out.request.requestQuery = queryOf (stripScheme target) := by
    rw [hquery]
    by_cases h : HasQuery (stripScheme target)
    · exact hquery' h
    · rw [hempty h, hnone, (path_alone h).2]
  rw [undisturbed_strip]
  constructor
  · rintro ⟨hp, hq, -⟩
    exact ⟨(hpath.trans hpath').symm.trans hp, fun h => hleft.symm.trans (hq h)⟩
  · rintro ⟨hp, hq⟩
    have hroute : out.request.requestPath = pathOf target := (hpath.trans hpath').trans hp
    refine ⟨hroute, fun h => hleft.trans (hq h), fun dispatcher => ?_⟩
    rw [HttpDispatcher.servletOf, hroute, normalizePath_eq (pathOf_head horigin)]

/-- What is in front of the fragment is as long as its parts. -/
theorem parts_length (target : Bytes) : (target.takeWhile (· ≠ byte '#')).length =
    (pathOf target).length + (queryOf target).length ∧ ¬ HasQuery target ∧ queryOf target = [] ∨
    (target.takeWhile (· ≠ byte '#')).length = (pathOf target).length + (queryOf target).length + 1 ∧
      HasQuery target := by
  by_cases h : HasQuery target
  · right
    rw [← path_query h, List.length_append, List.length_cons]
    exact ⟨by omega, h⟩
  · left
    obtain ⟨hpath, hquery⟩ := path_alone h
    rw [hpath, hquery]
    exact ⟨rfl, h, rfl⟩

/-- A marker that is taken off takes three bytes with it, or leaves a '/' alone. -/
theorem stripScheme_shorter {target : Bytes} (h : ascii "://" <:+: target) :
    (stripScheme target).length + 3 ≤ target.length ∨ stripScheme target = ascii "/" := by
  obtain ⟨i, hi⟩ := find_infix h
  have hroom := find_le hi
  have hmarker : (ascii "://").length = 3 := rfl
  unfold stripScheme
  rw [hi]
  dsimp only
  split
  · exact .inr rfl
  · left
    rw [List.length_drop]
    omega

theorem not_mem_stripScheme {target : Bytes} (h : byte '#' ∉ target) : byte '#' ∉ stripScheme target := by
  unfold stripScheme
  split
  · exact h
  split
  · decide
  · exact fun hmem => h (List.mem_of_mem_drop hmem)

/-- A marker behind the root leaves room for one byte more. -/
theorem marker_length {target : Bytes} (h : ascii "://" <:+: target) (horigin : target.head? = some (byte '/')) :
    4 ≤ target.length := by
  obtain ⟨i, hi⟩ := find_infix h
  have hroom := find_le hi
  have hmarker : (ascii "://").length = 3 := rfl
  obtain ⟨-, hstands, -⟩ := find_eq_some.mp hi
  cases i with
  | zero =>
    obtain ⟨rest, hrest⟩ := hstands
    rw [List.drop_zero] at hrest
    rw [← hrest] at horigin
    cases horigin
  | succ i => omega

/-- **Without a fragment the marker is never harmless**, be it in the path or in a query's value. -/
theorem undisturbed_iff {target : Bytes} (horigin : target.head? = some (byte '/')) (hfragment : byte '#' ∉ target) :
    Undisturbed target ↔ ¬ ascii "://" <:+: target := by
  rw [undisturbed_strip]
  refine ⟨fun ⟨hpath, hquery⟩ hmarker => ?_, fun hnone => ?_⟩
  swap
  · rw [stripScheme_none hnone]
    exact ⟨rfl, fun _ => rfl⟩
  have hlong := marker_length hmarker horigin
  -- what is left has too few bytes for the same path and the same query
  have hsmall : (stripScheme target).length + 3 ≤ target.length ∨ (stripScheme target).length = 1 :=
    (stripScheme_shorter hmarker).imp_right fun heq => by rw [heq]; rfl
  have htarget := parts_length target
  have hleft := parts_length (stripScheme target)
  rw [takeWhile_fragment hfragment] at htarget
  rw [takeWhile_fragment (not_mem_stripScheme hfragment), hpath] at hleft
  rcases htarget with ⟨hlen, hnot, hnil⟩ | ⟨hlen, hhas⟩
  · rcases hleft with ⟨hlen', -, hnil'⟩ | ⟨hlen', -⟩
    · rw [hnil] at hlen
      rw [hnil'] at hlen'
      simp only [List.length_nil] at hlen hlen'
      omega
    · rw [hnil] at hlen
      simp only [List.length_nil] at hlen
      omega
  · rw [hquery hhas] at hleft
    rcases hleft with ⟨hlen', -, -⟩ | ⟨hlen', -⟩
    · omega
    · omega

/-- A request for `/hello` with a query. -/
def greeting : TcpBuffer := ⟨0, 31, ascii "GET /hello?a HTTP/1.1\r\nA: b\r\n\r\n"⟩

theorem routes_iff_undisturbed_greeting : ∃ out, decode greeting {} = some out ∧
    (Routes out.request (ascii "/hello?a") ↔ Undisturbed (ascii "/hello?a")) := by
  have hdecode : (decode greeting {}).map (fun out => out.request.decodeSucc) = some true := by decide +kernel
  obtain ⟨out, hout, hsucc⟩ := Option.map_eq_some_iff.mp hdecode
  exact ⟨out, hout, routes_iff_undisturbed greeting ⟨by decide, by decide, by decide, by decide⟩ out hout hsucc
    (ascii "/hello?a") (by decide +kernel) (by decide)⟩

/-- A request with an address in its query. -/
def redirect : TcpBuffer := ⟨0, 40, ascii "GET /go?to=http://x/y HTTP/1.1\r\nA: b\r\n\r\n"⟩

/-- It is taken for a request for `/y`. -/
theorem not_routes_redirect : ¬ ∀ (b : TcpBuffer) (out : Decoded) (target : Bytes), WellFormed b →
    decode b {} = some out → out.request.decodeSucc = true → targetOf b.readable = some target →
    target.head? = some (byte '/') → Routes out.request target := by
  intro h
  have hdecode : (decode redirect {}).map (fun out => (out.request.decodeSucc, out.request.requestPath)) =
      some (true, ascii "/y") := by decide +kernel
  obtain ⟨out, hout, hvalue⟩ := Option.map_eq_some_iff.mp hdecode
  obtain ⟨hsucc, hpath⟩ := Prod.mk.inj hvalue
  have hroutes := h redirect out (ascii "/go?to=http://x/y") ⟨by decide, by decide, by decide, by decide⟩ hout hsucc
    (by decide +kernel) (by decide)
  exact absurd (hpath.symm.trans hroutes.path) (by decide)

end CoroutineRpc.Net.Http
