import CoroutineRpc.Rpc.RpcCodec
import CoroutineRpc.Library.Framing
import Mathlib.Data.List.TakeWhile

/-! The wire format, in terms of byte strings alone.

`frame` is the one representation of a packet. `judge` says what a receiver should
make of bytes that start with a start byte: wait, drop some, or take a packet. The
two are inverse where it matters: a complete frame is judged to be its packet
whatever follows (`judge_frame`), a proper prefix of one is waited for
(`judge_prefix`), and whatever is accepted is a frame (`judge_accept`). Nothing here
knows of indices or buffers; `Decode` connects it to `decode`. -/
namespace CoroutineRpc.Rpc
open Library.BigEndian

/-! ### Packets and their frames -/

def RpcFields.fullName (p : RpcFields) : Bytes := p.serviceName ++ [dot] ++ p.methodName

def frameLength (p : RpcFields) : Nat :=
  kMinPacketLen + p.msgNo.length + p.fullName.length + p.errInfo.length + p.pbData.length

/-- The fields between the packet length and the checksum. -/
def body (p : RpcFields) : Bytes :=
  counted p.msgNo ++ (counted p.fullName ++ (bytes32 p.errCode ++ (counted p.errInfo ++ p.pbData)))

def frame (p : RpcFields) : Bytes :=
  kPacketStart :: (bytes32 (.ofNat 32 (frameLength p)) ++
    (body p ++ (bytes32 kChecksumPlaceholder ++ [kPacketEnd])))

/-- The packets both ends agree on: a name that splits where it was joined, a request
number, and a frame of at most 16 MiB. -/
structure Sendable (p : RpcFields) : Prop where
  service : p.serviceName ≠ []
  method : p.methodName ≠ []
  noDot : dot ∉ p.methodName
  msgNo : p.msgNo ≠ []
  size : frameLength p ≤ kMaxPacketLen

theorem body_length (p : RpcFields) : (body p).length + 10 = frameLength p := by
  simp only [body, frameLength, List.length_append, counted_length, bytes32_length, kMinPacketLen]
  omega

theorem frame_length (p : RpcFields) : (frame p).length = frameLength p := by
  rw [← body_length]
  simp only [frame, List.length_cons, List.length_append, bytes32_length, List.length_nil]
  omega

theorem frameLength_min (p : RpcFields) : kMinPacketLen ≤ frameLength p := by
  simp only [frameLength]
  omega

theorem fullName_ne_nil (p : RpcFields) : p.fullName ≠ [] := by simp [RpcFields.fullName]

/-! ### What is written -/

/-- The packet with its number. -/
def numbered (genMsgNumber : Bytes) (data : RpcStruct) : RpcFields :=
  {data.toRpcFields with msgNo := if data.msgNo = [] then genMsgNumber else data.msgNo}

theorem numbered_eq {data : RpcStruct} (h : data.msgNo ≠ []) (genMsgNumber : Bytes) :
    numbered genMsgNumber data = data.toRpcFields := by
  rw [numbered, if_neg h]

/-- A packet with names is refused if it is too long, and written otherwise. -/
theorem encodePbData_named {data : RpcStruct} (hnames : ¬ (data.serviceName = [] ∨ data.methodName = []))
    (genMsgNumber : Bytes) : encodePbData genMsgNumber data =
      if frameLength (numbered genMsgNumber data) > kMaxPacketLen then
        (⟨{data.toAbstractData with encodeSucc := false}, numbered genMsgNumber data⟩,
          .error (.tooLarge (frameLength (numbered genMsgNumber data))))
      else (⟨{data.toAbstractData with encodeSucc := true}, numbered genMsgNumber data⟩,
        .ok (frame (numbered genMsgNumber data))) := by
  have hlen : ∀ p : RpcFields, kMinPacketLen + p.msgNo.length + (p.serviceName ++ [dot] ++ p.methodName).length +
      p.errInfo.length + p.pbData.length = frameLength p := fun _ => rfl
  have hframe : ∀ p : RpcFields, [kPacketStart] ++ writeInt32 (.ofNat 32 (frameLength p)) ++
      writeInt32 (.ofNat 32 p.msgNo.length) ++ p.msgNo ++
      writeInt32 (.ofNat 32 (p.serviceName ++ [dot] ++ p.methodName).length) ++
      (p.serviceName ++ [dot] ++ p.methodName) ++ writeInt32 p.errCode ++
      writeInt32 (.ofNat 32 p.errInfo.length) ++ p.errInfo ++ p.pbData ++
      writeInt32 kChecksumPlaceholder ++ [kPacketEnd] = frame p := fun p => by
    simp only [frame, body, counted, RpcFields.fullName, writeInt32, List.append_assoc, List.cons_append,
      List.nil_append]
  have hsame : (if data.msgNo = [] then {({data with encodeSucc := false} : RpcStruct) with msgNo := genMsgNumber}
      else {data with encodeSucc := false}) =
      (⟨{data.toAbstractData with encodeSucc := false}, numbered genMsgNumber data⟩ : RpcStruct) := by
    unfold numbered
    split <;> rfl
  simp only [encodePbData, if_neg hnames, hsame, hlen, hframe, frame_length, ne_eq, not_true_eq_false, if_false]

/-- Encoding a sendable packet succeeds with its frame; the number generator is not asked. -/
theorem encodePbData_spec {p : RpcFields} (h : Sendable p) (genMsgNumber : Bytes) (a : AbstractData) :
    encodePbData genMsgNumber ⟨a, p⟩ = (⟨{a with encodeSucc := true}, p⟩, .ok (frame p)) := by
  have hnumbered : numbered genMsgNumber ⟨a, p⟩ = p := numbered_eq h.msgNo genMsgNumber
  rw [encodePbData_named (not_or.mpr ⟨h.service, h.method⟩), hnumbered, if_neg (Nat.not_lt.mpr h.size)]

/-- A packet that is too long is refused. -/
theorem encodePbData_tooLarge {p : RpcFields} (hservice : p.serviceName ≠ []) (hmethod : p.methodName ≠ [])
    (hmsgNo : p.msgNo ≠ []) (hsize : kMaxPacketLen < frameLength p) (genMsgNumber : Bytes)
    (a : AbstractData) :
    encodePbData genMsgNumber ⟨a, p⟩ =
      (⟨{a with encodeSucc := false}, p⟩, .error (.tooLarge (frameLength p))) := by
  have hnumbered : numbered genMsgNumber ⟨a, p⟩ = p := numbered_eq hmsgNo genMsgNumber
  rw [encodePbData_named (not_or.mpr ⟨hservice, hmethod⟩), hnumbered, if_pos hsize]

/-! ### The last dot of a name -/

theorem rfind_eq_none {c : Byte} {s : Bytes} : rfind c s = none ↔ c ∉ s := by
  induction s with
  | nil => simp [rfind]
  | cons x rest ih =>
    cases hr : rfind c rest with
    | some i =>
      have : c ∈ rest := Classical.byContradiction fun h => by rw [ih.mpr h] at hr; cases hr
      simp [rfind, hr, this]
    | none =>
      by_cases hx : x = c
      · simp [rfind, hr, hx]
      · simp [rfind, hr, hx, ih.mp hr, Ne.symm hx]

/-- The position found cuts the string at a separator that does not occur again. -/
theorem rfind_eq_some {c : Byte} {s : Bytes} {i : Nat} :
    rfind c s = some i ↔ ∃ a b, s = a ++ c :: b ∧ c ∉ b ∧ i = a.length := by
  induction s generalizing i with
  | nil => simp [rfind]
  | cons x rest ih =>
    cases hr : rfind c rest with
    | some j =>
      obtain ⟨a, b, hab, hb, hj⟩ := ih.mp hr
      simp only [rfind, hr, Option.some.injEq]
      constructor
      · rintro rfl
        exact ⟨x :: a, b, by rw [hab]; rfl, hb, by rw [hj]; rfl⟩
      · rintro ⟨a', b', hab', hb', rfl⟩
        cases a' with
        | nil =>
          -- the separator would occur in what follows it
          obtain ⟨_, rfl⟩ := List.cons.inj hab'
          exact absurd (by rw [hab]; simp) hb'
        | cons y a' =>
          have := ih.mpr ⟨a', b', (List.cons.inj hab').2, hb', rfl⟩
          rw [hr] at this
          exact congrArg (· + 1) (Option.some.inj this)
    | none =>
      have hno := rfind_eq_none.mp hr
      by_cases hx : x = c
      · simp only [rfind, hr, if_pos hx, Option.some.injEq]
        constructor
        · rintro rfl
          exact ⟨[], rest, by rw [hx]; rfl, hno, rfl⟩
        · rintro ⟨a, b, hab, _, rfl⟩
          cases a with
          | nil => rfl
          | cons y a => exact absurd (by rw [(List.cons.inj hab).2]; simp) hno
      · simp only [rfind, hr, if_neg hx, reduceCtorEq, false_iff]
        rintro ⟨a, b, hab, _, rfl⟩
        cases a with
        | nil => exact hx (List.cons.inj hab).1
        | cons y a => exact absurd (by rw [(List.cons.inj hab).2]; simp) hno

/-- A name is cut at its last dot, both parts non-empty. -/
def splitName (s : Bytes) : Option (Bytes × Bytes) :=
  match rfind dot s with
  | none => none
  | some separator =>
    if separator = 0 ∨ separator + 1 ≥ s.length then none
    else some (s.take separator, s.drop (separator + 1))

theorem splitName_eq_some {s service method : Bytes} :
    splitName s = some (service, method) ↔
      s = service ++ [dot] ++ method ∧ service ≠ [] ∧ method ≠ [] ∧ dot ∉ method := by
  unfold splitName
  cases hr : rfind dot s with
  | none =>
    have hno := rfind_eq_none.mp hr
    simp only [reduceCtorEq, false_iff]
    rintro ⟨rfl, _⟩
    simp at hno
  | some i =>
    obtain ⟨a, b, rfl, hb, rfl⟩ := rfind_eq_some.mp hr
    have htake : (a ++ dot :: b).take a.length = a := List.take_left
    have hdrop : (a ++ dot :: b).drop (a.length + 1) = b := by
      rw [← List.drop_drop, List.drop_left]
      rfl
    have hempty : (a.length = 0 ∨ a.length + 1 ≥ (a ++ dot :: b).length) ↔ a = [] ∨ b = [] := by
      rw [← List.length_eq_zero_iff (l := a), ← List.length_eq_zero_iff (l := b), List.length_append,
        List.length_cons]
      omega
    simp only [htake, hdrop, hempty]
    constructor
    · split
      · simp
      · rename_i hne
        rintro h
        obtain ⟨rfl, rfl⟩ := Prod.mk.inj (Option.some.inj h)
        exact ⟨by simp, fun h => hne (.inl h), fun h => hne (.inr h), hb⟩
    · rintro ⟨heq, hservice, hmethod, hdot⟩
      have : rfind dot (a ++ dot :: b) = some service.length :=
        rfind_eq_some.mpr ⟨service, method, by rw [heq]; simp, hdot, rfl⟩
      rw [hr] at this
      rw [List.append_assoc] at heq
      obtain ⟨rfl, htail⟩ := List.append_inj heq (Option.some.inj this)
      obtain rfl : b = method := (List.cons.inj htail).2
      rw [if_neg (by rintro (h | h); exacts [hservice h, hmethod h])]

/-! ### Reading a frame -/

/-- The fields before the payload, and the payload. -/
def parseFields (l : Bytes) : Option (Parsed × Bytes) := do
  let (msgNo, l) ← takeCounted l
  if msgNo = [] then none else
  let (serviceFullName, l) ← takeCounted l
  if serviceFullName = [] then none else
  let (errCode, l) ← take32 l
  let (errInfo, l) ← takeCounted l
  pure (⟨msgNo, serviceFullName, errCode, errInfo⟩, l)

theorem parseFields_eq_some {l pbData : Bytes} {f : Parsed} :
    parseFields l = some (f, pbData) ↔
      l = counted f.msgNo ++ (counted f.serviceFullName ++ (bytes32 f.errCode ++
          (counted f.errInfo ++ pbData))) ∧
        f.msgNo ≠ [] ∧ f.serviceFullName ≠ [] ∧ f.msgNo.length < 2 ^ 31 ∧
        f.serviceFullName.length < 2 ^ 31 ∧ f.errInfo.length < 2 ^ 31 := by
  constructor
  · intro h
    simp only [parseFields, Option.bind_eq_bind, Option.pure_def, Option.bind_eq_some_iff] at h
    obtain ⟨⟨msgNo, l₁⟩, h₁, h⟩ := h
    split at h
    · simp at h
    rename_i hmsg
    rw [Option.bind_eq_some_iff] at h
    obtain ⟨⟨name, l₂⟩, h₂, h⟩ := h
    split at h
    · simp at h
    rename_i hname
    simp only [Option.bind_eq_some_iff] at h
    obtain ⟨⟨errCode, l₃⟩, h₃, ⟨errInfo, l₄⟩, h₄, h⟩ := h
    obtain ⟨rfl, rfl⟩ := Prod.mk.inj (Option.some.inj h)
    obtain ⟨rfl, hlen₁⟩ := takeCounted_eq_some.mp h₁
    obtain ⟨rfl, hlen₂⟩ := takeCounted_eq_some.mp h₂
    obtain rfl := take32_eq_some.mp h₃
    obtain ⟨rfl, hlen₄⟩ := takeCounted_eq_some.mp h₄
    exact ⟨rfl, hmsg, hname, hlen₁, hlen₂, hlen₄⟩
  · rintro ⟨rfl, hmsg, hname, hlen₁, hlen₂, hlen₄⟩
    simp only [parseFields, takeCounted_eq_some.mpr ⟨rfl, hlen₁⟩, takeCounted_eq_some.mpr ⟨rfl, hlen₂⟩,
      take32_bytes32, takeCounted_eq_some.mpr ⟨rfl, hlen₄⟩, Option.bind_eq_bind, Option.bind_some,
      if_neg hmsg, if_neg hname, Option.pure_def]

/-- What to make of the bytes from a start byte on. -/
inductive Verdict where
  /-- Leave them until more have come. -/
  | wait
  /-- Drop the first `n`. -/
  | reject (n : Nat) (e : DecodeError)
  /-- The first `n` are this packet. -/
  | accept (n : Nat) (p : RpcFields)

/-- The bytes behind the packet length, which is `n`. -/
def judgeFrame (n : Nat) (l : Bytes) : Verdict :=
  let trailer := l.drop (n - 10)
  if trailer[4]? ≠ some kPacketEnd then .reject 1 .endMismatch
  else
    match parseFields (l.take (n - 10)) with
    | none => .reject n .invalidFieldLength
    | some (f, pbData) =>
      match splitName f.serviceFullName with
      | none => .reject n (.invalidServiceName f.serviceFullName)
      | some (serviceName, methodName) =>
        if (take32 trailer).map Prod.fst ≠ some kChecksumPlaceholder then .reject n .invalidChecksum
        else .accept n ⟨f.msgNo, serviceName, methodName, pbData, f.errCode, f.errInfo⟩

/-- The bytes from the start byte on; none are left when there is no start byte. -/
def judge (r : Bytes) : Verdict :=
  if r = [] then .reject 0 .startNotFound
  else
    match take32 (r.drop 1) with
    | none => .wait
    | some (packetLen, l) =>
      if packetLen.toInt < kMinPacketLen ∨ packetLen.toInt > kMaxPacketLen then
        .reject 1 (.invalidLength packetLen.toInt)
      else if r.length < packetLen.toInt then .wait
      else judgeFrame packetLen.toInt.toNat l

/-! ### A frame is judged to be its packet -/

theorem frameLength_fits {p : RpcFields} (h : Sendable p) :
    (BitVec.ofNat 32 (frameLength p)).toInt = frameLength p :=
  toInt_ofNat (Nat.lt_of_le_of_lt h.size (by decide))

theorem parseFields_body {p : RpcFields} (h : Sendable p) :
    parseFields (body p) = some (⟨p.msgNo, p.fullName, p.errCode, p.errInfo⟩, p.pbData) := by
  have hsize := h.size
  simp only [frameLength, kMaxPacketLen] at hsize
  exact parseFields_eq_some.mpr ⟨rfl, h.msgNo, fullName_ne_nil p, by show p.msgNo.length < _; omega,
    by show p.fullName.length < _; omega, by show p.errInfo.length < _; omega⟩

theorem judgeFrame_frame {p : RpcFields} (h : Sendable p) (rest : Bytes) :
    judgeFrame (frameLength p) (body p ++ (bytes32 kChecksumPlaceholder ++ kPacketEnd :: rest)) =
      .accept (frameLength p) p := by
  have hbody : frameLength p - 10 = (body p).length := by rw [← body_length]; omega
  have hend : (bytes32 kChecksumPlaceholder ++ kPacketEnd :: rest)[4]? = some kPacketEnd := rfl
  have hsplit : splitName p.fullName = some (p.serviceName, p.methodName) :=
    splitName_eq_some.mpr ⟨rfl, h.service, h.method, h.noDot⟩
  simp only [judgeFrame, hbody, List.drop_left, List.take_left, hend, parseFields_body h, hsplit,
    take32_bytes32, Option.map_some, ne_eq, not_true_eq_false, if_false]

theorem judge_frame {p : RpcFields} (h : Sendable p) (rest : Bytes) :
    judge (frame p ++ rest) = .accept (frameLength p) p := by
  have hmin := frameLength_min p
  have hmax := h.size
  have hlen : ((frame p ++ rest).length : Int) = frameLength p + rest.length := by
    rw [List.length_append, frame_length]
    omega
  have hword : take32 ((frame p ++ rest).drop 1) = some (.ofNat 32 (frameLength p),
      body p ++ (bytes32 kChecksumPlaceholder ++ kPacketEnd :: rest)) := by
    rw [take32_eq_some]
    simp [frame]
  rw [judge, if_neg (by simp [frame]), hword]
  show (if _ then _ else if _ then _ else _) = _
  rw [frameLength_fits h, if_neg (by omega), if_neg (by omega), Int.toNat_natCast]
  exact judgeFrame_frame h rest

/-- A proper prefix of a frame is waited for: its length is there and says so, or it
is not there yet. -/
theorem judge_prefix {p : RpcFields} (h : Sendable p) {r : Bytes} (hr : r <+: frame p)
    (hne : r ≠ frame p) (hstart : r ≠ []) : judge r = .wait := by
  obtain ⟨t, ht⟩ := hr
  have hmin := frameLength_min p
  have hmax := h.size
  have hshort : (r.length : Int) < frameLength p := by
    have htpos : t ≠ [] := fun h0 => hne (by rw [← ht, h0, List.append_nil])
    have := List.length_pos_iff.mpr htpos
    rw [← frame_length, ← ht, List.length_append]
    omega
  obtain ⟨x, r, rfl⟩ := List.exists_cons_of_ne_nil hstart
  rw [judge, if_neg (by simp)]
  cases hword : take32 ((x :: r).drop 1) with
  | none => rfl
  | some w =>
    obtain ⟨w, l⟩ := w
    have hhead : take32 (r ++ t) = some (w, l ++ t) := by
      have hr : r = bytes32 w ++ l := take32_eq_some.mp hword
      rw [take32_eq_some, hr, List.append_assoc]
    have hframe : take32 (r ++ t) = some (.ofNat 32 (frameLength p),
        body p ++ (bytes32 kChecksumPlaceholder ++ [kPacketEnd])) := by
      rw [take32_eq_some]
      exact (List.cons.inj ht).2
    rw [hhead] at hframe
    obtain rfl := (Prod.mk.inj (Option.some.inj hframe)).1
    show (if _ then _ else if _ then _ else _) = _
    rw [frameLength_fits h, if_neg (by omega), if_pos (by omega)]

/-! ### What is accepted is a frame -/

theorem judgeFrame_accept {n k : Nat} {l : Bytes} {p : RpcFields} (hn : 10 ≤ n)
    (hl : n ≤ l.length + 5) (hmax : n ≤ kMaxPacketLen) (h : judgeFrame n l = .accept k p) :
    k = n ∧ frameLength p = n ∧ Sendable p ∧
      ∃ rest, l = body p ++ (bytes32 kChecksumPlaceholder ++ kPacketEnd :: rest) := by
  simp only [judgeFrame] at h
  split at h
  · cases h
  rename_i hend
  split at h
  · cases h
  rename_i f pbData hparse
  split at h
  · cases h
  rename_i service method hsplit
  split at h
  · cases h
  rename_i hsum
  obtain ⟨rfl, rfl⟩ := Verdict.accept.inj h
  obtain ⟨hbody, hmsg, -, -, -, -⟩ := parseFields_eq_some.mp hparse
  obtain ⟨hname, hservice, hmethod, hdot⟩ := splitName_eq_some.mp hsplit
  -- the trailer is the checksum word and the end byte
  obtain ⟨⟨w, tail⟩, hw, hplace⟩ := Option.map_eq_some_iff.mp (not_not.mp hsum)
  obtain rfl : w = kChecksumPlaceholder := hplace
  have htrailer := take32_eq_some.mp hw
  rw [htrailer] at hend
  obtain ⟨rest, rfl⟩ : ∃ rest, tail = kPacketEnd :: rest := by
    have hget : (bytes32 kChecksumPlaceholder ++ tail)[4]? = tail[0]? := by
      rw [List.getElem?_append_right (by simp)]
      rfl
    rw [hget] at hend
    cases tail with
    | nil => simp at hend
    | cons y rest => exact ⟨rest, by simpa using hend⟩
  obtain ⟨p, hp⟩ : ∃ p : RpcFields, p = ⟨f.msgNo, service, method, pbData, f.errCode, f.errInfo⟩ :=
    ⟨_, rfl⟩
  have htake : body p = l.take (n - 10) := by
    rw [hbody, hname, hp]
    rfl
  have hlen : frameLength p = n := by
    rw [← body_length, htake, List.length_take]
    omega
  rw [← hp]
  refine ⟨rfl, hlen, ⟨?_, ?_, ?_, ?_, by rw [hlen]; exact hmax⟩, rest, ?_⟩
  · rwa [hp]
  · rwa [hp]
  · rwa [hp]
  · rwa [hp]
  · rw [htake, ← htrailer, List.take_append_drop]

theorem judge_accept {n : Nat} {r : Bytes} {p : RpcFields} (h : judge (kPacketStart :: r) = .accept n p) :
    n = frameLength p ∧ Sendable p ∧ ∃ rest, kPacketStart :: r = frame p ++ rest := by
  rw [judge, if_neg (by simp)] at h
  cases hword : take32 ((kPacketStart :: r).drop 1) with
  | none => rw [hword] at h; cases h
  | some w =>
    obtain ⟨w, l⟩ := w
    rw [hword] at h
    dsimp only at h
    split at h
    · cases h
    rename_i hrange
    split at h
    · cases h
    rename_i hpresent
    have hr := take32_eq_some.mp hword
    have hlen : (kPacketStart :: r).length = 5 + l.length := by
      show r.length + 1 = _
      rw [show r = _ from hr, List.length_append, bytes32_length]
      omega
    simp only [kMinPacketLen, kMaxPacketLen] at hrange
    obtain ⟨rfl, hframe, hsend, rest, rfl⟩ := judgeFrame_accept (n := w.toInt.toNat) (by omega)
      (by omega) (by simp only [kMaxPacketLen]; omega) h
    obtain ⟨rfl, _⟩ := eq_ofNat_of_toInt (w := w) (n := frameLength p) (by omega)
    refine ⟨hframe.symm, hsend, rest, ?_⟩
    rw [show r = _ from hr]
    simp [frame]

/-! ### What is rejected and what is waited for -/

theorem judgeFrame_reject {n k : Nat} {l : Bytes} {e : DecodeError} (hn : 0 < n)
    (h : judgeFrame n l = .reject k e) : 0 < k := by
  simp only [judgeFrame] at h
  split at h
  · obtain ⟨rfl, _⟩ := Verdict.reject.inj h
    decide
  split at h
  · obtain ⟨rfl, _⟩ := Verdict.reject.inj h
    exact hn
  split at h
  · obtain ⟨rfl, _⟩ := Verdict.reject.inj h
    exact hn
  split at h
  · obtain ⟨rfl, _⟩ := Verdict.reject.inj h
    exact hn
  · cases h

theorem judgeFrame_ne_wait (n : Nat) (l : Bytes) : judgeFrame n l ≠ .wait := by
  intro h
  simp only [judgeFrame] at h
  repeat' split at h
  all_goals cases h

/-- A rejection makes progress. -/
theorem judge_reject {r : Bytes} {n : Nat} {e : DecodeError} (hr : r ≠ [])
    (h : judge r = .reject n e) : 0 < n := by
  rw [judge, if_neg hr] at h
  split at h
  · cases h
  split at h
  · obtain ⟨rfl, _⟩ := Verdict.reject.inj h
    decide
  rename_i hrange
  split at h
  · cases h
  simp only [kMinPacketLen] at hrange
  exact judgeFrame_reject (by omega) h

theorem judge_wait {r : Bytes} (h : judge r = .wait) :
    r.length < 5 ∨ ∃ packetLen l, take32 (r.drop 1) = some (packetLen, l) ∧
      kMinPacketLen ≤ packetLen.toInt ∧ packetLen.toInt ≤ kMaxPacketLen ∧
      r.length < packetLen.toInt := by
  by_cases hr : r = []
  · rw [judge, if_pos hr] at h
    cases h
  rw [judge, if_neg hr] at h
  split at h
  · rename_i hword
    have := take32_eq_none.mp hword
    rw [List.length_drop] at this
    exact .inl (by omega)
  rename_i packetLen l hword
  split at h
  · cases h
  rename_i hrange
  split at h
  · exact .inr ⟨packetLen, l, hword, by omega, by omega, ‹_›⟩
  · exact absurd h (judgeFrame_ne_wait _ _)

/-! ### A receiver -/

/-- The bytes before the first start byte. -/
def garbage (l : Bytes) : Bytes := l.takeWhile (· ≠ kPacketStart)

/-- The bytes from the first start byte on. -/
def fromStart (l : Bytes) : Bytes := l.dropWhile (· ≠ kPacketStart)

def Verdict.consumed : Verdict → Nat
  | .wait => 0
  | .reject n _ => n
  | .accept n _ => n

def Verdict.error : Verdict → Option DecodeError
  | .reject _ e => some e
  | _ => none

def Verdict.packet : Verdict → Option RpcFields
  | .accept _ p => some p
  | _ => none

/-- One attempt to take a packet, as a decoder on byte strings. -/
def receive : Library.Framing.Decoder Byte RpcFields := fun l =>
  ((judge (fromStart l)).packet, (fromStart l).drop (judge (fromStart l)).consumed)

theorem garbage_append_fromStart (l : Bytes) : garbage l ++ fromStart l = l :=
  List.takeWhile_append_dropWhile

theorem drop_garbage (l : Bytes) : l.drop (garbage l).length = fromStart l := by
  have := congrArg (List.drop (garbage l).length) (garbage_append_fromStart l)
  rw [List.drop_left] at this
  exact this.symm

theorem start_notMem_garbage (l : Bytes) : kPacketStart ∉ garbage l := by
  intro h
  simpa using List.mem_takeWhile_imp h

theorem fromStart_cons {l r : Bytes} {x : Byte} (h : fromStart l = x :: r) : x = kPacketStart := by
  have hne : l.dropWhile (· ≠ kPacketStart) ≠ [] := by
    show fromStart l ≠ []
    rw [h]
    simp
  have := List.head_dropWhile_not (· ≠ kPacketStart) hne
  simp only [show l.dropWhile (· ≠ kPacketStart) = x :: r from h, List.head_cons] at this
  simpa using this

/-- Bytes that begin with a start byte have no garbage before it. -/
theorem fromStart_start (l : Bytes) : fromStart (kPacketStart :: l) = kPacketStart :: l := by
  simp [fromStart]

theorem fromStart_frame (p : RpcFields) (rest : Bytes) : fromStart (frame p ++ rest) = frame p ++ rest :=
  fromStart_start _

/-- The frames of sendable packets are what the receiver takes whole and waits for. -/
theorem frames_receive : Library.Framing.Frames receive frame Sendable where
  take := fun p rest hp => by
    rw [receive, fromStart_frame, judge_frame hp]
    show (some p, (frame p ++ rest).drop (frameLength p)) = _
    rw [← frame_length, List.drop_left]
  wait := fun p r hp hr hne => by
    cases r with
    | nil => rfl
    | cons x r =>
      obtain ⟨t, ht⟩ := id hr
      obtain rfl : x = kPacketStart := (List.cons.inj ht).1
      rw [receive, fromStart_start, judge_prefix hp hr hne (by simp)]
      rfl
  empty := rfl
  nonempty := fun p _ => by simp [frame]

end CoroutineRpc.Rpc
