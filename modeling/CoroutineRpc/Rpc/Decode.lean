import CoroutineRpc.Rpc.WireFormat

/-! `decode` does what the wire format says.

`Shows m start limit l` is what `decode` knows of memory between two of its cursors:
it may be read and holds the bytes `l`. Under it each reading function is its
counterpart on byte lists, and `decodeVia_spec` puts them together: whatever view the
reads go through, as long as it covers the bytes between the indices, one call acts
on the readable bytes as `judge` rules, and on nothing else. -/
namespace CoroutineRpc.Rpc
open Net.Tcp Net.Tcp.TcpBuffer Library.BigEndian

/-! ### Memory between two cursors -/

structure Shows (m : Memory) (start limit : Int) (l : Bytes) : Prop where
  nonneg : 0 ≤ start
  lo : m.lo ≤ start
  hi : limit ≤ m.hi
  size : limit ≤ m.bytes.length
  length : limit = start + l.length
  bytes : slice m.bytes start l.length = l

namespace Shows
variable {m : Memory} {start limit : Int} {l a b : Bytes}

theorem left (h : Shows m start limit (a ++ b)) : Shows m start (start + a.length) a := by
  obtain ⟨hnonneg, hlo, hhi, hsize, hlen, hbytes⟩ := h
  rw [List.length_append] at hlen hbytes
  refine ⟨hnonneg, hlo, by omega, by omega, rfl, ?_⟩
  have := congrArg (List.take a.length) hbytes
  rwa [List.take_left, ← Int.toNat_natCast a.length, slice_take (by omega)] at this

theorem right (h : Shows m start limit (a ++ b)) : Shows m (start + a.length) limit b := by
  obtain ⟨hnonneg, hlo, hhi, hsize, hlen, hbytes⟩ := h
  rw [List.length_append] at hlen hbytes
  refine ⟨by omega, by omega, hhi, hsize, by omega, ?_⟩
  have := @slice_drop m.bytes start ((a.length + b.length : Nat) : Int) a.length hnonneg
    (Int.natCast_nonneg a.length)
  rw [hbytes, Int.toNat_natCast, List.drop_left,
    show ((a.length + b.length : Nat) : Int) - a.length = b.length by omega] at this
  exact this.symm

theorem load (h : Shows m start limit (a ++ b)) : m.load start a.length = some a := by
  obtain ⟨hnonneg, hlo, hhi, hsize, _, hbytes⟩ := h.left
  rw [load_some (by omega) hnonneg hsize hlo hhi, hbytes]

theorem byte {x : Byte} (h : Shows m start limit (x :: l)) : m.byte start = some x := by
  have : m.load start 1 = some [x] := Shows.load (a := [x]) h
  rw [Memory.byte, this]
  rfl

theorem readInt32 (h : Shows m start limit l) :
    readInt32 m start limit = some ((take32 l).map Prod.fst) := by
  have hlen := h.length
  have hnonneg := h.nonneg
  cases hw : take32 l with
  | none =>
    have := take32_eq_none.mp hw
    rw [Rpc.readInt32, if_pos (by omega)]
    rfl
  | some r =>
    obtain ⟨w, rest⟩ := r
    obtain rfl := take32_eq_some.mp hw
    have hload : m.load start 4 = some (bytes32 w) := h.load
    rw [List.length_append, bytes32_length] at hlen
    rw [Rpc.readInt32, if_neg (by omega)]
    simp only [hload, Option.bind_eq_bind, Option.bind_some, Option.pure_def, Option.map_some]
    rw [← List.append_nil (bytes32 w), take32_bytes32]
    rfl

/-- Behind a word that was read, memory shows what followed it. -/
theorem word {w : BitVec 32} {rest : Bytes} (h : Shows m start limit l)
    (hw : take32 l = some (w, rest)) : Shows m (start + 4) limit rest := by
  rw [take32_eq_some.mp hw] at h
  exact h.right

theorem readString {n : Int} (h : Shows m start limit l) :
    readString m start limit n = some ((takeN n l).map fun r => (r.1, start + n)) := by
  have hlen := h.length
  have hnonneg := h.nonneg
  cases hr : takeN n l with
  | none =>
    have : n < 0 ∨ (l.length : Int) < n := Classical.byContradiction fun hno => by
      rw [takeN, if_neg hno] at hr
      cases hr
    rw [Rpc.readString, if_pos (by omega)]
    rfl
  | some r =>
    obtain ⟨s, rest⟩ := r
    obtain ⟨rfl, rfl⟩ := takeN_eq_some.mp hr
    rw [List.length_append] at hlen
    rw [Rpc.readString, if_neg (by omega), h.load]
    rfl

theorem string {n : Int} {s rest : Bytes} (h : Shows m start limit l)
    (hs : takeN n l = some (s, rest)) : Shows m (start + n) limit rest := by
  obtain ⟨rfl, rfl⟩ := takeN_eq_some.mp hs
  exact h.right

end Shows

/-- The bytes between the indices of a buffer, seen through a view that covers them. -/
theorem shows_readable {view : TcpBuffer → Memory} (hv : Covers view) {b : TcpBuffer}
    (h : WellFormed b) : Shows (view b) b.readIndex b.writeIndex b.readable := by
  have hlen := h.readable_length
  refine ⟨h.read, hv.lo b h, hv.hi b h, by rw [hv.bytes]; exact h.size, ?_, ?_⟩
  · rw [hlen, readAble]
    omega
  · rw [hlen, hv.bytes]
    rfl

/-! ### The readers -/

theorem findStart_spec {m : Memory} {start limit : Int} {l : Bytes} (h : Shows m start limit l) :
    findStart m start limit l.length = some (start + (garbage l).length) := by
  induction l generalizing start with
  | nil => simp [findStart, garbage]
  | cons x rest ih =>
    have hlen := h.length
    rw [List.length_cons] at hlen
    rw [List.length_cons, findStart, if_pos (by omega), h.byte]
    by_cases hx : x = kPacketStart
    · simp [hx, garbage]
    · have := ih (Shows.right (a := [x]) h)
      simp only [Option.bind_eq_bind, Option.bind_some, ne_eq, hx, not_false_eq_true, if_true]
      rw [show start + ([x] : Bytes).length = start + 1 from rfl] at this
      rw [this, garbage, garbage, List.takeWhile_cons_of_pos (by simpa using hx), List.length_cons]
      congr 1
      omega

/-- The fields are read as `parseFields` reads them, and the cursor stops before the
payload. -/
theorem readFields_spec {m : Memory} {start limit : Int} {l : Bytes} (h : Shows m start limit l) :
    readFields m start limit = some ((parseFields l).map fun r => (r.1, limit - r.2.length)) := by
  simp only [readFields, parseFields, takeCounted, h.readInt32, Option.bind_eq_bind, Option.bind_some,
    Option.pure_def]
  -- one case per read, in the order of the source
  cases hw₁ : take32 l with
  | none => rfl
  | some r =>
  obtain ⟨msgNoLen, l₁⟩ := r
  have h₁ := h.word hw₁
  simp only [Option.map_some, Option.bind_some, h₁.readString]
  cases hs₁ : takeN msgNoLen.toInt l₁ with
  | none => simp
  | some r =>
  obtain ⟨msgNo, l₂⟩ := r
  have h₂ := h₁.string hs₁
  have hlen₁ := (takeN_eq_some.mp hs₁).2
  by_cases hmsg : msgNo = []
  · simp [hmsg] at hlen₁
    simp [hmsg, hlen₁]
  have hpos₁ : msgNoLen.toInt > 0 := by
    have := List.length_pos_iff.mpr hmsg
    omega
  simp only [hpos₁, not_true_eq_false, if_false, if_neg hmsg, Option.map_some, Option.bind_some,
    h₂.readInt32]
  cases hw₂ : take32 l₂ with
  | none => rfl
  | some r =>
  obtain ⟨nameLen, l₃⟩ := r
  have h₃ := h₂.word hw₂
  simp only [Option.map_some, Option.bind_some, h₃.readString]
  cases hs₂ : takeN nameLen.toInt l₃ with
  | none => simp
  | some r =>
  obtain ⟨name, l₄⟩ := r
  have h₄ := h₃.string hs₂
  have hlen₂ := (takeN_eq_some.mp hs₂).2
  by_cases hname : name = []
  · simp [hname] at hlen₂
    simp [hname, hlen₂]
  have hpos₂ : nameLen.toInt > 0 := by
    have := List.length_pos_iff.mpr hname
    omega
  simp only [hpos₂, not_true_eq_false, if_false, if_neg hname, Option.map_some, Option.bind_some,
    h₄.readInt32]
  cases hw₃ : take32 l₄ with
  | none => rfl
  | some r =>
  obtain ⟨errCode, l₅⟩ := r
  have h₅ := h₄.word hw₃
  simp only [Option.map_some, Option.bind_some, h₅.readInt32]
  cases hw₄ : take32 l₅ with
  | none => rfl
  | some r =>
  obtain ⟨errInfoLen, l₆⟩ := r
  have h₆ := h₅.word hw₄
  simp only [Option.map_some, Option.bind_some, h₆.readString]
  cases hs₃ : takeN errInfoLen.toInt l₆ with
  | none => rfl
  | some r =>
  obtain ⟨errInfo, l₇⟩ := r
  have h₇ := h₆.string hs₃
  have hlast := h₇.length
  simp only [Option.map_some, Option.bind_some]
  rw [if_neg (by omega), show limit - (l₇.length : Int) = start + 4 + msgNoLen.toInt + 4 +
    nameLen.toInt + 4 + 4 + errInfoLen.toInt by omega]

/-! ### Verdicts, carried out on a buffer -/

/-- The packet as `decode` leaves it: only an accepted one shows. -/
def Verdict.deliver (data : RpcStruct) : Verdict → RpcStruct
  | .accept _ p => ⟨{data.toAbstractData with decodeSucc := true}, p⟩
  | _ => data

/-- A call that found `b` with `r` left to read does what `v` says, whatever its reads go
through. -/
def Does (b : TcpBuffer) (data : RpcStruct) (r : Bytes) (v : Verdict)
    (call : (TcpBuffer → Memory) → Option Decoded) : Prop :=
  ∃ b', (∀ view, Covers view → call view = some ⟨b', v.deliver data, v.error⟩) ∧ WellFormed b' ∧
    b'.readable = r.drop v.consumed ∧ b'.writeIndex ≤ b.writeIndex

theorem Does.congr {b : TcpBuffer} {data : RpcStruct} {r : Bytes} {v : Verdict}
    {call other : (TcpBuffer → Memory) → Option Decoded} (h : Does b data r v other)
    (heq : ∀ view, Covers view → call view = other view) : Does b data r v call := by
  obtain ⟨b', hb', hrest⟩ := h
  exact ⟨b', fun view hv => (heq view hv).trans (hb' view hv), hrest⟩

theorem refuse_spec {b : TcpBuffer} (h : WellFormed b) (data : RpcStruct) {n : Nat}
    (hn : n ≤ b.readable.length) (e : DecodeError) :
    Does b data b.readable (.reject n e) fun view => refuse view b data n e := by
  have hlen := h.readable_length
  obtain ⟨b', hb', hwf, hreadable, hindex⟩ :=
    recycleReadVia_spec h (n := n) (Int.natCast_nonneg n) (by omega)
  refine ⟨b', fun view hv => ?_, hwf, hreadable, hindex⟩
  show refuse view b data n e = _
  rw [refuse, hb' view hv]
  rfl

/-- The payload is what `parseFields` left, and the cursor stands before it. -/
theorem load_payload {m : Memory} {start limit : Int} {l pbData : Bytes} {f : Parsed}
    (h : Shows m start limit l) (hp : parseFields l = some (f, pbData)) :
    m.load (limit - pbData.length) (limit - (limit - pbData.length)) = some pbData := by
  obtain ⟨read, rfl⟩ : ∃ read, l = read ++ pbData := by
    obtain ⟨rfl, _⟩ := parseFields_eq_some.mp hp
    exact ⟨counted f.msgNo ++ (counted f.serviceFullName ++ (bytes32 f.errCode ++ counted f.errInfo)),
      by simp only [List.append_assoc]⟩
  have hlen := h.length
  rw [List.length_append] at hlen
  have hload : m.load (start + read.length) pbData.length = some pbData := by
    have := h.right
    rw [← List.append_nil pbData] at this
    exact this.load
  rw [show limit - (pbData.length : Int) = start + read.length by omega,
    show limit - (start + (read.length : Int)) = pbData.length by omega, hload]

/-- What `decodeFrame` reads of a frame that is all there: behind the length come the
fields, the checksum word, the end byte and what follows. -/
theorem frame_reads {view : TcpBuffer → Memory} (hv : Covers view) {b : TcpBuffer} (h : WellFormed b)
    {n : Nat} {x last : Byte} {w sum : BitVec 32} {fields rest : Bytes}
    (hr : b.readable = (x :: bytes32 w) ++ (fields ++ (bytes32 sum ++ last :: rest)))
    (hn : fields.length + 10 = n) :
    (view b).byte (b.readIndex + n - 1) = some last ∧
      Shows (view b) (b.readIndex + 1 + 4) (b.readIndex + n - 1 - 4) fields ∧
      readInt32 (view b) (b.readIndex + n - 1 - 4) (b.readIndex + n - 1) = some (some sum) := by
  have hm := shows_readable hv h
  rw [hr] at hm
  have hfields := hm.right.left
  have htrailer := hm.right.right
  have hstart : b.readIndex + ((x :: bytes32 w).length : Nat) = b.readIndex + 1 + 4 := by
    rw [List.length_cons, bytes32_length]
    omega
  rw [hstart, show b.readIndex + 1 + 4 + (fields.length : Int) = b.readIndex + n - 1 - 4 by omega]
    at hfields htrailer
  have hfour : b.readIndex + n - 1 - 4 + ((bytes32 sum).length : Nat) = b.readIndex + n - 1 := by
    rw [bytes32_length]
    omega
  refine ⟨?_, hfields, ?_⟩
  · have := htrailer.right.byte
    rwa [hfour] at this
  · have := htrailer.left.readInt32
    rw [hfour] at this
    rw [this, ← List.append_nil (bytes32 sum), take32_bytes32]
    rfl

/-- What `decodeFrame` does with a frame of length `n` once its words are read: the bytes
`fields` before the checksum, the checksum `sum` and the end byte `last`. -/
def decodeRead (view : TcpBuffer → Memory) (b : TcpBuffer) (data : RpcStruct) (n : Nat) (fields : Bytes)
    (sum : BitVec 32) (last : Byte) : Option Decoded :=
  if last ≠ kPacketEnd then refuse view b data 1 .endMismatch else
  match parseFields fields with
  | none => refuse view b data n .invalidFieldLength
  | some (f, pbData) =>
    match rfind dot f.serviceFullName with
    | none => refuse view b data n (.invalidServiceName f.serviceFullName)
    | some separator =>
      if separator = 0 ∨ separator + 1 ≥ f.serviceFullName.length then
        refuse view b data n (.invalidServiceName f.serviceFullName)
      else if sum ≠ kChecksumPlaceholder then refuse view b data n .invalidChecksum
      else (b.recycleReadVia view n).map fun b' => ⟨b', ⟨{data.toAbstractData with decodeSucc := true},
        ⟨f.msgNo, f.serviceFullName.take separator, f.serviceFullName.drop (separator + 1), pbData,
          f.errCode, f.errInfo⟩⟩, none⟩

theorem decodeFrame_eq {view : TcpBuffer → Memory} (hv : Covers view) {b : TcpBuffer} (h : WellFormed b)
    (data : RpcStruct) {n : Nat} {x last : Byte} {w sum : BitVec 32} {fields rest : Bytes}
    (hr : b.readable = (x :: bytes32 w) ++ (fields ++ (bytes32 sum ++ last :: rest)))
    (hn : fields.length + 10 = n) :
    decodeFrame view b data n = decodeRead view b data n fields sum last := by
  obtain ⟨hend, hfields, hchecksum⟩ := frame_reads hv h hr hn
  unfold decodeRead
  simp only [decodeFrame, hend, hchecksum, readFields_spec hfields, Option.bind_eq_bind,
    Option.bind_some, ne_eq, Option.some.injEq]
  cases hparse : parseFields fields with
  | none => rfl
  | some r =>
    simp only [Option.map_some, load_payload hfields hparse, Option.bind_some]
    cases rfind dot r.1.serviceFullName with
    | none => rfl
    | some separator => cases b.recycleReadVia view n <;> rfl

/-- The frame that begins at the read index and is all there. -/
theorem decodeFrame_spec {b : TcpBuffer} (h : WellFormed b) (data : RpcStruct) {n : Nat} {x : Byte}
    {w : BitVec 32} {l : Bytes} (hr : b.readable = x :: (bytes32 w ++ l)) (hmin : 10 ≤ n)
    (hn : n ≤ b.readable.length) :
    Does b data b.readable (judgeFrame n l) fun view => decodeFrame view b data n := by
  have hlen := congrArg List.length hr
  rw [List.length_cons, List.length_append, bytes32_length] at hlen
  have htake : (l.take (n - 10)).length + 10 = n := by
    rw [List.length_take]
    omega
  obtain ⟨⟨sum, tail⟩, hsum⟩ : ∃ r, take32 (l.drop (n - 10)) = some r := by
    rw [← Option.isSome_iff_exists, Option.isSome_iff_ne_none, ne_eq, take32_eq_none, List.length_drop]
    omega
  have hdrop := take32_eq_some.mp hsum
  obtain ⟨last, rest, rfl⟩ : ∃ last rest, tail = last :: rest := by
    refine List.exists_cons_of_ne_nil fun h0 => ?_
    have := congrArg List.length hdrop
    rw [h0, List.append_nil, bytes32_length, List.length_drop] at this
    omega
  have hget : (l.drop (n - 10))[4]? = some last := by
    rw [hdrop]
    rfl
  refine Does.congr ?_ fun view hv => decodeFrame_eq hv h data
    (by rw [hr, ← hdrop, List.take_append_drop]; rfl) htake
  rw [judgeFrame]
  simp only [hget, hsum, Option.map_some, ne_eq, Option.some.injEq, decodeRead]
  by_cases hlast : last = kPacketEnd
  · simp only [if_neg (not_not.mpr hlast)]
    cases parseFields (l.take (n - 10)) with
    | none => exact refuse_spec h data hn _
    | some r =>
      obtain ⟨f, pbData⟩ := r
      simp only [splitName]
      cases rfind dot f.serviceFullName with
      | none => exact refuse_spec h data hn _
      | some separator =>
        by_cases hcut : separator = 0 ∨ separator + 1 ≥ f.serviceFullName.length
        · simp only [if_pos hcut]
          exact refuse_spec h data hn _
        · by_cases hplace : sum = kChecksumPlaceholder
          · simp only [if_neg hcut, if_neg (not_not.mpr hplace)]
            obtain ⟨b', hb', hwf, hreadable, hindex⟩ :=
              recycleReadVia_spec h (n := n) (Int.natCast_nonneg n)
                (by rw [← h.readable_length]; omega)
            refine ⟨b', fun view hv => ?_, hwf, hreadable, hindex⟩
            show Option.map _ (b.recycleReadVia view n) = _
            rw [hb' view hv]
            rfl
          · simp only [if_neg hcut, if_pos hplace]
            exact refuse_spec h data hn _
  · simp only [if_pos hlast]
    exact refuse_spec h data (by omega) _

theorem decodeStart_spec {b : TcpBuffer} (h : WellFormed b) (data : RpcStruct) (hne : b.readable ≠ []) :
    Does b data b.readable (judge b.readable) fun view => decodeStart view b data := by
  have hlen := h.readable_length
  simp only [readAble] at hlen
  have hwait : Does b data b.readable .wait fun _ => some ⟨b, data, none⟩ :=
    ⟨b, fun _ _ => rfl, h, rfl, Int.le_refl _⟩
  obtain ⟨x, r, hr⟩ := List.exists_cons_of_ne_nil hne
  have hword : ∀ view, Covers view →
      readInt32 (view b) (b.readIndex + 1) b.writeIndex = some ((take32 r).map Prod.fst) := by
    intro view hv
    have hm := shows_readable hv h
    rw [hr] at hm
    exact Shows.readInt32 (Shows.right (a := [x]) hm)
  rw [judge, if_neg hne, show b.readable.drop 1 = r by rw [hr]; rfl]
  cases hw : take32 r with
  | none =>
    have := take32_eq_none.mp hw
    refine hwait.congr fun view _ => ?_
    rw [decodeStart, if_pos (by rw [← hlen, hr, List.length_cons]; omega)]
    rfl
  | some q =>
    obtain ⟨w, l⟩ := q
    obtain rfl := take32_eq_some.mp hw
    have hfive : 5 ≤ b.readable.length := by
      rw [hr, List.length_cons, List.length_append, bytes32_length]
      omega
    have hread : ∀ view, Covers view → decodeStart view b data =
        if w.toInt < kMinPacketLen ∨ w.toInt > kMaxPacketLen then
          refuse view b data 1 (.invalidLength w.toInt)
        else if b.writeIndex - b.readIndex < w.toInt then some ⟨b, data, none⟩
        else decodeFrame view b data w.toInt := by
      intro view hv
      rw [decodeStart, if_neg (by omega)]
      simp only [hword view hv, hw, Option.bind_eq_bind, Option.bind_some, Option.map_some, Option.pure_def]
    refine Does.congr ?_ hread
    by_cases hrange : w.toInt < kMinPacketLen ∨ w.toInt > kMaxPacketLen
    · simp only [if_pos hrange]
      exact refuse_spec h data (by omega) _
    · by_cases hpresent : (b.readable.length : Int) < w.toInt
      · simp only [if_neg hrange, if_pos hpresent, if_pos (hlen ▸ hpresent)]
        exact hwait
      · simp only [if_neg hrange, if_neg hpresent, if_neg (hlen ▸ hpresent)]
        simp only [kMinPacketLen, kMaxPacketLen] at hrange
        have hnat : w.toInt = (w.toInt.toNat : Int) := by omega
        rw [hnat]
        exact decodeFrame_spec h data hr (by omega) (by omega)

/-- **One call of `decode`**: it skips to the first start byte, and what it does there is
what `judge` says. -/
theorem decodeVia_spec {b : TcpBuffer} (h : WellFormed b) (data : RpcStruct) :
    Does b {data with decodeSucc := false} (fromStart b.readable) (judge (fromStart b.readable))
      fun view => decodeVia view b data := by
  have hlen := h.readable_length
  simp only [readAble] at hlen
  have hsplit := congrArg List.length (garbage_append_fromStart b.readable)
  rw [List.length_append] at hsplit
  have hfind : ∀ view, Covers view → findStart (view b) b.readIndex b.writeIndex
      (b.writeIndex - b.readIndex).toNat = some (b.readIndex + (garbage b.readable).length) := by
    intro view hv
    rw [← findStart_spec (shows_readable hv h)]
    congr 1
    omega
  by_cases hnone : fromStart b.readable = []
  · rw [hnone, List.length_nil] at hsplit
    obtain ⟨b', hb', hwf, hreadable, hindex⟩ := refuse_spec h {data with decodeSucc := false}
      (Nat.le_refl b.readable.length) .startNotFound
    rw [hnone, judge, if_pos rfl]
    refine ⟨b', fun view hv => ?_, hwf, ?_, hindex⟩
    · simp only [decodeVia, hfind view hv, Option.bind_eq_bind, Option.bind_some]
      rw [if_pos (by omega), ← hlen]
      exact hb' view hv
    · rw [hreadable]
      simp [Verdict.consumed]
  · have hpos := List.length_pos_iff.mpr hnone
    by_cases hskip : garbage b.readable = []
    · have hall : fromStart b.readable = b.readable := by
        rw [← drop_garbage, hskip]
        rfl
      rw [hall]
      refine (decodeStart_spec h {data with decodeSucc := false} (hall ▸ hnone)).congr fun view hv => ?_
      simp only [decodeVia, hfind view hv, Option.bind_eq_bind, Option.bind_some, hskip, List.length_nil]
      rw [if_neg (by omega), if_neg (by omega)]
    · have := List.length_pos_iff.mpr hskip
      obtain ⟨c, hc, hwf, hcreadable, hcindex⟩ :=
        recycleReadVia_spec h (n := (garbage b.readable).length) (Int.natCast_nonneg _)
          (by simp only [readAble]; omega)
      rw [Int.toNat_natCast, drop_garbage] at hcreadable
      obtain ⟨b', hb', hbwf, hreadable, hindex⟩ :=
        decodeStart_spec hwf {data with decodeSucc := false} (hcreadable ▸ hnone)
      rw [hcreadable] at hb' hreadable
      refine ⟨b', fun view hv => ?_, hbwf, hreadable, Int.le_trans hindex hcindex⟩
      simp only [decodeVia, hfind view hv, Option.bind_eq_bind, Option.bind_some]
      rw [if_neg (by omega), if_pos (by omega), show b.readIndex + ((garbage b.readable).length : Int) -
        b.readIndex = (garbage b.readable).length by omega, hc view hv]
      exact hb' view hv

/-- The readable bytes start with a start byte once the garbage is gone, if any are left. -/
theorem judge_fromStart_accept {l : Bytes} {n : Nat} {p : RpcFields}
    (h : judge (fromStart l) = .accept n p) :
    n = frameLength p ∧ Sendable p ∧ ∃ rest, fromStart l = frame p ++ rest := by
  cases hr : fromStart l with
  | nil =>
    rw [hr, judge, if_pos rfl] at h
    cases h
  | cons x r =>
    obtain rfl := fromStart_cons hr
    rw [hr] at h
    exact judge_accept h

/-- What `decode` accepts could have been sent. -/
theorem decode_sendable {b : TcpBuffer} (h : WellFormed b) {data : RpcStruct} {out : Decoded}
    (hout : decode b data = some out) (hsucc : out.data.decodeSucc = true) :
    Sendable out.data.toRpcFields := by
  obtain ⟨b', hb', -⟩ := decodeVia_spec h data
  obtain rfl := Option.some.inj (hout.symm.trans (hb' _ covers_all))
  cases hv : judge (fromStart b.readable) with
  | wait => rw [hv] at hsucc; cases hsucc
  | reject n e => rw [hv] at hsucc; cases hsucc
  | accept n p => exact (judge_fromStart_accept hv).2.1

/-- **One representation per packet**: what `decode` accepts is what `encodePbData` makes of
the packet, behind garbage without a start byte, and all that follows is kept. -/
theorem decode_inverts_encode {b : TcpBuffer} (h : WellFormed b) {data : RpcStruct} {out : Decoded}
    (hout : decode b data = some out) (hsucc : out.data.decodeSucc = true) :
    ∃ g f t, b.readable = g ++ f ++ t ∧ kPacketStart ∉ g ∧ out.buf.readable = t ∧
      ∀ genMsgNumber, encodePbData genMsgNumber out.data =
        ({out.data with encodeSucc := true}, .ok f) := by
  obtain ⟨b', hb', _, hreadable, _⟩ := decodeVia_spec h data
  obtain rfl := Option.some.inj (hout.symm.trans (hb' _ covers_all))
  cases hv : judge (fromStart b.readable) with
  | wait => rw [hv] at hsucc; cases hsucc
  | reject n e => rw [hv] at hsucc; cases hsucc
  | accept n p =>
    obtain ⟨rfl, hsend, rest, hrest⟩ := judge_fromStart_accept hv
    refine ⟨garbage b.readable, frame p, rest, ?_, start_notMem_garbage _, ?_, fun gen => ?_⟩
    · rw [List.append_assoc, ← hrest, garbage_append_fromStart]
    · rw [hreadable, hv, hrest, Verdict.consumed, ← frame_length, List.drop_left]
    · exact encodePbData_spec hsend gen _

/-- A small packet whose payload has a start and an end byte. -/
def greeting : RpcFields :=
  { msgNo := [0x31], serviceName := [0x41], methodName := [0x42], pbData := [0x02, 0x03] }

theorem greeting_sendable : Sendable greeting :=
  ⟨by decide, by decide, by decide, by decide, by decide⟩

theorem decode_inverts_encode_greeting :
    ∃ g f t, readable ⟨1, 34, 0xff :: 0xff :: frame greeting⟩ = g ++ f ++ t ∧ kPacketStart ∉ g ∧
      readable ⟨0, 0, List.replicate 34 0⟩ = t ∧
      ∀ genMsgNumber, encodePbData genMsgNumber ⟨{decodeSucc := true}, greeting⟩ =
        (⟨{decodeSucc := true, encodeSucc := true}, greeting⟩, .ok f) :=
  @decode_inverts_encode ⟨1, 34, 0xff :: 0xff :: frame greeting⟩
    ⟨by decide, by decide, by decide, by decide⟩ {}
    ⟨⟨0, 0, List.replicate 34 0⟩, ⟨{decodeSucc := true}, greeting⟩, none⟩ (by decide) rfl

/-! ### The outcomes of a call -/

/-- A skipped prefix and one frame are gone, the frame as long as it says. -/
structure Succeeded (b : TcpBuffer) (out : Decoded) : Prop where
  succ : out.data.decodeSucc = true
  quiet : out.error = none
  consumed : ∃ (skipped packet l : Bytes) (packetLen : BitVec 32),
    b.readable = skipped ++ packet ++ out.buf.readable ∧ kPacketStart ∉ skipped ∧
      take32 (packet.drop 1) = some (packetLen, l) ∧ packetLen.toInt = packet.length

/-- The error log has a line, at least one byte is gone and no field was written. -/
structure Rejected (b : TcpBuffer) (data : RpcStruct) (out : Decoded) : Prop where
  succ : out.data.decodeSucc = false
  logged : out.error.isSome = true
  fields : out.data.toRpcFields = data.toRpcFields
  consumed : ∃ c, c ≠ [] ∧ b.readable = c ++ out.buf.readable

/-- At most a prefix is gone; what is left is too short to have a length or shorter than
its length, which is a permitted one. -/
structure Waiting (b : TcpBuffer) (data : RpcStruct) (out : Decoded) : Prop where
  succ : out.data.decodeSucc = false
  quiet : out.error = none
  fields : out.data.toRpcFields = data.toRpcFields
  consumed : ∃ skipped, b.readable = skipped ++ out.buf.readable ∧ kPacketStart ∉ skipped
  short : out.buf.readable.length < 5 ∨ ∃ packetLen l,
    take32 (out.buf.readable.drop 1) = some (packetLen, l) ∧ kMinPacketLen ≤ packetLen.toInt ∧
      packetLen.toInt ≤ kMaxPacketLen ∧ out.buf.readable.length < packetLen.toInt

theorem done_succeeded {b b' : TcpBuffer} (data : RpcStruct) {n : Nat} {p : RpcFields}
    (hv : judge (fromStart b.readable) = .accept n p)
    (hb' : b'.readable = (fromStart b.readable).drop n) :
    Succeeded b ⟨b', (Verdict.accept n p).deliver data, none⟩ where
  succ := rfl
  quiet := rfl
  consumed := by
    obtain ⟨rfl, hsend, rest, hrest⟩ := judge_fromStart_accept hv
    refine ⟨garbage b.readable, frame p, _, .ofNat 32 (frameLength p), ?_, start_notMem_garbage _,
      take32_bytes32 _ _, ?_⟩
    · show _ = _ ++ b'.readable
      rw [hb', hrest, ← frame_length, List.drop_left, List.append_assoc, ← hrest, garbage_append_fromStart]
    · rw [frameLength_fits hsend, frame_length]

theorem done_rejected {b b' : TcpBuffer} (data : RpcStruct) {n : Nat} {e : DecodeError}
    (hne : b.readable ≠ []) (hv : judge (fromStart b.readable) = .reject n e)
    (hb' : b'.readable = (fromStart b.readable).drop n) :
    Rejected b data ⟨b', {data with decodeSucc := false}, some e⟩ where
  succ := rfl
  logged := rfl
  fields := rfl
  consumed := by
    refine ⟨garbage b.readable ++ (fromStart b.readable).take n, fun h0 => ?_, ?_⟩
    · obtain ⟨hg, ht⟩ := List.append_eq_nil_iff.mp h0
      have hall : fromStart b.readable = b.readable := by
        rw [← drop_garbage, hg]
        rfl
      have hpos : 0 < n := judge_reject hne (hall ▸ hv)
      rw [hall, List.take_eq_nil_iff] at ht
      exact ht.elim (by omega) hne
    · show _ = _ ++ b'.readable
      rw [hb', List.append_assoc, List.take_append_drop, garbage_append_fromStart]

theorem done_waiting {b b' : TcpBuffer} (data : RpcStruct) (hv : judge (fromStart b.readable) = .wait)
    (hb' : b'.readable = fromStart b.readable) :
    Waiting b data ⟨b', {data with decodeSucc := false}, none⟩ where
  succ := rfl
  quiet := rfl
  fields := rfl
  consumed := ⟨garbage b.readable, by rw [hb', garbage_append_fromStart], start_notMem_garbage _⟩
  short := by
    rw [hb']
    exact judge_wait hv

theorem Succeeded.shrinks {b : TcpBuffer} {out : Decoded} (h : Succeeded b out) :
    out.buf.readable.length < b.readable.length := by
  obtain ⟨skipped, packet, l, packetLen, hsplit, _, hword, _⟩ := h.consumed
  have hlen := congrArg List.length (take32_eq_some.mp hword)
  rw [List.length_drop, List.length_append, bytes32_length] at hlen
  rw [hsplit, List.length_append, List.length_append]
  omega

theorem Rejected.shrinks {b : TcpBuffer} {data : RpcStruct} {out : Decoded} (h : Rejected b data out) :
    out.buf.readable.length < b.readable.length := by
  obtain ⟨c, hc, hsplit⟩ := h.consumed
  have := List.length_pos_iff.mpr hc
  rw [hsplit, List.length_append]
  omega

theorem Waiting.shrinks {b : TcpBuffer} {data : RpcStruct} {out : Decoded} (h : Waiting b data out)
    (hfull : kMaxPacketLen ≤ b.readable.length) : out.buf.readable.length < b.readable.length := by
  simp only [kMaxPacketLen] at hfull
  rcases h.short with hshort | ⟨packetLen, l, _, _, hmax, hshort⟩
  · omega
  · simp only [kMaxPacketLen] at hmax
    omega

/-! The three exclude each other. -/

theorem Succeeded.not_rejected {b : TcpBuffer} {data : RpcStruct} {out : Decoded}
    (h : Succeeded b out) : ¬ Rejected b data out := fun h' =>
  Bool.noConfusion (h.succ.symm.trans h'.succ)

theorem Succeeded.not_waiting {b : TcpBuffer} {data : RpcStruct} {out : Decoded}
    (h : Succeeded b out) : ¬ Waiting b data out := fun h' =>
  Bool.noConfusion (h.succ.symm.trans h'.succ)

theorem Rejected.not_waiting {b : TcpBuffer} {data : RpcStruct} {out : Decoded}
    (h : Rejected b data out) : ¬ Waiting b data out := fun h' => by
  have := h.logged
  rw [h'.quiet] at this
  cases this

/-- **One call of `decode` on any bytes.** It reads only between the indices: through the
window it does the same. It ends in exactly one of the three outcomes, and 16 MiB are
never left as they are. -/
theorem decode_outcome {b : TcpBuffer} (h : WellFormed b) (hne : b.readable ≠ []) (data : RpcStruct) :
    ∃ out, decode b data = some out ∧ decodeVia window b data = some out ∧ WellFormed out.buf ∧
      (Succeeded b out ∧ ¬ Rejected b data out ∧ ¬ Waiting b data out ∨
        ¬ Succeeded b out ∧ Rejected b data out ∧ ¬ Waiting b data out ∨
        ¬ Succeeded b out ∧ ¬ Rejected b data out ∧ Waiting b data out) ∧
      (kMaxPacketLen ≤ b.readAble → out.buf.readAble < b.readAble) := by
  obtain ⟨b', hb', hwf, hreadable, _⟩ := decodeVia_spec h data
  refine ⟨_, hb' _ covers_all, hb' _ covers_window, hwf, ?_⟩
  have hlen := h.readable_length
  have hlen' := hwf.readable_length
  cases hv : judge (fromStart b.readable) with
  | accept n p =>
    rw [hv] at hreadable
    have hs := done_succeeded {data with decodeSucc := false} hv hreadable
    have hshrinks := hs.shrinks
    refine ⟨.inl ⟨hs, hs.not_rejected, hs.not_waiting⟩, fun _ => ?_⟩
    rw [← hlen, ← hlen']
    exact Int.ofNat_lt.mpr hshrinks
  | reject n e =>
    rw [hv] at hreadable
    have hr := done_rejected data hne hv hreadable
    have hshrinks := hr.shrinks
    refine ⟨.inr (.inl ⟨fun hs => hs.not_rejected hr, hr, hr.not_waiting⟩), fun _ => ?_⟩
    rw [← hlen, ← hlen']
    exact Int.ofNat_lt.mpr hshrinks
  | wait =>
    rw [hv] at hreadable
    have hw := done_waiting data hv hreadable
    refine ⟨.inr (.inr ⟨fun hs => hs.not_waiting hw, fun hr => hr.not_waiting hw, hw⟩), fun hfull => ?_⟩
    have hshrinks := hw.shrinks (by omega)
    rw [← hlen, ← hlen']
    exact Int.ofNat_lt.mpr hshrinks

theorem decode_outcome_garbage :
    ∃ out, decode ⟨0, 2, [0x41, 0x42]⟩ {} = some out ∧ decodeVia window ⟨0, 2, [0x41, 0x42]⟩ {} = some out ∧
      WellFormed out.buf ∧
      (Succeeded ⟨0, 2, [0x41, 0x42]⟩ out ∧ ¬ Rejected ⟨0, 2, [0x41, 0x42]⟩ {} out ∧
          ¬ Waiting ⟨0, 2, [0x41, 0x42]⟩ {} out ∨
        ¬ Succeeded ⟨0, 2, [0x41, 0x42]⟩ out ∧ Rejected ⟨0, 2, [0x41, 0x42]⟩ {} out ∧
          ¬ Waiting ⟨0, 2, [0x41, 0x42]⟩ {} out ∨
        ¬ Succeeded ⟨0, 2, [0x41, 0x42]⟩ out ∧ ¬ Rejected ⟨0, 2, [0x41, 0x42]⟩ {} out ∧
          Waiting ⟨0, 2, [0x41, 0x42]⟩ {} out) ∧
      (kMaxPacketLen ≤ readAble ⟨0, 2, [0x41, 0x42]⟩ →
        out.buf.readAble < readAble ⟨0, 2, [0x41, 0x42]⟩) :=
  decode_outcome ⟨by decide, by decide, by decide, by decide⟩ (by decide) {}

end CoroutineRpc.Rpc
