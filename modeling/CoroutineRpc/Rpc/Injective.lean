import CoroutineRpc.Rpc.Stream

/-! Whether a frame tells which call it is.

Every field of a frame is behind its length, so frames of packets that both ends agree on differ when
the packets do (`frame_injective`). `encode` accepts more packets than those: a method's name with a
dot in it, which `decode` takes for the end of the service's name. -/
namespace CoroutineRpc.Rpc
open Net.Tcp Net.Tcp.TcpBuffer Library.BigEndian

/-- `encode` accepts the packet, leaves it as `sent` and appends the frame. -/
def Encodes (genMsgNumber : Bytes) (data sent : RpcStruct) (f : Bytes) : Prop :=
  ∃ before after, WellFormed before ∧ encode genMsgNumber before data = some (after, sent) ∧
    sent.encodeSucc = true ∧ after.readable = before.readable ++ f

/-- `decode` finds the method in the frame that it was sent to. -/
def Attributed (f : Bytes) (sent : RpcFields) : Prop :=
  ∀ (b : TcpBuffer) (data : RpcStruct), WellFormed b → b.readable = f →
    ∃ out, decode b data = some out ∧ out.data.decodeSucc = true ∧
      out.data.serviceName = sent.serviceName ∧ out.data.methodName = sent.methodName

/-- A packet whose method can be found again, and which has a number or is given one. -/
def Plain (genMsgNumber : Bytes) (data : RpcStruct) : Prop :=
  dot ∉ data.methodName ∧ (data.msgNo = [] → genMsgNumber ≠ [])

/-- **Frames of different packets differ.** -/
theorem frame_injective {p q : RpcFields} (hp : Sendable p) (hq : Sendable q) (h : frame p = frame q) : p = q := by
  have hjudge := judge_frame hp []
  rw [h, judge_frame hq []] at hjudge
  injection hjudge with _ heq
  exact heq.symm

/-! ### What `encode` accepts -/

/-- A packet as `encode` leaves it when it accepts it. -/
structure Accepted (genMsgNumber : Bytes) (data sent : RpcStruct) : Prop where
  service : data.serviceName ≠ []
  method : data.methodName ≠ []
  fields : sent.toRpcFields = numbered genMsgNumber data
  size : frameLength (numbered genMsgNumber data) ≤ kMaxPacketLen

theorem encodePbData_ok {genMsgNumber : Bytes} {data sent : RpcStruct} {f : Bytes}
    (h : encodePbData genMsgNumber data = (sent, .ok f)) :
    Accepted genMsgNumber data sent ∧ f = frame sent.toRpcFields := by
  by_cases hnames : data.serviceName = [] ∨ data.methodName = []
  · rw [encodePbData, if_pos hnames] at h
    cases (Prod.mk.inj h).2
  rw [encodePbData_named hnames] at h
  obtain ⟨hservice, hmethod⟩ := not_or.mp hnames
  split at h
  · cases (Prod.mk.inj h).2
  rename_i hsize
  obtain ⟨rfl, hf⟩ := Prod.mk.inj h
  exact ⟨⟨hservice, hmethod, rfl, Nat.not_lt.mp hsize⟩, (Except.ok.inj hf).symm⟩

/-- What is appended to the buffer is the frame of the packet. -/
theorem Encodes.accepted {genMsgNumber : Bytes} {data sent : RpcStruct} {f : Bytes}
    (h : Encodes genMsgNumber data sent f) : Accepted genMsgNumber data sent ∧ f = frame sent.toRpcFields := by
  obtain ⟨before, after, hwf, hencode, hsucc, hreadable⟩ := h
  unfold encode at hencode
  split at hencode
  · rename_i refused e hrefused
    obtain ⟨-, rfl⟩ := Prod.mk.inj (Option.some.inj hencode)
    have hnot : refused.encodeSucc = false := by
      by_cases hnames : data.serviceName = [] ∨ data.methodName = []
      · rw [encodePbData, if_pos hnames] at hrefused
        rw [← (Prod.mk.inj hrefused).1]
      · rw [encodePbData_named hnames] at hrefused
        split at hrefused
        · rw [← (Prod.mk.inj hrefused).1]
        · cases (Prod.mk.inj hrefused).2
    rw [hnot] at hsucc
    cases hsucc
  · rename_i accepted frame' hok
    obtain ⟨buf, hwrite, heq⟩ := Option.map_eq_some_iff.mp hencode
    obtain ⟨rfl, rfl⟩ := Prod.mk.inj heq
    obtain ⟨haccepted, hframe⟩ := encodePbData_ok hok
    refine ⟨haccepted, ?_⟩
    by_cases hroom : before.Room frame'.length
    · obtain ⟨c, hc, -, happended, -⟩ := writeToBuffer_room hwf frame' hroom
      obtain rfl := Option.some.inj (hwrite.symm.trans hc)
      rw [← hframe]
      exact List.append_cancel_left (hreadable.symm.trans happended)
    · rw [writeToBuffer_none hroom] at hwrite
      cases hwrite

/-! ### What `decode` makes of it -/

/-- The number is the first field behind the length. -/
theorem msgNo_of_frame {p q : RpcFields} {rest : Bytes} (hp : frameLength p ≤ kMaxPacketLen)
    (hq : frameLength q ≤ kMaxPacketLen) (h : frame p = frame q ++ rest) : p.msgNo.length = q.msgNo.length := by
  rw [frame, frame, List.cons_append] at h
  have htail := (List.cons.inj h).2
  simp only [body, counted, List.append_assoc] at htail
  have hword := (List.append_inj htail rfl).2
  have hlength := (List.append_inj hword rfl).1
  have htake := take32_bytes32 (BitVec.ofNat 32 p.msgNo.length) []
  rw [hlength, take32_bytes32] at htake
  have hnat := congrArg BitVec.toNat (Prod.mk.inj (Option.some.inj htake)).1
  simp only [frameLength, kMaxPacketLen] at hp hq
  rw [BitVec.toNat_ofNat, BitVec.toNat_ofNat, Nat.mod_eq_of_lt (by omega), Nat.mod_eq_of_lt (by omega)] at hnat
  exact hnat.symm

/-- **A frame is attributed exactly when its packet could be received.** -/
theorem attributed_iff {genMsgNumber : Bytes} {data sent : RpcStruct} (h : Accepted genMsgNumber data sent) :
    Attributed (frame sent.toRpcFields) sent.toRpcFields ↔ Sendable sent.toRpcFields := by
  have hfields := h.fields
  have hsize : frameLength sent.toRpcFields ≤ kMaxPacketLen := hfields ▸ h.size
  constructor
  · intro hattributed
    have hmax : (frame sent.toRpcFields).length < 2 ^ 31 := by
      rw [frame_length]
      exact Nat.lt_of_le_of_lt hsize (by decide)
    have hwf : WellFormed ⟨0, (frame sent.toRpcFields).length, frame sent.toRpcFields⟩ :=
      ⟨Int.le_refl 0, Int.natCast_nonneg _, Int.le_refl _, by exact_mod_cast hmax⟩
    have hreadable : TcpBuffer.readable ⟨0, (frame sent.toRpcFields).length, frame sent.toRpcFields⟩ =
        frame sent.toRpcFields := by
      simp [TcpBuffer.readable, slice, readAble]
    obtain ⟨out, hout, hsucc, hservice, hmethod⟩ := hattributed _ {} hwf hreadable
    obtain ⟨out', hout', -, -, -, hdata⟩ := decode_receive hwf {}
    obtain rfl := Option.some.inj (hout.symm.trans hout')
    have hstart : fromStart (frame sent.toRpcFields) = frame sent.toRpcFields := fromStart_start _
    rw [hreadable, receive, hstart] at hdata
    cases hv : judge (frame sent.toRpcFields) with
    | wait =>
      rw [hv] at hdata
      rw [show out.data = _ from hdata] at hsucc
      cases hsucc
    | reject n e =>
      rw [hv] at hdata
      rw [show out.data = _ from hdata] at hsucc
      cases hsucc
    | accept n p =>
      rw [hv] at hdata
      obtain rfl := hdata.2
      obtain ⟨-, hsend, rest, hrest⟩ := judge_accept hv
      have hlength := msgNo_of_frame hsize hsend.size hrest
      refine ⟨hservice ▸ hsend.service, hmethod ▸ hsend.method, hmethod ▸ hsend.noDot, fun hnil => ?_, hsize⟩
      rw [hnil] at hlength
      exact hsend.msgNo (List.length_eq_zero_iff.mp hlength.symm)
  · intro hsend b data hb hreadable
    obtain ⟨out, hout, -, -, -, hdata⟩ := decode_receive hb data
    have htake := frames_receive.take sent.toRpcFields [] hsend
    rw [List.append_nil] at htake
    rw [hreadable, htake] at hdata
    exact ⟨out, hout, hdata.1, congrArg RpcFields.serviceName hdata.2, congrArg RpcFields.methodName hdata.2⟩

theorem sendable_iff {genMsgNumber : Bytes} {data sent : RpcStruct} (h : Accepted genMsgNumber data sent) :
    Sendable sent.toRpcFields ↔ Plain genMsgNumber data := by
  rw [h.fields]
  constructor
  · intro hsend
    refine ⟨hsend.noDot, fun hnil hgen => hsend.msgNo ?_⟩
    simp only [numbered, hnil, if_true, hgen]
  · rintro ⟨hdot, hnumber⟩
    refine ⟨h.service, h.method, hdot, ?_, h.size⟩
    unfold numbered
    dsimp only
    split
    · exact hnumber ‹_›
    · assumption

/-- **`encode` is injective**, and `decode` tells what was called, exactly for packets whose method has
no dot and which get a number. -/
theorem encode_injective_iff (genMsgNumber genMsgNumber' : Bytes) (p p' q q' : RpcStruct) (f g : Bytes)
    (hp : Encodes genMsgNumber p p' f) (hq : Encodes genMsgNumber' q q' g) :
    (f = g → p'.toRpcFields = q'.toRpcFields) ∧ Attributed f p'.toRpcFields ∧ Attributed g q'.toRpcFields ↔
      Plain genMsgNumber p ∧ Plain genMsgNumber' q := by
  obtain ⟨hp', rfl⟩ := hp.accepted
  obtain ⟨hq', rfl⟩ := hq.accepted
  rw [attributed_iff hp', attributed_iff hq', ← sendable_iff hp', ← sendable_iff hq']
  exact ⟨fun h => h.2, fun h => ⟨frame_injective h.1 h.2, h⟩⟩

/-- The method `c` of the service `a.b`. -/
def nested : RpcStruct :=
  {encodeSucc := true, msgNo := [0x31], serviceName := [0x61, dot, 0x62], methodName := [0x63]}

/-- The method `b.c` of the service `a`. -/
def dotted : RpcStruct :=
  {encodeSucc := true, msgNo := [0x31], serviceName := [0x61], methodName := [0x62, dot, 0x63]}

theorem encodes_nested : Encodes [] nested nested (frame nested.toRpcFields) :=
  ⟨⟨0, 0, List.replicate 40 0⟩, ⟨0, 32, frame nested.toRpcFields ++ List.replicate 8 0⟩,
    ⟨by decide, by decide, by decide, by decide⟩, by decide, rfl, by decide⟩

theorem encodes_dotted : Encodes [] dotted dotted (frame nested.toRpcFields) :=
  ⟨⟨0, 0, List.replicate 40 0⟩, ⟨0, 32, frame nested.toRpcFields ++ List.replicate 8 0⟩,
    ⟨by decide, by decide, by decide, by decide⟩, by decide, rfl, by decide⟩

/-- The method `d` of the same service. -/
def sibling : RpcStruct := {nested with methodName := [0x64]}

theorem encodes_sibling : Encodes [] sibling sibling (frame sibling.toRpcFields) :=
  ⟨⟨0, 0, List.replicate 40 0⟩, ⟨0, 32, frame sibling.toRpcFields ++ List.replicate 8 0⟩,
    ⟨by decide, by decide, by decide, by decide⟩, by decide, rfl, by decide⟩

theorem encode_injective_iff_nested : frame nested.toRpcFields ≠ frame sibling.toRpcFields ∧
    Attributed (frame nested.toRpcFields) nested.toRpcFields ∧
    Attributed (frame sibling.toRpcFields) sibling.toRpcFields := by
  obtain ⟨hfields, hnested, hsibling⟩ :=
    (encode_injective_iff [] [] nested nested sibling sibling _ _ encodes_nested encodes_sibling).mpr
      ⟨⟨by decide, nofun⟩, by decide, nofun⟩
  exact ⟨fun heq => absurd (hfields heq) (by decide), hnested, hsibling⟩

/-- Two calls have one frame. -/
theorem not_encode_injective : ¬ ∀ (genMsgNumber : Bytes) (p p' q q' : RpcStruct) (f : Bytes),
    Encodes genMsgNumber p p' f → Encodes genMsgNumber q q' f → p'.toRpcFields = q'.toRpcFields := by
  intro h
  have heq := h [] nested nested dotted dotted _ encodes_nested encodes_dotted
  exact absurd heq (by decide)

end CoroutineRpc.Rpc
