import CoroutineRpc.Net.Tcp.TcpBuffer
import CoroutineRpc.Library.BigEndian

/-! `RpcCodeC`: packets to frames on a `TcpBuffer` and back.

A frame is the start byte, its own length, the request number, the full name of the
method, the error code, the error text, the payload, a fixed checksum word and the
end byte; every length is a signed 32-bit word in network order. `none` is undefined
behaviour, as in `Memory`. -/
namespace CoroutineRpc.Rpc
open Net.Tcp Library.BigEndian

structure AbstractData where
  decodeSucc : Bool := false
  encodeSucc : Bool := false
deriving DecidableEq

/-- The data fields of an `RpcStruct`. -/
structure RpcFields where
  msgNo : Bytes := []
  serviceName : Bytes := []
  methodName : Bytes := []
  pbData : Bytes := []
  errCode : BitVec 32 := 0
  errInfo : Bytes := []
deriving DecidableEq

structure RpcStruct extends AbstractData, RpcFields
deriving DecidableEq

def kPacketStart : Byte := 0x02
def kPacketEnd : Byte := 0x03
def kChecksumPlaceholder : BitVec 32 := 1
def kMinPacketLen : Nat := 2 * 1 + 6 * 4
def kMaxPacketLen : Nat := 16 * 1024 * 1024

/-- The separator between the service and the method name. -/
def dot : Byte := 0x2e

/-! ### Encoding -/

/-- What `encodePbData` writes to the error log. -/
inductive EncodeError where
  | emptyName
  | tooLarge (size : Nat)
  | lengthMismatch
deriving DecidableEq

def EncodeError.text : EncodeError → String
  | .emptyName => "encode error, service_name or method_name is empty"
  | .tooLarge size => "encode error, packet too large, size=" ++ toString size
  | .lengthMismatch => "encode error, calculated packet length mismatch"

def writeInt32 (value : BitVec 32) : Bytes := bytes32 value

/-- The packet as `encodePbData` leaves it, and the frame or the reason there is none.
`genMsgNumber` is the number `MsgReqUtil` would hand out. -/
def encodePbData (genMsgNumber : Bytes) (data : RpcStruct) : RpcStruct × Except EncodeError Bytes :=
  let data := {data with encodeSucc := false}
  if data.serviceName = [] ∨ data.methodName = [] then (data, .error .emptyName)
  else
    let data := if data.msgNo = [] then {data with msgNo := genMsgNumber} else data
    let serviceFullName := data.serviceName ++ [dot] ++ data.methodName
    let packetLen := kMinPacketLen + data.msgNo.length + serviceFullName.length +
      data.errInfo.length + data.pbData.length
    if packetLen > kMaxPacketLen then (data, .error (.tooLarge packetLen))
    else
      let frame := [kPacketStart] ++ writeInt32 (.ofNat 32 packetLen) ++
        writeInt32 (.ofNat 32 data.msgNo.length) ++ data.msgNo ++
        writeInt32 (.ofNat 32 serviceFullName.length) ++ serviceFullName ++
        writeInt32 data.errCode ++
        writeInt32 (.ofNat 32 data.errInfo.length) ++ data.errInfo ++
        data.pbData ++ writeInt32 kChecksumPlaceholder ++ [kPacketEnd]
      if frame.length ≠ packetLen then (data, .error .lengthMismatch)
      else ({data with encodeSucc := true}, .ok frame)

/-- A refused packet leaves the buffer as it was. -/
def encode (genMsgNumber : Bytes) (buf : TcpBuffer) (data : RpcStruct) :
    Option (TcpBuffer × RpcStruct) :=
  match encodePbData genMsgNumber data with
  | (data, .error _) => some (buf, data)
  | (data, .ok frame) => (buf.writeToBuffer frame).map fun buf => (buf, data)

/-! ### Decoding -/

/-- What `decode` writes to the error log. -/
inductive DecodeError where
  | startNotFound
  | invalidLength (packetLen : Int)
  | endMismatch
  | invalidFieldLength
  | invalidServiceName (serviceFullName : Bytes)
  | invalidChecksum
deriving DecidableEq

/-- The text of the line, before the bytes of an invalid name. -/
def DecodeError.text : DecodeError → String
  | .startNotFound => "decode error, packet start byte not found"
  | .invalidLength packetLen => "decode error, invalid packet length=" ++ toString packetLen
  | .endMismatch => "decode error, packet end byte mismatch"
  | .invalidFieldLength => "decode error, invalid field length"
  | .invalidServiceName _ => "decode error, invalid service full name="
  | .invalidChecksum => "decode error, invalid checksum placeholder"

/-- The word at `index` below `limit`; the inner `none` is the C++ `false`. -/
def readInt32 (m : Memory) (index limit : Int) : Option (Option (BitVec 32)) := do
  if index < 0 ∨ limit < index ∨ limit - index < 4 then pure none
  else
    let bytes ← m.load index 4
    pure ((take32 bytes).map Prod.fst)

/-- The string at `cursor` below `limit`, and the cursor behind it. -/
def readString (m : Memory) (cursor limit length : Int) : Option (Option (Bytes × Int)) := do
  if length < 0 ∨ cursor < 0 ∨ limit < cursor ∨ length > limit - cursor then pure none
  else
    let value ← m.load cursor length
    pure (some (value, cursor + length))

/-- The position of the last `c`. -/
def rfind (c : Byte) : Bytes → Option Nat
  | [] => none
  | x :: rest =>
    match rfind c rest with
    | some i => some (i + 1)
    | none => if x = c then some 0 else none

/-- The `while` loop over the bytes before the start byte. -/
def findStart (m : Memory) (startIndex writeIndex : Int) : Nat → Option Int
  | 0 => some startIndex
  | n + 1 => do
    if startIndex < writeIndex then
      if (← m.byte startIndex) ≠ kPacketStart then findStart m (startIndex + 1) writeIndex n
      else pure startIndex
    else pure startIndex

/-- The local variables `decode` reads the fields into. -/
structure Parsed where
  msgNo : Bytes
  serviceFullName : Bytes
  errCode : BitVec 32
  errInfo : Bytes
deriving DecidableEq

/-- The fields up to the payload, and the cursor behind them. `valid` turns false at the
first failed read, and nothing is read after it. -/
def readFields (m : Memory) (cursor checksumIndex : Int) : Option (Option (Parsed × Int)) := do
  let some msgNoLen ← readInt32 m cursor checksumIndex | pure none
  if ¬ msgNoLen.toInt > 0 then pure none else
  let some (msgNo, cursor) ← readString m (cursor + 4) checksumIndex msgNoLen.toInt | pure none
  let some serviceFullNameLen ← readInt32 m cursor checksumIndex | pure none
  if ¬ serviceFullNameLen.toInt > 0 then pure none else
  let some (serviceFullName, cursor) ←
    readString m (cursor + 4) checksumIndex serviceFullNameLen.toInt | pure none
  let some errCode ← readInt32 m cursor checksumIndex | pure none
  let some errInfoLen ← readInt32 m (cursor + 4) checksumIndex | pure none
  let some (errInfo, cursor) ← readString m (cursor + 4 + 4) checksumIndex errInfoLen.toInt
    | pure none
  if cursor > checksumIndex then pure none else
  pure (some (⟨msgNo, serviceFullName, errCode, errInfo⟩, cursor))

/-- What one call of `decode` leaves: the buffer, the packet and the error line, if any. -/
structure Decoded where
  buf : TcpBuffer
  data : RpcStruct
  error : Option DecodeError
deriving DecidableEq

section
-- what each read of `m_buffer` goes through, the compaction's included
variable (view : TcpBuffer → Memory)

def refuse (buf : TcpBuffer) (data : RpcStruct) (n : Int) (e : DecodeError) : Option Decoded := do
  pure ⟨← buf.recycleReadVia view n, data, some e⟩

/-- The frame at the read index, once all of it is there. -/
def decodeFrame (buf : TcpBuffer) (data : RpcStruct) (packetLen : Int) : Option Decoded := do
  let m := view buf
  let startIndex := buf.readIndex
  let endIndex := startIndex + packetLen - 1
  if (← m.byte endIndex) ≠ kPacketEnd then refuse view buf data 1 .endMismatch else
  let checksumIndex := endIndex - 4
  let some (fields, cursor) ← readFields m (startIndex + 1 + 4) checksumIndex
    | refuse view buf data packetLen .invalidFieldLength
  let some separator := rfind dot fields.serviceFullName
    | refuse view buf data packetLen (.invalidServiceName fields.serviceFullName)
  if separator = 0 ∨ separator + 1 ≥ fields.serviceFullName.length then
    refuse view buf data packetLen (.invalidServiceName fields.serviceFullName)
  else
  if (← readInt32 m checksumIndex endIndex) ≠ some kChecksumPlaceholder then
    refuse view buf data packetLen .invalidChecksum
  else
  let pbData ← m.load cursor (checksumIndex - cursor)
  pure ⟨← buf.recycleReadVia view packetLen,
    { data with
      msgNo := fields.msgNo
      serviceName := fields.serviceFullName.take separator
      methodName := fields.serviceFullName.drop (separator + 1)
      errCode := fields.errCode
      errInfo := fields.errInfo
      pbData
      decodeSucc := true }, none⟩

/-- `decode` from the start byte on, which is at the read index. -/
def decodeStart (buf : TcpBuffer) (data : RpcStruct) : Option Decoded := do
  let m := view buf
  let startIndex := buf.readIndex
  let writeIndex := buf.writeIndex
  if writeIndex - startIndex < 1 + 4 then pure ⟨buf, data, none⟩ else
  let some packetLen ← readInt32 m (startIndex + 1) writeIndex | pure ⟨buf, data, none⟩
  if packetLen.toInt < kMinPacketLen ∨ packetLen.toInt > kMaxPacketLen then
    refuse view buf data 1 (.invalidLength packetLen.toInt)
  else if writeIndex - startIndex < packetLen.toInt then pure ⟨buf, data, none⟩
  else decodeFrame view buf data packetLen.toInt

/-- `decode`, reading `m_buffer` through `view`. -/
def decodeVia (buf : TcpBuffer) (data : RpcStruct) : Option Decoded := do
  let data := {data with decodeSucc := false}
  let readIndex := buf.readIndex
  let writeIndex := buf.writeIndex
  let startIndex ← findStart (view buf) readIndex writeIndex (writeIndex - readIndex).toNat
  if startIndex = writeIndex then refuse view buf data (writeIndex - readIndex) .startNotFound
  else if startIndex > readIndex then
    let buf ← buf.recycleReadVia view (startIndex - readIndex)
    decodeStart view buf data
  else decodeStart view buf data

end

/-- The code's own reads may touch all of `m_buffer`. -/
def decode : TcpBuffer → RpcStruct → Option Decoded := decodeVia TcpBuffer.all

end CoroutineRpc.Rpc
