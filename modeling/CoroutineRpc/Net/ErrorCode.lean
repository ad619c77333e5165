import Mathlib.Data.List.Basic

/-! The error codes that calls and replies carry. -/
namespace CoroutineRpc.Net

inductive ErrorCode where
  | peerClosed
  | failedConnect
  | failedGetReply
  | failedDeserialize
  | failedSerialize
  | failedEncode
  | failedDecode
  | rpcCallTimeout
  | serviceNotFound
  | methodNotFound
  | parseServiceName
  | notSetAsyncPreCall
  | connectSysErr
deriving DecidableEq

/-- `SYS_ERROR_PREFIX`. -/
def ErrorCode.value : ErrorCode → BitVec 32
  | .peerClosed => 10000000
  | .failedConnect => 10000001
  | .failedGetReply => 10000002
  | .failedDeserialize => 10000003
  | .failedSerialize => 10000004
  | .failedEncode => 10000005
  | .failedDecode => 10000006
  | .rpcCallTimeout => 10000007
  | .serviceNotFound => 10000008
  | .methodNotFound => 10000009
  | .parseServiceName => 10000010
  | .notSetAsyncPreCall => 10000011
  | .connectSysErr => 10000012

/-- An error is never taken for success. -/
theorem ErrorCode.value_ne_zero (e : ErrorCode) : e.value ≠ 0 := by
  cases e <;> decide

end CoroutineRpc.Net
