import CoroutineRpc.Comm.StringUtil
import CoroutineRpc.Text
import Mathlib.Data.List.DropRight

/-! `Config`: what a file says, over what is built in.

`loadFromFile` collects the assignments of the file in a map, reads each known key from it into a
local variable that begins with the field's value, and writes the fields when all of them were read.
`get` gives the text of a field, or what the file assigns to a key that is no field's. -/
namespace CoroutineRpc.Comm
open Library.Search

inductive LogLevel where
  | debug
  | info
  | warn
  | error
  | none
deriving DecidableEq

def LogLevel.toString : LogLevel → Bytes
  | debug => ascii "DEBUG"
  | info => ascii "INFO"
  | warn => ascii "WARN"
  | error => ascii "ERROR"
  | none => ascii "NONE"

structure Config where
  rpcServerIp : Bytes := ascii "127.0.0.1"
  rpcServerPort : Int := 8000
  zookeeperIp : Bytes := ascii "127.0.0.1"
  zookeeperPort : Int := 2181
  logPath : Bytes := ascii "./log/"
  logPrefix : Bytes := ascii "coroutine_rpc"
  logMaxFileSize : Int := 5 * 1024 * 1024
  logEnable : Bool := true
  logLevel : LogLevel := .debug
  appLogLevel : LogLevel := .debug
  logSyncInterval : Int := 500
  corStackSize : Int := 128 * 1024
  corPoolSize : Int := 1024
  msgReqLen : Int := 20
  maxConnectTimeout : Int := 10000
  iothreadNum : Int := 4
  timewheelBucketNum : Int := 10
  timewheelInteval : Int := 10
  loaded : Bool := false
  extraValues : StringMap := ∅

namespace Config

def isBlank (c : Byte) : Bool := c = byte ' ' ∨ c = byte '\t' ∨ c = byte '\r' ∨ c = byte '\n'

def trim (value : Bytes) : Bytes := (value.dropWhile isBlank).rdropWhile isBlank

def toUpper (value : Bytes) : Bytes := value.map toupper

def parseLogLevel (value : Bytes) : Option LogLevel :=
  let normalized := toUpper value
  if normalized = ascii "DEBUG" then some .debug
  else if normalized = ascii "INFO" then some .info
  else if normalized = ascii "WARN" then some .warn
  else if normalized = ascii "ERROR" then some .error
  else if normalized = ascii "NONE" then some .none
  else none

/-- What is written to `cerr` when a value is not taken. -/
inductive LoadError where
  | integer (key text : Bytes) (minimum maximum : Int)
  | emptyString (key : Bytes)
  | boolean (key text : Bytes)
  | logLevel (key text : Bytes)
deriving DecidableEq

/-! ### Reading one key -/

/-- `strtoll` sets `errno` to `ERANGE`. -/
def outOfRange (text : Bytes) : Bool :=
  let (negative, text) := takeSign ((cString text).dropWhile isspace)
  let digits := text.takeWhile isdigit
  let value : Int := if negative then -digitsValue digits else digitsValue digits
  value < -2 ^ 63 ∨ 2 ^ 63 - 1 < value

/-- The value of `result` afterwards, if the key may have its value. -/
def readInteger (values : StringMap) (key : Bytes) (minimum maximum result : Int) : Except LoadError Int :=
  match values[key]? with
  | none => .ok result
  | some text =>
    match strtoll text with
    | none => .error (.integer key text minimum maximum)
    | some (parsed, rest) =>
      if outOfRange text ∨ rest ≠ [] ∨ parsed < minimum ∨ parsed > maximum then
        .error (.integer key text minimum maximum)
      else .ok parsed

def readString (values : StringMap) (key result : Bytes) : Except LoadError Bytes :=
  match values[key]? with
  | none => .ok result
  | some text => if text = [] then .error (.emptyString key) else .ok text

def readBoolean (values : StringMap) (key : Bytes) (result : Bool) : Except LoadError Bool :=
  match values[key]? with
  | none => .ok result
  | some text =>
    if toUpper text = ascii "TRUE" then .ok true
    else if toUpper text = ascii "FALSE" then .ok false
    else .error (.boolean key text)

def readLogLevel (values : StringMap) (key : Bytes) (result : LogLevel) : Except LoadError LogLevel :=
  match values[key]? with
  | none => .ok result
  | some text =>
    match parseLogLevel text with
    | none => .error (.logLevel key text)
    | some level => .ok level

def knownKeys : List Bytes :=
  [ascii "rpcserverip", ascii "rpcserverport", ascii "zookeeperip", ascii "zookeeperport",
    ascii "log_path", ascii "log_prefix", ascii "log_max_file_size", ascii "log_enable",
    ascii "rpc_log_level", ascii "app_log_level", ascii "log_sync_interval",
    ascii "log_sync_inteval", ascii "cor_stack_size", ascii "cor_pool_size", ascii "msg_req_len",
    ascii "max_connect_timeout", ascii "iothread_num", ascii "timewheel_bucket_num",
    ascii "timewheel_inteval"]

/-! ### Loading -/

/-- What `getline` reads one after the other; the last line may have no end. -/
def lines : Bytes → List Bytes
  | [] => []
  | c :: rest =>
    if c = byte '\n' then [] :: lines rest
    else
      match lines rest with
      | [] => [[c]]
      | line :: more => (c :: line) :: more

/-- The body of the loop. -/
def readLine (values : StringMap) (line : Bytes) : StringMap :=
  let line := trim line
  if line = [] ∨ line.head? = some (byte '#') then values
  else
    match find (ascii "=") line with
    | none => values
    | some separator =>
      let key := trim (line.take separator)
      let value := trim (line.drop (separator + 1))
      if key = [] then values else values.insert key value

def readLines (text : Bytes) : StringMap := (lines text).foldl readLine ∅

/-- The local variables. -/
structure Staged where
  rpcServerIp : Bytes
  zookeeperIp : Bytes
  logPath : Bytes
  logPrefix : Bytes
  logEnable : Bool
  rpcServerPort : Int
  zookeeperPort : Int
  logMaxFileSizeMb : Int
  logSyncInterval : Int
  corStackSize : Int
  corPoolSize : Int
  msgReqLen : Int
  maxConnectTimeout : Int
  iothreadNum : Int
  timewheelBucketNum : Int
  timewheelInterval : Int
  rpcLogLevel : LogLevel
  appLogLevel : LogLevel

def intMax : Int := 2147483647

def syncKey (values : StringMap) : Bytes :=
  if ascii "log_sync_interval" ∈ values then ascii "log_sync_interval" else ascii "log_sync_inteval"

def stage (config : Config) (values : StringMap) : Except LoadError Staged := do
  let rpcServerIp ← readString values (ascii "rpcserverip") config.rpcServerIp
  let zookeeperIp ← readString values (ascii "zookeeperip") config.zookeeperIp
  let logPath ← readString values (ascii "log_path") config.logPath
  let logPrefix ← readString values (ascii "log_prefix") config.logPrefix
  let logEnable ← readBoolean values (ascii "log_enable") config.logEnable
  let rpcServerPort ← readInteger values (ascii "rpcserverport") 1 65535 config.rpcServerPort
  let zookeeperPort ← readInteger values (ascii "zookeeperport") 1 65535 config.zookeeperPort
  let logMaxFileSizeMb ← readInteger values (ascii "log_max_file_size") 1 (intMax / (1024 * 1024))
    (config.logMaxFileSize / 1024 / 1024)
  let corStackSize ← readInteger values (ascii "cor_stack_size") 1 intMax config.corStackSize
  let corPoolSize ← readInteger values (ascii "cor_pool_size") 1 intMax config.corPoolSize
  let msgReqLen ← readInteger values (ascii "msg_req_len") 1 intMax config.msgReqLen
  let maxConnectTimeout ← readInteger values (ascii "max_connect_timeout") 1 intMax config.maxConnectTimeout
  let iothreadNum ← readInteger values (ascii "iothread_num") 1 intMax config.iothreadNum
  let timewheelBucketNum ← readInteger values (ascii "timewheel_bucket_num") 1 intMax config.timewheelBucketNum
  let timewheelInterval ← readInteger values (ascii "timewheel_inteval") 1 intMax config.timewheelInteval
  let logSyncInterval ← readInteger values (syncKey values) 1 intMax config.logSyncInterval
  let rpcLogLevel ← readLogLevel values (ascii "rpc_log_level") config.logLevel
  let appLogLevel ← readLogLevel values (ascii "app_log_level") config.appLogLevel
  pure ⟨rpcServerIp, zookeeperIp, logPath, logPrefix, logEnable, rpcServerPort, zookeeperPort,
    logMaxFileSizeMb, logSyncInterval, corStackSize, corPoolSize, msgReqLen, maxConnectTimeout,
    iothreadNum, timewheelBucketNum, timewheelInterval, rpcLogLevel, appLogLevel⟩

/-- `static_cast<uint16_t>`. -/
def uint16 (n : Int) : Int := n % 2 ^ 16

/-- `static_cast<int>`. -/
def toInt (n : Int) : Int := n.bmod (2 ^ 32)

/-- `static_cast<std::size_t>(mb) * 1024 * 1024`. -/
def megabytes (mb : Int) : Int := mb * 1024 * 1024 % 2 ^ 64

def commit (config : Config) (staged : Staged) : Config :=
  {config with
    rpcServerIp := staged.rpcServerIp
    rpcServerPort := uint16 staged.rpcServerPort
    zookeeperIp := staged.zookeeperIp
    zookeeperPort := uint16 staged.zookeeperPort
    logPath := staged.logPath
    logPrefix := staged.logPrefix
    logEnable := staged.logEnable
    logMaxFileSize := megabytes staged.logMaxFileSizeMb
    logLevel := staged.rpcLogLevel
    appLogLevel := staged.appLogLevel
    logSyncInterval := toInt staged.logSyncInterval
    corStackSize := toInt staged.corStackSize
    corPoolSize := toInt staged.corPoolSize
    msgReqLen := toInt staged.msgReqLen
    maxConnectTimeout := toInt staged.maxConnectTimeout
    iothreadNum := toInt staged.iothreadNum
    timewheelBucketNum := toInt staged.timewheelBucketNum
    timewheelInteval := toInt staged.timewheelInterval}

/-- The body of the loop over the values; each key comes once, so their order is of no account. -/
def keepExtra (extraValues : StringMap) (item : Bytes × Bytes) : StringMap :=
  if knownKeys.contains item.1 then extraValues else extraValues.insert item.1 item.2

/-- `loadFromFile`; `file` is what is in the file, if it can be opened. -/
def loadFromFile (config : Config) (file : Option Bytes) : Bool × Config :=
  if config.loaded then (false, config)
  else
    match file with
    | none => (false, config)
    | some text =>
      let values := readLines text
      match config.stage values with
      | .error _ => (false, config)
      | .ok staged =>
        (true, {config.commit staged with
          extraValues := values.toList.foldl keepExtra config.extraValues
          loaded := true})

def get (config : Config) (key : Bytes) : Bytes :=
  if key = ascii "rpcserverip" then config.rpcServerIp
  else if key = ascii "rpcserverport" then decimal config.rpcServerPort
  else if key = ascii "zookeeperip" then config.zookeeperIp
  else if key = ascii "zookeeperport" then decimal config.zookeeperPort
  else if key = ascii "log_path" then config.logPath
  else if key = ascii "log_prefix" then config.logPrefix
  else if key = ascii "log_enable" then if config.logEnable then ascii "true" else ascii "false"
  else if key = ascii "log_max_file_size" then decimal (config.logMaxFileSize / 1024 / 1024)
  else if key = ascii "rpc_log_level" then config.logLevel.toString
  else if key = ascii "app_log_level" then config.appLogLevel.toString
  else if key = ascii "log_sync_interval" ∨ key = ascii "log_sync_inteval" then decimal config.logSyncInterval
  else if key = ascii "cor_stack_size" then decimal config.corStackSize
  else if key = ascii "cor_pool_size" then decimal config.corPoolSize
  else if key = ascii "msg_req_len" then decimal config.msgReqLen
  else if key = ascii "max_connect_timeout" then decimal config.maxConnectTimeout
  else if key = ascii "iothread_num" then decimal config.iothreadNum
  else if key = ascii "timewheel_bucket_num" then decimal config.timewheelBucketNum
  else if key = ascii "timewheel_inteval" then decimal config.timewheelInteval
  else config.extraValues[key]?.getD []

end Config

end CoroutineRpc.Comm
