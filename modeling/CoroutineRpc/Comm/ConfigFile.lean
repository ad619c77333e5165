import CoroutineRpc.Comm.Config
import Mathlib.Data.List.Basic

/-! What a file says to a `Config`.

A line assigns to a key what stands behind its first `=`, unless it is a comment or the key is blank,
and an assignment counts if no later line assigns to its key. A new `Config` takes over all of what
counts, with the defaults for the rest, or nothing; and nothing only where a known key is assigned what it
cannot be (`loadFromFile_describes`). -/
namespace CoroutineRpc.Comm.Config
open Library.Search

def Assigns (line key value : Bytes) : Prop :=
  ∃ left right, trim line = left ++ byte '=' :: right ∧ byte '=' ∉ left ∧
    (trim line).head? ≠ some (byte '#') ∧ key = trim left ∧ key ≠ [] ∧ value = trim right

def AssignedLast (ls : List Bytes) (key value : Bytes) : Prop :=
  ∃ before line after, ls = before ++ line :: after ∧ Assigns line key value ∧
    ∀ l ∈ after, ∀ v, ¬ Assigns l key v

def Unassigned (ls : List Bytes) (key : Bytes) : Prop := ∀ l ∈ ls, ∀ v, ¬ Assigns l key v

/-- `value` is what the last assignment to `key` reads as, or the default if there is none. -/
def Describes {α : Type} (text key : Bytes) (reads : Bytes → α → Prop) (default value : α) : Prop :=
  (∀ v, AssignedLast (lines text) key v → reads v value) ∧
    (Unassigned (lines text) key → value = default)

/-! ### What a key may be assigned -/

/-- `strtoll` reads all of the C string as a number of the range. -/
def ReadsInteger (minimum maximum : Int) (text : Bytes) (n : Int) : Prop :=
  strtoll text = some (n, []) ∧ minimum ≤ n ∧ n ≤ maximum

def ReadsString (text value : Bytes) : Prop := text ≠ [] ∧ value = text

def ReadsBoolean (text : Bytes) (value : Bool) : Prop :=
  toUpper text = if value then ascii "TRUE" else ascii "FALSE"

def ReadsLogLevel (text : Bytes) (level : LogLevel) : Prop := toUpper text = level.toString

/-- A number of megabytes. -/
def ReadsSize (text : Bytes) (n : Int) : Prop :=
  ∃ mb, ReadsInteger 1 (intMax / (1024 * 1024)) text mb ∧ n = mb * 1024 * 1024

/-- `config` is what the file describes, over the defaults. -/
structure Loaded (text : Bytes) (config : Config) : Prop where
  rpcServerIp : Describes text (ascii "rpcserverip") ReadsString ({} : Config).rpcServerIp config.rpcServerIp
  rpcServerPort : Describes text (ascii "rpcserverport") (ReadsInteger 1 65535) ({} : Config).rpcServerPort
    config.rpcServerPort
  zookeeperIp : Describes text (ascii "zookeeperip") ReadsString ({} : Config).zookeeperIp config.zookeeperIp
  zookeeperPort : Describes text (ascii "zookeeperport") (ReadsInteger 1 65535) ({} : Config).zookeeperPort
    config.zookeeperPort
  logPath : Describes text (ascii "log_path") ReadsString ({} : Config).logPath config.logPath
  logPrefix : Describes text (ascii "log_prefix") ReadsString ({} : Config).logPrefix config.logPrefix
  logMaxFileSize : Describes text (ascii "log_max_file_size") ReadsSize ({} : Config).logMaxFileSize
    config.logMaxFileSize
  logEnable : Describes text (ascii "log_enable") ReadsBoolean ({} : Config).logEnable config.logEnable
  logLevel : Describes text (ascii "rpc_log_level") ReadsLogLevel ({} : Config).logLevel config.logLevel
  appLogLevel : Describes text (ascii "app_log_level") ReadsLogLevel ({} : Config).appLogLevel
    config.appLogLevel
  logSyncInterval : ∀ v, AssignedLast (lines text) (ascii "log_sync_interval") v →
    ReadsInteger 1 intMax v config.logSyncInterval
  /-- The misspelt key counts where the other is not assigned. -/
  logSyncInteval : Unassigned (lines text) (ascii "log_sync_interval") → Describes text
    (ascii "log_sync_inteval") (ReadsInteger 1 intMax) ({} : Config).logSyncInterval config.logSyncInterval
  corStackSize : Describes text (ascii "cor_stack_size") (ReadsInteger 1 intMax) ({} : Config).corStackSize
    config.corStackSize
  corPoolSize : Describes text (ascii "cor_pool_size") (ReadsInteger 1 intMax) ({} : Config).corPoolSize
    config.corPoolSize
  msgReqLen : Describes text (ascii "msg_req_len") (ReadsInteger 1 intMax) ({} : Config).msgReqLen
    config.msgReqLen
  maxConnectTimeout : Describes text (ascii "max_connect_timeout") (ReadsInteger 1 intMax)
    ({} : Config).maxConnectTimeout config.maxConnectTimeout
  iothreadNum : Describes text (ascii "iothread_num") (ReadsInteger 1 intMax) ({} : Config).iothreadNum
    config.iothreadNum
  timewheelBucketNum : Describes text (ascii "timewheel_bucket_num") (ReadsInteger 1 intMax)
    ({} : Config).timewheelBucketNum config.timewheelBucketNum
  timewheelInteval : Describes text (ascii "timewheel_inteval") (ReadsInteger 1 intMax)
    ({} : Config).timewheelInteval config.timewheelInteval
  loaded : config.loaded = true
  /-- `get` finds what is assigned to other keys, and nothing else. -/
  extra : ∀ key ∉ knownKeys, ∀ v, AssignedLast (lines text) key v → config.get key = v
  noExtra : ∀ key ∉ knownKeys, Unassigned (lines text) key → config.get key = []

/-! ### What the map holds -/

/-- The first `=` is where the key ends. -/
theorem find_separator {line left right : Bytes} (hcut : line = left ++ byte '=' :: right)
    (hleft : byte '=' ∉ left) :
    find (ascii "=") line = some left.length ∧ line.take left.length = left ∧
      line.drop (left.length + 1) = right := by
  subst hcut
  exact ⟨find_of_not_mem hleft right, List.take_left, by simp⟩

theorem Assigns.unique {line key value key' value' : Bytes} (h : Assigns line key value)
    (h' : Assigns line key' value') : key = key' ∧ value = value' := by
  obtain ⟨left, right, hcut, hleft, -, rfl, -, rfl⟩ := h
  obtain ⟨left', right', hcut', hleft', -, rfl, -, rfl⟩ := h'
  obtain ⟨hfind, htake, hdrop⟩ := find_separator hcut hleft
  obtain ⟨hfind', htake', hdrop'⟩ := find_separator hcut' hleft'
  have hlength := Option.some.inj (hfind.symm.trans hfind')
  rw [← htake, ← htake', ← hdrop, ← hdrop', hlength]
  exact ⟨rfl, rfl⟩

theorem readLine_of_assigns {line key value : Bytes} (h : Assigns line key value) (values : StringMap) :
    readLine values line = values.insert key value := by
  obtain ⟨left, right, hcut, hleft, hcomment, rfl, hkey, rfl⟩ := h
  obtain ⟨hfind, htake, hdrop⟩ := find_separator hcut hleft
  have hskip : ¬ (trim line = [] ∨ (trim line).head? = some (byte '#')) := by
    rintro (hnil | hhead)
    · rw [hcut] at hnil
      simp at hnil
    · exact hcomment hhead
  simp only [readLine, if_neg hskip, hfind, htake, hdrop, if_neg hkey]

theorem readLine_of_not_assigns {line : Bytes} (h : ∀ key value, ¬ Assigns line key value)
    (values : StringMap) : readLine values line = values := by
  simp only [readLine]
  split
  · rfl
  rename_i hskip
  split
  · rfl
  rename_i separator hfind
  split
  · rfl
  rename_i hkey
  -- otherwise the line is an assignment
  obtain ⟨-, ⟨right, hright⟩, -⟩ := find_eq_some.mp hfind
  have hcut : trim line = (trim line).take separator ++ byte '=' :: right := by
    conv_lhs => rw [← List.take_append_drop separator (trim line), ← hright]
    rfl
  have hfirst : byte '=' ∉ (trim line).take separator := by
    intro hmem
    obtain ⟨before, after, hsplit⟩ := List.append_of_mem hmem
    exact not_infix_take (by decide) hfind ⟨before, after, by rw [hsplit]; simp [ascii]⟩
  exact absurd ⟨_, right, hcut, hfirst, fun hhead => hskip (.inr hhead), rfl, hkey, rfl⟩ (h _ _)

theorem foldl_of_unassigned {ls : List Bytes} {key : Bytes} (h : Unassigned ls key) (values : StringMap) :
    (ls.foldl readLine values)[key]? = values[key]? := by
  induction ls generalizing values with
  | nil => rfl
  | cons line ls ih =>
    rw [List.foldl_cons, ih fun l hl => h l (List.mem_cons_of_mem _ hl)]
    by_cases hassigns : ∃ key' value, Assigns line key' value
    · obtain ⟨key', value, hassigns⟩ := hassigns
      have hne : key' ≠ key := fun heq => h line (List.mem_cons_self ..) value (heq ▸ hassigns)
      rw [readLine_of_assigns hassigns, Std.ExtTreeMap.getElem?_insert]
      exact if_neg (mt Std.LawfulEqCmp.compare_eq_iff_eq.mp hne)
    · rw [readLine_of_not_assigns fun key' value hline => hassigns ⟨key', value, hline⟩]

/-- **What a key is assigned last is what the map holds.** -/
theorem lookup_of_last {ls : List Bytes} {key value : Bytes} (h : AssignedLast ls key value)
    (values : StringMap) : (ls.foldl readLine values)[key]? = some value := by
  obtain ⟨before, line, after, rfl, hline, hafter⟩ := h
  rw [List.foldl_append, List.foldl_cons, foldl_of_unassigned hafter, readLine_of_assigns hline,
    Std.ExtTreeMap.getElem?_insert_self]

theorem last_or_unassigned (ls : List Bytes) (key : Bytes) :
    (∃ value, AssignedLast ls key value) ∨ Unassigned ls key := by
  induction ls with
  | nil => exact .inr nofun
  | cons line ls ih =>
    rcases ih with ⟨value, before, last, after, rfl, hlast, hafter⟩ | hnone
    · exact .inl ⟨value, line :: before, last, after, rfl, hlast, hafter⟩
    by_cases hline : ∃ value, Assigns line key value
    · obtain ⟨value, hline⟩ := hline
      exact .inl ⟨value, [], line, ls, rfl, hline, hnone⟩
    · refine .inr fun l hl => ?_
      rcases List.mem_cons.mp hl with rfl | hl
      · exact fun value hl => hline ⟨value, hl⟩
      · exact hnone l hl

theorem lookup_eq_some {text key value : Bytes} :
    (readLines text)[key]? = some value ↔ AssignedLast (lines text) key value := by
  refine ⟨fun h => ?_, fun h => lookup_of_last h ∅⟩
  rcases last_or_unassigned (lines text) key with ⟨last, hlast⟩ | hnone
  · have hheld := lookup_of_last hlast ∅
    rw [← readLines, h] at hheld
    exact Option.some.inj hheld ▸ hlast
  · rw [readLines, foldl_of_unassigned hnone] at h
    simp at h

theorem lookup_eq_none {text key : Bytes} :
    (readLines text)[key]? = none ↔ Unassigned (lines text) key := by
  refine ⟨fun h => ?_, fun h => by rw [readLines, foldl_of_unassigned h]; simp⟩
  rcases last_or_unassigned (lines text) key with ⟨last, hlast⟩ | hnone
  · rw [lookup_eq_some.mpr hlast] at h
    cases h
  · exact hnone

/-- A key described by what the map holds. -/
theorem describes_iff {α : Type} {text key : Bytes} {reads : Bytes → α → Prop} {default value : α} :
    Describes text key reads default value ↔
      match (readLines text)[key]? with
      | none => value = default
      | some v => reads v value := by
  unfold Describes
  simp only [← lookup_eq_some, ← lookup_eq_none]
  cases (readLines text)[key]? <;> simp

/-! ### What is read -/

theorem outOfRange_of_strtoll {text rest : Bytes} {n : Int} (h : strtoll text = some (n, rest))
    (hmin : -2 ^ 63 < n) (hmax : n < 2 ^ 63 - 1) : outOfRange text = false := by
  simp only [strtoll] at h
  split at h
  · cases h
  obtain ⟨hvalue, -⟩ := Prod.mk.inj (Option.some.inj h)
  simp only [outOfRange, cString]
  exact decide_eq_false (by omega)

theorem readInteger_ok {text key : Bytes} {minimum maximum result n : Int} (hmin : -2 ^ 63 < minimum)
    (hmax : maximum < 2 ^ 63 - 1) : readInteger (readLines text) key minimum maximum result = .ok n ↔
      Describes text key (ReadsInteger minimum maximum) result n := by
  rw [describes_iff, readInteger]
  cases (readLines text)[key]? with
  | none => simp [eq_comm]
  | some v =>
    dsimp only [ReadsInteger]
    cases hread : strtoll v with
    | none => simp
    | some read =>
      obtain ⟨parsed, rest⟩ := read
      dsimp only
      split
      · rename_i hrefused
        refine iff_of_false nofun ?_
        rintro ⟨heq, hlow, hhigh⟩
        obtain ⟨rfl, rfl⟩ := Prod.mk.inj (Option.some.inj heq)
        rw [outOfRange_of_strtoll hread (by omega) (by omega)] at hrefused
        simp at hrefused
        omega
      · rename_i htaken
        simp only [not_or, not_not, not_lt, gt_iff_lt] at htaken
        obtain ⟨-, rfl, hlow, hhigh⟩ := htaken
        constructor
        · intro heq
          obtain rfl := Except.ok.inj heq
          exact ⟨rfl, hlow, hhigh⟩
        · rintro ⟨heq, -, -⟩
          rw [(Prod.mk.inj (Option.some.inj heq)).1]

theorem readString_ok {text key result value : Bytes} :
    readString (readLines text) key result = .ok value ↔ Describes text key ReadsString result value := by
  rw [describes_iff, readString]
  cases (readLines text)[key]? with
  | none => simp [eq_comm]
  | some v =>
    dsimp only [ReadsString]
    by_cases hv : v = []
    · simp [hv]
    · simp [hv, eq_comm]

theorem readBoolean_ok {text key : Bytes} {result value : Bool} :
    readBoolean (readLines text) key result = .ok value ↔ Describes text key ReadsBoolean result value := by
  rw [describes_iff, readBoolean]
  cases (readLines text)[key]? with
  | none => simp [eq_comm]
  | some v =>
    have hdiffer : ascii "TRUE" ≠ ascii "FALSE" := by decide
    dsimp only [ReadsBoolean]
    by_cases htrue : toUpper v = ascii "TRUE"
    · cases value <;> simp [htrue, hdiffer]
    · by_cases hfalse : toUpper v = ascii "FALSE"
      · cases value <;> simp [hfalse, hdiffer.symm]
      · cases value <;> simp [htrue, hfalse]

theorem parseLogLevel_eq_some {text : Bytes} {level : LogLevel} :
    parseLogLevel text = some level ↔ ReadsLogLevel text level := by
  constructor
  · intro h
    simp only [parseLogLevel] at h
    split at h
    · exact Option.some.inj h ▸ ‹_›
    split at h
    · exact Option.some.inj h ▸ ‹_›
    split at h
    · exact Option.some.inj h ▸ ‹_›
    split at h
    · exact Option.some.inj h ▸ ‹_›
    split at h
    · exact Option.some.inj h ▸ ‹_›
    · cases h
  · intro h
    simp only [parseLogLevel, show toUpper text = level.toString from h]
    cases level <;> decide

theorem readLogLevel_ok {text key : Bytes} {result level : LogLevel} :
    readLogLevel (readLines text) key result = .ok level ↔ Describes text key ReadsLogLevel result level := by
  rw [describes_iff, readLogLevel]
  cases (readLines text)[key]? with
  | none => simp [eq_comm]
  | some v =>
    dsimp only
    rw [← parseLogLevel_eq_some]
    cases parseLogLevel v with
    | none => simp
    | some level => simp

/-! ### What is staged -/

theorem bind_eq_ok {ε α β : Type} {x : Except ε α} {f : α → Except ε β} {b : β} :
    x >>= f = .ok b ↔ ∃ a, x = .ok a ∧ f a = .ok b := by
  cases x with
  | error e => exact iff_of_false nofun fun ⟨_, h, _⟩ => nomatch h
  | ok a => exact ⟨fun h => ⟨a, rfl, h⟩, fun ⟨_, h, hb⟩ => Except.ok.inj h ▸ hb⟩

/-- Every local variable was read. -/
structure Staged.Read (config : Config) (values : StringMap) (staged : Staged) : Prop where
  rpcServerIp : readString values (ascii "rpcserverip") config.rpcServerIp = .ok staged.rpcServerIp
  zookeeperIp : readString values (ascii "zookeeperip") config.zookeeperIp = .ok staged.zookeeperIp
  logPath : readString values (ascii "log_path") config.logPath = .ok staged.logPath
  logPrefix : readString values (ascii "log_prefix") config.logPrefix = .ok staged.logPrefix
  logEnable : readBoolean values (ascii "log_enable") config.logEnable = .ok staged.logEnable
  rpcServerPort : readInteger values (ascii "rpcserverport") 1 65535 config.rpcServerPort =
    .ok staged.rpcServerPort
  zookeeperPort : readInteger values (ascii "zookeeperport") 1 65535 config.zookeeperPort =
    .ok staged.zookeeperPort
  logMaxFileSizeMb : readInteger values (ascii "log_max_file_size") 1 (intMax / (1024 * 1024))
    (config.logMaxFileSize / 1024 / 1024) = .ok staged.logMaxFileSizeMb
  corStackSize : readInteger values (ascii "cor_stack_size") 1 intMax config.corStackSize =
    .ok staged.corStackSize
  corPoolSize : readInteger values (ascii "cor_pool_size") 1 intMax config.corPoolSize = .ok staged.corPoolSize
  msgReqLen : readInteger values (ascii "msg_req_len") 1 intMax config.msgReqLen = .ok staged.msgReqLen
  maxConnectTimeout : readInteger values (ascii "max_connect_timeout") 1 intMax config.maxConnectTimeout =
    .ok staged.maxConnectTimeout
  iothreadNum : readInteger values (ascii "iothread_num") 1 intMax config.iothreadNum = .ok staged.iothreadNum
  timewheelBucketNum : readInteger values (ascii "timewheel_bucket_num") 1 intMax config.timewheelBucketNum =
    .ok staged.timewheelBucketNum
  timewheelInterval : readInteger values (ascii "timewheel_inteval") 1 intMax config.timewheelInteval =
    .ok staged.timewheelInterval
  logSyncInterval : readInteger values (syncKey values) 1 intMax config.logSyncInterval =
    .ok staged.logSyncInterval
  rpcLogLevel : readLogLevel values (ascii "rpc_log_level") config.logLevel = .ok staged.rpcLogLevel
  appLogLevel : readLogLevel values (ascii "app_log_level") config.appLogLevel = .ok staged.appLogLevel

theorem stage_ok {config : Config} {values : StringMap} {staged : Staged} :
    config.stage values = .ok staged ↔ staged.Read config values := by
  constructor
  · intro h
    simp only [stage, bind_eq_ok] at h
    obtain ⟨_, h1, _, h2, _, h3, _, h4, _, h5, _, h6, _, h7, _, h8, _, h9, _, h10, _, h11, _, h12, _, h13,
      _, h14, _, h15, _, h16, _, h17, _, h18, hstaged⟩ := h
    obtain rfl := Except.ok.inj hstaged
    exact ⟨h1, h2, h3, h4, h5, h6, h7, h8, h9, h10, h11, h12, h13, h14, h15, h16, h17, h18⟩
  · intro h
    simp only [stage, bind_eq_ok]
    exact ⟨_, h.rpcServerIp, _, h.zookeeperIp, _, h.logPath, _, h.logPrefix, _, h.logEnable,
      _, h.rpcServerPort, _, h.zookeeperPort, _, h.logMaxFileSizeMb, _, h.corStackSize, _, h.corPoolSize,
      _, h.msgReqLen, _, h.maxConnectTimeout, _, h.iothreadNum, _, h.timewheelBucketNum,
      _, h.timewheelInterval, _, h.logSyncInterval, _, h.rpcLogLevel, _, h.appLogLevel, rfl⟩

/-- The key that counts is there, or the misspelt one is read. -/
theorem readSync_ok {text : Bytes} {result n : Int} :
    readInteger (readLines text) (syncKey (readLines text)) 1 intMax result = .ok n ↔
      (∀ v, AssignedLast (lines text) (ascii "log_sync_interval") v → ReadsInteger 1 intMax v n) ∧
        (Unassigned (lines text) (ascii "log_sync_interval") →
          Describes text (ascii "log_sync_inteval") (ReadsInteger 1 intMax) result n) := by
  have hread : ∀ key, readInteger (readLines text) key 1 intMax result = .ok n ↔
      Describes text key (ReadsInteger 1 intMax) result n := fun key => readInteger_ok (by decide) (by decide)
  simp only [← lookup_eq_some, ← lookup_eq_none]
  by_cases hkey : ascii "log_sync_interval" ∈ readLines text
  · obtain ⟨v, hv⟩ : ∃ v, (readLines text)[ascii "log_sync_interval"]? = some v :=
      Option.isSome_iff_exists.mp (Std.ExtTreeMap.isSome_getElem?_iff_mem.mpr hkey)
    rw [syncKey, if_pos hkey, hread, describes_iff, hv]
    simp
  · rw [syncKey, if_neg hkey, hread, Std.ExtTreeMap.getElem?_eq_none hkey]
    simp

/-! ### What is kept of other keys -/

theorem foldl_keepExtra_of_not_mem {l : List (Bytes × Bytes)} {key : Bytes} (h : key ∉ l.map Prod.fst)
    (extraValues : StringMap) : (l.foldl keepExtra extraValues)[key]? = extraValues[key]? := by
  induction l generalizing extraValues with
  | nil => rfl
  | cons item l ih =>
    obtain ⟨hne, hrest⟩ := not_or.mp (mt List.mem_cons.mpr h)
    rw [List.foldl_cons, ih hrest, keepExtra]
    split
    · rfl
    · rw [Std.ExtTreeMap.getElem?_insert]
      exact if_neg (mt Std.LawfulEqCmp.compare_eq_iff_eq.mp (Ne.symm hne))

/-- Each key of a map comes once. -/
theorem nodup_keys (values : StringMap) : (values.toList.map Prod.fst).Nodup := by
  rw [List.Nodup, List.pairwise_map]
  exact values.distinct_keys_toList.imp fun hne heq => hne (Std.LawfulEqCmp.compare_eq_iff_eq.mpr heq)

theorem lookup_keepExtra (values : StringMap) {key : Bytes} (hkey : key ∉ knownKeys) :
    (values.toList.foldl keepExtra ∅)[key]? = values[key]? := by
  cases hvalue : values[key]? with
  | none =>
    rw [foldl_keepExtra_of_not_mem, Std.ExtTreeMap.getElem?_empty]
    intro hmem
    obtain ⟨⟨_, v⟩, hitem, rfl⟩ := List.mem_map.mp hmem
    rw [Std.ExtTreeMap.mem_toList_iff_getElem?_eq_some.mp hitem] at hvalue
    cases hvalue
  | some v =>
    obtain ⟨before, after, hsplit⟩ :=
      List.append_of_mem (Std.ExtTreeMap.mem_toList_iff_getElem?_eq_some.mpr hvalue)
    have hnodup := nodup_keys values
    rw [hsplit, List.map_append, List.map_cons, List.nodup_append, List.nodup_cons] at hnodup
    rw [hsplit, List.foldl_append, List.foldl_cons, foldl_keepExtra_of_not_mem hnodup.2.1.1, keepExtra,
      if_neg (mt List.contains_iff_mem.mp hkey), Std.ExtTreeMap.getElem?_insert_self]

theorem get_of_not_known {config : Config} {key : Bytes} (hkey : key ∉ knownKeys) :
    config.get key = config.extraValues[key]?.getD [] := by
  simp only [knownKeys, List.mem_cons, List.not_mem_nil, or_false, not_or] at hkey
  simp only [get, hkey, if_false, or_self]

/-! ### What is loaded -/

theorem Describes.bounds {text key : Bytes} {minimum maximum default n : Int}
    (h : Describes text key (ReadsInteger minimum maximum) default n)
    (hdefault : minimum ≤ default ∧ default ≤ maximum) : minimum ≤ n ∧ n ≤ maximum := by
  rcases last_or_unassigned (lines text) key with ⟨v, hlast⟩ | hnone
  · exact (h.1 v hlast).2
  · rw [h.2 hnone]
    exact hdefault

theorem uint16_eq {n : Int} (h : 1 ≤ n ∧ n ≤ 65535) : uint16 n = n :=
  Int.emod_eq_of_lt (by omega) (by omega)

theorem toInt_eq {n : Int} (h : 1 ≤ n ∧ n ≤ intMax) : toInt n = n := by
  have hmax : n ≤ 2147483647 := h.2
  exact Int.bmod_eq_of_le (by omega) (by omega)

theorem megabytes_eq {mb : Int} (h : 1 ≤ mb ∧ mb ≤ intMax / (1024 * 1024)) :
    megabytes mb = mb * 1024 * 1024 := by
  have hmax : mb ≤ 2147483647 / (1024 * 1024) := h.2
  exact Int.emod_eq_of_lt (by omega) (by omega)

/-- A port is not changed by its type, nor an `int` by its. -/
theorem describes_port {text key : Bytes} {default n : Int}
    (h : readInteger (readLines text) key 1 65535 default = .ok n)
    (hdefault : 1 ≤ default ∧ default ≤ 65535) :
    Describes text key (ReadsInteger 1 65535) default (uint16 n) := by
  have hreads := (readInteger_ok (by decide) (by decide)).mp h
  rwa [uint16_eq (hreads.bounds hdefault)]

theorem describes_int {text key : Bytes} {default n : Int}
    (h : readInteger (readLines text) key 1 intMax default = .ok n)
    (hdefault : 1 ≤ default ∧ default ≤ intMax) :
    Describes text key (ReadsInteger 1 intMax) default (toInt n) := by
  have hreads := (readInteger_ok (by decide) (by decide)).mp h
  rwa [toInt_eq (hreads.bounds hdefault)]

theorem describes_size {text key : Bytes} {default n : Int}
    (h : readInteger (readLines text) key 1 (intMax / (1024 * 1024)) default = .ok n)
    (hdefault : 1 ≤ default ∧ default ≤ intMax / (1024 * 1024)) :
    Describes text key ReadsSize (default * 1024 * 1024) (megabytes n) := by
  have hreads := (readInteger_ok (by decide) (by decide)).mp h
  rw [megabytes_eq (hreads.bounds hdefault)]
  exact ⟨fun v hv => ⟨n, hreads.1 v hv, rfl⟩, fun hnone => by rw [hreads.2 hnone]⟩

/-- What `loadFromFile` makes of a new `Config`. -/
def afterLoad (text : Bytes) (staged : Staged) : Config :=
  {commit {} staged with
    extraValues := (readLines text).toList.foldl keepExtra ∅
    loaded := true}

theorem loaded_of_read {text : Bytes} {staged : Staged} (h : staged.Read {} (readLines text)) :
    Loaded text (afterLoad text staged) where
  rpcServerIp := readString_ok.mp h.rpcServerIp
  rpcServerPort := describes_port h.rpcServerPort (by decide)
  zookeeperIp := readString_ok.mp h.zookeeperIp
  zookeeperPort := describes_port h.zookeeperPort (by decide)
  logPath := readString_ok.mp h.logPath
  logPrefix := readString_ok.mp h.logPrefix
  logMaxFileSize := describes_size h.logMaxFileSizeMb (by decide)
  logEnable := readBoolean_ok.mp h.logEnable
  logLevel := readLogLevel_ok.mp h.rpcLogLevel
  appLogLevel := readLogLevel_ok.mp h.appLogLevel
  logSyncInterval := by
    have hread := h.logSyncInterval
    have hbounds := ((readInteger_ok (by decide) (by decide)).mp hread).bounds (by decide)
    show ∀ v, AssignedLast (lines text) _ v → ReadsInteger 1 intMax v (toInt staged.logSyncInterval)
    rw [toInt_eq hbounds]
    exact (readSync_ok.mp hread).1
  logSyncInteval := by
    have hread := h.logSyncInterval
    have hbounds := ((readInteger_ok (by decide) (by decide)).mp hread).bounds (by decide)
    show _ → Describes text _ _ _ (toInt staged.logSyncInterval)
    rw [toInt_eq hbounds]
    exact (readSync_ok.mp hread).2
  corStackSize := describes_int h.corStackSize (by decide)
  corPoolSize := describes_int h.corPoolSize (by decide)
  msgReqLen := describes_int h.msgReqLen (by decide)
  maxConnectTimeout := describes_int h.maxConnectTimeout (by decide)
  iothreadNum := describes_int h.iothreadNum (by decide)
  timewheelBucketNum := describes_int h.timewheelBucketNum (by decide)
  timewheelInteval := describes_int h.timewheelInterval (by decide)
  loaded := rfl
  extra key hkey v hlast := by
    rw [get_of_not_known hkey]
    show ((readLines text).toList.foldl keepExtra ∅)[key]?.getD [] = v
    rw [lookup_keepExtra _ hkey, lookup_eq_some.mpr hlast]
    rfl
  noExtra key hkey hnone := by
    rw [get_of_not_known hkey]
    show ((readLines text).toList.foldl keepExtra ∅)[key]?.getD [] = []
    rw [lookup_keepExtra _ hkey, lookup_eq_none.mpr hnone]
    rfl

/-- What a file describes can be read from it. -/
theorem Loaded.read {text : Bytes} {config : Config} (h : Loaded text config) :
    ∃ staged : Staged, staged.Read {} (readLines text) := by
  refine ⟨⟨config.rpcServerIp, config.zookeeperIp, config.logPath, config.logPrefix, config.logEnable,
    config.rpcServerPort, config.zookeeperPort, config.logMaxFileSize / 1024 / 1024, config.logSyncInterval,
    config.corStackSize, config.corPoolSize, config.msgReqLen, config.maxConnectTimeout, config.iothreadNum,
    config.timewheelBucketNum, config.timewheelInteval, config.logLevel, config.appLogLevel⟩, ?_⟩
  have hsize : Describes text (ascii "log_max_file_size") (ReadsInteger 1 (intMax / (1024 * 1024)))
      (({} : Config).logMaxFileSize / 1024 / 1024) (config.logMaxFileSize / 1024 / 1024) := by
    refine ⟨fun v hv => ?_, fun hnone => by rw [h.logMaxFileSize.2 hnone]⟩
    obtain ⟨mb, hreads, heq⟩ := h.logMaxFileSize.1 v hv
    rwa [show config.logMaxFileSize / 1024 / 1024 = mb by omega]
  have hint : ∀ {key : Bytes} {default n : Int}, Describes text key (ReadsInteger 1 intMax) default n →
      readInteger (readLines text) key 1 intMax default = .ok n :=
    fun hdescribes => (readInteger_ok (by decide) (by decide)).mpr hdescribes
  exact {
    rpcServerIp := readString_ok.mpr h.rpcServerIp
    zookeeperIp := readString_ok.mpr h.zookeeperIp
    logPath := readString_ok.mpr h.logPath
    logPrefix := readString_ok.mpr h.logPrefix
    logEnable := readBoolean_ok.mpr h.logEnable
    rpcServerPort := (readInteger_ok (by decide) (by decide)).mpr h.rpcServerPort
    zookeeperPort := (readInteger_ok (by decide) (by decide)).mpr h.zookeeperPort
    logMaxFileSizeMb := (readInteger_ok (by decide) (by decide)).mpr hsize
    corStackSize := hint h.corStackSize
    corPoolSize := hint h.corPoolSize
    msgReqLen := hint h.msgReqLen
    maxConnectTimeout := hint h.maxConnectTimeout
    iothreadNum := hint h.iothreadNum
    timewheelBucketNum := hint h.timewheelBucketNum
    timewheelInterval := hint h.timewheelInteval
    logSyncInterval := readSync_ok.mpr ⟨h.logSyncInterval, h.logSyncInteval⟩
    rpcLogLevel := readLogLevel_ok.mpr h.logLevel
    appLogLevel := readLogLevel_ok.mpr h.appLogLevel}

theorem loadFromFile_cases (text : Bytes) :
    (loadFromFile {} (some text) = (false, {}) ∧ ¬ ∃ staged : Staged, staged.Read {} (readLines text)) ∨
      ∃ staged : Staged, staged.Read {} (readLines text) ∧
        loadFromFile {} (some text) = (true, afterLoad text staged) := by
  cases hstage : stage {} (readLines text) with
  | error e =>
    refine .inl ⟨?_, fun ⟨staged, hread⟩ => ?_⟩
    · simp only [loadFromFile, hstage]
      rfl
    · rw [stage_ok.mpr hread] at hstage
      cases hstage
  | ok staged =>
    refine .inr ⟨staged, stage_ok.mp hstage, ?_⟩
    simp only [loadFromFile, hstage]
    rfl

theorem loaded_of_true {text : Bytes} {config : Config} (h : loadFromFile {} (some text) = (true, config)) :
    Loaded text config := by
  rcases loadFromFile_cases text with ⟨hfalse, -⟩ | ⟨staged, hread, htrue⟩
  · rw [h] at hfalse
    cases hfalse
  · obtain rfl := (Prod.mk.inj (h.symm.trans htrue)).2
    exact loaded_of_read hread

/-- **All or nothing**: a new `Config` is left as it is where the file describes nothing, and otherwise
it is what the file describes. -/
theorem loadFromFile_describes (text : Bytes) :
    (loadFromFile {} (some text) = (false, {}) ∧ ¬ ∃ config, Loaded text config) ∨
      ∃ config, loadFromFile {} (some text) = (true, config) ∧ Loaded text config := by
  rcases loadFromFile_cases text with ⟨hfalse, hnot⟩ | ⟨staged, hread, htrue⟩
  · exact .inl ⟨hfalse, fun ⟨config, hloaded⟩ => hnot hloaded.read⟩
  · exact .inr ⟨_, htrue, loaded_of_read hread⟩

end CoroutineRpc.Comm.Config
