import CoroutineRpc.Comm.ConfigFile
import CoroutineRpc.Library.PosixPath
import CoroutineRpc.Library.Template

/-! The configuration that is generated with a project, and what a server reads of it.

The generator fills a template and the server's `Config` loads the file: two programs that agree on a
format. For each file of each mode the values that were asked for are the values of the server, and the
others are the built-in ones, exactly if the ports are ports, the log directory is one line, the prefix
is a line without blanks around it, and neither looks like a place of the template
(`conf_loaded`). -/
namespace CoroutineRpc.Scripts
open Comm Comm.Config Library.PosixPath Library.Template

/-! ### The generator -/

inductive Mode where
  | rpc (proto : Path) (providerPort : Int)
  | http (port : Int)
  | asyncHttp (proto : Path) (serverPort backendPort : Int)

/-- The arguments that `write_conf` is called with or that they are made of. -/
structure Args where
  mode : Mode
  output : Path
  name : Option (List Char)
  zkPort : Int

/-- `args.name or ...`. -/
def Args.project (args : Args) : List Char :=
  match args.name with
  | some (c :: name) => c :: name
  | _ =>
    match args.mode with
    | .rpc proto _ | .asyncHttp proto _ _ => stem (basename proto)
    | .http _ => "demo".toList

def Args.projDir (args : Args) : Path := join args.output args.project

/-- The calls of `write_conf`: `conf_name` and `port`. -/
def Args.confs (args : Args) : List (List Char × Int) :=
  match args.mode with
  | .rpc _ providerPort => [(args.project ++ ".conf".toList, providerPort)]
  | .http port => [(args.project ++ ".conf".toList, port)]
  | .asyncHttp _ serverPort backendPort =>
    [(args.project ++ "_backend.conf".toList, backendPort), (args.project ++ "_server.conf".toList, serverPort)]

def posixPath (path : Path) : Path := path.map fun c => if c = '\\' then '/' else c

def str (n : Int) : List Char := n.repr.toList

/-- The text, or the places that are left in it. -/
def render (template : List Piece) (mapping : List Char → Option (List Char)) :
    Except (List (List Char)) (List Char) :=
  let text := safeSubstitute mapping (source template)
  let rest := places text
  if rest = [] then .ok text else .error rest

/-- The lines of `common/conf.ini.template`. -/
def confLines : List (List Piece) :=
  [[.text "# Generated by coroutine_rpc coroutine_rpc_generator.py".toList],
    [.text "# Create Time: ".toList, .value "CREATE_TIME".toList],
    [.text "# RPC 服务监听地址".toList],
    [.text "rpcserverip=127.0.0.1".toList],
    [.text "rpcserverport=".toList, .value "CONF_PORT".toList],
    [],
    [.text "# ZooKeeper 地址".toList],
    [.text "zookeeperip=127.0.0.1".toList],
    [.text "zookeeperport=".toList, .value "ZK_PORT".toList],
    [],
    [.text "# 日志输出目录（生成器写入绝对路径，固定到 <工程>/build/bin/log，与启动目录无关）".toList],
    [.text "log_path=".toList, .value "LOG_PATH".toList],
    [.text "log_prefix=".toList, .value "LOG_PREFIX".toList],
    [.text "log_max_file_size=5".toList],
    [.text "log_enable=true".toList],
    [.text "rpc_log_level=DEBUG".toList],
    [.text "app_log_level=DEBUG".toList],
    [.text "log_sync_interval=500".toList],
    [],
    [.text "# 框架 IO 线程数".toList],
    [.text "iothread_num=".toList, .value "IO_THREAD_NUM".toList]]

def confTemplate : List Piece := confLines.flatMap fun line => line ++ [.text ['\n']]

def logPrefix (project confName : List Char) : List Char :=
  let stem := confName.take (confName.length - ".conf".toList.length)
  if project ++ ['_'] <+: stem then stem else project

def logPath (cwd projDir : Path) : Path :=
  posixPath (abspath cwd (join (join (join projDir "build".toList) "bin".toList) "log".toList))

def confMapping (now path logPrefix : List Char) (port zkPort : Int) (key : List Char) : Option (List Char) :=
  if key = "CREATE_TIME".toList then some now
  else if key = "CONF_PORT".toList then some (str port)
  else if key = "ZK_PORT".toList then some (str zkPort)
  else if key = "LOG_PATH".toList then some path
  else if key = "LOG_PREFIX".toList then some logPrefix
  else if key = "IO_THREAD_NUM".toList then some "4".toList
  else none

/-- What `write_conf` writes. -/
def writeConf (now : List Char) (cwd : Path) (args : Args) (confName : List Char) (port : Int) :
    Except (List (List Char)) (List Char) :=
  render confTemplate
    (confMapping now (logPath cwd args.projDir) (logPrefix args.project confName) port args.zkPort)

/-- `encoding="utf-8"`. -/
def utf8 (text : List Char) : Bytes := text.flatMap fun c => (String.utf8EncodeChar c).map UInt8.toBitVec

/-! ### Bytes -/

theorem utf8_append (a b : List Char) : utf8 (a ++ b) = utf8 a ++ utf8 b := List.flatMap_append

theorem utf8_cons (c : Char) (text : List Char) : utf8 (c :: text) = utf8 [c] ++ utf8 text := utf8_append [c] text

theorem utf8_char {c : Char} (h : c.toNat < 128) : utf8 [c] = [byte c] := by
  have hval : c.val.toNat ≤ 0x7f := Nat.le_of_lt_succ h
  rw [utf8, List.flatMap_singleton, String.utf8EncodeChar, if_pos hval]
  rfl

theorem utf8_ascii {text : List Char} (h : (text.all fun c => c.toNat < 128) = true) :
    utf8 text = text.map byte := by
  induction text with
  | nil => rfl
  | cons c text ih =>
    rw [List.all_cons, Bool.and_eq_true, decide_eq_true_eq] at h
    rw [utf8_cons, utf8_char h.1, ih h.2]
    rfl

/-- A byte below 128 is a character of its own. -/
theorem mem_utf8 {text : List Char} {b : Byte} (h : b ∈ utf8 text) (hb : b.toNat < 128) :
    ∃ c ∈ text, c.toNat = b.toNat := by
  obtain ⟨c, hc, hmem⟩ := List.mem_flatMap.mp h
  obtain ⟨u, hu, rfl⟩ := List.mem_map.mp hmem
  have hsize : ∀ n, (UInt8.ofNat n).toBitVec.toNat = n % 256 := fun n => rfl
  refine ⟨c, hc, ?_⟩
  show c.val.toNat = _
  rw [String.utf8EncodeChar] at hu
  split at hu
  · rw [List.mem_singleton.mp hu, hsize]
    omega
  -- every byte of the longer ones has its highest bit
  split at hu
  · simp only [List.mem_cons, List.not_mem_nil, or_false] at hu
    rcases hu with rfl | rfl
    all_goals
      rw [hsize] at hb
      omega
  split at hu
  · simp only [List.mem_cons, List.not_mem_nil, or_false] at hu
    rcases hu with rfl | rfl | rfl
    all_goals
      rw [hsize] at hb
      omega
  · simp only [List.mem_cons, List.not_mem_nil, or_false] at hu
    rcases hu with rfl | rfl | rfl | rfl
    all_goals
      rw [hsize] at hb
      omega

theorem utf8_ne_nil {text : List Char} (h : text ≠ []) : utf8 text ≠ [] := by
  obtain ⟨c, rest, rfl⟩ := List.exists_cons_of_ne_nil h
  rw [utf8_cons, utf8, List.flatMap_singleton]
  exact List.append_ne_nil_of_left_ne_nil (mt List.map_eq_nil_iff.mp String.utf8EncodeChar_ne_nil) _

theorem newline_mem_utf8 {text : List Char} : byte '\n' ∈ utf8 text ↔ '\n' ∈ text := by
  constructor
  · intro h
    obtain ⟨c, hc, heq⟩ := mem_utf8 h (by decide)
    rwa [show c = '\n' from Char.toNat_inj.mp heq] at hc
  · intro h
    obtain ⟨before, after, rfl⟩ := List.append_of_mem h
    rw [utf8_append, utf8_cons, utf8_char (by decide)]
    exact List.mem_append_right _ (List.mem_cons_self ..)

/-! ### Lines and entries -/

theorem lines_cons {line : Bytes} (h : byte '\n' ∉ line) (rest : Bytes) :
    lines (line ++ byte '\n' :: rest) = line :: lines rest := by
  induction line with
  | nil => rw [List.nil_append, lines, if_pos rfl]
  | cons c line ih =>
    obtain ⟨hc, hline⟩ := not_or.mp (mt List.mem_cons.mpr h)
    rw [List.cons_append, lines, if_neg (Ne.symm hc), ih hline]

theorem not_mem_of_mem_lines {text line : Bytes} (h : line ∈ lines text) : byte '\n' ∉ line := by
  induction text generalizing line with
  | nil => cases h
  | cons c text ih =>
    rw [lines] at h
    split at h
    · rcases List.mem_cons.mp h with rfl | h
      · exact List.not_mem_nil
      · exact ih h
    · rename_i hc
      split at h
      · rw [List.mem_singleton.mp h]
        exact mt List.mem_singleton.mp (Ne.symm hc)
      · rename_i first more hlines
        rcases List.mem_cons.mp h with rfl | h
        · exact fun hmem => (List.mem_cons.mp hmem).elim (Ne.symm hc) (ih (by simp [hlines]))
        · exact ih (by simp [hlines, h])

/-- Blanks at neither end. -/
def Trimmed (value : Bytes) : Prop := trim value = value

/-- A key as it is written. -/
def IsKey (key : Bytes) : Prop :=
  key ≠ [] ∧ (key.all fun c => decide (c ≠ byte '=') && ! isBlank c) = true ∧ key.head? ≠ some (byte '#')

instance : DecidablePred Trimmed := fun value => inferInstanceAs (Decidable (trim value = value))

instance : DecidablePred IsKey := fun _ => inferInstanceAs (Decidable (_ ∧ _))

/-- Lines of which each is of no account or assigns to a key. -/
inductive Says : List Bytes → List (Bytes × Bytes) → Prop
  | nil : Says [] []
  | skip {line : Bytes} {ls : List Bytes} {entries : List (Bytes × Bytes)}
      (hskip : ∀ values, readLine values line = values) (hrest : Says ls entries) : Says (line :: ls) entries
  | entry {key value : Bytes} {ls : List Bytes} {entries : List (Bytes × Bytes)} (hkey : IsKey key)
      (hvalue : Trimmed value) (hrest : Says ls entries) :
      Says ((key ++ byte '=' :: value) :: ls) ((key, value) :: entries)

theorem trimmed_iff {value : Bytes} : Trimmed value ↔
    (∀ c ∈ value.head?, isBlank c = false) ∧ ∀ c ∈ value.getLast?, isBlank c = false := by
  constructor
  · intro h
    have hlast : ∀ c ∈ value.getLast?, isBlank c = false := by
      intro c hc
      rw [← show trim value = value from h, trim] at hc
      obtain ⟨hne, rfl⟩ := List.mem_getLast?_eq_getLast hc
      exact Bool.eq_false_iff.mpr (List.rdropWhile_last_not _ _ hne)
    refine ⟨fun c hc => ?_, hlast⟩
    obtain ⟨rest, rfl⟩ := List.head?_eq_some_iff.mp hc
    refine Bool.eq_false_iff.mpr fun hblank => ?_
    have hlength : (trim (c :: rest)).length ≤ rest.length := by
      rw [trim, List.dropWhile_cons_of_pos hblank]
      exact (List.rdropWhile_prefix _ _).length_le.trans (List.dropWhile_suffix _).length_le
    rw [show trim (c :: rest) = c :: rest from h, List.length_cons] at hlength
    omega
  · rintro ⟨hhead, hlast⟩
    have hdrop : value.dropWhile isBlank = value := by
      cases value with
      | nil => rfl
      | cons c rest => exact List.dropWhile_cons_of_neg (by simp [hhead c rfl])
    rw [Trimmed, trim, hdrop, List.rdropWhile_eq_self_iff]
    intro hne
    simp [hlast _ (List.getLast?_eq_some_getLast hne)]

theorem assigns_entry {key value : Bytes} (hkey : IsKey key) (hvalue : Trimmed value) :
    Assigns (key ++ byte '=' :: value) key value := by
  obtain ⟨hne, hclean, hcomment⟩ := hkey
  obtain ⟨c, rest, rfl⟩ := List.exists_cons_of_ne_nil hne
  have hboth : ∀ d ∈ c :: rest, d ≠ byte '=' ∧ isBlank d = false := fun d hd => by
    simpa using List.all_eq_true.mp hclean d hd
  have hsep : byte '=' ∉ c :: rest := fun hmem => (hboth _ hmem).1 rfl
  have hclear : ∀ d ∈ c :: rest, isBlank d = false := fun d hd => (hboth d hd).2
  have hkeyTrimmed : trim (c :: rest) = c :: rest :=
    trimmed_iff.mpr ⟨fun d hd => hclear d (List.mem_of_head? hd), fun d hd => hclear d (List.mem_of_getLast? hd)⟩
  have hline : trim (c :: rest ++ byte '=' :: value) = c :: rest ++ byte '=' :: value := by
    refine trimmed_iff.mpr ⟨fun d hd => hclear d ?_, fun d hd => ?_⟩
    · rw [List.cons_append, List.head?_cons, Option.mem_some_iff] at hd
      exact hd ▸ List.mem_cons_self ..
    · rw [List.getLast?_append, List.getLast?_cons, Option.some_or, Option.mem_some_iff] at hd
      cases hlast : value.getLast? with
      | none =>
        rw [hlast] at hd
        exact hd ▸ (by decide)
      | some last =>
        rw [hlast] at hd
        exact hd ▸ (trimmed_iff.mp hvalue).2 last hlast
  rw [Assigns, hline]
  exact ⟨c :: rest, value, rfl, hsep, hcomment, hkeyTrimmed.symm, hne, Eq.symm hvalue⟩

theorem readLine_comment (values : StringMap) (rest : Bytes) : readLine values (byte '#' :: rest) = values := by
  refine readLine_of_not_assigns (fun key value h => ?_) values
  obtain ⟨left, right, hcut, -, hcomment, -⟩ := h
  refine hcomment ?_
  have hdrop : (byte '#' :: rest).dropWhile isBlank = byte '#' :: rest := List.dropWhile_cons_of_neg (by decide)
  have hne : trim (byte '#' :: rest) ≠ [] := by
    rw [hcut]
    simp
  have hstem : trim (byte '#' :: rest) <+: byte '#' :: rest := by
    rw [trim, hdrop]
    exact List.rdropWhile_prefix _ _
  obtain ⟨c, more, hcons⟩ := List.exists_cons_of_ne_nil hne
  rw [hcons] at hstem
  rw [hcons, (List.cons_prefix_cons.mp hstem).1]
  rfl

theorem Says.lookup_none {ls : List Bytes} {entries : List (Bytes × Bytes)} (h : Says ls entries) {key : Bytes}
    (hkey : key ∉ entries.map Prod.fst) (values : StringMap) : (ls.foldl readLine values)[key]? = values[key]? := by
  induction h generalizing values with
  | nil => rfl
  | skip hskip _ ih => rw [List.foldl_cons, hskip, ih hkey]
  | entry hfirst hvalue _ ih =>
    obtain ⟨hne, hrest⟩ := not_or.mp (mt List.mem_cons.mpr hkey)
    rw [List.foldl_cons, ih hrest, readLine_of_assigns (assigns_entry hfirst hvalue), Std.ExtTreeMap.getElem?_insert]
    exact if_neg (mt Std.LawfulEqCmp.compare_eq_iff_eq.mp (Ne.symm hne))

/-- Where no key comes twice each has its value. -/
theorem Says.lookup {ls : List Bytes} {entries : List (Bytes × Bytes)} (h : Says ls entries)
    (hnodup : (entries.map Prod.fst).Nodup) {key value : Bytes} (hmem : (key, value) ∈ entries) (values : StringMap) :
    (ls.foldl readLine values)[key]? = some value := by
  induction h generalizing values with
  | nil => cases hmem
  | skip hskip _ ih => rw [List.foldl_cons, hskip, ih hnodup hmem]
  | entry hfirst hvalue hrest ih =>
    obtain ⟨hnew, hnodup⟩ := List.nodup_cons.mp hnodup
    rw [List.foldl_cons]
    rcases List.mem_cons.mp hmem with heq | hmem
    · obtain ⟨rfl, rfl⟩ := Prod.mk.inj heq
      rw [hrest.lookup_none hnew, readLine_of_assigns (assigns_entry hfirst hvalue),
        Std.ExtTreeMap.getElem?_insert_self]
    · exact ih hnodup hmem _

/-! ### The generated file -/

section
variable {now path logPrefix : List Char} {port zkPort : Int}

theorem mem_str {n : Int} {c : Char} (h : c ∈ str n) : c.isDigit = true ∨ c = '-' := by
  rw [str, Int.repr_eq_if] at h
  split at h
  · rw [Nat.toList_repr] at h
    exact .inl (Nat.isDigit_of_mem_toDigits (by decide) (by decide) h)
  · rw [String.toList_append, Nat.toList_repr, List.mem_append] at h
    rcases h with h | h
    · exact .inr (List.mem_singleton.mp h)
    · exact .inl (Nat.isDigit_of_mem_toDigits (by decide) (by decide) h)

theorem utf8_str (n : Int) : utf8 (str n) = decimal n := by
  refine utf8_ascii (List.all_eq_true.mpr fun c hc => decide_eq_true ?_)
  rcases mem_str hc with h | rfl
  · have := digit_range h
    omega
  · decide

/-- The places of the template. -/
def confNames : List (List Char) :=
  ["CREATE_TIME".toList, "CONF_PORT".toList, "ZK_PORT".toList, "LOG_PATH".toList, "LOG_PREFIX".toList,
    "IO_THREAD_NUM".toList]

theorem confNames_names : ∀ name ∈ confNames, IsName name := by decide +kernel

theorem confMapping_isSome {name : List Char} (h : name ∈ confNames) :
    (confMapping now path logPrefix port zkPort name).isSome = true := by
  simp only [confNames, List.mem_cons, List.not_mem_nil, or_false] at h
  rcases h with rfl | rfl | rfl | rfl | rfl | rfl
  all_goals rfl

def plain (c : Char) : Bool := c ≠ '$' && c ≠ '\n'

/-- Text, or text in front of a place. -/
def isLine : List Piece → Bool
  | [] => true
  | [.text t] => t.all plain
  | [.text t, .value name] => t.all plain && confNames.any fun n => decide (n = name)
  | _ => false

theorem isLine_cases {line : List Piece} (h : isLine line = true) : line = [] ∨
    ∃ t, ('$' ∉ t ∧ '\n' ∉ t) ∧ (line = [.text t] ∨ ∃ name ∈ confNames, line = [.text t, .value name]) := by
  have hplain : ∀ t : List Char, t.all plain = true → '$' ∉ t ∧ '\n' ∉ t := fun t ht =>
    ⟨fun hmem => absurd (List.all_eq_true.mp ht _ hmem) (by decide),
      fun hmem => absurd (List.all_eq_true.mp ht _ hmem) (by decide)⟩
  unfold isLine at h
  split at h
  · exact .inl rfl
  · exact .inr ⟨_, hplain _ h, .inl rfl⟩
  · obtain ⟨ht, hname⟩ := Bool.and_eq_true_iff.mp h
    obtain ⟨n, hn, heq⟩ := List.any_eq_true.mp hname
    exact .inr ⟨_, hplain _ ht, .inr ⟨_, hn, by rw [of_decide_eq_true heq]⟩⟩
  · cases h

theorem confLines_isLine : ∀ line ∈ confLines, isLine line = true := by decide +kernel

theorem confTemplate_fits : ∀ piece ∈ confTemplate, piece.Fits (confMapping now path logPrefix port zkPort) := by
  intro piece hpiece
  obtain ⟨line, hline, hpiece⟩ := List.mem_flatMap.mp hpiece
  rcases List.mem_append.mp hpiece with hpiece | hpiece
  · rcases isLine_cases (confLines_isLine line hline) with rfl | ⟨t, ht, rfl | ⟨name, hname, rfl⟩⟩
    · cases hpiece
    · obtain rfl := List.mem_singleton.mp hpiece
      exact ht.1
    · rcases List.mem_cons.mp hpiece with rfl | hpiece
      · exact ht.1
      · obtain rfl := List.mem_singleton.mp hpiece
        exact ⟨confNames_names name hname, confMapping_isSome hname⟩
  · obtain rfl := List.mem_singleton.mp hpiece
    exact (by decide : '$' ∉ ['\n'])

/-- The lines of the file. -/
def fileLines (mapping : List Char → Option (List Char)) : List (List Char) := confLines.map (filled mapping)

theorem filled_conf (mapping : List Char → Option (List Char)) :
    filled mapping confTemplate = (fileLines mapping).flatMap fun line => line ++ ['\n'] := by
  rw [filled, confTemplate, List.flatMap_assoc, fileLines, List.flatMap_map]
  refine List.flatMap_congr fun line _ => ?_
  rw [List.flatMap_append]
  rfl

theorem hasPlace_lines {ls : List (List Char)} :
    HasPlace (ls.flatMap fun line => line ++ ['\n']) ↔ ∃ line ∈ ls, HasPlace line := by
  induction ls with
  | nil => simpa using fun h : HasPlace [] => absurd h.mem List.not_mem_nil
  | cons line ls ih =>
    rw [List.flatMap_cons, List.append_assoc, List.singleton_append, hasPlace_cut (by decide) (by decide), ih]
    simp

theorem lines_file {ls : List (List Char)} (h : ∀ line ∈ ls, '\n' ∉ line) :
    lines (utf8 (ls.flatMap fun line => line ++ ['\n'])) = ls.map utf8 := by
  induction ls with
  | nil => rfl
  | cons line ls ih =>
    rw [List.flatMap_cons, List.append_assoc, List.singleton_append, utf8_append, utf8_cons, utf8_char (by decide),
      List.singleton_append, lines_cons (mt newline_mem_utf8.mp (h line (List.mem_cons_self ..))),
      ih fun l hl => h l (List.mem_cons_of_mem _ hl), List.map_cons]

/-- What `strftime` writes. -/
def IsTime (now : List Char) : Prop := (now.all fun c => c.isDigit || c = '-' || c = ' ' || c = ':') = true

instance : DecidablePred IsTime := fun _ => inferInstanceAs (Decidable (_ = true))

/-- A value that is made of digits and a few signs. -/
theorem not_mem_value (hnow : IsTime now) {c : Char} (hc : c = '$' ∨ c = '\n') {name value : List Char}
    (h : confMapping now path logPrefix port zkPort name = some value) :
    c ∉ value ∨ value = path ∨ value = logPrefix := by
  have hstr : ∀ n, c ∉ str n := by
    intro n hmem
    rcases hc with rfl | rfl
    · rcases mem_str hmem with h | h <;> exact absurd h (by decide)
    · rcases mem_str hmem with h | h <;> exact absurd h (by decide)
  have htime : c ∉ now := by
    intro hmem
    rcases hc with rfl | rfl
    · exact absurd (List.all_eq_true.mp hnow _ hmem) (by decide)
    · exact absurd (List.all_eq_true.mp hnow _ hmem) (by decide)
  unfold confMapping at h
  split at h
  · exact .inl (Option.some.inj h ▸ htime)
  split at h
  · exact .inl (Option.some.inj h ▸ hstr _)
  split at h
  · exact .inl (Option.some.inj h ▸ hstr _)
  split at h
  · exact .inr (.inl (Option.some.inj h).symm)
  split at h
  · exact .inr (.inr (Option.some.inj h).symm)
  split at h
  · obtain rfl := Option.some.inj h
    rcases hc with rfl | rfl
    · exact .inl (by decide)
    · exact .inl (by decide)
  · cases h

theorem path_mem : "log_path=".toList ++ path ∈ fileLines (confMapping now path logPrefix port zkPort) := by
  have hline : [.text "log_path=".toList, .value "LOG_PATH".toList] ∈ confLines :=
    List.getElem_mem (show 11 < confLines.length by decide)
  have hmem := List.mem_map_of_mem (f := filled (confMapping now path logPrefix port zkPort)) hline
  rwa [filled, List.flatMap_cons, List.flatMap_cons, List.flatMap_nil, List.append_nil] at hmem

theorem prefix_mem : "log_prefix=".toList ++ logPrefix ∈ fileLines (confMapping now path logPrefix port zkPort) := by
  have hline : [.text "log_prefix=".toList, .value "LOG_PREFIX".toList] ∈ confLines :=
    List.getElem_mem (show 12 < confLines.length by decide)
  have hmem := List.mem_map_of_mem (f := filled (confMapping now path logPrefix port zkPort)) hline
  rwa [filled, List.flatMap_cons, List.flatMap_cons, List.flatMap_nil, List.append_nil] at hmem

theorem hasPlace_conf (hnow : IsTime now) :
    HasPlace (filled (confMapping now path logPrefix port zkPort) confTemplate) ↔
      HasPlace path ∨ HasPlace logPrefix := by
  rw [filled_conf, hasPlace_lines]
  constructor
  · rintro ⟨line, hline, hplace⟩
    obtain ⟨pieces, hpieces, rfl⟩ := List.mem_map.mp hline
    rcases isLine_cases (confLines_isLine pieces hpieces) with rfl | ⟨t, ht, rfl | ⟨name, hname, rfl⟩⟩
    · exact absurd hplace.mem List.not_mem_nil
    · exact absurd hplace.mem (by simpa [filled, Piece.filled] using ht.1)
    · have hsome : (confMapping now path logPrefix port zkPort name).isSome = true := confMapping_isSome hname
      obtain ⟨value, hvalue⟩ := Option.isSome_iff_exists.mp hsome
      simp only [filled, List.flatMap_cons, List.flatMap_nil, Piece.filled, hvalue, Option.getD_some,
        List.append_nil, hasPlace_append ht.1] at hplace
      rcases not_mem_value hnow (.inl rfl) hvalue with hno | rfl | rfl
      · exact absurd hplace.mem hno
      · exact .inl hplace
      · exact .inr hplace
  · rintro (hplace | hplace)
    · exact ⟨_, path_mem, (hasPlace_append (by decide)).mpr hplace⟩
    · exact ⟨_, prefix_mem, (hasPlace_append (by decide)).mpr hplace⟩

/-- **A file is written** unless a value looks like a place. -/
theorem writeConf_ok (hnow : IsTime now) {cwd : Path} {args : Args} {confName text : List Char} {port : Int} :
    writeConf now cwd args confName port = .ok text ↔
      (¬ HasPlace (logPath cwd args.projDir) ∧ ¬ HasPlace (Scripts.logPrefix args.project confName)) ∧
        text = filled (confMapping now (logPath cwd args.projDir) (Scripts.logPrefix args.project confName) port
          args.zkPort) confTemplate := by
  rw [writeConf, render, safeSubstitute_source confTemplate_fits]
  rw [← not_or, ← hasPlace_conf hnow, ← places_eq_nil]
  split
  · rename_i hnone
    exact ⟨fun h => ⟨hnone, (Except.ok.inj h).symm⟩, fun h => congrArg _ h.2.symm⟩
  · rename_i hsome
    exact iff_of_false nofun fun h => hsome h.1

/-! ### What the server reads -/

/-- The assignments of the file. -/
def confEntries (path logPrefix : Bytes) (port zkPort : Int) : List (Bytes × Bytes) :=
  [(ascii "rpcserverip", ascii "127.0.0.1"), (ascii "rpcserverport", decimal port),
    (ascii "zookeeperip", ascii "127.0.0.1"), (ascii "zookeeperport", decimal zkPort), (ascii "log_path", path),
    (ascii "log_prefix", logPrefix), (ascii "log_max_file_size", ascii "5"), (ascii "log_enable", ascii "true"),
    (ascii "rpc_log_level", ascii "DEBUG"), (ascii "app_log_level", ascii "DEBUG"),
    (ascii "log_sync_interval", ascii "500"), (ascii "iothread_num", decimal 4)]

theorem trimmed_decimal (n : Int) : Trimmed (decimal n) := by
  have hdigit : ∀ c : Byte, isdigit c = true → isBlank c = false := by decide +kernel
  have hclear : ∀ c ∈ decimal n, isBlank c = false := by
    intro c hc
    rcases decimal_mem hc with h | rfl
    · exact hdigit c h
    · decide
  exact trimmed_iff.mpr ⟨fun c hc => hclear c (List.mem_of_head? hc), fun c hc => hclear c (List.mem_of_getLast? hc)⟩

theorem Says.comment {line : List Char} {ls : List Bytes} {entries : List (Bytes × Bytes)} (hrest : Says ls entries)
    (hline : line.head? = some '#') : Says (utf8 line :: ls) entries := by
  obtain ⟨rest, rfl⟩ := List.head?_eq_some_iff.mp hline
  rw [utf8_cons, utf8_char (by decide)]
  exact .skip (fun values => readLine_comment values _) hrest

/-- A line of the template that assigns. -/
theorem Says.const {mapping : List Char → Option (List Char)} {t : List Char} {ls : List Bytes}
    {entries : List (Bytes × Bytes)} (hrest : Says ls entries) (key value : String)
    (ht : t = key.toList ++ '=' :: value.toList) (hascii : (t.all fun c => c.toNat < 128) = true)
    (hkey : IsKey (ascii key)) (hvalue : Trimmed (ascii value)) :
    Says (utf8 (filled mapping [.text t]) :: ls) ((ascii key, ascii value) :: entries) := by
  have hline : utf8 (filled mapping [.text t]) = ascii key ++ byte '=' :: ascii value := by
    rw [filled, List.flatMap_singleton, Piece.filled, utf8_ascii hascii, ht, List.map_append]
    rfl
  rw [hline]
  exact .entry hkey hvalue hrest

/-- A line that assigns what is filled in. -/
theorem Says.value {mapping : List Char → Option (List Char)} {t name v : List Char} {ls : List Bytes}
    {entries : List (Bytes × Bytes)} (hrest : Says ls entries) (key : String) (ht : t = key.toList ++ ['='])
    (hascii : (t.all fun c => c.toNat < 128) = true) (hkey : IsKey (ascii key)) (hname : mapping name = some v)
    (hvalue : Trimmed (utf8 v)) :
    Says (utf8 (filled mapping [.text t, .value name]) :: ls) ((ascii key, utf8 v) :: entries) := by
  have hline : utf8 (filled mapping [.text t, .value name]) = ascii key ++ byte '=' :: utf8 v := by
    rw [filled, List.flatMap_cons, List.flatMap_singleton, Piece.filled, Piece.filled, hname, utf8_append,
      utf8_ascii hascii, ht, List.map_append, List.append_assoc]
    rfl
  rw [hline]
  exact .entry hkey hvalue hrest

theorem says_conf (hpath : Trimmed (utf8 path)) (hstem : Trimmed (utf8 logPrefix)) :
    Says ((fileLines (confMapping now path logPrefix port zkPort)).map utf8)
      (confEntries (utf8 path) (utf8 logPrefix) port zkPort) := by
  have hblank : ∀ values, readLine values [] = values := fun _ => rfl
  have hnumber : ∀ n, Trimmed (utf8 (str n)) := fun n => by
    rw [utf8_str]
    exact trimmed_decimal n
  unfold fileLines confLines confEntries
  simp only [List.map_cons, List.map_nil, ← utf8_str]
  refine .comment (.comment (.comment ?_ rfl) rfl) rfl
  refine .const ?_ "rpcserverip" "127.0.0.1" (by decide) (by decide) (by decide) (by decide)
  refine .value ?_ "rpcserverport" (by decide) (by decide) (by decide) rfl (hnumber port)
  refine .skip hblank (.comment ?_ rfl)
  refine .const ?_ "zookeeperip" "127.0.0.1" (by decide) (by decide) (by decide) (by decide)
  refine .value ?_ "zookeeperport" (by decide) (by decide) (by decide) rfl (hnumber zkPort)
  refine .skip hblank (.comment ?_ rfl)
  refine .value ?_ "log_path" (by decide) (by decide) (by decide) rfl hpath
  refine .value ?_ "log_prefix" (by decide) (by decide) (by decide) rfl hstem
  refine .const ?_ "log_max_file_size" "5" (by decide) (by decide) (by decide) (by decide)
  refine .const ?_ "log_enable" "true" (by decide) (by decide) (by decide) (by decide)
  refine .const ?_ "rpc_log_level" "DEBUG" (by decide) (by decide) (by decide) (by decide)
  refine .const ?_ "app_log_level" "DEBUG" (by decide) (by decide) (by decide) (by decide)
  refine .const ?_ "log_sync_interval" "500" (by decide) (by decide) (by decide) (by decide)
  refine .skip hblank (.comment ?_ rfl)
  exact .value .nil "iothread_num" (by decide) (by decide) (by decide) rfl (hnumber 4)

end

/-- The built-in configuration with what was asked for. -/
def asked (path logPrefix : Bytes) (port zkPort : Int) : Config where
  rpcServerPort := port
  zookeeperPort := zkPort
  logPath := path
  logPrefix := logPrefix
  loaded := true

theorem loadFromFile_of_read {text : Bytes} {staged : Staged} (h : staged.Read {} (readLines text)) :
    loadFromFile {} (some text) = (true, afterLoad text staged) := by
  simp only [loadFromFile, stage_ok.mpr h]
  rfl

/-- Nothing is kept but of unknown keys. -/
theorem keepExtra_known {l : List (Bytes × Bytes)} (h : ∀ item ∈ l, item.1 ∈ knownKeys) (extraValues : StringMap) :
    l.foldl keepExtra extraValues = extraValues := by
  induction l with
  | nil => rfl
  | cons item l ih =>
    rw [List.foldl_cons, keepExtra, if_pos (List.contains_iff_mem.mpr (h item (List.mem_cons_self ..)))]
    exact ih fun i hi => h i (List.mem_cons_of_mem _ hi)

theorem readInteger_decimal {values : StringMap} {key : Bytes} {minimum maximum result n : Int}
    (hvalue : values[key]? = some (decimal n)) (hmin : 0 ≤ minimum) (hmax : maximum < 2 ^ 63 - 1)
    (hn : minimum ≤ n ∧ n ≤ maximum) : readInteger values key minimum maximum result = .ok n := by
  have hnat : n = (n.toNat : Int) := (Int.toNat_of_nonneg (hmin.trans hn.1)).symm
  have hread : strtoll (decimal n) = some (n, []) := by
    rw [hnat]
    exact strtoll_decimal (by omega)
  rw [readInteger, hvalue]
  dsimp only
  rw [hread]
  dsimp only
  rw [outOfRange_of_strtoll hread (by omega) (by omega), if_neg]
  simp only [Bool.false_eq_true, ne_eq, not_true_eq_false, false_or]
  omega

theorem readString_some {values : StringMap} {key result value : Bytes} (hvalue : values[key]? = some value)
    (hne : value ≠ []) : readString values key result = .ok value := by
  rw [readString, hvalue]
  exact if_neg hne

theorem readInteger_none {values : StringMap} {key : Bytes} {minimum maximum result : Int}
    (hvalue : values[key]? = none) : readInteger values key minimum maximum result = .ok result := by
  rw [readInteger, hvalue]

/-- A port. -/
def IsPort (n : Int) : Prop := 1 ≤ n ∧ n ≤ 65535

/-- The local variables of `loadFromFile`. -/
def confStaged (path logPrefix : Bytes) (port zkPort : Int) : Staged where
  rpcServerIp := ascii "127.0.0.1"
  zookeeperIp := ascii "127.0.0.1"
  logPath := path
  logPrefix := logPrefix
  logEnable := true
  rpcServerPort := port
  zookeeperPort := zkPort
  logMaxFileSizeMb := 5
  logSyncInterval := 500
  corStackSize := 128 * 1024
  corPoolSize := 1024
  msgReqLen := 20
  maxConnectTimeout := 10000
  iothreadNum := 4
  timewheelBucketNum := 10
  timewheelInterval := 10
  rpcLogLevel := .debug
  appLogLevel := .debug

section
variable {text path logPrefix : Bytes} {port zkPort : Int}

theorem lookup_entry (h : Says (lines text) (confEntries path logPrefix port zkPort)) (i : Nat) (hi : i < 12) :
    (readLines text)[((confEntries path logPrefix port zkPort).get ⟨i, hi⟩).1]? =
      some ((confEntries path logPrefix port zkPort).get ⟨i, hi⟩).2 := by
  have hnodup : ((confEntries path logPrefix port zkPort).map Prod.fst).Nodup := by
    simp only [confEntries, List.map_cons, List.map_nil]
    decide +kernel
  exact h.lookup hnodup (List.get_mem _ _) ∅

theorem lookup_other (h : Says (lines text) (confEntries path logPrefix port zkPort)) {key : Bytes}
    (hkey : key ∉ (confEntries [] [] 0 0).map Prod.fst) : (readLines text)[key]? = none := by
  rw [readLines, h.lookup_none (show key ∉ (confEntries path logPrefix port zkPort).map Prod.fst from hkey),
    Std.ExtTreeMap.getElem?_empty]

theorem read_entries (hport : IsPort port) (hzk : IsPort zkPort) (hpath : path ≠ []) (hstem : logPrefix ≠ [])
    (h : Says (lines text) (confEntries path logPrefix port zkPort)) :
    (confStaged path logPrefix port zkPort).Read {} (readLines text) where
  rpcServerIp := readString_some (lookup_entry h 0 (by decide)) (show ascii "127.0.0.1" ≠ [] by decide)
  rpcServerPort := readInteger_decimal (lookup_entry h 1 (by decide)) (by decide) (by decide) hport
  zookeeperIp := readString_some (lookup_entry h 2 (by decide)) (show ascii "127.0.0.1" ≠ [] by decide)
  zookeeperPort := readInteger_decimal (lookup_entry h 3 (by decide)) (by decide) (by decide) hzk
  logPath := readString_some (lookup_entry h 4 (by decide)) hpath
  logPrefix := readString_some (lookup_entry h 5 (by decide)) hstem
  logMaxFileSizeMb := readInteger_decimal (n := 5) (lookup_entry h 6 (by decide)) (by decide) (by decide) (by decide)
  logEnable := by
    have hvalue : (readLines text)[ascii "log_enable"]? = some (ascii "true") := lookup_entry h 7 (by decide)
    rw [readBoolean, hvalue]
    rfl
  rpcLogLevel := by
    have hvalue : (readLines text)[ascii "rpc_log_level"]? = some (ascii "DEBUG") := lookup_entry h 8 (by decide)
    rw [readLogLevel, hvalue]
    rfl
  appLogLevel := by
    have hvalue : (readLines text)[ascii "app_log_level"]? = some (ascii "DEBUG") := lookup_entry h 9 (by decide)
    rw [readLogLevel, hvalue]
    rfl
  logSyncInterval := by
    have hvalue : (readLines text)[ascii "log_sync_interval"]? = some (decimal 500) := lookup_entry h 10 (by decide)
    have hmem : ascii "log_sync_interval" ∈ readLines text :=
      Std.ExtTreeMap.isSome_getElem?_iff_mem.mp (by rw [hvalue]; rfl)
    rw [syncKey, if_pos hmem]
    exact readInteger_decimal hvalue (by decide) (by decide) (show (1 : Int) ≤ 500 ∧ 500 ≤ intMax by decide)
  iothreadNum := readInteger_decimal (n := 4) (lookup_entry h 11 (by decide)) (by decide) (by decide) (by decide)
  corStackSize := readInteger_none (lookup_other h (by decide +kernel))
  corPoolSize := readInteger_none (lookup_other h (by decide +kernel))
  msgReqLen := readInteger_none (lookup_other h (by decide +kernel))
  maxConnectTimeout := readInteger_none (lookup_other h (by decide +kernel))
  timewheelBucketNum := readInteger_none (lookup_other h (by decide +kernel))
  timewheelInterval := readInteger_none (lookup_other h (by decide +kernel))

theorem load_entries (hport : IsPort port) (hzk : IsPort zkPort) (hpath : path ≠ []) (hstem : logPrefix ≠ [])
    (h : Says (lines text) (confEntries path logPrefix port zkPort)) :
    loadFromFile {} (some text) = (true, asked path logPrefix port zkPort) := by
  rw [loadFromFile_of_read (read_entries hport hzk hpath hstem h)]
  have hknown : ∀ item ∈ (readLines text).toList, item.1 ∈ knownKeys := by
    rintro ⟨key, value⟩ hitem
    have hvalue := Std.ExtTreeMap.mem_toList_iff_getElem?_eq_some.mp hitem
    by_contra hunknown
    have hother : key ∉ (confEntries [] [] 0 0).map Prod.fst := by
      have hsub : ∀ k ∈ (confEntries [] [] 0 0).map Prod.fst, k ∈ knownKeys := by decide +kernel
      exact mt (hsub key) hunknown
    rw [lookup_other h hother] at hvalue
    cases hvalue
  rw [afterLoad, keepExtra_known hknown]
  simp only [commit, confStaged, asked, uint16_eq hport, uint16_eq hzk]
  rfl

end

/-! ### The file of a mode -/

/-- The name of the log files is the name of the file. -/
theorem logPrefix_own (project : List Char) : logPrefix project (project ++ ".conf".toList) = project := by
  rw [logPrefix]
  rw [List.length_append, Nat.add_sub_cancel, List.take_left, if_neg]
  intro h
  have := h.length_le
  rw [List.length_append, List.length_singleton] at this
  omega

theorem logPrefix_suffix (project rest : List Char) :
    logPrefix project (project ++ '_' :: rest ++ ".conf".toList) = project ++ '_' :: rest := by
  rw [logPrefix]
  rw [List.length_append, Nat.add_sub_cancel, List.take_left, if_pos]
  exact ⟨rest, by simp⟩

theorem logPath_trimmed {cwd : Path} (hcwd : isabs cwd = true) (projDir : Path) :
    logPath cwd projDir ≠ [] ∧ Trimmed (utf8 (logPath cwd projDir)) := by
  have hbin : "bin".toList <:+ join (join projDir "build".toList) "bin".toList := suffix_join _ _
  have hlast : (join (join projDir "build".toList) "bin".toList).getLast? ≠ some '/' := by
    obtain ⟨front, hfront⟩ := hbin
    rw [← hfront, List.getLast?_append]
    exact (by decide : some 'n' ≠ some '/')
  have hlog : IsComponent "log".toList := ⟨by decide, by decide, by decide, by decide⟩
  have hends := endsWith_join hlog (Nat.le_of_succ_le hbin.length_le) hlast
  obtain ⟨front, hfront⟩ := hends.abspath hlog cwd
  obtain ⟨rest, hrest⟩ := List.head?_eq_some_iff.mp (of_decide_eq_true (abspath_absolute hcwd
    (join (join (join projDir "build".toList) "bin".toList) "log".toList)))
  have hbegins : logPath cwd projDir = '/' :: posixPath rest := by
    rw [logPath, hrest]
    rfl
  have hfinishes : logPath cwd projDir = posixPath front ++ "log".toList := by
    rw [logPath, ← hfront, posixPath, List.map_append]
    rfl
  refine ⟨by rw [hbegins]; exact List.cons_ne_nil _ _, trimmed_iff.mpr ⟨fun c hc => ?_, fun c hc => ?_⟩⟩
  · rw [hbegins, utf8_cons, utf8_char (by decide)] at hc
    obtain rfl := Option.some.inj hc
    decide
  · have hlogBytes : utf8 "log".toList = ascii "log" := utf8_ascii (by decide)
    rw [hfinishes, utf8_append, hlogBytes, List.getLast?_append] at hc
    obtain rfl := Option.some.inj hc
    decide

theorem trimmed_trim (value : Bytes) : Trimmed (trim value) := by
  have hlast : ∀ c ∈ (trim value).getLast?, isBlank c = false := by
    intro c hc
    obtain ⟨hne, rfl⟩ := List.mem_getLast?_eq_getLast hc
    exact Bool.eq_false_iff.mpr (List.rdropWhile_last_not _ _ hne)
  refine trimmed_iff.mpr ⟨fun c hc => ?_, hlast⟩
  obtain ⟨rest, hrest⟩ := List.head?_eq_some_iff.mp hc
  obtain ⟨more, hmore⟩ : trim value <+: value.dropWhile isBlank := List.rdropWhile_prefix _ _
  rw [hrest, List.cons_append] at hmore
  have hne : value.dropWhile isBlank ≠ [] := by
    rw [← hmore]
    exact List.cons_ne_nil _ _
  have hhead := List.head_dropWhile_not isBlank hne
  simp only [← hmore, List.head_cons] at hhead
  exact hhead

/-- What can be behind a key: no line end, no blanks at the ends, and something. -/
def CanStand (value : Bytes) : Prop := byte '\n' ∉ value ∧ Trimmed value ∧ value ≠ []

theorem describes_canStand {text key default value : Bytes} (h : Describes text key ReadsString default value)
    (hdefault : CanStand default) : CanStand value := by
  rcases last_or_unassigned (lines text) key with ⟨v, hlast⟩ | hnone
  · obtain ⟨hne, rfl⟩ := h.1 v hlast
    obtain ⟨before, line, after, heq, ⟨left, right, hcut, -, -, -, -, rfl⟩, -⟩ := hlast
    refine ⟨fun hmem => ?_, trimmed_trim right, hne⟩
    have hsub : ∀ l : Bytes, ∀ c ∈ trim l, c ∈ l := fun l c hc =>
      (List.dropWhile_suffix _).subset ((List.rdropWhile_prefix _ _).subset hc)
    have hline : byte '\n' ∈ trim line := by
      rw [hcut]
      exact List.mem_append_right _ (List.mem_cons_of_mem _ (hsub right _ hmem))
    exact not_mem_of_mem_lines (heq ▸ List.mem_append_right before (List.mem_cons_self ..)) (hsub line _ hline)
  · rw [h.2 hnone]
    exact hdefault

theorem fileLines_newline {now path logPrefix : List Char} {port zkPort : Int} (hnow : IsTime now) (hpath : '\n' ∉ path)
    (hstem : '\n' ∉ logPrefix) : ∀ line ∈ fileLines (confMapping now path logPrefix port zkPort), '\n' ∉ line := by
  intro line hline
  obtain ⟨pieces, hpieces, rfl⟩ := List.mem_map.mp hline
  rcases isLine_cases (confLines_isLine pieces hpieces) with rfl | ⟨t, ht, rfl | ⟨name, hname, rfl⟩⟩
  · exact List.not_mem_nil
  · simpa [filled, Piece.filled] using ht.2
  · have hsome : (confMapping now path logPrefix port zkPort name).isSome = true := confMapping_isSome hname
    obtain ⟨value, hvalue⟩ := Option.isSome_iff_exists.mp hsome
    have hclear : '\n' ∉ value := by
      rcases not_mem_value hnow (.inr rfl) hvalue with hno | rfl | rfl
      · exact hno
      · exact hpath
      · exact hstem
    simp only [filled, List.flatMap_cons, List.flatMap_nil, Piece.filled, hvalue, Option.getD_some,
      List.append_nil, List.mem_append, not_or]
    exact ⟨ht.2, hclear⟩

/-- The files of a mode are called after their prefix. -/
theorem logPrefix_conf {args : Args} {name : List Char} {port : Int} (h : (name ++ ".conf".toList, port) ∈ args.confs) :
    logPrefix args.project (name ++ ".conf".toList) = name := by
  have hname : ∀ {stem : List Char}, name ++ ".conf".toList = stem ++ ".conf".toList → name = stem :=
    fun heq => List.append_cancel_right heq
  have hown : name ++ ".conf".toList = args.project ++ ".conf".toList →
      logPrefix args.project (name ++ ".conf".toList) = name := by
    intro heq
    rw [hname heq]
    exact logPrefix_own args.project
  have hsuffix : ∀ rest : List Char, name ++ ".conf".toList = args.project ++ '_' :: rest ++ ".conf".toList →
      logPrefix args.project (name ++ ".conf".toList) = name := by
    intro rest heq
    rw [hname heq]
    exact logPrefix_suffix args.project rest
  unfold Args.confs at h
  split at h
  · exact hown (Prod.mk.inj (List.mem_singleton.mp h)).1
  · exact hown (Prod.mk.inj (List.mem_singleton.mp h)).1
  · rcases List.mem_cons.mp h with h | h
    · refine hsuffix "backend".toList ((Prod.mk.inj h).1.trans ?_)
      rw [List.append_assoc]
      rfl
    · refine hsuffix "server".toList ((Prod.mk.inj (List.mem_singleton.mp h)).1.trans ?_)
      rw [List.append_assoc]
      rfl

/-- **The server has what was asked for**: of each file that the generator writes, in any of its modes, a
new `Config` takes the ports, the log directory and the prefix, which the file is called after, and the
built-in values for everything else. This holds exactly if the ports are ports, neither the directory nor
the prefix has a line end in it or looks like a place of the template, and the prefix is not empty and
has no blanks around it. -/
theorem conf_loaded {now : List Char} (hnow : IsTime now) {cwd : Path} (hcwd : isabs cwd = true) (args : Args)
    {name : List Char} {port : Int} (hconf : (name ++ ".conf".toList, port) ∈ args.confs) :
    (∃ text, writeConf now cwd args (name ++ ".conf".toList) port = .ok text ∧ loadFromFile {} (some (utf8 text)) =
        (true, asked (utf8 (logPath cwd args.projDir)) (utf8 name) port args.zkPort)) ↔
      IsPort port ∧ IsPort args.zkPort ∧ ('\n' ∉ logPath cwd args.projDir ∧ ¬ HasPlace (logPath cwd args.projDir)) ∧
        '\n' ∉ name ∧ ¬ HasPlace name ∧ name ≠ [] ∧ Trimmed (utf8 name) := by
  obtain ⟨hpathNe, hpathTrimmed⟩ := logPath_trimmed hcwd args.projDir
  constructor
  · rintro ⟨text, hwrite, hload⟩
    obtain ⟨⟨hpathPlace, hnamePlace⟩, -⟩ := (writeConf_ok hnow).mp hwrite
    rw [logPrefix_conf hconf] at hnamePlace
    have hloaded := loaded_of_true hload
    obtain ⟨hpathLine, -, -⟩ := describes_canStand hloaded.logPath ⟨by decide, by decide, by decide⟩
    obtain ⟨hnameLine, hnameTrimmed, hnameNe⟩ := describes_canStand hloaded.logPrefix ⟨by decide, by decide, by decide⟩
    refine ⟨hloaded.rpcServerPort.bounds (by decide), hloaded.zookeeperPort.bounds (by decide),
      ⟨mt newline_mem_utf8.mpr hpathLine, hpathPlace⟩, mt newline_mem_utf8.mpr hnameLine, hnamePlace, ?_, hnameTrimmed⟩
    rintro rfl
    exact hnameNe rfl
  · rintro ⟨hport, hzk, ⟨hpathLine, hpathPlace⟩, hnameLine, hnamePlace, hnameNe, hnameTrimmed⟩
    have hstem := logPrefix_conf hconf
    refine ⟨_, (writeConf_ok hnow).mpr ⟨⟨hpathPlace, hstem.symm ▸ hnamePlace⟩, rfl⟩, ?_⟩
    rw [hstem, filled_conf]
    refine load_entries hport hzk (utf8_ne_nil hpathNe) (utf8_ne_nil hnameNe) ?_
    rw [lines_file (fileLines_newline hnow hpathLine hnameLine)]
    exact says_conf hpathTrimmed hnameTrimmed

/-- `async_http -i p/chat.proto -o out`. -/
def someArgs : Args where
  mode := .asyncHttp "p/chat.proto".toList 8100 8101
  output := "out".toList
  name := none
  zkPort := 2181

theorem conf_loaded_instance :
    ∃ text, writeConf "2024-05-06 07:08:09".toList "/w".toList someArgs ("chat_backend".toList ++ ".conf".toList) 8101 =
        .ok text ∧
      loadFromFile {} (some (utf8 text)) =
        (true, asked (utf8 (logPath "/w".toList someArgs.projDir)) (utf8 "chat_backend".toList) 8101 2181) :=
  (conf_loaded (by decide) (by decide) someArgs (List.mem_cons_self ..)).mpr
    ⟨⟨by decide, by decide⟩, ⟨by decide, by decide⟩, ⟨by decide, places_eq_nil.mp (by decide +kernel)⟩, by decide,
      places_eq_nil.mp (by decide +kernel), by decide, by decide⟩

example : logPath "/w".toList someArgs.projDir = "/w/out/chat/build/bin/log".toList := by decide +kernel

end CoroutineRpc.Scripts
