import Mathlib.Data.List.Infix
import Mathlib.Data.List.TakeWhile

/-! C++ text as tokens.

Words, string literals and single marks; comments, character literals and the escapes of more
than one character are not read. A literal ends at the first quote that no backslash takes, and
must end on its line; a carriage return ends a line as a line feed does. Reading is a step for
each character, so texts are read one after the other (`feed_append`). What a literal is written
with stands for itself exactly when it has no quote, no backslash and no line end (`feed_plain`,
`literal_plain`); a NUL stays in it, and only a `const char*` to it ends there (`cText`). -/
namespace Library.CppTokens

inductive Token where
  | word (name : List Char)
  | literal (value : List Char)
  | mark (c : Char)
deriving DecidableEq

/-- Where in a token the reader is, and what it has read of it. -/
inductive Mode where
  | code
  | word (name : List Char)
  | literal (value : List Char)
  | escape (value : List Char)
deriving DecidableEq

def isWord (c : Char) : Bool := c.isAlphanum || c = '_'

def inCode (c : Char) : List Token × Mode :=
  if isWord c then ([], .word [c])
  else if c = '"' then ([], .literal [])
  else if c.isWhitespace then ([], .code)
  else ([.mark c], .code)

/-- What a backslash and a character stand for. -/
def escaped (c : Char) : Option Char :=
  match c with
  | 'n' => some '\n'
  | 't' => some '\t'
  | 'r' => some '\r'
  | 'a' => some '\x07'
  | 'b' => some '\x08'
  | 'v' => some '\x0b'
  | 'f' => some '\x0c'
  | '\\' | '\'' | '"' | '?' => some c
  | _ => none

def step : Mode → Char → Option (List Token × Mode)
  | .code, c => some (inCode c)
  | .word name, c =>
    if isWord c then some ([], .word (name ++ [c])) else some (.word name :: (inCode c).1, (inCode c).2)
  | .literal value, c =>
    if c = '"' then some ([.literal value], .code)
    else if c = '\\' then some ([], .escape value)
    else if c = '\n' ∨ c = '\r' then none
    else some ([], .literal (value ++ [c]))
  | .escape value, c => (escaped c).map fun d => ([], .literal (value ++ [d]))

def feed : Mode → List Char → Option (List Token × Mode)
  | m, [] => some ([], m)
  | m, c :: text =>
    (step m c).bind fun front => (feed front.2 text).map fun back => (front.1 ++ back.1, back.2)

def tokens (text : List Char) : Option (List Token) :=
  match feed .code text with
  | some (front, .code) => some front
  | some (front, .word name) => some (front ++ [.word name])
  | _ => none

/-! ### Reading on -/

theorem feed_cons {m m' m'' : Mode} {c : Char} {text : List Char} {front back : List Token}
    (h : step m c = some (front, m')) (h' : feed m' text = some (back, m'')) :
    feed m (c :: text) = some (front ++ back, m'') := by
  rw [feed, h, Option.bind_some, h', Option.map_some]

theorem feed_cons_inv {m m'' : Mode} {c : Char} {text : List Char} {out : List Token}
    (h : feed m (c :: text) = some (out, m'')) : ∃ front m' back,
      step m c = some (front, m') ∧ feed m' text = some (back, m'') ∧ out = front ++ back := by
  rw [feed] at h
  obtain ⟨⟨front, m'⟩, hstep, h⟩ := Option.bind_eq_some_iff.mp h
  obtain ⟨⟨back, last⟩, hfeed, h⟩ := Option.map_eq_some_iff.mp h
  obtain ⟨rfl, rfl⟩ := Prod.mk.inj h
  exact ⟨front, m', back, hstep, hfeed, rfl⟩

/-- **Texts are read one after the other.** -/
theorem feed_append {m m' : Mode} {text : List Char} {front : List Token}
    (h : feed m text = some (front, m')) (more : List Char) :
    feed m (text ++ more) = (feed m' more).map fun out => (front ++ out.1, out.2) := by
  induction text generalizing m front with
  | nil =>
    obtain ⟨rfl, rfl⟩ := Prod.mk.inj (Option.some.inj h)
    cases hmore : feed m more with
    | none => simp [hmore]
    | some out => simp [hmore]
  | cons c text ih =>
    obtain ⟨first, m₁, back, hstep, hfeed, rfl⟩ := feed_cons_inv h
    rw [List.cons_append, feed, hstep, Option.bind_some, ih hfeed]
    cases hmore : feed m' more with
    | none => rfl
    | some out => simp

theorem feed_append_some {m m' m'' : Mode} {text more : List Char} {front back : List Token}
    (h : feed m text = some (front, m')) (h' : feed m' more = some (back, m'')) :
    feed m (text ++ more) = some (front ++ back, m'') := by
  rw [feed_append h, h']
  rfl

/-- What was read of the first text stands in front. -/
theorem feed_append_inv {m m' m'' : Mode} {text more : List Char} {front out : List Token}
    (h : feed m text = some (front, m')) (h' : feed m (text ++ more) = some (out, m'')) :
    ∃ back, feed m' more = some (back, m'') ∧ out = front ++ back := by
  rw [feed_append h] at h'
  obtain ⟨⟨back, last⟩, hmore, heq⟩ := Option.map_eq_some_iff.mp h'
  obtain ⟨rfl, rfl⟩ := Prod.mk.inj heq
  exact ⟨back, hmore, rfl⟩

theorem feed_word {name : List Char} (h : ∀ c ∈ name, isWord c = true) (read : List Char) :
    feed (.word read) name = some ([], .word (read ++ name)) := by
  induction name generalizing read with
  | nil => rw [feed, List.append_nil]
  | cons c name ih =>
    have hstep : step (.word read) c = some ([], .word (read ++ [c])) :=
      if_pos (h c (List.mem_cons_self ..))
    rw [feed_cons hstep (ih (fun d hd => h d (List.mem_cons_of_mem c hd)) _), List.append_assoc]
    rfl

/-- A name in code is a word. -/
theorem feed_name {name : List Char} (hne : name ≠ []) (h : ∀ c ∈ name, isWord c = true) :
    feed .code name = some ([], .word name) := by
  obtain ⟨c, rest, rfl⟩ := List.exists_cons_of_ne_nil hne
  have hstep : step .code c = some ([], .word [c]) :=
    congrArg some (if_pos (h c (List.mem_cons_self ..)))
  exact feed_cons hstep (feed_word (fun d hd => h d (List.mem_cons_of_mem c hd)) [c])

/-! ### Literals -/

/-- No quote, no backslash and no line end. -/
def Plain (text : List Char) : Prop := ∀ c ∈ text, c ≠ '"' ∧ c ≠ '\\' ∧ c ≠ '\n' ∧ c ≠ '\r'

/-- What a literal is as a `const char*`. -/
def cText (value : List Char) : List Char := value.takeWhile (· ≠ '\x00')

theorem cText_eq {value : List Char} (h : '\x00' ∉ value) : cText value = value :=
  List.takeWhile_eq_self_iff.mpr fun _ hc => decide_eq_true fun heq => h (heq ▸ hc)

theorem cText_no_nul (value : List Char) : '\x00' ∉ cText value := fun h => by
  simpa using List.mem_takeWhile_imp h

theorem plain_append {text more : List Char} (h : Plain text) (h' : Plain more) : Plain (text ++ more) :=
  fun c hc => (List.mem_append.mp hc).elim (h c) (h' c)

theorem plain_of_all {text : List Char}
    (h : (text.all fun c => decide (c ≠ '"' ∧ c ≠ '\\' ∧ c ≠ '\n' ∧ c ≠ '\r')) = true) : Plain text := fun c hc =>
  of_decide_eq_true (List.all_eq_true.mp h c hc)

theorem step_plain {c : Char} (h : c ≠ '"' ∧ c ≠ '\\' ∧ c ≠ '\n' ∧ c ≠ '\r') (read : List Char) :
    step (.literal read) c = some ([], .literal (read ++ [c])) := by
  rw [step, if_neg h.1, if_neg h.2.1, if_neg (not_or.mpr h.2.2)]

/-- A quote ends the literal. -/
theorem feed_quote_inv {read text : List Char} {out : List Token} {m : Mode}
    (h : feed (.literal read) ('"' :: text) = some (out, m)) : ∃ rest, out = .literal read :: rest := by
  obtain ⟨front, m', back, hstep, -, rfl⟩ := feed_cons_inv h
  obtain ⟨rfl, -⟩ := Prod.mk.inj (Option.some.inj hstep)
  exact ⟨back, rfl⟩

/-- A backslash takes one character, and leaves one. -/
theorem feed_backslash_inv {read text : List Char} {c : Char} {out : List Token} {m : Mode}
    (h : feed (.literal read) ('\\' :: c :: text) = some (out, m)) :
    ∃ d, feed (.literal (read ++ [d])) text = some (out, m) := by
  obtain ⟨front, m', back, hstep, hback, rfl⟩ := feed_cons_inv h
  obtain ⟨rfl, rfl⟩ := Prod.mk.inj (Option.some.inj hstep)
  obtain ⟨front, m', back, hstep, hback, rfl⟩ := feed_cons_inv hback
  obtain ⟨d, -, hd⟩ := Option.map_eq_some_iff.mp hstep
  obtain ⟨rfl, rfl⟩ := Prod.mk.inj hd
  exact ⟨d, hback⟩

theorem feed_plain_inv {read text : List Char} {c : Char} (hc : c ≠ '"' ∧ c ≠ '\\' ∧ c ≠ '\n' ∧ c ≠ '\r')
    {out : List Token} {m : Mode} (h : feed (.literal read) (c :: text) = some (out, m)) :
    feed (.literal (read ++ [c])) text = some (out, m) := by
  obtain ⟨front, m', back, hstep, hback, rfl⟩ := feed_cons_inv h
  rw [step_plain hc] at hstep
  obtain ⟨rfl, rfl⟩ := Prod.mk.inj (Option.some.inj hstep)
  exact hback

theorem feed_plain {text : List Char} (h : Plain text) (read : List Char) :
    feed (.literal read) text = some ([], .literal (read ++ text)) := by
  induction text generalizing read with
  | nil => rw [feed, List.append_nil]
  | cons c text ih =>
    have hrest := ih (fun d hd => h d (List.mem_cons_of_mem c hd)) (read ++ [c])
    rw [feed_cons (step_plain (h c (List.mem_cons_self ..)) read) hrest, List.append_assoc]
    rfl

/-- A literal does not go beyond its line. -/
theorem feed_lineEnd {text : List Char} (h : Plain text) (read more : List Char) :
    feed (.literal read) (text ++ '\n' :: more) = none := by
  rw [feed_append (feed_plain h read)]
  rfl

/-- A text with a quote behind it is read as a literal no longer than it is, and shorter unless
the text is plain; the line goes on plainly. -/
theorem literal_length {text line more read : List Char} (hline : Plain line) {out : List Token} {m : Mode}
    (h : feed (.literal read) (text ++ '"' :: (line ++ '\n' :: more)) = some (out, m)) :
    ∃ value rest, out = .literal (read ++ value) :: rest ∧ value.length ≤ text.length ∧
      (value.length = text.length → Plain text) := by
  induction hn : text.length using Nat.strong_induction_on generalizing text read out with
  | _ n ih =>
    cases text with
    | nil =>
      obtain ⟨rest, rfl⟩ := feed_quote_inv h
      exact ⟨[], rest, by simp, Nat.zero_le _, fun _ c hc => by cases hc⟩
    | cons c text =>
      rw [List.length_cons] at hn
      by_cases hquote : c = '"'
      · subst hquote
        obtain ⟨rest, rfl⟩ := feed_quote_inv h
        exact ⟨[], rest, by simp, Nat.zero_le _, fun hlength => absurd hlength (by simp [← hn])⟩
      by_cases hbackslash : c = '\\'
      · subst hbackslash
        cases text with
        | nil =>
          -- the backslash takes the quote, and the line ends inside the literal
          obtain ⟨d, hback⟩ := feed_backslash_inv h
          rw [feed_lineEnd hline] at hback
          cases hback
        | cons d text =>
          obtain ⟨e, hback⟩ := feed_backslash_inv h
          rw [List.length_cons] at hn
          obtain ⟨value, rest, rfl, hle, -⟩ := ih text.length (by omega) hback rfl
          refine ⟨e :: value, rest, by simp, ?_, fun hlength => ?_⟩
          · rw [List.length_cons]
            omega
          · rw [List.length_cons] at hlength
            omega
      by_cases hend : c = '\n' ∨ c = '\r'
      · obtain ⟨front, m', back, hstep, -, -⟩ := feed_cons_inv h
        rw [step, if_neg hquote, if_neg hbackslash, if_pos hend] at hstep
        cases hstep
      have hc : c ≠ '"' ∧ c ≠ '\\' ∧ c ≠ '\n' ∧ c ≠ '\r' := ⟨hquote, hbackslash, not_or.mp hend⟩
      have hback := feed_plain_inv hc h
      obtain ⟨value, rest, rfl, hle, hplain⟩ := ih text.length (by omega) hback rfl
      refine ⟨c :: value, rest, by simp, ?_, fun hlength d hd => ?_⟩
      · rw [List.length_cons]
        omega
      · rcases List.mem_cons.mp hd with rfl | hd
        · exact hc
        · rw [List.length_cons] at hlength
          exact hplain (by omega) d hd

/-- **A text that its literal begins with is plain.** -/
theorem literal_plain {text line more : List Char} (hline : Plain line) {out : List Token} {m : Mode}
    (h : feed (.literal []) (text ++ '"' :: (line ++ '\n' :: more)) = some (out, m)) :
    ∃ value rest, out = .literal value :: rest ∧ (text <+: value → Plain text) := by
  obtain ⟨value, rest, hout, hle, hplain⟩ := literal_length hline h
  exact ⟨value, rest, hout, fun hbegins => hplain (le_antisymm hle hbegins.length_le)⟩

/-! ### Names -/

/-- The words of the language, which are no names. -/
def keywords : List String :=
  ["alignas", "alignof", "and", "and_eq", "asm", "auto", "bitand", "bitor", "bool", "break", "case",
    "catch", "char", "char16_t", "char32_t", "class", "compl", "const", "const_cast", "constexpr",
    "continue", "decltype", "default", "delete", "do", "double", "dynamic_cast", "else", "enum", "explicit",
    "export", "extern", "false", "float", "for", "friend", "goto", "if", "inline", "int", "long", "mutable",
    "namespace", "new", "noexcept", "not", "not_eq", "nullptr", "operator", "or", "or_eq", "private",
    "protected", "public", "register", "reinterpret_cast", "return", "short", "signed", "sizeof", "static",
    "static_assert", "static_cast", "struct", "switch", "template", "this", "thread_local", "throw", "true",
    "try", "typedef", "typeid", "typename", "union", "unsigned", "using", "virtual", "void", "volatile",
    "wchar_t", "while", "xor", "xor_eq"]

def isIdentifier (name : List Char) : Bool :=
  match name with
  | [] => false
  | c :: _ => !c.isDigit && name.all isWord && keywords.all fun keyword => keyword.toList ≠ name

/-! ### Code -/

/-- Behind a word the next text is read as in code. -/
theorem feed_word_end {c : Char} (hc : isWord c = false) {name text : List Char} {out : List Token} {m : Mode}
    (h : feed .code (c :: text) = some (out, m)) : feed (.word name) (c :: text) = some (.word name :: out, m) := by
  obtain ⟨front, m', back, hstep, hback, rfl⟩ := feed_cons_inv h
  obtain ⟨rfl, rfl⟩ := Prod.mk.inj (Option.some.inj hstep)
  have hword : step (.word name) c = some (.word name :: (inCode c).1, (inCode c).2) := by
    rw [step, hc]
    rfl
  exact feed_cons hword hback

/-- Behind a literal the next text is code. -/
theorem feed_literal_end {value text : List Char} {out : List Token} {m : Mode}
    (h : feed .code text = some (out, m)) :
    feed (.literal value) ('"' :: text) = some (.literal value :: out, m) := by
  have hquote : step (.literal value) '"' = some ([.literal value], .code) := rfl
  exact feed_cons hquote h

theorem tokens_append {text : List Char} {front : List Token} (h : feed .code text = some (front, .code))
    (more : List Char) : tokens (text ++ more) = (tokens more).map (front ++ ·) := by
  rw [tokens, feed_append h, tokens]
  rcases feed .code more with - | ⟨back, m⟩
  · rfl
  · cases m with
    | code => rfl
    | word name => simp
    | literal value => rfl
    | escape value => rfl

theorem feed_of_tokens {text : List Char} {out : List Token} (h : tokens text = some out) :
    ∃ front m, feed .code text = some (front, m) ∧ front <+: out := by
  unfold tokens at h
  split at h
  · rename_i front hfeed
    exact ⟨front, _, hfeed, Option.some.inj h ▸ List.prefix_rfl⟩
  · rename_i front name hfeed
    exact ⟨front, _, hfeed, Option.some.inj h ▸ List.prefix_append _ _⟩
  · cases h

/-- A text that is read without a certain word in it. -/
def Without (name : List Char) (m : Mode) (text : List Char) (m' : Mode) : Prop :=
  ∃ out, feed m text = some (out, m') ∧ .word name ∉ out

theorem Without.append {name text more : List Char} {m m' m'' : Mode} (h : Without name m text m')
    (h' : Without name m' more m'') : Without name m (text ++ more) m'' := by
  obtain ⟨front, hfront, hnot⟩ := h
  obtain ⟨back, hback, hnot'⟩ := h'
  refine ⟨front ++ back, feed_append_some hfront hback, fun hmem => ?_⟩
  rcases List.mem_append.mp hmem with hmem | hmem
  · exact hnot hmem
  · exact hnot' hmem

/-- `Without`, computed. -/
def passes (name : List Char) (m : Mode) (text : List Char) (m' : Mode) : Bool :=
  match feed m text with
  | some (out, last) => out.all (· ≠ .word name) && decide (last = m')
  | none => false

theorem without_of_passes {name text : List Char} {m m' : Mode} (h : passes name m text m' = true) :
    Without name m text m' := by
  unfold passes at h
  split at h
  · rename_i out last hfeed
    rw [Bool.and_eq_true, List.all_eq_true] at h
    obtain ⟨hall, hlast⟩ := h
    refine ⟨out, of_decide_eq_true hlast ▸ hfeed, fun hmem => ?_⟩
    exact absurd rfl (of_decide_eq_true (hall _ hmem))
  · cases h

/-- Text that begins and ends in code, and what follows it. -/
theorem Without.code_append {name text more : List Char} {m : Mode}
    (h : passes name .code text .code = true) (h' : Without name .code more m) :
    Without name .code (text ++ more) m :=
  (without_of_passes h).append h'

theorem Without.literal_end {name value text : List Char} {m : Mode} (h : Without name .code text m) :
    Without name (.literal value) ('"' :: text) m := by
  obtain ⟨out, hout, hnot⟩ := h
  refine ⟨.literal value :: out, feed_literal_end hout, fun hmem => ?_⟩
  rcases List.mem_cons.mp hmem with heq | hmem
  · cases heq
  · exact hnot hmem

theorem Without.of_nil {name text : List Char} {m m' : Mode} (h : feed m text = some ([], m')) :
    Without name m text m' :=
  ⟨[], h, List.not_mem_nil⟩

end Library.CppTokens
