import CoroutineRpc.Library.Regex

/-! The generator's parser of proto files.

Comments are taken out by two substitutions, the line comments first. Then services are
searched for one after the other; the body of each ends where its braces close, and its
methods are what one regular expression finds there. The text is what `f.read()` gives: line
ends are `\n`. Which characters beyond ASCII are letters or digits is a parameter. -/
namespace CoroutineRpc.Scripts
open Library.Regex

structure Method where
  name : List Char
  req : List Char
  resp : List Char
deriving DecidableEq

structure Service where
  name : List Char
  methods : List Method
deriving DecidableEq

/-! ### Kinds of characters -/

/-- `\s`. -/
def isSpace (c : Char) : Bool :=
  0x09 ≤ c.toNat && c.toNat ≤ 0x0d || 0x1c ≤ c.toNat && c.toNat ≤ 0x20 || c.toNat = 0x85 || c.toNat = 0xa0 ||
    c.toNat = 0x1680 || 0x2000 ≤ c.toNat && c.toNat ≤ 0x200a || c.toNat = 0x2028 || c.toNat = 0x2029 ||
    c.toNat = 0x202f || c.toNat = 0x205f || c.toNat = 0x3000

/-- `[A-Za-z_]`. -/
def isHead (c : Char) : Bool := c.isAlpha || c = '_'

/-- `[A-Za-z_.]`. -/
def isTypeHead (c : Char) : Bool := isHead c || c = '.'

section
variable (isalnum : Char → Bool)

/-- `\w`. -/
def isWordChar (c : Char) : Bool := c.isAlphanum || c = '_' || 0x80 ≤ c.toNat && isalnum c

/-- `[\w.]`. -/
def isTypeChar (c : Char) : Bool := isWordChar isalnum c || c = '.'

/-- `^` with `re.M`. -/
def lineStart : Item Char := look fun prev _ =>
  match prev with
  | none => true
  | some c => c = '\n'

/-- `\b`. -/
def boundary : Item Char := look fun prev next => prev.any (isWordChar isalnum) ≠ next.any (isWordChar isalnum)

/-! ### Comments -/

def lineComment : List (Item Char) := [lit ['/', '/'], many 0 (· ≠ '\n')]

def blockComment : List (Item Char) := [lit ['/', '*'], lazy, lit ['*', '/']]

def stripComments (text : List Char) : List Char := remove blockComment (remove lineComment text)

/-! ### Declarations -/

def packageRow : List (Item Char) :=
  [lineStart, many 0 isSpace, lit "package".toList, many 1 isSpace, word isHead (isTypeChar isalnum),
    many 0 isSpace, lit [';']]

def serviceRow : List (Item Char) :=
  [lineStart, many 0 isSpace, lit "service".toList, many 1 isSpace, word isHead (isWordChar isalnum),
    many 0 isSpace, lit ['{']]

/-- From the blanks behind `returns` on. -/
def responseRow : List (Item Char) :=
  [many 0 isSpace, lit ['('], many 0 isSpace, word isTypeHead (isTypeChar isalnum), many 0 isSpace, lit [')'],
    many 0 isSpace, lit [';']]

/-- From the blanks behind the name on. -/
def requestRow : List (Item Char) :=
  [many 0 isSpace, lit ['('], many 0 isSpace, word isTypeHead (isTypeChar isalnum), many 0 isSpace, lit [')'],
    many 1 isSpace, lit "returns".toList] ++ responseRow isalnum

def rpcRow : List (Item Char) :=
  [boundary isalnum, lit "rpc".toList, many 1 isSpace, word isHead (isWordChar isalnum)] ++ requestRow isalnum

/-- The groups of a match of `rpcRow`. -/
def methodOf (parts : List (List Char)) : Method := ⟨parts.getD 3 [], parts.getD 7 [], parts.getD 15 []⟩

def methodsOf (body : List Char) : List Method := (find (rpcRow isalnum) none body).map methodOf

/-- From a brace to the one that closes it: the text up to there, and the text behind it. -/
def scanBraces (depth : Int) : List Char → List Char × List Char
  | [] => ([], [])
  | c :: text =>
    if c = '{' then (c :: (scanBraces (depth + 1) text).1, (scanBraces (depth + 1) text).2)
    else if c = '}' then
      if depth - 1 = 0 then ([], text)
      else (c :: (scanBraces (depth - 1) text).1, (scanBraces (depth - 1) text).2)
    else (c :: (scanBraces depth text).1, (scanBraces depth text).2)

theorem scanBraces_length (depth : Int) (text : List Char) : (scanBraces depth text).2.length ≤ text.length := by
  induction text generalizing depth with
  | nil => exact Nat.le_refl 0
  | cons c text ih =>
    rw [scanBraces]
    split
    · exact Nat.le_succ_of_le (ih _)
    · split
      · split
        · exact Nat.le_succ _
        · exact Nat.le_succ_of_le (ih _)
      · exact Nat.le_succ_of_le (ih _)

/-- The loop of `parse_proto` on the text from `pos` on. -/
def servicesOf (text : List Char) : List Service :=
  match _ : search (serviceRow isalnum) none text with
  | none => []
  | some (parts, rest) =>
    ⟨parts.getD 4 [], methodsOf isalnum (scanBraces 0 ('{' :: rest)).1⟩ ::
      servicesOf (scanBraces 0 ('{' :: rest)).2
termination_by text.length
decreasing_by
  have hservice : lit "service".toList ∈ serviceRow isalnum := by simp [serviceRow]
  have hlength := search_lit_length hservice ‹search (serviceRow isalnum) none text = some (parts, rest)›
  have hbraces : (scanBraces 0 ('{' :: rest)).2.length ≤ rest.length := scanBraces_length 1 rest
  have hseven : "service".toList.length = 7 := by decide
  omega

def packageOf (text : List Char) : List Char :=
  match search (packageRow isalnum) none text with
  | none => []
  | some (parts, _) => parts.getD 4 []

def parseProto (text : List Char) : List Char × List Service :=
  (packageOf isalnum (stripComments text), servicesOf isalnum (stripComments text))

end

end CoroutineRpc.Scripts
