import CoroutineRpc.Scripts.ProtoParser

/-! Proto files as they may be laid out.

A file is services, a service is unary `rpc` declarations; blanks stand between the tokens and
comments between the declarations. Taking the comments out in two steps goes wrong where a
line comment begins inside a block comment, or seems to begin at its end; where it does not
(`Tidy`), blanks are left in their place (`stripComments_file`). -/
namespace CoroutineRpc.Scripts.Layout
open Library.Regex

/-! ### Tokens -/

def isBlank (c : Char) : Bool := c = ' ' || c = '\t' || c = '\n' || c = '\x0b' || c = '\x0c'

abbrev Blank := {text : List Char // ∀ c ∈ text, isBlank c = true}

def isIdentChar (c : Char) : Bool := c.isAlphanum || c = '_'

structure Ident where
  first : Char
  more : List Char
  first_ok : isHead first = true
  more_ok : ∀ c ∈ more, isIdentChar c = true

def Ident.text (name : Ident) : List Char := name.first :: name.more

/-- Names and dots. -/
structure TypeName where
  first : Char
  more : List Char
  first_ok : isTypeHead first = true
  more_ok : ∀ c ∈ more, (isIdentChar c || c = '.') = true

def TypeName.text (name : TypeName) : List Char := name.first :: name.more

/-- Every brace is closed. -/
inductive Balanced : List Char → Prop
  | nil : Balanced []
  | char {c : Char} {text : List Char} (hopen : c ≠ '{') (hclose : c ≠ '}') (h : Balanced text) :
      Balanced (c :: text)
  | block {inner text : List Char} (hinner : Balanced inner) (h : Balanced text) :
      Balanced ('{' :: (inner ++ '}' :: text))

inductive Ending where
  | semicolon
  | block (content : List Char) (balanced : Balanced content)
deriving DecidableEq

def Ending.text : Ending → List Char
  | .semicolon => [';']
  | .block content _ => '{' :: (content ++ ['}'])

/-! ### Declarations -/

structure Rpc where
  afterRpc : Blank
  afterRpc_ok : afterRpc.1 ≠ []
  name : Ident
  afterName : Blank
  beforeRequest : Blank
  request : TypeName
  afterRequest : Blank
  beforeReturns : Blank
  afterReturns : Blank
  beforeResponse : Blank
  response : TypeName
  afterResponse : Blank
  beforeEnding : Blank
  ending : Ending

namespace Rpc

def responseText (r : Rpc) : List Char :=
  r.afterReturns.1 ++ (['('] ++ (r.beforeResponse.1 ++ (r.response.text ++ (r.afterResponse.1 ++ ([')'] ++
    (r.beforeEnding.1 ++ r.ending.text))))))

def requestText (r : Rpc) : List Char :=
  r.afterName.1 ++ (['('] ++ (r.beforeRequest.1 ++ (r.request.text ++ (r.afterRequest.1 ++ ([')'] ++
    (r.beforeReturns.1 ++ ("returns".toList ++ r.responseText)))))))

def text (r : Rpc) : List Char := "rpc".toList ++ (r.afterRpc.1 ++ (r.name.text ++ r.requestText))

def method (r : Rpc) : Method := ⟨r.name.text, r.request.text, r.response.text⟩

/-- Ended by `;`, and something stands between `)` and `returns`. -/
def Plain (r : Rpc) : Prop := r.ending = .semicolon ∧ r.beforeReturns.1 ≠ []

instance (r : Rpc) : Decidable r.Plain := inferInstanceAs (Decidable (_ ∧ _))

/-- The option block has nothing in it that looks like a declaration or a comment. -/
def Quiet (r : Rpc) : Prop :=
  ∀ content balanced, r.ending = .block content balanced →
    ¬ "rpc".toList <:+: content ∧ ¬ ['/', '/'] <:+: content ∧ ¬ ['/', '*'] <:+: content

end Rpc

inductive Comment where
  | line (text : List Char) (unbroken : '\n' ∉ text)
  | block (text : List Char) (unclosed : ¬ ['*', '/'] <:+: text)

namespace Comment

def text : Comment → List Char
  | line text _ => ['/', '/'] ++ (text ++ ['\n'])
  | block text _ => ['/', '*'] ++ (text ++ ['*', '/'])

/-- What is left of it. -/
def bare : Comment → List Char
  | line _ _ => ['\n']
  | block _ _ => []

/-- The line of what looks like a line comment ends inside the block comment. -/
def Tidy : Comment → Prop
  | line _ _ => True
  | block text _ => ∀ before behind, text = before ++ '/' :: '/' :: behind → '\n' ∈ behind

def IsBlock : Comment → Prop
  | line _ _ => False
  | block _ _ => True

end Comment

/-- What stands between declarations. -/
structure Gap where
  first : Blank
  comments : List (Comment × Blank)

namespace Gap

def commentsText (comments : List (Comment × Blank)) : List Char := comments.flatMap fun c => c.1.text ++ c.2.1

def text (g : Gap) : List Char := g.first.1 ++ commentsText g.comments

def bare (g : Gap) : List Char := g.first.1 ++ g.comments.flatMap fun c => c.1.bare ++ c.2.1

/-- Each comment is tidy, and no block comment is directly followed by a comment. -/
def TidyComments : List (Comment × Blank) → Prop
  | [] => True
  | c :: comments => c.1.Tidy ∧ (comments ≠ [] → c.1.IsBlock → c.2.1 ≠ []) ∧ TidyComments comments

def Tidy (g : Gap) : Prop := TidyComments g.comments

end Gap

structure ServiceDecl where
  afterService : Blank
  afterService_ok : afterService.1 ≠ []
  name : Ident
  afterName : Blank
  opening : Gap
  rpcs : List (Rpc × Gap)

namespace ServiceDecl

def headText (s : ServiceDecl) : List Char :=
  "service".toList ++ (s.afterService.1 ++ (s.name.text ++ (s.afterName.1 ++ ['{'])))

def text (s : ServiceDecl) : List Char :=
  s.headText ++ (s.opening.text ++ (s.rpcs.flatMap (fun r => r.1.text ++ r.2.text) ++ ['}']))

def service (s : ServiceDecl) : Service := ⟨s.name.text, s.rpcs.map fun r => r.1.method⟩

def Tidy (s : ServiceDecl) : Prop := s.opening.Tidy ∧ ∀ r ∈ s.rpcs, r.2.Tidy

end ServiceDecl

structure File where
  lead : Gap
  services : List (ServiceDecl × Gap)
  /-- A line comment that the file ends in without a line end. -/
  last : Option {text : List Char // '\n' ∉ text}

namespace File

def declarations (f : File) : List Char := f.lead.text ++ f.services.flatMap fun s => s.1.text ++ s.2.text

def lastText (f : File) : List Char :=
  match f.last with
  | none => []
  | some text => ['/', '/'] ++ text.1

def text (f : File) : List Char := f.declarations ++ f.lastText

/-- The comments can be taken out one kind after the other. -/
structure Tidy (f : File) : Prop where
  lead : f.lead.Tidy
  services : ∀ s ∈ f.services, s.1.Tidy ∧ s.2.Tidy
  last : f.last ≠ none → f.declarations.getLast? ≠ some '/'

def AllPlain (f : File) : Prop := ∀ s ∈ f.services, ∀ r ∈ s.1.rpcs, r.1.Plain

def QuietBlocks (f : File) : Prop := ∀ s ∈ f.services, ∀ r ∈ s.1.rpcs, r.1.Quiet

/-- The parser finds the services with their methods. -/
def Parses (isalnum : Char → Bool) (f : File) : Prop :=
  (parseProto isalnum f.text).2 = f.services.map fun s => s.1.service

end File

end CoroutineRpc.Scripts.Layout
