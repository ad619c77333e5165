import CoroutineRpc.Library.CppTokens
import Mathlib.Data.List.DropRight
import Mathlib.Data.List.Forall2

/-! The servlets of a generated HTTP server.

The generator makes a class of each path and a line that registers it, as C++ text. The name
of the class is the letters and digits of the path: a lower-case letter that begins a word
becomes its capital, and whatever separated the words is gone. So two paths may get one class
(`Confusable`), a path may get a name that is none, and a path may not be the literal that it
is written into; apart from that the servlets are distinct (`noCollision_iff`). -/
namespace CoroutineRpc.Scripts
open Library.CppTokens

/-! ### The generator -/

/-- `re.split(r"[^A-Za-z0-9]+", text)`. -/
def reSplit (text : List Char) : List (List Char) :=
  match _ : text.dropWhile Char.isAlphanum with
  | [] => [text]
  | _ :: rest => text.takeWhile Char.isAlphanum :: reSplit (rest.dropWhile fun c => !c.isAlphanum)
termination_by text.length
decreasing_by
  have hdrop := List.length_dropWhile_le Char.isAlphanum text
  have hrest := List.length_dropWhile_le (fun c => !c.isAlphanum) rest
  rw [‹text.dropWhile Char.isAlphanum = _ :: rest›, List.length_cons] at hdrop
  omega

/-- `path.strip("/")`. -/
def strip (path : List Char) : List Char := (path.dropWhile (· = '/')).rdropWhile (· = '/')

/-- `p[0].upper() + p[1:]`. -/
def capitalize : List Char → List Char
  | [] => []
  | c :: rest => c.toUpper :: rest

def servletClassFromPath (path : List Char) : List Char :=
  let parts := (reSplit (strip path)).filter (· ≠ [])
  if parts = [] then "Root".toList else parts.flatMap capitalize

def cls (path : List Char) : List Char := servletClassFromPath path ++ "Servlet".toList

def body (path : List Char) : List Char :=
  if path = "/echo".toList then
    "    setHttpCode(response, crpc::HTTP_OK);\n".toList ++
      ("    setHttpContentType(response, \"text/plain;charset=utf-8\");\n".toList ++
      "    setHttpBody(response, request->m_request_body);\n".toList)
  else
    "    setHttpCode(response, crpc::HTTP_OK);\n".toList ++
      ("    setHttpContentType(response, \"text/plain;charset=utf-8\");\n".toList ++
      ("\n".toList ++
      ("    std::string name = \"world\";\n".toList ++
      ("    const auto it = request->m_query_maps.find(\"name\");\n".toList ++
      ("    if (it != request->m_query_maps.end() && !it->second.empty()) \x7b\n".toList ++
      ("      name = it->second;\n".toList ++
      ("    \x7d\n".toList ++
      "    setHttpBody(response, \"hello \" + name + \"\\n\");\n".toList)))))))

def classBlock (path : List Char) : List Char :=
  "class ".toList ++ (cls path ++ (" : public crpc::HttpServlet \x7b\n".toList ++
    (" public:\n".toList ++
    ("  void handle(crpc::HttpRequest* request,\n".toList ++
    ("              crpc::HttpResponse* response) override \x7b\n".toList ++
    (body path ++
    ("  \x7d\n".toList ++
    ("\n".toList ++
    ("  std::string getServletName() override \x7b\n".toList ++
    ("    return \"".toList ++ (cls path ++ ("\";\n".toList ++
    ("  \x7d\n".toList ++
    "\x7d;\n".toList)))))))))))))

def blockHttpServletClasses (servletPaths : List (List Char)) : List Char :=
  ['\n'].intercalate (servletPaths.map classBlock)

def registerLine (path : List Char) : List Char :=
  "  if (server->registerHttpServlet(\n".toList ++
    ("          \"".toList ++ (path ++ ("\", std::make_shared<".toList ++ (cls path ++ (">())) \x7b\n".toList ++
    ("    InfoLog << \"event=servlet_registered path=".toList ++ (path ++ ("\";\n".toList ++
    ("  \x7d else \x7b\n".toList ++
    ("    register_ok = false;\n".toList ++
    "  \x7d".toList))))))))))

def blockHttpRegisterLines (servletPaths : List (List Char)) : List Char :=
  ['\n'].intercalate (servletPaths.map registerLine)

/-! ### What the text says -/

def nameAfter : List Token → List (List Char)
  | .word name :: _ => [name]
  | _ => []

/-- The names that follow `class`. -/
def definedClasses : List Token → List (List Char)
  | [] => []
  | token :: rest =>
    if token = .word "class".toList then nameAfter rest ++ definedClasses rest else definedClasses rest

/-- Behind `registerHttpServlet`: `(`, a literal, `, std::make_shared<`, a name and `>`. The
parameter is a `std::string` made of the literal's `const char*`. -/
def registration : List Token → Option (List Char × List Char)
  | .mark a :: .literal path :: .mark b :: .word std :: .mark c :: .mark d :: .word make :: .mark e ::
      .word name :: .mark f :: _ =>
    if [a, b, c, d, e, f] = ['(', ',', ':', ':', '<', '>'] ∧ std = "std".toList ∧ make = "make_shared".toList then
      some (cText path, name)
    else none
  | _ => none

/-- What is registered, path by path; `none` if a registration cannot be read. -/
def registrations : List Token → Option (List (List Char × List Char))
  | [] => some []
  | token :: rest =>
    if token = .word "registerHttpServlet".toList then
      (registration rest).bind fun first => (registrations rest).map (first :: ·)
    else registrations rest

def classNames (text : List Char) : Option (List (List Char)) := (tokens text).map definedClasses

def registered (text : List Char) : Option (List (List Char × List Char)) := (tokens text).bind registrations

/-- The classes have different names, which are names, and each path is registered with the
class that was made of it. -/
def NoCollision (paths : List (List Char)) : Prop :=
  ∃ names, classNames (blockHttpServletClasses paths) = some names ∧ names.Nodup ∧
    (∀ name ∈ names, isIdentifier name = true) ∧
    registered (blockHttpRegisterLines paths) = some (paths.zip names)

/-! ### Letters and digits -/

/-- The letters and digits, and whether each begins a word. -/
def letters : (inside : Bool) → List Char → List (Char × Bool)
  | _, [] => []
  | inside, c :: text => if c.isAlphanum then (c, !inside) :: letters true text else letters false text

/-- A path without any has those of "Root". -/
def spelled (path : List Char) : List (Char × Bool) :=
  if letters false path = [] then letters false "Root".toList else letters false path

/-- The same, once a lower-case letter that begins a word counts as its capital. -/
def Alike (x y : Char × Bool) : Prop :=
  x.1 = y.1 ∧ (x.2 = y.2 ∨ x.1.isLower = false) ∨
    x.1.isLower = true ∧ x.2 = true ∧ y.1 = x.1.toUpper ∨
    y.1.isLower = true ∧ y.2 = true ∧ x.1 = y.1.toUpper

/-- Letter by letter alike, wherever the separators are and whatever they are. -/
def Confusable (path path' : List Char) : Prop := List.Forall₂ Alike (spelled path) (spelled path')

/-- Paths that the generator makes a server of. -/
structure Servable (paths : List (List Char)) : Prop where
  plain : ∀ path ∈ paths, Plain path ∧ '\x00' ∉ path
  start : ∀ path ∈ paths, ∀ x ∈ (spelled path).head?, x.1.isDigit = false
  apart : paths.Pairwise fun path path' => ¬ Confusable path path'

/-! ### The name of a class -/

/-- The character in the name. -/
def up (x : Char × Bool) : Char := if x.2 then x.1.toUpper else x.1

theorem isLower_iff (c : Char) : c.isLower = true ↔ 'a'.val ≤ c.val ∧ c.val ≤ 'z'.val := by
  show (decide ('a'.val ≤ c.val) && decide (c.val ≤ 'z'.val)) = true ↔ _
  rw [Bool.and_eq_true, decide_eq_true_eq, decide_eq_true_eq]

theorem toUpper_of_not_isLower {c : Char} (h : c.isLower = false) : c.toUpper = c :=
  dif_neg fun hrange => by simp [(isLower_iff c).mpr hrange] at h

theorem mem_of_isLower {c : Char} (h : c.isLower = true) : c ∈ "abcdefghijklmnopqrstuvwxyz".toList := by
  have hrange : 97 ≤ c.toNat ∧ c.toNat ≤ 122 := by
    simpa [UInt32.le_iff_toNat_le] using (isLower_iff c).mp h
  obtain ⟨k, hk, hc⟩ : ∃ k < 26, c.toNat = 97 + k := ⟨c.toNat - 97, by omega, by omega⟩
  have hall : ∀ k < 26, Char.ofNat (97 + k) ∈ "abcdefghijklmnopqrstuvwxyz".toList := by decide
  rw [← Char.ofNat_toNat c, hc]
  exact hall k hk

/-- A capital is a letter, and of one letter only. -/
theorem toUpper_facts {c : Char} (h : c.isLower = true) :
    c.toUpper.isLower = false ∧ c.toUpper.isAlphanum = true ∧ c.toUpper.isDigit = false ∧ c.isDigit = false ∧
      ∀ d, d.isLower = true → c.toUpper = d.toUpper → c = d := by
  have hall : ("abcdefghijklmnopqrstuvwxyz".toList.all fun c =>
      !c.toUpper.isLower && c.toUpper.isAlphanum && !c.toUpper.isDigit && !c.isDigit &&
        "abcdefghijklmnopqrstuvwxyz".toList.all fun d => c.toUpper != d.toUpper || c == d) = true := by
    decide
  simp only [List.all_eq_true, Bool.and_eq_true, Bool.not_eq_true', Bool.or_eq_true, bne_iff_ne, beq_iff_eq] at hall
  obtain ⟨⟨⟨⟨hlower, halnum⟩, hdigit⟩, hdigit'⟩, hone⟩ := hall c (mem_of_isLower h)
  refine ⟨hlower, halnum, hdigit, hdigit', fun d hd heq => ?_⟩
  exact (hone d (mem_of_isLower hd)).resolve_left (not_not_intro heq)

theorem alike_iff (x y : Char × Bool) : Alike x y ↔ up x = up y := by
  obtain ⟨c, first⟩ := x
  obtain ⟨d, first'⟩ := y
  have hc := @toUpper_of_not_isLower c
  have hd := @toUpper_of_not_isLower d
  have hcapital := @toUpper_facts c
  have hcapital' := @toUpper_facts d
  cases first with
  | false => cases first' with
    | false => grind [Alike, up]
    | true => grind [Alike, up]
  | true => cases first' with
    | false => grind [Alike, up]
    | true => grind [Alike, up]

theorem confusable_iff (path path' : List Char) :
    Confusable path path' ↔ (spelled path).map up = (spelled path').map up := by
  have halike : Alike = fun x y => up x = up y := funext fun x => funext fun y => propext (alike_iff x y)
  rw [Confusable, halike, ← List.forall₂_map_right_iff (R := fun x c => up x = c),
    ← List.forall₂_map_left_iff (R := fun c d => c = d), List.forall₂_eq_eq_eq]

/-! ### The letters make the name -/

theorem letters_separators {text : List Char} (h : ∀ c ∈ text, c.isAlphanum = false) (inside : Bool) :
    letters inside text = [] := by
  induction text generalizing inside with
  | nil => rfl
  | cons c text ih =>
    rw [letters, h c (List.mem_cons_self ..)]
    exact ih (fun d hd => h d (List.mem_cons_of_mem c hd)) false

theorem letters_dropWhile {separator : Char → Bool} (h : ∀ c, separator c = true → c.isAlphanum = false)
    (text : List Char) : letters false (text.dropWhile separator) = letters false text := by
  induction text with
  | nil => rfl
  | cons c text ih =>
    cases hc : separator c with
    | true => rw [List.dropWhile_cons_of_pos hc, ih, letters, h c hc]; rfl
    | false => rw [List.dropWhile_cons_of_neg (by simp [hc])]

theorem letters_append {text more : List Char} (h : ∀ c ∈ more, c.isAlphanum = false) (inside : Bool) :
    letters inside (text ++ more) = letters inside text := by
  induction text generalizing inside with
  | nil => exact letters_separators h inside
  | cons c text ih =>
    rw [List.cons_append, letters, letters]
    split
    · rw [ih]
    · rw [ih]

theorem letters_strip (path : List Char) : letters false (strip path) = letters false path := by
  have hslash : ∀ c : Char, decide (c = '/') = true → c.isAlphanum = false := fun c hc => by
    rw [of_decide_eq_true hc]
    decide
  have hwhole := List.rdropWhile_append_rtakeWhile (p := fun c => decide (c = '/')) (l := path.dropWhile (· = '/'))
  rw [← letters_dropWhile hslash path, ← hwhole, letters_append, strip]
  exact fun c hc => hslash c (List.mem_rtakeWhile_imp (p := fun c => decide (c = '/')) hc)

/-- A word and what follows it. -/
theorem letters_word {word : List Char} (h : ∀ c ∈ word, c.isAlphanum = true) (rest : List Char)
    (hrest : ∀ c ∈ rest.head?, c.isAlphanum = false) :
    (letters false (word ++ rest)).map up = capitalize word ++ (letters false rest).map up := by
  have hinside : ∀ (word : List Char), (∀ c ∈ word, c.isAlphanum = true) →
      (letters true (word ++ rest)).map up = word ++ (letters false rest).map up := by
    intro word h
    induction word with
    | nil =>
      cases rest with
      | nil => rfl
      | cons c rest =>
        rw [List.nil_append, letters, letters, hrest c rfl]
        rfl
    | cons c word ih =>
      rw [List.cons_append, letters, h c (List.mem_cons_self ..)]
      exact congrArg (c :: ·) (ih fun d hd => h d (List.mem_cons_of_mem c hd))
  cases word with
  | nil => rfl
  | cons c word =>
    rw [List.cons_append, letters, h c (List.mem_cons_self ..)]
    exact congrArg (c.toUpper :: ·) (hinside word fun d hd => h d (List.mem_cons_of_mem c hd))

theorem flatMap_capitalize (parts : List (List Char)) :
    (parts.filter (· ≠ [])).flatMap capitalize = parts.flatMap capitalize := by
  induction parts with
  | nil => rfl
  | cons part parts ih =>
    cases part with
    | nil => exact ih
    | cons c part =>
      rw [List.filter_cons_of_pos (by simp), List.flatMap_cons, List.flatMap_cons, ih]

/-- **The parts of a path are its words.** -/
theorem reSplit_letters (text : List Char) :
    (reSplit text).flatMap capitalize = (letters false text).map up := by
  induction hn : text.length using Nat.strong_induction_on generalizing text with
  | _ n ih =>
    have htext := List.takeWhile_append_dropWhile (p := Char.isAlphanum) (l := text)
    have hword : ∀ c ∈ text.takeWhile Char.isAlphanum, c.isAlphanum = true := fun c hc =>
      List.mem_takeWhile_imp hc
    rw [reSplit]
    split
    · rename_i hdrop
      rw [hdrop, List.append_nil] at htext
      have h := letters_word hword [] (fun c hc => by cases hc)
      rw [List.append_nil, htext] at h
      rw [h, List.flatMap_cons]
      rfl
    · rename_i sep rest hdrop
      have hsep : sep.isAlphanum = false := by
        have h := List.head?_dropWhile_not Char.isAlphanum text
        rw [hdrop] at h
        simpa using h
      have hlength : (rest.dropWhile fun c => !c.isAlphanum).length < n := by
        have hle := List.length_dropWhile_le (fun c => !c.isAlphanum) rest
        have := List.length_dropWhile_le Char.isAlphanum text
        rw [hdrop, List.length_cons] at this
        omega
      have h := letters_word hword (sep :: rest) fun c hc => by
        obtain rfl := Option.some.inj hc
        exact hsep
      rw [hdrop] at htext
      rw [htext, letters, hsep] at h
      rw [h, List.flatMap_cons, ih _ hlength _ rfl, letters_dropWhile fun c hc => by simpa using hc]
      rfl

/-- **The name of a class is the letters and digits of its path.** -/
theorem servletClassFromPath_eq (path : List Char) : servletClassFromPath path = (spelled path).map up := by
  have hparts : ((reSplit (strip path)).filter (· ≠ [])).flatMap capitalize = (letters false path).map up := by
    rw [flatMap_capitalize, reSplit_letters, letters_strip]
  rw [servletClassFromPath, spelled]
  by_cases hnone : (reSplit (strip path)).filter (· ≠ []) = []
  · rw [hnone] at hparts
    have hletters : letters false path = [] := List.map_eq_nil_iff.mp hparts.symm
    rw [if_pos hnone, if_pos hletters]
    decide
  · have hletters : letters false path ≠ [] := by
      intro hletters
      obtain ⟨part, parts, heq⟩ := List.exists_cons_of_ne_nil hnone
      have hpart : part ≠ [] := by
        have hmem : part ∈ (reSplit (strip path)).filter (· ≠ []) := heq ▸ List.mem_cons_self ..
        simpa using (List.mem_filter.mp hmem).2
      rw [hletters, heq, List.flatMap_cons] at hparts
      obtain ⟨c, rest, rfl⟩ := List.exists_cons_of_ne_nil hpart
      cases hparts
    rw [if_neg hnone, if_neg hletters, hparts]

theorem isAlphanum_of_mem_letters {text : List Char} {inside : Bool} {x : Char × Bool}
    (hx : x ∈ letters inside text) : x.1.isAlphanum = true := by
  induction text generalizing inside with
  | nil => cases hx
  | cons c text ih =>
    rw [letters] at hx
    split at hx
    · rename_i hc
      rcases List.mem_cons.mp hx with rfl | hx
      · exact hc
      · exact ih hx
    · exact ih hx

/-- The first letter begins a word. -/
theorem exists_letters_cons {text : List Char} (h : letters false text ≠ []) :
    ∃ x rest, letters false text = x :: rest ∧ x.2 = true := by
  induction text with
  | nil => exact absurd rfl h
  | cons c text ih =>
    rw [letters] at h ⊢
    split at h
    · rename_i hc
      exact ⟨(c, true), letters true text, if_pos hc, rfl⟩
    · rename_i hc
      rw [if_neg hc]
      exact ih h

theorem isAlphanum_up {x : Char × Bool} (h : x.1.isAlphanum = true) : (up x).isAlphanum = true := by
  obtain ⟨c, first⟩ := x
  cases first with
  | false => exact h
  | true =>
    cases hlower : c.isLower with
    | true => exact (toUpper_facts hlower).2.1
    | false => exact (congrArg Char.isAlphanum (toUpper_of_not_isLower hlower)).trans h

/-- What begins a word is no lower-case letter in the name. -/
theorem isLower_up {x : Char × Bool} (h : x.2 = true) : (up x).isLower = false := by
  rw [up, if_pos h]
  cases hlower : x.1.isLower with
  | true => exact (toUpper_facts hlower).1
  | false => rw [toUpper_of_not_isLower hlower, hlower]

theorem exists_spelled_eq (path : List Char) :
    ∃ text, letters false text ≠ [] ∧ spelled path = letters false text := by
  by_cases h : letters false path = []
  · exact ⟨"Root".toList, by decide, if_pos h⟩
  · exact ⟨path, h, if_neg h⟩

/-- The name of a class begins with no lower-case letter, and has no separators. -/
theorem cls_facts (path : List Char) : (∀ c ∈ cls path, c.isAlphanum = true) ∧
    ∃ x rest, (spelled path).head? = some x ∧ cls path = up x :: rest ∧ (up x).isLower = false := by
  obtain ⟨text, hne, htext⟩ := exists_spelled_eq path
  rw [cls, servletClassFromPath_eq, htext]
  refine ⟨fun c hc => ?_, ?_⟩
  · rcases List.mem_append.mp hc with hc | hc
    · obtain ⟨x, hx, rfl⟩ := List.mem_map.mp hc
      exact isAlphanum_up (isAlphanum_of_mem_letters hx)
    · have hservlet : ("Servlet".toList.all Char.isAlphanum) = true := by decide
      exact List.all_eq_true.mp hservlet c hc
  · obtain ⟨x, rest, hcons, hbegins⟩ := exists_letters_cons hne
    exact ⟨x, rest.map up ++ "Servlet".toList, by rw [hcons]; rfl, by rw [hcons]; rfl, isLower_up hbegins⟩

theorem cls_ne {path word : List Char} {c : Char} (h : word.head? = some c) (hc : c.isLower = true) :
    cls path ≠ word := by
  obtain ⟨-, x, rest, -, hcls, hlower⟩ := cls_facts path
  intro heq
  rw [← heq, hcls, List.head?_cons, Option.some.injEq] at h
  rw [h, hc] at hlower
  cases hlower

theorem feed_cls (path : List Char) : feed .code (cls path) = some ([], .word (cls path)) := by
  obtain ⟨halnum, x, rest, -, hcls, -⟩ := cls_facts path
  refine feed_name (by rw [hcls]; exact List.cons_ne_nil _ _) fun c hc => ?_
  rw [isWord, halnum c hc]
  rfl

/-- **The name is an identifier** unless a digit comes first. -/
theorem isIdentifier_cls (path : List Char) :
    isIdentifier (cls path) = true ↔ ∀ x ∈ (spelled path).head?, x.1.isDigit = false := by
  obtain ⟨halnum, x, rest, hhead, hcls, -⟩ := cls_facts path
  have hwords : (cls path).all isWord = true := List.all_eq_true.mpr fun c hc => by
    rw [isWord, halnum c hc]
    rfl
  have hkeywords : (keywords.all fun keyword => decide (keyword.toList ≠ cls path)) = true := by
    have hends : ∀ keyword ∈ keywords, ¬ "Servlet".toList <:+ keyword.toList := by decide
    refine List.all_eq_true.mpr fun keyword hkeyword => decide_eq_true fun heq => ?_
    exact hends keyword hkeyword (heq ▸ List.suffix_append _ _)
  have hdigit : (up x).isDigit = x.1.isDigit := by
    obtain ⟨c, first⟩ := x
    cases first with
    | false => rfl
    | true =>
      cases hlower : c.isLower with
      | true => exact (toUpper_facts hlower).2.2.1.trans (toUpper_facts hlower).2.2.2.1.symm
      | false => exact congrArg Char.isDigit (toUpper_of_not_isLower hlower)
  have hname : isIdentifier (cls path) = !x.1.isDigit := by
    rw [hcls] at hwords hkeywords ⊢
    rw [isIdentifier, hwords, hkeywords, hdigit, Bool.and_true, Bool.and_true]
  rw [hname, hhead]
  simp

/-! ### The classes -/

theorem definedClasses_skip {out : List Token} (h : .word "class".toList ∉ out) (more : List Token) :
    definedClasses (out ++ more) = definedClasses more := by
  induction out with
  | nil => rfl
  | cons token out ih =>
    have htoken : token ≠ .word "class".toList := fun heq => h (by rw [heq]; exact List.mem_cons_self ..)
    rw [List.cons_append, definedClasses, if_neg htoken]
    exact ih fun hmem => h (List.mem_cons_of_mem token hmem)

theorem without_body (path : List Char) : Without "class".toList .code (body path) .code := by
  unfold body
  split
  · repeat' refine .code_append (by rw [String.toList_ofList]; decide) ?_
    exact without_of_passes (by rw [String.toList_ofList]; decide)
  · repeat' refine .code_append (by rw [String.toList_ofList]; decide) ?_
    exact without_of_passes (by rw [String.toList_ofList]; decide)

theorem plain_cls (path : List Char) : Plain (cls path) := by
  intro c hc
  have halnum := (cls_facts path).1 c hc
  have hne : ∀ d : Char, d.isAlphanum = false → c ≠ d := by
    rintro d hd rfl
    exact Bool.noConfusion (hd.symm.trans halnum)
  exact ⟨hne _ (by decide), hne _ (by decide), hne _ (by decide), hne _ (by decide)⟩

/-- A class is defined where its name stands, and nowhere in text without `class`. -/
theorem feed_class {name rest : List Char} (hspace : [' '] <+: rest)
    (hname : feed .code name = some ([], .word name)) (hne : name ≠ "class".toList)
    (hrest : Without "class".toList .code rest .code) :
    ∃ out, feed .code ("class ".toList ++ (name ++ rest)) = some (out, .code) ∧
      ∀ more, definedClasses (out ++ more) = name :: definedClasses more := by
  obtain ⟨rest, rfl⟩ := hspace
  obtain ⟨back, hback, hnot⟩ := hrest
  have hclass : feed .code "class ".toList = some ([.word "class".toList], .code) := by decide
  have hfeed := feed_append_some hclass (feed_append_some hname (feed_word_end (by decide) hback))
  refine ⟨_, hfeed, fun more => ?_⟩
  have hword : (.word "class".toList : Token) ∉ .word name :: back := fun hmem => by
    rcases List.mem_cons.mp hmem with heq | hmem
    · exact hne (Token.word.inj heq).symm
    · exact hnot hmem
  show definedClasses (.word "class".toList :: ((.word name :: back) ++ more)) = _
  rw [definedClasses, if_pos rfl, definedClasses_skip hword]
  rfl

theorem feed_classBlock (path : List Char) : ∃ out, feed .code (classBlock path) = some (out, .code) ∧
    ∀ more, definedClasses (out ++ more) = cls path :: definedClasses more := by
  have hne : cls path ≠ "class".toList := cls_ne (c := 'c') (by decide) (by decide)
  have hreturn : Without "class".toList .code "    return \"".toList (.literal []) :=
    without_of_passes (by decide)
  have hend : Without "class".toList .code ";\n".toList .code := without_of_passes (by decide)
  have hquote : "\";\n".toList = '"' :: ";\n".toList := by decide
  have hspace : [' '] <+: " : public crpc::HttpServlet \x7b\n".toList := by decide
  unfold classBlock
  rw [hquote]
  refine feed_class (hspace.trans (List.prefix_append _ _)) (feed_cls path) hne ?_
  refine .code_append (by decide) (.code_append (by decide) (.code_append (by decide)
    (.code_append (by decide) ((without_body path).append ?_))))
  refine .code_append (by decide) (.code_append (by decide) (.code_append (by decide)
    (hreturn.append ?_)))
  refine Without.append (.of_nil (feed_plain (plain_cls path) [])) ?_
  refine Without.append (.literal_end hend) ?_
  exact .code_append (by decide) (without_of_passes (by decide))

theorem tokens_lineEnd (text : List Char) : tokens ('\n' :: text) = tokens text := by
  have hfeed : feed .code ['\n'] = some ([], .code) := by decide
  have h := tokens_append hfeed text
  rw [List.singleton_append] at h
  rw [h]
  cases tokens text with
  | none => rfl
  | some out => rfl

theorem classNames_classBlock (path more : List Char) :
    classNames (classBlock path ++ more) = (classNames more).map (cls path :: ·) := by
  obtain ⟨out, hout, hdefined⟩ := feed_classBlock path
  rw [classNames, tokens_append hout, classNames]
  cases tokens more with
  | none => rfl
  | some back => exact congrArg some (hdefined back)

/-- **Each path has a class**, in the order of the paths. -/
theorem classNames_eq (paths : List (List Char)) :
    classNames (blockHttpServletClasses paths) = some (paths.map cls) := by
  have hnil : classNames [] = some [] := rfl
  induction paths with
  | nil => exact hnil
  | cons path paths ih =>
    cases paths with
    | nil =>
      have h := classNames_classBlock path []
      rw [List.append_nil, hnil] at h
      rw [blockHttpServletClasses, List.map_singleton, List.intercalate_singleton, h]
      rfl
    | cons next paths =>
      have htext : blockHttpServletClasses (path :: next :: paths) =
          classBlock path ++ ('\n' :: blockHttpServletClasses (next :: paths)) := by
        simp [blockHttpServletClasses, List.intercalate_cons_cons]
      rw [htext, classNames_classBlock, classNames, tokens_lineEnd, ← classNames, ih]
      rfl

/-! ### The registrations -/

theorem registrations_skip {out : List Token} (h : .word "registerHttpServlet".toList ∉ out)
    (more : List Token) : registrations (out ++ more) = registrations more := by
  induction out with
  | nil => rfl
  | cons token out ih =>
    have htoken : token ≠ .word "registerHttpServlet".toList := fun heq =>
      h (by rw [heq]; exact List.mem_cons_self ..)
    rw [List.cons_append, registrations, if_neg htoken]
    exact ih fun hmem => h (List.mem_cons_of_mem token hmem)

/-- What stands in front of the path in its line. -/
def opening : List Token :=
  [.word "if".toList, .mark '(', .word "server".toList, .mark '-', .mark '>',
    .word "registerHttpServlet".toList, .mark '(']

theorem feed_opening : feed .code ("  if (server->registerHttpServlet(\n".toList ++ "          \"".toList) =
    some (opening, .literal []) := by decide

theorem registrations_opening (rest : List Token) : registrations (opening ++ rest) =
    (registration (.mark '(' :: rest)).bind fun first => (registrations rest).map (first :: ·) := by
  have hfront : registrations (opening ++ rest) =
      registrations (.word "registerHttpServlet".toList :: .mark '(' :: rest) := by
    have hskip : (.word "registerHttpServlet".toList : Token) ∉
        [.word "if".toList, .mark '(', .word "server".toList, .mark '-', .mark '>'] := by decide
    exact registrations_skip hskip _
  have hmark : registrations (.mark '(' :: rest) = registrations rest :=
    if_neg (by decide)
  rw [hfront, registrations, if_pos rfl, hmark]

/-- What is registered is the first literal, as a `const char*`. -/
theorem registration_literal {value : List Char} {rest : List Token} {item : List Char × List Char}
    (h : registration (.mark '(' :: .literal value :: rest) = some item) : item.1 = cText value := by
  unfold registration at h
  split at h
  · rename_i heq
    split at h
    · obtain ⟨-, heq⟩ := List.cons.inj heq
      rw [← Option.some.inj h, Token.literal.inj (List.cons.inj heq).1]
    · cases h
  · cases h

/-- What stands behind the name of the class and `>`. -/
def afterCall (path : List Char) : List Char :=
  "())) \x7b".toList ++ ('\n' :: ("    InfoLog << \"event=servlet_registered path=".toList ++ (path ++
    ('"' :: (";\n".toList ++ ("  \x7d else \x7b\n".toList ++ ("    register_ok = false;\n".toList ++
      "  \x7d".toList)))))))

theorem registerLine_eq (path : List Char) : registerLine path =
    ("  if (server->registerHttpServlet(\n".toList ++ "          \"".toList) ++ (path ++
      ('"' :: (", std::make_shared<".toList ++ (cls path ++ ('>' :: afterCall path))))) := by
  have hclose : "\", std::make_shared<".toList = '"' :: ", std::make_shared<".toList := by decide
  have hangle : ">())) \x7b\n".toList = '>' :: ("())) \x7b".toList ++ ['\n']) := by decide
  have hend : "\";\n".toList = '"' :: ";\n".toList := by decide
  unfold registerLine afterCall
  rw [hclose, hangle, hend]
  generalize "())) \x7b".toList = call
  simp only [List.append_assoc, List.cons_append, List.nil_append]

theorem without_afterCall {path : List Char} (h : Plain path) :
    Without "registerHttpServlet".toList .code (afterCall path) .code := by
  have hopen : Without "registerHttpServlet".toList .code
      "    InfoLog << \"event=servlet_registered path=".toList (.literal "event=servlet_registered path=".toList) :=
    without_of_passes (by decide)
  have hline : passes "registerHttpServlet".toList .code ['\n'] .code = true := by decide
  refine .code_append (by decide) (Without.code_append hline ?_)
  refine hopen.append (Without.append (.of_nil (feed_plain h _)) (.literal_end ?_))
  exact .code_append (by decide) (.code_append (by decide) (.code_append (by decide)
    (without_of_passes (by decide))))

/-- The tokens of a call that registers a path. -/
def call (path : List Char) : List Token :=
  [.literal path, .mark ',', .word "std".toList, .mark ':', .mark ':', .word "make_shared".toList, .mark '<',
    .word (cls path), .mark '>']

theorem feed_registerLine {path : List Char} (h : Plain path) : ∃ back,
    .word "registerHttpServlet".toList ∉ back ∧
    feed .code (registerLine path) = some (opening ++ (call path ++ back), .code) := by
  obtain ⟨back, hback, hnot⟩ := without_afterCall h
  have hshared : feed .code ", std::make_shared<".toList = some ([.mark ',', .word "std".toList, .mark ':',
      .mark ':', .word "make_shared".toList, .mark '<'], .code) := by decide
  have hangle : feed .code ('>' :: afterCall path) = some (.mark '>' :: back, .code) :=
    feed_cons (show step .code '>' = some ([.mark '>'], .code) by decide) hback
  have hcall := feed_append_some (feed_cls path) (feed_word_end (by decide) hangle)
  have hliteral := feed_append_some (feed_plain h [])
    (feed_literal_end (feed_append_some hshared hcall))
  rw [registerLine_eq]
  exact ⟨back, hnot, feed_append_some feed_opening hliteral⟩

theorem registrations_call (path : List Char) (rest : List Token) :
    registration (.mark '(' :: (call path ++ rest)) = some (cText path, cls path) ∧
      registrations (call path ++ rest) = registrations rest := by
  have hne : cls path ≠ "registerHttpServlet".toList := cls_ne (c := 'r') (by decide) (by decide)
  refine ⟨?_, registrations_skip (fun hmem => ?_) rest⟩
  · rw [call]
    simp only [List.cons_append, List.nil_append, registration, and_self, if_true]
  · simp only [call, List.mem_cons, Token.word.injEq, reduceCtorEq, false_or, List.not_mem_nil, or_false] at hmem
    rcases hmem with h | h | h
    · exact absurd h (by decide)
    · exact absurd h (by decide)
    · exact hne h.symm

theorem registered_registerLine {path : List Char} (h : Plain path ∧ '\x00' ∉ path) (more : List Char) :
    registered (registerLine path ++ more) = (registered more).map ((path, cls path) :: ·) := by
  obtain ⟨back, hnot, hfeed⟩ := feed_registerLine h.1
  rw [registered, tokens_append hfeed, registered]
  cases tokens more with
  | none => rfl
  | some out =>
    show registrations (opening ++ (call path ++ back) ++ out) = _
    obtain ⟨hfirst, hrest⟩ := registrations_call path (back ++ out)
    rw [List.append_assoc, registrations_opening, List.append_assoc, hfirst, hrest, registrations_skip hnot,
      cText_eq h.2]
    rfl

/-- **A path that is registered is plain**, and has no NUL. -/
theorem plain_of_registered {path name more : List Char} {items : List (List Char × List Char)}
    (h : registered (registerLine path ++ more) = some ((path, name) :: items)) :
    Plain path ∧ '\x00' ∉ path := by
  obtain ⟨out, hout, hitems⟩ := Option.bind_eq_some_iff.mp h
  obtain ⟨front, m, hfeed, hbegins⟩ := feed_of_tokens hout
  rw [registerLine_eq, List.append_assoc] at hfeed
  obtain ⟨back, hback, rfl⟩ := feed_append_inv feed_opening hfeed
  have hline : Plain (", std::make_shared<".toList ++ (cls path ++ '>' :: "())) \x7b".toList)) :=
    plain_append (plain_of_all (by decide))
      (plain_append (plain_cls path) (plain_of_all (by decide)))
  obtain ⟨behind, hbehind⟩ : ∃ behind, afterCall path = "())) \x7b".toList ++ '\n' :: behind := ⟨_, rfl⟩
  have htext : path ++ ('"' :: (", std::make_shared<".toList ++ (cls path ++ ('>' :: afterCall path)))) ++ more =
      path ++ '"' :: ((", std::make_shared<".toList ++ (cls path ++ '>' :: "())) \x7b".toList)) ++
        '\n' :: (behind ++ more)) := by
    rw [hbehind]
    generalize "())) \x7b".toList = call
    simp only [List.append_assoc, List.cons_append]
  rw [htext] at hback
  obtain ⟨value, rest, rfl, hplain⟩ := literal_plain hline hback
  obtain ⟨tail, rfl⟩ := hbegins
  rw [List.append_assoc, List.cons_append, registrations_opening] at hitems
  obtain ⟨first, hfirst, hitems⟩ := Option.bind_eq_some_iff.mp hitems
  obtain ⟨others, -, hcons⟩ := Option.map_eq_some_iff.mp hitems
  obtain ⟨rfl, -⟩ := List.cons.inj hcons
  have hpath : path = cText value := registration_literal hfirst
  have hbegins : path <+: value := hpath ▸ List.takeWhile_prefix _
  exact ⟨hplain hbegins, hpath ▸ cText_no_nul value⟩

/-- **The paths are registered with their classes** when all of them are plain and have no NUL. -/
theorem registered_iff (paths : List (List Char)) :
    registered (blockHttpRegisterLines paths) = some (paths.map fun path => (path, cls path)) ↔
      ∀ path ∈ paths, Plain path ∧ '\x00' ∉ path := by
  have hnil : registered [] = some [] := rfl
  induction paths with
  | nil =>
    constructor
    · intro _ path hpath
      cases hpath
    · exact fun _ => hnil
  | cons path paths ih =>
    have htext : ∃ more, blockHttpRegisterLines (path :: paths) = registerLine path ++ more ∧
        registered more = registered (blockHttpRegisterLines paths) := by
      cases paths with
      | nil => exact ⟨[], by simp [blockHttpRegisterLines], rfl⟩
      | cons next paths =>
        refine ⟨'\n' :: blockHttpRegisterLines (next :: paths), ?_, ?_⟩
        · simp [blockHttpRegisterLines, List.intercalate_cons_cons]
        · rw [registered, tokens_lineEnd, registered]
    obtain ⟨more, htext, hmore⟩ := htext
    rw [htext, List.forall_mem_cons, List.map_cons]
    constructor
    · intro h
      have hplain := plain_of_registered h
      rw [registered_registerLine hplain] at h
      obtain ⟨items, hitems, hcons⟩ := Option.map_eq_some_iff.mp h
      rw [hmore, (List.cons.inj hcons).2] at hitems
      exact ⟨hplain, ih.mp hitems⟩
    · rintro ⟨hplain, h⟩
      rw [registered_registerLine hplain, hmore, ih.mpr h, Option.map_some]

/-! ### All of it -/

theorem cls_eq_iff (path path' : List Char) : cls path = cls path' ↔ Confusable path path' := by
  rw [cls, cls, servletClassFromPath_eq, servletClassFromPath_eq, confusable_iff]
  exact ⟨List.append_cancel_right, fun h => congrArg (· ++ "Servlet".toList) h⟩

theorem zip_map_cls (paths : List (List Char)) :
    paths.zip (paths.map cls) = paths.map fun path => (path, cls path) := by
  induction paths with
  | nil => rfl
  | cons path paths ih => exact congrArg _ ih

/-- **Generated servlets do not collide** exactly when the paths are what the generator takes
them for, whether or not they are distinct. -/
theorem noCollision_iff (paths : List (List Char)) : NoCollision paths ↔ Servable paths := by
  have hdistinct : (paths.map cls).Nodup ↔ paths.Pairwise fun path path' => ¬ Confusable path path' := by
    rw [List.Nodup, List.pairwise_map]
    simp only [ne_eq, cls_eq_iff]
  constructor
  · rintro ⟨names, hnames, hnodup, hidentifier, hregistered⟩
    obtain rfl := Option.some.inj ((classNames_eq paths).symm.trans hnames)
    rw [zip_map_cls] at hregistered
    refine ⟨(registered_iff paths).mp hregistered, fun path hpath => ?_, hdistinct.mp hnodup⟩
    exact (isIdentifier_cls path).mp (hidentifier _ (List.mem_map_of_mem hpath))
  · rintro ⟨hplain, hstart, hapart⟩
    refine ⟨paths.map cls, classNames_eq paths, hdistinct.mpr hapart, fun name hname => ?_, ?_⟩
    · obtain ⟨path, hpath, rfl⟩ := List.mem_map.mp hname
      exact (isIdentifier_cls path).mpr (hstart path hpath)
    · rw [zip_map_cls]
      exact (registered_iff paths).mpr hplain

/-- Two routes of one server, and one class. -/
theorem not_noCollision_separator : ¬ ∀ paths : List (List Char), paths.Nodup → NoCollision paths := by
  intro h
  obtain ⟨names, hnames, hnodup, -⟩ := h ["/a/b".toList, "/a-b".toList] (by decide)
  obtain rfl := Option.some.inj ((classNames_eq _).symm.trans hnames)
  have hsame : cls "/a/b".toList = cls "/a-b".toList := by
    rw [cls, cls, servletClassFromPath_eq, servletClassFromPath_eq]
    decide
  rw [List.map_cons, List.map_singleton, hsame] at hnodup
  simp at hnodup

end CoroutineRpc.Scripts
