import CoroutineRpc.Scripts.ProtoComments

/-! The declarations that `rpcRow` finds.

The row goes over the body of a service piece by piece: it takes a plain declaration whole, and
begins nowhere else. So a declaration that ends in a block, or has nothing between `)` and
`returns`, is passed over (`methodsOf_body`). -/
namespace CoroutineRpc.Scripts.Layout
open Library.Regex

/-! ### Kinds of characters -/

theorem isBlank_isSpace {c : Char} (h : isBlank c = true) : isSpace c = true := by
  simp only [isBlank, Bool.or_eq_true, decide_eq_true_eq] at h
  rcases h with (((rfl | rfl) | rfl) | rfl) | rfl <;> decide

theorem toNat_of_isAlphanum {c : Char} (h : c.isAlphanum = true) :
    (65 ≤ c.toNat ∧ c.toNat ≤ 90 ∨ 97 ≤ c.toNat ∧ c.toNat ≤ 122) ∨ 48 ≤ c.toNat ∧ c.toNat ≤ 57 := by
  change (decide ('A'.val ≤ c.val ∧ c.val ≤ 'Z'.val) || decide ('a'.val ≤ c.val) && decide (c.val ≤ 'z'.val) ||
    decide ('0'.val ≤ c.val) && decide (c.val ≤ '9'.val)) = true at h
  simpa [UInt32.le_iff_toNat_le] using h

theorem isSpace_not_ident {c : Char} (h : isSpace c = true) : isIdentChar c = false := by
  refine Bool.eq_false_iff.mpr fun hident => ?_
  simp only [isSpace, Bool.or_eq_true, Bool.and_eq_true, decide_eq_true_eq] at h
  rw [isIdentChar, Bool.or_eq_true, decide_eq_true_eq] at hident
  rcases hident with hc | rfl
  · have := toNat_of_isAlphanum hc
    omega
  · revert h
    decide

/-- The characters of names and of type names. -/
def isNameChar (c : Char) : Bool := isIdentChar c || c = '.'

theorem isSpace_not_name {c : Char} (h : isSpace c = true) : isNameChar c = false := by
  rw [isNameChar, isSpace_not_ident h, Bool.false_or, decide_eq_false_iff_not]
  rintro rfl
  cases h

theorem isNameChar_not_space {c : Char} (h : isNameChar c = true) : isSpace c = false :=
  Bool.eq_false_iff.mpr fun hspace => by simp [isSpace_not_name hspace] at h

theorem isHead_isIdentChar {c : Char} (h : isHead c = true) : isIdentChar c = true := by
  simp only [isHead, isIdentChar, Char.isAlphanum, Bool.or_eq_true] at h ⊢
  tauto

theorem isIdentChar_isWordChar {isalnum : Char → Bool} {c : Char} (h : isIdentChar c = true) :
    isWordChar isalnum c = true := by
  rw [isWordChar, ← isIdentChar, h, Bool.true_or]

theorem isNameChar_isTypeChar {isalnum : Char → Bool} {c : Char} (h : isNameChar c = true) :
    isTypeChar isalnum c = true := by
  rw [isNameChar, Bool.or_eq_true] at h
  rw [isTypeChar, Bool.or_eq_true]
  exact h.imp_left isIdentChar_isWordChar

theorem isIdentChar_isNameChar {c : Char} (h : isIdentChar c = true) : isNameChar c = true := by
  rw [isNameChar, h, Bool.true_or]

theorem isHead_isNameChar {c : Char} (h : isHead c = true) : isNameChar c = true :=
  isIdentChar_isNameChar (isHead_isIdentChar h)

theorem isHead_eq_false {c : Char} (h : isNameChar c = false) : isHead c = false :=
  Bool.eq_false_iff.mpr fun hhead => by simp [isHead_isNameChar hhead] at h

theorem isTypeHead_isNameChar {c : Char} (h : isTypeHead c = true) : isNameChar c = true := by
  rw [isTypeHead, Bool.or_eq_true] at h
  rw [isNameChar, Bool.or_eq_true]
  exact h.imp_left isHead_isIdentChar

theorem isTypeHead_eq_false {c : Char} (h : isNameChar c = false) : isTypeHead c = false :=
  Bool.eq_false_iff.mpr fun hhead => by simp [isTypeHead_isNameChar hhead] at h

theorem isNameChar_rpc : ∀ c ∈ "rpc".toList, isNameChar c = true := List.all_eq_true.mp (by decide)

theorem isNameChar_returns : ∀ c ∈ "returns".toList, isNameChar c = true := List.all_eq_true.mp (by decide)

theorem Ident.isNameChar (name : Ident) : ∀ c ∈ name.text, isNameChar c = true := fun c hc => by
  rcases List.mem_cons.mp hc with rfl | hc
  · exact isHead_isNameChar name.first_ok
  · rw [Layout.isNameChar, name.more_ok c hc, Bool.true_or]

theorem TypeName.isNameChar (name : TypeName) : ∀ c ∈ name.text, isNameChar c = true := fun c hc => by
  rcases List.mem_cons.mp hc with rfl | hc
  · exact isTypeHead_isNameChar name.first_ok
  · exact name.more_ok c hc

section
variable {isalnum : Char → Bool}

/-! ### Where no declaration begins -/

/-- No match of `rpcRow` begins in the text when the rest follows. -/
def Passes (isalnum : Char → Bool) (text rest : List Char) : Prop :=
  ∀ before c behind, text = before ++ c :: behind → Fails (rpcRow isalnum) (c :: behind ++ rest)

theorem Passes.find_eq {text rest : List Char} (h : Passes isalnum text rest) (prev : Option Char) :
    find (rpcRow isalnum) prev (text ++ rest) = find (rpcRow isalnum) (lastOf prev text) rest :=
  find_pass fun before c behind htext => h before c behind htext _

theorem Passes.append {text more rest : List Char} (h : Passes isalnum text (more ++ rest))
    (h' : Passes isalnum more rest) : Passes isalnum (text ++ more) rest := by
  intro before c behind htext
  rcases List.append_eq_append_iff.mp htext with ⟨middle, rfl, hmore⟩ | ⟨middle, rfl, hmiddle⟩
  · exact h' middle c behind hmore
  · cases middle with
    | nil =>
      rw [List.nil_append] at hmiddle
      exact h' [] c behind hmiddle.symm
    | cons d middle =>
      obtain ⟨rfl, rfl⟩ := List.cons.inj hmiddle
      have := h before _ middle rfl
      rwa [List.cons_append, ← List.append_assoc] at this

theorem Passes.cons {c : Char} {text rest : List Char} (h : Fails (rpcRow isalnum) (c :: text ++ rest))
    (h' : Passes isalnum text rest) : Passes isalnum (c :: text) rest := by
  intro before d behind htext
  cases before with
  | nil =>
    rw [List.nil_append] at htext
    exact htext ▸ h
  | cons e before => exact h' before d behind (List.cons.inj htext).2

theorem fails_of_not_rpc {text : List Char} (h : ¬ "rpc".toList <+: text) : Fails (rpcRow isalnum) text :=
  Fails.look (Fails.of_not_prefix h) _

theorem passes_of_first {text rest : List Char} (h : 'r' ∉ text) : Passes isalnum text rest := by
  intro before c behind htext
  refine fails_of_not_rpc fun hbegins => h ?_
  have hc : 'r' = c := (List.cons_prefix_cons.mp hbegins).1
  rw [htext, hc]
  simp

/-- The row without the boundary, and without the literal. -/
theorem fails_rpcRow {rest : List Char} (h : Fails ([many 1 isSpace, word isHead (isWordChar isalnum)] ++
    requestRow isalnum) rest) : Fails (rpcRow isalnum) ("rpc".toList ++ rest) :=
  Fails.look (Fails.lit _ h) _

theorem head?_blanks {P : Char → Prop} {blanks rest : List Char} {c : Char} (hblanks : ∀ d ∈ blanks, P d)
    (hc : P c) : ∀ d ∈ (blanks ++ c :: rest).head?, P d := fun d hd => by
  cases blanks with
  | nil => exact Option.some.inj hd ▸ hc
  | cons e blanks => exact Option.some.inj hd ▸ hblanks e (List.mem_cons_self ..)

/-- No name begins with a blank. -/
theorem rejects_name {items : List (Item Char)} :
    Rejects (word isHead (isWordChar isalnum) :: items) isSpace :=
  Rejects.word fun _ hc => isHead_eq_false (isSpace_not_name hc)

theorem rejects_typeName {items : List (Item Char)} :
    Rejects (word isTypeHead (isTypeChar isalnum) :: items) isSpace :=
  Rejects.word fun _ hc => isTypeHead_eq_false (isSpace_not_name hc)

/-- A name that something else than a name follows is not `rpc` before a name. -/
theorem passes_word {name blanks more rest : List Char} {c : Char} (hname : ∀ d ∈ name, isNameChar d = true)
    (hblanks : ∀ d ∈ blanks, isBlank d = true) (hc : isNameChar c = false) (hspace : isSpace c = false) :
    Passes isalnum name (blanks ++ ([c] ++ more) ++ rest) := by
  rw [List.append_assoc, List.append_assoc, List.singleton_append]
  generalize more ++ rest = rest
  intro before d behind htext
  by_cases hbegins : "rpc".toList <+: d :: behind ++ (blanks ++ c :: rest)
  · -- `rpc` is in the name, and the name ends behind it or not
    obtain ⟨tail, htail⟩ := hbegins
    have hbehind : ∀ e ∈ d :: behind, isNameChar e = true := fun e he => hname e (by rw [htext]; simp [he])
    have hoff : ∀ e ∈ (blanks ++ c :: rest).head?, isNameChar e = false :=
      head?_blanks (fun e he => isSpace_not_name (isBlank_isSpace (hblanks e he))) hc
    have hwhole : d :: behind = "rpc".toList ++ tail.takeWhile isNameChar := by
      rw [← List.takeWhile_append_of_pos isNameChar_rpc, htail, takeWhile_run hbehind hoff]
    rw [hwhole, List.append_assoc]
    refine fails_rpcRow ?_
    cases hmore : tail.takeWhile isNameChar with
    | nil =>
      show Fails _ (blanks ++ c :: rest)
      refine Fails.many (fun e he => isBlank_isSpace (hblanks e he)) ?_ ?_ ?_
      · exact fun e he => Option.some.inj he ▸ hspace
      · exact rejects_name
      · exact Fails.of_head fun e he => Option.some.inj he ▸ isHead_eq_false hc
    | cons e more =>
      refine Fails.many_head (Nat.le_refl 1) fun f hf => ?_
      have he : e ∈ d :: behind := by rw [hwhole, hmore]; simp
      exact Option.some.inj hf ▸ isNameChar_not_space (hbehind e he)
  · exact fails_of_not_rpc hbegins

/-- A quiet block, or the semicolon. -/
theorem Ending.passes {e : Ending} (h : ∀ content balanced, e = .block content balanced →
    ¬ "rpc".toList <:+: content) (rest : List Char) : Passes isalnum e.text rest := by
  cases e with
  | semicolon => exact passes_of_first (by decide)
  | block content balanced =>
    intro before c behind htext
    refine fails_of_not_rpc fun hbegins => ?_
    have hquiet : ¬ "rpc".toList <:+: '{' :: (content ++ ['}']) :=
      not_infix_enclosed (h content balanced rfl) (by decide) (by decide)
    have hclose : '}' ∈ c :: behind := by
      have hlast := congrArg List.getLast? htext
      rw [Ending.text, ← List.cons_append, List.getLast?_concat,
        List.getLast?_append_of_ne_nil before (List.cons_ne_nil c behind)] at hlast
      exact List.mem_of_getLast? hlast.symm
    rcases List.prefix_or_prefix_of_prefix hbegins (List.prefix_append _ _) with hinside | hinside
    · exact hquiet (hinside.isInfix.trans ⟨before, [], by rw [List.append_nil]; exact htext.symm⟩)
    · exact absurd (hinside.subset hclose) (by decide)

/-! ### Declarations -/

namespace Rpc

theorem responseText_append (r : Rpc) (rest : List Char) : r.responseText ++ rest =
    r.afterReturns.1 ++ (['('] ++ (r.beforeResponse.1 ++ (r.response.text ++ (r.afterResponse.1 ++ ([')'] ++
      (r.beforeEnding.1 ++ (r.ending.text ++ rest))))))) := by
  simp only [responseText, List.append_assoc]

theorem requestText_append (r : Rpc) (rest : List Char) : r.requestText ++ rest =
    r.afterName.1 ++ (['('] ++ (r.beforeRequest.1 ++ (r.request.text ++ (r.afterRequest.1 ++ ([')'] ++
      (r.beforeReturns.1 ++ ("returns".toList ++ (r.responseText ++ rest)))))))) := by
  simp only [requestText, List.append_assoc]

theorem text_append (r : Rpc) (rest : List Char) : r.text ++ rest =
    "rpc".toList ++ (r.afterRpc.1 ++ (r.name.text ++ (r.requestText ++ rest))) := by
  simp only [text, List.append_assoc]

end Rpc

section
variable {items : List (Item Char)} {rest after : List Char} {parts : List (List Char)}

theorem isBlank_not_type {c : Char} (h : isBlank c = true) : isTypeChar isalnum c = false := by
  simp only [isBlank, Bool.or_eq_true, decide_eq_true_eq] at h
  rcases h with (((rfl | rfl) | rfl) | rfl) | rfl <;> rfl

theorem isTypeChar_not_word {c : Char} (h : isTypeChar isalnum c = false) : isWordChar isalnum c = false :=
  (Bool.or_eq_false_iff.mp h).1

theorem takes_blanks (b : Blank) {least : Nat} (hleast : least ≤ b.1.length)
    (hrest : ∀ c ∈ rest.head?, isSpace c = false) (h : Takes items rest parts after) :
    Takes (many least isSpace :: items) (b.1 ++ rest) (b.1 :: parts) after :=
  Takes.many (fun c hc => isBlank_isSpace (b.2 c hc)) hrest hleast h

theorem takes_name (name : Ident) (b : Blank) {c : Char} (hc : isTypeChar isalnum c = false)
    (h : Takes items (b.1 ++ c :: rest) parts after) :
    Takes (word isHead (isWordChar isalnum) :: items) (name.text ++ (b.1 ++ c :: rest)) (name.text :: parts)
      after :=
  Takes.word name.first_ok (fun d hd => isIdentChar_isWordChar (name.more_ok d hd))
    (head?_blanks (fun d hd => isTypeChar_not_word (isBlank_not_type (b.2 d hd))) (isTypeChar_not_word hc)) h

theorem takes_typeName (name : TypeName) (b : Blank) {c : Char} (hc : isTypeChar isalnum c = false)
    (h : Takes items (b.1 ++ c :: rest) parts after) :
    Takes (word isTypeHead (isTypeChar isalnum) :: items) (name.text ++ (b.1 ++ c :: rest)) (name.text :: parts)
      after :=
  Takes.word name.first_ok (fun d hd => isNameChar_isTypeChar (name.more_ok d hd))
    (head?_blanks (fun d hd => isBlank_not_type (b.2 d hd)) hc) h

theorem fails_blanks (b : Blank) {least : Nat} (hrest : ∀ c ∈ rest.head?, isSpace c = false)
    (hrejects : Rejects items isSpace) (h : Fails items rest) :
    Fails (many least isSpace :: items) (b.1 ++ rest) :=
  Fails.many (fun c hc => isBlank_isSpace (b.2 c hc)) hrest hrejects h

theorem fails_name (name : Ident) (b : Blank) {c : Char} (hc : isTypeChar isalnum c = false)
    (hrejects : Rejects items isIdentChar) (h : Fails items (b.1 ++ c :: rest)) :
    Fails (word isHead (isWordChar isalnum) :: items) (name.text ++ (b.1 ++ c :: rest)) :=
  Fails.word (fun _ => isIdentChar_isWordChar) name.more_ok
    (head?_blanks (fun d hd => isTypeChar_not_word (isBlank_not_type (b.2 d hd))) (isTypeChar_not_word hc))
    hrejects h

theorem fails_typeName (name : TypeName) (b : Blank) {c : Char} (hc : isTypeChar isalnum c = false)
    (hrejects : Rejects items isNameChar) (h : Fails items (b.1 ++ c :: rest)) :
    Fails (word isTypeHead (isTypeChar isalnum) :: items) (name.text ++ (b.1 ++ c :: rest)) :=
  Fails.word (fun _ => isNameChar_isTypeChar) name.more_ok
    (head?_blanks (fun d hd => isBlank_not_type (b.2 d hd)) hc) hrejects h

end

theorem isSpace_head_name (name : Ident) (rest : List Char) : ∀ c ∈ (name.text ++ rest).head?, isSpace c = false :=
  fun _ hc => Option.some.inj hc ▸ isNameChar_not_space (isHead_isNameChar name.first_ok)

theorem isSpace_head_typeName (name : TypeName) (rest : List Char) :
    ∀ c ∈ (name.text ++ rest).head?, isSpace c = false :=
  fun _ hc => Option.some.inj hc ▸ isNameChar_not_space (name.isNameChar _ (List.mem_cons_self ..))

namespace Rpc

/-- What the items of `responseRow` match. -/
def responseParts (r : Rpc) : List (List Char) :=
  [r.afterReturns.1, ['('], r.beforeResponse.1, r.response.text, r.afterResponse.1, [')'], r.beforeEnding.1, [';']]

/-- What the items of `requestRow` match. -/
def requestParts (r : Rpc) : List (List Char) :=
  [r.afterName.1, ['('], r.beforeRequest.1, r.request.text, r.afterRequest.1, [')'], r.beforeReturns.1,
    "returns".toList] ++ r.responseParts

theorem takes_response (r : Rpc) (h : r.ending = .semicolon) (rest : List Char) :
    Takes (responseRow isalnum) (r.responseText ++ rest) r.responseParts rest := by
  rw [responseText_append, h]
  refine takes_blanks _ (Nat.zero_le _) (by simp; decide) <| Takes.lit _ <| takes_blanks _ (Nat.zero_le _)
    (isSpace_head_typeName _ _) <| takes_typeName _ _ rfl <| takes_blanks _ (Nat.zero_le _) (by simp; decide) <|
    Takes.lit _ <| takes_blanks _ (Nat.zero_le _) (by simp [Ending.text]; decide) <| Takes.lit _ <| Takes.nil rest

theorem isSpace_head_returns (r : Rpc) (rest : List Char) :
    ∀ c ∈ ("returns".toList ++ (r.responseText ++ rest)).head?, isSpace c = false := fun c hc => by
  rw [← Option.some.inj hc]
  decide

theorem takes_request (r : Rpc) (h : r.Plain) (rest : List Char) :
    Takes (requestRow isalnum) (r.requestText ++ rest) r.requestParts rest := by
  rw [requestText_append]
  refine takes_blanks _ (Nat.zero_le _) (by simp; decide) <| Takes.lit _ <| takes_blanks _ (Nat.zero_le _)
    (isSpace_head_typeName _ _) <| takes_typeName _ _ rfl <| takes_blanks _ (Nat.zero_le _) (by simp; decide) <|
    Takes.lit _ <| takes_blanks _ (List.length_pos_of_ne_nil h.2) (r.isSpace_head_returns rest) <| Takes.lit _ <|
    r.takes_response h.1 rest

/-- A plain declaration is taken whole. -/
theorem run_plain (r : Rpc) (h : r.Plain) (rest : List Char) {prev : Option Char}
    (hprev : prev.any (isWordChar isalnum) = false) : ∃ parts,
      run (rpcRow isalnum) prev (r.text ++ rest) = some (parts, rest) ∧ methodOf parts = r.method := by
  have htakes : Takes ([lit "rpc".toList, many 1 isSpace, word isHead (isWordChar isalnum)] ++ requestRow isalnum)
      (r.text ++ rest) ("rpc".toList :: r.afterRpc.1 :: r.name.text :: r.requestParts) rest := by
    have hrequest : Takes (requestRow isalnum) _ _ _ := r.takes_request h rest
    rw [requestText_append] at hrequest
    rw [text_append, requestText_append]
    exact Takes.lit _ <| takes_blanks _ (List.length_pos_of_ne_nil r.afterRpc_ok) (isSpace_head_name _ _) <|
      takes_name _ _ rfl hrequest
  have hboundary : prev.any (isWordChar isalnum) ≠ (r.text ++ rest).head?.any (isWordChar isalnum) := by
    rw [hprev]
    exact nofun
  refine ⟨[] :: "rpc".toList :: r.afterRpc.1 :: r.name.text :: r.requestParts, ?_, rfl⟩
  rw [rpcRow, List.cons_append, boundary, run_look, if_pos (decide_eq_true hboundary), htakes prev]
  rfl

/-- A block is no semicolon. -/
theorem fails_response (r : Rpc) (h : r.ending ≠ .semicolon) (rest : List Char) :
    Fails (responseRow isalnum) (r.responseText ++ rest) := by
  have hending : ∃ more, r.ending.text = '{' :: more := by
    cases hr : r.ending with
    | semicolon => exact absurd hr h
    | block content balanced => exact ⟨_, rfl⟩
  obtain ⟨more, hmore⟩ := hending
  rw [responseText_append, hmore]
  refine fails_blanks _ (by simp; decide) (Rejects.lit _ rfl) <| Fails.lit _ <|
    fails_blanks _ (isSpace_head_typeName _ _) rejects_typeName <|
    fails_typeName _ _ rfl (Rejects.many (fun _ => isNameChar_not_space) (Rejects.lit _ rfl)) <|
    fails_blanks _ (by simp; decide) (Rejects.lit _ rfl) <| Fails.lit _ <|
    fails_blanks _ (by simp; decide) (Rejects.lit _ rfl) <| Fails.of_not_prefix (by simp)

theorem fails_request (r : Rpc) (h : ¬ r.Plain) (rest : List Char) :
    Fails (requestRow isalnum) (r.requestText ++ rest) := by
  have hreturns : Fails ([many 1 isSpace, lit "returns".toList] ++ responseRow isalnum)
      (r.beforeReturns.1 ++ ("returns".toList ++ (r.responseText ++ rest))) := by
    by_cases hr : r.beforeReturns.1 = []
    · rw [hr]
      exact Fails.many_head (Nat.le_refl 1) (r.isSpace_head_returns rest)
    · exact fails_blanks _ (r.isSpace_head_returns rest) (Rejects.lit _ rfl) <| Fails.lit _ <|
        r.fails_response (fun hending => h ⟨hending, hr⟩) rest
  rw [requestText_append]
  refine fails_blanks _ (by simp; decide) (Rejects.lit _ rfl) <| Fails.lit _ <|
    fails_blanks _ (isSpace_head_typeName _ _) rejects_typeName <|
    fails_typeName _ _ rfl (Rejects.many (fun _ => isNameChar_not_space) (Rejects.lit _ rfl)) <|
    fails_blanks _ (by simp; decide) (Rejects.lit _ rfl) <| Fails.lit _ hreturns

theorem fails_text (r : Rpc) (h : ¬ r.Plain) (rest : List Char) : Fails (rpcRow isalnum) (r.text ++ rest) := by
  have hrequest : Fails (requestRow isalnum) _ := r.fails_request h rest
  rw [requestText_append] at hrequest
  rw [text_append, requestText_append]
  refine fails_rpcRow <| fails_blanks _ (isSpace_head_name _ _)
    rejects_name <| fails_name _ _ rfl ?_ hrequest
  exact Rejects.many (fun _ hc => isNameChar_not_space (isIdentChar_isNameChar hc)) (Rejects.lit _ rfl)

/-- No match begins in a declaration that is not plain. -/
theorem passes (r : Rpc) (hquiet : r.Quiet) (h : ¬ r.Plain) (rest : List Char) : Passes isalnum r.text rest := by
  have hblank : ∀ (b : Blank) rest, Passes isalnum b.1 rest := fun b rest =>
    passes_of_first fun hr => nomatch b.2 _ hr
  have hending : Passes isalnum r.ending.text rest := Ending.passes (fun content balanced heq =>
    (hquiet content balanced heq).1) rest
  have hresponse : Passes isalnum r.responseText rest :=
    (hblank _ _).append <| (passes_of_first (by decide)).append <| (hblank _ _).append <|
    (passes_word r.response.isNameChar r.afterResponse.2 rfl rfl).append <| (hblank _ _).append <|
    (passes_of_first (by decide)).append <| (hblank _ _).append hending
  have hrequest : Passes isalnum r.requestText rest :=
    (hblank _ _).append <| (passes_of_first (by decide)).append <| (hblank _ _).append <|
    (passes_word r.request.isNameChar r.afterRequest.2 rfl rfl).append <| (hblank _ _).append <|
    (passes_of_first (by decide)).append <| (hblank _ _).append <|
    (passes_word isNameChar_returns r.afterReturns.2 rfl rfl).append hresponse
  have hname : Passes isalnum (r.afterRpc.1 ++ (r.name.text ++ r.requestText)) rest :=
    (hblank _ _).append <| (passes_word r.name.isNameChar r.afterName.2 rfl rfl).append hrequest
  have hrest : Passes isalnum (['p', 'c'] ++ (r.afterRpc.1 ++ (r.name.text ++ r.requestText))) rest :=
    (passes_of_first (by decide)).append hname
  exact Passes.cons (r.fails_text h rest) hrest

end Rpc

/-! ### The body of a service -/

theorem Gap.bare_blank (g : Gap) : ∀ c ∈ g.bare, isBlank c = true := fun c hc => by
  rcases List.mem_append.mp hc with hc | hc
  · exact g.first.2 c hc
  · obtain ⟨item, -, hitem⟩ := List.mem_flatMap.mp hc
    rcases List.mem_append.mp hitem with hc | hc
    · cases hcomment : item.1 with
      | line text unbroken =>
        rw [hcomment, Comment.bare, List.mem_singleton] at hc
        exact hc ▸ rfl
      | block text unclosed =>
        rw [hcomment] at hc
        cases hc
    · exact item.2.2 c hc

theorem lastOf_any {p : Char → Bool} {prev : Option Char} {text : List Char} (hprev : prev.any p = false)
    (htext : ∀ c ∈ text.getLast?, p c = false) : (lastOf prev text).any p = false := by
  rw [lastOf]
  cases hlast : text.getLast? with
  | none => exact hprev
  | some c => exact htext c hlast

theorem Rpc.getLast?_not_word (r : Rpc) : ∀ c ∈ r.text.getLast?, isWordChar isalnum c = false := by
  have hending : ∃ c, r.ending.text.getLast? = some c ∧ isWordChar isalnum c = false := by
    cases r.ending with
    | semicolon => exact ⟨';', rfl, rfl⟩
    | block content balanced => exact ⟨'}', by rw [Ending.text, ← List.cons_append, List.getLast?_concat], rfl⟩
  obtain ⟨d, hd, hword⟩ := hending
  intro c hc
  simp only [Rpc.text, Rpc.requestText, Rpc.responseText, List.getLast?_append, hd, Option.some_or] at hc
  exact Option.some.inj hc ▸ hword

theorem Gap.passes (g : Gap) (rest : List Char) : Passes isalnum g.bare rest :=
  passes_of_first fun hr => nomatch g.bare_blank _ hr

theorem Gap.getLast?_not_word (g : Gap) : ∀ c ∈ g.bare.getLast?, isWordChar isalnum c = false := fun c hc =>
  isTypeChar_not_word (isBlank_not_type (g.bare_blank c (List.mem_of_getLast? hc)))

/-- The plain declarations are found, in order. -/
theorem find_rpcs {rpcs : List (Rpc × Gap)} (hquiet : ∀ r ∈ rpcs, r.1.Quiet) {prev : Option Char}
    (hprev : prev.any (isWordChar isalnum) = false) :
    (find (rpcRow isalnum) prev (rpcs.flatMap fun r => r.1.text ++ r.2.bare)).map methodOf =
      (rpcs.filter fun r => r.1.Plain).map fun r => r.1.method := by
  induction rpcs generalizing prev with
  | nil => rfl
  | cons r rpcs ih =>
    have hgap : ∀ c ∈ r.2.bare.getLast?, isWordChar isalnum c = false := r.2.getLast?_not_word
    have hnext := lastOf_any (lastOf_any hprev r.1.getLast?_not_word) hgap
    have htail := ih (fun q hq => hquiet q (List.mem_cons_of_mem r hq)) hnext
    rw [List.flatMap_cons, List.append_assoc]
    by_cases hplain : r.1.Plain
    · obtain ⟨parts, hrun, hmethod⟩ := r.1.run_plain hplain _ hprev
      have hne : r.1.text ≠ [] := List.append_ne_nil_of_left_ne_nil (by decide) _
      rw [find_hit hne hrun, Passes.find_eq (r.2.passes _), List.map_cons, htail, hmethod,
        List.filter_cons, if_pos (decide_eq_true hplain), List.map_cons]
    · rw [Passes.find_eq (r.1.passes (hquiet r (List.mem_cons_self ..)) hplain _), Passes.find_eq (r.2.passes _),
        htail, List.filter_cons, if_neg (by simpa using hplain)]

theorem methodsOf_body (isalnum : Char → Bool) (g : Gap) {rpcs : List (Rpc × Gap)}
    (hquiet : ∀ r ∈ rpcs, r.1.Quiet) :
    methodsOf isalnum ('{' :: (g.bare ++ rpcs.flatMap fun r => r.1.text ++ r.2.bare)) =
      (rpcs.filter fun r => r.1.Plain).map fun r => r.1.method := by
  have hbrace (rest : List Char) : Passes isalnum ['{'] rest := passes_of_first (by decide)
  have hfirst : (lastOf none ['{']).any (isWordChar isalnum) = false := rfl
  rw [methodsOf, ← List.singleton_append, (hbrace _).find_eq, (g.passes _).find_eq]
  exact find_rpcs hquiet (lastOf_any hfirst g.getLast?_not_word)

end

end CoroutineRpc.Scripts.Layout
