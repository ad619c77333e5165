import CoroutineRpc.Library.Regex

/-! Texts with places for values, filled as Python's `string.Template` fills them.

A place is a `$` and a name, which may stand in braces. `safeSubstitute` goes over the text once: it
fills the places whose names have values, leaves the others, and does not look into the values. What is
put together of places in braces and of text without `$` is filled place by place
(`safeSubstitute_source`). `places` finds what is left in braces (`places_eq_nil`). -/
namespace Library.Template
open Regex

/-- `[_a-z]` with `re.IGNORECASE`. -/
def isHead (c : Char) : Bool := c.isAlpha || c = '_'

/-- `[_a-z0-9]`. -/
def isTail (c : Char) : Bool := c.isAlphanum || c = '_'

def IsName : List Char → Prop
  | [] => False
  | c :: rest => isHead c = true ∧ rest.all isTail = true

instance : DecidablePred IsName
  | [] => .isFalse id
  | _ :: _ => inferInstanceAs (Decidable (_ ∧ _))

/-- A place in braces. -/
def place (name : List Char) : List Char := '$' :: '{' :: (name ++ ['}'])

def braced (opening : List Char) : List (Item Char) := [lit opening, word isHead isTail, lit ['}']]

/-- What may stand behind a `$`: another, a name, a name in braces, or else nothing counts. -/
def body : Item Char := fun prev text =>
  lit ['$'] prev text ++ word isHead isTail prev text ++
    ((run (braced ['{']) prev text).map fun out => text.length - out.2.length).toList ++ [0]

def pattern : List (Item Char) := [lit ['$'], body]

/-- The name of a place, by what stands behind its `$`. -/
def named : List Char → Option (List Char)
  | [] => none
  | '{' :: name => some name.dropLast
  | c :: name => some (c :: name)

/-- What replaces a match. -/
def convert (mapping : List Char → Option (List Char)) (parts : List (List Char)) : List Char :=
  let inner := parts.getD 1 []
  if inner = ['$'] then ['$'] else ((named inner).bind mapping).getD parts.flatten

def safeSubstitute (mapping : List Char → Option (List Char)) (text : List Char) : List Char :=
  (scan pattern none 0 text).flatMap (Sum.elim (convert mapping) fun c => [c])

/-- `re.findall(r"\$\x7b([A-Za-z_][A-Za-z0-9_]*)\x7d", text)`. -/
def places (text : List Char) : List (List Char) :=
  (find (braced ['$', '{']) none text).map fun parts => parts.getD 1 []

/-! ### Places in braces -/

theorem isTail_of_isHead {c : Char} (h : isHead c = true) : isTail c = true := by
  simp only [isHead, isTail, Char.isAlphanum, Bool.or_eq_true] at h ⊢
  exact h.imp_left .inl

theorem IsName.cons {name : List Char} (h : IsName name) :
    ∃ c rest, name = c :: rest ∧ isHead c = true ∧ ∀ d ∈ rest, isTail d = true := by
  cases name with
  | nil => exact h.elim
  | cons c rest => exact ⟨c, rest, rfl, h.1, List.all_eq_true.mp h.2⟩

theorem takes_braced {opening name : List Char} (hname : IsName name) (rest : List Char) :
    Takes (braced opening) (opening ++ (name ++ '}' :: rest)) [opening, name, ['}']] rest := by
  obtain ⟨c, tail, rfl, hc, htail⟩ := hname.cons
  have hclose : Takes [lit ['}']] (['}'] ++ rest) [['}']] rest := .lit ['}'] (.nil rest)
  have hoff : ∀ d ∈ (['}'] ++ rest).head?, isTail d = false := by
    intro d hd
    obtain rfl := Option.some.inj hd
    decide
  exact .lit opening (.word hc htail hoff hclose)

theorem run_cons {α : Type} {item : Item α} {items : List (Item α)} {prev : Option α} {text : List α}
    {out : List (List α) × List α} (h : run (item :: items) prev text = some out) :
    ∃ n ∈ item prev text, ∃ prev' parts, run items prev' (text.drop n) = some (parts, out.2) := by
  obtain ⟨n, hn, h⟩ := List.exists_of_findSome?_eq_some h
  obtain ⟨rest, h, hout⟩ := Option.map_eq_some_iff.mp h
  exact ⟨n, hn, _, rest.1, by rw [h, ← hout]⟩

theorem run_lit {α : Type} [DecidableEq α] {literal : List α} {items : List (Item α)} {prev : Option α}
    {text : List α} {out : List (List α) × List α} (h : run (lit literal :: items) prev text = some out) :
    ∃ rest, text = literal ++ rest ∧ ∃ prev' parts, run items prev' rest = some (parts, out.2) := by
  obtain ⟨n, hn, hrest⟩ := run_cons h
  unfold lit at hn
  split at hn
  · rename_i hbegins
    rw [List.mem_singleton.mp hn] at hrest
    exact ⟨_, (List.prefix_iff_eq_append.mp hbegins).symm, hrest⟩
  · cases hn

theorem run_word {α : Type} {head tail : α → Bool} {items : List (Item α)} {prev : Option α} {text : List α}
    {out : List (List α) × List α} (h : run (word head tail :: items) prev text = some out) :
    ∃ c front rest, text = c :: (front ++ rest) ∧ head c = true ∧ (∀ d ∈ front, tail d = true) ∧
      ∃ prev' parts, run items prev' rest = some (parts, out.2) := by
  obtain ⟨n, hn, hrest⟩ := run_cons h
  cases text with
  | nil => cases hn
  | cons c text =>
    rw [word] at hn
    split at hn
    · rename_i hc
      rw [List.mem_reverse, List.mem_range'_1] at hn
      obtain ⟨k, rfl⟩ : ∃ k, n = k + 1 := ⟨n - 1, by omega⟩
      refine ⟨c, text.take k, text.drop k, by rw [List.take_append_drop], hc, fun d hd => ?_, hrest⟩
      have htake : text.take k <+: text.takeWhile tail :=
        List.prefix_of_prefix_length_le (List.take_prefix k text) (List.takeWhile_prefix tail)
          (by rw [List.length_take]; omega)
      exact List.mem_takeWhile_imp (htake.subset hd)
    · cases hn

theorem run_braced {opening text : List Char} {prev : Option Char} {out : List (List Char) × List Char}
    (h : run (braced opening) prev text = some out) :
    ∃ name, IsName name ∧ text = opening ++ (name ++ '}' :: out.2) := by
  obtain ⟨rest, rfl, prev', parts, h⟩ := run_lit h
  obtain ⟨c, front, rest, rfl, hc, hfront, prev', parts, h⟩ := run_word h
  obtain ⟨rest, rfl, prev', parts, h⟩ := run_lit h
  obtain ⟨-, rfl⟩ := Prod.mk.inj (Option.some.inj h)
  exact ⟨c :: front, ⟨hc, List.all_eq_true.mpr hfront⟩, rfl⟩

/-! ### What is left -/

/-- Nothing is found where no match begins. -/
theorem find_eq_nil {α : Type} {items : List (Item α)} {prev : Option α} {text : List α} :
    find items prev text = [] ↔ ∀ before c behind, text = before ++ c :: behind →
      run items (lastOf prev before) (c :: behind) = none := by
  constructor
  · intro h
    induction text generalizing prev with
    | nil => exact fun before c behind heq => absurd heq (by simp)
    | cons c text ih =>
      cases hrun : run items prev (c :: text) with
      | some out =>
        rw [find, scan, hrun] at h
        cases h
      | none =>
        rw [find, scan_miss hrun] at h
        intro before d behind heq
        cases before with
        | nil =>
          obtain ⟨rfl, rfl⟩ := List.cons.inj heq
          exact hrun
        | cons b before =>
          obtain ⟨rfl, rfl⟩ := List.cons.inj heq
          rw [← lastOf_cons]
          exact ih h before d behind rfl
  · intro h
    have hpass : find items prev (text ++ []) = find items (lastOf prev text) [] := find_pass (by simpa using h)
    rw [List.append_nil] at hpass
    exact hpass

/-- There is a place in braces. -/
def HasPlace (text : List Char) : Prop := ∃ name, IsName name ∧ place name <:+: text

theorem places_eq_nil {text : List Char} : places text = [] ↔ ¬ HasPlace text := by
  rw [places, List.map_eq_nil_iff, find_eq_nil]
  constructor
  · rintro h ⟨name, hname, before, after, rfl⟩
    have hnone := h before '$' ('{' :: (name ++ '}' :: after)) (by simp [place])
    have htakes : Takes (braced ['$', '{']) _ _ after := takes_braced hname after
    exact absurd ((htakes _).symm.trans hnone) (by simp)
  · intro h before c behind heq
    rw [Option.eq_none_iff_forall_ne_some]
    intro out hrun
    obtain ⟨name, hname, hcut⟩ := run_braced hrun
    exact h ⟨name, hname, before, out.2, by simp [heq, hcut, place]⟩

/-- A place is in one of the parts around an element that stands in none. -/
theorem infix_cut {α : Type} {part before after : List α} {c : α} (h : c ∉ part)
    (hinside : part <:+: before ++ c :: after) : part <:+: before ∨ part <:+: after := by
  obtain ⟨front, back, heq⟩ := hinside
  rcases List.append_eq_append_iff.mp heq with ⟨rest, rfl, -⟩ | ⟨rest, hrest, hback⟩
  · exact .inl ⟨front, rest, rfl⟩
  cases rest with
  | nil =>
    rw [List.append_nil] at hrest
    exact .inl ⟨front, [], by rw [List.append_nil, hrest]⟩
  | cons d rest =>
    obtain ⟨rfl, rfl⟩ := List.cons.inj hback
    rcases List.append_eq_append_iff.mp hrest with ⟨more, rfl, hpart⟩ | ⟨more, rfl, hpart⟩
    · exact absurd (hpart ▸ List.mem_append_right _ (List.mem_cons_self ..)) h
    · cases more with
      | nil =>
        rw [List.nil_append] at hpart
        exact absurd (hpart ▸ List.mem_cons_self ..) h
      | cons d more =>
        obtain ⟨-, rfl⟩ := List.cons.inj hpart
        exact .inr ⟨more, back, rfl⟩

theorem not_mem_place {c : Char} (htail : isTail c = false) (hc : c ≠ '$' ∧ c ≠ '{' ∧ c ≠ '}') {name : List Char}
    (hname : IsName name) : c ∉ place name := by
  obtain ⟨d, rest, rfl, hd, hrest⟩ := hname.cons
  intro hmem
  have hin : c = d ∨ c ∈ rest := by
    simpa [place, hc.1, hc.2.1, hc.2.2] using hmem
  have htail' : isTail c = true := by
    rcases hin with rfl | hin
    · exact isTail_of_isHead hd
    · exact hrest c hin
  rw [htail] at htail'
  cases htail'

theorem hasPlace_cut {c : Char} (htail : isTail c = false) (hc : c ≠ '$' ∧ c ≠ '{' ∧ c ≠ '}')
    {before after : List Char} : HasPlace (before ++ c :: after) ↔ HasPlace before ∨ HasPlace after := by
  constructor
  · rintro ⟨name, hname, hinside⟩
    rcases infix_cut (not_mem_place htail hc hname) hinside with h | h
    · exact .inl ⟨name, hname, h⟩
    · exact .inr ⟨name, hname, h⟩
  · rintro (⟨name, hname, h⟩ | ⟨name, hname, h⟩)
    · exact ⟨name, hname, h.trans (List.prefix_append _ _).isInfix⟩
    · exact ⟨name, hname, h.trans ((List.suffix_cons c after).trans (List.suffix_append _ _)).isInfix⟩

/-- A place begins with its `$`. -/
theorem hasPlace_append {text rest : List Char} (h : '$' ∉ text) : HasPlace (text ++ rest) ↔ HasPlace rest := by
  refine ⟨?_, fun ⟨name, hname, hinside⟩ => ⟨name, hname, hinside.trans (List.suffix_append _ _).isInfix⟩⟩
  rintro ⟨name, hname, front, back, heq⟩
  rw [List.append_assoc] at heq
  rcases List.append_eq_append_iff.mp heq with ⟨more, rfl, hmore⟩ | ⟨more, rfl, hmore⟩
  · cases more with
    | nil => exact ⟨name, hname, [], back, by simpa using hmore⟩
    | cons c more =>
      obtain ⟨rfl, -⟩ := List.cons.inj hmore
      exact absurd (List.mem_append_right _ (List.mem_cons_self ..)) h
  · exact ⟨name, hname, more, back, by rw [List.append_assoc, ← hmore]⟩

theorem HasPlace.mem {text : List Char} (h : HasPlace text) : '$' ∈ text := by
  obtain ⟨name, -, hinside⟩ := h
  exact hinside.subset (List.mem_cons_self ..)

/-! ### Filling -/

/-- What a template is put together of. -/
inductive Piece where
  | text (characters : List Char)
  | value (name : List Char)

def Piece.source : Piece → List Char
  | .text characters => characters
  | .value name => place name

def Piece.filled (mapping : List Char → Option (List Char)) : Piece → List Char
  | .text characters => characters
  | .value name => (mapping name).getD []

def source (pieces : List Piece) : List Char := pieces.flatMap Piece.source

def filled (mapping : List Char → Option (List Char)) (pieces : List Piece) : List Char :=
  pieces.flatMap (Piece.filled mapping)

/-- No other place is in a text, and each name has a value. -/
def Piece.Fits (mapping : List Char → Option (List Char)) : Piece → Prop
  | .text characters => '$' ∉ characters
  | .value name => IsName name ∧ (mapping name).isSome

theorem run_place {name : List Char} (hname : IsName name) (prev : Option Char) (rest : List Char) :
    run pattern prev (place name ++ rest) = some ([['$'], '{' :: (name ++ ['}'])], rest) := by
  have hinner : place name ++ rest = ['$'] ++ ('{' :: (name ++ ['}']) ++ rest) := rfl
  have hbody : body (lastOf prev ['$']) ('{' :: (name ++ ['}']) ++ rest) = [('{' :: (name ++ ['}'])).length, 0] := by
    have hshape : '{' :: (name ++ ['}']) ++ rest = ['{'] ++ (name ++ '}' :: rest) := by simp
    rw [body, hshape, takes_braced hname rest]
    simp [lit, word, isHead]
    omega
  rw [hinner, pattern]
  refine run_of_head (by simp [lit]) ?_
  exact run_of_head (by rw [hbody]; rfl) rfl

theorem scan_source {mapping : List Char → Option (List Char)} {pieces : List Piece}
    (h : ∀ piece ∈ pieces, piece.Fits mapping) (prev : Option Char) :
    (scan pattern prev 0 (source pieces)).flatMap (Sum.elim (convert mapping) fun c => [c]) =
      filled mapping pieces := by
  induction pieces generalizing prev with
  | nil => rfl
  | cons piece pieces ih =>
    have hrest := ih fun p hp => h p (List.mem_cons_of_mem _ hp)
    have hpiece := h piece (List.mem_cons_self ..)
    rw [source, List.flatMap_cons, filled, List.flatMap_cons]
    cases piece with
    | text characters =>
      have hpass : ∀ before c behind, characters = before ++ c :: behind →
          run pattern (lastOf prev before) (c :: behind ++ source pieces) = none := by
        rintro before c behind rfl
        refine Fails.of_not_prefix (fun hbegins => hpiece ?_) _
        obtain ⟨rfl, -⟩ := List.cons_prefix_cons.mp hbegins
        exact List.mem_append_right _ (List.mem_cons_self ..)
      rw [Piece.source, ← source, scan_pass hpass, List.flatMap_append, hrest, List.flatMap_map, Piece.filled, filled]
      congr 1
      exact List.flatMap_pure_eq_map _ _ |>.trans (by simp)
    | value name =>
      obtain ⟨hname, hvalue⟩ := hpiece
      obtain ⟨value, hvalue⟩ := Option.isSome_iff_exists.mp hvalue
      rw [Piece.source, ← source, scan_hit (by simp [place]) (run_place hname prev _), List.flatMap_cons, hrest,
        Piece.filled, filled]
      congr 1
      simp [convert, named, hvalue]

/-- **A template is filled place by place**, whatever the values are. -/
theorem safeSubstitute_source {mapping : List Char → Option (List Char)} {pieces : List Piece}
    (h : ∀ piece ∈ pieces, piece.Fits mapping) : safeSubstitute mapping (source pieces) = filled mapping pieces :=
  scan_source h none

end Library.Template
