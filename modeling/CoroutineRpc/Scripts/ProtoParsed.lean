import CoroutineRpc.Scripts.ProtoMethods

/-! What the parser finds in a proto file.

The text without its comments is cut into services where the braces close. A tidy file loses its
declarations that are not plain and nothing else (`parseProto_tidy`). -/
namespace CoroutineRpc.Scripts.Layout
open Library.Regex

section
variable {isalnum : Char → Bool}

/-! ### Braces -/

theorem scanBraces_balanced {body : List Char} (h : Balanced body) {depth : Int} (hdepth : 1 ≤ depth)
    (rest : List Char) :
    scanBraces depth (body ++ rest) = (body ++ (scanBraces depth rest).1, (scanBraces depth rest).2) := by
  induction h generalizing depth rest with
  | nil => rfl
  | char hopen hclose h ih => rw [List.cons_append, scanBraces, if_neg hopen, if_neg hclose, ih hdepth]; rfl
  | @block inner text hinner h ihinner ih =>
    have hinside : scanBraces (depth + 1) ('}' :: (text ++ rest)) =
        ('}' :: (scanBraces depth (text ++ rest)).1, (scanBraces depth (text ++ rest)).2) := by
      rw [scanBraces, if_neg (by decide), if_pos rfl, Int.add_sub_cancel, if_neg (by omega)]
    rw [List.cons_append, List.append_assoc, List.cons_append, scanBraces, if_pos rfl, ihinner (by omega), hinside,
      ih hdepth]
    simp

/-- From the opening brace of a balanced text to its closing brace. -/
theorem scanBraces_block {body : List Char} (h : Balanced body) (rest : List Char) :
    scanBraces 0 ('{' :: (body ++ '}' :: rest)) = ('{' :: body, rest) := by
  rw [scanBraces, if_pos rfl, scanBraces_balanced h (by decide), scanBraces, if_neg (by decide), if_pos rfl,
    if_pos (by decide), List.append_nil]

theorem balanced_of_no_brace {text : List Char} (hopen : '{' ∉ text) (hclose : '}' ∉ text) : Balanced text := by
  induction text with
  | nil => exact .nil
  | cons c text ih =>
    obtain ⟨hopen, hopens⟩ := not_or.mp (List.mem_cons.not.mp hopen)
    obtain ⟨hclose, hcloses⟩ := not_or.mp (List.mem_cons.not.mp hclose)
    exact .char (Ne.symm hopen) (Ne.symm hclose) (ih hopens hcloses)

theorem Balanced.append {text more : List Char} (h : Balanced text) (h' : Balanced more) :
    Balanced (text ++ more) := by
  induction h with
  | nil => exact h'
  | char hopen hclose h ih => exact .char hopen hclose ih
  | block hinner h ihinner ih =>
    rw [List.cons_append, List.append_assoc]
    exact .block hinner ih

theorem balanced_blank {text : List Char} (h : ∀ c ∈ text, isBlank c = true) : Balanced text :=
  balanced_of_no_brace (fun hc => nomatch h _ hc) (fun hc => nomatch h _ hc)

theorem balanced_name {text : List Char} (h : ∀ c ∈ text, isNameChar c = true) : Balanced text :=
  balanced_of_no_brace (fun hc => nomatch h _ hc) (fun hc => nomatch h _ hc)

theorem Rpc.balanced (r : Rpc) : Balanced r.text := by
  have hblank (b : Blank) : Balanced b.1 := balanced_blank b.2
  have hopen : Balanced ['('] := balanced_of_no_brace (by decide) (by decide)
  have hclose : Balanced [')'] := balanced_of_no_brace (by decide) (by decide)
  have hending : Balanced r.ending.text := by
    cases r.ending with
    | semicolon => exact balanced_of_no_brace (by decide) (by decide)
    | block content balanced => exact .block balanced .nil
  have hresponse : Balanced r.responseText :=
    (hblank _).append <| hopen.append <| (hblank _).append <| (balanced_name r.response.isNameChar).append <|
    (hblank _).append <| hclose.append <| (hblank _).append hending
  have hrequest : Balanced r.requestText :=
    (hblank _).append <| hopen.append <| (hblank _).append <| (balanced_name r.request.isNameChar).append <|
    (hblank _).append <| hclose.append <| (hblank _).append <| (balanced_name isNameChar_returns).append hresponse
  exact (balanced_name isNameChar_rpc).append <| (hblank _).append <|
    (balanced_name r.name.isNameChar).append hrequest

theorem balanced_rpcs (rpcs : List (Rpc × Gap)) : Balanced (rpcs.flatMap fun r => r.1.text ++ r.2.bare) := by
  induction rpcs with
  | nil => exact .nil
  | cons r rpcs ih => exact (r.1.balanced.append (balanced_blank r.2.bare_blank)).append ih

/-! ### Services -/

theorem servicesOf_none {text : List Char} (h : search (serviceRow isalnum) none text = none) :
    servicesOf isalnum text = [] := by
  rw [servicesOf]
  split
  · rfl
  · rename_i hsome
    rw [h] at hsome
    cases hsome

theorem servicesOf_some {text rest : List Char} {parts : List (List Char)}
    (h : search (serviceRow isalnum) none text = some (parts, rest)) : servicesOf isalnum text =
      ⟨parts.getD 4 [], methodsOf isalnum (scanBraces 0 ('{' :: rest)).1⟩ ::
        servicesOf isalnum (scanBraces 0 ('{' :: rest)).2 := by
  rw [servicesOf]
  split
  · rename_i hnone
    rw [h] at hnone
    cases hnone
  · rename_i hsome
    rw [h] at hsome
    obtain ⟨rfl, rfl⟩ := Prod.mk.inj (Option.some.inj hsome)
    rfl

/-- Nothing is found in blanks. -/
theorem search_blank {text : List Char} (h : ∀ c ∈ text, isBlank c = true) :
    search (serviceRow isalnum) none text = none := by
  refine search_none (fun rest hrest => ?_) none
  have hblank : ∀ c ∈ rest, isSpace c = true := fun c hc => isBlank_isSpace (h c (hrest.subset hc))
  have hfails : Fails ([lit "service".toList, many 1 isSpace, word isHead (isWordChar isalnum), many 0 isSpace,
      lit ['{']]) [] := Fails.of_not_prefix (by decide)
  have hrow : Fails (many 0 isSpace :: _) (rest ++ []) :=
    Fails.many hblank (fun c hc => by cases hc) (Rejects.lit _ rfl) hfails
  rw [List.append_nil] at hrow
  exact Fails.look hrow _

theorem ServiceDecl.headText_append (s : ServiceDecl) (rest : List Char) : s.headText ++ rest =
    "service".toList ++ (s.afterService.1 ++ (s.name.text ++ (s.afterName.1 ++ (['{'] ++ rest)))) := by
  show "service".toList ++ (s.afterService.1 ++ (s.name.text ++ (s.afterName.1 ++ ['{']))) ++ rest = _
  simp only [List.append_assoc]

/-- The head of a service is found at the start of the text, up to its brace. -/
theorem search_service (isalnum : Char → Bool) (s : ServiceDecl) {lead : List Char}
    (hlead : ∀ c ∈ lead, isBlank c = true) (rest : List Char) : ∃ parts,
      search (serviceRow isalnum) none (lead ++ (s.headText ++ rest)) = some (parts, rest) ∧
        parts.getD 4 [] = s.name.text := by
  have hservice : ∀ c ∈ ("service".toList ++ (s.afterService.1 ++ (s.name.text ++ (s.afterName.1 ++
      (['{'] ++ rest))))).head?, isSpace c = false := fun c hc => by
    rw [← Option.some.inj hc]
    decide
  have htakes : Takes ([many 0 isSpace, lit "service".toList, many 1 isSpace, word isHead (isWordChar isalnum),
      many 0 isSpace, lit ['{']]) (lead ++ (s.headText ++ rest))
      [lead, "service".toList, s.afterService.1, s.name.text, s.afterName.1, ['{']] rest := by
    rw [s.headText_append]
    refine Takes.many (fun c hc => isBlank_isSpace (hlead c hc)) hservice (Nat.zero_le _) <| Takes.lit _ <|
      takes_blanks _ (List.length_pos_of_ne_nil s.afterService_ok) (isSpace_head_name _ _) <| takes_name _ _ rfl <|
      takes_blanks _ (Nat.zero_le _) (by simp; decide) <| Takes.lit _ <| Takes.nil rest
  refine ⟨[] :: [lead, "service".toList, s.afterService.1, s.name.text, s.afterName.1, ['{']], search_here ?_, rfl⟩
  rw [serviceRow, lineStart, run_look, if_pos rfl, htakes none]
  rfl

/-- What the parser makes of a service: only its plain declarations. -/
def ServiceDecl.parsed (s : ServiceDecl) : Service :=
  ⟨s.name.text, (s.rpcs.filter fun r => r.1.Plain).map fun r => r.1.method⟩

theorem servicesOf_bare {services : List (ServiceDecl × Gap)}
    (hquiet : ∀ s ∈ services, ∀ r ∈ s.1.rpcs, r.1.Quiet) {lead : List Char}
    (hlead : ∀ c ∈ lead, isBlank c = true) :
    servicesOf isalnum (lead ++ services.flatMap fun s => s.1.bare ++ s.2.bare) =
      services.map fun s => s.1.parsed := by
  induction services generalizing lead with
  | nil => rw [List.flatMap_nil, List.append_nil, servicesOf_none (search_blank hlead)]; rfl
  | cons s services ih =>
    have htail := ih (fun t ht => hquiet t (List.mem_cons_of_mem s ht)) s.2.bare_blank
    have hquiet := hquiet s (List.mem_cons_self ..)
    have htext : (s.1.bare ++ s.2.bare) ++ services.flatMap (fun s => s.1.bare ++ s.2.bare) =
        s.1.headText ++ ((s.1.opening.bare ++ s.1.rpcs.flatMap fun r => r.1.text ++ r.2.bare) ++
          '}' :: (s.2.bare ++ services.flatMap fun s => s.1.bare ++ s.2.bare)) := by
      simp [ServiceDecl.bare]
    have hbalanced := (balanced_blank s.1.opening.bare_blank).append (balanced_rpcs s.1.rpcs)
    obtain ⟨parts, hsearch, hname⟩ := search_service isalnum s.1 hlead _
    rw [List.flatMap_cons, htext, servicesOf_some hsearch, scanBraces_block hbalanced, htail, hname,
      methodsOf_body isalnum s.1.opening hquiet, List.map_cons, ServiceDecl.parsed]

/-- **A tidy file is parsed up to its declarations that are not plain.** -/
theorem parseProto_tidy {f : File} (htidy : f.Tidy) (hquiet : f.QuietBlocks) :
    (parseProto isalnum f.text).2 = f.services.map fun s => s.1.parsed := by
  show servicesOf isalnum (stripComments f.text) = _
  rw [stripComments_file htidy hquiet]
  exact servicesOf_bare hquiet f.lead.bare_blank

/-- Nothing is lost of a service when all its declarations are plain. -/
theorem parsed_iff (s : ServiceDecl) : s.parsed = s.service ↔ ∀ r ∈ s.rpcs, r.1.Plain := by
  rw [ServiceDecl.parsed, ServiceDecl.service, Service.mk.injEq]
  constructor
  · rintro ⟨-, hmethods⟩
    have hlength := congrArg List.length hmethods
    rw [List.length_map, List.length_map, List.length_filter_eq_length_iff] at hlength
    exact fun r hr => of_decide_eq_true (hlength r hr)
  · intro hplain
    rw [List.filter_eq_self.mpr fun r hr => decide_eq_true (hplain r hr)]
    exact ⟨rfl, rfl⟩

theorem quiet_of_plain {r : Rpc} (h : r.Plain) : r.Quiet := fun _ _ hblock => by
  rw [h.1] at hblock
  cases hblock

/-- **A tidy file of plain declarations is parsed**; one whose blocks are quiet is parsed only
when its declarations are plain. -/
theorem parses_of_plain (isalnum : Char → Bool) (f : File) (htidy : f.Tidy) :
    (f.AllPlain → f.Parses isalnum) ∧ (f.QuietBlocks → f.Parses isalnum → f.AllPlain) := by
  have hparses (hquiet : f.QuietBlocks) : f.Parses isalnum ↔ f.AllPlain := by
    rw [File.Parses, parseProto_tidy htidy hquiet, List.map_inj_left]
    exact forall₂_congr fun s _ => parsed_iff s.1
  exact ⟨fun hplain => (hparses fun s hs r hr => quiet_of_plain (hplain s hs r hr)).mpr hplain,
    fun hquiet => (hparses hquiet).mp⟩

end

/-! ### Two files -/

def blank : Blank := ⟨[' '], List.all_eq_true.mp (by decide)⟩

def noBlank : Blank := ⟨[], List.all_eq_true.mp (by decide)⟩

/-- `rpc Verify(VerifyRequest) returns (VerifyResponse)` and an ending. -/
def verify (ending : Ending) : Rpc where
  afterRpc := blank
  afterRpc_ok := by decide
  name := ⟨'V', "erify".toList, by decide, List.all_eq_true.mp (by decide)⟩
  afterName := noBlank
  beforeRequest := noBlank
  request := ⟨'V', "erifyRequest".toList, by decide, List.all_eq_true.mp (by decide)⟩
  afterRequest := noBlank
  beforeReturns := blank
  afterReturns := blank
  beforeResponse := noBlank
  response := ⟨'V', "erifyResponse".toList, by decide, List.all_eq_true.mp (by decide)⟩
  afterResponse := noBlank
  beforeEnding := noBlank
  ending := ending

/-- `AuthService` with one declaration, and a comment in front of it. -/
def authFile (ending : Ending) : File where
  lead := ⟨noBlank, []⟩
  services := [(
    { afterService := blank
      afterService_ok := by decide
      name := ⟨'A', "uthService".toList, by decide, List.all_eq_true.mp (by decide)⟩
      afterName := noBlank
      opening := ⟨noBlank, [(.block "login".toList (by decide), blank)]⟩
      rpcs := [(verify ending, ⟨noBlank, []⟩)] }, ⟨noBlank, []⟩)]
  last := none

theorem authFile_tidy (ending : Ending) : (authFile ending).Tidy where
  lead := trivial
  services s hs := by
    obtain rfl := List.mem_singleton.mp hs
    refine ⟨⟨⟨fun before behind htext => ?_, fun h => absurd rfl h, trivial⟩, fun r hr => ?_⟩, trivial⟩
    · have hslash : '/' ∈ "login".toList := by rw [htext]; simp
      exact absurd hslash (by decide)
    · obtain rfl := List.mem_singleton.mp hr
      trivial
  last h := absurd rfl h

theorem parses_of_plain_authFile : (authFile .semicolon).Parses Char.isAlphanum := by
  refine (parses_of_plain Char.isAlphanum (authFile .semicolon) (authFile_tidy _)).1 fun s hs r hr => ?_
  obtain rfl := List.mem_singleton.mp hs
  obtain rfl := List.mem_singleton.mp hr
  exact ⟨rfl, by decide⟩

/-- An empty option block hides the declaration. -/
theorem not_parses_emptyBlock : ¬ (authFile (.block [] .nil)).Parses Char.isAlphanum := by
  have hquiet : (authFile (.block [] .nil)).QuietBlocks := fun s hs r hr content balanced hblock => by
    obtain rfl := List.mem_singleton.mp hs
    obtain rfl := List.mem_singleton.mp hr
    obtain rfl : content = [] := (Ending.block.inj hblock).symm
    exact ⟨by decide, by decide, by decide⟩
  rw [File.Parses, parseProto_tidy (authFile_tidy _) hquiet]
  decide

end CoroutineRpc.Scripts.Layout
