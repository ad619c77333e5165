import CoroutineRpc.Scripts.ProtoLayout

/-! Taking the comments out of a proto file.

`Strips` says what is left of a piece of text when it stands between others. The pieces are put
together from the tokens up, and a file whose comments are tidy is left with the blanks of its
comments and everything else as it was (`stripComments_file`). -/
namespace CoroutineRpc.Scripts.Layout
open Library.Regex

/-! ### The two substitutions -/

theorem blind_lineComment : Blind lineComment := fun _ _ _ => rfl

theorem blind_blockComment : Blind blockComment := fun _ _ _ => rfl

/-- What is left of a text when it stands between other texts; only a slash on both sides of a
border makes a difference. -/
def Strips (text bare : List Char) : Prop :=
  ∃ half,
    (∀ rest : List Char, ¬ (text.getLast? = some '/' ∧ rest.head? = some '/') →
      remove lineComment (text ++ rest) = half ++ remove lineComment rest) ∧
    ∀ rest, remove blockComment (half ++ rest) = bare ++ remove blockComment rest

theorem Strips.nil : Strips [] [] := ⟨[], fun _ _ => rfl, fun _ => rfl⟩

theorem Strips.append {text bare more moreBare : List Char} (h : Strips text bare) (h' : Strips more moreBare)
    (hborder : text.getLast? ≠ some '/' ∨ more.head? ≠ some '/') : Strips (text ++ more) (bare ++ moreBare) := by
  obtain ⟨half, hline, hblock⟩ := h
  obtain ⟨half', hline', hblock'⟩ := h'
  refine ⟨half ++ half', fun rest hrest => ?_, fun rest => ?_⟩
  · have hfirst : ¬ (text.getLast? = some '/' ∧ (more ++ rest).head? = some '/') := by
      cases more with
      | nil => rwa [List.append_nil] at hrest
      | cons c more => exact fun hslash => hborder.elim (· hslash.1) (· hslash.2)
    have hsecond : ¬ (more.getLast? = some '/' ∧ rest.head? = some '/') := by
      cases more with
      | nil => exact fun hslash => nomatch hslash.1
      | cons c more =>
        rwa [List.getLast?_append_of_ne_nil text (List.cons_ne_nil c more)] at hrest
    rw [List.append_assoc, hline _ hfirst, hline' _ hsecond, List.append_assoc]
  · rw [List.append_assoc, hblock, hblock', List.append_assoc]

/-- No comment begins in the text, or at its end. -/
structure Clean (text : List Char) : Prop where
  line : ¬ ['/', '/'] <:+: text
  block : ¬ ['/', '*'] <:+: text
  last : text.getLast? ≠ some '/'

theorem clean_of_no_slash {text : List Char} (h : '/' ∉ text) : Clean text where
  line hinside := h (hinside.subset (by decide))
  block hinside := h (hinside.subset (by decide))
  last hlast := h (List.mem_of_getLast? hlast)

theorem not_prefix_append {text rest : List Char} {a b : Char} (hne : text ≠ []) (h : ¬ [a, b] <+: text)
    (hborder : text.getLast? = some a → rest.head? ≠ some b) : ¬ [a, b] <+: text ++ rest := by
  obtain ⟨c, text, rfl⟩ := List.exists_cons_of_ne_nil hne
  intro hbegins
  obtain ⟨hc, behind, hbehind⟩ := List.cons_prefix_cons.mp hbegins
  subst hc
  cases text with
  | nil => exact hborder rfl (congrArg List.head? hbehind.symm)
  | cons d text =>
    obtain ⟨hd, -⟩ := List.cons.inj hbehind
    subst hd
    exact h ⟨text, rfl⟩

/-- A mark of two characters that is not in the text does not begin in it, unless the text
ends in its first character and its second one follows. -/
theorem not_prefix_of_border {text rest before behind : List Char} {a b c : Char}
    (hinside : ¬ [a, b] <:+: text) (hborder : text.getLast? = some a → rest.head? ≠ some b)
    (htext : text = before ++ c :: behind) : ¬ [a, b] <+: c :: behind ++ rest := by
  subst htext
  refine not_prefix_append (List.cons_ne_nil c behind) (fun hbegins => ?_) (fun hlast => hborder ?_)
  · exact hinside (hbegins.isInfix.trans (List.suffix_append before _).isInfix)
  · rwa [List.getLast?_append_of_ne_nil before (List.cons_ne_nil c behind)]

theorem Clean.strips {text : List Char} (h : Clean text) : Strips text text := by
  refine ⟨text, fun rest _ => ?_, fun rest => ?_⟩
  · exact remove_pass blind_lineComment fun before c behind htext =>
      Fails.of_not_prefix (not_prefix_of_border h.line (absurd · h.last) htext)
  · exact remove_pass blind_blockComment fun before c behind htext =>
      Fails.of_not_prefix (not_prefix_of_border h.block (absurd · h.last) htext)

/-! ### Comments taken out -/

/-- A line comment up to the line end behind it. -/
theorem remove_lineComment_hit {text : List Char} (hunbroken : '\n' ∉ text) (rest : List Char)
    (hrest : ∀ c ∈ rest.head?, c = '\n') :
    remove lineComment (['/', '/'] ++ (text ++ rest)) = remove lineComment rest := by
  have htakes : Takes lineComment (['/', '/'] ++ (text ++ rest)) [['/', '/'], text] rest := by
    refine Takes.lit _ (Takes.many (fun c hc => ?_) (fun c hc => ?_) (Nat.zero_le _) (Takes.nil rest))
    · exact decide_eq_true fun heq => hunbroken (heq ▸ hc)
    · exact decide_eq_false fun hne => hne (hrest c hc)
  rw [← List.append_assoc] at htakes ⊢
  exact remove_hit blind_lineComment (by simp) htakes

theorem remove_lineComment_miss {c : Char} {rest : List Char} (h : ¬ ['/', '/'] <+: c :: rest) :
    remove lineComment (c :: rest) = c :: remove lineComment rest :=
  remove_miss blind_lineComment (Fails.of_not_prefix h)

theorem strips_line {text : List Char} (hunbroken : '\n' ∉ text) :
    Strips (['/', '/'] ++ (text ++ ['\n'])) ['\n'] := by
  obtain ⟨half, hline, hblock⟩ : Strips ['\n'] ['\n'] := (clean_of_no_slash (by decide)).strips
  refine ⟨half, fun rest _ => ?_, hblock⟩
  have hhit := remove_lineComment_hit hunbroken (['\n'] ++ rest) (by simp)
  rw [List.append_assoc, List.append_assoc, hhit]
  exact hline rest (by simp)

/-- Every line comment of the text ends in it. -/
inductive LinesEnd : List Char → Prop
  | nil : LinesEnd []
  | line {comment text : List Char} (unbroken : '\n' ∉ comment) (h : LinesEnd text) :
      LinesEnd (['/', '/'] ++ (comment ++ '\n' :: text))
  | char {c : Char} {text : List Char} (hmark : ¬ ['/', '/'] <+: c :: text) (h : LinesEnd text) :
      LinesEnd (c :: text)

theorem linesEnd_of_tidy {body : List Char}
    (htidy : ∀ before behind, body = before ++ '/' :: '/' :: behind → '\n' ∈ behind) : LinesEnd body := by
  induction hn : body.length using Nat.strongRecOn generalizing body with
  | _ n ih =>
    cases body with
    | nil => exact .nil
    | cons c body =>
      by_cases hmark : ['/', '/'] <+: c :: body
      · obtain ⟨behind, hbehind⟩ := hmark
        obtain ⟨comment, text, rfl, hcomment⟩ := List.eq_append_cons_of_mem (htidy [] behind hbehind.symm)
        rw [← hbehind]
        refine .line hcomment (ih text.length ?_ (fun before after htext => ?_) rfl)
        · rw [← hn, ← hbehind]
          simp
          omega
        · refine htidy (['/', '/'] ++ (comment ++ '\n' :: before)) after ?_
          rw [← hbehind, htext]
          simp
      · refine .char hmark (ih body.length ?_ (fun before after hbody => ?_) rfl)
        · rw [← hn]
          exact Nat.lt_succ_self _
        · exact htidy (c :: before) after (by rw [hbody]; rfl)

/-- Taking the line comments out of a block comment does not close it earlier. -/
theorem remove_lineComment_inside {body : List Char} (h : LinesEnd body) (hunclosed : ¬ ['*', '/'] <:+: body) :
    ∃ half, ¬ ['*', '/'] <:+: half ∧ (half.head? = body.head? ∨ half.head? = some '\n') ∧
      ∀ rest, rest.head? ≠ some '/' → remove lineComment (body ++ rest) = half ++ remove lineComment rest := by
  induction h with
  | nil => exact ⟨[], by decide, .inl rfl, fun _ _ => rfl⟩
  | @line comment text unbroken h ih =>
    -- the line end stays
    obtain ⟨half, hhalf, -, hremove⟩ := ih fun htext => hunclosed
      (htext.trans ⟨['/', '/'] ++ (comment ++ ['\n']), [], by simp⟩)
    refine ⟨'\n' :: half, ?_, .inr rfl, fun rest hrest => ?_⟩
    · rw [List.infix_cons_iff]
      exact fun hinside => hinside.elim (fun hbegins => nomatch (List.cons_prefix_cons.mp hbegins).1) hhalf
    · have hhit := remove_lineComment_hit unbroken ('\n' :: (text ++ rest)) (by simp)
      have hmiss : remove lineComment ('\n' :: (text ++ rest)) = '\n' :: remove lineComment (text ++ rest) :=
        remove_lineComment_miss (by simp)
      rw [hremove rest hrest] at hmiss
      rw [hmiss] at hhit
      exact (congrArg (remove lineComment) (by simp)).trans hhit
  | @char c text hmark h ih =>
    obtain ⟨half, hhalf, hhead, hremove⟩ := ih fun htext => hunclosed
      (htext.trans (List.suffix_cons c text).isInfix)
    refine ⟨c :: half, ?_, .inl rfl, fun rest hrest => ?_⟩
    · rw [List.infix_cons_iff]
      rintro (hbegins | hinside)
      · obtain ⟨hc, behind, hbehind⟩ := List.cons_prefix_cons.mp hbegins
        rw [← hbehind] at hhead
        rcases hhead with hsame | hbreak
        · obtain ⟨more, hmore⟩ := List.head?_eq_some_iff.mp hsame.symm
          exact hunclosed ⟨[], more, by rw [hmore, hc]; rfl⟩
        · exact nomatch hbreak
      · exact hhalf hinside
    · rw [List.cons_append, remove_lineComment_miss, hremove rest hrest, List.cons_append]
      exact not_prefix_append (List.cons_ne_nil c text) hmark fun _ => hrest

theorem remove_blockComment_hit {body rest : List Char} (hunclosed : ¬ ['*', '/'] <:+: body) :
    remove blockComment (['/', '*'] ++ (body ++ (['*', '/'] ++ rest))) = remove blockComment rest := by
  have htakes : Takes blockComment (['/', '*'] ++ (body ++ (['*', '/'] ++ rest)))
      [['/', '*'], body, ['*', '/']] rest := by
    refine Takes.lit _ (Takes.lazy (Takes.lit _ (Takes.nil rest)) fun n hn => Fails.of_not_prefix ?_)
    have hbody : body = body.take n ++ body[n] :: body.drop (n + 1) := by
      rw [← List.drop_eq_getElem_cons hn, List.take_append_drop]
    rw [List.drop_append_of_le_length (Nat.le_of_lt hn), List.drop_eq_getElem_cons hn]
    exact not_prefix_of_border hunclosed (fun _ => by simp) hbody
  have htext : ['/', '*'] ++ (body ++ (['*', '/'] ++ rest)) = (['/', '*'] ++ (body ++ ['*', '/'])) ++ rest := by
    simp
  rw [htext] at htakes ⊢
  exact remove_hit blind_blockComment (by simp) htakes

theorem strips_block {text : List Char} (hunclosed : ¬ ['*', '/'] <:+: text)
    (htidy : ∀ before behind, text = before ++ '/' :: '/' :: behind → '\n' ∈ behind) :
    Strips (['/', '*'] ++ (text ++ ['*', '/'])) [] := by
  obtain ⟨half, hhalf, -, hremove⟩ := remove_lineComment_inside (linesEnd_of_tidy htidy) hunclosed
  refine ⟨['/', '*'] ++ (half ++ ['*', '/']), fun rest hrest => ?_, fun rest => ?_⟩
  · have hopen : ∀ behind : List Char,
        remove lineComment (['/', '*'] ++ behind) = ['/', '*'] ++ remove lineComment behind := fun behind => by
      rw [List.cons_append, remove_lineComment_miss (by simp), List.cons_append,
        remove_lineComment_miss (by simp)]
      rfl
    have hclose : remove lineComment (['*', '/'] ++ rest) = ['*', '/'] ++ remove lineComment rest := by
      refine remove_pass blind_lineComment fun before c behind htext => Fails.of_not_prefix ?_
      have hlast : (['/', '*'] ++ (text ++ ['*', '/'])).getLast? = some '/' := by
        rw [← List.append_assoc, List.getLast?_append]
        rfl
      exact not_prefix_of_border (by decide) (fun _ hslash => hrest ⟨hlast, hslash⟩) htext
    rw [List.append_assoc, List.append_assoc, hopen, hremove _ (by simp), hclose]
    simp
  · rw [List.append_assoc, List.append_assoc, remove_blockComment_hit hhalf]
    rfl

/-! ### Pieces without a slash at their ends -/

/-- What is left of it, whatever stands on its sides. -/
structure Solid (text bare : List Char) : Prop where
  strips : Strips text bare
  first : ∀ rest : List Char, (text ++ rest).head? ≠ some '/'
  last : text.getLast? ≠ some '/'

theorem Solid.front {text more moreBare : List Char} (h : '/' ∉ text) (h' : Solid more moreBare) :
    Solid (text ++ more) (text ++ moreBare) where
  strips := (clean_of_no_slash h).strips.append h'.strips (.inl (clean_of_no_slash h).last)
  first rest := by
    cases text with
    | nil => exact h'.first rest
    | cons c text => exact fun hhead => h (Option.some.inj hhead ▸ List.mem_cons_self ..)
  last := by
    have hne : more ≠ [] := fun hnil => h'.first ['/'] (by rw [hnil]; rfl)
    rw [List.getLast?_append_of_ne_nil text hne]
    exact h'.last

theorem blank_no_slash (b : Blank) : '/' ∉ b.1 := fun h => nomatch b.2 _ h

theorem Ident.no_slash (name : Ident) : '/' ∉ name.text := fun h => by
  rcases List.mem_cons.mp h with heq | h
  · exact nomatch heq ▸ name.first_ok
  · exact nomatch name.more_ok _ h

theorem TypeName.no_slash (name : TypeName) : '/' ∉ name.text := fun h => by
  rcases List.mem_cons.mp h with heq | h
  · exact nomatch heq ▸ name.first_ok
  · exact nomatch name.more_ok _ h

/-- A mark is not made by what encloses a text. -/
theorem not_infix_enclosed {mark text : List Char} {c d : Char} (h : ¬ mark <:+: text) (hc : c ∉ mark)
    (hd : d ∉ mark) : ¬ mark <:+: c :: (text ++ [d]) := by
  have hne : mark ≠ [] := fun hnil => h (hnil ▸ List.nil_infix)
  rw [List.infix_cons_iff, List.infix_concat_iff, List.suffix_concat_iff]
  rintro (hbegins | (hnil | ⟨front, hfront, -⟩) | hinside)
  · obtain ⟨e, mark, rfl⟩ := List.exists_cons_of_ne_nil hne
    exact hc ((List.cons_prefix_cons.mp hbegins).1 ▸ List.mem_cons_self ..)
  · exact hne hnil
  · exact hd (hfront ▸ by simp)
  · exact h hinside

/-! ### Gaps -/

theorem Comment.strips {c : Comment} (h : c.Tidy) : Strips c.text c.bare :=
  match c, h with
  | .line _ unbroken, _ => strips_line unbroken
  | .block _ unclosed, h => strips_block unclosed h

/-- Only a block comment with nothing behind it ends in a slash. -/
theorem Comment.getLast?_ne_slash {c : Comment} {b : Blank} (h : c.IsBlock → b.1 ≠ []) :
    (c.text ++ b.1).getLast? ≠ some '/' := by
  by_cases hb : b.1 = []
  · cases c with
    | line text unbroken =>
      rw [hb, List.append_nil, Comment.text, ← List.append_assoc, List.getLast?_append]
      exact nofun
    | block text unclosed => exact absurd hb (h trivial)
  · rw [List.getLast?_append_of_ne_nil _ hb]
    exact fun hlast => blank_no_slash b (List.mem_of_getLast? hlast)

theorem Gap.strips_comments {comments : List (Comment × Blank)} (h : Gap.TidyComments comments) :
    Strips (Gap.commentsText comments) (comments.flatMap fun c => c.1.bare ++ c.2.1) := by
  induction comments with
  | nil => exact Strips.nil
  | cons c comments ih =>
    obtain ⟨htidy, hborder, hrest⟩ := h
    have hblank : Strips c.2.1 c.2.1 := (clean_of_no_slash (blank_no_slash c.2)).strips
    have hhead : c.2.1.head? ≠ some '/' := fun hhead => blank_no_slash c.2 (List.mem_of_head? hhead)
    refine ((Comment.strips htidy).append hblank (.inr hhead)).append (ih hrest) ?_
    cases comments with
    | nil => exact .inr nofun
    | cons d comments => exact .inl (Comment.getLast?_ne_slash (hborder (List.cons_ne_nil d comments)))

theorem Gap.strips {g : Gap} (h : g.Tidy) : Strips g.text g.bare :=
  (clean_of_no_slash (blank_no_slash g.first)).strips.append (Gap.strips_comments h)
    (.inl (clean_of_no_slash (blank_no_slash g.first)).last)

/-! ### Declarations -/

theorem Strips.flatMap {β : Type} {text bare : β → List Char} {items : List (β × Gap)}
    (hitems : ∀ i ∈ items, Solid (text i.1) (bare i.1) ∧ i.2.Tidy) {more moreBare : List Char}
    (hmore : Strips more moreBare) (hhead : more.head? ≠ some '/') :
    Strips (items.flatMap (fun i => text i.1 ++ i.2.text) ++ more)
      (items.flatMap (fun i => bare i.1 ++ i.2.bare) ++ moreBare) ∧
    (items.flatMap (fun i => text i.1 ++ i.2.text) ++ more).head? ≠ some '/' := by
  induction items with
  | nil => exact ⟨hmore, hhead⟩
  | cons i items ih =>
    obtain ⟨hsolid, hgap⟩ := hitems i (List.mem_cons_self ..)
    obtain ⟨hrest, hresthead⟩ := ih fun j hj => hitems j (List.mem_cons_of_mem i hj)
    simp only [List.flatMap_cons, List.append_assoc]
    refine ⟨hsolid.strips.append ((Gap.strips hgap).append hrest (.inr hresthead)) (.inl hsolid.last), ?_⟩
    exact hsolid.first _

theorem Ending.solid {e : Ending} (h : ∀ content balanced, e = .block content balanced →
    ¬ ['/', '/'] <:+: content ∧ ¬ ['/', '*'] <:+: content) : Solid e.text e.text := by
  cases e with
  | semicolon =>
    have hclean : Clean [';'] := clean_of_no_slash (by decide)
    exact ⟨hclean.strips, fun _ => by simp [Ending.text], hclean.last⟩
  | block content balanced =>
    obtain ⟨hline, hblock⟩ := h content balanced rfl
    have hlast : ('{' :: (content ++ ['}'])).getLast? = some '}' := by
      rw [← List.cons_append, List.getLast?_concat]
    have hclean : Clean ('{' :: (content ++ ['}'])) :=
      ⟨not_infix_enclosed hline (by decide) (by decide), not_infix_enclosed hblock (by decide) (by decide),
        by rw [hlast]; decide⟩
    exact ⟨hclean.strips, fun _ => by simp [Ending.text], hclean.last⟩

theorem Rpc.solid {r : Rpc} (h : r.Quiet) : Solid r.text r.text := by
  have hending : Solid r.ending.text r.ending.text := Ending.solid fun content balanced heq => (h _ _ heq).2
  have hresponse : Solid r.responseText r.responseText :=
    Solid.front (blank_no_slash _) <| Solid.front (by decide) <| Solid.front (blank_no_slash _) <|
    Solid.front r.response.no_slash <| Solid.front (blank_no_slash _) <| Solid.front (by decide) <|
    Solid.front (blank_no_slash _) hending
  have hrequest : Solid r.requestText r.requestText :=
    Solid.front (blank_no_slash _) <| Solid.front (by decide) <| Solid.front (blank_no_slash _) <|
    Solid.front r.request.no_slash <| Solid.front (blank_no_slash _) <| Solid.front (by decide) <|
    Solid.front (blank_no_slash _) <| Solid.front (by decide) hresponse
  exact Solid.front (by decide) <| Solid.front (blank_no_slash _) <| Solid.front r.name.no_slash hrequest

/-- The service without its comments. -/
def ServiceDecl.bare (s : ServiceDecl) : List Char :=
  s.headText ++ (s.opening.bare ++ (s.rpcs.flatMap (fun r => r.1.text ++ r.2.bare) ++ ['}']))

theorem ServiceDecl.headText_no_slash (s : ServiceDecl) : '/' ∉ s.headText :=
  List.not_mem_append (by decide) <| List.not_mem_append (blank_no_slash _) <|
    List.not_mem_append s.name.no_slash <| List.not_mem_append (blank_no_slash _) (by decide)

theorem ServiceDecl.solid {s : ServiceDecl} (htidy : s.Tidy) (hquiet : ∀ r ∈ s.rpcs, r.1.Quiet) :
    Solid s.text s.bare := by
  have hclose : Strips ['}'] ['}'] := (clean_of_no_slash (by decide)).strips
  obtain ⟨hrpcs, hhead⟩ := Strips.flatMap (fun r hr => ⟨Rpc.solid (hquiet r hr), htidy.2 r hr⟩) hclose (by decide)
  have hhead' : s.headText ≠ [] := List.append_ne_nil_of_left_ne_nil (by decide) _
  refine ⟨?_, fun rest => ?_, ?_⟩
  · exact (clean_of_no_slash s.headText_no_slash).strips.append
      ((Gap.strips htidy.1).append hrpcs (.inr hhead)) (.inl (clean_of_no_slash s.headText_no_slash).last)
  · obtain ⟨c, more, hmore⟩ := List.exists_cons_of_ne_nil hhead'
    have hc := hmore ▸ s.headText_no_slash
    rw [ServiceDecl.text, hmore]
    exact fun heq => hc (Option.some.inj heq ▸ List.mem_cons_self ..)
  · rw [ServiceDecl.text, ← List.append_assoc, ← List.append_assoc, List.getLast?_concat]
    decide

/-- The file without its comments. -/
def File.bare (f : File) : List Char := f.lead.bare ++ f.services.flatMap fun s => s.1.bare ++ s.2.bare

/-- **Tidy comments are taken out and nothing else.** -/
theorem stripComments_file {f : File} (htidy : f.Tidy) (hquiet : f.QuietBlocks) :
    stripComments f.text = f.bare := by
  obtain ⟨hservices, hhead⟩ := Strips.flatMap
    (fun s hs => ⟨ServiceDecl.solid (htidy.services s hs).1 (hquiet s hs), (htidy.services s hs).2⟩)
    Strips.nil nofun
  rw [List.append_nil] at hhead
  rw [List.append_nil, List.append_nil] at hservices
  obtain ⟨half, hline, hblock⟩ := (Gap.strips htidy.lead).append hservices (.inr hhead)
  have hlast : remove lineComment f.lastText = [] := by
    cases hf : f.last with
    | none => rw [File.lastText, hf]; rfl
    | some text =>
      have hhit := remove_lineComment_hit text.2 [] nofun
      rw [List.append_nil] at hhit
      rw [File.lastText, hf]
      exact hhit
  have hborder : ¬ (f.declarations.getLast? = some '/' ∧ f.lastText.head? = some '/') := fun hslash => by
    refine htidy.last (fun hnone => ?_) hslash.1
    rw [File.lastText, hnone] at hslash
    exact nomatch hslash.2
  have hbare := hblock []
  rw [List.append_nil, remove_nil, List.append_nil] at hbare
  rw [stripComments, File.text, File.declarations, hline _ hborder, hlast, List.append_nil, hbare]
  rfl

/-- What is behind a line comment inside a block comment is lost. -/
example : stripComments "/* a//b */ rpc".toList = "/* a".toList := by decide

end CoroutineRpc.Scripts.Layout
