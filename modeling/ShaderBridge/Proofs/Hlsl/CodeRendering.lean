import ShaderBridge.Proofs.Backward.Statement
import ShaderBridge.Proofs.Hlsl.CodeReading
import ShaderBridge.Proofs.Hlsl.Rendering

/-!
# Plain code of HLSL written in CrossGL

A function of plain code keeps its text when it is written in CrossGL (`crossGl_keeps_text`): the
text shows the words of the function, with types under their names in CrossGL, with `else` and `if`
as two words, and without the parentheses that only group.
-/

namespace ShaderBridge.Hlsl

open Backward (plain)
open Lexicon Ladder CrossGl

/-! ## §1 Plain statements -/

/-- A text is written that shows the words, whatever stands behind it. -/
def Writes (p : Except Fault Text) (xs : List Text) : Prop :=
  ∃ s, p = .ok s ∧ ∀ next, Shows xs s next

theorem written_expr (e : Expr) (hlex : ∀ t ∈ e.tokens, hlsl.Lexes t) (hclean : e.isClean) :
    Written isBreak e.value e.shown :=
  e.legible hlex hclean

/-- A declaration.  No type of the table is an output structure, which would not be declared. -/
theorem writes_declared {vtype t : Token} (level : Int) (hv : hlsl.Lexes vtype)
    (hmapped : IsMapped vtype) (h : hlsl.Lexes t) (hk : t.kind = .identifier) :
    Writes (Backward.statement .hlsl false level
        (var (Tree.ofText? vtype.text) (Tree.ofText? t.text)))
      [mappedType vtype, spelling t, (";" : Text)] := by
  -- A type that is mapped is none of the structures that are left out.
  have hstruct : Backward.Dialect.hlsl.outputStructs.any
      ((Tree.ofText? vtype.text).isText ·) = false := by
    have hlost : ∀ x ∈ Backward.Dialect.hlsl.outputStructs,
        (Backward.hlslTypes.lookup x).isSome = false := by decide
    rw [ofText?_eq_spelling hv, List.any_eq_false]
    intro x hx htext
    have heq : spelling vtype = x := by simpa [Tree.isText] using htext
    rw [IsMapped, heq, hlost x hx] at hmapped
    cases hmapped
  refine ⟨mappedType vtype ++ ' ' :: (spelling t ++ ";\n"), ?_, fun next =>
    .cons_space (CrossGl.whole_name (isName_mappedType hmapped))
      (Shows.semicolonLine (.name (isName_spelling h hk) rfl))⟩
  rw [var, Backward.statement_semanticVar, Backward.declared, if_neg (by simp [hstruct]),
    mapType_eq hv hmapped, ofText?_eq_spelling h]
  show Except.ok (Text.cat [mappedType vtype, " ", spelling t, ";\n"]) = _
  simp [Text.cat]

theorem writes_assigned {l : Tree} {xs : List Text} (level : Int) (hl : Written isBreak l xs)
    (s : Setting [.equals]) (hlex : ∀ t ∈ s.tokens, hlsl.Lexes t) (hclean : s.value.isClean) :
    Writes (Backward.statement .hlsl false level
        (Tree.assignmentBy l s.value.value (.text "="))) (xs ++ s.shown) := by
  simp only [Setting.tokens, List.forall_mem_cons, List.forall_mem_append] at hlex
  obtain ⟨hop, hvalue, hends, -⟩ := hlex
  obtain ⟨u, hu, hleft⟩ := hl
  obtain ⟨v, hv, hright⟩ := written_expr s.value hvalue hclean
  refine ⟨(u ++ ' ' :: ("=" ++ ' ' :: v)) ++ ";\n", ?_, fun next => ?_⟩
  · rw [Backward.statement_assignmentBy, Backward.assignment_assignmentBy, hu, hv]
    show Except.ok (Text.cat [u, " = ", v] ++ ";\n") = _
    simp [Text.cat]
  · rw [Setting.shown, spelling_slot s.op hop "=" rfl, spelling_slot s.ends hends ";" rfl]
    simpa using Shows.semicolonLine (.operator (hleft _ rfl) (x := "=") (by decide) (hright _ rfl))

/-- A clean plain statement is written as the texts that it shows. -/
theorem writes_plain (s : Plain) (level : Int) (hlex : ∀ t ∈ s.tokens, hlsl.Lexes t)
    (hclean : s.isClean) : Writes (Backward.statement .hlsl false level s.tree) s.shown := by
  cases s with
  | declared vtype name ends =>
    simp only [Plain.tokens, List.forall_mem_cons] at hlex
    obtain ⟨hv, hname, hends, -⟩ := hlex
    rw [Plain.shown, spelling_slot ends hends ";" rfl]
    exact writes_declared level hv vtype.2 hname name.kind_eq
  | initialized vtype name s =>
    simp only [Plain.tokens, List.forall_mem_cons] at hlex
    obtain ⟨hv, hname, hs⟩ := hlex
    exact writes_assigned level ((written_typed hv vtype.2 hname name.kind_eq).mono
      isNameBreak_of_isBreak) s hs hclean
  | assigned name s =>
    simp only [Plain.tokens, List.forall_mem_cons] at hlex
    exact writes_assigned level ((written_name hlex.1 name.kind_eq).mono isNameBreak_of_isBreak)
      s hlex.2 hclean
  | stored name m more s =>
    simp only [Plain.tokens, List.cons_append, List.forall_mem_cons, List.forall_mem_append] at hlex
    obtain ⟨hname, hmembers, hs⟩ := hlex
    simp only [Plain.isClean, Bool.and_eq_true] at hclean
    have htarget := (Phrase.member name m more).legible
      (List.forall_mem_cons.2 ⟨hname, hmembers⟩) hclean.1
    exact writes_assigned level htarget s hs hclean.2
  -- An update is an operation, which is written as a statement of its own.
  | updated name s =>
    simp only [Plain.tokens, Setting.tokens, List.forall_mem_cons, List.forall_mem_append] at hlex
    obtain ⟨hname, hop, hvalue, hends, -⟩ := hlex
    obtain ⟨u, hu, hleft⟩ := written_name hname name.kind_eq
    obtain ⟨v, hv, hright⟩ := written_expr s.value hvalue hclean
    have hsymbol : spelling s.op.1 ∈ symbols := by
      have hkinds : ∀ k ∈ updateOperators, k ∈ symbolTexts.map (·.1) := by decide
      exact spelling_symbol hop (hkinds _ s.op.2)
    refine ⟨(u ++ ' ' :: (spelling s.op.1 ++ ' ' :: v)) ++ ";\n", ?_, fun next => ?_⟩
    · rw [Plain.tree, Backward.statement_binary, hu, hv, ofText?_eq_spelling hop]
      show Except.ok (Text.cat [u, " ", spelling s.op.1, " ", v, ";\n"]) = _
      simp [Text.cat]
    · rw [Plain.shown, Setting.shown, spelling_slot s.ends hends ";" rfl]
      simpa using Shows.semicolonLine (.operator (hleft _ rfl) hsymbol (hright _ rfl))
  | returned word value ends =>
    simp only [Plain.tokens, List.forall_mem_cons, List.forall_mem_append] at hlex
    obtain ⟨hword, hvalue, hends, -⟩ := hlex
    obtain ⟨v, hv, hshows⟩ := written_expr value hvalue hclean
    refine ⟨"return" ++ ' ' :: (v ++ ";\n"), ?_, fun next => ?_⟩
    · rw [Plain.tree, Backward.statement_returned, if_neg (by decide), hv]
      show Except.ok (Text.cat ["return ", v, ";\n"]) = _
      simp [Text.cat]
    · rw [Plain.shown, spelling_slot word hword "return" rfl, spelling_slot ends hends ";" rfl]
      exact .cons_space (CrossGl.whole_name (by decide)) (.semicolonLine (hshows _ rfl))

/-! ## §2 Statements -/

/-- How a piece of code is written. -/
def CodeWritten : {p : Part} → Code p → Prop
  | .statement, c => ∀ level, Writes (Backward.statement .hlsl false level c.value) c.shown
  | .block, c => ∀ level, Writes (Backward.body .hlsl false (.ok level) (.list c.value)) c.shown
  | .arm, c => ∀ level, Writes (Backward.armText false level c.value.1 c.value.2) c.shown
  | .tail, c => ∀ level, Writes (Backward.alternative false level c.value) c.shown

/-- An arm is written as its condition in parentheses and its block in braces. -/
theorem writes_arm (opens : TokenOf [.leftParen]) (condition : Expr)
    (closes : TokenOf [.rightParen])
    (starts : TokenOf [.leftBrace]) (b : Code .block) (stops : TokenOf [.rightBrace])
    (hlex : ∀ t ∈ (Code.arm opens condition closes starts b stops).tokens, hlsl.Lexes t)
    (hclean : condition.isClean) (hb : CodeWritten b) :
    CodeWritten (Code.arm opens condition closes starts b stops) := by
  intro level
  simp only [Code.tokens, List.forall_mem_cons, List.forall_mem_append] at hlex
  obtain ⟨hopens, hcondition, hcloses, hstarts, -, hstops, -⟩ := hlex
  obtain ⟨s, hs, hshows⟩ := written_expr condition hcondition hclean
  obtain ⟨u, hu, hblock⟩ := hb (level + 1)
  refine ⟨"(" ++ (s ++ (")" ++ ' ' :: (r"{" ++ '\n' :: (u ++ (Text.indent level ++ r"}"))))),
    ?_, fun next => ?_⟩
  · show (Backward.expression .hlsl false condition.value >>= fun _ => _) = _
    rw [hs]
    show (Backward.body .hlsl false (.ok (level + 1)) (.list b.value) >>= fun _ => _) = _
    rw [hu]
    show Except.ok (Text.cat ["(", s, r") {", "\n", u, Text.indent level, r"}"]) = _
    simp [Text.cat]
  · rw [Code.shown, spelling_slot opens hopens "(" rfl, spelling_slot closes hcloses ")" rfl,
      spelling_slot starts hstarts r"{" rfl, spelling_slot stops hstops r"}" rfl]
    exact .parentheses (hshows _ rfl) (.braces level hblock next)

theorem writes_branch (first : Code .arm) (others : Code .tail) (hfirst : CodeWritten first)
    (hothers : CodeWritten others) (level : Int) :
    Writes (Backward.branch .hlsl false (.ok level)
        (Tree.branch first.value.1 first.value.2 others.value))
      (("if" : Text) :: (first.shown ++ others.shown)) := by
  obtain ⟨s, hs, harm⟩ := hfirst level
  obtain ⟨u, hu, htail⟩ := hothers level
  refine ⟨"if" ++ ' ' :: (s ++ u) ++ ['\n'], ?_, .lineEnd fun next =>
    .cons_space (CrossGl.whole_name (by decide)) ((harm _).append (htail next))⟩
  rw [Backward.branch_hlsl, hs, hu]
  show Except.ok (Text.cat ["if ", s, u, "\n"]) = _
  simp [Text.cat]

/-- A loop is written if its header is clean and its body is written. -/
theorem writes_loop (word : TokenOf [.forWord]) (opens : TokenOf [.leftParen]) (h : LoopHeader)
    (closes : TokenOf [.rightParen]) (starts : TokenOf [.leftBrace]) (b : Code .block)
    (stops : TokenOf [.rightBrace])
    (hlex : ∀ t ∈ (Code.loop word opens h closes starts b stops).tokens, hlsl.Lexes t)
    (hclean : h.isClean) (hb : CodeWritten b) :
    CodeWritten (Code.loop word opens h closes starts b stops) := by
  intro level
  simp only [Code.tokens, LoopHeader.tokens, List.forall_mem_cons, List.forall_mem_append] at hlex
  obtain ⟨hword, hopens, ⟨hv, hname, hop, hinit, hfirst, hcond, hsecond, hupdate⟩, hcloses, hstarts,
    -, hstops, -⟩ := hlex
  simp only [LoopHeader.isClean, Bool.and_eq_true] at hclean
  have hmapped := isMapped_valueType hv h.vtype.2
  obtain ⟨x, hx, htyped⟩ := written_typed hv hmapped hname h.name.kind_eq
  obtain ⟨i, hi, hinit⟩ := written_expr h.init hinit hclean.1.1
  obtain ⟨c, hc, hcond⟩ := written_expr h.condition hcond hclean.1.2
  obtain ⟨u, hu, hupdate⟩ := written_expr h.update hupdate hclean.2
  obtain ⟨s, hs, hblock⟩ := hb (level + 1)
  -- The header is an assignment, a condition and an update, with semicolons between them.
  have hheader : Shows h.shown ((x ++ ' ' :: ("=" ++ ' ' :: i)) ++ (";" ++ ' ' :: (c ++
      (";" ++ ' ' :: u)))) (some ')') := by
    rw [LoopHeader.shown, spelling_slot h.op hop "=" rfl, spelling_slot h.first hfirst ";" rfl,
      spelling_slot h.second hsecond ";" rfl]
    simpa using Shows.semicolon
      (.operator (htyped _ rfl) (x := "=") (by decide) (hinit (some ';') rfl))
      (.semicolon (hcond _ rfl) (hupdate (some ')') rfl))
  have hstart : Backward.expression .hlsl false h.start
      = .ok (.text (x ++ ' ' :: ("=" ++ ' ' :: i))) := by
    rw [LoopHeader.start, Backward.expression_assignmentBy_hlsl, hx, hi]
    show Except.ok (Tree.text (Text.cat [x, " ", "=", " ", i])) = _
    simp [Text.cat]
  refine ⟨("for" ++ ' ' :: ("(" ++ (((x ++ ' ' :: ("=" ++ ' ' :: i)) ++ (";" ++ ' ' :: (c ++
    (";" ++ ' ' :: u)))) ++ (")" ++ ' ' :: (r"{" ++ '\n' :: (s ++ (Text.indent level ++
      r"}"))))))) ++ ['\n'], ?_, fun next => ?_⟩
  · rw [Code.value, Backward.statement_forLoop, hstart, hc, hu, hs]
    show Except.ok
      (Text.cat ["for (", x ++ ' ' :: ("=" ++ ' ' :: i), "; ", c, "; ", u, r") {", "\n", s,
      Text.indent level, r"}", "\n"]) = _
    simp [Text.cat]
  · rw [Code.shown, spelling_slot word hword "for" rfl, spelling_slot opens hopens "(" rfl,
      spelling_slot closes hcloses ")" rfl, spelling_slot starts hstarts r"{" rfl,
      spelling_slot stops hstops r"}" rfl]
    exact .lineEnd (fun next => .cons_space (x := "for") (CrossGl.whole_name (by decide))
      (.parentheses hheader (.braces level hblock next))) next

theorem writes_next (s : Code .statement) (more : Code .block) (hs : CodeWritten s)
    (hmore : CodeWritten more) : CodeWritten (Code.next s more) := by
  intro level
  obtain ⟨u, hu, hfirst⟩ := hs level
  obtain ⟨v, hv, hrest⟩ := hmore level
  refine ⟨Text.indent level ++ u ++ v, ?_, fun next => ?_⟩
  · rw [Code.value, Backward.body_cons, hu, hv]
    rfl
  · rw [List.append_assoc]
    exact .gaps (isGap_indent level) ((hfirst _).append (hrest next))

theorem writes_otherwise (word : TokenOf [.elseWord]) (starts : TokenOf [.leftBrace])
    (s : Code .statement) (more : Code .block) (stops : TokenOf [.rightBrace])
    (hword : hlsl.Lexes word.1) (hstarts : hlsl.Lexes starts.1) (hstops : hlsl.Lexes stops.1)
    (hblock : CodeWritten (Code.next s more)) :
    CodeWritten (Code.otherwise word starts s more stops) := by
  intro level
  obtain ⟨u, hu, hshows⟩ := hblock (level + 1)
  refine ⟨' ' :: ("else" ++ ' ' :: (r"{" ++ '\n' :: (u ++ (Text.indent level ++ r"}")))), ?_,
    fun next => ?_⟩
  · show (Backward.body .hlsl false (.ok (level + 1)) (.list (Code.next s more).value) >>=
      fun _ => _) = _
    rw [hu]
    show Except.ok (Text.cat [r" else {", "\n", u, Text.indent level, r"}"]) = _
    simp [Text.cat]
  · rw [Code.shown, spelling_slot word hword "else" rfl, spelling_slot starts hstarts r"{" rfl,
      spelling_slot stops hstops r"}" rfl]
    exact .gap rfl (.cons_space (CrossGl.whole_name (by decide)) (.braces level hshows next))

theorem writes_elseIf (word : TokenOf [.elseIfWord]) (first : Code .arm) (others : Code .tail)
    (hfirst : CodeWritten first) (hothers : CodeWritten others) :
    CodeWritten (Code.elseIf word first others) := by
  intro level
  obtain ⟨u, hu, hshows⟩ := writes_branch first others hfirst hothers level
  refine ⟨' ' :: ("else" ++ ' ' :: u), ?_, fun next =>
    .gap rfl (.cons_space (CrossGl.whole_name (by decide)) (hshows next))⟩
  show (Backward.branch .hlsl false (.ok level) (Tree.branch first.value.1 first.value.2
    others.value) >>= fun _ => _) = _
  rw [hu]
  rfl

/-- All code is written in its own words. -/
theorem codeWritten {p : Part} (c : Code p) (hlex : ∀ t ∈ c.tokens, hlsl.Lexes t)
    (hclean : c.isClean) : CodeWritten c := by
  -- Along the derivation; the texts are split as the tokens are.
  induction c with
  | plain s => exact fun level => writes_plain s level hlex hclean
  | branch word first others ih ih' =>
    simp only [Code.tokens, List.forall_mem_cons, List.forall_mem_append] at hlex
    simp only [Code.isClean, Bool.and_eq_true] at hclean
    intro level
    rw [Code.shown, spelling_slot word hlex.1 "if" rfl]
    show Writes (Backward.statement .hlsl false level (.node .branch _)) _
    rw [Backward.statement_branch]
    exact writes_branch first others (ih hlex.2.1 hclean.1) (ih' hlex.2.2 hclean.2) level
  | loop word opens header closes starts b stops ih =>
    simp only [Code.isClean, Bool.and_eq_true] at hclean
    refine writes_loop word opens header closes starts b stops hlex hclean.1
      (ih (fun t ht => hlex t ?_) hclean.2)
    simp [Code.tokens, ht]
  | empty => exact fun level => ⟨[], Backward.body_nil .hlsl false level, fun next => .nil⟩
  | next s more ih ih' =>
    simp only [Code.tokens, List.forall_mem_append] at hlex
    simp only [Code.isClean, Bool.and_eq_true] at hclean
    exact writes_next s more (ih hlex.1 hclean.1) (ih' hlex.2 hclean.2)
  | arm opens condition closes starts b stops ih =>
    simp only [Code.isClean, Bool.and_eq_true] at hclean
    refine writes_arm opens condition closes starts b stops hlex hclean.1
      (ih (fun t ht => hlex t ?_) hclean.2)
    simp [Code.tokens, ht]
  | noElse => exact fun level => ⟨[], rfl, fun next => .nil⟩
  | otherwise word starts s more stops ih ih' =>
    simp only [Code.tokens, List.forall_mem_cons, List.forall_mem_append] at hlex
    obtain ⟨hword, hstarts, ⟨hs, hmore⟩, hstops, -⟩ := hlex
    simp only [Code.isClean, Bool.and_eq_true] at hclean
    exact writes_otherwise word starts s more stops hword hstarts hstops
      (writes_next s more (ih hs hclean.1) (ih' hmore hclean.2))
  | elseIf word first others ih ih' =>
    simp only [Code.tokens, List.forall_mem_cons, List.forall_mem_append] at hlex
    simp only [Code.isClean, Bool.and_eq_true] at hclean
    exact writes_elseIf word first others (ih hlex.2.1 hclean.1) (ih' hlex.2.2 hclean.2)

/-! ## §3 Functions -/

theorem writes_param (p : Param) (hlex : ∀ t ∈ p.tokens, hlsl.Lexes t) :
    ∃ s, Backward.paramText .hlsl p.tree = .ok s ∧
      ∀ next, next.all isBreak → Shows p.shown s next := by
  simp only [Param.tokens, List.forall_mem_cons] at hlex
  obtain ⟨hv, hname, -⟩ := hlex
  refine ⟨mappedType p.vtype.1.1 ++ ' ' :: spelling p.name.1, ?_, fun next hnext => ?_⟩
  · show (Backward.Dialect.hlsl.mapType (Tree.ofText? p.vtype.1.1.text) >>= fun _ => _) = _
    rw [mapType_eq hv p.vtype.2]
    show Except.ok (Text.cat [mappedType p.vtype.1.1, " ",
      plain .hlsl (Tree.ofText? p.name.1.text)]) = _
    rw [ofText?_eq_spelling hname]
    simp [Text.cat]
  · have hbreak : next.all isNameBreak := by
      cases next with
      | none => rfl
      | some c => exact isNameBreak_of_isBreak c hnext
    exact .cons_space (CrossGl.whole_name (isName_mappedType p.vtype.2))
      (.name (isName_spelling hname p.name.kind_eq) hbreak)

/-- Parameters are written one after the other, with commas between them. -/
theorem writes_params (ps : Params) (hlex : ∀ t ∈ ps.tokens, hlsl.Lexes t) :
    ∃ texts, ps.trees.mapM (Backward.paramText .hlsl) = .ok texts ∧ texts ≠ [] ∧
      ∀ next, next.all isBreak → Shows ps.shown (Text.join ", " texts) next := by
  induction ps with
  | one p =>
    obtain ⟨s, hs, hshows⟩ := writes_param p hlex
    refine ⟨[s], by simp [Params.trees, hs], by simp, ?_⟩
    simpa [Text.join, Params.shown] using hshows
  | more p comma ps ih =>
    simp only [Params.tokens, List.forall_mem_append, List.forall_mem_cons] at hlex
    obtain ⟨hp, hcomma, hps⟩ := hlex
    obtain ⟨s, hs, hshows⟩ := writes_param p hp
    obtain ⟨texts, htexts, hne, hmore⟩ := ih hps
    refine ⟨s :: texts, ?_, by simp, fun next hnext => ?_⟩
    · rw [Params.trees, List.mapM_cons, hs, htexts]
      rfl
    · rw [Params.shown, spelling_slot comma hcomma "," rfl]
      exact .join (hshows _ rfl) hne (hmore next hnext)

theorem writes_parameters (params : Option Params)
    (hlex : ∀ t ∈ params.elim [] Params.tokens, hlsl.Lexes t) :
    ∃ texts, (params.elim [] Params.trees).mapM (Backward.paramText .hlsl) = .ok texts ∧
      Shows (params.elim [] Params.shown) (Text.join ", " texts) (some ')') := by
  cases params with
  | none => exact ⟨[], rfl, .nil⟩
  | some ps =>
    obtain ⟨texts, htexts, -, hshows⟩ := writes_params ps hlex
    exact ⟨texts, htexts, hshows _ rfl⟩

/-- A clean function is written as the texts that it shows. -/
theorem writes_function (f : Function) (hlex : ∀ t ∈ f.tokens, hlsl.Lexes t) (hclean : f.isClean) :
    Writes (Backward.function .hlsl f.tree) f.shown := by
  obtain ⟨vtype, name, opens, params, closes, starts, b, stops⟩ := f
  simp only [Function.tokens, List.forall_mem_cons, List.forall_mem_append] at hlex
  obtain ⟨hv, hname, hopens, hparams, hcloses, hstarts, hb, hstops, -⟩ := hlex
  obtain ⟨texts, htexts, hshows⟩ := writes_parameters params hparams
  obtain ⟨u, hu, hblock⟩ := codeWritten b hb hclean 2
  refine ⟨Text.indent 1 ++ (mappedType vtype.1.1 ++ ' ' :: (spelling name.1 ++ ("(" ++
    (Text.join ", " texts ++ (")" ++ ' ' :: (r"{" ++ '\n' :: (u ++ (Text.indent 1 ++
      r"}")))))))) ++ ['\n'] ++ ['\n'], ?_, ?_⟩
  · rw [Function.tree, Backward.function_function, htexts, mapType_eq hv vtype.2,
      ofText?_eq_spelling hname]
    show (Backward.body .hlsl false (.ok 2) (.list b.value) >>= fun _ => _) = _
    rw [hu]
    show Except.ok (Text.cat ["    ", mappedType vtype.1.1, " ", spelling name.1, "(",
      Text.join ", " texts, r") {", "\n", u, r"    }", "\n\n"]) = _
    rw [show Text.indent 1 = ("    " : Text) from rfl]
    simp [Text.cat]
  · refine .lineEnd (.lineEnd fun next => .gaps (isGap_indent 1) ?_)
    rw [Function.shown, spelling_slot opens hopens "(" rfl, spelling_slot closes hcloses ")" rfl,
      spelling_slot starts hstarts r"{" rfl, spelling_slot stops hstops r"}" rfl]
    refine .cons_space (CrossGl.whole_name (isName_mappedType vtype.2)) ?_
    exact .cons (CrossGl.whole_name (isName_spelling hname name.kind_eq))
      (apart_nameBreak (isName_spelling hname name.kind_eq) rfl)
      (.parentheses hshows (.braces 1 hblock next))

/-- Every function whose name is no entry point is written where this one is. -/
theorem isHelper_tree (f : Function) (hname : hlsl.Lexes f.name.1)
    (h : spelling f.name.1 ∉ (["VSMain", "PSMain"] : List Text)) :
    Backward.isHelper .hlsl f.tree = .ok true := by
  simp only [List.mem_cons, List.not_mem_nil, or_false, not_or] at h
  show Except.ok (!((Tree.ofText? f.name.1.text).isText "VSMain" ||
    (Tree.ofText? f.name.1.text).isText "PSMain")) = _
  rw [ofText?_eq_spelling hname]
  simpa [Tree.isText] using h

/-- A function of plain code keeps its text in CrossGL.  The grammar reads exactly its tokens.  What
is written for its tree is cut into tokens whose texts are those of the function, with every type
under its name in CrossGL, with `else` and `if` as two words, and without the parentheses that only
group.  Under any name but those of the two entry points it is a helper, and is written so. -/
theorem crossGl_keeps_text (f : Function) (hlex : ∀ t ∈ f.tokens, hlsl.Lexes t)
    (hclean : f.isClean) :
    (∀ pos rest, CommentFree rest →
      function ⟨pos, f.tokens ++ rest⟩ = .ok f.tree ⟨pos + f.tokens.length, rest⟩) ∧
    (∃ text ts, Backward.function .hlsl f.tree = .ok text ∧
      crossGl.tokenize text = .ok (ts ++ [⟨.endOfInput, none⟩]) ∧
      ts.map (·.text) = f.shown.map some) ∧
    (spelling f.name.1 ∉ (["VSMain", "PSMain"] : List Text) →
      Backward.isHelper .hlsl f.tree = .ok true) := by
  obtain ⟨text, htext, hshows⟩ := writes_function f hlex hclean
  refine ⟨fun pos rest hrest => reads_function f rest hrest pos, ?_, isHelper_tree f ?_⟩
  · exact ⟨text, f.shown.map soleToken, htext, (hshows none).tokenize, (hshows none).map_text⟩
  · exact hlex _ (by simp [Function.tokens])

theorem plus_mem_operators : TokenKind.plus ∈ rungOperators 1 := by decide

theorem multiply_mem_operators : TokenKind.multiply ∈ rungOperators 0 := by decide

/-- The product `(a + b) * c`. -/
def scaledSum : Expr :=
  let named (s : Text) : Phrase (.rung 0) := .unsigned (.name (slot .identifier s))
  let sum : Phrase (.rung 2) :=
    .joined ((named "a").raised 2) ⟨⟨.plus, some "+"⟩, plus_mem_operators⟩ ((named "b").raised 1)
  .settled (Phrase.raised (n := 1) (.joined (.first (.unsigned (.group (slot .leftParen "(")
    (.settled (sum.raised 5)) (slot .rightParen ")"))))
      ⟨⟨.multiply, some "*"⟩, multiply_mem_operators⟩ (named "c")) 6)

theorem minus_mem_signs : TokenKind.minus ∈ [TokenKind.plus, .minus] := by simp

/-- The comparison `p.x < -1`. -/
def belowMinusOne : Expr :=
  let object : Phrase (.rung 0) :=
    .unsigned (.member (slot .identifier "p") (slot .dot ".", slot .identifier "x") [])
  let one : Phrase (.rung 0) := .unsigned (.number (slot .number "1"))
  .settled (Phrase.raised (n := 3) (.joined (object.raised 3) ⟨⟨.lessThan, some "<"⟩, by decide⟩
    (Phrase.raised (n := 0) (.sign ⟨⟨.minus, some "-"⟩, minus_mem_signs⟩ one) 2)) 4)

/-- The block `{ return e; }` behind a condition. -/
def returning (condition e : Expr) : Code .arm :=
  .arm (slot .leftParen "(") condition (slot .rightParen ")") (slot .leftBrace r"{")
    (.next (.plain (.returned (slot .returnWord "return") e (slot .semicolon ";"))) .empty)
    (slot .rightBrace r"}")

/-- The function `float f(float3 p) { if (p.x < -1) { return (a + b) * c; }
else if ((a + b) * c) { return p.x < -1; } }`. -/
def choosing : Function :=
  { vtype := ⟨⟨⟨.floatType, some "float"⟩, by decide⟩, by decide⟩
    name := slot .identifier "f"
    opens := slot .leftParen "("
    params := some (.one ⟨⟨⟨⟨.floatVectorType, some "float3"⟩, by decide⟩, by decide⟩,
      slot .identifier "p"⟩)
    closes := slot .rightParen ")"
    starts := slot .leftBrace r"{"
    body := .next (.branch (slot .ifWord "if") (returning belowMinusOne scaledSum)
      (.elseIf (slot .elseIfWord "else if") (returning scaledSum belowMinusOne) .noElse)) .empty
    stops := slot .rightBrace r"}" }

/-- The choosing function is written without the parentheses that group, and its parameter is of
type `vec3`. -/
theorem crossGl_keeps_choosing :
    (∀ t ∈ choosing.tokens, hlsl.Lexes t) ∧ choosing.isClean ∧
    ∃ text ts, Backward.function .hlsl choosing.tree = .ok text ∧
      crossGl.tokenize text = .ok (ts ++ [⟨.endOfInput, none⟩]) ∧
      ts.map (·.text) = ([("float" : Text), "f", "(", "vec3", "p", ")", r"{", "if", "(", "p", ".",
        "x", "<", "-", "1", ")", r"{", "return", "a", "+", "b", "*", "c", ";", r"}", "else",
        "if", "(", "a", "+", "b", "*", "c", ")", r"{", "return", "p", ".", "x", "<", "-", "1",
        ";", r"}", r"}"] : List Text).map some := by
  have hlex : ∀ t ∈ choosing.tokens, hlsl.Lexes t := by decide +kernel
  have hclean : choosing.isClean := rfl
  exact ⟨hlex, hclean, (crossGl_keeps_text choosing hlex hclean).2.1⟩

end ShaderBridge.Hlsl
