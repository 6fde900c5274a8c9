import ShaderBridge.Proofs.CrossGl.CodeReading
import ShaderBridge.Proofs.CrossGl.Rendering
import ShaderBridge.Proofs.Forward.Words

/-!
# Plain code written and cut again

A function of plain code keeps its tokens when it is written in GLSL: the text spells the tokens of
the function, and only parentheses that group are gone.

Statements are written line by line.  What is known of a line without its semicolon (`Line`) serves
twice, since the clauses of a loop header are lines cut at both ends.
-/

namespace ShaderBridge.CrossGl

open Forward Lexicon Ladder

/-! ## §1 Scopes that keep words -/

/-- A scope of GLSL in which every word can be looked up. -/
structure Verbatim (sc : Scope) : Prop where
  dialect : sc.dialect = .glsl
  word : ∀ s, sc.word (.text s) = .ok (.text s)

namespace Verbatim

variable {sc : Scope} (K : Verbatim sc)

include K

theorem mapType (t : Tree) : sc.dialect.mapType t = .ok t := by
  rw [K.dialect]
  rfl

theorem rendering : Rendering sc id id where
  word := K.word
  callName s := by
    rw [Scope.callName, K.dialect]
    exact K.word s
  number _ _ _ _ _ := rfl
  name t w ht hk htext := by
    have hkinds : ∀ k ∈ nameKinds, k ∈ wordKinds ∧ k.isComment = false := by decide
    obtain ⟨v, hv, hshape⟩ := whole_of_lexes ht (hkinds _ hk).2
    obtain rfl : w = v := Option.some.inj (htext.symm.trans hv.text)
    exact ⟨hshape.isName (hkinds _ hk).1, hv⟩

theorem spelled_expr (e : Expr) (hlex : ∀ t ∈ e.bare, crossGl.Lexes t) (hsigns : e.SignsApart) :
    Spelled sc isBreak e.value e.bare :=
  e.legible K.rendering hlex ((e.clear_iff_signsApart (by decide)).2 fun _ => hsigns)

end Verbatim

theorem verbatim_shared (sections : Sections) : Verbatim ⟨.glsl, sections, .text "global"⟩ where
  dialect := rfl
  word _ := rfl

/-- Declarations, each a type and a name. -/
def declarations (vs : List (Text × Text)) : Tree :=
  .list (vs.map fun v => .tuple [.text v.1, .text v.2])

/-- A section of a shader with lists of inputs and outputs, or none. -/
def Declared (owner : Tree) : Prop :=
  owner = .absent ∨ ∃ ins outs, owner.isSet ∧ owner.get .inputs = .ok (declarations ins) ∧
    owner.get .outputs = .ok (declarations outs)

/-- A word that is found among the variables of a section is found as it is. -/
theorem variableIn_declared {owner : Tree} (h : Declared owner) (s : Text) {f : Field}
    (hf : f = .inputs ∨ f = .outputs) :
    variableIn owner f (.text s) = .ok none ∨
      variableIn owner f (.text s) = .ok (some (.text s)) := by
  rcases h with rfl | ⟨ins, outs, hset, hins, houts⟩
  · exact .inl rfl
  · obtain ⟨vs, hvs⟩ : ∃ vs, owner.get f = .ok (declarations vs) := by
      rcases hf with rfl | rfl
      · exact ⟨ins, hins⟩
      · exact ⟨outs, houts⟩
    have hpairs : ∀ p ∈ vs.map fun v => Tree.tuple [.text v.1, .text v.2], IsPair p := by
      rintro _ hp
      obtain ⟨v, -, rfl⟩ := List.mem_map.1 hp
      exact ⟨_, _, rfl⟩
    rw [variableIn_list hset hvs hpairs]
    split
    · exact .inr rfl
    · exact .inl rfl

/-- In a stage whose variables are declared every word can be looked up. -/
theorem verbatim_stage {sections : Sections} {stage : Tree}
    (h : Declared (sections.ofStage stage)) : Verbatim ⟨.glsl, sections, stage⟩ where
  dialect := rfl
  word s := by
    rw [Scope.word, Scope.owner]
    rcases variableIn_declared h s (.inl rfl) with hin | hin <;> rw [hin]
    · show (variableIn _ .outputs (.text s) >>= fun _ => _) = _
      rcases variableIn_declared h s (.inr rfl) with hout | hout <;> rw [hout] <;> rfl
    · rfl

/-! ## §2 Lines -/

variable {sc : Scope}

theorem isGap_indent (level : Int) : ∀ b ∈ Text.indent level, isGap b := by
  intro b hb
  obtain ⟨piece, hpiece, hb⟩ := List.mem_flatten.1 hb
  have hblank : ∀ b ∈ ("    " : Text), isGap b := by decide
  exact hblank b (List.eq_of_mem_replicate hpiece ▸ hb)

/-- At every level the statement is a line that ends in a semicolon and spells the tokens in front
of it. -/
def Line (sc : Scope) (t : Tree) (ts : List Token) : Prop :=
  ∃ s, (∀ level, Forward.statement sc level t = .ok (Text.indent level ++ (s ++ ";\n"))) ∧
    ∀ next, next.all isBreak → crossGl.Spells ts s next

/-- The clause of a loop header is a line without what surrounds it. -/
theorem spells_clause {ts : List Token} {s : Text} {next : Option Char}
    (h : crossGl.Spells ts s next) : crossGl.Spells ts (clause (s ++ ";\n")) next := by
  obtain ⟨u, v, rfl, hu, hv, hspells⟩ := h.exists_gaps
  have hdrop : (u ++ v ++ ";\n").dropWhile Text.isBlank = v ++ ";\n" := by
    rw [List.append_assoc, List.dropWhile_append_of_pos fun b hb => isBlank_of_isGap (hu b hb)]
    cases v with
    | nil => rfl
    | cons c v => exact List.dropWhile_cons_of_neg (by simpa using hv)
  have htrim : Text.trim (u ++ v ++ ";\n") = v ++ [';'] := by
    rw [Text.trim, hdrop, Text.trimEnd, List.reverse_append]
    show (List.dropWhile Text.isBlank ('\n' :: ';' :: v.reverse)).reverse = _
    rw [List.dropWhile_cons_of_pos rfl, List.dropWhile_cons_of_neg (by decide)]
    simp
  rw [clause, Text.dropEnd, htrim, List.dropLast_concat]
  exact hspells

theorem spells_localType (t : LocalType) (hlex : ∀ u ∈ t.tokens, crossGl.Lexes u) :
    ∃ x, t.tree = .text x ∧ ∀ us s next, crossGl.Spells us s next →
      crossGl.Spells (t.tokens ++ us) (x ++ ' ' :: s) next := by
  cases t with
  | none => exact ⟨[], rfl, fun us s next h => .gap rfl h⟩
  | some t =>
    obtain ⟨w, hw, -⟩ := whole_of_lexes (hlex t.1 (by simp [LocalType.tokens]))
      (by simp [localTypes])
    refine ⟨w, ?_, fun us s next h => .token hw (apart_break hw.ne_nil rfl) (.gap rfl h)⟩
    rw [LocalType.tree, hw.text]
    rfl

theorem exists_name {t : Token} (h : crossGl.Lexes t) (hk : t.kind ∈ wordKinds) :
    ∃ w, isName w ∧ crossGl.Whole t w ∧ Tree.ofText? t.text = .text w := by
  have hcomment : ∀ k ∈ wordKinds, k.isComment = false := by decide
  obtain ⟨w, hw, hshape⟩ := whole_of_lexes h (hcomment _ hk)
  exact ⟨w, hshape.isName hk, hw, by rw [hw.text]; rfl⟩

section Lines

variable (K : Verbatim sc)

include K

theorem line_declared (vtype : LocalType) (name : TokenOf [.identifier])
    (hlex : ∀ t ∈ vtype.tokens ++ [name.1], crossGl.Lexes t) :
    Line sc (Tree.var vtype.tree (Tree.ofText? name.1.text)) (vtype.tokens ++ [name.1]) := by
  rw [List.forall_mem_append, List.forall_mem_singleton] at hlex
  obtain ⟨x, hx, htype⟩ := spells_localType vtype hlex.1
  obtain ⟨w, -, hw, htext⟩ := exists_name hlex.2 (by simp [wordKinds])
  refine ⟨x ++ ' ' :: w, fun level => ?_, fun next hnext =>
    htype _ _ _ (.single hw (apart_break hw.ne_nil hnext))⟩
  rw [statement_var, K.mapType, hx, htext]
  simp [Text.cat]
  rfl

omit K in
theorem line_binary {l op r : Tree} {ts : List Token}
    (h : Spelled sc isBreak (Tree.binary l op r) ts) : Line sc (Tree.binary l op r) ts := by
  obtain ⟨s, hs, hspells⟩ := h
  refine ⟨s, fun level => ?_, hspells⟩
  rw [statement_binary, hs]
  simp [Text.cat]

omit K in
/-- An operator that is kept by its text is written by it. -/
theorem exists_operator {op : Token} (h : crossGl.Lexes op) (hk : op.kind ∈ assignOperators) :
    ∃ x, Tree.ofText? op.text = .text x ∧ Operator.symbol (.text x) = .ok (.text x) ∧
      crossGl.Whole op x := by
  have htable : ∀ k ∈ assignOperators, (fixedTexts.lookup k).any fun x => (k, x) ∈ fixedTexts &&
      ((Operator.valueSymbols ++ Operator.assignSymbols).lookup x).isNone := by
    decide
  obtain ⟨x, -, hx⟩ := (Option.any_eq_true _ _).1 (htable _ hk)
  simp only [Bool.and_eq_true, decide_eq_true_eq, Option.isNone_iff_eq_none] at hx
  refine ⟨x, by rw [text_of_fixed h hx.1]; rfl, ?_, whole_of_fixed h hx.1⟩
  simp [Operator.symbol, Tree.rename, Tree.find, hx.2]

theorem spelled_assignment (vtype : LocalType) (a : Assignment)
    (hlex : ∀ t ∈ vtype.tokens ++ a.bare, crossGl.Lexes t) (hsigns : a.value.SignsApart) :
    Spelled sc isBreak (a.tree vtype.tree) (vtype.tokens ++ a.bare) := by
  simp only [Assignment.bare, Assignment.target, List.forall_mem_append, List.forall_mem_cons]
    at hlex
  obtain ⟨htype, ⟨hname, hmembers⟩, hop, hvalue⟩ := hlex
  obtain ⟨x, hx, htype⟩ := spells_localType vtype htype
  obtain ⟨s, hs, htarget⟩ := spelled_members a.members
    (spelled_word K.rendering hname (a.name.mem (by decide))) hmembers
  obtain ⟨y, hy, hsymbol, hwhole⟩ := exists_operator hop a.op.2
  obtain ⟨s', hs', hvalue⟩ := K.spelled_expr a.value hvalue hsigns
  refine ⟨x ++ ' ' :: (s ++ ' ' :: (y ++ ' ' :: s')), ?_, fun next hnext => ?_⟩
  · rw [Assignment.tree, expression_binary, expression_var, K.mapType, hx, hs, hy, hsymbol, hs']
    show Except.ok (Text.cat [Text.cat [x, " ", s], " ", y, " ", s']) = _
    simp [Text.cat]
  · have hright : crossGl.Spells (a.op.1 :: a.value.bare) (y ++ ' ' :: s') next :=
      .token hwhole (apart_break hwhole.ne_nil rfl) (.gap rfl (hvalue next hnext))
    exact htype _ _ _ ((htarget (some ' ') rfl).append (.gap rfl hright))

theorem line_plain (s : Plain) (hlex : ∀ t ∈ s.bare, crossGl.Lexes t) (hsigns : s.SignsApart) :
    ∃ (ts : List Token) (ends : TokenOf [.semicolon]), s.bare = ts ++ [ends.1] ∧
      Line sc s.tree ts := by
  cases s with
  | declared vtype name ends =>
    refine ⟨vtype.tokens ++ [name.1], ends, by simp [Plain.bare], ?_⟩
    refine line_declared K vtype name fun t ht => hlex t ?_
    simp only [Plain.bare, List.mem_append, List.mem_cons] at ht ⊢
    tauto
  | assigned vtype a ends =>
    refine ⟨vtype.tokens ++ a.bare, ends, rfl, ?_⟩
    exact line_binary (spelled_assignment K vtype a
      (fun t ht => hlex t (List.mem_append_left _ ht)) hsigns)

omit K in
theorem exists_step (step : TokenOf [.increment, .decrement]) (h : crossGl.Lexes step.1) :
    ∃ x, (x = ("++" : Text) ∨ x = "--") ∧ crossGl.Whole step.1 x := by
  rcases List.mem_pair.1 step.2 with hk | hk
  · exact ⟨"++", .inl rfl, whole_of_fixed h (by simp [hk, fixedTexts, operatorTexts])⟩
  · exact ⟨"--", .inr rfl, whole_of_fixed h (by simp [hk, fixedTexts, operatorTexts])⟩

omit K in
theorem joinedText_eq {t u : Token} {w x : Text} (ht : crossGl.Whole t w) (hu : crossGl.Whole u x) :
    Update.joinedText t u = .text (w ++ x) := by
  rw [Update.joinedText, ht.text, hu.text]
  rfl

theorem line_count {s : Text} {ts : List Token}
    (h : ∀ next, next.all isBreak → crossGl.Spells ts s next) :
    Line sc (Tree.var (.text []) (.text s)) ts := by
  refine ⟨' ' :: s, fun level => ?_, fun next hnext => .gap rfl (h next hnext)⟩
  rw [statement_var, K.mapType]
  simp [Text.cat]
  rfl

/-- The update of a loop is written as the tokens that it was read from. -/
theorem line_update (u : Update) (hlex : ∀ t ∈ u.bare, crossGl.Lexes t) (hsigns : u.SignsApart) :
    Line sc u.tree u.bare := by
  cases u with
  | after name step =>
    simp only [Update.bare, List.forall_mem_cons] at hlex
    obtain ⟨w, hname, hw, -⟩ := exists_name hlex.1 (by simp [wordKinds])
    obtain ⟨x, hx, hstep⟩ := exists_step step hlex.2.1
    rw [Update.tree, joinedText_eq hw hstep]
    refine line_count K fun next hnext =>
      .token hw ?_ (.single hstep (apart_break hstep.ne_nil hnext))
    rcases hx with rfl | rfl <;> exact apart_name hname (by decide)
  | before step name =>
    simp only [Update.bare, List.forall_mem_cons] at hlex
    obtain ⟨w, hname, hw, -⟩ := exists_name hlex.2.1 (by simp [wordKinds])
    obtain ⟨x, hx, hstep⟩ := exists_step step hlex.1
    rw [Update.tree, joinedText_eq hstep hw]
    refine line_count K fun next hnext =>
      .token hstep ?_ (.single hw (apart_break hw.ne_nil hnext))
    obtain ⟨c, v, rfl, hc⟩ := exists_of_isName hname
    rcases hx with rfl | rfl <;> exact apart_symbol_name (by decide) (by decide) hc
  | assigned a => exact line_binary (spelled_assignment K none a hlex hsigns)

end Lines

/-! ## §3 Statements -/

/-- A text is written that spells the tokens, whatever stands behind it. -/
def Writes (p : Except Fault Text) (ts : List Token) : Prop :=
  ∃ s, p = .ok s ∧ ∀ next, crossGl.Spells ts s next

/-- Texts are written that together spell the tokens, whatever stands behind them. -/
def WritesAll (p : Except Fault (List Text)) (ts : List Token) : Prop :=
  ∃ texts, p = .ok texts ∧ ∀ next, crossGl.Spells ts (Text.cat texts) next

/-- How a piece of code is written. -/
def Written (sc : Scope) : {p : Part} → Code p → Prop
  | .statement, c => ∀ level, Writes (Forward.statement sc level c.value) c.bare
  | .block, c => ∀ level, WritesAll (c.value.mapM (Forward.statement sc level)) c.bare
  | .arm, c => ∀ level, Writes (armText sc level c.value) c.bare
  | .alternatives, c => ∀ level,
      WritesAll (c.value.mapM fun a => do return " else if " ++ (← armText sc level a)) c.bare
  | .ending, c => ∀ level, Writes (endingText sc level c.value) c.bare

-- Its equations are derived once, here, and not in each of the proofs below.
attribute [local grind =] Code.bare Code.value

theorem writes_line {t : Tree} {ts : List Token} (ends : TokenOf [.semicolon])
    (hends : crossGl.Lexes ends.1) (h : Line sc t ts) (level : Int) :
    Writes (Forward.statement sc level t) (ts ++ [ends.1]) := by
  obtain ⟨s, hs, hspells⟩ := h
  have hend := whole_of_fixed (x := ";") hends (by simp [fixedTexts, structureTexts])
  refine ⟨_, hs level, fun next => .gaps (isGap_indent level) (.append (hspells _ rfl) ?_)⟩
  exact .token hend (apart_punctuation (by decide) _) (.gap rfl .nil)

theorem spells_braces {texts : List Text} {ts : List Token} (level : Int)
    (starts : TokenOf [.leftBrace]) (stops : TokenOf [.rightBrace])
    (hstarts : crossGl.Lexes starts.1) (hstops : crossGl.Lexes stops.1)
    (h : ∀ next, crossGl.Spells ts (Text.cat texts) next) (next : Option Char) :
    crossGl.Spells (starts.1 :: (ts ++ [stops.1]))
      (r"{" ++ '\n' :: (Text.cat texts ++ (Text.indent level ++ r"}"))) next := by
  have hopen := whole_of_fixed (x := r"{") hstarts (by simp [fixedTexts, structureTexts])
  have hclose := whole_of_fixed (x := r"}") hstops (by simp [fixedTexts, structureTexts])
  have hlast : crossGl.Spells [stops.1] (Text.indent level ++ r"}") next :=
    .gaps (isGap_indent level) (.single hclose (apart_punctuation (by decide) _))
  exact .token hopen (apart_punctuation (by decide) _) (.gap rfl ((h _).append hlast))

theorem spells_parentheses {s u : Text} {ts us : List Token} {next : Option Char}
    (opens : TokenOf [.leftParen]) (closes : TokenOf [.rightParen])
    (hopens : crossGl.Lexes opens.1) (hcloses : crossGl.Lexes closes.1)
    (h : crossGl.Spells ts s (some ')')) (hu : crossGl.Spells us u next) :
    crossGl.Spells (opens.1 :: (ts ++ closes.1 :: us)) ("(" ++ (s ++ (")" ++ ' ' :: u))) next := by
  have hopen := whole_of_fixed (x := "(") hopens (by simp [fixedTexts, structureTexts])
  have hclose := whole_of_fixed (x := ")") hcloses (by simp [fixedTexts, structureTexts])
  have hlast : crossGl.Spells (closes.1 :: us) (")" ++ ' ' :: u) next :=
    .token hclose (apart_punctuation (by decide) _) (.gap rfl hu)
  exact .token hopen (apart_punctuation (by decide) _) (.append h hlast)

theorem spells_word {k : TokenKind} {x s : Text} {ts : List Token} {next : Option Char}
    (word : TokenOf [k]) (hword : crossGl.Lexes word.1) (hx : (k, x) ∈ fixedTexts)
    (h : crossGl.Spells ts s next) : crossGl.Spells (word.1 :: ts) (x ++ ' ' :: s) next := by
  have hwhole := whole_of_fixed hword (word.kind_eq ▸ hx)
  exact .token hwhole (apart_break hwhole.ne_nil rfl) (.gap rfl h)

theorem spells_semicolon {s u : Text} {ts us : List Token} {next : Option Char}
    (ends : TokenOf [.semicolon]) (hends : crossGl.Lexes ends.1)
    (h : crossGl.Spells ts s (some ';')) (hu : crossGl.Spells us u next) :
    crossGl.Spells (ts ++ ends.1 :: us) (s ++ (";" ++ ' ' :: u)) next := by
  have hend := whole_of_fixed (x := ";") hends (by simp [fixedTexts, structureTexts])
  have hlast : crossGl.Spells (ends.1 :: us) (";" ++ ' ' :: u) next :=
    .token hend (apart_punctuation (by decide) _) (.gap rfl hu)
  exact .append h hlast

theorem spells_lineEnd {s : Text} {ts : List Token} (h : ∀ next, crossGl.Spells ts s next)
    (next : Option Char) : crossGl.Spells ts (s ++ ['\n']) next := by
  have hend : crossGl.Spells [] ['\n'] next := .gap rfl .nil
  simpa using (h _).append hend

section Statements

variable (K : Verbatim sc)

include K

theorem writes_arm (opens : TokenOf [.leftParen]) (condition : Expr)
    (closes : TokenOf [.rightParen]) (starts : TokenOf [.leftBrace]) (b : Code .block)
    (stops : TokenOf [.rightBrace])
    (hlex : ∀ t ∈ (Code.arm opens condition closes starts b stops).bare, crossGl.Lexes t)
    (hsigns : condition.SignsApart) (hb : Written sc b) :
    Written sc (Code.arm opens condition closes starts b stops) := by
  intro level
  simp only [Code.bare, List.forall_mem_cons, List.forall_mem_append] at hlex
  obtain ⟨hopens, hcondition, hcloses, hstarts, -, hstops, -⟩ := hlex
  obtain ⟨s, hs, hspells⟩ := K.spelled_expr condition hcondition hsigns
  obtain ⟨texts, htexts, hblock⟩ := hb (level + 1)
  refine ⟨_, ?_, fun next => spells_parentheses opens closes hopens hcloses (hspells _ rfl)
    (spells_braces level starts stops hstarts hstops hblock next)⟩
  show (Forward.expression sc condition.value >>= fun _ => _) = _
  rw [hs]
  show (b.value.mapM (Forward.statement sc (level + 1)) >>= fun _ => _) = _
  rw [htexts]
  simp [Text.cat]

theorem writes_returned (word : TokenOf [.returnWord]) (values : Phrase writtenLinks .arguments)
    (ends : TokenOf [.semicolon])
    (hlex : ∀ t ∈ (Code.returned word values ends).bare, crossGl.Lexes t)
    (hsigns : values.SignsApart) : Written sc (Code.returned word values ends) := by
  intro level
  simp only [Code.bare, List.forall_mem_cons, List.forall_mem_append] at hlex
  obtain ⟨hword, hvalues, hends, -⟩ := hlex
  obtain ⟨texts, htexts, -, hspells⟩ :=
    values.legible K.rendering hvalues ((values.clear_iff_signsApart (by decide)).2 fun _ => hsigns)
  have hend := whole_of_fixed (x := ";") hends (by simp [fixedTexts, structureTexts])
  refine ⟨Text.indent level ++ ("return" ++ ' ' :: (Text.join ", " texts ++ (";" ++ ['\n']))), ?_,
    fun next => .gaps (isGap_indent level) (spells_word word hword (by decide)
      ((hspells (some ';') rfl).append
        (.token hend (apart_punctuation (by decide) _) (.gap rfl .nil))))⟩
  rw [Code.value, statement_returned, htexts]
  simp [Text.cat]

theorem writes_loop (word : TokenOf [.forWord]) (opens : TokenOf [.leftParen])
    (init condition : Plain) (u : Update) (closes : TokenOf [.rightParen])
    (starts : TokenOf [.leftBrace]) (b : Code .block) (stops : TokenOf [.rightBrace])
    (hlex : ∀ t ∈ (Code.loop word opens init condition u closes starts b stops).bare,
      crossGl.Lexes t)
    (hinit : init.SignsApart) (hcondition : condition.SignsApart) (hupdate : u.SignsApart)
    (hb : Written sc b) :
    Written sc (Code.loop word opens init condition u closes starts b stops) := by
  intro level
  simp only [Code.bare, List.forall_mem_cons, List.forall_mem_append] at hlex
  obtain ⟨hword, hopens, hlexi, hlexc, hlexu, hcloses, hstarts, -, hstops, -⟩ := hlex
  obtain ⟨ts, first, hts, s, hs, hfirst⟩ := line_plain K init hlexi hinit
  obtain ⟨ts', second, hts', s', hs', hsecond⟩ := line_plain K condition hlexc hcondition
  obtain ⟨s'', hs'', hthird⟩ := line_update K u hlexu hupdate
  obtain ⟨texts, htexts, hblock⟩ := hb (level + 1)
  rw [hts, List.forall_mem_append, List.forall_mem_singleton] at hlexi
  rw [hts', List.forall_mem_append, List.forall_mem_singleton] at hlexc
  -- The header is three clauses, each a line cut at both ends.
  have hclauses : crossGl.Spells (init.bare ++ (condition.bare ++ u.bare))
      (clause (s ++ ";\n") ++ (";" ++ ' ' :: (clause (s' ++ ";\n") ++
        (";" ++ ' ' :: clause (s'' ++ ";\n"))))) (some ')') := by
    rw [hts, hts']
    simpa using spells_semicolon first hlexi.2 (spells_clause (hfirst _ rfl))
      (spells_semicolon second hlexc.2 (spells_clause (hsecond _ rfl))
        (spells_clause (hthird _ rfl)))
  have hbare : (Code.loop word opens init condition u closes starts b stops).bare =
      word.1 :: opens.1 :: (init.bare ++ (condition.bare ++ u.bare) ++
        closes.1 :: starts.1 :: (b.bare ++ [stops.1])) := by simp [Code.bare]
  rw [hbare]
  refine ⟨_, ?_, spells_lineEnd fun next => .gaps (isGap_indent level)
    (spells_word (x := "for") word hword (by decide) (spells_parentheses opens closes hopens hcloses
      hclauses (spells_braces level starts stops hstarts hstops hblock next)))⟩
  rw [Code.value, statement_forLoop, hs, hs', hs'', htexts]
  simp [Text.cat]
  rfl

omit K in
theorem writes_branch (word : TokenOf [.ifWord]) (first : Code .arm) (others : Code .alternatives)
    (last : Code .ending) (hword : crossGl.Lexes word.1) (hfirst : Written sc first)
    (hothers : Written sc others) (hlast : Written sc last) :
    Written sc (Code.branch word first others last) := by
  intro level
  obtain ⟨s, hs, hspells⟩ := hfirst level
  obtain ⟨texts, htexts, hmore⟩ := hothers level
  obtain ⟨s', hs', hend⟩ := hlast level
  refine ⟨_, ?_, spells_lineEnd fun next => .gaps (isGap_indent level)
    (spells_word (x := "if") word hword (by decide)
      ((hspells _).append ((hmore _).append (hend next))))⟩
  have hbranch := statement_branch sc level first.value others.value last.value
  rw [hs, htexts, hs'] at hbranch
  refine hbranch.trans ?_
  simp [Text.cat]
  rfl

omit K in
theorem writes_alternative (elseWord : TokenOf [.elseWord]) (ifWord : TokenOf [.ifWord])
    (first : Code .arm) (others : Code .alternatives) (helse : crossGl.Lexes elseWord.1)
    (hif : crossGl.Lexes ifWord.1) (hfirst : Written sc first) (hothers : Written sc others) :
    Written sc (Code.alternative elseWord ifWord first others) := by
  intro level
  obtain ⟨s, hs, hspells⟩ := hfirst level
  obtain ⟨texts, htexts, hmore⟩ := hothers level
  refine ⟨(" else if " ++ s) :: texts, ?_, fun next => ?_⟩
  · rw [Code.value, List.mapM_cons, hs, htexts]
    rfl
  · have harm : crossGl.Spells (elseWord.1 :: ifWord.1 :: (first.bare ++ others.bare))
        ("else" ++ ' ' :: ("if" ++ ' ' :: (s ++ Text.cat texts))) next :=
      spells_word elseWord helse (by decide) (spells_word ifWord hif (by decide)
        ((hspells _).append (hmore next)))
    exact .gap (b := ' ') rfl harm

omit K in
theorem writes_otherwise (word : TokenOf [.elseWord]) (starts : TokenOf [.leftBrace])
    (s : Code .statement) (more : Code .block) (stops : TokenOf [.rightBrace])
    (hword : crossGl.Lexes word.1) (hstarts : crossGl.Lexes starts.1)
    (hstops : crossGl.Lexes stops.1) (hblock : Written sc (Code.next s more)) :
    Written sc (Code.otherwise word starts s more stops) := by
  intro level
  obtain ⟨texts, htexts, hspells⟩ := hblock (level + 1)
  refine ⟨_, ?_, fun next => .gap (b := ' ') rfl (spells_word (x := "else") word hword (by decide)
    (spells_braces level starts stops hstarts hstops hspells next))⟩
  rw [Code.value, endingText_list]
  show (List.mapM _ (Code.next s more).value >>= fun _ => _) = _
  rw [htexts]
  simp [Text.cat]

omit K in
theorem writes_next (s : Code .statement) (more : Code .block) (hs : Written sc s)
    (hmore : Written sc more) : Written sc (Code.next s more) := by
  intro level
  obtain ⟨text, htext, hspells⟩ := hs level
  obtain ⟨texts, htexts, hrest⟩ := hmore level
  refine ⟨text :: texts, ?_, fun next => (hspells _).append (hrest next)⟩
  rw [Code.value, List.mapM_cons, htext, htexts]
  rfl

/-- All code is written in its own tokens, without the parentheses that only group. -/
theorem written {p : Part} (c : Code p) (hlex : ∀ t ∈ c.bare, crossGl.Lexes t)
    (hsigns : c.SignsApart) : Written sc c := by
  -- One lemma for each production; the hypothesis on signs splits along the parts.
  induction c with
  | plain s =>
    obtain ⟨ts, ends, hts, hline⟩ := line_plain K s hlex hsigns
    intro level
    have hends : crossGl.Lexes ends.1 := hlex _ (by simp [Code.bare, hts])
    rw [Code.bare, hts]
    exact writes_line ends hends hline level
  | returned word values ends => exact writes_returned K word values ends hlex hsigns
  | branch word first others last ih ih' ih'' =>
    simp only [Code.bare, List.forall_mem_cons, List.forall_mem_append] at hlex
    obtain ⟨hword, hfirst, hothers, hlast⟩ := hlex
    exact writes_branch word first others last hword (ih hfirst hsigns.1)
      (ih' hothers hsigns.2.1) (ih'' hlast hsigns.2.2)
  | loop word opens init condition u closes starts b stops ih =>
    refine writes_loop K word opens init condition u closes starts b stops hlex hsigns.1
      hsigns.2.1 hsigns.2.2.1 (ih (fun t ht => hlex t ?_) hsigns.2.2.2)
    simp [Code.bare, ht]
  | empty => exact fun level => ⟨[], rfl, fun next => .nil⟩
  | next s more ih ih' =>
    simp only [Code.bare, List.forall_mem_append] at hlex
    exact writes_next s more (ih hlex.1 hsigns.1) (ih' hlex.2 hsigns.2)
  | arm opens condition closes starts b stops ih =>
    refine writes_arm K opens condition closes starts b stops hlex hsigns.1
      (ih (fun t ht => hlex t ?_) hsigns.2)
    simp [Code.bare, ht]
  | noAlternative => exact fun level => ⟨[], rfl, fun next => .nil⟩
  | alternative elseWord ifWord first others ih ih' =>
    simp only [Code.bare, List.forall_mem_cons, List.forall_mem_append] at hlex
    obtain ⟨helse, hif, hfirst, hothers⟩ := hlex
    exact writes_alternative elseWord ifWord first others helse hif (ih hfirst hsigns.1)
      (ih' hothers hsigns.2)
  | noElse => exact fun level => ⟨[], rfl, fun next => .nil⟩
  | otherwise word starts s more stops ih ih' =>
    simp only [Code.bare, List.forall_mem_cons, List.forall_mem_append] at hlex
    obtain ⟨hword, hstarts, ⟨hs, hmore⟩, hstops, -⟩ := hlex
    exact writes_otherwise word starts s more stops hword hstarts hstops
      (writes_next s more (ih hs hsigns.1) (ih' hmore hsigns.2))

end Statements

/-! ## §4 Functions -/

theorem exists_typeName (t : TokenOf headerTypes) (h : crossGl.Lexes t.1) :
    ∃ w, typeTree t = .text w ∧ isName w ∧ crossGl.Whole t.1 w := by
  obtain ⟨w, hname, hw, htext⟩ := exists_name h (t.mem (by decide))
  refine ⟨w, ?_, hname, hw⟩
  rw [typeTree]
  split
  · next hvoid =>
    have hfixed := text_of_fixed (x := "void") h (by simp [hvoid, fixedTexts, structureTexts])
    rw [Option.some.inj (hw.text.symm.trans hfixed)]
  · exact htext

theorem spells_typed {t u : Token} {w x : Text} (ht : crossGl.Whole t w) (hu : crossGl.Whole u x)
    {next : Option Char} (hnext : next.all isBreak) :
    crossGl.Spells [t, u] (w ++ ' ' :: x) next :=
  .token ht (apart_break ht.ne_nil rfl) (.gap rfl (.single hu (apart_break hu.ne_nil hnext)))

section Functions

variable (K : Verbatim sc)

include K

theorem writes_param (p : Param) (hlex : ∀ t ∈ p.tokens, crossGl.Lexes t) :
    ∃ s, paramText sc p.tree = .ok s ∧
      ∀ next, next.all isBreak → crossGl.Spells p.tokens s next := by
  simp only [Param.tokens, List.forall_mem_cons] at hlex
  obtain ⟨x, hx, -, htype⟩ := exists_typeName p.vtype hlex.1
  obtain ⟨w, -, hw, htext⟩ := exists_name hlex.2.1 (by simp [wordKinds])
  refine ⟨x ++ ' ' :: w, ?_, fun next hnext => spells_typed htype hw hnext⟩
  have hparam : p.tree = .tuple [.text x, .text w] := by rw [Param.tree, hx, htext]
  rw [hparam]
  show (sc.dialect.mapType (.text x) >>= fun _ => _) = _
  rw [K.mapType]
  simp [Text.cat]
  rfl

theorem writes_params (ps : Params) (hlex : ∀ t ∈ ps.tokens, crossGl.Lexes t) :
    ∃ texts, ps.trees.mapM (paramText sc) = .ok texts ∧ texts ≠ [] ∧
      ∀ next, next.all isBreak → crossGl.Spells ps.tokens (Text.join ", " texts) next := by
  induction ps with
  | one p =>
    obtain ⟨s, hs, hspells⟩ := writes_param K p hlex
    refine ⟨[s], by simp [Params.trees, hs], by simp, ?_⟩
    simpa [Text.join, Params.tokens] using hspells
  | more p comma ps ih =>
    simp only [Params.tokens, List.forall_mem_append, List.forall_mem_cons] at hlex
    obtain ⟨hp, hcomma, hps⟩ := hlex
    obtain ⟨s, hs, hspells⟩ := writes_param K p hp
    obtain ⟨texts, htexts, hne, hmore⟩ := ih hps
    refine ⟨s :: texts, ?_, by simp, fun next hnext =>
      spells_join (hspells _ rfl) hne (hmore next hnext) hcomma comma.kind_eq⟩
    rw [Params.trees, List.mapM_cons, hs, htexts]
    rfl

theorem writes_parameters (params : Option Params)
    (hlex : ∀ t ∈ params.elim [] Params.tokens, crossGl.Lexes t) :
    ∃ s, Forward.parameters sc (.list (params.elim [] Params.trees)) = .ok s ∧
      crossGl.Spells (params.elim [] Params.tokens) s (some ')') := by
  cases params with
  | none => exact ⟨[], rfl, .nil⟩
  | some ps =>
    obtain ⟨texts, htexts, -, hspells⟩ := writes_params K ps hlex
    refine ⟨Text.join ", " texts, ?_, hspells _ rfl⟩
    rw [parameters_list, Option.elim_some, htexts]
    rfl

/-- A function whose signs are apart is written as its tokens. -/
theorem writes_plainFunction (f : Function) (hlex : ∀ t ∈ f.bare, crossGl.Lexes t)
    (hsigns : f.SignsApart) : Writes (plainFunction sc f.tree) f.bare := by
  obtain ⟨vtype, name, opens, params, closes, starts, b, stops⟩ := f
  simp only [Function.bare, Function.header, List.forall_mem_cons, List.forall_mem_append] at hlex
  obtain ⟨⟨hvtype, hname, hopens, hparams, hcloses, hstarts, -⟩, hb, hstops, -⟩ := hlex
  obtain ⟨x, hx, -, htype⟩ := exists_typeName vtype hvtype
  obtain ⟨w, hisName, hw, htext⟩ := exists_name hname (name.mem (by decide))
  obtain ⟨s, hs, hspells⟩ := writes_parameters K params hparams
  obtain ⟨texts, htexts, hblock⟩ := written K b hb hsigns 1
  have hbare : Function.bare ⟨vtype, name, opens, params, closes, starts, b, stops⟩ =
      vtype.1 :: name.1 :: opens.1 :: (params.elim [] Params.tokens ++
        closes.1 :: starts.1 :: (b.bare ++ [stops.1])) := by
    simp [Function.bare, Function.header]
  rw [hbare]
  refine ⟨_, ?_, spells_lineEnd fun next => .token htype (apart_break htype.ne_nil rfl)
    (.gap (b := ' ') rfl (.token hw (apart_nameBreak hisName rfl)
      (spells_parentheses opens closes hopens hcloses hspells
        (spells_braces 0 starts stops hstarts hstops hblock next))))⟩
  rw [Function.tree, plainFunction_function, hs, K.mapType, hx, htext, htexts]
  simp [Text.cat]
  rfl

end Functions

/-- Only a function that is called `main` is an entry point. -/
theorem isEntry_tree (f : Function) (h : f.name.1.text ≠ some ("main" : Text)) :
    isEntry f.tree = .ok false := by
  show Except.ok ((Tree.ofText? f.name.1.text).isText "main") = _
  cases htext : f.name.1.text with
  | none => rfl
  | some w =>
    have hw : w ≠ "main" := fun hw => h (htext.trans (congrArg some hw))
    exact congrArg _ (beq_eq_false_iff_ne.2 hw)

/-- A function of plain code keeps its tokens in GLSL.  The grammar reads exactly its tokens, and
whatever is written for its tree, outside the stages, as a helper function or as the entry point of
a stage, is cut into the same tokens without the parentheses that only group. -/
theorem glsl_keeps_tokens (f : Function) (hlex : ∀ t ∈ f.tokens, crossGl.Lexes t)
    (hsigns : f.SignsApart) :
    (∀ pos rest, CommentFree rest →
      function ⟨pos, f.tokens ++ rest⟩ = .ok f.tree ⟨pos + f.tokens.length, rest⟩) ∧
    (∀ sections, ∃ text, Forward.function ⟨.glsl, sections, .text "global"⟩ f.tree = .ok text ∧
      crossGl.tokenize text = .ok (f.bare ++ [⟨.endOfInput, none⟩])) ∧
    (∀ (sections : Sections) (stage : Stage), Declared (sections.ofStage (.text stage.label)) →
      ∃ text, entryPoint ⟨.glsl, sections, .text stage.label⟩ f.tree = .ok text ∧
        (f.name.1.text ≠ some ("main" : Text) →
          Forward.function ⟨.glsl, sections, .text stage.label⟩ (.list [f.tree]) = .ok text) ∧
        crossGl.tokenize text = .ok (f.bare ++ [⟨.endOfInput, none⟩])) := by
  have hbare : ∀ t ∈ f.bare, crossGl.Lexes t := fun t ht => hlex t (f.bare_sublist.subset ht)
  -- Reading, the text among the shared functions, and the text within a stage.
  refine ⟨fun pos rest hrest => ?_, fun sections => ?_, fun sections stage hstage => ?_⟩
  · exact reads_function f (fun t ht => (hlex t ht).isSome_text) rest hrest pos
  · obtain ⟨text, htext, hspells⟩ :=
      writes_plainFunction (verbatim_shared sections) f hbare hsigns
    exact ⟨text, htext, (hspells none).tokenize regular⟩
  · obtain ⟨text, htext, hspells⟩ := writes_plainFunction (verbatim_stage hstage) f hbare hsigns
    refine ⟨text, htext, fun hmain => ?_, (hspells none).tokenize regular⟩
    rw [function_stage _ _ _ (isEntry_tree f hmain), htext]

theorem identifier_mem_nameKinds : TokenKind.identifier ∈ nameKinds := List.mem_cons_self

theorem plus_mem_signs : TokenKind.plus ∈ [TokenKind.plus, .minus] := List.mem_cons_self

theorem multiply_mem_factors : TokenKind.multiply ∈ [TokenKind.multiply, .divide] :=
  List.mem_cons_self

/-- The sum `a + b` in parentheses, times `c`. -/
def scaledSum : Expr :=
  let named (s : Text) : Phrase writtenLinks .signed :=
    .unsigned (.name ⟨⟨.identifier, some s⟩, identifier_mem_nameKinds⟩)
  .alone (.settled (.term (.scaled (.factor (.unsigned (.group (slot .leftParen "(")
    (.alone (.settled (.added (.term (.factor (named "a"))) ⟨⟨.plus, some "+"⟩, plus_mem_signs⟩
      (.factor (named "b")))))
    (slot .rightParen ")")))) ⟨⟨.multiply, some "*"⟩, multiply_mem_factors⟩ (named "c"))))

/-- The comparison `p.x < -(1)`. -/
def belowMinusOne : Expr :=
  .linked (.opening (.term (.factor (.unsigned (.member ⟨⟨.identifier, some "p"⟩, by decide⟩
      (slot .dot ".", slot .identifier "x") [])))))
    ⟨⟨.lessThan, some "<"⟩, by decide⟩
    (.settled (.term (.factor (.sign ⟨⟨.minus, some "-"⟩, by decide⟩
      (.unsigned (.group (slot .leftParen "(")
        (.alone (.settled (.term (.factor (.unsigned (.number ⟨⟨.number, some "1"⟩, by decide⟩))))))
        (slot .rightParen ")")))))))

/-- The function `float f(vec2 p) { if (p.x < -(1)) { return (a + b) * c; } }`. -/
def branching : Function :=
  { vtype := ⟨⟨.floatType, some "float"⟩, by decide⟩
    name := ⟨⟨.identifier, some "f"⟩, by decide⟩
    opens := slot .leftParen "("
    params := some (.one ⟨⟨⟨.vectorType, some "vec2"⟩, by decide⟩, slot .identifier "p"⟩)
    closes := slot .rightParen ")"
    starts := slot .leftBrace r"{"
    body := .next (.branch (slot .ifWord "if")
      (.arm (slot .leftParen "(") belowMinusOne (slot .rightParen ")") (slot .leftBrace r"{")
        (.next (.returned (slot .returnWord "return") (.argument scaledSum) (slot .semicolon ";"))
          .empty)
        (slot .rightBrace r"}")) .noAlternative .noElse) .empty
    stops := slot .rightBrace r"}" }

/-- The branching function is written without the two pairs of parentheses that group. -/
theorem glsl_keeps_branching :
    (∀ t ∈ branching.tokens, crossGl.Lexes t) ∧ branching.SignsApart ∧
    ∃ text, Forward.function ⟨.glsl, {}, .text "global"⟩ branching.tree = .ok text ∧
      crossGl.tokenize text = .ok (branching.bare ++ [⟨.endOfInput, none⟩]) := by
  have hlex : ∀ t ∈ branching.tokens, crossGl.Lexes t := by decide +kernel
  have hsigns : branching.SignsApart := by
    simp [branching, belowMinusOne, scaledSum, Function.SignsApart, Code.SignsApart,
      Phrase.SignsApart, Phrase.bare, Phrase.shown]
  exact ⟨hlex, hsigns, (glsl_keeps_tokens branching hlex hsigns).2.1 {}⟩

end ShaderBridge.CrossGl
