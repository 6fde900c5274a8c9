import ShaderBridge.Proofs.Forward.Statement
import ShaderBridge.Proofs.Making

/-!
# The trees of the CrossGL grammar

What the grammar of CrossGL builds for expressions, statements and functions, as inductive
predicates with one case for each form: `ExprShape`, `LineShape` for the statements that take one
line, `StmtShape` and `FunctionShape`.  Every function that is read has the last of them
(`makes_function`).

Sections and shaders are made of such functions and statements (`SectionShape`, `ShaderShape`,
`makes_shaderShape`).
-/

namespace ShaderBridge.CrossGl

open ShaderBridge.Parser Ladder Forward
open Text (Bare)

/-! ## §1 Forms -/

/-- The form of an expression. -/
inductive ExprShape : Tree → Prop
  | word {t : Tree} (h : BareText t) : ExprShape t
  | var {vtype name : Tree} (hv : BareText vtype) (hn : ExprShape name) :
      ExprShape (Tree.var vtype name)
  | binary {left op right : Tree} (hl : ExprShape left) (ho : BareText op)
      (hr : ExprShape right) : ExprShape (Tree.binary left op right)
  | unary {op operand : Tree} (ho : BareText op) (h : ExprShape operand) :
      ExprShape (Tree.unary op operand)
  | ternary {condition yes no : Tree} (hc : ExprShape condition) (hy : ExprShape yes)
      (hn : ExprShape no) : ExprShape (Tree.ternary condition yes no)
  | memberOf {object : Tree} (s : Text) (h : ExprShape object) (hs : Bare s) :
      ExprShape (Tree.memberOf object (.text s))
  | call {name : Tree} {args : List Tree} (hn : BareText name)
      (ha : ∀ a ∈ args, ExprShape a) : ExprShape (Tree.call name args)

/-- What a statement may call: a word, or a counted variable, which is a node. -/
inductive CalledShape : Tree → Prop
  | word {t : Tree} (h : BareText t) : CalledShape t
  | node {vtype name : Tree} (h : ExprShape (Tree.var vtype name)) :
      CalledShape (Tree.var vtype name)

/-- The form of a statement that takes one line and that may stand in the header of a loop. -/
inductive LineShape : Tree → Prop
  | var {vtype : Tree} (hv : BareText vtype) (name : Tree) (hn : ExprShape name) :
      LineShape (Tree.var vtype name)
  | binary {left op right : Tree} (hl : ExprShape left) (ho : BareText op)
      (hr : ExprShape right) : LineShape (Tree.binary left op right)
  | call {name : Tree} {args : List Tree} (hn : CalledShape name)
      (ha : ∀ a ∈ args, ExprShape a) : LineShape (Tree.call name args)
  | absent : LineShape .absent

/-- What stands behind the last condition of a branch. -/
def endingTree : Option (List Tree) → Tree
  | none => .absent
  | some stmts => .list stmts

/-- The form of a statement. -/
inductive StmtShape : Tree → Prop
  | line {t : Tree} (h : LineShape t) : StmtShape t
  | returned {values : List Tree} (h : ∀ v ∈ values, ExprShape v) :
      StmtShape (Tree.returned (.list values))
  | forLoop {init condition update : Tree} {body : List Tree} (hi : LineShape init)
      (hc : LineShape condition) (hu : LineShape update) (hb : ∀ s ∈ body, StmtShape s) :
      StmtShape (Tree.forLoop init condition update body)
  | branch {first : Tree × List Tree} {others : List (Tree × List Tree)}
      {last : Option (List Tree)} (hc : ExprShape first.1) (hb : ∀ s ∈ first.2, StmtShape s)
      (hcs : ∀ a ∈ others, ExprShape a.1) (hbs : ∀ a ∈ others, ∀ s ∈ a.2, StmtShape s)
      (hlast : ∀ s ∈ last.getD [], StmtShape s) :
      StmtShape (branchTree first others (endingTree last))

/-- The form of a parameter. -/
def ParamShape (t : Tree) : Prop :=
  ∃ vtype name : Tree, t = .tuple [vtype, name] ∧ BareText vtype ∧ BareText name

/-- The form of a function. -/
inductive FunctionShape : Tree → Prop
  | mk {vtype : Tree} (name : Tree) {params body : List Tree} (hv : BareText vtype)
      (hn : BareText name) (hp : ∀ p ∈ params, ParamShape p) (hb : ∀ s ∈ body, StmtShape s) :
      FunctionShape (Tree.function vtype name params body)

/-- The form of an input or an output. -/
def VariableShape (t : Tree) : Prop :=
  ∃ (vtype : Tree) (name : Text), t = .tuple [vtype, .text name] ∧ BareText vtype ∧ Bare name

/-- The form of what a section holds. -/
structure SectionShape (s : SectionItems) : Prop where
  inputs : ∀ v ∈ s.inputs, VariableShape v
  outputs : ∀ v ∈ s.outputs, VariableShape v
  functions : ∀ f ∈ s.functions, FunctionShape f
  statements : ∀ t ∈ s.statements, StmtShape t

/-- The form of what may stand for a section. -/
def SectionShape? (k : NodeKind) (t : Tree) : Prop :=
  t = .absent ∨ ∃ items : SectionItems, t = items.node k ∧ SectionShape items

theorem SectionItems.node_inj {s s' : SectionItems} {k : NodeKind} (h : s.node k = s'.node k) :
    s = s' := by
  obtain ⟨ins, outs, fs, stmts⟩ := s
  obtain ⟨ins', outs', fs', stmts'⟩ := s'
  simpa [SectionItems.node] using h

theorem SectionShape?.of_node {s : SectionItems} {k : NodeKind} (h : SectionShape? k (s.node k)) :
    SectionShape s := by
  rcases h with h | ⟨s', h, hs⟩
  · cases h
  · exact SectionItems.node_inj h ▸ hs

/-- The form of what a shader holds behind its interface. -/
structure ItemsShape (s : ShaderItems) : Prop where
  functions : ∀ f ∈ s.functions, FunctionShape f
  vertex : SectionShape? .vertexSection s.vertex
  fragment : SectionShape? .fragmentSection s.fragment

/-- The form of a shader. -/
inductive ShaderShape : Tree → Prop
  | mk {name : Tree} {ins outs : List Tree} {s : ShaderItems} (hn : BareText name)
      (hins : ∀ v ∈ ins, VariableShape v) (houts : ∀ v ∈ outs, VariableShape v)
      (hs : ItemsShape s) :
      ShaderShape (.node .shader
        [(.name, name), (.globalInputs, .list ins), (.globalOutputs, .list outs),
         (.globalFunctions, .list s.functions), (.vertexSection, s.vertex),
         (.fragmentSection, s.fragment)])

/-! ## §2 Expressions -/

theorem ExprShape.ladderClosed : LadderClosed ExprShape where
  binary := .binary
  unary := .unary
  ternary := .ternary
  memberOf := .memberOf _

section Expressions

variable {expr : Parser Tree}

theorem makes_nameOrCallWith (h : Makes expr ExprShape) :
    Makes (nameOrCallWith expr) ExprShape := by
  refine DrawsAt.cond (P := BareText) (MakesAt.takeTextOf (by decide))
    (MakesAt.expectText (by decide)) fun name hname => ?_
  apply DrawsAt.kind
  intro k _
  refine DrawsAt.here ?_
  split
  · refine (DrawsAt.strictArguments h).bind_pure fun _ hargs => ?_
    exact .call hname hargs
  · exact ExprShape.ladderClosed.memberChain (.word hname)
  · exact .pure (.var (bareText_text (by decide)) (.word hname))

theorem makes_primaryWith (h : Makes expr ExprShape) : Makes (primaryWith expr) ExprShape := by
  apply DrawsAt.kind
  intro k _
  split
  · exact .parenthesized h
  split
  · next hk => exact (MakesAt.takeTextIn hk (by decide)).mono fun _ => .word
  split
  · exact (makes_nameOrCallWith h).here
  · exact .reject

theorem makes_expressionWith (h : Makes expr ExprShape) :
    Makes (expressionWith expr) ExprShape := by
  have hclosed := ExprShape.ladderClosed
  refine hclosed.rung (by decide) ?_
  have hsum : Makes (sumWith expr) ExprShape := hclosed.sum (hclosed.signed (makes_primaryWith h))
  apply hsum.bind
  intro _ hcondition
  exact hclosed.choice h hcondition

theorem makes_expression : Makes expression ExprShape := by
  refine .nested rfl fun _ ih => ?_
  exact makes_expressionWith ih

end Expressions

/-! ## §3 Types and parameters -/

theorem makes_typeName : Makes typeName BareText := by
  apply DrawsAt.kind
  intro k _
  split
  · apply DrawsAt.take.seq
    intro _
    exact .pure (bareText_text (by decide))
  split
  · next hk =>
    have hmem : k ∈ .identifier :: interfaceTypes := by
      simpa [or_comm] using hk
    exact MakesAt.takeTextIn hmem (by decide)
  · exact .reject

theorem makes_parameter : Makes parameter ParamShape := by
  apply makes_typeName.bind
  intro vtype hv
  refine (MakesAt.expectText (by decide)).bind_pure fun name hn => ?_
  exact ⟨vtype, name, rfl, hv, hn⟩

theorem makes_parameters : Makes parameters fun ps => ∀ p ∈ ps, ParamShape p :=
  DrawsAt.isAt (.pure (by simp)) (.sepBy makes_parameter)

/-! ## §4 Plain statements -/

theorem makes_joined {a b : Tree} (ha : BareText a) (hb : BareText b) :
    Makes (joined a b) BareText := by
  unfold joined
  split
  · exact .pure (bareText_text (ha.bare.append hb.bare))
  · exact .throw

/-- A node has no text that could be joined. -/
theorem makes_joined_node {k : NodeKind} {fs : List (Field × Tree)} {b : Tree} {P : Tree → Prop} :
    Makes (joined (.node k fs) b) P := by
  unfold joined
  split
  · next heq => cases heq
  · exact .throw

theorem makes_members {object : Tree} (h : ExprShape object) {P : Tree → Prop}
    {f : Tree → Parser Tree} (hf : ∀ t, ExprShape t → Makes (f t) P) :
    Makes (do
      let t ← if ← isAt [.dot] then memberChain tv object else pure object
      f t) P :=
  DrawsAt.cond (ExprShape.ladderClosed.memberChain h).here (.pure h) hf

theorem makes_assignmentTo {target : Tree} (h : ExprShape target) :
    Makes (assignmentTo target) LineShape := by
  refine DrawsAt.check (w := .expectedHere "assignment operator") ?_
  refine (MakesAt.takeTextOf (by decide)).bind fun op hop => ?_
  apply makes_expression.bind
  intro value hvalue
  apply DrawsAt.accept.seq
  intro _
  exact .pure (.binary h hop hvalue)

theorem makes_callOf {name : Tree} (h : CalledShape name) : Makes (callOf name) LineShape := by
  refine (DrawsAt.strictArguments makes_expression).bind_pure fun _ hargs => ?_
  exact .call h hargs

theorem makes_declaration {vtype : Tree} (h : BareText vtype) (inUpdate : Bool) :
    Makes (declaration vtype inUpdate) LineShape := by
  refine (MakesAt.expectText (by decide)).bind fun first hfirst => ?_
  refine makes_members (.word hfirst) fun name hname => ?_
  apply DrawsAt.kind
  intro k _
  split
  · apply DrawsAt.take.seq
    intro _
    exact .pure (.var h name hname)
  split
  · next hk =>
    refine (MakesAt.takeTextIn hk (by decide)).bind fun op hop => ?_
    apply makes_expression.bind
    intro e he
    refine makes_members he fun value hvalue => ?_
    -- In the header of a loop the semicolon may be left out.
    have hdone : LineShape (Tree.binary (Tree.var vtype name) op value) :=
      .binary (.var h hname) hop hvalue
    refine DrawsAt.isAt (DrawsAt.take.seq fun _ => .pure hdone) ?_
    cases inUpdate with
    | true => exact .pure hdone
    | false => exact DrawsAt.kind fun _ _ => (DrawsAt.reject (P := fun _ => False)).bind nofun
  · exact .reject

/-- What a statement goes on with behind an increment and a name, which make a node.  The text
behind a second step is never joined to a node. -/
theorem makes_afterStep {vtype name : Tree} (h : ExprShape (Tree.var vtype name)) :
    Makes (do
      let k ← kind
      if k ∈ updateOperators then assignmentTo (Tree.var vtype name)
      else if k ∈ [.increment, .decrement] then
        let _ ← take tv
        let after ← text
        return Tree.var vtype (Tree.var (.text []) (← joined (Tree.var vtype name) after))
      else if k = .leftParen then callOf (Tree.var vtype name)
      else reject (.unexpectedIn "after identifier" k)) LineShape := by
  apply DrawsAt.kind
  intro k _
  refine DrawsAt.here ?_
  split
  · exact makes_assignmentTo h
  split
  -- A node and a text cannot be joined.
  · apply DrawsAt.take.seq
    intro _
    apply DrawsAt.look.seq
    intro after
    exact (makes_joined_node (P := fun _ => False)).bind nofun
  split
  · exact makes_callOf (.node h)
  · exact .reject

theorem makes_plainStatement (inUpdate : Bool) : Makes (plainStatement inUpdate) LineShape := by
  refine DrawsAt.cond (P := BareText) (MakesAt.takeTextOf (by decide))
    (.pure (bareText_text (by decide))) fun vtype hv => ?_
  refine DrawsAt.isAt (makes_declaration hv inUpdate).here (DrawsAt.isAt ?_ ?_)
  · refine DrawsAt.bind (P := fun step => ∃ op, step = some op ∧ BareText op)
      ((MakesAt.takeTextOf (by decide)).map fun op hop => ⟨op, rfl, hop⟩) ?_
    rintro _ ⟨op, rfl, hop⟩
    refine (MakesAt.expectText (by decide)).bind fun name hname => ?_
    apply (makes_joined hop hname).bind
    intro both hboth
    -- With a step in front the target is a node: the two texts as one, without a type.
    exact makes_afterStep (.var hv (.var (bareText_text (by decide)) (.word hboth)))
  -- Without a step in front a name would have been read as a declaration.
  · refine DrawsAt.pureThen (DrawsAt.unmet ?_)
    rintro k ⟨-, hk, -⟩ rfl
    exact hk (by simp)

theorem makes_update : Makes update LineShape := by
  -- A name and a step become one text.
  have hjoin : ∀ {a b}, BareText a → BareText b →
      Makes (do return Tree.var (.text []) (← joined a b)) LineShape :=
    fun ha hb => (makes_joined ha hb).bind_pure fun name hname =>
      .var (bareText_text (by decide)) name (.word hname)
  apply DrawsAt.kind
  intro k _
  split
  · next hk =>
    refine (MakesAt.takeTextAt hk (by decide)).bind fun name hname => ?_
    refine DrawsAt.isAt ?_ (DrawsAt.kind fun _ _ => .reject)
    refine (MakesAt.takeTextOf (by decide)).bind fun op hop => ?_
    exact hjoin hname hop
  split
  · next hk =>
    refine (MakesAt.takeTextIn hk (by decide)).bind fun op hop => ?_
    refine DrawsAt.isAt ?_ (.pure .absent)
    refine (MakesAt.takeTextOf (by decide)).bind fun name hname => ?_
    exact hjoin hop hname
  · exact .reject

theorem makes_returnStatement : Makes returnStatement StmtShape := by
  apply DrawsAt.expect.seq
  intro _
  apply (DrawsAt.sepBy makes_expression).bind
  intro _ hvalues
  apply DrawsAt.expect.seq
  intro _
  exact .pure (.returned hvalues)

/-! ## §5 Compound statements -/

section Statements

variable {body : Parser (List Tree)}

/-- Statements of the forms above. -/
abbrev AreStmts (ss : List Tree) : Prop := ∀ s ∈ ss, StmtShape s

theorem makes_guarded (h : Makes body AreStmts) :
    Makes (guarded body) fun a => ExprShape a.1 ∧ AreStmts a.2 := by
  apply (DrawsAt.parenthesized makes_expression).bind
  intro _ hc
  apply DrawsAt.expect.seq
  intro _
  apply h.bind
  intro _ hss
  apply DrawsAt.expect.seq
  intro _
  exact .pure ⟨hc, hss⟩

theorem looks_atElseIf : Looks (fun _ => True) atElseIf := by
  intro c again c' hrun
  refine ⟨?_, fun _ => trivial⟩
  unfold atElseIf at hrun
  rw [isAt_bind] at hrun
  by_cases hk : c.kind ∈ [.elseWord]
  · rw [decide_eq_true hk] at hrun
    obtain ⟨t, d, ht, hd⟩ := bind_eq_ok hrun
    obtain ⟨-, rfl⟩ := lookahead_eq_ok ht
    cases hd
    rfl
  · rw [decide_eq_false hk] at hrun
    cases hrun
    rfl

theorem makes_branchWith (h : Makes body AreStmts) : Makes (branchWith body) StmtShape := by
  apply DrawsAt.expect.seq
  intro _
  apply (makes_guarded h).bind
  intro first hfirst
  refine (DrawsAt.many looks_atElseIf (DrawsAt.expectAll.seq fun _ => makes_guarded h)).bind
    fun others hothers => ?_
  have hbranch : ∀ last : Option (List Tree), AreStmts (last.getD []) →
      StmtShape (branchTree first others (endingTree last)) := fun last hlast =>
    .branch hfirst.1 hfirst.2 (fun a ha => (hothers a ha).1) (fun a ha => (hothers a ha).2) hlast
  refine DrawsAt.isAt ?_ (.pure (hbranch none nofun))
  apply DrawsAt.expectAll.seq
  intro _
  apply h.bind
  intro ss hss
  apply DrawsAt.expect.seq
  intro _
  exact .pure (hbranch (some ss) hss)

/-- A loop has the shape of a statement if its body has. -/
theorem makes_forWith (h : Makes body AreStmts) : Makes (forWith body) StmtShape := by
  apply DrawsAt.expectAll.seq
  intro _
  apply (makes_plainStatement false).bind
  intro init hinit
  apply (makes_plainStatement false).bind
  intro condition hcondition
  -- What follows the update does not depend on how it was read.
  have hrest : ∀ step, LineShape step → Makes (do
      expectAll tv [.rightParen, .leftBrace]
      let stmts ← body
      let _ ← expect tv .rightBrace
      return Tree.forLoop init condition step stmts) StmtShape := by
    intro step hstep
    apply DrawsAt.expectAll.seq
    intro _
    apply h.bind
    intro ss hss
    apply DrawsAt.expect.seq
    intro _
    exact .pure (.forLoop hinit hcondition hstep hss)
  apply DrawsAt.lookahead.seq
  intro t
  dsimp only
  split
  · exact makes_update.bind hrest
  · exact (makes_plainStatement true).bind hrest

theorem makes_statementWith (h : Makes body AreStmts) : Makes (statementWith body) StmtShape := by
  apply DrawsAt.kind
  intro k _
  refine DrawsAt.here ?_
  split
  · exact makes_branchWith h
  split
  · exact makes_forWith h
  split
  · exact makes_returnStatement
  split
  · exact (makes_plainStatement false).mono fun _ => .line
  · exact .reject

theorem makes_body : Makes CrossGl.body AreStmts := by
  refine .nested rfl fun _ ih => ?_
  exact .many looks_isNotAt (makes_statementWith ih).here

end Statements

/-! ## §6 Functions -/

theorem makes_function : Makes function FunctionShape := by
  apply makes_typeName.bind
  intro vtype hv
  refine DrawsAt.check (w := .expected "MAIN or IDENTIFIER") ?_
  refine (MakesAt.takeTextOf (by decide)).bind fun name hname => ?_
  apply DrawsAt.expect.seq
  intro _
  apply makes_parameters.bind
  intro params hparams
  apply DrawsAt.expectAll.seq
  intro _
  apply makes_body.bind
  intro stmts hstmts
  apply DrawsAt.expect.seq
  intro _
  refine .pure ?_
  exact .mk name hv hname hparams hstmts

/-! ## §7 Interfaces -/

theorem makes_interfaceItem (wanted : Text) :
    Makes (interfaceItem wanted) fun v => BareText v.1 ∧ ∃ s, v.2 = .text s ∧ Bare s := by
  apply DrawsAt.take.seq
  intro _
  refine DrawsAt.check (w := .expected wanted) ?_
  refine (MakesAt.takeTextOf (by decide)).bind fun _ hv => ?_
  refine (MakesAt.expectWord (by decide) (by decide)).bind fun _ hn => ?_
  apply DrawsAt.expect.seq
  intro _
  exact .pure ⟨hv, hn⟩

theorem makes_interface {ks : List TokenKind} {wanted : Text} :
    Makes (many (isAt ks) (do
      let (vtype, name) ← interfaceItem wanted
      return Tree.tuple [vtype, name])) fun vs => ∀ v ∈ vs, VariableShape v := by
  refine .many looks_isAt ((makes_interfaceItem wanted).here.bind_pure ?_)
  rintro ⟨vtype, _⟩ ⟨hv, name, rfl, hn⟩
  exact ⟨vtype, name, rfl, hv, hn⟩

theorem makes_uniforms : Makes uniforms fun _ => True :=
  (DrawsAt.many (P := fun _ => True) looks_isAt
    ((makes_interfaceItem _).here.seq fun _ => .pure trivial)).mono fun _ _ => trivial

/-! ## §8 Sections and shaders -/

theorem forall_mem_snoc {α : Type} {P : α → Prop} {xs : List α} {y : α} (hxs : ∀ x ∈ xs, P x)
    (hy : P y) : ∀ x ∈ xs ++ [y], P x :=
  List.forall_mem_append.2 ⟨hxs, by simpa using hy⟩

/-- What a statement goes on with behind a name that no declaration can begin with. -/
def afterTarget (vtype target : Tree) : Parser Tree := do
  let k ← kind
  if k ∈ updateOperators then assignmentTo target
  else if k ∈ [.increment, .decrement] then
    let _ ← take tv
    let after ← text
    return Tree.var vtype (Tree.var (.text []) (← joined target after))
  else if k = .leftParen then callOf target
  else reject (.unexpectedIn "after identifier" k)

/-- An item of a section that is no declaration, where it is known whether it is a function. -/
def definition (s : SectionItems) (k : TokenKind) (opensFunction : Bool) : Parser SectionItems := do
  if opensFunction then return { s with functions := s.functions ++ [← function] }
  else if k = .forWord then return { s with statements := s.statements ++ [← forLoop] }
  else if k = .ifWord then return { s with statements := s.statements ++ [← branch] }
  else if k ∈ sectionStarts then
    return { s with statements := s.statements ++ [← plainStatement false] }
  else reject (.unexpected k)

/-- Behind a return type the third token tells whether a function opens. -/
theorem sectionItem_of_returnType {c : Cursor} (hk : c.kind ∈ returnTypes) (s : SectionItems) :
    sectionItem s c = (lookahead 2 >>= fun t => definition s c.kind (t.kind = .leftParen)) c := by
  have hkinds : ∀ k ∈ returnTypes, k ≠ .uniformWord ∧ k ≠ .inputWord ∧ k ≠ .outputWord := by
    decide
  obtain ⟨huniform, hinput, houtput⟩ := hkinds _ hk
  rw [sectionItem, kind_bind, if_neg huniform, if_neg hinput, if_neg houtput, if_pos hk]
  rfl

/-- A return type is read as a type. -/
theorem typeName_of_returnType {c : Cursor} (hk : c.kind ∈ returnTypes) :
    ∃ t, typeName c = .ok t (c.advance tv) := by
  rw [typeName, kind_bind]
  by_cases hvoid : c.kind = .voidType
  · rw [if_pos hvoid]
    exact ⟨_, rfl⟩
  · have hkinds : ∀ k ∈ returnTypes, k ≠ .voidType → k ∈ interfaceTypes := by decide
    have hmem := hkinds _ hk hvoid
    rw [if_neg hvoid, if_pos (by simp [hmem])]
    exact ⟨_, rfl⟩

/-- An item of a section keeps its shape. -/
theorem makes_sectionItem {s : SectionItems} (h : SectionShape s) :
    Makes (sectionItem s) SectionShape := by
  -- A statement leaves the rest of the section as it is.
  have hstmt : ∀ {p : Parser Tree}, Makes p StmtShape →
      Makes (do return { s with statements := s.statements ++ [← p] }) SectionShape := by
    intro p hp
    refine hp.bind_pure fun t ht => ?_
    exact { h with statements := forall_mem_snoc h.statements ht }
  apply DrawsAt.kind
  intro k _
  refine DrawsAt.here ?_
  split
  · apply makes_uniforms.seq
    intro _
    exact .pure h
  split
  · refine makes_interface.bind_pure fun vs hvs => ?_
    exact { h with inputs := List.forall_mem_append.2 ⟨h.inputs, hvs⟩ }
  split
  · refine makes_interface.bind_pure fun vs hvs => ?_
    exact { h with outputs := List.forall_mem_append.2 ⟨h.outputs, hvs⟩ }
  -- Whether it is a function is told by a token further on.
  have hrest : ∀ b : Bool, Makes (definition s k b) SectionShape := by
    intro b
    unfold definition
    split
    · refine makes_function.bind_pure fun f hf => ?_
      exact { h with functions := forall_mem_snoc h.functions hf }
    split
    · exact hstmt (makes_forWith makes_body)
    split
    · exact hstmt (makes_branchWith makes_body)
    split
    · exact hstmt ((makes_plainStatement false).mono fun _ => .line)
    · exact .reject
  dsimp only
  split
  · apply DrawsAt.lookahead.seq
    intro t
    exact hrest _
  · exact hrest false

theorem sectionShape_empty : SectionShape {} :=
  ⟨by simp, by simp, by simp, by simp⟩

theorem makes_sectionBody : Makes sectionBody SectionShape := by
  apply DrawsAt.expect.seq
  intro _
  apply (DrawsAt.loop looks_isNotAt (fun _ h => (makes_sectionItem h).here) sectionShape_empty).bind
  intro _ hs
  apply DrawsAt.expect.seq
  intro _
  exact .pure hs

theorem makes_section {k : NodeKind} {K : TokenKind} :
    Makes (do
      let _ ← expect tv K
      return (← sectionBody).node k) (SectionShape? k) := by
  apply DrawsAt.expect.seq
  intro _
  refine makes_sectionBody.bind_pure fun items h => ?_
  exact .inr ⟨items, rfl, h⟩

theorem makes_shaderItem {s : ShaderItems} (h : ItemsShape s) :
    Makes (shaderItem s) ItemsShape := by
  apply DrawsAt.kind
  intro k _
  refine DrawsAt.here ?_
  split
  · refine makes_section.bind_pure fun t ht => ?_
    exact { h with vertex := ht }
  split
  · refine makes_section.bind_pure fun t ht => ?_
    exact { h with fragment := ht }
  split
  · refine makes_function.bind_pure fun f hf => ?_
    exact { h with functions := forall_mem_snoc h.functions hf }
  · exact .reject

theorem itemsShape_empty : ItemsShape {} :=
  ⟨by simp, .inl rfl, .inl rfl⟩

/-- Every tree of the grammar has the form of a shader. -/
theorem makes_shaderShape : Makes shader ShaderShape := by
  apply DrawsAt.expect.seq
  intro _
  refine DrawsAt.check (w := .expected "IDENTIFIER or MAIN") ?_
  refine (MakesAt.takeTextOf (by decide)).bind fun name hname => ?_
  apply DrawsAt.expect.seq
  intro _
  refine DrawsAt.bind (p := inputs) makes_interface fun ins hins => ?_
  apply makes_uniforms.seq
  intro _
  refine DrawsAt.bind (p := outputs) makes_interface fun outs houts => ?_
  refine (DrawsAt.loop looks_isNotAt (fun _ h => (makes_shaderItem h).here) itemsShape_empty).bind
    fun s hs => ?_
  apply DrawsAt.expect.seq
  intro _
  exact .pure (.mk hname hins houts hs)

end ShaderBridge.CrossGl
