import ShaderBridge.Backward.Dialect
import ShaderBridge.Grammar.Hlsl
import ShaderBridge.Grammar.Metal
import ShaderBridge.Proofs.CrossGl.Shapes

/-!
# The trees of the HLSL and Metal grammars

What the two grammars build, as predicates with one case for each form: `ExprShape` for expressions,
`StmtShape` for statements, `IsFunction` and `IsStruct` for declarations and `ShaderShape` for whole
sources.  Every source that is read has the last of them (`Hlsl.makes_source`,
`Metal.makes_source`).

What the parsers make that the grammars share is shown once (§2); the two grammars are instances
(§3, §4).

The types of members, parameters and functions are read from any token, so they may be brackets.
All other texts have none.
-/

namespace ShaderBridge.Backward

open ShaderBridge.Parser Ladder
open CrossGl (endingTree)
open Text (Bare)

/-! ## §1 Forms -/

/-- The node of a variable, without a semantic or attributes. -/
def Dialect.varNode : Dialect → Tree → Tree → Tree
  | .hlsl => Hlsl.var
  | .metal => Metal.var

/-- The form of an expression. -/
inductive ExprShape (d : Dialect) : Tree → Prop
  | word {t : Tree} (h : BareText t) : ExprShape d t
  | var {vtype name : Tree} (hv : BareText vtype) (hn : BareText name) :
      ExprShape d (d.varNode vtype name)
  | binary {left op right : Tree} (hl : ExprShape d left) (ho : BareText op)
      (hr : ExprShape d right) : ExprShape d (Tree.binary left op right)
  | unary {op operand : Tree} (ho : BareText op) (h : ExprShape d operand) :
      ExprShape d (Tree.unary op operand)
  | ternary {condition yes no : Tree} (hc : ExprShape d condition) (hy : ExprShape d yes)
      (hn : ExprShape d no) : ExprShape d (Tree.ternary condition yes no)
  | memberOf {object : Tree} (s : Text) (h : ExprShape d object) (hs : Bare s) :
      ExprShape d (Tree.memberOf object (.text s))
  | call {name : Tree} {args : List Tree} (hn : BareText name)
      (ha : ∀ a ∈ args, ExprShape d a) : ExprShape d (Tree.call name args)
  | construction {typeName : Tree} {args : List Tree} (ht : BareText typeName)
      (ha : ∀ a ∈ args, ExprShape d a) : ExprShape d (Tree.construction typeName args)
  | assignment {left right op : Tree} (hl : ExprShape d left) (hr : ExprShape d right)
      (ho : BareText op) : ExprShape d (Tree.assignmentBy left right op)

/-- A condition with its body, as Metal lists them. -/
def guardTree (a : Tree × List Tree) : Tree := .tuple [a.1, .list a.2]

/-- A branch of Metal: conditions with their bodies, and perhaps a last body. -/
def chainTree (ifs elseIfs : List (Tree × List Tree)) (last : Option (List Tree)) : Tree :=
  .node .branch
    [(.ifChain, .list (ifs.map guardTree)), (.elseIfChain, .list (elseIfs.map guardTree)),
     (.elseBody, endingTree last)]

/-- The form of a statement. -/
inductive StmtShape : Dialect → Tree → Prop
  | plain {d : Dialect} {t : Tree} (h : ExprShape d t) : StmtShape d t
  | returned {d : Dialect} {value : Tree} (h : ExprShape d value) :
      StmtShape d (Tree.returned value)
  | forLoop {d : Dialect} {init condition update : Tree} {body : List Tree}
      (hi : ExprShape d init) (hc : ExprShape d condition) (hu : ExprShape d update)
      (hb : ∀ s ∈ body, StmtShape d s) : StmtShape d (Tree.forLoop init condition update body)
  | branch {condition : Tree} {body : List Tree} (last : Option (List Tree))
      (hc : ExprShape .hlsl condition) (hb : ∀ s ∈ body, StmtShape .hlsl s)
      (hl : ∀ s ∈ last.getD [], StmtShape .hlsl s) :
      StmtShape .hlsl (Tree.branch condition body (endingTree last))
  | elseIf {condition : Tree} {body : List Tree} {fields : List (Field × Tree)}
      (hc : ExprShape .hlsl condition) (hb : ∀ s ∈ body, StmtShape .hlsl s)
      (hn : StmtShape .hlsl (.node .branch fields)) :
      StmtShape .hlsl (Tree.branch condition body (.node .branch fields))
  | chains {ifs elseIfs : List (Tree × List Tree)} (last : Option (List Tree))
      (hi : ∀ a ∈ ifs, ExprShape .metal a.1) (hib : ∀ a ∈ ifs, ∀ s ∈ a.2, StmtShape .metal s)
      (he : ∀ a ∈ elseIfs, ExprShape .metal a.1)
      (heb : ∀ a ∈ elseIfs, ∀ s ∈ a.2, StmtShape .metal s)
      (hl : ∀ s ∈ last.getD [], StmtShape .metal s) : StmtShape .metal (chainTree ifs elseIfs last)

/-- Statements of the forms above. -/
abbrev AreStmts (d : Dialect) (ss : List Tree) : Prop := ∀ s ∈ ss, StmtShape d s

/-- A node with a type and a name, as members and parameters are. -/
def IsVariable (t : Tree) : Prop :=
  ∃ vtype name : Tree, t.get .vtype = .ok vtype ∧ t.get .name = .ok name ∧
    vtype.isKey ∧ BareText name

/-- The form of a function. -/
structure IsFunction (d : Dialect) (t : Tree) : Prop where
  isNode : t.isNode .function
  params : ∃ ps, t.get .params = .ok (.list ps) ∧ ∀ p ∈ ps, IsVariable p
  returnType : ∃ vtype, t.get .returnType = .ok vtype ∧ vtype.isKey
  name : ∃ name, t.get .name = .ok name ∧ BareText name
  qualifier : d = .metal → ∃ q, t.get .qualifier = .ok q
  body : ∃ ss, t.get .body = .ok (.list ss) ∧ AreStmts d ss

/-- An item of a source: a function, or in Metal another declaration. -/
def IsItem (d : Dialect) (t : Tree) : Prop :=
  IsFunction d t ∨ d = .metal ∧ t.isNode .function = false

/-- A structure with members that have types and names. -/
def IsStruct (t : Tree) : Prop :=
  ∃ (name : Tree) (ms : List Tree), t = Tree.struct name ms ∧ ∀ m ∈ ms, IsVariable m

/-- What stands for the structures of the stages: fields of the shader, or some of its items. -/
def HasStructs (t : Tree) : Dialect → Prop
  | .hlsl => ∀ x ∈ structFields,
    ∃ struct, t.get x.1 = .ok struct ∧ (struct = .absent ∨ IsStruct struct)
  | .metal => ∃ fs, t.get .functions = .ok (.list fs) ∧ ∀ f ∈ fs, f.isNode .struct → IsStruct f

/-- The form of a whole source. -/
structure ShaderShape (d : Dialect) (t : Tree) : Prop where
  items : ∃ fs, t.get .functions = .ok (.list fs) ∧ ∀ f ∈ fs, IsItem d f
  structs : HasStructs t d

/-! ## §2 What the shared parsers make -/

theorem ExprShape.ladderClosed {d : Dialect} : LadderClosed (ExprShape d) where
  binary := .binary
  unary := .unary
  ternary := .ternary
  memberOf := .memberOf _

section Makes

variable {d : Dialect} {expr : Parser Tree} {K : List TokenKind}

theorem ExprShape.untyped {name : Tree} (h : BareText name) :
    ExprShape d (d.varNode (.text []) name) :=
  .var (bareText_text (by decide)) h

theorem makes_nameForm (h : Makes expr (ExprShape d)) :
    Makes (Form.name d.varNode expr) (ExprShape d) := by
  refine (MakesAt.expectText (by decide)).bind fun name hname => ?_
  apply DrawsAt.kind
  intro k _
  refine DrawsAt.here ?_
  split
  · refine (DrawsAt.looseArguments h).bind_pure fun _ hargs => ?_
    exact .call hname hargs
  · exact ExprShape.ladderClosed.memberChain (.word hname)
  · exact .pure (.untyped hname)

/-- So has an operand, if no bracket is one. -/
theorem makes_operandForm (hK : ∀ k ∈ K, k ∉ bracketKinds) (h : Makes expr (ExprShape d)) :
    Makes (Form.operand d.varNode expr K) (ExprShape d) := by
  apply DrawsAt.kind
  intro k _
  split
  -- A type begins a variable or a construction, and is a name otherwise.
  · next hk =>
    apply (MakesAt.takeTextIn hk hK).bind
    intro typeName ht
    apply DrawsAt.kind
    intro k _
    split
    · refine (MakesAt.takeTextAt rfl (by decide)).bind_pure fun name hname => ?_
      exact .var ht hname
    · exact DrawsAt.here
        ((DrawsAt.looseArguments h).bind_pure fun _ hargs => .construction ht hargs)
    · exact (makes_nameForm h).here
  split
  · exact (makes_nameForm h).here
  split
  · next hk => exact (MakesAt.takeTextAt hk (by decide)).mono fun _ => .word
  split
  · exact .parenthesized h
  · exact .reject

theorem makes_endedForm (h : Makes expr (ExprShape d)) : Makes (Form.ended expr) (ExprShape d) := by
  apply h.bind
  intro _ he
  apply DrawsAt.expect.seq
  intro _
  exact .pure he

theorem makes_assignedForm (h : Makes expr (ExprShape d)) {left : Tree} (hl : ExprShape d left) :
    Makes (do return Tree.assignmentBy left (← Form.assigned expr) (.text "=")) (ExprShape d) := by
  refine DrawsAt.bind_pure (P := ExprShape d) (DrawsAt.expect.seq fun _ => makes_endedForm h)
    fun _ hr => ?_
  exact .assignment hl hr (bareText_text (by decide))

/-- A declaration or an assignment has the shape of an expression. -/
theorem makes_declarationForm (h : Makes expr (ExprShape d)) :
    Makes (Form.declaration d.varNode expr) (ExprShape d) := by
  refine DrawsAt.isNotAt (makes_endedForm h).here ?_
  refine (MakesAt.takeTextOf (by decide)).bind fun first hfirst => ?_
  apply DrawsAt.kind
  intro k _
  split
  -- Behind the first word: a name,
  · next hk =>
    refine (MakesAt.takeTextAt hk (by decide)).bind fun name hname => ?_
    apply DrawsAt.kind
    intro k _
    refine DrawsAt.here ?_
    split
    · apply DrawsAt.take.seq
      intro _
      exact .pure (.var hfirst hname)
    · exact makes_assignedForm h (.var hfirst hname)
    · exact .pure (.word bareText_absent)
  split
  -- an assignment,
  · exact (makes_assignedForm h (.untyped hfirst)).here
  split
  -- a member,
  · have hchain : Makes (memberChain .comments first) (ExprShape d) :=
      ExprShape.ladderClosed.memberChain (.word hfirst)
    refine DrawsAt.here (hchain.bind fun left hl => ?_)
    exact DrawsAt.isAt (makes_assignedForm h hl).here (DrawsAt.expect.seq fun _ => .pure hl)
  split
  -- or an operator that assigns.
  · next hk =>
    refine (MakesAt.takeTextIn hk (by decide)).bind fun op hop => ?_
    refine (makes_endedForm h).bind_pure fun _ hr => ?_
    exact .binary (.untyped hfirst) hop hr
  · exact (makes_endedForm h).here

theorem makes_loopStartForm (hK : ∀ k ∈ K, k ∉ bracketKinds) (h : Makes expr (ExprShape d)) :
    Makes (Form.loopStart d.varNode expr K) (ExprShape d) := by
  refine DrawsAt.isAt ?_ h.here
  apply (MakesAt.takeTextOf hK).bind
  intro vtype hv
  refine (MakesAt.expectText (by decide)).bind fun name hname => ?_
  apply DrawsAt.expect.seq
  intro _
  refine h.bind_pure fun _ hr => ?_
  exact .assignment (.var hv hname) hr (bareText_text (by decide))

theorem makes_forForm (hK : ∀ k ∈ K, k ∉ bracketKinds) (h : Makes expr (ExprShape d))
    {block : Parser (List Tree)} (hb : Makes block (AreStmts d)) :
    Makes (Form.counted d.varNode expr K block) (StmtShape d) := by
  apply DrawsAt.expectAll.seq
  intro _
  apply (makes_loopStartForm hK h).bind
  intro _ hi
  apply DrawsAt.expect.seq
  intro _
  apply (makes_endedForm h).bind
  intro _ hc
  apply h.bind
  intro _ hu
  apply DrawsAt.expect.seq
  intro _
  refine hb.bind_pure fun _ hs => ?_
  exact .forLoop hi hc hu hs

theorem makes_returnForm (h : Makes expr (ExprShape d)) :
    Makes (Form.returned expr) (StmtShape d) := by
  apply DrawsAt.expect.seq
  intro _
  exact (makes_endedForm h).bind_pure fun _ => .returned

theorem makes_blockForm {statement : Parser Tree} (h : Makes statement (StmtShape d)) :
    Makes (Form.block statement) (AreStmts d) := by
  apply DrawsAt.expect.seq
  intro _
  apply (DrawsAt.many looks_isNotAt h.here).bind
  intro _ hs
  apply DrawsAt.expect.seq
  intro _
  exact .pure hs

end Makes

end ShaderBridge.Backward

/-! ## §3 HLSL -/

namespace ShaderBridge.Hlsl

open ShaderBridge.Parser Ladder Backward

theorem makes_expressionWith {expr : Parser Tree} (h : Makes expr (ExprShape .hlsl)) :
    Makes (expressionWith expr) (ExprShape .hlsl) := by
  have hclosed : LadderClosed (ExprShape .hlsl) := ExprShape.ladderClosed
  have hoperand : Makes (primaryWith expr) (ExprShape .hlsl) :=
    makes_operandForm (K := valueTypes) (by decide) h
  have hside : Makes (disjunction tv (unaryWith expr)) (ExprShape .hlsl) :=
    hclosed.disjunction (hclosed.signed hoperand)
  refine hside.bind fun first hfirst => DrawsAt.bind ?_ fun left hl => hclosed.choice h hl
  -- Each round puts one more assignment around what was read so far.
  refine DrawsAt.loop looks_isAt (fun left hl => ?_) hfirst
  refine (MakesAt.takeText (by decide)).bind fun _ hop => ?_
  refine hside.bind_pure fun _ hr => ?_
  exact .assignment hl hr hop

theorem makes_expression : Makes expression (ExprShape .hlsl) := by
  refine .nested rfl fun _ ih => ?_
  exact makes_expressionWith ih

section Statements

variable {block : Parser (List Tree)} (h : Makes block (AreStmts .hlsl))

include h

theorem makes_guarded :
    Makes (guarded block) fun a => ExprShape .hlsl a.1 ∧ AreStmts .hlsl a.2 := by
  apply (DrawsAt.parenthesized makes_expression).bind
  intro _ hc
  refine h.bind_pure fun _ hs => ?_
  exact ⟨hc, hs⟩

/-- The form of a branch. -/
def IsBranch (t : Tree) : Prop := (∃ fields, t = .node .branch fields) ∧ StmtShape .hlsl t

/-- A branch has its shape if the branch that follows it has. -/
theorem makes_arm {k : TokenKind} {another : Parser Tree} (ha : Makes another IsBranch) :
    Makes (do
      let _ ← expect tv k
      let (condition, ifBody) ← guarded block
      return Tree.branch condition ifBody (← alternative block another)) IsBranch := by
  apply DrawsAt.expect.seq
  intro _
  refine (makes_guarded h).bind fun a ⟨hc, hb⟩ => ?_
  -- The shape of the whole depends on what the branch ends in.
  refine DrawsAt.bind_pure (P := fun t => StmtShape .hlsl (Tree.branch a.1 a.2 t)) ?_
    fun _ hbranch => ⟨⟨_, rfl⟩, hbranch⟩
  apply DrawsAt.kind
  intro k _
  refine DrawsAt.here ?_
  split
  · apply DrawsAt.take.seq
    intro _
    refine h.bind_pure fun ss hl => ?_
    exact .branch (some ss) hc hb hl
  · refine ha.mono ?_
    rintro _ ⟨⟨fields, rfl⟩, hn⟩
    exact .elseIf hc hb hn
  · exact .pure (.branch none hc hb nofun)

theorem makes_branchWith : Makes (branchWith block) IsBranch :=
  makes_arm h (.nested rfl fun _ ih => makes_arm h ih)

theorem makes_statementWith : Makes (statementWith block) (StmtShape .hlsl) := by
  apply DrawsAt.kind
  intro k _
  refine DrawsAt.here ?_
  split
  · exact (makes_declarationForm makes_expression).mono fun _ => .plain
  split
  · refine (makes_branchWith h).mono fun _ hb => ?_
    exact hb.2
  split
  · exact makes_forForm (K := valueTypes) (by decide) makes_expression h
  split
  · exact makes_returnForm makes_expression
  · exact (makes_endedForm makes_expression).mono fun _ => .plain

end Statements

theorem makes_block : Makes block (AreStmts .hlsl) := by
  refine .nested rfl fun _ ih => ?_
  exact makes_blockForm (makes_statementWith ih)

theorem makes_member : Makes member IsVariable := by
  apply MakesAt.takeText_any.bind
  intro vtype hv
  refine (MakesAt.expectText (by decide)).bind fun name hn => ?_
  refine DrawsAt.cond (P := fun _ => True) (MakesAt.takeText_any.mono fun _ _ => trivial)
    (.pure trivial) fun semantic _ => ?_
  apply DrawsAt.expect.seq
  intro _
  exact .pure ⟨vtype, name, rfl, rfl, hv, hn⟩

theorem makes_structParts : Makes structParts fun s => ∀ m ∈ s.2, IsVariable m := by
  apply DrawsAt.expect.seq
  intro _
  apply DrawsAt.expectText.seq
  intro _
  apply DrawsAt.expect.seq
  intro _
  exact (DrawsAt.many looks_isNotAt makes_member.here).bind_pure fun _ hms => hms

theorem makes_parameter : Makes parameter IsVariable := by
  apply MakesAt.takeText_any.bind
  intro vtype hv
  refine (MakesAt.expectText (by decide)).bind fun name hn => ?_
  apply DrawsAt.accept.seq
  intro _
  exact .pure ⟨vtype, name, rfl, rfl, hv, hn⟩

theorem makes_function : Makes function (IsFunction .hlsl) := by
  apply MakesAt.takeText_any.bind
  intro vtype hv
  refine (MakesAt.expectText (by decide)).bind fun name hn => ?_
  apply DrawsAt.expect.seq
  intro _
  apply (DrawsAt.untilClose makes_parameter).bind
  intro params hp
  apply DrawsAt.expect.seq
  intro _
  apply DrawsAt.accept.seq
  intro _
  refine makes_block.bind_pure fun ss hs => ?_
  exact
    { isNode := rfl
      params := ⟨params, rfl, hp⟩
      returnType := ⟨vtype, rfl, hv⟩
      name := ⟨name, rfl, hn⟩
      qualifier := nofun
      body := ⟨ss, rfl, hs⟩ }

/-- A structure of a stage, which may be missing. -/
def IsStruct? (t : Tree) : Prop := t = .absent ∨ IsStruct t

/-- The forms of what a source holds. -/
structure AreItems (s : ShaderItems) : Prop where
  vertexInput : IsStruct? s.vertexInput
  vertexOutput : IsStruct? s.vertexOutput
  fragmentInput : IsStruct? s.fragmentInput
  fragmentOutput : IsStruct? s.fragmentOutput
  functions : ∀ f ∈ s.functions, IsFunction .hlsl f

theorem AreItems.keep {s : ShaderItems} (h : AreItems s) (name : Tree) {struct : Tree}
    (hstruct : IsStruct struct) : AreItems (s.keep name struct) := by
  unfold ShaderItems.keep
  split
  · exact { h with vertexInput := .inr hstruct }
  split
  · exact { h with vertexOutput := .inr hstruct }
  split
  · exact { h with fragmentInput := .inr hstruct }
  split
  · exact { h with fragmentOutput := .inr hstruct }
  · exact h

theorem makes_shaderItem {s : ShaderItems} (h : AreItems s) : Makes (shaderItem s) AreItems := by
  apply DrawsAt.kind
  intro k _
  refine DrawsAt.here ?_
  split
  · refine makes_structParts.bind_pure fun a ha => ?_
    exact h.keep a.1 ⟨a.1, a.2, rfl, ha⟩
  split
  · refine makes_function.bind_pure fun f hf => ?_
    exact { h with functions := CrossGl.forall_mem_snoc h.functions hf }
  · apply DrawsAt.take.seq
    intro _
    exact .pure h

/-- Every tree of the grammar has the form of a shader. -/
theorem makes_source : Makes source (ShaderShape .hlsl) := by
  have hempty : AreItems {} := ⟨.inl rfl, .inl rfl, .inl rfl, .inl rfl, nofun⟩
  have hitems : Makes (loop (isNotAt [.endOfInput]) shaderItem {}) AreItems :=
    .loop looks_isNotAt (fun _ h => (makes_shaderItem h).here) hempty
  refine (hitems.bind_pure (Q := ShaderShape .hlsl) fun s hs => ?_).bind fun t ht =>
    DrawsAt.expect.seq fun _ => .pure ht
  refine ⟨⟨s.functions, rfl, fun f hf => .inl (hs.functions f hf)⟩, fun x hx => ?_⟩
  simp only [structFields, List.mem_cons, List.not_mem_nil, or_false] at hx
  rcases hx with rfl | rfl | rfl | rfl
  · exact ⟨_, rfl, hs.vertexInput⟩
  · exact ⟨_, rfl, hs.vertexOutput⟩
  · exact ⟨_, rfl, hs.fragmentInput⟩
  · exact ⟨_, rfl, hs.fragmentOutput⟩

end ShaderBridge.Hlsl

/-! ## §4 Metal -/

namespace ShaderBridge.Metal

open ShaderBridge.Parser Ladder Backward

theorem makes_expressionWith {expr : Parser Tree} (h : Makes expr (ExprShape .metal)) :
    Makes (expressionWith expr) (ExprShape .metal) := by
  have hclosed : LadderClosed (ExprShape .metal) := ExprShape.ladderClosed
  have hoperand : Makes (primaryWith expr) (ExprShape .metal) :=
    makes_operandForm (K := valueTypes) (by decide) h
  apply (hclosed.disjunction (hclosed.signed hoperand)).bind
  intro left hl
  refine DrawsAt.isAt ?_ (hclosed.choice h hl).here
  refine (MakesAt.takeTextOf (by decide)).bind fun _ hop => ?_
  refine h.bind_pure fun _ hr => ?_
  exact .assignment hl hr hop

theorem makes_expression : Makes expression (ExprShape .metal) := by
  refine .nested rfl fun _ ih => ?_
  exact makes_expressionWith ih

section Statements

variable {block : Parser (List Tree)} (h : Makes block (AreStmts .metal))

include h

theorem makes_arms {k : TokenKind} :
    Makes (many (isAt [k]) (guarded k block)) fun ts => ∃ arms : List (Tree × List Tree),
      ts = arms.map guardTree ∧ (∀ a ∈ arms, ExprShape .metal a.1) ∧
        ∀ a ∈ arms, AreStmts .metal a.2 := by
  have harm : Makes (guarded k block) fun t => ∃ a : Tree × List Tree,
      t = guardTree a ∧ ExprShape .metal a.1 ∧ AreStmts .metal a.2 :=
    DrawsAt.expect.seq fun _ => (DrawsAt.parenthesized makes_expression).bind fun condition hc =>
      h.bind_pure fun ss hs => ⟨(condition, ss), rfl, hc, hs⟩
  refine (DrawsAt.many looks_isAt harm.here).mono fun ts hts => ?_
  induction ts with
  | nil => exact ⟨[], rfl, nofun, nofun⟩
  | cons t ts ih =>
    obtain ⟨⟨a, rfl, hc, hs⟩, hrest⟩ := List.forall_mem_cons.1 hts
    obtain ⟨arms, rfl, hcs, hbs⟩ := ih hrest
    exact ⟨a :: arms, rfl, List.forall_mem_cons.2 ⟨hc, hcs⟩, List.forall_mem_cons.2 ⟨hs, hbs⟩⟩

theorem makes_branchWith : Makes (branchWith block) (StmtShape .metal) := by
  refine (makes_arms h).bind ?_
  rintro _ ⟨ifs, rfl, hi, hib⟩
  refine (makes_arms h).bind ?_
  rintro _ ⟨elseIfs, rfl, he, heb⟩
  refine DrawsAt.isAt ?_ (.pure (.chains none hi hib he heb nofun))
  apply DrawsAt.take.seq
  intro _
  apply h.bind
  intro ss hs
  exact .pure (.chains (some ss) hi hib he heb hs)

theorem makes_statementWith : Makes (statementWith block) (StmtShape .metal) := by
  apply DrawsAt.kind
  intro k _
  refine DrawsAt.here ?_
  split
  · exact (makes_declarationForm makes_expression).mono fun _ => .plain
  split
  · exact makes_branchWith h
  split
  · exact makes_forForm (K := [.intType, .uintType]) (by decide) makes_expression h
  split
  · exact makes_returnForm makes_expression
  · exact (makes_endedForm makes_expression).mono fun _ => .plain

end Statements

theorem makes_block : Makes block (AreStmts .metal) := by
  refine .nested rfl fun _ ih => ?_
  exact makes_blockForm (makes_statementWith ih)

theorem makes_attributes : Makes (Attribute.attributes tv) fun _ => True := by
  refine (DrawsAt.many (P := fun _ => True) looks_isAt ?_).mono fun _ _ => trivial
  apply DrawsAt.look.seq
  intro t
  split
  · apply DrawsAt.take.seq
    intro _
    exact .pure trivial
  · exact .throw

theorem makes_structMember : Makes structMember IsVariable := by
  apply MakesAt.takeText_any.bind
  intro vtype hv
  refine (MakesAt.expectText (by decide)).bind fun name hn => ?_
  apply makes_attributes.seq
  intro _
  apply DrawsAt.expect.seq
  intro _
  exact .pure ⟨vtype, name, rfl, rfl, hv, hn⟩

/-- An item of a source; the structures among the items have members. -/
def IsDeclared (t : Tree) : Prop := IsItem .metal t ∧ (t.isNode .struct → IsStruct t)

theorem makes_struct : Makes struct IsDeclared := by
  apply DrawsAt.expect.seq
  intro _
  apply DrawsAt.expectText.seq
  intro name
  apply DrawsAt.expect.seq
  intro _
  apply (DrawsAt.many looks_isNotAt makes_structMember.here).bind
  intro ms hms
  apply DrawsAt.expectAll.seq
  intro _
  exact .pure ⟨.inr ⟨rfl, rfl⟩, fun _ => ⟨name, ms, rfl, hms⟩⟩

theorem makes_constantBuffer : Makes constantBuffer IsDeclared := by
  have hmember : Makes (Form.bufferMember var) fun _ => True :=
    DrawsAt.takeText.seq fun _ => DrawsAt.expectText.seq fun _ => DrawsAt.expect.seq fun _ =>
      .pure trivial
  apply DrawsAt.expect.seq
  intro _
  apply DrawsAt.expectText.seq
  intro name
  apply DrawsAt.expect.seq
  intro _
  apply (DrawsAt.many looks_isNotAt hmember.here).seq
  intro ms
  apply DrawsAt.expect.seq
  intro _
  exact .pure ⟨.inr ⟨rfl, rfl⟩, nofun⟩

theorem makes_parameterType : Makes parameterType fun t => t.isKey := by
  apply MakesAt.takeText_any.bind
  intro outer ho
  refine DrawsAt.isAt ?_ (.pure ho)
  apply DrawsAt.take.seq
  intro _
  refine DrawsAt.isAt ?_ (DrawsAt.expect.seq fun _ => .pure ho)
  refine DrawsAt.look.seq fun inner => DrawsAt.bind (P := fun t => t.isKey) ?_ fun whole hw => ?_
  · unfold withInner
    split
    · exact .pure rfl
    · exact .throw
  · apply DrawsAt.take.seq
    intro _
    apply DrawsAt.expect.seq
    intro _
    exact .pure hw

theorem makes_parameter : Makes parameter IsVariable := by
  apply makes_attributes.seq
  intro before
  refine DrawsAt.check (w := .unexpectedIn "in parameter list") ?_
  refine DrawsAt.here (makes_parameterType.bind fun vtype hv => ?_)
  refine DrawsAt.cond (P := BareText) (MakesAt.takeTextOf (by decide))
    (.pure (bareText_text (by decide))) fun name hn => ?_
  apply makes_attributes.seq
  intro _
  exact .pure ⟨vtype, name, rfl, rfl, hv, hn⟩

theorem makes_parameters : Makes parameters fun ps => ∀ p ∈ ps, IsVariable p := by
  refine .many looks_isNotAt (DrawsAt.here (makes_parameter.bind fun p hp => ?_))
  apply DrawsAt.kind
  intro k _
  refine DrawsAt.here ?_
  split
  · apply DrawsAt.take.seq
    intro _
    exact .pure hp
  · exact .pure hp
  · exact .reject

theorem makes_qualifier {f : Option Tree → Parser Tree} {P : Tree → Prop}
    (hf : ∀ q, Makes (f q) P) :
    Makes (do
      let q ← if ← isAt qualifiers then some <$> takeText tv else pure none
      f q) P := by
  refine DrawsAt.cond (P := fun _ => True) (DrawsAt.takeText.map fun _ _ => trivial)
    (.pure trivial) fun q _ => ?_
  exact hf q

theorem makes_function : Makes function IsDeclared := by
  apply makes_attributes.seq
  intro before
  refine makes_qualifier fun first => ?_
  apply MakesAt.takeText_any.bind
  intro vtype hv
  refine makes_qualifier fun second => ?_
  refine (MakesAt.expectText (by decide)).bind fun name hn => ?_
  apply DrawsAt.expect.seq
  intro _
  apply makes_parameters.bind
  intro params hp
  apply DrawsAt.expect.seq
  intro _
  apply makes_attributes.seq
  intro after
  apply makes_block.bind
  intro ss hs
  refine .pure ⟨.inl ?_, nofun⟩
  exact
    { isNode := rfl
      params := ⟨params, rfl, hp⟩
      returnType := ⟨vtype, rfl, hv⟩
      name := ⟨name, rfl, hn⟩
      qualifier := fun _ => ⟨_, rfl⟩
      body := ⟨ss, rfl, hs⟩ }

theorem makes_directive : Makes directive fun _ => True := by
  apply DrawsAt.expect.seq
  intro _
  apply DrawsAt.kind
  intro k _
  refine DrawsAt.here ?_
  split
  · refine DrawsAt.take.seq fun _ => DrawsAt.seq (P := fun _ => True) ?_ fun _ => ?_
    · exact .loop looks_isNotAt (fun _ _ => DrawsAt.take.seq fun _ => .pure trivial) trivial
    · apply DrawsAt.expect.seq
      intro _
      exact .pure trivial
  · apply DrawsAt.take.seq
    intro _
    exact .pure trivial
  · exact .pure trivial

theorem makes_shaderItem {found : List Tree} (h : ∀ t ∈ found, IsDeclared t) :
    Makes (shaderItem found) fun ts => ∀ t ∈ ts, IsDeclared t := by
  -- An item is added behind those that were found, or is passed over.
  have hmore : ∀ {p : Parser Tree}, Makes p IsDeclared →
      Makes (do return found ++ [← p]) fun ts => ∀ t ∈ ts, IsDeclared t :=
    fun hp => hp.bind_pure fun _ ht => CrossGl.forall_mem_snoc h ht
  apply DrawsAt.kind
  intro k _
  refine DrawsAt.here ?_
  split
  · apply makes_directive.seq
    intro _
    exact .pure h
  split
  · apply DrawsAt.expectAll.seq
    intro _
    exact .pure h
  split
  · exact hmore makes_struct
  split
  · exact hmore makes_constantBuffer
  split
  · exact hmore makes_function
  · apply DrawsAt.take.seq
    intro _
    exact .pure h

/-- Every tree of the grammar has the form of a shader. -/
theorem makes_source : Makes source (ShaderShape .metal) := by
  have hitems :
      Makes (loop (isNotAt [.endOfInput]) shaderItem []) fun ts => ∀ t ∈ ts, IsDeclared t :=
    .loop looks_isNotAt (fun _ h => (makes_shaderItem h).here) nofun
  refine (hitems.bind_pure (Q := ShaderShape .metal) fun ts hts => ?_).bind fun t ht =>
    DrawsAt.expect.seq fun _ => .pure ht
  exact ⟨⟨ts, rfl, fun t ht => (hts t ht).1⟩, ts, rfl, fun t ht => (hts t ht).2⟩

end ShaderBridge.Metal
