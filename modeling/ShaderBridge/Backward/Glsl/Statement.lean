import ShaderBridge.Generation
import ShaderBridge.Operator
import ShaderBridge.Stage
import ShaderBridge.Text.Blank
import ShaderBridge.Tree.Printer

/-!
# Expressions and statements of GLSL in CrossGL

GLSL and CrossGL name their types alike, so types and words are kept.  Every statement is written
on lines of its own with four blanks for each level of nesting.  The update of a loop is written
by a function of its own, since only some forms are updates.
-/

namespace ShaderBridge.Backward.Glsl

/-- What the words of an expression refer to. -/
structure Scope where
  sections : Sections
  /-- The name of the stage; a value that names none is outside all stages. -/
  stage : Tree

/-- A value as plain text. -/
def plain (t : Tree) : Text := t.plain .glsl

/-- A type, which keeps its name. -/
def mapType (vtype : Tree) : Except Fault Tree := vtype.rename []

/-! ## §1 Expressions -/

/-- A word: the name of an equal input or output of the stage, or the word itself. -/
def Scope.word (sc : Scope) (t : Tree) : Except Fault Tree := do
  let owner := sc.sections.ofStage sc.stage
  match ← variableIn owner .inputs t with
  | some name => return name
  | none => return (← variableIn owner .outputs t).getD t

/-- An expression. -/
def expression (sc : Scope) (t : Tree) : Except Fault Text :=
  match t with
  | .text s => do return plain (← sc.word (.text s))
  | .node .var fields => do
    let vtype ← (Tree.node .var fields).get .vtype
    let name ← sc.word (← (Tree.node .var fields).get .name)
    return Text.cat [plain vtype, " ", plain name]
  | .node .binary fields => do
    let ⟨left, _⟩ ← (Tree.node .binary fields).part .left
    let l ← expression sc left
    let ⟨right, _⟩ ← (Tree.node .binary fields).part .right
    let r ← expression sc right
    let op ← Operator.valueSymbol (← (Tree.node .binary fields).get .op)
    return Text.cat [l, " ", plain op, " ", r]
  | .node .call fields => do
    let ⟨args, _⟩ ← (Tree.node .call fields).part .args
    let texts ← (← args.parts).mapM fun ⟨arg, _⟩ => expression sc arg
    let name ← sc.word (← (Tree.node .call fields).get .name)
    return Text.cat [plain name, "(", Text.join ", " texts, ")"]
  | .node .unary fields => do
    let ⟨operand, _⟩ ← (Tree.node .unary fields).part .operand
    let e ← expression sc operand
    let op ← (Tree.node .unary fields).get .op
    return plain op ++ e
  | .node .ternary fields => do
    let ⟨condition, _⟩ ← (Tree.node .ternary fields).part .condition
    let c ← expression sc condition
    let ⟨yes, _⟩ ← (Tree.node .ternary fields).part .trueExpr
    let y ← expression sc yes
    let ⟨no, _⟩ ← (Tree.node .ternary fields).part .falseExpr
    let n ← expression sc no
    return Text.cat [c, " ? ", y, " : ", n]
  | .node .member fields => do
    let ⟨object, _⟩ ← (Tree.node .member fields).part .object
    let o ← expression sc object
    let member ← (Tree.node .member fields).get .member
    return Text.cat [o, ".", plain member]
  | t => .ok (plain t)
termination_by sizeOf t
decreasing_by all_goals omega

/-- An expression without blanks around it. -/
def trimmed (sc : Scope) (t : Tree) : Except Fault Text := do
  return Text.trim (← expression sc t)

/-! ## §2 Updates -/

/-- The steps that an update can take: an operator with what stands in front of its operand and
behind it. -/
def steps : List (Text × Text × Text) :=
  [("++", "++", ""), ("POST_INCREMENT", "", "++"), ("--", "--", ""), ("POST_DECREMENT", "", "--")]

/-- A step of an operand, if the operator is one. -/
def step? (op : Tree) (operand : Text) : Option Text :=
  (steps.find? fun s => op.isText s.1).map fun (_, lead, tail) => Text.cat [lead, operand, tail]

/-- The words for the form of a value, in a refusal. -/
def formOf : Tree → Text
  | .absent => "<class 'NoneType'>"
  | .flag _ => "<class 'bool'>"
  | .number _ => "<class 'int'>"
  | .text _ => "<class 'str'>"
  | .list _ => "<class 'list'>"
  | .tuple _ => "<class 'tuple'>"
  | .node k _ => Text.cat ["<class 'crosstl.src.backend.Opengl.OpenglAst.", k.label, "'>"]

/-- The update of a loop.  An assignment of a signed value that is no step gives nothing. -/
def update (sc : Scope) (t : Tree) : Except Fault (Option Text) := do
  match t with
  | .node .assignment _ =>
    let value ← t.get .value
    if value.isNode .unary then
      let operand ← trimmed sc (← value.get .operand)
      return step? (← value.get .op) operand
    else
      let left ← trimmed sc (← t.get .name)
      let right ← trimmed sc value
      return some (Text.cat [left, " = ", right])
  | .node .unary _ =>
    let operand ← trimmed sc (← t.get .operand)
    let op ← t.get .op
    return some ((step? op operand).getD (plain op ++ operand))
  | .node .binary _ =>
    let left ← trimmed sc (← t.get .left)
    let right ← trimmed sc (← t.get .right)
    let op ← Operator.valueSymbol (← t.get .op)
    return some (Text.cat [left, " ", plain op, " ", right])
  | t => throw (.refused (.updateForm (formOf t)))

/-! ## §3 Statements -/

/-- An assignment, without the semicolon. -/
def assignment (sc : Scope) (t : Tree) : Except Fault Text := do
  let left ← expression sc (← t.get .name)
  let right ← expression sc (← t.get .value)
  return Text.cat [left, " = ", right]

/-- A text without the semicolons at its end. -/
def withoutSemicolons (t : Text) : Text := (t.reverse.dropWhile (· = ';')).reverse

mutual

/-- A statement at a level of nesting. -/
def statement (sc : Scope) (level : Int) (t : Tree) : Except Fault Text :=
  match t with
  | .node .var fields => do
    let vtype ← mapType (← (Tree.node .var fields).get .vtype)
    let name ← (Tree.node .var fields).get .name
    return Text.cat [Text.indent level, plain vtype, " ", plain name, ";\n"]
  | .node .assignment fields => do
    return Text.cat [Text.indent level, ← assignment sc (.node .assignment fields), ";\n"]
  | .node .branch fields => branch sc level (.node .branch fields)
  | .node .forLoop fields => forLoop sc level (.node .forLoop fields)
  | .node .returned fields => do
    let value ← expression sc (← (Tree.node .returned fields).get .value)
    return Text.cat [Text.indent level, "return ", value, ";\n"]
  | t => do return Text.cat [Text.indent level, ← expression sc t, ";\n"]
termination_by 2 * sizeOf t + 1
decreasing_by all_goals omega

/-- A branch with its alternatives. -/
def branch (sc : Scope) (level : Int) (t : Tree) : Except Fault Text := do
  let condition ← expression sc (← t.get .condition)
  let ⟨ifBody, _⟩ ← t.part .ifBody
  let stmts ← (← ifBody.parts).mapM fun ⟨s, _⟩ => statement sc (level + 1) s
  let ⟨chain, _⟩ ← t.part .elseIfChain
  let alternatives ← (← chain.parts).mapM fun ⟨p, _⟩ => do
    let (⟨c, _⟩, ⟨body, _⟩) ← p.halves
    let c ← expression sc c
    let stmts ← (← body.parts).mapM fun ⟨s, _⟩ => statement sc (level + 1) s
    return Text.cat [" else if (", c, r") {", "\n", Text.cat stmts, Text.indent level, r"}"]
  let ⟨elseBody, _⟩ ← t.part .elseBody
  let last ←
    if elseBody.isSet then
      let stmts ← (← elseBody.parts).mapM fun ⟨s, _⟩ => statement sc (level + 1) s
      pure (Text.cat [r" else {", "\n", Text.cat stmts, Text.indent level, r"}"])
    else pure []
  return Text.cat
    [Text.indent level, "if ", condition, r" {", "\n", Text.cat stmts, Text.indent level, r"}",
     Text.cat alternatives, last, "\n"]
termination_by 2 * sizeOf t
decreasing_by all_goals omega

/-- A counted loop. -/
def forLoop (sc : Scope) (level : Int) (t : Tree) : Except Fault Text := do
  let ⟨init, _⟩ ← t.part .init
  let first ← statement sc 0 init
  let guard ← trimmed sc (← t.get .condition)
  match ← update sc (← t.get .update) with
  -- An update without a text has no clause either.
  | none => throw .missingField
  | some next => do
    let ⟨body, _⟩ ← t.part .body
    let stmts ← (← body.parts).mapM fun ⟨s, _⟩ => statement sc (level + 1) s
    return Text.cat
      [Text.indent level, "for (", withoutSemicolons (Text.trim first), "; ", guard, "; ",
       withoutSemicolons (Text.trim next), r") {", "\n", Text.cat stmts, Text.indent level, r"}",
       "\n"]
termination_by 2 * sizeOf t
decreasing_by all_goals omega

end

/-- A branch behind another one.  It goes on in a line, so its level is asked for only behind its
condition. -/
def elseIf (sc : Scope) (level : Except Fault Int) (t : Tree) : Except Fault Text := do
  let condition ← expression sc (← t.get .condition)
  let stmts ← (← t.get .ifBody).items
  let n ← level
  let texts ← stmts.mapM (statement sc (n + 1))
  return Text.cat
    [" else if ", condition, r" {", "\n", Text.cat texts, Text.indent n, r"}"]

end ShaderBridge.Backward.Glsl
