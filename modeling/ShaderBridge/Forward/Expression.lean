import ShaderBridge.Forward.Dialect
import ShaderBridge.Operator
import ShaderBridge.Tree.Printer

/-!
# Expressions of CrossGL in a dialect

An expression is written from the tree alone: no parentheses are added, operators become symbols
and words are renamed as the dialect asks.  In a stage, a word that names an input or output of
the stage becomes a member of its `input` or `output`; which words those are is known from the
sections of the shader.
-/

namespace ShaderBridge.Forward

/-- What the words of an expression refer to. -/
structure Scope where
  dialect : Dialect
  sections : Sections
  /-- The name of the stage; a value that names none is outside all stages. -/
  stage : Tree

namespace Scope

/-- The section of the stage. -/
def owner (sc : Scope) : Tree := sc.sections.ofStage sc.stage

/-- A value as plain text. -/
def plain (t : Tree) : Text := t.plain .crossGl

/-- A variable of a stage, as a member of the structure that holds it. -/
def memberOf (sc : Scope) (struct : Text) (name : Tree) : Tree :=
  if sc.dialect.hasStageStructs then .text (Text.cat [struct, ".", plain name]) else name

/-- A word in the dialect: an input of the stage, an output of the stage, or a renamed word. -/
def word (sc : Scope) (t : Tree) : Except Fault Tree := do
  match ← variableIn sc.owner .inputs t with
  | some name => return sc.memberOf "input" name
  | none =>
    match ← variableIn sc.owner .outputs t with
    | some name => return sc.memberOf "output" name
    | none => sc.dialect.mapWord t

/-- The name of a called function: a type is renamed, whatever variables there are. -/
def callName (sc : Scope) (name : Tree) : Except Fault Tree := do
  match sc.dialect.words? with
  | none => sc.word name
  | some table =>
    match ← name.find table with
    | some renamed => return .text renamed
    | none => sc.word name

end Scope

open Scope in
/-- An expression in the dialect of a scope. -/
def expression (sc : Scope) (t : Tree) : Except Fault Text :=
  match t with
  | .text s => do return plain (← sc.word (.text s))
  | .node .var fields => do
    let ⟨name, _⟩ ← (Tree.node .var fields).part .name
    let vtype ← sc.dialect.mapType (← (Tree.node .var fields).get .vtype)
    return Text.cat [plain vtype, " ", ← expression sc name]
  | .node .binary fields => do
    let ⟨left, _⟩ ← (Tree.node .binary fields).part .left
    let l ← expression sc left
    let op ← Operator.symbol (← (Tree.node .binary fields).get .op)
    let ⟨right, _⟩ ← (Tree.node .binary fields).part .right
    return Text.cat [l, " ", plain op, " ", ← expression sc right]
  | .node .call fields => do
    let ⟨args, _⟩ ← (Tree.node .call fields).part .args
    -- Arguments are written before the name is looked up, so their faults come first.
    let texts ← (← args.parts).mapM fun ⟨arg, _⟩ => expression sc arg
    let name ← sc.callName (← (Tree.node .call fields).get .name)
    return Text.cat [plain name, "(", Text.join ", " texts, ")"]
  | .node .unary fields => do
    let op ← Operator.symbol (← (Tree.node .unary fields).get .op)
    let ⟨operand, _⟩ ← (Tree.node .unary fields).part .operand
    return Text.cat [plain op, sc.dialect.signGap, ← expression sc operand]
  | .node .ternary fields => do
    let ⟨condition, _⟩ ← (Tree.node .ternary fields).part .condition
    let c ← expression sc condition
    let ⟨yes, _⟩ ← (Tree.node .ternary fields).part .trueExpr
    let y ← expression sc yes
    let ⟨no, _⟩ ← (Tree.node .ternary fields).part .falseExpr
    return Text.cat [c, " ? ", y, " : ", ← expression sc no]
  | .node .member fields => do
    let ⟨object, _⟩ ← (Tree.node .member fields).part .object
    let o ← expression sc object
    let name ← (Tree.node .member fields).get .member
    return Text.cat [o, ".", plain name]
  | t => .ok (plain t)
termination_by sizeOf t
decreasing_by all_goals omega

end ShaderBridge.Forward
