import ShaderBridge.Forward.Expression
import ShaderBridge.Generation
import ShaderBridge.Text.Blank

/-!
# Statements and functions of CrossGL in a dialect

Every statement is written on lines of its own with four blanks for each level of nesting.  In a
loop header the three clauses are statements too, written without blanks around them and without
the semicolon at their end.
-/

namespace ShaderBridge.Forward

open Scope

/-! ## §1 Statements -/

/-- Whether an assignment sets an output of the stage. -/
def setsOutput (sc : Scope) (name : Tree) : Except Fault Bool := do
  match name with
  | .text _ =>
    if sc.dialect.hasStageStructs && (Stage.of? sc.stage).isSome then
      let outputs ← (← sc.owner.get .outputs).items
      return (← outputs.mapM (·.item 1)).any name.same
    else return false
  | _ => return false

/-- The left side of an assignment: an output of the stage, a declaration, or an expression.  The
position of a vertex is an output under a name of its own. -/
def assignmentTarget (sc : Scope) (name : Tree) : Except Fault Text := do
  -- An output of the stage comes before all other readings.
  if ← setsOutput sc name then return "output." ++ plain name
  let declared ←
    if name.isNode .var then
      let vtype ← name.get .vtype
      pure (if vtype.isSet then some vtype else none)
    else pure none
  match declared with
  | some vtype =>
    return Text.cat [plain (← sc.dialect.mapType vtype), " ", plain (← name.get .name)]
  | none =>
    -- The position of a vertex has two spellings.
    let left ← expression sc name
    if sc.dialect.hasStageStructs && (left == "gl_Position" || left == "gl_position") then
      return "output.position"
    else return left

/-- An assignment, without the semicolon. -/
def assignment (sc : Scope) (t : Tree) : Except Fault Text := do
  let left ← assignmentTarget sc (← t.get .name)
  return Text.cat [left, " = ", ← expression sc (← t.get .value)]

/-- A clause of a loop header from the text of a statement. -/
def clause (statement : Text) : Text := Text.dropEnd (Text.trim statement)

mutual

/-- A statement at a level of nesting. -/
def statement (sc : Scope) (level : Int) (t : Tree) : Except Fault Text :=
  match t with
  | .node .var fields => do
    let vtype ← sc.dialect.mapType (← (Tree.node .var fields).get .vtype)
    let name ← (Tree.node .var fields).get .name
    return Text.cat [Text.indent level, plain vtype, " ", plain name, ";\n"]
  | .node .assignment fields => do
    return Text.cat [Text.indent level, ← assignment sc (.node .assignment fields), ";\n"]
  | .node .branch fields => branch sc level (.node .branch fields)
  | .node .forLoop fields => forLoop sc level (.node .forLoop fields)
  | .node .returned fields => do
    let values ← (← (Tree.node .returned fields).get .value).items
    let texts ← values.mapM (expression sc)
    return Text.cat [Text.indent level, "return ", Text.join ", " texts, ";\n"]
  | t => do return Text.cat [Text.indent level, ← expression sc t, ";\n"]
termination_by (sizeOf t, 1)

/-- A branch with its alternatives. -/
def branch (sc : Scope) (level : Int) (t : Tree) : Except Fault Text := do
  let condition ← expression sc (← t.get .ifCondition)
  let ⟨ifBody, _⟩ ← t.part .ifBody
  let stmts ← (← ifBody.parts).mapM fun ⟨s, _⟩ => statement sc (level + 1) s
  let ⟨conditions, _⟩ ← t.part .elseIfConditions
  let ⟨bodies, _⟩ ← t.part .elseIfBodies
  -- Conditions and bodies are paired up as far as both go.
  let alternatives ← ((← conditions.items).zip (← bodies.parts)).mapM fun (c, ⟨body, _⟩) => do
    let c ← expression sc c
    let stmts ← (← body.parts).mapM fun ⟨s, _⟩ => statement sc (level + 1) s
    return Text.cat [" else if (", c, r") {", "\n", Text.cat stmts, Text.indent level, r"}"]
  let ⟨elseBody, _⟩ ← t.part .elseBody
  let last ←
    if elseBody.isSet then
      let stmts ← (← elseBody.parts).mapM fun ⟨s, _⟩ => statement sc (level + 1) s
      pure (Text.cat [r" else {", "\n", Text.cat stmts, Text.indent level, r"}"])
    else pure []
  return Text.cat
    [Text.indent level, "if (", condition, r") {", "\n", Text.cat stmts, Text.indent level, r"}",
     Text.cat alternatives, last, "\n"]
termination_by (sizeOf t, 0)

/-- A counted loop. -/
def forLoop (sc : Scope) (level : Int) (t : Tree) : Except Fault Text := do
  let ⟨init, _⟩ ← t.part .init
  let first ← statement sc 0 init
  let ⟨condition, _⟩ ← t.part .condition
  let guard ← statement sc 0 condition
  let ⟨update, _⟩ ← t.part .update
  let step ← statement sc 0 update
  let ⟨body, _⟩ ← t.part .body
  let stmts ← (← body.parts).mapM fun ⟨s, _⟩ => statement sc (level + 1) s
  return Text.cat
    [Text.indent level, "for (", clause first, "; ", clause guard, "; ", clause step, r") {", "\n",
     Text.cat stmts, Text.indent level, r"}", "\n"]
termination_by (sizeOf t, 0)

end

/-- Statements one after another. -/
def statements (sc : Scope) (level : Int) (t : Tree) : Except Fault Text := do
  return Text.cat (← (← t.items).mapM (statement sc level))

/-! ## §2 Functions -/

/-- The parameters of a function, each a sequence that begins with a type and a name. -/
def parameters (sc : Scope) (t : Tree) : Except Fault Text := do
  let texts ← (← t.items).mapM fun p => do
    let vtype ← sc.dialect.mapType (← p.item 0)
    let name ← p.item 1
    return Text.cat [plain vtype, " ", plain name]
  return Text.join ", " texts

/-- A function under its own name. -/
def plainFunction (sc : Scope) (t : Tree) : Except Fault Text := do
  let params ← parameters sc (← t.get .params)
  let vtype ← sc.dialect.mapType (← t.get .returnType)
  let name ← t.get .name
  let stmts ← statements sc 1 (← t.get .body)
  return Text.cat [plain vtype, " ", plain name, "(", params, r") {", "\n", stmts, r"}", "\n"]

/-- Whether a function is an entry point. -/
def isEntry (t : Tree) : Except Fault Bool := do return (← t.get .name).isText "main"

/-- A function outside the stages.  In a dialect with stage structures an entry point takes and
gives the shared ones. -/
def sharedFunction (sc : Scope) (t : Tree) : Except Fault Text := do
  if sc.dialect.hasStageStructs then
    if ← isEntry t then
      let (vtype, params) := sc.dialect.sharedEntry
      let stmts ← statements sc 1 (← t.get .body)
      return Text.cat
        [vtype, " main(", params, r") {", "\n    ", vtype, " output;\n", stmts,
         "    return output;\n", r"}", "\n"]
    else plainFunction sc t
  else plainFunction sc t

/-- The functions of a stage that are no entry points. -/
def helperFunctions (sc : Scope) (t : Tree) : Except Fault Text := do
  let texts ← (← t.items).mapM fun f => do
    if ← isEntry f then return [] else plainFunction sc f
  return Text.cat texts

/-- The functions of a stage without its entry points, or one function outside the stages. -/
def function (sc : Scope) (t : Tree) : Except Fault Text :=
  if (Stage.of? sc.stage).isSome then helperFunctions sc t
  else if sc.stage.isText "global" then sharedFunction sc t
  else .ok []

/-- The entry point of a stage. -/
def entryPoint (sc : Scope) (t : Tree) : Except Fault Text := do
  if sc.dialect.hasStageStructs then
    -- The body has to be a sequence before the stage is looked at.
    let body ← t.get .body
    let _ ← body.items
    match Stage.of? sc.stage with
    | none => throw .unknownStage
    | some stage =>
      let stmts ← statements sc 1 body
      return Text.cat [sc.dialect.entryOpening stage, stmts, "    return output;\n", r"}", "\n"]
  else plainFunction sc t

end ShaderBridge.Forward
