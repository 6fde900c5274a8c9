import ShaderBridge.Backward.Dialect
import ShaderBridge.Tree.Printer

/-!
# Expressions of HLSL and Metal in CrossGL

A member of `input` or `output` becomes a variable under its own name.  Such a member is any
value, so an expression is a value too, and a text in all other cases.  In the entry point of a
stage, setting `output.position` sets the position of the vertex.
-/

namespace ShaderBridge.Backward

/-- A value as plain text. -/
def plain (d : Dialect) (t : Tree) : Text := t.plain d.language

/-- Texts with commas between them; a value that is no text cannot be joined. -/
def joinTexts (ts : List Tree) : Except Fault Text := do
  let texts ← ts.mapM fun
    | .text s => .ok s
    | _ => .error .wrongSort
  return Text.join ", " texts

/-- What an assignment in an entry point sets: the position, an output, or neither. -/
def outputTarget (d : Dialect) (isMain : Bool) (left : Tree) : Except Fault (Option Text) := do
  if isMain && left.isNode .member then
    if (← left.get .object).isText "output" then
      let member ← left.get .member
      if member.isText "position" then return some "gl_Position" else return some (plain d member)
    else return none
  else return none

mutual

/-- An expression.  `isMain` says whether it stands in the entry point of a stage. -/
def expression (d : Dialect) (isMain : Bool) (t : Tree) : Except Fault Tree :=
  match t with
  | .text s => .ok (.text s)
  | .node .var fields => do
    let vtype ← d.mapType (← (Tree.node .var fields).get .vtype)
    let name ← (Tree.node .var fields).get .name
    return .text (Text.cat [plain d vtype, " ", plain d name])
  | .node .binary fields => do
    let ⟨left, _⟩ ← (Tree.node .binary fields).part .left
    let l ← expression d isMain left
    let ⟨right, _⟩ ← (Tree.node .binary fields).part .right
    let r ← expression d isMain right
    let op ← (Tree.node .binary fields).get .op
    return .text (Text.cat [plain d l, " ", plain d op, " ", plain d r])
  | .node .assignment fields => do
    match d with
    | .hlsl =>
      let ⟨left, _⟩ ← (Tree.node .assignment fields).part .left
      let l ← expression d isMain left
      let ⟨right, _⟩ ← (Tree.node .assignment fields).part .right
      let r ← expression d isMain right
      let op ← (Tree.node .assignment fields).get .operator
      return .text (Text.cat [plain d l, " ", plain d op, " ", plain d r])
    | .metal => return .text (← assignment d isMain (.node .assignment fields))
  | .node .unary fields => do
    let ⟨operand, _⟩ ← (Tree.node .unary fields).part .operand
    let e ← expression d isMain operand
    let op ← (Tree.node .unary fields).get .op
    let (opening, closing) := d.aroundSign
    return .text (Text.cat [opening, plain d op, plain d e, closing])
  | .node .call fields => do
    let ⟨args, _⟩ ← (Tree.node .call fields).part .args
    let values ← (← args.parts).mapM fun ⟨arg, _⟩ => expression d isMain arg
    let joined ← joinTexts values
    let name ← (Tree.node .call fields).get .name
    return .text (Text.cat [plain d name, "(", joined, ")"])
  | .node .member fields => do
    let ⟨object, _⟩ ← (Tree.node .member fields).part .object
    -- The object stands for itself, whether in an entry point or not.
    let o ← expression d false object
    let member ← (Tree.node .member fields).get .member
    -- The structure disappears and its member is left.
    if o.isText "output" || o.isText "input" then return member
    else return .text (Text.cat [plain d o, ".", plain d member])
  | .node .ternary fields => do
    let ⟨condition, _⟩ ← (Tree.node .ternary fields).part .condition
    let c ← expression d isMain condition
    let ⟨yes, _⟩ ← (Tree.node .ternary fields).part .trueExpr
    let y ← expression d isMain yes
    let ⟨no, _⟩ ← (Tree.node .ternary fields).part .falseExpr
    let n ← expression d isMain no
    return .text (Text.cat [plain d c, " ? ", plain d y, " : ", plain d n])
  | .node .construction fields => do
    let ⟨args, _⟩ ← (Tree.node .construction fields).part .args
    let values ← (← args.parts).mapM fun ⟨arg, _⟩ => expression d isMain arg
    let joined ← joinTexts values
    let vtype ← d.mapType (← (Tree.node .construction fields).get .typeName)
    return .text (Text.cat [plain d vtype, "(", joined, ")"])
  | t => .ok (.text (plain d t))
termination_by 2 * sizeOf t + 1
decreasing_by all_goals omega

/-- An assignment, written with an equals sign whatever its operator is. -/
def assignment (d : Dialect) (isMain : Bool) (t : Tree) : Except Fault Text := do
  let ⟨left, _⟩ ← t.part .left
  let l ← expression d isMain left
  let ⟨right, _⟩ ← t.part .right
  let r ← expression d isMain right
  let target ← outputTarget d isMain left
  return Text.cat [target.getD (plain d l), " = ", plain d r]
termination_by 2 * sizeOf t
decreasing_by all_goals omega

end

end ShaderBridge.Backward
