import ShaderBridge.Backward.Expression
import ShaderBridge.Generation

/-!
# Statements of HLSL and Metal in CrossGL

The blanks in front of a statement are written first.  A statement that has no form in CrossGL, as
a return in an entry point, leaves the blanks alone, without a line end.

The level of nesting is asked for where blanks are first due: a body without statements, and a
branch without conditions and alternatives, never ask for it.
-/

namespace ShaderBridge.Backward

mutual

/-- A statement behind the blanks in front of it. -/
def statement (d : Dialect) (isMain : Bool) (level : Int) (t : Tree) : Except Fault Text :=
  match t with
  | .node .var fields => do
    let vtype ← (Tree.node .var fields).get .vtype
    -- The output structure itself is not declared in CrossGL.
    if d.outputStructs.any (vtype.isText ·) then return []
    else
      let mapped ← d.mapType vtype
      let name ← (Tree.node .var fields).get .name
      return Text.cat [plain d mapped, " ", plain d name, ";\n"]
  | .node .assignment fields => do
    return (← assignment d isMain (.node .assignment fields)) ++ ";\n"
  | .node .binary fields => do
    let l ← expression d isMain (← (Tree.node .binary fields).get .left)
    let op ← (Tree.node .binary fields).get .op
    let r ← expression d isMain (← (Tree.node .binary fields).get .right)
    return Text.cat [plain d l, " ", plain d op, " ", plain d r, ";\n"]
  | .node .returned fields => do
    -- An entry point returns nothing: its outputs are variables.
    if isMain then return []
    else
      let value ← expression d isMain (← (Tree.node .returned fields).get .value)
      return Text.cat ["return ", plain d value, ";\n"]
  | .node .forLoop fields => forLoop d isMain (.ok level) (.node .forLoop fields)
  | .node .branch fields => branch d isMain (.ok level) (.node .branch fields)
  | _ => .ok []
termination_by 4 * sizeOf t + 2
decreasing_by all_goals omega

/-- Statements with the blanks in front of them. -/
def body (d : Dialect) (isMain : Bool) (level : Except Fault Int) (t : Tree) :
    Except Fault Text := do
  let texts ← (← t.parts).mapM fun ⟨s, _⟩ => do
    let n ← level
    return Text.indent n ++ (← statement d isMain n s)
  return Text.cat texts
termination_by 4 * sizeOf t + 3
decreasing_by all_goals omega

/-- A counted loop. -/
def forLoop (d : Dialect) (isMain : Bool) (level : Except Fault Int) (t : Tree) :
    Except Fault Text := do
  let init ← expression d isMain (← t.get .init)
  let condition ← expression d isMain (← t.get .condition)
  let update ← expression d isMain (← t.get .update)
  let ⟨stmts, _⟩ ← t.part .body
  let n ← level
  let inner ← body d isMain (.ok (n + 1)) stmts
  return Text.cat
    ["for (", plain d init, "; ", plain d condition, "; ", plain d update, r") {", "\n", inner,
     Text.indent n, r"}", "\n"]
termination_by 4 * sizeOf t + 1
decreasing_by all_goals omega

/-- A branch with its alternatives.  HLSL nests them; Metal lists conditions and bodies. -/
def branch (d : Dialect) (isMain : Bool) (level : Except Fault Int) (t : Tree) :
    Except Fault Text :=
  match d with
  | .hlsl => do
    let condition ← expression d isMain (← t.get .condition)
    let ⟨ifBody, _⟩ ← t.part .ifBody
    let n ← level
    let inner ← body d isMain (.ok (n + 1)) ifBody
    let ⟨elseBody, _⟩ ← t.part .elseBody
    let last ←
      if elseBody.isSet then
        if elseBody.isNode .branch then do
          -- The inner branch ends its own line, and the outer one adds another line end.
          pure (" else " ++ (← branch d isMain (.ok n) elseBody))
        else do
          let inner ← body d isMain (.ok (n + 1)) elseBody
          pure (Text.cat [r" else {", "\n", inner, Text.indent n, r"}"])
      else pure []
    return Text.cat
      ["if (", plain d condition, r") {", "\n", inner, Text.indent n, r"}", last, "\n"]
  | .metal => do
    let ⟨ifChain, _⟩ ← t.part .ifChain
    let first ← chain d isMain level "if (" ifChain
    let ⟨elseIfChain, _⟩ ← t.part .elseIfChain
    let others ← chain d isMain level " else if (" elseIfChain
    let ⟨elseBody, _⟩ ← t.part .elseBody
    let last ←
      if elseBody.isSet then do
        let n ← level
        let inner ← body d isMain (.ok (n + 1)) elseBody
        pure (Text.cat [r" else {", "\n", inner, Text.indent n, r"}"])
      else pure []
    return Text.cat [first, others, last, "\n"]
termination_by 4 * sizeOf t + 1
decreasing_by all_goals omega

/-- Conditions with their bodies, each behind the same words. -/
def chain (d : Dialect) (isMain : Bool) (level : Except Fault Int) (lead : Text) (t : Tree) :
    Except Fault Text := do
  if t.isSet then
    let texts ← (← t.parts).mapM fun ⟨p, _⟩ => do
      let (⟨condition, _⟩, ⟨stmts, _⟩) ← p.halves
      let c ← expression d isMain condition
      let n ← level
      let inner ← body d isMain (.ok (n + 1)) stmts
      return Text.cat [lead, plain d c, r") {", "\n", inner, Text.indent n, r"}"]
    return Text.cat texts
  else return []
termination_by 4 * sizeOf t + 4
decreasing_by all_goals omega

end

end ShaderBridge.Backward
