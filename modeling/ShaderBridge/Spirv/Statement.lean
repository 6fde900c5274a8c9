import ShaderBridge.Spirv.Basic
import ShaderBridge.Text.Numeral

/-!
# Expressions and statements in SPIR-V

An expression is written as the line that computes it, which then stands in the place of an
operand.  A word is a variable, a vector of words, or a number; any other word becomes a comment.
-/

namespace ShaderBridge.Spirv

/-! ## §1 Words -/

/-- A text as an operand.  A text that begins with `vec` is taken apart at the commas behind its
fourth character and in front of its last one. -/
def wordText (t : Text) : Gen State Text := do
  match (← get).vars.numberOf? (.text t) with
  | some n => return ref n
  | none =>
    match t with
    -- The fourth character is the number of components, the fifth the parenthesis.
    | 'v' :: 'e' :: 'c' :: rest => do
      let pieces := Text.cutAt ',' (rest.drop 1).dropLast
      let operands ← pieces.attach.mapM fun ⟨piece, _⟩ => wordText piece
      let n ← fresh
      return Text.cat
        [ref n, " = OpCompositeConstruct %vec", rest.take 1, " ", Text.join " " operands, "\n"]
    | t => do
      if Text.isNumeral t then
        let n ← fresh
        return Text.cat [ref n, " = OpConstant %float ", t, "\n"]
      else return Text.cat ["; Unhandled expression: ", t, "\n"]
termination_by t.length
decreasing_by
  rename_i hp
  have hle := Text.length_le_of_mem_cutAt hp
  simp only [List.length_dropLast, List.length_drop] at hle
  simp only [List.length_cons]
  omega

/-- A value as an operand.  Only a text or the name of a variable can be one. -/
def word (t : Tree) : Gen State Text := do
  match t with
  | .text s => wordText s
  | t =>
    match (← get).vars.numberOf? (← checkName t) with
    | some n => return ref n
    | none => throw .missingField

/-! ## §2 Expressions -/

/-- Whether a call makes a vector. -/
def makesVector (name : Tree) : Bool :=
  name.isText "vec2" || name.isText "vec3" || name.isText "vec4"

/-- An expression as an operand. -/
def expression (t : Tree) : Gen State Text :=
  match t with
  | .text s => word (.text s)
  | .node .var fields => do word (← ((Tree.node .var fields).get .name : Except Fault _))
  | .node .binary fields => do
    let ⟨left, _⟩ ← ((Tree.node .binary fields).part .left : Except Fault _)
    let l ← expression left
    let ⟨right, _⟩ ← ((Tree.node .binary fields).part .right : Except Fault _)
    let r ← expression right
    -- The operands are numbered before the result.
    let n ← fresh
    let op ← (do mapOperator (← (Tree.node .binary fields).get .op) : Except Fault _)
    let vtype ← ((Tree.node .binary fields).get .type : Except Fault _)
    let typeNumber ← number (← get).types vtype
    return Text.cat
      [ref n, " = ", plain op, " ", Text.ofNat typeNumber, " ", l, " ", r, "\n"]
  | .node .call fields => do
    let name ← ((Tree.node .call fields).get .name : Except Fault _)
    let ⟨args, _⟩ ← ((Tree.node .call fields).part .args : Except Fault _)
    let operands ← (← (args.parts : Except Fault _)).mapM fun ⟨arg, _⟩ => expression arg
    let n ← fresh
    if makesVector name then
      let vtype ← (mapType name : Except Fault _)
      return Text.cat
        [ref n, " = OpCompositeConstruct %", plain vtype, " ", Text.join " " operands, "\n"]
    else
      let callee ← number (← get).functions name
      return Text.cat
        [ref n, " = OpFunctionCall %", defaultType, " ", ref callee, " ", Text.join " " operands,
         "\n"]
  | .node .member fields => do
    let ⟨object, _⟩ ← ((Tree.node .member fields).part .object : Except Fault _)
    let o ← expression object
    let n ← fresh
    let member ← ((Tree.node .member fields).get .member : Except Fault _)
    return Text.cat [ref n, " = OpCompositeExtract %float ", o, " ", plain member, "\n"]
  | t => return plain t
termination_by sizeOf t
decreasing_by all_goals omega

/-! ## §3 Statements -/

/-- Whether a name is one of the outputs of the shader. -/
def isOutput (name : Tree) : Gen State Bool := do
  let outputs ← ((← get).outputs.items : Except Fault _)
  let names ← (outputs.mapM (·.item 1) : Except Fault _)
  return names.any name.same

/-- An assignment: to an output, or to a new variable of the function. -/
def assignment (t : Tree) : Gen State Text := do
  let name ← (t.get .name : Except Fault _)
  if ← isOutput name then
    let value ← expression (← (t.get .value : Except Fault _))
    return Text.cat ["OpStore %", plain name, " ", value, "\n"]
  else
    let n ← fresh
    let value ← expression (← (t.get .value : Except Fault _))
    return Text.cat
      [ref n, " = OpVariable %_ptr_Function_", defaultType, " Function\nOpStore ", ref n, " ",
       value, "\n"]

/-- The line that puts a label. -/
def label (n : Nat) : Text := ref n ++ " = OpLabel\n"

/-- The line that goes to a label. -/
def goto (n : Nat) : Text := Text.cat ["OpBranch ", ref n, "\n"]

mutual

/-- A statement. -/
def statement (t : Tree) : Gen State Text :=
  match t with
  | .node .assignment fields => assignment (.node .assignment fields)
  | .node .branch fields => branch (.node .branch fields)
  | .node .forLoop fields => forLoop (.node .forLoop fields)
  | .node .returned fields => do
    let value ← expression (← ((Tree.node .returned fields).get .value : Except Fault _))
    return Text.cat ["OpReturnValue ", value, "\n"]
  | t => do return (← expression t) ++ "\n"
termination_by 2 * sizeOf t + 1
decreasing_by all_goals omega

/-- A branch with at most one alternative. -/
def branch (t : Tree) : Gen State Text := do
  let condition ← expression (← (t.get .condition : Except Fault _))
  let yes ← fresh
  let no ← fresh
  let join ← fresh
  let ⟨ifBody, _⟩ ← (t.part .ifBody : Except Fault _)
  let stmts ← (← (ifBody.parts : Except Fault _)).mapM fun ⟨s, _⟩ => statement s
  let ⟨elseBody, _⟩ ← (t.part .elseBody : Except Fault _)
  let others ←
    if elseBody.isSet then
      (← (elseBody.parts : Except Fault _)).mapM fun ⟨s, _⟩ => statement s
    else pure []
  return Text.cat
    ["OpSelectionMerge ", ref join, " None\n",
     "OpBranchConditional ", condition, " ", ref yes, " ", ref no, "\n",
     label yes, Text.cat stmts, goto join, label no, Text.cat others, goto join, label join]
termination_by 2 * sizeOf t
decreasing_by all_goals omega

/-- A counted loop. -/
def forLoop (t : Tree) : Gen State Text := do
  let ⟨init, _⟩ ← (t.part .init : Except Fault _)
  let first ← statement init
  let condition ← expression (← (t.get .condition : Except Fault _))
  let ⟨update, _⟩ ← (t.part .update : Except Fault _)
  let step ← statement update
  -- Labels are numbered behind the clauses and in front of the body.
  let header ← fresh
  let inner ← fresh
  let next ← fresh
  let join ← fresh
  let ⟨body, _⟩ ← (t.part .body : Except Fault _)
  let stmts ← (← (body.parts : Except Fault _)).mapM fun ⟨s, _⟩ => statement s
  return Text.cat
    [first, goto header, label header,
     "OpLoopMerge ", ref join, " ", ref next, " None\n",
     "OpBranchConditional ", condition, " ", ref inner, " ", ref join, "\n",
     label inner, Text.cat stmts, goto next, label next, step, goto header, label join]
termination_by 2 * sizeOf t
decreasing_by all_goals omega

end

end ShaderBridge.Spirv
