import ShaderBridge.Backward.Glsl.Statement

/-!
# Shaders of GLSL in CrossGL

The converter writes a section for each stage: its layouts, its inputs and outputs, all uniforms
and its functions.  Inputs and outputs that belong to no stage are declared in the vertex section.
A shader without a vertex section, or with a fragment section that has neither layouts nor
functions, is refused.

The converter keeps the sections and uniforms of the shader it wrote last, which its other
operations refer to.
-/

namespace ShaderBridge.Backward.Glsl

/-- What a converter keeps. -/
structure State where
  sections : Sections := {}
  /-- The uniforms, once a shader was written. -/
  uniforms? : Option Tree := none

/-- The scope of a stage in a state. -/
def State.scope (s : State) (stage : Tree) : Scope := ⟨s.sections, stage⟩

/-! ## §1 Interfaces -/

/-- Declarations of variables, each with a text behind it. -/
def declarations (word tail : Text) (t : Tree) : Except Fault Text := do
  let lines ← (← t.items).mapM fun v => do
    let (vtype, name) ← v.pair
    return Text.cat ["        ", word, " ", plain (← mapType vtype), " ", plain name, ";\n", tail]
  return Text.cat lines

/-- The uniforms, one on each line. -/
def uniforms (s : State) : Except Fault Text := do
  match s.uniforms? with
  | none => throw .missingField
  | some t => return Text.join "\n" ((← t.items).map fun u => "        " ++ plain u)

/-- The variables that layouts declare. -/
def layouts (t : Tree) : Except Fault Text := do
  let lines ← (← t.items).mapM fun l => do
    let direction ← l.get .ioType
    if direction.isText "input" || direction.isText "output" then
      let vtype ← l.get .dtype
      let name ← l.get .name
      return Text.cat ["        ", plain direction, " ", plain vtype, " ", plain name, ";\n"]
    else return []
  return Text.cat lines

/-! ## §2 Functions -/

/-- A function. -/
def function (sc : Scope) (t : Tree) : Except Fault Text := do
  let params ← (← (← t.get .params).items).mapM fun p => do
    let vtype ← mapType (← p.item 0)
    return Text.cat [plain vtype, " ", plain (← p.item 1)]
  let vtype ← mapType (← t.get .returnType)
  let name ← t.get .name
  let stmts ← (← (← t.get .body).items).mapM (statement sc 2)
  return Text.cat
    ["        ", plain vtype, " ", plain name, "(", Text.join ", " params, r") {", "\n",
     Text.cat stmts, r"        }", "\n"]

/-- The functions of a stage; there are none outside the stages. -/
def functions (sc : Scope) (t : Tree) : Except Fault Text := do
  if (Stage.of? sc.stage).isSome then
    return Text.cat (← (← t.items).mapM (function sc))
  else return []

/-! ## §3 Shaders -/

/-- The section of a stage, with shared inputs and outputs in front of its own. -/
def stageSection (s : State) (stage : Stage) (shared : Except Fault Text) (owner : Tree) :
    Except Fault Text := do
  let located ← layouts (← owner.get .layoutQualifiers)
  let sharedText ← shared
  let ins ← declarations "input" "" (← owner.get .inputs)
  let outs ← declarations "output" "\n" (← owner.get .outputs)
  let uniformLines ← uniforms s
  let code ← functions (s.scope (.text stage.label)) (← owner.get .functions)
  return Text.cat
    ["    ", stage.label, r" {", "\n", located, sharedText, ins, outs, uniformLines, "\n\n", code,
     r"    }", "\n"]

/-- Whether a value is a fragment section that is written. -/
def hasFragments (owner : Tree) : Except Fault Bool := do
  if owner.isSet then
    if (← owner.get .layoutQualifiers).isSet then return true
    else return (← owner.get .functions).isSet
  else return false

/-- A shader. -/
def shader (t : Tree) : Gen State Text := do
  let ins ← (t.get .globalInputs : Except Fault _)
  let outs ← (t.get .globalOutputs : Except Fault _)
  let us ← (t.get .uniforms : Except Fault _)
  modify fun s => { s with uniforms? := some us }
  let vertex ← (t.get .vertexSection : Except Fault _)
  modify fun s => { s with sections.vertex := vertex }
  -- The section is kept even if the shader is then refused.
  if !vertex.isSet then throw (.refused .noVertexSection)
  let shared : Except Fault Text := do
    let a ← declarations "input" "" ins
    let b ← declarations "output" "" outs
    return a ++ b
  let vertexText ← (stageSection (← get) .vertex shared vertex : Except Fault _)
  let fragment ← (t.get .fragmentSection : Except Fault _)
  modify fun s => { s with sections.fragment := fragment }
  let written ← (hasFragments fragment : Except Fault _)
  if !written then throw (.refused .noFragmentSection)
  let fragmentText ← (stageSection (← get) .fragment (.ok []) fragment : Except Fault _)
  return Text.cat [r"shader main {", "\n", vertexText, fragmentText, r"}", "\n"]

/-- A shader, or nothing for any other tree. -/
def generate (t : Tree) : Gen State Text := do
  if t.isNode .shader then shader t else return []

end ShaderBridge.Backward.Glsl
