import ShaderBridge.Backward.Statement
import ShaderBridge.Stage
import ShaderBridge.Text.Blank

/-!
# Shaders of HLSL and Metal in CrossGL

The converter first collects the members of the stage structures as inputs and outputs, then
writes a section for each stage.  HLSL finds the entry points by name, Metal by qualifier; a
source without one of them has no form in CrossGL.

What was collected stays with the converter, and a further shader adds to it.
-/

namespace ShaderBridge.Backward

/-! ## §1 Interfaces -/

/-- The inputs and outputs that were collected, as types with names. -/
structure State where
  vertexInputs : List (Tree × Tree) := []
  vertexOutputs : List (Tree × Tree) := []
  fragmentInputs : List (Tree × Tree) := []
  fragmentOutputs : List (Tree × Tree) := []

/-- A side of the interface of a stage. -/
structure Channel where
  stage : Stage
  isOutput : Bool
deriving DecidableEq, Repr

/-- Adds a variable to a channel. -/
def State.add (s : State) (p : Channel) (v : Tree × Tree) : State :=
  match p with
  | ⟨.vertex, false⟩ => { s with vertexInputs := s.vertexInputs ++ [v] }
  | ⟨.vertex, true⟩ => { s with vertexOutputs := s.vertexOutputs ++ [v] }
  | ⟨.fragment, false⟩ => { s with fragmentInputs := s.fragmentInputs ++ [v] }
  | ⟨.fragment, true⟩ => { s with fragmentOutputs := s.fragmentOutputs ++ [v] }

/-- The inputs of a stage. -/
def State.inputs (s : State) : Stage → List (Tree × Tree)
  | .vertex => s.vertexInputs
  | .fragment => s.fragmentInputs

/-- The outputs of a stage. -/
def State.outputs (s : State) : Stage → List (Tree × Tree)
  | .vertex => s.vertexOutputs
  | .fragment => s.fragmentOutputs

/-- A member of a stage structure.  HLSL keeps its type as it is, to be mapped when it is
written. -/
def member (d : Dialect) (t : Tree) : Except Fault (Tree × Tree) := do
  let vtype ← t.get .vtype
  let kept ← if d = .metal then d.mapType vtype else pure vtype
  return (kept, ← t.get .name)

/-- Collects the members of a stage structure.  The position of a vertex is no output. -/
def collectMembers (d : Dialect) (p : Channel) (struct : Tree) : Gen State Unit := do
  let members ← (do (← struct.get .members).items : Except Fault _)
  members.forM fun t => do
    -- The position is left out of the outputs of a vertex.
    let isPosition ←
      if p = ⟨.vertex, true⟩ then
        let name ← (t.get .name : Except Fault _)
        pure (name.isText "position")
      else pure false
    if !isPosition then
      let v ← (member d t : Except Fault _)
      modify (·.add p v)

/-- The fields of an HLSL shader that hold stage structures. -/
def structFields : List (Field × Channel) :=
  [(.vertexInput, ⟨.vertex, false⟩), (.vertexOutput, ⟨.vertex, true⟩),
   (.fragmentInput, ⟨.fragment, false⟩), (.fragmentOutput, ⟨.fragment, true⟩)]

/-- The names of the stage structures of Metal. -/
def structNames : List (Text × Channel) :=
  [("Vertex_INPUT", ⟨.vertex, false⟩), ("Vertex_OUTPUT", ⟨.vertex, true⟩),
   ("Fragment_INPUT", ⟨.fragment, false⟩), ("Fragment_OUTPUT", ⟨.fragment, true⟩)]

/-- Collects the members of the stage structures of a shader. -/
def collect (d : Dialect) (t : Tree) : Gen State Unit :=
  match d with
  | .hlsl =>
    structFields.forM fun (f, p) => do
      let struct ← (t.get f : Except Fault _)
      if struct.isSet then collectMembers d p struct
  | .metal => do
    let items ← (do (← t.get .functions).items : Except Fault _)
    items.forM fun item => do
      if item.isNode .struct then
        let name ← (item.get .name : Except Fault _)
        match structNames.find? fun entry => name.isText entry.1 with
        | some (_, p) => collectMembers d p item
        | none => return ()

/-- A declaration of an input or output. -/
def declaration (d : Dialect) (word : Text) (v : Tree × Tree) : Except Fault Text := do
  let vtype ← if d = .hlsl then d.mapType v.1 else pure v.1
  return Text.cat ["        ", word, " ", plain d vtype, " ", plain d v.2, ";\n"]

/-- The inputs and outputs of a stage, without a line end; there are none outside the stages. -/
def declarations (d : Dialect) (s : State) (stage : Tree) : Except Fault Text := do
  match Stage.of? stage with
  | none => return []
  | some stage =>
    let ins ← (s.inputs stage).mapM (declaration d "input")
    let outs ← (s.outputs stage).mapM (declaration d "output")
    return Text.trimEnd (Text.cat (ins ++ outs))

/-! ## §2 Functions -/

/-- A function that is no entry point. -/
def function (d : Dialect) (t : Tree) : Except Fault Text := do
  let params ← (← (← t.get .params).items).mapM fun p => do
    let vtype ← d.mapType (← p.get .vtype)
    return Text.cat [plain d vtype, " ", plain d (← p.get .name)]
  let vtype ← d.mapType (← t.get .returnType)
  let name ← t.get .name
  let stmts ← body d false (.ok 2) (← t.get .body)
  return Text.cat
    ["    ", plain d vtype, " ", plain d name, "(", Text.join ", " params, r") {", "\n", stmts,
     r"    }", "\n\n"]

/-- The entry point of a stage. -/
def entryPoint (d : Dialect) (t : Tree) : Except Fault Text := do
  let stmts ← body d true (.ok 3) (← t.get .body)
  return Text.cat [r"        void main() {", "\n", stmts, r"        }", "\n"]

/-- Whether a function is the entry point of a stage. -/
def isEntryOf (d : Dialect) (stage : Stage) (t : Tree) : Except Fault Bool :=
  match d with
  | .hlsl => do
    let name ← t.get .name
    return name.isText (match stage with | .vertex => "VSMain" | .fragment => "PSMain")
  | .metal => do
    if t.isNode .function then return (← t.get .qualifier).isText stage.label else return false

/-- Whether a function is written outside the sections. -/
def isHelper (d : Dialect) (t : Tree) : Except Fault Bool :=
  match d with
  | .hlsl => do
    let name ← t.get .name
    return !(name.isText "VSMain" || name.isText "PSMain")
  | .metal => do
    if t.isNode .function then return (← t.get .qualifier) == .absent else return false

/-- The first entry point of a stage. -/
def findEntry (d : Dialect) (stage : Stage) : List Tree → Except Fault Tree
  | [] => .error .noEntryPoint
  | t :: rest => do
    if ← isEntryOf d stage t then return t else findEntry d stage rest

/-! ## §3 Shaders -/

/-- The section of a stage.  HLSL writes the interface before it looks for the entry point, Metal
after. -/
def stageSection (d : Dialect) (s : State) (stage : Stage) (functions : List Tree) :
    Except Fault Text := do
  let name : Tree := .text stage.label
  let (interface, entry) ←
    match d with
    | .hlsl => do
      let interface ← declarations d s name
      pure (interface, ← findEntry d stage functions)
    | .metal => do
      let entry ← findEntry d stage functions
      pure (← declarations d s name, entry)
  let title : Text :=
    match stage with
    | .vertex => Text.cat ["    // Vertex Shader\n", r"    vertex {", "\n"]
    | .fragment => Text.cat ["    // Fragment Shader\n", r"    fragment {", "\n"]
  return Text.cat [title, interface, "\n", ← entryPoint d entry, r"    }", "\n"]

/-- The text of a shader once its interfaces are collected. -/
def shaderText (d : Dialect) (s : State) (t : Tree) : Except Fault Text := do
  let functions ← (← t.get .functions).items
  let helpers ← functions.mapM fun f => do
    if ← isHelper d f then function d f else return []
  let vertex ← stageSection d s .vertex functions
  let fragment ← stageSection d s .fragment functions
  let opening : Text :=
    match d with
    | .hlsl => Text.cat [r"shader main {", "\n"]
    | .metal => Text.cat [r"shader main {", "\n \n"]
  return Text.cat [opening, Text.cat helpers, vertex, "\n", fragment, r"}", "\n"]

/-- A shader. -/
def generate (d : Dialect) (t : Tree) : Gen State Text := do
  collect d t
  shaderText d (← get) t

end ShaderBridge.Backward
