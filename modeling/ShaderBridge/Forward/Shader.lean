import ShaderBridge.Forward.Statement

/-!
# Shaders of CrossGL in a dialect

`Forward.generate` writes a whole shader: the shared interface, the functions outside the stages,
and for each stage its interface, its helper functions, the statements of its section and its
entry points.

A generator keeps the sections of the shader it wrote last, which its other operations look words
up in, and whether a vertex position still has to be declared.  The position is declared in front
of the first vertex output, so it stays pending in a shader without one.
-/

namespace ShaderBridge.Forward

/-! ## §1 State -/

/-- What a generator keeps. -/
structure State where
  sections : Sections := {}
  /-- Whether a vertex position still has to be declared. -/
  positionPending : Bool := false

/-- The scope of a stage in a state. -/
def State.scope (s : State) (d : Dialect) (stage : Tree) : Scope :=
  ⟨d, s.sections, stage⟩

/-- Runs a computation in the scope of a stage. -/
def inScope {α : Type} (d : Dialect) (stage : Tree) (f : Scope → Except Fault α) :
    Gen State α := do
  f ((← get).scope d stage)

/-! ## §2 Interfaces -/

/-- The line that declares the vertex position, if that is pending. -/
def takePosition (d : Dialect) : Gen State Text := do
  let s ← get
  if s.positionPending then
    set { s with positionPending := false }
    return d.positionLine
  else return []

/-- The line of the `i`-th variable of a channel. -/
def channelLine (d : Dialect) (p : Channel) (i : Nat) (t : Tree) : Gen State Text := do
  let (vtype, name) ← (t.pair : Except Fault _)
  let lead ← if p = .vertexOutput then takePosition d else pure []
  let vtype ← (d.mapType vtype : Except Fault _)
  return lead ++ d.channelLine p i (Scope.plain vtype) (Scope.plain name)

/-- The lines of the variables of a channel, counted from `i`. -/
def channelLines (d : Dialect) (p : Channel) : Nat → List Tree → Gen State Text
  | _, [] => return []
  | i, t :: rest => do
    let line ← channelLine d p i t
    return line ++ (← channelLines d p (i + 1) rest)

/-- A channel. -/
def channel (d : Dialect) (p : Channel) (t : Tree) : Gen State Text := do
  if t.isSet || d.alwaysWrites p then
    let items ← (t.items : Except Fault _)
    return d.channelText p (← channelLines d p 0 items)
  else return []

/-! ## §3 Stages -/

/-- Whether a statement, written outside all stages, sets the vertex position. -/
def setsPosition (sc : Scope) (t : Tree) : Except Fault Bool := do
  return Text.trim (Text.before '=' (← statement sc 0 t)) == "output.position"

/-- Makes the vertex position pending if a function of a section sets it at its top level. -/
def notePosition (d : Dialect) (owner : Tree) : Gen State Unit := do
  let functions ← (do (← owner.get .functions).items : Except Fault _)
  functions.forM fun f => do
    let stmts ← (do (← f.get .body).items : Except Fault _)
    stmts.forM fun t => do
      if ← inScope d .absent (setsPosition · t) then
        modify fun s => { s with positionPending := true }

/-- A text and a line end, where a value is set. -/
def lineIfSet (t : Tree) (text : Gen State Text) : Gen State Text := do
  if t.isSet then return (← text) ++ "\n" else return []

/-- The entry points among the functions of a stage. -/
def entryPoints (sc : Scope) (t : Tree) : Except Fault Text := do
  if t.isSet then
    let texts ← (← t.items).mapM fun f => do
      if ← isEntry f then return (← entryPoint sc f) ++ "\n" else return []
    return Text.cat texts
  else return []

/-- The section of a stage; anything but a section of its kind gives nothing. -/
def stageSection (d : Dialect) (stage : Stage) (kind : NodeKind) (owner : Tree) :
    Gen State Text := do
  if owner.isNode kind then
    let name : Tree := .text stage.label
    -- The position has to be known before the outputs are declared.
    if stage = .vertex && d.hasStageStructs then notePosition d owner
    let ins ← channel d (.inputOf stage) (← (owner.get .inputs : Except Fault _))
    let outs ← channel d (.outputOf stage) (← (owner.get .outputs : Except Fault _))
    let functions ← (owner.get .functions : Except Fault _)
    let helpers ← lineIfSet functions (inScope d name (function · functions))
    let body ← (owner.get .intermediate : Except Fault _)
    let stmts ← lineIfSet body (inScope d name (statements · 0 body))
    let entries ← inScope d name (entryPoints · functions)
    return Text.cat [d.stageOpening stage, ins, outs, helpers, stmts, entries]
  else return []

/-! ## §4 Shaders -/

/-- The functions outside the stages. -/
def sharedFunctions (sc : Scope) (t : Tree) : Except Fault Text := do
  let texts ← (← t.items).mapM fun f => do return (← function sc f) ++ "\n"
  return Text.cat texts

/-- A shader. -/
def shader (d : Dialect) (t : Tree) : Gen State Text := do
  let ins ← (t.get .globalInputs : Except Fault _)
  let outs ← (t.get .globalOutputs : Except Fault _)
  let sharedIns ← channel d .sharedInput ins
  let sharedOuts ← channel d .sharedOutput outs
  let functions ← (t.get .globalFunctions : Except Fault _)
  let shared ← inScope d (.text "global") (sharedFunctions · functions)
  let vertex ← (t.get .vertexSection : Except Fault _)
  -- From here on words are looked up in the new section.
  modify fun s => { s with sections.vertex := vertex }
  let vertexText ← stageSection d .vertex .vertexSection vertex
  let fragment ← (t.get .fragmentSection : Except Fault _)
  modify fun s => { s with sections.fragment := fragment }
  let fragmentText ← stageSection d .fragment .fragmentSection fragment
  return Text.cat
    [d.opening, sharedIns, sharedOuts, d.afterShared, shared, vertexText, fragmentText]

/-- A shader, or nothing for any other tree. -/
def generate (d : Dialect) (t : Tree) : Gen State Text := do
  if t.isNode .shader then shader d t else return []

end ShaderBridge.Forward
