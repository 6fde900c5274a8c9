import ShaderBridge.Backward.Glsl.Shader

/-!
# Operations of the GLSL converter

The converter can be asked for a whole shader or for any part of one.  `Glsl.perform` gives the
answer to an operation on operands; the level of a statement or branch may be left out and is then
zero.
-/

namespace ShaderBridge.Backward.Glsl

/-- What the converter can be asked for. -/
inductive Operation where
  | generate | shader | uniforms | layouts | functions | statement | assignment | branch | elseIf
  | forLoop | update | expression | word | mapType | mapOperator
deriving DecidableEq, Repr

/-- A text in a scope, as a value. -/
def textIn (stage : Tree) (f : Scope → Except Fault Text) : Gen State Tree := do
  return .text (← (f ((← get).scope stage) : Except Fault _))

/-- A text at the level that a value gives, in a scope. -/
def textAt (stage level : Tree) (f : Scope → Int → Except Fault Text) : Gen State Tree := do
  let n ← (level.level : Except Fault _)
  textIn stage (f · n)

/-- The answer to an operation. -/
def perform : Operation → List Tree → Gen State Tree
  | .generate, [t] => do return .text (← generate t)
  | .shader, [t] => do return .text (← shader t)
  | .uniforms, [] => do return .text (← (uniforms (← get) : Except Fault _))
  | .layouts, [t] => do return .text (← (layouts t : Except Fault _))
  | .functions, [t, stage] => textIn stage (functions · t)
  | .statement, [t, stage] => textIn stage (statement · 0 t)
  | .statement, [t, stage, level] => textAt stage level (statement · · t)
  | .assignment, [t, stage] => textIn stage (assignment · t)
  | .branch, [t, stage] => textIn stage (branch · 0 t)
  | .branch, [t, stage, level] => textAt stage level (branch · · t)
  | .elseIf, [t, stage, level] => textIn stage (elseIf · level.level t)
  | .forLoop, [t, stage, level] => textAt stage level (forLoop · · t)
  | .update, [t, stage] => do
    let text? ← (update ((← get).scope stage) t : Except Fault _)
    return Tree.ofText? text?
  | .expression, [t, stage] => textIn stage (expression · t)
  | .word, [t, stage] => do (((← get).scope stage).word t : Except Fault _)
  | .mapType, [t] => (mapType t : Except Fault _)
  | .mapOperator, [t] => (Operator.valueSymbol t : Except Fault _)
  | _, _ => throw .wrongSort

end ShaderBridge.Backward.Glsl
