import ShaderBridge.Forward.Shader

/-!
# Operations of a forward generator

A generator can be asked for a whole shader or for any part of one.  `Forward.perform` gives the
answer to an operation on operands; operands at the end may be left out where they have a
default: the level is then zero and the stage is none.
-/

namespace ShaderBridge.Forward

/-- What a generator can be asked for. -/
inductive Operation where
  | generate | shader | function | entryPoint | statements | statement | assignment | branch
  | forLoop | expression | word | mapType | mapOperator
deriving DecidableEq, Repr

/-- A text in a scope, as a value. -/
def textIn (d : Dialect) (stage : Tree) (f : Scope → Except Fault Text) : Gen State Tree := do
  return .text (← inScope d stage f)

/-- A text at a level in a scope, as a value. -/
def textAt (d : Dialect) (level stage : Tree) (f : Scope → Int → Except Fault Text) :
    Gen State Tree := do
  let n ← (level.level : Except Fault _)
  textIn d stage (f · n)

/-- The answer to an operation. -/
def perform (d : Dialect) : Operation → List Tree → Gen State Tree
  | .generate, [t] => do return .text (← generate d t)
  | .shader, [t] => do return .text (← shader d t)
  | .function, [t, stage] => textIn d stage (function · t)
  | .entryPoint, [t, stage] => textIn d stage (entryPoint · t)
  | .statements, [t, stage] => textIn d stage (statements · 0 t)
  | .statement, [t] => textIn d .absent (statement · 0 t)
  | .statement, [t, level] => textAt d level .absent (statement · · t)
  | .statement, [t, level, stage] => textAt d level stage (statement · · t)
  | .assignment, [t] => textIn d .absent (assignment · t)
  | .assignment, [t, stage] => textIn d stage (assignment · t)
  | .branch, [t, level] => textAt d level .absent (branch · · t)
  | .branch, [t, level, stage] => textAt d level stage (branch · · t)
  | .forLoop, [t, level] => textAt d level .absent (forLoop · · t)
  | .forLoop, [t, level, stage] => textAt d level stage (forLoop · · t)
  | .expression, [t] => textIn d .absent (expression · t)
  | .expression, [t, stage] => textIn d stage (expression · t)
  | .word, [t, stage] => inScope d stage (·.word t)
  | .mapType, [t] => (d.mapType t : Except Fault _)
  | .mapOperator, [t] => (Operator.symbol t : Except Fault _)
  | _, _ => throw .wrongSort

end ShaderBridge.Forward
