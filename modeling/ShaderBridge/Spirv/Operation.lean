import ShaderBridge.Spirv.Module

/-!
# Operations of the SPIR-V generator

The generator can be asked for a whole module or for any part of one.  `Spirv.perform` gives the
answer to an operation on operands.
-/

namespace ShaderBridge.Spirv

/-- What the generator can be asked for. -/
inductive Operation where
  | generate | shader | types | globalVariables | constants | functionType | function | statement
  | assignment | branch | forLoop | expression | word | mapType | mapOperator | fresh
  | functionResult | variableType
deriving DecidableEq, Repr

/-- A text as a value. -/
def asValue (text : Gen State Text) : Gen State Tree := do return .text (← text)

/-- The answer to an operation. -/
def perform : Operation → List Tree → Gen State Tree
  | .generate, [t] => asValue (generate t)
  | .shader, [t] => asValue (shader t)
  | .types, [] => asValue types
  | .globalVariables, [] => asValue globalVariables
  | .constants, [] => return .text constants
  | .functionType, [t] => do return .text (← functionType t).2
  | .function, [t] => asValue (function none t)
  | .statement, [t] => asValue (statement t)
  | .assignment, [t] => asValue (assignment t)
  | .branch, [t] => asValue (branch t)
  | .forLoop, [t] => asValue (forLoop t)
  | .expression, [t] => asValue (expression t)
  | .word, [t] => asValue (word t)
  | .mapType, [t] => (mapType t : Except Fault _)
  | .mapOperator, [t] => (mapOperator t : Except Fault _)
  | .fresh, [] => do return .number (← fresh)
  | .functionResult, [_] => return .text defaultType
  | .variableType, [_] => return .text defaultType
  | _, _ => throw .wrongSort

end ShaderBridge.Spirv
