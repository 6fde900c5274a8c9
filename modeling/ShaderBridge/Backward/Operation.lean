import ShaderBridge.Backward.Shader

/-!
# Operations of a backward converter

A converter can be asked for a whole shader or for any part of one.  `Backward.perform` gives the
answer to an operation on operands.  Of the operands of a body and of an expression those at the
end may be left out: the level is then zero, and the place is not an entry point.
-/

namespace ShaderBridge.Backward

/-- What a converter can be asked for. -/
inductive Operation where
  | generate | collect | declarations | function | entryPoint | body | forLoop | branch
  | assignment | expression | mapType
deriving DecidableEq, Repr

/-- A text as a value. -/
def asValue (t : Except Fault Text) : Gen State Tree := do return .text (← t)

/-- The answer to an operation. -/
def perform (d : Dialect) : Operation → List Tree → Gen State Tree
  | .generate, [t] => do return .text (← generate d t)
  | .collect, [t] => do
    collect d t
    return .absent
  | .declarations, [stage] => do asValue (declarations d (← get) stage)
  | .function, [t] => asValue (function d t)
  | .entryPoint, [t] => asValue (entryPoint d t)
  | .body, [t] => asValue (body d false (.ok 0) t)
  | .body, [t, level] => asValue (body d false level.level t)
  | .body, [t, level, isMain] => asValue (body d isMain.isSet level.level t)
  | .forLoop, [t, level, isMain] => asValue (forLoop d isMain.isSet level.level t)
  | .branch, [t, level, isMain] => asValue (branch d isMain.isSet level.level t)
  | .assignment, [t, isMain] => asValue (assignment d isMain.isSet t)
  | .expression, [t] => (expression d false t : Except Fault _)
  | .expression, [t, isMain] => (expression d isMain.isSet t : Except Fault _)
  | .mapType, [t] => (d.mapType t : Except Fault _)
  | _, _ => throw .wrongSort

end ShaderBridge.Backward
