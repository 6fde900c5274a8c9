import ShaderBridge.Generation
import ShaderBridge.Tree.Printer

/-!
# SPIR-V generation: ids and names

A SPIR-V text numbers its results.  The generator takes numbers from a counter and keeps the
numbers of types, variables, functions and function types under their names.  It also keeps the
inputs and outputs of the shader.
-/

namespace ShaderBridge.Spirv

/-! ## §1 Numbers under names -/

/-- Numbers under names, in the order in which the names came. -/
abbrev Numbering := List (Tree × Nat)

namespace Numbering

/-- The number under a name. -/
def numberOf? (ns : Numbering) (name : Tree) : Option Nat :=
  (List.find? (fun entry => entry.1.same name) ns).map (·.2)

/-- Puts a number under a name, in place of the one that was there. -/
def put (ns : Numbering) (name : Tree) (n : Nat) : Numbering :=
  if ns.any fun entry => entry.1.same name then
    ns.map fun entry => if entry.1.same name then (entry.1, n) else entry
  else ns ++ [(name, n)]

end Numbering

/-! ## §2 State -/

/-- What a generator keeps. -/
structure State where
  /-- The next number. -/
  next : Nat := 1
  types : Numbering := []
  vars : Numbering := []
  functions : Numbering := []
  functionTypes : Numbering := []
  inputs : Tree := .list []
  outputs : Tree := .list []
  /-- The numbers that were given out, the last one first.  Nothing reads them. -/
  drawn : List Nat := []

/-- The next number, which is noted as given out. -/
def fresh : Gen State Nat := do
  let s ← get
  set { s with next := s.next + 1, drawn := s.next :: s.drawn }
  return s.next

/-- A number as the name of a result. -/
def ref (n : Nat) : Text := '%' :: Text.ofNat n

/-- A value as plain text. -/
def plain (t : Tree) : Text := t.plain .crossGl

/-- A name, if it can be one. -/
def checkName (t : Tree) : Gen State Tree :=
  if t.isKey then return t else throw .wrongSort

/-- The number under a name, which must be there. -/
def number (ns : Numbering) (name : Tree) : Gen State Nat := do
  match ns.numberOf? (← checkName name) with
  | some n => return n
  | none => throw .unknownName

/-! ## §3 Types and operations -/

/-- The types with another name. -/
def typeNames : List (Text × Text) :=
  [("void", "void"), ("bool", "bool"), ("int", "int"), ("float", "float"),
   ("vec2", "v2float"), ("vec3", "v3float"), ("vec4", "v4float"),
   ("mat2", "mat2v2float"), ("mat3", "mat3v3float"), ("mat4", "mat4v4float")]

/-- A type under its SPIR-V name. -/
def mapType (vtype : Tree) : Except Fault Tree := vtype.rename typeNames

/-- The operations that operators stand for. -/
def operations : List (Text × Text) :=
  [("PLUS", "OpFAdd"), ("MINUS", "OpFSub"), ("MULTIPLY", "OpFMul"), ("DIVIDE", "OpFDiv"),
   ("LESS_THAN", "OpFOrdLessThan"), ("GREATER_THAN", "OpFOrdGreaterThan"),
   ("LESS_EQUAL", "OpFOrdLessThanEqual"), ("GREATER_EQUAL", "OpFOrdGreaterThanEqual"),
   ("EQUAL", "OpFOrdEqual"), ("NOT_EQUAL", "OpFOrdNotEqual"),
   ("AND", "OpLogicalAnd"), ("OR", "OpLogicalOr")]

/-- The operation that an operator stands for. -/
def mapOperator (op : Tree) : Except Fault Tree := op.rename operations

/-- The type of every function result and of every variable that is no output. -/
def defaultType : Text := "float"

end ShaderBridge.Spirv
