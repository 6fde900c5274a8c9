import ShaderBridge.Language
import ShaderBridge.Tree.Basic

/-!
# Node shapes

The shape of a node kind in a language: the parameters it is built from, with their defaults, and
the form in which it is printed.  `Tree.build` makes a node from named values.

A printed form is a list of segments.  A *shown* field prints its value as plain text; a *quoted*
field prints it as it stands inside a list, where texts have quotes.
-/

namespace ShaderBridge

/-! ## §1 Parameters and printed forms -/

/-- A parameter that a node is built from. -/
structure Param where
  /-- The name that the value is given under. -/
  name : Field
  /-- The field that the value is stored in. -/
  field : Field
  /-- The value of a parameter that is not given. -/
  default? : Option Tree
  /-- Whether a value that does not count as set is replaced by the empty list. -/
  orEmptyList : Bool

/-- A piece of a printed node. -/
inductive Segment where
  /-- Fixed text. -/
  | lit (s : Text)
  /-- The value of a field as plain text. -/
  | shown (f : Field)
  /-- The value of a field as it stands inside a list. -/
  | quoted (f : Field)
  /-- The value of a field as plain text between two texts, or nothing if it is not set. -/
  | shownIfSet (lead : Text) (f : Field) (tail : Text)

/-- How nodes of a kind are built and printed. -/
structure Shape where
  params : List Param
  /-- How a node is printed inside a list. -/
  form : List Segment
  /-- How a node is printed as plain text, if that differs. -/
  plainForm : Option (List Segment) := none

namespace Shape

/-- A parameter that must be given. -/
def required (f : Field) : Param := ⟨f, f, none, false⟩

/-- A parameter that must be given and is stored under another name. -/
def stored (given field : Field) : Param := ⟨given, field, none, false⟩

/-- A parameter with a default. -/
def optional (f : Field) (value : Tree) : Param := ⟨f, f, some value, false⟩

/-- A list that is empty unless it is given. -/
def listOr (f : Field) : Param := ⟨f, f, some .absent, true⟩

/-- A field under a label of its own, as plain text. -/
def shownAs (label : Text) (f : Field) : List Segment := [.lit (label ++ "="), .shown f]

/-- A field under its own label, as plain text. -/
def shown (f : Field) : List Segment := shownAs f.label f

/-- A field under its own label, as plain text between single quotes. -/
def ticked (f : Field) : List Segment := [.lit (f.label ++ "='"), .shown f, .lit "'"]

/-- The label of a kind with its arguments between parentheses. -/
def named (k : NodeKind) (args : List (List Segment)) : List Segment :=
  .lit (k.label ++ "(") :: List.intercalate [.lit ", "] args ++ [.lit ")"]

/-- A label with a field in parentheses, and further fields with blanks between them. -/
def spaced (label : Text) (first : Field) (others : List Field) : List Segment :=
  [.lit (label ++ "("), .quoted first, .lit ") "] ++
    List.intercalate [.lit " "] (others.map fun f => [.quoted f])

/-- The shape of nodes that are given all their fields and show all of them. -/
def regular (k : NodeKind) (fields : List Field) : Shape where
  params := fields.map required
  form := named k (fields.map shown)

/-- An import is printed with its alias only if it has one. -/
def importForm : List Segment :=
  named .importDef [ticked .moduleName ++ [.shownIfSet ", alias='" .aliasName "'"]]

end Shape

/-! ## §2 The shapes of each language -/

open Shape in
/-- The shape of a node kind in a language, if the language has the kind. -/
def Language.shape? : Language → NodeKind → Option Shape
  | .crossGl, .shader =>
    some {
      params := [.name, .globalInputs, .globalOutputs, .globalFunctions, .vertexSection,
        .fragmentSection].map required
      form := spaced "ShaderNode" .name [.globalInputs, .globalOutputs, .globalFunctions,
        .vertexSection, .fragmentSection] }
  | .hlsl, .shader =>
    some (regular .shader
      [.vertexInput, .vertexOutput, .fragmentInput, .fragmentOutput, .functions])
  | .metal, .shader | .mojo, .shader => some (regular .shader [.functions])
  | .glsl, .shader =>
    some {
      params := [.version, .globalInputs, .globalOutputs, .uniforms, .vertexSection,
        .fragmentSection, .functions].map required
      form := spaced "ShaderNode" .version
        [.globalInputs, .globalOutputs, .functions, .vertexSection, .fragmentSection] }
  | .crossGl, .vertexSection =>
    some {
      params := [.inputs, .outputs, .functions, .intermediate].map required
      form := spaced "VERTEXShaderNode" .inputs [.outputs, .functions, .intermediate] }
  | .glsl, .vertexSection =>
    some {
      params := [.inputs, .outputs, .uniform, .functions].map required ++
        [optional .layoutQualifiers (.list [])]
      form := spaced "VERTEXShaderNode" .inputs [.outputs, .uniform] ++
        [.quoted .functions, .quoted .layoutQualifiers] }
  | .crossGl, .fragmentSection =>
    some {
      params := [.inputs, .outputs, .functions, .intermediate].map required
      form := spaced "FRAGMENTShaderNode" .inputs [.outputs, .functions, .intermediate] }
  | .glsl, .fragmentSection =>
    some {
      params := [.inputs, .outputs, .uniform, .functions].map required ++
        [optional .layoutQualifiers (.list [])]
      form := spaced "FRAGMENTShaderNode" .inputs [.outputs] ++
        [.quoted .uniform, .lit " ", .quoted .functions, .quoted .layoutQualifiers] }
  | .crossGl, .function | .hlsl, .function | .glsl, .function =>
    some (regular .function [.returnType, .name, .params, .body])
  | .metal, .function | .mojo, .function =>
    some {
      params := [.qualifier, .returnType, .name, .params, .body].map required ++
        [listOr .attributes]
      form := named .function
        ([.qualifier, .returnType, .name, .params, .body, .attributes].map shown) }
  | .crossGl, .var | .glsl, .var => some (regular .var [.vtype, .name])
  | .hlsl, .var =>
    some {
      params := [required .vtype, required .name, optional .semantic .absent]
      form := named .var [ticked .vtype, ticked .name, shown .semantic] }
  | .metal, .var | .mojo, .var =>
    some {
      params := [required .vtype, required .name, listOr .attributes]
      form := named .var [ticked .vtype, ticked .name, shown .attributes] }
  | .crossGl, .uniform | .glsl, .uniform =>
    some { regular .uniform [.vtype, .name] with
      plainForm := some [.lit "uniform ", .shown .vtype, .lit " ", .shown .name, .lit ";"] }
  | .hlsl, .struct | .metal, .struct | .mojo, .struct => some (regular .struct [.name, .members])
  | .mojo, .classDef => some (regular .classDef [.name, .baseClasses, .members])
  | .metal, .constantBuffer | .mojo, .constantBuffer =>
    some (regular .constantBuffer [.name, .members])
  | .mojo, .declaration =>
    some {
      params := [required .varType, required .name, optional .initialValue .absent]
      form := named .declaration [shown .varType, shown .name, shown .initialValue] }
  | .mojo, .importDef =>
    some {
      params := [required .moduleName, optional .aliasName .absent]
      form := importForm }
  | .mojo, .decorator =>
    some {
      params := [required .name, listOr .args]
      form := named .decorator [shown .name, shown .args] }
  | .metal, .attributeMark | .mojo, .attributeMark =>
    some {
      params := [required .name, listOr .args]
      form := named .attributeMark [ticked .name, shown .args] }
  | .glsl, .layout =>
    some (regular .layout [.sectionName, .locationNumber, .dtype, .name, .ioType])
  | .glsl, .version =>
    some {
      params := [stored .number .versionNumber, required .profile]
      form := named .version [shown .versionNumber, shown .profile]
      plainForm := some [.lit "#version ", .shown .versionNumber, .lit " ", .shown .profile] }
  | .crossGl, .assignment | .glsl, .assignment => some (regular .assignment [.name, .value])
  | .hlsl, .assignment | .metal, .assignment | .mojo, .assignment =>
    some {
      params := [required .left, required .right, optional .operator (.text "=")]
      form := named .assignment [shown .left, ticked .operator, shown .right] }
  | .crossGl, .branch =>
    some {
      params := [required .ifCondition, required .ifBody, optional .elseIfConditions (.list []),
        optional .elseIfBodies (.list []), optional .elseBody .absent]
      form := named .branch
        ([.ifCondition, .ifBody, .elseIfConditions, .elseIfBodies, .elseBody].map shown) }
  | .hlsl, .branch | .mojo, .branch =>
    some {
      params := [required .condition, required .ifBody, optional .elseBody .absent]
      form := named .branch [shown .condition, shown .ifBody, shown .elseBody] }
  | .metal, .branch =>
    some {
      params := [listOr .ifChain, listOr .elseIfChain, optional .elseBody .absent]
      form := named .branch [shown .ifChain, shown .elseIfChain, shown .elseBody] }
  | .glsl, .branch =>
    some {
      params := [required .condition, required .ifBody, listOr .elseIfChain,
        optional .elseBody .absent]
      form := named .branch ([.condition, .ifBody, .elseIfChain, .elseBody].map shown) }
  | _, .forLoop => some (regular .forLoop [.init, .condition, .update, .body])
  | .mojo, .whileLoop => some (regular .whileLoop [.condition, .body])
  | .mojo, .switch => some (regular .switch [.expression, .cases])
  | .mojo, .switchCase => some (regular .switchCase [.condition, .body])
  | _, .returned => some (regular .returned [.value])
  | .crossGl, .binary | .hlsl, .binary => some (regular .binary [.left, .op, .right])
  | .metal, .binary | .glsl, .binary | .mojo, .binary =>
    some {
      params := [.left, .op, .right].map required
      form := named .binary [shown .left, shownAs "operator" .op, shown .right] }
  | .crossGl, .unary => some (regular .unary [.op, .operand])
  | .hlsl, .unary | .glsl, .unary =>
    some {
      params := [required .op, required .operand]
      form := named .unary [shownAs "operator" .op, shown .operand]
      plainForm := some [.lit "(", .shown .op, .shown .operand, .lit ")"] }
  | .metal, .unary | .mojo, .unary =>
    some {
      params := [required .op, required .operand]
      form := named .unary [shownAs "operator" .op, shown .operand] }
  | _, .ternary => some (regular .ternary [.condition, .trueExpr, .falseExpr])
  | _, .call => some (regular .call [.name, .args])
  | _, .member => some (regular .member [.object, .member])
  | .metal, .element | .mojo, .element => some (regular .element [.array, .index])
  | .hlsl, .construction | .metal, .construction | .mojo, .construction =>
    some (regular .construction [.typeName, .args])
  | .metal, .textureSample | .mojo, .textureSample =>
    some (regular .textureSample [.texture, .sampler, .coordinates])
  | .metal, .barrier | .mojo, .barrier => some (regular .barrier [])
  | .glsl, .constant => some { regular .constant [.value] with plainForm := some [.shown .value] }
  | _, _ => none

/-! ## §3 Building nodes -/

namespace Tree

/-- The value of a parameter among the given ones. -/
def argument (given : List (Field × Tree)) (p : Param) : Except Fault (Field × Tree) :=
  match (lookupField p.name given).or p.default? with
  | some t => .ok (p.field, if p.orEmptyList && !t.isSet then list [] else t)
  | none => .error .wrongSort

/-- Stores a value in a field, in place of what stood there. -/
def store (fields : List (Field × Tree)) (f : Field) (t : Tree) : List (Field × Tree) :=
  if fields.any (·.1 = f) then fields.map fun p => if p.1 = f then (f, t) else p
  else fields ++ [(f, t)]

/-- The node of a kind with the given values.  Values that are no parameters of the kind become
further fields. -/
def build (lang : Language) (k : NodeKind) (given : List (Field × Tree)) : Except Fault Tree :=
  match lang.shape? k with
  | none => .error .missingField
  | some shape => do
    let fields ← shape.params.mapM (argument given)
    -- What is no parameter is stored behind the parameters.
    let further := given.filter fun p => !shape.params.any (·.name = p.1)
    return node k (further.foldl (fun fs p => store fs p.1 p.2) fields)

end Tree

end ShaderBridge
