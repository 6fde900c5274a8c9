import ShaderBridge.Spirv.Statement

/-!
# SPIR-V modules

A module declares its interface, its types, its variables and its functions, and then defines the
functions.  A type is declared once, however many inputs and outputs have it.
-/

namespace ShaderBridge.Spirv

/-! ## §1 Interfaces -/

/-- One sequence behind another of the same sort. -/
def sequence : Tree → Tree → Except Fault Tree
  | .list xs, .list ys => .ok (.list (xs ++ ys))
  | .tuple xs, .tuple ys => .ok (.tuple (xs ++ ys))
  | .text s, .text t => .ok (.text (s ++ t))
  | _, _ => .error .wrongSort

/-- The pairs of type and name in a sequence. -/
def pairs (t : Tree) : Except Fault (List (Tree × Tree)) := do (← t.items).mapM Tree.pair

/-- Numbers the variables of a sequence. -/
def locations (t : Tree) : Except Fault Text := do
  let lines := (← pairs t).zipIdx.map fun ((_, name), i) =>
    Text.cat ["OpDecorate %", plain name, " Location ", Text.ofNat i, "\n"]
  return Text.cat lines

/-! ## §2 Declarations -/

/-- The first of each group of equal values. -/
def distinct : List Tree → List Tree
  | [] => []
  | t :: rest => t :: (distinct rest).filter fun u => !t.same u

/-- The fixed types. -/
def fixedTypes : Text :=
  Text.cat
    ["%void = OpTypeVoid\n", "%bool = OpTypeBool\n", "%float = OpTypeFloat 32\n",
     "%int = OpTypeInt 32 1\n", "%uint = OpTypeInt 32 0\n"]

/-- The types of the inputs and outputs, behind the fixed types.  They are a set, so their order is
a choice: it is that of their first occurrence. -/
def types : Gen State Text := do
  let s ← get
  let pairs ← (do (← sequence s.inputs s.outputs).items : Except Fault _)
  let keys ← pairs.mapM fun t => do
    let (vtype, _) ← (t.pair : Except Fault _)
    checkName vtype
  -- Each type takes one number.
  let lines ← (distinct keys).mapM fun vtype => do
    let components ← (mapType vtype : Except Fault _)
    let n ← fresh
    modify fun s => { s with types := s.types.put vtype n }
    return Text.cat ["%", plain vtype, " = OpTypeVector %float ", plain components, "\n"]
  return fixedTypes ++ Text.cat lines

/-- Declares a variable of a storage class. -/
def globalVariable (storage : Text) (t : Tree) : Gen State Text := do
  let (vtype, name) ← (t.pair : Except Fault _)
  -- The pointer type takes a number that is not used.
  let _ ← fresh
  let n ← fresh
  let key ← checkName name
  modify fun s => { s with vars := s.vars.put key n }
  let pointer := Text.cat ["%_ptr_", storage, "_", plain vtype]
  return Text.cat
    [pointer, " = OpTypePointer ", storage, " %", plain vtype, "\n",
     "%", plain name, " = OpVariable ", pointer, " ", storage, "\n"]

/-- The variables of the outputs and of the inputs. -/
def globalVariables : Gen State Text := do
  let outs ← (← ((← get).outputs.items : Except Fault _)).mapM (globalVariable "Output")
  let ins ← (← ((← get).inputs.items : Except Fault _)).mapM (globalVariable "Input")
  return Text.cat (outs ++ ins)

/-- The constants. -/
def constants : Text :=
  Text.cat
    ["%float_0 = OpConstant %float 0\n", "%float_1 = OpConstant %float 1\n",
     "%int_0 = OpConstant %int 0\n", "%int_1 = OpConstant %int 1\n",
     "%int_3 = OpConstant %int 3\n"]

/-! ## §3 Functions -/

/-- Declares the type of a function.  Gives the number of the type and the declaration. -/
def functionType (t : Tree) : Gen State (Nat × Text) := do
  let result ← (do mapType (← t.get .returnType) : Except Fault _)
  let params ← (do (← (← t.get .params).items).mapM fun p => do mapType (← p.item 0)
    : Except Fault _)
  let n ← fresh
  let name ← checkName (← (t.get .name : Except Fault _))
  modify fun s => { s with functionTypes := s.functionTypes.put name n }
  return (n, Text.cat
    [ref n, " = OpTypeFunction %", plain result, Text.cat (params.map fun p => " %" ++ plain p),
     "\n"])

/-- A parameter of a function. -/
def parameter (t : Tree) : Gen State Text := do
  let (vtype, name) ← (t.pair : Except Fault _)
  let n ← fresh
  let mapped ← (mapType vtype : Except Fault _)
  let key ← checkName name
  modify fun s => { s with vars := s.vars.put key n }
  return Text.cat [ref n, " = OpFunctionParameter %", plain mapped, "\n"]

/-- The number of the type of a function.  A name that is a node equals no other name, so the type
is then the one that was declared for the function itself, if there is one. -/
def typeNumber (own? : Option Nat) (name : Tree) : Gen State Nat := do
  match name, own? with
  | .node _ _, some n => return n
  | name, _ => number (← get).functionTypes name

/-- Defines a function whose type was declared, possibly under a number of its own. -/
def function (own? : Option Nat) (t : Tree) : Gen State Text := do
  let n ← fresh
  let name ← checkName (← (t.get .name : Except Fault _))
  modify fun s => { s with functions := s.functions.put name n }
  let returnType ← (t.get .returnType : Except Fault _)
  let result ← (mapType returnType : Except Fault _)
  let signature ← typeNumber own? name
  let params ← (do (← t.get .params).items : Except Fault _)
  let paramLines ← params.mapM parameter
  let start ← fresh
  let stmts ← (do (← t.get .body).items : Except Fault _)
  let lines ← stmts.mapM statement
  let ending : Text := if returnType.isText "void" then "OpReturn\n" else "OpUnreachable\n"
  return Text.cat
    [ref n, " = OpFunction %", plain result, " None ", ref signature, "\n",
     Text.cat paramLines, label start, Text.cat lines, ending, "OpFunctionEnd\n"]

/-! ## §4 Modules -/

/-- The comments and the capability that a module begins with. -/
def heading : Text :=
  Text.cat
    ["; SPIR-V\n", "; Version: 1.0\n", "; Generator: Custom Vulkan SPIR-V CodeGen\n",
     "; Bound: 101\n", "; Schema: 0\n", "OpCapability Shader\n"]

/-- The line that imports the instruction set.  Its number does not come from the counter. -/
def importLine : Text := "%1 = OpExtInstImport \"GLSL.std.450\"\n"

/-- What a module begins with. -/
def opening : Text := heading ++ importLine ++ "OpMemoryModel Logical GLSL450\n"

/-- The entry point, the names and the locations of the interface. -/
def interface (inputs outputs : Tree) : Except Fault Text := do
  let names := (← pairs (← sequence inputs outputs)).map fun v => plain v.2
  let args := Text.join " " (names.map fun n => '%' :: n)
  let nameLines := names.map fun n => Text.cat ["OpName %", n, " \"", n, "\"\n"]
  return Text.cat
    ["OpEntryPoint Fragment %main \"main\" ", args, "\n",
     "OpExecutionMode %main OriginUpperLeft\n", "OpSource GLSL 450\n",
     "OpName %main \"main\"\n", Text.cat nameLines, ← locations inputs, ← locations outputs]

/-- What stands behind the opening: the interface, the declarations and the functions. -/
def content (t inputs outputs : Tree) : Gen State Text := do
  let interfaceText ← (interface inputs outputs : Except Fault _)
  let typeLines ← types
  let variableLines ← globalVariables
  let functions ← (do (← t.get .functions).items : Except Fault _)
  let declared ← functions.mapM functionType
  let defined ← (functions.zip declared).mapM fun (f, n, _) => function (some n) f
  return Text.cat
    [interfaceText, typeLines, variableLines, constants, Text.cat (declared.map (·.2)),
     Text.cat defined]

/-- The module of a shader. -/
def shader (t : Tree) : Gen State Text := do
  let inputs ← (t.get .inputs : Except Fault _)
  modify fun s => { s with inputs }
  let outputs ← (t.get .outputs : Except Fault _)
  modify fun s => { s with outputs, next := 1 }
  return opening ++ (← content t inputs outputs)

/-- The module of a shader, or nothing for any other tree. -/
def generate (t : Tree) : Gen State Text := do
  if t.isNode .shader then shader t else return []

end ShaderBridge.Spirv
