import ShaderBridge.Stage

/-!
# Dialects

CrossGL is written in three dialects: HLSL, Metal and GLSL.  They share the syntax of statements
and expressions.  This module holds what differs: the names of types, the gap behind a sign,
whether stage variables are members of an `input` and an `output` structure, and how the
interface of a stage is laid out.
-/

namespace ShaderBridge.Forward

/-- A language that CrossGL is written in. -/
inductive Dialect where
  | hlsl
  | metal
  | glsl
deriving DecidableEq, Repr

/-! ## §1 Names of types -/

/-- The types of CrossGL in HLSL. -/
def hlslTypes : List (Text × Text) :=
  [("void", "void"), ("vec2", "float2"), ("vec3", "float3"), ("vec4", "float4"),
   ("mat2", "float2x2"), ("mat3", "float3x3"), ("mat4", "float4x4"),
   ("int", "int"), ("ivec2", "int2"), ("ivec3", "int3"), ("ivec4", "int4"),
   ("uint", "uint"), ("uvec2", "uint2"), ("uvec3", "uint3"), ("uvec4", "uint4"),
   ("bool", "bool"), ("bvec2", "bool2"), ("bvec3", "bool3"), ("bvec4", "bool4"),
   ("float", "float"), ("double", "double"),
   ("sampler2D", "Texture2D"), ("samplerCube", "TextureCube")]

/-- The scalar types of CrossGL in Metal. -/
def metalScalars : List (Text × Text) :=
  [("void", "void"), ("short", "int"), ("signed short", "int"), ("unsigned short", "uint"),
   ("int", "int"), ("signed int", "int"), ("unsigned int", "uint"),
   ("long", "int64_t"), ("signed long", "int64_t"), ("unsigned long", "uint64_t"),
   ("float", "float"), ("half", "half"), ("bool", "bool")]

/-- The vector types and samplers of CrossGL in Metal. -/
def metalVectors : List (Text × Text) :=
  [("vec2", "float2"), ("vec3", "float3"), ("vec4", "float4"),
   ("ivec2", "int2"), ("ivec3", "int3"), ("ivec4", "int4"),
   ("uvec2", "uint2"), ("uvec3", "uint3"), ("uvec4", "uint4"),
   ("bvec2", "bool2"), ("bvec3", "bool3"), ("bvec4", "bool4"),
   ("sampler2D", "Texture2D"), ("samplerCube", "TextureCube")]

/-- The vector types that are named in the way of Metal. -/
def metalNativeVectors : List (Text × Text) :=
  [("short2", "int2"), ("short3", "int3"), ("short4", "int4"),
   ("ushort2", "uint2"), ("ushort3", "uint3"), ("ushort4", "uint4"),
   ("int2", "int2"), ("int3", "int3"), ("int4", "int4"),
   ("uint2", "uint2"), ("uint3", "uint3"), ("uint4", "uint4"),
   ("float2", "float2"), ("float3", "float3"), ("float4", "float4"),
   ("half2", "half2"), ("half3", "half3"), ("half4", "half4"),
   ("bool2", "bool2"), ("bool3", "bool3"), ("bool4", "bool4")]

/-- The matrix types of CrossGL in Metal. -/
def metalMatrices : List (Text × Text) :=
  [("mat2", "float2x2"), ("mat3", "float3x3"), ("mat4", "float4x4"),
   ("half2x2", "half2x2"), ("half3x3", "half3x3"), ("half4x4", "half4x4")]

/-- The types of CrossGL in Metal. -/
def metalTypes : List (Text × Text) :=
  metalScalars ++ metalVectors ++ metalNativeVectors ++ metalMatrices

/-- The character types, which become integers in Metal. -/
def charTypes : List (Text × Text) :=
  [("char", "int"), ("signed char", "int"), ("unsigned char", "uint"),
   ("char2", "int2"), ("char3", "int3"), ("char4", "int4"),
   ("uchar2", "uint2"), ("uchar3", "uint3"), ("uchar4", "uint4")]

/-- The integer type that stands for a character type. -/
def charType (vtype : Tree) : Except Fault Tree := vtype.rename charTypes

namespace Dialect

/-- The words that are renamed in expressions; GLSL renames none. -/
def words? : Dialect → Option (List (Text × Text))
  | hlsl => some hlslTypes
  | metal => some metalTypes
  | glsl => none

/-- The types that are renamed in declarations; GLSL renames none. -/
def types? : Dialect → Option (List (Text × Text))
  | hlsl => some hlslTypes
  | metal => some (charTypes ++ metalTypes)
  | glsl => none

/-- A word of an expression in the dialect. -/
def mapWord (d : Dialect) (word : Tree) : Except Fault Tree :=
  match d.words? with
  | some table => word.rename table
  | none => .ok word

/-- A type in the dialect. -/
def mapType (d : Dialect) (vtype : Tree) : Except Fault Tree :=
  match d.types? with
  | some table => vtype.rename table
  | none => .ok vtype

/-! ## §2 Expressions -/

/-- What stands between a sign and its operand. -/
def signGap : Dialect → Text
  | hlsl => " "
  | metal | glsl => ""

/-- Whether the variables of a stage are members of its `input` and `output`. -/
def hasStageStructs : Dialect → Bool
  | hlsl | metal => true
  | glsl => false

end Dialect

/-! ## §3 Interfaces -/

/-- A side of an interface: what a stage, or the shader as a whole, takes in or gives out. -/
inductive Channel where
  | sharedInput
  | sharedOutput
  | vertexInput
  | vertexOutput
  | fragmentInput
  | fragmentOutput
deriving DecidableEq, Repr

/-- What a stage takes in. -/
def Channel.inputOf : Stage → Channel
  | .vertex => vertexInput
  | .fragment => fragmentInput

/-- What a stage gives out. -/
def Channel.outputOf : Stage → Channel
  | .vertex => vertexOutput
  | .fragment => fragmentOutput

namespace Dialect

/-- The line of the `i`-th variable of a channel in HLSL. -/
def hlslLine (p : Channel) (i : Nat) (vtype name : Text) : Text :=
  let n := Text.ofNat i
  let semantic : Text :=
    match p with
    | .sharedInput => if i = 0 then "POSITION0" else "TEXCOORD" ++ n
    | .vertexInput => if i = 0 then "POSITION" else "TEXCOORD" ++ Text.ofNat (i - 1)
    | .vertexOutput | .fragmentInput => "TEXCOORD" ++ n
    | .sharedOutput | .fragmentOutput => "SV_TARGET" ++ n
  Text.cat ["    ", vtype, " ", name, " : ", semantic, ";\n"]

/-- The line of the `i`-th variable of a channel in Metal. -/
def metalLine (p : Channel) (i : Nat) (vtype name : Text) : Text :=
  let n := Text.ofNat i
  let mark : Text :=
    match p with
    | .sharedInput | .vertexInput => Text.cat [" [[attribute(", n, ")]]"]
    | .sharedOutput | .fragmentOutput => Text.cat [" [[color(", n, ")]]"]
    | .vertexOutput => ""
    | .fragmentInput => if i = 0 then " [[stage_in]]" else ""
  Text.cat ["    ", vtype, " ", name, mark, ";\n"]

/-- The line of the `i`-th variable of a channel in GLSL. -/
def glslLine (p : Channel) (i : Nat) (vtype name : Text) : Text :=
  let located (i : Nat) : Text := Text.cat ["layout(location = ", Text.ofNat i, ") "]
  let lead : Text :=
    match p with
    | .sharedInput | .vertexInput => located i ++ "in"
    | .sharedOutput | .fragmentOutput => located i ++ "out"
    | .vertexOutput => if i = 0 then "out" else located (i - 1) ++ "out"
    | .fragmentInput => if i = 0 then "in" else located (i - 1) ++ "in"
  Text.cat [lead, " ", vtype, " ", name, ";\n"]

/-- The line of the `i`-th variable of a channel. -/
def channelLine : Dialect → Channel → Nat → Text → Text → Text
  | hlsl => hlslLine
  | metal => metalLine
  | glsl => glslLine

/-- The name of the structure that holds a channel, where there is one. -/
def channelStruct : Dialect → Channel → Text
  | hlsl, .sharedInput => "VSINPUT"
  | hlsl, .sharedOutput => "VSOUTPUT"
  | hlsl, .vertexInput => "VSInput"
  | hlsl, .vertexOutput => "VSOutput"
  | hlsl, .fragmentInput => "PSInput"
  | hlsl, .fragmentOutput => "PSOutput"
  | metal, .sharedInput => "Global_INPUT"
  | metal, .sharedOutput => "Global_OUTPUT"
  | metal, .vertexInput => "Vertex_INPUT"
  | metal, .vertexOutput => "Vertex_OUTPUT"
  | metal, .fragmentInput => "Fragment_INPUT"
  | metal, .fragmentOutput => "Fragment_OUTPUT"
  | glsl, _ => ""

/-- The text of a channel with the given lines. -/
def channelText (d : Dialect) (p : Channel) (lines : Text) : Text :=
  match d with
  | hlsl | metal => Text.cat ["struct ", d.channelStruct p, r" {", "\n", lines, r"};", "\n\n"]
  | glsl => if p ∈ [.vertexOutput, .fragmentOutput] then lines ++ "\n" else lines

/-- Whether a channel is written even if it is not set.  It then has to be a sequence. -/
def alwaysWrites : Dialect → Channel → Bool
  | glsl, .sharedInput | glsl, .sharedOutput => true
  | _, _ => false

/-- The line that declares the position of a vertex. -/
def positionLine : Dialect → Text
  | hlsl => "   float4 position : SV_POSITION;\n"
  | metal => "    float4 position [[position]];\n"
  | glsl => ""

/-! ## §4 Fixed parts of a shader -/

/-- What a shader begins with. -/
def opening : Dialect → Text
  | hlsl => "\n"
  | metal => "#include <metal_stdlib>\nusing namespace metal;\n\n"
  | glsl => "#version 450\n\n"

/-- What stands behind the shared interface. -/
def afterShared : Dialect → Text
  | hlsl | metal => ""
  | glsl => "\n// Vertex shader\n\n"

/-- What a stage begins with. -/
def stageOpening : Dialect → Stage → Text
  | glsl, .fragment => "\n// Fragment shader\n\n"
  | _, _ => ""

/-- The type and parameters of a shared entry point, where it has a form of its own. -/
def sharedEntry : Dialect → Text × Text
  | hlsl => ("Global_OUTPUT", "Global_INPUT input")
  | metal => ("Global_OUTPUT", "Global_INPUT input [[stage_in]]")
  | glsl => ("", "")

/-- The first lines of the entry point of a stage, where it has a form of its own. -/
def entryOpening : Dialect → Stage → Text
  | hlsl, .vertex => Text.cat [r"VSOutput VSMain(VSInput input) {", "\n    VSOutput output;\n"]
  | hlsl, .fragment => Text.cat [r"PSOutput PSMain(PSInput input) {", "\n    PSOutput output;\n"]
  | metal, .vertex =>
    Text.cat [r"vertex Vertex_OUTPUT main(Vertex_INPUT input [[stage_in]]) {",
      "\n    Vertex_OUTPUT output;\n"]
  | metal, .fragment =>
    Text.cat [r"fragment Fragment_OUTPUT main(Fragment_INPUT input [[stage_in]]) {",
      "\n    Fragment_OUTPUT output;\n"]
  | glsl, _ => ""

end Dialect

end ShaderBridge.Forward
