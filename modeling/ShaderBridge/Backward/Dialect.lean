import ShaderBridge.Language
import ShaderBridge.Tree.Basic

/-!
# Dialects with stage structures

HLSL and Metal pass the inputs and outputs of a stage in structures.  Both are written back to
CrossGL by one converter; this module holds what differs between them.
-/

namespace ShaderBridge.Backward

/-- A language that is written back to CrossGL and has stage structures. -/
inductive Dialect where
  | hlsl
  | metal
deriving DecidableEq, Repr

/-- The types of HLSL in CrossGL. -/
def hlslTypes : List (Text × Text) :=
  [("void", "void"), ("float2", "vec2"), ("float3", "vec3"), ("float4", "vec4"),
   ("float2x2", "mat2"), ("float3x3", "mat3"), ("float4x4", "mat4"),
   ("int", "int"), ("int2", "ivec2"), ("int3", "ivec3"), ("int4", "ivec4"),
   ("uint", "uint"), ("uint2", "uvec2"), ("uint3", "uvec3"), ("uint4", "uvec4"),
   ("bool", "bool"), ("bool2", "bvec2"), ("bool3", "bvec3"), ("bool4", "bvec4"),
   ("float", "float"), ("double", "double"),
   ("Texture2D", "sampler2D"), ("TextureCube", "samplerCube")]

/-- The types of Metal in CrossGL. -/
def metalTypes : List (Text × Text) :=
  [("void", "void"), ("int", "short"), ("uint", "unsigned short"), ("int64_t", "long"),
   ("uint64_t", "unsigned long"), ("float", "float"), ("half", "half"), ("bool", "bool"),
   ("float2", "vec2"), ("float3", "vec3"), ("float4", "vec4"),
   ("int2", "short2"), ("int3", "short3"), ("int4", "short4"),
   ("uint2", "ushort2"), ("uint3", "ushort3"), ("uint4", "ushort4"),
   ("bool2", "bvec2"), ("bool3", "bvec3"), ("bool4", "bvec4"),
   ("Texture2D", "sampler2D"), ("TextureCube", "samplerCube"),
   ("float2x2", "mat2"), ("float3x3", "mat3"), ("float4x4", "mat4"),
   ("half2x2", "half2x2"), ("half3x3", "half3x3"), ("half4x4", "half4x4")]

namespace Dialect

/-- The language that trees of a dialect are read from. -/
def language : Dialect → Language
  | hlsl => .hlsl
  | metal => .metal

/-- The types of a dialect in CrossGL. -/
def types : Dialect → List (Text × Text)
  | hlsl => hlslTypes
  | metal => metalTypes

/-- A type in CrossGL.  A type that is not in the table is lost; a value that is not set stays. -/
def mapType (d : Dialect) (vtype : Tree) : Except Fault Tree := do
  if vtype.isSet then return Tree.ofText? (← vtype.find d.types) else return vtype

/-- The structures that stages give out.  A variable of such a type is not declared. -/
def outputStructs : Dialect → List Text
  | hlsl => ["VSOutput", "PSOutput"]
  | metal => ["Vertex_OUTPUT", "Fragment_OUTPUT"]

/-- What stands around a signed operand. -/
def aroundSign : Dialect → Text × Text
  | hlsl => ("", "")
  | metal => ("(", ")")

end Dialect

end ShaderBridge.Backward
