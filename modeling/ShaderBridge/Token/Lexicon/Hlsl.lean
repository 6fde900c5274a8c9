import ShaderBridge.Token.Lexicon

/-!
# HLSL tokens

The token table of HLSL.  Blanks and comments are dropped.
-/

namespace ShaderBridge.Lexicon

/-- The rules of HLSL, in order of preference. -/
def hlslRules : List LexRule :=
  [⟨.lineComment, .lineFrom "//"⟩,
   ⟨.blockComment, .enclosed "/*" "*/" false⟩,
   ⟨.structWord, .word ["struct"]⟩,
   ⟨.cbufferWord, .word ["cbuffer"]⟩,
   ⟨.texture2dType, .word ["Texture2D"]⟩,
   ⟨.samplerStateType, .word ["SamplerState"]⟩,
   ⟨.floatVectorType, .word ["float2", "float3", "float4"]⟩,
   ⟨.floatType, .word ["float"]⟩,
   ⟨.intType, .word ["int"]⟩,
   ⟨.uintType, .word ["uint"]⟩,
   ⟨.boolType, .word ["bool"]⟩,
   ⟨.matrixType, .word ["float2x2", "float2x3", "float2x4", "float3x2", "float3x3",
      "float3x4", "float4x2", "float4x3", "float4x4"]⟩,
   ⟨.voidType, .word ["void"]⟩,
   ⟨.returnWord, .word ["return"]⟩,
   ⟨.ifWord, .word ["if"]⟩,
   ⟨.elseIfWord, .elseIf false⟩,
   ⟨.elseWord, .word ["else"]⟩,
   ⟨.forWord, .word ["for"]⟩,
   ⟨.registerWord, .word ["register"]⟩,
   ⟨.semantic, .semantic⟩,
   ⟨.identifier, .name⟩,
   ⟨.number, .number⟩,
   ⟨.leftBrace, .symbol r"{"⟩,
   ⟨.rightBrace, .symbol r"}"⟩,
   ⟨.leftParen, .symbol "("⟩,
   ⟨.rightParen, .symbol ")"⟩,
   ⟨.leftBracket, .symbol "["⟩,
   ⟨.rightBracket, .symbol "]"⟩,
   ⟨.semicolon, .symbol ";"⟩,
   ⟨.comma, .symbol ","⟩,
   ⟨.colon, .symbol ":"⟩,
   ⟨.question, .symbol "?"⟩,
   ⟨.lessEqual, .symbol "<="⟩,
   ⟨.greaterEqual, .symbol ">="⟩,
   ⟨.lessThan, .symbol "<"⟩,
   ⟨.greaterThan, .symbol ">"⟩,
   ⟨.equal, .symbol "=="⟩,
   ⟨.notEqual, .symbol "!="⟩,
   ⟨.plusEquals, .symbol "+="⟩,
   ⟨.minusEquals, .symbol "-="⟩,
   ⟨.multiplyEquals, .symbol "*="⟩,
   ⟨.divideEquals, .symbol "/="⟩,
   ⟨.and, .symbol "&&"⟩,
   ⟨.or, .symbol "||"⟩,
   ⟨.dot, .symbol "."⟩,
   ⟨.multiply, .symbol "*"⟩,
   ⟨.divide, .symbol "/"⟩,
   ⟨.plus, .symbol "+"⟩,
   ⟨.minus, .symbol "-"⟩,
   ⟨.equals, .symbol "="⟩,
   ⟨.blank, .blanks⟩]

/-- The names of HLSL with a kind of their own. -/
def hlslKeywords : List (Text × TokenKind) :=
  [("struct", .structWord), ("cbuffer", .cbufferWord), ("Texture2D", .texture2dType),
   ("SamplerState", .samplerStateType), ("float", .floatType), ("float2", .floatVectorType),
   ("float3", .floatVectorType), ("float4", .floatVectorType), ("int", .intType),
   ("uint", .uintType), ("bool", .boolType), ("void", .voidType), ("return", .returnWord),
   ("if", .ifWord), ("else", .elseWord), ("for", .forWord), ("register", .registerWord)]

/-- The token table of HLSL. -/
def hlsl : Lexicon where
  rules := hlslRules
  keywords := hlslKeywords
  dropped := [.blank, .lineComment, .blockComment]
  endText := some []
  showsSource := false

end ShaderBridge.Lexicon
