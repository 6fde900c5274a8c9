import ShaderBridge.Token.Lexicon

/-!
# Metal tokens

The token table of the Metal shading language.  Blanks and comments are dropped, and an
attribute between double brackets is one token.
-/

namespace ShaderBridge.Lexicon

/-- The rules of Metal, in order of preference. -/
def metalRules : List LexRule :=
  [⟨.lineComment, .lineFrom "//"⟩,
   ⟨.blockComment, .enclosed "/*" "*/" false⟩,
   ⟨.directive, .directive⟩,
   ⟨.structWord, .word ["struct"]⟩,
   ⟨.constantWord, .word ["constant"]⟩,
   ⟨.texture2dType, .word ["texture2d"]⟩,
   ⟨.samplerType, .word ["sampler"]⟩,
   ⟨.vectorType, .word ["float2", "float3", "float4", "half2", "half3", "half4",
      "int2", "int3", "int4", "uint2", "uint3", "uint4"]⟩,
   ⟨.floatType, .word ["float"]⟩,
   ⟨.halfType, .word ["half"]⟩,
   ⟨.intType, .word ["int"]⟩,
   ⟨.uintType, .word ["uint"]⟩,
   ⟨.question, .symbol "?"⟩,
   ⟨.boolType, .word ["bool"]⟩,
   ⟨.voidType, .word ["void"]⟩,
   ⟨.returnWord, .word ["return"]⟩,
   ⟨.elseIfWord, .elseIf true⟩,
   ⟨.ifWord, .word ["if"]⟩,
   ⟨.elseWord, .word ["else"]⟩,
   ⟨.forWord, .word ["for"]⟩,
   ⟨.kernelWord, .word ["kernel"]⟩,
   ⟨.vertexWord, .word ["vertex"]⟩,
   ⟨.fragmentWord, .word ["fragment"]⟩,
   ⟨.usingWord, .word ["using"]⟩,
   ⟨.namespaceWord, .word ["namespace"]⟩,
   ⟨.metalWord, .word ["metal"]⟩,
   ⟨.deviceWord, .word ["device"]⟩,
   ⟨.threadgroupWord, .word ["threadgroup"]⟩,
   ⟨.threadWord, .word ["thread"]⟩,
   ⟨.attributeMark, .enclosed "[[" "]]" true⟩,
   ⟨.identifier, .name⟩,
   ⟨.number, .number⟩,
   ⟨.leftBrace, .symbol r"{"⟩,
   ⟨.rightBrace, .symbol r"}"⟩,
   ⟨.leftParen, .symbol "("⟩,
   ⟨.rightParen, .symbol ")"⟩,
   ⟨.leftBracket, .symbol "["⟩,
   ⟨.rightBracket, .symbol "]"⟩,
   ⟨.semicolon, .symbol ";"⟩,
   ⟨.stringWord, .enclosed "\"" "\"" false⟩,
   ⟨.comma, .symbol ","⟩,
   ⟨.colon, .symbol ":"⟩,
   ⟨.lessEqual, .symbol "<="⟩,
   ⟨.greaterEqual, .symbol ">="⟩,
   ⟨.lessThan, .symbol "<"⟩,
   ⟨.greaterThan, .symbol ">"⟩,
   ⟨.equal, .symbol "=="⟩,
   ⟨.notEqual, .symbol "!="⟩,
   ⟨.plusEquals, .symbol "+="⟩,
   ⟨.minusEquals, .symbol "-="⟩,
   ⟨.multiplyEquals, .symbol "*="⟩,
   ⟨.divideEquals, .symbol "/="⟩,
   ⟨.plus, .symbol "+"⟩,
   ⟨.minus, .symbol "-"⟩,
   ⟨.multiply, .symbol "*"⟩,
   ⟨.divide, .symbol "/"⟩,
   ⟨.and, .symbol "&&"⟩,
   ⟨.or, .symbol "||"⟩,
   ⟨.dot, .symbol "."⟩,
   ⟨.equals, .symbol "="⟩,
   ⟨.blank, .blanks⟩]

/-- The names of Metal with a kind of their own. -/
def metalKeywords : List (Text × TokenKind) :=
  [("struct", .structWord), ("constant", .constantWord), ("texture2d", .texture2dType),
   ("sampler", .samplerType), ("float", .floatType), ("half", .halfType), ("int", .intType),
   ("uint", .uintType), ("bool", .boolType), ("void", .voidType), ("return", .returnWord),
   ("if", .ifWord), ("else", .elseWord), ("for", .forWord), ("kernel", .kernelWord),
   ("vertex", .vertexWord), ("fragment", .fragmentWord), ("using", .usingWord),
   ("namespace", .namespaceWord), ("metal", .metalWord), ("device", .deviceWord),
   ("threadgroup", .threadgroupWord), ("thread", .threadWord)]

/-- The token table of Metal. -/
def metal : Lexicon where
  rules := metalRules
  keywords := metalKeywords
  dropped := [.blank, .lineComment, .blockComment]
  endText := some []
  showsSource := false

end ShaderBridge.Lexicon
