import ShaderBridge.Token.Lexicon

/-!
# GLSL tokens

The token table of GLSL.  Comments are tokens, since a line comment can open a shader section;
only blanks are dropped.  Increments and decrements have different kinds in front of a word and
behind one.
-/

namespace ShaderBridge.Lexicon

/-- The rules of GLSL, in order of preference. -/
def glslRules : List LexRule :=
  [⟨.lineComment, .lineFrom "//"⟩,
   ⟨.blockComment, .enclosed "/*" "*/" false⟩,
   ⟨.elseIfWord, .elseIf true⟩,
   ⟨.versionWord, .symbol "#version"⟩,
   ⟨.number, .number⟩,
   ⟨.coreWord, .word ["core"]⟩,
   ⟨.shaderWord, .word ["shader"]⟩,
   ⟨.inputWord, .word ["input"]⟩,
   ⟨.outputWord, .word ["output"]⟩,
   ⟨.voidType, .word ["void"]⟩,
   ⟨.mainWord, .word ["main"]⟩,
   ⟨.uniformWord, .word ["uniform"]⟩,
   ⟨.vectorType, .word ["vec2", "vec3", "vec4"]⟩,
   ⟨.matrixType, .word ["mat2", "mat3", "mat4"]⟩,
   ⟨.boolType, .word ["bool"]⟩,
   ⟨.floatType, .word ["float"]⟩,
   ⟨.intType, .word ["int"]⟩,
   ⟨.sampler2dType, .word ["sampler2D"]⟩,
   ⟨.preIncrement, .beforeWord "++"⟩,
   ⟨.preDecrement, .beforeWord "--"⟩,
   ⟨.postIncrement, .afterWord "++"⟩,
   ⟨.postDecrement, .afterWord "--"⟩,
   ⟨.identifier, .name⟩,
   ⟨.leftBrace, .symbol r"{"⟩,
   ⟨.rightBrace, .symbol r"}"⟩,
   ⟨.leftParen, .symbol "("⟩,
   ⟨.rightParen, .symbol ")"⟩,
   ⟨.semicolon, .symbol ";"⟩,
   ⟨.comma, .symbol ","⟩,
   ⟨.assignAdd, .symbol "+="⟩,
   ⟨.assignSub, .symbol "-="⟩,
   ⟨.assignMul, .symbol "*="⟩,
   ⟨.assignDiv, .symbol "/="⟩,
   ⟨.equal, .symbol "=="⟩,
   ⟨.notEqual, .symbol "!="⟩,
   ⟨.blank, .blanks⟩,
   ⟨.ifWord, .word ["if"]⟩,
   ⟨.elseWord, .word ["else"]⟩,
   ⟨.forWord, .word ["for"]⟩,
   ⟨.returnWord, .word ["return"]⟩,
   ⟨.lessEqual, .symbol "<="⟩,
   ⟨.greaterEqual, .symbol ">="⟩,
   ⟨.lessThan, .symbol "<"⟩,
   ⟨.greaterThan, .symbol ">"⟩,
   ⟨.notEqual, .symbol "!="⟩,
   ⟨.and, .symbol "&&"⟩,
   ⟨.or, .symbol "||"⟩,
   ⟨.not, .symbol "!"⟩,
   ⟨.plus, .symbol "+"⟩,
   ⟨.minus, .symbol "-"⟩,
   ⟨.multiply, .symbol "*"⟩,
   ⟨.divide, .symbol "/"⟩,
   ⟨.dot, .symbol "."⟩,
   ⟨.equals, .symbol "="⟩,
   ⟨.question, .symbol "?"⟩,
   ⟨.colon, .symbol ":"⟩,
   ⟨.layoutWord, .word ["layout"]⟩,
   ⟨.inWord, .word ["in"]⟩,
   ⟨.outWord, .word ["out"]⟩]

/-- The names of GLSL with a kind of their own. -/
def glslKeywords : List (Text × TokenKind) :=
  [("void", .voidType), ("main", .mainWord), ("vertex", .vertexWord),
   ("fragment", .fragmentWord), ("if", .ifWord), ("else", .elseWord), ("for", .forWord),
   ("return", .returnWord), ("layout", .layoutWord), ("in", .inWord), ("out", .outWord)]

/-- The token table of GLSL. -/
def glsl : Lexicon where
  rules := glslRules
  keywords := glslKeywords
  dropped := [.blank]
  endText := none
  showsSource := true

end ShaderBridge.Lexicon
