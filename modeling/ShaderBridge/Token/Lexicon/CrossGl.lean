import ShaderBridge.Token.Lexicon

/-!
# CrossGL tokens

The token table of CrossGL.  Comments are tokens; only blanks are dropped.
-/

namespace ShaderBridge.Lexicon

/-- The rules of CrossGL, in order of preference. -/
def crossGlRules : List LexRule :=
  [⟨.lineComment, .lineFrom "//"⟩,
   ⟨.blockComment, .enclosed "/*" "*/" false⟩,
   ⟨.shaderWord, .word ["shader"]⟩,
   ⟨.inputWord, .word ["input"]⟩,
   ⟨.outputWord, .word ["output"]⟩,
   ⟨.voidType, .word ["void"]⟩,
   ⟨.mainWord, .word ["main"]⟩,
   ⟨.uniformWord, .word ["uniform"]⟩,
   ⟨.vectorType, .word ["vec2", "vec3", "vec4"]⟩,
   ⟨.matrixType, .word ["mat2", "mat3", "mat4"]⟩,
   ⟨.boolType, .word ["bool"]⟩,
   ⟨.vertexWord, .word ["vertex"]⟩,
   ⟨.fragmentWord, .word ["fragment"]⟩,
   ⟨.decimal, .decimal⟩,
   ⟨.floatType, .word ["float"]⟩,
   ⟨.intType, .word ["int"]⟩,
   ⟨.uintType, .word ["uint"]⟩,
   ⟨.doubleType, .word ["double"]⟩,
   ⟨.sampler2dType, .word ["sampler2D"]⟩,
   ⟨.identifier, .name⟩,
   ⟨.assignShiftRight, .symbol ">>="⟩,
   ⟨.assignShiftLeft, .symbol "<<="⟩,
   ⟨.number, .number⟩,
   ⟨.leftBrace, .symbol r"{"⟩,
   ⟨.rightBrace, .symbol r"}"⟩,
   ⟨.leftParen, .symbol "("⟩,
   ⟨.rightParen, .symbol ")"⟩,
   ⟨.semicolon, .symbol ";"⟩,
   ⟨.comma, .symbol ","⟩,
   ⟨.assignAdd, .symbol "+="⟩,
   ⟨.assignSub, .symbol "-="⟩,
   ⟨.assignMul, .symbol "*="⟩,
   ⟨.assignDiv, .symbol "/="⟩,
   ⟨.blank, .blanks⟩,
   ⟨.ifWord, .word ["if"]⟩,
   ⟨.elseWord, .word ["else"]⟩,
   ⟨.forWord, .word ["for"]⟩,
   ⟨.returnWord, .word ["return"]⟩,
   ⟨.shiftLeft, .symbol "<<"⟩,
   ⟨.shiftRight, .symbol ">>"⟩,
   ⟨.lessEqual, .symbol "<="⟩,
   ⟨.greaterEqual, .symbol ">="⟩,
   ⟨.greaterThan, .symbol ">"⟩,
   ⟨.lessThan, .symbol "<"⟩,
   ⟨.increment, .symbol "++"⟩,
   ⟨.decrement, .symbol "--"⟩,
   ⟨.equal, .symbol "=="⟩,
   ⟨.notEqual, .symbol "!="⟩,
   ⟨.assignAnd, .symbol "&="⟩,
   ⟨.assignOr, .symbol "|="⟩,
   ⟨.assignXor, .symbol "^="⟩,
   ⟨.logicalAnd, .symbol "&&"⟩,
   ⟨.logicalOr, .symbol "||"⟩,
   ⟨.xor, .symbol "^"⟩,
   ⟨.not, .symbol "!"⟩,
   ⟨.assignMod, .symbol "%="⟩,
   ⟨.modulo, .symbol "%"⟩,
   ⟨.increment, .symbol "++"⟩,
   ⟨.decrement, .symbol "--"⟩,
   ⟨.plus, .symbol "+"⟩,
   ⟨.minus, .symbol "-"⟩,
   ⟨.multiply, .symbol "*"⟩,
   ⟨.divide, .symbol "/"⟩,
   ⟨.dot, .symbol "."⟩,
   ⟨.equals, .symbol "="⟩,
   ⟨.question, .symbol "?"⟩,
   ⟨.colon, .symbol ":"⟩,
   ⟨.constWord, .word ["const"]⟩,
   ⟨.bitAnd, .symbol "&"⟩,
   ⟨.bitOr, .symbol "|"⟩,
   ⟨.bitXor, .symbol "^"⟩,
   ⟨.bitNot, .symbol "~"⟩]

/-- The names of CrossGL with a kind of their own. -/
def crossGlKeywords : List (Text × TokenKind) :=
  [("shader", .shaderWord), ("input", .inputWord), ("output", .outputWord),
   ("void", .voidType), ("main", .mainWord), ("vertex", .vertexWord),
   ("fragment", .fragmentWord), ("if", .ifWord), ("else", .elseWord), ("for", .forWord),
   ("return", .returnWord), ("const", .constWord)]

/-- The token table of CrossGL. -/
def crossGl : Lexicon where
  rules := crossGlRules
  keywords := crossGlKeywords
  dropped := [.blank]
  endText := none
  showsSource := true

end ShaderBridge.Lexicon
