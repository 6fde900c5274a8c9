import ShaderBridge.Token.Lexicon

/-!
# Mojo tokens

The token table of Mojo.  Blanks and comments are dropped.
-/

namespace ShaderBridge.Lexicon

/-- The rules of Mojo, in order of preference. -/
def mojoRules : List LexRule :=
  [⟨.lineComment, .lineFrom "#"⟩,
   ⟨.blockComment, .enclosed "\"\"\"" "\"\"\"" false⟩,
   ⟨.structWord, .word ["struct"]⟩,
   ⟨.letWord, .word ["let"]⟩,
   ⟨.varWord, .word ["var"]⟩,
   ⟨.fnWord, .word ["fn"]⟩,
   ⟨.returnWord, .word ["return"]⟩,
   ⟨.ifWord, .word ["if"]⟩,
   ⟨.elseWord, .word ["else"]⟩,
   ⟨.forWord, .word ["for"]⟩,
   ⟨.whileWord, .word ["while"]⟩,
   ⟨.importWord, .word ["import"]⟩,
   ⟨.defWord, .word ["def"]⟩,
   ⟨.intType, .word ["Int"]⟩,
   ⟨.floatType, .word ["Float"]⟩,
   ⟨.boolType, .word ["Bool"]⟩,
   ⟨.stringWord, .word ["String"]⟩,
   ⟨.identifier, .name⟩,
   ⟨.number, .number⟩,
   ⟨.leftBrace, .symbol r"{"⟩,
   ⟨.rightBrace, .symbol r"}"⟩,
   ⟨.leftParen, .symbol "("⟩,
   ⟨.rightParen, .symbol ")"⟩,
   ⟨.leftBracket, .symbol "["⟩,
   ⟨.rightBracket, .symbol "]"⟩,
   ⟨.semicolon, .symbol ";"⟩,
   ⟨.stringLiteral, .enclosed "\"" "\"" false⟩,
   ⟨.comma, .symbol ","⟩,
   ⟨.colon, .symbol ":"⟩,
   ⟨.lessEqual, .symbol "<="⟩,
   ⟨.greaterEqual, .symbol ">="⟩,
   ⟨.lessThan, .symbol "<"⟩,
   ⟨.greaterThan, .symbol ">"⟩,
   ⟨.equal, .symbol "=="⟩,
   ⟨.notEqual, .symbol "!="⟩,
   ⟨.plusEquals, .symbol "+="⟩,
   ⟨.minusEquals, .symbol "-="⟩,
   ⟨.multiplyEquals, .symbol "*="⟩,
   ⟨.divideEquals, .symbol "/="⟩,
   ⟨.plus, .symbol "+"⟩,
   ⟨.minus, .symbol "-"⟩,
   ⟨.multiply, .symbol "*"⟩,
   ⟨.divide, .symbol "/"⟩,
   ⟨.and, .symbol "&&"⟩,
   ⟨.or, .symbol "||"⟩,
   ⟨.dot, .symbol "."⟩,
   ⟨.equals, .symbol "="⟩,
   ⟨.blank, .blanks⟩]

/-- The names of Mojo with a kind of their own. -/
def mojoKeywords : List (Text × TokenKind) :=
  [("struct", .structWord), ("let", .letWord), ("var", .varWord), ("fn", .fnWord),
   ("return", .returnWord), ("if", .ifWord), ("else", .elseWord), ("for", .forWord),
   ("while", .whileWord), ("import", .importWord), ("def", .defWord), ("Int", .intType),
   ("Float", .floatType), ("Bool", .boolType), ("String", .stringWord)]

/-- The token table of Mojo. -/
def mojo : Lexicon where
  rules := mojoRules
  keywords := mojoKeywords
  dropped := [.blank, .lineComment, .blockComment]
  endText := some []
  showsSource := false

end ShaderBridge.Lexicon
