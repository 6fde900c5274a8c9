import ShaderBridge.Text.Basic

/-!
# Token kinds

The kinds of token that the token tables produce or the grammars ask for, over all languages.
A label that is none of theirs is kept as it is, so that every list of labelled texts is a list of
tokens.
-/

namespace ShaderBridge

/-- The kind of a token. -/
inductive TokenKind where
  | lineComment
  | blockComment
  | blank
  | endOfInput
  | identifier
  | number
  | decimal
  | stringWord
  | stringLiteral
  | semantic
  | attributeMark
  | directive
  | leftBrace
  | rightBrace
  | leftParen
  | rightParen
  | leftBracket
  | rightBracket
  | semicolon
  | comma
  | colon
  | dot
  | question
  | equals
  | equal
  | notEqual
  | lessThan
  | greaterThan
  | lessEqual
  | greaterEqual
  | plus
  | minus
  | multiply
  | divide
  | modulo
  | increment
  | decrement
  | preIncrement
  | preDecrement
  | postIncrement
  | postDecrement
  | and
  | or
  | not
  | xor
  | logicalAnd
  | logicalOr
  | bitAnd
  | bitOr
  | bitXor
  | bitNot
  | shiftLeft
  | shiftRight
  | assignAdd
  | assignSub
  | assignMul
  | assignDiv
  | assignMod
  | assignAnd
  | assignOr
  | assignXor
  | assignShiftLeft
  | assignShiftRight
  | plusEquals
  | minusEquals
  | multiplyEquals
  | divideEquals
  | voidType
  | boolType
  | booleanType
  | intType
  | uintType
  | floatType
  | doubleType
  | halfType
  | vectorType
  | floatVectorType
  | matrixType
  | sampler2dType
  | samplerType
  | samplerStateType
  | texture2dType
  | shaderWord
  | mainWord
  | inputWord
  | outputWord
  | uniformWord
  | vertexWord
  | fragmentWord
  | kernelWord
  | ifWord
  | elseWord
  | elseIfWord
  | forWord
  | whileWord
  | switchWord
  | caseWord
  | defaultWord
  | returnWord
  | constWord
  | constantWord
  | structWord
  | classWord
  | cbufferWord
  | registerWord
  | usingWord
  | namespaceWord
  | metalWord
  | deviceWord
  | threadgroupWord
  | threadWord
  | versionWord
  | coreWord
  | layoutWord
  | inWord
  | outWord
  | letWord
  | varWord
  | fnWord
  | defWord
  | importWord
  | asWord
  | decoratorWord
  /-- A kind that no table produces, known by its label only. -/
  | other (label : Text)
deriving DecidableEq, Repr, Inhabited

namespace TokenKind

/-- The label that messages print for a kind. -/
def label : TokenKind → Text
  | lineComment => "COMMENT_SINGLE"
  | blockComment => "COMMENT_MULTI"
  | blank => "WHITESPACE"
  | endOfInput => "EOF"
  | identifier => "IDENTIFIER"
  | number => "NUMBER"
  | decimal => "FLOAT_NUMBER"
  | stringWord => "STRING"
  | stringLiteral => "STRING_LITERAL"
  | semantic => "SEMANTIC"
  | attributeMark => "ATTRIBUTE"
  | directive => "PREPROCESSOR"
  | leftBrace => "LBRACE"
  | rightBrace => "RBRACE"
  | leftParen => "LPAREN"
  | rightParen => "RPAREN"
  | leftBracket => "LBRACKET"
  | rightBracket => "RBRACKET"
  | semicolon => "SEMICOLON"
  | comma => "COMMA"
  | colon => "COLON"
  | dot => "DOT"
  | question => "QUESTION"
  | equals => "EQUALS"
  | equal => "EQUAL"
  | notEqual => "NOT_EQUAL"
  | lessThan => "LESS_THAN"
  | greaterThan => "GREATER_THAN"
  | lessEqual => "LESS_EQUAL"
  | greaterEqual => "GREATER_EQUAL"
  | plus => "PLUS"
  | minus => "MINUS"
  | multiply => "MULTIPLY"
  | divide => "DIVIDE"
  | modulo => "MOD"
  | increment => "INCREMENT"
  | decrement => "DECREMENT"
  | preIncrement => "PRE_INCREMENT"
  | preDecrement => "PRE_DECREMENT"
  | postIncrement => "POST_INCREMENT"
  | postDecrement => "POST_DECREMENT"
  | and => "AND"
  | or => "OR"
  | not => "NOT"
  | xor => "XOR"
  | logicalAnd => "LOGICAL_AND"
  | logicalOr => "LOGICAL_OR"
  | bitAnd => "BITWISE_AND"
  | bitOr => "BITWISE_OR"
  | bitXor => "BITWISE_XOR"
  | bitNot => "BITWISE_NOT"
  | shiftLeft => "BITWISE_SHIFT_LEFT"
  | shiftRight => "BITWISE_SHIFT_RIGHT"
  | assignAdd => "ASSIGN_ADD"
  | assignSub => "ASSIGN_SUB"
  | assignMul => "ASSIGN_MUL"
  | assignDiv => "ASSIGN_DIV"
  | assignMod => "ASSIGN_MOD"
  | assignAnd => "ASSIGN_AND"
  | assignOr => "ASSIGN_OR"
  | assignXor => "ASSIGN_XOR"
  | assignShiftLeft => "ASSIGN_SHIFT_LEFT"
  | assignShiftRight => "ASSIGN_SHIFT_RIGHT"
  | plusEquals => "PLUS_EQUALS"
  | minusEquals => "MINUS_EQUALS"
  | multiplyEquals => "MULTIPLY_EQUALS"
  | divideEquals => "DIVIDE_EQUALS"
  | voidType => "VOID"
  | boolType => "BOOL"
  | booleanType => "BOOLEAN"
  | intType => "INT"
  | uintType => "UINT"
  | floatType => "FLOAT"
  | doubleType => "DOUBLE"
  | halfType => "HALF"
  | vectorType => "VECTOR"
  | floatVectorType => "FVECTOR"
  | matrixType => "MATRIX"
  | sampler2dType => "SAMPLER2D"
  | samplerType => "SAMPLER"
  | samplerStateType => "SAMPLER_STATE"
  | texture2dType => "TEXTURE2D"
  | shaderWord => "SHADER"
  | mainWord => "MAIN"
  | inputWord => "INPUT"
  | outputWord => "OUTPUT"
  | uniformWord => "UNIFORM"
  | vertexWord => "VERTEX"
  | fragmentWord => "FRAGMENT"
  | kernelWord => "KERNEL"
  | ifWord => "IF"
  | elseWord => "ELSE"
  | elseIfWord => "ELSE_IF"
  | forWord => "FOR"
  | whileWord => "WHILE"
  | switchWord => "SWITCH"
  | caseWord => "CASE"
  | defaultWord => "DEFAULT"
  | returnWord => "RETURN"
  | constWord => "CONST"
  | constantWord => "CONSTANT"
  | structWord => "STRUCT"
  | classWord => "CLASS"
  | cbufferWord => "CBUFFER"
  | registerWord => "REGISTER"
  | usingWord => "USING"
  | namespaceWord => "NAMESPACE"
  | metalWord => "METAL"
  | deviceWord => "DEVICE"
  | threadgroupWord => "THREADGROUP"
  | threadWord => "THREAD"
  | versionWord => "VERSION"
  | coreWord => "CORE"
  | layoutWord => "LAYOUT"
  | inWord => "IN"
  | outWord => "OUT"
  | letWord => "LET"
  | varWord => "VAR"
  | fnWord => "FN"
  | defWord => "DEF"
  | importWord => "IMPORT"
  | asWord => "AS"
  | decoratorWord => "DECORATOR"
  | other label => label

/-- The kinds with a name of their own. -/
def named : List TokenKind :=
  [.lineComment, .blockComment, .blank, .endOfInput, .identifier, .number, .decimal,
   .stringWord, .stringLiteral, .semantic, .attributeMark, .directive, .leftBrace,
   .rightBrace, .leftParen, .rightParen, .leftBracket, .rightBracket, .semicolon, .comma,
   .colon, .dot, .question, .equals, .equal, .notEqual, .lessThan, .greaterThan,
   .lessEqual, .greaterEqual, .plus, .minus, .multiply, .divide, .modulo, .increment,
   .decrement, .preIncrement, .preDecrement, .postIncrement, .postDecrement, .and, .or,
   .not, .xor, .logicalAnd, .logicalOr, .bitAnd, .bitOr, .bitXor, .bitNot, .shiftLeft,
   .shiftRight, .assignAdd, .assignSub, .assignMul, .assignDiv, .assignMod, .assignAnd,
   .assignOr, .assignXor, .assignShiftLeft, .assignShiftRight, .plusEquals, .minusEquals,
   .multiplyEquals, .divideEquals, .voidType, .boolType, .booleanType, .intType,
   .uintType, .floatType, .doubleType, .halfType, .vectorType, .floatVectorType,
   .matrixType, .sampler2dType, .samplerType, .samplerStateType, .texture2dType,
   .shaderWord, .mainWord, .inputWord, .outputWord, .uniformWord, .vertexWord,
   .fragmentWord, .kernelWord, .ifWord, .elseWord, .elseIfWord, .forWord, .whileWord,
   .switchWord, .caseWord, .defaultWord, .returnWord, .constWord, .constantWord,
   .structWord, .classWord, .cbufferWord, .registerWord, .usingWord, .namespaceWord,
   .metalWord, .deviceWord, .threadgroupWord, .threadWord, .versionWord, .coreWord,
   .layoutWord, .inWord, .outWord, .letWord, .varWord, .fnWord, .defWord, .importWord,
   .asWord, .decoratorWord]

/-- The kind with a given label. -/
def ofLabel (label : Text) : TokenKind :=
  (named.find? (·.label == label)).getD (.other label)

/-- The kinds of a comment. -/
def isComment : TokenKind → Bool
  | lineComment | blockComment => true
  | _ => false

end TokenKind

/-- A token: its kind and its text.  Only a token that stands for no characters lacks a text. -/
structure Token where
  kind : TokenKind
  text : Option Text
deriving DecidableEq, Repr, Inhabited

/-- What a reader sees past the last token. -/
def Token.pastEnd : Token := ⟨.endOfInput, none⟩

end ShaderBridge
