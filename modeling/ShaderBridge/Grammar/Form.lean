import ShaderBridge.Grammar.Ladder

/-!
# Forms that grammars share

HLSL and Metal read names, operands, plain statements and counted loops alike, and so do Metal and
Mojo with expressions and constant buffers.  The grammars differ in the node of a variable, in the
types that begin a value and in the expressions inside, which each form depends on.
-/

namespace ShaderBridge.Form

open ShaderBridge.Parser Ladder

/-- All comments are passed over. -/
abbrev tv : Trivia := .comments

/-! ## §1 Kinds of token by role -/

/-- What a declaration or an assignment begins with. -/
def declarationStarts : List TokenKind :=
  [.floatType, .floatVectorType, .intType, .uintType, .boolType, .identifier]

/-- The operators that assign. -/
def assignOperators : List TokenKind :=
  [.equals, .plusEquals, .minusEquals, .multiplyEquals, .divideEquals]

/-- The operators that make a statement with a name in front of them. -/
def statementOperators : List TokenKind :=
  [.plusEquals, .minusEquals, .multiplyEquals, .divideEquals, .equal]

section

variable (var : Tree → Tree → Tree) (expr : Parser Tree)

/-! ## §2 Expressions -/

/-- What goes on behind a name: the arguments of a call, members, or nothing. -/
def afterName (name : Tree) : Parser Tree := do
  match ← kind with
  | .leftParen => return Tree.call name (← looseArguments tv expr)
  | .dot => memberChain tv name
  | _ => return var (.text []) name

/-- A call, a member chain, or a name alone. -/
def name : Parser Tree := do
  let name ← expectText tv .identifier
  afterName var expr name

/-- What goes on behind a type at the front of an operand. -/
def afterType (typeName : Tree) : Parser Tree := do
  match ← kind with
  | .identifier => return var typeName (← takeText tv)
  | .leftParen => return Tree.construction typeName (← looseArguments tv expr)
  | _ => name var expr

/-- An operand, where values may begin with a type of the given kinds. -/
def operand (types : List TokenKind) : Parser Tree := do
  let k ← kind
  if k ∈ types then
    let typeName ← takeText tv
    afterType var expr typeName
  else if k = .identifier then name var expr
  else if k = .number then takeText tv
  else if k = .leftParen then parenthesized tv expr
  else reject (.unexpectedIn "in expression" k)

/-- A disjunction, an assignment to it from the right, or a choice that begins with it. -/
def expression (unary : Parser Tree) : Parser Tree := do
  let left ← disjunction tv unary
  if ← isAt assignOperators then
    let op ← takeText tv
    let right ← expr
    return Tree.assignmentBy left right op
  else choice tv expr left

/-! ## §3 Statements -/

/-- An expression and a semicolon. -/
def ended : Parser Tree := do
  let e ← expr
  let _ ← expect tv .semicolon
  return e

/-- A value behind an equals sign, and a semicolon. -/
def assigned : Parser Tree := do
  let _ ← expect tv .equals
  ended expr

/-- What goes on behind the first token of a declaration or an assignment. -/
def afterFirst (first : Tree) : Parser Tree := do
  let k ← kind
  if k = .identifier then
    let name ← takeText tv
    match ← kind with
    | .semicolon => do
      let _ ← take tv
      return var first name
    | .equals => return Tree.assignmentBy (var first name) (← assigned expr) (.text "=")
    -- A type and a name with nothing done to them: the next statement begins here.
    | _ => return .absent
  else if k = .equals then
    return Tree.assignmentBy (var (.text []) first) (← assigned expr) (.text "=")
  else if k = .dot then
    let left ← memberChain tv first
    if ← isAt [.equals] then
      return Tree.assignmentBy left (← assigned expr) (.text "=")
    else
      let _ ← expect tv .semicolon
      return left
  else if k ∈ statementOperators then
    let op ← takeText tv
    return Tree.binary (var (.text []) first) op (← ended expr)
  else ended expr

/-- A declaration, an assignment or an expression, told apart by what follows the first token. -/
def declaration : Parser Tree := do
  if ← isNotAt declarationStarts then ended expr
  else
    let first ← takeText tv
    afterFirst var expr first

/-- A return of a value. -/
def returned : Parser Tree := do
  let _ ← expect tv .returnWord
  return Tree.returned (← ended expr)

/-- The start of a loop: a variable of a type of the given kinds with its first value, or an
expression. -/
def loopStart (types : List TokenKind) : Parser Tree := do
  if ← isAt types then
    let vtype ← takeText tv
    let name ← expectText tv .identifier
    let _ ← expect tv .equals
    let value ← expr
    return Tree.assignmentBy (var vtype name) value (.text "=")
  else expr

/-- A counted loop. -/
def counted (types : List TokenKind) (block : Parser (List Tree)) : Parser Tree := do
  expectAll tv [.forWord, .leftParen]
  let init ← loopStart var expr types
  let _ ← expect tv .semicolon
  let condition ← ended expr
  let update ← expr
  let _ ← expect tv .rightParen
  return Tree.forLoop init condition update (← block)

/-- A block of statements in braces. -/
def block (statement : Parser Tree) : Parser (List Tree) := do
  let _ ← expect tv .leftBrace
  let stmts ← many (isNotAt [.rightBrace]) statement
  let _ ← expect tv .rightBrace
  return stmts

/-! ## §4 Constant buffers -/

/-- A member of a constant buffer. -/
def bufferMember : Parser Tree := do
  let vtype ← takeText tv
  let name ← expectText tv .identifier
  let _ ← expect tv .semicolon
  return var vtype name

/-- A constant buffer. -/
def constantBuffer : Parser Tree := do
  let _ ← expect tv .constantWord
  let name ← expectText tv .identifier
  let _ ← expect tv .leftBrace
  let members ← many (isNotAt [.rightBrace]) (bufferMember var)
  let _ ← expect tv .rightBrace
  return Tree.constantBuffer name members

end

end ShaderBridge.Form
