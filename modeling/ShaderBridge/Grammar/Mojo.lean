import ShaderBridge.Grammar.Attribute
import ShaderBridge.Grammar.Form

/-!
# The Mojo grammar

A Mojo source is a list of imports, structures, classes, constant buffers, functions, declarations
and decorators; other tokens of the top level are passed over.  A block opens with a colon or a
brace and runs to a closing brace or the end of the source.

A name may be annotated with a type behind a colon, which then is the type of the variable.  A
method call keeps the name of the method and its arguments, not the object.  A class reads on to
its closing brace, and never ends without it.
-/

namespace ShaderBridge.Mojo

open ShaderBridge.Parser Ladder Attribute

/-- All comments are passed over. -/
abbrev tv : Trivia := .comments

/-! ## §1 Kinds of token by role -/

/-- The types that have a kind of their own. -/
def builtinTypes : List TokenKind := [.intType, .floatType, .boolType, .stringWord]

/-- What a declaration or an assignment begins with. -/
def declarationStarts : List TokenKind :=
  [.floatType, .intType, .uintType, .boolType, .identifier, .letWord, .varWord]

/-- What a parameter begins with. -/
def parameterStarts : List TokenKind :=
  [.floatType, .intType, .uintType, .boolType, .identifier]

/-- The keywords that open an item of the top level. -/
def itemWords : List TokenKind := [.fnWord, .structWord, .classWord, .letWord, .varWord]

/-! ## §2 Expressions -/

/-- A variable without attributes. -/
def var (vtype name : Tree) : Tree := Tree.attributedVar vtype name []

/-- A colon and the type behind it. -/
def annotation? : Parser (Option Tree) := do
  if ← isAt [.colon] then
    let _ ← take tv
    some <$> takeText tv
  else return none

/-- Arguments in parentheses with a comma between neighbours, and perhaps one behind the last. -/
def argumentsWith (expr : Parser Tree) : Parser (List Tree) := do
  let _ ← expect tv .leftParen
  let args ← many (isNotAt [.rightParen]) (do
    let e ← expr
    match ← kind with
    | .comma => do
      let _ ← take tv
      return e
    | .rightParen => return e
    | k => reject (.expected "COMMA or RPAREN" k))
  let _ ← expect tv .rightParen
  return args

/-- A chain of at most `n` members of an object, which a method call ends. -/
def memberAt (expr : Parser Tree) : Nat → Tree → Parser Tree
  | 0, _ => throw .endless
  | n + 1, object => do
    let _ ← expect tv .dot
    if ← isNotAt [.identifier] then
      reject (.expected "IDENTIFIER after dot" (← kind))
    let member ← takeText tv
    match ← kind with
    -- A method call ends the chain and drops the object.
    | .leftParen => return Tree.call member (← argumentsWith expr)
    | .dot => memberAt expr n (Tree.memberOf object member)
    | _ => return Tree.memberOf object member

/-- A chain of members of an object, which a method call ends. -/
def memberWith (expr : Parser Tree) (object : Tree) : Parser Tree :=
  nested fun n => memberAt expr n object

/-- A call, a member chain, a name with or without an annotation, or a number. -/
def nameOrCallWith (expr : Parser Tree) : Parser Tree := do
  match ← kind with
  | .identifier => do
    let name ← takeText tv
    match ← kind with
    | .leftParen => return Tree.call name (← argumentsWith expr)
    | .dot => memberWith expr name
    | _ => return var ((← annotation?).getD (.text [])) name
  | .number => takeText tv
  | k => reject (.expected "IDENTIFIER or NUMBER" k)

/-- An operand. -/
def primaryWith (expr : Parser Tree) : Parser Tree := do
  let k ← kind
  if k ∈ builtinTypes then
    let typeName ← takeText tv
    if ← isAt [.identifier] then
      let name ← takeText tv
      return var ((← annotation?).getD typeName) name
    else nameOrCallWith expr
  else if k ∈ [.identifier, .number] then nameOrCallWith expr
  else if k = .leftParen then parenthesized tv expr
  else if k ∈ itemWords then reject (.unexpectedKeyword k)
  else reject (.unexpectedIn "in expression" k)

/-- A signed operand. -/
def unaryWith (expr : Parser Tree) : Parser Tree := signed tv .byText (primaryWith expr)

/-- A disjunction, an assignment to it from the right, or a choice that begins with it. -/
def expressionWith (expr : Parser Tree) : Parser Tree := Form.expression expr (unaryWith expr)

/-- An expression nested at most `n` deep. -/
def expressionAt : Nat → Parser Tree
  | 0 => throw .endless
  | n + 1 => expressionWith (expressionAt n)

/-- An expression. -/
def expression : Parser Tree := nested expressionAt

/-- The call of a function. -/
def callOf (name : Tree) : Parser Tree := do return Tree.call name (← argumentsWith expression)

/-- A value made by naming its type. -/
def constructionOf (typeName : Tree) : Parser Tree := do
  return Tree.construction typeName (← looseArguments tv expression)

/-! ## §3 Plain statements -/

/-- An expression and a semicolon. -/
def expressionStatement : Parser Tree := Form.ended expression

/-- A declaration with its keyword, or an expression.  The annotated type is not kept. -/
def declarationOrAssignment : Parser Tree := do
  if ← isAt [.letWord, .varWord] then
    let word ← take tv
    let name ← expectText tv .identifier
    let _ ← annotation?
    let value ←
      if ← isAt [.equals] then
        let _ ← take tv
        expression
      else pure .absent
    accept tv .semicolon
    return .node .declaration
      [(.varType, .text word.kind.label), (.name, name), (.initialValue, value)]
  else expression

/-- A return of a value. -/
def returnStatement : Parser Tree := do
  let _ ← expect tv .returnWord
  let value ← expression
  accept tv .semicolon
  return Tree.returned value

/-- An import, perhaps under another name. -/
def importStatement : Parser Tree := do
  let _ ← expect tv .importWord
  let name ← expectText tv .identifier
  let nickname ←
    if ← isAt [.asWord] then
      let _ ← take tv
      expectText tv .identifier
    else pure .absent
  accept tv .semicolon
  return .node .importDef [(.moduleName, name), (.aliasName, nickname)]

/-- A decorator.  Its name is the text of the token behind it, which is left to be read. -/
def decorator : Parser Tree := do
  let _ ← expect tv .decoratorWord
  -- The name is looked at and not read.
  let name ← text
  let args ← if ← isAt [.leftParen] then looseArguments tv expression else pure []
  return .node .decorator [(.name, name), (.args, .list args)]

/-! ## §4 Structures and constant buffers -/

/-- A member of a structure; its type is the annotated one, or else its keyword. -/
def structMember : Parser Tree := do
  let word ← if ← isAt [.letWord, .varWord] then takeText tv else pure .absent
  let name ← expectText tv .identifier
  let vtype := (← annotation?).getD word
  return Tree.attributedVar vtype name (← attributes tv)

/-- A structure, whose members run to the next function, structure, class or the end. -/
def struct : Parser Tree := do
  let _ ← expect tv .structWord
  let name ← expectText tv .identifier
  let _ ← expect tv .colon
  let members ← many (isNotAt [.endOfInput, .fnWord, .structWord, .classWord]) structMember
  return Tree.struct name members

/-- A constant buffer. -/
def constantBuffer : Parser Tree := Form.constantBuffer var

/-! ## §5 Functions and compound statements -/

/-- A parameter.  The annotated type takes the place of the first token, and a name behind it is
the name of the parameter. -/
def parameter : Parser Tree := do
  let before ← attributes tv
  if ← isNotAt parameterStarts then reject (.unexpectedIn "in parameter list" (← kind))
  let first ← takeText tv
  let vtype := (← annotation?).getD first
  let name ← if ← isAt [.identifier] then takeText tv else pure (.text [])
  let after ← attributes tv
  return Tree.attributedVar vtype name (before ++ after)

/-- The parameters in front of a closing parenthesis. -/
def parameters : Parser (List Tree) :=
  many (isNotAt [.rightParen]) (do
    let p ← parameter
    match ← kind with
    | .comma => do
      let _ ← take tv
      -- A comma promises another parameter.
      if ← isAt [.rightParen] then reject .trailingComma
      return p
    | .rightParen => return p
    | k => reject (.expected "comma or closing parenthesis" k))

/-- An arrow and the type behind it; a minus sign alone is passed over. -/
def returnType : Parser Tree := do
  if ← isAt [.minus] then
    let _ ← take tv
    if ← isAt [.greaterThan] then
      let _ ← take tv
      takeText tv
    else return .absent
  else return .absent

/-- A function. -/
def functionWith (block : Parser (List Tree)) : Parser Tree := do
  let before ← attributes tv
  let qualifier ← if ← isAt [.fnWord] then takeText tv else pure .absent
  let name ← expectText tv .identifier
  let _ ← expect tv .leftParen
  let params ← parameters
  let _ ← expect tv .rightParen
  let vtype ← returnType
  let after ← attributes tv
  let body ← block
  return Tree.qualifiedFunction qualifier vtype name params body (before ++ after)

/-- A branch with at most one alternative. -/
def branchWith (block : Parser (List Tree)) : Parser Tree := do
  let _ ← expect tv .ifWord
  let condition ← parenthesized tv expression
  let ifBody ← block
  let elseBody ←
    if ← isAt [.elseWord] then
      let _ ← take tv
      pure (.list (← block))
    else pure .absent
  return Tree.branch condition ifBody elseBody

/-- A counted loop. -/
def forWith (block : Parser (List Tree)) : Parser Tree := do
  expectAll tv [.forWord, .leftParen]
  let init ← declarationOrAssignment
  let _ ← expect tv .semicolon
  let condition ← expressionStatement
  let update ← expression
  let _ ← expect tv .rightParen
  return Tree.forLoop init condition update (← block)

/-- A loop with a condition. -/
def whileWith (block : Parser (List Tree)) : Parser Tree := do
  let _ ← expect tv .whileWord
  let condition ← parenthesized tv expression
  return .node .whileLoop [(.condition, condition), (.body, .list (← block))]

/-- A case of a switch. -/
def switchCaseWith (block : Parser (List Tree)) : Parser Tree := do
  match ← kind with
  | .caseWord => do
    let _ ← take tv
    let condition ← expression
    let _ ← expect tv .colon
    return .node .switchCase [(.condition, condition), (.body, .list (← block))]
  | .defaultWord => do
    let _ ← take tv
    let _ ← expect tv .colon
    return .node .switchCase [(.condition, .absent), (.body, .list (← block))]
  | k => reject (.unexpectedIn "in switch case" k)

/-- A switch with its cases. -/
def switchWith (block : Parser (List Tree)) : Parser Tree := do
  let _ ← expect tv .switchWord
  let value ← parenthesized tv expression
  let _ ← expect tv .leftBrace
  let cases ← many (isNotAt [.rightBrace]) (switchCaseWith block)
  let _ ← expect tv .rightBrace
  return .node .switch [(.expression, value), (.cases, .list cases)]

/-- A statement. -/
def statementWith (block : Parser (List Tree)) : Parser Tree := do
  let k ← kind
  if k ∈ declarationStarts then declarationOrAssignment
  else if k = .fnWord then functionWith block
  else if k = .ifWord then branchWith block
  else if k = .forWord then forWith block
  else if k = .whileWord then whileWith block
  else if k = .returnWord then returnStatement
  else if k = .switchWord then switchWith block
  else if k = .structWord then struct
  else expressionStatement

/-- A block of statements, nested at most `n` deep. -/
def blockAt : Nat → Parser (List Tree)
  | 0 => throw .endless
  | n + 1 => do
    if ← isNotAt [.colon, .leftBrace] then
      reject (.expected "COLON or LBRACE" (← kind))
    let _ ← take tv
    let stmts ← many (isNotAt [.rightBrace, .endOfInput]) (statementWith (blockAt n))
    accept tv .rightBrace
    return stmts

/-- A block of statements. -/
def block : Parser (List Tree) := nested blockAt

/-- A statement. -/
def statement : Parser Tree := statementWith block

/-- A function. -/
def function : Parser Tree := functionWith block

/-! ## §6 Classes and modules -/

/-- The names of the base classes, in parentheses. -/
def baseClasses : Parser (List Tree) := do
  if ← isAt [.leftParen] then
    let _ ← take tv
    let names ← untilClose tv .comma .rightParen (expectText tv .identifier)
    let _ ← expect tv .rightParen
    return names
  else return []

/-- Reads one item of a class; a token that opens none is passed over. -/
def classItemWith (inner : Parser Tree) (found : List Tree) : Parser (List Tree) := do
  let k ← kind
  if k = .fnWord then return found ++ [← function]
  else if k ∈ [.letWord, .varWord] then return found ++ [← declarationOrAssignment]
  else if k = .classWord then return found ++ [← inner]
  else
    let _ ← take tv
    return found

/-- A class, nested at most `n` deep. -/
def classAt : Nat → Parser Tree
  | 0 => throw .endless
  | n + 1 => do
    let _ ← expect tv .classWord
    let name ← expectText tv .identifier
    let bases ← baseClasses
    let _ ← expect tv .leftBrace
    let members ← loop (isNotAt [.rightBrace]) (classItemWith (classAt n)) []
    let _ ← expect tv .rightBrace
    return .node .classDef
      [(.name, name), (.baseClasses, .list bases), (.members, .list members)]

/-- A class. -/
def classDef : Parser Tree := nested classAt

/-- Reads one item of a module. -/
def moduleItem (found : List Tree) : Parser (List Tree) := do
  let k ← kind
  if k = .importWord then return found ++ [← importStatement]
  else if k = .structWord then return found ++ [← struct]
  else if k = .classWord then return found ++ [← classDef]
  else if k = .constantWord then return found ++ [← constantBuffer]
  else if k = .fnWord then return found ++ [← function]
  else if k ∈ [.letWord, .varWord] then return found ++ [← declarationOrAssignment]
  else if k = .decoratorWord then return found ++ [← decorator]
  else
    let _ ← take tv
    return found

/-- The items of a module. -/
def moduleItems : Parser Tree := do
  return Tree.program (← loop (isNotAt [.endOfInput]) moduleItem [])

/-- A whole source. -/
def source : Parser Tree := do
  let t ← moduleItems
  let _ ← expect tv .endOfInput
  return t

end ShaderBridge.Mojo
