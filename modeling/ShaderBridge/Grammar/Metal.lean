import ShaderBridge.Grammar.Attribute
import ShaderBridge.Grammar.Form

/-!
# The Metal grammar

A Metal source is a list of structures, constant buffers and functions; directives and `using`
statements are read without being kept, and other tokens of the top level are passed over.  A
directive with an opening angle bracket reads on to the closing one, and never ends without it.

Consecutive branches form one node, whose chain holds each of them.  A statement that begins with
a vector or half type is an expression.
-/

namespace ShaderBridge.Metal

open ShaderBridge.Parser Ladder Attribute

/-- All comments are passed over. -/
abbrev tv : Trivia := .comments

/-! ## §1 Kinds of token by role -/

/-- The types that a constructed value may have. -/
def valueTypes : List TokenKind :=
  [.intType, .uintType, .floatType, .halfType, .boolType, .vectorType]

/-- What a statement that is no branch, loop or return begins with. -/
def statementStarts : List TokenKind := .identifier :: valueTypes

/-- The qualifiers of a function. -/
def qualifiers : List TokenKind := [.vertexWord, .fragmentWord, .kernelWord]

/-- What a function begins with. -/
def functionStarts : List TokenKind :=
  qualifiers ++ [.voidType, .floatType, .halfType, .intType, .uintType, .boolType, .vectorType,
    .identifier]

/-- The types of a parameter. -/
def parameterTypes : List TokenKind :=
  [.floatType, .halfType, .intType, .uintType, .boolType, .vectorType, .identifier,
   .texture2dType, .samplerType]

/-- The types that may stand between angle brackets. -/
def innerTypes : List TokenKind := [.floatType, .intType, .uintType, .vectorType]

/-! ## §2 Expressions -/

/-- A variable without attributes. -/
def var (vtype name : Tree) : Tree := Tree.attributedVar vtype name []

/-- A call, a member chain, or a name alone. -/
def nameOrCallWith (expr : Parser Tree) : Parser Tree := Form.name var expr

/-- An operand. -/
def primaryWith (expr : Parser Tree) : Parser Tree := Form.operand var expr valueTypes

/-- A signed operand. -/
def unaryWith (expr : Parser Tree) : Parser Tree := signed tv .byText (primaryWith expr)

/-- A disjunction, an assignment to it from the right, or a choice that begins with it. -/
def expressionWith (expr : Parser Tree) : Parser Tree := Form.expression expr (unaryWith expr)

/-- An expression nested at most `n` deep. -/
def expressionAt : Nat → Parser Tree
  | 0 => throw .endless
  | n + 1 => expressionWith (expressionAt n)

/-- An expression. -/
def expression : Parser Tree := nested expressionAt

/-- The call of a function. -/
def callOf (name : Tree) : Parser Tree := do
  return Tree.call name (← looseArguments tv expression)

/-- A value made by naming its type. -/
def constructionOf (typeName : Tree) : Parser Tree := do
  return Tree.construction typeName (← looseArguments tv expression)

/-- A texture sampled at coordinates. -/
def textureSample : Parser Tree := do
  let texture ← expression
  expectAll tv [.dot, .identifier, .leftParen]
  let sampler ← expression
  let _ ← expect tv .comma
  let coordinates ← expression
  let _ ← expect tv .rightParen
  return .node .textureSample
    [(.texture, texture), (.sampler, sampler), (.coordinates, coordinates)]

/-! ## §3 Plain statements -/

/-- An expression and a semicolon. -/
def expressionStatement : Parser Tree := Form.ended expression

/-- A declaration, an assignment or an expression, told apart by what follows the first token. -/
def declarationOrAssignment : Parser Tree := Form.declaration var expression

/-- A return of a value. -/
def returnStatement : Parser Tree := Form.returned expression

/-! ## §4 Compound statements -/

/-- A keyword, a condition in parentheses and a block, as a pair of condition and body. -/
def guarded (word : TokenKind) (block : Parser (List Tree)) : Parser Tree := do
  let _ ← expect tv word
  let condition ← parenthesized tv expression
  return .tuple [condition, .list (← block)]

/-- Consecutive branches with the alternatives behind them. -/
def branchWith (block : Parser (List Tree)) : Parser Tree := do
  -- Branches that follow each other without an `else` join one chain.
  let ifChain ← many (isAt [.ifWord]) (guarded .ifWord block)
  let elseIfChain ← many (isAt [.elseIfWord]) (guarded .elseIfWord block)
  let elseBody ←
    if ← isAt [.elseWord] then
      let _ ← take tv
      pure (.list (← block))
    else pure .absent
  return .node .branch
    [(.ifChain, .list ifChain), (.elseIfChain, .list elseIfChain), (.elseBody, elseBody)]

/-- A counted loop, perhaps over an integer variable. -/
def forWith (block : Parser (List Tree)) : Parser Tree :=
  Form.counted var expression [.intType, .uintType] block

/-- A statement. -/
def statementWith (block : Parser (List Tree)) : Parser Tree := do
  let k ← kind
  if k ∈ statementStarts then declarationOrAssignment
  else if k = .ifWord then branchWith block
  else if k = .forWord then forWith block
  else if k = .returnWord then returnStatement
  else expressionStatement

/-- A block of statements in braces, nested at most `n` deep. -/
def blockAt : Nat → Parser (List Tree)
  | 0 => throw .endless
  | n + 1 => Form.block (statementWith (blockAt n))

/-- A block of statements in braces. -/
def block : Parser (List Tree) := nested blockAt

/-- A statement. -/
def statement : Parser Tree := statementWith block

/-! ## §5 Directives and declarations -/

/-- A directive with what stands in angle brackets or quotes behind it. -/
def directive : Parser Unit := do
  let _ ← expect tv .directive
  match ← kind with
  | .lessThan => do
    let _ ← take tv
    -- Everything up to the closing bracket is passed over.
    loop (isNotAt [.greaterThan]) (fun _ => do let _ ← take tv) ()
    let _ ← expect tv .greaterThan
  | .stringWord => do
    let _ ← take tv
  | _ => return ()

/-- The statement that opens the Metal namespace. -/
def usingStatement : Parser Unit :=
  expectAll tv [.usingWord, .namespaceWord, .metalWord, .semicolon]

/-- A member of a structure. -/
def structMember : Parser Tree := do
  let vtype ← takeText tv
  let name ← expectText tv .identifier
  let marks ← attributes tv
  let _ ← expect tv .semicolon
  return Tree.attributedVar vtype name marks

/-- A structure. -/
def struct : Parser Tree := do
  let _ ← expect tv .structWord
  let name ← expectText tv .identifier
  let _ ← expect tv .leftBrace
  let members ← many (isNotAt [.rightBrace]) structMember
  expectAll tv [.rightBrace, .semicolon]
  return Tree.struct name members

/-- A constant buffer. -/
def constantBuffer : Parser Tree := Form.constantBuffer var

/-- A type with another type in angle brackets behind it, as one text. -/
def withInner (outer inner : Tree) : Parser Tree :=
  match outer with
  | .text s => return .text (Text.cat [s, "<", inner.textOr "None", ">"])
  | _ => throw .wrongSort

/-- The type of a parameter. -/
def parameterType : Parser Tree := do
  let outer ← takeText tv
  if ← isAt [.lessThan] then
    let _ ← take tv
    let whole ←
      if ← isAt innerTypes then
        -- The two types become one text.
        let whole ← withInner outer (← text)
        let _ ← take tv
        pure whole
      else pure outer
    let _ ← expect tv .greaterThan
    return whole
  else return outer

/-- A parameter; it may lack a name. -/
def parameter : Parser Tree := do
  let before ← attributes tv
  if ← isNotAt parameterTypes then reject (.unexpectedIn "in parameter list" (← kind))
  let vtype ← parameterType
  let name ← if ← isAt [.identifier] then takeText tv else pure (.text [])
  let after ← attributes tv
  return Tree.attributedVar vtype name (before ++ after)

/-- The parameters in front of a closing parenthesis. -/
def parameters : Parser (List Tree) :=
  many (isNotAt [.rightParen]) (do
    let p ← parameter
    match ← kind with
    | .comma => do
      let _ ← take tv
      return p
    | .rightParen => return p
    | k => reject (.expected "comma or closing parenthesis" k))

/-- A function.  A qualifier may stand in front of the return type or behind it. -/
def function : Parser Tree := do
  let before ← attributes tv
  let first ← if ← isAt qualifiers then some <$> takeText tv else pure none
  let returnType ← takeText tv
  let second ← if ← isAt qualifiers then some <$> takeText tv else pure none
  let name ← expectText tv .identifier
  let _ ← expect tv .leftParen
  let params ← parameters
  let _ ← expect tv .rightParen
  let after ← attributes tv
  let body ← block
  return Tree.qualifiedFunction (qualifier first second) returnType name params body
    (before ++ after)
where
  /-- The qualifier that counts: the first, unless it is missing. -/
  qualifier : Option Tree → Option Tree → Tree
    | some .absent, some t => t
    | some t, _ => t
    | none, second => second.getD .absent

/-- Reads one item of a source. -/
def shaderItem (found : List Tree) : Parser (List Tree) := do
  let k ← kind
  if k = .directive then
    directive
    return found
  else if k = .usingWord then
    usingStatement
    return found
  else if k = .structWord then return found ++ [← struct]
  else if k = .constantWord then return found ++ [← constantBuffer]
  else if k ∈ functionStarts then return found ++ [← function]
  else
    let _ ← take tv
    return found

/-- The items of a source. -/
def shader : Parser Tree := do
  return Tree.program (← loop (isNotAt [.endOfInput]) shaderItem [])

/-- A whole source. -/
def source : Parser Tree := do
  let t ← shader
  let _ ← expect tv .endOfInput
  return t

end ShaderBridge.Metal
