import ShaderBridge.Grammar.Form

/-!
# The HLSL grammar

An HLSL source is a list of structures and functions; other tokens of the top level are passed
over.  Of the structures, the inputs and outputs of the two stages are kept, known by their names.

A statement that begins with a name or a type is read by what follows its first token.  A name
in front of a parenthesis is dropped and the parenthesised expression is the statement; a type and
a name in front of anything but a semicolon or an equals sign give no statement at all.
-/

namespace ShaderBridge.Hlsl

open ShaderBridge.Parser Ladder
open Form (assignOperators declarationStarts)

/-- All comments are passed over. -/
abbrev tv : Trivia := .comments

/-! ## §1 Kinds of token by role -/

/-- The types that a loop variable or a constructed value may have. -/
def valueTypes : List TokenKind := [.intType, .floatType, .floatVectorType]

/-- What a function begins with. -/
def functionStarts : List TokenKind := [.voidType, .floatType, .floatVectorType, .identifier]

/-! ## §2 Expressions -/

/-- A variable without a semantic. -/
def var (vtype name : Tree) : Tree := Tree.semanticVar vtype name .absent

/-- A call, a member chain, or a name alone. -/
def nameOrCallWith (expr : Parser Tree) : Parser Tree := Form.name var expr

/-- An operand. -/
def primaryWith (expr : Parser Tree) : Parser Tree := Form.operand var expr valueTypes

/-- A signed operand. -/
def unaryWith (expr : Parser Tree) : Parser Tree := signed tv .byText (primaryWith expr)

/-- Disjunctions joined from the left by assignments, or a choice that begins with them. -/
def expressionWith (expr : Parser Tree) : Parser Tree := do
  let first ← disjunction tv (unaryWith expr)
  let left ← loop (isAt assignOperators) (fun left => do
    let op ← takeText tv
    let right ← disjunction tv (unaryWith expr)
    return Tree.assignmentBy left right op) first
  choice tv expr left

/-- An expression nested at most `n` deep. -/
def expressionAt : Nat → Parser Tree
  | 0 => throw .endless
  | n + 1 => expressionWith (expressionAt n)

/-- An expression. -/
def expression : Parser Tree := nested expressionAt

/-- Disjunctions joined from the right by plain assignments, nested at most `n` deep. -/
def assignmentAt : Nat → Parser Tree
  | 0 => throw .endless
  | n + 1 => do
    let left ← disjunction tv (unaryWith expression)
    if ← isAt [.equals] then
      let _ ← take tv
      let right ← assignmentAt n
      return Tree.assignmentBy left right (.text "=")
    else return left

/-- Disjunctions joined from the right by plain assignments. -/
def assignment : Parser Tree := nested assignmentAt

/-- The call of a function. -/
def callOf (name : Tree) : Parser Tree := do
  return Tree.call name (← looseArguments tv expression)

/-- A value made by naming its type. -/
def constructionOf (typeName : Tree) : Parser Tree := do
  return Tree.construction typeName (← looseArguments tv expression)

/-! ## §3 Plain statements -/

/-- An expression and a semicolon. -/
def expressionStatement : Parser Tree := Form.ended expression

/-- A declaration, an assignment or an expression, told apart by what follows the first token. -/
def declarationOrAssignment : Parser Tree := Form.declaration var expression

/-- A return of a value. -/
def returnStatement : Parser Tree := Form.returned expression

/-! ## §4 Compound statements -/

/-- A condition in parentheses and a block. -/
def guarded (block : Parser (List Tree)) : Parser (Tree × List Tree) := do
  let condition ← parenthesized tv expression
  return (condition, ← block)

/-- What stands behind a branch: a block, another branch, or nothing. -/
def alternative (block : Parser (List Tree)) (another : Parser Tree) : Parser Tree := do
  match ← kind with
  | .elseWord => do
    let _ ← take tv
    return .list (← block)
  | .elseIfWord => another
  | _ => return .absent

/-- A branch behind another one, in a chain of at most `n`. -/
def elseIfAt (block : Parser (List Tree)) : Nat → Parser Tree
  | 0 => throw .endless
  | n + 1 => do
    let _ ← expect tv .elseIfWord
    let (condition, ifBody) ← guarded block
    return Tree.branch condition ifBody (← alternative block (elseIfAt block n))

/-- A branch behind another one. -/
def elseIfWith (block : Parser (List Tree)) : Parser Tree := nested (elseIfAt block)

/-- A branch with its alternatives. -/
def branchWith (block : Parser (List Tree)) : Parser Tree := do
  let _ ← expect tv .ifWord
  let (condition, ifBody) ← guarded block
  return Tree.branch condition ifBody (← alternative block (elseIfWith block))

/-- A counted loop. -/
def forWith (block : Parser (List Tree)) : Parser Tree :=
  Form.counted var expression valueTypes block

/-- A statement. -/
def statementWith (block : Parser (List Tree)) : Parser Tree := do
  let k ← kind
  if k ∈ declarationStarts then declarationOrAssignment
  else if k = .ifWord then branchWith block
  else if k = .forWord then forWith block
  else if k = .returnWord then returnStatement
  else expressionStatement

/-- A block of statements in braces, nested at most `n` deep. -/
def blockAt : Nat → Parser (List Tree)
  | 0 => throw .endless
  | n + 1 => Form.block (statementWith (blockAt n))

/-- A block of statements in braces. -/
def block : Parser (List Tree) := nested blockAt

/-- A statement. -/
def statement : Parser Tree := statementWith block

/-! ## §5 Declarations and shaders -/

/-- A member of a structure. -/
def member : Parser Tree := do
  let vtype ← takeText tv
  let name ← expectText tv .identifier
  let semantic ← if ← isAt [.semantic] then takeText tv else pure .absent
  let _ ← expect tv .semicolon
  return Tree.semanticVar vtype name semantic

/-- The name and members of a structure; its closing brace is left to be read. -/
def structParts : Parser (Tree × List Tree) := do
  let _ ← expect tv .structWord
  let name ← expectText tv .identifier
  let _ ← expect tv .leftBrace
  return (name, ← many (isNotAt [.rightBrace]) member)

/-- A structure. -/
def struct : Parser Tree := do
  let (name, members) ← structParts
  return Tree.struct name members

/-- A parameter; its semantic is not kept. -/
def parameter : Parser Tree := do
  let vtype ← takeText tv
  let name ← expectText tv .identifier
  accept tv .semantic
  return var vtype name

/-- The parameters in front of a closing parenthesis. -/
def parameters : Parser (List Tree) := untilClose tv .comma .rightParen parameter

/-- A function; its semantic is not kept. -/
def function : Parser Tree := do
  let returnType ← takeText tv
  let name ← expectText tv .identifier
  let _ ← expect tv .leftParen
  let params ← parameters
  let _ ← expect tv .rightParen
  accept tv .semantic
  return Tree.function returnType name params (← block)

/-- What a source holds. -/
structure ShaderItems where
  vertexInput : Tree := .absent
  vertexOutput : Tree := .absent
  fragmentInput : Tree := .absent
  fragmentOutput : Tree := .absent
  functions : List Tree := []

/-- Keeps a structure if its name is that of a stage's interface. -/
def ShaderItems.keep (s : ShaderItems) (name struct : Tree) : ShaderItems :=
  if name.isText "VSInput" then { s with vertexInput := struct }
  else if name.isText "VSOutput" then { s with vertexOutput := struct }
  else if name.isText "PSInput" then { s with fragmentInput := struct }
  else if name.isText "PSOutput" then { s with fragmentOutput := struct }
  else s

/-- Reads one item of a source. -/
def shaderItem (s : ShaderItems) : Parser ShaderItems := do
  let k ← kind
  if k = .structWord then
    let (name, members) ← structParts
    return s.keep name (Tree.struct name members)
  else if k ∈ functionStarts then return { s with functions := s.functions ++ [← function] }
  else
    let _ ← take tv
    return s

/-- The items of a source. -/
def shader : Parser Tree := do
  let s ← loop (isNotAt [.endOfInput]) shaderItem {}
  return .node .shader
    [(.vertexInput, s.vertexInput), (.vertexOutput, s.vertexOutput),
     (.fragmentInput, s.fragmentInput), (.fragmentOutput, s.fragmentOutput),
     (.functions, .list s.functions)]

/-- A whole source. -/
def source : Parser Tree := do
  let t ← shader
  let _ ← expect tv .endOfInput
  return t

end ShaderBridge.Hlsl
