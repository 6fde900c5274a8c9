import ShaderBridge.Grammar.Ladder

/-!
# The CrossGL grammar

A CrossGL source is one shader: inputs, uniforms and outputs, then functions and the two sections,
for vertices and for fragments.  Of each section kind the last one counts, and uniforms are read
without being kept.

Operators inside expressions are kept by the label of their kind, operators of statements by their
text.  Expressions have the rungs product, sum and choice, and above them a single rung for every
other operator.
-/

namespace ShaderBridge.CrossGl

open ShaderBridge.Parser Ladder

/-- All comments are passed over. -/
abbrev tv : Trivia := .comments

/-! ## §1 Kinds of token by role -/

/-- The types that have a kind of their own and values of their own. -/
def valueTypes : List TokenKind :=
  [.vectorType, .floatType, .doubleType, .uintType, .intType, .matrixType]

/-- The types of inputs, outputs and uniforms. -/
def interfaceTypes : List TokenKind := .sampler2dType :: valueTypes

/-- The types that a function may return. -/
def returnTypes : List TokenKind := .voidType :: valueTypes

/-- What a plain statement of a section begins with. -/
def sectionStarts : List TokenKind := .identifier :: valueTypes

/-- What a plain statement of a function body begins with: no matrix type is among them. -/
def bodyStarts : List TokenKind :=
  [.vectorType, .identifier, .floatType, .doubleType, .uintType, .intType]

/-- The operators of an assignment statement behind an increment. -/
def updateOperators : List TokenKind :=
  [.equals, .assignAdd, .assignSub, .assignMul, .assignDiv, .lessThan, .greaterThan, .lessEqual,
   .greaterEqual, .assignAnd, .assignOr, .assignXor, .assignMod, .shiftRight, .shiftLeft,
   .assignShiftRight]

/-- The operators of an assignment statement. -/
def assignOperators : List TokenKind := .equal :: updateOperators

/-- The operators of the topmost rung. -/
def outerOperators : List TokenKind :=
  [.lessThan, .greaterThan, .lessEqual, .greaterEqual, .equal, .notEqual, .logicalAnd, .logicalOr,
   .plus, .minus, .multiply, .divide, .equals, .assignAdd, .assignSub, .assignMul, .assignDiv,
   .assignAnd, .assignOr, .assignXor, .assignMod, .shiftRight, .shiftLeft, .assignShiftRight]

/-! ## §2 Expressions -/

/-- A call, a member chain, or a name alone. -/
def nameOrCallWith (expr : Parser Tree) : Parser Tree := do
  let name ← if ← isAt valueTypes then takeText tv else expectText tv .identifier
  match ← kind with
  | .leftParen => return Tree.call name (← strictArguments tv expr)
  | .dot => memberChain tv name
  | _ => return Tree.var (.text []) name

/-- An operand. -/
def primaryWith (expr : Parser Tree) : Parser Tree := do
  let k ← kind
  if k = .leftParen then parenthesized tv expr
  else if k ∈ [.number, .decimal] then takeText tv
  else if k ∈ sectionStarts then nameOrCallWith expr
  else reject (.unexpectedIn "in expression" k)

/-- A signed operand. -/
def unaryWith (expr : Parser Tree) : Parser Tree := signed tv .byLabel (primaryWith expr)

/-- Products of signed operands. -/
def productWith (expr : Parser Tree) : Parser Tree := product tv .byLabel (unaryWith expr)

/-- Sums of products. -/
def sumWith (expr : Parser Tree) : Parser Tree := sum tv .byLabel (unaryWith expr)

/-- A sum, or a choice that begins with one. -/
def choiceWith (expr : Parser Tree) : Parser Tree := do choice tv expr (← sumWith expr)

/-- Choices joined by the operators of the topmost rung. -/
def expressionWith (expr : Parser Tree) : Parser Tree :=
  rung tv .byLabel outerOperators (choiceWith expr)

/-- An expression nested at most `n` deep. -/
def expressionAt : Nat → Parser Tree
  | 0 => throw .endless
  | n + 1 => expressionWith (expressionAt n)

/-- An expression. -/
def expression : Parser Tree := nested expressionAt

/-- The call of a function. -/
def callOf (name : Tree) : Parser Tree := do
  return Tree.call name (← strictArguments tv expression)

/-! ## §3 Types and declarations -/

/-- A type: `void`, a type with a kind of its own, or a name. -/
def typeName : Parser Tree := do
  let k ← kind
  if k = .voidType then
    let _ ← take tv
    return .text "void"
  else if k ∈ interfaceTypes || k = .identifier then takeText tv
  else reject (.expected "type" k)

/-- The type and name in a declaration of the shader's interface. -/
def interfaceItem (wanted : Text) : Parser (Tree × Tree) := do
  let _ ← take tv
  if ← isNotAt interfaceTypes then reject (.expected wanted (← kind))
  let vtype ← takeText tv
  let name ← expectText tv .identifier
  let _ ← expect tv .semicolon
  return (vtype, name)

/-- What an input or output is declared with. -/
def stageTypesWanted : Text := "VECTOR, FLOAT, DOUBLE, UINT, INT, MATRIX, or SAMPLER2D"

/-- What a uniform is declared with. -/
def uniformTypesWanted : Text := "VECTOR, FLOAT, DOUBLE, UINT, INT or SAMPLER2D"

/-- The input declarations at the cursor, as pairs of type and name. -/
def inputs : Parser (List Tree) :=
  many (isAt [.inputWord]) (do
    let (vtype, name) ← interfaceItem stageTypesWanted
    return .tuple [vtype, name])

/-- The output declarations at the cursor, as pairs of type and name. -/
def outputs : Parser (List Tree) :=
  many (isAt [.outputWord]) (do
    let (vtype, name) ← interfaceItem stageTypesWanted
    return .tuple [vtype, name])

/-- The uniform declarations at the cursor. -/
def uniforms : Parser (List Tree) :=
  many (isAt [.uniformWord]) (do
    let (vtype, name) ← interfaceItem uniformTypesWanted
    return Tree.uniform vtype name)

/-- A parameter, as a pair of type and name. -/
def parameter : Parser Tree := do
  let vtype ← typeName
  let name ← expectText tv .identifier
  return .tuple [vtype, name]

/-- The parameters in front of a closing parenthesis. -/
def parameters : Parser (List Tree) := do
  if ← isAt [.rightParen] then return [] else sepBy tv .comma parameter

/-! ## §4 Plain statements -/

/-- Two texts as one; a value that is no text has no such form. -/
def joined : Tree → Tree → Parser Tree
  | .text s, .text t => return .text (s ++ t)
  | _, _ => throw .wrongSort

/-- The operator and value of an assignment to `name`. -/
def assignmentTo (name : Tree) : Parser Tree := do
  if ← isNotAt assignOperators then reject (.expectedHere "assignment operator" (← kind))
  let op ← takeText tv
  let value ← expression
  accept tv .semicolon
  return Tree.binary name op value

/-- A declaration of a variable of type `vtype`, perhaps with a value, or an assignment.  In a
loop update (`inUpdate`) it need not end in a semicolon. -/
def declaration (vtype : Tree) (inUpdate : Bool) : Parser Tree := do
  let first ← expectText tv .identifier
  let name ← if ← isAt [.dot] then memberChain tv first else pure first
  let k ← kind
  if k = .semicolon then
    let _ ← take tv
    return Tree.var vtype name
  else if k ∈ assignOperators then
    let op ← takeText tv
    let e ← expression
    let value ← if ← isAt [.dot] then memberChain tv e else pure e
    if ← isAt [.semicolon] then
      let _ ← take tv
    else if !inUpdate then
      reject (.expectedHere "';' after variable assignment" (← kind))
    return Tree.binary (Tree.var vtype name) op value
  else reject (.unexpectedIn "in variable declaration" k)

/-- A statement that begins with a name or a type, or with an increment in front of a name. -/
def plainStatement (inUpdate : Bool) : Parser Tree := do
  let vtype ← if ← isAt valueTypes then takeText tv else pure (.text [])
  -- A name goes on as a declaration, with or without a type in front of it.
  if ← isAt [.identifier] then declaration vtype inUpdate
  else
    let step ← if ← isAt [.increment, .decrement] then some <$> takeText tv else pure none
    let name ← expectText tv .identifier
    let target ←
      match step with
      | some op => do pure (Tree.var vtype (Tree.var (.text []) (← joined op name)))
      | none => pure name
    let k ← kind
    if k ∈ updateOperators then assignmentTo target
    else if k ∈ [.increment, .decrement] then
      let _ ← take tv
      -- The text of the token behind the step is taken, not that of the step.
      let after ← text
      return Tree.var vtype (Tree.var (.text []) (← joined target after))
    else if k = .leftParen then callOf target
    else reject (.unexpectedIn "after identifier" k)

/-- The update of a loop that only counts: an increment or decrement on either side of a name. -/
def update : Parser Tree := do
  let k ← kind
  if k = .identifier then
    let name ← takeText tv
    if ← isAt [.increment, .decrement] then
      let op ← takeText tv
      return Tree.var (.text []) (← joined name op)
    else reject (.expected "INCREMENT or DECREMENT" (← kind))
  else if k ∈ [.increment, .decrement] then
    let op ← takeText tv
    if ← isAt [.identifier] then
      let name ← takeText tv
      return Tree.var (.text []) (← joined op name)
    else return .absent
  else reject (.unexpectedIn "in update" k)

/-- A return of one or more values. -/
def returnStatement : Parser Tree := do
  let _ ← expect tv .returnWord
  let values ← sepBy tv .comma expression
  let _ ← expect tv .semicolon
  return Tree.returned (.list values)

/-! ## §5 Compound statements -/

/-- A condition in parentheses and a body in braces. -/
def guarded (body : Parser (List Tree)) : Parser (Tree × List Tree) := do
  let condition ← parenthesized tv expression
  let _ ← expect tv .leftBrace
  let stmts ← body
  let _ ← expect tv .rightBrace
  return (condition, stmts)

/-- Whether `else` and `if` follow. -/
def atElseIf : Parser Bool := do
  if ← isAt [.elseWord] then return (← lookahead 1).kind = .ifWord else return false

/-- A branch with its alternatives. -/
def branchWith (body : Parser (List Tree)) : Parser Tree := do
  let _ ← expect tv .ifWord
  let (condition, ifBody) ← guarded body
  let alternatives ← many atElseIf (do
    expectAll tv [.elseWord, .ifWord]
    guarded body)
  let elseBody ←
    if ← isAt [.elseWord] then
      expectAll tv [.elseWord, .leftBrace]
      let stmts ← body
      let _ ← expect tv .rightBrace
      pure (.list stmts)
    else pure .absent
  return .node .branch
    [(.ifCondition, condition), (.ifBody, .list ifBody),
     (.elseIfConditions, .list (alternatives.map (·.1))),
     (.elseIfBodies, .list (alternatives.map fun a => .list a.2)),
     (.elseBody, elseBody)]

/-- A counted loop.  Its update only counts if a parenthesis closes two tokens ahead. -/
def forWith (body : Parser (List Tree)) : Parser Tree := do
  expectAll tv [.forWord, .leftParen]
  let init ← plainStatement false
  -- The condition is a statement too, with its semicolon.
  let condition ← plainStatement false
  let step ← if (← lookahead 2).kind = .rightParen then update else plainStatement true
  expectAll tv [.rightParen, .leftBrace]
  let stmts ← body
  let _ ← expect tv .rightBrace
  return Tree.forLoop init condition step stmts

/-- A statement of a function body. -/
def statementWith (body : Parser (List Tree)) : Parser Tree := do
  let k ← kind
  if k = .ifWord then branchWith body
  else if k = .forWord then forWith body
  else if k = .returnWord then returnStatement
  else if k ∈ bodyStarts then plainStatement false
  else reject (.unexpected k)

/-- Statements up to a closing brace or the end, nested at most `n` deep. -/
def bodyAt : Nat → Parser (List Tree)
  | 0 => throw .endless
  | n + 1 => many (isNotAt [.rightBrace, .endOfInput]) (statementWith (bodyAt n))

/-- The statements of a function body. -/
def body : Parser (List Tree) := nested bodyAt

/-- A branch. -/
def branch : Parser Tree := branchWith body

/-- A counted loop. -/
def forLoop : Parser Tree := forWith body

/-! ## §6 Functions, sections and shaders -/

/-- A function. -/
def function : Parser Tree := do
  let returnType ← typeName
  if ← isNotAt [.mainWord, .identifier] then
    reject (.expected "MAIN or IDENTIFIER" (← kind))
  let name ← takeText tv
  let _ ← expect tv .leftParen
  let params ← parameters
  expectAll tv [.rightParen, .leftBrace]
  let stmts ← body
  let _ ← expect tv .rightBrace
  return Tree.function returnType name params stmts

/-- What a section holds, sorted by kind. -/
structure SectionItems where
  inputs : List Tree := []
  outputs : List Tree := []
  functions : List Tree := []
  statements : List Tree := []

/-- Reads one item of a section: a type opens a function if a parenthesis stands two tokens
ahead, and a statement otherwise. -/
def sectionItem (s : SectionItems) : Parser SectionItems := do
  let k ← kind
  if k = .uniformWord then
    let _ ← uniforms
    return s
  else if k = .inputWord then return { s with inputs := s.inputs ++ (← inputs) }
  else if k = .outputWord then return { s with outputs := s.outputs ++ (← outputs) }
  else
    -- Only a return type asks for the token two places ahead.
    let opensFunction : Bool ←
      if k ∈ returnTypes then pure ((← lookahead 2).kind = .leftParen) else pure false
    if opensFunction then return { s with functions := s.functions ++ [← function] }
    else if k = .forWord then return { s with statements := s.statements ++ [← forLoop] }
    else if k = .ifWord then return { s with statements := s.statements ++ [← branch] }
    else if k ∈ sectionStarts then
      return { s with statements := s.statements ++ [← plainStatement false] }
    else reject (.unexpected k)

/-- The items of a section in braces. -/
def sectionBody : Parser SectionItems := do
  let _ ← expect tv .leftBrace
  let s ← loop (isNotAt [.rightBrace]) sectionItem {}
  let _ ← expect tv .rightBrace
  return s

/-- The node of a section. -/
def SectionItems.node (s : SectionItems) (k : NodeKind) : Tree :=
  .node k
    [(.inputs, .list s.inputs), (.outputs, .list s.outputs), (.functions, .list s.functions),
     (.intermediate, .list s.statements)]

/-- A section for vertices. -/
def vertexSection : Parser Tree := do
  let _ ← expect tv .vertexWord
  return (← sectionBody).node .vertexSection

/-- A section for fragments. -/
def fragmentSection : Parser Tree := do
  let _ ← expect tv .fragmentWord
  return (← sectionBody).node .fragmentSection

/-- What a shader holds behind its interface. -/
structure ShaderItems where
  functions : List Tree := []
  vertex : Tree := .absent
  fragment : Tree := .absent

/-- Reads one item of a shader. -/
def shaderItem (s : ShaderItems) : Parser ShaderItems := do
  let k ← kind
  if k = .vertexWord then return { s with vertex := ← vertexSection }
  else if k = .fragmentWord then return { s with fragment := ← fragmentSection }
  else if k ∈ returnTypes then return { s with functions := s.functions ++ [← function] }
  else reject (.unexpectedItem k)

/-- A shader. -/
def shader : Parser Tree := do
  let _ ← expect tv .shaderWord
  if ← isNotAt [.identifier, .mainWord] then
    reject (.expected "IDENTIFIER or MAIN" (← kind))
  let name ← takeText tv
  let _ ← expect tv .leftBrace
  let ins ← inputs
  -- Uniforms stand between inputs and outputs and are not kept.
  let _ ← uniforms
  let outs ← outputs
  let s ← loop (isNotAt [.rightBrace]) shaderItem {}
  let _ ← expect tv .rightBrace
  return .node .shader
    [(.name, name), (.globalInputs, .list ins), (.globalOutputs, .list outs),
     (.globalFunctions, .list s.functions), (.vertexSection, s.vertex),
     (.fragmentSection, s.fragment)]

end ShaderBridge.CrossGl
