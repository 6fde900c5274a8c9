import ShaderBridge.Grammar.Ladder
import ShaderBridge.Stage
import ShaderBridge.Text.Blank
import ShaderBridge.Text.LowerCase

/-!
# The GLSL grammar

A GLSL source begins with its version and holds both stages in one text.  A line comment says
which stage the items behind it belong to: the fragment stage if it mentions a fragment shader and
no vertex shader, and the vertex stage otherwise.  Line comments are therefore tokens like any
other, and only block comments are passed over.

Items in front of the first line comment belong to no stage.  Inputs, outputs and uniforms are
then kept with the shader, layouts are dropped, and functions are rejected.
-/

namespace ShaderBridge.Glsl

open ShaderBridge.Parser Ladder

/-- Block comments are passed over. -/
abbrev tv : Trivia := .blockComments

/-! ## §1 Kinds of token by role -/

/-- The types of a plain statement. -/
def statementTypes : List TokenKind := [.vectorType, .floatType, .intType, .matrixType]

/-- What a plain statement of a function body begins with: no matrix type is among them. -/
def statementStarts : List TokenKind := [.vectorType, .identifier, .floatType, .intType]

/-- The types that are kept by their text. -/
def namedTypes : List TokenKind :=
  [.vectorType, .floatType, .intType, .matrixType, .booleanType, .sampler2dType, .identifier]

/-- The types that open a function. -/
def functionStarts : List TokenKind := [.voidType, .floatType, .vectorType]

/-- The operators of the topmost rung. -/
def outerOperators : List TokenKind :=
  [.lessThan, .greaterThan, .lessEqual, .greaterEqual, .equal, .notEqual, .and, .or]

/-- The operators that change a variable, each with the operation it applies. -/
def changeOperators : List (TokenKind × Text) :=
  [(.assignAdd, "+"), (.assignSub, "-"), (.assignMul, "*"), (.assignDiv, "/")]

/-! ## §2 Expressions -/

/-- The use of a variable. -/
def use (name : Tree) : Tree := Tree.var (.text []) name

/-- A call, a member chain, or a name alone. -/
def nameOrCallWith (expr : Parser Tree) : Parser Tree := do
  let name ← if ← isAt [.vectorType] then takeText tv else expectText tv .identifier
  match ← kind with
  | .leftParen => return Tree.call name (← strictArguments tv expr)
  | .dot => memberChain tv name
  | _ => return use name

/-- An operand without a sign. -/
def operandWith (expr : Parser Tree) : Parser Tree := do
  let k ← kind
  if k ∈ [.identifier, .vectorType, .floatType] then nameOrCallWith expr
  else if k = .number then takeText tv
  else if k = .leftParen then parenthesized tv expr
  else reject (.unexpectedIn "in expression" k)

/-- An operand behind any number of minus signs. -/
def primaryWith (expr : Parser Tree) : Parser Tree := do
  let signs ← many (isAt [.minus]) (take tv)
  let e ← operandWith expr
  return signs.foldr (fun _ e => Tree.unary (.text "-") e) e

/-- Products of operands. -/
def productWith (expr : Parser Tree) : Parser Tree := product tv .byLabel (primaryWith expr)

/-- Sums of products. -/
def sumWith (expr : Parser Tree) : Parser Tree := sum tv .byLabel (primaryWith expr)

/-- Sums joined by the operators of the topmost rung, or a choice that begins with them. -/
def expressionWith (expr : Parser Tree) : Parser Tree := do
  choice tv expr (← rung tv .byLabel outerOperators (sumWith expr))

/-- An expression nested at most `n` deep. -/
def expressionAt : Nat → Parser Tree
  | 0 => throw .endless
  | n + 1 => expressionWith (expressionAt n)

/-- An expression. -/
def expression : Parser Tree := nested expressionAt

/-- The call of a function. -/
def callOf (name : Tree) : Parser Tree := do
  return Tree.call name (← strictArguments tv expression)

/-- Arguments in front of a closing parenthesis, where a comma may stand behind each. -/
def arguments : Parser (List Tree) := untilClose tv .comma .rightParen expression

/-! ## §3 Types and declarations -/

/-- A type. -/
def typeName : Parser Tree := do
  let k ← kind
  if k = .voidType then
    let _ ← take tv
    return .text "void"
  else if k ∈ namedTypes then takeText tv
  else reject (.unexpectedType k)

/-- A type, a name and a semicolon. -/
def typedName : Parser (Tree × Tree) := do
  let vtype ← typeName
  let name ← expectText tv .identifier
  let _ ← expect tv .semicolon
  return (vtype, name)

/-- Declarations behind a keyword, one after another. -/
def declarations (word : TokenKind) (build : Tree → Tree → Tree) : Parser (List Tree) :=
  many (isAt [word]) (do
    let _ ← take tv
    let (vtype, name) ← typedName
    return build vtype name)

/-- The input declarations at the cursor, as pairs of type and name. -/
def inputs : Parser (List Tree) := declarations .inWord fun vtype name => .tuple [vtype, name]

/-- The output declarations at the cursor, as pairs of type and name. -/
def outputs : Parser (List Tree) := declarations .outWord fun vtype name => .tuple [vtype, name]

/-- The uniform declarations at the cursor. -/
def uniforms : Parser (List Tree) := declarations .uniformWord Tree.uniform

/-- A parameter, as a pair of type and name. -/
def parameter : Parser Tree := do
  let vtype ← typeName
  let name ← expectText tv .identifier
  return .tuple [vtype, name]

/-- The parameters in front of a closing parenthesis. -/
def parameters : Parser (List Tree) := do
  if ← isAt [.rightParen] then return [] else sepBy tv .comma parameter

/-- The version of the source. -/
def version : Parser Tree := do
  if ← isNotAt [.versionWord] then reject (.expected "VERSION directive" (← kind))
  let _ ← take tv
  if ← isNotAt [.number] then reject (.expected "NUMBER after VERSION" (← kind))
  let number ← takeText tv
  let profile ← if ← isAt [.coreWord] then takeText tv else pure .absent
  return .node .version [(.versionNumber, number), (.profile, profile)]

/-- A layout with a location, for an input or an output of a section. -/
def layout (sectionName : Tree) : Parser Tree := do
  expectAll tv [.layoutWord, .leftParen]
  let t ← current
  if t.kind ≠ .identifier || t.text ≠ some "location".toList then reject .layoutLocation
  expectAll tv [.identifier, .equals]
  let location ← expectText tv .number
  let _ ← expect tv .rightParen
  let direction : Text ←
    match ← kind with
    | .inWord => pure "input".toList
    | .outWord => pure "output".toList
    | _ => reject .layoutDirection
  let _ ← take tv
  let (vtype, name) ← typedName
  return .node .layout
    [(.sectionName, sectionName), (.locationNumber, location), (.dtype, vtype), (.name, name),
     (.ioType, .text direction)]

/-! ## §4 Plain statements -/

/-- A name extended by a member behind a point; a value that is no text has no such form. -/
def dotted : Tree → Tree → Parser Tree
  | .text s, .text t => return .text (s ++ '.' :: t)
  | _, _ => throw .wrongSort

/-- A semicolon at the end of an assignment of some form. -/
def assignmentEnd (wanted : Text) : Parser Unit := do
  if ← isNotAt [.semicolon] then reject (.expectedHere wanted (← kind))
  let _ ← take tv

/-- A declaration of a variable, perhaps with a value, or a change of it. -/
def declaration (vtype : Tree) : Parser Tree := do
  let first ← expectText tv .identifier
  let name ← loop (isAt [.dot]) (fun name => do
    let _ ← take tv
    let member ← expectText tv .identifier
    dotted name member) first
  let k ← kind
  if k = .semicolon then
    let _ ← take tv
    return Tree.var vtype name
  else if k = .equals then
    let _ ← take tv
    let value ← expression
    assignmentEnd "';' after variable assignment"
    return Tree.assignment (Tree.var vtype name) value
  else if (changeOperators.lookup k).isSome then
    let op ← takeText tv
    let value ← expression
    assignmentEnd "';' after compound assignment"
    return Tree.binary (Tree.var vtype name) op value
  else reject (.unexpectedIn "in variable declaration" k)

/-- A statement that begins with a type or a name. -/
def plainStatement : Parser Tree := do
  let vtype ← if ← isAt statementTypes then takeText tv else pure (.text [])
  declaration vtype

/-- An assignment to a name. -/
def assignment : Parser Tree := do
  let name ← expectText tv .identifier
  let _ ← expect tv .equals
  let value ← expression
  let _ ← expect tv .semicolon
  return Tree.assignment name value

/-- A step in front of a name, in a loop update. -/
def stepBefore (op wanted : Text) : Parser Tree := do
  let _ ← take tv
  if ← isNotAt [.identifier] then reject (.expected wanted (← kind))
  let name ← takeText tv
  return Tree.unary (.text op) (use name)

/-- The update of a loop.  A name that nothing is done to is no update. -/
def update : Parser Tree := do
  match ← kind with
  | .identifier => do
    let name ← takeText tv
    let k ← kind
    if k ∈ [.postIncrement, .postDecrement] then
      let _ ← take tv
      return Tree.unary (.text k.label) (use name)
    else if k = .equals then
      let _ ← take tv
      return Tree.assignment name (← expression)
    else
      match changeOperators.lookup k with
      | some op => do
        let _ ← take tv
        let value ← expression
        return Tree.assignment name (Tree.binary (use name) (.text op) value)
      -- Nothing is done to the name.
      | none => return .absent
  | .preIncrement => stepBefore "++" "IDENTIFIER after PRE_INCREMENT"
  | .preDecrement => stepBefore "--" "IDENTIFIER after PRE_DECREMENT"
  | k => reject (.unexpectedIn "in update" k)

/-- A return of a value. -/
def returnStatement : Parser Tree := do
  let _ ← expect tv .returnWord
  let value ← expression
  let _ ← expect tv .semicolon
  return Tree.returned value

/-! ## §5 Compound statements -/

/-- A body in braces. -/
def braced (body : Parser (List Tree)) : Parser (List Tree) := do
  let _ ← expect tv .leftBrace
  let stmts ← body
  let _ ← expect tv .rightBrace
  return stmts

/-- The alternatives of a branch: conditions with their bodies, then perhaps a last body. -/
def alternativesWith (body : Parser (List Tree)) : Parser (List Tree × Tree) := do
  let chain ← many (isAt [.elseIfWord]) (do
    let _ ← take tv
    let condition ← parenthesized tv expression
    let stmts ← braced body
    return .tuple [condition, .list stmts])
  let last ←
    if ← isAt [.elseWord] then
      let _ ← take tv
      pure (.list (← braced body))
    else pure .absent
  return (chain, last)

/-- A branch with its alternatives. -/
def branchWith (body : Parser (List Tree)) : Parser Tree := do
  let _ ← expect tv .ifWord
  let condition ← parenthesized tv expression
  let stmts ← braced body
  let (chain, last) ← alternativesWith body
  return .node .branch
    [(.condition, condition), (.ifBody, .list stmts), (.elseIfChain, .list chain),
     (.elseBody, last)]

/-- A counted loop. -/
def forWith (body : Parser (List Tree)) : Parser Tree := do
  expectAll tv [.forWord, .leftParen]
  let init ← plainStatement
  let condition ← expression
  let _ ← expect tv .semicolon
  let step ← update
  let _ ← expect tv .rightParen
  return Tree.forLoop init condition step (← braced body)

/-- A statement of a function body. -/
def statementWith (body : Parser (List Tree)) : Parser Tree := do
  let k ← kind
  if k = .ifWord then branchWith body
  else if k = .forWord then forWith body
  else if k = .returnWord then returnStatement
  else if k ∈ statementStarts then plainStatement
  else reject (.unexpected k)

/-- Statements up to a closing brace or the end, nested at most `n` deep. -/
def bodyAt : Nat → Parser (List Tree)
  | 0 => throw .endless
  | n + 1 => many (isNotAt [.rightBrace, .endOfInput]) (statementWith (bodyAt n))

/-- The statements of a function body. -/
def body : Parser (List Tree) := nested bodyAt

/-- A branch. -/
def branch : Parser Tree := branchWith body

/-- The alternatives of a branch. -/
def alternatives : Parser (List Tree × Tree) := alternativesWith body

/-- A counted loop. -/
def forLoop : Parser Tree := forWith body

/-- A function. -/
def function : Parser Tree := do
  let returnType ← typeName
  if ← isNotAt [.mainWord, .identifier] then
    reject (.expected "MAIN or IDENTIFIER" (← kind))
  let name ← takeText tv
  let _ ← expect tv .leftParen
  let params ← parameters
  let _ ← expect tv .rightParen
  return Tree.function returnType name params (← braced body)

/-! ## §6 Stages and shaders -/

/-- The stage that a line comment announces. -/
def stageOfComment (comment : Text) : Stage :=
  let words := Text.lower (Text.trim comment)
  if Text.occurs "vertex shader" words then .vertex
  else if Text.occurs "fragment shader" words then .fragment
  else .vertex

/-- What belongs to a stage, or to none. -/
structure StageItems where
  inputs : List Tree := []
  outputs : List Tree := []
  functions : List Tree := []
  layouts : List Tree := []

namespace StageItems

/-- All items of one and then all of another. -/
def append (a b : StageItems) : StageItems :=
  ⟨a.inputs ++ b.inputs, a.outputs ++ b.outputs, a.functions ++ b.functions,
   a.layouts ++ b.layouts⟩

/-- The node of a stage. -/
def node (s : StageItems) (k : NodeKind) : Tree :=
  .node k
    [(.inputs, .list s.inputs), (.outputs, .list s.outputs), (.uniform, .list []),
     (.functions, .list s.functions), (.layoutQualifiers, .list s.layouts)]

end StageItems

/-- What has been read of a shader, and the stage that the next item belongs to. -/
structure ShaderItems where
  stage : Option Stage := none
  shared : StageItems := {}
  vertex : StageItems := {}
  fragment : StageItems := {}
  uniforms : List Tree := []

namespace ShaderItems

/-- Adds items to the current stage. -/
def add (s : ShaderItems) (new : StageItems) : ShaderItems :=
  match s.stage with
  | none => { s with shared := s.shared.append new }
  | some .vertex => { s with vertex := s.vertex.append new }
  | some .fragment => { s with fragment := s.fragment.append new }

/-- The node of a shader. -/
def node (s : ShaderItems) (version : Tree) : Tree :=
  .node .shader
    [(.version, version), (.globalInputs, .list s.shared.inputs),
     (.globalOutputs, .list s.shared.outputs), (.uniforms, .list s.uniforms),
     (.vertexSection, s.vertex.node .vertexSection),
     (.fragmentSection, s.fragment.node .fragmentSection), (.functions, .list [])]

end ShaderItems

/-- Reads a line comment and goes on in the stage that it announces. -/
def stageComment (s : ShaderItems) : Parser ShaderItems := do
  if ← isAt [.lineComment] then
    match (← current).text with
    | none => throw .missingField
    | some comment => do
      let _ ← take tv
      return { s with stage := some (stageOfComment comment) }
  else return s

/-- Reads one item of a shader. -/
def shaderItem (s : ShaderItems) : Parser ShaderItems := do
  -- At most one comment stands in front of an item.
  let s ← stageComment s
  let k ← kind
  if k = .layoutWord then
    let stageName := Tree.ofText? (s.stage.map (·.capitals))
    return s.add { layouts := [← layout stageName] }
  else if k = .inWord then return s.add { inputs := ← inputs }
  else if k = .outWord then return s.add { outputs := ← outputs }
  else if k = .uniformWord then return { s with uniforms := s.uniforms ++ (← uniforms) }
  else if k = .versionWord then
    let _ ← version
    return s
  else if k ∈ functionStarts then
    if s.stage.isNone then reject .functionOutsideSection
    return s.add { functions := [← function] }
  else if k = .leftBrace then
    if s.stage.isNone then reject .braceOutsideSection
    -- A section in braces cannot be read without knowing its stage.
    let _ ← take tv
    throw .wrongSort
  else reject (.unexpected k)

/-- A shader of a version. -/
def shader (version : Tree) : Parser Tree := do
  let s ← loop (isNotAt [.endOfInput]) shaderItem {}
  return s.node version

/-- A whole source. -/
def source : Parser Tree := do
  skipTrivia tv
  shader (← version)

/-- Reads one item of a section in braces. -/
def sectionItem (sectionName : Tree) : Parser Unit := do
  let k ← kind
  if k = .layoutWord then
    let _ ← layout sectionName
  else if k = .inWord then
    let _ ← inputs
  else if k = .outWord then
    let _ ← outputs
  else if k = .uniformWord then
    let _ ← uniforms
  else if k ∈ functionStarts then
    let _ ← function
  else reject (.unexpectedInSection k)

/-- A section in braces, which the language has not: its items are read, and then it is
rejected. -/
def bracedSection (sectionName : Tree) : Parser Tree := do
  let _ ← expect tv .leftBrace
  loop (isNotAt [.rightBrace, .endOfInput]) (fun _ => sectionItem sectionName) ()
  reject .sectionEnd

end ShaderBridge.Glsl
