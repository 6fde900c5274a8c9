import ShaderBridge.Grammar.Reader
import ShaderBridge.Tree.Node

/-!
# Operator ladders

Expression grammars are ladders: each rung is a chain of operands from the rung below, joined from
the left by operators of one strength.  This module holds the rung, the ladder of comparison and
arithmetic rungs that several languages share, and the forms that expressions are built from.
-/

namespace ShaderBridge.Ladder

open ShaderBridge.Parser

/-! ## §1 Rungs -/

/-- The operator of a node, taken from its token: its text, or the label of its kind. -/
inductive OperatorForm where
  | byText
  | byLabel
deriving DecidableEq, Repr

/-- The value that stands for an operator token. -/
def OperatorForm.value : OperatorForm → Token → Tree
  | byText, t => Tree.ofText? t.text
  | byLabel, t => .text t.kind.label

/-- Operands joined from the left by operators of the given kinds. -/
def rung (tv : Trivia) (form : OperatorForm) (ops : List TokenKind) (operand : Parser Tree) :
    Parser Tree := do
  let first ← operand
  loop (isAt ops) (fun left => do
    let op ← take tv
    let right ← operand
    return Tree.binary left (form.value op) right) first

/-- Signs in front of an operand. -/
def signed (tv : Trivia) (form : OperatorForm) (operand : Parser Tree) : Parser Tree := do
  -- The sign next to the operand is the innermost.
  let signs ← many (isAt [.plus, .minus]) (take tv)
  let e ← operand
  return signs.foldr (fun sign e => Tree.unary (form.value sign) e) e

/-! ## §2 The shared ladder -/

/-- Products and quotients of signed operands. -/
def product (tv : Trivia) (form : OperatorForm) (operand : Parser Tree) : Parser Tree :=
  rung tv form [.multiply, .divide] operand

/-- Sums and differences. -/
def sum (tv : Trivia) (form : OperatorForm) (operand : Parser Tree) : Parser Tree :=
  rung tv form [.plus, .minus] (product tv form operand)

/-- Comparisons by order. -/
def relation (tv : Trivia) (operand : Parser Tree) : Parser Tree :=
  rung tv .byText [.lessThan, .greaterThan, .lessEqual, .greaterEqual] (sum tv .byText operand)

/-- Comparisons by equality. -/
def equality (tv : Trivia) (operand : Parser Tree) : Parser Tree :=
  rung tv .byText [.equal, .notEqual] (relation tv operand)

/-- Conjunctions. -/
def conjunction (tv : Trivia) (operand : Parser Tree) : Parser Tree :=
  rung tv .byText [.and] (equality tv operand)

/-- Disjunctions. -/
def disjunction (tv : Trivia) (operand : Parser Tree) : Parser Tree :=
  rung tv .byText [.or] (conjunction tv operand)

/-! ## §3 Forms of expressions -/

/-- If a question mark follows `condition`, the choice that it begins. -/
def choice (tv : Trivia) (expr : Parser Tree) (condition : Tree) : Parser Tree := do
  if ← isAt [.question] then
    let _ ← take tv
    let yes ← expr
    let _ ← expect tv .colon
    let no ← expr
    return Tree.ternary condition yes no
  else return condition

/-- An expression in parentheses. -/
def parenthesized (tv : Trivia) (expr : Parser Tree) : Parser Tree := do
  let _ ← expect tv .leftParen
  let e ← expr
  let _ ← expect tv .rightParen
  return e

/-- A point and the member behind it. -/
def memberStep (tv : Trivia) (object : Tree) : Parser Tree := do
  let _ ← expect tv .dot
  if ← isNotAt [.identifier] then
    reject (.expected "identifier after dot" (← kind))
  let member ← takeText tv
  return Tree.memberOf object member

/-- A chain of one or more members of an object. -/
def memberChain (tv : Trivia) (object : Tree) : Parser Tree := do
  loop (isAt [.dot]) (memberStep tv) (← memberStep tv object)

/-- Arguments in parentheses with a comma between neighbours. -/
def strictArguments (tv : Trivia) (expr : Parser Tree) : Parser (List Tree) := do
  let _ ← expect tv .leftParen
  let args ← if ← isAt [.rightParen] then pure [] else sepBy tv .comma expr
  let _ ← expect tv .rightParen
  return args

/-- Arguments in parentheses, where a comma may stand behind each. -/
def looseArguments (tv : Trivia) (expr : Parser Tree) : Parser (List Tree) := do
  let _ ← expect tv .leftParen
  let args ← untilClose tv .comma .rightParen expr
  let _ ← expect tv .rightParen
  return args

end ShaderBridge.Ladder
