import ShaderBridge.Backward.Dialect
import ShaderBridge.Grammar.Hlsl
import ShaderBridge.Proofs.Ladder

/-!
# Phrases of HLSL expressions

The grammar of expressions, given by its derivations.

    Expr        := Rung 7 | Rung 7 ? Expr : Expr
    Rung (n+1)  := Rung n (operator n  Rung n)*
    Rung 0      := (+ | -) Rung 0 | Operand
    Operand     := ( Expr ) | Number | Identifier | Type Identifier | Identifier ( Arguments )
                 | Type ( Arguments ) | Identifier (. Identifier)+
    Arguments   := [Expr (, Expr)*]

The rungs from below are products, sums, comparisons by order and by equality, conjunctions,
disjunctions and assignments.  Chains are joined from the left, so the derivations of a rung are
nested to the left.
-/

namespace ShaderBridge.Hlsl

open Ladder
open Form (assignOperators)

/-! ## §1 Rungs -/

/-- The operators between the operands of a rung, counted from below. -/
def rungOperators : Nat → List TokenKind
  | 0 => [.multiply, .divide]
  | 1 => [.plus, .minus]
  | 2 => [.lessThan, .greaterThan, .lessEqual, .greaterEqual]
  | 3 => [.equal, .notEqual]
  | 4 => [.and]
  | 5 => [.or]
  | 6 => assignOperators
  | _ => []

/-- What an operator of a rung makes of its operands: the topmost rung assigns. -/
def operation : Nat → Tree → Token → Tree → Tree
  | 6 => fun left op right => Tree.assignmentBy left right (Tree.ofText? op.text)
  | _ => OperatorForm.byText.operation

/-- What extends an operand of a rung. -/
def rungStop : Nat → List TokenKind
  | 0 => [.dot, .leftParen]
  | n + 1 => rungOperators n ++ rungStop n

/-- What extends an expression. -/
def follow : List TokenKind := .question :: rungStop 7

/-- An operator of a rung extends none of its operands, and is no comment. -/
theorem operator_role : ∀ (n : Nat) (k : TokenKind), k ∈ rungOperators n →
    k ∉ rungStop n ∧ k.isComment = false
  | 0 | 1 | 2 | 3 | 4 | 5 | 6 => by decide
  | _ + 7 => by simp [rungOperators]

/-! ## §2 Phrases -/

/-- What a phrase is derived from. -/
inductive Rank where
  | expr
  | rung (n : Nat)
  | operand
  | arguments
  | items
deriving DecidableEq, Repr

/-- What a phrase of a rank stands for. -/
abbrev Rank.Value : Rank → Type
  | .arguments | .items => List Tree
  | _ => Tree

/-- The derivations of each rank. -/
inductive Phrase : Rank → Type where
  /-- `Expr := Rung 7` -/
  | settled (a : Phrase (.rung 7)) : Phrase .expr
  /-- `Expr := Rung 7 ? Expr : Expr` -/
  | choice (a : Phrase (.rung 7)) (mark : TokenOf [.question]) (yes : Phrase .expr)
      (colon : TokenOf [.colon]) (no : Phrase .expr) : Phrase .expr
  /-- `Rung (n+1) := Rung n` -/
  | first {n : Nat} (a : Phrase (.rung n)) : Phrase (.rung (n + 1))
  /-- `Rung (n+1) := Rung (n+1) operator Rung n` -/
  | joined {n : Nat} (a : Phrase (.rung (n + 1))) (op : TokenOf (rungOperators n))
      (b : Phrase (.rung n)) : Phrase (.rung (n + 1))
  /-- `Rung 0 := Operand` -/
  | unsigned (o : Phrase .operand) : Phrase (.rung 0)
  /-- `Rung 0 := (+ | -) Rung 0` -/
  | sign (s : TokenOf [.plus, .minus]) (u : Phrase (.rung 0)) : Phrase (.rung 0)
  /-- `Operand := ( Expr )` -/
  | group (opens : TokenOf [.leftParen]) (e : Phrase .expr) (closes : TokenOf [.rightParen]) :
      Phrase .operand
  /-- `Operand := Number` -/
  | number (n : TokenOf [.number]) : Phrase .operand
  /-- `Operand := Identifier` -/
  | name (n : TokenOf [.identifier]) : Phrase .operand
  /-- `Operand := Type Identifier` -/
  | typed (vtype : TokenOf valueTypes) (n : TokenOf [.identifier]) : Phrase .operand
  /-- `Operand := Identifier ( Arguments )` -/
  | call (n : TokenOf [.identifier]) (opens : TokenOf [.leftParen]) (args : Phrase .arguments)
      (closes : TokenOf [.rightParen]) : Phrase .operand
  /-- `Operand := Type ( Arguments )` -/
  | construction (vtype : TokenOf valueTypes) (opens : TokenOf [.leftParen])
      (args : Phrase .arguments) (closes : TokenOf [.rightParen]) : Phrase .operand
  /-- `Operand := Identifier (. Identifier)+` -/
  | member (n : TokenOf [.identifier]) (m : Member) (more : List Member) : Phrase .operand
  /-- `Arguments :=` -/
  | noArgument : Phrase .arguments
  /-- `Arguments := Items` -/
  | given (items : Phrase .items) : Phrase .arguments
  /-- `Items := Expr` -/
  | item (e : Phrase .expr) : Phrase .items
  /-- `Items := Expr , Items` -/
  | further (e : Phrase .expr) (comma : TokenOf [.comma]) (items : Phrase .items) : Phrase .items

namespace Phrase

/-- The tokens that a phrase derives. -/
def tokens {r : Rank} : Phrase r → List Token
  | settled a => a.tokens
  | choice a mark yes colon no => a.tokens ++ mark.1 :: (yes.tokens ++ colon.1 :: no.tokens)
  | first a => a.tokens
  | joined a op b => a.tokens ++ op.1 :: b.tokens
  | unsigned o => o.tokens
  | sign s u => s.1 :: u.tokens
  | group opens e closes => opens.1 :: (e.tokens ++ [closes.1])
  | number n => [n.1]
  | name n => [n.1]
  | typed vtype n => [vtype.1, n.1]
  | call n opens args closes => n.1 :: opens.1 :: (args.tokens ++ [closes.1])
  | construction vtype opens args closes => vtype.1 :: opens.1 :: (args.tokens ++ [closes.1])
  | member n m more => n.1 :: Member.tokens (m :: more)
  | noArgument => []
  | given items => items.tokens
  | item e => e.tokens
  | further e comma items => e.tokens ++ comma.1 :: items.tokens

/-- What a phrase stands for. -/
def value {r : Rank} : Phrase r → r.Value
  | settled a => a.value
  | choice a _ yes _ no => Tree.ternary a.value yes.value no.value
  | first a => a.value
  | @joined n a op b => operation n a.value op.1 b.value
  | unsigned o => o.value
  | sign s u => Tree.unary (Tree.ofText? s.1.text) u.value
  | group _ e _ => e.value
  | number n => Tree.ofText? n.1.text
  | name n => var (.text []) (Tree.ofText? n.1.text)
  | typed vtype n => var (Tree.ofText? vtype.1.text) (Tree.ofText? n.1.text)
  | call n _ args _ => Tree.call (Tree.ofText? n.1.text) args.value
  | construction vtype _ args _ => Tree.construction (Tree.ofText? vtype.1.text) args.value
  | member n m more => Member.tree (Tree.ofText? n.1.text) (m :: more)
  | noArgument => []
  | given items => items.value
  | item e => [e.value]
  | further e _ items => e.value :: items.value

/-- A phrase of a rung as one of a rung further up. -/
def raised {n : Nat} (p : Phrase (.rung n)) : (k : Nat) → Phrase (.rung (n + k))
  | 0 => p
  | k + 1 => .first (p.raised k)

/-! ## §3 The first token -/

/-- What an operand begins with. -/
def operandStarts : List TokenKind := [.leftParen, .number, .identifier] ++ valueTypes

/-- What a phrase begins with. -/
def starts : List TokenKind := [.plus, .minus] ++ operandStarts

theorem firstKind_operand (p : Phrase .operand) (rest : List Token) :
    firstKind (p.tokens ++ rest) ∈ operandStarts := by
  cases p with
  | group t | number t | name t | typed t | call t | construction t | member t =>
    exact t.mem (by decide)

/-- What begins with a phrase begins with a start, unless the phrase may be empty. -/
theorem firstKind_mem {r : Rank} (p : Phrase r) (hr : r ≠ .arguments) (rest : List Token) :
    firstKind (p.tokens ++ rest) ∈ starts := by
  induction p generalizing rest with
  | sign s => exact List.mem_append_left _ s.2
  | group | number | name | typed | call | construction | member =>
    exact List.mem_append_right _ (firstKind_operand _ rest)
  | choice h op _ _ _ ih | joined h op l ih | further h op l ih =>
    simpa [tokens] using ih (by simp) _
  | settled l ih | first l ih | unsigned l ih | item l ih => exact ih (by simp) rest
  | noArgument | given => exact absurd rfl hr

theorem commentFree {r : Rank} (p : Phrase r) : CommentFree p.tokens := by
  induction p with
  | joined a op b iha ihb => simp [tokens, iha, ihb, (operator_role _ _ op.2).2]
  | _ => simp_all [tokens, valueTypes, Member.commentFree]

end Phrase

/-! ## §4 Phrases in CrossGL -/

/-- The text of a token. -/
def spelling (t : Token) : Text := t.text.getD []

/-- The name of a type in CrossGL; a type without a counterpart keeps its own. -/
def mappedType (t : Token) : Text :=
  (Backward.hlslTypes.lookup (spelling t)).getD (spelling t)

namespace Phrase

/-- The texts of the tokens of a phrase, with every type under its name in CrossGL, and without the
parentheses that only group. -/
def shown {r : Rank} : Phrase r → List Text
  | settled a => a.shown
  | choice a mark yes colon no =>
    a.shown ++ spelling mark.1 :: (yes.shown ++ spelling colon.1 :: no.shown)
  | first a => a.shown
  | joined a op b => a.shown ++ spelling op.1 :: b.shown
  | unsigned o => o.shown
  | sign s u => spelling s.1 :: u.shown
  | group _ e _ => e.shown
  | number n => [spelling n.1]
  | name n => [spelling n.1]
  | typed vtype n => [mappedType vtype.1, spelling n.1]
  | call n opens args closes =>
    spelling n.1 :: spelling opens.1 :: (args.shown ++ [spelling closes.1])
  | construction vtype opens args closes =>
    mappedType vtype.1 :: spelling opens.1 :: (args.shown ++ [spelling closes.1])
  | member n m more => (n.1 :: Member.tokens (m :: more)).map spelling
  | noArgument => []
  | given items => items.shown
  | item e => e.shown
  | further e comma items => e.shown ++ spelling comma.1 :: items.shown

/-- The kind of the first token, parentheses that only group aside. -/
def leadKind {r : Rank} : Phrase r → TokenKind
  | settled a | choice a _ _ _ _ => a.leadKind
  | first a | joined a _ _ => a.leadKind
  | unsigned o => o.leadKind
  | sign s _ => s.1.kind
  | group _ e _ => e.leadKind
  | number n => n.1.kind
  | name n | call n _ _ _ | member n _ _ => n.1.kind
  | typed t _ | construction t _ _ _ => t.1.kind
  | noArgument => .endOfInput
  | given items => items.leadKind
  | item e | further e _ _ => e.leadKind

/-- No sign is directly followed by the same sign, parentheses that only group aside, and nothing is
a member of `input` or `output`. -/
def isClean {r : Rank} : Phrase r → Bool
  | settled a => a.isClean
  | choice a _ yes _ no => a.isClean && yes.isClean && no.isClean
  | first a => a.isClean
  | joined a _ b => a.isClean && b.isClean
  | unsigned o => o.isClean
  | sign s u => u.leadKind ≠ s.1.kind && u.isClean
  | group _ e _ => e.isClean
  | number _ | name _ | typed _ _ | noArgument => true
  | call _ _ args _ | construction _ _ args _ => args.isClean
  | member n _ _ => spelling n.1 ∉ (["input", "output"] : List Text)
  | given items => items.isClean
  | item e => e.isClean
  | further e _ items => e.isClean && items.isClean

end Phrase

end ShaderBridge.Hlsl
