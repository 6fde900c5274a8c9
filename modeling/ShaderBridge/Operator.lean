import ShaderBridge.Tree.Basic

/-!
# Operator symbols

Grammars may keep an operator by the label of its kind.  Generators write the symbol instead; an
operator without an entry is written as it is.
-/

namespace ShaderBridge.Operator

/-- The symbols of the operators that compute a value. -/
def valueSymbols : List (Text × Text) :=
  [("PLUS", "+"), ("MINUS", "-"), ("MULTIPLY", "*"), ("DIVIDE", "/"),
   ("LESS_THAN", "<"), ("GREATER_THAN", ">"), ("LESS_EQUAL", "<="), ("GREATER_EQUAL", ">="),
   ("EQUAL", "=="), ("NOT_EQUAL", "!="), ("AND", "&&"), ("OR", "||")]

/-- The symbols of the operators that assign. -/
def assignSymbols : List (Text × Text) :=
  [("ASSIGN_ADD", "+="), ("ASSIGN_SUB", "-="), ("ASSIGN_MUL", "*="), ("ASSIGN_DIV", "/="),
   ("EQUALS", "=")]

/-- The symbol of an operator that computes a value. -/
def valueSymbol (op : Tree) : Except Fault Tree := op.rename valueSymbols

/-- The symbol of an operator. -/
def symbol (op : Tree) : Except Fault Tree := op.rename (valueSymbols ++ assignSymbols)

end ShaderBridge.Operator
