import ShaderBridge.Tree.Basic

/-!
# Nodes

The nodes that grammars build, with their fields in order.  Kinds whose fields differ between
languages have a function for each form.
-/

namespace ShaderBridge.Tree

/-! ## §1 Expressions -/

/-- A binary operation. -/
def binary (left op right : Tree) : Tree :=
  node .binary [(.left, left), (.op, op), (.right, right)]

/-- A unary operation. -/
def unary (op operand : Tree) : Tree := node .unary [(.op, op), (.operand, operand)]

/-- A choice between two values. -/
def ternary (condition yes no : Tree) : Tree :=
  node .ternary [(.condition, condition), (.trueExpr, yes), (.falseExpr, no)]

/-- A function call. -/
def call (name : Tree) (args : List Tree) : Tree :=
  node .call [(.name, name), (.args, list args)]

/-- Access to a member of an object. -/
def memberOf (object member : Tree) : Tree :=
  node .member [(.object, object), (.member, member)]

/-- A value made by naming its type. -/
def construction (typeName : Tree) (args : List Tree) : Tree :=
  node .construction [(.typeName, typeName), (.args, list args)]

/-- A variable with its type, which is empty where the variable is used. -/
def var (vtype name : Tree) : Tree := node .var [(.vtype, vtype), (.name, name)]

/-- A variable with a semantic. -/
def semanticVar (vtype name semantic : Tree) : Tree :=
  node .var [(.vtype, vtype), (.name, name), (.semantic, semantic)]

/-- A variable with attributes. -/
def attributedVar (vtype name : Tree) (attributes : List Tree) : Tree :=
  node .var [(.vtype, vtype), (.name, name), (.attributes, list attributes)]

/-! ## §2 Statements -/

/-- An assignment to a name. -/
def assignment (name value : Tree) : Tree :=
  node .assignment [(.name, name), (.value, value)]

/-- An assignment with its operator. -/
def assignmentBy (left right operator : Tree) : Tree :=
  node .assignment [(.left, left), (.right, right), (.operator, operator)]

/-- A counted loop. -/
def forLoop (init condition update : Tree) (body : List Tree) : Tree :=
  node .forLoop [(.init, init), (.condition, condition), (.update, update), (.body, list body)]

/-- A return of a value. -/
def returned (value : Tree) : Tree := node .returned [(.value, value)]

/-- A branch with one alternative, which may be absent, a body or another branch. -/
def branch (condition : Tree) (ifBody : List Tree) (elseBody : Tree) : Tree :=
  node .branch [(.condition, condition), (.ifBody, list ifBody), (.elseBody, elseBody)]

/-! ## §3 Declarations -/

/-- A function. -/
def function (returnType name : Tree) (params body : List Tree) : Tree :=
  node .function
    [(.returnType, returnType), (.name, name), (.params, list params), (.body, list body)]

/-- A function with a qualifier and attributes. -/
def qualifiedFunction (qualifier returnType name : Tree) (params body attributes : List Tree) :
    Tree :=
  node .function
    [(.qualifier, qualifier), (.returnType, returnType), (.name, name), (.params, list params),
     (.body, list body), (.attributes, list attributes)]

/-- A uniform. -/
def uniform (vtype name : Tree) : Tree := node .uniform [(.vtype, vtype), (.name, name)]

/-- A structure with its members. -/
def struct (name : Tree) (members : List Tree) : Tree :=
  node .struct [(.name, name), (.members, list members)]

/-- A constant buffer with its members. -/
def constantBuffer (name : Tree) (members : List Tree) : Tree :=
  node .constantBuffer [(.name, name), (.members, list members)]

/-- A source that is a list of items. -/
def program (functions : List Tree) : Tree := node .shader [(.functions, list functions)]

end ShaderBridge.Tree
