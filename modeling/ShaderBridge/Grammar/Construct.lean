import ShaderBridge.Grammar.CrossGl
import ShaderBridge.Grammar.Glsl
import ShaderBridge.Grammar.Hlsl
import ShaderBridge.Grammar.Metal
import ShaderBridge.Grammar.Mojo
import ShaderBridge.Tree.Printer

/-!
# Constructs of the grammars

Every grammar can be entered at each of its constructs.  A construct is named once for all
languages; `Language.reader?` gives the parser of a construct in a language.  Some constructs go
on from what was read before and take that as an operand.
-/

namespace ShaderBridge

/-! ## §1 Constructs and readers -/

/-- A construct that a source can be read for. -/
inductive Construct where
  -- Sources and their items
  | source | shader | shaderSection | inputs | outputs | uniforms | version | layout
  | struct | classDef | constantBuffer | importDef | directive | using | decorator
  | function | parameters | parameter | typeName | attributes
  -- Statements
  | body | statement | branch | elseIf | alternatives | forLoop | whileLoop | switch | switchCase
  | update | returned | expressionStatement | plainStatement | declaration | assignment
  -- Expressions
  | expression | choice | disjunction | conjunction | equality | relation | sum | product | unary
  | primary | call | nameOrCall | member | construction | textureSample | arguments
deriving DecidableEq, Repr

/-- A parser that depends on operands. -/
abbrev Reader := List Tree → Parser Tree

namespace Reader

/-- A reader without operands. -/
def plain (p : Parser Tree) : Reader
  | [] => p
  | _ => throw .wrongSort

/-- A reader without operands that gives a list. -/
def plainList (p : Parser (List Tree)) : Reader := plain (do return .list (← p))

/-- A reader without operands that gives nothing. -/
def silent (p : Parser Unit) : Reader := plain (do
  p
  return .absent)

/-- A reader with one operand. -/
def on (p : Tree → Parser Tree) : Reader
  | [a] => p a
  | _ => throw .wrongSort

/-- A reader with one operand, which is not set if it is left out. -/
def onFlag (p : Bool → Parser Tree) : Reader
  | [] => p false
  | [a] => p a.isSet
  | _ => throw .wrongSort

/-- A reader with two operands, of which the second is not set if it is left out. -/
def onWithFlag (p : Tree → Bool → Parser Tree) : Reader
  | [a] => p a false
  | [a, b] => p a b.isSet
  | _ => throw .wrongSort

end Reader

/-! ## §2 Tokens by label -/

namespace Language

/-- The comments that a language passes over. -/
def trivia : Language → Trivia
  | glsl => .blockComments
  | _ => .comments

/-- Reads a token whose kind has the wanted label. -/
def expectLabel (lang : Language) (wanted : Tree) : Parser Unit := do
  let t ← Parser.current
  if wanted.isText t.kind.label then
    let _ ← Parser.take lang.trivia
  else Parser.reject (lang.trivia.mismatch (wanted.plain lang) t)

end Language

/-! ## §3 The readers of each language -/

/-- The readers of the shared ladder. -/
def Ladder.reader? (tv : Trivia) (operand : Parser Tree) : Construct → Option Reader
  | .disjunction => some (.plain (disjunction tv operand))
  | .conjunction => some (.plain (conjunction tv operand))
  | .equality => some (.plain (equality tv operand))
  | .relation => some (.plain (relation tv operand))
  | .sum => some (.plain (sum tv .byText operand))
  | .product => some (.plain (product tv .byText operand))
  | .unary => some (.plain operand)
  | _ => none

namespace CrossGl

/-- A section that opens with a token of the given label; any but that of a vertex section gives a
section for fragments. -/
def sectionOf (label : Tree) : Parser Tree := do
  Language.crossGl.expectLabel label
  return (← sectionBody).node (if label.isText "VERTEX" then .vertexSection else .fragmentSection)

/-- The readers of CrossGL. -/
def reader? : Construct → Option Reader
  | .source | .shader => some (.plain shader)
  | .shaderSection => some (.on sectionOf)
  | .inputs => some (.plainList inputs)
  | .outputs => some (.plainList outputs)
  | .uniforms => some (.plainList uniforms)
  | .function => some (.plain function)
  | .parameters => some (.plainList parameters)
  | .parameter => some (.plain parameter)
  | .typeName => some (.plain typeName)
  | .body => some (.plainList body)
  | .branch => some (.plain branch)
  | .forLoop => some (.plain forLoop)
  | .update => some (.plain update)
  | .returned => some (.plain returnStatement)
  | .plainStatement => some (.onFlag plainStatement)
  | .declaration => some (.onWithFlag declaration)
  | .assignment => some (.on assignmentTo)
  | .expression => some (.plain expression)
  | .choice => some (.plain (choiceWith expression))
  | .sum => some (.plain (sumWith expression))
  | .product => some (.plain (productWith expression))
  | .unary => some (.plain (unaryWith expression))
  | .primary => some (.plain (primaryWith expression))
  | .call => some (.on callOf)
  | .nameOrCall => some (.plain (nameOrCallWith expression))
  | .member => some (.on (Ladder.memberChain tv))
  | _ => none

end CrossGl

namespace Hlsl

/-- The readers of HLSL. -/
def reader? : Construct → Option Reader
  | .source => some (.plain source)
  | .shader => some (.plain shader)
  | .struct => some (.plain struct)
  | .function => some (.plain function)
  | .parameters => some (.plainList parameters)
  | .body => some (.plainList block)
  | .statement => some (.plain statement)
  | .plainStatement => some (.plain declarationOrAssignment)
  | .branch => some (.plain (branchWith block))
  | .elseIf => some (.plain (elseIfWith block))
  | .forLoop => some (.plain (forWith block))
  | .returned => some (.plain returnStatement)
  | .expressionStatement => some (.plain expressionStatement)
  | .expression => some (.plain expression)
  | .assignment => some (.plain assignment)
  | .primary => some (.plain (primaryWith expression))
  | .construction => some (.on constructionOf)
  | .nameOrCall => some (.plain (nameOrCallWith expression))
  | .call => some (.on callOf)
  | .member => some (.on (Ladder.memberChain tv))
  | k => Ladder.reader? tv (unaryWith expression) k

end Hlsl

namespace Metal

/-- The readers of Metal. -/
def reader? : Construct → Option Reader
  | .source => some (.plain source)
  | .shader => some (.plain shader)
  | .directive => some (.silent directive)
  | .using => some (.silent usingStatement)
  | .struct => some (.plain struct)
  | .constantBuffer => some (.plain constantBuffer)
  | .function => some (.plain function)
  | .parameters => some (.plainList parameters)
  | .attributes => some (.plainList (Attribute.attributes tv))
  | .body => some (.plainList block)
  | .statement => some (.plain statement)
  | .plainStatement => some (.plain declarationOrAssignment)
  | .branch => some (.plain (branchWith block))
  | .forLoop => some (.plain (forWith block))
  | .returned => some (.plain returnStatement)
  | .expressionStatement => some (.plain expressionStatement)
  | .expression | .assignment => some (.plain expression)
  | .primary => some (.plain (primaryWith expression))
  | .construction => some (.on constructionOf)
  | .nameOrCall => some (.plain (nameOrCallWith expression))
  | .call => some (.on callOf)
  | .member => some (.on (Ladder.memberChain tv))
  | .textureSample => some (.plain textureSample)
  | k => Ladder.reader? tv (unaryWith expression) k

end Metal

namespace Glsl

/-- The readers of GLSL. -/
def reader? : Construct → Option Reader
  | .source => some (.plain source)
  | .version => some (.plain version)
  | .layout => some (.on layout)
  | .shader => some (.on shader)
  | .shaderSection => some (.on bracedSection)
  | .inputs => some (.plainList inputs)
  | .outputs => some (.plainList outputs)
  | .uniforms => some (.plainList uniforms)
  | .declaration => some (.on declaration)
  | .plainStatement => some (.plain plainStatement)
  | .call => some (.on callOf)
  | .function => some (.plain function)
  | .body => some (.plainList body)
  | .parameters => some (.plainList parameters)
  | .parameter => some (.plain parameter)
  | .typeName => some (.plain typeName)
  | .arguments => some (.plainList arguments)
  | .update => some (.plain update)
  | .assignment => some (.plain assignment)
  | .nameOrCall => some (.plain (nameOrCallWith expression))
  | .sum => some (.plain (sumWith expression))
  | .product => some (.plain (productWith expression))
  | .primary => some (.plain (primaryWith expression))
  | .expression => some (.plain expression)
  | .returned => some (.plain returnStatement)
  | .alternatives => some (.plain (do
    let (chain, last) ← alternatives
    return .tuple [.list chain, last]))
  | .branch => some (.plain branch)
  | .forLoop => some (.plain forLoop)
  | .member => some (.on (Ladder.memberChain tv))
  | _ => none

end Glsl

namespace Mojo

/-- The readers of Mojo. -/
def reader? : Construct → Option Reader
  | .source => some (.plain source)
  | .shader => some (.plain moduleItems)
  | .importDef => some (.plain importStatement)
  | .struct => some (.plain struct)
  | .classDef => some (.plain classDef)
  | .constantBuffer => some (.plain constantBuffer)
  | .function => some (.plain function)
  | .parameters => some (.plainList parameters)
  | .attributes => some (.plainList (Attribute.attributes tv))
  | .body => some (.plainList block)
  | .statement => some (.plain statement)
  | .plainStatement => some (.plain declarationOrAssignment)
  | .branch => some (.plain (branchWith block))
  | .forLoop => some (.plain (forWith block))
  | .whileLoop => some (.plain (whileWith block))
  | .switch => some (.plain (switchWith block))
  | .switchCase => some (.plain (switchCaseWith block))
  | .returned => some (.plain returnStatement)
  | .expressionStatement => some (.plain expressionStatement)
  | .expression | .assignment => some (.plain expression)
  | .primary => some (.plain (primaryWith expression))
  | .construction => some (.on constructionOf)
  | .nameOrCall => some (.plain (nameOrCallWith expression))
  | .call => some (.on callOf)
  | .member => some (.on (memberWith expression))
  | .decorator => some (.plain decorator)
  | k => Ladder.reader? tv (unaryWith expression) k

end Mojo

/-- The reader of a construct in a language, if the language has the construct. -/
def Language.reader? : Language → Construct → Option Reader
  | crossGl => CrossGl.reader?
  | hlsl => Hlsl.reader?
  | metal => Metal.reader?
  | glsl => Glsl.reader?
  | mojo => Mojo.reader?

end ShaderBridge
