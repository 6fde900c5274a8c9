import ShaderBridge.Proofs.Hlsl.Phrase

/-!
# Plain code of HLSL

The functions whose text survives being read and written in CrossGL, given by their derivations.

    Function    := Type Identifier ( [Type Identifier (, Type Identifier)*] ) { Block }
    Block       := Statement*
    Statement   := Plain | if Arm Tail
                 | for ( Type Identifier = Expr ; Expr ; Expr ) { Block }
    Arm         := ( Expr ) { Block }
    Tail        := [else { Statement Block }] | else-if Arm Tail
    Plain       := Type Identifier ; | [Type] Identifier = Expr ; | Identifier operator Expr ;
                 | Identifier (. Identifier)+ = Expr ; | return Expr ;

All types in it have a counterpart in CrossGL.  The words `else if` are one token.
-/

namespace ShaderBridge.Hlsl

open Ladder
open Form (declarationStarts)

/-! ## §1 Plain statements -/

/-- The expressions of plain code. -/
abbrev Expr := Phrase .expr

/-- A type of certain kinds that has a counterpart in CrossGL. -/
abbrev TypeOf (ks : List TokenKind) :=
  {t : TokenOf ks // (Backward.hlslTypes.lookup (spelling t.1)).isSome}

/-- The operators that change a variable. -/
def updateOperators : List TokenKind := [.plusEquals, .minusEquals, .multiplyEquals, .divideEquals]

/-- `operator Expr ;` -/
structure Setting (ops : List TokenKind) where
  op : TokenOf ops
  value : Expr
  ends : TokenOf [.semicolon]

namespace Setting

variable {ops : List TokenKind}

/-- The tokens from the operator on. -/
def tokens (s : Setting ops) : List Token := s.op.1 :: (s.value.tokens ++ [s.ends.1])

/-- The texts in CrossGL. -/
def shown (s : Setting ops) : List Text :=
  spelling s.op.1 :: (s.value.shown ++ [spelling s.ends.1])

end Setting

/-- A statement without statements in it. -/
inductive Plain where
  /-- `Type Identifier ;` -/
  | declared (vtype : TypeOf declarationStarts) (name : TokenOf [.identifier])
      (ends : TokenOf [.semicolon])
  /-- `Type Identifier = Expr ;` -/
  | initialized (vtype : TypeOf declarationStarts) (name : TokenOf [.identifier])
      (s : Setting [.equals])
  /-- `Identifier = Expr ;` -/
  | assigned (name : TokenOf [.identifier]) (s : Setting [.equals])
  /-- `Identifier (+= | -= | *= | /=) Expr ;` -/
  | updated (name : TokenOf [.identifier]) (s : Setting updateOperators)
  /-- `Identifier (. Identifier)+ = Expr ;` -/
  | stored (name : TokenOf [.identifier]) (m : Member) (more : List Member) (s : Setting [.equals])
  /-- `return Expr ;` -/
  | returned (word : TokenOf [.returnWord]) (value : Expr) (ends : TokenOf [.semicolon])

namespace Plain

/-- The tokens of a plain statement. -/
def tokens : Plain → List Token
  | declared vtype name ends => [vtype.1.1, name.1, ends.1]
  | initialized vtype name s => vtype.1.1 :: name.1 :: s.tokens
  | assigned name s => name.1 :: s.tokens
  | updated name s => name.1 :: s.tokens
  | stored name m more s => name.1 :: Member.tokens (m :: more) ++ s.tokens
  | returned word value ends => word.1 :: (value.tokens ++ [ends.1])

/-- The tree of a plain statement. -/
def tree : Plain → Tree
  | declared vtype name _ => var (Tree.ofText? vtype.1.1.text) (Tree.ofText? name.1.text)
  | initialized vtype name s =>
    Tree.assignmentBy (var (Tree.ofText? vtype.1.1.text) (Tree.ofText? name.1.text)) s.value.value
      (.text "=")
  | assigned name s =>
    Tree.assignmentBy (var (.text []) (Tree.ofText? name.1.text)) s.value.value (.text "=")
  | updated name s =>
    Tree.binary (var (.text []) (Tree.ofText? name.1.text)) (Tree.ofText? s.op.1.text) s.value.value
  | stored name m more s =>
    Tree.assignmentBy (Member.tree (Tree.ofText? name.1.text) (m :: more)) s.value.value (.text "=")
  | returned _ value _ => Tree.returned value.value

/-- The texts of a plain statement in CrossGL. -/
def shown : Plain → List Text
  | declared vtype name ends => [mappedType vtype.1.1, spelling name.1, spelling ends.1]
  | initialized vtype name s => mappedType vtype.1.1 :: spelling name.1 :: s.shown
  | assigned name s => spelling name.1 :: s.shown
  | updated name s => spelling name.1 :: s.shown
  | stored name m more s => (name.1 :: Member.tokens (m :: more)).map spelling ++ s.shown
  | returned word value ends => spelling word.1 :: (value.shown ++ [spelling ends.1])

/-- No sign is directly followed by the same sign, and nothing is a member of `input` or
`output`. -/
def isClean : Plain → Bool
  | declared .. => true
  | initialized _ _ s | assigned _ s => s.value.isClean
  | updated _ s => s.value.isClean
  | stored name m more s => (Phrase.member name m more).isClean && s.value.isClean
  | returned _ value _ => value.isClean

end Plain

/-- `Type Identifier = Expr ; Expr ; Expr` -/
structure LoopHeader where
  vtype : TokenOf valueTypes
  name : TokenOf [.identifier]
  op : TokenOf [.equals]
  init : Expr
  first : TokenOf [.semicolon]
  condition : Expr
  second : TokenOf [.semicolon]
  update : Expr

namespace LoopHeader

/-- The tokens of a loop header. -/
def tokens (h : LoopHeader) : List Token :=
  h.vtype.1 :: h.name.1 :: h.op.1 :: (h.init.tokens ++ h.first.1 :: (h.condition.tokens ++
    h.second.1 :: h.update.tokens))

/-- The tree of the start of a loop. -/
def start (h : LoopHeader) : Tree :=
  Tree.assignmentBy (var (Tree.ofText? h.vtype.1.text) (Tree.ofText? h.name.1.text)) h.init.value
    (.text "=")

/-- The texts of a loop header in CrossGL. -/
def shown (h : LoopHeader) : List Text :=
  mappedType h.vtype.1 :: spelling h.name.1 :: spelling h.op.1 :: (h.init.shown ++
    spelling h.first.1 :: (h.condition.shown ++ spelling h.second.1 :: h.update.shown))

/-- No sign is directly followed by the same sign, and nothing is a member of `input` or
`output`. -/
def isClean (h : LoopHeader) : Bool :=
  h.init.isClean && h.condition.isClean && h.update.isClean

end LoopHeader

/-! ## §2 Statements -/

/-- What a piece of code is derived from. -/
inductive Part where
  | statement
  | block
  | arm
  | tail
deriving DecidableEq, Repr

/-- What a piece of code stands for. -/
abbrev Part.Value : Part → Type
  | .statement | .tail => Tree
  | .block => List Tree
  | .arm => Tree × List Tree

/-- The derivations of each part. -/
inductive Code : Part → Type where
  /-- `Statement := Plain` -/
  | plain (s : Plain) : Code .statement
  /-- `Statement := if Arm Tail` -/
  | branch (word : TokenOf [.ifWord]) (first : Code .arm) (others : Code .tail) : Code .statement
  /-- `Statement := for ( LoopHeader ) { Block }` -/
  | loop (word : TokenOf [.forWord]) (opens : TokenOf [.leftParen]) (header : LoopHeader)
      (closes : TokenOf [.rightParen]) (starts : TokenOf [.leftBrace]) (body : Code .block)
      (stops : TokenOf [.rightBrace]) : Code .statement
  /-- `Block :=` -/
  | empty : Code .block
  /-- `Block := Statement Block` -/
  | next (s : Code .statement) (more : Code .block) : Code .block
  /-- `Arm := ( Expr ) { Block }` -/
  | arm (opens : TokenOf [.leftParen]) (condition : Expr) (closes : TokenOf [.rightParen])
      (starts : TokenOf [.leftBrace]) (body : Code .block) (stops : TokenOf [.rightBrace]) :
      Code .arm
  /-- `Tail :=` -/
  | noElse : Code .tail
  /-- `Tail := else { Statement Block }` -/
  | otherwise (word : TokenOf [.elseWord]) (starts : TokenOf [.leftBrace]) (s : Code .statement)
      (more : Code .block) (stops : TokenOf [.rightBrace]) : Code .tail
  /-- `Tail := else-if Arm Tail` -/
  | elseIf (word : TokenOf [.elseIfWord]) (first : Code .arm) (others : Code .tail) : Code .tail

namespace Code

/-- The tokens of a piece of code. -/
def tokens {p : Part} : Code p → List Token
  | plain s => s.tokens
  | branch word first others => word.1 :: (first.tokens ++ others.tokens)
  | loop word opens header closes starts body stops =>
    word.1 :: opens.1 :: (header.tokens ++ closes.1 :: starts.1 :: (body.tokens ++ [stops.1]))
  | empty => []
  | next s more => s.tokens ++ more.tokens
  | arm opens condition closes starts body stops =>
    opens.1 :: (condition.tokens ++ closes.1 :: starts.1 :: (body.tokens ++ [stops.1]))
  | noElse => []
  | otherwise word starts s more stops =>
    word.1 :: starts.1 :: (s.tokens ++ more.tokens ++ [stops.1])
  | elseIf word first others => word.1 :: (first.tokens ++ others.tokens)

/-- What a piece of code stands for. -/
def value {p : Part} : Code p → p.Value
  | plain s => s.tree
  | branch _ first others => Tree.branch first.value.1 first.value.2 others.value
  | loop _ _ header _ _ body _ =>
    Tree.forLoop header.start header.condition.value header.update.value body.value
  | empty => []
  | next s more => s.value :: more.value
  | arm _ condition _ _ body _ => (condition.value, body.value)
  | noElse => .absent
  | otherwise _ _ s more _ => .list (s.value :: more.value)
  | elseIf _ first others => Tree.branch first.value.1 first.value.2 others.value

/-- The texts of a piece of code in CrossGL, where `else` and `if` are two words. -/
def shown {p : Part} : Code p → List Text
  | plain s => s.shown
  | branch word first others => spelling word.1 :: (first.shown ++ others.shown)
  | loop word opens header closes starts body stops =>
    spelling word.1 :: spelling opens.1 :: (header.shown ++ spelling closes.1 ::
      spelling starts.1 :: (body.shown ++ [spelling stops.1]))
  | empty => []
  | next s more => s.shown ++ more.shown
  | arm opens condition closes starts body stops =>
    spelling opens.1 :: (condition.shown ++ spelling closes.1 ::
      spelling starts.1 :: (body.shown ++ [spelling stops.1]))
  | noElse => []
  | otherwise word starts s more stops =>
    spelling word.1 :: spelling starts.1 :: (s.shown ++ more.shown ++ [spelling stops.1])
  | elseIf _ first others => "else" :: "if" :: (first.shown ++ others.shown)

/-- No sign is directly followed by the same sign, and nothing is a member of `input` or
`output`. -/
def isClean {p : Part} : Code p → Bool
  | plain s => s.isClean
  | branch _ first others | elseIf _ first others => first.isClean && others.isClean
  | loop _ _ header _ _ body _ => header.isClean && body.isClean
  | empty | noElse => true
  | next s more => s.isClean && more.isClean
  | arm _ condition _ _ body _ => condition.isClean && body.isClean
  | otherwise _ _ s more _ => s.isClean && more.isClean

end Code

/-! ## §3 Functions -/

/-- The kinds of type that may stand in the header of a function. -/
def headerTypes : List TokenKind := [.voidType, .texture2dType, .matrixType] ++ declarationStarts

/-- `Type Identifier` -/
structure Param where
  vtype : TypeOf headerTypes
  name : TokenOf [.identifier]

namespace Param

/-- The tokens of a parameter. -/
def tokens (p : Param) : List Token := [p.vtype.1.1, p.name.1]

/-- The tree of a parameter. -/
def tree (p : Param) : Tree := var (Tree.ofText? p.vtype.1.1.text) (Tree.ofText? p.name.1.text)

/-- The texts of a parameter in CrossGL. -/
def shown (p : Param) : List Text := [mappedType p.vtype.1.1, spelling p.name.1]

end Param

/-- One or more parameters with commas between them. -/
inductive Params where
  | one (p : Param)
  | more (p : Param) (comma : TokenOf [.comma]) (ps : Params)

namespace Params

/-- The tokens of parameters. -/
def tokens : Params → List Token
  | one p => p.tokens
  | more p comma ps => p.tokens ++ comma.1 :: ps.tokens

/-- The trees of parameters. -/
def trees : Params → List Tree
  | one p => [p.tree]
  | more p _ ps => p.tree :: ps.trees

/-- The texts of parameters in CrossGL. -/
def shown : Params → List Text
  | one p => p.shown
  | more p comma ps => p.shown ++ spelling comma.1 :: ps.shown

end Params

/-- `Type Identifier ( [Params] ) { Block }` -/
structure Function where
  vtype : TypeOf headerTypes
  name : TokenOf [.identifier]
  opens : TokenOf [.leftParen]
  params : Option Params
  closes : TokenOf [.rightParen]
  starts : TokenOf [.leftBrace]
  body : Code .block
  stops : TokenOf [.rightBrace]

namespace Function

/-- The tokens of a function. -/
def tokens (f : Function) : List Token :=
  f.vtype.1.1 :: f.name.1 :: f.opens.1 :: (f.params.elim [] Params.tokens ++
    f.closes.1 :: f.starts.1 :: (f.body.tokens ++ [f.stops.1]))

/-- The tree of a function. -/
def tree (f : Function) : Tree :=
  Tree.function (Tree.ofText? f.vtype.1.1.text) (Tree.ofText? f.name.1.text)
    (f.params.elim [] Params.trees) f.body.value

/-- The texts of the tokens of a function, with every type under its name in CrossGL, with `else`
and `if` as two words, and without the parentheses that only group. -/
def shown (f : Function) : List Text :=
  mappedType f.vtype.1.1 :: spelling f.name.1 :: spelling f.opens.1 ::
    (f.params.elim [] Params.shown ++ spelling f.closes.1 :: spelling f.starts.1 ::
      (f.body.shown ++ [spelling f.stops.1]))

/-- No sign is directly followed by the same sign, parentheses that only group aside, and nothing is
a member of `input` or `output`. -/
def isClean (f : Function) : Bool := f.body.isClean

end Function

/-! ## §4 Small facts -/

theorem Setting.commentFree {ops : List TokenKind} (h : ∀ k ∈ ops, k.isComment = false)
    (s : Setting ops) : CommentFree s.tokens := by
  refine commentFree_cons.2 ⟨h _ s.op.2, ?_⟩
  simp [s.value.commentFree]

theorem declarationStarts_notComment : ∀ k ∈ declarationStarts, k.isComment = false := by decide

theorem headerTypes_notComment : ∀ k ∈ headerTypes, k.isComment = false := by decide

theorem Plain.commentFree (s : Plain) : CommentFree s.tokens := by
  cases s with
  | declared vtype name ends =>
    exact commentFree_cons.2 ⟨declarationStarts_notComment _ vtype.1.2, by simp⟩
  | initialized vtype name s =>
    refine commentFree_cons.2 ⟨declarationStarts_notComment _ vtype.1.2, ?_⟩
    exact commentFree_cons.2 ⟨by simp, s.commentFree (by decide)⟩
  | assigned name s => exact commentFree_cons.2 ⟨by simp, s.commentFree (by decide)⟩
  | updated name s => exact commentFree_cons.2 ⟨by simp, s.commentFree (by decide)⟩
  | stored name m more s =>
    exact commentFree_append.2 ⟨commentFree_cons.2 ⟨by simp, Member.commentFree _⟩,
      s.commentFree (by decide)⟩
  | returned word value ends => simp [tokens, value.commentFree]

theorem LoopHeader.commentFree (h : LoopHeader) : CommentFree h.tokens := by
  simp [tokens, Phrase.commentFree, valueTypes]

theorem Code.commentFree {p : Part} (c : Code p) : CommentFree c.tokens := by
  induction c <;>
    simp_all [Code.tokens, Plain.commentFree, LoopHeader.commentFree, Phrase.commentFree]

theorem Param.commentFree (p : Param) : CommentFree p.tokens :=
  commentFree_cons.2 ⟨headerTypes_notComment _ p.vtype.1.2, by simp⟩

theorem Params.commentFree (ps : Params) : CommentFree ps.tokens := by
  induction ps <;> simp_all [Params.tokens, Param.commentFree]

/-- What a statement begins with. -/
def statementStarts : List TokenKind := [.ifWord, .forWord, .returnWord] ++ declarationStarts

theorem Plain.firstKind_mem (s : Plain) (rest : List Token) :
    firstKind (s.tokens ++ rest) ∈ .returnWord :: declarationStarts := by
  cases s with
  | declared vtype | initialized vtype => exact vtype.1.mem (by decide)
  | assigned name | updated name | stored name => exact name.mem (by decide)
  | returned word => exact word.mem (by decide)

theorem Code.firstKind_statement (s : Code .statement) (rest : List Token) :
    firstKind (s.tokens ++ rest) ∈ statementStarts := by
  cases s with
  | plain s =>
    have hstarts : ∀ k ∈ .returnWord :: declarationStarts, k ∈ statementStarts := by decide
    exact hstarts _ (s.firstKind_mem rest)
  | branch word => exact word.mem (by decide)
  | loop word => exact word.mem (by decide)

/-- A block begins with a statement, or what follows it comes at once. -/
theorem Code.firstKind_block (b : Code .block) (rest : List Token) :
    firstKind (b.tokens ++ rest) ∈ firstKind rest :: statementStarts := by
  cases b with
  | empty => exact List.mem_cons_self
  | next s more =>
    rw [Code.tokens, List.append_assoc]
    exact List.mem_cons_of_mem _ (s.firstKind_statement _)

end ShaderBridge.Hlsl
