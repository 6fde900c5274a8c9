import ShaderBridge.Proofs.CrossGl.Phrase

/-!
# Plain code of CrossGL

The functions whose text survives being read and written again, given by their derivations.

    Function    := Type (main | Identifier) ( [Type Identifier (, Type Identifier)*] ) { Block }
    Block       := Statement*
    Statement   := Plain | return Expr (, Expr)* ;
                 | if Arm (else if Arm)* [else { Statement Block }]
                 | for ( Plain Plain Update ) { Block }
    Arm         := ( Expr ) { Block }
    Plain       := [Type] Identifier ; | [Type] Assignment ;
    Assignment  := Identifier (. Identifier)* operator Expr
    Update      := Identifier (++ | --) | (++ | --) Identifier | Assignment

Expressions are phrases whose links have a symbol of their own.
-/

namespace ShaderBridge.CrossGl

open Ladder

/-! ## §1 Plain statements -/

/-- The links that are written as symbols. -/
def writtenLinks : List TokenKind :=
  [.lessThan, .greaterThan, .lessEqual, .greaterEqual, .equal, .notEqual, .equals, .assignAdd,
   .assignSub, .assignMul, .assignDiv]

/-- The expressions of plain code. -/
abbrev Expr := Phrase writtenLinks .expr

/-- The types that a declaration may begin with. -/
def localTypes : List TokenKind := [.vectorType, .floatType, .doubleType, .uintType, .intType]

/-- A type that may be left out. -/
abbrev LocalType := Option (TokenOf localTypes)

namespace LocalType

/-- The tokens of a type. -/
def tokens : LocalType → List Token
  | some t => [t.1]
  | none => []

/-- The value of a type, which is empty where it is left out. -/
def tree : LocalType → Tree
  | some t => Tree.ofText? t.1.text
  | none => .text []

end LocalType

/-- `Identifier (. Identifier)* operator Expr` -/
structure Assignment where
  name : TokenOf [.identifier]
  members : List Member
  op : TokenOf assignOperators
  value : Expr

namespace Assignment

/-- The tokens of the left side. -/
def target (a : Assignment) : List Token := a.name.1 :: Member.tokens a.members

/-- The tokens of an assignment. -/
def tokens (a : Assignment) : List Token := a.target ++ a.op.1 :: a.value.tokens

/-- The tokens without grouping. -/
def bare (a : Assignment) : List Token := a.target ++ a.op.1 :: a.value.bare

/-- The tree of an assignment to a variable of a type. -/
def tree (a : Assignment) (vtype : Tree) : Tree :=
  Tree.binary (Tree.var vtype (Member.tree (Tree.ofText? a.name.1.text) a.members))
    (Tree.ofText? a.op.1.text) a.value.value

end Assignment

/-- A declaration or an assignment. -/
inductive Plain where
  /-- `[Type] Identifier ;` -/
  | declared (vtype : LocalType) (name : TokenOf [.identifier]) (ends : TokenOf [.semicolon])
  /-- `[Type] Assignment ;` -/
  | assigned (vtype : LocalType) (a : Assignment) (ends : TokenOf [.semicolon])

namespace Plain

/-- The tokens of a plain statement. -/
def tokens : Plain → List Token
  | declared vtype name ends => vtype.tokens ++ [name.1, ends.1]
  | assigned vtype a ends => vtype.tokens ++ a.tokens ++ [ends.1]

/-- The tokens without grouping. -/
def bare : Plain → List Token
  | declared vtype name ends => vtype.tokens ++ [name.1, ends.1]
  | assigned vtype a ends => vtype.tokens ++ a.bare ++ [ends.1]

/-- The tree of a plain statement. -/
def tree : Plain → Tree
  | declared vtype name _ => Tree.var vtype.tree (Tree.ofText? name.1.text)
  | assigned vtype a _ => a.tree vtype.tree

/-- No sign is directly followed by the same sign. -/
def SignsApart : Plain → Prop
  | declared .. => True
  | assigned _ a _ => a.value.SignsApart

end Plain

/-- The update of a loop. -/
inductive Update where
  /-- `Identifier (++ | --)` -/
  | after (name : TokenOf [.identifier]) (step : TokenOf [.increment, .decrement])
  /-- `(++ | --) Identifier` -/
  | before (step : TokenOf [.increment, .decrement]) (name : TokenOf [.identifier])
  /-- `Assignment` -/
  | assigned (a : Assignment)

namespace Update

/-- The tokens of an update. -/
def tokens : Update → List Token
  | after name step => [name.1, step.1]
  | before step name => [step.1, name.1]
  | assigned a => a.tokens

/-- The tokens without grouping. -/
def bare : Update → List Token
  | after name step => [name.1, step.1]
  | before step name => [step.1, name.1]
  | assigned a => a.bare

/-- The texts of two tokens as one. -/
def joinedText (t u : Token) : Tree := .text (t.text.getD [] ++ u.text.getD [])

/-- The tree of an update. -/
def tree : Update → Tree
  | after name step => Tree.var (.text []) (joinedText name.1 step.1)
  | before step name => Tree.var (.text []) (joinedText step.1 name.1)
  | assigned a => a.tree (.text [])

/-- No sign is directly followed by the same sign. -/
def SignsApart : Update → Prop
  | after .. | before .. => True
  | assigned a => a.value.SignsApart

end Update

/-! ## §2 Statements -/

/-- What a piece of code is derived from. -/
inductive Part where
  | statement
  | block
  | arm
  | alternatives
  | ending
deriving DecidableEq, Repr

/-- What a piece of code stands for. -/
abbrev Part.Value : Part → Type
  | .statement | .ending => Tree
  | .block => List Tree
  | .arm => Tree × List Tree
  | .alternatives => List (Tree × List Tree)

/-- The derivations of each part. -/
inductive Code : Part → Type where
  /-- `Statement := Plain` -/
  | plain (s : Plain) : Code .statement
  /-- `Statement := return Arguments ;` -/
  | returned (word : TokenOf [.returnWord]) (values : Phrase writtenLinks .arguments)
      (ends : TokenOf [.semicolon]) : Code .statement
  /-- `Statement := if Arm Alternatives Ending` -/
  | branch (word : TokenOf [.ifWord]) (first : Code .arm) (others : Code .alternatives)
      (last : Code .ending) : Code .statement
  /-- `Statement := for ( Plain Plain Update ) { Block }` -/
  | loop (word : TokenOf [.forWord]) (opens : TokenOf [.leftParen]) (init condition : Plain)
      (update : Update) (closes : TokenOf [.rightParen]) (starts : TokenOf [.leftBrace])
      (body : Code .block) (stops : TokenOf [.rightBrace]) : Code .statement
  /-- `Block :=` -/
  | empty : Code .block
  /-- `Block := Statement Block` -/
  | next (s : Code .statement) (more : Code .block) : Code .block
  /-- `Arm := ( Expr ) { Block }` -/
  | arm (opens : TokenOf [.leftParen]) (condition : Expr) (closes : TokenOf [.rightParen])
      (starts : TokenOf [.leftBrace]) (body : Code .block) (stops : TokenOf [.rightBrace]) :
      Code .arm
  /-- `Alternatives :=` -/
  | noAlternative : Code .alternatives
  /-- `Alternatives := else if Arm Alternatives` -/
  | alternative (elseWord : TokenOf [.elseWord]) (ifWord : TokenOf [.ifWord]) (first : Code .arm)
      (others : Code .alternatives) : Code .alternatives
  /-- `Ending :=` -/
  | noElse : Code .ending
  /-- `Ending := else { Statement Block }` -/
  | otherwise (word : TokenOf [.elseWord]) (starts : TokenOf [.leftBrace]) (s : Code .statement)
      (more : Code .block) (stops : TokenOf [.rightBrace]) : Code .ending

namespace Code

/-- The tokens of a piece of code. -/
def tokens {p : Part} : Code p → List Token
  | plain s => s.tokens
  | returned word values ends => word.1 :: (values.tokens ++ [ends.1])
  | branch word first others last => word.1 :: (first.tokens ++ (others.tokens ++ last.tokens))
  | loop word opens init condition update closes starts body stops =>
    word.1 :: opens.1 :: (init.tokens ++ (condition.tokens ++ (update.tokens ++
      closes.1 :: starts.1 :: (body.tokens ++ [stops.1]))))
  | empty => []
  | next s more => s.tokens ++ more.tokens
  | arm opens condition closes starts body stops =>
    opens.1 :: (condition.tokens ++ closes.1 :: starts.1 :: (body.tokens ++ [stops.1]))
  | noAlternative => []
  | alternative elseWord ifWord first others =>
    elseWord.1 :: ifWord.1 :: (first.tokens ++ others.tokens)
  | noElse => []
  | otherwise word starts s more stops =>
    word.1 :: starts.1 :: (s.tokens ++ more.tokens ++ [stops.1])

/-- The tokens without grouping. -/
def bare {p : Part} : Code p → List Token
  | plain s => s.bare
  | returned word values ends => word.1 :: (values.bare ++ [ends.1])
  | branch word first others last => word.1 :: (first.bare ++ (others.bare ++ last.bare))
  | loop word opens init condition update closes starts body stops =>
    word.1 :: opens.1 :: (init.bare ++ (condition.bare ++ (update.bare ++
      closes.1 :: starts.1 :: (body.bare ++ [stops.1]))))
  | empty => []
  | next s more => s.bare ++ more.bare
  | arm opens condition closes starts body stops =>
    opens.1 :: (condition.bare ++ closes.1 :: starts.1 :: (body.bare ++ [stops.1]))
  | noAlternative => []
  | alternative elseWord ifWord first others =>
    elseWord.1 :: ifWord.1 :: (first.bare ++ others.bare)
  | noElse => []
  | otherwise word starts s more stops =>
    word.1 :: starts.1 :: (s.bare ++ more.bare ++ [stops.1])

/-- What a piece of code stands for. -/
def value {p : Part} : Code p → p.Value
  | plain s => s.tree
  | returned _ values _ => Tree.returned (.list values.value)
  | branch _ first others last =>
    .node .branch
      [(.ifCondition, first.value.1), (.ifBody, .list first.value.2),
       (.elseIfConditions, .list (others.value.map (·.1))),
       (.elseIfBodies, .list (others.value.map fun a => .list a.2)),
       (.elseBody, last.value)]
  | loop _ _ init condition update _ _ body _ =>
    Tree.forLoop init.tree condition.tree update.tree body.value
  | empty => []
  | next s more => s.value :: more.value
  | arm _ condition _ _ body _ => (condition.value, body.value)
  | noAlternative => []
  | alternative _ _ first others => first.value :: others.value
  | noElse => .absent
  | otherwise _ _ s more _ => .list (s.value :: more.value)

/-- No sign is directly followed by the same sign, parentheses that only group aside. -/
def SignsApart {p : Part} : Code p → Prop
  | plain s => s.SignsApart
  | returned _ values _ => values.SignsApart
  | branch _ first others last => first.SignsApart ∧ others.SignsApart ∧ last.SignsApart
  | loop _ _ init condition update _ _ body _ =>
    init.SignsApart ∧ condition.SignsApart ∧ update.SignsApart ∧ body.SignsApart
  | empty | noAlternative | noElse => True
  | next s more => s.SignsApart ∧ more.SignsApart
  | arm _ condition _ _ body _ => condition.SignsApart ∧ body.SignsApart
  | alternative _ _ first others => first.SignsApart ∧ others.SignsApart
  | otherwise _ _ s more _ => s.SignsApart ∧ more.SignsApart

end Code

/-! ## §3 Functions -/

/-- The types that may stand in the header of a function. -/
def headerTypes : List TokenKind := .voidType :: .identifier :: interfaceTypes

/-- The value of a type in a header. -/
def typeTree (t : TokenOf headerTypes) : Tree :=
  if t.1.kind = .voidType then .text "void" else Tree.ofText? t.1.text

/-- `Type Identifier` -/
structure Param where
  vtype : TokenOf headerTypes
  name : TokenOf [.identifier]

namespace Param

/-- The tokens of a parameter. -/
def tokens (p : Param) : List Token := [p.vtype.1, p.name.1]

/-- The value of a parameter. -/
def tree (p : Param) : Tree := .tuple [typeTree p.vtype, Tree.ofText? p.name.1.text]

end Param

/-- One or more parameters with commas between them. -/
inductive Params where
  | one (p : Param)
  | more (p : Param) (comma : TokenOf [.comma]) (ps : Params)

namespace Params

/-- The tokens of parameters. -/
def tokens : Params → List Token
  | one p => p.tokens
  | more p comma ps => p.tokens ++ comma.1 :: ps.tokens

/-- The values of parameters. -/
def trees : Params → List Tree
  | one p => [p.tree]
  | more p _ ps => p.tree :: ps.trees

end Params

/-- `Type (main | Identifier) ( [Params] ) { Block }` -/
structure Function where
  vtype : TokenOf headerTypes
  name : TokenOf [.mainWord, .identifier]
  opens : TokenOf [.leftParen]
  params : Option Params
  closes : TokenOf [.rightParen]
  starts : TokenOf [.leftBrace]
  body : Code .block
  stops : TokenOf [.rightBrace]

namespace Function

/-- The tokens of the header, up to the opening brace. -/
def header (f : Function) : List Token :=
  f.vtype.1 :: f.name.1 :: f.opens.1 :: ((f.params.elim [] Params.tokens) ++
    [f.closes.1, f.starts.1])

/-- The tokens of a function. -/
def tokens (f : Function) : List Token := f.header ++ (f.body.tokens ++ [f.stops.1])

/-- The tokens without grouping. -/
def bare (f : Function) : List Token := f.header ++ (f.body.bare ++ [f.stops.1])

/-- The tree of a function. -/
def tree (f : Function) : Tree :=
  Tree.function (typeTree f.vtype) (Tree.ofText? f.name.1.text) (f.params.elim [] Params.trees)
    f.body.value

/-- No sign is directly followed by the same sign, parentheses that only group aside. -/
def SignsApart (f : Function) : Prop := f.body.SignsApart

end Function

/-! ## §4 Small facts -/

theorem writtenLinks_subset : ∀ k ∈ writtenLinks, k ∈ linkOperators := by decide

theorem Phrase.commentFree_written {r : Rank} (p : Phrase writtenLinks r) :
    CommentFree p.tokens :=
  p.commentFree (by decide) (by decide)

theorem LocalType.commentFree (t : LocalType) : CommentFree t.tokens := by
  cases t <;> simp [LocalType.tokens, localTypes]

theorem Assignment.commentFree (a : Assignment) : CommentFree a.tokens := by
  simp [Assignment.tokens, Assignment.target, Member.commentFree, Phrase.commentFree_written,
    assignOperators, updateOperators]

theorem Plain.commentFree (s : Plain) : CommentFree s.tokens := by
  cases s <;> simp [Plain.tokens, LocalType.commentFree, Assignment.commentFree]

theorem Update.commentFree (u : Update) : CommentFree u.tokens := by
  cases u <;> simp [Update.tokens, Assignment.commentFree]

theorem Code.commentFree {p : Part} (c : Code p) : CommentFree c.tokens := by
  induction c <;>
    simp_all [Code.tokens, Plain.commentFree, Update.commentFree, Phrase.commentFree_written]

theorem Params.commentFree (ps : Params) : CommentFree ps.tokens := by
  induction ps <;> simp_all [Params.tokens, Param.tokens, headerTypes, interfaceTypes, valueTypes]

theorem Plain.bare_sublist (s : Plain) : s.bare.Sublist s.tokens := by
  cases s with
  | declared => exact List.Sublist.refl _
  | assigned vtype a ends =>
    exact ((List.Sublist.refl _).append ((List.Sublist.refl _).append
      (a.value.bare_sublist.cons_cons _))).append (List.Sublist.refl _)

theorem Update.bare_sublist (u : Update) : u.bare.Sublist u.tokens := by
  cases u with
  | after | before => exact List.Sublist.refl _
  | assigned a => exact (List.Sublist.refl _).append (a.value.bare_sublist.cons_cons _)

/-- Without the grouping, the tokens keep their order. -/
theorem Code.bare_sublist {p : Part} (c : Code p) : c.bare.Sublist c.tokens := by
  induction c with
  | plain s => exact s.bare_sublist
  | returned word values ends =>
    exact (values.bare_sublist.append (List.Sublist.refl _)).cons_cons _
  | branch word first others last ih ih' ih'' => exact (ih.append (ih'.append ih'')).cons_cons _
  | loop word opens init condition u closes starts b stops ih =>
    exact ((init.bare_sublist.append (condition.bare_sublist.append (u.bare_sublist.append
      (((ih.append (List.Sublist.refl _)).cons_cons _).cons_cons _)))).cons_cons _).cons_cons _
  | empty | noAlternative | noElse => exact List.Sublist.refl _
  | next s more ih ih' => exact ih.append ih'
  | arm opens condition closes starts b stops ih =>
    exact (condition.bare_sublist.append
      (((ih.append (List.Sublist.refl _)).cons_cons _).cons_cons _)).cons_cons _
  | alternative elseWord ifWord first others ih ih' =>
    exact ((ih.append ih').cons_cons _).cons_cons _
  | otherwise word starts s more stops ih ih' =>
    exact (((ih.append ih').append (List.Sublist.refl _)).cons_cons _).cons_cons _

theorem Function.bare_sublist (f : Function) : f.bare.Sublist f.tokens :=
  (List.Sublist.refl _).append (f.body.bare_sublist.append (List.Sublist.refl _))

/-- What a statement begins with. -/
def statementStarts : List TokenKind := [.ifWord, .forWord, .returnWord] ++ bodyStarts

theorem Plain.firstKind_mem (s : Plain) (rest : List Token) :
    firstKind (s.tokens ++ rest) ∈ bodyStarts := by
  cases s with
  | declared vtype name ends =>
    cases vtype with
    | none => exact name.mem (by decide)
    | some t => exact t.mem (by decide)
  | assigned vtype a ends =>
    cases vtype with
    | none => exact a.name.mem (by decide)
    | some t => exact t.mem (by decide)

theorem Code.firstKind_statement (s : Code .statement) (rest : List Token) :
    firstKind (s.tokens ++ rest) ∈ statementStarts := by
  cases s with
  | plain s => exact List.mem_append_right _ (s.firstKind_mem rest)
  | returned word => exact word.mem (by decide)
  | branch word => exact word.mem (by decide)
  | loop word => exact word.mem (by decide)

/-- A block begins with a statement, or what follows it comes at once. -/
theorem Code.firstKind_block (b : Code .block) (rest : List Token) :
    firstKind (b.tokens ++ rest) ∈ firstKind rest :: statementStarts := by
  cases b with
  | empty => exact List.mem_cons_self
  | next s more =>
    rw [Code.tokens, List.append_assoc]
    exact List.mem_cons_of_mem _ (s.firstKind_statement _)

end ShaderBridge.CrossGl
