import ShaderBridge.Grammar.CrossGl
import ShaderBridge.Proofs.Ladder

/-!
# Phrases of CrossGL expressions

The grammar of expressions, given by its derivations: a `Phrase` of a rank is a derivation of that
rank, with the tokens it derives (`Phrase.tokens`) and the tree that it stands for
(`Phrase.value`).

    Expr    := (Sum link)* Last
    Last    := Sum | Sum ? Expr : Expr
    Sum     := Product ((+ | -) Product)*
    Product := Signed ((* | /) Signed)*
    Signed  := (+ | -) Signed | Operand
    Operand := ( Expr ) | Number | Name | Name ( [Expr (, Expr)*] ) | Name (. Identifier)+

Chains are joined from the left, so the derivations of `Sum` and `Product` are nested to the left,
and `(Sum link)* Last` is derived as `Last` or as `Head link Last`, where a head is one or more sums
with links between them.  The grammar is over the kinds of link that it is given.
-/

namespace ShaderBridge.CrossGl

open Ladder

/-! ## §1 Phrases -/

/-- The operators that link sums in an expression: comparison, logic, assignment and shift. -/
def linkOperators : List TokenKind :=
  [.lessThan, .greaterThan, .lessEqual, .greaterEqual, .equal, .notEqual, .logicalAnd, .logicalOr,
   .equals, .assignAdd, .assignSub, .assignMul, .assignDiv, .assignAnd, .assignOr, .assignXor,
   .assignMod, .shiftRight, .shiftLeft, .assignShiftRight]

/-- The kinds of name in an expression. -/
abbrev nameKinds : List TokenKind := sectionStarts

/-- What a phrase is derived from. -/
inductive Rank where
  | expr
  | head
  | last
  | sum
  | product
  | signed
  | operand
  | arguments
deriving DecidableEq, Repr

/-- What a phrase of a rank stands for. -/
abbrev Rank.Value : Rank → Type
  | .arguments => List Tree
  | _ => Tree

/-- The derivations of each rank, with the given kinds of link. -/
inductive Phrase (links : List TokenKind) : Rank → Type where
  /-- `Expr := Last` -/
  | alone (l : Phrase links .last) : Phrase links .expr
  /-- `Expr := Head link Last` -/
  | linked (h : Phrase links .head) (op : TokenOf links) (l : Phrase links .last) :
      Phrase links .expr
  /-- `Head := Sum` -/
  | opening (a : Phrase links .sum) : Phrase links .head
  /-- `Head := Head link Sum` -/
  | extended (h : Phrase links .head) (op : TokenOf links) (a : Phrase links .sum) :
      Phrase links .head
  /-- `Last := Sum` -/
  | settled (a : Phrase links .sum) : Phrase links .last
  /-- `Last := Sum ? Expr : Expr` -/
  | choice (a : Phrase links .sum) (mark : TokenOf [.question]) (yes : Phrase links .expr)
      (colon : TokenOf [.colon]) (no : Phrase links .expr) : Phrase links .last
  /-- `Sum := Product` -/
  | term (m : Phrase links .product) : Phrase links .sum
  /-- `Sum := Sum (+ | -) Product` -/
  | added (a : Phrase links .sum) (op : TokenOf [.plus, .minus]) (m : Phrase links .product) :
      Phrase links .sum
  /-- `Product := Signed` -/
  | factor (u : Phrase links .signed) : Phrase links .product
  /-- `Product := Product (* | /) Signed` -/
  | scaled (m : Phrase links .product) (op : TokenOf [.multiply, .divide])
      (u : Phrase links .signed) : Phrase links .product
  /-- `Signed := Operand` -/
  | unsigned (o : Phrase links .operand) : Phrase links .signed
  /-- `Signed := (+ | -) Signed` -/
  | sign (s : TokenOf [.plus, .minus]) (u : Phrase links .signed) : Phrase links .signed
  /-- `Operand := ( Expr )` -/
  | group (opens : TokenOf [.leftParen]) (e : Phrase links .expr)
      (closes : TokenOf [.rightParen]) : Phrase links .operand
  /-- `Operand := Number` -/
  | number (n : TokenOf [.number, .decimal]) : Phrase links .operand
  /-- `Operand := Name` -/
  | name (n : TokenOf nameKinds) : Phrase links .operand
  /-- `Operand := Name ( )` -/
  | emptyCall (n : TokenOf nameKinds) (opens : TokenOf [.leftParen])
      (closes : TokenOf [.rightParen]) : Phrase links .operand
  /-- `Operand := Name ( Arguments )` -/
  | call (n : TokenOf nameKinds) (opens : TokenOf [.leftParen]) (args : Phrase links .arguments)
      (closes : TokenOf [.rightParen]) : Phrase links .operand
  /-- `Operand := Name (. Identifier)+` -/
  | member (n : TokenOf nameKinds) (m : Member) (more : List Member) : Phrase links .operand
  /-- `Arguments := Expr` -/
  | argument (e : Phrase links .expr) : Phrase links .arguments
  /-- `Arguments := Expr , Arguments` -/
  | further (e : Phrase links .expr) (comma : TokenOf [.comma]) (args : Phrase links .arguments) :
      Phrase links .arguments

namespace Phrase

variable {links : List TokenKind}

/-- The tokens that a phrase derives. -/
def tokens {r : Rank} : Phrase links r → List Token
  | alone l => l.tokens
  | linked h op l => h.tokens ++ op.1 :: l.tokens
  | opening a => a.tokens
  | extended h op a => h.tokens ++ op.1 :: a.tokens
  | settled a => a.tokens
  | choice a mark yes colon no => a.tokens ++ mark.1 :: (yes.tokens ++ colon.1 :: no.tokens)
  | term m => m.tokens
  | added a op m => a.tokens ++ op.1 :: m.tokens
  | factor u => u.tokens
  | scaled m op u => m.tokens ++ op.1 :: u.tokens
  | unsigned o => o.tokens
  | sign s u => s.1 :: u.tokens
  | group opens e closes => opens.1 :: (e.tokens ++ [closes.1])
  | number n => [n.1]
  | name n => [n.1]
  | emptyCall n opens closes => [n.1, opens.1, closes.1]
  | call n opens args closes => n.1 :: opens.1 :: (args.tokens ++ [closes.1])
  | member n m more => n.1 :: Member.tokens (m :: more)
  | argument e => e.tokens
  | further e comma args => e.tokens ++ comma.1 :: args.tokens

/-- The value of an operator inside an expression: the label of its kind. -/
def label (op : Token) : Tree := Ladder.OperatorForm.byLabel.value op

/-- What a phrase stands for. -/
def value {r : Rank} : Phrase links r → r.Value
  | alone l => l.value
  | linked h op l => Tree.binary h.value (label op.1) l.value
  | opening a => a.value
  | extended h op a => Tree.binary h.value (label op.1) a.value
  | settled a => a.value
  | choice a _ yes _ no => Tree.ternary a.value yes.value no.value
  | term m => m.value
  | added a op m => Tree.binary a.value (label op.1) m.value
  | factor u => u.value
  | scaled m op u => Tree.binary m.value (label op.1) u.value
  | unsigned o => o.value
  | sign s u => Tree.unary (label s.1) u.value
  | group _ e _ => e.value
  | number n => Tree.ofText? n.1.text
  | name n => Tree.var (.text []) (Tree.ofText? n.1.text)
  | emptyCall n _ _ => Tree.call (Tree.ofText? n.1.text) []
  | call n _ args _ => Tree.call (Tree.ofText? n.1.text) args.value
  | member n m more => Member.tree (Tree.ofText? n.1.text) (m :: more)
  | argument e => [e.value]
  | further e _ args => e.value :: args.value

theorem tokens_ne_nil {r : Rank} (p : Phrase links r) : p.tokens ≠ [] := by
  induction p <;> simp_all [tokens]

/-! ## §2 The first token -/

/-- What an operand begins with. -/
def operandStarts : List TokenKind := [.leftParen, .number, .decimal] ++ nameKinds

/-- What a phrase begins with. -/
def starts : List TokenKind := [.plus, .minus] ++ operandStarts

theorem firstKind_operand (p : Phrase links .operand) (rest : List Token) :
    firstKind (p.tokens ++ rest) ∈ operandStarts := by
  cases p with
  | group t | number t | name t | emptyCall t | call t | member t => exact t.mem (by decide)

theorem firstKind_mem {r : Rank} (p : Phrase links r) (rest : List Token) :
    firstKind (p.tokens ++ rest) ∈ starts := by
  induction p generalizing rest with
  | sign s => exact List.mem_append_left _ s.2
  | group | number | name | emptyCall | call | member =>
    exact List.mem_append_right _ (firstKind_operand _ rest)
  | linked h op l ih | extended h op l ih | choice h op _ _ _ ih | added h op l ih
  | scaled h op l ih | further h op l ih =>
    simpa [tokens] using ih _
  | alone l ih | opening l ih | settled l ih | term l ih | factor l ih | unsigned l ih
  | argument l ih => exact ih rest

theorem commentFree {r : Rank} (hline : .lineComment ∉ links) (hblock : .blockComment ∉ links)
    (p : Phrase links r) : CommentFree p.tokens := by
  induction p <;> simp_all [tokens, sectionStarts, valueTypes, Member.commentFree]

theorem kind_ne_endOfInput {r : Rank} (hlinks : .endOfInput ∉ links) (p : Phrase links r) :
    ∀ t ∈ p.tokens, t.kind ≠ .endOfInput := by
  induction p with
  | member n m more =>
    have hkinds : ∀ k ∈ [TokenKind.dot, .identifier], k ≠ .endOfInput := by decide
    refine List.forall_mem_cons.2 ⟨?_, fun t ht => hkinds _ (Member.kind_mem ht)⟩
    simp [sectionStarts, valueTypes]
  | _ => simp_all [tokens, sectionStarts, valueTypes, or_imp]

/-! ## §3 Phrases without grouping -/

/-- The tokens that a phrase derives, without the parentheses that only group, and with every word
replaced by its image.  The names of members are no words. -/
def shown (image : Token → Token) {r : Rank} : Phrase links r → List Token
  | alone l => l.shown image
  | linked h op l => h.shown image ++ op.1 :: l.shown image
  | opening a => a.shown image
  | extended h op a => h.shown image ++ op.1 :: a.shown image
  | settled a => a.shown image
  | choice a mark yes colon no =>
    a.shown image ++ mark.1 :: (yes.shown image ++ colon.1 :: no.shown image)
  | term m => m.shown image
  | added a op m => a.shown image ++ op.1 :: m.shown image
  | factor u => u.shown image
  | scaled m op u => m.shown image ++ op.1 :: u.shown image
  | unsigned o => o.shown image
  | sign s u => s.1 :: u.shown image
  | group _ e _ => e.shown image
  | number n => [n.1]
  | name n => [image n.1]
  | emptyCall n opens closes => [image n.1, opens.1, closes.1]
  | call n opens args closes => image n.1 :: opens.1 :: (args.shown image ++ [closes.1])
  | member n m more => image n.1 :: Member.tokens (m :: more)
  | argument e => e.shown image
  | further e comma args => e.shown image ++ comma.1 :: args.shown image

/-- The tokens that a phrase derives, without the parentheses that only group. -/
def bare {r : Rank} (p : Phrase links r) : List Token := p.shown id

/-- No sign is directly followed by the same sign, parentheses that only group aside. -/
def SignsApart {r : Rank} : Phrase links r → Prop
  | alone l => l.SignsApart
  | linked h _ l => h.SignsApart ∧ l.SignsApart
  | opening a => a.SignsApart
  | extended h _ a => h.SignsApart ∧ a.SignsApart
  | settled a => a.SignsApart
  | choice a _ yes _ no => a.SignsApart ∧ yes.SignsApart ∧ no.SignsApart
  | term m => m.SignsApart
  | added a _ m => a.SignsApart ∧ m.SignsApart
  | factor u => u.SignsApart
  | scaled m _ u => m.SignsApart ∧ u.SignsApart
  | unsigned o => o.SignsApart
  | sign s u => firstKind u.bare ≠ s.1.kind ∧ u.SignsApart
  | group _ e _ => e.SignsApart
  | number _ | name _ | emptyCall _ _ _ | member _ _ _ => True
  | call _ _ args _ => args.SignsApart
  | argument e => e.SignsApart
  | further e _ args => e.SignsApart ∧ args.SignsApart

/-- What the tokens of a phrase begin with, parentheses that only group aside. -/
def bareStarts : List TokenKind := [.plus, .minus, .number, .decimal] ++ nameKinds

/-- The first token that is shown comes from the first token without grouping. -/
theorem exists_shown (image : Token → Token) {r : Rank} (p : Phrase links r) :
    ∃ t ts us, p.bare = t :: ts ∧ t.kind ∈ bareStarts ∧
      p.shown image = (if t.kind ∈ nameKinds then image t else t) :: us := by
  induction p with
  | sign t | number t =>
    exact ⟨t.1, _, _, rfl, t.mem (by decide),
      by rw [if_neg fun h => absurd h (by simp [sectionStarts, valueTypes]), shown]⟩
  | name t | emptyCall t | call t | member t =>
    exact ⟨t.1, _, _, rfl, t.mem (by decide), by rw [if_pos t.2, shown]⟩
  | linked h op l ih | extended h op l ih | choice h op _ _ _ ih | added h op l ih
  | scaled h op l ih | further h op l ih =>
    obtain ⟨t, ts, us, hbare, hk, hshown⟩ := ih
    exact ⟨t, _, _, by rw [bare, shown, ← bare, hbare, List.cons_append], hk,
      by rw [shown, hshown, List.cons_append]⟩
  | alone l ih | opening l ih | settled l ih | term l ih | factor l ih | unsigned l ih
  | argument l ih | group _ l _ ih => exact ih

theorem bare_ne_nil {r : Rank} (p : Phrase links r) : p.bare ≠ [] := by
  obtain ⟨t, ts, -, hbare, -⟩ := p.exists_shown id
  simp [hbare]

/-- What holds of all tokens and of the images of names holds of what is shown. -/
theorem forall_shown {image : Token → Token} {P : Token → Prop} {r : Rank} (p : Phrase links r)
    (h : ∀ t ∈ p.tokens, P t ∧ (t.kind ∈ nameKinds → P (image t))) :
    ∀ t ∈ p.shown image, P t := by
  induction p with
  | alone l ih | opening l ih | settled l ih | term l ih | factor l ih | unsigned l ih
  | argument l ih => exact ih h
  | linked a op b iha ihb | extended a op b iha ihb | added a op b iha ihb
  | scaled a op b iha ihb | further a op b iha ihb =>
    simp only [tokens, List.forall_mem_append, List.forall_mem_cons] at h
    simp only [shown, List.forall_mem_append, List.forall_mem_cons]
    exact ⟨iha h.1, h.2.1.1, ihb h.2.2⟩
  | choice a mark yes colon no iha ihy ihn =>
    simp only [tokens, List.forall_mem_append, List.forall_mem_cons] at h
    simp only [shown, List.forall_mem_append, List.forall_mem_cons]
    exact ⟨iha h.1, h.2.1.1, ihy h.2.2.1, h.2.2.2.1.1, ihn h.2.2.2.2⟩
  | sign s u ih =>
    simp only [tokens, List.forall_mem_cons] at h
    exact List.forall_mem_cons.2 ⟨h.1.1, ih h.2⟩
  | group opens e closes ih =>
    simp only [tokens, List.forall_mem_append, List.forall_mem_cons] at h
    exact ih h.2.1
  | number n => exact fun t ht => (h t ht).1
  -- Names are the only tokens that the image changes.
  | name n => exact List.forall_mem_singleton.2 ((h n.1 (by simp [tokens])).2 n.2)
  | emptyCall n opens closes | member n m more =>
    obtain ⟨hn, hrest⟩ := List.forall_mem_cons.1 h
    exact List.forall_mem_cons.2 ⟨hn.2 n.2, fun t ht => (hrest t ht).1⟩
  | call n opens args closes ih =>
    simp only [tokens, List.forall_mem_append, List.forall_mem_cons] at h
    simp only [shown, List.forall_mem_append, List.forall_mem_cons]
    exact ⟨h.1.2 n.2, h.2.1.1, ih h.2.2.1, h.2.2.2.1.1, by simp⟩

/-- As many tokens are shown as there are without grouping. -/
theorem length_shown (image : Token → Token) {r : Rank} (p : Phrase links r) :
    (p.shown image).length = p.bare.length := by
  induction p <;> simp_all [bare, shown]

/-- The tokens without grouping are among all tokens. -/
theorem bare_sublist {r : Rank} (p : Phrase links r) : p.bare.Sublist p.tokens := by
  induction p with
  | number | name | emptyCall | member => exact List.Sublist.refl _
  | sign s u ih => exact ih.cons_cons _
  | group opens e closes ih =>
    exact (ih.trans (List.sublist_append_left _ _)).cons _
  | call n opens args closes ih => exact ((ih.append (List.Sublist.refl _)).cons_cons _).cons_cons _
  | linked h op l ihh ihl | extended h op l ihh ihl | added h op l ihh ihl
  | scaled h op l ihh ihl | further h op l ihh ihl => exact ihh.append (ihl.cons_cons _)
  | choice a mark yes colon no iha ihy ihn =>
    exact iha.append ((ihy.append (ihn.cons_cons _)).cons_cons _)
  | alone l ih | opening l ih | settled l ih | term l ih | factor l ih | unsigned l ih
  | argument l ih => exact ih

end Phrase

end ShaderBridge.CrossGl
