import ShaderBridge.Proofs.Hlsl.Ending
import ShaderBridge.Proofs.Hlsl.Recognition
import ShaderBridge.Proofs.Transparency

/-!
# HLSL expressions in front of any tokens

A phrase is read in front of whatever cannot extend it (`expression_reads_every_phrase`), also where
comments stand further on.  The grammar passes over comments, so the run with them is compared with
the run without them: both give the same tree, and they stop at the same token.
-/

namespace ShaderBridge.Hlsl

open ShaderBridge.Parser

/-- In front of tokens with comments a phrase is read as in front of the same tokens without. -/
theorem expression_commented (e : Phrase .expr) (pos : Nat) {rest : List Token}
    (hstop : firstKind (uncommented rest) ∉ follow) :
    ∃ c', expression ⟨pos, e.tokens ++ rest⟩ = .ok e.value c' ∧
      c'.rest = rest.dropWhile fun t => t.kind.isComment := by
  let c : Cursor := ⟨pos, e.tokens ++ rest⟩
  let d : Cursor := ⟨pos, e.tokens ++ uncommented rest⟩
  have hfree := commentFree_uncommented rest
  have hread := reads_phrase e (uncommented rest) hfree hstop pos
  have hkind : ∀ us, (firstKind (e.tokens ++ us)).isComment = false := by
    have hstarts : ∀ k ∈ Phrase.starts, k.isComment = false := by decide
    exact fun us => hstarts _ (e.firstKind_mem (by simp) us)
  -- With the comments taken out the phrase is read, and the two readings end alike.
  have halike : Alike d c := by
    refine ⟨?_, hkind _, hkind _⟩
    show uncommented (e.tokens ++ uncommented rest) = uncommented (e.tokens ++ rest)
    rw [uncommented_append, uncommented_append, uncommented_of_commentFree hfree]
  have hmatch := ends_expression (S := remarked) d c halike (Nat.lt_succ_self _) trivial
  rw [show expression d = _ from hread] at hmatch
  show ∃ c', expression c = .ok e.value c' ∧ _
  generalize expression c = outcome at hmatch ⊢
  cases hmatch with
  | @ok _ d' c' halike' hleft hright =>
    refine ⟨c', rfl, ?_⟩
    obtain ⟨hkept, hpast⟩ := uncommented_pastTrivia pos rest
    rw [← rest_pastTrivia pos]
    apply rest_eq_of_uncommented hright.suffix _ halike'.right hpast
    · rw [← halike'.rest, hkept]
      exact uncommented_of_commentFree hfree
    · exact (pastTrivia_suffix .comments pos rest).trans (List.suffix_append _ _)

/-- Whatever is derived as an expression is read as one, with the tree of its derivation.  What
follows must not begin with an operator, a question mark, a point or a parenthesis, comments aside:
reading stops in front of it, past the comments there. -/
theorem expression_reads_every_phrase (e : Phrase .expr) (pos : Nat) (rest : List Token)
    (hstop : firstKind (uncommented rest) ∉
      [.equals, .plusEquals, .minusEquals, .multiplyEquals, .divideEquals, .or, .and, .equal,
        .notEqual, .lessThan, .greaterThan, .lessEqual, .greaterEqual, .plus, .minus, .multiply,
        .divide, .question, .leftParen, .dot]) :
    (∃ c', expression ⟨pos, e.tokens ++ rest⟩ = .ok e.value c' ∧
      c'.rest = rest.dropWhile fun t => t.kind.isComment) ∧
    (CommentFree rest →
      expression ⟨pos, e.tokens ++ rest⟩ = .ok e.value ⟨pos + e.tokens.length, rest⟩) := by
  have hfollow : firstKind (uncommented rest) ∉ follow := by
    have hlisted : ∀ k ∈ follow, k ∈
        [.equals, .plusEquals, .minusEquals, .multiplyEquals, .divideEquals, .or, .and, .equal,
          .notEqual, .lessThan, .greaterThan, .lessEqual, .greaterEqual, .plus, .minus, .multiply,
          .divide, .question, .leftParen, .dot] := by
      decide
    exact fun hk => hstop (hlisted _ hk)
  constructor
  · exact expression_commented e pos hfollow
  · intro hrest
    rw [uncommented_of_commentFree hrest] at hfollow
    exact reads_phrase e rest hrest hfollow pos

/-- The expression `x = a - b - -c * f(d)`: a product binds closer than a difference, and
differences are joined from the left. -/
def assignedDifference : Phrase .expr :=
  let named (s : Text) : Phrase (.rung 0) := .unsigned (.name (slot .identifier s))
  let call : Phrase (.rung 0) := .unsigned (.call (slot .identifier "f") (slot .leftParen "(")
    (.given (.item (.settled ((named "d").raised 7)))) (slot .rightParen ")"))
  let product : Phrase (.rung 1) := .joined
    (.first (.sign ⟨⟨.minus, some "-"⟩, by simp⟩ (named "c")))
      ⟨⟨.multiply, some "*"⟩, by decide⟩ call
  let difference : Phrase (.rung 2) := .joined
    (.joined ((named "a").raised 2) ⟨⟨.minus, some "-"⟩, by decide⟩ ((named "b").raised 1))
    ⟨⟨.minus, some "-"⟩, by decide⟩ product
  .settled (.joined ((named "x").raised 7) ⟨⟨.equals, some "="⟩, by decide⟩ (difference.raised 4))

/-- The assignment is read in front of a comment and a semicolon, and the comment is passed. -/
theorem expression_reads_assignedDifference :
    ∃ c', expression ⟨0, assignedDifference.tokens ++
        [⟨.lineComment, some "// done"⟩, ⟨.semicolon, some ";"⟩]⟩
      = .ok assignedDifference.value c' ∧ c'.rest = [⟨.semicolon, some ";"⟩] :=
  (expression_reads_every_phrase assignedDifference 0 _ (by decide)).1

end ShaderBridge.Hlsl
