import ShaderBridge.Proofs.Generation
import ShaderBridge.Spirv.Statement

/-!
# Vectors written as words

A word such as `vec2(a,b)` is taken apart at its commas, but the opening parenthesis stays with the
first component.  So the first operand is not what `a` is written as, but what `(a` is
(`vector_word_keeps_parenthesis`).
-/

namespace ShaderBridge.Spirv

/-- The word for a vector: its size and its components. -/
def vectorWord (size : Char) (parts : List Text) : Text :=
  Text.cat ["vec", [size], "(", Text.join "," parts, ")"]

/-- The line that makes a vector of what the components are written as, one after another. -/
def composite (size : Char) (parts : List Text) : Gen State Text := do
  let operands ← parts.mapM wordText
  let n ← fresh
  return Text.cat
    [ref n, " = OpCompositeConstruct %vec", [size], " ", Text.join " " operands, "\n"]

/-- What is cut at its commas begins with the parenthesis. -/
theorem vectorWord_eq (size : Char) (first : Text) (others : List Text) :
    vectorWord size (first :: others)
      = 'v' :: 'e' :: 'c' :: size :: (Text.join "," (('(' :: first) :: others) ++ [')']) := by
  cases others <;> simp [vectorWord, Text.cat, Text.join, List.intercalate]

/-- In every state, a word for a vector that is no variable is written from as many operands as it
has components, one after another, but the first is written as if a parenthesis belonged to it. -/
theorem vector_word_keeps_parenthesis (size : Char) (first : Text) (others : List Text) (s : State)
    (hparts : ∀ p ∈ first :: others, ',' ∉ p)
    (hnew : s.vars.numberOf? (.text (vectorWord size (first :: others))) = none) :
    wordText (vectorWord size (first :: others)) s
      = composite size (('(' :: first) :: others) s := by
  have hpieces : Text.cutAt ','
      ((size :: (Text.join "," (('(' :: first) :: others) ++ [')'])).drop 1).dropLast
        = ('(' :: first) :: others := by
    rw [List.drop_succ_cons, List.drop_zero, List.dropLast_concat]
    exact Text.cutAt_join (by simp) (by simpa using hparts)
  rw [vectorWord_eq] at hnew ⊢
  rw [wordText.eq_def]
  refine (Gen.bind_of_ok (rfl : (get : Gen State State) s = .ok s s)).trans ?_
  simp only [hnew, List.mapM_subtype, List.unattach_attach, hpieces]
  rfl

theorem vector_word_keeps_parenthesis_pair :
    (∀ p ∈ (["a", "-.5e1)"] : List Text), ',' ∉ p) ∧
      wordText "vec3(a,-.5e1))" {} = composite '3' ["(a", "-.5e1)"] {} :=
  ⟨by decide, vector_word_keeps_parenthesis '3' "a" ["-.5e1)"] {} (by decide) (by decide)⟩

/-- The component of `vec2(1)` is not taken for a number, and no number is drawn for it. -/
theorem wordText_vec2_ne : wordText "vec2(1)" {} ≠ composite '2' ["1"] {} := by
  have hrun : wordText "vec2(1)" {} = composite '2' ["(1"] {} := by
    rw [wordText.eq_def]
    simp only [List.mapM_subtype, List.unattach_attach]
    rfl
  have hparen : wordText "(1" {} = .ok "; Unhandled expression: (1\n" {} := by
    rw [wordText.eq_def]
    rfl
  have hnumber : wordText "1" {}
      = .ok "%1 = OpConstant %float 1\n" { next := 2, drawn := [1] } := by
    rw [wordText.eq_def]
    rfl
  rw [hrun]
  simp only [composite, List.mapM_cons, bind_assoc, Gen.bind_of_ok hparen, Gen.bind_of_ok hnumber]
  intro h
  cases h

end ShaderBridge.Spirv
