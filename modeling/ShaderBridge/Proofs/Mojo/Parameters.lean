import ShaderBridge.Grammar.Mojo
import ShaderBridge.Proofs.Reading

/-!
# Annotated parameters of Mojo

The first token of a parameter is its type, until a colon and another type follow: then that is the
type, and the first token is gone.  So parameters that are written as names with types are read with
all their types and without their names (`annotated_parameters_nameless`).
-/

namespace ShaderBridge.Mojo

open ShaderBridge.Parser

/-- A parameter as a name, a colon and a type. -/
structure Annotated where
  name : TokenOf [.identifier]
  colon : TokenOf [.colon]
  type : Token
  solid : type.kind.isComment = false

namespace Annotated

def tokens (a : Annotated) : List Token := [a.name.1, a.colon.1, a.type]

/-- The parameter with its type, but not its name. -/
def node (a : Annotated) : Tree := var (Tree.ofText? a.type.text) (.text [])

end Annotated

/-- Such parameters with commas between neighbours. -/
def header (comma : TokenOf [.comma]) : List Annotated → List Token
  | [] => []
  | [a] => a.tokens
  | a :: b :: as => a.tokens ++ comma.1 :: header comma (b :: as)

variable {rest : List Token}

theorem reads_noAttributes (h : firstKind rest ≠ .attributeMark) :
    Reads (Attribute.attributes tv) [] [] rest := by
  refine Reads.many_stop fun pos => ?_
  simp [h]

theorem reads_typed (a : Annotated) (h : tv.skips (firstKind rest) = false) :
    Reads annotation? [a.colon.1, a.type] (some (Tree.ofText? a.type.text)) rest := by
  refine Reads.isAt (by simp) (Reads.bind (u := [a.colon.1]) (Reads.takeBefore _ a.solid) ?_)
  intro pos
  rw [map_run, Reads.takeTextBefore a.type h pos]

theorem reads_parameter (a : Annotated) (h : firstKind rest ∈ [.comma, .rightParen]) :
    Reads parameter a.tokens a.node rest := by
  have hsolid : tv.skips (firstKind rest) = false := by
    rcases List.mem_pair.1 h with h | h <;> rw [h] <;> rfl
  refine Reads.bind (u := []) (reads_noAttributes (by simp)) (Reads.isNotAt ?_ ?_)
  · simp [parameterStarts]
  refine Reads.bind (u := [a.name.1]) (Reads.takeTextBefore _ (by simp [Trivia.skips])) ?_
  -- The type behind the colon takes the place of the name, and no other name follows.
  refine Reads.bind (v := []) (reads_typed a hsolid) (Reads.isAt_not ?_ ?_)
  · exact fun hname => absurd (List.mem_singleton.1 hname ▸ h) (by decide)
  · refine Reads.bind (u := []) .pure (Reads.bind_pure (reads_noAttributes ?_) fun _ => rfl)
    exact ne_of_mem_of_not_mem h (by decide)

/-- Annotated parameters are read with their types in order, and all without names. -/
theorem annotated_parameters_nameless (comma : TokenOf [.comma]) (as : List Annotated)
    (close : TokenOf [.rightParen]) (rest : List Token) :
    Reads parameters (header comma as) (as.map Annotated.node) (close.1 :: rest) := by
  have hstop : Reads parameters [] [] (close.1 :: rest) := Reads.many_stop fun pos => by simp
  have hstart (a : Annotated) (ts : List Token) (pos : Nat) :
      isNotAt [.rightParen] ⟨pos, a.name.1 :: ts⟩ = .ok true ⟨pos, a.name.1 :: ts⟩ := by
    simp
  induction as with
  | nil => exact hstop
  | cons a as ih =>
    cases as with
    | nil =>
      refine Reads.many_step (u := a.tokens) (v := []) (hstart a _) (by simp [Annotated.tokens]) ?_
        hstop
      refine (reads_parameter a (by simp)).bind (v := []) (Reads.kind ?_)
      simp only [List.nil_append, firstKind_cons, close.kind_eq]
      exact Reads.pure
    | cons b as =>
      obtain ⟨ts, hts⟩ : ∃ ts, header comma (b :: as) = b.name.1 :: ts := by
        cases as <;> exact ⟨_, rfl⟩
      refine Reads.many_step (u := a.tokens ++ [comma.1]) (v := header comma (b :: as)) (hstart a _)
        (by simp) ?_ ih
      rw [hts]
      refine (reads_parameter a (by simp)).bind (v := [comma.1]) (Reads.kind ?_)
      simp only [List.cons_append, firstKind_cons, comma.kind_eq]
      -- Another parameter follows the comma, so it is no trailing one.
      refine Reads.bind (v := []) (Reads.takeBefore comma.1 ?_)
        (Reads.isAt_not (by simp) Reads.pure)
      simp [Trivia.skips]

/-- The name of `a: Int` is in no tree. -/
theorem parameter_name_lost :
    parameters ⟨0, [⟨.identifier, some "a"⟩, ⟨.colon, some ":"⟩, ⟨.identifier, some "Int"⟩,
        ⟨.rightParen, some ")"⟩]⟩
      = .ok [var (.text "Int") (.text [])] ⟨3, [⟨.rightParen, some ")"⟩]⟩ :=
  rfl

end ShaderBridge.Mojo
