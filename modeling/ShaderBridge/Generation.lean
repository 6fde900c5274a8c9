import ShaderBridge.Tree.Basic

/-!
# Generation

A generator computes a text from a tree and may keep a state from one call to the next.  The state
reached when a fault is met is kept as well, since a later call starts from it.
-/

namespace ShaderBridge

/-- A computation that may give up and keeps a state in any case. -/
abbrev Gen (σ : Type) := EStateM Fault σ

/-- A computation without a state, as one that leaves the state alone. -/
instance {σ : Type} : MonadLift (Except Fault) (Gen σ) where
  monadLift
    | .ok a => pure a
    | .error e => throw e

/-- The level of nesting that a value gives. -/
def Tree.level (t : Tree) : Except Fault Int :=
  match t.count? with
  | some n => .ok n
  | none => .error .wrongSort

namespace Text

/-- The blanks in front of a line, four for each level. -/
def indent (level : Int) : Text := repeated level.toNat "    "

/-- The text without its last character. -/
def dropEnd (t : Text) : Text := t.dropLast

end Text

end ShaderBridge
