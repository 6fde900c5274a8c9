import ShaderBridge.Tree.Basic

/-!
# Stages of the pipeline

A shader has a section for vertices and one for fragments.  A generator looks words up among the
inputs and outputs of the section of the stage it is in.
-/

namespace ShaderBridge

/-- A stage of the pipeline. -/
inductive Stage where
  | vertex
  | fragment
deriving DecidableEq, Repr

namespace Stage

/-- The name of a stage. -/
def label : Stage → Text
  | vertex => "vertex"
  | fragment => "fragment"

/-- The name of a stage in capitals. -/
def capitals : Stage → Text
  | vertex => "VERTEX"
  | fragment => "FRAGMENT"

/-- The stage that a value names. -/
def of? (t : Tree) : Option Stage :=
  if t.isText "vertex" then some vertex
  else if t.isText "fragment" then some fragment
  else none

end Stage

/-- The sections of a shader. -/
structure Sections where
  vertex : Tree := .absent
  fragment : Tree := .absent

namespace Sections

/-- The section of the stage that a value names; there is none outside the stages. -/
def ofStage (s : Sections) (stage : Tree) : Tree :=
  match Stage.of? stage with
  | some .vertex => s.vertex
  | some .fragment => s.fragment
  | none => .absent

end Sections

/-- The first name among pairs of type and name that equals a word. -/
def findVariable (word : Tree) : List Tree → Except Fault (Option Tree)
  | [] => .ok none
  | t :: rest => do
    let (_, name) ← t.pair
    if word.same name then return some name else findVariable word rest

/-- The variable in one of the lists of a section whose name equals a word. -/
def variableIn (owner : Tree) (f : Field) (word : Tree) : Except Fault (Option Tree) := do
  if owner.isSet then
    let found ← owner.get f
    if found.isSet then findVariable word (← found.items) else return none
  else return none

end ShaderBridge
