import ShaderBridge.Text.Quoted
import ShaderBridge.Tree.Shape

/-!
# Printed trees

Every value has two printed forms: one as plain text and one for its place inside a list, a tuple
or a quoted field.  They differ for texts, which have quotes inside a list only, and for the kinds
of node with a plain form of their own.
-/

namespace ShaderBridge

/-- The two printed forms of a value. -/
structure Printed where
  /-- As plain text. -/
  plain : Text
  /-- As an item of a list. -/
  inner : Text
  /-- Whether the value counts as set. -/
  set : Bool

namespace Printed

/-- A value with one printed form. -/
def alike (t : Text) (set : Bool) : Printed := ⟨t, t, set⟩

/-- The printed forms of a list. -/
def ofList (items : List Printed) : Text :=
  Text.cat ["[", Text.join ", " (items.map (·.inner)), "]"]

/-- The printed forms of a tuple; a tuple of one item has a comma behind it. -/
def ofTuple : List Printed → Text
  | [x] => Text.cat ["(", x.inner, ",)"]
  | items => Text.cat ["(", Text.join ", " (items.map (·.inner)), ")"]

/-- A segment of a printed node, given the printed forms of the fields. -/
def segment (fields : List (Field × Printed)) : Segment → Text
  | .lit s => s
  | .shown f => ((fields.lookup f).map (·.plain)).getD []
  | .quoted f => ((fields.lookup f).map (·.inner)).getD []
  | .shownIfSet lead f tail =>
    match fields.lookup f with
    | some p => if p.set then Text.cat [lead, p.plain, tail] else []
    | none => []

/-- The printed forms of a node. -/
def ofNode (lang : Language) (k : NodeKind) (fields : List (Field × Printed)) : Printed :=
  match lang.shape? k with
  | none => alike k.label true
  | some shape =>
    let inner := shape.form.flatMap (segment fields)
    match shape.plainForm with
    | none => alike inner true
    | some form => ⟨form.flatMap (segment fields), inner, true⟩

end Printed

namespace Tree

mutual

/-- The printed forms of a value in a language. -/
def printed (lang : Language) : Tree → Printed
  | absent => .alike "None" false
  | flag b => .alike (if b then "True" else "False") b
  | number n => .alike (Text.ofInt n) (n ≠ 0)
  | text s => ⟨s, Text.quoted s, !s.isEmpty⟩
  | list items => .alike (Printed.ofList (printedAll lang items)) (!items.isEmpty)
  | tuple items => .alike (Printed.ofTuple (printedAll lang items)) (!items.isEmpty)
  | node k fields => Printed.ofNode lang k (printedFields lang fields)

/-- The printed forms of each value of a list. -/
def printedAll (lang : Language) : List Tree → List Printed
  | [] => []
  | t :: rest => printed lang t :: printedAll lang rest

/-- The printed forms of each field. -/
def printedFields (lang : Language) : List (Field × Tree) → List (Field × Printed)
  | [] => []
  | (f, t) :: rest => (f, printed lang t) :: printedFields lang rest

end

/-- A value as plain text. -/
def plain (lang : Language) (t : Tree) : Text := (t.printed lang).plain

/-- A value as it stands inside a list. -/
def inner (lang : Language) (t : Tree) : Text := (t.printed lang).inner

end Tree

end ShaderBridge
