import ShaderBridge.Grammar.Reader

/-!
# Attributes

An attribute stands between double brackets: a name, perhaps with arguments in parentheses.  Its
token holds the whole text, which is taken apart here.
-/

namespace ShaderBridge.Attribute

open ShaderBridge.Parser

/-- A name and its arguments. -/
def node (name : Text) (args : List Text) : Tree :=
  .node .attributeMark [(.name, .text name), (.args, .list (args.map .text))]

/-- The text between the double brackets. -/
def content (t : Text) : Text := (t.drop 2).take (t.length - 4)

/-- The attribute with a given content.  The arguments stand between the first parenthesis and the
next one, less a last character, and are divided by commas. -/
def ofContent (t : Text) : Tree :=
  match Text.cutAt '(' t with
  | name :: args :: _ => node name (Text.cutAt ',' args.dropLast)
  | _ => node t []

/-- Reads an attribute. -/
def single (tv : Trivia) : Parser Tree := do
  match (← current).text with
  | some t => do
    let _ ← take tv
    return ofContent (content t)
  | none => throw .wrongSort

/-- The attributes at the cursor. -/
def attributes (tv : Trivia) : Parser (List Tree) := many (isAt [.attributeMark]) (single tv)

end ShaderBridge.Attribute
