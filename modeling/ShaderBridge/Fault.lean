import ShaderBridge.Token.Basic

/-!
# Faults

Why a stage gives no answer.  A *rejection* says what is wrong with a source text, a *refusal*
says which request has no answer; both have a wording, given here and nowhere else.  The other
causes arise when a tree does not have the form that a generator asks for.
-/

namespace ShaderBridge

/-! ## §1 Causes -/

/-- What is wrong with a source text. -/
inductive Rejection where
  /-- No lexeme begins with the character at this position. -/
  | illegalCharacter (c : Char) (pos : Nat)
  /-- The same, with the source shown and the character marked. -/
  | illegalCharacterIn (source : Text) (c : Char) (pos : Nat)
  /-- Something else was wanted than the token found. -/
  | expected (wanted : Text) (found : TokenKind)
  /-- The same, with the text of the token found. -/
  | expectedNear (wanted : Text) (found : TokenKind) (text : Option Text)
  /-- A statement goes on where it should have ended or been an assignment. -/
  | expectedHere (wanted : Text) (found : TokenKind)
  /-- No statement begins with this token. -/
  | unexpected (found : TokenKind)
  /-- No item of a shader begins with this token. -/
  | unexpectedItem (found : TokenKind)
  /-- The token does not fit the place. -/
  | unexpectedIn (place : Text) (found : TokenKind)
  /-- No item of a brace-enclosed section begins with this token. -/
  | unexpectedInSection (found : TokenKind)
  /-- A keyword of the top level stands in an expression. -/
  | unexpectedKeyword (found : TokenKind)
  /-- No type begins with this token. -/
  | unexpectedType (found : TokenKind)
  /-- A parameter list ends in a comma. -/
  | trailingComma
  /-- A layout says neither in nor out. -/
  | layoutDirection
  /-- A layout names something else than a location. -/
  | layoutLocation
  /-- A function stands in front of every section comment. -/
  | functionOutsideSection
  /-- A brace opens in front of every section comment. -/
  | braceOutsideSection
  /-- A brace-enclosed section has come to an end. -/
  | sectionEnd
deriving DecidableEq, Repr

/-- Which request has no answer. -/
inductive Refusal where
  /-- The file name has no known extension. -/
  | fileType (file : Text)
  /-- CrossGL is not written for this target. -/
  | target (backend : Text)
  /-- The language of the file is not written for this target. -/
  | pairing (file backend : Text)
  /-- The tree has no vertex section. -/
  | noVertexSection
  /-- The tree has no fragment section, or one that is empty. -/
  | noFragmentSection
  /-- A loop update has a form that is not written; the text names the form. -/
  | updateForm (form : Text)
  /-- A sequence of this length stands where a pair is wanted. -/
  | notAPair (length : Nat)
deriving DecidableEq, Repr

/-- Why a stage gives no answer. -/
inductive Fault where
  /-- The source text is not in the language. -/
  | rejected (why : Rejection)
  /-- The request has no answer. -/
  | refused (what : Refusal)
  /-- A value lacks a field or an operation that is asked for. -/
  | missingField
  /-- A position lies outside a sequence. -/
  | outOfRange
  /-- A value is of the wrong sort for an operation. -/
  | wrongSort
  /-- The source defines no function for a stage. -/
  | noEntryPoint
  /-- A name has no number assigned to it. -/
  | unknownName
  /-- The entry point of a stage that does not exist was asked for. -/
  | unknownStage
  /-- There is no such file. -/
  | noSuchFile
  /-- The stage never comes to an end. -/
  | endless
deriving DecidableEq, Repr

/-! ## §2 Wording -/

namespace Rejection

/-- The source with brackets around the character at `pos`. -/
def highlight (source : Text) (pos : Nat) : Text :=
  Text.cat [source.take pos, "[", (source.drop pos).take 1, "]", source.drop (pos + 1)]

/-- The wording of a rejection. -/
def message : Rejection → Text
  | illegalCharacter c pos =>
    Text.cat ["Illegal character '", [c], "' at position ", Text.ofNat pos]
  | illegalCharacterIn source c pos =>
    Text.cat ["Illegal character '", [c], "' at position ", Text.ofNat pos, "\n",
      highlight source pos]
  | expected wanted found => Text.cat ["Expected ", wanted, ", got ", found.label]
  | expectedNear wanted found text =>
    Text.cat ["Expected ", wanted, ", got ", found.label, ",  ", text.getD "None"]
  | expectedHere wanted found => Text.cat ["Expected ", wanted, ", found: ", found.label]
  | unexpected found => "Unexpected token " ++ found.label
  | unexpectedItem found => "Unexpected token: " ++ found.label
  | unexpectedIn place found => Text.cat ["Unexpected token ", place, ": ", found.label]
  | unexpectedInSection found =>
    Text.cat ["Unexpected token ", found.label, " in shader section"]
  | unexpectedKeyword found => "Unexpected top-level keyword: " ++ found.label
  | unexpectedType found => "Unexpected type token: " ++ found.label
  | trailingComma => "Trailing comma in parameter list is not allowed"
  | layoutDirection => "Expected 'IN' or 'OUT' after location in LAYOUT"
  | layoutLocation => "Expected IDENTIFIER 'location' in LAYOUT"
  | functionOutsideSection => "Function found outside of shader section"
  | braceOutsideSection => "LBRACE encountered outside of shader section"
  | sectionEnd => "Unexpected end of input in shader section"

end Rejection

/-- The wording of a refusal. -/
def Refusal.message : Refusal → Text
  | fileType file => "Unsupported shader file type: " ++ file
  | target backend => "Unsupported backend for CrossGL file: " ++ backend
  | pairing file backend =>
    Text.cat ["Unsupported translation scenario: ", file, " to ", backend]
  | noVertexSection => "No vertex shader section to generate."
  | noFragmentSection => "No fragment shader section to generate."
  | updateForm form => "Unsupported update node type: " ++ form
  | notAPair length =>
    if length < 2 then
      Text.cat ["not enough values to unpack (expected 2, got ", Text.ofNat length, ")"]
    else "too many values to unpack (expected 2)"

/-- The wording of a fault, for those that have one. -/
def Fault.message? : Fault → Option Text
  | rejected why => some why.message
  | refused what => some what.message
  | _ => none

end ShaderBridge
