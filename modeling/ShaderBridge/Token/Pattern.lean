import ShaderBridge.Text.Blank
import ShaderBridge.Text.Digit
import ShaderBridge.Text.Word

/-!
# Lexical patterns

A pattern says which texts form a lexeme at a place in a source.  `Pattern.length?` gives the
length of the lexeme that a pattern finds at the front of a text; some patterns also look at the
character in front of it and at the one behind the lexeme.
-/

namespace ShaderBridge

/-- The form of a lexeme. -/
inductive Pattern where
  /-- Exactly these characters. -/
  | symbol (s : Text)
  /-- One of these words, standing between word boundaries. -/
  | word (choices : List Text)
  /-- The words `else` and `if` with one blank between them, or with any number. -/
  | elseIf (manyBlanks : Bool)
  /-- From the opener to the end of the line. -/
  | lineFrom (opener : Text)
  /-- From the opener to the first closer behind it, perhaps on the same line only. -/
  | enclosed (opener closer : Text) (oneLine : Bool)
  /-- A name: a letter or underscore, then letters, digits and underscores. -/
  | name
  /-- Digits, then perhaps a point and digits. -/
  | number
  /-- A point with digits on at least one side. -/
  | decimal
  /-- A run of blanks. -/
  | blanks
  /-- A colon, a space and a name in capitals. -/
  | semantic
  /-- A hash and word characters. -/
  | directive
  /-- These characters in front of a word character. -/
  | beforeWord (s : Text)
  /-- These characters behind a word character. -/
  | afterWord (s : Text)
deriving DecidableEq, Repr

namespace Pattern

/-! ## §1 Parts of patterns -/

/-- Whether a neighbouring character is a word character. -/
def isWordAt (c : Option Char) : Bool := c.any Text.isWord

/-- The number of characters at the front of a text that satisfy `p`. -/
def span (p : Char → Bool) (t : Text) : Nat := (t.takeWhile p).length

/-- A run of at least one character that satisfies `p`. -/
def run? (p : Char → Bool) (t : Text) : Option Nat :=
  let n := span p t
  if n = 0 then none else some n

/-- The number of characters up to the end of the first closer. -/
def through (closer : Text) (oneLine : Bool) : Text → Option Nat
  | [] => none
  | c :: rest =>
    -- The first closer ends the lexeme, whatever follows.
    if Text.begins closer (c :: rest) then some closer.length
    else if oneLine && c = '\n' then none
    else (through closer oneLine rest).map (· + 1)

/-- The length of `w` if the text begins with it and no word character follows. -/
def wholeWord? (w t : Text) : Option Nat :=
  if Text.begins w t && !isWordAt (t.drop w.length).head? then some w.length else none

/-- The length of `else`, blanks and `if` at the front of a text. -/
def elseIf? (manyBlanks : Bool) (t : Text) : Option Nat :=
  if Text.begins "else" t then
    let gap := if manyBlanks then span Text.isBlank (t.drop 4)
      else if (t.drop 4).head?.any Text.isBlank then 1 else 0
    -- Without a blank the two words would be one.
    if gap = 0 then none else (wholeWord? "if" (t.drop (4 + gap))).map (4 + gap + ·)
  else none

/-- The length of digits, a point and digits, if one of the two digit runs is not empty. -/
def decimal? (t : Text) : Option Nat :=
  let whole := span Text.isDigit t
  if (t.drop whole).head? = some '.' then
    let part := span Text.isDigit (t.drop (whole + 1))
    -- A point alone is no number.
    if whole + part = 0 then none else some (whole + 1 + part)
  else none

/-- The length of digits with perhaps a point and digits behind them. -/
def number? (t : Text) : Option Nat :=
  let whole := span Text.isDigit t
  if whole = 0 then none
  else
    let part := span Text.isDigit (t.drop (whole + 1))
    -- A point with no digits behind it is left for the next lexeme.
    if (t.drop whole).head? = some '.' && 0 < part then some (whole + 1 + part) else some whole

/-- The length of a first character that satisfies `p` and the `q` characters behind it. -/
def headed? (p q : Char → Bool) : Text → Option Nat
  | [] => none
  | c :: rest => if p c then some (1 + span q rest) else none

/-- The first character of a semantic name. -/
def isCapital (c : Char) : Bool := c.isUpper || c = '_'

/-! ## §2 Matching -/

/-- The length of the lexeme that the pattern finds at the front of `t`, where `prev` is the
character in front of `t`. -/
def length? (p : Pattern) (prev : Option Char) (t : Text) : Option Nat :=
  match p with
  | symbol s => if Text.begins s t then some s.length else none
  | word choices => if isWordAt prev then none else choices.findSome? (wholeWord? · t)
  | elseIf manyBlanks => if isWordAt prev then none else elseIf? manyBlanks t
  | lineFrom opener =>
    if Text.begins opener t then
      some (opener.length + span (· ≠ '\n') (t.drop opener.length))
    else none
  | enclosed opener closer oneLine =>
    if Text.begins opener t then
      (through closer oneLine (t.drop opener.length)).map (opener.length + ·)
    else none
  | name => headed? Text.isNameStart Text.isNameRest t
  | number => number? t
  | decimal => decimal? t
  | blanks => run? Text.isBlank t
  | semantic =>
    if Text.begins ": " t then
      (headed? isCapital (fun c => isCapital c || c.isDigit) (t.drop 2)).map (2 + ·)
    else none
  | directive =>
    if Text.begins "#" t then (run? Text.isWord (t.drop 1)).map (1 + ·) else none
  | beforeWord s =>
    if Text.begins s t && isWordAt (t.drop s.length).head? then some s.length else none
  | afterWord s => if isWordAt prev && Text.begins s t then some s.length else none

end Pattern

end ShaderBridge
