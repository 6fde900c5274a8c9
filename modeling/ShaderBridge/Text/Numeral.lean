import ShaderBridge.Text.Blank
import ShaderBridge.Text.Digit

/-!
# Numerals

Which texts are read as a real number: blanks around an optional sign and either one of the words
for infinity and not-a-number, in any case, or a decimal with an optional point and an optional
exponent.  Single underscores may stand between two digits.
-/

namespace ShaderBridge.Text

/-- A blank that may stand around a numeral; the ASCII separators are not among them. -/
def isNumeralBlank (c : Char) : Bool := isBlank c && !(28 ≤ c.toNat && c.toNat ≤ 31)

/-- What follows the digits, and underscores between digits, at the front of a text. -/
def afterDigits : Text → Text
  | '_' :: c :: rest => if isDigit c then afterDigits rest else '_' :: c :: rest
  | c :: rest => if isDigit c then afterDigits rest else c :: rest
  | [] => []

/-- What follows a run of digits, if the text begins with one. -/
def digitRun? : Text → Option Text
  | c :: rest => if isDigit c then some (afterDigits rest) else none
  | [] => none

/-- What follows an optional sign. -/
def afterSign : Text → Text
  | '+' :: rest => rest
  | '-' :: rest => rest
  | t => t

/-- The end of a numeral, or an exponent that ends it. -/
def isExponent : Text → Bool
  | [] => true
  | c :: rest => (c = 'e' || c = 'E') && digitRun? (afterSign rest) == some []

/-- Digits, a point, or both, with an optional exponent. -/
def isDecimal (t : Text) : Bool :=
  match digitRun? t, t with
  | some ('.' :: rest), _ => isExponent ((digitRun? rest).getD rest)
  | some rest, _ => isExponent rest
  | none, '.' :: rest => (digitRun? rest).any isExponent
  | none, _ => false

/-- The text without the blanks that may stand around a numeral. -/
def trimNumeral (t : Text) : Text :=
  ((t.dropWhile isNumeralBlank).reverse.dropWhile isNumeralBlank).reverse

/-- The words that stand for numbers without digits. -/
def numberWords : List Text := ["inf", "infinity", "nan"]

/-- Whether a text is read as a real number. -/
def isNumeral (t : Text) : Bool :=
  let body := afterSign (trimNumeral t)
  numberWords.contains (body.map Char.toLower) || isDecimal body

end ShaderBridge.Text
