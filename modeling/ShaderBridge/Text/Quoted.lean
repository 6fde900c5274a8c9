import ShaderBridge.Text.Basic
import ShaderBridge.Text.Printable

/-!
# Quoted text

The written form of a text inside a larger printed value.  It stands between single quotes, or
between double quotes if it holds a single quote and no double quote.  The quote and the backslash
are escaped by a backslash; tab, line feed and carriage return have letters of their own, and
every other character that is not printable is written as its code point in hexadecimal.
-/

namespace ShaderBridge.Text

/-- The quote that the written form of a text stands between. -/
def quoteFor (t : Text) : Char :=
  if t.contains '\'' && !t.contains '"' then '"' else '\''

/-- The escape of a character by its code point, in two, four or eight hexadecimal digits. -/
def escapeCode (n : Nat) : Text :=
  if n < 256 then "\\x" ++ hex 2 n
  else if n < 65536 then "\\u" ++ hex 4 n
  else "\\U" ++ hex 8 n

/-- The written form of one character between quotes `q`. -/
def escapeChar (q c : Char) : Text :=
  if c = q || c = '\\' then ['\\', c]
  else if c = '\t' then "\\t"
  else if c = '\n' then "\\n"
  else if c = '\r' then "\\r"
  else if isPrintable c then [c]
  else escapeCode c.toNat

/-- The written form of a text. -/
def quoted (t : Text) : Text :=
  let q := quoteFor t
  q :: t.flatMap (escapeChar q) ++ [q]

end ShaderBridge.Text
