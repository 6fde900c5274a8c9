import ShaderBridge.Fault
import ShaderBridge.Token.Pattern

/-!
# Lexicons

A lexicon is the token table of a language: rules in order of preference, and what becomes of the
lexemes they find.  `Lexicon.lexemes` cuts a source into lexemes, at each place taking the first
rule that finds one; `Lexicon.tokenize` drops what carries no meaning, gives keywords their own
kinds and closes the list with an end token.
-/

namespace ShaderBridge

/-- A row of a token table. -/
structure LexRule where
  kind : TokenKind
  pattern : Pattern
deriving DecidableEq, Repr

/-- A piece of a source and the kind of the rule that found it. -/
structure Lexeme where
  kind : TokenKind
  text : Text
deriving DecidableEq, Repr

/-- The token table of a language. -/
structure Lexicon where
  /-- The rules, in order of preference. -/
  rules : List LexRule
  /-- Names with a kind of their own. -/
  keywords : List (Text × TokenKind)
  /-- Kinds of lexeme that give no token. -/
  dropped : List TokenKind
  /-- The text of the end token. -/
  endText : Option Text
  /-- Whether a rejection shows the whole source. -/
  showsSource : Bool

namespace Lexicon

/-! ## §1 Cutting a source into lexemes -/

/-- The kind and length of the lexeme that the first fitting rule finds. -/
def firstMatch (rules : List LexRule) (prev : Option Char) (t : Text) : Option (TokenKind × Nat) :=
  rules.findSome? fun r => (r.pattern.length? prev t).map (r.kind, ·)

/-- The lexemes of a text of which the first `skip` characters belong to the lexeme in front, or
the position and character where no lexeme begins.  `prev` is the character in front of the text
and `pos` its position in the source. -/
def lexemesFrom (rules : List LexRule) :
    Nat → Option Char → Nat → Text → Except (Nat × Char) (List Lexeme)
  | _, _, _, [] => .ok []
  | skip + 1, _, pos, c :: rest => lexemesFrom rules skip (some c) (pos + 1) rest
  | 0, prev, pos, c :: rest =>
    match firstMatch rules prev (c :: rest) with
    | some (kind, n + 1) =>
      match lexemesFrom rules n (some c) (pos + 1) rest with
      | .ok tail => .ok (⟨kind, c :: rest.take n⟩ :: tail)
      | .error stop => .error stop
    | _ => .error (pos, c)

/-- The lexemes of a source. -/
def lexemes (lx : Lexicon) (source : Text) : Except (Nat × Char) (List Lexeme) :=
  lexemesFrom lx.rules 0 none 0 source

/-! ## §2 Tokens -/

/-- The kind of a token: a name among the keywords has the keyword's kind. -/
def retyped (lx : Lexicon) (l : Lexeme) : TokenKind :=
  if l.kind = .identifier then (lx.keywords.lookup l.text).getD .identifier else l.kind

/-- The token of a lexeme, unless its kind is dropped. -/
def token? (lx : Lexicon) (l : Lexeme) : Option Token :=
  let kind := lx.retyped l
  if kind ∈ lx.dropped then none else some ⟨kind, some l.text⟩

/-- The tokens of a source, closed by an end token. -/
def tokenize (lx : Lexicon) (source : Text) : Except Fault (List Token) :=
  match lx.lexemes source with
  | .ok ls => .ok (ls.filterMap lx.token? ++ [⟨.endOfInput, lx.endText⟩])
  | .error (pos, c) =>
    .error (.rejected
      (if lx.showsSource then .illegalCharacterIn source c pos else .illegalCharacter c pos))

end Lexicon

end ShaderBridge
