import ShaderBridge.Grammar.Construct
import ShaderBridge.Token.Lexicon.CrossGl
import ShaderBridge.Token.Lexicon.Glsl
import ShaderBridge.Token.Lexicon.Hlsl
import ShaderBridge.Token.Lexicon.Metal
import ShaderBridge.Token.Lexicon.Mojo

/-!
# Reading sources

`Language.tokenize` and `Language.parse` read a whole source.  A session reads a token list in
steps: it keeps the tokens and the place reached, and each request reads a construct, a token of
a given kind, or looks at a token without reading it.
-/

namespace ShaderBridge

namespace Language

/-- The token table of a language. -/
def lexicon : Language → Lexicon
  | crossGl => .crossGl
  | hlsl => .hlsl
  | metal => .metal
  | glsl => .glsl
  | mojo => .mojo

/-- The tokens of a source. -/
def tokenize (lang : Language) (source : Text) : Except Fault (List Token) :=
  lang.lexicon.tokenize source

/-- Whether comments in front of the first token are passed over when reading starts. -/
def skipsLeadingComments : Language → Bool
  | crossGl | glsl => false
  | hlsl | metal | mojo => true

end Language

/-! ## §1 Sessions -/

/-- A token list that is being read. -/
structure Session where
  lang : Language
  tokens : List Token
  cursor : Cursor

/-- What can be asked of a session. -/
inductive Request where
  /-- Read a token whose kind has this label. -/
  | expect (label : Tree)
  /-- Pass over comments. -/
  | skipComments
  /-- The token this many places ahead, or behind if negative. -/
  | lookAt (offset : Tree)
  /-- Read a construct. -/
  | read (construct : Construct) (operands : List Tree)

namespace Session

/-- A session at the first token; there must be one. -/
def start (lang : Language) (tokens : List Token) : Except Fault Session :=
  if tokens.isEmpty then .error .outOfRange
  else
    let cursor :=
      if lang.skipsLeadingComments then Cursor.pastTrivia lang.trivia 0 tokens else ⟨0, tokens⟩
    .ok ⟨lang, tokens, cursor⟩

/-- A token as a pair of the label of its kind and its text. -/
def tokenPair (t : Token) : Tree := .tuple [.text t.kind.label, Tree.ofText? t.text]

/-- The token at a position, where negative positions count from the end. -/
def tokenAt (tokens : List Token) (i : Int) : Except Fault Token :=
  let j := if i < 0 then i + tokens.length else i
  if j < 0 then .error .outOfRange
  else
    match tokens[j.toNat]? with
    | some t => .ok t
    | none => .error .outOfRange

/-- The parser that answers a request. -/
def answer (lang : Language) (tokens : List Token) : Request → Parser Tree
  | .expect label => do
    lang.expectLabel label
    return .absent
  | .skipComments => do
    Parser.skipTrivia lang.trivia
    return .absent
  | .lookAt offset => do
    match offset.count? with
    | none => throw .wrongSort
    | some n =>
      match tokenAt tokens ((← get).pos + n) with
      | .ok t => return tokenPair t
      | .error e => throw e
  | .read construct operands =>
    match lang.reader? construct with
    | some reader => reader operands
    | none => throw .missingField

/-- The answer to a request and the session behind it. -/
def run (s : Session) (r : Request) : Except Fault (Tree × Session) :=
  match answer s.lang s.tokens r s.cursor with
  | .ok t cursor => .ok (t, { s with cursor })
  | .error e _ => .error e

end Session

/-! ## §2 Whole sources -/

namespace Language

/-- The tree of a token list. -/
def parseTokens (lang : Language) (tokens : List Token) : Except Fault Tree := do
  let s ← Session.start lang tokens
  return (← s.run (.read .source [])).1

/-- The tree of a source. -/
def parse (lang : Language) (source : Text) : Except Fault Tree := do
  lang.parseTokens (← lang.tokenize source)

end Language

end ShaderBridge
