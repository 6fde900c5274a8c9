import ShaderBridge.Tree.Basic

/-!
# Reading tokens

A parser reads a list of tokens from front to back.  Its state is a cursor: how many tokens lie
behind, and which lie ahead.  Past the last token the cursor sees end tokens without number, and
reading one of them still moves it on.

Reading a token also passes over the comments behind it.  A fault leaves the cursor where it was
met.

Each round of a loop has to read a token.  Behind a round that reads none the next one finds the
same tokens ahead, and so on without end; such a loop says that it is endless.
-/

namespace ShaderBridge

/-! ## §1 Cursors -/

/-- A place in a list of tokens. -/
structure Cursor where
  /-- The number of tokens behind. -/
  pos : Nat
  /-- The tokens ahead. -/
  rest : List Token
deriving DecidableEq, Repr

/-- Which comments are passed over. -/
inductive Trivia where
  /-- All comments. -/
  | comments
  /-- Block comments only. -/
  | blockComments
deriving DecidableEq, Repr

namespace Trivia

/-- Whether tokens of a kind are passed over. -/
def skips : Trivia → TokenKind → Bool
  | comments, k => k.isComment
  | blockComments, k => k = .blockComment

/-- The rejection of a token where something else was wanted.  Where line comments have a meaning
the text of the token is part of it. -/
def mismatch (tv : Trivia) (wanted : Text) (found : Token) : Rejection :=
  match tv with
  | comments => .expected wanted found.kind
  | blockComments => .expectedNear wanted found.kind found.text

end Trivia

namespace Cursor

/-- The token that a cursor stands at. -/
def current (c : Cursor) : Token := c.rest.head?.getD Token.pastEnd

/-- The kind of the token that a cursor stands at. -/
def kind (c : Cursor) : TokenKind := c.current.kind

/-- The place behind the comments at the front of `rest`. -/
def pastTrivia (tv : Trivia) : Nat → List Token → Cursor
  | pos, [] => ⟨pos, []⟩
  | pos, t :: rest => if tv.skips t.kind then pastTrivia tv (pos + 1) rest else ⟨pos, t :: rest⟩

/-- The place behind the current token and the comments that follow it. -/
def advance (tv : Trivia) (c : Cursor) : Cursor := pastTrivia tv (c.pos + 1) c.rest.tail

end Cursor

/-! ## §2 Parsers -/

/-- A parser moves a cursor and gives a result or a fault. -/
abbrev Parser := EStateM Fault Cursor

namespace Parser

variable {α β : Type}

/-- Gives up because of what is wrong with the source. -/
def reject (why : Rejection) : Parser α := throw (.rejected why)

/-- The current token. -/
def current : Parser Token := do return (← get).current

/-- The kind of the current token. -/
def kind : Parser TokenKind := do return (← get).kind

/-- The text of the current token, as a value. -/
def text : Parser Tree := do return Tree.ofText? (← current).text

/-- Whether the current token is of one of these kinds. -/
def isAt (kinds : List TokenKind) : Parser Bool := do return (← kind) ∈ kinds

/-- Whether the current token is of none of these kinds. -/
def isNotAt (kinds : List TokenKind) : Parser Bool := do return (← kind) ∉ kinds

/-- The token `n` places ahead, comments included. -/
def lookahead (n : Nat) : Parser Token := do
  match (← get).rest[n]? with
  | some t => return t
  | none => throw .outOfRange

/-- Reads the current token, whatever it is. -/
def take (tv : Trivia) : Parser Token := do
  let c ← get
  set (c.advance tv)
  return c.current

/-- Reads the current token, whatever it is, and gives its text. -/
def takeText (tv : Trivia) : Parser Tree := do return Tree.ofText? (← take tv).text

/-- Reads a token of the wanted kind. -/
def expect (tv : Trivia) (wanted : TokenKind) : Parser Token := do
  let c ← get
  if c.kind = wanted then take tv else reject (tv.mismatch wanted.label c.current)

/-- Reads a token of the wanted kind and gives its text. -/
def expectText (tv : Trivia) (wanted : TokenKind) : Parser Tree := do
  return Tree.ofText? (← expect tv wanted).text

/-- Reads tokens of the wanted kinds, one after another. -/
def expectAll (tv : Trivia) : List TokenKind → Parser Unit
  | [] => return ()
  | k :: ks => do
    let _ ← expect tv k
    expectAll tv ks

/-- Reads the current token if it is of this kind. -/
def accept (tv : Trivia) (k : TokenKind) : Parser Unit := do
  if ← isAt [k] then
    let _ ← take tv

/-- Passes over the comments that the cursor stands at. -/
def skipTrivia (tv : Trivia) : Parser Unit := do
  let c ← get
  set (Cursor.pastTrivia tv c.pos c.rest)

/-! ## §3 Repetition and nesting -/

/-- At most `n` rounds of a loop, each of which has to read a token. -/
def loopAt (go : Parser Bool) (step : α → Parser α) : Nat → α → Parser α
  | 0, _ => throw .endless
  | n + 1, a => do
    let ahead := (← get).rest.length
    if ← go then
      let a' ← step a
      if (← get).rest.length < ahead then loopAt go step n a' else throw .endless
    else return a

/-- Repeats `step` on a value as long as `go` says.  Behind the last token no round can read one,
so the tokens ahead bound the number of rounds. -/
def loop (go : Parser Bool) (step : α → Parser α) (a : α) : Parser α := fun c =>
  loopAt go step (c.rest.length + 1) a c

/-- The results of `step`, repeated as long as `go` says. -/
def many (go : Parser Bool) (step : Parser α) : Parser (List α) := do
  -- Results are collected from the front, so they come out in reverse.
  let found ← loop go (fun acc => do return (← step) :: acc) []
  return found.reverse

/-- Parses a construct that may hold itself.  Each level of nesting reads a token first, so the
tokens ahead bound the depth. -/
def nested (p : Nat → Parser α) : Parser α := fun c => p (c.rest.length + 1) c

/-- One or more results of `p` with a token of kind `sep` between neighbours. -/
def sepBy (tv : Trivia) (sep : TokenKind) (p : Parser α) : Parser (List α) := do
  let first ← p
  let others ← many (isAt [sep]) (do
    let _ ← take tv
    p)
  return first :: others

/-- Results of `p` up to a token of kind `close`, where a token of kind `sep` may stand behind
each. -/
def untilClose (tv : Trivia) (sep close : TokenKind) (p : Parser α) : Parser (List α) :=
  many (isNotAt [close]) (do
    let a ← p
    accept tv sep
    return a)

end Parser

end ShaderBridge
