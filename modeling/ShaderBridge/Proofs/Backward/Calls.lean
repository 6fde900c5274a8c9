import ShaderBridge.Proofs.Backward.Shapes
import ShaderBridge.Proofs.Hlsl.Ending
import ShaderBridge.Proofs.Ladder
import ShaderBridge.Proofs.Metal.Ending

/-!
# Call statements of HLSL and Metal

Both grammars take the name that a statement begins with before they know what the statement is.
Where an opening parenthesis follows, nothing is done with the name, and what stands in parentheses
is read as an expression.  So a call is accepted just if it has one argument, and then it is read as
that argument (`call_statement_read_iff`).

- `ArgumentsTo expr c args c'`: from `c` the parser reads the arguments with commas between them, up
  to the parenthesis that closes them.
- `CallAt expr c args c'`: a call with these arguments and a semicolon begins at `c`.
-/

namespace ShaderBridge.Backward

open ShaderBridge.Parser Ladder

/-! ## §1 Parentheses -/

namespace Dialect

/-- The expressions of a grammar, nested at most so deep. -/
def expressionAt : Dialect → Nat → Parser Tree
  | .hlsl => Hlsl.expressionAt
  | .metal => Metal.expressionAt

/-- The expressions of a grammar. -/
def expressions : Dialect → Parser Tree
  | .hlsl => Hlsl.expression
  | .metal => Metal.expression

/-- The statements of a grammar. -/
def statements : Dialect → Parser Tree
  | .hlsl => Hlsl.statement
  | .metal => Metal.statement

/-- The types that begin a value. -/
def valueTypes : Dialect → List TokenKind
  | .hlsl => Hlsl.valueTypes
  | .metal => Metal.valueTypes

/-- An operand of an expression. -/
def operandAt (d : Dialect) (n : Nat) : Parser Tree :=
  Form.operand d.varNode (d.expressionAt n) d.valueTypes

end Dialect

variable {d : Dialect} {c c' : Cursor} {t : Tree}

/-- What is read without a bound is read with every bound above the number of tokens ahead. -/
theorem expressionAt_of_lt {n : Nat} (hn : c.rest.length < n) (h : d.expressions c = .ok t c') :
    d.expressionAt n c = .ok t c' := by
  obtain ⟨k, rfl⟩ : ∃ k, n = k + (c.rest.length + 1) := ⟨n - (c.rest.length + 1), by omega⟩
  -- The two bounds are compared as two parsers, by the lemmas on where a reading ends.
  have hmatch : Matches (Setting.finite .comments).pair 1 c c (d.expressions c)
      (d.expressionAt (k + (c.rest.length + 1)) c) := by
    cases d with
    | hlsl =>
      have hends : Agrees (Setting.finite .comments).pair (c.rest.length + 1) 1
          (nested Hlsl.expressionAt) (nested fun j => Hlsl.expressionAt (k + j)) :=
        EndsAt.nested fun _ _ _ _ ih => Hlsl.ends_expressionWith ih
      exact hends c c (Setting.paired_finite c) (Nat.lt_succ_self _) trivial
    | metal =>
      have hends : Agrees (Setting.finite .comments).pair (c.rest.length + 1) 1
          (nested Metal.expressionAt) (nested fun j => Metal.expressionAt (k + j)) :=
        EndsAt.nested fun _ _ _ _ ih => Metal.ends_expressionWith ih
      exact hends c c (Setting.paired_finite c) (Nat.lt_succ_self _) trivial
  rw [h] at hmatch
  generalize d.expressionAt (k + (c.rest.length + 1)) c = r at hmatch ⊢
  cases hmatch with
  | ok hpaired => rw [hpaired.1]

/-- An operand is the whole expression if a semicolon follows it, or if it is rejected. -/
theorem expressionAt_eq_operand {n : Nat} (hk : c.kind ∉ [.plus, .minus])
    (h : ∀ t c', d.operandAt n c = .ok t c' →
      c'.kind = .semicolon) :
    d.expressionAt (n + 1) c = d.operandAt n c := by
  have hsigned : signed .comments .byText (d.operandAt n) c = d.operandAt n c :=
    signed_eq_operand hk
  have hladder : disjunction .comments (signed .comments .byText (d.operandAt n)) c
      = d.operandAt n c := by
    rw [disjunction_eq_operand fun t c' hrun => h t c' (hsigned.symm.trans hrun), hsigned]
  cases hrun : d.operandAt n c with
  | error e c' =>
    replace hladder := hladder.trans hrun
    cases d <;> exact bind_of_error hladder
  | ok t c' =>
    have hend := h t c' hrun
    replace hladder := hladder.trans hrun
    -- A semicolon neither assigns nor begins a choice.
    have hassign : isAt Form.assignOperators c' = .ok false c' := by
      rw [isAt_run, hend]
      rfl
    have hchoice : ∀ expr : Parser Tree, choice .comments expr t c' = .ok t c' := by
      intro expr
      rw [choice, isAt_bind, hend]
      rfl
    cases d with
    | hlsl =>
      refine (bind_of_ok hladder).trans ?_
      exact (bind_of_ok (loop_stop hassign)).trans (hchoice _)
    | metal =>
      refine (bind_of_ok hladder).trans ?_
      exact (bind_of_ok hassign).trans (hchoice _)

/-- Behind an opening parenthesis an expression and a closing one are read. -/
theorem operand_of_leftParen {n : Nat} (hk : c.kind = .leftParen) :
    d.operandAt n c = (do
      let e ← d.expressionAt n
      let _ ← expect .comments .rightParen
      return e : Parser Tree) (c.advance .comments) := by
  have htypes : TokenKind.leftParen ∉ d.valueTypes := by cases d <;> decide
  rw [Dialect.operandAt, Form.operand, kind_bind, hk, if_neg htypes, if_neg (by decide),
    if_neg (by decide), if_pos rfl, parenthesized, bind_of_ok (expect_run hk)]

/-- No expression begins with a closing parenthesis. -/
theorem expressionAt_of_rightParen {n : Nat} (hk : c.kind = .rightParen) :
    d.expressionAt (n + 1) c =
      .error (.rejected (.unexpectedIn "in expression" .rightParen)) c := by
  have hreject : d.operandAt n c
      = .error (.rejected (.unexpectedIn "in expression" .rightParen)) c := by
    have htypes : TokenKind.rightParen ∉ d.valueTypes := by cases d <;> decide
    rw [Dialect.operandAt, Form.operand, kind_bind, hk, if_neg htypes, if_neg (by decide),
      if_neg (by decide), if_neg (by decide)]
    rfl
  rw [expressionAt_eq_operand (by rw [hk]; decide) fun t c' hrun => ?_, hreject]
  rw [hreject] at hrun
  cases hrun

/-! ## §2 Calls -/

/-- The arguments of a call, read one by one with commas between them, up to the parenthesis that
closes them. -/
inductive ArgumentsTo (expr : Parser Tree) : Cursor → List Tree → Cursor → Prop
  | none {c : Cursor} (h : c.kind = .rightParen) : ArgumentsTo expr c [] c
  | last {c c' : Cursor} {t : Tree} (h : expr c = .ok t c') (hclose : c'.kind = .rightParen) :
      ArgumentsTo expr c [t] c'
  | further {c d c' : Cursor} {t u : Tree} {us : List Tree} (h : expr c = .ok t d)
      (hcomma : d.kind = .comma) (hmore : ArgumentsTo expr (d.advance .comments) (u :: us) c') :
      ArgumentsTo expr c (t :: u :: us) c'

/-- A name, arguments in parentheses and a semicolon, and the place behind them. -/
structure CallAt (expr : Parser Tree) (c : Cursor) (args : List Tree) (c' : Cursor) : Prop where
  name : c.kind = .identifier
  opens : (c.advance .comments).kind = .leftParen
  arguments : ∃ close, ArgumentsTo expr ((c.advance .comments).advance .comments) args close ∧
    (close.advance .comments).kind = .semicolon ∧
    c' = (close.advance .comments).advance .comments

/-- The name of a call statement is dropped. -/
theorem statements_of_call (hname : c.kind = .identifier)
    (hopens : (c.advance .comments).kind = .leftParen) :
    d.statements c = Form.ended d.expressions (c.advance .comments) := by
  have hform : d.statements c = Form.declaration d.varNode d.expressions c := by
    cases d with
    | hlsl => exact congrFun (if_pos (hname ▸ by decide : c.kind ∈ Form.declarationStarts)) c
    | metal => exact congrFun (if_pos (hname ▸ by decide : c.kind ∈ Metal.statementStarts)) c
  have hstart : c.kind ∈ Form.declarationStarts := hname ▸ by decide
  rw [hform, Form.declaration, isNotAt_bind, if_neg (by simpa using hstart), takeText_bind,
    Form.afterFirst, kind_bind, hopens, if_neg (by decide), if_neg (by decide), if_neg (by decide),
    if_neg (by decide)]

/-- What a call statement is read as.  Whatever its arguments are, both grammars accept it just if
there is exactly one of them, and then they give the tree of that argument: the name is in no tree.
Without an argument the closing parenthesis is unexpected, and with two or more the first comma
is. -/
theorem call_statement_read_iff {args : List Tree} (h : CallAt d.expressions c args c') :
    (∀ t e, d.statements c = .ok t e ↔ args = [t] ∧ e = c') ∧
    (args = [] → ∃ e, d.statements c
      = .error (.rejected (.unexpectedIn "in expression" .rightParen)) e) ∧
    (2 ≤ args.length → ∃ e, d.statements c
      = .error (.rejected (.expected TokenKind.rightParen.label .comma)) e) := by
  obtain ⟨hname, hopens, close, hargs, hend, rfl⟩ := h
  rw [statements_of_call hname hopens]
  generalize c.advance .comments = c at hopens hargs
  have hlt : (c.advance .comments).rest.length < c.rest.length :=
    length_advance_lt (by rw [hopens]; decide)
  obtain ⟨n, hn⟩ : ∃ n, c.rest.length = n + 1 := ⟨c.rest.length - 1, by omega⟩
  have hoperand := operand_of_leftParen (d := d) (n := c.rest.length) hopens
  have hexpr : d.expressions c = d.expressionAt (c.rest.length + 1) c := by cases d <;> rfl
  have hsign : c.kind ∉ [.plus, .minus] := by rw [hopens]; decide
  -- An operand that is rejected is rejected as a statement.
  have hfault : ∀ {e : Fault} {c' : Cursor},
      d.operandAt c.rest.length c = .error e c' →
      Form.ended d.expressions c = .error e c' := by
    intro e c' hrun
    refine bind_of_error ?_
    rw [hexpr, expressionAt_eq_operand hsign fun t c₁ hok => ?_, hrun]
    rw [hrun] at hok
    cases hok
  cases hargs with
  | none hclose =>
    have hrun := hfault (hoperand.trans (bind_of_error (hn ▸ expressionAt_of_rightParen hclose)))
    exact ⟨by simp [hrun], fun _ => ⟨_, hrun⟩, by simp⟩
  | @further _ c₁ _ _ _ _ hfirst hcomma _ =>
    have hclose : expect .comments .rightParen c₁
        = .error (.rejected (.expected TokenKind.rightParen.label .comma)) c₁ := by
      rw [expect_run_of_ne (by rw [hcomma]; decide), Trivia.mismatch,
        show c₁.current.kind = _ from hcomma]
    have hrun := hfault (hoperand.trans ((bind_of_ok (expressionAt_of_lt hlt hfirst)).trans
      (bind_of_error hclose)))
    exact ⟨by simp [hrun], by simp, fun _ => ⟨_, hrun⟩⟩
  | @last _ _ t hfirst hclose =>
    have hgroup := hoperand.trans ((bind_of_ok (expressionAt_of_lt hlt hfirst)).trans
      (bind_of_ok (expect_run hclose)))
    have hrun : Form.ended d.expressions c
        = .ok t ((close.advance .comments).advance .comments) := by
      have hvalue : d.expressions c = .ok t (close.advance .comments) := by
        rw [hexpr, expressionAt_eq_operand hsign fun t₁ c₁ hok => ?_, hgroup]
        · rfl
        · rw [hgroup] at hok
          cases hok
          exact hend
      exact (bind_of_ok hvalue).trans (bind_of_ok (expect_run hend))
    refine ⟨fun t₁ e => ?_, by simp, by simp⟩
    rw [hrun]
    simp [eq_comm]

/-- The tokens of `f(a, b);`. -/
def pairCall : List Token :=
  [⟨.identifier, some "f"⟩, ⟨.leftParen, some "("⟩, ⟨.identifier, some "a"⟩, ⟨.comma, some ","⟩,
   ⟨.identifier, some "b"⟩, ⟨.rightParen, some ")"⟩, ⟨.semicolon, some ";"⟩]

/-- A call with two arguments is rejected. -/
theorem call_statement_read_pair :
    CallAt Hlsl.expression ⟨0, pairCall⟩
      [Hlsl.var (.text []) (.text "a"), Hlsl.var (.text []) (.text "b")] ⟨7, []⟩ ∧
    ∃ e, Hlsl.statement ⟨0, pairCall⟩
      = .error (.rejected (.expected TokenKind.rightParen.label .comma)) e := by
  have hcall : CallAt Hlsl.expression ⟨0, pairCall⟩
      [Hlsl.var (.text []) (.text "a"), Hlsl.var (.text []) (.text "b")] ⟨7, []⟩ :=
    ⟨rfl, rfl, _, .further rfl rfl (.last rfl rfl), rfl, rfl⟩
  exact ⟨hcall, (call_statement_read_iff (d := .hlsl) hcall).2.2 (by decide)⟩

/-- The tokens of `f(a);`. -/
def callStatement : List Token :=
  [⟨.identifier, some "f"⟩, ⟨.leftParen, some "("⟩, ⟨.identifier, some "a"⟩,
   ⟨.rightParen, some ")"⟩, ⟨.semicolon, some ";"⟩]

/-- A call with one argument is read as the argument. -/
theorem call_statement_loses_name :
    Hlsl.statement ⟨0, callStatement⟩ = .ok (Hlsl.var (.text []) (.text "a")) ⟨5, []⟩ ∧
      Metal.statement ⟨0, callStatement⟩ = .ok (Metal.var (.text []) (.text "a")) ⟨5, []⟩ :=
  ⟨rfl, rfl⟩

end ShaderBridge.Backward
