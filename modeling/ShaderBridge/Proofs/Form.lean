import ShaderBridge.Grammar.Form
import ShaderBridge.Proofs.Ending

/-!
# Reading the shared forms comes to an end

Each form reads a token before it may hold itself (`ends_operand`, `ends_expression`,
`ends_declaration`, `ends_counted`), whatever the node of a variable is and whatever types begin a
value.
-/

namespace ShaderBridge.Form

open ShaderBridge.Parser Ladder

variable {S : Pairing tv} {n : Nat} {var : Tree → Tree → Tree} {types : List TokenKind}
  {expr expr' : Parser Tree}

/-! ## §1 Expressions -/

theorem ends_name (h : Agrees S (n - 1) 1 expr expr') :
    Agrees S n 1 (name var expr) (name var expr') := by
  refine (EndsAt.expectText (by decide)).lead fun name => ?_
  apply EndsAt.kind
  intro k _ _
  split
  · exact (EndsAt.looseArguments (h.within (by omega))).loose.here.seq fun _ => .pure
  · exact (EndsAt.memberChain name).loose.here
  · exact .pure

theorem ends_operand (htypes : .endOfInput ∉ types) (h : Agrees S (n - 1) 1 expr expr') :
    Agrees S n 1 (operand var expr types) (operand var expr' types) := by
  refine EndsAt.kind fun k _ _ => .ite (fun hk => ?_) fun _ => ?_
  · -- The type has been read, so what follows need not read a token.
    apply (EndsAt.takeTextIn hk htypes).lead
    intro _
    apply EndsAt.kind
    intro k _ _
    split
    · exact EndsAt.takeText_any.seq fun _ => .pure
    · exact (EndsAt.looseArguments (h.within (by omega))).loose.here.seq fun _ => .pure
    · exact (ends_name (h.within (by omega))).loose.here
  · refine .ite (fun _ => (ends_name h).here) fun _ => ?_
    refine .ite (fun hk => .takeText fun hend => by cases hend.trans hk) fun _ => ?_
    exact .ite (fun _ => (EndsAt.parenthesized h.loose).here) fun _ => .reject

theorem ends_expression {unary unary' : Parser Tree} (hunary : Agrees S n 1 unary unary')
    (h : Agrees S (n - 1) 1 expr expr') :
    Agrees S n 1 (expression expr unary) (expression expr' unary') := by
  apply (EndsAt.disjunction hunary).lead
  intro left
  refine EndsAt.isAt ?_ ?_
  · apply EndsAt.takeText_any.seq
    intro _
    exact h.loose.seq fun _ => .pure
  · exact (EndsAt.choice (h.within (by omega)).loose left).here

/-! ## §2 Statements -/

section Statements

variable (h : ∀ n, Ends S n 1 expr)

include h

theorem ends_ended : Ends S n 1 (ended expr) := by
  apply (h n).lead
  intro _
  exact EndsAt.expect_any.seq fun _ => .pure

theorem ends_assigned : Ends S n 0 (assigned expr) := by
  apply EndsAt.expect_any.seq
  intro _
  exact (ends_ended h).loose

/-- Even where it gives no statement it has read the type and the name. -/
theorem ends_declaration : Ends S n 1 (declaration var expr) := by
  have hassigned {m} {f : Tree → Tree} : Ends S m 0 (do return f (← assigned expr)) :=
    (ends_assigned h).seq fun _ => .pure
  -- The first token is read in any case, so what follows may hold expressions.
  refine EndsAt.isNotAt (ends_ended h) ((EndsAt.takeTextOf (by decide)).lead fun first => ?_)
  refine EndsAt.kind fun k _ _ => .ite (fun _ => EndsAt.takeText_any.seq fun name => ?_) fun _ => ?_
  · apply EndsAt.kind
    intro k _ _
    split
    · exact EndsAt.take_any.seq fun _ => .pure
    · exact hassigned.here
    · exact .pure
  refine .ite (fun _ => hassigned.here) fun _ => .ite (fun _ => ?_) fun _ => ?_
  · apply (EndsAt.memberChain first).loose.here.seq
    intro left
    refine EndsAt.isAt hassigned.here ?_
    exact EndsAt.expect_any.seq fun _ => .pure
  refine .ite (fun _ => ?_) fun _ => (ends_ended h).loose.here
  apply EndsAt.takeText_any.seq
  intro _
  exact (ends_ended h).loose.seq fun _ => .pure

theorem ends_returned : Ends S n 1 (returned expr) := by
  refine (EndsAt.expect (by decide)).lead fun _ => ?_
  exact (ends_ended h).loose.seq fun _ => .pure

theorem ends_loopStart : Ends S n 0 (loopStart var expr types) := by
  refine EndsAt.isAt ?_ (h n).loose.here
  apply EndsAt.takeText_any.seq
  intro _
  apply EndsAt.expectText_any.seq
  intro _
  apply EndsAt.expect_any.seq
  intro _
  exact (h n).loose.seq fun _ => .pure

theorem ends_counted {block block' : Parser (List Tree)} (hb : Agrees S (n - 1) 0 block block') :
    Agrees S n 1 (counted var expr types block) (counted var expr types block') := by
  refine (EndsAt.expectAll (by decide)).lead fun _ => ?_
  apply (ends_loopStart h).seq
  intro _
  apply EndsAt.expect_any.seq
  intro _
  apply (ends_ended h).loose.seq
  intro _
  apply (h _).loose.seq
  intro _
  apply EndsAt.expect_any.seq
  intro _
  exact hb.seq fun _ => .pure

end Statements

theorem ends_block {statement statement' : Parser Tree} (h : Agrees S n 1 statement statement') :
    Agrees S n 0 (block statement) (block statement') := by
  apply EndsAt.expect_any.seq
  intro _
  apply (EndsAt.manyNotAt h.here).seq
  intro _
  exact EndsAt.expect_any.seq fun _ => .pure

/-! ## §3 Constant buffers -/

theorem ends_constantBuffer : Ends S n 1 (constantBuffer var) := by
  -- A member wants a name, which the end is not.
  have hmember {m} : Ends S m 1 (bufferMember var) := by
    apply EndsAt.takeText_any.seq
    intro _
    refine (EndsAt.expectText (by decide)).lead fun _ => ?_
    exact EndsAt.expect_any.seq fun _ => .pure
  refine (EndsAt.expect (by decide)).lead fun _ => ?_
  apply EndsAt.expectText_any.seq
  intro _
  apply EndsAt.expect_any.seq
  intro _
  apply (EndsAt.manyNotAt hmember.here).seq
  intro _
  exact EndsAt.expect_any.seq fun _ => .pure

end ShaderBridge.Form
