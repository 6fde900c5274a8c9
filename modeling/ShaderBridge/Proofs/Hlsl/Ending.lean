import ShaderBridge.Grammar.Hlsl
import ShaderBridge.Proofs.Form

/-!
# Reading HLSL comes to an end

Every part of the HLSL grammar that a loop repeats or that may hold itself reads a token first, and
the grammar has no fault but rejections (`ends_source`).  Members, parameters and arguments are
repeated up to a closing token without a look at the end of the input; each of them wants a name or
an operand, which the end is not.
-/

namespace ShaderBridge.Hlsl

open ShaderBridge.Parser Ladder

/-- Any tokens, and no fault but rejections. -/
abbrev setting : Setting tv := .strict (fun _ => True) trivial

variable {n : Nat} {S : Pairing tv}

/-! ## §1 Expressions -/

section Expressions

variable {expr expr' : Parser Tree}

theorem ends_nameOrCallWith (h : Agrees S (n - 1) 1 expr expr') :
    Agrees S n 1 (nameOrCallWith expr) (nameOrCallWith expr') :=
  Form.ends_name h

theorem ends_primaryWith (h : Agrees S (n - 1) 1 expr expr') :
    Agrees S n 1 (primaryWith expr) (primaryWith expr') :=
  Form.ends_operand (by decide) h

theorem ends_expressionWith (h : Agrees S (n - 1) 1 expr expr') :
    Agrees S n 1 (expressionWith expr) (expressionWith expr') := by
  have hpart : Agrees S n 1 (disjunction tv (unaryWith expr)) (disjunction tv (unaryWith expr')) :=
    .disjunction (.signed (ends_primaryWith h))
  refine hpart.lead fun first => (EndsAt.loop asks_isAt (fun _ => ?_) first).seq fun left => ?_
  · refine (EndsAt.takeTextOf (by decide)).lead fun _ => ?_
    exact (hpart.within (by omega)).loose.seq fun _ => .pure
  · exact .choice (h.within (by omega)).loose left

theorem ends_expression : Ends S n 1 expression := by
  refine .nested fun _ _ _ _ ih => ?_
  exact ends_expressionWith ih

end Expressions

theorem ends_assignment : Ends S n 1 assignment := by
  refine .nested fun m _ _ _ ih => ?_
  apply (EndsAt.disjunction (.signed (ends_primaryWith ends_expression))).lead
  intro _
  refine EndsAt.isAt ?_ .pure
  apply EndsAt.take_any.seq
  intro _
  exact ih.loose.seq fun _ => .pure

/-! ## §2 Plain statements -/

theorem ends_expressionStatement : Ends S n 1 expressionStatement :=
  Form.ends_ended fun _ => ends_expression

theorem ends_declarationOrAssignment : Ends S n 1 declarationOrAssignment :=
  Form.ends_declaration fun _ => ends_expression

theorem ends_returnStatement : Ends S n 1 returnStatement :=
  Form.ends_returned fun _ => ends_expression

/-! ## §3 Compound statements -/

section Statements

variable {block block' : Parser (List Tree)}

theorem ends_guarded (h : Agrees S n 0 block block') :
    Agrees S n 0 (guarded block) (guarded block') := by
  apply (EndsAt.parenthesized ends_expression.loose).loose.seq
  intro _
  exact h.seq fun _ => .pure

theorem ends_alternative {another another' : Parser Tree} (h : Agrees S n 0 block block')
    (hanother : Agrees S n 0 another another') :
    Agrees S n 0 (alternative block another) (alternative block' another') := by
  apply EndsAt.kind
  intro k _ _
  split
  · apply EndsAt.take_any.seq
    intro _
    exact h.seq fun _ => .pure
  · exact hanother.here
  · exact .pure

/-- A chain of branches is no longer than the tokens ahead. -/
theorem ends_elseIfWith (h : Agrees S n 0 block block') :
    Agrees S n 1 (elseIfWith block) (elseIfWith block') := by
  refine .nested fun m _ _ hm hmore => ?_
  have hblock : Agrees S m 0 block block' := h.within (Nat.le_of_lt hm)
  refine (EndsAt.expect (by decide)).lead fun _ => ?_
  apply (ends_guarded hblock).seq
  intro _
  exact (ends_alternative hblock hmore.loose).seq fun _ => .pure

theorem ends_branchWith (h : Agrees S (n - 1) 0 block block') :
    Agrees S n 1 (branchWith block) (branchWith block') := by
  refine (EndsAt.expect (by decide)).lead fun _ => ?_
  apply (ends_guarded h).seq
  intro _
  exact (ends_alternative h (ends_elseIfWith h).loose).seq fun _ => .pure

theorem ends_forWith (h : Agrees S (n - 1) 0 block block') :
    Agrees S n 1 (forWith block) (forWith block') :=
  Form.ends_counted (fun _ => ends_expression) h

theorem ends_statementWith (h : Agrees S (n - 1) 0 block block') :
    Agrees S n 1 (statementWith block) (statementWith block') := by
  apply EndsAt.kind
  intro k _ _
  refine .ite (fun _ => ends_declarationOrAssignment.here) fun _ => ?_
  refine .ite (fun _ => (ends_branchWith h).here) fun _ => ?_
  refine .ite (fun _ => (ends_forWith h).here) fun _ => ?_
  exact .ite (fun _ => ends_returnStatement.here) fun _ => ends_expressionStatement.here

end Statements

theorem ends_block : Ends S n 0 block := by
  refine .nested fun m _ _ _ ih => ?_
  exact Form.ends_block (ends_statementWith (n := m + 1) ih)

/-! ## §4 Declarations and shaders -/

theorem ends_member : Ends S n 1 member := by
  apply EndsAt.takeText_any.seq
  intro _
  refine (EndsAt.expectText (by decide)).lead fun _ => ?_
  refine EndsAt.cond .takeText_any .pure fun _ => ?_
  exact EndsAt.expect_any.seq fun _ => .pure

theorem ends_structParts : Ends S n 1 structParts := by
  refine (EndsAt.expect (by decide)).lead fun _ => ?_
  apply EndsAt.expectText_any.seq
  intro _
  apply EndsAt.expect_any.seq
  intro _
  exact (EndsAt.manyNotAt ends_member.here).seq fun _ => .pure

theorem ends_parameter : Ends S n 1 parameter := by
  apply EndsAt.takeText_any.seq
  intro _
  refine (EndsAt.expectText (by decide)).lead fun _ => ?_
  exact EndsAt.accept.seq fun _ => .pure

theorem ends_function : Ends S n 1 function := by
  apply EndsAt.takeText_any.seq
  intro _
  refine (EndsAt.expectText (by decide)).lead fun _ => ?_
  apply EndsAt.expect_any.seq
  intro _
  apply (EndsAt.untilClose ends_parameter).seq
  intro _
  apply EndsAt.expect_any.seq
  intro _
  apply EndsAt.accept.seq
  intro _
  exact ends_block.seq fun _ => .pure

/-- Any token but the end is an item, or is passed over. -/
theorem ends_shaderItem (s : ShaderItems) :
    EndsAt S n (· ∉ [.endOfInput]) 1 (shaderItem s) (shaderItem s) := by
  apply EndsAt.kind
  intro k hk _
  refine .ite (fun _ => ends_structParts.here.lead fun _ => .pure) fun _ => ?_
  refine .ite (fun _ => ends_function.here.lead fun _ => .pure) fun _ => ?_
  exact (EndsAt.take fun hend => hk (by simp [hend])).lead fun _ => .pure

theorem ends_shader : Ends S n 0 shader :=
  (EndsAt.loop asks_isNotAt ends_shaderItem {}).seq fun _ => .pure

theorem ends_source : Ends S n 0 source := by
  apply ends_shader.seq
  intro _
  exact EndsAt.expect_any.seq fun _ => .pure

end ShaderBridge.Hlsl
