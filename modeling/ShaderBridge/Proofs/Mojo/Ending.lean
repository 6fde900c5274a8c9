import ShaderBridge.Grammar.Mojo
import ShaderBridge.Proofs.Form

/-!
# Reading Mojo comes to an end

Every part of the Mojo grammar that a loop repeats or that may hold itself reads a token first, and
the grammar has no fault but rejections, where neither classes nor attributes are met
(`ends_source`).  A class would read on past the end for its closing brace, and an attribute without
a text would have a fault of its own; the token table knows neither.
-/

namespace ShaderBridge.Mojo

open ShaderBridge.Parser Ladder Attribute

/-- No classes and no attributes, and no fault but rejections. -/
abbrev setting : Setting tv :=
  .strict (fun k => k ≠ .classWord ∧ k ≠ .attributeMark) (by decide)

variable {n : Nat} {S : Pairing tv}

/-! ## §1 Expressions -/

theorem ends_annotation? : Ends S n 0 annotation? :=
  EndsAt.isAt (EndsAt.take_any.seq fun _ => EndsAt.takeText_any.map) .pure

section Expressions

variable {expr expr' : Parser Tree}

theorem ends_argumentsWith (h : Agrees S (n - 1) 1 expr expr') :
    Agrees S n 1 (argumentsWith expr) (argumentsWith expr') := by
  refine (EndsAt.expect (by decide)).lead fun _ => (EndsAt.manyNotAt ?_).seq fun _ => ?_
  · apply h.here.lead
    intro _
    apply EndsAt.kind
    intro k _ _
    split
    · exact EndsAt.take_any.seq fun _ => .pure
    · exact .pure
    · exact .reject
  · exact EndsAt.expect_any.seq fun _ => .pure

/-- A chain of members is no longer than the tokens ahead. -/
theorem ends_memberWith (h : Agrees S n 1 expr expr') (object : Tree) :
    Agrees S n 1 (memberWith expr object) (memberWith expr' object) := by
  refine .nestedOn (fun m _ _ hm hmore object => ?_) object
  refine (EndsAt.expect (by decide)).lead fun _ => ?_
  refine EndsAt.check (w := .expected "IDENTIFIER after dot") ?_
  apply EndsAt.takeText_any.seq
  intro member
  apply EndsAt.kind
  intro k _ _
  split
  · exact (ends_argumentsWith (h.within (by omega))).loose.here.seq fun _ => .pure
  · exact (hmore _).loose.here
  · exact .pure

theorem ends_nameOrCallWith (h : Agrees S (n - 1) 1 expr expr') :
    Agrees S n 1 (nameOrCallWith expr) (nameOrCallWith expr') := by
  apply EndsAt.kind
  intro k _ _
  split
  · refine (EndsAt.takeText (by decide)).lead fun name => ?_
    apply EndsAt.kind
    intro k _ _
    split
    · exact (ends_argumentsWith (h.within (by omega))).loose.here.seq fun _ => .pure
    · exact (ends_memberWith h name).loose.here
    · exact ends_annotation?.here.seq fun _ => .pure
  · exact .takeText (by decide)
  · exact .reject

theorem ends_primaryWith (h : Agrees S (n - 1) 1 expr expr') :
    Agrees S n 1 (primaryWith expr) (primaryWith expr') := by
  refine EndsAt.kind fun k _ _ => .ite (fun hk => ?_) fun _ => ?_
  · refine (EndsAt.takeTextIn hk (by decide)).lead fun _ => ?_
    refine EndsAt.isAt ?_ ?_
    · apply EndsAt.takeText_any.seq
      intro _
      exact ends_annotation?.seq fun _ => .pure
    · exact (ends_nameOrCallWith (h.within (by omega))).loose.here
  · refine .ite (fun _ => (ends_nameOrCallWith h).here) fun _ => ?_
    refine .ite (fun _ => (EndsAt.parenthesized h.loose).here) fun _ => ?_
    exact .ite (fun _ => .reject) fun _ => .reject

theorem ends_expressionWith (h : Agrees S (n - 1) 1 expr expr') :
    Agrees S n 1 (expressionWith expr) (expressionWith expr') :=
  Form.ends_expression (.signed (ends_primaryWith h)) h

theorem ends_expression : Ends S n 1 expression := by
  refine .nested fun _ _ _ _ ih => ?_
  exact ends_expressionWith ih

end Expressions

/-! ## §2 Plain statements -/

theorem ends_expressionStatement : Ends S n 1 expressionStatement :=
  Form.ends_ended fun _ => ends_expression

theorem ends_declarationOrAssignment : Ends S n 1 declarationOrAssignment := by
  refine EndsAt.isAt ((EndsAt.takeOf (by decide)).lead fun _ => ?_) ends_expression.here
  apply EndsAt.expectText_any.seq
  intro _
  apply ends_annotation?.seq
  intro _
  refine EndsAt.isAt ?_ ?_
  · apply EndsAt.take_any.seq
    intro _
    apply ends_expression.loose.seq
    intro _
    exact EndsAt.accept.seq fun _ => .pure
  · exact EndsAt.accept.seq fun _ => .pure

theorem ends_returnStatement : Ends S n 1 returnStatement := by
  refine (EndsAt.expect (by decide)).lead fun _ => ?_
  apply ends_expression.loose.seq
  intro _
  exact EndsAt.accept.seq fun _ => .pure

theorem ends_importStatement : Ends S n 1 importStatement := by
  refine (EndsAt.expect (by decide)).lead fun _ => ?_
  apply EndsAt.expectText_any.seq
  intro _
  refine EndsAt.isAt ?_ ?_
  · apply EndsAt.take_any.seq
    intro _
    apply EndsAt.expectText_any.seq
    intro _
    exact EndsAt.accept.seq fun _ => .pure
  · exact EndsAt.accept.seq fun _ => .pure

theorem ends_decorator : Ends S n 1 decorator := by
  refine (EndsAt.expect (by decide)).lead fun _ => ?_
  apply EndsAt.text.seq
  intro _
  exact EndsAt.cond (EndsAt.looseArguments ends_expression).loose.here .pure fun _ => .pure

/-! ## §3 Structures and constant buffers -/

theorem ends_structMember (hS : S.kinds .attributeMark → S.faults .wrongSort) :
    Ends S n 1 structMember := by
  refine EndsAt.cond .takeText_any .pure fun _ => ?_
  refine (EndsAt.expectText (by decide)).lead fun _ => ?_
  apply ends_annotation?.seq
  intro _
  exact (EndsAt.attributes hS).seq fun _ => .pure

theorem ends_struct (hS : S.kinds .attributeMark → S.faults .wrongSort) :
    Ends S n 1 struct := by
  refine (EndsAt.expect (by decide)).lead fun _ => ?_
  apply EndsAt.expectText_any.seq
  intro _
  apply EndsAt.expect_any.seq
  intro _
  exact (EndsAt.manyNotAt (ends_structMember hS).here).seq fun _ => .pure

theorem ends_constantBuffer : Ends S n 1 constantBuffer := Form.ends_constantBuffer

/-! ## §4 Functions and compound statements -/

theorem ends_parameter (hS : S.kinds .attributeMark → S.faults .wrongSort) :
    Ends S n 1 parameter := by
  apply (EndsAt.attributes hS).seq
  intro _
  refine EndsAt.check (w := .unexpectedIn "in parameter list") ?_
  refine (EndsAt.takeTextOf (by decide)).lead fun _ => ?_
  apply ends_annotation?.seq
  intro _
  refine EndsAt.cond .takeText_any .pure fun _ => ?_
  exact (EndsAt.attributes hS).seq fun _ => .pure

theorem ends_parameters (hS : S.kinds .attributeMark → S.faults .wrongSort) :
    Ends S n 0 parameters := by
  refine EndsAt.manyNotAt ((ends_parameter hS).here.lead fun _ => EndsAt.kind fun k _ _ => ?_)
  split
  · apply EndsAt.take_any.seq
    intro _
    refine EndsAt.isAt .rejectThen .pure
  · exact .pure
  · exact .reject

theorem ends_returnType : Ends S n 0 returnType :=
  EndsAt.isAt (EndsAt.take_any.seq fun _ => EndsAt.isAt (EndsAt.take_any.seq fun _ =>
    EndsAt.takeText_any) .pure) .pure

section Statements

variable {block block' : Parser (List Tree)}

theorem ends_functionWith (hS : S.kinds .attributeMark → S.faults .wrongSort)
    (h : Agrees S (n - 1) 0 block block') :
    Agrees S n 1 (functionWith block) (functionWith block') := by
  apply (EndsAt.attributes hS).seq
  intro _
  refine EndsAt.cond .takeText_any .pure fun _ => ?_
  refine (EndsAt.expectText (by decide)).lead fun _ => ?_
  apply EndsAt.expect_any.seq
  intro _
  apply (ends_parameters hS).seq
  intro _
  apply EndsAt.expect_any.seq
  intro _
  apply ends_returnType.seq
  intro _
  apply (EndsAt.attributes hS).seq
  intro _
  exact h.seq fun _ => .pure

theorem ends_branchWith (h : Agrees S (n - 1) 0 block block') :
    Agrees S n 1 (branchWith block) (branchWith block') := by
  refine (EndsAt.expect (by decide)).lead fun _ => ?_
  apply (EndsAt.parenthesized ends_expression.loose).loose.seq
  intro _
  apply h.seq
  intro _
  exact EndsAt.isAt (EndsAt.take_any.seq fun _ => h.seq fun _ => .pure) .pure

theorem ends_forWith (h : Agrees S (n - 1) 0 block block') :
    Agrees S n 1 (forWith block) (forWith block') := by
  refine (EndsAt.expectAll (by decide)).lead fun _ => ?_
  apply ends_declarationOrAssignment.loose.seq
  intro _
  apply EndsAt.expect_any.seq
  intro _
  apply ends_expressionStatement.loose.seq
  intro _
  apply ends_expression.loose.seq
  intro _
  apply EndsAt.expect_any.seq
  intro _
  exact h.seq fun _ => .pure

theorem ends_whileWith (h : Agrees S (n - 1) 0 block block') :
    Agrees S n 1 (whileWith block) (whileWith block') := by
  refine (EndsAt.expect (by decide)).lead fun _ => ?_
  apply (EndsAt.parenthesized ends_expression.loose).loose.seq
  intro _
  exact h.seq fun _ => .pure

theorem ends_switchCaseWith (h : Agrees S n 0 block block') :
    Agrees S n 1 (switchCaseWith block) (switchCaseWith block') := by
  have hblock : Agrees S (n - 1) 0 block block' := h.within (by omega)
  apply EndsAt.kind
  intro k _ _
  split
  · refine (EndsAt.take (by decide)).lead fun _ => ?_
    apply ends_expression.loose.seq
    intro _
    apply EndsAt.expect_any.seq
    intro _
    exact hblock.seq fun _ => .pure
  · refine (EndsAt.take (by decide)).lead fun _ => ?_
    apply EndsAt.expect_any.seq
    intro _
    exact hblock.seq fun _ => .pure
  · exact .reject

theorem ends_switchWith (h : Agrees S (n - 1) 0 block block') :
    Agrees S n 1 (switchWith block) (switchWith block') := by
  refine (EndsAt.expect (by decide)).lead fun _ => ?_
  apply (EndsAt.parenthesized ends_expression.loose).loose.seq
  intro _
  apply EndsAt.expect_any.seq
  intro _
  apply (EndsAt.manyNotAt (ends_switchCaseWith h).here).seq
  intro _
  exact EndsAt.expect_any.seq fun _ => .pure

theorem ends_statementWith (hS : S.kinds .attributeMark → S.faults .wrongSort)
    (h : Agrees S (n - 1) 0 block block') :
    Agrees S n 1 (statementWith block) (statementWith block') := by
  apply EndsAt.kind
  intro k _ _
  refine .ite (fun _ => ends_declarationOrAssignment.here) fun _ => ?_
  refine .ite (fun _ => (ends_functionWith hS h).here) fun _ => ?_
  refine .ite (fun _ => (ends_branchWith h).here) fun _ => ?_
  refine .ite (fun _ => (ends_forWith h).here) fun _ => ?_
  refine .ite (fun _ => (ends_whileWith h).here) fun _ => ?_
  refine .ite (fun _ => ends_returnStatement.here) fun _ => ?_
  refine .ite (fun _ => (ends_switchWith h).here) fun _ => ?_
  exact .ite (fun _ => (ends_struct hS).here) fun _ => ends_expressionStatement.here

end Statements

theorem ends_block (hS : S.kinds .attributeMark → S.faults .wrongSort) :
    Ends S n 0 block := by
  refine .nested fun m _ _ _ ih => ?_
  refine EndsAt.check (w := .expected "COLON or LBRACE") (EndsAt.take_any.seq fun _ => ?_)
  apply (EndsAt.manyNotAt (ends_statementWith (n := m + 1) hS ih).here).seq
  intro _
  exact EndsAt.accept.seq fun _ => .pure

/-! ## §5 Classes and modules -/

/-- Where going on for ever is allowed, a class need not be closed. -/
theorem ends_classDef (hS : S.kinds .attributeMark → S.faults .wrongSort)
    (hendless : S.faults .endless) : Ends S n 1 classDef := by
  refine .nested fun m i j _ ih => ?_
  have hbases : Ends S m 0 baseClasses := by
    refine EndsAt.isAt (EndsAt.take_any.seq fun _ => ?_) .pure
    refine (EndsAt.untilClose (.expectText (by decide))).seq fun _ => ?_
    exact EndsAt.expect_any.seq fun _ => .pure
  -- An item may read nothing, so the loop over them may wait.
  have hitem (found : List Tree) :
      Agrees S m 0 (classItemWith (classAt i) found) (classItemWith (classAt j) found) := by
    refine EndsAt.kind fun k _ _ => .ite (fun _ => ?_) fun _ => .ite (fun _ => ?_) fun _ => ?_
    · exact (ends_functionWith hS (ends_block hS)).loose.here.seq fun _ => .pure
    · exact ends_declarationOrAssignment.loose.here.seq fun _ => .pure
    · refine .ite (fun _ => ih.loose.here.seq fun _ => .pure) fun _ => ?_
      exact EndsAt.take_any.seq fun _ => .pure
  refine (EndsAt.expect (by decide)).lead fun _ => ?_
  apply EndsAt.expectText_any.seq
  intro _
  refine hbases.seq fun _ => EndsAt.expect_any.seq fun _ => EndsAt.seq ?_ fun _ =>
    EndsAt.expect_any.seq fun _ => .pure
  exact .loop_waiting hendless asks_isNotAt (fun found => (hitem found).here) []

/-- Any token but the end is an item, or is passed over. -/
theorem ends_moduleItem (hS : S.kinds .attributeMark → S.faults .wrongSort)
    (hclass : S.kinds .classWord → Ends S n 1 classDef) (found : List Tree) :
    EndsAt S n (· ∉ [.endOfInput]) 1 (moduleItem found) (moduleItem found) := by
  apply EndsAt.kind
  intro k hk hmet
  refine .ite (fun _ => ends_importStatement.here.lead fun _ => .pure) fun _ => ?_
  refine .ite (fun _ => (ends_struct hS).here.lead fun _ => .pure) fun _ => ?_
  refine .ite (fun hword => (hclass (hword ▸ hmet)).here.lead fun _ => .pure) fun _ => ?_
  refine .ite (fun _ => ends_constantBuffer.here.lead fun _ => .pure) fun _ => ?_
  refine .ite (fun _ => ?_) fun _ => ?_
  · exact (ends_functionWith hS (ends_block hS)).here.lead fun _ => .pure
  refine .ite (fun _ => ends_declarationOrAssignment.here.lead fun _ => .pure) fun _ => ?_
  refine .ite (fun _ => ends_decorator.here.lead fun _ => .pure) fun _ => ?_
  exact (EndsAt.take fun hend => hk (by simp [hend])).lead fun _ => .pure

theorem ends_moduleItems (hS : S.kinds .attributeMark → S.faults .wrongSort)
    (hclass : S.kinds .classWord → Ends S n 1 classDef) : Ends S n 0 moduleItems :=
  (EndsAt.loop asks_isNotAt (ends_moduleItem hS hclass) []).seq fun _ => .pure

theorem ends_source (hS : S.kinds .attributeMark → S.faults .wrongSort)
    (hclass : S.kinds .classWord → Ends S n 1 classDef) : Ends S n 0 source := by
  apply (ends_moduleItems hS hclass).seq
  intro _
  exact EndsAt.expect_any.seq fun _ => .pure

end ShaderBridge.Mojo
