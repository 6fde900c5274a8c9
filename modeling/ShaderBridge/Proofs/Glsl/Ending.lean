import ShaderBridge.Grammar.Glsl
import ShaderBridge.Proofs.Ending

/-!
# Reading GLSL comes to an end

Every part of the GLSL grammar that a loop repeats or that may hold itself reads a token first
(`ends_source`).  An item of a shader may have a line comment in front of it, and at the end of the
input there is a comment without an item, which is rejected.
-/

namespace ShaderBridge.Glsl

open ShaderBridge.Parser Ladder

variable {n : Nat} {S : Setting tv}

/-! ## §1 Expressions -/

section Expressions

variable {expr : Parser Tree}

theorem ends_nameOrCallWith (h : Ends S.pair (n - 1) 1 expr) :
    Ends S.pair n 1 (nameOrCallWith expr) := by
  refine .condText (by decide) (by decide) fun name => ?_
  apply EndsAt.kind
  intro k _ _
  split
  · exact (EndsAt.strictArguments (h.within (by omega))).loose.here.seq fun _ => .pure
  · exact (EndsAt.memberChain name).loose.here
  · exact .pure

theorem ends_operandWith (h : Ends S.pair (n - 1) 1 expr) :
    Ends S.pair n 1 (operandWith expr) := by
  apply EndsAt.kind
  intro k _ _
  refine .ite (fun _ => (ends_nameOrCallWith h).here) fun _ => ?_
  refine .ite (fun hk => .takeText fun hend => by cases hend.trans hk) fun _ => ?_
  exact .ite (fun _ => (EndsAt.parenthesized h.loose).here) fun _ => .reject

theorem ends_primaryWith (h : Ends S.pair (n - 1) 1 expr) : Ends S.pair n 1 (primaryWith expr) := by
  refine (EndsAt.manyAt (.takeOf (by decide))).seq fun _ => ?_
  exact (ends_operandWith h).lead fun _ => .pure

theorem ends_expressionWith (h : Ends S.pair (n - 1) 1 expr) :
    Ends S.pair n 1 (expressionWith expr) := by
  refine (EndsAt.rung (by decide) (.sum (ends_primaryWith h))).lead fun condition => ?_
  exact .choice (h.within (by omega)).loose condition

theorem ends_expression : Ends S.pair n 1 expression := by
  refine .nested_solo fun _ ih => ?_
  exact ends_expressionWith ih

end Expressions

/-! ## §2 Types and declarations -/

theorem ends_typeName : Ends S.pair n 1 typeName := by
  refine EndsAt.kind fun k _ _ => .ite (fun hk => ?_) fun _ => ?_
  · exact (EndsAt.take fun hend => by cases hend.trans hk).lead fun _ => .pure
  · exact .ite (fun hk => .takeTextIn hk (by decide)) fun _ => .reject

theorem ends_typedName : Ends S.pair n 0 typedName := by
  apply ends_typeName.loose.seq
  intro _
  apply EndsAt.expectText_any.seq
  intro _
  exact EndsAt.expect_any.seq fun _ => .pure

theorem ends_declarations {word : TokenKind} {build : Tree → Tree → Tree}
    (h : .endOfInput ∉ [word]) :
    EndsAt S.pair n (· ∈ [word]) 1 (declarations word build) (declarations word build) :=
  .many_some ((EndsAt.takeOf h).lead fun _ => ends_typedName.seq fun _ => .pure)

theorem ends_parameter : Ends S.pair n 1 parameter := by
  apply ends_typeName.lead
  intro _
  exact EndsAt.expectText_any.seq fun _ => .pure

theorem ends_parameters : Ends S.pair n 0 parameters :=
  EndsAt.isAt .pure (EndsAt.sepBy (by decide) ends_parameter).loose

theorem ends_version : Ends S.pair n 1 version := by
  refine EndsAt.check (w := .expected "VERSION directive") ?_
  refine (EndsAt.takeOf (by decide)).lead fun _ => ?_
  refine EndsAt.check (w := .expected "NUMBER after VERSION") ?_
  apply EndsAt.takeText_any.seq
  intro _
  exact EndsAt.cond .takeText_any .pure fun _ => .pure

theorem ends_layout (sectionName : Tree) : Ends S.pair n 1 (layout sectionName) := by
  refine (EndsAt.expectAll (by decide)).lead fun _ => ?_
  apply EndsAt.current
  intro t _ _
  refine .ite (fun _ => .rejectThen) fun _ => ?_
  apply EndsAt.expectAll_any.seq
  intro _
  apply EndsAt.expectText_any.seq
  intro _
  apply EndsAt.expect_any.seq
  intro _
  apply EndsAt.kind
  intro k _ _
  -- Inputs and outputs are read alike.
  split
  · apply EndsAt.pure.seq
    intro _
    apply EndsAt.take_any.seq
    intro _
    exact ends_typedName.seq fun _ => .pure
  · apply EndsAt.pure.seq
    intro _
    apply EndsAt.take_any.seq
    intro _
    exact ends_typedName.seq fun _ => .pure
  · exact .rejectThen

/-! ## §3 Plain statements -/

theorem ends_assignmentEnd (wanted : Text) : Ends S.pair n 0 (assignmentEnd wanted) :=
  EndsAt.check (w := .expectedHere wanted) (EndsAt.take_any.seq fun _ => .pure)

theorem ends_dotted {s t : Tree} (hs : S.Worded s) (ht : S.Worded t) :
    Ends S.pair n 0 (dotted s t) := by
  unfold dotted
  split
  · exact .pure
  · next hnot =>
    obtain ⟨s, rfl⟩ | hfault := hs
    · obtain ⟨t, rfl⟩ | hfault := ht
      · exact absurd rfl (hnot s t rfl)
      · exact .throw hfault
    · exact .throw hfault

/-- What is made with a point is a text. -/
theorem worded_of_dotted {s t u : Tree} {c d : Cursor} (h : dotted s t c = .ok u d) :
    S.Worded u := by
  unfold dotted at h
  split at h
  · cases h
    exact .inl ⟨_, rfl⟩
  · cases h

theorem ends_declaration (hS : S.Lenient) (vtype : Tree) : Ends S.pair n 1 (declaration vtype) := by
  refine EndsAt.expectText_worded (j := 0) hS (by decide) fun first hfirst => ?_
  -- The invariant: the name is a text, so members can be joined to it.
  refine EndsAt.seq (.loop_of (I := S.Worded) (.inl (Nat.le_refl 1)) asks_isAt
    (fun name hname => ?_) ?_ hfirst) fun name => ?_
  · refine (EndsAt.takeOf (by decide)).lead fun _ => ?_
    refine EndsAt.loose ?_
    refine EndsAt.expectText_worded (j := 0) hS (by decide) fun member hmember => ?_
    exact ends_dotted hname hmember
  · intro name c name' d _ hrun
    obtain ⟨_, _, _, hrun⟩ := bind_eq_ok hrun
    obtain ⟨_, _, _, hrun⟩ := bind_eq_ok hrun
    exact worded_of_dotted hrun
  apply EndsAt.kind
  intro k _ _
  refine .ite (fun _ => EndsAt.take_any.seq fun _ => .pure) fun _ => ?_
  refine .ite (fun _ => ?_) fun _ => .ite (fun _ => ?_) fun _ => .reject
  · apply EndsAt.take_any.seq
    intro _
    apply ends_expression.loose.seq
    intro _
    exact (ends_assignmentEnd _).seq fun _ => .pure
  · apply EndsAt.takeText_any.seq
    intro _
    apply ends_expression.loose.seq
    intro _
    exact (ends_assignmentEnd _).seq fun _ => .pure

theorem ends_plainStatement (hS : S.Lenient) : Ends S.pair n 1 plainStatement := by
  refine EndsAt.cond .takeText_any .pure fun vtype => ?_
  exact ends_declaration hS vtype

theorem ends_assignment : Ends S.pair n 1 assignment := by
  refine (EndsAt.expectText (by decide)).lead fun _ => ?_
  apply EndsAt.expect_any.seq
  intro _
  apply ends_expression.loose.seq
  intro _
  exact EndsAt.expect_any.seq fun _ => .pure

theorem ends_stepBefore (op wanted : Text) : Ends S.pair n 0 (stepBefore op wanted) := by
  apply EndsAt.take_any.seq
  intro _
  exact EndsAt.check (w := .expected wanted) (EndsAt.takeText_any.seq fun _ => .pure)

/-- The update of a loop may read nothing, so it has to be followed by a token. -/
theorem ends_update : Ends S.pair n 0 update := by
  apply EndsAt.kind
  intro k _ _
  split
  · apply EndsAt.takeText_any.seq
    intro name
    apply EndsAt.kind
    intro k _ _
    refine .ite (fun _ => EndsAt.take_any.seq fun _ => .pure) fun _ => .ite (fun _ => ?_)
      fun _ => ?_
    · apply EndsAt.take_any.seq
      intro _
      exact ends_expression.loose.seq fun _ => .pure
    split
    · apply EndsAt.take_any.seq
      intro _
      exact ends_expression.loose.seq fun _ => .pure
    · exact .pure
  · exact (ends_stepBefore _ _).here
  · exact (ends_stepBefore _ _).here
  · exact .reject

theorem ends_returnStatement : Ends S.pair n 1 returnStatement := by
  refine (EndsAt.expect (by decide)).lead fun _ => ?_
  apply ends_expression.loose.seq
  intro _
  exact EndsAt.expect_any.seq fun _ => .pure

/-! ## §4 Compound statements -/

section Statements

variable {body : Parser (List Tree)}

theorem ends_braced (h : Ends S.pair n 0 body) : Ends S.pair n 0 (braced body) := by
  apply EndsAt.expect_any.seq
  intro _
  apply h.seq
  intro _
  exact EndsAt.expect_any.seq fun _ => .pure

theorem ends_alternativesWith (h : Ends S.pair n 0 body) :
    Ends S.pair n 0 (alternativesWith body) := by
  refine (EndsAt.manyAt ?_).seq fun _ => EndsAt.isAt ?_ .pure
  · refine (EndsAt.takeOf (by decide)).lead fun _ => ?_
    apply (EndsAt.parenthesized ends_expression.loose).loose.seq
    intro _
    exact (ends_braced (h.within (by omega))).seq fun _ => .pure
  · apply EndsAt.take_any.seq
    intro _
    exact (ends_braced h).seq fun _ => .pure

theorem ends_branchWith (h : Ends S.pair (n - 1) 0 body) : Ends S.pair n 1 (branchWith body) := by
  refine (EndsAt.expect (by decide)).lead fun _ => ?_
  apply (EndsAt.parenthesized ends_expression.loose).loose.seq
  intro _
  apply (ends_braced h).seq
  intro _
  exact (ends_alternativesWith h).seq fun _ => .pure

theorem ends_forWith (hS : S.Lenient) (h : Ends S.pair (n - 1) 0 body) :
    Ends S.pair n 1 (forWith body) := by
  refine (EndsAt.expectAll (by decide)).lead fun _ => ?_
  apply (ends_plainStatement hS).loose.seq
  intro _
  apply ends_expression.loose.seq
  intro _
  apply EndsAt.expect_any.seq
  intro _
  apply ends_update.seq
  intro _
  apply EndsAt.expect_any.seq
  intro _
  exact (ends_braced h).seq fun _ => .pure

theorem ends_statementWith (hS : S.Lenient) (h : Ends S.pair (n - 1) 0 body) :
    Ends S.pair n 1 (statementWith body) := by
  apply EndsAt.kind
  intro k _ _
  refine .ite (fun _ => (ends_branchWith h).here) fun _ => ?_
  refine .ite (fun _ => (ends_forWith hS h).here) fun _ => ?_
  refine .ite (fun _ => ends_returnStatement.here) fun _ => ?_
  exact .ite (fun _ => (ends_plainStatement hS).here) fun _ => .reject

end Statements

theorem ends_body (hS : S.Lenient) : Ends S.pair n 0 body := by
  refine .nested_solo fun m ih => ?_
  exact .manyNotAt (ends_statementWith (n := m + 1) hS ih).here

theorem ends_function (hS : S.Lenient) : Ends S.pair n 1 function := by
  apply ends_typeName.lead
  intro _
  refine EndsAt.check (w := .expected "MAIN or IDENTIFIER") ?_
  apply EndsAt.takeText_any.seq
  intro _
  apply EndsAt.expect_any.seq
  intro _
  apply ends_parameters.seq
  intro _
  apply EndsAt.expect_any.seq
  intro _
  exact (ends_braced (ends_body hS)).seq fun _ => .pure

/-! ## §5 Shaders -/

theorem stageComment_run {s : ShaderItems} {c : Cursor} (h : c.kind = .lineComment) :
    stageComment s c = match c.current.text with
      | none => .error .missingField c
      | some comment => .ok { s with stage := some (stageOfComment comment) } (c.advance tv) := by
  rw [stageComment, isAt_bind, decide_eq_true (by simp [h])]
  show (match c.current.text with
    | none => throw .missingField
    | some comment => do
      let _ ← take tv
      return { s with stage := some (stageOfComment comment) } : Parser ShaderItems) c = _
  cases c.current.text <;> rfl

theorem stageComment_run_of_ne {s : ShaderItems} {c : Cursor} (h : c.kind ≠ .lineComment) :
    stageComment s c = .ok s c := by
  rw [stageComment, isAt_bind, decide_eq_false (by simpa using h)]
  rfl

/-- A line comment has a text. -/
theorem ends_stageComment (hS : S.Lenient) (s : ShaderItems) :
    Ends S.pair n 0 (stageComment s) := by
  rintro c _ ⟨rfl, hc⟩ hlt _
  by_cases hk : c.kind = .lineComment
  · rw [stageComment_run hk]
    cases htext : c.current.text with
    | some comment =>
      have hon := onward_advance tv c
      exact .ok ⟨rfl, hc.behind hon.suffix⟩ hon hon hon.suffix.length_le
    | none =>
      refine .fault (hS _ hc.ahead (fun hgenuine => ?_) _ nofun)
      have htexted : Texted c := hgenuine.texted
      obtain ⟨t, ht⟩ := htexted.exists_text (by simp [hk])
      rw [htext] at ht
      cases ht
  · rw [stageComment_run_of_ne hk]
    exact .stay ⟨rfl, hc⟩

/-- An item of a shader behind its comment. -/
def stageItem (s : ShaderItems) : Parser ShaderItems := do
  let k ← kind
  if k = .layoutWord then
    let stageName := Tree.ofText? (s.stage.map (·.capitals))
    return s.add { layouts := [← layout stageName] }
  else if k = .inWord then return s.add { inputs := ← inputs }
  else if k = .outWord then return s.add { outputs := ← outputs }
  else if k = .uniformWord then return { s with uniforms := s.uniforms ++ (← uniforms) }
  else if k = .versionWord then
    let _ ← version
    return s
  else if k ∈ functionStarts then
    if s.stage.isNone then reject .functionOutsideSection
    return s.add { functions := [← function] }
  else if k = .leftBrace then
    if s.stage.isNone then reject .braceOutsideSection
    let _ ← take tv
    throw .wrongSort
  else reject (.unexpected k)

/-- An item is no end.  It fails for good only at a brace in a stage. -/
theorem ends_stageItem (hS : S.Lenient) (s : ShaderItems) :
    EndsAt S.pair n (fun k => k = .leftBrace → s.stage.isSome → S.faults .wrongSort) 1 (stageItem s)
      (stageItem s) := by
  apply EndsAt.kind
  intro k hbrace _
  -- A declaration begins with the word that was seen.
  have hwords : ∀ {word : TokenKind} {build : Tree → Tree → Tree}, k = word → .endOfInput ∉ [word] →
      EndsAt S.pair n (· = k) 1 (declarations word build) (declarations word build) :=
    fun hk hend => (ends_declarations hend).known (by simp [hk])
  refine .ite (fun _ => (ends_layout _).here.lead fun _ => .pure) fun _ => ?_
  refine .ite (fun hk => EndsAt.lead (p := inputs) (hwords hk (by decide)) fun _ => .pure)
    fun _ => ?_
  refine .ite (fun hk => EndsAt.lead (p := outputs) (hwords hk (by decide)) fun _ => .pure)
    fun _ => ?_
  refine .ite (fun hk => EndsAt.lead (p := uniforms) (hwords hk (by decide)) fun _ => .pure)
    fun _ => ?_
  refine .ite (fun _ => ends_version.here.lead fun _ => .pure) fun _ => ?_
  refine .ite (fun _ => ?_) fun _ => .ite (fun hk => ?_) fun _ => .reject
  · refine .ite (fun _ => .rejectThen) fun _ => ?_
    exact (ends_function hS).here.lead fun _ => .pure
  · refine .ite (fun _ => .rejectThen) fun hstage => ?_
    apply EndsAt.take_any.seq
    intro _
    refine .throw ?_
    exact hbrace hk (Option.isSome_iff_ne_none.2 fun hnone => hstage (by simp [hnone]))

theorem ends_shaderItem (hS : S.Lenient) (hbrace : S.faults .wrongSort) (s : ShaderItems) :
    Ends S.pair n 1 (shaderItem s) := by
  apply (ends_stageComment hS s).seq
  intro s
  exact (ends_stageItem hS s).mono (Nat.le_refl n) (fun _ _ _ _ => hbrace) (Nat.le_refl 1)

theorem ends_shader (hS : S.Lenient) (hbrace : S.faults .wrongSort) (version : Tree) :
    Ends S.pair n 0 (shader version) :=
  (EndsAt.loop asks_isNotAt (fun s => (ends_shaderItem hS hbrace s).here) {}).seq fun _ => .pure

/-- Reading a source comes to an end. -/
theorem ends_source (hS : S.Lenient) (hbrace : S.faults .wrongSort) : Ends S.pair n 0 source := by
  apply EndsAt.skipTrivia.seq
  intro _
  apply ends_version.loose.seq
  intro version
  exact ends_shader hS hbrace version

/-- A section in braces is read and rejected. -/
theorem ends_bracedSection (hS : S.Lenient) (sectionName : Tree) :
    Ends S.pair n 0 (bracedSection sectionName) := by
  refine EndsAt.expect_any.seq fun _ => EndsAt.seq (.loop asks_isNotAt (fun _ => ?_) _)
    fun _ => .reject
  apply EndsAt.kind
  intro k _ _
  refine .ite (fun _ => (ends_layout _).here.lead fun _ => .pure) fun _ => ?_
  have hwords : ∀ {word : TokenKind} {build : Tree → Tree → Tree}, k = word → .endOfInput ∉ [word] →
      EndsAt S.pair n (· = k) 1 (declarations word build) (declarations word build) :=
    fun hk hend => (ends_declarations hend).known (by simp [hk])
  refine .ite (fun hk => EndsAt.lead (p := inputs) (hwords hk (by decide)) fun _ => .pure)
    fun _ => ?_
  refine .ite (fun hk => EndsAt.lead (p := outputs) (hwords hk (by decide)) fun _ => .pure)
    fun _ => ?_
  refine .ite (fun hk => EndsAt.lead (p := uniforms) (hwords hk (by decide)) fun _ => .pure)
    fun _ => ?_
  exact .ite (fun _ => (ends_function hS).here.lead fun _ => .pure) fun _ => .reject

end ShaderBridge.Glsl
