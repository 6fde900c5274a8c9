import Mathlib.Logic.Function.Iterate
import ShaderBridge.Grammar.Metal
import ShaderBridge.Proofs.Form

/-!
# Reading Metal comes to an end, but for directives

Every part of the Metal grammar that a loop repeats or that may hold itself reads a token first,
with one exception: behind a directive with an opening angle bracket everything is passed over up to
the closing one, and past the last token nothing is passed over any more.  So an item of a source
comes to an end wherever no such wait begins (`settles_shaderItem`), and there it does not
(`directive_of_open`).
-/

namespace ShaderBridge.Metal

open ShaderBridge.Parser Ladder Attribute

variable {n : Nat} {S : Pairing tv}

/-! ## §1 Expressions -/

section Expressions

variable {expr expr' : Parser Tree}

theorem ends_nameOrCallWith (h : Agrees S (n - 1) 1 expr expr') :
    Agrees S n 1 (nameOrCallWith expr) (nameOrCallWith expr') :=
  Form.ends_name h

theorem ends_primaryWith (h : Agrees S (n - 1) 1 expr expr') :
    Agrees S n 1 (primaryWith expr) (primaryWith expr') :=
  Form.ends_operand (by decide) h

theorem ends_expressionWith (h : Agrees S (n - 1) 1 expr expr') :
    Agrees S n 1 (expressionWith expr) (expressionWith expr') :=
  Form.ends_expression (.signed (ends_primaryWith h)) h

theorem ends_expression : Ends S n 1 expression := by
  refine .nested fun _ _ _ _ ih => ?_
  exact ends_expressionWith ih

end Expressions

/-! ## §2 Plain statements -/

theorem ends_expressionStatement : Ends S n 1 expressionStatement :=
  Form.ends_ended fun _ => ends_expression

theorem ends_declarationOrAssignment : Ends S n 1 declarationOrAssignment :=
  Form.ends_declaration fun _ => ends_expression

theorem ends_returnStatement : Ends S n 1 returnStatement :=
  Form.ends_returned fun _ => ends_expression

/-! ## §3 Compound statements -/

section Statements

variable {block block' : Parser (List Tree)}

theorem ends_guarded {word : TokenKind} (hword : word ≠ .endOfInput)
    (h : Agrees S (n - 1) 0 block block') :
    Agrees S n 1 (guarded word block) (guarded word block') := by
  apply (EndsAt.expect hword).lead
  intro _
  apply (EndsAt.parenthesized ends_expression.loose).loose.seq
  intro _
  exact h.seq fun _ => .pure

theorem ends_branchWith (h : Agrees S (n - 1) 0 block block') :
    EndsAt S n (· ∈ [.ifWord]) 1 (branchWith block) (branchWith block') := by
  refine (EndsAt.many_some (ends_guarded (by decide) h).here).lead fun _ => ?_
  refine (EndsAt.manyAt (ends_guarded (by decide) (h.within (by omega))).here).seq fun _ => ?_
  refine EndsAt.isAt ?_ (EndsAt.pure.seq fun _ => .pure)
  apply EndsAt.take_any.seq
  intro _
  apply h.seq
  intro _
  exact EndsAt.pure.seq fun _ => .pure

theorem ends_forWith (h : Agrees S (n - 1) 0 block block') :
    Agrees S n 1 (forWith block) (forWith block') :=
  Form.ends_counted (fun _ => ends_expression) h

theorem ends_statementWith (h : Agrees S (n - 1) 0 block block') :
    Agrees S n 1 (statementWith block) (statementWith block') := by
  apply EndsAt.kind
  intro k _ _
  refine .ite (fun _ => ends_declarationOrAssignment.here) fun _ => ?_
  refine .ite (fun hk => (ends_branchWith h).known (by simp [hk])) fun _ => ?_
  refine .ite (fun _ => (ends_forWith h).here) fun _ => ?_
  exact .ite (fun _ => ends_returnStatement.here) fun _ => ends_expressionStatement.here

end Statements

theorem ends_block : Ends S n 0 block := by
  refine .nested fun m _ _ _ ih => ?_
  exact Form.ends_block (ends_statementWith (n := m + 1) ih)

/-! ## §4 Declarations -/

theorem ends_structMember (hS : S.faults .wrongSort) : Ends S n 1 structMember := by
  apply EndsAt.takeText_any.seq
  intro _
  refine (EndsAt.expectText (by decide)).lead fun _ => ?_
  refine (EndsAt.attributes fun _ => hS).seq fun _ => ?_
  exact EndsAt.expect_any.seq fun _ => .pure

theorem ends_struct (hS : S.faults .wrongSort) : Ends S n 1 struct := by
  refine (EndsAt.expect (by decide)).lead fun _ => ?_
  apply EndsAt.expectText_any.seq
  intro _
  apply EndsAt.expect_any.seq
  intro _
  apply (EndsAt.manyNotAt (ends_structMember hS).here).seq
  intro _
  exact EndsAt.expectAll_any.seq fun _ => .pure

theorem ends_constantBuffer : Ends S n 1 constantBuffer := Form.ends_constantBuffer

theorem ends_withInner (hS : S.faults .wrongSort) (outer inner : Tree) :
    Ends S n 0 (withInner outer inner) := by
  unfold withInner
  split
  · exact .pure
  · exact .throw hS

theorem ends_parameterType (hS : S.faults .wrongSort) :
    EndsAt S n (· ∈ parameterTypes) 1 parameterType parameterType := by
  have hclose (whole : Tree) : Ends S (n - 1) 0 (do
      let _ ← expect tv .greaterThan
      return whole) := EndsAt.expect_any.seq fun _ => .pure
  refine (EndsAt.takeTextOf (by decide)).lead fun outer => ?_
  refine EndsAt.isAt ?_ .pure
  apply EndsAt.take_any.seq
  intro _
  refine EndsAt.isAt ?_ (EndsAt.pure.seq hclose)
  apply EndsAt.text.seq
  intro _
  apply (ends_withInner hS outer _).seq
  intro whole
  apply EndsAt.take_any.seq
  intro _
  exact EndsAt.pure.seq hclose

theorem ends_parameter (hS : S.faults .wrongSort) : Ends S n 1 parameter := by
  refine (EndsAt.attributes fun _ => hS).seq fun _ => ?_
  refine EndsAt.check (w := .unexpectedIn "in parameter list") ?_
  apply (ends_parameterType hS).lead
  intro _
  refine EndsAt.cond .takeText_any .pure fun _ => ?_
  exact (EndsAt.attributes fun _ => hS).seq fun _ => .pure

theorem ends_parameters (hS : S.faults .wrongSort) : Ends S n 0 parameters := by
  refine EndsAt.manyNotAt ((ends_parameter hS).here.lead fun _ => EndsAt.kind fun k _ _ => ?_)
  split
  · exact EndsAt.take_any.seq fun _ => .pure
  · exact .pure
  · exact .reject

/-- Every function has a name. -/
theorem ends_function (hS : S.faults .wrongSort) : Ends S n 1 function := by
  refine (EndsAt.attributes fun _ => hS).seq fun _ => ?_
  refine EndsAt.cond EndsAt.takeText_any.map .pure fun _ => ?_
  apply EndsAt.takeText_any.seq
  intro _
  refine EndsAt.cond EndsAt.takeText_any.map .pure fun _ => ?_
  refine (EndsAt.expectText (by decide)).lead fun _ => ?_
  apply EndsAt.expect_any.seq
  intro _
  apply (ends_parameters hS).seq
  intro _
  apply EndsAt.expect_any.seq
  intro _
  refine (EndsAt.attributes fun _ => hS).seq fun _ => ?_
  exact ends_block.seq fun _ => .pure

/-! ## §5 Directives -/

/-- However many tokens are passed over, no closing bracket is met. -/
def Waits (c : Cursor) : Prop := ∀ k, ((Cursor.advance tv)^[k] c).kind ≠ .greaterThan

/-- A directive whose angle bracket is never closed. -/
structure OpenDirective (c : Cursor) : Prop where
  directive : c.kind = .directive
  bracket : (c.advance tv).kind = .lessThan
  waits : Waits c

/-- Passing over tokens up to a closing bracket. -/
def passage : Parser Unit := loop (isNotAt [.greaterThan]) (fun _ => do let _ ← take tv) ()

theorem Waits.advance {c : Cursor} (h : Waits c) : Waits (c.advance tv) := by
  intro k
  exact h (k + 1)

/-- A wait that begins behind a token other than a bracket begins in front of it. -/
theorem Waits.of_advance {c : Cursor} (hc : c.kind ≠ .greaterThan) (h : Waits (c.advance tv)) :
    Waits c := by
  intro k
  cases k with
  | zero => exact hc
  | succ k => exact h k

/-- With no bracket to stop at, the passage has no end, whatever bound is set to its rounds. -/
theorem loopAt_of_waits {c : Cursor} (h : Waits c) (m : Nat) :
    ∃ d, loopAt (isNotAt [.greaterThan]) (fun _ => do let _ ← take tv) m () c
      = .error .endless d := by
  induction m generalizing c with
  | zero => exact ⟨c, rfl⟩
  | succ m ih =>
    have hgo : c.kind ∉ [TokenKind.greaterThan] := by
      have hkind := h 0
      simpa using hkind
    rw [loopAt_succ, isNotAt_bind, decide_eq_true hgo]
    show ∃ d, (if (c.advance tv).rest.length < c.rest.length then _ else _) = _
    split
    · exact ih h.advance
    · exact ⟨_, rfl⟩

/-- Past the last token there is no bracket. -/
theorem waits_of_nil {c : Cursor} (h : c.rest = []) : Waits c := by
  intro k
  induction k generalizing c with
  | zero =>
    obtain ⟨pos, ts⟩ := c
    cases h
    exact nofun
  | succ k ih =>
    apply ih
    exact List.suffix_nil.1 (h ▸ advance_suffix tv c)

/-- With a bracket to stop at, the passage ends there. -/
theorem loopAt_of_not_waits {c : Cursor} (h : ¬Waits c) {m : Nat} (hm : c.rest.length < m) :
    let run := loopAt (isNotAt [.greaterThan]) (fun _ => do let _ ← take tv) m () c
    Matches (Setting.finite tv).pair 0 c c run run := by
  induction m generalizing c with
  | zero => omega
  | succ m ih =>
    rw [loopAt_succ, isNotAt_bind]
    by_cases hc : c.kind = .greaterThan
    · rw [decide_eq_false (by simp [hc])]
      exact .stay (Setting.paired_finite c)
    · rw [decide_eq_true (by simpa using hc)]
      -- The bracket is further on, so there is a token to pass over.
      have hlt : (c.advance tv).rest.length < c.rest.length := by
        obtain ⟨pos, ts⟩ := c
        cases ts with
        | nil => exact absurd (waits_of_nil rfl) h
        | cons t ts => exact Nat.lt_succ_of_le (pastTrivia_suffix tv (pos + 1) ts).length_le
      have hnext : ¬Waits (c.advance tv) := mt (Waits.of_advance hc) h
      have hon := onward_advance tv c
      show Matches _ 0 c c (if _ then _ else _) (if _ then _ else _)
      rw [if_pos hlt]
      exact (ih hnext (by omega)).behind (j := 0) hon hon (Nat.le_of_lt hlt)

/-- A directive whose bracket is never closed is read for ever. -/
theorem directive_of_open {c : Cursor} (h : OpenDirective c) :
    ∃ d, directive c = .error .endless d := by
  obtain ⟨d, hd⟩ := loopAt_of_waits h.waits.advance.advance
    (((c.advance tv).advance tv).rest.length + 1)
  refine ⟨d, (bind_of_ok (expect_run h.directive)).trans ?_⟩
  rw [kind_bind, h.bracket]
  exact (take_bind _ _ _).trans (bind_of_error hd)

/-- Where going on for ever is allowed, every directive is. -/
theorem ends_directive (hS : S.faults .endless) : Ends S n 1 directive := by
  refine (EndsAt.expect (by decide)).lead fun _ => ?_
  apply EndsAt.kind
  intro k _ _
  split
  · refine EndsAt.take_any.seq fun _ => EndsAt.seq ?_ fun _ => EndsAt.expect_any.seq fun _ => .pure
    exact .loop_waiting hS asks_isNotAt (fun _ => EndsAt.take_any.seq fun _ => .pure) ()
  · exact EndsAt.take_any.seq fun _ => .pure
  · exact .pure

/-- Any other directive is read to its end. -/
theorem matches_directive {c : Cursor} (hc : c.kind = .directive) (h : ¬OpenDirective c) :
    Matches (Setting.finite tv).pair 1 c c (directive c) (directive c) := by
  have hrun : directive c = _ := bind_of_ok (expect_run hc)
  rw [hrun]
  refine Matches.next (j := 0) ?_ (Setting.paired_finite c) (by simp [hc])
  rw [kind_bind]
  generalize hbracket : (c.advance tv).kind = k
  split
  -- Behind an opening bracket the passage ends, as the directive is not left open.
  · have hnot : ¬Waits ((c.advance tv).advance tv) := by
      intro hwaits
      have hnext : Waits (c.advance tv) := Waits.of_advance (by simp [hbracket]) hwaits
      exact h ⟨hc, hbracket, Waits.of_advance (by simp [hc]) hnext⟩
    have hon := onward_advance tv (c.advance tv)
    rw [take_bind]
    refine Matches.behind (g := 0) (j := 0) ?_ hon hon hon.suffix.length_le
    refine Matches.bind (p := passage) (q := passage) (g := 0) (j := 0)
      (loopAt_of_not_waits hnot (Nat.lt_succ_self _)) fun _ d _ _ hd _ _ _ => ?_
    obtain ⟨rfl, -⟩ := hd
    exact EndsAt.anywhere (P := fun _ => True)
      (fun _ => EndsAt.expect_any.seq fun _ => .pure) d trivial
  · exact EndsAt.anywhere (P := fun _ => True)
      (fun _ => EndsAt.take_any.seq fun _ => .pure) _ trivial
  · exact .stay (Setting.paired_finite _)

/-! ## §6 Items -/

theorem ends_shaderItem {P : TokenKind → Prop} (hS : S.faults .wrongSort) (hP : ¬P .endOfInput)
    (hdirective : P .directive → Ends S n 1 directive) (found : List Tree) :
    EndsAt S n P 1 (shaderItem found) (shaderItem found) := by
  refine EndsAt.kind fun k hk _ => .ite (fun hword => ?_) fun _ => .ite (fun _ => ?_) fun _ => ?_
  · exact (hdirective (hword ▸ hk)).here.lead fun _ => .pure
  · exact (EndsAt.expectAll (by decide)).lead fun _ => .pure
  refine .ite (fun _ => (ends_struct hS).here.lead fun _ => .pure) fun _ => ?_
  refine .ite (fun _ => ends_constantBuffer.here.lead fun _ => .pure) fun _ => ?_
  refine .ite (fun _ => (ends_function hS).here.lead fun _ => .pure) fun _ => ?_
  have hend : ¬.endOfInput = k := fun h => hP (h ▸ hk)
  exact (EndsAt.take hend).lead fun _ => .pure

/-- Where going on for ever is allowed, every source is. -/
theorem ends_shader (hS : S.faults .wrongSort) (hendless : S.faults .endless) : Ends S n 0 shader :=
  (EndsAt.loop asks_isNotAt (ends_shaderItem hS (by simp) fun _ => ends_directive hendless)
    []).seq fun _ => .pure

theorem ends_source (hS : S.faults .wrongSort) (hendless : S.faults .endless) :
    Ends S n 0 source := by
  apply (ends_shader hS hendless).seq
  intro _
  exact EndsAt.expect_any.seq fun _ => .pure

/-- Any token but the end is an item, or is passed over, and it is read to its end unless it is a
directive that waits for ever. -/
theorem settles_shaderItem {c : Cursor} (hc : c.kind ≠ .endOfInput) (h : ¬OpenDirective c)
    (found : List Tree) : (Setting.finite tv).Settles 1 c (shaderItem found c) := by
  apply Matches.settles
  by_cases hword : c.kind = .directive
  · show Matches _ 1 c c ((kind >>= _) c) ((kind >>= _) c)
    rw [kind_bind, if_pos hword]
    exact (matches_directive hword h).bind fun _ _ _ _ hd _ _ _ => .stay hd
  · have hsort : (Setting.finite tv).faults .wrongSort := fun h => by cases h
    have hitem (n : Nat) : EndsAt (Setting.finite tv).pair n
        (fun k => k ≠ .endOfInput ∧ k ≠ .directive) 1 (shaderItem found) (shaderItem found) :=
      ends_shaderItem hsort (fun h => h.1 rfl) (fun h => absurd rfl h.2) found
    exact EndsAt.anywhere hitem c ⟨hc, hword⟩

/-- A directive that waits for ever is an item that is never read to its end. -/
theorem shaderItem_of_open {c : Cursor} (h : OpenDirective c) (found : List Tree) :
    ∃ d, shaderItem found c = .error .endless d := by
  obtain ⟨d, hd⟩ := directive_of_open h
  refine ⟨d, ?_⟩
  show (kind >>= _) c = _
  rw [kind_bind, if_pos h.directive]
  exact bind_of_error hd

end ShaderBridge.Metal
