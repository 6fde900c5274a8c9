import ShaderBridge.Proofs.Comments
import ShaderBridge.Proofs.CrossGl.Spending
import ShaderBridge.Proofs.Ending

/-!
# Reading CrossGL comes to an end

Every part of the CrossGL grammar that a loop repeats or that may hold itself reads a token first
(`ends_shader`).

A source that is not rejected may still fail in three places: at a name with a step on either side,
in the header of a loop that the source ends in, and at a type that it ends in (`Allows`).
-/

namespace ShaderBridge.CrossGl

open ShaderBridge.Parser Ladder

/-! ## §1 Where reading may fail -/

/-- The tokens that count. -/
def steps : List TokenKind := [.increment, .decrement]

/-- The tokens begin with a name that has a step on either side, comments aside. -/
def StepsTwice (ts : List Token) : Prop :=
  ∃ a b c rest, uncommented ts = a :: b :: c :: rest ∧ a.kind ∈ steps ∧ b.kind = .identifier ∧
    c.kind ∈ steps

/-- The braces. -/
def braces : Marks := ⟨[.leftBrace, .rightBrace], by decide⟩

/-- The tokens begin with a loop and end in its header: in front of the last one and the end there
is no brace. -/
def EndsInHeader (ts : List Token) : Prop :=
  firstKind ts = .forWord ∧ ∀ t ∈ ts.dropLast.dropLast, t.kind ∉ braces.kinds

/-- The tokens are a type and the end. -/
def EndsInType (ts : List Token) : Prop := ∃ t e, ts = [t, e] ∧ t.kind ∈ returnTypes

/-- The setting allows the faults of the grammar: those of tokens that no source has, and those of
the three places. -/
structure Allows (S : Setting tv) : Prop where
  lenient : S.Lenient
  twice : ∀ ts, S.ahead ts → StepsTwice ts → S.faults .wrongSort
  header : ∀ ts, S.ahead ts → EndsInHeader ts → S.faults .outOfRange
  type : ∀ ts, S.ahead ts → EndsInType ts → S.faults .outOfRange

theorem allows_finite : Allows (.finite tv) where
  lenient := Setting.lenient_finite
  twice _ _ _ := nofun
  header _ _ _ := nofun
  type _ _ _ := nofun

variable {n : Nat} {S : Setting tv}

/-! ## §2 Expressions -/

section Expressions

variable {S : Pairing tv} {expr expr' : Parser Tree}

theorem ends_nameOrCallWith (h : Agrees S (n - 1) 1 expr expr') :
    Agrees S n 1 (nameOrCallWith expr) (nameOrCallWith expr') := by
  refine .condText (by decide) (by decide) fun name => ?_
  apply EndsAt.kind
  intro k _ _
  split
  · exact (EndsAt.strictArguments (h.within (by omega))).loose.here.seq fun _ => .pure
  · exact (EndsAt.memberChain name).loose.here
  · exact .pure

theorem ends_primaryWith (h : Agrees S (n - 1) 1 expr expr') :
    Agrees S n 1 (primaryWith expr) (primaryWith expr') := by
  apply EndsAt.kind
  intro k _ _
  refine .ite (fun _ => (EndsAt.parenthesized h.loose).here) fun _ => ?_
  refine .ite (fun hk => .takeTextIn hk (by decide)) fun _ => ?_
  exact .ite (fun _ => (ends_nameOrCallWith h).here) fun _ => .reject

theorem ends_unaryWith (h : Agrees S (n - 1) 1 expr expr') :
    Agrees S n 1 (unaryWith expr) (unaryWith expr') :=
  .signed (ends_primaryWith h)

theorem ends_choiceWith (h : Agrees S (n - 1) 1 expr expr') :
    Agrees S n 1 (choiceWith expr) (choiceWith expr') := by
  apply (EndsAt.sum (ends_unaryWith h)).lead
  intro condition
  exact .choice (h.within (by omega)).loose condition

theorem ends_expressionWith (h : Agrees S (n - 1) 1 expr expr') :
    Agrees S n 1 (expressionWith expr) (expressionWith expr') :=
  .rung (by decide) (ends_choiceWith h)

theorem ends_expression : Ends S n 1 expression := by
  refine .nested fun _ _ _ _ ih => ?_
  exact ends_expressionWith ih

end Expressions

/-! ## §3 Types and declarations -/

theorem ends_callOf (name : Tree) : Ends S.pair n 1 (callOf name) :=
  (EndsAt.strictArguments ends_expression).lead fun _ => .pure

theorem ends_typeName : Ends S.pair n 1 typeName := by
  refine EndsAt.kind fun k _ _ => .ite (fun hk => ?_) fun _ => .ite (fun hk => ?_) fun _ => .reject
  · exact (EndsAt.take fun hend => by cases hend.trans hk).lead fun _ => .pure
  · refine .takeText fun hend => ?_
    subst hend
    exact absurd hk (by decide)

theorem ends_interfaceItem (wanted : Text) {k : TokenKind} (hk : .endOfInput ∉ [k]) :
    EndsAt S.pair n (· ∈ [k]) 1 (interfaceItem wanted) (interfaceItem wanted) := by
  apply (EndsAt.takeOf hk).lead
  intro _
  refine EndsAt.check (w := .expected wanted) ?_
  apply EndsAt.takeText_any.seq
  intro _
  apply EndsAt.expectText_any.seq
  intro _
  exact EndsAt.expect_any.seq fun _ => .pure

/-- Where an input, an output or a uniform is declared, at least one declaration is read. -/
theorem ends_inputs : EndsAt S.pair n (· ∈ [.inputWord]) 1 inputs inputs :=
  .many_some ((ends_interfaceItem _ (by decide)).lead fun _ => .pure)

theorem ends_outputs : EndsAt S.pair n (· ∈ [.outputWord]) 1 outputs outputs :=
  .many_some ((ends_interfaceItem _ (by decide)).lead fun _ => .pure)

theorem ends_uniforms : EndsAt S.pair n (· ∈ [.uniformWord]) 1 uniforms uniforms :=
  .many_some ((ends_interfaceItem _ (by decide)).lead fun _ => .pure)

/-- The declarations behind a word, perhaps none. -/
theorem ends_interface {α : Type} {k : TokenKind} {wanted : Text} {f : Tree × Tree → α}
    (hk : .endOfInput ∉ [k]) :
    Ends S.pair n 0 (many (isAt [k]) (do return f (← interfaceItem wanted))) :=
  .manyAt ((ends_interfaceItem _ hk).lead fun _ => .pure)

theorem ends_parameter : Ends S.pair n 1 parameter := by
  apply ends_typeName.lead
  intro _
  exact EndsAt.expectText_any.seq fun _ => .pure

theorem ends_parameters : Ends S.pair n 0 parameters :=
  EndsAt.isAt .pure (EndsAt.sepBy (by decide) ends_parameter).loose

/-! ## §4 Plain statements -/

/-- Where a value that is no text is allowed for, joining ends. -/
theorem ends_joined_any (h : S.faults .wrongSort) (s t : Tree) : Ends S.pair n 0 (joined s t) := by
  unfold joined
  split
  · exact .pure
  · exact .throw h

theorem ends_joined {s t : Tree} (hs : S.Worded s) (ht : S.Worded t) :
    Ends S.pair n 0 (joined s t) := by
  obtain ⟨s, rfl⟩ | hfault := hs
  · obtain ⟨t, rfl⟩ | hfault := ht
    · exact .pure
    · exact ends_joined_any hfault _ t
  · exact ends_joined_any hfault s t

theorem ends_members {α : Type} {f : Tree → Parser α} (object : Tree)
    (hf : ∀ t, Ends S.pair n 0 (f t)) :
    Ends S.pair n 0 (do
      let t ← if ← isAt [.dot] then memberChain tv object else pure object
      f t) :=
  .cond (EndsAt.memberChain object).loose.here .pure hf

theorem ends_assignmentTo (target : Tree) : Ends S.pair n 0 (assignmentTo target) :=
  EndsAt.check (w := .expectedHere "assignment operator") (EndsAt.takeText_any.seq fun _ =>
    ends_expression.loose.seq fun _ => EndsAt.accept.seq fun _ => .pure)

theorem ends_declaration (vtype : Tree) (inUpdate : Bool) :
    Ends S.pair n 1 (declaration vtype inUpdate) := by
  refine (EndsAt.expectText (by decide)).lead fun first => ?_
  refine ends_members first fun name => ?_
  apply EndsAt.kind
  intro k _ _
  refine .ite (fun _ => EndsAt.take_any.seq fun _ => .pure) fun _ => ?_
  refine .ite (fun _ => EndsAt.takeText_any.seq fun op => ?_) fun _ => .reject
  apply ends_expression.loose.seq
  intro e
  refine ends_members e fun value => ?_
  refine EndsAt.isAt (EndsAt.take_any.seq fun _ => .pure) ?_
  cases inUpdate with
  | true => exact .pure
  | false => exact EndsAt.kind fun _ _ _ => .rejectThen

theorem ends_afterTarget (vtype target : Tree) :
    EndsAt S.pair n (fun k => k ∈ steps → S.faults .wrongSort) 0 (afterTarget vtype target)
      (afterTarget vtype target) := by
  apply EndsAt.kind
  intro k hk _
  refine .ite (fun _ => (ends_assignmentTo target).here) fun _ => ?_
  refine .ite (fun hstep => ?_) fun _ => .ite (fun _ => (ends_callOf target).loose.here)
    fun _ => .reject
  apply EndsAt.take_any.seq
  intro _
  apply EndsAt.text.seq
  intro after
  exact (ends_joined_any (hk hstep) target after).seq fun _ => .pure

/-- What a statement goes on with at a step, up to the name behind it. -/
theorem ends_step (hS : Allows S) {f : Tree → Parser Tree} (hf : ∀ t,
      EndsAt S.pair (n - 1) (fun k => k ∈ steps → S.faults .wrongSort) 0 (f t) (f t)) :
    let p : Parser Tree := do
      let op ← takeText tv
      let name ← expectText tv .identifier
      f (← joined op name)
    EndsAt S.pair n (· ∈ steps) 1 p p := by
  intro p
  by_cases hfault : S.faults .wrongSort
  · -- Where the fault is allowed for, it does not matter what stands behind the name.
    have hany : ∀ t, Ends S.pair (n - 1) 0 (f t) := fun t =>
      (hf t).mono (Nat.le_refl _) (fun _ _ _ => hfault) (Nat.le_refl _)
    refine (EndsAt.takeTextOf (by decide)).lead fun op => ?_
    apply EndsAt.expectText_any.seq
    intro name
    exact (ends_joined_any hfault op name).seq hany
  · rintro c _ ⟨rfl, hc⟩ hlt hk
    have hsolid : ∀ k ∈ steps, k.isComment = false ∧ k ≠ .endOfInput := by decide
    obtain ⟨hcomment, hend⟩ := hsolid _ hk
    have htext := EndsAt.worded hS.lenient hc hend
    have hc' := hc.behind (advance_suffix tv c)
    have hlt' : (c.advance tv).rest.length < n - 1 :=
      Nat.lt_of_lt_of_le (length_advance_lt hend) (Nat.le_pred_of_lt hlt)
    have hrun : p c = _ := takeText_bind ..
    rw [hrun]
    refine Matches.next (j := 0) ?_ ⟨rfl, hc⟩ hend
    -- The second token has to be a name, and the third is then no step.
    by_cases hname : (c.advance tv).kind = .identifier
    · have hend' : (c.advance tv).kind ≠ .endOfInput := by simp [hname]
      obtain ⟨hrest, hcomment'⟩ := uncommented_advance hcomment hend
      obtain ⟨hrest', -⟩ := uncommented_advance hcomment' hend'
      have hthird : ((c.advance tv).advance tv).kind ∉ steps := by
        intro hmem
        obtain ⟨hcomment'', hend''⟩ := hsolid _ hmem
        obtain ⟨hrest'', -⟩ := uncommented_advance hcomment'' hend''
        have htokens := hrest.trans (congrArg _ (hrest'.trans (congrArg _ hrest'')))
        exact hfault (hS.twice _ hc.ahead ⟨_, _, _, _, htokens, hk, hname, hmem⟩)
      have htext' := EndsAt.worded hS.lenient hc' hend'
      obtain ⟨s, hs⟩ := htext.resolve_right hfault
      obtain ⟨t, ht⟩ := htext'.resolve_right hfault
      have hrun : expectText tv .identifier (c.advance tv)
          = .ok (.text t) ((c.advance tv).advance tv) := by
        rw [← ht, expectText, bind_of_ok (expect_run hname)]
        rfl
      rw [bind_of_ok hrun, hs]
      have hon := onward_advance tv (c.advance tv)
      have hle := hon.suffix.length_le
      refine Matches.behind (g := 0) (j := 0) ?_ hon hon hle
      refine hf _ _ _ ⟨rfl, hc'.behind hon.suffix⟩ (Nat.lt_of_le_of_lt hle hlt') fun hmem => ?_
      exact absurd hmem hthird
    · exact EndsAt.expectText_never (P := (· ≠ .identifier)) (fun _ h => h) _ _
        ⟨rfl, hc'⟩ hlt' hname

theorem ends_plainStatement (hS : Allows S) (inUpdate : Bool) :
    Ends S.pair n 1 (plainStatement inUpdate) := by
  refine EndsAt.cond .takeText_any .pure fun vtype => ?_
  refine EndsAt.isAt (ends_declaration vtype inUpdate).here (EndsAt.isAt ?_ ?_)
  · show EndsAt S.pair n _ 1 ((some <$> takeText tv) >>= _) ((some <$> takeText tv) >>= _)
    rw [bind_map_left]
    refine ends_step hS fun t => ?_
    exact ends_afterTarget vtype (Tree.var vtype (Tree.var (.text []) t))
  · -- Without a step, what stands here would have to be a name, which it is not.
    refine .expectText_never fun k hk => ?_
    simpa using hk.2.1

theorem ends_update (hS : Allows S) : Ends S.pair n 0 update := by
  have hjoin : ∀ {s t}, S.Worded s → S.Worded t → ∀ {m},
      Ends S.pair m 0 (do return Tree.var (.text []) (← joined s t)) :=
    fun hs ht => (ends_joined hs ht).seq fun _ => .pure
  have hlenient := hS.lenient
  refine EndsAt.kind fun k _ _ => .ite (fun hk => ?_) fun _ => .ite (fun hk => ?_) fun _ => .reject
  · refine (EndsAt.takeText_worded (j := 0) hlenient (fun hend => ?_) fun name hname => ?_).loose
    · cases hend.trans hk
    · refine EndsAt.isAt (EndsAt.loose ?_) (EndsAt.kind fun _ _ _ => .reject)
      refine EndsAt.takeText_worded (j := 0) hlenient (by decide) fun op hop => ?_
      exact hjoin hname hop
  · refine (EndsAt.takeText_worded (j := 0) hlenient (fun hend => ?_) fun op hop => ?_).loose
    · subst hend
      exact absurd hk (by decide)
    · refine EndsAt.isAt (EndsAt.loose ?_) .pure
      refine EndsAt.takeText_worded (j := 0) hlenient (by decide) fun name hname => ?_
      exact hjoin hop hname

theorem ends_returnStatement : Ends S.pair n 1 returnStatement := by
  refine (EndsAt.expect (by decide)).lead fun _ => ?_
  refine (EndsAt.sepBy (by decide) ends_expression).loose.seq fun _ => ?_
  exact EndsAt.expect_any.seq fun _ => .pure

/-! ## §5 Compound statements -/

section Statements

variable {body : Parser (List Tree)}

theorem ends_guarded (h : Ends S.pair n 0 body) : Ends S.pair n 0 (guarded body) := by
  apply (EndsAt.parenthesized ends_expression.loose).loose.seq
  intro _
  apply EndsAt.expect_any.seq
  intro _
  apply h.seq
  intro _
  exact EndsAt.expect_any.seq fun _ => .pure

/-- The token behind `else` is asked for only where `else` stands. -/
theorem asks_atElseIf (hS : Allows S) : Asks S.pair (· ∈ [.elseWord]) atElseIf := by
  rintro c _ ⟨rfl, hc⟩
  by_cases h : c.kind ∈ [TokenKind.elseWord]
  · cases ht : c.rest[1]? with
    | none =>
      have hrun : atElseIf c = .error .outOfRange c := by
        rw [atElseIf, isAt_bind, decide_eq_true h]
        exact bind_of_error (by rw [lookahead_run, ht]; rfl)
      refine .inr ⟨_, hrun, hrun, hS.lenient _ hc.ahead (fun hgenuine => ?_) _ nofun⟩
      -- A source does not end in `else`.
      have hkind : firstKind c.rest = .elseWord := List.mem_singleton.1 h
      obtain ⟨t, rest, hrest, ht'⟩ := exists_cons_of_firstKind (by rw [hkind]; decide)
      rw [hrest] at ht hgenuine
      obtain rfl : rest = [] := by simpa using ht
      have hend := hgenuine.closed t (List.suffix_refl _)
      rw [hrest, firstKind_cons, hend] at hkind
      cases hkind
    | some t =>
      have hrun : atElseIf c = .ok (decide (t.kind = .ifWord)) c := by
        rw [atElseIf, isAt_bind, decide_eq_true h]
        exact bind_of_ok (by rw [lookahead_run, ht]; rfl)
      exact .inl ⟨_, hrun, hrun, fun _ => h⟩
  · have hrun : atElseIf c = .ok false c := by
      rw [atElseIf, isAt_bind, decide_eq_false h]
      rfl
    exact .inl ⟨_, hrun, hrun, nofun⟩

theorem ends_branchWith (hS : Allows S) (h : Ends S.pair (n - 1) 0 body) :
    Ends S.pair n 1 (branchWith body) := by
  refine (EndsAt.expect (by decide)).lead fun _ => ?_
  apply (ends_guarded h).seq
  intro _
  refine (EndsAt.many (asks_atElseIf hS) ?_).seq fun _ => ?_
  · refine (EndsAt.expectAll (by decide)).lead fun _ => ?_
    exact ends_guarded (h.within (by omega))
  · refine EndsAt.isAt ?_ .pure
    apply EndsAt.expectAll_any.seq
    intro _
    apply h.seq
    intro _
    exact EndsAt.expect_any.seq fun _ => .pure

/-- The header of a loop up to its update. -/
def loopHead : Parser (Tree × Tree) := do
  expectAll tv [.forWord, .leftParen]
  let init ← plainStatement false
  let condition ← plainStatement false
  return (init, condition)

theorem ends_loopHead (hS : Allows S) : Ends S.pair n 1 loopHead := by
  refine (EndsAt.expectAll (by decide)).lead fun _ => ?_
  apply (ends_plainStatement hS false).loose.seq
  intro _
  exact (ends_plainStatement hS false).loose.seq fun _ => .pure

theorem spares_loopHead : Spares braces loopHead := by
  have hlines : braces.Lacks lineKinds := by decide
  refine SpendsAt.seq (.expectAll (by decide)) fun _ => ?_
  apply (spares_plainStatement hlines false).seq
  intro init
  exact (spares_plainStatement hlines false).bind_pure fun _ _ => id

/-- Where the header of a loop is read up to its update and at most one token is left in front of
the end, the source ends in the header. -/
theorem endsInHeader {c d : Cursor} {a : Tree × Tree} (h : loopHead c = .ok a d)
    (hlen : d.rest.length ≤ 2) : EndsInHeader c.rest := by
  constructor
  · obtain ⟨_, _, hwords, -⟩ := bind_eq_ok h
    obtain ⟨_, _, hword, -⟩ := bind_eq_ok hwords
    exact (expect_eq_ok hword).1
  · obtain ⟨used, hused, hmarks⟩ := spares_loopHead c a d trivial h
    intro t ht
    rw [Marks.among_eq_nil_iff] at hmarks
    apply hmarks
    -- What stands in front of the last two tokens was read.
    have hread : c.rest.dropLast.dropLast <+: used := by
      have hdropped : c.rest.dropLast.dropLast <+: c.rest :=
        (List.dropLast_prefix _).trans (List.dropLast_prefix _)
      have hprefix : used <+: c.rest := hused ▸ List.prefix_append used _
      apply List.prefix_of_prefix_length_le hdropped hprefix
      have hlength := congrArg List.length hused
      simp only [List.length_append, List.length_dropLast] at hlength ⊢
      omega
    exact hread.subset ht

/-- A loop ends if its body does, whatever form its header has. -/
theorem ends_forWith (hS : Allows S) (h : Ends S.pair (n - 1) 0 body) :
    Ends S.pair n 1 (forWith body) := by
  rintro c _ ⟨rfl, hc⟩ hlt hk
  -- The header is read first; what follows looks two tokens ahead.
  have hsplit : forWith body = loopHead >>= fun a => do
      let step ← if (← lookahead 2).kind = .rightParen then update else plainStatement true
      expectAll tv [.rightParen, .leftBrace]
      let stmts ← body
      let _ ← expect tv .rightBrace
      return Tree.forLoop a.1 a.2 step stmts := by
    simp only [forWith, loopHead, bind_assoc, pure_bind]
  rw [hsplit]
  refine (ends_loopHead hS c c ⟨rfl, hc⟩ hlt hk).bind (j := 0) fun a d _ hrun hd _ _ hread => ?_
  obtain ⟨rfl, hd⟩ := hd
  have hrest : ∀ step, Ends S.pair (n - 1) 0 (do
      expectAll tv [.rightParen, .leftBrace]
      let stmts ← body
      let _ ← expect tv .rightBrace
      return Tree.forLoop a.1 a.2 step stmts) := fun _ =>
    EndsAt.expectAll_any.seq fun _ => h.seq fun _ => EndsAt.expect_any.seq fun _ => .pure
  have hlt' : d.rest.length < n - 1 := Nat.lt_of_lt_of_le hread (Nat.le_pred_of_lt hlt)
  cases ht : d.rest[2]? with
  -- The header breaks off, which is the one fault of a loop.
  | none =>
    rw [bind_of_error (by rw [lookahead_run, ht]; rfl)]
    exact .fault (hS.header _ hc.ahead (endsInHeader hrun (List.getElem?_eq_none_iff.1 ht)))
  | some t =>
    rw [bind_of_ok (by rw [lookahead_run, ht]; rfl)]
    have hstep : Ends S.pair (n - 1) 0 (do
        let step ← if t.kind = .rightParen then update else plainStatement true
        expectAll tv [.rightParen, .leftBrace]
        let stmts ← body
        let _ ← expect tv .rightBrace
        return Tree.forLoop a.1 a.2 step stmts) :=
      .ite (fun _ => (ends_update hS).seq hrest) fun _ =>
        (ends_plainStatement hS true).loose.seq hrest
    exact hstep d d ⟨rfl, hd⟩ hlt' trivial

theorem ends_statementWith (hS : Allows S) (h : Ends S.pair (n - 1) 0 body) :
    Ends S.pair n 1 (statementWith body) := by
  apply EndsAt.kind
  intro k _ _
  refine .ite (fun _ => (ends_branchWith hS h).here) fun _ => ?_
  refine .ite (fun _ => (ends_forWith hS h).here) fun _ => ?_
  refine .ite (fun _ => ends_returnStatement.here) fun _ => ?_
  exact .ite (fun _ => (ends_plainStatement hS false).here) fun _ => .reject

end Statements

theorem ends_body (hS : Allows S) : Ends S.pair n 0 body := by
  refine .nested_solo fun m ih => ?_
  exact .manyNotAt (ends_statementWith (n := m + 1) hS ih).here

/-! ## §6 Functions, sections and shaders -/

theorem ends_function (hS : Allows S) : Ends S.pair n 1 function := by
  apply ends_typeName.lead
  intro _
  refine EndsAt.check (w := .expected "MAIN or IDENTIFIER") ?_
  apply EndsAt.takeText_any.seq
  intro _
  apply EndsAt.expect_any.seq
  intro _
  apply ends_parameters.seq
  intro _
  apply EndsAt.expectAll_any.seq
  intro _
  apply (ends_body hS).seq
  intro _
  exact EndsAt.expect_any.seq fun _ => .pure

/-- The token two places behind a type is missing only where the source ends in the type. -/
theorem ends_typeAhead (hS : Allows S) {k : TokenKind} (hk : k ∈ returnTypes) :
    EndsAt S.pair n (· = k) 0 (lookahead 2) (lookahead 2) := by
  refine .lookahead fun c hc hkind hlen => ?_
  have hend : k ≠ .endOfInput := by
    rintro rfl
    exact absurd hk (by decide)
  obtain ⟨pos, ts⟩ := c
  obtain ⟨t, rest, rfl, -⟩ := exists_cons_of_firstKind (hkind ▸ hend)
  cases rest with
  | nil =>
    refine hS.lenient _ hc.ahead (fun hgenuine => hend ?_) _ nofun
    exact hkind.symm.trans (hgenuine.closed t (List.suffix_refl _))
  | cons e rest =>
    obtain rfl : rest = [] := List.length_eq_zero_iff.1 (by simpa using hlen)
    have htype : t.kind ∈ returnTypes := by rwa [show t.kind = k from hkind]
    exact hS.type _ hc.ahead ⟨t, e, rfl, htype⟩

theorem ends_sectionItem (hS : Allows S) (s : SectionItems) : Ends S.pair n 1 (sectionItem s) := by
  apply EndsAt.kind
  intro k _ _
  refine .ite (fun hk => ?_) fun _ => .ite (fun hk => ?_) fun _ => .ite (fun hk => ?_) fun _ => ?_
  · exact (ends_uniforms.known (by simp [hk])).lead fun _ => .pure
  · exact (ends_inputs.known (by simp [hk])).lead fun _ => .pure
  · exact (ends_outputs.known (by simp [hk])).lead fun _ => .pure
  have hrest : ∀ b : Bool, Ends S.pair n 1 (definition s k b) := by
    intro b
    unfold definition
    have hbody : Ends S.pair (n - 1) 0 body := ends_body hS
    refine .ite (fun _ => (ends_function hS).lead fun _ => .pure) fun _ => ?_
    refine .ite (fun _ => (ends_forWith hS hbody).lead fun _ => .pure) fun _ => ?_
    refine .ite (fun _ => (ends_branchWith hS hbody).lead fun _ => .pure) fun _ => ?_
    exact .ite (fun _ => (ends_plainStatement hS false).lead fun _ => .pure) fun _ => .reject
  refine .ite (fun hk => ?_) fun _ => (hrest false).here
  apply (ends_typeAhead hS hk).seq
  intro _
  exact hrest _

theorem ends_sectionBody (hS : Allows S) : Ends S.pair n 0 sectionBody := by
  apply EndsAt.expect_any.seq
  intro _
  apply (EndsAt.loop asks_isNotAt (fun s => (ends_sectionItem hS s).here) {}).seq
  intro _
  exact EndsAt.expect_any.seq fun _ => .pure

theorem ends_shaderItem (hS : Allows S) (s : ShaderItems) : Ends S.pair n 1 (shaderItem s) := by
  have hsection : ∀ {word : TokenKind} {k : NodeKind}, word ≠ .endOfInput → Ends S.pair n 1 (do
      let _ ← expect tv word
      return (← sectionBody).node k) := fun hword =>
    (EndsAt.expect hword).lead fun _ => (ends_sectionBody hS).seq fun _ => .pure
  apply EndsAt.kind
  intro k _ _
  refine .ite (fun _ => (hsection (by decide)).here.lead fun _ => .pure) fun _ => ?_
  refine .ite (fun _ => (hsection (by decide)).here.lead fun _ => .pure) fun _ => ?_
  exact .ite (fun _ => (ends_function hS).here.lead fun _ => .pure) fun _ => .reject

/-- Reading a shader comes to an end, with no fault but those that are allowed for. -/
theorem ends_shader (hS : Allows S) : Ends S.pair n 0 shader := by
  apply EndsAt.expect_any.seq
  intro _
  refine EndsAt.check (w := .expected "IDENTIFIER or MAIN") ?_
  apply EndsAt.takeText_any.seq
  intro _
  apply EndsAt.expect_any.seq
  intro _
  refine EndsAt.seq (p := inputs) (ends_interface (by decide)) fun _ => ?_
  refine EndsAt.seq (p := uniforms) (ends_interface (by decide)) fun _ => ?_
  refine EndsAt.seq (p := outputs) (ends_interface (by decide)) fun _ => ?_
  apply (EndsAt.loop asks_isNotAt (fun s => (ends_shaderItem hS s).here) {}).seq
  intro _
  exact EndsAt.expect_any.seq fun _ => .pure

end ShaderBridge.CrossGl
