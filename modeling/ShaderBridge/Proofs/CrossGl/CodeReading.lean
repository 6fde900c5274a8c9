import ShaderBridge.Proofs.CrossGl.Rules

/-!
# Plain code is read

The grammar reads every function of plain code, with exactly its tokens (`reads_function`).  The
statements are taken one by one; a block within a block is read within the bound on nesting since it
has fewer tokens.
-/

namespace ShaderBridge.CrossGl

open ShaderBridge.Parser Ladder

/-! ## §1 Plain statements -/

theorem reads_expr (e : Expr) : ReadsUpTo follow expression e.tokens e.value :=
  reads_phrase writtenLinks_subset e

theorem semicolon_notMem_follow : .semicolon ∉ follow := by decide

theorem reads_plain {rest : List Token} (s : Plain) (hrest : CommentFree rest) :
    Reads (plainStatement false) s.tokens s.tree rest := by
  cases s with
  | declared vtype name ends => exact reads_declaredLine vtype name [] ends hrest
  | assigned vtype a ends =>
    have hvalue := reads_expr a.value (ends.1 :: rest) (by simp [hrest])
      (by simp [semicolon_notMem_follow])
    have hline := reads_assignedLine vtype a.name a.members a.op ends hvalue
      a.value.commentFree_written hrest
    simpa [Plain.tokens, Assignment.tokens, Assignment.target, Plain.tree, Assignment.tree,
      assignedTree] using hline

theorem reads_update {rest : List Token} (u : Update) (htext : ∀ t ∈ u.tokens, t.text.isSome)
    (closes : TokenOf [.rightParen]) (hrest : CommentFree rest) :
    Reads loopUpdate u.tokens u.tree (closes.1 :: rest) := by
  cases u with
  | after | before => exact reads_loopCount _ (by simp) htext closes hrest
  | assigned a =>
    have hvalue := reads_expr a.value (closes.1 :: rest) (by simp [hrest])
      (by simp [rightParen_notMem_follow])
    refine reads_loopAssigned a.name a.members a.op closes hvalue ?_ a.value.commentFree_written
      hrest
    obtain ⟨t, ts, ht⟩ := List.exists_cons_of_ne_nil a.value.tokens_ne_nil
    have hk : t.kind ∈ Phrase.starts := by simpa [ht] using a.value.firstKind_mem []
    exact ⟨t, ts, ht, fun h => absurd (h ▸ hk) (by decide)⟩

/-! ## §2 Statements -/

theorem reads_return {rest : List Token} (word : TokenOf [.returnWord])
    (values : Phrase writtenLinks .arguments) (ends : TokenOf [.semicolon])
    (hrest : CommentFree rest) :
    Reads returnStatement (Code.returned word values ends).tokens
      (Code.returned word values ends).value rest := by
  have hvalues := reads_argumentList (n := values.tokens.length + 1)
    (fun e _ => reads_phrase writtenLinks_subset e) Phrase.commentFree_written values (by omega)
    (ends.1 :: rest) (by simp [hrest]) (by simp [semicolon_notMem_follow])
  exact reads_returned word ends hvalues values.commentFree_written hrest

section Nested

variable {inner : Parser (List Tree)} {n : Nat}
  (hinner : ∀ b : Code .block, b.tokens.length < n → (∀ t ∈ b.tokens, t.text.isSome) →
    ∀ (stops : TokenOf [.rightBrace]) rest, CommentFree rest →
      Reads inner b.tokens b.value (stops.1 :: rest))

include hinner

theorem reads_arm (c : Code .arm) (rest : List Token) (hlen : c.tokens.length ≤ n)
    (htext : ∀ t ∈ c.tokens, t.text.isSome) (hrest : CommentFree rest) :
    Reads (guarded inner) c.tokens c.value rest := by
  cases c with
  | arm opens condition closes starts b stops =>
    simp only [Code.tokens, List.length_cons, List.length_append, List.length_nil] at hlen
    have hcondition := reads_expr condition (closes.1 :: (starts.1 ::
      (b.tokens ++ [stops.1]) ++ rest)) (by simp [b.commentFree, hrest])
      (by simp [rightParen_notMem_follow])
    refine reads_guarded opens closes starts stops hcondition ?_ condition.commentFree_written
      b.commentFree hrest
    exact hinner b (by omega) (fun t ht => htext t (by simp [Code.tokens, ht])) stops rest hrest

theorem reads_alternatives (rest : List Token) : (c : Code .alternatives) →
    c.tokens.length ≤ n → (∀ t ∈ c.tokens, t.text.isSome) → CommentFree rest →
    (∀ pos, atElseIf ⟨pos, rest⟩ = .ok false ⟨pos, rest⟩) →
    Reads (alternatives inner) c.tokens c.value rest
  | .noAlternative, _, _, _, hstop => Reads.many_stop hstop
  | .alternative elseWord ifWord first others, hlen, htext, hrest, hstop => by
    simp only [Code.tokens, List.length_cons, List.length_append] at hlen
    have hmore := reads_alternatives rest others (by omega)
      (fun t ht => htext t (by simp [Code.tokens, ht])) hrest hstop
    have hfirst := reads_arm hinner first (others.tokens ++ rest) (by omega)
      (fun t ht => htext t (by simp [Code.tokens, ht])) (by simp [others.commentFree, hrest])
    exact reads_alternative elseWord ifWord hfirst hmore
      (by simp [first.commentFree, others.commentFree, hrest])

/-- A branch is read arm by arm, up to a token that is no `else`. -/
theorem reads_branch {rest : List Token} (word : TokenOf [.ifWord]) (first : Code .arm)
    (others : Code .alternatives) (last : Code .ending)
    (hlen : (Code.branch word first others last).tokens.length ≤ n)
    (htext : ∀ t ∈ (Code.branch word first others last).tokens, t.text.isSome)
    (hrest : CommentFree rest) (hstop : firstKind rest ≠ .elseWord) :
    Reads (branchWith inner) (Code.branch word first others last).tokens
      (Code.branch word first others last).value rest := by
  simp only [Code.tokens, List.length_cons, List.length_append] at hlen
  have hafter : CommentFree (last.tokens ++ rest) := by simp [last.commentFree, hrest]
  have hfree : CommentFree (first.tokens ++ (others.tokens ++ (last.tokens ++ rest))) := by
    simpa [first.commentFree, others.commentFree] using hafter
  have hfirst := reads_arm hinner first (others.tokens ++ (last.tokens ++ rest)) (by omega)
    (fun t ht => htext t (by simp [Code.tokens, ht])) (by simpa [others.commentFree] using hafter)
  have hothers := fun hnone => reads_alternatives hinner (last.tokens ++ rest) others
    (by omega) (fun t ht => htext t (by simp [Code.tokens, ht])) hafter hnone
  cases last with
  | noElse => exact reads_if word hfirst (hothers (atElseIf_of_ne hstop)) (reads_noElse hstop) hfree
  | otherwise elseWord starts s more stops =>
    -- Before `else {` the loop over the alternatives has to stop.
    have hnone : ∀ pos, atElseIf ⟨pos, (Code.otherwise elseWord starts s more stops).tokens ++ rest⟩
        = .ok false ⟨pos, (Code.otherwise elseWord starts s more stops).tokens ++ rest⟩ := by
      intro pos
      simpa [Code.tokens] using atElseIf_else (u := starts.1) elseWord.kind_eq pos
    simp only [Code.tokens, List.length_cons, List.length_append, List.length_nil] at hlen
    refine reads_if word hfirst (hothers hnone) ?_ hfree
    refine reads_else elseWord starts stops (b := (Code.next s more).tokens) ?_
      (Code.next s more).commentFree hrest
    refine hinner (.next s more) ?_ (fun t ht => htext t ?_) stops rest hrest
    · simp only [Code.tokens, List.length_append]
      omega
    · simp only [Code.tokens, List.mem_append, List.mem_cons] at ht ⊢
      tauto

theorem reads_loop {rest : List Token} (word : TokenOf [.forWord]) (opens : TokenOf [.leftParen])
    (init condition : Plain) (u : Update) (closes : TokenOf [.rightParen])
    (starts : TokenOf [.leftBrace]) (b : Code .block) (stops : TokenOf [.rightBrace])
    (hlen : b.tokens.length < n)
    (htext : ∀ t ∈ (Code.loop word opens init condition u closes starts b stops).tokens,
      t.text.isSome)
    (hrest : CommentFree rest) :
    Reads (forWith inner) (Code.loop word opens init condition u closes starts b stops).tokens
      (Code.loop word opens init condition u closes starts b stops).value rest := by
  refine reads_for word opens closes starts stops (fun _ => reads_plain init)
    (fun _ => reads_plain condition) (fun _ => reads_update u (fun t ht => htext t ?_) closes)
    (hinner b hlen (fun t ht => htext t ?_) stops rest hrest) ?_ b.commentFree hrest
  · simp [Code.tokens, ht]
  · simp [Code.tokens, ht]
  · simp [init.commentFree, condition.commentFree, u.commentFree]

/-- A statement is read up to a token that is no `else`. -/
theorem reads_statement (s : Code .statement) (hlen : s.tokens.length ≤ n)
    (htext : ∀ t ∈ s.tokens, t.text.isSome) :
    ReadsUpTo [.elseWord] (statementWith inner) s.tokens s.value := by
  intro rest hrest hstop
  refine Reads.kind ?_
  cases s with
  | plain s =>
    -- The kinds that begin a plain statement are none of the words tried before.
    have hstart : ∀ k ∈ bodyStarts, k ≠ .ifWord ∧ k ≠ .forWord ∧ k ≠ .returnWord := by decide
    have hk := s.firstKind_mem rest
    obtain ⟨hif, hfor, hreturn⟩ := hstart _ hk
    rw [Code.tokens, if_neg hif, if_neg hfor, if_neg hreturn, if_pos hk]
    exact reads_plain s hrest
  | returned word values ends =>
    rw [Code.tokens, List.cons_append, firstKind_cons, word.kind_eq]
    exact reads_return word values ends hrest
  | branch word first others last =>
    rw [Code.tokens, List.cons_append, firstKind_cons, word.kind_eq]
    exact reads_branch hinner word first others last hlen htext hrest (by simpa using hstop)
  | loop word opens init condition u closes starts b stops =>
    simp only [Code.tokens, List.length_cons, List.length_append] at hlen
    rw [Code.tokens, List.cons_append, firstKind_cons, word.kind_eq]
    exact reads_loop hinner word opens init condition u closes starts b stops (by omega) htext hrest

/-- A block is read statement by statement. -/
theorem reads_block (rest : List Token) : (b : Code .block) → b.tokens.length ≤ n →
    (∀ t ∈ b.tokens, t.text.isSome) → CommentFree rest → firstKind rest ∈ blockEnds →
    Reads (many (isNotAt blockEnds) (statementWith inner)) b.tokens b.value rest
  | .empty, _, _, _, hend => Reads.many_stop fun pos => by
    rw [isNotAt_run, Cursor.kind_mk, decide_eq_false (not_not.2 hend)]
  | .next s more, hlen, htext, hrest, hend => by
    simp only [Code.tokens, List.length_append] at hlen
    have hmore := reads_block rest more (by omega) (fun t ht => htext t (by simp [Code.tokens, ht]))
      hrest hend
    have hgo := statementStarts_go _ (s.firstKind_statement (more.tokens ++ rest))
    -- What follows a statement is a statement or the end of the block, never an `else`.
    have hnext : firstKind (more.tokens ++ rest) ∉ [.elseWord] := by
      rcases List.mem_cons.1 (more.firstKind_block rest) with hk | hk
      · rw [hk]
        revert hend
        generalize firstKind rest = k
        revert k
        decide
      · simpa using (statementStarts_go _ hk).2
    have hfirst := reads_statement hinner s (by omega)
      (fun t ht => htext t (by simp [Code.tokens, ht])) _ (by simp [more.commentFree, hrest]) hnext
    refine Reads.many_step (fun pos => ?_) (fun h => ?_) hfirst hmore
    · rw [isNotAt_run, Cursor.kind_mk, decide_eq_true hgo.1]
    · exact absurd (h ▸ s.firstKind_statement []) (by decide)

end Nested

/-- A block within a bound on its tokens is read within that bound on nesting. -/
theorem reads_bodyAt (n : Nat) (b : Code .block) (hlen : b.tokens.length < n)
    (htext : ∀ t ∈ b.tokens, t.text.isSome) (stops : TokenOf [.rightBrace]) (rest : List Token)
    (hrest : CommentFree rest) : Reads (bodyAt n) b.tokens b.value (stops.1 :: rest) := by
  induction n generalizing b stops rest with
  | zero => omega
  | succ n ih =>
    exact reads_block ih (stops.1 :: rest) b (by omega) htext (by simp [hrest])
      (by simp [blockEnds])

theorem reads_body (b : Code .block) (htext : ∀ t ∈ b.tokens, t.text.isSome)
    (stops : TokenOf [.rightBrace]) (rest : List Token) (hrest : CommentFree rest) :
    Reads body b.tokens b.value (stops.1 :: rest) := by
  refine Reads.nested (reads_bodyAt _ b ?_ htext stops rest hrest)
  rw [List.length_append]
  omega

/-! ## §3 Functions -/

theorem reads_function (f : Function) (htext : ∀ t ∈ f.tokens, t.text.isSome)
    (rest : List Token) (hrest : CommentFree rest) : Reads function f.tokens f.tree rest := by
  obtain ⟨vtype, name, opens, params, closes, starts, b, stops⟩ := f
  have hwords : Function.tokens ⟨vtype, name, opens, params, closes, starts, b, stops⟩
      = functionTokens vtype name opens params closes starts b.tokens stops := by
    simp [Function.tokens, Function.header, functionTokens]
  have hb := reads_body b (fun t ht => htext t (by simp [Function.tokens, ht])) stops rest hrest
  rw [hwords]
  exact reads_functionTokens vtype name opens params closes starts stops hb b.commentFree hrest

end ShaderBridge.CrossGl
