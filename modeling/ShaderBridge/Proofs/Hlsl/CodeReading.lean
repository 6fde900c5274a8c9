import ShaderBridge.Proofs.Hlsl.Code
import ShaderBridge.Proofs.Hlsl.Recognition

/-!
# Plain code of HLSL is read

The grammar reads every function of plain code, with exactly its tokens (`reads_function`).

A statement is told apart by its second token, and a chain of `else if` branches is read from the
inside out, as branches nested in each other.  Both a chain and a block are read within a bound on
nesting, which their tokens never reach.
-/

namespace ShaderBridge.Hlsl

open ShaderBridge.Parser Ladder
open Form (declarationStarts statementOperators)

theorem semicolon_notMem_follow : .semicolon ∉ follow := by decide

/-! ## §1 Plain statements -/

theorem reads_ended {rest : List Token} (e : Expr) (ends : TokenOf [.semicolon])
    (hrest : CommentFree rest) :
    Reads expressionStatement (e.tokens ++ [ends.1]) e.value rest := by
  refine Reads.bind (reads_phrase e _ ?_ ?_) (Reads.bind_pure (Reads.expect (by simp) hrest) ?_)
  · simp [hrest]
  · simp [semicolon_notMem_follow]
  · exact fun _ => rfl

theorem reads_assigned {rest : List Token} (s : Setting [.equals])
    (hrest : CommentFree rest) : Reads (Form.assigned expression) s.tokens s.value.value rest := by
  refine Reads.bind (u := [s.op.1]) (Reads.expect (by simp) ?_) (reads_ended s.value s.ends hrest)
  simp [s.value.commentFree, hrest]

/-- A statement that begins with a type or a name goes on by what stands behind that. -/
theorem reads_first {inner : Parser (List Tree)} {w rest : List Token} {a : Tree}
    (t : TokenOf declarationStarts) (hw : CommentFree (w ++ rest))
    (h : Reads (Form.afterFirst var expression (Tree.ofText? t.1.text)) w a rest) :
    Reads (statementWith inner) (t.1 :: w) a rest := by
  refine Reads.kind ?_
  rw [List.cons_append, firstKind_cons, if_pos t.2]
  refine Reads.isNotAt t.2 ?_
  exact Reads.bind (u := [t.1]) (Reads.takeText _ hw) h

/-- A name may stand at the front of a statement. -/
def leading (name : TokenOf [.identifier]) : TokenOf declarationStarts :=
  ⟨name.1, name.mem (by decide)⟩

/-- A plain statement is read as its tree. -/
theorem reads_plain {inner : Parser (List Tree)} {rest : List Token} (s : Plain)
    (hrest : CommentFree rest) : Reads (statementWith inner) s.tokens s.tree rest := by
  cases s with
  | declared vtype name ends =>
    refine reads_first vtype.1 (by simp [hrest]) (Reads.kind ?_)
    rw [List.cons_append, firstKind_cons, if_pos name.kind_eq]
    refine Reads.bind (u := [name.1]) (Reads.takeText _ (by simp [hrest])) (Reads.kind ?_)
    rw [List.cons_append, firstKind_cons, ends.kind_eq]
    exact Reads.bind_pure (Reads.take _ hrest) fun _ => rfl
  | initialized vtype name s =>
    have hs : CommentFree (s.tokens ++ rest) :=
      commentFree_append.2 ⟨s.commentFree (by decide), hrest⟩
    refine reads_first vtype.1 (commentFree_cons.2 ⟨by simp, hs⟩) (Reads.kind ?_)
    rw [List.cons_append, firstKind_cons, if_pos name.kind_eq]
    refine Reads.bind (u := [name.1]) (v := s.tokens) (Reads.takeText _ hs) (Reads.kind ?_)
    rw [Setting.tokens, List.cons_append, firstKind_cons, s.op.kind_eq]
    exact Reads.bind_pure (reads_assigned s hrest) fun _ => rfl
  | assigned name s =>
    have hs : CommentFree (s.tokens ++ rest) :=
      commentFree_append.2 ⟨s.commentFree (by decide), hrest⟩
    refine reads_first (leading name) hs (Reads.kind ?_)
    rw [Setting.tokens, List.cons_append, firstKind_cons, s.op.kind_eq]
    exact Reads.bind_pure (reads_assigned s hrest) fun _ => rfl
  | updated name s =>
    have hs : CommentFree (s.tokens ++ rest) :=
      commentFree_append.2 ⟨s.commentFree (by decide), hrest⟩
    -- The operators of an update are tried last.
    have hop : ∀ k ∈ updateOperators,
        k ≠ .identifier ∧ k ≠ .equals ∧ k ≠ .dot ∧ k ∈ statementOperators := by decide
    obtain ⟨hname, hequals, hdot, hmem⟩ := hop _ s.op.2
    refine reads_first (leading name) hs (Reads.kind ?_)
    rw [Setting.tokens, List.cons_append, firstKind_cons, if_neg hname, if_neg hequals,
      if_neg hdot, if_pos hmem]
    refine Reads.bind (u := [s.op.1]) (Reads.takeText _ ?_) ?_
    · exact (commentFree_cons.1 hs).2
    · exact Reads.bind_pure (reads_ended s.value s.ends hrest) fun _ => rfl
  | stored name m more s =>
    have hs : CommentFree (s.tokens ++ rest) :=
      commentFree_append.2 ⟨s.commentFree (by decide), hrest⟩
    have hmembers : CommentFree (Member.tokens (m :: more) ++ s.tokens ++ rest) := by
      rw [List.append_assoc]
      exact commentFree_append.2 ⟨Member.commentFree _, hs⟩
    have hdot : firstKind (Member.tokens (m :: more) ++ s.tokens ++ rest) = .dot := m.1.kind_eq
    refine reads_first (w := Member.tokens (m :: more) ++ s.tokens) (leading name) hmembers
      (Reads.kind ?_)
    rw [hdot]
    refine Reads.bind (reads_memberChain _ m more hs (by simp [Setting.tokens])) ?_
    refine Reads.isAt (by simp [Setting.tokens]) ?_
    exact Reads.bind_pure (reads_assigned s hrest) fun _ => rfl
  | returned word value ends =>
    refine Reads.kind ?_
    rw [Plain.tokens, List.cons_append, firstKind_cons, word.kind_eq]
    refine Reads.bind (u := [word.1]) (Reads.expect (by simp) ?_) ?_
    · simp [value.commentFree, hrest]
    · exact Reads.bind_pure (reads_ended value ends hrest) fun _ => rfl

/-! ## §2 Compound statements -/

/-- What goes on with a branch. -/
def branchEnds : List TokenKind := [.elseWord, .elseIfWord]

theorem statementStarts_go : ∀ k ∈ statementStarts, k ≠ .rightBrace ∧ k ∉ branchEnds := by decide

section Nested

variable {inner : Parser (List Tree)} {n : Nat}
  (hinner : ∀ b : Code .block, b.tokens.length < n →
    ∀ (starts : TokenOf [.leftBrace]) (stops : TokenOf [.rightBrace]) rest, CommentFree rest →
      Reads inner (starts.1 :: (b.tokens ++ [stops.1])) b.value rest)

include hinner

theorem reads_arm (c : Code .arm) (rest : List Token) (hlen : c.tokens.length ≤ n)
    (hrest : CommentFree rest) : Reads (guarded inner) c.tokens c.value rest := by
  cases c with
  | arm opens condition closes starts b stops =>
    simp only [Code.tokens, List.length_cons, List.length_append, List.length_nil] at hlen
    have hbody : CommentFree (starts.1 :: (b.tokens ++ [stops.1]) ++ rest) := by
      simp [b.commentFree, hrest]
    have hcondition := reads_phrase condition (closes.1 :: (starts.1 ::
      (b.tokens ++ [stops.1]) ++ rest)) (by simpa using hbody) (by simp [rightParen_notMem_follow])
    have hparens := reads_parenthesized opens closes condition.commentFree hbody hcondition
    rw [show (Code.arm opens condition closes starts b stops).tokens =
      opens.1 :: (condition.tokens ++ [closes.1]) ++ (starts.1 :: (b.tokens ++ [stops.1])) by
        simp [Code.tokens]]
    refine Reads.bind hparens ?_
    exact Reads.bind_pure (hinner b (by omega) starts stops rest hrest) fun _ => rfl

/-- What stands behind an arm, if a further condition is read by `another`. -/
theorem reads_alternative {another : Parser Tree} (c : Code .tail) (rest : List Token)
    (hlen : c.tokens.length ≤ n) (hrest : CommentFree rest) (hstop : firstKind rest ∉ branchEnds)
    (hanother : firstKind (c.tokens ++ rest) = .elseIfWord → Reads another c.tokens c.value rest) :
    Reads (alternative inner another) c.tokens c.value rest := by
  refine Reads.kind ?_
  cases c with
  | noElse =>
    rw [Code.tokens, List.nil_append]
    split
    -- Behind a branch that ends neither word follows.
    · next h => simp [h, branchEnds] at hstop
    · next h => simp [h, branchEnds] at hstop
    · exact Reads.pure
  | otherwise word starts s more stops =>
    simp only [Code.tokens, List.length_cons, List.length_append, List.length_nil] at hlen
    rw [Code.tokens, List.cons_append, firstKind_cons, word.kind_eq]
    refine Reads.bind (u := [word.1]) (Reads.take _ ?_) ?_
    · simp [s.commentFree, more.commentFree, hrest]
    · refine Reads.bind_pure (hinner (.next s more) ?_ starts stops rest hrest) fun _ => rfl
      simp only [Code.tokens, List.length_append]
      omega
  | elseIf word first others =>
    have hk : firstKind ((Code.elseIf word first others).tokens ++ rest) = .elseIfWord :=
      word.kind_eq
    rw [hk]
    exact hanother hk

/-- A chain of further conditions is read within a bound on its tokens. -/
theorem reads_elseIfAt (m : Nat) (c : Code .tail) (rest : List Token)
    (hk : firstKind (c.tokens ++ rest) = .elseIfWord) (hm : c.tokens.length < m)
    (hlen : c.tokens.length ≤ n) (hrest : CommentFree rest) (hstop : firstKind rest ∉ branchEnds) :
    Reads (elseIfAt inner m) c.tokens c.value rest := by
  -- On the bound, which each further branch lowers by one.
  induction m generalizing c with
  | zero => omega
  | succ m ih =>
    cases c with
    | noElse =>
      rw [Code.tokens, List.nil_append] at hk
      simp [hk, branchEnds] at hstop
    | otherwise word => simp [Code.tokens] at hk
    | elseIf word first others =>
      simp only [Code.tokens, List.length_cons, List.length_append] at hm hlen
      have hothers : CommentFree (others.tokens ++ rest) := by simp [others.commentFree, hrest]
      refine Reads.bind (u := [word.1]) (Reads.expect (by simp) ?_) ?_
      · simpa [first.commentFree] using hothers
      refine Reads.bind (reads_arm hinner first (others.tokens ++ rest) (by omega) hothers) ?_
      refine Reads.bind_pure (reads_alternative hinner others rest (by omega) hrest hstop ?_)
        fun _ => rfl
      exact fun hk => ih others hk (by omega) (by omega)

theorem reads_branch {rest : List Token} (word : TokenOf [.ifWord]) (first : Code .arm)
    (others : Code .tail) (hlen : (Code.branch word first others).tokens.length ≤ n)
    (hrest : CommentFree rest) (hstop : firstKind rest ∉ branchEnds) :
    Reads (branchWith inner) (Code.branch word first others).tokens
      (Code.branch word first others).value rest := by
  simp only [Code.tokens, List.length_cons, List.length_append] at hlen
  have hothers : CommentFree (others.tokens ++ rest) := by simp [others.commentFree, hrest]
  refine Reads.bind (u := [word.1]) (Reads.expect (by simp) ?_) ?_
  · simpa [first.commentFree] using hothers
  refine Reads.bind (reads_arm hinner first (others.tokens ++ rest) (by omega) hothers) ?_
  refine Reads.bind_pure (reads_alternative hinner others rest (by omega) hrest hstop ?_)
    fun _ => rfl
  intro hk
  refine Reads.nested (reads_elseIfAt hinner _ others rest hk ?_ (by omega) hrest hstop)
  rw [List.length_append]
  omega

/-- A loop is read clause by clause. -/
theorem reads_loop {rest : List Token} (word : TokenOf [.forWord]) (opens : TokenOf [.leftParen])
    (header : LoopHeader) (closes : TokenOf [.rightParen]) (starts : TokenOf [.leftBrace])
    (b : Code .block) (stops : TokenOf [.rightBrace]) (hlen : b.tokens.length < n)
    (hrest : CommentFree rest) :
    Reads (forWith inner) (Code.loop word opens header closes starts b stops).tokens
      (Code.loop word opens header closes starts b stops).value rest := by
  obtain ⟨vtype, name, op, init, semi, condition, semi', update⟩ := header
  -- No comments behind any of the clauses, from the last one on.
  have hblock : CommentFree (starts.1 :: (b.tokens ++ [stops.1]) ++ rest) := by
    simp [b.commentFree, hrest]
  have hupdate : CommentFree (update.tokens ++ closes.1 :: starts.1 :: (b.tokens ++ [stops.1])
      ++ rest) := by
    simpa [update.commentFree] using hblock
  have hcondition : CommentFree (condition.tokens ++ semi'.1 :: (update.tokens ++ closes.1 ::
      starts.1 :: (b.tokens ++ [stops.1])) ++ rest) := by
    simpa [condition.commentFree] using hupdate
  have hinit : CommentFree (init.tokens ++ semi.1 :: (condition.tokens ++ semi'.1 ::
      (update.tokens ++ closes.1 :: starts.1 :: (b.tokens ++ [stops.1]))) ++ rest) := by
    simpa [init.commentFree] using hcondition
  rw [show (Code.loop word opens ⟨vtype, name, op, init, semi, condition, semi', update⟩ closes
      starts b stops).tokens = [word.1, opens.1] ++ (vtype.1 :: name.1 :: op.1 :: init.tokens ++
        ([semi.1] ++ (condition.tokens ++ [semi'.1] ++ (update.tokens ++ ([closes.1] ++
          (starts.1 :: (b.tokens ++ [stops.1]))))))) by
    simp [Code.tokens, LoopHeader.tokens]]
  refine Reads.bind (Reads.expectTwo (by simp) (by simp) ?_) ?_
  · simpa [valueTypes] using hinit
  refine Reads.bind (a := Tree.assignmentBy (var (Tree.ofText? vtype.1.text)
    (Tree.ofText? name.1.text)) init.value (.text "=")) (Reads.isAt vtype.2 ?_) ?_
  · -- The start of the loop.
    refine Reads.bind (u := [vtype.1]) (Reads.takeText _ (by simpa using hinit)) ?_
    refine Reads.bind (u := [name.1]) (Reads.expectText (by simp) (by simpa using hinit)) ?_
    refine Reads.bind (u := [op.1]) (Reads.expect (by simp) (by simpa using hinit)) ?_
    refine Reads.bind_pure (reads_phrase init _ ?_ ?_) fun _ => rfl
    · simpa using hcondition
    · simp [semicolon_notMem_follow]
  refine Reads.bind (Reads.expect (by simp) (by simpa using hcondition)) ?_
  refine Reads.bind (reads_ended condition semi' (by simpa using hupdate)) ?_
  refine Reads.bind (reads_phrase update _ (by simpa using hblock) ?_) ?_
  · simp [rightParen_notMem_follow]
  refine Reads.bind (Reads.expect (by simp) hblock) ?_
  exact Reads.bind_pure (hinner b hlen starts stops rest hrest) fun _ => rfl

theorem reads_statement (s : Code .statement) (hlen : s.tokens.length ≤ n) :
    ReadsUpTo branchEnds (statementWith inner) s.tokens s.value := by
  intro rest hrest hstop
  cases s with
  | plain s => exact reads_plain s hrest
  | branch word first others =>
    refine Reads.kind ?_
    rw [Code.tokens, List.cons_append, firstKind_cons, word.kind_eq]
    exact reads_branch hinner word first others hlen hrest hstop
  | loop word opens header closes starts b stops =>
    simp only [Code.tokens, List.length_cons, List.length_append] at hlen
    refine Reads.kind ?_
    rw [Code.tokens, List.cons_append, firstKind_cons, word.kind_eq]
    exact reads_loop hinner word opens header closes starts b stops (by omega) hrest

theorem reads_statements (rest : List Token) (b : Code .block) (hlen : b.tokens.length ≤ n)
    (hrest : CommentFree rest) (hend : firstKind rest = .rightBrace) :
    Reads (many (isNotAt [.rightBrace]) (statementWith inner)) b.tokens b.value rest := by
  match b with
  | .empty => exact Reads.many_stop fun pos => by simp [hend]
  | .next s more =>
    simp only [Code.tokens, List.length_append] at hlen
    have hmore := reads_statements rest more (by omega) hrest hend
    have hgo := statementStarts_go _ (s.firstKind_statement (more.tokens ++ rest))
    have hnext : firstKind (more.tokens ++ rest) ∉ branchEnds := by
      rcases List.mem_cons.1 (more.firstKind_block rest) with hk | hk
      · rw [hk, hend]
        decide
      · exact (statementStarts_go _ hk).2
    have hfirst := reads_statement hinner s (by omega) _ (by simp [more.commentFree, hrest]) hnext
    refine Reads.many_step (fun pos => by simpa using hgo.1) (fun h => ?_) hfirst hmore
    exact absurd (h ▸ s.firstKind_statement []) (by decide)
termination_by sizeOf b

end Nested

/-- A block within a bound on its tokens is read within that bound on nesting. -/
theorem reads_blockAt (n : Nat) (b : Code .block) (hlen : b.tokens.length < n)
    (starts : TokenOf [.leftBrace]) (stops : TokenOf [.rightBrace]) (rest : List Token)
    (hrest : CommentFree rest) :
    Reads (blockAt n) (starts.1 :: (b.tokens ++ [stops.1])) b.value rest := by
  induction n generalizing b starts stops rest with
  | zero => omega
  | succ n ih =>
    refine Reads.bind (u := [starts.1]) (Reads.expect (by simp) ?_) ?_
    · simp [b.commentFree, hrest]
    refine Reads.bind (reads_statements ih _ b (by omega) (by simp [hrest]) (by simp)) ?_
    exact Reads.bind_pure (Reads.expect (by simp) hrest) fun _ => rfl

theorem reads_block (b : Code .block) (starts : TokenOf [.leftBrace])
    (stops : TokenOf [.rightBrace]) (rest : List Token) (hrest : CommentFree rest) :
    Reads block (starts.1 :: (b.tokens ++ [stops.1])) b.value rest := by
  refine Reads.nested (reads_blockAt _ b ?_ starts stops rest hrest)
  simp only [List.length_append, List.length_cons]
  omega

/-! ## §3 Functions -/

theorem reads_parameter {rest : List Token} (p : Param) (hrest : CommentFree rest)
    (hsemantic : firstKind rest ≠ .semantic) : Reads parameter p.tokens p.tree rest := by
  refine Reads.bind (u := [p.vtype.1.1]) (Reads.takeText _ (by simp [hrest])) ?_
  refine Reads.bind (u := [p.name.1]) (v := []) (Reads.expectText (by simp) hrest) ?_
  exact Reads.bind_pure (Reads.accept_none hsemantic) fun _ => rfl

theorem reads_params {rest : List Token} (ps : Params) (hrest : CommentFree rest)
    (hclose : firstKind rest = .rightParen) : Reads parameters ps.tokens ps.trees rest := by
  have hfirst : ∀ k ∈ headerTypes, k ≠ .rightParen := by decide
  induction ps with
  | one p =>
    refine Reads.untilClose_last (reads_parameter p hrest (by simp [hclose])) ?_ hclose (by decide)
    exact hfirst _ p.vtype.1.2
  | more p comma ps ih =>
    have hps : CommentFree (ps.tokens ++ rest) := commentFree_append.2 ⟨ps.commentFree, hrest⟩
    refine Reads.untilClose_cons comma.kind_eq ?_ ?_ hps ih
    · exact reads_parameter p (by simpa using hps) (by simp)
    · exact hfirst _ p.vtype.1.2

/-- A function is read as its tree. -/
theorem reads_function (f : Function) (rest : List Token) (hrest : CommentFree rest) :
    Reads function f.tokens f.tree rest := by
  obtain ⟨vtype, name, opens, params, closes, starts, b, stops⟩ := f
  have hblock : CommentFree (starts.1 :: (b.tokens ++ [stops.1]) ++ rest) := by
    simp [b.commentFree, hrest]
  have hparams : CommentFree (params.elim [] Params.tokens ++ ([closes.1] ++
      (starts.1 :: (b.tokens ++ [stops.1]))) ++ rest) := by
    cases params with
    | none => simpa using hblock
    | some ps => simpa [ps.commentFree] using hblock
  rw [show Function.tokens ⟨vtype, name, opens, params, closes, starts, b, stops⟩ =
    [vtype.1.1] ++ ([name.1] ++ ([opens.1] ++ (params.elim [] Params.tokens ++ ([closes.1] ++
      (starts.1 :: (b.tokens ++ [stops.1])))))) by simp [Function.tokens]]
  refine Reads.bind (Reads.takeText _ (by simpa using hparams)) ?_
  refine Reads.bind (Reads.expectText (by simp) (by simpa using hparams)) ?_
  refine Reads.bind (Reads.expect (by simp) hparams) ?_
  refine Reads.bind (a := params.elim [] Params.trees) ?_ ?_
  · cases params with
    | none => exact Reads.untilClose_nil (by simp)
    | some ps => exact reads_params ps (by simpa using hblock) (by simp)
  refine Reads.bind (Reads.expect (by simp) hblock) ?_
  refine Reads.bind (u := []) (Reads.accept_none (by simp)) ?_
  exact Reads.bind_pure (reads_block b starts stops rest hrest) fun _ => rfl

end ShaderBridge.Hlsl
