import ShaderBridge.Proofs.CrossGl.Code
import ShaderBridge.Proofs.CrossGl.Recognition
import ShaderBridge.Proofs.Forward.Statement

/-!
# Statements rule by rule

How the grammar reads each form of statement, given how it reads the parts.  The parts are any
tokens that are read as what the form asks for, so a rule serves every class of expressions and
blocks.
-/

namespace ShaderBridge.CrossGl

open ShaderBridge.Parser Ladder

/-! ## §1 Plain statements -/

variable {rest v w : List Token} {value : Tree} {α : Type} {f : Tree → Parser α} {a : α}

theorem reads_target
    (name : TokenOf [.identifier]) (ms : List Member) (hw : CommentFree (w ++ rest))
    (hdot : firstKind (w ++ rest) ≠ .dot)
    (h : Reads (f (Member.tree (Tree.ofText? name.1.text) ms)) w a rest) :
    Reads (do
      let first ← expectText tv .identifier
      f (← if ← isAt [.dot] then memberChain tv first else pure first))
      (name.1 :: Member.tokens ms ++ w) a rest := by
  refine Reads.bind (u := [name.1]) (Reads.expectText name.kind_eq ?_) ?_
  · simpa [Member.commentFree] using hw
  · cases ms with
    | nil => exact Reads.isAt_not (by simpa using hdot) (Reads.bind (u := []) Reads.pure h)
    | cons m ms =>
      exact Reads.isAt (by simp) (Reads.bind (reads_memberChain _ m ms hw hdot) h)

theorem reads_declared (vtype : Tree) (inUpdate : Bool)
    (name : TokenOf [.identifier]) (ms : List Member) (ends : TokenOf [.semicolon])
    (hrest : CommentFree rest) :
    Reads (declaration vtype inUpdate) (name.1 :: Member.tokens ms ++ [ends.1])
      (Tree.var vtype (Member.tree (Tree.ofText? name.1.text) ms)) rest := by
  refine reads_target name ms (by simp [hrest]) (by simp) (Reads.kind ?_)
  rw [List.cons_append, firstKind_cons, if_pos ends.kind_eq]
  exact Reads.bind_pure (Reads.take _ hrest) fun _ => rfl

/-- The tree of an assignment to a name with its members. -/
def assignedTree (vtype : Tree) (name : Token) (ms : List Member) (op : Token) (value : Tree) :
    Tree :=
  Tree.binary (Tree.var vtype (Member.tree (Tree.ofText? name.text) ms))
    (Tree.ofText? op.text) value

/-- An assignment, given how its end is read: a semicolon, or nothing in a header. -/
theorem reads_assigned (vtype : Tree) (inUpdate : Bool)
    (name : TokenOf [.identifier]) (ms : List Member) (op : TokenOf assignOperators)
    (hvalue : Reads expression v value (w ++ rest)) (hfree : CommentFree (v ++ (w ++ rest)))
    (hdot : firstKind (w ++ rest) ≠ .dot)
    (hend : Reads (do
      if ← isAt [.semicolon] then
        let _ ← take tv
      else if !inUpdate then
        reject (.expectedHere "';' after variable assignment" (← kind))
      return assignedTree vtype name.1 ms op.1 value) w
        (assignedTree vtype name.1 ms op.1 value) rest) :
    Reads (declaration vtype inUpdate) (name.1 :: Member.tokens ms ++ op.1 :: (v ++ w))
      (assignedTree vtype name.1 ms op.1 value) rest := by
  have hop : ∀ k ∈ assignOperators, k.isComment = false ∧ k ≠ .dot ∧ k ≠ .semicolon := by decide
  obtain ⟨hcomment, hnoDot, hsemicolon⟩ := hop _ op.2
  refine reads_target name ms ?_ hnoDot (Reads.kind ?_)
  · exact commentFree_cons.2 ⟨hcomment, by simpa using hfree⟩
  rw [List.cons_append, firstKind_cons, if_neg hsemicolon, if_pos op.2]
  refine Reads.bind (u := [op.1]) (Reads.takeText _ (by simpa using hfree)) (Reads.bind hvalue ?_)
  exact Reads.isAt_not (by simpa using hdot) (Reads.bind (u := []) Reads.pure hend)

theorem reads_localType
    (t : LocalType) (hw : CommentFree (w ++ rest)) (hfirst : firstKind (w ++ rest) = .identifier)
    (h : Reads (f t.tree) w a rest) :
    Reads (do f (← if ← isAt valueTypes then takeText tv else pure (.text [])))
      (t.tokens ++ w) a rest := by
  cases t with
  | none =>
    refine Reads.isAt_not ?_ (Reads.bind (u := []) Reads.pure h)
    rw [LocalType.tokens, List.nil_append, hfirst]
    decide
  | some t =>
    refine Reads.isAt (t.mem (by decide)) ?_
    exact Reads.bind (u := [t.1]) (Reads.takeText _ hw) h

theorem reads_declaredLine (t : LocalType) (name : TokenOf [.identifier])
    (ms : List Member) (ends : TokenOf [.semicolon]) (hrest : CommentFree rest) :
    Reads (plainStatement false) (t.tokens ++ (name.1 :: Member.tokens ms ++ [ends.1]))
      (Tree.var t.tree (Member.tree (Tree.ofText? name.1.text) ms)) rest :=
  reads_localType t (by simp [Member.commentFree, hrest]) (by simp)
    (Reads.isAt (by simp) (reads_declared t.tree false name ms ends hrest))

theorem reads_assignedLine (t : LocalType)
    (name : TokenOf [.identifier]) (ms : List Member) (op : TokenOf assignOperators)
    (ends : TokenOf [.semicolon]) (hvalue : Reads expression v value (ends.1 :: rest))
    (hfree : CommentFree v) (hrest : CommentFree rest) :
    Reads (plainStatement false)
      (t.tokens ++ (name.1 :: Member.tokens ms ++ op.1 :: (v ++ [ends.1])))
      (assignedTree t.tree name.1 ms op.1 value) rest := by
  have hop : ∀ k ∈ assignOperators, k.isComment = false := by decide
  refine reads_localType t ?_ (by simp) (Reads.isAt (by simp) ?_)
  · simp [Member.commentFree, hop _ op.2, hfree, hrest]
  refine reads_assigned t.tree false name ms op hvalue (by simp [hfree, hrest]) (by simp) ?_
  exact Reads.isAt (by simp) (Reads.bind_pure (Reads.take _ hrest) fun _ => rfl)

/-! ## §2 Updates -/

theorem ofText?_eq {t : Token} (h : t.text.isSome) :
    Tree.ofText? t.text = .text (t.text.getD []) := by
  obtain ⟨s, hs⟩ := Option.isSome_iff_exists.1 h
  rw [hs]
  rfl

/-- An update that counts is a name with a step on one side of it. -/
theorem reads_count (u : Update) (hu : ∀ a, u ≠ .assigned a)
    (htext : ∀ t ∈ u.tokens, t.text.isSome) (hrest : CommentFree rest) :
    Reads update u.tokens u.tree rest := by
  cases u with
  | after name step =>
    simp only [Update.tokens, List.mem_cons, forall_eq_or_imp] at htext
    refine Reads.kind ?_
    rw [Update.tokens, List.cons_append, firstKind_cons, if_pos name.kind_eq]
    refine Reads.bind (u := [name.1]) (Reads.takeText _ (by simp [hrest])) ?_
    refine Reads.isAt (by simpa using step.2) ?_
    refine Reads.bind_pure (Reads.takeText _ hrest) fun c => ?_
    rw [ofText?_eq htext.1, ofText?_eq htext.2.1]
    rfl
  | before step name =>
    simp only [Update.tokens, List.mem_cons, forall_eq_or_imp] at htext
    refine Reads.kind ?_
    rw [Update.tokens, List.cons_append, firstKind_cons, if_neg (by simp), if_pos step.2]
    refine Reads.bind (u := [step.1]) (Reads.takeText _ (by simp [hrest])) ?_
    refine Reads.isAt (by simp) ?_
    refine Reads.bind_pure (Reads.takeText _ hrest) fun c => ?_
    rw [ofText?_eq htext.1, ofText?_eq htext.2.1]
    rfl
  | assigned a => exact absurd rfl (hu a)

/-- The update of a loop. -/
def loopUpdate : Parser Tree := do
  if (← lookahead 2).kind = .rightParen then update else plainStatement true

theorem reads_loopUpdate {u : List Token} {step : Tree}
    (hu : Reads loopUpdate u step (w ++ rest)) (hw : Reads (f step) w a rest) :
    Reads (do f (← if (← lookahead 2).kind = .rightParen then update else plainStatement true))
      (u ++ w) a rest := by
  have h := Reads.bind hu hw
  rw [loopUpdate, bind_assoc] at h
  refine (congrArg (Reads · (u ++ w) a rest) (bind_congr fun t => ?_)).mp h
  split <;> rfl

theorem reads_loopCount (u : Update) (hu : ∀ a, u ≠ .assigned a)
    (htext : ∀ t ∈ u.tokens, t.text.isSome) (closes : TokenOf [.rightParen])
    (hrest : CommentFree rest) : Reads loopUpdate u.tokens u.tree (closes.1 :: rest) := by
  have hlook : (u.tokens ++ closes.1 :: rest)[2]? = some closes.1 := by
    cases u with
    | after | before => rfl
    | assigned a => exact absurd rfl (hu a)
  refine Reads.lookahead hlook ?_
  rw [if_pos closes.kind_eq]
  exact reads_count u hu htext (by simp [hrest])

/-- An update that assigns, in front of the parenthesis that closes the header of a loop.  Two
tokens ahead there is no parenthesis yet, since a value takes at least one token. -/
theorem reads_loopAssigned (name : TokenOf [.identifier])
    (ms : List Member) (op : TokenOf assignOperators) (closes : TokenOf [.rightParen])
    (hvalue : Reads expression v value (closes.1 :: rest))
    (hstart : ∃ t v', v = t :: v' ∧ t.kind ≠ .rightParen) (hfree : CommentFree v)
    (hrest : CommentFree rest) :
    Reads loopUpdate (name.1 :: Member.tokens ms ++ op.1 :: v)
      (assignedTree (.text []) name.1 ms op.1 value) (closes.1 :: rest) := by
  have hop : ∀ k ∈ assignOperators, k.isComment = false := by decide
  -- The third token is a member, or the first of the value.
  have hlook : ∃ t, (name.1 :: Member.tokens ms ++ op.1 :: v ++ closes.1 :: rest)[2]? = some t ∧
      t.kind ≠ .rightParen := by
    cases ms with
    | nil =>
      obtain ⟨t, v', rfl, ht⟩ := hstart
      exact ⟨t, rfl, ht⟩
    | cons m ms => exact ⟨m.2.1, rfl, by simp⟩
  obtain ⟨t, ht, hne⟩ := hlook
  refine Reads.lookahead ht ?_
  rw [if_neg hne]
  have hdeclaration : Reads (declaration (.text []) true)
      (name.1 :: Member.tokens ms ++ op.1 :: (v ++ []))
      (assignedTree (.text []) name.1 ms op.1 value) (closes.1 :: rest) :=
    reads_assigned (.text []) true name ms op hvalue (by simp [hfree, hrest]) (by simp)
      (Reads.isAt_not (by simp) Reads.pure)
  rw [List.append_nil] at hdeclaration
  exact reads_localType none (by simp [Member.commentFree, hop _ op.2, hfree, hrest]) (by simp)
    (Reads.isAt (by simp) hdeclaration)

/-! ## §3 Statements -/

/-- What a block is read up to. -/
def blockEnds : List TokenKind := [.rightBrace, .endOfInput]

theorem statementStarts_go : ∀ k ∈ statementStarts, k ∉ blockEnds ∧ k ≠ .elseWord := by decide

theorem reads_returned {values : List Tree} (word : TokenOf [.returnWord])
    (ends : TokenOf [.semicolon])
    (hvalues : Reads (sepBy tv .comma expression) v values (ends.1 :: rest))
    (hfree : CommentFree v) (hrest : CommentFree rest) :
    Reads returnStatement (word.1 :: (v ++ [ends.1])) (Tree.returned (.list values)) rest := by
  refine Reads.bind (u := [word.1]) (Reads.expect (by simp) (by simp [hfree, hrest])) ?_
  exact Reads.bind hvalues (Reads.bind_pure (Reads.expect (by simp) hrest) fun _ => rfl)

/-- A statement that begins with nothing but itself goes no further into a branch. -/
theorem atElseIf_of_ne (h : firstKind rest ≠ .elseWord) (pos : Nat) :
    atElseIf ⟨pos, rest⟩ = .ok false ⟨pos, rest⟩ := by
  rw [atElseIf, isAt_bind, Cursor.kind_mk, decide_eq_false (by simpa using h)]
  rfl

/-- Behind `else` the next token tells whether the branch goes on with a condition. -/
theorem atElseIf_else {t u : Token} (ht : t.kind = .elseWord) (pos : Nat) :
    atElseIf ⟨pos, t :: u :: rest⟩ = .ok (decide (u.kind = .ifWord)) ⟨pos, t :: u :: rest⟩ := by
  rw [atElseIf, isAt_bind, Cursor.kind_mk, firstKind_cons, decide_eq_true (by simpa using ht)]
  rfl

section Nested

variable {inner : Parser (List Tree)} {stmts : List Tree} {b rest : List Token}

theorem reads_closed {α : Type} {f : List Tree → Parser α} {a : α} (stops : TokenOf [.rightBrace])
    (hb : Reads inner b stmts (stops.1 :: rest)) (hrest : CommentFree rest)
    (hf : ∀ c, f stmts c = .ok a c) :
    Reads (do
      let stmts ← inner
      let _ ← expect tv .rightBrace
      f stmts) (b ++ [stops.1]) a rest :=
  Reads.bind hb (Reads.bind_pure (Reads.expect (by simp) hrest) hf)

/-- The tokens of a condition in parentheses and a block in braces. -/
def guardedTokens (opens : TokenOf [.leftParen]) (v : List Token) (closes : TokenOf [.rightParen])
    (starts : TokenOf [.leftBrace]) (b : List Token) (stops : TokenOf [.rightBrace]) : List Token :=
  opens.1 :: (v ++ closes.1 :: starts.1 :: (b ++ [stops.1]))

theorem reads_guarded {v : List Token} {condition : Tree} (opens : TokenOf [.leftParen])
    (closes : TokenOf [.rightParen]) (starts : TokenOf [.leftBrace]) (stops : TokenOf [.rightBrace])
    (hv : Reads expression v condition (closes.1 :: (starts.1 :: (b ++ [stops.1]) ++ rest)))
    (hb : Reads inner b stmts (stops.1 :: rest)) (hfree : CommentFree v) (hblock : CommentFree b)
    (hrest : CommentFree rest) :
    Reads (guarded inner) (guardedTokens opens v closes starts b stops)
      (condition, stmts) rest := by
  have hbody : CommentFree (b ++ [stops.1] ++ rest) := by simp [hblock, hrest]
  have hparens := reads_parenthesized opens closes hfree (by simpa using hbody) hv
  have hwords : guardedTokens opens v closes starts b stops
      = opens.1 :: (v ++ [closes.1]) ++ (starts.1 :: (b ++ [stops.1])) := by
    simp [guardedTokens]
  rw [hwords]
  refine Reads.bind hparens (Reads.bind (u := [starts.1]) (Reads.expect (by simp) hbody) ?_)
  exact reads_closed stops hb hrest fun _ => rfl

/-- The further conditions of a branch. -/
def alternatives (inner : Parser (List Tree)) : Parser (List (Tree × List Tree)) :=
  many atElseIf (do expectAll tv [.elseWord, .ifWord]; guarded inner)

theorem reads_alternative {u v : List Token} {arm : Tree × List Tree}
    {arms : List (Tree × List Tree)} (elseWord : TokenOf [.elseWord]) (ifWord : TokenOf [.ifWord])
    (hu : Reads (guarded inner) u arm (v ++ rest)) (hv : Reads (alternatives inner) v arms rest)
    (hfree : CommentFree (u ++ (v ++ rest))) :
    Reads (alternatives inner) (elseWord.1 :: ifWord.1 :: u ++ v) (arm :: arms) rest := by
  have hround := Reads.bind (u := [elseWord.1, ifWord.1]) (f := fun _ => guarded inner)
    (Reads.expectTwo elseWord.kind_eq ifWord.kind_eq (by simpa using hfree)) hu
  refine Reads.many_step (u := elseWord.1 :: ifWord.1 :: u) (fun pos => ?_) (by simp) hround hv
  simpa using atElseIf_else (u := ifWord.1) elseWord.kind_eq pos

/-- What may stand behind the conditions of a branch. -/
def elseBranch (inner : Parser (List Tree)) : Parser Tree := do
  if ← isAt [.elseWord] then
    expectAll tv [.elseWord, .leftBrace]
    let stmts ← inner
    let _ ← expect tv .rightBrace
    pure (.list stmts)
  else pure .absent

theorem reads_ending {f : Tree → Parser Tree} {w : List Token} {last t : Tree}
    (hw : Reads (elseBranch inner) w last rest) (hf : ∀ c, f last c = .ok t c) :
    Reads (do
      f (← if ← isAt [.elseWord] then do
          expectAll tv [.elseWord, .leftBrace]
          let stmts ← inner
          let _ ← expect tv .rightBrace
          pure (.list stmts)
        else pure .absent)) w t rest := by
  have h := Reads.bind_pure hw hf
  rw [elseBranch, bind_assoc] at h
  refine (congrArg (Reads · w t rest) (bind_congr fun b => ?_)).mp h
  cases b with
  | false => rfl
  | true =>
    simp only [if_true, bind_assoc]

theorem reads_noElse (h : firstKind rest ≠ .elseWord) : Reads (elseBranch inner) [] .absent rest :=
  Reads.isAt_not (by simpa using h) Reads.pure

theorem reads_else (elseWord : TokenOf [.elseWord]) (starts : TokenOf [.leftBrace])
    (stops : TokenOf [.rightBrace]) (hb : Reads inner b stmts (stops.1 :: rest))
    (hblock : CommentFree b) (hrest : CommentFree rest) :
    Reads (elseBranch inner) (elseWord.1 :: starts.1 :: (b ++ [stops.1])) (.list stmts) rest := by
  refine Reads.isAt (by simp) ?_
  refine Reads.bind (u := [elseWord.1, starts.1]) (Reads.expectTwo (by simp) (by simp) ?_) ?_
  · simp [hblock, hrest]
  · exact reads_closed stops hb hrest fun _ => rfl

theorem reads_if {u v w : List Token} {first : Tree × List Tree}
    {others : List (Tree × List Tree)} {last : Tree} (word : TokenOf [.ifWord])
    (hu : Reads (guarded inner) u first (v ++ (w ++ rest)))
    (hv : Reads (alternatives inner) v others (w ++ rest))
    (hw : Reads (elseBranch inner) w last rest)
    (hfree : CommentFree (u ++ (v ++ (w ++ rest)))) :
    Reads (branchWith inner) (word.1 :: (u ++ (v ++ w)))
      (Forward.branchTree first others last) rest := by
  refine Reads.bind (u := [word.1]) (Reads.expect (by simp) (by simpa using hfree)) ?_
  refine Reads.bind (by simpa using hu) (Reads.bind hv ?_)
  exact reads_ending hw fun _ => rfl

/-- A loop, given how its clauses and its body are read. -/
theorem reads_for {i c u : List Token} {init condition step : Tree} (word : TokenOf [.forWord])
    (opens : TokenOf [.leftParen]) (closes : TokenOf [.rightParen]) (starts : TokenOf [.leftBrace])
    (stops : TokenOf [.rightBrace])
    (hi : ∀ rest, CommentFree rest → Reads (plainStatement false) i init rest)
    (hc : ∀ rest, CommentFree rest → Reads (plainStatement false) c condition rest)
    (hu : ∀ rest, CommentFree rest → Reads loopUpdate u step (closes.1 :: rest))
    (hb : Reads inner b stmts (stops.1 :: rest))
    (hfree : CommentFree (i ++ (c ++ u))) (hblock : CommentFree b) (hrest : CommentFree rest) :
    Reads (forWith inner)
      (word.1 :: opens.1 :: (i ++ (c ++ (u ++ closes.1 :: starts.1 :: (b ++ [stops.1])))))
      (Tree.forLoop init condition step stmts) rest := by
  simp only [commentFree_append] at hfree
  obtain ⟨hif, hcf, huf⟩ := hfree
  refine Reads.bind (u := [word.1, opens.1]) (Reads.expectTwo (by simp) (by simp) ?_) ?_
  · simp [hif, hcf, huf, hblock, hrest]
  refine Reads.bind (hi _ (by simp [hcf, huf, hblock, hrest])) ?_
  refine Reads.bind (hc _ (by simp [huf, hblock, hrest])) ?_
  have hupdate := hu (starts.1 :: (b ++ [stops.1]) ++ rest) (by simp [hblock, hrest])
  refine reads_loopUpdate (by simpa using hupdate) ?_
  refine Reads.bind (u := [closes.1, starts.1]) (Reads.expectTwo (by simp) (by simp) ?_) ?_
  · simp [hblock, hrest]
  exact reads_closed stops hb hrest fun _ => rfl

end Nested

/-! ## §4 Functions -/

variable {rest : List Token}

theorem reads_typeName (t : TokenOf headerTypes) (hrest : CommentFree rest) :
    Reads typeName [t.1] (typeTree t) rest := by
  refine Reads.kind ?_
  rw [List.cons_append, firstKind_cons, typeTree]
  by_cases hvoid : t.1.kind = .voidType
  · rw [if_pos hvoid, if_pos hvoid]
    exact Reads.bind_pure (Reads.take _ hrest) fun _ => rfl
  · have hk : t.1.kind ∈ interfaceTypes || t.1.kind = .identifier := by
      have := t.2
      simp only [headerTypes, List.mem_cons, hvoid, false_or] at this
      simpa [or_comm] using this
    rw [if_neg hvoid, if_neg hvoid, if_pos hk]
    exact Reads.takeText _ hrest

theorem reads_parameter (p : Param) (hrest : CommentFree rest) :
    Reads parameter p.tokens p.tree rest :=
  Reads.bind (u := [p.vtype.1]) (reads_typeName p.vtype (by simp [hrest]))
    (Reads.bind_pure (Reads.expectText p.name.kind_eq hrest) fun _ => rfl)

theorem reads_furtherParams (ps : Params) (comma : TokenOf [.comma])
    (hrest : CommentFree rest) (hcomma : firstKind rest ≠ .comma) :
    Reads (many (isAt [.comma]) (do let _ ← take .comments; parameter)) (comma.1 :: ps.tokens)
      ps.trees rest := by
  induction ps generalizing comma with
  | one p =>
    have hround := Reads.bind (u := [comma.1]) (f := fun _ => parameter)
      (Reads.take _ (by simpa [Params.tokens] using ⟨(Params.one p).commentFree, hrest⟩))
      (reads_parameter p hrest)
    have hend : Reads (many (isAt [.comma]) (do let _ ← take .comments; parameter)) [] [] rest :=
      Reads.many_stop (by simp [hcomma])
    simpa [Params.tokens, Params.trees] using Reads.many_step (by simp) (by simp) hround hend
  | more p comma' ps ih =>
    have hps : CommentFree (comma'.1 :: ps.tokens ++ rest) := by simp [ps.commentFree, hrest]
    have hp := (Params.one p).commentFree
    have hround := Reads.bind (u := [comma.1]) (f := fun _ => parameter)
      (Reads.take _ (commentFree_append.2 ⟨hp, hps⟩)) (reads_parameter p hps)
    exact Reads.many_step (u := comma.1 :: p.tokens) (by simp) (by simp) hround (ih comma')

/-- Parameters are read up to the closing parenthesis, also if there are none. -/
theorem reads_parameters (params : Option Params) (closes : TokenOf [.rightParen])
    (rest : List Token) (hrest : CommentFree rest) :
    Reads parameters (params.elim [] Params.tokens) (params.elim [] Params.trees)
      (closes.1 :: rest) := by
  have hcloses : CommentFree (closes.1 :: rest) := by simp [hrest]
  cases params with
  | none => exact Reads.isAt (by simp) Reads.pure
  | some ps =>
    -- A parameter begins with a type, so the list is not closed at once.
    refine Reads.isAt_not ?_ ?_
    · have hk : ∀ k ∈ headerTypes, k ∉ [.rightParen] := by decide
      cases ps with
      | one p => exact hk _ p.vtype.2
      | more p => exact hk _ p.vtype.2
    · cases ps with
      | one p =>
        have hend : Reads (many (isAt [.comma]) (do let _ ← take .comments; parameter)) [] []
            (closes.1 :: rest) := Reads.many_stop (by simp)
        simpa [Params.tokens, Params.trees] using
          Reads.sepBy (u := p.tokens) (reads_parameter p hcloses) hend
      | more p comma ps =>
        have hps : CommentFree (comma.1 :: ps.tokens ++ closes.1 :: rest) := by
          simp [ps.commentFree, hrest]
        exact Reads.sepBy (reads_parameter p hps)
          (reads_furtherParams ps comma hcloses (by simp))

/-- The tokens of a function with any tokens as its body. -/
def functionTokens (vtype : TokenOf headerTypes) (name : TokenOf [.mainWord, .identifier])
    (opens : TokenOf [.leftParen]) (params : Option Params) (closes : TokenOf [.rightParen])
    (starts : TokenOf [.leftBrace]) (b : List Token) (stops : TokenOf [.rightBrace]) : List Token :=
  vtype.1 :: name.1 :: opens.1 :: (params.elim [] Params.tokens ++
    closes.1 :: starts.1 :: (b ++ [stops.1]))

/-- A function is read if its body is. -/
theorem reads_functionTokens {b : List Token} {stmts : List Tree} (vtype : TokenOf headerTypes)
    (name : TokenOf [.mainWord, .identifier]) (opens : TokenOf [.leftParen])
    (params : Option Params)
    (closes : TokenOf [.rightParen]) (starts : TokenOf [.leftBrace]) (stops : TokenOf [.rightBrace])
    (hb : Reads body b stmts (stops.1 :: rest)) (hblock : CommentFree b)
    (hrest : CommentFree rest) :
    Reads function (functionTokens vtype name opens params closes starts b stops)
      (Tree.function (typeTree vtype) (Tree.ofText? name.1.text)
        (params.elim [] Params.trees) stmts)
      rest := by
  have hbody : CommentFree (b ++ [stops.1] ++ rest) := by simp [hblock, hrest]
  have hparams : CommentFree (params.elim [] Params.tokens ++
      (closes.1 :: starts.1 :: (b ++ [stops.1])) ++ rest) := by
    cases params with
    | none => simpa using hbody
    | some ps => simpa [ps.commentFree] using hbody
  refine Reads.bind (u := [vtype.1]) (reads_typeName vtype (by simpa using hparams)) ?_
  refine Reads.isNotAt name.2 ?_
  refine Reads.bind (u := [name.1]) (Reads.takeText _ (by simpa using hparams)) ?_
  refine Reads.bind (u := [opens.1]) (Reads.expect (by simp) hparams) ?_
  refine Reads.bind (reads_parameters params closes _ (by simpa using hbody)) ?_
  refine Reads.bind (u := [closes.1, starts.1]) (Reads.expectTwo (by simp) (by simp) ?_) ?_
  · simpa using hbody
  · exact reads_closed stops hb hrest fun _ => rfl

end ShaderBridge.CrossGl
