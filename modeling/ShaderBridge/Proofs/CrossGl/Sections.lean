import ShaderBridge.Proofs.CrossGl.Shapes
import ShaderBridge.Proofs.Framing

/-!
# The items of a CrossGL section

A section is a list of declarations, functions and statements in any order.  What each of them gives
when it stands alone (`Alone`, `IsItem`) it also gives between its neighbours: no construct of the
grammar goes on into the next item (§1 to §5, after `Frames`), the third token tells a function from
a statement (§6), and declarations that are read in one batch are those that stand there (§7).  So
the lists of a section hold the results of its items, each once and in order
(`section_sorts_items`).
-/

namespace ShaderBridge.CrossGl

open ShaderBridge.Parser Ladder

variable {α : Type}

/-! ## §1 Expressions -/

/-- The kinds that a construct may go on with, so that none of them may follow it. -/
def continuing : List TokenKind :=
  outerOperators ++ [.question, .dot, .leftParen, .rightParen, .comma, .semicolon, .elseWord]

section Constructs

variable {F : List TokenKind} (hF : Avoids F continuing) {expr expr' : Parser Tree}

include hF

theorem avoids {ks : List TokenKind} (hks : ∀ k ∈ ks, k ∈ continuing) : Avoids F ks :=
  fun k hk hmem => hF k hk (hks k hmem)

theorem frames_nameOrCallWith (h : Frames F expr expr') :
    FramesAt F (fun c => c.rest ≠ []) (nameOrCallWith expr) (nameOrCallWith expr') := by
  refine .cond (by decide) (.inl fun _ => id) (.takeText (.takeOf (by decide)))
    (.expectText (by decide)) fun name => ?_
  -- Three ways to go on behind a name, the last one also at the end.
  refine .kindAmong (p := pure (Tree.var (.text []) name)) (by decide : _ ∉ [.leftParen, .dot])
    (avoids hF (by decide)) ?_ .pure ?_
  · simp only [List.forall_mem_cons, List.not_mem_nil, false_imp_iff, implies_true, and_true]
    exact ⟨(FramesAt.strictArguments (avoids hF (by decide)) h).bind fun _ => .pure,
      .memberChain (avoids hF (by decide)) name⟩
  · intro k hk
    constructor <;> split <;> simp_all

theorem frames_primaryWith (h : Frames F expr expr') :
    Frames F (primaryWith expr) (primaryWith expr') := by
  refine .ahead (.kind (fun _ hc => hc.1) fun k => ?_) (Needs.kind .reject)
  split
  · exact .parenthesized h
  split
  · exact .takeText (.take fun _ hc => hc.2.1)
  split
  · exact fun c a c' hc hk => frames_nameOrCallWith hF h c a c' hc hk.2.1
  · exact .reject

theorem frames_expressionWith (h : Frames F expr expr') :
    Frames F (expressionWith expr) (expressionWith expr') := by
  have hsigned : Frames F (unaryWith expr) (unaryWith expr') :=
    (FramesAt.many looks_isAt (.asks (by decide) (avoids hF (by decide)))
      (.take fun _ hc => rest_ne_nil fun hend => by simp [hend] at hc)).bind fun _ =>
        (frames_primaryWith hF h).bind fun _ => .pure
  have hsum : Frames F (sumWith expr) (sumWith expr') :=
    .rung (by decide) (avoids hF (by decide))
      (.rung (by decide) (avoids hF (by decide)) hsigned)
  refine .rung (by decide) (avoids hF (by decide)) <| hsum.bind fun condition => ?_
  exact .choice (avoids hF (by decide)) h condition

theorem frames_expressionAt (n m : Nat) (hnm : n ≤ m) :
    Frames F (expressionAt n) (expressionAt m) := by
  induction n generalizing m with
  | zero => exact .throw
  | succ n ih =>
    obtain ⟨m, rfl⟩ : ∃ m', m = m' + 1 := ⟨m - 1, by omega⟩
    exact frames_expressionWith hF (ih m (by omega))

theorem frames_expression : Frames F expression expression :=
  .nested (frames_expressionAt hF)

/-! ## §2 Plain statements -/

theorem frames_members {object : Tree} {f : Tree → Parser Tree} (hf : ∀ t, Frames F (f t) (f t)) :
    Frames F (do f (← if ← isAt [.dot] then memberChain tv object else pure object))
      (do f (← if ← isAt [.dot] then memberChain tv object else pure object)) :=
  .cond (by decide) (.inr (avoids hF (by decide))) (.memberChain (avoids hF (by decide)) object)
    .pure hf

theorem frames_declaration (vtype : Tree) (inUpdate : Bool) :
    Frames F (declaration vtype inUpdate) (declaration vtype inUpdate) := by
  refine (FramesAt.expectText (by decide)).bind fun first => ?_
  refine frames_members hF fun name => ?_
  refine .ahead (.kind (fun _ hc => hc.1) fun k => ?_) (Needs.kind .reject)
  split
  · exact (FramesAt.take fun _ hc => hc.2.1).bind fun _ => .pure
  split
  · refine (FramesAt.takeText (.take fun _ hc => hc.2.1)).bind fun op => ?_
    apply (frames_expression hF).bind
    intro e
    refine frames_members hF fun value => ?_
    refine .isAt (by decide) (.inr (avoids hF (by decide)))
      ((FramesAt.takeOf (by decide)).bind fun _ => .pure) ?_
    cases inUpdate with
    | true => exact .pure
    | false => rintro c _ _ - - ⟨⟩
  · exact .reject

theorem frames_callOf (target : Tree) : Frames F (callOf target) (callOf target) :=
  (FramesAt.strictArguments (avoids hF (by decide)) (frames_expression hF)).bind fun _ => .pure

theorem frames_assignmentTo (target : Tree) :
    Frames F (assignmentTo target) (assignmentTo target) := by
  refine .check (w := .expectedHere "assignment operator") (by decide) ?_
  refine (FramesAt.takeText (.takeOf (by decide))).bind fun op => ?_
  apply (frames_expression hF).bind
  intro value
  exact (FramesAt.accept (by decide) (avoids hF (by decide))).bind fun _ => .pure

omit hF in
theorem frames_joined (a b : Tree) : Frames F (joined a b) (joined a b) := by
  unfold joined
  split
  · exact .pure
  · exact .throw

/-- A plain statement reads the same tokens whatever follows it. -/
theorem frames_plainStatement (inUpdate : Bool) :
    Frames F (plainStatement inUpdate) (plainStatement inUpdate) := by
  refine .ahead (.cond (by decide) (.inl fun _ hc => hc.1) (.takeText (.takeOf (by decide))) .pure
    fun vtype => .ahead ?_ ?_) (.isAt (by decide) ?_)
  · refine .isAt (by decide) (.inl fun _ hc => hc.1) (frames_declaration hF vtype inUpdate).here ?_
    refine .isAt (by decide) (.inl fun _ hc => hc.2.1) ?_ (.never fun c a c' hk hrun => ?_)
    · -- Behind a step the target is a node, to which no text can be joined.
      simp only [if_true, bind_map_left]
      refine (FramesAt.takeText (.takeOf (by decide))).bind fun op => ?_
      refine (FramesAt.expectText (by decide)).bind fun name => ?_
      apply (frames_joined op name).bind
      intro both
      rw [pure_bind]
      refine .ahead (.kind (fun _ hc => hc.1) fun k => ?_) (Needs.kind .reject)
      split
      · exact (frames_assignmentTo hF _).here
      split
      · refine .never fun c a c' _ hrun => ?_
        obtain ⟨_, _, -, hrun⟩ := bind_eq_ok hrun
        obtain ⟨_, _, -, hrun⟩ := bind_eq_ok hrun
        obtain ⟨_, _, hjoined, -⟩ := bind_eq_ok hrun
        cases hjoined
      split
      · exact (frames_callOf hF _).here
      · exact .reject
    · obtain ⟨_, _, hnone, hrun⟩ := bind_eq_ok hrun
      cases hnone
      obtain ⟨name, d, hname, -⟩ := bind_eq_ok hrun
      obtain ⟨t, e, ht, -⟩ := bind_eq_ok hname
      exact hk.2.1 (List.mem_singleton.2 (expect_eq_ok ht).1)
  · exact .isAt (by decide) (.isAt (by decide) (Needs.expectText (by decide)).bind)
  · simp only [Bool.false_eq_true, if_false, pure_bind]
    exact .isAt (by decide) (.isAt (by decide) (Needs.expectText (by decide)).bind)

theorem frames_returnStatement : Frames F returnStatement returnStatement := by
  refine (FramesAt.expect (by decide)).bind fun _ => ?_
  refine (FramesAt.sepBy (by decide) (avoids hF (by decide)) (frames_expression hF)).bind
    fun _ => ?_
  exact (FramesAt.expect (by decide)).bind fun _ => .pure

/-! ## §3 Compound statements -/

omit hF in
/-- The update of a loop, where something follows in the loop itself. -/
theorem frames_update : Frames [] update update := by
  have hjoin : ∀ a b : Tree, Frames [] (do return Tree.var (.text []) (← joined a b))
      (do return Tree.var (.text []) (← joined a b)) :=
    fun a b => (frames_joined a b).bind fun _ => .pure
  refine .ahead (.kind (fun _ hc => hc.1) fun k => ?_) (Needs.kind .reject)
  split
  · refine (FramesAt.takeText (.take fun _ hc => hc.2.1)).bind fun name => ?_
    refine .isAt (by decide) (.inr avoids_nil) ?_ (.never fun _ _ _ _ => nofun)
    refine (FramesAt.takeText (.takeOf (by decide))).bind fun op => ?_
    exact hjoin name op
  split
  · refine (FramesAt.takeText (.take fun _ hc => hc.2.1)).bind fun op => ?_
    refine .isAt (by decide) (.inr avoids_nil) ?_ .pure
    refine (FramesAt.takeText (.takeOf (by decide))).bind fun name => ?_
    exact hjoin op name
  · exact .reject

section Bodies

variable {body body' : Parser (List Tree)} (hbody : Frames [] body body')

include hbody

omit hF in
theorem frames_closed {g : List Tree → α} : Frames F
    (do let stmts ← body; let _ ← expect tv .rightBrace; return g stmts)
    (do let stmts ← body'; let _ ← expect tv .rightBrace; return g stmts) := by
  refine .close hbody (fun _ => (FramesAt.expect (by decide)).bind fun _ => .pure) fun _ => ?_
  exact (Needs.expect (by decide)).bind

theorem frames_guarded : Frames F (guarded body) (guarded body') := by
  apply (FramesAt.parenthesized (frames_expression hF)).bind
  intro _
  refine (FramesAt.expect (by decide)).bind fun _ => ?_
  exact frames_closed hbody

theorem frames_branchWith : Frames F (branchWith body) (branchWith body') := by
  have hgo : Frames F atElseIf atElseIf :=
    .isAt (by decide) (.inr (avoids hF (by decide))) (FramesAt.lookahead.bind fun _ => .pure) .pure
  refine (FramesAt.expect (by decide)).bind fun _ => ?_
  apply (frames_guarded hF hbody).bind
  intro first
  refine (FramesAt.many looks_atElseIf hgo ?_).bind fun others => ?_
  · refine (FramesAt.expectAll (by decide)).bind fun _ => ?_
    exact frames_guarded hF hbody
  · refine .isAt (by decide) (.inr (avoids hF (by decide))) ?_ (FramesAt.pure.bind fun _ => .pure)
    refine (FramesAt.expectAll (by decide)).bind fun _ => ?_
    exact frames_closed hbody

theorem frames_forWith : Frames F (forWith body) (forWith body') := by
  refine (FramesAt.expectAll (by decide)).bind fun _ => ?_
  apply (frames_plainStatement hF false).bind
  intro init
  apply (frames_plainStatement hF false).bind
  intro condition
  apply FramesAt.lookahead.bind
  intro t
  dsimp only
  split
  · refine .close frames_update
      (fun _ => (FramesAt.expectAll (by decide)).bind fun _ => frames_closed hbody) fun _ => ?_
    exact (Needs.expectAll (by decide)).bind
  · apply (frames_plainStatement hF true).bind
    intro _
    refine (FramesAt.expectAll (by decide)).bind fun _ => ?_
    exact frames_closed hbody

omit hF in
theorem frames_statementWith : Frames [] (statementWith body) (statementWith body') := by
  refine .ahead (.kind (fun _ hc => hc.1) fun k => .here ?_) (Needs.kind .reject)
  split
  · exact frames_branchWith avoids_nil hbody
  split
  · exact frames_forWith avoids_nil hbody
  split
  · exact frames_returnStatement avoids_nil
  split
  · exact frames_plainStatement avoids_nil false
  · exact .reject

end Bodies

omit hF in
theorem frames_bodyAt (n m : Nat) (hnm : n ≤ m) : Frames [] (bodyAt n) (bodyAt m) := by
  induction n generalizing m with
  | zero => exact .throw
  | succ n ih =>
    obtain ⟨m, rfl⟩ : ∃ m', m = m' + 1 := ⟨m - 1, by omega⟩
    exact .many looks_isNotAt .asksNot (frames_statementWith (ih m (by omega))).here

omit hF in
theorem frames_body : Frames [] body body := .nested frames_bodyAt

/-! ## §4 Functions -/

omit hF in
theorem frames_typeName : Frames F typeName typeName := by
  refine .ahead (.kind (fun _ hc => hc.1) fun k => ?_) (Needs.kind .reject)
  split
  · exact (FramesAt.take fun _ hc => hc.2.1).bind fun _ => .pure
  split
  · exact .takeText (.take fun _ hc => hc.2.1)
  · exact .reject

theorem frames_function : Frames F function function := by
  have hparameter : Frames F parameter parameter :=
    frames_typeName.bind fun _ => (FramesAt.expectText (by decide)).bind fun _ => .pure
  apply frames_typeName.bind
  intro _
  refine .check (w := .expected "MAIN or IDENTIFIER") (by decide) ?_
  refine (FramesAt.takeText (.takeOf (by decide))).bind fun name => ?_
  refine (FramesAt.expect (by decide)).bind fun _ => FramesAt.bind ?_ fun params => ?_
  · exact .isAt (by decide) (.inr (avoids hF (by decide))) .pure
      (.sepBy (by decide) (avoids hF (by decide)) hparameter)
  · refine (FramesAt.expectAll (by decide)).bind fun _ => ?_
    exact frames_closed frames_body

end Constructs

/-! ## §5 Items -/

/-- The tokens are read, all of them and no more, where they stand alone. -/
structure Alone (p : Parser α) (w : List Token) (a : α) : Prop where
  free : CommentFree w
  run : p ⟨0, w⟩ = .ok a ⟨w.length, []⟩

/-- An item of a section, with what it adds to the lists of the section. -/
inductive IsItem : List Token → SectionItems → Prop
  | input {w : List Token} {as : List Tree} (first : firstKind w = .inputWord)
      (h : Alone inputs w as) : IsItem w { inputs := as }
  | output {w : List Token} {as : List Tree} (first : firstKind w = .outputWord)
      (h : Alone outputs w as) : IsItem w { outputs := as }
  | uniform {w : List Token} {as : List Tree} (first : firstKind w = .uniformWord)
      (h : Alone uniforms w as) : IsItem w {}
  | function {w : List Token} {t : Tree} (first : firstKind w ∈ returnTypes)
      (h : Alone function w t) : IsItem w { functions := [t] }
  | branch {w : List Token} {t : Tree} (first : firstKind w = .ifWord)
      (h : Alone branch w t) : IsItem w { statements := [t] }
  | loop {w : List Token} {t : Tree} (first : firstKind w = .forWord)
      (h : Alone forLoop w t) : IsItem w { statements := [t] }
  | plain {w : List Token} {t : Tree} (first : firstKind w ∈ sectionStarts)
      (h : Alone (plainStatement false) w t) : IsItem w { statements := [t] }

/-- The lists of one section behind those of another. -/
def SectionItems.add (s x : SectionItems) : SectionItems :=
  ⟨s.inputs ++ x.inputs, s.outputs ++ x.outputs, s.functions ++ x.functions,
    s.statements ++ x.statements⟩

/-- What an item begins with. -/
def itemStarts : List TokenKind :=
  .inputWord :: .outputWord :: .uniformWord :: .ifWord :: .forWord :: .identifier :: returnTypes

/-- What follows an item: another one, or the end of the section. -/
def itemEnds : List TokenKind := .rightBrace :: itemStarts

theorem itemStarts_solid : ∀ k ∈ itemStarts, k ≠ .endOfInput ∧ k ≠ .rightBrace := by decide

theorem itemEnds_avoids : Avoids itemEnds continuing := by decide

theorem itemEnds_solid : ∀ k ∈ itemEnds, Trivia.comments.skips k = false := by decide

theorem IsItem.starts {w : List Token} {x : SectionItems} (h : IsItem w x) :
    firstKind w ∈ itemStarts := by
  have hkinds : ∀ k, k ∈ sectionStarts ∨ k ∈ returnTypes → k ∈ itemStarts := by
    simp only [or_imp, forall_and]
    decide
  cases h with
  | function first => exact hkinds _ (.inr first)
  | plain first => exact hkinds _ (.inl first)
  | _ => simp_all [itemStarts]

theorem firstKind_append {w more : List Token} (h : firstKind w ≠ .endOfInput) :
    firstKind (w ++ more) = firstKind w := by
  obtain ⟨t, rest, rfl, -⟩ := exists_cons_of_firstKind h
  rfl

/-- What is read alone is read in front of what follows. -/
theorem Alone.reads {p : Parser α} {K : Cursor → Prop} {w more : List Token} {a : α}
    (h : Alone p w a) (hp : FramesAt itemEnds K p p) (hK : K ⟨0, w⟩)
    (hmore : firstKind more ∈ itemEnds) : Reads p w a more := by
  intro pos
  have hrun := (hp _ _ _ h.free hK h.run).2 pos more ⟨itemEnds_solid _ hmore, fun _ => hmore⟩
  simpa [Cursor.within, Nat.add_comm] using hrun

/-! ## §6 Functions and statements apart -/

theorem exists_third {w : List Token} (pos : Nat) (hw : CommentFree w)
    (hk : (((⟨pos, w⟩ : Cursor).advance tv).advance tv).kind ≠ .endOfInput) :
    ∃ t, w[2]? = some t ∧ (((⟨pos, w⟩ : Cursor).advance tv).advance tv).kind = t.kind := by
  have htail : ∀ {ts : List Token} {pos : Nat}, CommentFree ts →
      Cursor.advance tv ⟨pos, ts⟩ = ⟨pos + 1, ts.tail⟩ := fun hts =>
    Cursor.pastTrivia_of_commentFree (fun t ht => hts t (List.mem_of_mem_tail ht)) _
  rw [htail hw, htail fun t ht => hw t (List.mem_of_mem_tail ht)] at hk ⊢
  obtain ⟨t, rest, hrest, ht⟩ := exists_cons_of_firstKind hk
  refine ⟨t, ?_, ht.symm⟩
  rw [← List.head?_drop, ← List.tail_drop, ← List.tail_drop, List.drop_zero]
  exact congrArg List.head? hrest

/-- A function has its parenthesis behind its type and its name. -/
theorem third_function {c c' : Cursor} {t : Tree} (hk : c.kind ∈ returnTypes)
    (hrun : function c = .ok t c') : ((c.advance tv).advance tv).kind = .leftParen := by
  obtain ⟨vtype, hvtype⟩ := typeName_of_returnType hk
  rw [function, bind_of_ok hvtype, isNotAt_bind] at hrun
  by_cases hname : (c.advance tv).kind ∈ [.mainWord, .identifier]
  · rw [decide_eq_false (not_not.2 hname), if_neg Bool.false_ne_true] at hrun
    dsimp only at hrun
    rw [takeText_bind] at hrun
    obtain ⟨_, _, hparen, -⟩ := bind_eq_ok hrun
    exact (expect_eq_ok hparen).1
  · rw [decide_eq_true hname] at hrun
    cases hrun

/-- A statement that begins with a type never has one there. -/
theorem third_plainStatement {c c' : Cursor} {t : Tree} (hk : c.kind ∈ valueTypes)
    (hrun : plainStatement false c = .ok t c') :
    ((c.advance tv).advance tv).kind ∈ .identifier :: .dot :: .semicolon :: assignOperators := by
  rw [plainStatement, isAt_bind, decide_eq_true hk, if_pos rfl, takeText_bind] at hrun
  dsimp only at hrun
  rw [isAt_bind] at hrun
  -- Behind the type stands a name, or a step and then a name.
  by_cases hname : (c.advance tv).kind ∈ [.identifier]
  · have hread : expectText tv .identifier (c.advance tv)
        = .ok (Tree.ofText? (c.advance tv).current.text) ((c.advance tv).advance tv) :=
      bind_of_ok (expect_run (List.mem_singleton.1 hname))
    rw [decide_eq_true hname, if_pos rfl, declaration, bind_of_ok hread, isAt_bind] at hrun
    by_cases hdot : ((c.advance tv).advance tv).kind ∈ [.dot]
    · simp [List.mem_singleton.1 hdot]
    rw [decide_eq_false hdot, if_neg Bool.false_ne_true, pure_bind] at hrun
    dsimp only at hrun
    rw [kind_bind] at hrun
    split at hrun
    · next hsemi => simp [hsemi]
    split at hrun
    · next hassign => simp [hassign]
    · cases hrun
  · rw [decide_eq_false hname, if_neg Bool.false_ne_true, isAt_bind] at hrun
    by_cases hstep : (c.advance tv).kind ∈ [.increment, .decrement]
    · have hread : (some <$> takeText tv) (c.advance tv)
          = .ok (some (Tree.ofText? (c.advance tv).current.text)) ((c.advance tv).advance tv) := rfl
      rw [decide_eq_true hstep, if_pos rfl, bind_of_ok hread] at hrun
      obtain ⟨_, _, hident, -⟩ := bind_eq_ok hrun
      obtain ⟨_, _, hident, -⟩ := bind_eq_ok hident
      simp [(expect_eq_ok hident).1]
    · rw [decide_eq_false hstep, if_neg Bool.false_ne_true, pure_bind] at hrun
      obtain ⟨_, _, hident, -⟩ := bind_eq_ok hrun
      obtain ⟨_, _, hident, -⟩ := bind_eq_ok hident
      exact absurd (expect_eq_ok hident).1 (by simpa using hname)

/-- Whether an item is a function, by its first and third token. -/
def Tells (ts : List Token) (b : Bool) : Prop :=
  firstKind ts ∈ [.ifWord, .forWord, .identifier] ∧ b = false ∨
    firstKind ts ∈ returnTypes ∧ ∃ t, ts[2]? = some t ∧ b = decide (t.kind = .leftParen)

theorem sectionItem_of_tells {c : Cursor} {b : Bool} (s : SectionItems) (h : Tells c.rest b) :
    sectionItem s c = definition s c.kind b c := by
  change c.kind ∈ _ ∧ _ ∨ c.kind ∈ _ ∧ _ at h
  rcases h with ⟨hk, rfl⟩ | ⟨hk, t, ht, rfl⟩
  · rw [sectionItem, kind_bind]
    generalize c.kind = k at hk ⊢
    simp only [List.mem_cons, List.not_mem_nil, or_false] at hk
    rcases hk with rfl | rfl | rfl <;> rfl
  · have hlook : lookahead 2 c = .ok t c := by
      rw [lookahead_run, ht]
      rfl
    rw [sectionItem_of_returnType hk, bind_of_ok hlook]

section Rounds

variable {w more : List Token} {t : Tree}

theorem reads_definition {p : Parser Tree} {b : Bool} {s : SectionItems} {g : Tree → SectionItems}
    (h : Reads p w t more) (hend : firstKind w ≠ .endOfInput) (hb : Tells w b)
    (hform : definition s (firstKind w) b = (do return g (← p))) :
    Reads (sectionItem s) w (g t) more := by
  intro pos
  have hkind : (⟨pos, w ++ more⟩ : Cursor).kind = firstKind w := firstKind_append hend
  rw [sectionItem_of_tells (b := b) s, hkind, hform, bind_of_ok (h pos)]
  · rfl
  · rw [Tells, firstKind_append hend]
    refine hb.imp_right fun ⟨hk, u, hu, hbu⟩ => ?_
    refine ⟨hk, u, ?_, hbu⟩
    obtain ⟨hlt, -⟩ := List.getElem?_eq_some_iff.1 hu
    exact (List.getElem?_append_left hlt).trans hu

/-- Where a type stands, the third token decides between a function and a statement. -/
theorem tells_plain {w : List Token} (hfirst : firstKind w ∈ sectionStarts)
    (h : Alone (plainStatement false) w t) : Tells w false := by
  rcases List.mem_cons.1 hfirst with hname | htype
  · exact .inl ⟨by simp [hname], rfl⟩
  · have hthird := third_plainStatement (c := ⟨0, w⟩) htype h.run
    have hkinds : ∀ k ∈ TokenKind.identifier :: .dot :: .semicolon :: assignOperators,
        k ≠ .endOfInput ∧ k ≠ .leftParen := by decide
    obtain ⟨hend, hparen⟩ := hkinds _ hthird
    obtain ⟨u, hu, hkind⟩ := exists_third _ h.free hend
    exact .inr ⟨List.mem_cons_of_mem _ htype, u, hu, (decide_eq_false (hkind ▸ hparen)).symm⟩

/-! ## §7 Declarations of the interface -/

section Interface

variable {k : TokenKind} {decl : Parser Tree}

theorem frames_declared {F : List TokenKind} (hk : .endOfInput ∉ [k]) (wanted : Text)
    (g : Tree × Tree → Tree) :
    FramesAt F (fun c => c.kind ∈ [k]) (do return g (← interfaceItem wanted))
      (do return g (← interfaceItem wanted)) := by
  refine FramesAt.bind (FramesAt.bind ?_ fun _ => .check (w := .expected wanted) (by decide) ?_)
    fun _ => .pure
  · refine .take fun _ hc => ?_
    refine rest_ne_nil fun hend => ?_
    exact hk (hend ▸ hc)
  · refine (FramesAt.takeText (.takeOf (by decide))).bind fun _ => ?_
    refine (FramesAt.expectText (by decide)).bind fun _ => ?_
    exact (FramesAt.expect (by decide)).bind fun _ => .pure

/-- Declarations that are read alone are read in front of others. -/
theorem many_append {as bs : List Tree} {pos : Nat} {d : Cursor} (hk : .endOfInput ∉ [k])
    (hdecl : ∀ F, FramesAt F (fun c => c.kind ∈ [k]) decl decl)
    (h : Alone (many (isAt [k]) decl) w as)
    (hmore : firstKind more ∈ itemEnds)
    (hnext : many (isAt [k]) decl ⟨pos + w.length, more⟩ = .ok bs d) :
    many (isAt [k]) decl ⟨pos, w ++ more⟩ = .ok (as ++ bs) d := by
  obtain ⟨found, c, hfound, has⟩ := bind_eq_ok h.run
  cases has
  obtain ⟨found', d', hfound', hbs⟩ := bind_eq_ok hnext
  cases hbs
  obtain ⟨-, -, happend⟩ := FramesAt.loop_append (F := itemEnds) looks_isAt
    (.asks hk avoids_nil) (fun _ => (hdecl _).bind fun _ => .pure) h.free hfound
  -- The second run goes on with what the first has found.
  have hcollect : Parser.loop (isAt [k]) (fun acc => do return (← decl) :: acc) found
      ⟨pos + w.length, more⟩ = .ok (found' ++ found) d := loopAt_collect found hfound'
  have hend : (⟨w.length, []⟩ : Cursor).within pos more = ⟨pos + w.length, more⟩ := by
    simp [Cursor.within, Nat.add_comm]
  have hstart : (⟨0, w⟩ : Cursor).within pos more = ⟨pos, w ++ more⟩ := by simp [Cursor.within]
  have hall := happend pos more _ d ⟨itemEnds_solid _ hmore, fun _ => hmore⟩ (hend ▸ hcollect)
  rw [hstart] at hall
  exact (bind_of_ok hall).trans (by simp)

/-- Declarations stand in front of further items.  If these begin with declarations of the same
kind, all of them are read at once. -/
theorem reads_declarations {as : List Tree} {v rest : List Token} {s r : SectionItems}
    (add : SectionItems → List Tree → SectionItems) (hkinds : k ∈ itemStarts)
    (hitem : ∀ s c, c.kind = k → sectionItem s c = (do return add s (← many (isAt [k]) decl)) c)
    (hadd : ∀ s as bs, add (add s as) bs = add s (as ++ bs)) (hnil : ∀ s, add s [] = s)
    (hdecl : ∀ F, FramesAt F (fun c => c.kind ∈ [k]) decl decl)
    (hfirst : firstKind w = k) (h : Alone (many (isAt [k]) decl) w as)
    (hfollow : firstKind (v ++ rest) ∈ itemEnds)
    (hmore : Reads (loop (isNotAt [.rightBrace]) sectionItem (add s as)) v r rest) :
    Reads (loop (isNotAt [.rightBrace]) sectionItem s) (w ++ v) r rest := by
  obtain ⟨hend, hbrace⟩ := itemStarts_solid k hkinds
  intro pos
  have hfirst' : firstKind w ≠ .endOfInput := hfirst ▸ hend
  have hw : 0 < w.length := List.length_pos_iff.2 (rest_ne_nil (c := ⟨0, w⟩) hfirst')
  have hkind : (⟨pos, w ++ (v ++ rest)⟩ : Cursor).kind = k :=
    (firstKind_append hfirst').trans hfirst
  -- The declarations that follow, if any, and the rounds behind them.
  obtain ⟨bs, c₂, n, hbatch, hlen, hn, hloop⟩ : ∃ bs c₂ n,
      many (isAt [k]) decl ⟨pos + w.length, v ++ rest⟩ = .ok bs c₂ ∧
      c₂.rest.length ≤ (v ++ rest).length ∧ n ≤ (v ++ rest).length + 1 ∧
      loopAt (isNotAt [.rightBrace]) sectionItem n (add (add s as) bs) c₂
        = .ok r ⟨pos + w.length + v.length, rest⟩ := by
    by_cases hk : firstKind (v ++ rest) = k
    · obtain ⟨hgo, -⟩ | ⟨c₁, s', c₂, hgo, hround, hlt, hrest⟩ :=
        loopAt_eq_ok_iff.1 (hmore (pos + w.length))
      · simp [hk, hbrace] at hgo
      · obtain ⟨rfl, -⟩ := looks_isNotAt _ _ _ hgo
        rw [hitem _ ⟨pos + w.length, v ++ rest⟩ hk] at hround
        obtain ⟨bs, d, hbs, hs'⟩ := bind_eq_ok hround
        cases hs'
        exact ⟨bs, c₂, _, hbs, Nat.le_of_lt hlt, Nat.le_succ _, hrest⟩
    · exact ⟨[], _, _, many_stop (by simpa using hk), Nat.le_refl _, Nat.le_refl _,
        (hnil (add s as)).symm ▸ hmore _⟩
  have hrun : sectionItem s ⟨pos, w ++ (v ++ rest)⟩ = .ok (add s (as ++ bs)) c₂ := by
    rw [hitem _ _ hkind]
    exact bind_of_ok (many_append (by simpa using hend.symm) hdecl h hfollow hbatch)
  rw [hadd] at hloop
  rw [List.append_assoc, List.length_append, ← Nat.add_assoc]
  refine loopAt_eq_ok_iff.2 (.inr ⟨_, _, c₂, ?_, hrun, ?_, loopAt_mono hloop ?_⟩)
  · simp [hkind, hbrace]
  all_goals
    simp only [List.length_append] at hlen hn ⊢
    omega

end Interface

/-- An item is read, and what it adds is kept, in front of further items. -/
theorem reads_item {x s r : SectionItems} {v rest : List Token} (hw : IsItem w x)
    (hfollow : firstKind (v ++ rest) ∈ itemEnds)
    (hmore : Reads (loop (isNotAt [.rightBrace]) sectionItem (s.add x)) v r rest) :
    Reads (loop (isNotAt [.rightBrace]) sectionItem s) (w ++ v) r rest := by
  obtain ⟨hend, hbrace⟩ := itemStarts_solid _ hw.starts
  -- One round of the loop, and the rounds that follow.
  have hround (h : Reads (sectionItem s) w (s.add x) (v ++ rest)) :
      Reads (loop (isNotAt [.rightBrace]) sectionItem s) (w ++ v) r rest :=
    Reads.loop_step (fun pos => by simpa [firstKind_append hend] using hbrace)
      (rest_ne_nil (c := ⟨0, w⟩) hend) h hmore
  have hstatement : ∀ {p : Parser Tree} {t : Tree}, Reads p w t (v ++ rest) →
      Tells w false → definition s (firstKind w) false
        = (do return { s with statements := s.statements ++ [← p] }) →
      Reads (sectionItem s) w (s.add { statements := [t] }) (v ++ rest) := by
    intro p t h hb hform
    simpa [SectionItems.add] using reads_definition h hend hb hform
  -- The declarations of an interface are read in one run, anything else alone.
  cases hw with
  | input first h =>
    refine reads_declarations (fun s as => s.add { inputs := as }) (by decide)
      (fun s c hk => ?_) (by simp [SectionItems.add]) (by simp [SectionItems.add])
      (fun _ => frames_declared (by decide) _ fun v => .tuple [v.1, v.2]) first h hfollow hmore
    rw [sectionItem, kind_bind, hk]
    simp [SectionItems.add]
    rfl
  | output first h =>
    refine reads_declarations (fun s as => s.add { outputs := as }) (by decide)
      (fun s c hk => ?_) (by simp [SectionItems.add]) (by simp [SectionItems.add])
      (fun _ => frames_declared (by decide) _ fun v => .tuple [v.1, v.2]) first h hfollow hmore
    rw [sectionItem, kind_bind, hk]
    simp [SectionItems.add]
    rfl
  | uniform first h =>
    refine reads_declarations (fun s _ => s.add {}) (by decide)
      (fun s c hk => ?_) (by simp [SectionItems.add]) (by simp [SectionItems.add])
      (fun _ => frames_declared (by decide) _ fun v => Tree.uniform v.1 v.2) first h hfollow hmore
    rw [sectionItem, kind_bind, hk]
    simp [SectionItems.add]
    rfl
  | @function t first h =>
    have hthird := third_function (c := ⟨0, w⟩) first h.run
    obtain ⟨u, hu, hkind⟩ := exists_third 0 h.free (by rw [hthird]; decide)
    have hitem := reads_definition (s := s) (b := true)
      (g := fun t => { s with functions := s.functions ++ [t] })
      (h.reads (frames_function itemEnds_avoids) trivial hfollow)
      hend (.inr ⟨first, u, hu, by rw [← hkind, hthird]; rfl⟩) rfl
    exact hround (by simpa [SectionItems.add] using hitem)
  | branch first h =>
    exact hround <| hstatement
      (h.reads (frames_branchWith itemEnds_avoids frames_body) trivial hfollow)
      (.inl ⟨by simp [first], rfl⟩) (by rw [first]; rfl)
  | loop first h =>
    exact hround <| hstatement
      (h.reads (frames_forWith itemEnds_avoids frames_body) trivial hfollow)
      (.inl ⟨by simp [first], rfl⟩) (by rw [first]; rfl)
  | plain first h =>
    have hkinds : ∀ k ∈ sectionStarts, k ≠ .forWord ∧ k ≠ .ifWord := by decide
    obtain ⟨hfor, hif⟩ := hkinds _ first
    refine hround <| hstatement
      (h.reads (frames_plainStatement itemEnds_avoids false) trivial hfollow)
      (tells_plain first h) ?_
    rw [definition, if_neg Bool.false_ne_true, if_neg hfor, if_neg hif, if_pos first]

end Rounds

/-! ## §8 Sections -/

/-- The lists of a section, each with what the items add to it, in their order. -/
def sorted (items : List (List Token × SectionItems)) : SectionItems :=
  ⟨items.flatMap (·.2.inputs), items.flatMap (·.2.outputs), items.flatMap (·.2.functions),
    items.flatMap (·.2.statements)⟩

theorem firstKind_items {items : List (List Token × SectionItems)}
    (h : ∀ i ∈ items, IsItem i.1 i.2) {rest : List Token} (hrest : firstKind rest = .rightBrace) :
    firstKind (items.flatMap (·.1) ++ rest) ∈ itemEnds := by
  cases items with
  | nil => simp [hrest, itemEnds]
  | cons i items =>
    have hi := (h i List.mem_cons_self).starts
    rw [List.flatMap_cons, List.append_assoc, firstKind_append (itemStarts_solid _ hi).1]
    exact List.mem_cons_of_mem _ hi

/-- Items are read one after another, and what they add is kept in order. -/
theorem reads_items {items : List (List Token × SectionItems)} (h : ∀ i ∈ items, IsItem i.1 i.2)
    {rest : List Token} (hrest : firstKind rest = .rightBrace) (s : SectionItems) :
    Reads (loop (isNotAt [.rightBrace]) sectionItem s) (items.flatMap (·.1)) (s.add (sorted items))
      rest := by
  induction items generalizing s with
  | nil =>
    have hnone : s.add (sorted []) = s := by simp [SectionItems.add, sorted]
    rw [hnone]
    refine Reads.loop_stop fun pos => ?_
    simp [hrest]
  | cons i items ih =>
    obtain ⟨hi, hitems⟩ := List.forall_mem_cons.1 h
    have hsum : s.add (sorted (i :: items)) = (s.add i.2).add (sorted items) := by
      simp [SectionItems.add, sorted]
    rw [hsum, List.flatMap_cons]
    exact reads_item hi (firstKind_items hitems hrest) (ih hitems _)

section Braces

variable {items : List (List Token × SectionItems)} (h : ∀ i ∈ items, IsItem i.1 i.2)
  (opens : TokenOf [.leftBrace]) (closes : TokenOf [.rightBrace]) {rest : List Token}
  (hrest : Trivia.comments.skips (firstKind rest) = false)

include h hrest

theorem reads_section {k : TokenKind} (word : TokenOf [k]) (node : NodeKind) :
    Reads (do let _ ← expect tv k; return (← sectionBody).node node)
      (word.1 :: opens.1 :: (items.flatMap (·.1) ++ [closes.1]))
      ((sorted items).node node) rest := by
  have hclose : firstKind (closes.1 :: rest) = .rightBrace := by simp
  have hitems := reads_items h hclose {}
  have hnone : ({} : SectionItems).add (sorted items) = sorted items := by simp [SectionItems.add]
  have hfirst := firstKind_items h hclose
  refine Reads.bind (u := [_])
    (.expectBefore (by simp) (by simp [Trivia.skips, TokenKind.isComment])) ?_
  refine Reads.bind_pure ?_ fun _ => rfl
  refine Reads.bind (u := [_])
    (.expectBefore (by simp) (itemEnds_solid _ (by simpa using hfirst))) ?_
  refine Reads.bind (hnone ▸ hitems) ?_
  exact Reads.bind_pure (.expectBefore (by simp) hrest) fun _ => rfl

/-- A section is sorted and not changed: the lists of its node hold what its items give when they
stand alone, each once and in their order, and reading stops behind the closing brace. -/
theorem section_sorts_items :
    (∀ word : TokenOf [.vertexWord], Reads vertexSection
      (word.1 :: opens.1 :: (items.flatMap (·.1) ++ [closes.1]))
      ((sorted items).node .vertexSection)
      rest) ∧
    ∀ word : TokenOf [.fragmentWord], Reads fragmentSection
      (word.1 :: opens.1 :: (items.flatMap (·.1) ++ [closes.1]))
      ((sorted items).node .fragmentSection) rest :=
  ⟨fun word => reads_section h opens closes hrest word .vertexSection,
    fun word => reads_section h opens closes hrest word .fragmentSection⟩

end Braces

/-- Two inputs that are read at once, a function, and a declaration that begins like it. -/
def mixedItems : List (List Token × SectionItems) :=
  [([⟨.inputWord, some "input"⟩, ⟨.vectorType, some "vec2"⟩, ⟨.identifier, some "a"⟩,
      ⟨.semicolon, some ";"⟩], { inputs := [.tuple [.text "vec2", .text "a"]] }),
   ([⟨.inputWord, some "input"⟩, ⟨.floatType, some "float"⟩, ⟨.identifier, some "b"⟩,
      ⟨.semicolon, some ";"⟩], { inputs := [.tuple [.text "float", .text "b"]] }),
   ([⟨.floatType, some "float"⟩, ⟨.identifier, some "f"⟩, ⟨.leftParen, some "("⟩,
      ⟨.rightParen, some ")"⟩, ⟨.leftBrace, some r"{"⟩, ⟨.rightBrace, some r"}"⟩],
     { functions := [Tree.function (.text "float") (.text "f") [] []] }),
   ([⟨.floatType, some "float"⟩, ⟨.identifier, some "x"⟩, ⟨.semicolon, some ";"⟩],
     { statements := [Tree.var (.text "float") (.text "x")] })]

theorem section_sorts_items_mixed :
    (∀ i ∈ mixedItems, IsItem i.1 i.2) ∧
    Reads vertexSection
      (⟨.vertexWord, some "vertex"⟩ :: ⟨.leftBrace, some r"{"⟩ ::
        (mixedItems.flatMap (·.1) ++ [⟨.rightBrace, some r"}"⟩]))
      ((sorted mixedItems).node .vertexSection) [] := by
  have hitems : ∀ i ∈ mixedItems, IsItem i.1 i.2 := by
    simp only [mixedItems, List.forall_mem_cons, List.not_mem_nil, false_imp_iff, implies_true,
      and_true]
    exact ⟨.input rfl ⟨by simp, rfl⟩, .input rfl ⟨by simp, rfl⟩,
      .function (by decide) ⟨by simp, rfl⟩, .plain (by decide) ⟨by simp, rfl⟩⟩
  exact ⟨hitems, (section_sorts_items hitems (slot .leftBrace r"{") (slot .rightBrace r"}")
    rfl).1 (slot .vertexWord "vertex")⟩

end ShaderBridge.CrossGl
