import ShaderBridge.Proofs.CrossGl.Shapes
import ShaderBridge.Proofs.Spending

/-!
# Which words the CrossGL grammar reads

A statement on a line of its own reads tokens of few kinds (`lineKinds`): no brace and no word that
opens something.  Longer statements and functions of CrossGL read neither `uniform` nor the words
that open a section.  So each of these words that the grammar reads belongs to a uniform or to a
section.
-/

namespace ShaderBridge.CrossGl

open ShaderBridge.Parser Ladder

/-! ## §1 Expressions -/

/-- The kinds of token that a statement on a line of its own is made of. -/
def lineKinds : List TokenKind :=
  ladderKinds ++ sectionStarts ++ outerOperators ++ assignOperators ++
    [.number, .decimal, .semicolon, .increment, .decrement]

section Lines

variable {M : Marks} (hM : M.Lacks lineKinds) {expr : Parser Tree}

include hM

/-- Ladders read no other tokens. -/
theorem lacks_ladderKinds : M.Lacks ladderKinds := hM.of_subset (by decide)

theorem spares_nameOrCallWith (h : Spares M expr) : Spares M (nameOrCallWith expr) := by
  refine SpendsAt.cond (.takeText (.takeOf (hM.of_subset (by decide))))
    (.expectText (hM _ (by decide))) fun name => ?_
  refine SpendsAt.kind fun k _ => ?_
  refine SpendsAt.here ?_
  split
  · exact (Spares.strictArguments (lacks_ladderKinds hM) h).bind_pure fun _ _ => id
  · exact Spares.memberChain (lacks_ladderKinds hM) name
  · exact .pure rfl

theorem spares_primaryWith (h : Spares M expr) : Spares M (primaryWith expr) := by
  refine SpendsAt.kind fun k _ => ?_
  split
  · exact (Spares.parenthesized (lacks_ladderKinds hM) h).here
  split
  · next hk => exact SparesAt.takeText (.takeIn hk (hM.of_subset (by decide)))
  split
  · exact (spares_nameOrCallWith hM h).here
  · exact .reject

theorem spares_expressionWith (h : Spares M expr) : Spares M (expressionWith expr) := by
  have hladder := lacks_ladderKinds hM
  have hsum : Spares M (sumWith expr) :=
    Spares.sum hladder (Spares.signed hladder (spares_primaryWith hM h))
  exact Spares.rung (hM.of_subset (by decide))
    (hsum.seq fun condition => Spares.choice hladder h condition)

theorem spares_expressionAt (n : Nat) : Spares M (expressionAt n) := by
  induction n with
  | zero => exact .throw
  | succ n ih => exact spares_expressionWith hM ih

theorem spares_expression : Spares M expression := .nested (spares_expressionAt hM)

/-! ## §2 Plain statements -/

omit hM in
theorem spares_joined (a b : Tree) : Spares M (joined a b) := by
  unfold joined
  split
  · exact .pure rfl
  · exact .throw

theorem spares_members {object : Tree} {f : Tree → Parser Tree} (hf : ∀ t, Spares M (f t)) :
    Spares M (do
      let t ← if ← isAt [.dot] then memberChain tv object else pure object
      f t) :=
  SpendsAt.cond (Spares.memberChain (lacks_ladderKinds hM) object).here (.pure rfl) hf

theorem spares_assignmentTo (target : Tree) : Spares M (assignmentTo target) := by
  refine SpendsAt.check (w := .expectedHere "assignment operator") ?_
  refine SpendsAt.seq (.takeText (.takeOf (hM.of_subset (by decide)))) fun op => ?_
  apply (spares_expression hM).seq
  intro value
  refine (SparesAt.accept (hM _ (by decide))).seq fun _ => ?_
  exact .pure rfl

theorem spares_callOf (name : Tree) : Spares M (callOf name) :=
  (Spares.strictArguments (lacks_ladderKinds hM) (spares_expression hM)).bind_pure fun _ _ => id

/-- A declaration reads no mark. -/
theorem spares_declaration (vtype : Tree) (inUpdate : Bool) :
    Spares M (declaration vtype inUpdate) := by
  refine SpendsAt.seq (.expectText (hM _ (by decide))) fun first => ?_
  refine spares_members hM fun name => ?_
  refine SpendsAt.kind fun k _ => ?_
  split
  · next hk =>
    refine (SparesAt.takeIn (List.mem_singleton.2 hk) (hM.of_subset (by decide))).seq fun _ => ?_
    exact .pure rfl
  split
  · next hk =>
    refine SpendsAt.seq (.takeText (.takeIn hk (hM.of_subset (by decide)))) fun op => ?_
    apply (spares_expression hM).seq
    intro e
    refine spares_members hM fun value => ?_
    refine SpendsAt.isAt ?_ ?_
    · refine (SparesAt.takeOf (hM.of_subset (by decide))).seq fun _ => ?_
      exact .pure rfl
    cases inUpdate with
    | true => exact .pure rfl
    | false => exact SpendsAt.kind fun _ _ => (SpendsAt.reject (P := fun _ _ => False)).bind nofun
  · exact .reject

theorem spares_afterTarget (vtype target : Tree) : Spares M (afterTarget vtype target) := by
  refine SpendsAt.kind fun k _ => ?_
  split
  · exact (spares_assignmentTo hM target).here
  split
  · next hk =>
    refine SpendsAt.seq (.takeIn hk (hM.of_subset (by decide))) fun _ => ?_
    refine SpendsAt.seq .look fun after => ?_
    exact (spares_joined target after).bind_pure fun _ _ => id
  split
  · exact (spares_callOf hM target).here
  · exact .reject

theorem spares_plainStatement (inUpdate : Bool) : Spares M (plainStatement inUpdate) := by
  refine SpendsAt.cond (.takeText (.takeOf (hM.of_subset (by decide)))) (.pure rfl) fun vtype => ?_
  refine SpendsAt.isAt (spares_declaration hM vtype inUpdate).here ?_
  have hstep : SparesAt M (fun k => k ∈ [.increment, .decrement] ∧ k ∉ [.identifier] ∧ True)
      (some <$> takeText tv) :=
    (SparesAt.takeText (.takeOf (hM.of_subset (by decide)))).map fun _ _ => id
  refine SpendsAt.cond hstep (.pure rfl) fun step => ?_
  refine SpendsAt.seq (.expectText (hM _ (by decide))) fun name => ?_
  cases step with
  | none => exact spares_afterTarget hM vtype name
  | some op => exact (spares_joined op name).seq fun both => spares_afterTarget hM vtype _

theorem spares_update : Spares M update := by
  have hjoin : ∀ a b, Spares M (do return Tree.var (.text []) (← joined a b)) :=
    fun a b => (spares_joined a b).bind_pure fun _ _ => id
  have hsteps : M.Lacks [.increment, .decrement] := hM.of_subset (by decide)
  have hname : M.Lacks [.identifier] := hM.of_subset (by decide)
  refine SpendsAt.kind fun k _ => ?_
  split
  · next hk =>
    refine SpendsAt.seq (.takeText (.takeIn (List.mem_singleton.2 hk) hname)) fun name => ?_
    refine SpendsAt.isAt ?_ (SpendsAt.kind fun _ _ => .reject)
    refine SpendsAt.seq (.takeText (.takeOf hsteps)) fun op => ?_
    exact hjoin name op
  split
  · next hk =>
    refine SpendsAt.seq (.takeText (.takeIn hk hsteps)) fun op => ?_
    refine SpendsAt.isAt ?_ (.pure rfl)
    refine SpendsAt.seq (.takeText (.takeOf hname)) fun name => ?_
    exact hjoin op name
  · exact .reject

end Lines

/-! ## §3 Types and declarations -/

/-- A statement on a line of its own opens nothing. -/
theorem sectionMarks_lacks : sectionMarks.Lacks lineKinds := by decide

theorem spares_typeName : Spares sectionMarks typeName := by
  refine SpendsAt.kind fun k _ => ?_
  split
  · next hk => exact (SparesAt.takeIn (List.mem_singleton.2 hk) (by decide)).seq fun _ => .pure rfl
  split
  · next hk =>
    have hmem : k ∈ .identifier :: interfaceTypes := by
      simpa [or_comm] using hk
    exact SparesAt.takeText (.takeIn hmem (by decide))
  · exact .reject

/-- A declaration of the interface reads the word that it begins with and no other mark. -/
theorem spends_interfaceItem (wanted : Text) {k : TokenKind} :
    SpendsAt sectionMarks (· ∈ [k]) (interfaceItem wanted) fun _ ms =>
      ms.map (·.kind) = marksOf [k] := by
  have hmarks : ∀ t : Token, t.kind = k → (sectionMarks.among [t]).map (·.kind) = marksOf [k] := by
    rintro t rfl
    by_cases h : t.kind ∈ markKinds <;> simp [Marks.among, marksOf, sectionMarks, h]
  refine SpendsAt.take.bind ?_
  rintro word _ ⟨hword, rfl⟩
  refine SpendsAt.check (w := .expected wanted) ?_
  refine SpendsAt.seq (.takeText (.takeOf (by decide))) fun vtype => ?_
  refine SpendsAt.seq (.expectText (by decide)) fun name => ?_
  refine SpendsAt.seq (.expect (by decide)) fun _ => ?_
  refine .pure ?_
  rw [List.append_nil]
  exact hmarks word (List.mem_singleton.1 hword)

theorem spares_interface {k : TokenKind} (hk : k ∉ markKinds) {wanted : Text} :
    Spares sectionMarks (many (isAt [k]) (do
      let (vtype, name) ← interfaceItem wanted
      return Tree.tuple [vtype, name])) := by
  refine SparesAt.many looks_isAt ((spends_interfaceItem wanted).bind_pure ?_)
  intro v ms hms
  have hnone : marksOf [k] = [] := by simp [marksOf, hk]
  exact List.map_eq_nil_iff.1 (hms.trans hnone)

theorem spares_parameters : Spares sectionMarks parameters := by
  have hparameter : Spares sectionMarks parameter :=
    spares_typeName.seq fun _ => (SparesAt.expectText (by decide)).bind_pure fun _ _ => id
  exact SpendsAt.isAt (.pure rfl) (SparesAt.sepBy (by decide) hparameter)

theorem spares_returnStatement : Spares sectionMarks returnStatement := by
  refine SpendsAt.seq (.expect (by decide)) fun _ => ?_
  refine SpendsAt.seq (.sepBy (by decide) (spares_expression sectionMarks_lacks)) fun _ => ?_
  refine SpendsAt.seq (.expect (by decide)) fun _ => ?_
  exact .pure rfl

/-! ## §4 Compound statements -/

section Statements

variable {body : Parser (List Tree)}

theorem spares_closed (h : Spares sectionMarks body) {g : List Tree → α} :
    Spares sectionMarks (do
      let stmts ← body
      let _ ← expect tv .rightBrace
      return g stmts) := by
  apply h.seq
  intro _
  refine SpendsAt.seq (.expect (by decide)) fun _ => ?_
  exact .pure rfl

theorem spares_guarded (h : Spares sectionMarks body) : Spares sectionMarks (guarded body) := by
  refine (Spares.parenthesized (sectionMarks_lacks.of_subset (by decide))
    (spares_expression sectionMarks_lacks)).seq fun _ => ?_
  refine SpendsAt.seq (.expect (by decide)) fun _ => ?_
  exact spares_closed h

theorem spares_branchWith (h : Spares sectionMarks body) :
    Spares sectionMarks (branchWith body) := by
  refine SpendsAt.seq (.expect (by decide)) fun _ => ?_
  apply (spares_guarded h).seq
  intro first
  refine SpendsAt.seq (.many looks_atElseIf ?_) fun others => SpendsAt.isAt ?_ (.pure rfl)
  · refine SpendsAt.seq (.expectAll (by decide)) fun _ => ?_
    exact spares_guarded h
  · refine SpendsAt.seq (.expectAll (by decide)) fun _ => ?_
    exact spares_closed h

theorem spares_forWith (h : Spares sectionMarks body) : Spares sectionMarks (forWith body) := by
  refine SpendsAt.seq (.expectAll (by decide)) fun _ => ?_
  apply (spares_plainStatement sectionMarks_lacks false).seq
  intro init
  apply (spares_plainStatement sectionMarks_lacks false).seq
  intro condition
  refine SpendsAt.seq .lookahead fun t => ?_
  have hrest : ∀ step, Spares sectionMarks (do
      expectAll tv [.rightParen, .leftBrace]
      let stmts ← body
      let _ ← expect tv .rightBrace
      return Tree.forLoop init condition step stmts) :=
    fun step => SpendsAt.seq (.expectAll (by decide)) fun _ => spares_closed h
  dsimp only
  split
  · exact (spares_update sectionMarks_lacks).seq hrest
  · exact (spares_plainStatement sectionMarks_lacks true).seq hrest

theorem spares_statementWith (h : Spares sectionMarks body) :
    Spares sectionMarks (statementWith body) := by
  refine SpendsAt.kind fun k _ => ?_
  refine SpendsAt.here ?_
  split
  · exact spares_branchWith h
  split
  · exact spares_forWith h
  split
  · exact spares_returnStatement
  split
  · exact spares_plainStatement sectionMarks_lacks false
  · exact .reject

theorem spares_bodyAt (n : Nat) : Spares sectionMarks (bodyAt n) := by
  induction n with
  | zero => exact .throw
  | succ n ih => exact SparesAt.many looks_isNotAt (spares_statementWith ih).here

theorem spares_body : Spares sectionMarks CrossGl.body := .nested spares_bodyAt

end Statements

/-! ## §5 Functions and sections -/

theorem spares_function : Spares sectionMarks function := by
  apply spares_typeName.seq
  intro vtype
  refine SpendsAt.check (w := .expected "MAIN or IDENTIFIER") ?_
  refine SpendsAt.seq (.takeText (.takeOf (by decide))) fun name => ?_
  refine SpendsAt.seq (.expect (by decide)) fun _ => ?_
  apply spares_parameters.seq
  intro params
  refine SpendsAt.seq (.expectAll (by decide)) fun _ => ?_
  exact spares_closed spares_body

/-- An item of a section that is no uniform. -/
theorem spares_sectionItem (s : SectionItems) :
    SparesAt sectionMarks (· ≠ .uniformWord) (sectionItem s) := by
  refine SpendsAt.kind fun k hk => ?_
  refine SpendsAt.here ?_
  split
  · next h => exact absurd h hk
  split
  · exact (spares_interface (by decide)).bind_pure fun _ _ => id
  split
  · exact (spares_interface (by decide)).bind_pure fun _ _ => id
  -- Whether it is a function is told by a token further on.
  have hrest : ∀ b : Bool, Spares sectionMarks (definition s k b) := by
    intro b
    unfold definition
    split
    · exact spares_function.bind_pure fun _ _ => id
    split
    · exact (spares_forWith spares_body).bind_pure fun _ _ => id
    split
    · exact (spares_branchWith spares_body).bind_pure fun _ _ => id
    split
    · exact (spares_plainStatement sectionMarks_lacks false).bind_pure fun _ _ => id
    · exact .reject
  dsimp only
  split
  · refine SpendsAt.seq .lookahead fun t => ?_
    exact hrest _
  · exact hrest false

end ShaderBridge.CrossGl
