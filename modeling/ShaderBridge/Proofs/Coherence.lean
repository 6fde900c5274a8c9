import ShaderBridge.Proofs.CrossGl.Ending
import ShaderBridge.Proofs.Glsl.Ending
import ShaderBridge.Proofs.Hlsl.Ending
import ShaderBridge.Proofs.Metal.Ending
import ShaderBridge.Proofs.Mojo.Ending
import ShaderBridge.Session

/-!
# Sessions move on

Whatever is asked of a session, and whether it is answered or not, the session stands at the token
that its position names, never goes back, and has no comment in front of it once it has read a
token; reading an expression or a statement reads a token (`session_moves_on`).

What a parser does with its cursor was shown along with its ending.  Here every reader is traced
back to that (`Reader.Moves`), one language at a time; a step of a session is then a move of its
cursor (`onward_after`), and a run of steps keeps it in place (`placed_foldl`).
-/

namespace ShaderBridge

open ShaderBridge.Parser

/-! ## §1 Readers -/

/-- The parser moves on, and by `g` tokens if it gives a result. -/
abbrev Parser.Moves {α : Type} (tv : Trivia) (g : Nat) (p : Parser α) : Prop :=
  ∀ n, Ends (Setting.any tv).pair n g p

/-- The reader moves on whatever operands it is given. -/
def Reader.Moves (tv : Trivia) (g : Nat) (r : Reader) : Prop :=
  ∀ operands, Parser.Moves tv g (r operands)

namespace Reader.Moves

variable {tv : Trivia} {g j : Nat}

/-- Helper: to move on by more is to move on by less, and a wrong number of operands is a fault. -/
theorem of_le {p : Parser Tree} (h : Parser.Moves tv g p) (hj : j ≤ g) : Parser.Moves tv j p :=
  fun n => (h n).mono (Nat.le_refl n) (fun _ hk => hk) hj

theorem refused {n : Nat} : Ends (Setting.any tv).pair n j (throw .wrongSort : Parser Tree) :=
  .throw trivial

theorem plain {p : Parser Tree} (h : Parser.Moves tv g p) (hj : j ≤ g := by decide) :
    Moves tv j (plain p) := by
  intro operands
  cases operands with
  | nil => exact of_le h hj
  | cons _ _ => exact fun _ => refused

theorem plainList {p : Parser (List Tree)} (h : Parser.Moves tv g p) (hj : j ≤ g := by decide) :
    Moves tv j (plainList p) :=
  plain (fun n => (h n).bind fun _ => .pure) hj

theorem silent {p : Parser Unit} (h : Parser.Moves tv g p) (hj : j ≤ g := by decide) :
    Moves tv j (silent p) :=
  plain (fun n => (h n).bind fun _ => .pure) hj

theorem on {p : Tree → Parser Tree} (h : ∀ t, Parser.Moves tv g (p t)) (hj : j ≤ g := by decide) :
    Moves tv j (on p)
  | [a] => of_le (h a) hj
  | [] | _ :: _ :: _ => fun _ => refused

theorem onFlag {p : Bool → Parser Tree} (h : ∀ b, Parser.Moves tv g (p b))
    (hj : j ≤ g := by decide) : Moves tv j (onFlag p)
  | [] => of_le (h false) hj
  | [a] => of_le (h a.isSet) hj
  | _ :: _ :: _ => fun _ => refused

theorem onWithFlag {p : Tree → Bool → Parser Tree} (h : ∀ t b, Parser.Moves tv g (p t b))
    (hj : j ≤ g := by decide) : Moves tv j (onWithFlag p)
  | [a] => of_le (h a false) hj
  | [a, b] => of_le (h a b.isSet) hj
  | [] | _ :: _ :: _ :: _ => fun _ => refused

end Reader.Moves

namespace Language

/-- The expressions and statements of a language, none of which is read without reading a token. -/
def strides : Language → List Construct
  | crossGl | glsl => [.expression, .plainStatement, .branch, .forLoop, .returned]
  | hlsl | metal | mojo => [.expression, .statement]

/-- The number of tokens that are read at least where a construct is read. -/
def stride (lang : Language) (k : Construct) : Nat := if k ∈ lang.strides then 1 else 0

theorem ends_expectLabel (lang : Language) {wanted : Tree} {n : Nat} :
    Ends (Setting.any lang.trivia).pair n 0 (lang.expectLabel wanted) := by
  apply EndsAt.current
  intro _ _ _
  exact .ite (fun _ => EndsAt.take_any.seq fun _ => .pure) fun _ => .reject

end Language

/-! ## §2 The readers of each language -/

open Reader

variable {k : Construct} {r : Reader}

/-- Every reader of the shared ladder moves on if the operands do. -/
theorem Ladder.moves_reader {tv : Trivia} {operand : Parser Tree} (hoperand : Moves tv 1 operand)
    (h : reader? tv operand k = some r) : r.Moves tv 0 := by
  cases k <;> cases h
  case disjunction => exact .plain fun n => .disjunction (hoperand n)
  case conjunction => exact .plain fun n => .conjunction (hoperand n)
  case equality => exact .plain fun n => .equality (hoperand n)
  case relation => exact .plain fun n => .relation (hoperand n)
  case sum => exact .plain fun n => .sum (hoperand n)
  case product => exact .plain fun n => .product (hoperand n)
  case unary => exact .plain hoperand

/-- Every reader of CrossGL moves on.  Any fault is allowed here, those of the three places too. -/
theorem CrossGl.moves_reader (h : reader? k = some r) :
    r.Moves tv (Language.stride .crossGl k) := by
  have hS : Allows (.any tv) :=
    ⟨fun _ _ _ _ _ => trivial, fun _ _ _ => trivial, fun _ _ _ => trivial, fun _ _ _ => trivial⟩
  have hexpr : Moves tv 1 expression := fun n => ends_expression
  have hunary (n : Nat) := ends_unaryWith (hexpr (n - 1))
  have hbody : Moves tv 0 body := fun n => ends_body hS
  -- A construct that the language lacks has no reader.
  cases k <;> cases h
  case source | shader => exact .plain fun _ => ends_shader hS
  case shaderSection =>
    refine .on (g := 0) fun _ _ => ?_
    apply (Language.ends_expectLabel .crossGl).seq
    intro _
    exact (ends_sectionBody hS).seq fun _ => .pure
  case inputs | outputs | uniforms => exact .plainList fun _ => ends_interface (by decide)
  case function => exact .plain fun _ => ends_function hS
  case parameters => exact .plainList fun _ => ends_parameters
  case parameter => exact .plain fun _ => ends_parameter
  case typeName => exact .plain fun _ => ends_typeName
  -- Statements.
  case body => exact .plainList hbody
  case branch => exact .plain fun n => ends_branchWith hS (hbody (n - 1))
  case forLoop => exact .plain fun n => ends_forWith hS (hbody (n - 1))
  case update => exact .plain fun _ => ends_update hS
  case returned => exact .plain fun _ => ends_returnStatement
  case plainStatement => exact .onFlag fun b _ => ends_plainStatement hS b
  case declaration => exact .onWithFlag fun t b _ => ends_declaration t b
  case assignment => exact .on fun t _ => ends_assignmentTo t
  -- Expressions, from the loosest form to single operands.
  case expression => exact .plain hexpr
  case choice => exact .plain fun n => ends_choiceWith (hexpr (n - 1))
  case sum => exact .plain fun n => .sum (hunary n)
  case product => exact .plain fun n => .product (hunary n)
  case unary => exact .plain hunary
  case primary => exact .plain fun n => ends_primaryWith (hexpr (n - 1))
  case call => exact .on fun t _ => ends_callOf t
  case nameOrCall => exact .plain fun n => ends_nameOrCallWith (hexpr (n - 1))
  case member => exact .on fun t _ => .memberChain t

/-- Every reader of HLSL moves on. -/
theorem Hlsl.moves_reader (h : reader? k = some r) :
    r.Moves tv (Language.stride .hlsl k) := by
  have hexpr : Moves tv 1 expression := fun n => ends_expression
  have hunary : Moves tv 1 (unaryWith expression) := fun n =>
    .signed (ends_primaryWith (hexpr (n - 1)))
  have hblock : Moves tv 0 block := fun n => ends_block
  have hladder : Ladder.reader? tv (unaryWith expression) k = some r → r.Moves tv 0 :=
    Ladder.moves_reader hunary
  cases k
  case disjunction | conjunction | equality | relation | sum | product | unary => exact hladder h
  -- A construct that the language lacks has no reader.
  all_goals cases h
  case source => exact .plain fun _ => ends_source
  case shader => exact .plain fun _ => ends_shader
  case struct => exact .plain fun _ => ends_structParts.lead fun _ => .pure
  case function => exact .plain fun _ => ends_function
  case parameters => exact .plainList fun _ => .untilClose ends_parameter
  -- Statements.
  case body => exact .plainList hblock
  case statement => exact .plain fun n => ends_statementWith (hblock (n - 1))
  case plainStatement => exact .plain fun _ => ends_declarationOrAssignment
  case forLoop => exact .plain fun n => ends_forWith (hblock (n - 1))
  case returned => exact .plain fun _ => ends_returnStatement
  case expressionStatement => exact .plain fun _ => ends_expressionStatement
  case branch => exact .plain fun n => ends_branchWith (hblock (n - 1))
  case elseIf => exact .plain fun n => ends_elseIfWith (hblock n)
  -- Expressions, from the loosest form to single operands.
  case expression => exact .plain hexpr
  case assignment => exact .plain fun _ => ends_assignment
  case primary => exact .plain fun n => ends_primaryWith (hexpr (n - 1))
  case nameOrCall => exact .plain fun n => ends_nameOrCallWith (hexpr (n - 1))
  case construction | call =>
    exact .on fun _ n => (EndsAt.looseArguments (hexpr (n - 1))).lead fun _ => .pure
  case member => exact .on fun t _ => .memberChain t

/-- Every reader of Metal moves on, also at a directive that is never closed. -/
theorem Metal.moves_reader (h : reader? k = some r) :
    r.Moves tv (Language.stride .metal k) := by
  have hexpr : Moves tv 1 expression := fun n => ends_expression
  have hunary : Moves tv 1 (unaryWith expression) := fun n =>
    .signed (ends_primaryWith (hexpr (n - 1)))
  have hblock : Moves tv 0 block := fun n => ends_block
  have hladder : Ladder.reader? tv (unaryWith expression) k = some r → r.Moves tv 0 :=
    Ladder.moves_reader hunary
  cases k
  case disjunction | conjunction | equality | relation | sum | product | unary => exact hladder h
  -- A construct that the language lacks has no reader.
  all_goals cases h
  case source => exact .plain fun _ => ends_source trivial trivial
  case shader => exact .plain fun _ => ends_shader trivial trivial
  case directive => exact .silent fun _ => ends_directive trivial
  case «using» => exact .silent fun _ => .expectAll (by decide)
  case struct => exact .plain fun _ => ends_struct trivial
  case constantBuffer => exact .plain fun _ => ends_constantBuffer
  case function => exact .plain fun _ => ends_function trivial
  case parameters => exact .plainList fun _ => ends_parameters trivial
  case attributes => exact .plainList fun _ => .attributes fun _ => trivial
  -- Statements.
  case body => exact .plainList hblock
  case statement => exact .plain fun n => ends_statementWith (hblock (n - 1))
  case plainStatement => exact .plain fun _ => ends_declarationOrAssignment
  case forLoop => exact .plain fun n => ends_forWith (hblock (n - 1))
  case returned => exact .plain fun _ => ends_returnStatement
  case expressionStatement => exact .plain fun _ => ends_expressionStatement
  case branch =>
    -- On its own a branch may have no condition at all, so it need not read a token.
    have hguarded {word : TokenKind} (n : Nat) (h : word ≠ .endOfInput) :=
      ends_guarded h (hblock (n - 1))
    refine .plain (g := 0) fun n => ?_
    refine EndsAt.seq (.manyAt (hguarded n (by decide)).here) fun _ => ?_
    refine (EndsAt.manyAt (hguarded n (by decide)).here).seq fun _ => ?_
    refine EndsAt.isAt ?_ (EndsAt.pure.seq fun _ => .pure)
    apply EndsAt.take_any.seq
    intro _
    apply (hblock n).seq
    intro _
    exact EndsAt.pure.seq fun _ => .pure
  -- Expressions, from the loosest form to single operands.
  case expression | assignment => exact .plain hexpr
  case primary => exact .plain fun n => ends_primaryWith (hexpr (n - 1))
  case nameOrCall => exact .plain fun n => ends_nameOrCallWith (hexpr (n - 1))
  case construction | call =>
    exact .on fun _ n => (EndsAt.looseArguments (hexpr (n - 1))).lead fun _ => .pure
  case member => exact .on fun t _ => .memberChain t
  case textureSample =>
    refine .plain fun n => (hexpr n).lead fun _ => ?_
    apply EndsAt.expectAll_any.seq
    intro _
    apply (hexpr _).loose.seq
    intro _
    apply EndsAt.expect_any.seq
    intro _
    apply (hexpr _).loose.seq
    intro _
    exact EndsAt.expect_any.seq fun _ => .pure

/-- Every reader of GLSL moves on. -/
theorem Glsl.moves_reader (h : reader? k = some r) :
    r.Moves tv (Language.stride .glsl k) := by
  have hS : (Setting.any tv).Lenient := fun _ _ _ _ _ => trivial
  have hexpr : Moves tv 1 expression := fun n => ends_expression
  have hprimary (n : Nat) := ends_primaryWith (hexpr (n - 1))
  have hbody : Moves tv 0 body := fun n => ends_body hS
  have hwords {word : TokenKind} {build : Tree → Tree → Tree} (n : Nat) (h : .endOfInput ∉ [word]) :
      Ends (Setting.any tv).pair n 0 (declarations word build) :=
    .manyAt ((EndsAt.takeOf h).lead fun _ => ends_typedName.seq fun _ => .pure)
  -- A construct that the language lacks has no reader.
  cases k <;> cases h
  case source => exact .plain fun _ => ends_source hS trivial
  case shader => exact .on fun t _ => ends_shader hS trivial t
  case shaderSection => exact .on fun t _ => ends_bracedSection hS t
  case inputs | outputs | uniforms => exact .plainList fun n => hwords n (by decide)
  case version => exact .plain fun _ => ends_version
  case layout => exact .on fun t _ => ends_layout t
  case function => exact .plain fun _ => ends_function hS
  case parameters => exact .plainList fun _ => ends_parameters
  case parameter => exact .plain fun _ => ends_parameter
  case typeName => exact .plain fun _ => ends_typeName
  -- Statements.
  case body => exact .plainList hbody
  case branch => exact .plain fun n => ends_branchWith (hbody (n - 1))
  case alternatives =>
    exact .plain fun n => EndsAt.seq (ends_alternativesWith (hbody n)) fun _ => .pure
  case forLoop => exact .plain fun n => ends_forWith hS (hbody (n - 1))
  case update => exact .plain fun _ => ends_update
  case returned => exact .plain fun _ => ends_returnStatement
  case plainStatement => exact .plain fun _ => ends_plainStatement hS
  case declaration => exact .on fun t _ => ends_declaration hS t
  case assignment => exact .plain fun _ => ends_assignment
  -- Expressions, from the loosest form to single operands.
  case expression => exact .plain hexpr
  case sum => exact .plain fun n => .sum (hprimary n)
  case product => exact .plain fun n => .product (hprimary n)
  case primary => exact .plain hprimary
  case call => exact .on fun _ n => (EndsAt.strictArguments (hexpr (n - 1))).lead fun _ => .pure
  case nameOrCall => exact .plain fun n => ends_nameOrCallWith (hexpr (n - 1))
  case member => exact .on fun t _ => .memberChain t
  case arguments => exact .plainList fun n => .untilClose (hexpr n)

/-- Every reader of Mojo moves on, also in a class that is never closed. -/
theorem Mojo.moves_reader (h : reader? k = some r) :
    r.Moves tv (Language.stride .mojo k) := by
  have hexpr : Moves tv 1 expression := fun n => ends_expression
  have hunary : Moves tv 1 (unaryWith expression) := fun n =>
    .signed (ends_primaryWith (hexpr (n - 1)))
  have hblock : Moves tv 0 block := fun n => ends_block fun _ => trivial
  have hS : (Setting.any tv).pair.kinds .attributeMark → (Setting.any tv).pair.faults .wrongSort :=
    fun _ => trivial
  have hclass : Moves tv 1 classDef := fun _ => ends_classDef hS trivial
  have hladder : Ladder.reader? tv (unaryWith expression) k = some r → r.Moves tv 0 :=
    Ladder.moves_reader hunary
  cases k
  case disjunction | conjunction | equality | relation | sum | product | unary => exact hladder h
  -- A construct that the language lacks has no reader.
  all_goals cases h
  case source => exact .plain fun n => ends_source hS fun _ => hclass n
  case shader => exact .plain fun n => ends_moduleItems hS fun _ => hclass n
  case importDef => exact .plain fun _ => ends_importStatement
  case struct => exact .plain fun _ => ends_struct hS
  case classDef => exact .plain hclass
  case constantBuffer => exact .plain fun _ => ends_constantBuffer
  case function => exact .plain fun n => ends_functionWith hS (hblock (n - 1))
  case parameters => exact .plainList fun _ => ends_parameters hS
  case attributes => exact .plainList fun _ => .attributes hS
  -- Statements.
  case body => exact .plainList hblock
  case statement => exact .plain fun n => ends_statementWith hS (hblock (n - 1))
  case plainStatement => exact .plain fun _ => ends_declarationOrAssignment
  case forLoop => exact .plain fun n => ends_forWith (hblock (n - 1))
  case returned => exact .plain fun _ => ends_returnStatement
  case expressionStatement => exact .plain fun _ => ends_expressionStatement
  case branch => exact .plain fun n => ends_branchWith (hblock (n - 1))
  case whileLoop => exact .plain fun n => ends_whileWith (hblock (n - 1))
  case switch => exact .plain fun n => ends_switchWith (hblock (n - 1))
  case switchCase => exact .plain fun n => ends_switchCaseWith (hblock n)
  -- Expressions, from the loosest form to single operands.
  case expression | assignment => exact .plain hexpr
  case primary => exact .plain fun n => ends_primaryWith (hexpr (n - 1))
  case nameOrCall => exact .plain fun n => ends_nameOrCallWith (hexpr (n - 1))
  case construction =>
    exact .on fun _ n => (EndsAt.looseArguments (hexpr (n - 1))).lead fun _ => .pure
  case call => exact .on fun _ n => (ends_argumentsWith (hexpr (n - 1))).lead fun _ => .pure
  case member => exact .on fun t n => ends_memberWith (hexpr n) t
  case decorator => exact .plain fun _ => ends_decorator

theorem Language.moves_reader {lang : Language}
    (h : lang.reader? k = some r) : r.Moves lang.trivia (lang.stride k) := by
  cases lang with
  | crossGl => exact CrossGl.moves_reader h
  | hlsl => exact Hlsl.moves_reader h
  | metal => exact Metal.moves_reader h
  | glsl => exact Glsl.moves_reader h
  | mojo => exact Mojo.moves_reader h

/-! ## §3 Sessions -/

namespace Session

/-- The session behind a request, whether this was answered or not. -/
def after (s : Session) (r : Request) : Session :=
  match answer s.lang s.tokens r s.cursor with
  | .ok _ cursor => { s with cursor }
  | .error _ cursor => { s with cursor }

/-- The number of tokens that are read at least where a request is answered. -/
def gain (lang : Language) : Request → Nat
  | .read k _ => lang.stride k
  | _ => 0

variable {lang : Language} {tokens : List Token} {s : Session}

/-- Every request comes to an end, and those for an expression or a statement read a token. -/
theorem ends_answer (r : Request) (n : Nat) :
    Ends (Setting.any lang.trivia).pair n (gain lang r) (answer lang tokens r) := by
  cases r with
  | expect label =>
    exact (Language.ends_expectLabel lang).seq fun _ => .pure
  | skipComments => exact EndsAt.skipTrivia.seq fun _ => .pure
  -- Looking ahead leaves the cursor where it is.
  | lookAt offset =>
    simp only [answer]
    split
    · exact .throw trivial
    · have hget : Ends (Setting.any lang.trivia).pair n 0 get := by
        rintro c _ ⟨rfl, hc⟩ _ _
        exact .stay ⟨rfl, hc⟩
      apply hget.seq
      intro c
      split
      · exact .pure
      · exact .throw trivial
  | read k operands =>
    simp only [answer]
    split
    · next reader hreader => exact Language.moves_reader hreader operands n
    · exact .throw trivial

theorem settles_answer (s : Session) (r : Request) :
    (Setting.any s.lang.trivia).Settles (gain s.lang r) s.cursor
      (answer s.lang s.tokens r s.cursor) :=
  (ends_answer r _).settles ⟨fun _ _ => trivial, trivial⟩ (Nat.lt_succ_self _) trivial

/-- A step of a session is a move of its cursor. -/
theorem onward_after (s : Session) (r : Request) :
    Onward s.lang.trivia s.cursor (s.after r).cursor := by
  have hsettles := settles_answer s r
  rw [after]
  split <;> simp_all [Setting.Settles]

/-- An answer that is promised to read a token does so. -/
theorem pos_lt_of_run {r : Request} {t : Tree} {s' : Session} (hgain : gain s.lang r = 1)
    (h : s.run r = .ok (t, s')) : s' = s.after r ∧ s.cursor.pos < s'.cursor.pos := by
  have hsettles := settles_answer s r
  rw [run] at h
  rw [after]
  cases hanswer : answer s.lang s.tokens r s.cursor with
  | error e c =>
    rw [hanswer] at h
    cases h
  | ok t' c =>
    rw [hanswer] at h hsettles
    cases h
    refine ⟨rfl, ?_⟩
    obtain ⟨hon, hread⟩ := hsettles
    rw [hgain] at hread
    cases hon with
    | stay => omega
    | moved pos _ _ => exact pos

/-- The session stands at the token that its position names, and behind the first token not in
front of a comment. -/
structure Placed (lang : Language) (tokens : List Token) (s : Session) : Prop where
  sameLang : s.lang = lang
  sameTokens : s.tokens = tokens
  rest : s.cursor.rest = tokens.drop s.cursor.pos
  comment : 0 < s.cursor.pos → lang.trivia.skips s.cursor.kind = false

theorem Placed.after (h : Placed lang tokens s) (r : Request) : Placed lang tokens (s.after r) := by
  obtain ⟨rfl, rfl, hrest, hcomment⟩ := h
  have hon := onward_after s r
  have hfixed : (s.after r).lang = s.lang ∧ (s.after r).tokens = s.tokens := by
    rw [Session.after]
    split <;> exact ⟨rfl, rfl⟩
  generalize s.after r = s' at hon hfixed ⊢
  obtain ⟨lang, tokens, c⟩ := s'
  cases hon with
  | stay => exact ⟨hfixed.1, hfixed.2, hrest, hcomment⟩
  | moved pos rest kind =>
    refine ⟨hfixed.1, hfixed.2, ?_, fun _ => kind⟩
    rw [rest, hrest, List.drop_drop]
    congr 1
    omega

/-- A run of requests keeps the session in place, by induction on the requests. -/
theorem placed_foldl (h : Placed lang tokens s) (asked : List Request) :
    Placed lang tokens (asked.foldl Session.after s) := by
  induction asked generalizing s with
  | nil => exact h
  | cons r asked ih => exact ih (h.after r)

/-- A session over some tokens can be started. -/
theorem exists_start (lang : Language) (h : tokens ≠ []) :
    ∃ s, start lang tokens = .ok s ∧ Placed lang tokens s := by
  refine ⟨_, if_neg (by simpa using h), ?_⟩
  split
  · obtain ⟨-, hrest, hkind⟩ := pastTrivia_stop lang.trivia 0 tokens
    exact ⟨rfl, rfl, hrest, fun _ => hkind⟩
  · exact ⟨rfl, rfl, rfl, fun hpos => absurd hpos (Nat.lt_irrefl 0)⟩

/-- A session over any tokens, asked for anything in any order, with or without an answer.  Behind
each request it stands at the token that its position names, or at an end token behind the last; it
has not gone back; and once it has left the first token it is in front of no comment.  Whenever an
expression or a statement is read, it has moved on. -/
theorem session_moves_on (lang : Language) (h : tokens ≠ []) :
    ∃ s₀, start lang tokens = .ok s₀ ∧ ∀ (asked : List Request) (r : Request),
      let s := asked.foldl after s₀
      let s' := s.after r
      s'.cursor.current = (tokens[s'.cursor.pos]?).getD Token.pastEnd ∧
        s.cursor.pos ≤ s'.cursor.pos ∧
        (0 < s'.cursor.pos → lang.trivia.skips s'.cursor.kind = false) ∧
        ∀ k operands t s'', r = .read k operands → k ∈ lang.strides → s.run r = .ok (t, s'') →
          s'' = s' ∧ s.cursor.pos < s'.cursor.pos := by
  obtain ⟨s₀, hstart, hplaced₀⟩ := exists_start lang h
  refine ⟨s₀, hstart, fun asked r => ?_⟩
  -- What a session keeps holds before and after the request.
  have hplaced := placed_foldl hplaced₀ asked
  have hplaced' := hplaced.after r
  refine ⟨?_, (onward_after _ r).pos_le, hplaced'.comment, ?_⟩
  · rw [Cursor.current, hplaced'.rest, List.head?_drop]
  · rintro k operands t s'' rfl hk hrun
    have hgain : gain (asked.foldl after s₀).lang (.read k operands) = 1 := by
      rw [hplaced.sameLang]
      exact if_pos hk
    obtain ⟨rfl, hpos⟩ := pos_lt_of_run hgain hrun
    exact ⟨rfl, hpos⟩

/-- A sum with comments around its tokens. -/
def commentedSum : List Token :=
  [⟨.lineComment, none⟩, ⟨.identifier, some "a".toList⟩, ⟨.lineComment, none⟩,
    ⟨.plus, some "+".toList⟩, ⟨.blockComment, none⟩, ⟨.identifier, some "b".toList⟩]

theorem session_moves_on_commentedSum :
    commentedSum ≠ [] ∧ ∃ s₀, start .hlsl commentedSum = .ok s₀ ∧
      (∀ (asked : List Request) (r : Request),
        (asked.foldl after s₀).cursor.pos ≤ ((asked.foldl after s₀).after r).cursor.pos) ∧
      ∃ t s', s₀.run (.read .expression []) = .ok (t, s') ∧ s₀.cursor.pos < s'.cursor.pos := by
  obtain ⟨s₀, hstart, h⟩ := @session_moves_on commentedSum .hlsl (by decide)
  refine ⟨by decide, s₀, hstart, fun asked r => (h asked r).2.1, ?_⟩
  cases hstart
  exact ⟨_, _, rfl, ((h [] (.read .expression [])).2.2.2 _ [] _ _ rfl (by decide) rfl).2⟩

end Session

end ShaderBridge
