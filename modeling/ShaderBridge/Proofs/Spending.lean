import ShaderBridge.Proofs.Making

/-!
# Which words a parser reads

`SpendsAt M K p P`: in front of a token of a kind with `K`, whatever the parser gives and the marks
of `M` that it reads on the way satisfy `P`.  Marks are tokens of kinds that are looked for.  A
parser that reads none spares them (`Spares`), as every expression does whose own tokens are no
marks.

The marks of declarations are the words that open a uniform, a vertex section or a fragment section
(`sectionMarks`).  Statements spare them, so the marks of a source are those of its declarations.
-/

namespace ShaderBridge.Parser

variable {α β : Type}

/-! ## §1 Marks -/

/-- The words that open a uniform, a vertex section or a fragment section. -/
def markKinds : List TokenKind := [.uniformWord, .vertexWord, .fragmentWord]

/-- The marks among kinds. -/
def marksOf (ks : List TokenKind) : List TokenKind := ks.filter (· ∈ markKinds)

/-- The marks among tokens, in their order. -/
def marks (ts : List Token) : List TokenKind := marksOf (ts.map (·.kind))

/-- Kinds of token that are looked for.  Comments are passed over and the end is no token, so they
are no marks. -/
structure Marks where
  kinds : List TokenKind
  solid : ∀ k ∈ kinds, k.isComment = false ∧ k ≠ .endOfInput

/-- The words of declarations. -/
def sectionMarks : Marks := ⟨markKinds, by decide⟩

namespace Marks

/-- The marks among tokens, in their order. -/
def among (M : Marks) (ts : List Token) : List Token := ts.filter (·.kind ∈ M.kinds)

variable {M : Marks}

theorem among_append (ts us : List Token) : M.among (ts ++ us) = M.among ts ++ M.among us := by
  simp [among]

theorem among_eq_nil_iff {ts : List Token} : M.among ts = [] ↔ ∀ t ∈ ts, t.kind ∉ M.kinds := by
  simp [among]

/-- The kinds are no marks. -/
abbrev Lacks (M : Marks) (ks : List TokenKind) : Prop := ∀ k ∈ ks, k ∉ M.kinds

theorem Lacks.of_subset {ks ls : List TokenKind} (h : M.Lacks ls) (hs : ∀ k ∈ ks, k ∈ ls) :
    M.Lacks ks :=
  fun k hk => h k (hs k hk)

theorem among_single {t : Token} (h : t.kind ∉ M.kinds) : M.among [t] = [] := by
  simp [among, h]

theorem among_single_of_mem {t : Token} (h : t.kind ∈ M.kinds) : M.among [t] = [t] := by
  simp [among, h]

theorem map_kind_among_sectionMarks (ts : List Token) :
    (sectionMarks.among ts).map (·.kind) = Parser.marks ts := by
  simp only [marks, marksOf, List.filter_map]
  rfl

end Marks

section Marks

variable {M : Marks}

/-- Comments have no marks. -/
theorem exists_pastTrivia (tv : Trivia) (pos : Nat) (ts : List Token) :
    ∃ skipped, ts = skipped ++ (Cursor.pastTrivia tv pos ts).rest ∧ M.among skipped = [] := by
  induction ts generalizing pos with
  | nil => exact ⟨[], rfl, rfl⟩
  | cons t ts ih =>
    rw [Cursor.pastTrivia]
    split
    · next hskips =>
      obtain ⟨skipped, hts, hmarks⟩ := ih (pos + 1)
      refine ⟨t :: skipped, congrArg (t :: ·) hts, ?_⟩
      rw [Marks.among_eq_nil_iff] at hmarks ⊢
      refine List.forall_mem_cons.2 ⟨fun hmem => ?_, hmarks⟩
      have hcomment : t.kind.isComment = true := by
        cases tv with
        | comments => exact hskips
        | blockComments =>
          rw [of_decide_eq_true hskips]
          rfl
      rw [(M.solid _ hmem).1] at hcomment
      cases hcomment
    · exact ⟨[], rfl, rfl⟩

theorem exists_advance (tv : Trivia) (c : Cursor) :
    ∃ used, c.rest = used ++ (c.advance tv).rest ∧ M.among used = M.among [c.current] := by
  obtain ⟨pos, ts⟩ := c
  cases ts with
  | nil =>
    have hend : TokenKind.endOfInput ∉ M.kinds := fun hmem => (M.solid _ hmem).2 rfl
    exact ⟨[], rfl, (Marks.among_single hend).symm⟩
  | cons t ts =>
    obtain ⟨skipped, hts, hmarks⟩ := exists_pastTrivia (M := M) tv (pos + 1) ts
    refine ⟨t :: skipped, congrArg (t :: ·) hts, ?_⟩
    rw [show t :: skipped = [t] ++ skipped from rfl, Marks.among_append, hmarks]
    exact List.append_nil _

end Marks

/-! ## §2 Parsers in sequence -/

/-- In front of a token of a kind with `K`, what the parser gives and the marks that it reads
satisfy `P`. -/
def SpendsAt (M : Marks) (K : TokenKind → Prop) (p : Parser α) (P : α → List Token → Prop) : Prop :=
  ∀ c a c', K c.kind → p c = .ok a c' → ∃ used, c.rest = used ++ c'.rest ∧ P a (M.among used)

/-- The same whatever token stands in front. -/
abbrev Spends (M : Marks) (p : Parser α) (P : α → List Token → Prop) : Prop :=
  SpendsAt M (fun _ => True) p P

/-- In front of a token of a kind with `K`, the parser reads no marks. -/
abbrev SparesAt (M : Marks) (K : TokenKind → Prop) (p : Parser α) : Prop :=
  SpendsAt M K p fun _ ms => ms = []

/-- The parser reads no marks. -/
abbrev Spares (M : Marks) (p : Parser α) : Prop := SparesAt M (fun _ => True) p

namespace SpendsAt

variable {M : Marks} {K : TokenKind → Prop} {p q : Parser α} {f : α → Parser β}
  {P P' : α → List Token → Prop} {Q : β → List Token → Prop} {tv : Trivia}
  {k : TokenKind} {ks : List TokenKind}

theorem mono (h : SpendsAt M K p P) (hP : ∀ a ms, P a ms → P' a ms) : SpendsAt M K p P' := by
  intro c a c' hk hrun
  obtain ⟨used, hused, ha⟩ := h c a c' hk hrun
  exact ⟨used, hused, hP a _ ha⟩

theorem here (h : Spends M p P) : SpendsAt M K p P := fun c a c' _ hrun => h c a c' trivial hrun

theorem pure {a : α} (h : P a []) : SpendsAt M K (pure a) P := by
  rintro c _ _ - ⟨⟩
  exact ⟨[], rfl, h⟩

theorem throw {e : Fault} : SpendsAt M K (throw e : Parser α) P := by
  rintro c _ _ _ ⟨⟩

theorem reject {why : Rejection} : SpendsAt M K (reject why : Parser α) P := throw

theorem bind (hp : SpendsAt M K p P)
    (hf : ∀ a ms, P a ms → Spends M (f a) fun b ns => Q b (ms ++ ns)) :
    SpendsAt M K (p >>= f) Q := by
  intro c b c' hk hrun
  obtain ⟨a, d, hrun₁, hrun₂⟩ := bind_eq_ok hrun
  obtain ⟨used, hused, ha⟩ := hp c a d hk hrun₁
  obtain ⟨more, hmore, hb⟩ := hf a _ ha d b c' trivial hrun₂
  refine ⟨used ++ more, ?_, ?_⟩
  · rw [hused, hmore, List.append_assoc]
  · rw [Marks.among_append]
    exact hb

theorem seq (hp : SparesAt M K p) (hf : ∀ a, Spends M (f a) Q) : SpendsAt M K (p >>= f) Q := by
  apply hp.bind
  intro a ms hms
  subst hms
  exact hf a

theorem bind_pure {g : α → β} (hp : SpendsAt M K p P) (hg : ∀ a ms, P a ms → Q (g a) ms) :
    SpendsAt M K (do return g (← p)) Q := by
  apply hp.bind
  intro a ms ha
  exact pure (by simpa using hg a ms ha)

theorem map {g : α → β} (hp : SpendsAt M K p P) (hg : ∀ a ms, P a ms → Q (g a) ms) :
    SpendsAt M K (g <$> p) Q := by
  rw [← bind_pure_comp]
  exact hp.bind_pure hg

/-! ## §3 Tokens -/

theorem look {g : Cursor → α} : SparesAt M K (do return g (← get)) := by
  rintro c _ _ - ⟨⟩
  exact ⟨[], rfl, rfl⟩

theorem kind {f : TokenKind → Parser β} (hf : ∀ k, K k → SpendsAt M (· = k) (f k) Q) :
    SpendsAt M K (kind >>= f) Q :=
  fun c a c' hk hrun => hf c.kind hk c a c' rfl hrun

theorem isAt {f : Bool → Parser β} (hyes : SpendsAt M (fun k => k ∈ ks ∧ K k) (f true) Q)
    (hno : SpendsAt M (fun k => k ∉ ks ∧ K k) (f false) Q) : SpendsAt M K (isAt ks >>= f) Q := by
  intro c a c' hk hrun
  rw [isAt_bind] at hrun
  by_cases h : c.kind ∈ ks
  · rw [decide_eq_true h] at hrun
    exact hyes c a c' ⟨h, hk⟩ hrun
  · rw [decide_eq_false h] at hrun
    exact hno c a c' ⟨h, hk⟩ hrun

theorem isNotAt {f : Bool → Parser β} (hyes : SpendsAt M (fun k => k ∉ ks ∧ K k) (f true) Q)
    (hno : SpendsAt M (fun k => k ∈ ks ∧ K k) (f false) Q) : SpendsAt M K (isNotAt ks >>= f) Q := by
  intro c a c' hk hrun
  rw [isNotAt_bind] at hrun
  by_cases h : c.kind ∈ ks
  · rw [decide_eq_false (not_not.2 h)] at hrun
    exact hno c a c' ⟨h, hk⟩ hrun
  · rw [decide_eq_true h] at hrun
    exact hyes c a c' ⟨h, hk⟩ hrun

theorem cond (hp : SparesAt M (fun k => k ∈ ks ∧ K k) p) (hq : SparesAt M (fun k => k ∉ ks ∧ K k) q)
    (hf : ∀ a, Spends M (f a) Q) :
    SpendsAt M K (Parser.isAt ks >>= fun b => if b then p >>= f else q >>= f) Q :=
  isAt (hp.seq hf) (hq.seq hf)

theorem check {w : TokenKind → Rejection} {q : Parser β}
    (h : SpendsAt M (fun k => k ∈ ks ∧ K k) q Q) :
    SpendsAt M K (do
      if ← Parser.isNotAt ks then Parser.reject (w (← Parser.kind))
      q) Q :=
  isNotAt (kind fun _ _ => (reject (P := fun _ _ => False)).bind nofun) h

theorem lookahead {n : Nat} : SparesAt M K (lookahead n) := by
  intro c a c' _ hrun
  obtain ⟨-, rfl⟩ := lookahead_eq_ok hrun
  exact ⟨[], rfl, rfl⟩

theorem take : SpendsAt M K (take tv) fun t ms => K t.kind ∧ ms = M.among [t] := by
  intro c a c' hk hrun
  rw [take_run] at hrun
  cases hrun
  obtain ⟨used, hused, hmarks⟩ := exists_advance tv c
  exact ⟨used, hused, hk, hmarks⟩

theorem expect : SpendsAt M K (expect tv k) fun t ms => t.kind = k ∧ ms = M.among [t] := by
  intro c a c' _ hrun
  obtain ⟨hk, rfl, rfl⟩ := expect_eq_ok hrun
  obtain ⟨used, hused, hmarks⟩ := exists_advance tv c
  exact ⟨used, hused, hk, hmarks⟩

end SpendsAt

namespace SparesAt

variable {M : Marks} {K : TokenKind → Prop} {p : Parser α} {tv : Trivia} {k l : TokenKind}
  {ks : List TokenKind}

theorem take (hK : ∀ k, K k → k ∉ M.kinds) : SparesAt M K (take tv) := by
  refine SpendsAt.take.mono ?_
  rintro t _ ⟨hk, rfl⟩
  exact Marks.among_single (hK _ hk)

theorem takeOf (h : M.Lacks ks) : SparesAt M (fun k => k ∈ ks ∧ K k) (Parser.take tv) := by
  refine take fun k hk => ?_
  exact h k hk.1

theorem takeIn (hk : k ∈ ks) (h : M.Lacks ks) : SparesAt M (· = k) (Parser.take tv) := by
  refine take ?_
  rintro _ rfl
  exact h _ hk

theorem takeText (h : SparesAt M K (Parser.take tv)) : SparesAt M K (Parser.takeText tv) :=
  h.bind_pure fun _ _ => id

theorem expect (h : k ∉ M.kinds) : SparesAt M K (expect tv k) := by
  refine SpendsAt.expect.mono ?_
  rintro t _ ⟨rfl, rfl⟩
  exact Marks.among_single h

theorem expectText (h : k ∉ M.kinds) : SparesAt M K (expectText tv k) :=
  (expect h).bind_pure fun _ _ => id

theorem expectAll (h : M.Lacks ks) : SparesAt M K (expectAll tv ks) := by
  induction ks generalizing K with
  | nil => exact .pure rfl
  | cons k ks ih =>
    obtain ⟨hk, hks⟩ := List.forall_mem_cons.1 h
    apply (expect hk).seq
    intro _
    exact ih hks

theorem accept (h : k ∉ M.kinds) : SparesAt M K (accept tv k) :=
  SpendsAt.isAt ((takeOf (List.forall_mem_singleton.2 h)).seq fun _ => .pure rfl) (.pure rfl)

end SparesAt

/-! ## §4 Loops and nesting -/

section Loops

variable {M : Marks} {K L : TokenKind → Prop} {p : Parser α} {go : Parser Bool}
    {step : α → Parser α} {a : α}
  {tv : Trivia}

/-- A loop spends the marks of its rounds. -/
theorem SpendsAt.loop {I : α → List Token → Prop} (hgo : Looks L go)
    (hstep : ∀ a ms, I a ms → SpendsAt M L (step a) fun b ns => I b (ms ++ ns)) (ha : I a []) :
    SpendsAt M K (loop go step a) I := by
  intro c b c' hk hrun
  clear hk
  change loopAt go step (c.rest.length + 1) a c = .ok b c' at hrun
  -- The induction is on the rounds that are left, with the marks of the rounds before.
  generalize c.rest.length + 1 = n at hrun
  suffices h : ∀ ms, I a ms → ∃ used, c.rest = used ++ c'.rest ∧ I b (ms ++ M.among used) from
    h [] ha
  clear ha
  induction n generalizing a c with
  | zero => cases hrun
  | succ n ih =>
    intro ms ha
    obtain ⟨hrun₁, rfl⟩ | ⟨d, a', e, hrun₁, hrun₂, -, hmore⟩ := loopAt_eq_ok_iff.1 hrun
    · obtain ⟨rfl, -⟩ := hgo c false c' hrun₁
      exact ⟨[], rfl, by simpa [Marks.among] using ha⟩
    · obtain ⟨rfl, hL⟩ := hgo c true d hrun₁
      obtain ⟨used, hused, ha'⟩ := hstep a ms ha d a' e (hL rfl) hrun₂
      obtain ⟨more, hrest, hb⟩ := ih e hmore _ ha'
      refine ⟨used ++ more, ?_, ?_⟩
      · rw [hused, hrest, List.append_assoc]
      · rw [Marks.among_append, ← List.append_assoc]
        exact hb

theorem SparesAt.loop (hgo : Looks L go) (hstep : ∀ a, SparesAt M L (step a)) :
    SparesAt M K (loop go step a) := by
  refine SpendsAt.loop hgo (fun a ms hms => ?_) rfl
  subst hms
  exact hstep a

theorem SparesAt.many (hgo : Looks L go) (hp : SparesAt M L p) : SparesAt M K (many go p) :=
  (loop hgo fun _ => hp.bind_pure fun _ _ => id).bind_pure fun _ _ => id

/-- A repetition of a parser that reads one mark. -/
theorem SpendsAt.many {k : TokenKind} (hgo : Looks L go)
    (hp : SpendsAt M L p fun _ ms => ms.map (·.kind) = [k]) :
    SpendsAt M K (many go p) fun as ms => ms.map (·.kind) = List.replicate as.length k := by
  refine (SpendsAt.loop (I := fun as ms => ms.map (·.kind) = List.replicate as.length k) hgo ?_
    rfl).bind_pure ?_
  · intro as ms hms
    refine hp.bind_pure fun a ns hns => ?_
    rw [List.map_append, hms, hns, ← List.replicate_succ']
    rfl
  · intro as ms hms
    rw [hms, List.length_reverse]

theorem SparesAt.sepBy {sep : TokenKind} (hsep : sep ∉ M.kinds) (hp : Spares M p) :
    SparesAt M K (sepBy tv sep p) := by
  refine hp.here.seq fun a => (many looks_isAt ?_).bind_pure fun _ _ => id
  exact (SparesAt.take fun k hk => by simpa [List.mem_singleton.1 hk] using hsep).seq fun _ => hp

theorem SpendsAt.nested {p : Nat → Parser α} {P : α → List Token → Prop}
    (h : ∀ n, Spends M (p n) P) : SpendsAt M K (nested p) P :=
  fun c a c' _ hrun => h _ c a c' trivial hrun

end Loops

/-! ## §5 Forms of expressions -/

open Ladder

/-- The kinds of token that ladders and forms of expressions read by themselves. -/
def ladderKinds : List TokenKind :=
  [.plus, .minus, .multiply, .divide, .question, .colon, .leftParen, .rightParen, .dot, .comma,
   .identifier]

namespace Spares

variable {M : Marks} {operand expr : Parser Tree} {tv : Trivia} {form : OperatorForm}
    {ops : List TokenKind}

theorem rung (hops : M.Lacks ops) (h : Spares M operand) :
    Spares M (rung tv form ops operand) := by
  apply h.seq
  intro first
  refine SparesAt.loop looks_isAt fun left => ?_
  apply (SparesAt.take hops).seq
  intro op
  exact h.bind_pure fun _ _ => id

variable (hM : M.Lacks ladderKinds)

include hM

theorem signed (h : Spares M operand) : Spares M (signed tv form operand) := by
  refine (SparesAt.many looks_isAt (SparesAt.take (hM.of_subset (by decide)))).seq fun _ => ?_
  exact h.bind_pure fun _ _ => id

theorem sum (h : Spares M operand) : Spares M (sum tv form operand) :=
  rung (hM.of_subset (by decide)) (rung (hM.of_subset (by decide)) h)

theorem choice (h : Spares M expr) (condition : Tree) : Spares M (choice tv expr condition) :=
  SpendsAt.isAt ((SparesAt.takeOf (hM.of_subset (by decide))).seq fun _ => h.seq fun _ =>
    (SparesAt.expect (hM _ (by decide))).seq fun _ => h.bind_pure fun _ _ => id) (.pure rfl)

theorem parenthesized (h : Spares M expr) : Spares M (parenthesized tv expr) := by
  refine (SparesAt.expect (hM _ (by decide))).seq fun _ => ?_
  apply h.seq
  intro _
  refine (SparesAt.expect (hM _ (by decide))).seq fun _ => ?_
  exact .pure rfl

theorem memberStep (object : Tree) : Spares M (memberStep tv object) := by
  refine (SparesAt.expect (hM _ (by decide))).seq fun _ => ?_
  exact SpendsAt.check (w := .expected "identifier after dot")
    ((SparesAt.takeText (SparesAt.takeOf (hM.of_subset (by decide)))).bind_pure fun _ _ => id)

theorem memberChain (object : Tree) : Spares M (memberChain tv object) := by
  apply (memberStep hM object).seq
  intro _
  refine SparesAt.loop looks_isAt fun t => ?_
  exact (memberStep hM t).here

theorem strictArguments (h : Spares M expr) : Spares M (strictArguments tv expr) := by
  refine (SparesAt.expect (hM _ (by decide))).seq fun _ => ?_
  refine SpendsAt.isAt ?_ ?_
  · refine (SparesAt.expect (hM _ (by decide))).seq fun _ => ?_
    exact .pure rfl
  · refine (SparesAt.sepBy (hM _ (by decide)) h).seq fun _ => ?_
    refine (SparesAt.expect (hM _ (by decide))).seq fun _ => ?_
    exact .pure rfl

end Spares

end ShaderBridge.Parser
