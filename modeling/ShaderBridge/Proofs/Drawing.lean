import ShaderBridge.Proofs.Reading

/-!
# What parsers draw from tokens

`DrawsAt T K p P`: among tokens of the class `T`, in front of one of a kind with `K`, whatever the
parser gives satisfies `P`.  It knows what token a parser stands at, so something can be said of a
text that is taken from a token whose kind was looked at.
-/

namespace ShaderBridge.Parser

variable {α β : Type}

/-! ## §1 Tokens ahead -/

/-- Every token ahead has a text, the end perhaps apart. -/
def Texted (c : Cursor) : Prop := ∀ t ∈ c.rest, t.kind ≠ .endOfInput → t.text.isSome

theorem pastTrivia_suffix (tv : Trivia) (pos : Nat) (ts : List Token) :
    (Cursor.pastTrivia tv pos ts).rest <:+ ts := by
  induction ts generalizing pos with
  | nil => exact List.suffix_refl []
  | cons t ts ih =>
    rw [Cursor.pastTrivia]
    split
    · exact (ih (pos + 1)).trans (List.suffix_cons t ts)
    · exact List.suffix_refl _

theorem advance_suffix (tv : Trivia) (c : Cursor) : (c.advance tv).rest <:+ c.rest :=
  (pastTrivia_suffix tv _ _).trans (List.tail_suffix c.rest)

theorem Texted.exists_text {c : Cursor} (h : Texted c) (hk : c.kind ≠ .endOfInput) :
    ∃ s, Tree.ofText? c.current.text = .text s := by
  obtain ⟨pos, ts⟩ := c
  obtain ⟨t, rest, rfl, -⟩ := exists_cons_of_firstKind hk
  obtain ⟨s, hs⟩ := Option.isSome_iff_exists.1 (h t List.mem_cons_self hk)
  refine ⟨s, ?_⟩
  show Tree.ofText? t.text = _
  rw [hs]
  rfl

/-- A property of tokens that the end of a source has as well. -/
structure TokenClass where
  has : Token → Prop
  atEnd : has ⟨.endOfInput, none⟩

variable {T : TokenClass}

/-- All tokens ahead are of a class. -/
def Ahead (T : TokenClass) (c : Cursor) : Prop := ∀ t ∈ c.rest, T.has t

theorem Ahead.of_suffix {c d : Cursor} (h : Ahead T c) (hd : d.rest <:+ c.rest) : Ahead T d :=
  fun t ht => h t (hd.subset ht)

theorem Ahead.advance {c : Cursor} (h : Ahead T c) (tv : Trivia) : Ahead T (c.advance tv) :=
  h.of_suffix (advance_suffix tv c)

theorem Ahead.current {c : Cursor} (h : Ahead T c) : T.has c.current := by
  obtain ⟨pos, ts⟩ := c
  cases ts with
  | nil => exact T.atEnd
  | cons t ts => exact h t List.mem_cons_self

/-! ## §2 Parsers in sequence -/

/-- Among tokens of a class, in front of one of a kind with `K`, whatever the parser gives satisfies
`P`. -/
def DrawsAt (T : TokenClass) (K : TokenKind → Prop) (p : Parser α) (P : α → Prop) : Prop :=
  ∀ c a c', Ahead T c → K c.kind → p c = .ok a c' → P a ∧ Ahead T c'

/-- The same whatever token stands in front. -/
abbrev Draws (T : TokenClass) (p : Parser α) (P : α → Prop) : Prop := DrawsAt T (fun _ => True) p P

namespace DrawsAt

variable {K : TokenKind → Prop} {p q : Parser α} {f : α → Parser β} {P P' : α → Prop}
  {Q : β → Prop} {tv : Trivia} {k : TokenKind} {ks : List TokenKind}

theorem mono (h : DrawsAt T K p P) (hP : ∀ a, P a → P' a) : DrawsAt T K p P' := by
  intro c a c' hc hk hrun
  obtain ⟨ha, hc'⟩ := h c a c' hc hk hrun
  exact ⟨hP a ha, hc'⟩

theorem here (h : Draws T p P) : DrawsAt T K p P :=
  fun c a c' hc _ hrun => h c a c' hc trivial hrun

theorem known (h : DrawsAt T K p P) (hk : K k) : DrawsAt T (· = k) p P :=
  fun c a c' hc hk' hrun => h c a c' hc (hk' ▸ hk) hrun

theorem never (hK : ∀ k, ¬ K k) : DrawsAt T K p P := fun c _ _ _ hk _ => absurd hk (hK c.kind)

theorem pure {a : α} (h : P a) : DrawsAt T K (pure a) P := by
  rintro c _ _ hc - ⟨⟩
  exact ⟨h, hc⟩

theorem throw {e : Fault} : DrawsAt T K (throw e : Parser α) P := by
  rintro c _ _ _ _ ⟨⟩

theorem reject {why : Rejection} : DrawsAt T K (reject why : Parser α) P := throw

theorem bind (hp : DrawsAt T K p P) (hf : ∀ a, P a → Draws T (f a) Q) :
    DrawsAt T K (p >>= f) Q := by
  intro c b c' hc hk hrun
  obtain ⟨a, d, hrun₁, hrun₂⟩ := bind_eq_ok hrun
  obtain ⟨ha, hd⟩ := hp c a d hc hk hrun₁
  exact hf a ha d b c' hd trivial hrun₂

theorem seq (hp : DrawsAt T K p P) (hf : ∀ a, Draws T (f a) Q) : DrawsAt T K (p >>= f) Q := by
  apply hp.bind
  intro a _
  exact hf a

theorem pureThen {a : α} (h : DrawsAt T K (f a) Q) : DrawsAt T K (Pure.pure a >>= f) Q := by
  rwa [LawfulMonad.pure_bind]

theorem bind_pure {g : α → β} (hp : DrawsAt T K p P) (hg : ∀ a, P a → Q (g a)) :
    DrawsAt T K (do return g (← p)) Q := by
  apply hp.bind
  intro a ha
  exact pure (hg a ha)

theorem map {g : α → β} (hp : DrawsAt T K p P) (hg : ∀ a, P a → Q (g a)) :
    DrawsAt T K (g <$> p) Q := by
  rw [← bind_pure_comp]
  exact hp.bind_pure hg

/-! ## §3 Tokens -/

theorem look {g : Cursor → α} : DrawsAt T K (do return g (← get)) fun _ => True := by
  rintro c _ _ hc - ⟨⟩
  exact ⟨trivial, hc⟩

theorem kind {f : TokenKind → Parser β} (hf : ∀ k, K k → DrawsAt T (· = k) (f k) Q) :
    DrawsAt T K (kind >>= f) Q :=
  fun c a c' hc hk hrun => hf c.kind hk c a c' hc rfl hrun

theorem isAt {f : Bool → Parser β} (hyes : DrawsAt T (fun k => k ∈ ks ∧ K k) (f true) Q)
    (hno : DrawsAt T (fun k => k ∉ ks ∧ K k) (f false) Q) : DrawsAt T K (isAt ks >>= f) Q := by
  intro c a c' hc hk hrun
  rw [isAt_bind] at hrun
  by_cases h : c.kind ∈ ks
  · rw [decide_eq_true h] at hrun
    exact hyes c a c' hc ⟨h, hk⟩ hrun
  · rw [decide_eq_false h] at hrun
    exact hno c a c' hc ⟨h, hk⟩ hrun

theorem isNotAt {f : Bool → Parser β} (hyes : DrawsAt T (fun k => k ∉ ks ∧ K k) (f true) Q)
    (hno : DrawsAt T (fun k => k ∈ ks ∧ K k) (f false) Q) : DrawsAt T K (isNotAt ks >>= f) Q := by
  intro c a c' hc hk hrun
  rw [isNotAt_bind] at hrun
  by_cases h : c.kind ∈ ks
  · rw [decide_eq_false (not_not.2 h)] at hrun
    exact hno c a c' hc ⟨h, hk⟩ hrun
  · rw [decide_eq_true h] at hrun
    exact hyes c a c' hc ⟨h, hk⟩ hrun

theorem cond (hp : DrawsAt T (fun k => k ∈ ks ∧ K k) p P)
    (hq : DrawsAt T (fun k => k ∉ ks ∧ K k) q P) (hf : ∀ a, P a → Draws T (f a) Q) :
    DrawsAt T K (Parser.isAt ks >>= fun b => if b then p >>= f else q >>= f) Q :=
  isAt (hp.bind hf) (hq.bind hf)

theorem check {w : TokenKind → Rejection} {q : Parser β}
    (h : DrawsAt T (fun k => k ∈ ks ∧ K k) q Q) :
    DrawsAt T K (do
      if ← Parser.isNotAt ks then Parser.reject (w (← Parser.kind))
      q) Q :=
  isNotAt (kind fun _ _ => (reject (P := fun _ => False)).bind nofun) h

theorem lookahead {n : Nat} : DrawsAt T K (lookahead n) fun _ => True := by
  intro c a c' hc _ hrun
  obtain ⟨-, rfl⟩ := lookahead_eq_ok hrun
  exact ⟨trivial, hc⟩

theorem take : DrawsAt T K (take tv) fun t => K t.kind ∧ T.has t := by
  intro c a c' hc hk hrun
  rw [take_run] at hrun
  cases hrun
  exact ⟨⟨hk, hc.current⟩, hc.advance tv⟩

theorem expect : DrawsAt T K (expect tv k) fun t => t.kind = k ∧ T.has t := by
  intro c a c' hc _ hrun
  obtain ⟨hk, rfl, rfl⟩ := expect_eq_ok hrun
  exact ⟨⟨hk, hc.current⟩, hc.advance tv⟩

theorem takeText :
    DrawsAt T K (takeText tv) fun t => ∃ tok, (K tok.kind ∧ T.has tok) ∧ t = .ofText? tok.text := by
  refine take.bind_pure fun tok htok => ?_
  exact ⟨tok, htok, rfl⟩

theorem expectText :
    DrawsAt T K (expectText tv k)
      fun t => ∃ tok, (tok.kind = k ∧ T.has tok) ∧ t = .ofText? tok.text := by
  refine expect.bind_pure fun tok htok => ?_
  exact ⟨tok, htok, rfl⟩

theorem expectAll : DrawsAt T K (expectAll tv ks) fun _ => True := by
  induction ks generalizing K with
  | nil => exact pure trivial
  | cons k ks ih => exact expect.seq fun _ => ih

theorem accept : DrawsAt T K (accept tv k) fun _ => True :=
  isAt (take.seq fun _ => pure trivial) (pure trivial)

/-- A token that is not there cannot be read. -/
theorem unmet {f : Tree → Parser β} (hK : ∀ k', K k' → k' ≠ k) :
    DrawsAt T K (Parser.expectText tv k >>= f) Q := by
  intro c b c' _ hk hrun
  obtain ⟨name, d, hname, -⟩ := bind_eq_ok hrun
  obtain ⟨t, e, ht, -⟩ := bind_eq_ok hname
  exact absurd (expect_eq_ok ht).1 (hK _ hk)

theorem skipTrivia : DrawsAt T K (skipTrivia tv) fun _ => True := by
  rintro c _ _ hc - ⟨⟩
  exact ⟨trivial, hc.of_suffix (pastTrivia_suffix tv c.pos c.rest)⟩

end DrawsAt

/-! ## §4 Loops and nesting -/

/-- Asking whether to go on leaves everything in place, and the answer yes says something about the
current token. -/
def Looks (K : TokenKind → Prop) (go : Parser Bool) : Prop :=
  ∀ c again c', go c = .ok again c' → c' = c ∧ (again = true → K c.kind)

theorem looks_isAt {ks : List TokenKind} : Looks (· ∈ ks) (isAt ks) := by
  rintro c _ _ ⟨⟩
  exact ⟨rfl, of_decide_eq_true⟩

theorem looks_isNotAt {ks : List TokenKind} : Looks (· ∉ ks) (isNotAt ks) := by
  rintro c _ _ ⟨⟩
  exact ⟨rfl, of_decide_eq_true⟩

namespace DrawsAt

variable {K L : TokenKind → Prop} {p : Parser α} {P : α → Prop} {go : Parser Bool}
  {step : α → Parser α} {a : α}

theorem loop (hgo : Looks L go) (hstep : ∀ a, P a → DrawsAt T L (step a) P) (ha : P a) :
    DrawsAt T K (loop go step a) P := by
  intro c b c' hc hk hrun
  clear hk
  change loopAt go step (c.rest.length + 1) a c = .ok b c' at hrun
  -- The induction is on the rounds that are left.
  generalize c.rest.length + 1 = n at hrun
  induction n generalizing a c with
  | zero => cases hrun
  | succ n ih =>
    obtain ⟨hrun₁, rfl⟩ | ⟨d, a', e, hrun₁, hrun₂, -, hmore⟩ := loopAt_eq_ok_iff.1 hrun
    · obtain ⟨rfl, -⟩ := hgo c false c' hrun₁
      exact ⟨ha, hc⟩
    · obtain ⟨rfl, hL⟩ := hgo c true d hrun₁
      obtain ⟨ha', he⟩ := hstep a ha d a' e hc (hL rfl) hrun₂
      exact ih ha' e he hmore

theorem many (hgo : Looks L go) (hp : DrawsAt T L p P) :
    DrawsAt T K (many go p) fun as => ∀ a ∈ as, P a := by
  refine (loop (P := fun as => ∀ a ∈ as, P a) hgo ?_ (by simp)).bind_pure ?_
  · intro as has
    refine hp.bind_pure fun a ha => ?_
    exact List.forall_mem_cons.2 ⟨ha, has⟩
  · intro as has a ha
    exact has a (List.mem_reverse.1 ha)

theorem sepBy {tv : Trivia} {sep : TokenKind} (hp : Draws T p P) :
    DrawsAt T K (sepBy tv sep p) fun as => ∀ a ∈ as, P a := by
  apply hp.here.bind
  intro a ha
  refine (many looks_isAt (take.seq fun _ => hp)).bind_pure fun as has => ?_
  exact List.forall_mem_cons.2 ⟨ha, has⟩

theorem nested {p : Nat → Parser α} (hzero : p 0 = MonadExcept.throw Fault.endless)
    (h : ∀ n, Draws T (p n) P → Draws T (p (n + 1)) P) : DrawsAt T K (nested p) P := by
  have hlevel (n : Nat) : Draws T (p n) P := by
    induction n with
    | zero => exact hzero ▸ .throw
    | succ n ih => exact h n ih
  exact fun c a c' hc _ hrun => hlevel _ c a c' hc trivial hrun

end DrawsAt

/-! ## §5 Forms of expressions -/

namespace DrawsAt

open Ladder

variable {p : Parser α} {expr : Parser Tree} {K : TokenKind → Prop} {P : α → Prop} {Q : Tree → Prop}
  {tv : Trivia}

theorem untilClose {sep close : TokenKind} (hp : Draws T p P) :
    DrawsAt T K (untilClose tv sep close p) fun as => ∀ a ∈ as, P a :=
  many looks_isNotAt (hp.here.bind fun _ ha => accept.seq fun _ => pure ha)

theorem parenthesized (h : Draws T expr Q) : DrawsAt T K (parenthesized tv expr) Q := by
  apply expect.seq
  intro _
  apply h.bind
  intro _ he
  apply expect.seq
  intro _
  exact pure he

theorem strictArguments (h : Draws T expr Q) :
    DrawsAt T K (strictArguments tv expr) fun args => ∀ a ∈ args, Q a := by
  apply expect.seq
  intro _
  refine isAt (expect.seq fun _ => pure (by simp)) ?_
  apply (sepBy h).bind
  intro _ hargs
  apply expect.seq
  intro _
  exact pure hargs

theorem looseArguments (h : Draws T expr Q) :
    DrawsAt T K (looseArguments tv expr) fun args => ∀ a ∈ args, Q a := by
  apply expect.seq
  intro _
  apply (untilClose h).bind
  intro _ hargs
  apply expect.seq
  intro _
  exact pure hargs

end DrawsAt

end ShaderBridge.Parser
