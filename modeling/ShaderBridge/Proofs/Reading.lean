import Mathlib.Data.List.Forall2
import ShaderBridge.Grammar.Ladder

/-!
# Reading tokens without comments

Facts about parsers on token lists that hold no comments.

- `Reads p w a rest`: put in front of `w ++ rest`, the parser reads exactly `w` and gives `a`.
  This is the form in which completeness of a grammar is stated.
- `Finds p V`: whatever the parser reads and gives is related by `V`.  This is the form in which
  soundness of a grammar is stated.

Both are closed under the ways in which parsers are put together, loops included.
-/

namespace ShaderBridge

/-! ## §1 Token lists -/

variable {ts : List Token} {ks : List TokenKind} {k : TokenKind}

@[simp] theorem TokenKind.isComment_eq_false :
    k.isComment = false ↔ k ≠ .lineComment ∧ k ≠ .blockComment := by
  cases k <;> simp [TokenKind.isComment]

/-- No comment stands among the tokens. -/
def CommentFree (ts : List Token) : Prop := ∀ t ∈ ts, t.kind.isComment = false

@[simp] theorem commentFree_nil : CommentFree [] := by simp [CommentFree]

@[simp] theorem commentFree_cons {t : Token} :
    CommentFree (t :: ts) ↔ t.kind.isComment = false ∧ CommentFree ts := by
  simp [CommentFree]

@[simp] theorem commentFree_append {us : List Token} :
    CommentFree (ts ++ us) ↔ CommentFree ts ∧ CommentFree us := by
  simp only [CommentFree, List.mem_append, or_imp, forall_and]

/-- The kind of the first token; past the last token every token is an end token. -/
def firstKind (ts : List Token) : TokenKind := (ts.head?.getD Token.pastEnd).kind

@[simp] theorem firstKind_nil : firstKind [] = .endOfInput := rfl

@[simp] theorem firstKind_cons (t : Token) (ts : List Token) : firstKind (t :: ts) = t.kind := rfl

theorem CommentFree.not_skips (h : CommentFree ts) :
    Trivia.comments.skips (firstKind ts) = false := by
  cases ts with
  | nil => rfl
  | cons t rest => exact (commentFree_cons.1 h).1

theorem exists_cons_of_firstKind (h : firstKind ts ≠ .endOfInput) :
    ∃ t rest, ts = t :: rest ∧ t.kind = firstKind ts := by
  cases ts with
  | nil => exact absurd rfl h
  | cons t rest => exact ⟨t, rest, rfl, rfl⟩

/-- A token of one of the given kinds. -/
abbrev TokenOf (ks : List TokenKind) := {t : Token // t.kind ∈ ks}

/-- A token with a text for the slot of a single kind. -/
def slot (k : TokenKind) (s : Text) : TokenOf [k] := ⟨⟨k, some s⟩, by simp⟩

theorem TokenOf.mem {ks' : List TokenKind} (t : TokenOf ks) (h : ∀ k ∈ ks, k ∈ ks') :
    t.1.kind ∈ ks' :=
  h _ t.2

theorem TokenOf.notMem {ks' : List TokenKind} (t : TokenOf ks) (h : ∀ k ∈ ks, k ∉ ks') :
    t.1.kind ∉ ks' :=
  h _ t.2

@[simp] theorem TokenOf.kind_ne (t : TokenOf ks)
    (h : k ∉ ks) : ¬t.1.kind = k :=
  fun hk => h (hk ▸ t.2)

@[simp] theorem TokenOf.kind_eq (t : TokenOf [k]) : t.1.kind = k := by
  simpa using t.2

namespace Cursor

@[simp] theorem kind_mk (pos : Nat) (ts : List Token) :
    (⟨pos, ts⟩ : Cursor).kind = firstKind ts := rfl

@[simp] theorem current_cons (pos : Nat) (t : Token) (ts : List Token) :
    (⟨pos, t :: ts⟩ : Cursor).current = t := rfl

variable {ts : List Token}

/-- In front of a token that is not passed over nothing is. -/
theorem pastTrivia_of_firstKind {tv : Trivia} (h : tv.skips (firstKind ts) = false)
    (pos : Nat) : pastTrivia tv pos ts = ⟨pos, ts⟩ := by
  cases ts with
  | nil => rfl
  | cons t rest =>
    rw [firstKind_cons] at h
    rw [pastTrivia, h, if_neg Bool.false_ne_true]

/-- Where no comment stands ahead, passing over comments stays in place. -/
theorem pastTrivia_of_commentFree (h : CommentFree ts) (pos : Nat) :
    pastTrivia .comments pos ts = ⟨pos, ts⟩ :=
  pastTrivia_of_firstKind h.not_skips pos

@[simp] theorem advance_cons (h : CommentFree ts) (pos : Nat) (t : Token) :
    advance .comments ⟨pos, t :: ts⟩ = ⟨pos + 1, ts⟩ :=
  pastTrivia_of_commentFree h (pos + 1)

end Cursor

namespace Parser

variable {α β : Type}

/-! ## §2 Runs of simple parsers -/

section Runs

variable (c : Cursor)

variable {c' : Cursor} {p : Parser α} {f : α → Parser β}

theorem bind_of_ok {c : Cursor} {a : α}
    (h : p c = .ok a c') : (p >>= f) c = f a c' := by
  show EStateM.bind p f c = f a c'
  rw [EStateM.bind, h]

theorem bind_of_error {c : Cursor} {e : Fault}
    (h : p c = .error e c') : (p >>= f) c = .error e c' := by
  show EStateM.bind p f c = .error e c'
  rw [EStateM.bind, h]

/-- A run of two parsers in sequence gives a result only if both do. -/
theorem bind_eq_ok {c : Cursor} {b : β}
    (h : (p >>= f) c = .ok b c') : ∃ a d, p c = .ok a d ∧ f a d = .ok b c' := by
  change EStateM.bind p f c = .ok b c' at h
  rw [EStateM.bind] at h
  split at h
  · next a d hp => exact ⟨a, d, hp, h⟩
  · cases h

@[simp] theorem pure_run (a : α) : (pure a : Parser α) c = .ok a c := rfl

@[simp] theorem map_run (f : α → β) (p : Parser α) :
    (f <$> p) c = match p c with
      | .ok a c' => .ok (f a) c'
      | .error e c' => .error e c' := by
  show EStateM.map f p c = _
  unfold EStateM.map
  cases p c <;> rfl

@[simp] theorem kind_bind (f : TokenKind → Parser β) : (kind >>= f) c = f c.kind c := rfl

@[simp] theorem isAt_run (ks : List TokenKind) :
    isAt ks c = .ok (decide (c.kind ∈ ks)) c := rfl

theorem isAt_eq_ok_true {ks : List TokenKind} {c d : Cursor} (h : isAt ks c = .ok true d) :
    c.kind ∈ ks ∧ d = c := by
  rw [isAt_run] at h
  injection h with hk hd
  exact ⟨of_decide_eq_true hk, hd.symm⟩

theorem isAt_eq_ok_false {ks : List TokenKind} {c d : Cursor} (h : isAt ks c = .ok false d) :
    d.kind ∉ ks ∧ d = c := by
  rw [isAt_run] at h
  injection h with hk hd
  exact ⟨hd ▸ of_decide_eq_false hk, hd.symm⟩

@[simp] theorem isAt_bind (ks : List TokenKind) (f : Bool → Parser β) :
    (isAt ks >>= f) c = f (decide (c.kind ∈ ks)) c := rfl

@[simp] theorem isNotAt_run (ks : List TokenKind) :
    isNotAt ks c = .ok (decide (c.kind ∉ ks)) c := rfl

@[simp] theorem isNotAt_bind (ks : List TokenKind) (f : Bool → Parser β) :
    (isNotAt ks >>= f) c = f (decide (c.kind ∉ ks)) c := rfl

theorem lookahead_run (n : Nat) :
    lookahead n c = (match c.rest[n]? with
      | some t => pure t
      | none => throw .outOfRange : Parser Token) c := rfl

/-- A token further on is looked at only if there is one, and none is read. -/
theorem lookahead_eq_ok {n : Nat} {c : Cursor} {t : Token} (h : lookahead n c = .ok t c') :
    c.rest[n]? = some t ∧ c' = c := by
  rw [lookahead_run] at h
  cases ht : c.rest[n]? with
  | none =>
    rw [ht] at h
    cases h
  | some u =>
    rw [ht] at h
    cases h
    exact ⟨rfl, rfl⟩

@[simp] theorem take_run (tv : Trivia) : take tv c = .ok c.current (c.advance tv) := rfl

@[simp] theorem take_bind (tv : Trivia) (f : Token → Parser β) :
    (take tv >>= f) c = f c.current (c.advance tv) := rfl

@[simp] theorem takeText_run (tv : Trivia) :
    takeText tv c = .ok (Tree.ofText? c.current.text) (c.advance tv) := rfl

@[simp] theorem takeText_bind (tv : Trivia) (f : Tree → Parser β) :
    (takeText tv >>= f) c = f (Tree.ofText? c.current.text) (c.advance tv) := rfl

end Runs

variable {c : Cursor} {k : TokenKind} {tv : Trivia}

theorem expect_run (h : c.kind = k) :
    expect tv k c = .ok c.current (c.advance tv) := by
  show (if c.kind = k then take tv else _) c = _
  rw [if_pos h, take_run]

theorem expect_run_of_ne (h : c.kind ≠ k) :
    expect tv k c = .error (.rejected (tv.mismatch k.label c.current)) c := by
  show (if c.kind = k then take tv else reject (tv.mismatch k.label c.current)) c = _
  rw [if_neg h]
  rfl

/-- Only a token of the wanted kind is read. -/
theorem expect_eq_ok {c' : Cursor} {t : Token}
    (h : expect tv k c = .ok t c') : c.kind = k ∧ t = c.current ∧ c' = c.advance tv := by
  change (if c.kind = k then take tv else _) c = _ at h
  by_cases hk : c.kind = k
  · rw [if_pos hk, take_run] at h
    cases h
    exact ⟨hk, rfl, rfl⟩
  · rw [if_neg hk] at h
    cases h

/-! ## §3 Loops -/

section Loops

variable {go : Parser Bool} {step : α → Parser α} {c d c₁ c₂ c₃ : Cursor} {a a' b : α}

/-- A loop with a round left: behind a round fewer tokens have to be ahead. -/
theorem loopAt_succ (n : Nat) (a : α) (c : Cursor) :
    loopAt go step (n + 1) a c = (go >>= fun again =>
      if again then step a >>= fun a' d =>
        if d.rest.length < c.rest.length then loopAt go step n a' d else .error .endless d
      else pure a) c := by
  refine congrFun (congrArg (fun f => go >>= f) (funext fun again => ?_)) c
  cases again with
  | false => rfl
  | true =>
    refine congrArg (fun f => step a >>= f) (funext fun a' => funext fun d => ?_)
    show (if d.rest.length < c.rest.length then loopAt go step n a' else throw .endless) d = _
    split <;> rfl

theorem loopAt_next {n : Nat} (hgo : go c = .ok true c₁) (hstep : step a c₁ = .ok a' c₂)
    (hlt : c₂.rest.length < c.rest.length) :
    loopAt go step (n + 1) a c = loopAt go step n a' c₂ := by
  rw [loopAt_succ]
  exact (bind_of_ok hgo).trans ((bind_of_ok hstep).trans (if_pos hlt))

theorem loopAt_fault {n : Nat} {e : Fault} (hgo : go c = .ok true c₁)
    (hstep : step a c₁ = .error e c₂) : loopAt go step (n + 1) a c = .error e c₂ := by
  rw [loopAt_succ]
  exact (bind_of_ok hgo).trans (bind_of_error hstep)

/-- What a loop does: it stops, or it makes a round that reads a token and goes on. -/
theorem loopAt_eq_ok_iff {n : Nat} :
    loopAt go step (n + 1) a c = .ok b c₃ ↔
      (go c = .ok false c₃ ∧ a = b) ∨
      ∃ c₁ a' c₂, go c = .ok true c₁ ∧ step a c₁ = .ok a' c₂ ∧
        c₂.rest.length < c.rest.length ∧ loopAt go step n a' c₂ = .ok b c₃ := by
  rw [loopAt_succ]
  constructor
  · intro h
    obtain ⟨again, c₁, hgo, h⟩ := bind_eq_ok h
    cases again with
    | false =>
      cases h
      exact .inl ⟨hgo, rfl⟩
    | true =>
      obtain ⟨a', c₂, hstep, h⟩ := bind_eq_ok h
      split at h
      · next hlt => exact .inr ⟨c₁, a', c₂, hgo, hstep, hlt, h⟩
      · cases h
  · rintro (⟨hgo, rfl⟩ | ⟨c₁, a', c₂, hgo, hstep, hlt, h⟩)
    · exact bind_of_ok hgo
    · refine (bind_of_ok hgo).trans ((bind_of_ok hstep).trans ?_)
      rw [if_pos hlt, h]

/-- A loop that ends within a bound ends in the same way within a larger one. -/
theorem loopAt_mono {n m : Nat} (h : loopAt go step n a c = .ok b c₃) (hnm : n ≤ m) :
    loopAt go step m a c = .ok b c₃ := by
  induction n generalizing a c m with
  | zero => cases h
  | succ n ih =>
    obtain ⟨m, rfl⟩ : ∃ m', m = m' + 1 := ⟨m - 1, by omega⟩
    refine loopAt_eq_ok_iff.2 ((loopAt_eq_ok_iff.1 h).imp_right ?_)
    rintro ⟨c₁, a', c₂, hgo, hstep, hlt, h⟩
    exact ⟨c₁, a', c₂, hgo, hstep, hlt, ih h (by omega)⟩

theorem loop_stop (hgo : go c = .ok false c₁) : loop go step a c = .ok a c₁ :=
  loopAt_eq_ok_iff.2 (.inl ⟨hgo, rfl⟩)

theorem loop_step (hgo : go c = .ok true d) (hstep : step a d = .ok a' c₂)
    (hlt : c₂.rest.length < c.rest.length) (hloop : loop go step a' c₂ = .ok b c₃) :
    loop go step a c = .ok b c₃ :=
  -- The bound that is left covers the bound of the loop from `c₂`.
  loopAt_eq_ok_iff.2 (.inr ⟨d, a', c₂, hgo, hstep, hlt, loopAt_mono hloop (by omega)⟩)

end Loops

section Many

variable {go : Parser Bool} {step : Parser α} {c c₁ c₂ c₃ : Cursor} {a : α} {as : List α}

/-- Helper: what a collecting loop starts with ends up behind what it finds. -/
theorem loopAt_collect {n : Nat} {found acc : List α} (more : List α)
    (h : loopAt go (fun acc => do return (← step) :: acc) n acc c = .ok found c₁) :
    loopAt go (fun acc => do return (← step) :: acc) n (acc ++ more) c
      = .ok (found ++ more) c₁ := by
  induction n generalizing acc c with
  | zero => cases h
  | succ n ih =>
    refine loopAt_eq_ok_iff.2 ?_
    obtain ⟨hgo, rfl⟩ | ⟨d, acc', d', hgo, hround, hlt, h⟩ := loopAt_eq_ok_iff.1 h
    · exact .inl ⟨hgo, rfl⟩
    · obtain ⟨a, d'', hstep, hacc⟩ := bind_eq_ok hround
      cases hacc
      exact .inr ⟨d, a :: (acc ++ more), d', hgo, bind_of_ok hstep, hlt, ih h⟩

theorem many_stop (hgo : go c = .ok false c₁) : many go step c = .ok [] c₁ :=
  bind_of_ok (loop_stop hgo)

theorem many_step (hgo : go c = .ok true c₁) (hstep : step c₁ = .ok a c₂)
    (hlt : c₂.rest.length < c.rest.length) (hmany : many go step c₂ = .ok as c₃) :
    many go step c = .ok (a :: as) c₃ := by
  obtain ⟨found, d, hloop, hrev⟩ := bind_eq_ok hmany
  cases hrev
  have hround : (do return (← step) :: [] : Parser (List α)) c₁ = .ok [a] c₂ := bind_of_ok hstep
  have hall : loop go (fun acc => do return (← step) :: acc) [] c = .ok (found ++ [a]) c₃ :=
    loop_step hgo hround hlt (loopAt_collect [a] hloop)
  exact (bind_of_ok hall).trans (by simp)

end Many

/-! ## §4 Reading exactly -/

/-- In front of `w ++ rest` the parser reads exactly `w` and gives `a`. -/
def Reads (p : Parser α) (w : List Token) (a : α) (rest : List Token) : Prop :=
  ∀ pos, p ⟨pos, w ++ rest⟩ = .ok a ⟨pos + w.length, rest⟩

namespace Reads

variable {p : Parser α} {f : α → Parser β} {w u v rest : List Token} {a : α} {b : β}

protected theorem pure : Reads (pure a) [] a rest := fun _ => rfl

protected theorem bind (h₁ : Reads p u a (v ++ rest)) (h₂ : Reads (f a) v b rest) :
    Reads (p >>= f) (u ++ v) b rest := by
  intro pos
  rw [List.append_assoc, bind_of_ok (h₁ pos), h₂, List.length_append, Nat.add_assoc]

theorem bind_pure (h : Reads p w a rest) (hf : ∀ c, f a c = .ok b c) :
    Reads (p >>= f) w b rest := by
  intro pos
  rw [bind_of_ok (h pos), hf]

variable {K : List TokenKind} {go : Parser Bool} {t : Token} {k : TokenKind} {tv : Trivia}

theorem expectBefore (ht : t.kind = k)
    (hrest : tv.skips (firstKind rest) = false) : Reads (expect tv k) [t] t rest := by
  intro pos
  rw [List.singleton_append, expect_run (by simpa using ht)]
  exact congrArg (EStateM.Result.ok t) (Cursor.pastTrivia_of_firstKind hrest (pos + 1))

theorem expect (ht : t.kind = k) (hrest : CommentFree rest) :
    Reads (expect .comments k) [t] t rest :=
  expectBefore ht hrest.not_skips

theorem kind {f : TokenKind → Parser β} (h : Reads (f (firstKind (w ++ rest))) w b rest) :
    Reads (kind >>= f) w b rest := h

theorem isAt {f : Bool → Parser β} (hk : firstKind (w ++ rest) ∈ K)
    (h : Reads (f true) w b rest) : Reads (isAt K >>= f) w b rest := by
  intro pos
  rw [isAt_bind, Cursor.kind_mk, decide_eq_true hk, h]

theorem isAt_not {f : Bool → Parser β} (hk : firstKind (w ++ rest) ∉ K)
    (h : Reads (f false) w b rest) : Reads (Parser.isAt K >>= f) w b rest := by
  intro pos
  rw [isAt_bind, Cursor.kind_mk, decide_eq_false hk, h]

theorem isNotAt {f : Bool → Parser β} (hk : firstKind (w ++ rest) ∈ K)
    (h : Reads (f false) w b rest) : Reads (isNotAt K >>= f) w b rest := by
  intro pos
  rw [isNotAt_bind, Cursor.kind_mk, decide_eq_false (not_not.2 hk), h]

theorem lookahead {f : Token → Parser β} {n : Nat} (ht : (w ++ rest)[n]? = some t)
    (h : Reads (f t) w b rest) : Reads (lookahead n >>= f) w b rest := by
  intro pos
  have hlook : Parser.lookahead n ⟨pos, w ++ rest⟩ = .ok t ⟨pos, w ++ rest⟩ := by
    rw [lookahead_run, ht]
    rfl
  rw [bind_of_ok hlook, h]

theorem takeBefore (t : Token) (hrest : tv.skips (firstKind rest) = false) :
    Reads (take tv) [t] t rest := by
  intro pos
  rw [List.singleton_append, take_run]
  exact congrArg (EStateM.Result.ok t) (Cursor.pastTrivia_of_firstKind hrest (pos + 1))

theorem take (t : Token) (hrest : CommentFree rest) : Reads (take .comments) [t] t rest :=
  takeBefore t hrest.not_skips

theorem takeTextBefore (t : Token) (hrest : tv.skips (firstKind rest) = false) :
    Reads (takeText tv) [t] (Tree.ofText? t.text) rest :=
  (takeBefore t hrest).bind_pure fun _ => rfl

theorem takeText (t : Token) (hrest : CommentFree rest) :
    Reads (takeText .comments) [t] (Tree.ofText? t.text) rest :=
  takeTextBefore t hrest.not_skips

theorem expectTextBefore (ht : t.kind = k)
    (hrest : tv.skips (firstKind rest) = false) :
    Reads (expectText tv k) [t] (Tree.ofText? t.text) rest :=
  (expectBefore ht hrest).bind_pure fun _ => rfl

theorem expectText (ht : t.kind = k) (hrest : CommentFree rest) :
    Reads (expectText .comments k) [t] (Tree.ofText? t.text) rest :=
  expectTextBefore ht hrest.not_skips

theorem expectTwoBefore {l : TokenKind} {u : Token} (ht : t.kind = k)
    (hu : u.kind = l) (hl : tv.skips l = false) (hrest : tv.skips (firstKind rest) = false) :
    Reads (expectAll tv [k, l]) [t, u] () rest :=
  Reads.bind (u := [t]) (expectBefore ht (by simpa [hu] using hl))
    (Reads.bind_pure (expectBefore hu hrest) fun _ => rfl)

theorem expectTwo {l : TokenKind} {u : Token} (ht : t.kind = k) (hu : u.kind = l)
    (hrest : CommentFree (u :: rest)) : Reads (expectAll .comments [k, l]) [t, u] () rest :=
  expectTwoBefore ht hu (hu ▸ (commentFree_cons.1 hrest).1) (commentFree_cons.1 hrest).2.not_skips

theorem loop_stop {step : α → Parser α}
    (hgo : ∀ pos, go ⟨pos, rest⟩ = .ok false ⟨pos, rest⟩) : Reads (loop go step a) [] a rest :=
  fun pos => Parser.loop_stop (hgo pos)

theorem loop_step {step : α → Parser α} {a' b : α}
    (hgo : ∀ pos, go ⟨pos, u ++ (v ++ rest)⟩ = .ok true ⟨pos, u ++ (v ++ rest)⟩)
    (hne : u ≠ []) (h : Reads (step a) u a' (v ++ rest))
    (hmore : Reads (loop go step a') v b rest) :
    Reads (loop go step a) (u ++ v) b rest := by
  intro pos
  have hlt : (v ++ rest).length < (u ++ (v ++ rest)).length := by
    have := List.length_pos_iff.2 hne
    simp only [List.length_append]
    omega
  rw [List.append_assoc, List.length_append, ← Nat.add_assoc]
  exact Parser.loop_step (hgo pos) (h pos) hlt (hmore _)

theorem many_stop (hgo : ∀ pos, go ⟨pos, rest⟩ = .ok false ⟨pos, rest⟩) :
    Reads (many go p) [] [] rest :=
  fun pos => Parser.many_stop (hgo pos)

theorem many_step {as : List α}
    (hgo : ∀ pos, go ⟨pos, u ++ (v ++ rest)⟩ = .ok true ⟨pos, u ++ (v ++ rest)⟩)
    (hne : u ≠ []) (h : Reads p u a (v ++ rest)) (hmore : Reads (many go p) v as rest) :
    Reads (many go p) (u ++ v) (a :: as) rest := by
  intro pos
  have hlt : (v ++ rest).length < (u ++ (v ++ rest)).length := by
    have := List.length_pos_iff.2 hne
    simp only [List.length_append]
    omega
  rw [List.append_assoc, Parser.many_step (hgo pos) (h pos) hlt (hmore _), List.length_append,
    Nat.add_assoc]

theorem sepBy {sep : TokenKind} {as : List α} (h : Reads p u a (v ++ rest))
    (hmore : Reads (many (Parser.isAt [sep]) (do let _ ← Parser.take .comments; p)) v as rest) :
    Reads (sepBy .comments sep p) (u ++ v) (a :: as) rest :=
  h.bind (hmore.bind_pure fun _ => rfl)

theorem accept (ht : t.kind = k) (hrest : CommentFree rest) :
    Reads (accept .comments k) [t] () rest :=
  Reads.isAt (by simp [ht]) ((take t hrest).bind_pure fun _ => rfl)

theorem accept_none (h : firstKind rest ≠ k) :
    Reads (Parser.accept .comments k) [] () rest :=
  Reads.isAt_not (by simpa using h) Reads.pure

section UntilClose

variable {sep close : TokenKind} {as : List α}

/-- Helper: a repetition up to a closing token goes on in front of any other. -/
theorem go_untilClose {ts : List Token} (h : firstKind ts ≠ close) (pos : Nat) :
    Parser.isNotAt [close] ⟨pos, ts⟩ = .ok true ⟨pos, ts⟩ := by
  simpa using h

theorem untilClose_nil (hclose : firstKind rest = close) :
    Reads (untilClose .comments sep close p) [] [] rest := by
  refine many_stop fun pos => ?_
  simp [hclose]

theorem untilClose_last (h : Reads p u a rest) (hfirst : firstKind (u ++ rest) ≠ close)
    (hclose : firstKind rest = close) (hsep : close ≠ sep) :
    Reads (untilClose .comments sep close p) u [a] rest := by
  have hne : u ≠ [] := by
    rintro rfl
    exact hfirst hclose
  have haccept : Reads (Parser.accept .comments sep) [] () rest := accept_none (hclose ▸ hsep)
  have hround : Reads (do let a ← p; Parser.accept .comments sep; return a) u a rest := by
    rw [← List.append_nil u]
    exact Reads.bind (by simpa using h) (haccept.bind_pure fun _ => rfl)
  have hend : Reads (untilClose .comments sep close p) [] [] rest := untilClose_nil hclose
  rw [← List.append_nil u]
  exact many_step (go_untilClose (by simpa using hfirst)) hne (by simpa using hround) hend

theorem untilClose_cons {t : Token} (ht : t.kind = sep) (h : Reads p u a (t :: (v ++ rest)))
    (hfirst : firstKind (u ++ t :: (v ++ rest)) ≠ close) (hfree : CommentFree (v ++ rest))
    (hmore : Reads (untilClose .comments sep close p) v as rest) :
    Reads (untilClose .comments sep close p) (u ++ t :: v) (a :: as) rest := by
  have hround : Reads (do let a ← p; Parser.accept .comments sep; return a) (u ++ [t]) a
      (v ++ rest) :=
    Reads.bind (by simpa using h) ((accept ht hfree).bind_pure fun _ => rfl)
  have hwords : u ++ t :: v = (u ++ [t]) ++ v := by simp
  rw [hwords]
  exact many_step (go_untilClose (by simpa using hfirst)) (by simp) hround hmore

end UntilClose

/-- A nested construct is read within any bound that covers the tokens ahead. -/
theorem nested {p : Nat → Parser α} (h : Reads (p ((w ++ rest).length + 1)) w a rest) :
    Reads (nested p) w a rest := h

end Reads

/-- In front of `w` and anything without comments that does not begin with one of the kinds `stop`,
the parser reads exactly `w` and gives `a`. -/
def ReadsUpTo (stop : List TokenKind) (p : Parser α) (w : List Token) (a : α) : Prop :=
  ∀ rest, CommentFree rest → firstKind rest ∉ stop → Reads p w a rest

/-- With more kinds to stop at there is less to show. -/
theorem ReadsUpTo.mono {stop stop' : List TokenKind} {p : Parser α} {w : List Token} {a : α}
    (h : ReadsUpTo stop p w a) (hsub : ∀ k ∈ stop, k ∈ stop') : ReadsUpTo stop' p w a := by
  intro rest hrest hstop
  refine h rest hrest fun hk => ?_
  exact hstop (hsub _ hk)

/-! ## §5 What is read -/

/-- The tokens `w` lie between two places. -/
structure Passes (c : Cursor) (w : List Token) (c' : Cursor) : Prop where
  rest : c.rest = w ++ c'.rest
  pos : c'.pos = c.pos + w.length

namespace Passes

variable {c c₁ c₂ : Cursor} {w w' : List Token}

theorem refl (c : Cursor) : Passes c [] c := ⟨rfl, rfl⟩

theorem trans (h : Passes c w c₁) (h' : Passes c₁ w' c₂) : Passes c (w ++ w') c₂ :=
  ⟨by rw [h.rest, h'.rest, List.append_assoc],
    by rw [h'.pos, h.pos, List.length_append, Nat.add_assoc]⟩

theorem commentFree (h : Passes c w c₁) (hc : CommentFree c.rest) : CommentFree c₁.rest := by
  rw [h.rest] at hc
  exact (commentFree_append.1 hc).2

/-- Moving on passes the current token, unless it is an end token. -/
theorem advance (hc : CommentFree c.rest) (hk : c.kind ≠ .endOfInput) :
    Passes c [c.current] (c.advance .comments) := by
  obtain ⟨pos, ts⟩ := c
  obtain ⟨t, rest, rfl, -⟩ := exists_cons_of_firstKind hk
  rw [Cursor.advance_cons (commentFree_cons.1 hc).2]
  exact ⟨rfl, rfl⟩

theorem slot {K : List TokenKind} (hc : CommentFree c.rest) (hk : c.kind ∈ K)
    (hend : .endOfInput ∉ K) :
    ∃ t : TokenOf K, t.1 = c.current ∧ Passes c [t.1] (c.advance .comments) :=
  ⟨⟨c.current, hk⟩, rfl, advance hc fun h => hend (h ▸ hk)⟩

/-- What a loop has passed, when an invariant holds in front of it and every round keeps it.  The
invariant speaks about all tokens read since the loop was entered. -/
theorem of_loop {J : List Token → α → Cursor → Prop} {ks : List TokenKind}
    {step : α → Parser α} {a b : α} {w : List Token} {c c' : Cursor} (hc : CommentFree c.rest)
    (hJ : J w a c)
    (hstep : ∀ w a c a' c', J w a c → CommentFree c.rest → c.kind ∈ ks → step a c = .ok a' c' →
      ∃ w', Passes c w' c' ∧ J (w ++ w') a' c')
    (hrun : loop (isAt ks) step a c = .ok b c') : ∃ w', Passes c w' c' ∧ J (w ++ w') b c' := by
  change loopAt (isAt ks) step (c.rest.length + 1) a c = .ok b c' at hrun
  generalize c.rest.length + 1 = n at hrun
  induction n generalizing a w c with
  | zero => cases hrun
  | succ n ih =>
    obtain ⟨hgo, rfl⟩ | ⟨d, a', d', hgo, hround, -, hmore⟩ := loopAt_eq_ok_iff.1 hrun
    · obtain ⟨-, rfl⟩ := isAt_eq_ok_false hgo
      exact ⟨[], .refl _, by simpa using hJ⟩
    · obtain ⟨hk, rfl⟩ := isAt_eq_ok_true hgo
      obtain ⟨w₁, hw₁, hJ'⟩ := hstep w a _ a' d' hJ hc hk hround
      obtain ⟨w₂, hw₂, hJ''⟩ := ih (hw₁.commentFree hc) hJ' hmore
      exact ⟨w₁ ++ w₂, hw₁.trans hw₂, by simpa using hJ''⟩

end Passes

/-- Whatever the parser reads and gives is related by `V`. -/
def Finds (p : Parser α) (V : List Token → α → Prop) : Prop :=
  ∀ c a c', CommentFree c.rest → p c = .ok a c' → ∃ w, Passes c w c' ∧ V w a

namespace Finds

variable {p : Parser α} {f : α → Parser β} {V : List Token → α → Prop}
  {U : List Token → β → Prop}

protected theorem pure {a : α} (h : V [] a) : Finds (pure a) V := by
  intro c a' c' _ hrun
  cases hrun
  exact ⟨[], .refl _, h⟩

protected theorem bind (hp : Finds p V)
    (hf : ∀ w a, V w a → Finds (f a) fun w' b => U (w ++ w') b) : Finds (p >>= f) U := by
  intro c b c' hc hrun
  obtain ⟨a, d, hpa, hfb⟩ := bind_eq_ok hrun
  obtain ⟨w, hw, hV⟩ := hp c a d hc hpa
  obtain ⟨w', hw', hU⟩ := hf w a hV d b c' (hw.commentFree hc) hfb
  exact ⟨w ++ w', hw.trans hw', hU⟩

theorem mono (hp : Finds p V) {V' : List Token → α → Prop} (h : ∀ w a, V w a → V' w a) :
    Finds p V' := by
  intro c a c' hc hrun
  obtain ⟨w, hw, hV⟩ := hp c a c' hc hrun
  exact ⟨w, hw, h w a hV⟩

theorem expect {k : TokenKind} (hk : k ≠ .endOfInput) :
    Finds (expect .comments k) fun w t => w = [t] ∧ t.kind = k := by
  intro c t c' hc hrun
  obtain ⟨hck, rfl, rfl⟩ := expect_eq_ok hrun
  exact ⟨_, .advance hc (hck ▸ hk), rfl, hck⟩

theorem throw {e : Fault} : Finds (throw e : Parser α) V := by
  intro c a c' _ hrun
  cases hrun

theorem kind {f : TokenKind → Parser β} (h : ∀ k, Finds (f k) U) : Finds (kind >>= f) U :=
  fun c b c' hc hrun => h c.kind c b c' hc hrun

/-- What is read when either answer to a question about the current token goes on well. -/
theorem isAt {K : List TokenKind} {f : Bool → Parser β} (hyes : Finds (f true) U)
    (hno : Finds (f false) U) : Finds (isAt K >>= f) U := by
  intro c b c' hc hrun
  rw [isAt_bind] at hrun
  cases h : decide (c.kind ∈ K) with
  | true => exact hyes c b c' hc (h ▸ hrun)
  | false => exact hno c b c' hc (h ▸ hrun)

/-- What a loop gives satisfies what every round keeps.  The invariant speaks about all tokens
read since the loop was entered. -/
theorem loop {ks : List TokenKind} {step : α → Parser α} (a : α) (w : List Token)
    (hw : V w a)
    (hstep : ∀ w a c a' c', V w a → CommentFree c.rest → c.kind ∈ ks → step a c = .ok a' c' →
      ∃ w', Passes c w' c' ∧ V (w ++ w') a') :
    Finds (loop (Parser.isAt ks) step a) fun w' b => V (w ++ w') b := by
  intro c b c' hc hrun
  exact Passes.of_loop (J := fun w a _ => V w a) hc hw hstep hrun

/-- Repeating a step finds one piece for each result. -/
theorem many {ks : List TokenKind} {step : Parser α}
    (hstep : ∀ c a c', CommentFree c.rest → c.kind ∈ ks → step c = .ok a c' →
      ∃ w, Passes c w c' ∧ V w a) :
    Finds (many (Parser.isAt ks) step) fun w as => ∃ ws, w = ws.flatten ∧ List.Forall₂ V ws as := by
  refine Finds.bind (V := fun w acc => ∃ ws, w = ws.flatten ∧ List.Forall₂ V ws acc.reverse)
    ?_ ?_
  · refine Finds.loop (V := fun w acc => ∃ ws, w = ws.flatten ∧ List.Forall₂ V ws acc.reverse)
      [] [] ⟨[], rfl, .nil⟩ ?_
    rintro w acc c acc' c' ⟨ws, rfl, hws⟩ hc hk hround
    obtain ⟨a, d, hrun, hacc⟩ := bind_eq_ok hround
    cases hacc
    obtain ⟨w', hw', hV⟩ := hstep c a c' hc hk hrun
    refine ⟨w', hw', ws ++ [w'], by simp, ?_⟩
    rw [List.reverse_cons]
    exact List.rel_append hws (.cons hV .nil)
  · rintro w acc ⟨ws, rfl, hws⟩
    exact Finds.pure ⟨ws, by simp, hws⟩

/-- What one or more results with separators between them have read. -/
theorem sepBy {sep : TokenKind} {A : List Token → List α → Prop} (hsep : sep ≠ .endOfInput)
    (hp : Finds p V) (hone : ∀ w a, V w a → A w [a])
    (hmore : ∀ w a (comma : TokenOf [sep]) v as, V w a → A v as →
      A (w ++ comma.1 :: v) (a :: as)) :
    Finds (Parser.sepBy .comments sep p) A := by
  -- Each round reads a separator and an item.
  have hround : Finds (Parser.many (Parser.isAt [sep]) (do let _ ← take .comments; p)) fun w as =>
      ∃ ws, w = ws.flatten ∧
        List.Forall₂ (fun w a => ∃ (comma : TokenOf [sep]) (u : List Token),
          w = comma.1 :: u ∧ V u a) ws as := by
    refine Finds.many fun c a c' hc hk h => ?_
    obtain ⟨comma, -, hcomma⟩ := Passes.slot hc hk (by simpa using hsep.symm)
    obtain ⟨u, hu, hV⟩ := hp _ a c' (hcomma.commentFree hc) h
    exact ⟨_, hcomma.trans hu, comma, u, rfl, hV⟩
  refine Finds.bind hp fun w a hV => ?_
  refine Finds.bind hround ?_
  rintro _ as ⟨ws, rfl, hws⟩
  refine Finds.pure ?_
  induction hws generalizing w a with
  | nil => simpa using hone w a hV
  | cons hround _ ih =>
    obtain ⟨comma, u, rfl, hVu⟩ := hround
    simpa using hmore w a comma _ _ hV (by simpa using ih u _ hVu)

end Finds

/-! ## §6 Where reading ends -/

/-- The parser ends in front of no token of the given kinds. -/
def Stops (ks : List TokenKind) (p : Parser α) : Prop := ∀ c a c', p c = .ok a c' → c'.kind ∉ ks

/-- A loop ends where it is not to go on. -/
theorem Stops.loop {ks : List TokenKind} {step : α → Parser α} (a : α) :
    Stops ks (loop (isAt ks) step a) := by
  intro c b c' hrun
  change loopAt (isAt ks) step (c.rest.length + 1) a c = .ok b c' at hrun
  generalize c.rest.length + 1 = n at hrun
  induction n generalizing a c with
  | zero => cases hrun
  | succ n ih =>
    obtain ⟨hgo, -⟩ | ⟨d, a', d', -, -, -, hrun⟩ := loopAt_eq_ok_iff.1 hrun
    · exact (isAt_eq_ok_false hgo).1
    · exact ih a' d' hrun

/-- A loop ends where its rounds end. -/
theorem Stops.loop_of_step {ks : List TokenKind} {go : Parser Bool} {step : α → Parser α}
    {a b : α} {c c' : Cursor} (hgo : ∀ c g d, go c = .ok g d → d = c)
    (hstep : ∀ a, Stops ks (step a)) (hc : c.kind ∉ ks)
    (hrun : Parser.loop go step a c = .ok b c') : c'.kind ∉ ks := by
  change loopAt go step (c.rest.length + 1) a c = .ok b c' at hrun
  generalize c.rest.length + 1 = n at hrun
  induction n generalizing a c with
  | zero => cases hrun
  | succ n ih =>
    obtain ⟨hg, rfl⟩ | ⟨d, a', d', -, hround, -, hrun⟩ := loopAt_eq_ok_iff.1 hrun
    · exact hgo _ _ _ hg ▸ hc
    · exact ih (hstep a _ _ _ hround) hrun

end Parser

end ShaderBridge
