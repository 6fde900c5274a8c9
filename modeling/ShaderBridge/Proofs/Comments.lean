import ShaderBridge.Proofs.Drawing

/-!
# Tokens and comments

The tokens of a list without its comments (`uncommented`), and passing over comments with a cursor.
-/

namespace ShaderBridge.Parser

/-! ## §1 Tokens without comments -/

/-- The tokens that are no comments. -/
def uncommented (ts : List Token) : List Token := ts.filter fun t => !t.kind.isComment

theorem uncommented_cons_of_not {t : Token} (h : t.kind.isComment = false) (ts : List Token) :
    uncommented (t :: ts) = t :: uncommented ts :=
  List.filter_cons_of_pos (by rw [h]; rfl)

theorem uncommented_cons_of_comment {t : Token} (h : t.kind.isComment = true) (ts : List Token) :
    uncommented (t :: ts) = uncommented ts :=
  List.filter_cons_of_neg (by rw [h]; exact Bool.false_ne_true)

theorem uncommented_append (ts us : List Token) :
    uncommented (ts ++ us) = uncommented ts ++ uncommented us :=
  List.filter_append ..

theorem commentFree_uncommented (ts : List Token) : CommentFree (uncommented ts) := by
  intro t ht
  simpa using (List.mem_filter.1 ht).2

theorem uncommented_of_commentFree {ts : List Token} (h : CommentFree ts) : uncommented ts = ts :=
  List.filter_eq_self.2 fun t ht => by rw [h t ht]; rfl

theorem head?_uncommented {c : Cursor} (h : c.kind.isComment = false) :
    (uncommented c.rest).head? = c.rest.head? := by
  obtain ⟨pos, ts⟩ := c
  cases ts with
  | nil => rfl
  | cons t ts =>
    have ht : t.kind.isComment = false := h
    simp [uncommented_cons_of_not ht]

theorem tail_uncommented {c : Cursor} (h : c.kind.isComment = false) :
    (uncommented c.rest).tail = uncommented c.rest.tail := by
  obtain ⟨pos, ts⟩ := c
  cases ts with
  | nil => rfl
  | cons t ts =>
    have ht : t.kind.isComment = false := h
    simp [uncommented_cons_of_not ht]

/-- The tokens that are not passed over. -/
def kept (tv : Trivia) (ts : List Token) : List Token := ts.filter fun t => !tv.skips t.kind

/-- Passing over comments leaves the same tokens to be read, and no comment in front. -/
theorem kept_pastTrivia (tv : Trivia) (pos : Nat) (ts : List Token) :
    kept tv (Cursor.pastTrivia tv pos ts).rest = kept tv ts ∧
      tv.skips (Cursor.pastTrivia tv pos ts).kind = false := by
  induction ts generalizing pos with
  | nil => cases tv <;> exact ⟨rfl, rfl⟩
  | cons t ts ih =>
    rw [Cursor.pastTrivia]
    cases ht : tv.skips t.kind with
    | true =>
      have hdrop : kept tv (t :: ts) = kept tv ts := List.filter_cons_of_neg (by simp [ht])
      rw [if_pos rfl, hdrop]
      exact ih (pos + 1)
    | false =>
      rw [if_neg Bool.false_ne_true]
      exact ⟨rfl, ht⟩

/-- In front of the current token stand itself and what is ahead behind it. -/
theorem kept_advance (tv : Trivia) {c : Cursor} (h : tv.skips c.kind = false)
    (hk : c.kind ≠ .endOfInput) :
    kept tv c.rest = c.current :: kept tv (c.advance tv).rest ∧
      tv.skips (c.advance tv).kind = false := by
  obtain ⟨pos, ts⟩ := c
  obtain ⟨t, rest, rfl, -⟩ := exists_cons_of_firstKind hk
  have ht : tv.skips t.kind = false := h
  obtain ⟨hrest, hnext⟩ := kept_pastTrivia tv (pos + 1) rest
  have hcons : kept tv (t :: rest) = t :: kept tv rest := List.filter_cons_of_pos (by simp [ht])
  refine ⟨?_, hnext⟩
  show kept tv (t :: rest) = t :: kept tv (Cursor.pastTrivia tv (pos + 1) rest).rest
  rw [hcons, hrest]

theorem uncommented_pastTrivia (pos : Nat) (ts : List Token) :
    uncommented (Cursor.pastTrivia .comments pos ts).rest = uncommented ts ∧
      (Cursor.pastTrivia .comments pos ts).kind.isComment = false :=
  kept_pastTrivia .comments pos ts

theorem uncommented_advance {c : Cursor} (h : c.kind.isComment = false)
    (hk : c.kind ≠ .endOfInput) :
    uncommented c.rest = c.current :: uncommented (c.advance .comments).rest ∧
      (c.advance .comments).kind.isComment = false :=
  kept_advance .comments h hk

end ShaderBridge.Parser
