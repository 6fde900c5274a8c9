import ShaderBridge.Proofs.Comments
import ShaderBridge.Proofs.Ending

/-!
# Comments change no outcome

Where a grammar passes over all comments and never looks further ahead than the current token, two
token lists that differ by comments only are read alike: with the same result, or with the same
fault.

- `Alike c d`: the two cursors stand at the same token, and but for comments the same tokens follow.
- `remarked`: the pairing of alike cursors, by which the lemmas on `EndsAt` compare the two
  readings.

The bounds on rounds and on nesting grow with the comments.  They never decide anything: a round
reads a token on one side just if it does on the other (`Alike.length_lt_iff`).
-/

namespace ShaderBridge.Parser

/-- The number of tokens that are no comments. -/
def ahead (ts : List Token) : Nat := (uncommented ts).length

theorem ahead_le_of_suffix {ts us : List Token} (h : us <:+ ts) : ahead us ≤ ahead ts :=
  (h.filter _).length_le

/-- Fewer tokens are ahead just if fewer are ahead with the comments left out, for a comment that
has been passed stood behind a token that has been read. -/
theorem ahead_lt_iff {c c' : Cursor} (hc : c.kind.isComment = false) (h : c'.rest <:+ c.rest) :
    ahead c'.rest < ahead c.rest ↔ c'.rest.length < c.rest.length := by
  obtain ⟨pos, ts⟩ := c
  constructor
  · intro hlt
    apply Nat.lt_of_le_of_ne h.length_le
    intro heq
    have hsame : c'.rest = ts := h.eq_of_length heq
    rw [hsame] at hlt
    exact Nat.lt_irrefl _ hlt
  · intro hlt
    cases ts with
    | nil => simp at hlt
    | cons t ts =>
      have htail : c'.rest <:+ ts := by
        cases List.suffix_cons_iff.1 h with
        | inl heq => simp [heq] at hlt
        | inr hsuffix => exact hsuffix
      have hcons : ahead (t :: ts) = ahead ts + 1 :=
        congrArg List.length (uncommented_cons_of_not hc ts)
      show ahead c'.rest < ahead (t :: ts)
      rw [hcons]
      exact Nat.lt_succ_of_le (ahead_le_of_suffix htail)

/-- Two cursors at the same token, behind which the same tokens follow but for comments. -/
structure Alike (c d : Cursor) : Prop where
  rest : uncommented c.rest = uncommented d.rest
  left : c.kind.isComment = false
  right : d.kind.isComment = false

namespace Alike

variable {c d c' d' : Cursor}

theorem current_eq (h : Alike c d) : d.current = c.current := by
  unfold Cursor.current
  rw [← head?_uncommented h.left, ← head?_uncommented h.right, h.rest]

theorem ahead_eq (h : Alike c d) : ahead d.rest = ahead c.rest := (congrArg List.length h.rest).symm

/-- Past the comments in front, lists that differ by comments are met alike. -/
theorem pastTrivia {ts us : List Token} (h : uncommented ts = uncommented us) (pos pos' : Nat) :
    Alike (Cursor.pastTrivia .comments pos ts) (Cursor.pastTrivia .comments pos' us) := by
  obtain ⟨hts, hleft⟩ := uncommented_pastTrivia pos ts
  obtain ⟨hus, hright⟩ := uncommented_pastTrivia pos' us
  exact ⟨hts.trans (h.trans hus.symm), hleft, hright⟩

theorem advance (h : Alike c d) : Alike (c.advance .comments) (d.advance .comments) := by
  apply pastTrivia
  rw [← tail_uncommented h.left, ← tail_uncommented h.right, h.rest]

/-- Tokens have been read on one side just if they have been read on the other. -/
theorem length_lt_iff (h : Alike c d) (h' : Alike c' d') (hc : c'.rest <:+ c.rest)
    (hd : d'.rest <:+ d.rest) :
    d'.rest.length < d.rest.length ↔ c'.rest.length < c.rest.length := by
  rw [← ahead_lt_iff h.left hc, ← ahead_lt_iff h.right hd, h.ahead_eq, h'.ahead_eq]

end Alike

/-- Alike cursors are compared, whatever tokens are met and whatever fault there is. -/
def remarked : Pairing .comments where
  paired := Alike
  ahead := ahead
  kinds _ := True
  faults _ := True
  rejected _ := trivial
  current_eq h := h.current_eq
  kind _ := trivial
  advance h := h.advance
  skip h := .pastTrivia h.rest _ _
  ahead_le := ahead_le_of_suffix
  ahead_lt h hk := (ahead_lt_iff h.left (advance_suffix .comments _)).2 (length_advance_lt hk)
  bound h := ⟨List.length_filter_le .., h.ahead_eq ▸ List.length_filter_le ..⟩
  round h h' := h.length_lt_iff h'

/-- Passing over comments drops those in front. -/
theorem rest_pastTrivia (pos : Nat) (ts : List Token) :
    (Cursor.pastTrivia .comments pos ts).rest = ts.dropWhile fun t => t.kind.isComment := by
  induction ts generalizing pos with
  | nil => rfl
  | cons t ts ih =>
    rw [Cursor.pastTrivia, Trivia.skips]
    cases ht : t.kind.isComment with
    | true => simp [ht, ih]
    | false => simp [ht]

/-- Two places of a list behind which the same tokens follow, comments aside, are the same place,
for neither stands at a comment. -/
theorem rest_eq_of_uncommented {ts : List Token} {c d : Cursor} (hc : c.rest <:+ ts)
    (hd : d.rest <:+ ts) (hck : c.kind.isComment = false) (hdk : d.kind.isComment = false)
    (h : uncommented c.rest = uncommented d.rest) : c.rest = d.rest := by
  have hahead : ahead c.rest = ahead d.rest := congrArg List.length h
  -- One of the places is not in front of the other; a token between them would be counted.
  rcases List.suffix_or_suffix_of_suffix hc hd with hcd | hdc
  · apply hcd.eq_of_length
    have hlt := ahead_lt_iff hdk hcd
    have hle := hcd.length_le
    omega
  · apply Eq.symm
    apply hdc.eq_of_length
    have hlt := ahead_lt_iff hck hdc
    have hle := hdc.length_le
    omega

end ShaderBridge.Parser
