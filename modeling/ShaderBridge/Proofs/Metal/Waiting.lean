import Mathlib.Logic.Relation
import ShaderBridge.Proofs.Metal.Ending
import ShaderBridge.Proofs.Termination

/-!
# When parsing Metal does not end

A Metal source is read item by item.  Reading goes on for ever just if it reaches a directive whose
angle bracket is never closed (`parse_endless_iff`); every other source is parsed to a tree or has a
fault.  In particular parsing ends where a closing bracket stands behind every directive
(`parseTokens_ends_of_closed`).
-/

namespace ShaderBridge.Metal

open ShaderBridge.Parser Relation

/-! ## §1 Items in sequence -/

/-- Reading one item: from the items found so far and a place to the items and the place behind
it. -/
def ItemStep (s s' : List Tree × Cursor) : Prop :=
  s.2.kind ≠ .endOfInput ∧ shaderItem s.1 s.2 = .ok s'.1 s'.2

variable {found : List Tree} {c : Cursor}

/-- Where an item has a fault, or there is none, nothing further on is reached. -/
theorem not_exists_open (hopen : ¬OpenDirective c)
    (hstop : ∀ s, ¬ItemStep (found, c) s) :
    ¬∃ s, ReflTransGen ItemStep (found, c) s ∧ OpenDirective s.2 := by
  rintro ⟨s, hreach, hs⟩
  rcases hreach.cases_head with rfl | ⟨s', hstep, -⟩
  · exact hopen hs
  · exact hstop s' hstep

/-- The loop over the items has no end just if it reaches a directive that waits for ever. -/
theorem loopAt_endless_iff {m : Nat} (hm : c.rest.length < m) :
    (∃ d, loopAt (isNotAt [.endOfInput]) shaderItem m found c = .error .endless d) ↔
      ∃ s, ReflTransGen ItemStep (found, c) s ∧ OpenDirective s.2 := by
  -- The induction is on the rounds that are left; each item is read by one of them.
  induction m generalizing found c with
  | zero => omega
  | succ m ih =>
    by_cases hend : c.kind = .endOfInput
    · have hopen : ¬OpenDirective c := fun h => by simp [h.directive] at hend
      rw [loopAt_succ, isNotAt_bind, decide_eq_false (by simp [hend])]
      exact iff_of_false nofun (not_exists_open hopen fun s hstep => hstep.1 hend)
    have hgo : isNotAt [.endOfInput] c = .ok true c := by simp [hend]
    by_cases hopen : OpenDirective c
    · obtain ⟨d, hd⟩ := shaderItem_of_open hopen found
      exact iff_of_true ⟨d, loopAt_fault hgo hd⟩ ⟨(found, c), .refl, hopen⟩
    have hsettles := settles_shaderItem hend hopen found
    cases hrun : shaderItem found c with
    | error e d =>
      rw [hrun] at hsettles
      rw [loopAt_fault hgo hrun]
      refine iff_of_false ?_ (not_exists_open hopen fun s hstep => ?_)
      · rintro ⟨d', hd'⟩
        injection hd' with hfault
        exact hsettles.2 hfault
      · exact nomatch hrun.symm.trans hstep.2
    | ok found' d =>
      rw [hrun] at hsettles
      obtain ⟨-, hlen⟩ := hsettles
      rw [loopAt_next hgo hrun (by omega), ih (by omega)]
      -- The only step from here leads to the place behind the item.
      constructor
      · rintro ⟨s, hreach, hs⟩
        exact ⟨s, .head ⟨hend, hrun⟩ hreach, hs⟩
      · rintro ⟨s, hreach, hs⟩
        rcases hreach.cases_head with rfl | ⟨⟨found'', d'⟩, hstep, hreach⟩
        · exact absurd hs hopen
        · have hsame := hrun.symm.trans hstep.2
          cases hsame
          exact ⟨s, hreach, hs⟩

/-- Behind the items only the end of the input is wanted. -/
theorem source_endless_iff :
    (∃ d, source c = .error .endless d) ↔
      ∃ s, ReflTransGen ItemStep ([], c) s ∧ OpenDirective s.2 := by
  rw [← loopAt_endless_iff (Nat.lt_succ_self c.rest.length)]
  constructor
  · rintro ⟨d, hd⟩
    cases hrun : loop (isNotAt [.endOfInput]) shaderItem [] c with
    | error e d' =>
      have hshader : shader c = .error e d' := bind_of_error hrun
      have hfault := (bind_of_error hshader).symm.trans hd
      cases hfault
      exact ⟨d, hrun⟩
    | ok found d' =>
      -- What is not the end of the input is rejected.
      have hshader : shader c = .ok (Tree.program found) d' := bind_of_ok hrun
      have hrest := (bind_of_ok hshader).symm.trans hd
      have hend : (Setting.finite tv).Settles 0 d' (expect tv .endOfInput d') :=
        (EndsAt.anywhere (P := fun _ => True) (fun _ => EndsAt.expect_any) d' trivial).settles
      cases hexpect : expect tv .endOfInput d' with
      | ok t e => exact nomatch (bind_of_ok hexpect).symm.trans hrest
      | error e e' =>
        rw [hexpect] at hend
        have hfault := (bind_of_error hexpect).symm.trans hrest
        injection hfault with hfault
        exact absurd hfault hend.2
  · rintro ⟨d, hd⟩
    have hshader : shader c = .error .endless d := bind_of_error hd
    exact ⟨d, bind_of_error hshader⟩

theorem parseTokens_endless_iff {ts : List Token} (hts : ts ≠ []) :
    Language.metal.parseTokens ts = .error .endless ↔
      ∃ s, ReflTransGen ItemStep ([], Language.metal.start ts) s ∧ OpenDirective s.2 := by
  rw [Language.parseTokens_eq hts, ← source_endless_iff]
  rw [show Language.metal.grammar = source from rfl]
  cases source (Language.metal.start ts) with
  | ok t c => exact iff_of_false (by simp) (by simp)
  | error e c =>
    constructor
    · rintro ⟨rfl⟩
      exact ⟨c, rfl⟩
    · rintro ⟨d, ⟨rfl⟩⟩
      rfl

/-! ## §2 Closed brackets -/

/-- A bracket that is ahead is met, since only comments are passed over in one go. -/
theorem not_waits_pastTrivia {t : Token} (hk : t.kind = .greaterThan) {ts : List Token}
    (ht : t ∈ ts) (pos : Nat) : ¬Waits (Cursor.pastTrivia tv pos ts) := by
  induction ts generalizing pos with
  | nil => cases ht
  | cons u us ih =>
    rw [Cursor.pastTrivia]
    intro hwaits
    rcases List.mem_cons.1 ht with rfl | ht
    · rw [if_neg (by simp [hk, Trivia.skips, TokenKind.isComment])] at hwaits
      exact hwaits 0 hk
    · split at hwaits
      · exact ih ht (pos + 1) hwaits
      · exact ih ht (pos + 1) hwaits.advance

theorem not_waits_of_mem {t : Token} (hk : t.kind = .greaterThan) (ht : t ∈ c.rest.tail) :
    ¬Waits c :=
  fun hwaits => not_waits_pastTrivia hk ht (c.pos + 1) hwaits.advance

/-- Reading items only moves on. -/
theorem suffix_of_reaches {s s' : List Tree × Cursor} (h : ReflTransGen ItemStep s s') :
    s'.2.rest <:+ s.2.rest := by
  induction h with
  | refl => exact List.suffix_refl _
  | @tail s₁ s₂ _ hstep ih =>
    obtain ⟨hend, hrun⟩ := hstep
    by_cases hopen : OpenDirective s₁.2
    · obtain ⟨d, hd⟩ := shaderItem_of_open hopen s₁.1
      exact nomatch hd.symm.trans hrun
    · have hsettles := settles_shaderItem hend hopen s₁.1
      rw [hrun] at hsettles
      exact hsettles.1.suffix.trans ih

/-- Where a closing bracket stands somewhere behind every directive, parsing ends. -/
theorem parseTokens_ends_of_closed {ts : List Token} (hts : ts ≠ [])
    (hclosed : ∀ t us, t :: us <:+ ts → t.kind = .directive → ∃ u ∈ us, u.kind = .greaterThan) :
    Language.metal.parseTokens ts ≠ .error .endless := by
  intro hendless
  obtain ⟨⟨found, c⟩, hreach, hopen⟩ := (parseTokens_endless_iff hts).1 hendless
  have hsuffix : c.rest <:+ ts :=
    (suffix_of_reaches hreach).trans (Language.start_suffix .metal ts)
  obtain ⟨pos, rest⟩ := c
  have hdirective : firstKind rest = .directive := hopen.directive
  have hsome : firstKind rest ≠ .endOfInput := by simp [hdirective]
  obtain ⟨t, us, rfl, ht⟩ := exists_cons_of_firstKind hsome
  obtain ⟨u, hu, hk⟩ := hclosed t us hsuffix (ht.trans hdirective)
  exact not_waits_of_mem (c := ⟨pos, t :: us⟩) hk hu hopen.waits

/-! ## §3 Sources -/

/-- A Metal source is read for ever just if reading it item by item leads to a directive whose angle
bracket is never closed.  Cutting it into tokens always ends, since every row of the token table
finds at least one character, and a source without such a directive is parsed to a tree or has
another fault. -/
theorem parse_endless_iff (source : Text) :
    (∀ r ∈ Language.metal.lexicon.rules, ∀ prev t n,
      r.pattern.length? prev t = some n → 0 < n) ∧
    (Language.metal.parse source = .error .endless ↔
      ∃ ts s, Language.metal.tokenize source = .ok ts ∧
        ReflTransGen ItemStep ([], Language.metal.start ts) s ∧ OpenDirective s.2) := by
  refine ⟨fun r hr prev t n h => (row_advances .metal hr h).1, ?_⟩
  show (Language.metal.tokenize source >>= Language.metal.parseTokens) = _ ↔ _
  cases htokens : Language.metal.tokenize source with
  -- A source that is not cut up is rejected, and has no tokens.
  | error e =>
    obtain ⟨why, rfl⟩ := Language.rejected_of_tokenize htokens
    exact iff_of_false nofun nofun
  | ok ts =>
    obtain ⟨ls, hls⟩ := Language.tokenize_eq_ok htokens
    show Language.metal.parseTokens ts = _ ↔ _
    rw [parseTokens_endless_iff (by simp [hls])]
    constructor
    · rintro ⟨s, hs⟩
      exact ⟨ts, s, rfl, hs⟩
    · rintro ⟨_, s, ⟨rfl⟩, hs⟩
      exact ⟨s, hs⟩

/-- The name of a file without its closing bracket: reading it has no end. -/
theorem include_endless : Language.metal.parse "#include <x" = .error .endless := by
  decide +kernel

end ShaderBridge.Metal
