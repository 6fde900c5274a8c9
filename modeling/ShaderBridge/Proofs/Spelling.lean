import ShaderBridge.Proofs.OwnText

/-!
# Spelling tokens

A text spells a list of tokens if it is their texts in sequence, with spaces and line ends between
them, and with nothing run together: behind each token stands a character that could not belong to
it.  Such a text is cut into exactly these tokens (`Spells.tokenize`).

- `Whole t w`: the text `w` alone is the token `t`.
- `Apart w next`: the character `next` cannot belong to a lexeme that begins with `w`.
- `Yields ts s`: the text `s` is cut into the tokens `ts`, wherever it stands.
- `Spells ts s next`: the text `s` spells the tokens `ts` in front of the character `next`.
-/

namespace ShaderBridge.Lexicon

open Pattern

/-! ## §1 Token tables -/

/-- A space or a line end. -/
def isGap (c : Char) : Bool := c = ' ' || c = '\n'

/-- A table of patterns that depend on their neighbours at word boundaries only, and that drops
blanks. -/
structure Regular (lx : Lexicon) : Prop where
  plain : ∀ r ∈ lx.rules, r.pattern.isPlain
  leads : ∀ r ∈ lx.rules, ∀ x ∈ r.pattern.lead?, x ≠ [] ∧ x.head?.any isGap = false
  gaps : ⟨.blank, .blanks⟩ ∈ lx.rules
  blank : ∀ r ∈ lx.rules, r.pattern = .blanks → r.kind = .blank
  dropped : .blank ∈ lx.dropped

theorem isBlank_of_isGap {c : Char} (h : isGap c) : Text.isBlank c := by
  simp only [isGap, Bool.or_eq_true, decide_eq_true_eq] at h
  rcases h with rfl | rfl <;> rfl

theorem not_isWord_of_isGap {c : Char} (h : isGap c) :
    Text.isWord c = false ∧ isNumeric c = false := by
  simp only [isGap, Bool.or_eq_true, decide_eq_true_eq] at h
  rcases h with rfl | rfl <;> exact ⟨rfl, rfl⟩

/-- Where a gap stands only blanks are found. -/
theorem length?_gap {p : Pattern} {prev : Option Char} {b : Char} {s : Text} (hb : isGap b)
    (hplain : p.isPlain) (hlead : ∀ x ∈ p.lead?, x ≠ [] ∧ x.head?.any isGap = false)
    (hp : p ≠ .blanks) : p.length? prev (b :: s) = none := by
  obtain ⟨hword, hnumeric⟩ := not_isWord_of_isGap hb
  -- No fixed text begins with a gap.
  have hbegins : ∀ x ∈ p.lead?, Text.begins x (b :: s) = false := by
    intro x hx
    obtain ⟨hne, hhead⟩ := hlead x hx
    obtain ⟨c, x, rfl⟩ := List.exists_cons_of_ne_nil hne
    have hcb : c ≠ b := by
      rintro rfl
      simp [hb] at hhead
    exact begins_of_ne hcb
  simp only [isNumeric, Bool.or_eq_false_iff, beq_eq_false_iff_ne] at hnumeric
  cases p with
  | symbol x | lineFrom x | enclosed x | beforeWord x | afterWord x | semantic =>
    exact length?_eq_none_of_lead rfl (hbegins _ rfl)
  | elseIf manyBlanks =>
    have helse : Text.begins "else" (b :: s) = false := by
      refine begins_of_ne (d := 'e') ?_
      rintro rfl
      exact Bool.noConfusion hb
    rw [length?, elseIf?, helse, if_neg Bool.false_ne_true, ite_self]
  | word choices =>
    rw [length?]
    split
    · rfl
    · rw [List.findSome?_eq_none_iff]
      intro w hw
      simp only [isPlain, List.all_eq_true, Bool.and_eq_true] at hplain
      exact wholeWord?_eq_none (by simpa using (hplain w hw).1) (hplain w hw).2 hword
  | name =>
    have hstart : Text.isNameStart b = false := Bool.eq_false_iff.2 fun h => by
      simp [isWord_of_isNameRest (isNameRest_of_isNameStart h)] at hword
    simp [length?, headed?, hstart]
  | number => exact number?_eq_none hnumeric.1
  | decimal => exact decimal?_eq_none hnumeric.1 hnumeric.2
  | blanks => exact absurd rfl hp
  | _ => cases hplain

variable {lx : Lexicon}

/-- Where a gap stands the run of blanks is the next lexeme. -/
theorem firstMatch_gap (hlx : lx.Regular) {prev : Option Char} {b : Char} {s : Text}
    (hb : isGap b) :
    firstMatch lx.rules prev (b :: s) = some (.blank, span Text.isBlank (b :: s)) := by
  have hrun : Pattern.blanks.length? prev (b :: s) = some (span Text.isBlank (b :: s)) := by
    simp [length?, run?, span, isBlank_of_isGap hb]
  unfold firstMatch
  cases h : lx.rules.findSome? fun r => (r.pattern.length? prev (b :: s)).map (r.kind, ·) with
  | none =>
    have := List.findSome?_eq_none_iff.1 h _ hlx.gaps
    simp [hrun] at this
  | some found =>
    obtain ⟨r, hr, hfound⟩ := List.exists_of_findSome?_eq_some h
    by_cases hp : r.pattern = .blanks
    · rw [hp, hrun, hlx.blank r hr hp] at hfound
      exact hfound.symm
    · rw [length?_gap hb (hlx.plain r hr) (hlx.leads r hr) hp] at hfound
      cases hfound

/-! ## §2 Tokens with their surroundings -/

/-- The text `w` alone is the token `t`, and it is no comment or the start of one. -/
structure Whole (lx : Lexicon) (t : Token) (w : Text) : Prop where
  text : t.text = some w
  ne_nil : w ≠ []
  not_blank : w.head?.any Text.isBlank = false
  closed : ∀ r ∈ lx.rules, ∀ x ∈ r.pattern.opener?, Text.begins x w = false
  lexeme : ∃ k, firstMatch lx.rules none w = some (k, w.length) ∧ lx.token? ⟨k, w⟩ = some t

/-- The character `next` belongs to no lexeme that begins with `w`. -/
def Apart (lx : Lexicon) (w : Text) (next : Option Char) : Prop :=
  ∀ r ∈ lx.rules, r.pattern.Apart w next

/-- In front of what is apart from it, a lexeme is found as it is alone. -/
theorem firstMatch_append (hlx : lx.Regular) {t : Token} {w rest : Text} {prev : Option Char}
    (hw : lx.Whole t w) (hprev : isWordAt prev → isWordAt w.head? = false)
    (hapart : lx.Apart w rest.head?) :
    firstMatch lx.rules prev (w ++ rest) = firstMatch lx.rules none w := by
  have hrule : ∀ r ∈ lx.rules, r.pattern.length? prev (w ++ rest) = r.pattern.length? none w :=
    fun r hr => length?_append (hlx.plain r hr) hw.ne_nil hw.not_blank (hw.closed r hr) hprev
      (hapart r hr)
  unfold firstMatch
  generalize lx.rules = rules at hrule
  induction rules with
  | nil => rfl
  | cons r rules ih =>
    rw [List.findSome?_cons, List.findSome?_cons, hrule r (by simp),
      ih fun r hr => hrule r (List.mem_cons_of_mem _ hr)]

/-- The text is cut into the tokens, wherever it stands. -/
def Yields (lx : Lexicon) (ts : List Token) (s : Text) : Prop :=
  ∀ prev pos, (isWordAt prev → isWordAt s.head? = false) →
    ∃ ls, lexemesFrom lx.rules 0 prev pos s = .ok ls ∧ ls.filterMap lx.token? = ts

theorem Yields.nil (lx : Lexicon) : lx.Yields [] [] := fun _ _ _ => ⟨[], rfl, rfl⟩

/-- A source that is cut into tokens. -/
theorem Yields.tokenize {ts : List Token} {s : Text} (h : lx.Yields ts s) :
    lx.tokenize s = .ok (ts ++ [⟨.endOfInput, lx.endText⟩]) := by
  obtain ⟨ls, hls, hts⟩ := h none 0 (by simp [isWordAt])
  rw [Lexicon.tokenize, lexemes, hls]
  simp [hts]

/-- The text spells the tokens in front of the character `next`: the texts of the tokens stand in
sequence, with gaps between them, and each is apart from what follows. -/
inductive Spells (lx : Lexicon) : List Token → Text → Option Char → Prop where
  /-- Nothing spells no tokens. -/
  | nil {next : Option Char} : Spells lx [] [] next
  /-- A gap in front. -/
  | gap {b : Char} {ts : List Token} {s : Text} {next : Option Char} (hb : isGap b)
      (h : Spells lx ts s next) : Spells lx ts (b :: s) next
  /-- A token in front. -/
  | token {t : Token} {w : Text} {ts : List Token} {s : Text} {next : Option Char}
      (hw : lx.Whole t w) (hapart : lx.Apart w (s.head?.or next)) (h : Spells lx ts s next) :
      Spells lx (t :: ts) (w ++ s) next

namespace Spells

variable {ts us : List Token} {s u : Text} {next : Option Char}

theorem single {t : Token} {w : Text} (hw : lx.Whole t w) (hapart : lx.Apart w next) :
    Spells lx [t] w next := by
  rw [← List.append_nil w]
  exact .token hw hapart .nil

theorem append (hs : Spells lx ts s (u.head?.or next)) (hu : Spells lx us u next) :
    Spells lx (ts ++ us) (s ++ u) next := by
  generalize hn : u.head?.or next = n at hs
  induction hs with
  | nil => exact hu
  | gap hb _ ih => exact .gap hb (ih hn)
  | token hw hapart _ ih =>
    subst hn
    rw [List.append_assoc]
    exact .token hw (by simpa [Option.or_assoc] using hapart) (ih rfl)

theorem gaps (hu : ∀ b ∈ u, isGap b) (hs : Spells lx ts s next) : Spells lx ts (u ++ s) next := by
  induction u with
  | nil => exact hs
  | cons b u ih => exact .gap (hu b (by simp)) (ih fun b hb => hu b (by simp [hb]))

/-- A text that spells tokens begins with a gap or with the text of the first token. -/
theorem head?_eq {t : Token} (h : Spells lx (t :: ts) s next) :
    (∃ b, s.head? = some b ∧ isGap b) ∨ ∃ w, lx.Whole t w ∧ s.head? = w.head? := by
  cases h with
  | gap hb _ => exact .inl ⟨_, rfl, hb⟩
  | token hw _ _ =>
    obtain ⟨c, w, rfl⟩ := List.exists_cons_of_ne_nil hw.ne_nil
    exact .inr ⟨_, hw, rfl⟩

theorem exists_gaps (h : Spells lx ts s next) :
    ∃ u v, s = u ++ v ∧ (∀ b ∈ u, isGap b) ∧ v.head?.any Text.isBlank = false ∧
      Spells lx ts v next := by
  induction h with
  | nil => exact ⟨[], [], rfl, by simp, rfl, .nil⟩
  | gap hb _ ih =>
    obtain ⟨u, v, rfl, hu, hv, hspells⟩ := ih
    exact ⟨_ :: u, v, rfl, by simpa [hb] using hu, hv, hspells⟩
  | token hw hapart h =>
    refine ⟨[], _, rfl, by simp, ?_, .token hw hapart h⟩
    obtain ⟨c, w, rfl⟩ := List.exists_cons_of_ne_nil hw.ne_nil
    simpa using hw.not_blank

theorem firstMatch_gaps (hlx : lx.Regular) {prev : Option Char} {v : Text} (hu : u ≠ [])
    (hgaps : ∀ b ∈ u, isGap b) (hv : v.head?.any Text.isBlank = false) :
    firstMatch lx.rules prev (u ++ v) = some (.blank, u.length) := by
  have hspan : span Text.isBlank (u ++ v) = u.length := by
    have hclosed : Closes Text.isBlank v := fun c hc => by simpa [hc] using hv
    rw [span_append hclosed, span, List.takeWhile_eq_self_iff.2]
    exact fun b hb => isBlank_of_isGap (hgaps b hb)
  obtain ⟨b, u, rfl⟩ := List.exists_cons_of_ne_nil hu
  rw [List.cons_append, firstMatch_gap hlx (hgaps b (by simp)), ← List.cons_append, hspan]

/-- A text that spells tokens is cut into these tokens, and what follows is cut on its own. -/
theorem yields_append (hlx : lx.Regular) {rest : Text} (h : Spells lx ts s rest.head?)
    (hblank : rest.head?.any Text.isBlank = false) (hrest : lx.Yields us rest) :
    lx.Yields (ts ++ us) (s ++ rest) := by
  intro prev pos hprev
  -- On the length of the text, which gaps and tokens shorten.
  induction hn : s.length using Nat.strong_induction_on generalizing ts s prev pos with
  | _ n ih =>
    obtain ⟨u, v, rfl, hgaps, hfirst, hv⟩ := h.exists_gaps
    by_cases hu : u = []
    · subst hu
      rw [List.nil_append] at hn hprev ⊢
      cases hv with
      | nil => exact hrest prev pos hprev
      | gap hb => simp [isBlank_of_isGap hb] at hfirst
      | @token t w ts s _ hw hapart hs =>
        rw [← List.head?_append] at hapart
        obtain ⟨k, hk, htoken⟩ := hw.lexeme
        have hword : isWordAt prev → isWordAt w.head? = false := by
          obtain ⟨c, w, rfl⟩ := List.exists_cons_of_ne_nil hw.ne_nil
          simpa using hprev
        have hlt : s.length < n := by
          have := List.length_pos_iff.2 hw.ne_nil
          rw [List.length_append] at hn
          omega
        obtain ⟨ls, hls, hts⟩ := ih s.length hlt hs w.getLast? (pos + w.length)
          (hapart _ hlx.gaps).word rfl
        rw [List.append_assoc]
        refine ⟨⟨k, w⟩ :: ls, lexemesFrom_lexeme hw.ne_nil ?_ hls, by simp [htoken, hts]⟩
        rw [firstMatch_append hlx hw hword hapart, hk]
    · -- The gaps in front are one lexeme, which is dropped.
      have hlast : isWordAt u.getLast? = false := by
        rw [List.getLast?_eq_some_getLast hu]
        exact (not_isWord_of_isGap (hgaps _ (List.getLast_mem hu))).1
      have hlt : v.length < n := by
        have := List.length_pos_iff.2 hu
        rw [List.length_append] at hn
        omega
      have hnext : (v ++ rest).head?.any Text.isBlank = false := by
        cases v with
        | nil => exact hblank
        | cons c v => exact hfirst
      obtain ⟨ls, hls, hts⟩ := ih v.length hlt hv u.getLast? (pos + u.length)
        (by simp [hlast]) rfl
      have hdropped : lx.token? ⟨.blank, u⟩ = none := by simp [token?, retyped, hlx.dropped]
      rw [List.append_assoc]
      exact ⟨⟨.blank, u⟩ :: ls, lexemesFrom_lexeme hu (firstMatch_gaps hlx hu hgaps hnext) hls,
        by simp [hdropped, hts]⟩

theorem yields (hlx : lx.Regular) (h : Spells lx ts s none) : lx.Yields ts s := by
  have hall : lx.Yields (ts ++ []) (s ++ []) := h.yields_append hlx rfl (Yields.nil lx)
  simpa using hall

/-- A blank in front belongs to no token. -/
theorem of_blank (h : Spells lx ts (' ' :: s) next) : Spells lx ts s next := by
  generalize htext : (' ' :: s : Text) = u at h
  cases h with
  | nil => cases htext
  | gap _ h =>
    cases htext
    exact h
  | @token _ w _ _ _ hw =>
    obtain ⟨c, v, rfl⟩ := List.exists_cons_of_ne_nil hw.ne_nil
    obtain ⟨rfl, -⟩ := List.cons.inj htext
    have hblank := hw.not_blank
    cases hblank

/-- A text that spells tokens is cut into exactly these tokens. -/
theorem tokenize (hlx : lx.Regular) (h : Spells lx ts s none) :
    lx.tokenize s = .ok (ts ++ [⟨.endOfInput, lx.endText⟩]) :=
  (h.yields hlx).tokenize

end Spells

end ShaderBridge.Lexicon
