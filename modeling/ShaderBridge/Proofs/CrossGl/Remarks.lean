import Mathlib.Data.List.Basic
import Mathlib.Data.List.Infix
import ShaderBridge.Proofs.LongestMatch

/-!
# Comments and the lexemes around them

What a pattern finds at the front of a text it finds there alone (`IsWithin`), and a CrossGL source
that is cut up behind one text is cut up behind another one as well (`length?_prev`), so that it can
be taken apart at a line comment and put together again.
-/

namespace ShaderBridge

namespace Pattern

/-! ## §1 Patterns inside a text -/

variable {w v r : Text} {p : Char → Bool}

theorem span_append_of_eq (h : span p w = w.length) : span p (w ++ v) = w.length + span p v := by
  unfold span at h ⊢
  rw [List.takeWhile_append, if_pos h, List.length_append]

theorem span_le_append (w v : Text) : span p w ≤ span p (w ++ v) := by
  rcases Nat.lt_or_eq_of_le (span_le_length (p := p) w) with hlt | heq
  · exact (span_append_of_lt hlt).ge
  · rw [span_append_of_eq heq]
    omega

/-- A run of characters that goes no further than a text is the run of the text alone. -/
theorem span_of_le (h : span p (w ++ v) ≤ w.length) : span p w = span p (w ++ v) := by
  rcases Nat.lt_or_eq_of_le (span_le_length (p := p) w) with hlt | heq
  · exact (span_append_of_lt hlt).symm
  · rw [span_append_of_eq heq] at h ⊢
    omega

/-- What is found in front of a text is found in its front part alone, if it lies there. -/
def IsWithin (f : Text → Option Nat) : Prop :=
  ∀ w v, w ≠ [] → (∀ n, f (w ++ v) = some n → n ≤ w.length) → f w = f (w ++ v)

theorem isWithin_headed {q : Char → Bool} : IsWithin (headed? p q) := by
  intro w v hw hle
  obtain ⟨c, w, rfl⟩ := List.exists_cons_of_ne_nil hw
  rw [List.cons_append] at hle ⊢
  rw [headed?, headed?]
  by_cases hc : p c
  · have hlen := hle (1 + span q (w ++ v)) (by simp [headed?, hc])
    rw [span_of_le (v := v) (by simp at hlen; omega)]
  · rw [if_neg hc, if_neg hc]

/-- Digits that do not fill a text end in it, and so does what follows them. -/
theorem digits_append (h : span Text.isDigit w < w.length) :
    span Text.isDigit (w ++ v) = span Text.isDigit w ∧
      ((w ++ v).drop (span Text.isDigit w)).head? = (w.drop (span Text.isDigit w)).head? ∧
      (w ++ v).drop (span Text.isDigit w + 1) = w.drop (span Text.isDigit w + 1) ++ v := by
  refine ⟨span_append_of_lt h, ?_, List.drop_append_of_le_length h⟩
  have hne : w.drop (span Text.isDigit w) ≠ [] := by
    rw [Ne, List.drop_eq_nil_iff]
    omega
  rw [List.drop_append_of_le_length h.le]
  obtain ⟨c, u, hu⟩ := List.exists_cons_of_ne_nil hne
  rw [hu]
  rfl

/-- A number that ends inside the text does not depend on what follows. -/
theorem isWithin_number : IsWithin number? := by
  intro w v hw hle
  have hpos : 0 < w.length := List.length_pos_iff.2 hw
  rcases Nat.lt_or_eq_of_le (span_le_length (p := Text.isDigit) w) with hlt | heq
  · -- The digits end inside, and with them the digits behind a point, if there is one.
    obtain ⟨hspan, hhead, hdrop⟩ := digits_append (v := v) hlt
    simp only [number?, hspan, hhead, hdrop] at hle ⊢
    generalize span Text.isDigit w = whole at *
    have hpart := span_le_append (p := Text.isDigit) (w.drop (whole + 1)) v
    split
    · rfl
    · next hzero =>
      rw [if_neg hzero] at hle
      by_cases hpoint : (decide ((w.drop whole).head? = some '.') &&
          decide (0 < span Text.isDigit (w.drop (whole + 1) ++ v))) = true
      · rw [if_pos hpoint] at hle
        have hlen := hle _ rfl
        rw [span_of_le (w := w.drop (whole + 1)) (v := v) (by rw [List.length_drop]; omega)]
      · rw [if_neg hpoint, if_neg]
        simp only [Bool.and_eq_true, decide_eq_true_eq] at hpoint ⊢
        exact fun h => hpoint ⟨h.1, by omega⟩
  · -- Nothing but digits: no more of them can follow.
    have hspan := span_append_of_eq (v := v) heq
    have hwhole : number? w = some w.length := by
      simp [number?, heq, hw]
    have hsome : ∃ n, number? (w ++ v) = some n ∧ w.length ≤ n := by
      simp only [number?, hspan]
      rw [if_neg (by omega)]
      split
      · exact ⟨_, rfl, by omega⟩
      · exact ⟨_, rfl, by omega⟩
    obtain ⟨n, hn, hge⟩ := hsome
    rw [hwhole, hn, Nat.le_antisymm (hle n hn) hge]

/-- Whether a decimal comes first shows in the part of the text that holds it. -/
theorem isWithin_decimal : IsWithin decimal? := by
  intro w v hw hle
  rcases Nat.lt_or_eq_of_le (span_le_length (p := Text.isDigit) w) with hlt | heq
  · obtain ⟨hspan, hhead, hdrop⟩ := digits_append (v := v) hlt
    simp only [decimal?, hspan, hhead, hdrop] at hle ⊢
    generalize span Text.isDigit w = whole at *
    have hpart := span_le_append (p := Text.isDigit) (w.drop (whole + 1)) v
    split
    · next hpoint =>
      rw [if_pos hpoint] at hle
      by_cases hzero : whole + span Text.isDigit (w.drop (whole + 1) ++ v) = 0
      · rw [if_pos hzero, if_pos (by omega)]
      · rw [if_neg hzero] at hle
        have hlen := hle _ rfl
        rw [span_of_le (w := w.drop (whole + 1)) (v := v) (by rw [List.length_drop]; omega)]
    · rfl
  · have hspan := span_append_of_eq (v := v) heq
    have hnone : decimal? w = none := by simp [decimal?, heq]
    rw [hnone]
    cases hsome : decimal? (w ++ v) with
    | none => rfl
    | some n =>
      -- A point behind the digits would lie outside.
      have hlen := hle n hsome
      simp only [decimal?, hspan] at hsome
      split at hsome
      · split at hsome
        · cases hsome
        · cases hsome
          omega
      · cases hsome

/-! ## §2 Steady patterns -/

/-- The patterns that depend on the text behind a lexeme at its end only, and that no slash there
goes on with. -/
def isSteady : Pattern → Bool
  | symbol x => !x.tail.contains '/'
  | word choices => choices.all fun w => !w.isEmpty && w.all Text.isWord
  | name | number | decimal | blanks => true
  | _ => false

/-- A closer that is found inside a text is found there whatever follows. -/
theorem through_of_le {closer : Text} {oneLine : Bool} {n : Nat} (hcloser : closer ≠ [])
    (h : through closer oneLine (w ++ v) = some n) (hle : n ≤ w.length) :
    through closer oneLine (w ++ r) = some n := by
  have hpos : 0 < closer.length := List.length_pos_iff.2 hcloser
  -- Along the text, as long as the closer has not been found.
  induction w generalizing n with
  | nil =>
    have hlen := closer_le_through h
    simp at hle
    omega
  | cons c w ih =>
    have hlen := closer_le_through h
    have hbegins : ∀ t, Text.begins closer (c :: (w ++ t)) = Text.begins closer (c :: w) :=
      fun t => begins_of_le (w := c :: w) (by omega)
    rw [List.cons_append, through, hbegins] at h ⊢
    split at h
    · next hfound => rw [if_pos hfound, h]
    · next hfound =>
      rw [if_neg hfound]
      split at h
      · cases h
      · next hline =>
        rw [if_neg hline]
        obtain ⟨m, hm, rfl⟩ := Option.map_eq_some_iff.1 h
        rw [ih hm (by simpa using hle)]
        rfl

end Pattern

namespace Lexicon

open Pattern

/-! ## §3 Lexemes behind other text -/

/-- The rules for comments, and the others. -/
theorem crossGlRules_cases {q : LexRule} (hq : q ∈ crossGlRules) :
    q = ⟨.lineComment, .lineFrom "//"⟩ ∨ q = ⟨.blockComment, .enclosed "/*" "*/" false⟩ ∨
      q.pattern.isSteady ∧ q.kind.isComment = false := by
  have hrules : ∀ q ∈ crossGlRules, q = ⟨.lineComment, .lineFrom "//"⟩ ∨
      q = ⟨.blockComment, .enclosed "/*" "*/" false⟩ ∨
        q.pattern.isSteady ∧ q.kind.isComment = false := by
    decide
  exact hrules q hq

variable {lead t v r : Text} {ls rs : List Lexeme} {prev : Option Char}

/-- What is found does not depend on the character in front, but for words that follow a word. -/
theorem length?_prev {q : LexRule} (hq : q ∈ crossGlRules) {prev' : Option Char}
    (h : isWordAt prev' = isWordAt prev ∨ isWordAt t.head? = false) :
    q.pattern.length? prev' t = q.pattern.length? prev t := by
  rcases crossGlRules_cases hq with rfl | rfl | ⟨hsteady, -⟩
  · rfl
  · rfl
  · cases hp : q.pattern with
    | word choices =>
      rw [hp] at hsteady
      rw [length?, length?]
      rcases h with hsame | hhead
      · rw [hsame]
      · -- No word is found where none begins.
        have hnone : choices.findSome? (wholeWord? · t) = none := by
          rw [List.findSome?_eq_none_iff]
          intro w hw
          simp only [isSteady, List.all_eq_true, Bool.and_eq_true] at hsteady
          exact wholeWord?_eq_none (by simpa using (hsteady w hw).1) (hsteady w hw).2 hhead
        rw [hnone, ite_self, ite_self]
    | symbol | name | number | decimal | blanks => rfl
    | _ =>
      rw [hp] at hsteady
      cases hsteady

/-- A line end in front of lexemes is one more blank. -/
theorem Cuts.lineEnd (lead' : Text) (h : Cuts crossGlRules lead v rs [])
    (hword : isWordAt lead.getLast? → isWordAt v.head? = false) :
    ∃ rs', Cuts crossGlRules lead' ('\n' :: v) rs' [] ∧
      rs'.filterMap crossGl.token? = rs.filterMap crossGl.token? := by
  have hrow : FirstRow crossGlRules lead'.getLast? ('\n' :: v) .blank
      (span Text.isBlank ('\n' :: v)) := firstRow_blank (by decide) (by decide) rfl v
  have hspan : span Text.isBlank ('\n' :: v) = span Text.isBlank v + 1 := by
    simp [span, show Text.isBlank '\n' = true from rfl]
  rw [hspan] at hrow
  by_cases hblank : v.head?.any Text.isBlank
  · -- The line end joins the blanks that follow.
    cases h with
    | stop => cases hblank
    | @lexeme _ w t _ k rs hne hfirst h =>
      obtain ⟨b, s, hv⟩ : ∃ b s, w ++ t = b :: s := by
        obtain ⟨b, w, rfl⟩ := List.exists_cons_of_ne_nil hne
        exact ⟨b, w ++ t, rfl⟩
      have hb : Text.isBlank b := by simpa [hv] using hblank
      have hsole : FirstRow crossGlRules lead.getLast? (w ++ t) .blank
          (span Text.isBlank (w ++ t)) := by
        rw [hv]
        exact firstRow_blank (by decide) (by decide) hb s
      obtain ⟨rfl, hlen⟩ := hfirst.unique hsole
      rw [← hlen] at hrow
      refine ⟨⟨.blank, '\n' :: w⟩ :: rs, .lexeme (w := '\n' :: w) (by simp) hrow ?_, rfl⟩
      refine h.relead fun q hq => ?_
      refine length?_prev hq ?_
      rw [List.getLast?_append_of_ne_nil _ hne, List.getLast?_append_of_ne_nil _ (by simp),
        List.getLast?_cons, List.getLast?_eq_some_getLast hne]
      exact .inl rfl
  -- Otherwise it is a lexeme of its own, and what follows is cut up as before.
  · have hzero : span Text.isBlank v = 0 := by
      by_contra hne
      exact hblank (head?_any_of_span hne)
    rw [hzero] at hrow
    refine ⟨⟨.blank, ['\n']⟩ :: rs, .lexeme (w := ['\n']) (by simp) hrow ?_, rfl⟩
    refine h.relead fun q hq => ?_
    refine length?_prev hq ?_
    rw [List.getLast?_append_of_ne_nil _ (by simp)]
    cases hlast : isWordAt lead.getLast? with
    | true => exact .inr (hword hlast)
    | false => exact .inl rfl

end Lexicon

/-! ## §4 Comments -/

/-- A comment: the rest of a line, or a text between `/*` and `*/`. -/
inductive Remark where
  | line (body : Text)
  | block (body : Text)

namespace Remark

open Pattern Lexicon

/-- The comment in a source.  With a line comment the line ends. -/
def text : Remark → Text
  | line body => "//" ++ body ++ "\n"
  | block body => "/*" ++ body ++ "*/"

/-- The comment is closed at its end, and not before. -/
def IsProper : Remark → Prop
  | line body => '\n' ∉ body
  | block body => ¬("*/" : Text) <:+: body

instance : DecidablePred IsProper
  | line _ => inferInstanceAs (Decidable (¬_))
  | block _ => inferInstanceAs (Decidable (¬_))

variable {lead v : Text} {ls : List Lexeme}

theorem cuts_line (lead : Text) {body : Text} (h : '\n' ∉ body)
    (hv : Closes (fun c => decide (c ≠ '\n')) v) :
    Cuts crossGlRules lead ("//" ++ body ++ v) [⟨.lineComment, "//" ++ body⟩] v := by
  apply Cuts.lexeme (by simp) _ (.stop _ _)
  refine ⟨[], ⟨.lineComment, .lineFrom "//"⟩, crossGlRules.drop 1, rfl, by simp, rfl, ?_⟩
  have hopen : Text.begins "//" ("//" ++ body ++ v) = true := rfl
  have hdrop : (("//" : Text) ++ body ++ v).drop ("//" : Text).length = body ++ v := rfl
  have hspan : span (fun c => decide (c ≠ '\n')) (body ++ v) = body.length := by
    rw [span_append hv, span, List.takeWhile_eq_self_iff.2]
    intro c hc
    refine decide_eq_true fun hline => ?_
    exact h (hline ▸ hc)
  rw [length?, if_pos hopen, hdrop, hspan, List.length_append]

theorem closes_lineEnd (v : Text) : Closes (fun c => decide (c ≠ '\n')) ('\n' :: v) := by
  intro c hc
  cases hc
  rfl

/-- What is found as a line comment ends where the line does. -/
theorem lineComment_eq {k t : Text} {prev : Option Char}
    (h : FirstRow crossGlRules prev (k ++ t) .lineComment k.length) :
    ∃ body, k = "//" ++ body ∧ '\n' ∉ body ∧ Closes (fun c => decide (c ≠ '\n')) t := by
  obtain ⟨before, row, after, hrules, -, hkind, hfound⟩ := h
  have hrow : row ∈ crossGlRules := by simp [hrules]
  rcases crossGlRules_cases hrow with rfl | rfl | ⟨-, hplain⟩
  · rw [length?] at hfound
    split at hfound
    · next hopen =>
      have hlen := Option.some.inj hfound
      obtain ⟨body, rfl⟩ : ("//" : Text) <+: k :=
        List.prefix_of_prefix_length_le (List.isPrefixOf_iff_prefix.1 hopen)
          (List.prefix_append k t) (by omega)
      have hdrop : (("//" : Text) ++ body ++ t).drop ("//" : Text).length = body ++ t := rfl
      rw [hdrop, List.length_append, Nat.add_left_cancel_iff] at hlen
      -- The run fills the comment and goes no further.
      have hall := span_of_le hlen.le
      rw [hlen] at hall
      rw [span_append_of_eq hall] at hlen
      refine ⟨body, rfl, fun hin => ?_, fun c hc => ?_⟩
      · have hbody := List.takeWhile_eq_self_iff.1 ((List.takeWhile_prefix _).eq_of_length hall)
        simpa using hbody _ hin
      · by_contra hgoes
        cases t with
        | nil => cases hc
        | cons d t =>
          cases hc
          have hline : c = '\n' := by simpa [span] using hlen
          simp [hline] at hgoes
    · cases hfound
  · cases hkind
  · rw [hkind] at hplain
    cases hplain

end Remark

end ShaderBridge
