import ShaderBridge.Proofs.OwnText
import ShaderBridge.Proofs.Partition

/-!
# The first match is the longest

A token table is searched from its first row, and the first row that finds a lexeme is taken.  In
the tables of all five languages this is also the longest lexeme that any row finds at the place:
no symbol, number, word or comment is cut short by a row that stands too early.

Two rows are compared by what their lexemes begin with (`Opening`), by how long their lexemes are at
least, and for words, numbers and quotes by what they find in the same text.  `outranks` collects
the comparisons that are enough; it is computed, so a table is checked pair by pair.
-/

namespace ShaderBridge

namespace Pattern

/-! ## §1 Classes of first characters -/

/-- A class of characters that lexemes begin with. -/
inductive CharClass where
  /-- A letter or underscore. -/
  | letter
  /-- A digit or point. -/
  | numeric
  /-- A blank. -/
  | blank
deriving DecidableEq

namespace CharClass

/-- Whether a character is of the class. -/
def holds : CharClass → Char → Bool
  | letter => Text.isNameStart
  | numeric => isNumeric
  | blank => Text.isBlank

/-- No character is of two classes. -/
theorem eq_of_holds {k l : CharClass} {c : Char} (hk : k.holds c) (hl : l.holds c) : k = l := by
  have hnumeric : Text.isNameStart c → ¬isNumeric c := fun h => by
    simp [not_isNumeric_of_isNameStart h]
  have hblank : Text.isNameStart c ∨ isNumeric c → ¬Text.isBlank c := by
    rintro (h | h)
    · simp [not_isBlank_of_isNameRest (isNameRest_of_isNameStart h)]
    · simp [not_isBlank_of_isNumeric h]
  cases k <;> cases l <;> simp_all [holds]

end CharClass

/-! ## §2 What lexemes begin with -/

/-- What every lexeme of a pattern begins with. -/
inductive Opening where
  /-- One of these texts. -/
  | texts (leads : List Text)
  /-- A character of a class. -/
  | char (k : CharClass)

namespace Opening

/-- Whether a text begins in this way. -/
def admits : Opening → Text → Bool
  | texts leads, t => leads.any (Text.begins · t)
  | char k, t => t.head?.any k.holds

/-- Whether the openings show that no text begins in both ways. -/
def apart : Opening → Opening → Bool
  | texts xs, texts ys => xs.all fun x => ys.all fun y => !Text.begins x y && !Text.begins y x
  | texts xs, char k | char k, texts xs => xs.all fun x => !x.isEmpty && !x.head?.any k.holds
  | char k, char l => k ≠ l

theorem begins_or_begins {x y t : Text} (hx : Text.begins x t) (hy : Text.begins y t) :
    Text.begins x y ∨ Text.begins y x := by
  simp only [Text.begins, List.isPrefixOf_iff_prefix] at *
  exact List.prefix_or_prefix_of_prefix hx hy

theorem not_admits_char {k : CharClass} {xs : List Text} {t : Text}
    (h : xs.all fun x => !x.isEmpty && !x.head?.any k.holds) (hxs : (texts xs).admits t) :
    ¬(char k).admits t := by
  obtain ⟨x, hx, hbegins⟩ := List.any_eq_true.1 hxs
  obtain ⟨u, rfl⟩ := List.isPrefixOf_iff_prefix.1 hbegins
  have hfirst := List.all_eq_true.1 h x hx
  cases x with
  | nil => cases hfirst
  | cons c x => simpa [admits] using hfirst

/-- Openings that are apart admit no common text. -/
theorem not_admits_of_apart {o o' : Opening} (h : o.apart o') {t : Text} (ho : o.admits t) :
    ¬o'.admits t := by
  intro ho'
  cases o with
  | texts xs =>
    cases o' with
    | texts ys =>
      obtain ⟨x, hx, hbx⟩ := List.any_eq_true.1 ho
      obtain ⟨y, hy, hby⟩ := List.any_eq_true.1 ho'
      have hnone := List.all_eq_true.1 (List.all_eq_true.1 h x hx) y hy
      rcases begins_or_begins hbx hby with hxy | hyx
      · simp [hxy] at hnone
      · simp [hyx] at hnone
    | char k => exact not_admits_char h ho ho'
  | char k =>
    cases o' with
    | texts ys => exact not_admits_char h ho' ho
    | char l =>
      cases t with
      | nil => cases ho
      | cons c t => exact of_decide_eq_true h (CharClass.eq_of_holds ho ho')

end Opening

/-- What every lexeme of a pattern begins with. -/
def opening : Pattern → Opening
  | symbol s | lineFrom s | enclosed s _ _ | beforeWord s | afterWord s => .texts [s]
  | word choices => .texts choices
  | elseIf _ => .texts ["else"]
  | name => .char .letter
  | number | decimal => .char .numeric
  | blanks => .char .blank
  | semantic => .texts [": "]
  | directive => .texts ["#"]

/-! ## §3 How long lexemes are -/

/-- A length that no lexeme of the pattern falls short of. -/
def shortest : Pattern → Nat
  | symbol s | lineFrom s | beforeWord s | afterWord s => s.length
  | enclosed opener closer _ => opener.length + closer.length
  | elseIf _ => 4
  | number => 1
  | decimal | directive => 2
  | semantic => 3
  | word _ | name | blanks => 0

/-- The length of all lexemes of the pattern, where it is the same. -/
def fixed? : Pattern → Option Nat
  | symbol s | beforeWord s | afterWord s => some s.length
  | _ => none

/-- What the pattern alone says of a lexeme of length `n` in front of `t`. -/
structure Found (p : Pattern) (t : Text) (n : Nat) : Prop where
  admits : p.opening.admits t
  shortest_le : p.shortest ≤ n
  eq_fixed : ∀ k, p.fixed? = some k → n = k

variable {m n : Nat} {prev : Option Char} {p : Pattern} {t : Text}

theorem head?_any_of_span {p : Char → Bool} (h : span p t ≠ 0) : t.head?.any p := by
  cases t with
  | nil => exact absurd rfl h
  | cons c t =>
    by_contra hc
    have hfirst : p c = false := by simpa using hc
    exact h (by simp [span, hfirst])

theorem run?_eq_some {p : Char → Bool} (h : run? p t = some n) :
    t.head?.any p ∧ 0 < n := by
  obtain ⟨hne, ⟨⟩⟩ := Option.ite_none_left_eq_some.1 h
  exact ⟨head?_any_of_span hne, Nat.pos_of_ne_zero hne⟩

theorem closer_le_through {closer : Text} {oneLine : Bool}
    (h : through closer oneLine t = some n) : closer.length ≤ n := by
  induction t generalizing n with
  | nil => cases h
  | cons c t ih =>
    rw [through] at h
    split at h
    · cases h
      exact Nat.le_refl _
    split at h
    · cases h
    · obtain ⟨m, hm, rfl⟩ := Option.map_eq_some_iff.1 h
      exact Nat.le_succ_of_le (ih hm)

theorem isNumeric_of_number? (h : number? t = some n) :
    t.head?.any isNumeric ∧ 1 ≤ n := by
  simp only [number?] at h
  split at h
  · cases h
  · next hne =>
    refine ⟨?_, by split at h <;> cases h <;> omega⟩
    have hdigit := head?_any_of_span hne
    cases t with
    | nil => cases hdigit
    | cons c t => simp_all [isNumeric]

theorem isNumeric_of_decimal? (h : decimal? t = some n) :
    t.head?.any isNumeric ∧ 2 ≤ n := by
  simp only [decimal?] at h
  split at h
  · next hpoint =>
    split at h
    · cases h
    · next hdigits =>
      cases h
      refine ⟨?_, by omega⟩
      cases t with
      | nil => simp at hpoint
      | cons c t =>
        by_cases hc : Text.isDigit c
        · simp [isNumeric, hc]
        · simp_all [isNumeric, span]
  · cases h

/-- What `else` and `if` are found in: a blank stands behind the first word. -/
theorem elseIf?_eq_some {manyBlanks : Bool}
    (h : elseIf? manyBlanks t = some n) :
    ∃ v : Text, t = "else" ++ v ∧ v.head?.any Text.isBlank ∧ 4 ≤ n := by
  have helse : Text.begins "else" t := by
    by_contra hnot
    rw [elseIf?, if_neg hnot] at h
    cases h
  obtain ⟨v, rfl⟩ := List.isPrefixOf_iff_prefix.1 helse
  rw [elseIf?_else] at h
  split at h
  · cases h
  · next hgap =>
    obtain ⟨m, -, rfl⟩ := Option.map_eq_some_iff.1 h
    refine ⟨v, rfl, ?_, by omega⟩
    cases manyBlanks with
    | true => exact head?_any_of_span hgap
    | false =>
      by_contra hnone
      exact hgap (if_neg hnone)

/-- What a pattern finds begins and is as long as the pattern says. -/
theorem found
    (h : p.length? prev t = some n) : p.Found t n := by
  cases p with
  -- A pattern with fixed texts begins with one of them, any other with a character.
  | symbol s =>
    obtain ⟨hs, ⟨⟩⟩ := Option.ite_none_right_eq_some.1 h
    exact ⟨by simpa [opening, Opening.admits] using hs, Nat.le_refl _, by simp [fixed?]⟩
  | beforeWord s =>
    obtain ⟨hs, ⟨⟩⟩ := Option.ite_none_right_eq_some.1 h
    have hs := (Bool.and_eq_true_iff.1 hs).1
    exact ⟨by simpa [opening, Opening.admits] using hs, Nat.le_refl _, by simp [fixed?]⟩
  | afterWord s =>
    obtain ⟨hs, ⟨⟩⟩ := Option.ite_none_right_eq_some.1 h
    have hs := (Bool.and_eq_true_iff.1 hs).2
    exact ⟨by simpa [opening, Opening.admits] using hs, Nat.le_refl _, by simp [fixed?]⟩
  | lineFrom s =>
    obtain ⟨hs, ⟨⟩⟩ := Option.ite_none_right_eq_some.1 h
    exact ⟨by simpa [opening, Opening.admits] using hs, by simp [shortest], by simp [fixed?]⟩
  | enclosed s closer oneLine =>
    obtain ⟨hs, h⟩ := Option.ite_none_right_eq_some.1 h
    obtain ⟨m, hm, rfl⟩ := Option.map_eq_some_iff.1 h
    exact ⟨by simpa [opening, Opening.admits] using hs,
      Nat.add_le_add_left (closer_le_through hm) _, by simp [fixed?]⟩
  | word choices =>
    replace h := (Option.ite_none_left_eq_some.1 h).2
    obtain ⟨w, hw, hfound⟩ := List.exists_of_findSome?_eq_some h
    obtain ⟨hwhole, hfound⟩ := Option.ite_none_right_eq_some.1 hfound
    exact ⟨List.any_eq_true.2 ⟨w, hw, (Bool.and_eq_true_iff.1 hwhole).1⟩,
      Nat.zero_le _, by simp [fixed?]⟩
  | elseIf manyBlanks =>
    replace h := (Option.ite_none_left_eq_some.1 h).2
    obtain ⟨v, rfl, -, hle⟩ := elseIf?_eq_some h
    exact ⟨by simp [opening, Opening.admits, Text.begins], hle, by simp [fixed?]⟩
  | name =>
    cases t with
    | nil => cases h
    | cons c t =>
      obtain ⟨hc, h⟩ := Option.ite_none_right_eq_some.1 h
      exact ⟨hc, Nat.zero_le _, by simp [fixed?]⟩
  | number =>
    obtain ⟨hfirst, hle⟩ := isNumeric_of_number? h
    exact ⟨hfirst, hle, by simp [fixed?]⟩
  | decimal =>
    obtain ⟨hfirst, hle⟩ := isNumeric_of_decimal? h
    exact ⟨hfirst, hle, by simp [fixed?]⟩
  | blanks => exact ⟨(run?_eq_some h).1, Nat.zero_le _, by simp [fixed?]⟩
  | semantic =>
    obtain ⟨hs, h⟩ := Option.ite_none_right_eq_some.1 h
    obtain ⟨m, hm, rfl⟩ := Option.map_eq_some_iff.1 h
    have hpos := headed?_pos hm
    refine ⟨by simpa [opening, Opening.admits] using hs, ?_, by simp [fixed?]⟩
    simp only [shortest]
    omega
  | directive =>
    obtain ⟨hs, h⟩ := Option.ite_none_right_eq_some.1 h
    obtain ⟨m, hm, rfl⟩ := Option.map_eq_some_iff.1 h
    have hpos := (run?_eq_some hm).2
    refine ⟨by simpa [opening, Opening.admits] using hs, ?_, by simp [fixed?]⟩
    simp only [shortest]
    omega

/-! ## §4 Words, numbers and quotes -/

/-- Whether all lexemes of the pattern are names. -/
def isWordy : Pattern → Bool
  | name => true
  | word choices => choices.all Lexicon.isName
  | _ => false

/-- A name that the text goes on behind without a word character is all of its first word. -/
theorem span_of_wholeWord? {w : Text} (hw : Lexicon.isName w)
    (h : wholeWord? w t = some n) : span Text.isNameRest t = n := by
  obtain ⟨hwhole, ⟨⟩⟩ := Option.ite_none_right_eq_some.1 h
  obtain ⟨hbegins, hafter⟩ := Bool.and_eq_true_iff.1 hwhole
  obtain ⟨u, rfl⟩ := List.isPrefixOf_iff_prefix.1 hbegins
  have hcloses : Closes Text.isNameRest u := by
    intro c hc
    rw [List.drop_left, hc] at hafter
    by_contra hrest
    have := isWord_of_isNameRest (by simpa using hrest)
    simp [isWordAt, this] at hafter
  rw [span_append hcloses, span, List.takeWhile_eq_self_iff.2]
  cases w with
  | nil => cases hw
  | cons c w =>
    obtain ⟨hc, hall⟩ := Bool.and_eq_true_iff.1 hw
    exact List.forall_mem_cons.2 ⟨isNameRest_of_isNameStart hc, List.all_eq_true.1 hall⟩

/-- All patterns for words find the whole first word of a text. -/
theorem span_of_isWordy (hp : p.isWordy)
    (h : p.length? prev t = some n) : span Text.isNameRest t = n := by
  cases p with
  | name =>
    cases t with
    | nil => cases h
    | cons c t =>
      obtain ⟨hc, ⟨⟩⟩ := Option.ite_none_right_eq_some.1 h
      simp [span, isNameRest_of_isNameStart hc, Nat.add_comm]
  | word choices =>
    replace h := (Option.ite_none_left_eq_some.1 h).2
    obtain ⟨w, hw, hfound⟩ := List.exists_of_findSome?_eq_some h
    exact span_of_wholeWord? (List.all_eq_true.1 hp w hw) hfound
  | _ => cases hp

/-- In front of `else` and `if` the first word has four characters. -/
theorem span_of_elseIf? {manyBlanks : Bool}
    (h : elseIf? manyBlanks t = some n) : span Text.isNameRest t = 4 := by
  obtain ⟨v, rfl, hblank, -⟩ := elseIf?_eq_some h
  have hcloses : Closes Text.isNameRest v := by
    intro c hc
    rw [hc] at hblank
    by_contra hrest
    rw [Option.any_some, not_isBlank_of_isNameRest (by simpa using hrest)] at hblank
    cases hblank
  rw [span_append hcloses]
  decide

/-- A number with a point is as long as the number without one, or longer. -/
theorem number?_le_decimal? (hm : decimal? t = some m)
    (hn : number? t = some n) : n ≤ m := by
  simp only [decimal?] at hm
  simp only [number?] at hn
  split at hm
  · split at hm
    · cases hm
    · cases hm
      split at hn
      · cases hn
      · split at hn <;> cases hn <;> omega
  · cases hm

/-- Whether a quote of the pattern `q` ends inside the opener of the pattern `p`. -/
def quotesTwice : Pattern → Pattern → Bool
  | enclosed (a :: b :: _) _ _, enclosed [c] [d] _ => a = c && b = c && d = c
  | _, _ => false

theorem le_of_quotesTwice {q : Pattern} (h : quotesTwice p q)
    (hm : p.length? prev t = some m) (hn : q.length? prev t = some n) : n ≤ m := by
  unfold quotesTwice at h
  split at h
  · next a b opener closer oneLine c d oneLine' =>
    simp only [Bool.and_eq_true, decide_eq_true_eq] at h
    obtain ⟨⟨rfl, rfl⟩, rfl⟩ := h
    have hle := (found hm).shortest_le
    simp only [length?] at hm hn
    split at hm
    · next hopen =>
      obtain ⟨u, rfl⟩ := List.isPrefixOf_iff_prefix.1 hopen
      simp [Text.begins, through, List.isPrefixOf] at hn
      simp only [shortest, List.length_cons] at hle
      omega
    · cases hm
  · cases h

/-! ## §5 Rows by rank -/

/-- Whether what `p` finds is at least as long as what `q` finds, wherever both find something, as
far as the two patterns show. -/
def outranks (p q : Pattern) : Bool :=
  q.fixed?.any (· ≤ p.shortest)
    || p.opening.apart q.opening
    || q.isWordy && (p.isWordy || p matches .elseIf _)
    || p = .decimal && q = .number
    || quotesTwice p q

/-- A pattern that outranks another finds at least as much. -/
theorem le_of_outranks {q : Pattern} (h : p.outranks q)
    (hm : p.length? prev t = some m) (hn : q.length? prev t = some n) : n ≤ m := by
  simp only [outranks, Bool.or_eq_true] at h
  -- The comparisons that are enough, in the order of `outranks`.
  rcases h with (((hfixed | hapart) | hword) | hnumber) | hquotes
  · obtain ⟨k, hk, hle⟩ := (Option.any_eq_true ..).1 hfixed
    rw [(found hn).eq_fixed k hk]
    exact (of_decide_eq_true hle).trans (found hm).shortest_le
  · exact absurd (found hn).admits (Opening.not_admits_of_apart hapart (found hm).admits)
  · obtain ⟨hq, hp⟩ := Bool.and_eq_true_iff.1 hword
    have hspan := span_of_isWordy hq hn
    rcases Bool.or_eq_true_iff.1 hp with hp | hp
    · exact (hspan.symm.trans (span_of_isWordy hp hm)).le
    · cases p with
      | elseIf manyBlanks =>
        have hle := (found hm).shortest_le
        obtain ⟨-, hm⟩ := Option.ite_none_left_eq_some.1 hm
        rw [← hspan, span_of_elseIf? hm]
        exact hle
      | _ => cases hp
  · obtain ⟨hp, hq⟩ := Bool.and_eq_true_iff.1 hnumber
    obtain rfl := of_decide_eq_true hp
    obtain rfl := of_decide_eq_true hq
    exact number?_le_decimal? hm hn
  · exact le_of_quotesTwice hquotes hm hn

end Pattern

open Lexicon in
/-- Every row of every table outranks the rows behind it. -/
theorem rules_ranked (lang : Language) :
    lang.lexicon.rules.Pairwise fun r s => r.pattern.outranks s.pattern := by
  cases lang <;>
    simp (disch := exact rfl) only [Language.lexicon, crossGl, hlsl, metal, glsl, mojo,
      crossGlRules, hlslRules, metalRules, glslRules, mojoRules, Text.ofLiteral] <;>
    decide +kernel

namespace Lexicon

variable {rules : List LexRule} {prev : Option Char} {t : Text} {k : TokenKind} {n : Nat}

/-- A pattern that begins with something else finds nothing. -/
theorem length?_of_apart {p q : Pattern} (hapart : q.opening.apart p.opening)
    (h : p.length? prev t = some n) : q.length? prev t = none := by
  cases hfound : q.length? prev t with
  | none => rfl
  | some m =>
    have hadmits := (Pattern.found h).admits
    exact absurd hadmits (Pattern.Opening.not_admits_of_apart hapart (Pattern.found hfound).admits)

/-- What a row finds is found first, if no row in front of it finds anything that begins so. -/
theorem firstRow_of_apart {r : LexRule} (hr : r ∈ rules)
    (hapart : ∀ q ∈ rules.takeWhile (· ≠ r), q.pattern.opening.apart r.pattern.opening)
    (h : r.pattern.length? prev t = some n) : FirstRow rules prev t r.kind n := by
  obtain ⟨before, after, rfl, hnew⟩ := List.eq_append_cons_of_mem hr
  have htake : (before ++ r :: after).takeWhile (· ≠ r) = before := by
    have hbefore : ∀ q ∈ before, decide (q ≠ r) := fun q hq =>
      decide_eq_true fun heq => hnew (heq ▸ hq)
    rw [List.takeWhile_append_of_pos hbefore, List.takeWhile_cons_of_neg (by simp), List.append_nil]
  rw [htake] at hapart
  exact ⟨before, r, after, rfl, fun q hq => length?_of_apart (hapart q hq) h, rfl, h⟩

/-- Where a blank stands the run of blanks is the next lexeme. -/
theorem firstRow_blank (hr : ⟨.blank, .blanks⟩ ∈ rules)
    (hapart : ∀ q ∈ rules.takeWhile (· ≠ ⟨.blank, .blanks⟩), q.pattern.opening.apart (.char .blank))
    {b : Char} (hb : Text.isBlank b) (s : Text) :
    FirstRow rules prev (b :: s) .blank (Pattern.span Text.isBlank (b :: s)) :=
  firstRow_of_apart hr hapart (by simp [Pattern.length?, Pattern.run?, Pattern.span, hb])

/-- In a ranked table no row finds more than the first row that finds anything. -/
theorem FirstRow.longest (hrules : rules.Pairwise fun r s => r.pattern.outranks s.pattern)
    (h : FirstRow rules prev t k n) {r : LexRule} (hr : r ∈ rules) {m : Nat}
    (hm : r.pattern.length? prev t = some m) : m ≤ n := by
  obtain ⟨before, first, after, rfl, hbefore, -, hfound⟩ := h
  rcases List.mem_append.1 hr with hr | hr
  · rw [hbefore r hr] at hm
    cases hm
  rcases List.mem_cons.1 hr with rfl | hr
  · rw [hfound] at hm
    exact (Option.some.inj hm).ge
  · have hranked := (List.pairwise_append.1 hrules).2.1
    exact Pattern.le_of_outranks ((List.pairwise_cons.1 hranked).1 r hr) hfound hm

end Lexicon

/-- The first match is the longest match.  At every position of every source: either no row of the
table finds anything, and no lexeme is taken, or a lexeme is taken; it is what the first row that
finds anything finds, and no row of the table finds more. -/
theorem firstMatch_longest (lang : Language) (source : Text) (pos : Nat) :
    let prev := (source.take pos).getLast?
    let rest := source.drop pos
    match Lexicon.firstMatch lang.lexicon.rules prev rest with
    | none => Lexicon.NoRow lang.lexicon.rules prev rest
    | some (k, n) => Lexicon.FirstRow lang.lexicon.rules prev rest k n ∧
        ∀ r ∈ lang.lexicon.rules, ∀ m, r.pattern.length? prev rest = some m → m ≤ n := by
  intro prev rest
  split
  · next hnone => exact Lexicon.firstMatch_eq_none_iff.1 hnone
  · next k n hsome =>
    have hfirst := Lexicon.firstMatch_eq_some_iff.1 hsome
    exact ⟨hfirst, fun r hr m hm => hfirst.longest (rules_ranked lang) hr hm⟩

end ShaderBridge
