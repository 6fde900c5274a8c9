import ShaderBridge.Proofs.LongestMatch
import ShaderBridge.Proofs.Nesting
import ShaderBridge.Proofs.TokenOrigin

/-!
# Tokens without brackets

Brackets stand in few tokens of a source: in the brackets themselves, in comments, in strings and in
attributes.  Every other token has a text without brackets (`Language.bareToken`), since no other
row of the token tables finds one (`Pattern.bare_take`).
-/

namespace ShaderBridge

open Text (Bare isBracket)

namespace Pattern

/-! ## §1 What patterns find -/

variable {p : Char → Bool} {P : Char → Prop} {t x : Text} {m n : Nat}

/-- The characters that a pattern lists, and those of the classes that it names, satisfy `P`. -/
def DrawsOn (P : Char → Prop) : Pattern → Prop
  | symbol s | beforeWord s | afterWord s => ∀ c ∈ s, P c
  | word choices => ∀ w ∈ choices, ∀ c ∈ w, P c
  | elseIf _ => ∀ c, Text.isNameRest c || Text.isBlank c → P c
  | lineFrom _ | enclosed .. => False
  | name => ∀ c, Text.isNameRest c → P c
  | number | decimal => (∀ c, Text.isDigit c → P c) ∧ P '.'
  | blanks => ∀ c, Text.isBlank c → P c
  | semantic => P ':' ∧ P ' ' ∧ ∀ c, Text.isNameRest c → P c
  | directive => P '#' ∧ ∀ c, Text.isWord c → P c

theorem all_take_add (hm : ∀ c ∈ t.take m, P c) (hn : ∀ c ∈ (t.drop m).take n, P c) :
    ∀ c ∈ t.take (m + n), P c := by
  rw [List.take_add]
  exact fun c hc => (List.mem_append.1 hc).elim (hm c) (hn c)

theorem all_take_begins (h : Text.begins x t) (hx : ∀ c ∈ x, P c) : ∀ c ∈ t.take x.length, P c := by
  rwa [← List.prefix_iff_eq_take.1 (List.isPrefixOf_iff_prefix.1 h)]

theorem all_take_span (hp : ∀ c, p c → P c) : ∀ c ∈ t.take (span p t), P c := by
  rw [span, ← List.prefix_iff_eq_take.1 (List.takeWhile_prefix p)]
  exact fun c hc => hp c (List.mem_takeWhile_imp hc)

theorem all_take_one {c : Char} (h : t.head? = some c) (hc : P c) : ∀ c ∈ t.take 1, P c := by
  obtain ⟨rest, rfl⟩ := List.head?_eq_some_iff.1 h
  simpa using hc

theorem all_take_point (hd : ∀ c, Text.isDigit c → P c) (hdot : P '.')
    (hpoint : (t.drop (span Text.isDigit t)).head? = some '.') :
    ∀ c ∈ t.take (span Text.isDigit t + 1 + span Text.isDigit (t.drop (span Text.isDigit t + 1))),
      P c :=
  all_take_add (all_take_add (all_take_span hd) (all_take_one hpoint hdot)) (all_take_span hd)

theorem all_take_number (hd : ∀ c, Text.isDigit c → P c) (hdot : P '.') (h : number? t = some n) :
    ∀ c ∈ t.take n, P c := by
  simp only [number?] at h
  split at h
  · cases h
  · split at h
    · next hpoint =>
      cases h
      exact all_take_point hd hdot (by simpa using (Bool.and_eq_true_iff.1 hpoint).1)
    · cases h
      exact all_take_span hd

theorem all_take_decimal (hd : ∀ c, Text.isDigit c → P c) (hdot : P '.') (h : decimal? t = some n) :
    ∀ c ∈ t.take n, P c := by
  simp only [decimal?] at h
  split at h
  · next hpoint =>
    split at h
    · cases h
    · cases h
      exact all_take_point hd hdot hpoint
  · cases h

theorem all_take_headed {q : Char → Bool} (hp : ∀ c, p c → P c) (hq : ∀ c, q c → P c)
    (h : headed? p q t = some n) : ∀ c ∈ t.take n, P c := by
  cases t with
  | nil => cases h
  | cons c rest =>
    obtain ⟨hc, ⟨⟩⟩ := Option.ite_none_right_eq_some.1 h
    exact all_take_add (all_take_one rfl (hp c hc)) (all_take_span hq)

theorem all_take_run (hp : ∀ c, p c → P c) (h : run? p t = some n) : ∀ c ∈ t.take n, P c := by
  obtain ⟨-, ⟨⟩⟩ := Option.ite_none_left_eq_some.1 h
  exact all_take_span hp

theorem all_take_wholeWord (hx : ∀ c ∈ x, P c) (h : wholeWord? x t = some n) :
    ∀ c ∈ t.take n, P c := by
  obtain ⟨hbegins, ⟨⟩⟩ := Option.ite_none_right_eq_some.1 h
  exact all_take_begins (Bool.and_eq_true_iff.1 hbegins).1 hx

theorem all_take_gap (hb : ∀ c, Text.isBlank c → P c) {manyBlanks : Bool} :
    ∀ c ∈ t.take (gap manyBlanks t), P c := by
  cases manyBlanks with
  | true => exact all_take_span hb
  | false =>
    unfold gap
    cases h : t.head? with
    | none => simp
    | some c =>
      by_cases hc : Text.isBlank c
      · simpa [hc] using all_take_one h (hb c hc)
      · simp [hc]

theorem all_take_elseIf (hP : ∀ c, Text.isNameRest c || Text.isBlank c → P c) {manyBlanks : Bool}
    (h : elseIf? manyBlanks t = some n) : ∀ c ∈ t.take n, P c := by
  have hletters : ∀ w : Text, w.all Text.isNameRest → ∀ c ∈ w, P c := fun w hw c hc =>
    hP c (by rw [List.all_eq_true.1 hw c hc]; rfl)
  obtain ⟨v, rfl, -⟩ := elseIf?_eq_some h
  rw [elseIf?_else] at h
  split at h
  · cases h
  · obtain ⟨m, hm, rfl⟩ := Option.map_eq_some_iff.1 h
    have helse : ∀ c ∈ ("else" ++ v : Text).take 4, P c := by
      simpa using hletters "else" (by decide)
    have hif : ∀ c ∈ (v.drop (gap manyBlanks v)).take m, P c :=
      all_take_wholeWord (hletters "if" (by decide)) hm
    rw [Nat.add_assoc]
    refine all_take_add helse ?_
    simpa using all_take_add (all_take_gap fun c hc => hP c (by simp [hc])) hif

/-- What a pattern finds is made of the characters that it draws on. -/
theorem all_take {pat : Pattern} {prev : Option Char} (hpat : pat.DrawsOn P)
    (h : pat.length? prev t = some n) : ∀ c ∈ t.take n, P c := by
  cases pat with
  | symbol s =>
    obtain ⟨hs, ⟨⟩⟩ := Option.ite_none_right_eq_some.1 h
    exact all_take_begins hs hpat
  | beforeWord s =>
    obtain ⟨hs, ⟨⟩⟩ := Option.ite_none_right_eq_some.1 h
    exact all_take_begins (Bool.and_eq_true_iff.1 hs).1 hpat
  | afterWord s =>
    obtain ⟨hs, ⟨⟩⟩ := Option.ite_none_right_eq_some.1 h
    exact all_take_begins (Bool.and_eq_true_iff.1 hs).2 hpat
  | word choices =>
    replace h := (Option.ite_none_left_eq_some.1 h).2
    obtain ⟨x, hx, hw⟩ := List.exists_of_findSome?_eq_some h
    exact all_take_wholeWord (hpat x hx) hw
  | elseIf manyBlanks =>
    replace h := (Option.ite_none_left_eq_some.1 h).2
    exact all_take_elseIf hpat h
  -- Comments and enclosed texts hold any characters, so no class bounds them.
  | lineFrom _ | enclosed _ _ _ => exact hpat.elim
  | name => exact all_take_headed (fun c hc => hpat c (isNameRest_of_isNameStart hc)) hpat h
  | number => exact all_take_number hpat.1 hpat.2 h
  | decimal => exact all_take_decimal hpat.1 hpat.2 h
  | blanks => exact all_take_run hpat h
  | semantic =>
    obtain ⟨hcolon, hblank, hrest⟩ := hpat
    obtain ⟨hs, h⟩ := Option.ite_none_right_eq_some.1 h
    obtain ⟨m, hm, rfl⟩ := Option.map_eq_some_iff.1 h
    refine all_take_add (all_take_begins hs ?_) ?_
    · simpa using ⟨hcolon, hblank⟩
    · exact all_take_headed (fun c hc => hrest c (isNameRest_of_isCapital (by simp [hc])))
        (fun c hc => hrest c (isNameRest_of_isCapital hc)) hm
  | directive =>
    obtain ⟨hs, h⟩ := Option.ite_none_right_eq_some.1 h
    obtain ⟨m, hm, rfl⟩ := Option.map_eq_some_iff.1 h
    refine all_take_add (all_take_begins hs ?_) (all_take_run hpat.2 hm)
    simpa using hpat.1

/-- Whether no text that the pattern lists has a bracket. -/
def isBare : Pattern → Bool
  | symbol s | beforeWord s | afterWord s => decide (Bare s)
  | word choices => choices.all fun w => decide (Bare w)
  | lineFrom _ | enclosed .. => false
  | elseIf _ | name | number | decimal | blanks | semantic | directive => true

/-- A pattern that lists no brackets finds none. -/
theorem bare_take {pat : Pattern} {prev : Option Char} (hpat : pat.isBare)
    (h : pat.length? prev t = some n) : Bare (t.take n) := by
  refine all_take (P := (isBracket · = false)) ?_ h
  cases pat with
  | symbol s | beforeWord s | afterWord s => exact (of_decide_eq_true hpat : Bare s)
  | word choices => exact fun w hw => of_decide_eq_true (List.all_eq_true.1 hpat w hw)
  | lineFrom _ | enclosed _ _ _ => cases hpat
  | elseIf _ | name | blanks => exact Text.not_isBracket_of (by decide)
  | number | decimal => exact ⟨Text.not_isBracket_of (by decide), by decide⟩
  | semantic => exact ⟨by decide, by decide, Text.not_isBracket_of (by decide)⟩
  | directive => exact ⟨by decide, Text.not_isBracket_of (by decide)⟩

end Pattern

/-! ## §2 Tokens of a source -/

/-- The kinds of token whose text may have brackets. -/
def bracketKinds : List TokenKind :=
  [.leftBrace, .rightBrace, .leftParen, .rightParen, .leftBracket, .rightBracket,
   .lineComment, .blockComment, .stringWord, .stringLiteral, .attributeMark]

/-- A token that is of one of these kinds or has a text without brackets. -/
def BareToken (t : Token) : Prop := t.kind ∉ bracketKinds → ∀ s, t.text = some s → Bare s

theorem Language.rules_bare (lang : Language) :
    ∀ r ∈ lang.lexicon.rules, r.kind ∉ bracketKinds → r.pattern.isBare := by
  cases lang <;> decide +kernel

theorem Language.endText_bare (lang : Language) {s : Text} (h : lang.lexicon.endText = some s) :
    Bare s := by
  cases lang <;> cases h <;> decide

/-- A lexeme that is no name keeps its kind, and no name has a bracket. -/
theorem Lexicon.Origin.kind_not_mem {lx : Lexicon} {r : LexRule} {l : Lexeme} {t : Token}
    (h : lx.Origin r l t) (ht : t.kind ∉ bracketKinds) : r.kind ∉ bracketKinds := by
  obtain ⟨k, w⟩ := l
  rw [h.kind]
  show k ∉ bracketKinds
  by_cases hk : k = .identifier
  · rw [hk]
    decide
  · rwa [← (kind_of_token? h.token).1 hk]

/-- A token of a source has a text without brackets, unless its kind allows for them. -/
theorem Language.bareToken {lang : Language} {source : Text} {ts : List Token} {t : Token}
    (h : lang.tokenize source = .ok ts) (ht : t ∈ ts) : BareToken t := by
  intro hk s hs
  rcases exists_origin h ht with rfl | ⟨r, l, horigin⟩
  · exact lang.endText_bare hs
  · obtain ⟨prev, rest, hfound⟩ := horigin.found
    have hbare := Pattern.bare_take (lang.rules_bare r horigin.mem (horigin.kind_not_mem hk)) hfound
    rw [List.take_left] at hbare
    rw [horigin.text_eq] at hs
    cases hs
    exact hbare

end ShaderBridge
