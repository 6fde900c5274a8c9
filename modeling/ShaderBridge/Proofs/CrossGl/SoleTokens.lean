import ShaderBridge.Proofs.CrossGl.Lexemes

/-!
# Texts that are one token

Names and numbers are cut into a single token of CrossGL, whatever words the table lists: every rule
of the table finds nothing in such a text, or all of it (`Uncut`).
-/

namespace ShaderBridge.CrossGl

open Lexicon Pattern

/-! ## §1 Sole tokens -/

/-- The token that a text is cut into, if it is one. -/
def soleToken (x : Text) : Token :=
  match crossGl.tokenize x with
  | .ok (t :: _) => t
  | _ => ⟨.identifier, some x⟩

variable {r : LexRule} {w : Text}

theorem soleToken_of_whole {t : Token} (h : crossGl.Whole t w) : soleToken w = t := by
  rw [soleToken, (Spells.single h (apart_none w)).tokenize regular]
  rfl

theorem soleToken_of_lexes {t : Token} (h : crossGl.Lexes t) (hw : t.text = some w) :
    soleToken w = t := by
  obtain ⟨v, hv, htokens⟩ := h
  obtain rfl : w = v := Option.some.inj (hw.symm.trans hv)
  rw [soleToken, htokens]

/-- The pattern finds nothing in the text, or all of it. -/
def Uncut (p : Pattern) (w : Text) : Prop := ∀ n ∈ p.length? none w, n = w.length

theorem token?_of_rule (hr : r ∈ crossGlRules) (hp : r.pattern ≠ .blanks)
    (w : Text) : crossGl.token? ⟨r.kind, w⟩ = some ⟨crossGl.retyped ⟨r.kind, w⟩, some w⟩ := by
  have hrules : ∀ r ∈ crossGlRules, r.kind = .blank → r.pattern = .blanks := by decide
  have hkeywords : ∀ q ∈ crossGlKeywords, q.2 ≠ .blank := by decide
  have hblank : crossGl.retyped ⟨r.kind, w⟩ ≠ .blank := by
    rw [retyped]
    split
    · cases hfound : crossGl.keywords.lookup w with
      | none => decide
      | some k =>
        obtain ⟨_, _, hkeys, -⟩ := List.lookup_eq_some_iff.1 hfound
        exact hkeywords (w, k) (by rw [show crossGlKeywords = _ from hkeys]; simp)
    · exact fun h => hp (hrules r hr h)
  exact if_neg (by simpa [crossGl] using hblank)

/-- A text that no rule cuts, and that one rule finds, is one token. -/
theorem whole_of_uncut (hne : w ≠ [])
    (hblank : w.head?.any Text.isBlank = false)
    (hclosed : ∀ r ∈ crossGlRules, ∀ x ∈ r.pattern.opener?, Text.begins x w = false)
    (huncut : ∀ r ∈ crossGlRules, Uncut r.pattern w) (hr : r ∈ crossGlRules)
    (hfound : r.pattern.length? none w = some w.length) : crossGl.Whole (soleToken w) w := by
  cases hmatch : firstMatch crossGlRules none w with
  | none =>
    have := List.findSome?_eq_none_iff.1 hmatch r hr
    simp [hfound] at this
  -- Whichever row is first, it finds all of the text.
  | some found =>
    obtain ⟨r', hr', hpair⟩ := List.exists_of_findSome?_eq_some hmatch
    obtain ⟨n, hlength, rfl⟩ := Option.map_eq_some_iff.1 hpair
    obtain rfl : n = w.length := huncut r' hr' n hlength
    have hp : r'.pattern ≠ .blanks := by
      intro hp
      obtain ⟨c, s, rfl⟩ := List.exists_cons_of_ne_nil hne
      simp_all [length?, run?, span]
    have hwhole : crossGl.Whole ⟨crossGl.retyped ⟨r'.kind, w⟩, some w⟩ w :=
      ⟨rfl, hne, hblank, hclosed, r'.kind, hmatch, token?_of_rule hr' hp w⟩
    exact soleToken_of_whole hwhole ▸ hwhole

/-! ## §2 Names and numbers -/

theorem begins_lead {c : Char} {s x : Text} (hr : r ∈ crossGlRules)
    (hx : x ∈ r.pattern.lead?) (hc : Text.isNameStart c ∨ Text.isDigit c) :
    Text.begins x (c :: s) = false := by
  have hleads : ∀ r ∈ crossGlRules, ∀ x ∈ r.pattern.lead?, x ≠ [] ∧
      x.head?.any Text.isNameStart = false ∧ x.head?.any Text.isDigit = false := by
    decide
  obtain ⟨hne, hletter, hdigit⟩ := hleads r hr x hx
  obtain ⟨d, x, rfl⟩ := List.exists_cons_of_ne_nil hne
  refine begins_of_ne ?_
  rintro rfl
  simp only [List.head?_cons, Option.any_some] at hletter hdigit
  simp [hletter, hdigit] at hc

/-- Helper: a word that a name begins with is the whole name, if it is found. -/
theorem wholeWord?_of_isName {x : Text} {n : Nat} (hw : ∀ c ∈ w, Text.isNameRest c)
    (h : wholeWord? x w = some n) : n = w.length := by
  obtain ⟨hbegins, h⟩ := Option.ite_none_right_eq_some.1 h
  simp only [Bool.and_eq_true, Bool.not_eq_true'] at hbegins
  have hle := length_le_of_begins hbegins.1
  have hdrop : w.drop x.length = [] := by
    cases hd : w.drop x.length with
    | nil => rfl
    | cons c u =>
      have hc : c ∈ w := List.mem_of_mem_drop (hd ▸ List.mem_cons_self)
      simp [hd, isWordAt, isWord_of_isNameRest (hw c hc)] at hbegins
  cases h
  have := List.drop_eq_nil_iff.1 hdrop
  omega

/-- What a row finds at the front of a name is all of the name. -/
theorem uncut_name (hw : isName w) (hr : r ∈ crossGlRules) :
    Uncut r.pattern w := by
  obtain ⟨c, s, rfl, hc⟩ := exists_of_isName hw
  have hrest : ∀ d ∈ s, Text.isNameRest d := by
    simpa using (Bool.and_eq_true_iff.1 hw).2
  have hall : ∀ d ∈ c :: s, Text.isNameRest d :=
    List.forall_mem_cons.2 ⟨isNameRest_of_isNameStart hc, hrest⟩
  have hnumeric := (not_isNumeric_of_isNameStart hc).1
  intro n hn
  obtain ⟨k, p⟩ := r
  cases p with
  -- No symbol and no opener begins with a letter.
  | symbol x | lineFrom x | enclosed x | beforeWord x | afterWord x =>
    simp [length?, begins_lead hr rfl (.inl hc)] at hn
  | word choices =>
    simp only [length?, isWordAt, Option.any_none, Bool.false_eq_true, if_false] at hn
    obtain ⟨x, -, hx⟩ := List.exists_of_findSome?_eq_some hn
    exact wholeWord?_of_isName hall hx
  | name =>
    have hspan : span Text.isNameRest s = s.length := by
      rw [span, List.takeWhile_eq_self_iff.2 hrest]
    simp only [length?, headed?, hc, if_true, hspan, Option.mem_some_iff] at hn
    rw [List.length_cons]
    omega
  | number =>
    simp only [isNumeric, Bool.or_eq_false_iff] at hnumeric
    simp [length?, number?_eq_none hnumeric.1] at hn
  | decimal =>
    simp only [isNumeric, Bool.or_eq_false_iff, beq_eq_false_iff_ne] at hnumeric
    simp [length?, decimal?_eq_none hnumeric.1 hnumeric.2] at hn
  | blanks =>
    have hblank := not_isBlank_of_isNameRest (isNameRest_of_isNameStart hc)
    simp [length?, run?, span, hblank] at hn
  | elseIf | semantic => exact absurd rfl (not_isSpaced _ hr)
  | _ => exact absurd (regular.plain _ hr) Bool.false_ne_true

theorem whole_name (hw : isName w) : crossGl.Whole (soleToken w) w := by
  have hshape : Shape ⟨.identifier, none⟩ w := .name hw
  obtain ⟨c, s, rfl, hc⟩ := exists_of_isName hw
  refine whole_of_uncut (r := ⟨.identifier, .name⟩) (by simp) hshape.closed.1 hshape.closed.2
    (fun r hr => uncut_name hw hr) (by decide) ?_
  have hspan : span Text.isNameRest s = s.length := by
    rw [span, List.takeWhile_eq_self_iff.2]
    simpa using (Bool.and_eq_true_iff.1 hw).2
  simp [length?, headed?, hc, hspan, Nat.add_comm]

/-- No rule of CrossGL stops inside a number. -/
theorem uncut_number (hw : Pattern.number.length? none w = some w.length)
    (hr : r ∈ crossGlRules) : Uncut r.pattern w := by
  have hdigit : w.head?.any Text.isDigit := by
    cases w with
    | nil => cases hw
    | cons c s =>
      by_contra hc
      rw [length?, number?_eq_none (by simpa using hc)] at hw
      cases hw
  obtain ⟨c, s, rfl⟩ : ∃ c s, w = c :: s := by
    cases w with
    | nil => cases hdigit
    | cons c s => exact ⟨c, s, rfl⟩
  simp only [List.head?_cons, Option.any_some] at hdigit
  have hstart : Text.isNameStart c = false := Bool.eq_false_iff.2 fun hc => by
    simpa [isNumeric, hdigit] using (not_isNumeric_of_isNameStart hc).1
  intro n hn
  obtain ⟨k, p⟩ := r
  cases p with
  | symbol x | lineFrom x | enclosed x | beforeWord x | afterWord x =>
    simp [length?, begins_lead hr rfl (.inr hdigit)] at hn
  | word choices =>
    simp only [length?, isWordAt, Option.any_none, Bool.false_eq_true, if_false] at hn
    obtain ⟨x, hx, hword⟩ := List.exists_of_findSome?_eq_some hn
    -- The words of the table are names, and no name begins with a digit.
    have hname := List.all_eq_true.1 (rule_roles _ hr).2.2.2 x hx
    obtain ⟨d, x, rfl, hd⟩ := exists_of_isName hname
    have hne : d ≠ c := by
      rintro rfl
      simp [hd] at hstart
    simp [wholeWord?, begins_of_ne hne] at hword
  | name => simp [length?, headed?, hstart] at hn
  | number => exact Option.some.inj (hn.symm.trans hw)
  | decimal =>
    simp only [length?, number?] at hw
    simp only [length?, decimal?] at hn
    split at hn
    · next hpoint =>
      split at hn
      · cases hn
      · have hle := span_point_le hpoint
        simp only [hpoint, decide_true, Bool.true_and] at hw
        split at hw
        · cases hw
        · split at hw
          · cases hn
            exact Option.some.inj hw
          · simp only [Option.some.injEq] at hw
            omega
    · cases hn
  | blanks =>
    have hblank : Text.isBlank c = false := Bool.eq_false_iff.2 fun hc => by
      simp [not_isDigit_of_isBlank hc] at hdigit
    simp [length?, run?, span, hblank] at hn
  | elseIf | semantic => exact absurd rfl (not_isSpaced _ hr)
  | _ => exact absurd (regular.plain _ hr) Bool.false_ne_true

theorem whole_number (hw : Pattern.number.length? none w = some w.length) :
    crossGl.Whole (soleToken w) w := by
  have hshape : Shape ⟨.number, none⟩ w := .number (by decide) (number_covers hw)
  have hne : w ≠ [] := by
    rintro rfl
    cases hw
  exact whole_of_uncut (r := ⟨.number, .number⟩) hne hshape.closed.1 hshape.closed.2
    (fun r hr => uncut_number hw hr) (by decide) hw

end ShaderBridge.CrossGl
