import ShaderBridge.Proofs.Naming
import ShaderBridge.Token.Lexicon.CrossGl

/-!
# CrossGL lexemes

What the token table of CrossGL says about a token that is cut from its own text: which text it has
if its kind has one text only, whether it is a name, and which characters may stand behind it.
-/

namespace ShaderBridge.CrossGl

open Lexicon Pattern

/-! ## §1 The shape of a token -/

theorem regular : crossGl.Regular where
  plain := by decide
  leads := by decide
  gaps := by decide
  blank := by decide
  dropped := by decide

theorem not_isSpaced : ∀ r ∈ crossGlRules, ¬r.pattern.isSpaced := by decide

/-- What a token that is no comment looks like. -/
inductive Shape (t : Token) (w : Text) : Prop where
  | name (h : isName w)
  | number (hk : t.kind ∈ [.number, .decimal]) (h : w.head?.any isNumeric)
  | symbol (h : ⟨t.kind, .symbol w⟩ ∈ crossGlRules)

/-- The words of the table are names, what goes on for any length is a comment, and only names are
identifiers. -/
theorem rule_roles : ∀ r ∈ crossGlRules,
    (∀ x ∈ r.pattern.lead?, r.kind ≠ .identifier) ∧
    (∀ x ∈ r.pattern.opener?, r.kind.isComment = true) ∧
    (r.pattern = .number ∨ r.pattern = .decimal →
      r.kind ≠ .identifier ∧ r.kind ∈ [.number, .decimal]) ∧
    (match r.pattern with | .word choices => choices.all isName | _ => true) = true := by
  decide

variable {c : Char} {w x : Text} {t : Token}

/-- A token that is cut from its own text and is no comment is a name, a number or a symbol. -/
theorem shape_of_fits {r : LexRule} (h : crossGl.Fits r t w)
    (hcomment : t.kind.isComment = false) : Shape t w := by
  obtain ⟨hr, hlength, htoken⟩ := h
  obtain ⟨hkind, hdropped⟩ := kind_of_token? htoken
  obtain ⟨hlead, hopener, hnumber, hwords⟩ := rule_roles r hr
  obtain ⟨k, p⟩ := r
  cases p with
  | symbol x =>
    obtain rfl := symbol_covers hlength
    have hk : t.kind = k := hkind (hlead w rfl)
    exact .symbol (hk ▸ hr)
  | word choices => exact .name (List.all_eq_true.1 hwords w (word_covers hlength))
  | name => exact .name (name_covers hlength)
  | number =>
    obtain ⟨hident, hk⟩ := hnumber (.inl rfl)
    have hkind : t.kind = k := hkind hident
    exact .number (hkind ▸ hk) (number_covers hlength)
  | decimal =>
    obtain ⟨hident, hk⟩ := hnumber (.inr rfl)
    have hkind : t.kind = k := hkind hident
    exact .number (hkind ▸ hk) (decimal_covers hlength)
  -- What is left finds comments or blanks, which are no tokens.
  | lineFrom x | enclosed x | beforeWord x | afterWord x =>
    rw [hkind (hlead x rfl)] at hcomment
    exact absurd (hopener x rfl) (Bool.eq_false_iff.1 hcomment)
  | blanks =>
    obtain rfl : k = .blank := regular.blank _ hr rfl
    rw [hkind (by decide)] at hdropped
    exact absurd regular.dropped hdropped
  | elseIf | semantic => exact absurd rfl (not_isSpaced _ hr)
  | _ => exact absurd (regular.plain _ hr) Bool.false_ne_true

theorem openers : ∀ r ∈ crossGlRules, ∀ x ∈ r.pattern.opener?, x = "//" ∨ x = "/*" := by decide

/-- The symbols of the table begin with no blank and open no comment. -/
theorem symbol_closed : ∀ r ∈ crossGlRules, ∀ w, r.pattern = .symbol w →
    w.head?.any Text.isBlank = false ∧ Text.begins "//" w = false ∧ Text.begins "/*" w = false := by
  have htable : ∀ r ∈ crossGlRules, ∀ w ∈ r.pattern.lead?, r.pattern.opener? = none →
      w.head?.any Text.isBlank = false ∧ Text.begins "//" w = false ∧
        Text.begins "/*" w = false := by
    decide
  intro r hr w hw
  exact htable r hr w (by rw [hw]; rfl) (by rw [hw]; rfl)

/-- What begins like a name, a number or a symbol begins with no blank and opens no comment. -/
theorem Shape.closed (h : Shape t w) :
    w.head?.any Text.isBlank = false ∧
      ∀ r ∈ crossGlRules, ∀ x ∈ r.pattern.opener?, Text.begins x w = false := by
  -- Only comments have an opener, and it begins with a slash.
  suffices hw : w.head?.any Text.isBlank = false ∧ Text.begins "//" w = false ∧
      Text.begins "/*" w = false by
    refine ⟨hw.1, fun r hr x hx => ?_⟩
    rcases openers r hr x hx with rfl | rfl
    · exact hw.2.1
    · exact hw.2.2
  cases h with
  | symbol h => exact symbol_closed _ h w rfl
  | name h =>
    cases w with
    | nil => cases h
    | cons c s =>
      simp only [isName, Bool.and_eq_true] at h
      have hblank := not_isBlank_of_isNameRest (isNameRest_of_isNameStart h.1)
      have hslash : '/' ≠ c := by
        rintro rfl
        exact absurd h.1 (by decide)
      exact ⟨by simpa using hblank, begins_of_ne hslash, begins_of_ne hslash⟩
  | number _ h =>
    cases w with
    | nil => cases h
    | cons c s =>
      simp only [List.head?_cons, Option.any_some] at h
      have hblank : Text.isBlank c = false := by
        refine Bool.eq_false_iff.2 fun hc => ?_
        simp only [isNumeric, not_isDigit_of_isBlank hc, Bool.false_or, beq_iff_eq] at h
        rw [h] at hc
        exact absurd hc (by decide)
      have hslash : '/' ≠ c := by
        rintro rfl
        exact absurd h (by decide)
      exact ⟨by simpa using hblank, begins_of_ne hslash, begins_of_ne hslash⟩

theorem whole_of_lexes (h : crossGl.Lexes t) (hcomment : t.kind.isComment = false) :
    ∃ w, crossGl.Whole t w ∧ Shape t w := by
  obtain ⟨w, htext, hne, r, hfits, hmatch⟩ := h.fits
  have hshape := shape_of_fits hfits hcomment
  exact ⟨w, ⟨htext, hne, hshape.closed.1, hshape.closed.2, r.kind, hmatch, hfits.2.2⟩, hshape⟩

/-! ## §2 The text of a kind -/

/-- The operators, each with its text. -/
def operatorTexts : List (TokenKind × Text) :=
  [(.plus, "+"), (.minus, "-"), (.multiply, "*"), (.divide, "/"),
   (.lessThan, "<"), (.greaterThan, ">"), (.lessEqual, "<="), (.greaterEqual, ">="),
   (.equal, "=="), (.notEqual, "!="), (.equals, "="),
   (.assignAdd, "+="), (.assignSub, "-="), (.assignMul, "*="), (.assignDiv, "/="),
   (.assignAnd, "&="), (.assignOr, "|="), (.assignXor, "^="), (.assignMod, "%="),
   (.shiftLeft, "<<"), (.shiftRight, ">>"), (.assignShiftRight, ">>="),
   (.increment, "++"), (.decrement, "--")]

/-- Punctuation and the words of statements, each with its text. -/
def structureTexts : List (TokenKind × Text) :=
  [(.leftBrace, r"{"), (.rightBrace, r"}"), (.leftParen, "("), (.rightParen, ")"),
   (.semicolon, ";"), (.comma, ","), (.dot, "."), (.question, "?"), (.colon, ":"),
   (.ifWord, "if"), (.elseWord, "else"), (.forWord, "for"), (.returnWord, "return"),
   (.voidType, "void")]

/-- The kinds whose tokens have one text only. -/
def fixedTexts : List (TokenKind × Text) := operatorTexts ++ structureTexts

theorem text_of_fixed (h : crossGl.Lexes t)
    (hx : (t.kind, x) ∈ fixedTexts) : t.text = some x := by
  have htable : ∀ p ∈ fixedTexts, crossGl.Spelt p.1 (· == p.2) := by decide +kernel
  obtain ⟨w, htext, hw⟩ := h.exists_text (htable _ hx)
  rw [htext, beq_iff_eq.1 hw]

/-- A token whose kind has one text only is that text alone. -/
theorem whole_of_fixed (h : crossGl.Lexes t)
    (hx : (t.kind, x) ∈ fixedTexts) : crossGl.Whole t x := by
  have hcomment : ∀ p ∈ fixedTexts, p.1.isComment = false := by decide
  obtain ⟨w, hw, -⟩ := whole_of_lexes h (hcomment _ hx)
  have htext := hw.text
  rw [text_of_fixed h hx, Option.some.injEq] at htext
  exact htext ▸ hw

/-- The kinds whose tokens are names. -/
def wordKinds : List TokenKind :=
  [.identifier, .vectorType, .floatType, .doubleType, .uintType, .intType, .matrixType,
   .sampler2dType, .voidType, .mainWord]

theorem Shape.isName (h : Shape t w) (hk : t.kind ∈ wordKinds) :
    isName w := by
  cases h with
  | name h => exact h
  | number hnumber =>
    have : ∀ k ∈ wordKinds, k ∉ [.number, .decimal] := by decide
    exact absurd hnumber (this _ hk)
  | symbol h =>
    have : ∀ r ∈ crossGlRules, r.kind ∈ wordKinds → r.pattern.lead? = none := by decide
    cases this _ h hk

/-! ## §3 What may stand behind a token -/

/-- The characters that go on with a symbol. -/
def symbolRest : List Char := ['/', '*', '=', '<', '>', '+', '-', '&', '|']

/-- A character that belongs to no token that begins in front of it. -/
def isBreak (c : Char) : Bool :=
  c ∈ [' ', '\n', '(', ')', ';', ',']

theorem isBreak_of_isGap (h : isGap c) : isBreak c := by
  simp only [isGap, Bool.or_eq_true, decide_eq_true_eq] at h
  rcases h with rfl | rfl <;> rfl

theorem leads_spec : ∀ r ∈ crossGlRules, ∀ x ∈ r.pattern.lead?,
    (∀ c ∈ x.tail, c ∈ symbolRest) ∧ ∀ c ∈ x, Text.isNameStart c = false := by
  decide

/-- A character is apart from a text if it goes on with no word, no number and no symbol. -/
theorem apart_of (hne : w ≠ [])
    (hword : isWordAt w.getLast? → Text.isWord c = false)
    (hnumber : w.head?.any isNumeric → isNumeric c = false)
    (hsymbol : c ∈ symbolRest → isName w) : crossGl.Apart w (some c) := by
  refine fun r hr => ⟨hword, hnumber, ?_, fun h => absurd h (not_isSpaced r hr)⟩
  rintro x hx _ ⟨rfl⟩ ⟨y, rfl⟩
  obtain ⟨hrest, hletters⟩ := leads_spec r hr _ hx
  obtain ⟨d, w, rfl⟩ := List.exists_cons_of_ne_nil hne
  have hname := hsymbol (hrest c (by simp))
  simp only [isName, Bool.and_eq_true] at hname
  simpa [hname.1] using hletters d (by simp)

theorem apart_none (w : Text) : crossGl.Apart w none :=
  fun r hr => ⟨fun _ => rfl, fun _ => rfl, nofun, fun h => absurd h (not_isSpaced r hr)⟩

/-- Every token is apart from a break. -/
theorem apart_break {next : Option Char} (hne : w ≠ []) (hnext : next.all isBreak) :
    crossGl.Apart w next := by
  cases next with
  | none => exact apart_none w
  | some c =>
    have hbreak : ∀ c ∈ [' ', '\n', '(', ')', ';', ','],
        Text.isWord c = false ∧ isNumeric c = false ∧ c ∉ symbolRest := by decide
    obtain ⟨hword, hnumber, hsymbol⟩ := hbreak c (by simpa [isBreak] using hnext)
    refine apart_of hne (fun _ => hword) (fun _ => hnumber) fun h => ?_
    exact absurd h hsymbol

/-- A break, or the point that goes on with a name. -/
def isNameBreak (c : Char) : Bool := isBreak c || c = '.'

theorem exists_of_isName (h : isName w) :
    ∃ c s, w = c :: s ∧ Text.isNameStart c := by
  cases w with
  | nil => cases h
  | cons c s => exact ⟨c, s, rfl, (Bool.and_eq_true_iff.1 h).1⟩

theorem not_isNumeric_of_isNameStart (h : Text.isNameStart c) :
    isNumeric c = false ∧ c ∉ symbolRest := by
  have hothers : ∀ d ∈ symbolRest, Text.isNameStart d = false := by decide
  exact ⟨Pattern.not_isNumeric_of_isNameStart h, fun hmem => by simp [hothers c hmem] at h⟩

theorem apart_name (hw : isName w) (hc : Text.isWord c = false) :
    crossGl.Apart w (some c) := by
  obtain ⟨d, s, rfl, hd⟩ := exists_of_isName hw
  refine apart_of (by simp) (fun _ => hc) (fun h => ?_) fun _ => hw
  simp [(not_isNumeric_of_isNameStart hd).1] at h

/-- A name is apart from a break and from a point. -/
theorem apart_nameBreak {next : Option Char} (hw : isName w)
    (hnext : next.all isNameBreak) : crossGl.Apart w next := by
  have hne : w ≠ [] := by
    rintro rfl
    cases hw
  cases next with
  | none => exact apart_none w
  | some c =>
    simp only [Option.all_some, isNameBreak, Bool.or_eq_true, decide_eq_true_eq] at hnext
    rcases hnext with hc | rfl
    · exact apart_break hne (by simpa using hc)
    · exact apart_name hw (by decide)

theorem apart_symbol_name (hne : w ≠ []) (hw : isWordAt w.getLast? = false)
    (hc : Text.isNameStart c) : crossGl.Apart w (some c) := by
  obtain ⟨hnumber, hsymbol⟩ := not_isNumeric_of_isNameStart hc
  refine apart_of hne (by simp [hw]) (fun _ => hnumber) fun h => ?_
  exact absurd h hsymbol

/-- The symbols that no character goes on with. -/
def punctuation : List Text := ["(", ")", r"{", r"}", ";", ",", "++", "--"]

theorem apart_punctuation (hx : x ∈ punctuation) (next : Option Char) :
    crossGl.Apart x next := by
  have hsealed : ∀ x ∈ punctuation, crossGl.Sealed x := by decide
  exact (hsealed x hx).apart next

theorem apart_signs : crossGl.Apart "+" (some '-') ∧ crossGl.Apart "-" (some '+') := by
  have hleads : ∀ r ∈ crossGlRules, ∀ x ∈ r.pattern.lead?,
      ¬['+', '-'] <+: x ∧ ¬['-', '+'] <+: x := by decide
  refine ⟨fun r hr => ⟨by decide, by decide, ?_, fun h => absurd h (not_isSpaced r hr)⟩,
    fun r hr => ⟨by decide, by decide, ?_, fun h => absurd h (not_isSpaced r hr)⟩⟩
  · rintro x hx _ ⟨rfl⟩
    exact (hleads r hr x hx).1
  · rintro x hx _ ⟨rfl⟩
    exact (hleads r hr x hx).2

/-- A sign is apart from the first character of a name or a number. -/
theorem apart_sign (hx : x = "+" ∨ x = "-")
    (hc : Text.isNameStart c ∨ isNumeric c) : crossGl.Apart x (some c) := by
  have hsign : x ≠ [] ∧ isWordAt x.getLast? = false ∧ x.head?.any isNumeric = false := by
    rcases hx with rfl | rfl <;> decide
  obtain ⟨hne, hword, hnumber⟩ := hsign
  rcases hc with hc | hc
  · exact apart_symbol_name hne hword hc
  · have hrest : ∀ d ∈ symbolRest, isNumeric d = false := by decide
    refine apart_of hne (by simp [hword]) (by simp [hnumber]) fun h => ?_
    simp [hrest c h] at hc

end ShaderBridge.CrossGl
