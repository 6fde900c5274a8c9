import Mathlib.Data.List.TakeWhile
import ShaderBridge.Token.Lexicon

/-!
# Cutting texts into lexemes

A lexeme that a token table finds in a text of its own is also found inside a longer text, if what
stands around it keeps away from it.

- `lexemesFrom_lexeme`: a lexeme in front of lexemes.
- `Pattern.length?_append`: a pattern finds in front of more text what it finds in a text alone.
- `Lexicon.lexeme_of_tokenize`: a text that is a token by itself is a single lexeme.
-/

namespace ShaderBridge

/-- What holds of each character of a text is decided along the text, and not over all characters
that there are. -/
instance (priority := high) Text.decidableForallMem {P : Char → Prop} [DecidablePred P] (s : Text) :
    Decidable (∀ c ∈ s, P c) :=
  List.decidableBAll P s

/-! ## §1 Lexemes in sequence -/

namespace Lexicon

variable {rules : List LexRule} {prev : Option Char} {pos : Nat} {s rest t : Text}

theorem lexemesFrom_append (s rest : Text) (prev : Option Char) (pos : Nat) :
    lexemesFrom rules s.length prev pos (s ++ rest)
      = lexemesFrom rules 0 (s.getLast?.or prev) (pos + s.length) rest := by
  induction s generalizing prev pos with
  | nil => rfl
  | cons c s ih =>
    rw [List.length_cons, List.cons_append, lexemesFrom, ih]
    congr 1
    · cases h : s.getLast? <;> simp [List.getLast?_cons, h]
    · omega

/-- A lexeme in front of whatever becomes of the rest. -/
theorem lexemesFrom_cons {k : TokenKind} (hs : s ≠ [])
    (hmatch : firstMatch rules prev (s ++ rest) = some (k, s.length)) :
    lexemesFrom rules 0 prev pos (s ++ rest)
      = match lexemesFrom rules 0 s.getLast? (pos + s.length) rest with
        | .ok ls => .ok (⟨k, s⟩ :: ls)
        | .error stop => .error stop := by
  obtain ⟨c, s, rfl⟩ := List.exists_cons_of_ne_nil hs
  have hlast : (s.getLast?).or (some c) = (c :: s).getLast? := by
    cases h : s.getLast? <;> simp [List.getLast?_cons, h]
  -- The characters of the lexeme behind its first one are passed over.
  have htail : lexemesFrom rules s.length (some c) (pos + 1) (s ++ rest)
      = lexemesFrom rules 0 (c :: s).getLast? (pos + (c :: s).length) rest := by
    rw [lexemesFrom_append, hlast, List.length_cons]
    congr 1
    omega
  rw [List.cons_append, List.length_cons] at hmatch
  rw [List.cons_append, lexemesFrom, hmatch]
  show (match lexemesFrom rules s.length (some c) (pos + 1) (s ++ rest) with
    | .ok ls => .ok (⟨k, c :: (s ++ rest).take s.length⟩ :: ls)
    | .error stop => .error stop : Except (Nat × Char) (List Lexeme)) = _
  rw [htail, List.take_left]

variable {ls : List Lexeme}

theorem lexemesFrom_lexeme {k : TokenKind} (hs : s ≠ [])
    (hmatch : firstMatch rules prev (s ++ rest) = some (k, s.length))
    (hrest : lexemesFrom rules 0 s.getLast? (pos + s.length) rest = .ok ls) :
    lexemesFrom rules 0 prev pos (s ++ rest) = .ok (⟨k, s⟩ :: ls) := by
  rw [lexemesFrom_cons hs hmatch, hrest]

/-- Lexemes are not empty, and in sequence they are the text that was cut. -/
theorem texts_of_lexemesFrom {skip : Nat}
    (h : lexemesFrom rules skip prev pos t = .ok ls) :
    (∀ l ∈ ls, l.text ≠ []) ∧ (ls.map (·.text)).flatten = t.drop skip := by
  -- Along the text; `skip` counts what is left of the current lexeme.
  induction t generalizing skip prev pos ls with
  | nil =>
    cases h
    simp
  | cons c rest ih =>
    cases skip with
    | succ skip => simpa using ih h
    | zero =>
      rw [lexemesFrom] at h
      split at h
      · next kind n hmatch =>
        split at h
        · next tail htail =>
          cases h
          obtain ⟨hne, hflat⟩ := ih htail
          exact ⟨by simpa using hne, by simp [hflat]⟩
        · cases h
      · cases h

/-- The first lexeme of a text is what the first fitting rule finds. -/
theorem firstMatch_of_lexemesFrom {l : Lexeme}
    (h : lexemesFrom rules 0 prev pos t = .ok (l :: ls)) :
    ∃ n, firstMatch rules prev t = some (l.kind, n) ∧ l.text = t.take n := by
  cases t with
  | nil => cases h
  | cons c rest =>
    rw [lexemesFrom] at h
    split at h
    · next kind n hmatch =>
      split at h
      · cases h
        exact ⟨n + 1, hmatch, rfl⟩
      · cases h
    · cases h

end Lexicon

namespace CharSet

/-- Membership changes at the given points only. -/
theorem holds_succ {points : List Nat} {n : Nat} (h : n + 1 ∉ points) :
    holds points (n + 1) = holds points n := by
  induction points with
  | nil => rfl
  | cons p points ih =>
    obtain ⟨hp, hpoints⟩ := not_or.1 (mt List.mem_cons.2 h)
    rw [holds, holds, ih hpoints]
    by_cases hlt : n < p
    · rw [if_pos (by omega), if_pos hlt]
    · rw [if_neg (by omega), if_neg hlt]

/-- Two sets that share none of their points share no character. -/
theorem not_holds_both {xs ys : List Nat}
    (h : (xs ++ ys).all fun p => !(holds xs p && holds ys p)) (n : Nat) :
    (holds xs n && holds ys n) = false := by
  have hpoint : ∀ p ∈ xs ++ ys, (holds xs p && holds ys p) = false := fun p hp =>
    (Bool.not_eq_true' _).mp (List.all_eq_true.1 h p hp)
  induction n with
  | zero =>
    cases xs with
    | nil => rfl
    | cons x xs =>
      by_cases hx : x = 0
      · exact hpoint 0 (by simp [hx])
      · rw [holds, if_pos (Nat.pos_of_ne_zero hx), Bool.false_and]
  | succ n ih =>
    by_cases hn : n + 1 ∈ xs ++ ys
    · exact hpoint _ hn
    · obtain ⟨hx, hy⟩ := not_or.1 (mt List.mem_append.2 hn)
      rw [holds_succ hx, holds_succ hy, ih]

end CharSet

/-! ## §2 Patterns in front of more text -/

namespace Pattern

variable {s rest : Text} {p q : Char → Bool}

/-- A character class is closed off by what stands behind a text. -/
def Closes (p : Char → Bool) (rest : Text) : Prop := ∀ c, rest.head? = some c → p c = false

theorem span_le_length (t : Text) : span p t ≤ t.length := (List.takeWhile_prefix p).length_le

/-- A run of characters goes no further than the text that closes it off. -/
theorem span_append (h : Closes p rest) : span p (s ++ rest) = span p s := by
  have hrest : rest.takeWhile p = [] := by
    cases rest with
    | nil => rfl
    | cons c rest => simp [h c rfl]
  rw [span, span, List.takeWhile_append, hrest]
  split
  · next hall => simpa using hall.symm
  · rfl

theorem span_append_of_lt (h : span p s < s.length) : span p (s ++ rest) = span p s := by
  unfold span at h ⊢
  rw [List.takeWhile_append, if_neg (Nat.ne_of_lt h)]

theorem head?_drop_append (n : Nat) (h : n ≤ s.length) :
    ((s ++ rest).drop n).head? = ((s.drop n).head?).or rest.head? := by
  rw [List.drop_append_of_le_length h, List.head?_append]

variable {c : Char} {x : Text}

/-- A text begins with no more than it holds, in front of text that does not extend it. -/
theorem begins_append
    (h : ∀ c, rest.head? = some c → ¬(s ++ [c]) <+: x) :
    Text.begins x (s ++ rest) = Text.begins x s := by
  rw [Bool.eq_iff_iff, Text.begins, Text.begins, List.isPrefixOf_iff_prefix,
    List.isPrefixOf_iff_prefix]
  refine ⟨fun hx => ?_, fun hx => hx.trans (List.prefix_append s rest)⟩
  rcases Nat.le_total x.length s.length with hle | hle
  · exact List.prefix_of_prefix_length_le hx (List.prefix_append s rest) hle
  · obtain ⟨y, rfl⟩ := List.prefix_of_prefix_length_le (List.prefix_append s rest) hx hle
    cases y with
    | nil => simp
    | cons c y =>
      obtain ⟨z, hz⟩ := hx
      have hrest : rest = c :: (y ++ z) := by simpa using hz.symm
      exact absurd ⟨y, by simp⟩ (h c (by simp [hrest]))

/-- Helper: a point behind the digits of a text stands inside the text, and so do the digits behind
the point, if neither a digit nor a point follows the text. -/
theorem point_append (hdigit : Closes Text.isDigit rest) (hdot : rest.head? ≠ some '.') :
    (((s ++ rest).drop (span Text.isDigit s)).head? = some '.' ↔
      (s.drop (span Text.isDigit s)).head? = some '.') ∧
    ((s.drop (span Text.isDigit s)).head? = some '.' →
      span Text.isDigit ((s ++ rest).drop (span Text.isDigit s + 1))
        = span Text.isDigit (s.drop (span Text.isDigit s + 1))) := by
  constructor
  · rw [head?_drop_append _ (span_le_length s)]
    cases (s.drop (span Text.isDigit s)).head? <;> simp [hdot]
  · intro hpoint
    have hlt : span Text.isDigit s + 1 ≤ s.length := by
      by_contra hge
      rw [List.drop_eq_nil_of_le (by omega)] at hpoint
      cases hpoint
    rw [List.drop_append_of_le_length hlt, span_append hdigit]

theorem begins_of_ne {d : Char} (h : d ≠ c) : Text.begins (d :: x) (c :: s) = false := by
  rw [Text.begins, List.isPrefixOf_cons_cons, beq_false_of_ne h, Bool.false_and]

/-- Digits with perhaps a point are closed off by anything but a digit or a point. -/
theorem number?_append (hdigit : Closes Text.isDigit rest) (hdot : rest.head? ≠ some '.') :
    number? (s ++ rest) = number? s := by
  obtain ⟨hhead, hspan⟩ := point_append (s := s) hdigit hdot
  rw [number?, number?, span_append hdigit]
  by_cases hpoint : (s.drop (span Text.isDigit s)).head? = some '.'
  · simp only [hhead.2 hpoint, hpoint, hspan hpoint]
  · simp only [mt hhead.1 hpoint, hpoint, decide_false, Bool.false_and, Bool.false_eq_true,
      if_false]

/-- A point with digits is closed off by anything but a digit or a point. -/
theorem decimal?_append (hdigit : Closes Text.isDigit rest) (hdot : rest.head? ≠ some '.') :
    decimal? (s ++ rest) = decimal? s := by
  obtain ⟨hhead, hspan⟩ := point_append (s := s) hdigit hdot
  rw [decimal?, decimal?, span_append hdigit]
  by_cases hpoint : (s.drop (span Text.isDigit s)).head? = some '.'
  · simp only [hhead.2 hpoint, hpoint, hspan hpoint]
  · simp only [mt hhead.1 hpoint, hpoint, if_false]

theorem number?_eq_none (hc : Text.isDigit c = false) : number? (c :: s) = none := by
  simp [number?, span, hc]

theorem decimal?_eq_none (hc : Text.isDigit c = false) (hdot : c ≠ '.') :
    decimal? (c :: s) = none := by
  simp [decimal?, span, hc, hdot]

/-- A headed run is closed off by what ends the class of its characters. -/
theorem headed?_append (h : span q s = s.length → Closes q rest) :
    headed? p q (c :: s ++ rest) = headed? p q (c :: s) := by
  have hspan : span q (s ++ rest) = span q s := by
    rcases Nat.lt_or_eq_of_le (span_le_length s) with hlt | heq
    · exact span_append_of_lt hlt
    · exact span_append (h heq)
  simp only [List.cons_append, headed?, hspan]

theorem isWordAt_getLast? (hs : s ≠ []) (hword : ∀ c ∈ s, Text.isWord c) :
    isWordAt s.getLast? := by
  rw [List.getLast?_eq_some_getLast hs]
  exact hword _ (List.getLast_mem hs)

/-- A text begins with a word in front of more text as it does alone, if no word is cut. -/
theorem begins_append_of_isWord {w : Text} (hword : ∀ c ∈ w, Text.isWord c) (hs : s ≠ [])
    (hend : isWordAt s.getLast? → Closes Text.isWord rest) :
    Text.begins w (s ++ rest) = Text.begins w s := by
  refine begins_append fun c hc hpre => ?_
  -- Both sides of the end of `s` would lie inside the word.
  have hmem : ∀ d ∈ s ++ [c], Text.isWord d := fun d hd => hword d (hpre.subset hd)
  have hlast := isWordAt_getLast? hs fun d hd => hmem d (List.mem_append_left _ hd)
  simpa [hend hlast c hc] using hmem c (by simp)

/-- A word is found in front of more text as it is alone, if no word is cut. -/
theorem wholeWord?_append {w : Text} (hword : ∀ c ∈ w, Text.isWord c) (hs : s ≠ [])
    (hend : isWordAt s.getLast? → Closes Text.isWord rest) :
    wholeWord? w (s ++ rest) = wholeWord? w s := by
  -- What stands behind the word lies in `s`, or begins what follows.
  have hafter : Text.begins w s = true →
      isWordAt ((s ++ rest).drop w.length).head? = isWordAt (s.drop w.length).head? := by
    intro hw
    have hpre : w <+: s := List.isPrefixOf_iff_prefix.1 hw
    rw [head?_drop_append _ hpre.length_le]
    cases hdrop : s.drop w.length with
    | cons d rest => rfl
    | nil =>
      have hsw : w = s :=
        hpre.eq_of_length (Nat.le_antisymm hpre.length_le (List.drop_eq_nil_iff.1 hdrop))
      have hclosed := hend (isWordAt_getLast? hs (hsw ▸ hword))
      cases hrest : rest.head? with
      | none => rfl
      | some c => simpa [isWordAt] using hclosed c hrest
  rw [wholeWord?, wholeWord?, begins_append_of_isWord hword hs hend]
  cases hw : Text.begins w s with
  | false => rfl
  | true => rw [hafter hw]

/-- The characters that every lexeme of a pattern begins with, where they are fixed. -/
def lead? : Pattern → Option Text
  | symbol x | lineFrom x | enclosed x _ _ | beforeWord x | afterWord x => some x
  | semantic => some ": "
  | _ => none

/-- What a lexeme begins with that may go on for any length, or that depends on the characters
around it. -/
def opener? : Pattern → Option Text
  | lineFrom x | enclosed x _ _ | beforeWord x | afterWord x => some x
  | _ => none

theorem lead?_of_opener? {p : Pattern} (h : p.opener? = some x) : p.lead? = some x := by
  cases p <;> first | exact h | cases h

/-- Where the fixed characters of a pattern are missing, the pattern finds nothing. -/
theorem length?_eq_none_of_lead {p : Pattern} {t : Text} {prev : Option Char}
    (hx : p.lead? = some x) (ht : Text.begins x t = false) : p.length? prev t = none := by
  cases p with
  | symbol y | lineFrom y | enclosed y | beforeWord y | afterWord y =>
    obtain rfl : y = x := Option.some.inj hx
    simp [length?, ht]
  | semantic =>
    obtain rfl : (": " : Text) = x := Option.some.inj hx
    rw [length?, ht, if_neg Bool.false_ne_true]
  | _ => cases hx

/-- The patterns whose lexemes have a blank inside. -/
def isSpaced : Pattern → Bool
  | elseIf _ | semantic => true
  | _ => false

/-- The patterns whose lexemes depend on their neighbours at word boundaries only, unless they begin
with an opener. -/
def isPlain : Pattern → Bool
  | symbol _ | lineFrom _ | enclosed .. | name | number | decimal | blanks => true
  | elseIf _ | semantic | beforeWord _ | afterWord _ => true
  | word choices => choices.all fun w => !w.isEmpty && w.all Text.isWord
  | _ => false

/-- A character that may begin or go on with a number. -/
def isNumeric (c : Char) : Bool := Text.isDigit c || c == '.'

/-- The character `next` behind the text `s` belongs to no lexeme that begins with `s`: not to a
word, not to a number, not to fixed characters, and not to words with a blank between them. -/
structure Apart (p : Pattern) (s : Text) (next : Option Char) : Prop where
  word : isWordAt s.getLast? → isWordAt next = false
  number : s.head?.any isNumeric → next.any isNumeric = false
  lead : ∀ x, p.lead? = some x → ∀ c, next = some c → ¬(s ++ [c]) <+: x
  spaced : p.isSpaced → s.getLast?.any Text.isBlank = false ∧
    (s = "else" → next.any Text.isBlank = false)

theorem toNat_of_isAlpha (h : c.isAlpha) :
    (65 ≤ c.toNat ∧ c.toNat ≤ 90) ∨ (97 ≤ c.toNat ∧ c.toNat ≤ 122) := by
  rcases Bool.or_eq_true_iff.1 h with h | h
  · have hupper : 'A'.val ≤ c.val ∧ c.val ≤ 'Z'.val := of_decide_eq_true h
    exact .inl hupper
  · obtain ⟨hlow, hhigh⟩ := (Bool.and_eq_true _ _).mp h
    exact .inr ⟨UInt32.le_iff_toNat_le.1 (of_decide_eq_true hlow),
      UInt32.le_iff_toNat_le.1 (of_decide_eq_true hhigh)⟩

theorem toNat_of_isNameRest (h : Text.isNameRest c) : 48 ≤ c.toNat ∧ c.toNat < 128 := by
  simp only [Text.isNameRest, Text.isAsciiWord, Char.isAlphanum, Bool.or_eq_true, beq_iff_eq] at h
  rcases h with (h | h) | rfl
  · have hletter := toNat_of_isAlpha h
    omega
  · simp only [Char.isDigit, Bool.and_eq_true, decide_eq_true_eq, ge_iff_le,
      UInt32.le_iff_toNat_le] at h
    exact ⟨h.1, Nat.lt_of_le_of_lt h.2 (by decide)⟩
  · decide

theorem isWord_of_isNameRest (h : Text.isNameRest c) : Text.isWord c := by
  rw [Text.isWord, CharSet.member, if_pos (toNat_of_isNameRest h).2]
  exact h

theorem not_isBlank_of_isNameRest (h : Text.isNameRest c) : Text.isBlank c = false := by
  obtain ⟨hlow, hhigh⟩ := toNat_of_isNameRest h
  rw [Text.isBlank, CharSet.member, if_pos hhigh]
  simp only [Text.isAsciiBlank, Bool.or_eq_false_iff, Bool.and_eq_false_iff,
    decide_eq_false_iff_not]
  omega

theorem isNameRest_of_isNameStart (h : Text.isNameStart c) : Text.isNameRest c := by
  simp only [Text.isNameStart, Text.isNameRest, Text.isAsciiWord, Char.isAlphanum,
    Bool.or_eq_true] at h ⊢
  exact h.imp_left .inl

theorem not_isNumeric_of_isNameStart (h : Text.isNameStart c) : isNumeric c = false := by
  have hascii := (toNat_of_isNameRest (isNameRest_of_isNameStart h)).2
  have hdigit : Text.isDigit c = false := by
    rw [Text.isDigit, CharSet.member, if_pos hascii]
    simp only [Text.isNameStart, Bool.or_eq_true, beq_iff_eq] at h
    have hletter : 65 ≤ c.toNat := by
      rcases h with h | rfl
      · have hrange := toNat_of_isAlpha h
        omega
      · decide
    simp only [Char.isDigit, Bool.and_eq_false_iff, decide_eq_false_iff_not]
    exact .inr (Nat.not_le.2 (Nat.lt_of_lt_of_le (by decide) hletter))
  have hpoint : c ≠ '.' := by
    rintro rfl
    exact Bool.noConfusion h
  simp [isNumeric, hdigit, hpoint]

/-- Neither digits nor the point are blanks. -/
theorem not_isBlank_of_isNumeric (h : isNumeric c) : Text.isBlank c = false := by
  rw [Text.isBlank, CharSet.member]
  simp only [isNumeric, Text.isDigit, CharSet.member, Bool.or_eq_true, beq_iff_eq] at h
  by_cases hascii : c.toNat < 128
  · rw [if_pos hascii] at h ⊢
    have hrange : 46 ≤ c.toNat ∧ c.toNat ≤ 57 := by
      rcases h with h | rfl
      · simp only [Char.isDigit, Bool.and_eq_true, decide_eq_true_eq, ge_iff_le,
          UInt32.le_iff_toNat_le] at h
        exact ⟨Nat.le_trans (by decide) h.1, h.2⟩
      · decide
    simp only [Text.isAsciiBlank, Bool.or_eq_false_iff, Bool.and_eq_false_iff,
      decide_eq_false_iff_not]
    omega
  · rw [if_neg hascii] at h ⊢
    rcases h with h | rfl
    · have hboth : (CharSet.holds Text.digitPoints c.toNat
          && CharSet.holds Text.blankPoints c.toNat) = false :=
        CharSet.not_holds_both (by decide +kernel) c.toNat
      rwa [h, Bool.true_and] at hboth
    · exact absurd (by decide) hascii

theorem not_isDigit_of_isBlank (h : Text.isBlank c) : Text.isDigit c = false := by
  rw [← Bool.not_eq_true]
  intro hdigit
  rw [not_isBlank_of_isNumeric (by simp [isNumeric, hdigit])] at h
  cases h

namespace Apart

variable {pat : Pattern} {c : Char}

theorem closes_word (h : pat.Apart s rest.head?) (hs : isWordAt s.getLast?) :
    Closes Text.isWord rest := by
  intro d hd
  simpa [isWordAt, hd] using h.word hs

theorem closes_name (h : pat.Apart (c :: s) rest.head?) (hc : Text.isNameStart c)
    (hs : span Text.isNameRest s = s.length) : Closes Text.isNameRest rest := by
  have hrest : ∀ d ∈ s, Text.isNameRest d := by
    have hall : s.takeWhile Text.isNameRest = s :=
      (List.takeWhile_prefix _).eq_of_length hs
    exact List.takeWhile_eq_self_iff.1 hall
  have hword : ∀ d ∈ c :: s, Text.isWord d := by
    intro d hd
    rcases List.mem_cons.1 hd with rfl | hd
    · exact isWord_of_isNameRest (isNameRest_of_isNameStart hc)
    · exact isWord_of_isNameRest (hrest d hd)
  intro d hd
  have hclosed := h.closes_word (isWordAt_getLast? (by simp) hword) d hd
  refine Bool.eq_false_iff.2 fun hname => ?_
  simp [isWord_of_isNameRest hname] at hclosed

theorem closes_number (h : pat.Apart (c :: s) rest.head?) (hc : isNumeric c) :
    Closes Text.isDigit rest ∧ rest.head? ≠ some '.' := by
  have hnext := h.number (by simpa using hc)
  constructor
  · intro d hd
    simp only [hd, Option.any_some, isNumeric, Bool.or_eq_false_iff] at hnext
    exact hnext.1
  · intro hd
    simp [hd, isNumeric] at hnext

end Apart

/-- Helper: behind a word character no word is found where none begins. -/
theorem wholeWord?_eq_none {w : Text} (hw : w ≠ []) (hword : ∀ c ∈ w, Text.isWord c)
    (hs : isWordAt s.head? = false) : wholeWord? w s = none := by
  obtain ⟨c, w, rfl⟩ := List.exists_cons_of_ne_nil hw
  have hc := hword c (by simp)
  cases s with
  | nil => rfl
  | cons d s =>
    have hcd : c ≠ d := by
      rintro rfl
      simp [isWordAt, hc] at hs
    simp [wholeWord?, Text.begins, hcd]

/-- Helper: the words of a plain pattern are found in front of more text as they are alone. -/
theorem findSome?_wholeWord_append {choices : List Text}
    (hplain : (word choices).isPlain) (hs : s ≠ [])
    (hend : isWordAt s.getLast? → Closes Text.isWord rest) :
    choices.findSome? (wholeWord? · (s ++ rest)) = choices.findSome? (wholeWord? · s) := by
  induction choices with
  | nil => rfl
  | cons w choices ih =>
    simp only [isPlain, List.all_cons, Bool.and_eq_true, List.all_eq_true] at hplain
    rw [List.findSome?_cons, List.findSome?_cons, wholeWord?_append hplain.1.2 hs hend,
      ih (by simpa [isPlain] using hplain.2)]

theorem span_isBlank_lt {v : Text} (hv : v ≠ []) (hlast : v.getLast?.any Text.isBlank = false) :
    span Text.isBlank v < v.length := by
  refine Nat.lt_of_le_of_ne (span_le_length v) fun hspan => ?_
  have hall : v.takeWhile Text.isBlank = v := (List.takeWhile_prefix _).eq_of_length hspan
  have hblank := List.takeWhile_eq_self_iff.1 hall _ (List.getLast_mem hv)
  simp [List.getLast?_eq_some_getLast hv, hblank] at hlast

/-- The number of blanks that are read between `else` and `if`. -/
def gap (manyBlanks : Bool) (v : Text) : Nat :=
  if manyBlanks then span Text.isBlank v else if v.head?.any Text.isBlank then 1 else 0

theorem elseIf?_else (manyBlanks : Bool) (v : Text) :
    elseIf? manyBlanks ("else" ++ v)
      = if gap manyBlanks v = 0 then none
        else (wholeWord? "if" (v.drop (gap manyBlanks v))).map (4 + gap manyBlanks v + ·) := by
  have hbegins : Text.begins "else" ("else" ++ v) = true :=
    List.isPrefixOf_iff_prefix.2 (List.prefix_append _ v)
  have hdrop : (("else" : Text) ++ v).drop (4 + gap manyBlanks v) = v.drop (gap manyBlanks v) := by
    rw [show 4 = ("else" : Text).length from rfl, List.drop_length_add_append]
  rw [elseIf?, if_pos hbegins, ← hdrop]
  rfl

theorem gap_append {manyBlanks : Bool} {v : Text} (hv : v ≠ [])
    (hlast : v.getLast?.any Text.isBlank = false) :
    gap manyBlanks (v ++ rest) = gap manyBlanks v ∧ gap manyBlanks v < v.length := by
  have hlt := span_isBlank_lt hv hlast
  obtain ⟨c, v, rfl⟩ := List.exists_cons_of_ne_nil hv
  cases manyBlanks with
  | true => exact ⟨span_append_of_lt hlt, hlt⟩
  | false =>
    refine ⟨rfl, ?_⟩
    cases hc : Text.isBlank c with
    | true =>
      simp only [span, List.takeWhile_cons_of_pos hc, List.length_cons] at hlt
      simp only [gap, List.head?_cons, Option.any_some, hc, List.length_cons]
      simp
      omega
    | false => simp [gap, hc]

/-- The words `else` and `if` are found in front of more text as they are alone. -/
theorem elseIf?_append {manyBlanks : Bool} (hs : s ≠ [])
    (hend : isWordAt s.getLast? → Closes Text.isWord rest)
    (hblank : s.getLast?.any Text.isBlank = false)
    (helse : s = "else" → Closes Text.isBlank rest) :
    elseIf? manyBlanks (s ++ rest) = elseIf? manyBlanks s := by
  have hbegins := begins_append_of_isWord (w := "else") (by decide) hs hend
  cases hs' : Text.begins "else" s with
  | false => rw [elseIf?, elseIf?, hbegins, hs', if_neg nofun, if_neg nofun]
  | true =>
    obtain ⟨v, rfl⟩ := List.isPrefixOf_iff_prefix.1 hs'
    rw [List.append_assoc, elseIf?_else, elseIf?_else]
    by_cases hv : v = []
    · -- No blank follows the first word, so there is no second one.
      subst hv
      have hnone : gap manyBlanks rest = 0 := by
        have hclosed := helse rfl
        cases rest with
        | nil => cases manyBlanks <;> rfl
        | cons c rest => cases manyBlanks <;> simp [gap, span, hclosed c rfl]
      rw [List.nil_append, hnone, if_pos rfl, if_pos (by cases manyBlanks <;> rfl)]
    · have hlast : (("else" : Text) ++ v).getLast? = v.getLast? := by
        rw [List.getLast?_append, List.getLast?_eq_some_getLast hv, Option.some_or]
      rw [hlast] at hend hblank
      obtain ⟨hgap, hlt⟩ : gap manyBlanks (v ++ rest) = gap manyBlanks v ∧
          gap manyBlanks v < v.length := gap_append hv hblank
      have hdrop : v.drop (gap manyBlanks v) ≠ [] := by
        rw [Ne, List.drop_eq_nil_iff]
        omega
      rw [hgap, List.drop_append_of_le_length hlt.le, wholeWord?_append (by decide) hdrop]
      rwa [List.getLast?_drop, if_neg (by omega)]

theorem isNameRest_of_isCapital {c : Char} (h : isCapital c || c.isDigit) :
    Text.isNameRest c := by
  simp only [Text.isNameRest, Text.isAsciiWord, Char.isAlphanum, isCapital, Bool.or_eq_true,
    decide_eq_true_eq, beq_iff_eq] at h ⊢
  rcases h with (h | h) | h
  · exact .inl (.inl (Bool.or_eq_true_iff.2 (.inl h)))
  · exact .inr h
  · exact .inl (.inr h)

/-- A semantic is found in front of more text as it is alone. -/
theorem semantic_append (hend : isWordAt s.getLast? → Closes Text.isWord rest)
    (hblank : s.getLast?.any Text.isBlank = false)
    (hlead : Text.begins ": " (s ++ rest) = Text.begins ": " s) {prev prev' : Option Char} :
    semantic.length? prev (s ++ rest) = semantic.length? prev' s := by
  simp only [length?, hlead]
  split
  · next hbegins =>
    obtain ⟨v, rfl⟩ := List.isPrefixOf_iff_prefix.1 hbegins
    cases v with
    | nil => exact absurd hblank (by decide)
    | cons c v =>
      have hdrop : ∀ u : Text, ((": " : Text) ++ u).drop 2 = u := fun _ => rfl
      rw [List.append_assoc, hdrop, hdrop]
      cases hc : isCapital c with
      | false => simp [headed?, hc]
      | true =>
        rw [headed?_append fun hall => ?_]
        have hrest := (List.takeWhile_prefix _).eq_of_length hall
        have hword : ∀ d ∈ c :: v, Text.isWord d := by
          have hcapitals : ∀ d ∈ c :: v, (isCapital d || d.isDigit) = true :=
            List.forall_mem_cons.2 ⟨by simp [hc], List.takeWhile_eq_self_iff.1 hrest⟩
          exact fun d hd => isWord_of_isNameRest (isNameRest_of_isCapital (hcapitals d hd))
        have hlast : ((": " : Text) ++ c :: v).getLast? = (c :: v).getLast? := by
          rw [List.getLast?_append, List.getLast?_eq_some_getLast (List.cons_ne_nil c v),
            Option.some_or]
        rw [hlast] at hend
        intro d hd
        have hclosed := hend (isWordAt_getLast? (List.cons_ne_nil c v) hword) d hd
        refine Bool.eq_false_iff.2 fun h => ?_
        simp [isWord_of_isNameRest (isNameRest_of_isCapital h)] at hclosed
  · rfl

/-- A pattern finds in front of more text what it finds in a text alone. -/
theorem length?_append {p : Pattern} {prev : Option Char} (hplain : p.isPlain) (hs : s ≠ [])
    (hblank : s.head?.any Text.isBlank = false)
    (hopen : ∀ x, p.opener? = some x → Text.begins x s = false)
    (hprev : isWordAt prev → isWordAt s.head? = false) (hapart : p.Apart s rest.head?) :
    p.length? prev (s ++ rest) = p.length? none s := by
  cases p with
  | symbol x => simp only [length?, begins_append (hapart.lead x rfl)]
  | lineFrom x | enclosed x =>
    simp only [length?, begins_append (hapart.lead x rfl), hopen x rfl]
    rfl
  | beforeWord x | afterWord x =>
    simp [length?, begins_append (hapart.lead x rfl), hopen x rfl]
  | word choices =>
    rw [length?, length?, findSome?_wholeWord_append hplain hs hapart.closes_word,
      if_neg (c := isWordAt none) (by simp [isWordAt])]
    split
    · next hword =>
      symm
      rw [List.findSome?_eq_none_iff]
      intro w hw
      simp only [isPlain, List.all_eq_true, Bool.and_eq_true] at hplain
      exact wholeWord?_eq_none (by simpa using (hplain w hw).1) (hplain w hw).2 (hprev hword)
    · rfl
  | name =>
    obtain ⟨c, s, rfl⟩ := List.exists_cons_of_ne_nil hs
    cases hc : Text.isNameStart c with
    | true => exact headed?_append (hapart.closes_name hc)
    | false => simp [length?, headed?, hc]
  | number =>
    obtain ⟨c, s, rfl⟩ := List.exists_cons_of_ne_nil hs
    cases hc : Text.isDigit c with
    | true =>
      obtain ⟨hdigit, hdot⟩ := hapart.closes_number (by simp [isNumeric, hc])
      exact number?_append hdigit hdot
    | false => exact (number?_eq_none hc).trans (number?_eq_none hc).symm
  | decimal =>
    obtain ⟨c, s, rfl⟩ := List.exists_cons_of_ne_nil hs
    cases hc : isNumeric c with
    | true =>
      obtain ⟨hdigit, hdot⟩ := hapart.closes_number hc
      exact decimal?_append hdigit hdot
    | false =>
      simp only [isNumeric, Bool.or_eq_false_iff, beq_eq_false_iff_ne] at hc
      exact (decimal?_eq_none hc.1 hc.2).trans (decimal?_eq_none hc.1 hc.2).symm
  | blanks =>
    obtain ⟨c, s, rfl⟩ := List.exists_cons_of_ne_nil hs
    have hc : Text.isBlank c = false := by simpa using hblank
    simp [length?, run?, span, hc]
  | elseIf manyBlanks =>
    obtain ⟨hlast, helse⟩ := hapart.spaced rfl
    have hclosed : s = "else" → Closes Text.isBlank rest := fun h c hc => by
      simpa [hc] using helse h
    rw [length?, length?, elseIf?_append hs hapart.closes_word hlast hclosed,
      if_neg (c := isWordAt none) (by simp [isWordAt])]
    split
    · next hword =>
      -- Behind a word character no word begins, so neither do these two.
      have hne : Text.begins "else" s = false := by
        obtain ⟨c, s, rfl⟩ := List.exists_cons_of_ne_nil hs
        refine begins_of_ne (d := 'e') ?_
        rintro rfl
        exact Bool.noConfusion (hprev hword)
      rw [elseIf?, hne, if_neg nofun]
    · rfl
  | semantic =>
    exact semantic_append hapart.closes_word (hapart.spaced rfl).1
      (begins_append (hapart.lead _ rfl))
  | _ => cases hplain

/-! ## §3 The length of a lexeme -/

section Length

variable {t : Text} {n : Nat}

theorem begins_of_le {x w v : Text} (h : x.length ≤ w.length) :
    Text.begins x (w ++ v) = Text.begins x w := by
  rw [Bool.eq_iff_iff, Text.begins, Text.begins, List.isPrefixOf_iff_prefix,
    List.isPrefixOf_iff_prefix]
  constructor
  · exact fun hx => List.prefix_of_prefix_length_le hx (List.prefix_append w v) h
  · exact fun hx => hx.trans (List.prefix_append w v)

theorem length_le_of_begins {x : Text} (h : Text.begins x t = true) : x.length ≤ t.length :=
  (List.isPrefixOf_iff_prefix.1 h).length_le

theorem through_le {closer : Text} {oneLine : Bool} (h : through closer oneLine t = some n) :
    n ≤ t.length := by
  induction t generalizing n with
  | nil => cases h
  | cons c t ih =>
    rw [through] at h
    split at h
    · next hbegins =>
      cases h
      exact length_le_of_begins hbegins
    split at h
    · cases h
    · obtain ⟨m, hm, rfl⟩ := Option.map_eq_some_iff.1 h
      simpa using ih hm

theorem span_point_le {m : Nat} (h : (t.drop m).head? = some '.') :
    m + 1 + span Text.isDigit (t.drop (m + 1)) ≤ t.length := by
  have hm : m < t.length := by
    by_contra hge
    rw [List.drop_eq_nil_of_le (by omega)] at h
    cases h
  have := span_le_length (p := Text.isDigit) (t.drop (m + 1))
  rw [List.length_drop] at this
  omega

theorem wholeWord?_le {w : Text} (h : wholeWord? w t = some n) : n ≤ t.length := by
  obtain ⟨hw, ⟨⟩⟩ := Option.ite_none_right_eq_some.1 h
  exact length_le_of_begins (Bool.and_eq_true_iff.1 hw).1

theorem run?_le {p : Char → Bool} (h : run? p t = some n) : n ≤ t.length := by
  obtain ⟨-, ⟨⟩⟩ := Option.ite_none_left_eq_some.1 h
  exact span_le_length t

theorem headed?_le {p q : Char → Bool} (h : headed? p q t = some n) : n ≤ t.length := by
  cases t with
  | nil => cases h
  | cons c t =>
    obtain ⟨-, ⟨⟩⟩ := Option.ite_none_right_eq_some.1 h
    have hspan := span_le_length (p := q) t
    rw [List.length_cons]
    omega

theorem add_le_length {m k : Nat} (hm : m ≤ t.length) (hk : k ≤ (t.drop m).length) :
    m + k ≤ t.length := by
  rw [List.length_drop] at hk
  omega

/-- The match of `else if` lies within the text. -/
theorem elseIf?_le {manyBlanks : Bool} (h : elseIf? manyBlanks t = some n) : n ≤ t.length := by
  simp only [elseIf?] at h
  split at h
  · next helse =>
    generalize hgap : (if manyBlanks then span Text.isBlank (t.drop 4)
      else if (t.drop 4).head?.any Text.isBlank then 1 else 0) = gap at h
    split at h
    · cases h
    · obtain ⟨m, hm, rfl⟩ := Option.map_eq_some_iff.1 h
      have hfour : 4 ≤ t.length := length_le_of_begins helse
      -- The blanks between the two words lie within the text.
      have hblanks : gap ≤ (t.drop 4).length := by
        rw [← hgap]
        split
        · exact span_le_length _
        · split
          · next hblank =>
            cases hdrop : t.drop 4 with
            | nil => simp [hdrop] at hblank
            | cons c u => simp
          · exact Nat.zero_le _
      exact add_le_length (add_le_length hfour hblanks) (wholeWord?_le hm)
  · cases h

/-- A lexeme is no longer than the text it is found in. -/
theorem length?_le {p : Pattern} {prev : Option Char} (h : p.length? prev t = some n) :
    n ≤ t.length := by
  cases p with
  -- A fixed text is within what it begins; the other patterns add to it.
  | symbol x =>
    obtain ⟨hx, ⟨⟩⟩ := Option.ite_none_right_eq_some.1 h
    exact length_le_of_begins hx
  | lineFrom x =>
    obtain ⟨hx, ⟨⟩⟩ := Option.ite_none_right_eq_some.1 h
    exact add_le_length (length_le_of_begins hx) (span_le_length _)
  | enclosed x closer oneLine =>
    obtain ⟨hx, h⟩ := Option.ite_none_right_eq_some.1 h
    obtain ⟨m, hm, rfl⟩ := Option.map_eq_some_iff.1 h
    exact add_le_length (length_le_of_begins hx) (through_le hm)
  | word choices =>
    replace h := (Option.ite_none_left_eq_some.1 h).2
    obtain ⟨w, -, hw⟩ := List.exists_of_findSome?_eq_some h
    exact wholeWord?_le hw
  | elseIf manyBlanks =>
    replace h := (Option.ite_none_left_eq_some.1 h).2
    exact elseIf?_le h
  | name => exact headed?_le h
  | number =>
    simp only [length?, number?] at h
    split at h
    · cases h
    split at h
    · next hpoint =>
      cases h
      exact span_point_le (by simpa using (Bool.and_eq_true_iff.1 hpoint).1)
    · cases h
      exact span_le_length t
  | decimal =>
    simp only [length?, decimal?] at h
    split at h
    · next hpoint =>
      split at h
      · cases h
      · cases h
        exact span_point_le hpoint
    · cases h
  | blanks => exact run?_le h
  | semantic =>
    obtain ⟨hx, h⟩ := Option.ite_none_right_eq_some.1 h
    obtain ⟨m, hm, rfl⟩ := Option.map_eq_some_iff.1 h
    exact add_le_length (length_le_of_begins hx) (headed?_le hm)
  | directive =>
    obtain ⟨hx, h⟩ := Option.ite_none_right_eq_some.1 h
    obtain ⟨m, hm, rfl⟩ := Option.map_eq_some_iff.1 h
    exact add_le_length (length_le_of_begins hx) (run?_le hm)
  | beforeWord x =>
    obtain ⟨hx, ⟨⟩⟩ := Option.ite_none_right_eq_some.1 h
    exact length_le_of_begins (Bool.and_eq_true_iff.1 hx).1
  | afterWord x =>
    obtain ⟨hx, ⟨⟩⟩ := Option.ite_none_right_eq_some.1 h
    exact length_le_of_begins (Bool.and_eq_true_iff.1 hx).2

end Length

end Pattern

end ShaderBridge
