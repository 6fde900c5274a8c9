import ShaderBridge.Proofs.CrossGl.ReadBack
import ShaderBridge.Proofs.CrossGl.Remarks

/-!
# Tokens of a CrossGL source

Where a CrossGL source is cut into tokens, each token but a comment or an identifier is also cut
from its own text alone (`cut_of_tokenize`).  What a row of the table finds at a place of the source
it finds in that text, and no row in front of it finds anything there.
-/

namespace ShaderBridge

open Lexicon Pattern

/-! ## §1 Rows that find a number -/

namespace Lexicon

variable {prev : Option Char} {t v w : Text} {k : TokenKind} {m : Nat}

theorem firstRow_decimal (h : decimal? t = some m) : FirstRow crossGlRules prev t .decimal m := by
  have hapart : ∀ q ∈ crossGlRules.takeWhile (· ≠ ⟨.decimal, .decimal⟩),
      q.pattern.opening.apart decimal.opening := by
    decide
  exact firstRow_of_apart (r := ⟨.decimal, .decimal⟩) (by decide) hapart h

/-- Digits are a number unless they go on behind a point. -/
theorem firstRow_number (hnone : decimal? t = none) (h : number? t = some m) :
    FirstRow crossGlRules prev t .number m := by
  have hapart : ∀ q ∈ crossGlRules.takeWhile (·.kind ≠ .number), q = ⟨.decimal, .decimal⟩ ∨
      q.pattern.opening.apart number.opening := by
    decide
  have hnumber : number.length? prev t = some m := h
  refine ⟨crossGlRules.takeWhile (·.kind ≠ .number), ⟨.number, .number⟩,
    (crossGlRules.dropWhile (·.kind ≠ .number)).tail, by decide, fun q hq => ?_, rfl, h⟩
  rcases hapart q hq with rfl | hq
  · exact hnone
  · exact length?_of_apart hq hnumber

theorem text_of_token? {l : Lexeme} {t : Token} (h : crossGl.token? l = some t) :
    t.text = some l.text := by
  simp only [token?] at h
  split at h
  · cases h
  · cases h
    rfl

theorem lexes_of_firstRow {t : Token} (hne : w ≠ []) (h : FirstRow crossGlRules none w k w.length)
    (ht : crossGl.token? ⟨k, w⟩ = some t) : crossGl.Lexes t := by
  have hcuts : Cuts crossGlRules [] (w ++ []) [⟨k, w⟩] [] :=
    .lexeme hne (by simpa using h) (.stop _ _)
  rw [List.append_nil] at hcuts
  refine ⟨w, text_of_token? ht, (Language.crossGl.tokenize_of_cuts hcuts).trans ?_⟩
  rw [List.filterMap_cons_some (f := Language.crossGl.lexicon.token?) ht]
  rfl

end Lexicon

namespace CrossGl

/-! ## §2 Tokens -/

variable {prev : Option Char} {v w : Text}

/-- The texts that a symbol or a list of words finds. -/
def choices : Pattern → List Text
  | .symbol x => [x]
  | .word xs => xs
  | _ => []

/-- What is found in front of a text is one of the choices, where there are some. -/
theorem mem_choices {p : Pattern} (hp : choices p ≠ [])
    (h : p.length? prev (w ++ v) = some w.length) : w ∈ choices p := by
  have hbegins : ∀ {x : Text}, Text.begins x (w ++ v) → x.length = w.length → w = x :=
    fun hx hlen => (List.prefix_of_prefix_length_le (List.isPrefixOf_iff_prefix.1 hx)
      (List.prefix_append w v) hlen.le).eq_of_length hlen |>.symm
  cases p with
  | symbol x =>
    obtain ⟨hx, h⟩ := Option.ite_none_right_eq_some.1 h
    exact List.mem_singleton.2 (hbegins hx (Option.some.inj h))
  | word xs =>
    replace h := (Option.ite_none_left_eq_some.1 h).2
    obtain ⟨x, hx, hfound⟩ := List.exists_of_findSome?_eq_some h
    obtain ⟨hword, hfound⟩ := Option.ite_none_right_eq_some.1 hfound
    rw [hbegins (Bool.and_eq_true_iff.1 hword).1 (Option.some.inj hfound)]
    exact hx
  | _ => exact absurd rfl hp

theorem mem_of_mem_takeWhile {before after : List LexRule} {r q : LexRule}
    (hq : q ∈ (before ++ r :: after).takeWhile (· ≠ r)) : q ∈ before := by
  rw [List.takeWhile_append, List.takeWhile_cons_of_neg (by simp), List.append_nil] at hq
  split at hq
  · exact hq
  · exact (List.takeWhile_sublist _).subset hq

/-- A token that is made from a lexeme is a comment, or it is cut from its own text unless it is an
identifier. -/
theorem cut_of_firstRow {k : TokenKind} {t : Token} (hne : w ≠ [])
    (h : FirstRow crossGlRules prev (w ++ v) k w.length) (ht : crossGl.token? ⟨k, w⟩ = some t) :
    t.kind.isComment ∨ Cut t := by
  have htext : t.text = some w := text_of_token? ht
  obtain ⟨hkind, hdropped⟩ := kind_of_token? ht
  obtain ⟨before, r, after, hrules, hbefore, rfl, hfound⟩ := id h
  have hr : r ∈ crossGlRules := by simp [hrules]
  obtain ⟨hlead, hopener, -, -⟩ := rule_roles r hr
  -- The table has one row that is never first, since the row for `^` stands before it.
  have htable : ∀ r ∈ crossGlRules, ∀ x ∈ choices r.pattern, r.kind ≠ .identifier ∧
      (r = ⟨.bitXor, .symbol "^"⟩ ∨ crossGl.Lexes ⟨r.kind, some x⟩) := by
    decide +kernel
  by_cases hchoices : choices r.pattern = []
  · have hle : ∀ n, r.pattern.length? prev (w ++ v) = some n → n ≤ w.length := by
      intro n hn
      rw [Option.some.inj (hn.symm.trans hfound)]
    obtain ⟨k, p⟩ := r
    cases p with
    | symbol x => cases hchoices
    | word xs =>
      -- No word is found where none is sought.
      cases hchoices
      simp [length?] at hfound
    | name =>
      right
      have hname : isName w := name_covers ((isWithin_headed w v hne hle).trans hfound)
      have hident : k = .identifier := by
        have hnames : ∀ r ∈ crossGlRules, r.pattern = .name → r.kind = .identifier := by decide
        exact hnames _ hr rfl
      subst hident
      rcases keyword_of_token? ht with hk | hk
      · exact .inl ⟨hk, w, htext, hname⟩
      · have hkeywords : ∀ q ∈ crossGlKeywords, crossGl.Lexes ⟨q.2, some q.1⟩ := by decide
        have hlexes : crossGl.Lexes ⟨t.kind, some w⟩ := hkeywords _ hk
        rw [← htext] at hlexes
        exact .inr hlexes
    | number =>
      -- If the digits went on behind a point, another row would have found them first.
      have hk : k = .number := by
        have hnumbers : ∀ r ∈ crossGlRules, r.pattern = .number → r.kind = .number := by decide
        exact hnumbers _ hr rfl
      subst hk
      have hnone : decimal? (w ++ v) = none := by
        cases hdecimal : decimal? (w ++ v) with
        | none => rfl
        | some n => cases (h.unique (firstRow_decimal hdecimal)).1
      have halone : decimal? w = none :=
        (isWithin_decimal w v hne (by simp [hnone])).trans hnone
      have hrow : FirstRow crossGlRules none w .number w.length :=
        firstRow_number halone ((isWithin_number w v hne hle).trans hfound)
      exact .inr (.inr (lexes_of_firstRow hne hrow ht))
    | decimal =>
      have hk : k = .decimal := by
        have hdecimals : ∀ r ∈ crossGlRules, r.pattern = .decimal → r.kind = .decimal := by decide
        exact hdecimals _ hr rfl
      subst hk
      have hrow : FirstRow crossGlRules none w .decimal w.length :=
        firstRow_decimal ((isWithin_decimal w v hne hle).trans hfound)
      exact .inr (.inr (lexes_of_firstRow hne hrow ht))
    | lineFrom x | enclosed x | beforeWord x | afterWord x =>
      left
      rw [hkind (hlead x rfl)]
      exact hopener x rfl
    | blanks =>
      obtain rfl : k = .blank := regular.blank _ hr rfl
      rw [hkind (by decide)] at hdropped
      exact absurd regular.dropped hdropped
    | elseIf | semantic => exact absurd rfl (not_isSpaced _ hr)
    | _ => exact absurd (regular.plain _ hr) Bool.false_ne_true
  · obtain ⟨hident, rfl | hlexes⟩ := htable r hr w (mem_choices hchoices hfound)
    · -- The row before it would have found the same.
      have hxor : ⟨.xor, .symbol "^"⟩ ∈
          (before ++ ⟨.bitXor, .symbol "^"⟩ :: after).takeWhile (· ≠ ⟨.bitXor, .symbol "^"⟩) := by
        rw [← hrules]
        decide
      cases (hbefore _ (mem_of_mem_takeWhile hxor)).symm.trans hfound
    · rw [← hkind hident, ← htext] at hlexes
      exact .inr (.inr hlexes)

/-- The tokens of a source are comments and the end, and tokens that are cut from their own text
unless they are identifiers. -/
theorem cut_of_tokenize {source : Text} {ts : List Token} (h : crossGl.tokenize source = .ok ts)
    {t : Token} (ht : t ∈ ts) : t = ending ∨ t.kind.isComment ∨ Cut t := by
  obtain ⟨ls, hcuts, rfl⟩ := Language.crossGl.cuts_of_tokenize h
  rcases List.mem_append.1 ht with ht | ht
  · obtain ⟨l, hl, htoken⟩ := List.mem_filterMap.1 ht
    obtain ⟨before, after, rfl⟩ := List.append_of_mem hl
    obtain ⟨mid, -, hrest⟩ := hcuts.split
    cases hrest with
    | lexeme hne hrow => exact .inr (cut_of_firstRow hne hrow htoken)
  · exact .inl (List.mem_singleton.1 ht)

end CrossGl

end ShaderBridge
