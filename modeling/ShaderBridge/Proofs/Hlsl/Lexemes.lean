import ShaderBridge.Proofs.CrossGl.Lexemes
import ShaderBridge.Token.Lexicon.Hlsl

/-!
# HLSL lexemes

What the token table of HLSL makes of names, of punctuation and of semantics, and what may stand
behind them.  A semantic is one token from its colon on, with a space inside; so a colon is not
apart from a space, and neither is the word `else`.
-/

namespace ShaderBridge.Hlsl

open Lexicon Pattern

theorem regular : hlsl.Regular where
  plain := by decide
  leads := by decide
  gaps := by decide
  blank := by decide
  dropped := by decide

/-! ## §1 Names -/

theorem lettered : hlsl.Lettered := by
  intro r hr
  revert r
  decide

theorem whole_name {t : Token} {w : Text} (h : hlsl.Lexes t) (htext : t.text = some w)
    (hw : isName w) : hlsl.Whole t w :=
  lettered.whole h htext (isLettered_of_isName hw)

/-- A name other than `else` is apart from whatever is no word character. -/
theorem apart_name {w : Text} {c : Char} (hw : isName w) (helse : w ≠ "else")
    (hc : Text.isWord c = false) : hlsl.Apart w (some c) :=
  lettered.apart_name hw helse hc

/-! ## §2 Punctuation -/

/-- Braces and semicolons. -/
def punctuation : List (TokenKind × Text) :=
  [(.leftBrace, r"{"), (.rightBrace, r"}"), (.semicolon, ";")]

theorem sealed_punctuation : ∀ p ∈ punctuation,
    hlsl.Sealed p.2 ∧ hlsl.Lexes ⟨p.1, some p.2⟩ := by
  decide

theorem whole_punctuation {p : TokenKind × Text} (hp : p ∈ punctuation) :
    hlsl.Whole ⟨p.1, some p.2⟩ p.2 :=
  (sealed_punctuation p hp).1.whole (sealed_punctuation p hp).2 rfl

/-- Braces and semicolons are apart from everything. -/
theorem apart_punctuation {p : TokenKind × Text} (hp : p ∈ punctuation) (next : Option Char) :
    hlsl.Apart p.2 next :=
  (sealed_punctuation p hp).1.apart next

/-! ## §3 Semantics -/

/-- A capital or underscore, and capitals, underscores and digits behind it. -/
def isSemanticName : Text → Bool
  | [] => false
  | c :: s => isCapital c && s.all fun c => isCapital c || c.isDigit

/-- The pattern finds nothing where this character stands. -/
def avoids (c : Char) : Pattern → Bool
  | .symbol x | .lineFrom x | .enclosed x _ _ => x.head?.any (· ≠ c)
  | .word choices => choices.all fun w => w.head?.any (· ≠ c)
  | .elseIf _ => 'e' ≠ c
  | _ => false

theorem begins_of_head {c : Char} {x s : Text} (h : x.head?.any (· ≠ c)) :
    Text.begins x (c :: s) = false := by
  cases x with
  | nil => cases h
  | cons d x => exact begins_of_ne (by simpa using h)

theorem length?_of_avoids {p : Pattern} {c : Char} {s : Text} (h : avoids c p) :
    p.length? none (c :: s) = none := by
  cases p with
  | symbol x | lineFrom x | enclosed x => rw [length?, begins_of_head h, if_neg Bool.false_ne_true]
  | word choices =>
    rw [length?, if_neg (by simp [isWordAt]), List.findSome?_eq_none_iff]
    intro w hw
    rw [wholeWord?, begins_of_head (List.all_eq_true.1 h w hw), Bool.false_and,
      if_neg Bool.false_ne_true]
  | elseIf manyBlanks =>
    rw [length?, if_neg (by simp [isWordAt]), elseIf?, begins_of_head (x := "else") h,
      if_neg Bool.false_ne_true]
  | _ => cases h

/-- Helper: the pattern of semantics covers a colon, a space and a name in capitals. -/
theorem length?_semantic {v : Text} (hv : isSemanticName v) :
    semantic.length? none (": " ++ v) = some ((": " : Text) ++ v).length := by
  cases v with
  | nil => cases hv
  | cons c v =>
    obtain ⟨hc, hrest⟩ := Bool.and_eq_true_iff.1 hv
    have hspan : v.takeWhile (fun c => isCapital c || c.isDigit) = v :=
      List.takeWhile_eq_self_iff.2 (List.all_eq_true.1 hrest)
    have hbegins : Text.begins ": " (": " ++ c :: v) = true :=
      List.isPrefixOf_iff_prefix.2 (List.prefix_append _ _)
    rw [length?, if_pos hbegins]
    show (headed? isCapital (fun c => isCapital c || c.isDigit) (c :: v)).map (2 + ·) = _
    rw [headed?, if_pos hc, span, hspan, Option.map_some, List.length_append, List.length_cons,
      Nat.add_comm 1]
    rfl

/-- A colon, a space and a name in capitals are one token. -/
theorem whole_semantic {v : Text} (hv : isSemanticName v) :
    hlsl.Whole ⟨.semantic, some (": " ++ v)⟩ (": " ++ v) := by
  refine ⟨rfl, by simp, rfl, ?_, .semantic, ?_, rfl⟩
  · have hopeners : ∀ r ∈ hlslRules, ∀ x ∈ r.pattern.opener?, x.head?.any (· ≠ ':') := by decide
    exact fun r hr x hx => begins_of_head (s := ' ' :: v) (hopeners r hr x hx)
  · -- No rule in front of the one for semantics finds anything at a colon.
    have hrules : hlslRules
        = hlslRules.take 19 ++ ⟨.semantic, .semantic⟩ :: hlslRules.drop 20 := rfl
    have havoids : ∀ r ∈ hlslRules.take 19, avoids ':' r.pattern := by decide
    have hnone : (hlslRules.take 19).findSome? (fun r =>
        (r.pattern.length? none (": " ++ v)).map (r.kind, ·)) = none := by
      rw [List.findSome?_eq_none_iff]
      intro r hr
      exact (congrArg _ (length?_of_avoids (s := ' ' :: v) (havoids r hr))).trans rfl
    show List.findSome? _ hlslRules = _
    rw [hrules, List.findSome?_append, hnone, Option.none_or, List.findSome?_cons,
      length?_semantic hv]
    rfl

/-- A semantic is apart from a semicolon. -/
theorem apart_semantic {v : Text} (hv : isSemanticName v) : hlsl.Apart (": " ++ v) (some ';') := by
  have hleads : ∀ r ∈ hlslRules, ∀ x ∈ r.pattern.lead?, x.length ≤ 2 := by decide
  cases v with
  | nil => cases hv
  | cons c v =>
    refine fun r hr => ⟨fun _ => rfl, fun _ => rfl, fun x hx d _ hpre => ?_, fun _ => ⟨?_, nofun⟩⟩
    · have hle := hpre.length_le.trans (hleads r hr x hx)
      simp at hle
    · obtain ⟨hc, hrest⟩ := Bool.and_eq_true_iff.1 hv
      have hcapitals : ∀ d ∈ c :: v, (isCapital d || d.isDigit) = true :=
        List.forall_mem_cons.2 ⟨by simp [hc], List.all_eq_true.1 hrest⟩
      have hne := List.cons_ne_nil c v
      rw [List.getLast?_append, List.getLast?_eq_some_getLast hne, Option.some_or]
      exact not_isBlank_of_isNameRest
        (isNameRest_of_isCapital (hcapitals _ (List.getLast_mem hne)))

end ShaderBridge.Hlsl
