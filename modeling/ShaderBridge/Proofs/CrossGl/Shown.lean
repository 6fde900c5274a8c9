import ShaderBridge.Proofs.CrossGl.CodeRendering
import ShaderBridge.Proofs.CrossGl.SoleTokens

/-!
# Texts that show words and symbols

A text shows a list of words if it is cut into the tokens that these words are alone, whatever kinds
those have (`Shows`).  Other languages have other keywords and other kinds, so a text that comes
from one of them is described by its words and not by its tokens.
-/

namespace ShaderBridge.CrossGl

open Lexicon Pattern

/-! ## §1 Words -/

/-- The symbols that expressions and statements are made of. -/
def symbols : List Text :=
  ["+", "-", "*", "/", "<", ">", "<=", ">=", "==", "!=", "&&", "||", "=", "+=", "-=", "*=", "/=",
   "++", "--", "(", ")", r"{", r"}", ";", ",", ".", "?", ":"]

/-- The text alone is one token. -/
def IsSole (x : Text) : Prop := crossGl.Whole (soleToken x) x

theorem isSole_symbol {x : Text} (hx : x ∈ symbols) : IsSole x := by
  have htable : ∀ x ∈ symbols, crossGl.Lexes (soleToken x) ∧
      (soleToken x).kind.isComment = false ∧ (soleToken x).text = some x := by
    decide +kernel
  obtain ⟨hlexes, hcomment, htext⟩ := htable x hx
  obtain ⟨w, hw, -⟩ := whole_of_lexes hlexes hcomment
  obtain rfl : x = w := Option.some.inj (htext.symm.trans hw.text)
  exact hw

/-- The text is cut into the tokens of the given words, in front of the character `next`. -/
structure Shows (xs : List Text) (s : Text) (next : Option Char) : Prop where
  sole : ∀ x ∈ xs, IsSole x
  spells : crossGl.Spells (xs.map soleToken) s next

namespace Shows

variable {xs ys : List Text} {s u : Text} {next : Option Char}

protected theorem nil : Shows [] [] next := ⟨by simp, .nil⟩

protected theorem gap {b : Char} (hb : isGap b) (h : Shows xs s next) : Shows xs (b :: s) next :=
  ⟨h.sole, .gap hb h.spells⟩

protected theorem gaps (hu : ∀ b ∈ u, isGap b) (h : Shows xs s next) : Shows xs (u ++ s) next :=
  ⟨h.sole, .gaps hu h.spells⟩

protected theorem append (hs : Shows xs s (u.head?.or next)) (hu : Shows ys u next) :
    Shows (xs ++ ys) (s ++ u) next := by
  refine ⟨List.forall_mem_append.2 ⟨hs.sole, hu.sole⟩, ?_⟩
  rw [List.map_append]
  exact Spells.append hs.spells hu.spells

protected theorem cons {x : Text} (hx : IsSole x) (hapart : crossGl.Apart x (s.head?.or next))
    (h : Shows xs s next) : Shows (x :: xs) (x ++ s) next :=
  ⟨List.forall_mem_cons.2 ⟨hx, h.sole⟩, .token hx hapart h.spells⟩

theorem single {x : Text} (hx : IsSole x) (hapart : crossGl.Apart x next) : Shows [x] x next :=
  ⟨by simpa using hx, Spells.single hx hapart⟩

/-- The tokens that a text is cut into have the texts of the words. -/
theorem map_text (h : Shows xs s next) : (xs.map soleToken).map (·.text) = xs.map some := by
  rw [List.map_map]
  exact List.map_congr_left fun x hx => (h.sole x hx).text

theorem name {x : Text} (hx : isName x) (hnext : next.all isNameBreak) : Shows [x] x next :=
  single (whole_name hx) (apart_nameBreak hx hnext)

theorem cons_punctuation {x : Text} (hx : x ∈ symbols) (hx' : x ∈ punctuation)
    (h : Shows xs s next) : Shows (x :: xs) (x ++ s) next :=
  .cons (isSole_symbol hx) (apart_punctuation hx' _) h

/-- A text that shows words begins with a gap or with the first word. -/
theorem head?_eq {x : Text} (h : Shows (x :: xs) s next) :
    (∃ b, s.head? = some b ∧ isGap b) ∨ s.head? = x.head? := by
  rcases h.spells.head?_eq with hgap | ⟨w, hw, hhead⟩
  · exact .inl hgap
  · obtain rfl : w = x := Option.some.inj (hw.text.symm.trans (h.sole x List.mem_cons_self).text)
    exact .inr hhead

theorem cons_space {x : Text} (hx : IsSole x) (h : Shows xs s next) :
    Shows (x :: xs) (x ++ ' ' :: s) next :=
  .cons hx (apart_break hx.ne_nil rfl) (.gap rfl h)

/-! ## §2 Expressions -/

theorem operator {x : Text} (hs : Shows xs s (some ' ')) (hx : x ∈ symbols) (hu : Shows ys u next) :
    Shows (xs ++ x :: ys) (s ++ ' ' :: (x ++ ' ' :: u)) next :=
  hs.append (.gap rfl (.cons_space (isSole_symbol hx) hu))

theorem join {texts : List Text} (hs : Shows xs s (some ',')) (hne : texts ≠ [])
    (htexts : Shows ys (Text.join ", " texts) next) :
    Shows (xs ++ ("," : Text) :: ys) (Text.join ", " (s :: texts)) next := by
  obtain ⟨text, texts, rfl⟩ := List.exists_cons_of_ne_nil hne
  have hjoin : Text.join ", " (s :: text :: texts)
      = s ++ ("," ++ ' ' :: Text.join ", " (text :: texts)) := by
    simp [Text.join, List.intercalate]
  rw [hjoin]
  exact hs.append (.cons_punctuation (by decide) (by decide) (.gap rfl htexts))

theorem call {x : Text} (hx : isName x) (hs : Shows xs s (some ')')) (hu : Shows ys u next) :
    Shows (x :: "(" :: (xs ++ (")" : Text) :: ys)) (x ++ ("(" ++ (s ++ (")" ++ u)))) next := by
  refine .cons (whole_name hx) (apart_nameBreak hx rfl) ?_
  refine .cons_punctuation (by decide) (by decide) (hs.append ?_)
  exact .cons_punctuation (by decide) (by decide) hu

/-! ## §3 Statements -/

theorem parentheses (hs : Shows xs s (some ')')) (hu : Shows ys u next) :
    Shows (("(" : Text) :: (xs ++ (")" : Text) :: ys)) ("(" ++ (s ++ (")" ++ ' ' :: u))) next :=
  .cons_punctuation (by decide) (by decide)
    (hs.append (.cons_punctuation (by decide) (by decide) (.gap rfl hu)))

theorem braces (level : Int) (hs : ∀ next, Shows xs s next) (next : Option Char) :
    Shows ((r"{" : Text) :: (xs ++ [(r"}" : Text)]))
      (r"{" ++ '\n' :: (s ++ (Text.indent level ++ r"}")))
      next :=
  .cons_punctuation (by decide) (by decide) (.gap rfl ((hs _).append
    (.gaps (isGap_indent level) (.single (isSole_symbol (by decide))
      (apart_punctuation (by decide) _)))))

theorem semicolonLine (hs : Shows xs s (some ';')) :
    Shows (xs ++ [(";" : Text)]) (s ++ ";\n") next :=
  hs.append (u := ";\n") (.cons_punctuation (x := ";") (by decide) (by decide) (.gap rfl .nil))

theorem semicolon (hs : Shows xs s (some ';')) (hu : Shows ys u next) :
    Shows (xs ++ (";" : Text) :: ys) (s ++ (";" ++ ' ' :: u)) next :=
  hs.append (.cons_punctuation (by decide) (by decide) (.gap rfl hu))

theorem lineEnd (hs : ∀ next, Shows xs s next) (next : Option Char) :
    Shows xs (s ++ ['\n']) next := by
  simpa using (hs _).append (.gap (b := '\n') rfl .nil)

end Shows

/-- A text that shows words is cut into exactly the tokens of these words. -/
theorem Shows.tokenize {xs : List Text} {s : Text} (h : Shows xs s none) :
    crossGl.tokenize s = .ok (xs.map soleToken ++ [⟨.endOfInput, none⟩]) :=
  h.spells.tokenize regular

end ShaderBridge.CrossGl
