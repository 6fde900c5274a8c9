import ShaderBridge.Proofs.CrossGl.Remarks
import ShaderBridge.Proofs.Hlsl.Ending
import ShaderBridge.Proofs.Metal.Ending
import ShaderBridge.Proofs.Mojo.Ending
import ShaderBridge.Proofs.Sources
import ShaderBridge.Proofs.Transparency

/-!
# Comments may be put in anywhere

In HLSL, Metal and Mojo comments may be put in at any places of a token list, in front of the first
token and behind the last one as well, and the list is parsed as before
(`parseTokens_commented`): to the same tree, with the same fault, or without end as before.

In CrossGL there are places where no comment may stand (`comment_changes_parse`).
-/

namespace ShaderBridge

open ShaderBridge.Parser

/-! ## §1 Comments in a list of tokens -/

/-- The second list is the first one with comments put in, at any places. -/
inductive Commented : List Token → List Token → Prop
  | nil : Commented [] []
  | keep {ts us : List Token} (t : Token) (h : Commented ts us) : Commented (t :: ts) (t :: us)
  | insert {ts us : List Token} {t : Token} (ht : t.kind.isComment) (h : Commented ts us) :
      Commented ts (t :: us)

namespace Commented

variable {ts us : List Token}

theorem uncommented_eq (h : Commented ts us) : uncommented us = uncommented ts := by
  induction h with
  | nil => rfl
  | keep t _ ih =>
    unfold uncommented at ih ⊢
    rw [List.filter_cons, List.filter_cons, ih]
  | insert ht _ ih => rw [uncommented_cons_of_comment ht, ih]

theorem ne_nil (h : Commented ts us) (hts : ts ≠ []) : us ≠ [] := by
  cases h with
  | nil => exact absurd rfl hts
  | keep => exact List.cons_ne_nil _ _
  | insert => exact List.cons_ne_nil _ _

end Commented

/-- The languages whose grammars pass over all comments and look at no token but the current one. -/
def Language.commentable : List Language := [.hlsl, .metal, .mojo]

namespace Language

variable {lang : Language} {ts us : List Token}

theorem ends_grammar (h : lang ∈ commentable) (n : Nat) : Ends remarked n 0 lang.grammar := by
  cases lang with
  | hlsl => exact Hlsl.ends_source
  | metal => exact Metal.ends_source trivial trivial
  | mojo =>
    exact Mojo.ends_source (fun _ => trivial) fun _ => Mojo.ends_classDef (fun _ => trivial) trivial
  | crossGl | glsl => simp [commentable] at h

theorem alike_start (hlang : lang ∈ commentable) (h : uncommented us = uncommented ts) :
    Alike (lang.start us) (lang.start ts) := by
  cases lang with
  | hlsl | metal | mojo => exact Alike.pastTrivia h 0 0
  | crossGl | glsl => simp [commentable] at hlang

end Language

/-- HLSL, Metal and Mojo parse a list of tokens as they parse it with comments put in: to the same
tree, or with the same fault, be it that of a loop without end. -/
theorem parseTokens_commented (lang : Language) (hlang : lang ∈ Language.commentable)
    {ts us : List Token} (hts : ts ≠ []) (h : Commented ts us) :
    lang.parseTokens us = lang.parseTokens ts := by
  rw [Language.parseTokens_eq hts, Language.parseTokens_eq (h.ne_nil hts)]
  have halike : Alike (lang.start us) (lang.start ts) :=
    Language.alike_start hlang h.uncommented_eq
  have hrun := Language.ends_grammar hlang _ _ _ halike (Nat.lt_succ_self _) trivial
  generalize lang.grammar (lang.start us) = r at hrun
  generalize lang.grammar (lang.start ts) = s at hrun
  cases hrun with
  | ok => rfl
  | error => rfl

/-- The tokens of a structure with one member. -/
def plainTokens : List Token :=
  [⟨.structWord, some "struct"⟩, ⟨.identifier, some "VSInput"⟩, ⟨.leftBrace, some r"{"⟩,
   ⟨.floatType, some "float"⟩, ⟨.identifier, some "x"⟩, ⟨.semicolon, some ";"⟩,
   ⟨.rightBrace, some r"}"⟩, ⟨.endOfInput, none⟩]

/-- A comment. -/
def remark (k : TokenKind) : Token := ⟨k, some "// remark"⟩

/-- The same tokens with comments in front, in between and behind the end. -/
def remarkedTokens : List Token :=
  remark .lineComment :: remark .blockComment :: plainTokens.flatMap (fun t =>
    [t, remark .blockComment])

theorem parseTokens_commented_struct :
    Language.hlsl ∈ Language.commentable ∧ plainTokens ≠ [] ∧
      Commented plainTokens remarkedTokens ∧ Succeeds (Language.hlsl.parseTokens plainTokens) ∧
      Language.hlsl.parseTokens remarkedTokens = Language.hlsl.parseTokens plainTokens := by
  have hcomment {k : TokenKind} (hk : k.isComment) : (remark k).kind.isComment := hk
  have hbetween : ∀ ts : List Token,
      Commented ts (ts.flatMap fun t => [t, remark .blockComment]) := by
    intro ts
    induction ts with
    | nil => exact .nil
    | cons t ts ih => exact .keep t (.insert (hcomment rfl) ih)
  have hcommented : Commented plainTokens remarkedTokens :=
    .insert (hcomment rfl) (.insert (hcomment rfl) (hbetween plainTokens))
  exact ⟨by decide, by decide, hcommented, by decide,
    parseTokens_commented .hlsl (by decide) (by decide) hcommented⟩

/-! ## §2 Places where no comment may stand -/

open Lexicon

/-- The lexemes of a text, if it can be cut. -/
def lexemesOf (s : Text) : List Lexeme :=
  match crossGl.lexemes s with
  | .ok ls => ls
  | .error _ => []

/-- Places between the lexemes of sources where no comment may stand: in front of the source, in
the head of a function, behind `else`, in the update of a loop, in front of the parenthesis behind
it, and behind a slash. -/
def severedPlaces : List (List Lexeme × List Lexeme) :=
  [([], lexemesOf "shader s {}"),
   (lexemesOf r"shader s {vertex {void ", lexemesOf r"f() {}}}"),
   (lexemesOf r"shader s {void f() {if (a) {}else ", lexemesOf r"if (b) {}}}"),
   (lexemesOf r"shader s {void f() {for (i; i; i", lexemesOf r"++) {}}}"),
   (lexemesOf r"shader s {void f() {for (i; i; ++i", lexemesOf r") {}}}"),
   (lexemesOf r"shader s {void f() {a = b/", lexemesOf r"c;}}")]

/-- There are sources that are accepted, and no longer if a comment is put in between two of their
lexemes. -/
theorem comment_changes_parse :
    Remark.IsProper (.block " c ") ∧ ∀ p ∈ severedPlaces,
      crossGl.lexemes (texts (p.1 ++ p.2)) = .ok (p.1 ++ p.2) ∧
      Succeeds (Language.crossGl.parse (texts (p.1 ++ p.2))) ∧
      ¬Succeeds
        (Language.crossGl.parse (texts p.1 ++ Remark.text (.block " c ") ++ texts p.2)) := by
  refine ⟨by decide, ?_⟩
  rw [severedPlaces]
  repeat rw [String.toList_ofList]
  decide +kernel

end ShaderBridge
