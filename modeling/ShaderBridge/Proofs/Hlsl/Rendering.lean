import ShaderBridge.Proofs.Backward.Expression
import ShaderBridge.Proofs.CrossGl.Shown
import ShaderBridge.Proofs.Hlsl.Code
import ShaderBridge.Token.Lexicon.Hlsl

/-!
# HLSL expressions written in CrossGL

The text that is written for an HLSL expression shows the words of the expression, with types under
their names in CrossGL and without the parentheses that only group (`Phrase.legible`).

HLSL and CrossGL have different token tables.  What carries over is that the symbols of one are
symbols of the other, and that names and numbers are cut alike in both.
-/

namespace ShaderBridge.Hlsl

open Backward (plain)
open Lexicon Ladder CrossGl

/-! ## §1 The texts of HLSL tokens -/

/-- The symbols of plain code, each with its text. -/
def symbolTexts : List (TokenKind × Text) :=
  [(.plus, "+"), (.minus, "-"), (.multiply, "*"), (.divide, "/"),
   (.lessThan, "<"), (.greaterThan, ">"), (.lessEqual, "<="), (.greaterEqual, ">="),
   (.equal, "=="), (.notEqual, "!="), (.and, "&&"), (.or, "||"),
   (.equals, "="), (.plusEquals, "+="), (.minusEquals, "-="), (.multiplyEquals, "*="),
   (.divideEquals, "/="),
   (.leftBrace, r"{"), (.rightBrace, r"}"), (.leftParen, "("), (.rightParen, ")"),
   (.semicolon, ";"), (.comma, ","), (.dot, "."), (.question, "?"), (.colon, ":")]

/-- The words of statements, each with its text. -/
def wordTexts : List (TokenKind × Text) :=
  [(.ifWord, "if"), (.elseWord, "else"), (.forWord, "for"), (.returnWord, "return")]

variable {xs ys : List Text} {args : List Tree} {t : Token}

theorem text_eq (h : hlsl.Lexes t) : t.text = some (spelling t) := by
  obtain ⟨w, hw, -⟩ := h
  rw [spelling, hw]
  rfl

theorem ofText?_eq_spelling (h : hlsl.Lexes t) :
    Tree.ofText? t.text = .text (spelling t) := by
  rw [text_eq h]
  rfl

theorem spelling_eq {x : Text} (h : hlsl.Lexes t)
    (hx : (t.kind, x) ∈ symbolTexts ++ wordTexts) : spelling t = x := by
  have htable : ∀ p ∈ symbolTexts ++ wordTexts, hlsl.Spelt p.1 (· == p.2) := by
    decide +kernel
  obtain ⟨w, htext, hw⟩ := h.exists_text (htable _ hx)
  rw [spelling, htext, beq_iff_eq.1 hw]
  rfl

theorem spelling_slot {k : TokenKind} (t : TokenOf [k]) (h : hlsl.Lexes t.1) (x : Text)
    (hx : (symbolTexts ++ wordTexts).contains (k, x)) : spelling t.1 = x :=
  spelling_eq h (by rw [t.kind_eq]; exact List.contains_iff_mem.1 hx)

theorem spelling_symbol (h : hlsl.Lexes t)
    (hk : t.kind ∈ symbolTexts.map (·.1)) : spelling t ∈ symbols := by
  have hsymbols : ∀ p ∈ symbolTexts, p.2 ∈ symbols := by decide
  obtain ⟨p, hp, hpk⟩ := List.mem_map.1 hk
  rw [spelling_eq h (x := p.2) (List.mem_append_left _ (hpk ▸ hp))]
  exact hsymbols p hp

theorem isName_spelling (h : hlsl.Lexes t) (hk : t.kind = .identifier) :
    isName (spelling t) := by
  obtain ⟨w, htext, hw⟩ := h.isName_of_identifier (by decide) hk
  rw [spelling, htext]
  exact hw

/-- The text of a number is covered by the pattern of numbers, which CrossGL has too. -/
theorem number_spelling (h : hlsl.Lexes t) (hk : t.kind = .number) :
    Pattern.number.length? none (spelling t) = some (spelling t).length := by
  obtain ⟨w, htext, -, r, ⟨hr, hlength, htoken⟩, -⟩ := h.fits
  have hrules : ∀ r ∈ hlslRules, r.kind = .number → r.pattern = .number := by decide
  have hkeywords : ∀ q ∈ hlslKeywords, q.2 ≠ .number := by decide
  have hkind : r.kind = .number := by
    by_cases hident : r.kind = .identifier
    · rw [hident] at htoken
      rcases keyword_of_token? htoken with hname | hkeyword
      · simp [hk] at hname
      · exact absurd hk (hkeywords _ hkeyword)
    · exact ((kind_of_token? htoken).1 hident).symm.trans hk
  rw [spelling, htext, ← hrules r hr hkind]
  exact hlength

/-! ## §2 Types -/

/-- A type that the table of types has. -/
def IsMapped (t : Token) : Prop := (Backward.hlslTypes.lookup (spelling t)).isSome

/-- The types of values are all in the table. -/
theorem isMapped_valueType (h : hlsl.Lexes t) (hk : t.kind ∈ valueTypes) :
    IsMapped t := by
  have htable : ∀ k ∈ valueTypes,
      hlsl.Spelt k fun w => (Backward.hlslTypes.lookup w).isSome := by
    decide
  obtain ⟨w, htext, hw⟩ := h.exists_text (htable _ hk)
  rw [IsMapped, spelling, htext]
  exact hw

/-- A type has a name in CrossGL. -/
theorem mapType_eq (h : hlsl.Lexes t) (ht : IsMapped t) :
    Backward.Dialect.hlsl.mapType (Tree.ofText? t.text) = .ok (.text (mappedType t)) := by
  obtain ⟨w, hw⟩ := Option.isSome_iff_exists.1 ht
  have hset : (Tree.text (spelling t)).isSet := by
    cases hs : spelling t with
    | nil =>
      rw [hs] at hw
      cases hw
    | cons c s => rfl
  rw [ofText?_eq_spelling h, Backward.Dialect.mapType, if_pos hset, mappedType, hw]
  show (Except.ok (Tree.ofText? (Backward.hlslTypes.lookup (spelling t))) : Except Fault Tree) = _
  rw [hw]
  rfl

theorem isName_mappedType (ht : IsMapped t) : isName (mappedType t) := by
  have hnames : ∀ p ∈ Backward.hlslTypes, isName p.2 := by decide
  obtain ⟨w, hw⟩ := Option.isSome_iff_exists.1 ht
  obtain ⟨_, _, htypes, -⟩ := List.lookup_eq_some_iff.1 hw
  rw [mappedType, hw]
  exact hnames (spelling t, w) (by rw [htypes]; simp)

theorem mapType_nil : Backward.Dialect.hlsl.mapType (.text []) = .ok (.text []) := rfl

/-! ## §3 Parts of expressions -/

/-- The text that is written for a tree shows the words, if nothing stands behind it but a character
that `ends` allows. -/
def Written (ends : Char → Bool) (t : Tree) (xs : List Text) : Prop :=
  ∃ s, Backward.expression .hlsl false t = .ok (.text s) ∧ ∀ next, next.all ends → Shows xs s next

theorem Written.mono {ends ends' : Char → Bool} {t : Tree} (h : Written ends t xs)
    (hends : ∀ c, ends' c → ends c) : Written ends' t xs := by
  obtain ⟨s, hs, hshows⟩ := h
  refine ⟨s, hs, fun next hnext => hshows next ?_⟩
  cases next with
  | none => rfl
  | some c => exact hends c hnext

theorem written_number (h : hlsl.Lexes t) (hk : t.kind = .number) :
    Written isBreak (Tree.ofText? t.text) [spelling t] := by
  have hsole : IsSole (spelling t) := whole_number (number_spelling h hk)
  refine ⟨spelling t, ?_, fun next hnext => .single hsole (apart_break hsole.ne_nil hnext)⟩
  rw [ofText?_eq_spelling h, Backward.expression_text]

theorem written_name (h : hlsl.Lexes t) (hk : t.kind = .identifier) :
    Written isNameBreak (var (.text []) (Tree.ofText? t.text)) [spelling t] := by
  refine ⟨' ' :: spelling t, ?_, fun next hnext =>
    .gap rfl (.name (isName_spelling h hk) hnext)⟩
  rw [var, Backward.expression_semanticVar, mapType_nil, ofText?_eq_spelling h]
  show Except.ok (Tree.text (Text.cat [[], " ", spelling t])) = _
  simp [Text.cat]

theorem written_typed {vtype : Token} (hv : hlsl.Lexes vtype) (hmapped : IsMapped vtype)
    (h : hlsl.Lexes t) (hk : t.kind = .identifier) :
    Written isNameBreak (var (Tree.ofText? vtype.text) (Tree.ofText? t.text))
      [mappedType vtype, spelling t] := by
  refine ⟨mappedType vtype ++ ' ' :: spelling t, ?_, fun next hnext =>
    .cons_space (CrossGl.whole_name (isName_mappedType hmapped))
      (.name (isName_spelling h hk) hnext)⟩
  rw [var, Backward.expression_semanticVar, mapType_eq hv hmapped, ofText?_eq_spelling h]
  show Except.ok (Tree.text (Text.cat [mappedType vtype, " ", spelling t])) = _
  simp [Text.cat]

/-- The names of the stage structures, whose members are written alone. -/
def structNames : List Text := ["input", "output"]

/-- Members of what ends in a name and is no stage structure. -/
theorem written_members {o : Tree} {s : Text} (ms : List Member)
    (ho : Backward.expression .hlsl false o = .ok (.text s))
    (hs : ∀ next, next.all isNameBreak → Shows xs s next) (hne : s ∉ structNames)
    (hms : ∀ t ∈ Member.tokens ms, hlsl.Lexes t) :
    Written isNameBreak (Member.tree o ms) (xs ++ (Member.tokens ms).map spelling) := by
  induction ms generalizing o s xs with
  | nil => exact ⟨s, ho, by simpa using hs⟩
  | cons m ms ih =>
    simp only [Member.tokens_cons, List.forall_mem_cons] at hms
    obtain ⟨hdot, hname, hms⟩ := hms
    have hisName := isName_spelling hname m.2.kind_eq
    have htext : Backward.expression .hlsl false (Tree.memberOf o (Tree.ofText? m.2.1.text))
        = .ok (.text (s ++ ("." ++ spelling m.2.1))) := by
      simp only [structNames, List.mem_cons, List.not_mem_nil, or_false, not_or] at hne
      rw [Backward.expression_memberOf, ho, ofText?_eq_spelling hname]
      show (if (Tree.text s).isText "output" || (Tree.text s).isText "input" then _ else _) = _
      rw [if_neg (by simpa [Tree.isText] using hne.symm)]
      show Except.ok (Tree.text (Text.cat [s, ".", spelling m.2.1])) = _
      simp [Text.cat]
    -- The text now holds a point, so it names no structure.
    have hpointed : s ++ ("." ++ spelling m.2.1) ∉ structNames := by
      intro hmem
      have hnone : ∀ x ∈ structNames, '.' ∉ x := by decide
      exact hnone _ hmem (by simp)
    have hshows : ∀ next, next.all isNameBreak →
        Shows (xs ++ [("." : Text), spelling m.2.1]) (s ++ ("." ++ spelling m.2.1)) next := by
      intro next hnext
      have hlast : Shows [spelling m.2.1] (spelling m.2.1) next := .name hisName hnext
      refine Shows.append (u := "." ++ spelling m.2.1) (hs (some '.') (by decide)) ?_
      obtain ⟨c, v, hv, hc⟩ := exists_of_isName hisName
      rw [hv] at hlast ⊢
      exact .cons (isSole_symbol (by decide)) (apart_symbol_name (by decide) (by decide) hc) hlast
    have hall := ih htext hshows hpointed hms
    rw [List.append_assoc] at hall
    rw [Member.tokens_cons, List.map_cons, List.map_cons, spelling_slot m.1 hdot "." rfl]
    exact hall

/-- Two expressions with an operator between them, whether that computes or assigns. -/
theorem written_operation {n : Nat} {l r : Tree} (op : TokenOf (rungOperators n))
    (hop : hlsl.Lexes op.1) (hl : Written isBreak l xs) (hr : Written isBreak r ys) :
    Written isBreak (operation n l op.1 r) (xs ++ spelling op.1 :: ys) := by
  have hsymbols : ∀ n, ∀ k ∈ rungOperators n, k ∈ symbolTexts.map (·.1) := fun
    | 0 | 1 | 2 | 3 | 4 | 5 | 6 => by decide
    | _ + 7 => by simp [rungOperators]
  obtain ⟨s, hs, hleft⟩ := hl
  obtain ⟨s', hs', hright⟩ := hr
  refine ⟨s ++ ' ' :: (spelling op.1 ++ ' ' :: s'), ?_, fun next hnext =>
    .operator (hleft _ rfl) (spelling_symbol hop (hsymbols n _ op.2)) (hright next hnext)⟩
  have htext : (Text.cat [s, " ", spelling op.1, " ", s'] : Text)
      = s ++ ' ' :: (spelling op.1 ++ ' ' :: s') := by simp [Text.cat]
  -- The loosest rung assigns, which is a node of another kind.
  by_cases hn : n = 6
  · subst hn
    rw [operation, Backward.expression_assignmentBy_hlsl, hs, hs', ofText?_eq_spelling hop, ← htext]
    rfl
  · have hbinary : operation n l op.1 r = Tree.binary l (Tree.ofText? op.1.text) r := by
      rw [operation.eq_2 n hn]
      rfl
    rw [hbinary, Backward.expression_binary, hs, hs', ofText?_eq_spelling hop, ← htext]
    rfl

theorem written_ternary {c yes no : Tree} {zs : List Text} (hc : Written isBreak c xs)
    (hyes : Written isBreak yes ys) (hno : Written isBreak no zs) :
    Written isBreak (Tree.ternary c yes no)
      (xs ++ ("?" : Text) :: (ys ++ (":" : Text) :: zs)) := by
  obtain ⟨s, hs, hcond⟩ := hc
  obtain ⟨s', hs', hyes⟩ := hyes
  obtain ⟨s'', hs'', hno⟩ := hno
  refine ⟨s ++ ' ' :: ("?" ++ ' ' :: (s' ++ ' ' :: (":" ++ ' ' :: s''))), ?_, fun next hnext =>
    .operator (hcond _ rfl) (by decide) (.operator (hyes _ rfl) (by decide) (hno next hnext))⟩
  rw [Backward.expression_ternary, hs, hs', hs'']
  show Except.ok (Tree.text (Text.cat [s, " ? ", s', " : ", s''])) = _
  simp [Text.cat]

/-- A sign in front of an expression that begins with a gap, or with something the sign is apart
from. -/
theorem written_unary {sign : Token} {u : Tree} {x : Text} (hsign : hlsl.Lexes sign)
    (hk : sign.kind ∈ [.plus, .minus]) (hx : IsSole x) (hu : Written isBreak u (x :: xs))
    (hapart : crossGl.Apart (spelling sign) x.head?) :
    Written isBreak (Tree.unary (Tree.ofText? sign.text) u) (spelling sign :: x :: xs) := by
  obtain ⟨s, hs, hshows⟩ := hu
  have hsymbols : ∀ k ∈ [TokenKind.plus, .minus], k ∈ symbolTexts.map (·.1) := by decide
  have hsole := isSole_symbol (spelling_symbol hsign (hsymbols _ hk))
  refine ⟨spelling sign ++ s, ?_, fun next hnext => .cons hsole ?_ (hshows next hnext)⟩
  · rw [Backward.expression_unary, hs, ofText?_eq_spelling hsign]
    show Except.ok (Tree.text (Text.cat [[], spelling sign, s, []])) = _
    simp [Text.cat]
  · rcases (hshows next hnext).head?_eq with ⟨b, hb, hgap⟩ | hhead
    · rw [hb]
      exact apart_break hsole.ne_nil (isBreak_of_isGap hgap)
    · obtain ⟨c, v, rfl⟩ := List.exists_cons_of_ne_nil hx.ne_nil
      rw [hhead]
      exact hapart

/-! ## §4 Arguments -/

/-- Arguments that are written one by one, and joined by commas. -/
def ArgumentsWritten (args : List Tree) (xs : List Text) : Prop :=
  ∃ texts : List Text, args.mapM (Backward.expression .hlsl false) = .ok (texts.map .text) ∧
    (args = [] ∨ texts ≠ []) ∧
    ∀ next, next.all isBreak → Shows xs (Text.join ", " texts) next

theorem argumentsWritten_nil : ArgumentsWritten [] [] :=
  ⟨[], rfl, .inl rfl, fun _ _ => .nil⟩

theorem argumentsWritten_singleton {e : Tree} (he : Written isBreak e xs) :
    ArgumentsWritten [e] xs := by
  obtain ⟨s, hs, hshows⟩ := he
  refine ⟨[s], by simp [hs], .inr (by simp), ?_⟩
  simpa [Text.join] using hshows

theorem argumentsWritten_cons {e : Tree}
    (he : Written isBreak e xs) (hargs : ArgumentsWritten args ys) (hne : args ≠ []) :
    ArgumentsWritten (e :: args) (xs ++ ("," : Text) :: ys) := by
  obtain ⟨s, hs, hshows⟩ := he
  obtain ⟨texts, htexts, hsome, hargs⟩ := hargs
  refine ⟨s :: texts, ?_, .inr (by simp), fun next hnext =>
    .join (hshows _ rfl) (hsome.resolve_left hne) (hargs next hnext)⟩
  rw [List.mapM_cons, hs, htexts]
  rfl

theorem ArgumentsWritten.joined (h : ArgumentsWritten args xs) :
    ∃ s, (args.mapM (Backward.expression .hlsl false) >>= Backward.joinTexts) = .ok s ∧
      Shows xs s (some ')') := by
  obtain ⟨texts, htexts, -, hshows⟩ := h
  refine ⟨Text.join ", " texts, ?_, hshows _ rfl⟩
  rw [htexts]
  exact Backward.joinTexts_map_text texts

theorem written_call (h : hlsl.Lexes t)
    (hk : t.kind = .identifier) (hargs : ArgumentsWritten args xs) :
    Written isBreak (Tree.call (Tree.ofText? t.text) args)
      (spelling t :: "(" :: (xs ++ [(")" : Text)])) := by
  obtain ⟨s, hs, hshows⟩ := hargs.joined
  refine ⟨spelling t ++ ("(" ++ (s ++ ")")), ?_, fun next _ => ?_⟩
  · rw [Backward.expression_call, ofText?_eq_spelling h, ← bind_assoc, hs]
    rfl
  · simpa using Shows.call (u := []) (isName_spelling h hk) hshows .nil

theorem written_construction (h : hlsl.Lexes t)
    (ht : IsMapped t) (hargs : ArgumentsWritten args xs) :
    Written isBreak (Tree.construction (Tree.ofText? t.text) args)
      (mappedType t :: "(" :: (xs ++ [(")" : Text)])) := by
  obtain ⟨s, hs, hshows⟩ := hargs.joined
  refine ⟨mappedType t ++ ("(" ++ (s ++ ")")), ?_, fun next _ => ?_⟩
  · rw [Backward.expression_construction, mapType_eq h ht, ← bind_assoc, hs]
    rfl
  · simpa using Shows.call (u := []) (isName_mappedType ht) hshows .nil

/-! ## §5 Phrases -/

namespace Phrase

/-- What a phrase may begin with: a name, a number, or the sign of the given kind. -/
def Leads (k : TokenKind) (x : Text) : Prop :=
  isName x ∨ x.head?.any Pattern.isNumeric ∨ (k = .plus ∧ x = "+") ∨ (k = .minus ∧ x = "-")

/-- The first word of a phrase. -/
theorem exists_lead {r : Rank} (p : Phrase r) (hr : r ≠ .arguments)
    (hlex : ∀ t ∈ p.tokens, hlsl.Lexes t) :
    ∃ x xs, p.shown = x :: xs ∧ IsSole x ∧ Leads p.leadKind x := by
  induction p with
  | settled a ih | first a ih | unsigned a ih | item a ih => exact ih (by simp) hlex
  | choice a _ _ _ _ ih | joined a _ _ ih | further a _ _ ih =>
    obtain ⟨x, xs, hxs, hx, hlead⟩ := ih (by simp) fun t ht => hlex t (by simp [tokens, ht])
    exact ⟨x, _, by rw [shown, hxs]; rfl, hx, hlead⟩
  -- Parentheses are not written, so a group begins as its expression does.
  | group _ e _ ih => exact ih (by simp) fun t ht => hlex t (by simp [tokens, ht])
  | sign s u =>
    have hs := hlex s.1 (by simp [tokens])
    rcases List.mem_pair.1 s.2 with hk | hk
    · have hx := spelling_eq (x := "+") hs (by rw [hk]; decide)
      exact ⟨_, _, rfl, hx ▸ isSole_symbol (by decide), .inr (.inr (.inl ⟨hk, hx⟩))⟩
    · have hx := spelling_eq (x := "-") hs (by rw [hk]; decide)
      exact ⟨_, _, rfl, hx ▸ isSole_symbol (by decide), .inr (.inr (.inr ⟨hk, hx⟩))⟩
  | number n =>
    have hn := number_spelling (hlex n.1 (by simp [tokens])) n.kind_eq
    exact ⟨_, _, rfl, whole_number hn, .inr (.inl (number_covers hn))⟩
  | name n | call n | member n =>
    have hn := isName_spelling (hlex n.1 (by simp [tokens])) n.kind_eq
    exact ⟨_, _, rfl, CrossGl.whole_name hn, .inl hn⟩
  | typed t | construction t =>
    have ht := isName_mappedType (isMapped_valueType (hlex t.1 (by simp [tokens])) t.2)
    exact ⟨_, _, rfl, CrossGl.whole_name ht, .inl ht⟩
  | noArgument | given => exact absurd rfl hr

/-- A sign is apart from a phrase that does not begin with the same sign. -/
theorem apart_lead {sign : Token} {k : TokenKind} {x : Text} (hsign : hlsl.Lexes sign)
    (hk : sign.kind ∈ [.plus, .minus]) (hne : k ≠ sign.kind) (hx : IsSole x) (hlead : Leads k x) :
    crossGl.Apart (spelling sign) x.head? := by
  have htext :
      spelling sign = "+" ∧ sign.kind = .plus ∨ spelling sign = "-" ∧ sign.kind = .minus := by
    rcases List.mem_pair.1 hk with hk | hk
    · exact .inl ⟨spelling_eq hsign (by rw [hk]; decide), hk⟩
    · exact .inr ⟨spelling_eq hsign (by rw [hk]; decide), hk⟩
  have hsign' : spelling sign = "+" ∨ spelling sign = "-" := htext.imp And.left And.left
  obtain ⟨c, v, rfl⟩ := List.exists_cons_of_ne_nil hx.ne_nil
  rcases hlead with hname | hnumber | ⟨hk', hx'⟩ | ⟨hk', hx'⟩
  · obtain ⟨c', v', heq, hc⟩ := exists_of_isName hname
    cases heq
    exact apart_sign hsign' (.inl hc)
  · exact apart_sign hsign' (.inr hnumber)
  · rcases htext with ⟨-, hkind⟩ | ⟨hminus, -⟩
    · exact absurd (hk'.trans hkind.symm) hne
    · rw [hminus, hx']
      exact apart_signs.2
  · rcases htext with ⟨hplus, -⟩ | ⟨-, hkind⟩
    · rw [hplus, hx']
      exact apart_signs.1
    · exact absurd (hk'.trans hkind.symm) hne

/-- How the phrases of a rank are written. -/
def Legible : {r : Rank} → Phrase r → Prop
  | .expr, p | .rung _, p | .operand, p => Written isBreak p.value p.shown
  | .arguments, p => ArgumentsWritten p.value p.shown
  | .items, p => ArgumentsWritten p.value p.shown ∧ p.value ≠ []

/-- The text that is written for a phrase shows its words. -/
theorem legible {r : Rank} (p : Phrase r) (hlex : ∀ t ∈ p.tokens, hlsl.Lexes t)
    (hclean : p.isClean) : Legible p := by
  induction p with
  | settled a ih | first a ih | unsigned a ih => exact ih hlex hclean
  | group _ e _ ih => exact ih (fun t ht => hlex t (by simp [tokens, ht])) hclean
  | choice a mark yes colon no iha ihy ihn =>
    simp only [tokens, List.forall_mem_append, List.forall_mem_cons] at hlex
    simp only [isClean, Bool.and_eq_true] at hclean
    obtain ⟨ha, hmark, hyes, hcolon, hno⟩ := hlex
    show Written isBreak _
      (a.shown ++ spelling mark.1 :: (yes.shown ++ spelling colon.1 :: no.shown))
    rw [spelling_slot mark hmark "?" rfl, spelling_slot colon hcolon ":" rfl]
    exact written_ternary (iha ha hclean.1.1) (ihy hyes hclean.1.2) (ihn hno hclean.2)
  | joined a op b iha ihb =>
    simp only [tokens, List.forall_mem_append, List.forall_mem_cons] at hlex
    simp only [isClean, Bool.and_eq_true] at hclean
    exact written_operation op hlex.2.1 (iha hlex.1 hclean.1) (ihb hlex.2.2 hclean.2)
  | sign s u ih =>
    simp only [tokens, List.forall_mem_cons] at hlex
    simp only [isClean, Bool.and_eq_true, decide_eq_true_eq] at hclean
    obtain ⟨x, xs, hxs, hx, hlead⟩ := u.exists_lead (by simp) hlex.2
    have hu : Written isBreak u.value u.shown := ih hlex.2 hclean.2
    show Written isBreak _ (spelling s.1 :: u.shown)
    rw [hxs] at hu ⊢
    exact written_unary hlex.1 s.2 hx hu (apart_lead hlex.1 s.2 hclean.1 hx hlead)
  | number n => exact written_number (hlex n.1 (by simp [tokens])) n.kind_eq
  | name n =>
    exact (written_name (hlex n.1 (by simp [tokens])) n.kind_eq).mono isNameBreak_of_isBreak
  | typed vtype n =>
    have hv := hlex vtype.1 (by simp [tokens])
    exact (written_typed hv (isMapped_valueType hv vtype.2) (hlex n.1 (by simp [tokens]))
      n.kind_eq).mono isNameBreak_of_isBreak
  | call n opens args closes ih =>
    simp only [tokens, List.forall_mem_append, List.forall_mem_cons] at hlex
    obtain ⟨hn, hopens, hargs, hcloses, -⟩ := hlex
    show Written isBreak _ (spelling n.1 :: spelling opens.1 :: (args.shown ++ [spelling closes.1]))
    rw [spelling_slot opens hopens "(" rfl, spelling_slot closes hcloses ")" rfl]
    exact written_call hn n.kind_eq (ih hargs hclean)
  | construction vtype opens args closes ih =>
    simp only [tokens, List.forall_mem_append, List.forall_mem_cons] at hlex
    obtain ⟨hv, hopens, hargs, hcloses, -⟩ := hlex
    show Written isBreak _
      (mappedType vtype.1 :: spelling opens.1 :: (args.shown ++ [spelling closes.1]))
    rw [spelling_slot opens hopens "(" rfl, spelling_slot closes hcloses ")" rfl]
    exact written_construction hv (isMapped_valueType hv vtype.2) (ih hargs hclean)
  -- The root may not be a structure of the interface, which would be dropped.
  | member n m more =>
    simp only [tokens, List.forall_mem_cons] at hlex
    have hname := isName_spelling hlex.1 n.kind_eq
    have hroot : spelling n.1 ∉ structNames := by simpa [isClean, structNames] using hclean
    have hword : Backward.expression .hlsl false (Tree.ofText? n.1.text)
        = .ok (.text (spelling n.1)) := by
      rw [ofText?_eq_spelling hlex.1, Backward.expression_text]
    exact (written_members (m :: more) hword
      (fun next hnext => .name hname hnext) hroot hlex.2).mono isNameBreak_of_isBreak
  | noArgument => exact argumentsWritten_nil
  | given items ih => exact (ih hlex hclean).1
  | item e ih => exact ⟨argumentsWritten_singleton (ih hlex hclean), by simp [value]⟩
  | further e comma items ihe ihs =>
    simp only [tokens, List.forall_mem_append, List.forall_mem_cons] at hlex
    simp only [isClean, Bool.and_eq_true] at hclean
    obtain ⟨hitems, hne⟩ := ihs hlex.2.2 hclean.2
    refine ⟨?_, by simp [value]⟩
    show ArgumentsWritten _ (e.shown ++ spelling comma.1 :: items.shown)
    rw [spelling_slot comma hlex.2.1 "," rfl]
    exact argumentsWritten_cons (ihe hlex.1 hclean.1) hitems hne

end Phrase

end ShaderBridge.Hlsl
