import ShaderBridge.Proofs.CrossGl.Rendering
import ShaderBridge.Proofs.CrossGl.SoleTokens

/-!
# Operators that get lost

The text of an expression does not always spell the operators of the expression.  Where no gap is
written behind a sign, two equal signs in a row are cut as one token, an increment or a decrement.
An operator that has no symbol is written as a word, the label of its kind.

What is compared of tokens is a parameter, the `View`: all tokens may be counted, or the operators
and their places compared.

- `Keeps V us ts good`: the tokens `us` look like `ts` if `good`, and if not, fewer of them count.
- `Wording sc V`: how words come out of a scope.
- `Phrase.crams`: the text of a phrase spells tokens that look like those of the phrase without
  grouping just if the phrase is clear.
-/

namespace ShaderBridge.CrossGl

open Forward Lexicon Ladder Pattern

/-! ## §1 Views of tokens -/

/-- What is seen of tokens, and what of it counts. -/
structure View where
  Mark : Type
  mark? : Token → Option Mark
  counts : Mark → Bool

variable {sc : Scope} {V : View}

namespace View

/-- What is seen of tokens in sequence. -/
def marks (V : View) (ts : List Token) : List V.Mark := ts.filterMap V.mark?

/-- How many of the tokens count. -/
def count (V : View) (ts : List Token) : Nat := (V.marks ts).countP V.counts

@[simp] theorem marks_append (us ts : List Token) : V.marks (us ++ ts) = V.marks us ++ V.marks ts :=
  List.filterMap_append

@[simp] theorem count_append (us ts : List Token) :
    V.count (us ++ ts) = V.count us + V.count ts := by
  simp [count]

theorem count_cons (t : Token) (ts : List Token) : V.count (t :: ts) = V.count [t] + V.count ts :=
  count_append [t] ts

theorem count_singleton_le (t : Token) : V.count [t] ≤ 1 :=
  List.countP_le_length.trans (List.length_filterMap_le _ _)

end View

/-- The tokens `us` look like `ts` if `good`, and if not, fewer of them count. -/
structure Keeps (V : View) (us ts : List Token) (good : Prop) : Prop where
  same : good → V.marks us = V.marks ts
  fewer : ¬good → V.count us < V.count ts

namespace Keeps

variable {us vs ts ts' : List Token} {A B : Prop}

theorem of_eq (h : V.marks us = V.marks ts) : Keeps V us ts True :=
  ⟨fun _ => h, fun hn => absurd trivial hn⟩

protected theorem refl (ts : List Token) : Keeps V ts ts True := of_eq rfl

theorem congr (h : Keeps V us ts A) (hAB : A ↔ B) : Keeps V us ts B :=
  ⟨fun hB => h.same (hAB.2 hB), fun hB => h.fewer fun hA => hB (hAB.1 hA)⟩

theorem count_le (h : Keeps V us ts A) : V.count us ≤ V.count ts := by
  by_cases hA : A
  · rw [View.count, h.same hA]
    exact le_rfl
  · exact (h.fewer hA).le

/-- What looks alike is good: otherwise fewer tokens would count. -/
theorem iff_counted (h : Keeps V us ts A) :
    (V.marks us).filter V.counts = (V.marks ts).filter V.counts ↔ A := by
  constructor
  · intro heq
    by_contra hA
    have hlt := h.fewer hA
    simp only [View.count, List.countP_eq_length_filter, heq] at hlt
    exact absurd hlt (lt_irrefl _)
  · intro hA
    rw [h.same hA]

theorem append (h : Keeps V us ts A) (h' : Keeps V vs ts' B) :
    Keeps V (us ++ vs) (ts ++ ts') (A ∧ B) := by
  have hle := h.count_le
  have hle' := h'.count_le
  constructor
  · rintro ⟨hA, hB⟩
    simp only [View.marks_append, h.same hA, h'.same hB]
  · intro hn
    simp only [View.count_append]
    by_cases hA : A
    · have hlt := h'.fewer fun hB => hn ⟨hA, hB⟩
      omega
    · have hlt := h.fewer hA
      omega

theorem cons (t : Token) (h : Keeps V us ts A) : Keeps V (t :: us) (t :: ts) A :=
  ((Keeps.refl [t]).append h).congr (iff_of_eq (true_and A))

/-- Two tokens that are cut as one. -/
theorem merged {t t' : Token} (d : Token) (ht : V.count [t] = 1) (ht' : V.count [t'] = 1)
    (h : Keeps V us ts A) : Keeps V (d :: us) (t :: t' :: ts) False := by
  refine ⟨False.elim, fun _ => ?_⟩
  have hle := h.count_le
  have hone := View.count_singleton_le (V := V) d
  rw [View.count_cons d, View.count_cons t, View.count_cons t']
  omega

end Keeps

/-- What a view has to show where the links are given: the text of a name rather than its kind, the
signs, and the operators that have no symbol, but not the labels that these are written as. -/
structure View.Discerns (V : View) (links : List TokenKind) : Prop where
  name : ∀ (t : Token) (w : Text), t.kind ∈ nameKinds → t.text = some w → isName w →
    V.mark? (soleToken w) = V.mark? t
  sign : ∀ t : Token, t.kind ∈ [.plus, .minus] → V.count [t] = 1
  link : ∀ t : Token, t.kind ∈ links → t.kind ∉ writtenOperators →
    t.kind ∈ linkOperators ∧ V.count [t] = 1 ∧ V.count [⟨.identifier, some t.kind.label⟩] = 0

/-- The text spells tokens that look like `ts` just if `good`, if nothing but a break stands behind
it. -/
def Packed (V : View) (s : Text) (ts : List Token) (good : Prop) : Prop :=
  ∃ us, (∀ next, next.all isBreak → crossGl.Spells us s next) ∧ Keeps V us ts good

/-- The text is a token that looks like `t` just if `good`. -/
def PackedToken (V : View) (x : Text) (t : Token) (good : Prop) : Prop :=
  ∃ u, crossGl.Whole u x ∧ Keeps V [u] [t] good

theorem packedToken_of_whole {t : Token} {x : Text} (h : crossGl.Whole t x) :
    PackedToken V x t True :=
  ⟨t, h, .refl [t]⟩

namespace Packed

variable {s s' x : Text} {ts ts' : List Token} {A B W : Prop}

theorem congr (h : Packed V s ts A) (hAB : A ↔ B) : Packed V s ts B := by
  obtain ⟨us, hs, hkeeps⟩ := h
  exact ⟨us, hs, hkeeps.congr hAB⟩

theorem gap (h : Packed V s ts A) : Packed V (' ' :: s) ts A := by
  obtain ⟨us, hs, hkeeps⟩ := h
  exact ⟨us, fun next hnext => .gap rfl (hs next hnext), hkeeps⟩

theorem operator {op : Token} (hs : Packed V s ts A) (hop : PackedToken V x op W)
    (hs' : Packed V s' ts' B) :
    Packed V (s ++ ' ' :: (x ++ ' ' :: s')) (ts ++ op :: ts') (A ∧ W ∧ B) := by
  obtain ⟨us, hs, hkeeps⟩ := hs
  obtain ⟨u, hwhole, hkept⟩ := hop
  obtain ⟨vs, hs', hkeeps'⟩ := hs'
  exact ⟨us ++ u :: vs,
    fun next hnext => spells_operator (hs (some ' ') rfl) hwhole (hs' next hnext),
    hkeeps.append (hkept.append hkeeps')⟩

theorem join {texts : List Text} {comma : Token} (hs : Packed V s ts A) (hne : texts ≠ [])
    (htexts : Packed V (Text.join ", " texts) ts' B) (hcomma : crossGl.Lexes comma)
    (hk : comma.kind = .comma) :
    Packed V (Text.join ", " (s :: texts)) (ts ++ comma :: ts') (A ∧ B) := by
  obtain ⟨us, hs, hkeeps⟩ := hs
  obtain ⟨vs, htexts, hkeeps'⟩ := htexts
  exact ⟨us ++ comma :: vs, fun next hnext =>
    spells_join (hs (some ',') rfl) hne (htexts next hnext) hcomma hk,
    hkeeps.append (hkeeps'.cons comma)⟩

theorem token {t : Token} (hs : Packed V s ts A) (hne : s ≠ []) (ht : crossGl.Whole t x)
    (hapart : crossGl.Apart x s.head?) : Packed V (x ++ s) (t :: ts) A := by
  obtain ⟨us, hs, hkeeps⟩ := hs
  refine ⟨t :: us, fun next hnext => .token ht ?_ (hs next hnext), hkeeps.cons t⟩
  obtain ⟨c, s, rfl⟩ := List.exists_cons_of_ne_nil hne
  exact hapart

end Packed

/-! ## §2 Signs that run together -/

/-- The kind of two equal signs. -/
def doubled : TokenKind → TokenKind
  | .plus => .increment
  | _ => .decrement

/-- Two equal signs in a row are one token, which nothing goes on with. -/
theorem exists_doubled {k : TokenKind} {x : Text} (hk : k ∈ [.plus, .minus])
    (hx : (k, x) ∈ fixedTexts) : ∃ t, crossGl.Whole t (x ++ x) ∧ x ++ x ∈ punctuation := by
  have htable : ∀ p ∈ fixedTexts, p.1 ∈ [TokenKind.plus, .minus] →
      crossGl.Lexes ⟨doubled p.1, some (p.2 ++ p.2)⟩ ∧ (doubled p.1, p.2 ++ p.2) ∈ fixedTexts ∧
        p.2 ++ p.2 ∈ punctuation := by
    decide
  obtain ⟨hlexes, hfixed, hmem⟩ := htable _ hx hk
  exact ⟨_, whole_of_fixed hlexes hfixed, hmem⟩

/-- Two equal signs in front are one token. -/
theorem Packed.doubled {s x : Text} {t t' : Token} {ts : List Token} {A : Prop}
    (hs : Packed V s ts A) (ht : V.count [t] = 1) (ht' : V.count [t'] = 1)
    (hk : t.kind ∈ [.plus, .minus]) (hx : (t.kind, x) ∈ fixedTexts) :
    Packed V (x ++ (x ++ s)) (t :: t' :: ts) False := by
  obtain ⟨us, hs, hkeeps⟩ := hs
  obtain ⟨d, hd, hmem⟩ := exists_doubled hk hx
  refine ⟨d :: us, fun next hnext => ?_, hkeeps.merged d ht ht'⟩
  rw [← List.append_assoc]
  exact .token hd (apart_punctuation hmem _) (hs next hnext)

/-- How a text begins that is written for the tokens `ts`: with the sign in front, behind which the
text of the rest stands, or with a character that no sign runs together with. -/
inductive Opening (V : View) (ts : List Token) (s : Text) : Prop where
  | sign (t : Token) (ts' : List Token) (x s' : Text) (A : Prop) (hts : ts = t :: ts')
      (hk : t.kind ∈ [.plus, .minus]) (hx : (t.kind, x) ∈ fixedTexts) (hs : s = x ++ s')
      (hrest : Packed V s' ts' A)
  | plain (hk : firstKind ts ∉ [.plus, .minus])
      (h : ∀ j ∈ [TokenKind.plus, .minus], ∀ x, (j, x) ∈ fixedTexts → crossGl.Apart x s.head?)

namespace Opening

variable {s s' x : Text} {ts ts' : List Token} {t : Token}

/-- Blanks, names and numbers run together with no sign. -/
theorem of_head {c : Char} (hk : t.kind ∉ [.plus, .minus])
    (hc : isGap c ∨ Text.isNameStart c ∨ isNumeric c) : Opening V (t :: ts) (c :: s) := by
  refine .plain hk fun j hj x hx => ?_
  have hsign := sign_text hj hx
  rcases hc with hgap | hc
  · have hne : x ≠ [] := by rcases hsign with rfl | rfl <;> simp
    exact apart_break hne (isBreak_of_isGap hgap)
  · exact apart_sign hsign hc

theorem operator {op : Token} {B W : Prop} (h : Opening V ts s) (hts : ts ≠ []) (hne : s ≠ [])
    (hop : PackedToken V x op W) (hs' : Packed V s' ts' B) :
    Opening V (ts ++ op :: ts') (s ++ ' ' :: (x ++ ' ' :: s')) := by
  cases h with
  | sign t us y u A hus hk hy hs hrest =>
    subst hus hs
    exact .sign t (us ++ op :: ts') y (u ++ ' ' :: (x ++ ' ' :: s')) _ rfl hk hy (by simp)
      (hrest.operator hop hs')
  | plain hk h =>
    obtain ⟨c, s, rfl⟩ := List.exists_cons_of_ne_nil hne
    obtain ⟨t, ts, rfl⟩ := List.exists_cons_of_ne_nil hts
    exact .plain hk h

/-- A sign is apart from a text that does not begin with it. -/
theorem apart {j : TokenKind} (h : Opening V ts s) (hne : firstKind ts ≠ j)
    (hj : j ∈ [.plus, .minus]) (hx : (j, x) ∈ fixedTexts) : crossGl.Apart x s.head? := by
  cases h with
  | plain _ h => exact h j hj x hx
  | sign t us y s' A hus hk hy hs =>
    subst hus hs
    replace hne : t.kind ≠ j := hne
    rcases List.mem_pair.1 hj with rfl | rfl
    · have hother : t.kind = .minus := by simpa [hne] using hk
      obtain rfl : x = "+" := (sign_texts _ hx).1 rfl
      obtain rfl : y = "-" := (sign_texts _ hy).2 hother
      exact apart_signs.1
    · have hother : t.kind = .plus := by simpa [hne] using hk
      obtain rfl : x = "-" := (sign_texts _ hx).2 rfl
      obtain rfl : y = "+" := (sign_texts _ hy).1 hother
      exact apart_signs.2

/-- What begins with a sign goes on behind it. -/
theorem exists_rest {k : TokenKind} (h : Opening V ts s) (hfirst : firstKind ts = k)
    (hk : k ∈ [.plus, .minus]) (hx : (k, x) ∈ fixedTexts) :
    ∃ t ts' s' A, ts = t :: ts' ∧ t.kind = k ∧ s = x ++ s' ∧ Packed V s' ts' A := by
  subst hfirst
  cases h with
  | plain hn => exact absurd hk hn
  | sign t us y s' A hus _ hy hs hrest =>
    subst hus
    suffices hyx : y = x from ⟨t, us, s', A, rfl, rfl, hyx ▸ hs, hrest⟩
    rcases List.mem_pair.1 hk with hkind | hkind
    · exact ((sign_texts _ hy).1 hkind).trans ((sign_texts _ hx).1 hkind).symm
    · exact ((sign_texts _ hy).2 hkind).trans ((sign_texts _ hx).2 hkind).symm

end Opening

/-! ## §3 Words -/

theorem not_sign_of_name {k : TokenKind} (h : k ∈ nameKinds) : k ∉ [.plus, .minus] := by
  have hnames : ∀ k ∈ nameKinds, k ∉ [.plus, .minus] := by decide
  exact hnames k h

theorem all_isNameBreak {next : Option Char} (h : next.all isBreak) : next.all isNameBreak := by
  cases next with
  | none => rfl
  | some c => exact isNameBreak_of_isBreak c h

/-- The token is an identifier whose text is a name, or it is cut from its own text.  Not every
identifier is: the name of a type is an identifier in front of a digit that no name goes on with. -/
def Cut (t : Token) : Prop :=
  (t.kind = .identifier ∧ ∃ w, t.text = some w ∧ isName w) ∨ crossGl.Lexes t

theorem Cut.lexes {t : Token} (h : Cut t) (hk : t.kind ≠ .identifier) : crossGl.Lexes t :=
  h.resolve_left fun h => hk h.1

theorem Cut.exists_name {t : Token} (h : Cut t) (hk : t.kind ∈ nameKinds) :
    ∃ w, t.text = some w ∧ isName w := by
  rcases h with ⟨-, h⟩ | h
  · exact h
  · have hkinds : ∀ k ∈ nameKinds, k ∈ wordKinds ∧ k.isComment = false := by decide
    obtain ⟨w, hw, hshape⟩ := whole_of_lexes h (hkinds _ hk).2
    exact ⟨w, hw.text, hshape.isName (hkinds _ hk).1⟩

/-- What is written for a word: names with points between them, which look like the word. -/
def WritesWord (V : View) (t : Token) (x : Text) : Prop :=
  (∃ c v, x = c :: v ∧ Text.isNameStart c) ∧
    ∃ us, (∀ next, next.all isNameBreak → crossGl.Spells us x next) ∧ V.marks us = V.marks [t]

/-- How words come out of a scope. -/
structure Wording (sc : Scope) (V : View) : Prop where
  word : ∀ (t : Token) (w : Text), t.kind ∈ nameKinds → t.text = some w → isName w →
    ∃ x, sc.word (.text w) = .ok (.text x) ∧ WritesWord V t x
  callName : ∀ (t : Token) (w : Text), t.kind ∈ nameKinds → t.text = some w → isName w →
    ∃ x, sc.callName (.text w) = .ok (.text x) ∧ WritesWord V t x
  number : ∀ t w, crossGl.Lexes t → t.kind ∈ [.number, .decimal] → t.text = some w →
    sc.word (.text w) = .ok (.text w)

theorem writesWord_of_isName {t : Token} {x : Text} (hx : isName x)
    (hmark : V.mark? (soleToken x) = V.mark? t) : WritesWord V t x := by
  refine ⟨exists_of_isName hx, [soleToken x], fun next hnext => ?_, ?_⟩
  · exact .single (whole_name hx) (apart_nameBreak hx hnext)
  · simp only [View.marks, List.filterMap_cons, hmark]

/-! ## §4 Expressions whose operators may get lost -/

/-- The text of a tree spells tokens that look like `ts` just if `good`. -/
def Crammed (sc : Scope) (V : View) (t : Tree) (ts : List Token) (good : Prop) :
    Prop :=
  ∃ s, Forward.expression sc t = .ok s ∧ s ≠ [] ∧ Packed V s ts good ∧ Opening V ts s

theorem Crammed.congr {t : Tree} {ts : List Token} {A B : Prop} (h : Crammed sc V t ts A)
    (hAB : A ↔ B) : Crammed sc V t ts B := by
  obtain ⟨s, hs, hne, hpacked, hopening⟩ := h
  exact ⟨s, hs, hne, hpacked.congr hAB, hopening⟩

/-- The texts of arguments, joined by commas, spell tokens that look like `ts` just if
`good`. -/
def CrammedArguments (sc : Scope) (V : View) (args : List Tree) (ts : List Token)
    (good : Prop) : Prop :=
  ∃ texts, args.mapM (Forward.expression sc) = .ok texts ∧ texts ≠ [] ∧
    Packed V (Text.join ", " texts) ts good

/-- An operator that has no symbol is written as the label of its kind. -/
theorem exists_labelled {op : Token} (hk : op.kind ∈ linkOperators)
    (hn : op.kind ∉ writtenOperators) :
    Operator.symbol (Phrase.label op) = .ok (.text op.kind.label) ∧
      crossGl.Whole ⟨.identifier, some op.kind.label⟩ op.kind.label := by
  have htable : ∀ k ∈ linkOperators, k ∉ writtenOperators →
      (Operator.valueSymbols ++ Operator.assignSymbols).lookup k.label = none ∧
        crossGl.Lexes ⟨.identifier, some k.label⟩ := by
    decide +kernel
  obtain ⟨hlookup, hlexes⟩ := htable _ hk hn
  obtain ⟨w, hw, -⟩ := whole_of_lexes hlexes rfl
  obtain rfl : op.kind.label = w := Option.some.inj hw.text
  refine ⟨?_, hw⟩
  simp [Operator.symbol, Phrase.label, OperatorForm.value, Tree.rename, Tree.find, hlookup]

/-- An operator is written as a token, which looks like the operator just if it is its symbol. -/
theorem exists_packedToken {links : List TokenKind} (hV : V.Discerns links) {op : Token}
    (hop : crossGl.Lexes op) (hk : op.kind ∈ writtenOperators ∨ op.kind ∈ links) :
    ∃ x, Operator.symbol (Phrase.label op) = .ok (.text x) ∧
      PackedToken V x op (op.kind ∈ writtenOperators) := by
  by_cases hwritten : op.kind ∈ writtenOperators
  · obtain ⟨x, hsymbol, hx⟩ := exists_symbol hwritten
    exact ⟨x, hsymbol, op, whole_of_fixed hop hx, (Keeps.refl [op]).congr (by simp [hwritten])⟩
  · obtain ⟨hlink, hone, hzero⟩ := hV.link op (hk.resolve_left hwritten) hwritten
    obtain ⟨hsymbol, hwhole⟩ := exists_labelled hlink hwritten
    refine ⟨_, hsymbol, _, hwhole, fun h => absurd h hwritten, fun _ => ?_⟩
    rw [hone, hzero]
    exact Nat.one_pos

section Compound

variable {A B C : Prop} {us vs ws : List Token}

theorem crammed_binary {links : List TokenKind} (hV : V.Discerns links) {l r : Tree} {op : Token}
    (hl : Crammed sc V l us A) (hr : Crammed sc V r vs B) (hus : us ≠ [])
    (hop : crossGl.Lexes op) (hk : op.kind ∈ writtenOperators ∨ op.kind ∈ links) :
    Crammed sc V (Tree.binary l (Phrase.label op) r) (us ++ op :: vs)
      (A ∧ op.kind ∈ writtenOperators ∧ B) := by
  obtain ⟨s, hs, hne, hpacked, hopening⟩ := hl
  obtain ⟨s', hs', -, hpacked', -⟩ := hr
  obtain ⟨x, hsymbol, hx⟩ := exists_packedToken hV hop hk
  exact ⟨_, written_binary hs hs' hsymbol, by simp, hpacked.operator hx hpacked',
    hopening.operator hus hne hx hpacked'⟩

theorem crammed_ternary {c yes no : Tree} {question colon : Token} (hc : Crammed sc V c us A)
    (hyes : Crammed sc V yes vs B) (hno : Crammed sc V no ws C) (hus : us ≠ [])
    (hquestion : crossGl.Lexes question) (hkm : question.kind = .question)
    (hcolon : crossGl.Lexes colon)
    (hkc : colon.kind = .colon) :
    Crammed sc V (Tree.ternary c yes no) (us ++ question :: (vs ++ colon :: ws)) (A ∧ B ∧ C) := by
  obtain ⟨s, hs, hne, hpacked, hopening⟩ := hc
  obtain ⟨s', hs', -, hpacked', -⟩ := hyes
  obtain ⟨s'', hs'', -, hpacked'', -⟩ := hno
  have hquestion : PackedToken V "?" question True :=
    packedToken_of_whole (whole_of_fixed hquestion (by simp [hkm, fixedTexts, structureTexts]))
  have hcolon : PackedToken V ":" colon True :=
    packedToken_of_whole (whole_of_fixed hcolon (by simp [hkc, fixedTexts, structureTexts]))
  have hlast := hpacked'.operator hcolon hpacked''
  exact ⟨_, written_ternary hs hs' hs'', by simp,
    (hpacked.operator hquestion hlast).congr (by simp only [true_and]),
    hopening.operator hus hne hquestion hlast⟩

/-- A sign is a token of its own unless the same sign follows without a gap. -/
theorem crammed_unary {links : List TokenKind} (hV : V.Discerns links) {u : Tree} {sign : Token}
    (hu : Crammed sc V u us A) (hsign : crossGl.Lexes sign) (hk : sign.kind ∈ [.plus, .minus]) :
    Crammed sc V (Tree.unary (Phrase.label sign) u) (sign :: us)
      ((sc.dialect.signGap = [] → firstKind us ≠ sign.kind) ∧ A) := by
  obtain ⟨s, hs, hne, hpacked, hopening⟩ := hu
  have hwritten : ∀ k ∈ [TokenKind.plus, .minus], k ∈ writtenOperators := by decide
  obtain ⟨x, hsymbol, hx⟩ := exists_symbol (hwritten _ hk)
  have hwhole := whole_of_fixed hsign hx
  have htext := written_unary hs hsymbol
  have hgaps : sc.dialect.signGap = [] ∨ sc.dialect.signGap = [' '] := by
    cases sc.dialect <;> decide
  rcases hgaps with hgap | hgap
  · rw [hgap, List.nil_append] at htext
    refine ⟨x ++ s, htext, by simp [hwhole.ne_nil], ?_, .sign sign us x s A rfl hk hx rfl hpacked⟩
    by_cases hfirst : firstKind us = sign.kind
    · -- The expression begins with the same sign, so the two are one token.
      obtain ⟨t, ts, s', B, rfl, ht, rfl, hrest⟩ := hopening.exists_rest hfirst hk hx
      have hshown := hV.sign t (ht ▸ hk)
      exact (hrest.doubled (hV.sign sign hk) hshown hk hx).congr (by simp [hgap, ht])
    · have hapart := hopening.apart hfirst hk hx
      exact (hpacked.token hne hwhole hapart).congr (by simp [hfirst])
  · rw [hgap] at htext
    have hnot : sc.dialect.signGap ≠ [] := by simp [hgap]
    refine ⟨x ++ ' ' :: s, htext, by simp, ?_, .sign sign us x _ A rfl hk hx rfl hpacked.gap⟩
    have hapart : crossGl.Apart x (some ' ') := apart_break hwhole.ne_nil rfl
    exact (hpacked.gap.token (by simp) hwhole hapart).congr (by simp [hnot])

/-- A number is written as it is, and no sign runs into it. -/
theorem crammed_number (W : Wording sc V) {t : Token} (ht : crossGl.Lexes t)
    (hk : t.kind ∈ [.number, .decimal]) : Crammed sc V (Tree.ofText? t.text) [t] True := by
  have hkinds : ∀ k ∈ [TokenKind.number, .decimal], k.isComment = false ∧ k ∉ [.plus, .minus] := by
    decide
  obtain ⟨w, hw, hshape⟩ := whole_of_lexes ht (hkinds _ hk).1
  have hwritten : Forward.expression sc (Tree.ofText? t.text) = .ok w := by
    rw [hw.text, Tree.ofText?, expression_text, W.number t w ht hk hw.text]
    rfl
  refine ⟨w, hwritten, hw.ne_nil, ⟨[t], fun next hnext => ?_, .refl [t]⟩, ?_⟩
  · exact .single hw (apart_break hw.ne_nil hnext)
  · obtain ⟨c, v, rfl⟩ := List.exists_cons_of_ne_nil hw.ne_nil
    apply Opening.of_head (hkinds _ hk).2
    cases hshape with
    | name h => exact .inr (.inl (Bool.and_eq_true_iff.1 h).1)
    | number _ h => exact .inr (.inr (by simpa using h))
    | symbol h =>
      have hrules : ∀ r ∈ crossGlRules, r.kind ∈ [TokenKind.number, .decimal] →
          r.pattern.lead? = none := by
        decide
      cases hrules _ h hk

theorem crammed_name (W : Wording sc V) {t : Token} (ht : Cut t) (hk : t.kind ∈ nameKinds) :
    Crammed sc V (Tree.var (.text []) (Tree.ofText? t.text)) [t] True := by
  obtain ⟨w, htext, hname⟩ := ht.exists_name hk
  obtain ⟨x, hword, -, us, hus, hmarks⟩ := W.word t w hk htext hname
  have hpacked : Packed V x [t] True :=
    ⟨us, fun next hnext => hus next (all_isNameBreak hnext), .of_eq hmarks⟩
  rw [htext]
  exact ⟨' ' :: x, written_var hword, by simp, hpacked.gap,
    .of_head (not_sign_of_name hk) (.inl rfl)⟩

/-- Members of what ends in a name, of which the names may be cut as other tokens. -/
theorem exists_spelled_members {links : List TokenKind} (hV : V.Discerns links) {o : Tree}
    {us : List Token} (ms : List Member) (ho : Spelled sc isNameBreak o us)
    (hms : ∀ t ∈ Member.tokens ms, Cut t) :
    ∃ vs, Spelled sc isNameBreak (Member.tree o ms) (us ++ vs) ∧
      V.marks vs = V.marks (Member.tokens ms) := by
  induction ms generalizing o us with
  | nil => exact ⟨[], by simpa using ho, rfl⟩
  | cons m ms ih =>
    simp only [Member.tokens_cons, List.forall_mem_cons] at hms
    obtain ⟨hdot, hname, hms⟩ := hms
    obtain ⟨w, htext, hw⟩ := hname.exists_name (m.2.mem (by decide))
    have hlexes : crossGl.Lexes m.1.1 := hdot.lexes (by simp)
    have hwhole := whole_name hw
    obtain ⟨vs, hvs, hmarks⟩ :=
      ih (spelled_memberOf ho hlexes m.1.kind_eq htext hw hwhole) hms
    refine ⟨m.1.1 :: soleToken w :: vs, by simpa using hvs, ?_⟩
    -- A member that is a keyword is read back as a name and looks the same.
    have hword : V.marks [soleToken w] = V.marks [m.2.1] := by
      have hsame := hV.name m.2.1 w (m.2.mem (by decide)) htext hw
      simp only [View.marks, List.filterMap_cons, hsame]
    calc V.marks ([m.1.1] ++ ([soleToken w] ++ vs))
        = V.marks ([m.1.1] ++ ([m.2.1] ++ Member.tokens ms)) := by
          rw [View.marks_append, View.marks_append, View.marks_append, View.marks_append, hmarks,
            hword]
      _ = V.marks (Member.tokens (m :: ms)) := rfl

/-- What is written for members begins with what they are members of. -/
theorem prefix_of_members {o : Tree} {s s' : Text} (ms : List Member)
    (ho : Forward.expression sc o = .ok s)
    (h : Forward.expression sc (Member.tree o ms) = .ok s') : s <+: s' := by
  induction ms generalizing o s with
  | nil =>
    rw [Member.tree_nil] at h
    obtain rfl := Except.ok.inj (ho.symm.trans h)
    exact List.prefix_rfl
  | cons m ms ih =>
    have hmember := expression_memberOf sc o (Tree.ofText? m.2.1.text)
    rw [ho] at hmember
    have hprefix := ih hmember h
    apply List.IsPrefix.trans _ hprefix
    simp [Text.cat]

theorem crammed_members {links : List TokenKind} (W : Wording sc V) (hV : V.Discerns links)
    {t : Token} (ms : List Member) (ht : Cut t) (hk : t.kind ∈ nameKinds)
    (hms : ∀ t ∈ Member.tokens ms, Cut t) :
    Crammed sc V (Member.tree (Tree.ofText? t.text) ms) (t :: Member.tokens ms) True := by
  obtain ⟨w, htext, hname⟩ := ht.exists_name hk
  obtain ⟨x, hword, ⟨c, v, rfl, hc⟩, us, hus, hmarks⟩ := W.word t w hk htext hname
  have hwritten : Forward.expression sc (Tree.ofText? t.text) = .ok (c :: v) := by
    rw [htext, Tree.ofText?, expression_text, hword]
    rfl
  obtain ⟨vs, ⟨s, hs, hspells⟩, hmembers⟩ := exists_spelled_members hV ms ⟨_, hwritten, hus⟩ hms
  obtain ⟨u, rfl⟩ := prefix_of_members ms hwritten hs
  refine ⟨_, hs, by simp, ⟨_, fun next hnext => hspells next (all_isNameBreak hnext), ?_⟩,
    .of_head (not_sign_of_name hk) (.inr (.inl hc))⟩
  apply Keeps.of_eq
  rw [View.marks_append, hmarks, hmembers, ← View.marks_append]
  rfl

theorem crammed_call (W : Wording sc V) {args : List Tree} {texts : List Text}
    {t opens closes : Token} (ht : Cut t) (hk : t.kind ∈ nameKinds)
    (hopens : crossGl.Lexes opens) (hko : opens.kind = .leftParen)
    (hcloses : crossGl.Lexes closes) (hkc : closes.kind = .rightParen)
    (htexts : args.mapM (Forward.expression sc) = .ok texts)
    (hargs : Packed V (Text.join ", " texts) us A) :
    Crammed sc V (Tree.call (Tree.ofText? t.text) args) (t :: opens :: (us ++ [closes])) A := by
  obtain ⟨w, htext, hname⟩ := ht.exists_name hk
  obtain ⟨x, hcalled, ⟨c, v, rfl, hc⟩, ws, hws, hmarks⟩ := W.callName t w hk htext hname
  obtain ⟨vs, hvs, hkeeps⟩ := hargs
  rw [htext]
  refine ⟨_, written_call hcalled htexts, by simp, ⟨ws ++ opens :: (vs ++ [closes]), fun next _ =>
    spells_call (hws (some '(') rfl) hopens hko hcloses hkc (hvs (some ')') rfl) next, ?_⟩, ?_⟩
  · have hrest := (hkeeps.append (Keeps.refl [closes])).cons opens
    exact ((Keeps.of_eq hmarks).append hrest).congr (by simp only [true_and, and_true])
  · exact .of_head (not_sign_of_name hk) (.inr (.inl hc))

end Compound

/-! ## §5 Phrases -/

namespace Phrase

variable {links : List TokenKind} {r : Rank}

/-- How the phrases of a rank are written, whether or not operators get lost. -/
def Crams (sc : Scope) (V : View) : {r : Rank} → Phrase links r → Prop
  | .expr, p | .head, p | .last, p | .sum, p | .product, p | .signed, p | .operand, p =>
    Crammed sc V p.value p.bare (p.Clear (sc.dialect.signGap = []))
  | .arguments, p => CrammedArguments sc V p.value p.bare (p.Clear (sc.dialect.signGap = []))

/-- The text of a phrase spells tokens that look like the phrase without grouping, just if the
phrase is clear. -/
theorem crams (W : Wording sc V) (hV : V.Discerns links) (p : Phrase links r)
    (hcut : ∀ t ∈ p.bare, Cut t) (hlinks : .identifier ∉ links) : Crams sc V p := by
  -- The hypothesis of each part is its text together with what the view sees of it.
  induction p with
  | alone l ih | opening l ih | settled l ih | term l ih | factor l ih | unsigned l ih
  | group _ l _ ih => exact ih hcut
  | linked h op l ihh ihl | extended h op l ihh ihl =>
    simp only [bare, shown, List.forall_mem_append, List.forall_mem_cons] at hcut
    have hop : crossGl.Lexes op.1 := hcut.2.1.lexes fun hk => hlinks (hk ▸ op.2)
    exact crammed_binary hV (ihh hcut.1) (ihl hcut.2.2) h.bare_ne_nil hop (.inr op.2)
  | added h op l ihh ihl | scaled h op l ihh ihl =>
    simp only [bare, shown, List.forall_mem_append, List.forall_mem_cons] at hcut
    have hop : crossGl.Lexes op.1 := hcut.2.1.lexes fun h => absurd (h ▸ op.2) (by decide)
    have hk : op.1.kind ∈ writtenOperators := op.mem (by decide)
    exact (crammed_binary hV (ihh hcut.1) (ihl hcut.2.2) h.bare_ne_nil hop (.inl hk)).congr
      (by simp only [hk, true_and, Clear])
  | choice a question yes colon no iha ihy ihn =>
    simp only [bare, shown, List.forall_mem_append, List.forall_mem_cons] at hcut
    obtain ⟨ha, hquestion, hyes, hcolon, hno⟩ := hcut
    exact crammed_ternary (iha ha) (ihy hyes) (ihn hno) a.bare_ne_nil
      (hquestion.lexes (by simp)) question.kind_eq (hcolon.lexes (by simp)) colon.kind_eq
  | sign s u ih =>
    simp only [bare, shown, List.forall_mem_cons] at hcut
    exact crammed_unary hV (ih hcut.2) (hcut.1.lexes fun h => absurd (h ▸ s.2) (by decide)) s.2
  | number n =>
    have hn : crossGl.Lexes n.1 :=
      (hcut n.1 (by simp [bare, shown])).lexes fun h => absurd (h ▸ n.2) (by decide)
    exact crammed_number W hn n.2
  | name n => exact crammed_name W (hcut n.1 (by simp [bare, shown])) n.2
  | emptyCall n opens closes =>
    simp only [bare, shown, List.forall_mem_cons] at hcut
    obtain ⟨hn, hopens, hcloses, -⟩ := hcut
    exact crammed_call W hn n.2 (hopens.lexes (by simp)) opens.kind_eq (hcloses.lexes (by simp))
      closes.kind_eq rfl ⟨[], fun _ _ => .nil, .refl []⟩
  | call n opens args closes ih =>
    simp only [bare, shown, List.forall_mem_append, List.forall_mem_cons] at hcut
    obtain ⟨hn, hopens, hargs, hcloses, -⟩ := hcut
    obtain ⟨texts, htexts, -, hpacked⟩ := ih hargs
    exact crammed_call W hn n.2 (hopens.lexes (by simp)) opens.kind_eq (hcloses.lexes (by simp))
      closes.kind_eq htexts hpacked
  | member n m more =>
    simp only [bare, shown, List.forall_mem_cons] at hcut
    exact crammed_members W hV (m :: more) hcut.1 n.2 hcut.2
  | argument e ih =>
    obtain ⟨s, hs, -, hpacked, -⟩ := ih hcut
    refine ⟨[s], by simp [value, hs], by simp, ?_⟩
    rw [Text.join, List.intercalate_singleton]
    exact hpacked
  | further e comma args ihe iha =>
    simp only [bare, shown, List.forall_mem_append, List.forall_mem_cons] at hcut
    obtain ⟨s, hs, -, hpacked, -⟩ := ihe hcut.1
    obtain ⟨texts, htexts, hne, hargs⟩ := iha hcut.2.2
    refine ⟨s :: texts, ?_, by simp,
      hpacked.join hne hargs (hcut.2.1.lexes (by simp)) comma.kind_eq⟩
    rw [value, List.mapM_cons, hs, htexts]
    rfl

end Phrase

end ShaderBridge.CrossGl
