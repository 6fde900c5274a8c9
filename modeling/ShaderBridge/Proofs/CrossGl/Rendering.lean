import ShaderBridge.Proofs.CrossGl.Lexemes
import ShaderBridge.Proofs.CrossGl.Phrase
import ShaderBridge.Proofs.Forward.Expression

/-!
# Expressions written and cut again

The text that is written for an expression spells the tokens of the expression without the
parentheses that only group.  Words may be renamed on the way (`Rendering`).

The main statement is `Phrase.legible`.  It is built up node by node; what has to be known of the
text of a part is only which tokens it spells, and which characters may stand behind it.
-/

namespace ShaderBridge.CrossGl

open Forward Lexicon Ladder

/-! ## §1 Renderings -/

/-- How words come out of a scope: a word becomes another word, and its token another token. -/
structure Rendering (sc : Scope) (ren : Text → Text) (image : Token → Token) : Prop where
  word : ∀ s, sc.word (.text s) = .ok (.text (ren s))
  callName : ∀ s, sc.callName (.text s) = .ok (.text (ren s))
  number : ∀ t w, crossGl.Lexes t → t.kind ∈ [.number, .decimal] → t.text = some w → ren w = w
  name : ∀ t w, crossGl.Lexes t → t.kind ∈ nameKinds → t.text = some w →
    isName (ren w) ∧ crossGl.Whole (image t) (ren w)

/-- The text that is written for a tree spells the tokens, if nothing stands behind it but a
character that `ends` allows. -/
def Spelled (sc : Scope) (ends : Char → Bool) (t : Tree) (ts : List Token) : Prop :=
  ∃ s, Forward.expression sc t = .ok s ∧ ∀ next, next.all ends → crossGl.Spells ts s next

variable {sc : Scope} {ren : Text → Text} {image : Token → Token} {ends : Char → Bool}

theorem Spelled.mono {ends' : Char → Bool} {t : Tree} {ts : List Token}
    (h : Spelled sc ends t ts) (hends : ∀ c, ends' c → ends c) :
    Spelled sc ends' t ts := by
  obtain ⟨s, hs, hspells⟩ := h
  refine ⟨s, hs, fun next hnext => hspells next ?_⟩
  cases next with
  | none => rfl
  | some c => exact hends c hnext

theorem isNameBreak_of_isBreak (c : Char) (h : isBreak c) : isNameBreak c := by
  simp [isNameBreak, h]

theorem mapType_nil (d : Dialect) : d.mapType (.text []) = .ok (.text []) := by
  cases d <;> rfl

/-! ## §2 Words and numbers -/

theorem written_var {w x : Text} (h : sc.word (.text w) = .ok (.text x)) :
    Forward.expression sc (Tree.var (.text []) (.text w)) = .ok (' ' :: x) := by
  rw [expression_var, mapType_nil, expression_text, h]
  show Except.ok (Text.cat [[], " ", x]) = _
  simp [Text.cat]

theorem spelled_number {t : Token} (ht : crossGl.Lexes t) (hk : t.kind ∈ [.number, .decimal])
    (hkept : ∀ w, t.text = some w → sc.word (.text w) = .ok (.text w)) :
    Spelled sc isBreak (Tree.ofText? t.text) [t] := by
  have hcomment : ∀ k ∈ [TokenKind.number, .decimal], k.isComment = false := by decide
  obtain ⟨w, hw, -⟩ := whole_of_lexes ht (hcomment _ hk)
  refine ⟨w, ?_, fun next hnext => ?_⟩
  · rw [hw.text, Tree.ofText?, expression_text, hkept w hw.text]
    rfl
  · exact .single hw (apart_break hw.ne_nil hnext)

section Words

variable (R : Rendering sc ren image)

include R

theorem spelled_word {t : Token} (ht : crossGl.Lexes t) (hk : t.kind ∈ nameKinds) :
    Spelled sc isNameBreak (Tree.ofText? t.text) [image t] := by
  obtain ⟨w, htext, -⟩ := id ht
  obtain ⟨hname, hwhole⟩ := R.name t w ht hk htext
  refine ⟨ren w, ?_, fun next hnext => ?_⟩
  · rw [htext, Tree.ofText?, expression_text, R.word]
    rfl
  · exact .single hwhole (apart_nameBreak hname hnext)

theorem written_name (w : Text) :
    Forward.expression sc (Tree.var (.text []) (.text w)) = .ok (' ' :: ren w) :=
  written_var (R.word w)

theorem spelled_name {t : Token} (ht : crossGl.Lexes t) (hk : t.kind ∈ nameKinds) :
    Spelled sc isNameBreak (Tree.var (.text []) (Tree.ofText? t.text)) [image t] := by
  obtain ⟨w, htext, -⟩ := id ht
  obtain ⟨hname, hwhole⟩ := R.name t w ht hk htext
  rw [htext]
  exact ⟨_, written_name R w, fun next hnext =>
    .gap rfl (.single hwhole (apart_nameBreak hname hnext))⟩

theorem number_kept {t : Token} (ht : crossGl.Lexes t) (hk : t.kind ∈ [.number, .decimal])
    (w : Text) (hw : t.text = some w) : sc.word (.text w) = .ok (.text w) := by
  rw [R.word, R.number t w ht hk hw]

end Words

/-! ## §3 Compound expressions -/

section Compound

variable {ts us vs : List Token} {s s' x : Text} {op : Token}

/-- A member of what ends in a name.  The name of the member may be cut as another token than it was
read from. -/
theorem spelled_memberOf {o : Tree} {dot name u : Token} {w : Text}
    (ho : Spelled sc isNameBreak o ts) (hdot : crossGl.Lexes dot) (hk : dot.kind = .dot)
    (hname : name.text = some w) (hw : isName w) (hu : crossGl.Whole u w) :
    Spelled sc isNameBreak (Tree.memberOf o (Tree.ofText? name.text)) (ts ++ [dot, u]) := by
  obtain ⟨s, hs, hspells⟩ := ho
  have hpoint : crossGl.Whole dot "." :=
    whole_of_fixed hdot (by simp [hk, fixedTexts, structureTexts])
  refine ⟨s ++ ("." ++ w), ?_, fun next hnext => ?_⟩
  · rw [expression_memberOf, hs, hname]
    simp [Text.cat]
    rfl
  · have hnames : crossGl.Spells [u] w next := .single hu (apart_nameBreak hw hnext)
    obtain ⟨c, v, rfl, hc⟩ := exists_of_isName hw
    have hmember : crossGl.Spells [dot, u] ("." ++ c :: v) next :=
      .token hpoint (apart_symbol_name (by simp) (by decide) hc) hnames
    exact (hspells (some '.') (by decide)).append hmember

theorem spelled_members {o : Tree} (ms : List Member)
    (ho : Spelled sc isNameBreak o ts) (hms : ∀ t ∈ Member.tokens ms, crossGl.Lexes t) :
    Spelled sc isNameBreak (Member.tree o ms) (ts ++ Member.tokens ms) := by
  induction ms generalizing o ts with
  | nil => simpa using ho
  | cons m ms ih =>
    simp only [Member.tokens_cons, List.forall_mem_cons] at hms
    obtain ⟨hdot, hname, hms⟩ := hms
    obtain ⟨w, hw, hshape⟩ := whole_of_lexes hname (by simp)
    have hisName : isName w := hshape.isName (by simp [wordKinds])
    simpa using ih (spelled_memberOf ho hdot m.1.kind_eq hw.text hisName hw) hms

/-- The operators that are written as symbols. -/
def writtenOperators : List TokenKind :=
  [.plus, .minus, .multiply, .divide, .lessThan, .greaterThan, .lessEqual, .greaterEqual, .equal,
   .notEqual, .equals, .assignAdd, .assignSub, .assignMul, .assignDiv]

/-- The symbol of an operator, which is the text of its token. -/
theorem exists_symbol (hk : op.kind ∈ writtenOperators) :
    ∃ x, Operator.symbol (Phrase.label op) = .ok (.text x) ∧ (op.kind, x) ∈ fixedTexts := by
  have htable : ∀ k ∈ writtenOperators,
      ((Operator.valueSymbols ++ Operator.assignSymbols).lookup k.label).any
        (fun x => (k, x) ∈ fixedTexts) := by
    decide
  obtain ⟨x, hlookup, hx⟩ := (Option.any_eq_true _ _).1 (htable _ hk)
  refine ⟨x, ?_, by simpa using hx⟩
  simp [Operator.symbol, Phrase.label, OperatorForm.value, Tree.rename, Tree.find, hlookup]

theorem written_binary {l r : Tree}
    (hl : Forward.expression sc l = .ok s) (hr : Forward.expression sc r = .ok s')
    (hx : Operator.symbol (Phrase.label op) = .ok (.text x)) :
    Forward.expression sc (Tree.binary l (Phrase.label op) r)
      = .ok (s ++ ' ' :: (x ++ ' ' :: s')) := by
  rw [expression_binary, hl, hx, hr]
  simp [Text.cat]
  rfl

theorem written_ternary {c yes no : Tree} {s'' : Text}
    (hc : Forward.expression sc c = .ok s) (hyes : Forward.expression sc yes = .ok s')
    (hno : Forward.expression sc no = .ok s'') :
    Forward.expression sc (Tree.ternary c yes no)
      = .ok (s ++ ' ' :: ("?" ++ ' ' :: (s' ++ ' ' :: (":" ++ ' ' :: s'')))) := by
  rw [expression_ternary, hc, hyes, hno]
  simp [Text.cat]
  rfl

theorem spells_operator {next : Option Char}
    (hs : crossGl.Spells us s (some ' ')) (hop : crossGl.Whole op x)
    (hs' : crossGl.Spells vs s' next) :
    crossGl.Spells (us ++ op :: vs) (s ++ ' ' :: (x ++ ' ' :: s')) next :=
  hs.append (.gap rfl (.token hop (apart_break hop.ne_nil rfl) (.gap rfl hs')))

theorem spelled_binary {l r : Tree}
    (hl : Spelled sc isBreak l us) (hr : Spelled sc isBreak r vs) (hop : crossGl.Lexes op)
    (hk : op.kind ∈ writtenOperators) :
    Spelled sc isBreak (Tree.binary l (Phrase.label op) r) (us ++ op :: vs) := by
  obtain ⟨s, hs, hleft⟩ := hl
  obtain ⟨s', hs', hright⟩ := hr
  obtain ⟨x, hsymbol, hx⟩ := exists_symbol hk
  exact ⟨_, written_binary hs hs' hsymbol, fun next hnext =>
    spells_operator (hleft (some ' ') rfl) (whole_of_fixed hop hx) (hright next hnext)⟩

theorem spelled_ternary {c yes no : Tree} {ws : List Token} {mark colon : Token}
    (hc : Spelled sc isBreak c us) (hyes : Spelled sc isBreak yes vs)
    (hno : Spelled sc isBreak no ws) (hmark : crossGl.Lexes mark) (hkm : mark.kind = .question)
    (hcolon : crossGl.Lexes colon) (hkc : colon.kind = .colon) :
    Spelled sc isBreak (Tree.ternary c yes no) (us ++ mark :: (vs ++ colon :: ws)) := by
  obtain ⟨s, hs, hcond⟩ := hc
  obtain ⟨s', hs', hyes⟩ := hyes
  obtain ⟨s'', hs'', hno⟩ := hno
  have hmark := whole_of_fixed (x := "?") hmark (by simp [hkm, fixedTexts, structureTexts])
  have hcolon := whole_of_fixed (x := ":") hcolon (by simp [hkc, fixedTexts, structureTexts])
  exact ⟨_, written_ternary hs hs' hs'', fun next hnext =>
    spells_operator (hcond (some ' ') rfl) hmark
      (spells_operator (hyes (some ' ') rfl) hcolon (hno next hnext))⟩

theorem written_unary {u : Tree} {sign : Token}
    (hu : Forward.expression sc u = .ok s)
    (hx : Operator.symbol (Phrase.label sign) = .ok (.text x)) :
    Forward.expression sc (Tree.unary (Phrase.label sign) u)
      = .ok (x ++ (sc.dialect.signGap ++ s)) := by
  rw [expression_unary, hu, hx]
  simp [Text.cat]
  rfl

/-- A sign in front of an expression.  Where no gap stands between them, the first token of the
expression has to be apart from the sign. -/
theorem spelled_unary {u : Tree} {t sign : Token}
    (hu : Spelled sc isBreak u (t :: ts)) (hsign : crossGl.Lexes sign)
    (hk : sign.kind ∈ [.plus, .minus])
    (hfirst : sc.dialect.signGap = [] → ∀ w x, crossGl.Whole t w → (sign.kind, x) ∈ fixedTexts →
      crossGl.Apart x w.head?) :
    Spelled sc isBreak (Tree.unary (Phrase.label sign) u) (sign :: t :: ts) := by
  obtain ⟨s, hs, hspells⟩ := hu
  have hwritten : ∀ k ∈ [TokenKind.plus, .minus], k ∈ writtenOperators := by decide
  obtain ⟨x, hsymbol, hx⟩ := exists_symbol (hwritten _ hk)
  have hwhole := whole_of_fixed hsign hx
  refine ⟨_, written_unary hs hsymbol, fun next hnext => ?_⟩
  have hgaps : sc.dialect.signGap = [] ∨ sc.dialect.signGap = [' '] := by
    cases sc.dialect <;> decide
  -- Only without a gap does the sign touch the first character of its operand.
  rcases hgaps with hgap | hgap
  · rw [hgap]
    refine .token hwhole ?_ (hspells next hnext)
    rcases (hspells next hnext).head?_eq with ⟨b, hb, hgap'⟩ | ⟨w, hw, hhead⟩
    · rw [List.nil_append, hb, Option.some_or]
      exact apart_break hwhole.ne_nil (isBreak_of_isGap hgap')
    · obtain ⟨c, w, rfl⟩ := List.exists_cons_of_ne_nil hw.ne_nil
      rw [List.nil_append, hhead, List.head?_cons, Option.some_or]
      exact hfirst hgap _ _ hw hx
  · rw [hgap]
    exact .token hwhole (apart_break hwhole.ne_nil rfl) (.gap rfl (hspells next hnext))

/-- Arguments that are written one by one, and joined by commas. -/
def ArgumentsSpelled (sc : Scope) (args : List Tree) (ts : List Token) : Prop :=
  ∃ texts, args.mapM (Forward.expression sc) = .ok texts ∧ texts ≠ [] ∧
    ∀ next, next.all isBreak → crossGl.Spells ts (Text.join ", " texts) next

theorem argumentsSpelled_singleton {e : Tree} (he : Spelled sc isBreak e ts) :
    ArgumentsSpelled sc [e] ts := by
  obtain ⟨s, hs, hspells⟩ := he
  refine ⟨[s], by simp [hs], by simp, ?_⟩
  simpa [Text.join] using hspells

theorem spells_join {texts : List Text} {comma : Token}
    {next : Option Char} (hs : crossGl.Spells ts s (some ',')) (hne : texts ≠ [])
    (htexts : crossGl.Spells us (Text.join ", " texts) next) (hcomma : crossGl.Lexes comma)
    (hk : comma.kind = .comma) :
    crossGl.Spells (ts ++ comma :: us) (Text.join ", " (s :: texts)) next := by
  obtain ⟨text, texts, rfl⟩ := List.exists_cons_of_ne_nil hne
  have hcomma := whole_of_fixed (x := ",") hcomma (by simp [hk, fixedTexts, structureTexts])
  have hjoin : Text.join ", " (s :: text :: texts)
      = s ++ ("," ++ ' ' :: Text.join ", " (text :: texts)) := by
    simp [Text.join, List.intercalate]
  have hmore : crossGl.Spells (comma :: us) ("," ++ ' ' :: Text.join ", " (text :: texts)) next :=
    .token hcomma (apart_break (by simp) rfl) (.gap rfl htexts)
  rw [hjoin]
  exact hs.append hmore

theorem argumentsSpelled_cons {e : Tree} {args : List Tree} {comma : Token}
    (he : Spelled sc isBreak e ts) (hargs : ArgumentsSpelled sc args us)
    (hcomma : crossGl.Lexes comma) (hk : comma.kind = .comma) :
    ArgumentsSpelled sc (e :: args) (ts ++ comma :: us) := by
  obtain ⟨s, hs, hspells⟩ := he
  obtain ⟨texts, htexts, hne, hargs⟩ := hargs
  refine ⟨s :: texts, ?_, by simp, fun next hnext =>
    spells_join (hspells (some ',') rfl) hne (hargs next hnext) hcomma hk⟩
  rw [List.mapM_cons, hs, htexts]
  rfl

theorem written_call {args : List Tree} {texts : List Text} {w : Text}
    (hname : sc.callName (.text w) = .ok (.text x))
    (htexts : args.mapM (Forward.expression sc) = .ok texts) :
    Forward.expression sc (Tree.call (.text w) args)
      = .ok (x ++ ("(" ++ (Text.join ", " texts ++ ")"))) := by
  rw [expression_call, htexts]
  show (sc.callName (.text w) >>= fun name => _) = _
  rw [hname]
  rfl

theorem spells_call {opens closes : Token}
    (hx : crossGl.Spells us x (some '(')) (hopens : crossGl.Lexes opens)
    (hko : opens.kind = .leftParen) (hcloses : crossGl.Lexes closes)
    (hkc : closes.kind = .rightParen) (hs : crossGl.Spells ts s (some ')')) (next : Option Char) :
    crossGl.Spells (us ++ opens :: (ts ++ [closes])) (x ++ ("(" ++ (s ++ ")"))) next := by
  have hopens := whole_of_fixed (x := "(") hopens (by simp [hko, fixedTexts, structureTexts])
  have hcloses := whole_of_fixed (x := ")") hcloses (by simp [hkc, fixedTexts, structureTexts])
  have hlast : crossGl.Spells [closes] ")" next :=
    .single hcloses (apart_punctuation (by decide) _)
  have hrest : crossGl.Spells (opens :: (ts ++ [closes])) ("(" ++ (s ++ ")")) next :=
    .token hopens (apart_punctuation (by decide) _) (.append hs hlast)
  exact .append hx hrest

theorem spelled_call (R : Rendering sc ren image) {args : List Tree} {texts : List Text}
    {ts : List Token} {t opens closes : Token} (ht : crossGl.Lexes t) (hk : t.kind ∈ nameKinds)
    (hopens : crossGl.Lexes opens) (hko : opens.kind = .leftParen) (hcloses : crossGl.Lexes closes)
    (hkc : closes.kind = .rightParen) (htexts : args.mapM (Forward.expression sc) = .ok texts)
    (hargs : crossGl.Spells ts (Text.join ", " texts) (some ')')) :
    Spelled sc isBreak (Tree.call (Tree.ofText? t.text) args)
      (image t :: opens :: (ts ++ [closes])) := by
  obtain ⟨w, htext, -⟩ := id ht
  obtain ⟨hname, hwhole⟩ := R.name t w ht hk htext
  have hword : crossGl.Spells [image t] (ren w) (some '(') :=
    .single hwhole (apart_nameBreak hname rfl)
  rw [htext]
  exact ⟨_, written_call (R.callName w) htexts, fun next _ =>
    spells_call hword hopens hko hcloses hkc hargs next⟩

end Compound

/-! ## §4 Phrases -/

theorem sign_texts : ∀ p ∈ fixedTexts,
    (p.1 = .plus → p.2 = "+") ∧ (p.1 = .minus → p.2 = "-") := by
  decide

theorem sign_text {k : TokenKind} {x : Text} (hk : k ∈ [.plus, .minus])
    (hx : (k, x) ∈ fixedTexts) : x = "+" ∨ x = "-" := by
  rcases List.mem_pair.1 hk with h | h
  · exact .inl ((sign_texts _ hx).1 h)
  · exact .inr ((sign_texts _ hx).2 h)

namespace Phrase

variable {links : List TokenKind}

/-- Every link is written as a symbol, and where no gap is written behind a sign, no sign is
directly followed by the same sign, parentheses that only group aside. -/
def Clear (tight : Prop) {r : Rank} : Phrase links r → Prop
  | alone l => l.Clear tight
  | linked h op l => h.Clear tight ∧ op.1.kind ∈ writtenOperators ∧ l.Clear tight
  | opening a => a.Clear tight
  | extended h op a => h.Clear tight ∧ op.1.kind ∈ writtenOperators ∧ a.Clear tight
  | settled a => a.Clear tight
  | choice a _ yes _ no => a.Clear tight ∧ yes.Clear tight ∧ no.Clear tight
  | term m => m.Clear tight
  | added a _ m => a.Clear tight ∧ m.Clear tight
  | factor u => u.Clear tight
  | scaled m _ u => m.Clear tight ∧ u.Clear tight
  | unsigned o => o.Clear tight
  | sign s u => (tight → firstKind u.bare ≠ s.1.kind) ∧ u.Clear tight
  | group _ e _ => e.Clear tight
  | number _ | name _ | emptyCall _ _ _ | member _ _ _ => True
  | call _ _ args _ => args.Clear tight
  | argument e => e.Clear tight
  | further e _ args => e.Clear tight ∧ args.Clear tight

/-- Where all links are written as symbols only the signs matter. -/
theorem clear_iff_signsApart {tight : Prop} (hlinks : ∀ k ∈ links, k ∈ writtenOperators) {r : Rank}
    (p : Phrase links r) : p.Clear tight ↔ (tight → p.SignsApart) := by
  induction p with
  | number | name | emptyCall | member => simp [Clear, SignsApart]
  | linked _ op _ ihh ihl | extended _ op _ ihh ihl =>
    simp only [Clear, SignsApart, ihh, ihl, hlinks _ op.2, true_and, imp_and]
  | choice _ _ _ _ _ iha ihy ihn => simp only [Clear, SignsApart, iha, ihy, ihn, imp_and]
  | added _ _ _ iha ihm | scaled _ _ _ iha ihm | further _ _ _ iha ihm =>
    simp only [Clear, SignsApart, iha, ihm, imp_and]
  | sign _ _ ih => simp only [Clear, SignsApart, ih, imp_and]
  | alone _ ih | opening _ ih | settled _ ih | term _ ih | factor _ ih | unsigned _ ih
  | group _ _ _ ih | call _ _ _ _ ih | argument _ ih => exact ih

/-- How the phrases of a rank are written. -/
def Legible (sc : Scope) (image : Token → Token) : {r : Rank} → Phrase links r → Prop
  | .expr, p | .head, p | .last, p | .sum, p | .product, p | .signed, p | .operand, p =>
    Spelled sc isBreak p.value (p.shown image)
  | .arguments, p => ArgumentsSpelled sc p.value (p.shown image)

/-- A sign is apart from the expression behind it, if that does not begin with the same sign. -/
theorem apart_shown (R : Rendering sc ren image) {t : Token} {sign : TokenKind}
    (ht : crossGl.Lexes t) (hk : t.kind ∈ bareStarts) (hne : t.kind ≠ sign)
    (hsign : sign ∈ [.plus, .minus]) {w x : Text}
    (hw : crossGl.Whole (if t.kind ∈ nameKinds then image t else t) w)
    (hx : (sign, x) ∈ fixedTexts) : crossGl.Apart x w.head? := by
  have hx' := sign_text hsign hx
  by_cases hname : t.kind ∈ nameKinds
  · rw [if_pos hname] at hw
    obtain ⟨v, htext, -⟩ := id ht
    obtain ⟨hisName, hwhole⟩ := R.name t v ht hname htext
    obtain rfl : w = ren v := Option.some.inj (hw.text.symm.trans hwhole.text)
    obtain ⟨c, s, hv, hc⟩ := exists_of_isName hisName
    rw [hv]
    exact apart_sign hx' (.inl hc)
  · rw [if_neg hname] at hw
    have hcomment : ∀ k ∈ bareStarts, k.isComment = false := by decide
    obtain ⟨v, hv, hshape⟩ := whole_of_lexes ht (hcomment _ hk)
    obtain rfl : w = v := Option.some.inj (hw.text.symm.trans hv.text)
    cases hshape with
    | name h =>
      obtain ⟨c, s, rfl, hc⟩ := exists_of_isName h
      exact apart_sign hx' (.inl hc)
    | number _ h =>
      obtain ⟨c, s, rfl⟩ := List.exists_cons_of_ne_nil hw.ne_nil
      exact apart_sign hx' (.inr (by simpa using h))
    | symbol h =>
      -- The token is the other sign.
      have hrules : ∀ r ∈ crossGlRules, r.kind ∈ bareStarts → ∀ w ∈ r.pattern.lead?,
          r.kind = .plus ∧ w = "+" ∨ r.kind = .minus ∧ w = "-" := by
        decide
      rcases hrules _ h hk w rfl with ⟨hplus, rfl⟩ | ⟨hminus, rfl⟩
      · have hother : sign = .minus := by simpa [← hplus, hne.symm] using hsign
        obtain rfl : x = "-" := (sign_texts _ hx).2 hother
        exact apart_signs.2
      · have hother : sign = .plus := by simpa [← hminus, hne.symm] using hsign
        obtain rfl : x = "+" := (sign_texts _ hx).1 hother
        exact apart_signs.1

/-- The text that is written for a phrase spells the tokens that it shows. -/
theorem legible (R : Rendering sc ren image) {r : Rank} (p : Phrase links r)
    (hlex : ∀ t ∈ p.bare, crossGl.Lexes t) (hclear : p.Clear (sc.dialect.signGap = [])) :
    Legible sc image p := by
  induction p with
  | alone l ih | opening l ih | settled l ih | term l ih | factor l ih | unsigned l ih
  | group _ l _ ih => exact ih hlex hclear
  | linked h op l ihh ihl | extended h op l ihh ihl =>
    simp only [bare, shown, List.forall_mem_append, List.forall_mem_cons] at hlex
    exact spelled_binary (ihh hlex.1 hclear.1) (ihl hlex.2.2 hclear.2.2) hlex.2.1 hclear.2.1
  | added h op l ihh ihl | scaled h op l ihh ihl =>
    simp only [bare, shown, List.forall_mem_append, List.forall_mem_cons] at hlex
    exact spelled_binary (ihh hlex.1 hclear.1) (ihl hlex.2.2 hclear.2) hlex.2.1
      (op.mem (by decide))
  | choice a mark yes colon no iha ihy ihn =>
    simp only [bare, shown, List.forall_mem_append, List.forall_mem_cons] at hlex
    obtain ⟨ha, hmark, hyes, hcolon, hno⟩ := hlex
    exact spelled_ternary (iha ha hclear.1) (ihy hyes hclear.2.1) (ihn hno hclear.2.2)
      hmark mark.kind_eq hcolon colon.kind_eq
  -- The first token that is shown tells whether the sign is apart from it.
  | sign s u ih =>
    simp only [bare, shown, List.forall_mem_cons] at hlex
    obtain ⟨hs, hu⟩ := hlex
    have hspelled : Spelled sc isBreak u.value (u.shown image) := ih hu hclear.2
    obtain ⟨t, ts, us, hbare, hk, hshown⟩ := u.exists_shown image
    have ht : crossGl.Lexes t := hu t (by rw [← bare, hbare]; simp)
    rw [hshown] at hspelled
    show Spelled sc isBreak (Tree.unary (label s.1) u.value) (s.1 :: u.shown image)
    rw [hshown]
    refine spelled_unary hspelled hs s.2 fun hgap w x hw hx => ?_
    have hne : t.kind ≠ s.1.kind := by simpa [hbare] using hclear.1 hgap
    exact apart_shown R ht hk hne s.2 hw hx
  | number n =>
    have hn : crossGl.Lexes n.1 := hlex _ (by simp [bare, shown])
    exact spelled_number hn n.2 (number_kept R hn n.2)
  | name n =>
    exact (spelled_name R (hlex n.1 (by simp [bare, shown])) n.2).mono isNameBreak_of_isBreak
  | emptyCall n opens closes =>
    simp only [bare, shown, List.forall_mem_cons] at hlex
    obtain ⟨hn, hopens, hcloses, -⟩ := hlex
    have hargs : crossGl.Spells [] (Text.join ", " []) (some ')') := .nil
    exact spelled_call R hn n.2 hopens opens.kind_eq hcloses closes.kind_eq rfl hargs
  | call n opens args closes ih =>
    simp only [bare, shown, List.forall_mem_append, List.forall_mem_cons] at hlex
    obtain ⟨hn, hopens, hargs, hcloses, -⟩ := hlex
    obtain ⟨texts, htexts, -, hspells⟩ := ih hargs hclear
    exact spelled_call R hn n.2 hopens opens.kind_eq hcloses closes.kind_eq htexts
      (hspells (some ')') rfl)
  | member n m more =>
    simp only [bare, shown, List.forall_mem_cons] at hlex
    obtain ⟨hn, hms⟩ := hlex
    exact (spelled_members (m :: more) (spelled_word R hn n.2) hms).mono isNameBreak_of_isBreak
  | argument e ih => exact argumentsSpelled_singleton (ih hlex hclear)
  | further e comma args ihe iha =>
    simp only [bare, shown, List.forall_mem_append, List.forall_mem_cons] at hlex
    obtain ⟨he, hcomma, hargs⟩ := hlex
    exact argumentsSpelled_cons (ihe he hclear.1) (iha hargs hclear.2) hcomma comma.kind_eq

end Phrase

end ShaderBridge.CrossGl
