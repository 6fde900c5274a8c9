import ShaderBridge.Proofs.BareTokens
import ShaderBridge.Proofs.CrossGl.CodeRendering
import ShaderBridge.Proofs.CrossGl.ReadBack
import ShaderBridge.Proofs.Naming
import ShaderBridge.Proofs.Totality

/-!
# Updates of loops

The converter of GLSL writes an update without grouping its operands, so it may be read back as
another one.  It is read back as it was exactly if its value stands behind the operator without
parentheses (`update_regroups`).
-/

namespace ShaderBridge.Backward.Glsl

variable {sc : Scope}

/-! ## §1 Updates that are regrouped -/

theorem expression_binary (sc : Scope) (left op right : Tree) :
    expression sc (Tree.binary left op right) = do
      let l ← expression sc left
      let r ← expression sc right
      let op ← Operator.valueSymbol op
      return Text.cat [l, " ", plain op, " ", r] := by
  rw [Tree.binary, expression]
  rfl

/-- An update is written as if its operators were grouped from the left. -/
theorem update_grouped_left (name x a b : Tree) (op op' : Text) :
    update sc (Tree.assignment name (Tree.binary x (.text op) (Tree.binary a (.text op') b)))
      = update sc
          (Tree.assignment name (Tree.binary (Tree.binary x (.text op) a) (.text op') b)) := by
  have htext : expression sc (Tree.binary x (.text op) (Tree.binary a (.text op') b))
      = expression sc (Tree.binary (Tree.binary x (.text op) a) (.text op') b) := by
    simp only [expression_binary, bind_assoc, pure_bind]
    obtain ⟨s, hs⟩ := succeeds_rename (t := .text op) rfl Operator.valueSymbols
    obtain ⟨s', hs'⟩ := succeeds_rename (t := .text op') rfl Operator.valueSymbols
    rw [Operator.valueSymbol, Operator.valueSymbol, hs, hs']
    refine bind_congr fun x => bind_congr fun a => bind_congr fun b => ?_
    show Except.ok _ = Except.ok _
    simp [Text.cat]
  show (do
    let left ← trimmed sc name
    let right ← trimmed sc _
    return some (Text.cat [left, " = ", right])) = _
  rw [trimmed.eq_1 _ (Tree.binary _ _ _), htext]
  rfl

/-! ## §2 Values of names and numbers -/

open CrossGl Lexicon

/-- The operators of arithmetic, each with its symbol. -/
def arithmeticSymbols : List (TokenKind × Text) :=
  [(.plus, "+"), (.minus, "-"), (.multiply, "*"), (.divide, "/")]

/-- A value of names and numbers that CrossGL cuts as they are, and of the operators of
arithmetic. -/
inductive Computed : Tree → Prop where
  | number {t : Token} (ht : crossGl.Lexes t) (hk : t.kind ∈ [.number, .decimal]) :
      Computed (Tree.ofText? t.text)
  | name {t : Token} (ht : crossGl.Lexes t) (hk : t.kind ∈ nameKinds) :
      Computed (Tree.var (.text []) (Tree.ofText? t.text))
  | binary {k : TokenKind} {x : Text} {l r : Tree} (hk : (k, x) ∈ arithmeticSymbols)
      (hl : Computed l) (hr : Computed r) : Computed (Tree.binary l (.text k.label) r)

/-- The text of a number has no blank. -/
theorem not_isBlank_number {t : Token} {w : Text} (ht : crossGl.Lexes t)
    (hk : t.kind ∈ [.number, .decimal]) (hw : t.text = some w) :
    ∀ c ∈ w, Text.isBlank c = false := by
  obtain ⟨v, hv, -, r, ⟨hr, hlength, htoken⟩, -⟩ := ht.fits
  obtain rfl : w = v := Option.some.inj (hw.symm.trans hv)
  have hrules : ∀ r ∈ crossGlRules, r.kind ∈ [.number, .decimal] →
      r.pattern = .number ∨ r.pattern = .decimal := by
    decide
  have hkeywords : ∀ q ∈ crossGlKeywords, q.2 ∉ [.number, .decimal] := by decide
  -- No name is a number, so the rule has the kind of the token.
  have hkind : r.kind ∈ [.number, .decimal] := by
    by_cases hident : r.kind = .identifier
    · rw [hident] at htoken
      rcases keyword_of_token? htoken with h | h
      · simp [h] at hk
      · exact absurd hk (hkeywords _ h)
    · rwa [← (kind_of_token? htoken).1 hident]
  have hdigit : ∀ c, Text.isDigit c → Text.isBlank c = false := fun c hc =>
    Pattern.not_isBlank_of_isNumeric (by simp [Pattern.isNumeric, hc])
  have hdraws : r.pattern.DrawsOn (Text.isBlank · = false) := by
    rcases hrules r hr hkind with h | h <;> rw [h] <;> exact ⟨hdigit, by decide⟩
  simpa using Pattern.all_take hdraws hlength

/-- A phrase of arithmetic in which no sign is followed by the same sign. -/
def Clean {r : Rank} (p : Phrase [] r) : Prop :=
  p.SignsApart ∧ ∀ t ∈ p.tokens, t.kind ∈ Phrase.arithmeticKinds ∧ crossGl.Lexes t

section Operations

variable {k : TokenKind} {x : Text} (hk : (k, x) ∈ arithmeticSymbols)

include hk

theorem symbol_facts :
    (k ∈ Phrase.arithmeticKinds ∧ crossGl.Lexes ⟨k, some x⟩) ∧
    Operator.symbol (.text k.label) = .ok (.text x) ∧
    Operator.valueSymbol (.text k.label) = .ok (.text x) ∧
    Operator.valueSymbol (.text x) = .ok (.text x) := by
  have htable : ∀ p ∈ arithmeticSymbols,
      (p.1 ∈ Phrase.arithmeticKinds ∧ crossGl.Lexes ⟨p.1, some p.2⟩) ∧
      (Operator.valueSymbols ++ Operator.assignSymbols).lookup p.1.label = some p.2 ∧
      Operator.valueSymbols.lookup p.1.label = some p.2 ∧
      Operator.valueSymbols.lookup p.2 = none := by
    decide +kernel
  obtain ⟨hlexes, hall, hlabel, hsymbol⟩ := htable _ hk
  simpa [Operator.symbol, Operator.valueSymbol, Tree.rename, Tree.find, hall, hlabel, hsymbol]
    using hlexes

theorem written_operation {sc : Forward.Scope} {l r : Tree} {s u : Text}
    (hl : Forward.expression sc l = .ok s) (hr : Forward.expression sc r = .ok u) :
    Forward.expression sc (Tree.binary l (.text k.label) r)
      = .ok (s ++ ' ' :: (x ++ ' ' :: u)) := by
  have hlabel : Tree.text k.label = Phrase.label ⟨k, none⟩ := rfl
  rw [hlabel]
  exact written_binary hl hr (symbol_facts hk).2.1

theorem sum_or_product : k ∈ [.plus, .minus] ∨ k ∈ [.multiply, .divide] := by
  have htable : ∀ p ∈ arithmeticSymbols, p.1 ∈ [.plus, .minus] ∨ p.1 ∈ [.multiply, .divide] := by
    decide
  exact htable _ hk

/-- Two operands with an operator between them. -/
theorem exists_operation {p q : Phrase [] .operand} (hp : Clean p) (hq : Clean q) :
    ∃ e : Phrase [] .expr, e.value = Tree.binary p.value (.text k.label) q.value ∧ Clean e := by
  have htokens : ∀ t ∈ p.tokens ++ ⟨k, some x⟩ :: q.tokens,
      t.kind ∈ Phrase.arithmeticKinds ∧ crossGl.Lexes t := by
    rw [List.forall_mem_append, List.forall_mem_cons]
    exact ⟨hp.2, (symbol_facts hk).1, hq.2⟩
  rcases sum_or_product hk with h | h
  · exact ⟨.alone (.settled (.added (.term (.factor (.unsigned p))) ⟨⟨k, some x⟩, h⟩
      (.factor (.unsigned q)))), rfl, ⟨hp.1, hq.1⟩, htokens⟩
  · exact ⟨.alone (.settled (.term (.scaled (.factor (.unsigned p)) ⟨⟨k, some x⟩, h⟩
      (.unsigned q)))), rfl, ⟨hp.1, hq.1⟩, htokens⟩

end Operations

/-- What is computed is an operand of CrossGL, with its operations in parentheses. -/
theorem Computed.exists_operand {t : Tree} (h : Computed t) :
    ∃ p : Phrase [] .operand, p.value = t ∧ Clean p := by
  induction h with
  | @number t ht hk =>
    have hkinds : ∀ k ∈ [TokenKind.number, .decimal], k ∈ Phrase.arithmeticKinds := by decide
    refine ⟨.number ⟨t, hk⟩, rfl, trivial, ?_⟩
    simpa [Phrase.tokens] using ⟨hkinds _ hk, ht⟩
  | @name t ht hk =>
    refine ⟨.name ⟨t, hk⟩, rfl, trivial, ?_⟩
    simpa [Phrase.tokens] using ⟨List.mem_append_right _ hk, ht⟩
  -- An operation becomes an operand by the parentheses around it.
  | binary hk _ _ ihl ihr =>
    obtain ⟨p, rfl, hp⟩ := ihl
    obtain ⟨q, rfl, hq⟩ := ihr
    obtain ⟨e, hvalue, hsigns, htokens⟩ := exists_operation hk hp hq
    have hparens : ∀ t ∈ [(⟨.leftParen, some "("⟩ : Token), ⟨.rightParen, some ")"⟩],
        t.kind ∈ Phrase.arithmeticKinds ∧ crossGl.Lexes t := by
      decide +kernel
    simp only [List.forall_mem_cons] at hparens
    obtain ⟨hopens, hcloses, -⟩ := hparens
    refine ⟨.group (slot .leftParen "(") e (slot .rightParen ")"), hvalue, hsigns, ?_⟩
    rw [Phrase.tokens, List.forall_mem_cons, List.forall_mem_append, List.forall_mem_singleton]
    exact ⟨hopens, htokens, hcloses⟩

/-! ## §3 Updates that keep their grouping -/

/-- In a stage whose variables are declared every word is kept. -/
theorem word_declared (h : Declared (sc.sections.ofStage sc.stage)) (s : Text) :
    sc.word (.text s) = .ok (.text s) := by
  rw [Scope.word]
  rcases variableIn_declared h s (.inl rfl) with hin | hin <;> rw [hin]
  · show (variableIn _ .outputs (.text s) >>= fun _ => _) = _
    rcases variableIn_declared h s (.inr rfl) with hout | hout <;> rw [hout] <;> rfl
  · rfl

section Written

variable (hword : ∀ s, sc.word (.text s) = .ok (.text s))

include hword

theorem expression_name (w : Text) :
    expression sc (Tree.var (.text []) (.text w)) = .ok (' ' :: w) := by
  rw [Tree.var, expression]
  show (do return Text.cat [[], " ", plain (← sc.word (.text w))]) = _
  rw [hword]
  show Except.ok (Text.cat [[], " ", w]) = _
  simp [Text.cat]

/-- What is computed is written as from CrossGL to GLSL, and no blank stands at the end. -/
theorem Computed.written {t : Tree} (h : Computed t) :
    ∃ s c, expression sc t = .ok s ∧ Forward.expression ⟨.glsl, {}, .absent⟩ t = .ok s ∧
      s.getLast? = some c ∧ Text.isBlank c = false := by
  have R := rendering_renamed .glsl {}
  induction h with
  | @number t ht hk =>
    obtain ⟨w, hw, hne, -⟩ := ht.fits
    have hlast := List.getLast?_eq_some_getLast hne
    refine ⟨w, _, ?_, ?_, hlast, not_isBlank_number ht hk hw _ (List.getLast_mem hne)⟩
    · rw [hw, Tree.ofText?, expression, hword]
      rfl
    · rw [hw, Tree.ofText?, Forward.expression_text, R.word]
      rfl
  -- A name is written behind a blank, in either generator.
  | @name t ht hk =>
    obtain ⟨w, hw, -⟩ := id ht
    have hname := (isWord_of_lexes ht hk hw).1
    obtain ⟨-, c, hlast, hc⟩ := exists_of_isLettered (isLettered_of_isName hname)
    rw [hw]
    exact ⟨' ' :: w, c, expression_name hword w, written_name R w,
      by simp [List.getLast?_cons, hlast], Pattern.not_isBlank_of_isNameRest hc⟩
  | binary hk _ _ ihl ihr =>
    obtain ⟨s, -, hs, hs', -⟩ := ihl
    obtain ⟨u, c, hu, hu', hlast, hc⟩ := ihr
    obtain ⟨-, -, hvalue, -⟩ := symbol_facts hk
    refine ⟨_, c, ?_, written_operation hk hs' hu', ?_, hc⟩
    · rw [expression_binary, hs, hu, hvalue]
      simp [Text.cat]
      rfl
    · simp [List.getLast?_append, List.getLast?_cons, hlast]

variable {k : TokenKind} {w x u : Text} {e : Tree} {d : Char}

/-- The blank in front of the name is not written. -/
theorem update_written (hk : (k, x) ∈ arithmeticSymbols) (hw : isName w)
    (hu : expression sc e = .ok u) (hlast : u.getLast? = some d) (hd : Text.isBlank d = false) :
    update sc (Tree.assignment (.text w) (Tree.binary (Glsl.use (.text w)) (.text x) e))
      = .ok (some (Text.cat [w, " = ", w ++ ' ' :: (x ++ ' ' :: u)])) := by
  obtain ⟨⟨b, v, rfl, hb⟩, c, hend, hc⟩ := exists_of_isLettered (isLettered_of_isName hw)
  replace hb := Pattern.not_isBlank_of_isNameRest hb
  -- The left side is trimmed, and a name has no blank at either end.
  have hleft : trimmed sc (.text (b :: v)) = .ok (b :: v) := by
    rw [trimmed, expression, hword]
    show Except.ok (Text.trim (b :: v)) = _
    rw [Text.trim_eq_self rfl hb hend (Pattern.not_isBlank_of_isNameRest hc)]
  have hright : trimmed sc (Tree.binary (Glsl.use (.text (b :: v))) (.text x) e)
      = .ok ((b :: v) ++ ' ' :: (x ++ ' ' :: u)) := by
    rw [trimmed, expression_binary, Glsl.use, expression_name hword, hu, (symbol_facts hk).2.2.2]
    have htext : Text.cat [' ' :: b :: v, " ", x, " ", u]
        = ' ' :: ((b :: v) ++ ' ' :: (x ++ ' ' :: u)) := by
      simp [Text.cat]
    have htrim := Text.trim_eq_self (t := (b :: v) ++ ' ' :: (x ++ ' ' :: u)) rfl hb
      (by simp [List.getLast?_append, List.getLast?_cons, hlast]) hd
    show Except.ok (Text.trim (Text.cat [' ' :: b :: v, " ", x, " ", u])) = _
    rw [htext]
    exact congrArg Except.ok htrim
  show (do
    let left ← trimmed sc _
    let right ← trimmed sc _
    return some (Text.cat [left, " = ", right])) = _
  rw [hleft, hright]
  rfl

end Written

/-- The strength that an operator asks of what stands behind it. -/
def strengthBehind (k : TokenKind) : Strength :=
  if k ∈ [.plus, .minus] then .product else .signed

section Read

variable {k : TokenKind} {w x u : Text} {e : Tree} (hk : (k, x) ∈ arithmeticSymbols)

include hk

theorem stands_operation_iff :
    Stands .sum (Tree.binary (Glsl.use (.text w)) (.text k.label) e) ↔
      Stands (strengthBehind k) e := by
  have hname : Stands .signed (Glsl.use (.text w)) := .unsigned (.name (some w))
  rcases sum_or_product hk with h | h
  · rw [strengthBehind, if_pos h]
    exact ⟨fun hs => (hs.of_sum h).2.2, .added h (.term (.factor hname))⟩
  · have hneg : k ∉ [TokenKind.plus, .minus] := by
      rcases List.mem_pair.1 h with rfl | rfl <;> decide
    rw [strengthBehind, if_neg hneg]
    exact ⟨fun hs => (hs.of_product h).2.2, fun hs => .term (.scaled h (.factor hname) hs)⟩

/-- The text of an operation is read as that operation exactly if its right operand stands behind
the operator. -/
theorem operation_read_iff (hw : IsWord w) (he : Computed e)
    (hu : Forward.expression ⟨.glsl, {}, .absent⟩ e = .ok u) :
    (∃ ts c, crossGl.tokenize (w ++ ' ' :: (x ++ ' ' :: u)) = .ok ts ∧
      CrossGl.expression ⟨0, ts⟩ = .ok (Tree.binary (Glsl.use (.text w)) (.text k.label) e) c) ↔
    Stands (strengthBehind k) e := by
  have R := rendering_renamed .glsl {}
  obtain ⟨-, hlexes, hkind, htext⟩ := hw
  -- The operation as a phrase, and its text, which begins with a blank.
  obtain ⟨p, hp, hpclean⟩ := (Computed.name hlexes hkind).exists_operand
  obtain ⟨q, rfl, hqclean⟩ := he.exists_operand
  obtain ⟨o, ho, hsigns, harithmetic⟩ := exists_operation hk hpclean hqclean
  rw [hp, htext] at ho
  have hwritten : Forward.expression ⟨.glsl, {}, .absent⟩ o.value
      = .ok (' ' :: (w ++ ' ' :: (x ++ ' ' :: u))) := by
    rw [ho]
    exact written_operation hk (written_name R w) hu
  obtain ⟨_, hwritten', hspells⟩ := o.legible R
    (fun t ht => (harithmetic t (o.bare_sublist.subset ht)).2)
    ((o.clear_iff_signsApart (by simp)).2 fun _ => hsigns)
  obtain ⟨_, hwritten'', hiff⟩ := Phrase.Arithmetic.reads_back_iff harithmetic .glsl {}
  cases hwritten.symm.trans hwritten'
  cases hwritten.symm.trans hwritten''
  -- The blank belongs to no token, and GLSL keeps all names.
  have hren : Forward.Dialect.renamed .glsl = id := rfl
  rw [(hspells none rfl).tokenize regular, ← (hspells none rfl).of_blank.tokenize regular, hren,
    Tree.mapText_id, ho] at hiff
  exact hiff.trans ((and_iff_left fun _ => hsigns).trans (stands_operation_iff hk))

end Read

/-! ## §4 Grouping of updates -/

/-- An update is written as if its operators were grouped from the left.  In a stage whose variables
are declared, it is read back as the operation that it was exactly if its value stands behind the
operator without parentheses. -/
theorem update_regroups (sc : Scope) :
    (∀ (name x a b : Tree) (op op' : Text),
      update sc (Tree.assignment name (Tree.binary x (.text op) (Tree.binary a (.text op') b)))
        = update sc
            (Tree.assignment name (Tree.binary (Tree.binary x (.text op) a) (.text op') b))) ∧
    (Declared (sc.sections.ofStage sc.stage) → ∀ (w x : Text) (k : TokenKind) (e : Tree),
      IsWord w → (k, x) ∈ arithmeticSymbols → Computed e → ∃ text,
        update sc (Tree.assignment (.text w) (Tree.binary (Glsl.use (.text w)) (.text x) e))
          = .ok (some (Text.cat [w, " = ", text])) ∧
        ((∃ ts c, crossGl.tokenize text = .ok ts ∧ CrossGl.expression ⟨0, ts⟩
            = .ok (Tree.binary (Glsl.use (.text w)) (.text k.label) e) c) ↔
          Stands (strengthBehind k) e)) := by
  refine ⟨update_grouped_left, fun hstage w x k e hw hk he => ?_⟩
  have hword := word_declared hstage
  obtain ⟨u, d, hu, hu', hlast, hd⟩ := he.written hword
  exact ⟨_, update_written hword hk hw.1 hu hlast hd, operation_read_iff hk hw he hu'⟩

/-- The value `a * b`. -/
def product : Tree :=
  Tree.binary (Glsl.use (.text "a")) (.text "MULTIPLY") (Glsl.use (.text "b"))

theorem computed_product : Computed product :=
  .binary (k := .multiply) (x := "*") (by decide)
    (.name (t := ⟨.identifier, "a".toList⟩) (by decide +kernel) (by decide))
    (.name (t := ⟨.identifier, "b".toList⟩) (by decide +kernel) (by decide))

theorem stands_product : Stands .product product :=
  .scaled (k := .multiply) (by decide) (.factor (.unsigned (.name (some "a"))))
    (.unsigned (.name (some "b")))

/-- Outside all stages, `x += a * b` is read back as the step that it was. -/
theorem update_regroups_product : ∃ text ts c,
    update ⟨{}, .absent⟩
        (Tree.assignment (.text "x") (Tree.binary (Glsl.use (.text "x")) (.text "+") product))
      = .ok (some (Text.cat ["x", " = ", text])) ∧
    crossGl.tokenize text = .ok ts ∧ CrossGl.expression ⟨0, ts⟩
      = .ok (Tree.binary (Glsl.use (.text "x")) (.text TokenKind.plus.label) product) c := by
  have hword : IsWord "x" := by decide +kernel
  obtain ⟨text, htext, hiff⟩ := (update_regroups ⟨{}, .absent⟩).2 (.inl rfl) "x" "+" .plus product
    hword (by decide) computed_product
  obtain ⟨ts, c, htokens, hread⟩ := hiff.2 stands_product
  exact ⟨text, ts, c, htext, htokens, hread⟩

/-- A loop that counts down by a sum. -/
def sumStep : Text :=
  Text.cat ["#version 450\n// vertex shader\n",
    "void main() { for (int x = 9; x > 0; x -= a + b) { } }",
    "\n// fragment shader\nvoid main() { }"]

/-- The tokens of `x - a + b`. -/
def regrouped : List Token :=
  [⟨.identifier, "x".toList⟩, ⟨.minus, "-".toList⟩, ⟨.identifier, "a".toList⟩, ⟨.plus, "+".toList⟩,
   ⟨.identifier, "b".toList⟩, ⟨.endOfInput, none⟩]

/-- The sum is read back as two steps of its own. -/
theorem sumStep_regroups :
    Route.fromGlsl.convert sumStep = .ok (Text.cat
      [r"shader main {", "\n", r"    vertex {", "\n\n\n", r"        void main() {", "\n",
       "        for (int x = 9; x > 0; x = ", "x -  a +  b",
       r") {", "\n", r"        }", "\n", r"        }", "\n", r"    }", "\n", r"    fragment {",
       "\n\n\n", r"        void main() {", "\n", r"        }", "\n", r"    }", "\n", r"}", "\n"]) ∧
    Language.crossGl.tokenize "x -  a +  b" = .ok regrouped ∧
    CrossGl.expression ⟨0, regrouped⟩ = .ok
      (Tree.binary
        (Tree.binary (Tree.var (.text []) (.text "x")) (.text "MINUS")
          (Tree.var (.text []) (.text "a")))
        (.text "PLUS") (Tree.var (.text []) (.text "b"))) ⟨5, [⟨.endOfInput, none⟩]⟩ := by
  refine ⟨?_, by decide +kernel, rfl⟩
  rw [sumStep]
  repeat rw [String.toList_ofList]
  decide +kernel

end ShaderBridge.Backward.Glsl
