import ShaderBridge.Proofs.CrossGl.Grouping
import ShaderBridge.Proofs.CrossGl.Recognition
import ShaderBridge.Proofs.CrossGl.Signs

/-!
# Arithmetic written and read back

An expression is written without parentheses that group.  Arithmetic is read back as it was, up to
the names of types, exactly if its tree stands without parentheses, and no sign is directly followed
by the same sign in a dialect that leaves no gap between them.

The other direction counts tokens: the tree that is read back takes at least its weight in tokens,
and the text has at most that many.
-/

namespace ShaderBridge

/-! ## §1 Words of a dialect -/

namespace Forward.Dialect

theorem renamed_cases (d : Dialect) (s : Text) :
    d.renamed s = s ∨ (s, d.renamed s) ∈ d.words?.getD [] := by
  rw [renamed]
  cases h : (d.words?.getD []).lookup s with
  | none => exact .inl rfl
  | some x =>
    obtain ⟨before, after, htable, -⟩ := List.lookup_eq_some_iff.1 h
    exact .inr (by simp [htable])

theorem mem_dialects (d : Dialect) : d ∈ [hlsl, metal, glsl] := by
  cases d <;> decide

end Forward.Dialect

namespace CrossGl

open Forward Lexicon Ladder

/-- The text is a name and the token of that text is a name in expressions. -/
def IsWord (x : Text) : Prop :=
  isName x ∧ crossGl.Lexes (soleToken x) ∧ (soleToken x).kind ∈ nameKinds ∧
    (soleToken x).text = some x

instance (x : Text) : Decidable (IsWord x) := inferInstanceAs (Decidable (_ ∧ _ ∧ _ ∧ _))

theorem isWord_of_lexes {t : Token} {w : Text} (h : crossGl.Lexes t) (hk : t.kind ∈ nameKinds)
    (hw : t.text = some w) : IsWord w := by
  have hkinds : ∀ k ∈ nameKinds, k ∈ wordKinds ∧ k.isComment = false := by decide
  obtain ⟨v, hv, hshape⟩ := whole_of_lexes h (hkinds _ hk).2
  obtain rfl : w = v := Option.some.inj (hw.symm.trans hv.text)
  rw [IsWord, soleToken_of_lexes h hw]
  exact ⟨hshape.isName (hkinds _ hk).1, h, hk, hw⟩

theorem isWord_renamed (d : Dialect) {w : Text} (hw : IsWord w) : IsWord (d.renamed w) := by
  have htable : ∀ d ∈ [Dialect.hlsl, .metal, .glsl], ∀ p ∈ d.words?.getD [],
      IsWord p.1 → IsWord p.2 := by
    decide +kernel
  rcases d.renamed_cases w with h | h
  · rwa [h]
  · exact htable d d.mem_dialects _ h hw

theorem isName_renamed (d : Dialect) {w : Text} (hw : isName w) : isName (d.renamed w) := by
  have htable : ∀ d ∈ [Dialect.hlsl, .metal, .glsl], ∀ p ∈ d.words?.getD [], isName p.2 := by
    decide
  rcases d.renamed_cases w with h | h
  · rwa [h]
  · exact htable d d.mem_dialects _ h

theorem renamed_number (d : Dialect) {t : Token} {w : Text} (h : crossGl.Lexes t)
    (hk : t.kind ∈ [.number, .decimal]) (hw : t.text = some w) : d.renamed w = w := by
  have htable : ∀ d ∈ [Dialect.hlsl, .metal, .glsl], ∀ p ∈ d.words?.getD [],
      (soleToken p.1).kind ∉ [.number, .decimal] := by
    decide +kernel
  rcases d.renamed_cases w with hren | hmem
  · exact hren
  · have hkind := htable d d.mem_dialects _ hmem
    rw [soleToken_of_lexes h hw] at hkind
    exact absurd hk hkind

/-- The token of a word in the dialect. -/
def image (d : Dialect) (t : Token) : Token := soleToken (d.renamed (t.text.getD []))

/-- Outside the stages words are only renamed. -/
theorem rendering_renamed (d : Dialect) (sections : Sections) :
    Rendering ⟨d, sections, .absent⟩ d.renamed (image d) where
  word s := d.mapWord_text s
  callName s := Scope.callName_text rfl
  number t w ht hk hw := renamed_number d ht hk hw
  name t w ht hk hw := by
    obtain ⟨hname, hlexes, hkind, htext⟩ := isWord_renamed d (isWord_of_lexes ht hk hw)
    have hcomment : ∀ k ∈ nameKinds, k.isComment = false := by decide
    obtain ⟨v, hv, -⟩ := whole_of_lexes hlexes (hcomment _ hkind)
    obtain rfl : d.renamed w = v := Option.some.inj (htext.symm.trans hv.text)
    rw [image, hw]
    exact ⟨hname, hv⟩

/-- A dialect renames names to names and nothing else. -/
theorem renames_renamed (d : Dialect) : Renames d.renamed (image d) where
  empty := by cases d <;> rfl
  label := by
    have htable : ∀ d ∈ [Dialect.hlsl, .metal, .glsl],
        ∀ k ∈ [TokenKind.plus, .minus, .multiply, .divide], d.renamed k.label = k.label := by
      decide +kernel
    exact htable d d.mem_dialects
  number t ht hk := by
    obtain ⟨w, hw, -⟩ := id ht
    rw [hw, Option.map_some, renamed_number d ht hk hw]
  name t ht hk := by
    obtain ⟨w, hw, -⟩ := id ht
    obtain ⟨-, -, hkind, htext⟩ := isWord_renamed d (isWord_of_lexes ht hk hw)
    rw [image, hw, Option.map_some]
    exact ⟨hkind, htext⟩

theorem renames_id : Renames id id where
  empty := rfl
  label _ _ := rfl
  number _ _ _ := Option.map_id_apply
  name _ _ hk := ⟨hk, Option.map_id_apply.symm⟩

/-! ## §2 What is written -/

/-- A token that begins with no opener of a comment is no comment. -/
theorem isComment_of_whole {t : Token} {w : Text} (hw : crossGl.Whole t w) :
    t.kind.isComment = false := by
  obtain ⟨k, hmatch, htoken⟩ := hw.lexeme
  obtain ⟨r, hr, hfound⟩ := List.exists_of_findSome?_eq_some hmatch
  obtain ⟨n, hlength, hpair⟩ := Option.map_eq_some_iff.1 hfound
  obtain rfl : r.kind = k := (Prod.mk.inj hpair).1
  by_cases hident : r.kind = .identifier
  · have hkeywords : ∀ q ∈ crossGlKeywords, q.2.isComment = false := by decide
    rw [hident] at htoken
    rcases keyword_of_token? htoken with h | h
    · rw [h]
      rfl
    · exact hkeywords _ h
  · rw [(kind_of_token? htoken).1 hident]
    -- A row for comments has an opener, and the text of the token does not begin with one.
    have hopener : ∀ r ∈ crossGlRules, r.kind.isComment = true → r.pattern.opener?.isSome := by
      decide
    by_contra hcomment
    obtain ⟨x, hx⟩ := Option.isSome_iff_exists.1 (hopener r hr (eq_true_of_ne_false hcomment))
    rw [Pattern.length?_eq_none_of_lead (Pattern.lead?_of_opener? hx) (hw.closed r hr x hx)]
      at hlength
    cases hlength

theorem commentFree_of_spells {ts : List Token} {s : Text} {next : Option Char}
    (h : crossGl.Spells ts s next) : CommentFree ts := by
  induction h with
  | nil => simp
  | gap _ _ ih => exact ih
  | token hw _ _ ih => simp [isComment_of_whole hw, ih]

/-- The end token. -/
abbrev ending : Token := ⟨.endOfInput, none⟩

/-- All tokens look alike, and all of them count. -/
def plainView : View := ⟨Unit, fun _ => some (), fun _ => true⟩

theorem count_plain (ts : List Token) : plainView.count ts = ts.length := by
  simp [View.count, View.marks, plainView]

theorem discerns_plain : plainView.Discerns [] where
  name _ _ _ _ _ := rfl
  sign _ _ := rfl
  link _ h := absurd h (by simp)

theorem wording_plain (d : Dialect) (sections : Sections) :
    Wording ⟨d, sections, .absent⟩ plainView where
  word _ w _ _ hw := ⟨_, d.mapWord_text w, writesWord_of_isName (isName_renamed d hw) rfl⟩
  callName _ _ _ _ hw :=
    ⟨_, Scope.callName_text rfl, writesWord_of_isName (isName_renamed d hw) rfl⟩
  number _ w ht hk hw := number_kept (rendering_renamed d sections) ht hk w hw

namespace Phrase

/-- An expression of arithmetic: names, numbers, calls, parentheses, signs and the four operators,
each token of which is cut from its own text. -/
def Arithmetic (e : Phrase [] .expr) : Prop :=
  ∀ t ∈ e.tokens, t.kind ∈ arithmeticKinds ∧ crossGl.Lexes t

instance (e : Phrase [] .expr) : Decidable e.Arithmetic :=
  inferInstanceAs (Decidable (∀ t ∈ _, _))

/-- The text of arithmetic is cut into the tokens without grouping, or into fewer tokens if signs
run together. -/
theorem Arithmetic.exists_written {e : Phrase [] .expr} (he : e.Arithmetic) (d : Dialect)
    (sections : Sections) :
    ∃ text ts, Forward.expression ⟨d, sections, .absent⟩ e.value = .ok text ∧
      crossGl.tokenize text = .ok (ts ++ [ending]) ∧ CommentFree ts ∧
      ((d.signGap = [] → e.SignsApart) ∧ ts = e.shown (image d) ∨
        ¬(d.signGap = [] → e.SignsApart) ∧ ts.length < e.bare.length) := by
  have hlex : ∀ t ∈ e.bare, crossGl.Lexes t := fun t ht => (he t (e.bare_sublist.subset ht)).2
  have hclear : e.Clear (d.signGap = []) ↔ (d.signGap = [] → e.SignsApart) :=
    e.clear_iff_signsApart (by simp)
  have R := rendering_renamed d sections
  -- Signs that run together are read as one token, so the text has fewer.
  by_cases hsigns : d.signGap = [] → e.SignsApart
  · obtain ⟨text, htext, hspells⟩ := e.legible R hlex (hclear.2 hsigns)
    have hts := hspells none rfl
    exact ⟨text, _, htext, hts.tokenize regular, commentFree_of_spells hts, .inl ⟨hsigns, rfl⟩⟩
  · obtain ⟨text, htext, -, ⟨ts, hspells, hkeeps⟩, -⟩ :=
      e.crams (wording_plain d sections) discerns_plain (fun t ht => .inr (hlex t ht)) (by simp)
    have hlength := hkeeps.fewer fun h => hsigns (hclear.1 h)
    have hts := hspells none rfl
    exact ⟨text, ts, htext, hts.tokenize regular, commentFree_of_spells hts,
      .inr ⟨hsigns, by simpa [count_plain] using hlength⟩⟩

end Phrase

/-! ## §3 What is read back -/

/-- What is read from tokens in front of the end is a phrase within them. -/
theorem exists_phrase_within {ts : List Token} {t : Tree} {c : Cursor} (hfree : CommentFree ts)
    (h : expression ⟨0, ts ++ [ending]⟩ = .ok t c) :
    ∃ e : Phrase linkOperators .expr, e.tokens <+: ts ∧ e.value = t := by
  obtain ⟨w, hpass, e, rfl, rfl⟩ := finds_phrase _ _ _ (by simpa using hfree) h
  refine ⟨e, ?_, rfl⟩
  have hprefix : e.tokens <+: ts ++ [ending] := ⟨_, hpass.rest.symm⟩
  rcases List.prefix_concat_iff.1 hprefix with hall | hin
  · have hend := e.kind_ne_endOfInput (by decide) ending (by simp [hall])
    exact absurd rfl hend
  · exact hin

theorem length_bare_eq {links : List TokenKind} {e : Phrase [] .expr} {q : Phrase links .expr}
    {f : Text → Text} (h : q.value = e.value.mapText f) : q.bare.length = e.bare.length := by
  have he : e.bare.length = e.value.weight := e.weighs
  have hq : q.bare.length = q.value.weight := q.weighs
  rw [hq, he, h, Tree.weight_mapText]

namespace Phrase

variable {e : Phrase [] .expr} {d : Dialect}

/-- The tokens that are shown for arithmetic are arithmetic tokens. -/
theorem Arithmetic.shown_kinds (he : e.Arithmetic) {f : Text → Text} {image : Token → Token}
    (hf : Renames f image) : ∀ t ∈ e.shown image, t.kind ∈ arithmeticKinds := by
  refine e.forall_shown fun t ht => ⟨(he t ht).1, fun hk => ?_⟩
  exact List.mem_append_right _ (hf.name t (he t ht).2 hk).1

/-- Arithmetic that stands without parentheses is read from the tokens without grouping. -/
theorem Arithmetic.reads (he : e.Arithmetic) (hstands : Stands .sum e.value) :
    ∃ c, expression ⟨0, e.shown (image d) ++ [ending]⟩ = .ok (e.value.mapText d.renamed) c := by
  have hregroups : Regroups id d.renamed (image d) e :=
    e.regroups renames_id (renames_renamed d) fun t ht => (he t ht).2
  obtain ⟨q, htokens, hvalue⟩ := hregroups .sum (by rwa [Tree.mapText_id])
  have hread := reads_phrase (by simp) (.alone (.settled q)) [ending] (by simp) (by decide) 0
  rw [← htokens, ← hvalue]
  exact ⟨_, hread⟩

/-- Arithmetic that is read from tokens within those without grouping stands without
parentheses. -/
theorem Arithmetic.stands (he : e.Arithmetic) {e' : Phrase linkOperators .expr}
    (hwithin : e'.tokens <+: e.shown (image d)) (hvalue : e'.value = e.value.mapText d.renamed) :
    Stands .sum e.value := by
  have hrenamed : Stands .sum (e.value.mapText d.renamed) := by
    have hlength := hwithin.length_le
    rw [e.length_shown, ← length_bare_eq hvalue] at hlength
    have hupright := stands_of_flat (by decide) e'
      (fun t ht => he.shown_kinds (renames_renamed d) t (hwithin.subset ht)) hlength
    rwa [Upright, hvalue] at hupright
  -- The names are changed back by regrouping once more.
  have hregroups : Regroups d.renamed id id e :=
    e.regroups (renames_renamed d) renames_id fun t ht => (he t ht).2
  obtain ⟨q, htokens, hback⟩ := hregroups .sum hrenamed
  have hlength : (alone (settled q)).bare.length = e.bare.length := length_bare_eq hback
  have hupright := stands_of_flat (by simp) (.alone (.settled q))
    (fun t ht => he.shown_kinds renames_id t (htokens ▸ ht)) (by
      rw [hlength, ← e.length_shown id, ← htokens]
      exact Nat.le_refl _)
  rw [Tree.mapText_id] at hback
  rwa [Upright, value, value, hback] at hupright

/-- The condition under which arithmetic is written so that it is read back as it was. -/
theorem Arithmetic.reads_back_iff (he : e.Arithmetic) (d : Dialect) (sections : Sections) :
    ∃ text, Forward.expression ⟨d, sections, .absent⟩ e.value = .ok text ∧
      ((∃ ts c, crossGl.tokenize text = .ok ts ∧
          expression ⟨0, ts⟩ = .ok (e.value.mapText d.renamed) c) ↔
        Stands .sum e.value ∧ (d.signGap = [] → e.SignsApart)) := by
  obtain ⟨text, ts, htext, htokens, hfree, hcases⟩ := he.exists_written d sections
  refine ⟨text, htext, ?_, ?_⟩
  · rintro ⟨_, c, htokens', hread⟩
    obtain rfl : ts ++ [ending] = _ := Except.ok.inj (htokens.symm.trans htokens')
    obtain ⟨e', hwithin, hvalue⟩ := exists_phrase_within hfree hread
    rcases hcases with ⟨hsigns, rfl⟩ | ⟨-, hfewer⟩
    · exact ⟨he.stands hwithin hvalue, hsigns⟩
    · -- The tree takes more tokens than there are.
      have hbare := e'.bare_sublist.length_le
      have hwithin := hwithin.length_le
      rw [length_bare_eq hvalue] at hbare
      omega
  · rintro ⟨hstands, hsigns⟩
    rcases hcases with ⟨-, rfl⟩ | ⟨hrun, -⟩
    · obtain ⟨c, hread⟩ := he.reads hstands
      exact ⟨_, c, htokens, hread⟩
    · exact absurd hsigns hrun

end Phrase

/-! ## §4 Grouping -/

/-- When grouping is kept.  Arithmetic is read as its tree.  A dialect writes the tree so that it is
read back as it was, up to the names of types, exactly if the tree stands without parentheses, and
no sign is directly followed by the same sign in a dialect that leaves no gap between them.  Where
this is so, no two trees have the same text, up to the names of types. -/
theorem arithmetic_reads_back_iff (d : Dialect) (sections : Sections) :
    (∀ e : Phrase [] .expr, e.Arithmetic →
      expression ⟨0, e.tokens ++ [ending]⟩ = .ok e.value ⟨e.tokens.length, [ending]⟩ ∧
      ∃ text, Forward.expression ⟨d, sections, .absent⟩ e.value = .ok text ∧
        ((∃ ts c, crossGl.tokenize text = .ok ts ∧
            expression ⟨0, ts⟩ = .ok (e.value.mapText d.renamed) c) ↔
          Stands .sum e.value ∧ (d.signGap = [] → e.SignsApart))) ∧
    (∀ e e' : Phrase [] .expr, e.Arithmetic → e'.Arithmetic →
      Stands .sum e.value ∧ (d.signGap = [] → e.SignsApart) →
      Stands .sum e'.value ∧ (d.signGap = [] → e'.SignsApart) →
      Forward.expression ⟨d, sections, .absent⟩ e.value
        = Forward.expression ⟨d, sections, .absent⟩ e'.value →
      e.value.mapText d.renamed = e'.value.mapText d.renamed) := by
  refine ⟨fun e he => ⟨?_, he.reads_back_iff d sections⟩, fun e e' he he' hkept hkept' hsame => ?_⟩
  · simpa using reads_phrase (by simp) e [ending] (by simp) (by decide) 0
  · obtain ⟨text, htext, hiff⟩ := he.reads_back_iff d sections
    obtain ⟨text', htext', hiff'⟩ := he'.reads_back_iff d sections
    obtain rfl : text = text' := Except.ok.inj (htext.symm.trans (hsame.trans htext'))
    -- The common text is read back to either tree.
    obtain ⟨ts, c, htokens, hread⟩ := hiff.2 hkept
    obtain ⟨ts', c', htokens', hread'⟩ := hiff'.2 hkept'
    obtain rfl : ts = ts' := Except.ok.inj (htokens.symm.trans htokens')
    injection hread.symm.trans hread' with hvalue

/-- A name as a factor. -/
def named (s : Text) : Phrase [] .signed :=
  .unsigned (.name ⟨⟨.identifier, some s⟩, List.mem_cons_self⟩)

/-- The sum of two factors. -/
def sumOf (a b : Phrase [] .product) : Phrase [] .expr :=
  .alone (.settled (.added (.term a) ⟨⟨.plus, some "+"⟩, by decide⟩ b))

/-- The expression `a + b * c`. -/
def sumAndProduct : Phrase [] .expr :=
  sumOf (.factor (named "a"))
    (.scaled (.factor (named "b")) ⟨⟨.multiply, some "*"⟩, by decide⟩ (named "c"))

/-- The expression `(a + b) * c`. -/
def productOfSum : Phrase [] .expr :=
  .alone (.settled (.term (.scaled
    (.factor (.unsigned (.group (slot .leftParen "(")
      (sumOf (.factor (named "a")) (.factor (named "b"))) (slot .rightParen ")"))))
    ⟨⟨.multiply, some "*"⟩, by decide⟩ (named "c"))))

/-- Without its parentheses the sum is read back in HLSL. -/
theorem hlsl_reads_back_sumAndProduct :
    sumAndProduct.Arithmetic ∧
    ∃ text ts c, Forward.expression ⟨.hlsl, {}, .absent⟩ sumAndProduct.value = .ok text ∧
      crossGl.tokenize text = .ok ts ∧
      expression ⟨0, ts⟩ = .ok (sumAndProduct.value.mapText (Dialect.renamed .hlsl)) c := by
  have harithmetic : sumAndProduct.Arithmetic := by decide
  have hstands : Stands .sum sumAndProduct.value :=
    .added (k := .plus) (by decide) (.term (.factor (.unsigned (.name _))))
      (.scaled (k := .multiply) (by decide) (.factor (.unsigned (.name _))) (.unsigned (.name _)))
  obtain ⟨-, text, htext, hiff⟩ := (arithmetic_reads_back_iff .hlsl {}).1 _ harithmetic
  obtain ⟨ts, c, htokens, hread⟩ := hiff.2 ⟨hstands, fun hgap => absurd hgap (by decide)⟩
  exact ⟨harithmetic, text, ts, c, htext, htokens, hread⟩

/-- Two expressions with different trees have the same text in GLSL. -/
theorem glsl_same_text_of_other_grouping :
    productOfSum.Arithmetic ∧ sumAndProduct.Arithmetic ∧
    productOfSum.value ≠ sumAndProduct.value ∧
    Forward.expression ⟨.glsl, {}, .absent⟩ productOfSum.value = .ok " a +  b *  c" ∧
    Forward.expression ⟨.glsl, {}, .absent⟩ sumAndProduct.value = .ok " a +  b *  c" := by
  have R := rendering_renamed .glsl {}
  have hplus : Operator.symbol (Phrase.label ⟨.plus, some "+"⟩) = .ok (.text "+") := rfl
  have htimes : Operator.symbol (Phrase.label ⟨.multiply, some "*"⟩) = .ok (.text "*") := rfl
  refine ⟨by decide, by decide, by decide, ?_, ?_⟩
  · exact written_binary (written_binary (written_name R "a") (written_name R "b") hplus)
      (written_name R "c") htimes
  · exact written_binary (written_name R "a")
      (written_binary (written_name R "b") (written_name R "c") htimes) hplus

end CrossGl

end ShaderBridge
