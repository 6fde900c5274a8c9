import ShaderBridge.Proofs.CrossGl.Ending
import ShaderBridge.Proofs.CrossGl.SourceTokens
import ShaderBridge.Proofs.Forward.Words
import ShaderBridge.Proofs.Transparency

/-!
# Operators written as they were read

An expression is read from a source and written in a dialect, and the text is cut into tokens again.
Its operators are those of the source, each at its place, just if none of them is one of nine
operators that are written as words (`labelledOperators`), and no sign is directly followed by the
same sign in a dialect that leaves no gap between them.

- `operatorView`: the operators, and their places among the names and numbers.
- `operators_written_iff` is the main statement.
-/

namespace ShaderBridge

open Lexicon Pattern

namespace CrossGl

open ShaderBridge.Parser Ladder Forward

variable {prev : Option Char} {v w : Text}

/-! ## §1 Expressions of a source -/

/-- A comment begins no expression. -/
theorem expression_of_comment {c : Cursor} (hc : c.kind.isComment) :
    ∃ e, expression c = .error e c := by
  have hkinds : c.kind ∉ Phrase.starts := by
    have hstarts : ∀ k ∈ Phrase.starts, k.isComment = false := by decide
    intro hk
    rw [hstarts _ hk] at hc
    cases hc
  simp only [Phrase.starts, Phrase.operandStarts, List.mem_append, List.mem_cons, not_or,
    List.not_mem_nil, not_false_eq_true, and_true] at hkinds
  obtain ⟨⟨hplus, hminus⟩, ⟨hparen, hnumber, hdecimal⟩, hname⟩ := hkinds
  have hsigns : many (isAt [.plus, .minus]) (take .comments) c = .ok [] c :=
    many_stop (by simp [hplus, hminus])
  -- The operand is turned down, and with it all that begins with it.
  refine ⟨.rejected (.unexpectedIn "in expression" c.kind), ?_⟩
  show expressionWith (expressionAt c.rest.length) c = _
  refine bind_of_error (bind_of_error (bind_of_error (bind_of_error ?_)))
  rw [unaryWith, signed, bind_of_ok hsigns]
  apply bind_of_error
  rw [primaryWith, kind_bind, if_neg hparen, if_neg (by simp [hnumber, hdecimal]), if_neg hname]
  rfl

/-- What is read as an expression is a phrase, comments aside. -/
theorem exists_phrase_of_read {pos : Nat} {ts : List Token} {t : Tree} {c : Cursor}
    (h : expression ⟨pos, ts⟩ = .ok t c) :
    ∃ (e : Phrase linkOperators .expr) (w : List Token),
      ts = w ++ c.rest ∧ uncommented w = e.tokens ∧ e.value = t := by
  let start : Cursor := ⟨pos, ts⟩
  let plainStart : Cursor := ⟨pos, uncommented ts⟩
  have hkind : start.kind.isComment = false := by
    rw [Bool.eq_false_iff]
    intro hcomment
    obtain ⟨e, he⟩ := expression_of_comment hcomment
    cases he.symm.trans h
  have hfree := commentFree_uncommented ts
  -- The tokens without comments are read alike, and of those a phrase is known.
  have halike : Alike start plainStart := by
    refine ⟨(uncommented_of_commentFree hfree).symm, hkind, ?_⟩
    show (Cursor.mk pos (uncommented ts)).kind.isComment = false
    cases hts : uncommented ts with
    | nil => rfl
    | cons t us => exact hfree t (by simp [hts])
  have hmatch :=
    ends_expression (S := remarked) start plainStart halike (Nat.lt_succ_self _) trivial
  rw [show expression start = _ from h] at hmatch
  generalize hrun : expression plainStart = outcome at hmatch
  cases hmatch with
  | @ok _ _ d halike' hleft hright =>
    obtain ⟨_, hpass, e, rfl, rfl⟩ := finds_phrase _ _ _ hfree hrun
    obtain ⟨w, hw⟩ := hleft.suffix
    have hrest : uncommented c.rest = d.rest := by
      rw [halike'.rest]
      exact uncommented_of_commentFree fun t ht => hfree t (hright.suffix.subset ht)
    have hall : uncommented ts = e.tokens ++ d.rest := hpass.rest
    rw [← show w ++ c.rest = ts from hw, uncommented_append, hrest] at hall
    exact ⟨e, w, hw.symm, List.append_cancel_right hall, rfl⟩

/-! ## §2 Operators and their places -/

/-- The kinds of operator. -/
def operatorKinds : List TokenKind :=
  linkOperators ++
    [.plus, .minus, .multiply, .divide, .increment, .decrement, .assignShiftLeft, .modulo, .not,
     .xor, .bitAnd, .bitOr, .bitXor, .bitNot]

/-- The operators among tokens. -/
def operatorsOf (ts : List Token) : List Token := ts.filter (·.kind ∈ operatorKinds)

/-- What is not seen of the text: the points of members and the structures of a stage. -/
def unseen : List Text := [".", "input", "output"]

/-- What is seen of a token.  Operators, numbers and the marks of calls and choices are seen as they
are.  Names look alike, and a member of the structure of a stage is one name. -/
def seen? (t : Token) : Option (Option Token) :=
  if t.kind ∈ operatorKinds then some (some t)
  else if t.text.any (· ∈ unseen) then none
  else if t.text.any isName then some none
  else some (some t)

/-- The tokens in sequence, as far as they are seen: this shows the operators at their places. -/
def places (ts : List Token) : List (Option Token) := ts.filterMap seen?

/-- Whether an operator is seen. -/
def isOperatorSeen (m : Option Token) : Bool := m.any (·.kind ∈ operatorKinds)

/-- The view of operators at their places, where the operators count. -/
def operatorView : View := ⟨Option Token, seen?, isOperatorSeen⟩

/-- The places that are operators are the operators, in order. -/
theorem filter_places (ts : List Token) :
    (places ts).filter isOperatorSeen = (operatorsOf ts).map some := by
  induction ts with
  | nil => rfl
  | cons t ts ih =>
    rw [places, operatorsOf, List.filterMap_cons, List.filter_cons]
    by_cases hk : t.kind ∈ operatorKinds
    · have hseen : seen? t = some (some t) := if_pos hk
      have hcounts : isOperatorSeen (some t) = true := by simpa [isOperatorSeen] using hk
      rw [hseen, if_pos (by simpa using hk), List.map_cons, ← operatorsOf, ← ih, ← places]
      exact List.filter_cons_of_pos hcounts
    · -- Whatever is seen of another token does not count.
      have hcounts : ∀ m ∈ seen? t, isOperatorSeen m = false := by
        intro m hm
        rw [seen?, if_neg hk] at hm
        split at hm
        · cases hm
        · split at hm
          · cases hm
            rfl
          · cases hm
            simpa [isOperatorSeen] using hk
      rw [if_neg (by simpa using hk), ← operatorsOf, ← ih, ← places]
      cases hseen : seen? t with
      | none => rfl
      | some m =>
        exact List.filter_cons_of_neg (by rw [hcounts m hseen]; exact Bool.false_ne_true)

theorem kind_soleToken_notMem {w : Text} (hw : isName w) : (soleToken w).kind ∉ operatorKinds := by
  intro hk
  have htable : ∀ k ∈ operatorKinds, crossGl.Spelt k (fun x => !isName x) := by decide +kernel
  have hwhole := whole_name hw
  have hlexes : crossGl.Lexes (soleToken w) :=
    ⟨w, hwhole.text, (Spells.single hwhole (apart_none w)).tokenize regular⟩
  obtain ⟨x, hx, hname⟩ := hlexes.exists_text (htable _ hk)
  obtain rfl : w = x := Option.some.inj (hwhole.text.symm.trans hx)
  simp [hw] at hname

theorem seen?_of_name {t : Token} {w : Text} (hk : t.kind ∉ operatorKinds) (ht : t.text = some w)
    (hw : isName w) : seen? t = if w ∈ unseen then none else some none := by
  rw [seen?, if_neg hk, ht, Option.any_some, Option.any_some, hw, if_pos rfl]
  simp

theorem seen?_soleToken {w : Text} (hw : isName w) :
    seen? (soleToken w) = if w ∈ unseen then none else some none :=
  seen?_of_name (kind_soleToken_notMem hw) (whole_name hw).text hw

theorem seen?_of_mem_nameKinds {t : Token} {w : Text} (hk : t.kind ∈ nameKinds)
    (ht : t.text = some w) (hw : isName w) : seen? t = if w ∈ unseen then none else some none := by
  have hkinds : ∀ k ∈ nameKinds, k ∉ operatorKinds := by decide
  exact seen?_of_name (hkinds _ hk) ht hw

theorem count_operator {t : Token} (hk : t.kind ∈ operatorKinds) : operatorView.count [t] = 1 := by
  have hseen : seen? t = some (some t) := if_pos hk
  simp [View.count, View.marks, operatorView, isOperatorSeen, hseen, hk]

theorem discerns_operators : operatorView.Discerns linkOperators where
  name t w hk ht hw := (seen?_soleToken hw).trans (seen?_of_mem_nameKinds hk ht hw).symm
  sign t hk := by
    have hsigns : ∀ k ∈ [TokenKind.plus, .minus], k ∈ operatorKinds := by decide
    exact count_operator (hsigns _ hk)
  link t hk hn := by
    refine ⟨hk, count_operator (List.mem_append_left _ hk), ?_⟩
    have hlabels : ∀ k ∈ linkOperators, isName k.label ∧ k.label ∉ unseen := by decide
    obtain ⟨hname, hseen⟩ := hlabels _ hk
    have hlabel : seen? ⟨.identifier, some t.kind.label⟩ = some none := by
      rw [seen?_of_mem_nameKinds (show TokenKind.identifier ∈ nameKinds by decide) rfl hname,
        if_neg hseen]
    simp [View.count, View.marks, operatorView, isOperatorSeen, hlabel]

/-! ## §3 Words of a scope -/

/-- A pair of a type and a name, as a stage keeps its variables. -/
def IsNamedPair (v : Tree) : Prop :=
  ∃ (vtype : Tree) (name : Text), v = .tuple [vtype, .text name] ∧ vtype.isKey ∧ isName name

/-- The scope is outside all stages, or the variables of its stage have names. -/
def IsNamed (sc : Scope) : Prop :=
  sc.owner = .absent ∨ ∃ (items : SectionItems) (k : NodeKind), sc.owner = items.node k ∧
    (∀ v ∈ items.inputs, IsNamedPair v) ∧ ∀ v ∈ items.outputs, IsNamedPair v

variable {sc : Scope}

theorem isName_of_mem_variableNames {vs : List Tree} (h : ∀ v ∈ vs, IsNamedPair v) {w : Text}
    (hw : w ∈ variableNames vs) : isName w := by
  obtain ⟨v, hv, hname⟩ := List.mem_filterMap.1 hw
  obtain ⟨vtype, name, rfl, -, hisName⟩ := h v hv
  cases hname
  exact hisName

/-- The structures of a stage. -/
def structures : List Text := ["input", "output"]

/-- A variable of a stage has its own name, or it is a member of a structure. -/
theorem memberOf_cases {struct : Text} (hstruct : struct ∈ structures) (w : Text) :
    sc.memberOf struct (.text w) = .text w ∨
      ∃ p ∈ structures, sc.memberOf struct (.text w) = .text (p ++ '.' :: w) := by
  by_cases hd : sc.dialect.hasStageStructs
  · exact .inr ⟨struct, hstruct, memberOf_text hd struct w⟩
  · rw [Scope.memberOf, if_neg hd]
    exact .inl rfl

/-- What is written for a word: the name that the dialect has for it, or, where it names a variable
of the stage, the word itself or a member of a structure. -/
theorem word_cases (hsc : IsNamed sc) (w : Text) :
    sc.word (.text w) = .ok (.text (sc.dialect.renamed w)) ∨
      isName w ∧ ∃ x, sc.word (.text w) = .ok x ∧
        (x = .text w ∨ ∃ p ∈ structures, x = .text (p ++ '.' :: w)) := by
  rcases hsc with howner | ⟨items, k, howner, hins, houts⟩
  · left
    rw [Scope.word, howner]
    exact Dialect.mapWord_text sc.dialect w
  · have hpair : ∀ {vs : List Tree}, (∀ v ∈ vs, IsNamedPair v) → ∀ v ∈ vs, IsPair v := by
      intro vs hvs v hv
      obtain ⟨vtype, name, rfl, -⟩ := hvs v hv
      exact ⟨vtype, .text name, rfl⟩
    have hset : (items.node k).isSet := rfl
    have hi := variableIn_list (f := .inputs) hset rfl (hpair hins) w
    have ho := variableIn_list (f := .outputs) hset rfl (hpair houts) w
    rw [Scope.word, howner, hi]
    -- Inputs are looked up before outputs.
    by_cases hin : w ∈ variableNames items.inputs
    · right
      rw [if_pos hin]
      exact ⟨isName_of_mem_variableNames hins hin, _, rfl, memberOf_cases (by decide) w⟩
    · rw [if_neg hin]
      show (variableIn (items.node k) .outputs (.text w) >>= _) = _ ∨ _ ∧ ∃ x, (_ >>= _) = _ ∧ _
      rw [ho]
      by_cases hout : w ∈ variableNames items.outputs
      · right
        rw [if_pos hout]
        exact ⟨isName_of_mem_variableNames houts hout, _, rfl, memberOf_cases (by decide) w⟩
      · left
        rw [if_neg hout]
        exact Dialect.mapWord_text sc.dialect w

/-- What is called has the name that the dialect has for it, or it is written like any word. -/
theorem callName_cases (w : Text) :
    sc.callName (.text w) = .ok (.text (sc.dialect.renamed w)) ∨
      sc.callName (.text w) = sc.word (.text w) := by
  rw [Scope.callName]
  cases htable : sc.dialect.words? with
  | none => exact .inr rfl
  | some table =>
    have hfind : (Tree.text w).find table = .ok (table.lookup w) := rfl
    dsimp only
    rw [hfind]
    cases hlookup : table.lookup w with
    | none => exact .inr rfl
    | some r =>
      left
      rw [Dialect.renamed, htable, Option.getD_some, hlookup]
      rfl

/-- A name that the dialect has for a word looks like the word. -/
theorem writesWord_renamed (d : Dialect) {t : Token} {w : Text} (hk : t.kind ∈ nameKinds)
    (ht : t.text = some w) (hw : isName w) : WritesWord operatorView t (d.renamed w) := by
  have htable : ∀ d ∈ [Dialect.hlsl, .metal, .glsl], ∀ p ∈ d.words?.getD [],
      p.1 ∉ unseen ∧ p.2 ∉ unseen := by
    decide +kernel
  have hunseen : d.renamed w ∈ unseen ↔ w ∈ unseen := by
    rcases d.renamed_cases w with h | h
    · rw [h]
    · obtain ⟨hword, hrenamed⟩ := htable d d.mem_dialects _ h
      exact iff_of_false hrenamed hword
  have hname := isName_renamed d hw
  apply writesWord_of_isName hname
  show seen? (soleToken (d.renamed w)) = seen? t
  rw [seen?_soleToken hname, seen?_of_mem_nameKinds hk ht hw]
  simp only [hunseen]

/-- A member of a structure looks like the word. -/
theorem writesWord_member {p w : Text} {t : Token} (hp : p ∈ structures) (hk : t.kind ∈ nameKinds)
    (ht : t.text = some w) (hw : isName w) : WritesWord operatorView t (p ++ '.' :: w) := by
  have htable : ∀ p ∈ structures, isName p ∧ p ∈ unseen := by decide
  obtain ⟨hname, hunseen⟩ := htable p hp
  have hdot : crossGl.Lexes ⟨.dot, some "."⟩ := by decide
  have hpoint : crossGl.Whole ⟨.dot, some "."⟩ "." := whole_of_fixed hdot (by decide)
  obtain ⟨c, v, rfl, hc⟩ := exists_of_isName hw
  obtain ⟨b, u, hpu, hb⟩ := exists_of_isName hname
  refine ⟨⟨b, u ++ '.' :: c :: v, by rw [hpu]; rfl, hb⟩,
    [soleToken p, ⟨.dot, some "."⟩, soleToken (c :: v)], fun next hnext => ?_, ?_⟩
  · have hlast : crossGl.Spells [soleToken (c :: v)] (c :: v) next :=
      .single (whole_name hw) (apart_nameBreak hw hnext)
    have hmember : crossGl.Spells [⟨.dot, some "."⟩, soleToken (c :: v)] ("." ++ c :: v) next :=
      .token hpoint (apart_symbol_name (by simp) (by decide) hc) hlast
    exact .token (whole_name hname) (apart_nameBreak hname rfl) hmember
  -- The structure and the point are not seen, so only the word is left.
  · have hstruct : seen? (soleToken p) = none := by rw [seen?_soleToken hname, if_pos hunseen]
    have hpoint : seen? ⟨.dot, some "."⟩ = none := by decide
    have hlast := (seen?_soleToken hw).trans (seen?_of_mem_nameKinds hk ht hw).symm
    show [soleToken p, ⟨.dot, some "."⟩, soleToken (c :: v)].filterMap seen? = [t].filterMap seen?
    simp only [List.filterMap_cons, hstruct, hpoint, hlast]

/-- The text of a number is no name. -/
theorem not_isName_of_number {t : Token} {w : Text} (h : crossGl.Lexes t)
    (hk : t.kind ∈ [.number, .decimal]) (hw : t.text = some w) : ¬isName w := by
  intro hname
  obtain ⟨v, hv, -, r, ⟨hr, hlength, htoken⟩, -⟩ := h.fits
  obtain rfl : w = v := Option.some.inj (hw.symm.trans hv)
  have hkeywords : ∀ q ∈ crossGlKeywords, q.2 ∉ [.number, .decimal] := by decide
  have hrules : ∀ r ∈ crossGlRules, r.kind ∈ [TokenKind.number, .decimal] →
      r.pattern = .number ∨ r.pattern = .decimal := by
    decide
  obtain ⟨d, s, rfl, hd⟩ := exists_of_isName hname
  have hnumeric := (not_isNumeric_of_isNameStart hd).1
  obtain ⟨k, p⟩ := r
  -- A keyword is no number, and a row for numbers finds no name.
  by_cases hident : k = .identifier
  · subst hident
    rcases keyword_of_token? htoken with hkind | hkeyword
    · rw [hkind] at hk
      exact absurd hk (by decide)
    · exact hkeywords _ hkeyword hk
  · rw [(kind_of_token? htoken).1 hident] at hk
    rcases hrules _ hr hk with rfl | rfl
    · simpa [hnumeric] using number_covers hlength
    · simpa [hnumeric] using decimal_covers hlength

/-- A scope whose variables have names writes words as words. -/
theorem wording_operators (hsc : IsNamed sc) : Wording sc operatorView := by
  have hword : ∀ (t : Token) (w : Text), t.kind ∈ nameKinds → t.text = some w → isName w →
      ∃ x, sc.word (.text w) = .ok (.text x) ∧ WritesWord operatorView t x := by
    intro t w hk ht hw
    rcases word_cases hsc w with h | ⟨-, x, h, rfl | ⟨p, hp, rfl⟩⟩
    · exact ⟨_, h, writesWord_renamed sc.dialect hk ht hw⟩
    · refine ⟨w, h, writesWord_of_isName hw ?_⟩
      exact (seen?_soleToken hw).trans (seen?_of_mem_nameKinds hk ht hw).symm
    · exact ⟨_, h, writesWord_member hp hk ht hw⟩
  refine ⟨hword, fun t w hk ht hw => ?_, fun t w ht hk hw => ?_⟩
  · rcases callName_cases w with h | h
    · exact ⟨_, h, writesWord_renamed sc.dialect hk ht hw⟩
    · rw [h]
      exact hword t w hk ht hw
  · rcases word_cases hsc w with h | ⟨hname, -⟩
    · rw [h, renamed_number sc.dialect ht hk hw]
    · exact absurd hname (not_isName_of_number ht hk hw)

/-! ## §4 The operators of an expression -/

/-- The operators that have no symbol, and are written as labels. -/
def labelledOperators : List TokenKind :=
  [.logicalAnd, .logicalOr, .assignAnd, .assignOr, .assignXor, .assignMod, .shiftRight, .shiftLeft,
   .assignShiftRight]

namespace Phrase

variable {r : Rank}

/-- A phrase is clear if it has no operator without a symbol, and its signs are apart where they
have to be. -/
theorem clear_iff {tight : Prop} (p : Phrase linkOperators r) :
    p.Clear tight ↔ (∀ t ∈ p.tokens, t.kind ∉ labelledOperators) ∧ (tight → p.SignsApart) := by
  have hlinks : ∀ k ∈ linkOperators, k ∈ writtenOperators ↔ k ∉ labelledOperators := by decide
  have hparens : .leftParen ∉ labelledOperators ∧ .rightParen ∉ labelledOperators := by decide
  induction p with
  | alone _ ih | opening _ ih | settled _ ih | term _ ih | factor _ ih | unsigned _ ih
  | argument _ ih => exact ih
  -- Only links may be written as words.
  | linked h op l ihh ihl | extended h op l ihh ihl =>
    simp only [Clear, tokens, SignsApart, ihh, ihl, hlinks _ op.2, List.forall_mem_append,
      List.forall_mem_cons, imp_and]
    exact (and_congr_right' and_assoc.symm).trans and_and_and_comm
  | added h op l ihh ihl | scaled h op l ihh ihl | further h op l ihh ihl =>
    have hop : op.1.kind ∉ labelledOperators := op.notMem (by decide)
    simp only [Clear, tokens, SignsApart, ihh, ihl, List.forall_mem_append, List.forall_mem_cons,
      imp_and, hop, not_false_eq_true, true_and]
    exact and_and_and_comm
  | choice a mark yes colon no iha ihy ihn =>
    have hmark : mark.1.kind ∉ labelledOperators := mark.notMem (by decide)
    have hcolon : colon.1.kind ∉ labelledOperators := colon.notMem (by decide)
    simp only [Clear, tokens, SignsApart, iha, ihy, ihn, List.forall_mem_append,
      List.forall_mem_cons, imp_and, hmark, hcolon, not_false_eq_true, true_and]
    exact (and_congr_right' and_and_and_comm).trans and_and_and_comm
  | sign s u ih =>
    have hs : s.1.kind ∉ labelledOperators := s.notMem (by decide)
    simp only [Clear, tokens, SignsApart, ih, List.forall_mem_cons, imp_and, hs, not_false_eq_true,
      true_and]
    exact and_left_comm
  | group opens e closes ih =>
    simpa [Clear, tokens, SignsApart, or_imp, forall_and, hparens] using ih
  | call n opens args closes ih =>
    have hn : n.1.kind ∉ labelledOperators := n.notMem (by decide)
    simpa [Clear, tokens, SignsApart, or_imp, forall_and, hn, hparens] using ih
  | number n | name n =>
    have hn : n.1.kind ∉ labelledOperators := n.notMem (by decide)
    simp [Clear, tokens, SignsApart, hn]
  | emptyCall n opens closes =>
    have hn : n.1.kind ∉ labelledOperators := n.notMem (by decide)
    simp [Clear, tokens, SignsApart, hn, hparens]
  | member n m more =>
    have hn : n.1.kind ∉ labelledOperators := n.notMem (by decide)
    have hkinds : ∀ k ∈ [TokenKind.dot, .identifier], k ∉ labelledOperators := by decide
    simp only [Clear, tokens, SignsApart, List.forall_mem_cons, true_iff]
    exact ⟨⟨hn, fun t ht => hkinds _ (Member.kind_mem ht)⟩, fun _ => trivial⟩

/-- Parentheses that only group are no operators. -/
theorem operatorsOf_bare (p : Phrase linkOperators r) :
    operatorsOf p.bare = operatorsOf p.tokens := by
  have hparens : .leftParen ∉ operatorKinds ∧ .rightParen ∉ operatorKinds := by decide
  unfold operatorsOf
  induction p <;> simp_all [bare, tokens, shown, List.filter_cons]

end Phrase

theorem operatorsOf_uncommented (w : List Token) : operatorsOf (uncommented w) = operatorsOf w := by
  have hkinds : ∀ k ∈ operatorKinds, k.isComment = false := by decide
  rw [operatorsOf, uncommented, List.filter_filter, operatorsOf]
  apply List.filter_congr
  intro t _
  by_cases hk : t.kind ∈ operatorKinds
  · simp [hk, hkinds _ hk]
  · simp [hk]

/-- Which operators come out as they were read.  Whatever is read as an expression is written in
every dialect and in every scope, and the text is cut into tokens again.  The operators among them
are those that were read just if none of these has no symbol, and no sign is directly followed by
the same sign in a dialect that leaves no gap between them.  Then they also stand at the same
places. -/
theorem operators_written_iff {source : Text} {ts : List Token} {t : Tree} {c : Cursor}
    (htokens : crossGl.tokenize source = .ok ts) (hread : expression ⟨0, ts⟩ = .ok t c)
    {sc : Scope} (hsc : IsNamed sc) :
    ∃ (e : Phrase linkOperators .expr) (w us : List Token) (text : Text),
      ts = w ++ c.rest ∧ uncommented w = e.tokens ∧ e.value = t ∧
      Forward.expression sc t = .ok text ∧ crossGl.tokenize text = .ok (us ++ [ending]) ∧
      (operatorsOf us = operatorsOf w ↔
        (∀ t ∈ w, t.kind ∉ labelledOperators) ∧ (sc.dialect.signGap = [] → e.SignsApart)) ∧
      (operatorsOf us = operatorsOf w → places us = places e.bare) := by
  obtain ⟨e, w, hts, hw, rfl⟩ := exists_phrase_of_read hread
  -- Every token of the phrase was cut from the source, and is no comment and not its end.
  have hcut : ∀ t ∈ e.bare, Cut t := by
    intro t ht
    have hmem : t ∈ uncommented w := hw ▸ e.bare_sublist.subset ht
    have hend := e.kind_ne_endOfInput (by decide) t (hw ▸ hmem)
    have hcomment := commentFree_uncommented w t hmem
    have hsource : t ∈ ts := by
      rw [hts]
      exact List.mem_append_left _ (List.mem_filter.1 hmem).1
    rcases cut_of_tokenize htokens hsource with rfl | h | h
    · exact absurd rfl hend
    · rw [hcomment] at h
      cases h
    · exact h
  obtain ⟨text, htext, -, ⟨us, hspells, hkeeps⟩, -⟩ :=
    e.crams (wording_operators hsc) discerns_operators hcut (by decide)
  have hoperators : operatorsOf us = operatorsOf w ↔ e.Clear (sc.dialect.signGap = []) := by
    have hcounted : (places us).filter isOperatorSeen = (places e.bare).filter isOperatorSeen ↔
        e.Clear (sc.dialect.signGap = []) := hkeeps.iff_counted
    rw [filter_places, filter_places, List.map_inj_right fun _ _ => Option.some.inj] at hcounted
    rw [← hcounted, ← operatorsOf_uncommented w, hw, ← e.operatorsOf_bare]
  -- Comments hold no operators, so `w` may stand for the tokens of the phrase.
  have hlabelled : (∀ t ∈ e.tokens, t.kind ∉ labelledOperators) ↔
      ∀ t ∈ w, t.kind ∉ labelledOperators := by
    have hkinds : ∀ k ∈ labelledOperators, k.isComment = false := by decide
    rw [← hw]
    refine ⟨fun h t ht hk => h t (List.mem_filter.2 ⟨ht, ?_⟩) hk, fun h t ht => ?_⟩
    · rw [hkinds _ hk]
      rfl
    · exact h t (List.mem_filter.1 ht).1
  refine ⟨e, w, us, text, hts, hw, rfl, htext, (hspells none rfl).tokenize regular, ?_, fun h => ?_⟩
  · rw [hoperators, e.clear_iff, hlabelled]
  · exact hkeeps.same (hoperators.1 h)

/-- The tokens of `a <= -(-b) * f(2.0)`. -/
def comparedTokens : List Token :=
  [⟨.identifier, some "a"⟩, ⟨.lessEqual, some "<="⟩, ⟨.minus, some "-"⟩, ⟨.leftParen, some "("⟩,
   ⟨.minus, some "-"⟩, ⟨.identifier, some "b"⟩, ⟨.rightParen, some ")"⟩, ⟨.multiply, some "*"⟩,
   ⟨.identifier, some "f"⟩, ⟨.leftParen, some "("⟩, ⟨.decimal, some "2.0"⟩, ⟨.rightParen, some ")"⟩]

/-- Its tree. -/
def comparedTree : Tree :=
  Tree.binary (Tree.var (.text []) (.text "a")) (.text "LESS_EQUAL")
    (Tree.binary
      (Tree.unary (.text "MINUS") (Tree.unary (.text "MINUS") (Tree.var (.text []) (.text "b"))))
      (.text "MULTIPLY") (Tree.call (.text "f") [.text "2.0"]))

/-- A section with the input `a`. -/
def comparedItems : SectionItems := { inputs := [.tuple [.text "float", .text "a"]] }

/-- The scope of a vertex stage in HLSL. -/
def comparedScope : Scope :=
  ⟨.hlsl, { vertex := comparedItems.node .vertexSection }, .text "vertex"⟩

/-- All four operators are read back from HLSL. -/
theorem operators_written_compared :
    crossGl.tokenize "a <= -(-b) * f(2.0)" = .ok (comparedTokens ++ [ending]) ∧
    expression ⟨0, comparedTokens ++ [ending]⟩ = .ok comparedTree ⟨12, [ending]⟩ ∧
    IsNamed comparedScope ∧
    ∃ us text, Forward.expression comparedScope comparedTree = .ok text ∧
      crossGl.tokenize text = .ok (us ++ [ending]) ∧
      operatorsOf us = operatorsOf comparedTokens := by
  have htokens : crossGl.tokenize "a <= -(-b) * f(2.0)" = .ok (comparedTokens ++ [ending]) := by
    decide +kernel
  have hread : expression ⟨0, comparedTokens ++ [ending]⟩ = .ok comparedTree ⟨12, [ending]⟩ := rfl
  have hnamed : IsNamed comparedScope := by
    refine .inr ⟨comparedItems, .vertexSection, rfl, ?_, by simp [comparedItems]⟩
    simp only [comparedItems, List.forall_mem_singleton]
    exact ⟨.text "float", "a", rfl, rfl, rfl⟩
  refine ⟨htokens, hread, hnamed, ?_⟩
  obtain ⟨e, w, us, text, hts, -, -, htext, hus, hiff, -⟩ :=
    operators_written_iff htokens hread hnamed
  obtain rfl : comparedTokens = w := List.append_cancel_right hts
  refine ⟨us, text, htext, hus, hiff.2 ⟨by decide, fun hgap => ?_⟩⟩
  exact absurd hgap (by decide)

/-- The expression `a && b`. -/
def conjunctionTree : Tree :=
  Tree.binary (Tree.var (.text []) (.text "a")) (.text "LOGICAL_AND")
    (Tree.var (.text []) (.text "b"))

/-- The expression `-(-a)`. -/
def negatedTree : Tree :=
  Tree.unary (.text "MINUS") (Tree.unary (.text "MINUS") (Tree.var (.text []) (.text "a")))

/-- In every dialect `&&` is written as a word, and in Metal and GLSL the two signs of `-(-a)` are
read back as a decrement. -/
theorem operators_lost :
    expression ⟨0, [⟨.identifier, some "a"⟩, ⟨.logicalAnd, some "&&"⟩, ⟨.identifier, some "b"⟩,
      ending]⟩ = .ok conjunctionTree ⟨3, [ending]⟩ ∧
    (∀ d, Forward.expression ⟨d, {}, .absent⟩ conjunctionTree = .ok " a LOGICAL_AND  b") ∧
    crossGl.tokenize " a LOGICAL_AND  b"
      = .ok [⟨.identifier, some "a"⟩, ⟨.identifier, some "LOGICAL_AND"⟩, ⟨.identifier, some "b"⟩,
          ending] ∧
    expression ⟨0, [⟨.minus, some "-"⟩, ⟨.leftParen, some "("⟩, ⟨.minus, some "-"⟩,
      ⟨.identifier, some "a"⟩, ⟨.rightParen, some ")"⟩, ending]⟩
      = .ok negatedTree ⟨5, [ending]⟩ ∧
    (∀ d ∈ [Dialect.metal, .glsl],
      Forward.expression ⟨d, {}, .absent⟩ negatedTree = .ok "-- a") ∧
    crossGl.tokenize "-- a" = .ok [⟨.decrement, some "--"⟩, ⟨.identifier, some "a"⟩, ending] := by
  -- The one operator has no symbol; the other is written without a gap.
  have hand : Operator.symbol (Phrase.label ⟨.logicalAnd, some "&&"⟩)
      = .ok (.text "LOGICAL_AND") := rfl
  have hminus : Operator.symbol (Phrase.label ⟨.minus, some "-"⟩) = .ok (.text "-") := rfl
  refine ⟨rfl, fun d => ?_, by decide +kernel, rfl, fun d hd => ?_, by decide +kernel⟩
  · have R := rendering_renamed d {}
    have hnames : d.renamed "a" = "a" ∧ d.renamed "b" = "b" := by cases d <;> decide
    have hwritten := written_binary (written_name R "a") (written_name R "b") hand
    rw [hnames.1, hnames.2] at hwritten
    exact hwritten
  · have R := rendering_renamed d {}
    have htable : ∀ d ∈ [Dialect.metal, .glsl], d.renamed "a" = "a" ∧ d.signGap = [] := by decide
    have hname := htable d hd
    have hwritten := written_unary (written_unary (written_name R "a") hminus) hminus
    rw [hname.1, show (Scope.mk d {} .absent).dialect.signGap = [] from hname.2] at hwritten
    exact hwritten

end CrossGl

end ShaderBridge
