import ShaderBridge.Proofs.CrossGl.Phrase

/-!
# The expressions that are read

The expression grammar reads exactly the phrases: what it reads is a phrase and it gives the tree
of that phrase, and it reads every phrase in front of anything that cannot belong to it.  The tree
of a list of tokens is therefore unique.

- `reads_phrase`: every phrase is read, up to a token of one of the kinds in `follow`.
- `finds_phrase`: what is read is a phrase.
-/

namespace ShaderBridge.CrossGl

open ShaderBridge.Parser Ladder

variable {links : List TokenKind} {inner : Parser Tree}

/-! ## §1 What may follow -/

/-- What extends an operand. -/
def operandStop : List TokenKind := [.dot, .leftParen]

/-- What extends a product. -/
def productStop : List TokenKind := [.multiply, .divide] ++ operandStop

/-- What extends a sum. -/
def sumStop : List TokenKind := [.plus, .minus] ++ productStop

/-- What extends an expression. -/
def follow : List TokenKind := linkOperators ++ .question :: sumStop

theorem comma_notMem_follow : .comma ∉ follow := by decide

theorem rightParen_notMem_follow : .rightParen ∉ follow := by decide

theorem colon_notMem_follow : .colon ∉ follow := by decide

/-- A link is an operator of the topmost rung and extends no sum. -/
theorem link_role : ∀ k ∈ linkOperators,
    k ∈ outerOperators ∧ k ∉ .question :: sumStop ∧ k.isComment = false := by
  decide

/-! ## §2 Phrases are read -/

/-- What goes on behind a name. -/
def afterName (expr : Parser Tree) (name : Tree) : Parser Tree := do
  match ← kind with
  | .leftParen => return Tree.call name (← strictArguments tv expr)
  | .dot => memberChain tv name
  | _ => return Tree.var (.text []) name

/-- A name. -/
def nameText : Parser Tree := do
  if ← isAt valueTypes then takeText tv else expectText tv .identifier

theorem nameOrCallWith_eq : nameOrCallWith inner = nameText >>= afterName inner := by
  funext c
  rw [nameOrCallWith, nameText, isAt_bind, bind_assoc, isAt_bind]
  cases decide (c.kind ∈ valueTypes) <;> rfl

theorem reads_named {w rest : List Token} {t : Tree} (n : TokenOf nameKinds)
    (hw : CommentFree (w ++ rest)) (h : Reads (afterName inner (Tree.ofText? n.1.text)) w t rest) :
    Reads (primaryWith inner) (n.1 :: w) t rest := by
  have hname : Reads nameText [n.1] (Tree.ofText? n.1.text) (w ++ rest) := by
    by_cases hk : n.1.kind ∈ valueTypes
    · exact Reads.isAt hk (Reads.takeText _ hw)
    · have hid : n.1.kind = .identifier := by simpa [sectionStarts, hk] using n.2
      exact Reads.isAt_not hk (Reads.expectText hid hw)
  refine Reads.kind ?_
  rw [List.cons_append, firstKind_cons, if_neg (n.kind_ne (by decide)),
    if_neg (by simp [sectionStarts, valueTypes]), if_pos n.2, nameOrCallWith_eq]
  exact Reads.bind (u := [n.1]) hname h

section Inner

variable {n : Nat}
  (hinner : ∀ e : Phrase links .expr, e.tokens.length < n → ReadsUpTo follow inner e.tokens e.value)
  (hfree : ∀ {r} (p : Phrase links r), CommentFree p.tokens)

include hinner hfree

theorem reads_furtherArgument (comma : TokenOf [.comma]) (e : Phrase links .expr)
    (hlen : e.tokens.length < n) :
    ReadsUpTo follow (do let _ ← take .comments; inner) (comma.1 :: e.tokens) e.value := by
  intro rest hrest hstop
  exact Reads.bind (u := [comma.1]) (Reads.take _ (commentFree_append.2 ⟨hfree e, hrest⟩))
    (hinner e hlen rest hrest hstop)

theorem reads_furtherArguments : (args : Phrase links .arguments) → args.tokens.length < n →
    (comma : TokenOf [.comma]) →
    ReadsUpTo (.comma :: follow) (many (isAt [.comma]) (do let _ ← take .comments; inner))
      (comma.1 :: args.tokens) args.value
  | .argument e, hlen, comma => by
    intro rest hrest hstop
    obtain ⟨hcomma, hstop⟩ := not_or.1 (mt List.mem_cons.2 hstop)
    have hround := reads_furtherArgument hinner hfree comma e hlen rest hrest hstop
    have hend : Reads (many (isAt [.comma]) (do let _ ← take .comments; inner)) [] [] rest :=
      Reads.many_stop (by simp [hcomma])
    simpa [Phrase.tokens, Phrase.value] using Reads.many_step (by simp) (by simp) hround hend
  | .further e comma' args, hlen, comma => by
    intro rest hrest hstop
    simp only [Phrase.tokens, List.length_append, List.length_cons] at hlen
    have hargs := reads_furtherArguments args (by omega) comma' rest hrest hstop
    have hround := reads_furtherArgument hinner hfree comma e (by omega)
      (comma'.1 :: args.tokens ++ rest) (by simp [hfree, hrest]) (by simp [comma_notMem_follow])
    exact Reads.many_step (u := comma.1 :: e.tokens) (by simp) (by simp) hround hargs

theorem reads_argumentList : (args : Phrase links .arguments) → args.tokens.length < n →
    ReadsUpTo (.comma :: follow) (sepBy .comments .comma inner) args.tokens args.value
  | .argument e, hlen => by
    intro rest hrest hstop
    obtain ⟨hcomma, hstop⟩ := not_or.1 (mt List.mem_cons.2 hstop)
    have hend : Reads (many (isAt [.comma]) (do let _ ← take .comments; inner)) [] [] rest :=
      Reads.many_stop (by simp [hcomma])
    simpa [Phrase.tokens, Phrase.value] using
      Reads.sepBy (u := e.tokens) (by simpa using hinner e hlen rest hrest hstop) hend
  | .further e comma args, hlen => by
    intro rest hrest hstop
    simp only [Phrase.tokens, List.length_append, List.length_cons] at hlen
    refine Reads.sepBy ?_
      (reads_furtherArguments hinner hfree args (by omega) comma rest hrest hstop)
    exact hinner e (by omega) _ (by simp [hfree, hrest]) (by simp [comma_notMem_follow])

/-- An operand is read up to a point or a parenthesis. -/
theorem reads_operand (p : Phrase links .operand) (hlen : p.tokens.length ≤ n) :
    ReadsUpTo operandStop (primaryWith inner) p.tokens p.value := by
  intro rest hrest hstop
  cases p with
  | group opens e closes =>
    simp only [Phrase.tokens, List.length_append, List.length_cons] at hlen
    have he := hinner e (by omega) (closes.1 :: rest) (by simp [hrest])
      (by simp [rightParen_notMem_follow])
    refine Reads.kind ?_
    rw [Phrase.tokens, List.cons_append, firstKind_cons, if_pos opens.kind_eq]
    exact reads_parenthesized opens closes (hfree e) hrest he
  | number t =>
    refine Reads.kind ?_
    rw [Phrase.tokens, List.cons_append, firstKind_cons, if_neg (by simp), if_pos t.2]
    exact Reads.takeText _ hrest
  -- Neither a call nor a member follows, so the name stands alone.
  | name t =>
    refine reads_named t (by simpa using hrest) (Reads.kind ?_)
    rw [List.nil_append]
    split
    · next h => simp [h, operandStop] at hstop
    · next h => simp [h, operandStop] at hstop
    · exact Reads.pure
  | emptyCall t opens closes =>
    refine reads_named t (by simp [hrest]) (Reads.kind ?_)
    rw [List.cons_append, firstKind_cons, opens.kind_eq]
    exact (reads_noArguments opens closes hrest).bind_pure fun _ => rfl
  | call t opens args closes =>
    simp only [Phrase.tokens, List.length_append, List.length_cons] at hlen
    have hargs := reads_argumentList hinner hfree args (by omega) (closes.1 :: rest)
      (by simp [hrest]) (by simp [rightParen_notMem_follow])
    refine reads_named t (by simp [hfree, hrest]) (Reads.kind ?_)
    rw [List.cons_append, firstKind_cons, opens.kind_eq]
    have hfirst : firstKind (args.tokens ++ closes.1 :: rest) ≠ .rightParen := fun h =>
      absurd (h ▸ args.firstKind_mem _) (by decide)
    exact (reads_arguments opens closes (hfree args) hrest hfirst hargs).bind_pure fun _ => rfl
  | member t m more =>
    have hdot : firstKind rest ≠ .dot := fun h => hstop (by simp [h, operandStop])
    refine reads_named t (by simp [Member.commentFree, hrest]) (Reads.kind ?_)
    rw [Member.tokens_cons, List.cons_append, firstKind_cons, m.1.kind_eq]
    exact reads_memberChain _ m more hrest hdot

/-- An operation under the label of its operator. -/
abbrev labelled : Tree → Token → Tree → Tree := OperatorForm.byLabel.operation

/-- How the phrases of a rank are read. -/
def Accepted (inner : Parser Tree) : {r : Rank} → Phrase links r → Prop
  | .operand, p => ReadsUpTo operandStop (primaryWith inner) p.tokens p.value
  | .signed, p => ReadsUpTo operandStop (unaryWith inner) p.tokens p.value
  | .product, p =>
    Leads labelled [.multiply, .divide] (unaryWith inner) p.tokens p.value operandStop
  | .sum, p => Leads labelled [.plus, .minus] (productWith inner) p.tokens p.value productStop
  | .last, p => ReadsUpTo follow (choiceWith inner) p.tokens p.value
  | .head, p =>
    Leads labelled outerOperators (choiceWith inner) p.tokens p.value (.question :: sumStop)
  | .expr, p => Leads labelled outerOperators (choiceWith inner) p.tokens p.value follow
  | .arguments, _ => True

omit hinner hfree in
theorem reads_settled (a : Phrase links .sum) (ha : Accepted inner a) :
    ReadsUpTo (.question :: sumStop) (choiceWith inner) a.tokens a.value := by
  intro rest hrest hstop
  obtain ⟨hmark, hsum⟩ := not_or.1 (mt List.mem_cons.2 hstop)
  have hread : Reads (sumWith inner) a.tokens a.value rest := ha.readsUpTo rest hrest hsum
  rw [← List.append_nil a.tokens]
  exact Reads.bind (by simpa using hread) (reads_no_choice a.value hmark)

theorem reads_chosen (a : Phrase links .sum) (mark : TokenOf [.question])
    (yes : Phrase links .expr) (colon : TokenOf [.colon]) (no : Phrase links .expr)
    (hlen : (Phrase.choice a mark yes colon no).tokens.length ≤ n) (ha : Accepted inner a) :
    ReadsUpTo follow (choiceWith inner) (Phrase.choice a mark yes colon no).tokens
      (Phrase.choice a mark yes colon no).value := by
  intro rest hrest hstop
  simp only [Phrase.tokens, List.length_append, List.length_cons] at hlen
  have hyes := hinner yes (by omega) (colon.1 :: (no.tokens ++ rest)) (by simp [hfree, hrest])
    (by simp [colon_notMem_follow])
  have hno := hinner no (by omega) rest hrest hstop
  refine Reads.bind ?_ (reads_choice mark colon (hfree yes) (hfree no) hrest hyes hno)
  exact ha.readsUpTo _ (by simp [hfree, hrest]) (by simp [productStop, operandStop])

/-- Every phrase is read as its rank is, where nested expressions are. -/
theorem accepted (hlinks : ∀ k ∈ links, k ∈ linkOperators) {r : Rank} (p : Phrase links r)
    (hlen : p.tokens.length ≤ n) : Accepted inner p := by
  -- Along the derivation, with the bound on the tokens passed to the parts.
  induction p with
  | alone l ih => exact Leads.first (ih hlen)
  | linked h op l ihh ihl =>
    simp only [Phrase.tokens, List.length_append, List.length_cons] at hlen
    obtain ⟨hop, hstop, hcomment⟩ := link_role _ (hlinks _ op.2)
    exact (ihh (by omega)).next op.1 hop hstop (commentFree_cons.2 ⟨hcomment, hfree l⟩)
      (ihl (by omega))
  | opening a ih => exact Leads.first (reads_settled a (ih hlen))
  | extended h op a ihh iha =>
    simp only [Phrase.tokens, List.length_append, List.length_cons] at hlen
    obtain ⟨hop, hstop, hcomment⟩ := link_role _ (hlinks _ op.2)
    exact (ihh (by omega)).next op.1 hop hstop (commentFree_cons.2 ⟨hcomment, hfree a⟩)
      (reads_settled a (iha (by omega)))
  | settled a ih => exact (reads_settled a (ih hlen)).mono fun _ => List.mem_append_right _
  | choice a mark yes colon no ih =>
    refine reads_chosen hinner hfree a mark yes colon no hlen (ih ?_)
    simp only [Phrase.tokens, List.length_append] at hlen
    omega
  | term m ih => exact Leads.first (ih hlen).readsUpTo
  | added a op m iha ihm =>
    simp only [Phrase.tokens, List.length_append, List.length_cons] at hlen
    exact (iha (by omega)).next op.1 op.2 (by simp [productStop, operandStop]) (by simp [hfree])
      (ihm (by omega)).readsUpTo
  | factor u ih => exact Leads.first (ih hlen)
  | scaled m op u ihm ihu =>
    simp only [Phrase.tokens, List.length_append, List.length_cons] at hlen
    exact (ihm (by omega)).next op.1 op.2 (by simp [operandStop]) (by simp [hfree])
      (ihu (by omega))
  | unsigned o ih =>
    intro rest hrest hstop
    have hstart : ∀ k ∈ Phrase.operandStarts, k ∉ [.plus, .minus] := by decide
    exact reads_unsigned (hstart _ (o.firstKind_operand rest)) (ih hlen rest hrest hstop)
  | sign s u ih =>
    intro rest hrest hstop
    simp only [Phrase.tokens, List.length_cons] at hlen
    exact reads_sign s.2 (commentFree_append.2 ⟨hfree u, hrest⟩) (ih (by omega) rest hrest hstop)
  | group | number | name | emptyCall | call | member => exact reads_operand hinner hfree _ hlen
  | argument | further => trivial

end Inner

/-- Every expression within a bound on its tokens is read within that bound on nesting. -/
theorem reads_phraseAt (hlinks : ∀ k ∈ links, k ∈ linkOperators) (n : Nat)
    (e : Phrase links .expr) (hlen : e.tokens.length < n) :
    ReadsUpTo follow (expressionAt n) e.tokens e.value := by
  have hfree : ∀ {r} (p : Phrase links r), CommentFree p.tokens := fun p =>
    p.commentFree (fun h => absurd (hlinks _ h) (by decide))
      (fun h => absurd (hlinks _ h) (by decide))
  induction n generalizing e with
  | zero => omega
  | succ n ih =>
    have hsub : ∀ k ∈ outerOperators ++ follow, k ∈ follow := by decide
    have haccepted : Accepted (expressionAt n) e :=
      accepted ih hfree hlinks e (by omega)
    exact haccepted.readsUpTo.mono hsub

/-- Every expression is read, up to a token that may extend one. -/
theorem reads_phrase (hlinks : ∀ k ∈ links, k ∈ linkOperators) (e : Phrase links .expr) :
    ReadsUpTo follow expression e.tokens e.value := by
  intro rest hrest hstop
  refine Reads.nested (reads_phraseAt hlinks _ e ?_ rest hrest hstop)
  rw [List.length_append]
  omega

/-! ## §3 What is read is a phrase -/

/-- The tokens and the value are those of a phrase of the rank. -/
def Derives (r : Rank) (w : List Token) (t : r.Value) : Prop :=
  ∃ p : Phrase linkOperators r, p.tokens = w ∧ p.value = t

theorem finds_nameText : Finds nameText fun w t =>
    ∃ n : TokenOf nameKinds, w = [n.1] ∧ t = Tree.ofText? n.1.text := by
  intro c t c' hc h
  rw [nameText, isAt_bind] at h
  by_cases hk : c.kind ∈ valueTypes
  · rw [decide_eq_true hk] at h
    cases h
    obtain ⟨n, hn, hpass⟩ := Passes.slot (K := nameKinds) hc (List.mem_cons_of_mem _ hk) (by decide)
    exact ⟨_, hpass, n, rfl, by rw [hn]⟩
  · rw [decide_eq_false hk] at h
    obtain ⟨n, d, hn, ht⟩ := bind_eq_ok h
    cases ht
    obtain ⟨hid, rfl, rfl⟩ := expect_eq_ok hn
    obtain ⟨n, hn, hpass⟩ :=
      Passes.slot (K := nameKinds) hc (hid ▸ List.mem_cons_self) (by decide)
    exact ⟨_, hpass, n, rfl, by rw [hn]⟩

section Inner

variable (hinner : Finds inner (Derives .expr))

include hinner

theorem finds_argumentList : Finds (sepBy .comments .comma inner) (Derives .arguments) := by
  refine Finds.sepBy (by decide) hinner ?_ ?_
  · rintro _ _ ⟨e, rfl, rfl⟩
    exact ⟨.argument e, rfl, rfl⟩
  · rintro _ _ comma _ _ ⟨e, rfl, rfl⟩ ⟨args, rfl, rfl⟩
    exact ⟨.further e comma args, rfl, rfl⟩

/-- What is read from a name on is an operand. -/
theorem finds_nameOrCall : Finds (nameOrCallWith inner) (Derives .operand) := by
  rw [nameOrCallWith_eq]
  refine Finds.bind finds_nameText ?_
  rintro _ _ ⟨n, rfl, rfl⟩
  refine Finds.kind fun k => ?_
  split
  · refine Finds.bind (U := fun w t => Derives .operand (n.1 :: w) t)
      (finds_arguments
        (I := fun w as => Derives .operand (n.1 :: w) (Tree.call (Tree.ofText? n.1.text) as))
        (finds_argumentList hinner) ?_ ?_) ?_
    · exact fun opens closes => ⟨.emptyCall n opens closes, rfl, rfl⟩
    · rintro opens closes _ _ ⟨args, rfl, rfl⟩
      exact ⟨.call n opens args closes, rfl, rfl⟩
    · exact fun w as hI => Finds.pure (by simpa using hI)
  · refine (finds_memberChain _).mono ?_
    rintro _ _ ⟨m, ms, rfl, rfl⟩
    exact ⟨.member n m ms, rfl, rfl⟩
  · exact Finds.pure ⟨.name n, rfl, rfl⟩

theorem finds_operand : Finds (primaryWith inner) (Derives .operand) := by
  intro c t c' hc h
  rw [primaryWith, kind_bind] at h
  split at h
  · refine finds_parenthesized (I := Derives .operand) hinner ?_ c t c' hc h
    rintro opens closes _ _ ⟨e, rfl, rfl⟩
    exact ⟨.group opens e closes, rfl, rfl⟩
  split at h
  · next hk =>
    cases h
    obtain ⟨n, hn, hpass⟩ := Passes.slot hc hk (by decide)
    exact ⟨_, hpass, .number n, rfl, by rw [← hn]; rfl⟩
  split at h
  · exact finds_nameOrCall hinner c t c' hc h
  · cases h

theorem finds_unary : Finds (unaryWith inner) (Derives .signed) := by
  refine finds_signed (finds_operand hinner) ?_ ?_
  · rintro _ _ ⟨o, rfl, rfl⟩
    exact ⟨.unsigned o, rfl, rfl⟩
  · rintro s _ _ ⟨u, rfl, rfl⟩
    exact ⟨.sign s u, rfl, rfl⟩

theorem finds_product : Finds (productWith inner) (Derives .product) := by
  refine finds_rung (by decide) (finds_unary hinner) ?_ ?_
  · rintro _ _ ⟨u, rfl, rfl⟩
    exact ⟨.factor u, rfl, rfl⟩
  · rintro _ _ op _ _ ⟨m, rfl, rfl⟩ ⟨u, rfl, rfl⟩
    exact ⟨.scaled m op u, rfl, rfl⟩

theorem finds_sum : Finds (sumWith inner) (Derives .sum) := by
  refine finds_rung (by decide) (finds_product hinner) ?_ ?_
  · rintro _ _ ⟨m, rfl, rfl⟩
    exact ⟨.term m, rfl, rfl⟩
  · rintro _ _ op _ _ ⟨a, rfl, rfl⟩ ⟨m, rfl, rfl⟩
    exact ⟨.added a op m, rfl, rfl⟩

/-- What a sum with or without a choice is read from, and where it ends. -/
theorem choiceWith_eq_ok (hstops : Stops outerOperators inner) {c c' : Cursor} {t : Tree}
    (hc : CommentFree c.rest) (h : choiceWith inner c = .ok t c') :
    ∃ w, Passes c w c' ∧
      (Derives .sum w t ∧ c'.kind ∉ [.plus, .minus, .multiply, .divide] ∨
        Derives .last w t ∧ c'.kind ∉ outerOperators) := by
  obtain ⟨a, d, ha, h⟩ := bind_eq_ok h
  obtain ⟨w, hw, hsum⟩ := finds_sum hinner c a d hc ha
  -- With a question mark the whole is a choice, which ends where its last part does.
  by_cases hk : d.kind = .question
  · have hchoice : Finds (choice tv inner a) fun w' t => Derives .last (w ++ w') t := by
      obtain ⟨a, rfl, rfl⟩ := hsum
      refine finds_choice hinner ⟨.settled a, rfl, rfl⟩ ?_
      rintro mark colon _ _ _ _ ⟨yes, rfl, rfl⟩ ⟨no, rfl, rfl⟩
      exact ⟨.choice a mark yes colon no, rfl, rfl⟩
    obtain ⟨w', hw', hlast⟩ := hchoice d t c' (hw.commentFree hc) h
    exact ⟨w ++ w', hw.trans hw', .inr ⟨hlast, choice_stops hstops hk h⟩⟩
  · rw [choice, isAt_bind, decide_eq_false (by simpa using hk), if_neg (by simp)] at h
    cases h
    have hproduct : Stops [.multiply, .divide] (sumWith inner) :=
      stops_rung_of_operand (stops_rung _)
    have hstop : c'.kind ∉ [.plus, .minus] ++ [.multiply, .divide] :=
      fun hk => (List.mem_append.1 hk).elim (stops_rung _ c t c' ha) (hproduct c t c' ha)
    exact ⟨w, hw, .inl ⟨hsum, hstop⟩⟩

/-- What the topmost rung holds after some rounds: sums with links between them, so that a link may
follow; or an expression that ends in a choice, which no operator follows. -/
def Topmost (w : List Token) (t : Tree) (c : Cursor) : Prop :=
  Derives .head w t ∧ c.kind ∉ [.plus, .minus, .multiply, .divide] ∨
    Derives .expr w t ∧ c.kind ∉ outerOperators

omit hinner in
/-- Sums with links between them are an expression. -/
theorem Derives.expr_of_head {w : List Token} {t : Tree} (h : Derives .head w t) :
    Derives .expr w t := by
  obtain ⟨p, rfl, rfl⟩ := h
  cases p with
  | opening a => exact ⟨.alone (.settled a), rfl, rfl⟩
  | extended h op a => exact ⟨.linked h op (.settled a), rfl, rfl⟩

/-- A round of the topmost rung. -/
theorem topmost_step (hstops : Stops outerOperators inner) {w : List Token} {a t : Tree}
    {c c' : Cursor} (hw : Topmost w a c) (hc : CommentFree c.rest) (hk : c.kind ∈ outerOperators)
    (h : (do
      let op ← take tv
      let right ← choiceWith inner
      return Tree.binary a (OperatorForm.byLabel.value op) right : Parser Tree) c = .ok t c') :
    ∃ w', Passes c w' c' ∧ Topmost (w ++ w') t c' := by
  -- Behind a choice no operator is left.
  obtain ⟨⟨p, rfl, rfl⟩, harith⟩ := hw.resolve_right fun hend => hend.2 hk
  have hlink : c.kind ∈ linkOperators := by
    have hsplit : ∀ k ∈ outerOperators, k ∉ [.plus, .minus, .multiply, .divide] →
        k ∈ linkOperators := by decide
    exact hsplit _ hk harith
  obtain ⟨op, hop, hpass⟩ := Passes.slot hc hlink (by decide)
  rw [take_bind, ← hop] at h
  obtain ⟨right, d, hright, ht⟩ := bind_eq_ok h
  cases ht
  obtain ⟨u, hu, hfound⟩ := choiceWith_eq_ok hinner hstops (hpass.commentFree hc) hright
  refine ⟨op.1 :: u, hpass.trans hu, ?_⟩
  obtain ⟨⟨s, rfl, rfl⟩, hstop⟩ | ⟨⟨l, rfl, rfl⟩, hstop⟩ := hfound
  · exact .inl ⟨⟨.extended p op s, rfl, rfl⟩, hstop⟩
  · exact .inr ⟨⟨.linked p op l, rfl, rfl⟩, hstop⟩

theorem finds_expressionWith (hstops : Stops outerOperators inner) :
    Finds (expressionWith inner) (Derives .expr) := by
  intro c t c' hc h
  obtain ⟨first, d, hfirst, h⟩ := bind_eq_ok h
  obtain ⟨w, hw, hfound⟩ := choiceWith_eq_ok hinner hstops hc hfirst
  have hstart : Topmost w first d := by
    obtain ⟨⟨s, rfl, rfl⟩, hstop⟩ | ⟨⟨l, rfl, rfl⟩, hstop⟩ := hfound
    · exact .inl ⟨⟨.opening s, rfl, rfl⟩, hstop⟩
    · exact .inr ⟨⟨.alone l, rfl, rfl⟩, hstop⟩
  obtain ⟨w', hw', hend⟩ := Passes.of_loop (hw.commentFree hc) hstart
    (fun _ _ _ _ _ => topmost_step hinner hstops) h
  exact ⟨w ++ w', hw.trans hw', hend.elim (·.1.expr_of_head) (·.1)⟩

end Inner

/-- What an expression is read from, within a bound on nesting. -/
theorem finds_phraseAt (n : Nat) : Finds (expressionAt n) (Derives .expr) := by
  induction n with
  | zero => exact Finds.throw
  | succ n ih =>
    refine finds_expressionWith ih ?_
    cases n with
    | zero => exact fun _ _ _ h => nomatch h
    | succ n => exact stops_rung _

/-- What an expression is read from. -/
theorem finds_phrase : Finds expression (Derives .expr) :=
  fun c => finds_phraseAt _ c

/-! ## §4 The grammar of expressions -/

/-- Two expressions with the same tokens have the same tree. -/
theorem value_eq_of_tokens_eq {e e' : Phrase linkOperators .expr} (h : e.tokens = e'.tokens) :
    e.value = e'.value := by
  have hread := reads_phrase (fun _ => id) e [] (by simp) (by decide) 0
  have hread' := reads_phrase (fun _ => id) e' [] (by simp) (by decide) 0
  rw [h, hread'] at hread
  injection hread with hvalue
  exact hvalue.symm

/-- The expression grammar is that of the phrases.  What is read as an expression is a phrase, and
the tree is that of the phrase.  A phrase is read, and nothing else, in front of whatever does not
begin with a token that may extend it.  No list of tokens has two trees. -/
theorem expression_reads_exactly_phrases :
    (∀ (c : Cursor) (t : Tree) (c' : Cursor), CommentFree c.rest → expression c = .ok t c' →
      ∃ e : Phrase linkOperators .expr,
        c.rest = e.tokens ++ c'.rest ∧ c'.pos = c.pos + e.tokens.length ∧ t = e.value) ∧
    (∀ (e : Phrase linkOperators .expr) (pos : Nat) (rest : List Token), CommentFree rest →
      firstKind rest ∉
        linkOperators ++ [.plus, .minus, .multiply, .divide, .question, .dot, .leftParen] →
      expression ⟨pos, e.tokens ++ rest⟩ = .ok e.value ⟨pos + e.tokens.length, rest⟩) ∧
    (∀ e e' : Phrase linkOperators .expr, e.tokens = e'.tokens → e.value = e'.value) := by
  refine ⟨?_, ?_, fun _ _ => value_eq_of_tokens_eq⟩
  · intro c t c' hc h
    obtain ⟨_, hpass, e, rfl, rfl⟩ := finds_phrase c t c' hc h
    exact ⟨e, hpass.rest, hpass.pos, rfl⟩
  · intro e pos rest hrest hstop
    have hfollow : ∀ k ∈ follow, k ∈
        linkOperators ++ [.plus, .minus, .multiply, .divide, .question, .dot, .leftParen] := by
      decide
    exact reads_phrase (fun _ => id) e rest hrest (fun hk => hstop (hfollow _ hk)) pos

/-- The expression `x < (y)`. -/
def comparison : Phrase linkOperators .expr :=
  .linked (.opening (.term (.factor (.unsigned (.name ⟨⟨.identifier, some "x"⟩, by decide⟩)))))
    ⟨⟨.lessThan, some "<"⟩, by decide⟩
    (.settled (.term (.factor (.unsigned (.group ⟨⟨.leftParen, some "("⟩, by decide⟩
      (.alone (.settled (.term (.factor (.unsigned
        (.name ⟨⟨.identifier, some "y"⟩, by decide⟩))))))
      ⟨⟨.rightParen, some ")"⟩, by decide⟩)))))

/-- In front of a semicolon the comparison is read with all its tokens. -/
theorem expression_reads_comparison :
    CommentFree [⟨.semicolon, some ";"⟩] ∧
    expression ⟨0, comparison.tokens ++ [⟨.semicolon, some ";"⟩]⟩
      = .ok comparison.value ⟨5, [⟨.semicolon, some ";"⟩]⟩ :=
  ⟨by simp, expression_reads_exactly_phrases.2.1 comparison 0 _ (by simp) (by decide)⟩

end ShaderBridge.CrossGl
