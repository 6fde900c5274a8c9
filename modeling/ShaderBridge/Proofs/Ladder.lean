import ShaderBridge.Proofs.Reading

/-!
# Reading the rungs of a ladder

What the building blocks of expression grammars read: chains of operands, signs, member chains,
parentheses, choices and arguments.  For each block there is a statement on what it reads
(`Reads`) and one on what it has read when it gives a result (`Finds`).
-/

namespace ShaderBridge.Ladder

open ShaderBridge.Parser

/-! ## §1 Member chains -/

/-- A point and the name of a member. -/
abbrev Member := TokenOf [.dot] × TokenOf [.identifier]

namespace Member

/-- The tokens of a chain of members. -/
def tokens (ms : List Member) : List Token := ms.flatMap fun m => [m.1.1, m.2.1]

/-- The tree of a chain of members of an object. -/
def tree (object : Tree) (ms : List Member) : Tree :=
  ms.foldl (fun o m => Tree.memberOf o (Tree.ofText? m.2.1.text)) object

@[simp] theorem tokens_nil : tokens [] = [] := rfl

@[simp] theorem tokens_cons (m : Member) (ms : List Member) :
    tokens (m :: ms) = m.1.1 :: m.2.1 :: tokens ms := rfl

@[simp] theorem tree_nil (o : Tree) : tree o [] = o := rfl

@[simp] theorem tree_cons (o : Tree) (m : Member) (ms : List Member) :
    tree o (m :: ms) = tree (Tree.memberOf o (Tree.ofText? m.2.1.text)) ms := rfl

end Member

theorem Member.kind_mem {ms : List Member} {t : Token} (ht : t ∈ Member.tokens ms) :
    t.kind ∈ [.dot, .identifier] := by
  obtain ⟨m, -, ht⟩ := List.mem_flatMap.1 ht
  rcases List.mem_pair.1 ht with rfl | rfl
  · exact m.1.mem (by decide)
  · exact m.2.mem (by decide)

theorem Member.commentFree (ms : List Member) : CommentFree (Member.tokens ms) := by
  have hkinds : ∀ k ∈ [TokenKind.dot, .identifier], k.isComment = false := by decide
  exact fun t ht => hkinds _ (Member.kind_mem ht)

variable {rest : List Token}

theorem reads_memberStep (o : Tree) (m : Member) (hrest : CommentFree rest) :
    Reads (memberStep .comments o) [m.1.1, m.2.1]
      (Tree.memberOf o (Tree.ofText? m.2.1.text)) rest := by
  refine Reads.bind (u := [m.1.1]) (Reads.expect (by simp) ?_) ?_
  · simp [hrest]
  · intro pos
    simp [hrest]

/-- A chain of members is read as one access after another. -/
theorem reads_members (ms : List Member) (o : Tree)
    (hrest : CommentFree rest) (hdot : firstKind rest ≠ .dot) :
    Reads (loop (isAt [.dot]) (memberStep .comments) o) (Member.tokens ms) (Member.tree o ms)
      rest := by
  induction ms generalizing o with
  | nil =>
    intro pos
    exact loop_stop (by simp [hdot])
  | cons m ms ih =>
    intro pos
    have hfree : CommentFree (Member.tokens ms ++ rest) := by simp [hrest, Member.commentFree]
    have hstep := reads_memberStep o m hfree
    refine (loop_step (d := ⟨pos, Member.tokens (m :: ms) ++ rest⟩) (by simp) (hstep pos) ?_
      (ih _ _)).trans ?_
    · simp only [Member.tokens_cons, List.length_append, List.length_cons]
      omega
    · rw [Member.tree_cons, Member.tokens_cons]
      congr 2
      simp only [List.length_cons, List.length_nil]
      omega

theorem reads_memberChain (o : Tree) (m : Member) (ms : List Member)
    (hrest : CommentFree rest) (hdot : firstKind rest ≠ .dot) :
    Reads (memberChain .comments o) (Member.tokens (m :: ms)) (Member.tree o (m :: ms)) rest :=
  Reads.bind (u := [m.1.1, m.2.1])
    (reads_memberStep o m (commentFree_append.2 ⟨Member.commentFree ms, hrest⟩))
    (reads_members ms _ hrest hdot)

theorem memberStep_eq_ok {c c' : Cursor} {o t : Tree} (hc : CommentFree c.rest)
    (h : memberStep .comments o c = .ok t c') :
    ∃ m : Member, Passes c [m.1.1, m.2.1] c' ∧
      t = Tree.memberOf o (Tree.ofText? m.2.1.text) := by
  obtain ⟨dot, d, hdot, h⟩ := bind_eq_ok h
  obtain ⟨hk, rfl, rfl⟩ := expect_eq_ok hdot
  obtain ⟨point, -, hpoint⟩ := Passes.slot (K := [.dot]) hc (by simp [hk]) (by simp)
  simp only [isNotAt_bind] at h
  by_cases hid : (c.advance .comments).kind = .identifier
  · obtain ⟨name, hname, hpass⟩ :=
      Passes.slot (K := [.identifier]) (hpoint.commentFree hc) (by simp [hid]) (by simp)
    simp [hid] at h
    obtain ⟨rfl, rfl⟩ := h
    exact ⟨(point, name), hpoint.trans hpass, by rw [hname]⟩
  · simp [hid] at h
    cases h

theorem finds_memberChain (o : Tree) :
    Finds (memberChain .comments o) fun w t =>
      ∃ m ms, w = Member.tokens (m :: ms) ∧ t = Member.tree o (m :: ms) := by
  refine Finds.bind (V := fun w t => ∃ m : Member, w = [m.1.1, m.2.1] ∧
    t = Tree.memberOf o (Tree.ofText? m.2.1.text)) ?_ ?_
  · intro c t c' hc h
    obtain ⟨m, hpass, rfl⟩ := memberStep_eq_ok hc h
    exact ⟨_, hpass, m, rfl, rfl⟩
  · rintro _ _ ⟨m, rfl, rfl⟩
    refine Finds.loop (V := fun w t => ∃ m ms, w = Member.tokens (m :: ms) ∧
      t = Member.tree o (m :: ms)) _ _ ⟨m, [], rfl, rfl⟩ ?_
    rintro _ _ c t c' ⟨m, ms, rfl, rfl⟩ hc - h
    obtain ⟨m', hpass, rfl⟩ := memberStep_eq_ok hc h
    exact ⟨_, hpass, m, ms ++ [m'], by simp [Member.tokens], by simp [Member.tree]⟩

/-! ## §2 Chains -/

section Chains

variable {form : OperatorForm} {node : Tree → Token → Tree → Tree} {ops : List TokenKind}
  {operand : Parser Tree}

/-- The operation that an operator makes of its operands. -/
def OperatorForm.operation (form : OperatorForm) (left : Tree) (op : Token) (right : Tree) : Tree :=
  Tree.binary left (form.value op) right

/-- Further operands behind what is read already, where `node` is what an operator makes of its
operands. -/
def chain (tv : Trivia) (node : Tree → Token → Tree → Tree) (ops : List TokenKind)
    (operand : Parser Tree) (left : Tree) : Parser Tree :=
  loop (isAt ops) (fun left => do
    let op ← take tv
    let right ← operand
    return node left op right) left

/-- A chain ends where no operator of the rung follows. -/
theorem chain_stop {rest : List Token} (left : Tree) (hops : firstKind rest ∉ ops) (pos : Nat) :
    chain .comments node ops operand left ⟨pos, rest⟩ = .ok left ⟨pos, rest⟩ :=
  loop_stop (by simp [hops])

theorem chain_step {w rest : List Token} {op : Token} {left right t : Tree} {pos : Nat} {c : Cursor}
    (hop : op.kind ∈ ops) (hfree : CommentFree (w ++ rest)) (hright : Reads operand w right rest)
    (h : chain .comments node ops operand (node left op right)
      ⟨pos + 1 + w.length, rest⟩ = .ok t c) :
    chain .comments node ops operand left ⟨pos, op :: (w ++ rest)⟩ = .ok t c := by
  refine loop_step (d := ⟨pos, op :: (w ++ rest)⟩) (by simp [hop]) ?_ ?_ h
  · rw [take_bind, Cursor.advance_cons hfree]
    exact bind_of_ok (hright _)
  · simp only [List.length_append, List.length_cons]
    omega

/-- The tokens `w` lead a rung to the point where a chain goes on from `a`, whatever it goes on
with, unless a token of the kinds `stop` follows. -/
def Leads (node : Tree → Token → Tree → Tree) (ops : List TokenKind) (operand : Parser Tree)
    (w : List Token) (a : Tree) (stop : List TokenKind) : Prop :=
  ∀ rest pos t c, CommentFree rest → firstKind rest ∉ stop →
    chain .comments node ops operand a ⟨pos + w.length, rest⟩ = .ok t c →
    (operand >>= chain .comments node ops operand) ⟨pos, w ++ rest⟩ = .ok t c

namespace Leads

variable {u w : List Token} {a b : Tree} {stop stop' : List TokenKind}

theorem first (h : ReadsUpTo stop operand w a) : Leads node ops operand w a stop := by
  intro rest pos t c hrest hstop hchain
  rw [bind_of_ok (h rest hrest hstop pos), hchain]

theorem next (h : Leads node ops operand w a stop) (op : Token) (hop : op.kind ∈ ops)
    (hstop : op.kind ∉ stop) (hfree : CommentFree (op :: u))
    (hu : ReadsUpTo stop' operand u b) :
    Leads node ops operand (w ++ op :: u) (node a op b) stop' := by
  intro rest pos t c hrest hstop' hchain
  have hfree' : CommentFree (u ++ rest) :=
    commentFree_append.2 ⟨(commentFree_cons.1 hfree).2, hrest⟩
  rw [List.append_assoc]
  refine h _ pos t c ?_ hstop (chain_step hop hfree' (hu rest hrest hstop') ?_)
  · exact commentFree_cons.2 ⟨(commentFree_cons.1 hfree).1, hfree'⟩
  · rw [← hchain]
    simp [Nat.add_assoc, Nat.add_comm 1]

theorem readsUpTo (h : Leads node ops operand w a stop) :
    ReadsUpTo (ops ++ stop) (operand >>= chain .comments node ops operand) w a := by
  intro rest hrest hstop pos
  rw [List.mem_append, not_or] at hstop
  exact h rest pos a _ hrest hstop.2 (chain_stop a hstop.1 _)

end Leads

/-- What a chain has read, when an invariant holds in front of it and every operator with an
operand keeps it. -/
theorem finds_rung {V I : List Token → Tree → Prop} (hend : .endOfInput ∉ ops)
    (hoperand : Finds operand V) (hfirst : ∀ w t, V w t → I w t)
    (hnext : ∀ w t (op : TokenOf ops) u r, I w t → V u r →
      I (w ++ op.1 :: u) (Tree.binary t (form.value op.1) r)) :
    Finds (rung .comments form ops operand) I := by
  refine Finds.bind hoperand fun w a hV => ?_
  refine Finds.loop a w (hfirst w a hV) ?_
  intro w a c a' c' hI hc hk h
  obtain ⟨op, hop, hpass⟩ := Passes.slot hc hk hend
  rw [take_bind, ← hop] at h
  obtain ⟨right, d, hright, ha⟩ := bind_eq_ok h
  cases ha
  obtain ⟨u, hu, hVu⟩ := hoperand _ _ _ (hpass.commentFree hc) hright
  exact ⟨op.1 :: u, hpass.trans hu, hnext w a op u right hI hVu⟩

theorem stops_rung (tv : Trivia) : Stops ops (rung tv form ops operand) := by
  intro c t c' h
  obtain ⟨first, d, -, h⟩ := bind_eq_ok h
  exact Stops.loop first d t c' h

/-- A rung ends in front of no token that its operands do not end in front of. -/
theorem stops_rung_of_operand {tv : Trivia} {ks : List TokenKind} (hoperand : Stops ks operand) :
    Stops ks (rung tv form ops operand) := by
  intro c t c' h
  obtain ⟨first, d, hfirst, h⟩ := bind_eq_ok h
  refine Stops.loop_of_step (fun c g d hgo => ?_) (fun left c t c' hround => ?_)
    (hoperand c first d hfirst) h
  · cases hgo
    rfl
  · obtain ⟨op, d, -, hround⟩ := bind_eq_ok hround
    obtain ⟨right, d', hright, ht⟩ := bind_eq_ok hround
    cases ht
    exact hoperand d right _ hright

/-- In front of no operator of the rung, a rung is its operand. -/
theorem rung_eq_operand {tv : Trivia} {c : Cursor}
    (h : ∀ t c', operand c = .ok t c' → c'.kind ∉ ops) :
    rung tv form ops operand c = operand c := by
  cases hrun : operand c with
  | ok t c' =>
    rw [rung, bind_of_ok hrun]
    exact loop_stop (by simp [h t c' hrun])
  | error e c' => exact bind_of_error hrun

/-- In front of a semicolon a whole ladder is its operand. -/
theorem disjunction_eq_operand {tv : Trivia} {c : Cursor}
    (h : ∀ t c', operand c = .ok t c' → c'.kind = .semicolon) :
    disjunction tv operand c = operand c := by
  have hstep : ∀ {p : Parser Tree} {ops : List TokenKind} {form : OperatorForm},
      p c = operand c → .semicolon ∉ ops → rung tv form ops p c = operand c := by
    intro p ops form hp hops
    rw [← hp]
    refine rung_eq_operand fun t c' hrun => ?_
    rw [h t c' (hp ▸ hrun)]
    exact hops
  -- One step for each rung, from products up to disjunctions.
  have hproduct : product tv .byText operand c = operand c := hstep rfl (by decide)
  have hsum : sum tv .byText operand c = operand c := hstep hproduct (by decide)
  have hrelation : relation tv operand c = operand c := hstep hsum (by decide)
  have hequality : equality tv operand c = operand c := hstep hrelation (by decide)
  have hconjunction : conjunction tv operand c = operand c := hstep hequality (by decide)
  exact hstep hconjunction (by decide)

end Chains

/-! ## §3 Signs -/

section Signs

variable {form : OperatorForm} {operand : Parser Tree}

theorem reads_unsigned {w rest : List Token} {t : Tree}
    (hsign : firstKind (w ++ rest) ∉ [.plus, .minus]) (h : Reads operand w t rest) :
    Reads (signed .comments form operand) w t rest := by
  intro pos
  have hstop : isAt [.plus, .minus] ⟨pos, w ++ rest⟩ = .ok false ⟨pos, w ++ rest⟩ := by
    simpa using hsign
  rw [signed, bind_of_ok (many_stop hstop), bind_of_ok (h pos)]
  rfl

theorem reads_sign {w rest : List Token} {s : Token} {t : Tree} (hs : s.kind ∈ [.plus, .minus])
    (hfree : CommentFree (w ++ rest)) (h : Reads (signed .comments form operand) w t rest) :
    Reads (signed .comments form operand) (s :: w) (Tree.unary (form.value s) t) rest := by
  intro pos
  obtain ⟨signs, d, hsigns, h⟩ := bind_eq_ok (h (pos + 1))
  obtain ⟨e, d', hoperand, he⟩ := bind_eq_ok h
  cases he
  have hgo : isAt [.plus, .minus] ⟨pos, s :: (w ++ rest)⟩ = .ok true ⟨pos, s :: (w ++ rest)⟩ := by
    simpa using hs
  have hstep : take .comments ⟨pos, s :: (w ++ rest)⟩ = .ok s ⟨pos + 1, w ++ rest⟩ := by
    rw [take_run, Cursor.advance_cons hfree]
    rfl
  rw [List.cons_append, signed, bind_of_ok (many_step hgo hstep (by simp) hsigns),
    bind_of_ok hoperand, List.length_cons, Nat.add_comm w.length, ← Nat.add_assoc]
  rfl

/-- What signs and an operand have read, when each sign keeps what holds of the operand. -/
theorem finds_signed {V I : List Token → Tree → Prop} (hoperand : Finds operand V)
    (hplain : ∀ w t, V w t → I w t) (hsign : ∀ (s : TokenOf [.plus, .minus]) w t, I w t →
      I (s.1 :: w) (Tree.unary (form.value s.1) t)) :
    Finds (signed .comments form operand) I := by
  refine Finds.bind (Finds.many (V := fun w s => w = [s] ∧ s.kind ∈ [.plus, .minus]) ?_) ?_
  · intro c s c' hc hk h
    cases h
    obtain ⟨s, hs, hpass⟩ := Passes.slot hc hk (by simp)
    exact ⟨_, hpass, by rw [hs], hk⟩
  · rintro _ signs ⟨ws, rfl, hws⟩
    refine Finds.bind hoperand fun w t hV => ?_
    refine Finds.pure ?_
    -- The signs are put in front from the innermost to the outermost.
    induction hws with
    | nil => simpa using hplain w t hV
    | cons hs _ ih =>
      obtain ⟨rfl, hk⟩ := hs
      simpa using hsign ⟨_, hk⟩ _ _ ih

/-- Where no sign stands in front, a signed operand is the operand. -/
theorem signed_eq_operand {tv : Trivia} {c : Cursor} (hk : c.kind ∉ [.plus, .minus]) :
    signed tv form operand c = operand c := by
  have hsigns : many (isAt [.plus, .minus]) (take tv) c = .ok [] c :=
    many_stop (by simp [hk])
  rw [signed, bind_of_ok hsigns]
  exact congrFun (bind_pure operand) c

end Signs

/-! ## §4 Parentheses, choices and arguments -/

section Forms

variable {expr : Parser Tree}

variable {rest w : List Token} {a : Tree}

theorem reads_parenthesized {t : Tree} (opens : TokenOf [.leftParen])
    (closes : TokenOf [.rightParen]) (hw : CommentFree w) (hrest : CommentFree rest)
    (h : Reads expr w t (closes.1 :: rest)) :
    Reads (parenthesized .comments expr) (opens.1 :: (w ++ [closes.1])) t rest := by
  refine Reads.bind (u := [opens.1]) (Reads.expect (by simp) (by simp [hw, hrest])) ?_
  refine Reads.bind h ?_
  exact Reads.bind_pure (Reads.expect (by simp) hrest) fun _ => rfl

theorem finds_parenthesized {V I : List Token → Tree → Prop} (hexpr : Finds expr V)
    (hI : ∀ (opens : TokenOf [.leftParen]) (closes : TokenOf [.rightParen]) w t, V w t →
      I (opens.1 :: (w ++ [closes.1])) t) :
    Finds (parenthesized .comments expr) I := by
  refine Finds.bind (Finds.expect (by simp)) ?_
  rintro _ opens ⟨rfl, hopens⟩
  refine Finds.bind hexpr fun w t hV => ?_
  refine Finds.bind (Finds.expect (by simp)) ?_
  rintro _ closes ⟨rfl, hcloses⟩
  exact Finds.pure (by simpa using hI ⟨opens, by simp [hopens]⟩ ⟨closes, by simp [hcloses]⟩ w t hV)

theorem reads_no_choice (t : Tree) (hmark : firstKind rest ≠ .question) :
    Reads (choice .comments expr t) [] t rest := by
  intro pos
  simp [choice, hmark]

theorem reads_choice {u v : List Token} {yes no : Tree} (mark : TokenOf [.question])
    (colon : TokenOf [.colon]) (hu : CommentFree u) (hv : CommentFree v) (hrest : CommentFree rest)
    (hyes : Reads expr u yes (colon.1 :: (v ++ rest))) (hno : Reads expr v no rest) :
    Reads (choice .comments expr a) (mark.1 :: (u ++ colon.1 :: v)) (Tree.ternary a yes no)
      rest := by
  refine Reads.isAt (by simp) ?_
  refine Reads.bind (u := [mark.1]) (Reads.take _ (by simp [hu, hv, hrest])) ?_
  refine Reads.bind (by simpa using hyes) ?_
  refine Reads.bind (u := [colon.1]) (Reads.expect (by simp) (by simp [hv, hrest])) ?_
  exact hno.bind_pure fun _ => rfl

/-- What a choice has read behind its condition, if there is one. -/
theorem finds_choice {V I : List Token → Tree → Prop}
    (hexpr : Finds expr V) (hnone : I w a)
    (hI : ∀ (mark : TokenOf [.question]) (colon : TokenOf [.colon]) u v yes no, V u yes → V v no →
      I (w ++ mark.1 :: (u ++ colon.1 :: v)) (Tree.ternary a yes no)) :
    Finds (choice .comments expr a) fun w' t => I (w ++ w') t := by
  intro c t c' hc h
  rw [choice, isAt_bind] at h
  -- Only a question mark begins a choice.
  by_cases hk : c.kind ∈ [.question]
  · obtain ⟨mark, -, hmark⟩ := Passes.slot hc hk (by simp)
    rw [decide_eq_true hk, if_pos rfl, take_bind] at h
    obtain ⟨yes, d, hyes, h⟩ := bind_eq_ok h
    obtain ⟨u, hu, hVu⟩ := hexpr _ _ _ (hmark.commentFree hc) hyes
    have hd := (hmark.trans hu).commentFree hc
    obtain ⟨colon, d', hcolon, h⟩ := bind_eq_ok h
    obtain ⟨hkc, -, rfl⟩ := expect_eq_ok hcolon
    obtain ⟨colon, -, hcolon⟩ := Passes.slot (K := [.colon]) hd (by simp [hkc]) (by simp)
    obtain ⟨no, d'', hno, h⟩ := bind_eq_ok h
    cases h
    obtain ⟨v, hv, hVv⟩ := hexpr _ _ _ (hcolon.commentFree hd) hno
    refine ⟨_, (hmark.trans hu).trans (hcolon.trans hv), ?_⟩
    simpa using hI mark colon u v yes no hVu hVv
  · rw [decide_eq_false hk, if_neg (by simp)] at h
    cases h
    exact ⟨[], .refl _, by simpa using hnone⟩

/-- A choice ends where the expressions in it end. -/
theorem choice_stops {tv : Trivia} {ks : List TokenKind} {t : Tree} {c c' : Cursor}
    (hexpr : Stops ks expr) (hk : c.kind = .question) (h : choice tv expr a c = .ok t c') :
    c'.kind ∉ ks := by
  rw [choice, isAt_bind, decide_eq_true (by simp [hk]), if_pos rfl, take_bind] at h
  obtain ⟨yes, d, -, h⟩ := bind_eq_ok h
  obtain ⟨colon, d', -, h⟩ := bind_eq_ok h
  obtain ⟨no, d'', hno, h⟩ := bind_eq_ok h
  cases h
  exact hexpr d' no _ hno

theorem reads_noArguments (opens : TokenOf [.leftParen])
    (closes : TokenOf [.rightParen]) (hrest : CommentFree rest) :
    Reads (strictArguments .comments expr) [opens.1, closes.1] [] rest := by
  refine Reads.bind (u := [opens.1]) (Reads.expect (by simp) (by simp [hrest])) ?_
  refine Reads.isAt (by simp) ?_
  refine Reads.bind (u := []) Reads.pure ?_
  exact Reads.bind_pure (Reads.expect (by simp) hrest) fun _ => rfl

theorem reads_arguments {as : List Tree} (opens : TokenOf [.leftParen])
    (closes : TokenOf [.rightParen]) (hw : CommentFree w) (hrest : CommentFree rest)
    (hfirst : firstKind (w ++ closes.1 :: rest) ≠ .rightParen)
    (h : Reads (sepBy .comments .comma expr) w as (closes.1 :: rest)) :
    Reads (strictArguments .comments expr) (opens.1 :: (w ++ [closes.1])) as rest := by
  refine Reads.bind (u := [opens.1]) (Reads.expect (by simp) (by simp [hw, hrest])) ?_
  refine Reads.isAt_not (by simpa using hfirst) ?_
  refine Reads.bind h ?_
  exact Reads.bind_pure (Reads.expect (by simp) hrest) fun _ => rfl

/-- What arguments in parentheses have read. -/
theorem finds_arguments {A I : List Token → List Tree → Prop}
    (hargs : Finds (sepBy .comments .comma expr) A)
    (hnone : ∀ (opens : TokenOf [.leftParen]) (closes : TokenOf [.rightParen]),
      I [opens.1, closes.1] [])
    (hI : ∀ (opens : TokenOf [.leftParen]) (closes : TokenOf [.rightParen]) w as, A w as →
      I (opens.1 :: (w ++ [closes.1])) as) :
    Finds (strictArguments .comments expr) I := by
  refine Finds.bind (Finds.expect (by simp)) ?_
  rintro _ opens ⟨rfl, hopens⟩
  refine Finds.isAt (Finds.bind (V := fun w as => w = [] ∧ as = []) (Finds.pure ⟨rfl, rfl⟩) ?_)
    (Finds.bind hargs ?_)
  · rintro _ _ ⟨rfl, rfl⟩
    refine Finds.bind (Finds.expect (by simp)) ?_
    rintro _ closes ⟨rfl, hcloses⟩
    exact Finds.pure (hnone ⟨opens, by simp [hopens]⟩ ⟨closes, by simp [hcloses]⟩)
  · intro w as hA
    refine Finds.bind (Finds.expect (by simp)) ?_
    rintro _ closes ⟨rfl, hcloses⟩
    refine Finds.pure ?_
    simpa using hI ⟨opens, by simp [hopens]⟩ ⟨closes, by simp [hcloses]⟩ w as hA

/-- Arguments in parentheses, where a comma may stand behind each. -/
theorem reads_looseArguments {as : List Tree} (opens : TokenOf [.leftParen])
    (closes : TokenOf [.rightParen]) (hw : CommentFree w) (hrest : CommentFree rest)
    (h : Reads (untilClose .comments .comma .rightParen expr) w as (closes.1 :: rest)) :
    Reads (looseArguments .comments expr) (opens.1 :: (w ++ [closes.1])) as rest := by
  refine Reads.bind (u := [opens.1]) (Reads.expect (by simp) (by simp [hw, hrest])) ?_
  refine Reads.bind h ?_
  exact Reads.bind_pure (Reads.expect (by simp) hrest) fun _ => rfl

end Forms

end ShaderBridge.Ladder
