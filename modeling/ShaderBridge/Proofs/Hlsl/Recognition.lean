import ShaderBridge.Proofs.Hlsl.Phrase

/-!
# HLSL phrases are read

The expression grammar reads every phrase in front of anything that cannot belong to it, and gives
the tree of the phrase (`reads_phrase`).  All rungs of the ladder are read in the same way, so one
induction over phrases covers them (`accepted`).
-/

namespace ShaderBridge.Hlsl

open ShaderBridge.Parser Ladder

variable {inner : Parser Tree}

/-! ## §1 The rungs of the grammar -/

/-- The rungs of the grammar, counted from below. -/
def rungWith (inner : Parser Tree) : Nat → Parser Tree
  | 0 => unaryWith inner
  | n + 1 => rungWith inner n >>= chain tv (operation n) (rungOperators n) (rungWith inner n)

/-- An expression is the topmost rung and perhaps a choice behind it. -/
theorem expressionWith_eq : expressionWith inner = rungWith inner 7 >>= choice tv inner := by
  rw [rungWith, bind_assoc]
  rfl

theorem comma_notMem_follow : .comma ∉ follow := by decide

theorem rightParen_notMem_follow : .rightParen ∉ follow := by decide

theorem colon_notMem_follow : .colon ∉ follow := by decide

/-! ## §2 Operands -/

theorem reads_named {w rest : List Token} {t : Tree} (n : TokenOf [.identifier])
    (hw : CommentFree (w ++ rest))
    (h : Reads (Form.afterName var inner (Tree.ofText? n.1.text)) w t rest) :
    Reads (primaryWith inner) (n.1 :: w) t rest := by
  refine Reads.kind ?_
  rw [List.cons_append, firstKind_cons, n.kind_eq]
  exact Reads.bind (u := [n.1]) (Reads.expectText n.kind_eq hw) h

theorem reads_typed {w rest : List Token} {t : Tree} (vtype : TokenOf valueTypes)
    (hw : CommentFree (w ++ rest))
    (h : Reads (Form.afterType var inner (Tree.ofText? vtype.1.text)) w t rest) :
    Reads (primaryWith inner) (vtype.1 :: w) t rest := by
  refine Reads.kind ?_
  rw [List.cons_append, firstKind_cons, if_pos vtype.2]
  exact Reads.bind (u := [vtype.1]) (Reads.takeText _ hw) h

section Inner

variable {n : Nat}
  (hinner : ∀ e : Phrase .expr, e.tokens.length < n → ReadsUpTo follow inner e.tokens e.value)

include hinner

theorem reads_items : (items : Phrase .items) → items.tokens.length < n →
    (closes : TokenOf [.rightParen]) → (rest : List Token) → CommentFree rest →
    Reads (untilClose tv .comma .rightParen inner) items.tokens items.value (closes.1 :: rest)
  | .item e, hlen, closes, rest, hrest => by
    have he := hinner e hlen (closes.1 :: rest) (by simp [hrest])
      (by simp [rightParen_notMem_follow])
    refine Reads.untilClose_last he (fun h => ?_) closes.kind_eq (by decide)
    exact absurd (h ▸ e.firstKind_mem (by simp) _) (by decide)
  | .further e comma items, hlen, closes, rest, hrest => by
    simp only [Phrase.tokens, List.length_append, List.length_cons] at hlen
    have hitems : CommentFree (items.tokens ++ closes.1 :: rest) := by
      simp [items.commentFree, hrest]
    have he := hinner e (by omega) (comma.1 :: (items.tokens ++ closes.1 :: rest))
      (by simpa using hitems) (by simp [comma_notMem_follow])
    refine Reads.untilClose_cons comma.kind_eq he (fun h => ?_) hitems
      (reads_items items (by omega) closes rest hrest)
    exact absurd (h ▸ e.firstKind_mem (by simp) _) (by decide)

theorem reads_call (args : Phrase .arguments) (hlen : args.tokens.length < n)
    (opens : TokenOf [.leftParen]) (closes : TokenOf [.rightParen]) (rest : List Token)
    (hrest : CommentFree rest) :
    Reads (looseArguments tv inner) (opens.1 :: (args.tokens ++ [closes.1])) args.value rest := by
  refine reads_looseArguments opens closes args.commentFree hrest ?_
  cases args with
  | noArgument => exact Reads.untilClose_nil closes.kind_eq
  | given items => exact reads_items hinner items hlen closes rest hrest

/-- An operand is read up to a point or a parenthesis. -/
theorem reads_operand (p : Phrase .operand) (hlen : p.tokens.length ≤ n) :
    ReadsUpTo (rungStop 0) (primaryWith inner) p.tokens p.value := by
  intro rest hrest hstop
  cases p with
  | group opens e closes =>
    simp only [Phrase.tokens, List.length_append, List.length_cons] at hlen
    have he := hinner e (by omega) (closes.1 :: rest) (by simp [hrest])
      (by simp [rightParen_notMem_follow])
    refine Reads.kind ?_
    rw [Phrase.tokens, List.cons_append, firstKind_cons, opens.kind_eq]
    exact reads_parenthesized opens closes e.commentFree hrest he
  | number t =>
    refine Reads.kind ?_
    rw [Phrase.tokens, List.cons_append, firstKind_cons, t.kind_eq]
    exact Reads.takeText _ hrest
  | name t =>
    refine reads_named t (by simpa using hrest) (Reads.kind ?_)
    rw [List.nil_append]
    split
    · next h => simp [h, rungStop] at hstop
    · next h => simp [h, rungStop] at hstop
    · exact Reads.pure
  | typed vtype t =>
    refine reads_typed vtype (by simp [hrest]) (Reads.kind ?_)
    rw [List.cons_append, firstKind_cons, t.kind_eq]
    exact (Reads.takeText _ hrest).bind_pure fun _ => rfl
  | call t opens args closes =>
    simp only [Phrase.tokens, List.length_append, List.length_cons] at hlen
    refine reads_named t (by simp [args.commentFree, hrest]) (Reads.kind ?_)
    rw [List.cons_append, firstKind_cons, opens.kind_eq]
    exact (reads_call hinner args (by omega) opens closes rest hrest).bind_pure fun _ => rfl
  | construction vtype opens args closes =>
    simp only [Phrase.tokens, List.length_append, List.length_cons] at hlen
    refine reads_typed vtype (by simp [args.commentFree, hrest]) (Reads.kind ?_)
    rw [List.cons_append, firstKind_cons, opens.kind_eq]
    exact (reads_call hinner args (by omega) opens closes rest hrest).bind_pure fun _ => rfl
  | member t m more =>
    have hdot : firstKind rest ≠ .dot := fun h => hstop (by simp [h, rungStop])
    refine reads_named t (by simp [Member.commentFree, hrest]) (Reads.kind ?_)
    rw [Member.tokens_cons, List.cons_append, firstKind_cons, m.1.kind_eq]
    exact reads_memberChain _ m more hrest hdot

/-! ## §3 Phrases -/

/-- How the phrases of a rank are read. -/
def Accepted (inner : Parser Tree) : {r : Rank} → Phrase r → Prop
  | .operand, p => ReadsUpTo (rungStop 0) (primaryWith inner) p.tokens p.value
  | .rung 0, p => ReadsUpTo (rungStop 0) (unaryWith inner) p.tokens p.value
  | .rung (n + 1), p =>
    Leads (operation n) (rungOperators n) (rungWith inner n) p.tokens p.value (rungStop n)
  | .expr, p => ReadsUpTo follow (expressionWith inner) p.tokens p.value
  | .arguments, _ | .items, _ => True

omit hinner in
/-- A rung is read where none of its operators follows. -/
theorem Accepted.readsUpTo : {m : Nat} → {p : Phrase (.rung m)} → Accepted inner p →
    ReadsUpTo (rungStop m) (rungWith inner m) p.tokens p.value
  | 0, _, h => h
  | _ + 1, _, h => Leads.readsUpTo h

/-- Every phrase is read as its rank is, where nested expressions are. -/
theorem accepted {r : Rank} (p : Phrase r) (hlen : p.tokens.length ≤ n) : Accepted inner p := by
  induction p with
  | settled a ih =>
    intro rest hrest hstop
    obtain ⟨hmark, hrung⟩ := not_or.1 (mt List.mem_cons.2 hstop)
    have hread := (ih hlen).readsUpTo rest hrest hrung
    rw [expressionWith_eq, Phrase.tokens, ← List.append_nil a.tokens]
    exact Reads.bind (by simpa using hread) (reads_no_choice a.value hmark)
  | choice a mark yes colon no ih =>
    intro rest hrest hstop
    simp only [Phrase.tokens, List.length_append, List.length_cons] at hlen
    have hyes := hinner yes (by omega) (colon.1 :: (no.tokens ++ rest))
      (by simp [no.commentFree, hrest]) (by simp [colon_notMem_follow])
    have hno := hinner no (by omega) rest hrest hstop
    have hmark : .question ∉ rungStop 7 := by decide
    rw [expressionWith_eq]
    refine Reads.bind ?_
      (reads_choice mark colon yes.commentFree no.commentFree hrest hyes hno)
    exact (ih (by omega)).readsUpTo _ (by simp [yes.commentFree, no.commentFree, hrest])
      (by simpa using hmark)
  | first a ih => exact Leads.first (ih hlen).readsUpTo
  -- Each rung stops at the operators of the looser ones.
  | joined a op b iha ihb =>
    simp only [Phrase.tokens, List.length_append, List.length_cons] at hlen
    obtain ⟨hstop, hcomment⟩ := operator_role _ _ op.2
    exact Leads.next (iha (by omega)) op.1 op.2 hstop (commentFree_cons.2 ⟨hcomment, b.commentFree⟩)
      (ihb (by omega)).readsUpTo
  | unsigned o ih =>
    intro rest hrest hstop
    have hsign : firstKind (o.tokens ++ rest) ∉ [.plus, .minus] := by
      have hstarts : ∀ k ∈ Phrase.operandStarts, k ∉ [.plus, .minus] := by decide
      exact hstarts _ (o.firstKind_operand rest)
    exact reads_unsigned hsign (ih hlen rest hrest hstop)
  | sign s u ih =>
    intro rest hrest hstop
    simp only [Phrase.tokens, List.length_cons] at hlen
    exact reads_sign s.2 (commentFree_append.2 ⟨u.commentFree, hrest⟩)
      (ih (by omega) rest hrest hstop)
  | group | number | name | typed | call | construction | member =>
    exact reads_operand hinner _ hlen
  | noArgument | given | item | further => trivial

end Inner

/-- An expression within a bound on its tokens is read within that bound on nesting. -/
theorem reads_expressionAt (n : Nat) (e : Phrase .expr) (hlen : e.tokens.length < n) :
    ReadsUpTo follow (expressionAt n) e.tokens e.value := by
  induction n generalizing e with
  | zero => omega
  | succ n ih => exact accepted ih e (by omega)

/-- Every expression is read, up to a token of one of the kinds in `follow`. -/
theorem reads_phrase (e : Phrase .expr) : ReadsUpTo follow expression e.tokens e.value := by
  intro rest hrest hstop
  refine Reads.nested (reads_expressionAt _ e ?_ rest hrest hstop)
  rw [List.length_append]
  omega

end ShaderBridge.Hlsl
