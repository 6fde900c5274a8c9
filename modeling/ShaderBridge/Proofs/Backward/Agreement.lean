import ShaderBridge.Proofs.Backward.Shapes
import ShaderBridge.Proofs.Hlsl.Ending
import ShaderBridge.Proofs.Sources

/-!
# The expressions of HLSL and Metal

The two grammars read expressions alike, but for assignments and for the types that only one of them
begins a value with.  Among tokens of other kinds they build the same trees, up to the semantic or
the attributes of a variable, they stop at the same place, and what one of them rejects the other
rejects for the same reason (`expression_grammars_agree`).

- `Tree.core`: a tree without the semantics and attributes of its variables.
- `Concurs T R p q`: among tokens of the class `T` the two parsers come to the same place with
  results that `R` relates, or have the same fault there.
-/

namespace ShaderBridge

/-! ## §1 Trees without what belongs to one language -/

/-- A field that a variable has in one of the two languages only. -/
def Field.isOwn : Field → Bool
  | .semantic | .attributes => true
  | _ => false

namespace Tree

mutual

/-- The tree without the semantics and attributes of its variables. -/
def core : Tree → Tree
  | .list ts => .list (coreList ts)
  | .tuple ts => .tuple (coreList ts)
  | .node k fields => .node k (coreFields k fields)
  | t => t

/-- The same for the items of a list. -/
def coreList : List Tree → List Tree
  | [] => []
  | t :: ts => core t :: coreList ts

/-- The same for the fields of a node. -/
def coreFields (k : NodeKind) : List (Field × Tree) → List (Field × Tree)
  | [] => []
  | (f, t) :: fields =>
    if k = .var ∧ f.isOwn then coreFields k fields else (f, core t) :: coreFields k fields

end

/-- Two trees are the same but for the semantics and attributes of variables. -/
def SameCore (t u : Tree) : Prop := t.core = u.core

namespace SameCore

theorem refl (t : Tree) : SameCore t t := rfl

theorem varNode (vtype name : Tree) :
    SameCore (Hlsl.var vtype name) (Metal.var vtype name) := rfl

variable {a b a' b' c c' : Tree}

theorem binary (ha : SameCore a a') (op : Tree) (hb : SameCore b b') :
    SameCore (Tree.binary a op b) (Tree.binary a' op b') := by
  unfold SameCore at *
  simp [Tree.binary, core, coreFields, ha, hb]

theorem unary (op : Tree) (ha : SameCore a a') : SameCore (Tree.unary op a) (Tree.unary op a') := by
  unfold SameCore at *
  simp [Tree.unary, core, coreFields, ha]

theorem ternary (ha : SameCore a a') (hb : SameCore b b') (hc : SameCore c c') :
    SameCore (Tree.ternary a b c) (Tree.ternary a' b' c') := by
  unfold SameCore at *
  simp [Tree.ternary, core, coreFields, ha, hb, hc]

theorem applied {k : NodeKind} {f g : Field} {ts us : List Tree} (head : Tree)
    (h : List.Forall₂ SameCore ts us) :
    SameCore (.node k [(f, head), (g, .list ts)]) (.node k [(f, head), (g, .list us)]) := by
  have hlist : coreList ts = coreList us := by
    induction h with
    | nil => rfl
    | cons h _ ih => rw [coreList, coreList, h, ih]
  unfold SameCore
  simp [core, coreFields, hlist]

end SameCore

end Tree

/-! ## §2 Parsers that come to the same outcome -/

namespace Parser

variable {α β γ δ : Type} {T : TokenClass}

/-- Related results at the same place, with tokens of the class ahead, or the same fault there. -/
inductive SameOutcome (T : TokenClass) (R : α → β → Prop) :
    EStateM.Result Fault Cursor α → EStateM.Result Fault Cursor β → Prop
  | ok {a : α} {b : β} {c : Cursor} (h : R a b) (hc : Ahead T c) :
      SameOutcome T R (.ok a c) (.ok b c)
  | error {e : Fault} {c : Cursor} : SameOutcome T R (.error e c) (.error e c)

/-- Among tokens of a class the two parsers have the same outcome, up to a relation of results. -/
def Concurs (T : TokenClass) (R : α → β → Prop) (p : Parser α) (q : Parser β) : Prop :=
  ∀ c, Ahead T c → SameOutcome T R (p c) (q c)

namespace Concurs

open Hlsl (tv)

variable {p : Parser α} {q : Parser β} {f : α → Parser γ} {g : β → Parser δ} {R : α → β → Prop}
  {Q : γ → δ → Prop} {ks : List TokenKind}

theorem pure {a : α} {b : β} (h : R a b) : Concurs T R (pure a) (pure b) := fun _ hc => .ok h hc

theorem throw {e : Fault} : Concurs T R (throw e) (throw e) := fun _ _ => .error

theorem reject {why : Rejection} : Concurs T R (reject why) (reject why) := throw

theorem bind (hp : Concurs T R p q) (hf : ∀ a b, R a b → Concurs T Q (f a) (g b)) :
    Concurs T Q (p >>= f) (q >>= g) := by
  intro c hc
  have hpc := hp c hc
  generalize hleft : p c = r at hpc
  generalize hright : q c = s at hpc
  cases hpc with
  | ok h hc' =>
    rw [bind_of_ok hleft, bind_of_ok hright]
    exact hf _ _ h _ hc'
  | error =>
    rw [bind_of_error hleft, bind_of_error hright]
    exact .error

/-- A parser that ends concurs with itself. -/
theorem self {p : Parser α} {R : α → α → Prop} (h : ∀ n, Ends (Setting.finite tv).pair n 0 p)
    (hR : ∀ a, R a a) :
    Concurs T R p p := by
  intro c hc
  have hends := (EndsAt.anywhere h c trivial).settles
  cases hrun : p c with
  | ok a c' =>
    rw [hrun] at hends
    exact .ok (hR a) (hc.of_suffix hends.1.suffix)
  | error e c' => exact .error

theorem seq {p : Parser α} {f : α → Parser γ} {g : α → Parser δ}
    (h : ∀ n, Ends (Setting.finite tv).pair n 0 p)
    (hf : ∀ a, Concurs T Q (f a) (g a)) : Concurs T Q (p >>= f) (p >>= g) := by
  refine (self (R := Eq) h fun _ => rfl).bind fun a _ hab => ?_
  exact hab ▸ hf a

theorem kind {f : TokenKind → Parser γ} {g : TokenKind → Parser δ}
    (hf : ∀ t, T.has t → Concurs T Q (f t.kind) (g t.kind)) :
    Concurs T Q (Parser.kind >>= f) (Parser.kind >>= g) :=
  fun c hc => hf c.current hc.current c hc

/-- Two loops concur if their steps do and their condition ends. -/
theorem loop {step : α → Parser α} {step' : β → Parser β} {go : Parser Bool}
    (hgo : ∀ n, Ends (Setting.finite tv).pair n 0 go)
    (hstep : ∀ a b, R a b → Concurs T R (step a) (step' b)) {a : α} {b : β} (hab : R a b) :
    Concurs T R (loop go step a) (loop go step' b) := by
  intro c hc
  show SameOutcome T R (loopAt go step (c.rest.length + 1) a c)
    (loopAt go step' (c.rest.length + 1) b c)
  -- The induction is on the rounds that are left, which are as many on both sides.
  generalize c.rest.length + 1 = n
  induction n generalizing a b c with
  | zero => exact .error
  | succ n ih =>
    rw [loopAt_succ, loopAt_succ]
    refine seq hgo (fun again => ?_) c hc
    cases again with
    | false => exact pure hab
    | true =>
      refine (hstep a b hab).bind fun a' b' hab' d hd => ?_
      by_cases hread : d.rest.length < c.rest.length
      · rw [if_pos hread, if_pos hread]
        exact ih hab' d hd
      · rw [if_neg hread, if_neg hread]
        exact .error

theorem many {go : Parser Bool} (hgo : ∀ n, Ends (Setting.finite tv).pair n 0 go)
    (hp : Concurs T R p q) :
    Concurs T (List.Forall₂ R) (many go p) (many go q) := by
  refine (loop (R := List.Forall₂ R) hgo (fun _ _ hs => ?_) .nil).bind fun as bs h => pure ?_
  · apply hp.bind
    intro _ _ h
    exact pure (.cons h hs)
  · exact List.forall₂_reverse_iff.2 h

/-! ## §3 Ladders -/

section Ladders

open Ladder ShaderBridge.Tree

variable {operand operand' expr expr' : Parser Tree}

theorem rung (h : Concurs T SameCore operand operand') :
    Concurs T SameCore (rung tv .byText ks operand) (rung tv .byText ks operand') := by
  apply h.bind
  intro _ _ hfirst
  refine loop (fun _ => .isAt .pure .pure) (fun a b hab => ?_) hfirst
  refine seq (fun _ => .take_any) fun op => ?_
  apply h.bind
  intro _ _ hright
  exact pure (hab.binary _ hright)

theorem signed (h : Concurs T SameCore operand operand') :
    Concurs T SameCore (signed tv .byText operand) (signed tv .byText operand') := by
  refine seq (fun _ => .manyAt (.takeOf (by decide))) fun signs => ?_
  apply h.bind
  intro a b hab
  refine pure ?_
  induction signs with
  | nil => exact hab
  | cons sign signs ih => exact ih.unary _

theorem disjunction (h : Concurs T SameCore operand operand') :
    Concurs T SameCore (disjunction tv operand) (disjunction tv operand') :=
  h.rung.rung.rung.rung.rung.rung

theorem choice (h : Concurs T SameCore expr expr') {a b : Tree} (hab : SameCore a b) :
    Concurs T SameCore (choice tv expr a) (choice tv expr' b) := by
  refine seq (fun _ => .isAt .pure .pure) fun again => ?_
  cases again with
  | false => exact pure hab
  | true =>
    refine seq (fun _ => .take_any) fun _ => ?_
    apply h.bind
    intro _ _ hyes
    refine seq (fun _ => .expect_any) fun _ => ?_
    apply h.bind
    intro _ _ hno
    exact pure (hab.ternary hyes hno)

theorem parenthesized (h : Concurs T SameCore expr expr') :
    Concurs T SameCore (parenthesized tv expr) (parenthesized tv expr') := by
  refine seq (fun _ => .expect_any) fun _ => ?_
  apply h.bind
  intro _ _ hab
  refine seq (fun _ => .expect_any) fun _ => ?_
  exact pure hab

theorem looseArguments (h : Concurs T SameCore expr expr') :
    Concurs T (List.Forall₂ SameCore) (looseArguments tv expr) (looseArguments tv expr') := by
  have hargument : ∀ a b, SameCore a b → Concurs T SameCore (do accept tv .comma; return a)
      (do accept tv .comma; return b) :=
    fun a b hab => seq (fun _ => .accept) fun _ => pure hab
  refine seq (fun _ => .expect_any) fun _ => ?_
  apply (many (fun _ => .isNotAt .pure .pure) (h.bind hargument)).bind
  intro as bs hs
  refine seq (fun _ => .expect_any) fun _ => ?_
  exact pure hs

end Ladders

end Concurs

end Parser

/-! ## §4 The two grammars -/

namespace Backward

open ShaderBridge.Parser ShaderBridge.Tree

/-- The kinds that the expressions of the two grammars differ in: operators that assign, and types
that begin a value in one of them only. -/
def disputedKinds : List TokenKind :=
  [.equals, .plusEquals, .minusEquals, .multiplyEquals, .divideEquals, .floatVectorType,
   .vectorType, .uintType, .halfType, .boolType]

/-- Tokens that the grammars do not differ in. -/
def undisputed : TokenClass where
  has t := t.kind ∉ disputedKinds
  atEnd := by decide

section Expressions

variable {expr expr' : Parser Tree}

theorem concurs_nameForm (h : Concurs undisputed SameCore expr expr') :
    Concurs undisputed SameCore (Form.name Hlsl.var expr)
      (Form.name Metal.var expr') := by
  refine .seq (fun _ => .expectText_any) fun name => ?_
  refine .kind fun t _ => ?_
  split
  · apply h.looseArguments.bind
    intro _ _ hargs
    exact .pure (.applied name hargs)
  · exact .self (fun _ => (EndsAt.memberChain name).loose) .refl
  · exact .pure (.varNode _ name)

/-- Where no type is disputed, the same ones begin a value. -/
theorem mem_valueTypes_iff {k : TokenKind} (h : k ∉ disputedKinds) :
    k ∈ Metal.valueTypes ↔ k ∈ Hlsl.valueTypes := by
  simp only [disputedKinds, List.mem_cons, List.not_mem_nil, or_false, not_or] at h
  simp [Metal.valueTypes, Hlsl.valueTypes, h]

/-- The two grammars agree on an operand: where they do not, the token is disputed. -/
theorem concurs_operandForm (h : Concurs undisputed SameCore expr expr') :
    Concurs undisputed SameCore (Form.operand Hlsl.var expr Hlsl.valueTypes)
      (Form.operand Metal.var expr' Metal.valueTypes) := by
  refine .kind fun t ht => ?_
  simp only [mem_valueTypes_iff ht]
  -- A type that begins a variable, a construction or a name.
  split
  · refine .seq (fun _ => .takeText_any) fun typeName => ?_
    refine .kind fun t _ => ?_
    split
    · refine .seq (fun _ => .takeText_any) fun name => ?_
      exact .pure (.varNode typeName name)
    · apply h.looseArguments.bind
      intro _ _ hargs
      exact .pure (.applied typeName hargs)
    · exact concurs_nameForm h
  split
  · exact concurs_nameForm h
  split
  · exact .self (fun _ => .takeText_any) .refl
  split
  · exact h.parenthesized
  · exact .reject

/-- In front of no operator that assigns, HLSL makes no round of its loop and Metal nests no
assignment. -/
theorem concurs_expressionWith (h : Concurs undisputed SameCore expr expr') :
    Concurs undisputed SameCore (Hlsl.expressionWith expr) (Metal.expressionWith expr') := by
  have hoperand : Concurs undisputed SameCore (Hlsl.unaryWith expr) (Metal.unaryWith expr') :=
    (concurs_operandForm h).signed
  apply hoperand.disjunction.bind
  intro a b hab c hc
  have hplain : c.kind ∉ Form.assignOperators := by
    have hkind : c.kind ∉ disputedKinds := hc.current
    simp only [disputedKinds, List.mem_cons, not_or] at hkind
    simp [Form.assignOperators, hkind]
  have hstop : isAt Form.assignOperators c = .ok false c := by rw [isAt_run, decide_eq_false hplain]
  rw [bind_of_ok (loop_stop hstop), bind_of_ok hstop]
  exact h.choice hab c hc

theorem concurs_expressionAt (n : Nat) :
    Concurs undisputed SameCore (Hlsl.expressionAt n) (Metal.expressionAt n) := by
  induction n with
  | zero => exact .throw
  | succ n ih => exact concurs_expressionWith ih

theorem concurs_expression : Concurs undisputed SameCore Hlsl.expression Metal.expression :=
  fun c hc => concurs_expressionAt (c.rest.length + 1) c hc

end Expressions

/-- The two grammars read expressions alike.  Whatever tokens there are, if none of them assigns and
none is a type that one of the grammars alone begins a value with, both read the same tree, up to
the semantics and attributes of variables, and stop at the same place, or both reject the tokens
there for the same reason. -/
theorem expression_grammars_agree (ts : List Token) (h : ∀ t ∈ ts, t.kind ∉ disputedKinds) :
    (∃ e e' c, Hlsl.expression (Language.hlsl.start ts) = .ok e c ∧
      Metal.expression (Language.metal.start ts) = .ok e' c ∧ e.core = e'.core) ∨
    ∃ why c, Hlsl.expression (Language.hlsl.start ts) = .error (.rejected why) c ∧
      Metal.expression (Language.metal.start ts) = .error (.rejected why) c := by
  have hahead : Ahead undisputed (Language.hlsl.start ts) := fun t ht =>
    h t ((Language.start_suffix .hlsl ts).subset ht)
  have hends : Hlsl.setting.Settles 1 _ (Hlsl.expression (Language.hlsl.start ts)) :=
    Hlsl.ends_expression.settles ⟨fun _ _ => trivial, trivial⟩ (Nat.lt_succ_self _) trivial
  have hsame := concurs_expression _ hahead
  -- Metal starts at the same place.
  change SameOutcome undisputed SameCore (Hlsl.expression (Language.hlsl.start ts))
    (Metal.expression (Language.metal.start ts)) at hsame
  generalize Hlsl.expression (Language.hlsl.start ts) = r at hends hsame ⊢
  generalize Metal.expression (Language.metal.start ts) = s at hsame ⊢
  cases hsame with
  | ok h _ => exact .inl ⟨_, _, _, rfl, rfl, h⟩
  | error =>
    obtain ⟨-, why, rfl⟩ := hends
    exact .inr ⟨why, _, rfl, rfl⟩

/-- The tokens of `int(x) ? y z`, a choice that goes on in the wrong way. -/
def brokenChoice : List Token :=
  [⟨.intType, "int".toList⟩, ⟨.leftParen, "(".toList⟩, ⟨.identifier, "x".toList⟩,
   ⟨.rightParen, ")".toList⟩, ⟨.question, "?".toList⟩, ⟨.identifier, "y".toList⟩,
   ⟨.identifier, "z".toList⟩]

theorem expression_grammars_agree_brokenChoice :
    (∀ t ∈ brokenChoice, t.kind ∉ disputedKinds) ∧
    ∃ why c, Hlsl.expression (Language.hlsl.start brokenChoice) = .error (.rejected why) c ∧
      Metal.expression (Language.metal.start brokenChoice) = .error (.rejected why) c := by
  refine ⟨by decide, ?_⟩
  rcases expression_grammars_agree brokenChoice (by decide) with ⟨e, _, c, he, -⟩ | hrejected
  · have hfault : ∀ e c, Hlsl.expression (Language.hlsl.start brokenChoice) ≠ .ok e c := by
      intro e c h
      cases h
    exact absurd he (hfault e c)
  · exact hrejected

end Backward

end ShaderBridge
