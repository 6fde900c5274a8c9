import ShaderBridge.Proofs.Drawing
import ShaderBridge.Proofs.Printing

/-!
# What parsers make of the tokens of a source

`MakesAt K p P`: in front of a token of a kind with `K`, among tokens as they are cut from a source,
whatever the parser gives satisfies `P`.  It is `DrawsAt` for that class of tokens: every token but
the end has a text, and brackets stand in tokens of the kinds for them only, so a text that is taken
from a token whose kind was looked at has no brackets.

For operator ladders it is enough that a sort of values is closed under the nodes that ladders build
(`LadderClosed`).  A property of values that holds of every text without brackets and of every node
but uniforms holds throughout the trees that are made from such texts (`Builds`).
-/

namespace ShaderBridge.Parser

open Text (Bare)
open ShaderBridge.Tree
    (Every every_list_iff every_tuple_iff every_node_iff every_text_iff every_absent_iff)

variable {α β : Type}

/-! ## §1 Tokens of a source -/

/-- A token as it is cut from a source. -/
structure IsCut (t : Token) : Prop where
  /-- Only the end has no text. -/
  text : t.kind ≠ .endOfInput → t.text.isSome
  /-- Brackets stand only in tokens of the kinds for them. -/
  bare : BareToken t

/-- The tokens as they are cut from a source. -/
def cutTokens : TokenClass := ⟨IsCut, fun h => absurd rfl h, by rintro - s ⟨⟩⟩

/-- The text of a token, without brackets, or nothing. -/
def BareText (t : Tree) : Prop := ∃ o : Option Text, t = Tree.ofText? o ∧ ∀ s ∈ o, Bare s

theorem bareText_text {s : Text} (h : Bare s) : BareText (.text s) := by
  refine ⟨some s, rfl, ?_⟩
  rintro _ ⟨⟩
  exact h

theorem bareText_absent : BareText .absent := ⟨none, rfl, nofun⟩

theorem BareText.of_token {t : Token} (h : IsCut t) (hk : t.kind ∉ bracketKinds) :
    BareText (Tree.ofText? t.text) :=
  ⟨t.text, rfl, h.bare hk⟩

theorem BareText.bare {s : Text} (h : BareText (.text s)) : Bare s := by
  obtain ⟨o, ho, hbare⟩ := h
  cases o with
  | none => cases ho
  | some s' =>
    cases ho
    exact hbare s rfl

theorem isKey_ofText? (o : Option Text) : (Tree.ofText? o).isKey := by
  cases o <;> rfl

theorem BareText.isKey {t : Tree} (h : BareText t) : t.isKey := by
  obtain ⟨o, rfl, -⟩ := h
  exact isKey_ofText? o

/-! ## §2 Texts of tokens -/

/-- In front of a token of a kind with `K`, whatever the parser gives satisfies `P`. -/
abbrev MakesAt (K : TokenKind → Prop) (p : Parser α) (P : α → Prop) : Prop :=
  DrawsAt cutTokens K p P

/-- The same whatever token stands in front. -/
abbrev Makes (p : Parser α) (P : α → Prop) : Prop := MakesAt (fun _ => True) p P

namespace MakesAt

variable {K : TokenKind → Prop} {tv : Trivia} {k : TokenKind} {ks : List TokenKind}

theorem takeText (hK : ∀ k, K k → k ∉ bracketKinds) : MakesAt K (takeText tv) BareText := by
  refine DrawsAt.take.bind_pure fun _ ht => ?_
  exact .of_token ht.2 (hK _ ht.1)

theorem takeText_any : MakesAt K (Parser.takeText tv) fun t => t.isKey := by
  refine DrawsAt.take.bind_pure fun t _ => ?_
  exact isKey_ofText? t.text

theorem takeTextOf (h : ∀ k ∈ ks, k ∉ bracketKinds) :
    MakesAt (fun k => k ∈ ks ∧ K k) (Parser.takeText tv) BareText := by
  refine takeText fun k hk => ?_
  exact h k hk.1

theorem takeTextIn (hk : k ∈ ks) (h : ∀ k ∈ ks, k ∉ bracketKinds) :
    MakesAt (· = k) (Parser.takeText tv) BareText := by
  refine takeText ?_
  rintro _ rfl
  exact h _ hk

theorem takeTextAt {l : TokenKind} (hk : k = l) (h : l ∉ bracketKinds) :
    MakesAt (· = k) (Parser.takeText tv) BareText := by
  refine takeText fun _ hl => ?_
  exact hl ▸ hk ▸ h

theorem expectText (hk : k ∉ bracketKinds) : MakesAt K (expectText tv k) BareText := by
  refine DrawsAt.expect.bind_pure fun _ ht => ?_
  exact .of_token ht.2 (ht.1 ▸ hk)

/-- What is expected has a text, the end apart. -/
theorem expectWord (hk : k ∉ bracketKinds) (hend : k ≠ .endOfInput) :
    MakesAt K (Parser.expectText tv k) fun t => ∃ s, t = .text s ∧ Bare s :=
  DrawsAt.expect.bind_pure fun t ht => by
    obtain ⟨s, hs⟩ := Option.isSome_iff_exists.1 (ht.2.text (ht.1 ▸ hend))
    rw [hs]
    exact ⟨s, rfl, ht.2.bare (ht.1 ▸ hk) s hs⟩

end MakesAt

/-! ## §3 Ladders -/

open Ladder

/-- A sort of values that is closed under the nodes that ladders build. -/
structure LadderClosed (P : Tree → Prop) : Prop where
  binary : ∀ {left op right}, P left → BareText op → P right → P (Tree.binary left op right)
  unary : ∀ {op operand}, BareText op → P operand → P (Tree.unary op operand)
  ternary : ∀ {c yes no}, P c → P yes → P no → P (Tree.ternary c yes no)
  memberOf : ∀ {object} {s : Text}, P object → Bare s → P (Tree.memberOf object (.text s))

/-- The operators of a rung, whose labels and texts have no brackets. -/
def Plain (ops : List TokenKind) : Prop := ∀ k ∈ ops, k ∉ bracketKinds ∧ Bare k.label

instance (ops : List TokenKind) : Decidable (Plain ops) :=
  inferInstanceAs (Decidable (∀ k ∈ ops, _))

namespace LadderClosed

variable {P : Tree → Prop} {operand expr : Parser Tree} {tv : Trivia} {form : OperatorForm}
  {ops : List TokenKind}

theorem bareText_operator (hops : Plain ops) {t : Token} (hk : t.kind ∈ ops) (ht : IsCut t) :
    BareText (form.value t) := by
  cases form with
  | byText => exact .of_token ht (hops _ hk).1
  | byLabel => exact bareText_text (hops _ hk).2

theorem rung (hP : LadderClosed P) (hops : Plain ops) (h : Makes operand P) :
    Makes (rung tv form ops operand) P := by
  apply h.bind
  intro first hfirst
  refine DrawsAt.loop looks_isAt (fun left hleft => ?_) hfirst
  apply DrawsAt.take.bind
  intro op hop
  refine h.bind_pure fun right hright => ?_
  exact hP.binary hleft (bareText_operator hops hop.1 hop.2) hright

theorem signed (hP : LadderClosed P) (h : Makes operand P) : Makes (signed tv form operand) P := by
  have hops : Plain [.plus, .minus] := by decide
  apply (DrawsAt.many looks_isAt DrawsAt.take).bind
  intro signs hsigns
  refine h.bind_pure fun e he => ?_
  induction signs with
  | nil => exact he
  | cons sign signs ih =>
    obtain ⟨hsign, hrest⟩ := List.forall_mem_cons.1 hsigns
    exact hP.unary (bareText_operator hops hsign.1 hsign.2) (ih hrest)

theorem sum (hP : LadderClosed P) (h : Makes operand P) : Makes (sum tv form operand) P :=
  hP.rung (by decide) (hP.rung (by decide) h)

theorem disjunction (hP : LadderClosed P) (h : Makes operand P) :
    Makes (disjunction tv operand) P :=
  hP.rung (by decide) (hP.rung (by decide) (hP.rung (by decide) (hP.rung (by decide) (hP.sum h))))

theorem choice (hP : LadderClosed P) (h : Makes expr P) {condition : Tree} (hc : P condition) :
    Makes (choice tv expr condition) P := by
  refine DrawsAt.isAt ?_ (.pure hc)
  apply DrawsAt.take.seq
  intro _
  apply h.bind
  intro yes hyes
  apply DrawsAt.expect.seq
  intro _
  refine h.bind_pure fun no hno => ?_
  exact hP.ternary hc hyes hno

/-- Only a name may stand behind a point, and a name has a text. -/
theorem memberStep (hP : LadderClosed P) {object : Tree} (ho : P object) :
    Makes (memberStep tv object) P := by
  apply DrawsAt.expect.seq
  intro _
  refine DrawsAt.check (w := .expected "identifier after dot") ?_
  refine (DrawsAt.take.bind_pure fun t ht => ?_).bind_pure fun member hm => hm
  obtain ⟨⟨hk, -⟩, hcut⟩ := ht
  have hkind : t.kind = .identifier := List.mem_singleton.1 hk
  obtain ⟨s, hs⟩ := Option.isSome_iff_exists.1 (hcut.text (hkind ▸ nofun))
  rw [hs]
  exact hP.memberOf ho (hcut.bare (hkind ▸ by decide) s hs)

theorem memberChain (hP : LadderClosed P) {object : Tree} (ho : P object) :
    Makes (memberChain tv object) P := by
  apply (hP.memberStep ho).bind
  intro _ h
  exact DrawsAt.loop looks_isAt (fun _ h => (hP.memberStep h).here) h

end LadderClosed

/-! ## §4 Trees of texts without brackets -/

/-- A property of values that holds of texts without brackets, of lists and tuples, and of every
node but uniforms. -/
structure Builds (Q : Tree → Prop) : Prop where
  absent : Q .absent
  text : ∀ {s}, Bare s → Q (.text s)
  list : ∀ {xs}, Q (.list xs)
  tuple : ∀ {xs}, Q (.tuple xs)
  node : ∀ {k fs}, k ≠ .uniform → Q (.node k fs)

theorem builds_isBare : Builds Tree.IsBare :=
  ⟨trivial, id, trivial, trivial, fun _ => trivial⟩

theorem bare_node {k : NodeKind} {fs : List (Field × Tree)}
    (h : ∀ p ∈ fs, Every Tree.IsBare p.2) : Every Tree.IsBare (.node k fs) :=
  every_node_iff.2 ⟨trivial, h⟩

namespace Builds

variable {Q : Tree → Prop} {a b c : Tree} {xs ys : List Tree}

theorem ofText (hQ : Builds Q) (h : BareText a) : Every Q a := by
  obtain ⟨o, rfl, ho⟩ := h
  cases o with
  | none => exact every_absent_iff.2 hQ.absent
  | some s => exact every_text_iff.2 (hQ.text (ho s rfl))

theorem literal (hQ : Builds Q) {s : Text} (h : Bare s) : Every Q (.text s) :=
  every_text_iff.2 (hQ.text h)

theorem nothing (hQ : Builds Q) : Every Q .absent := every_absent_iff.2 hQ.absent

theorem ofList (hQ : Builds Q) (h : ∀ x ∈ xs, Every Q x) : Every Q (.list xs) :=
  every_list_iff.2 ⟨hQ.list, h⟩

theorem pair (hQ : Builds Q) (ha : Every Q a) (hb : Every Q b) : Every Q (.tuple [a, b]) :=
  every_tuple_iff.2 ⟨hQ.tuple, by simp [ha, hb]⟩

theorem ofFields (hQ : Builds Q) {k : NodeKind} {fs : List (Field × Tree)} (hk : k ≠ .uniform)
    (h : ∀ p ∈ fs, Every Q p.2) : Every Q (.node k fs) :=
  every_node_iff.2 ⟨hQ.node hk, h⟩

theorem binary (hQ : Builds Q) (ha : Every Q a) (hb : Every Q b) (hc : Every Q c) :
    Every Q (Tree.binary a b c) :=
  hQ.ofFields nofun (by simp [ha, hb, hc])

theorem unary (hQ : Builds Q) (ha : Every Q a) (hb : Every Q b) : Every Q (Tree.unary a b) :=
  hQ.ofFields nofun (by simp [ha, hb])

theorem ternary (hQ : Builds Q) (ha : Every Q a) (hb : Every Q b) (hc : Every Q c) :
    Every Q (Tree.ternary a b c) :=
  hQ.ofFields nofun (by simp [ha, hb, hc])

theorem memberOf (hQ : Builds Q) (ha : Every Q a) (hb : Every Q b) : Every Q (Tree.memberOf a b) :=
  hQ.ofFields nofun (by simp [ha, hb])

theorem call (hQ : Builds Q) (ha : Every Q a) (hxs : ∀ x ∈ xs, Every Q x) :
    Every Q (Tree.call a xs) :=
  hQ.ofFields nofun (by simp [ha, hQ.ofList hxs])

theorem var (hQ : Builds Q) (ha : Every Q a) (hb : Every Q b) : Every Q (Tree.var a b) :=
  hQ.ofFields nofun (by simp [ha, hb])

theorem assignment (hQ : Builds Q) (ha : Every Q a) (hb : Every Q b) :
    Every Q (Tree.assignment a b) :=
  hQ.ofFields nofun (by simp [ha, hb])

theorem returned (hQ : Builds Q) (ha : Every Q a) : Every Q (Tree.returned a) :=
  hQ.ofFields nofun (by simp [ha])

theorem function (hQ : Builds Q) (ha : Every Q a) (hb : Every Q b) (hxs : ∀ x ∈ xs, Every Q x)
    (hys : ∀ y ∈ ys, Every Q y) : Every Q (Tree.function a b xs ys) :=
  hQ.ofFields nofun (by simp [ha, hb, hQ.ofList hxs, hQ.ofList hys])

end Builds

end ShaderBridge.Parser
