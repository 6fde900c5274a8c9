import ShaderBridge.Proofs.CrossGl.Lexemes
import ShaderBridge.Proofs.CrossGl.Phrase

/-!
# Arithmetic without grouping

Which trees of arithmetic can be written without parentheses that group (`Stands`), and how many
tokens it takes to write a tree (`Tree.weight`).

- `Phrase.stands_of_flat`: the tree of a phrase without grouping stands without parentheses.
- `Phrase.regrouped`: a phrase whose tree stands without parentheses can be derived again without
  grouping, from the same tokens.
-/

namespace ShaderBridge

/-! ## §1 Trees with their texts changed -/

namespace Tree

mutual

/-- A tree with a function applied to all its texts. -/
def mapText (f : Text → Text) : Tree → Tree
  | text s => text (f s)
  | list ts => list (mapTexts f ts)
  | tuple ts => tuple (mapTexts f ts)
  | node k fields => node k (mapFields f fields)
  | t => t

/-- Trees with a function applied to all their texts. -/
def mapTexts (f : Text → Text) : List Tree → List Tree
  | [] => []
  | t :: ts => mapText f t :: mapTexts f ts

/-- Fields with a function applied to all their texts. -/
def mapFields (f : Text → Text) : List (Field × Tree) → List (Field × Tree)
  | [] => []
  | (k, t) :: fields => (k, mapText f t) :: mapFields f fields

end

/-- The tokens that a node takes besides those of its fields. -/
def joints : NodeKind → Nat
  | .call | .ternary => 2
  | .member => 1
  | _ => 0

mutual

/-- The tokens that it takes to write a tree without grouping: a value takes one, and a list takes
separators. -/
def weight : Tree → Nat
  | list ts => weights ts + (ts.length - 1)
  | node .var _ => 1
  | node k fields => joints k + fieldWeights fields
  | _ => 1

/-- The weights of trees, added up. -/
def weights : List Tree → Nat
  | [] => 0
  | t :: ts => weight t + weights ts

/-- The weights of fields, added up. -/
def fieldWeights : List (Field × Tree) → Nat
  | [] => 0
  | (_, t) :: fields => weight t + fieldWeights fields

end

-- Their equations are derived once, here, and not in each of the proofs below.
attribute [local grind =] mapText mapTexts mapFields joints weight weights fieldWeights

theorem mapTexts_eq (f : Text → Text) (ts : List Tree) : mapTexts f ts = ts.map (mapText f) := by
  induction ts with
  | nil => rfl
  | cons t ts ih => rw [mapTexts, ih, List.map_cons]

mutual

theorem weight_mapText (f : Text → Text) : (t : Tree) → (t.mapText f).weight = t.weight
  | text _ | absent | flag _ | number _ | tuple _ => by simp [mapText, weight]
  | list ts => by
    rw [mapText, weight, weight, weights_mapTexts, mapTexts_eq, List.length_map]
  | node k fields => by
    cases k <;> simp [mapText, weight, fieldWeights_mapFields]

theorem weights_mapTexts (f : Text → Text) : (ts : List Tree) →
    weights (mapTexts f ts) = weights ts
  | [] => rfl
  | t :: ts => by rw [mapTexts, weights, weights, weight_mapText, weights_mapTexts]

theorem fieldWeights_mapFields (f : Text → Text) : (fields : List (Field × Tree)) →
    fieldWeights (mapFields f fields) = fieldWeights fields
  | [] => rfl
  | (_, t) :: fields => by
    rw [mapFields, fieldWeights, fieldWeights, weight_mapText, fieldWeights_mapFields]

end

mutual

theorem mapText_id : (t : Tree) → t.mapText id = t
  | text _ | absent | flag _ | number _ => by simp [mapText]
  | list ts | tuple ts => by rw [mapText, mapTexts_id]
  | node k fields => by rw [mapText, mapFields_id]

theorem mapTexts_id : (ts : List Tree) → mapTexts id ts = ts
  | [] => rfl
  | t :: ts => by rw [mapTexts, mapText_id, mapTexts_id]

theorem mapFields_id : (fields : List (Field × Tree)) → mapFields id fields = fields
  | [] => rfl
  | (k, t) :: fields => by rw [mapFields, mapText_id, mapFields_id]

end

/-! ## §2 Parts of a node -/

theorem binary_inj {l op r l' op' r' : Tree} :
    binary l op r = binary l' op' r' ↔ l = l' ∧ op = op' ∧ r = r' := by
  simp [binary]

theorem unary_inj {op x op' x' : Tree} : unary op x = unary op' x' ↔ op = op' ∧ x = x' := by
  simp [unary]

theorem call_inj {n n' : Tree} {args args' : List Tree} :
    call n args = call n' args' ↔ n = n' ∧ args = args' := by
  simp [call]

@[simp] theorem weight_ofText? (s : Option Text) : (ofText? s).weight = 1 := by
  cases s <;> rfl

@[simp] theorem weight_binary (l op r : Tree) :
    (binary l op r).weight = l.weight + op.weight + r.weight := by
  simp [binary, weight, fieldWeights, joints, Nat.add_assoc]

@[simp] theorem weight_unary (op x : Tree) : (unary op x).weight = op.weight + x.weight := by
  simp [unary, weight, fieldWeights, joints]

@[simp] theorem weight_ternary (c yes no : Tree) :
    (ternary c yes no).weight = c.weight + yes.weight + no.weight + 2 := by
  simp only [ternary, weight, fieldWeights, joints]
  omega

@[simp] theorem weight_memberOf (o m : Tree) :
    (memberOf o m).weight = o.weight + m.weight + 1 := by
  simp only [memberOf, weight, fieldWeights, joints]
  omega

@[simp] theorem weight_call (n : Tree) (args : List Tree) :
    (call n args).weight = n.weight + weights args + (args.length - 1) + 2 := by
  simp only [call, weight, fieldWeights, joints]
  omega

@[simp] theorem mapText_ofText? (f : Text → Text) (s : Option Text) :
    (ofText? s).mapText f = ofText? (s.map f) := by
  cases s <;> simp [ofText?, mapText]

@[simp] theorem mapText_binary (f : Text → Text) (l op r : Tree) :
    (binary l op r).mapText f = binary (l.mapText f) (op.mapText f) (r.mapText f) := by
  simp [binary, mapText, mapFields]

@[simp] theorem mapText_unary (f : Text → Text) (op x : Tree) :
    (unary op x).mapText f = unary (op.mapText f) (x.mapText f) := by
  simp [unary, mapText, mapFields]

@[simp] theorem mapText_var (f : Text → Text) (vtype n : Tree) :
    (var vtype n).mapText f = var (vtype.mapText f) (n.mapText f) := by
  simp [var, mapText, mapFields]

@[simp] theorem mapText_call (f : Text → Text) (n : Tree) (args : List Tree) :
    (call n args).mapText f = call (n.mapText f) (args.map (mapText f)) := by
  simp [call, mapText, mapFields, mapTexts_eq]

end Tree

namespace CrossGl

open Ladder Lexicon

variable {links : List TokenKind} {r : Rank}

/-! ## §3 Trees that need no parentheses -/

/-- How tightly a tree is held together where it stands. -/
inductive Strength where
  | sum
  | product
  | signed
  | operand
deriving DecidableEq, Repr

/-- A tree of arithmetic can be written without parentheses where a strength is asked for. -/
inductive Stands : Strength → Tree → Prop where
  | number (s : Option Text) : Stands .operand (Tree.ofText? s)
  | name (s : Option Text) : Stands .operand (Tree.var (.text []) (Tree.ofText? s))
  | call (s : Option Text) (args : List Tree) (h : ∀ a ∈ args, Stands .sum a) :
      Stands .operand (Tree.call (Tree.ofText? s) args)
  | unsigned {t : Tree} (h : Stands .operand t) : Stands .signed t
  | sign {k : TokenKind} {t : Tree} (hk : k ∈ [.plus, .minus]) (h : Stands .signed t) :
      Stands .signed (Tree.unary (.text k.label) t)
  | factor {t : Tree} (h : Stands .signed t) : Stands .product t
  | scaled {k : TokenKind} {l u : Tree} (hk : k ∈ [.multiply, .divide]) (hl : Stands .product l)
      (hu : Stands .signed u) : Stands .product (Tree.binary l (.text k.label) u)
  | term {t : Tree} (h : Stands .product t) : Stands .sum t
  | added {k : TokenKind} {l m : Tree} (hk : k ∈ [.plus, .minus]) (hl : Stands .sum l)
      (hm : Stands .product m) : Stands .sum (Tree.binary l (.text k.label) m)

namespace Stands

variable {s : Strength} {l x n : Tree} {args : List Tree} {k : TokenKind}

theorem label_ne : ∀ k ∈ [TokenKind.plus, .minus], ∀ j ∈ [TokenKind.multiply, .divide],
    k.label ≠ j.label := by
  decide

theorem ofText?_ne_node (s : Option Text) (k : NodeKind) (fields : List (Field × Tree)) :
    Tree.ofText? s ≠ .node k fields := by
  cases s <;> exact nofun

/-- A sum stands only where a sum is asked for. -/
theorem of_sum (h : Stands s (Tree.binary l (.text k.label) x)) (hk : k ∈ [.plus, .minus]) :
    s = .sum ∧ Stands .sum l ∧ Stands .product x := by
  generalize ht : Tree.binary l (.text k.label) x = t at h
  induction h with
  | number s => exact absurd ht.symm (ofText?_ne_node s _ _)
  | name | call | sign => cases ht
  | unsigned _ ih | factor _ ih | term _ ih => cases (ih ht).1
  | scaled hj =>
    simp only [Tree.binary_inj, Tree.text.injEq] at ht
    exact absurd ht.2.1 (label_ne _ hk _ hj)
  | added hj hl hm =>
    obtain ⟨rfl, -, rfl⟩ := Tree.binary_inj.1 ht
    exact ⟨rfl, hl, hm⟩

/-- A product stands where a product or a sum is asked for. -/
theorem of_product (h : Stands s (Tree.binary l (.text k.label) x))
    (hk : k ∈ [.multiply, .divide]) :
    (s = .sum ∨ s = .product) ∧ Stands .product l ∧ Stands .signed x := by
  generalize ht : Tree.binary l (.text k.label) x = t at h
  induction h with
  | number s => exact absurd ht.symm (ofText?_ne_node s _ _)
  | name | call | sign => cases ht
  | unsigned _ ih | factor _ ih => simpa using (ih ht).1
  | term _ ih => exact ⟨.inl rfl, (ih ht).2⟩
  | scaled hj hl hu =>
    obtain ⟨rfl, -, rfl⟩ := Tree.binary_inj.1 ht
    exact ⟨.inr rfl, hl, hu⟩
  | added hj =>
    simp only [Tree.binary_inj, Tree.text.injEq] at ht
    exact absurd ht.2.1.symm (label_ne _ hj _ hk)

/-- What has a sign stands everywhere but as an operand. -/
theorem of_sign {op : Tree} (h : Stands s (Tree.unary op x)) :
    s ≠ .operand ∧ Stands .signed x := by
  generalize ht : Tree.unary op x = t at h
  induction h with
  | number s => exact absurd ht.symm (ofText?_ne_node s _ _)
  | name | call | scaled | added => cases ht
  | unsigned _ ih => exact absurd rfl (ih ht).1
  | factor _ ih | term _ ih => exact ⟨nofun, (ih ht).2⟩
  | sign hj hu =>
    obtain ⟨-, rfl⟩ := Tree.unary_inj.1 ht
    exact ⟨nofun, hu⟩

/-- The arguments of a call stand as sums. -/
theorem of_call (h : Stands s (Tree.call n args)) : ∀ a ∈ args, Stands .sum a := by
  generalize ht : Tree.call n args = t at h
  induction h with
  | number s => exact absurd ht.symm (ofText?_ne_node s _ _)
  | name | sign | scaled | added => cases ht
  | unsigned _ ih | factor _ ih | term _ ih => exact ih ht
  | call s args h =>
    obtain ⟨-, rfl⟩ := Tree.call_inj.1 ht
    exact h

/-- Only variables, calls, signs and operators stand. -/
theorem kind_mem {k : NodeKind} {fields : List (Field × Tree)} (h : Stands s (.node k fields)) :
    k ∈ [.var, .call, .unary, .binary] := by
  generalize ht : Tree.node k fields = t at h
  induction h with
  | number s => exact absurd ht.symm (ofText?_ne_node s _ _)
  | name | call | sign | scaled | added =>
    cases ht
    decide
  | unsigned _ ih | factor _ ih | term _ ih => exact ih ht

end Stands

/-! ## §4 Phrases without grouping -/

namespace Phrase

/-- The tokens of a phrase without grouping are as many as its tree weighs. -/
def Weighs : {r : Rank} → Phrase links r → Prop
  | .expr, p | .head, p | .last, p | .sum, p | .product, p | .signed, p | .operand, p =>
    p.bare.length = p.value.weight
  | .arguments, p => p.bare.length + 1 = Tree.weights p.value + p.value.length

theorem weight_member (o : Tree) (ms : List Member) :
    (Member.tree o ms).weight = o.weight + (Member.tokens ms).length := by
  induction ms generalizing o with
  | nil => rfl
  | cons m ms ih =>
    rw [Member.tree_cons, ih, Member.tokens_cons, Tree.weight_memberOf, Tree.weight_ofText?]
    simp only [List.length_cons]
    omega

@[simp] theorem weight_label (op : Token) : (label op).weight = 1 := rfl

/-- The weight of a tree is the number of its tokens without grouping. -/
theorem weighs (p : Phrase links r) : Weighs p := by
  -- Along the derivation: a construct weighs what its tokens without grouping count.
  induction p with
  | alone l ih | opening l ih | settled l ih | term l ih | factor l ih | unsigned l ih
  | group _ l _ ih => exact ih
  | linked h op l ihh ihl | extended h op l ihh ihl | added h op l ihh ihl
  | scaled h op l ihh ihl =>
    simp only [Weighs, bare] at ihh ihl
    simp only [Weighs, bare, shown, value, Tree.weight_binary, weight_label, List.length_append,
      List.length_cons]
    omega
  | choice a mark yes colon no iha ihy ihn =>
    simp only [Weighs, bare] at iha ihy ihn
    simp only [Weighs, bare, shown, value, Tree.weight_ternary, List.length_append,
      List.length_cons]
    omega
  | sign s u ih =>
    simp only [Weighs, bare] at ih
    simp only [Weighs, bare, shown, value, Tree.weight_unary, weight_label, List.length_cons]
    omega
  | number n | emptyCall n => simp [Weighs, bare, shown, value, Tree.weights]
  | name n => rfl
  | call n opens args closes ih =>
    simp only [Weighs, bare] at ih
    have hpos : 0 < args.value.length := by cases args <;> simp [value]
    simp only [Weighs, bare, shown, value, Tree.weight_call, Tree.weight_ofText?,
      List.length_append, List.length_cons, List.length_nil]
    omega
  | member n m more =>
    simp [Weighs, bare, shown, value, weight_member]
    omega
  | argument e ih =>
    simp only [Weighs, bare] at ih
    simp [Weighs, bare, shown, value, Tree.weights, ih]
  | further e comma args ihe iha =>
    simp only [Weighs, bare] at ihe iha
    simp only [Weighs, bare, shown, value, Tree.weights, List.length_append, List.length_cons]
    omega

/-- The kinds of token in arithmetic. -/
def arithmeticKinds : List TokenKind :=
  [.plus, .minus, .multiply, .divide, .leftParen, .rightParen, .comma, .number, .decimal] ++
    nameKinds

/-- The tree of a phrase stands where the phrase does. -/
def Upright : {r : Rank} → Phrase links r → Prop
  | .expr, p | .head, p | .last, p | .sum, p => Stands .sum p.value
  | .product, p => Stands .product p.value
  | .signed, p => Stands .signed p.value
  | .operand, p => Stands .operand p.value
  | .arguments, p => ∀ a ∈ p.value, Stands .sum a

theorem flat_of_join {r' : Rank} {a : Phrase links r} {b : Phrase links r'} {t : Token}
    (h : (a.tokens ++ t :: b.tokens).length ≤ (a.bare ++ t :: b.bare).length) :
    a.tokens.length ≤ a.bare.length ∧ b.tokens.length ≤ b.bare.length := by
  have ha := a.bare_sublist.length_le
  have hb := b.bare_sublist.length_le
  simp only [List.length_append, List.length_cons] at h
  omega

/-- The tree of arithmetic without grouping stands without parentheses. -/
theorem stands_of_flat (hlinks : ∀ k ∈ links, k ∉ arithmeticKinds) (p : Phrase links r)
    (hkinds : ∀ t ∈ p.tokens, t.kind ∈ arithmeticKinds)
    (hflat : p.tokens.length ≤ p.bare.length) : Upright p := by
  induction p with
  | alone l ih | opening l ih | settled l ih => exact ih hkinds hflat
  | term m ih => exact .term (ih hkinds hflat)
  | factor u ih => exact .factor (ih hkinds hflat)
  | unsigned o ih => exact .unsigned (ih hkinds hflat)
  -- Links, choices and members have tokens that are not arithmetic.
  | linked h op | extended h op =>
    exact absurd (hkinds op.1 (by simp [tokens])) (hlinks _ op.2)
  | choice a mark =>
    exact absurd (hkinds mark.1 (by simp [tokens])) (by rw [mark.kind_eq]; decide)
  | member n m =>
    exact absurd (hkinds m.1.1 (by simp [tokens])) (by rw [m.1.kind_eq]; decide)
  | added a op m iha ihm =>
    obtain ⟨ha, hm⟩ := flat_of_join hflat
    simp only [tokens, List.forall_mem_append, List.forall_mem_cons] at hkinds
    exact .added op.2 (iha hkinds.1 ha) (ihm hkinds.2.2 hm)
  | scaled m op u ihm ihu =>
    obtain ⟨hm, hu⟩ := flat_of_join hflat
    simp only [tokens, List.forall_mem_append, List.forall_mem_cons] at hkinds
    exact .scaled op.2 (ihm hkinds.1 hm) (ihu hkinds.2.2 hu)
  | sign s u ih =>
    simp only [tokens, List.forall_mem_cons] at hkinds
    exact .sign s.2 (ih hkinds.2 (by simpa [tokens, bare, shown] using hflat))
  -- A group has two tokens more than what is left of it.
  | group opens e closes =>
    have he := e.bare_sublist.length_le
    simp only [tokens, bare, shown, List.length_append, List.length_cons] at hflat he
    omega
  | number n => exact .number _
  | name n => exact .name _
  | emptyCall n => exact .call _ _ (by simp)
  | call n opens args closes ih =>
    simp only [tokens, List.forall_mem_append, List.forall_mem_cons] at hkinds
    exact .call _ _ (ih hkinds.2.2.1 (by simpa [tokens, bare, shown] using hflat))
  | argument e ih => simpa [Upright, value] using ih hkinds hflat
  | further e comma args ihe iha =>
    obtain ⟨he, ha⟩ := flat_of_join hflat
    simp only [tokens, List.forall_mem_append, List.forall_mem_cons] at hkinds
    simp only [Upright, value, List.forall_mem_cons]
    exact ⟨ihe hkinds.1 he, iha hkinds.2.2 ha⟩

end Phrase

/-! ## §5 Regrouping -/

/-- A function on texts that goes with one on tokens: names are renamed to names, and everything
else stays. -/
structure Renames (f : Text → Text) (image : Token → Token) : Prop where
  empty : f [] = []
  label : ∀ k ∈ [TokenKind.plus, .minus, .multiply, .divide], f k.label = k.label
  number : ∀ t, crossGl.Lexes t → t.kind ∈ [.number, .decimal] → t.text.map f = t.text
  name : ∀ t, crossGl.Lexes t → t.kind ∈ nameKinds →
    (image t).kind ∈ nameKinds ∧ (image t).text = t.text.map f

theorem Renames.mapText_label {f : Text → Text} {image : Token → Token} (h : Renames f image)
    {op : Token} (hk : op.kind ∈ [.plus, .minus, .multiply, .divide]) :
    (Phrase.label op).mapText f = Phrase.label op := by
  simp [Phrase.label, OperatorForm.value, Tree.mapText, h.label _ hk]

/-- The tokens and the tree are those of arithmetic of a strength. -/
def Strength.Derives : Strength → List Token → Tree → Prop
  | .sum, ts, t => ∃ q : Phrase [] .sum, q.tokens = ts ∧ q.value = t
  | .product, ts, t => ∃ q : Phrase [] .product, q.tokens = ts ∧ q.value = t
  | .signed, ts, t => ∃ q : Phrase [] .signed, q.tokens = ts ∧ q.value = t
  | .operand, ts, t => ∃ q : Phrase [] .operand, q.tokens = ts ∧ q.value = t

namespace Strength.Derives

variable {s : Strength} {ts : List Token} {t : Tree}

theorem of_product (h : Derives .product ts t) (hs : s = .sum ∨ s = .product) :
    Derives s ts t := by
  rcases hs with rfl | rfl
  · obtain ⟨q, rfl, rfl⟩ := h
    exact ⟨.term q, rfl, rfl⟩
  · exact h

theorem of_signed (h : Derives .signed ts t) (hs : s ≠ .operand) : Derives s ts t := by
  obtain ⟨q, rfl, rfl⟩ := id h
  cases s with
  | sum => exact ⟨.term (.factor q), rfl, rfl⟩
  | product => exact ⟨.factor q, rfl, rfl⟩
  | signed => exact h
  | operand => exact absurd rfl hs

theorem of_operand (h : Derives .operand ts t) : Derives s ts t := by
  obtain ⟨q, rfl, rfl⟩ := id h
  by_cases hs : s = .operand
  · rwa [hs]
  · exact of_signed ⟨.unsigned q, rfl, rfl⟩ hs

end Strength.Derives

namespace Phrase

variable {f g : Text → Text} {image image' : Token → Token}

/-- If the tree of a phrase stands, it is derived from the tokens without grouping. -/
def Regroups (g f : Text → Text) (image : Token → Token) : {r : Rank} → Phrase [] r → Prop
  | .expr, p | .head, p | .last, p | .sum, p | .product, p | .signed, p | .operand, p =>
    ∀ s, Stands s (p.value.mapText g) → s.Derives (p.shown image) (p.value.mapText f)
  | .arguments, p => (∀ a ∈ p.value, Stands .sum (a.mapText g)) →
    ∃ q : Phrase [] .arguments, q.tokens = p.shown image ∧ q.value = p.value.map (·.mapText f)

theorem not_stands_member {s : Strength} (o m : Tree) (ms : List Member) :
    ¬Stands s ((Member.tree (Tree.memberOf o m) ms).mapText g) := by
  induction ms generalizing o m with
  | nil =>
    intro h
    exact absurd h.kind_mem (by decide)
  | cons m' ms ih => exact ih _ _

/-- Arithmetic whose tree stands without parentheses, under some names, is derived without
grouping, under any names. -/
theorem regroups (hg : Renames g image') (hf : Renames f image) (p : Phrase [] r)
    (hlex : ∀ t ∈ p.tokens, crossGl.Lexes t) : Regroups g f image p := by
  -- At each operator the trees of the two readings have the same operator at the top, so both
  -- split.
  induction p with
  | alone l ih | opening l ih | settled l ih | term l ih | factor l ih | unsigned l ih =>
    exact ih hlex
  | group opens e closes ih =>
    simp only [tokens, List.forall_mem_append, List.forall_mem_cons] at hlex
    exact ih hlex.2.1
  | linked h op | extended h op => exact absurd op.2 (by simp)
  | choice =>
    intro s h
    exact absurd h.kind_mem (by decide)
  | member n m more =>
    intro s h
    exact absurd h (not_stands_member _ _ more)
  | added a op m iha ihm =>
    simp only [tokens, List.forall_mem_append, List.forall_mem_cons] at hlex
    have hop : op.1.kind ∈ [.plus, .minus, .multiply, .divide] := op.mem (by decide)
    intro s h
    simp only [value, Tree.mapText_binary, hg.mapText_label hop] at h
    obtain ⟨rfl, ha, hm⟩ := h.of_sum op.2
    obtain ⟨qa, hta, hva⟩ := iha hlex.1 _ ha
    obtain ⟨qm, htm, hvm⟩ := ihm hlex.2.2 _ hm
    exact ⟨.added qa op qm, by simp only [tokens, shown, hta, htm],
      by simp only [value, Tree.mapText_binary, hf.mapText_label hop, hva, hvm]⟩
  | scaled m op u ihm ihu =>
    simp only [tokens, List.forall_mem_append, List.forall_mem_cons] at hlex
    have hop : op.1.kind ∈ [.plus, .minus, .multiply, .divide] := op.mem (by decide)
    intro s h
    simp only [value, Tree.mapText_binary, hg.mapText_label hop] at h
    obtain ⟨hs, hm, hu⟩ := h.of_product op.2
    obtain ⟨qm, htm, hvm⟩ := ihm hlex.1 _ hm
    obtain ⟨qu, htu, hvu⟩ := ihu hlex.2.2 _ hu
    refine .of_product ⟨.scaled qm op qu, ?_, ?_⟩ hs
    · simp only [tokens, shown, htm, htu]
    · simp only [value, Tree.mapText_binary, hf.mapText_label hop, hvm, hvu]
  | sign t u ih =>
    simp only [tokens, List.forall_mem_cons] at hlex
    have ht : t.1.kind ∈ [.plus, .minus, .multiply, .divide] := t.mem (by decide)
    intro s h
    simp only [value, Tree.mapText_unary, hg.mapText_label ht] at h
    obtain ⟨hs, hu⟩ := h.of_sign
    obtain ⟨qu, htu, hvu⟩ := ih hlex.2 _ hu
    refine .of_signed ⟨.sign t qu, ?_, ?_⟩ hs
    · simp only [tokens, shown, htu]
    · simp only [value, Tree.mapText_unary, hf.mapText_label ht, hvu]
  -- A word or a number is read back under the name that the dialect has for it.
  | number n =>
    intro s _
    refine .of_operand ⟨.number n, rfl, ?_⟩
    simp [value, hf.number n.1 (hlex _ (by simp [tokens])) n.2]
  | name n =>
    obtain ⟨hk, htext⟩ := hf.name n.1 (hlex _ (by simp [tokens])) n.2
    intro s _
    refine .of_operand ⟨.name ⟨image n.1, hk⟩, rfl, ?_⟩
    simp [value, htext, Tree.mapText, hf.empty]
  | emptyCall n opens closes =>
    obtain ⟨hk, htext⟩ := hf.name n.1 (hlex _ (by simp [tokens])) n.2
    intro s _
    refine .of_operand ⟨.emptyCall ⟨image n.1, hk⟩ opens closes, rfl, ?_⟩
    simp [value, htext]
  | call n opens args closes ih =>
    simp only [tokens, List.forall_mem_append, List.forall_mem_cons] at hlex
    obtain ⟨hk, htext⟩ := hf.name n.1 hlex.1 n.2
    intro s h
    simp only [value, Tree.mapText_call] at h
    obtain ⟨q, htq, hvq⟩ := ih hlex.2.2.1 (by simpa using h.of_call)
    refine .of_operand ⟨.call ⟨image n.1, hk⟩ opens q closes, ?_, ?_⟩
    · simp only [tokens, shown, htq]
    · simp [value, htext, hvq]
  | argument e ih =>
    intro h
    obtain ⟨q, htq, hvq⟩ := ih hlex .sum (h _ (by simp [value]))
    exact ⟨.argument (.alone (.settled q)), htq, by simp [value, hvq]⟩
  | further e comma args ihe iha =>
    simp only [tokens, List.forall_mem_append, List.forall_mem_cons] at hlex
    intro h
    simp only [value, List.forall_mem_cons] at h
    obtain ⟨q, htq, hvq⟩ := ihe hlex.1 .sum h.1
    obtain ⟨qs, htqs, hvqs⟩ := iha hlex.2.2 h.2
    exact ⟨.further (.alone (.settled q)) comma qs, by simp only [tokens, shown, htq, htqs],
      by simp [value, hvq, hvqs]⟩

end Phrase

end CrossGl

end ShaderBridge
