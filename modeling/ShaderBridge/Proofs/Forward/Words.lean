import ShaderBridge.Proofs.CrossGl.Shapes

/-!
# Words of a stage

In the scope of a stage a word is written as a member of `input` where it names an input of the
stage, as a member of `output` where it names an output only, and else under the name that the
dialect has for it (`word_text`).  Which of the three it is depends on the section alone.
-/

namespace ShaderBridge.Forward

open Scope

/-- A pair of a type and a name, as inputs, outputs and parameters are kept. -/
def IsPair (t : Tree) : Prop := ∃ vtype name : Tree, t = .tuple [vtype, name]

/-- The names of variables that are kept as pairs of type and name. -/
def variableNames (vs : List Tree) : List Text :=
  vs.filterMap fun t =>
    match t with
    | .tuple [_, .text name] => some name
    | _ => none

theorem findVariable_text {vs : List Tree} (h : ∀ p ∈ vs, IsPair p) (w : Text) :
    findVariable (.text w) vs = .ok (if w ∈ variableNames vs then some (.text w) else none) := by
  induction vs with
  | nil => rfl
  | cons p vs ih =>
    obtain ⟨hp, hvs⟩ := List.forall_mem_cons.1 h
    obtain ⟨vtype, name, rfl⟩ := hp
    show (if (Tree.text w).same name then Pure.pure (some name) else findVariable (.text w) vs) = _
    rw [ih hvs]
    cases name with
    | text n =>
      have hnames : variableNames (.tuple [vtype, .text n] :: vs) = n :: variableNames vs := rfl
      by_cases hw : w = n
      · simp [hnames, Tree.same, hw, Pure.pure, Except.pure]
      · simp [hnames, Tree.same, hw]
    | _ => rfl

theorem variableIn_list {owner : Tree} {f : Field} {vs : List Tree} (howner : owner.isSet)
    (hget : owner.get f = .ok (.list vs)) (h : ∀ p ∈ vs, IsPair p) (w : Text) :
    variableIn owner f (.text w) = .ok (if w ∈ variableNames vs then some (.text w) else none) := by
  rw [variableIn, if_pos howner, hget]
  cases vs with
  | nil => rfl
  | cons v vs => exact findVariable_text h w

/-- A word of a stage in a dialect that has stage structures. -/
def writtenWord (d : Dialect) (items : CrossGl.SectionItems) (w : Text) : Text :=
  if w ∈ variableNames items.inputs then "input." ++ w
  else if w ∈ variableNames items.outputs then "output." ++ w
  else d.renamed w

variable {sc : Scope} {items : CrossGl.SectionItems} {k : NodeKind}

theorem memberOf_text (hd : sc.dialect.hasStageStructs) (struct w : Text) :
    sc.memberOf struct (.text w) = .text (struct ++ '.' :: w) := by
  have hplain : plain (.text w) = w := rfl
  rw [memberOf, if_pos hd, hplain]
  simp [Text.cat]

/-- A word is looked up among the inputs, then among the outputs. -/
theorem word_text (hd : sc.dialect.hasStageStructs) (howner : sc.owner = items.node k)
    (h : CrossGl.SectionShape items) (w : Text) :
    sc.word (.text w) = .ok (.text (writtenWord sc.dialect items w)) := by
  have hpair : ∀ {vs : List Tree}, (∀ v ∈ vs, CrossGl.VariableShape v) → ∀ v ∈ vs, IsPair v := by
    intro vs hvs v hv
    obtain ⟨vtype, name, rfl, -⟩ := hvs v hv
    exact ⟨vtype, .text name, rfl⟩
  have hins : variableIn (items.node k) .inputs (.text w)
      = .ok (if w ∈ variableNames items.inputs then some (.text w) else none) :=
    variableIn_list rfl rfl (hpair h.inputs) w
  have houts : variableIn (items.node k) .outputs (.text w)
      = .ok (if w ∈ variableNames items.outputs then some (.text w) else none) :=
    variableIn_list rfl rfl (hpair h.outputs) w
  rw [word, howner, hins, writtenWord]
  -- Inputs are looked up before outputs.
  by_cases hi : w ∈ variableNames items.inputs
  · rw [if_pos hi, if_pos hi]
    show Except.ok (sc.memberOf "input" (.text w)) = _
    rw [memberOf_text hd]
    rfl
  · rw [if_neg hi, if_neg hi]
    show (variableIn (items.node k) .outputs (.text w) >>= _) = _
    rw [houts]
    by_cases ho : w ∈ variableNames items.outputs
    · rw [if_pos ho, if_pos ho]
      show Except.ok (sc.memberOf "output" (.text w)) = _
      rw [memberOf_text hd]
      rfl
    · rw [if_neg ho, if_neg ho]
      exact Dialect.mapWord_text sc.dialect w

end ShaderBridge.Forward
