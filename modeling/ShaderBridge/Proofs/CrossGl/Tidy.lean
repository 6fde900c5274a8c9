import ShaderBridge.Proofs.CrossGl.Shapes

/-!
# Tidy trees

Every tree that the grammar of CrossGL gives is tidy throughout (`ShaderShape.every_tidy`): its
texts have no brackets, and no uniform is kept.
-/

namespace ShaderBridge.CrossGl

open ShaderBridge.Parser Ladder
open Text (Bare)
open ShaderBridge.Tree (Every)

/-! ## §1 Tidy trees -/

/-- The value is no text with a bracket and no uniform. -/
def Tidy : Tree → Prop
  | .text s => Bare s
  | .node .uniform _ => False
  | _ => True

theorem builds_tidy : Builds Tidy where
  absent := trivial
  text := id
  list := trivial
  tuple := trivial
  node {k fs} hk := by
    unfold Tidy
    split
    · next heq => cases heq
    · next heq =>
      cases heq
      exact absurd rfl hk
    · trivial

theorem Tidy.isBare {t : Tree} (h : Tidy t) : t.IsBare := by
  cases t with
  | text s => exact h
  | _ => trivial

/-- A list of values, tidy throughout. -/
abbrev AllTidy (ts : List Tree) : Prop := ∀ t ∈ ts, Every Tidy t

/-! ## §2 Statements -/

theorem ExprShape.every_tidy {t : Tree} (h : ExprShape t) : Every Tidy t := by
  have hb := builds_tidy
  induction h with
  | word h => exact hb.ofText h
  | var hv _ ih => exact hb.var (hb.ofText hv) ih
  | binary _ ho _ ihl ihr => exact hb.binary ihl (hb.ofText ho) ihr
  | unary ho _ ih => exact hb.unary (hb.ofText ho) ih
  | ternary _ _ _ ihc ihy ihn => exact hb.ternary ihc ihy ihn
  | memberOf s _ hs ih => exact hb.memberOf ih (hb.literal hs)
  | call hn _ ih => exact hb.call (hb.ofText hn) ih

theorem CalledShape.every_tidy {t : Tree} (h : CalledShape t) : Every Tidy t := by
  cases h with
  | word h => exact builds_tidy.ofText h
  | node h => exact h.every_tidy

theorem LineShape.every_tidy {t : Tree} (h : LineShape t) : Every Tidy t := by
  have hb := builds_tidy
  cases h with
  | var hv _ hn => exact hb.var (hb.ofText hv) hn.every_tidy
  | binary hl ho hr => exact hb.binary hl.every_tidy (hb.ofText ho) hr.every_tidy
  | call hn ha => exact hb.call hn.every_tidy fun a h => (ha a h).every_tidy
  | absent => exact hb.nothing

/-- Every part of a statement is tidy. -/
theorem StmtShape.every_tidy {t : Tree} (h : StmtShape t) : Every Tidy t := by
  have hb := builds_tidy
  induction h with
  | line h => exact h.every_tidy
  | returned h => exact hb.returned (hb.ofList fun v hv => (h v hv).every_tidy)
  | forLoop hi hc hu _ ih =>
    refine hb.ofFields nofun ?_
    simp [hi.every_tidy, hc.every_tidy, hu.every_tidy, hb.ofList ih]
  | @branch first others last hc _ hcs _ _ ihb ihbs ihlast =>
    have hconditions : AllTidy (others.map (·.1)) := by
      intro t ht
      obtain ⟨a, ha, rfl⟩ := List.mem_map.1 ht
      exact (hcs a ha).every_tidy
    have hbodies : AllTidy (others.map fun a => .list a.2) := by
      intro t ht
      obtain ⟨a, ha, rfl⟩ := List.mem_map.1 ht
      exact hb.ofList (ihbs a ha)
    have hending : Every Tidy (endingTree last) := by
      cases last with
      | none => exact hb.nothing
      | some ss => exact hb.ofList ihlast
    refine hb.ofFields nofun ?_
    simp [hc.every_tidy, hb.ofList ihb, hb.ofList hconditions, hb.ofList hbodies, hending]

/-! ## §3 Functions, sections and shaders -/

theorem FunctionShape.every_tidy {t : Tree} (h : FunctionShape t) : Every Tidy t := by
  have hb := builds_tidy
  obtain ⟨name, hv, hn, hp, hss⟩ := h
  refine hb.function (hb.ofText hv) (hb.ofText hn) (fun p h => ?_) fun s hs => (hss s hs).every_tidy
  obtain ⟨_, _, rfl, hv, hn⟩ := hp p h
  exact hb.pair (hb.ofText hv) (hb.ofText hn)

theorem allTidy_variables {vs : List Tree} (h : ∀ v ∈ vs, VariableShape v) : AllTidy vs := by
  intro v hv
  obtain ⟨_, _, rfl, hvtype, hname⟩ := h v hv
  exact builds_tidy.pair (builds_tidy.ofText hvtype) (builds_tidy.literal hname)

theorem allTidy_functions {fs : List Tree} (h : ∀ f ∈ fs, FunctionShape f) : AllTidy fs :=
  fun f hf => (h f hf).every_tidy

theorem SectionShape?.every_tidy {k : NodeKind} {t : Tree} (h : SectionShape? k t)
    (hk : k ≠ .uniform) : Every Tidy t := by
  have hb := builds_tidy
  rcases h with rfl | ⟨items, rfl, h⟩
  · exact hb.nothing
  have hstmts : AllTidy items.statements := fun s hs => (h.statements s hs).every_tidy
  refine hb.ofFields hk ?_
  simp [hb.ofList (allTidy_variables h.inputs), hb.ofList (allTidy_variables h.outputs),
    hb.ofList (allTidy_functions h.functions), hb.ofList hstmts]

/-- A shader is tidy throughout. -/
theorem ShaderShape.every_tidy {t : Tree} (h : ShaderShape t) : Every Tidy t := by
  have hb := builds_tidy
  obtain ⟨hn, hins, houts, hs⟩ := h
  refine hb.ofFields nofun ?_
  simp [hb.ofText hn, hb.ofList (allTidy_variables hins), hb.ofList (allTidy_variables houts),
    hb.ofList (allTidy_functions hs.functions), hs.vertex.every_tidy nofun,
    hs.fragment.every_tidy nofun]

end ShaderBridge.CrossGl
