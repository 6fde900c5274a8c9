import ShaderBridge.Proofs.History

/-!
# What the GLSL converter looks at in its state

A converter keeps the sections and uniforms of the shader it wrote last.  What it writes in a scope
depends on the section of the scope's own stage alone (`Scope.Same`), and it takes the uniforms and
that section from the shader at hand before it writes anything.  So a shader leads to one outcome in
all states (`steady_generate`).
-/

namespace ShaderBridge.Backward.Glsl

/-! ## §1 Scopes with the same section -/

/-- The section of the stage. -/
def Scope.owner (sc : Scope) : Tree := sc.sections.ofStage sc.stage

/-- Two scopes in which every word refers to the same. -/
structure Scope.Same (sc sc' : Scope) : Prop where
  stage : sc.stage = sc'.stage
  owner : sc.owner = sc'.owner

variable {sc sc' : Scope}

theorem Scope.Same.word (h : sc.Same sc') (t : Tree) : sc.word t = sc'.word t := by
  have howner : sc.sections.ofStage sc.stage = sc'.sections.ofStage sc'.stage := h.owner
  simp only [Scope.word, howner]

theorem expression_congr (h : sc.Same sc') : expression sc = expression sc' := by
  refine congrFun (AlikeBelow.eq (f := fun _ : Unit => expression sc)
    (g := fun _ => expression sc') fun t hbelow _ => ?_) ()
  have hpart := fun x => hbelow.part x ()
  have hitem := fun x y => hbelow.item x y ()
  rw [expression.eq_def sc, expression.eq_def sc']
  split <;> simp only [hpart, hitem, h.word]

theorem update_congr (h : sc.Same sc') : update sc = update sc' := by
  funext t
  simp only [update, trimmed, expression_congr h]

section Statements

variable {t : Tree} (hbelow : AlikeBelow (statement sc) (statement sc') t) (h : sc.Same sc')

include hbelow h

theorem branch_congr (level : Int) : branch sc level t = branch sc' level t := by
  rw [branch, branch]
  simp only [expression_congr h, hbelow.item, hbelow.innermost]

theorem forLoop_congr (level : Int) : forLoop sc level t = forLoop sc' level t := by
  rw [forLoop, forLoop]
  simp only [trimmed, expression_congr h, update_congr h, hbelow.part, hbelow.item]

end Statements

theorem statement_congr (h : sc.Same sc') : statement sc = statement sc' := by
  refine AlikeBelow.eq fun t hbelow level => ?_
  rw [statement.eq_def sc, statement.eq_def sc']
  split <;>
    simp only [branch_congr hbelow h, forLoop_congr hbelow h, assignment, expression_congr h]

theorem functions_congr (h : sc.Same sc') (t : Tree) : functions sc t = functions sc' t := by
  have hfunction : function sc = function sc' := by
    funext t
    simp only [function, statement_congr h]
  simp only [functions, hfunction, h.stage]

/-! ## §2 Shaders -/

/-- A section depends on the uniforms and on what the converter keeps for its stage. -/
theorem stageSection_congr {s s' : State} {stage : Stage} (huniforms : s.uniforms? = s'.uniforms?)
    (howner : s.sections.ofStage (.text stage.label) = s'.sections.ofStage (.text stage.label))
    (shared : Except Fault Text) (owner : Tree) :
    stageSection s stage shared owner = stageSection s' stage shared owner := by
  have hsame : (s.scope (.text stage.label)).Same (s'.scope (.text stage.label)) := ⟨rfl, howner⟩
  simp only [stageSection, uniforms, huniforms, functions_congr hsame]

open Gen (Steady)

/-- The states in which a section is being written. -/
def State.Holding (us : Tree) (stage : Stage) (owner : Tree) (s : State) : Prop :=
  s.uniforms? = some us ∧ s.sections.ofStage (.text stage.label) = owner

theorem State.Holding.stageSection_eq {us : Tree} {stage : Stage} {held : Tree} {s s' : State}
    (hs : s.Holding us stage held) (hs' : s'.Holding us stage held) (shared : Except Fault Text)
    (owner : Tree) : stageSection s stage shared owner = stageSection s' stage shared owner :=
  stageSection_congr (hs.1.trans hs'.1.symm) (hs.2.trans hs'.2.symm) shared owner

/-- Everything a shader is written from is taken from the shader itself. -/
theorem steady_shader (t : Tree) : Steady (fun _ => True) (fun _ => True) (shader t) := by
  apply (Steady.lift _).seq
  intro ins
  apply (Steady.lift _).seq
  intro outs
  apply (Steady.lift _).seq
  intro us
  -- From here on the uniforms are those of this shader, whatever was held before.
  refine Steady.bind (Q := fun s => s.uniforms? = some us) (.modify fun s _ => rfl) ?_
    fun _ _ => trivial
  intro _
  apply (Steady.lift _).bind ?_ fun _ _ => trivial
  intro vertex
  refine Steady.bind (Q := State.Holding us .vertex vertex) (.modify fun s hs => ⟨hs, rfl⟩) ?_
    fun _ _ => trivial
  intro _
  split
  · exact .throwThen fun _ _ => trivial
  · apply Steady.viewThen (fun s s' hs hs' => hs.stageSection_eq hs' _ vertex) ?_ fun _ _ => trivial
    intro vertexText
    apply (Steady.lift _).bind ?_ fun _ _ => trivial
    intro fragment
    refine Steady.bind (Q := State.Holding us .fragment fragment)
      (.modify fun s hs => ⟨hs.1, rfl⟩) ?_
      fun _ _ => trivial
    intro _
    apply (Steady.lift _).bind ?_ fun _ _ => trivial
    intro written
    split
    · exact .throwThen fun _ _ => trivial
    · apply Steady.viewThen (fun s s' hs hs' => hs.stageSection_eq hs' _ fragment) ?_
        fun _ _ => trivial
      intro fragmentText
      exact (Steady.pure _).mono fun _ _ => trivial

theorem steady_generate (t : Tree) : Steady (fun _ => True) (fun _ => True) (generate t) := by
  unfold generate
  split
  · exact steady_shader t
  · exact .pure []

end ShaderBridge.Backward.Glsl
