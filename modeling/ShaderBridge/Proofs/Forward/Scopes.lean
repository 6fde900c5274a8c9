import ShaderBridge.Proofs.Forward.Shader
import ShaderBridge.Proofs.History

/-!
# What a generator looks at in its state

A generator keeps the sections of the shader it wrote last.  What it writes in a scope depends on
the section of the scope's own stage and on no other (`Scope.Same`), and that section is always the
one of the shader at hand.

So only the vertex position could be carried from one shader to the next.  In the states in which no
position is pending (`State.Calm`), a shader whose vertex functions set none is always written in
the same way, and such a state is left behind (`steady_generate`).
-/

namespace ShaderBridge.Forward

open Scope

/-! ## §1 Scopes with the same section -/

/-- Two scopes in which every word refers to the same. -/
structure Scope.Same (sc sc' : Scope) : Prop where
  dialect : sc.dialect = sc'.dialect
  stage : sc.stage = sc'.stage
  owner : sc.owner = sc'.owner

variable {sc sc' : Scope}

namespace Scope.Same

theorem word (h : sc.Same sc') (t : Tree) : sc.word t = sc'.word t := by
  simp only [Scope.word, Scope.memberOf, h.owner, h.dialect]

theorem callName (h : sc.Same sc') (t : Tree) : sc.callName t = sc'.callName t := by
  simp only [Scope.callName, h.dialect, h.word]

end Scope.Same

theorem expression_congr (h : sc.Same sc') : expression sc = expression sc' := by
  refine congrFun (AlikeBelow.eq (f := fun _ : Unit => expression sc)
    (g := fun _ => expression sc') fun t hbelow _ => ?_) ()
  have hpart := fun x => hbelow.part x ()
  have hitem := fun x y => hbelow.item x y ()
  rw [expression.eq_def sc, expression.eq_def sc']
  split <;> simp only [hpart, hitem, h.word, h.callName, h.dialect]

theorem setsOutput_congr (h : sc.Same sc') (name : Tree) :
    setsOutput sc name = setsOutput sc' name := by
  simp only [setsOutput, h.dialect, h.stage, h.owner]

theorem assignment_congr (h : sc.Same sc') (t : Tree) : assignment sc t = assignment sc' t := by
  simp only [assignment, assignmentTarget, setsOutput_congr h, expression_congr h, h.dialect]

section Statements

variable {t : Tree} (hbelow : AlikeBelow (statement sc) (statement sc') t)

include hbelow

theorem branch_congr (h : sc.Same sc') (level : Int) : branch sc level t = branch sc' level t := by
  rw [branch, branch]
  simp only [expression_congr h, hbelow.item, hbelow.inner]

theorem forLoop_congr (level : Int) : forLoop sc level t = forLoop sc' level t := by
  rw [forLoop, forLoop]
  simp only [hbelow.part, hbelow.item]

end Statements

theorem statement_congr (h : sc.Same sc') : statement sc = statement sc' := by
  refine AlikeBelow.eq fun t hbelow level => ?_
  rw [statement.eq_def sc, statement.eq_def sc']
  split <;>
    simp only [branch_congr hbelow h, forLoop_congr hbelow, assignment_congr h, expression_congr h,
      h.dialect]

theorem statements_congr (h : sc.Same sc') (level : Int) (t : Tree) :
    statements sc level t = statements sc' level t := by
  simp only [statements, statement_congr h]

theorem plainFunction_congr (h : sc.Same sc') (t : Tree) :
    plainFunction sc t = plainFunction sc' t := by
  simp only [plainFunction, parameters, statements_congr h, h.dialect]

theorem function_congr (h : sc.Same sc') (t : Tree) : function sc t = function sc' t := by
  simp only [function, helperFunctions, sharedFunction, plainFunction_congr h, statements_congr h,
    h.dialect, h.stage]

theorem entryPoints_congr (h : sc.Same sc') (t : Tree) : entryPoints sc t = entryPoints sc' t := by
  simp only [entryPoints, entryPoint, plainFunction_congr h, statements_congr h, h.dialect, h.stage]

theorem sharedFunctions_congr (h : sc.Same sc') (t : Tree) :
    sharedFunctions sc t = sharedFunctions sc' t := by
  simp only [sharedFunctions, function_congr h]

/-! ## §2 Interfaces -/

/-- No vertex position is pending. -/
def State.Calm (s : State) : Prop := s.positionPending = false

open Gen (Steady)

variable {d : Dialect} {P : State → Prop}

section Interfaces

variable (hP : ∀ s, P s → s.Calm)

include hP

theorem steady_takePosition : Steady P P (takePosition d) := by
  refine ⟨.ok [], fun s hs => ?_⟩
  have hrun : takePosition d s = .ok [] s := by
    show (if s.positionPending then _ else _ : Gen State Text) s = _
    rw [hP s hs]
    rfl
  rw [Gen.left_of_ok hrun]
  exact ⟨Gen.outcome_of_ok hrun, hs⟩

theorem steady_channelLine (p : Channel) (i : Nat) (t : Tree) :
    Steady P P (channelLine d p i t) := by
  apply (Steady.lift _).seq
  rintro ⟨vtype, name⟩
  have hrest : ∀ lead : Text, Steady P P (do
      let vtype ← (d.mapType vtype : Except Fault _)
      return lead ++ d.channelLine p i (plain vtype) (plain name)) :=
    fun _ => (Steady.lift _).seq fun _ => .pure _
  dsimp only
  split
  · exact (steady_takePosition hP).seq hrest
  · exact (Steady.pure []).seq hrest

theorem steady_channelLines (p : Channel) (i : Nat) (ts : List Tree) :
    Steady P P (channelLines d p i ts) := by
  induction ts generalizing i with
  | nil => exact .pure []
  | cons t ts ih =>
    exact (steady_channelLine hP p i t).seq fun _ => (ih (i + 1)).seq fun _ => .pure _

theorem steady_channel (p : Channel) (t : Tree) : Steady P P (channel d p t) := by
  unfold channel
  split
  · apply (Steady.lift _).seq
    intro ts
    apply (steady_channelLines hP p 0 ts).seq
    intro _
    exact .pure _
  · exact .pure []

end Interfaces

/-! ## §3 Stages -/

theorem steady_lineIfSet {t : Tree} {g : Gen State Text} (h : Steady P P g) :
    Steady P P (lineIfSet t g) := by
  unfold lineIfSet
  split
  · apply h.seq
    intro _
    exact .pure _
  · exact .pure []

/-- What depends on the scope alone depends on the section that the scope has. -/
theorem steady_inScope {α : Type} {stage owner : Tree} {f : Scope → Except Fault α}
    (hP : ∀ s, P s → s.sections.ofStage stage = owner)
    (hf : ∀ {sc sc' : Scope}, sc.Same sc' → f sc = f sc') : Steady P P (inScope d stage f) := by
  apply Steady.view
  intro s s' hs hs'
  exact hf ⟨rfl, rfl, (hP s hs).trans (hP s' hs').symm⟩

theorem ofStage_eq_absent {stage : Tree} (h : Stage.of? stage = none) (sections : Sections) :
    sections.ofStage stage = .absent := by
  rw [Sections.ofStage, h]

/-- No function of a section sets the vertex position at its top level. -/
def Positionless (d : Dialect) (owner : Tree) : Prop :=
  ∀ fs, (do (← owner.get .functions).items : Except Fault _) = .ok fs → ∀ f ∈ fs,
    ∀ ts, (do (← f.get .body).items : Except Fault _) = .ok ts → ∀ t ∈ ts,
      ∀ sections, setsPosition ⟨d, sections, .absent⟩ t ≠ .ok true

/-- Where there is no position, the state stays as it is. -/
theorem steady_notePosition {owner : Tree} (h : Positionless d owner) :
    Steady P P (notePosition d owner) := by
  apply (Steady.lift _).bind_ok (fun s fs _ hfs => ?_) fun _ hs => hs
  apply Steady.forM
  intro f hf
  apply (Steady.lift _).bind_ok (fun s ts _ hts => ?_) fun _ hs => hs
  apply Steady.forM
  intro t ht
  rw [Gen.outcome_lift] at hfs hts
  have hview : Steady P P (inScope d .absent (setsPosition · t)) :=
    steady_inScope (fun s _ => ofStage_eq_absent rfl s.sections) fun hsame => by
      simp only [setsPosition, statement_congr hsame]
  refine hview.bind_ok (fun s b _ hb => ?_) fun _ hs => hs
  cases b with
  | false => exact .pure ()
  | true =>
    -- The statement would set the position.
    have hsets : setsPosition (s.scope d .absent) t = .ok true := by
      rwa [inScope, Gen.outcome_view] at hb
    exact absurd hsets (h fs hfs f hf ts hts t ht s.sections)

/-- The states in which a section is being written. -/
def State.Holding (stage : Stage) (owner : Tree) (s : State) : Prop :=
  s.Calm ∧ s.sections.ofStage (.text stage.label) = owner

/-- A section has one text in all states that hold the same, and is written without a change. -/
theorem steady_sectionText (stage : Stage) (owner held : Tree) :
    Steady (State.Holding stage held) (State.Holding stage held) (sectionText d stage owner) := by
  have hcalm : ∀ s, State.Holding stage held s → s.Calm := fun _ hs => hs.1
  -- No part of the section changes what the state holds, so each part is written alike.
  have hheld : ∀ s, State.Holding stage held s → s.sections.ofStage (.text stage.label) = held :=
    fun _ hs => hs.2
  apply (Steady.lift _).seq
  intro ins
  apply (steady_channel hcalm _ ins).seq
  intro insText
  apply (Steady.lift _).seq
  intro outs
  apply (steady_channel hcalm _ outs).seq
  intro outsText
  apply (Steady.lift _).seq
  intro fs
  apply (steady_lineIfSet (steady_inScope hheld fun h => function_congr h fs)).seq
  intro helpers
  apply (Steady.lift _).seq
  intro body
  apply (steady_lineIfSet (steady_inScope hheld fun h => statements_congr h 0 body)).seq
  intro stmts
  apply (steady_inScope hheld fun h => entryPoints_congr h fs).seq
  intro entries
  exact .pure _

theorem steady_stageSection {stage : Stage} {owner : Tree} (k : NodeKind)
    (h : stage = .vertex → Positionless d owner) (held : Tree) :
    Steady (State.Holding stage held) (State.Holding stage held)
      (stageSection d stage k owner) := by
  cases hkind : owner.isNode k with
  | false =>
    rw [stageSection_of_not_isNode hkind]
    exact .pure []
  | true =>
    rw [stageSection_of_isNode hkind]
    apply Steady.seq ?_ fun _ => steady_sectionText stage owner held
    unfold noteStage
    split
    · next hstage =>
      apply steady_notePosition
      exact h (of_decide_eq_true (Bool.and_eq_true_iff.1 hstage).1)
    · exact .pure ()

/-! ## §4 Shaders -/

/-- A state in which no position is pending leads to one text of a shader, and to another such
state. -/
theorem steady_shader {t : Tree}
    (h : ∀ owner, t.get .vertexSection = .ok owner → Positionless d owner) :
    Steady State.Calm State.Calm (shader d t) := by
  have hcalm : ∀ s : State, s.Calm → s.Calm := fun _ hs => hs
  apply (Steady.lift _).seq
  intro ins
  apply (Steady.lift _).seq
  intro outs
  apply (steady_channel hcalm _ ins).seq
  intro insText
  apply (steady_channel hcalm _ outs).seq
  intro outsText
  apply (Steady.lift _).seq
  intro fs
  apply (steady_inScope (fun s _ => ofStage_eq_absent (by decide) s.sections)
    fun h => sharedFunctions_congr h fs).seq
  intro functionsText
  apply (Steady.lift _).bind_ok (fun s vertex _ hvertex => ?_) fun _ hs => hs
  rw [Gen.outcome_lift] at hvertex
  -- From here on the section for vertices is the shader's own.
  refine Steady.bind (Q := State.Holding .vertex vertex) (.modify fun s hs => ⟨hs, rfl⟩) ?_
    fun _ hs => hs.1
  intro _
  apply (steady_stageSection .vertexSection (fun _ => h vertex hvertex) vertex).bind ?_
    fun _ hs => hs.1
  intro vertexText
  apply (Steady.lift _).bind ?_ fun _ hs => hs.1
  intro fragment
  refine Steady.bind (Q := State.Holding .fragment fragment) (.modify fun s hs => ⟨hs.1, rfl⟩) ?_
    fun _ hs => hs.1
  intro _
  apply (steady_stageSection .fragmentSection (by simp) fragment).bind ?_ fun _ hs => hs.1
  intro fragmentText
  refine (Steady.pure _).mono fun _ hs => ?_
  exact hs.1

theorem steady_generate {t : Tree}
    (h : ∀ owner, t.get .vertexSection = .ok owner → Positionless d owner) :
    Steady State.Calm State.Calm (generate d t) := by
  unfold generate
  split
  · exact steady_shader h
  · exact .pure []

end ShaderBridge.Forward
