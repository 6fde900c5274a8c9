import ShaderBridge.Proofs.Generation

/-!
# Runs of the shader generator

The section of a stage is written in two steps: the position is noted where the dialect has stage
structures, and then the parts of the section are written in order.
-/

namespace ShaderBridge.Forward

/-- Notes whether the functions of a section set the vertex position, where that matters. -/
def noteStage (d : Dialect) (stage : Stage) (owner : Tree) : Gen State Unit :=
  if stage = .vertex && d.hasStageStructs then notePosition d owner else pure ()

/-- The parts of a section in order. -/
def sectionText (d : Dialect) (stage : Stage) (owner : Tree) : Gen State Text := do
  let name : Tree := .text stage.label
  let ins ← channel d (.inputOf stage) (← (owner.get .inputs : Except Fault _))
  let outs ← channel d (.outputOf stage) (← (owner.get .outputs : Except Fault _))
  let functions ← (owner.get .functions : Except Fault _)
  let helpers ← lineIfSet functions (inScope d name (function · functions))
  let body ← (owner.get .intermediate : Except Fault _)
  let stmts ← lineIfSet body (inScope d name (statements · 0 body))
  let entries ← inScope d name (entryPoints · functions)
  return Text.cat [d.stageOpening stage, ins, outs, helpers, stmts, entries]

theorem stageSection_of_isNode {d : Dialect} {stage : Stage} {k : NodeKind} {owner : Tree}
    (h : owner.isNode k) :
    stageSection d stage k owner =
      noteStage d stage owner >>= fun _ => sectionText d stage owner := by
  rw [stageSection, if_pos h, noteStage]
  split <;> rfl

theorem stageSection_of_not_isNode {d : Dialect} {stage : Stage} {k : NodeKind} {owner : Tree}
    (h : owner.isNode k = false) : stageSection d stage k owner = pure [] := by
  rw [stageSection, h, if_neg nofun]

end ShaderBridge.Forward
