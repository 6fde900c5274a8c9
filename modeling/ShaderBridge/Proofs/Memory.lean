import ShaderBridge.Proofs.Forward.Nesting
import ShaderBridge.Proofs.Glsl.Scopes

/-!
# Generators without memory

A generator of HLSL, Metal or GLSL writes a list of parsed shaders as new generators would, one for
each of them (`generateAll_eq_map`).  It keeps the sections of the last shader and whether a vertex
position is pending, but looks words up in the sections of the shader at hand only, and no parsed
shader leaves a position pending.  The GLSL converter has no memory either, whether or not it
refuses some of the shaders.
-/

namespace ShaderBridge

/-- The outcomes of one generator are those of new ones. -/
theorem generateAll_eq_map (r : Route) (hr : ∀ d, r ≠ .backward d) (ts : List Tree)
    (hts : ∀ t ∈ ts, ∃ source, r.language.parse source = .ok t) :
    r.generateAll ts = ts.map r.generate := by
  cases r with
  | forward d =>
    have hsteady : ∀ t ∈ ts,
        Gen.Steady Forward.State.Calm Forward.State.Calm (Forward.generate d t) := by
      intro t ht
      obtain ⟨source, hparse⟩ := hts t ht
      exact Forward.steady_generate fun owner howner =>
        CrossGl.positionless_of_parse hparse howner
    have hnew : Forward.State.Calm {} := rfl
    exact Gen.outcomes_eq_map hnew hsteady hnew
  | backward d => exact absurd rfl (hr d)
  | fromGlsl =>
    exact Gen.outcomes_eq_map (P := fun _ => True) trivial
      (fun t _ => Backward.Glsl.steady_generate t) trivial

/-- A shader that sets the position of a vertex. -/
def positionSource : Text :=
  "shader main { vertex { output vec4 c; void main() { gl_Position = c; } } }"

/-- Its section for vertices. -/
def positionItems : CrossGl.SectionItems :=
  let sets := Tree.binary (Tree.var (.text []) (.text "gl_Position")) (.text "=")
    (Tree.var (.text []) (.text "c"))
  { outputs := [.tuple [.text "vec4", .text "c"]]
    functions := [Tree.function (.text "void") (.text "main") [] [sets]] }

/-- Its tree. -/
def positionTree : Tree :=
  .node .shader
    [(.name, .text "main"), (.globalInputs, .list []), (.globalOutputs, .list []),
     (.globalFunctions, .list []), (.vertexSection, positionItems.node .vertexSection),
     (.fragmentSection, .absent)]

theorem parse_positionSource : Language.crossGl.parse positionSource = .ok positionTree := by
  rw [show positionSource = _ from String.toList_ofList]
  decide +kernel

theorem generateAll_eq_map_position :
    Language.crossGl.parse positionSource = .ok positionTree ∧
      (Route.forward .hlsl).generateAll [positionTree, positionTree]
        = [positionTree, positionTree].map (Route.forward .hlsl).generate := by
  refine ⟨parse_positionSource, ?_⟩
  apply generateAll_eq_map (.forward .hlsl) (by simp)
  intro t ht
  simp only [List.mem_cons, List.not_mem_nil, or_false, or_self] at ht
  exact ⟨positionSource, ht ▸ parse_positionSource⟩

end ShaderBridge
