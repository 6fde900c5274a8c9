import ShaderBridge.Proofs.Backward.Totality
import ShaderBridge.Proofs.Forward.Nesting

/-!
# Generators never fail on what was parsed

A tree that was parsed from a source has the form that generators ask for.  From CrossGL every
dialect is written; from HLSL and Metal the one fault there is is a missing entry point.

What is written as CrossGL is not always accepted there: a type may not stand in its place, or a
condition lacks its parentheses (`convert_rejected`).  And a source that is not converted is not
always reported as bad input (`convert_fails`).
-/

namespace ShaderBridge

open ShaderBridge.Parser ShaderBridge.Language

/-! ## §1 Parsed trees -/

theorem Backward.isShader_of_parse {d : Backward.Dialect} {source : Text} {t : Tree}
    (h : d.language.parse source = .ok t) : Backward.IsShader d t := by
  cases d with
  | hlsl => exact (Language.of_parse h Hlsl.makes_source).isShader
  | metal => exact (Language.of_parse h Metal.makes_source).isShader

/-! ## §2 Generators -/

/-- Every tree that was parsed from CrossGL is written in every dialect.  A tree that was parsed
from HLSL or Metal is written in CrossGL if it defines both entry points, and if it does not, that
is the fault. -/
theorem generate_of_parse :
    (∀ (d : Forward.Dialect) (source : Text) (t : Tree), Language.crossGl.parse source = .ok t →
      ∃ text, (Route.forward d).generate t = .ok text) ∧
    (∀ (d : Backward.Dialect) (source : Text) (t : Tree), d.language.parse source = .ok t →
      (Backward.Defines d .vertex t ∧ Backward.Defines d .fragment t →
        ∃ text, (Route.backward d).generate t = .ok text) ∧
      (¬ (Backward.Defines d .vertex t ∧ Backward.Defines d .fragment t) →
        (Route.backward d).generate t = .error .noEntryPoint)) := by
  refine ⟨fun d source t h => ?_, fun d source t h => ?_⟩
  · obtain ⟨text, htext, -⟩ := Forward.exists_text_of_parse h d
    exact ⟨text, htext⟩
  · rcases (Backward.isShader_of_parse h).generate_cases with ⟨hv, hf, htext⟩ | ⟨hnot, herror⟩
    · exact ⟨fun _ => htext.succeeds, fun hnot => absurd ⟨hv, hf⟩ hnot⟩
    · exact ⟨fun hboth => absurd hboth hnot, fun _ => herror⟩

/-- A shader of HLSL with two functions: one for vertices and one that may be for fragments. -/
def twoFunctions (second : Text) : Tree :=
  .node .shader
    [(.vertexInput, .absent), (.vertexOutput, .absent), (.fragmentInput, .absent),
     (.fragmentOutput, .absent),
     (.functions, .list
       [Tree.function (.text "void") (.text "VSMain") []
          [Tree.assignmentBy (Tree.memberOf (.text "output") (.text "position"))
            (Hlsl.var (.text []) (.text "p")) (.text "=")],
        Tree.function (.text "void") (.text second) [] []])]

theorem generate_of_parse_corner :
    (∃ t, Language.crossGl.parse
        "shader s { vertex { void main() { x = -1 + f(y.z); } } }" = .ok t ∧
      ∃ text, (Route.forward .metal).generate t = .ok text) ∧
    (Language.hlsl.parse "void VSMain() { output.position = p; } void PSMain() { }"
        = .ok (twoFunctions "PSMain") ∧
      ∃ text, (Route.backward .hlsl).generate (twoFunctions "PSMain") = .ok text) ∧
    (Language.hlsl.parse "void VSMain() { output.position = p; } void main() { }"
        = .ok (twoFunctions "main") ∧
      (Route.backward .hlsl).generate (twoFunctions "main") = .error .noEntryPoint) := by
  refine ⟨?_, ?_, ?_⟩
  · have hparse : Succeeds (Language.crossGl.parse
        "shader s { vertex { void main() { x = -1 + f(y.z); } } }") := by
      rw [String.toList_ofList]
      decide +kernel
    obtain ⟨t, ht⟩ := hparse
    exact ⟨t, ht, generate_of_parse.1 .metal _ t ht⟩
  · have hparse : Language.hlsl.parse
        "void VSMain() { output.position = p; } void PSMain() { }"
          = .ok (twoFunctions "PSMain") := by
      repeat rw [String.toList_ofList]
      decide +kernel
    refine ⟨hparse, (generate_of_parse.2 .hlsl _ _ hparse).1 ⟨?_, ?_⟩⟩
    · exact ⟨_, rfl, _, List.mem_cons_self, rfl, rfl⟩
    · exact ⟨_, rfl, _, List.mem_cons_of_mem _ List.mem_cons_self, rfl, rfl⟩
  · have hparse : Language.hlsl.parse
        "void VSMain() { output.position = p; } void main() { }"
          = .ok (twoFunctions "main") := by
      repeat rw [String.toList_ofList]
      decide +kernel
    refine ⟨hparse, (generate_of_parse.2 .hlsl _ _ hparse).2 ?_⟩
    rintro ⟨-, fs, hfs, f, hf, -, hname⟩
    cases hfs
    simp only [List.mem_cons, List.not_mem_nil, or_false] at hf
    rcases hf with rfl | rfl
    · cases hname
    · cases hname

/-! ## §3 Texts that are rejected -/

/-- The source is converted, but nothing can be read from what it is converted to. -/
def Route.rejected (r : Route) (source : Text) : Bool :=
  match r.convert source with
  | .ok text => ¬ Succeeds (Language.crossGl.parse text)
  | .error _ => false

theorem Route.exists_of_rejected {r : Route} {source : Text} (h : r.rejected source) :
    ∃ text, r.convert source = .ok text ∧ ¬ ∃ tree, Language.crossGl.parse text = .ok tree := by
  unfold Route.rejected at h
  cases hconvert : r.convert source with
  | ok text =>
    simp only [hconvert, decide_eq_true_eq] at h
    exact ⟨text, rfl, h⟩
  | error fault => simp [hconvert] at h

/-- A truth value in HLSL, a matrix in Metal and a branch in GLSL: the sources are converted, and
what they are converted to is rejected. -/
theorem convert_rejected :
    (∃ text, (Route.backward .hlsl).convert "void VSMain() { bool b; } void PSMain() { }"
        = .ok text ∧ ¬ ∃ tree, Language.crossGl.parse text = .ok tree) ∧
    (∃ text, (Route.backward .metal).convert
        "vertex void vertex_main() { float4x4 m; } fragment void fragment_main() { }"
        = .ok text ∧ ¬ ∃ tree, Language.crossGl.parse text = .ok tree) ∧
    (∃ text, Route.fromGlsl.convert (Text.cat
        ["#version 330\n// Vertex Shader\nvoid main() { if (x < 1) { y = 1; } }\n",
         "// Fragment Shader\nvoid main() { }\n"])
        = .ok text ∧ ¬ ∃ tree, Language.crossGl.parse text = .ok tree) := by
  refine ⟨?_, ?_, ?_⟩ <;> apply Route.exists_of_rejected <;> repeat rw [String.toList_ofList]
  · decide +kernel
  · decide +kernel
  · decide +kernel

/-! ## §4 Faults that are not reported -/

/-- A shader of CrossGL that begins with the code of a vertex function. -/
def beginning (code : Text) : Text := r"shader s { vertex { void f() { " ++ code

/-- A source of GLSL with these items in its vertex stage. -/
def vertexStage (items : Text) : Text := "#version 450\n// vertex shader\n" ++ items

/-- A name with a step on either side, a loop and a type that break off, a brace where an item is
due and a signed update are none of them reported as bad input. -/
theorem convert_fails :
    (Route.forward .glsl).convert (beginning r"for (int i = 0; i < 3; ++i++) { } } } }")
      = .error .wrongSort ∧
    (Route.forward .glsl).convert (beginning "for (int i = 0; i < 3; i") = .error .outOfRange ∧
    (Route.forward .glsl).convert (beginning r"} void") = .error .outOfRange ∧
    Route.fromGlsl.convert (vertexStage "{ }") = .error .wrongSort ∧
    Route.fromGlsl.convert (vertexStage "void main() { for (int i = 0; i < 3; i = -i) { } }")
      = .error .missingField := by
  unfold beginning vertexStage
  repeat rw [String.toList_ofList]
  refine ⟨?_, ?_, ?_, ?_, ?_⟩
  · decide +kernel
  · decide +kernel
  · decide +kernel
  · decide +kernel
  · decide +kernel

end ShaderBridge
