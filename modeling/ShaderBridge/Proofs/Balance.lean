import ShaderBridge.Proofs.Glsl.Nesting
import ShaderBridge.Proofs.Totality

/-!
# Generated texts are balanced

Whatever a generator writes for a tree that was parsed from a source has nested brackets, for every
route.  The tokens of a source have brackets only where a bracket is the whole token, so a grammar
gives trees without brackets in the texts that are written, and a generator closes what it opens.
-/

namespace ShaderBridge

open ShaderBridge.Parser
open Text (Nested WellNested scan)

/-- Brackets are nested in what a route gives for a tree that was parsed from a source. -/
theorem Route.nested_of_generate (r : Route) {source text : Text} {t : Tree}
    (hparse : r.language.parse source = .ok t) (htext : r.generate t = .ok text) : Nested text := by
  cases r with
  | forward d =>
    obtain ⟨_, hgenerate, -, hnested⟩ := Forward.exists_text_of_parse hparse d
    cases htext.symm.trans hgenerate
    exact hnested
  | backward d =>
    rcases (Backward.isShader_of_parse hparse).generate_cases with
      ⟨-, -, _, hgenerate, hnested⟩ | ⟨-, herror⟩
    · cases htext.symm.trans hgenerate
      exact hnested
    · cases htext.symm.trans herror
  | fromGlsl =>
    have hbare := Language.of_parse hparse Glsl.makes_source
    have hnone : Tree.Every Tree.IsBare .absent := Tree.every_absent_iff.2 trivial
    have hstart : Backward.Glsl.State.IsBare {} := ⟨⟨hnone, hnone⟩, nofun⟩
    exact (Backward.Glsl.returns_generate hbare).outcome hstart text htext

/-- Generated text is balanced.  Reading it from the front, no closing bracket is unmatched and
each matches the last one that is open; at the end none is open.  So the text is made up of bracket
pairs around balanced texts, and of other characters. -/
theorem generated_text_balanced (r : Route) (source : Text) (t : Tree) (text : Text)
    (hparse : r.language.parse source = .ok t) (htext : r.generate t = .ok text) :
    (∀ front, front <+: text → ∃ opened, scan [] front = some opened) ∧
      scan [] text = some [] ∧ WellNested text := by
  have hnested := r.nested_of_generate hparse htext
  refine ⟨?_, hnested, Text.nested_iff_wellNested.1 hnested⟩
  rintro front ⟨back, rfl⟩
  exact hnested.exists_scan

/-- A shader with a loop around a branch. -/
def loopSource : Text :=
  Text.cat
    [r"shader main { vertex { input vec3 p; output vec4 c; void main() { ",
     r"for (int i = 0; i < 3; i = i + 1) { ",
     r"if (i < 2) { c = f(p, 1.0); } else { c = -p; } } } } }"]

theorem generated_text_balanced_loop :
    ∃ t text, Language.crossGl.parse loopSource = .ok t ∧
      (Route.forward .metal).generate t = .ok text ∧
      (∀ front, front <+: text → ∃ opened, scan [] front = some opened) ∧
      scan [] text = some [] ∧ WellNested text := by
  have hparse : Succeeds (Language.crossGl.parse loopSource) := by
    rw [loopSource]
    repeat rw [String.toList_ofList]
    decide +kernel
  obtain ⟨t, ht⟩ := hparse
  obtain ⟨text, htext, -⟩ := Forward.exists_text_of_parse ht .metal
  exact ⟨t, text, ht, htext,
    generated_text_balanced (.forward .metal) loopSource t text ht htext⟩

end ShaderBridge
