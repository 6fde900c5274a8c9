import ShaderBridge.Proofs.CrossGl.Ending
import ShaderBridge.Proofs.Glsl.Ending
import ShaderBridge.Proofs.Hlsl.Ending
import ShaderBridge.Proofs.Mojo.Ending
import ShaderBridge.Proofs.Sources

/-!
# Parsing ends

Cutting a source ends because every row of a token table finds at least one character.  Reading its
tokens ends because every round of a loop and every level of nesting reads a token; where one does
not, the reader has the fault `endless`.  The main result is that no source of CrossGL, HLSL, GLSL
or Mojo leads to it, and that HLSL and Mojo have no fault but rejections (`parse_reaches_result`).
-/

namespace ShaderBridge

open ShaderBridge.Parser

namespace Language

variable {lang : Language} {tv : Trivia} {S : Setting tv}

theorem rejected_of_tokenize {source : Text} {e : Fault} (h : lang.tokenize source = .error e) :
    ∃ why, e = .rejected why := by
  unfold tokenize Lexicon.tokenize at h
  split at h
  · cases h
  · cases h
    exact ⟨_, rfl⟩

/-- A parse has no fault but those of its grammar, which is met with the kinds of the table and with
the tokens of the source. -/
theorem faults_of_parse (hgrammar : ∀ n, Ends S.pair n 0 lang.grammar)
    (hkinds : ∀ k ∈ lang.lexicon.tokenKinds, S.kinds k) {source : Text} {e : Fault}
    (hahead : ∀ ts, lang.tokenize source = .ok ts → S.ahead ts)
    (h : lang.parse source = .error e) : S.faults e := by
  obtain htokens | ⟨ts, c, htokens, hrun⟩ := parse_eq_error h
  · obtain ⟨why, rfl⟩ := rejected_of_tokenize htokens
    exact S.rejected why
  · have hmeets : S.Meets (lang.start ts) :=
      ⟨fun t ht => hkinds _ (kind_mem_tokenKinds htokens ((start_suffix lang ts).subset ht)),
       S.suffix (start_suffix lang ts) (hahead ts htokens)⟩
    have hsettles := (hgrammar _).settles hmeets (Nat.lt_succ_self _) trivial
    rw [hrun] at hsettles
    exact hsettles.2

end Language

/-- Parsing reaches a result.  Every row of a token table finds at least one character, so cutting
a source moves on with each lexeme.  A CrossGL, HLSL, GLSL or Mojo source is parsed to a tree, or it
has a fault, which is never that of a loop that makes a round without reading a token or of a
construct that holds itself without reading one.  For HLSL and Mojo the fault is a rejection. -/
theorem parse_reaches_result (lang : Language) (hlang : lang ≠ .metal) (source : Text) :
    (∀ r ∈ lang.lexicon.rules, ∀ prev t n, r.pattern.length? prev t = some n → 0 < n) ∧
    match lang.parse source with
    | .ok _ => True
    | .error e => e ≠ .endless ∧ (lang = .hlsl ∨ lang = .mojo → ∃ why, e = .rejected why) := by
  refine ⟨fun r hr prev t n h => (row_advances lang hr h).1, ?_⟩
  cases hparse : lang.parse source with
  | ok t => trivial
  | error e =>
    have hstrict : (∃ why, e = .rejected why) →
        e ≠ .endless ∧ (lang = .hlsl ∨ lang = .mojo → ∃ why, e = .rejected why) := by
      rintro ⟨why, rfl⟩
      exact ⟨by simp, fun _ => ⟨why, rfl⟩⟩
    cases lang with
    | metal => exact absurd rfl hlang
    | crossGl =>
      exact ⟨Language.faults_of_parse (S := .finite _)
        (fun _ => CrossGl.ends_shader CrossGl.allows_finite)
        (fun _ _ => trivial) (fun _ _ => trivial) hparse, by simp⟩
    | glsl =>
      exact ⟨Language.faults_of_parse (S := .finite _)
        (fun _ => Glsl.ends_source Setting.lenient_finite (by rintro ⟨⟩))
        (fun _ _ => trivial) (fun _ _ => trivial) hparse, by simp⟩
    | hlsl =>
      exact hstrict (Language.faults_of_parse (S := Hlsl.setting) (fun _ => Hlsl.ends_source)
        (fun _ _ => trivial) (fun _ _ => trivial) hparse)
    | mojo =>
      -- The table of Mojo knows neither classes nor attributes.
      have hkinds : ∀ k ∈ Language.mojo.lexicon.tokenKinds,
          k ≠ .classWord ∧ k ≠ .attributeMark := by decide
      have hends (n : Nat) : Ends Mojo.setting.pair n 0 Language.mojo.grammar :=
        Mojo.ends_source (fun h => absurd rfl h.2) fun h => absurd rfl h.1
      exact hstrict (Language.faults_of_parse hends hkinds (fun _ _ => trivial) hparse)

/-- A structure whose members run into the end of the input. -/
def unclosedStruct : Text := r"struct A { float"

theorem parse_reaches_result_unclosed :
    Language.hlsl ≠ .metal ∧ (∀ t, Language.hlsl.parse unclosedStruct ≠ .ok t) ∧
      ∃ why, Language.hlsl.parse unclosedStruct = .error (.rejected why) := by
  have hfault : ¬Succeeds (Language.hlsl.parse unclosedStruct) := by decide +kernel
  have hresult := parse_reaches_result .hlsl (by decide) unclosedStruct
  generalize Language.hlsl.parse unclosedStruct = result at hfault hresult ⊢
  cases result with
  | ok t => exact absurd ⟨t, rfl⟩ hfault
  | error e =>
    obtain ⟨why, rfl⟩ := hresult.2.2 (.inl rfl)
    exact ⟨by decide, nofun, why, rfl⟩

end ShaderBridge
