import ShaderBridge.Proofs.Making

/-!
# Whole sources

A source is parsed by cutting it into tokens and reading these with the grammar of the language,
from the first token or from the first one that is no comment (`parse_eq_ok_iff`).
-/

namespace ShaderBridge.Language

/-- The parser of whole sources. -/
def grammar : Language → Parser Tree
  | crossGl => CrossGl.shader
  | hlsl => Hlsl.source
  | metal => Metal.source
  | glsl => Glsl.source
  | mojo => Mojo.source

/-- Where reading starts. -/
def start (lang : Language) (ts : List Token) : Cursor :=
  if lang.skipsLeadingComments then Cursor.pastTrivia lang.trivia 0 ts else ⟨0, ts⟩

variable {lang : Language} {ts : List Token} {source : Text}

/-- The tokens of a source end in an end token. -/
theorem tokenize_eq_ok
    (h : lang.tokenize source = .ok ts) :
    ∃ ls : List Lexeme,
      ts = ls.filterMap lang.lexicon.token? ++ [⟨.endOfInput, lang.lexicon.endText⟩] := by
  unfold Language.tokenize Lexicon.tokenize at h
  split at h
  · next ls _ => exact ⟨ls, (Except.ok.inj h).symm⟩
  · cases h

/-- Tokens are parsed to what the grammar gives for them. -/
theorem parseTokens_eq (hts : ts ≠ []) :
    lang.parseTokens ts
      = match lang.grammar (lang.start ts) with
        | .ok t _ => .ok t
        | .error e _ => .error e := by
  have hreader : ∃ r, lang.reader? .source = some r ∧ r [] = lang.grammar := by
    cases lang <;> exact ⟨_, rfl, rfl⟩
  obtain ⟨r, hreader, hgrammar⟩ := hreader
  obtain ⟨first, others, rfl⟩ := List.exists_cons_of_ne_nil hts
  show (do return (← Session.run ⟨lang, first :: others, lang.start _⟩ (.read .source [])).1
    : Except Fault Tree) = _
  simp only [Session.run, Session.answer, hreader, hgrammar]
  cases lang.grammar (lang.start (first :: others)) <;> rfl

/-- A source is parsed to what the grammar gives for its tokens. -/
theorem parse_eq_ok_iff {t : Tree} :
    lang.parse source = .ok t ↔
      ∃ ts c, lang.tokenize source = .ok ts ∧ lang.grammar (lang.start ts) = .ok t c := by
  show (lang.tokenize source >>= lang.parseTokens) = .ok t ↔ _
  cases htokens : lang.tokenize source with
  | error e => exact ⟨nofun, nofun⟩
  | ok ts =>
    obtain ⟨ls, hls⟩ := tokenize_eq_ok htokens
    show lang.parseTokens ts = .ok t ↔ _
    rw [parseTokens_eq (by simp [hls])]
    cases hrun : lang.grammar (lang.start ts) with
    | error e c =>
      refine ⟨nofun, ?_⟩
      rintro ⟨_, c', ⟨rfl⟩, h⟩
      rw [hrun] at h
      cases h
    | ok u c =>
      constructor
      · rintro ⟨rfl⟩
        exact ⟨ts, c, rfl, hrun⟩
      · rintro ⟨_, c', ⟨rfl⟩, h⟩
        rw [hrun] at h
        cases h
        rfl

/-- A source that is not parsed cannot be cut, or the grammar has the fault for its tokens. -/
theorem parse_eq_error {e : Fault}
    (h : lang.parse source = .error e) :
    lang.tokenize source = .error e ∨
      ∃ ts c, lang.tokenize source = .ok ts ∧ lang.grammar (lang.start ts) = .error e c := by
  change (lang.tokenize source >>= lang.parseTokens) = .error e at h
  cases htokens : lang.tokenize source with
  | error e' =>
    rw [htokens] at h
    cases h
    exact .inl rfl
  | ok ts =>
    obtain ⟨ls, hls⟩ := tokenize_eq_ok htokens
    rw [htokens] at h
    change lang.parseTokens ts = .error e at h
    rw [parseTokens_eq (by simp [hls])] at h
    cases hrun : lang.grammar (lang.start ts) with
    | ok t c =>
      rw [hrun] at h
      cases h
    | error e' c =>
      rw [hrun] at h
      cases h
      exact .inr ⟨ts, c, rfl, hrun⟩

/-- The tokens of a source have texts, wherever among them reading is. -/
theorem texted_of_suffix
    (h : lang.tokenize source = .ok ts) {c : Cursor} (hc : c.rest <:+ ts) : Parser.Texted c := by
  obtain ⟨ls, rfl⟩ := tokenize_eq_ok h
  intro t ht hk
  rcases List.mem_append.1 (hc.subset ht) with ht | ht
  · obtain ⟨l, -, hl⟩ := List.mem_filterMap.1 ht
    simp only [Lexicon.token?] at hl
    split at hl
    · cases hl
    · cases hl
      rfl
  · rw [List.mem_singleton.1 ht] at hk
    exact absurd rfl hk

/-- The tokens of a source are cut from it, wherever among them reading is. -/
theorem cut_of_suffix
    (h : lang.tokenize source = .ok ts) {c : Cursor} (hc : c.rest <:+ ts) :
    Parser.Ahead Parser.cutTokens c :=
  fun t ht => ⟨texted_of_suffix h hc t ht, bareToken h (hc.subset ht)⟩

/-- Reading starts at the first token, or at the first one that is no comment. -/
theorem start_suffix (lang : Language) (ts : List Token) : (lang.start ts).rest <:+ ts := by
  unfold start
  split
  · exact Parser.pastTrivia_suffix _ _ _
  · exact List.suffix_refl ts

/-- What a grammar makes is what its sources are parsed to. -/
theorem of_parse {P : Tree → Prop} {t : Tree}
    (h : lang.parse source = .ok t) (hmakes : Parser.Makes lang.grammar P) : P t := by
  obtain ⟨ts, c, htokens, hrun⟩ := parse_eq_ok_iff.1 h
  exact (hmakes _ t c (cut_of_suffix htokens (start_suffix lang ts)) trivial hrun).1

end ShaderBridge.Language
