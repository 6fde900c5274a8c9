import ShaderBridge.Proofs.OwnText
import ShaderBridge.Proofs.Partition

/-!
# Where tokens come from

Every token of a source but the last is made from a lexeme that a row of the token table has found
(`exists_origin`).  So the table says which kinds of token there are (`kind_mem_tokenKinds`).
-/

namespace ShaderBridge

namespace Lexicon

variable {lx : Lexicon} {t : Token}

/-- The token is made from the lexeme, which the row has found somewhere. -/
structure Origin (lx : Lexicon) (r : LexRule) (l : Lexeme) (t : Token) : Prop where
  mem : r ∈ lx.rules
  kind : r.kind = l.kind
  found : ∃ prev rest, r.pattern.length? prev (l.text ++ rest) = some l.text.length
  token : lx.token? l = some t

theorem Cuts.exists_row {rules : List LexRule} {lead text rest : Text} {ls : List Lexeme}
    (h : Cuts rules lead text ls rest) {l : Lexeme} (hl : l ∈ ls) :
    ∃ r ∈ rules, r.kind = l.kind ∧
      ∃ prev rest, r.pattern.length? prev (l.text ++ rest) = some l.text.length := by
  induction h with
  | stop => cases hl
  | @lexeme lead w t rest k ls hne hrow h ih =>
    rcases List.mem_cons.1 hl with rfl | hl
    · obtain ⟨before, r, after, hrules, -, hkind, hfound⟩ := hrow
      exact ⟨r, by simp [hrules], hkind, _, t, hfound⟩
    · exact ih hl

/-- The kinds of token that a table gives. -/
def tokenKinds (lx : Lexicon) : List TokenKind :=
  .endOfInput :: (lx.rules.map (·.kind) ++ lx.keywords.map (·.2))

theorem Origin.kind_mem {r : LexRule} {l : Lexeme} (h : lx.Origin r l t) :
    t.kind ∈ lx.tokenKinds := by
  obtain ⟨k, w⟩ := l
  have hrow : k ∈ lx.rules.map (·.kind) := List.mem_map.2 ⟨r, h.mem, h.kind⟩
  refine List.mem_cons_of_mem _ (List.mem_append.2 ?_)
  by_cases hk : k = .identifier
  · subst hk
    rcases keyword_of_token? h.token with hkind | hkeyword
    · exact .inl (hkind ▸ hrow)
    · exact .inr (List.mem_map.2 ⟨_, hkeyword, rfl⟩)
  · exact .inl ((kind_of_token? h.token).1 hk ▸ hrow)

theorem Origin.text_eq {r : LexRule} {l : Lexeme} (h : lx.Origin r l t) : t.text = some l.text := by
  have htoken := h.token
  simp only [token?] at htoken
  split at htoken
  · cases htoken
  · cases htoken
    rfl

end Lexicon

namespace Language

variable {lang : Language} {source : Text} {ts : List Token} {t : Token}

/-- A token of a source is its end, or is made from a lexeme that a row has found. -/
theorem exists_origin (h : lang.tokenize source = .ok ts) (ht : t ∈ ts) :
    t = ⟨.endOfInput, lang.lexicon.endText⟩ ∨ ∃ r l, lang.lexicon.Origin r l t := by
  obtain ⟨ls, hcuts, rfl⟩ := lang.cuts_of_tokenize h
  rcases List.mem_append.1 ht with ht | ht
  · obtain ⟨l, hl, htoken⟩ := List.mem_filterMap.1 ht
    obtain ⟨r, hr, hkind, hfound⟩ := hcuts.exists_row hl
    exact .inr ⟨r, l, hr, hkind, hfound, htoken⟩
  · exact .inl (List.mem_singleton.1 ht)

/-- The kinds of the tokens of a source are those of the table. -/
theorem kind_mem_tokenKinds (h : lang.tokenize source = .ok ts) (ht : t ∈ ts) :
    t.kind ∈ lang.lexicon.tokenKinds := by
  rcases exists_origin h ht with rfl | ⟨r, l, horigin⟩
  · exact List.mem_cons_self
  · exact horigin.kind_mem

end Language

end ShaderBridge
