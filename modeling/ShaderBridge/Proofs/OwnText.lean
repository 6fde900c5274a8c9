import ShaderBridge.Proofs.Cutting

/-!
# Tokens cut from their own text

A token lexes if its text, cut by itself, is this token again (`Lexes`).  Such a token comes from
one rule, whose pattern covers the text.  So the token table says which texts the tokens of a kind
can have (`Spelt`): the only text of a symbol or a keyword, or a name.
-/

namespace ShaderBridge.Lexicon

open Pattern

/-! ## §1 Tokens alone -/

variable {lx : Lexicon} {t : Token}

/-- The text of the token, cut by itself, is this token. -/
def Lexes (lx : Lexicon) (t : Token) : Prop :=
  ∃ w, t.text = some w ∧ lx.tokenize w = .ok [t, ⟨.endOfInput, lx.endText⟩]

theorem Lexes.isSome_text (h : lx.Lexes t) : t.text.isSome := by
  obtain ⟨w, hw, -⟩ := h
  rw [hw]
  rfl

instance (lx : Lexicon) (t : Token) : Decidable (lx.Lexes t) :=
  decidable_of_iff (t.text.any fun w => lx.tokenize w = .ok [t, ⟨.endOfInput, lx.endText⟩])
    (by simp [Lexes, Option.any_eq_true])

/-- The token that a single rule makes of the whole text. -/
def Fits (lx : Lexicon) (r : LexRule) (t : Token) (w : Text) : Prop :=
  r ∈ lx.rules ∧ r.pattern.length? none w = some w.length ∧ lx.token? ⟨r.kind, w⟩ = some t

/-- Helper: of lexemes that are not empty, the one that is the whole text is the only one. -/
theorem eq_singleton_of_flatten {ls : List Lexeme} {l : Lexeme} {w : Text}
    (hne : ∀ l ∈ ls, l.text ≠ []) (hflat : (ls.map (·.text)).flatten = w) (hl : l ∈ ls)
    (hw : l.text = w) : ls = [l] := by
  obtain ⟨before, after, rfl⟩ := List.append_of_mem hl
  have hlength := congrArg List.length hflat
  simp only [List.map_append, List.map_cons, List.flatten_append, List.flatten_cons,
    List.length_append, hw] at hlength
  have hempty : ∀ ls' : List Lexeme, (∀ l ∈ ls', l.text ≠ []) →
      (ls'.map (·.text)).flatten.length = 0 → ls' = [] := by
    intro ls' hne hzero
    cases ls' with
    | nil => rfl
    | cons l ls' =>
      have := List.length_pos_iff.2 (hne l (by simp))
      simp only [List.map_cons, List.flatten_cons, List.length_append] at hzero
      omega
  rw [hempty before (fun l h => hne l (by simp [h])) (by omega),
    hempty after (fun l h => hne l (by simp [h])) (by omega), List.nil_append]

/-- A token that is cut from its own text is one lexeme of one rule. -/
theorem Lexes.fits (h : lx.Lexes t) :
    ∃ w, t.text = some w ∧ w ≠ [] ∧ ∃ r, lx.Fits r t w ∧
      firstMatch lx.rules none w = some (r.kind, w.length) := by
  obtain ⟨w, htext, htokens⟩ := h
  rw [tokenize] at htokens
  split at htokens
  · next ls hls =>
    simp only [Except.ok.injEq] at htokens
    have hfilter : ls.filterMap lx.token? = [t] := List.append_cancel_right htokens
    obtain ⟨hne, hflat⟩ := texts_of_lexemesFrom hls
    obtain ⟨l, hl, hlt⟩ := List.mem_filterMap.1 (hfilter ▸ List.mem_singleton_self t)
    -- The lexeme of the token has the text of the token.
    have hlw : l.text = w := by
      simp only [token?] at hlt
      split at hlt
      · cases hlt
      · cases hlt
        simpa using htext
    obtain rfl := eq_singleton_of_flatten hne hflat hl hlw
    obtain ⟨n, hmatch, htake⟩ := firstMatch_of_lexemesFrom hls
    obtain ⟨r, hr, hfound⟩ := List.exists_of_findSome?_eq_some hmatch
    obtain ⟨m, hm, hkind⟩ := Option.map_eq_some_iff.1 hfound
    simp only [Prod.mk.injEq] at hkind
    obtain ⟨hkind, rfl⟩ := hkind
    have hlen : m = w.length := by
      have hle := length?_le hm
      have htaken := congrArg List.length (htake.symm.trans hlw)
      rw [List.length_take] at htaken
      omega
    rw [hlen] at hm hmatch
    refine ⟨w, htext, hlw ▸ hne l (by simp), r, ⟨hr, hm, ?_⟩, by rw [hmatch, hkind]⟩
    rw [hkind, ← hlw]
    exact hlt
  · cases htokens

/-! ## §2 Whole texts of a pattern -/

/-- A letter or underscore, and letters, digits and underscores behind it. -/
def isName : Text → Bool
  | [] => false
  | c :: s => Text.isNameStart c && s.all Text.isNameRest

section Covers

variable {w : Text}

theorem eq_of_begins {x : Text} (h : Text.begins x w = true) (hlen : x.length = w.length) :
    w = x :=
  ((List.isPrefixOf_iff_prefix.1 h).eq_of_length hlen).symm

theorem symbol_covers {x : Text} (h : (Pattern.symbol x).length? none w = some w.length) :
    w = x := by
  obtain ⟨hx, h⟩ := Option.ite_none_right_eq_some.1 h
  exact eq_of_begins hx (by simpa using h)

theorem word_covers {choices : List Text}
    (h : (Pattern.word choices).length? none w = some w.length) : w ∈ choices := by
  rw [length?, if_neg (by simp [isWordAt])] at h
  obtain ⟨x, hx, hw⟩ := List.exists_of_findSome?_eq_some h
  obtain ⟨hbegins, hw⟩ := Option.ite_none_right_eq_some.1 hw
  rwa [eq_of_begins (Bool.and_eq_true_iff.1 hbegins).1 (by simpa using hw)]

theorem name_covers (h : Pattern.name.length? none w = some w.length) : isName w := by
  cases w with
  | nil => cases h
  | cons c s =>
    obtain ⟨hc, h⟩ := Option.ite_none_right_eq_some.1 h
    have hspan : span Text.isNameRest s = s.length := by
      simp only [List.length_cons, Option.some.injEq] at h
      omega
    have hall : s.takeWhile Text.isNameRest = s := (List.takeWhile_prefix _).eq_of_length hspan
    rw [isName, hc, Bool.true_and, List.all_eq_true]
    exact List.takeWhile_eq_self_iff.1 hall

theorem number_covers (h : Pattern.number.length? none w = some w.length) :
    w.head?.any isNumeric := by
  cases w with
  | nil => cases h
  | cons c s =>
    by_cases hc : Text.isDigit c
    · simp [isNumeric, hc]
    · rw [length?, number?_eq_none (by simpa using hc)] at h
      cases h

theorem decimal_covers (h : Pattern.decimal.length? none w = some w.length) :
    w.head?.any isNumeric := by
  cases w with
  | nil => cases h
  | cons c s =>
    by_cases hc : isNumeric c
    · simpa using hc
    · simp only [isNumeric, Bool.or_eq_true, beq_iff_eq, not_or, Bool.not_eq_true] at hc
      rw [length?, decimal?_eq_none hc.1 hc.2] at h
      cases h

end Covers

/-! ## §3 The texts of a kind -/

/-- The kind of a lexeme is kept unless it is a name, and no token is of a dropped kind. -/
theorem kind_of_token? {k : TokenKind} {w : Text} (h : lx.token? ⟨k, w⟩ = some t) :
    (k ≠ .identifier → t.kind = k) ∧ t.kind ∉ lx.dropped := by
  simp only [token?] at h
  split at h
  · cases h
  · next hdropped =>
    cases h
    exact ⟨fun hk => by simp [retyped, hk], hdropped⟩

/-- A name stays a name or is one of the keywords. -/
theorem keyword_of_token? {w : Text} (h : lx.token? ⟨.identifier, w⟩ = some t) :
    t.kind = .identifier ∨ (w, t.kind) ∈ lx.keywords := by
  simp only [token?, retyped, if_true] at h
  split at h
  · cases h
  · cases h
    cases hfound : lx.keywords.lookup w with
    | none => exact .inl rfl
    | some k =>
      obtain ⟨_, _, hkeys, -⟩ := List.lookup_eq_some_iff.1 hfound
      refine .inr ?_
      rw [hkeys]
      simp

/-- A pattern that lists its texts, all of which satisfy `P`. -/
def lists (P : Text → Bool) : Pattern → Bool
  | .symbol x => P x
  | .word choices => choices.all P
  | _ => false

theorem lists_covers {P : Text → Bool} {p : Pattern} {w : Text} (hp : lists P p)
    (h : p.length? none w = some w.length) : P w := by
  cases p with
  | symbol x => exact symbol_covers h ▸ hp
  | word choices => exact List.all_eq_true.1 hp w (word_covers h)
  | _ => cases hp

/-- All texts that the table gives to tokens of a kind satisfy `P`. -/
def Spelt (lx : Lexicon) (k : TokenKind) (P : Text → Bool) : Prop :=
  k ≠ .identifier ∧ (∀ r ∈ lx.rules, r.kind = k → lists P r.pattern) ∧
    ∀ q ∈ lx.keywords, q.2 = k → P q.1

instance (lx : Lexicon) (k : TokenKind) (P : Text → Bool) : Decidable (lx.Spelt k P) :=
  inferInstanceAs (Decidable (_ ∧ _ ∧ _))

/-- The text of a token whose kind is spelt in certain ways only. -/
theorem Lexes.exists_text {P : Text → Bool} (h : lx.Lexes t) (hk : lx.Spelt t.kind P) :
    ∃ w, t.text = some w ∧ P w := by
  obtain ⟨w, htext, -, r, ⟨hr, hlength, htoken⟩, -⟩ := h.fits
  obtain ⟨hident, hrules, hkeywords⟩ := hk
  refine ⟨w, htext, ?_⟩
  by_cases hkind : r.kind = .identifier
  · -- The token is a keyword.
    rw [hkind] at htoken
    exact hkeywords _ ((keyword_of_token? htoken).resolve_left fun h => hident h) rfl
  · exact lists_covers (hrules r hr ((kind_of_token? htoken).1 hkind).symm) hlength

/-- The text of an identifier is a name, if no other pattern finds identifiers. -/
theorem Lexes.isName_of_identifier (hlx : ∀ r ∈ lx.rules, r.kind = .identifier → r.pattern = .name)
    (h : lx.Lexes t) (hk : t.kind = .identifier) : ∃ w, t.text = some w ∧ isName w := by
  obtain ⟨w, htext, -, r, ⟨hr, hlength, htoken⟩, -⟩ := h.fits
  refine ⟨w, htext, ?_⟩
  have hkind : r.kind = .identifier := by
    by_contra hne
    exact hne (((kind_of_token? htoken).1 hne).symm.trans hk)
  rw [hlx r hr hkind] at hlength
  exact name_covers hlength

end ShaderBridge.Lexicon
