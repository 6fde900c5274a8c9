import Mathlib.Data.List.Basic
import ShaderBridge.Proofs.Cutting
import ShaderBridge.Session

/-!
# Sources are cut without loss

Cutting a source gives lexemes that are not empty and that in sequence are the source, each one
found by the first row of the table that finds anything at its place.  There is only one such
sequence.  Where cutting gives up, the same holds of the text in front of that place, and no row
finds anything there.

`Cuts` describes a run of the cutter from lexeme to lexeme; `Partitions` says the same of a whole
source by offsets.  The main statement is `tokenize_partitions`, for all five languages.
-/

namespace ShaderBridge

/-! ## §1 No lexeme is empty -/

namespace Pattern

/-- The fixed characters of the pattern, where it has some, are not missing. -/
def isProper : Pattern → Bool
  | symbol s | lineFrom s | beforeWord s | afterWord s => !s.isEmpty
  | enclosed opener _ _ => !opener.isEmpty
  | word choices => choices.all (!·.isEmpty)
  | _ => true

theorem length_pos_of_isProper {s : Text} (h : (!s.isEmpty) = true) : 0 < s.length := by
  cases s with
  | nil => cases h
  | cons c s => exact Nat.succ_pos _

theorem headed?_pos {p q : Char → Bool} {t : Text} {n : Nat} (h : headed? p q t = some n) :
    0 < n := by
  cases t with
  | nil => cases h
  | cons c t =>
    obtain ⟨-, ⟨⟩⟩ := Option.ite_none_right_eq_some.1 h
    omega

/-- What a proper pattern finds has at least one character. -/
theorem length?_pos {p : Pattern} {prev : Option Char} {t : Text} {n : Nat} (hp : p.isProper)
    (h : p.length? prev t = some n) : 0 < n := by
  cases p with
  -- Fixed texts of a proper pattern are not empty; the others read a character.
  | symbol s | beforeWord s | afterWord s =>
    obtain ⟨-, ⟨⟩⟩ := Option.ite_none_right_eq_some.1 h
    exact length_pos_of_isProper hp
  | word choices =>
    replace h := (Option.ite_none_left_eq_some.1 h).2
    obtain ⟨w, hw, hfound⟩ := List.exists_of_findSome?_eq_some h
    obtain ⟨-, ⟨⟩⟩ := Option.ite_none_right_eq_some.1 hfound
    exact length_pos_of_isProper (List.all_eq_true.1 hp w hw)
  | elseIf manyBlanks =>
    replace h := (Option.ite_none_left_eq_some.1 h).2
    simp only [elseIf?] at h
    split at h
    · -- Four characters are in front of the blanks, however many these are.
      generalize (if manyBlanks = true then span Text.isBlank (List.drop 4 t)
        else if (List.drop 4 t).head?.any Text.isBlank = true then 1 else 0) = gap at h
      split at h
      · cases h
      · obtain ⟨m, -, rfl⟩ := Option.map_eq_some_iff.1 h
        omega
    · cases h
  | lineFrom opener =>
    obtain ⟨-, ⟨⟩⟩ := Option.ite_none_right_eq_some.1 h
    have := length_pos_of_isProper hp
    omega
  | enclosed opener closer oneLine =>
    obtain ⟨-, h⟩ := Option.ite_none_right_eq_some.1 h
    obtain ⟨m, -, rfl⟩ := Option.map_eq_some_iff.1 h
    have := length_pos_of_isProper hp
    omega
  | name => exact headed?_pos h
  | number =>
    simp only [length?, number?] at h
    split at h
    · cases h
    · split at h
      · cases h
        omega
      · cases h
        omega
  | decimal =>
    simp only [length?, decimal?] at h
    split at h
    · split at h
      · cases h
      · cases h
        omega
    · cases h
  | blanks =>
    obtain ⟨hne, ⟨⟩⟩ := Option.ite_none_left_eq_some.1 h
    exact Nat.pos_of_ne_zero hne
  | semantic | directive =>
    obtain ⟨-, h⟩ := Option.ite_none_right_eq_some.1 h
    obtain ⟨m, -, rfl⟩ := Option.map_eq_some_iff.1 h
    omega

end Pattern

/-- Every row of every table finds at least one character, and no more than there are. -/
theorem row_advances (lang : Language) {r : LexRule} (hr : r ∈ lang.lexicon.rules)
    {prev : Option Char} {t : Text} {n : Nat} (h : r.pattern.length? prev t = some n) :
    0 < n ∧ n ≤ t.length := by
  have hproper : ∀ r ∈ lang.lexicon.rules, r.pattern.isProper := by
    cases lang <;> decide
  exact ⟨Pattern.length?_pos (hproper r hr) h, Pattern.length?_le h⟩

namespace Lexicon

/-! ## §2 Runs of the cutter -/

/-- The first row that finds anything in front of `t` is of kind `k` and finds `n` characters. -/
def FirstRow (rules : List LexRule) (prev : Option Char) (t : Text) (k : TokenKind) (n : Nat) :
    Prop :=
  ∃ before r after, rules = before ++ r :: after ∧
    (∀ q ∈ before, q.pattern.length? prev t = none) ∧ r.kind = k ∧
    r.pattern.length? prev t = some n

/-- No row finds anything in front of `t`. -/
def NoRow (rules : List LexRule) (prev : Option Char) (t : Text) : Prop :=
  ∀ r ∈ rules, r.pattern.length? prev t = none

variable {rules : List LexRule} {prev : Option Char} {t : Text}

theorem firstMatch_eq_some_iff {k : TokenKind} {n : Nat} :
    firstMatch rules prev t = some (k, n) ↔ FirstRow rules prev t k n := by
  unfold firstMatch
  rw [List.findSome?_eq_some_iff]
  constructor
  · rintro ⟨before, r, after, hrules, hfound, hbefore⟩
    obtain ⟨m, hm, hpair⟩ := Option.map_eq_some_iff.1 hfound
    cases hpair
    exact ⟨before, r, after, hrules, fun q hq => Option.map_eq_none_iff.1 (hbefore q hq), rfl, hm⟩
  · rintro ⟨before, r, after, hrules, hbefore, rfl, hfound⟩
    exact ⟨before, r, after, hrules, by rw [hfound]; rfl, fun q hq => by rw [hbefore q hq]; rfl⟩

theorem firstMatch_eq_none_iff : firstMatch rules prev t = none ↔ NoRow rules prev t := by
  unfold firstMatch NoRow
  rw [List.findSome?_eq_none_iff]
  exact forall₂_congr fun r _ => Option.map_eq_none_iff

theorem FirstRow.unique {k k' : TokenKind} {n n' : Nat} (h : FirstRow rules prev t k n)
    (h' : FirstRow rules prev t k' n') : k = k' ∧ n = n' := by
  have heq := (firstMatch_eq_some_iff.2 h).symm.trans (firstMatch_eq_some_iff.2 h')
  simpa using heq

/-- The texts of lexemes in sequence. -/
def texts (ls : List Lexeme) : Text := (ls.map (·.text)).flatten

@[simp] theorem texts_nil : texts [] = [] := rfl

@[simp] theorem texts_cons (l : Lexeme) (ls : List Lexeme) : texts (l :: ls) = l.text ++ texts ls :=
  rfl

@[simp] theorem texts_append (ls ls' : List Lexeme) :
    texts (ls ++ ls') = texts ls ++ texts ls' := by
  simp [texts]

/-- Behind the text `lead`, the lexemes `ls` are cut from the front of a text, and `rest` is
left. -/
inductive Cuts (rules : List LexRule) : Text → Text → List Lexeme → Text → Prop where
  /-- Nothing more is cut. -/
  | stop (lead rest : Text) : Cuts rules lead rest [] rest
  /-- The first row cuts off a lexeme, and cutting goes on behind it. -/
  | lexeme {lead w t rest : Text} {k : TokenKind} {ls : List Lexeme} (hne : w ≠ [])
      (hrow : FirstRow rules lead.getLast? (w ++ t) k w.length)
      (h : Cuts rules (lead ++ w) t ls rest) : Cuts rules lead (w ++ t) (⟨k, w⟩ :: ls) rest

namespace Cuts

variable {lead rest : Text} {ls ls' : List Lexeme}

theorem eq_texts (h : Cuts rules lead t ls rest) : t = texts ls ++ rest := by
  induction h with
  | stop => rfl
  | lexeme _ _ _ ih => simp [← ih]

theorem ne_nil (h : Cuts rules lead t ls rest) : ∀ l ∈ ls, l.text ≠ [] := by
  induction h with
  | stop => simp
  | lexeme hne _ _ ih =>
    intro l hl
    rcases List.mem_cons.1 hl with rfl | hl
    · exact hne
    · exact ih l hl

/-- Two runs over the same text that leave the same rest cut off the same lexemes. -/
theorem unique (h : Cuts rules lead t ls rest) (h' : Cuts rules lead t ls' rest) : ls = ls' := by
  induction h generalizing ls' with
  | stop lead rest =>
    cases ls' with
    | nil => rfl
    | cons l ls' =>
      -- The other run would have left less than there is.
      have hlen := congrArg List.length h'.eq_texts
      have hpos := List.length_pos_iff.2 (h'.ne_nil l List.mem_cons_self)
      simp only [texts_cons, List.length_append] at hlen
      omega
  | @lexeme lead w t rest k ls hne hrow h ih =>
    generalize ht : w ++ t = t₀ at h'
    cases h' with
    | stop =>
      have hlen := congrArg List.length (ht.symm.trans (congrArg (w ++ ·) h.eq_texts))
      have hpos := List.length_pos_iff.2 hne
      simp only [List.length_append] at hlen
      omega
    | @lexeme _ w' t' _ k' ls' hne' hrow' h' =>
      rw [ht] at hrow
      obtain ⟨rfl, hlen⟩ := hrow.unique hrow'
      obtain ⟨rfl, rfl⟩ := List.append_inj ht hlen
      rw [ih h']

/-- Every lexeme of a run stands where the first row finds it. -/
theorem firstRow (h : Cuts rules lead t ls rest) {before after : List Lexeme} {l : Lexeme}
    (hls : ls = before ++ l :: after) :
    FirstRow rules (lead ++ texts before).getLast? (t.drop (texts before).length) l.kind
      l.text.length := by
  induction h generalizing before with
  | stop => cases before <;> cases hls
  | @lexeme lead w t rest k ls hne hrow h ih =>
    cases before with
    | nil =>
      cases hls
      simpa using hrow
    | cons l' before =>
      rw [List.cons_append, List.cons.injEq] at hls
      obtain ⟨rfl, hls⟩ := hls
      have hdrop : (w ++ t).drop (w.length + (texts before).length)
          = t.drop (texts before).length := by
        rw [← List.drop_drop, List.drop_left]
      simpa [hdrop] using ih hls

end Cuts

/-! ## §3 The cutter follows its runs -/

/-- How a run of the cutter ends: at the end of the text, or where no row finds anything. -/
def Ends (rules : List LexRule) (lead t : Text) : Except (Nat × Char) (List Lexeme) → Prop
  | .ok ls => Cuts rules lead t ls []
  | .error (pos, c) => ∃ ls rest, Cuts rules lead t ls (c :: rest) ∧
      pos = lead.length + (texts ls).length ∧ NoRow rules (lead ++ texts ls).getLast? (c :: rest)

/-- The cutter follows a run up to its end.  The induction is on the length of the text, since each
round cuts off at least one character. -/
theorem ends_lexemesFrom
    (hrules : ∀ r ∈ rules, ∀ prev t n, r.pattern.length? prev t = some n → 0 < n ∧ n ≤ t.length)
    (lead t : Text) : Ends rules lead t (lexemesFrom rules 0 lead.getLast? lead.length t) := by
  induction hn : t.length using Nat.strong_induction_on generalizing lead t with
  | _ n ih =>
    cases t with
    | nil => exact Cuts.stop lead []
    | cons c rest =>
      cases hmatch : firstMatch rules lead.getLast? (c :: rest) with
      | none =>
        rw [lexemesFrom, hmatch]
        exact ⟨[], rest, .stop _ _, by simp, by simpa using firstMatch_eq_none_iff.1 hmatch⟩
      | some found =>
        obtain ⟨k, m⟩ := found
        -- The lexeme is what the row finds, and the rest is shorter.
        obtain ⟨before, r, after, rfl, hbefore, hkind, hfound⟩ := firstMatch_eq_some_iff.1 hmatch
        obtain ⟨hpos, hle⟩ := hrules r (by simp) _ _ _ hfound
        obtain ⟨w, u, hw, rfl⟩ : ∃ w u, c :: rest = w ++ u ∧ m = w.length :=
          ⟨(c :: rest).take m, (c :: rest).drop m, (List.take_append_drop m _).symm,
            by rw [List.length_take]; omega⟩
        have hne : w ≠ [] := List.length_pos_iff.1 hpos
        have hlast : (lead ++ w).getLast? = w.getLast? := List.getLast?_append_of_ne_nil _ hne
        have hlt : u.length < n := by
          rw [hw, List.length_append] at hn
          omega
        have hrest := ih u.length hlt (lead ++ w) u rfl
        rw [hlast, List.length_append] at hrest
        rw [hw] at hmatch ⊢
        rw [lexemesFrom_cons hne hmatch]
        have hrow := firstMatch_eq_some_iff.1 hmatch
        cases hrun : lexemesFrom (before ++ r :: after) 0 w.getLast? (lead.length + w.length) u with
        | ok ls =>
          rw [hrun] at hrest
          exact Cuts.lexeme hne hrow hrest
        | error stop =>
          rw [hrun] at hrest
          obtain ⟨pos, d⟩ := stop
          obtain ⟨ls, rest', hcuts, hstop, hnone⟩ := hrest
          refine ⟨⟨k, w⟩ :: ls, rest', .lexeme hne hrow hcuts, ?_, by simpa using hnone⟩
          simp only [hstop, texts_cons, List.length_append]
          omega

/-- A row that is the first behind one character is the first behind another, if this makes no
difference to any row. -/
theorem FirstRow.relead {k : TokenKind} {n : Nat} {prev' : Option Char}
    (h : FirstRow rules prev t k n)
    (hprev : ∀ q ∈ rules, q.pattern.length? prev' t = q.pattern.length? prev t) :
    FirstRow rules prev' t k n := by
  obtain ⟨before, row, after, hrules, hbefore, hkind, hfound⟩ := h
  refine ⟨before, row, after, hrules, fun q hq => ?_, hkind, ?_⟩
  · rw [hprev q (by simp [hrules, hq]), hbefore q hq]
  · rw [hprev row (by simp [hrules]), hfound]

namespace Cuts

variable {lead lead' v r : Text} {ls rs : List Lexeme}

/-- Lexemes are cut off behind another text as well, if no word is split or joined there. -/
theorem relead (h : Cuts rules lead t ls v) (hprev : ∀ q ∈ rules,
    q.pattern.length? lead'.getLast? t = q.pattern.length? lead.getLast? t) :
    Cuts rules lead' t ls v := by
  induction h generalizing lead' with
  | stop lead rest => exact .stop lead' rest
  | @lexeme lead w t v k ls hne hrow h ih =>
    have hlast : (lead' ++ w).getLast? = (lead ++ w).getLast? := by
      rw [List.getLast?_append_of_ne_nil _ hne, List.getLast?_append_of_ne_nil _ hne]
    exact .lexeme hne (hrow.relead hprev) (ih fun _ _ => by rw [hlast])

/-- A run of the cutter up to the end gives the lexemes. -/
theorem lexemesFrom (h : Cuts rules lead t ls v) (hv : v = [])
    (pos : Nat) : lexemesFrom rules 0 lead.getLast? pos t = .ok ls := by
  induction h generalizing pos with
  | stop => rw [hv]; rfl
  | @lexeme lead w t v k ls hne hrow h ih =>
    have hrest := ih hv (pos + w.length)
    rw [List.getLast?_append_of_ne_nil _ hne] at hrest
    exact lexemesFrom_lexeme hne (firstMatch_eq_some_iff.2 hrow) hrest

theorem append (h : Cuts rules lead t ls v)
    (hv : Cuts rules (lead ++ texts ls) v rs r) : Cuts rules lead t (ls ++ rs) r := by
  induction h with
  | stop => simpa using hv
  | lexeme hne hrow _ ih =>
    apply Cuts.lexeme hne hrow
    apply ih
    simpa using hv

theorem split (h : Cuts rules lead t (ls ++ rs) r) :
    ∃ mid, Cuts rules lead t ls mid ∧ Cuts rules (lead ++ texts ls) mid rs r := by
  induction ls generalizing lead t with
  | nil => exact ⟨t, .stop lead t, by simpa using h⟩
  | cons l ls ih =>
    rw [List.cons_append] at h
    cases h with
    | lexeme hne hrow h =>
      obtain ⟨mid, hls, hrs⟩ := ih h
      exact ⟨mid, .lexeme hne hrow hls, by simpa using hrs⟩

end Cuts

end Lexicon

namespace Language

variable (lang : Language) {source : Text} {ls : List Lexeme} {ts : List Token}

/-- A source is cut as its lexemes say. -/
theorem cuts_of_lexemes (h : lang.lexicon.lexemes source = .ok ls) :
    Lexicon.Cuts lang.lexicon.rules [] source ls [] := by
  have hends : Lexicon.Ends lang.lexicon.rules [] source (lang.lexicon.lexemes source) :=
    Lexicon.ends_lexemesFrom (fun r hr prev t n h => row_advances lang hr h) [] source
  rwa [h] at hends

theorem tokenize_of_cuts (h : Lexicon.Cuts lang.lexicon.rules [] source ls []) :
    lang.tokenize source
      = .ok (ls.filterMap lang.lexicon.token? ++ [⟨.endOfInput, lang.lexicon.endText⟩]) := by
  have hlexemes : lang.lexicon.lexemes source = .ok ls := h.lexemesFrom rfl 0
  rw [tokenize, Lexicon.tokenize, hlexemes]

/-- The tokens of a source are those of its lexemes, with the end behind them. -/
theorem cuts_of_tokenize (h : lang.tokenize source = .ok ts) :
    ∃ ls, Lexicon.Cuts lang.lexicon.rules [] source ls [] ∧
      ts = ls.filterMap lang.lexicon.token? ++ [⟨.endOfInput, lang.lexicon.endText⟩] := by
  rw [tokenize, Lexicon.tokenize] at h
  cases hrun : lang.lexicon.lexemes source with
  | error stop =>
    rw [hrun] at h
    cases h
  | ok ls =>
    rw [hrun] at h
    exact ⟨ls, cuts_of_lexemes lang hrun, (Except.ok.inj h).symm⟩

end Language

namespace Lexicon

variable {rules : List LexRule} {prev : Option Char} {t : Text}

/-! ## §4 Partitions of a source -/

/-- The lexemes are not empty, in sequence they are the first `stop` characters of the source, and
each of them is what the first row finds at its offset. -/
structure Partitions (rules : List LexRule) (source : Text) (stop : Nat) (ls : List Lexeme) :
    Prop where
  ne_nil : ∀ l ∈ ls, l.text ≠ []
  concat : texts ls = source.take stop
  first : ∀ before l after, ls = before ++ l :: after →
    FirstRow rules (source.take (texts before).length).getLast?
      (source.drop (texts before).length) l.kind l.text.length

variable {source : Text} {ls : List Lexeme}

theorem Cuts.partitions {rest : Text} (h : Cuts rules [] source ls rest) :
    Partitions rules source (texts ls).length ls := by
  refine ⟨h.ne_nil, ?_, fun before l after hls => ?_⟩
  · rw [h.eq_texts, List.take_left]
  · have hlead : source.take (texts before).length = texts before := by
      rw [h.eq_texts, hls, texts_append, List.append_assoc, List.take_left]
    rw [hlead]
    exact h.firstRow hls

/-- A partition is what a run cuts off. -/
theorem Partitions.cuts {stop : Nat} (h : Partitions rules source stop ls) :
    Cuts rules [] source ls (source.drop stop) := by
  -- The invariant of the induction: what is still to be cut stands behind the lexemes cut so far.
  have hrun : ∀ before after, ls = before ++ after →
      Cuts rules (texts before) (texts after ++ source.drop stop) after (source.drop stop) := by
    intro before after
    induction after generalizing before with
    | nil => exact fun _ => .stop _ _
    | cons l after ih =>
      intro hls
      have hsource : source = texts before ++ (texts (l :: after) ++ source.drop stop) := by
        rw [← List.append_assoc, ← texts_append, ← hls, h.concat, List.take_append_drop]
      have hrow := h.first before l after hls
      have htake : source.take (texts before).length = texts before := by
        rw [hsource, List.take_left]
      have hdrop : source.drop (texts before).length
          = l.text ++ (texts after ++ source.drop stop) := by
        have := congrArg (List.drop (texts before).length) hsource
        rwa [List.drop_left, texts_cons, List.append_assoc] at this
      rw [htake, hdrop] at hrow
      have hcuts := ih (before ++ [l]) (by simp [hls])
      rw [texts_append, texts_cons, texts_nil, List.append_nil] at hcuts
      rw [texts_cons, List.append_assoc]
      exact .lexeme (h.ne_nil l (by simp [hls])) hrow hcuts
  have hall := hrun [] ls rfl
  rwa [h.concat, List.take_append_drop] at hall

/-- A source has at most one partition up to a place. -/
theorem Partitions.unique {stop : Nat} {ls' : List Lexeme} (h : Partitions rules source stop ls)
    (h' : Partitions rules source stop ls') : ls' = ls :=
  h'.cuts.unique h.cuts

end Lexicon

/-! ## §5 Tokens and complaints -/

/-- The kinds of lexeme that give no token: blanks, and comments where they carry no meaning. -/
def Language.passesOver : Language → TokenKind → Bool
  | .crossGl, k | .glsl, k => k = .blank
  | .hlsl, k | .metal, k | .mojo, k => k = .blank || k.isComment

/-- The languages whose complaints show the source. -/
def Language.showsSource : Language → Bool
  | .crossGl | .glsl => true
  | .hlsl | .metal | .mojo => false

theorem mem_dropped_iff (lang : Language) (k : TokenKind) :
    k ∈ lang.lexicon.dropped ↔ lang.passesOver k := by
  have hcomment : k.isComment = true ↔ k = .lineComment ∨ k = .blockComment := by
    rw [TokenKind.isComment.eq_def]
    split <;> simp_all
  cases lang with
  | crossGl | glsl =>
    show k ∈ [TokenKind.blank] ↔ _
    simp [Language.passesOver]
  | hlsl | metal | mojo =>
    show k ∈ [TokenKind.blank, .lineComment, .blockComment] ↔ _
    simp [Language.passesOver, hcomment]

/-- A token for each lexeme that is not passed over. -/
theorem filterMap_token? (lang : Language) (ls : List Lexeme) :
    ls.filterMap lang.lexicon.token?
      = (ls.filter fun l => !lang.passesOver l.kind).map fun l =>
          ⟨lang.lexicon.retyped l, some l.text⟩ := by
  -- A keyword is of no kind that is passed over.
  have hkeywords : ∀ q ∈ lang.lexicon.keywords, q.2 ∉ lang.lexicon.dropped := by
    cases lang <;> decide
  have hidentifier : .identifier ∉ lang.lexicon.dropped := by
    cases lang <;> decide
  have htoken : ∀ l, lang.lexicon.token? l
      = if lang.passesOver l.kind then none else some ⟨lang.lexicon.retyped l, some l.text⟩ := by
    intro l
    have hkind : lang.lexicon.retyped l ∈ lang.lexicon.dropped ↔ lang.passesOver l.kind := by
      rw [← mem_dropped_iff, Lexicon.retyped]
      split
      · next hk =>
        rw [hk]
        cases hfound : lang.lexicon.keywords.lookup l.text with
        | none => rfl
        | some k =>
          obtain ⟨_, _, hkeys, -⟩ := List.lookup_eq_some_iff.1 hfound
          have hmem : (l.text, k) ∈ lang.lexicon.keywords := by
            rw [hkeys]
            simp
          exact iff_of_false (hkeywords _ hmem) hidentifier
      · rfl
    simp only [Lexicon.token?, hkind]
  induction ls with
  | nil => rfl
  | cons l ls ih =>
    rw [List.filterMap_cons, htoken, ih, List.filter_cons]
    cases lang.passesOver l.kind <;> rfl

/-- With the brackets taken out, the source is shown as it is. -/
theorem highlight_brackets {source : Text} {p : Nat} {c : Char} (h : source[p]? = some c) :
    (Rejection.highlight source p)[p]? = some '[' ∧
    (Rejection.highlight source p)[p + 1]? = some c ∧
    (Rejection.highlight source p)[p + 2]? = some ']' ∧
    ((Rejection.highlight source p).eraseIdx (p + 2)).eraseIdx p = source := by
  obtain ⟨hp, rfl⟩ := List.getElem?_eq_some_iff.1 h
  have htake : (source.take p).length = p := by
    rw [List.length_take]
    omega
  have hone : (source.drop p).take 1 = [source[p]] := by
    rw [List.drop_eq_getElem_cons hp]
    rfl
  -- The text is that of the source, with brackets around one character.
  have hshown : Rejection.highlight source p
      = source.take p ++ '[' :: source[p] :: ']' :: source.drop (p + 1) := by
    simp [Rejection.highlight, Text.cat, hone]
  rw [hshown]
  refine ⟨by simp [htake], by simp [htake], by simp [htake], ?_⟩
  rw [List.eraseIdx_append_of_length_le (by omega), htake,
    List.eraseIdx_append_of_length_le (by omega), htake]
  simp

/-- A complaint that shows the source is one that does not, and the source behind it. -/
theorem Rejection.message_illegalCharacterIn {source : Text} {c : Char} {p : Nat} :
    (illegalCharacterIn source c p).message
      = (illegalCharacter c p).message ++ '\n' :: highlight source p := by
  unfold message
  simp only [Text.cat, List.flatten_cons, List.append_assoc, List.flatten_nil, List.append_nil]
  congr 4

/-- Cutting loses nothing and ends.  Every row of the table of a language finds at least one
character.  If a source is cut, it has exactly one partition into lexemes, and the tokens are the
lexemes that are not passed over, with keywords under their own kinds, and one end token.  If it is
not cut, the text in front of the reported place has exactly one partition, no row finds anything at
that place, and where the complaint shows the source it is the source with two brackets added. -/
theorem tokenize_partitions (lang : Language) (source : Text) :
    (∀ r ∈ lang.lexicon.rules, ∀ prev t n, r.pattern.length? prev t = some n →
      0 < n ∧ n ≤ t.length) ∧
    match lang.tokenize source with
    | .ok ts => ∃ ls, Lexicon.Partitions lang.lexicon.rules source source.length ls ∧
        (∀ ls', Lexicon.Partitions lang.lexicon.rules source source.length ls' → ls' = ls) ∧
        ts = ((ls.filter fun l => !lang.passesOver l.kind).map fun l =>
          ⟨lang.lexicon.retyped l, some l.text⟩) ++ [⟨.endOfInput, lang.lexicon.endText⟩]
    | .error e => ∃ p c why shown ls, source[p]? = some c ∧
        Lexicon.Partitions lang.lexicon.rules source p ls ∧
        (∀ ls', Lexicon.Partitions lang.lexicon.rules source p ls' → ls' = ls) ∧
        Lexicon.NoRow lang.lexicon.rules (source.take p).getLast? (source.drop p) ∧
        e = .rejected why ∧
        why.message
          = Text.cat ["Illegal character '", [c], "' at position ", Text.ofNat p] ++ shown ∧
        (if lang.showsSource then ∃ marked, shown = '\n' :: marked ∧ marked[p]? = some '[' ∧
          marked[p + 1]? = some c ∧ marked[p + 2]? = some ']' ∧
          (marked.eraseIdx (p + 2)).eraseIdx p = source
        else shown = []) := by
  refine ⟨fun r hr prev t n h => row_advances lang hr h, ?_⟩
  have hends : Lexicon.Ends lang.lexicon.rules [] source (lang.lexicon.lexemes source) :=
    Lexicon.ends_lexemesFrom (fun r hr prev t n h => row_advances lang hr h) [] source
  unfold Language.tokenize Lexicon.tokenize
  cases hrun : lang.lexicon.lexemes source with
  | ok ls =>
    rw [hrun] at hends
    have hwhole : (Lexicon.texts ls).length = source.length := by
      have := hends.eq_texts
      rw [List.append_nil] at this
      rw [← this]
    have hpart := hends.partitions
    rw [hwhole] at hpart
    exact ⟨ls, hpart, fun ls' h' => hpart.unique h', by rw [filterMap_token?]⟩
  -- The texts cut off so far tell the place; no row finds anything there.
  | error stop =>
    rw [hrun] at hends
    obtain ⟨p, c⟩ := stop
    obtain ⟨ls, rest, hcuts, hp, hnone⟩ := hends
    have hpart := hcuts.partitions
    rw [List.length_nil, Nat.zero_add] at hp
    rw [List.nil_append] at hnone
    rw [← hp] at hpart
    have hdrop : source.drop p = c :: rest := by
      rw [hcuts.eq_texts, hp, List.drop_left]
    have hchar : source[p]? = some c := by
      rw [← List.head?_drop, hdrop]
      rfl
    rw [hpart.concat, ← hdrop] at hnone
    obtain ⟨hopen, hmid, hclose, herase⟩ := highlight_brackets hchar
    cases lang with
    | crossGl | glsl =>
      exact ⟨p, c, .illegalCharacterIn source c p, '\n' :: Rejection.highlight source p, ls, hchar,
        hpart, fun ls' h' => hpart.unique h', hnone, rfl,
        Rejection.message_illegalCharacterIn,
        Rejection.highlight source p, rfl, hopen, hmid, hclose, herase⟩
    | hlsl | metal | mojo =>
      exact ⟨p, c, .illegalCharacter c p, [], ls, hchar, hpart, fun ls' h' => hpart.unique h',
        hnone, rfl, (List.append_nil _).symm, rfl⟩

/-! ## §6 Blanks that are part of a lexeme -/

/-- The kinds of the tokens of a text, if it can be cut. -/
def Language.kinds? (lang : Language) (source : Text) : Option (List TokenKind) :=
  (lang.tokenize source).toOption.map (·.map (·.kind))

/-- Sources, and the same with one more blank: in a keyword of two words, in a semantic, and on
either side of a step. -/
def respacedSources : List (Language × Text × Text) :=
  [(.hlsl, "else if", "else  if"), (.hlsl, "x: POSITION", "x:  POSITION"),
   (.glsl, "i++", "i ++"), (.glsl, "++i", "++ i")]

/-- One more blank between two words, or beside an operator, can change the kinds of the tokens:
some rows of the tables have exactly one blank in them, and some look at the character beside
them. -/
theorem blanks_change_kinds : ∀ p ∈ respacedSources,
    (p.1.kinds? p.2.1).isSome ∧ (p.1.kinds? p.2.2).isSome ∧
    p.1.kinds? p.2.2 ≠ p.1.kinds? p.2.1 := by
  decide +kernel

end ShaderBridge
