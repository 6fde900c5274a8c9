import ShaderBridge.Proofs.BareTokens
import ShaderBridge.Proofs.CrossGl.Remarks

/-!
# The alphabet of CrossGL

Outside comments a CrossGL source may have letters, digits, blanks and certain signs.
`firstForeign` goes through a source character by character, passes over the comments, and gives the
first other character that it meets.

The cutter goes from lexeme to lexeme, and yet it gives up at that character and at no other
(`tokenize_error_iff_foreign`).  A lexeme that is no comment is made of legal characters, and it has
no slash behind its first character, so no comment begins inside it (`foreignFrom_lexeme`).  Every
legal character begins some lexeme (`not_isLegal_of_noRow`).
-/

namespace ShaderBridge.CrossGl

open Pattern Lexicon

variable {prev : Option Char} {t u v w : Text} {pos : Nat} {c : Char}

/-! ## §1 Going by characters -/

/-- The signs that operators and punctuation are made of. -/
def signs : Text := "{}();,+-*/<>=!&|^%.?:~"

/-- The characters that a source may have outside comments. -/
def isLegal (c : Char) : Bool :=
  Text.isNameStart c || Text.isDigit c || Text.isBlank c || signs.contains c

/-- The number of characters up to the end of the first `*/`. -/
def closer? : Text → Option Nat
  | [] => none
  | c :: rest =>
    if c = '*' ∧ rest.head? = some '/' then some 2 else (closer? rest).map (· + 1)

/-- The length of the comment that a text begins with: the rest of a line, or all up to the first
`*/` behind a `/*`.  Without a closer there is no comment. -/
def comment? : Text → Option Nat
  | '/' :: '/' :: rest => some (2 + (rest.takeWhile (· ≠ '\n')).length)
  | '/' :: '*' :: rest => (closer? rest).map (2 + ·)
  | _ => none

/-- The first character outside comments that is not legal, in a text of which the first `skip`
characters belong to a comment.  The text stands at `pos` in the source. -/
def foreignFrom : Nat → Nat → Text → Option (Nat × Char)
  | _, _, [] => none
  | skip + 1, pos, _ :: rest => foreignFrom skip (pos + 1) rest
  | 0, pos, c :: rest =>
    match comment? (c :: rest) with
    | some n => foreignFrom (n - 1) (pos + 1) rest
    | none => if isLegal c then foreignFrom 0 (pos + 1) rest else some (pos, c)

/-- The first character of a source outside comments that is not legal, with its position. -/
def firstForeign (source : Text) : Option (Nat × Char) := foreignFrom 0 0 source

theorem foreignFrom_append (w u : Text) (pos : Nat) :
    foreignFrom w.length pos (w ++ u) = foreignFrom 0 (pos + w.length) u := by
  induction w generalizing pos with
  | nil => rfl
  | cons c w ih =>
    rw [List.length_cons, List.cons_append, foreignFrom, ih]
    congr 1
    omega

/-- A comment is passed over. -/
theorem foreignFrom_comment (hw : w ≠ []) (h : comment? (w ++ u) = some w.length) :
    foreignFrom 0 pos (w ++ u) = foreignFrom 0 (pos + w.length) u := by
  obtain ⟨c, w, rfl⟩ := List.exists_cons_of_ne_nil hw
  rw [List.cons_append] at h ⊢
  rw [foreignFrom, h]
  show foreignFrom w.length (pos + 1) (w ++ u) = _
  rw [foreignFrom_append, List.length_cons]
  congr 1
  omega

theorem comment?_eq_none (hc : c ≠ '/') (t : Text) : comment? (c :: t) = none := by
  unfold comment?
  split <;> simp_all

/-- Legal characters other than a slash are passed over one by one. -/
theorem foreignFrom_legal (hv : ∀ c ∈ v, isLegal c ∧ c ≠ '/') :
    foreignFrom 0 pos (v ++ u) = foreignFrom 0 (pos + v.length) u := by
  induction v generalizing pos with
  | nil => rfl
  | cons c v ih =>
    obtain ⟨hlegal, hslash⟩ := hv c List.mem_cons_self
    rw [List.cons_append, foreignFrom, comment?_eq_none hslash]
    simp only [if_pos hlegal]
    rw [ih fun d hd => hv d (List.mem_cons_of_mem c hd), List.length_cons]
    congr 1
    omega

/-! ## §2 Comments -/

theorem through_eq_closer? (t : Text) : through "*/" false t = closer? t := by
  induction t with
  | nil => rfl
  | cons c t ih =>
    have hbegins : Text.begins "*/" (c :: t) = decide (c = '*' ∧ t.head? = some '/') := by
      rw [Bool.eq_iff_iff, decide_eq_true_iff, Text.begins, List.isPrefixOf_iff_prefix]
      cases t with
      | nil => simp [List.prefix_cons_iff]
      | cons d t => simp [List.cons_prefix_cons, eq_comm]
    simp only [through, closer?, hbegins, ih, decide_eq_true_eq, Bool.false_and, Bool.false_eq_true,
      if_false]
    rfl

/-- A comment is what one of the first two rows finds. -/
theorem comment?_eq (prev : Option Char) (t : Text) :
    comment? t
      = ((lineFrom "//").length? prev t).or ((enclosed "/*" "*/" false).length? prev t) := by
  unfold comment?
  split
  · simp [length?, Text.begins, List.isPrefixOf, span]
  · next rest =>
    rw [← through_eq_closer?]
    simp [length?, Text.begins, List.isPrefixOf]
  · next hline hblock =>
    have hnone : ∀ d, d = '/' ∨ d = '*' → Text.begins ['/', d] t = false := by
      intro d hd
      rw [Bool.eq_false_iff, Text.begins, Ne, List.isPrefixOf_iff_prefix]
      rintro ⟨rest, rfl⟩
      rcases hd with rfl | rfl
      · exact hline rest rfl
      · exact hblock rest rfl
    rw [length?_eq_none_of_lead (p := .lineFrom "//") rfl (hnone _ (.inl rfl)),
      length?_eq_none_of_lead (p := .enclosed "/*" "*/" false) rfl (hnone _ (.inr rfl))]
    rfl

/-! ## §3 Lexemes -/

/-- Whether a pattern lists legal characters only, and no slash behind the first of them. -/
def listsLegal : Pattern → Bool
  | .symbol s => s.all isLegal && !s.tail.contains '/'
  | .word choices => choices.all fun w => w.all Text.isNameRest
  | p => p matches .name | .number | .decimal | .blanks

/-- Behind the two rows for comments all rows list legal characters. -/
theorem rows_listLegal : ∀ q ∈ crossGlRules.drop 2, listsLegal q.pattern := by
  decide +kernel

theorem isLegal_of_isNameRest (h : Text.isNameRest c) : isLegal c ∧ c ≠ '/' := by
  refine ⟨?_, by rintro rfl; cases h⟩
  have hascii := (toNat_of_isNameRest h).2
  simp only [Text.isNameRest, Text.isAsciiWord, Char.isAlphanum, Bool.or_eq_true] at h
  rcases h with (h | h) | h
  · simp [isLegal, Text.isNameStart, h]
  · simp [isLegal, Text.isDigit, CharSet.member, hascii, h]
  · simp [isLegal, Text.isNameStart, h]

/-- What a row for legal characters finds.  Only its first character may be a slash. -/
theorem legal_of_length? {p : Pattern} (hp : listsLegal p)
    (h : p.length? prev (w ++ u) = some w.length) :
    (∀ c ∈ w, isLegal c) ∧ ∀ c ∈ w.tail, c ≠ '/' := by
  -- But for the symbols no row finds a slash at all.
  have hdrawn : p.DrawsOn (fun c => isLegal c ∧ c ≠ '/') →
      (∀ c ∈ w, isLegal c) ∧ ∀ c ∈ w.tail, c ≠ '/' := by
    intro hdraws
    have hall := all_take hdraws h
    rw [List.take_left] at hall
    exact ⟨fun c hc => (hall c hc).1, fun c hc => (hall c (List.mem_of_mem_tail hc)).2⟩
  have hclass : ∀ {q : Char → Bool}, (∀ c, q c → isLegal c) → q '/' = false →
      ∀ c, q c → isLegal c ∧ c ≠ '/' := by
    intro q hq hslash c hc
    refine ⟨hq c hc, ?_⟩
    rintro rfl
    exact Bool.false_ne_true (hslash.symm.trans hc)
  cases p with
  | symbol s =>
    obtain ⟨hs, htail⟩ := Bool.and_eq_true_iff.1 hp
    obtain ⟨hbegins, hlen⟩ := Option.ite_none_right_eq_some.1 h
    have hlen : s.length = w.length := Option.some.inj hlen
    obtain rfl : s = w := (List.prefix_of_prefix_length_le (List.isPrefixOf_iff_prefix.1 hbegins)
      (List.prefix_append w u) hlen.le).eq_of_length hlen
    refine ⟨List.all_eq_true.1 hs, ?_⟩
    rintro c hc rfl
    simp [hc] at htail
  | word choices =>
    exact hdrawn fun w hw c hc =>
      isLegal_of_isNameRest (List.all_eq_true.1 (List.all_eq_true.1 hp w hw) c hc)
  | name => exact hdrawn fun c hc => isLegal_of_isNameRest hc
  | number | decimal =>
    exact hdrawn ⟨hclass (fun c hc => by simp [isLegal, hc]) rfl, by decide⟩
  | blanks => exact hdrawn (hclass (fun c hc => by simp [isLegal, hc]) rfl)
  | _ => cases hp

/-- A lexeme is passed over, be it a comment or not. -/
theorem foreignFrom_lexeme {k : TokenKind} (hw : w ≠ [])
    (h : FirstRow crossGlRules prev (w ++ u) k w.length) :
    foreignFrom 0 pos (w ++ u) = foreignFrom 0 (pos + w.length) u := by
  obtain ⟨before, r, after, hrules, hbefore, -, hfound⟩ := h
  have hcomment := comment?_eq prev (w ++ u)
  have hlist := rows_listLegal
  generalize hlater : crossGlRules.drop 2 = later at hlist
  replace hrules : ⟨.lineComment, .lineFrom "//"⟩ :: ⟨.blockComment, .enclosed "/*" "*/" false⟩ ::
      later = before ++ r :: after := by
    rw [← hrules, ← hlater]
    rfl
  -- The row that finds the lexeme is the first one, the second one or a later one.
  match before with
  | [] =>
    obtain ⟨rfl, -⟩ := List.cons.inj hrules
    exact foreignFrom_comment hw (by rw [hcomment, hfound]; rfl)
  | [q] =>
    simp only [List.cons_append, List.nil_append, List.cons.injEq] at hrules
    obtain ⟨rfl, rfl, -⟩ := hrules
    exact foreignFrom_comment hw (by rw [hcomment, hbefore _ List.mem_cons_self, hfound]; rfl)
  | q :: q' :: before =>
    simp only [List.cons_append, List.cons.injEq] at hrules
    obtain ⟨rfl, rfl, rfl⟩ := hrules
    have hnone : comment? (w ++ u) = none := by
      rw [hcomment, hbefore _ List.mem_cons_self,
        hbefore _ (List.mem_cons_of_mem _ List.mem_cons_self)]
      rfl
    obtain ⟨hlegal, hslash⟩ := legal_of_length? (hlist r (by simp)) hfound
    obtain ⟨c, w, rfl⟩ := List.exists_cons_of_ne_nil hw
    rw [List.cons_append] at hnone ⊢
    rw [foreignFrom, hnone]
    simp only [if_pos (hlegal c List.mem_cons_self)]
    rw [foreignFrom_legal fun d hd => ⟨hlegal d (List.mem_cons_of_mem c hd), hslash d hd⟩,
      List.length_cons]
    congr 1
    omega

/-- The lexemes of a run are passed over one by one. -/
theorem foreignFrom_cuts {lead : Text} {ls : List Lexeme} (h : Cuts crossGlRules lead t ls u) :
    foreignFrom 0 pos t = foreignFrom 0 (pos + (texts ls).length) u := by
  induction h generalizing pos with
  | stop => rfl
  | lexeme hne hrow _ ih =>
    rw [foreignFrom_lexeme hne hrow, ih, texts_cons, List.length_append, Nat.add_assoc]

/-- Every sign is found by a row for it alone. -/
theorem symbol_row : ∀ c ∈ signs, ∃ q ∈ crossGlRules, q.pattern = .symbol [c] := by
  decide +kernel

/-- Where no row finds anything, the character is not legal. -/
theorem not_isLegal_of_noRow (h : NoRow crossGlRules prev (c :: t)) : isLegal c = false := by
  rw [Bool.eq_false_iff]
  intro hc
  simp only [isLegal, Bool.or_eq_true] at hc
  rcases hc with ((hletter | hdigit) | hblank) | hsign
  · have hname := h ⟨.identifier, .name⟩ (by decide)
    simp [length?, headed?, hletter] at hname
  · have hnumber := h ⟨.number, .number⟩ (by decide)
    simp only [length?, number?, span, List.takeWhile_cons, hdigit, if_true, List.length_cons,
      Nat.add_one_ne_zero, if_false] at hnumber
    split at hnumber <;> cases hnumber
  · have hblanks := h ⟨.blank, .blanks⟩ (by decide)
    simp [length?, run?, span, hblank] at hblanks
  · obtain ⟨q, hq, hsymbol⟩ := symbol_row c (List.contains_iff_mem.1 hsign)
    have hnone := h q hq
    simp [hsymbol, length?, Text.begins, List.isPrefixOf] at hnone

/-- Where no row finds anything, the scan stops. -/
theorem foreignFrom_noRow (h : NoRow crossGlRules prev (c :: t)) :
    foreignFrom 0 pos (c :: t) = some (pos, c) := by
  have hnone : comment? (c :: t) = none := by
    rw [comment?_eq prev, h ⟨.lineComment, _⟩ List.mem_cons_self,
      h ⟨.blockComment, .enclosed "/*" "*/" false⟩ (by decide)]
    rfl
  rw [foreignFrom, hnone]
  simp only [not_isLegal_of_noRow h, Bool.false_eq_true, if_false]

/-- The cutter gives up where the scan by characters stops, and nowhere else. -/
theorem lexemes_eq_error_iff {source : Text} {p : Nat} :
    Lexicon.crossGl.lexemes source = .error (p, c) ↔ firstForeign source = some (p, c) := by
  have hends : Ends crossGlRules [] source (Lexicon.crossGl.lexemes source) :=
    ends_lexemesFrom (fun r hr prev t n h => row_advances .crossGl hr h) [] source
  cases hrun : Lexicon.crossGl.lexemes source with
  | ok ls =>
    rw [hrun] at hends
    have hnone : firstForeign source = none := foreignFrom_cuts hends
    simp [hnone]
  | error stop =>
    rw [hrun] at hends
    obtain ⟨p', c'⟩ := stop
    obtain ⟨ls, rest, hcuts, rfl, hnorow⟩ := hends
    have hstop : firstForeign source = some (0 + (texts ls).length, c') :=
      (foreignFrom_cuts hcuts).trans (foreignFrom_noRow hnorow)
    simp [hstop]

/-! ## §4 Complaints -/

theorem tokenize_eq (source : Text) :
    Language.crossGl.tokenize source
      = match Lexicon.crossGl.lexemes source with
        | .ok ls => .ok (ls.filterMap Lexicon.crossGl.token? ++ [⟨.endOfInput, none⟩])
        | .error (p, c) => .error (.rejected (.illegalCharacterIn source c p)) :=
  rfl

/-- A source is rejected exactly if it has a foreign character outside comments, and the complaint
names the first one and its position. -/
theorem tokenize_error_iff_foreign (source : Text) (e : Fault) :
    Language.crossGl.tokenize source = .error e ↔
      ∃ p c, firstForeign source = some (p, c) ∧
        e = .rejected (.illegalCharacterIn source c p) ∧
        (Rejection.illegalCharacterIn source c p).message
          = Text.cat ["Illegal character '", [c], "' at position ", Text.ofNat p]
            ++ '\n' :: Rejection.highlight source p := by
  rw [tokenize_eq]
  cases hrun : Lexicon.crossGl.lexemes source with
  -- A source that is cut up has no foreign character, and both sides fail.
  | ok ls =>
    have hnone : ∀ p c, firstForeign source ≠ some (p, c) := by
      intro p c
      rw [Ne, ← lexemes_eq_error_iff, hrun]
      exact nofun
    simp [hnone]
  | error stop =>
    obtain ⟨p, c⟩ := stop
    have hstop : firstForeign source = some (p, c) := lexemes_eq_error_iff.1 hrun
    constructor
    · rintro ⟨⟩
      exact ⟨p, c, hstop, rfl, Rejection.message_illegalCharacterIn⟩
    · rintro ⟨p', c', hfirst, rfl, -⟩
      cases hstop.symm.trans hfirst
      rfl

end ShaderBridge.CrossGl
