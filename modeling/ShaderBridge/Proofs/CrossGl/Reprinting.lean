import Mathlib.Data.List.Chain
import ShaderBridge.Proofs.CrossGl.Operators

/-!
# Tokens on lines of their own

The tokens of a CrossGL source, each written on a line of its own, are cut into the same tokens
again, comments included, if no word of the source goes on from one lexeme into the next
(`tokenize_reprint`).

A token stays as it is on a line of its own (`Stays`): what a row of the table finds depends on its
neighbours at word boundaries only, and a line end belongs to no token but a block comment, which is
found up to its closer.
-/

namespace ShaderBridge

open Lexicon Pattern

namespace Lexicon

/-- No word goes on from one lexeme into the next. -/
def WordsApart (ls : List Lexeme) : Prop :=
  ls.IsChain fun l m => isWordAt l.text.getLast? → isWordAt m.text.head? = false

instance : DecidablePred WordsApart := fun ls => inferInstanceAs (Decidable (ls.IsChain _))

variable {source : Text} {ls before after : List Lexeme} {l : Lexeme}

/-- A lexeme does not go on with a word in front of it, nor does a word behind it go on with it. -/
theorem WordsApart.around (h : WordsApart (before ++ l :: after))
    (hne : ∀ m ∈ before ++ l :: after, m.text ≠ []) :
    (isWordAt (texts before).getLast? → isWordAt l.text.head? = false) ∧
      (isWordAt l.text.getLast? → isWordAt (texts after).head? = false) := by
  obtain ⟨-, hbehind, hbetween⟩ := List.isChain_append.1 h
  constructor
  -- Lexemes are not empty, so the neighbour is the last one before and the first one behind.
  · rcases List.eq_nil_or_concat before with rfl | ⟨init, m, rfl⟩
    · intro hlast
      cases hlast
    · have hm : m.text ≠ [] := hne m (by simp)
      have hlast : (texts (init ++ [m])).getLast? = m.text.getLast? := by
        simp [texts, List.getLast?_append_of_ne_nil _ hm]
      rw [List.concat_eq_append, hlast]
      exact hbetween m (by simp) l rfl
  · cases after with
    | nil => exact fun _ => rfl
    | cons m after =>
      have hm : m.text ≠ [] := hne m (by simp)
      obtain ⟨c, w, hw⟩ := List.exists_cons_of_ne_nil hm
      have hhead : (texts (m :: after)).head? = m.text.head? := by simp [texts, hw]
      rw [hhead]
      exact (List.isChain_cons_cons.1 hbehind).1

end Lexicon

namespace CrossGl

variable {t : Token} {k : TokenKind} {lead lead' w v v' : Text}

/-- The token is found in its text where no word stands in front of it and the line ends behind
it. -/
def Stays (t : Token) : Prop :=
  ∃ w, t.text = some w ∧ w ≠ [] ∧ ∀ lead v, isWordAt lead.getLast? = false →
    Closes (fun c => decide (c ≠ '\n')) v →
      ∃ k, Cuts crossGlRules lead (w ++ v) [⟨k, w⟩] v ∧ crossGl.token? ⟨k, w⟩ = some t

/-- A text that is a token by itself is one on a line of its own. -/
theorem stays_of_whole (h : crossGl.Whole t w) : Stays t := by
  refine ⟨w, h.text, h.ne_nil, fun lead v hlead hv => ?_⟩
  obtain ⟨k, hfound, htoken⟩ := h.lexeme
  have hbreak : v.head?.all isBreak := by
    cases hhead : v.head? with
    | none => rfl
    | some c =>
      have hc : c = '\n' := by simpa using hv c hhead
      rw [hc]
      rfl
  have hword : isWordAt lead.getLast? → isWordAt w.head? = false := by simp [hlead]
  have hsame := firstMatch_append regular h hword (apart_break h.ne_nil hbreak)
  exact ⟨k, .lexeme h.ne_nil (firstMatch_eq_some_iff.1 (hsame.trans hfound)) (.stop _ _), htoken⟩

/-- A name that is a whole word of a source is the token that it is by itself. -/
theorem whole_of_name (hw : isName w) (h : FirstRow crossGlRules lead.getLast? (w ++ v) k w.length)
    (ht : crossGl.token? ⟨k, w⟩ = some t)
    (hlead : isWordAt lead.getLast? → isWordAt w.head? = false)
    (hnext : isWordAt w.getLast? → isWordAt v.head? = false) : crossGl.Whole t w := by
  have hwhole := whole_name hw
  obtain ⟨l, hfound, htoken⟩ := hwhole.lexeme
  have hlast : isWordAt w.getLast? := by
    have hrest : ∀ c ∈ w, Text.isNameRest c := by
      simpa [isLettered, hwhole.ne_nil] using isLettered_of_isName hw
    refine isWordAt_getLast? hwhole.ne_nil fun c hc => ?_
    exact isWord_of_isNameRest (hrest c hc)
  have hapart : crossGl.Apart w v.head? := by
    cases hhead : v.head? with
    | none => exact apart_none w
    | some c => exact apart_name hw (by simpa [isWordAt, hhead] using hnext hlast)
  have hsame := firstMatch_append regular hwhole hlead hapart
  obtain ⟨rfl, -⟩ := h.unique (firstMatch_eq_some_iff.1 (hsame.trans hfound))
  rwa [Option.some.inj (ht.symm.trans htoken)]

/-- A block comment is found up to its closer, whatever follows. -/
theorem cuts_blockComment {prev : Option Char}
    (h : FirstRow crossGlRules prev (w ++ v) .blockComment w.length) :
    Cuts crossGlRules lead' (w ++ v') [⟨.blockComment, w⟩] v' := by
  obtain ⟨before, row, after, hrules, -, hkind, hfound⟩ := h
  have hrow : row ∈ crossGlRules := by simp [hrules]
  rcases crossGlRules_cases hrow with rfl | rfl | ⟨-, hplain⟩
  · cases hkind
  · rw [length?] at hfound
    split at hfound
    · next hopen =>
      obtain ⟨n, hn, hlen⟩ := Option.map_eq_some_iff.1 hfound
      -- The comment is found within itself, so what follows it does not matter.
      obtain ⟨body, rfl⟩ : ("/*" : Text) <+: w :=
        List.prefix_of_prefix_length_le (List.isPrefixOf_iff_prefix.1 hopen)
          (List.prefix_append w v) (by omega)
      have hdrop : ∀ u, (("/*" : Text) ++ body ++ u).drop ("/*" : Text).length = body ++ u :=
        fun _ => rfl
      rw [hdrop] at hn
      have hle : n ≤ body.length := by
        rw [List.length_append] at hlen
        omega
      refine .lexeme (by simp) ⟨[⟨.lineComment, .lineFrom "//"⟩],
        ⟨.blockComment, .enclosed "/*" "*/" false⟩, crossGlRules.drop 2, rfl, ?_, rfl,
        ?_⟩ (.stop _ _)
      · intro q hq
        obtain rfl := List.mem_singleton.1 hq
        rfl
      · have hopen' : Text.begins "/*" ("/*" ++ body ++ v') = true := rfl
        rw [length?, if_pos hopen', hdrop, through_of_le (by decide) hn hle]
        exact congrArg some hlen
    · cases hfound
  · rw [hkind] at hplain
    cases hplain

/-- A token that is made from a lexeme of whole words stays. -/
theorem stays_of_firstRow (hne : w ≠ [])
    (h : FirstRow crossGlRules lead.getLast? (w ++ v) k w.length)
    (ht : crossGl.token? ⟨k, w⟩ = some t)
    (hlead : isWordAt lead.getLast? → isWordAt w.head? = false)
    (hnext : isWordAt w.getLast? → isWordAt v.head? = false) : Stays t := by
  have htext : t.text = some w := text_of_token? ht
  by_cases hcomment : t.kind.isComment
  · have hkind : k = .lineComment ∨ k = .blockComment := by
      by_cases hk : k = .identifier
      · -- Neither names nor keywords are comments.
        subst hk
        have hkeywords : ∀ q ∈ crossGlKeywords, q.2.isComment = false := by decide
        rcases keyword_of_token? ht with hk | hk
        · rw [hk] at hcomment
          cases hcomment
        · rw [hkeywords _ hk] at hcomment
          cases hcomment
      · rw [(kind_of_token? ht).1 hk] at hcomment
        unfold TokenKind.isComment at hcomment
        split at hcomment
        · exact .inl rfl
        · exact .inr rfl
        · cases hcomment
    refine ⟨w, htext, hne, fun lead' v' _ hv' => ⟨k, ?_, ht⟩⟩
    -- A line comment needs the line end behind it; a block comment needs nothing.
    rcases hkind with rfl | rfl
    · obtain ⟨body, rfl, hbody, -⟩ := Remark.lineComment_eq h
      exact Remark.cuts_line lead' hbody hv'
    · exact cuts_blockComment h
  · rcases (cut_of_firstRow hne h ht).resolve_left hcomment with ⟨-, u, hu, hname⟩ | hlexes
    · obtain rfl : w = u := Option.some.inj (htext.symm.trans hu)
      exact stays_of_whole (whole_of_name hname h ht hlead hnext)
    · obtain ⟨u, hwhole, -⟩ := whole_of_lexes hlexes (Bool.eq_false_iff.2 hcomment)
      exact stays_of_whole hwhole

/-- The tokens of a source of whole words stay. -/
theorem stays_of_lexemes {source : Text} {ls : List Lexeme} (h : crossGl.lexemes source = .ok ls)
    (hwords : WordsApart ls) : ∀ t ∈ ls.filterMap crossGl.token?, Stays t := by
  intro t ht
  obtain ⟨l, hl, htoken⟩ := List.mem_filterMap.1 ht
  obtain ⟨before, after, rfl⟩ := List.append_of_mem hl
  have hcuts := Language.crossGl.cuts_of_lexemes h
  obtain ⟨hlead, hnext⟩ := hwords.around hcuts.ne_nil
  obtain ⟨mid, -, hrest⟩ := hcuts.split
  cases hrest with
  | lexeme hne hrow hafter =>
    obtain rfl := hafter.eq_texts
    rw [List.append_nil] at hrow
    exact stays_of_firstRow hne hrow htoken hlead hnext

/-- The texts of tokens, each on a line of its own.  The end has no text. -/
def reprint (ts : List Token) : Text := Text.join "\n" (ts.filterMap (·.text))

/-- Tokens that stay are cut from their lines. -/
theorem exists_cuts_reprint {ts : List Token} (lead : Text) (h : ∀ t ∈ ts, Stays t)
    (hlead : isWordAt lead.getLast? = false) :
    ∃ ls, Cuts crossGlRules lead (reprint ts) ls [] ∧ ls.filterMap crossGl.token? = ts := by
  induction ts generalizing lead with
  | nil => exact ⟨[], .stop _ _, rfl⟩
  | cons t ts ih =>
    obtain ⟨⟨w, htext, -, hstays⟩, hts⟩ := List.forall_mem_cons.1 h
    cases ts with
    | nil =>
      obtain ⟨k, hcuts, htoken⟩ := hstays lead [] hlead (by intro c hc; cases hc)
      refine ⟨[⟨k, w⟩], ?_, by simp [htoken]⟩
      simpa [reprint, Text.join, htext] using hcuts
    -- The line end begins the next line and belongs to no token.
    | cons u us =>
      obtain ⟨ls, hls, htokens⟩ := ih [] hts rfl
      have hline : reprint (t :: u :: us) = w ++ '\n' :: reprint (u :: us) := by
        obtain ⟨⟨x, hx, -, -⟩, -⟩ := List.forall_mem_cons.1 hts
        simp [reprint, Text.join, htext, hx, List.intercalate]
      obtain ⟨k, hcuts, htoken⟩ :=
        hstays lead ('\n' :: reprint (u :: us)) hlead (Remark.closes_lineEnd _)
      obtain ⟨ls', hls', htokens'⟩ := hls.lineEnd (lead ++ texts [⟨k, w⟩]) (by simp [isWordAt])
      refine ⟨⟨k, w⟩ :: ls', ?_, ?_⟩
      · rw [hline]
        exact hcuts.append hls'
      · rw [List.filterMap_cons_some htoken, htokens', htokens]

/-- Tokens are stable under reprinting.  The tokens of every source that can be cut into lexemes, if
no word goes on from one lexeme into the next, are also the tokens of their texts on lines of their
own: the same kinds and texts in the same order, comments included. -/
theorem tokenize_reprint {source : Text} {ls : List Lexeme} (h : crossGl.lexemes source = .ok ls)
    (hwords : WordsApart ls) :
    ∃ ts, Language.crossGl.tokenize source = .ok ts ∧
      Language.crossGl.tokenize (reprint ts) = .ok ts := by
  obtain ⟨ls', hcuts, htokens⟩ := exists_cuts_reprint [] (stays_of_lexemes h hwords) rfl
  refine ⟨ls.filterMap crossGl.token? ++ [⟨.endOfInput, none⟩],
    Language.crossGl.tokenize_of_cuts (Language.crossGl.cuts_of_lexemes h), ?_⟩
  have hend : reprint (ls.filterMap crossGl.token? ++ [⟨.endOfInput, none⟩])
      = reprint (ls.filterMap crossGl.token?) := by
    simp [reprint]
  rw [hend, ← htokens]
  rw [← htokens] at hcuts
  exact Language.crossGl.tokenize_of_cuts hcuts

/-- Operators side by side, a number with a point at its end, and comments of both sorts. -/
def crowded : Text := "a-=-1.;/* x\n */vec2>>=b++//c"

theorem tokenize_reprint_crowded :
    (∃ ls, crossGl.lexemes crowded = .ok ls ∧ WordsApart ls) ∧
    ∃ ts, Language.crossGl.tokenize crowded = .ok ts ∧
      Language.crossGl.tokenize (reprint ts) = .ok ts := by
  have hlexemes : ∃ ls, crossGl.lexemes crowded = .ok ls ∧ WordsApart ls :=
    ⟨_, rfl, by decide⟩
  obtain ⟨ls, hls, hwords⟩ := hlexemes
  exact ⟨⟨ls, hls, hwords⟩, tokenize_reprint hls hwords⟩

end CrossGl

end ShaderBridge
