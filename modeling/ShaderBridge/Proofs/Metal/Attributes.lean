import ShaderBridge.Grammar.Metal
import ShaderBridge.Proofs.LongestMatch
import ShaderBridge.Proofs.Reading

/-!
# Attributes in a source

An attribute is found by its double brackets and taken apart at its first parenthesis and its
commas.  Attributes that are written one after another, with white space between them or none, are
one token each, and are read with the names and arguments they were written with
(`attributes_read_back`).
-/

namespace ShaderBridge

namespace Pattern

/-- A closer that occurs at the end of a text and nowhere before is the first one. -/
theorem through_first {closer rest : Text} {last : Char} {oneLine : Bool} {s : Text}
    (hline : '\n' ∉ s) (hfirst : Text.occurs (closer ++ [last]) (s ++ closer) = false) :
    through (closer ++ [last]) oneLine (s ++ (closer ++ last :: rest))
      = some (s.length + closer.length + 1) := by
  -- Along the text, at no place of which the closer begins.
  induction s with
  | nil =>
    have hbegins : Text.begins (closer ++ [last]) (closer ++ last :: rest) = true :=
      List.isPrefixOf_iff_prefix.2 ⟨rest, by simp⟩
    obtain ⟨c, u, hu⟩ : ∃ c u, closer ++ last :: rest = c :: u :=
      List.exists_cons_of_ne_nil (by simp)
    rw [List.nil_append, hu, through, ← hu, if_pos hbegins]
    simp
  | cons c s ih =>
    rw [List.cons_append, Text.occurs, Bool.or_eq_false_iff] at hfirst
    obtain ⟨hc, hs⟩ := not_or.1 (mt List.mem_cons.2 hline)
    have hbegins : Text.begins (closer ++ [last]) (c :: (s ++ closer) ++ last :: rest) = false := by
      rw [begins_of_le (by simp), hfirst.1]
    rw [List.cons_append, List.append_assoc] at hbegins
    rw [List.cons_append, through, if_neg (by simp [hbegins]), if_neg (by simp [Ne.symm hc]),
      ih hs hfirst.2]
    simp
    omega

/-- Of the character in front it matters only whether it is a word character. -/
theorem length?_of_isWordAt {prev prev' : Option Char} (h : isWordAt prev = isWordAt prev')
    (p : Pattern) (t : Text) : p.length? prev t = p.length? prev' t := by
  cases p <;> simp only [length?, h]

end Pattern

namespace Attribute

open Lexicon ShaderBridge.Parser

/-! ## §1 Written attributes -/

/-- What stands between the double brackets: a name, with the arguments in parentheses if there are
any. -/
def inner (name : Text) (args : List Text) : Text :=
  if args = [] then name else Text.cat [name, "(", Text.join "," args, ")"]

/-- An attribute behind blanks.  It can be told from what stands around it, and its parts from each
other: its text is on one line, and the first place where it can end is its end. -/
structure Mark where
  gap : Text
  name : Text
  args : List Text
  gap_blank : ∀ c ∈ gap, Text.isBlank c
  name_plain : '(' ∉ name
  args_plain : ∀ a ∈ args, '(' ∉ a ∧ ',' ∉ a
  one_line : '\n' ∉ inner name args
  closes : Text.occurs "]]" ("[[" ++ inner name args ++ "]") = false

namespace Mark

variable (m : Mark) {lead rest : Text} {ls : List Lexeme} {ts : List Token}

/-- The attribute in its double brackets. -/
def text : Text := "[[" ++ inner m.name m.args ++ "]]"

def token : Token := ⟨.attributeMark, some m.text⟩

def node : Tree := Attribute.node m.name m.args

theorem paren_not_mem_join : '(' ∉ Text.join [','] m.args :=
  Text.join_induction (P := ('(' ∉ ·)) (by simp) (fun hs ht => by simp [hs, ht]) (by simp)
    fun a ha => (m.args_plain a ha).1

/-- The brackets are taken off, and what is left is cut where it was put together. -/
theorem ofContent_text : ofContent (content m.text) = m.node := by
  have hcontent : content m.text = inner m.name m.args := by
    simp [content, text]
  rw [hcontent, ofContent, inner]
  split_ifs with hargs
  · have hcut : Text.cutAt '(' m.name = [m.name] := by
      simpa [Text.join] using @Text.cutAt_join '(' [m.name] (by simp) (by simpa using m.name_plain)
    simp [hcut, node, hargs]
  · have hjoin : Text.cat [m.name, "(", Text.join "," m.args, ")"]
        = Text.join ['('] [m.name, Text.join [','] m.args ++ [')']] := by
      simp [Text.cat, Text.join, List.intercalate]
    have hparts := Text.cutAt_join hargs fun a ha => (m.args_plain a ha).2
    rw [hjoin, Text.cutAt_join (by simp) (by simp [m.name_plain, m.paren_not_mem_join])]
    simp [hparts, node]

/-! ## §2 One token each -/

/-- The row for attributes is the first to find anything, and finds the whole attribute. -/
theorem firstRow_text (prev : Option Char) (rest : Text) :
    FirstRow metalRules prev (m.text ++ rest) .attributeMark m.text.length := by
  refine firstRow_of_apart (r := ⟨.attributeMark, .enclosed "[[" "]]" true⟩) (by decide)
    (by decide) ?_
  have hcloses : Text.occurs "]]" ('[' :: '[' :: (inner m.name m.args ++ [']'])) = false := m.closes
  rw [Text.occurs, Text.occurs, Bool.or_eq_false_iff, Bool.or_eq_false_iff] at hcloses
  have hthrough := @Pattern.through_first [']'] rest ']' true _ m.one_line hcloses.2.2
  have htext : m.text ++ rest = '[' :: '[' :: (inner m.name m.args ++ ([']'] ++ ']' :: rest)) := by
    simp [text]
  have hopens : Text.begins "[[" (m.text ++ rest) = true := by
    rw [htext]
    rfl
  rw [Pattern.length?, if_pos hopens, htext]
  refine (congrArg (Option.map (2 + ·)) hthrough).trans ?_
  simp [text]
  omega

theorem firstRow_gap (prev : Option Char) (rest : Text) (hgap : m.gap ≠ []) :
    FirstRow metalRules prev (m.gap ++ (m.text ++ rest)) .blank m.gap.length := by
  obtain ⟨b, s, hbs⟩ := List.exists_cons_of_ne_nil hgap
  have hrow : FirstRow metalRules prev (b :: (s ++ (m.text ++ rest))) .blank _ :=
    firstRow_blank (by decide) (by decide) (m.gap_blank b (by simp [hbs])) _
  have hcloses : Pattern.Closes Text.isBlank (m.text ++ rest) := by
    rintro c ⟨⟩
    decide
  have hspan : Pattern.span Text.isBlank m.gap = m.gap.length := by
    rw [Pattern.span, List.takeWhile_eq_self_iff.2 m.gap_blank]
  rwa [← List.cons_append, ← hbs, Pattern.span_append hcloses, hspan] at hrow

/-- An attribute gives one token, and the blanks in front of it none. -/
theorem exists_cuts (h : Cuts metalRules (lead ++ m.gap ++ m.text) rest ls []) :
    ∃ ls', Cuts metalRules lead (m.gap ++ (m.text ++ rest)) ls' [] ∧
      ls'.filterMap Language.metal.lexicon.token?
        = m.token :: ls.filterMap Language.metal.lexicon.token? := by
  have hmark :
      Cuts metalRules (lead ++ m.gap) (m.text ++ rest) (⟨.attributeMark, m.text⟩ :: ls) [] :=
    .lexeme (by simp [text]) (m.firstRow_text _ rest) h
  by_cases hgap : m.gap = []
  · exact ⟨_, by simpa [hgap] using hmark, rfl⟩
  · exact ⟨⟨.blank, m.gap⟩ :: _, .lexeme hgap (m.firstRow_gap _ rest hgap) hmark, rfl⟩

theorem reads_single (h : Metal.tv.skips (firstKind ts) = false) :
    Reads (single Metal.tv) [m.token] m.node ts := by
  intro pos
  rw [← m.ofContent_text]
  exact (Reads.takeBefore m.token h).bind_pure (f := fun _ => pure (ofContent (content m.text)))
    (fun _ => rfl) pos

end Mark

/-! ## §3 Attributes in sequence -/

/-- Attributes one after another. -/
def written (ms : List Mark) : Text := ms.flatMap fun m => m.gap ++ m.text

/-- Marks that are written are cut into their own tokens, before whatever follows. -/
theorem exists_cuts_written (ms : List Mark) (lead : Text) {rest : Text} {ls : List Lexeme}
    (hlead : Pattern.isWordAt lead.getLast? = false) (h : Cuts metalRules [] rest ls []) :
    ∃ ls', Cuts metalRules lead (written ms ++ rest) ls' [] ∧
      ls'.filterMap Language.metal.lexicon.token?
        = ms.map Mark.token ++ ls.filterMap Language.metal.lexicon.token? := by
  induction ms generalizing lead with
  | nil => exact ⟨ls, h.relead fun q _ => Pattern.length?_of_isWordAt hlead _ _, rfl⟩
  | cons m ms ih =>
    -- No word goes on behind a closing bracket.
    have hlast : Pattern.isWordAt (lead ++ m.gap ++ m.text).getLast? = false := by
      rw [List.getLast?_append_of_ne_nil _ (by simp [Mark.text]), Mark.text,
        List.getLast?_append_of_ne_nil _ (by simp)]
      decide
    obtain ⟨ls₁, hcuts₁, htokens₁⟩ := ih _ hlast
    obtain ⟨ls₂, hcuts₂, htokens₂⟩ := m.exists_cuts hcuts₁
    refine ⟨ls₂, by simpa [written] using hcuts₂, ?_⟩
    rw [htokens₂, htokens₁]
    rfl

theorem reads_attributes (ms : List Mark) {ts : List Token} (hts : firstKind ts ≠ .attributeMark)
    (hskips : Metal.tv.skips (firstKind ts) = false) :
    Reads (attributes Metal.tv) (ms.map Mark.token) (ms.map Mark.node) ts := by
  induction ms with
  | nil => exact Reads.many_stop fun pos => by simp [hts]
  | cons m ms ih =>
    refine Reads.many_step (u := [m.token]) (fun pos => rfl) (by simp) (m.reads_single ?_) ih
    cases ms with
    | nil => exact hskips
    | cons m' ms => rfl

/-- Comments give no tokens. -/
theorem skips_of_tokenize {source : Text} {ts : List Token}
    (h : Language.metal.tokenize source = .ok ts) : Metal.tv.skips (firstKind ts) = false := by
  obtain ⟨ls, -, rfl⟩ := Language.metal.cuts_of_tokenize h
  cases hls : ls.filterMap Language.metal.lexicon.token? with
  | nil => rfl
  | cons t ts =>
    have hmem : t ∈ ls.filterMap Language.metal.lexicon.token? := by simp [hls]
    obtain ⟨l, -, ht⟩ := List.mem_filterMap.1 hmem
    have hkind : t.kind ∉ [.blank, .lineComment, .blockComment] := (kind_of_token? ht).2
    simp only [List.cons_append, firstKind_cons, Trivia.skips]
    simp_all

/-- Attributes in front of another token are one token each, and are read with the names and
arguments they were written with. -/
theorem attributes_read_back (ms : List Mark) {rest : Text} {ts : List Token}
    (h : Language.metal.tokenize rest = .ok ts) (hts : firstKind ts ≠ .attributeMark) :
    Language.metal.tokenize (written ms ++ rest) = .ok (ms.map Mark.token ++ ts) ∧
      Reads (attributes Metal.tv) (ms.map Mark.token) (ms.map Mark.node) ts := by
  refine ⟨?_, reads_attributes ms hts (skips_of_tokenize h)⟩
  obtain ⟨ls, hcuts, rfl⟩ := Language.metal.cuts_of_tokenize h
  obtain ⟨ls', hcuts', htokens⟩ := exists_cuts_written ms [] rfl hcuts
  rw [Language.metal.tokenize_of_cuts hcuts', htokens, List.append_assoc]

/-- A name with two arguments, one of them with a bracket and a parenthesis, and a bare name on the
next line. -/
def writtenPair : List Mark :=
  [⟨[], "buffer", ["0", "a])"], by decide, by decide, by decide, by decide, by decide⟩,
   ⟨"\n ", "flat", [], by decide, by decide, by decide, by decide, by decide⟩]

theorem attributes_read_back_pair :
    Language.metal.tokenize "[[buffer(0,a]))]]\n [[flat]] x"
        = .ok (writtenPair.map Mark.token ++ [⟨.identifier, some "x"⟩, ⟨.endOfInput, some []⟩]) ∧
      Reads (attributes Metal.tv) (writtenPair.map Mark.token)
        [node "buffer" ["0", "a])"], node "flat" []]
        [⟨.identifier, some "x"⟩, ⟨.endOfInput, some []⟩] := by
  have hrest : Language.metal.tokenize " x"
      = .ok [⟨.identifier, some "x"⟩, ⟨.endOfInput, some []⟩] := by decide
  exact attributes_read_back writtenPair hrest (by decide)

end Attribute

end ShaderBridge
