import ShaderBridge.Proofs.CrossGl.Spending
import ShaderBridge.Proofs.Forward.Scopes
import ShaderBridge.Proofs.Sources

/-!
# The first words of statements

A statement that sets the vertex position would be written as `output.position = …`.  No statement
of a parsed function is: its text opens with a type, a name, `if`, `for`, `return` or the name of a
node, and `output` is a keyword, so it is none of these (`draws_statementWith`).  So no vertex
position is ever noted in a parsed shader (`positionless_of_parse`).
-/

namespace ShaderBridge

/-! ## §1 The first word of a text -/

namespace Text

/-- The word at the front of a text, behind blanks. -/
def leadWord (t : Text) : Text := (t.dropWhile isBlank).takeWhile isNameRest

theorem leadWord_blank (t : Text) : leadWord (' ' :: t) = leadWord t := by
  have hblank : isBlank ' ' = true := by decide
  rw [leadWord, List.dropWhile_cons_of_pos hblank, leadWord]

theorem leadWord_append {t rest : Text} (ht : leadWord t ≠ [])
    (hrest : rest.head?.any isNameRest = false) :
    leadWord (t ++ rest) = leadWord t := by
  have hne : t.dropWhile isBlank ≠ [] := by
    intro h
    simp [leadWord, h] at ht
  have hdrop : (t ++ rest).dropWhile isBlank = t.dropWhile isBlank ++ rest := by
    rw [List.dropWhile_append, if_neg (by simpa using hne)]
  have htake : rest.takeWhile isNameRest = [] := by
    cases rest with
    | nil => rfl
    | cons c rest => simpa using hrest
  rw [leadWord, hdrop, List.takeWhile_append, htake, List.append_nil]
  split
  · next h => exact ((List.takeWhile_prefix _).eq_of_length h).symm
  · rfl

theorem leadWord_word {w : Text} (hw : ∀ c ∈ w, isNameRest c) : leadWord w = w := by
  cases w with
  | nil => rfl
  | cons c w =>
    have hc : isBlank c = false := Pattern.not_isBlank_of_isNameRest (hw c List.mem_cons_self)
    rw [leadWord, List.dropWhile_cons_of_neg (by simp [hc]), List.takeWhile_eq_self_iff]
    exact hw

/-- A text that is trimmed to the position of the output opens with the word for it. -/
theorem leadWord_of_position {t : Text} (h : trim (before '=' t) = "output.position") :
    leadWord t = "output" := by
  obtain ⟨rest, hrest⟩ : before '=' t <+: t := List.takeWhile_prefix _
  -- Trimming leaves a part at the front, behind the blanks.
  obtain ⟨blanks, hblanks⟩ : trim (before '=' t) <+: (before '=' t).dropWhile isBlank := by
    rw [trim, trimEnd, ← List.reverse_suffix, List.reverse_reverse]
    exact List.dropWhile_suffix _
  rw [h] at hblanks
  have hdrop : t.dropWhile isBlank = "output" ++ ('.' :: ("position" ++ (blanks ++ rest))) := by
    have hsplit : ("output.position" : Text) = "output" ++ ('.' :: ("position" : Text)) := rfl
    conv_lhs => rw [← hrest]
    rw [List.dropWhile_append, ← hblanks, if_neg (by simp), hsplit]
    simp
  rw [leadWord, hdrop]
  rfl

end Text

open Text (leadWord)

/-! ## §2 Words of the source -/

namespace CrossGl

open ShaderBridge.Parser Ladder Forward Scope

/-- A word that is not the one for outputs. -/
structure IsPlainWord (w : Text) : Prop where
  ne_nil : w ≠ []
  chars : ∀ c ∈ w, Text.isNameRest c
  ne_output : w ≠ "output"

/-- The tokens of which types and names are plain words. -/
def plainWords : TokenClass where
  has t := t.kind ∈ sectionStarts → ∃ w, t.text = some w ∧ IsPlainWord w
  atEnd := by simp [sectionStarts, valueTypes]

theorem mem_of_word {choices : List Text} {prev : Option Char} {w rest : Text}
    (h : (Pattern.word choices).length? prev (w ++ rest) = some w.length) : w ∈ choices := by
  obtain ⟨-, h⟩ := Option.ite_none_left_eq_some.1 h
  obtain ⟨x, hx, hfound⟩ := List.exists_of_findSome?_eq_some h
  rw [Pattern.wholeWord?] at hfound
  split at hfound
  · next hbegins =>
    have hprefix : x <+: w ++ rest :=
      List.isPrefixOf_iff_prefix.1 (Bool.and_eq_true_iff.1 hbegins).1
    have hlength : x.length = w.length := by simpa using hfound
    have heq : x = w := (List.prefix_of_prefix_length_le hprefix (List.prefix_append w rest)
      hlength.le).eq_of_length hlength
    rwa [← heq]
  · cases hfound

/-- The words that begin a statement are no keywords of the interface. -/
theorem plainWords_of_tokenize {source : Text} {ts : List Token}
    (h : Language.crossGl.tokenize source = .ok ts) : ∀ t ∈ ts, plainWords.has t := by
  intro t ht hkind
  rcases Language.exists_origin h ht with rfl | ⟨r, ⟨k, w⟩, horigin⟩
  · simp [sectionStarts, valueTypes] at hkind
  have htext := horigin.text_eq
  obtain ⟨hmem, rfl, ⟨prev, rest, hfound⟩, htoken⟩ := horigin
  have hrow : r.kind ∈ sectionStarts := by
    by_cases hk : r.kind = .identifier
    · simp [hk, sectionStarts]
    · rwa [(Lexicon.kind_of_token? htoken).1 hk] at hkind
  have hwordy : ∀ r ∈ Lexicon.crossGlRules, r.kind ∈ sectionStarts → r.pattern.isWordy := by decide
  refine ⟨w, htext, ?_, ?_, ?_⟩
  · exact List.length_pos_iff.1 (row_advances .crossGl hmem hfound).1
  · -- The row finds the whole first word of what is ahead.
    have hspan := Pattern.span_of_isWordy (hwordy r hmem hrow) hfound
    have htake : (w ++ rest).takeWhile Text.isNameRest = w :=
      (List.prefix_of_prefix_length_le (List.takeWhile_prefix _) (List.prefix_append w rest)
        hspan.le).eq_of_length hspan
    rw [← htake]
    exact fun c hc => List.mem_takeWhile_imp hc
  · rintro rfl
    by_cases hk : r.kind = .identifier
    · -- The word for outputs is a keyword.
      rw [hk] at htoken
      cases htoken
      revert hkind
      decide
    · have hrows : ∀ r ∈ Lexicon.crossGlRules, r.kind ∈ sectionStarts → r.kind ≠ .identifier →
          Lexicon.lists (· ≠ "output") r.pattern := by decide
      have hlists := hrows r hmem hrow hk
      have hpattern := hwordy r hmem hrow
      cases hp : r.pattern with
      | word choices =>
        rw [hp] at hfound hlists
        simpa using List.all_eq_true.1 hlists _ (mem_of_word hfound)
      | name => simp [hp, Lexicon.lists] at hlists
      | _ => simp [hp, Pattern.isWordy] at hpattern

/-! ## §3 What statements open with -/

/-- The text opens with a word that is not the one for outputs. -/
def OpensPlainly (x : Text) : Prop := IsPlainWord (leadWord x)

theorem OpensPlainly.append {x : Text} (h : OpensPlainly x) (rest : Text)
    (hrest : rest.head?.any Text.isNameRest = false) : OpensPlainly (x ++ rest) := by
  rwa [OpensPlainly, Text.leadWord_append h.ne_nil hrest]

theorem OpensPlainly.blank {x : Text} (h : OpensPlainly x) : OpensPlainly (' ' :: x) := by
  rwa [OpensPlainly, Text.leadWord_blank]

theorem IsPlainWord.opens {w : Text} (h : IsPlainWord w) : OpensPlainly w := by
  rwa [OpensPlainly, Text.leadWord_word h.chars]

theorem opensPlainly_of_eq {x w rest : Text} {c : Char} (hw : IsPlainWord w)
    (hx : x = w ++ (c :: rest)) (hc : Text.isNameRest c = false) : OpensPlainly x := by
  rw [hx]
  exact hw.opens.append _ (by simpa using hc)

theorem isPlainWord_of_all {w : Text} (h : w ≠ [] ∧ w.all Text.isNameRest ∧ w ≠ "output") :
    IsPlainWord w :=
  ⟨h.1, List.all_eq_true.1 h.2.1, h.2.2⟩

/-- Variables and members are printed with the name of their node in front. -/
theorem opensPlainly_var (vtype name : Tree) : OpensPlainly (plain (Tree.var vtype name)) := by
  obtain ⟨rest, hplain⟩ : ∃ rest, plain (Tree.var vtype name) = "VariableNode" ++ ('(' :: rest) :=
    ⟨_, rfl⟩
  exact opensPlainly_of_eq (isPlainWord_of_all (by decide)) hplain (by decide)

theorem opensPlainly_memberOf (object member : Tree) :
    OpensPlainly (plain (Tree.memberOf object member)) := by
  obtain ⟨rest, hplain⟩ :
      ∃ rest, plain (Tree.memberOf object member) = "MemberAccessNode" ++ ('(' :: rest) := ⟨_, rfl⟩
  exact opensPlainly_of_eq (isPlainWord_of_all (by decide)) hplain (by decide)

/-- A renamed word or type is a plain word. -/
theorem isPlainWord_lookup {table : List (Text × Text)} (htable : ∀ p ∈ table, IsPlainWord p.2)
    {w : Text} (h : IsPlainWord w) : IsPlainWord ((table.lookup w).getD w) := by
  cases hfound : table.lookup w with
  | none => exact h
  | some x =>
    obtain ⟨_, _, htable', -⟩ := List.lookup_eq_some_iff.1 hfound
    exact htable (w, x) (by simp [htable'])

theorem isPlainWord_renamed {w : Text} (h : IsPlainWord w) (d : Dialect) :
    IsPlainWord (d.renamed w) := by
  have htables : ∀ p ∈ hlslTypes ++ metalTypes,
      p.2 ≠ [] ∧ p.2.all Text.isNameRest ∧ p.2 ≠ "output" := by decide
  apply isPlainWord_lookup ?_ h
  intro p hp
  apply isPlainWord_of_all (htables p ?_)
  cases d with
  | hlsl => exact List.mem_append_left _ hp
  | metal => exact List.mem_append_right _ hp
  | glsl => cases hp

/-- A type that is mapped stays a plain word. -/
theorem returns_mapType {w : Text} (h : IsPlainWord w) (d : Dialect) :
    Returns (d.mapType (.text w)) fun t => ∃ x, t = .text x ∧ IsPlainWord x := by
  have htables : ∀ p ∈ hlslTypes ++ (charTypes ++ metalTypes),
      p.2 ≠ [] ∧ p.2.all Text.isNameRest ∧ p.2 ≠ "output" := by decide
  have htypes : ∀ p ∈ d.types?.getD [], IsPlainWord p.2 := by
    intro p hp
    apply isPlainWord_of_all (htables p ?_)
    cases d with
    | hlsl => exact List.mem_append_left _ hp
    | metal => exact List.mem_append_right _ hp
    | glsl => cases hp
  unfold Dialect.mapType
  cases htable : d.types? with
  | none => exact .ok ⟨w, rfl, h⟩
  | some table =>
    rw [htable] at htypes
    dsimp only
    rw [Tree.rename_text]
    exact .ok ⟨_, rfl, isPlainWord_lookup htypes h⟩

/-- The expression, written outside all stages, does not open with the word for outputs. -/
def Unled (d : Dialect) (t : Tree) : Prop :=
  ∀ sections, Returns (Forward.expression ⟨d, sections, .absent⟩ t) OpensPlainly

/-- The same of a statement. -/
def UnledLine (d : Dialect) (t : Tree) : Prop :=
  ∀ sections, Returns (Forward.statement ⟨d, sections, .absent⟩ 0 t) OpensPlainly

section Openings

variable {d : Dialect} {w : Text}

theorem Unled.word (h : IsPlainWord w) : Unled d (.text w) := by
  intro sections
  -- Outside the stages no word names a variable.
  have hword : Scope.word ⟨d, sections, .absent⟩ (.text w) = d.mapWord (.text w) := rfl
  rw [expression_text, hword, Dialect.mapWord_text]
  exact .ok (isPlainWord_renamed h d).opens

theorem Unled.memberOf {object : Tree} (member : Tree) (h : Unled d object) :
    Unled d (Tree.memberOf object member) := by
  intro sections
  rw [expression_memberOf]
  refine (h sections).bind fun o ho => ?_
  refine .pure ?_
  exact ho.append ('.' :: _) rfl

theorem Unled.typed (name : Tree) (h : IsPlainWord w) : Unled d (Tree.var (.text w) name) := by
  intro sections
  rw [expression_var]
  refine (returns_mapType h d).bind ?_
  rintro _ ⟨x, rfl, hx⟩
  refine Returns.seq fun e => ?_
  refine .pure ?_
  exact hx.opens.append (' ' :: _) rfl

theorem Unled.untyped {name : Tree} (h : Unled d name) : Unled d (Tree.var (.text []) name) := by
  intro sections
  have htype : d.mapType (.text []) = .ok (.text []) := by cases d <;> rfl
  rw [expression_var, htype]
  refine Returns.bind (P := (· = .text [])) (.ok rfl) ?_
  rintro _ rfl
  refine (h sections).bind fun e he => ?_
  refine .pure ?_
  exact (he.append [] rfl).blank

theorem UnledLine.typed (name : Tree) (h : IsPlainWord w) :
    UnledLine d (Tree.var (.text w) name) := by
  intro sections
  rw [statement_var]
  refine (returns_mapType h d).bind ?_
  rintro _ ⟨x, rfl, hx⟩
  exact .pure (hx.opens.append (' ' :: _) rfl)

theorem UnledLine.untyped {name : Tree} (h : OpensPlainly (plain name)) :
    UnledLine d (Tree.var (.text []) name) := by
  intro sections
  have htype : d.mapType (.text []) = .ok (.text []) := by cases d <;> rfl
  rw [statement_var, htype]
  exact .pure (h.append (';' :: _) rfl).blank

theorem UnledLine.binary {left : Tree} (op right : Tree) (h : Unled d left) :
    UnledLine d (Tree.binary left op right) := by
  intro sections
  rw [statement_binary, expression_binary]
  simp only [bind_assoc]
  refine (h sections).bind fun l hl => ?_
  refine Returns.seq fun opText => ?_
  refine Returns.seq fun r => ?_
  exact .pure ((hl.append (' ' :: _) rfl).append (';' :: _) rfl)

/-- A call of a counted variable, which is a node. -/
theorem UnledLine.callOfVar (vtype name : Tree) (args : List Tree) :
    UnledLine d (Tree.call (Tree.var vtype name) args) := by
  intro sections
  have hname :
      Scope.callName ⟨d, sections, .absent⟩ (Tree.var vtype name) = .ok (Tree.var vtype name) := by
    cases d <;> rfl
  rw [statement_call, expression_call]
  simp only [bind_assoc, hname]
  apply Returns.seq
  intro texts
  refine .pure ?_
  exact ((opensPlainly_var vtype name).append ('(' :: _) rfl).append (';' :: _) rfl

theorem UnledLine.returned (values : List Tree) : UnledLine d (Tree.returned (.list values)) := by
  intro sections
  rw [statement_returned]
  apply Returns.seq
  intro texts
  exact .pure (opensPlainly_of_eq (w := "return") (isPlainWord_of_all (by decide)) rfl (by decide))

theorem UnledLine.forLoop (init condition update : Tree) (body : List Tree) :
    UnledLine d (Tree.forLoop init condition update body) := by
  intro sections
  rw [statement_forLoop]
  apply Returns.seq
  intro first
  apply Returns.seq
  intro guard
  apply Returns.seq
  intro step
  apply Returns.seq
  intro stmts
  exact .pure (opensPlainly_of_eq (w := "for") (isPlainWord_of_all (by decide)) rfl (by decide))

theorem UnledLine.branch (first : Tree × List Tree) (others : List (Tree × List Tree))
    (last : Tree) :
    UnledLine d (branchTree first others last) := by
  intro sections
  rw [statement_branch]
  apply Returns.seq
  intro arm
  apply Returns.seq
  intro alternatives
  apply Returns.seq
  intro ending
  exact .pure (opensPlainly_of_eq (w := "if") (isPlainWord_of_all (by decide)) rfl (by decide))

end Openings

/-! ## §4 Parsed statements -/

variable {d : Dialect} {K : TokenKind → Prop}

/-- What is not looked at leaves words ahead that are plain. -/
theorem drawsAt_of_spares {α : Type} {M : Marks} {p : Parser α} (h : Spares M p) :
    DrawsAt plainWords K p fun _ => True := by
  intro c a c' hc _ hrun
  obtain ⟨used, hused, -⟩ := h c a c' trivial hrun
  exact ⟨trivial, hc.of_suffix ⟨used, hused.symm⟩⟩

/-- A type or name that is taken is a plain word. -/
theorem draws_takeText {ks : List TokenKind} (h : ∀ k ∈ ks, k ∈ sectionStarts) :
    DrawsAt plainWords (fun k => k ∈ ks ∧ K k) (takeText tv)
      fun t => ∃ w, t = .text w ∧ IsPlainWord w := by
  apply DrawsAt.takeText.mono
  rintro _ ⟨tok, ⟨⟨hk, -⟩, htok⟩, rfl⟩
  obtain ⟨w, htext, hw⟩ := htok (h _ hk)
  exact ⟨w, by rw [htext]; rfl, hw⟩

theorem draws_identifier :
    DrawsAt plainWords K (expectText tv .identifier) fun t => ∃ w, t = .text w ∧ IsPlainWord w := by
  apply DrawsAt.expectText.mono
  rintro _ ⟨tok, ⟨hk, htok⟩, rfl⟩
  obtain ⟨w, htext, hw⟩ := htok (by simp [hk, sectionStarts])
  exact ⟨w, by rw [htext]; rfl, hw⟩

/-- The target of an assignment without a type. -/
def IsTarget (d : Dialect) (t : Tree) : Prop := Unled d t ∧ OpensPlainly (plain t)

theorem IsTarget.memberOf {object : Tree} (h : IsTarget d object) (member : Tree) :
    IsTarget d (Tree.memberOf object member) :=
  ⟨h.1.memberOf member, opensPlainly_memberOf object member⟩

theorem draws_memberStep {object : Tree} (h : IsTarget d object) :
    DrawsAt plainWords K (memberStep tv object) (IsTarget d) := by
  apply DrawsAt.expect.seq
  intro _
  apply DrawsAt.check (w := .expected "identifier after dot")
  refine DrawsAt.takeText.bind_pure fun member _ => ?_
  exact h.memberOf member

/-- A name, perhaps with members, is the target of an assignment. -/
theorem draws_members {object : Tree} (h : IsTarget d object) {Q : Tree → Prop}
    {f : Tree → Parser Tree} (hf : ∀ t, IsTarget d t → Draws plainWords (f t) Q) :
    DrawsAt plainWords K (do
      let t ← if ← isAt [.dot] then memberChain tv object else pure object
      f t) Q := by
  refine DrawsAt.cond ?_ (.pure h) hf
  apply (draws_memberStep h).bind
  intro t ht
  exact DrawsAt.loop looks_isAt (fun a ha => draws_memberStep ha) ht

/-- What a statement declares or sets: a variable with its type in front, or a target. -/
def IsDeclared (d : Dialect) (vtype name : Tree) : Prop :=
  (∃ w, vtype = .text w ∧ IsPlainWord w) ∨ (vtype = .text [] ∧ IsTarget d name)

theorem IsDeclared.unled {vtype name : Tree} (h : IsDeclared d vtype name) :
    Unled d (Tree.var vtype name) ∧ UnledLine d (Tree.var vtype name) := by
  rcases h with ⟨w, rfl, hw⟩ | ⟨rfl, hname⟩
  · exact ⟨.typed name hw, .typed name hw⟩
  · exact ⟨.untyped hname.1, .untyped hname.2⟩

theorem draws_declaration {vtype : Tree} (h : ∀ name, IsTarget d name → IsDeclared d vtype name)
    (inUpdate : Bool) : DrawsAt plainWords K (declaration vtype inUpdate) (UnledLine d) := by
  apply draws_identifier.bind
  rintro _ ⟨w, rfl, hw⟩
  apply draws_members ⟨.word hw, hw.opens⟩
  intro name hname
  apply DrawsAt.kind
  intro k _
  -- Whatever is assigned, the line opens with the type or the name.
  have hdone : ∀ op value, UnledLine d (Tree.binary (Tree.var vtype name) op value) :=
    fun op value => .binary op value (h name hname).unled.1
  split
  · apply DrawsAt.take.seq
    intro _
    exact .pure (h name hname).unled.2
  split
  · apply DrawsAt.takeText.seq
    intro op
    apply (drawsAt_of_spares (spares_expression sectionMarks_lacks)).seq
    intro e
    have hmembers : DrawsAt plainWords (fun k => k ∈ [TokenKind.dot] ∧ True) (memberChain tv e)
        fun _ => True :=
      drawsAt_of_spares (Spares.memberChain (lacks_ladderKinds sectionMarks_lacks) e)
    apply DrawsAt.cond hmembers (.pure trivial)
    intro value _
    apply DrawsAt.isAt
    · apply DrawsAt.take.seq
      intro _
      exact .pure (hdone op value)
    · cases inUpdate with
      | true => exact .pure (hdone op value)
      | false => exact DrawsAt.kind fun _ _ => (DrawsAt.reject (P := fun _ => False)).bind nofun
  · exact .reject

theorem draws_assignmentTo {target : Tree} (h : Unled d target) :
    DrawsAt plainWords K (assignmentTo target) (UnledLine d) := by
  apply DrawsAt.check (w := .expectedHere "assignment operator")
  apply DrawsAt.takeText.seq
  intro op
  apply (drawsAt_of_spares (spares_expression sectionMarks_lacks)).seq
  intro value
  apply DrawsAt.accept.seq
  intro _
  exact .pure (.binary op value h)

/-- What a statement goes on with behind a type, a step and a name. -/
theorem draws_afterStep {w : Text} (hw : IsPlainWord w) (counted : Tree) :
    Draws plainWords (do
      let k ← kind
      if k ∈ updateOperators then assignmentTo (Tree.var (.text w) counted)
      else if k ∈ [.increment, .decrement] then
        let _ ← take tv
        let after ← text
        return Tree.var (.text w)
          (Tree.var (.text []) (← joined (Tree.var (.text w) counted) after))
      else if k = .leftParen then callOf (Tree.var (.text w) counted)
      else reject (.unexpectedIn "after identifier" k)) (UnledLine d) := by
  apply DrawsAt.kind
  intro k _
  split
  · exact draws_assignmentTo (.typed counted hw)
  split
  · -- A node and a text cannot be joined.
    apply DrawsAt.take.seq
    intro _
    exact DrawsAt.look.seq fun after => DrawsAt.throw
  split
  · have hargs : Spares sectionMarks (strictArguments tv expression) :=
      Spares.strictArguments (lacks_ladderKinds sectionMarks_lacks)
        (spares_expression sectionMarks_lacks)
    refine (drawsAt_of_spares hargs).bind_pure fun args _ => ?_
    exact .callOfVar _ _ args
  · exact .reject

/-- A plain statement is a line that does not lead to the outputs. -/
theorem draws_plainStatement (inUpdate : Bool) :
    DrawsAt plainWords (· ∈ sectionStarts) (plainStatement inUpdate) (UnledLine d) := by
  apply DrawsAt.isAt
  · apply (draws_takeText (by decide)).bind
    rintro _ ⟨w, rfl, hw⟩
    apply DrawsAt.isAt
    · exact draws_declaration (fun name _ => .inl ⟨w, rfl, hw⟩) inUpdate
    · apply DrawsAt.isAt
      · refine (DrawsAt.takeText.map (Q := fun step => ∃ op, step = some op)
          fun op _ => ⟨op, rfl⟩).bind ?_
        rintro _ ⟨op, rfl⟩
        apply DrawsAt.expectText.seq
        intro name
        apply (drawsAt_of_spares (spares_joined (M := sectionMarks) op name)).seq
        intro both
        exact draws_afterStep hw (Tree.var (.text []) both)
      · -- A name that is not there cannot be read.
        apply DrawsAt.pureThen
        refine DrawsAt.unmet fun k hk => ?_
        simpa using hk.2.1
  · apply DrawsAt.pureThen
    apply DrawsAt.isAt
    · exact draws_declaration (fun name hname => .inr ⟨rfl, hname⟩) inUpdate
    · -- Without a type it is a name that the statement begins with.
      refine DrawsAt.never fun k hk => ?_
      simp only [sectionStarts, List.mem_cons, List.not_mem_nil, or_false] at hk
      tauto

section Statements

variable {body : Parser (List Tree)} (hbody : Spares sectionMarks body)

include hbody

theorem draws_closed {α : Type} {g : List Tree → α} {Q : α → Prop} (hg : ∀ stmts, Q (g stmts)) :
    DrawsAt plainWords K (do
      let stmts ← body
      let _ ← expect tv .rightBrace
      return g stmts) Q := by
  apply (drawsAt_of_spares hbody).seq
  intro stmts
  apply DrawsAt.expect.seq
  intro _
  exact .pure (hg stmts)

theorem draws_branchWith : DrawsAt plainWords K (branchWith body) (UnledLine d) := by
  apply DrawsAt.expect.seq
  intro _
  apply (drawsAt_of_spares (spares_guarded hbody)).seq
  intro first
  apply (DrawsAt.many looks_atElseIf (drawsAt_of_spares (SpendsAt.seq (.expectAll (by decide))
    fun _ => spares_guarded hbody))).seq
  intro others
  refine DrawsAt.isAt ?_ (.pure (.branch first others .absent))
  apply DrawsAt.expectAll.seq
  intro _
  refine draws_closed hbody fun stmts => ?_
  exact .branch first others (.list stmts)

/-- A loop opens plainly. -/
theorem draws_forWith : DrawsAt plainWords K (forWith body) (UnledLine d) := by
  have hclause := spares_plainStatement sectionMarks_lacks
  apply DrawsAt.expectAll.seq
  intro _
  apply (drawsAt_of_spares (hclause false)).seq
  intro init
  apply (drawsAt_of_spares (hclause false)).seq
  intro condition
  apply DrawsAt.lookahead.seq
  intro t
  -- What follows the update does not depend on how it was read.
  have hrest : ∀ step, Draws plainWords (do
      expectAll tv [.rightParen, .leftBrace]
      let stmts ← body
      let _ ← expect tv .rightBrace
      return Tree.forLoop init condition step stmts) (UnledLine d) :=
    fun step => DrawsAt.expectAll.seq fun _ =>
      draws_closed hbody fun stmts => .forLoop init condition step stmts
  dsimp only
  split
  · exact (drawsAt_of_spares (spares_update sectionMarks_lacks)).seq hrest
  · exact (drawsAt_of_spares (hclause true)).seq hrest

omit hbody in
theorem draws_returnStatement : DrawsAt plainWords K returnStatement (UnledLine d) := by
  apply DrawsAt.expect.seq
  intro _
  apply (DrawsAt.sepBy (drawsAt_of_spares (spares_expression sectionMarks_lacks))).seq
  intro values
  apply DrawsAt.expect.seq
  intro _
  exact .pure (.returned values)

theorem draws_statementWith : Draws plainWords (statementWith body) (UnledLine d) := by
  have hstarts : ∀ k ∈ bodyStarts, k ∈ sectionStarts := by decide
  apply DrawsAt.kind
  intro k _
  split
  · exact draws_branchWith hbody
  split
  · exact draws_forWith hbody
  split
  · exact draws_returnStatement
  split
  · next hk => exact (draws_plainStatement false).known (hstarts k hk)
  · exact .reject

end Statements

theorem draws_body : DrawsAt plainWords K CrossGl.body fun ss => ∀ s ∈ ss, UnledLine d s := by
  refine .nested rfl fun n _ => ?_
  exact .many looks_isNotAt (draws_statementWith (spares_bodyAt n)).here

/-! ## §5 Parsed shaders -/

/-- A function of which no statement opens with the word for outputs. -/
def UnledFunction (d : Dialect) (f : Tree) : Prop :=
  ∃ vtype name params body, f = Tree.function vtype name params body ∧ ∀ s ∈ body, UnledLine d s

theorem draws_function : DrawsAt plainWords K function (UnledFunction d) := by
  apply (drawsAt_of_spares spares_typeName).seq
  intro vtype
  apply DrawsAt.check (w := .expected "MAIN or IDENTIFIER")
  apply DrawsAt.takeText.seq
  intro name
  apply DrawsAt.expect.seq
  intro _
  apply (drawsAt_of_spares spares_parameters).seq
  intro params
  apply DrawsAt.expectAll.seq
  intro _
  apply draws_body.bind
  intro body hbody
  apply DrawsAt.expect.seq
  intro _
  exact .pure ⟨vtype, name, params, body, rfl, hbody⟩

/-- The functions of a section are such functions. -/
def SectionItems.AreUnled (d : Dialect) (s : SectionItems) : Prop :=
  ∀ f ∈ s.functions, UnledFunction d f

/-- Declarations of the interface, of whatever kind. -/
theorem draws_interface {ks : List TokenKind} {wanted : Text} {g : Tree × Tree → Tree} :
    DrawsAt plainWords K (many (isAt ks) (do return g (← interfaceItem wanted))) fun _ => True := by
  have hitem : Draws plainWords (interfaceItem wanted) fun _ => True := by
    apply DrawsAt.take.seq
    intro _
    apply DrawsAt.check (w := .expected wanted)
    apply DrawsAt.takeText.seq
    intro vtype
    apply DrawsAt.expectText.seq
    intro name
    apply DrawsAt.expect.seq
    intro _
    exact .pure trivial
  apply (DrawsAt.many (P := fun _ => True) looks_isAt
    (hitem.here.bind_pure fun _ _ => trivial)).mono
  exact fun _ _ => trivial

/-- An item of a section keeps its lines opening plainly. -/
theorem draws_sectionItem {s : SectionItems} (h : s.AreUnled d) :
    DrawsAt plainWords K (sectionItem s) (SectionItems.AreUnled d) := by
  -- A statement leaves the functions as they are.
  have hstmt : ∀ {p : Parser Tree}, Spares sectionMarks p →
      Draws plainWords (do return { s with statements := s.statements ++ [← p] })
        (SectionItems.AreUnled d) :=
    fun hp => (drawsAt_of_spares hp).bind_pure fun _ _ => h
  apply DrawsAt.kind
  intro k _
  refine DrawsAt.here ?_
  split
  · apply draws_interface.seq
    intro _
    exact .pure h
  split
  · exact draws_interface.bind_pure fun _ _ => h
  split
  · exact draws_interface.bind_pure fun _ _ => h
  have hrest : ∀ b : Bool, Draws plainWords (definition s k b) (SectionItems.AreUnled d) := by
    intro b
    unfold definition
    split
    · exact draws_function.bind_pure fun f hf => List.forall_mem_append.2 ⟨h, by simpa using hf⟩
    split
    · exact hstmt (spares_forWith spares_body)
    split
    · exact hstmt (spares_branchWith spares_body)
    split
    · exact hstmt (spares_plainStatement sectionMarks_lacks false)
    · exact .reject
  dsimp only
  split
  · apply DrawsAt.lookahead.seq
    intro t
    exact hrest _
  · exact hrest false

theorem draws_sectionBody : DrawsAt plainWords K sectionBody (SectionItems.AreUnled d) := by
  apply DrawsAt.expect.seq
  intro _
  apply (DrawsAt.loop looks_isNotAt (fun _ h => draws_sectionItem h)
    (by simp [SectionItems.AreUnled])).bind
  intro items hitems
  apply DrawsAt.expect.seq
  intro _
  exact .pure hitems

/-- A section with such functions, or none. -/
def UnledSection (d : Dialect) (t : Tree) : Prop :=
  t = .absent ∨ ∃ (items : SectionItems) (k : NodeKind), t = items.node k ∧ items.AreUnled d

theorem draws_shaderItem {s : ShaderItems} (h : UnledSection d s.vertex) :
    DrawsAt plainWords K (shaderItem s) fun s => UnledSection d s.vertex := by
  apply DrawsAt.kind
  intro k _
  refine DrawsAt.here ?_
  split
  · refine DrawsAt.bind_pure (p := vertexSection) (P := UnledSection d) ?_ fun t ht => ht
    exact DrawsAt.expect.seq fun _ => draws_sectionBody.bind_pure fun items hitems =>
      .inr ⟨items, _, rfl, hitems⟩
  split
  · refine DrawsAt.bind_pure (p := fragmentSection) (P := fun _ => True) ?_ fun t _ => h
    apply DrawsAt.expect.seq
    intro _
    exact (draws_sectionBody (d := d)).bind_pure fun _ _ => trivial
  split
  · exact (draws_function (d := d)).bind_pure fun _ _ => h
  · exact .reject

/-- The vertex section of a shader has no line that leads to the outputs. -/
theorem draws_shader : Draws plainWords shader fun t =>
    ∀ owner, t.get .vertexSection = .ok owner → UnledSection d owner := by
  apply DrawsAt.expect.seq
  intro _
  apply DrawsAt.check (w := .expected "IDENTIFIER or MAIN")
  apply DrawsAt.takeText.seq
  intro name
  apply DrawsAt.expect.seq
  intro _
  apply draws_interface.seq
  intro ins
  apply draws_interface.seq
  intro _
  apply draws_interface.seq
  intro outs
  apply (DrawsAt.loop (P := fun s => UnledSection d s.vertex) looks_isNotAt
    (fun _ h => draws_shaderItem h) (.inl rfl)).bind
  intro s hs
  apply DrawsAt.expect.seq
  intro _
  apply DrawsAt.pure
  rintro _ ⟨⟩
  exact hs

/-- The position would be noted in a statement that opens with the word for outputs. -/
theorem UnledSection.positionless {owner : Tree} (h : UnledSection d owner) :
    Positionless d owner := by
  rcases h with rfl | ⟨items, k, rfl, h⟩
  · rintro fs ⟨⟩
  · rintro _ ⟨⟩ f hf
    obtain ⟨vtype, name, params, body, rfl, hbody⟩ := h f hf
    rintro _ ⟨⟩ t ht sections hsets
    unfold setsPosition at hsets
    cases hrun : Forward.statement ⟨d, sections, .absent⟩ 0 t with
    | error e =>
      rw [hrun] at hsets
      cases hsets
    | ok x =>
      rw [hrun] at hsets
      have hposition : Text.trim (Text.before '=' x) = "output.position" :=
        beq_iff_eq.1 (Except.ok.inj hsets)
      exact (hbody t ht sections x hrun).ne_output (Text.leadWord_of_position hposition)

/-- A parsed shader never sets the vertex position. -/
theorem positionless_of_parse {source : Text} {t owner : Tree}
    (h : Language.crossGl.parse source = .ok t) (howner : t.get .vertexSection = .ok owner) :
    Positionless d owner := by
  obtain ⟨ts, c, htokens, hrun⟩ := Language.parse_eq_ok_iff.1 h
  have hahead : Ahead plainWords (Language.crossGl.start ts) := by
    intro tok htok
    exact plainWords_of_tokenize htokens tok ((Language.start_suffix _ ts).subset htok)
  exact ((draws_shader _ _ _ hahead trivial hrun).1 owner howner).positionless

end CrossGl

end ShaderBridge
