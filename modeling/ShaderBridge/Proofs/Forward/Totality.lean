import ShaderBridge.Proofs.CrossGl.Tidy
import ShaderBridge.Proofs.Forward.Shader

/-!
# What every dialect can write

Every expression, statement and function that the grammar of CrossGL builds is written in every
dialect, and what is written has nested brackets (`yields_expression`, `yields_statement`,
`yields_plainFunction`).  Writing could fail in a few ways only: a field is missing, a value that
cannot be a key is looked up, or something that is no sequence is walked through.  The forms of the
grammar rule all of them out.  Words and types are printed as they are or renamed by tables without
brackets, and every form closes the brackets that it opens.

- `IsName t`: the value can be looked up, and its texts have no brackets.
- `Searchable owner`: the inputs and outputs of a section can be searched.
- `IsLine s`: a text without a block, nested in front of its semicolon.
-/

namespace ShaderBridge

open Text (Bare Nested Fills)
open ShaderBridge.Tree (Every IsBare)

/-! ## §1 Looking values up -/

theorem succeeds_find {t : Tree} (h : t.isKey) (table : List (Text × Text)) :
    Succeeds (t.find table) := by
  unfold Tree.find
  split
  · exact .ok _
  · rw [if_pos h]
    exact .ok none

theorem succeeds_rename {t : Tree} (h : t.isKey) (table : List (Text × Text)) :
    Succeeds (t.rename table) := by
  obtain ⟨found, hfound⟩ := succeeds_find h table
  unfold Tree.rename
  rw [hfound]
  cases found with
  | none => exact .ok t
  | some s => exact .ok (Tree.text s)

namespace Forward

open Scope CrossGl ShaderBridge.Parser

theorem words?_bare (d : Dialect) : ∀ table ∈ d.words?, ∀ p ∈ table, Bare p.2 := by
  cases d <;> rintro _ ⟨⟩ <;> decide

theorem types?_bare (d : Dialect) : ∀ table ∈ d.types?, ∀ p ∈ table, Bare p.2 := by
  cases d <;> rintro _ ⟨⟩ <;> decide

theorem symbols_bare : ∀ p ∈ Operator.valueSymbols ++ Operator.assignSymbols, Bare p.2 := by
  decide

theorem bare_signGap (d : Dialect) : Bare d.signGap := by
  cases d <;> decide

theorem nested_plain {t : Tree} (h : Every IsBare t) : Nested (plain t) := h.nested_plain .crossGl

/-- The value can be looked up, and its texts have no brackets. -/
structure IsName (t : Tree) : Prop where
  key : t.isKey
  bare : Every IsBare t

theorem IsName.ofText {t : Tree} (h : BareText t) : IsName t := ⟨h.isKey, builds_isBare.ofText h⟩

theorem IsName.ofCalled {t : Tree} (h : CalledShape t) : IsName t := by
  refine ⟨?_, h.every_tidy.mono fun _ => Tidy.isBare⟩
  cases h with
  | word h => exact h.isKey
  | node => rfl

section Names

variable {t : Tree} (h : IsName t)

include h

theorem IsName.yields_rename {table : List (Text × Text)} (htable : ∀ p ∈ table, Bare p.2) :
    Yields (t.rename table) (Every IsBare) :=
  Returns.yields (h.bare.rename htable) (succeeds_rename h.key table)

theorem IsName.yields_mapType (d : Dialect) : Yields (d.mapType t) (Every IsBare) := by
  unfold Dialect.mapType
  split
  · next table htable => exact h.yields_rename (types?_bare d table htable)
  · exact .ok h.bare

theorem IsName.yields_mapWord (d : Dialect) : Yields (d.mapWord t) (Every IsBare) := by
  unfold Dialect.mapWord
  split
  · next table htable => exact h.yields_rename (words?_bare d table htable)
  · exact .ok h.bare

end Names

/-- Every word can be looked up among the inputs and outputs of a section, and what is found has no
brackets. -/
def Searchable (owner : Tree) : Prop :=
  ∀ f ∈ [Field.inputs, .outputs], ∀ word,
    Yields (variableIn owner f word) fun o => ∀ u ∈ o, Every IsBare u

theorem searchable_absent : Searchable .absent := fun _ _ _ => .ok nofun

variable {sc : Scope}

theorem nested_memberOf (sc : Scope) {struct : Text} {name : Tree} (hstruct : Bare struct)
    (h : Every IsBare name) : Nested (plain (sc.memberOf struct name)) := by
  unfold memberOf
  split
  · exact (Fills.nested hstruct.nested (.fixed _ (.nested (nested_plain h) .done))).nested_cat
      (by decide)
  · exact nested_plain h

section Written

variable (hsc : Searchable sc.owner)

include hsc

theorem yields_word {t : Tree} (h : IsName t) : Yields (sc.word t) fun u => Nested (plain u) := by
  refine (hsc .inputs (by simp) t).bind fun found hfound => ?_
  cases found with
  | some name => exact .pure (nested_memberOf sc (by decide) (hfound name rfl))
  | none =>
    refine (hsc .outputs (by simp) t).bind fun found hfound => ?_
    cases found with
    | some name => exact .pure (nested_memberOf sc (by decide) (hfound name rfl))
    | none => exact (h.yields_mapWord sc.dialect).mono fun _ => nested_plain

theorem yields_callName {t : Tree} (h : IsName t) :
    Yields (sc.callName t) fun u => Nested (plain u) := by
  unfold callName
  split
  · exact yields_word hsc h
  · next table htable =>
    obtain ⟨found, hfound⟩ := succeeds_find h.key table
    rw [hfound]
    cases found with
    | some s =>
      obtain ⟨w, hw⟩ := Tree.returns_find table t _ hfound s rfl
      exact .pure (words?_bare sc.dialect table htable _ hw).nested
    | none => exact yields_word hsc h

/-! ## §2 Expressions -/

theorem yields_call {name : Tree} {args : List Tree} (hn : IsName name)
    (ha : ∀ a ∈ args, Yields (expression sc a) Nested) :
    Yields (expression sc (Tree.call name args)) Nested := by
  rw [expression_call]
  apply (Yields.mapM ha).bind
  intro texts htexts
  apply (yields_callName hsc hn).bind
  intro u hu
  have hargs : Nested (Text.join ", " texts) := Text.nested_join (by decide) htexts
  exact .pure ((Fills.nested hu (.fixed _ (.nested hargs (.fixed _ .done)))).nested_cat (by decide))

/-- Every expression is written, by induction on its form. -/
theorem yields_expression {t : Tree} (h : ExprShape t) : Yields (expression sc t) Nested := by
  induction h with
  | word h =>
    have hname := IsName.ofText h
    obtain ⟨o, rfl, -⟩ := h
    cases o with
    | none =>
      rw [Tree.ofText?, expression_absent]
      exact .ok (nested_plain hname.bare)
    | some s =>
      rw [Tree.ofText?, expression_text]
      apply (yields_word hsc hname).bind
      intro _ hu
      exact .pure hu
  -- A name is written by the recursion; its type is looked up.
  | var hv _ ih =>
    rw [expression_var]
    apply ((IsName.ofText hv).yields_mapType _).bind
    intro u hu
    apply ih.bind
    intro s hs
    refine .pure ?_
    exact (Fills.nested (nested_plain hu) (.fixed _ (.nested hs .done))).nested_cat (by decide)
  | binary _ ho _ ihl ihr =>
    rw [expression_binary]
    apply ihl.bind
    intro l hl
    apply ((IsName.ofText ho).yields_rename symbols_bare).bind
    intro op hop
    apply ihr.bind
    intro r hr
    refine .pure ?_
    exact (Fills.nested hl (.fixed _ (.nested (nested_plain hop) (.fixed _ (.nested hr
      .done))))).nested_cat (by decide)
  | unary ho _ ih =>
    rw [expression_unary]
    apply ((IsName.ofText ho).yields_rename symbols_bare).bind
    intro op hop
    apply ih.bind
    intro e he
    refine .pure ?_
    exact (Fills.nested (nested_plain hop) (.nested (bare_signGap _).nested (.nested he
      .done))).nested_cat (by decide)
  | ternary _ _ _ ihc ihy ihn =>
    rw [expression_ternary]
    apply ihc.bind
    intro c hc
    apply ihy.bind
    intro y hy
    apply ihn.bind
    intro n hn
    refine .pure ?_
    exact (Fills.nested hc (.fixed _ (.nested hy (.fixed _ (.nested hn .done))))).nested_cat
      (by decide)
  | memberOf s _ hs ih =>
    rw [expression_memberOf]
    apply ih.bind
    intro o ho
    refine .pure ?_
    exact (Fills.nested ho (.fixed _ (.nested hs.nested .done))).nested_cat (by decide)
  | call hn _ ih => exact yields_call hsc (.ofText hn) ih

theorem yields_expressions {ts : List Tree} (h : ∀ t ∈ ts, ExprShape t) :
    Yields (ts.mapM (expression sc)) fun texts => Nested (Text.join ", " texts) := by
  refine (Yields.mapM fun t ht => yields_expression hsc (h t ht)).mono fun _ => ?_
  exact Text.nested_join (by decide)

/-! ## §3 Lines -/

/-- A line without a block is nested in front of its semicolon. -/
def IsLine (s : Text) : Prop := ∃ x, Nested x ∧ s = x ++ ";\n"

omit hsc in
theorem isLine_cat (pieces : List Text) (h : Nested (Text.cat pieces)) :
    IsLine (Text.cat (pieces ++ [(";\n" : Text)])) :=
  ⟨_, h, by simp [Text.cat]⟩

omit hsc in
theorem IsLine.nested {s : Text} (h : IsLine s) : Nested s := by
  obtain ⟨x, hx, rfl⟩ := h
  exact hx.append (by decide)

omit hsc in
/-- A clause of a loop header is a line without its semicolon. -/
theorem IsLine.nested_clause {s : Text} (h : IsLine s) : Nested (clause s) := by
  obtain ⟨x, hx, rfl⟩ := h
  have hclause : clause (x ++ ";\n") = x.dropWhile Text.isBlank := by
    rw [clause, Text.trim_semicolon]
    exact List.dropLast_concat
  rw [hclause]
  exact hx.dropWhile Text.not_isBracket_of_isBlank

omit hsc in
/-- An expression that stands as a statement. -/
theorem isLine_expression {e : Text} (h : Nested e) (level : Int) :
    IsLine (Text.cat [Text.indent level, e, ";\n"]) := by
  refine isLine_cat [_, _] ?_
  exact (Fills.nested (Text.nested_indent level) (.nested h .done)).nested_cat (by decide)

/-- A line of code is written. -/
theorem yields_line {t : Tree} (h : LineShape t) (level : Int) :
    Yields (statement sc level t) IsLine := by
  cases h with
  | var hv name hn =>
    rw [statement_var]
    apply ((IsName.ofText hv).yields_mapType _).bind
    intro u hu
    -- The name is printed as it is, so that all of it has to be without brackets.
    have hname : Nested (plain name) := nested_plain (hn.every_tidy.mono fun _ => Tidy.isBare)
    refine .pure (isLine_cat [_, _, _, _] ?_)
    exact (Fills.nested (Text.nested_indent level) (.nested (nested_plain hu) (.fixed _
      (.nested hname .done)))).nested_cat (by decide)
  | binary hl ho hr =>
    rw [statement_binary]
    apply (yields_expression hsc (.binary hl ho hr)).bind
    intro _ he
    exact .pure (isLine_expression he level)
  | call hn ha =>
    rw [statement_call]
    have hcall := yields_call hsc (.ofCalled hn) fun a h => yields_expression hsc (ha a h)
    apply hcall.bind
    intro _ he
    exact .pure (isLine_expression he level)
  | absent =>
    rw [statement_absent]
    have habsent := yields_expression hsc (.word bareText_absent)
    apply habsent.bind
    intro _ he
    exact .pure (isLine_expression he level)

/-! ## §4 Statements -/

omit hsc in
theorem yields_block {ss : List Tree} {level : Int}
    (h : ∀ s ∈ ss, Yields (statement sc level s) Nested) :
    Yields (ss.mapM (statement sc level)) fun stmts => Nested (Text.cat stmts) :=
  (Yields.mapM h).mono fun _ => Text.nested_cat

theorem yields_armText {a : Tree × List Tree} (level : Int) (hc : ExprShape a.1)
    (hb : ∀ s ∈ a.2, Yields (statement sc (level + 1) s) Nested) :
    Yields (armText sc level a) Nested := by
  apply (yields_expression hsc hc).bind
  intro c hc
  apply (yields_block hb).bind
  intro stmts hstmts
  exact .pure ((Fills.fixed _ (.nested hc (.fixed _ (.fixed _ (.nested hstmts (.nested
    (Text.nested_indent level) (.fixed _ .done))))))).nested_cat (by decide))

omit hsc in
theorem yields_endingText {last : Option (List Tree)} (level : Int)
    (h : ∀ s ∈ last.getD [], Yields (statement sc (level + 1) s) Nested) :
    Yields (endingText sc level (endingTree last)) Nested := by
  match last with
  | none | some [] => exact .pure Text.nested_nil
  | some (s :: ss) =>
    rw [endingTree, endingText_list]
    apply (yields_block h).bind
    intro stmts hstmts
    refine .pure ?_
    exact (Fills.fixed _ (.fixed _ (.nested hstmts (.nested (Text.nested_indent level) (.fixed _
      .done))))).nested_cat (by decide)

/-- Every statement is written, by induction on its form. -/
theorem yields_statement {t : Tree} (h : StmtShape t) (level : Int) :
    Yields (statement sc level t) Nested := by
  have hindent := Text.nested_indent level
  induction h generalizing level with
  | line h => exact (yields_line hsc h level).mono fun _ => IsLine.nested
  | returned h =>
    rw [statement_returned]
    apply (yields_expressions hsc h).bind
    intro texts htexts
    refine .pure ?_
    exact (Fills.nested hindent (.fixed _ (.nested htexts (.fixed _ .done)))).nested_cat (by decide)
  -- The clauses are lines, written at level zero and without their line ends.
  | forLoop hi hc hu _ ih =>
    rw [statement_forLoop]
    apply (yields_line hsc hi 0).bind
    intro first hfirst
    apply (yields_line hsc hc 0).bind
    intro guard hguard
    apply (yields_line hsc hu 0).bind
    intro step hstep
    refine (yields_block fun s hs => ih s hs _ (Text.nested_indent _)).bind fun stmts hstmts => ?_
    exact .pure ((Fills.nested hindent (.fixed _ (.nested hfirst.nested_clause (.fixed _
      (.nested hguard.nested_clause (.fixed _ (.nested hstep.nested_clause (.fixed _ (.fixed _
        (.nested hstmts (.nested hindent (.fixed _ (.fixed _ .done))))))))))))).nested_cat
          (by decide))
  | branch hc _ hcs _ _ ihb ihbs ihlast =>
    have harm := yields_armText hsc level hc fun s hs => ihb s hs _ (Text.nested_indent _)
    have hlast := yields_endingText level fun s hs => ihlast s hs _ (Text.nested_indent _)
    rw [statement_branch]
    apply harm.bind
    intro arm harm
    refine (Yields.mapM (Q := Nested) fun a ha => ?_).bind fun alternatives halternatives => ?_
    · have hword : Nested " else if " := by decide
      refine (yields_armText hsc level (hcs a ha) fun s hs => ?_).bind
        fun _ h => .pure (hword.append h)
      exact ihbs a ha s hs _ (Text.nested_indent _)
    apply hlast.bind
    intro ending hending
    refine .pure ?_
    exact (Fills.nested hindent (.fixed _ (.nested harm (.nested (Text.nested_cat halternatives)
      (.nested hending (.fixed _ .done)))))).nested_cat (by decide)

theorem yields_statements {ss : List Tree} (h : ∀ s ∈ ss, StmtShape s) (level : Int) :
    Yields (statements sc level (.list ss)) Nested := by
  refine (yields_block fun s hs => yields_statement hsc (h s hs) level).bind fun _ hstmts => ?_
  exact .pure hstmts

/-! ## §5 Functions -/

omit hsc in
theorem yields_paramText {p : Tree} (h : ParamShape p) :
    Yields (paramText sc p) Nested := by
  obtain ⟨vtype, name, rfl, hv, hn⟩ := h
  apply ((IsName.ofText hv).yields_mapType sc.dialect).bind
  intro u hu
  refine .pure ?_
  exact (Fills.nested (nested_plain hu) (.fixed _ (.nested (nested_plain (IsName.ofText hn).bare)
    .done))).nested_cat (by decide)

variable {f : Tree} {fs : List Tree}

omit hsc in
theorem succeeds_isEntry (h : FunctionShape f) : Succeeds (isEntry f) := by
  cases h
  exact .ok _

theorem yields_plainFunction (h : FunctionShape f) : Yields (plainFunction sc f) Nested := by
  obtain @⟨vtype, name, params, body, hv, hn, hp, hb⟩ := h
  rw [plainFunction_function, parameters_list]
  have hparams : Yields (do return Text.join ", " (← params.mapM (paramText sc))) Nested :=
    (Yields.mapM fun p h => yields_paramText (hp p h)).bind fun _ htexts =>
      .pure (Text.nested_join (by decide) htexts)
  apply hparams.bind
  intro params hparams
  apply ((IsName.ofText hv).yields_mapType _).bind
  intro u hu
  refine (yields_block fun s hs => yields_statement hsc (hb s hs) 1).bind fun stmts hstmts => ?_
  have hname : Nested (plain name) := nested_plain (IsName.ofText hn).bare
  exact .pure ((Fills.nested (nested_plain hu) (.fixed _ (.nested hname (.fixed _ (.nested hparams
    (.fixed _ (.fixed _ (.nested hstmts (.fixed _ (.fixed _ .done)))))))))).nested_cat (by decide))

theorem yields_body (h : FunctionShape f) :
    ∃ body, f.get .body = .ok (.list body) ∧ Yields (statements sc 1 (.list body)) Nested := by
  obtain ⟨name, -, -, -, hb⟩ := h
  exact ⟨_, rfl, yields_statements hsc hb 1⟩

omit hsc in
theorem nested_sharedEntry (d : Dialect) : Nested d.sharedEntry.1 ∧ Nested d.sharedEntry.2 := by
  cases d <;> decide

/-- A shared function is written, an entry point among them with the opening of its dialect. -/
theorem yields_sharedFunction (h : FunctionShape f) : Yields (sharedFunction sc f) Nested := by
  unfold sharedFunction
  split
  · obtain ⟨b, hb⟩ := succeeds_isEntry h
    rw [hb]
    cases b with
    | false => exact yields_plainFunction hsc h
    | true =>
      obtain ⟨body, hbody, hstmts⟩ := yields_body hsc h
      show Yields (f.get .body >>= fun t => statements sc 1 t >>= fun _ => _) _
      rw [hbody]
      apply hstmts.bind
      intro stmts hstmts
      refine .pure ?_
      obtain ⟨hvtype, hparams⟩ := nested_sharedEntry sc.dialect
      exact (Fills.nested hvtype (.fixed _ (.nested hparams (.fixed _ (.fixed _ (.nested hvtype
        (.fixed _ (.nested hstmts (.fixed _ (.fixed _ (.fixed _ .done))))))))))).nested_cat
          (by decide)
  · exact yields_plainFunction hsc h

omit hsc in
/-- The first lines of an entry point open the brace that its last line closes. -/
theorem nested_entry {d : Dialect} (hd : d.hasStageStructs) (stage : Stage) {stmts : Text}
    (h : Nested stmts) :
    Nested (Text.cat [d.entryOpening stage, stmts, "    return output;\n", r"}", "\n"]) := by
  cases d with
  | glsl => cases hd
  | _ =>
    cases stage <;>
      exact (Fills.fixed _ (.nested h (.fixed _ (.fixed _ (.fixed _ .done))))).nested_cat
        (by decide +kernel)

theorem yields_entryPoint (h : FunctionShape f) (hstage : (Stage.of? sc.stage).isSome) :
    Yields (entryPoint sc f) Nested := by
  unfold entryPoint
  split
  · next hd =>
    obtain ⟨body, hbody, hstmts⟩ := yields_body hsc h
    obtain ⟨stage, hstage⟩ := Option.isSome_iff_exists.1 hstage
    rw [hbody, hstage]
    apply hstmts.bind
    intro _ hstmts
    exact .pure (nested_entry hd stage hstmts)
  · exact yields_plainFunction hsc h

/-- All functions of a section but its entry points. -/
theorem yields_helperFunctions (h : ∀ f ∈ fs, FunctionShape f) :
    Yields (helperFunctions sc (.list fs)) Nested := by
  refine (Yields.mapM (Q := Nested) fun f hf => ?_).bind fun _ h => .pure (Text.nested_cat h)
  obtain ⟨b, hb⟩ := succeeds_isEntry (h f hf)
  rw [hb]
  cases b with
  | true => exact .pure Text.nested_nil
  | false => exact yields_plainFunction hsc (h f hf)

theorem yields_entryPoints (h : ∀ f ∈ fs, FunctionShape f) (hstage : (Stage.of? sc.stage).isSome) :
    Yields (entryPoints sc (.list fs)) Nested := by
  unfold entryPoints
  split
  · refine (Yields.mapM (Q := Nested) fun f hf => ?_).bind fun _ h => .pure (Text.nested_cat h)
    obtain ⟨b, hb⟩ := succeeds_isEntry (h f hf)
    rw [hb]
    cases b with
    | true =>
      apply (yields_entryPoint hsc (h f hf) hstage).bind
      intro _ hs
      exact .pure (hs.append (by decide))
    | false => exact .pure Text.nested_nil
  · exact .pure Text.nested_nil

/-- The functions outside all sections. -/
theorem yields_sharedFunctions (h : ∀ f ∈ fs, FunctionShape f)
    (hstage : sc.stage = .text "global") : Yields (sharedFunctions sc (.list fs)) Nested := by
  refine (Yields.mapM (Q := Nested) fun f hf => ?_).bind fun _ h => .pure (Text.nested_cat h)
  have hshared : function sc f = sharedFunction sc f := by
    rw [function, hstage]
    rfl
  rw [hshared]
  apply (yields_sharedFunction hsc (h f hf)).bind
  intro _ hs
  exact .pure (hs.append (by decide))

end Written

end Forward

end ShaderBridge
