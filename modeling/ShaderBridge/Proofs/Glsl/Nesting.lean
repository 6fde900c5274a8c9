import ShaderBridge.Proofs.Glsl.Bare

/-!
# What GLSL is written back as is nested

Every text that is written in CrossGL from a GLSL shader has nested brackets (`returns_generate`).
The condition of a branch is written without parentheses, so nothing is opened in front of it.  A
clause of a loop header loses the blanks and semicolons at its ends, none of which is a bracket.
-/

namespace ShaderBridge.Backward.Glsl

open Text (Bare Nested Fills)
open ShaderBridge.Tree (Every IsBare charClosed_isBare)

/-! ## §1 Expressions -/

theorem nested_plain {t : Tree} (h : Every IsBare t) : Nested (plain t) := h.nested_plain .glsl

theorem valueSymbols_bare : ∀ p ∈ Operator.valueSymbols, Bare p.2 := by
  decide

theorem returns_mapType {t : Tree} (h : Every IsBare t) : Returns (mapType t) (Every IsBare) :=
  h.rename nofun

section Statements

variable {sc : Scope} (hsc : sc.sections.Every IsBare)

include hsc

theorem returns_word {t : Tree} (h : Every IsBare t) : Returns (sc.word t) (Every IsBare) := by
  have howner : Every IsBare (sc.sections.ofStage sc.stage) := hsc.ofStage trivial sc.stage
  refine (returns_variableIn charClosed_isBare howner .inputs t).bind fun o ho => ?_
  split
  · next name => exact .pure (ho name rfl)
  refine (returns_variableIn charClosed_isBare howner .outputs t).bind fun o ho => ?_
  refine .pure ?_
  cases o with
  | none => exact h
  | some name => exact ho name rfl

/-- What is written for an expression without brackets in its texts has nested brackets. -/
theorem returns_expression {t : Tree} (h : Every IsBare t) :
    Returns (expression sc t) Nested := by
  -- On the size of the tree, as the generator takes the parts of a node one by one.
  induction hsize : sizeOf t using Nat.strongRecOn generalizing t with
  | _ n ih =>
    subst hsize
    have hpart : ∀ {u : Tree}, sizeOf u < sizeOf t → Every IsBare u →
        Returns (expression sc u) Nested := fun hlt hu => ih _ hlt hu rfl
    unfold expression
    split
    · refine (returns_word hsc h).bind fun _ hu => ?_
      exact .pure (nested_plain hu)
    · refine (h.get .vtype).bind fun vtype hvtype => ?_
      refine (h.get .name).bind fun name hname => ?_
      refine (returns_word hsc hname).bind fun u hu => ?_
      refine .pure ?_
      exact (Fills.nested (nested_plain hvtype) (.fixed _ (.nested (nested_plain hu)
        .done))).nested_cat (by decide)
    · refine (h.part .left).bind fun left hleft => ?_
      refine (hpart left.2 hleft).bind fun l hl => ?_
      refine (h.part .right).bind fun right hright => ?_
      refine (hpart right.2 hright).bind fun r hr => ?_
      refine (h.get .op).bind fun op hop => ?_
      refine (hop.rename valueSymbols_bare).bind fun o ho => ?_
      refine .pure ?_
      exact (Fills.nested hl (.fixed _ (.nested (nested_plain ho) (.fixed _
        (.nested hr .done))))).nested_cat (by decide)
    · refine (h.part .args).bind fun args hargs => ?_
      refine (hargs.parts charClosed_isBare).bind fun us hus => ?_
      refine (Returns.mapM (Q := Nested) fun u hu => ?_).bind fun texts htexts => ?_
      · exact hpart (Nat.lt_of_le_of_lt u.2 args.2) (hus u hu)
      refine (h.get .name).bind fun name hname => ?_
      refine (returns_word hsc hname).bind fun u hu => ?_
      refine .pure ?_
      have hjoined : Nested (Text.join ", " texts) := Text.nested_join (by decide) htexts
      exact (Fills.nested (nested_plain hu) (.fixed _ (.nested hjoined (.fixed _
        .done)))).nested_cat (by decide)
    · refine (h.part .operand).bind fun operand hu => ?_
      refine (hpart operand.2 hu).bind fun e he => ?_
      refine (h.get .op).bind fun op hop => ?_
      exact .pure ((nested_plain hop).append he)
    · refine (h.part .condition).bind fun c hcond => ?_
      refine (hpart c.2 hcond).bind fun c hnc => ?_
      refine (h.part .trueExpr).bind fun yes hyes => ?_
      refine (hpart yes.2 hyes).bind fun y hny => ?_
      refine (h.part .falseExpr).bind fun no hno => ?_
      refine (hpart no.2 hno).bind fun n hnn => ?_
      refine .pure ?_
      exact (Fills.nested hnc (.fixed _ (.nested hny (.fixed _ (.nested hnn .done))))).nested_cat
        (by decide)
    · refine (h.part .object).bind fun object ho => ?_
      refine (hpart object.2 ho).bind fun o hno => ?_
      refine (h.get .member).bind fun member hmember => ?_
      refine .pure ?_
      exact (Fills.nested hno (.fixed _ (.nested (nested_plain hmember) .done))).nested_cat
        (by decide)
    · exact .ok (nested_plain h)

theorem returns_trimmed {t : Tree} (h : Every IsBare t) : Returns (trimmed sc t) Nested := by
  refine (returns_expression hsc h).bind fun _ hs => ?_
  exact .pure hs.trim

/-! ## §2 Updates -/

omit hsc in
theorem nested_step? (op : Tree) {operand : Text} (h : Nested operand) :
    ∀ s ∈ step? op operand, Nested s := by
  have hsteps : ∀ x ∈ steps, Bare x.2.1 ∧ Bare x.2.2 := by decide
  intro s hs
  obtain ⟨x, hx, rfl⟩ := Option.map_eq_some_iff.1 hs
  obtain ⟨hlead, htail⟩ := hsteps x (List.mem_of_find?_eq_some hx)
  exact (Fills.nested hlead.nested (.nested h (.nested htail.nested .done))).nested_cat (by decide)

/-- The update of a loop, if it is written at all, has nested brackets. -/
theorem returns_update {t : Tree} (h : Every IsBare t) :
    Returns (update sc t) fun o => ∀ s ∈ o, Nested s := by
  unfold update
  split
  · refine (h.get .value).bind fun value hvalue => ?_
    split
    · refine (hvalue.get .operand).bind fun u hu => ?_
      refine (returns_trimmed hsc hu).bind fun s hs => ?_
      refine (hvalue.get .op).bind fun op _ => ?_
      exact .pure (nested_step? op hs)
    · refine (h.get .name).bind fun name hname => ?_
      refine (returns_trimmed hsc hname).bind fun l hl => ?_
      refine (returns_trimmed hsc hvalue).bind fun r hr => ?_
      refine .pure ?_
      rintro _ ⟨⟩
      exact (Fills.nested hl (.fixed _ (.nested hr .done))).nested_cat (by decide)
  · refine (h.get .operand).bind fun u hu => ?_
    refine (returns_trimmed hsc hu).bind fun s hs => ?_
    refine (h.get .op).bind fun op hop => ?_
    refine .pure ?_
    rintro _ ⟨⟩
    cases hstep : step? op s with
    | none => exact (nested_plain hop).append hs
    | some x => exact nested_step? op hs x hstep
  · refine (h.get .left).bind fun left hleft => ?_
    refine (returns_trimmed hsc hleft).bind fun l hl => ?_
    refine (h.get .right).bind fun right hright => ?_
    refine (returns_trimmed hsc hright).bind fun r hr => ?_
    refine (h.get .op).bind fun op hop => ?_
    refine (hop.rename valueSymbols_bare).bind fun o ho => ?_
    refine .pure ?_
    rintro _ ⟨⟩
    exact (Fills.nested hl (.fixed _ (.nested (nested_plain ho) (.fixed _
      (.nested hr .done))))).nested_cat (by decide)
  · exact .error

/-! ## §3 Statements -/

theorem returns_assignment {t : Tree} (h : Every IsBare t) : Returns (assignment sc t) Nested := by
  refine (h.get .name).bind fun name hname => ?_
  refine (returns_expression hsc hname).bind fun l hl => ?_
  refine (h.get .value).bind fun value hvalue => ?_
  refine (returns_expression hsc hvalue).bind fun r hr => ?_
  exact .pure ((Fills.nested hl (.fixed _ (.nested hr .done))).nested_cat (by decide))

omit hsc in
theorem nested_clause {s : Text} (h : Nested s) : Nested (withoutSemicolons (Text.trim s)) :=
  h.trim.dropEndWhile (Text.not_isBracket_of (by decide))

section Blocks

variable {t : Tree} (ih : ∀ {u : Tree}, sizeOf u < sizeOf t → Every IsBare u → ∀ level,
  Returns (statement sc level u) Nested)

include ih

omit hsc in
theorem returns_block {α : Type} {body : Tree} (hlt : sizeOf body < sizeOf t)
    (h : Every IsBare body) (level : Int) {k : List Text → Except Fault α} {P : α → Prop}
    (hk : ∀ stmts, Nested (Text.cat stmts) → Returns (k stmts) P) :
    Returns (body.parts >>= fun us => us.mapM (fun ⟨s, _⟩ => statement sc level s) >>= k) P := by
  refine (h.parts charClosed_isBare).bind fun us hus => ?_
  refine (Returns.mapM fun u hu => ?_).bind fun stmts hstmts => hk stmts (Text.nested_cat hstmts)
  exact ih (Nat.lt_of_le_of_lt u.2 hlt) (hus u hu) level

theorem returns_forLoop (h : Every IsBare t) (level : Int) :
    Returns (forLoop sc level t) Nested := by
  have hindent := Text.nested_indent level
  unfold forLoop
  refine (h.part .init).bind fun ⟨init, hlt⟩ hinit => ?_
  refine (ih hlt hinit 0).bind fun first hfirst => ?_
  refine (h.get .condition).bind fun condition hcondition => ?_
  refine (returns_trimmed hsc hcondition).bind fun guard hguard => ?_
  refine (h.get .update).bind fun u hu => ?_
  refine (returns_update hsc hu).bind fun next? hnext => ?_
  split
  · exact .error
  · next next =>
    refine (h.part .body).bind fun ⟨body, hlt⟩ hbody => ?_
    refine returns_block ih hlt hbody (level + 1) fun stmts hstmts => ?_
    refine .pure ?_
    exact (Fills.nested hindent (.fixed _ (.nested (nested_clause hfirst) (.fixed _ (.nested hguard
      (.fixed _ (.nested (nested_clause (hnext next rfl)) (.fixed _ (.fixed _ (.nested hstmts
        (.nested hindent (.fixed _ (.fixed _ .done))))))))))))).nested_cat (by decide)

/-- A branch is written with nested brackets, if smaller statements are. -/
theorem returns_branch (h : Every IsBare t) (level : Int) :
    Returns (branch sc level t) Nested := by
  have hindent := Text.nested_indent level
  unfold branch
  refine (h.get .condition).bind fun condition hcondition => ?_
  refine (returns_expression hsc hcondition).bind fun c hc => ?_
  refine (h.part .ifBody).bind fun ⟨ifBody, hlt⟩ hbody => ?_
  refine returns_block ih hlt hbody (level + 1) fun stmts hstmts => ?_
  refine (h.part .elseIfChain).bind fun ⟨chain, hchain_lt⟩ hchain => ?_
  refine (hchain.parts charClosed_isBare).bind fun us hus => ?_
  refine (Returns.mapM (Q := Nested) ?_).bind fun alternatives halternatives => ?_
  · rintro ⟨p, hle⟩ hp
    refine ((hus _ hp).halves charClosed_isBare).bind ?_
    rintro ⟨⟨d, _⟩, ⟨body, hbody_le⟩⟩ ⟨hd, hbody⟩
    refine (returns_expression hsc hd).bind fun d hd => ?_
    have hsmall := Nat.lt_of_le_of_lt (Nat.le_trans hbody_le hle) hchain_lt
    refine returns_block ih hsmall hbody (level + 1) fun stmts hstmts => ?_
    refine .pure ?_
    exact (Fills.fixed _ (.nested hd (.fixed _ (.fixed _ (.nested hstmts (.nested hindent (.fixed _
      .done))))))).nested_cat (by decide)
  refine (h.part .elseBody).bind fun ⟨elseBody, helse_lt⟩ helse => ?_
  -- The text of the branch, whatever it ends in.
  have hwhole : ∀ last : Text, Nested last → Nested (Text.cat
      [Text.indent level, "if ", c, r" {", "\n", Text.cat stmts, Text.indent level, r"}",
       Text.cat alternatives, last, "\n"]) := fun last hlast =>
    (Fills.nested hindent (.fixed _ (.nested hc (.fixed _ (.fixed _ (.nested hstmts (.nested hindent
      (.fixed _ (.nested (Text.nested_cat halternatives) (.nested hlast (.fixed _
        .done))))))))))).nested_cat (by decide)
  dsimp only
  split
  · refine returns_block ih helse_lt helse (level + 1) fun stmts hstmts => ?_
    refine .pure (hwhole _ ?_)
    exact (Fills.fixed _ (.fixed _ (.nested hstmts (.nested hindent (.fixed _ .done))))).nested_cat
      (by decide)
  · exact .pure (hwhole _ Text.nested_nil)

end Blocks

/-- What is written for a statement has nested brackets. -/
theorem returns_statement {t : Tree} (h : Every IsBare t) (level : Int) :
    Returns (statement sc level t) Nested := by
  -- On the size, as for expressions.
  induction hsize : sizeOf t using Nat.strongRecOn generalizing t level with
  | _ n ih =>
    subst hsize
    have hsmaller : ∀ {u : Tree}, sizeOf u < sizeOf t → Every IsBare u → ∀ level,
        Returns (statement sc level u) Nested := fun hlt hu level => ih _ hlt hu level rfl
    have hindent := Text.nested_indent level
    unfold statement
    split
    · refine (h.get .vtype).bind fun vtype hvtype => ?_
      refine (returns_mapType hvtype).bind fun u hu => ?_
      refine (h.get .name).bind fun name hname => ?_
      refine .pure ?_
      exact (Fills.nested hindent (.nested (nested_plain hu) (.fixed _ (.nested (nested_plain hname)
        (.fixed _ .done))))).nested_cat (by decide)
    · refine (returns_assignment hsc h).bind fun s hs => ?_
      refine .pure ?_
      exact (Fills.nested hindent (.nested hs (.fixed _ .done))).nested_cat (by decide)
    · exact returns_branch hsc hsmaller h level
    · exact returns_forLoop hsc hsmaller h level
    · refine (h.get .value).bind fun value hvalue => ?_
      refine (returns_expression hsc hvalue).bind fun s hs => ?_
      refine .pure ?_
      exact (Fills.nested hindent (.fixed _ (.nested hs (.fixed _ .done)))).nested_cat (by decide)
    · refine (returns_expression hsc h).bind fun s hs => ?_
      refine .pure ?_
      exact (Fills.nested hindent (.nested hs (.fixed _ .done))).nested_cat (by decide)

/-! ## §4 Functions -/

/-- A function is written, and its brackets nest. -/
theorem returns_function {t : Tree} (h : Every IsBare t) : Returns (function sc t) Nested := by
  refine (h.get .params).bind fun ps hps => ?_
  refine (hps.items charClosed_isBare).bind fun xs hxs => ?_
  refine (Returns.mapM (Q := Nested) fun p hp => ?_).bind fun params hparams => ?_
  · refine ((hxs p hp).item charClosed_isBare 0).bind fun vtype hvtype => ?_
    refine (returns_mapType hvtype).bind fun u hu => ?_
    refine ((hxs p hp).item charClosed_isBare 1).bind fun name hname => ?_
    refine .pure ?_
    exact (Fills.nested (nested_plain hu) (.fixed _ (.nested (nested_plain hname)
      .done))).nested_cat (by decide)
  refine (h.get .returnType).bind fun vtype hvtype => ?_
  refine (returns_mapType hvtype).bind fun u hu => ?_
  refine (h.get .name).bind fun name hname => ?_
  refine (h.get .body).bind fun body hbody => ?_
  refine (hbody.items charClosed_isBare).bind fun ss hss => ?_
  refine (Returns.mapM fun s hs => returns_statement hsc (hss s hs) 2).bind fun stmts hstmts => ?_
  refine .pure ?_
  have hjoined : Nested (Text.join ", " params) := Text.nested_join (by decide) hparams
  exact (Fills.fixed _ (.nested (nested_plain hu) (.fixed _ (.nested (nested_plain hname) (.fixed _
    (.nested hjoined (.fixed _ (.fixed _ (.nested (Text.nested_cat hstmts) (.fixed _ (.fixed _
      .done))))))))))).nested_cat (by decide)

theorem returns_functions {t : Tree} (h : Every IsBare t) : Returns (functions sc t) Nested := by
  unfold functions
  split
  · refine (h.items charClosed_isBare).bind fun fs hfs => ?_
    refine (Returns.mapM fun f hf => returns_function hsc (hfs f hf)).bind fun texts htexts => ?_
    exact .pure (Text.nested_cat htexts)
  · exact .pure Text.nested_nil

end Statements

/-! ## §5 Interfaces -/

theorem returns_declarations {word tail : Text} (hword : Nested word) (htail : Nested tail)
    {t : Tree} (h : Every IsBare t) : Returns (declarations word tail t) Nested := by
  refine (h.items charClosed_isBare).bind fun vs hvs => ?_
  refine (Returns.mapM (Q := Nested) fun v hv => ?_).bind fun lines hlines => ?_
  · refine ((hvs v hv).pair charClosed_isBare).bind ?_
    rintro ⟨vtype, name⟩ ⟨hvtype, hname⟩
    refine (returns_mapType hvtype).bind fun u hu => ?_
    refine .pure ?_
    exact (Fills.fixed _ (.nested hword (.fixed _ (.nested (nested_plain hu) (.fixed _
      (.nested (nested_plain hname) (.fixed _ (.nested htail .done)))))))).nested_cat (by decide)
  · exact .pure (Text.nested_cat hlines)

theorem returns_layouts {t : Tree} (h : Every IsBare t) : Returns (layouts t) Nested := by
  refine (h.items charClosed_isBare).bind fun ls hls => ?_
  refine (Returns.mapM (Q := Nested) fun l hl => ?_).bind fun lines hlines => ?_
  · refine ((hls l hl).get .ioType).bind fun direction hdirection => ?_
    split
    · refine ((hls l hl).get .dtype).bind fun vtype hvtype => ?_
      refine ((hls l hl).get .name).bind fun name hname => ?_
      refine .pure ?_
      exact (Fills.fixed _ (.nested (nested_plain hdirection) (.fixed _ (.nested
        (nested_plain hvtype) (.fixed _ (.nested (nested_plain hname) (.fixed _
          .done))))))).nested_cat (by decide)
    · exact .pure Text.nested_nil
  · exact .pure (Text.nested_cat hlines)

/-! ## §6 Shaders -/

/-- The sections and uniforms of a state have no brackets in their texts. -/
structure State.IsBare (s : State) : Prop where
  sections : s.sections.Every Tree.IsBare
  uniforms : ∀ t ∈ s.uniforms?, Every Tree.IsBare t

theorem returns_uniforms {s : State} (hs : s.IsBare) : Returns (uniforms s) Nested := by
  unfold uniforms
  split
  · exact .error
  · next t ht =>
    refine ((hs.uniforms t ht).items charClosed_isBare).bind fun us hus => ?_
    refine .pure ?_
    refine Text.nested_join (by decide) fun line hline => ?_
    obtain ⟨u, hu, rfl⟩ := List.mem_map.1 hline
    have hblanks : Nested "        " := by decide
    exact hblanks.append (nested_plain (hus u hu))

theorem returns_stageSection {s : State} (hs : s.IsBare) (stage : Stage)
    {shared : Except Fault Text} (hshared : Returns shared Nested) {owner : Tree}
    (h : Every IsBare owner) : Returns (stageSection s stage shared owner) Nested := by
  have hlabel : Nested stage.label := by cases stage <;> decide
  refine (h.get .layoutQualifiers).bind fun ls hls => ?_
  refine (returns_layouts hls).bind fun located hl => ?_
  refine hshared.bind fun sharedText hsharedText => ?_
  refine (h.get .inputs).bind fun ins hins => ?_
  refine (returns_declarations (by decide) (by decide) hins).bind fun inText hinText => ?_
  refine (h.get .outputs).bind fun outs houts => ?_
  refine (returns_declarations (by decide) (by decide) houts).bind fun outText houtText => ?_
  refine (returns_uniforms hs).bind fun lines hlines => ?_
  refine (h.get .functions).bind fun fs hfs => ?_
  have hscope : (s.scope (.text stage.label)).sections.Every Tree.IsBare := hs.sections
  refine (returns_functions hscope hfs).bind fun code hcode => ?_
  refine .pure ?_
  exact (Fills.fixed _ (.nested hlabel (.fixed _ (.fixed _ (.nested hl (.nested hsharedText
    (.nested hinText (.nested houtText (.nested hlines (.fixed _ (.nested hcode (.fixed _ (.fixed _
      .done))))))))))))).nested_cat (by decide)

theorem returns_shared {ins outs : Tree} (hins : Every IsBare ins) (houts : Every IsBare outs) :
    Returns (do
      let a ← declarations "input" "" ins
      let b ← declarations "output" "" outs
      return a ++ b) Nested := by
  refine (returns_declarations (by decide) (by decide) hins).bind fun _ ha => ?_
  refine (returns_declarations (by decide) (by decide) houts).bind fun _ hb => ?_
  exact .pure (ha.append hb)

/-- A shader is written with nested brackets, or not at all. -/
theorem returns_shader {t : Tree} (h : Every IsBare t) :
    Gen.Returns State.IsBare (shader t) Nested := by
  refine (Gen.Returns.lift (h.get .globalInputs)).bind fun ins hins => ?_
  refine (Gen.Returns.lift (h.get .globalOutputs)).bind fun outs houts => ?_
  refine (Gen.Returns.lift (h.get .uniforms)).bind fun us hus => ?_
  -- The state holds the sections as they are met, each of them bare.
  refine (Gen.Returns.modify fun s hs => ⟨hs.sections, by simpa using hus⟩).bind fun _ _ => ?_
  refine (Gen.Returns.lift (h.get .vertexSection)).bind fun vertex hvertex => ?_
  refine (Gen.Returns.modify fun s hs => ⟨⟨hvertex, hs.sections.fragment⟩, hs.uniforms⟩).bind
    fun _ _ => ?_
  split
  · exact .throw
  refine Gen.Returns.get.bind fun s hs => ?_
  refine (Gen.Returns.lift
    (returns_stageSection hs .vertex (returns_shared hins houts) hvertex)).bind
    fun vertexText hvertexText => ?_
  refine (Gen.Returns.lift (h.get .fragmentSection)).bind fun fragment hfragment => ?_
  refine (Gen.Returns.modify fun s hs => ⟨⟨hs.sections.vertex, hfragment⟩, hs.uniforms⟩).bind
    fun _ _ => ?_
  refine (Gen.Returns.lift .any).bind fun written _ => ?_
  split
  · exact .throw
  refine Gen.Returns.get.bind fun s hs => ?_
  refine (Gen.Returns.lift (returns_stageSection hs .fragment
    (.ok Text.nested_nil) hfragment)).bind fun fragmentText hfragmentText => ?_
  refine .pure ?_
  exact (Fills.fixed _ (.fixed _ (.nested hvertexText (.nested hfragmentText (.fixed _ (.fixed _
    .done)))))).nested_cat (by decide)

theorem returns_generate {t : Tree} (h : Every IsBare t) :
    Gen.Returns State.IsBare (generate t) Nested := by
  unfold generate
  split
  · exact returns_shader h
  · exact .pure Text.nested_nil

end ShaderBridge.Backward.Glsl
