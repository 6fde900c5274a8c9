import ShaderBridge.Proofs.Forward.Words
import ShaderBridge.Proofs.Memory

/-!
# The position of a vertex

A vertex shader sets the position of its vertex by a statement `gl_Position = e;`.  HLSL and Metal
have an output of their own for it, which an assignment node would be written to.  The grammar makes
no assignment nodes: the statement is read as an operation, like any other (`reads_setting`), and so
it is written as it was read, and no position is declared (`position_keeps_its_name`).
-/

namespace ShaderBridge

open ShaderBridge.Parser CrossGl

/-! ## §1 Reading -/

/-- The tree of a statement that sets the position of a vertex. -/
def setting (e : Tree) : Tree :=
  Tree.binary (Tree.var (.text []) (.text "gl_Position")) (.text "=") e

/-- What opens with `gl_Position =` is read as an operation. -/
theorem reads_setting {c c' : Cursor} {s : Tree} {body : Parser (List Tree)}
    (hname : c.current = ⟨.identifier, some "gl_Position"⟩)
    (hop : (c.advance tv).current = ⟨.equals, some "="⟩)
    (hrun : statementWith body c = .ok s c') : ∃ e, s = setting e := by
  have hkind : c.kind = .identifier := congrArg Token.kind hname
  have hnext : (c.advance tv).kind = .equals := congrArg Token.kind hop
  -- A name in front of an operator opens a declaration without a type.
  have hplain : plainStatement false c = .ok s c' := by
    rw [statementWith, kind_bind, hkind] at hrun
    exact hrun
  have hdeclaration : declaration (.text []) false c = .ok s c' := by
    rw [plainStatement, isAt_bind, hkind, if_neg (by decide), pure_bind] at hplain
    dsimp only at hplain
    rw [isAt_bind, hkind, if_pos (by decide)] at hplain
    exact hplain
  have hfirst : expectText tv .identifier c = .ok (.text "gl_Position") (c.advance tv) := by
    rw [expectText, bind_of_ok (expect_run hkind), hname]
    rfl
  rw [declaration, bind_of_ok hfirst, isAt_bind, hnext, if_neg (by decide), pure_bind]
    at hdeclaration
  dsimp only at hdeclaration
  rw [kind_bind, hnext, if_neg (by decide), if_pos (by decide), takeText_bind, hop] at hdeclaration
  obtain ⟨e, c₁, -, hrest⟩ := bind_eq_ok hdeclaration
  -- Whatever stands behind the value, the operation is what is given.
  have hend : ∀ value c₂, (do
      if ← isAt [.semicolon] then
        let _ ← take tv
      else if !false then
        reject (.expectedHere "';' after variable assignment" (← kind))
      return Tree.binary (Tree.var (.text []) (.text "gl_Position")) (.text "=") value :
        Parser Tree)
        c₂ = .ok s c' → ∃ e, s = setting e := by
    intro value c₂ hc₂
    rw [isAt_bind] at hc₂
    split at hc₂
    · cases hc₂
      exact ⟨value, rfl⟩
    · cases hc₂
  rw [isAt_bind] at hrest
  split at hrest
  · obtain ⟨value, c₂, -, hvalue⟩ := bind_eq_ok hrest
    exact hend value c₂ hvalue
  · exact hend e c₁ hrest

/-! ## §2 Writing -/

open Forward

/-- The position under the name it is written with: its own, unless the section declares a variable
of that name. -/
def positionWord (items : SectionItems) : Text :=
  if ("gl_Position" : Text) ∈ variableNames items.inputs then "input.gl_Position"
  else if ("gl_Position" : Text) ∈ variableNames items.outputs then "output.gl_Position"
  else "gl_Position"

theorem writtenWord_position (d : Dialect) (items : SectionItems) :
    writtenWord d items "gl_Position" = positionWord items := by
  have hrenamed : d.renamed "gl_Position" = "gl_Position" := by cases d <;> rfl
  rw [writtenWord, positionWord, hrenamed]
  rfl

/-- A statement that sets the position is written as it was read. -/
theorem statement_setting {sc : Scope} {items : SectionItems} {k : NodeKind} {e : Tree}
    {line : Text}
    (hd : sc.dialect.hasStageStructs) (howner : sc.owner = items.node k) (h : SectionShape items)
    (hline : statement sc 1 (setting e) = .ok line) :
    ∃ value, Forward.expression sc e = .ok value ∧
      line = Text.cat ["     ", positionWord items, " = ", value, ";\n"] := by
  -- No stage has the name, so only outputs that are declared so rename it.
  have hname : Forward.expression sc (Tree.var (.text []) (.text "gl_Position"))
      = .ok (' ' :: positionWord items) := by
    have htype : sc.dialect.mapType (.text []) = .ok (.text []) := by
      cases sc.dialect <;> rfl
    rw [expression_var, htype, expression_text, word_text hd howner h, writtenWord_position]
    show Except.ok (Text.cat [[], " ", positionWord items]) = _
    simp [Text.cat]
  rw [setting, statement_binary, expression_binary, hname] at hline
  obtain ⟨x, hx, hline⟩ := exists_of_bind_ok hline
  obtain ⟨_, hl, hx⟩ := exists_of_bind_ok hx
  obtain ⟨op, hop, hx⟩ := exists_of_bind_ok hx
  obtain ⟨value, hvalue, hx⟩ := exists_of_bind_ok hx
  cases hl
  cases hop
  cases hx
  cases hline
  refine ⟨value, hvalue, ?_⟩
  have hindent : ("     " : Text) = Text.indent 1 ++ " " := rfl
  have hop : (" = " : Text) = " " ++ ("=" ++ " ") := rfl
  have hplain : Scope.plain (.text "=") = "=" := rfl
  rw [hindent, hop, hplain]
  simp [Text.cat]

/-- The text of a parsed shader whose entry point sets the position: the structure of the outputs,
and the entry point. -/
theorem exists_text_of_setting {d : Dialect} (hd : d.hasStageStructs) {source : Text} {t : Tree}
    (hparse : Language.crossGl.parse source = .ok t) {items : SectionItems}
    (hvertex : t.get .vertexSection = .ok (items.node .vertexSection)) (houts : items.outputs ≠ [])
    {vtype : Tree} {params body : List Tree} {e : Tree}
    (hmain : Tree.function vtype (.text "main") params body ∈ items.functions)
    (hset : setting e ∈ body) :
    ∃ (text : Text) (lines : List Text) (first value last : Text),
      (Route.forward d).generate t = .ok text ∧
      variableLines d .vertexOutput 0 items.outputs = .ok lines ∧
      d.channelText .vertexOutput (Text.cat lines) <:+: text ∧
      Forward.expression
          ⟨d, { vertex := items.node .vertexSection }, .text "vertex"⟩ e = .ok value ∧
      Text.cat [d.entryOpening .vertex, first, "     ", positionWord items, " = ", value, ";\n",
        last, "    return output;\n", r"}", "\n"] <:+: text := by
  obtain ⟨text, htext, hwritten, -⟩ := exists_text_of_parse hparse d
  have hsection : SectionShape items :=
    (Language.of_parse hparse makes_shaderShape).section .vertex hvertex
  obtain ⟨sc, x, rfl, hstage, howner, hx, hpart⟩ :=
    exists_infix_of_shaderWritten hwritten .vertex hvertex (beq_self_eq_true _)
  obtain ⟨⟨outs, houtsText, houtsPart⟩, hfunctions⟩ :=
    exists_infix_of_sectionWritten hx rfl rfl hstage
  -- The structure of the outputs: it is written, as there is an output.
  have hset' : (Tree.list items.outputs).isSet := by
    cases houts' : items.outputs with
    | nil => exact absurd houts' houts
    | cons p ps => rfl
  rw [interfaceText, hset', if_pos (Bool.true_or _)] at houtsText
  obtain ⟨lines, hlines, houtsText⟩ := exists_of_bind_ok (x := variableLines _ _ _ _) houtsText
  cases houtsText
  -- The entry point, with the statement among the others.
  obtain ⟨main, hmainText, hmainPart⟩ := hfunctions _ hmain ⟨true, rfl⟩
  change entryPoint sc _ = .ok main at hmainText
  rw [entryPoint_function hd hstage] at hmainText
  obtain ⟨stmts, hstmts, hmainText⟩ := exists_of_bind_ok hmainText
  obtain ⟨line, hline, first, last, hsplit⟩ := exists_infix_of_mapM hstmts hset
  obtain ⟨value, hvalue, rfl⟩ := statement_setting hd howner hsection hline
  cases hmainText
  have hsame : sc.Same ⟨sc.dialect, { vertex := items.node .vertexSection }, .text "vertex"⟩ :=
    ⟨rfl, hstage, howner⟩
  refine ⟨text, lines, first, value, last, htext, hlines, houtsPart.trans hpart, ?_, ?_⟩
  · rw [← expression_congr hsame]
    exact hvalue
  · have hparts : Text.cat [sc.dialect.entryOpening .vertex, first, "     ", positionWord items,
        " = ", value, ";\n", last, "    return output;\n", r"}", "\n"]
        = Text.cat
          [sc.dialect.entryOpening .vertex, stmts, "    return output;\n", r"}", "\n"] := by
      rw [← hsplit]
      simp [Text.cat]
    rw [hparts]
    exact hmainPart.trans hpart

/-- The position of a vertex does not reach the output of the stage.  What opens with
`gl_Position =` is read as an operation.  In a parsed shader whose vertex stage has an output, HLSL
and Metal have such a statement of the entry point in its place and under its own name, and the
structure of the outputs has a line for each declared output and no other. -/
theorem position_keeps_its_name (d : Dialect) :
    (∀ (c c' : Cursor) (s : Tree) (body : Parser (List Tree)),
      c.current = ⟨.identifier, some "gl_Position"⟩ →
      (c.advance .comments).current = ⟨.equals, some "="⟩ → statementWith body c = .ok s c' →
        ∃ e, s = setting e) ∧
    ∀ (source : Text) (t : Tree) (items : SectionItems) (vtype : Tree)
      (params body : List Tree) (e : Tree), d.hasStageStructs →
      Language.crossGl.parse source = .ok t →
      t.get .vertexSection = .ok (items.node .vertexSection) → items.outputs ≠ [] →
      Tree.function vtype (.text "main") params body ∈ items.functions → setting e ∈ body →
        ∃ (text : Text) (lines : List Text) (first value last : Text),
          (Route.forward d).generate t = .ok text ∧
          variableLines d .vertexOutput 0 items.outputs = .ok lines ∧
          d.channelText .vertexOutput (Text.cat lines) <:+: text ∧
          Forward.expression ⟨d, { vertex := items.node .vertexSection }, .text "vertex"⟩ e
            = .ok value ∧
          Text.cat [d.entryOpening .vertex, first, "     ", positionWord items, " = ", value, ";\n",
            last, "    return output;\n", r"}", "\n"] <:+: text := by
  constructor
  · intro c c' s body hname hop hrun
    exact reads_setting hname hop hrun
  · intro source t items vtype params body e hd hparse hvertex houts hmain hset
    exact exists_text_of_setting hd hparse hvertex houts hmain hset

/-- The one output of the shader is written to the position. -/
theorem position_keeps_its_name_output :
    Language.crossGl.parse positionSource = .ok positionTree ∧
      ∃ (text : Text) (lines : List Text) (first value last : Text),
        (Route.forward .metal).generate positionTree = .ok text ∧
        variableLines .metal .vertexOutput 0 positionItems.outputs = .ok lines ∧
        Dialect.metal.channelText .vertexOutput (Text.cat lines) <:+: text ∧
        Forward.expression ⟨.metal, { vertex := positionItems.node .vertexSection }, .text "vertex"⟩
          (Tree.var (.text []) (.text "c")) = .ok value ∧
        Text.cat [Dialect.metal.entryOpening .vertex, first, "     ", positionWord positionItems,
          " = ", value, ";\n", last, "    return output;\n", r"}", "\n"] <:+: text := by
  refine ⟨parse_positionSource, ?_⟩
  exact (position_keeps_its_name .metal).2 positionSource positionTree positionItems _ _ _ _ rfl
    parse_positionSource rfl (by simp [positionItems]) List.mem_cons_self List.mem_cons_self

/-- In HLSL the position is neither declared nor an output that is assigned. -/
theorem position_lost :
    (Route.forward .hlsl).convert positionSource = .ok (Text.cat [
      "\n", r"struct VSOutput {", "\n    float4 c : TEXCOORD0;\n", r"};", "\n\n\n",
      r"VSOutput VSMain(VSInput input) {", "\n    VSOutput output;\n",
      "     gl_Position =  output.c;\n", "    return output;\n", r"}", "\n\n"]) := by
  let sc : Scope := ⟨.hlsl, { vertex := positionItems.node .vertexSection }, .text "vertex"⟩
  let main := Tree.function (.text "void") (.text "main") []
    [setting (Tree.var (.text []) (.text "c"))]
  have hline : statement sc 1 (setting (Tree.var (.text []) (.text "c")))
      = .ok "     gl_Position =  output.c;\n" := by
    rw [setting, statement_binary, expression_binary, expression_var, expression_var,
      expression_text, expression_text]
    rfl
  have hmain : entryPoint sc main = .ok (Text.cat [
      r"VSOutput VSMain(VSInput input) {", "\n    VSOutput output;\n",
      "     gl_Position =  output.c;\n", "    return output;\n", r"}", "\n"]) := by
    have hstage : sc.stage = .text Stage.vertex.label := rfl
    rw [entryPoint_function rfl hstage, List.mapM_cons, hline]
    rfl
  -- Kept abstract, so that the section is not unfolded with it.
  generalize hx : Text.cat [r"VSOutput VSMain(VSInput input) {", "\n    VSOutput output;\n",
      "     gl_Position =  output.c;\n", "    return output;\n", r"}", "\n"] = x at hmain
  have hentries : entryPoints sc (.list [main]) = .ok (x ++ ("\n" : Text)) := by
    show (List.mapM
      (fun f => do if ← isEntry f then return (← entryPoint sc f) ++ "\n" else return [])
      [main] >>= fun texts => pure (Text.cat texts)) = _
    rw [List.mapM_cons, hmain]
    show Except.ok ((x ++ ("\n" : Text)) ++ []) = _
    rw [List.append_nil]
  have hsection : stageWritten sc .vertex .vertexSection (positionItems.node .vertexSection)
      = .ok (Text.cat [r"struct VSOutput {", "\n    float4 c : TEXCOORD0;\n", r"};", "\n\n\n",
        x ++ ("\n" : Text)]) := by
    show (entryPoints sc (.list [main]) >>= _) = _
    rw [hentries]
    rfl
  obtain ⟨text, htext, hwritten, -⟩ := exists_text_of_parse parse_positionSource .hlsl
  change (stageWritten sc .vertex .vertexSection (positionItems.node .vertexSection) >>= _) = _
    at hwritten
  rw [hsection, ← hx] at hwritten
  have hconvert : (Route.forward .hlsl).convert positionSource
      = (Route.forward .hlsl).generate positionTree := by
    rw [Route.convert, show (Route.forward .hlsl).language.parse positionSource = .ok positionTree
      from parse_positionSource]
    rfl
  rw [hconvert, htext, ← hwritten]
  rfl

end ShaderBridge
