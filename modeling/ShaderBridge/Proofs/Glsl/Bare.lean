import ShaderBridge.Proofs.Making

/-!
# The texts of GLSL trees

Every text in a tree that the grammar of GLSL builds is without brackets (`makes_source`).  Each
function of the grammar keeps this of the trees that it puts together, so it is shown function by
function, in the order of the grammar.
-/

namespace ShaderBridge.Glsl

open ShaderBridge.Parser Ladder
open ShaderBridge.Tree (Every IsBare)
open Text (Bare)

/-- No tree of the list has a text with brackets. -/
abbrev AllBare (ts : List Tree) : Prop := ∀ t ∈ ts, Every IsBare t

/-! ## §1 Expressions -/

theorem bare_var {vtype name : Tree} (hv : BareText vtype) (hn : BareText name) :
    Every IsBare (Tree.var vtype name) :=
  builds_isBare.var (builds_isBare.ofText hv) (builds_isBare.ofText hn)

theorem bare_use {name : Tree} (h : BareText name) : Every IsBare (use name) :=
  bare_var (bareText_text (by decide)) h

theorem ladderClosed_bare : LadderClosed (Every IsBare) where
  binary hl ho hr := builds_isBare.binary hl (builds_isBare.ofText ho) hr
  unary ho h := builds_isBare.unary (builds_isBare.ofText ho) h
  ternary := builds_isBare.ternary
  memberOf h hs := builds_isBare.memberOf h (builds_isBare.literal hs)

section Expressions

variable {expr : Parser Tree}

theorem makes_nameOrCallWith (h : Makes expr (Every IsBare)) :
    Makes (nameOrCallWith expr) (Every IsBare) := by
  refine DrawsAt.cond (P := BareText) (MakesAt.takeTextOf (by decide))
    (MakesAt.expectText (by decide)) fun name hname => ?_
  apply DrawsAt.kind
  intro k _
  refine DrawsAt.here ?_
  have hword := builds_isBare.ofText hname
  split
  · refine (DrawsAt.strictArguments h).bind_pure fun _ hargs => ?_
    exact builds_isBare.call hword hargs
  · exact ladderClosed_bare.memberChain hword
  · exact .pure (bare_use hname)

theorem makes_operandWith (h : Makes expr (Every IsBare)) :
    Makes (operandWith expr) (Every IsBare) := by
  apply DrawsAt.kind
  intro k _
  split
  · exact (makes_nameOrCallWith h).here
  split
  · next hk => exact (MakesAt.takeTextAt hk (by decide)).mono fun _ => builds_isBare.ofText
  split
  · exact (DrawsAt.parenthesized h).here
  · exact .reject

theorem makes_primaryWith (h : Makes expr (Every IsBare)) :
    Makes (primaryWith expr) (Every IsBare) := by
  apply (DrawsAt.many looks_isAt DrawsAt.take).seq
  intro signs
  refine (makes_operandWith h).bind_pure fun e he => ?_
  induction signs with
  | nil => exact he
  | cons _ signs ih => exact builds_isBare.unary (builds_isBare.literal (by decide)) ih

theorem makes_expression : Makes expression (Every IsBare) := by
  refine .nested rfl fun _ ih => ?_
  have hsum : Makes (sum tv .byLabel (primaryWith _)) (Every IsBare) :=
    ladderClosed_bare.sum (makes_primaryWith ih)
  refine (ladderClosed_bare.rung (by decide) hsum).bind fun _ hcondition => ?_
  exact ladderClosed_bare.choice ih hcondition

end Expressions

/-! ## §2 Types and declarations -/

theorem makes_typeName : Makes typeName BareText := by
  apply DrawsAt.kind
  intro k _
  split
  · apply DrawsAt.take.seq
    intro _
    exact .pure (bareText_text (by decide))
  split
  · next hk => exact MakesAt.takeTextIn hk (by decide)
  · exact .reject

theorem makes_typedName : Makes typedName fun v => BareText v.1 ∧ BareText v.2 := by
  apply makes_typeName.bind
  intro _ hv
  refine (MakesAt.expectText (by decide)).bind fun _ hn => ?_
  apply DrawsAt.expect.seq
  intro _
  exact .pure ⟨hv, hn⟩

theorem bare_pair {vtype name : Tree} (hv : BareText vtype) (hn : BareText name) :
    Every IsBare (.tuple [vtype, name]) :=
  builds_isBare.pair (builds_isBare.ofText hv) (builds_isBare.ofText hn)

theorem makes_declarations {word : TokenKind} {build : Tree → Tree → Tree}
    (h : ∀ vtype name, BareText vtype → BareText name → Every IsBare (build vtype name)) :
    Makes (declarations word build) AllBare :=
  .many looks_isAt (DrawsAt.take.seq fun _ => makes_typedName.bind_pure fun v hv =>
    h v.1 v.2 hv.1 hv.2)

theorem makes_parameters : Makes parameters AllBare := by
  have hparameter : Makes parameter (Every IsBare) :=
    makes_typeName.bind fun _ hv => (MakesAt.expectText (by decide)).bind_pure fun _ hn =>
      bare_pair hv hn
  exact DrawsAt.isAt (.pure nofun) (.sepBy hparameter)

theorem makes_version : Makes version (Every IsBare) := by
  refine DrawsAt.check (w := .expected "VERSION directive") (DrawsAt.take.seq fun _ => ?_)
  refine DrawsAt.check (w := .expected "NUMBER after VERSION") ?_
  refine (MakesAt.takeTextOf (by decide)).bind fun number hnumber => ?_
  refine DrawsAt.cond (P := BareText) (MakesAt.takeTextOf (by decide)) (.pure bareText_absent)
    fun profile hprofile => ?_
  refine .pure (bare_node ?_)
  simp [builds_isBare.ofText hnumber, builds_isBare.ofText hprofile]

theorem makes_layout {sectionName : Tree} (h : BareText sectionName) :
    Makes (layout sectionName) (Every IsBare) := by
  apply DrawsAt.expectAll.seq
  intro _
  apply DrawsAt.look.seq
  intro t
  split
  · exact (DrawsAt.reject (P := fun _ => False)).bind nofun
  apply DrawsAt.expectAll.seq
  intro _
  refine (MakesAt.expectText (by decide)).bind fun location hloc => ?_
  -- Inputs and outputs differ in one word of the node.
  have hrest : ∀ direction : Text, Bare direction → Makes (do
      let _ ← take tv
      let v ← typedName
      return Tree.node .layout
        [(.sectionName, sectionName), (.locationNumber, location), (.dtype, v.1), (.name, v.2),
         (.ioType, .text direction)]) (Every IsBare) := by
    intro direction hdirection
    apply DrawsAt.take.seq
    intro _
    refine makes_typedName.bind_pure fun v hv => ?_
    refine bare_node ?_
    simp [builds_isBare.ofText h, builds_isBare.ofText hloc, builds_isBare.ofText hv.1,
      builds_isBare.ofText hv.2, builds_isBare.literal hdirection]
  apply DrawsAt.expect.seq
  intro _
  apply DrawsAt.kind
  intro k _
  refine DrawsAt.here ?_
  split
  · exact hrest _ (by decide)
  · exact hrest _ (by decide)
  · exact (DrawsAt.reject (P := fun _ => False)).bind nofun

/-! ## §3 Plain statements -/

theorem makes_dotted {a b : Tree} (ha : BareText a) (hb : BareText b) :
    Makes (dotted a b) BareText := by
  unfold dotted
  split
  · exact .pure (bareText_text (ha.bare.append (.append (s := ['.']) (by decide) hb.bare)))
  · exact .throw

theorem makes_assignmentEnd (wanted : Text) : Makes (assignmentEnd wanted) fun _ => True :=
  DrawsAt.check (w := .expectedHere wanted) (DrawsAt.take.seq fun _ => .pure trivial)

theorem makes_declaration {vtype : Tree} (hv : BareText vtype) :
    Makes (declaration vtype) (Every IsBare) := by
  refine (MakesAt.expectText (by decide)).bind fun first hfirst => ?_
  -- The loop keeps the name a text as it adds members.
  refine (DrawsAt.loop (P := BareText) looks_isAt (fun name hname => ?_) hfirst).bind
    fun name hname => DrawsAt.kind fun k _ => ?_
  · apply DrawsAt.take.seq
    intro _
    refine (MakesAt.expectText (by decide)).bind fun _ hm => ?_
    exact makes_dotted hname hm
  have hvar := bare_var hv hname
  split
  · apply DrawsAt.take.seq
    intro _
    exact .pure hvar
  split
  · apply DrawsAt.take.seq
    intro _
    apply makes_expression.bind
    intro _ hvalue
    apply (makes_assignmentEnd _).seq
    intro _
    exact .pure (builds_isBare.assignment hvar hvalue)
  split
  · next hk =>
    have hmem : k ∈ changeOperators.map (·.1) := by
      obtain ⟨op, hop⟩ := Option.isSome_iff_exists.1 hk
      obtain ⟨_, _, hops, -⟩ := List.lookup_eq_some_iff.1 hop
      simp [hops]
    refine (MakesAt.takeTextIn hmem (by decide)).bind fun op hop => ?_
    apply makes_expression.bind
    intro _ hvalue
    apply (makes_assignmentEnd _).seq
    intro _
    exact .pure (ladderClosed_bare.binary hvar hop hvalue)
  · exact .reject

theorem makes_plainStatement : Makes plainStatement (Every IsBare) := by
  refine DrawsAt.cond (P := BareText) (MakesAt.takeTextOf (by decide))
    (.pure (bareText_text (by decide))) fun _ hv => ?_
  exact makes_declaration hv

theorem makes_stepBefore {op : Text} (hop : Bare op) (wanted : Text) :
    Makes (stepBefore op wanted) (Every IsBare) := by
  apply DrawsAt.take.seq
  intro _
  refine DrawsAt.check (w := .expected wanted) ?_
  refine (MakesAt.takeTextOf (by decide)).bind_pure fun _ hname => ?_
  exact builds_isBare.unary (builds_isBare.literal hop) (bare_use hname)

/-- The update of a loop is bare, whatever its form. -/
theorem makes_update : Makes update (Every IsBare) := by
  apply DrawsAt.kind
  intro k _
  split
  -- A name with a step behind it, an assignment or a change.
  · refine (MakesAt.takeTextAt rfl (by decide)).bind fun name hname => ?_
    have hword := builds_isBare.ofText hname
    apply DrawsAt.kind
    intro k _
    refine DrawsAt.here ?_
    split
    · next hk =>
      have hlabel : Bare k.label := by
        simp only [List.mem_cons, List.not_mem_nil, or_false] at hk
        rcases hk with rfl | rfl <;> decide
      apply DrawsAt.take.seq
      intro _
      exact .pure (builds_isBare.unary (builds_isBare.literal hlabel) (bare_use hname))
    split
    · apply DrawsAt.take.seq
      intro _
      refine makes_expression.bind_pure fun _ hvalue => ?_
      exact builds_isBare.assignment hword hvalue
    split
    · next op hop =>
      have hbare : ∀ p ∈ changeOperators, Bare p.2 := by decide
      obtain ⟨_, _, hops, -⟩ := List.lookup_eq_some_iff.1 hop
      have hop : Bare op := hbare (k, op) (by simp [hops])
      apply DrawsAt.take.seq
      intro _
      refine makes_expression.bind_pure fun _ hvalue => ?_
      exact builds_isBare.assignment hword
        (ladderClosed_bare.binary (bare_use hname) (bareText_text hop) hvalue)
    · exact .pure builds_isBare.nothing
  · exact (makes_stepBefore (by decide) _).here
  · exact (makes_stepBefore (by decide) _).here
  · exact .reject

theorem makes_returnStatement : Makes returnStatement (Every IsBare) := by
  apply DrawsAt.expect.seq
  intro _
  apply makes_expression.bind
  intro _ hvalue
  apply DrawsAt.expect.seq
  intro _
  exact .pure (builds_isBare.returned hvalue)

/-! ## §4 Compound statements -/

section Statements

variable {body : Parser (List Tree)} (h : Makes body AllBare)

include h

theorem makes_braced : Makes (braced body) AllBare := by
  apply DrawsAt.expect.seq
  intro _
  apply h.bind
  intro _ hss
  apply DrawsAt.expect.seq
  intro _
  exact .pure hss

theorem makes_alternativesWith :
    Makes (alternativesWith body) fun r => AllBare r.1 ∧ Every IsBare r.2 := by
  have harm : Makes (do
      let _ ← take tv
      let condition ← parenthesized tv expression
      let stmts ← braced body
      return Tree.tuple [condition, .list stmts]) (Every IsBare) :=
    DrawsAt.take.seq fun _ => (DrawsAt.parenthesized makes_expression).bind fun _ hc =>
      (makes_braced h).bind_pure fun _ hss => builds_isBare.pair hc (builds_isBare.ofList hss)
  apply (DrawsAt.many looks_isAt harm.here).bind
  intro chain hchain
  refine DrawsAt.isAt ?_ (.pure ⟨hchain, builds_isBare.nothing⟩)
  apply DrawsAt.take.seq
  intro _
  apply (makes_braced h).bind
  intro _ hss
  exact .pure ⟨hchain, builds_isBare.ofList hss⟩

theorem makes_branchWith : Makes (branchWith body) (Every IsBare) := by
  apply DrawsAt.expect.seq
  intro _
  apply (DrawsAt.parenthesized makes_expression).bind
  intro _ hc
  apply (makes_braced h).bind
  intro _ hstmts
  refine (makes_alternativesWith h).bind_pure fun r hr => ?_
  exact bare_node (by simp [hc, builds_isBare.ofList hstmts, builds_isBare.ofList hr.1, hr.2])

theorem makes_forWith : Makes (forWith body) (Every IsBare) := by
  apply DrawsAt.expectAll.seq
  intro _
  apply makes_plainStatement.bind
  intro _ hinit
  apply makes_expression.bind
  intro _ hcondition
  apply DrawsAt.expect.seq
  intro _
  apply makes_update.bind
  intro _ hstep
  apply DrawsAt.expect.seq
  intro _
  refine (makes_braced h).bind_pure fun _ hss => ?_
  refine bare_node ?_
  simp [hinit, hcondition, hstep, builds_isBare.ofList hss]

theorem makes_statementWith : Makes (statementWith body) (Every IsBare) := by
  apply DrawsAt.kind
  intro k _
  refine DrawsAt.here ?_
  split
  · exact makes_branchWith h
  split
  · exact makes_forWith h
  split
  · exact makes_returnStatement
  split
  · exact makes_plainStatement
  · exact .reject

end Statements

theorem makes_body : Makes body AllBare := by
  refine .nested rfl fun _ ih => ?_
  exact .many looks_isNotAt (makes_statementWith ih).here

theorem makes_function : Makes function (Every IsBare) := by
  apply makes_typeName.bind
  intro vtype hv
  refine DrawsAt.check (w := .expected "MAIN or IDENTIFIER") ?_
  refine (MakesAt.takeTextOf (by decide)).bind fun name hname => ?_
  apply DrawsAt.expect.seq
  intro _
  apply makes_parameters.bind
  intro params hparams
  apply DrawsAt.expect.seq
  intro _
  refine (makes_braced makes_body).bind_pure fun _ hstmts => ?_
  exact builds_isBare.function (builds_isBare.ofText hv) (builds_isBare.ofText hname) hparams hstmts

/-! ## §5 Shaders -/

/-- No text in what belongs to a stage has a bracket. -/
structure StageItems.IsBare (s : StageItems) : Prop where
  inputs : AllBare s.inputs
  outputs : AllBare s.outputs
  functions : AllBare s.functions
  layouts : AllBare s.layouts

/-- No text in what has been read of a shader has a bracket. -/
structure ShaderItems.IsBare (s : ShaderItems) : Prop where
  shared : s.shared.IsBare
  vertex : s.vertex.IsBare
  fragment : s.fragment.IsBare
  uniforms : AllBare s.uniforms

theorem StageItems.IsBare.append {a b : StageItems} (ha : a.IsBare) (hb : b.IsBare) :
    (a.append b).IsBare where
  inputs := List.forall_mem_append.2 ⟨ha.inputs, hb.inputs⟩
  outputs := List.forall_mem_append.2 ⟨ha.outputs, hb.outputs⟩
  functions := List.forall_mem_append.2 ⟨ha.functions, hb.functions⟩
  layouts := List.forall_mem_append.2 ⟨ha.layouts, hb.layouts⟩

theorem StageItems.IsBare.node {s : StageItems} (h : s.IsBare) (k : NodeKind) :
    Every Tree.IsBare (s.node k) := by
  have hempty : Every Tree.IsBare (.list []) := builds_isBare.ofList nofun
  refine bare_node ?_
  simp [builds_isBare.ofList h.inputs, builds_isBare.ofList h.outputs,
    builds_isBare.ofList h.functions, builds_isBare.ofList h.layouts, hempty]

theorem ShaderItems.IsBare.add {s : ShaderItems} (hs : s.IsBare) {new : StageItems}
    (hnew : new.IsBare) : (s.add new).IsBare := by
  unfold ShaderItems.add
  split
  · exact { hs with shared := hs.shared.append hnew }
  · exact { hs with vertex := hs.vertex.append hnew }
  · exact { hs with fragment := hs.fragment.append hnew }

theorem makes_stageComment {s : ShaderItems} (h : s.IsBare) :
    Makes (stageComment s) ShaderItems.IsBare := by
  refine DrawsAt.isAt (DrawsAt.look.seq fun t => ?_) (.pure h)
  split
  · exact .throw
  · apply DrawsAt.take.seq
    intro _
    exact .pure { h with }

/-- An item keeps the items bare. -/
theorem makes_shaderItem {s : ShaderItems} (h : s.IsBare) :
    Makes (shaderItem s) ShaderItems.IsBare := by
  apply (makes_stageComment h).bind
  intro s hs
  apply DrawsAt.kind
  intro k _
  refine DrawsAt.here ?_
  -- The stage is one of two words, or is not known yet.
  have hstage : BareText (Tree.ofText? (s.stage.map (·.capitals))) := by
    cases s.stage with
    | none => exact bareText_absent
    | some stage => cases stage <;> exact bareText_text (by decide)
  have huniform : ∀ vtype name, BareText vtype → BareText name →
      Every IsBare (Tree.uniform vtype name) := fun vtype name hv hn =>
    bare_node (by simp [builds_isBare.ofText hv, builds_isBare.ofText hn])
  split
  · refine (makes_layout hstage).bind_pure fun t ht => ?_
    exact hs.add ⟨nofun, nofun, nofun, List.forall_mem_singleton.2 ht⟩
  split
  · refine (makes_declarations fun _ _ => bare_pair).bind_pure fun _ hts => ?_
    exact hs.add ⟨hts, nofun, nofun, nofun⟩
  split
  · refine (makes_declarations fun _ _ => bare_pair).bind_pure fun _ hts => ?_
    exact hs.add ⟨nofun, hts, nofun, nofun⟩
  split
  · refine (makes_declarations huniform).bind_pure fun ts hts => ?_
    exact { hs with uniforms := List.forall_mem_append.2 ⟨hs.uniforms, hts⟩ }
  split
  · apply makes_version.seq
    intro _
    exact .pure hs
  split
  · split
    · exact (DrawsAt.reject (P := fun _ => False)).bind nofun
    · refine makes_function.bind_pure fun f hf => ?_
      exact hs.add ⟨nofun, nofun, List.forall_mem_singleton.2 hf, nofun⟩
  split
  · split
    · exact (DrawsAt.reject (P := fun _ => False)).bind nofun
    · exact DrawsAt.take.seq fun _ => .throw
  · exact .reject

/-- No text in the tree of a source has a bracket. -/
theorem makes_source : Makes source (Every IsBare) := by
  have hnone : StageItems.IsBare {} := ⟨nofun, nofun, nofun, nofun⟩
  have hempty : ShaderItems.IsBare {} := ⟨hnone, hnone, hnone, nofun⟩
  have hnil : Every Tree.IsBare (.list []) := builds_isBare.ofList nofun
  apply DrawsAt.skipTrivia.seq
  intro _
  apply makes_version.bind
  intro version hversion
  refine (DrawsAt.loop looks_isNotAt (fun _ h => (makes_shaderItem h).here) hempty).bind_pure
    fun s hs => ?_
  refine bare_node ?_
  simp [hversion, builds_isBare.ofList hs.shared.inputs, builds_isBare.ofList hs.shared.outputs,
    builds_isBare.ofList hs.uniforms, hs.vertex.node, hs.fragment.node, hnil]

end ShaderBridge.Glsl
