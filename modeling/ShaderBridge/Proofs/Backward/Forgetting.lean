import ShaderBridge.Proofs.Totality

/-!
# What the converters of HLSL and Metal forget

Two things that a function says are not in its CrossGL text.  A Metal assignment is written with an
equals sign, whatever its operator is: the text is that of the function in which every assignment is
an operation with this sign (`assignments_written_with_equals`).  And the entry point of a stage
returns nothing: its text is that of the function without any of its returns, wherever they stand
and whatever they return (`entry_point_drops_returns`).

Both are instances of one fact.  Let nodes of some kinds be rebuilt so that expressions and returns
keep their texts; then so does every statement, by induction on its form (`Faithful.statement`).
-/

namespace ShaderBridge

/-! ## §1 Rebuilding trees -/

namespace Tree

mutual

/-- The tree with its nodes rebuilt from the innermost outwards. -/
def rebuild (g : NodeKind → List (Field × Tree) → Tree) : Tree → Tree
  | .list ts => .list (rebuildAll g ts)
  | .tuple ts => .tuple (rebuildAll g ts)
  | .node k fields => g k (rebuildFields g fields)
  | t => t

/-- The items of a list, rebuilt. -/
def rebuildAll (g : NodeKind → List (Field × Tree) → Tree) : List Tree → List Tree
  | [] => []
  | t :: ts => rebuild g t :: rebuildAll g ts

/-- The fields of a node, rebuilt. -/
def rebuildFields (g : NodeKind → List (Field × Tree) → Tree) :
    List (Field × Tree) → List (Field × Tree)
  | [] => []
  | (f, t) :: fields => (f, rebuild g t) :: rebuildFields g fields

end

/-- A list with its items changed. -/
def mapItems (m : Tree → Tree) : Tree → Tree
  | .list ts => .list (ts.map m)
  | t => t

/-- The function with its statements changed. -/
def mapBody (m : Tree → Tree) : Tree → Tree
  | .node k fields =>
    .node k (fields.map fun p => (p.1, if p.1 = .body then p.2.mapItems m else p.2))
  | t => t

variable {g : NodeKind → List (Field × Tree) → Tree}

@[simp] theorem rebuildAll_eq_map (ts : List Tree) : rebuildAll g ts = ts.map (rebuild g) := by
  induction ts with
  | nil => rfl
  | cons t ts ih => rw [rebuildAll, ih, List.map_cons]

theorem rebuild_word {t : Tree} (h : Parser.BareText t) : rebuild g t = t := by
  obtain ⟨o, rfl, -⟩ := h
  cases o <;> rfl

/-- Of all fields only the body is changed. -/
theorem get_mapBody {m : Tree → Tree} {t u : Tree} {f : Field} (h : t.get f = .ok u) :
    (t.mapBody m).get f = .ok (if f = .body then u.mapItems m else u) := by
  -- The fields are searched in the order in which they were changed.
  have hlookup : ∀ fields, lookupField f (fields.map fun p =>
      (p.1, if p.1 = .body then p.2.mapItems m else p.2))
        = (lookupField f fields).map fun u => if f = .body then u.mapItems m else u := by
    intro fields
    induction fields with
    | nil => rfl
    | cons p fields ih =>
      rw [List.map_cons, lookupField, lookupField]
      split
      · next hf =>
        subst hf
        rfl
      · exact ih
  cases t with
  | node k fields =>
    rw [mapBody, get, hlookup]
    rw [get] at h
    cases hfound : lookupField f fields with
    | none =>
      rw [hfound] at h
      cases h
    | some v =>
      rw [hfound] at h
      cases h
      rfl
  | _ => cases h

end Tree

namespace Backward

open ShaderBridge.Tree CrossGl

variable {d : Dialect} {isMain : Bool} {g : NodeKind → List (Field × Tree) → Tree}

/-! ## §2 Texts that stay -/

/-- Rebuilding leaves loops and branches in place, and changes no text of an expression or a
return. -/
structure Faithful (d : Dialect) (isMain : Bool) (g : NodeKind → List (Field × Tree) → Tree) :
    Prop where
  forLoop : ∀ fields, g .forLoop fields = .node .forLoop fields
  branch : ∀ fields, g .branch fields = .node .branch fields
  expression : ∀ {t}, ExprShape d t → expression d isMain (rebuild g t) = expression d isMain t
  plain : ∀ {t}, ExprShape d t → ∀ level,
    statement d isMain level (rebuild g t) = statement d isMain level t
  returned : ∀ {value}, ExprShape d value → ∀ level,
    statement d isMain level (rebuild g (Tree.returned value))
      = statement d isMain level (Tree.returned value)

/-- A condition and its body, rebuilt. -/
def rebuildArm (g : NodeKind → List (Field × Tree) → Tree) (a : Tree × List Tree) :
    Tree × List Tree :=
  (rebuild g a.1, a.2.map (rebuild g))

/-- Helper: what is done to the items of two lists in step may be the same throughout. -/
theorem mapM_map_congr {α β γ : Type} {f : β → Except Fault γ} {m n : α → β} {xs : List α}
    (h : ∀ x ∈ xs, f (m x) = f (n x)) : (xs.map m).mapM f = (xs.map n).mapM f := by
  induction xs with
  | nil => rfl
  | cons x xs ih =>
    obtain ⟨hx, hxs⟩ := List.forall_mem_cons.1 h
    rw [List.map_cons, List.map_cons, List.mapM_cons, List.mapM_cons, hx, ih hxs]

theorem mapM_rebuild {α : Type} {f : Tree → Except Fault α} {ts : List Tree}
    (h : ∀ t ∈ ts, f (rebuild g t) = f t) : (ts.map (rebuild g)).mapM f = ts.mapM f := by
  rw [mapM_map_congr (n := id) h, List.map_id]

theorem body_rebuild {ss : List Tree} (h : ∀ s ∈ ss, ∀ level,
      statement d isMain level (rebuild g s) = statement d isMain level s) (level : Int) :
    body d isMain (.ok level) (.list (ss.map (rebuild g))) =
      body d isMain (.ok level) (.list ss) := by
  rw [body_list, body_list, mapM_rebuild]
  intro s hs
  rw [h s hs]

theorem chain_rebuild {arms : List (Tree × List Tree)} {level : Int} {lead : Text}
    (hc : ∀ a ∈ arms, expression .metal isMain (rebuild g a.1) = expression .metal isMain a.1)
    (hb : ∀ a ∈ arms, ∀ s ∈ a.2, ∀ level,
      statement .metal isMain level (rebuild g s) = statement .metal isMain level s) :
    chain .metal isMain (.ok level) lead (.list ((arms.map (rebuildArm g)).map guardTree))
      = chain .metal isMain (.ok level) lead (.list (arms.map guardTree)) := by
  rw [chain_list, chain_list, List.map_map, mapM_map_congr]
  intro a ha
  show guardedText .metal isMain level lead (guardTree (rebuildArm g a)) = _
  rw [guardTree, guardTree, guardedText_tuple, guardedText_tuple, rebuildArm, hc a ha,
    body_rebuild (hb a ha)]

namespace Faithful

variable (hg : Faithful d isMain g)

include hg

/-- The text of a statement stays, by induction on its form. -/
theorem statement {t : Tree} (h : StmtShape d t) (level : Int) :
    Backward.statement d isMain level (rebuild g t) = Backward.statement d isMain level t := by
  induction h generalizing level with
  | plain h => exact hg.plain h level
  | returned h => exact hg.returned h level
  | @forLoop d init condition update stmts hi hc hu _ ih =>
    -- In each case rebuilding reaches the parts, and the parts are written as before.
    have hrebuild : rebuild g (Tree.forLoop init condition update stmts) = Tree.forLoop
        (rebuild g init) (rebuild g condition) (rebuild g update) (stmts.map (rebuild g)) := by
      simp [Tree.forLoop, rebuild, rebuildFields, hg.forLoop]
    rw [hrebuild, statement_forLoop, statement_forLoop, hg.expression hi, hg.expression hc,
      hg.expression hu, body_rebuild fun s hs => ih s hs hg]
  | @branch condition stmts last hc _ _ ihb ihl =>
    have hrebuild : rebuild g (Tree.branch condition stmts (endingTree last)) = Tree.branch
        (rebuild g condition) (stmts.map (rebuild g))
        (endingTree (last.map (·.map (rebuild g)))) := by
      cases last <;> simp [Tree.branch, endingTree, rebuild, rebuildFields, hg.branch]
    have hlast : alternative isMain level (endingTree (last.map (·.map (rebuild g))))
        = alternative isMain level (endingTree last) := by
      rcases last with _ | _ | _
      · rfl
      · rfl
      · exact congrArg (· >>= _) (body_rebuild (fun s hs => ihl s hs hg) (level + 1))
    rw [hrebuild, Tree.branch, Tree.branch, statement_branch, statement_branch, ← Tree.branch,
      ← Tree.branch, branch_hlsl, branch_hlsl, hlast, armText, armText, hg.expression hc,
      body_rebuild fun s hs => ihb s hs hg]
  -- The next branch is a node of its own, so it is rebuilt as a statement.
  | @elseIf condition stmts fields hc _ _ ihb ihn =>
    have hrebuild : rebuild g (Tree.branch condition stmts (.node .branch fields)) = Tree.branch
        (rebuild g condition) (stmts.map (rebuild g)) (.node .branch (rebuildFields g fields)) := by
      simp [Tree.branch, rebuild, rebuildFields, hg.branch]
    have hlast : alternative isMain level (.node .branch (rebuildFields g fields))
        = alternative isMain level (.node .branch fields) := by
      have hinner := ihn hg level
      rw [rebuild, hg.branch, statement_branch, statement_branch] at hinner
      exact congrArg (· >>= _) hinner
    rw [hrebuild, Tree.branch, Tree.branch, statement_branch, statement_branch, ← Tree.branch,
      ← Tree.branch, branch_hlsl, branch_hlsl, hlast, armText, armText, hg.expression hc,
      body_rebuild fun s hs => ihb s hs hg]
  | @chains ifs elseIfs last hi _ he _ _ ihi ihe ihl =>
    have hrebuild : rebuild g (chainTree ifs elseIfs last) = chainTree (ifs.map (rebuildArm g))
        (elseIfs.map (rebuildArm g)) (last.map (·.map (rebuild g))) := by
      have harms : ∀ arms : List (Tree × List Tree), (arms.map guardTree).map (rebuild g)
          = (arms.map (rebuildArm g)).map guardTree := by
        intro arms
        rw [List.map_map, List.map_map]
        refine List.map_congr_left fun a _ => ?_
        simp [guardTree, rebuildArm, rebuild, rebuildAll]
      cases last <;> simp [chainTree, endingTree, rebuild, rebuildFields, hg.branch, harms]
    have hlast : chainEnd isMain level (endingTree (last.map (·.map (rebuild g))))
        = chainEnd isMain level (endingTree last) := by
      rcases last with _ | _ | _
      · rfl
      · rfl
      · exact congrArg (· >>= _) (body_rebuild (fun s hs => ihl s hs hg) (level + 1))
    rw [hrebuild, chainTree, chainTree, statement_branch, statement_branch, branch_metal,
      branch_metal,
      hlast, chain_rebuild (fun a ha => hg.expression (hi a ha)) fun a ha s hs => ihi a ha s hs hg,
      chain_rebuild (fun a ha => hg.expression (he a ha)) fun a ha s hs => ihe a ha s hs hg]

theorem body {ss : List Tree} (h : AreStmts d ss) (level : Int) :
    Backward.body d isMain (.ok level) (.list (ss.map (rebuild g)))
      = Backward.body d isMain (.ok level) (.list ss) :=
  body_rebuild (fun s hs => hg.statement (h s hs)) level

end Faithful

theorem function_mapBody (hg : Faithful d false g) {f : Tree} (h : IsFunction d f) :
    function d (f.mapBody (rebuild g)) = function d f := by
  obtain ⟨ps, hps, -⟩ := h.params
  obtain ⟨vtype, hvtype, -⟩ := h.returnType
  obtain ⟨name, hname, -⟩ := h.name
  obtain ⟨ss, hss, hstmts⟩ := h.body
  unfold function
  rw [get_mapBody hps, get_mapBody hvtype, get_mapBody hname, get_mapBody hss, hps, hvtype, hname,
    hss]
  show (ps.mapM _ >>= fun params => d.mapType vtype >>= fun vtype =>
    body d false (.ok 2) (.list (ss.map (rebuild g))) >>= _) = _
  rw [hg.body hstmts 2]
  rfl

theorem entryPoint_mapBody (hg : Faithful d true g) {f : Tree} (h : IsFunction d f) :
    entryPoint d (f.mapBody (rebuild g)) = entryPoint d f := by
  obtain ⟨ss, hss, hstmts⟩ := h.body
  unfold entryPoint
  rw [get_mapBody hss, hss]
  show (body d true (.ok 3) (.list (ss.map (rebuild g))) >>= _) = _
  rw [hg.body hstmts 3]
  rfl

/-! ## §3 Operators of assignments -/

/-- An assignment with an equals sign for its operator; other nodes as they are. -/
def withEquals (k : NodeKind) (fields : List (Field × Tree)) : Tree :=
  .node k (if k = .assignment then
    fields.map fun p => (p.1, if p.1 = .operator then .text "=" else p.2) else fields)

section Assignments

variable {t : Tree}

theorem isText_withEquals (h : ExprShape .metal t) (w : Text) :
    (rebuild withEquals t).isText w = t.isText w := by
  cases h with
  | word h => rw [rebuild_word h]
  | _ => rfl

/-- What an assignment sets is what it is without a look at operators. -/
theorem outputTarget_withEquals (h : ExprShape .metal t) :
    outputTarget .metal isMain (rebuild withEquals t) = outputTarget .metal isMain t := by
  cases h with
  | word h => rw [rebuild_word h]
  | @memberOf object s h hs =>
    have hrebuild : rebuild withEquals (Tree.memberOf object (.text s))
        = Tree.memberOf (rebuild withEquals object) (.text s) := rfl
    have hobject := isText_withEquals h "output"
    cases isMain with
    | false => rfl
    | true =>
      show (if (rebuild withEquals object).isText "output" then _ else _) = _
      rw [hobject]
      rfl
  | _ => cases isMain <;> rfl

/-- Within an expression the operator of an assignment is not written. -/
theorem expression_withEquals (h : ExprShape .metal t) :
    expression .metal isMain (rebuild withEquals t) = expression .metal isMain t := by
  induction h generalizing isMain with
  | word h => rw [rebuild_word h]
  | @var vtype name hv hn =>
    show expression .metal isMain
      (Metal.var (rebuild withEquals vtype) (rebuild withEquals name)) = _
    rw [rebuild_word hv, rebuild_word hn]
    rfl
  | @binary left op right _ ho _ ihl ihr =>
    show expression .metal isMain (Tree.binary (rebuild withEquals left) (rebuild withEquals op)
      (rebuild withEquals right)) = _
    rw [rebuild_word ho, expression_binary, expression_binary, ihl, ihr]
  | @unary op operand ho _ ih =>
    show expression .metal isMain
      (Tree.unary (rebuild withEquals op) (rebuild withEquals operand)) = _
    rw [rebuild_word ho, expression_unary, expression_unary, ih]
  | @ternary c yes no _ _ _ ihc ihy ihn =>
    show expression .metal isMain (Tree.ternary (rebuild withEquals c) (rebuild withEquals yes)
      (rebuild withEquals no)) = _
    rw [expression_ternary, expression_ternary, ihc, ihy, ihn]
  | @memberOf object s _ _ ih =>
    show expression .metal isMain (Tree.memberOf (rebuild withEquals object) (.text s)) = _
    rw [expression_memberOf, expression_memberOf, ih]
  | @call name args hn _ ih =>
    show expression .metal isMain
      (Tree.call (rebuild withEquals name) (rebuildAll withEquals args)) = _
    rw [rebuild_word hn, rebuildAll_eq_map, expression_call, expression_call,
      mapM_rebuild fun a ha => ih a ha]
  | @construction typeName args ht _ ih =>
    show expression .metal isMain
      (Tree.construction (rebuild withEquals typeName) (rebuildAll withEquals args)) = _
    rw [rebuild_word ht, rebuildAll_eq_map, expression_construction, expression_construction,
      mapM_rebuild fun a ha => ih a ha]
  -- The one node that changes: what it assigns to and what it assigns stay.
  | @assignment left right op hl _ _ ihl ihr =>
    show expression .metal isMain (Tree.assignmentBy (rebuild withEquals left)
      (rebuild withEquals right) (.text "=")) = _
    rw [expression_assignmentBy_metal, expression_assignmentBy_metal, assignment_assignmentBy,
      assignment_assignmentBy, ihl, ihr, outputTarget_withEquals hl]

/-- Metal writes the same text whatever the operator of an assignment. -/
theorem statement_withEquals (h : ExprShape .metal t) (level : Int) :
    statement .metal isMain level (rebuild withEquals t) = statement .metal isMain level t := by
  cases h with
  | word h => rw [rebuild_word h]
  | @var vtype name hv hn =>
    show statement .metal isMain level
      (Metal.var (rebuild withEquals vtype) (rebuild withEquals name)) = _
    rw [rebuild_word hv, rebuild_word hn]
    rfl
  | @binary left op right hl ho hr =>
    show statement .metal isMain level (Tree.binary (rebuild withEquals left)
      (rebuild withEquals op) (rebuild withEquals right)) = _
    rw [rebuild_word ho, statement_binary, statement_binary, expression_withEquals hl,
      expression_withEquals hr]
  | @assignment left right op hl hr _ =>
    show statement .metal isMain level (Tree.assignmentBy (rebuild withEquals left)
      (rebuild withEquals right) (.text "=")) = _
    rw [statement_assignmentBy, statement_assignmentBy, assignment_assignmentBy,
      assignment_assignmentBy, expression_withEquals hl, expression_withEquals hr,
      outputTarget_withEquals hl]
  -- Statements of any other form are not written at all.
  | _ => exact (statement_unwritten _ (by decide)).trans (statement_unwritten _ (by decide)).symm

theorem faithful_withEquals : Faithful .metal isMain withEquals where
  forLoop _ := rfl
  branch _ := rfl
  expression := expression_withEquals
  plain := statement_withEquals
  returned := by
    intro value h level
    show statement .metal isMain level (Tree.returned (rebuild withEquals value)) = _
    rw [statement_returned, statement_returned, expression_withEquals h]

end Assignments

theorem functions_of_parse {source : Text} {t : Tree} (h : d.language.parse source = .ok t) :
    ∃ fs, t.get .functions = .ok (.list fs) ∧ ∀ f ∈ fs, f.isNode .function → IsFunction d f := by
  obtain ⟨fs, hfs, hitems⟩ := (isShader_of_parse h).items
  refine ⟨fs, hfs, fun f hf hnode => ?_⟩
  rcases hitems f hf with hfunction | ⟨-, hother⟩
  · exact hfunction
  · rw [hother] at hnode
    cases hnode

/-- Operators of Metal assignments do not show.  Every function of a source that was parsed is
written, as a function and as an entry point, and so is the function in which every assignment has
an equals sign, wherever it stands: as a statement, within an expression or in the head of a loop.
The two have the same text. -/
theorem assignments_written_with_equals {source : Text} {t : Tree}
    (h : Language.metal.parse source = .ok t) :
    ∃ fs, t.get .functions = .ok (.list fs) ∧ ∀ f ∈ fs, f.isNode .function →
      (∃ text, function .metal f = .ok text ∧
        function .metal (f.mapBody (rebuild withEquals)) = .ok text) ∧
      ∃ text, entryPoint .metal f = .ok text ∧
        entryPoint .metal (f.mapBody (rebuild withEquals)) = .ok text := by
  obtain ⟨fs, hfs, hfunctions⟩ := functions_of_parse (d := .metal) h
  refine ⟨fs, hfs, fun f hf hnode => ?_⟩
  have hfunction := hfunctions f hf hnode
  obtain ⟨text, htext, -⟩ := hfunction.yields_function
  obtain ⟨main, hmain, -⟩ := hfunction.yields_entryPoint
  refine ⟨⟨text, htext, ?_⟩, main, hmain, ?_⟩
  · rw [function_mapBody faithful_withEquals hfunction, htext]
  · rw [entryPoint_mapBody faithful_withEquals hfunction, hmain]

/-- A loop that counts by adding to its variable. -/
def countingSource : Text :=
  Text.cat
    ["vertex void a() { for (int i = 0; i < 3; i += 1) { x -= i; } } ",
     "fragment void b() { }"]

theorem assignments_written_with_equals_counting :
    ∃ t fs, Language.metal.parse countingSource = .ok t ∧ t.get .functions = .ok (.list fs) ∧
      ∀ f ∈ fs, f.isNode .function →
        (∃ text, function .metal f = .ok text ∧
          function .metal (f.mapBody (rebuild withEquals)) = .ok text) ∧
        ∃ text, entryPoint .metal f = .ok text ∧
          entryPoint .metal (f.mapBody (rebuild withEquals)) = .ok text := by
  have hparse : Succeeds (Language.metal.parse countingSource) := by
    rw [countingSource, String.toList_ofList, String.toList_ofList]
    decide +kernel
  obtain ⟨t, ht⟩ := hparse
  obtain ⟨fs, hfs⟩ := assignments_written_with_equals ht
  exact ⟨t, fs, ht, hfs⟩

/-- The update of the loop is written as `i = 1`, so the loop no longer ends.  The assignment that
is a statement of its own is read as an operation and keeps its operator. -/
theorem compound_update_lost :
    (Route.backward .metal).convert countingSource = .ok (Text.cat
      [r"shader main {", "\n \n    // Vertex Shader\n", r"    vertex {", "\n\n",
       r"        void main() {", "\n", r"            for (short i = 0;  i < 3;  i = 1) {", "\n",
       "                 x -=  i;\n", r"            }", "\n", r"        }", "\n", r"    }", "\n\n",
       "    // Fragment Shader\n", r"    fragment {", "\n\n", r"        void main() {", "\n",
       r"        }", "\n", r"    }", "\n", r"}", "\n"]) := by
  rw [countingSource]
  repeat rw [String.toList_ofList]
  decide +kernel

/-! ## §4 Returns -/

/-- Nothing instead of a return; other nodes as they are. -/
def withoutReturn (k : NodeKind) (fields : List (Field × Tree)) : Tree :=
  if k = .returned then .absent else .node k fields

/-- An expression holds no return. -/
theorem rebuild_withoutReturn {t : Tree} (h : ExprShape d t) : rebuild withoutReturn t = t := by
  -- The arguments of a call are rebuilt one by one.
  have hall : ∀ {args : List Tree}, (∀ a ∈ args, rebuild withoutReturn a = a) →
      args.map (rebuild withoutReturn) = args :=
        fun h => (List.map_congr_left h).trans (List.map_id _)
  induction h with
  | word h => exact rebuild_word h
  | var hv hn =>
    cases d <;> simp [Dialect.varNode, Hlsl.var, Metal.var, semanticVar, attributedVar, rebuild,
      rebuildFields, withoutReturn, rebuild_word hv, rebuild_word hn]
  | binary _ ho _ ihl ihr =>
    simp [Tree.binary, rebuild, rebuildFields, withoutReturn, ihl, rebuild_word ho, ihr]
  | unary ho _ ih => simp [Tree.unary, rebuild, rebuildFields, withoutReturn, rebuild_word ho, ih]
  | ternary _ _ _ ihc ihy ihn =>
    simp [Tree.ternary, rebuild, rebuildFields, withoutReturn, ihc, ihy, ihn]
  | memberOf s _ _ ih => simp [Tree.memberOf, rebuild, rebuildFields, withoutReturn, ih]
  | call hn _ ih =>
    simp [Tree.call, rebuild, rebuildFields, withoutReturn, rebuild_word hn, hall ih]
  | construction ht _ ih =>
    simp [Tree.construction, rebuild, rebuildFields, withoutReturn, rebuild_word ht, hall ih]
  | assignment _ _ ho ihl ihr =>
    simp [Tree.assignmentBy, rebuild, rebuildFields, withoutReturn, ihl, ihr, rebuild_word ho]

theorem faithful_withoutReturn : Faithful d true withoutReturn where
  forLoop _ := rfl
  branch _ := rfl
  expression h := by rw [rebuild_withoutReturn h]
  plain h _ := by rw [rebuild_withoutReturn h]
  returned _ _ := by
    rw [statement_returned, if_pos rfl]
    exact statement_absent

/-- No return of an entry point is written.  The text of every function of a source that was parsed,
as an entry point, is that of the function in which nothing stands for each return, however deep it
is nested and whatever it returns. -/
theorem entry_point_drops_returns {source : Text} {t : Tree} (h : d.language.parse source = .ok t) :
    ∃ fs, t.get .functions = .ok (.list fs) ∧ ∀ f ∈ fs, f.isNode .function →
      ∃ text, entryPoint d f = .ok text ∧
        entryPoint d (f.mapBody (rebuild withoutReturn)) = .ok text := by
  obtain ⟨fs, hfs, hfunctions⟩ := functions_of_parse h
  refine ⟨fs, hfs, fun f hf hnode => ?_⟩
  have hfunction := hfunctions f hf hnode
  obtain ⟨text, htext, -⟩ := hfunction.yields_entryPoint
  refine ⟨text, htext, ?_⟩
  rw [entryPoint_mapBody faithful_withoutReturn hfunction, htext]

/-- An entry point that may return early. -/
def earlyReturn : Text :=
  "void VSMain() { if (a < b) { return c; } x = d; return e; } void PSMain() { }"

theorem entry_point_drops_returns_early :
    ∃ t fs, Language.hlsl.parse earlyReturn = .ok t ∧ t.get .functions = .ok (.list fs) ∧
      ∀ f ∈ fs, f.isNode .function → ∃ text, entryPoint .hlsl f = .ok text ∧
        entryPoint .hlsl (f.mapBody (rebuild withoutReturn)) = .ok text := by
  have hparse : Succeeds (Language.hlsl.parse earlyReturn) := by
    rw [show earlyReturn = _ from String.toList_ofList]
    decide +kernel
  obtain ⟨t, ht⟩ := hparse
  obtain ⟨fs, hfs⟩ := entry_point_drops_returns (d := .hlsl) ht
  exact ⟨t, fs, ht, hfs⟩

/-- The return within the branch is lost with the last one, so the assignment behind it always
runs. -/
theorem early_return_lost :
    (Route.backward .hlsl).convert earlyReturn = .ok (Text.cat
      [r"shader main {", "\n    // Vertex Shader\n", r"    vertex {", "\n\n",
       r"        void main() {", "\n",
       r"            if ( a <  b) {", "\n", r"                            }",
       "\n             x =  d;\n",
       r"                    }", "\n", r"    }", "\n\n    // Fragment Shader\n", r"    fragment {",
       "\n\n",
       r"        void main() {", "\n", r"        }", "\n", r"    }", "\n", r"}", "\n"]) := by
  rw [show earlyReturn = _ from String.toList_ofList]
  repeat rw [String.toList_ofList]
  decide +kernel

end Backward

end ShaderBridge
