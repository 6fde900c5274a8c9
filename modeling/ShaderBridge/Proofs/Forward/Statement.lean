import ShaderBridge.Forward.Statement
import ShaderBridge.Proofs.Forward.Expression

/-!
# Writing statements node by node

What `Forward.statement` writes for each kind of statement that the grammar builds, as an equation
between the node and its parts, and what is left of a statement in the header of a loop.
-/

namespace ShaderBridge

namespace Tree

/-- The items of a list paired up with other values, each without its bound. -/
theorem mapM_zip_parts_list {α β : Type} (f : α → Tree → Except Fault β) (as : List α)
    (ts : List Tree) :
    ((Tree.list ts).parts >>= fun ps => (as.zip ps).mapM fun p => f p.1 p.2.1)
      = (as.zip ts).mapM fun p => f p.1 p.2 := by
  have hparts : (Tree.list ts).parts
      = .ok (ts.attach.map fun x => ⟨x.1, sizeOf_items (t := .list ts) rfl x.2⟩) := rfl
  have hvals : (as.zip ts).mapM (fun p => f p.1 p.2)
      = (as.zip (ts.attach.map (·.1))).mapM fun p => f p.1 p.2 := by
    rw [List.attach_map_subtype_val]
  rw [hparts, hvals]
  show List.mapM _ (as.zip (ts.attach.map _)) = _
  rw [List.zip_map_right, List.mapM_map, List.zip_map_right, List.mapM_map]
  rfl

end Tree

namespace Forward

open Scope

variable (sc : Scope) (level : Int)

/-! ## §1 Statements -/

theorem statement_var (vtype name : Tree) :
    statement sc level (Tree.var vtype name) = do
      let vtype ← sc.dialect.mapType vtype
      return Text.cat [Text.indent level, plain vtype, " ", plain name, ";\n"] := by
  rw [Tree.var, statement]
  rfl

theorem statement_binary (left op right : Tree) :
    statement sc level (Tree.binary left op right) = do
      return Text.cat [Text.indent level, ← expression sc (Tree.binary left op right), ";\n"] := by
  rw [Tree.binary, statement] <;> simp

theorem statement_call (name : Tree) (args : List Tree) :
    statement sc level (Tree.call name args) = do
      return Text.cat [Text.indent level, ← expression sc (Tree.call name args), ";\n"] := by
  rw [Tree.call, statement] <;> simp

theorem statement_absent :
    statement sc level .absent = do
      return Text.cat [Text.indent level, ← expression sc .absent, ";\n"] := by
  rw [statement] <;> simp

theorem statement_returned (values : List Tree) :
    statement sc level (Tree.returned (.list values)) = do
      let texts ← values.mapM (expression sc)
      return Text.cat [Text.indent level, "return ", Text.join ", " texts, ";\n"] := by
  rw [Tree.returned, statement]
  rfl

theorem statement_forLoop (init condition update : Tree) (body : List Tree) :
    statement sc level (Tree.forLoop init condition update body) = do
      let first ← statement sc 0 init
      let guard ← statement sc 0 condition
      let step ← statement sc 0 update
      let stmts ← body.mapM (statement sc (level + 1))
      return Text.cat
        [Text.indent level, "for (", clause first, "; ", clause guard, "; ", clause step,
         r") {", "\n", Text.cat stmts, Text.indent level, r"}", "\n"] := by
  rw [Tree.forLoop, statement, forLoop]
  simp only [← Tree.mapM_parts_list, bind_assoc]
  rfl

/-- The text of a condition with its statements. -/
def armText (a : Tree × List Tree) : Except Fault Text := do
  let condition ← expression sc a.1
  let stmts ← a.2.mapM (statement sc (level + 1))
  return Text.cat ["(", condition, r") {", "\n", Text.cat stmts, Text.indent level, r"}"]

/-- The text of what stands behind the last condition. -/
def endingText (t : Tree) : Except Fault Text := do
  if t.isSet then
    let stmts ← (← t.parts).mapM fun ⟨s, _⟩ => statement sc (level + 1) s
    return Text.cat [r" else {", "\n", Text.cat stmts, Text.indent level, r"}"]
  else return []

theorem endingText_list (s : Tree) (more : List Tree) :
    endingText sc level (.list (s :: more)) = do
      let stmts ← (s :: more).mapM (statement sc (level + 1))
      return Text.cat [r" else {", "\n", Text.cat stmts, Text.indent level, r"}"] := by
  rw [← Tree.mapM_parts_list]
  rfl

/-- The tree of a branch. -/
def branchTree (first : Tree × List Tree) (others : List (Tree × List Tree)) (last : Tree) : Tree :=
  .node .branch
    [(.ifCondition, first.1), (.ifBody, .list first.2),
     (.elseIfConditions, .list (others.map (·.1))),
     (.elseIfBodies, .list (others.map fun a => .list a.2)), (.elseBody, last)]

/-- The text of a further condition with its statements. -/
def alternativeText (condition body : Tree) : Except Fault Text := do
  let c ← expression sc condition
  let stmts ← (← body.parts).mapM fun ⟨s, _⟩ => statement sc (level + 1) s
  return Text.cat [" else if (", c, r") {", "\n", Text.cat stmts, Text.indent level, r"}"]

theorem alternativeText_list (a : Tree × List Tree) :
    alternativeText sc level a.1 (.list a.2) = do
      return " else if " ++ (← armText sc level a) := by
  have hword : (" else if (" : Text) = " else if " ++ "(" := rfl
  rw [alternativeText, armText, ← Tree.mapM_parts_list, hword]
  simp [Text.cat]

/-- A branch is written arm by arm. -/
theorem statement_branch (first : Tree × List Tree) (others : List (Tree × List Tree))
    (last : Tree) :
    statement sc level (branchTree first others last) = do
      let arm ← armText sc level first
      let alternatives ← others.mapM fun a => do return " else if " ++ (← armText sc level a)
      let ending ← endingText sc level last
      return Text.cat
        [Text.indent level, "if ", arm, Text.cat alternatives, ending, "\n"] := by
  have hword : ("if (" : Text) = "if " ++ "(" := rfl
  -- Conditions and bodies are kept in two lists, which are paired again.
  have hothers := Tree.mapM_zip_parts_list (alternativeText sc level) (others.map (·.1))
    (others.map fun a => .list a.2)
  rw [List.zip_map', List.mapM_map] at hothers
  have hothers' : others.mapM (fun a => alternativeText sc level a.1 (.list a.2))
      = others.mapM fun a => do return " else if " ++ (← armText sc level a) := by
    simp only [alternativeText_list]
  rw [branchTree, statement, branch, ← hothers', hword]
  show (do
    let condition ← expression sc first.1
    let stmts ← (Tree.list first.2).parts >>= fun ps =>
      ps.mapM fun p => statement sc (level + 1) p.1
    let alternatives ← (Tree.list (others.map fun a => .list a.2)).parts >>= fun ps =>
      ((others.map (·.1)).zip ps).mapM fun p => alternativeText sc level p.1 p.2.1
    let ending ← if last.isSet then do
        let ps ← last.parts
        let stmts ← ps.mapM fun p => statement sc (level + 1) p.1
        pure (Text.cat [r" else {", "\n", Text.cat stmts, Text.indent level, r"}"])
      else pure []
    return Text.cat
      [Text.indent level, "if " ++ "(", condition, r") {", "\n", Text.cat stmts, Text.indent level,
       r"}", Text.cat alternatives, ending, "\n"] : Except Fault Text) = _
  rw [Tree.mapM_parts_list, hothers]
  simp only [armText, bind_assoc, pure_bind]
  refine bind_congr fun condition => bind_congr fun stmts => bind_congr fun alternatives => ?_
  rw [endingText]
  split <;> simp [Text.cat]

/-! ## §2 Functions -/

/-- The text of a parameter. -/
def paramText (p : Tree) : Except Fault Text := do
  let vtype ← sc.dialect.mapType (← p.item 0)
  let name ← p.item 1
  return Text.cat [plain vtype, " ", plain name]

theorem parameters_list (ps : List Tree) :
    parameters sc (.list ps) = do return Text.join ", " (← ps.mapM (paramText sc)) :=
  rfl

theorem plainFunction_function (vtype name : Tree) (params body : List Tree) :
    plainFunction sc (Tree.function vtype name params body) = do
      let params ← parameters sc (.list params)
      let vtype ← sc.dialect.mapType vtype
      let stmts ← body.mapM (statement sc 1)
      return Text.cat
        [plain vtype, " ", plain name, "(", params, r") {", "\n", Text.cat stmts, r"}", "\n"] := by
  show (do
    let params ← parameters sc (.list params)
    let vtype ← sc.dialect.mapType vtype
    let stmts ← (do return Text.cat (← body.mapM (statement sc 1)))
    return Text.cat
      [plain vtype, " ", plain name, "(", params, r") {", "\n", stmts, r"}", "\n"]
      : Except Fault Text) = _
  simp only [bind_assoc, pure_bind]

/-- A function of a stage that is no entry point is written under its own name. -/
theorem function_stage (d : Dialect) (sections : Sections) (stage : Stage) {t : Tree}
    (h : isEntry t = .ok false) :
    function ⟨d, sections, .text stage.label⟩ (.list [t])
      = plainFunction ⟨d, sections, .text stage.label⟩ t := by
  have hstage : (Stage.of? (.text stage.label)).isSome := by cases stage <;> rfl
  rw [function, if_pos hstage, helperFunctions]
  show ((List.mapM _ [t] : Except Fault (List Text)) >>= fun texts => pure (Text.cat texts)) = _
  rw [List.mapM_cons, h]
  cases plainFunction ⟨d, sections, .text stage.label⟩ t with
  | error e => rfl
  | ok text =>
    show Except.ok (Text.cat [text]) = Except.ok text
    simp [Text.cat]

end Forward

end ShaderBridge
