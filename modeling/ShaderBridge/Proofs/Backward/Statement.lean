import ShaderBridge.Backward.Shader
import ShaderBridge.Proofs.Backward.Expression

/-!
# Writing statements in CrossGL node by node

What `Backward.statement` writes for each kind of statement that the grammars build, as an equation
between the node and its parts.  The two dialects differ in branches only: HLSL nests them, Metal
lists them in chains.
-/

namespace ShaderBridge.Backward

variable (d : Dialect) (isMain : Bool) (level : Int)

/-! ## §1 Statements -/

/-- The text of a variable that is declared, unless it is the output structure of a stage. -/
def declared (vtype name : Tree) : Except Fault Text := do
  if d.outputStructs.any (vtype.isText ·) then return []
  else
    let mapped ← d.mapType vtype
    return Text.cat [plain d mapped, " ", plain d name, ";\n"]

theorem statement_semanticVar (vtype name semantic : Tree) :
    statement d isMain level (Tree.semanticVar vtype name semantic) = declared d vtype name := by
  rw [Tree.semanticVar, statement]
  rfl

theorem statement_attributedVar (vtype name : Tree) (attributes : List Tree) :
    statement d isMain level (Tree.attributedVar vtype name attributes)
      = declared d vtype name := by
  rw [Tree.attributedVar, statement]
  rfl

theorem statement_assignmentBy (left right operator : Tree) :
    statement d isMain level (Tree.assignmentBy left right operator) = do
      return (← assignment d isMain (Tree.assignmentBy left right operator)) ++ ";\n" := by
  rw [Tree.assignmentBy, statement]

theorem statement_binary (left op right : Tree) :
    statement d isMain level (Tree.binary left op right) = do
      let l ← expression d isMain left
      let r ← expression d isMain right
      return Text.cat [plain d l, " ", plain d op, " ", plain d r, ";\n"] := by
  rw [Tree.binary, statement]
  rfl

theorem statement_returned (value : Tree) :
    statement d isMain level (Tree.returned value) =
      if isMain then .ok []
      else do
        let v ← expression d isMain value
        return Text.cat ["return ", plain d v, ";\n"] := by
  rw [Tree.returned, statement]
  rfl

/-- Nodes of other kinds are no statements in CrossGL. -/
theorem statement_unwritten {d : Dialect} {isMain : Bool} {level : Int} {k : NodeKind}
    (fields : List (Field × Tree))
    (hk : k ∉ [.var, .assignment, .binary, .returned, .forLoop, .branch]) :
    statement d isMain level (.node k fields) = .ok [] := by
  rw [statement]
  all_goals
    rintro fields ⟨⟩
    simp at hk

theorem statement_absent {d : Dialect} {isMain : Bool} {level : Int} :
    statement d isMain level .absent = .ok [] := by
  rw [statement] <;> simp

theorem body_list (ts : List Tree) :
    body d isMain (.ok level) (.list ts) = do
      let texts ← ts.mapM fun s => do
        return Text.indent level ++ (← statement d isMain level s)
      return Text.cat texts := by
  rw [← Tree.mapM_parts_list, body, bind_assoc]
  rfl

theorem body_nil : body d isMain (.ok level) (.list []) = .ok [] := by
  rw [body_list]
  rfl

theorem body_cons (t : Tree) (ts : List Tree) :
    body d isMain (.ok level) (.list (t :: ts)) = do
      let text ← statement d isMain level t
      let rest ← body d isMain (.ok level) (.list ts)
      return Text.indent level ++ text ++ rest := by
  simp only [body_list, List.mapM_cons, bind_assoc, pure_bind]
  rfl

theorem statement_forLoop (init condition update : Tree) (stmts : List Tree) :
    statement d isMain level (Tree.forLoop init condition update stmts) = do
      let i ← expression d isMain init
      let c ← expression d isMain condition
      let u ← expression d isMain update
      let inner ← body d isMain (.ok (level + 1)) (.list stmts)
      return Text.cat
        ["for (", plain d i, "; ", plain d c, "; ", plain d u, r") {", "\n", inner,
         Text.indent level, r"}", "\n"] := by
  rw [Tree.forLoop, statement, forLoop]
  rfl

/-! ## §2 Branches -/

theorem statement_branch (fields : List (Field × Tree)) :
    statement d isMain level (.node .branch fields)
      = branch d isMain (.ok level) (.node .branch fields) := by
  rw [statement]

/-- What stands behind the block of a branch in HLSL. -/
def alternative (elseBody : Tree) : Except Fault Text :=
  if elseBody.isSet then
    if elseBody.isNode .branch then do
      return " else " ++ (← branch .hlsl isMain (.ok level) elseBody)
    else do
      let inner ← body .hlsl isMain (.ok (level + 1)) elseBody
      return Text.cat [r" else {", "\n", inner, Text.indent level, r"}"]
  else pure []

/-- A condition in parentheses with its block in braces, in HLSL. -/
def armText (condition : Tree) (stmts : List Tree) : Except Fault Text := do
  let c ← expression .hlsl isMain condition
  let inner ← body .hlsl isMain (.ok (level + 1)) (.list stmts)
  return Text.cat ["(", plain .hlsl c, r") {", "\n", inner, Text.indent level, r"}"]

/-- A branch in HLSL is its first arm and what stands behind it. -/
theorem branch_hlsl (condition : Tree) (ifBody : List Tree) (elseBody : Tree) :
    branch .hlsl isMain (.ok level) (Tree.branch condition ifBody elseBody) = do
      let arm ← armText isMain level condition ifBody
      let last ← alternative isMain level elseBody
      return Text.cat ["if ", arm, last, "\n"] := by
  have hword : ("if (" : Text) = "if " ++ "(" := rfl
  rw [branch]
  -- The definition with its fields looked up, which `rfl` sees.
  show (do
    let c ← expression .hlsl isMain condition
    let inner ← body .hlsl isMain (.ok (level + 1)) (.list ifBody)
    let last ←
      if elseBody.isSet then
        if elseBody.isNode .branch then do
          pure (" else " ++ (← branch .hlsl isMain (.ok level) elseBody))
        else do
          let inner ← body .hlsl isMain (.ok (level + 1)) elseBody
          pure (Text.cat [r" else {", "\n", inner, Text.indent level, r"}"])
      else pure []
    return Text.cat
      ["if (", plain .hlsl c, r") {", "\n", inner, Text.indent level, r"}", last, "\n"]
      : Except Fault Text) = _
  simp only [armText, bind_assoc, pure_bind]
  refine bind_congr fun c => bind_congr fun inner => ?_
  rw [alternative, hword]
  split
  · split <;> simp [Text.cat]
  · simp [Text.cat]

/-- A pair of condition and body behind some words, as Metal lists them. -/
def guardedText (lead : Text) (p : Tree) : Except Fault Text := do
  let (⟨condition, _⟩, ⟨stmts, _⟩) ← p.halves
  let c ← expression d isMain condition
  let inner ← body d isMain (.ok (level + 1)) stmts
  return Text.cat [lead, plain d c, r") {", "\n", inner, Text.indent level, r"}"]

theorem guardedText_tuple (lead : Text) (condition : Tree) (stmts : List Tree) :
    guardedText d isMain level lead (.tuple [condition, .list stmts]) = do
      let c ← expression d isMain condition
      let inner ← body d isMain (.ok (level + 1)) (.list stmts)
      return Text.cat [lead, plain d c, r") {", "\n", inner, Text.indent level, r"}"] :=
  rfl

theorem chain_list (lead : Text) (ps : List Tree) :
    chain d isMain (.ok level) lead (.list ps) = do
      return Text.cat (← ps.mapM (guardedText d isMain level lead)) := by
  cases ps with
  | nil =>
    rw [chain]
    rfl
  | cons p ps =>
    rw [chain, if_pos (show (Tree.list (p :: ps)).isSet from rfl), ← Tree.mapM_parts_list,
      bind_assoc]
    rfl

/-- What stands behind the chains of a branch in Metal. -/
def chainEnd (elseBody : Tree) : Except Fault Text :=
  if elseBody.isSet then do
    let inner ← body .metal isMain (.ok (level + 1)) elseBody
    return Text.cat [r" else {", "\n", inner, Text.indent level, r"}"]
  else pure []

/-- A branch in Metal is the chains of its arms and what stands behind them. -/
theorem branch_metal (ifChain elseIfChain elseBody : Tree) :
    branch .metal isMain (.ok level) (.node .branch
        [(.ifChain, ifChain), (.elseIfChain, elseIfChain), (.elseBody, elseBody)]) = do
      let first ← chain .metal isMain (.ok level) "if (" ifChain
      let others ← chain .metal isMain (.ok level) " else if (" elseIfChain
      let last ← chainEnd isMain level elseBody
      return Text.cat [first, others, last, "\n"] := by
  rw [branch]
  show (do
    let first ← chain .metal isMain (.ok level) "if (" ifChain
    let others ← chain .metal isMain (.ok level) " else if (" elseIfChain
    let last ←
      if elseBody.isSet then do
        let inner ← body .metal isMain (.ok (level + 1)) elseBody
        pure (Text.cat [r" else {", "\n", inner, Text.indent level, r"}"])
      else pure []
    return Text.cat [first, others, last, "\n"] : Except Fault Text) = _
  refine bind_congr fun first => bind_congr fun others => ?_
  rw [chainEnd]
  split <;> simp

/-! ## §3 Functions -/

/-- The text of a parameter. -/
def paramText (p : Tree) : Except Fault Text := do
  let vtype ← d.mapType (← p.get .vtype)
  return Text.cat [plain d vtype, " ", plain d (← p.get .name)]

theorem function_function (vtype name : Tree) (params stmts : List Tree) :
    function d (Tree.function vtype name params stmts) = do
      let params ← params.mapM (paramText d)
      let vtype ← d.mapType vtype
      let inner ← body d false (.ok 2) (.list stmts)
      return Text.cat
        ["    ", plain d vtype, " ", plain d name, "(", Text.join ", " params, r") {", "\n", inner,
         r"    }", "\n\n"] :=
  rfl

/-! ## §4 Interfaces -/

namespace State

/-- A side of the interface of a stage, as it was collected. -/
def side (s : State) (q : Channel) : List (Tree × Tree) :=
  if q.isOutput then s.outputs q.stage else s.inputs q.stage

theorem side_add (s : State) (q q' : Channel) (v : Tree × Tree) :
    (s.add q v).side q' = if q' = q then s.side q' ++ [v] else s.side q' := by
  obtain ⟨stage, isOutput⟩ := q
  obtain ⟨stage', isOutput'⟩ := q'
  cases stage <;> cases isOutput <;> cases stage' <;> cases isOutput' <;> rfl

end State

end ShaderBridge.Backward
