import ShaderBridge.Proofs.Forward.Renaming
import ShaderBridge.Proofs.Forward.Words
import ShaderBridge.Proofs.Forward.Writing

/-!
# The layout of a function

What is written for a function of a stage is fixed by its tree, but for its words: what is written
for a word depends on the variables that the stage declares.  The layout of a function is its text
with a place left open for each use of a word.  At each place stands which names the function
itself has declared by then: its parameters, and the locals of the declarations in front of the use.

- `functionLayout d stage f`: the layout of a function.
- `stageFunction_eq_fill`: what is written for a function is its layout with the places filled.
-/

namespace ShaderBridge.Forward

open ShaderBridge.Parser (BareText bareText_absent)
open Scope CrossGl

/-! ## §1 Layouts -/

/-- A use of a word. -/
structure Use where
  word : Text
  /-- Whether the word is the name of a called function. -/
  called : Bool
  /-- The names that the function has declared by then. -/
  own : List Text
deriving DecidableEq, Repr

/-- A text with places for words. -/
inductive Layout where
  | text (s : Text)
  | use (u : Use)
  | append (a b : Layout)
  /-- A clause of a loop header, from the layout of a statement. -/
  | clause (a : Layout)
deriving DecidableEq, Repr

namespace Layout

/-- The text of a layout, given what is written at each place. -/
def fill (write : Use → Text) : Layout → Text
  | text s => s
  | use u => write u
  | append a b => a.fill write ++ b.fill write
  | clause a => Forward.clause (a.fill write)

/-- The places of a layout. -/
def uses : Layout → List Use
  | text _ => []
  | use u => [u]
  | append a b => a.uses ++ b.uses
  | clause a => a.uses

/-- Layouts one after another. -/
def cat : List Layout → Layout
  | [] => text []
  | l :: ls => l.append (cat ls)

/-- Layouts with a text between them. -/
def join (sep : Text) : List Layout → Layout
  | [] => text []
  | [l] => l
  | l :: m :: ls => cat [l, text sep, join sep (m :: ls)]

variable (write : Use → Text)

@[simp] theorem fill_text (s : Text) : (text s).fill write = s := rfl

@[simp] theorem fill_use (u : Use) : (use u).fill write = write u := rfl

@[simp] theorem fill_clause (l : Layout) : l.clause.fill write = Forward.clause (l.fill write) :=
  rfl

@[simp] theorem fill_cat (ls : List Layout) :
    (cat ls).fill write = Text.cat (ls.map (fill write)) := by
  induction ls with
  | nil => rfl
  | cons l ls ih => rw [cat, fill, ih]; rfl

@[simp] theorem fill_join (sep : Text) (ls : List Layout) :
    (join sep ls).fill write = Text.join sep (ls.map (fill write)) := by
  induction ls with
  | nil => rfl
  | cons l ls ih =>
    cases ls with
    | nil => simp [join, Text.join]
    | cons m ls => simp [join, ih, Text.join, Text.cat, List.intercalate_cons_cons]

end Layout

/-! ## §2 Expressions -/

/-- A type as it is written. -/
def typeText (d : Dialect) : Tree → Text
  | .text s => d.typeOf s
  | t => plain t

/-- An operator as it is written. -/
def symbolText : Tree → Text
  | .text s => ((Operator.valueSymbols ++ Operator.assignSymbols).lookup s).getD s
  | t => plain t

/-- The name of a called function. -/
def calledLayout (own : List Text) : Tree → Layout
  | .text s => .use ⟨s, true, own⟩
  | t => .text (plain t)

mutual

/-- The layout of an expression behind the declarations of `own`. -/
def expressionLayout (d : Dialect) (own : List Text) : Tree → Layout
  | .text s => .use ⟨s, false, own⟩
  | .node .var [(.vtype, vtype), (.name, name)] =>
    .cat [.text (typeText d vtype), .text " ", expressionLayout d own name]
  | .node .binary [(.left, left), (.op, op), (.right, right)] =>
    .cat [expressionLayout d own left, .text " ", .text (symbolText op), .text " ",
      expressionLayout d own right]
  | .node .unary [(.op, op), (.operand, operand)] =>
    .cat [.text (symbolText op), .text d.signGap, expressionLayout d own operand]
  | .node .ternary [(.condition, condition), (.trueExpr, yes), (.falseExpr, no)] =>
    .cat [expressionLayout d own condition, .text " ? ", expressionLayout d own yes, .text " : ",
      expressionLayout d own no]
  | .node .member [(.object, object), (.member, member)] =>
    .cat [expressionLayout d own object, .text ".", .text (plain member)]
  | .node .call [(.name, name), (.args, .list args)] =>
    .cat [calledLayout own name, .text "(", .join ", " (expressionLayouts d own args), .text ")"]
  | t => .text (plain t)

/-- The layouts of expressions. -/
def expressionLayouts (d : Dialect) (own : List Text) : List Tree → List Layout
  | [] => []
  | t :: ts => expressionLayout d own t :: expressionLayouts d own ts

end

/-! ## §3 Statements -/

/-- The local that a variable with a type declares. -/
def declaredLocal : Tree → List Text
  | .node .var [(.vtype, vtype), (.name, .text name)] => if vtype.isSet then [name] else []
  | _ => []

/-- The layout of a statement that takes one line.  The state is the names that are declared, to
which a declaration adds its own.  The name of a declaration with a value is declared already, but
not in the value. -/
def lineLayout (d : Dialect) : Tree → StateM (List Text) Layout
  | .node .var [(.vtype, vtype), (.name, name)] => do
    modify (declaredLocal (Tree.var vtype name) ++ ·)
    return .cat [.text (typeText d vtype), .text " ", .text (plain name)]
  | .node .binary [(.left, left), (.op, op), (.right, right)] => do
    let before ← get
    modify (declaredLocal left ++ ·)
    return .cat [expressionLayout d (← get) left, .text " ", .text (symbolText op), .text " ",
      expressionLayout d before right]
  | t => do return expressionLayout d (← get) t

/-- The layout of a condition with its statements. -/
def armLayout (d : Dialect) (level : Int) (condition : Tree)
    (stmts : StateM (List Text) (List Layout)) : StateM (List Text) Layout := do
  let before ← get
  let stmts ← stmts
  return .cat [.text "(", expressionLayout d before condition, .text r") {", .text "\n", .cat stmts,
    .text (Text.indent level), .text r"}"]

mutual

/-- The layout of a statement at a level of nesting. -/
def statementLayout (d : Dialect) (level : Int) : Tree → StateM (List Text) Layout
  | .node .returned [(.value, .list values)] => do
    return .cat [.text (Text.indent level), .text "return ",
      .join ", " (expressionLayouts d (← get) values), .text ";\n"]
  | .node .forLoop [(.init, init), (.condition, condition), (.update, update),
      (.body, .list body)] => do
    let first ← statementLayout d 0 init
    let guard ← statementLayout d 0 condition
    let step ← statementLayout d 0 update
    let stmts ← statementLayouts d (level + 1) body
    return .cat [.text (Text.indent level), .text "for (", first.clause, .text "; ", guard.clause,
      .text "; ", step.clause, .text r") {", .text "\n", .cat stmts, .text (Text.indent level),
      .text r"}", .text "\n"]
  | .node .branch [(.ifCondition, condition), (.ifBody, .list body),
      (.elseIfConditions, .list conditions), (.elseIfBodies, .list bodies),
      (.elseBody, last)] => do
    let arm ← armLayout d level condition (statementLayouts d (level + 1) body)
    let others ← alternativeLayouts d level conditions bodies
    let ending ← endingLayout d level last
    return .cat [.text (Text.indent level), .text "if ", arm, .cat others, ending, .text "\n"]
  | t => do return .cat [.text (Text.indent level), ← lineLayout d t, .text ";\n"]

/-- The layouts of statements one after another. -/
def statementLayouts (d : Dialect) (level : Int) : List Tree → StateM (List Text) (List Layout)
  | [] => return []
  | t :: ts => do
    let l ← statementLayout d level t
    return l :: (← statementLayouts d level ts)

/-- The layouts of the further conditions of a branch. -/
def alternativeLayouts (d : Dialect) (level : Int) :
    List Tree → List Tree → StateM (List Text) (List Layout)
  | condition :: conditions, .list body :: bodies => do
    let arm ← armLayout d level condition (statementLayouts d (level + 1) body)
    return .cat [.text " else if ", arm] :: (← alternativeLayouts d level conditions bodies)
  | _, _ => return []

/-- The layout of what stands behind the last condition of a branch. -/
def endingLayout (d : Dialect) (level : Int) : Tree → StateM (List Text) Layout
  | .list (t :: ts) => do
    let stmts ← statementLayouts d (level + 1) (t :: ts)
    return .cat [.text r" else {", .text "\n", .cat stmts, .text (Text.indent level), .text r"}"]
  | _ => return .text []

end

/-! ## §4 Functions -/

/-- The text of a parameter. -/
def parameterText (d : Dialect) : Tree → Text
  | .tuple [vtype, name] => Text.cat [typeText d vtype, " ", plain name]
  | _ => []

/-- The layout of a function of a stage.  Its parameters are its own from the start; those of an
entry point are not written. -/
def functionLayout (d : Dialect) (stage : Stage) : Tree → Layout
  | .node .function [(.returnType, vtype), (.name, name), (.params, .list params),
      (.body, .list body)] =>
    let stmts := .cat (statementLayouts d 1 body (variableNames params)).1
    if name.isText "main" then
      .cat [.text (d.entryOpening stage), stmts, .text "    return output;\n", .text r"}",
        .text "\n"]
    else
      .cat [.text (typeText d vtype), .text " ", .text (plain name), .text "(",
        .text (Text.join ", " (params.map (parameterText d))), .text r") {", .text "\n", stmts,
        .text r"}", .text "\n"]
  | _ => .text []

/-! ## §5 Filling expressions -/

/-- The words of a scope are written as `write` has them, wherever they are used. -/
structure Writes (sc : Scope) (write : Use → Text) : Prop where
  word (s : Text) (own : List Text) : sc.word (.text s) = .ok (.text (write ⟨s, false, own⟩))
  called (s : Text) (own : List Text) : sc.callName (.text s) = .ok (.text (write ⟨s, true, own⟩))
  /-- What is called but is no word is written as it is. -/
  kept {t : Tree} (h : CalledShape t) (ht : ∀ s, t ≠ .text s) : sc.callName t = .ok t

theorem mapType_typeText (d : Dialect) {t : Tree} (h : BareText t) :
    ∃ x, d.mapType t = .ok x ∧ plain x = typeText d t := by
  obtain ⟨o, rfl, -⟩ := h
  cases o with
  | none => exact ⟨.absent, by cases d <;> rfl, rfl⟩
  | some s => exact ⟨_, d.mapType_text s, rfl⟩

theorem symbol_symbolText {t : Tree} (h : BareText t) :
    ∃ x, Operator.symbol t = .ok x ∧ plain x = symbolText t := by
  obtain ⟨o, rfl, -⟩ := h
  cases o with
  | none => exact ⟨.absent, rfl, rfl⟩
  | some s => exact ⟨_, Tree.rename_text _ s, rfl⟩

section Filling

variable {sc : Scope} {write : Use → Text}

theorem mapM_expression {ts : List Tree} {own : List Text}
    (h : ∀ t ∈ ts, expression sc t = .ok ((expressionLayout sc.dialect own t).fill write)) :
    ts.mapM (expression sc) = .ok ((expressionLayouts sc.dialect own ts).map (·.fill write)) := by
  induction ts with
  | nil => rfl
  | cons t ts ih =>
    obtain ⟨ht, hts⟩ := List.forall_mem_cons.1 h
    rw [List.mapM_cons, ht, ih hts]
    rfl

variable (hw : Writes sc write)

include hw

theorem callName_calledLayout {t : Tree} (h : CalledShape t) (own : List Text) :
    ∃ x, sc.callName t = .ok x ∧ plain x = (calledLayout own t).fill write := by
  cases h with
  | word h =>
    obtain ⟨o, rfl, -⟩ := h
    cases o with
    | none => exact ⟨_, hw.kept (.word bareText_absent) nofun, rfl⟩
    | some s => exact ⟨_, hw.called s own, rfl⟩
  | node h => exact ⟨_, hw.kept (.node h) nofun, rfl⟩

theorem expression_call_eq_fill {name : Tree} {args : List Tree} {own : List Text}
    (hname : CalledShape name)
    (h : ∀ t ∈ args, expression sc t = .ok ((expressionLayout sc.dialect own t).fill write)) :
    expression sc (Tree.call name args)
      = .ok ((expressionLayout sc.dialect own (Tree.call name args)).fill write) := by
  obtain ⟨x, hx, hplain⟩ := callName_calledLayout hw hname own
  rw [expression_call, mapM_expression h, hx]
  show Except.ok (Text.cat [plain x, _, _, _]) = _
  rw [hplain]
  simp [expressionLayout, Tree.call]

/-- An expression is written as its layout says. -/
theorem expression_eq_fill {t : Tree} (h : ExprShape t) (own : List Text) :
    expression sc t = .ok ((expressionLayout sc.dialect own t).fill write) := by
  induction h with
  | word h =>
    obtain ⟨o, rfl, -⟩ := h
    cases o with
    | none => exact expression_absent sc
    | some s =>
      show expression sc (.text s) = _
      rw [expression_text, hw.word s own]
      rfl
  -- Types and operators are looked up, and the lookup does not fail.
  | @var vtype name hv _ ih =>
    obtain ⟨x, hx, hplain⟩ := mapType_typeText sc.dialect hv
    rw [expression_var, hx, ih]
    show Except.ok (Text.cat [plain x, _, _]) = _
    rw [hplain]
    simp [expressionLayout, Tree.var]
  | @binary left op right _ ho _ ihl ihr =>
    obtain ⟨x, hx, hplain⟩ := symbol_symbolText ho
    rw [expression_binary, ihl, hx, ihr]
    show Except.ok (Text.cat [_, _, plain x, _, _]) = _
    rw [hplain]
    simp [expressionLayout, Tree.binary]
  | @unary op operand ho _ ih =>
    obtain ⟨x, hx, hplain⟩ := symbol_symbolText ho
    rw [expression_unary, hx, ih]
    show Except.ok (Text.cat [plain x, _, _]) = _
    rw [hplain]
    simp [expressionLayout, Tree.unary]
  | ternary _ _ _ ihc ihy ihn =>
    rw [expression_ternary, ihc, ihy, ihn]
    simp [expressionLayout, Tree.ternary, Pure.pure, Except.pure, Bind.bind, Except.bind]
  | memberOf s _ _ ih =>
    rw [expression_memberOf, ih]
    simp [expressionLayout, Tree.memberOf, Pure.pure, Except.pure, Bind.bind, Except.bind]
  | call hn _ ih => exact expression_call_eq_fill hw (.word hn) ih

end Filling

/-! ## §6 Filling statements -/

/-- The outcome is read off the layout, whatever names have been declared. -/
def Lays {α β : Type} (read : β → α) (x : Except Fault α) (m : StateM (List Text) β) : Prop :=
  ∀ own, x = .ok (read (m own).1)

namespace Lays

variable {α β γ δ : Type} {read : β → α} {read' : δ → γ} {x : Except Fault α}
  {m : StateM (List Text) β}

theorem pure (b : β) : Lays read (pure (read b)) (pure b) := fun _ => rfl

theorem pure_of_eq {a : α} {b : β} (h : a = read b) : Lays read (Pure.pure a) (Pure.pure b) :=
  h ▸ pure b

theorem bind {f : α → Except Fault γ} {g : β → StateM (List Text) δ} (h : Lays read x m)
    (hf : ∀ b, Lays read' (f (read b)) (g b)) : Lays read' (x >>= f) (m >>= g) := by
  intro own
  rw [h own]
  exact hf _ (m own).2

theorem get {g : List Text → StateM (List Text) β} (h : ∀ own, Lays read x (g own)) :
    Lays read x (MonadState.get >>= g) :=
  fun own => h own own

end Lays

section Statements

variable {sc : Scope} {write : Use → Text} (hw : Writes sc write)

include hw

omit hw in
/-- The places of a line stand between its blanks and its semicolon. -/
theorem fill_line (level : Int) (l : Layout) :
    (Layout.cat [.text (Text.indent level), l, .text ";\n"]).fill write
      = Text.cat [Text.indent level, l.fill write, ";\n"] := by
  simp

/-- A statement that takes one line is written as its layout says. -/
theorem lays_line {t : Tree} (h : LineShape t) (level : Int) :
    Lays (Layout.fill write) (statement sc level t) (statementLayout sc.dialect level t) := by
  intro own
  cases h with
  | @var vtype hv name =>
    obtain ⟨x, hx, hplain⟩ := mapType_typeText sc.dialect hv
    rw [statement_var, hx]
    show Except.ok (Text.cat [_, plain x, _, _, _]) =
      Except.ok ((Layout.cat [.text (Text.indent level),
      .cat [.text (typeText sc.dialect vtype), .text " ", .text (plain name)],
        .text ";\n"]).fill write)
    rw [fill_line, hplain]
    simp [Text.cat]
  | @binary left op right hl ho hr =>
    -- The name of a declaration is its own already.
    have hleft := expression_eq_fill hw hl (declaredLocal left ++ own)
    have hright := expression_eq_fill hw hr own
    obtain ⟨x, hx, hplain⟩ := symbol_symbolText ho
    rw [statement_binary, expression_binary, hx, hleft, hright]
    show Except.ok (Text.cat [_, Text.cat [_, _, plain x, _, _], _])
      = Except.ok ((Layout.cat [.text (Text.indent level), .cat [
          expressionLayout sc.dialect (declaredLocal left ++ own) left, .text " ",
          .text (symbolText op), .text " ", expressionLayout sc.dialect own right],
          .text ";\n"]).fill write)
    rw [fill_line, hplain]
    simp
  | @call name args hn ha =>
    have hcall := expression_call_eq_fill hw hn fun a h => expression_eq_fill hw (ha a h) own
    rw [statement_call, hcall]
    exact congrArg Except.ok (fill_line level _).symm
  | absent =>
    rw [statement_absent, expression_absent]
    exact congrArg Except.ok (fill_line level (.text (plain .absent))).symm

omit hw in
/-- Statements one after another are written as their layouts say. -/
theorem lays_statements {ts : List Tree} {level : Int}
    (h : ∀ t ∈ ts,
      Lays (Layout.fill write) (statement sc level t) (statementLayout sc.dialect level t)) :
    Lays (List.map (Layout.fill write)) (ts.mapM (statement sc level))
      (statementLayouts sc.dialect level ts) := by
  induction ts with
  | nil => exact .pure []
  | cons t ts ih =>
    obtain ⟨ht, hts⟩ := List.forall_mem_cons.1 h
    rw [List.mapM_cons, statementLayouts]
    apply ht.bind
    intro l
    apply (ih hts).bind
    intro ls
    exact .pure (l :: ls)

theorem lays_arm {a : Tree × List Tree} {level : Int} (hc : ExprShape a.1)
    (hb : ∀ t ∈ a.2, Lays (Layout.fill write) (statement sc (level + 1) t)
      (statementLayout sc.dialect (level + 1) t)) :
    Lays (Layout.fill write) (armText sc level a)
      (armLayout sc.dialect level a.1 (statementLayouts sc.dialect (level + 1) a.2)) := by
  apply Lays.get
  intro own
  rw [armText, expression_eq_fill hw hc own]
  apply (lays_statements hb).bind
  intro ls
  exact .pure_of_eq (by simp)

/-- The alternatives of a branch are laid out arm by arm. -/
theorem lays_alternatives {others : List (Tree × List Tree)} {level : Int}
    (hcs : ∀ a ∈ others, ExprShape a.1)
    (hbs : ∀ a ∈ others, ∀ t ∈ a.2, Lays (Layout.fill write) (statement sc (level + 1) t)
      (statementLayout sc.dialect (level + 1) t)) :
    Lays (List.map (Layout.fill write))
      (others.mapM fun a => do return " else if " ++ (← armText sc level a))
      (alternativeLayouts sc.dialect level (others.map (·.1)) (others.map fun a => .list a.2)) := by
  induction others with
  | nil => exact .pure []
  | cons a others ih =>
    obtain ⟨hc, hcs⟩ := List.forall_mem_cons.1 hcs
    obtain ⟨hb, hbs⟩ := List.forall_mem_cons.1 hbs
    rw [List.mapM_cons, List.map_cons, List.map_cons, alternativeLayouts, bind_assoc]
    apply (lays_arm hw hc hb).bind
    intro l
    rw [pure_bind]
    apply (ih hcs hbs).bind
    intro ls
    exact .pure_of_eq (by simp [Text.cat])

omit hw in
theorem lays_ending {last : Option (List Tree)} {level : Int}
    (h : ∀ t ∈ last.getD [], Lays (Layout.fill write) (statement sc (level + 1) t)
      (statementLayout sc.dialect (level + 1) t)) :
    Lays (Layout.fill write) (endingText sc level (endingTree last))
      (endingLayout sc.dialect level (endingTree last)) := by
  cases last with
  | none => exact fun _ => rfl
  | some ts =>
    cases ts with
    | nil => exact fun _ => rfl
    | cons t ts =>
      rw [endingTree, endingText_list, endingLayout]
      apply (lays_statements h).bind
      intro ls
      exact .pure_of_eq (by simp)

/-- A statement is written as its layout says. -/
theorem lays_statement {t : Tree} (h : StmtShape t) (level : Int) :
    Lays (Layout.fill write) (statement sc level t) (statementLayout sc.dialect level t) := by
  induction h generalizing level with
  | line h => exact lays_line hw h level
  | @returned values h =>
    intro own
    rw [statement_returned, mapM_expression fun t ht => expression_eq_fill hw (h t ht) own]
    show Except.ok (Text.cat [_, _, Text.join ", " _, _]) = Except.ok ((Layout.cat [
      .text (Text.indent level), .text "return ",
      .join ", " (expressionLayouts sc.dialect own values), .text ";\n"]).fill write)
    simp
  | @forLoop init condition update body hi hc hu _ ih =>
    rw [statement_forLoop]
    -- The layout of the node, with its fields looked up.
    show Lays _ _ (do
      let first ← statementLayout sc.dialect 0 init
      let guard ← statementLayout sc.dialect 0 condition
      let step ← statementLayout sc.dialect 0 update
      let stmts ← statementLayouts sc.dialect (level + 1) body
      return Layout.cat [.text (Text.indent level), .text "for (", first.clause, .text "; ",
        guard.clause, .text "; ", step.clause, .text r") {", .text "\n", .cat stmts,
        .text (Text.indent level), .text r"}", .text "\n"])
    apply (lays_line hw hi 0).bind
    intro first
    apply (lays_line hw hc 0).bind
    intro guard
    apply (lays_line hw hu 0).bind
    intro step
    apply (lays_statements fun t ht => ih t ht (level + 1)).bind
    intro ls
    exact .pure_of_eq (by simp)
  | @branch first others last hc _ hcs _ _ ihb ihbs ihlast =>
    rw [statement_branch]
    show Lays _ _ (do
      let arm ← armLayout sc.dialect level first.1
        (statementLayouts sc.dialect (level + 1) first.2)
      let others ← alternativeLayouts sc.dialect level (others.map (·.1))
        (others.map fun a => .list a.2)
      let ending ← endingLayout sc.dialect level (endingTree last)
      return Layout.cat [.text (Text.indent level), .text "if ", arm, .cat others, ending,
        .text "\n"])
    apply (lays_arm hw hc fun t ht => ihb t ht (level + 1)).bind
    intro arm
    apply (lays_alternatives hw hcs fun a ha t ht => ihbs a ha t ht (level + 1)).bind
    intro ls
    apply (lays_ending fun t ht => ihlast t ht (level + 1)).bind
    intro ending
    exact .pure_of_eq (by simp)

/-! ## §7 Filling functions -/

omit hw in
theorem mapM_paramText {ps : List Tree} (h : ∀ p ∈ ps, ParamShape p) :
    ps.mapM (paramText sc) = .ok (ps.map (parameterText sc.dialect)) := by
  induction ps with
  | nil => rfl
  | cons p ps ih =>
    obtain ⟨⟨vtype, name, rfl, hv, -⟩, hps⟩ := List.forall_mem_cons.1 h
    obtain ⟨x, hx, hplain⟩ := mapType_typeText sc.dialect hv
    have hp : paramText sc (.tuple [vtype, name])
        = .ok (parameterText sc.dialect (.tuple [vtype, name])) := by
      show (do
        let vtype ← sc.dialect.mapType vtype
        return Text.cat [plain vtype, " ", plain name] : Except Fault Text) = _
      rw [hx, parameterText, ← hplain]
      rfl
    rw [List.mapM_cons, hp, ih hps]
    rfl

/-- A function of a stage is written as its layout says. -/
theorem stageFunction_eq_fill {stage : Stage} (hd : sc.dialect.hasStageStructs)
    (hstage : sc.stage = .text stage.label) {f : Tree} (h : FunctionShape f) :
    stageFunction sc f = .ok ((functionLayout sc.dialect stage f).fill write) := by
  obtain ⟨name, hv, -, hp, hb⟩ := h
  next vtype params body =>
  have hstmts := lays_statements (fun t ht => lays_statement hw (hb t ht) 1) (variableNames params)
  have hentry : isEntry (Tree.function vtype name params body) = .ok (name.isText "main") := rfl
  rw [stageFunction, hentry]
  show (if name.isText "main" = true then entryPoint sc _ else plainFunction sc _) = _
  rw [functionLayout.eq_def]
  show _ = Except.ok (Layout.fill write (if name.isText "main" = true then _ else _))
  -- An entry point is written without its name and its parameters.
  split
  · rw [entryPoint_function hd hstage, hstmts]
    show Except.ok (Text.cat [_, Text.cat _, _, _, _]) = _
    simp
  · obtain ⟨x, hx, hplain⟩ := mapType_typeText sc.dialect hv
    rw [plainFunction_function, parameters_list, mapM_paramText hp, hx, hstmts]
    show Except.ok (Text.cat [plain x, _, _, _, Text.join _ _, _, _, Text.cat _, _, _]) = _
    rw [hplain]
    simp

end Statements

end ShaderBridge.Forward
