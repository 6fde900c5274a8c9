import ShaderBridge.Forward.Expression
import ShaderBridge.Tree.Node

/-!
# Writing expressions node by node

What `Forward.expression` writes for each kind of node that the grammars build, as an equation
between the node and its parts.
-/

namespace ShaderBridge

namespace Tree

theorem mapM_parts_list {β : Type} (f : Tree → Except Fault β) (ts : List Tree) :
    ((Tree.list ts).parts >>= fun ps => ps.mapM fun p => f p.1) = ts.mapM f := by
  have hparts : (Tree.list ts).parts
      = .ok (ts.attach.map fun x => ⟨x.1, sizeOf_items (t := .list ts) rfl x.2⟩) := rfl
  have hvals : ts.mapM f
      = ((ts.attach.map fun x => (⟨x.1, sizeOf_items (t := .list ts) rfl x.2⟩ :
          {u : Tree // sizeOf u ≤ sizeOf (Tree.list ts)})).map (·.1)).mapM f := by simp
  rw [hparts, hvals, List.mapM_map]
  rfl

theorem rename_text (table : List (Text × Text)) (s : Text) :
    (Tree.text s).rename table = .ok (.text ((table.lookup s).getD s)) := by
  cases h : table.lookup s <;> simp [rename, find, h]

end Tree

namespace Forward

/-! ## §1 Words -/

/-- A word of an expression in the dialect. -/
def Dialect.renamed (d : Dialect) (s : Text) : Text := ((d.words?.getD []).lookup s).getD s

theorem Dialect.mapWord_text (d : Dialect) (s : Text) :
    d.mapWord (.text s) = .ok (.text (d.renamed s)) := by
  unfold mapWord renamed
  cases d.words? with
  | none => rfl
  | some table => exact Tree.rename_text table s

/-- Where a word names no variable of a stage, a called function is named like any other word. -/
theorem Scope.callName_text {sc : Scope} {s : Text}
    (h : sc.word (.text s) = sc.dialect.mapWord (.text s)) :
    sc.callName (.text s) = .ok (.text (sc.dialect.renamed s)) := by
  rw [Dialect.mapWord_text] at h
  rw [callName]
  cases htable : sc.dialect.words? with
  | none => exact h
  | some table =>
    have hfind : (Tree.text s).find table = .ok (table.lookup s) := rfl
    dsimp only
    rw [hfind]
    cases hlookup : table.lookup s with
    | none => exact h
    | some r =>
      rw [Dialect.renamed, htable, Option.getD_some, hlookup]
      rfl

/-! ## §2 Nodes -/

-- Its equations are derived once, here, and not in each of the proofs below.
attribute [local grind =] expression

open Scope

variable (sc : Scope)

theorem expression_text (s : Text) :
    expression sc (.text s) = do return plain (← sc.word (.text s)) := by
  rw [expression]

theorem expression_absent : expression sc .absent = .ok (plain .absent) := by
  rw [expression] <;> simp

theorem expression_var (vtype name : Tree) :
    expression sc (Tree.var vtype name) = do
      let vtype ← sc.dialect.mapType vtype
      return Text.cat [plain vtype, " ", ← expression sc name] := by
  rw [Tree.var, expression]
  rfl

theorem expression_binary (left op right : Tree) :
    expression sc (Tree.binary left op right) = do
      let l ← expression sc left
      let op ← Operator.symbol op
      return Text.cat [l, " ", plain op, " ", ← expression sc right] := by
  rw [Tree.binary, expression]
  rfl

theorem expression_unary (op operand : Tree) :
    expression sc (Tree.unary op operand) = do
      let op ← Operator.symbol op
      return Text.cat [plain op, sc.dialect.signGap, ← expression sc operand] := by
  rw [Tree.unary, expression]
  rfl

theorem expression_ternary (condition yes no : Tree) :
    expression sc (Tree.ternary condition yes no) = do
      let c ← expression sc condition
      let y ← expression sc yes
      return Text.cat [c, " ? ", y, " : ", ← expression sc no] := by
  rw [Tree.ternary, expression]
  rfl

theorem expression_memberOf (object member : Tree) :
    expression sc (Tree.memberOf object member) = do
      let o ← expression sc object
      return Text.cat [o, ".", plain member] := by
  rw [Tree.memberOf, expression]
  rfl

theorem expression_call (name : Tree) (args : List Tree) :
    expression sc (Tree.call name args) = do
      let texts ← args.mapM (expression sc)
      let name ← sc.callName name
      return Text.cat [plain name, "(", Text.join ", " texts, ")"] := by
  rw [← Tree.mapM_parts_list, Tree.call, expression, bind_assoc]
  rfl

end Forward

end ShaderBridge
