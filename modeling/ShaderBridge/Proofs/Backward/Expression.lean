import ShaderBridge.Backward.Expression
import ShaderBridge.Proofs.Forward.Expression

/-!
# Writing expressions in CrossGL node by node

What `Backward.expression` writes for each kind of node that the grammars build, as an equation
between the node and its parts.
-/

namespace ShaderBridge.Backward

variable (d : Dialect) (isMain : Bool)

@[simp] theorem plain_text (s : Text) : plain d (.text s) = s := rfl

theorem expression_text (s : Text) : expression d isMain (.text s) = .ok (.text s) := by
  rw [expression]

theorem expression_semanticVar (vtype name semantic : Tree) :
    expression d isMain (Tree.semanticVar vtype name semantic) = do
      let vtype ← d.mapType vtype
      return .text (Text.cat [plain d vtype, " ", plain d name]) := by
  rw [Tree.semanticVar, expression]
  rfl

theorem expression_attributedVar (vtype name : Tree) (attributes : List Tree) :
    expression d isMain (Tree.attributedVar vtype name attributes) = do
      let vtype ← d.mapType vtype
      return .text (Text.cat [plain d vtype, " ", plain d name]) := by
  rw [Tree.attributedVar, expression]
  rfl

theorem expression_binary (left op right : Tree) :
    expression d isMain (Tree.binary left op right) = do
      let l ← expression d isMain left
      let r ← expression d isMain right
      return .text (Text.cat [plain d l, " ", plain d op, " ", plain d r]) := by
  rw [Tree.binary, expression]
  rfl

theorem expression_unary (op operand : Tree) :
    expression d isMain (Tree.unary op operand) = do
      let e ← expression d isMain operand
      return .text (Text.cat [d.aroundSign.1, plain d op, plain d e, d.aroundSign.2]) := by
  rw [Tree.unary, expression]
  rfl

theorem expression_ternary (condition yes no : Tree) :
    expression d isMain (Tree.ternary condition yes no) = do
      let c ← expression d isMain condition
      let y ← expression d isMain yes
      let n ← expression d isMain no
      return .text (Text.cat [plain d c, " ? ", plain d y, " : ", plain d n]) := by
  rw [Tree.ternary, expression]
  rfl

theorem expression_memberOf (object member : Tree) :
    expression d isMain (Tree.memberOf object member) = do
      let o ← expression d false object
      if o.isText "output" || o.isText "input" then return member
      else return .text (Text.cat [plain d o, ".", plain d member]) := by
  rw [Tree.memberOf, expression]
  rfl

theorem expression_call (name : Tree) (args : List Tree) :
    expression d isMain (Tree.call name args) = do
      let values ← args.mapM (expression d isMain)
      let joined ← joinTexts values
      return .text (Text.cat [plain d name, "(", joined, ")"]) := by
  rw [← Tree.mapM_parts_list, Tree.call, expression, bind_assoc]
  rfl

theorem expression_construction (typeName : Tree) (args : List Tree) :
    expression d isMain (Tree.construction typeName args) = do
      let values ← args.mapM (expression d isMain)
      let joined ← joinTexts values
      let vtype ← d.mapType typeName
      return .text (Text.cat [plain d vtype, "(", joined, ")"]) := by
  rw [← Tree.mapM_parts_list, Tree.construction, expression, bind_assoc]
  rfl

theorem assignment_assignmentBy (left right operator : Tree) :
    assignment d isMain (Tree.assignmentBy left right operator) = do
      let l ← expression d isMain left
      let r ← expression d isMain right
      let target ← outputTarget d isMain left
      return Text.cat [target.getD (plain d l), " = ", plain d r] := by
  rw [assignment]
  rfl

theorem expression_assignmentBy_hlsl (left right operator : Tree) :
    expression .hlsl isMain (Tree.assignmentBy left right operator) = do
      let l ← expression .hlsl isMain left
      let r ← expression .hlsl isMain right
      return .text (Text.cat [plain .hlsl l, " ", plain .hlsl operator, " ", plain .hlsl r]) := by
  rw [Tree.assignmentBy, expression]
  rfl

theorem expression_assignmentBy_metal (left right operator : Tree) :
    expression .metal isMain (Tree.assignmentBy left right operator) = do
      return .text (← assignment .metal isMain (Tree.assignmentBy left right operator)) := by
  rw [Tree.assignmentBy, expression]

theorem joinTexts_map_text (texts : List Text) :
    joinTexts (texts.map .text) = .ok (Text.join ", " texts) := by
  rw [joinTexts, List.mapM_map]
  show (texts.mapM (fun s => pure (id s)) >>= fun texts => pure (Text.join ", " texts)) = _
  rw [List.mapM_pure, List.map_id]
  rfl

end ShaderBridge.Backward
