import ShaderBridge.Proofs.Forward.Totality
import ShaderBridge.Proofs.Sources

/-!
# One dialect in the words of another

Outside the stages, HLSL and Metal are written from a function as GLSL is written from that
function with its words renamed.  `relabel d` is the renaming: a map of trees that follows what
each part stands for (`Role`), so that a type, a word of an expression and the name of a called
function are looked up in the tables of `d` and all else stays.

For Metal the two texts are the same.  HLSL puts a blank behind a sign, so there they are the same
without their blanks.  Both are one statement about the characters that are compared (`SameKept`),
shown by induction on the forms of a parsed function (`plainFunction_relabel`).
-/

namespace ShaderBridge

namespace Forward

open ShaderBridge.Parser CrossGl Scope

/-! ## §1 The renaming -/

namespace Dialect

/-- A type under its name in the dialect. -/
def typeOf (d : Dialect) (s : Text) : Text := ((d.types?.getD []).lookup s).getD s

theorem mapType_text (d : Dialect) (s : Text) : d.mapType (.text s) = .ok (.text (d.typeOf s)) := by
  unfold mapType typeOf
  cases d.types? with
  | none => rfl
  | some table => exact Tree.rename_text table s

end Dialect

/-- What a part of a function stands for. -/
inductive Role where
  | function
  | parameter
  | statement
  | expression
  | called
  | type
  | kept
deriving DecidableEq, Repr

namespace Role

/-- What the parts of an expression stand for. -/
def inExpression : NodeKind → Field → Role
  | .var, .vtype => type
  | .var, .name => expression
  | .binary, .left | .binary, .right => expression
  | .unary, .operand => expression
  | .ternary, .condition | .ternary, .trueExpr | .ternary, .falseExpr => expression
  | .member, .object => expression
  | .call, .name => called
  | .call, .args => expression
  | _, _ => kept

/-- What the parts of a statement stand for.  A declared name is no expression, and the clauses of
a loop header are statements; a node that is no statement of its own kind is an expression. -/
def inStatement : NodeKind → Field → Role
  | .var, .vtype => type
  | .var, .name => kept
  | .branch, .ifCondition | .branch, .elseIfConditions => expression
  | .branch, .ifBody | .branch, .elseIfBodies | .branch, .elseBody => statement
  | .forLoop, .init | .forLoop, .condition | .forLoop, .update | .forLoop, .body => statement
  | .returned, .value => expression
  | k, f => inExpression k f

/-- What the parts of a function stand for. -/
def inFunction : NodeKind → Field → Role
  | .function, .returnType => type
  | .function, .params => parameter
  | .function, .body => statement
  | _, _ => kept

/-- What a field of a node stands for, where the node stands for something itself. -/
def part : Role → NodeKind → Field → Role
  | function => inFunction
  | statement => inStatement
  | expression => inExpression
  | parameter | called | type | kept => fun _ _ => kept

end Role

mutual

/-- A tree with its words as the dialect names them. -/
def relabel (d : Dialect) : Role → Tree → Tree
  | .kept, t => t
  | .type, .text s => .text (d.typeOf s)
  | .expression, .text s | .called, .text s => .text (d.renamed s)
  | .parameter, .tuple (vtype :: rest) => .tuple (relabel d .type vtype :: rest)
  | r, .list ts => .list (relabelAll d r ts)
  | r, .node k fields => .node k (relabelFields d r k fields)
  | _, t => t

/-- The items of a list with their words renamed. -/
def relabelAll (d : Dialect) (r : Role) : List Tree → List Tree
  | [] => []
  | t :: rest => relabel d r t :: relabelAll d r rest

/-- The fields of a node with their words renamed. -/
def relabelFields (d : Dialect) (r : Role) (k : NodeKind) :
    List (Field × Tree) → List (Field × Tree)
  | [] => []
  | (f, t) :: rest => (f, relabel d (r.part k f) t) :: relabelFields d r k rest

end

-- Their equations are derived once, here, and not in each of the proofs below.
attribute [local grind =] Role.part Role.inExpression Role.inStatement
  relabel relabelAll relabelFields

section Equations

variable (d : Dialect)

theorem relabelAll_eq_map (r : Role) (ts : List Tree) :
    relabelAll d r ts = ts.map (relabel d r) := by
  induction ts with
  | nil => rfl
  | cons t ts ih => rw [relabelAll, ih, List.map_cons]

theorem relabel_kept (t : Tree) : relabel d .kept t = t := by rw [relabel]

theorem relabel_list {r : Role} (hr : r ≠ .kept) (ts : List Tree) :
    relabel d r (.list ts) = .list (ts.map (relabel d r)) := by
  rw [← relabelAll_eq_map]
  cases r <;> simp_all [relabel]

theorem relabel_node {r : Role} (hr : r ≠ .kept) (k : NodeKind) (fs : List (Field × Tree)) :
    relabel d r (.node k fs) = .node k (relabelFields d r k fs) := by
  cases r <;> simp_all [relabel]

/-! Expressions -/

theorem relabel_var (vtype name : Tree) :
    relabel d .expression (Tree.var vtype name)
      = Tree.var (relabel d .type vtype) (relabel d .expression name) :=
  relabel_node d (by simp) _ _

theorem relabel_binary (left op right : Tree) :
    relabel d .expression (Tree.binary left op right)
      = Tree.binary (relabel d .expression left) op (relabel d .expression right) := by
  rw [Tree.binary, relabel_node d (by simp)]
  simp [relabelFields, Role.part, Role.inExpression, relabel_kept, Tree.binary]

theorem relabel_unary (op operand : Tree) :
    relabel d .expression (Tree.unary op operand)
      = Tree.unary op (relabel d .expression operand) := by
  rw [Tree.unary, relabel_node d (by simp)]
  simp [relabelFields, Role.part, Role.inExpression, relabel_kept, Tree.unary]

theorem relabel_ternary (condition yes no : Tree) :
    relabel d .expression (Tree.ternary condition yes no)
      = Tree.ternary (relabel d .expression condition) (relabel d .expression yes)
          (relabel d .expression no) :=
  relabel_node d (by simp) _ _

theorem relabel_memberOf (object member : Tree) :
    relabel d .expression (Tree.memberOf object member)
      = Tree.memberOf (relabel d .expression object) member := by
  rw [Tree.memberOf, relabel_node d (by simp)]
  simp [relabelFields, Role.part, Role.inExpression, relabel_kept, Tree.memberOf]

theorem relabel_call (name : Tree) (args : List Tree) :
    relabel d .expression (Tree.call name args)
      = Tree.call (relabel d .called name) (args.map (relabel d .expression)) := by
  rw [Tree.call, relabel_node d (by simp)]
  simp [relabelFields, Role.part, Role.inExpression, relabel_list, Tree.call]

theorem relabel_called (vtype name : Tree) :
    relabel d .called (Tree.var vtype name) = Tree.var vtype name := by
  rw [Tree.var, relabel_node d (by simp)]
  simp [relabelFields, Role.part, relabel_kept]

/-! Statements -/

theorem relabel_declared (vtype name : Tree) :
    relabel d .statement (Tree.var vtype name) = Tree.var (relabel d .type vtype) name := by
  rw [Tree.var, relabel_node d (by simp)]
  simp [relabelFields, Role.part, Role.inStatement, relabel_kept, Tree.var]

theorem relabel_operation (left op right : Tree) :
    relabel d .statement (Tree.binary left op right)
      = relabel d .expression (Tree.binary left op right) := by
  rw [Tree.binary, relabel_node d (by simp), relabel_node d (by simp)]
  rfl

theorem relabel_calling (name : Tree) (args : List Tree) :
    relabel d .statement (Tree.call name args) = relabel d .expression (Tree.call name args) := by
  rw [Tree.call, relabel_node d (by simp), relabel_node d (by simp)]
  rfl

theorem relabel_returned (values : List Tree) :
    relabel d .statement (Tree.returned (.list values))
      = Tree.returned (.list (values.map (relabel d .expression))) := by
  rw [Tree.returned, relabel_node d (by simp)]
  simp [relabelFields, Role.part, Role.inStatement, relabel_list, Tree.returned]

theorem relabel_forLoop (init condition update : Tree) (body : List Tree) :
    relabel d .statement (Tree.forLoop init condition update body)
      = Tree.forLoop (relabel d .statement init) (relabel d .statement condition)
          (relabel d .statement update) (body.map (relabel d .statement)) := by
  rw [Tree.forLoop, relabel_node d (by simp)]
  simp [relabelFields, Role.part, Role.inStatement, relabel_list, Tree.forLoop]

/-- A condition with its statements, renamed. -/
def relabelArm (a : Tree × List Tree) : Tree × List Tree :=
  (relabel d .expression a.1, a.2.map (relabel d .statement))

theorem relabel_branch (first : Tree × List Tree) (others : List (Tree × List Tree))
    (last : Option (List Tree)) :
    relabel d .statement (branchTree first others (endingTree last))
      = branchTree (relabelArm d first) (others.map (relabelArm d))
          (endingTree (last.map (·.map (relabel d .statement)))) := by
  have hlast : relabel d .statement (endingTree last)
      = endingTree (last.map (·.map (relabel d .statement))) := by
    cases last with
    | none => simp [endingTree, relabel]
    | some ss => exact relabel_list d (by simp) ss
  rw [branchTree, relabel_node d (by simp)]
  simp [relabelFields, Role.part, Role.inStatement, relabel_list, branchTree, relabelArm, hlast]

/-! Functions -/

theorem relabel_parameter (vtype name : Tree) :
    relabel d .parameter (.tuple [vtype, name]) = .tuple [relabel d .type vtype, name] := by
  rw [relabel]

theorem relabel_function (vtype name : Tree) (params body : List Tree) :
    relabel d .function (Tree.function vtype name params body)
      = Tree.function (relabel d .type vtype) name (params.map (relabel d .parameter))
          (body.map (relabel d .statement)) := by
  rw [Tree.function, relabel_node d (by simp)]
  simp [relabelFields, Role.part, Role.inFunction, relabel_kept, relabel_list, Tree.function]

end Equations

/-! ## §2 Texts that agree in the characters that count -/

/-- Two texts have the same characters among those that are kept. -/
def SameKept (keep : Char → Bool) (s t : Text) : Prop := s.filter keep = t.filter keep

namespace SameKept

variable {keep : Char → Bool}

@[simp] theorem refl (s : Text) : SameKept keep s s := rfl

theorem append {s s' t t' : Text} (h : SameKept keep s t) (h' : SameKept keep s' t') :
    SameKept keep (s ++ s') (t ++ t') := by
  rw [SameKept, List.filter_append, List.filter_append, h, h']

theorem cat {ss ts : List Text} (h : List.Forall₂ (SameKept keep) ss ts) :
    SameKept keep (Text.cat ss) (Text.cat ts) := by
  induction h with
  | nil => exact refl []
  | cons h _ ih => exact append h ih

theorem join {ss ts : List Text} (sep : Text) (h : List.Forall₂ (SameKept keep) ss ts) :
    SameKept keep (Text.join sep ss) (Text.join sep ts) := by
  induction h with
  | nil => exact refl _
  | @cons s t ss ts h hrest ih =>
    cases hrest with
    | nil => simpa [Text.join] using h
    | cons h' hrest =>
      simp only [Text.join, List.intercalate_cons_cons] at ih ⊢
      exact append (append h (refl sep)) ih

end SameKept

/-- What sets a dialect apart from GLSL, words aside, is lost among the characters that do not
count: the gap behind a sign and the blanks in front of a clause. -/
structure Blurs (keep : Char → Bool) (d : Dialect) : Prop where
  gap : SameKept keep d.signGap []
  lead {s t : Text} (h : SameKept keep s t) :
    SameKept keep (s.dropWhile Text.isBlank) (t.dropWhile Text.isBlank)

theorem blurs_metal : Blurs (fun _ => true) .metal where
  gap := rfl
  lead h := by
    rw [SameKept, List.filter_true, List.filter_true] at h
    rw [h]
    exact .refl _

theorem filter_dropWhile_isBlank (s : Text) :
    (s.dropWhile Text.isBlank).filter (!Text.isBlank ·) = s.filter (!Text.isBlank ·) := by
  induction s with
  | nil => rfl
  | cons c s ih => cases h : Text.isBlank c <;> simp [h, ih]

theorem blurs_hlsl : Blurs (!Text.isBlank ·) .hlsl where
  gap := by
    unfold SameKept
    decide
  lead h := by
    rw [SameKept, filter_dropWhile_isBlank, filter_dropWhile_isBlank]
    exact h

/-! ## §3 Words outside the stages -/

/-- The scope of a function outside the stages. -/
def outside (d : Dialect) (sections : Sections) : Scope := ⟨d, sections, .text "global"⟩

section Outside

variable {keep : Char → Bool} {d : Dialect} (sections sections' : Sections)

/-- Outside the stages there are no variables that a word could name. -/
theorem word_outside (t : Tree) : (outside d sections).word t = d.mapWord t := rfl

theorem mapType_relabel {t : Tree} (h : BareText t) :
    Both Eq (d.mapType t) (Dialect.glsl.mapType (relabel d .type t)) := by
  obtain ⟨o, rfl, -⟩ := h
  cases o with
  | none => cases d <;> exact .pure rfl
  | some s => exact ⟨_, _, d.mapType_text s, rfl, by simp [Tree.ofText?, relabel]⟩

theorem callName_relabel {t : Tree} (h : CalledShape t) :
    Both Eq ((outside d sections).callName t)
      ((outside .glsl sections').callName (relabel d .called t)) := by
  cases h with
  | node =>
    rw [relabel_called]
    cases d <;> exact .pure rfl
  | word h =>
    obtain ⟨o, rfl, -⟩ := h
    cases o with
    | none => cases d <;> exact .pure rfl
    | some s => exact ⟨_, _, Scope.callName_text rfl, rfl, by simp [Tree.ofText?, relabel, outside]⟩

theorem symbol_self {op : Tree} (h : BareText op) :
    Both Eq (Operator.symbol op) (Operator.symbol op) := by
  obtain ⟨symbol, hsymbol⟩ := succeeds_rename h.isKey
    (Operator.valueSymbols ++ Operator.assignSymbols)
  exact ⟨symbol, symbol, hsymbol, hsymbol, rfl⟩

/-! ## §4 Expressions -/

/-- A call is written alike if its arguments are. -/
theorem call_relabel {name : Tree} {args : List Tree} (hname : CalledShape name)
    (hargs : ∀ a ∈ args, Both (SameKept keep) (expression (outside d sections) a)
      (expression (outside .glsl sections') (relabel d .expression a))) :
    Both (SameKept keep) (expression (outside d sections) (Tree.call name args))
      (expression (outside .glsl sections') (relabel d .expression (Tree.call name args))) := by
  rw [relabel_call, expression_call, expression_call]
  apply (Both.mapM_map hargs).bind
  intro texts texts' htexts
  apply (callName_relabel sections sections' hname).bind
  rintro name _ rfl
  apply Both.pure
  apply SameKept.cat
  simp [SameKept.join, htexts]

/-- A relabelled expression is written with the same kept characters. -/
theorem expression_relabel (hd : Blurs keep d) {t : Tree} (h : ExprShape t) :
    Both (SameKept keep) (expression (outside d sections) t)
      (expression (outside .glsl sections') (relabel d .expression t)) := by
  induction h with
  | word h =>
    obtain ⟨o, rfl, -⟩ := h
    cases o with
    | none =>
      have hnone : relabel d .expression .absent = .absent := by simp [relabel]
      show Both _ (expression _ .absent) (expression _ (relabel d .expression .absent))
      rw [hnone, expression_absent, expression_absent]
      exact .pure (.refl _)
    | some s =>
      have hsome : relabel d .expression (.text s) = .text (d.renamed s) := by simp [relabel]
      show Both _ (expression _ (.text s)) (expression _ (relabel d .expression (.text s)))
      rw [hsome, expression_text, expression_text, word_outside, word_outside, d.mapWord_text]
      exact .pure (.refl _)
  | var hv _ ih =>
    rw [relabel_var, expression_var, expression_var]
    apply (mapType_relabel hv).bind
    rintro vtype _ rfl
    apply ih.bind
    intro name name' hname
    apply Both.pure
    apply SameKept.cat
    simp [hname]
  | binary _ ho _ ihl ihr =>
    rw [relabel_binary, expression_binary, expression_binary]
    apply ihl.bind
    intro left left' hleft
    apply (symbol_self ho).bind
    rintro op _ rfl
    apply ihr.bind
    intro right right' hright
    apply Both.pure
    apply SameKept.cat
    simp [hleft, hright]
  | unary ho _ ih =>
    rw [relabel_unary, expression_unary, expression_unary]
    apply (symbol_self ho).bind
    rintro op _ rfl
    apply ih.bind
    intro operand operand' hoperand
    apply Both.pure
    apply SameKept.cat
    -- This is where the gap behind a sign is lost.
    have hgap : SameKept keep d.signGap Dialect.glsl.signGap := hd.gap
    simp [outside, hgap, hoperand]
  | ternary _ _ _ ihc ihy ihn =>
    rw [relabel_ternary, expression_ternary, expression_ternary]
    apply ihc.bind
    intro condition condition' hcondition
    apply ihy.bind
    intro yes yes' hyes
    apply ihn.bind
    intro no no' hno
    apply Both.pure
    apply SameKept.cat
    simp [hcondition, hyes, hno]
  | memberOf s _ _ ih =>
    rw [relabel_memberOf, expression_memberOf, expression_memberOf]
    apply ih.bind
    intro object object' hobject
    apply Both.pure
    apply SameKept.cat
    simp [hobject]
  | call hn _ ih => exact call_relabel sections sections' (.word hn) ih

/-! ## §5 Statements -/

/-- Two lines that agree up to the semicolon at their end. -/
def SameLine (keep : Char → Bool) (x y : Text) : Prop :=
  ∃ s t, x = s ++ ";\n" ∧ y = t ++ ";\n" ∧ SameKept keep s t

theorem SameLine.sameKept {x y : Text} (h : SameLine keep x y) : SameKept keep x y := by
  obtain ⟨s, t, rfl, rfl, hst⟩ := h
  exact hst.append (.refl _)

/-- The clause of a loop header is the line from its first character on. -/
theorem clause_line (s : Text) : clause (s ++ ";\n") = s.dropWhile Text.isBlank := by
  have hend : s.dropWhile Text.isBlank ++ ";" = s.dropWhile Text.isBlank ++ [';'] := rfl
  rw [clause, Text.trim_semicolon, Text.dropEnd, hend, List.dropLast_concat]

theorem SameLine.clause (hd : Blurs keep d) {x y : Text} (h : SameLine keep x y) :
    SameKept keep (Forward.clause x) (Forward.clause y) := by
  obtain ⟨s, t, rfl, rfl, hst⟩ := h
  rw [clause_line, clause_line]
  exact hd.lead hst

theorem sameLine_of_expression {level : Int} {x y : Except Fault Text}
    (h : Both (SameKept keep) x y) :
    Both (SameLine keep) (do return Text.cat [Text.indent level, ← x, ";\n"])
      (do return Text.cat [Text.indent level, ← y, ";\n"]) := by
  apply h.bind
  intro s t hst
  apply Both.pure
  refine ⟨Text.indent level ++ s, Text.indent level ++ t, ?_, ?_, (SameKept.refl _).append hst⟩
  all_goals simp [Text.cat]

/-- A line is written alike in the dialect and, relabelled, in GLSL. -/
theorem line_relabel (hd : Blurs keep d) {t : Tree} (h : LineShape t) (level : Int) :
    Both (SameLine keep) (statement (outside d sections) level t)
      (statement (outside .glsl sections') level (relabel d .statement t)) := by
  cases h with
  | var hv name =>
    rw [relabel_declared, statement_var, statement_var]
    apply (mapType_relabel hv).bind
    rintro vtype _ rfl
    apply Both.pure
    exact ⟨Text.cat [Text.indent level, plain vtype, " ", plain name], _, by simp [Text.cat],
      by simp [Text.cat], .refl _⟩
  | binary hl ho hr =>
    rw [relabel_operation, relabel_binary, statement_binary, statement_binary, ← relabel_binary]
    exact sameLine_of_expression (expression_relabel sections sections' hd (.binary hl ho hr))
  | call hn ha =>
    rw [relabel_calling, relabel_call, statement_call, statement_call, ← relabel_call]
    apply sameLine_of_expression
    exact call_relabel sections sections' hn fun a h =>
      expression_relabel sections sections' hd (ha a h)
  | absent =>
    have habsent : relabel d .statement .absent = .absent := by simp [relabel]
    rw [habsent, statement_absent, statement_absent, expression_absent, expression_absent]
    exact sameLine_of_expression (.pure (.refl _))

/-- The statement is written alike at every level. -/
def WrittenAlike (keep : Char → Bool) (d : Dialect) (sections sections' : Sections) (t : Tree) :
    Prop :=
  ∀ level, Both (SameKept keep) (statement (outside d sections) level t)
    (statement (outside .glsl sections') level (relabel d .statement t))

theorem arm_relabel (hd : Blurs keep d) {a : Tree × List Tree} (hc : ExprShape a.1)
    (hb : ∀ s ∈ a.2, WrittenAlike keep d sections sections' s) (level : Int) :
    Both (SameKept keep) (armText (outside d sections) level a)
      (armText (outside .glsl sections') level (relabelArm d a)) := by
  apply (expression_relabel sections sections' hd hc).bind
  intro condition condition' hcondition
  apply (Both.mapM_map fun s hs => hb s hs (level + 1)).bind
  intro stmts stmts' hstmts
  apply Both.pure
  apply SameKept.cat
  simp [hcondition, SameKept.cat hstmts]

theorem ending_relabel {last : Option (List Tree)}
    (h : ∀ s ∈ last.getD [], WrittenAlike keep d sections sections' s) (level : Int) :
    Both (SameKept keep) (endingText (outside d sections) level (endingTree last))
      (endingText (outside .glsl sections') level
        (endingTree (last.map (·.map (relabel d .statement))))) := by
  cases last with
  | none => exact .pure (.refl _)
  | some ss =>
    cases ss with
    | nil => exact .pure (.refl _)
    | cons s ss =>
      show Both _ (endingText _ _ (.list (s :: ss))) (endingText _ _ (.list (_ :: List.map _ ss)))
      rw [endingText_list, endingText_list, ← List.map_cons]
      apply (Both.mapM_map fun s hs => h s hs (level + 1)).bind
      intro stmts stmts' hstmts
      apply Both.pure
      apply SameKept.cat
      simp [SameKept.cat hstmts]

/-- A relabelled statement is written with the same kept characters. -/
theorem statement_relabel (hd : Blurs keep d) {t : Tree} (h : StmtShape t) :
    WrittenAlike keep d sections sections' t := by
  induction h with
  | line h =>
    intro level
    obtain ⟨x, y, hx, hy, hxy⟩ := line_relabel sections sections' hd h level
    exact ⟨x, y, hx, hy, hxy.sameKept⟩
  | returned h =>
    intro level
    rw [relabel_returned, statement_returned, statement_returned]
    apply (Both.mapM_map fun v hv => expression_relabel sections sections' hd (h v hv)).bind
    intro values values' hvalues
    apply Both.pure
    apply SameKept.cat
    simp [SameKept.join, hvalues]
  | forLoop hi hc hu _ ih =>
    intro level
    rw [relabel_forLoop, statement_forLoop, statement_forLoop]
    -- The clauses of the header are lines, so each of them ends in a semicolon that is cut off.
    apply (line_relabel sections sections' hd hi 0).bind
    intro first first' hfirst
    apply (line_relabel sections sections' hd hc 0).bind
    intro guard guard' hguard
    apply (line_relabel sections sections' hd hu 0).bind
    intro step step' hstep
    apply (Both.mapM_map fun s hs => ih s hs (level + 1)).bind
    intro stmts stmts' hstmts
    apply Both.pure
    apply SameKept.cat
    simp [hfirst.clause hd, hguard.clause hd, hstep.clause hd, SameKept.cat hstmts]
  | branch hc _ hcs _ _ ihb ihbs ihlast =>
    intro level
    rw [relabel_branch, statement_branch, statement_branch]
    apply (arm_relabel sections sections' hd hc ihb level).bind
    intro arm arm' harm
    have hothers := fun a ha => arm_relabel sections sections' hd (hcs a ha) (ihbs a ha) level
    apply (Both.mapM_map fun a ha => (hothers a ha).bind fun s t hst =>
      Both.pure ((SameKept.refl (" else if " : Text)).append hst)).bind
    intro alternatives alternatives' halternatives
    apply (ending_relabel sections sections' ihlast level).bind
    intro ending ending' hending
    apply Both.pure
    apply SameKept.cat
    simp [harm, SameKept.cat halternatives, hending]

/-! ## §6 Functions -/

theorem param_relabel {p : Tree} (h : ParamShape p) :
    Both (SameKept keep) (paramText (outside d sections) p)
      (paramText (outside .glsl sections') (relabel d .parameter p)) := by
  obtain ⟨vtype, name, rfl, hv, -⟩ := h
  rw [relabel_parameter]
  apply (mapType_relabel hv).bind
  rintro vtype _ rfl
  exact .pure (.refl _)

theorem parameters_relabel {ps : List Tree} (h : ∀ p ∈ ps, ParamShape p) :
    Both (SameKept keep) (parameters (outside d sections) (.list ps))
      (parameters (outside .glsl sections') (.list (ps.map (relabel d .parameter)))) := by
  rw [parameters_list, parameters_list]
  apply (Both.mapM_map fun p hp => param_relabel sections sections' (h p hp)).bind
  intro texts texts' htexts
  exact .pure (.join _ htexts)

/-- A function under its own name is written alike. -/
theorem plainFunction_relabel (hd : Blurs keep d) {f : Tree} (h : FunctionShape f) :
    Both (SameKept keep) (plainFunction (outside d sections) f)
      (plainFunction (outside .glsl sections') (relabel d .function f)) := by
  obtain ⟨name, hv, -, hp, hb⟩ := h
  rw [relabel_function, plainFunction_function, plainFunction_function]
  apply Both.bind (R := SameKept keep) (parameters_relabel sections sections' hp)
  intro params params' hparams
  apply (mapType_relabel hv).bind
  rintro vtype _ rfl
  apply (Both.mapM_map fun s h => statement_relabel sections sections' hd (hb s h) 1).bind
  intro stmts stmts' hstmts
  apply Both.pure
  apply SameKept.cat
  simp [hparams, SameKept.cat hstmts]

/-- Outside the stages a function that is no entry point is written under its own name. -/
theorem function_outside {f : Tree} (h : isEntry f = .ok false) :
    function (outside d sections) f = plainFunction (outside d sections) f := by
  show sharedFunction (outside d sections) f = _
  rw [sharedFunction, h]
  cases d <;> rfl

end Outside

/-- Outside the stages, a parsed function is written in Metal as the renamed function is written in
GLSL, and in HLSL likewise up to blanks. -/
theorem function_eq_relabel {source : Text} {ts : List Token} {c c' : Cursor} {f : Tree}
    (htokens : Language.crossGl.tokenize source = .ok ts) (hc : c.rest <:+ ts)
    (hf : CrossGl.function c = .ok f c') (hname : isEntry f = .ok false)
    (sections sections' : Sections) :
    (∃ text, function ⟨.metal, sections, .text "global"⟩ f = .ok text ∧
      function ⟨.glsl, sections', .text "global"⟩ (relabel .metal .function f) = .ok text) ∧
    ∃ text text', function ⟨.hlsl, sections, .text "global"⟩ f = .ok text ∧
      function ⟨.glsl, sections', .text "global"⟩ (relabel .hlsl .function f) = .ok text' ∧
      text.filter (!Text.isBlank ·) = text'.filter (!Text.isBlank ·) := by
  have hshape : FunctionShape f :=
    (makes_function c f c' (Language.cut_of_suffix htokens hc) trivial hf).1
  constructor
  · obtain ⟨text, text', h, h', hsame⟩ :=
      plainFunction_relabel sections sections' blurs_metal hshape
    rw [SameKept, List.filter_true, List.filter_true] at hsame
    subst hsame
    exact ⟨text, (function_outside sections hname).trans h, h'⟩
  · obtain ⟨text, text', h, h', hsame⟩ := plainFunction_relabel sections sections' blurs_hlsl hshape
    exact ⟨text, text', (function_outside sections hname).trans h, h', hsame⟩

/-- A function with a type, a call and a sign. -/
def turned : Text := "vec2 turned(vec2 v) { return vec2(-v.y, v.x); }"

/-- The function as a tree. -/
def turnedTree : Tree :=
  let v (member : Text) : Tree := Tree.memberOf (.text "v") (.text member)
  let value : Tree := Tree.call (.text "vec2") [Tree.unary (.text "MINUS") (v "y"), v "x"]
  Tree.function (.text "vec2") (.text "turned") [.tuple [.text "vec2", .text "v"]]
    [Tree.returned (.list [value])]

/-- The function is one that is read, and it is written in GLSL with the types of the others. -/
theorem function_eq_relabel_turned :
    ∃ ts c, Language.crossGl.tokenize turned = .ok ts ∧
      CrossGl.function ⟨0, ts⟩ = .ok turnedTree c ∧ isEntry turnedTree = .ok false ∧
      (∃ text, function ⟨.metal, {}, .text "global"⟩ turnedTree = .ok text ∧
        function ⟨.glsl, {}, .text "global"⟩ (relabel .metal .function turnedTree) = .ok text) ∧
      ∃ text text', function ⟨.hlsl, {}, .text "global"⟩ turnedTree = .ok text ∧
        function ⟨.glsl, {}, .text "global"⟩ (relabel .hlsl .function turnedTree) = .ok text' ∧
        text.filter (!Text.isBlank ·) = text'.filter (!Text.isBlank ·) := by
  have hread : (do (Gen.outcome CrossGl.function ⟨0, ← Language.crossGl.tokenize turned⟩))
      = .ok turnedTree := by
    rw [show turned = _ from String.toList_ofList]
    decide +kernel
  cases htokens : Language.crossGl.tokenize turned with
  | error e =>
    rw [htokens] at hread
    cases hread
  | ok ts =>
    rw [htokens] at hread
    obtain ⟨c, hc⟩ := Gen.exists_of_outcome hread
    exact ⟨ts, c, rfl, hc, rfl, function_eq_relabel htokens (List.suffix_refl ts) hc rfl {} {}⟩

end Forward

end ShaderBridge
