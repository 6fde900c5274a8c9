import ShaderBridge.Proofs.Backward.Shapes
import ShaderBridge.Proofs.Backward.Statement
import ShaderBridge.Proofs.Forward.Totality

/-!
# Writing HLSL and Metal in CrossGL

Every expression and every statement that the grammars of HLSL and Metal build is written in
CrossGL, and what is written has nested brackets (`ExprShape.expressed`, `StmtShape.stated`).  An
expression has to become a text: arguments that are no texts cannot be joined.  Types are the only
texts that may be brackets; they are looked up in a table before they are written, so a bracket
among them is lost.

A whole shader is written unless one of its entry points is missing, and a missing entry point is
the only fault there is (`IsShader.generate_cases`).
-/

namespace ShaderBridge.Backward

open ShaderBridge.Parser
open ShaderBridge.Tree (Every IsBare)
open Text (Bare Nested Fills)

variable {d : Dialect}

/-! ## §1 Expressions -/

theorem types_bare (d : Dialect) : ∀ p ∈ d.types, Bare p.2 := by
  cases d <;> decide

theorem every_isBare_of_not_isSet {t : Tree} (h : ¬ t.isSet) : Every IsBare t := by
  have hself : IsBare t → (∀ u, u.Within t → u = t) → Every IsBare t :=
    fun ht hall u hu => hall u hu ▸ ht
  cases t with
  | absent | flag | number => exact hself trivial fun u hu => by cases hu; rfl
  | text s => cases s with
    | nil => exact Tree.every_text_iff.2 nofun
    | cons c s => exact absurd rfl h
  | list xs => cases xs with
    | nil => exact Tree.every_list_iff.2 ⟨trivial, nofun⟩
    | cons x xs => exact absurd rfl h
  | tuple xs => cases xs with
    | nil => exact Tree.every_tuple_iff.2 ⟨trivial, nofun⟩
    | cons x xs => exact absurd rfl h
  | node k fs => exact absurd rfl h

theorem nested_plain_word {t : Tree} (h : BareText t) : Nested (plain d t) :=
  (builds_isBare.ofText h).nested_plain d.language

/-- A type is one of the table, or nothing at all. -/
theorem yields_mapType {t : Tree} (h : t.isKey) (d : Dialect) :
    Yields (d.mapType t) fun u => Nested (plain d u) := by
  unfold Dialect.mapType
  split
  · obtain ⟨o, ho⟩ := succeeds_find h d.types
    rw [ho]
    refine .pure ?_
    cases o with
    | none => exact nested_plain_word bareText_absent
    | some s =>
      obtain ⟨w, hw⟩ := Tree.returns_find d.types t _ ho s rfl
      exact (types_bare d _ hw).nested
  · next hset => exact .pure ((every_isBare_of_not_isSet hset).nested_plain d.language)

/-- The value is written as a nested text wherever it stands: as an expression, as the target of an
assignment, and as a statement. -/
structure Expressed (d : Dialect) (t : Tree) : Prop where
  text : ∀ isMain, ∃ s, expression d isMain t = .ok (.text s) ∧ Nested s
  target : ∀ isMain, Yields (outputTarget d isMain t) fun o => ∀ s ∈ o, Nested s
  stated : ∀ isMain level, Yields (statement d isMain level t) Nested

/-- Helper: only a member can be an output. -/
theorem yields_outputTarget {t : Tree} (h : t.isNode .member = false) (isMain : Bool) :
    Yields (outputTarget d isMain t) fun o => ∀ s ∈ o, Nested s := by
  unfold outputTarget
  rw [h, Bool.and_false]
  exact .pure nofun

namespace Expressed

theorem yields {t : Tree} (h : Expressed d t) (isMain : Bool) :
    Yields (expression d isMain t) fun u => Nested (plain d u) := by
  obtain ⟨s, hs, hnested⟩ := h.text isMain
  exact ⟨.text s, hs, hnested⟩

theorem word {t : Tree} (h : BareText t) : Expressed d t := by
  have hnested : Nested (plain d t) := nested_plain_word h
  obtain ⟨o, rfl, -⟩ := h
  cases o with
  | none =>
    refine ⟨fun _ => ⟨plain d .absent, ?_, hnested⟩, yields_outputTarget rfl,
      fun _ _ => ⟨[], ?_, Text.nested_nil⟩⟩
    · rw [Tree.ofText?, expression] <;> simp
    · exact statement_absent
  | some s =>
    refine ⟨fun _ => ⟨s, expression_text d _ s, hnested⟩, yields_outputTarget rfl,
      fun _ _ => ⟨[], ?_, Text.nested_nil⟩⟩
    rw [Tree.ofText?, statement] <;> simp

theorem varNode {vtype name : Tree} (hv : vtype.isKey) (hn : BareText name) :
    Expressed d (d.varNode vtype name) := by
  obtain ⟨mapped, hmapped, hnested⟩ := yields_mapType hv d
  have hname : Nested (plain d name) := nested_plain_word hn
  have hdeclared : Yields (declared d vtype name) Nested := by
    unfold declared
    split
    · exact .pure Text.nested_nil
    · rw [hmapped]
      exact .pure ((Fills.nested hnested (.fixed _ (.nested hname (.fixed _ .done)))).nested_cat
        (by decide))
  have htext : Nested (Text.cat [plain d mapped, " ", plain d name]) :=
    (Fills.nested hnested (.fixed _ (.nested hname .done))).nested_cat (by decide)
  -- The dialects differ in what a variable carries behind its name, which is not written.
  cases d with
  | hlsl =>
    refine ⟨fun isMain => ⟨_, ?_, htext⟩, yields_outputTarget rfl, fun isMain level => ?_⟩
    · rw [Dialect.varNode, Hlsl.var, expression_semanticVar, hmapped]
      rfl
    · rw [Dialect.varNode, Hlsl.var, statement_semanticVar]
      exact hdeclared
  | metal =>
    refine ⟨fun isMain => ⟨_, ?_, htext⟩, yields_outputTarget rfl, fun isMain level => ?_⟩
    · rw [Dialect.varNode, Metal.var, expression_attributedVar, hmapped]
      rfl
    · rw [Dialect.varNode, Metal.var, statement_attributedVar]
      exact hdeclared

theorem binary {left op right : Tree} (hl : Expressed d left) (ho : BareText op)
    (hr : Expressed d right) : Expressed d (Tree.binary left op right) := by
  have hop : Nested (plain d op) := nested_plain_word ho
  refine ⟨fun isMain => ?_, yields_outputTarget rfl, fun isMain level => ?_⟩
  · obtain ⟨l, hl, hnl⟩ := hl.text isMain
    obtain ⟨r, hr, hnr⟩ := hr.text isMain
    rw [expression_binary, hl, hr]
    exact ⟨_, rfl, (Fills.nested hnl (.fixed _ (.nested hop (.fixed _ (.nested hnr
      .done))))).nested_cat (by decide)⟩
  · rw [statement_binary]
    apply (hl.yields isMain).bind
    intro l hnl
    apply (hr.yields isMain).bind
    intro r hnr
    refine .pure ?_
    exact (Fills.nested hnl (.fixed _ (.nested hop (.fixed _ (.nested hnr (.fixed _
      .done)))))).nested_cat (by decide)

theorem unary {op operand : Tree} (ho : BareText op) (h : Expressed d operand) :
    Expressed d (Tree.unary op operand) := by
  have hop : Nested (plain d op) := nested_plain_word ho
  refine ⟨fun isMain => ?_, yields_outputTarget rfl, fun isMain level => ⟨[], ?_, Text.nested_nil⟩⟩
  · obtain ⟨e, he, hne⟩ := h.text isMain
    rw [expression_unary, he]
    refine ⟨_, rfl, ?_⟩
    cases d <;>
      exact (Fills.fixed _ (.nested hop (.nested hne (.fixed _ .done)))).nested_cat (by decide)
  · exact statement_unwritten _ (by decide)

theorem ternary {c yes no : Tree} (hc : Expressed d c) (hy : Expressed d yes)
    (hn : Expressed d no) : Expressed d (Tree.ternary c yes no) := by
  refine ⟨fun isMain => ?_, yields_outputTarget rfl, fun isMain level => ⟨[], ?_, Text.nested_nil⟩⟩
  · obtain ⟨_, hc, hnc⟩ := hc.text isMain
    obtain ⟨_, hy, hny⟩ := hy.text isMain
    obtain ⟨_, hn, hnn⟩ := hn.text isMain
    rw [expression_ternary, hc, hy, hn]
    exact ⟨_, rfl, (Fills.nested hnc (.fixed _ (.nested hny (.fixed _ (.nested hnn
      .done))))).nested_cat (by decide)⟩
  · exact statement_unwritten _ (by decide)

/-- The member has to be a text, since it may be all that is written. -/
theorem memberOf {object : Tree} {s : Text} (h : Expressed d object) (hs : Bare s) :
    Expressed d (Tree.memberOf object (.text s)) := by
  refine ⟨fun isMain => ?_, fun isMain => ?_, fun isMain level => ⟨[], ?_, Text.nested_nil⟩⟩
  -- Of a member of `input` or `output` only the name is written.
  · obtain ⟨o, ho, hno⟩ := h.text false
    rw [expression_memberOf, ho]
    show ∃ t, (if ((Tree.text o).isText "output" || (Tree.text o).isText "input") then
        pure (Tree.text s)
      else pure (Tree.text (Text.cat [o, ".", s])) : Except Fault Tree) = .ok (.text t) ∧ Nested t
    split
    · exact ⟨s, rfl, hs.nested⟩
    · exact ⟨_, rfl, (Fills.nested hno (.fixed _ (.nested hs.nested .done))).nested_cat (by decide)⟩
  -- As a target, a member of `output` in an entry point is the output itself.
  · cases isMain with
    | false => exact .pure nofun
    | true =>
      show Yields (if object.isText "output" then _ else _) _
      split
      · show Yields (if (Tree.text s).isText "position" then _ else _) _
        split
        · refine .pure ?_
          rintro _ ⟨⟩
          decide
        · refine .pure ?_
          rintro _ ⟨⟩
          exact hs.nested
      · exact .pure nofun
  · exact statement_unwritten _ (by decide)

theorem exists_joined {args : List Tree} (h : ∀ a ∈ args, Expressed d a) (isMain : Bool) :
    ∃ texts : List Text, args.mapM (expression d isMain) = .ok (texts.map .text) ∧
      ∀ s ∈ texts, Nested s := by
  induction args with
  | nil => exact ⟨[], rfl, nofun⟩
  | cons a args ih =>
    obtain ⟨ha, hargs⟩ := List.forall_mem_cons.1 h
    obtain ⟨s, hs, hnested⟩ := ha.text isMain
    obtain ⟨texts, htexts, hall⟩ := ih hargs
    refine ⟨s :: texts, ?_, List.forall_mem_cons.2 ⟨hnested, hall⟩⟩
    rw [List.mapM_cons, hs, htexts]
    rfl

theorem nested_applied {lead : Text} (hlead : Nested lead) {texts : List Text}
    (h : ∀ s ∈ texts, Nested s) : Nested (Text.cat [lead, "(", Text.join ", " texts, ")"]) :=
  (Fills.nested hlead (.fixed _ (.nested (Text.nested_join (by decide) h) (.fixed _
    .done)))).nested_cat (by decide)

theorem call {name : Tree} {args : List Tree} (hn : BareText name)
    (h : ∀ a ∈ args, Expressed d a) : Expressed d (Tree.call name args) := by
  refine ⟨fun isMain => ?_, yields_outputTarget rfl, fun isMain level => ⟨[], ?_, Text.nested_nil⟩⟩
  · obtain ⟨texts, htexts, hall⟩ := exists_joined h isMain
    refine ⟨_, ?_, nested_applied (nested_plain_word (d := d) hn) hall⟩
    rw [expression_call, htexts]
    show (joinTexts (texts.map .text) >>= fun _ => _) = _
    rw [joinTexts_map_text]
    rfl
  · exact statement_unwritten _ (by decide)

theorem construction {typeName : Tree} {args : List Tree} (ht : typeName.isKey)
    (h : ∀ a ∈ args, Expressed d a) : Expressed d (Tree.construction typeName args) := by
  refine ⟨fun isMain => ?_, yields_outputTarget rfl, fun isMain level => ⟨[], ?_, Text.nested_nil⟩⟩
  · obtain ⟨texts, htexts, hall⟩ := exists_joined h isMain
    obtain ⟨mapped, hmapped, hnested⟩ := yields_mapType ht d
    refine ⟨_, ?_, nested_applied hnested hall⟩
    rw [expression_construction, htexts]
    show (joinTexts (texts.map .text) >>= fun _ => _) = _
    rw [joinTexts_map_text, hmapped]
    rfl
  · exact statement_unwritten _ (by decide)

/-- An assignment is written if both of its sides are. -/
theorem assignmentBy {left right operator : Tree} (hl : Expressed d left)
    (hr : Expressed d right) (ho : BareText operator) :
    Expressed d (Tree.assignmentBy left right operator) := by
  -- The operator is dropped here; HLSL writes it within an expression.
  have hassign : ∀ isMain,
      Yields (assignment d isMain (Tree.assignmentBy left right operator)) Nested := by
    intro isMain
    rw [assignment_assignmentBy]
    apply (hl.yields isMain).bind
    intro l hnl
    apply (hr.yields isMain).bind
    intro r hnr
    apply (hl.target isMain).bind
    intro target htarget
    refine .pure ?_
    have hleft : Nested (target.getD (plain d l)) := by
      cases target with
      | none => exact hnl
      | some s => exact htarget s rfl
    exact (Fills.nested hleft (.fixed _ (.nested hnr .done))).nested_cat (by decide)
  refine ⟨fun isMain => ?_, yields_outputTarget rfl, fun isMain level => ?_⟩
  · cases d with
    | hlsl =>
      obtain ⟨l, hl, hnl⟩ := hl.text isMain
      obtain ⟨r, hr, hnr⟩ := hr.text isMain
      rw [expression_assignmentBy_hlsl, hl, hr]
      exact ⟨_, rfl, (Fills.nested hnl (.fixed _ (.nested (nested_plain_word ho) (.fixed _
        (.nested hnr .done))))).nested_cat (by decide)⟩
    | metal =>
      obtain ⟨s, hs, hnested⟩ := hassign isMain
      rw [expression_assignmentBy_metal, hs]
      exact ⟨s, rfl, hnested⟩
  · rw [statement_assignmentBy]
    apply (hassign isMain).bind
    intro _ hs
    exact .pure (hs.append (by decide))

end Expressed

theorem ExprShape.expressed {t : Tree} (h : ExprShape d t) : Expressed d t := by
  induction h with
  | word h => exact .word h
  | var hv hn => exact .varNode hv.isKey hn
  | binary _ ho _ ihl ihr => exact .binary ihl ho ihr
  | unary ho _ ih => exact .unary ho ih
  | ternary _ _ _ ihc ihy ihn => exact .ternary ihc ihy ihn
  | memberOf s _ hs ih => exact .memberOf ih hs
  | call hn _ ih => exact .call hn ih
  | construction ht _ ih => exact .construction ht.isKey ih
  | assignment _ _ ho ihl ihr => exact .assignmentBy ihl ihr ho

/-! ## §2 Statements -/

/-- The value is written as a nested statement. -/
def Stated (d : Dialect) (t : Tree) : Prop :=
  ∀ isMain level, Yields (statement d isMain level t) Nested

theorem yields_body {ss : List Tree} (h : ∀ s ∈ ss, Stated d s) (isMain : Bool) (level : Int) :
    Yields (body d isMain (.ok level) (.list ss)) Nested := by
  rw [body_list]
  refine (Yields.mapM (Q := Nested) fun s hs => ?_).bind fun _ hall => .pure (Text.nested_cat hall)
  apply (h s hs isMain level).bind
  intro _ ht
  exact .pure ((Text.nested_indent level).append ht)

theorem nested_guarded {c inner : Text} (level : Int) {lead : Text}
    (hlead : Nested (lead ++ r") {" ++ "\n" ++ r"}")) (hc : Nested c) (hinner : Nested inner) :
    Nested (Text.cat [lead, c, r") {", "\n", inner, Text.indent level, r"}"]) :=
  (Fills.fixed _ (.nested hc (.fixed _ (.fixed _ (.nested hinner (.nested (Text.nested_indent level)
    (.fixed _ .done))))))).nested_cat (by simpa [Text.cat] using hlead)

theorem yields_last {ss : List Tree} (h : ∀ s ∈ ss, Stated d s) (isMain : Bool) (level : Int) :
    Yields (do
      let inner ← body d isMain (.ok (level + 1)) (.list ss)
      return Text.cat [r" else {", "\n", inner, Text.indent level, r"}"]) Nested := by
  apply (yields_body h isMain _).bind
  intro _ hinner
  exact .pure <| (Fills.fixed _ (.fixed _
    (.nested hinner (.nested (Text.nested_indent level) (.fixed _ .done))))).nested_cat (by decide)

namespace Stated

theorem returned {value : Tree} (h : Expressed d value) : Stated d (Tree.returned value) := by
  intro isMain level
  rw [statement_returned]
  split
  · exact .ok Text.nested_nil
  · apply (h.yields isMain).bind
    intro _ hv
    exact .pure ((Fills.fixed _ (.nested hv (.fixed _ .done))).nested_cat (by decide))

theorem forLoop {init condition update : Tree} {ss : List Tree} (hi : Expressed d init)
    (hc : Expressed d condition) (hu : Expressed d update) (hs : ∀ s ∈ ss, Stated d s) :
    Stated d (Tree.forLoop init condition update ss) := by
  intro isMain level
  rw [statement_forLoop]
  apply (hi.yields isMain).bind
  intro _ hni
  apply (hc.yields isMain).bind
  intro _ hnc
  apply (hu.yields isMain).bind
  intro _ hnu
  apply (yields_body hs isMain _).bind
  intro _ hinner
  refine .pure ?_
  exact (Fills.fixed _ (.nested hni (.fixed _ (.nested hnc (.fixed _ (.nested hnu (.fixed _
    (.fixed _ (.nested hinner (.nested (Text.nested_indent level) (.fixed _ (.fixed _
      .done)))))))))))).nested_cat (by decide)

theorem branch {condition elseBody : Tree} {ss : List Tree} (hc : Expressed .hlsl condition)
    (hs : ∀ s ∈ ss, Stated .hlsl s)
    (he : ∀ isMain level, Yields (alternative isMain level elseBody) Nested) :
    Stated .hlsl (Tree.branch condition ss elseBody) := by
  intro isMain level
  rw [Tree.branch, statement_branch, ← Tree.branch, branch_hlsl]
  have harm : Yields (armText isMain level condition ss) Nested :=
    (hc.yields isMain).bind fun _ hnc => (yields_body hs isMain _).bind fun _ hinner =>
      .pure (nested_guarded level (by decide) hnc hinner)
  apply harm.bind
  intro _ hna
  apply (he isMain level).bind
  intro _ hnl
  refine .pure ?_
  exact (Fills.fixed _ (.nested hna (.nested hnl (.fixed _ .done)))).nested_cat (by decide)

theorem yields_chain {arms : List (Tree × List Tree)} (hc : ∀ a ∈ arms, Expressed .metal a.1)
    (hs : ∀ a ∈ arms, ∀ s ∈ a.2, Stated .metal s) (isMain : Bool) (level : Int) {lead : Text}
    (hlead : Nested (lead ++ r") {" ++ "\n" ++ r"}")) :
    Yields (chain .metal isMain (.ok level) lead (.list (arms.map guardTree))) Nested := by
  rw [chain_list]
  refine (Yields.mapM (Q := Nested) fun p hp => ?_).bind fun _ hall => .pure (Text.nested_cat hall)
  obtain ⟨a, ha, rfl⟩ := List.mem_map.1 hp
  rw [guardTree, guardedText_tuple]
  apply ((hc a ha).yields isMain).bind
  intro _ hnc
  apply (yields_body (hs a ha) isMain _).bind
  intro _ hinner
  exact .pure (nested_guarded level hlead hnc hinner)

end Stated

/-- Every statement that is built can be written. -/
theorem StmtShape.stated {t : Tree} (h : StmtShape d t) : Stated d t := by
  induction h with
  | plain h => exact h.expressed.stated
  | returned h => exact .returned h.expressed
  | forLoop hi hc hu _ ih => exact .forLoop hi.expressed hc.expressed hu.expressed ih
  | @branch _ _ last hc _ _ ihb ihl =>
    refine .branch hc.expressed ihb fun isMain level => ?_
    match last with
    | none | some [] => exact .pure Text.nested_nil
    | some (_ :: _) => exact yields_last ihl isMain level
  -- The next branch is written by the recursion and follows the word.
  | elseIf hc _ _ ihb ihn =>
    refine .branch hc.expressed ihb fun isMain level => ?_
    have hinner := ihn isMain level
    rw [statement_branch] at hinner
    have hlead : Nested " else " := by decide
    apply hinner.bind
    intro _ hs
    exact .pure (hlead.append hs)
  | @chains _ _ last hi _ he _ _ ihi ihe ihl =>
    intro isMain level
    rw [chainTree, statement_branch, branch_metal]
    refine (Stated.yields_chain (fun a ha => (hi a ha).expressed) ihi isMain level
      (by decide)).bind fun _ hfirst => ?_
    refine (Stated.yields_chain (fun a ha => (he a ha).expressed) ihe isMain level
      (by decide)).bind fun _ hothers => Yields.bind (P := Nested) ?_ fun _ hlast => .pure ?_
    · match last with
      | none | some [] => exact .pure Text.nested_nil
      | some (_ :: _) => exact yields_last ihl isMain level
    · exact (Fills.nested hfirst (.nested hothers (.nested hlast (.fixed _ .done)))).nested_cat
        (by decide)

theorem AreStmts.stated {ss : List Tree} (h : AreStmts d ss) : ∀ s ∈ ss, Stated d s :=
  fun s hs => (h s hs).stated

/-! ## §3 Functions -/

namespace IsFunction

variable {f : Tree}

/-- A function is written, and its brackets nest. -/
theorem yields_function (h : IsFunction d f) : Yields (function d f) Nested := by
  obtain ⟨ps, hps, hvars⟩ := h.params
  obtain ⟨vtype, hvtype, hkey⟩ := h.returnType
  obtain ⟨name, hname, hbare⟩ := h.name
  obtain ⟨ss, hss, hstmts⟩ := h.body
  unfold function
  rw [hps, hvtype, hname, hss]
  show Yields (ps.mapM _ >>= fun _ => _) _
  -- First the parameters, then the head and the body around them.
  refine Yields.bind (Yields.mapM (Q := Nested) fun p hp => ?_) fun params hparams => ?_
  · obtain ⟨vtype, name, hvtype, hname, hkey, hbare⟩ := hvars p hp
    rw [hvtype, hname]
    apply (yields_mapType hkey d).bind
    intro u hu
    refine .pure ?_
    exact (Fills.nested hu (.fixed _ (.nested (nested_plain_word hbare) .done))).nested_cat
      (by decide)
  · apply (yields_mapType hkey d).bind
    intro u hu
    apply (yields_body hstmts.stated false 2).bind
    intro inner hinner
    refine .pure ?_
    have hjoined : Nested (Text.join ", " params) := Text.nested_join (by decide) hparams
    exact (Fills.fixed _ (.nested hu (.fixed _ (.nested (nested_plain_word hbare) (.fixed _
      (.nested hjoined (.fixed _ (.fixed _ (.nested hinner (.fixed _ (.fixed _
        .done))))))))))).nested_cat (by decide)

theorem yields_entryPoint (h : IsFunction d f) : Yields (entryPoint d f) Nested := by
  obtain ⟨ss, hss, hstmts⟩ := h.body
  unfold entryPoint
  rw [hss]
  apply (yields_body hstmts.stated true 3).bind
  intro _ hinner
  exact .pure
    ((Fills.fixed _ (.fixed _ (.nested hinner (.fixed _ (.fixed _ .done))))).nested_cat (by decide))

end IsFunction

/-- The field that an entry point is known by. -/
def Dialect.entryField : Dialect → Field
  | .hlsl => .name
  | .metal => .qualifier

/-- What stands in that field of the entry point of a stage. -/
def Dialect.entryWord : Dialect → Stage → Text
  | .hlsl, .vertex => "VSMain"
  | .hlsl, .fragment => "PSMain"
  | .metal, stage => stage.label

/-- A function is the entry point of a stage. -/
def IsEntry (d : Dialect) (stage : Stage) (t : Tree) : Prop :=
  t.isNode .function ∧ t.get d.entryField = .ok (.text (d.entryWord stage))

/-- Helper: a value is a text exactly if it compares as one. -/
theorem isText_iff {s : Text} {t : Tree} : t.isText s ↔ t = .text s := by
  cases t <;> simp [Tree.isText]

/-- The text of an item in front of the sections. -/
def helperText (d : Dialect) (t : Tree) : Except Fault Text := do
  if ← isHelper d t then function d t else return []

namespace IsItem

variable {t : Tree}

/-- Whether an item is the entry point of a stage can always be told. -/
theorem isEntryOf_cases (h : IsItem d t) (stage : Stage) :
    (isEntryOf d stage t = .ok true ∧ IsEntry d stage t) ∨
      (isEntryOf d stage t = .ok false ∧ ¬ IsEntry d stage t) := by
  -- It is told by one field: the name in HLSL, the qualifier in Metal.
  have htold : ∀ value : Tree, t.isNode .function → t.get d.entryField = .ok value →
      isEntryOf d stage t = .ok (value.isText (d.entryWord stage)) →
      (isEntryOf d stage t = .ok true ∧ IsEntry d stage t) ∨
        (isEntryOf d stage t = .ok false ∧ ¬ IsEntry d stage t) := by
    intro value hnode hvalue hentry
    cases hword : value.isText (d.entryWord stage) with
    | true => exact .inl ⟨hword ▸ hentry, hnode, by rw [hvalue, isText_iff.1 hword]⟩
    | false =>
      refine .inr ⟨hword ▸ hentry, fun hisEntry => ?_⟩
      have hsame := hvalue.symm.trans hisEntry.2
      cases hsame
      simp [Tree.isText] at hword
  rcases h with h | ⟨rfl, hother⟩
  · cases d with
    | hlsl =>
      obtain ⟨name, hname, -⟩ := h.name
      refine htold name h.isNode hname ?_
      unfold isEntryOf
      rw [hname]
      cases stage <;> rfl
    | metal =>
      obtain ⟨q, hq⟩ := h.qualifier rfl
      refine htold q h.isNode hq ?_
      rw [isEntryOf, if_pos h.isNode, hq]
      rfl
  · refine .inr ⟨?_, fun hisEntry => ?_⟩
    · rw [isEntryOf, hother]
      rfl
    · exact absurd hisEntry.1 (by simp [hother])

theorem yields_helperText (h : IsItem d t) : Yields (helperText d t) Nested := by
  unfold helperText
  rcases h with h | ⟨rfl, hother⟩
  · have hhelper : Yields (isHelper d t) fun _ => True := by
      cases d with
      | hlsl =>
        obtain ⟨name, hname, -⟩ := h.name
        rw [isHelper, hname]
        exact .pure trivial
      | metal =>
        obtain ⟨q, hq⟩ := h.qualifier rfl
        rw [isHelper, if_pos h.isNode, hq]
        exact .pure trivial
    apply hhelper.bind
    intro b _
    cases b with
    | true => exact h.yields_function
    | false => exact .pure Text.nested_nil
  · rw [isHelper, hother]
    exact .pure Text.nested_nil

end IsItem

/-! ## §4 Shaders -/

/-- An entry point is found exactly if there is one. -/
theorem findEntry_cases {fs : List Tree} (h : ∀ f ∈ fs, IsItem d f) (stage : Stage) :
    (∃ f ∈ fs, IsEntry d stage f ∧ findEntry d stage fs = .ok f) ∨
      ((∀ f ∈ fs, ¬ IsEntry d stage f) ∧ findEntry d stage fs = .error .noEntryPoint) := by
  induction fs with
  | nil => exact .inr ⟨by simp, rfl⟩
  | cons f fs ih =>
    obtain ⟨hf, hfs⟩ := List.forall_mem_cons.1 h
    rcases hf.isEntryOf_cases stage with ⟨htrue, hentry⟩ | ⟨hfalse, hno⟩
    · refine .inl ⟨f, List.mem_cons_self, hentry, ?_⟩
      rw [findEntry, htrue]
      rfl
    · have hstep : findEntry d stage (f :: fs) = findEntry d stage fs := by
        rw [findEntry, hfalse]
        rfl
      rw [hstep]
      rcases ih hfs with ⟨g, hg, hentry, hfound⟩ | ⟨hnone, hfound⟩
      · exact .inl ⟨g, List.mem_cons_of_mem f hg, hentry, hfound⟩
      · exact .inr ⟨List.forall_mem_cons.2 ⟨hno, hnone⟩, hfound⟩

/-- What a section opens with. -/
def title : Stage → Text
  | .vertex => Text.cat ["    // Vertex Shader\n", r"    vertex {", "\n"]
  | .fragment => Text.cat ["    // Fragment Shader\n", r"    fragment {", "\n"]

/-- A member is declared, and behind a nested word in a nested text. -/
def IsDeclared (d : Dialect) (v : Tree × Tree) : Prop :=
  ∀ word, Yields (declaration d word v) fun line => Nested word → Nested line

/-- Everything that was collected can be declared. -/
def State.Ready (d : Dialect) (s : State) : Prop := ∀ q, ∀ v ∈ s.side q, IsDeclared d v

theorem State.ready_empty : State.Ready d {} := by
  rintro ⟨_ | _, _ | _⟩ v hv <;> cases hv

theorem yields_declarations {s : State} (h : s.Ready d) (stage : Stage) :
    Yields (declarations d s (.text stage.label)) Nested := by
  have hof : Stage.of? (.text stage.label) = some stage := by cases stage <;> rfl
  unfold declarations
  rw [hof]
  have hside : ∀ (q : Channel) {word : Text}, Nested word →
      Yields ((s.side q).mapM (declaration d word)) fun lines => ∀ line ∈ lines, Nested line :=
    fun q _ hword => .mapM fun v hv => (h q v hv _).mono fun _ hline => hline hword
  refine (hside ⟨stage, false⟩ (by decide)).bind fun ins hins => ?_
  refine (hside ⟨stage, true⟩ (by decide)).bind fun outs houts => ?_
  refine .pure (Text.nested_cat fun t ht => ?_).trimEnd
  rcases List.mem_append.1 ht with ht | ht
  · exact hins t ht
  · exact houts t ht

/-- A section of a stage is written just if there is an entry point. -/
theorem stageSection_cases {s : State} (hs : s.Ready d) {fs : List Tree}
    (h : ∀ f ∈ fs, IsItem d f) (stage : Stage) :
    ((∃ f ∈ fs, IsEntry d stage f) ∧ Yields (stageSection d s stage fs) Nested) ∨
      ((∀ f ∈ fs, ¬ IsEntry d stage f) ∧ stageSection d s stage fs = .error .noEntryPoint) := by
  obtain ⟨interface, hinterface, hdeclared⟩ := yields_declarations hs stage
  rcases findEntry_cases h stage with ⟨f, hf, hentry, hfound⟩ | ⟨hnone, hfound⟩
  · refine .inl ⟨⟨f, hf, hentry⟩, ?_⟩
    have hwritten : Yields (entryPoint d f) Nested := by
      rcases h f hf with hfunction | ⟨rfl, hother⟩
      · exact hfunction.yields_entryPoint
      · exact absurd hentry.1 (by simp [hother])
    have hsection : ∀ entry, Nested entry →
        Nested (Text.cat [title stage, interface, "\n", entry, r"    }", "\n"]) := by
      intro entry hnested
      cases stage <;>
        exact (Fills.fixed _ (.nested hdeclared (.fixed _ (.nested hnested (.fixed _ (.fixed _
          .done)))))).nested_cat (by decide)
    unfold stageSection
    dsimp only
    rw [hinterface, hfound]
    cases d with
    | hlsl => exact hwritten.bind fun entry hentry => .pure (hsection entry hentry)
    | metal => exact hwritten.bind fun entry hentry => .pure (hsection entry hentry)
  · refine .inr ⟨hnone, ?_⟩
    unfold stageSection
    dsimp only
    rw [hinterface, hfound]
    cases d <;> rfl

/-- A source of which every item can be written. -/
structure IsShader (d : Dialect) (t : Tree) : Prop where
  items : ∃ fs, t.get .functions = .ok (.list fs) ∧ ∀ f ∈ fs, IsItem d f
  collected : Gen.Keeps (State.Ready d) (collect d t)

/-- A source has an entry point for a stage. -/
def Defines (d : Dialect) (stage : Stage) (t : Tree) : Prop :=
  ∃ fs, t.get .functions = .ok (.list fs) ∧ ∃ f ∈ fs, IsEntry d stage f

/-- What a shader opens with. -/
def opening : Dialect → Text
  | .hlsl => Text.cat [r"shader main {", "\n"]
  | .metal => Text.cat [r"shader main {", "\n \n"]

namespace IsShader

variable {t : Tree}

theorem defines_iff {fs : List Tree} (hfs : t.get .functions = .ok (.list fs)) (stage : Stage) :
    Defines d stage t ↔ ∃ f ∈ fs, IsEntry d stage f := by
  constructor
  · rintro ⟨gs, hgs, hentry⟩
    cases hfs.symm.trans hgs
    exact hentry
  · exact fun hentry => ⟨fs, hfs, hentry⟩

/-- Behind its helper functions a shader has its two sections. -/
theorem exists_shaderText (h : IsShader d t) {fs : List Tree}
    (hfs : t.get .functions = .ok (.list fs)) :
    ∃ helpers : Text, Nested helpers ∧ ∀ s, shaderText d s t = do
      let vertex ← stageSection d s .vertex fs
      let fragment ← stageSection d s .fragment fs
      return Text.cat [opening d, helpers, vertex, "\n", fragment, r"}", "\n"] := by
  obtain ⟨gs, hgs, hitems⟩ := h.items
  cases hfs.symm.trans hgs
  obtain ⟨helpers, hhelpers, hnested⟩ :
      Yields (fs.mapM (helperText d)) fun ss => ∀ s ∈ ss, Nested s :=
    .mapM fun f hf => (hitems f hf).yields_helperText
  refine ⟨Text.cat helpers, Text.nested_cat hnested, fun s => ?_⟩
  unfold shaderText
  rw [hfs]
  show (fs.mapM (helperText d) >>= fun _ => _) = _
  rw [hhelpers]
  cases d <;> rfl

/-- The text is written in exactly the shaders that define both entry points. -/
theorem shaderText_cases (h : IsShader d t) {s : State} (hs : s.Ready d) :
    (Defines d .vertex t ∧ Defines d .fragment t ∧ Yields (shaderText d s t) Nested) ∨
      (¬ (Defines d .vertex t ∧ Defines d .fragment t) ∧
        shaderText d s t = .error .noEntryPoint) := by
  obtain ⟨fs, hfs, hitems⟩ := h.items
  obtain ⟨helpers, hhelpers, htext⟩ := h.exists_shaderText hfs
  rw [htext, defines_iff hfs, defines_iff hfs]
  -- The vertices come first: their missing entry point hides whatever the fragments lack.
  rcases stageSection_cases hs hitems .vertex with ⟨hv, vertex, hvertex, hnv⟩ | ⟨hv, hvertex⟩
  · rcases stageSection_cases hs hitems .fragment with
      ⟨hf, fragment, hfragment, hnf⟩ | ⟨hf, hfragment⟩
    · refine .inl ⟨hv, hf, ?_⟩
      rw [hvertex, hfragment]
      refine .pure ?_
      cases d <;>
        exact (Fills.fixed _ (.nested hhelpers (.nested hnv (.fixed _ (.nested hnf (.fixed _
          (.fixed _ .done))))))).nested_cat (by decide)
    · refine .inr ⟨fun ⟨_, f, hmem, hentry⟩ => hf f hmem hentry, ?_⟩
      rw [hvertex, hfragment]
      rfl
  · refine .inr ⟨fun ⟨⟨f, hmem, hentry⟩, _⟩ => hv f hmem hentry, ?_⟩
    rw [hvertex]
    rfl

theorem generate_cases (h : IsShader d t) :
    (Defines d .vertex t ∧ Defines d .fragment t ∧ Yields ((Route.backward d).generate t) Nested) ∨
      (¬ (Defines d .vertex t ∧ Defines d .fragment t) ∧
        (Route.backward d).generate t = .error .noEntryPoint) := by
  obtain ⟨_, s, hrun, hs⟩ := h.collected {} State.ready_empty
  have houtcome : (Route.backward d).generate t = shaderText d s t :=
    (Gen.outcome_bind_of_ok hrun).trans (Gen.outcome_lift (shaderText d s t))
  rw [houtcome]
  exact h.shaderText_cases hs

end IsShader

/-! ## §5 Collecting -/

open Gen

/-- A structure that is collected for a side of a stage. -/
def Collects (t : Tree) (p : Channel) (struct : Tree) : Dialect → Prop
  | .hlsl => ∃ f, (f, p) ∈ structFields ∧ t.get f = .ok struct ∧ struct.isSet
  | .metal => ∃ fs name, t.get .functions = .ok (.list fs) ∧ struct ∈ fs ∧ struct.isNode .struct ∧
      (name, p) ∈ structNames ∧ struct.get .name = .ok (.text name)

theorem State.Ready.add {s : State} (h : s.Ready d) (p : Channel) {v : Tree × Tree}
    (hv : IsDeclared d v) : (s.add p v).Ready d := by
  intro q w hw
  rw [State.side_add] at hw
  split at hw
  · rcases List.mem_append.1 hw with hw | hw
    · exact h q w hw
    · rw [List.mem_singleton.1 hw]
      exact hv
  · exact h q w hw

/-- A member can be declared once it is collected. -/
theorem IsVariable.exists_member {t : Tree} (h : IsVariable t) (d : Dialect) :
    ∃ v, member d t = .ok v ∧ IsDeclared d v := by
  obtain ⟨vtype, name, hvtype, hname, hkey, hbare⟩ := h
  have hdeclared : ∀ word u, Nested word → Nested (plain d u) →
      Nested (Text.cat ["        ", word, " ", plain d u, " ", plain d name, ";\n"]) := by
    intro word u hword hu
    exact (Fills.fixed _ (.nested hword (.fixed _ (.nested hu (.fixed _ (.nested
      (nested_plain_word hbare) (.fixed _ .done))))))).nested_cat (by decide)
  obtain ⟨mapped, hmapped, hnested⟩ := yields_mapType hkey d
  unfold member IsDeclared declaration
  rw [hvtype, hname]
  cases d with
  | hlsl =>
    refine ⟨(vtype, name), rfl, fun word => ?_⟩
    apply (yields_mapType hkey .hlsl).bind
    intro _ hu
    refine .pure fun hword => ?_
    exact hdeclared word _ hword hu
  | metal =>
    refine ⟨(mapped, name), ?_, fun word => .pure fun hword => hdeclared word _ hword hnested⟩
    show (Dialect.mapType .metal vtype >>= fun _ => _) = _
    rw [hmapped]
    rfl

/-- Taking up the members of a struct keeps the state ready. -/
theorem keeps_collectMembers {p : Channel} {struct : Tree} {ms : List Tree}
    (hms : struct.get .members = .ok (.list ms)) (h : ∀ m ∈ ms, IsVariable m) :
    Keeps (State.Ready d) (collectMembers d p struct) := by
  have hitems : (do (← struct.get .members).items : Except Fault (List Tree)) = .ok ms := by
    rw [hms]
    rfl
  refine Keeps.bind_lift hitems (Keeps.forM fun m hm => ?_)
  obtain ⟨v, hv, hdeclared⟩ := (h m hm).exists_member d
  obtain ⟨_, name, _, hname, _⟩ := h m hm
  have hadd : Keeps (State.Ready d) (do
      let v ← (member d m : Except Fault _)
      modify (·.add p v)) :=
    Keeps.bind_lift hv (.modify fun s hs => hs.add p hdeclared)
  -- The position is passed over, and nothing is added then.
  have hunless : ∀ isPosition : Bool, Keeps (State.Ready d) (do
      if !isPosition then
        let v ← (member d m : Except Fault _)
        modify (·.add p v)) := by
    intro isPosition
    cases isPosition with
    | true => exact .pure ()
    | false => exact hadd
  dsimp only
  split
  · exact Keeps.bind_lift hname (hunless _)
  · exact hunless false

theorem IsStruct.keeps_collectMembers {t : Tree} (h : IsStruct t) (p : Channel) :
    Keeps (State.Ready d) (collectMembers d p t) := by
  obtain ⟨name, ms, rfl, hms⟩ := h
  exact Backward.keeps_collectMembers rfl hms

/-- Every source that is read can be written. -/
theorem ShaderShape.isShader {t : Tree} (h : ShaderShape d t) : IsShader d t := by
  refine ⟨h.items, ?_⟩
  cases d with
  | hlsl =>
    refine Keeps.forM fun x hx => ?_
    obtain ⟨struct, hget, hstruct⟩ := h.structs x hx
    refine Keeps.bind_lift hget ?_
    -- A structure that is not there adds nothing.
    rcases hstruct with rfl | hstruct
    · exact .pure ()
    · split
      · exact hstruct.keeps_collectMembers x.2
      · exact .pure ()
  | metal =>
    obtain ⟨fs, hfs, hstructs⟩ := h.structs
    have hitems : (do (← t.get .functions).items : Except Fault (List Tree)) = .ok fs := by
      rw [hfs]
      rfl
    refine Keeps.bind_lift hitems (Keeps.forM fun f hf => ?_)
    split
    · next hnode =>
      have hstruct := hstructs f hf hnode
      obtain ⟨name, hname⟩ : ∃ name, f.get .name = .ok name := by
        obtain ⟨name, ms, rfl, -⟩ := hstruct
        exact ⟨name, rfl⟩
      refine Keeps.bind_lift hname ?_
      split
      · next p _ => exact hstruct.keeps_collectMembers p
      · exact .pure ()
    · exact .pure ()

end ShaderBridge.Backward
