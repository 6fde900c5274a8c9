import ShaderBridge.Proofs.CrossGl.Inventory
import ShaderBridge.Proofs.Forward.Scopes
import ShaderBridge.Proofs.Forward.Totality

/-!
# Shaders written without a state

A generator keeps a state, but where no function sets the vertex position, what it writes is a
function of the shader alone: the interfaces, the functions and the statements of the sections, each
in the scope of its own stage.

- `Gen.Runs s g x`: from the state `s` the generator has the outcome `x`, and it leaves the state
  as it is.
- `shaderWritten d t`: the text of a shader, put together without a state.
- `generate_eq`: the generator writes just that text.
-/

namespace ShaderBridge

/-! ## §1 Generators that leave the state alone -/

namespace Gen

variable {σ α β : Type} {s : σ} {g : Gen σ α} {x : Except Fault α}

/-- From the state `s` the generator has the outcome `x`, and the state stays as it is. -/
def Runs (s : σ) (g : Gen σ α) (x : Except Fault α) : Prop := g s = (liftM x : Gen σ α) s

namespace Runs

theorem pure (a : α) : Runs s (pure a) (pure a) := rfl

theorem lift (x : Except Fault α) : Runs s (liftM x) x := rfl

/-- Where the first part has a fault, the second is not reached. -/
theorem bind {f : α → Gen σ β} {y : α → Except Fault β} (hg : Runs s g x)
    (hf : ∀ a, Runs s (f a) (y a)) : Runs s (g >>= f) (x >>= y) := by
  show EStateM.bind g f s = _
  rw [EStateM.bind, hg]
  cases x with
  | error e => rfl
  | ok a => exact hf a

theorem bind_ok {f : α → Gen σ β} {a : α} {y : Except Fault β} (hg : Runs s g (.ok a))
    (hf : Runs s (f a) y) : Runs s (g >>= f) y :=
  (bind_of_ok hg).trans hf

theorem ite {b : Prop} [Decidable b] {g' : Gen σ α} {x' : Except Fault α} (hg : Runs s g x)
    (hg' : Runs s g' x') : Runs s (if b then g else g') (if b then x else x') := by
  split
  · exact hg
  · exact hg'

theorem forM {xs : List β} {f : β → Gen σ Unit} (h : ∀ x ∈ xs, Runs s (f x) (.ok ())) :
    Runs s (xs.forM f) (.ok ()) := by
  induction xs with
  | nil => rfl
  | cons x xs ih =>
    obtain ⟨hx, hxs⟩ := List.forall_mem_cons.1 h
    exact hx.bind_ok (ih hxs)

theorem outcome_bind {f : α → Gen σ β} (h : Runs s g x) :
    (g >>= f).outcome s = x >>= fun a => (f a).outcome s := by
  show Gen.outcome (EStateM.bind g f) s = _
  rw [Gen.outcome, EStateM.bind, h]
  cases x <;> rfl

end Runs

end Gen

namespace Forward

open Scope
open Gen (Runs)

variable {d : Dialect} {s : State}

theorem runs_inScope {α : Type} (stage : Tree) (f : Scope → Except Fault α) :
    Runs s (inScope d stage f) (f (s.scope d stage)) := rfl

/-! ## §2 Interfaces -/

/-- The line of the `i`-th variable of a channel. -/
def variableLine (d : Dialect) (p : Channel) (i : Nat) (t : Tree) : Except Fault Text := do
  let (vtype, name) ← t.pair
  let vtype ← d.mapType vtype
  return d.channelLine p i (plain vtype) (plain name)

/-- The lines of the variables of a channel, counted from `i`. -/
def variableLines (d : Dialect) (p : Channel) (i : Nat) (ts : List Tree) :
    Except Fault (List Text) :=
  (ts.zipIdx i).mapM fun x => variableLine d p x.2 x.1

/-- The text of a channel. -/
def interfaceText (d : Dialect) (p : Channel) (t : Tree) : Except Fault Text := do
  if t.isSet || d.alwaysWrites p then
    let items ← t.items
    return d.channelText p (Text.cat (← variableLines d p 0 items))
  else return []

theorem runs_takePosition (hs : s.Calm) : Runs s (takePosition d) (.ok []) := by
  show (if s.positionPending then _ else _ : Gen State Text) s = _
  rw [show s.positionPending = false from hs]
  rfl

theorem runs_channelLine (hs : s.Calm) (p : Channel) (i : Nat) (t : Tree) :
    Runs s (channelLine d p i t) (variableLine d p i t) := by
  apply (Runs.lift _).bind
  rintro ⟨vtype, name⟩
  have hrest : ∀ lead : Text, lead = [] → Runs s (do
      let vtype ← (d.mapType vtype : Except Fault _)
      return lead ++ d.channelLine p i (plain vtype) (plain name))
      (do return d.channelLine p i (plain (← d.mapType vtype)) (plain name)) := by
    rintro _ rfl
    apply (Runs.lift _).bind
    intro _
    exact .pure _
  dsimp only
  split
  · -- Nothing is pending, so nothing is written in front of the line.
    exact (runs_takePosition hs).bind_ok (hrest [] rfl)
  · exact hrest [] rfl

theorem runs_channelLines (hs : s.Calm) (p : Channel) (i : Nat) (ts : List Tree) :
    Runs s (channelLines d p i ts) (do return Text.cat (← variableLines d p i ts)) := by
  induction ts generalizing i with
  | nil => exact .pure []
  | cons t ts ih =>
    have hlines : (do return Text.cat (← variableLines d p i (t :: ts)) : Except Fault Text) = do
        let line ← variableLine d p i t
        let lines ← (do return Text.cat (← variableLines d p (i + 1) ts))
        return line ++ lines := by
      simp [variableLines, List.zipIdx_cons, List.mapM_cons, Text.cat]
    rw [hlines, channelLines]
    apply (runs_channelLine hs p i t).bind
    intro line
    apply (ih (i + 1)).bind
    intro _
    exact .pure _

theorem runs_channel (hs : s.Calm) (p : Channel) (t : Tree) :
    Runs s (channel d p t) (interfaceText d p t) := by
  unfold channel interfaceText
  apply Runs.ite
  · apply (Runs.lift _).bind
    intro items
    have hlines := (runs_channelLines hs (d := d) p 0 items).bind
      (f := fun lines => pure (d.channelText p lines)) (fun _ => Runs.pure _)
    simpa only [bind_assoc, pure_bind] using hlines
  · exact .pure []

/-! ## §3 Sections -/

/-- A text and a line end, where a value is set. -/
def lineWhere (t : Tree) (text : Except Fault Text) : Except Fault Text := do
  if t.isSet then return (← text) ++ "\n" else return []

/-- The text of a section. -/
def sectionWritten (sc : Scope) (stage : Stage) (owner : Tree) : Except Fault Text := do
  let ins ← interfaceText sc.dialect (.inputOf stage) (← owner.get .inputs)
  let outs ← interfaceText sc.dialect (.outputOf stage) (← owner.get .outputs)
  let functions ← owner.get .functions
  let helpers ← lineWhere functions (function sc functions)
  let body ← owner.get .intermediate
  let stmts ← lineWhere body (statements sc 0 body)
  let entries ← entryPoints sc functions
  return Text.cat [sc.dialect.stageOpening stage, ins, outs, helpers, stmts, entries]

theorem runs_lineIfSet {t : Tree} {g : Gen State Text} {x : Except Fault Text} (h : Runs s g x) :
    Runs s (lineIfSet t g) (lineWhere t x) :=
  .ite (h.bind fun _ => .pure _) (.pure [])

/-- In a calm state the text of a section does not depend on the state. -/
theorem runs_sectionText (hs : s.Calm) (stage : Stage) (owner : Tree) :
    Runs s (sectionText d stage owner)
      (sectionWritten (s.scope d (.text stage.label)) stage owner) := by
  apply (Runs.lift _).bind
  intro ins
  apply (runs_channel hs _ ins).bind
  intro insText
  apply (Runs.lift _).bind
  intro outs
  apply (runs_channel hs _ outs).bind
  intro outsText
  apply (Runs.lift _).bind
  intro fs
  apply (runs_lineIfSet (runs_inScope _ _)).bind
  intro helpers
  apply (Runs.lift _).bind
  intro body
  apply (runs_lineIfSet (runs_inScope _ _)).bind
  intro stmts
  apply (runs_inScope _ _).bind
  intro entries
  exact .pure _

/-- In a section that sets no position none is noted. -/
theorem runs_notePosition {items : CrossGl.SectionItems} {k : NodeKind}
    (h : CrossGl.SectionShape items) (hpos : Positionless d (items.node k)) :
    Runs s (notePosition d (items.node k)) (.ok ()) := by
  -- A statement that can be written and sets no position is passed over.
  have hstmt : ∀ f ∈ items.functions, ∀ ts, (do (← f.get .body).items : Except Fault _) = .ok ts →
      ∀ t ∈ ts, setsPosition (s.scope d .absent) t = .ok false := by
    intro f hf ts hts t ht
    obtain ⟨name, -, -, -, hb⟩ := h.functions f hf
    cases hts
    have hsc : Searchable (s.scope d .absent).owner := searchable_absent
    obtain ⟨text, htext, -⟩ := yields_statement hsc (hb t ht) 0
    have hnot := hpos items.functions rfl _ hf ts rfl t ht s.sections
    unfold setsPosition at hnot ⊢
    rw [show statement ⟨d, s.sections, .absent⟩ 0 t = .ok text from htext] at hnot
    rw [htext]
    exact congrArg Except.ok (Bool.eq_false_iff.2 fun hsets => hnot (congrArg Except.ok hsets))
  have hfunctions : (do (← (items.node k).get .functions).items : Except Fault _)
      = .ok items.functions := rfl
  apply Runs.bind_ok (Gen.lift_of_ok hfunctions)
  apply Runs.forM
  intro f hf
  obtain @⟨vtype, name, params, body, -⟩ := h.functions f hf
  have hbody : (do (← (Tree.function vtype name params body).get .body).items : Except Fault _)
      = .ok body := rfl
  apply Runs.bind_ok (Gen.lift_of_ok hbody)
  apply Runs.forM
  intro t ht
  have hsets := hstmt _ hf body rfl t ht
  exact Runs.bind_ok (hsets ▸ runs_inScope .absent (setsPosition · t)) (.pure ())

/-- The text of what may stand for a section. -/
def stageWritten (sc : Scope) (stage : Stage) (k : NodeKind) (owner : Tree) : Except Fault Text :=
  if owner.isNode k then sectionWritten sc stage owner else .ok []

theorem runs_stageSection {k : NodeKind} {owner : Tree} (h : CrossGl.SectionShape? k owner)
    (stage : Stage) (hs : s.Calm) (hpos : stage = .vertex → Positionless d owner) :
    Runs s (stageSection d stage k owner)
      (stageWritten (s.scope d (.text stage.label)) stage k owner) := by
  rcases h with rfl | ⟨items, rfl, h⟩
  · rw [stageSection_of_not_isNode rfl]
    exact .pure []
  · have hnode : (items.node k).isNode k := beq_self_eq_true k
    rw [stageSection_of_isNode hnode, stageWritten, if_pos hnode]
    have hnote : Runs s (noteStage d stage (items.node k)) (.ok ()) := by
      unfold noteStage
      split
      · next hvertex =>
        exact runs_notePosition h (hpos (of_decide_eq_true (Bool.and_eq_true_iff.1 hvertex).1))
      · exact .pure ()
    exact hnote.bind fun _ => runs_sectionText hs stage _

/-! ## §4 Shaders -/

/-- The text of a shader.  In the scope of each stage the sections up to its own are known. -/
def shaderWritten (d : Dialect) (t : Tree) : Except Fault Text := do
  let ins ← t.get .globalInputs
  let outs ← t.get .globalOutputs
  let sharedIns ← interfaceText d .sharedInput ins
  let sharedOuts ← interfaceText d .sharedOutput outs
  let functions ← t.get .globalFunctions
  let shared ← sharedFunctions ⟨d, {}, .text "global"⟩ functions
  let vertex ← t.get .vertexSection
  let vertexText ←
    stageWritten ⟨d, { vertex }, .text Stage.vertex.label⟩ .vertex .vertexSection vertex
  let fragment ← t.get .fragmentSection
  let fragmentText ←
    stageWritten ⟨d, { vertex, fragment }, .text Stage.fragment.label⟩ .fragment .fragmentSection
      fragment
  return Text.cat
    [d.opening, sharedIns, sharedOuts, d.afterShared, shared, vertexText, fragmentText]

/-- A shader that sets no position is written without a state. -/
theorem generate_eq {t : Tree} (h : CrossGl.ShaderShape t)
    (hpos : ∀ owner, t.get .vertexSection = .ok owner → Positionless d owner) :
    (Route.forward d).generate t = shaderWritten d t := by
  obtain @⟨name, ins, outs, items, -, -, -, hs⟩ := h
  have hcalm : State.Calm {} := rfl
  have hcalm₁ : State.Calm { sections := { vertex := items.vertex } } := rfl
  have hcalm₂ : State.Calm { sections := { vertex := items.vertex, fragment := items.fragment } } :=
    rfl
  show (shader d (.node .shader _)).outcome {} = _
  rw [shader, shaderWritten]
  rw [(Runs.lift _).outcome_bind]
  apply bind_congr
  intro ins
  rw [(Runs.lift _).outcome_bind]
  apply bind_congr
  intro outs
  rw [(runs_channel hcalm _ _).outcome_bind]
  apply bind_congr
  intro sharedIns
  rw [(runs_channel hcalm _ _).outcome_bind]
  apply bind_congr
  intro sharedOuts
  rw [(Runs.lift _).outcome_bind]
  apply bind_congr
  intro functions
  rw [(runs_inScope _ _).outcome_bind]
  apply bind_congr
  intro shared
  -- From here on the section for vertices is known, and behind it that for fragments.
  show ((stageSection d .vertex .vertexSection items.vertex >>= _).outcome _
    : Except Fault Text) = _
  rw [(runs_stageSection hs.vertex .vertex hcalm₁ fun _ => hpos _ rfl).outcome_bind]
  apply bind_congr
  intro vertexText
  show ((stageSection d .fragment .fragmentSection items.fragment >>= _).outcome _
    : Except Fault Text) = _
  rw [(runs_stageSection hs.fragment .fragment hcalm₂ (by simp)).outcome_bind]
  rfl

/-! ## §5 Parts of the text -/

theorem exists_infix_of_mapM {α : Type} {f : α → Except Fault Text} {xs : List α} {text : Text}
    (h : (do return Text.cat (← xs.mapM f)) = Except.ok text) {x : α} (hx : x ∈ xs) :
    ∃ y, f x = .ok y ∧ y <:+: text := by
  obtain ⟨before, after, rfl⟩ := List.append_of_mem hx
  obtain ⟨ys, hys, htext⟩ := exists_of_bind_ok h
  rw [List.mapM_append] at hys
  obtain ⟨ys₁, -, hys⟩ := exists_of_bind_ok hys
  obtain ⟨ys₂, hys₂, hys⟩ := exists_of_bind_ok hys
  rw [List.mapM_cons] at hys₂
  obtain ⟨y, hy, hys₂⟩ := exists_of_bind_ok hys₂
  obtain ⟨ys₃, -, hys₂⟩ := exists_of_bind_ok hys₂
  cases hys₂
  cases hys
  cases htext
  exact ⟨y, hy, List.infix_of_mem_flatten (by simp)⟩

/-- The entry point of a stage, in a dialect that has stage structures: its parameters are not
written. -/
theorem entryPoint_function {sc : Scope} {stage : Stage} (hd : sc.dialect.hasStageStructs)
    (hstage : sc.stage = .text stage.label) (vtype name : Tree) (params body : List Tree) :
    entryPoint sc (Tree.function vtype name params body) = do
      let stmts ← (do return Text.cat (← body.mapM (statement sc 1)))
      return Text.cat
        [sc.dialect.entryOpening stage, stmts, "    return output;\n", r"}", "\n"] := by
  have hof : Stage.of? sc.stage = some stage := by
    rw [hstage]
    cases stage <;> rfl
  rw [entryPoint, if_pos hd, hof]
  rfl

/-- The text of a function of a stage. -/
def stageFunction (sc : Scope) (f : Tree) : Except Fault Text := do
  if ← isEntry f then entryPoint sc f else plainFunction sc f

section Section

variable {sc : Scope} {stage : Stage} {owner f : Tree} {fs : List Tree} {text : Text}

theorem exists_infix_of_function (h : function sc (.list fs) = .ok text) (hf : f ∈ fs)
    (hstage : sc.stage = .text stage.label) (hhelper : isEntry f = .ok false) :
    ∃ x, stageFunction sc f = .ok x ∧ x <:+: text := by
  have hsome : (Stage.of? sc.stage).isSome := by
    rw [hstage]
    cases stage <;> rfl
  rw [function, if_pos hsome, helperFunctions] at h
  obtain ⟨x, hx, hpart⟩ := exists_infix_of_mapM h hf
  rw [stageFunction]
  rw [hhelper] at hx ⊢
  exact ⟨x, hx, hpart⟩

theorem exists_infix_of_entryPoints (h : entryPoints sc (.list fs) = .ok text) (hf : f ∈ fs)
    (hentry : isEntry f = .ok true) : ∃ x, stageFunction sc f = .ok x ∧ x <:+: text := by
  have hset : (Tree.list fs).isSet := by
    cases fs with
    | nil => cases hf
    | cons f fs => rfl
  rw [entryPoints, if_pos hset] at h
  obtain ⟨line, hline, hpart⟩ := exists_infix_of_mapM h hf
  rw [stageFunction]
  rw [hentry] at hline ⊢
  obtain ⟨x, hx, hline⟩ := exists_of_bind_ok (x := entryPoint sc f) hline
  cases hline
  exact ⟨x, hx, (List.prefix_append x _).isInfix.trans hpart⟩

/-- The outputs of a section and all its functions are parts of its text. -/
theorem exists_infix_of_sectionWritten (h : sectionWritten sc stage owner = .ok text)
    {outs : Tree} (houts : owner.get .outputs = .ok outs)
    (hfs : owner.get .functions = .ok (.list fs)) (hstage : sc.stage = .text stage.label) :
    (∃ x, interfaceText sc.dialect (.outputOf stage) outs = .ok x ∧ x <:+: text) ∧
      ∀ f ∈ fs, Succeeds (isEntry f) → ∃ x, stageFunction sc f = .ok x ∧ x <:+: text := by
  unfold sectionWritten at h
  rw [houts, hfs] at h
  obtain ⟨_, -, h⟩ := exists_of_bind_ok h
  obtain ⟨ins, -, h⟩ := exists_of_bind_ok h
  obtain ⟨outsText, houtsText, h⟩ := exists_of_bind_ok (x := interfaceText _ _ outs) h
  obtain ⟨helpers, hhelpers, h⟩ := exists_of_bind_ok (x := lineWhere (.list fs) _) h
  obtain ⟨_, -, h⟩ := exists_of_bind_ok h
  obtain ⟨stmts, -, h⟩ := exists_of_bind_ok h
  obtain ⟨entries, hentries, h⟩ := exists_of_bind_ok h
  cases h
  -- Every part of the section stands in its text.
  have hpart : ∀ x ∈ [sc.dialect.stageOpening stage, ins, outsText, helpers, stmts, entries],
      x <:+: Text.cat [sc.dialect.stageOpening stage, ins, outsText, helpers, stmts, entries] :=
    fun x hx => List.infix_of_mem_flatten hx
  refine ⟨⟨outsText, houtsText, hpart _ (by simp)⟩, ?_⟩
  rintro f hf ⟨b, hb⟩
  -- An entry point stands among the last parts, any other function among the helpers.
  cases b with
  | true =>
    obtain ⟨x, hx, hwithin⟩ := exists_infix_of_entryPoints hentries hf hb
    exact ⟨x, hx, hwithin.trans (hpart _ (by simp))⟩
  | false =>
    have hset : (Tree.list fs).isSet := by
      cases fs with
      | nil => cases hf
      | cons f fs => rfl
    rw [lineWhere, if_pos hset] at hhelpers
    obtain ⟨functions, hfunctions, hline⟩ := exists_of_bind_ok hhelpers
    cases hline
    obtain ⟨x, hx, hwithin⟩ := exists_infix_of_function hfunctions hf hstage hb
    have hbehind : functions <:+: functions ++ "\n" := (List.prefix_append _ _).isInfix
    exact ⟨x, hx, (hwithin.trans hbehind).trans (hpart _ (by simp))⟩

end Section

open CrossGl (stageKind stageField)

/-- Every section of a shader is part of its text, written in a scope that has that section. -/
theorem exists_infix_of_shaderWritten {t owner : Tree} {text : Text}
    (h : shaderWritten d t = .ok text) (stage : Stage)
    (howner : t.get (stageField stage) = .ok owner) (hnode : owner.isNode (stageKind stage)) :
    ∃ (sc : Scope) (x : Text), sc.dialect = d ∧ sc.stage = .text stage.label ∧ sc.owner = owner ∧
      sectionWritten sc stage owner = .ok x ∧ x <:+: text := by
  unfold shaderWritten at h
  obtain ⟨_, -, h⟩ := exists_of_bind_ok h
  obtain ⟨_, -, h⟩ := exists_of_bind_ok h
  obtain ⟨sharedIns, -, h⟩ := exists_of_bind_ok h
  obtain ⟨sharedOuts, -, h⟩ := exists_of_bind_ok h
  obtain ⟨_, -, h⟩ := exists_of_bind_ok h
  obtain ⟨shared, -, h⟩ := exists_of_bind_ok h
  obtain ⟨vertex, hvertex, h⟩ := exists_of_bind_ok h
  obtain ⟨vertexText, hvertexText, h⟩ := exists_of_bind_ok h
  obtain ⟨fragment, hfragment, h⟩ := exists_of_bind_ok h
  obtain ⟨fragmentText, hfragmentText, h⟩ := exists_of_bind_ok h
  cases h
  cases stage with
  | vertex =>
    obtain rfl : owner = vertex := Except.ok.inj (howner.symm.trans hvertex)
    rw [stageWritten, if_pos (show owner.isNode .vertexSection from hnode)] at hvertexText
    exact ⟨_, vertexText, rfl, rfl, rfl, hvertexText, List.infix_of_mem_flatten (by simp)⟩
  | fragment =>
    obtain rfl : owner = fragment := Except.ok.inj (howner.symm.trans hfragment)
    rw [stageWritten, if_pos (show owner.isNode .fragmentSection from hnode)] at hfragmentText
    exact ⟨_, fragmentText, rfl, rfl, rfl, hfragmentText, List.infix_of_mem_flatten (by simp)⟩

end Forward

end ShaderBridge
