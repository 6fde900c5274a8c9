import ShaderBridge.Proofs.CrossGl.Openings
import ShaderBridge.Proofs.Forward.Writing

/-!
# Every parsed shader is written with nested brackets

From interfaces over sections to whole shaders: what the grammar of CrossGL builds is written in
every dialect, and the brackets of the text are nested (`yields_shaderWritten`).  A parsed shader
sets no position outside its stages, so a new generator writes just that text
(`exists_text_of_parse`).
-/

namespace ShaderBridge.Forward

open CrossGl ShaderBridge.Parser
open Text (Bare Nested Fills)
open ShaderBridge.Tree (Every IsBare)
open Scope (plain)

/-! ## §1 Interfaces -/

variable {name vtype : Text}

theorem nested_hlslLine (p : Channel) (i : Nat) (hvtype : Nested vtype)
    (hname : Nested name) : Nested (Dialect.hlslLine p i vtype name) := by
  have hcount : ∀ (lead : Text) (n : Nat), Bare lead → Nested (lead ++ Text.ofNat n) :=
    fun lead n hlead => (hlead.append (Text.bare_ofNat n)).nested
  refine (Fills.fixed _ (.nested hvtype (.fixed _ (.nested hname (.fixed _ (.nested ?_ (.fixed _
    .done))))))).nested_cat (by decide)
  cases p with
  | sharedInput | vertexInput =>
    dsimp only
    split
    · decide
    · exact hcount _ _ (by decide)
  | sharedOutput | vertexOutput | fragmentInput | fragmentOutput => exact hcount _ _ (by decide)

theorem nested_metalLine (p : Channel) (i : Nat) (hvtype : Nested vtype)
    (hname : Nested name) : Nested (Dialect.metalLine p i vtype name) := by
  have hi := (Text.bare_ofNat i).nested
  refine (Fills.fixed _ (.nested hvtype (.fixed _ (.nested hname (.nested ?_ (.fixed _
    .done)))))).nested_cat (by decide)
  cases p with
  | sharedInput | vertexInput | sharedOutput | fragmentOutput =>
    exact (Fills.fixed _ (.nested hi (.fixed _ .done))).nested_cat (by decide)
  | vertexOutput => exact Text.nested_nil
  | fragmentInput =>
    dsimp only
    split <;> decide

theorem nested_glslLine (p : Channel) (i : Nat) (hvtype : Nested vtype)
    (hname : Nested name) : Nested (Dialect.glslLine p i vtype name) := by
  have hlocated : ∀ (n : Nat) (side : Text), Nested side →
      Nested (Text.cat ["layout(location = ", Text.ofNat n, ") "] ++ side) := fun n side hside =>
    ((Fills.fixed _ (.nested (Text.bare_ofNat n).nested (.fixed _ .done))).nested_cat
      (by decide)).append hside
  refine (Fills.nested ?_ (.fixed _ (.nested hvtype (.fixed _ (.nested hname (.fixed _
    .done)))))).nested_cat (by decide)
  cases p with
  | sharedInput | vertexInput | sharedOutput | fragmentOutput => exact hlocated _ _ (by decide)
  | vertexOutput | fragmentInput =>
    dsimp only
    split
    · decide
    · exact hlocated _ _ (by decide)

theorem nested_channelLine (d : Dialect) (p : Channel) (i : Nat)
    (hvtype : Nested vtype) (hname : Nested name) : Nested (d.channelLine p i vtype name) := by
  cases d with
  | hlsl => exact nested_hlslLine p i hvtype hname
  | metal => exact nested_metalLine p i hvtype hname
  | glsl => exact nested_glslLine p i hvtype hname

theorem bare_channelStruct (d : Dialect) (p : Channel) : Bare (d.channelStruct p) := by
  cases d <;> cases p <;> decide

/-- The lines of a channel stand in the braces of a structure, but for GLSL. -/
theorem nested_channelText (d : Dialect) (p : Channel) {lines : Text} (h : Nested lines) :
    Nested (d.channelText p lines) := by
  cases d with
  | hlsl | metal =>
    exact (Fills.fixed _ (.nested (bare_channelStruct _ p).nested (.fixed _ (.fixed _ (.nested h
      (.fixed _ (.fixed _ .done))))))).nested_cat (by decide)
  | glsl =>
    rw [Dialect.channelText]
    split
    · exact h.append (by decide)
    · exact h

theorem yields_variableLine {v : Tree} (h : VariableShape v) (d : Dialect) (p : Channel) (i : Nat) :
    Yields (variableLine d p i v) Nested := by
  obtain ⟨vtype, name, rfl, hv, hn⟩ := h
  apply ((IsName.ofText hv).yields_mapType d).bind
  intro u hu
  refine .pure ?_
  exact nested_channelLine d p i (nested_plain hu) hn.nested

theorem yields_interfaceText {vs : List Tree} (h : ∀ v ∈ vs, VariableShape v) (d : Dialect)
    (p : Channel) : Yields (interfaceText d p (.list vs)) Nested := by
  unfold interfaceText
  split
  · have hlines : Yields (variableLines d p 0 vs) fun lines => ∀ l ∈ lines, Nested l := by
      refine Yields.mapM fun x hx => ?_
      refine yields_variableLine (h x.1 ?_) d p x.2
      exact List.fst_mem_of_mem_zipIdx hx
    apply hlines.bind
    intro _ hlines
    exact .pure (nested_channelText d p (Text.nested_cat hlines))
  · exact .pure Text.nested_nil

/-! ## §2 Sections -/

theorem yields_findVariable {vs : List Tree} (h : ∀ v ∈ vs, VariableShape v) (word : Tree) :
    Yields (findVariable word vs) fun o => ∀ u ∈ o, Every IsBare u := by
  induction vs with
  | nil => exact .ok nofun
  | cons v vs ih =>
    obtain ⟨hv, hvs⟩ := List.forall_mem_cons.1 h
    obtain ⟨vtype, name, rfl, -, hname⟩ := hv
    show Yields (if word.same (.text name) then _ else findVariable word vs) _
    split
    · refine .pure ?_
      rintro _ ⟨⟩
      exact builds_isBare.literal hname
    · exact ih hvs

theorem searchable_node {items : SectionItems} (h : SectionShape items) (k : NodeKind) :
    Searchable (items.node k) := by
  have hlist : ∀ (vs : List Tree) (word : Tree), (∀ v ∈ vs, VariableShape v) →
      Yields (if (Tree.list vs).isSet then findVariable word vs else pure none)
        fun o => ∀ u ∈ o, Every IsBare u := by
    intro vs word hvs
    split
    · exact yields_findVariable hvs word
    · exact .pure nofun
  intro f hf word
  simp only [List.mem_cons, List.not_mem_nil, or_false] at hf
  rcases hf with rfl | rfl
  · exact hlist items.inputs word h.inputs
  · exact hlist items.outputs word h.outputs

theorem nested_stageOpening (d : Dialect) (stage : Stage) : Nested (d.stageOpening stage) := by
  cases d <;> cases stage <;> decide

theorem yields_lineWhere {t : Tree} {x : Except Fault Text} (h : Yields x Nested) :
    Yields (lineWhere t x) Nested := by
  unfold lineWhere
  split
  · apply h.bind
    intro _ hs
    exact .pure (hs.append (by decide))
  · exact .pure Text.nested_nil

/-- The section of a stage is written, with nested brackets. -/
theorem yields_sectionWritten {sc : Scope} {stage : Stage} {items : SectionItems} {k : NodeKind}
    (h : SectionShape items) (hstage : sc.stage = .text stage.label)
    (howner : sc.owner = items.node k) :
    Yields (sectionWritten sc stage (items.node k)) Nested := by
  have hsc : Searchable sc.owner := howner ▸ searchable_node h k
  have hsome : (Stage.of? sc.stage).isSome := by
    rw [hstage]
    cases stage <;> rfl
  have hhelpers : Yields (function sc (.list items.functions)) Nested := by
    rw [function, if_pos hsome]
    exact yields_helperFunctions hsc h.functions
  show Yields (interfaceText _ _ (.list items.inputs) >>= fun _ =>
    interfaceText _ _ (.list items.outputs) >>= fun _ => _) _
  apply (yields_interfaceText h.inputs _ _).bind
  intro ins hins
  apply (yields_interfaceText h.outputs _ _).bind
  intro outs houts
  apply (yields_lineWhere hhelpers).bind
  intro helpers hhelpers
  apply (yields_lineWhere (yields_statements hsc h.statements 0)).bind
  intro stmts hstmts
  apply (yields_entryPoints hsc h.functions hsome).bind
  intro entries hentries
  refine .pure ?_
  exact (Fills.nested (nested_stageOpening _ stage) (.nested hins (.nested houts (.nested hhelpers
    (.nested hstmts (.nested hentries .done)))))).nested_cat (by decide)

theorem yields_stageWritten {sc : Scope} {stage : Stage} {k : NodeKind} {owner : Tree}
    (h : SectionShape? k owner) (hstage : sc.stage = .text stage.label)
    (howner : sc.owner = owner) :
    Yields (stageWritten sc stage k owner) Nested := by
  rcases h with rfl | ⟨items, rfl, h⟩
  · exact .ok Text.nested_nil
  · have hnode : (items.node k).isNode k := beq_self_eq_true k
    rw [stageWritten, if_pos hnode]
    exact yields_sectionWritten h hstage howner

/-! ## §3 Shaders -/

theorem nested_frame (d : Dialect) : Nested d.opening ∧ Nested d.afterShared := by
  cases d <;> decide

/-- Every shader of the grammar can be written in every dialect. -/
theorem yields_shaderWritten {t : Tree} (h : ShaderShape t) (d : Dialect) :
    Yields (shaderWritten d t) Nested := by
  obtain @⟨name, ins, outs, items, -, hins, houts, hs⟩ := h
  obtain ⟨hopening, hafter⟩ := nested_frame d
  show Yields
    (interfaceText d _ (.list ins) >>= fun _ => interfaceText d _ (.list outs) >>= fun _ =>
    sharedFunctions _ (.list items.functions) >>= fun _ => _) _
  apply (yields_interfaceText hins d _).bind
  intro sharedIns hsharedIns
  apply (yields_interfaceText houts d _).bind
  intro sharedOuts hsharedOuts
  -- Shared functions are written outside any section.
  have hglobal : Searchable (Scope.owner ⟨d, {}, .text "global"⟩) := searchable_absent
  apply (yields_sharedFunctions hglobal hs.functions rfl).bind
  intro shared hshared
  apply (yields_stageWritten hs.vertex rfl rfl).bind
  intro vertexText hvertex
  apply (yields_stageWritten hs.fragment rfl rfl).bind
  intro fragmentText hfragment
  refine .pure ?_
  exact (Fills.nested hopening (.nested hsharedIns (.nested hsharedOuts (.nested hafter
    (.nested hshared (.nested hvertex (.nested hfragment .done))))))).nested_cat (by decide)

/-- What is parsed from CrossGL can be written, no state is needed for it, and its brackets are
nested. -/
theorem exists_text_of_parse {source : Text} {t : Tree} (h : Language.crossGl.parse source = .ok t)
    (d : Dialect) : ∃ text, (Route.forward d).generate t = .ok text ∧
      shaderWritten d t = .ok text ∧ Nested text := by
  have hshape : ShaderShape t := Language.of_parse h makes_shaderShape
  obtain ⟨text, hwritten, hnested⟩ := yields_shaderWritten hshape d
  have heq := generate_eq (d := d) hshape fun owner howner => positionless_of_parse h howner
  exact ⟨text, heq.trans hwritten, hwritten, hnested⟩

end ShaderBridge.Forward
