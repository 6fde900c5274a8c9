import ShaderBridge.Proofs.CrossGl.Spending

/-!
# Everything that a shader declares

`inventory` reads a shader as the grammar of CrossGL does and keeps all that it reads: the uniforms
of the shader and of its sections, and every section in the order of the source.  The tree of a
shader is made from its inventory (`shader_eq`), so what the tree lacks can be told: it has the last
section of each stage only, and no uniforms.

The inventory misses nothing.  It accounts for each word that opens a uniform or a section
(`spends_inventory`).
-/

namespace ShaderBridge.CrossGl

open ShaderBridge.Parser Ladder

/-! ## §1 Inventories -/

/-- The word that opens a section of a stage. -/
def stageWord : Stage → TokenKind
  | .vertex => .vertexWord
  | .fragment => .fragmentWord

/-- The kind of node that a section of a stage is. -/
def stageKind : Stage → NodeKind
  | .vertex => .vertexSection
  | .fragment => .fragmentSection

/-- The field of a shader that holds the section of a stage. -/
def stageField : Stage → Field
  | .vertex => .vertexSection
  | .fragment => .fragmentSection

/-- The sections of a shader have the form of a section. -/
theorem ShaderShape.section {t : Tree} (h : ShaderShape t) (stage : Stage) {items : SectionItems}
    (hsection : t.get (stageField stage) = .ok (items.node (stageKind stage))) :
    SectionShape items := by
  obtain @⟨name, ins, outs, s, -, -, -, hs⟩ := h
  cases stage with
  | vertex =>
    have hnode : s.vertex = items.node .vertexSection := Except.ok.inj hsection
    exact (hnode ▸ hs.vertex).of_node
  | fragment =>
    have hnode : s.fragment = items.node .fragmentSection := Except.ok.inj hsection
    exact (hnode ▸ hs.fragment).of_node

/-- A uniform that is declared in a source. -/
structure Uniform where
  vtype : Tree
  name : Tree

/-- The node of a uniform. -/
def Uniform.node (u : Uniform) : Tree := Tree.uniform u.vtype u.name

/-- A section with the uniforms that are declared in it. -/
structure Block where
  stage : Stage
  items : SectionItems
  uniforms : List Uniform

/-- The node of a section, which has no place for uniforms. -/
def Block.node (b : Block) : Tree := b.items.node (stageKind b.stage)

/-- The node of the last section of a stage. -/
def lastNode (bs : List Block) (stage : Stage) : Tree :=
  ((bs.filter (·.stage = stage)).getLast?.map Block.node).getD .absent

/-- Functions and sections in the order of the source. -/
structure Contents where
  functions : List Tree := []
  blocks : List Block := []

/-- What the grammar keeps of functions and sections. -/
def Contents.items (s : Contents) : ShaderItems :=
  ⟨s.functions, lastNode s.blocks .vertex, lastNode s.blocks .fragment⟩

/-- All that a shader declares. -/
structure Inventory where
  name : Tree
  inputs : List Tree
  outputs : List Tree
  /-- The uniforms outside the sections. -/
  uniforms : List Uniform
  contents : Contents

namespace Inventory

/-- All uniforms, those of sections included. -/
def allUniforms (inv : Inventory) : List Uniform :=
  inv.uniforms ++ inv.contents.blocks.flatMap (·.uniforms)

/-- The tree of a shader. -/
def tree (inv : Inventory) : Tree :=
  .node .shader
    [(.name, inv.name), (.globalInputs, .list inv.inputs), (.globalOutputs, .list inv.outputs),
     (.globalFunctions, .list inv.contents.items.functions),
     (.vertexSection, inv.contents.items.vertex), (.fragmentSection, inv.contents.items.fragment)]

end Inventory

/-! ## §2 Reading an inventory -/

/-- The uniform declarations at the cursor. -/
def declaredUniforms : Parser (List Uniform) :=
  many (isAt [.uniformWord]) (do
    let (vtype, name) ← interfaceItem uniformTypesWanted
    return ⟨vtype, name⟩)

/-- Reads one item of a section and keeps uniforms. -/
def blockItem (b : SectionItems × List Uniform) : Parser (SectionItems × List Uniform) := do
  if ← isAt [.uniformWord] then return (b.1, b.2 ++ (← declaredUniforms))
  else return (← sectionItem b.1, b.2)

/-- A section of a stage. -/
def block (stage : Stage) : Parser Block := do
  let _ ← expect tv (stageWord stage)
  let _ ← expect tv .leftBrace
  let (items, us) ← loop (isNotAt [.rightBrace]) blockItem ({}, [])
  let _ ← expect tv .rightBrace
  return ⟨stage, items, us⟩

/-- Reads one item of a shader and keeps every section. -/
def contentsItem (s : Contents) : Parser Contents := do
  let k ← kind
  if k = .vertexWord then return { s with blocks := s.blocks ++ [← block .vertex] }
  else if k = .fragmentWord then return { s with blocks := s.blocks ++ [← block .fragment] }
  else if k ∈ returnTypes then return { s with functions := s.functions ++ [← function] }
  else reject (.unexpectedItem k)

/-- The inventory of a shader. -/
def inventory : Parser Inventory := do
  let _ ← expect tv .shaderWord
  if ← isNotAt [.identifier, .mainWord] then
    reject (.expected "IDENTIFIER or MAIN" (← kind))
  let name ← takeText tv
  let _ ← expect tv .leftBrace
  let ins ← inputs
  let us ← declaredUniforms
  let outs ← outputs
  let s ← loop (isNotAt [.rightBrace]) contentsItem {}
  let _ ← expect tv .rightBrace
  return ⟨name, ins, outs, us, s⟩

/-! ## §3 The tree of an inventory -/

/-- A loop over more than is kept gives what the loop over what is kept gives. -/
theorem map_loop {α β : Type} {f : α → β} {go : Parser Bool} {step : α → Parser α}
    {step' : β → Parser β} (h : ∀ a, step' (f a) = f <$> step a) (a : α) :
    loop go step' (f a) = f <$> loop go step a := by
  have hloop : ∀ n a, loopAt go step' n (f a) = f <$> loopAt go step n a := by
    intro n
    induction n with
    | zero => intro a; rfl
    | succ n ih =>
      intro a
      have hthrow : f <$> (throw .endless : Parser α) = throw .endless := rfl
      simp only [loopAt, map_bind, apply_ite (f <$> ·), map_pure, hthrow, h, bind_map_left, ih]
  funext c
  exact congrFun (hloop _ a) c

theorem map_many {α β : Type} {f : α → β} {go : Parser Bool} {p : Parser α} {p' : Parser β}
    (h : p' = f <$> p) : many go p' = List.map f <$> many go p := by
  have hstep : ∀ acc, (do return (← p') :: List.map f acc : Parser (List β))
      = List.map f <$> (do return (← p) :: acc : Parser (List α)) := fun acc => by
    simp only [h, map_bind, bind_map_left, map_pure, List.map_cons]
  have hloop : loop go (fun acc => do return (← p') :: acc) (List.map f [])
      = List.map f <$> loop go (fun acc => do return (← p) :: acc) [] := map_loop hstep []
  rw [List.map_nil] at hloop
  simp only [many, hloop, map_bind, bind_map_left, map_pure, List.map_reverse]

theorem uniforms_eq : uniforms = List.map Uniform.node <$> declaredUniforms :=
  map_many (by simp only [map_bind, map_pure, Uniform.node])

theorem lastNode_snoc (bs : List Block) (b : Block) (stage : Stage) :
    lastNode (bs ++ [b]) stage = if b.stage = stage then b.node else lastNode bs stage := by
  unfold lastNode
  rw [List.filter_append]
  split
  · next h => simp [h]
  · next h => simp [h]

/-- Without its uniforms an item is what the grammar reads. -/
theorem sectionItem_eq (b : SectionItems × List Uniform) :
    sectionItem b.1 = Prod.fst <$> blockItem b := by
  have hblock : Prod.fst <$> blockItem b = (do
      if ← isAt [.uniformWord] then
        let _ ← uniforms
        return b.1
      else sectionItem b.1) := by
    simp only [blockItem, uniforms_eq, map_bind, bind_map_left, apply_ite (Prod.fst <$> ·),
      map_pure, bind_pure]
  rw [hblock]
  funext c
  rw [isAt_bind]
  by_cases h : c.kind = .uniformWord
  · rw [decide_eq_true (List.mem_singleton.2 h), sectionItem, kind_bind, if_pos h]
    rfl
  · rw [decide_eq_false (List.mem_singleton.not.2 h)]
    rfl

theorem sectionBody_eq (stage : Stage) (k : NodeKind) (hk : k = stageKind stage) :
    (do
      let _ ← expect tv (stageWord stage)
      return (← sectionBody).node k) = Block.node <$> block stage := by
  have hloop : loop (isNotAt [.rightBrace]) sectionItem {}
      = Prod.fst <$> loop (isNotAt [.rightBrace]) blockItem ({}, []) :=
    map_loop sectionItem_eq ({}, [])
  simp only [sectionBody, hloop, block, hk, map_bind, bind_assoc, bind_map_left, pure_bind,
    map_pure, Block.node]

theorem block_bind_congr {α : Type} {stage : Stage} {f g : Block → Parser α}
    (h : ∀ items us, f ⟨stage, items, us⟩ = g ⟨stage, items, us⟩) :
    (block stage >>= f) = block stage >>= g := by
  simp only [block, bind_assoc, pure_bind, h]

/-- What is kept of an item of a shader is what the grammar reads. -/
theorem shaderItem_eq (s : Contents) : shaderItem s.items = Contents.items <$> contentsItem s := by
  have hvertex : vertexSection = Block.node <$> block .vertex := sectionBody_eq .vertex _ rfl
  have hfragment : fragmentSection = Block.node <$> block .fragment :=
    sectionBody_eq .fragment _ rfl
  simp only [shaderItem, contentsItem, hvertex, hfragment, map_bind, bind_map_left, map_pure,
    apply_ite (Contents.items <$> ·)]
  refine bind_congr fun k => ?_
  split
  · refine block_bind_congr fun items us => ?_
    simp [Contents.items, lastNode_snoc]
  split
  · refine block_bind_congr fun items us => ?_
    simp [Contents.items, lastNode_snoc]
  split
  · rfl
  · rfl

/-- The tree of a shader is made from its inventory. -/
theorem shader_eq : shader = Inventory.tree <$> inventory := by
  have hloop : loop (isNotAt [.rightBrace]) shaderItem {}
      = Contents.items <$> loop (isNotAt [.rightBrace]) contentsItem {} := map_loop shaderItem_eq {}
  simp only [shader, inventory, hloop, uniforms_eq, map_bind, bind_map_left, map_pure,
    Inventory.tree, apply_ite (Inventory.tree <$> ·)]

/-! ## §4 The words of an inventory -/

/-- The words that open a section and its uniforms. -/
def Block.marks (b : Block) : List TokenKind :=
  stageWord b.stage :: List.replicate b.uniforms.length .uniformWord

/-- The words that open the uniforms and sections of a shader, in the order of the source. -/
def Inventory.marks (inv : Inventory) : List TokenKind :=
  List.replicate inv.uniforms.length .uniformWord ++ inv.contents.blocks.flatMap Block.marks

theorem spends_declaredUniforms :
    Spends sectionMarks declaredUniforms fun us ms =>
      ms.map (·.kind) = List.replicate us.length .uniformWord :=
  SpendsAt.many looks_isAt ((spends_interfaceItem _).bind_pure fun _ _ h => h)

theorem spends_blockItem (b : SectionItems × List Uniform) :
    Spends sectionMarks (blockItem b) fun b' ms =>
      List.replicate b'.2.length .uniformWord
        = List.replicate b.2.length .uniformWord ++ ms.map (·.kind) := by
  refine SpendsAt.isAt ?_ ?_
  · refine (spends_declaredUniforms.bind_pure fun us ms hms => ?_).here
    rw [List.length_append, List.replicate_add, hms]
  · have hitem : SparesAt sectionMarks (fun k => k ∉ [.uniformWord] ∧ True) (sectionItem b.1) :=
      fun c a c' hk => spares_sectionItem b.1 c a c' (List.mem_singleton.not.1 hk.1)
    refine hitem.bind_pure ?_
    rintro _ _ rfl
    exact (List.append_nil _).symm

theorem spends_block (stage : Stage) :
    Spends sectionMarks (block stage) fun b ms => ms.map (·.kind) = b.marks := by
  refine SpendsAt.expect.bind ?_
  rintro word _ ⟨hword, rfl⟩
  have hmark : word.kind ∈ sectionMarks.kinds := by rw [hword]; cases stage <;> decide
  rw [Marks.among_single_of_mem hmark]
  refine SpendsAt.seq (.expect (by decide)) fun _ => ?_
  refine SpendsAt.bind
    (P := fun b ms => ms.map (·.kind) = List.replicate b.2.length .uniformWord) ?_ ?_
  · refine SpendsAt.loop looks_isNotAt (fun b ms hms => ?_) rfl
    refine ((spends_blockItem b).mono fun b' ns hns => ?_).here
    rw [List.map_append, hms, hns]
  · rintro ⟨items, us⟩ ms hms
    refine SpendsAt.seq (.expect (by decide)) fun _ => ?_
    refine .pure ?_
    rw [List.append_nil, List.singleton_append, List.map_cons, hms, hword]
    rfl

/-- An item of a shader adds a block for the marks that it reads. -/
theorem spends_contentsItem (s : Contents) :
    Spends sectionMarks (contentsItem s) fun s' ms =>
      s'.blocks.flatMap Block.marks = s.blocks.flatMap Block.marks ++ ms.map (·.kind) := by
  have hblock :
      ∀ stage, Spends sectionMarks (do return { s with blocks := s.blocks ++ [← block stage] })
      fun s' ms => s'.blocks.flatMap Block.marks
        = s.blocks.flatMap Block.marks ++ ms.map (·.kind) := by
    intro stage
    refine (spends_block stage).bind_pure fun b ms hms => ?_
    simp [hms]
  refine SpendsAt.kind fun k _ => ?_
  refine SpendsAt.here ?_
  split
  · exact hblock .vertex
  split
  · exact hblock .fragment
  split
  · refine spares_function.bind_pure ?_
    rintro _ _ rfl
    exact (List.append_nil _).symm
  · exact .reject

/-- The inventory accounts for every word that opens a uniform or a section. -/
theorem spends_inventory :
    Spends sectionMarks inventory fun inv ms => ms.map (·.kind) = inv.marks := by
  refine SpendsAt.seq (.expect (by decide)) fun _ => ?_
  refine SpendsAt.check (w := .expected "IDENTIFIER or MAIN") ?_
  refine SpendsAt.seq (.takeText (.takeOf (by decide))) fun name => ?_
  refine SpendsAt.seq (.expect (by decide)) fun _ => ?_
  refine SpendsAt.seq (p := inputs) (spares_interface (by decide)) fun ins => ?_
  apply spends_declaredUniforms.bind
  intro us ms hms
  refine SpendsAt.seq (p := outputs) (spares_interface (by decide)) fun outs => ?_
  refine SpendsAt.bind (P := fun s ns => ns.map (·.kind) = s.blocks.flatMap Block.marks) ?_ ?_
  · refine SpendsAt.loop looks_isNotAt (fun s ns hns => ?_) rfl
    refine ((spends_contentsItem s).mono fun s' ns' hns' => ?_).here
    rw [List.map_append, hns, hns']
  · intro s ns hns
    refine SpendsAt.seq (.expect (by decide)) fun _ => ?_
    refine .pure ?_
    rw [List.append_nil, List.map_append, hms, hns]
    rfl

end ShaderBridge.CrossGl
