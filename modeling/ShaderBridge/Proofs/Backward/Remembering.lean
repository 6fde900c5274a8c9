import Mathlib.Algebra.GroupWithZero.Nat
import ShaderBridge.Proofs.History
import ShaderBridge.Proofs.Totality

/-!
# What a converter remembers

A converter of HLSL or Metal adds the interface of each shader to what it has collected before, and
it writes all of that into every text.  So a shader behind others is written as a new converter
writes it exactly if none of the others declares anything (`generateAll_backward_iff`); where an
entry point is missing there is no text that could differ.

The argument has two halves.  Whatever was collected before, a shader adds the same to it (§2), and
everything that is added makes the text longer (§3).
-/

namespace ShaderBridge.Backward

variable {d : Dialect}

/-! ## §1 States in a row -/

namespace State

/-- What was collected into one state and then into another. -/
def append (s c : State) : State where
  vertexInputs := s.vertexInputs ++ c.vertexInputs
  vertexOutputs := s.vertexOutputs ++ c.vertexOutputs
  fragmentInputs := s.fragmentInputs ++ c.fragmentInputs
  fragmentOutputs := s.fragmentOutputs ++ c.fragmentOutputs

instance : Append State := ⟨append⟩

variable {s c : State}

@[simp]
theorem side_append (s c : State) (q : Channel) : (s ++ c).side q = s.side q ++ c.side q := by
  rcases q with ⟨_ | _, _ | _⟩ <;> rfl

@[simp]
theorem side_empty (q : Channel) : side {} q = [] := by
  rcases q with ⟨_ | _, _ | _⟩ <;> rfl

theorem eq_of_side (h : ∀ q, s.side q = c.side q) : s = c := by
  obtain ⟨_, _, _, _⟩ := s
  obtain ⟨_, _, _, _⟩ := c
  have hvi := h ⟨.vertex, false⟩
  have hvo := h ⟨.vertex, true⟩
  have hfi := h ⟨.fragment, false⟩
  have hfo := h ⟨.fragment, true⟩
  simp only [side, inputs, outputs, if_true, Bool.false_eq_true, if_false] at hvi hvo hfi hfo
  rw [hvi, hvo, hfi, hfo]

theorem append_assoc (s t c : State) : s ++ t ++ c = s ++ (t ++ c) := by
  refine eq_of_side fun q => ?_
  simp

@[simp]
theorem append_empty (s : State) : s ++ ({} : State) = s := by
  refine eq_of_side fun q => ?_
  simp

@[simp]
theorem empty_append (s : State) : ({} : State) ++ s = s := by
  refine eq_of_side fun q => ?_
  simp

theorem eq_empty_iff : s = {} ↔ ∀ q, s.side q = [] := by
  constructor
  · rintro rfl
    exact side_empty
  · intro h
    refine eq_of_side fun q => ?_
    simp [h]

theorem append_eq_empty_iff : s ++ c = {} ↔ s = {} ∧ c = {} := by
  simp [eq_empty_iff, forall_and]

/-- Adding a variable is adding a state with that variable alone. -/
theorem add_eq_append (s : State) (p : Channel) (v : Tree × Tree) :
    s.add p v = s ++ ({} : State).add p v := by
  apply eq_of_side
  intro q
  rw [side_append, side_add, side_add, side_empty]
  split <;> simp

theorem add_ne_empty (s : State) (p : Channel) (v : Tree × Tree) : s.add p v ≠ {} := by
  intro h
  have hside := eq_empty_iff.1 h p
  simp [side_add] at hside

theorem Ready.append (hs : s.Ready d) (hc : c.Ready d) : (s ++ c).Ready d := by
  intro q v hv
  rw [side_append, List.mem_append] at hv
  exact hv.elim (hs q v) (hc q v)

end State

/-! ## §2 What a shader adds -/

/-- From every state the outcome is the same and the same is added to the state.  Unless a fault
ends the work, something is added exactly if `P`. -/
def Adds (P : Prop) (g : Gen State Unit) : Prop :=
  ∃ (x : Except Fault Unit) (c : State), (∀ s, g.outcome s = x ∧ g.left s = s ++ c) ∧
    (Succeeds x → (c = {} ↔ ¬ P))

namespace Adds

variable {α : Type} {P Q : Prop} {g h : Gen State Unit}

theorem congr (hg : Adds P g) (hPQ : P ↔ Q) : Adds Q g := by rwa [← hPQ]

theorem pure : Adds False (pure ()) :=
  ⟨.ok (), {}, fun s => ⟨rfl, (State.append_empty s).symm⟩, by simp⟩

theorem add (p : Channel) (v : Tree × Tree) : Adds True (modify (·.add p v)) := by
  refine ⟨.ok (), ({} : State).add p v, fun s => ⟨rfl, State.add_eq_append s p v⟩, fun _ => ?_⟩
  simp [State.add_ne_empty]

theorem bind_lift {x : Except Fault α} {f : α → Gen State Unit}
    (hf : ∀ a, x = .ok a → Adds P (f a)) : Adds P (liftM x >>= f) := by
  cases x with
  | error e =>
    refine ⟨.error e, {}, fun s => ⟨rfl, (State.append_empty s).symm⟩, ?_⟩
    rintro ⟨_, ⟨⟩⟩
  | ok a => exact hf a rfl

theorem seq (hg : Adds P g) (hh : Adds Q h) : Adds (P ∨ Q) (g >>= fun _ => h) := by
  obtain ⟨x, c, hrun, hx⟩ := hg
  obtain ⟨y, c', hrun', hy⟩ := hh
  cases x with
  | error e =>
    -- A fault ends the walk, and what comes behind it adds nothing.
    refine ⟨.error e, c, fun s => ?_, ?_⟩
    · rw [Gen.outcome_bind, (hrun s).1, Gen.left_bind_of_error (hrun s).1]
      exact ⟨rfl, (hrun s).2⟩
    · rintro ⟨_, ⟨⟩⟩
  | ok u =>
    refine ⟨y, c ++ c', fun s => ?_, fun hsucceeds => ?_⟩
    · rw [Gen.outcome_bind, Gen.left_bind_of_ok (hrun s).1, (hrun s).1, (hrun s).2,
        ← State.append_assoc]
      exact hrun' (s ++ c)
    · rw [State.append_eq_empty_iff, hx ⟨u, rfl⟩, hy hsucceeds, not_or]

theorem forM {xs : List α} {f : α → Gen State Unit} {P : α → Prop}
    (hf : ∀ x ∈ xs, Adds (P x) (f x)) : Adds (∃ x ∈ xs, P x) (xs.forM f) := by
  induction xs with
  | nil => exact Adds.pure.congr (by simp)
  | cons x xs ih =>
    obtain ⟨hx, hxs⟩ := List.forall_mem_cons.1 hf
    exact (hx.seq (ih hxs)).congr (by simp)

end Adds

/-- A member becomes a part of the interface: all do but the position of a vertex. -/
def IsCollected (p : Channel) (m : Tree) : Prop :=
  ¬ (p = ⟨.vertex, true⟩ ∧ m.get .name = .ok (.text "position"))

/-- A structure has members for a side of a stage. -/
def HasMembers (p : Channel) (struct : Tree) : Prop :=
  ∃ ms, (do (← struct.get .members).items) = .ok ms ∧ ∃ m ∈ ms, IsCollected p m

/-- A shader declares an input or an output of a stage. -/
def Declares (d : Dialect) (t : Tree) : Prop :=
  ∃ p struct, Collects t p struct d ∧ HasMembers p struct

theorem adds_member {p : Channel} {m : Tree} :
    Adds True (do
      let v ← (member d m : Except Fault _)
      modify (·.add p v)) := by
  refine Adds.bind_lift fun v _ => ?_
  exact Adds.add p v

/-- Taking up a struct only adds, and adds nothing just if it has no members for the side. -/
theorem adds_collectMembers (d : Dialect) (p : Channel) (struct : Tree) :
    Adds (HasMembers p struct) (collectMembers d p struct) := by
  -- The position is the one member of an output that is passed over.
  have hunless : ∀ (m : Tree) (isPosition : Bool), Adds (isPosition = false) (do
      if !isPosition then
        let v ← (member d m : Except Fault _)
        modify (·.add p v)) := by
    intro m isPosition
    cases isPosition with
    | true => exact Adds.pure.congr (by simp)
    | false => exact adds_member.congr (by simp)
  refine Adds.bind_lift fun ms hms => ?_
  refine Adds.congr (Adds.forM (P := IsCollected p) fun m _ => ?_) ?_
  · dsimp only
    split
    · next hp =>
      refine Adds.bind_lift fun name hname => ?_
      refine (hunless m _).congr ?_
      rw [IsCollected, hname, Bool.eq_false_iff, ne_eq, isText_iff]
      simp [hp]
    · next hp => exact (hunless m false).congr (by simp [IsCollected, hp])
  · simp [HasMembers, hms]

theorem find?_structNames_eq_some_iff {name : Tree} {p : Channel} :
    (∃ word, structNames.find? (fun entry => name.isText entry.1) = some (word, p)) ↔
      ∃ word, (word, p) ∈ structNames ∧ name = .text word := by
  constructor
  · rintro ⟨word, hfound⟩
    exact ⟨word, List.mem_of_find?_eq_some hfound,
      isText_iff.1 (by simpa using List.find?_some hfound)⟩
  · -- The four names differ, so the first one that is equal is the only one.
    have hfirst : ∀ entry ∈ structNames,
        structNames.find? (fun other => (Tree.text entry.1).isText other.1) = some entry := by
          decide
    rintro ⟨word, hmem, rfl⟩
    exact ⟨word, hfirst (word, p) hmem⟩

/-- The interface of a shader adds something just if the shader declares something. -/
theorem adds_collect {t : Tree} {fs : List Tree} (hfs : t.get .functions = .ok (.list fs)) :
    Adds (Declares d t) (collect d t) := by
  cases d with
  -- In HLSL a structure is found by the field of the shader that holds it.
  | hlsl =>
    refine Adds.congr (Adds.forM (P := fun x => ∃ struct, t.get x.1 = .ok struct ∧ struct.isSet ∧
      HasMembers x.2 struct) fun x _ => ?_) ?_
    · refine Adds.bind_lift fun struct hstruct => ?_
      split
      · next hset => exact (adds_collectMembers .hlsl x.2 struct).congr (by simp [hstruct, hset])
      · next hset => exact Adds.pure.congr (by simp [hstruct, hset])
    · constructor
      · rintro ⟨⟨f, p⟩, hx, struct, hstruct, hset, hmembers⟩
        exact ⟨p, struct, ⟨f, hx, hstruct, hset⟩, hmembers⟩
      · rintro ⟨p, struct, ⟨f, hx, hstruct, hset⟩, hmembers⟩
        exact ⟨(f, p), hx, struct, hstruct, hset, hmembers⟩
  -- In Metal it is found by its name, among all items of the shader.
  | metal =>
    have hitems : (do (← t.get .functions).items : Except Fault (List Tree)) = .ok fs := by
      rw [hfs]
      rfl
    refine Adds.bind_lift fun items hitems' => ?_
    cases hitems.symm.trans hitems'
    refine Adds.congr (Adds.forM (P := fun item => item.isNode .struct ∧ ∃ p word,
      (word, p) ∈ structNames ∧ item.get .name = .ok (.text word) ∧ HasMembers p item)
      fun item _ => ?_) ?_
    · split
      · next hnode =>
        refine Adds.bind_lift fun name hname => ?_
        split
        · next word p hfound =>
          obtain ⟨word', hmem, rfl⟩ := find?_structNames_eq_some_iff.1 ⟨word, hfound⟩
          refine (adds_collectMembers .metal p item).congr ⟨fun hmembers => ?_, ?_⟩
          · exact ⟨hnode, p, word', hmem, hname, hmembers⟩
          -- The name is found once, so it stands for one channel.
          · rintro ⟨-, q, other, hother, hget, hmembers⟩
            cases hname.symm.trans hget
            obtain ⟨_, hfound'⟩ := find?_structNames_eq_some_iff.2 ⟨word', hother, rfl⟩
            cases hfound.symm.trans hfound'
            exact hmembers
        · next hnone =>
          refine Adds.pure.congr (iff_of_false id ?_)
          rintro ⟨-, p, word, hmem, hget, -⟩
          cases hname.symm.trans hget
          obtain ⟨_, hfound⟩ := find?_structNames_eq_some_iff.2 ⟨word, hmem, rfl⟩
          cases hnone.symm.trans hfound
      · next hnode => exact Adds.pure.congr (by simp [hnode])
    · constructor
      · rintro ⟨item, hitem, hnode, p, word, hmem, hname, hmembers⟩
        exact ⟨p, item, ⟨fs, word, hfs, hitem, hnode, hmem, hname⟩, hmembers⟩
      · rintro ⟨p, item, ⟨fs', word, hfs', hitem, hnode, hmem, hname⟩, hmembers⟩
        cases hfs.symm.trans hfs'
        exact ⟨item, hitem, hnode, p, word, hmem, hname, hmembers⟩

/-- What a new converter collects from a shader. -/
def interfaceOf (d : Dialect) (t : Tree) : State := (collect d t).left {}

namespace IsShader

variable {t : Tree}

/-- A shader adds the same to every state, and it adds nothing exactly if it declares nothing. -/
theorem collect_spec (h : IsShader d t) :
    (∀ s, (collect d t).outcome s = .ok () ∧ (collect d t).left s = s ++ interfaceOf d t) ∧
      (interfaceOf d t = {} ↔ ¬ Declares d t) := by
  obtain ⟨fs, hfs, -⟩ := h.items
  obtain ⟨x, c, hrun, hx⟩ := adds_collect (d := d) hfs
  obtain ⟨⟨⟩, s, hstart, -⟩ := h.collected {} State.ready_empty
  have hok : x = .ok () := (hrun {}).1.symm.trans (Gen.outcome_of_ok hstart)
  subst hok
  have hc : interfaceOf d t = c := (hrun {}).2.trans (State.empty_append c)
  rw [hc]
  exact ⟨hrun, hx ⟨(), rfl⟩⟩

theorem ready_interfaceOf (h : IsShader d t) : (interfaceOf d t).Ready d := by
  obtain ⟨_, s, hstart, hs⟩ := h.collected {} State.ready_empty
  rwa [interfaceOf, Gen.left_of_ok hstart]

/-- A text is written from what was collected before and what the shader adds. -/
theorem generate_spec (h : IsShader d t) (s : State) :
    (generate d t).outcome s = shaderText d (s ++ interfaceOf d t) t ∧
      (generate d t).left s = s ++ interfaceOf d t := by
  obtain ⟨houtcome, hleft⟩ := h.collect_spec.1 s
  have hwrite : ∀ s', (do shaderText d (← get) t : Gen State Text).outcome s' = shaderText d s' t ∧
      (do shaderText d (← get) t : Gen State Text).left s' = s' :=
    fun s' => ⟨Gen.outcome_lift _, Gen.left_lift _ _⟩
  unfold generate
  rw [Gen.outcome_bind, Gen.left_bind_of_ok houtcome, houtcome, hleft]
  exact hwrite _

end IsShader

/-- What shaders one after another leave behind. -/
theorem exists_leftAll {ts : List Tree} (h : ∀ t ∈ ts, IsShader d t) (s : State) :
    ∃ c, Gen.leftAll (generate d) s ts = s ++ c ∧ c.Ready d ∧
      (c = {} ↔ ∀ t ∈ ts, ¬ Declares d t) := by
  induction ts generalizing s with
  | nil => exact ⟨{}, (State.append_empty s).symm, State.ready_empty, by simp⟩
  | cons t ts ih =>
    obtain ⟨ht, hts⟩ := List.forall_mem_cons.1 h
    obtain ⟨c, hleft, hready, hempty⟩ := ih hts (s ++ interfaceOf d t)
    refine ⟨interfaceOf d t ++ c, ?_, ht.ready_interfaceOf.append hready, ?_⟩
    · rw [← State.append_assoc, ← hleft, ← (ht.generate_spec s).2]
      rfl
    · rw [State.append_eq_empty_iff, hempty, ht.collect_spec.2, List.forall_mem_cons]

/-! ## §3 What was collected is written -/

/-- The length of a declaration. -/
def lineWidth (d : Dialect) (word : Text) (v : Tree × Tree) : Nat :=
  match declaration d word v with
  | .ok line => line.length
  | .error _ => 0

/-- The length of the declarations of a stage. -/
def width (d : Dialect) (s : State) (stage : Stage) : Nat :=
  ((s.side ⟨stage, false⟩).map (lineWidth d "input")).sum
    + ((s.side ⟨stage, true⟩).map (lineWidth d "output")).sum

theorem width_append (s c : State) (stage : Stage) :
    width d (s ++ c) stage = width d s stage + width d c stage := by
  simp [width]
  omega

/-- Every declaration is a line. -/
theorem exists_of_declaration {word line : Text} {v : Tree × Tree}
    (h : declaration d word v = .ok line) : ∃ u, line = u ++ ";\n" := by
  have hends : ∀ vtype : Tree, ∃ u,
      Text.cat ["        ", word, " ", plain d vtype, " ", plain d v.2, ";\n"] = u ++ ";\n" :=
    fun vtype =>
      ⟨Text.cat ["        ", word, " ", plain d vtype, " ", plain d v.2], by simp [Text.cat]⟩
  cases d with
  | hlsl =>
    change (Dialect.hlsl.mapType v.1 >>= fun vtype => _) = _ at h
    cases hvtype : Dialect.hlsl.mapType v.1 with
    | error e =>
      rw [hvtype] at h
      cases h
    | ok vtype =>
      rw [hvtype] at h
      cases h
      exact hends vtype
  | metal =>
    cases h
    exact hends v.1

/-- Each declaration ends in a line break, and all have their full length. -/
theorem exists_lines {vs : List (Tree × Tree)} (word : Text)
    (h : ∀ v ∈ vs, IsDeclared d v) :
    ∃ lines : List Text, vs.mapM (declaration d word) = .ok lines ∧
      (∀ line ∈ lines, ∃ u, line = u ++ ";\n") ∧
      (Text.cat lines).length = (vs.map (lineWidth d word)).sum := by
  induction vs with
  | nil => exact ⟨[], rfl, by simp, rfl⟩
  | cons v vs ih =>
    obtain ⟨hv, hvs⟩ := List.forall_mem_cons.1 h
    obtain ⟨line, hline, -⟩ := hv word
    obtain ⟨lines, hlines, hends, hlength⟩ := ih hvs
    refine ⟨line :: lines, ?_, ?_, ?_⟩
    · rw [List.mapM_cons, hline, hlines]
      rfl
    · exact List.forall_mem_cons.2 ⟨exists_of_declaration hline, hends⟩
    · have hwidth : lineWidth d word v = line.length := by rw [lineWidth, hline]
      simp only [Text.cat, List.flatten_cons, List.length_append, List.map_cons, List.sum_cons,
        hwidth] at hlength ⊢
      omega

/-- Of lines only the last line end is cut off. -/
theorem length_trimEnd {lines : List Text} (h : ∀ line ∈ lines, ∃ u, line = u ++ ";\n") :
    (Text.trimEnd (Text.cat lines)).length = (Text.cat lines).length - 1 := by
  rcases lines.eq_nil_or_concat with rfl | ⟨init, last, rfl⟩
  · rfl
  · obtain ⟨u, rfl⟩ := h last (by simp)
    have hcat : Text.cat (init ++ [u ++ ";\n"]) = (Text.cat init ++ u) ++ ";\n" := by
      simp [Text.cat]
    rw [List.concat_eq_append, hcat, Text.trimEnd_semicolon]
    simp

/-- The declarations of a stage lack only the last line break. -/
theorem exists_declarations {s : State} (hs : s.Ready d) (stage : Stage) :
    ∃ text, declarations d s (.text stage.label) = .ok text ∧
      text.length = width d s stage - 1 := by
  have hof : Stage.of? (.text stage.label) = some stage := by cases stage <;> rfl
  obtain ⟨ins, hins, hinEnds, hinLength⟩ := exists_lines "input" (hs ⟨stage, false⟩)
  obtain ⟨outs, houts, houtEnds, houtLength⟩ := exists_lines "output" (hs ⟨stage, true⟩)
  refine ⟨Text.trimEnd (Text.cat (ins ++ outs)), ?_, ?_⟩
  · have hsides : declarations d s (.text stage.label) = do
        let ins ← (s.side ⟨stage, false⟩).mapM (declaration d "input")
        let outs ← (s.side ⟨stage, true⟩).mapM (declaration d "output")
        return Text.trimEnd (Text.cat (ins ++ outs)) := by
      unfold declarations
      rw [hof]
      rfl
    rw [hsides, hins, houts]
    rfl
  · rw [length_trimEnd (List.forall_mem_append.2 ⟨hinEnds, houtEnds⟩), width, ← hinLength,
      ← houtLength]
    simp [Text.cat]

/-- A side that is not empty has at least the two characters that end a line. -/
theorem two_le_width {s : State} (hs : s.Ready d) {q : Channel} (hq : s.side q ≠ []) :
    2 ≤ width d s q.stage := by
  -- One line is enough, and a line ends in a semicolon and a line end.
  have hline : ∀ (p : Channel) (word : Text), s.side p ≠ [] →
      2 ≤ ((s.side p).map (lineWidth d word)).sum := by
    intro p word hp
    obtain ⟨lines, hlines, hends, hlength⟩ := exists_lines word (hs p)
    cases hvs : s.side p with
    | nil => exact absurd hvs hp
    | cons v vs =>
      obtain ⟨line, hdeclared, -⟩ := hs p v (by simp [hvs]) word
      obtain ⟨u, rfl⟩ := exists_of_declaration hdeclared
      simp [lineWidth, hdeclared]
      omega
  obtain ⟨stage, isOutput⟩ := q
  unfold width
  cases isOutput with
  | false =>
    have hins := hline _ "input" hq
    dsimp only
    omega
  | true =>
    have houts := hline _ "output" hq
    dsimp only
    omega

/-- The texts of a stage differ in their declarations only. -/
theorem exists_stageSection {fs : List Tree} (h : ∀ f ∈ fs, IsItem d f) {stage : Stage}
    (hentry : ∃ f ∈ fs, IsEntry d stage f) :
    ∃ n, ∀ s : State, s.Ready d → ∃ text, stageSection d s stage fs = .ok text ∧
      text.length = n + (width d s stage - 1) := by
  obtain ⟨f, hf, hisEntry, hfound⟩ | ⟨hnone, -⟩ := findEntry_cases h stage
  · obtain ⟨entry, hwritten⟩ : Succeeds (entryPoint d f) := by
      rcases h f hf with hfunction | ⟨rfl, hother⟩
      · exact hfunction.yields_entryPoint.succeeds
      · exact absurd hisEntry.1 (by simp [hother])
    -- Only the interface depends on the state; title, body and braces are `n`.
    refine ⟨(title stage).length + entry.length + 7, fun s hs => ?_⟩
    obtain ⟨interface, hinterface, hlength⟩ := exists_declarations hs stage
    refine ⟨Text.cat [title stage, interface, "\n", entry, r"    }", "\n"], ?_, ?_⟩
    · have hparts : stageSection d s stage fs = do
          let entry ← entryPoint d f
          return Text.cat [title stage, interface, "\n", entry, r"    }", "\n"] := by
        unfold stageSection
        dsimp only
        rw [hinterface, hfound]
        cases d <;> cases stage <;> rfl
      rw [hparts, hwritten]
      rfl
    · simp [Text.cat, hlength]
      omega
  · obtain ⟨f, hf, hisEntry⟩ := hentry
    exact absurd hisEntry (hnone f hf)

namespace IsShader

variable {t : Tree}

theorem exists_shaderText_length (h : IsShader d t) (hv : Defines d .vertex t)
    (hf : Defines d .fragment t) :
    ∃ n, ∀ s : State, s.Ready d → ∃ text, shaderText d s t = .ok text ∧
      text.length = n + (width d s .vertex - 1) + (width d s .fragment - 1) := by
  obtain ⟨fs, hfs, hitems⟩ := h.items
  obtain ⟨helpers, -, htext⟩ := h.exists_shaderText hfs
  obtain ⟨n, hvertex⟩ := exists_stageSection hitems ((defines_iff hfs .vertex).1 hv)
  obtain ⟨m, hfragment⟩ := exists_stageSection hitems ((defines_iff hfs .fragment).1 hf)
  refine ⟨(opening d).length + helpers.length + n + m + 3, fun s hs => ?_⟩
  obtain ⟨vertex, hvertexText, hvertexLength⟩ := hvertex s hs
  obtain ⟨fragment, hfragmentText, hfragmentLength⟩ := hfragment s hs
  refine ⟨Text.cat [opening d, helpers, vertex, "\n", fragment, r"}", "\n"], ?_, ?_⟩
  · rw [htext, hvertexText, hfragmentText]
    rfl
  · simp [Text.cat, hvertexLength, hfragmentLength]
    omega

/-- What was collected before shows in the text. -/
theorem shaderText_append_eq_iff (h : IsShader d t) (hv : Defines d .vertex t)
    (hf : Defines d .fragment t) {s c : State} (hs : s.Ready d) (hc : c.Ready d) :
    shaderText d (s ++ c) t = shaderText d c t ↔ s = {} := by
  constructor
  · intro heq
    by_contra hne
    obtain ⟨q, hq⟩ : ∃ q, s.side q ≠ [] := by simpa [State.eq_empty_iff] using hne
    obtain ⟨n, hlength⟩ := h.exists_shaderText_length hv hf
    obtain ⟨text, htext, htextLength⟩ := hlength c hc
    obtain ⟨longer, hlonger, hlongerLength⟩ := hlength (s ++ c) (hs.append hc)
    rw [hlonger, htext] at heq
    cases heq
    have hwidth := two_le_width hs hq
    rw [width_append, width_append] at hlongerLength
    -- The section of the stage is longer by a line at least, and the other one is not shorter.
    obtain ⟨stage, isOutput⟩ := q
    cases stage with
    | vertex => dsimp only at hwidth; omega
    | fragment => dsimp only at hwidth; omega
  · rintro rfl
    rw [State.empty_append]

end IsShader

/-! ## §4 Shaders behind others -/

/-- A shader behind others is written as a new converter writes it exactly if none of the others
declares an input or an output, or if an entry point of the shader is missing. -/
theorem generateAll_backward_iff (d : Dialect) (earlier : List Tree) (t : Tree) (later : List Tree)
    (hearlier : ∀ u ∈ earlier, ∃ source, d.language.parse source = .ok u)
    (ht : ∃ source, d.language.parse source = .ok t) :
    ((Route.backward d).generateAll (earlier ++ t :: later))[earlier.length]?
        = some ((Route.backward d).generate t) ↔
      (∀ u ∈ earlier, ¬ Declares d u) ∨ ¬ (Defines d .vertex t ∧ Defines d .fragment t) := by
  obtain ⟨source, hparse⟩ := ht
  have hshader : IsShader d t := isShader_of_parse hparse
  have hshaders : ∀ u ∈ earlier, IsShader d u := fun u hu => by
    obtain ⟨source, hparse⟩ := hearlier u hu
    exact isShader_of_parse hparse
  obtain ⟨c, hleft, hready, hempty⟩ := exists_leftAll hshaders {}
  have hnew : (Route.backward d).generate t = shaderText d (interfaceOf d t) t := by
    rw [← State.empty_append (interfaceOf d t)]
    exact (hshader.generate_spec {}).1
  -- The outcome at this place is that of a generator in the state left by the earlier ones.
  rw [Route.generateAll, Gen.getElem?_outcomes, hleft, State.empty_append,
    (hshader.generate_spec c).1, hnew, Option.some_inj]
  by_cases hboth : Defines d .vertex t ∧ Defines d .fragment t
  · rw [hshader.shaderText_append_eq_iff hboth.1 hboth.2 hready hshader.ready_interfaceOf, hempty]
    simp [hboth]
  · -- The missing entry point is the fault in any case.
    have hfault : ∀ {s : State}, s.Ready d → shaderText d s t = .error .noEntryPoint := fun hs =>
      (hshader.shaderText_cases hs).elim (fun h => absurd ⟨h.1, h.2.1⟩ hboth) (·.2)
    rw [hfault (hready.append hshader.ready_interfaceOf), hfault hshader.ready_interfaceOf]
    simp [hboth]

/-- A source with empty entry points; one that declares an input of its vertices, or one that
declares nothing. -/
def entriesSource : Dialect → Bool → Text
  | .hlsl, true => "struct VSInput { float x; }; void VSMain() { } void PSMain() { }"
  | .hlsl, false => "void VSMain() { } void PSMain() { }"
  | .metal, true =>
    "struct Vertex_INPUT { float x; }; vertex void f() { } fragment void g() { }"
  | .metal, false => "vertex void f() { } fragment void g() { }"

/-- The tree of that source. -/
def entriesTree : Dialect → Bool → Tree
  | .hlsl, declares =>
    let input := Tree.struct (.text "VSInput") [Hlsl.var (.text "float") (.text "x")]
    .node .shader
      [(.vertexInput, if declares then input else .absent), (.vertexOutput, .absent),
       (.fragmentInput, .absent), (.fragmentOutput, .absent),
       (.functions, .list
         [Tree.function (.text "void") (.text "VSMain") [] [],
          Tree.function (.text "void") (.text "PSMain") [] []])]
  | .metal, declares =>
    let input := Tree.struct (.text "Vertex_INPUT") [Metal.var (.text "float") (.text "x")]
    let entries :=
      [Tree.qualifiedFunction (.text "vertex") (.text "void") (.text "f") [] [] [],
       Tree.qualifiedFunction (.text "fragment") (.text "void") (.text "g") [] [] []]
    Tree.program (if declares then input :: entries else entries)

theorem parse_entriesSource (d : Dialect) (declares : Bool) :
    d.language.parse (entriesSource d declares) = .ok (entriesTree d declares) := by
  cases d <;> cases declares
  · decide +kernel
  · rw [show entriesSource .hlsl true = _ from String.toList_ofList]
    decide +kernel
  · decide +kernel
  · rw [show entriesSource .metal true = _ from String.toList_ofList]
    decide +kernel

theorem generateAll_backward_iff_entries :
    Language.hlsl.parse (entriesSource .hlsl true) = .ok (entriesTree .hlsl true) ∧
      Language.hlsl.parse (entriesSource .hlsl false) = .ok (entriesTree .hlsl false) ∧
      ((Route.backward .hlsl).generateAll [entriesTree .hlsl false, entriesTree .hlsl true])[1]?
        = some ((Route.backward .hlsl).generate (entriesTree .hlsl true)) ∧
      ¬ ((Route.backward .hlsl).generateAll [entriesTree .hlsl true, entriesTree .hlsl false])[1]?
        = some ((Route.backward .hlsl).generate (entriesTree .hlsl false)) := by
  have hparse := parse_entriesSource .hlsl
  have hdefines : ∀ stage, Defines .hlsl stage (entriesTree .hlsl false) := by
    intro stage
    cases stage with
    | vertex => exact ⟨_, rfl, _, List.mem_cons_self, rfl, rfl⟩
    | fragment => exact ⟨_, rfl, _, List.mem_cons_of_mem _ List.mem_cons_self, rfl, rfl⟩
  -- The second shader declares nothing: its structures are not there.
  have hnothing : ¬ Declares .hlsl (entriesTree .hlsl false) := by
    rintro ⟨p, struct, ⟨f, hf, hstruct, hset⟩, -⟩
    simp only [structFields, List.mem_cons, List.not_mem_nil, or_false] at hf
    rcases hf with ⟨⟨⟩⟩ | ⟨⟨⟩⟩ | ⟨⟨⟩⟩ | ⟨⟨⟩⟩ <;> cases hstruct <;> cases hset
  have hsomething : Declares .hlsl (entriesTree .hlsl true) := by
    refine ⟨⟨.vertex, false⟩, _, ⟨.vertexInput, List.mem_cons_self, rfl, rfl⟩, ?_⟩
    exact ⟨_, rfl, _, List.mem_cons_self, by simp [IsCollected]⟩
  refine ⟨hparse true, hparse false, ?_, fun heq => ?_⟩
  · apply (generateAll_backward_iff .hlsl [entriesTree .hlsl false] (entriesTree .hlsl true) []
      (List.forall_mem_singleton.2 ⟨_, hparse false⟩) ⟨_, hparse true⟩).2
    exact .inl (List.forall_mem_singleton.2 hnothing)
  · rcases (generateAll_backward_iff .hlsl [entriesTree .hlsl true] (entriesTree .hlsl false) []
      (List.forall_mem_singleton.2 ⟨_, hparse true⟩) ⟨_, hparse false⟩).1 heq with hnone | hmissing
    · exact hnone _ List.mem_cons_self hsomething
    · exact hmissing ⟨hdefines .vertex, hdefines .fragment⟩

/-- In both languages the input of the first source is written into the text of the second one. -/
theorem generateAll_backward_remembers :
    (Language.hlsl.parse (entriesSource .hlsl true) = .ok (entriesTree .hlsl true) ∧
      Language.hlsl.parse (entriesSource .hlsl false) = .ok (entriesTree .hlsl false) ∧
      (Route.backward .hlsl).generateAll [entriesTree .hlsl true, entriesTree .hlsl false]
        ≠ [entriesTree .hlsl true, entriesTree .hlsl false].map (Route.backward .hlsl).generate) ∧
    (Language.metal.parse (entriesSource .metal true) = .ok (entriesTree .metal true) ∧
      Language.metal.parse (entriesSource .metal false) = .ok (entriesTree .metal false) ∧
      (Route.backward .metal).generateAll [entriesTree .metal true, entriesTree .metal false]
        ≠ [entriesTree .metal true, entriesTree .metal false].map
          (Route.backward .metal).generate) := by
  have hremembers : ∀ d : Dialect,
      (Route.backward d).generateAll [entriesTree d true, entriesTree d false]
        ≠ [entriesTree d true, entriesTree d false].map (Route.backward d).generate := by
    intro d
    cases d <;> decide +kernel
  have hhlsl := parse_entriesSource .hlsl
  have hmetal := parse_entriesSource .metal
  exact ⟨⟨hhlsl true, hhlsl false, hremembers .hlsl⟩, hmetal true, hmetal false, hremembers .metal⟩

end ShaderBridge.Backward
