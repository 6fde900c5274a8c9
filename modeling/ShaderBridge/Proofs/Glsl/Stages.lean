import ShaderBridge.Proofs.Sources

/-!
# The stages of a GLSL source

The top level of a GLSL source is a list of pieces (`PiecesTo`): line comments, versions, layouts,
declarations and functions.  Each piece belongs to the stage that the nearest line comment in front
of it announces, and to none if there is no such comment.  A comment that names no stage announces
the vertex stage.

The tree of a source holds its pieces sorted by stage and by role, each once and in the order of the
source, and no function stands in front of the first comment (`parse_sorts_pieces`).  Layouts have a
list of their own, so their order among the plain declarations is lost.
-/

namespace ShaderBridge.Glsl

open ShaderBridge.Parser

/-! ## §1 Pieces -/

/-- What a piece of the top level is kept as. -/
inductive Role where
  | layout
  | input
  | output
  | uniform
  | function
deriving DecidableEq

/-- A single declaration behind its keyword. -/
def declared (build : Tree → Tree → Tree) : Parser Tree := do
  let _ ← take tv
  let (vtype, name) ← typedName
  return build vtype name

namespace Role

/-- What a piece begins with. -/
def starts : Role → List TokenKind
  | layout => [.layoutWord]
  | input => [.inWord]
  | output => [.outWord]
  | uniform => [.uniformWord]
  | function => functionStarts

/-- What a piece is read by.  A layout keeps the name of its stage. -/
def parser (stage : Option Stage) : Role → Parser Tree
  | layout => Glsl.layout (Tree.ofText? (stage.map (·.capitals)))
  | input => declared fun vtype name => .tuple [vtype, name]
  | output => declared fun vtype name => .tuple [vtype, name]
  | uniform => declared Tree.uniform
  | function => Glsl.function

end Role

/-- A piece of the top level. -/
inductive Piece where
  | comment (s : Text)
  | version
  | item (r : Role) (t : Tree)

/-- The stage behind a piece, if `stage` is the one in front of it. -/
def Piece.stageBehind (stage : Option Stage) : Piece → Option Stage
  | comment s => some (stageOfComment s)
  | _ => stage

/-- A piece that is read between two places. -/
inductive PieceAt (stage : Option Stage) (c : Cursor) : Piece → Cursor → Prop
  | comment {s : Text} (hk : c.kind = .lineComment) (h : c.current.text = some s) :
      PieceAt stage c (.comment s) (c.advance tv)
  | version {t : Tree} {c' : Cursor} (hk : c.kind = .versionWord) (h : version c = .ok t c') :
      PieceAt stage c .version c'
  | item {r : Role} {t : Tree} {c' : Cursor} (hk : c.kind ∈ r.starts)
      (h : r.parser stage c = .ok t c') : PieceAt stage c (.item r t) c'

/-- The pieces that are read one after another between two places. -/
inductive PiecesTo : Option Stage → Cursor → List Piece → Cursor → Prop
  | nil {stage : Option Stage} {c : Cursor} : PiecesTo stage c [] c
  | cons {stage : Option Stage} {c d c' : Cursor} {p : Piece} {ps : List Piece}
      (h : PieceAt stage c p d) (hmore : PiecesTo (p.stageBehind stage) d ps c') :
      PiecesTo stage c (p :: ps) c'

variable {c c' : Cursor} {stage : Option Stage} {s s' : ShaderItems}

theorem PiecesTo.append {d : Cursor} {ps qs : List Piece}
    (h : PiecesTo stage c ps d) (h' : PiecesTo (ps.foldl Piece.stageBehind stage) d qs c') :
    PiecesTo stage c (ps ++ qs) c' := by
  induction h with
  | nil => exact h'
  | cons hp _ ih => exact .cons hp (ih h')

/-! ## §2 Sorting -/

/-- The pieces that belong to a stage. -/
def piecesOf (wanted : Option Stage) : Option Stage → List Piece → List Piece
  | _, [] => []
  | stage, p :: ps =>
    (if stage = wanted then [p] else []) ++ piecesOf wanted (p.stageBehind stage) ps

/-- The trees of the pieces with a role. -/
def trees (r : Role) (ps : List Piece) : List Tree :=
  ps.filterMap fun
    | .item r' t => if r = r' then some t else none
    | _ => none

/-- Pieces sorted by role. -/
def StageItems.of (ps : List Piece) : StageItems :=
  ⟨trees .input ps, trees .output ps, trees .function ps, trees .layout ps⟩

/-- What has been read of a shader, with further pieces sorted by stage and by role. -/
def ShaderItems.put (s : ShaderItems) (ps : List Piece) : ShaderItems where
  stage := ps.foldl Piece.stageBehind s.stage
  shared := s.shared.append (.of (piecesOf none s.stage ps))
  vertex := s.vertex.append (.of (piecesOf (some .vertex) s.stage ps))
  fragment := s.fragment.append (.of (piecesOf (some .fragment) s.stage ps))
  uniforms := s.uniforms ++ trees .uniform ps

theorem piecesOf_append (wanted stage : Option Stage) (ps qs : List Piece) :
    piecesOf wanted stage (ps ++ qs)
      = piecesOf wanted stage ps ++ piecesOf wanted (ps.foldl Piece.stageBehind stage) qs := by
  induction ps generalizing stage with
  | nil => rfl
  | cons p ps ih => simp [piecesOf, ih]

theorem put_nil (s : ShaderItems) : s.put [] = s := by
  simp [ShaderItems.put, piecesOf, StageItems.of, StageItems.append, trees]

theorem put_append (s : ShaderItems) (ps qs : List Piece) :
    (s.put ps).put qs = s.put (ps ++ qs) := by
  simp [ShaderItems.put, piecesOf_append, StageItems.of, StageItems.append, trees]

theorem put_version (s : ShaderItems) : s.put [.version] = s := by
  obtain ⟨stage, shared, vertex, fragment, uniforms⟩ := s
  rcases stage with _ | _ | _ <;>
    simp [ShaderItems.put, piecesOf, StageItems.of, StageItems.append, trees, Piece.stageBehind]

theorem put_comment (s : ShaderItems) (text : Text) :
    s.put [.comment text] = { s with stage := some (stageOfComment text) } := by
  obtain ⟨stage, shared, vertex, fragment, uniforms⟩ := s
  rcases stage with _ | _ | _ <;>
    simp [ShaderItems.put, piecesOf, StageItems.of, StageItems.append, trees, Piece.stageBehind]

/-- Items of one role all belong to the stage in front of them. -/
theorem piecesOf_items (wanted stage : Option Stage) (r : Role) (ts : List Tree) :
    piecesOf wanted stage (ts.map (.item r)) = if stage = wanted then ts.map (.item r) else [] := by
  induction ts with
  | nil => simp [piecesOf]
  | cons t ts ih =>
    show (if stage = wanted then [Piece.item r t] else []) ++ piecesOf wanted stage _ = _
    rw [ih]
    split <;> simp

theorem foldl_items (stage : Option Stage) (r : Role) (ts : List Tree) :
    (ts.map (Piece.item r)).foldl Piece.stageBehind stage = stage := by
  induction ts with
  | nil => rfl
  | cons t ts ih => exact ih

/-- Items of one role are added to the lists of the current stage, and uniforms to their own. -/
theorem put_items (s : ShaderItems) (r : Role) (ts : List Tree) :
    s.put (ts.map (.item r)) = match r with
      | .layout => s.add { layouts := ts }
      | .input => s.add { inputs := ts }
      | .output => s.add { outputs := ts }
      | .uniform => { s with uniforms := s.uniforms ++ ts }
      | .function => s.add { functions := ts } := by
  obtain ⟨stage, shared, vertex, fragment, uniforms⟩ := s
  cases r <;> rcases stage with _ | _ | _ <;>
    simp [ShaderItems.put, ShaderItems.add, piecesOf_items, foldl_items, StageItems.append,
      StageItems.of, trees]

/-- Every function among the pieces belongs to a stage. -/
def Staged (stage : Option Stage) (ps : List Piece) : Prop :=
  trees .function (piecesOf none stage ps) = []

theorem Staged.append {ps qs : List Piece} (hps : Staged stage ps)
    (hqs : Staged (ps.foldl Piece.stageBehind stage) qs) : Staged stage (ps ++ qs) := by
  rw [Staged, piecesOf_append, trees, List.filterMap_append]
  exact List.append_eq_nil_iff.2 ⟨hps, hqs⟩

theorem staged_items {r : Role} (h : r = .function → stage ≠ none)
    (ts : List Tree) : Staged stage (ts.map (.item r)) := by
  rw [Staged, piecesOf_items]
  split_ifs with hstage
  · have hrole : ¬ Role.function = r := fun hr => h hr.symm hstage
    simp [trees, hrole]
  · rfl

/-! ## §3 Reading -/

/-- A run of declarations is read one by one. -/
theorem pieces_declarations {word : TokenKind}
    {build : Tree → Tree → Tree} {r : Role} (hstarts : r.starts = [word])
    (hparser : r.parser stage = declared build) {ts : List Tree}
    (h : declarations word build c = .ok ts c') :
    PiecesTo stage c (ts.map (.item r)) c' := by
  -- One piece for each round of the loop, the last one first.
  have hrounds : ∀ n acc found c, loopAt (isAt [word]) (fun acc => do
      return (← declared build) :: acc) n acc c = .ok found c' →
      ∃ ts : List Tree, found = ts.reverse ++ acc ∧ PiecesTo stage c (ts.map (.item r)) c' := by
    intro n
    induction n with
    | zero => rintro acc found c ⟨⟩
    | succ n ih =>
      intro acc found c hrun
      obtain ⟨hgo, rfl⟩ | ⟨d, acc', e, hgo, hround, -, hrest⟩ := loopAt_eq_ok_iff.1 hrun
      · obtain ⟨-, rfl⟩ := isAt_eq_ok_false hgo
        exact ⟨[], rfl, .nil⟩
      · obtain ⟨hk, rfl⟩ := isAt_eq_ok_true hgo
        obtain ⟨t, _, ht, hacc⟩ := bind_eq_ok hround
        cases hacc
        obtain ⟨ts, rfl, hts⟩ := ih _ _ _ hrest
        exact ⟨t :: ts, by simp, .cons (.item (hstarts ▸ hk) (hparser ▸ ht)) hts⟩
  obtain ⟨found, d, hrun, hts⟩ := bind_eq_ok h
  cases hts
  obtain ⟨ts, rfl, hpieces⟩ := hrounds _ _ _ _ hrun
  simpa using hpieces

/-- A comment in front of an item is a piece. -/
theorem pieces_stageComment
    (h : stageComment s c = .ok s' c') :
    ∃ ps, PiecesTo s.stage c ps c' ∧ Staged s.stage ps ∧ s' = s.put ps := by
  rw [stageComment, isAt_bind] at h
  by_cases hk : c.kind ∈ [.lineComment]
  · rw [decide_eq_true hk, if_pos rfl] at h
    obtain ⟨t, d, ht, h⟩ := bind_eq_ok h
    cases ht
    cases htext : c.current.text with
    | none =>
      rw [htext] at h
      cases h
    | some text =>
      rw [htext] at h
      cases h
      exact ⟨[.comment text], .cons (.comment (List.mem_singleton.1 hk) htext) .nil,
        by simp only [Staged, piecesOf]; split <;> rfl, (put_comment s text).symm⟩
  · rw [decide_eq_false hk] at h
    cases h
    exact ⟨[], .nil, rfl, (put_nil _).symm⟩

/-- An item of the top level is read as pieces, and these are what it adds.  A function that belongs
to no stage is rejected. -/
theorem pieces_shaderItem (h : shaderItem s c = .ok s' c') :
    ∃ ps, PiecesTo s.stage c ps c' ∧ Staged s.stage ps ∧ s' = s.put ps := by
  obtain ⟨s₁, d, hcomment, h⟩ := bind_eq_ok h
  obtain ⟨ps, hps, hstaged, rfl⟩ := pieces_stageComment hcomment
  -- The comment in front of the item comes first and may change the stage.
  suffices hitem : ∃ qs, PiecesTo (s.put ps).stage d qs c' ∧ Staged (s.put ps).stage qs ∧
      s' = (s.put ps).put qs by
    obtain ⟨qs, hqs, hstaged', rfl⟩ := hitem
    exact ⟨ps ++ qs, hps.append hqs, hstaged.append hstaged', put_append s ps qs⟩
  generalize s.put ps = s at h
  clear hps hcomment hstaged
  rw [kind_bind] at h
  have hone : ∀ {r : Role} {t : Tree}, d.kind ∈ r.starts → r.parser s.stage d = .ok t c' →
      PiecesTo s.stage d [.item r t] c' := fun hk ht => .cons (.item hk ht) .nil
  split at h
  · next hk =>
    obtain ⟨t, _, ht, hadd⟩ := bind_eq_ok h
    cases hadd
    exact ⟨_, hone (r := .layout) (by simp [hk, Role.starts]) ht,
      staged_items (r := .layout) (by simp) [t], (put_items s .layout [t]).symm⟩
  split at h
  · obtain ⟨ts, _, hts, hadd⟩ := bind_eq_ok h
    cases hadd
    exact ⟨_, pieces_declarations (r := .input) rfl rfl hts,
      staged_items (r := .input) (by simp) ts, (put_items s .input ts).symm⟩
  split at h
  · obtain ⟨ts, _, hts, hadd⟩ := bind_eq_ok h
    cases hadd
    exact ⟨_, pieces_declarations (r := .output) rfl rfl hts,
      staged_items (r := .output) (by simp) ts, (put_items s .output ts).symm⟩
  split at h
  · obtain ⟨ts, _, hts, hadd⟩ := bind_eq_ok h
    cases hadd
    exact ⟨_, pieces_declarations (r := .uniform) rfl rfl hts,
      staged_items (r := .uniform) (by simp) ts, (put_items s .uniform ts).symm⟩
  split at h
  · next hk =>
    obtain ⟨v, _, hv, hs⟩ := bind_eq_ok h
    cases hs
    exact ⟨[.version], .cons (.version hk hv) .nil, by simp only [Staged, piecesOf]; split <;> rfl,
      (put_version _).symm⟩
  split at h
  · next hk =>
    split at h
    · cases h
    · next hstage =>
      obtain ⟨t, _, ht, hadd⟩ := bind_eq_ok h
      cases hadd
      have hstaged : Staged s.stage [.item .function t] :=
        staged_items (fun _ hnone => hstage (by simp [hnone])) [t]
      exact ⟨_, hone (r := .function) hk ht, hstaged, (put_items s .function [t]).symm⟩
  split at h
  · split at h <;> cases h
  · cases h

/-- Reading the items of a shader reads its pieces. -/
theorem pieces_loop {n : Nat}
    (h : loopAt (isNotAt [.endOfInput]) shaderItem n s c = .ok s' c') :
    ∃ ps, PiecesTo s.stage c ps c' ∧ c'.kind = .endOfInput ∧ Staged s.stage ps ∧
      s' = s.put ps := by
  induction n generalizing s c with
  | zero => cases h
  | succ n ih =>
    obtain ⟨hgo, rfl⟩ | ⟨d, s₁, e, hgo, hround, -, hrest⟩ := loopAt_eq_ok_iff.1 h
    · obtain ⟨rfl, -⟩ := looks_isNotAt _ _ _ hgo
      refine ⟨[], .nil, ?_, rfl, (put_nil s).symm⟩
      simpa using hgo
    · obtain ⟨rfl, -⟩ := looks_isNotAt _ _ _ hgo
      obtain ⟨ps, hps, hstaged, rfl⟩ := pieces_shaderItem hround
      obtain ⟨qs, hqs, hend, hstaged', rfl⟩ := ih hrest
      exact ⟨ps ++ qs, hps.append hqs, hend, hstaged.append hstaged', put_append s ps qs⟩

/-- The tree of a source is made of its version and of its pieces, sorted by stage and by role, each
once and in the order of the source.  No function belongs to no stage, so none is lost with the
functions outside the stages, which the tree has no list for. -/
theorem parse_sorts_pieces {source : Text} {t : Tree} (h : Language.glsl.parse source = .ok t) :
    ∃ ts v c ps c', Language.glsl.tokenize source = .ok ts ∧
      version (Cursor.pastTrivia tv 0 ts) = .ok v c ∧ PiecesTo none c ps c' ∧
      c'.kind = .endOfInput ∧ trees .function (piecesOf none none ps) = [] ∧
      t = (ShaderItems.put {} ps).node v := by
  obtain ⟨ts, c', htokens, hrun⟩ := Language.parse_eq_ok_iff.1 h
  obtain ⟨_, _, hskip, hrun⟩ := bind_eq_ok hrun
  cases hskip
  obtain ⟨v, c, hv, hrun⟩ := bind_eq_ok hrun
  obtain ⟨s, _, hloop, hs⟩ := bind_eq_ok hrun
  cases hs
  obtain ⟨ps, hps, hend, hstaged, rfl⟩ := pieces_loop hloop
  exact ⟨ts, v, c, ps, c', htokens, hv, hps, hend, hstaged, rfl⟩

/-- A comment that names no stage, in the middle of the fragment stage. -/
def helperSource : Text :=
  "#version 450\n// fragment shader\nin vec2 a;\n// helper\nvoid main() { }".toList

theorem parse_sorts_pieces_helper :
    ∃ t ts v c ps c', Language.glsl.parse helperSource = .ok t ∧
      Language.glsl.tokenize helperSource = .ok ts ∧
      version (Cursor.pastTrivia tv 0 ts) = .ok v c ∧ PiecesTo none c ps c' ∧
      c'.kind = .endOfInput ∧ trees .function (piecesOf none none ps) = [] ∧
      t = (ShaderItems.put {} ps).node v := by
  have hparse : Succeeds (Language.glsl.parse helperSource) := by
    rw [show helperSource = _ from String.toList_ofList]
    decide +kernel
  obtain ⟨t, ht⟩ := hparse
  obtain ⟨ts, v, c, ps, c', hpieces⟩ := parse_sorts_pieces ht
  exact ⟨t, ts, v, c, ps, c', ht, hpieces⟩

/-- The function behind that comment is kept with the vertex stage. -/
theorem helper_comment_changes_stage :
    Language.glsl.parse helperSource = .ok (ShaderItems.node
      { vertex := { functions := [Tree.function (.text "void") (.text "main") [] []] },
        fragment := { inputs := [.tuple [.text "vec2", .text "a"]] } }
      (.node .version [(.versionNumber, .text "450"), (.profile, .absent)])) := by
  rw [show helperSource = _ from String.toList_ofList]
  decide +kernel

/-- Two outputs of a vertex section. -/
def twoOutputs : Text :=
  Text.cat [r"shader main { vertex { output vec4 c; output vec2 d; void main() { } } ",
    r"fragment { output vec4 e; void main() { } } }"]

/-- The first output is written plainly and the second with a layout, so they come back in the other
order. -/
theorem outputs_change_order :
    (do Route.fromGlsl.convert (← (Route.forward .glsl).convert twoOutputs)) = .ok (Text.cat
      [r"shader main {", "\n", r"    vertex {",
       "\n        output vec2 d;\n        output vec4 c;\n\n\n\n",
       r"        void main() {", "\n", r"        }", "\n", r"    }", "\n", r"    fragment {", "\n",
       "        output vec4 e;\n\n\n", r"        void main() {", "\n", r"        }", "\n",
       r"    }", "\n", r"}", "\n"]) := by
  rw [twoOutputs]
  repeat rw [String.toList_ofList]
  decide +kernel

end ShaderBridge.Glsl
