import ShaderBridge.Proofs.Backward.Statement
import ShaderBridge.Proofs.Hlsl.Interface

/-!
# Stage interfaces back in CrossGL

The stage structures of HLSL are collected into the two sides of each stage's interface, and a side
is declared in CrossGL line by line.  The declarations are read as the variables that the structures
were written for, so interfaces survive the way to HLSL and back (`interfaces_survive`).
-/

namespace ShaderBridge.Hlsl

open ShaderBridge.Parser Lexicon CrossGl

/-! ## §1 Collecting -/

/-- What is added to one side, one after another, changes no other. -/
theorem side_foldl_add (vs : List (Tree × Tree)) (s : Backward.State) (q q' : Backward.Channel) :
    (vs.foldl (fun s v => s.add q v) s).side q' =
      if q' = q then s.side q' ++ vs else s.side q' := by
  induction vs generalizing s with
  | nil => simp
  | cons v vs ih =>
    rw [List.foldl_cons, ih, Backward.State.side_add]
    split <;> simp

/-- What is collected of a member. -/
def Member.collected (m : Member) : Tree × Tree := (.text m.hlslType, .text m.name)

/-- The members of a stage structure are added to its side.  A vertex output must not be named like
the position, which is no output. -/
theorem collectMembers_run (q : Backward.Channel) (p : Forward.Channel) (ms : List Member)
    (hposition : q = ⟨.vertex, true⟩ → ∀ m ∈ ms, m.name ≠ "position") (s : Backward.State) :
    Backward.collectMembers .hlsl q (structTree p ms) s
      = .ok () ((ms.map (·.collected)).foldl (fun s v => s.add q v) s) := by
  have hitems : (do (← (structTree p ms).get .members).items : Except Fault (List Tree))
      = .ok (ms.map (·.tree)) := rfl
  rw [Backward.collectMembers, Gen.bind_lift hitems, List.foldl_map]
  refine Gen.forM_map_of_ok (fun s m hm => ?_) s
  have hmember : Backward.member .hlsl m.tree = .ok m.collected := rfl
  have hname : m.tree.get .name = .ok (.text m.name) := rfl
  split
  · next hq =>
    have hpos : (Tree.text m.name).isText "position" = false :=
      beq_false_of_ne (hposition hq m hm)
    rw [Gen.bind_lift hname, pure_bind, hpos]
    rfl
  · rfl

/-- A stage structure that is not there adds nothing. -/
theorem collectKept_run (q : Backward.Channel) (p : Forward.Channel) (ms : List Member)
    (hposition : q = ⟨.vertex, true⟩ → ∀ m ∈ ms, m.name ≠ "position") (s : Backward.State) :
    (if (keptStruct p ms).isSet then Backward.collectMembers .hlsl q (keptStruct p ms)
      else pure () : Gen Backward.State Unit) s
      = .ok () ((ms.map (·.collected)).foldl (fun s v => s.add q v) s) := by
  cases ms with
  | nil => rfl
  | cons m ms => exact collectMembers_run q p (m :: ms) hposition s

/-- The members on a side of the interface of a stage. -/
def members (ins outs : Stage → List Member) (q : Backward.Channel) : List Member :=
  if q.isOutput then outs q.stage else ins q.stage

/-- The stage structures are collected side by side. -/
theorem exists_collected (ins outs : Stage → List Member)
    (hposition : ∀ m ∈ outs .vertex, m.name ≠ "position") :
    ∃ s, Backward.collect .hlsl (structsTree ins outs) {} = .ok () s ∧
      ∀ q, s.side q = (members ins outs q).map (·.collected) := by
  have hstep : ∀ (s : Backward.State), ∀ x ∈ Backward.structFields,
      (do
        let struct ← ((structsTree ins outs).get x.1 : Except Fault Tree)
        if struct.isSet then Backward.collectMembers .hlsl x.2 struct : Gen Backward.State Unit) s
      = .ok () (((members ins outs x.2).map (·.collected)).foldl (fun s v => s.add x.2 v) s) := by
    -- Each field holds the structure of one side, and only one side leaves out a name.
    suffices h : ∀ x ∈ Backward.structFields,
        (∃ p, (structsTree ins outs).get x.1 = .ok (keptStruct p (members ins outs x.2))) ∧
          (x.2 = ⟨.vertex, true⟩ → ∀ m ∈ members ins outs x.2, m.name ≠ "position") by
      intro s x hx
      obtain ⟨⟨p, hget⟩, hnames⟩ := h x hx
      rw [Gen.bind_lift hget]
      exact collectKept_run x.2 p _ hnames s
    intro x hx
    simp only [Backward.structFields, List.mem_cons, List.not_mem_nil, or_false] at hx
    rcases hx with rfl | rfl | rfl | rfl
    · exact ⟨⟨.vertexInput, rfl⟩, nofun⟩
    · exact ⟨⟨.vertexOutput, rfl⟩, fun _ => hposition⟩
    · exact ⟨⟨.fragmentInput, rfl⟩, nofun⟩
    · exact ⟨⟨.fragmentOutput, rfl⟩, nofun⟩
  refine ⟨_, Gen.forM_of_ok hstep {}, fun q => ?_⟩
  simp only [Backward.structFields, List.foldl_cons, List.foldl_nil, side_foldl_add]
  obtain ⟨stage, isOutput⟩ := q
  cases stage <;> cases isOutput <;> rfl

/-! ## §2 Declarations -/

/-- The word that declares an input or an output, with its kind. -/
def sideWord (isOutput : Bool) : TokenKind × Text :=
  if isOutput then (.outputWord, "output") else (.inputWord, "input")

/-- The line that declares a variable. -/
def declaredLine (x : Text × Variable) : Text :=
  Text.cat ["        ", x.1, " ", x.2.vtype, " ", x.2.name, ";\n"]

/-- A member is declared under the type that its variable has in CrossGL. -/
theorem declaration_collected (word : Text) (m : Member) :
    Backward.declaration .hlsl word m.collected = .ok (declaredLine (word, m.toVariable)) := by
  have hset : (Tree.text m.hlslType).isSet = true := by
    obtain ⟨-, -, hname, -⟩ := m.hlslType_spec
    cases htype : m.hlslType with
    | nil =>
      rw [htype] at hname
      cases hname
    | cons c s => rfl
  have htype : Backward.Dialect.hlsl.mapType (.text m.hlslType) = .ok (.text m.vtype) := by
    rw [Backward.Dialect.mapType, if_pos hset]
    show Except.ok (Tree.ofText? (Backward.hlslTypes.lookup m.hlslType)) = _
    rw [m.hlslType_spec.2.1]
    rfl
  rw [Backward.declaration, if_pos rfl]
  show (Backward.Dialect.hlsl.mapType (.text m.hlslType) >>= _) = _
  rw [htype]
  rfl

/-- What is declared for a stage. -/
def declared (ins outs : List Variable) : List (Text × Variable) :=
  ins.map (fun v => ((sideWord false).2, v)) ++ outs.map fun v => ((sideWord true).2, v)

/-- The declarations of a stage, by the lines of its variables. -/
theorem declarations_eq {s : Backward.State} {stage : Stage} {ins outs : List Member}
    (hin : s.inputs stage = ins.map (·.collected))
    (hout : s.outputs stage = outs.map (·.collected)) :
    Backward.declarations .hlsl s (.text stage.label)
      = .ok (Text.trimEnd (Text.cat
          ((declared (ins.map (·.toVariable)) (outs.map (·.toVariable))).map declaredLine))) := by
  have hstage : Stage.of? (.text stage.label) = some stage := by cases stage <;> rfl
  have hlines : ∀ (word : Text) (ms : List Member),
      (ms.map (·.collected)).mapM (Backward.declaration .hlsl word)
        = .ok ((ms.map (·.toVariable)).map fun v => declaredLine (word, v)) := by
    intro word ms
    rw [List.mapM_map, List.map_map,
      show Backward.declaration .hlsl word ∘ Member.collected = _ from
        funext (declaration_collected word)]
    exact List.mapM_pure
  rw [Backward.declarations, hstage]
  show ((s.inputs stage).mapM (Backward.declaration .hlsl "input") >>= fun a =>
    (s.outputs stage).mapM (Backward.declaration .hlsl "output") >>= fun b =>
      pure (Text.trimEnd (Text.cat (a ++ b)))) = _
  rw [hin, hout, hlines, hlines, declared, List.map_append,
    List.map_map (l := ins.map (·.toVariable)), List.map_map (l := outs.map (·.toVariable))]
  rfl

/-- The words of a declaration. -/
def declaredWords (x : Text × Variable) : List Text := [x.1, x.2.vtype, x.2.name, ";"]

/-- A declaration in front of its semicolon. -/
def declaredFront (x : Text × Variable) : Text :=
  Text.cat ["        ", x.1, " ", x.2.vtype, " ", x.2.name]

theorem declaredLine_eq (x : Text × Variable) : declaredLine x = declaredFront x ++ ";\n" := by
  simp only [declaredLine, declaredFront, Text.cat, List.flatten_cons, List.flatten_nil,
    List.append_nil, List.append_assoc]

theorem shows_declaredFront {x : Text × Variable} (hword : isName x.1) :
    Shows [x.1, x.2.vtype, x.2.name] (declaredFront x) (some ';') := by
  have htypes : ∀ t ∈ interfaceTypeNames, isName t := by decide
  have htype := htypes _ x.2.vtype_mem
  have hfront : declaredFront x
      = "        " ++ (x.1 ++ ' ' :: (x.2.vtype ++ ' ' :: x.2.name)) := by
    rw [declaredFront, Text.cat]
    simp only [List.flatten_cons, List.flatten_nil, List.append_nil]
    rfl
  rw [hfront]
  exact .gaps (by decide) (.cons_space (CrossGl.whole_name hword)
    (.cons_space (CrossGl.whole_name htype) (.name x.2.isName_name rfl)))

theorem shows_declaredLines {xs : List (Text × Variable)} (hwords : ∀ x ∈ xs, isName x.1)
    (next : Option Char) :
    Shows (xs.flatMap declaredWords) (Text.cat (xs.map declaredLine)) next := by
  induction xs with
  | nil => exact .nil
  | cons x xs ih =>
    obtain ⟨hx, hxs⟩ := List.forall_mem_cons.1 hwords
    rw [List.map_cons, declaredLine_eq]
    exact (shows_declaredFront hx).semicolonLine.append (ih hxs)

/-- Declarations, without the line end behind the last, show their words. -/
theorem shows_declarations {xs : List (Text × Variable)} (hwords : ∀ x ∈ xs, isName x.1) :
    Shows (xs.flatMap declaredWords) (Text.trimEnd (Text.cat (xs.map declaredLine))) none := by
  rcases List.eq_nil_or_concat' xs with rfl | ⟨ys, y, rfl⟩
  · exact .nil
  · have htext : Text.trimEnd (Text.cat ((ys ++ [y]).map declaredLine))
        = Text.cat (ys.map declaredLine) ++ (declaredFront y ++ ";") := by
      rw [← List.append_assoc, ← Text.trimEnd_semicolon, List.append_assoc, ← declaredLine_eq]
      simp [Text.cat]
    rw [htext, List.flatMap_append]
    refine (shows_declaredLines (fun x hx => hwords x (by simp [hx])) _).append ?_
    refine (shows_declaredFront (hwords y (by simp))).append (u := ";") ?_
    exact .single (isSole_symbol (by decide)) (CrossGl.apart_punctuation (by decide) _)

/-! ## §3 Declarations are read back -/

theorem exists_declaredTokens (isOutput : Bool) (v : Variable) :
    ∃ k ∈ interfaceTypes, (declaredWords ((sideWord isOutput).2, v)).map soleToken
      = [⟨(sideWord isOutput).1, some (sideWord isOutput).2⟩, ⟨k, some v.vtype⟩,
         ⟨.identifier, some v.name⟩, ⟨.semicolon, some ";"⟩] := by
  obtain ⟨k, hk, htype⟩ := v.isType
  refine ⟨k, hk, ?_⟩
  have hword : ∀ b, soleToken (sideWord b).2 = ⟨(sideWord b).1, some (sideWord b).2⟩ := by
    decide
  have hends : soleToken ";" = ⟨.semicolon, some ";"⟩ := by decide
  simp only [declaredWords, List.map_cons, List.map_nil, hword, hends,
    soleToken_of_lexes htype rfl, soleToken_of_lexes v.isCrossGlName rfl]

/-- The declarations of a side at the cursor. -/
def declarationsOf (isOutput : Bool) : Parser (List Tree) :=
  many (isAt [(sideWord isOutput).1]) (do
    let (vtype, name) ← interfaceItem stageTypesWanted
    return .tuple [vtype, name])

theorem reads_declared (isOutput : Bool) (v : Variable) {rest : List Token}
    (hrest : CommentFree rest) :
    Reads (do
        let (vtype, name) ← interfaceItem stageTypesWanted
        return .tuple [vtype, name])
      ((declaredWords ((sideWord isOutput).2, v)).map soleToken) v.pair rest := by
  obtain ⟨k, hk, htokens⟩ := exists_declaredTokens isOutput v
  have hcomment : ∀ k ∈ interfaceTypes, k.isComment = false := by decide
  rw [htokens]
  refine Reads.bind_pure (a := (.text v.vtype, .text v.name)) ?_ fun _ => rfl
  refine Reads.bind (u := [_]) (Reads.take _ (by simpa [hcomment k hk] using hrest)) ?_
  refine Reads.isNotAt hk ?_
  refine Reads.bind (u := [_]) (Reads.takeText _ (by simpa using hrest)) ?_
  refine Reads.bind (u := [_]) (Reads.expectText rfl (by simpa using hrest)) ?_
  exact Reads.bind_pure (Reads.expect rfl hrest) fun _ => rfl

/-- The tokens of the declarations of a side. -/
def sideTokens (isOutput : Bool) (vs : List Variable) : List Token :=
  (vs.flatMap fun v => declaredWords ((sideWord isOutput).2, v)).map soleToken

theorem commentFree_sideTokens (isOutput : Bool) (vs : List Variable) :
    CommentFree (sideTokens isOutput vs) := by
  have hcomment : ∀ k ∈ interfaceTypes, k.isComment = false := by decide
  have hword : (sideWord isOutput).1.isComment = false := by cases isOutput <;> rfl
  intro t ht
  rw [sideTokens, List.map_flatMap] at ht
  obtain ⟨v, -, ht⟩ := List.mem_flatMap.1 ht
  obtain ⟨k, hk, htokens⟩ := exists_declaredTokens isOutput v
  rw [htokens] at ht
  simp only [List.mem_cons, List.not_mem_nil, or_false] at ht
  rcases ht with rfl | rfl | rfl | rfl
  · exact hword
  · exact hcomment k hk
  · rfl
  · rfl

/-- The declarations of a side are read up to something else. -/
theorem reads_side (isOutput : Bool) (vs : List Variable) {rest : List Token}
    (hrest : CommentFree rest) (hstop : firstKind rest ≠ (sideWord isOutput).1) :
    Reads (declarationsOf isOutput) (sideTokens isOutput vs) (vs.map (·.pair)) rest := by
  induction vs with
  | nil => exact Reads.many_stop fun pos => by simpa using hstop
  | cons v vs ih =>
    have hfree := commentFree_append.2 ⟨commentFree_sideTokens isOutput vs, hrest⟩
    rw [sideTokens, List.flatMap_cons, List.map_append]
    obtain ⟨k, -, htokens⟩ := exists_declaredTokens isOutput v
    refine Reads.many_step (fun pos => ?_) ?_ (reads_declared isOutput v hfree) ih
    · simp [htokens]
    · simp [htokens]

/-- The declarations of both sides, inputs first. -/
def declarationsOfStage : Parser (List Tree × List Tree) := do
  let ins ← CrossGl.inputs
  let outs ← CrossGl.outputs
  return (ins, outs)

/-- The declarations of a stage are cut into the tokens of its inputs and of its outputs. -/
theorem tokenize_declared (ins outs : List Variable) :
    Language.crossGl.tokenize (Text.trimEnd (Text.cat ((declared ins outs).map declaredLine)))
      = .ok (sideTokens false ins ++ sideTokens true outs ++ [⟨.endOfInput, none⟩]) := by
  have hwords : ∀ x ∈ declared ins outs, isName x.1 := by
    intro x hx
    rw [declared, List.mem_append, List.mem_map, List.mem_map] at hx
    have hnames : ∀ b, isName (sideWord b).2 := by decide
    rcases hx with ⟨v, -, rfl⟩ | ⟨v, -, rfl⟩
    · exact hnames false
    · exact hnames true
  have htokens : ((declared ins outs).flatMap declaredWords).map soleToken
      = sideTokens false ins ++ sideTokens true outs := by
    rw [declared, List.flatMap_append, List.flatMap_map, List.flatMap_map, List.map_append]
    rfl
  rw [← htokens]
  exact (shows_declarations hwords).tokenize

/-- The declarations of a stage are read up to the end. -/
theorem reads_stage (ins outs : List Variable) :
    Reads declarationsOfStage (sideTokens false ins ++ sideTokens true outs)
      (ins.map (·.pair), outs.map (·.pair)) [⟨.endOfInput, none⟩] := by
  have houts : Reads (declarationsOf true) (sideTokens true outs) (outs.map (·.pair))
      [⟨.endOfInput, none⟩] := reads_side true outs (by simp) (by decide)
  have hfree := commentFree_append.2 ⟨commentFree_sideTokens true outs,
    (by simp : CommentFree [⟨.endOfInput, none⟩])⟩
  have hstop : firstKind (sideTokens true outs ++ [⟨.endOfInput, none⟩]) ≠ (sideWord false).1 := by
    cases outs with
    | nil => decide
    | cons v vs =>
      obtain ⟨k, -, htokens⟩ := exists_declaredTokens true v
      rw [sideTokens, List.flatMap_cons, List.map_append, htokens]
      exact (by decide : (sideWord true).1 ≠ (sideWord false).1)
  exact Reads.bind (reads_side false ins hfree hstop) (Reads.bind_pure houts fun _ => rfl)

/-- Interfaces survive the way from CrossGL to HLSL and back.  For every shader that holds only the
interfaces of its stages, the text in HLSL is parsed, its stage structures are collected, and the
declarations that are written for a stage are read by the grammar of CrossGL as the inputs and
outputs that the stage had, with nothing left but the end.  A vertex output that is named like the
position would be left out. -/
theorem interfaces_survive (name : Tree) (ins outs : Stage → List Variable)
    (hposition : ∀ v ∈ outs .vertex, v.name ≠ "position") :
    ∃ text tree s,
      (Route.forward .hlsl).generate (interfaceShader name ins outs) = .ok text ∧
      Language.hlsl.parse text = .ok tree ∧
      Backward.collect .hlsl tree {} = .ok () s ∧
      ∀ stage : Stage, ∃ declared tokens,
        Backward.declarations .hlsl s (.text stage.label) = .ok declared ∧
        Language.crossGl.tokenize declared = .ok (tokens ++ [⟨.endOfInput, none⟩]) ∧
        declarationsOfStage ⟨0, tokens ++ [⟨.endOfInput, none⟩]⟩
          = .ok ((ins stage).map (·.pair), (outs stage).map (·.pair))
              ⟨tokens.length, [⟨.endOfInput, none⟩]⟩ := by
  obtain ⟨msIn, msOut, hin, hout, htext⟩ := exists_structs name ins outs
  have hnames : ∀ m ∈ msOut .vertex, m.name ≠ "position" := by
    intro m hm
    exact hposition m.toVariable (hout .vertex ▸ List.mem_map_of_mem hm)
  -- The position is left out on the way back, so no output may have its name.
  obtain ⟨s, hcollect, hsides⟩ := exists_collected msIn msOut hnames
  refine ⟨_, _, s, htext, parse_structs msIn msOut, hcollect, fun stage => ?_⟩
  have hdeclared := declarations_eq (s := s) (hsides ⟨stage, false⟩) (hsides ⟨stage, true⟩)
  rw [show (members msIn msOut ⟨stage, false⟩).map (·.toVariable) = ins stage from hin stage,
    show (members msIn msOut ⟨stage, true⟩).map (·.toVariable) = outs stage from hout stage]
    at hdeclared
  refine ⟨_, _, hdeclared, tokenize_declared (ins stage) (outs stage), ?_⟩
  simpa using reads_stage (ins stage) (outs stage) 0

/-- A vertex input, with a name that begins like a word of HLSL. -/
def corner : Variable :=
  ⟨"vec3", "elsewhere", ⟨.vectorType, by decide, by decide⟩, by decide,
    by decide⟩

/-- A texture, whose type has another name in HLSL. -/
def paint : Variable :=
  ⟨"sampler2D", "paint", ⟨.sampler2dType, by decide, by decide⟩, by decide,
    by decide⟩

/-- A matrix. -/
def frame : Variable :=
  ⟨"mat4", "frame", ⟨.matrixType, by decide, by decide⟩, by decide,
    by decide⟩

/-- Two vertex inputs and no fragment input. -/
def cornerInputs : Stage → List Variable
  | .vertex => [corner, paint]
  | .fragment => []

/-- One output of each stage. -/
def cornerOutputs : Stage → List Variable
  | .vertex => [frame]
  | .fragment => [corner]

theorem interfaces_survive_corner :
    (∀ v ∈ cornerOutputs .vertex, v.name ≠ "position") ∧
    ∃ text tree s,
      (Route.forward .hlsl).generate (interfaceShader (.text "main") cornerInputs cornerOutputs)
        = .ok text ∧
      Language.hlsl.parse text = .ok tree ∧
      Backward.collect .hlsl tree {} = .ok () s ∧
      ∀ stage : Stage, ∃ declared tokens,
        Backward.declarations .hlsl s (.text stage.label) = .ok declared ∧
        Language.crossGl.tokenize declared = .ok (tokens ++ [⟨.endOfInput, none⟩]) ∧
        declarationsOfStage ⟨0, tokens ++ [⟨.endOfInput, none⟩]⟩
          = .ok ((cornerInputs stage).map (·.pair), (cornerOutputs stage).map (·.pair))
              ⟨tokens.length, [⟨.endOfInput, none⟩]⟩ := by
  have hposition : ∀ v ∈ cornerOutputs .vertex, v.name ≠ "position" := by
    simp [cornerOutputs, frame]
  exact ⟨hposition, interfaces_survive _ _ _ hposition⟩

end ShaderBridge.Hlsl
