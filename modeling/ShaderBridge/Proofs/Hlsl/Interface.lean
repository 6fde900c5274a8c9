import ShaderBridge.Proofs.Forward.Shader
import ShaderBridge.Proofs.CrossGl.Shown
import ShaderBridge.Proofs.Hlsl.Lexemes
import ShaderBridge.Proofs.Sources

/-!
# Stage interfaces in HLSL

A shader that holds nothing but the interfaces of its stages is written in HLSL as a list of stage
structures.  Every variable becomes a member, with its type renamed and a semantic behind its name
(`Member`); a side of an interface that is empty has no structure.

- `exists_structs`: the text of such a shader is that of its structures.
- `parse_structs`: the text is read back as these structures.
-/

namespace ShaderBridge.Hlsl

open ShaderBridge.Parser Lexicon Pattern

/-! ## §1 Variables -/

/-- The types that inputs and outputs have in CrossGL. -/
def interfaceTypeNames : List Text :=
  ["vec2", "vec3", "vec4", "mat2", "mat3", "mat4", "float", "double", "uint", "int", "sampler2D"]

theorem mem_interfaceTypeNames {x : Text}
    (h : ∃ k ∈ CrossGl.interfaceTypes, crossGl.Lexes ⟨k, some x⟩) : x ∈ interfaceTypeNames := by
  have htable : ∀ k ∈ CrossGl.interfaceTypes, crossGl.Spelt k (· ∈ interfaceTypeNames) := by
    decide
  obtain ⟨k, hk, hlexes⟩ := h
  obtain ⟨w, hw, hmem⟩ := hlexes.exists_text (htable k hk)
  cases hw
  exact of_decide_eq_true hmem

/-- A variable of an interface.  Its type is one that the grammar of CrossGL takes for an input or
output, and its name is a name in both languages. -/
structure Variable where
  vtype : Text
  name : Text
  isType : ∃ k ∈ CrossGl.interfaceTypes, crossGl.Lexes ⟨k, some vtype⟩
  isCrossGlName : crossGl.Lexes ⟨.identifier, some name⟩
  isHlslName : hlsl.Lexes ⟨.identifier, some name⟩

/-- The kinds that the types of interfaces have in HLSL. -/
def memberTypes : List TokenKind :=
  [.floatVectorType, .matrixType, .floatType, .identifier, .uintType, .intType, .texture2dType]

namespace Variable

variable (v : Variable)

/-- The variable as a pair of type and name. -/
def pair : Tree := .tuple [.text v.vtype, .text v.name]

/-- The type of the variable in HLSL. -/
def hlslType : Text := (Forward.hlslTypes.lookup v.vtype).getD v.vtype

theorem vtype_mem : v.vtype ∈ interfaceTypeNames := mem_interfaceTypeNames v.isType

/-- The two tables of types agree on interfaces, and HLSL has a name for each of their types. -/
theorem hlslType_spec :
    Forward.hlslTypes.lookup v.vtype = some v.hlslType ∧
      Backward.hlslTypes.lookup v.hlslType = some v.vtype ∧
      isName v.hlslType ∧ v.hlslType ≠ "else" ∧
      ∃ k ∈ memberTypes, hlsl.Lexes ⟨k, some v.hlslType⟩ := by
  have htable : ∀ x ∈ interfaceTypeNames,
      let y := (Forward.hlslTypes.lookup x).getD x
      Forward.hlslTypes.lookup x = some y ∧ Backward.hlslTypes.lookup y = some x ∧
        isName y ∧ y ≠ ("else" : Text) ∧ ∃ k ∈ memberTypes, hlsl.Lexes ⟨k, some y⟩ := by
    decide
  exact htable v.vtype v.vtype_mem

theorem isName_name : isName v.name := by
  obtain ⟨w, hw, hname⟩ := v.isHlslName.isName_of_identifier (by decide) rfl
  cases hw
  exact hname

theorem name_ne_else : v.name ≠ "else" := by
  intro h
  have helse : ¬hlsl.Lexes ⟨.identifier, some ("else" : Text)⟩ := by decide
  exact helse (h ▸ v.isHlslName)

theorem mapType_vtype :
    Forward.Dialect.hlsl.mapType (.text v.vtype) = .ok (.text v.hlslType) := by
  show Tree.rename Forward.hlslTypes (.text v.vtype) = _
  rw [Tree.rename, Tree.find, v.hlslType_spec.1]

end Variable

/-! ## §2 Members -/

/-- A variable as a member of a stage structure. -/
structure Member extends Variable where
  kind : TokenKind
  kind_mem : kind ∈ memberTypes
  lexes : hlsl.Lexes ⟨kind, some toVariable.hlslType⟩
  semantic : Text
  isSemantic : isSemanticName semantic

namespace Member

variable (m : Member)

/-- The line of a member. -/
def line : Text :=
  Text.cat ["    ", m.hlslType, " ", m.name, " : ", m.semantic, ";\n"]

/-- The tokens of a member. -/
def tokens : List Token :=
  [⟨m.kind, some m.hlslType⟩, ⟨.identifier, some m.name⟩,
   ⟨.semantic, some (": " ++ m.semantic)⟩, ⟨.semicolon, some ";"⟩]

/-- The tree of a member. -/
def tree : Tree :=
  Tree.semanticVar (.text m.hlslType) (.text m.name)
    (.text (": " ++ m.semantic))

theorem spells_line (next : Option Char) : hlsl.Spells m.tokens m.line next := by
  have hline : m.line = ("    " : Text) ++ (m.hlslType ++ ' ' :: (m.name ++
      ' ' :: ((": " ++ m.semantic) ++ (";" ++ ['\n'])))) := by
    simp [line, Text.cat]
  obtain ⟨-, -, hname, helse, -⟩ := m.hlslType_spec
  rw [hline]
  refine .gaps (by decide) (.token (whole_name m.lexes rfl hname) (apart_name hname helse rfl)
    (.gap rfl ?_))
  refine .token (whole_name m.isHlslName rfl m.isName_name)
    (apart_name m.isName_name m.name_ne_else rfl) (.gap rfl ?_)
  refine .token (whole_semantic m.isSemantic) (apart_semantic m.isSemantic) ?_
  exact .token (whole_punctuation (p := (.semicolon, ";")) (by decide))
    (apart_punctuation (p := (.semicolon, ";")) (by decide) _) (.gap rfl .nil)

theorem kind_ne : m.kind ≠ .rightBrace ∧ m.kind.isComment = false := by
  have hkinds : ∀ k ∈ memberTypes, k ≠ .rightBrace ∧ k.isComment = false := by decide
  exact hkinds m.kind m.kind_mem

theorem commentFree_tokens : CommentFree m.tokens := by
  simpa [tokens] using m.kind_ne.2

theorem reads_tree {rest : List Token} (hrest : CommentFree rest) :
    Reads member m.tokens m.tree rest := by
  refine Reads.bind (u := [_]) (Reads.takeText _ (by simpa using hrest)) ?_
  refine Reads.bind (u := [_]) (Reads.expectText rfl (by simpa using hrest)) ?_
  refine Reads.isAt (by simp) (Reads.bind (u := [_]) (Reads.takeText _ (by simpa using hrest)) ?_)
  exact Reads.bind_pure (Reads.expect rfl hrest) fun _ => rfl

end Member

/-- The numeral of a number may end a semantic. -/
theorem isSemanticName_append {v : Text} (hv : isSemanticName v) (n : Nat) :
    isSemanticName (v ++ Text.ofNat n) := by
  cases v with
  | nil => cases hv
  | cons c v =>
    obtain ⟨hc, hrest⟩ := Bool.and_eq_true_iff.1 hv
    refine Bool.and_eq_true_iff.2 ⟨hc, ?_⟩
    show (v ++ Text.ofNat n).all _ = true
    rw [List.all_append, hrest, Bool.true_and, List.all_eq_true]
    intro d hd
    rw [Nat.isDigit_of_mem_toDigits (by decide) (by decide) hd, Bool.or_true]

/-- Every variable of a channel has a line with a semantic. -/
theorem exists_member (v : Variable) (p : Forward.Channel) (i : Nat) :
    ∃ m : Member, m.toVariable = v ∧
      Forward.Dialect.hlsl.channelLine p i v.hlslType v.name = m.line := by
  obtain ⟨-, -, -, -, k, hk, hlexes⟩ := v.hlslType_spec
  -- The semantic depends on the channel and the place only.
  suffices h : ∃ sem, isSemanticName sem ∧ Forward.Dialect.hlslLine p i v.hlslType v.name
      = Text.cat ["    ", v.hlslType, " ", v.name, " : ", sem, ";\n"] by
    obtain ⟨sem, hsem, hline⟩ := h
    exact ⟨⟨v, k, hk, hlexes, sem, hsem⟩, rfl, hline⟩
  have htexcoord : isSemanticName "TEXCOORD" := by decide
  have htarget : isSemanticName "SV_TARGET" := by decide
  cases p with
  | sharedInput =>
    by_cases hi : i = 0
    · exact ⟨"POSITION0", by decide, by simp [Forward.Dialect.hlslLine, hi]⟩
    · exact ⟨_, isSemanticName_append htexcoord i, by simp [Forward.Dialect.hlslLine, hi]⟩
  | vertexInput =>
    by_cases hi : i = 0
    · exact ⟨"POSITION", by decide, by simp [Forward.Dialect.hlslLine, hi]⟩
    · exact ⟨_, isSemanticName_append htexcoord (i - 1), by simp [Forward.Dialect.hlslLine, hi]⟩
  | vertexOutput | fragmentInput => exact ⟨_, isSemanticName_append htexcoord i, rfl⟩
  | sharedOutput | fragmentOutput => exact ⟨_, isSemanticName_append htarget i, rfl⟩

/-! ## §3 Structures -/

/-- The text of a stage structure; without members there is none. -/
def structText (p : Forward.Channel) (ms : List Member) : Text :=
  if ms.isEmpty then []
  else Forward.Dialect.hlsl.channelText p (Text.cat (ms.map (·.line)))

theorem takePosition_run {s : Forward.State} (hs : s.positionPending = false) :
    Forward.takePosition .hlsl s = .ok [] s := by
  show (if s.positionPending then _ else pure [] : Gen Forward.State Text) s = _
  rw [hs]
  rfl

/-- The lines of a channel are those of its members.  No position is pending in a shader without
functions. -/
theorem exists_channelLines (p : Forward.Channel) (vs : List Variable) (i : Nat)
    {s : Forward.State} (hs : s.positionPending = false) :
    ∃ ms : List Member, ms.map (·.toVariable) = vs ∧
      Forward.channelLines .hlsl p i (vs.map (·.pair)) s = .ok (Text.cat (ms.map (·.line))) s := by
  induction vs generalizing i with
  | nil => exact ⟨[], rfl, rfl⟩
  | cons v vs ih =>
    obtain ⟨m, hm, hline⟩ := exists_member v p i
    obtain ⟨ms, hms, hlines⟩ := ih (i + 1)
    refine ⟨m :: ms, by rw [List.map_cons, hm, hms], ?_⟩
    -- With no position pending, the line of a variable is all that is written.
    have hfirst : Forward.channelLine .hlsl p i v.pair s = .ok m.line s := by
      have hpair : v.pair.pair = .ok (.text v.vtype, .text v.name) := rfl
      rw [Forward.channelLine, Gen.bind_lift hpair, ← hline]
      dsimp only
      split
      · rw [Gen.bind_of_ok (takePosition_run hs), Gen.bind_lift v.mapType_vtype]
        rfl
      · rw [pure_bind, Gen.bind_lift v.mapType_vtype]
        rfl
    rw [List.map_cons, Forward.channelLines, Gen.bind_of_ok hfirst, Gen.bind_of_ok hlines]
    rfl

/-- A channel is written as a structure of its members. -/
theorem exists_channel (p : Forward.Channel) (vs : List Variable) {s : Forward.State}
    (hs : s.positionPending = false) :
    ∃ ms : List Member, ms.map (·.toVariable) = vs ∧
      Forward.channel .hlsl p (.list (vs.map (·.pair))) s = .ok (structText p ms) s := by
  obtain ⟨ms, hms, hlines⟩ := exists_channelLines p vs 0 hs
  refine ⟨ms, hms, ?_⟩
  have hwrites : Forward.Dialect.hlsl.alwaysWrites p = false := by cases p <;> rfl
  cases ms with
  | nil =>
    subst hms
    rw [Forward.channel, hwrites]
    rfl
  | cons m ms =>
    subst hms
    have hset : (Tree.list (((m :: ms).map (·.toVariable)).map (·.pair))).isSet = true := rfl
    rw [Forward.channel, hwrites, hset, if_pos (Bool.true_or _),
      Gen.bind_lift (show (Tree.list _).items = .ok _ from rfl), Gen.bind_of_ok hlines]
    rfl

/-! ## §4 Shaders -/

/-- A section that holds an interface only. -/
def interfaceSection (k : NodeKind) (ins outs : List Variable) : Tree :=
  CrossGl.SectionItems.node { inputs := ins.map (·.pair), outputs := outs.map (·.pair) } k

/-- A shader that holds the interfaces of its stages only. -/
def interfaceShader (name : Tree) (ins outs : Stage → List Variable) : Tree :=
  .node .shader
    [(.name, name), (.globalInputs, .list []), (.globalOutputs, .list []),
     (.globalFunctions, .list []),
     (.vertexSection, interfaceSection .vertexSection (ins .vertex) (outs .vertex)),
     (.fragmentSection, interfaceSection .fragmentSection (ins .fragment) (outs .fragment))]

/-- A section is written as the structures of its inputs and its outputs. -/
theorem exists_stageSection (stage : Stage) (k : NodeKind) (ins outs : List Variable)
    {s : Forward.State} (hs : s.positionPending = false) :
    ∃ msIn msOut : List Member,
      msIn.map (·.toVariable) = ins ∧ msOut.map (·.toVariable) = outs ∧
        Forward.stageSection .hlsl stage k (interfaceSection k ins outs) s
          = .ok (structText (.inputOf stage) msIn ++ structText (.outputOf stage) msOut) s := by
  obtain ⟨msIn, hin, hins⟩ := exists_channel (.inputOf stage) ins hs
  obtain ⟨msOut, hout, houts⟩ := exists_channel (.outputOf stage) outs hs
  refine ⟨msIn, msOut, hin, hout, ?_⟩
  have hnode : (interfaceSection k ins outs).isNode k = true := beq_self_eq_true k
  have hnote : Forward.noteStage .hlsl stage (interfaceSection k ins outs) s = .ok () s := by
    cases stage <;> rfl
  have hopening : Forward.Dialect.hlsl.stageOpening stage = [] := by cases stage <;> rfl
  have hget : ∀ f t, Tree.lookupField f
      [(.inputs, .list (ins.map (·.pair))), (.outputs, .list (outs.map (·.pair))),
       (.functions, .list []), (.intermediate, .list [])] = some t →
      (interfaceSection k ins outs).get f = .ok t := by
    intro f t h
    show Tree.get f (.node k _) = _
    rw [Tree.get, h]
  rw [Forward.stageSection_of_isNode hnode, Gen.bind_of_ok hnote, Forward.sectionText,
    Gen.bind_lift (hget .inputs _ rfl), Gen.bind_of_ok hins,
    Gen.bind_lift (hget .outputs _ rfl), Gen.bind_of_ok houts,
    Gen.bind_lift (hget .functions _ rfl)]
  -- Without functions and statements nothing else is written.
  show EStateM.Result.ok (Text.cat [Forward.Dialect.hlsl.stageOpening stage,
    structText (.inputOf stage) msIn, structText (.outputOf stage) msOut, [], [], []]) s = _
  simp [Text.cat, hopening]

/-- The stage structures in the order in which they are written. -/
def stageStructs (ins outs : Stage → List Member) : List (Forward.Channel × List Member) :=
  [(.vertexInput, ins .vertex), (.vertexOutput, outs .vertex), (.fragmentInput, ins .fragment),
   (.fragmentOutput, outs .fragment)]

/-- The text of the stage structures. -/
def structsText (ins outs : Stage → List Member) : Text :=
  '\n' :: (stageStructs ins outs).flatMap fun x => structText x.1 x.2

/-- One value for each stage. -/
def perStage {α : Type} (v f : α) : Stage → α
  | .vertex => v
  | .fragment => f

/-- A shader that holds interfaces only is written as the structures of its stages. -/
theorem exists_structs (name : Tree) (ins outs : Stage → List Variable) :
    ∃ msIn msOut : Stage → List Member,
      (∀ stage, (msIn stage).map (·.toVariable) = ins stage) ∧
        (∀ stage, (msOut stage).map (·.toVariable) = outs stage) ∧
        (Route.forward .hlsl).generate (interfaceShader name ins outs)
          = .ok (structsText msIn msOut) := by
  -- The states in which the two sections are written.
  let s : Forward.State :=
    { sections.vertex := interfaceSection .vertexSection (ins .vertex) (outs .vertex) }
  let s' : Forward.State :=
    { s with sections.fragment :=
        interfaceSection .fragmentSection (ins .fragment) (outs .fragment) }
  obtain ⟨vin, vout, hvin, hvout, hvertex⟩ :=
    exists_stageSection .vertex .vertexSection (ins .vertex) (outs .vertex) (s := s) rfl
  obtain ⟨fin, fout, hfin, hfout, hfragment⟩ :=
    exists_stageSection .fragment .fragmentSection (ins .fragment) (outs .fragment) (s := s') rfl
  refine ⟨perStage vin fin, perStage vout fout, ?_, ?_, ?_⟩
  · intro stage
    cases stage with
    | vertex => exact hvin
    | fragment => exact hfin
  · intro stage
    cases stage with
    | vertex => exact hvout
    | fragment => exact hfout
  have hrun : Forward.shader .hlsl (interfaceShader name ins outs) {}
      = .ok (structsText (perStage vin fin) (perStage vout fout)) s' := by
    show (Forward.stageSection .hlsl .vertex .vertexSection _ >>= _) s = _
    rw [Gen.bind_of_ok hvertex]
    show (Forward.stageSection .hlsl .fragment .fragmentSection _ >>= _) s' = _
    rw [Gen.bind_of_ok hfragment]
    show EStateM.Result.ok (Text.cat ["\n", [], [], [], [],
      structText .vertexInput vin ++ structText .vertexOutput vout,
      structText .fragmentInput fin ++ structText .fragmentOutput fout]) s' = _
    simp [Text.cat, structsText, stageStructs, perStage]
  exact Gen.outcome_of_ok hrun

/-! ## §5 Structures are read back -/

/-- The tokens of a stage structure. -/
def structTokens (p : Forward.Channel) (ms : List Member) : List Token :=
  if ms.isEmpty then []
  else
    [⟨.structWord, some "struct"⟩, ⟨.identifier, some (Forward.Dialect.hlsl.channelStruct p)⟩,
     ⟨.leftBrace, some r"{"⟩] ++ ms.flatMap (·.tokens) ++
    [⟨.rightBrace, some r"}"⟩, ⟨.semicolon, some ";"⟩]

theorem spells_lines (ms : List Member) (next : Option Char) :
    hlsl.Spells (ms.flatMap (·.tokens)) (Text.cat (ms.map (·.line))) next := by
  induction ms with
  | nil => exact .nil
  | cons m ms ih => exact Spells.append (m.spells_line _) ih

/-- The text of a structure spells its tokens. -/
theorem spells_struct (p : Forward.Channel) (ms : List Member) (next : Option Char) :
    hlsl.Spells (structTokens p ms) (structText p ms) next := by
  have hname : hlsl.Lexes ⟨.identifier, some (Forward.Dialect.hlsl.channelStruct p)⟩ ∧
      isName (Forward.Dialect.hlsl.channelStruct p) ∧
      Forward.Dialect.hlsl.channelStruct p ≠ "else" := by
    cases p <;> decide
  have hword : hlsl.Lexes ⟨.structWord, some ("struct" : Text)⟩ := by decide
  rw [structTokens, structText]
  split
  · exact .nil
  · have htext : Forward.Dialect.hlsl.channelText p (Text.cat (ms.map (·.line)))
        = ("struct" : Text) ++ ' ' :: (Forward.Dialect.hlsl.channelStruct p ++
          ' ' :: (r"{" ++ '\n' :: (Text.cat (ms.map (·.line)) ++
            (r"}" ++ (";" ++ "\n\n"))))) := by
      simp [Forward.Dialect.channelText, Text.cat]
    rw [htext]
    refine .token (whole_name hword rfl (by decide)) (apart_name (by decide) (by decide) rfl)
      (.gap rfl ?_)
    refine .token (whole_name hname.1 rfl hname.2.1) (apart_name hname.2.1 hname.2.2 rfl)
      (.gap rfl ?_)
    refine .token (whole_punctuation (p := (.leftBrace, r"{")) (by decide))
      (apart_punctuation (p := (.leftBrace, r"{")) (by decide) _) (.gap rfl ?_)
    refine Spells.append (spells_lines ms _) ?_
    refine .token (whole_punctuation (p := (.rightBrace, r"}")) (by decide))
      (apart_punctuation (p := (.rightBrace, r"}")) (by decide) _) ?_
    exact .token (whole_punctuation (p := (.semicolon, ";")) (by decide))
      (apart_punctuation (p := (.semicolon, ";")) (by decide) _) (.gap rfl (.gap rfl .nil))

theorem spells_structs (xs : List (Forward.Channel × List Member)) (next : Option Char) :
    hlsl.Spells (xs.flatMap fun x => structTokens x.1 x.2)
      (xs.flatMap fun x => structText x.1 x.2) next := by
  induction xs with
  | nil => exact .nil
  | cons x xs ih => exact Spells.append (spells_struct x.1 x.2 _) ih

/-- The tree of a stage structure. -/
def structTree (p : Forward.Channel) (ms : List Member) : Tree :=
  Tree.struct (.text (Forward.Dialect.hlsl.channelStruct p)) (ms.map (·.tree))

theorem commentFree_members (ms : List Member) : CommentFree (ms.flatMap (·.tokens)) := by
  intro t ht
  obtain ⟨m, -, ht⟩ := List.mem_flatMap.1 ht
  exact m.commentFree_tokens t ht

theorem reads_members (ms : List Member) {rest : List Token} (hrest : CommentFree rest)
    (hclose : firstKind rest = .rightBrace) :
    Reads (many (isNotAt [.rightBrace]) member) (ms.flatMap (·.tokens)) (ms.map (·.tree)) rest := by
  induction ms with
  | nil => exact Reads.many_stop fun pos => by simp [hclose]
  | cons m ms ih =>
    have hfree := commentFree_append.2 ⟨commentFree_members ms, hrest⟩
    refine Reads.many_step (fun pos => ?_) (by simp [Member.tokens]) (m.reads_tree hfree) ih
    simpa [Member.tokens] using m.kind_ne.1

theorem reads_passed {s s' : ShaderItems} {t : Token} {v rest : List Token}
    (ht : t.kind ∈ [.rightBrace, .semicolon]) (hrest : CommentFree (v ++ rest))
    (hmore : Reads (loop (isNotAt [.endOfInput]) shaderItem s) v s' rest) :
    Reads (loop (isNotAt [.endOfInput]) shaderItem s) (t :: v) s' rest := by
  have hkinds : ∀ k ∈ [TokenKind.rightBrace, .semicolon],
      k ≠ .endOfInput ∧ k ≠ .structWord ∧ k ∉ functionStarts := by
    decide
  obtain ⟨hend, hstruct, hfunction⟩ := hkinds _ ht
  refine Reads.loop_step (u := [t]) (fun pos => by simpa using hend) (by simp) ?_ hmore
  refine Reads.kind ?_
  rw [List.singleton_append, firstKind_cons, if_neg hstruct, if_neg hfunction]
  exact Reads.bind_pure (Reads.take t hrest) fun _ => rfl

/-- What is kept of a stage structure; without members there is nothing to keep. -/
def ShaderItems.keepStruct (s : ShaderItems) (p : Forward.Channel) (ms : List Member) :
    ShaderItems :=
  if ms.isEmpty then s else s.keep (.text (Forward.Dialect.hlsl.channelStruct p)) (structTree p ms)

/-- A structure is kept by its name, and what closes it is passed over. -/
theorem reads_struct {s s' : ShaderItems} (p : Forward.Channel) (ms : List Member)
    {v rest : List Token} (hrest : CommentFree (v ++ rest))
    (hmore : Reads (loop (isNotAt [.endOfInput]) shaderItem (s.keepStruct p ms)) v s' rest) :
    Reads (loop (isNotAt [.endOfInput]) shaderItem s) (structTokens p ms ++ v) s' rest := by
  rw [structTokens]
  rw [ShaderItems.keepStruct] at hmore
  split
  · next hempty => simpa [hempty] using hmore
  · next hempty =>
    rw [if_neg hempty] at hmore
    rw [List.append_assoc]
    have hclosed :
        CommentFree ([⟨.rightBrace, some r"}"⟩, ⟨.semicolon, some ";"⟩] ++ v ++ rest) := by
      simpa using hrest
    have hmembers := reads_members ms hclosed rfl
    -- The structure is one round; the brace and the semicolon are passed over.
    refine Reads.loop_step (fun pos => by simp) (by simp) ?_
      (reads_passed (by simp) (by simpa using hrest) (reads_passed (by simp) hrest hmore))
    have hfree := commentFree_members ms
    refine Reads.kind ?_
    rw [List.append_assoc, List.append_assoc, List.cons_append, firstKind_cons, if_pos rfl]
    refine Reads.bind_pure (a := (.text (Forward.Dialect.hlsl.channelStruct p), ms.map (·.tree))) ?_
      fun _ => rfl
    refine Reads.bind (u := [_]) (Reads.expect rfl ?_) ?_
    · simpa [hfree] using hrest
    refine Reads.bind (u := [_]) (Reads.expectText rfl ?_) ?_
    · simpa [hfree] using hrest
    refine Reads.bind (u := [_]) (Reads.expect rfl ?_) (Reads.bind_pure hmembers fun _ => rfl)
    · simpa [hfree] using hrest

/-- The tree of a stage structure, if it is written. -/
def keptStruct (p : Forward.Channel) (ms : List Member) : Tree :=
  if ms.isEmpty then .absent else structTree p ms

/-- The tree of the stage structures. -/
def structsTree (ins outs : Stage → List Member) : Tree :=
  .node .shader
    [(.vertexInput, keptStruct .vertexInput (ins .vertex)),
     (.vertexOutput, keptStruct .vertexOutput (outs .vertex)),
     (.fragmentInput, keptStruct .fragmentInput (ins .fragment)),
     (.fragmentOutput, keptStruct .fragmentOutput (outs .fragment)),
     (.functions, .list [])]

theorem commentFree_structs (xs : List (Forward.Channel × List Member)) :
    CommentFree (xs.flatMap fun x => structTokens x.1 x.2) := by
  intro t ht
  obtain ⟨⟨p, ms⟩, -, ht⟩ := List.mem_flatMap.1 ht
  simp only [structTokens] at ht
  split at ht
  · cases ht
  · simp only [List.mem_append, List.mem_cons, List.not_mem_nil, or_false] at ht
    rcases ht with ((rfl | rfl | rfl) | ht) | rfl | rfl
    case inl.inr => exact commentFree_members ms t ht
    all_goals rfl

theorem reads_structs (xs : List (Forward.Channel × List Member)) (s : ShaderItems)
    {rest : List Token} (hrest : CommentFree rest) (hend : firstKind rest = .endOfInput) :
    Reads (loop (isNotAt [.endOfInput]) shaderItem s)
      (xs.flatMap fun x => structTokens x.1 x.2)
      (xs.foldl (fun s x => s.keepStruct x.1 x.2) s) rest := by
  induction xs generalizing s with
  | nil => exact Reads.loop_stop fun pos => by simp [hend]
  | cons x xs ih =>
    have hfree := commentFree_append.2 ⟨commentFree_structs xs, hrest⟩
    exact reads_struct x.1 x.2 hfree (ih _)

/-- Each stage structure is kept in a place of its own. -/
theorem foldl_keepStruct (ins outs : Stage → List Member) :
    (stageStructs ins outs).foldl (fun s x => s.keepStruct x.1 x.2) ({} : ShaderItems)
    = { vertexInput := keptStruct .vertexInput (ins .vertex)
        vertexOutput := keptStruct .vertexOutput (outs .vertex)
        fragmentInput := keptStruct .fragmentInput (ins .fragment)
        fragmentOutput := keptStruct .fragmentOutput (outs .fragment) } := by
  simp only [stageStructs, List.foldl_cons, List.foldl_nil]
  cases ins .vertex <;> cases outs .vertex <;> cases ins .fragment <;> cases outs .fragment <;> rfl

/-- The text of the stage structures is read back as these structures. -/
theorem parse_structs (ins outs : Stage → List Member) :
    Language.hlsl.parse (structsText ins outs) = .ok (structsTree ins outs) := by
  let ts := (stageStructs ins outs).flatMap fun x => structTokens x.1 x.2
  have hspells : hlsl.Spells ts (structsText ins outs) none :=
    .gap rfl (spells_structs (stageStructs ins outs) none)
  have hitems := reads_structs (stageStructs ins outs) {}
    (by simp : CommentFree [⟨.endOfInput, some []⟩]) rfl
  rw [foldl_keepStruct] at hitems
  have hsource : Reads source (ts ++ [⟨.endOfInput, some []⟩]) (structsTree ins outs) [] :=
    Reads.bind (Reads.bind_pure hitems fun _ => rfl)
      (Reads.bind_pure (Reads.expect rfl commentFree_nil) fun _ => rfl)
  have hstart : Language.hlsl.start (ts ++ [⟨.endOfInput, some []⟩])
      = ⟨0, ts ++ [⟨.endOfInput, some []⟩] ++ []⟩ := by
    rw [List.append_nil]
    exact Cursor.pastTrivia_of_commentFree (by simpa using commentFree_structs _) 0
  exact Language.parse_eq_ok_iff.2
    ⟨_, _, hspells.tokenize regular, (congrArg source hstart).trans (hsource 0)⟩

end ShaderBridge.Hlsl
