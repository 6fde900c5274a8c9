import ShaderBridge.Proofs.Forward.Layout
import ShaderBridge.Proofs.Memory

/-!
# Words and the scope of a function

In the languages that have stage structures a word that names a variable of the stage is written as
a member of `input` or `output`.  A parameter or a local of a function may have the name of such a
variable and hides it, so its uses should be written under its own name.  They are not: what is
written for a word depends on the stage alone (`Use.written`), and not on what the function
declares.

A function is written with respect to scope just if none of its own names is one that the stage or
the language takes for itself (`respectsScope_iff`).
-/

namespace ShaderBridge

namespace Forward

open Scope CrossGl

/-! ## §1 What is written for a use -/

/-- What is written for a use of a word in a stage: the name of a called function is looked up among
the names of types first. -/
def Use.written (d : Dialect) (items : SectionItems) (u : Use) : Text :=
  if u.called then ((d.words?.getD []).lookup u.word).getD (writtenWord d items u.word)
  else writtenWord d items u.word

section Stage

variable {sc : Scope} {items : SectionItems} {k : NodeKind}

theorem callName_text_stage (hd : sc.dialect.hasStageStructs) (howner : sc.owner = items.node k)
    (h : SectionShape items) (s : Text) (own : List Text) :
    sc.callName (.text s) = .ok (.text (Use.written sc.dialect items ⟨s, true, own⟩)) := by
  have hword := word_text hd howner h s
  rw [callName, Use.written, if_pos rfl]
  cases htable : sc.dialect.words? with
  | none => exact hword
  | some table =>
    have hfind : (Tree.text s).find table = .ok (table.lookup s) := rfl
    dsimp only
    rw [hfind, Option.getD_some]
    cases table.lookup s with
    | none => exact hword
    | some r => rfl

/-- What is called but is no word is in no table. -/
theorem find_kept {t : Tree} (h : CalledShape t) (hkept : ∀ s, t ≠ .text s)
    (table : List (Text × Text)) : t.find table = .ok none := by
  cases h with
  | word h =>
    obtain ⟨o, rfl, -⟩ := h
    cases o with
    | none => rfl
    | some s => exact absurd rfl (hkept s)
  | node => rfl

/-- Nor does it name a variable. -/
theorem findVariable_kept {t : Tree} (h : CalledShape t) (hkept : ∀ s, t ≠ .text s)
    {vs : List Tree} (hvs : ∀ v ∈ vs, VariableShape v) : findVariable t vs = .ok none := by
  induction vs with
  | nil => rfl
  | cons v vs ih =>
    obtain ⟨⟨vtype, name, rfl, -⟩, hrest⟩ := List.forall_mem_cons.1 hvs
    have hsame : t.same (.text name) = false := by
      cases h with
      | word h =>
        obtain ⟨o, rfl, -⟩ := h
        cases o with
        | none => rfl
        | some s => exact absurd rfl (hkept s)
      | node => rfl
    show (if t.same (.text name) then _ else findVariable t vs) = _
    rw [hsame]
    exact ih hrest

theorem variableIn_kept {t : Tree} (h : CalledShape t) (hkept : ∀ s, t ≠ .text s) {f : Field}
    {vs : List Tree} (hget : (items.node k).get f = .ok (.list vs))
    (hvs : ∀ v ∈ vs, VariableShape v) : variableIn (items.node k) f t = .ok none := by
  have hset : (items.node k).isSet = true := rfl
  rw [variableIn, if_pos hset, hget]
  show (if (Tree.list vs).isSet then findVariable t vs else pure none) = _
  rw [findVariable_kept h hkept hvs]
  split <;> rfl

/-- The words of a stage are written as its section asks. -/
theorem writes_stage (hd : sc.dialect.hasStageStructs) (howner : sc.owner = items.node k)
    (h : SectionShape items) : Writes sc (Use.written sc.dialect items) where
  word s own := word_text hd howner h s
  called s own := callName_text_stage hd howner h s own
  kept := by
    intro t ht hkept
    have hmap : sc.dialect.mapWord t = .ok t := by
      unfold Dialect.mapWord
      split
      · rw [Tree.rename.eq_def, find_kept ht hkept]
      · rfl
    have hword : sc.word t = .ok t := by
      rw [word, howner, variableIn_kept (f := .inputs) ht hkept rfl h.inputs]
      show (variableIn (items.node k) .outputs t >>= _) = _
      rw [variableIn_kept (f := .outputs) ht hkept rfl h.outputs]
      exact hmap
    rw [callName]
    split
    · exact hword
    · rw [find_kept ht hkept]
      exact hword

end Stage

/-! ## §2 Uses and scope -/

variable {d : Dialect} {items : SectionItems} {u : Use}

/-- A use is written with respect to scope: as a variable of the stage only where the function has
not declared the word itself, and otherwise, if the function has, as it is. -/
structure Use.RespectsScope (d : Dialect) (items : SectionItems) (u : Use) : Prop where
  input : u.written d items = "input." ++ u.word →
    u.word ∈ variableNames items.inputs ∧ u.word ∉ u.own
  output : u.written d items = "output." ++ u.word →
    u.word ∈ variableNames items.outputs ∧ u.word ∉ u.own
  own : u.word ∈ u.own → u.written d items = u.word

/-- Nothing but the function lays claim to the word: the language has no other name for it, and it
names no variable of the stage, unless it is called and the language knows it as a type. -/
def Use.Free (d : Dialect) (items : SectionItems) (u : Use) : Prop :=
  d.renamed u.word = u.word ∧
    (u.word ∉ variableNames items.inputs ∧ u.word ∉ variableNames items.outputs ∨
      u.called ∧ ((d.words?.getD []).lookup u.word).isSome)

theorem append_ne_self {p s : Text} (hp : p ≠ []) : p ++ s ≠ s := by
  simpa using hp

/-- The members of stage structures have names that no type of a language has. -/
theorem lookup_ne_member {w r p : Text} (hp : p ∈ [("input." : Text), "output."])
    (hr : (d.words?.getD []).lookup w = some r) : r ≠ p ++ w := by
  have hnames : ∀ e ∈ d.words?.getD [], ∀ p ∈ [("input." : Text), "output."], e.2 ≠ p ++ e.1 := by
    cases d <;> decide
  obtain ⟨before, after, htable, -⟩ := List.lookup_eq_some_iff.1 hr
  exact hnames (w, r) (by simp [htable]) p hp

theorem renamed_ne_member {w p : Text} (hp : p ∈ [("input." : Text), "output."]) :
    d.renamed w ≠ p ++ w := by
  unfold Dialect.renamed
  cases hr : (d.words?.getD []).lookup w with
  | none =>
    have hne : p ≠ [] := by
      rintro rfl
      simp at hp
    exact (append_ne_self hne).symm
  | some r => exact lookup_ne_member hp hr

theorem writtenWord_eq_iff {w : Text} : writtenWord d items w = w ↔
    d.renamed w = w ∧ w ∉ variableNames items.inputs ∧ w ∉ variableNames items.outputs := by
  unfold writtenWord
  split
  · next hi => exact iff_of_false (append_ne_self (by simp)) fun h => h.2.1 hi
  · next hi =>
    split
    · next ho => exact iff_of_false (append_ne_self (by simp)) fun h => h.2.2 ho
    · next ho => simp [hi, ho]

/-- A word is written as it is just if it is free. -/
theorem Use.written_eq_word_iff : u.written d items = u.word ↔ u.Free d items := by
  obtain ⟨w, called, own⟩ := u
  unfold Use.written Use.Free
  cases called with
  | false => simpa using writtenWord_eq_iff
  | true =>
    have hrenamed : d.renamed w = ((d.words?.getD []).lookup w).getD w := rfl
    cases hr : (d.words?.getD []).lookup w with
    | none => simpa [hr] using writtenWord_eq_iff
    | some r => simp [hr, hrenamed]

/-- What is written as a member of a stage structure is a variable of the stage: neither the name of
a type nor a variable of the other structure is written so. -/
theorem Use.mem_of_written_member :
    (u.written d items = "input." ++ u.word → u.word ∈ variableNames items.inputs) ∧
      (u.written d items = "output." ++ u.word → u.word ∈ variableNames items.outputs) := by
  -- No name of a dialect has a point, so only variables are written with one.
  have hword : (writtenWord d items u.word = "input." ++ u.word →
        u.word ∈ variableNames items.inputs) ∧
      (writtenWord d items u.word = "output." ++ u.word →
        u.word ∈ variableNames items.outputs) := by
    unfold writtenWord
    split
    · next hi => exact ⟨fun _ => hi, fun h => absurd h (by simp)⟩
    · split
      · next ho => exact ⟨fun h => absurd h (by simp), fun _ => ho⟩
      · exact ⟨fun h => absurd h (renamed_ne_member (by simp)),
          fun h => absurd h (renamed_ne_member (by simp))⟩
  unfold Use.written
  split
  · cases hr : (d.words?.getD []).lookup u.word with
    | none => exact hword
    | some r =>
      exact ⟨fun h => absurd h (lookup_ne_member (by simp) hr),
        fun h => absurd h (lookup_ne_member (by simp) hr)⟩
  · exact hword

/-- A use is written with respect to scope just if the word is free where the function has declared
it. -/
theorem Use.respectsScope_iff : u.RespectsScope d items ↔ (u.word ∈ u.own → u.Free d items) := by
  constructor
  · intro h hown
    exact Use.written_eq_word_iff.1 (h.own hown)
  · intro h
    have hown : u.word ∈ u.own → u.written d items = u.word :=
      fun hmem => Use.written_eq_word_iff.2 (h hmem)
    have hmember : ∀ p : Text, p ≠ [] → u.written d items = p ++ u.word → u.word ∉ u.own :=
      fun p hp hwritten hmem => append_ne_self hp (hwritten.symm.trans (hown hmem))
    exact ⟨fun hw => ⟨Use.mem_of_written_member.1 hw, hmember _ (by simp) hw⟩,
      fun hw => ⟨Use.mem_of_written_member.2 hw, hmember _ (by simp) hw⟩, hown⟩

/-! ## §3 Functions and scope -/

/-- A function of a stage is written with respect to scope: each use of a word is, and its
parameters are declared.  Those of an entry point are not, as it takes the stage structure
instead. -/
structure RespectsScope (d : Dialect) (stage : Stage) (items : SectionItems) (f : Tree) : Prop where
  parameters : isEntry f = .ok true → f.get .params = .ok (.list [])
  uses : ∀ u ∈ (functionLayout d stage f).uses, u.RespectsScope d items

/-- In a parsed shader the text of each function of a stage is its layout with the words of the
stage filled in. -/
theorem exists_filled_of_parse (hd : d.hasStageStructs) {source : Text} {t : Tree}
    (hparse : Language.crossGl.parse source = .ok t) {stage : Stage}
    (hsection : t.get (stageField stage) = .ok (items.node (stageKind stage))) {f : Tree}
    (hf : f ∈ items.functions) :
    ∃ text, (Route.forward d).generate t = .ok text ∧
      (functionLayout d stage f).fill (Use.written d items) <:+: text := by
  have hshape : SectionShape items :=
    (Language.of_parse hparse makes_shaderShape).section stage hsection
  obtain ⟨text, htext, hwritten, -⟩ := exists_text_of_parse hparse d
  -- The text of the section stands in that of the shader, and the function in it.
  obtain ⟨sc, x, rfl, hstage, howner, hx, hpart⟩ :=
    exists_infix_of_shaderWritten hwritten stage hsection (beq_self_eq_true _)
  obtain ⟨-, hfunctions⟩ := exists_infix_of_sectionWritten hx rfl rfl hstage
  have hfilled := stageFunction_eq_fill (writes_stage hd howner hshape) hd hstage
    (hshape.functions f hf)
  have hentry : Succeeds (isEntry f) := by
    obtain ⟨name, -, -, -⟩ := hshape.functions f hf
    exact ⟨name.isText "main", rfl⟩
  obtain ⟨y, hy, hwithin⟩ := hfunctions f hf hentry
  obtain rfl : (functionLayout sc.dialect stage f).fill (Use.written sc.dialect items) = y :=
    Except.ok.inj (hfilled.symm.trans hy)
  exact ⟨text, htext, hwithin.trans hpart⟩

/-- What is written for a word depends on the stage alone, so scope is respected only where it makes
no difference.  In every section of a parsed shader, HLSL and Metal have each function as its layout
with the variables of the section filled in, whatever the function declares.  That respects the
scope of the function just if it is no entry point with parameters, and every word it uses behind
its own declaration of it is free. -/
theorem function_respectsScope_iff (hd : d.hasStageStructs) {source : Text} {t : Tree}
    (hparse : Language.crossGl.parse source = .ok t) {stage : Stage}
    (hsection : t.get (stageField stage) = .ok (items.node (stageKind stage))) {f : Tree}
    (hf : f ∈ items.functions) :
    (∃ text, (Route.forward d).generate t = .ok text ∧
      (functionLayout d stage f).fill (Use.written d items) <:+: text) ∧
    (RespectsScope d stage items f ↔
      (isEntry f = .ok true → f.get .params = .ok (.list [])) ∧
        ∀ u ∈ (functionLayout d stage f).uses, u.word ∈ u.own → u.Free d items) := by
  refine ⟨exists_filled_of_parse hd hparse hsection hf, ?_⟩
  constructor
  · rintro ⟨hparams, huses⟩
    exact ⟨hparams, fun u hu => Use.respectsScope_iff.1 (huses u hu)⟩
  · rintro ⟨hparams, huses⟩
    exact ⟨hparams, fun u hu => Use.respectsScope_iff.2 (huses u hu)⟩

/-! ## §4 A parameter that hides an input -/

/-- A shader with a function whose parameter has the name of an input. -/
def hidingSource : Text :=
  "shader main { vertex { input float x; float f(float x) { return x; } } }"

/-- The function. -/
def hidingFunction : Tree :=
  Tree.function (.text "float") (.text "f") [.tuple [.text "float", .text "x"]]
    [Tree.returned (.list [Tree.var (.text []) (.text "x")])]

/-- Its section. -/
def hidingItems : SectionItems :=
  { inputs := [.tuple [.text "float", .text "x"]], functions := [hidingFunction] }

/-- The tree of the shader. -/
def hidingTree : Tree :=
  .node .shader
    [(.name, .text "main"), (.globalInputs, .list []), (.globalOutputs, .list []),
     (.globalFunctions, .list []), (.vertexSection, hidingItems.node .vertexSection),
     (.fragmentSection, .absent)]

theorem parse_hidingSource : Language.crossGl.parse hidingSource = .ok hidingTree := by
  rw [show hidingSource = _ from String.toList_ofList]
  decide +kernel

theorem function_respectsScope_iff_hiding :
    Language.crossGl.parse hidingSource = .ok hidingTree ∧
      (∃ text, (Route.forward .metal).generate hidingTree = .ok text ∧
        (functionLayout .metal .vertex hidingFunction).fill (Use.written .metal hidingItems)
          <:+: text) ∧
      (RespectsScope .metal .vertex hidingItems hidingFunction ↔
        (isEntry hidingFunction = .ok true → hidingFunction.get .params = .ok (.list [])) ∧
          ∀ u ∈ (functionLayout .metal .vertex hidingFunction).uses, u.word ∈ u.own →
            u.Free .metal hidingItems) :=
  ⟨parse_hidingSource, function_respectsScope_iff rfl parse_hidingSource
    (show hidingTree.get (stageField .vertex) = .ok (hidingItems.node .vertexSection) from rfl)
    List.mem_cons_self⟩

/-- The parameter is written as the input that it hides. -/
theorem parameter_written_as_input :
    Language.crossGl.parse hidingSource = .ok hidingTree ∧
      (∃ text, (Route.forward .hlsl).generate hidingTree = .ok text ∧
        Text.cat [r"float f(float x) {", "\n    return  input.x;\n", r"}", "\n"] <:+: text) ∧
      ¬ RespectsScope .hlsl .vertex hidingItems hidingFunction := by
  refine ⟨parse_hidingSource, ?_, ?_⟩
  · have hfill : (functionLayout .hlsl .vertex hidingFunction).fill (Use.written .hlsl hidingItems)
        = Text.cat [r"float f(float x) {", "\n    return  input.x;\n", r"}", "\n"] := by decide
    rw [← hfill]
    have hsection : hidingTree.get (stageField .vertex)
        = .ok (hidingItems.node (stageKind .vertex)) := rfl
    exact exists_filled_of_parse rfl parse_hidingSource hsection List.mem_cons_self
  · intro h
    have huse : Use.mk "x" false ["x"] ∈ (functionLayout .hlsl .vertex hidingFunction).uses := by
      decide
    have hown := (h.uses _ huse).own List.mem_cons_self
    exact absurd hown (by decide)

end Forward

end ShaderBridge
