import ShaderBridge.Proofs.Balance
import ShaderBridge.Proofs.CrossGl.Inventory

/-!
# What a parsed shader retains of its source

A source of CrossGL that is accepted may hold more than its tree.  What stands behind the closing
brace is not read, of several sections of a stage the last one is kept, and uniforms are read and
dropped.  Nothing else is lost: nothing is ignored exactly where the source ends behind the brace,
the sections of each stage are alike and no `uniform` is among the words (`nothing_ignored_iff`).
-/

namespace ShaderBridge.CrossGl

open ShaderBridge.Parser
open ShaderBridge.Tree (Every)

/-! ## §1 What a source holds -/

/-- The inventory of a source, the tokens that were read for it, and where reading stopped. -/
def TakesStock (source : Text) (inv : Inventory) (used : List Token) (c : Cursor) : Prop :=
  ∃ ts, Language.crossGl.tokenize source = .ok ts ∧
    inventory (Language.crossGl.start ts) = .ok inv c ∧
    (Language.crossGl.start ts).rest = used ++ c.rest

/-- Whether a text in a dialect declares a uniform: it has the type and the name. -/
def declares (d : Forward.Dialect) (text : Text) (u : Uniform) : Bool :=
  match d.mapType u.vtype with
  | .ok vtype =>
    Text.occurs (Text.cat [Forward.Scope.plain vtype, " ", Forward.Scope.plain u.name, ";"]) text
  | .error _ => false

/-- Nothing in a source is ignored: reading stops at its end, every section is in the tree, and
every uniform is in the tree and in the texts of all dialects. -/
structure NothingIgnored (inv : Inventory) (c : Cursor) (t : Tree) : Prop where
  atEnd : c.kind = .endOfInput
  sections : ∀ b ∈ inv.contents.blocks, t.get (stageField b.stage) = .ok b.node
  uniforms : ∀ u ∈ inv.allUniforms, u.node.Within t ∧
    ∀ d text, (Route.forward d).generate t = .ok text → declares d text u

/-- Sections of one stage are alike. -/
def Inventory.HasOneForm (inv : Inventory) : Prop :=
  ∀ b ∈ inv.contents.blocks, ∀ b' ∈ inv.contents.blocks, b.stage = b'.stage → b.node = b'.node

instance (inv : Inventory) : Decidable inv.HasOneForm :=
  inferInstanceAs (Decidable (∀ b ∈ _, ∀ b' ∈ _, _ → _))

/-! ## §2 What is kept -/

/-- A tree has the last section of each stage. -/
theorem get_stageField (inv : Inventory) (stage : Stage) :
    inv.tree.get (stageField stage) = .ok (lastNode inv.contents.blocks stage) := by
  cases stage <;> rfl

theorem exists_lastNode {bs : List Block} {b : Block} (hb : b ∈ bs) :
    ∃ b' ∈ bs, b'.stage = b.stage ∧ lastNode bs b.stage = b'.node := by
  have hmem : b ∈ bs.filter (·.stage = b.stage) := List.mem_filter.2 ⟨hb, by simp⟩
  have hne := List.ne_nil_of_mem hmem
  obtain ⟨hin, hstage⟩ := List.mem_filter.1 (List.getLast_mem hne)
  refine ⟨_, hin, by simpa using hstage, ?_⟩
  rw [lastNode, List.getLast?_eq_some_getLast hne]
  rfl

/-- Every section is in the tree if and only if sections of one stage are alike. -/
theorem sections_kept_iff (inv : Inventory) :
    (∀ b ∈ inv.contents.blocks, inv.tree.get (stageField b.stage) = .ok b.node) ↔
      inv.HasOneForm := by
  constructor
  · intro hkept b hb b' hb' hstage
    have hb := hkept b hb
    rw [hstage, hkept b' hb'] at hb
    exact (Except.ok.inj hb).symm
  · intro halike b hb
    obtain ⟨b', hb', hstage, hlast⟩ := exists_lastNode hb
    rw [get_stageField, hlast, halike b' hb' b hb hstage]

/-- No uniform is within the tree of a source. -/
theorem uniform_not_within {source : Text} {t : Tree}
    (h : Language.crossGl.parse source = .ok t) (u : Uniform) : ¬ u.node.Within t :=
  fun hu => (Language.of_parse h makes_shaderShape).every_tidy _ hu

theorem stageWord_ne (stage : Stage) : stageWord stage ≠ .uniformWord := by
  cases stage <;> decide

theorem uniformWord_notMem_marks_iff (inv : Inventory) :
    .uniformWord ∉ inv.marks ↔ inv.allUniforms = [] := by
  simp [Inventory.marks, Inventory.allUniforms, Block.marks, (stageWord_ne _).symm]

/-- No `uniform` is among the tokens of an inventory if and only if it has no uniforms. -/
theorem no_uniformWord_iff {inv : Inventory} {used : List Token} (h : marks used = inv.marks) :
    (∀ w ∈ used, w.kind ≠ .uniformWord) ↔ inv.allUniforms = [] := by
  rw [← uniformWord_notMem_marks_iff, ← h]
  simp [marks, marksOf, markKinds]

/-- A source that is accepted has an inventory, from which its tree is made. -/
theorem exists_stock {source : Text} {t : Tree} (h : Language.crossGl.parse source = .ok t) :
    ∃ inv used c, TakesStock source inv used c ∧ t = inv.tree ∧ marks used = inv.marks := by
  obtain ⟨ts, c, htokens, hrun⟩ := Language.parse_eq_ok_iff.1 h
  change shader (Language.crossGl.start ts) = .ok t c at hrun
  rw [shader_eq, ← bind_pure_comp] at hrun
  obtain ⟨inv, d, hinv, hpure⟩ := bind_eq_ok hrun
  cases hpure
  obtain ⟨used, hused, hmarks⟩ := spends_inventory _ inv c trivial hinv
  rw [Marks.map_kind_among_sectionMarks] at hmarks
  exact ⟨inv, used, c, ⟨ts, htokens, hinv, hused⟩, rfl, hmarks⟩

/-! ## §3 Testing what a source holds -/

/-- A test of the inventory of a source and of where reading stopped. -/
def stockIs (source : Text) (test : Inventory → Cursor → Bool) : Bool :=
  match Language.crossGl.tokenize source with
  | .ok ts =>
    match inventory (Language.crossGl.start ts) with
    | .ok inv c => test inv c
    | .error .. => false
  | .error _ => false

theorem TakesStock.test {source : Text} {inv : Inventory} {used : List Token} {c : Cursor}
    (h : TakesStock source inv used c) {test : Inventory → Cursor → Bool}
    (htest : stockIs source test) : test inv c := by
  obtain ⟨ts, htokens, hinv, -⟩ := h
  simpa only [stockIs, htokens, hinv] using htest

/-- A source whose inventory can be tested is accepted. -/
theorem accepted_of_stockIs {source : Text} {test : Inventory → Cursor → Bool}
    (h : stockIs source test) : ∃ t, Language.crossGl.parse source = .ok t := by
  unfold stockIs at h
  split at h
  next ts htokens =>
    split at h
    next inv c hinv =>
      refine ⟨inv.tree, Language.parse_eq_ok_iff.2 ⟨ts, c, htokens, ?_⟩⟩
      change shader (Language.crossGl.start ts) = .ok inv.tree c
      rw [shader_eq, ← bind_pure_comp, bind_of_ok hinv]
      rfl
    next => cases h
  next => cases h

/-- Whether a uniform is missing in the texts of all dialects. -/
def undeclared (t : Tree) (u : Uniform) : Bool :=
  [Forward.Dialect.hlsl, .metal, .glsl].all fun d =>
    match (Route.forward d).generate t with
    | .ok text => !declares d text u
    | .error _ => false

theorem exists_generate_of_undeclared {t : Tree} {u : Uniform} (h : undeclared t u)
    (d : Forward.Dialect) :
    ∃ text, (Route.forward d).generate t = .ok text ∧ declares d text u = false := by
  have hd := List.all_eq_true.1 h d (by cases d <;> decide)
  split at hd
  next text htext => exact ⟨text, htext, by simpa using hd⟩
  next => simp at hd

/-! ## §4 What is ignored -/

/-- What an accepted source holds is ignored or not as its tokens say.  The inventory accounts for
all words that open a section or a uniform.  Nothing is ignored if and only if the source ends where
reading stops, sections of one stage are alike and there is no `uniform`. -/
theorem nothing_ignored_iff {source : Text} {t : Tree}
    (h : Language.crossGl.parse source = .ok t) :
    ∃ inv used c, TakesStock source inv used c ∧ t = inv.tree ∧ marks used = inv.marks ∧
      (∀ u ∈ inv.allUniforms, ¬ u.node.Within t) ∧
      (NothingIgnored inv c t ↔
        c.kind = .endOfInput ∧ inv.HasOneForm ∧ ∀ w ∈ used, w.kind ≠ .uniformWord) := by
  obtain ⟨inv, used, c, hstock, rfl, hmarks⟩ := exists_stock h
  refine ⟨inv, used, c, hstock, rfl, hmarks, fun u _ => uniform_not_within h u, ?_⟩
  rw [no_uniformWord_iff hmarks, ← sections_kept_iff]
  constructor
  · rintro ⟨hend, hsections, huniforms⟩
    refine ⟨hend, hsections, List.eq_nil_iff_forall_not_mem.2 fun u hu => ?_⟩
    exact uniform_not_within h u (huniforms u hu).1
  · rintro ⟨hend, hsections, hnone⟩
    exact ⟨hend, hsections, by simp [hnone]⟩

/-- A shader that ends behind its brace and has one section of each stage. -/
def keptSource : Text :=
  Text.cat
    [r"shader main { input vec3 position; vertex { output vec2 uv; ",
     r"void main() { uv = position.xy; } } fragment { } }"]

theorem nothing_ignored_keptSource :
    ∃ t inv used c, Language.crossGl.parse keptSource = .ok t ∧
      TakesStock keptSource inv used c ∧ inv.contents.blocks.length = 2 ∧
      NothingIgnored inv c t := by
  have hkept : stockIs keptSource fun inv c => inv.contents.blocks.length = 2 ∧
      c.kind = .endOfInput ∧ inv.HasOneForm ∧ inv.allUniforms.isEmpty := by
    rw [keptSource, String.toList_ofList, String.toList_ofList]
    decide +kernel
  obtain ⟨t, ht⟩ := accepted_of_stockIs hkept
  obtain ⟨inv, used, c, hstock, -, hmarks, -, hiff⟩ := nothing_ignored_iff ht
  obtain ⟨hblocks, hend, hform, hnone⟩ := of_decide_eq_true (hstock.test hkept)
  have huniform := (no_uniformWord_iff hmarks).2 (List.isEmpty_iff.1 hnone)
  exact ⟨t, inv, used, c, ht, hstock, hblocks, hiff.2 ⟨hend, hform, huniform⟩⟩

/-- A shader with something to lose: a uniform, a second vertex section, a word behind its end. -/
def lossySource : Text :=
  Text.cat
    [r"shader main { uniform float scale; vertex { input vec2 first; } ",
     r"vertex { input vec3 second; } } trailing"]

/-- The shader is accepted, but the word behind its end is not read, a vertex section is not in the
tree, and the uniform is neither in the tree nor in the text of any dialect. -/
theorem lossySource_ignored :
    ∃ t inv used c, Language.crossGl.parse lossySource = .ok t ∧
      TakesStock lossySource inv used c ∧ c.kind = .identifier ∧
      (∃ b ∈ inv.contents.blocks, t.get (stageField b.stage) ≠ .ok b.node) ∧
      (∃ u ∈ inv.allUniforms, ¬ u.node.Within t ∧
        ∀ d, ∃ text, (Route.forward d).generate t = .ok text ∧ declares d text u = false) ∧
      ¬ NothingIgnored inv c t := by
  -- What is lost is computed once, on the inventory of the source.
  have hlossy : stockIs lossySource fun inv c => c.kind = .identifier ∧
      (∃ b ∈ inv.contents.blocks, inv.tree.get (stageField b.stage) ≠ .ok b.node) ∧
      ∃ u ∈ inv.allUniforms, undeclared inv.tree u := by
    rw [lossySource, String.toList_ofList, String.toList_ofList]
    decide +kernel
  obtain ⟨t, ht⟩ := accepted_of_stockIs hlossy
  obtain ⟨inv, used, c, hstock, rfl, -⟩ := exists_stock ht
  obtain ⟨hword, hlost, u, hu, hmissing⟩ := of_decide_eq_true (hstock.test hlossy)
  refine ⟨inv.tree, inv, used, c, ht, hstock, hword, hlost,
    ⟨u, hu, uniform_not_within ht u, exists_generate_of_undeclared hmissing⟩, fun hkept => ?_⟩
  have hend := hkept.atEnd
  rw [hword] at hend
  cases hend

end ShaderBridge.CrossGl
