import ShaderBridge.Proofs.Generation

/-!
# Values inside a tree

`Tree.Every Q t` says that every value that stands somewhere inside `t` satisfies `Q`.  The
accessors of trees give values for which it holds again, so it is kept along the recursion of a
generator.

- `Returns x P`: whatever a computation without a state gives satisfies `P`.
- `Gen.Returns I g P`: the same for a generator, from the states that satisfy `I`.
-/

namespace ShaderBridge

variable {α β : Type}

/-! ## §1 What computations give -/

/-- Whatever the computation gives satisfies `P`. -/
def Returns (x : Except Fault α) (P : α → Prop) : Prop := ∀ a, x = .ok a → P a

namespace Returns

variable {x : Except Fault α} {f : α → Except Fault β} {P : α → Prop} {Q : β → Prop}

theorem ok {a : α} (h : P a) : Returns (.ok a) P := by
  rintro _ ⟨⟩
  exact h

theorem pure {a : α} (h : P a) : Returns (pure a) P := ok h

theorem error {e : Fault} : Returns (.error e : Except Fault α) P := nofun

theorem any : Returns x fun _ => True := fun _ _ => trivial

theorem bind (hx : Returns x P) (hf : ∀ a, P a → Returns (f a) Q) : Returns (x >>= f) Q := by
  cases x with
  | error e => exact error
  | ok a => exact hf a (hx a rfl)

theorem seq (hf : ∀ a, Returns (f a) Q) : Returns (x >>= f) Q := by
  refine any.bind fun a _ => ?_
  exact hf a

theorem mapM {xs : List α} (h : ∀ a ∈ xs, Returns (f a) Q) :
    Returns (xs.mapM f) fun bs => ∀ b ∈ bs, Q b := by
  induction xs with
  | nil => exact pure (by simp)
  | cons a xs ih =>
    obtain ⟨ha, hxs⟩ := List.forall_mem_cons.1 h
    rw [List.mapM_cons]
    refine ha.bind fun b hb => ?_
    refine (ih hxs).bind fun bs hbs => ?_
    refine pure ?_
    exact List.forall_mem_cons.2 ⟨hb, hbs⟩

theorem yields (h : Returns x P) (hx : Succeeds x) : Yields x P := by
  obtain ⟨a, ha⟩ := hx
  exact ⟨a, ha, h a ha⟩

end Returns

namespace Gen

variable {σ : Type}

/-- From every state that satisfies `I`, whatever the generator gives satisfies `P`, and it leaves
such a state. -/
def Returns (I : σ → Prop) (g : Gen σ α) (P : α → Prop) : Prop :=
  ∀ s a s', I s → g s = .ok a s' → P a ∧ I s'

namespace Returns

variable {I : σ → Prop} {g : Gen σ α} {f : α → Gen σ β} {P : α → Prop} {Q : β → Prop}

theorem pure {a : α} (h : P a) : Returns I (pure a) P := by
  rintro s _ _ hs ⟨⟩
  exact ⟨h, hs⟩

theorem throw {e : Fault} : Returns I (throw e : Gen σ α) P := by
  rintro s _ _ hs ⟨⟩

theorem bind (hg : Returns I g P) (hf : ∀ a, P a → Returns I (f a) Q) : Returns I (g >>= f) Q := by
  intro s b s' hs hrun
  cases hfirst : g s with
  | error e d =>
    have herror : (g >>= f) s = .error e d := by
      show EStateM.bind g f s = _
      rw [EStateM.bind, hfirst]
    rw [herror] at hrun
    cases hrun
  | ok a d =>
    rw [bind_of_ok hfirst] at hrun
    obtain ⟨ha, hd⟩ := hg s a d hs hfirst
    exact hf a ha d b s' hd hrun

theorem lift {x : Except Fault α} (h : ShaderBridge.Returns x P) : Returns I (liftM x) P := by
  intro s a s' hs hrun
  cases x with
  | error e => cases hrun
  | ok b =>
    cases hrun
    exact ⟨h a rfl, hs⟩

theorem get : Returns I MonadState.get I := by
  rintro s _ _ hs ⟨⟩
  exact ⟨hs, hs⟩

theorem modify {f : σ → σ} (h : ∀ s, I s → I (f s)) : Returns I (modify f) fun _ => True := by
  rintro s _ _ hs ⟨⟩
  exact ⟨trivial, h s hs⟩

theorem outcome (h : Returns I g P) {s : σ} (hs : I s) : ShaderBridge.Returns (g.outcome s) P := by
  intro a ha
  cases hrun : g s with
  | error e d =>
    rw [Gen.outcome, hrun] at ha
    cases ha
  | ok b d =>
    rw [outcome_of_ok hrun] at ha
    cases ha
    exact (h s a d hs hrun).1

end Returns

end Gen

namespace Tree

/-! ## §2 Values inside a tree -/

/-- The value stands somewhere inside another one, or is that one. -/
inductive Within (u : Tree) : Tree → Prop where
  | here : Within u u
  | list {x : Tree} {xs : List Tree} (hx : x ∈ xs) (h : Within u x) : Within u (.list xs)
  | tuple {x : Tree} {xs : List Tree} (hx : x ∈ xs) (h : Within u x) : Within u (.tuple xs)
  | field {k : NodeKind} {p : Field × Tree} {fs : List (Field × Tree)} (hp : p ∈ fs)
    (h : Within u p.2) : Within u (.node k fs)

/-- Every value inside the tree satisfies `Q`. -/
def Every (Q : Tree → Prop) (t : Tree) : Prop := ∀ u, u.Within t → Q u

variable {Q : Tree → Prop} {t : Tree}

theorem every_list_iff {xs : List Tree} :
    Every Q (.list xs) ↔ Q (.list xs) ∧ ∀ x ∈ xs, Every Q x := by
  refine ⟨fun h => ⟨h _ .here, fun x hx u hu => h u (.list hx hu)⟩, ?_⟩
  rintro ⟨hlist, hitems⟩ u hu
  cases hu with
  | here => exact hlist
  | list hx hu => exact hitems _ hx u hu

theorem every_tuple_iff {xs : List Tree} :
    Every Q (.tuple xs) ↔ Q (.tuple xs) ∧ ∀ x ∈ xs, Every Q x := by
  refine ⟨fun h => ⟨h _ .here, fun x hx u hu => h u (.tuple hx hu)⟩, ?_⟩
  rintro ⟨htuple, hitems⟩ u hu
  cases hu with
  | here => exact htuple
  | tuple hx hu => exact hitems _ hx u hu

theorem every_node_iff {k : NodeKind} {fs : List (Field × Tree)} :
    Every Q (.node k fs) ↔ Q (.node k fs) ∧ ∀ p ∈ fs, Every Q p.2 := by
  refine ⟨fun h => ⟨h _ .here, fun p hp u hu => h u (.field hp hu)⟩, ?_⟩
  rintro ⟨hnode, hfields⟩ u hu
  cases hu with
  | here => exact hnode
  | field hp hu => exact hfields _ hp u hu

theorem every_text_iff {s : Text} : Every Q (.text s) ↔ Q (.text s) := by
  refine ⟨fun h => h _ .here, fun h u hu => ?_⟩
  cases hu
  exact h

theorem every_absent_iff : Every Q .absent ↔ Q .absent := by
  refine ⟨fun h => h _ .here, fun h u hu => ?_⟩
  cases hu
  exact h

theorem Every.mono {Q' : Tree → Prop} (h : Every Q t) (hQ : ∀ u, Q u → Q' u) : Every Q' t :=
  fun u hu => hQ u (h u hu)

/-! ## §3 Accessors -/

theorem mem_of_lookupField {f : Field} {fs : List (Field × Tree)} {u : Tree}
    (h : lookupField f fs = some u) : (f, u) ∈ fs := by
  induction fs with
  | nil => cases h
  | cons p rest ih =>
    obtain ⟨g, v⟩ := p
    rw [lookupField] at h
    split at h
    · next hg =>
      cases h
      rw [hg]
      exact List.mem_cons_self
    · exact List.mem_cons_of_mem _ (ih h)

theorem Every.get (h : Every Q t) (f : Field) : Returns (t.get f) (Every Q) := by
  intro u hu
  cases t with
  | node k fs =>
    rw [Tree.get] at hu
    split at hu
    · next v hv =>
      cases hu
      exact (every_node_iff.1 h).2 _ (mem_of_lookupField hv)
    · cases hu
  | _ => cases hu

theorem Every.part (h : Every Q t) (f : Field) : Returns (t.part f) fun u => Every Q u.1 := by
  intro u hu
  unfold Tree.part at hu
  split at hu
  · next v hv =>
    cases hu
    exact h.get f v hv
  · cases hu

/-- What holds of a text holds of its characters. -/
def CharClosed (Q : Tree → Prop) : Prop := ∀ s c, c ∈ s → Q (.text s) → Q (.text [c])

theorem Every.items (hQ : CharClosed Q) (h : Every Q t) :
    Returns t.items fun xs => ∀ x ∈ xs, Every Q x := by
  intro xs hxs
  cases t with
  | list ys =>
    cases hxs
    exact (every_list_iff.1 h).2
  | tuple ys =>
    cases hxs
    exact (every_tuple_iff.1 h).2
  | text s =>
    cases hxs
    intro x hx
    obtain ⟨c, hc, rfl⟩ := List.mem_map.1 hx
    exact every_text_iff.2 (hQ s c hc (every_text_iff.1 h))
  | _ => cases hxs

theorem Every.parts (hQ : CharClosed Q) (h : Every Q t) :
    Returns t.parts fun us => ∀ u ∈ us, Every Q u.1 := by
  intro us hus
  unfold Tree.parts at hus
  split at hus
  · next xs hxs =>
    cases hus
    intro u hu
    obtain ⟨x, -, rfl⟩ := List.mem_map.1 hu
    exact h.items hQ xs hxs x.1 x.2
  · cases hus

theorem Every.halves (hQ : CharClosed Q) (h : Every Q t) :
    Returns t.halves fun p => Every Q p.1.1 ∧ Every Q p.2.1 := by
  intro p hp
  unfold Tree.halves at hp
  split at hp
  · next a b hab =>
    cases hp
    have hparts := h.parts hQ _ hab
    exact ⟨hparts a (by simp), hparts b (by simp)⟩
  · cases hp
  · cases hp

theorem Every.pair (hQ : CharClosed Q) (h : Every Q t) :
    Returns t.pair fun p => Every Q p.1 ∧ Every Q p.2 := by
  intro p hp
  unfold Tree.pair at hp
  split at hp
  · next a b hab =>
    cases hp
    have hitems := h.items hQ _ hab
    exact ⟨hitems a (by simp), hitems b (by simp)⟩
  · cases hp
  · cases hp

/-- An item of a list or a tuple, or a character of a text. -/
theorem Every.item (hQ : CharClosed Q) (h : Every Q t) (i : Nat) :
    Returns (t.item i) (Every Q) := by
  intro u hu
  cases t with
  | list xs =>
    simp only [Tree.item] at hu
    split at hu
    · next v hv =>
      cases hu
      exact (every_list_iff.1 h).2 _ (List.mem_of_getElem? hv)
    · cases hu
  | tuple xs =>
    simp only [Tree.item] at hu
    split at hu
    · next v hv =>
      cases hu
      exact (every_tuple_iff.1 h).2 _ (List.mem_of_getElem? hv)
    · cases hu
  | text s =>
    simp only [Tree.item] at hu
    split at hu
    · next c hc =>
      cases hu
      exact every_text_iff.2 (hQ s c (List.mem_of_getElem? hc) (every_text_iff.1 h))
    · cases hu
  | _ => cases hu

/-- What a table gives is one of its texts. -/
theorem returns_find (table : List (Text × Text)) (t : Tree) :
    Returns (t.find table) fun o => ∀ s ∈ o, ∃ w, (w, s) ∈ table := by
  intro o ho s hs
  unfold Tree.find at ho
  split at ho
  · next w =>
    cases ho
    obtain ⟨l₁, l₂, htable, -⟩ := List.lookup_eq_some_iff.1 (Option.mem_def.1 hs)
    exact ⟨w, by simp [htable]⟩
  · split at ho
    · cases ho
      cases hs
    · cases ho

/-- A renamed value is one of the texts of the table or the value itself. -/
theorem Every.rename {table : List (Text × Text)} (htable : ∀ p ∈ table, Q (.text p.2))
    (h : Every Q t) : Returns (t.rename table) (Every Q) := by
  intro u hu
  unfold Tree.rename at hu
  split at hu
  · next s hs =>
    cases hu
    obtain ⟨w, hw⟩ := returns_find table t _ hs s rfl
    exact every_text_iff.2 (htable _ hw)
  · cases hu
    exact h
  · cases hu

end Tree

/-! ## §4 Sections -/

open ShaderBridge.Tree

variable {Q : Tree → Prop}

theorem returns_findVariable (hQ : CharClosed Q) {ts : List Tree} (h : ∀ t ∈ ts, Every Q t)
    (word : Tree) : Returns (findVariable word ts) fun o => ∀ u ∈ o, Every Q u := by
  induction ts with
  | nil => exact .ok nofun
  | cons t ts ih =>
    obtain ⟨ht, hts⟩ := List.forall_mem_cons.1 h
    refine (ht.pair hQ).bind ?_
    rintro ⟨_, name⟩ ⟨-, hname⟩
    dsimp only
    split
    · refine .pure ?_
      rintro _ ⟨⟩
      exact hname
    · exact ih hts

theorem returns_variableIn (hQ : CharClosed Q) {owner : Tree} (h : Every Q owner) (f : Field)
    (word : Tree) : Returns (variableIn owner f word) fun o => ∀ u ∈ o, Every Q u := by
  unfold variableIn
  split
  · refine (h.get f).bind fun found hfound => ?_
    split
    · refine (hfound.items hQ).bind fun xs hxs => ?_
      exact returns_findVariable hQ hxs word
    · exact .pure nofun
  · exact .pure nofun

/-- Every value inside the sections satisfies `Q`. -/
structure Sections.Every (Q : Tree → Prop) (s : Sections) : Prop where
  vertex : Tree.Every Q s.vertex
  fragment : Tree.Every Q s.fragment

theorem Sections.Every.ofStage {s : Sections} (h : s.Every Q) (hQ : Q .absent) (stage : Tree) :
    Tree.Every Q (s.ofStage stage) := by
  unfold Sections.ofStage
  split
  · exact h.vertex
  · exact h.fragment
  · exact every_absent_iff.2 hQ

end ShaderBridge
