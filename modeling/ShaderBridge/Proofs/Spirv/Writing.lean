import ShaderBridge.Proofs.Spirv.Values

/-!
# What the SPIR-V generator writes

An operand is a value as it is printed, a name behind `%`, a comment, or a whole line that numbers
its result.  `Writes` builds such lines from their operands, and `Code` builds statements from
lines.  Both carry the numbers that a text defines, in the order in which they were drawn.

The rules for `Yields g P` put such facts together along a generator.  By them whatever is written
for an expression or a statement is such a text, and the numbers that it defines are drawn from the
counter, each one once (`yields_expression`, `yields_statement`).
-/

namespace ShaderBridge.Spirv

open Text (Calm)

/-! ## §1 Texts and the numbers that they define -/

/-- A line is put together from operands, and may be one itself. -/
inductive Part where
  | operand | line

/-- The operands and lines that are written, each with the numbers that it defines. -/
inductive Writes : Part → List Nat → Text → Prop where
  | value {x : Text} (hx : Inert x) : Writes .operand [] x
  | name {x : Text} (hx : Inert x) : Writes .operand [] ('%' :: x)
  | remark {x : Text} (hx : Calm x) : Writes .operand [] (';' :: x ++ "\n")
  /-- A line that numbers its result stands in the place of an operand, with its line end. -/
  | result {ds : List Nat} {x : Text} (h : Writes .line ds x) (n : Nat) :
    Writes .operand (ds ++ [n]) (ref n ++ " = " ++ x ++ "\n")
  | start {op : Text} {ds : List Nat} {x : Text} (hop : Inert op) (h : Writes .operand ds x) :
    Writes .line ds (op ++ ' ' :: x)
  | argument {ds es : List Nat} {x y : Text} (h : Writes .line ds x) (h' : Writes .operand es y) :
    Writes .line (ds ++ es) (x ++ ' ' :: y)
  | blank {ds : List Nat} {x : Text} (h : Writes .line ds x) : Writes .line ds (x ++ " ")

/-- The statements that are written, each with the numbers that it defines in the order in which
they are drawn. -/
inductive Code : List Nat → Text → Prop where
  | nil : Code [] []
  | append {ds es : List Nat} {x y : Text} (h : Code ds x) (h' : Code es y) :
    Code (ds ++ es) (x ++ y)
  | value {ds : List Nat} {x : Text} (h : Writes .operand ds x) (hx : x.head? ≠ some 'O') :
    Code ds (x ++ "\n")
  | returned {ds : List Nat} {x : Text} (h : Writes .operand ds x) :
    Code ds (Text.cat ["OpReturnValue ", x, "\n"])
  | store {ds : List Nat} {name x : Text} (hname : Inert name) (h : Writes .operand ds x) :
    Code ds (Text.cat ["OpStore %", name, " ", x, "\n"])
  | declared {ds : List Nat} {x : Text} (n : Nat) (h : Writes .operand ds x) :
    Code (n :: ds) (Text.cat
      [ref n, " = OpVariable %_ptr_Function_", defaultType, " Function\nOpStore ", ref n, " ", x,
       "\n"])
  | branch {ds es fs : List Nat} {condition body others : Text} (yes no join : Nat)
    (hcondition : Writes .operand ds condition) (hbody : Code es body) (hothers : Code fs others) :
    Code (ds ++ [yes, no, join] ++ es ++ fs) (Text.cat
      ["OpSelectionMerge ", ref join, " None\n",
       "OpBranchConditional ", condition, " ", ref yes, " ", ref no, "\n",
       label yes, body, goto join, label no, others, goto join, label join])
  | loop {ds es fs gs : List Nat} {first condition step body : Text} (header inner next join : Nat)
    (hfirst : Code ds first) (hcondition : Writes .operand es condition) (hstep : Code fs step)
    (hbody : Code gs body) :
    Code (ds ++ es ++ fs ++ [header, inner, next, join] ++ gs) (Text.cat
      [first, goto header, label header,
       "OpLoopMerge ", ref join, " ", ref next, " None\n",
       "OpBranchConditional ", condition, " ", ref inner, " ", ref join, "\n",
       label inner, body, goto next, label next, step, goto header, label join])

theorem Writes.cast {p : Part} {ds es : List Nat} {x y : Text} (h : Writes p ds x) (hd : es = ds)
    (hx : y = x) : Writes p es y := by
  rw [hd, hx]
  exact h

theorem Writes.ref (n : Nat) : Writes .operand [] (ref n) :=
  .name (inert_ofNat n)

/-- Operands behind a line, each behind a blank. -/
def Args (ds : List Nat) (xs : List Text) : Prop :=
  ∀ es y, Writes .line es y → Writes .line (es ++ ds) (y ++ Text.cat (xs.map (' ' :: ·)))

theorem Args.nil : Args [] [] := fun es y h => h.cast (by simp) (by simp [Text.cat])

theorem Args.cons {ds es : List Nat} {x : Text} {xs : List Text} (h : Writes .operand ds x)
    (h' : Args es xs) : Args (ds ++ es) (x :: xs) := fun fs y hy =>
  (h' _ _ (hy.argument h)).cast (by simp) (by simp [Text.cat])

theorem cat_blanks (x : Text) (xs : List Text) :
    Text.cat ((x :: xs).map (' ' :: ·)) = ' ' :: Text.join " " (x :: xs) := by
  induction xs generalizing x with
  | nil => simp [Text.cat, Text.join]
  | cons y ys ih =>
    rw [Text.join, List.intercalate_cons_cons, List.map_cons]
    show ' ' :: (x ++ Text.cat ((y :: ys).map (' ' :: ·))) = _
    rw [ih y, Text.join]
    simp

/-- A line goes on with operands that are set off by blanks. -/
theorem Args.join {ds es : List Nat} {xs : List Text} {y : Text} (h : Args ds xs)
    (hy : Writes .line es y) : Writes .line (es ++ ds) (y ++ ' ' :: Text.join " " xs) := by
  cases xs with
  | nil => exact (h _ _ hy).blank.cast rfl (by simp [Text.cat, Text.join])
  | cons x xs => exact (h _ _ hy).cast rfl (by rw [cat_blanks])

/-! ## §2 Numbers that are drawn -/

/-- From one state to the other numbers were drawn from the counter, and `ds` are some of them.  The
interface of the shader is left alone. -/
def Draws (s : State) (ds : List Nat) (s' : State) : Prop :=
  (∃ k, ds.Sublist (List.range' s.next k) ∧ s'.next = s.next + k ∧
    s'.drawn = (List.range' s.next k).reverse ++ s.drawn) ∧
  s'.inputs = s.inputs ∧ s'.outputs = s.outputs

theorem Draws.nodup {s s' : State} {ds : List Nat} (h : Draws s ds s') : ds.Nodup := by
  obtain ⟨⟨k, hds, -⟩, -⟩ := h
  exact hds.nodup List.nodup_range'

theorem Draws.refl (s : State) : Draws s [] s := ⟨⟨0, .slnil, rfl, rfl⟩, rfl, rfl⟩

theorem Draws.trans {s s₁ s₂ : State} {ds es : List Nat} (h : Draws s ds s₁)
    (h' : Draws s₁ es s₂) : Draws s (ds ++ es) s₂ := by
  obtain ⟨⟨k, hds, hnext, hdrawn⟩, hin, hout⟩ := h
  obtain ⟨⟨l, hes, hnext', hdrawn'⟩, hin', hout'⟩ := h'
  rw [hnext] at hes hnext' hdrawn'
  refine ⟨⟨k + l, ?_, by omega, ?_⟩, hin'.trans hin, hout'.trans hout⟩
  · rw [← List.range'_append_1]
    exact hds.append hes
  · rw [hdrawn', hdrawn, ← List.range'_append_1, List.reverse_append, List.append_assoc]

/-- In a shader whose interface satisfies `I`, whatever the generator gives comes with numbers that
it draws. -/
def Yields {α : Type} (I : Tree → Tree → Prop) (g : Gen State α) (P : List Nat → α → Prop) : Prop :=
  ∀ s a s', I s.inputs s.outputs → g s = .ok a s' → ∃ ds, Draws s ds s' ∧ P ds a

variable {I : Tree → Tree → Prop}

namespace Yields

variable {α β : Type} {g : Gen State α} {f : α → Gen State β} {P : List Nat → α → Prop}
  {Q : List Nat → β → Prop}

theorem pure {a : α} (h : P [] a) : Yields I (pure a) P := by
  rintro s _ _ hs ⟨⟩
  exact ⟨[], .refl s, h⟩

theorem throw {e : Fault} : Yields I (throw e : Gen State α) P := by
  rintro s _ _ hs ⟨⟩

theorem bind (hg : Yields I g P)
    (hf : ∀ ds a, P ds a → Yields I (f a) fun es b => Q (ds ++ es) b) : Yields I (g >>= f) Q := by
  intro s b s' hs hrun
  cases hfirst : g s with
  | error e d =>
    have herror : (g >>= f) s = .error e d := by
      show EStateM.bind g f s = _
      rw [EStateM.bind, hfirst]
    rw [herror] at hrun
    cases hrun
  | ok a d =>
    rw [Gen.bind_of_ok hfirst] at hrun
    obtain ⟨ds, hds, ha⟩ := hg s a d hs hfirst
    obtain ⟨es, hes, hb⟩ := hf ds a ha d b s' (by rwa [hds.2.1, hds.2.2]) hrun
    exact ⟨ds ++ es, hds.trans hes, hb⟩

theorem bind_lift {x : Except Fault α} {R : α → Prop} (hx : Returns x R)
    (hf : ∀ a, R a → Yields I (f a) Q) : Yields I (liftM x >>= f) Q := by
  cases x with
  | error e =>
    rintro s _ _ hs ⟨⟩
  | ok a => exact hf a (hx a rfl)

theorem bind_get {f : State → Gen State β} (hf : ∀ s, I s.inputs s.outputs → Yields I (f s) Q) :
    Yields I (get >>= f) Q :=
  fun s b s' hs => hf s hs s b s' hs

theorem bind_fresh {f : Nat → Gen State β} (hf : ∀ n, Yields I (f n) fun es b => Q (n :: es) b) :
    Yields I (fresh >>= f) Q := by
  have hfresh : Yields I fresh fun ds n => ds = [n] := by
    rintro s _ _ hs ⟨⟩
    exact ⟨[s.next], ⟨⟨1, .refl _, rfl, rfl⟩, rfl, rfl⟩, rfl⟩
  refine hfresh.bind ?_
  rintro _ n rfl
  exact hf n

/-- A change of the state that leaves the counter and the interface alone. -/
theorem bind_modify {m : State → State} {f : Unit → Gen State β}
    (hm : ∀ s, Draws s [] (m s)) (hf : Yields I (f ()) Q) : Yields I (modify m >>= f) Q := by
  have hmodify : Yields I (modify m) fun ds _ => ds = [] := by
    rintro s _ _ hs ⟨⟩
    exact ⟨[], hm s, rfl⟩
  refine hmodify.bind ?_
  rintro _ _ rfl
  exact hf

theorem mapM {xs : List α} {R : List Nat → List β → Prop} (hnil : R [] [])
    (hcons : ∀ ds b es bs, Q ds b → R es bs → R (ds ++ es) (b :: bs))
    (h : ∀ x ∈ xs, Yields I (f x) Q) : Yields I (xs.mapM f) R := by
  induction xs with
  | nil => exact .pure hnil
  | cons x xs ih =>
    obtain ⟨hx, hxs⟩ := List.forall_mem_cons.1 h
    rw [List.mapM_cons]
    apply hx.bind
    intro ds b hb
    apply (ih hxs).bind
    intro es bs hbs
    refine .pure ?_
    simpa using hcons ds b es bs hb hbs

end Yields

/-! ## §3 Expressions -/

/-- What is written for an expression. -/
def IsOperand (ds : List Nat) (x : Text) : Prop := Writes .operand ds x ∧ x.head? ≠ some 'O'

theorem IsOperand.result {ds : List Nat} {x y : Text} {n : Nat} (h : Writes .line ds x)
    (hy : y = ref n ++ " = " ++ x ++ "\n") : IsOperand (ds ++ [n]) y := by
  subst hy
  exact ⟨h.result n, by simp [ref]⟩

theorem IsOperand.ref (n : Nat) : IsOperand [] (ref n) := ⟨.ref n, by simp [Spirv.ref]⟩

/-- The pieces of a plain text are plain. -/
theorem Plain.of_mem_cutAt {s piece : Text} {sep : Char} (hs : Plain s)
    (h : piece ∈ Text.cutAt sep s) : Plain piece := by
  induction s generalizing piece with
  | nil =>
    simp only [Text.cutAt, List.mem_singleton] at h
    rw [h]
    exact List.forall_mem_nil _
  | cons c s ih =>
    obtain ⟨hc, hs⟩ := List.forall_mem_cons.1 hs
    rw [Text.cutAt] at h
    split at h
    · rcases List.mem_cons.1 h with rfl | h
      · exact List.forall_mem_nil _
      · exact ih hs h
    · cases hcut : Text.cutAt sep s with
      | nil => exact absurd hcut (Text.cutAt_bound sep s).1
      | cons first others =>
        rw [hcut] at h ih
        rcases List.mem_cons.1 h with rfl | h
        · exact List.forall_mem_cons.2 ⟨hc, ih hs List.mem_cons_self⟩
        · exact ih hs (List.mem_cons_of_mem _ h)

theorem inert_float : Inert defaultType := Plain.inert (by decide) (by decide)

/-- An operation with its first operand. -/
theorem Writes.op (op : Text) {ds : List Nat} {x : Text} (hop : op ≠ [] ∧ Plain op)
    (h : Writes .operand ds x) : Writes .line ds (op ++ ' ' :: x) :=
  .start (hop.2.inert hop.1) h

/-- An operation with a type behind it. -/
theorem Writes.typed (op : Text) {name : Text} (hop : op ≠ [] ∧ Plain op) (hname : Inert name) :
    Writes .line [] (op ++ ' ' :: '%' :: name) :=
  .op op hop (.name hname)

/-- A word is written as an operand: a reference, a vector, a constant or a remark. -/
theorem yields_wordText (t : Text) (ht : Plain t) : Yields I (wordText t) IsOperand := by
  rw [wordText.eq_def]
  refine .bind_get fun s _ => ?_
  split
  · exact .pure (.ref _)
  · split
    · next rest _ =>
      have hrest : Plain rest := fun c hc => ht c (by simp [hc])
      have hpieces : Yields I ((Text.cutAt ',' (rest.drop 1).dropLast).attach.mapM
          fun piece => wordText piece.1) Args := by
        refine .mapM (Q := IsOperand) .nil (fun ds b es bs hb hbs => .cons hb.1 hbs) ?_
        rintro ⟨piece, hpiece⟩ -
        have hinner : Plain (rest.drop 1).dropLast := fun c hc =>
          hrest c (List.mem_of_mem_drop ((List.dropLast_prefix _).subset hc))
        exact yields_wordText piece (hinner.of_mem_cutAt hpiece)
      apply hpieces.bind
      intro ds xs hxs
      refine .bind_fresh fun n => ?_
      refine .pure ?_
      have hname : Inert ("vec" ++ rest.take 1) := by
        refine Plain.inert (List.forall_mem_append.2 ⟨by decide, fun c hc => ?_⟩) (by simp)
        exact hrest c (List.mem_of_mem_take hc)
      have hline := hxs.join (.typed "OpCompositeConstruct" (by decide) hname)
      exact .result hline (by simp [Text.cat])
    · split
      · next hnumeral =>
        refine .bind_fresh fun n => ?_
        refine .pure ?_
        have hvalue : Inert t := ht.inert fun hnil => by
          rw [hnil] at hnumeral
          revert hnumeral
          decide
        have hline := (Writes.typed "OpConstant" (by decide) inert_float).argument (.value hvalue)
        exact .result hline (by simp [Text.cat, defaultType])
      · have hcalm : Calm (" Unhandled expression: " ++ t) :=
          Text.calm_append.2 ⟨by decide, ht.calm⟩
        exact .pure ⟨(Writes.remark hcalm).cast rfl (by simp [Text.cat]), by simp [Text.cat]⟩
termination_by t.length
decreasing_by
  have hle := Text.length_le_of_mem_cutAt hpiece
  subst_vars
  simp only [List.length_dropLast, List.length_drop] at hle
  simp only [List.length_cons]
  omega

theorem yields_checkName (t : Tree) : Yields I (checkName t) fun ds u => ds = [] ∧ u = t := by
  unfold checkName
  split
  · exact .pure ⟨rfl, rfl⟩
  · exact .throw

theorem yields_number (ns : Numbering) (name : Tree) :
    Yields I (number ns name) fun ds _ => ds = [] := by
  refine (yields_checkName name).bind ?_
  rintro _ _ ⟨rfl, rfl⟩
  split
  · exact .pure rfl
  · exact .throw

theorem yields_word {t : Tree} (ht : t.Every IsSolid) : Yields I (word t) IsOperand := by
  unfold word
  split
  · exact yields_wordText _ (Tree.every_text_iff.1 ht).2
  · refine .bind_get fun s _ => ?_
    refine (yields_checkName t).bind ?_
    rintro _ _ ⟨rfl, rfl⟩
    split
    · exact .pure (.ref _)
    · exact .throw

theorem isOperand_plain {t : Tree} (h : t.Every IsSolid) (ht : ∀ s, t ≠ .text s) :
    IsOperand [] (plain t) := by
  refine ⟨.value (inert_plain h), fun hhead => ?_⟩
  by_cases hnumber : ∃ n, t = .number n
  · obtain ⟨n, rfl⟩ := hnumber
    have hsigned : ∀ c ∈ Text.ofInt n, c ≠ 'O' := Text.all_ofInt (by decide) n
    exact hsigned 'O' (List.mem_of_head? hhead) rfl
  · have hfirst := head_plain (t := t) ht fun n hn => hnumber ⟨n, hn⟩
    rw [hhead] at hfirst
    cases hfirst

theorem solid_mapType {vtype : Tree} (h : vtype.Every IsSolid) :
    Returns (mapType vtype) (Tree.Every IsSolid) :=
  h.rename (by decide)

theorem solid_mapOperator {op : Tree} (h : op.Every IsSolid) :
    Returns (mapOperator op) (Tree.Every IsSolid) :=
  h.rename (by decide)

/-- An expression is written as an operand, behind the lines that its parts need. -/
theorem yields_expression (t : Tree) (ht : t.Every IsSolid) :
    Yields I (expression t) IsOperand := by
  rw [expression.eq_def]
  split
  · exact yields_word ht
  · refine .bind_lift (ht.get .name) fun _ h => ?_
    exact yields_word h
  · -- An operation on two operands.
    refine .bind_lift (ht.part .left) ?_
    rintro ⟨left, hlt⟩ hleft
    apply (yields_expression left hleft).bind
    intro ds l hl
    refine .bind_lift (ht.part .right) ?_
    rintro ⟨right, hlt'⟩ hright
    apply (yields_expression right hright).bind
    intro es r hr
    refine .bind_fresh fun n => ?_
    have hop := (ht.get .op).bind fun op hop => solid_mapOperator hop
    refine .bind_lift hop fun op hop => ?_
    refine .bind_lift (ht.get .type) fun vtype _ => ?_
    refine .bind_get fun s _ => ?_
    refine (yields_number s.types vtype).bind ?_
    rintro _ typeNumber rfl
    have hline := ((Writes.start (inert_plain hop) (.value (inert_ofNat typeNumber))).argument
      hl.1).argument hr.1
    refine .pure ?_
    simpa [Text.cat] using IsOperand.result hline (n := n) rfl
  · -- A call, which makes a vector or is a call of a function.
    refine .bind_lift (ht.get .name) fun name hname => ?_
    refine .bind_lift (ht.part .args) ?_
    rintro ⟨args, hlt⟩ hargs
    refine .bind_lift (hargs.parts charClosed_isSolid) fun us hus => ?_
    have hoperands : Yields I (us.mapM fun arg => expression arg.1) Args := by
      refine .mapM (Q := IsOperand) .nil (fun ds b es bs hb hbs => .cons hb.1 hbs) ?_
      rintro ⟨u, hle⟩ hu
      exact yields_expression u (hus _ hu)
    apply hoperands.bind
    intro ds xs hxs
    refine .bind_fresh fun n => ?_
    split
    · next hvector =>
      refine .bind_lift (solid_mapType hname) fun vtype hvtype => ?_
      refine .pure ?_
      have hline := hxs.join (.typed "OpCompositeConstruct" (by decide) (inert_plain hvtype))
      simpa [Text.cat] using IsOperand.result hline (n := n) rfl
    · refine .bind_get fun s _ => ?_
      refine (yields_number s.functions name).bind ?_
      rintro _ callee rfl
      have hline := hxs.join ((Writes.typed "OpFunctionCall" (by decide) inert_float).argument
        (.ref callee))
      refine .pure ?_
      simpa [Text.cat] using IsOperand.result hline (n := n) rfl
  · -- A part of a value.
    refine .bind_lift (ht.part .object) ?_
    rintro ⟨object, hlt⟩ hobject
    apply (yields_expression object hobject).bind
    intro ds o ho
    refine .bind_fresh fun n => ?_
    refine .bind_lift (ht.get .member) fun member hmember => ?_
    refine .pure ?_
    have hline := ((Writes.typed "OpCompositeExtract" (by decide) inert_float).argument
      ho.1).argument (.value (inert_plain hmember))
    simpa [Text.cat, defaultType] using IsOperand.result hline (n := n) rfl
  · next htext _ _ _ _ => exact .pure (isOperand_plain ht htext)
termination_by sizeOf t

/-! ## §4 Statements -/

theorem yields_isOutput (name : Tree) : Yields I (isOutput name) fun ds _ => ds = [] := by
  refine .bind_get fun s _ => ?_
  refine .bind_lift (R := fun _ => True) (fun _ _ => trivial) fun outputs _ => ?_
  refine .bind_lift (R := fun _ => True) (fun _ _ => trivial) fun names _ => ?_
  exact .pure rfl

theorem yields_assignment {t : Tree} (ht : t.Every IsSolid) : Yields I (assignment t) Code := by
  refine .bind_lift (ht.get .name) fun name hname => ?_
  refine (yields_isOutput name).bind ?_
  rintro _ output rfl
  split
  · refine .bind_lift (ht.get .value) fun value hvalue => ?_
    apply (yields_expression value hvalue).bind
    intro ds x hx
    refine .pure ?_
    simpa using Code.store (inert_plain hname) hx.1
  · refine .bind_fresh fun n => ?_
    refine .bind_lift (ht.get .value) fun value hvalue => ?_
    apply (yields_expression value hvalue).bind
    intro ds x hx
    refine .pure ?_
    simpa using Code.declared n hx.1

/-- Statements one behind the other. -/
theorem yields_statements {α : Type} {xs : List α} {f : α → Gen State Text}
    (h : ∀ x ∈ xs, Yields I (f x) Code) : Yields I (xs.mapM f) fun ds xs => Code ds (Text.cat xs) :=
  .mapM (Q := Code) .nil (fun _ _ _ _ hb hbs => hb.append hbs) h

mutual

theorem yields_statement (t : Tree) (ht : t.Every IsSolid) : Yields I (statement t) Code := by
  rw [statement.eq_def]
  split
  · exact yields_assignment ht
  · exact yields_branch _ ht
  · exact yields_forLoop _ ht
  · refine .bind_lift (ht.get .value) fun value hvalue => ?_
    apply (yields_expression value hvalue).bind
    intro ds x hx
    refine .pure ?_
    simpa using Code.returned hx.1
  · apply (yields_expression t ht).bind
    intro ds x hx
    refine .pure ?_
    simpa using Code.value hx.1 hx.2
termination_by 2 * sizeOf t + 1

/-- A branch is written as code: its parts, with the labels and jumps between them. -/
theorem yields_branch (t : Tree) (ht : t.Every IsSolid) : Yields I (branch t) Code := by
  rw [branch.eq_def]
  refine .bind_lift (ht.get .condition) fun condition hcondition => ?_
  apply (yields_expression condition hcondition).bind
  intro ds x hx
  refine .bind_fresh fun yes => ?_
  refine .bind_fresh fun no => ?_
  refine .bind_fresh fun join => ?_
  refine .bind_lift (ht.part .ifBody) fun ⟨ifBody, hlt⟩ hif => ?_
  refine .bind_lift (hif.parts charClosed_isSolid) fun us hus => ?_
  refine (yields_statements fun ⟨u, hle⟩ hu => yields_statement u (hus _ hu)).bind ?_
  intro es body hbody
  refine .bind_lift (ht.part .elseBody) fun ⟨elseBody, hlt'⟩ helse => ?_
  dsimp only
  split
  · refine .bind_lift (helse.parts charClosed_isSolid) fun us' hus' => ?_
    refine (yields_statements fun ⟨u, hle⟩ hu => yields_statement u (hus' _ hu)).bind ?_
    exact fun fs others hothers => .pure (by simpa using Code.branch yes no join hx.1 hbody hothers)
  · have hnone : Yields I (pure []) fun fs others => Code fs (Text.cat others) := .pure .nil
    refine hnone.bind ?_
    exact fun fs others hothers => .pure (by simpa using Code.branch yes no join hx.1 hbody hothers)
termination_by 2 * sizeOf t

/-- A loop is written as code. -/
theorem yields_forLoop (t : Tree) (ht : t.Every IsSolid) : Yields I (forLoop t) Code := by
  rw [forLoop.eq_def]
  refine .bind_lift (ht.part .init) fun ⟨init, hlt⟩ hinit => ?_
  apply (yields_statement init hinit).bind
  intro ds first hfirst
  refine .bind_lift (ht.get .condition) fun condition hcondition => ?_
  apply (yields_expression condition hcondition).bind
  intro es x hx
  refine .bind_lift (ht.part .update) fun ⟨update, hlt'⟩ hupdate => ?_
  apply (yields_statement update hupdate).bind
  intro fs step hstep
  refine .bind_fresh fun header => ?_
  refine .bind_fresh fun inner => ?_
  refine .bind_fresh fun next => ?_
  refine .bind_fresh fun join => ?_
  refine .bind_lift (ht.part .body) fun ⟨body, hlt''⟩ hbody => ?_
  refine .bind_lift (hbody.parts charClosed_isSolid) fun us hus => ?_
  refine (yields_statements fun ⟨u, hle⟩ hu => yields_statement u (hus _ hu)).bind ?_
  refine fun gs stmts hstmts => .pure ?_
  simpa using Code.loop header inner next join hfirst hx.1 hstep hstmts
termination_by 2 * sizeOf t

end

end ShaderBridge.Spirv
