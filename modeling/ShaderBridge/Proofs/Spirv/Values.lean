import ShaderBridge.Proofs.Printing
import ShaderBridge.Spirv.Module

/-!
# Values in SPIR-V

A tree whose texts are plain words is printed without `%` and line ends (`isCalm_printed`).  What it
begins with cannot be taken for a part of a line or of a definition (`inert_plain`), so it can stand
wherever an operand can.
-/

namespace ShaderBridge

/-! ## §1 Calm texts -/

namespace Text

/-- A character that neither begins a name nor ends a line of SPIR-V. -/
def isCalm (c : Char) : Bool := c ≠ '%' && c ≠ '\n'

/-- A text without `%` and line ends. -/
def Calm (t : Text) : Prop := ∀ c ∈ t, isCalm c

instance (t : Text) : Decidable (Calm t) := inferInstanceAs (Decidable (∀ c ∈ t, _))

theorem calm_append {s t : Text} : Calm (s ++ t) ↔ Calm s ∧ Calm t := List.forall_mem_append

theorem calm_cat {ts : List Text} (h : ∀ t ∈ ts, Calm t) : Calm (cat ts) := by
  intro c hc
  obtain ⟨t, ht, hct⟩ := List.mem_flatten.1 hc
  exact h t ht c hct

theorem calm_join {sep : Text} {ts : List Text} (hsep : Calm sep) (h : ∀ t ∈ ts, Calm t) :
    Calm (join sep ts) :=
  join_induction nofun (fun hs ht => calm_append.2 ⟨hs, ht⟩) hsep h

end Text

open Text (Calm)

namespace Printed

/-- Both printed forms are calm. -/
structure IsCalm (p : Printed) : Prop where
  plain : Calm p.plain
  inner : Calm p.inner

theorem isCalm_alike {t : Text} (h : Calm t) (set : Bool) : (alike t set).IsCalm := ⟨h, h⟩

/-- Whether the fixed texts of a form are calm. -/
def fixedCalm (form : List Segment) : Bool :=
  form.all fun
    | .lit s => decide (Calm s)
    | .shownIfSet lead _ tail => decide (Calm lead) && decide (Calm tail)
    | _ => true

variable {fields : List (Field × Printed)}

/-- What a form shows of calm fields is calm. -/
theorem calm_form (h : ∀ p ∈ fields, p.2.IsCalm) {form : List Segment} (hform : fixedCalm form) :
    Calm (form.flatMap (segment fields)) := by
  have hlookup : ∀ f p, fields.lookup f = some p → p.IsCalm := by
    intro f p hp
    obtain ⟨l₁, l₂, hfields, -⟩ := List.lookup_eq_some_iff.1 hp
    exact h (f, p) (by simp [hfields])
  intro c hc
  obtain ⟨s, hs, hcs⟩ := List.mem_flatMap.1 hc
  have hfixed := List.all_eq_true.1 hform s hs
  cases s with
  | lit x => exact of_decide_eq_true hfixed c hcs
  | shown f =>
    rw [segment] at hcs
    cases hf : fields.lookup f with
    | none => simp [hf] at hcs
    | some p => exact (hlookup f p hf).plain c (by simpa [hf] using hcs)
  | quoted f =>
    rw [segment] at hcs
    cases hf : fields.lookup f with
    | none => simp [hf] at hcs
    | some p => exact (hlookup f p hf).inner c (by simpa [hf] using hcs)
  | shownIfSet lead f tail =>
    obtain ⟨hlead, htail⟩ := Bool.and_eq_true_iff.1 hfixed
    rw [segment] at hcs
    cases hf : fields.lookup f with
    | none => simp [hf] at hcs
    | some p =>
      simp only [hf] at hcs
      split at hcs
      · refine Text.calm_cat ?_ c hcs
        simp only [List.forall_mem_cons]
        exact ⟨of_decide_eq_true hlead, (hlookup f p hf).plain, of_decide_eq_true htail,
          List.forall_mem_nil _⟩
      · cases hcs

end Printed

/-- A character that a line or a definition may go on with. -/
def Spirv.isBreak (c : Char) : Bool := c = ' ' || c = '=' || c = '\n' || c = 'O' || c.isDigit

/-- Whether a form begins with a fixed text, and that with no such character. -/
def Printed.opens : List Segment → Bool
  | .lit (c :: _) :: _ => !Spirv.isBreak c
  | _ => false

/-- The printed forms of nodes have calm texts around the fields, and begin with a name. -/
theorem Language.shape?_calm (k : NodeKind) :
    ((Language.crossGl.shape? k).all fun shape =>
      Printed.fixedCalm shape.form && Printed.opens shape.form &&
        shape.plainForm.all fun form => Printed.fixedCalm form && Printed.opens form) ∧
      Calm k.label ∧ k.label.head?.any (!Spirv.isBreak ·) := by
  cases k <;> decide

namespace Spirv

/-- A text without `%`, equals signs, blanks and line ends. -/
def Plain (s : Text) : Prop := ∀ c ∈ s, c ∉ ['%', '=', ' ', '\n']

instance (s : Text) : Decidable (Plain s) := inferInstanceAs (Decidable (∀ c ∈ s, _))

/-- The value is no text but a plain one, which is not empty. -/
def IsSolid : Tree → Prop
  | .text s => s ≠ [] ∧ Plain s
  | _ => True

instance : DecidablePred IsSolid
  | .text s => inferInstanceAs (Decidable (s ≠ [] ∧ Plain s))
  | .absent | .flag _ | .number _ | .list _ | .tuple _ | .node .. =>
    inferInstanceAs (Decidable True)

/-- The value is no text but a name or a number as it stands in a source. -/
def IsTerm : Tree → Prop
  | .text s => Lexicon.isName s ∨ Pattern.number.length? none s = some s.length ∨
      Pattern.decimal.length? none s = some s.length
  | _ => True

/-- Names and numbers are solid. -/
theorem isSolid_of_isTerm (t : Tree) (h : IsTerm t) : IsSolid t := by
  have hclass : ∀ {q : Char → Bool}, (∀ c ∈ ['%', '=', ' ', '\n'], q c = false) →
      ∀ c, q c → c ∉ ['%', '=', ' ', '\n'] := by
    intro q hq c hc hmem
    exact Bool.false_ne_true ((hq c hmem).symm.trans hc)
  have hname : ∀ c, Text.isNameRest c → c ∉ ['%', '=', ' ', '\n'] := hclass (by decide)
  have hnumber : (∀ c, Text.isDigit c → c ∉ ['%', '=', ' ', '\n']) ∧
      '.' ∉ ['%', '=', ' ', '\n'] := ⟨hclass (by decide), by decide⟩
  cases t with
  | text s =>
    have hfound : ∀ {p : Pattern}, p.isProper → p.DrawsOn (· ∉ ['%', '=', ' ', '\n']) →
        p.length? none s = some s.length → s ≠ [] ∧ Plain s := by
      intro p hproper hdraws hlength
      refine ⟨List.length_pos_iff.1 (Pattern.length?_pos hproper hlength), ?_⟩
      simpa [Plain] using Pattern.all_take hdraws hlength
    rcases h with h | h | h
    · cases s with
      | nil => cases h
      | cons c s =>
        obtain ⟨hc, hs⟩ := Bool.and_eq_true_iff.1 h
        have hfirst := hname c (Pattern.isNameRest_of_isNameStart hc)
        refine ⟨by simp, List.forall_mem_cons.2 ⟨hfirst, ?_⟩⟩
        exact fun d hd => hname d (List.all_eq_true.1 hs d hd)
    · exact hfound (p := .number) rfl hnumber h
    · exact hfound (p := .decimal) rfl hnumber h
  | _ => trivial

theorem charClosed_isSolid : Tree.CharClosed IsSolid := by
  intro s c hc h
  exact ⟨by simp, by simpa [Plain] using h.2 c hc⟩

theorem Plain.calm {s : Text} (h : Plain s) : Calm s := by
  intro c hc
  have hnone := h c hc
  simp only [List.mem_cons, not_or] at hnone
  simp [Text.isCalm, hnone.1, hnone.2.2.2]

mutual

/-- The text of a solid tree has no character that ends or joins words. -/
theorem isCalm_printed : (t : Tree) → t.Every IsSolid → (t.printed .crossGl).IsCalm
  | .absent, _ => Printed.isCalm_alike (by decide) _
  | .flag b, _ => by
    refine Printed.isCalm_alike ?_ _
    cases b <;> decide
  | .number n, _ => Printed.isCalm_alike (Text.all_ofInt (by decide) n) _
  | .text _, h =>
    have hs := (Tree.every_text_iff.1 h).2.calm
    ⟨hs, Text.all_quoted (by decide) hs⟩
  | .list xs, h => by
    refine Printed.isCalm_alike (Text.calm_cat ?_) _
    have hitems := calm_printedAll xs (Tree.every_list_iff.1 h).2
    simp only [List.forall_mem_cons]
    exact ⟨by decide, Text.calm_join (by decide) hitems, by decide, nofun⟩
  | .tuple xs, h => by
    refine Printed.isCalm_alike ?_ _
    have hitems := calm_printedAll xs (Tree.every_tuple_iff.1 h).2
    unfold Printed.ofTuple
    split
    · next p hp =>
      rw [hp] at hitems
      refine Text.calm_cat ?_
      simp only [List.forall_mem_cons]
      exact ⟨by decide, hitems _ (by simp), by decide, nofun⟩
    · refine Text.calm_cat ?_
      simp only [List.forall_mem_cons]
      exact ⟨by decide, Text.calm_join (by decide) hitems, by decide, nofun⟩
  | .node k fs, h => by
    have hfields := isCalm_printedFields fs (Tree.every_node_iff.1 h).2
    obtain ⟨hshape, hlabel, -⟩ := Language.shape?_calm k
    rw [Tree.printed, Printed.ofNode]
    cases hfound : Language.crossGl.shape? k with
    | none => exact Printed.isCalm_alike hlabel true
    | some shape =>
      simp only [hfound, Option.all_some, Bool.and_eq_true] at hshape
      have hinner := Printed.calm_form hfields hshape.1.1
      dsimp only
      cases hplain : shape.plainForm with
      | none => exact Printed.isCalm_alike hinner true
      | some form =>
        have hform := hshape.2
        simp only [hplain, Option.all_some, Bool.and_eq_true] at hform
        exact ⟨Printed.calm_form hfields hform.1, hinner⟩

theorem calm_printedAll : (xs : List Tree) → (∀ x ∈ xs, x.Every IsSolid) →
    ∀ t ∈ (Tree.printedAll .crossGl xs).map (·.inner), Calm t
  | [], _ => nofun
  | x :: xs, h => List.forall_mem_cons.2
    ⟨(isCalm_printed x (h x List.mem_cons_self)).inner,
     calm_printedAll xs fun y hy => h y (List.mem_cons_of_mem _ hy)⟩

theorem isCalm_printedFields : (fs : List (Field × Tree)) → (∀ p ∈ fs, p.2.Every IsSolid) →
    ∀ p ∈ Tree.printedFields .crossGl fs, p.2.IsCalm
  | [], _ => nofun
  | (f, x) :: fs, h => List.forall_mem_cons.2
    ⟨isCalm_printed x (h (f, x) List.mem_cons_self),
     isCalm_printedFields fs fun p hp => h p (List.mem_cons_of_mem _ hp)⟩

end

/-- What stands between words. -/
def isGap (c : Char) : Bool := c = ' ' || c = '\n'

/-- A text that can be an operand or, behind `%`, a name: it begins with neither a blank nor an
equals sign, and if it begins with a digit, it is a single word. -/
structure Inert (x : Text) : Prop where
  ne_nil : x ≠ []
  calm : Calm x
  first : ∀ c, x.head? = some c → c ≠ ' ' ∧ c ≠ '='
  numeral : ∀ c, x.head? = some c → c.isDigit → ' ' ∉ x

theorem Plain.inert {s : Text} (h : Plain s) (hne : s ≠ []) : Inert s := by
  have hnone : ∀ c ∈ s, c ≠ ' ' ∧ c ≠ '=' := by
    intro c hc
    have := h c hc
    simp only [List.mem_cons, not_or] at this
    exact ⟨this.2.2.1, this.2.1⟩
  exact ⟨hne, h.calm, fun c hc => hnone c (List.mem_of_head? hc),
    fun _ _ _ hblank => (hnone ' ' hblank).1 rfl⟩

theorem Inert.not_isGap {x : Text} (hx : Inert x) : ∀ c ∈ x.head?, isGap c = false := by
  intro c hc
  have hline : c ≠ '\n' := by
    rintro rfl
    cases hx.calm _ (List.mem_of_head? hc)
  simp [isGap, (hx.first c hc).1, hline]

theorem inert_ofNat (n : Nat) : Inert (Text.ofNat n) :=
  Plain.inert (Text.all_ofNat (by decide) n) Nat.toDigits_ne_nil

theorem ref_injective : Function.Injective ref := by
  intro m n h
  have hdigits : Nat.toDigits 10 m = Nat.toDigits 10 n := (List.cons.inj h).2
  rw [← Nat.ofDigitChars_ten_toDigits (n := m), hdigits, Nat.ofDigitChars_ten_toDigits]

theorem inert_ofInt (n : Int) : Inert (Text.ofInt n) := by
  refine Plain.inert (Text.all_ofInt (by decide) n) ?_
  cases n with
  | ofNat n => exact Nat.toDigits_ne_nil
  | negSucc n => exact List.cons_ne_nil _ _

/-- Only a text or a number is printed with such a character in front. -/
theorem head_plain {t : Tree} (h : ∀ s, t ≠ .text s) (hn : ∀ n, t ≠ .number n) :
    (plain t).head?.any (!isBreak ·) := by
  cases t with
  | absent => decide
  | flag b => cases b <;> decide
  | number n => exact absurd rfl (hn n)
  | text s => exact absurd rfl (h s)
  | list xs => rfl
  | tuple xs =>
    simp only [plain, Tree.plain, Tree.printed, Printed.alike]
    unfold Printed.ofTuple
    split <;> rfl
  | node k fs =>
    obtain ⟨hshape, -, hlabel⟩ := Language.shape?_calm k
    have hopens : ∀ form, Printed.opens form →
        (form.flatMap (Printed.segment (Tree.printedFields .crossGl fs))).head?.any
          (!isBreak ·) := by
      intro form hform
      unfold Printed.opens at hform
      split at hform
      · simpa [Printed.segment] using hform
      · cases hform
    rw [plain, Tree.plain, Tree.printed, Printed.ofNode]
    cases hfound : Language.crossGl.shape? k with
    | none => exact hlabel
    | some shape =>
      simp only [hfound, Option.all_some, Bool.and_eq_true] at hshape
      dsimp only
      cases hplain : shape.plainForm with
      | none => exact hopens _ hshape.1.2
      | some form =>
        have hform := hshape.2
        simp only [hplain, Option.all_some, Bool.and_eq_true] at hform
        exact hopens _ hform.2

theorem inert_plain {t : Tree} (h : t.Every IsSolid) : Inert (plain t) := by
  by_cases htext : ∃ s, t = .text s
  · obtain ⟨s, rfl⟩ := htext
    obtain ⟨hne, hs⟩ := Tree.every_text_iff.1 h
    exact hs.inert hne
  by_cases hnumber : ∃ n, t = .number n
  · obtain ⟨n, rfl⟩ := hnumber
    exact inert_ofInt n
  -- Whatever else is printed begins with a letter or a bracket.
  have hhead := head_plain (t := t) (fun s hs => htext ⟨s, hs⟩) (fun n hn => hnumber ⟨n, hn⟩)
  have hfirst : ∀ c, (plain t).head? = some c → isBreak c = false := by
    intro c hc
    simpa [hc] using hhead
  refine ⟨?_, (isCalm_printed t h).plain, fun c hc => ?_, fun c hc hdigit => ?_⟩
  · intro hnil
    rw [hnil] at hhead
    cases hhead
  · have := hfirst c hc
    simp only [isBreak, Bool.or_eq_false_iff, decide_eq_false_iff_not] at this
    exact ⟨this.1.1.1.1, this.1.1.1.2⟩
  · have := hfirst c hc
    simp [isBreak, hdigit] at this

end Spirv

end ShaderBridge
