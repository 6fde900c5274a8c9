import ShaderBridge.Proofs.BareTokens
import ShaderBridge.Proofs.Subtrees

/-!
# Printed trees are nested

A tree whose texts have no brackets is printed with nested ones (`Tree.Bare.plain`), whatever its
shape: the forms in which lists, tuples and nodes are printed close every bracket that they open
(`Language.shape?_balanced`).
-/

namespace ShaderBridge

open Text (Bare Nested Fills isBracket)

/-! ## §1 Numerals and quoted texts -/

namespace Text

/-- The characters that numerals, quotes and escapes bring into a text. -/
def escapes : Text := "0123456789abcdefntrxuU\\'\"-"

section Escapes

variable {P : Char → Prop} (hP : ∀ c ∈ escapes, P c)

include hP

theorem all_toDigits {b : Nat} (hb : 1 < b) (hb' : b ≤ 16) (n : Nat) :
    ∀ c ∈ Nat.toDigits b n, P c := by
  have hdigits : ∀ d < 16, Nat.digitChar d ∈ escapes := by decide
  have hdigit : ∀ d < 16, ∀ c ∈ [Nat.digitChar d], P c := fun d hd => by
    simpa using hP _ (hdigits d hd)
  -- The induction follows the division of the number by the base.
  induction n using Nat.strongRecOn with
  | _ n ih =>
    by_cases hn : n < b
    · rw [Nat.toDigits_of_lt_base hn]
      exact hdigit n (by omega)
    · rw [Nat.toDigits_of_base_le hb (Nat.le_of_not_lt hn)]
      have hlast : n % b < 16 := Nat.lt_of_lt_of_le (Nat.mod_lt n (by omega)) hb'
      exact List.forall_mem_append.2 ⟨ih (n / b) (Nat.div_lt_self (by omega) hb), hdigit _ hlast⟩

theorem all_ofNat (n : Nat) : ∀ c ∈ ofNat n, P c := all_toDigits hP (by decide) (by decide) n

theorem all_ofInt (n : Int) : ∀ c ∈ ofInt n, P c := by
  cases n with
  | ofNat n => exact all_ofNat hP n
  | negSucc n => exact List.forall_mem_cons.2 ⟨hP _ (by decide), all_ofNat hP (n + 1)⟩

theorem all_escapeChar {q c : Char} (hc : P c) : ∀ d ∈ escapeChar q c, P d := by
  have hfixed : ∀ s : Text, s ⊆ escapes → ∀ d ∈ s, P d := fun s hs d hd => hP d (hs hd)
  have hhex : ∀ width n, ∀ d ∈ hex width n, P d := by
    intro width n
    refine List.forall_mem_append.2 ⟨fun d hd => ?_, all_toDigits hP (by decide) (by decide) n⟩
    rw [List.eq_of_mem_replicate hd]
    exact hP _ (by decide)
  unfold escapeChar escapeCode
  repeat' split
  · exact List.forall_mem_cons.2 ⟨hP _ (by decide), by simpa using hc⟩
  · exact hfixed _ (by decide)
  · exact hfixed _ (by decide)
  · exact hfixed _ (by decide)
  · simpa using hc
  · exact List.forall_mem_append.2 ⟨hfixed _ (by decide), hhex _ _⟩
  · exact List.forall_mem_append.2 ⟨hfixed _ (by decide), hhex _ _⟩
  · exact List.forall_mem_append.2 ⟨hfixed _ (by decide), hhex _ _⟩

/-- What holds of the characters of a text holds of those of its written form. -/
theorem all_quoted {t : Text} (h : ∀ c ∈ t, P c) : ∀ c ∈ quoted t, P c := by
  have hquote : P (quoteFor t) := by
    unfold quoteFor
    split
    · exact hP _ (by decide)
    · exact hP _ (by decide)
  refine List.forall_mem_append.2
    ⟨List.forall_mem_cons.2 ⟨hquote, fun c hc => ?_⟩, by simpa using hquote⟩
  obtain ⟨d, hd, hcd⟩ := List.mem_flatMap.1 hc
  exact all_escapeChar hP (h d hd) c hcd

end Escapes

theorem bare_ofNat (n : Nat) : Bare (ofNat n) := all_ofNat (by decide) n

theorem bare_ofInt (n : Int) : Bare (ofInt n) := all_ofInt (by decide) n

/-- Quotes and escapes bring no brackets into a text. -/
theorem Bare.quoted {t : Text} (h : Bare t) : Bare (quoted t) := all_quoted (by decide) h

end Text

/-! ## §2 Forms of nodes -/

namespace Segment

/-- The text of a segment that is the same for all nodes. -/
def fixed? : Segment → Option Text
  | lit s => some s
  | shown _ | quoted _ | shownIfSet .. => none

/-- Whether a segment has no brackets around a field that may be left out. -/
def isEven : Segment → Bool
  | lit _ | shown _ | quoted _ => true
  | shownIfSet lead _ tail => decide (Bare lead) && decide (Bare tail)

/-- Whether the fixed texts of a form are nested. -/
def balanced (form : List Segment) : Bool :=
  decide (Nested (Text.cat (form.filterMap fixed?))) && form.all isEven

end Segment

/-- Both printed forms have nested brackets. -/
structure Printed.IsNested (p : Printed) : Prop where
  plain : Nested p.plain
  inner : Nested p.inner

namespace Printed

theorem isNested_alike {t : Text} (h : Nested t) (set : Bool) : (alike t set).IsNested := ⟨h, h⟩

variable {fields : List (Field × Printed)}

theorem isNested_of_lookup (h : ∀ p ∈ fields, p.2.IsNested) {f : Field} {p : Printed}
    (hp : fields.lookup f = some p) : p.IsNested := by
  obtain ⟨l₁, l₂, hfields, -⟩ := List.lookup_eq_some_iff.1 hp
  exact h (f, p) (by simp [hfields])

/-- A field that is shown has nested brackets. -/
theorem nested_segment (h : ∀ p ∈ fields, p.2.IsNested) {s : Segment} (hs : s.isEven)
    (hfixed : s.fixed? = none) : Nested (segment fields s) := by
  cases s with
  | lit s => cases hfixed
  | shown f =>
    rw [segment]
    cases hf : fields.lookup f with
    | none => exact Text.nested_nil
    | some p => exact (isNested_of_lookup h hf).plain
  | quoted f =>
    rw [segment]
    cases hf : fields.lookup f with
    | none => exact Text.nested_nil
    | some p => exact (isNested_of_lookup h hf).inner
  | shownIfSet lead f tail =>
    obtain ⟨hlead, htail⟩ := Bool.and_eq_true_iff.1 hs
    rw [segment]
    cases hf : fields.lookup f with
    | none => exact Text.nested_nil
    | some p =>
      dsimp only
      split
      · refine Text.nested_cat fun t ht => ?_
        simp only [List.mem_cons, List.not_mem_nil, or_false] at ht
        rcases ht with rfl | rfl | rfl
        · exact (of_decide_eq_true hlead).nested
        · exact (isNested_of_lookup h hf).plain
        · exact (of_decide_eq_true htail).nested
      · exact Text.nested_nil

/-- The fixed texts of a form are filled with the printed fields. -/
theorem fills_form (h : ∀ p ∈ fields, p.2.IsNested) {form : List Segment}
    (hform : form.all Segment.isEven) :
    Fills (form.map (segment fields)) (form.filterMap Segment.fixed?) := by
  induction form with
  | nil => exact .done
  | cons s form ih =>
    obtain ⟨hs, hrest⟩ := Bool.and_eq_true_iff.1 hform
    cases hfixed : s.fixed? with
    | some t =>
      cases s with
      | lit s =>
        cases hfixed
        exact .fixed _ (ih hrest)
      | _ => cases hfixed
    | none =>
      rw [List.filterMap_cons_none hfixed]
      exact .nested (nested_segment h hs hfixed) (ih hrest)

theorem nested_form (h : ∀ p ∈ fields, p.2.IsNested) {form : List Segment}
    (hform : Segment.balanced form) : Nested (form.flatMap (segment fields)) := by
  obtain ⟨hfixed, heven⟩ := Bool.and_eq_true_iff.1 hform
  rw [List.flatMap_def]
  exact (fills_form h heven).nested_cat (of_decide_eq_true hfixed)

end Printed

/-- Every printed form of every language closes the brackets that it opens. -/
theorem Language.shape?_balanced (lang : Language) (k : NodeKind) :
    (lang.shape? k).all fun shape =>
      Segment.balanced shape.form && shape.plainForm.all Segment.balanced := by
  cases lang <;> cases k <;> decide

theorem NodeKind.bare_label (k : NodeKind) : Bare k.label := by
  cases k <;> decide

namespace Printed

theorem isNested_ofNode (lang : Language) (k : NodeKind) {fields : List (Field × Printed)}
    (h : ∀ p ∈ fields, p.2.IsNested) : (ofNode lang k fields).IsNested := by
  have hbalanced := lang.shape?_balanced k
  unfold ofNode
  cases hshape : lang.shape? k with
  | none => exact isNested_alike k.bare_label.nested true
  | some shape =>
    rw [hshape] at hbalanced
    obtain ⟨hform, hplain⟩ := Bool.and_eq_true_iff.1 hbalanced
    have hinner := nested_form h hform
    dsimp only
    cases hplainForm : shape.plainForm with
    | none => exact isNested_alike hinner true
    | some form =>
      rw [hplainForm] at hplain
      exact ⟨nested_form h hplain, hinner⟩

theorem nested_ofList {items : List Printed} (h : ∀ p ∈ items, p.IsNested) :
    Nested (ofList items) := by
  have hitems : Nested (Text.join ", " (items.map (·.inner))) := by
    refine Text.nested_join (by decide) fun t ht => ?_
    obtain ⟨p, hp, rfl⟩ := List.mem_map.1 ht
    exact (h p hp).inner
  exact (Fills.fixed _ (.nested hitems (.fixed _ .done))).nested_cat (by decide)

theorem nested_ofTuple {items : List Printed} (h : ∀ p ∈ items, p.IsNested) :
    Nested (ofTuple items) := by
  have hitems : Nested (Text.join ", " (items.map (·.inner))) := by
    refine Text.nested_join (by decide) fun t ht => ?_
    obtain ⟨p, hp, rfl⟩ := List.mem_map.1 ht
    exact (h p hp).inner
  unfold ofTuple
  split
  · next x =>
    exact (Fills.fixed _ (.nested (h x (by simp)).inner (.fixed _ .done))).nested_cat
      (by decide)
  · exact (Fills.fixed _ (.nested hitems (.fixed _ .done))).nested_cat (by decide)

end Printed

/-! ## §3 Trees -/

namespace Tree

/-- The value is no text with a bracket. -/
def IsBare : Tree → Prop
  | text s => Bare s
  | _ => True

theorem charClosed_isBare : CharClosed IsBare := fun _ _ hc h => h.of_mem hc

mutual

theorem isNested_printed (lang : Language) :
    (t : Tree) → t.Every IsBare → (t.printed lang).IsNested
  | absent, _ => Printed.isNested_alike (by decide) _
  | flag b, _ => by
    refine Printed.isNested_alike ?_ _
    cases b <;> decide
  | number n, _ => Printed.isNested_alike (Text.bare_ofInt n).nested _
  | text _, h => ⟨(every_text_iff.1 h).nested, (every_text_iff.1 h).quoted.nested⟩
  | list xs, h =>
    Printed.isNested_alike
      (Printed.nested_ofList (isNested_printedAll lang xs (every_list_iff.1 h).2)) _
  | tuple xs, h =>
    Printed.isNested_alike
      (Printed.nested_ofTuple (isNested_printedAll lang xs (every_tuple_iff.1 h).2)) _
  | node k fs, h =>
    Printed.isNested_ofNode lang k (isNested_printedFields lang fs (every_node_iff.1 h).2)

theorem isNested_printedAll (lang : Language) :
    (xs : List Tree) → (∀ x ∈ xs, x.Every IsBare) → ∀ p ∈ printedAll lang xs, p.IsNested
  | [], _ => nofun
  | x :: xs, h => List.forall_mem_cons.2
    ⟨isNested_printed lang x (h x List.mem_cons_self),
     isNested_printedAll lang xs fun y hy => h y (List.mem_cons_of_mem _ hy)⟩

theorem isNested_printedFields (lang : Language) :
    (fs : List (Field × Tree)) → (∀ p ∈ fs, p.2.Every IsBare) →
      ∀ p ∈ printedFields lang fs, p.2.IsNested
  | [], _ => nofun
  | (f, x) :: fs, h => List.forall_mem_cons.2
    ⟨isNested_printed lang x (h (f, x) List.mem_cons_self),
     isNested_printedFields lang fs fun p hp => h p (List.mem_cons_of_mem _ hp)⟩

end

/-- A tree whose texts have no brackets is printed with nested ones. -/
theorem Every.nested_plain {t : Tree} (h : t.Every IsBare) (lang : Language) :
    Nested (t.plain lang) :=
  (isNested_printed lang t h).plain

end Tree

end ShaderBridge
