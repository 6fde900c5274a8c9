import ShaderBridge.Generation
import ShaderBridge.Text.Blank
import Mathlib.Data.List.TakeWhile

/-!
# Nested brackets

A text is nested if its brackets are: nowhere in it a bracket closes that is not open, every closing
bracket is the partner of the one opened last, and at the end none is open.  `scan` reads a text
with a stack of the brackets that are open, so whether a text is nested can be computed.

- `nested_iff_wellNested`: the nested texts are those that are made from characters that are no
  brackets by putting texts one behind the other and between partners.
- `Fills.nested`: a text that is put together from fixed pieces and nested texts is nested if the
  fixed pieces alone are.
-/

namespace ShaderBridge.Text

/-! ## §1 Reading brackets -/

/-- The opening brackets with their partners. -/
def brackets : List (Char × Char) := [('(', ')'), ('[', ']'), ('{', '}')]

/-- Whether a character is a bracket. -/
def isBracket (c : Char) : Bool := brackets.any fun b => c = b.1 || c = b.2

/-- The open brackets behind a character, the last one first.  A closing bracket has to be the
partner of the one opened last. -/
def passChar (opened : List Char) (c : Char) : Option (List Char) :=
  if brackets.any (·.1 = c) then some (c :: opened)
  else
    match brackets.find? (·.2 = c), opened with
    | none, _ => some opened
    | some b, last :: others => if b.1 = last then some others else none
    | some _, [] => none

/-- The open brackets behind a text. -/
def scan (opened : List Char) (t : Text) : Option (List Char) := t.foldlM passChar opened

/-- Every bracket of the text is closed by its partner, and none is left over. -/
def Nested (t : Text) : Prop := scan [] t = some []

instance (t : Text) : Decidable (Nested t) := inferInstanceAs (Decidable (_ = _))

/-- The text has no brackets. -/
def Bare (t : Text) : Prop := ∀ c ∈ t, isBracket c = false

instance (t : Text) : Decidable (Bare t) := inferInstanceAs (Decidable (∀ c ∈ t, _))

theorem scan_nil (opened : List Char) : scan opened [] = some opened := rfl

theorem scan_cons (opened : List Char) (c : Char) (t : Text) :
    scan opened (c :: t) = (passChar opened c).bind (scan · t) := rfl

theorem scan_append (opened : List Char) (s t : Text) :
    scan opened (s ++ t) = (scan opened s).bind (scan · t) :=
  List.foldlM_append

variable {c : Char} {s t : Text}

theorem passChar_of_not_isBracket (h : isBracket c = false) (opened : List Char) :
    passChar opened c = some opened := by
  have hall := List.any_eq_false.1 h
  have hopen : brackets.any (·.1 = c) = false :=
    List.any_eq_false.2 fun b hb heq => hall b hb (by simp [of_decide_eq_true heq])
  have hclose : brackets.find? (·.2 = c) = none :=
    List.find?_eq_none.2 fun b hb heq => hall b hb (by simp [of_decide_eq_true heq])
  simp [passChar, hopen, hclose]

/-- Brackets that are open below the others are left alone. -/
theorem passChar_append {opened opened' : List Char} (below : List Char)
    (h : passChar opened c = some opened') :
    passChar (opened ++ below) c = some (opened' ++ below) := by
  unfold passChar at h ⊢
  split
  · next hopen =>
    rw [if_pos hopen] at h
    cases h
    rfl
  · next hopen =>
    rw [if_neg hopen] at h
    cases hclose : brackets.find? (·.2 = c) with
    | none =>
      rw [hclose] at h
      cases h
      rfl
    | some b =>
      rw [hclose] at h
      cases opened with
      | nil => cases h
      | cons last others =>
        simp only [List.cons_append] at h ⊢
        split at h
        · next hlast =>
          cases h
          rw [if_pos hlast]
        · cases h

theorem scan_append_opened {opened opened' : List Char} (below : List Char)
    (h : scan opened t = some opened') : scan (opened ++ below) t = some (opened' ++ below) := by
  induction t generalizing opened with
  | nil =>
    cases h
    rfl
  | cons c t ih =>
    obtain ⟨mid, hc, ht⟩ := Option.bind_eq_some_iff.1 h
    rw [scan_cons, passChar_append below hc]
    exact ih ht

theorem Bare.scan (h : Bare t) (opened : List Char) : scan opened t = some opened := by
  induction t with
  | nil => rfl
  | cons c t ih =>
    obtain ⟨hc, ht⟩ := List.forall_mem_cons.1 h
    rw [scan_cons, passChar_of_not_isBracket hc]
    exact ih ht

theorem Nested.scan (h : Nested t) (opened : List Char) :
    scan opened t = some opened := by
  simpa using scan_append_opened opened h

/-! ## §2 Texts put together -/

theorem nested_nil : Nested [] := rfl

theorem Bare.nested (h : Bare t) : Nested t := h.scan []

theorem Nested.append (hs : Nested s) (ht : Nested t) : Nested (s ++ t) := by
  show Text.scan [] (s ++ t) = some []
  rw [scan_append, hs.scan]
  exact ht

theorem nested_cat {ts : List Text} (h : ∀ t ∈ ts, Nested t) : Nested (cat ts) := by
  induction ts with
  | nil => rfl
  | cons t ts ih =>
    obtain ⟨ht, hts⟩ := List.forall_mem_cons.1 h
    exact ht.append (ih hts)

theorem nested_join {sep : Text} {ts : List Text} (hsep : Nested sep) (h : ∀ t ∈ ts, Nested t) :
    Nested (join sep ts) :=
  join_induction rfl .append hsep h

theorem Bare.append (hs : Bare s) (ht : Bare t) : Bare (s ++ t) :=
  List.forall_mem_append.2 ⟨hs, ht⟩

theorem Bare.of_mem (h : Bare t) (hc : c ∈ t) : Bare [c] := by
  simpa [Bare] using h c hc

/-- How a list of pieces is made from fixed ones and nested ones that stand between them. -/
inductive Fills : List Text → List Text → Prop where
  | done : Fills [] []
  | fixed (s : Text) {pieces fixed : List Text} (h : Fills pieces fixed) :
    Fills (s :: pieces) (s :: fixed)
  | nested {t : Text} {pieces fixed : List Text} (ht : Nested t) (h : Fills pieces fixed) :
    Fills (t :: pieces) fixed

theorem Fills.scan {pieces fixed : List Text} (h : Fills pieces fixed) (opened : List Char) :
    scan opened (cat pieces) = scan opened (cat fixed) := by
  induction h generalizing opened with
  | done => rfl
  | fixed s h ih =>
    simp only [cat, List.flatten_cons, scan_append] at ih ⊢
    congr 1
    funext mid
    exact ih mid
  | nested ht h ih =>
    simp only [cat, List.flatten_cons, scan_append, ht.scan] at ih ⊢
    exact ih opened

/-- It is enough that the fixed pieces are nested when the others are left out. -/
theorem Fills.nested_cat {pieces fixed : List Text} (h : Fills pieces fixed)
    (hfixed : Nested (cat fixed)) : Nested (cat pieces) :=
  (h.scan []).trans hfixed

/-! ## §3 Texts cut at their ends -/

theorem Nested.of_append_bare (h : Nested (s ++ t)) (ht : Bare t) : Nested s := by
  have hscan : Text.scan [] (s ++ t) = some [] := h
  rw [scan_append] at hscan
  obtain ⟨opened, hs, hrest⟩ := Option.bind_eq_some_iff.1 hscan
  rw [ht.scan] at hrest
  cases hrest
  exact hs

/-- In front of any place of a nested text no closing bracket is unmatched. -/
theorem Nested.exists_scan (h : Nested (s ++ t)) :
    ∃ opened, Text.scan [] s = some opened := by
  rw [Nested, scan_append] at h
  cases hs : Text.scan [] s with
  | none =>
    rw [hs] at h
    cases h
  | some opened => exact ⟨opened, rfl⟩

theorem Nested.of_bare_append (h : Nested (s ++ t)) (hs : Bare s) : Nested t := by
  have hscan : Text.scan [] (s ++ t) = some [] := h
  rw [scan_append, hs.scan] at hscan
  exact hscan

section Cutting

variable {p : Char → Bool} {t : Text}

theorem bare_takeWhile (hp : ∀ c, p c → isBracket c = false) : Bare (t.takeWhile p) :=
  fun c hc => hp c (List.mem_takeWhile_imp hc)

theorem Nested.dropWhile (h : Nested t) (hp : ∀ c, p c → isBracket c = false) :
    Nested (t.dropWhile p) :=
  Nested.of_bare_append (by rwa [List.takeWhile_append_dropWhile]) (bare_takeWhile hp)

theorem Nested.dropEndWhile (h : Nested t) (hp : ∀ c, p c → isBracket c = false) :
    Nested (t.reverse.dropWhile p).reverse := by
  have hsplit : t = (t.reverse.dropWhile p).reverse ++ (t.reverse.takeWhile p).reverse := by
    rw [← List.reverse_append, List.takeWhile_append_dropWhile, List.reverse_reverse]
  rw [hsplit] at h
  refine h.of_append_bare fun c hc => ?_
  exact bare_takeWhile hp c (List.mem_reverse.1 hc)

theorem not_isBracket_of (hp : ∀ b ∈ brackets, p b.1 = false ∧ p b.2 = false) (c : Char)
    (h : p c) : isBracket c = false := by
  refine List.any_eq_false.2 fun b hb hc => ?_
  obtain ⟨hopen, hclose⟩ := hp b hb
  simp only [Bool.or_eq_true, decide_eq_true_eq] at hc
  rcases hc with rfl | rfl
  · simp [hopen] at h
  · simp [hclose] at h

theorem not_isBracket_of_isBlank (c : Char) : isBlank c → isBracket c = false :=
  not_isBracket_of (by decide) c

theorem Nested.trimEnd (h : Nested t) : Nested (trimEnd t) :=
  h.dropEndWhile not_isBracket_of_isBlank

theorem Nested.trim (h : Nested t) : Nested (trim t) :=
  (h.dropWhile not_isBracket_of_isBlank).trimEnd

end Cutting

theorem nested_indent (level : Int) : Nested (indent level) := by
  refine nested_cat fun t ht => ?_
  rw [List.eq_of_mem_replicate ht]
  decide

/-! ## §4 The grammar of nested texts -/

/-- Texts that are nested by the way they are made. -/
inductive WellNested : Text → Prop where
  | nil : WellNested []
  | char {c : Char} (h : isBracket c = false) : WellNested [c]
  | append {s t : Text} (hs : WellNested s) (ht : WellNested t) : WellNested (s ++ t)
  | enclosed {b : Char × Char} {s : Text} (hb : b ∈ brackets) (hs : WellNested s) :
    WellNested (b.1 :: (s ++ [b.2]))

/-- What closes the brackets that are open: behind a well nested text the partner of the last one,
and so on. -/
inductive Closes : List Char → Text → Prop where
  | done {s : Text} (hs : WellNested s) : Closes [] s
  | close {b : Char × Char} {s t : Text} {opened : List Char} (hb : b ∈ brackets)
    (hs : WellNested s) (ht : Closes opened t) : Closes (b.1 :: opened) (s ++ b.2 :: t)

theorem Closes.behind {opened : List Char} {s t : Text} (hs : WellNested s)
    (ht : Closes opened t) : Closes opened (s ++ t) := by
  cases ht with
  | done h => exact .done (hs.append h)
  | close hb h hrest =>
    rw [← List.append_assoc]
    exact .close hb (hs.append h) hrest

/-- What the scan accepts closes the brackets that were open. -/
theorem closes_of_scan {opened : List Char} {t : Text} (h : scan opened t = some []) :
    Closes opened t := by
  -- The induction is on the text: a bracket that opens is closed inside what is left of it.
  induction t generalizing opened with
  | nil =>
    cases h
    exact .done .nil
  | cons c t ih =>
    obtain ⟨mid, hc, ht⟩ := Option.bind_eq_some_iff.1 h
    have hclosed := ih ht
    unfold passChar at hc
    split at hc
    · next hopen =>
      cases hc
      cases hclosed with
      | @close b s rest _ hb hs hrest =>
        have hword : WellNested (b.1 :: (s ++ [b.2])) := .enclosed hb hs
        have hbehind := Closes.behind hword hrest
        simpa using hbehind
    · next hopen =>
      cases hfind : brackets.find? (·.2 = c) with
      | none =>
        rw [hfind] at hc
        cases hc
        refine Closes.behind (s := [c]) (.char (List.any_eq_false.2 fun b hb => ?_)) hclosed
        have hclose : b.2 ≠ c := by simpa using List.find?_eq_none.1 hfind b hb
        have hne : b.1 ≠ c := fun heq => hopen (List.any_eq_true.2 ⟨b, hb, decide_eq_true heq⟩)
        simp [hne.symm, hclose.symm]
      | some b =>
        rw [hfind] at hc
        have hb := List.mem_of_find?_eq_some hfind
        have hpartner : b.2 = c := by simpa using List.find?_some hfind
        cases opened with
        | nil => cases hc
        | cons last others =>
          dsimp only at hc
          split at hc
          · next hlast =>
            cases hc
            rw [← hlast, ← hpartner]
            exact .close (s := []) hb .nil hclosed
          · cases hc

theorem WellNested.nested {t : Text} (h : WellNested t) : Nested t := by
  induction h with
  | nil => rfl
  | char h => exact Bare.nested (by simpa [Bare] using h)
  | append _ _ ihs iht => exact ihs.append iht
  | @enclosed b s hb _ ih =>
    have hfills : Fills [[b.1], s, [b.2]] [[b.1], [b.2]] :=
      .fixed _ (.nested ih (.fixed _ .done))
    have hfixed : Nested (cat [[b.1], [b.2]]) := by
      simp only [brackets, List.mem_cons, List.not_mem_nil, or_false] at hb
      rcases hb with rfl | rfl | rfl <;> decide
    simpa [cat] using hfills.nested_cat hfixed

/-- The nested texts are those that the grammar makes. -/
theorem nested_iff_wellNested {t : Text} : Nested t ↔ WellNested t := by
  refine ⟨fun h => ?_, WellNested.nested⟩
  cases closes_of_scan h with
  | done hs => exact hs

end ShaderBridge.Text
