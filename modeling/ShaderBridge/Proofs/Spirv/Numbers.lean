import Mathlib.Data.List.Nodup
import ShaderBridge.Proofs.Spirv.Writing

/-!
# Numbers in SPIR-V

A SPIR-V text defines the number `n` wherever `%n = ` stands.  In the text of a module each number
is defined at most once, if the line that imports the instruction set is left out, and every number
that is defined was drawn from the counter (`generate_defines_once`).
-/

namespace ShaderBridge.Spirv

open Text (Calm)

/-! ## §1 Definitions in a text -/

/-- The number of places where a text defines a number. -/
def definitions (n : Nat) : Text → Nat
  | [] => 0
  | c :: rest => (if Text.begins (ref n ++ " = ") (c :: rest) then 1 else 0) + definitions n rest

variable {x y : Text} {c : Char} {ds es : List Nat} {m n : Nat}

theorem definitions_cons (hc : c ≠ '%') (t : Text) : definitions n (c :: t) = definitions n t := by
  have hbegins : Text.begins (ref n ++ " = ") (c :: t) = false := Pattern.begins_of_ne hc.symm
  rw [definitions, hbegins, if_neg Bool.false_ne_true, Nat.zero_add]

theorem definitions_append (hx : '%' ∉ x) (t : Text) :
    definitions n (x ++ t) = definitions n t := by
  induction x with
  | nil => rfl
  | cons c x ih =>
    obtain ⟨hc, hx⟩ := not_or.1 (mt List.mem_cons.2 hx)
    rw [List.cons_append, definitions_cons (Ne.symm hc), ih hx]

theorem percent_notMem (hx : Calm x) : '%' ∉ x := fun h => by cases hx _ h

/-- Where a number is defined, the word in front of the blank is that number. -/
theorem eq_of_begins (hx : Inert x) {t : Text} (ht : t.head?.any isGap)
    (h : Text.begins (Text.ofNat n ++ " = ") (x ++ t)) :
    x = Text.ofNat n ∧ Text.begins " = " t := by
  have hdigits : ∀ c ∈ Text.ofNat n, c.isDigit := fun c hc =>
    Nat.isDigit_of_mem_toDigits (by decide) (by decide) hc
  have hlead : ∀ z, Text.begins " = " (" = " ++ z) := fun z =>
    List.isPrefixOf_iff_prefix.2 (List.prefix_append _ z)
  obtain ⟨z, hz⟩ := List.isPrefixOf_iff_prefix.1 h
  rw [List.append_assoc] at hz
  rcases List.append_eq_append_iff.1 hz with ⟨u, hu, hrest⟩ | ⟨u, hu, hrest⟩
  · -- The word goes on behind the number, so it has a blank or ends there.
    cases u with
    | nil => exact ⟨by simpa using hu, by rw [← List.nil_append t, ← hrest]; exact hlead z⟩
    | cons b u =>
      obtain rfl : ' ' = b := (List.cons.inj hrest).1
      obtain ⟨d, digits, hd⟩ := List.exists_cons_of_ne_nil (Nat.toDigits_ne_nil (n := n) (b := 10))
      have hhead : x.head? = some d := by
        rw [hu, Text.ofNat, hd]
        rfl
      refine absurd ?_ (hx.numeral d hhead (hdigits d (by rw [Text.ofNat, hd]; simp)))
      simp [hu]
  · -- The number goes on behind the word, so a digit or nothing stands there.
    cases u with
    | nil => exact ⟨by simpa using hu.symm, by rw [hrest]; exact hlead z⟩
    | cons d u =>
      rw [hrest] at ht
      have hdigit := hdigits d (by simp [hu])
      have hgap : ∀ e, isGap e → e.isDigit = false := by
        intro e he
        rcases Bool.or_eq_true_iff.1 he with he | he <;> cases of_decide_eq_true he <;> rfl
      rw [hgap d (by simpa using ht)] at hdigit
      cases hdigit

/-- A number and an equals sign define the number, and no other. -/
theorem definitions_result (m : Nat) (t : Text) :
    definitions n (ref m ++ (" = " ++ t)) = [m].count n + definitions n t := by
  have hrest : definitions n (Text.ofNat m ++ (" = " ++ t)) = definitions n t := by
    rw [definitions_append (percent_notMem (inert_ofNat m).calm), definitions_append (by decide)]
  show (if Text.begins (Text.ofNat n ++ " = ") (Text.ofNat m ++ (" = " ++ t)) then 1 else 0)
    + definitions n (Text.ofNat m ++ (" = " ++ t)) = _
  rw [hrest]
  by_cases hmn : m = n
  · have hbegins : Text.begins (Text.ofNat n ++ " = ") (Text.ofNat m ++ (" = " ++ t)) := by
      rw [hmn, ← List.append_assoc]
      exact List.isPrefixOf_iff_prefix.2 (List.prefix_append _ t)
    rw [if_pos hbegins]
    simp [hmn]
  · rw [if_neg]
    · simp [hmn]
    · intro hbegins
      have heq := (eq_of_begins (inert_ofNat m) rfl hbegins).1
      exact hmn (ref_injective (congrArg ('%' :: ·) heq))

/-- A text behind an operand: it begins with a gap, and not with an equals sign between blanks. -/
structure Clear (t : Text) : Prop where
  gap : t.head?.any isGap
  sign : Text.begins " = " t = false

/-- A name defines nothing. -/
theorem definitions_name (hx : Inert x) {t : Text} (ht : Clear t) :
    definitions n ('%' :: (x ++ t)) = definitions n t := by
  show (if Text.begins (Text.ofNat n ++ " = ") (x ++ t) then 1 else 0) + definitions n (x ++ t) = _
  rw [definitions_append (percent_notMem hx.calm), if_neg, Nat.zero_add]
  intro hbegins
  have hsign := (eq_of_begins hx ht.gap hbegins).2
  rw [ht.sign] at hsign
  cases hsign

/-! ## §2 Operands and statements -/

theorem clear_lineEnd (t : Text) : Clear ('\n' :: t) := ⟨rfl, rfl⟩

theorem clear_blank {t : Text} (ht : t.head? ≠ some '=') : Clear (' ' :: t) := by
  refine ⟨rfl, ?_⟩
  cases t with
  | nil => rfl
  | cons c t =>
    have hne : c ≠ '=' := fun h => ht (congrArg some h)
    simp [Text.begins, List.isPrefixOf, hne.symm]

/-- Neither an operand nor a line begins with an equals sign. -/
theorem Writes.head_ne {p : Part} (h : Writes p ds x) (t : Text) : (x ++ t).head? ≠ some '=' := by
  have hinert : ∀ {x : Text}, Inert x → ∀ t, (x ++ t).head? ≠ some '=' := by
    intro x hx t hhead
    obtain ⟨c, u, rfl⟩ := List.exists_cons_of_ne_nil hx.ne_nil
    exact (hx.first c rfl).2 (Option.some.inj hhead)
  induction h generalizing t with
  | value hx => exact hinert hx t
  | name hx => simp
  | remark hx => simp
  | result h n ih => simp [Spirv.ref]
  | start hop h ih =>
    rw [List.append_assoc]
    exact hinert hop _
  | argument h h' ih ih' =>
    rw [List.append_assoc]
    exact ih _
  | blank h ih =>
    rw [List.append_assoc]
    exact ih _

/-- Operands and lines define their numbers in front of a clear text. -/
theorem Writes.definitions {p : Part} (h : Writes p ds x) {t : Text} (ht : Clear t) :
    definitions n (x ++ t) = ds.count n + definitions n t := by
  induction h generalizing t with
  | value hx => rw [definitions_append (percent_notMem hx.calm), List.count_nil, Nat.zero_add]
  | name hx => rw [List.cons_append, definitions_name hx ht, List.count_nil, Nat.zero_add]
  | remark hx =>
    have hnone := percent_notMem hx
    rw [definitions_append (by simp [hnone]), List.count_nil, Nat.zero_add]
  -- The one line that defines a number.
  | @result ds x h m ih =>
    rw [List.append_assoc, List.append_assoc, List.append_assoc, definitions_result]
    show _ + Spirv.definitions n (x ++ '\n' :: t) = _
    rw [ih (clear_lineEnd t), definitions_cons (by decide), List.count_append]
    omega
  | start hop h ih =>
    rw [List.append_assoc, definitions_append (percent_notMem hop.calm), List.cons_append,
      definitions_cons (by decide), ih ht]
  | argument h h' ih ih' =>
    rw [List.append_assoc, List.cons_append, ih (clear_blank (h'.head_ne t)),
      definitions_cons (by decide), ih' ht, List.count_append]
    omega
  | @blank ds x h ih =>
    have hgap : t.head? ≠ some '=' := by
      intro heq
      have := ht.gap
      rw [heq] at this
      cases this
    rw [List.append_assoc]
    show Spirv.definitions n (x ++ ' ' :: t) = _
    rw [ih (clear_blank hgap), definitions_cons (by decide)]

/-- A text defines just these numbers, whatever follows. -/
def Tally (ds : List Nat) (x : Text) : Prop :=
  ∀ n t, definitions n (x ++ t) = ds.count n + definitions n t

namespace Tally

theorem fixed (hx : '%' ∉ x) : Tally [] x := fun n t => by
  rw [definitions_append hx, List.count_nil, Nat.zero_add]

theorem append (hx : Tally ds x) (hy : Tally es y) : Tally (ds ++ es) (x ++ y) := fun n t => by
  rw [List.append_assoc, hx n, hy n, List.count_append]
  omega

/-- The order of the numbers does not matter. -/
theorem cast (hx : Tally ds x) (hy : y = x) (hds : ∀ n, es.count n = ds.count n) : Tally es y := by
  subst hy
  exact fun n t => by rw [hx n, hds n]

theorem line {p : Part} (h : Writes p ds x) : Tally ds (x ++ "\n") := fun n t => by
  rw [List.append_assoc]
  show definitions n (x ++ '\n' :: t) = _
  rw [h.definitions (clear_lineEnd t), definitions_cons (by decide)]

theorem result (m : Nat) (hx : Tally ds x) : Tally (m :: ds) (ref m ++ " = " ++ x) := fun n t => by
  rw [List.append_assoc, List.append_assoc, definitions_result, hx n, List.count_cons,
    List.count_cons, List.count_nil]
  omega

end Tally

theorem inert_fixed {s : Text} (h : s ≠ [] ∧ Plain s) : Inert s := h.2.inert h.1

theorem tally_label (m : Nat) : Tally [m] (label m) := by
  have hrest : Tally [] "OpLabel\n" := .fixed (by decide)
  exact (hrest.result m).cast (by simp [label]) fun _ => rfl

theorem tally_goto (m : Nat) : Tally [] (goto m) := by
  have hline := Writes.op "OpBranch" (by decide) (.ref m)
  exact (Tally.line hline).cast (by simp [goto, Text.cat]) fun _ => rfl

theorem tally_conditional (h : Writes .operand ds x) (m n : Nat) :
    Tally ds ("OpBranchConditional " ++ x ++ " " ++ ref m ++ " " ++ ref n ++ "\n") := by
  have hline := ((Writes.op "OpBranchConditional" (by decide) h).argument
    (.ref m)).argument (.ref n)
  refine (Tally.line hline).cast (by simp) fun _ => ?_
  simp

theorem tally_store {name : Text} (hname : Inert name) (h : Writes .operand ds x) :
    Tally ds ("OpStore %" ++ name ++ " " ++ x ++ "\n") := by
  have hline := (Writes.typed "OpStore" (by decide) hname).argument h
  refine (Tally.line hline).cast (by simp) fun _ => ?_
  simp

/-- The numbers that a statement defines are all that its text defines. -/
theorem Code.tally (h : Code ds x) : Tally ds x := by
  -- The numbers that a construct draws are defined by its own lines.
  induction h with
  | nil => exact .fixed (by decide)
  | append _ _ ih ih' => exact ih.append ih'
  | value h _ => exact .line h
  | returned h =>
    have hline := Writes.op "OpReturnValue" (by decide) h
    exact (Tally.line hline).cast (by simp [Text.cat]) fun _ => rfl
  | store hname h => exact (tally_store hname h).cast (by simp [Text.cat]) fun _ => rfl
  | declared m h =>
    have hvariable := Tally.line ((Writes.typed "OpVariable" (by decide)
      (inert_fixed (s := "_ptr_Function_" ++ defaultType) (by decide))).argument
      (.value (inert_fixed (s := "Function") (by decide))))
    have hall := (hvariable.result m).append (tally_store (inert_ofNat m) h)
    refine hall.cast (by simp [Text.cat, Spirv.ref]) fun _ => ?_
    simp
  | branch yes no join hcondition hbody hothers ih ih' =>
    have hmerge := Tally.line ((Writes.op "OpSelectionMerge" (by decide)
      (.ref join)).argument (.value (inert_fixed (s := "None") (by decide))))
    have hjump := tally_conditional hcondition yes no
    have hall := hmerge.append (hjump.append ((tally_label yes).append
      (ih.append ((tally_goto join).append ((tally_label no).append (ih'.append
        ((tally_goto join).append (tally_label join))))))))
    refine hall.cast (by simp [Text.cat]) fun n => ?_
    simp only [List.count_append, List.count_cons, List.count_nil]
    omega
  | loop header inner next join hfirst hcondition hstep hbody ih ih' ih'' =>
    have hmerge := Tally.line (((Writes.op "OpLoopMerge" (by decide)
      (.ref join)).argument (.ref next)).argument (.value (inert_fixed (s := "None") (by decide))))
    have hall := ih.append ((tally_goto header).append ((tally_label header).append (hmerge.append
      ((tally_conditional hcondition inner join).append ((tally_label inner).append (ih''.append
        ((tally_goto next).append ((tally_label next).append (ih'.append
          ((tally_goto header).append (tally_label join)))))))))))
    refine hall.cast (by simp [Text.cat]) fun n => ?_
    simp only [List.count_append, List.count_cons, List.count_nil]
    omega

/-! ## §3 Interfaces -/

theorem definitions_percent {t : Text} (ht : t.head?.any (!·.isDigit)) :
    definitions n ('%' :: t) = definitions n t := by
  have hbegins : Text.begins (ref n ++ " = ") ('%' :: t) = false := by
    rw [Bool.eq_false_iff, Text.begins, Ne, List.isPrefixOf_iff_prefix]
    rintro ⟨z, hz⟩
    obtain ⟨d, digits, hd⟩ := List.exists_cons_of_ne_nil (Nat.toDigits_ne_nil (n := n) (b := 10))
    have hdigit : d.isDigit :=
      Nat.isDigit_of_mem_toDigits (n := n) (b := 10) (by decide) (by decide) (by rw [hd]; simp)
    have hrest : t = d :: (digits ++ " = " ++ z) := by
      rw [ref, Text.ofNat, hd] at hz
      simpa using (List.cons.inj hz).2.symm
    rw [hrest] at ht
    simp [hdigit] at ht
  rw [definitions, hbegins, if_neg Bool.false_ne_true, Nat.zero_add]

/-- Whether each `%` of a text stands in front of a character that is no digit. -/
def unnumbered : Text → Bool
  | [] => true
  | c :: rest => (c ≠ '%' || rest.head?.any (!·.isDigit)) && unnumbered rest

theorem Tally.unnumbered (hx : unnumbered x) : Tally [] x := by
  intro n t
  rw [List.count_nil, Nat.zero_add]
  induction x with
  | nil => rfl
  | cons c x ih =>
    obtain ⟨hc, htail⟩ := Bool.and_eq_true_iff.1 hx
    rw [List.cons_append]
    by_cases hpercent : c = '%'
    · subst hpercent
      have hhead : (x ++ t).head?.any (!·.isDigit) := by
        cases x with
        | nil => cases hc
        | cons d x => exact hc
      rw [definitions_percent hhead, ih htail]
    · rw [definitions_cons hpercent, ih htail]

theorem Tally.cat {xs : List Text} (h : ∀ x ∈ xs, Tally [] x) : Tally [] (Text.cat xs) := by
  induction xs with
  | nil => exact .fixed (by decide)
  | cons x xs ih =>
    obtain ⟨hx, hxs⟩ := List.forall_mem_cons.1 h
    exact hx.append (ih hxs)

theorem Tally.join {sep : Text} {xs : List Text} (hsep : Tally [] sep) (h : ∀ x ∈ xs, Tally [] x) :
    Tally [] (Text.join sep xs) :=
  Text.join_induction (.fixed (by decide)) .append hsep h

/-- The value is a name. -/
def Named (t : Tree) : Prop := ∃ s, t = .text s ∧ Lexicon.isName s

theorem Named.every {t : Tree} (h : Named t) : t.Every IsSolid := by
  obtain ⟨s, rfl, hs⟩ := h
  exact Tree.every_text_iff.2 (isSolid_of_isTerm _ (.inl hs))

theorem tally_plain {t : Tree} (h : t.Every IsSolid) : Tally [] (plain t) :=
  .fixed (percent_notMem (inert_plain h).calm)

theorem Named.tally {t : Tree} (h : Named t) : Tally [] ('%' :: plain t) := by
  intro n rest
  have hplain := tally_plain h.every n rest
  obtain ⟨s, rfl, hs⟩ := h
  rw [List.cons_append, definitions_percent, hplain]
  cases s with
  | nil => cases hs
  | cons c s =>
    have hstart := (Bool.and_eq_true_iff.1 hs).1
    have hascii := (Pattern.toNat_of_isNameRest (Pattern.isNameRest_of_isNameStart hstart)).2
    have hnumeric := Pattern.not_isNumeric_of_isNameStart hstart
    simp only [Pattern.isNumeric, Text.isDigit, CharSet.member, hascii, if_true,
      Bool.or_eq_false_iff] at hnumeric
    show (!c.isDigit) = true
    rw [hnumeric.1]
    rfl

/-- What is a pair is a pair of names, a type and a variable. -/
def ArePairs (xs : List Tree) : Prop := ∀ x ∈ xs, ∀ p, x.pair = .ok p → Named p.1 ∧ Named p.2

/-- The pairs in a sequence are pairs of names. -/
def IsInterface (t : Tree) : Prop := Returns t.items ArePairs

theorem returns_pairs {t : Tree} (h : IsInterface t) :
    Returns (pairs t) fun ps => ∀ p ∈ ps, Named p.1 ∧ Named p.2 := by
  refine h.bind fun _ hxs => ?_
  refine .mapM fun x hx p hp => ?_
  exact hxs x hx p hp

/-- The items of two sequences, one behind the other. -/
theorem isInterface_sequence {a b : Tree} (ha : IsInterface a) (hb : IsInterface b) :
    Returns (sequence a b) IsInterface := by
  have hboth : ∀ {xs ys}, ArePairs xs → ArePairs ys → ArePairs (xs ++ ys) := fun hxs hys =>
    List.forall_mem_append.2 ⟨hxs, hys⟩
  unfold sequence
  split
  · exact .ok (.ok (hboth (ha _ rfl) (hb _ rfl)))
  · exact .ok (.ok (hboth (ha _ rfl) (hb _ rfl)))
  · refine .ok (.ok ?_)
    rw [List.map_append]
    exact hboth (ha _ rfl) (hb _ rfl)
  · exact .error

/-- The locations of variables define nothing. -/
theorem returns_locations {t : Tree} (h : IsInterface t) : Returns (locations t) (Tally []) := by
  refine (returns_pairs h).bind fun ps hps => ?_
  refine .pure (.cat ?_)
  intro x hx
  obtain ⟨⟨p, i⟩, hp, rfl⟩ := List.mem_map.1 hx
  have hname := (hps p (List.fst_mem_of_mem_zipIdx hp)).2.tally
  have hdecorate : Tally [] "OpDecorate " := .fixed (by decide)
  have hlocation : Tally [] " Location " := .fixed (by decide)
  have hnumber : Tally [] (Text.ofNat i ++ "\n") :=
    .fixed (by simp [percent_notMem (inert_ofNat i).calm])
  exact (hdecorate.append (hname.append (hlocation.append hnumber))).cast (by simp [Text.cat])
    fun _ => rfl

/-- The interface refers to names only and defines no number. -/
theorem returns_interface {a b : Tree} (ha : IsInterface a) (hb : IsInterface b) :
    Returns (interface a b) (Tally []) := by
  refine (isInterface_sequence ha hb).bind fun c hc => ?_
  refine (returns_pairs hc).bind fun ps hps => ?_
  refine (returns_locations ha).bind fun x hx => ?_
  refine (returns_locations hb).bind fun y hy => ?_
  refine .pure ?_
  have hargs : Tally [] (Text.join " " ((ps.map fun v => plain v.2).map ('%' :: ·))) := by
    refine .join (.fixed (by decide)) fun z hz => ?_
    obtain ⟨_, hmem, rfl⟩ := List.mem_map.1 hz
    obtain ⟨p, hp, rfl⟩ := List.mem_map.1 hmem
    exact (hps p hp).2.tally
  have hnames : Tally [] (Text.cat ((ps.map fun v => plain v.2).map
      fun n => Text.cat ["OpName %", n, " \"", n, "\"\n"])) := by
    refine .cat fun z hz => ?_
    obtain ⟨_, hmem, rfl⟩ := List.mem_map.1 hz
    obtain ⟨p, hp, rfl⟩ := List.mem_map.1 hmem
    have hname : Tally [] "OpName " := .fixed (by decide)
    have hquoted : Tally [] (" \"" ++ plain p.2 ++ "\"\n") :=
      .fixed (by simp [percent_notMem (inert_plain (hps p hp).2.every).calm])
    exact (hname.append ((hps p hp).2.tally.append hquoted)).cast (by simp [Text.cat]) fun _ => rfl
  refine .cat (List.forall_mem_cons.2 ⟨.unnumbered (by decide), List.forall_mem_cons.2 ⟨hargs, ?_⟩⟩)
  simp only [List.forall_mem_cons]
  exact ⟨.fixed (by decide), .unnumbered (by decide), .fixed (by decide), .unnumbered (by decide),
    hnames, hx, hy, nofun⟩

/-! ## §4 Declarations and functions -/

/-- Some of the numbers that were drawn can be left out. -/
theorem Yields.sublist {α : Type} {g : Gen State α} {P Q : List Nat → α → Prop} (h : Yields I g P)
    (hPQ : ∀ ds a, P ds a → ∃ es, es.Sublist ds ∧ Q es a) : Yields I g Q := by
  intro s a s' hs hrun
  obtain ⟨ds, ⟨⟨k, hds, hnext⟩, hkept⟩, ha⟩ := h s a s' hs hrun
  obtain ⟨es, hes, hQ⟩ := hPQ ds a ha
  exact ⟨es, ⟨⟨k, hes.trans hds, hnext⟩, hkept⟩, hQ⟩

/-- The pairs of an interface. -/
abbrev Inside (inputs outputs : Tree) : Prop := IsInterface inputs ∧ IsInterface outputs

theorem mem_of_mem_distinct {t : Tree} {ts : List Tree} (h : t ∈ distinct ts) : t ∈ ts := by
  induction ts with
  | nil => exact h
  | cons u ts ih =>
    rcases List.mem_cons.1 h with rfl | h
    · exact List.mem_cons_self
    · exact List.mem_cons_of_mem _ (ih (List.mem_filter.1 h).1)

/-- A change of what stands under the names draws nothing. -/
theorem draws_numbering (s : State) (types vars functions functionTypes : Numbering) :
    Draws s [] { s with types, vars, functions, functionTypes } :=
  ⟨⟨0, .slnil, rfl, rfl⟩, rfl, rfl⟩

/-- The types are named by their words, so they define no number. -/
theorem yields_types : Yields Inside types fun _ x => Tally [] x := by
  refine .bind_get fun s hs => ?_
  have hitems := (isInterface_sequence hs.1 hs.2).bind fun _ h => h
  refine .bind_lift hitems fun ps hps => ?_
  -- First the names of the types, then a line for each of them.
  have hkeys : Yields Inside (ps.mapM fun t => do
      let p ← (t.pair : Except Fault _)
      checkName p.1) fun ds ks => ds = [] ∧ ∀ k ∈ ks, Named k := by
    refine .mapM (Q := fun ds k => ds = [] ∧ Named k) ⟨rfl, nofun⟩ ?_ fun t ht => ?_
    · rintro _ k _ ks ⟨rfl, hk⟩ ⟨rfl, hks⟩
      exact ⟨rfl, List.forall_mem_cons.2 ⟨hk, hks⟩⟩
    · refine .bind_lift (hps t ht) fun p hp => ?_
      intro s k s' hs hrun
      obtain ⟨ds, hds, rfl, rfl⟩ := yields_checkName p.1 s k s' hs hrun
      exact ⟨[], hds, rfl, hp.1⟩
  refine hkeys.bind ?_
  rintro _ ks ⟨rfl, hks⟩
  have hlines : Yields Inside ((distinct ks).mapM fun vtype => do
      let components ← (mapType vtype : Except Fault _)
      let n ← fresh
      modify fun s => { s with types := s.types.put vtype n }
      return Text.cat ["%", plain vtype, " = OpTypeVector %float ", plain components, "\n"])
      fun _ xs => Tally [] (Text.cat xs) := by
    refine .mapM (Q := fun _ x => Tally [] x) (.fixed (by decide))
      (fun _ _ _ _ hx hxs => hx.append hxs) fun k hk => ?_
    have hnamed := hks k (mem_of_mem_distinct hk)
    refine .bind_lift (solid_mapType hnamed.every) fun components hcomponents => ?_
    refine .bind_fresh fun n => ?_
    refine .bind_modify (fun s => draws_numbering s _ _ _ _) (.pure ?_)
    have hvector : Tally [] " = OpTypeVector %float " := .unnumbered (by decide)
    have hend : Tally [] "\n" := .fixed (by decide)
    exact (hnamed.tally.append (hvector.append ((tally_plain hcomponents).append hend))).cast
      (by simp [Text.cat]) fun _ => rfl
  have hfixed : Tally [] fixedTypes := .unnumbered (by decide)
  apply hlines.bind
  intro _ xs hxs
  exact .pure (hfixed.append hxs)

theorem yields_globalVariable {storage : Text} (hstorage : storage ≠ [] ∧ Plain storage) {t : Tree}
    (ht : Returns t.pair fun p => Named p.1 ∧ Named p.2) :
    Yields I (globalVariable storage t) fun _ x => Tally [] x := by
  refine .bind_lift ht fun p hp => ?_
  refine .bind_fresh fun _ => ?_
  refine .bind_fresh fun n => ?_
  refine (yields_checkName p.2).bind ?_
  rintro _ key ⟨rfl, -⟩
  refine .bind_modify (fun s => draws_numbering s _ _ _ _) (.pure ?_)
  have hclass : '%' ∉ storage := percent_notMem hstorage.2.calm
  have hpointer : Tally [] (Text.cat ["%_ptr_", storage, "_", plain p.1]) := by
    have hopen : Tally [] "%_ptr_" := .unnumbered (by decide)
    have hrest : Tally [] (storage ++ "_" ++ plain p.1) :=
      .fixed (by simp [hclass, percent_notMem (inert_plain hp.1.every).calm])
    exact (hopen.append hrest).cast (by simp [Text.cat]) fun _ => rfl
  have htype : Tally [] (" = OpTypePointer " ++ storage ++ " ") := .fixed (by simp [hclass])
  have hvariable : Tally [] " = OpVariable " := .fixed (by decide)
  have hend : Tally [] "\n" := .fixed (by decide)
  have hclassEnd : Tally [] (" " ++ storage ++ "\n") := .fixed (by simp [hclass])
  exact (hpointer.append (htype.append (hp.1.tally.append (hend.append (hp.2.tally.append
    (hvariable.append (hpointer.append hclassEnd))))))).cast (by simp [Text.cat]) fun _ => rfl

theorem yields_globalVariables : Yields Inside globalVariables fun _ x => Tally [] x := by
  have hall : ∀ {storage : Text}, storage ≠ [] ∧ Plain storage → ∀ ts, ArePairs ts →
      Yields Inside (ts.mapM (globalVariable storage)) fun _ xs => Tally [] (Text.cat xs) := by
    intro storage hstorage ts hts
    refine .mapM (Q := fun _ x => Tally [] x) (.fixed (by decide))
      (fun _ _ _ _ hx hxs => hx.append hxs) fun t ht => ?_
    exact yields_globalVariable hstorage (hts t ht)
  refine .bind_get fun s hs => ?_
  refine .bind_lift hs.2 fun outs houts => ?_
  refine (hall (by decide) outs houts).bind fun _ xs hxs => ?_
  refine .bind_get fun s hs => ?_
  refine .bind_lift hs.1 fun ins hins => ?_
  refine (hall (by decide) ins hins).bind fun _ ys hys => ?_
  refine .pure ?_
  exact (hxs.append hys).cast (by simp [Text.cat]) fun _ => rfl

/-- A function type defines just the numbers that are drawn for it. -/
theorem yields_functionType {t : Tree} (ht : t.Every IsSolid) :
    Yields I (functionType t) fun ds r => Tally ds r.2 := by
  refine .bind_lift ((ht.get .returnType).bind fun _ h => solid_mapType h) fun result hresult => ?_
  have hparams : Returns (do (← (← t.get .params).items).mapM fun p => do mapType (← p.item 0))
      fun ps => ∀ p ∈ ps, p.Every IsSolid :=
    (ht.get .params).bind fun _ h => (h.items charClosed_isSolid).bind fun _ hps =>
      .mapM fun p hp => ((hps p hp).item charClosed_isSolid 0).bind fun _ h => solid_mapType h
  refine .bind_lift hparams fun ps hps => ?_
  refine .bind_fresh fun n => ?_
  refine .bind_lift (R := fun _ => True) .any fun name _ => ?_
  refine (yields_checkName name).bind ?_
  rintro _ key ⟨rfl, -⟩
  refine .bind_modify (fun s => draws_numbering s _ _ _ _) (.pure ?_)
  have hargs : Args [] (ps.map fun p => '%' :: plain p) := by
    induction ps with
    | nil => exact .nil
    | cons p ps ih =>
      obtain ⟨hp, hps⟩ := List.forall_mem_cons.1 hps
      have hname : Writes .operand [] ('%' :: plain p) := .name (inert_plain hp)
      exact Args.cons hname (ih hps)
  have hline := hargs _ _ (.typed "OpTypeFunction" (by decide) (inert_plain hresult))
  exact ((Tally.line hline).result n).cast (by simp [Text.cat, Function.comp_def]) fun _ => rfl

theorem yields_parameter {t : Tree} (ht : t.Every IsSolid) : Yields I (parameter t) Tally := by
  refine .bind_lift (ht.pair charClosed_isSolid) fun p hp => ?_
  refine .bind_fresh fun n => ?_
  refine .bind_lift (solid_mapType hp.1) fun mapped hmapped => ?_
  refine (yields_checkName p.2).bind ?_
  rintro _ key ⟨rfl, -⟩
  refine .bind_modify (fun s => draws_numbering s _ _ _ _) (.pure ?_)
  have hline := Tally.line (.typed "OpFunctionParameter" (by decide) (inert_plain hmapped))
  exact (hline.result n).cast (by simp [Text.cat]) fun _ => rfl

theorem yields_typeNumber (own? : Option Nat) (name : Tree) :
    Yields I (typeNumber own? name) fun ds _ => ds = [] := by
  unfold typeNumber
  split
  · exact .pure rfl
  · refine .bind_get fun s _ => ?_
    exact yields_number _ _

/-- A function defines its own number, those of its parameters and those of its body. -/
theorem yields_function {own? : Option Nat} {t : Tree} (ht : t.Every IsSolid) :
    Yields I (function own? t) Tally := by
  refine .bind_fresh fun n => ?_
  refine .bind_lift (R := fun _ => True) .any fun name _ => ?_
  refine (yields_checkName name).bind ?_
  rintro _ key ⟨rfl, -⟩
  refine .bind_modify (fun s => draws_numbering s _ _ _ _) ?_
  refine .bind_lift (ht.get .returnType) fun returnType hreturn => ?_
  refine .bind_lift (solid_mapType hreturn) fun result hresult => ?_
  refine (yields_typeNumber own? key).bind ?_
  rintro _ signature rfl
  have hparams := (ht.get .params).bind fun _ h => h.items charClosed_isSolid
  refine .bind_lift hparams fun ps hps => ?_
  have hparamLines : Yields I (ps.mapM parameter) fun ds xs => Tally ds (Text.cat xs) :=
    .mapM (Q := Tally) (.fixed (by decide)) (fun _ _ _ _ hx hxs => hx.append hxs)
      fun p hp => yields_parameter (hps p hp)
  apply hparamLines.bind
  intro ds xs hxs
  refine .bind_fresh fun start => ?_
  have hbody := (ht.get .body).bind fun _ h => h.items charClosed_isSolid
  refine .bind_lift hbody fun stmts hstmts => ?_
  refine (yields_statements fun u hu => yields_statement u (hstmts u hu)).bind ?_
  refine fun es ys hys => .pure ?_
  have hhead := Tally.line (((Writes.typed "OpFunction" (by decide) (inert_plain hresult)).argument
    (.value (inert_fixed (s := "None") (by decide)))).argument (.ref signature))
  have hending :
      Tally [] (if returnType.isText "void" then "OpReturn\n" else "OpUnreachable\n") := by
    split <;> exact .fixed (by decide)
  have hend : Tally [] "OpFunctionEnd\n" := .fixed (by decide)
  generalize (if returnType.isText "void" then "OpReturn\n" else "OpUnreachable\n" : Text) = ending
    at hending ⊢
  refine ((hhead.result n).append (hxs.append ((tally_label start).append
    (hys.tally.append (hending.append hend))))).cast (by simp [Text.cat]) fun k => ?_
  simp

/-! ## §5 Modules -/

/-- All of a module but its opening, which defines the numbers drawn for it. -/
theorem yields_content {t inputs outputs : Tree} (ht : t.Every IsSolid) (hin : IsInterface inputs)
    (hout : IsInterface outputs) : Yields Inside (content t inputs outputs) Tally := by
  have hnone : ∀ ds x, Tally [] x → ∃ es : List Nat, es.Sublist ds ∧ Tally es x :=
    fun ds x hx => ⟨[], List.nil_sublist ds, hx⟩
  refine .bind_lift (returns_interface hin hout) fun x hx => ?_
  apply (yields_types.sublist hnone).bind
  intro ds y hy
  apply (yields_globalVariables.sublist hnone).bind
  intro es z hz
  have hitems := (ht.get .functions).bind fun _ h => h.items charClosed_isSolid
  refine .bind_lift hitems fun fs hfs => ?_
  have hdeclared : Yields Inside (fs.mapM functionType)
      fun ds rs => Tally ds (Text.cat (rs.map (·.2))) :=
    .mapM (Q := fun ds r => Tally ds r.2) (.fixed (by decide))
      (fun _ _ _ _ hr hrs => hr.append hrs) fun f hf => yields_functionType (hfs f hf)
  apply hdeclared.bind
  intro ds' rs hrs
  have hdefined : Yields Inside ((fs.zip rs).mapM fun p => function (some p.2.1) p.1)
      fun ds xs => Tally ds (Text.cat xs) :=
    .mapM (Q := Tally) (.fixed (by decide)) (fun _ _ _ _ hx hxs => hx.append hxs)
      fun p hp => yields_function (hfs p.1 (List.of_mem_zip hp).1)
  apply hdefined.bind
  intro es' ws hws
  refine .pure ?_
  have hconstants : Tally [] constants := .unnumbered (by decide)
  refine (hx.append (hy.append (hz.append (hconstants.append (hrs.append hws))))).cast
    (by simp [Text.cat]) fun k => ?_
  simp

/-- Numbers are assigned once.  The numbers that are drawn for the module of a shader are distinct,
and apart from the line that imports the instruction set its text defines each number at most once,
and none that was not drawn. -/
theorem generate_defines_once {fields : List (Field × Tree)} {s s' : State} {text : Text}
    (hterms : (Tree.node .shader fields).Every IsTerm)
    (hin : Returns ((Tree.node .shader fields).get .inputs) IsInterface)
    (hout : Returns ((Tree.node .shader fields).get .outputs) IsInterface)
    (h : generate (.node .shader fields) s = .ok text s') :
    ∃ new front back, s'.drawn = new ++ s.drawn ∧ new.Nodup ∧ text = front ++ importLine ++ back ∧
      ∀ n, definitions n (front ++ back) ≤ 1 ∧ (0 < definitions n (front ++ back) → n ∈ new) := by
  have hrun : shader (.node .shader fields) s = .ok text s' := h
  obtain ⟨inputs, hinputs, hrun⟩ := Gen.exists_of_bind_lift hrun
  obtain ⟨outputs, houtputs, hrun⟩ := Gen.exists_of_bind_lift hrun
  have hpair : Inside inputs outputs := ⟨hin inputs hinputs, hout outputs houtputs⟩
  have hsolid := hterms.mono isSolid_of_isTerm
  have hshader : Yields Inside (do
      return opening ++ (← content (.node .shader fields) inputs outputs))
      fun ds text => ∃ x, text = opening ++ x ∧ Tally ds x := by
    apply (yields_content hsolid hpair.1 hpair.2).bind
    intro ds x hx
    refine .pure ⟨x, rfl, ?_⟩
    simpa using hx
  obtain ⟨ds, hdraws, x, rfl, htally⟩ := hshader _ _ _ hpair hrun
  have hnodup := hdraws.nodup
  obtain ⟨⟨k, hsub, -, hdrawn⟩, -⟩ := hdraws
  let back : Text := "OpMemoryModel Logical GLSL450\n" ++ x
  -- The opening has no number but that of the import.
  have hcount : ∀ n, definitions n (heading ++ back) = ds.count n := by
    intro n
    have hx := htally n []
    rw [List.append_nil] at hx
    rw [definitions_append (by decide), definitions_append (by decide), hx]
    rfl
  refine ⟨(List.range' 1 k).reverse, heading, back, hdrawn,
    List.nodup_reverse.2 List.nodup_range', by simp [opening, back], fun n => ?_⟩
  rw [hcount]
  refine ⟨List.nodup_iff_count_le_one.1 hnodup n, fun hpos => ?_⟩
  exact List.mem_reverse.2 (hsub.subset (List.count_pos_iff.1 hpos))

/-- A shader with a branch around an assignment. -/
def smallShader : Tree :=
  let sum : Tree := .node .binary
    [(.left, .text "x"), (.op, .text "PLUS"), (.right, .memberOf (.text "uv") (.text "y")),
     (.type, .text "vec2")]
  let step := Tree.assignment (.text "color") (.call (.text "vec4") [sum, .text "1.0"])
  .node .shader
    [(.inputs, .list [.tuple [.text "vec2", .text "uv"]]),
     (.outputs, .list [.tuple [.text "vec4", .text "color"]]),
     (.functions, .list [.function (.text "void") (.text "main")
       [.tuple [.text "float", .text "x"]] [.branch sum [step] .absent]])]

/-- The sum in the assignment has the number `%17`. -/
theorem generate_defines_once_smallShader :
    ∃ text s', generate smallShader {} = .ok text s' ∧ 0 < definitions 17 text ∧ s'.drawn.Nodup ∧
      ∃ front back, text = front ++ importLine ++ back ∧
        ∀ n, definitions n (front ++ back) ≤ 1 ∧
          (0 < definitions n (front ++ back) → n ∈ s'.drawn) := by
  have hterms : smallShader.Every IsTerm := by
    simp +decide [smallShader, Tree.assignment, Tree.function, Tree.branch, Tree.memberOf,
      Tree.call, Tree.every_node_iff, Tree.every_list_iff, Tree.every_tuple_iff,
      Tree.every_text_iff, Tree.every_absent_iff, IsTerm]
  have hpairs : ∀ {a b : Text}, Lexicon.isName a → Lexicon.isName b →
      IsInterface (.list [.tuple [.text a, .text b]]) := by
    intro a b ha hb
    refine .ok (List.forall_mem_cons.2 ⟨?_, nofun⟩)
    rintro _ ⟨⟩
    exact ⟨⟨a, rfl, ha⟩, b, rfl, hb⟩
  have hrun : ((generate smallShader).outcome {}).toOption.any (0 < definitions 17 ·) := by
    decide +kernel
  obtain ⟨text, s', h, hdefined⟩ := Gen.exists_of_any hrun
  obtain ⟨new, front, back, hdrawn, hnodup, htext, hdefs⟩ := generate_defines_once hterms
    (.ok (hpairs (by decide) (by decide))) (.ok (hpairs (by decide) (by decide))) h
  rw [List.append_nil] at hdrawn
  rw [← hdrawn] at hnodup hdefs
  exact ⟨text, s', h, of_decide_eq_true hdefined, hnodup, front, back, htext, hdefs⟩

end ShaderBridge.Spirv
