import Mathlib.Data.List.Nodup
import Mathlib.Data.List.SplitBy
import ShaderBridge.Proofs.LongestMatch
import ShaderBridge.Proofs.Spirv.Writing

/-!
# Jumps and labels in SPIR-V

An operand that is a line of its own brings its line end with it, and the line around it goes on
behind a blank.  So a line of a SPIR-V text is taken to begin where the text or a line end is
followed by a character that is neither a blank nor a line end (`lines`).

In the text of a statement the labels that jumps and merges go to (`targets`) are the labels that
are put there (`labels`), and each of them is put once (`statement_jumps_closed`).
-/

namespace ShaderBridge.Spirv

open Text (Calm)

/-! ## §1 Lines and words -/

/-- The words of a text. -/
def words (t : Text) : List Text := (t.splitOnP isGap).filter (· ≠ [])

/-- The lines of a text. -/
def lines (t : Text) : List Text := t.splitBy fun c d => c ≠ '\n' || isGap d

variable {x y w : Text} {c : Char} {ds es : List Nat} {n : Nat}

theorem words_append (x : Text) (hc : isGap c) (y : Text) :
    words (x ++ c :: y) = words x ++ words y := by
  rw [words, List.splitOnP_append_cons x y hc, List.filter_append]
  rfl

theorem words_word (hw : w ≠ []) (hgap : ∀ c ∈ w, isGap c = false) : words w = [w] := by
  rw [words, List.splitOnP_eq_singleton hgap]
  simp [hw]

theorem words_lineEnd (x : Text) : words (x ++ "\n") = words x := by
  show words (x ++ '\n' :: []) = _
  rw [words_append x rfl]
  simp [words]

/-- What a text begins with without a gap belongs to its first word. -/
theorem words_first (hw : w ≠ []) (hgap : ∀ c ∈ w, isGap c = false) (t : Text) :
    ∃ v vs, words (w ++ t) = (w ++ v) :: vs := by
  obtain ⟨v, vs, hv⟩ := List.exists_cons_of_ne_nil (List.splitOnP_ne_nil isGap t)
  have hsplit : (w ++ t).splitOnP isGap = (w ++ v) :: vs := by
    clear hw
    induction w with
    | nil => exact hv
    | cons c w ih =>
      obtain ⟨hc, hrest⟩ := List.forall_mem_cons.1 hgap
      rw [List.cons_append, List.splitOnP_cons_eq_if_modifyHead, hc, ih hrest]
      rfl
  refine ⟨v, vs.filter (· ≠ []), ?_⟩
  rw [words, hsplit]
  simp [hw]

/-- No line begins inside the text. -/
def Tied (t : Text) : Prop := t.IsChain fun c d => c ≠ '\n' || isGap d

/-- The text begins with a word. -/
def Opens (t : Text) : Prop := ∀ c ∈ t.head?, isGap c = false

/-- The text ends with a line end. -/
def Ends (t : Text) : Prop := ∀ c ∈ t.getLast?, c = '\n'

theorem lines_append (hx : Ends x) (hy : Opens y) : lines (x ++ y) = lines x ++ lines y := by
  apply List.splitBy_append
  intro c hc d hd
  simp [hx c hc, hy d hd]

theorem lines_tied (hne : x ≠ []) (hx : Tied x) : lines x = [x] := List.splitBy_of_isChain hne hx

theorem tied_append_of_notMem (hx : '\n' ∉ x) (hy : Tied y) : Tied (x ++ y) := by
  induction x with
  | nil => exact hy
  | cons c x ih =>
    obtain ⟨hc, hx⟩ := not_or.1 (mt List.mem_cons.2 hx)
    exact List.isChain_cons.2 ⟨fun d _ => by simp [Ne.symm hc], ih hx⟩

theorem tied_of_notMem (hx : '\n' ∉ x) : Tied x := by
  simpa using tied_append_of_notMem hx (y := []) .nil

theorem Tied.gap (hx : Tied x) (hc : isGap c) (hy : Tied (c :: y)) : Tied (x ++ c :: y) := by
  refine List.isChain_append.2 ⟨hx, hy, fun d _ e he => ?_⟩
  obtain rfl : c = e := Option.some.inj he
  simp [hc]

theorem Tied.blank (hx : Tied x) (hy : Tied y) : Tied (x ++ ' ' :: y) :=
  hx.gap rfl (tied_append_of_notMem (x := [' ']) (by decide) hy)

theorem Tied.lineEnd (hx : Tied x) : Tied (x ++ "\n") := hx.gap rfl (.singleton _)

theorem notMem_of_calm (hx : Calm x) : '\n' ∉ x := fun h => by cases hx _ h

theorem isGap_of_mem_ref : ∀ c ∈ ref n, isGap c = false :=
  List.forall_mem_cons.2 ⟨rfl, Text.all_ofNat (by decide) n⟩

@[simp] theorem words_ref : words (ref n) = [ref n] :=
  words_word (List.cons_ne_nil _ _) isGap_of_mem_ref

/-! ## §2 Operands -/

/-- A text that begins with a word and goes on without a new line. -/
structure Whole (x : Text) : Prop where
  ne_nil : x ≠ []
  opens : Opens x
  tied : Tied x

theorem Whole.words_eq (hx : Whole x) : ∃ c w ws, x.head? = some c ∧ words x = (c :: w) :: ws := by
  obtain ⟨c, t, rfl⟩ := List.exists_cons_of_ne_nil hx.ne_nil
  obtain ⟨w, ws, hws⟩ := words_first (w := [c]) (by simp) (by simpa using hx.opens c rfl) t
  exact ⟨c, w, ws, rfl, hws⟩

theorem Whole.append (hx : Whole x) (h : Tied (x ++ y)) : Whole (x ++ y) := by
  obtain ⟨c, t, rfl⟩ := List.exists_cons_of_ne_nil hx.ne_nil
  exact ⟨by simp, hx.opens, h⟩

theorem whole_of_inert (hx : Inert x) : Whole x :=
  ⟨hx.ne_nil, hx.not_isGap, tied_of_notMem (notMem_of_calm hx.calm)⟩

theorem whole_ref : Whole (ref n) := by
  refine ⟨List.cons_ne_nil _ _, fun c hc => isGap_of_mem_ref c (List.mem_of_head? hc), ?_⟩
  refine tied_of_notMem fun h => ?_
  cases isGap_of_mem_ref _ h

theorem Whole.blank (hx : Whole x) (hy : Whole y) : Whole (x ++ ' ' :: y) :=
  hx.append (hx.tied.blank hy.tied)

theorem Whole.result (hx : Whole x) (n : Nat) : Whole (ref n ++ " = " ++ x) := by
  have hsign : Whole ['='] := ⟨by simp, by simp [Opens, isGap], .singleton _⟩
  simpa using whole_ref.blank (hsign.blank hx)

/-- What is written is whole, and a line has two words or more. -/
theorem Writes.whole {p : Part} (h : Writes p ds x) :
    Whole x ∧ (p = .line → 2 ≤ (words x).length) := by
  have htwo : ∀ {x y : Text}, Whole x → Whole y → 2 ≤ (words (x ++ ' ' :: y)).length := by
    intro x y hx hy
    obtain ⟨_, _, _, -, hwx⟩ := hx.words_eq
    obtain ⟨_, _, _, -, hwy⟩ := hy.words_eq
    simp [words_append x (c := ' ') rfl, hwx, hwy]
    omega
  induction h with
  | value hx => exact ⟨whole_of_inert hx, nofun⟩
  | name hx =>
    exact ⟨⟨by simp, by simp [Opens, isGap],
      tied_append_of_notMem (x := ['%']) (by decide) (whole_of_inert hx).tied⟩, nofun⟩
  | @remark x hx =>
    have htied : Tied (';' :: x ++ "\n") :=
      (tied_of_notMem (by simp [notMem_of_calm hx])).lineEnd
    exact ⟨⟨by simp, by simp [Opens, isGap], htied⟩, nofun⟩
  | result h n ih =>
    have hwhole := ih.1.result n
    exact ⟨hwhole.append hwhole.tied.lineEnd, nofun⟩
  | start hop h ih =>
    obtain ⟨hx, -⟩ := ih
    have hop := whole_of_inert hop
    exact ⟨hop.blank hx, fun _ => htwo hop hx⟩
  | argument h h' ih ih' =>
    obtain ⟨hx, hlen⟩ := ih
    obtain ⟨hy, -⟩ := ih'
    exact ⟨hx.blank hy, fun _ => htwo hx hy⟩
  | blank h ih =>
    obtain ⟨hx, hlen⟩ := ih
    refine ⟨hx.append (hx.tied.blank .nil), fun hline => ?_⟩
    show 2 ≤ (words (_ ++ ' ' :: [])).length
    rw [words_append _ rfl, List.length_append]
    exact Nat.le_add_right_of_le (hlen hline)

/-! ## §3 Labels and targets -/

/-- Whether a word is a number behind `%`. -/
def isRef : Text → Bool
  | '%' :: c :: digits => (c :: digits).all Char.isDigit
  | _ => false

/-- The label that a line puts. -/
def labelOf? : List Text → Option Text
  | [l, sign, op] => if isRef l ∧ sign = "=" ∧ op = "OpLabel" then some l else none
  | _ => none

/-- The labels that a line goes to: the first word or the first two words of a jump or merge, and
the last two words of a jump on a condition. -/
def targetsOf : List Text → List Text
  | [] => []
  | op :: args =>
    if op = "OpBranch" ∨ op = "OpSelectionMerge" then args.take 1
    else if op = "OpLoopMerge" then args.take 2
    else if op = "OpBranchConditional" then args.drop (args.length - 2)
    else []

/-- The labels that are put in a text. -/
def labels (t : Text) : List Text := (lines t).filterMap fun l => labelOf? (words l)

/-- The labels that the lines of a text go to. -/
def targets (t : Text) : List Text := (lines t).flatMap fun l => targetsOf (words l)

/-- A text of whole lines, with the labels that it puts and goes to. -/
structure Reads (x : Text) (ls ts : List Text) : Prop where
  opens : Opens x
  ends : Ends x
  labels_eq : labels x = ls
  targets_eq : targets x = ts

namespace Reads

variable {ls ls' ts ts' : List Text}

theorem nil : Reads [] [] [] := ⟨nofun, nofun, rfl, rfl⟩

theorem append (hx : Reads x ls ts) (hy : Reads y ls' ts') :
    Reads (x ++ y) (ls ++ ls') (ts ++ ts') := by
  have hlines := lines_append hx.ends hy.opens
  refine ⟨?_, ?_, ?_, ?_⟩
  · cases x with
    | nil => exact hy.opens
    | cons c x => exact hx.opens
  · intro c hc
    rw [List.getLast?_append] at hc
    rcases Option.or_eq_some_iff.1 hc with hc | ⟨-, hc⟩
    · exact hy.ends c hc
    · exact hx.ends c hc
  · rw [labels, hlines, List.filterMap_append, ← hx.labels_eq, ← hy.labels_eq]
    rfl
  · rw [targets, hlines, List.flatMap_append, ← hx.targets_eq, ← hy.targets_eq]
    rfl

theorem line (hx : Whole x) :
    Reads (x ++ "\n") (labelOf? (words x)).toList (targetsOf (words x)) := by
  have hlines : lines (x ++ "\n") = [x ++ "\n"] := lines_tied (by simp) hx.tied.lineEnd
  refine ⟨(hx.append hx.tied.lineEnd).opens, by simp [Ends], ?_, ?_⟩
  · rw [labels, hlines, List.filterMap_cons, words_lineEnd]
    cases labelOf? (words x) <;> rfl
  · rw [targets, hlines, List.flatMap_singleton, words_lineEnd]

end Reads

theorem labelOf?_eq_none {op : Text} (h : isRef op = false) (args : List Text) :
    labelOf? (op :: args) = none := by
  unfold labelOf?
  split
  · next heq =>
    obtain ⟨rfl, -⟩ := List.cons.inj heq
    simp [h]
  · rfl

theorem targetsOf_eq_nil {op : Text} (h : op.head? ≠ some 'O') (args : List Text) :
    targetsOf (op :: args) = [] := by
  have hne : ∀ s : Text, s.head? = some 'O' → op ≠ s := by
    rintro s hs rfl
    exact h hs
  simp only [targetsOf]
  rw [if_neg (not_or.2 ⟨hne _ rfl, hne _ rfl⟩), if_neg (hne _ rfl), if_neg (hne _ rfl)]

theorem isRef_ref (n : Nat) : isRef (ref n) := by
  obtain ⟨c, digits, h⟩ := List.exists_cons_of_ne_nil (Nat.toDigits_ne_nil (n := n) (b := 10))
  have hdigits : ∀ d ∈ Nat.toDigits 10 n, d.isDigit := fun d hd =>
    Nat.isDigit_of_mem_toDigits (by decide) (by decide) hd
  rw [h] at hdigits
  rw [ref, Text.ofNat, h]
  exact List.all_eq_true.2 hdigits

theorem words_plain (hx : x ≠ [] ∧ Plain x) : words x = [x] := by
  refine words_word hx.1 fun c hc => ?_
  have := hx.2 c hc
  simp only [List.mem_cons, not_or] at this
  simp [isGap, this.2.2.1, this.2.2.2]

/-- A line that begins with a fixed word. -/
theorem Reads.op (op : Text) (hop : op ≠ [] ∧ Plain op) (hhead : op.head? ≠ some '%') (hx : Whole x)
    (hy : y = op ++ ' ' :: x ++ "\n") {ts : List Text} (hts : targetsOf (op :: words x) = ts) :
    Reads y [] ts := by
  have hwhole := whole_of_inert (hop.2.inert hop.1)
  have hline := Reads.line (hwhole.append (hwhole.tied.blank hx.tied))
  have hwords : words (op ++ ' ' :: x) = op :: words x := by
    rw [words_append op rfl, words_plain hop]
    rfl
  have href : isRef op = false := by
    unfold isRef
    split
    · exact absurd rfl hhead
    · rfl
  rw [hwords, labelOf?_eq_none href, hts, ← hy] at hline
  exact hline

theorem reads_label (n : Nat) : Reads (label n) [ref n] [] := by
  have htied : Tied (ref n ++ " = OpLabel") := whole_ref.tied.gap rfl (tied_of_notMem (by decide))
  have hline := Reads.line (whole_ref.append htied)
  have hwords : words (ref n ++ " = OpLabel") = [ref n, "=", "OpLabel"] := by
    show words (ref n ++ ' ' :: (['='] ++ ' ' :: "OpLabel")) = _
    rw [words_append _ rfl, words_append _ rfl, words_ref, words_word (by simp) (by decide),
      words_plain (by decide)]
    rfl
  rw [hwords, targetsOf_eq_nil (by simp [ref])] at hline
  simpa [labelOf?, isRef_ref, label] using hline

theorem reads_goto (n : Nat) : Reads (goto n) [] [ref n] :=
  .op "OpBranch" (by decide) (by decide) (whole_ref (n := n)) (by simp [goto, Text.cat])
    (by simp [targetsOf])

theorem reads_selectionMerge (n : Nat) :
    Reads ("OpSelectionMerge " ++ ref n ++ " None\n") [] [ref n] := by
  have hnone : Whole "None" := whole_of_inert (Plain.inert (by decide) (by decide))
  have hargs := (whole_ref (n := n)).blank hnone
  refine .op "OpSelectionMerge" (by decide) (by decide) hargs (by simp) ?_
  rw [words_append _ rfl, words_ref]
  simp [targetsOf]

theorem reads_loopMerge (m n : Nat) :
    Reads ("OpLoopMerge " ++ ref m ++ " " ++ ref n ++ " None\n") [] [ref m, ref n] := by
  have hnone : Whole "None" := whole_of_inert (Plain.inert (by decide) (by decide))
  refine .op "OpLoopMerge" (by decide) (by decide)
    ((whole_ref (n := m)).blank ((whole_ref (n := n)).blank hnone)) (by simp) ?_
  rw [words_append _ rfl, words_append _ rfl, words_ref, words_ref]
  simp [targetsOf]

theorem reads_conditional (hx : Whole x) (m n : Nat) :
    Reads ("OpBranchConditional " ++ x ++ " " ++ ref m ++ " " ++ ref n ++ "\n") []
      [ref m, ref n] := by
  refine .op "OpBranchConditional" (by decide) (by decide)
    (hx.blank ((whole_ref (n := m)).blank (whole_ref (n := n)))) (by simp) ?_
  rw [words_append _ rfl, words_append _ rfl, words_ref, words_ref]
  simp [targetsOf]

theorem words_result (x : Text) : words (ref n ++ " = " ++ x) = ref n :: "=" :: words x := by
  have htext : ref n ++ " = " ++ x = ref n ++ ' ' :: (['='] ++ ' ' :: x) := by simp
  rw [htext, words_append _ rfl, words_append _ rfl, words_ref, words_word (by simp) (by decide)]
  rfl

/-- A line that numbers its result puts no label, since it has words behind the operation. -/
theorem Writes.labelOf?_result (h : Writes .line ds x) :
    labelOf? (words (Spirv.ref n ++ " = " ++ x)) = none := by
  rw [words_result]
  match hwords : words x, h.whole.2 rfl with
  | _ :: _ :: _, _ => rfl

/-- A name puts no label, since one that is a number is a single word. -/
theorem labelOf?_name (hx : Inert x) : labelOf? (words ('%' :: x)) = none := by
  obtain ⟨c, t, rfl⟩ := List.exists_cons_of_ne_nil hx.ne_nil
  by_cases hdigit : c.isDigit
  · have hgap : ∀ d ∈ '%' :: c :: t, isGap d = false := by
      refine List.forall_mem_cons.2 ⟨rfl, fun d hd => ?_⟩
      have hblank := hx.numeral c rfl hdigit
      have hline := notMem_of_calm hx.calm
      have hne : d ≠ ' ' ∧ d ≠ '\n' := ⟨fun h => hblank (h ▸ hd), fun h => hline (h ▸ hd)⟩
      simp [isGap, hne.1, hne.2]
    rw [words_word (by simp) hgap]
    rfl
  · have hgap : ∀ d ∈ ['%', c], isGap d = false := by
      simpa [isGap] using hx.not_isGap c rfl
    obtain ⟨v, vs, hwords⟩ := words_first (by simp) hgap t
    rw [List.cons_append, List.singleton_append] at hwords
    rw [hwords]
    exact labelOf?_eq_none (by simp [isRef, hdigit]) vs

/-- An operand does not look like a label or a jump. -/
theorem Writes.reads (h : Writes .operand ds x) (hhead : x.head? ≠ some 'O') :
    Reads (x ++ "\n") [] [] := by
  obtain ⟨c, w, ws, hc, hwords⟩ := h.whole.1.words_eq
  have hline := Reads.line h.whole.1
  have htargets : targetsOf (words x) = [] := by
    rw [hwords]
    exact targetsOf_eq_nil (by rwa [hc] at hhead) ws
  -- Only a reference may be a label.
  have hfirst : c ≠ '%' → labelOf? (words x) = none := by
    intro hne
    rw [hwords]
    exact labelOf?_eq_none (by simp [isRef, hne]) ws
  have hlabel : labelOf? (words x) = none := by
    cases h with
    | value hx =>
      apply hfirst
      rintro rfl
      cases hx.calm _ (List.mem_of_head? hc)
    | name hx => exact labelOf?_name hx
    | remark hx =>
      apply hfirst
      rintro rfl
      cases hc
    | result h n =>
      rw [words_lineEnd]
      exact h.labelOf?_result
  rwa [htargets, hlabel] at hline

/-- In the text of a statement the labels are among the numbers that it defines, and they are what
it goes to. -/
theorem Code.reads (h : Code ds x) :
    ∃ ls ts, Reads x ls ts ∧ (∀ l, ls.count l ≤ (ds.map Spirv.ref).count l) ∧
      ∀ l, l ∈ ts ↔ l ∈ ls := by
  -- Labels are placed by branches and loops alone, each where a jump leads to it.
  induction h with
  | nil => exact ⟨[], [], .nil, by simp, by simp⟩
  | append _ _ ih ih' =>
    obtain ⟨ls, ts, hreads, hcount, hmem⟩ := ih
    obtain ⟨ls', ts', hreads', hcount', hmem'⟩ := ih'
    refine ⟨_, _, hreads.append hreads', fun l => ?_, fun l => ?_⟩
    · rw [List.map_append, List.count_append, List.count_append]
      exact Nat.add_le_add (hcount l) (hcount' l)
    · rw [List.mem_append, List.mem_append, hmem, hmem']
  | value h hx => exact ⟨[], [], h.reads hx, by simp, by simp⟩
  | returned h =>
    exact ⟨[], [], .op "OpReturnValue" (by decide) (by decide) h.whole.1 (by simp [Text.cat])
      (by simp [targetsOf]), by simp, by simp⟩
  | store hname h =>
    have hwhole := (Writes.name hname).whole.1.blank h.whole.1
    exact ⟨[], [], .op "OpStore" (by decide) (by decide) hwhole (by simp [Text.cat])
      (by simp [targetsOf]), by simp, by simp⟩
  | @declared ds x n h =>
    have hline := (Writes.typed "OpVariable" (by decide)
      (Plain.inert (s := "_ptr_Function_" ++ defaultType) (by decide) (by decide))).argument
      (.value (Plain.inert (s := "Function") (by decide) (by decide)))
    have hvariable := Reads.line (hline.whole.1.result n)
    rw [hline.labelOf?_result, words_result, targetsOf_eq_nil (by simp [Spirv.ref])] at hvariable
    have hstore : Reads ("OpStore " ++ Spirv.ref n ++ " " ++ x ++ "\n") [] [] :=
      .op "OpStore" (by decide) (by decide) ((whole_ref (n := n)).blank h.whole.1) (by simp)
        (by simp [targetsOf])
    refine ⟨[], [], ?_, by simp, by simp⟩
    simpa [Text.cat] using hvariable.append hstore
  | @branch ds es fs condition body others yes no join hcondition hbody hothers ih ih' =>
    obtain ⟨ls, ts, hreads, hcount, hmem⟩ := ih
    obtain ⟨ls', ts', hreads', hcount', hmem'⟩ := ih'
    have hmerge := reads_selectionMerge join
    have hjump := reads_conditional hcondition.whole.1 yes no
    have hall := hmerge.append (hjump.append ((reads_label yes).append (hreads.append
      ((reads_goto join).append ((reads_label no).append (hreads'.append
        ((reads_goto join).append (reads_label join))))))))
    refine ⟨_, _, by simpa [Text.cat] using hall, fun l => ?_, fun l => ?_⟩
    · have := hcount l
      have := hcount' l
      simp only [List.map_append, List.map_cons, List.map_nil, List.count_append, List.count_cons,
        List.count_nil]
      omega
    · simp [hmem, hmem', or_comm, or_left_comm]
  | @loop ds es fs gs first condition step body header inner next join hfirst hcondition hstep hbody
      ih ih' ih'' =>
    obtain ⟨ls, ts, hreads, hcount, hmem⟩ := ih
    obtain ⟨ls', ts', hreads', hcount', hmem'⟩ := ih'
    obtain ⟨ls'', ts'', hreads'', hcount'', hmem''⟩ := ih''
    have hmerge := reads_loopMerge join next
    have hjump := reads_conditional hcondition.whole.1 inner join
    have hall := hreads.append ((reads_goto header).append ((reads_label header).append
      (hmerge.append (hjump.append ((reads_label inner).append (hreads''.append
        ((reads_goto next).append ((reads_label next).append (hreads'.append
          ((reads_goto header).append (reads_label join)))))))))))
    refine ⟨_, _, by simpa [Text.cat] using hall, fun l => ?_, fun l => ?_⟩
    · have := hcount l
      have := hcount' l
      have := hcount'' l
      simp only [List.map_append, List.map_cons, List.map_nil, List.count_append, List.count_cons,
        List.count_nil]
      omega
    · simp [hmem, hmem', hmem'', or_assoc, or_comm, or_left_comm, or_self_left]

/-! ## §4 Statements -/

/-- The jumps of a statement are closed.  Whatever the state of the generator, each label that a
jump or merge in the text of a statement goes to is put by exactly one line of that text, and each
label that is put there is a number behind `%` and is gone to. -/
theorem statement_jumps_closed {t : Tree} {s s' : State} {text : Text} (ht : t.Every IsTerm)
    (h : statement t s = .ok text s') (l : Text) :
    (l ∈ targets text → (labels text).count l = 1) ∧
      (l ∈ labels text → l ∈ targets text ∧ ∃ n, l = ref n) := by
  obtain ⟨ds, hdraws, hcode⟩ := yields_statement (I := fun _ _ => True) t
    (ht.mono isSolid_of_isTerm) s text s' trivial h
  obtain ⟨ls, ts, hreads, hcount, hmem⟩ := hcode.reads
  rw [hreads.labels_eq, hreads.targets_eq]
  have hnodup : (ds.map ref).Nodup := List.Nodup.map ref_injective hdraws.nodup
  have hle : ls.count l ≤ 1 := (hcount l).trans (List.nodup_iff_count_le_one.1 hnodup l)
  refine ⟨fun hl => ?_, fun hl => ⟨(hmem l).2 hl, ?_⟩⟩
  · have hpos := List.count_pos_iff.2 ((hmem l).1 hl)
    omega
  · have hpos := (List.count_pos_iff.2 hl).trans_le (hcount l)
    obtain ⟨n, -, rfl⟩ := List.mem_map.1 (List.count_pos_iff.1 hpos)
    exact ⟨n, rfl⟩

/-- A loop around a branch, each with an operation as its condition. -/
def guardedLoop : Tree :=
  let condition : Tree := .node .binary
    [(.left, .text "i"), (.op, .text "LESS_THAN"), (.right, .text "10"), (.type, .text "float")]
  let step := Tree.assignment (.text "i") (.text "1")
  .forLoop step condition step [.branch condition [step] (.list [step])]

/-- The label behind the loop is `%10`. -/
theorem statement_jumps_closed_guardedLoop :
    guardedLoop.Every IsTerm ∧
      ∃ text s', statement guardedLoop { types := [(.text "float", 7)] } = .ok text s' ∧
        ref 10 ∈ targets text ∧ (labels text).count (ref 10) = 1 := by
  have hterms : guardedLoop.Every IsTerm := by
    simp +decide [guardedLoop, Tree.assignment, Tree.forLoop, Tree.branch, Tree.every_node_iff,
      Tree.every_list_iff, Tree.every_text_iff, IsTerm]
  have hrun : ((statement guardedLoop).outcome { types := [(.text "float", 7)] }).toOption.any
      (ref 10 ∈ targets ·) := by
    decide +kernel
  obtain ⟨text, s', h, htarget⟩ := Gen.exists_of_any hrun
  have hmem := of_decide_eq_true htarget
  exact ⟨hterms, text, s', h, hmem, (statement_jumps_closed hterms h (ref 10)).1 hmem⟩

end ShaderBridge.Spirv
