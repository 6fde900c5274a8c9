/-!
# Text

Source texts, lexemes and generated code are lists of characters, so that a statement about a
text is a statement about a list.  String literals coerce into `Text`.

This module holds the operations on text that mention no character class: joining pieces,
cutting at a separator, searching for a part, and decimal numerals.
-/

namespace ShaderBridge

/-- A text is the list of its characters. -/
abbrev Text := List Char

/-- A string literal stands for the text of its characters. -/
instance : Coe String Text := ⟨String.toList⟩

/-- Texts are compared character by character. -/
instance : LawfulBEq Text := inferInstance

namespace Text

/-- A literal has the characters that it is written with.  Rewriting with this spares a decision the
decoding of the literal. -/
theorem ofLiteral {s : String} {t : Text} (h : s = String.ofList t) : s.toList = t := by
  rw [h, String.toList_ofList]

/-! ## §1 Joining and cutting -/

/-- The pieces written one after another. -/
def cat (pieces : List Text) : Text := pieces.flatten

/-- The pieces written one after another with `sep` between neighbours. -/
def join (sep : Text) (pieces : List Text) : Text := List.intercalate sep pieces

theorem join_induction {P : Text → Prop} {sep : Text} {pieces : List Text} (hnil : P [])
    (happend : ∀ {s t}, P s → P t → P (s ++ t)) (hsep : P sep) (h : ∀ p ∈ pieces, P p) :
    P (join sep pieces) := by
  induction pieces with
  | nil => exact hnil
  | cons p ps ih =>
    obtain ⟨hp, hps⟩ := List.forall_mem_cons.1 h
    cases ps with
    | nil => simpa [join] using hp
    | cons q qs =>
      rw [join, List.intercalate_cons_cons]
      exact happend (happend hp hsep) (ih hps)

/-- The pieces of a text between the occurrences of `sep`; a text without `sep` is one piece. -/
def cutAt (sep : Char) : Text → List Text
  | [] => [[]]
  | c :: rest =>
    if c = sep then [] :: cutAt sep rest
    else
      match cutAt sep rest with
      | [] => [[c]]
      | piece :: pieces => (c :: piece) :: pieces

/-- Helper: cutting gives at least one piece, and none longer than the text. -/
theorem cutAt_bound (sep : Char) (t : Text) :
    cutAt sep t ≠ [] ∧ ∀ piece ∈ cutAt sep t, piece.length ≤ t.length := by
  induction t with
  | nil => simp [cutAt]
  | cons c rest ih =>
    obtain ⟨hne, hle⟩ := ih
    rw [cutAt]
    split
    · refine ⟨by simp, fun piece hp => ?_⟩
      rcases List.mem_cons.1 hp with rfl | hp
      · simp
      · exact Nat.le_succ_of_le (hle piece hp)
    · cases hcut : cutAt sep rest with
      | nil => exact absurd hcut hne
      | cons first others =>
        refine ⟨by simp, fun piece hp => ?_⟩
        rcases List.mem_cons.1 hp with rfl | hp
        · have := hle first (by rw [hcut]; exact List.mem_cons_self)
          simp only [List.length_cons]
          omega
        · have := hle piece (by rw [hcut]; exact List.mem_cons_of_mem _ hp)
          simp only [List.length_cons]
          omega

/-- A piece is no longer than the text it was cut from. -/
theorem length_le_of_mem_cutAt {sep : Char} {t piece : Text} (h : piece ∈ cutAt sep t) :
    piece.length ≤ t.length := (cutAt_bound sep t).2 piece h

theorem cutAt_eq_splitOn (sep : Char) (t : Text) : cutAt sep t = t.splitOn sep := by
  induction t with
  | nil => rfl
  | cons c rest ih =>
    rw [cutAt, ih, List.splitOn, List.splitOn, List.splitOnP_cons_eq_if_modifyHead]
    cases hcut : rest.splitOnP (· == sep) with
    | nil => exact absurd hcut (List.splitOn_ne_nil sep rest)
    | cons piece pieces => simp [beq_iff_eq]

/-- Pieces without the separator are found again when they are cut apart. -/
theorem cutAt_join {sep : Char} {pieces : List Text} (hne : pieces ≠ [])
    (h : ∀ p ∈ pieces, sep ∉ p) : cutAt sep (join [sep] pieces) = pieces := by
  rw [cutAt_eq_splitOn, join, List.splitOn_intercalate sep h hne]

/-- The text in front of the first `sep`, or the whole text if there is none. -/
def before (sep : Char) (t : Text) : Text := t.takeWhile (· ≠ sep)

/-- Whether the text begins with `lead`. -/
def begins (lead t : Text) : Bool := lead.isPrefixOf t

/-- Whether `part` occurs somewhere in the text. -/
def occurs (part : Text) : Text → Bool
  | [] => part.isEmpty
  | c :: rest => begins part (c :: rest) || occurs part rest

/-- Whether the text ends in `tail`. -/
def endsIn (tail t : Text) : Bool := tail.isSuffixOf t

/-- `piece` written `n` times. -/
def repeated (n : Nat) (piece : Text) : Text := (List.replicate n piece).flatten

/-! ## §2 Numerals -/

/-- The decimal numeral of a natural number. -/
def ofNat (n : Nat) : Text := Nat.toDigits 10 n

/-- The decimal numeral of an integer, with a sign in front of a negative one. -/
def ofInt : Int → Text
  | .ofNat n => ofNat n
  | .negSucc n => '-' :: ofNat (n + 1)

/-- The hexadecimal numeral of `n` in at least `width` digits. -/
def hex (width n : Nat) : Text :=
  let digits := Nat.toDigits 16 n
  List.replicate (width - digits.length) '0' ++ digits

/-! ## §3 Line ends -/

/-- Every line end becomes a single line feed: a carriage return, with the line feed after it if
there is one, counts as one line end. -/
def normalizeLineEnds : Text → Text
  | [] => []
  | '\r' :: '\n' :: rest => '\n' :: normalizeLineEnds rest
  | c :: rest => (if c = '\r' then '\n' else c) :: normalizeLineEnds rest

end Text

end ShaderBridge
