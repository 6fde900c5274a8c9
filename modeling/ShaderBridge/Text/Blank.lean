import ShaderBridge.Text.Basic
import ShaderBridge.Text.CharSet

/-!
# Blanks

White space of every script, with the ASCII separators from file to unit, and the trimming of
blanks at the ends of a text.
-/

namespace ShaderBridge.Text

/-- Code points beyond ASCII at which the blanks begin and end. -/
def blankPoints : List Nat :=
  [133, 134, 160, 161, 5760, 5761, 8192, 8203, 8232, 8234,
   8239, 8240, 8287, 8288, 12288, 12289]

/-- The blanks of ASCII: tab to carriage return, the four separators, and the space. -/
def isAsciiBlank (c : Char) : Bool :=
  (9 ≤ c.toNat && c.toNat ≤ 13) || (28 ≤ c.toNat && c.toNat ≤ 32)

/-- A blank character of any script. -/
def isBlank (c : Char) : Bool := CharSet.member isAsciiBlank blankPoints c

/-- The text without the blanks at its end. -/
def trimEnd (t : Text) : Text := (t.reverse.dropWhile isBlank).reverse

/-- The text without the blanks at both ends. -/
def trim (t : Text) : Text := trimEnd (t.dropWhile isBlank)

/-! ## The end of a line -/

theorem trimEnd_semicolon (t : Text) : trimEnd (t ++ ";\n") = t ++ ";" := by
  have hreverse : (t ++ ";\n").reverse = '\n' :: ';' :: t.reverse := by simp
  have hline : isBlank '\n' = true := by decide
  have hsemicolon : isBlank ';' = false := by decide
  rw [trimEnd, hreverse, List.dropWhile_cons_of_pos hline,
    List.dropWhile_cons_of_neg (by simp [hsemicolon])]
  simp

theorem trim_semicolon (t : Text) : trim (t ++ ";\n") = t.dropWhile isBlank ++ ";" := by
  have hsemicolon : isBlank ';' = false := by decide
  have hdrop : (t ++ ";\n").dropWhile isBlank = t.dropWhile isBlank ++ ";\n" := by
    rw [List.dropWhile_append]
    split
    · next h => simp [List.isEmpty_iff.1 h, hsemicolon]
    · rfl
  rw [trim, hdrop, trimEnd_semicolon]

/-! ## Texts without blanks at their ends -/

theorem trimEnd_eq_self {t : Text} {c : Char} (h : t.getLast? = some c) (hc : isBlank c = false) :
    trimEnd t = t := by
  obtain ⟨u, rfl⟩ := List.getLast?_eq_some_iff.1 h
  simp [trimEnd, hc]

/-- A text with no blank at either end is kept. -/
theorem trim_eq_self {t : Text} {c d : Char} (hhead : t.head? = some c) (hc : isBlank c = false)
    (hlast : t.getLast? = some d) (hd : isBlank d = false) : trim t = t := by
  obtain ⟨u, rfl⟩ := List.head?_eq_some_iff.1 hhead
  rw [trim, List.dropWhile_cons_of_neg (by simp [hc]), trimEnd_eq_self hlast hd]

end ShaderBridge.Text
