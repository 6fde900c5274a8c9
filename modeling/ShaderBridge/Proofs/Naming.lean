import ShaderBridge.Proofs.Spelling

/-!
# Words and symbols of a token table

Two properties of a token table settle where most lexemes end.

- `Lettered`: the fixed characters of the table begin with no letter, digit or underscore.  So a
  text of such characters is a token if it is one alone, and ends where they end.
- `Sealed`: nothing in the table goes on with a symbol.  So the symbol is a token whatever stands
  behind it.
-/

namespace ShaderBridge.Lexicon

open Pattern

variable {lx : Lexicon} {t : Token} {w : Text}

/-! ## §1 Letters and digits -/

/-- Letters, digits and underscores, and at least one of them. -/
def isLettered (w : Text) : Bool := !w.isEmpty && w.all Text.isNameRest

theorem isLettered_of_isName (h : isName w) : isLettered w := by
  cases w with
  | nil => cases h
  | cons c s =>
    obtain ⟨hc, hs⟩ := Bool.and_eq_true_iff.1 h
    simpa [isLettered, isNameRest_of_isNameStart hc] using hs

theorem exists_of_isLettered (h : isLettered w) :
    (∃ c s, w = c :: s ∧ Text.isNameRest c) ∧ ∃ c, w.getLast? = some c ∧ Text.isNameRest c := by
  cases w with
  | nil => cases h
  | cons c s =>
    have hall : ∀ d ∈ c :: s, Text.isNameRest d := by simpa [isLettered] using h
    exact ⟨⟨c, s, rfl, hall c List.mem_cons_self⟩, _,
      List.getLast?_eq_some_getLast (List.cons_ne_nil c s), hall _ (List.getLast_mem _)⟩

/-- The fixed characters of the table begin with no letter, digit or underscore. -/
def Lettered (lx : Lexicon) : Prop :=
  ∀ r ∈ lx.rules, ∀ x ∈ r.pattern.lead?, x ≠ [] ∧ x.head?.any Text.isNameRest = false

namespace Lettered

/-- A text that begins with a letter or a digit begins with none of the fixed characters, and they
do not begin with it. -/
theorem not_lead (hlx : lx.Lettered) {r : LexRule} {x s : Text} {c : Char} (hr : r ∈ lx.rules)
    (hx : x ∈ r.pattern.lead?) (hc : Text.isNameRest c) :
    Text.begins x (c :: s) = false ∧ ¬(c :: s) <+: x := by
  obtain ⟨hne, hhead⟩ := hlx r hr x hx
  obtain ⟨d, x, rfl⟩ := List.exists_cons_of_ne_nil hne
  have hdc : d ≠ c := by
    rintro rfl
    simp [hc] at hhead
  exact ⟨begins_of_ne hdc, fun hpre => hdc (List.cons_prefix_cons.1 hpre).1.symm⟩

/-- A text of letters and digits that a rule covers stands for the token of that rule. -/
theorem whole_of_firstMatch (hlx : lx.Lettered) {k : TokenKind} (hw : isLettered w)
    (htext : t.text = some w) (hmatch : firstMatch lx.rules none w = some (k, w.length))
    (htoken : lx.token? ⟨k, w⟩ = some t) : lx.Whole t w := by
  obtain ⟨⟨c, s, rfl, hc⟩, -⟩ := exists_of_isLettered hw
  have hopeners : ∀ r ∈ lx.rules, ∀ x ∈ r.pattern.opener?, Text.begins x (c :: s) = false :=
    fun r hr x hx => (hlx.not_lead hr (lead?_of_opener? hx) hc).1
  exact ⟨htext, List.cons_ne_nil c s, by simpa using not_isBlank_of_isNameRest hc, hopeners, k,
    hmatch, htoken⟩

theorem whole (hlx : lx.Lettered) (h : lx.Lexes t) (htext : t.text = some w)
    (hw : isLettered w) : lx.Whole t w := by
  obtain ⟨v, hv, -, r, hfits, hmatch⟩ := h.fits
  obtain rfl : w = v := Option.some.inj (htext.symm.trans hv)
  exact hlx.whole_of_firstMatch hw htext hmatch hfits.2.2

/-- A text of letters and digits other than `else` is apart from what goes on with no word and with
no number. -/
theorem apart (hlx : lx.Lettered) {c : Char} (hw : isLettered w) (helse : w ≠ "else")
    (hword : Text.isWord c = false) (hnumber : w.head?.any isNumeric → isNumeric c = false) :
    lx.Apart w (some c) := by
  obtain ⟨⟨d, s, hcons, hd⟩, e, hlast, he⟩ := exists_of_isLettered hw
  intro r hr
  refine ⟨fun _ => hword, hnumber, fun x hx _ _ => ?_, fun _ => ⟨?_, fun h => absurd h helse⟩⟩
  · rw [hcons]
    exact (hlx.not_lead hr hx hd).2
  · rw [hlast]
    exact not_isBlank_of_isNameRest he

/-- A name other than `else` is apart from whatever is no word character. -/
theorem apart_name (hlx : lx.Lettered) {c : Char} (hw : isName w) (helse : w ≠ "else")
    (hc : Text.isWord c = false) : lx.Apart w (some c) := by
  apply hlx.apart (isLettered_of_isName hw) helse hc
  intro hnumeric
  cases w with
  | nil => cases hw
  | cons d s =>
    have hd := not_isNumeric_of_isNameStart (Bool.and_eq_true_iff.1 hw).1
    simp [hd] at hnumeric

end Lettered

/-! ## §2 Symbols -/

/-- The text is a symbol that nothing in the table goes on with. -/
structure Sealed (lx : Lexicon) (w : Text) : Prop where
  not_word : isWordAt w.getLast? = false
  not_number : w.head?.any isNumeric = false
  not_blank : w.head?.any Text.isBlank = false ∧ w.getLast?.any Text.isBlank = false
  closed : ∀ r ∈ lx.rules, ∀ x ∈ r.pattern.opener?, Text.begins x w = false
  longest : ∀ r ∈ lx.rules, ∀ x ∈ r.pattern.lead?, w <+: x → x.length = w.length

instance (lx : Lexicon) (w : Text) : Decidable (lx.Sealed w) :=
  decidable_of_iff (isWordAt w.getLast? = false ∧ w.head?.any isNumeric = false ∧
      (w.head?.any Text.isBlank = false ∧ w.getLast?.any Text.isBlank = false) ∧
      (∀ r ∈ lx.rules, ∀ x ∈ r.pattern.opener?, Text.begins x w = false) ∧
      ∀ r ∈ lx.rules, ∀ x ∈ r.pattern.lead?, w <+: x → x.length = w.length)
    ⟨fun ⟨h₁, h₂, h₃, h₄, h₅⟩ => ⟨h₁, h₂, h₃, h₄, h₅⟩, fun ⟨h₁, h₂, h₃, h₄, h₅⟩ =>
      ⟨h₁, h₂, h₃, h₄, h₅⟩⟩

namespace Sealed

theorem whole (hw : lx.Sealed w) (h : lx.Lexes t) (htext : t.text = some w) : lx.Whole t w := by
  obtain ⟨v, hv, hne, r, hfits, hmatch⟩ := h.fits
  obtain rfl : w = v := Option.some.inj (htext.symm.trans hv)
  exact ⟨htext, hne, hw.not_blank.1, hw.closed, r.kind, hmatch, hfits.2.2⟩

/-- A sealed symbol is apart from everything. -/
theorem apart (hw : lx.Sealed w) (next : Option Char) : lx.Apart w next := by
  intro r hr
  refine ⟨by simp [hw.not_word], by simp [hw.not_number], fun x hx c _ hpre => ?_,
    fun _ => ⟨hw.not_blank.2, ?_⟩⟩
  · have hlength := hw.longest r hr x hx ((List.prefix_append w [c]).trans hpre)
    have hle := hpre.length_le
    simp only [List.length_append, List.length_singleton] at hle
    omega
  · rintro rfl
    have helse : isWordAt ("else" : Text).getLast? = true := by decide
    exact absurd (helse.symm.trans hw.not_word) nofun

end Sealed

end ShaderBridge.Lexicon
