import ShaderBridge.Proofs.Drawing

/-!
# Tokens behind what is read

Whether more tokens stand behind those that a parser reads does not matter to it, unless it asks for
the first of them: an operator, a semicolon that may be left out, or `else`.

`FramesAt F K p q`: what `p` gives at a place with `K`, `q` gives where more tokens follow, and the
same tokens are read.  If nothing is left of the tokens that `p` was given, the first one that
follows has to be of a kind in `F`.  Two parsers are compared because the bounds on nesting grow
with the tokens ahead.

A parser that is followed by one that needs a token (`Needs`) never meets the end, so its own end
does not matter (`FramesAt.close`).
-/

namespace ShaderBridge

/-- The same place in a longer list: `skip` more tokens lie behind, and `more` stand at the end. -/
def Cursor.within (c : Cursor) (skip : Nat) (more : List Token) : Cursor :=
  ⟨c.pos + skip, c.rest ++ more⟩

namespace Parser

variable {α β : Type}

/-! ## §1 Places and what follows -/

section Places

variable {c : Cursor} {skip : Nat} {more : List Token}

/-- The tokens that may follow: a comment is not the first, and if nothing is left, the first has a
kind in `F`. -/
structure Follows (F : List TokenKind) (c : Cursor) (more : List Token) : Prop where
  solid : Trivia.comments.skips (firstKind more) = false
  first : c.rest = [] → firstKind more ∈ F

/-- What may follow the end of a run may follow every place of it. -/
theorem Follows.of_suffix {F : List TokenKind} {c' : Cursor} (h : Follows F c' more)
    (hc : c'.rest <:+ c.rest) : Follows F c more :=
  ⟨h.solid, fun hnil => h.first (List.suffix_nil.1 (hnil ▸ hc))⟩

theorem current_within (h : c.rest ≠ []) : (c.within skip more).current = c.current := by
  obtain ⟨pos, ts⟩ := c
  cases ts with
  | nil => exact absurd rfl h
  | cons t ts => rfl

theorem kind_within (h : c.rest ≠ []) : (c.within skip more).kind = c.kind :=
  congrArg Token.kind (current_within h)

theorem advance_within (hc : CommentFree c.rest)
    (hmore : Trivia.comments.skips (firstKind more) = false)
    (h : c.rest ≠ []) :
    (c.within skip more).advance .comments = (c.advance .comments).within skip more := by
  obtain ⟨pos, ts⟩ := c
  cases ts with
  | nil => exact absurd rfl h
  | cons t ts =>
    have hts : CommentFree ts := (commentFree_cons.1 hc).2
    have hfirst : Trivia.comments.skips (firstKind (ts ++ more)) = false := by
      cases ts with
      | nil => exact hmore
      | cons u us => exact hts.not_skips
    rw [Cursor.advance_cons hts, Cursor.within, Cursor.within, Nat.add_right_comm]
    exact Cursor.pastTrivia_of_firstKind hfirst (pos + skip + 1)

theorem kind_eq_end (h : c.rest = []) : c.kind = .endOfInput := by
  rw [Cursor.kind, Cursor.current, h]
  rfl

theorem rest_ne_nil (h : c.kind ≠ .endOfInput) : c.rest ≠ [] := mt kind_eq_end h

end Places

/-! ## §2 Parsers in sequence -/

/-- None of the kinds that follow is among `ks`. -/
abbrev Avoids (F ks : List TokenKind) : Prop := ∀ k ∈ F, k ∉ ks

theorem avoids_nil {ks : List TokenKind} : Avoids [] ks := nofun

/-- What `p` gives at a place with `K`, `q` gives in front of more tokens. -/
def FramesAt (F : List TokenKind) (K : Cursor → Prop) (p q : Parser α) : Prop :=
  ∀ c a c', CommentFree c.rest → K c → p c = .ok a c' →
    c'.rest <:+ c.rest ∧ ∀ skip more, Follows F c' more →
      q (c.within skip more) = .ok a (c'.within skip more)

/-- The same at every place. -/
abbrev Frames (F : List TokenKind) (p q : Parser α) : Prop := FramesAt F (fun _ => True) p q

/-- The parser gives nothing where no token is ahead. -/
def Needs (p : Parser α) : Prop := ∀ c a c', p c = .ok a c' → c.rest ≠ []

namespace Needs

variable {p : Parser α} {f : α → Parser β} {k : TokenKind} {ks : List TokenKind}

theorem bind (h : Needs p) : Needs (p >>= f) := by
  intro c b c' hrun
  obtain ⟨a, d, ha, -⟩ := bind_eq_ok hrun
  exact h c a d ha

theorem reject {why : Rejection} : Needs (reject why : Parser α) := by
  rintro c _ _ ⟨⟩

theorem expect {tv : Trivia} (hk : k ≠ .endOfInput) : Needs (expect tv k) := by
  intro c t c' hrun
  exact rest_ne_nil ((expect_eq_ok hrun).1 ▸ hk)

theorem expectText {tv : Trivia} (hk : k ≠ .endOfInput) : Needs (expectText tv k) :=
  (expect hk).bind

theorem expectAll {tv : Trivia} (hk : k ≠ .endOfInput) : Needs (expectAll tv (k :: ks)) :=
  (expect hk).bind

/-- What is done by the kind of the current token, where nothing is done at the end. -/
theorem kind {f : TokenKind → Parser β} (h : Needs (f .endOfInput)) : Needs (kind >>= f) := by
  intro c b c' hrun hnil
  rw [kind_bind, kind_eq_end hnil] at hrun
  exact h c b c' hrun hnil

/-- A choice by the next kind needs a token if the branch taken at the end does. -/
theorem isAt {f : Bool → Parser β} (hks : .endOfInput ∉ ks) (h : Needs (f false)) :
    Needs (isAt ks >>= f) :=
  kind (f := fun k => f (decide (k ∈ ks))) (by rwa [decide_eq_false hks])

end Needs

namespace FramesAt

variable {F : List TokenKind} {K : Cursor → Prop} {p q p' q' : Parser α} {f g : α → Parser β}
  {k : TokenKind} {ks : List TokenKind}

theorem here (h : Frames F p q) : FramesAt F K p q := fun c a c' hc _ => h c a c' hc trivial

theorem pure {a : α} : FramesAt F K (pure a) (pure a) := by
  rintro c _ _ - - ⟨⟩
  exact ⟨List.suffix_refl _, fun _ _ _ => rfl⟩

theorem throw {e : Fault} : FramesAt F K (throw e : Parser α) q := by
  rintro c _ _ - - ⟨⟩

theorem reject {why : Rejection} : FramesAt F K (reject why : Parser α) q := throw

theorem inner (h : FramesAt F K p q) : FramesAt [] K p q := by
  intro c a c' hc hk hrun
  obtain ⟨hsuffix, hmore⟩ := h c a c' hc hk hrun
  refine ⟨hsuffix, fun skip more hfollows => hmore skip more ⟨hfollows.solid, fun hnil => ?_⟩⟩
  exact absurd (hfollows.first hnil) List.not_mem_nil

/-- Helper: two parsers in sequence, where `F'` may follow the first. -/
theorem bindOf {F' : List TokenKind} (hp : FramesAt F' K p q) (hf : ∀ a, Frames F (f a) (g a))
    (hF : ∀ a c b c', f a c = .ok b c' → c.rest = [] → ∀ k ∈ F, k ∈ F') :
    FramesAt F K (p >>= f) (q >>= g) := by
  intro c b c' hc hk hrun
  obtain ⟨a, d, ha, hb⟩ := bind_eq_ok hrun
  obtain ⟨hd, hq⟩ := hp c a d hc hk ha
  obtain ⟨hc', hg⟩ := hf a d b c' (fun t ht => hc t (hd.subset ht)) trivial hb
  refine ⟨hc'.trans hd, fun skip more hmore => ?_⟩
  have hmid : Follows F' d more :=
    ⟨hmore.solid, fun hnil => hF a d b c' hb hnil _ ((hmore.of_suffix hc').first hnil)⟩
  rw [bind_of_ok (hq skip more hmid)]
  exact hg skip more hmore

theorem bind (hp : FramesAt F K p q) (hf : ∀ a, Frames F (f a) (g a)) :
    FramesAt F K (p >>= f) (q >>= g) :=
  hp.bindOf hf fun _ _ _ _ _ _ _ => id

theorem close (hp : FramesAt [] K p q) (hf : ∀ a, Frames F (f a) (g a))
    (hneeds : ∀ a, Needs (f a)) : FramesAt F K (p >>= f) (q >>= g) := by
  refine hp.bindOf hf fun a c b c' hb hnil => ?_
  exact absurd hnil (hneeds a c b c' hb)

theorem never (h : ∀ c a c', K c → p c ≠ .ok a c') : FramesAt F K p q :=
  fun c a c' _ hk hrun => absurd hrun (h c a c' hk)

/-- Where no token is ahead nothing is given. -/
theorem ahead (h : FramesAt F (fun c => c.rest ≠ [] ∧ K c) p q) (hneeds : Needs p) :
    FramesAt F K p q :=
  fun c a c' hc hk hrun => h c a c' hc ⟨hneeds c a c' hrun, hk⟩ hrun

/-! ## §3 Tokens -/

theorem kind {f g : TokenKind → Parser β} (hK : ∀ c, K c → c.rest ≠ [])
    (hf : ∀ k, FramesAt F (fun c => c.kind = k ∧ K c) (f k) (g k)) :
    FramesAt F K (kind >>= f) (kind >>= g) := by
  intro c b c' hc hk hrun
  obtain ⟨hsuffix, hmore⟩ := hf c.kind c b c' hc ⟨rfl, hk⟩ hrun
  refine ⟨hsuffix, fun skip more hfollows => ?_⟩
  rw [kind_bind, kind_within (hK c hk)]
  exact hmore skip more hfollows

/-- Where none of certain kinds stands, none does with more tokens behind: the place is not at the
end, or none of the kinds follows. -/
theorem notMem_within {c c' : Cursor} {skip : Nat} {more : List Token} (h : c.kind ∉ ks)
    (hend : c.rest ≠ [] ∨ Avoids F ks) (hsuffix : c'.rest <:+ c.rest) (hmore : Follows F c' more) :
    (c.within skip more).kind ∉ ks := by
  by_cases hnil : c.rest = []
  · have hfirst : (c.within skip more).kind = firstKind more := by
      rw [Cursor.within, hnil]
      rfl
    rw [hfirst]
    refine hend.elim (absurd hnil) fun hF => ?_
    exact hF _ ((hmore.of_suffix hsuffix).first hnil)
  · rwa [kind_within hnil]

theorem isAt {f g : Bool → Parser β} (hks : .endOfInput ∉ ks)
    (hend : (∀ c, K c → c.rest ≠ []) ∨ Avoids F ks)
    (hyes : FramesAt F (fun c => c.kind ∈ ks ∧ K c) (f true) (g true))
    (hno : FramesAt F (fun c => c.kind ∉ ks ∧ K c) (f false) (g false)) :
    FramesAt F K (isAt ks >>= f) (isAt ks >>= g) := by
  intro c b c' hc hk hrun
  rw [isAt_bind] at hrun
  by_cases h : c.kind ∈ ks
  · rw [decide_eq_true h] at hrun
    obtain ⟨hsuffix, hmore⟩ := hyes c b c' hc ⟨h, hk⟩ hrun
    refine ⟨hsuffix, fun skip more hfollows => ?_⟩
    have hne : c.rest ≠ [] := rest_ne_nil fun hkind => hks (hkind ▸ h)
    rw [isAt_bind, kind_within hne, decide_eq_true h]
    exact hmore skip more hfollows
  · rw [decide_eq_false h] at hrun
    obtain ⟨hsuffix, hmore⟩ := hno c b c' hc ⟨h, hk⟩ hrun
    refine ⟨hsuffix, fun skip more hfollows => ?_⟩
    rw [isAt_bind, decide_eq_false (notMem_within h (hend.imp_left (· c hk)) hsuffix hfollows)]
    exact hmore skip more hfollows

theorem cond (hks : .endOfInput ∉ ks) (hend : (∀ c, K c → c.rest ≠ []) ∨ Avoids F ks)
    (hp : FramesAt F (fun c => c.kind ∈ ks ∧ K c) p q)
    (hp' : FramesAt F (fun c => c.kind ∉ ks ∧ K c) p' q') (hf : ∀ a, Frames F (f a) (g a)) :
    FramesAt F K (Parser.isAt ks >>= fun b => if b then p >>= f else p' >>= f)
      (Parser.isAt ks >>= fun b => if b then q >>= g else q' >>= g) :=
  isAt hks hend (hp.bind hf) (hp'.bind hf)

/-- What is done by the kind of the current token, where few kinds count and none of them
follows. -/
theorem kindAmong {f g : TokenKind → Parser β} {p q : Parser β} (hks : .endOfInput ∉ ks)
    (hF : Avoids F ks) (hf : ∀ k ∈ ks, FramesAt F K (f k) (g k)) (hp : FramesAt F K p q)
    (hother : ∀ k, k ∉ ks → f k = p ∧ g k = q) :
    FramesAt F K (Parser.kind >>= f) (Parser.kind >>= g) := by
  have hform : ∀ {h : TokenKind → Parser β} {r : Parser β}, (∀ k, k ∉ ks → h k = r) →
      (Parser.kind >>= h) = Parser.isAt ks >>= fun b => if b then Parser.kind >>= h else r := by
    intro h r hr
    funext c
    by_cases hc : c.kind ∈ ks
    · simp [hc]
    · simp [hc, hr]
  rw [hform fun k hk => (hother k hk).1, hform fun k hk => (hother k hk).2]
  refine isAt hks (.inr hF) ?_ (fun c b c' hc hk => hp c b c' hc hk.2)
  refine kind (fun c hc => rest_ne_nil fun hend => hks (hend ▸ hc.1)) fun k c b c' hc hk => ?_
  exact hf k (hk.1 ▸ hk.2.1) c b c' hc hk.2.2

theorem take (hK : ∀ c, K c → c.rest ≠ []) :
    FramesAt F K (take .comments) (take .comments) := by
  rintro c _ _ hc hk ⟨⟩
  have hne := hK c hk
  refine ⟨advance_suffix _ c, fun skip more hmore => ?_⟩
  rw [take_run, current_within hne, advance_within hc hmore.solid hne]

theorem takeText (h : FramesAt F K (Parser.take .comments) (Parser.take .comments)) :
    FramesAt F K (takeText .comments) (takeText .comments) :=
  h.bind fun _ => pure

theorem takeOf (hks : .endOfInput ∉ ks) :
    FramesAt F (fun c => c.kind ∈ ks ∧ K c) (Parser.take .comments) (Parser.take .comments) := by
  refine take fun _ hc => ?_
  refine rest_ne_nil fun hend => ?_
  exact hks (hend ▸ hc.1)

theorem expect (hk : k ≠ .endOfInput) :
    FramesAt F K (expect .comments k) (expect .comments k) := by
  intro c t c' hc _ hrun
  obtain ⟨hkind, rfl, rfl⟩ := expect_eq_ok hrun
  have hne : c.rest ≠ [] := rest_ne_nil (hkind ▸ hk)
  refine ⟨advance_suffix _ c, fun skip more hmore => ?_⟩
  rw [expect_run ((kind_within hne).trans hkind), current_within hne,
    advance_within hc hmore.solid hne]

theorem expectText (hk : k ≠ .endOfInput) :
    FramesAt F K (expectText .comments k) (expectText .comments k) :=
  (expect hk).bind fun _ => pure

theorem expectAll (hks : .endOfInput ∉ ks) :
    FramesAt F K (expectAll .comments ks) (expectAll .comments ks) := by
  induction ks generalizing K with
  | nil => exact pure
  | cons k ks ih =>
    obtain ⟨hk, hks⟩ := List.ne_and_not_mem_of_not_mem_cons hks
    apply (expect hk.symm).bind
    intro _
    exact ih hks

theorem accept (hk : .endOfInput ∉ [k]) (hF : Avoids F [k]) :
    FramesAt F K (accept .comments k) (accept .comments k) :=
  isAt hk (.inr hF) ((takeOf hk).bind fun _ => pure) pure

/-- A check of the next kind is framed with what follows it. -/
theorem check {w : TokenKind → Rejection} {p q : Parser β} (hks : .endOfInput ∉ ks)
    (h : FramesAt F (fun c => c.kind ∈ ks ∧ K c) p q) :
    FramesAt F K (do
      if ← Parser.isNotAt ks then Parser.reject (w (← Parser.kind))
      p) (do
      if ← Parser.isNotAt ks then Parser.reject (w (← Parser.kind))
      q) := by
  intro c b c' hc hk hrun
  rw [isNotAt_bind] at hrun
  by_cases hmem : c.kind ∈ ks
  · rw [decide_eq_false (not_not.2 hmem)] at hrun
    obtain ⟨hsuffix, hmore⟩ := h c b c' hc ⟨hmem, hk⟩ hrun
    refine ⟨hsuffix, fun skip more hfollows => ?_⟩
    have hne : c.rest ≠ [] := rest_ne_nil fun hend => hks (hend ▸ hmem)
    rw [isNotAt_bind, kind_within hne, decide_eq_false (not_not.2 hmem)]
    exact hmore skip more hfollows
  · rw [decide_eq_true hmem] at hrun
    cases hrun

theorem lookahead {n : Nat} : FramesAt F K (lookahead n) (lookahead n) := by
  intro c t c' _ _ hrun
  obtain ⟨htoken, rfl⟩ := lookahead_eq_ok hrun
  refine ⟨List.suffix_refl _, fun skip more _ => ?_⟩
  have hsame : (c'.within skip more).rest[n]? = some t := by
    obtain ⟨hlt, -⟩ := List.getElem?_eq_some_iff.1 htoken
    rw [Cursor.within, List.getElem?_append_left hlt, htoken]
  rw [lookahead_run, hsame]
  rfl

/-! ## §4 Loops and nesting -/

section Loops

variable {L : TokenKind → Prop} {go : Parser Bool} {step step' : α → Parser α}

/-- Where more tokens follow, a loop goes on from where it ended without them. -/
theorem loop_append (hlooks : Looks L go) (hgo : Frames [] go go)
    (hstep : ∀ a, FramesAt F (fun c => L c.kind) (step a) (step' a)) {c c' : Cursor} {a b : α}
    (hc : CommentFree c.rest) (hrun : Parser.loop go step a c = .ok b c') :
    c'.rest <:+ c.rest ∧ go c' = .ok false c' ∧ ∀ skip more r d, Follows F c' more →
      Parser.loop go step' b (c'.within skip more) = .ok r d →
      Parser.loop go step' a (c.within skip more) = .ok r d := by
  change loopAt go step (c.rest.length + 1) a c = .ok b c' at hrun
  generalize c.rest.length + 1 = n at hrun
  induction n generalizing a c with
  | zero => cases hrun
  | succ n ih =>
    obtain ⟨hask, rfl⟩ | ⟨e, a', c₂, hask, hround, hlt, hrest⟩ := loopAt_eq_ok_iff.1 hrun
    · obtain ⟨rfl, -⟩ := hlooks c false c' hask
      exact ⟨List.suffix_refl _, hask, fun _ _ _ _ _ => id⟩
    · obtain ⟨rfl, hL⟩ := hlooks c true e hask
      -- A round has read a token, so there was one to ask about.
      have hne : e.rest ≠ [] := List.length_pos_iff.1 (by omega)
      obtain ⟨hsuffix, hframe⟩ := hstep a e a' c₂ hc (hL rfl) hround
      obtain ⟨hc', hstop, hmore⟩ := ih (fun t ht => hc t (hsuffix.subset ht)) hrest
      refine ⟨hc'.trans hsuffix, hstop, fun skip more r d hfollows hnext => ?_⟩
      refine loop_step ((hgo e true e hc trivial hask).2 skip more ⟨hfollows.solid, (absurd · hne)⟩)
        (hframe skip more (hfollows.of_suffix hc')) ?_ (hmore skip more r d hfollows hnext)
      simp only [Cursor.within, List.length_append]
      omega

theorem loop (hlooks : Looks L go) (hgo : Frames F go go)
    (hstep : ∀ a, FramesAt F (fun c => L c.kind) (step a) (step' a)) (a : α) :
    FramesAt F K (loop go step a) (loop go step' a) := by
  intro c b c' hc _ hrun
  obtain ⟨hsuffix, hstop, hmore⟩ := loop_append hlooks hgo.inner hstep hc hrun
  refine ⟨hsuffix, fun skip more hfollows => hmore skip more b _ hfollows (loop_stop ?_)⟩
  exact (hgo c' false c' (fun t ht => hc t (hsuffix.subset ht)) trivial hstop).2 skip more hfollows

theorem many (hlooks : Looks L go) (hgo : Frames F go go)
    (hp : FramesAt F (fun c => L c.kind) p q) : FramesAt F K (many go p) (many go q) :=
  (loop hlooks hgo (fun _ => hp.bind fun _ => pure) []).bind fun _ => pure

end Loops

/-- Asking whether certain kinds do not stand, where something does. -/
theorem asksNot : Frames [] (isNotAt ks) (isNotAt ks) := by
  rintro c _ _ - - ⟨⟩
  refine ⟨List.suffix_refl _, fun skip more hmore => ?_⟩
  have hne : c.rest ≠ [] := fun hnil => List.not_mem_nil (hmore.first hnil)
  rw [isNotAt_run, kind_within hne]

/-- Asking whether certain kinds stand, where none of them follows. -/
theorem asks (hks : .endOfInput ∉ ks) (hF : Avoids F ks) :
    Frames F (Parser.isAt ks) (Parser.isAt ks) := by
  have h : Frames F (Parser.isAt ks >>= fun b => Pure.pure b)
      (Parser.isAt ks >>= fun b => Pure.pure b) :=
    isAt hks (.inr hF) pure pure
  rwa [bind_pure] at h

theorem sepBy {sep : TokenKind} (hsep : .endOfInput ∉ [sep]) (hF : Avoids F [sep])
    (hp : Frames F p q) : FramesAt F K (sepBy .comments sep p) (sepBy .comments sep q) := by
  refine hp.here.bind fun _ => (many looks_isAt (asks hsep hF) ?_).bind fun _ => pure
  exact (take fun _ hc => rest_ne_nil fun hend => hsep (hend ▸ hc)).bind fun _ => hp

/-- A construct that may hold itself, where larger bounds on nesting allow for more. -/
theorem nested {r : Nat → Parser α} (h : ∀ n m, n ≤ m → Frames F (r n) (r m)) :
    FramesAt F K (nested r) (nested r) := by
  intro c a c' hc _ hrun
  obtain ⟨hsuffix, -⟩ := h _ _ (Nat.le_refl _) c a c' hc trivial hrun
  refine ⟨hsuffix, fun skip more hfollows => ?_⟩
  have hle : c.rest.length + 1 ≤ (c.within skip more).rest.length + 1 := by
    simp [Cursor.within]
  exact (h _ _ hle c a c' hc trivial hrun).2 skip more hfollows

/-! ## §5 Forms of expressions -/

open Ladder

section Ladders

variable {operand operand' expr expr' : Parser Tree} {form : OperatorForm}

theorem rung (hks : .endOfInput ∉ ks) (hF : Avoids F ks) (h : Frames F operand operand') :
    FramesAt F K (rung .comments form ks operand) (rung .comments form ks operand') := by
  apply h.here.bind
  intro first
  refine loop looks_isAt (asks hks hF) (fun _ => ?_) first
  refine (take fun _ hc => rest_ne_nil fun hend => hks (hend ▸ hc)).bind fun _ => ?_
  exact h.bind fun _ => pure

theorem choice (hF : Avoids F [.question]) (h : Frames F expr expr') (condition : Tree) :
    FramesAt F K (choice .comments expr condition) (choice .comments expr' condition) := by
  refine isAt (by decide) (.inr hF) ?_ pure
  refine (takeOf (by decide)).bind fun _ => close h.inner (fun _ => ?_) fun _ =>
    (Needs.expect (by decide)).bind
  refine (expect (by decide)).bind fun _ => ?_
  exact h.bind fun _ => pure

theorem parenthesized (h : Frames F expr expr') :
    FramesAt F K (parenthesized .comments expr) (parenthesized .comments expr') := by
  refine (expect (by decide)).bind fun _ => close h.inner (fun _ => ?_) fun _ =>
    (Needs.expect (by decide)).bind
  exact (expect (by decide)).bind fun _ => pure

theorem memberChain (hF : Avoids F [.dot]) (object : Tree) :
    FramesAt F K (memberChain .comments object) (memberChain .comments object) := by
  have hstep : ∀ object, Frames F (memberStep .comments object) (memberStep .comments object) :=
    fun object => (expect (by decide)).bind fun _ =>
      check (w := .expected "identifier after dot") (by decide)
        ((takeText (takeOf (by decide))).bind fun _ => pure)
  apply (hstep object).here.bind
  intro first
  exact loop looks_isAt (asks (by decide) hF) (fun a => (hstep a).here) first

theorem strictArguments (hF : Avoids F [.rightParen]) (h : Frames F expr expr') :
    FramesAt F K (strictArguments .comments expr) (strictArguments .comments expr') := by
  have hclose : ∀ args : List Tree, Frames F
      (do let _ ← Parser.expect .comments .rightParen; return args)
      (do let _ ← Parser.expect .comments .rightParen; return args) :=
    fun _ => (expect (by decide)).bind fun _ => pure
  refine (expect (by decide)).bind fun _ => ?_
  refine isAt (by decide) (.inr hF) (pure.bind hclose) ?_
  refine close (sepBy (by decide) avoids_nil h.inner) hclose fun _ => ?_
  exact (Needs.expect (by decide)).bind

end Ladders

end FramesAt

end Parser

end ShaderBridge
