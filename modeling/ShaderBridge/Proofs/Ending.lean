import ShaderBridge.Grammar.Attribute
import ShaderBridge.Grammar.Ladder
import ShaderBridge.Proofs.Drawing

/-!
# Reading comes to an end

A loop or a nested construct that would go on for ever has the fault `endless`.  This module holds
what is needed to show that a grammar never has it, whatever tokens it meets; that reading only
moves on; and that lists of tokens which a grammar cannot tell apart are read alike.

- `Onward tv c d`: reading may get from `c` to `d`.
- `Pairing`: which places of two lists are compared, and which faults may be met.  A `Setting`
  compares a reading with itself.
- `EndsAt S n P g p q`: from places that `S` compares, with fewer than `n` tokens ahead and the
  first of a kind with `P`, both parsers give the same result and have read at least `g` tokens, or
  have the same fault, which `S` allows.

Two parsers are compared because the bounds on rounds and on nesting may differ.  They never decide
anything: a round of a loop has to read a token (`EndsAt.loop`), and so has a construct before it
may hold itself, for the bound `n` falls by the tokens read (`EndsAt.bind`).
-/

namespace ShaderBridge.Parser

variable {α β : Type} {tv : Trivia}

/-! ## §1 How reading moves -/

/-- Where reading may get to: it stays, or it gets behind one token or more, and then not in front
of one that is passed over. -/
inductive Onward (tv : Trivia) (c : Cursor) : Cursor → Prop
  | stay : Onward tv c c
  | moved {d : Cursor} (pos : c.pos < d.pos) (rest : d.rest = c.rest.drop (d.pos - c.pos))
      (kind : tv.skips d.kind = false) : Onward tv c d

namespace Onward

variable {c d e : Cursor}

theorem suffix (h : Onward tv c d) : d.rest <:+ c.rest := by
  cases h with
  | stay => exact List.suffix_refl _
  | moved _ rest _ => exact rest ▸ List.drop_suffix _ _

theorem pos_le (h : Onward tv c d) : c.pos ≤ d.pos := by
  cases h with
  | stay => exact Nat.le_refl _
  | moved pos _ _ => exact Nat.le_of_lt pos

theorem trans (h : Onward tv c d) (h' : Onward tv d e) : Onward tv c e := by
  cases h' with
  | stay => exact h
  | moved pos' rest' kind' =>
    cases h with
    | stay => exact .moved pos' rest' kind'
    | moved pos rest _ =>
      refine .moved (Nat.lt_trans pos pos') ?_ kind'
      rw [rest', rest, List.drop_drop]
      congr 1
      omega

end Onward

/-- What passing over comments leaves. -/
theorem pastTrivia_stop (tv : Trivia) (pos : Nat) (ts : List Token) :
    pos ≤ (Cursor.pastTrivia tv pos ts).pos ∧
      (Cursor.pastTrivia tv pos ts).rest = ts.drop ((Cursor.pastTrivia tv pos ts).pos - pos) ∧
      tv.skips (Cursor.pastTrivia tv pos ts).kind = false := by
  induction ts generalizing pos with
  | nil => exact ⟨Nat.le_refl _, by simp [Cursor.pastTrivia], by cases tv <;> rfl⟩
  | cons t ts ih =>
    rw [Cursor.pastTrivia]
    split
    · obtain ⟨hpos, hrest, hkind⟩ := ih (pos + 1)
      refine ⟨by omega, ?_, hkind⟩
      rw [hrest, ← List.drop_succ_cons (a := t)]
      congr 1
      omega
    · next h => exact ⟨Nat.le_refl _, by simp, by simpa using h⟩

theorem onward_advance (tv : Trivia) (c : Cursor) : Onward tv c (c.advance tv) := by
  obtain ⟨hpos, hrest, hkind⟩ := pastTrivia_stop tv (c.pos + 1) c.rest.tail
  refine .moved hpos ?_ hkind
  show (Cursor.pastTrivia tv (c.pos + 1) c.rest.tail).rest = _
  rw [hrest, List.drop_tail]
  congr 1
  exact (Nat.sub_add_comm hpos).symm.trans (Nat.add_sub_add_right _ 1 _)

theorem onward_pastTrivia (tv : Trivia) (c : Cursor) :
    Onward tv c (Cursor.pastTrivia tv c.pos c.rest) := by
  obtain ⟨hpos, hrest, hkind⟩ := pastTrivia_stop tv c.pos c.rest
  rcases Nat.eq_or_lt_of_le hpos with heq | hlt
  · generalize Cursor.pastTrivia tv c.pos c.rest = d at heq hrest
    obtain ⟨pos, rest⟩ := c
    obtain ⟨pos', rest'⟩ := d
    cases heq
    rw [Nat.sub_self, List.drop_zero] at hrest
    cases hrest
    exact .stay
  · exact .moved hlt hrest hkind

theorem length_advance_lt {c : Cursor} (hk : c.kind ≠ .endOfInput) :
    (c.advance tv).rest.length < c.rest.length := by
  obtain ⟨pos, ts⟩ := c
  obtain ⟨t, rest, rfl, -⟩ := exists_cons_of_firstKind hk
  exact Nat.lt_succ_of_le (pastTrivia_suffix tv (pos + 1) rest).length_le

/-! ## §2 Readings side by side -/

/-- Which places of two lists of tokens are compared, which of the tokens ahead count, what kinds of
token are met, and what faults may be met. -/
structure Pairing (tv : Trivia) where
  paired : Cursor → Cursor → Prop
  ahead : List Token → Nat
  kinds : TokenKind → Prop
  faults : Fault → Prop
  rejected (why : Rejection) : faults (.rejected why)
  current_eq {c d : Cursor} (h : paired c d) : d.current = c.current
  kind {c d : Cursor} (h : paired c d) : kinds c.kind
  advance {c d : Cursor} (h : paired c d) : paired (c.advance tv) (d.advance tv)
  skip {c d : Cursor} (h : paired c d) :
    paired (Cursor.pastTrivia tv c.pos c.rest) (Cursor.pastTrivia tv d.pos d.rest)
  ahead_le {ts us : List Token} (h : us <:+ ts) : ahead us ≤ ahead ts
  ahead_lt {c d : Cursor} (h : paired c d) (hk : c.kind ≠ .endOfInput) :
    ahead (c.advance tv).rest < ahead c.rest
  bound {c d : Cursor} (h : paired c d) :
    ahead c.rest ≤ c.rest.length ∧ ahead c.rest ≤ d.rest.length
  /-- Tokens have been read on one side just if they have been read on the other. -/
  round {c d c' d' : Cursor} (h : paired c d) (h' : paired c' d') (hc : c'.rest <:+ c.rest)
    (hd : d'.rest <:+ d.rest) : d'.rest.length < d.rest.length ↔ c'.rest.length < c.rest.length

theorem Pairing.kind_eq (S : Pairing tv) {c d : Cursor} (h : S.paired c d) : d.kind = c.kind :=
  congrArg Token.kind (S.current_eq h)

/-- The kinds of token that a grammar meets, and the faults that it may have.  Every grammar meets
the end of its input and may reject it. -/
structure Setting (tv : Trivia) where
  kinds : TokenKind → Prop
  faults : Fault → Prop
  endOfInput : kinds .endOfInput
  rejected : ∀ why, faults (.rejected why)
  /-- What is known of the tokens ahead, wherever reading is. -/
  ahead : List Token → Prop := fun _ => True
  suffix : ∀ {ts us : List Token}, us <:+ ts → ahead ts → ahead us := by intros; trivial

namespace Setting

/-- Any tokens and any fault. -/
def any (tv : Trivia) : Setting tv where
  kinds _ := True
  faults _ := True
  endOfInput := trivial
  rejected _ := trivial

/-- Any tokens, and any fault but that of going on for ever. -/
def finite (tv : Trivia) : Setting tv where
  kinds _ := True
  faults e := e ≠ .endless
  endOfInput := trivial
  rejected _ := nofun

/-- Tokens of certain kinds, and no fault but rejections. -/
def strict (kinds : TokenKind → Prop) (endOfInput : kinds .endOfInput) : Setting tv where
  kinds := kinds
  faults e := ∃ why, e = .rejected why
  endOfInput := endOfInput
  rejected why := ⟨why, rfl⟩

/-- The tokens ahead are such as are met. -/
structure Meets (S : Setting tv) (c : Cursor) : Prop where
  kinds : ∀ t ∈ c.rest, S.kinds t.kind
  ahead : S.ahead c.rest

variable {S : Setting tv} {c d : Cursor}

theorem Meets.kind (h : S.Meets c) : S.kinds c.kind := by
  obtain ⟨pos, ts⟩ := c
  cases ts with
  | nil => exact S.endOfInput
  | cons t ts => exact h.kinds t List.mem_cons_self

theorem Meets.behind (h : S.Meets c) (hs : d.rest <:+ c.rest) : S.Meets d :=
  ⟨fun t ht => h.kinds t (hs.subset ht), S.suffix hs h.ahead⟩

/-- A reading is compared with itself. -/
def pair (S : Setting tv) : Pairing tv where
  paired c d := c = d ∧ S.Meets c
  ahead := List.length
  kinds := S.kinds
  faults := S.faults
  rejected := S.rejected
  current_eq h := congrArg Cursor.current h.1.symm
  kind h := h.2.kind
  advance h := ⟨congrArg _ h.1, h.2.behind (advance_suffix tv _)⟩
  skip h := ⟨h.1 ▸ rfl, h.2.behind (pastTrivia_suffix tv _ _)⟩
  ahead_le h := h.length_le
  ahead_lt _ hk := length_advance_lt hk
  bound h := ⟨Nat.le_refl _, h.1 ▸ Nat.le_refl _⟩
  round h h' _ _ := by rw [h.1, h'.1]

theorem paired_finite (c : Cursor) : (finite tv).pair.paired c c :=
  ⟨rfl, fun _ _ => trivial, trivial⟩

end Setting

/-- How one run ends. -/
def Setting.Settles (S : Setting tv) (g : Nat) (c : Cursor) : EStateM.Result Fault Cursor α → Prop
  | .ok _ c' => Onward tv c c' ∧ c'.rest.length + g ≤ c.rest.length
  | .error e c' => Onward tv c c' ∧ S.faults e

/-- How two runs end: with the same result and at least `g` tokens read, or with the same fault,
which is allowed. -/
inductive Matches (S : Pairing tv) (g : Nat) (c d : Cursor) :
    EStateM.Result Fault Cursor α → EStateM.Result Fault Cursor α → Prop
  | ok {a : α} {c' d' : Cursor} (paired : S.paired c' d') (left : Onward tv c c')
      (right : Onward tv d d') (read : S.ahead c'.rest + g ≤ S.ahead c.rest) :
      Matches S g c d (.ok a c') (.ok a d')
  | error {e : Fault} {c' d' : Cursor} (left : Onward tv c c') (right : Onward tv d d')
      (fault : S.faults e) : Matches S g c d (.error e c') (.error e d')

namespace Matches

variable {S : Pairing tv} {g j : Nat} {c d c' d' : Cursor} {r s : EStateM.Result Fault Cursor α}

theorem stay {a : α} (h : S.paired c d) : Matches S 0 c d (.ok a c) (.ok a d) :=
  .ok h .stay .stay (Nat.le_refl _)

theorem fault {e : Fault} (he : S.faults e) :
    Matches S g c d (.error e c : EStateM.Result Fault Cursor α) (.error e d) :=
  .error .stay .stay he

theorem of_le (h : Matches S g c d r s) (hj : j ≤ g) : Matches S j c d r s := by
  cases h with
  | ok h left right read => exact .ok h left right (Nat.le_trans (Nat.add_le_add_left hj _) read)
  | error left right h => exact .error left right h

/-- Runs that start behind `j` tokens, seen from in front of them. -/
theorem behind (h : Matches S g c' d' r s) (left : Onward tv c c') (right : Onward tv d d')
    (read : S.ahead c'.rest + j ≤ S.ahead c.rest) : Matches S (j + g) c d r s := by
  cases h with
  | ok h left' right' read' => exact .ok h (left.trans left') (right.trans right') (by omega)
  | error left' right' h => exact .error (left.trans left') (right.trans right') h

/-- Runs that start behind the current token. -/
theorem next (h : Matches S j (c.advance tv) (d.advance tv) r s) (hcd : S.paired c d)
    (hk : c.kind ≠ .endOfInput) : Matches S (1 + j) c d r s :=
  h.behind (onward_advance tv c) (onward_advance tv d) (S.ahead_lt hcd hk)

theorem settles {U : Setting tv} (h : Matches U.pair g c c r r) : U.Settles g c r := by
  cases h with
  | ok _ left _ read => exact ⟨left, read⟩
  | error left _ fault => exact ⟨left, fault⟩

theorem bind {p q : Parser α} {f f' : α → Parser β} (hp : Matches S g c d (p c) (q d))
    (hf : ∀ a c' d', p c = .ok a c' → S.paired c' d' → Onward tv c c' → Onward tv d d' →
      S.ahead c'.rest + g ≤ S.ahead c.rest → Matches S j c' d' (f a c') (f' a d')) :
    Matches S (g + j) c d ((p >>= f) c) ((q >>= f') d) := by
  generalize hpc : p c = r at hp
  generalize hqd : q d = s at hp
  cases hp with
  | ok h left right read =>
    rw [bind_of_ok hpc, bind_of_ok hqd]
    exact (hf _ _ _ hpc h left right read).behind left right read
  | error left right h =>
    rw [bind_of_error hpc, bind_of_error hqd]
    exact .error left right h

end Matches

/-- From places that are compared, with fewer than `n` tokens ahead and the first of a kind with
`P`, the two parsers end alike, and with at least `g` tokens read if they give a result. -/
def EndsAt (S : Pairing tv) (n : Nat) (P : TokenKind → Prop) (g : Nat) (p q : Parser α) : Prop :=
  ∀ c d, S.paired c d → S.ahead c.rest < n → P c.kind → Matches S g c d (p c) (q d)

/-- The same whatever token stands in front. -/
abbrev Agrees (S : Pairing tv) (n g : Nat) (p q : Parser α) : Prop :=
  EndsAt S n (fun _ => True) g p q

/-- The same of one parser. -/
abbrev Ends (S : Pairing tv) (n g : Nat) (p : Parser α) : Prop := Agrees S n g p p

namespace EndsAt

variable {S : Pairing tv} {U : Setting tv} {n m g j : Nat} {P Q : TokenKind → Prop}
  {p p' q q' : Parser α} {f f' : α → Parser β} {k : TokenKind} {ks : List TokenKind}

theorem settles (h : EndsAt U.pair n P g p p) {c : Cursor} (hc : U.Meets c)
    (hlt : c.rest.length < n) (hk : P c.kind) : U.Settles g c (p c) :=
  (h c c ⟨rfl, hc⟩ hlt hk).settles

/-- What is shown for any number of tokens holds at every place. -/
theorem anywhere (h : ∀ n, EndsAt (Setting.finite tv).pair n P g p q) (c : Cursor)
    (hk : P c.kind) : Matches (Setting.finite tv).pair g c c (p c) (q c) :=
  h _ c c (Setting.paired_finite c) (Nat.lt_succ_self _) hk

theorem mono (h : EndsAt S n P g p q) (hm : m ≤ n) (hQ : ∀ k, Q k → P k) (hj : j ≤ g) :
    EndsAt S m Q j p q := by
  intro c d hcd hlt hk
  exact (h c d hcd (Nat.lt_of_lt_of_le hlt hm) (hQ _ hk)).of_le hj

theorem none : EndsAt S 0 P g p q := by
  intro _ _ _ hlt
  exact absurd hlt (Nat.not_lt_zero _)

theorem here (h : Agrees S n g p q) : EndsAt S n P g p q :=
  h.mono (Nat.le_refl n) (fun _ _ => trivial) (Nat.le_refl g)

theorem known {k : TokenKind} (h : EndsAt S n P g p q) (hk : P k) : EndsAt S n (· = k) g p q :=
  h.mono (Nat.le_refl n) (fun _ hk' => hk' ▸ hk) (Nat.le_refl g)

theorem loose (h : EndsAt S n P 1 p q) : EndsAt S n P 0 p q :=
  h.mono (Nat.le_refl n) (fun _ hk => hk) (Nat.zero_le 1)

theorem within (h : EndsAt S n P g p q) (hm : m ≤ n) : EndsAt S m P g p q :=
  h.mono hm (fun _ hk => hk) (Nat.le_refl g)

/-! ## §3 Parsers in sequence -/

theorem pure {a : α} : EndsAt S n P 0 (pure a) (pure a) := by
  intro _ _ hcd _ _
  exact .stay hcd

theorem throw {e : Fault} (he : S.faults e) :
    EndsAt S n P g (throw e : Parser α) (throw e) := by
  intro _ _ _ _ _
  exact .fault he

theorem reject {why : Rejection} : EndsAt S n P g (reject why : Parser α) (reject why) :=
  throw (S.rejected why)

theorem rejectThen {why : Rejection} :
    EndsAt S n P g (Parser.reject why >>= f) (Parser.reject why >>= f') := by
  intro _ _ _ _ _
  exact .fault (S.rejected why)

/-- Of two parsers in sequence, the second meets what the first leaves. -/
theorem bind (hp : EndsAt S n P g p q) (hf : ∀ a, Agrees S (n - g) j (f a) (f' a)) :
    EndsAt S n P (g + j) (p >>= f) (q >>= f') := by
  intro c d hcd hlt hk
  apply (hp c d hcd hlt hk).bind
  intro a c' d' _ hcd' _ _ read
  exact hf a c' d' hcd' (by omega) trivial

theorem seq (hp : EndsAt S n P 0 p q) (hf : ∀ a, Agrees S n g (f a) (f' a)) :
    EndsAt S n P g (p >>= f) (q >>= f') :=
  Nat.zero_add g ▸ hp.bind hf

/-- A parser in front that reads a token, behind which fewer are ahead. -/
theorem lead (hp : EndsAt S n P 1 p q) (hf : ∀ a, Agrees S (n - 1) 0 (f a) (f' a)) :
    EndsAt S n P 1 (p >>= f) (q >>= f') :=
  hp.bind hf

theorem map {h : α → β} (hp : EndsAt S n P g p q) : EndsAt S n P g (h <$> p) (h <$> q) := by
  rw [← bind_pure_comp, ← bind_pure_comp]
  exact hp.bind fun _ => pure

theorem ite {b : Prop} [Decidable b] (hp : b → EndsAt S n P g p q)
    (hp' : ¬b → EndsAt S n P g p' q') :
    EndsAt S n P g (if b then p else p') (if b then q else q') := by
  by_cases hb : b
  · rw [if_pos hb, if_pos hb]
    exact hp hb
  · rw [if_neg hb, if_neg hb]
    exact hp' hb

/-! ## §4 Tokens -/

theorem current {f f' : Token → Parser β}
    (hf : ∀ t, P t.kind → S.kinds t.kind → EndsAt S n (· = t.kind) g (f t) (f' t)) :
    EndsAt S n P g (current >>= f) (current >>= f') := by
  intro c d hcd hlt hk
  show Matches S g c d (f c.current c) (f' d.current d)
  rw [S.current_eq hcd]
  exact hf c.current hk (S.kind hcd) c d hcd hlt rfl

theorem text : EndsAt S n P 0 text text := current fun _ _ _ => pure

theorem kind {f f' : TokenKind → Parser β}
    (hf : ∀ k, P k → S.kinds k → EndsAt S n (· = k) g (f k) (f' k)) :
    EndsAt S n P g (kind >>= f) (kind >>= f') := by
  intro c d hcd hlt hk
  rw [kind_bind, kind_bind, S.kind_eq hcd]
  exact hf c.kind hk (S.kind hcd) c d hcd hlt rfl

theorem isAt {f f' : Bool → Parser β} (hyes : EndsAt S n (· ∈ ks) g (f true) (f' true))
    (hno : EndsAt S n (fun k => k ∉ ks ∧ P k) g (f false) (f' false)) :
    EndsAt S n P g (isAt ks >>= f) (isAt ks >>= f') := by
  intro c d hcd hlt hk
  rw [isAt_bind, isAt_bind, S.kind_eq hcd]
  by_cases h : c.kind ∈ ks
  · rw [decide_eq_true h]
    exact hyes c d hcd hlt h
  · rw [decide_eq_false h]
    exact hno c d hcd hlt ⟨h, hk⟩

theorem isNotAt {f f' : Bool → Parser β} (hyes : EndsAt S n P g (f true) (f' true))
    (hno : EndsAt S n (· ∈ ks) g (f false) (f' false)) :
    EndsAt S n P g (isNotAt ks >>= f) (isNotAt ks >>= f') := by
  intro c d hcd hlt hk
  rw [isNotAt_bind, isNotAt_bind, S.kind_eq hcd]
  by_cases h : c.kind ∈ ks
  · rw [decide_eq_false (not_not.2 h)]
    exact hno c d hcd hlt h
  · rw [decide_eq_true h]
    exact hyes c d hcd hlt hk

theorem cond (hp : EndsAt S n (· ∈ ks) 0 p q) (hp' : EndsAt S n (fun k => k ∉ ks ∧ P k) 0 p' q')
    (hf : ∀ a, Agrees S n g (f a) (f' a)) :
    EndsAt S n P g (Parser.isAt ks >>= fun b => if b then p >>= f else p' >>= f)
      (Parser.isAt ks >>= fun b => if b then q >>= f' else q' >>= f') :=
  isAt (hp.seq hf) (hp'.seq hf)

theorem check {w : TokenKind → Rejection} (h : EndsAt S n (· ∈ ks) g p q) :
    EndsAt S n P g (do
      if ← Parser.isNotAt ks then Parser.reject (w (← Parser.kind))
      p) (do
      if ← Parser.isNotAt ks then Parser.reject (w (← Parser.kind))
      q) :=
  isNotAt (kind fun _ _ _ => rejectThen) h

/-- Only at the end may a token be taken without being read. -/
theorem take (hP : ¬P .endOfInput) : EndsAt S n P 1 (take tv) (take tv) := by
  intro c d hcd _ hk
  rw [take_run, take_run, S.current_eq hcd]
  exact .ok (S.advance hcd) (onward_advance tv c) (onward_advance tv d)
    (S.ahead_lt hcd fun hend => hP (hend ▸ hk))

theorem take_any : EndsAt S n P 0 (Parser.take tv) (Parser.take tv) := by
  intro c d hcd _ _
  rw [take_run, take_run, S.current_eq hcd]
  exact .ok (S.advance hcd) (onward_advance tv c) (onward_advance tv d)
    (S.ahead_le (advance_suffix tv c))

theorem takeText (hP : ¬P .endOfInput) : EndsAt S n P 1 (takeText tv) (takeText tv) :=
  (take hP).lead fun _ => pure

theorem takeText_any : EndsAt S n P 0 (Parser.takeText tv) (Parser.takeText tv) :=
  take_any.seq fun _ => pure

/-- A token of one of certain kinds, when the end is none of them. -/
theorem takeOf (h : .endOfInput ∉ ks) : EndsAt S n (· ∈ ks) 1 (Parser.take tv) (Parser.take tv) :=
  take h

theorem takeTextOf (h : .endOfInput ∉ ks) :
    EndsAt S n (· ∈ ks) 1 (Parser.takeText tv) (Parser.takeText tv) :=
  takeText h

theorem takeTextIn (hk : k ∈ ks) (h : .endOfInput ∉ ks) :
    EndsAt S n (· = k) 1 (Parser.takeText tv) (Parser.takeText tv) := by
  refine takeText fun hend => ?_
  exact h (hend ▸ hk)

/-- A token of the wanted kind is taken, and any other is rejected on both sides alike. -/
theorem expectOf (h : EndsAt S n (· = k) g (Parser.take tv) (Parser.take tv)) :
    EndsAt S n P g (expect tv k) (expect tv k) := by
  intro c d hcd hlt _
  by_cases hk : c.kind = k
  · rw [expect_run hk, expect_run ((S.kind_eq hcd).trans hk)]
    exact h c d hcd hlt hk
  · have hk' : d.kind ≠ k := S.kind_eq hcd ▸ hk
    rw [expect_run_of_ne hk, expect_run_of_ne hk', S.current_eq hcd]
    exact .fault (S.rejected _)

theorem expect (hk : k ≠ .endOfInput) : EndsAt S n P 1 (expect tv k) (expect tv k) :=
  expectOf (take hk.symm)

theorem expect_any : EndsAt S n P 0 (Parser.expect tv k) (Parser.expect tv k) := expectOf take_any

theorem expectText (hk : k ≠ .endOfInput) : EndsAt S n P 1 (expectText tv k) (expectText tv k) :=
  (expect hk).lead fun _ => pure

theorem expectText_any : EndsAt S n P 0 (Parser.expectText tv k) (Parser.expectText tv k) :=
  expect_any.seq fun _ => pure

/-- A token of certain kinds, or one of the wanted kind. -/
theorem condText {f f' : Tree → Parser β} (hks : .endOfInput ∉ ks) (hk : k ≠ .endOfInput)
    (hf : ∀ t, Agrees S (n - 1) 0 (f t) (f' t)) :
    EndsAt S n P 1
      (Parser.isAt ks >>= fun b =>
        if b then Parser.takeText tv >>= f else Parser.expectText tv k >>= f)
      (Parser.isAt ks >>= fun b =>
        if b then Parser.takeText tv >>= f' else Parser.expectText tv k >>= f') :=
  isAt ((takeTextOf hks).lead hf) ((expectText hk).lead hf)

theorem expectAll_any : EndsAt S n P 0 (expectAll tv ks) (expectAll tv ks) := by
  induction ks generalizing P with
  | nil => exact pure
  | cons k ks ih => exact expect_any.seq fun _ => ih

theorem expectAll (hk : k ≠ .endOfInput) :
    EndsAt S n P 1 (Parser.expectAll tv (k :: ks)) (Parser.expectAll tv (k :: ks)) :=
  (expect hk).lead fun _ => expectAll_any

theorem accept : EndsAt S n P 0 (accept tv k) (accept tv k) :=
  isAt (take_any.seq fun _ => pure) pure

theorem skipTrivia : EndsAt S n P 0 (skipTrivia tv) (skipTrivia tv) := by
  intro c d hcd _ _
  exact .ok (S.skip hcd) (onward_pastTrivia tv c) (onward_pastTrivia tv d)
    (S.ahead_le (pastTrivia_suffix tv c.pos c.rest))

theorem expectText_never {f f' : Tree → Parser β} (h : ∀ l, P l → l ≠ k) :
    EndsAt S n P g (Parser.expectText tv k >>= f) (Parser.expectText tv k >>= f') := by
  intro c d hcd _ hk
  have hck := h _ hk
  have hdk : d.kind ≠ k := S.kind_eq hcd ▸ hck
  rw [Parser.expectText, bind_of_error (bind_of_error (expect_run_of_ne hck)),
    bind_of_error (bind_of_error (expect_run_of_ne hdk)), S.current_eq hcd]
  exact .fault (S.rejected _)

/-- A token further on may be missing. -/
theorem lookahead {i : Nat} (h : ∀ c, U.Meets c → P c.kind → c.rest.length ≤ i →
    U.faults .outOfRange) : EndsAt U.pair n P 0 (lookahead i) (lookahead i) := by
  rintro c _ ⟨rfl, hc⟩ _ hk
  rw [lookahead_run]
  cases ht : c.rest[i]? with
  | some t => exact .stay ⟨rfl, hc⟩
  | none => exact .fault (h c hc hk (List.getElem?_eq_none_iff.1 ht))

end EndsAt

/-! ## §5 Tokens of a source -/

/-- Tokens as a source is cut into: each has a text, and the end is the last. -/
structure Genuine (ts : List Token) : Prop where
  texted : ∀ t ∈ ts, t.kind ≠ .endOfInput → t.text.isSome
  closed : ∀ t, [t] <:+ ts → t.kind = .endOfInput

/-- In front of tokens that no source has, every fault is allowed but that of going on for ever. -/
def Setting.Lenient (S : Setting tv) : Prop :=
  ∀ ts, S.ahead ts → ¬Genuine ts → ∀ e, e ≠ .endless → S.faults e

theorem Setting.lenient_finite : (Setting.finite tv).Lenient := fun _ _ _ _ he => he

/-- The value is a text, where one that is none is not allowed for. -/
def Setting.Worded (S : Setting tv) (t : Tree) : Prop := (∃ s, t = .text s) ∨ S.faults .wrongSort

namespace EndsAt

variable {S : Setting tv} {n g j : Nat} {P : TokenKind → Prop} {f : Tree → Parser β}
  {k : TokenKind}

theorem worded (hS : S.Lenient) {c : Cursor} (hc : S.Meets c) (hk : c.kind ≠ .endOfInput) :
    S.Worded (Tree.ofText? c.current.text) := by
  by_cases h : Genuine c.rest
  · have htexted : Texted c := h.texted
    exact .inl (htexted.exists_text hk)
  · exact .inr (hS _ hc.ahead h _ nofun)

/-- The text of a token in front of a parser that takes it for one. -/
theorem takeText_worded (hS : S.Lenient) (hP : ¬P .endOfInput)
    (hf : ∀ t, S.Worded t → Ends S.pair (n - 1) j (f t)) :
    EndsAt S.pair n P (1 + j) (Parser.takeText tv >>= f) (Parser.takeText tv >>= f) := by
  rintro c _ ⟨rfl, hc⟩ hlt hk
  have hend : c.kind ≠ .endOfInput := fun h => hP (h ▸ hk)
  have hfewer : (c.advance tv).rest.length < n - 1 :=
    Nat.lt_of_lt_of_le (length_advance_lt hend) (Nat.le_pred_of_lt hlt)
  have hnext := hf _ (worded hS hc hend) _ _ ⟨rfl, hc.behind (advance_suffix tv c)⟩ hfewer trivial
  rw [takeText_bind]
  exact hnext.next ⟨rfl, hc⟩ hend

/-- The text of a token of a certain kind in front of a parser that takes it for one. -/
theorem expectText_worded (hS : S.Lenient) (hk : k ≠ .endOfInput)
    (hf : ∀ t, S.Worded t → Ends S.pair (n - 1) j (f t)) :
    EndsAt S.pair n P (1 + j) (Parser.expectText tv k >>= f) (Parser.expectText tv k >>= f) := by
  intro c d hcd hlt hP
  by_cases h : c.kind = k
  · obtain ⟨rfl, hc⟩ := hcd
    have hrun : Parser.expectText tv k c = .ok (Tree.ofText? c.current.text) (c.advance tv) := by
      rw [Parser.expectText, bind_of_ok (expect_run h)]
      rfl
    rw [bind_of_ok hrun]
    exact takeText_worded (P := (· = k)) hS hk.symm hf c c ⟨rfl, hc⟩ hlt h
  · exact expectText_never (P := (· ≠ k)) (fun _ h => h) c d hcd hlt h

end EndsAt

/-! ## §6 Loops and nesting -/

/-- Asking whether to go on reads nothing, and the answer yes says something about the current
token. -/
def Asks (S : Pairing tv) (Q : TokenKind → Prop) (go : Parser Bool) : Prop :=
  ∀ c d, S.paired c d →
    (∃ again, go c = .ok again c ∧ go d = .ok again d ∧ (again = true → Q c.kind)) ∨
      ∃ e, go c = .error e c ∧ go d = .error e d ∧ S.faults e

theorem asks_isAt {S : Pairing tv} {ks : List TokenKind} : Asks S (· ∈ ks) (isAt ks) := by
  intro c d hcd
  exact .inl ⟨_, isAt_run _ ks, by rw [isAt_run, S.kind_eq hcd], of_decide_eq_true⟩

theorem asks_isNotAt {S : Pairing tv} {ks : List TokenKind} : Asks S (· ∉ ks) (isNotAt ks) := by
  intro c d hcd
  exact .inl ⟨_, isNotAt_run _ ks, by rw [isNotAt_run, S.kind_eq hcd], of_decide_eq_true⟩

namespace EndsAt

variable {S : Pairing tv} {U : Setting tv} {n g : Nat} {P Q : TokenKind → Prop} {p q : Parser α}
  {go : Parser Bool} {step step' : α → Parser α} {a : α} {ks : List TokenKind} {c d : Cursor}

/-- A round of a loop reads a token, unless going on for ever is allowed, and the loop goes on
behind it. -/
theorem round {i j : Nat} (hg : 1 ≤ g ∨ S.faults .endless) (hcd : S.paired c d)
    (hlt : S.ahead c.rest < n) (hQ : Q c.kind) (hstep : EndsAt S n Q g (step a) (step' a))
    (hmore : ∀ a' c' d', step a c = .ok a' c' → S.paired c' d' → S.ahead c'.rest < n →
      c'.rest.length < c.rest.length → d'.rest.length < d.rest.length →
      Matches S 0 c' d' (Parser.loopAt go step i a' c') (Parser.loopAt go step' j a' d')) :
    Matches S g c d
      ((step a >>= fun a' c' =>
        if c'.rest.length < c.rest.length then Parser.loopAt go step i a' c'
        else .error .endless c') c)
      ((step' a >>= fun a' d' =>
        if d'.rest.length < d.rest.length then Parser.loopAt go step' j a' d'
        else .error .endless d') d) := by
  refine (hstep c d hcd hlt hQ).bind (j := 0) fun a' c' d' hrun hcd' left right read => ?_
  have hread := S.round hcd hcd' left.suffix right.suffix
  show Matches S 0 c' d' (if _ then _ else _) (if _ then _ else _)
  by_cases hc : c'.rest.length < c.rest.length
  · rw [if_pos hc, if_pos (hread.2 hc)]
    exact hmore a' c' d' hrun hcd' (by omega) hc (hread.2 hc)
  · rw [if_neg hc, if_neg (mt hread.1 hc)]
    refine .fault (hg.resolve_left fun hg => ?_)
    -- Where no token has been read, the tokens ahead are the same.
    have hsame : c'.rest = c.rest :=
      left.suffix.eq_of_length (Nat.le_antisymm left.suffix.length_le (Nat.le_of_not_lt hc))
    rw [hsame] at read
    omega

/-- Two runs of a loop match if each has more rounds than tokens ahead. -/
theorem loopAt {I : α → Prop} {i j : Nat} (hg : 1 ≤ g ∨ S.faults .endless) (hgo : Asks S Q go)
    (hstep : ∀ a, I a → EndsAt S n Q g (step a) (step' a))
    (hI : ∀ a c a' c', I a → step a c = .ok a' c' → I a') (hcd : S.paired c d)
    (hlt : S.ahead c.rest < n) (hi : c.rest.length < i) (hj : d.rest.length < j) (ha : I a) :
    Matches S 0 c d (loopAt go step i a c) (loopAt go step' j a d) := by
  -- The induction is on the rounds that are left, of which there are more than tokens.
  induction i generalizing j a c d with
  | zero => omega
  | succ i ih =>
    obtain ⟨j, rfl⟩ : ∃ j', j = j' + 1 := ⟨j - 1, by omega⟩
    rw [loopAt_succ, loopAt_succ]
    rcases hgo c d hcd with ⟨again, hc, hd, hQ⟩ | ⟨e, hc, hd, he⟩
    · rw [bind_of_ok hc, bind_of_ok hd]
      cases again with
      | false => exact .stay hcd
      | true =>
        refine Matches.of_le (round hg hcd hlt (hQ rfl) (hstep a ha) ?_) (Nat.zero_le g)
        intro a' c' d' hrun hcd' hlt' hless hless'
        exact ih hcd' hlt' (by omega) (by omega) (hI a c a' c' ha hrun)
    · rw [bind_of_error hc, bind_of_error hd]
      exact .fault he

theorem loop_of {I : α → Prop} (hg : 1 ≤ g ∨ S.faults .endless) (hgo : Asks S Q go)
    (hstep : ∀ a, I a → EndsAt S n Q g (step a) (step' a))
    (hI : ∀ a c a' c', I a → step a c = .ok a' c' → I a') (ha : I a) :
    EndsAt S n P 0 (loop go step a) (loop go step' a) := by
  intro _ _ hcd hlt _
  exact loopAt hg hgo hstep hI hcd hlt (Nat.lt_succ_self _) (Nat.lt_succ_self _) ha

theorem loop (hgo : Asks S Q go) (hstep : ∀ a, EndsAt S n Q 1 (step a) (step' a)) (a : α) :
    EndsAt S n P 0 (loop go step a) (loop go step' a) :=
  loop_of (I := fun _ => True) (.inl (Nat.le_refl 1)) hgo (fun a _ => hstep a)
    (fun _ _ _ _ _ _ => trivial) trivial

/-- Where going on for ever is allowed, a round need not read a token. -/
theorem loop_waiting (hS : S.faults .endless) (hgo : Asks S Q go)
    (hstep : ∀ a, EndsAt S n Q 0 (step a) (step' a)) (a : α) :
    EndsAt S n P 0 (Parser.loop go step a) (Parser.loop go step' a) :=
  loop_of (I := fun _ => True) (.inr hS) hgo (fun a _ => hstep a)
    (fun _ _ _ _ _ _ => trivial) trivial

/-- A loop that has to make a round reads a token. -/
theorem loop_some (hstep : ∀ a, EndsAt S n (· ∈ ks) 1 (step a) (step' a)) (a : α) :
    EndsAt S n (· ∈ ks) 1 (Parser.loop (Parser.isAt ks) step a)
      (Parser.loop (Parser.isAt ks) step' a) := by
  intro c d hcd hlt hk
  show Matches S 1 c d (Parser.loopAt (Parser.isAt ks) step (c.rest.length + 1) a c)
    (Parser.loopAt (Parser.isAt ks) step' (d.rest.length + 1) a d)
  rw [loopAt_succ, loopAt_succ, isAt_bind, isAt_bind, S.kind_eq hcd, decide_eq_true hk]
  refine round (.inl (Nat.le_refl 1)) hcd hlt hk (hstep a) fun a' c' d' _ hcd' hlt' hc hd => ?_
  exact loopAt (I := fun _ => True) (.inl (Nat.le_refl 1)) asks_isAt (fun a _ => hstep a)
    (fun _ _ _ _ _ _ => trivial) hcd' hlt' hc hd trivial

theorem many (hgo : Asks S Q go) (hp : EndsAt S n Q 1 p q) :
    EndsAt S n P 0 (many go p) (many go q) :=
  (loop hgo (fun _ => hp.lead fun _ => pure) []).seq fun _ => pure

theorem manyAt (hp : EndsAt S n (· ∈ ks) 1 p q) :
    EndsAt S n P 0 (Parser.many (Parser.isAt ks) p) (Parser.many (Parser.isAt ks) q) :=
  many asks_isAt hp

theorem manyNotAt (hp : EndsAt S n (· ∉ ks) 1 p q) :
    EndsAt S n P 0 (Parser.many (Parser.isNotAt ks) p) (Parser.many (Parser.isNotAt ks) q) :=
  many asks_isNotAt hp

theorem many_some (hp : EndsAt S n (· ∈ ks) 1 p q) :
    EndsAt S n (· ∈ ks) 1 (Parser.many (Parser.isAt ks) p) (Parser.many (Parser.isAt ks) q) :=
  (loop_some (fun _ => hp.lead fun _ => pure) []).lead fun _ => pure

theorem sepBy {sep : TokenKind} (hsep : sep ≠ .endOfInput) (hp : Agrees S n 1 p q) :
    EndsAt S n P 1 (sepBy tv sep p) (sepBy tv sep q) := by
  refine hp.here.lead fun _ => (manyAt ?_).seq fun _ => pure
  refine (takeOf (by simpa using hsep.symm)).lead fun _ => ?_
  exact (hp.within (by omega)).loose

theorem untilClose {sep close : TokenKind} (hp : Agrees S n 1 p q) :
    EndsAt S n P 0 (untilClose tv sep close p) (untilClose tv sep close q) :=
  manyNotAt (hp.here.lead fun _ => accept.seq fun _ => pure)

/-- With bounds on nesting above the number of tokens ahead, it does not matter which they are.  The
parsers may depend on what has been read so far. -/
theorem nestedOn {ι : Type} {p q : Nat → ι → Parser α}
    (h : ∀ m i j, m < n → (∀ x, Agrees S m g (p i x) (q j x)) →
      ∀ x, Agrees S (m + 1) g (p (i + 1) x) (q (j + 1) x)) (x : ι) :
    EndsAt S n P g (nested fun i => p i x) (nested fun j => q j x) := by
  have hlevel : ∀ m, m ≤ n → ∀ i j, m ≤ i → m ≤ j → ∀ x, Agrees S m g (p i x) (q j x) := by
    intro m
    induction m with
    | zero => exact fun _ _ _ _ _ _ => .none
    | succ m ih =>
      intro hm i j hi hj
      obtain ⟨i, rfl⟩ : ∃ i', i = i' + 1 := ⟨i - 1, by omega⟩
      obtain ⟨j, rfl⟩ : ∃ j', j = j' + 1 := ⟨j - 1, by omega⟩
      exact h m i j hm (ih (by omega) i j (by omega) (by omega))
  intro c d hcd hlt _
  obtain ⟨hc, hd⟩ := S.bound hcd
  exact hlevel (S.ahead c.rest + 1) hlt _ _ (by omega) (by omega) x c d hcd (Nat.lt_succ_self _)
    trivial

theorem nested {p q : Nat → Parser α}
    (h : ∀ m i j, m < n → Agrees S m g (p i) (q j) → Agrees S (m + 1) g (p (i + 1)) (q (j + 1))) :
    EndsAt S n P g (nested p) (nested q) :=
  nestedOn (p := fun i (_ : Unit) => p i) (q := fun j _ => q j)
    (fun m i j hm hmore _ => h m i j hm (hmore ())) ()

/-- Where a reading is compared with itself, the bounds are the same. -/
theorem nested_solo {p : Nat → Parser α}
    (h : ∀ m, Ends U.pair m g (p m) → Ends U.pair (m + 1) g (p (m + 1))) :
    EndsAt U.pair n P g (Parser.nested p) (Parser.nested p) := by
  have hlevel (m : Nat) : Ends U.pair m g (p m) := by
    induction m with
    | zero => exact .none
    | succ m ih => exact h m ih
  rintro c _ ⟨rfl, hc⟩ _ _
  exact hlevel _ c c ⟨rfl, hc⟩ (Nat.lt_succ_self _) trivial

/-! ## §7 Ladders -/

open Ladder

section Ladders

variable {operand operand' expr expr' : Parser Tree} {form : OperatorForm} {ops : List TokenKind}

theorem rung (hops : .endOfInput ∉ ops) (h : Agrees S n 1 operand operand') :
    Agrees S n 1 (rung tv form ops operand) (rung tv form ops operand') := by
  apply h.lead
  intro first
  refine loop asks_isAt (fun _ => ?_) first
  refine (takeOf hops).lead fun _ => EndsAt.seq ?_ fun _ => pure
  exact (h.within (by omega)).loose

variable (h : Agrees S n 1 operand operand')

include h

theorem signed : Agrees S n 1 (signed tv form operand) (signed tv form operand') := by
  refine (manyAt (takeOf (by decide))).seq fun _ => ?_
  exact h.lead fun _ => pure

theorem product : Agrees S n 1 (product tv form operand) (product tv form operand') :=
  rung (by decide) h

theorem sum : Agrees S n 1 (sum tv form operand) (sum tv form operand') :=
  rung (by decide) (product h)

theorem relation : Agrees S n 1 (relation tv operand) (relation tv operand') :=
  rung (by decide) (sum h)

theorem equality : Agrees S n 1 (equality tv operand) (equality tv operand') :=
  rung (by decide) (relation h)

theorem conjunction : Agrees S n 1 (conjunction tv operand) (conjunction tv operand') :=
  rung (by decide) (equality h)

theorem disjunction : Agrees S n 1 (disjunction tv operand) (disjunction tv operand') :=
  rung (by decide) (conjunction h)

omit h

theorem choice (h : Agrees S (n - 1) 0 expr expr') (condition : Tree) :
    Agrees S n 0 (choice tv expr condition) (choice tv expr' condition) := by
  refine isAt (EndsAt.loose ?_) pure
  refine (takeOf (by decide)).lead fun _ => ?_
  apply h.seq
  intro _
  apply expect_any.seq
  intro _
  exact h.seq fun _ => pure

theorem parenthesized (h : Agrees S (n - 1) 0 expr expr') :
    Agrees S n 1 (parenthesized tv expr) (parenthesized tv expr') := by
  refine (expect (by decide)).lead fun _ => ?_
  apply h.seq
  intro _
  exact expect_any.seq fun _ => pure

theorem memberStep (object : Tree) : Ends S n 1 (memberStep tv object) := by
  refine (expect (by decide)).lead fun _ => ?_
  exact check (w := .expected "identifier after dot") (takeText_any.seq fun _ => pure)

theorem memberChain (object : Tree) : Ends S n 1 (memberChain tv object) := by
  apply (memberStep object).lead
  intro first
  exact loop asks_isAt (fun object => (memberStep object).here) first

theorem strictArguments (h : Agrees S (n - 1) 1 expr expr') :
    Agrees S n 1 (strictArguments tv expr) (strictArguments tv expr') := by
  refine (expect (by decide)).lead fun _ => ?_
  refine isAt ?_ ?_
  · exact expect_any.seq fun _ => pure
  · refine (sepBy (by decide) h).loose.seq fun _ => ?_
    exact expect_any.seq fun _ => pure

theorem looseArguments (h : Agrees S (n - 1) 1 expr expr') :
    Agrees S n 1 (looseArguments tv expr) (looseArguments tv expr') := by
  refine (expect (by decide)).lead fun _ => ?_
  apply (untilClose h).seq
  intro _
  exact expect_any.seq fun _ => pure

/-- An attribute without a text is a fault. -/
theorem attributes (hS : S.kinds .attributeMark → S.faults .wrongSort) :
    EndsAt S n P 0 (Attribute.attributes tv) (Attribute.attributes tv) := by
  refine manyAt (current fun t ht hmet => ?_)
  split
  · exact (take fun hend => absurd (hend ▸ ht) (by decide)).lead fun _ => pure
  · exact throw (hS (List.mem_singleton.1 ht ▸ hmet))

end Ladders

end EndsAt

end ShaderBridge.Parser
