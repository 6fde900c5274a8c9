import ShaderBridge.Proofs.Generation

/-!
# One generator for many trees

A generator keeps its state from one call to the next, and it keeps it as well when a call ends in
a fault.  `Route.generateAll` has one generator write a list of trees; `Route.generate` takes a new
one for each tree.

- `Gen.left g s`: the state that a call leaves behind.
- `Gen.outcomes g s xs`: what the calls for a list give, one after another.
- `Gen.Steady P Q g`: all states with `P` lead to one and the same outcome, and to states with `Q`.

A generator whose calls are steady in the states they lead to has no memory (`Gen.outcomes_eq_map`).
-/

namespace ShaderBridge

variable {σ α β : Type}

namespace Gen

variable {g : Gen σ α} {s : σ} {a : α}

/-! ## §1 What a call leaves -/

/-- The state that a computation leaves, with a result or with a fault. -/
def left (g : Gen σ α) (s : σ) : σ :=
  match g s with
  | .ok _ s' => s'
  | .error _ s' => s'

theorem left_of_ok {s' : σ} (h : g s = .ok a s') : g.left s = s' := by rw [left, h]

theorem outcome_bind (g : Gen σ α) (f : α → Gen σ β) (s : σ) :
    (g >>= f).outcome s = g.outcome s >>= fun a => (f a).outcome (g.left s) := by
  show Gen.outcome (EStateM.bind g f) s = _
  unfold Gen.outcome left EStateM.bind
  cases g s <;> rfl

theorem left_bind_of_ok {f : α → Gen σ β} (h : g.outcome s = .ok a) :
    (g >>= f).left s = (f a).left (g.left s) := by
  obtain ⟨s', hrun⟩ := exists_of_outcome h
  rw [left_of_ok hrun, left, left, bind_of_ok hrun]

theorem left_bind_of_error {e : Fault} {f : α → Gen σ β} (h : g.outcome s = .error e) :
    (g >>= f).left s = g.left s := by
  show left (EStateM.bind g f) s = _
  unfold Gen.outcome at h
  unfold left EStateM.bind
  cases hrun : g s with
  | ok a s' => simp [hrun] at h
  | error e s' => rfl

@[simp]
theorem left_lift (x : Except Fault α) (s : σ) : (liftM x : Gen σ α).left s = s := by
  cases x <;> rfl

theorem outcome_view (f : σ → Except Fault α) (s : σ) :
    (do liftM (f (← get)) : Gen σ α).outcome s = f s :=
  outcome_lift (s := s) (f s)

theorem left_view (f : σ → Except Fault α) (s : σ) :
    (do liftM (f (← get)) : Gen σ α).left s = s :=
  left_lift (f s) s

/-! ## §2 Many calls -/

/-- What one generator gives for the items of a list.  Each call starts from the state that the one
in front of it left. -/
def outcomes (g : β → Gen σ α) : σ → List β → List (Except Fault α)
  | _, [] => []
  | s, x :: xs => (g x).outcome s :: outcomes g ((g x).left s) xs

/-- The state that the calls for the items of a list leave. -/
def leftAll (g : β → Gen σ α) : σ → List β → σ := List.foldl fun s x => (g x).left s

theorem outcomes_append (g : β → Gen σ α) (s : σ) (xs ys : List β) :
    outcomes g s (xs ++ ys) = outcomes g s xs ++ outcomes g (leftAll g s xs) ys := by
  induction xs generalizing s with
  | nil => rfl
  | cons x xs ih => simp [outcomes, leftAll, ih]

@[simp]
theorem length_outcomes (g : β → Gen σ α) (s : σ) (xs : List β) :
    (outcomes g s xs).length = xs.length := by
  induction xs generalizing s with
  | nil => rfl
  | cons x xs ih => simp [outcomes, ih]

theorem getElem?_outcomes (g : β → Gen σ α) (s : σ) (xs : List β) (x : β) (ys : List β) :
    (outcomes g s (xs ++ x :: ys))[xs.length]? = some ((g x).outcome (leftAll g s xs)) := by
  rw [outcomes_append, List.getElem?_append_right (by simp), length_outcomes, Nat.sub_self]
  rfl

/-! ## §3 Calls that do not depend on the state -/

/-- All states with `P` lead to the same outcome, and to states with `Q`. -/
def Steady (P Q : σ → Prop) (g : Gen σ α) : Prop :=
  ∃ x : Except Fault α, ∀ s, P s → g.outcome s = x ∧ Q (g.left s)

namespace Steady

variable {P Q R : σ → Prop}

theorem pure (a : α) : Steady P P (pure a) := ⟨.ok a, fun _ hs => ⟨rfl, hs⟩⟩

theorem lift (x : Except Fault α) : Steady P P (liftM x) :=
  ⟨x, fun s hs => ⟨outcome_lift x, by rwa [left_lift]⟩⟩

theorem throwThen {e : Fault} {f : α → Gen σ β} (hPQ : ∀ s, P s → Q s) :
    Steady P Q (throw e >>= f) :=
  ⟨.error e, fun s hs => ⟨rfl, hPQ s hs⟩⟩

theorem modify {f : σ → σ} (h : ∀ s, P s → Q (f s)) : Steady P Q (modify f) :=
  ⟨.ok (), fun s hs => ⟨rfl, h s hs⟩⟩

/-- A computation that looks at the state, but is the same in all states with `P`. -/
theorem view {f : σ → Except Fault α} (h : ∀ s s', P s → P s' → f s = f s') :
    Steady P P (do liftM (f (← get)) : Gen σ α) := by
  by_cases hP : ∃ s₀, P s₀
  · obtain ⟨s₀, hs₀⟩ := hP
    refine ⟨f s₀, fun s hs => ?_⟩
    rw [outcome_view, left_view]
    exact ⟨h s s₀ hs hs₀, hs⟩
  · exact ⟨.error .endless, fun s hs => absurd ⟨s, hs⟩ hP⟩

/-- A fault of the first part ends the whole, so its states have to do for the second part too. -/
theorem bind_ok {f : α → Gen σ β} (hg : Steady P Q g)
    (hf : ∀ s a, P s → g.outcome s = .ok a → Steady Q R (f a)) (hQR : ∀ s, Q s → R s) :
    Steady P R (g >>= f) := by
  obtain ⟨x, hx⟩ := hg
  cases x with
  | error e =>
    refine ⟨.error e, fun s hs => ?_⟩
    obtain ⟨houtcome, hleft⟩ := hx s hs
    rw [outcome_bind, houtcome, left_bind_of_error houtcome]
    exact ⟨rfl, hQR _ hleft⟩
  | ok a =>
    by_cases hP : ∃ s₀, P s₀
    · obtain ⟨s₀, hs₀⟩ := hP
      obtain ⟨y, hy⟩ := hf s₀ a hs₀ (hx s₀ hs₀).1
      refine ⟨y, fun s hs => ?_⟩
      obtain ⟨houtcome, hleft⟩ := hx s hs
      rw [outcome_bind, houtcome, left_bind_of_ok houtcome]
      exact hy _ hleft
    · exact ⟨.error .endless, fun s hs => absurd ⟨s, hs⟩ hP⟩

theorem bind {f : α → Gen σ β} (hg : Steady P Q g) (hf : ∀ a, Steady Q R (f a))
    (hQR : ∀ s, Q s → R s) : Steady P R (g >>= f) :=
  hg.bind_ok (fun _ a _ _ => hf a) hQR

theorem viewThen {f : σ → Except Fault α} {f' : α → Gen σ β} (h : ∀ s s', P s → P s' → f s = f s')
    (hf : ∀ a, Steady P R (f' a)) (hPR : ∀ s, P s → R s) :
    Steady P R (do
      let s ← get
      let a ← liftM (f s)
      f' a) := by
  rw [← bind_assoc]
  exact (view h).bind hf hPR

theorem mono (h : Steady P Q g) (hQR : ∀ s, Q s → R s) : Steady P R g := by
  obtain ⟨x, hx⟩ := h
  exact ⟨x, fun s hs => ⟨(hx s hs).1, hQR _ (hx s hs).2⟩⟩

theorem seq {f : α → Gen σ β} (hg : Steady P P g) (hf : ∀ a, Steady P P (f a)) :
    Steady P P (g >>= f) :=
  hg.bind hf fun _ hs => hs

theorem forM {xs : List β} {f : β → Gen σ Unit} (h : ∀ x ∈ xs, Steady P P (f x)) :
    Steady P P (xs.forM f) := by
  induction xs with
  | nil => exact pure ()
  | cons x xs ih =>
    obtain ⟨hx, hxs⟩ := List.forall_mem_cons.1 h
    exact hx.seq fun _ => ih hxs

end Steady

/-- One generator gives what new ones give. -/
theorem outcomes_eq_map {g : β → Gen σ α} {P : σ → Prop} {xs : List β} {s₀ : σ} (hs₀ : P s₀)
    (h : ∀ x ∈ xs, Steady P P (g x)) {s : σ} (hs : P s) :
    outcomes g s xs = xs.map fun x => (g x).outcome s₀ := by
  induction xs generalizing s with
  | nil => rfl
  | cons x xs ih =>
    obtain ⟨⟨y, hy⟩, hxs⟩ := List.forall_mem_cons.1 h
    rw [outcomes, List.map_cons, (hy s hs).1, (hy s₀ hs₀).1, ih hxs (hy s hs).2]

end Gen

/-- The texts of trees at the end of a route, by one generator. -/
def Route.generateAll : Route → List Tree → List (Except Fault Text)
  | forward d, ts => Gen.outcomes (Forward.generate d) {} ts
  | backward d, ts => Gen.outcomes (Backward.generate d) {} ts
  | fromGlsl, ts => Gen.outcomes Backward.Glsl.generate {} ts

/-! ## §4 Trees written alike -/

/-- Two ways to write agree on the trees below a node. -/
def AlikeBelow {ι : Type} (f g : ι → Tree → α) (t : Tree) : Prop :=
  ∀ s : Tree, sizeOf s < sizeOf t → ∀ i, f i s = g i s

namespace AlikeBelow

variable {ι : Type} {f g : ι → Tree → α} {t : Tree} (h : AlikeBelow f g t)
  (x : {u : Tree // sizeOf u < sizeOf t}) (y : {u : Tree // sizeOf u ≤ sizeOf x.1})
  (z : {u : Tree // sizeOf u ≤ sizeOf y.1})

include h

theorem part (i : ι) : f i x.1 = g i x.1 := h x.1 x.2 i

theorem item (i : ι) : f i y.1 = g i y.1 := h y.1 (Nat.lt_of_le_of_lt y.2 x.2) i

theorem inner (i : ι) : f i z.1 = g i z.1 :=
  h z.1 (Nat.lt_of_le_of_lt (Nat.le_trans z.2 y.2) x.2) i

theorem innermost (w : {u : Tree // sizeOf u ≤ sizeOf z.1}) (i : ι) : f i w.1 = g i w.1 :=
  h w.1 (Nat.lt_of_le_of_lt (Nat.le_trans (Nat.le_trans w.2 z.2) y.2) x.2) i

omit h in
/-- What agrees on a tree wherever it does below it is the same. -/
theorem eq (h : ∀ t, AlikeBelow f g t → ∀ i, f i t = g i t) : f = g := by
  funext i t
  induction hn : sizeOf t using Nat.strongRecOn generalizing t i with
  | _ n ih =>
    subst hn
    exact h t (fun s hs i => ih _ hs i s rfl) i

end AlikeBelow

end ShaderBridge
