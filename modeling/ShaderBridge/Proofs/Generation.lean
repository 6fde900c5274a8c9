import Mathlib.Data.List.Forall2
import ShaderBridge.Conversion

/-!
# Runs of generators

How a generator that is put together from others runs, where the parts are known to give a result,
and that it gives a result if its parts do.

- `Succeeds x`: a computation without a state gives a result.
- `Yields x P`: it gives a result that satisfies `P`.
- `Both R x y`: two such computations give results that `R` relates.
- `Gen.Keeps I g`: from every state that satisfies `I`, a generator gives a result and leaves such a
  state.
-/

namespace ShaderBridge

variable {α β : Type}

/-! ## §1 Computations without a state -/

theorem exists_of_bind_ok {x : Except Fault α} {f : α → Except Fault β} {b : β}
    (h : (x >>= f) = .ok b) : ∃ a, x = .ok a ∧ f a = .ok b := by
  cases x with
  | error e => cases h
  | ok a => exact ⟨a, rfl, h⟩

/-- The computation gives a result. -/
def Succeeds (x : Except Fault α) : Prop := ∃ a, x = .ok a

instance (x : Except Fault α) : Decidable (Succeeds x) :=
  match x with
  | .ok a => .isTrue ⟨a, rfl⟩
  | .error _ => .isFalse nofun

theorem Succeeds.ok (a : α) : Succeeds (.ok a) := ⟨a, rfl⟩

/-- The computation gives a result that satisfies `P`. -/
def Yields (x : Except Fault α) (P : α → Prop) : Prop := ∃ a, x = .ok a ∧ P a

namespace Yields

variable {x : Except Fault α} {f : α → Except Fault β} {P : α → Prop} {Q : β → Prop}

theorem ok {a : α} (h : P a) : Yields (.ok a) P := ⟨a, rfl, h⟩

theorem pure {a : α} (h : P a) : Yields (pure a) P := ⟨a, rfl, h⟩

theorem mono {P' : α → Prop} (h : Yields x P) (hP : ∀ a, P a → P' a) : Yields x P' := by
  obtain ⟨a, ha, hPa⟩ := h
  exact ⟨a, ha, hP a hPa⟩

theorem succeeds (h : Yields x P) : Succeeds x := by
  obtain ⟨a, ha, -⟩ := h
  exact ⟨a, ha⟩

theorem bind (hx : Yields x P) (hf : ∀ a, P a → Yields (f a) Q) : Yields (x >>= f) Q := by
  obtain ⟨a, rfl, ha⟩ := hx
  exact hf a ha

theorem mapM {xs : List α} (h : ∀ a ∈ xs, Yields (f a) Q) :
    Yields (xs.mapM f) fun bs => ∀ b ∈ bs, Q b := by
  induction xs with
  | nil => exact pure nofun
  | cons a xs ih =>
    obtain ⟨ha, hxs⟩ := List.forall_mem_cons.1 h
    rw [List.mapM_cons]
    apply ha.bind
    intro b hb
    apply (ih hxs).bind
    intro bs hbs
    refine pure ?_
    exact List.forall_mem_cons.2 ⟨hb, hbs⟩

end Yields

/-- Both computations give a result, and the two results are related. -/
def Both (R : α → β → Prop) (x : Except Fault α) (y : Except Fault β) : Prop :=
  ∃ a b, x = .ok a ∧ y = .ok b ∧ R a b

namespace Both

variable {γ δ : Type} {R : α → β → Prop} {Q : γ → δ → Prop}

theorem pure {a : α} {b : β} (h : R a b) : Both R (pure a) (pure b) := ⟨a, b, rfl, rfl, h⟩

theorem bind {x : Except Fault α} {y : Except Fault β} {f : α → Except Fault γ}
    {g : β → Except Fault δ} (h : Both R x y) (hf : ∀ a b, R a b → Both Q (f a) (g b)) :
    Both Q (x >>= f) (y >>= g) := by
  obtain ⟨a, b, rfl, rfl, hab⟩ := h
  exact hf a b hab

theorem mapM_map {f : α → Except Fault γ} {g : β → Except Fault δ} {h : α → β} {xs : List α}
    (hfg : ∀ x ∈ xs, Both Q (f x) (g (h x))) :
    Both (List.Forall₂ Q) (xs.mapM f) ((xs.map h).mapM g) := by
  induction xs with
  | nil => exact pure .nil
  | cons x xs ih =>
    obtain ⟨hx, hxs⟩ := List.forall_mem_cons.1 hfg
    rw [List.map_cons, List.mapM_cons, List.mapM_cons]
    apply hx.bind
    intro a b hab
    apply (ih hxs).bind
    intro as bs habs
    exact pure (.cons hab habs)

end Both

/-! ## §2 Generators -/

namespace Gen

variable {σ : Type} {s s' : σ} {a : α}

variable {x : Except Fault α} {g : Gen σ α} {f : α → Gen σ β}

theorem bind_of_ok (h : g s = .ok a s') :
    (g >>= f) s = f a s' := by
  show EStateM.bind g f s = f a s'
  rw [EStateM.bind, h]

theorem lift_of_ok (h : x = .ok a) :
    (liftM x : Gen σ α) s = .ok a s := by
  rw [h]
  rfl

theorem bind_lift (h : x = .ok a) :
    ((liftM x : Gen σ α) >>= f) s = f a s :=
  bind_of_ok (lift_of_ok h)

theorem exists_of_bind_lift {b : β}
    (h : ((liftM x : Gen σ α) >>= f) s = .ok b s') : ∃ a, x = .ok a ∧ f a s = .ok b s' := by
  cases x with
  | error e => cases h
  | ok a => exact ⟨a, rfl, h⟩

theorem forM_map_of_ok {xs : List β} {g : β → α} {f : α → Gen σ Unit} {step : σ → β → σ}
    (h : ∀ s, ∀ x ∈ xs, f (g x) s = .ok () (step s x)) (s : σ) :
    ((xs.map g).forM f : Gen σ Unit) s = .ok () (xs.foldl step s) := by
  induction xs generalizing s with
  | nil => rfl
  | cons x xs ih =>
    show (f (g x) >>= fun _ => (xs.map g).forM f) s = _
    rw [bind_of_ok (h s x List.mem_cons_self)]
    exact ih (fun s y hy => h s y (List.mem_cons_of_mem _ hy)) (step s x)

theorem forM_of_ok {xs : List α} {f : α → Gen σ Unit} {step : σ → α → σ}
    (h : ∀ s, ∀ x ∈ xs, f x s = .ok () (step s x)) (s : σ) :
    (xs.forM f : Gen σ Unit) s = .ok () (xs.foldl step s) := by
  have hmap := forM_map_of_ok (g := id) h s
  rwa [List.map_id] at hmap

theorem outcome_of_ok (h : g s = .ok a s') : g.outcome s = .ok a := by
  rw [outcome, h]

theorem exists_of_outcome (h : g.outcome s = .ok a) : ∃ s', g s = .ok a s' := by
  rw [outcome] at h
  cases hrun : g s with
  | ok b s' =>
    rw [hrun] at h
    cases h
    exact ⟨s', rfl⟩
  | error e s' =>
    rw [hrun] at h
    cases h

/-- An outcome that passes a test comes from a run. -/
theorem exists_of_any {p : α → Bool} (h : (g.outcome s).toOption.any p) :
    ∃ a s', g s = .ok a s' ∧ p a := by
  cases houtcome : g.outcome s with
  | error e =>
    rw [houtcome] at h
    cases h
  | ok a =>
    rw [houtcome] at h
    obtain ⟨s', hrun⟩ := exists_of_outcome houtcome
    exact ⟨a, s', hrun, h⟩

theorem outcome_bind_of_ok (h : g s = .ok a s') :
    (g >>= f).outcome s = (f a).outcome s' := by
  rw [outcome, outcome, bind_of_ok h]

theorem outcome_lift (x : Except Fault α) : (liftM x : Gen σ α).outcome s = x := by
  cases x <;> rfl

/-- From every state that satisfies `I` the generator gives a result and leaves such a state. -/
def Keeps (I : σ → Prop) (g : Gen σ α) : Prop := ∀ s, I s → ∃ a s', g s = .ok a s' ∧ I s'

namespace Keeps

variable {I : σ → Prop} {g : Gen σ α}

theorem pure (a : α) : Keeps I (pure a) := fun s hs => ⟨a, s, rfl, hs⟩

theorem bind {f : α → Gen σ β} (hg : Keeps I g) (hf : ∀ a, Keeps I (f a)) :
    Keeps I (g >>= f) := by
  intro s hs
  obtain ⟨a, s', hrun, hs'⟩ := hg s hs
  rw [bind_of_ok hrun]
  exact hf a s' hs'

theorem bind_lift {x : Except Fault α} {f : α → Gen σ β} (hx : x = .ok a) (hf : Keeps I (f a)) :
    Keeps I (liftM x >>= f) := by
  intro s hs
  rw [Gen.bind_lift hx]
  exact hf s hs

theorem modify {f : σ → σ} (h : ∀ s, I s → I (f s)) : Keeps I (modify f) :=
  fun s hs => ⟨(), f s, rfl, h s hs⟩

theorem forM {xs : List α} {f : α → Gen σ Unit} (h : ∀ x ∈ xs, Keeps I (f x)) :
    Keeps I (xs.forM f) := by
  induction xs with
  | nil => exact pure ()
  | cons x xs ih =>
    obtain ⟨hx, hxs⟩ := List.forall_mem_cons.1 h
    apply hx.bind
    intro _
    exact ih hxs

end Keeps

end Gen

end ShaderBridge
