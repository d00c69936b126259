import Mathlib.Tactic

/-!
# Computations with exceptions and state

Rules for evaluating a sequence of `EStateM` steps once the result of the first
one is known, and computations on a part of a larger state: a `Place` says where
the part is found, and `Place.run` runs a computation there. `Keeps` is about what a
computation preserves, `Ignores` about what it does not look at.
-/

namespace Execution

variable {ε σ α β : Type}

theorem bind_ok {x : EStateM ε σ α} {f : α → EStateM ε σ β} {s t : σ} {a : α}
    (h : x s = .ok a t) : (x >>= f) s = f a t := by
  change EStateM.bind x f s = f a t
  rw [EStateM.bind, h]

theorem bind_error {x : EStateM ε σ α} {f : α → EStateM ε σ β} {s t : σ} {e : ε}
    (h : x s = .error e t) : (x >>= f) s = .error e t := by
  change EStateM.bind x f s = .error e t
  rw [EStateM.bind, h]

/-- Computations that go on alike from equal results end alike. -/
theorem bind_congr {x y : EStateM ε σ α} {f : α → EStateM ε σ β} {s t : σ} (h : x s = y t) :
    (x >>= f) s = (y >>= f) t := by
  change EStateM.bind x f s = EStateM.bind y f t
  rw [EStateM.bind, EStateM.bind, h]

/-- A sequence that returns did so through its first step. -/
theorem of_bind_ok {x : EStateM ε σ α} {f : α → EStateM ε σ β} {s t : σ} {b : β}
    (h : (x >>= f) s = .ok b t) : ∃ a s', x s = .ok a s' ∧ f a s' = .ok b t := by
  change EStateM.bind x f s = .ok b t at h
  rw [EStateM.bind] at h
  cases hx : x s with
  | ok a s' => exact ⟨a, s', rfl, by simpa only [hx] using h⟩
  | error e s' => simp [hx] at h

/-- The state a computation ends in, whether it returns or fails. -/
def final : EStateM.Result ε σ α → σ
  | .ok _ s => s
  | .error _ s => s

/-- Whether a computation returns. -/
def returns : EStateM.Result ε σ α → Bool
  | .ok _ _ => true
  | .error _ _ => false

theorem eq_ok_of_returns {r : EStateM.Result ε σ Unit} (h : returns r = true) :
    r = .ok () (final r) := by
  cases r with
  | ok u s => rfl
  | error e s => cases h

/-- From a state in `I`, `x` ends in a state in `I`; where it fails, the error is in `E`. -/
def Keeps (I : σ → Prop) (E : ε → Prop) (x : EStateM ε σ α) : Prop :=
  ∀ s, I s →
    match x s with
    | .ok _ t => I t
    | .error e t => E e ∧ I t

section Keeps

variable {I : σ → Prop} {E : ε → Prop}

theorem Keeps.pure (a : α) : Keeps I E (Pure.pure a : EStateM ε σ α) := fun _ hs => hs

theorem Keeps.throw {e : ε} (he : E e) : Keeps I E (throw e : EStateM ε σ α) :=
  fun _ hs => ⟨he, hs⟩

theorem Keeps.bind {x : EStateM ε σ α} {f : α → EStateM ε σ β} (hx : Keeps I E x)
    (hf : ∀ a, Keeps I E (f a)) : Keeps I E (x >>= f) := by
  intro s hs
  have hfirst := hx s hs
  cases h : x s with
  | ok a s' =>
    rw [h] at hfirst
    rw [bind_ok h]
    exact hf a s' hfirst
  | error e s' =>
    rw [h] at hfirst
    rw [bind_error h]
    exact hfirst

theorem Keeps.ite {x y : EStateM ε σ α} {c : Prop} [Decidable c] (hx : Keeps I E x)
    (hy : Keeps I E y) : Keeps I E (if c then x else y) := by
  by_cases hc : c
  · rwa [if_pos hc]
  · rwa [if_neg hc]

theorem Keeps.final {x : EStateM ε σ α} (hx : Keeps I E x) {s : σ} (hs : I s) :
    I (final (x s)) := by
  have hend := hx s hs
  cases h : x s with
  | ok a t =>
    rw [h] at hend
    exact hend
  | error e t =>
    rw [h] at hend
    exact hend.2

end Keeps

/-- Where a part of type `σ` is found in a state of type `W`, and how it is
stored back. -/
structure Place (W σ : Type) where
  get : W → σ
  put : σ → W → W

/-- Run a computation on the part. -/
def Place.run {W : Type} (p : Place W σ) (x : EStateM ε σ α) : EStateM ε W α := fun w =>
  match x (p.get w) with
  | .ok a s => .ok a (p.put s w)
  | .error e s => .error e (p.put s w)

theorem Place.run_ok {W : Type} {p : Place W σ} {x : EStateM ε σ α} {w : W} {a : α} {s : σ}
    (h : x (p.get w) = .ok a s) : p.run x w = .ok a (p.put s w) := by
  rw [Place.run, h]

theorem Place.run_error {W : Type} {p : Place W σ} {x : EStateM ε σ α} {w : W} {e : ε} {s : σ}
    (h : x (p.get w) = .error e s) : p.run x w = .error e (p.put s w) := by
  rw [Place.run, h]

/-! ### A computation that ignores a part of the state -/

/-- `x` does the same when the state has been changed by `g`, and leaves the change as it is. -/
def Ignores (g : σ → σ) (x : EStateM ε σ α) : Prop :=
  ∀ s, x (g s) =
    match x s with
    | .ok a t => .ok a (g t)
    | .error e t => .error e (g t)

section Ignores

variable {g : σ → σ} {x : EStateM ε σ α} {s t : σ}

theorem Ignores.ok (hx : Ignores g x) {a : α} (h : x s = .ok a t) : x (g s) = .ok a (g t) := by
  rw [hx s, h]

theorem Ignores.error (hx : Ignores g x) {e : ε} (h : x s = .error e t) :
    x (g s) = .error e (g t) := by
  rw [hx s, h]

theorem Ignores.pure (a : α) : Ignores g (Pure.pure a : EStateM ε σ α) := fun _ => rfl

theorem Ignores.throw (e : ε) : Ignores g (throw e : EStateM ε σ α) := fun _ => rfl

theorem Ignores.bind {f : α → EStateM ε σ β} (hx : Ignores g x) (hf : ∀ a, Ignores g (f a)) :
    Ignores g (x >>= f) := by
  intro s
  cases h : x s with
  | ok a t =>
    rw [bind_ok h, bind_ok (hx.ok h)]
    exact hf a t
  | error e t => rw [bind_error h, bind_error (hx.error h)]

theorem Ignores.ite {y : EStateM ε σ α} {c : Prop} [Decidable c] (hx : Ignores g x)
    (hy : Ignores g y) : Ignores g (if c then x else y) := by
  split_ifs
  · exact hx
  · exact hy

/-- A computation on another part of the state. -/
theorem Ignores.run {W : Type} {p : Place W σ} {g : W → W} (hget : ∀ w, p.get (g w) = p.get w)
    (hput : ∀ s w, p.put s (g w) = g (p.put s w)) : Ignores g (p.run x) := by
  intro w
  rw [Place.run, Place.run, hget]
  cases x (p.get w) with
  | ok a s => exact congrArg _ (hput s w)
  | error e s => exact congrArg _ (hput s w)

end Ignores

/-! ### Two computations that go alike -/

section Alike

variable {γ δ : Type} {R : α → β → Prop} {S : γ → δ → Prop}

/-- Both fail, or both return related values. -/
def Alike (R : α → β → Prop) : Except ε α → Except ε β → Prop
  | .ok a, .ok b => R a b
  | .error _, .error _ => True
  | _, _ => False

theorem Alike.bind {x : Except ε α} {y : Except ε β} {f : α → Except ε γ} {g : β → Except ε δ}
    (h : Alike R x y) (hf : ∀ a b, R a b → Alike S (f a) (g b)) :
    Alike S (x >>= f) (y >>= g) := by
  cases x with
  | ok a =>
    cases y with
    | ok b => exact hf a b h
    | error e => exact h.elim
  | error e =>
    cases y with
    | ok b => exact h.elim
    | error e' => exact trivial

theorem Alike.ite {x x' : Except ε α} {y y' : Except ε β} {c d : Prop} [Decidable c] [Decidable d]
    (hcd : c ↔ d) (hx : Alike R x y) (hx' : Alike R x' y') :
    Alike R (if c then x else x') (if d then y else y') := by
  by_cases hc : c
  · rw [if_pos hc, if_pos (hcd.mp hc)]
    exact hx
  · rw [if_neg hc, if_neg (hcd.not.mp hc)]
    exact hx'

theorem Alike.toBool_eq {x : Except ε α} {y : Except ε β} (h : Alike R x y) :
    x.toBool = y.toBool := by
  cases x with
  | ok a =>
    cases y with
    | ok b => rfl
    | error e => exact h.elim
  | error e =>
    cases y with
    | ok b => exact h.elim
    | error e' => rfl

end Alike

end Execution
