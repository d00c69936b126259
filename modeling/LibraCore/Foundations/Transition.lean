import Mathlib.Tactic

/-!
# Labelled transition systems

A system has initial states and steps labelled by events. `System.Run` is the
sequence of events that leads from one state to another, `System.Reachable` the
states that runs from the initial states lead to. `System.guard` keeps only the
steps that meet a condition on the state before the step and the event; a run of
the guarded system is a run all of whose steps meet the condition.

## Main results

- `System.Run.invariant` — what every step preserves, every run preserves
- `System.Run.simulate` — a run of one system is a run of another
- `System.Reachable.invariant` — the same from the initial states on
- `System.Run.along_iff_guard` — a property of every state along a run, as a condition on
  its steps
- `System.Run.alongSteps_iff_guard` — the same for a property of every step
-/

namespace Transition

/-- A labelled transition system. -/
structure System (σ ε : Type*) where
    initial : σ → Prop
    step : σ → ε → σ → Prop

namespace System

variable {σ ε : Type*} {M : System σ ε}

/-- The events of a run, in order, between its two ends. -/
inductive Run (M : System σ ε) : σ → List ε → σ → Prop
  | nil (s : σ) : Run M s [] s
  | snoc {s t u : σ} {es : List ε} {e : ε} :
      Run M s es t → M.step t e u → Run M s (es ++ [e]) u

/-- The states that runs from the initial states lead to. -/
def Reachable (M : System σ ε) (s : σ) : Prop :=
  ∃ s₀ es, M.initial s₀ ∧ M.Run s₀ es s

theorem Run.single {s t : σ} {e : ε} (h : M.step s e t) : M.Run s [e] t :=
  Run.snoc (Run.nil s) h

/-- The events can happen one after the other, when `f` is what each of them does. -/
def Executes (P : σ → ε → Prop) (f : σ → ε → σ) : σ → List ε → Prop
  | _, [] => True
  | s, e :: es => P s e ∧ Executes P f (f s e) es

instance decidableExecutes (P : σ → ε → Prop) [∀ s e, Decidable (P s e)] (f : σ → ε → σ) :
    (s : σ) → (es : List ε) → Decidable (Executes P f s es)
  | _, [] => .isTrue trivial
  | s, e :: es =>
    have := decidableExecutes P f (f s e) es
    inferInstanceAs (Decidable (_ ∧ _))

theorem Run.append {s t u : σ} {es fs : List ε} (h₁ : M.Run s es t) (h₂ : M.Run t fs u) :
    M.Run s (es ++ fs) u := by
  induction h₂ with
  | nil => simpa using h₁
  | snoc _ hstep ih =>
    rw [← List.append_assoc]
    exact Run.snoc ih hstep

theorem Run.of_executes {P : σ → ε → Prop} {f : σ → ε → σ}
    (hstep : ∀ s e, P s e → M.step s e (f s e)) {s : σ} {es : List ε} (h : Executes P f s es) :
    M.Run s es (es.foldl f s) := by
  induction es generalizing s with
  | nil => exact Run.nil s
  | cons e es ih => exact (Run.single (hstep s e h.1)).append (ih h.2)

/-- What every step preserves, every run preserves. -/
theorem Run.invariant {P : σ → Prop} (hstep : ∀ s e t, M.step s e t → P s → P t)
    {s t : σ} {es : List ε} (hrun : M.Run s es t) (h : P s) : P t := by
  induction hrun with
  | nil => exact h
  | snoc _ hlast ih => exact hstep _ _ _ hlast ih

/-- A relation between the events so far and the state, kept by every step,
holds at the end of every run. -/
theorem Run.history {P : List ε → σ → Prop}
    (hstep : ∀ es s e t, M.step s e t → P es s → P (es ++ [e]) t)
    {s t : σ} {es : List ε} (hrun : M.Run s es t) (h : P [] s) : P es t := by
  induction hrun with
  | nil => exact h
  | snoc _ hlast ih => exact hstep _ _ _ _ hlast ih

theorem Reachable.invariant {P : σ → Prop} (hinit : ∀ s, M.initial s → P s)
    (hstep : ∀ s e t, M.step s e t → P s → P t) {s : σ} (h : M.Reachable s) : P s := by
  obtain ⟨s₀, es, h₀, hrun⟩ := h
  exact hrun.invariant hstep (hinit s₀ h₀)

/-- When every step of `M` is a step of `N` between related states, every run of `M` is a
run of `N`. -/
theorem Run.simulate {τ : Type*} {N : System τ ε} {R : σ → τ → Prop}
    (hstep : ∀ s t e s', R s t → M.step s e s' → ∃ t', N.step t e t' ∧ R s' t')
    {s s' : σ} {t : τ} {es : List ε} (hrun : M.Run s es s') (h : R s t) :
    ∃ t', N.Run t es t' ∧ R s' t' := by
  induction hrun with
  | nil => exact ⟨t, Run.nil t, h⟩
  | snoc _ hlast ih =>
    obtain ⟨u, hu, hrel⟩ := ih
    obtain ⟨t', hnext, h'⟩ := hstep _ _ _ _ hrel hlast
    exact ⟨t', hu.snoc hnext, h'⟩

/-- Keep only the steps that meet the condition `G`. -/
def guard (M : System σ ε) (G : σ → ε → Prop) : System σ ε where
  initial := M.initial
  step s e t := G s e ∧ M.step s e t

theorem Run.guard_single {G : σ → ε → Prop} {s t : σ} {e : ε} (hG : G s e)
    (hstep : M.step s e t) : (M.guard G).Run s [e] t :=
  Run.single ⟨hG, hstep⟩

theorem Run.guard_snoc {G : σ → ε → Prop} {s t u : σ} {es : List ε} {e : ε}
    (hrun : (M.guard G).Run s es t) (hG : G t e) (hstep : M.step t e u) :
    (M.guard G).Run s (es ++ [e]) u :=
  hrun.snoc ⟨hG, hstep⟩

theorem Run.of_guard {G : σ → ε → Prop} {s t : σ} {es : List ε}
    (h : (M.guard G).Run s es t) : M.Run s es t := by
  induction h with
  | nil => exact Run.nil _
  | snoc _ hlast ih => exact Run.snoc ih hlast.2

/-- Where every state in `I` meets the condition for the events of a run, the run is guarded. -/
theorem Run.guarded {I : σ → Prop} {G : σ → ε → Prop} {s t : σ} {es : List ε}
    (hG : ∀ s, I s → ∀ e ∈ es, G s e) (hkeep : ∀ s e t, I s → G s e → M.step s e t → I t)
    (hrun : M.Run s es t) (hs : I s) : (M.guard G).Run s es t := by
  have hboth : (M.guard G).Run s es t ∧ I t := by
    induction hrun with
    | nil => exact ⟨Run.nil _, hs⟩
    | @snoc t u es e _ hlast ih =>
      obtain ⟨hguarded, ht⟩ := ih fun s hs e he => hG s hs e (List.mem_append_left _ he)
      have hmeets : G t e := hG t ht e (List.mem_append_right _ (List.mem_singleton_self e))
      exact ⟨hguarded.guard_snoc hmeets hlast, hkeep t e u ht hmeets hlast⟩
  exact hboth.1

/-! ### The states along a run -/

theorem Run.of_snoc {s t : σ} {es : List ε} {e : ε} (h : M.Run s (es ++ [e]) t) :
    ∃ u, M.Run s es u ∧ M.step u e t := by
  generalize hes : es ++ [e] = es' at h
  cases h with
  | nil => exact absurd hes (by simp)
  | snoc hrun hlast =>
    obtain ⟨rfl, he⟩ := List.append_inj' hes rfl
    obtain rfl := List.singleton_inj.mp he
    exact ⟨_, hrun, hlast⟩

theorem Run.split {s t : σ} {ds es : List ε} (h : M.Run s (ds ++ es) t) :
    ∃ u, M.Run s ds u ∧ M.Run u es t := by
  induction es using List.reverseRecOn generalizing t with
  | nil => exact ⟨t, by rwa [List.append_nil] at h, Run.nil t⟩
  | append_singleton es e ih =>
    rw [← List.append_assoc] at h
    obtain ⟨u, hrun, hlast⟩ := h.of_snoc
    obtain ⟨v, hv, hrest⟩ := ih hrun
    exact ⟨v, hv, hrest.snoc hlast⟩

/-- A system whose steps have one outcome each has one run for each list of events. -/
theorem Run.unique (hdet : ∀ s e t u, M.step s e t → M.step s e u → t = u) {s t u : σ}
    {es : List ε} (ht : M.Run s es t) (hu : M.Run s es u) : t = u := by
  induction ht generalizing u with
  | nil =>
    generalize hes : ([] : List ε) = es at hu
    cases hu with
    | nil => rfl
    | snoc => exact absurd hes (by simp)
  | snoc _ hlast ih =>
    obtain ⟨v, hv, hlast'⟩ := hu.of_snoc
    obtain rfl := ih hv
    exact hdet _ _ _ _ hlast hlast'

/-- `P` holds of every state that the events lead through, the last one included. -/
def Along (M : System σ ε) (P : σ → Prop) (s : σ) (es : List ε) : Prop :=
  ∀ ds u, ds <+: es → M.Run s ds u → P u

/-- When `G` is what it takes for a step to keep `P`, a run keeps `P` all along exactly if
each of its steps meets `G`. -/
theorem Run.along_iff_guard {I P : σ → Prop} {G : σ → ε → Prop}
    (hdet : ∀ s e t u, M.step s e t → M.step s e u → t = u) (hI : ∀ s, I s → P s)
    (hkeep : ∀ s e t, I s → G s e → M.step s e t → I t)
    (hneeds : ∀ s e t, I s → M.step s e t → P t → G s e)
    {s t : σ} {es : List ε} (hrun : M.Run s es t) (hs : I s) :
    M.Along P s es ↔ (M.guard G).Run s es t := by
  have hinv : ∀ {es t}, (M.guard G).Run s es t → I t := by
    intro es t h
    refine h.invariant ?_ hs
    rintro s e t ⟨hG, hstep⟩ hI
    exact hkeep s e t hI hG hstep
  constructor
  · intro halong
    induction hrun with
    | nil => exact Run.nil _
    | snoc hinit hlast ih =>
      have hguarded := ih (fun ds u hds hu => halong ds u (hds.trans (List.prefix_append _ _)) hu)
      have hP := halong _ _ (List.prefix_refl _) (hinit.snoc hlast)
      exact hguarded.guard_snoc (hneeds _ _ _ (hinv hguarded) hlast hP) hlast
  · rintro hguarded ds u ⟨rest, rfl⟩ hu
    obtain ⟨v, hv, -⟩ := hguarded.split
    obtain rfl := Run.unique hdet hu hv.of_guard
    exact hI _ (hinv hv)

/-- `Q` holds of every step that the events lead through, the last one included. -/
def AlongSteps (M : System σ ε) (Q : σ → ε → σ → Prop) (s : σ) (es : List ε) : Prop :=
  ∀ ds e u v, ds ++ [e] <+: es → M.Run s ds u → M.step u e v → Q u e v

/-- When `G` is what it takes for a step from `I` to do `Q`, all steps of a run do so exactly
if each of them meets `G`. -/
theorem Run.alongSteps_iff_guard {I : σ → Prop} {Q : σ → ε → σ → Prop} {G : σ → ε → Prop}
    (hdet : ∀ s e t u, M.step s e t → M.step s e u → t = u)
    (hkeep : ∀ s e t, I s → G s e → M.step s e t → I t ∧ Q s e t)
    (hneeds : ∀ s e t, I s → M.step s e t → Q s e t → G s e)
    {s t : σ} {es : List ε} (hrun : M.Run s es t) (hs : I s) :
    M.AlongSteps Q s es ↔ (M.guard G).Run s es t := by
  have hinv : ∀ {es t}, (M.guard G).Run s es t → I t := by
    intro es t h
    refine h.invariant ?_ hs
    rintro s e t ⟨hG, hstep⟩ hI
    exact (hkeep s e t hI hG hstep).1
  constructor
  · intro halong
    induction hrun with
    | nil => exact Run.nil _
    | snoc hinit hlast ih =>
      have hguarded := ih fun ds e u v hds hu =>
        halong ds e u v (hds.trans (List.prefix_append _ _)) hu
      have hQ := halong _ _ _ _ (List.prefix_refl _) hinit hlast
      exact hguarded.guard_snoc (hneeds _ _ _ (hinv hguarded) hlast hQ) hlast
  · rintro hguarded ds e u v ⟨rest, rfl⟩ hu hstep
    obtain ⟨w, hw, -⟩ := hguarded.split
    obtain ⟨u', hu', hG, -⟩ := hw.of_snoc
    obtain rfl := Run.unique hdet hu hu'.of_guard
    exact (hkeep _ _ _ (hinv hu') hG hstep).2

end System

/-- Nothing comes after an event that only the end of a trace records. -/
theorem eq_nil_of_last {α : Type*} {pre before after : List α} {x : α} (hnot : x ∉ pre)
    (h : pre ++ [x] = before ++ x :: after) : after = [] := by
  by_contra hne
  obtain ⟨init, y, rfl⟩ := List.eq_nil_or_concat after |>.resolve_left hne
  rw [List.concat_eq_append, ← List.cons_append, ← List.append_assoc] at h
  obtain ⟨rfl, -⟩ := List.append_inj' h rfl
  exact hnot (List.mem_append_right _ List.mem_cons_self)

end Transition
