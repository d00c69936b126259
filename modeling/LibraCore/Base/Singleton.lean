import LibraCore.Foundations.Transition

/-!
# `Singleton`

`instance` and `destory` read `ptr_` without the lock, take the lock and read `ptr_` again, and
`instance` reads it once more when it returns. Each of these is a step, and the steps of any
number of callers interleave. `destory` leaves `ptr_` as it is.

Objects are numbered as they are created. What is recorded besides is which objects have been
destroyed by a call of `destory` that has returned, and which of them had been when a call of
`instance` began.

## Main results

- `Singleton.live_iff` — when `instance` returns only live objects
-/

namespace LibraCore

/-- Where a call of `instance` is; `unwind` is the way out of a `create` that throws. -/
inductive InstanceStep
  | read | lock | check | create | unlock | unwind | ret
  deriving DecidableEq, Repr

inductive DestoryStep
  | read | lock | check | destroy | unlock | ret
  deriving DecidableEq, Repr

/-- A caller, in a call of `instance` that began when `dead` had been destroyed, or in a call of
`destory` that has destroyed `killed`. -/
inductive Caller
  | idle
  | inInstance (next : InstanceStep) (dead : List ℕ)
  | inDestory (next : DestoryStep) (killed : Option ℕ)
  deriving DecidableEq, Repr

namespace Caller

/-- The next step takes the lock. -/
def locks : Caller → Bool
  | .inInstance .lock _ => true
  | .inDestory .lock _ => true
  | _ => false

/-- A call of `instance` that returns began before any `destory` that destroyed an object had
returned, and `destory` destroys an object only if none has been destroyed. -/
def First (destroyed : List ℕ) : Caller → Prop
  | .inInstance .ret dead => dead = []
  | .inDestory .destroy _ => destroyed = []
  | _ => True

instance (destroyed : List ℕ) : (c : Caller) → Decidable (c.First destroyed)
  | .inInstance .ret dead => inferInstanceAs (Decidable (dead = []))
  | .inDestory .destroy _ => inferInstanceAs (Decidable (destroyed = []))
  | .inInstance .read _ | .inInstance .lock _ | .inInstance .check _ | .inInstance .create _
  | .inInstance .unlock _ | .inInstance .unwind _ | .inDestory .read _ | .inDestory .lock _
  | .inDestory .check _ | .inDestory .unlock _ | .inDestory .ret _ | .idle => .isTrue trivial

end Caller

structure Singleton (ι : Type) where
  ptr_ : Option ℕ
  /-- the caller that holds the mutex -/
  m_ : Option ι
  callers : ι → Caller
  created : ℕ
  /-- the objects destroyed, the latest first -/
  destroyed : List ℕ
  /-- those destroyed by a call that has returned -/
  completed : List ℕ
  /-- what `instance` returned, and what had been destroyed when it was called -/
  returned : List (Option ℕ × List ℕ)

inductive SingletonAction (ι : Type)
  | callInstance (i : ι)
  | callDestory (i : ι)
  | step (i : ι) (throws : Bool)

namespace Singleton

open Transition

variable {ι : Type}

def new (ι : Type) : Singleton ι where
  ptr_ := none
  m_ := none
  callers _ := .idle
  created := 0
  destroyed := []
  completed := []
  returned := []

section Steps

variable [DecidableEq ι]

def goto (s : Singleton ι) (i : ι) (c : Caller) : Singleton ι :=
  { s with callers := Function.update s.callers i c }

/-- A step of `instance`. -/
def stepInstance (s : Singleton ι) (i : ι) (next : InstanceStep) (dead : List ℕ) (throws : Bool) :
    Singleton ι :=
  match next with
  | .read =>
    if s.ptr_ = none then s.goto i (.inInstance .lock dead) else s.goto i (.inInstance .ret dead)
  | .lock => { s with m_ := some i }.goto i (.inInstance .check dead)
  | .check =>
    if s.ptr_ = none then s.goto i (.inInstance .create dead)
    else s.goto i (.inInstance .unlock dead)
  | .create =>
    if throws then s.goto i (.inInstance .unwind dead)
    else { s with ptr_ := some s.created, created := s.created + 1 }.goto i (.inInstance .unlock dead)
  | .unlock => { s with m_ := none }.goto i (.inInstance .ret dead)
  | .unwind => { s with m_ := none }.goto i .idle
  | .ret => { s with returned := (s.ptr_, dead) :: s.returned }.goto i .idle

/-- A step of `destory`; `destroy` deletes what is not null. -/
def stepDestory (s : Singleton ι) (i : ι) (next : DestoryStep) (killed : Option ℕ) : Singleton ι :=
  match next with
  | .read =>
    if s.ptr_ = none then s.goto i (.inDestory .ret killed) else s.goto i (.inDestory .lock killed)
  | .lock => { s with m_ := some i }.goto i (.inDestory .check killed)
  | .check =>
    if s.ptr_ = none then s.goto i (.inDestory .unlock killed)
    else s.goto i (.inDestory .destroy killed)
  | .destroy =>
    { s with destroyed := s.ptr_.toList ++ s.destroyed }.goto i (.inDestory .unlock s.ptr_)
  | .unlock => { s with m_ := none }.goto i (.inDestory .ret killed)
  | .ret => { s with completed := killed.toList ++ s.completed }.goto i .idle

def after (s : Singleton ι) : SingletonAction ι → Singleton ι
  | .callInstance i => s.goto i (.inInstance .read s.completed)
  | .callDestory i => s.goto i (.inDestory .read none)
  | .step i throws =>
    match s.callers i with
    | .idle => s
    | .inInstance next dead => s.stepInstance i next dead throws
    | .inDestory next killed => s.stepDestory i next killed

end Steps

/-- A caller makes one call at a time, and takes the lock when it is free. -/
def Possible (s : Singleton ι) : SingletonAction ι → Prop
  | .callInstance i => s.callers i = .idle
  | .callDestory i => s.callers i = .idle
  | .step i _ => s.callers i ≠ .idle ∧ ((s.callers i).locks = true → s.m_ = none)

instance [DecidableEq ι] (s : Singleton ι) : (a : SingletonAction ι) → Decidable (s.Possible a)
  | .callInstance i => inferInstanceAs (Decidable (s.callers i = .idle))
  | .callDestory i => inferInstanceAs (Decidable (s.callers i = .idle))
  | .step _ _ => inferInstanceAs (Decidable (_ ≠ _ ∧ (_ → _)))

/-- Any number of callers, in any interleaving of their steps. -/
def system (ι : Type) [DecidableEq ι] : System (Singleton ι) (SingletonAction ι) where
  initial s := s = new ι
  step s a t := s.Possible a ∧ t = s.after a

/-! ### What it is for -/

/-- The object has been created and not been destroyed. -/
def Alive (s : Singleton ι) (o : ℕ) : Prop := o < s.created ∧ o ∉ s.destroyed

/-- What `instance` has returned was created, and not destroyed by a call of `destory` that had
returned before the call; there is one object at a time, and none is destroyed twice. -/
structure Live (s : Singleton ι) : Prop where
  returned : ∀ p ∈ s.returned, ∃ o, p.1 = some o ∧ o < s.created ∧ o ∉ p.2
  alive : ∀ o o', s.Alive o → s.Alive o' → o = o'
  once : s.destroyed.Nodup

/-- The caller that makes the step is the first to destroy, or began before. -/
def First (s : Singleton ι) : SingletonAction ι → Prop
  | .step i _ => (s.callers i).First s.destroyed
  | _ => True

instance (s : Singleton ι) : (a : SingletonAction ι) → Decidable (s.First a)
  | .callInstance _ => .isTrue trivial
  | .callDestory _ => .isTrue trivial
  | .step _ _ => inferInstanceAs (Decidable (Caller.First _ _))

/-! ### What a caller knows -/

/-- What holds where a caller is: within the lock it holds the lock, and what it has read of
`ptr_` is still so. -/
def Fits (s : Singleton ι) (i : ι) : Caller → Prop
  | .idle => True
  | .inInstance next dead => dead ⊆ s.destroyed ∧
    match next with
    | .read => True
    | .lock => True
    | .check => s.m_ = some i
    | .create => s.m_ = some i ∧ s.ptr_ = none
    | .unlock => s.m_ = some i ∧ s.ptr_ ≠ none
    | .unwind => s.m_ = some i
    | .ret => s.ptr_ ≠ none
  | .inDestory next killed => killed.toList ⊆ s.destroyed ∧
    match next with
    | .read => True
    | .lock => True
    | .check => s.m_ = some i
    | .destroy => s.m_ = some i ∧ s.ptr_ ≠ none
    | .unlock => s.m_ = some i
    | .ret => True

/-- The object is created once, and destroyed once. -/
structure Once (s : Singleton ι) : Prop where
  pointer : (s.ptr_ = none ∧ s.created = 0) ∨ (s.ptr_ = some 0 ∧ s.created = 1)
  destroyed : s.destroyed = [] ∨ (s.destroyed = [0] ∧ s.ptr_ = some 0)
  completed : s.completed ⊆ s.destroyed
  returned : ∀ p ∈ s.returned, ∃ o, p.1 = some o ∧ o < s.created ∧ o ∉ p.2

structure Sound (s : Singleton ι) : Prop where
  once : s.Once
  fits : ∀ i, s.Fits i (s.callers i)

variable {s t : Singleton ι} {i : ι}

theorem Sound.live (hs : s.Sound) : s.Live where
  returned := hs.once.returned
  alive := by
    rintro o o' ⟨ho, -⟩ ⟨ho', -⟩
    obtain ⟨-, hcreated⟩ | ⟨-, hcreated⟩ := hs.once.pointer
    · omega
    · omega
  once := by
    obtain hdestroyed | ⟨hdestroyed, -⟩ := hs.once.destroyed
    · rw [hdestroyed]
      exact List.nodup_nil
    · rw [hdestroyed]
      exact List.nodup_singleton 0

theorem sound_new : (new ι).Sound :=
  ⟨⟨.inl ⟨rfl, rfl⟩, .inl rfl, List.nil_subset _, fun _ hp => absurd hp List.not_mem_nil⟩,
    fun _ => trivial⟩

theorem free_of_none (h : s.m_ = none) : ∀ j ≠ i, s.m_ ≠ some j := by
  intro j _ hholds
  cases h.symm.trans hholds

theorem held_of_some (h : s.m_ = some i) : ∀ j ≠ i, s.m_ ≠ some j := by
  intro j hj hholds
  exact hj (Option.some.inj (hholds.symm.trans h))

/-- What a caller knows stays so when another one makes a step. -/
theorem Fits.mono {c : Caller} (h : s.Fits i c) (hm : s.m_ = some i → t.m_ = some i)
    (hptr : s.ptr_ ≠ none → t.ptr_ ≠ none) (hnull : s.m_ = some i → s.ptr_ = none → t.ptr_ = none)
    (hdestroyed : s.destroyed ⊆ t.destroyed) : t.Fits i c := by
  cases c with
  | idle => trivial
  | inInstance next dead =>
    refine ⟨List.Subset.trans h.1 hdestroyed, ?_⟩
    cases next with
    | read => trivial
    | lock => trivial
    | check => exact hm h.2
    | create => exact ⟨hm h.2.1, hnull h.2.1 h.2.2⟩
    | unlock => exact ⟨hm h.2.1, hptr h.2.2⟩
    | unwind => exact hm h.2
    | ret => exact hptr h.2
  | inDestory next killed =>
    refine ⟨List.Subset.trans h.1 hdestroyed, ?_⟩
    cases next with
    | read => trivial
    | lock => trivial
    | check => exact hm h.2
    | destroy => exact ⟨hm h.2.1, hptr h.2.2⟩
    | unlock => exact hm h.2
    | ret => trivial

variable [DecidableEq ι]

/-- One caller goes on, and the others know what they knew. -/
theorem Once.goto {c : Caller} (ht : t.Once) (hothers : ∀ j ≠ i, t.Fits j (t.callers j))
    (hi : t.Fits i c) : (t.goto i c).Sound := by
  refine ⟨⟨ht.pointer, ht.destroyed, ht.completed, ht.returned⟩, fun j => ?_⟩
  show t.Fits j (Function.update t.callers i c j)
  by_cases hj : j = i
  · subst hj
    rw [Function.update_self]
    exact hi
  · rw [Function.update_of_ne hj]
    exact hothers j hj

/-- A step that only the caller notices. -/
theorem Sound.goto {c : Caller} (hs : s.Sound) (hi : s.Fits i c) : (s.goto i c).Sound :=
  hs.once.goto (fun j _ => hs.fits j) hi

/-- The lock changes hands; no other caller holds it. -/
theorem Sound.lock {c : Caller} {m : Option ι} (hs : s.Sound) (hm : ∀ j ≠ i, s.m_ ≠ some j)
    (hi : ({ s with m_ := m } : Singleton ι).Fits i c) :
    (({ s with m_ := m } : Singleton ι).goto i c).Sound := by
  refine Once.goto ⟨hs.once.pointer, hs.once.destroyed, hs.once.completed, hs.once.returned⟩ ?_ hi
  intro j hj
  refine (hs.fits j).mono ?_ id ?_ (List.Subset.refl _)
  · exact fun hholds => absurd hholds (hm j hj)
  · exact fun hholds => absurd hholds (hm j hj)

theorem Sound.created (hs : s.Sound) {c : Caller} (hholds : s.m_ = some i) (hnull : s.ptr_ = none)
    (hcreated : s.created = 0)
    (hi : ({ s with ptr_ := some s.created, created := s.created + 1 } : Singleton ι).Fits i c) :
    (({ s with ptr_ := some s.created, created := s.created + 1 } : Singleton ι).goto i c).Sound := by
  refine Once.goto ⟨?_, ?_, hs.once.completed, ?_⟩ ?_ hi
  · rw [hcreated]
    exact .inr ⟨rfl, rfl⟩
  · obtain hdestroyed | ⟨-, hsome⟩ := hs.once.destroyed
    · exact .inl hdestroyed
    · cases hnull.symm.trans hsome
  · intro p hp
    obtain ⟨o, ho, hlt, hlive⟩ := hs.once.returned p hp
    exact ⟨o, ho, Nat.lt_succ_of_lt hlt, hlive⟩
  · intro j hj
    refine (hs.fits j).mono id nofun ?_ (List.Subset.refl _)
    exact fun hother => absurd hother (held_of_some hholds j hj)

theorem Sound.returns (hs : s.Sound) {dead : List ℕ}
    (hlive : ∃ o, s.ptr_ = some o ∧ o < s.created ∧ o ∉ dead) :
    (({ s with returned := (s.ptr_, dead) :: s.returned } : Singleton ι).goto i .idle).Sound := by
  refine Once.goto ⟨hs.once.pointer, hs.once.destroyed, hs.once.completed, ?_⟩
    (fun j _ => hs.fits j) trivial
  intro p hp
  obtain rfl | hp := List.mem_cons.mp hp
  · exact hlive
  · exact hs.once.returned p hp

theorem Sound.destroys (hs : s.Sound) (hsome : s.ptr_ = some 0) (hnone : s.destroyed = [])
    (hholds : s.m_ = some i) :
    (({ s with destroyed := s.ptr_.toList ++ s.destroyed } : Singleton ι).goto i
      (.inDestory .unlock s.ptr_)).Sound := by
  have hsubset : s.destroyed ⊆ s.ptr_.toList ++ s.destroyed := List.subset_append_right _ _
  refine Once.goto ⟨hs.once.pointer, .inr ⟨?_, hsome⟩, List.Subset.trans hs.once.completed hsubset,
    hs.once.returned⟩ ?_ ⟨List.subset_append_left _ _, hholds⟩
  · show s.ptr_.toList ++ s.destroyed = [0]
    rw [hsome, hnone]
    rfl
  · intro j _
    exact (hs.fits j).mono id id (fun _ => id) hsubset

theorem Sound.completes (hs : s.Sound) {killed : Option ℕ} (hkilled : killed.toList ⊆ s.destroyed) :
    (({ s with completed := killed.toList ++ s.completed } : Singleton ι).goto i .idle).Sound :=
  Once.goto ⟨hs.once.pointer, hs.once.destroyed, List.append_subset.mpr ⟨hkilled, hs.once.completed⟩,
    hs.once.returned⟩ (fun j _ => hs.fits j) trivial

theorem sound_stepInstance {next : InstanceStep} {dead : List ℕ} {throws : Bool} (hs : s.Sound)
    (hi : s.callers i = .inInstance next dead) (hpossible : s.Possible (.step i throws))
    (hfirst : s.First (.step i throws)) : (s.stepInstance i next dead throws).Sound := by
  have hfits := hs.fits i
  rw [hi] at hfits
  rw [Possible, hi] at hpossible
  rw [First, hi] at hfirst
  obtain ⟨hdead, hknows⟩ := hfits
  cases next with
  | read =>
    rw [stepInstance]
    split
    · exact hs.goto ⟨hdead, trivial⟩
    · next hne => exact hs.goto ⟨hdead, hne⟩
  | lock => exact hs.lock (free_of_none (hpossible.2 rfl)) ⟨hdead, rfl⟩
  | check =>
    rw [stepInstance]
    split
    · next hnull => exact hs.goto ⟨hdead, hknows, hnull⟩
    · next hne => exact hs.goto ⟨hdead, hknows, hne⟩
  | create =>
    obtain ⟨hholds, hnull⟩ := hknows
    rw [stepInstance]
    split
    · exact hs.goto ⟨hdead, hholds⟩
    · obtain ⟨-, hcreated⟩ | ⟨hsome, -⟩ := hs.once.pointer
      · exact hs.created hholds hnull hcreated ⟨hdead, hholds, nofun⟩
      · cases hnull.symm.trans hsome
  | unlock => exact hs.lock (held_of_some hknows.1) ⟨hdead, hknows.2⟩
  | unwind => exact hs.lock (held_of_some hknows) trivial
  | ret =>
    obtain ⟨hnull, -⟩ | ⟨hsome, hcreated⟩ := hs.once.pointer
    · exact absurd hnull hknows
    · have hlive : ∃ o, s.ptr_ = some o ∧ o < s.created ∧ o ∉ dead := by
        have hnone : dead = [] := hfirst
        rw [hsome, hcreated, hnone]
        exact ⟨0, rfl, Nat.zero_lt_one, List.not_mem_nil⟩
      exact hs.returns hlive

theorem sound_stepDestory {next : DestoryStep} {killed : Option ℕ} {throws : Bool} (hs : s.Sound)
    (hi : s.callers i = .inDestory next killed) (hpossible : s.Possible (.step i throws))
    (hfirst : s.First (.step i throws)) : (s.stepDestory i next killed).Sound := by
  have hfits := hs.fits i
  rw [hi] at hfits
  rw [Possible, hi] at hpossible
  rw [First, hi] at hfirst
  obtain ⟨hkilled, hknows⟩ := hfits
  cases next with
  | read =>
    rw [stepDestory]
    split
    · exact hs.goto ⟨hkilled, trivial⟩
    · exact hs.goto ⟨hkilled, trivial⟩
  | lock => exact hs.lock (free_of_none (hpossible.2 rfl)) ⟨hkilled, rfl⟩
  | check =>
    rw [stepDestory]
    split
    · exact hs.goto ⟨hkilled, hknows⟩
    · next hne => exact hs.goto ⟨hkilled, hknows, hne⟩
  | destroy =>
    obtain ⟨hholds, hne⟩ := hknows
    obtain ⟨hnull, -⟩ | ⟨hsome, -⟩ := hs.once.pointer
    · exact absurd hnull hne
    · exact hs.destroys hsome hfirst hholds
  | unlock => exact hs.lock (held_of_some hknows) ⟨hkilled, trivial⟩
  | ret => exact hs.completes hkilled

/-- A step of a caller for whom no object has been destroyed before. -/
theorem sound_of_first {a : SingletonAction ι} (hs : s.Sound) (hfirst : s.First a)
    (hstep : (system ι).step s a t) : t.Sound := by
  obtain ⟨hpossible, rfl⟩ := hstep
  cases a with
  | callInstance i => exact hs.goto ⟨hs.once.completed, trivial⟩
  | callDestory i => exact hs.goto ⟨List.nil_subset _, trivial⟩
  | step i throws =>
    cases hi : s.callers i with
    | idle => exact absurd hi hpossible.1
    | inInstance next dead =>
      rw [after]
      simp only [hi]
      exact sound_stepInstance hs hi hpossible hfirst
    | inDestory next killed =>
      rw [after]
      simp only [hi]
      exact sound_stepDestory hs hi hpossible hfirst

/-- A step that keeps the property is taken by a caller for whom no object has been destroyed. -/
theorem first_of_live {a : SingletonAction ι} (hs : s.Sound) (hstep : (system ι).step s a t)
    (ht : t.Live) : s.First a := by
  obtain ⟨-, rfl⟩ := hstep
  cases a with
  | callInstance i => trivial
  | callDestory i => trivial
  | step i throws =>
    have hfits := hs.fits i
    rw [First]
    rw [after] at ht
    -- what has been destroyed is what `ptr_` still points to
    have hdestroyed : ∀ o ∈ s.destroyed, s.destroyed = [0] ∧ o = 0 ∧ s.ptr_ = some 0 := by
      intro o ho
      obtain hnone | ⟨hone, hsome⟩ := hs.once.destroyed
      · rw [hnone] at ho
        cases ho
      · rw [hone] at ho
        exact ⟨hone, List.mem_singleton.mp ho, hsome⟩
    generalize hi : s.callers i = c at ht hfits
    cases c with
    | idle => trivial
    | inInstance next dead =>
      cases next with
      | ret =>
        obtain ⟨o, ho, -, hlive⟩ := ht.returned _ List.mem_cons_self
        refine List.eq_nil_iff_forall_not_mem.mpr fun x hx => ?_
        obtain ⟨-, rfl, hsome⟩ := hdestroyed x (hfits.1 hx)
        obtain rfl := Option.some.inj (hsome.symm.trans ho)
        exact hlive hx
      | _ => trivial
    | inDestory next killed =>
      cases next with
      | destroy =>
        refine List.eq_nil_iff_forall_not_mem.mpr fun x hx => ?_
        obtain ⟨hone, -, hsome⟩ := hdestroyed x hx
        have htwice : (s.ptr_.toList ++ s.destroyed).Nodup := ht.once
        rw [hone, hsome] at htwice
        exact absurd htwice (by decide)
      | _ => trivial

/-- However the steps of the callers interleave, `instance` returns live objects, one object is
alive at a time and none is destroyed twice, exactly if no call of `instance` that returns began
after a `destory` had destroyed the object, and no second `destory` destroys. -/
theorem live_iff {as : List (SingletonAction ι)} (hs : (system ι).initial s)
    (hrun : (system ι).Run s as t) :
    (system ι).Along Live s as ↔ ((system ι).guard First).Run s as t := by
  refine hrun.along_iff_guard ?_ (fun s hs => Sound.live hs) ?_ ?_ ?_
  · rintro s a t u ⟨-, rfl⟩ ⟨-, rfl⟩
    rfl
  · intro s a t hs hfirst hstep
    exact sound_of_first hs hfirst hstep
  · intro s a t hs hstep ht
    exact first_of_live hs hstep ht
  · obtain rfl := hs
    exact sound_new

theorem step_after (s : Singleton ι) (a : SingletonAction ι) (h : s.Possible a) :
    (system ι).step s a (s.after a) := ⟨h, rfl⟩

theorem guard_step_after (s : Singleton ι) (a : SingletonAction ι) (h : s.First a ∧ s.Possible a) :
    ((system ι).guard First).step s a (s.after a) := ⟨h.1, step_after s a h.2⟩

/-- Two callers find no object; one creates it, and destroys it when both have returned it. -/
def race : List (SingletonAction Bool) := List.flatten [
  [.callInstance true, .step true false, .callInstance false, .step false false],
  List.replicate 5 (.step true false),
  List.replicate 4 (.step false false),
  [.callDestory true],
  List.replicate 6 (.step true false)]

theorem live_iff_race : (system Bool).Along Live (new Bool) race := by
  have hrun : ((system Bool).guard First).Run (new Bool) race (race.foldl after (new Bool)) :=
    System.Run.of_executes guard_step_after (by decide)
  exact (live_iff rfl hrun.of_guard).mpr hrun

/-- An object is created and destroyed, and then asked for, and destroyed, again. -/
def recalled : List (SingletonAction Unit) := List.flatten [
  .callInstance () :: List.replicate 6 (.step () false),
  .callDestory () :: List.replicate 6 (.step () false),
  .callInstance () :: List.replicate 2 (.step () false),
  .callDestory () :: List.replicate 5 (.step () false)]

/-- The object that had been destroyed is returned, and destroyed twice. -/
theorem live_false_recalled :
    ∃ t, (system Unit).Run (new Unit) recalled t ∧
      t.returned = [(some 0, [0]), (some 0, [])] ∧ t.destroyed = [0, 0] ∧
      ¬ (system Unit).Along Live (new Unit) recalled := by
  have hrun : (system Unit).Run (new Unit) recalled (recalled.foldl after (new Unit)) :=
    System.Run.of_executes step_after (by decide)
  refine ⟨_, hrun, by decide, by decide, fun halong => ?_⟩
  have hlive := halong _ _ (List.prefix_refl _) hrun
  exact absurd hlive.once (by decide)

end Singleton

end LibraCore
