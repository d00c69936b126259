import LibraCore.Base.EventEmitter

/-!
# Listener handles

The handle of a listener is the address of its callback object. The object is freed with the
node that owns it, and the address may be that of a listener that is added later, which the old
handle then names as well.

## Main results

- `Listeners.exact_iff` — when every call on an emitter removes what it was asked to remove
-/

namespace LibraCore

/-- The calls on one emitter, with the address that `new` returns to `addListener`, and the
handle that `removeListener` is given. -/
inductive ListenerCall (E : Type)
  | addListener (e : E) (ptr : ℕ)
  | removeListener (e : E) (h : Registration)
  | removeAllListeners (e : E)

/-- An emitter, and the handles it has returned, each with the call that returned it. -/
structure Listeners (E : Type) where
  emitter : EventEmitter E
  handles : List Registration

namespace Listeners

open Transition

variable {E : Type}

/-- The listeners of an event have different addresses, and a handle is older than what is yet
to be added. -/
structure Sound (s : Listeners E) : Prop where
  emitter : s.emitter.Sound
  handle_lt : ∀ h ∈ s.handles, h.id < s.emitter.count
  distinct : ∀ e, ∀ r ∈ s.emitter.set_ e, ∀ r' ∈ s.emitter.set_ e, r.ptr = r'.ptr → r = r'

variable {s t : Listeners E}

/-- The listener of a handle, as the loop finds it. -/
theorem find_of_mem (hs : s.Sound) {e : E} {h : Registration} (hh : h ∈ s.emitter.set_ e) :
    (s.emitter.set_ e).find? (fun r => r.ptr = h.ptr) = some h := by
  obtain ⟨r, hr⟩ : ∃ r, (s.emitter.set_ e).find? (fun r => r.ptr = h.ptr) = some r := by
    apply Option.isSome_iff_exists.mp
    exact List.find?_isSome.mpr ⟨h, hh, decide_eq_true rfl⟩
  have hptr : r.ptr = h.ptr := by simpa using List.find?_some hr
  rw [hr, hs.distinct e r (List.mem_of_find?_eq_some hr) h hh hptr]

theorem Sound.loses (hs : s.Sound) (hemitter : EventEmitter.Loses s.emitter t.emitter)
    (hhandles : t.handles = s.handles) : t.Sound := by
  refine ⟨hs.emitter.loses hemitter, ?_, ?_⟩
  · rw [hhandles, hemitter.1]
    exact hs.handle_lt
  · intro e r hr r' hr'
    obtain ⟨p, hp⟩ := hemitter.2 e
    rw [hp] at hr hr'
    exact hs.distinct e r (List.mem_of_mem_filter hr) r' (List.mem_of_mem_filter hr')

variable [DecidableEq E]

def after (s : Listeners E) : ListenerCall E → Listeners E
  | .addListener e ptr =>
    let (h, emitter) := s.emitter.addListener e ptr
    { emitter, handles := h :: s.handles }
  | .removeListener e h => { s with emitter := (s.emitter.removeListener e h.ptr).2 }
  | .removeAllListeners e => { s with emitter := s.emitter.removeAllListeners e }

/-- The allocator returns an address that is free, and a handle is one that was returned. -/
def Possible (s : Listeners E) : ListenerCall E → Prop
  | .addListener _ ptr => ¬ s.emitter.Live ptr
  | .removeListener _ h => h ∈ s.handles
  | .removeAllListeners _ => True

/-- An emitter from its construction on. -/
def system (E : Type) [DecidableEq E] : System (Listeners E) (ListenerCall E) where
  initial s := s = ⟨.new E, []⟩
  step s c t := s.Possible c ∧ t = s.after c

/-- A call does what it is for: a listener is added behind the others; the listener that was
added by the call that returned the handle is removed, if it is there, and nothing else is. -/
def Exact (s : Listeners E) (c : ListenerCall E) (t : Listeners E) : Prop :=
  match c with
  | .addListener e ptr => ∃ h : Registration, h.ptr = ptr ∧ h ∉ s.handles ∧
      t.handles = h :: s.handles ∧ t.emitter.set_ e = s.emitter.set_ e ++ [h] ∧
      ∀ e' ≠ e, t.emitter.set_ e' = s.emitter.set_ e'
  | .removeListener e h =>
      ((s.emitter.removeListener e h.ptr).1 = true ↔ h ∈ s.emitter.set_ e) ∧
      t.handles = s.handles ∧ t.emitter.set_ e = (s.emitter.set_ e).filter (· ≠ h) ∧
      ∀ e' ≠ e, t.emitter.set_ e' = s.emitter.set_ e'
  | .removeAllListeners e =>
      t.handles = s.handles ∧ t.emitter.set_ e = [] ∧
      ∀ e' ≠ e, t.emitter.set_ e' = s.emitter.set_ e'

/-- A handle is used while its listener is there, or while no listener of the event has its
address. -/
def Current (s : Listeners E) : ListenerCall E → Prop
  | .removeListener e h => h ∈ s.emitter.set_ e ∨ ∀ r ∈ s.emitter.set_ e, r.ptr ≠ h.ptr
  | _ => True

instance [Fintype E] (s : Listeners E) : (c : ListenerCall E) → Decidable (s.Possible c)
  | .addListener _ ptr => inferInstanceAs (Decidable (¬ s.emitter.Live ptr))
  | .removeListener _ h => inferInstanceAs (Decidable (h ∈ s.handles))
  | .removeAllListeners _ => inferInstanceAs (Decidable True)

instance (s : Listeners E) : (c : ListenerCall E) → Decidable (s.Current c)
  | .removeListener e h =>
    inferInstanceAs (Decidable (h ∈ s.emitter.set_ e ∨ ∀ r ∈ s.emitter.set_ e, r.ptr ≠ h.ptr))
  | .addListener _ _ | .removeAllListeners _ => inferInstanceAs (Decidable True)

theorem step_after (s : Listeners E) (c : ListenerCall E) (h : s.Possible c) :
    (system E).step s c (s.after c) := ⟨h, rfl⟩

theorem guard_step_after (s : Listeners E) (c : ListenerCall E) (h : s.Current c ∧ s.Possible c) :
    ((system E).guard Current).step s c (s.after c) := ⟨h.1, step_after s c h.2⟩

theorem sound_of_initial (hs : (system E).initial s) : s.Sound := by
  obtain rfl := hs
  exact ⟨EventEmitter.sound_new, fun _ hh => absurd hh List.not_mem_nil,
    fun _ _ hr => absurd hr List.not_mem_nil⟩

/-- What `removeListener` returns and leaves. -/
theorem removeListener_eq (hs : s.Sound) (e : E) (h : Registration) :
    (h ∈ s.emitter.set_ e ∧ (s.emitter.removeListener e h.ptr).1 = true ∧
        (s.emitter.removeListener e h.ptr).2.set_ e = (s.emitter.set_ e).filter (· ≠ h)) ∨
      (h ∉ s.emitter.set_ e ∧ (∃ r ∈ s.emitter.set_ e, r.ptr = h.ptr) ∧
        (s.emitter.removeListener e h.ptr).1 = true) ∨
      (h ∉ s.emitter.set_ e ∧ (∀ r ∈ s.emitter.set_ e, r.ptr ≠ h.ptr) ∧
        (s.emitter.removeListener e h.ptr).1 = false ∧
        (s.emitter.removeListener e h.ptr).2.set_ e = s.emitter.set_ e) := by
  have hfound : (s.emitter.removeListener e h.ptr).1 =
      (EventEmitter.eraseLoop h.ptr (s.emitter.set_ e)).1 := rfl
  rw [hfound, EventEmitter.removeListener_set_self, EventEmitter.eraseLoop_eq (hs.emitter.nodup e)]
  by_cases hh : h ∈ s.emitter.set_ e
  · rw [find_of_mem hs hh]
    exact .inl ⟨hh, rfl, rfl⟩
  · cases hfind : (s.emitter.set_ e).find? fun r => r.ptr = h.ptr with
    | some r =>
      have hptr : r.ptr = h.ptr := by simpa using List.find?_some hfind
      exact .inr (.inl ⟨hh, ⟨r, List.mem_of_find?_eq_some hfind, hptr⟩, rfl⟩)
    | none =>
      refine .inr (.inr ⟨hh, ?_, rfl, rfl⟩)
      intro r hr
      simpa using List.find?_eq_none.mp hfind r hr

theorem Sound.addListener (hs : s.Sound) {e : E} {ptr : ℕ} (hfree : ¬ s.emitter.Live ptr) :
    (s.after (.addListener e ptr)).Sound := by
  refine ⟨hs.emitter.addListener e ptr, ?_, ?_⟩
  · intro h hh
    obtain rfl | hh := List.mem_cons.mp hh
    · exact Nat.lt_succ_self _
    · exact Nat.lt_succ_of_lt (hs.handle_lt h hh)
  · intro e' r hr r' hr' hptr
    have hset : (s.after (.addListener e ptr)).emitter.set_ e' =
        (s.emitter.addListener e ptr).2.set_ e' := rfl
    rw [hset] at hr hr'
    by_cases he : e' = e
    · subst he
      rw [EventEmitter.addListener_set_self] at hr hr'
      rw [List.mem_append, List.mem_singleton] at hr hr'
      -- the address of the new listener is that of no other
      obtain hr | rfl := hr <;> obtain hr' | rfl := hr'
      · exact hs.distinct e' r hr r' hr' hptr
      · exact absurd ⟨e', r, hr, hptr⟩ hfree
      · exact absurd ⟨e', r', hr', hptr.symm⟩ hfree
      · rfl
    · rw [EventEmitter.addListener_set_of_ne he] at hr hr'
      exact hs.distinct e' r hr r' hr' hptr

/-- A call with a current handle does what it is for. -/
theorem exact_of_current {c : ListenerCall E} (hs : s.Sound) (hcurrent : s.Current c)
    (hstep : (system E).step s c t) : t.Sound ∧ s.Exact c t := by
  obtain ⟨hpossible, rfl⟩ := hstep
  cases c with
  | addListener e ptr =>
    refine ⟨hs.addListener hpossible, _, rfl, ?_, rfl, ?_, ?_⟩
    · intro hh
      exact absurd (hs.handle_lt _ hh) (lt_irrefl _)
    · exact EventEmitter.addListener_set_self _ _ _
    · intro e' he
      exact EventEmitter.addListener_set_of_ne he _ _
  | removeListener e h =>
    refine ⟨hs.loses (EventEmitter.loses_removeListener hs.emitter e h.ptr) rfl, ?_, rfl, ?_, ?_⟩
    · obtain ⟨hh, hfound, -⟩ | ⟨hh, ⟨r, hr, hptr⟩, -⟩ | ⟨hh, -, hfound, -⟩ :=
        removeListener_eq hs e h
      · exact iff_of_true hfound hh
      · exact absurd hptr ((hcurrent.resolve_left hh) r hr)
      · exact iff_of_false (by rw [hfound]; exact Bool.false_ne_true) hh
    · obtain ⟨-, -, hset⟩ | ⟨hh, ⟨r, hr, hptr⟩, -⟩ | ⟨hh, -, -, hset⟩ := removeListener_eq hs e h
      · exact hset
      · exact absurd hptr ((hcurrent.resolve_left hh) r hr)
      · refine Eq.trans hset (List.filter_eq_self.mpr ?_).symm
        intro r hr
        simpa using fun heq : r = h => hh (heq ▸ hr)
    · intro e' he
      exact EventEmitter.removeListener_set_of_ne he _ _
  | removeAllListeners e =>
    refine ⟨hs.loses (EventEmitter.loses_removeAllListeners s.emitter e) rfl, rfl, ?_, ?_⟩
    · exact EventEmitter.removeAllListeners_set_self _ _
    · intro e' he
      exact EventEmitter.removeAllListeners_set_of_ne he _

theorem current_of_exact {c : ListenerCall E} (hs : s.Sound) (hexact : s.Exact c t) :
    s.Current c := by
  cases c with
  | removeListener e h =>
    obtain ⟨hh, -⟩ | ⟨hh, -, hfound⟩ | ⟨-, hnone, -⟩ := removeListener_eq hs e h
    · exact .inl hh
    · exact absurd (hexact.1.mp hfound) hh
    · exact .inr hnone
  | addListener e ptr => trivial
  | removeAllListeners e => trivial

/-- All calls on an emitter do what they are for, exactly if every handle is current when it is
used. -/
theorem exact_iff {cs : List (ListenerCall E)} (hs : (system E).initial s)
    (hrun : (system E).Run s cs t) :
    (system E).AlongSteps Exact s cs ↔ ((system E).guard Current).Run s cs t := by
  refine hrun.alongSteps_iff_guard ?_ ?_ ?_ (sound_of_initial hs)
  · rintro s c t u ⟨-, rfl⟩ ⟨-, rfl⟩
    rfl
  · intro s c t hs hcurrent hstep
    exact exact_of_current hs hcurrent hstep
  · intro s c t hs _ hexact
    exact current_of_exact hs hexact

/-- Two listeners of one event and one of another; the first is removed, and its handle is used
again, before and after a listener of the other event has its address; and a handle is used for
the wrong event. -/
def stale : List (ListenerCall Bool) :=
  [.addListener false 16, .addListener false 32, .addListener true 48,
    .removeListener false ⟨0, 16⟩, .removeListener false ⟨0, 16⟩, .addListener true 16,
    .removeListener false ⟨0, 16⟩, .removeListener false ⟨2, 48⟩, .removeListener true ⟨3, 16⟩,
    .removeAllListeners false]

/-- What these calls leave. -/
theorem exact_iff_stale : (system Bool).AlongSteps Exact ⟨.new Bool, []⟩ stale ∧
    (stale.foldl after ⟨.new Bool, []⟩).emitter.set_ true = [⟨2, 48⟩] ∧
    (stale.dropLast.foldl after ⟨.new Bool, []⟩).emitter.set_ false = [⟨1, 32⟩] := by
  have hrun : ((system Bool).guard Current).Run ⟨.new Bool, []⟩ stale _ :=
    System.Run.of_executes guard_step_after (by decide)
  exact ⟨(exact_iff rfl hrun.of_guard).mpr hrun, rfl, rfl⟩

/-- A listener is added and removed, one that is added then has its address, and the handle of
the first is used again. -/
def reused : List (ListenerCall Unit) :=
  [.addListener () 16, .removeListener () ⟨0, 16⟩, .addListener () 16]

/-- The handle of the first listener removes the second. -/
theorem exact_false_reused : ∃ t,
    (system Unit).Run ⟨.new Unit, []⟩ (reused ++ [.removeListener () ⟨0, 16⟩]) t ∧
    t.handles = [⟨1, 16⟩, ⟨0, 16⟩] ∧ t.emitter.set_ () = [] ∧
    ¬ (system Unit).AlongSteps Exact ⟨.new Unit, []⟩
      (reused ++ [.removeListener () ⟨0, 16⟩]) := by
  have hreused : (system Unit).Run ⟨.new Unit, []⟩ reused (reused.foldl after ⟨.new Unit, []⟩) :=
    System.Run.of_executes step_after (by decide)
  have hstale := step_after (reused.foldl after ⟨.new Unit, []⟩) (.removeListener () ⟨0, 16⟩)
    (by decide)
  refine ⟨_, hreused.snoc hstale, rfl, rfl, fun hexact => ?_⟩
  have hlast := hexact _ _ _ _ (List.prefix_refl _) hreused hstale
  exact absurd (hlast.1.mp rfl) (by decide)

end Listeners

end LibraCore
