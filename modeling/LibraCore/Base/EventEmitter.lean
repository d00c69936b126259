import LibraCore.Foundations.Transition

/-!
# `EventEmitter`

An emitter has a `std::list` of listeners for each event. `addListener` puts the address of a
new callback object at the end of the list of its event and returns that address;
`removeListener` erases the first node that has the address it is given. An event has a list of
its own, as `EventMap.resolves` says of the tuple.

A node is known by the call of `addListener` that made it, which the code does not record.

## Main results

- `EventEmitter.eraseLoop_eq` — what the loop of `removeListener` erases
- `EventEmitter.Sound.addListener`, `EventEmitter.Sound.loses` — the nodes stay different calls
-/

namespace LibraCore

/-- A node of the list of an event: the call of `addListener` that made it, and the address that
this call returned. -/
structure Registration where
  id : ℕ
  ptr : ℕ
  deriving DecidableEq, Repr

/-- The lists of an emitter, and how many calls of `addListener` there were. -/
structure EventEmitter (E : Type) where
  set_ : E → List Registration
  count : ℕ

namespace EventEmitter

variable {E : Type}

def new (E : Type) : EventEmitter E where
  set_ _ := []
  count := 0

/-- There is a callback object at the address. -/
def Live (s : EventEmitter E) (ptr : ℕ) : Prop := ∃ e, ∃ r ∈ s.set_ e, r.ptr = ptr

instance [Fintype E] (s : EventEmitter E) (ptr : ℕ) : Decidable (s.Live ptr) :=
  inferInstanceAs (Decidable (∃ e, ∃ r ∈ s.set_ e, r.ptr = ptr))

/-- The loop of `removeListener`: whether it returns from within, and what is left. -/
def eraseLoop (callbackPtr : ℕ) : List Registration → Bool × List Registration
  | [] => (false, [])
  | it :: rest =>
    if it.ptr = callbackPtr then (true, rest)
    else
      let (found, rest) := eraseLoop callbackPtr rest
      (found, it :: rest)

section Calls

variable [DecidableEq E]

/-- `addListener`, for which `new` has returned `ptr`. -/
def addListener (s : EventEmitter E) (e : E) (ptr : ℕ) : Registration × EventEmitter E :=
  let listener : Registration := ⟨s.count, ptr⟩
  (listener,
    { set_ := Function.update s.set_ e (s.set_ e ++ [listener])
      count := s.count + 1 })

def removeListener (s : EventEmitter E) (e : E) (callbackPtr : ℕ) : Bool × EventEmitter E :=
  let (found, entry) := eraseLoop callbackPtr (s.set_ e)
  (found, { s with set_ := Function.update s.set_ e entry })

def removeAllListeners (s : EventEmitter E) (e : E) : EventEmitter E :=
  { s with set_ := Function.update s.set_ e [] }

end Calls

/-! ### The lists -/

/-- The node that has the address is erased; no other has it. -/
theorem eraseLoop_eq {callbackPtr : ℕ} {l : List Registration} (hl : l.Nodup) :
    eraseLoop callbackPtr l = match l.find? fun r => r.ptr = callbackPtr with
      | none => (false, l)
      | some r => (true, l.filter (· ≠ r)) := by
  induction l with
  | nil => rfl
  | cons it rest ih =>
    obtain ⟨hit, hrest⟩ := List.nodup_cons.mp hl
    rw [eraseLoop, List.find?_cons]
    by_cases hptr : it.ptr = callbackPtr
    · have hkept : rest.filter (· ≠ it) = rest := by
        apply List.filter_eq_self.mpr
        intro r hr
        exact decide_eq_true fun heq => hit (heq ▸ hr)
      rw [if_pos hptr, decide_eq_true hptr]
      simp only
      rw [List.filter_cons_of_neg (by simp), hkept]
    · rw [if_neg hptr, decide_eq_false hptr, ih hrest]
      simp only
      cases hfind : rest.find? fun r => r.ptr = callbackPtr with
      | none => rfl
      | some r =>
        have hne : it ≠ r := by
          rintro rfl
          exact hit (List.mem_of_find?_eq_some hfind)
        have hkeep : (it :: rest).filter (· ≠ r) = it :: rest.filter (· ≠ r) :=
          List.filter_cons_of_pos (by simpa using hne)
        simp only
        rw [hkeep]

/-- The nodes of a list are different calls, made before now. -/
structure Sound (s : EventEmitter E) : Prop where
  nodup : ∀ e, (s.set_ e).Nodup
  id_lt : ∀ e, ∀ r ∈ s.set_ e, r.id < s.count

theorem sound_new : (new E).Sound :=
  ⟨fun _ => List.nodup_nil, fun _ _ hr => absurd hr List.not_mem_nil⟩

variable {s s' : EventEmitter E}

/-- A new node is none of those there are. -/
theorem Sound.fresh (hs : s.Sound) (e : E) (ptr : ℕ) : (⟨s.count, ptr⟩ : Registration) ∉ s.set_ e :=
  fun hr => absurd (hs.id_lt e _ hr) (lt_irrefl _)

/-- Every list has lost some of its nodes, or none. -/
def Loses (s s' : EventEmitter E) : Prop :=
  s'.count = s.count ∧ ∀ e, ∃ p : Registration → Bool, s'.set_ e = (s.set_ e).filter p

theorem Sound.loses (hs : s.Sound) (h : Loses s s') : s'.Sound := by
  obtain ⟨hcount, hset⟩ := h
  constructor
  · intro e
    obtain ⟨p, hp⟩ := hset e
    rw [hp]
    exact (hs.nodup e).filter p
  · intro e r hr
    obtain ⟨p, hp⟩ := hset e
    rw [hp] at hr
    rw [hcount]
    exact hs.id_lt e r (List.mem_of_mem_filter hr)

variable [DecidableEq E]

theorem addListener_set_self (s : EventEmitter E) (e : E) (ptr : ℕ) :
    (s.addListener e ptr).2.set_ e = s.set_ e ++ [⟨s.count, ptr⟩] := Function.update_self _ _ _

theorem addListener_set_of_ne {e e' : E} (h : e' ≠ e) (s : EventEmitter E) (ptr : ℕ) :
    (s.addListener e ptr).2.set_ e' = s.set_ e' := Function.update_of_ne h _ _

theorem removeAllListeners_set_self (s : EventEmitter E) (e : E) :
    (s.removeAllListeners e).set_ e = [] := Function.update_self _ _ _

theorem removeAllListeners_set_of_ne {e e' : E} (h : e' ≠ e) (s : EventEmitter E) :
    (s.removeAllListeners e).set_ e' = s.set_ e' := Function.update_of_ne h _ _

theorem removeListener_set_self (s : EventEmitter E) (e : E) (callbackPtr : ℕ) :
    (s.removeListener e callbackPtr).2.set_ e = (eraseLoop callbackPtr (s.set_ e)).2 :=
  Function.update_self _ _ _

theorem removeListener_set_of_ne {e e' : E} (h : e' ≠ e) (s : EventEmitter E) (callbackPtr : ℕ) :
    (s.removeListener e callbackPtr).2.set_ e' = s.set_ e' := Function.update_of_ne h _ _

/-- The list of one event loses nodes. -/
theorem loses_update (s : EventEmitter E) (e : E) {entry : List Registration}
    {p : Registration → Bool} (h : entry = (s.set_ e).filter p) :
    Loses s { s with set_ := Function.update s.set_ e entry } := by
  refine ⟨rfl, fun e' => ?_⟩
  by_cases he : e' = e
  · subst he
    exact ⟨p, (Function.update_self _ _ _).trans h⟩
  · exact ⟨fun _ => true, (Function.update_of_ne he _ _).trans (List.filter_true _).symm⟩

theorem loses_removeListener (hs : s.Sound) (e : E) (callbackPtr : ℕ) :
    Loses s (s.removeListener e callbackPtr).2 := by
  obtain ⟨p, hp⟩ : ∃ p, (eraseLoop callbackPtr (s.set_ e)).2 = (s.set_ e).filter p := by
    rw [eraseLoop_eq (hs.nodup e)]
    cases (s.set_ e).find? fun r => r.ptr = callbackPtr with
    | none => exact ⟨fun _ => true, (List.filter_true _).symm⟩
    | some r => exact ⟨fun r' => r' ≠ r, rfl⟩
  exact loses_update s e hp

theorem loses_removeAllListeners (s : EventEmitter E) (e : E) :
    Loses s (s.removeAllListeners e) :=
  loses_update s e (List.filter_false _).symm

theorem Sound.addListener (hs : s.Sound) (e : E) (ptr : ℕ) : (s.addListener e ptr).2.Sound := by
  constructor
  · intro e'
    by_cases he : e' = e
    · subst he
      rw [addListener_set_self]
      exact (List.nodup_append_comm.mp
        (List.nodup_cons.mpr ⟨hs.fresh e' ptr, hs.nodup e'⟩ : ([_] ++ s.set_ e').Nodup))
    · rw [addListener_set_of_ne he]
      exact hs.nodup e'
  · intro e' r hr
    by_cases he : e' = e
    · subst he
      rw [addListener_set_self] at hr
      obtain hr | hr := List.mem_append.mp hr
      · exact Nat.lt_succ_of_lt (hs.id_lt e' r hr)
      · rw [List.mem_singleton.mp hr]
        exact Nat.lt_succ_self _
    · rw [addListener_set_of_ne he] at hr
      exact Nat.lt_succ_of_lt (hs.id_lt e' r hr)

end EventEmitter

end LibraCore
