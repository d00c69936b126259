import LibraCore.Base.Emission

/-!
# The arguments of an `emit`

`emit` forwards one pack of arguments to each listener in turn. An rvalue that the callback type
of the event takes by value is moved from, and the listeners behind the first are given what is
left.

## Main results

- `Emission.received_iff` — when every listener receives what was passed to `emit`
-/

namespace LibraCore

section Forward

variable {E V : Type} {c : CallConvention E V} {e : E} {args : List (Argument V)}

/-- The call of a listener of `e` leaves the arguments as they are. -/
def Leaves (c : CallConvention E V) (e : E) (args : List (Argument V)) : Prop :=
  ∀ i a, args[i]? = some a → a.category = .rvalue → c.takes e i = .byValue →
    c.moved a.value = a.value

theorem leaves_iff_zipIdx : Leaves c e args ↔ ∀ p ∈ args.zipIdx, p.1.category = .rvalue →
    c.takes e p.2 = .byValue → c.moved p.1.value = p.1.value := by
  constructor
  · intro h p hp
    exact h p.2 p.1 (List.mem_zipIdx_iff_getElem?.mp hp)
  · intro h i a ha
    exact h (a, i) (List.mem_zipIdx_iff_getElem?.mpr ha)

instance [DecidableEq V] (c : CallConvention E V) (e : E) (args : List (Argument V)) :
    Decidable (Leaves c e args) :=
  decidable_of_iff _ leaves_iff_zipIdx.symm

theorem value_forward {i : ℕ} {a : Argument V} (h : (c.forward e i a).value = a.value)
    (hrvalue : a.category = .rvalue) (hvalue : c.takes e i = .byValue) :
    c.moved a.value = a.value := by
  rw [CallConvention.forward, hrvalue, hvalue] at h
  exact h

theorem forward_eq_self {i : ℕ} {a : Argument V}
    (h : a.category = .rvalue → c.takes e i = .byValue → c.moved a.value = a.value) :
    c.forward e i a = a := by
  obtain ⟨value, category⟩ := a
  rw [CallConvention.forward]
  cases category with
  | rvalue =>
    cases htakes : c.takes e i with
    | byValue =>
      have hmoved : c.moved value = value := h rfl htakes
      simp only [hmoved]
    | byConstRef => rfl
  | lvalue => rfl
  | constRvalue => rfl

theorem forwardAll_eq_self (h : Leaves c e args) : c.forwardAll e args = args := by
  apply List.ext_getElem?
  intro i
  rw [CallConvention.forwardAll, List.getElem?_mapIdx]
  cases ha : args[i]? with
  | none => rfl
  | some a => exact congrArg some (forward_eq_self (h i a ha))

theorem leaves_of_values (h : (c.forwardAll e args).map Argument.value = args.map Argument.value) :
    Leaves c e args := by
  intro i a ha
  have hi := congrArg (·[i]?) h
  simp only [CallConvention.forwardAll, List.getElem?_map, List.getElem?_mapIdx, ha,
    Option.map_some, Option.some.injEq] at hi
  exact value_forward hi

end Forward

namespace Emission

open Transition

variable {E V : Type} {c : CallConvention E V} {s t : Emission E V}

/-- Every listener that has been called has received the values that were passed to `emit`. -/
def Received (s : Emission E V) : Prop :=
  ∀ f ∈ s.frames, f.received = f.passed.map Argument.value

/-- When another listener is called after one, the callback type of the event takes no rvalue by
value, unless a move leaves the value as it is. -/
def Preserves (c : CallConvention E V) (s : Emission E V) : EmitterAction E V → Prop
  | .leave _ => ∀ f rest x l, s.frames = f :: rest → f.ahead s.emitter = some (x :: l) →
      Leaves c f.event f.passed
  | _ => True

theorem preserves_leave_iff {threw : Bool} :
    s.Preserves c (.leave threw) ↔ ∀ f ∈ s.frames.head?, ∀ ahead ∈ f.ahead s.emitter,
      ahead ≠ [] → Leaves c f.event f.passed := by
  constructor
  · intro h f hf ahead hahead hne
    obtain ⟨rest, hframes⟩ := List.head?_eq_some_iff.mp hf
    obtain ⟨x, l, rfl⟩ := List.exists_cons_of_ne_nil hne
    exact h f rest x l hframes hahead
  · intro h f rest x l hframes hahead
    exact h f (List.head?_eq_some_iff.mpr ⟨rest, hframes⟩) (x :: l) hahead (List.cons_ne_nil x l)

instance [DecidableEq V] (s : Emission E V) : (a : EmitterAction E V) → Decidable (s.Preserves c a)
  | .leave _ => decidable_of_iff _ preserves_leave_iff.symm
  | .addListener _ _ | .removeListener _ _ | .removeAllListeners _ | .emit _ _ =>
    inferInstanceAs (Decidable True)

/-- The listener that runs in a frame was given what was passed. -/
structure Given (c : CallConvention E V) (f : Frame E V) : Prop where
  received : f.received = f.passed.map Argument.value
  args : f.args = c.forwardAll f.event f.passed

theorem given_call {f : Frame E V} (hargs : f.args = f.passed) (x : Registration) :
    Given c (f.call c x) :=
  ⟨congrArg (List.map Argument.value) hargs, congrArg (c.forwardAll f.event) hargs⟩

variable [DecidableEq E]

/-- A step after which the listeners have received what was passed. -/
theorem given_of_preserves {a : EmitterAction E V} (hs : ∀ f ∈ s.frames, Given c f)
    (hkeeps : s.Preserves c a) (hstep : (system E c).step s a t) : ∀ f ∈ t.frames, Given c f := by
  obtain ⟨-, hpossible, rfl⟩ := hstep
  cases a with
  | addListener e ptr => exact hs
  | removeListener e callbackPtr => exact hs
  | removeAllListeners e => exact hs
  | emit e args =>
    intro f hf
    have hf' : f ∈ (s.emit c e args).frames := hf
    rw [emit] at hf'
    split at hf'
    · exact hs f hf'
    · obtain rfl | hf' := List.mem_cons.mp hf'
      · exact given_call rfl _
      · exact hs f hf'
  | leave threw =>
    obtain ⟨f, rest, hframes⟩ := List.exists_cons_of_ne_nil hpossible
    have hrest : ∀ g ∈ rest, Given c g := fun g hg => hs g (hframes ▸ List.mem_cons_of_mem _ hg)
    show ∀ g ∈ (s.leave c).frames, Given c g
    cases hahead : f.ahead s.emitter with
    | none =>
      rw [leave_erased hframes hahead]
      exact hs
    | some ahead =>
      cases ahead with
      | nil =>
        rw [leave_last hframes hahead]
        exact hrest
      | cons x l =>
        rw [leave_next hframes hahead]
        intro g hg
        obtain rfl | hg := List.mem_cons.mp hg
        · have hf : Given c f := hs f (hframes ▸ List.mem_cons_self)
          have hargs : f.args = f.passed := by
            rw [hf.args, forwardAll_eq_self (hkeeps f rest x l hframes hahead)]
          exact given_call hargs x
        · exact hrest g hg

theorem preserves_of_received {a : EmitterAction E V} (hs : ∀ f ∈ s.frames, Given c f)
    (hstep : (system E c).step s a t) (hreceived : t.Received) : s.Preserves c a := by
  obtain ⟨-, -, rfl⟩ := hstep
  cases a with
  | leave threw =>
    intro f rest x l hframes hahead
    have hf : Given c f := hs f (hframes ▸ List.mem_cons_self)
    have hnext : (f.call c x) ∈ (s.leave c).frames := by
      rw [leave_next hframes hahead]
      exact List.mem_cons_self
    have hvalues : f.args.map Argument.value = f.passed.map Argument.value := hreceived _ hnext
    rw [hf.args] at hvalues
    exact leaves_of_values hvalues
  | addListener e ptr => trivial
  | removeListener e callbackPtr => trivial
  | removeAllListeners e => trivial
  | emit e args => trivial

/-- All listeners receive what is passed, exactly if no argument is moved from when a listener is
called that has another behind it. -/
theorem received_iff {as : List (EmitterAction E V)} (hs : (system E c).initial s)
    (hrun : (system E c).Run s as t) :
    (system E c).Along Received s as ↔ ((system E c).guard (Preserves c)).Run s as t := by
  refine hrun.along_iff_guard (I := fun s => ∀ f ∈ s.frames, Given c f) (fun s a t u => step_unique)
    ?_ ?_ ?_ ?_
  · intro s hs f hf
    exact (hs f hf).received
  · intro s a t hs hkeeps hstep
    exact given_of_preserves hs hkeeps hstep
  · intro s a t hs hstep hreceived
    exact preserves_of_received hs hstep hreceived
  · obtain rfl := hs
    exact fun _ hf => absurd hf List.not_mem_nil

/-- An event whose callback type is `void(const std::string&)`, and one with `void(std::string)`;
a string that was moved from is empty. -/
def strings : CallConvention Bool String where
  takes byValue _ := if byValue then .byValue else .byConstRef
  moved _ := ""

/-- Two listeners of either event are added; an rvalue is passed to the one and an lvalue to the
other, and then the one that takes its parameter by value is emitted with an rvalue, with a
single listener left. -/
def passing : List (EmitterAction Bool String) :=
  [.addListener false 16, .addListener false 32, .addListener true 48, .addListener true 64,
    .emit false [⟨"text", .rvalue⟩], .leave false, .leave false,
    .emit true [⟨"text", .lvalue⟩], .leave false, .leave false,
    .removeListener true 48, .emit true [⟨"text", .rvalue⟩], .leave false]

/-- An rvalue that is referred to reaches both listeners, as does an lvalue. -/
theorem received_iff_passing :
    (system Bool strings).Along Received ⟨.new Bool, [], none⟩ passing := by
  have hrun : ((system Bool strings).guard (Preserves strings)).Run ⟨.new Bool, [], none⟩
      passing _ := System.Run.of_executes guard_step_after (by decide)
  exact (received_iff rfl hrun.of_guard).mpr hrun

/-- Two listeners that are called with an rvalue which the callback type takes by value. -/
def moving : List (EmitterAction Bool String) :=
  [.addListener true 16, .addListener true 32, .emit true [⟨"text", .rvalue⟩], .leave false]

/-- The second listener receives what the call of the first has left. -/
theorem received_false_rvalue :
    (∃ t, (system Bool strings).Run ⟨.new Bool, [], none⟩ moving t ∧
        t.frames.map (fun f => (f.it, f.received)) = [(⟨1, 32⟩, [""])]) ∧
      ¬ (system Bool strings).Along Received ⟨.new Bool, [], none⟩ moving := by
  have hrun : (system Bool strings).Run ⟨.new Bool, [], none⟩ moving
      (moving.foldl (after strings) ⟨.new Bool, [], none⟩) :=
    System.Run.of_executes step_after (by decide)
  refine ⟨⟨_, hrun, by decide⟩, fun halong => ?_⟩
  have hreceived := halong _ _ (List.prefix_refl _) hrun _ List.mem_cons_self
  exact absurd hreceived (by decide)

end Emission

end LibraCore
