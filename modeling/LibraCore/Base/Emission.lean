import LibraCore.Base.EventEmitter
import LibraCore.Base.Exception
import LibraCore.Foundations.LinkedList

/-!
# `EventEmitter::emit`

`emit` walks the list of its event and calls each listener, and what a listener throws is caught.
The list is the live one: a listener that runs may add and remove listeners and emit again, so
the loops in progress are a stack, and the end of a call is a step of its own. A loop holds its
node, and the callback object with it, during the call; it reads the link of the node after the
call.

A frame also records what the code does not: the list when `emit` began, the listeners called,
and the arguments passed and received.

## Main results

- `Frame.Sound.loses`, `Frame.Sound.addListener` — the walk over a list that changes
- `Emission.emits_iff` — when every listener is called that ought to be, and no other
-/

namespace LibraCore

/-- What the argument expression was. -/
inductive ValueCategory
  | lvalue | rvalue | constRvalue
  deriving DecidableEq, Repr

/-- A parameter is a value of its own, or refers to the argument. -/
inductive Passing
  | byValue | byConstRef
  deriving DecidableEq, Repr

structure Argument (V : Type) where
  value : V
  category : ValueCategory

/-- How `callback_type<E>::type` takes its `i`-th parameter, and what a value is once another has
been made from it by a move. All listeners of an event are called through this type; how the
function inside it takes what it is given no longer touches the arguments. -/
structure CallConvention (E V : Type) where
  takes : E → ℕ → Passing
  moved : V → V

namespace CallConvention

variable {E V : Type}

/-- The argument after `std::forward<A>(args)` has initialised a parameter. -/
def forward (c : CallConvention E V) (e : E) (i : ℕ) (a : Argument V) : Argument V :=
  match a.category, c.takes e i with
  | .rvalue, .byValue => { a with value := c.moved a.value }
  | _, _ => a

/-- The arguments after the call of a listener. -/
def forwardAll (c : CallConvention E V) (e : E) (args : List (Argument V)) :
    List (Argument V) :=
  args.mapIdx fun i a => c.forward e i a

end CallConvention

/-- A call of `emit` that has called a listener. -/
structure Frame (E V : Type) where
  event : E
  it : Registration
  args : List (Argument V)
  passed : List (Argument V)
  received : List V
  registered : List Registration
  called : List Registration

/-- An emitter with its calls of `emit`, the innermost first. -/
structure Emission (E V : Type) where
  emitter : EventEmitter E
  frames : List (Frame E V)
  fault : Option Fault

/-- What a program, or the listener that runs, does next. -/
inductive EmitterAction (E V : Type)
  | addListener (e : E) (ptr : ℕ)
  | removeListener (e : E) (callbackPtr : ℕ)
  | removeAllListeners (e : E)
  | emit (e : E) (args : List (Argument V))
  | leave (threw : Bool)

namespace Frame

variable {E V : Type}

/-- `emit`, before its loop. -/
def begin (s : EventEmitter E) (e : E) (args : List (Argument V)) (it : Registration) :
    Frame E V where
  event := e
  it := it
  args := args
  passed := args
  received := []
  registered := s.set_ e
  called := []

/-- `(*x)(std::forward<A>(args)...)`. -/
def call (c : CallConvention E V) (f : Frame E V) (x : Registration) : Frame E V :=
  { f with
    it := x
    args := c.forwardAll f.event f.args
    received := f.args.map Argument.value
    called := f.called ++ [x] }

/-- What the iterator has before it, if its node is there. -/
def ahead (s : EventEmitter E) (f : Frame E V) : Option (List Registration) :=
  LinkedList.behind f.it (s.set_ f.event)

/-- The listeners that are still to be called: they were there when `emit` began, and have not
been removed since. -/
def due (s : EventEmitter E) (f : Frame E V) : List Registration :=
  f.registered.filter fun r => r ∉ f.called ∧ r ∈ s.set_ f.event

end Frame

namespace Emission

open Transition

variable {E V : Type} (c : CallConvention E V)

/-- `emit`, up to its first call. -/
def emit (s : Emission E V) (e : E) (args : List (Argument V)) : Emission E V :=
  match s.emitter.set_ e with
  | [] => s
  | x :: _ => { s with frames := (Frame.begin s.emitter e args x).call c x :: s.frames }

/-- A listener has returned or thrown: `++it`, and the next call, if there is one. -/
def leave (s : Emission E V) : Emission E V :=
  match s.frames with
  | [] => s
  | f :: rest =>
    match f.ahead s.emitter with
    | none => { s with fault := some .destroyed }
    | some [] => { s with frames := rest }
    | some (x :: _) => { s with frames := f.call c x :: rest }

variable [DecidableEq E]

def after (s : Emission E V) : EmitterAction E V → Emission E V
  | .addListener e ptr => { s with emitter := (s.emitter.addListener e ptr).2 }
  | .removeListener e callbackPtr =>
    { s with emitter := (s.emitter.removeListener e callbackPtr).2 }
  | .removeAllListeners e => { s with emitter := s.emitter.removeAllListeners e }
  | .emit e args => s.emit c e args
  | .leave _ => s.leave c

/-- The allocator returns an address that is free, and a call that ends is in progress. -/
def Possible (s : Emission E V) : EmitterAction E V → Prop
  | .addListener _ ptr => ¬ s.emitter.Live ptr ∧ ∀ f ∈ s.frames, f.it.ptr ≠ ptr
  | .leave _ => s.frames ≠ []
  | _ => True

/-- A program with one emitter; nothing more happens after a fault. -/
def system (E : Type) [DecidableEq E] (c : CallConvention E V) :
    System (Emission E V) (EmitterAction E V) where
  initial s := s = ⟨.new E, [], none⟩
  step s a t := s.fault = none ∧ s.Possible a ∧ t = s.after c a

/-! ### What it is for -/

/-- The `emit` of `f` goes on as it should: the first listener that is still to be called is
called, and `emit` returns when there is none. -/
def GoesOn (s : Emission E V) (f : Frame E V) (rest : List (Frame E V)) (t : Emission E V) : Prop :=
  match f.due s.emitter with
  | [] => t.frames = rest
  | x :: _ => ∃ g, t.frames = g :: rest ∧ g.event = f.event ∧ g.registered = f.registered ∧
      g.it = x ∧ g.called = f.called ++ [x]

/-- Every `emit` goes on as it should, from the list that it finds on; it has called no more
than the listeners of that list, in their order and each once, and reads no erased node. -/
structure Emits (s : Emission E V) (a : EmitterAction E V) (t : Emission E V) : Prop where
  goesOn : match a with
    | .emit e args => ∀ it, s.GoesOn (.begin s.emitter e args it) s.frames t
    | .leave _ => ∀ f rest, s.frames = f :: rest → s.GoesOn f rest t
    | _ => t.frames = s.frames
  called : ∀ f ∈ t.frames, f.registered.Nodup ∧ f.called.Sublist f.registered
  fault : t.fault = none

/-- When a call ends, its listener has not been removed, and the one behind it, if any, is
older than the `emit`. -/
def Undisturbed (s : Emission E V) : EmitterAction E V → Prop
  | .leave _ => ∀ f rest, s.frames = f :: rest →
      ∃ ahead, f.ahead s.emitter = some ahead ∧ ∀ x ∈ ahead.head?, x ∈ f.registered
  | _ => True

omit [DecidableEq E] in
theorem undisturbed_leave_iff {s : Emission E V} {threw : Bool} :
    s.Undisturbed (.leave threw) ↔ ∀ f ∈ s.frames.head?, ∃ ahead ∈ f.ahead s.emitter,
      ∀ x ∈ ahead.head?, x ∈ f.registered := by
  constructor
  · intro h f hf
    obtain ⟨rest, hframes⟩ := List.head?_eq_some_iff.mp hf
    exact h f rest hframes
  · intro h f rest hframes
    exact h f (List.head?_eq_some_iff.mpr ⟨rest, hframes⟩)

instance [Fintype E] (s : Emission E V) : (a : EmitterAction E V) → Decidable (s.Possible a)
  | .addListener _ ptr =>
    inferInstanceAs (Decidable (¬ s.emitter.Live ptr ∧ ∀ f ∈ s.frames, f.it.ptr ≠ ptr))
  | .leave _ => decidable_of_iff (s.frames.isEmpty = false) List.isEmpty_eq_false_iff
  | .removeListener _ _ | .removeAllListeners _ | .emit _ _ => inferInstanceAs (Decidable True)

instance (s : Emission E V) : (a : EmitterAction E V) → Decidable (s.Undisturbed a)
  | .leave _ => decidable_of_iff _ undisturbed_leave_iff.symm
  | .addListener _ _ | .removeListener _ _ | .removeAllListeners _ | .emit _ _ =>
    inferInstanceAs (Decidable True)

end Emission

/-- An `emit` makes no more calls than there were listeners when it began, so that it ends when
the calls do. -/
theorem Emission.Emits.calls_le {E V : Type} {s t : Emission E V} {a : EmitterAction E V}
    (h : s.Emits a t) {f : Frame E V} (hf : f ∈ t.frames) :
    f.called.length ≤ f.registered.length :=
  (h.called f hf).2.length_le

/-! ### The walk -/

namespace Frame

variable {E V : Type} {c : CallConvention E V} {s s' : EventEmitter E} {f : Frame E V}

/-- A frame whose loop walks over the listeners that are to be called, and then over newer
ones, unless its node has been erased. -/
structure Sound (s : EventEmitter E) (f : Frame E V) : Prop where
  nodup : f.registered.Nodup
  id_lt : ∀ r ∈ f.registered, r.id < s.count
  order : (f.called ++ f.due s).Sublist f.registered
  it_mem : f.it ∈ f.called
  walk : ∀ ahead, f.ahead s = some ahead →
    ∃ newer, ahead = f.due s ++ newer ∧ ∀ r ∈ newer, r ∉ f.registered

theorem Sound.it_registered (hf : f.Sound s) : f.it ∈ f.registered :=
  hf.order.subset (List.mem_append_left _ hf.it_mem)

theorem Sound.called_sublist (hf : f.Sound s) : f.called.Sublist f.registered :=
  (List.sublist_append_left _ _).trans hf.order

/-- Before its first call, a loop has the whole list to call. -/
theorem due_begin (s : EventEmitter E) (e : E) (args : List (Argument V)) (it : Registration) :
    (begin s e args it).due s = s.set_ e := by
  apply List.filter_eq_self.mpr
  intro r hr
  exact decide_eq_true ⟨List.not_mem_nil, hr⟩

/-- A listener that is called is not called again. -/
theorem due_call (hf : f.registered.Nodup) {x : Registration} {t : List Registration}
    (hdue : f.due s = x :: t) : (f.call c x).due s = t := by
  have hrest : (f.call c x).due s = (f.due s).filter (· ≠ x) := by
    rw [due, due, List.filter_filter]
    congr 1
    funext r
    rw [Bool.eq_iff_iff, Bool.and_eq_true, decide_eq_true_iff, decide_eq_true_iff,
      decide_eq_true_iff]
    simp only [call, List.mem_append, List.mem_singleton, not_or]
    constructor
    · rintro ⟨⟨hcalled, hne⟩, hr⟩
      exact ⟨hne, hcalled, hr⟩
    · rintro ⟨hne, hcalled, hr⟩
      exact ⟨⟨hcalled, hne⟩, hr⟩
  have hnodup : (x :: t).Nodup := hdue ▸ hf.filter _
  rw [hrest, hdue, List.filter_cons_of_neg (by simp)]
  apply List.filter_eq_self.mpr
  intro r hr
  exact decide_eq_true fun heq => (List.nodup_cons.mp hnodup).1 (heq ▸ hr)

/-- The call of the first listener that is to be called, with the loop at its node. -/
theorem sound_call {x : Registration} {t newer : List Registration} (hnodup : f.registered.Nodup)
    (hid : ∀ r ∈ f.registered, r.id < s.count) (horder : (f.called ++ f.due s).Sublist f.registered)
    (hdue : f.due s = x :: t) (hahead : LinkedList.behind x (s.set_ f.event) = some (t ++ newer))
    (hnewer : ∀ r ∈ newer, r ∉ f.registered) : (f.call c x).Sound s where
  nodup := hnodup
  id_lt := hid
  order := by
    rw [due_call hnodup hdue]
    show (f.called ++ [x] ++ t).Sublist f.registered
    rw [List.append_assoc, List.singleton_append, ← hdue]
    exact horder
  it_mem := List.mem_append_right _ (List.mem_singleton_self x)
  walk := by
    intro ahead h
    obtain rfl := Option.some.inj (hahead.symm.trans h)
    exact ⟨newer, by rw [due_call hnodup hdue], hnewer⟩

theorem sound_begin (hs : s.Sound) {e : E} {args : List (Argument V)} {x : Registration}
    {t : List Registration} (hset : s.set_ e = x :: t) : ((begin s e args x).call c x).Sound s := by
  have hdue := due_begin s e args x
  have hnewer : ∀ r ∈ ([] : List Registration), r ∉ s.set_ e := fun _ hr =>
    absurd hr List.not_mem_nil
  refine sound_call (hs.nodup e) (hs.id_lt e) ?_ (hdue.trans hset) ?_ hnewer
  · rw [hdue]
    exact List.Sublist.refl _
  · show LinkedList.behind x (s.set_ e) = _
    rw [hset, LinkedList.behind_cons_self, List.append_nil]

/-- Listeners are removed. -/
theorem Sound.loses (hf : f.Sound s) (h : EventEmitter.Loses s s') : f.Sound s' := by
  obtain ⟨p, hp⟩ := h.2 f.event
  have hdue : f.due s' = (f.due s).filter p := by
    rw [due, due, List.filter_filter]
    congr 1
    funext r
    rw [Bool.eq_iff_iff, Bool.and_eq_true, decide_eq_true_iff, decide_eq_true_iff, hp,
      List.mem_filter]
    constructor
    · rintro ⟨hcalled, hr, hkept⟩
      exact ⟨hkept, hcalled, hr⟩
    · rintro ⟨hkept, hcalled, hr⟩
      exact ⟨hcalled, hr, hkept⟩
  refine ⟨hf.nodup, by rw [h.1]; exact hf.id_lt, ?_, hf.it_mem, ?_⟩
  · rw [hdue]
    exact ((List.Sublist.refl _).append (List.filter_sublist)).trans hf.order
  · intro ahead hahead
    rw [Frame.ahead, hp] at hahead
    cases hit : p f.it with
    | false =>
      -- the node of the loop is gone
      have hgone : f.it ∉ (s.set_ f.event).filter p := by
        intro hmem
        rw [(List.mem_filter.mp hmem).2] at hit
        cases hit
      rw [LinkedList.behind_eq_none.mpr hgone] at hahead
      cases hahead
    | true =>
      rw [LinkedList.behind_filter hit] at hahead
      obtain ⟨ahead', hahead', rfl⟩ := Option.map_eq_some_iff.mp hahead
      obtain ⟨newer, rfl, hnewer⟩ := hf.walk ahead' hahead'
      refine ⟨newer.filter p, by rw [hdue, List.filter_append], ?_⟩
      intro r hr
      exact hnewer r (List.mem_of_mem_filter hr)

/-- A listener is added. -/
theorem Sound.addListener [DecidableEq E] (hf : f.Sound s) (e : E) (ptr : ℕ) :
    f.Sound (s.addListener e ptr).2 := by
  have hnew : (⟨s.count, ptr⟩ : Registration) ∉ f.registered := fun hmem =>
    absurd (hf.id_lt _ hmem) (lt_irrefl _)
  have hid : ∀ r ∈ f.registered, r.id < (s.addListener e ptr).2.count := fun r hr =>
    Nat.lt_succ_of_lt (hf.id_lt r hr)
  by_cases he : f.event = e
  · subst he
    have hset := EventEmitter.addListener_set_self s f.event ptr
    have hdue : f.due (s.addListener f.event ptr).2 = f.due s := by
      apply List.filter_congr
      intro r hr
      have hne : r ≠ ⟨s.count, ptr⟩ := fun heq => hnew (heq ▸ hr)
      apply decide_eq_decide.mpr
      rw [hset, List.mem_append, List.mem_singleton, or_iff_left hne]
    refine ⟨hf.nodup, hid, hdue ▸ hf.order, hf.it_mem, ?_⟩
    intro ahead hahead
    rw [Frame.ahead, hset] at hahead
    cases hold : f.ahead s with
    | none =>
      have hgone : f.it ∉ s.set_ f.event ++ [⟨s.count, ptr⟩] := by
        rw [List.mem_append, List.mem_singleton, not_or]
        exact ⟨LinkedList.behind_eq_none.mp hold, fun heq => hnew (heq ▸ hf.it_registered)⟩
      rw [LinkedList.behind_eq_none.mpr hgone] at hahead
      cases hahead
    | some ahead' =>
      obtain ⟨newer, rfl, hnewer⟩ := hf.walk ahead' hold
      obtain rfl := Option.some.inj ((LinkedList.behind_append hold _).symm.trans hahead)
      refine ⟨newer ++ [⟨s.count, ptr⟩], by rw [hdue, List.append_assoc], ?_⟩
      intro r hr
      obtain hr | hr := List.mem_append.mp hr
      · exact hnewer r hr
      · rw [List.mem_singleton.mp hr]
        exact hnew
  · have hset := EventEmitter.addListener_set_of_ne he s ptr
    have hdue : f.due (s.addListener e ptr).2 = f.due s := by rw [due, due, hset]
    have hahead : f.ahead (s.addListener e ptr).2 = f.ahead s := by
      rw [Frame.ahead, Frame.ahead, hset]
    refine ⟨hf.nodup, hid, hdue ▸ hf.order, hf.it_mem, ?_⟩
    rw [hahead, hdue]
    exact hf.walk

end Frame

namespace Emission

open Transition

variable {E V : Type} {c : CallConvention E V} {s t : Emission E V}

/-- Nothing has gone wrong. -/
structure Sound (s : Emission E V) : Prop where
  emitter : s.emitter.Sound
  frames : ∀ f ∈ s.frames, f.Sound s.emitter
  fault : s.fault = none

theorem Sound.called (hs : s.Sound) :
    ∀ f ∈ s.frames, f.registered.Nodup ∧ f.called.Sublist f.registered :=
  fun f hf => ⟨(hs.frames f hf).nodup, (hs.frames f hf).called_sublist⟩

theorem leave_erased {f : Frame E V} {rest : List (Frame E V)} (hframes : s.frames = f :: rest)
    (hahead : f.ahead s.emitter = none) : s.leave c = { s with fault := some .destroyed } := by
  rw [leave, hframes]
  simp only [hahead]

theorem leave_last {f : Frame E V} {rest : List (Frame E V)} (hframes : s.frames = f :: rest)
    (hahead : f.ahead s.emitter = some []) : s.leave c = { s with frames := rest } := by
  rw [leave, hframes]
  simp only [hahead]

theorem leave_next {f : Frame E V} {rest : List (Frame E V)} {x : Registration}
    {l : List Registration} (hframes : s.frames = f :: rest)
    (hahead : f.ahead s.emitter = some (x :: l)) :
    s.leave c = { s with frames := f.call c x :: rest } := by
  rw [leave, hframes]
  simp only [hahead]

/-- The first call of an `emit`. -/
theorem emits_emit (hs : s.Sound) (e : E) (args : List (Argument V)) :
    (s.emit c e args).Sound ∧
      ∀ it, s.GoesOn (.begin s.emitter e args it) s.frames (s.emit c e args) := by
  cases hset : s.emitter.set_ e with
  | nil =>
    have hemit : s.emit c e args = s := by
      rw [emit, hset]
    refine ⟨by rw [hemit]; exact hs, fun it => ?_⟩
    rw [GoesOn, Frame.due_begin, hset, hemit]
  | cons x l =>
    have hemit : s.emit c e args =
        { s with frames := (Frame.begin s.emitter e args x).call c x :: s.frames } := by
      rw [emit, hset]
    refine ⟨?_, fun it => ?_⟩
    · rw [hemit]
      refine ⟨hs.emitter, fun f hf => ?_, hs.fault⟩
      obtain rfl | hf := List.mem_cons.mp hf
      · exact Frame.sound_begin hs.emitter hset
      · exact hs.frames f hf
    · rw [GoesOn, Frame.due_begin, hset, hemit]
      exact ⟨_, rfl, rfl, rfl, rfl, rfl⟩

/-- A call ends, and the list ahead of the loop is what it should be. -/
theorem emits_leave {f : Frame E V} {rest : List (Frame E V)} {ahead : List Registration}
    (hs : s.Sound) (hframes : s.frames = f :: rest) (hahead : f.ahead s.emitter = some ahead)
    (hold : ∀ x ∈ ahead.head?, x ∈ f.registered) :
    (s.leave c).Sound ∧ s.GoesOn f rest (s.leave c) := by
  have hf : f.Sound s.emitter := hs.frames f (hframes ▸ List.mem_cons_self)
  have hrest : ∀ g ∈ rest, g.Sound s.emitter := fun g hg =>
    hs.frames g (hframes ▸ List.mem_cons_of_mem _ hg)
  obtain ⟨newer, rfl, hnewer⟩ := hf.walk ahead hahead
  cases hdue : f.due s.emitter with
  | nil =>
    have hnone : newer = [] := by
      cases newer with
      | nil => rfl
      | cons x l =>
        rw [hdue] at hold
        exact absurd (hold x rfl) (hnewer x List.mem_cons_self)
    rw [hdue, hnone] at hahead
    rw [leave_last hframes hahead, GoesOn, hdue]
    exact ⟨⟨hs.emitter, hrest, hs.fault⟩, rfl⟩
  | cons x l =>
    rw [hdue] at hahead
    rw [leave_next hframes hahead, GoesOn, hdue]
    refine ⟨⟨hs.emitter, fun g hg => ?_, hs.fault⟩, _, rfl, rfl, rfl, rfl, rfl⟩
    obtain rfl | hg := List.mem_cons.mp hg
    · exact Frame.sound_call hf.nodup hf.id_lt hf.order hdue
        (LinkedList.behind_next (hs.emitter.nodup _) hahead) hnewer
    · exact hrest g hg

/-- An `emit` that went on as it should was undisturbed. -/
theorem undisturbed_of_goesOn {f : Frame E V} {rest : List (Frame E V)}
    (hframes : s.frames = f :: rest) (hgoes : s.GoesOn f rest (s.leave c))
    (hfault : (s.leave c).fault = none) :
    ∃ ahead, f.ahead s.emitter = some ahead ∧ ∀ x ∈ ahead.head?, x ∈ f.registered := by
  cases hahead : f.ahead s.emitter with
  | none =>
    rw [leave_erased hframes hahead] at hfault
    cases hfault
  | some ahead =>
    refine ⟨ahead, rfl, fun x hx => ?_⟩
    obtain ⟨l, rfl⟩ := List.head?_eq_some_iff.mp hx
    rw [leave_next hframes hahead, GoesOn] at hgoes
    cases hdue : f.due s.emitter with
    | nil =>
      rw [hdue] at hgoes
      exact absurd hgoes (List.cons_ne_self _ _)
    | cons y l' =>
      rw [hdue] at hgoes
      obtain ⟨g, hg, -, -, hit, -⟩ := hgoes
      obtain rfl := (List.cons.inj hg).1
      have hxy : x = y := hit
      have hy : y ∈ f.due s.emitter := hdue ▸ List.mem_cons_self
      rw [hxy]
      exact List.mem_of_mem_filter hy

theorem Sound.loses (hs : s.Sound) {emitter : EventEmitter E}
    (h : EventEmitter.Loses s.emitter emitter) : ({ s with emitter } : Emission E V).Sound :=
  ⟨hs.emitter.loses h, fun f hf => (hs.frames f hf).loses h, hs.fault⟩

variable [DecidableEq E]

theorem sound_of_initial (hs : (system E c).initial s) : s.Sound := by
  obtain rfl := hs
  exact ⟨EventEmitter.sound_new, fun _ hf => absurd hf List.not_mem_nil, rfl⟩

theorem step_unique {a : EmitterAction E V} {u : Emission E V} (ht : (system E c).step s a t)
    (hu : (system E c).step s a u) : t = u := ht.2.2.trans hu.2.2.symm

theorem step_after (s : Emission E V) (a : EmitterAction E V) (h : s.fault = none ∧ s.Possible a) :
    (system E c).step s a (s.after c a) := ⟨h.1, h.2, rfl⟩

theorem guard_step_after {G : Emission E V → EmitterAction E V → Prop} (s : Emission E V)
    (a : EmitterAction E V) (h : G s a ∧ s.fault = none ∧ s.Possible a) :
    ((system E c).guard G).step s a (s.after c a) := ⟨h.1, step_after s a h.2⟩

/-- A step of an undisturbed `emit`. -/
theorem emits_of_undisturbed {a : EmitterAction E V} (hs : s.Sound) (hquiet : s.Undisturbed a)
    (hstep : (system E c).step s a t) : t.Sound ∧ s.Emits a t := by
  obtain ⟨-, hpossible, rfl⟩ := hstep
  cases a with
  | addListener e ptr =>
    have ht : (s.after c (.addListener e ptr)).Sound :=
      ⟨hs.emitter.addListener e ptr, fun f hf => (hs.frames f hf).addListener e ptr, hs.fault⟩
    exact ⟨ht, rfl, ht.called, ht.fault⟩
  | removeListener e callbackPtr =>
    have ht : (s.after c (.removeListener e callbackPtr)).Sound :=
      hs.loses (EventEmitter.loses_removeListener hs.emitter e callbackPtr)
    exact ⟨ht, rfl, ht.called, ht.fault⟩
  | removeAllListeners e =>
    have ht : (s.after c (.removeAllListeners e)).Sound :=
      hs.loses (EventEmitter.loses_removeAllListeners s.emitter e)
    exact ⟨ht, rfl, ht.called, ht.fault⟩
  | emit e args =>
    obtain ⟨ht, hgoes⟩ := emits_emit (c := c) hs e args
    exact ⟨ht, hgoes, ht.called, ht.fault⟩
  | leave threw =>
    obtain ⟨f, rest, hframes⟩ := List.exists_cons_of_ne_nil hpossible
    obtain ⟨ahead, hahead, hold⟩ := hquiet f rest hframes
    obtain ⟨ht, hgoes⟩ := emits_leave (c := c) hs hframes hahead hold
    refine ⟨ht, ?_, ht.called, ht.fault⟩
    intro f' rest' hframes'
    obtain ⟨rfl, rfl⟩ := List.cons.inj (hframes.symm.trans hframes')
    exact hgoes

theorem undisturbed_of_emits {a : EmitterAction E V} (hstep : (system E c).step s a t)
    (hemits : s.Emits a t) : s.Undisturbed a := by
  obtain ⟨-, -, rfl⟩ := hstep
  cases a with
  | leave threw =>
    intro f rest hframes
    exact undisturbed_of_goesOn hframes (hemits.goesOn f rest hframes) hemits.fault
  | addListener e ptr => trivial
  | removeListener e callbackPtr => trivial
  | removeAllListeners e => trivial
  | emit e args => trivial

/-- Whatever listeners do, every `emit` calls those that ought to be called, and no others,
exactly if it is undisturbed at the end of every call. -/
theorem emits_iff {as : List (EmitterAction E V)} (hs : (system E c).initial s)
    (hrun : (system E c).Run s as t) :
    (system E c).AlongSteps Emits s as ↔ ((system E c).guard Undisturbed).Run s as t := by
  refine hrun.alongSteps_iff_guard (fun s a t u => step_unique) ?_ ?_ (sound_of_initial hs)
  · intro s a t hs hquiet hstep
    exact emits_of_undisturbed hs hquiet hstep
  · intro s a t _ hstep hemits
    exact undisturbed_of_emits hstep hemits

/-- Parameters that refer to their arguments. -/
def byReference (E : Type) : CallConvention E Unit := ⟨fun _ _ => .byConstRef, id⟩

/-- Four listeners of one event. The first removes the second while it runs, and emits another
event; the third removes the first, adds a fifth, and throws; the fourth removes the fifth. -/
def changing : List (EmitterAction Bool Unit) :=
  [.addListener false 16, .addListener false 32, .addListener false 48, .addListener false 64,
    .addListener true 80, .emit false [], .removeListener false 32, .emit true [], .leave false,
    .leave false, .removeListener false 16, .addListener false 96, .leave true,
    .removeListener false 96, .leave false]

/-- The first, the third and the fourth listener are called. -/
theorem emits_iff_changing :
    (system Bool (byReference Bool)).AlongSteps Emits ⟨.new Bool, [], none⟩ changing ∧
      ((changing.dropLast.foldl (after (byReference Bool)) ⟨.new Bool, [], none⟩).frames.map
        fun f => f.called) = [[⟨0, 16⟩, ⟨2, 48⟩, ⟨3, 64⟩]] := by
  have hrun : ((system Bool (byReference Bool)).guard Undisturbed).Run ⟨.new Bool, [], none⟩
      changing _ := System.Run.of_executes guard_step_after (by decide)
  exact ⟨(emits_iff rfl hrun.of_guard).mpr hrun, by decide⟩

/-- A listener has been added, and is running. -/
def running : Emission Unit Unit :=
  [EmitterAction.addListener () 16, .emit () []].foldl (after (byReference Unit))
    ⟨.new Unit, [], none⟩

theorem run_running : (system Unit (byReference Unit)).Run ⟨.new Unit, [], none⟩
    [.addListener () 16, .emit () []] running :=
  System.Run.of_executes step_after (by decide)

/-- A listener that removes itself leaves the loop at an erased node; one that adds a listener
is followed by that listener. -/
theorem emits_false_disturbed :
    (∃ t, (system Unit (byReference Unit)).Run ⟨.new Unit, [], none⟩
        [.addListener () 16, .emit () [], .removeListener () 16, .leave false] t ∧
        t.fault = some .destroyed) ∧
      ¬ (system Unit (byReference Unit)).AlongSteps Emits ⟨.new Unit, [], none⟩
        [.addListener () 16, .emit () [], .removeListener () 16, .leave false] ∧
      (∃ t, (system Unit (byReference Unit)).Run ⟨.new Unit, [], none⟩
        [.addListener () 16, .emit () [], .addListener () 32, .leave false] t ∧
        t.frames.map (fun f => (f.registered, f.called)) =
          [([⟨0, 16⟩], [⟨0, 16⟩, ⟨1, 32⟩])]) ∧
      ¬ (system Unit (byReference Unit)).AlongSteps Emits ⟨.new Unit, [], none⟩
        [.addListener () 16, .emit () [], .addListener () 32, .leave false] := by
  have hremove : (system Unit (byReference Unit)).Run ⟨.new Unit, [], none⟩
      [.addListener () 16, .emit () [], .removeListener () 16]
      (running.after (byReference Unit) (.removeListener () 16)) :=
    run_running.snoc ⟨rfl, trivial, rfl⟩
  have herased : (system Unit (byReference Unit)).step
      (running.after (byReference Unit) (.removeListener () 16)) (.leave false) _ :=
    ⟨rfl, List.cons_ne_nil _ _, rfl⟩
  have hadd : (system Unit (byReference Unit)).Run ⟨.new Unit, [], none⟩
      [.addListener () 16, .emit () [], .addListener () 32]
      (running.after (byReference Unit) (.addListener () 32)) :=
    run_running.snoc ⟨rfl, by decide, rfl⟩
  have hnewer : (system Unit (byReference Unit)).step
      (running.after (byReference Unit) (.addListener () 32)) (.leave false) _ :=
    ⟨rfl, List.cons_ne_nil _ _, rfl⟩
  refine ⟨⟨_, hremove.snoc herased, rfl⟩, fun hemits => ?_, ⟨_, hadd.snoc hnewer, rfl⟩,
    fun hemits => ?_⟩
  · have hlast := hemits _ _ _ _ (List.prefix_refl _) hremove herased
    exact absurd hlast.fault nofun
  · have hlast := hemits _ _ _ _ (List.prefix_refl _) hadd hnewer
    exact absurd (hlast.calls_le List.mem_cons_self) (by decide)

end Emission

end LibraCore
