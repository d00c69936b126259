import Mathlib.Tactic

/-!
# The compile-time map of an emitter

`EventEmitter<M...>` is given lists of types in which event and callback types alternate.
The templates of `util` in `base/utility.h` join such lists, take them apart into the events
and the callbacks, and look an event up; the list of listeners of an event is found at the
position of the event. A type list is a list of its types, and `none` is a template that the
compiler cannot instantiate.

## Main results

- `EventMap.resolves` — every event is found, and has its own callback type
- `EventMap.callbackType_pairs` — the lookup, as that of an association list
-/

namespace LibraCore

namespace Util

variable {T : Type}

/-- `tuple_merge`, which is defined for two tuples at most. -/
def tupleMerge : List (List T) → Option (List T)
  | [] => some []
  | [ta] => some ta
  | [ta, tb] => some (ta ++ tb)
  | _ => none

/-- `tuple_append`, which puts the type in front. -/
def tupleAppend (a : T) (t : List T) : List T := a :: t

def tupleEvenElements : List T → Option (List T)
  | [] => some []
  | [_] => none
  | [a, _] => some [a]
  | a :: _ :: t => (tupleEvenElements t).map (tupleAppend a)

def tupleOddElements : List T → Option (List T)
  | [] => some []
  | [_] => none
  | [_, b] => some [b]
  | _ :: b :: t => (tupleOddElements t).map (tupleAppend b)

section Index

variable [DecidableEq T]

def tupleIndexR : List T → T → ℕ → Option ℕ
  | [], _, _ => none
  | h :: r, c, i => if c = h then some i else tupleIndexR r c (i + 1)

def tupleIndexOf (t : List T) (c : T) : Option ℕ := tupleIndexR t c 0

/-- The accumulator counts the types that were passed. -/
theorem tupleIndexR_eq (t : List T) (c : T) (i : ℕ) :
    tupleIndexR t c i = (t.idxOf? c).map (· + i) := by
  induction t generalizing i with
  | nil => rfl
  | cons h r ih =>
    rw [tupleIndexR, List.idxOf?_cons]
    by_cases hc : c = h
    · subst hc
      simp
    · have hne : (h == c) = false := beq_false_of_ne (Ne.symm hc)
      rw [if_neg hc, hne, ih, if_neg Bool.false_ne_true, Option.map_map]
      congr 1
      funext n
      simp only [Function.comp_apply]
      omega

theorem tupleIndexOf_eq (t : List T) (c : T) : tupleIndexOf t c = t.idxOf? c := by
  rw [tupleIndexOf, tupleIndexR_eq]
  simp

end Index

/-! ### Lists of pairs -/

/-- The list that the types of some pairs make up. -/
def alternate (pairs : List (T × T)) : List T := pairs.flatMap fun p => [p.1, p.2]

/-- A list of even length is made up of pairs. -/
theorem exists_alternate {t : List T} (h : Even t.length) : ∃ pairs, t = alternate pairs := by
  induction t using List.twoStepInduction with
  | nil => exact ⟨[], rfl⟩
  | singleton a => exact absurd h Nat.not_even_one
  | cons_cons a b t ih _ =>
    obtain ⟨pairs, rfl⟩ := ih (by simpa [parity_simps] using h)
    exact ⟨(a, b) :: pairs, rfl⟩

theorem tupleEvenElements_alternate (pairs : List (T × T)) :
    tupleEvenElements (alternate pairs) = some (pairs.map Prod.fst) := by
  induction pairs with
  | nil => rfl
  | cons p pairs ih =>
    obtain ⟨a, b⟩ := p
    cases pairs with
    | nil => rfl
    | cons q pairs =>
      show (tupleEvenElements (alternate (q :: pairs))).map (tupleAppend a) = _
      rw [ih]
      rfl

theorem tupleOddElements_alternate (pairs : List (T × T)) :
    tupleOddElements (alternate pairs) = some (pairs.map Prod.snd) := by
  induction pairs with
  | nil => rfl
  | cons p pairs ih =>
    obtain ⟨a, b⟩ := p
    cases pairs with
    | nil => rfl
    | cons q pairs =>
      show (tupleOddElements (alternate (q :: pairs))).map (tupleAppend b) = _
      rw [ih]
      rfl

/-- Where the types of a pair stand. -/
theorem getElem?_alternate (pairs : List (T × T)) (i : ℕ) :
    (alternate pairs)[2 * i]? = (pairs.map Prod.fst)[i]? ∧
      (alternate pairs)[2 * i + 1]? = (pairs.map Prod.snd)[i]? := by
  induction pairs generalizing i with
  | nil => exact ⟨rfl, rfl⟩
  | cons p pairs ih =>
    cases i with
    | zero => exact ⟨rfl, rfl⟩
    | succ i => exact ih i

end Util

/-! ### The map of an emitter -/

namespace EventMap

open Util

variable {T : Type}

def mergedMap (m : List (List T)) : Option (List T) := tupleMerge m

def events (m : List (List T)) : Option (List T) := mergedMap m >>= tupleEvenElements

def callbacks (m : List (List T)) : Option (List T) := mergedMap m >>= tupleOddElements

theorem events_eq {m : List (List T)} {pairs : List (T × T)}
    (h : mergedMap m = some (alternate pairs)) :
    events m = some (pairs.map Prod.fst) := by
  rw [events, h]
  exact tupleEvenElements_alternate pairs

theorem callbacks_eq {m : List (List T)} {pairs : List (T × T)}
    (h : mergedMap m = some (alternate pairs)) :
    callbacks m = some (pairs.map Prod.snd) := by
  rw [callbacks, h]
  exact tupleOddElements_alternate pairs

variable [DecidableEq T] (m : List (List T))

def eventIdx (e : T) : Option ℕ := do
  let events ← events m
  tupleIndexOf events e

/-- `callback_type`; the position is that of `std::tuple_element`. -/
def callbackType (e : T) : Option T := do
  let callbacks ← callbacks m
  let idx ← eventIdx m e
  callbacks[idx]?

/-- The events and the callbacks correspond, and each event that stands in the list, at an even
position, is found where it stands first, with the type that follows it there. -/
structure Resolves (merged : List T) : Prop where
  length_eq : ∃ es cs, events m = some es ∧ callbacks m = some cs ∧ es.length = cs.length
  resolved : ∀ e k, merged[2 * k]? = some e → ∃ i c,
    eventIdx m e = some i ∧ merged[2 * i]? = some e ∧ (∀ j < i, merged[2 * j]? ≠ some e) ∧
      (∀ es, events m = some es → es[i]? = some e ∧ ∀ j < i, es[j]? ≠ some e) ∧
      merged[2 * i + 1]? = some c ∧ callbackType m e = some c
  distinct : ∀ e e' k k', merged[2 * k]? = some e → merged[2 * k']? = some e' → e ≠ e' →
    eventIdx m e ≠ eventIdx m e'

variable {m}

theorem eventIdx_eq {pairs : List (T × T)} (h : mergedMap m = some (alternate pairs)) (e : T) :
    eventIdx m e = (pairs.map Prod.fst).idxOf? e := by
  rw [eventIdx, events_eq h]
  exact tupleIndexOf_eq _ e

theorem callbackType_eq {pairs : List (T × T)} (h : mergedMap m = some (alternate pairs)) {e : T}
    {i : ℕ} (hi : eventIdx m e = some i) : callbackType m e = (pairs.map Prod.snd)[i]? := by
  rw [callbackType, callbacks_eq h, hi]
  rfl

/-- The map of an emitter is an association list. -/
theorem callbackType_pairs {pairs : List (T × T)} (h : mergedMap m = some (alternate pairs))
    (e : T) : callbackType m e = pairs.lookup e := by
  rw [callbackType, callbacks_eq h, eventIdx_eq h]
  clear h
  induction pairs with
  | nil => rfl
  | cons p pairs ih =>
    obtain ⟨a, b⟩ := p
    simp only [List.map_cons, List.idxOf?_cons, List.lookup_cons]
    by_cases ha : a = e
    · subst ha
      simp
    · have hne : (a == e) = false := beq_false_of_ne ha
      have hne' : (e == a) = false := beq_false_of_ne (Ne.symm ha)
      rw [hne, if_neg Bool.false_ne_true, hne', ← ih]
      cases (pairs.map Prod.fst).idxOf? e with
      | none => rfl
      | some i => rfl

/-- Every event of a list of even length is found at its first position, and its callback is
the type behind it; two events are found at two positions. -/
theorem resolves {merged : List T} (hmerged : mergedMap m = some merged)
    (heven : Even merged.length) : Resolves m merged := by
  obtain ⟨pairs, rfl⟩ := exists_alternate heven
  have hidx : ∀ e k, (alternate pairs)[2 * k]? = some e → ∃ i, eventIdx m e = some i ∧
      (pairs.map Prod.fst)[i]? = some e ∧ ∀ j < i, (pairs.map Prod.fst)[j]? ≠ some e := by
    intro e k he
    rw [(getElem?_alternate pairs k).1] at he
    obtain ⟨i, hi⟩ := Option.isSome_iff_exists.mp
      (List.isSome_idxOf?.mpr (List.mem_of_getElem? he))
    obtain ⟨hlt, hget, hfirst⟩ := List.idxOf?_eq_some_iff.mp hi
    refine ⟨i, (eventIdx_eq hmerged e).trans hi, ?_, ?_⟩
    · rw [List.getElem?_eq_getElem hlt, hget]
    · intro j hj hsame
      obtain ⟨_, hsame⟩ := List.getElem?_eq_some_iff.mp hsame
      exact hfirst j hj hsame
  refine ⟨⟨_, _, events_eq hmerged, callbacks_eq hmerged, ?_⟩, ?_, ?_⟩
  · rw [List.length_map, List.length_map]
  · intro e k he
    obtain ⟨i, hi, hget, hfirst⟩ := hidx e k he
    obtain ⟨⟨a, c⟩, hpair, rfl⟩ : ∃ p, pairs[i]? = some p ∧ p.1 = e := by
      rw [List.getElem?_map] at hget
      exact Option.map_eq_some_iff.mp hget
    have hc : (pairs.map Prod.snd)[i]? = some c := by
      rw [List.getElem?_map, hpair]
      rfl
    refine ⟨i, c, hi, ?_, ?_, ?_, ?_, (callbackType_eq hmerged hi).trans hc⟩
    · rw [(getElem?_alternate pairs i).1, hget]
    · intro j hj
      rw [(getElem?_alternate pairs j).1]
      exact hfirst j hj
    · intro es hes
      obtain rfl := Option.some.inj ((events_eq hmerged).symm.trans hes)
      exact ⟨hget, hfirst⟩
    · rw [(getElem?_alternate pairs i).2, hc]
  · intro e e' k k' he he' hne hsame
    obtain ⟨i, hi, hget, -⟩ := hidx e k he
    obtain ⟨i', hi', hget', -⟩ := hidx e' k' he'
    obtain rfl := Option.some.inj (hi.symm.trans (hsame.trans hi'))
    exact hne (Option.some.inj (hget.symm.trans hget'))

/-- Two maps that both have the event 1: the callback is that of the first. -/
theorem resolves_two_maps : Resolves [[1, 10, 2, 20], [1, 30, 3, 20]] [1, 10, 2, 20, 1, 30, 3, 20] :=
  resolves rfl (by decide)

end EventMap

end LibraCore
