import Mathlib.Tactic

/-!
# A heap managed by hand

Objects are made under fresh addresses, and deleted, once or more often than that: `deletes`
lists every deletion, and the number of times an address occurs there says whether an
object was leaked, deleted, or deleted again. `Heap.SameAt` says that nothing happened at
an address.

`Heap.Separate` is about things that have objects of their own. What one of them does,
within its own objects and new ones, is nothing to the others.

## Main results

- `Heap.Change.trans` — two changes, one after the other
- `Heap.Separate.set` — one thing goes on, the others keep what holds of them
- `Heap.Separate.push` — a new thing, made of new objects
-/

/-- Objects by address, and the history of their making and deletion. -/
structure Heap (Ω : Type*) where
  next : ℕ
  cells : ℕ → Option Ω
  allocs : List ℕ
  deletes : List ℕ

namespace Heap

variable {Ω : Type*}

def empty : Heap Ω := { next := 0, cells := fun _ => none, allocs := [], deletes := [] }

/-- Make the object `o` at the address `h.next`. -/
def new (h : Heap Ω) (o : Ω) : Heap Ω :=
  { h with
    next := h.next + 1
    cells := Function.update h.cells h.next (some o)
    allocs := h.allocs ++ [h.next] }

/-- An address given to an object that is not on record. -/
def skip (h : Heap Ω) : Heap Ω := { h with next := h.next + 1 }

def write (h : Heap Ω) (a : ℕ) (o : Ω) : Heap Ω :=
  { h with cells := Function.update h.cells a (some o) }

/-- Deleting the null pointer does nothing. -/
def delete (h : Heap Ω) : Option ℕ → Heap Ω
  | none => h
  | some a =>
    { h with cells := Function.update h.cells a none, deletes := h.deletes ++ [a] }

/-- Nothing has happened at an address. -/
def SameAt (h h' : Heap Ω) (a : ℕ) : Prop :=
  h'.cells a = h.cells a ∧ h'.deletes.count a = h.deletes.count a

variable {h h' h'' : Heap Ω} {a : ℕ}

/-- How a heap grows: the addresses given out, the objects made and deleted, and the old
addresses where something is different now. -/
structure Change (h h' : Heap Ω) (n : ℕ) (made deleted touched : List ℕ) : Prop where
  next : h'.next = h.next + n
  allocs : h'.allocs = h.allocs ++ made
  deletes : h'.deletes = h.deletes ++ deleted
  cells : ∀ a < h.next, a ∉ touched → h'.cells a = h.cells a

section Change

variable {n : ℕ} {made deleted touched : List ℕ}

theorem Change.sameAt (hc : Change h h' n made deleted touched) (ha : a < h.next)
    (hdeleted : a ∉ deleted) (htouched : a ∉ touched) : SameAt h h' a := by
  refine ⟨hc.cells a ha htouched, ?_⟩
  rw [hc.deletes, List.count_append, List.count_eq_zero.mpr hdeleted, Nat.add_zero]

theorem Change.count (hc : Change h h' n made deleted touched) (a : ℕ) :
    h'.deletes.count a = h.deletes.count a + deleted.count a := by
  rw [hc.deletes, List.count_append]

theorem Change.made_eq (hc : Change h h' n made deleted touched) :
    h'.allocs.drop h.allocs.length = made := by
  rw [hc.allocs, List.drop_left]

theorem change_new (h : Heap Ω) (o : Ω) : Change h (h.new o) 1 [h.next] [] [] where
  next := rfl
  allocs := rfl
  deletes := (List.append_nil _).symm
  cells _ ha _ := Function.update_of_ne (Nat.ne_of_lt ha) _ _

theorem change_write (h : Heap Ω) (a : ℕ) (o : Ω) : Change h (h.write a o) 0 [] [] [a] where
  next := rfl
  allocs := (List.append_nil _).symm
  deletes := (List.append_nil _).symm
  cells _ _ hne := Function.update_of_ne (List.ne_of_not_mem_cons hne) _ _

theorem change_delete (h : Heap Ω) (p : Option ℕ) :
    Change h (h.delete p) 0 [] p.toList p.toList := by
  cases p with
  | none => exact ⟨rfl, (List.append_nil _).symm, (List.append_nil _).symm, fun _ _ _ => rfl⟩
  | some a =>
    exact ⟨rfl, (List.append_nil _).symm, rfl,
      fun _ _ hne => Function.update_of_ne (List.ne_of_not_mem_cons hne) _ _⟩

theorem Change.trans {n' : ℕ} {made' deleted' touched' : List ℕ}
    (h₁ : Change h h' n made deleted touched) (h₂ : Change h' h'' n' made' deleted' touched') :
    Change h h'' (n + n') (made ++ made') (deleted ++ deleted') (touched ++ touched') where
  next := by rw [h₂.next, h₁.next, Nat.add_assoc]
  allocs := by rw [h₂.allocs, h₁.allocs, List.append_assoc]
  deletes := by rw [h₂.deletes, h₁.deletes, List.append_assoc]
  cells a ha hnot := by
    rw [List.mem_append, not_or] at hnot
    have hlt : a < h'.next := by
      rw [h₁.next]
      omega
    rw [h₂.cells a hlt hnot.2, h₁.cells a ha hnot.1]

end Change

/-! ### Things with objects of their own -/

section Separate

variable {τ : Type*} (footprint : τ → List ℕ) (I : Heap Ω → τ → Prop)

/-- Each thing has its invariant, its objects have been made, and no two things have an
object in common. -/
structure Separate (h : Heap Ω) (ts : List τ) : Prop where
  holds : ∀ {i : ℕ} {t : τ}, ts[i]? = some t → I h t
  below : ∀ {i : ℕ} {t : τ}, ts[i]? = some t → ∀ a ∈ footprint t, a < h.next
  apart : ∀ {i j : ℕ} {t u : τ}, ts[i]? = some t → ts[j]? = some u → i ≠ j →
    ∀ a ∈ footprint t, a ∉ footprint u
  past : ∀ a ∈ h.deletes, a < h.next

/-- Only what happens at its own objects matters to the invariant of a thing. -/
def Local : Prop :=
  ∀ {h h' : Heap Ω} {t : τ}, (∀ a ∈ footprint t, SameAt h h' a) → I h t → I h' t

variable {footprint I} {ts : List τ}

theorem separate_nil : Separate footprint I (empty : Heap Ω) [] := by
  constructor <;> simp [empty]

/-- A change within the objects of the thing at `i`, and to new ones. -/
theorem Separate.set (hlocal : Local footprint I) (hs : Separate footprint I h ts) {i : ℕ}
    {t t' : τ} {n : ℕ} {made deleted touched : List ℕ} (hi : ts[i]? = some t)
    (hchange : Change h h' n made deleted touched) (hholds : I h' t')
    (hfootprint : footprint t' = footprint t ++ made)
    (hmade : ∀ a ∈ made, h.next ≤ a ∧ a < h.next + n)
    (hdeleted : ∀ a ∈ deleted, a ∈ footprint t') (htouched : ∀ a ∈ touched, a ∈ footprint t') :
    Separate footprint I h' (ts.set i t') := by
  have hmem : ∀ a ∈ footprint t', a ∈ footprint t ∨ h.next ≤ a ∧ a < h'.next := by
    intro a ha
    rw [hfootprint, List.mem_append] at ha
    rw [hchange.next]
    exact ha.imp_right (hmade a)
  have hnext : h.next ≤ h'.next := by
    rw [hchange.next]
    omega
  have hsame : ∀ a < h.next, a ∉ footprint t → SameAt h h' a := by
    intro a ha hnot
    have hout : a ∉ footprint t' := by
      intro hin
      obtain hold | hnew := hmem a hin
      · exact hnot hold
      · omega
    exact hchange.sameAt ha (fun h => hout (hdeleted a h)) (fun h => hout (htouched a h))
  have hpast : ∀ a ∈ h'.deletes, a < h'.next := by
    intro a ha
    rw [hchange.deletes, List.mem_append] at ha
    obtain ha | ha := ha
    · exact lt_of_lt_of_le (hs.past a ha) hnext
    · obtain hold | hnew := hmem a (hdeleted a ha)
      · exact lt_of_lt_of_le (hs.below hi a hold) hnext
      · exact hnew.2
  -- a thing of the new list is the one that changed, or one of the others
  have hget : ∀ {j : ℕ} {u : τ}, (ts.set i t')[j]? = some u →
      (j = i ∧ u = t') ∨ (j ≠ i ∧ ts[j]? = some u) := by
    intro j u hj
    by_cases hji : j = i
    · subst hji
      have hlt : j < ts.length := (List.getElem?_eq_some_iff.mp hi).1
      rw [List.getElem?_set_self hlt] at hj
      exact .inl ⟨rfl, (Option.some.inj hj).symm⟩
    · rw [List.getElem?_set_ne fun heq => hji heq.symm] at hj
      exact .inr ⟨hji, hj⟩
  have hother : ∀ {j : ℕ} {u : τ}, ts[j]? = some u → j ≠ i → ∀ a ∈ footprint u, a ∉ footprint t' := by
    intro j u hj hji a ha hmem'
    obtain hold | ⟨hge, -⟩ := hmem a hmem'
    · exact hs.apart hj hi hji a ha hold
    · exact absurd (hs.below hj a ha) (by omega)
  refine ⟨?_, ?_, ?_, hpast⟩
  · intro j u hj
    obtain ⟨-, rfl⟩ | ⟨hji, hold⟩ := hget hj
    · exact hholds
    · refine hlocal ?_ (hs.holds hold)
      intro a ha
      exact hsame a (hs.below hold a ha) (hs.apart hold hi hji a ha)
  · intro j u hj a ha
    obtain ⟨-, rfl⟩ | ⟨-, hold⟩ := hget hj
    · obtain hold | ⟨-, hlt⟩ := hmem a ha
      · exact lt_of_lt_of_le (hs.below hi a hold) hnext
      · exact hlt
    · exact lt_of_lt_of_le (hs.below hold a ha) hnext
  · intro j k u v hj hk hjk a ha ha'
    obtain ⟨rfl, rfl⟩ | ⟨hji, hu⟩ := hget hj
    · obtain ⟨rfl, -⟩ | ⟨hki, hv⟩ := hget hk
      · exact hjk rfl
      · exact hother hv hki a ha' ha
    · obtain ⟨rfl, rfl⟩ | ⟨-, hv⟩ := hget hk
      · exact hother hu hji a ha ha'
      · exact hs.apart hu hv hjk a ha ha'

/-- One more thing, whose objects are new. -/
theorem Separate.push (hlocal : Local footprint I) (hs : Separate footprint I h ts) {t' : τ}
    {n : ℕ} {made : List ℕ} (hchange : Change h h' n made [] []) (hholds : I h' t')
    (hfootprint : footprint t' = made) (hmade : ∀ a ∈ made, h.next ≤ a ∧ a < h.next + n) :
    Separate footprint I h' (ts ++ [t']) := by
  have hnext : h.next ≤ h'.next := by
    rw [hchange.next]
    omega
  have hget : ∀ {j : ℕ} {u : τ}, (ts ++ [t'])[j]? = some u →
      ts[j]? = some u ∨ (j = ts.length ∧ u = t') := by
    intro j u hj
    rw [List.getElem?_append] at hj
    split at hj
    · exact .inl hj
    · next hge =>
      obtain ⟨hzero, hu⟩ := List.getElem?_eq_some_iff.mp hj
      rw [List.length_singleton] at hzero
      exact .inr ⟨by omega, by simpa using hu.symm⟩
  have hother : ∀ {j : ℕ} {u : τ}, ts[j]? = some u → ∀ a ∈ footprint u, a ∉ footprint t' := by
    intro j u hj a ha hmem
    rw [hfootprint] at hmem
    exact absurd (hs.below hj a ha) (Nat.not_lt.mpr (hmade a hmem).1)
  refine ⟨?_, ?_, ?_, ?_⟩
  · intro j u hj
    obtain hold | ⟨-, rfl⟩ := hget hj
    · refine hlocal ?_ (hs.holds hold)
      intro a ha
      exact hchange.sameAt (hs.below hold a ha) List.not_mem_nil List.not_mem_nil
    · exact hholds
  · intro j u hj a ha
    obtain hold | ⟨-, rfl⟩ := hget hj
    · exact lt_of_lt_of_le (hs.below hold a ha) hnext
    · rw [hfootprint] at ha
      rw [hchange.next]
      exact (hmade a ha).2
  · intro j k u v hj hk hjk a ha hmem
    obtain hu | ⟨rfl, rfl⟩ := hget hj
    · obtain hv | ⟨-, rfl⟩ := hget hk
      · exact hs.apart hu hv hjk a ha hmem
      · exact hother hu a ha hmem
    · obtain hv | ⟨rfl, -⟩ := hget hk
      · exact hother hv a hmem ha
      · exact hjk rfl
  · intro a ha
    rw [hchange.deletes, List.append_nil] at ha
    exact lt_of_lt_of_le (hs.past a ha) hnext

end Separate

end Heap
