import Mathlib.Tactic

/-!
# The nodes behind a node

An iterator of a linked list is one of its nodes. While it stands there, nodes are added at the
end and erased anywhere; `behind` is what the iterator has still before it, and there is nothing
once its own node has been erased.

## Main results

- `LinkedList.behind_filter` — erasing other nodes erases them from what lies ahead
- `LinkedList.behind_next` — what lies ahead after one step
-/

namespace LinkedList

variable {α : Type*} [DecidableEq α]

/-- The nodes behind `x`, if `x` is a node of the list. -/
def behind (x : α) : List α → Option (List α)
  | [] => none
  | y :: l => if y = x then some l else behind x l

theorem behind_cons_self (x : α) (l : List α) : behind x (x :: l) = some l := if_pos rfl

theorem behind_cons_of_ne {x y : α} (h : y ≠ x) (l : List α) : behind x (y :: l) = behind x l :=
  if_neg h

theorem behind_eq_none {x : α} {l : List α} : behind x l = none ↔ x ∉ l := by
  induction l with
  | nil => simp [behind]
  | cons y l ih =>
    by_cases hy : y = x
    · subst hy
      simp [behind_cons_self]
    · rw [behind_cons_of_ne hy, ih, List.mem_cons, not_or]
      exact ⟨fun h => ⟨Ne.symm hy, h⟩, And.right⟩

theorem mem_of_behind {x y : α} {l t : List α} (h : behind x l = some t) (hy : y ∈ t) : y ∈ l := by
  induction l with
  | nil => cases h
  | cons z l ih =>
    rw [behind] at h
    split at h
    · obtain rfl := Option.some.inj h
      exact List.mem_cons_of_mem _ hy
    · exact List.mem_cons_of_mem _ (ih h)

/-- A node that is added at the end lies ahead. -/
theorem behind_append {x : α} {l t : List α} (h : behind x l = some t) (m : List α) :
    behind x (l ++ m) = some (t ++ m) := by
  induction l with
  | nil => cases h
  | cons y l ih =>
    rw [behind] at h
    rw [List.cons_append, behind]
    split at h
    · next hy =>
      obtain rfl := Option.some.inj h
      rw [if_pos hy]
    · next hy => rw [if_neg hy, ih h]

/-- The erasure of other nodes. -/
theorem behind_filter {p : α → Bool} {x : α} (hx : p x = true) (l : List α) :
    behind x (l.filter p) = (behind x l).map (List.filter p) := by
  induction l with
  | nil => rfl
  | cons y l ih =>
    by_cases hy : y = x
    · subst hy
      rw [List.filter_cons_of_pos hx, behind_cons_self, behind_cons_self]
      rfl
    · rw [behind_cons_of_ne hy]
      cases hp : p y with
      | true => rw [List.filter_cons_of_pos hp, behind_cons_of_ne hy, ih]
      | false => rw [List.filter_cons_of_neg (by rw [hp]; exact Bool.false_ne_true), ih]

/-- One step ahead. -/
theorem behind_next {x y : α} {l t : List α} (hl : l.Nodup) (h : behind x l = some (y :: t)) :
    behind y l = some t := by
  induction l with
  | nil => cases h
  | cons z l ih =>
    obtain ⟨hz, hl⟩ := List.nodup_cons.mp hl
    rw [behind] at h
    split at h
    · obtain rfl := Option.some.inj h
      have hne : z ≠ y := fun heq => hz (heq ▸ List.mem_cons_self)
      rw [behind_cons_of_ne hne, behind_cons_self]
    · have hne : z ≠ y := fun heq => hz (heq ▸ mem_of_behind h List.mem_cons_self)
      rw [behind_cons_of_ne hne, ih hl h]

end LinkedList
