import Mathlib.Tactic

/-!
# Tables of slots

An array of optional values serves as a map when each key has an index of its own. A
`Layout` is such a choice of indices for an array of a given size; seen through it,
overwriting one cell is updating the map at one key, and every other key keeps its value.
When the cells own what they hold, a write destroys what was in the cell and nothing else.

## Main results

- `SlotTable.view_set` — a write to the cell of a key updates the map at that key
- `SlotTable.view_empty` — a new array is the empty map
- `SlotTable.Owned.set` — a write of a new object retires the one it drives out
-/

namespace SlotTable

variable {κ α : Type*} {size : ℕ}

/-- A place in an array of `size` cells for each key, no two keys at the same place. -/
structure Layout (κ : Type*) (size : ℕ) where
  index : κ → ℕ
  index_lt : ∀ k, index k < size
  injective : Function.Injective index

/-- What is stored for a key. -/
def view (L : Layout κ size) (cells : List (Option α)) (k : κ) : Option α :=
  cells[L.index k]?.join

theorem view_eq_some {L : Layout κ size} {cells : List (Option α)} {k : κ} {a : α} :
    view L cells k = some a ↔ cells[L.index k]? = some (some a) := by
  rw [view, Option.join_eq_some_iff]

/-- A new array has nothing stored. -/
theorem view_empty (L : Layout κ size) : view L (List.replicate size (none : Option α)) = fun _ => none := by
  funext k
  rw [view, List.getElem?_replicate, if_pos (L.index_lt k)]
  rfl

theorem view_set_self {L : Layout κ size} {cells : List (Option α)} (hlen : cells.length = size)
    (k : κ) (a : α) : view L (cells.set (L.index k) (some a)) k = some a := by
  rw [view_eq_some, List.getElem?_set_self (by rw [hlen]; exact L.index_lt k)]

theorem view_set_of_ne {L : Layout κ size} (cells : List (Option α)) {k k' : κ} (h : k' ≠ k)
    (a : α) : view L (cells.set (L.index k) (some a)) k' = view L cells k' := by
  have hindex : L.index k ≠ L.index k' := fun heq => h (L.injective heq.symm)
  rw [view, List.getElem?_set_ne hindex, view]

/-- Seen through the layout, a write to one cell is an update of the map. -/
theorem view_set [DecidableEq κ] {L : Layout κ size} {cells : List (Option α)}
    (hlen : cells.length = size) (k : κ) (a : α) :
    view L (cells.set (L.index k) (some a)) = Function.update (view L cells) k (some a) := by
  funext k'
  by_cases h : k' = k
  · subst h
    rw [view_set_self hlen, Function.update_self]
  · rw [view_set_of_ne cells h, Function.update_of_ne h]

/-! ### Cells that own what they hold -/

variable {id : α → ℕ} {cells : List (Option α)} {next : ℕ} {retired : List ℕ}

/-- Each object in the cells has a number of its own, below `next`; the numbers `retired`
belonged to objects that no cell holds any more. -/
structure Owned (id : α → ℕ) (cells : List (Option α)) (next : ℕ) (retired : List ℕ) : Prop where
  lt_next : ∀ {i : ℕ} {a : α}, cells[i]? = some (some a) → id a < next
  live : ∀ {i : ℕ} {a : α}, cells[i]? = some (some a) → id a ∉ retired
  distinct : ∀ {i j : ℕ} {a b : α}, cells[i]? = some (some a) → cells[j]? = some (some b) →
    id a = id b → i = j
  past : ∀ n ∈ retired, n < next

theorem Owned.replicate_none (id : α → ℕ) (size : ℕ) :
    Owned id (List.replicate size (none : Option α)) 0 [] := by
  have hempty : ∀ {i : ℕ} {a : α}, (List.replicate size (none : Option α))[i]? ≠ some (some a) := by
    intro i a h
    rw [List.getElem?_replicate] at h
    split at h <;> cases h
  exact ⟨fun h => absurd h hempty, fun h => absurd h hempty, fun h => absurd h hempty, nofun⟩

/-- The object that a write drives out of its cell is retired; those in the other cells
are not. -/
theorem Owned.live_of_ne (h : Owned id cells next retired) {i j : ℕ} {a : α}
    (hj : cells[j]? = some (some a)) (hne : j ≠ i) :
    id a ∉ retired ++ (cells[i]?.join).toList.map id := by
  rw [List.mem_append, not_or]
  refine ⟨h.live hj, ?_⟩
  intro hmem
  obtain ⟨b, hb, hid⟩ := List.mem_map.mp hmem
  rw [Option.mem_toList, Option.join_eq_some_iff] at hb
  exact hne (h.distinct hj hb hid.symm)

/-- Storing a new object keeps the ownership. -/
theorem Owned.set (h : Owned id cells next retired) {i : ℕ} {a : α} (ha : id a = next) :
    Owned id (cells.set i (some a)) (next + 1) (retired ++ (cells[i]?.join).toList.map id) := by
  have hpast : ∀ n ∈ retired ++ (cells[i]?.join).toList.map id, n < next := by
    intro n hn
    obtain hn | hn := List.mem_append.mp hn
    · exact h.past n hn
    · obtain ⟨b, hb, rfl⟩ := List.mem_map.mp hn
      rw [Option.mem_toList, Option.join_eq_some_iff] at hb
      exact h.lt_next hb
  -- what a cell holds afterwards is the new object, or was there before
  have hcell : ∀ {j : ℕ} {b : α}, (cells.set i (some a))[j]? = some (some b) →
      (j = i ∧ b = a) ∨ (j ≠ i ∧ cells[j]? = some (some b)) := by
    intro j b hj
    rw [List.getElem?_set] at hj
    split at hj
    · next heq =>
      split at hj
      · exact .inl ⟨heq.symm, (Option.some.inj (Option.some.inj hj)).symm⟩
      · cases hj
    · next hne => exact .inr ⟨fun heq => hne heq.symm, hj⟩
  constructor
  · intro j b hj
    obtain ⟨-, rfl⟩ | ⟨-, hold⟩ := hcell hj
    · omega
    · exact Nat.lt_succ_of_lt (h.lt_next hold)
  · intro j b hj
    obtain ⟨-, rfl⟩ | ⟨hne, hold⟩ := hcell hj
    · intro hmem
      exact absurd (hpast _ hmem) (by omega)
    · exact h.live_of_ne hold hne
  · intro j k b c hj hk hid
    obtain ⟨rfl, rfl⟩ | ⟨-, hb⟩ := hcell hj
    · obtain ⟨rfl, rfl⟩ | ⟨-, hc⟩ := hcell hk
      · rfl
      · exact absurd (h.lt_next hc) (by omega)
    · obtain ⟨-, rfl⟩ | ⟨-, hc⟩ := hcell hk
      · exact absurd (h.lt_next hb) (by omega)
      · exact h.distinct hb hc hid
  · intro n hn
    exact Nat.lt_succ_of_lt (hpast n hn)

end SlotTable
