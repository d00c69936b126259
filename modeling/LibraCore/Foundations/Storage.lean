import Mathlib.Tactic

/-!
# A fixed block of cells

A block of memory is a list of cells. `Storage.read`, `Storage.write` and
`Storage.move` are the three block operations of a C library (`memcpy` out of a
block, `memcpy` into it, `memmove` within it); each of them is `none` exactly
when it would touch a cell outside the block.
-/

namespace Storage

variable {α : Type*}

/-- The `n` cells from `i` on, when all of them lie in the block. -/
def read (mem : List α) (i n : ℕ) : Option (List α) :=
  if i + n ≤ mem.length then some ((mem.drop i).take n) else none

/-- Overwrite the cells from `i` on, when all of them lie in the block. -/
def write (mem : List α) (i : ℕ) (xs : List α) : Option (List α) :=
  if i + xs.length ≤ mem.length then
    some (mem.take i ++ xs ++ mem.drop (i + xs.length))
  else none

/-- Move `n` cells from `src` to `dst`; the two ranges may overlap. -/
def move (mem : List α) (dst src n : ℕ) : Option (List α) :=
  (read mem src n).bind (write mem dst)

theorem read_eq_some {mem : List α} {i n : ℕ} (h : i + n ≤ mem.length) :
    read mem i n = some ((mem.drop i).take n) :=
  if_pos h

theorem write_eq_some {mem : List α} {i : ℕ} {xs : List α} (h : i + xs.length ≤ mem.length) :
    write mem i xs = some (mem.take i ++ xs ++ mem.drop (i + xs.length)) :=
  if_pos h

theorem length_write {mem mem' : List α} {i : ℕ} {xs : List α}
    (h : write mem i xs = some mem') : mem'.length = mem.length := by
  unfold write at h
  split at h
  · obtain rfl := Option.some.inj h
    simp only [List.length_append, List.length_take, List.length_drop]
    omega
  · simp at h

theorem take_write {mem mem' : List α} {i : ℕ} {xs : List α}
    (h : write mem i xs = some mem') :
    mem'.take (i + xs.length) = mem.take i ++ xs := by
  unfold write at h
  split at h
  · next hle =>
    obtain rfl := Option.some.inj h
    apply List.take_left'
    rw [List.length_append, List.length_take]
    omega
  · simp at h

theorem drop_write {mem mem' : List α} {i : ℕ} {xs : List α}
    (h : write mem i xs = some mem') :
    mem'.drop (i + xs.length) = mem.drop (i + xs.length) := by
  unfold write at h
  split at h
  · next hle =>
    obtain rfl := Option.some.inj h
    apply List.drop_left'
    rw [List.length_append, List.length_take]
    omega
  · simp at h

theorem read_of_take {mem : List α} {i n k : ℕ} (hk : k ≤ mem.length) (h : i + n ≤ k) :
    read mem i n = some (((mem.take k).drop i).take n) := by
  rw [read_eq_some (by omega), List.drop_take, List.take_take]
  congr 2
  omega

theorem read_eq_none {mem : List α} {i n : ℕ} (h : mem.length < i + n) : read mem i n = none :=
  if_neg (Nat.not_le.mpr h)

theorem write_eq_none {mem : List α} {i : ℕ} {xs : List α} (h : mem.length < i + xs.length) :
    write mem i xs = none :=
  if_neg (Nat.not_le.mpr h)

/-- The cells of a block after a write: the written ones, and all others as they were. -/
theorem getElem?_write {mem mem' : List α} {i : ℕ} {xs : List α} (h : write mem i xs = some mem')
    (j : ℕ) : mem'[j]? = if i ≤ j ∧ j < i + xs.length then xs[j - i]? else mem[j]? := by
  by_cases hle : i + xs.length ≤ mem.length
  · rw [write_eq_some hle] at h
    obtain rfl := Option.some.inj h
    have hfront : (mem.take i).length = i := List.length_take_of_le (by omega)
    by_cases hj : j < i
    · rw [if_neg (by omega), List.append_assoc, List.getElem?_append_left (by omega),
        List.getElem?_take_of_lt hj]
    · by_cases hin : j < i + xs.length
      · rw [if_pos (by omega), List.append_assoc, List.getElem?_append_right (by omega), hfront,
          List.getElem?_append_left (by omega)]
      · rw [if_neg (by omega), List.getElem?_append_right (by rw [List.length_append]; omega),
          List.getElem?_drop, List.length_append, hfront]
        congr 1
        omega
  · rw [write_eq_none (by omega)] at h
    cases h

/-- A move within the block. -/
theorem move_eq_some {mem : List α} {dst src n : ℕ} (hsrc : src + n ≤ mem.length)
    (hdst : dst + n ≤ mem.length) :
    ∃ mem', move mem dst src n = some mem' ∧ mem'.length = mem.length ∧
      mem'.take (dst + n) = mem.take dst ++ (mem.drop src).take n := by
  have hlen : ((mem.drop src).take n).length = n := by
    rw [List.length_take, List.length_drop]
    omega
  obtain ⟨mem', hw⟩ : ∃ mem', write mem dst ((mem.drop src).take n) = some mem' :=
    ⟨_, write_eq_some (by omega)⟩
  refine ⟨mem', by rw [move, read_eq_some hsrc]; exact hw, length_write hw, ?_⟩
  have htake := take_write hw
  rwa [hlen] at htake

theorem move_eq_none {mem : List α} {dst src n : ℕ} (h : mem.length < src + n) :
    move mem dst src n = none := by
  rw [move, read_eq_none h]
  rfl

/-- Moving the tail of a prefix to the front of the block drops cells from it. -/
theorem move_front {mem : List α} {src n : ℕ} (h : src + n ≤ mem.length) :
    ∃ mem', move mem 0 src n = some mem' ∧ mem'.length = mem.length ∧
      mem'.take n = (mem.drop src).take n := by
  obtain ⟨mem', hmove, hlen, htake⟩ := move_eq_some h (show 0 + n ≤ mem.length by omega)
  rw [Nat.zero_add, List.take_zero, List.nil_append] at htake
  exact ⟨mem', hmove, hlen, htake⟩

end Storage
