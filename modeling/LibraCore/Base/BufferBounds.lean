import LibraCore.Base.BufferReader
import LibraCore.Base.BufferWriter

/-!
# The ranges of a buffer

`get` and `set` compare a sum of two `size_t` values with `size()`, and `remove` a sum of
two such values with `ptr_`. The predicates of this file state over the integers what these
functions are for, for all arguments, and the theorems say for which arguments they do it.

## Main results

- `Buffer.exact_iff_not_wraps` — random access, as far as the sum does not wrap around
- `Buffer.removesRange_iff` — `remove`, as far as the `memmove` stays within the storage
-/

namespace LibraCore

namespace Buffer

/-! ### Random access -/

/-- The sum `index + len` wraps around to a value that passes the bounds check. -/
def Wraps (b : Buffer) (index len : ℕ) : Prop :=
  sizeMod ≤ index + len ∧ index + len - sizeMod ≤ b.size

instance (b : Buffer) (index len : ℕ) : Decidable (b.Wraps index len) :=
  inferInstanceAs (Decidable (_ ∧ _))

/-- `get` reads `[index, index + len)` if it lies in the contents, and is `false` otherwise. -/
structure GetExact (b : Buffer) (len index : ℕ) : Prop where
  inside : index + len ≤ b.size → b.get len index = .ok (some ((b.contents.drop index).take len))
  outside : b.size < index + len → b.get len index = .ok none

/-- `b'` differs from `b` in the cells from `index` on, which hold `buf`. -/
structure Overwritten (b b' : Buffer) (buf : List UInt8) (index : ℕ) : Prop where
  size_eq : b'.size = b.size
  cells : ∀ j, b'.data[j]? =
    if index ≤ j ∧ j < index + buf.length then buf[j - index]? else b.data[j]?

/-- A member function overwrites `[index, index + buf.length)` if it lies in the contents,
and is `false` otherwise. -/
structure SetExact (set : BufferM Bool) (b : Buffer) (buf : List UInt8) (index : ℕ) :
    Prop where
  inside : index + buf.length ≤ b.size → ∃ b', set b = .ok true b' ∧ b.Overwritten b' buf index
  outside : b.size < index + buf.length → set b = .ok false b

/-- `get_bytes` returns the bytes at the cursor if they lie in the contents, and throws
`buffer_reader_stop` otherwise. -/
structure GetBytesExact (b : Buffer) (len : ℕ) (r : BufferReader) : Prop where
  inside : toSize r.index + len ≤ b.size →
    BufferReader.getBytes b len r = .ok ((b.contents.drop (toSize r.index)).take len)
      { r with index := toInt32 (r.index + len) }
  outside : b.size < toSize r.index + len →
    BufferReader.getBytes b len r = .error (.thrown bufferReaderStop) r

section Access

variable {b : Buffer} {cap : ℕ} {c : List UInt8} {len index : ℕ}

/-- What a range test finds: the range lies in the contents, or is refused, or wraps. -/
private theorem range_cases (h : b.HasContents cap c) (hlen : len < sizeMod)
    (hindex : index < sizeMod) :
    (index + len ≤ c.length ∧ ¬ b.Wraps index len) ∨
    (c.length < index + len ∧ ¬ (index + len) % sizeMod ≤ b.ptr ∧ ¬ b.Wraps index len) ∨
    (cap < index + len ∧ c.length < index + len ∧ (index + len) % sizeMod ≤ b.ptr ∧
      b.Wraps index len) := by
  have hsize : b.size = c.length := h.size_eq
  have hptr := h.size_eq
  have hlt := h.length_lt
  have hcap := h.cap_lt
  by_cases hin : index + len ≤ c.length
  · exact .inl ⟨hin, fun hwraps => by have := hwraps.1; omega⟩
  right
  by_cases hmod : index + len < sizeMod
  · refine .inl ⟨by omega, ?_, fun hwraps => by have := hwraps.1; omega⟩
    rw [Nat.mod_eq_of_lt hmod]
    omega
  -- the sum exceeds the largest `size_t` by less than another `2 ^ 64`
  have hwrap : (index + len) % sizeMod = index + len - sizeMod := by
    rw [Nat.mod_eq_sub_mod (by omega)]
    exact Nat.mod_eq_of_lt (by omega)
  by_cases hpass : index + len - sizeMod ≤ c.length
  · exact .inr ⟨by omega, by omega, by omega, by omega, by rw [hsize]; exact hpass⟩
  · refine .inl ⟨by omega, by omega, fun hwraps => hpass ?_⟩
    rw [← hsize]
    exact hwraps.2

theorem get_wraps (h : b.HasContents cap c) (hmod : (index + len) % sizeMod ≤ b.ptr)
    (hout : cap < index + len) : b.get len index = .error .outOfBounds := by
  rw [get, if_neg (by omega), Storage.read_eq_none (by rw [h.capacity_eq]; exact hout)]

theorem get_refused (hmod : ¬ (index + len) % sizeMod ≤ b.ptr) : b.get len index = .ok none :=
  if_pos (Nat.lt_of_not_le hmod)

/-- An access outside the storage is not an exception that a handler sees. -/
theorem get_ne_thrown {e : Exception} : b.get len index ≠ .error (.thrown e) := by
  intro hget
  rw [get] at hget
  split at hget
  · cases hget
  · split at hget
    · cases hget
    · cases hget

theorem set_wraps {buf : List UInt8} (h : b.HasContents cap c)
    (hmod : (index + buf.length) % sizeMod ≤ b.ptr) (hout : cap < index + buf.length) :
    set buf index b = .error .outOfBounds b := by
  rw [set, if_neg (by omega), Storage.write_eq_none (by rw [h.capacity_eq]; exact hout)]

theorem set_refused {buf : List UInt8} (hmod : ¬ (index + buf.length) % sizeMod ≤ b.ptr) :
    set buf index b = .ok false b :=
  if_pos (Nat.lt_of_not_le hmod)

theorem set_overwritten {buf : List UInt8} (h : b.HasContents cap c)
    (hin : index + buf.length ≤ c.length) :
    ∃ b', set buf index b = .ok true b' ∧ b.Overwritten b' buf index := by
  have hcap := h.length_le
  have hmod : (index + buf.length) % sizeMod = index + buf.length :=
    Nat.mod_eq_of_lt (lt_of_le_of_lt hin h.length_lt)
  obtain ⟨mem, hw⟩ : ∃ mem, Storage.write b.data index buf = some mem :=
    ⟨_, Storage.write_eq_some (by rw [h.capacity_eq]; omega)⟩
  refine ⟨⟨mem, b.ptr⟩, ?_, rfl, Storage.getElem?_write hw⟩
  rw [set, if_neg (by rw [hmod, h.size_eq]; omega), hw]

theorem getExact_iff (h : b.HasContents cap c) (hlen : len < sizeMod) (hindex : index < sizeMod) :
    b.GetExact len index ↔ ¬ b.Wraps index len := by
  have hsize : b.size = c.length := h.size_eq
  have hcontents := h.contents_eq
  rcases range_cases h hlen hindex with ⟨hin, hno⟩ | ⟨hout, hmod, hno⟩ | ⟨hcap, hout, hmod, hwraps⟩
  · refine iff_of_true ⟨fun _ => by rw [hcontents, h.get_ok hin], fun hlt => ?_⟩ hno
    omega
  · refine iff_of_true ⟨fun hle => ?_, fun _ => get_refused hmod⟩ hno
    omega
  · refine iff_of_false (fun hexact => ?_) (not_not_intro hwraps)
    have hfalse := hexact.outside (by omega)
    rw [get_wraps h hmod hcap] at hfalse
    cases hfalse

theorem setExact_iff {buf : List UInt8} (h : b.HasContents cap c) (hlen : buf.length < sizeMod)
    (hindex : index < sizeMod) :
    SetExact (set buf index) b buf index ↔ ¬ b.Wraps index buf.length := by
  have hsize : b.size = c.length := h.size_eq
  rcases range_cases h hlen hindex with ⟨hin, hno⟩ | ⟨hout, hmod, hno⟩ | ⟨hcap, hout, hmod, hwraps⟩
  · refine iff_of_true ⟨fun _ => set_overwritten h hin, fun hlt => ?_⟩ hno
    omega
  · refine iff_of_true ⟨fun hle => ?_, fun _ => set_refused hmod⟩ hno
    omega
  · refine iff_of_false (fun hexact => ?_) (not_not_intro hwraps)
    have hfalse := hexact.outside (by omega)
    rw [set_wraps h hmod hcap] at hfalse
    cases hfalse

/-- An access leaves the storage exactly if its sum wraps around to a value that passes. -/
theorem get_outOfBounds_iff (h : b.HasContents cap c) (hlen : len < sizeMod)
    (hindex : index < sizeMod) : b.get len index = .error .outOfBounds ↔ b.Wraps index len := by
  constructor
  · intro hget
    by_contra hno
    have hexact := (getExact_iff h hlen hindex).mpr hno
    rcases Nat.lt_or_ge b.size (index + len) with hout | hin
    · rw [hexact.outside hout] at hget
      cases hget
    · rw [hexact.inside hin] at hget
      cases hget
  · intro hwraps
    rcases range_cases h hlen hindex with ⟨-, hno⟩ | ⟨-, -, hno⟩ | ⟨hcap, -, hmod, -⟩
    · exact absurd hwraps hno
    · exact absurd hwraps hno
    · exact get_wraps h hmod hcap

/-- What is read lies in the contents. -/
theorem HasContents.get_fits {bytes : List UInt8} (h : b.HasContents cap c)
    (hget : b.get len index = .ok (some bytes)) : index + len ≤ c.length := by
  by_cases hmod : (index + len) % sizeMod ≤ b.ptr
  · by_cases hcap : cap < index + len
    · rw [get_wraps h hmod hcap] at hget
      cases hget
    · have hlt := h.cap_lt
      rw [Nat.mod_eq_of_lt (by omega), h.size_eq] at hmod
      exact hmod
  · rw [get_refused hmod] at hget
    cases hget

/-- The reader's `get_bytes` is exact for the arguments `get` is exact for. -/
theorem getBytesExact_iff {r : BufferReader} :
    b.GetBytesExact len r ↔ b.GetExact len (toSize r.index) := by
  constructor
  · intro hexact
    refine ⟨fun hin => ?_, fun hout => ?_⟩
    · have hread := hexact.inside hin
      rw [BufferReader.getBytes] at hread
      split at hread
      · cases hread
      · cases hread
      · next hget =>
        simp only [EStateM.Result.ok.injEq] at hread
        rw [hget, hread.1]
    · have hread := hexact.outside hout
      rw [BufferReader.getBytes] at hread
      split at hread
      · next f hget =>
        simp only [EStateM.Result.error.injEq] at hread
        obtain ⟨rfl, -⟩ := hread
        exact absurd hget get_ne_thrown
      · next hget => exact hget
      · cases hread
  · intro hexact
    refine ⟨fun hin => ?_, fun hout => ?_⟩
    · simp only [BufferReader.getBytes, hexact.inside hin]
    · simp only [BufferReader.getBytes, hexact.outside hout]

/-- `get`, `set`, `get_bytes` and the typed `set` of a writer do what their range says for
exactly the arguments whose sum does not wrap around to a value the bounds check lets pass. -/
theorem exact_iff_not_wraps (h : b.HasContents cap c) :
    (∀ len index, len < sizeMod → index < sizeMod →
      (b.GetExact len index ↔ ¬ b.Wraps index len)) ∧
    (∀ buf index, buf.length < sizeMod → index < sizeMod →
      (SetExact (set buf index) b buf index ↔ ¬ b.Wraps index buf.length)) ∧
    (∀ len r, len < sizeMod → (b.GetBytesExact len r ↔ ¬ b.Wraps (toSize r.index) len)) ∧
    (∀ (t : IntType) (v : t.Val) index, index < sizeMod →
      (SetExact (BufferWriter.set t v index) b (Octet.spell (n := t.size) v) index ↔
        ¬ b.Wraps index t.size)) := by
  refine ⟨fun len index => getExact_iff h, fun buf index => setExact_iff h, ?_, ?_⟩
  · intro len r hlen
    rw [getBytesExact_iff]
    exact getExact_iff h hlen (toSize_lt r.index)
  · intro t v index hindex
    have hlen : (Octet.spell (n := t.size) v).length = t.size := Octet.length_spell v
    have hsmall : t.size < sizeMod := lt_of_le_of_lt t.size_le (by norm_num)
    have hexact := setExact_iff h
      (show (Octet.spell (n := t.size) v).length < sizeMod by omega) hindex
    rw [hlen] at hexact
    rw [BufferWriter.set, toMemory_swapH2N]
    exact hexact

end Access

/-- In a buffer of four bytes the two bytes behind the first are read. -/
theorem exact_iff_not_wraps_four : GetExact ⟨[1, 2, 3, 4], 4⟩ 2 1 :=
  ((exact_iff_not_wraps (b := ⟨[1, 2, 3, 4], 4⟩) (c := [1, 2, 3, 4])
    ⟨rfl, rfl, rfl, by norm_num⟩).1 2 1 (by norm_num) (by norm_num)).mpr
    fun hwraps => absurd hwraps.1 (by decide)

/-- A cursor at `-2` widens to `2 ^ 64 - 2`, so that two bytes end at offset `0`, and the two
bytes in front of the storage are read. -/
theorem getBytesExact_false_before :
    BufferReader.getBytes ⟨[1, 2, 3, 4], 4⟩ 2 ⟨-2, []⟩ = .error .outOfBounds ⟨-2, []⟩ ∧
      get 2 (2 ^ 64 - 2) ⟨[1, 2, 3, 4], 4⟩ = .error .outOfBounds ∧
      ¬ GetExact ⟨[1, 2, 3, 4], 4⟩ 2 (2 ^ 64 - 2) := by
  have hget : get 2 (2 ^ 64 - 2) ⟨[1, 2, 3, 4], 4⟩ = .error .outOfBounds := by decide
  refine ⟨rfl, hget, fun hexact => ?_⟩
  have hfalse := hexact.outside (show 4 < 2 ^ 64 - 2 + 2 by norm_num)
  rw [hget] at hfalse
  cases hfalse

/-! ### Removal -/

/-- `remove(start, len)` deletes the positions from `start` up to `min(start + len, size)`,
reports how many these are, and does not leave the storage. -/
def RemovesRange (b : Buffer) (start len : ℕ) : Prop :=
  ∃ b', remove start len b = .ok (min (start + len) b.size - start) b' ∧
    b'.HasContents b.capacity
      (b.contents.take start ++ b.contents.drop (min (start + len) b.size)) ∧
    b'.size ≤ b.size

section Remove

variable {b : Buffer} {cap start len : ℕ} {c : List UInt8}

/-- A range that starts behind the contents. -/
theorem removesRange_behind (h : b.HasContents cap c) (hstart : c.length ≤ start) :
    b.RemovesRange start len := by
  have hsize : b.size = c.length := h.size_eq
  refine ⟨b, ?_, ?_, le_refl _⟩
  · rw [remove, if_pos (by rw [h.size_eq]; exact hstart), hsize]
    congr 1
    omega
  · rw [hsize, h.contents_eq, Nat.min_eq_right (by omega), List.take_of_length_le hstart,
      List.drop_length, List.append_nil, capacity, h.capacity_eq]
    exact h

/-- A range that reaches to the end of the contents. -/
theorem removesRange_end (h : b.HasContents cap c) (hstart : start < c.length)
    (hmod : start + len < sizeMod) (hend : c.length ≤ start + len) : b.RemovesRange start len := by
  have hsize : b.size = c.length := h.size_eq
  refine ⟨{ b with ptr := start }, ?_, ?_, ?_⟩
  · rw [remove, if_neg (by rw [h.size_eq]; omega),
      if_pos (by rw [Nat.mod_eq_of_lt hmod, h.size_eq]; exact hend), hsize, h.size_eq,
      Nat.min_eq_right hend]
  · have hlen : (c.take start).length = start := List.length_take_of_le (by omega)
    rw [hsize, h.contents_eq, Nat.min_eq_right hend, List.drop_length, List.append_nil]
    exact ⟨rfl, hlen.symm, by rw [hlen]; exact h.data_take (by omega),
      h.capacity_eq.trans_lt h.cap_lt⟩
  · rw [size, hsize]
    exact le_of_lt hstart

/-- A range inside the contents, as far as the `ptr_ - len` bytes behind it are cells of the
storage. -/
theorem removesRange_inside (h : b.HasContents cap c) (hend : start + len < c.length)
    (hmove : start + c.length ≤ cap) : b.RemovesRange start len := by
  have hsize : b.size = c.length := h.size_eq
  have hlt := h.length_lt
  have hmod : (start + len) % sizeMod = start + len := Nat.mod_eq_of_lt (by omega)
  have hrest : (c.length + sizeMod - len) % sizeMod = c.length - len :=
    sub_sizeMod (by omega) hlt
  obtain ⟨mem, hmoved, hlen, htake⟩ :=
    Storage.move_eq_some
      (show start + len + (c.length - len) ≤ b.data.length by rw [h.capacity_eq]; omega)
      (show start + (c.length - len) ≤ b.data.length by rw [h.capacity_eq]; omega)
  have hnew : (c.take start ++ c.drop (start + len)).length = c.length - len := by
    rw [List.length_append, List.length_take, List.length_drop]
    omega
  refine ⟨⟨mem, c.length - len⟩, ?_, ?_, ?_⟩
  · rw [remove, if_neg (by rw [h.size_eq]; omega), if_neg (by rw [hmod, h.size_eq]; omega), hmod,
      h.size_eq, hrest, hmoved, hsize, Nat.min_eq_left (by omega), Nat.add_sub_cancel_left]
  · rw [hsize, h.contents_eq, Nat.min_eq_left (by omega)]
    refine ⟨hlen, hnew.symm, ?_, h.capacity_eq.trans_lt h.cap_lt⟩
    -- of the cells that were moved, the first `c.length - (start + len)` are contents
    have hfront : (b.data.take start).length = start :=
      List.length_take_of_le (by rw [h.capacity_eq]; omega)
    have hsplit : c.length - len = start + (c.length - (start + len)) := by omega
    calc mem.take (c.take start ++ c.drop (start + len)).length
        = (mem.take (start + (c.length - len))).take (c.length - len) := by
          rw [hnew, List.take_take, Nat.min_eq_left (by omega)]
      _ = b.data.take start ++ (b.data.drop (start + len)).take (c.length - (start + len)) := by
          rw [htake, hsplit, List.take_append, hfront, List.take_of_length_le (by omega),
            List.take_take]
          congr 2
          omega
      _ = c.take start ++ c.drop (start + len) := by
          rw [h.data_take (by omega), ← List.drop_take, h.take_eq]
  · rw [hsize]
    exact Nat.sub_le _ _

/-- A range inside the contents whose tail is not followed by `start` more cells. -/
theorem remove_outOfBounds (h : b.HasContents cap c) (hend : start + len < c.length)
    (hmove : cap < start + c.length) : remove start len b = .error .outOfBounds b := by
  have hlt := h.length_lt
  have hmod : (start + len) % sizeMod = start + len := Nat.mod_eq_of_lt (by omega)
  have hrest : (c.length + sizeMod - len) % sizeMod = c.length - len :=
    sub_sizeMod (by omega) hlt
  rw [remove, if_neg (by rw [h.size_eq]; omega), if_neg (by rw [hmod, h.size_eq]; omega), hmod,
    h.size_eq, hrest, Storage.move_eq_none (by rw [h.capacity_eq]; omega)]

/-- A range whose end wraps around is not cut off at the end of the contents. -/
theorem remove_wraps {b' : Buffer} {n : ℕ} (h : b.HasContents cap c) (hstart : start < c.length)
    (hlen : len < sizeMod) (hmod : sizeMod ≤ start + len) (hrun : remove start len b = .ok n b') :
    n = len := by
  have hlt := h.length_lt
  have hwrap : (start + len) % sizeMod < c.length := by
    rw [Nat.mod_eq_sub_mod hmod, Nat.mod_eq_of_lt (by omega)]
    omega
  rw [remove, if_neg (by rw [h.size_eq]; omega), if_neg (by rw [h.size_eq]; omega)] at hrun
  split at hrun
  · simp only [EStateM.Result.ok.injEq] at hrun
    exact hrun.1.symm
  · cases hrun

/-- `remove(start, len)` deletes its range exactly if the range starts behind the contents, or
its end is a `size_t` and either lies behind the contents, or is followed by a tail that
together with `start` more cells lies in the storage. -/
theorem removesRange_iff (h : b.HasContents cap c) (hlen : len < sizeMod) :
    b.RemovesRange start len ↔
      b.size ≤ start ∨
        start + len < sizeMod ∧ (b.size ≤ start + len ∨ start + b.size ≤ b.capacity) := by
  have hsize : b.size = c.length := h.size_eq
  have hcap : b.capacity = cap := h.capacity_eq
  have hlt := h.length_lt
  rw [hcap]
  constructor
  · rintro ⟨b', hrun, hc', -⟩
    by_contra hno
    rw [not_or] at hno
    obtain ⟨hstart, hno⟩ := hno
    by_cases hmod : start + len < sizeMod
    · have hend : start + len < c.length := by omega
      have hmove : cap < start + c.length := by omega
      rw [remove_outOfBounds h hend hmove] at hrun
      cases hrun
    · -- what is reported is more than there is
      have hcount := remove_wraps h (by omega) hlen (by omega) hrun
      omega
  · rintro (hbehind | ⟨hmod, hend | hmove⟩)
    · exact removesRange_behind h (by omega)
    · by_cases hstart : c.length ≤ start
      · exact removesRange_behind h hstart
      · exact removesRange_end h (by omega) hmod (by omega)
    · by_cases hend : c.length ≤ start + len
      · by_cases hstart : c.length ≤ start
        · exact removesRange_behind h hstart
        · exact removesRange_end h (by omega) hmod hend
      · exact removesRange_inside h (by omega) (by omega)

end Remove

/-- With one cell to spare, the second of three bytes is removed. -/
theorem removesRange_iff_spare : RemovesRange ⟨[1, 2, 3, 0], 3⟩ 1 1 :=
  (removesRange_iff (b := ⟨[1, 2, 3, 0], 3⟩) (c := [1, 2, 3]) ⟨rfl, rfl, rfl, by norm_num⟩
    (by norm_num)).mpr (by decide)

/-- In a full buffer of three bytes, removing the second one reads one cell behind the last. -/
theorem removesRange_false_full :
    remove 1 1 ⟨[1, 2, 3], 3⟩ = .error .outOfBounds ⟨[1, 2, 3], 3⟩ ∧
      ¬ RemovesRange ⟨[1, 2, 3], 3⟩ 1 1 := by
  have hrun : remove 1 1 ⟨[1, 2, 3], 3⟩ = .error .outOfBounds ⟨[1, 2, 3], 3⟩ := rfl
  refine ⟨hrun, ?_⟩
  rintro ⟨b', hok, -⟩
  rw [hrun] at hok
  cases hok

end Buffer

/-! ### What a read that returns has read -/

namespace BufferReader

variable {buf : Buffer} {cap n : ℕ} {c s : List UInt8} {r r' : BufferReader}

theorem get_fits {t : IntType} {v : t.Val} (h : buf.HasContents cap c)
    (hrun : get buf t r = .ok v r') :
    toSize r.index + t.size ≤ c.length ∧ r' = { r with index := toInt32 (r.index + t.size) } := by
  rw [get] at hrun
  split at hrun
  · cases hrun
  · cases hrun
  · next hget =>
    cases hrun
    exact ⟨h.get_fits hget, rfl⟩

theorem getStringBody_fits (h : buf.HasContents cap c)
    (hrun : getStringBody buf n r = .ok s r') : toSize r.index + n ≤ c.length := by
  simp only [getStringBody] at hrun
  split at hrun
  · cases hrun
  · cases hrun
  · next hget => exact h.get_fits hget

/-- A string that is returned lay behind the cursor that its prefix left behind. -/
theorem getString_fits (h : buf.HasContents cap c) (hrun : getString buf r = .ok s r') :
    toSize r.index + 4 ≤ c.length ∧
      toSize (toInt32 (r.index + 4)) + prefixAt c (toSize r.index) ≤ c.length := by
  obtain ⟨_, _, hget, -⟩ := Execution.of_bind_ok hrun
  have hin : toSize r.index + 4 ≤ c.length := (get_fits h hget).1
  rw [getString_goesOn h hin] at hrun
  exact ⟨hin, getStringBody_fits h hrun⟩

end BufferReader

end LibraCore
