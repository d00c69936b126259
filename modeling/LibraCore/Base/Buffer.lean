import LibraCore.Base.Exception
import LibraCore.Foundations.Storage

/-!
# `Buffer`

The class `Buffer` of `base/buffer.h`: a block of storage `data_` of `capacity()`
cells, of which the first `ptr_` are in use. Every operation is written as the
source has it, with its own bounds test in `size_t` arithmetic and its own way
of failing; an access outside the storage is the fault `outOfBounds`.

`Buffer.HasContents` says what a buffer is for: a bounded byte sequence. The
theorems about it are the specifications that later files use in place of the
definitions.
-/

namespace LibraCore

/-- `Buffer`: the storage `data_`, and the number `ptr_` of cells in use. -/
structure Buffer where
  data : List UInt8
  ptr : ℕ
  deriving DecidableEq, Repr

/-- A member function of `Buffer` that may change the buffer and may fail. -/
abbrev BufferM := EStateM Fault Buffer

namespace Buffer

def capacity (b : Buffer) : ℕ := b.data.length

def size (b : Buffer) : ℕ := b.ptr

def contents (b : Buffer) : List UInt8 := b.data.take b.ptr

/-- `free_size()`, a difference of two `size_t` values. -/
def freeSize (b : Buffer) : ℕ := (b.capacity + sizeMod - b.ptr) % sizeMod

def setSize (size : ℕ) : BufferM Unit := fun b =>
  if size > b.capacity then
    .error (.thrown {
      classId := .exception
      method := "set_size"
      message := s!"Over capacity.capacity:{formatD b.capacity},size:{formatD size}" }) b
  else .ok () { b with ptr := size }

/-- `get`: `none` is the result `false`, `some buf` the bytes copied out. -/
def get (len index : ℕ) (b : Buffer) : Except Fault (Option (List UInt8)) :=
  if (index + len) % sizeMod > b.ptr then .ok none
  else
    match Storage.read b.data index len with
    | some buf => .ok (some buf)
    | none => .error .outOfBounds

def set (buf : List UInt8) (index : ℕ) : BufferM Bool := fun b =>
  if (index + buf.length) % sizeMod > b.ptr then .ok false b
  else
    match Storage.write b.data index buf with
    | some data => .ok true { b with data := data }
    | none => .error .outOfBounds b

def append (buf : List UInt8) : BufferM Bool := fun b =>
  if b.freeSize < buf.length then
    .error (.thrown {
      classId := .exception
      method := "append"
      message := s!"Not enough free space! Free:{formatD b.freeSize},need:{formatD buf.length}" }) b
  else
    match Storage.write b.data b.ptr buf with
    | some data => .ok true { data := data, ptr := (b.ptr + buf.length) % sizeMod }
    | none => .error .outOfBounds b

/-- `remove`: the number of bytes it reports as removed. -/
def remove (start len : ℕ) : BufferM ℕ := fun b =>
  if start ≥ b.ptr then .ok 0 b
  else if (start + len) % sizeMod ≥ b.ptr then
    .ok (b.ptr - start) { b with ptr := start }
  else
    -- `memmove` of `ptr_ - len` bytes, whatever `start` is
    match Storage.move b.data start ((start + len) % sizeMod)
        ((b.ptr + sizeMod - len) % sizeMod) with
    | some data => .ok len { data := data, ptr := (b.ptr + sizeMod - len) % sizeMod }
    | none => .error .outOfBounds b

def copy (buf : List UInt8) : BufferM Bool := fun b =>
  if buf.length > b.capacity then
    .error (.thrown {
      classId := .exception
      method := "copy"
      message := s!"Not enough capacity! Capacity:{formatD b.capacity},need:{formatD buf.length}" }) b
  else
    match Storage.write b.data 0 buf with
    | some data => .ok true { data := data, ptr := buf.length }
    | none => .error .outOfBounds b

/-- `DynamicBuffer(capacity)` and `StaticBuffer<Capacity>()`: zeroed storage, empty. -/
def zeroed (capacity : ℕ) : Buffer := { data := List.replicate capacity 0, ptr := 0 }

/-! ### A buffer as a bounded byte sequence -/

/-- The buffer has capacity `cap` and contains exactly `c`. -/
structure HasContents (b : Buffer) (cap : ℕ) (c : List UInt8) : Prop where
  capacity_eq : b.data.length = cap
  size_eq : b.ptr = c.length
  take_eq : b.data.take c.length = c
  cap_lt : cap < sizeMod

namespace HasContents

variable {b : Buffer} {cap : ℕ} {c : List UInt8}

theorem contents_eq (h : b.HasContents cap c) : b.contents = c := by
  rw [contents, h.size_eq, h.take_eq]

theorem length_le (h : b.HasContents cap c) : c.length ≤ cap := by
  have hlen := congrArg List.length h.take_eq
  rw [List.length_take, h.capacity_eq] at hlen
  omega

theorem data_take {n : ℕ} (h : b.HasContents cap c) (hn : n ≤ c.length) :
    b.data.take n = c.take n := by
  conv_rhs => rw [← h.take_eq, List.take_take, Nat.min_eq_left hn]

theorem length_lt (h : b.HasContents cap c) : c.length < sizeMod :=
  lt_of_le_of_lt h.length_le h.cap_lt

theorem freeSize_eq (h : b.HasContents cap c) : b.freeSize = cap - c.length := by
  have hle := h.length_le
  have hlt := h.cap_lt
  rw [freeSize, capacity, h.capacity_eq, h.size_eq]
  exact sub_sizeMod hle hlt

private theorem of_write {xs mem : List UInt8} (h : b.HasContents cap c)
    (hw : Storage.write b.data c.length xs = some mem) :
    HasContents ⟨mem, c.length + xs.length⟩ cap (c ++ xs) where
  capacity_eq := (Storage.length_write hw).trans h.capacity_eq
  size_eq := List.length_append.symm
  take_eq := by rw [List.length_append, Storage.take_write hw, h.take_eq]
  cap_lt := h.cap_lt

theorem append_ok {xs : List UInt8} (h : b.HasContents cap c)
    (hfit : c.length + xs.length ≤ cap) :
    ∃ b', append xs b = .ok true b' ∧ b'.HasContents cap (c ++ xs) := by
  have hfree := h.freeSize_eq
  have hlt := h.cap_lt
  obtain ⟨mem, hw⟩ : ∃ mem, Storage.write b.data c.length xs = some mem :=
    ⟨_, Storage.write_eq_some (by rw [h.capacity_eq]; exact hfit)⟩
  refine ⟨⟨mem, c.length + xs.length⟩, ?_, h.of_write hw⟩
  have hmod : (c.length + xs.length) % sizeMod = c.length + xs.length :=
    Nat.mod_eq_of_lt (by omega)
  rw [append, if_neg (by omega), h.size_eq, hw]
  simp only [hmod]

theorem append_full {xs : List UInt8} (h : b.HasContents cap c)
    (hfull : cap < c.length + xs.length) :
    ∃ e, append xs b = .error (.thrown e) b := by
  have hfree := h.freeSize_eq
  have hle := h.length_le
  exact ⟨_, by rw [append, if_pos (by omega)]⟩

/-- Dropping a prefix of the contents. -/
theorem remove_front {n : ℕ} (h : b.HasContents cap c) (hn : n ≤ c.length) :
    ∃ b', remove 0 n b = .ok n b' ∧ b'.HasContents cap (c.drop n) := by
  have hlt := h.length_lt
  by_cases hempty : c.length = 0
  · -- nothing is in use, so the first test ends the call
    obtain rfl : n = 0 := by omega
    refine ⟨b, ?_, by simpa using h⟩
    rw [remove, if_pos (by rw [h.size_eq]; omega)]
  have hstart : ¬ 0 ≥ b.ptr := by rw [h.size_eq]; omega
  have hmod : (0 + n) % sizeMod = n := by
    rw [Nat.zero_add]
    exact Nat.mod_eq_of_lt (by omega)
  by_cases hall : n = c.length
  · subst hall
    refine ⟨{ b with ptr := 0 }, ?_, ?_⟩
    · rw [remove, if_neg hstart, if_pos (by rw [hmod, h.size_eq]), h.size_eq]
      rfl
    · rw [List.drop_length]
      exact ⟨h.capacity_eq, rfl, rfl, h.cap_lt⟩
  · have hrest : (c.length + sizeMod - n) % sizeMod = c.length - n := sub_sizeMod hn hlt
    have hcap := h.length_le
    obtain ⟨mem, hm, hlen, htake⟩ :=
      Storage.move_front (show n + (c.length - n) ≤ b.data.length by rw [h.capacity_eq]; omega)
    refine ⟨⟨mem, c.length - n⟩, ?_, ?_⟩
    · rw [remove, if_neg hstart, if_neg (by rw [hmod, h.size_eq]; omega), hmod, h.size_eq,
        hrest, hm]
    · refine ⟨hlen.trans h.capacity_eq, List.length_drop.symm, ?_, h.cap_lt⟩
      rw [List.length_drop, htake, ← List.drop_take, h.take_eq]

/-- `remove` of more than there is drops what there is. -/
theorem remove_all {n : ℕ} (h : b.HasContents cap c) (hn : c.length ≤ n) (hlt : n < sizeMod) :
    ∃ b', remove 0 n b = .ok c.length b' ∧ b'.HasContents cap [] := by
  by_cases hempty : c.length = 0
  · obtain rfl := List.eq_nil_of_length_eq_zero hempty
    exact ⟨b, by rw [remove, if_pos (by rw [h.size_eq]; omega)]; rfl, h⟩
  · refine ⟨{ b with ptr := 0 }, ?_, h.capacity_eq, rfl, rfl, h.cap_lt⟩
    rw [remove, if_neg (by rw [h.size_eq]; omega),
      if_pos (by rw [Nat.zero_add, Nat.mod_eq_of_lt hlt, h.size_eq]; exact hn), h.size_eq]
    rfl

/-- Dropping a suffix of the contents. -/
theorem remove_back {n : ℕ} (h : b.HasContents cap c) (hn : n ≤ c.length) :
    ∃ b', remove (c.length - n) n b = .ok n b' ∧ b'.HasContents cap (c.take (c.length - n)) := by
  have hlt := h.length_lt
  by_cases hzero : n = 0
  · subst hzero
    refine ⟨b, by rw [remove, if_pos (by rw [h.size_eq]; omega)], ?_⟩
    rwa [Nat.sub_zero, List.take_length]
  · have hsum : c.length - n + n = c.length := by omega
    refine ⟨{ b with ptr := c.length - n }, ?_, h.capacity_eq, ?_, ?_, h.cap_lt⟩
    · rw [remove, if_neg (by rw [h.size_eq]; omega),
        if_pos (by rw [hsum, Nat.mod_eq_of_lt hlt, h.size_eq]), h.size_eq]
      congr 1
      omega
    · exact (List.length_take_of_le (Nat.sub_le _ _)).symm
    · rw [List.length_take_of_le (Nat.sub_le _ _)]
      exact h.data_take (Nat.sub_le _ _)

theorem copy_ok {xs : List UInt8} (h : b.HasContents cap c) (hfit : xs.length ≤ cap) :
    ∃ b', copy xs b = .ok true b' ∧ b'.HasContents cap xs := by
  obtain ⟨mem, hw⟩ : ∃ mem, Storage.write b.data 0 xs = some mem :=
    ⟨_, Storage.write_eq_some (by rw [h.capacity_eq]; omega)⟩
  refine ⟨⟨mem, xs.length⟩, ?_, ?_⟩
  · rw [copy, if_neg (by rw [capacity, h.capacity_eq]; omega), hw]
  · have htake := Storage.take_write hw
    rw [Nat.zero_add, List.take_zero, List.nil_append] at htake
    exact ⟨(Storage.length_write hw).trans h.capacity_eq, rfl, htake, h.cap_lt⟩

theorem copy_full {xs : List UInt8} (h : b.HasContents cap c) (hfull : cap < xs.length) :
    ∃ e, copy xs b = .error (.thrown e) b :=
  ⟨_, by rw [copy, if_pos (by rw [capacity, h.capacity_eq]; exact hfull)]⟩

theorem get_ok {len index : ℕ} (h : b.HasContents cap c) (hin : index + len ≤ c.length) :
    get len index b = .ok (some ((c.drop index).take len)) := by
  have hlt := h.length_lt
  have hcap := h.length_le
  have hmod : (index + len) % sizeMod = index + len := Nat.mod_eq_of_lt (by omega)
  rw [get, if_neg (by rw [hmod, h.size_eq]; omega),
    Storage.read_of_take (k := c.length) (by rw [h.capacity_eq]; exact hcap) hin, h.take_eq]

theorem get_out {len index : ℕ} (h : b.HasContents cap c) (hout : c.length < index + len)
    (hmod : index + len < sizeMod) : get len index b = .ok none := by
  rw [get, if_pos (by rw [Nat.mod_eq_of_lt hmod, h.size_eq]; exact hout)]

/-- `set` of a range inside the contents overwrites it. -/
theorem set_ok {xs : List UInt8} {index : ℕ} (h : b.HasContents cap c)
    (hin : index + xs.length ≤ c.length) :
    ∃ b', set xs index b = .ok true b' ∧
      b'.HasContents cap (c.take index ++ xs ++ c.drop (index + xs.length)) := by
  have hlt := h.length_lt
  have hcap := h.length_le
  have hmod : (index + xs.length) % sizeMod = index + xs.length := Nat.mod_eq_of_lt (by omega)
  obtain ⟨mem, hw⟩ : ∃ mem, Storage.write b.data index xs = some mem :=
    ⟨_, Storage.write_eq_some (by rw [h.capacity_eq]; omega)⟩
  have hlen : (c.take index ++ xs ++ c.drop (index + xs.length)).length = c.length := by
    simp only [List.length_append, List.length_take, List.length_drop]
    omega
  refine ⟨⟨mem, b.ptr⟩, ?_, ?_⟩
  · rw [set, if_neg (by rw [hmod, h.size_eq]; omega), hw]
  · refine ⟨(Storage.length_write hw).trans h.capacity_eq, by rw [hlen, h.size_eq], ?_, h.cap_lt⟩
    -- the cells before the write, the written cells and the cells behind them
    have hfront : mem.take (index + xs.length) = c.take index ++ xs := by
      rw [Storage.take_write hw, ← h.take_eq, List.take_take]
      congr 2
      omega
    have hback : (mem.drop (index + xs.length)).take (c.length - (index + xs.length)) =
        c.drop (index + xs.length) := by
      rw [Storage.drop_write hw, ← List.drop_take, h.take_eq]
    have hsplit : c.length = (index + xs.length) + (c.length - (index + xs.length)) := by omega
    rw [hlen]
    conv_lhs => rw [hsplit]
    rw [List.take_add, hfront, hback]

theorem set_out {xs : List UInt8} {index : ℕ} (h : b.HasContents cap c)
    (hout : c.length < index + xs.length) (hmod : index + xs.length < sizeMod) :
    set xs index b = .ok false b := by
  rw [set, if_pos (by rw [Nat.mod_eq_of_lt hmod, h.size_eq]; exact hout)]

theorem setSize_full {n : ℕ} (h : b.HasContents cap c) (hn : cap < n) :
    ∃ e, setSize n b = .error (.thrown e) b :=
  ⟨_, by rw [setSize, if_pos (by rw [capacity, h.capacity_eq]; exact hn)]⟩

theorem setSize_ok {n : ℕ} (h : b.HasContents cap c) (hn : n ≤ cap) :
    setSize n b = .ok () { b with ptr := n } ∧
      HasContents { b with ptr := n } cap (b.data.take n) := by
  constructor
  · rw [setSize, if_neg (by rw [capacity, h.capacity_eq]; omega)]
  · have hlen : (b.data.take n).length = n := by
      rw [List.length_take, h.capacity_eq]
      omega
    exact ⟨h.capacity_eq, hlen.symm, by rw [hlen], h.cap_lt⟩

end HasContents

theorem hasContents_zeroed {capacity : ℕ} (h : capacity < sizeMod) :
    (zeroed capacity).HasContents capacity [] :=
  ⟨List.length_replicate, rfl, rfl, h⟩

end Buffer

end LibraCore
