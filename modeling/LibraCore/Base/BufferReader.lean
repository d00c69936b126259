import LibraCore.Base.Buffer
import LibraCore.Base.Bytes
import LibraCore.Foundations.Execution

/-!
# `BufferReader`

The cursor of `base/buffer_reader.h` over a buffer it does not change. The
cursor `index_` is an `int` that is advanced by unsigned amounts and widened to
`size_t` for each access.
-/

namespace LibraCore

def bufferReaderStop : Exception where
  classId := .bufferReaderStop
  method := "Buffer Reader"
  message := "Not enough data to read!"

/-- `index_`, and the sizes `get_string` has asked `std::string::resize` for. -/
structure BufferReader where
  index : ℤ
  resized : List ℕ := []
  deriving DecidableEq, Repr

abbrev ReaderM := EStateM Fault BufferReader

namespace BufferReader

def get (buf : Buffer) (t : IntType) : ReaderM t.Val := fun r =>
  match buf.get t.size (toSize r.index) with
  | .error f => .error f r
  | .ok none => .error (.thrown bufferReaderStop) r
  | .ok (some v) =>
    .ok (swapN2H t (ofMemory t.size v)) { r with index := toInt32 (r.index + t.size) }

def getBytes (buf : Buffer) (len : ℕ) : ReaderM (List UInt8) := fun r =>
  match buf.get len (toSize r.index) with
  | .error f => .error f r
  | .ok none => .error (.thrown bufferReaderStop) r
  | .ok (some bytes) => .ok bytes { r with index := toInt32 (r.index + len) }

/-- The part of `get_string` behind the length prefix. -/
def getStringBody (buf : Buffer) (size : ℕ) : ReaderM (List UInt8) := fun r =>
  let r := { r with resized := r.resized ++ [size] }
  match buf.get size (toSize r.index) with
  | .error f => .error f r
  | .ok none =>
    -- the cursor goes back over the prefix that was read
    .error (.thrown bufferReaderStop) { r with index := toInt32 (r.index - IntType.uint32.size) }
  | .ok (some s) => .ok s { r with index := toInt32 (r.index + size) }

def getString (buf : Buffer) : ReaderM (List UInt8) := do
  let size ← get buf .uint32
  getStringBody buf size.toNat

/-- The number that the four bytes at an offset of the contents spell. -/
def prefixAt (c : List UInt8) (offset : ℕ) : ℕ := Octet.toNat ((c.drop offset).take 4)

theorem prefixAt_lt (c : List UInt8) (offset : ℕ) : prefixAt c offset < 2 ^ 32 :=
  lt_of_lt_of_le (Octet.toNat_lt _)
    (Nat.pow_le_pow_right (show 0 < 256 by norm_num) (List.length_take_le 4 _))

/-! ### Reading inside and outside the contents -/

section Spec

variable {buf : Buffer} {cap i : ℕ} {c : List UInt8} {log : List ℕ}

private theorem toSize_cursor (hi : i < 2 ^ 31) : toSize (i : ℤ) = i :=
  toSize_of_lt (lt_trans hi (by norm_num))

private theorem advance {n : ℕ} (hlt : i + n < 2 ^ 31) :
    toInt32 ((i : ℤ) + n) = (i + n : ℕ) := by
  rw [← Nat.cast_add]
  exact toInt32_of_lt hlt

/-- An integer at any cursor, the offset that it widens to being in the contents. -/
theorem get_inside {r : BufferReader} (h : buf.HasContents cap c) (t : IntType)
    (hin : toSize r.index + t.size ≤ c.length) :
    get buf t r = .ok (Octet.word t.size ((c.drop (toSize r.index)).take t.size))
      { r with index := toInt32 (r.index + t.size) } := by
  have hlen : ((c.drop (toSize r.index)).take t.size).length = t.size := by
    rw [List.length_take, List.length_drop]
    omega
  simp only [get]
  rw [h.get_ok hin]
  simp only [swapN2H_ofMemory t hlen]

theorem get_outside {r : BufferReader} (h : buf.HasContents cap c) (t : IntType)
    (hout : c.length < toSize r.index + t.size) (hmod : toSize r.index + t.size < sizeMod) :
    get buf t r = .error (.thrown bufferReaderStop) r := by
  simp only [get]
  rw [h.get_out hout hmod]

theorem get_ok (h : buf.HasContents cap c) (t : IntType) (hlt : i + t.size < 2 ^ 31)
    (hin : i + t.size ≤ c.length) :
    get buf t ⟨i, log⟩ =
      .ok (Octet.word t.size ((c.drop i).take t.size)) ⟨(i + t.size : ℕ), log⟩ := by
  have hcursor : toSize (i : ℤ) = i := toSize_cursor (by omega)
  have hget := get_inside (r := ⟨i, log⟩) h t (by rw [hcursor]; exact hin)
  rw [hget]
  simp only [hcursor, advance hlt]

theorem get_stop (h : buf.HasContents cap c) (t : IntType) (hi : i < 2 ^ 31)
    (hout : c.length < i + t.size) :
    get buf t ⟨i, log⟩ = .error (.thrown bufferReaderStop) ⟨i, log⟩ := by
  have hsize := t.size_le
  have hmod : i + t.size < sizeMod := by
    have : (2 : ℕ) ^ 31 + 4 < sizeMod := by norm_num
    omega
  have hcursor : toSize (i : ℤ) = i := toSize_cursor hi
  exact get_outside h t (by rw [hcursor]; exact hout) (by rw [hcursor]; exact hmod)

/-- Behind a length prefix in the contents, `get_string` goes on with that length. -/
theorem getString_goesOn {r : BufferReader} (h : buf.HasContents cap c)
    (hin : toSize r.index + 4 ≤ c.length) :
    getString buf r = getStringBody buf (prefixAt c (toSize r.index))
      { r with index := toInt32 (r.index + 4) } := by
  have hlen : ((c.drop (toSize r.index)).take 4).length = 4 := by
    rw [List.length_take, List.length_drop]
    omega
  have hget : get buf .uint32 r = .ok (Octet.word 4 ((c.drop (toSize r.index)).take 4))
      { r with index := toInt32 (r.index + 4) } := get_inside h .uint32 hin
  rw [getString, Execution.bind_ok hget, prefixAt, ← Octet.toNat_word hlen]
  rfl

theorem getStringBody_inside {r : BufferReader} {n : ℕ} (h : buf.HasContents cap c)
    (hin : toSize r.index + n ≤ c.length) :
    getStringBody buf n r = .ok ((c.drop (toSize r.index)).take n)
      ⟨toInt32 (r.index + n), r.resized ++ [n]⟩ := by
  simp only [getStringBody, h.get_ok hin]

theorem getStringBody_outside {r : BufferReader} {n : ℕ} (h : buf.HasContents cap c)
    (hout : c.length < toSize r.index + n) (hmod : toSize r.index + n < sizeMod) :
    getStringBody buf n r = .error (.thrown bufferReaderStop)
      ⟨toInt32 (r.index - 4), r.resized ++ [n]⟩ := by
  simp only [getStringBody, h.get_out hout hmod]
  rfl

/-- A string whose prefix and bytes lie in the contents is returned, whatever becomes of the
cursor behind it. -/
theorem getString_returns (h : buf.HasContents cap c) {s : List UInt8} (hlt : i + 4 < 2 ^ 31)
    (hat : (c.drop i).take (4 + s.length) = Octet.ofNat 4 s.length ++ s)
    (hs : s.length < 2 ^ 32) (hin : i + 4 + s.length ≤ c.length) :
    getString buf ⟨i, log⟩ =
      .ok s ⟨toInt32 ((i + 4 : ℕ) + (s.length : ℤ)), log ++ [s.length]⟩ := by
  have hcursor : toSize (i : ℤ) = i := toSize_cursor (by omega)
  have hnext : toInt32 ((i : ℤ) + 4) = (i + 4 : ℕ) := toInt32_of_lt hlt
  have hcursor' : toSize ((i + 4 : ℕ) : ℤ) = i + 4 := toSize_cursor hlt
  have hpre : (c.drop i).take 4 = Octet.ofNat 4 s.length := by
    have htake := congrArg (List.take 4) hat
    rwa [List.take_take, Nat.min_eq_left (by omega),
      List.take_left' (Octet.length_ofNat 4 _)] at htake
  have hbody : (c.drop (i + 4)).take s.length = s := by
    have hdrop := congrArg (List.drop 4) hat
    rwa [List.drop_take, List.drop_drop, Nat.add_sub_cancel_left,
      List.drop_left' (Octet.length_ofNat 4 _)] at hdrop
  have hsize : Octet.toNat (Octet.ofNat 4 s.length) = s.length := by
    rw [Octet.toNat_ofNat]
    exact Nat.mod_eq_of_lt hs
  calc getString buf ⟨i, log⟩
      = getStringBody buf s.length ⟨(i + 4 : ℕ), log⟩ := by
        rw [getString_goesOn h (by rw [hcursor]; omega)]
        simp only [hcursor, hnext, prefixAt, hpre, hsize]
    _ = .ok s ⟨toInt32 ((i + 4 : ℕ) + (s.length : ℤ)), log ++ [s.length]⟩ := by
        rw [getStringBody_inside h (by rw [hcursor']; exact hin)]
        simp only [hcursor', hbody]

/-- A string whose prefix and bytes lie in the contents is returned. -/
theorem getString_ok (h : buf.HasContents cap c) {s : List UInt8}
    (hlt : i + 4 + s.length < 2 ^ 31)
    (hat : (c.drop i).take (4 + s.length) = Octet.ofNat 4 s.length ++ s)
    (hin : i + 4 + s.length ≤ c.length) :
    getString buf ⟨i, log⟩ = .ok s ⟨(i + 4 + s.length : ℕ), log ++ [s.length]⟩ := by
  rw [getString_returns h (by omega) hat (by omega) hin, advance hlt]

theorem getString_stop (h : buf.HasContents cap c) (hi : i < 2 ^ 31)
    (hout : c.length < i + 4) :
    getString buf ⟨i, log⟩ = .error (.thrown bufferReaderStop) ⟨i, log⟩ := by
  have hget : get buf .uint32 ⟨i, log⟩ = .error (.thrown bufferReaderStop) ⟨i, log⟩ :=
    get_stop h .uint32 hi hout
  rw [getString, Execution.bind_error hget]

/-- A string whose bytes are missing is not returned, and the cursor goes back over its prefix. -/
theorem getString_cut (h : buf.HasContents cap c) (hi : i + 4 < 2 ^ 31) (hin : i + 4 ≤ c.length)
    (hout : c.length < i + 4 + Octet.toNat ((c.drop i).take 4)) :
    getString buf ⟨i, log⟩ =
      .error (.thrown bufferReaderStop) ⟨i, log ++ [Octet.toNat ((c.drop i).take 4)]⟩ := by
  have hcursor : toSize (i : ℤ) = i := toSize_cursor (by omega)
  have hnext : toInt32 ((i : ℤ) + 4) = (i + 4 : ℕ) := toInt32_of_lt hi
  have hcursor' : toSize ((i + 4 : ℕ) : ℤ) = i + 4 := toSize_cursor hi
  have hback : toInt32 (((i + 4 : ℕ) : ℤ) - 4) = i := by
    have hsub : ((i + 4 : ℕ) : ℤ) - 4 = i := by push_cast; ring
    rw [hsub]
    exact toInt32_of_lt (by omega)
  have hlt : Octet.toNat ((c.drop i).take 4) < 2 ^ 32 := prefixAt_lt c i
  have hmod : i + 4 + Octet.toNat ((c.drop i).take 4) < sizeMod := by
    have : (2 : ℕ) ^ 31 + 2 ^ 32 < sizeMod := by norm_num
    omega
  rw [getString_goesOn h (by rw [hcursor]; exact hin)]
  simp only [hcursor, hnext, prefixAt]
  rw [getStringBody_outside h (by rw [hcursor']; exact hout) (by rw [hcursor']; exact hmod)]
  simp only [hback]

end Spec

end BufferReader

end LibraCore
