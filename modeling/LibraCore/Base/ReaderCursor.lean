import LibraCore.Base.BufferBounds
import LibraCore.Base.BufferSeq
import LibraCore.Foundations.Transition

/-!
# The cursor of a reader over any sequence of reads

A reader should be a position in the contents: a read that fits behind the position returns
what is there and moves the position over it, and a read that does not fit throws. The cursor
`index_` of `BufferReader` is an `int`, and it is that position as long as the position is the
offset of an `int`.

## Main results

- `BufferReader.right_iff_keeps` — one read from a position
- `BufferReader.counts_iff` — any sequence of reads
- `BufferReader.counts_of_small` — any sequence of reads in a buffer of less than `2 ^ 31` bytes
-/

namespace LibraCore

open Transition (System)

/-- A call on a reader: `get<T>()`, `get_bytes(buf, len)` or `get_string()`. -/
inductive Read
  | int (t : IntType)
  | bytes (len : ℕ)
  | string
  deriving DecidableEq, Repr

namespace Read

/-- What a call returns. -/
inductive Value
  | int (t : IntType) (v : t.Val)
  | bytes (buf : List UInt8)
  | string (s : List UInt8)

/-- The number of bytes a value was read from. -/
def Value.width : Value → ℕ
  | .int t _ => t.size
  | .bytes buf => buf.length
  | .string s => 4 + s.length

/-- The number of bytes the read takes at a position. -/
def width (c : List UInt8) (p : ℕ) : Read → ℕ
  | .int t => t.size
  | .bytes len => len
  | .string => 4 + BufferReader.prefixAt c p

/-- The value at a position, however many bytes there are. -/
def valueAt (c : List UInt8) (p : ℕ) : Read → Value
  | .int t => .int t (Octet.word t.size ((c.drop p).take t.size))
  | .bytes len => .bytes ((c.drop p).take len)
  | .string => .string ((c.drop (p + 4)).take (BufferReader.prefixAt c p))

/-- What a read at a position is for. -/
def reference (c : List UInt8) (p : ℕ) (rd : Read) : Except Fault Value :=
  if p + rd.width c p ≤ c.length then .ok (rd.valueAt c p) else .error (.thrown bufferReaderStop)

theorem width_valueAt {c : List UInt8} {p : ℕ} {rd : Read} (h : p + rd.width c p ≤ c.length) :
    (rd.valueAt c p).width = rd.width c p := by
  cases rd with
  | int t => rfl
  | bytes len =>
    rw [width] at h
    simp only [valueAt, Value.width, width, List.length_take, List.length_drop]
    omega
  | string =>
    rw [width] at h
    simp only [valueAt, Value.width, width, List.length_take, List.length_drop]
    omega

end Read

namespace BufferReader

def perform (b : Buffer) : Read → ReaderM Read.Value
  | .int t => do
    let v ← get b t
    pure (.int t v)
  | .bytes len => do
    let buf ← getBytes b len
    pure (.bytes buf)
  | .string => do
    let s ← getString b
    pure (.string s)

/-- What a call returns or throws. -/
def outcome (b : Buffer) (rd : Read) (r : BufferReader) : Except Fault Read.Value :=
  match perform b rd r with
  | .ok v _ => .ok v
  | .error f _ => .error f

/-- A reader, and the number of bytes it has returned values from. -/
structure Reading where
  reader : BufferReader
  consumed : ℕ

def Reading.next (b : Buffer) (s : Reading) (rd : Read) : Reading :=
  match perform b rd s.reader with
  | .ok v r => ⟨r, s.consumed + v.width⟩
  | .error _ r => ⟨r, s.consumed⟩

/-- All sequences of calls on one `BufferReader(buf, index)`. -/
def system (b : Buffer) : System Reading Read where
  initial s := s.consumed = 0 ∧ -2 ^ 31 ≤ s.reader.index ∧ s.reader.index < 2 ^ 31
  step s rd t := s.next b rd = t

/-- `index_`, used as an offset, is the starting index plus the number of consumed bytes. -/
def CursorAt (start : ℤ) (s : Reading) : Prop := (toSize s.reader.index : ℤ) = start + s.consumed

/-- The call does what a read at the counted position is for, and counts. -/
structure Right (b : Buffer) (start : ℤ) (s : Reading) (rd : Read) (t : Reading) : Prop where
  outcome_eq : outcome b rd s.reader = rd.reference b.contents (start + s.consumed).toNat
  cursorAt : CursorAt start t

/-- The cursor counts from the start, and through every one of the calls. -/
def Counts (b : Buffer) (start : ℤ) (rds : List Read) : Prop :=
  CursorAt start ⟨⟨start, []⟩, 0⟩ ∧ (system b).AlongSteps (Right b start) ⟨⟨start, []⟩, 0⟩ rds

/-! ### What it takes -/

/-- The position survives the conversion to `int` and back to `size_t`. -/
def IntOffset (p : ℕ) : Prop := toSize (toInt32 p) = p

/-- The bounds check of `Buffer::get` refuses the range. -/
def Refuses (b : Buffer) (index len : ℕ) : Prop := b.size < (index + len) % sizeMod

/-- A read that does not fit is refused, if not by its own check then by that of the prefix. -/
def Refused (b : Buffer) (p : ℕ) : Read → Prop
  | .int t => Refuses b p t.size
  | .bytes len => Refuses b p len
  | .string =>
    if p + 4 ≤ b.size then Refuses b (toSize (toInt32 (p + 4))) (prefixAt b.contents p)
    else Refuses b p 4

/-- A read that fits ends at the offset of an `int`, and one that does not fit is refused. -/
def Keeps (b : Buffer) (s : Reading) (rd : Read) : Prop :=
  let p := toSize s.reader.index
  (p + rd.width b.contents p ≤ b.size → IntOffset (p + rd.width b.contents p)) ∧
  (b.size < p + rd.width b.contents p → Refused b p rd)

instance (p : ℕ) : Decidable (IntOffset p) := inferInstanceAs (Decidable (_ = _))

instance (b : Buffer) (index len : ℕ) : Decidable (Refuses b index len) :=
  inferInstanceAs (Decidable (_ < _))

instance (b : Buffer) (p : ℕ) : (rd : Read) → Decidable (Refused b p rd)
  | .int t => inferInstanceAs (Decidable (Refuses b p t.size))
  | .bytes len => inferInstanceAs (Decidable (Refuses b p len))
  | .string => inferInstanceAs (Decidable (ite _ _ _))

instance (b : Buffer) (s : Reading) (rd : Read) : Decidable (Keeps b s rd) :=
  inferInstanceAs (Decidable (_ ∧ _))

section Spec

variable {b : Buffer} {cap : ℕ} {c : List UInt8} {r r' : BufferReader}

/-! ### What a call that is refused has checked -/

theorem refuses_of_none {len index : ℕ} (hget : b.get len index = .ok none) :
    Refuses b index len := by
  unfold Buffer.get at hget
  split at hget
  · assumption
  · split at hget
    · cases hget
    · cases hget

/-- A call that stops has been refused by its check. -/
theorem refuses_of_stop {α : Type} {len index : ℕ} {s₀ s₁ s₂ : BufferReader}
    {f : List UInt8 → α} (hrun : (match b.get len index with
      | .error e => .error e s₀
      | .ok none => .error (.thrown bufferReaderStop) s₁
      | .ok (some v) => .ok (f v) s₂ : EStateM.Result Fault BufferReader α) =
        .error (.thrown bufferReaderStop) r') : Refuses b index len := by
  split at hrun
  · next hget =>
    simp only [EStateM.Result.error.injEq] at hrun
    exact absurd (hrun.1 ▸ hget) Buffer.get_ne_thrown
  · next hget => exact refuses_of_none hget
  · cases hrun

theorem get_refuses {t : IntType} (hrun : get b t r = .error (.thrown bufferReaderStop) r') :
    Refuses b (toSize r.index) t.size :=
  refuses_of_stop hrun

theorem getBytes_refuses {len : ℕ}
    (hrun : getBytes b len r = .error (.thrown bufferReaderStop) r') :
    Refuses b (toSize r.index) len :=
  refuses_of_stop hrun

theorem getStringBody_refuses {n : ℕ}
    (hrun : getStringBody b n r = .error (.thrown bufferReaderStop) r') :
    Refuses b (toSize r.index) n :=
  refuses_of_stop hrun

/-! ### One call -/

/-- The offsets of an `int` are the small ones and, behind the wrap, the very large ones. -/
theorem IntOffset.bounds {p : ℕ} (h : IntOffset p) : p < 2 ^ 31 ∨ 2 ^ 64 - 2 ^ 31 ≤ p := by
  obtain ⟨hge, hlt⟩ := toInt32_bounds p
  rw [IntOffset, toSize] at h
  omega

/-- A string that ends at the offset of an `int` has a prefix that does. -/
private theorem toSize_behind {i : ℤ} {n : ℕ} (hge : -2 ^ 31 ≤ i) (hlt : i < 2 ^ 31)
    (hn : n < 2 ^ 32) (hend : toSize i + (4 + n) < sizeMod)
    (hoffset : IntOffset (toSize i + (4 + n))) : toSize (toInt32 (i + 4)) = toSize i + 4 := by
  have hbounds := hoffset.bounds
  have hint : i + 4 < 2 ^ 31 ∧ toSize (i + 4) = toSize i + 4 := by
    unfold toSize at hbounds hend ⊢
    have : sizeMod = 2 ^ 64 := rfl
    omega
  rw [toInt32_of_int (by omega) hint.1, hint.2]

/-- A read that fits and ends at the offset of an `int` returns what is there. -/
theorem perform_fits (h : b.HasContents cap c) (hge : -2 ^ 31 ≤ r.index) (hlt : r.index < 2 ^ 31)
    {rd : Read} (hin : toSize r.index + rd.width c (toSize r.index) ≤ c.length)
    (hoffset : IntOffset (toSize r.index + rd.width c (toSize r.index))) :
    ∃ log, perform b rd r = .ok (rd.valueAt c (toSize r.index))
      ⟨toInt32 (r.index + rd.width c (toSize r.index)), log⟩ := by
  cases rd with
  | int t => exact ⟨r.resized, Execution.bind_ok (get_inside h t hin)⟩
  | bytes len =>
    have hget : getBytes b len r = .ok ((c.drop (toSize r.index)).take len)
        ⟨toInt32 (r.index + len), r.resized⟩ := by
      rw [Read.width] at hin
      simp only [getBytes, h.get_ok hin]
    exact ⟨r.resized, Execution.bind_ok hget⟩
  | string =>
    rw [Read.width] at hin hoffset
    have hpos := toSize_behind hge hlt (prefixAt_lt c _)
      (lt_of_le_of_lt hin h.length_lt) hoffset
    have hbody : getStringBody b (prefixAt c (toSize r.index))
        ⟨toInt32 (r.index + 4), r.resized⟩ =
          .ok ((c.drop (toSize r.index + 4)).take (prefixAt c (toSize r.index)))
            ⟨toInt32 (r.index + (4 + prefixAt c (toSize r.index) : ℕ)),
              r.resized ++ [prefixAt c (toSize r.index)]⟩ := by
      rw [getStringBody_inside h (by simp only [hpos]; omega)]
      simp only [hpos, toInt32_add, add_assoc, Nat.cast_add, Nat.cast_ofNat]
    exact ⟨_, Execution.bind_ok ((getString_goesOn h (by omega)).trans hbody)⟩

/-- A read that is refused throws, and the cursor stays. -/
theorem perform_refused (h : b.HasContents cap c) (hge : -2 ^ 31 ≤ r.index)
    (hlt : r.index < 2 ^ 31) {rd : Read} (hrefused : Refused b (toSize r.index) rd) :
    ∃ log, perform b rd r = .error (.thrown bufferReaderStop) ⟨r.index, log⟩ := by
  have hsize : b.size = c.length := h.size_eq
  cases rd with
  | int t =>
    have hget : get b t r = .error (.thrown bufferReaderStop) r := by
      simp only [get, Buffer.get_refused (Nat.not_le.mpr hrefused)]
    exact ⟨r.resized, Execution.bind_error hget⟩
  | bytes len =>
    have hget : getBytes b len r = .error (.thrown bufferReaderStop) r := by
      simp only [getBytes, Buffer.get_refused (Nat.not_le.mpr hrefused)]
    exact ⟨r.resized, Execution.bind_error hget⟩
  | string =>
    rw [Refused, h.contents_eq, hsize] at hrefused
    split at hrefused
    · next hin =>
      rw [toInt32_toSize_add] at hrefused
      have hback : toInt32 (toInt32 (r.index + 4) - 4) = r.index := by
        rw [sub_eq_add_neg, toInt32_add, add_neg_cancel_right, toInt32_of_int hge hlt]
      have hbody : getStringBody b (prefixAt c (toSize r.index))
          ⟨toInt32 (r.index + 4), r.resized⟩ = .error (.thrown bufferReaderStop)
            ⟨r.index, r.resized ++ [prefixAt c (toSize r.index)]⟩ := by
        simp only [getStringBody, Buffer.get_refused (Nat.not_le.mpr hrefused), IntType.size,
          Nat.cast_ofNat, hback]
      exact ⟨_, Execution.bind_error ((getString_goesOn h hin).trans hbody)⟩
    · next hout =>
      have hget : getString b r = .error (.thrown bufferReaderStop) r := by
        apply Execution.bind_error
        have hrefuses : Refuses b (toSize r.index) IntType.uint32.size := hrefused
        simp only [get, Buffer.get_refused (Nat.not_le.mpr hrefuses)]
      exact ⟨r.resized, Execution.bind_error hget⟩

/-- What a call that returns leaves the cursor at. -/
theorem perform_index (h : b.HasContents cap c) {rd : Read} {v : Read.Value}
    (hrun : perform b rd r = .ok v r') :
    r'.index = toInt32 (r.index + rd.width c (toSize r.index)) := by
  cases rd with
  | int t =>
    obtain ⟨_, _, hget, hpure⟩ := Execution.of_bind_ok hrun
    cases hpure
    rw [(get_fits h hget).2]
    rfl
  | bytes len =>
    obtain ⟨_, _, hget, hpure⟩ := Execution.of_bind_ok hrun
    cases hpure
    unfold getBytes at hget
    split at hget
    · cases hget
    · cases hget
    · cases hget
      rfl
  | string =>
    obtain ⟨_, _, hget, hpure⟩ := Execution.of_bind_ok hrun
    cases hpure
    rw [getString_goesOn h (getString_fits h hget).1] at hget
    simp only [getStringBody] at hget
    split at hget
    · cases hget
    · cases hget
    · cases hget
      simp only [toInt32_add, Read.width, Nat.cast_add, Nat.cast_ofNat, add_assoc]

/-- A call that throws was refused. -/
theorem perform_refuses (h : b.HasContents cap c) {rd : Read}
    (hrun : perform b rd r = .error (.thrown bufferReaderStop) r') :
    Refused b (toSize r.index) rd := by
  have hsize : b.size = c.length := h.size_eq
  cases rd with
  | int t =>
    cases hget : get b t r with
    | ok v r₁ => cases (Execution.bind_ok hget).symm.trans hrun
    | error f r₁ =>
      cases (Execution.bind_error hget).symm.trans hrun
      exact get_refuses hget
  | bytes len =>
    cases hget : getBytes b len r with
    | ok v r₁ => cases (Execution.bind_ok hget).symm.trans hrun
    | error f r₁ =>
      cases (Execution.bind_error hget).symm.trans hrun
      exact getBytes_refuses hget
  | string =>
    rw [Refused, h.contents_eq, hsize]
    cases hget : getString b r with
    | ok v r₁ => cases (Execution.bind_ok hget).symm.trans hrun
    | error f r₁ =>
      cases (Execution.bind_error hget).symm.trans hrun
      by_cases hin : toSize r.index + 4 ≤ c.length
      · rw [if_pos hin, toInt32_toSize_add]
        rw [getString_goesOn h hin] at hget
        exact getStringBody_refuses hget
      · rw [if_neg hin]
        cases hprefix : get b .uint32 r with
        | ok v r₂ => exact absurd (get_fits h hprefix).1 hin
        | error f r₂ =>
          cases (Execution.bind_error hprefix).symm.trans hget
          exact get_refuses hprefix

/-! ### Sequences of calls -/

variable {s : Reading} {start : ℤ}

/-- The state between two calls that count. -/
structure Counting (start : ℤ) (s : Reading) : Prop where
  cursorAt : CursorAt start s
  ge : -2 ^ 31 ≤ s.reader.index
  lt : s.reader.index < 2 ^ 31

/-- A call does what a read at its position is for exactly if it ends at the offset of an `int`
or is refused. -/
theorem right_iff_keeps (h : b.HasContents cap c) (hs : Counting start s) (rd : Read) :
    Right b start s rd (s.next b rd) ↔ Keeps b s rd := by
  have hsize : b.size = c.length := h.size_eq
  have hpos : (start + s.consumed).toNat = toSize s.reader.index := by
    rw [← hs.cursorAt, Int.toNat_natCast]
  have hcursor : (toSize s.reader.index : ℤ) = start + s.consumed := hs.cursorAt
  rw [Keeps, h.contents_eq, hsize]
  by_cases hin : toSize s.reader.index + rd.width c (toSize s.reader.index) ≤ c.length
  · have hreference : rd.reference b.contents (start + s.consumed).toNat =
        .ok (rd.valueAt c (toSize s.reader.index)) := by
      rw [hpos, h.contents_eq, Read.reference, if_pos hin]
    constructor
    · intro hright
      refine ⟨fun _ => ?_, fun hout => absurd hin (Nat.not_le.mpr hout)⟩
      have houtcome := hright.outcome_eq
      have hnext := hright.cursorAt
      rw [hreference, outcome] at houtcome
      rw [CursorAt, Reading.next] at hnext
      split at houtcome
      · next v r' hrun =>
        obtain rfl := Except.ok.inj houtcome
        simp only [hrun, perform_index h hrun, Read.width_valueAt hin] at hnext
        rw [IntOffset, Nat.cast_add, toInt32_toSize_add]
        omega
      · cases houtcome
    · rintro ⟨hoffset, -⟩
      obtain ⟨log, hrun⟩ := perform_fits h hs.ge hs.lt hin (hoffset hin)
      have hend := hoffset hin
      rw [IntOffset, Nat.cast_add, toInt32_toSize_add] at hend
      refine ⟨by rw [hreference, outcome, hrun], ?_⟩
      rw [CursorAt, Reading.next, hrun]
      simp only [hend, Read.width_valueAt hin, Nat.cast_add]
      omega
  · have hreference : rd.reference b.contents (start + s.consumed).toNat =
        .error (.thrown bufferReaderStop) := by
      rw [hpos, h.contents_eq, Read.reference, if_neg hin]
    constructor
    · intro hright
      refine ⟨fun hle => absurd hle hin, fun _ => ?_⟩
      have houtcome := hright.outcome_eq
      rw [hreference, outcome] at houtcome
      split at houtcome
      · cases houtcome
      · next f r' hrun =>
        obtain rfl := Except.error.inj houtcome
        exact perform_refuses h hrun
    · rintro ⟨-, hrefused⟩
      obtain ⟨log, hrun⟩ := perform_refused h hs.ge hs.lt (hrefused (Nat.lt_of_not_le hin))
      refine ⟨by rw [hreference, outcome, hrun], ?_⟩
      rw [CursorAt, Reading.next, hrun]
      exact hs.cursorAt

/-- Where a call that counts leaves the cursor. -/
theorem Counting.next_index (h : b.HasContents cap c) (hs : Counting start s) {rd : Read}
    (hkeeps : Keeps b s rd) :
    (toSize s.reader.index + rd.width c (toSize s.reader.index) ≤ c.length ∧
      (s.next b rd).reader.index =
        toInt32 (s.reader.index + rd.width c (toSize s.reader.index))) ∨
    (s.next b rd).reader.index = s.reader.index := by
  have hsize : b.size = c.length := h.size_eq
  rw [Keeps, h.contents_eq, hsize] at hkeeps
  rw [Reading.next]
  by_cases hin : toSize s.reader.index + rd.width c (toSize s.reader.index) ≤ c.length
  · obtain ⟨log, hrun⟩ := perform_fits h hs.ge hs.lt hin (hkeeps.1 hin)
    rw [hrun]
    exact .inl ⟨hin, rfl⟩
  · obtain ⟨log, hrun⟩ := perform_refused h hs.ge hs.lt (hkeeps.2 (Nat.lt_of_not_le hin))
    rw [hrun]
    exact .inr rfl

theorem Counting.next (h : b.HasContents cap c) (hs : Counting start s) {rd : Read}
    (hkeeps : Keeps b s rd) : Counting start (s.next b rd) := by
  have hcursor := ((right_iff_keeps h hs rd).mpr hkeeps).cursorAt
  rcases hs.next_index h hkeeps with ⟨-, hindex⟩ | hindex
  · exact ⟨hcursor, hindex ▸ (toInt32_bounds _).1, hindex ▸ (toInt32_bounds _).2⟩
  · exact ⟨hcursor, hindex ▸ hs.ge, hindex ▸ hs.lt⟩

/-- Any calls can be made on a reader. -/
theorem exists_run (b : Buffer) (s : Reading) (rds : List Read) : ∃ t, (system b).Run s rds t := by
  induction rds using List.reverseRecOn with
  | nil => exact ⟨s, System.Run.nil s⟩
  | append_singleton rds rd ih =>
    obtain ⟨u, hrun⟩ := ih
    exact ⟨u.next b rd, hrun.snoc rfl⟩

theorem counting_start (hge : 0 ≤ start) (hlt : start < 2 ^ 31) :
    Counting start ⟨⟨start, []⟩, 0⟩ := by
  obtain ⟨i, rfl⟩ := Int.eq_ofNat_of_zero_le hge
  have hi : toSize (i : ℤ) = i := toSize_of_lt (by have : sizeMod = 2 ^ 64 := rfl; omega)
  have hge : (-2 ^ 31 : ℤ) ≤ i := by omega
  exact ⟨by simp [CursorAt, hi], hge, hlt⟩

/-- The cursor counts through a sequence of calls exactly if it starts at an offset and every
call ends at the offset of an `int` or is refused. -/
theorem counts_iff (h : b.HasContents cap c) (hge : -2 ^ 31 ≤ start) (hlt : start < 2 ^ 31)
    (rds : List Read) :
    Counts b start rds ↔
      0 ≤ start ∧ ∃ t, ((system b).guard (Keeps b)).Run ⟨⟨start, []⟩, 0⟩ rds t := by
  have hdet : ∀ s rd t u, (system b).step s rd t → (system b).step s rd u → t = u := by
    rintro s rd t u rfl rfl
    rfl
  have hkeep : ∀ s rd t, Counting start s → Keeps b s rd → (system b).step s rd t →
      Counting start t ∧ Right b start s rd t := by
    rintro s rd t hs hkeeps rfl
    exact ⟨hs.next h hkeeps, (right_iff_keeps h hs rd).mpr hkeeps⟩
  have hneeds : ∀ s rd t, Counting start s → (system b).step s rd t → Right b start s rd t →
      Keeps b s rd := by
    rintro s rd t hs rfl hright
    exact (right_iff_keeps h hs rd).mp hright
  constructor
  · rintro ⟨hcursor, halong⟩
    have hstart : 0 ≤ start := by
      have hoffset : (toSize start : ℤ) = start := by simpa [CursorAt] using hcursor
      omega
    obtain ⟨t, hrun⟩ := exists_run b ⟨⟨start, []⟩, 0⟩ rds
    exact ⟨hstart, t, (hrun.alongSteps_iff_guard hdet hkeep hneeds
      (counting_start hstart hlt)).mp halong⟩
  · rintro ⟨hstart, t, hguarded⟩
    have hs := counting_start hstart hlt
    exact ⟨hs.cursorAt,
      (hguarded.of_guard.alongSteps_iff_guard hdet hkeep hneeds hs).mpr hguarded⟩

/-- From an offset below `2 ^ 31` a read in a small buffer counts. -/
theorem keeps_of_small (h : b.HasContents cap c) (hsmall : c.length < 2 ^ 31)
    (hpos : toSize s.reader.index < 2 ^ 31) {rd : Read}
    (hlen : ∀ len, rd = .bytes len → len < 2 ^ 63) : Keeps b s rd := by
  have hsize : b.size = c.length := h.size_eq
  have h64 : sizeMod = 2 ^ 64 := rfl
  have hrefuses {p len : ℕ} (hout : c.length < p + len) (hp : p < 2 ^ 32) (hl : len < 2 ^ 63) :
      Refuses b p len := by
    rw [Refuses, hsize, Nat.mod_eq_of_lt (by omega)]
    exact hout
  rw [Keeps, h.contents_eq, hsize]
  refine ⟨fun hin => ?_, fun hout => ?_⟩
  · rw [IntOffset, toInt32_of_lt (by omega), toSize_of_lt (by omega)]
  · cases rd with
    | int t => exact hrefuses hout (by omega) (by have := t.size_le; omega)
    | bytes len => exact hrefuses hout (by omega) (hlen len rfl)
    | string =>
      have hlt := prefixAt_lt c (toSize s.reader.index)
      rw [Read.width] at hout
      rw [Refused, h.contents_eq, hsize]
      split
      · next hin =>
        have hnext : toSize (toInt32 ((toSize s.reader.index : ℤ) + 4)) =
            toSize s.reader.index + 4 := by
          have hint := toInt32_of_lt (show toSize s.reader.index + 4 < 2 ^ 31 by omega)
          rw [Nat.cast_add, Nat.cast_ofNat] at hint
          rw [hint]
          exact toSize_of_lt (n := toSize s.reader.index + 4) (by omega)
        rw [hnext]
        exact hrefuses (by omega) (by omega) (by omega)
      · next hin => exact hrefuses (by omega) (by omega) (by norm_num)

/-- In a buffer of less than `2 ^ 31` bytes the cursor counts through every sequence of calls
that ask for less than `2 ^ 63` bytes each. -/
theorem counts_of_small (h : b.HasContents cap c) (hsmall : c.length < 2 ^ 31) (hge : 0 ≤ start)
    (hlt : start < 2 ^ 31) {rds : List Read} (hlen : ∀ len, .bytes len ∈ rds → len < 2 ^ 63) :
    Counts b start rds := by
  refine (counts_iff h (by omega) hlt rds).mpr ⟨hge, ?_⟩
  obtain ⟨t, hrun⟩ := exists_run b ⟨⟨start, []⟩, 0⟩ rds
  refine ⟨t, hrun.guarded (I := fun s => Counting start s ∧ toSize s.reader.index < 2 ^ 31) ?_ ?_
    ⟨counting_start hge hlt, ?_⟩⟩
  · rintro s ⟨-, hpos⟩ rd hrd
    exact keeps_of_small h hsmall hpos fun len hrd' => hlen len (hrd' ▸ hrd)
  · rintro s rd t ⟨hs, hpos⟩ hkeeps rfl
    refine ⟨hs.next h hkeeps, ?_⟩
    rcases hs.next_index h hkeeps with ⟨hin, hindex⟩ | hindex
    · -- the position moves over a read that fits in less than `2 ^ 31` bytes
      rw [hindex, ← toInt32_toSize_add, ← Nat.cast_add, toInt32_of_lt (by omega),
        toSize_of_lt (lt_of_le_of_lt hin h.length_lt)]
      omega
    · rw [hindex]
      exact hpos
  · have hoffset : (toSize start : ℤ) = start := by
      simpa [CursorAt] using (counting_start hge hlt).cursorAt
    have hpos : toSize start < 2 ^ 31 := by omega
    exact hpos

/-- A reader at the front of a buffer of more than `2 ^ 31` bytes. -/
private theorem not_counts_of_large (h : b.HasContents cap c) (hlen : 2 ^ 31 < c.length)
    (hlt : c.length < 2 ^ 32) :
    (Reading.next b ⟨⟨0, []⟩, 0⟩ (.bytes (2 ^ 31))).reader.index = -2 ^ 31 ∧
      outcome b (.int .uint8) ⟨-2 ^ 31, []⟩ = .error (.thrown bufferReaderStop) ∧
      ¬ Counts b 0 [.bytes (2 ^ 31), .int .uint8] := by
  have hzero : toSize 0 = 0 := rfl
  have hfar : toSize (-2 ^ 31) = 2 ^ 64 - 2 ^ 31 := by decide
  have hget : getBytes b (2 ^ 31) ⟨0, []⟩ = .ok ((c.drop 0).take (2 ^ 31)) ⟨-2 ^ 31, []⟩ := by
    simp only [getBytes]
    rw [hzero, h.get_ok (by omega)]
    rfl
  have hnext : Reading.next b ⟨⟨0, []⟩, 0⟩ (.bytes (2 ^ 31)) =
      ⟨⟨-2 ^ 31, []⟩, 0 + ((c.drop 0).take (2 ^ 31)).length⟩ := by
    rw [Reading.next, show perform b (.bytes (2 ^ 31)) ⟨0, []⟩ = _ from Execution.bind_ok hget]
    rfl
  refine ⟨by rw [hnext], ?_, ?_⟩
  · have hstop : get b .uint8 ⟨-2 ^ 31, []⟩ =
        .error (.thrown bufferReaderStop) ⟨-2 ^ 31, []⟩ := by
      apply get_outside h
      · rw [hfar]
        omega
      · rw [hfar]
        decide
    rw [outcome, show perform b (.int .uint8) ⟨-2 ^ 31, []⟩ = _ from Execution.bind_error hstop]
  · rintro ⟨-, halong⟩
    have hcursor := (halong [] (.bytes (2 ^ 31)) _ _ (by simp) (System.Run.nil _) rfl).cursorAt
    rw [hnext, CursorAt, List.drop_zero, List.length_take_of_le hlen.le] at hcursor
    simp only [hfar] at hcursor
    omega

/-- `WrapBuffer` over memory of any size. -/
private theorem exists_wrapped {mem : List UInt8} {n : ℕ} (hmem : mem.length = n)
    (hn : n < sizeMod) : ∃ b : Buffer, Buffer.Constructed b ∧ b.size = n := by
  refine ⟨⟨mem.take n, n⟩, .wrapWhole hn hmem.ge ?_, rfl⟩
  have hcap : (mem.take n).length = n := List.length_take_of_le hmem.ge
  rw [Buffer.wrap, Buffer.setSize, if_neg]
  rw [Buffer.capacity, hcap]
  exact lt_irrefl n

/-- Three bytes are read from five, and three more are refused. -/
theorem counts_iff_small : Counts ⟨[1, 2, 3, 4, 5], 5⟩ 0 [.bytes 3, .bytes 3] := by
  have hread : (system ⟨[1, 2, 3, 4, 5], 5⟩).step ⟨⟨0, []⟩, 0⟩ (.bytes 3) ⟨⟨3, []⟩, 3⟩ := rfl
  have hstop : (system ⟨[1, 2, 3, 4, 5], 5⟩).step ⟨⟨3, []⟩, 3⟩ (.bytes 3) ⟨⟨3, []⟩, 3⟩ := rfl
  have hrun := (System.Run.guard_single (by decide) hread).guard_snoc
    (G := Keeps ⟨[1, 2, 3, 4, 5], 5⟩) (by decide) hstop
  exact (counts_iff (c := [1, 2, 3, 4, 5]) ⟨rfl, rfl, rfl, by norm_num⟩ (by norm_num)
    (by norm_num) _).mpr ⟨le_refl 0, _, hrun⟩

/-- In a buffer of `2 ^ 31 + 1` bytes, `get_bytes` returns the first `2 ^ 31` of them and
leaves the cursor negative, so that the byte that remains cannot be read. -/
theorem counts_false_large :
    ∃ b : Buffer, Buffer.Constructed b ∧ b.size = 2 ^ 31 + 1 ∧
      (Reading.next b ⟨⟨0, []⟩, 0⟩ (.bytes (2 ^ 31))).reader.index = -2 ^ 31 ∧
      outcome b (.int .uint8) ⟨-2 ^ 31, []⟩ = .error (.thrown bufferReaderStop) ∧
      ¬ Counts b 0 [.bytes (2 ^ 31), .int .uint8] := by
  have hlen : (List.replicate (2 ^ 31 + 1) (0 : UInt8)).length = 2 ^ 31 + 1 :=
    List.length_replicate
  obtain ⟨b, hb, hsize⟩ := exists_wrapped hlen (by norm_num)
  have hc := hb.hasContents
  have hlength : b.contents.length = 2 ^ 31 + 1 := hc.size_eq.symm.trans hsize
  exact ⟨b, hb, hsize, not_counts_of_large hc (by omega) (by omega)⟩

end Spec

end BufferReader

end LibraCore
