import LibraCore.Base.Buffer
import LibraCore.Foundations.BoundedSeq

/-!
# Buffers as bounded sequences

The three classes that derive from `Buffer` differ only in where their storage comes from.
Every sequence of calls on one of them is the same sequence of operations on the list of its
first `size()` bytes, bounded by `capacity()`.

## Main results

- `Buffer.call_step` — one call is one operation on the contents
- `Buffer.refines_boundedSeq` — the calls on a buffer, in any order and number
-/

namespace LibraCore.Buffer

open BoundedSeq (Op Reply Outcome Step)
open Transition (System)

/-! ### The classes -/

/-- `WrapBuffer(buff, size, capacity)`, where `mem` are the cells that `buff` points at. -/
def wrap (mem : List UInt8) (size capacity : ℕ) : EStateM.Result Fault Buffer Unit :=
  setSize size { data := mem.take capacity, ptr := 0 }

/-- A buffer as one of the constructors leaves it. -/
inductive Constructed : Buffer → Prop
  /-- `DynamicBuffer(uint32_t capacity)`. -/
  | dynamic {capacity : ℕ} : capacity < 2 ^ 32 → Constructed (zeroed capacity)
  /-- `StaticBuffer<ssize_t Capacity>`. -/
  | static {capacity : ℕ} : capacity < 2 ^ 63 → Constructed (zeroed capacity)
  /-- `WrapBuffer(buff, size)`, with `size` as the capacity. -/
  | wrapWhole {mem : List UInt8} {size : ℕ} {b : Buffer} : size < sizeMod → size ≤ mem.length →
      wrap mem size size = .ok () b → Constructed b
  | wrap {mem : List UInt8} {size capacity : ℕ} {b : Buffer} : capacity < sizeMod →
      capacity ≤ mem.length → wrap mem size capacity = .ok () b → Constructed b

theorem hasContents_wrap {mem : List UInt8} {size capacity : ℕ} {b : Buffer}
    (hlt : capacity < sizeMod) (hmem : capacity ≤ mem.length)
    (hok : wrap mem size capacity = .ok () b) : b.HasContents capacity b.contents := by
  have hlen : (mem.take capacity).length = capacity := List.length_take_of_le hmem
  unfold wrap setSize at hok
  split at hok
  · cases hok
  · next hsize =>
    cases hok
    have hle : size ≤ capacity := by
      rw [Buffer.capacity, hlen] at hsize
      omega
    have hcontents : ((mem.take capacity).take size).length = size :=
      List.length_take_of_le (by rw [hlen]; exact hle)
    exact ⟨hlen, hcontents.symm, by rw [contents, hcontents], hlt⟩

theorem Constructed.hasContents {b : Buffer} (h : Constructed b) :
    b.HasContents b.capacity b.contents := by
  have hzeroed {capacity : ℕ} (hlt : capacity < sizeMod) :
      (zeroed capacity).HasContents (zeroed capacity).capacity (zeroed capacity).contents := by
    have hc := hasContents_zeroed hlt
    rw [Buffer.capacity, hc.capacity_eq, hc.contents_eq]
    exact hc
  cases h with
  | dynamic hlt => exact hzeroed (hlt.trans (by norm_num))
  | static hlt => exact hzeroed (hlt.trans (by norm_num))
  | wrapWhole hlt hmem hok =>
    have hc := hasContents_wrap hlt hmem hok
    rw [Buffer.capacity, hc.capacity_eq]
    exact hc
  | wrap hlt hmem hok =>
    have hc := hasContents_wrap hlt hmem hok
    rw [Buffer.capacity, hc.capacity_eq]
    exact hc

/-! ### The calls -/

/-- The member function of an operation. -/
def perform : Op UInt8 → BufferM (Reply UInt8)
  | .append buf => do
    let done ← append buf
    pure (.flag done)
  | .copy buf => do
    let done ← copy buf
    pure (.flag done)
  | .resize size => do
    setSize size
    pure .unit
  | .get len index => fun b =>
    match b.get len index with
    | .ok buf => .ok (.cells buf) b
    | .error f => .error f b
  | .set buf index => do
    let done ← set buf index
    pure (.flag done)
  | .dropFront n => do
    let removed ← remove 0 n
    pure (.count removed)
  | .dropBack n => fun b => (do
    let removed ← remove (b.size - n) n
    pure (.count removed) : BufferM (Reply UInt8)) b

/-- The arguments with which the operation is called on the buffer. -/
def Allowed (b : Buffer) : Op UInt8 → Prop
  | .get len index => index + len < sizeMod
  | .set buf index => index + buf.length < sizeMod
  | .dropFront n => n < sizeMod
  | .dropBack n => n ≤ b.size
  | _ => True

/-- A call whose exception is caught. -/
def call (op : Op UInt8) (b : Buffer) : Outcome UInt8 × Buffer :=
  match perform op b with
  | .ok r b => (.returned r, b)
  | .error (.thrown _) b => (.thrown, b)
  | .error _ b => (.crashed, b)

/-- All sequences of calls on a buffer. -/
def system : System Buffer (Op UInt8 × Outcome UInt8) where
  initial := Constructed
  step b e b' := b.Allowed e.1 ∧ b.call e.1 = (e.2, b')

section Spec

variable {b b' : Buffer} {cap : ℕ} {c : List UInt8} {op : Op UInt8}

theorem call_ok {r : Reply UInt8} (h : perform op b = .ok r b') :
    b.call op = (.returned r, b') := by
  rw [call, h]

theorem call_thrown {e : Exception} (h : perform op b = .error (.thrown e) b') :
    b.call op = (.thrown, b') := by
  rw [call, h]

open Execution (bind_ok bind_error)

/-- One call is one operation on the contents. -/
theorem call_step (h : b.HasContents cap c) (hallowed : b.Allowed op) :
    ∃ c', Step cap c (op, (b.call op).1) c' ∧ (b.call op).2.HasContents cap c' := by
  cases op with
  | append buf =>
    by_cases hfit : c.length + buf.length ≤ cap
    · obtain ⟨b', hrun, hb'⟩ := h.append_ok hfit
      rw [call_ok (bind_ok hrun)]
      exact ⟨_, .append hfit, hb'⟩
    · have hfull : cap < c.length + buf.length := by omega
      obtain ⟨e, hrun⟩ := h.append_full hfull
      rw [call_thrown (bind_error hrun)]
      exact ⟨c, .appendFull hfull, h⟩
  | copy buf =>
    by_cases hfit : buf.length ≤ cap
    · obtain ⟨b', hrun, hb'⟩ := h.copy_ok hfit
      rw [call_ok (bind_ok hrun)]
      exact ⟨_, .copy hfit, hb'⟩
    · have hfull : cap < buf.length := by omega
      obtain ⟨e, hrun⟩ := h.copy_full hfull
      rw [call_thrown (bind_error hrun)]
      exact ⟨c, .copyFull hfull, h⟩
  | resize size =>
    by_cases hfit : size ≤ cap
    · obtain ⟨hrun, hb'⟩ := h.setSize_ok hfit
      rw [call_ok (bind_ok hrun)]
      refine ⟨_, .resize hfit ?_ ?_, hb'⟩
      · exact List.length_take_of_le (h.capacity_eq ▸ hfit)
      · rw [List.take_take, Nat.min_comm, ← List.take_take, h.take_eq]
    · have hfull : cap < size := by omega
      obtain ⟨e, hrun⟩ := h.setSize_full hfull
      rw [call_thrown (bind_error hrun)]
      exact ⟨c, .resizeFull hfull, h⟩
  | get len index =>
    by_cases hin : index + len ≤ c.length
    · have hrun : perform (.get len index) b = .ok (.cells (some ((c.drop index).take len))) b := by
        simp [perform, h.get_ok hin]
      rw [call_ok hrun]
      exact ⟨c, .get hin, h⟩
    · have hrun : perform (.get len index) b = .ok (.cells none) b := by
        simp [perform, h.get_out (by omega) hallowed]
      rw [call_ok hrun]
      exact ⟨c, .getOut (by omega), h⟩
  | set buf index =>
    by_cases hin : index + buf.length ≤ c.length
    · obtain ⟨b', hrun, hb'⟩ := h.set_ok hin
      rw [call_ok (bind_ok hrun)]
      exact ⟨_, .set hin, hb'⟩
    · have hrun := h.set_out (Nat.lt_of_not_le hin) hallowed
      rw [call_ok (bind_ok hrun)]
      exact ⟨c, .setOut (by omega), h⟩
  | dropFront n =>
    by_cases hin : n ≤ c.length
    · obtain ⟨b', hrun, hb'⟩ := h.remove_front hin
      rw [call_ok (bind_ok hrun)]
      refine ⟨c.drop n, ?_, hb'⟩
      have hstep : Step cap c (.dropFront n, .returned (.count (min n c.length))) (c.drop n) :=
        .dropFront
      rwa [Nat.min_eq_left hin] at hstep
    · obtain ⟨b', hrun, hb'⟩ := h.remove_all (by omega) hallowed
      rw [call_ok (bind_ok hrun)]
      refine ⟨c.drop n, ?_, by rwa [List.drop_of_length_le (by omega)]⟩
      have hstep : Step cap c (.dropFront n, .returned (.count (min n c.length))) (c.drop n) :=
        .dropFront
      rwa [Nat.min_eq_right (by omega)] at hstep
  | dropBack n =>
    have hin : n ≤ c.length := h.size_eq ▸ hallowed
    obtain ⟨b', hrun, hb'⟩ := h.remove_back hin
    have hcall : perform (.dropBack n) b = .ok (.count n) b' := by
      rw [← h.size_eq] at hrun
      exact bind_ok hrun
    rw [call_ok hcall]
    exact ⟨_, .dropBack hin, hb'⟩

end Spec

/-- However a buffer was made and whatever calls have been made on it, its contents have gone
through the same operations; it never holds more than its capacity, and the next call stays
within the storage, changes nothing if it throws or returns `false`, and reports as removed
what it removed. -/
theorem refines_boundedSeq {b₀ b : Buffer} {es : List (Op UInt8 × Outcome UInt8)}
    (h₀ : Constructed b₀) (hrun : system.Run b₀ es b) :
    (BoundedSeq.system UInt8 b₀.capacity).Run b₀.contents es b.contents ∧
      b.contents.length = b.size ∧ b.capacity = b₀.capacity ∧ b.size ≤ b.capacity ∧
      b.freeSize = b.capacity - b.size ∧
      ∀ op, b.Allowed op →
        (b.call op).1 ≠ .crashed ∧
        ((b.call op).1.Refused →
          (b.call op).2.size = b.size ∧ (b.call op).2.contents = b.contents) ∧
        ∀ n, (b.call op).1 = .returned (.count n) → (b.call op).2.size + n = b.size := by
  obtain ⟨c, habstract, hc⟩ := hrun.simulate (N := BoundedSeq.system UInt8 b₀.capacity)
    (R := fun b c => b.HasContents b₀.capacity c)
    (by
      rintro b c ⟨op, o⟩ b' hc ⟨hallowed, hcall⟩
      obtain ⟨c', hstep, hc'⟩ := call_step hc hallowed
      rw [hcall] at hstep hc'
      exact ⟨c', hstep, hc'⟩)
    h₀.hasContents
  have hcap : b.capacity = b₀.capacity := hc.capacity_eq
  obtain rfl := hc.contents_eq
  refine ⟨habstract, hc.size_eq.symm, hcap, ?_, ?_, ?_⟩
  · rw [hcap, size, hc.size_eq]
    apply habstract.invariant (P := fun c => c.length ≤ b₀.capacity) ?_ h₀.hasContents.length_le
    intro c e c' hstep
    exact Step.length_le hstep
  · rw [hc.freeSize_eq, hcap, size, hc.size_eq]
  · intro op hallowed
    obtain ⟨c', hstep, hc'⟩ := call_step hc hallowed
    refine ⟨hstep.not_crashed, ?_, ?_⟩
    · intro hrefused
      obtain rfl := hstep.refused hrefused
      exact ⟨hc'.size_eq.trans hc.size_eq.symm, hc'.contents_eq⟩
    · intro n hcount
      rw [size, size, hc'.size_eq, hc.size_eq]
      exact hstep.count hcount

/-- A buffer of four bytes: three are appended, two more do not fit, and the first is removed. -/
theorem refines_boundedSeq_four :
    (BoundedSeq.system UInt8 4).Run []
      [(.append [1, 2, 3], .returned (.flag true)), (.append [4, 5], .thrown),
        (.dropFront 1, .returned (.count 1))] [2, 3] := by
  have hfirst : system.step (zeroed 4) (.append [1, 2, 3], .returned (.flag true))
      ⟨[1, 2, 3, 0], 3⟩ := ⟨trivial, by decide⟩
  have hrefused : system.step ⟨[1, 2, 3, 0], 3⟩ (.append [4, 5], .thrown) ⟨[1, 2, 3, 0], 3⟩ :=
    ⟨trivial, by decide⟩
  have hdrop : system.step ⟨[1, 2, 3, 0], 3⟩ (.dropFront 1, .returned (.count 1))
      ⟨[2, 3, 3, 0], 2⟩ := ⟨show 1 < sizeMod by decide, by decide⟩
  exact (refines_boundedSeq (.static (by norm_num))
    (((System.Run.single hfirst).snoc hrefused).snoc hdrop)).1

end LibraCore.Buffer
