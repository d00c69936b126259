import LibraCore.Base.Buffer
import LibraCore.Foundations.Execution
import LibraCore.Foundations.Transition

/-!
# Assigning one buffer to another

A buffer object holds a pointer `data_` to its storage. For the assignment `left = right` of
two objects of one class the implicit assignments of the derived classes run around
`IBuffer::operator=`: that one copies the bytes, and then the members are assigned one by one.

## Main results

- `Buffers.copyBytes_independent` — the copy of `IBuffer::operator=` is independent
- `Buffers.assign_independent_iff` — the assignment is not, unless it throws
- `Buffers.assign_shares` — a byte written to one buffer is then read from the other
-/

namespace LibraCore

open Execution (Place final)
open Transition (System)

/-- The class of the two objects; `buffer_` of a `Packet` is a `StaticBuffer<0x10000>`. -/
inductive BufferClass
  | dynamic
  | static (capacity : ℕ)
  deriving DecidableEq, Repr

/-- The two objects, which also name the storage that each was built with. -/
inductive Side
  | left | right
  deriving DecidableEq, Repr

/-- The members of a buffer object: `data_`, `ptr_` and what `capacity()` returns. -/
@[ext]
structure BufferObject where
  data : Side
  ptr : ℕ
  capacity : ℕ
  deriving DecidableEq, Repr

/-- Two buffer objects and the storage that each of them was built with: the array of
`new char[capacity]`, or the member `buf_`. -/
@[ext]
structure Buffers where
  object : Side → BufferObject
  storage : Side → List UInt8

namespace Buffers

abbrev M := EStateM Fault Buffers

/-- A buffer object as its member functions see it. -/
def view (x : Side) (p : Buffers) : Buffer where
  data := (p.storage (p.object x).data).take (p.object x).capacity
  ptr := (p.object x).ptr

/-- What a member function leaves behind, in the cells that `data_` points at. -/
def store (x : Side) (b : Buffer) (p : Buffers) : Buffers where
  object := Function.update p.object x { p.object x with ptr := b.ptr }
  storage := Function.update p.storage (p.object x).data
    (b.data ++ (p.storage (p.object x).data).drop (p.object x).capacity)

def place (x : Side) : Place Buffers Buffer where
  get := view x
  put := store x

/-- `IBuffer::operator=`, for two objects that are not the same. -/
def copyBytes : M Unit := fun p =>
  (do
    let _ ← (place .left).run (Buffer.copy (p.view .right).contents)
    pure () : M Unit) p

/-- The members of `Buffer`. -/
def assignBuffer : M Unit := do
  copyBytes
  modify fun p => { p with
    object := Function.update p.object .left { p.object .left with
      data := (p.object .right).data
      ptr := (p.object .right).ptr } }

/-- The implicit assignment of the class: `Buffer`'s, and then the members of its own. -/
def assign : BufferClass → M Unit
  | .dynamic => do
    assignBuffer
    modify fun p => { p with
      object := Function.update p.object .left { p.object .left with
        capacity := (p.object .right).capacity } }
  | .static _ => do
    assignBuffer
    modify fun p => { p with
      storage := Function.update p.storage .left (p.storage .right) }

/-! ### Later calls -/

/-- A call that changes a buffer. -/
inductive Call
  | append (buf : List UInt8)
  | remove (start len : ℕ)
  | set (buf : List UInt8) (index : ℕ)
  | setSize (size : ℕ)
  | copy (buf : List UInt8)
  deriving DecidableEq, Repr

def Call.perform : Call → BufferM Unit
  | .append buf => do let _ ← Buffer.append buf
  | .remove start len => do let _ ← Buffer.remove start len
  | .set buf index => do let _ ← Buffer.set buf index
  | .setSize size => Buffer.setSize size
  | .copy buf => do let _ ← Buffer.copy buf

/-- A call on one of the buffers, whether it returns or throws. -/
def after (x : Side) (call : Call) (p : Buffers) : Buffers := final ((place x).run call.perform p)

/-- All sequences of calls on the two buffers. -/
def system : System Buffers (Side × Call) where
  initial _ := True
  step p e p' := p.after e.1 e.2 = p'

/-- Every buffer's `data_` names its own storage. -/
def Own (p : Buffers) : Prop := ∀ x, (p.object x).data = x

/-- No call on one buffer changes the contents of the other. -/
def Independent (p : Buffers) : Prop :=
  ∀ x y call, x ≠ y → ((p.after x call).view y).contents = (p.view y).contents

/-- An assignment `left = right` that throws if the capacity is too small, with nothing changed,
and otherwise makes a copy that stays independent whatever is called later. -/
structure Copies (assignment : M Unit) (p : Buffers) : Prop where
  refuses : (p.object .left).capacity < (p.view .right).size →
    ∃ e, assignment p = .error (.thrown e) p
  copies : (p.view .right).size ≤ (p.object .left).capacity →
    ∃ p', assignment p = .ok () p' ∧ (p'.view .left).contents = (p.view .right).contents ∧
      (p'.view .right).contents = (p.view .right).contents ∧
      ∀ es q, system.Run p' es q → q.Own ∧ q.Independent

/-- Two objects of the class as their constructors and calls leave them. -/
structure Constructed (k : BufferClass) (p : Buffers) : Prop where
  own : p.Own
  capacity_eq : ∀ x, (p.storage x).length = (p.object x).capacity
  capacity_lt : ∀ x, (p.object x).capacity < sizeMod
  ptr_le : ∀ x, (p.object x).ptr ≤ (p.object x).capacity
  static : ∀ n, k = .static n → ∀ x, (p.object x).capacity = n

section Spec

variable {p : Buffers} {k : BufferClass}

/-! ### A buffer with its own storage -/

theorem after_eq (x : Side) (call : Call) (p : Buffers) :
    p.after x call = p.store x (final (call.perform (p.view x))) := by
  rw [after]
  cases hcall : call.perform (p.view x) with
  | ok u b => rw [Place.run_ok (p := place x) hcall]; rfl
  | error f b => rw [Place.run_error (p := place x) hcall]; rfl

theorem store_view (x : Side) (p : Buffers) : p.store x (p.view x) = p := by
  ext1
  · exact Function.update_eq_self x p.object
  · rw [store, view, List.take_append_drop]
    exact Function.update_eq_self _ p.storage

theorem Own.store (h : p.Own) (x : Side) (b : Buffer) : (p.store x b).Own := by
  intro y
  by_cases hyx : y = x
  · subst hyx
    simp only [Buffers.store, Function.update_self]
    exact h y
  · simp only [Buffers.store, Function.update_of_ne hyx]
    exact h y

/-- What happens to a buffer with its own storage is not seen by the other. -/
theorem Own.view_store (h : p.Own) {x y : Side} (hxy : x ≠ y) (b : Buffer) :
    (p.store x b).view y = p.view y := by
  have hstorage : (p.object y).data ≠ (p.object x).data := by
    rw [h x, h y]
    exact hxy.symm
  simp only [view, Buffers.store, Function.update_of_ne hxy.symm, Function.update_of_ne hstorage]

theorem Own.independent (h : p.Own) : p.Independent := by
  intro x y call hxy
  rw [after_eq, h.view_store hxy]

/-- Buffers with their own storage keep it, and stay independent. -/
theorem Own.run (h : p.Own) {es : List (Side × Call)} {q : Buffers} (hrun : system.Run p es q) :
    q.Own ∧ q.Independent := by
  have hown : q.Own := by
    apply hrun.invariant _ h
    rintro p ⟨x, call⟩ q rfl hp
    rw [after_eq]
    exact hp.store x _
  exact ⟨hown, hown.independent⟩

/-! ### The copy of the bytes -/

theorem Constructed.hasContents (h : Constructed k p) (x : Side) :
    (p.view x).HasContents (p.object x).capacity (p.view x).contents := by
  have hdata : (p.view x).data.length = (p.object x).capacity := by
    rw [view, h.own x, List.length_take, h.capacity_eq x, Nat.min_self]
  have hlen : (p.view x).contents.length = (p.view x).ptr := by
    rw [Buffer.contents, List.length_take, hdata]
    exact Nat.min_eq_left (h.ptr_le x)
  exact ⟨hdata, hlen.symm, by rw [hlen]; rfl, h.capacity_lt x⟩

/-- The copy throws if the bytes do not fit, and changes nothing. -/
theorem copyBytes_refuses (h : Constructed k p)
    (hfull : (p.object .left).capacity < (p.view .right).size) :
    ∃ e, copyBytes p = .error (.thrown e) p := by
  have hsize : (p.view .right).contents.length = (p.view .right).size :=
    (h.hasContents .right).size_eq.symm
  obtain ⟨e, hcopy⟩ := (h.hasContents .left).copy_full (hsize ▸ hfull)
  have hrun := Place.run_error (p := place .left) (w := p) hcopy
  refine ⟨e, (Execution.bind_error hrun).trans ?_⟩
  rw [show (place .left).put (p.view .left) p = p from store_view .left p]

/-- Otherwise it replaces the bytes of one buffer by those of the other. -/
theorem copyBytes_ok (h : Constructed k p)
    (hfit : (p.view .right).size ≤ (p.object .left).capacity) :
    ∃ b, copyBytes p = .ok () (p.store .left b) ∧
      b.HasContents (p.object .left).capacity (p.view .right).contents := by
  have hsize : (p.view .right).contents.length = (p.view .right).size :=
    (h.hasContents .right).size_eq.symm
  obtain ⟨b, hcopy, hb⟩ := (h.hasContents .left).copy_ok (hsize ▸ hfit)
  exact ⟨b, Execution.bind_ok (Place.run_ok (p := place .left) (w := p) hcopy), hb⟩

theorem view_store_self {x : Side} {b : Buffer} (hb : b.data.length = (p.object x).capacity) :
    (p.store x b).view x = b := by
  simp only [view, store, Function.update_self]
  rw [List.take_left' hb]

/-- What `IBuffer::operator=` does on its own is an independent copy. -/
theorem copyBytes_independent (h : Constructed k p) : Copies copyBytes p := by
  refine ⟨copyBytes_refuses h, fun hfit => ?_⟩
  obtain ⟨b, hrun, hb⟩ := copyBytes_ok h hfit
  refine ⟨p.store .left b, hrun, ?_, ?_, ?_⟩
  · rw [view_store_self hb.capacity_eq, hb.contents_eq]
  · rw [h.own.view_store (by decide)]
  · intro es q hlater
    exact (h.own.store .left b).run hlater

/-! ### The assignment -/

/-- After the assignment the members of one buffer are those of the other, its pointer to its
storage among them. -/
theorem assign_ok (h : Constructed k p)
    (hfit : (p.view .right).size ≤ (p.object .left).capacity) :
    ∃ p', assign k p = .ok () p' ∧ p'.object .left = p.object .right ∧
      p'.object .right = p.object .right ∧ p'.storage .right = p.storage .right := by
  obtain ⟨b, hrun, -⟩ := copyBytes_ok h hfit
  have hstorage : (p.store .left b).storage .right = p.storage .right := by
    simp only [store, h.own .left]
    rfl
  cases k with
  | dynamic =>
    exact ⟨_, Execution.bind_ok (Execution.bind_ok hrun), rfl, rfl, hstorage⟩
  | static n =>
    have hcapacity : (p.object .left).capacity = (p.object .right).capacity := by
      rw [h.static n rfl .left, h.static n rfl .right]
    refine ⟨_, Execution.bind_ok (Execution.bind_ok hrun), ?_, rfl, hstorage⟩
    apply BufferObject.ext
    · rfl
    · rfl
    · exact hcapacity

/-- The assignment throws without a change, or makes an independent copy, exactly if the
bytes of the right buffer do not fit in the left one. -/
theorem assign_independent_iff (h : Constructed k p) :
    Copies (assign k) p ↔ (p.object .left).capacity < (p.view .right).size := by
  constructor
  · intro hcopies
    by_contra hfit
    obtain ⟨p', hrun, hleft, -, -⟩ := assign_ok h (Nat.le_of_not_lt hfit)
    obtain ⟨q, hrun', -, -, hlater⟩ := hcopies.copies (Nat.le_of_not_lt hfit)
    rw [hrun] at hrun'
    cases hrun'
    -- `data_` of the left buffer names the storage of the right one
    have hown := (hlater [] p' (System.Run.nil p')).1 .left
    rw [hleft, h.own .right] at hown
    cases hown
  · intro hfull
    refine ⟨fun _ => ?_, fun hfit => absurd hfull (Nat.not_lt.mpr hfit)⟩
    obtain ⟨e, hrun⟩ := copyBytes_refuses h hfull
    cases k with
    | dynamic => exact ⟨e, Execution.bind_error (Execution.bind_error hrun)⟩
    | static n => exact ⟨e, Execution.bind_error (Execution.bind_error hrun)⟩

/-- A byte that is written to the left buffer after the assignment is read from the right. -/
theorem assign_shares (h : Constructed k p)
    (hfit : (p.view .right).size ≤ (p.object .left).capacity) {i : ℕ}
    (hi : i < (p.view .right).size) (v : UInt8) :
    ∃ p', assign k p = .ok () p' ∧
      ((p'.after .left (.set [v] i)).view .right).contents[i]? = some v := by
  obtain ⟨p', hrun, hleft, hright, hstorage⟩ := assign_ok h hfit
  refine ⟨p', hrun, ?_⟩
  have hview : p'.view .left = p.view .right := by
    simp only [view, hleft, h.own .right, hstorage]
  have hlen : (p.view .right).contents.length = (p.view .right).size :=
    (h.hasContents .right).size_eq.symm
  obtain ⟨b, hset, hb⟩ := (h.hasContents .right).set_ok
    (show i + [v].length ≤ (p.view .right).contents.length by rw [hlen]; exact hi)
  have hafter : p'.after .left (.set [v] i) = p'.store .left b := by
    rw [after_eq, hview, Call.perform, Execution.bind_ok hset]
    rfl
  have hshared : (p'.store .left b).view .right = b := by
    have hptr : b.ptr = (p.object .right).ptr := by
      rw [hb.size_eq, List.length_append, List.length_append, List.length_take, List.length_drop,
        hlen]
      have hsize : (p.view .right).size = (p.object .right).ptr := rfl
      simp only [List.length_singleton]
      omega
    have hne : Side.right ≠ Side.left := by decide
    have hobject : (p'.store .left b).object .right = p.object .right := by
      simp only [store, Function.update_of_ne hne, hright]
    have hcells : (p'.store .left b).storage .right =
        b.data ++ (p'.storage .right).drop (p.object .right).capacity := by
      simp only [store, hleft, h.own .right, Function.update_self]
    rw [view, hobject, h.own .right, hcells, List.take_left' hb.capacity_eq, ← hptr]
  have hfront : ((p.view .right).contents.take i).length = i :=
    List.length_take_of_le (by omega)
  rw [hafter, hshared, hb.contents_eq, List.append_assoc,
    List.getElem?_append_right (by omega), hfront, Nat.sub_self]
  rfl

/-- A `DynamicBuffer` of one byte, and one that holds two. -/
def oneAndTwo : Buffers where
  object
    | .left => ⟨.left, 0, 1⟩
    | .right => ⟨.right, 2, 2⟩
  storage
    | .left => [0]
    | .right => [1, 2]

theorem constructed_oneAndTwo : Constructed .dynamic oneAndTwo where
  own := by rintro (_ | _) <;> rfl
  capacity_eq := by rintro (_ | _) <;> rfl
  capacity_lt := by rintro (_ | _) <;> norm_num [oneAndTwo]
  ptr_le := by rintro (_ | _) <;> decide
  static := nofun

/-- Two bytes are not assigned to a buffer of one byte. -/
theorem assign_independent_iff_full : Copies (assign .dynamic) oneAndTwo :=
  (assign_independent_iff constructed_oneAndTwo).mpr (by decide)

/-- Two buffers of four bytes, the right of which holds two. -/
def emptyAndTwo : Buffers where
  object
    | .left => ⟨.left, 0, 4⟩
    | .right => ⟨.right, 2, 4⟩
  storage
    | .left => [0, 0, 0, 0]
    | .right => [1, 2, 0, 0]

/-- After the assignment of two `StaticBuffer<4>`, a byte that is set in the left one is set in
the right one. -/
theorem assign_not_independent :
    Constructed (.static 4) emptyAndTwo ∧
      (((final (assign (.static 4) emptyAndTwo)).after .left (.set [9] 0)).view .right).contents =
        [9, 2] ∧
      ¬ Copies (assign (.static 4)) emptyAndTwo ∧ ¬ Copies (assign .dynamic) emptyAndTwo := by
  refine ⟨?_, by decide, fun hcopies => ?_, fun hcopies => ?_⟩
  · refine ⟨by rintro (_ | _) <;> rfl, by rintro (_ | _) <;> rfl, ?_, ?_, ?_⟩
    · rintro (_ | _) <;> norm_num [emptyAndTwo]
    · rintro (_ | _) <;> decide
    · rintro n hn (_ | _) <;> exact (BufferClass.static.inj hn)
  · obtain ⟨p', hrun, -, -, hlater⟩ := hcopies.copies (by decide)
    obtain rfl : final (assign (.static 4) emptyAndTwo) = p' := congrArg final hrun
    have hsame := (hlater [] _ (System.Run.nil _)).2 .left .right (.set [9] 0) (by decide)
    exact absurd hsame (by decide)
  · obtain ⟨p', hrun, -, -, hlater⟩ := hcopies.copies (by decide)
    obtain rfl : final (assign .dynamic emptyAndTwo) = p' := congrArg final hrun
    have hsame := (hlater [] _ (System.Run.nil _)).2 .left .right (.set [9] 0) (by decide)
    exact absurd hsame (by decide)

end Spec

end Buffers

end LibraCore
