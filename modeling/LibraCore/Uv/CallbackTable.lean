import LibraCore.Base.Exception
import LibraCore.Foundations.SlotTable
import LibraCore.Uv.Stream
import Mathlib.Data.List.ReduceOption

/-!
# The table of callback objects

`callbacks` of `uv/callback.h` as the vector it is: a cell for each index, empty or
with the one owner of a `callback_object`. The object remembers the type it was made
for; `invoke` casts to the type its caller names, and asserts that the cast succeeds.

The type of a call is the type of its arguments, so `invoke` takes these.
-/

namespace LibraCore

/-- The types `callback_t` that callbacks are stored under. -/
inductive FunctionType
  /-- `std::function<void()>` -/
  | nullary
  /-- `std::function<void(const UVError&)>` -/
  | status
  /-- `std::function<void(const char*, ssize_t)>` -/
  | buffer
  /-- `std::function<void(int)>` -/
  | signum
  /-- `std::function<void(int, void*)>` -/
  | overCallback
  /-- the type of the work given to `pool::run` -/
  | workCallback
  deriving DecidableEq, Repr

/-- The arguments a callback is invoked with. -/
inductive Arguments
  | nullary
  | status (error : ℤ)
  | buffer (buf : Option (List UInt8)) (len : ℤ)
  | signum (n : ℤ)
  | overCallback (error : ℤ) (result : Option ℕ)
  | workCallback
  deriving DecidableEq, Repr

/-- The `callback_t` that takes these arguments. -/
def Arguments.type : Arguments → FunctionType
  | nullary => .nullary
  | status _ => .status
  | buffer _ _ => .buffer
  | signum _ => .signum
  | overCallback _ _ => .overCallback
  | workCallback => .workCallback

/-- `callback_object<callback_t>`. `data` is the pointer kept with the callback, and
`address` tells the objects apart: it counts the allocations. -/
structure CallbackObject (K : Type) where
  type : FunctionType
  callback : K
  data : Option ℕ
  address : ℕ
  deriving DecidableEq, Repr

/-- `callbacks`. -/
structure CallbackTable (K : Type) where
  lut : List (Option (CallbackObject K))
  deriving DecidableEq, Repr

namespace CallbackTable

variable {K : Type}

def new (maxCallbacks : ℕ) : CallbackTable K := ⟨List.replicate maxCallbacks none⟩

/-- The object in the cell `cid`. -/
def cell (t : CallbackTable K) (cid : ℤ) : Option (CallbackObject K) := t.lut[toSize cid]?.join

def store (t : CallbackTable K) (cid : ℤ) (x : CallbackObject K) : Except Fault (CallbackTable K) :=
  if toSize cid < t.lut.length then .ok ⟨t.lut.set (toSize cid) (some x)⟩
  else .error .outOfBounds

/-- The object whose callback `invoke` runs, for the arguments it is given. -/
def invoke (t : CallbackTable K) (cid : ℤ) (args : Arguments) : Except Fault (CallbackObject K) :=
  match t.lut[toSize cid]? with
  | none => .error .outOfBounds
  | some none => .error .assertFailed
  | some (some x) => if x.type = args.type then .ok x else .error .assertFailed

/-- The object that `lut_[cid]->` goes to. -/
def object (t : CallbackTable K) (cid : ℤ) : Except Fault (CallbackObject K) :=
  match t.lut[toSize cid]? with
  | none => .error .outOfBounds
  | some none => .error .destroyed
  | some (some x) => .ok x

def getData (t : CallbackTable K) (cid : ℤ) : Except Fault (Option ℕ) := do
  let x ← t.object cid
  return x.data

def setData (t : CallbackTable K) (cid : ℤ) (data : Option ℕ) : Except Fault (CallbackTable K) := do
  let x ← t.object cid
  return ⟨t.lut.set (toSize cid) (some { x with data := data })⟩

/-- Every object in the table. -/
def objects (t : CallbackTable K) : List (CallbackObject K) := t.lut.reduceOption

@[simp]
theorem length_lut_new (maxCallbacks : ℕ) :
    (new maxCallbacks : CallbackTable K).lut.length = maxCallbacks :=
  List.length_replicate

theorem store_ok {t : CallbackTable K} {cid : ℤ} (h : toSize cid < t.lut.length)
    (x : CallbackObject K) : t.store cid x = .ok ⟨t.lut.set (toSize cid) (some x)⟩ :=
  if_pos h

/-- A table is invoked without a fault exactly where the index is in range and an object of
the expected type is stored. -/
theorem invoke_eq_ok {t : CallbackTable K} {cid : ℤ} {args : Arguments} {x : CallbackObject K} :
    t.invoke cid args = .ok x ↔ t.lut[toSize cid]? = some (some x) ∧ x.type = args.type := by
  rw [invoke]
  split
  · next h => simp [h]
  · next h => simp [h]
  · next y h =>
    rw [h]
    constructor
    · intro hok
      split at hok
      · next htype =>
        obtain rfl := Except.ok.inj hok
        exact ⟨rfl, htype⟩
      · cases hok
    · rintro ⟨heq, htype⟩
      obtain rfl := Option.some.inj (Option.some.inj heq)
      rw [if_pos htype]

end CallbackTable

end LibraCore
