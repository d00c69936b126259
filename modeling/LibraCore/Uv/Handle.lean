import Mathlib.Tactic

/-!
# Handles and their stored callbacks

`Handle<T>` of `uv/handle.h` keeps a table `callbacks` with one place for each kind
of event. libuv is given a function without state, which looks the callback up
when the event arrives; whatever was stored last is what runs.
-/

namespace LibraCore

/-- `uv_callback_id`. -/
inductive CallbackId
  | close | listen | readStart | write | shutdown | connect | timerStart
  deriving DecidableEq, Repr

/-- `callbacks`: the table `lut_`, for callbacks of type `K`. -/
structure Callbacks (K : Type) where
  lut : CallbackId → Option K

namespace Callbacks

variable {K : Type}

def empty : Callbacks K := ⟨fun _ => none⟩

def store (c : Callbacks K) (cid : CallbackId) (callback : K) : Callbacks K :=
  ⟨Function.update c.lut cid (some callback)⟩

/-- The callback that `invoke` runs; `none` is the failed `assert(x)`. -/
def invoke (c : Callbacks K) (cid : CallbackId) : Option K := c.lut cid

@[simp]
theorem invoke_store_self (c : Callbacks K) (cid : CallbackId) (k : K) :
    (c.store cid k).invoke cid = some k := by
  simp [invoke, store]

@[simp]
theorem invoke_store_of_ne (c : Callbacks K) {cid cid' : CallbackId} (h : cid' ≠ cid) (k : K) :
    (c.store cid k).invoke cid' = c.invoke cid' := by
  simp [invoke, store, h]

end Callbacks

end LibraCore
