import LibraCore.Foundations.Execution

/-!
# Exceptions, faults and C++ integers

How a step of the library can fail to return: it throws an object of a class
derived from `Libra::Exception`, or it does something after which nothing more
can be said about the program. `ClassId` is the dynamic class of a thrown
object, which is what a `catch` clause looks at.

`size_t` values are natural numbers with the wrap-around written out where an
operation can exceed 64 bits; `int` values are integers reduced by `toInt32`.
-/

namespace LibraCore

/-- The classes thrown by the library. All of them derive from `Libra::Exception`. -/
inductive ClassId
  | exception
  | bufferReaderStop
  | bufferWriterStop
  | uvLibException
  | notImplementInterface
  | urlParseException
  | responseException
  deriving DecidableEq, Repr

/-- `Libra::Exception`, with the class of the object that was thrown. -/
structure Exception where
  classId : ClassId
  method : String
  message : String
  code : ℤ := -1
  deriving DecidableEq, Repr

/-- Why a step did not return: an exception, an access outside a block of memory,
the use of an object that has been destroyed, or a failed `assert`. -/
inductive Fault
    | thrown (e : Exception)
    | outOfBounds
    | destroyed
    | assertFailed
  deriving DecidableEq, Repr

section Catch

variable {σ : Type}

/-- `try { x } catch (const Libra::Exception& e) { handler }`. -/
def catchException (x : EStateM Fault σ Unit) (handler : Exception → EStateM Fault σ Unit) :
    EStateM Fault σ Unit := fun s =>
  match x s with
  | .error (.thrown e) s => handler e s
  | r => r

variable {x : EStateM Fault σ Unit} {handler : Exception → EStateM Fault σ Unit} {s s' : σ}

theorem catchException_ok (h : x s = .ok () s') : catchException x handler s = .ok () s' := by
  rw [catchException, h]

theorem catchException_thrown {e : Exception} (h : x s = .error (.thrown e) s') :
    catchException x handler s = handler e s' := by
  rw [catchException, h]

/-- What is not an exception is not caught. -/
theorem catchException_fault {f : Fault} (hf : ∀ e, f ≠ .thrown e) (h : x s = .error f s') :
    catchException x handler s = .error f s' := by
  rw [catchException, h]
  cases f with
  | thrown e => exact absurd rfl (hf e)
  | outOfBounds => rfl
  | destroyed => rfl
  | assertFailed => rfl

theorem catchException_destroyed (h : x s = .error .destroyed s') :
    catchException x handler s = .error .destroyed s' :=
  catchException_fault nofun h

open Execution (Keeps) in
theorem Keeps.catchException {I : σ → Prop} {E : Fault → Prop} (hx : Keeps I E x)
    (hhandler : ∀ e, Keeps I E (handler e)) : Keeps I E (catchException x handler) := by
  intro s hs
  have hend := hx s hs
  rw [LibraCore.catchException]
  cases h : x s with
  | ok a t =>
    rw [h] at hend
    exact hend
  | error f t =>
    rw [h] at hend
    cases f with
    | thrown e => exact hhandler e t hend.2
    | outOfBounds => exact hend
    | destroyed => exact hend
    | assertFailed => exact hend

open Execution (Ignores) in
theorem Ignores.catchException {g : σ → σ} (hx : Ignores g x)
    (hhandler : ∀ e, Ignores g (handler e)) : Ignores g (catchException x handler) := by
  intro s
  unfold LibraCore.catchException
  cases h : x s with
  | ok a t => rw [hx.ok h]
  | error f t =>
    rw [hx.error h]
    cases f with
    | thrown e => exact hhandler e t
    | outOfBounds => rfl
    | destroyed => rfl
    | assertFailed => rfl

end Catch

abbrev sizeMod : ℕ := 2 ^ 64

/-- The value of type `int` a wider integer is converted to. -/
def toInt32 (i : ℤ) : ℤ := i.bmod (2 ^ 32)

/-- The value of type `size_t` an `int` is converted to. -/
def toSize (i : ℤ) : ℕ := (i % 2 ^ 64).toNat

/-- What `%d` prints for an argument of type `size_t`: its low 32 bits, signed. -/
def formatD (n : ℕ) : String := toString (toInt32 n)

theorem toInt32_of_lt {n : ℕ} (h : n < 2 ^ 31) : toInt32 n = n := by
  rw [toInt32]
  exact Int.bmod_eq_of_le (by omega) (by omega)

/-- From `2 ^ 31` on a value is converted to a negative `int`. -/
theorem toInt32_of_ge {n : ℕ} (hge : 2 ^ 31 ≤ n) (hlt : n < 2 ^ 32) :
    toInt32 n = (n : ℤ) - 2 ^ 32 := by
  have hsub : toInt32 n = ((n : ℤ) - (2 ^ 32 : ℕ)).bmod (2 ^ 32) := (Int.sub_bmod_right _ _).symm
  rw [hsub]
  exact Int.bmod_eq_of_le (by omega) (by omega)

/-- An `int` comes back from `size_t`, and sums with it come back modulo `2 ^ 32`. -/
theorem toInt32_toSize_add (i n : ℤ) : toInt32 (toSize i + n) = toInt32 (i + n) := by
  simp only [toInt32, toSize, Int.bmod]
  omega

theorem toInt32_add (i n : ℤ) : toInt32 (toInt32 i + n) = toInt32 (i + n) :=
  Int.bmod_add_bmod ..

theorem toInt32_of_int {i : ℤ} (hge : -2 ^ 31 ≤ i) (hlt : i < 2 ^ 31) : toInt32 i = i :=
  Int.bmod_eq_of_le (by omega) (by omega)

theorem toInt32_bounds (i : ℤ) : -2 ^ 31 ≤ toInt32 i ∧ toInt32 i < 2 ^ 31 := by
  simp only [toInt32, Int.bmod]
  omega

/-- A difference of two `size_t` values that does not wrap around. -/
theorem sub_sizeMod {a b : ℕ} (hle : b ≤ a) (hlt : a < sizeMod) :
    (a + sizeMod - b) % sizeMod = a - b := by
  have hsum : a + sizeMod - b = (a - b) + sizeMod := by omega
  rw [hsum, Nat.add_mod_right]
  exact Nat.mod_eq_of_lt (by omega)

theorem toSize_lt (i : ℤ) : toSize i < sizeMod := by
  have hnonneg : 0 ≤ i % 2 ^ 64 := Int.emod_nonneg i (by norm_num)
  have hlt : i % 2 ^ 64 < 2 ^ 64 := Int.emod_lt_of_pos i (by norm_num)
  rw [toSize, sizeMod]
  omega

theorem toSize_of_lt {n : ℕ} (h : n < sizeMod) : toSize n = n := by
  rw [toSize]
  have h' : n < 2 ^ 64 := h
  omega

end LibraCore
