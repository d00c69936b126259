import LibraCore.Foundations.Octet

/-!
# Byte order

The integer types that `base/bytes.h` specialises `SwapH2N` and `SwapN2H` for,
on a little-endian host: an object of such a type is its bit pattern, and its
bytes in memory are the reversed big-endian spelling. `htons` and `htonl`
reverse the bytes, and so do `ntohs` and `ntohl`.
-/

namespace LibraCore

inductive IntType
  | int8 | uint8 | int16 | uint16 | int32 | uint32
  deriving DecidableEq, Repr

namespace IntType

/-- `sizeof(T)`. -/
def size : IntType → ℕ
  | int8 | uint8 => 1
  | int16 | uint16 => 2
  | int32 | uint32 => 4

/-- A value of the type, as its bit pattern. -/
abbrev Val (t : IntType) : Type := BitVec (8 * t.size)

/-- The value an unsigned number is converted to. -/
def wrap (t : IntType) (v : ℕ) : t.Val := BitVec.ofNat (8 * t.size) v

theorem toNat_wrap (t : IntType) {v : ℕ} (hv : v < 256 ^ t.size) : (t.wrap v).toNat = v := by
  rw [wrap, BitVec.toNat_ofNat, Octet.two_pow_eight_mul]
  exact Nat.mod_eq_of_lt hv

theorem spell_wrap (t : IntType) {v : ℕ} (hv : v < 256 ^ t.size) :
    Octet.spell (n := t.size) (t.wrap v) = Octet.ofNat t.size v := by
  rw [Octet.spell, t.toNat_wrap hv]

theorem size_pos (t : IntType) : 0 < t.size := by
  cases t <;> decide

theorem size_le (t : IntType) : t.size ≤ 4 := by
  cases t <;> decide

end IntType

/-- The bytes of an object in the memory of a little-endian host. -/
def toMemory {n : ℕ} (v : BitVec (8 * n)) : List UInt8 := (Octet.spell v).reverse

def ofMemory (n : ℕ) (bytes : List UInt8) : BitVec (8 * n) := Octet.word n bytes.reverse

def htons (v : BitVec 16) : BitVec 16 := Octet.swap (n := 2) v

def htonl (v : BitVec 32) : BitVec 32 := Octet.swap (n := 4) v

def ntohs (v : BitVec 16) : BitVec 16 := Octet.swap (n := 2) v

def ntohl (v : BitVec 32) : BitVec 32 := Octet.swap (n := 4) v

def swapH2N : (t : IntType) → t.Val → t.Val
  | .int8, v => v
  | .uint8, v => v
  | .int32, v => htonl v
  | .uint32, v => htonl v
  | .int16, v => htons v
  | .uint16, v => htons v

def swapN2H : (t : IntType) → t.Val → t.Val
  | .int8, v => v
  | .uint8, v => v
  | .int32, v => ntohl v
  | .uint32, v => ntohl v
  | .int16, v => ntohs v
  | .uint16, v => ntohs v

theorem swapH2N_eq (t : IntType) (v : t.Val) : swapH2N t v = Octet.swap (n := t.size) v := by
  cases t with
  | int8 => exact (Octet.swap_one v).symm
  | uint8 => exact (Octet.swap_one v).symm
  | int16 => rfl
  | uint16 => rfl
  | int32 => rfl
  | uint32 => rfl

theorem swapN2H_eq (t : IntType) (v : t.Val) : swapN2H t v = Octet.swap (n := t.size) v := by
  cases t with
  | int8 => exact (Octet.swap_one v).symm
  | uint8 => exact (Octet.swap_one v).symm
  | int16 => rfl
  | uint16 => rfl
  | int32 => rfl
  | uint32 => rfl

/-- What is put on the wire is the big-endian spelling. -/
theorem toMemory_swapH2N (t : IntType) (v : t.Val) :
    toMemory (swapH2N t v) = Octet.spell (n := t.size) v := by
  rw [toMemory, swapH2N_eq, Octet.spell_swap, List.reverse_reverse]

/-- What is taken from the wire is the word it spells big-endian. -/
theorem swapN2H_ofMemory (t : IntType) {bytes : List UInt8} (hlen : bytes.length = t.size) :
    swapN2H t (ofMemory t.size bytes) = Octet.word t.size bytes := by
  have hspell : Octet.spell (Octet.word t.size bytes.reverse) = bytes.reverse :=
    Octet.spell_word (by rw [List.length_reverse, hlen])
  rw [swapN2H_eq, ofMemory, Octet.swap, hspell, List.reverse_reverse]

end LibraCore
