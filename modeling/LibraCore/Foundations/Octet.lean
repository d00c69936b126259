import Mathlib.Tactic

/-!
# Big-endian octet strings

`Octet.ofNat n v` is the `n`-octet big-endian spelling of `v` and `Octet.toNat`
reads such a spelling back. The two are mutually inverse on `n` octets, so that
an octet string of a fixed length and a number below `256 ^ n` are the same
thing. `Octet.word` and `Octet.spell` are the same pair at the type
`BitVec (8 * n)`, and `Octet.swap` reverses the octets of such a word.
-/

namespace Octet

/-- The `n` octets of `v`, most significant first. -/
def ofNat : ℕ → ℕ → List UInt8
  | 0, _ => []
  | n + 1, v => UInt8.ofNat (v / 256 ^ n) :: ofNat n v

/-- The number an octet string spells, most significant octet first. -/
def toNat (octets : List UInt8) : ℕ :=
  octets.foldl (fun acc b => acc * 256 + b.toNat) 0

@[simp] theorem length_ofNat (n v : ℕ) : (ofNat n v).length = n := by
  induction n with
  | zero => rfl
  | succ n ih => simp [ofNat, ih]

private theorem foldl_shift (octets : List UInt8) (acc : ℕ) :
    octets.foldl (fun acc b => acc * 256 + b.toNat) acc =
      acc * 256 ^ octets.length + toNat octets := by
  induction octets generalizing acc with
  | nil => simp [toNat]
  | cons b bs ih =>
    simp only [List.foldl_cons, List.length_cons, toNat]
    rw [ih, ih (0 * 256 + b.toNat)]
    ring

theorem toNat_cons (b : UInt8) (bs : List UInt8) :
    toNat (b :: bs) = b.toNat * 256 ^ bs.length + toNat bs := by
  simp only [toNat, List.foldl_cons]
  rw [foldl_shift]
  simp [toNat]

@[simp] theorem toNat_nil : toNat [] = 0 := rfl

theorem toNat_lt (octets : List UInt8) : toNat octets < 256 ^ octets.length := by
  induction octets with
  | nil => simp
  | cons b bs ih =>
    rw [toNat_cons, List.length_cons, pow_succ]
    have hb : b.toNat ≤ 255 := Nat.le_of_lt_succ (UInt8.toNat_lt b)
    calc b.toNat * 256 ^ bs.length + toNat bs
        < b.toNat * 256 ^ bs.length + 256 ^ bs.length := by omega
      _ = (b.toNat + 1) * 256 ^ bs.length := by ring
      _ ≤ 256 * 256 ^ bs.length := Nat.mul_le_mul_right _ (by omega)
      _ = 256 ^ bs.length * 256 := by ring

/-- Reading a spelling back gives the number modulo the width. -/
theorem toNat_ofNat (n v : ℕ) : toNat (ofNat n v) = v % 256 ^ n := by
  induction n with
  | zero => simp [ofNat, Nat.mod_one]
  | succ n ih =>
    rw [ofNat, toNat_cons, ih, length_ofNat, UInt8.toNat_ofNat']
    have hsplit : v % 256 ^ (n + 1) = v % 256 ^ n + 256 ^ n * (v / 256 ^ n % 256) := by
      rw [pow_succ, Nat.mod_mul]
    have hpow : (2 : ℕ) ^ 8 = 256 := by norm_num
    rw [hsplit, hpow, Nat.mul_comm, Nat.add_comm]

theorem ofNat_mod (n k v : ℕ) (hk : n ≤ k) : ofNat n (v % 256 ^ k) = ofNat n v := by
  induction n with
  | zero => rfl
  | succ n ih =>
    rw [ofNat, ofNat, ih (by omega)]
    congr 1
    apply UInt8.toNat_inj.mp
    rw [UInt8.toNat_ofNat', UInt8.toNat_ofNat']
    obtain ⟨d, rfl⟩ : ∃ d, k = n + 1 + d := ⟨k - (n + 1), by omega⟩
    have hpow : (256 : ℕ) ^ (n + 1 + d) = 256 ^ n * (256 * 256 ^ d) := by ring
    rw [hpow, Nat.mod_mul_right_div_self]
    exact Nat.mod_mul_right_mod (v / 256 ^ n) 256 (256 ^ d)

theorem ofNat_toNat (octets : List UInt8) : ofNat octets.length (toNat octets) = octets := by
  induction octets with
  | nil => rfl
  | cons b bs ih =>
    have hlt := toNat_lt bs
    rw [List.length_cons, ofNat, toNat_cons]
    congr 1
    · rw [Nat.mul_comm, Nat.mul_add_div (by positivity), Nat.div_eq_of_lt hlt, Nat.add_zero]
      exact UInt8.toNat_inj.mp (by rw [UInt8.toNat_ofNat']; exact Nat.mod_eq_of_lt (UInt8.toNat_lt b))
    · rw [← ofNat_mod bs.length bs.length _ le_rfl, Nat.mul_add_mod_self_right,
        Nat.mod_eq_of_lt hlt, ih]

/-- The word an octet string spells, most significant octet first. -/
def word (n : ℕ) (octets : List UInt8) : BitVec (8 * n) := BitVec.ofNat (8 * n) (toNat octets)

/-- The octets of a word, most significant first. -/
def spell {n : ℕ} (w : BitVec (8 * n)) : List UInt8 := ofNat n w.toNat

@[simp] theorem length_spell {n : ℕ} (w : BitVec (8 * n)) : (spell w).length = n :=
  length_ofNat n _

theorem two_pow_eight_mul (n : ℕ) : 2 ^ (8 * n) = 256 ^ n := by
  rw [pow_mul]
  norm_num

theorem toNat_spell {n : ℕ} (w : BitVec (8 * n)) : toNat (spell w) = w.toNat := by
  rw [spell, toNat_ofNat, ← two_pow_eight_mul]
  exact Nat.mod_eq_of_lt w.isLt

@[simp] theorem word_spell {n : ℕ} (w : BitVec (8 * n)) : word n (spell w) = w := by
  rw [word, toNat_spell, BitVec.ofNat_toNat, BitVec.setWidth_eq]

theorem spell_word {n : ℕ} {octets : List UInt8} (hlen : octets.length = n) :
    spell (word n octets) = octets := by
  subst hlen
  have hlt := toNat_lt octets
  rw [spell, word, BitVec.toNat_ofNat, two_pow_eight_mul, Nat.mod_eq_of_lt hlt, ofNat_toNat]

/-- A word is the number its octets spell. -/
theorem toNat_word {n : ℕ} {octets : List UInt8} (hlen : octets.length = n) :
    (word n octets).toNat = toNat octets := by
  rw [← toNat_spell, spell_word hlen]

/-- Reverse the octets of a word. -/
def swap {n : ℕ} (w : BitVec (8 * n)) : BitVec (8 * n) := word n (spell w).reverse

theorem spell_swap {n : ℕ} (w : BitVec (8 * n)) : spell (swap w) = (spell w).reverse :=
  spell_word (by simp)

theorem swap_one (w : BitVec (8 * 1)) : swap w = w := by
  obtain ⟨b, hb⟩ := List.length_eq_one_iff.mp (length_spell w)
  have hrev : (spell w).reverse = spell w := by rw [hb]; rfl
  rw [swap, hrev, word_spell]

end Octet
