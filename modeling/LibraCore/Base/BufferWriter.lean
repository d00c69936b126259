import LibraCore.Base.Buffer
import LibraCore.Base.Bytes
import LibraCore.Foundations.Execution

/-!
# `BufferWriter`

The typed writer of `base/buffer_writer.h`: integers go out in network byte
order, a string as its length in 32 bits followed by its bytes.
-/

namespace LibraCore

namespace BufferWriter

def append (t : IntType) (v : t.Val) : BufferM Bool :=
  Buffer.append (toMemory (swapH2N t v))

def set (t : IntType) (v : t.Val) (index : ℕ) : BufferM Bool :=
  Buffer.set (toMemory (swapH2N t v)) index

/-- Undo the length prefix after the bytes of the string were refused. -/
def dropPrefix : BufferM ℕ := fun b =>
  Buffer.remove ((b.size + sizeMod - IntType.uint32.size) % sizeMod) IntType.uint32.size b

def appendString (s : List UInt8) : BufferM Bool := do
  -- `uint32_t size = s.size()`
  let size := s.length % 2 ^ 32
  let stored ← append .uint32 (IntType.uint32.wrap size)
  if !stored then
    pure false
  else
    let stored ← Buffer.append (s.take size)
    if !stored then
      let _ ← dropPrefix
      pure false
    else pure true

/-! ### What an append leaves behind -/

section Spec

variable {b : Buffer} {cap : ℕ} {c : List UInt8}

theorem append_ok (h : b.HasContents cap c) (t : IntType) (v : t.Val)
    (hfit : c.length + t.size ≤ cap) :
    ∃ b', append t v b = .ok true b' ∧ b'.HasContents cap (c ++ Octet.spell (n := t.size) v) := by
  rw [append, toMemory_swapH2N]
  exact h.append_ok (by rw [Octet.length_spell]; exact hfit)

theorem append_full (h : b.HasContents cap c) (t : IntType) (v : t.Val)
    (hfull : cap < c.length + t.size) : ∃ e, append t v b = .error (.thrown e) b := by
  rw [append, toMemory_swapH2N]
  exact h.append_full (by rw [Octet.length_spell]; exact hfull)

theorem set_ok (h : b.HasContents cap c) (t : IntType) (v : t.Val) {index : ℕ}
    (hin : index + t.size ≤ c.length) :
    ∃ b', set t v index b = .ok true b' ∧
      b'.HasContents cap
        (c.take index ++ Octet.spell (n := t.size) v ++ c.drop (index + t.size)) := by
  rw [set, toMemory_swapH2N]
  have hset := h.set_ok (show index + (Octet.spell (n := t.size) v).length ≤ c.length by
    rw [Octet.length_spell]; exact hin)
  rwa [Octet.length_spell] at hset

/-- The bytes of a string of fewer than `2 ^ 32` bytes on the wire. -/
theorem appendString_ok (h : b.HasContents cap c) {s : List UInt8} (hs : s.length < 2 ^ 32)
    (hfit : c.length + 4 + s.length ≤ cap) :
    ∃ b', appendString s b = .ok true b' ∧
      b'.HasContents cap (c ++ Octet.ofNat 4 s.length ++ s) := by
  have hmod : s.length % 2 ^ 32 = s.length := Nat.mod_eq_of_lt hs
  have h4 : IntType.uint32.size = 4 := rfl
  have hspell := IntType.uint32.spell_wrap (v := s.length) (by simpa [IntType.size] using hs)
  obtain ⟨b₁, h₁, hc₁⟩ := append_ok h .uint32 (IntType.uint32.wrap s.length)
    (by omega)
  rw [hspell] at hc₁
  obtain ⟨b₂, h₂, hc₂⟩ := hc₁.append_ok
    (show (c ++ Octet.ofNat 4 s.length).length + s.length ≤ cap by
      rw [List.length_append, Octet.length_ofNat]; omega)
  refine ⟨b₂, ?_, hc₂⟩
  simp only [appendString, hmod, List.take_length]
  rw [Execution.bind_ok h₁]
  simp only [Bool.not_true, Bool.false_eq_true, ↓reduceIte]
  rw [Execution.bind_ok h₂]
  rfl

/-- A string whose prefix does not fit is refused before anything is written. -/
theorem appendString_refused (h : b.HasContents cap c) (s : List UInt8)
    (hfull : cap < c.length + 4) : ∃ e, appendString s b = .error (.thrown e) b := by
  obtain ⟨e, h₁⟩ := append_full h .uint32 (IntType.uint32.wrap (s.length % 2 ^ 32)) hfull
  exact ⟨e, by rw [appendString, Execution.bind_error h₁]⟩

/-- A string whose bytes do not fit behind the prefix is refused after the prefix was written:
the exception passes the call that would take it back. -/
theorem appendString_cut (h : b.HasContents cap c) {s : List UInt8} (hs : s.length < 2 ^ 32)
    (hpre : c.length + 4 ≤ cap) (hfull : cap < c.length + 4 + s.length) :
    ∃ e b', appendString s b = .error (.thrown e) b' ∧
      b'.HasContents cap (c ++ Octet.ofNat 4 s.length) := by
  have hmod : s.length % 2 ^ 32 = s.length := Nat.mod_eq_of_lt hs
  have hspell := IntType.uint32.spell_wrap (v := s.length) (by simpa [IntType.size] using hs)
  obtain ⟨b₁, h₁, hc₁⟩ := append_ok h .uint32 (IntType.uint32.wrap s.length) hpre
  rw [hspell] at hc₁
  obtain ⟨e, h₂⟩ := hc₁.append_full (show cap < (c ++ _).length + s.length by
    rw [List.length_append, Octet.length_ofNat]; exact hfull)
  refine ⟨e, b₁, ?_, hc₁⟩
  simp only [appendString, hmod, List.take_length]
  rw [Execution.bind_ok h₁]
  simp only [Bool.not_true, Bool.false_eq_true, ↓reduceIte]
  rw [Execution.bind_error h₂]

/-- A string that does not fit is refused, possibly after its prefix was written. -/
theorem appendString_full (h : b.HasContents cap c) {s : List UInt8} (hs : s.length < 2 ^ 32)
    (hfull : cap < c.length + 4 + s.length) :
    ∃ e b', appendString s b = .error (.thrown e) b' := by
  by_cases hpre : c.length + 4 ≤ cap
  · obtain ⟨e, b', hrun, -⟩ := appendString_cut h hs hpre hfull
    exact ⟨e, b', hrun⟩
  · obtain ⟨e, hrun⟩ := appendString_refused h s (by omega)
    exact ⟨e, b, hrun⟩

/-- Of a string of `2 ^ 32` bytes or more, only as many are appended as the low 32 bits of its
length say. -/
theorem appendString_take (s : List UInt8) :
    appendString (s.take (s.length % 2 ^ 32)) = appendString s := by
  have hlen : (s.take (s.length % 2 ^ 32)).length = s.length % 2 ^ 32 :=
    List.length_take_of_le (Nat.mod_le _ _)
  simp only [appendString, hlen, Nat.mod_mod, List.take_take, Nat.min_self]

end Spec

end BufferWriter

end LibraCore
