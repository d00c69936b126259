import LibraCore.Base.BufferBounds
import LibraCore.Net.Packet

/-!
# Strings on the wire

A string is appended as a prefix of 32 bits and its bytes, and read by its prefix. Each of
the two steps can be refused on its own, and the length of the string is a `size_t`.

## Main results

- `BufferWriter.failsClean_iff` — when an append that fails leaves the buffer alone
- `BufferWriter.storesString_iff` — when an append that succeeds has stored the string
- `BufferReader.checksPrefix_iff` — when a prefix is checked before memory is asked for
-/

namespace LibraCore

open Execution (final)

namespace BufferWriter

/-- A member function that returns `true`, or leaves the size and the contents as they were. -/
def FailsClean (append : BufferM Bool) (b : Buffer) : Prop :=
  append b = .ok true (final (append b)) ∨
    (final (append b)).size = b.size ∧ (final (append b)).contents = b.contents

/-- If the string is appended, the buffer has grown by its prefix and its bytes, and a reader
at the old end, which is an `int`, returns it. -/
def StoresString (s : List UInt8) (b : Buffer) : Prop :=
  ∀ b', appendString s b = .ok true b' →
    b'.size = b.size + 4 + s.length ∧ b.size < 2 ^ 31 ∧
      ∃ r, BufferReader.getString b' ⟨b.size, []⟩ = .ok s r

section Spec

variable {b : Buffer} {cap : ℕ} {c : List UInt8}

/-- A string of any length, with the bytes that the low 32 bits of its length leave of it. -/
private theorem length_low (s : List UInt8) :
    (s.take (s.length % 2 ^ 32)).length = s.length % 2 ^ 32 ∧ s.length % 2 ^ 32 < 2 ^ 32 :=
  ⟨List.length_take_of_le (Nat.mod_le _ _), Nat.mod_lt _ (by norm_num)⟩

/-- The three ways an append of a string goes. -/
theorem appendString_cases (h : b.HasContents cap c) (s : List UInt8) :
    (cap < c.length + 4 ∧ ∃ e, appendString s b = .error (.thrown e) b) ∨
    (c.length + 4 ≤ cap ∧ cap < c.length + 4 + s.length % 2 ^ 32 ∧
      ∃ e b', appendString s b = .error (.thrown e) b' ∧
        b'.HasContents cap (c ++ Octet.ofNat 4 (s.length % 2 ^ 32))) ∨
    (c.length + 4 + s.length % 2 ^ 32 ≤ cap ∧
      ∃ b', appendString s b = .ok true b' ∧ b'.HasContents cap
        (c ++ Octet.ofNat 4 (s.length % 2 ^ 32) ++ s.take (s.length % 2 ^ 32))) := by
  obtain ⟨hlen, hlt⟩ := length_low s
  by_cases hpre : c.length + 4 ≤ cap
  · right
    by_cases hfit : c.length + 4 + s.length % 2 ^ 32 ≤ cap
    · have happend := appendString_ok (s := s.take (s.length % 2 ^ 32)) h
        (by rw [hlen]; exact hlt) (by rw [hlen]; exact hfit)
      rw [appendString_take, hlen] at happend
      exact .inr ⟨hfit, happend⟩
    · have happend := appendString_cut (s := s.take (s.length % 2 ^ 32)) h
        (by rw [hlen]; exact hlt) hpre (by rw [hlen]; omega)
      rw [appendString_take, hlen] at happend
      exact .inl ⟨hpre, by omega, happend⟩
  · exact .inl ⟨by omega, appendString_refused h s (by omega)⟩

/-- An append of a string fails without a trace unless its prefix fits and its bytes do not. -/
theorem failsClean_appendString_iff (h : b.HasContents cap c) (s : List UInt8) :
    FailsClean (appendString s) b ↔
      b.capacity < b.size + 4 ∨ b.size + 4 + s.length % 2 ^ 32 ≤ b.capacity := by
  have hsize : b.size = c.length := h.size_eq
  have hcap : b.capacity = cap := h.capacity_eq
  rw [FailsClean, hsize, hcap]
  rcases appendString_cases h s with
    ⟨hfull, e, hrun⟩ | ⟨hpre, hfull, e, b', hrun, hb'⟩ | ⟨hfit, b', hrun, hb'⟩
  · rw [hrun]
    exact iff_of_true (.inr ⟨hsize, rfl⟩) (.inl hfull)
  · rw [hrun]
    refine iff_of_false ?_ (by omega)
    rintro (hok | ⟨hsame, -⟩)
    · cases hok
    · -- the prefix is still there
      have hgrown : b'.size = c.length + 4 := by
        rw [Buffer.size, hb'.size_eq, List.length_append, Octet.length_ofNat]
      have hsame : b'.size = c.length := hsame
      omega
  · rw [hrun]
    exact iff_of_true (.inl rfl) (.inr hfit)

/-- An append that fails, by `BufferWriter` or by `WriterPacket`, leaves the size and the
contents alone exactly if the prefix does not fit or the bytes fit behind it. -/
theorem failsClean_iff (h : b.HasContents cap c) (s : List UInt8) :
    (FailsClean (appendString s) b ↔
      b.capacity < b.size + 4 ∨ b.size + 4 + s.length % 2 ^ 32 ≤ b.capacity) ∧
    (FailsClean (WriterPacket.appendString s) b ↔
      b.capacity < b.size + 4 ∨ b.size + 4 + s.length % 2 ^ 32 ≤ b.capacity) :=
  ⟨failsClean_appendString_iff h s, failsClean_appendString_iff h s⟩

/-- A string is appended to two bytes, of which nothing can be seen if there is no room for its
prefix, while all of it can be seen if there is room for its bytes. -/
theorem failsClean_iff_full :
    Execution.returns (appendString [1, 2] ⟨[8, 9, 0, 0, 0], 2⟩) = false ∧
      FailsClean (appendString [1, 2]) ⟨[8, 9, 0, 0, 0], 2⟩ ∧
      FailsClean (WriterPacket.appendString [1, 2]) ⟨[8, 9, 0, 0, 0], 2⟩ ∧
      Execution.returns (appendString [1, 2] ⟨[8, 9, 0, 0, 0, 0, 0, 0], 2⟩) = true ∧
      FailsClean (appendString [1, 2]) ⟨[8, 9, 0, 0, 0, 0, 0, 0], 2⟩ := by
  have hfull : Buffer.HasContents ⟨[8, 9, 0, 0, 0], 2⟩ 5 [8, 9] := ⟨rfl, rfl, rfl, by norm_num⟩
  have hroom : Buffer.HasContents ⟨[8, 9, 0, 0, 0, 0, 0, 0], 2⟩ 8 [8, 9] :=
    ⟨rfl, rfl, rfl, by norm_num⟩
  refine ⟨by decide, ?_, ?_, by decide, ?_⟩
  · exact (failsClean_iff hfull [1, 2]).1.mpr (.inl (by decide))
  · exact (failsClean_iff hfull [1, 2]).2.mpr (.inl (by decide))
  · exact (failsClean_iff hroom [1, 2]).1.mpr (.inr (by decide))

/-- An empty buffer of five bytes holds the prefix of a string of two bytes after the append of
that string has thrown. -/
theorem failsClean_false_dangling :
    (final (appendString [1, 2] (Buffer.zeroed 5))).contents = [0, 0, 0, 2] ∧
      ¬ FailsClean (appendString [1, 2]) (Buffer.zeroed 5) ∧
      ¬ FailsClean (WriterPacket.appendString [1, 2]) (Buffer.zeroed 5) := by
  have hcontents : (final (appendString [1, 2] (Buffer.zeroed 5))).contents = [0, 0, 0, 2] := by
    decide
  have hnot : ¬ FailsClean (appendString [1, 2]) (Buffer.zeroed 5) := by
    rintro (hok | ⟨-, hsame⟩)
    · exact absurd (congrArg Execution.returns hok) (by decide)
    · rw [hcontents] at hsame
      exact absurd hsame (by decide)
  exact ⟨hcontents, hnot, hnot⟩

/-- What `get_string` finds at the old end of a buffer that a string was appended to. -/
private theorem getString_appended {s : List UInt8} (h : b.HasContents cap c)
    (hs : s.length < 2 ^ 32) (hlt : c.length + 4 < 2 ^ 31) {b' : Buffer}
    (hb' : b'.HasContents cap (c ++ Octet.ofNat 4 s.length ++ s)) :
    ∃ r, BufferReader.getString b' ⟨b.size, []⟩ = .ok s r := by
  have h4 : (Octet.ofNat 4 s.length).length = 4 := Octet.length_ofNat 4 _
  have hat : ((c ++ Octet.ofNat 4 s.length ++ s).drop c.length).take (4 + s.length) =
      Octet.ofNat 4 s.length ++ s := by
    rw [List.append_assoc, List.drop_left]
    exact List.take_of_length_le (by rw [List.length_append, h4])
  have hin : c.length + 4 + s.length ≤ (c ++ Octet.ofNat 4 s.length ++ s).length := by
    rw [List.length_append, List.length_append, h4]
  rw [show b.size = c.length from h.size_eq]
  exact ⟨_, BufferReader.getString_returns hb' hlt hat hs hin⟩

/-- Behind a prefix that ends at `2 ^ 31` or later the cursor is no offset in the buffer. -/
private theorem getString_behind {s : List UInt8} {i : ℕ} {b' : Buffer} {r : BufferReader}
    (hb' : b'.HasContents cap c) (hi : i < 2 ^ 31) (hge : 2 ^ 31 ≤ i + 4)
    (hshort : c.length < 2 ^ 33) : BufferReader.getString b' ⟨i, []⟩ ≠ .ok s r := by
  intro hrun
  obtain ⟨-, hfits⟩ := BufferReader.getString_fits hb' hrun
  have hnegative : toInt32 ((i : ℤ) + 4) = (i : ℤ) + 4 - 2 ^ 32 :=
    toInt32_of_ge (n := i + 4) hge (by omega)
  have hfar : 2 ^ 33 ≤ toSize ((i : ℤ) + 4 - 2 ^ 32) := by
    rw [toSize]
    omega
  simp only [hnegative] at hfits
  omega

/-- Success means that the string is stored exactly if there is no success, or the length of
the string fits in its prefix and the prefix ends before the largest `int`. -/
theorem storesString_iff (h : b.HasContents cap c) (s : List UInt8) :
    StoresString s b ↔
      b.capacity < b.size + 4 + s.length % 2 ^ 32 ∨
        s.length < 2 ^ 32 ∧ b.size + 4 < 2 ^ 31 := by
  have hsize : b.size = c.length := h.size_eq
  have hcap : b.capacity = cap := h.capacity_eq
  rw [hsize, hcap]
  rcases appendString_cases h s with
    ⟨hfull, e, hrun⟩ | ⟨-, hfull, e, b', hrun, -⟩ | ⟨hfit, b', hrun, hb'⟩
  · refine iff_of_true (fun b' hok => ?_) (.inl (by omega))
    rw [hrun] at hok
    cases hok
  · refine iff_of_true (fun b' hok => ?_) (.inl hfull)
    rw [hrun] at hok
    cases hok
  have hgrown : b'.size = c.length + 4 + s.length % 2 ^ 32 := by
    rw [Buffer.size, hb'.size_eq, List.length_append, List.length_append, Octet.length_ofNat,
      (length_low s).1]
  constructor
  · intro hstores
    obtain ⟨hlen, hlt, r, hget⟩ := hstores b' hrun
    have hs : s.length < 2 ^ 32 := by
      have := (length_low s).2
      omega
    refine .inr ⟨hs, ?_⟩
    by_contra hge
    apply getString_behind hb' (show c.length < 2 ^ 31 by omega) (by omega) _ (hsize ▸ hget)
    rw [← hb'.size_eq, ← Buffer.size, hgrown]
    omega
  · rintro (hfull | ⟨hs, hlt⟩) b₁ hok
    · omega
    · rw [hrun] at hok
      cases hok
      have hmod : s.length % 2 ^ 32 = s.length := Nat.mod_eq_of_lt hs
      rw [hmod, List.take_length] at hb'
      refine ⟨?_, ?_, getString_appended h hs hlt hb'⟩
      · rw [hgrown, hmod, hsize]
      · omega

/-- A string of two bytes is stored. -/
theorem storesString_iff_two : StoresString [1, 2] (Buffer.zeroed 6) :=
  (storesString_iff (Buffer.hasContents_zeroed (show 6 < sizeMod by norm_num)) [1, 2]).mpr
    (.inr ⟨by decide, by decide⟩)

/-- A string whose length is `2 ^ 32` is appended as an empty string. -/
private theorem appendString_empty {s : List UInt8} (hs : s.length = 2 ^ 32) :
    ∃ b', appendString s (Buffer.zeroed 4) = .ok true b' ∧ b'.HasContents 4 [0, 0, 0, 0] := by
  have hempty := appendString_ok (s := [])
    (Buffer.hasContents_zeroed (show 4 < sizeMod by norm_num)) (by decide) (by decide)
  rw [← appendString_take, hs, Nat.mod_self, List.take_zero]
  exact hempty

private theorem not_storesString {s : List UInt8} (hs : s.length = 2 ^ 32) :
    ¬ StoresString s (Buffer.zeroed 4) := by
  intro hstores
  obtain ⟨b', hrun, hb'⟩ := appendString_empty hs
  have hgrown := (hstores b' hrun).1
  rw [hs, Buffer.size, hb'.size_eq] at hgrown
  exact absurd hgrown (by decide)

/-- Of a string of `2 ^ 32` bytes nothing but an empty prefix is stored, and the append
returns `true`. -/
theorem storesString_false_long :
    (∃ b', appendString (List.replicate (2 ^ 32) 0) (Buffer.zeroed 4) = .ok true b' ∧
      b'.contents = [0, 0, 0, 0]) ∧
      ¬ StoresString (List.replicate (2 ^ 32) 0) (Buffer.zeroed 4) := by
  obtain ⟨b', hrun, hb'⟩ := appendString_empty List.length_replicate
  exact ⟨⟨b', hrun, hb'.contents_eq⟩, not_storesString List.length_replicate⟩

end Spec

end BufferWriter

namespace BufferReader

/-- The sizes that one `get_string` asks `std::string::resize` for. -/
def requested (b : Buffer) (r : BufferReader) : List ℕ :=
  (final (getString b r)).resized.drop r.resized.length

/-- `get_string` asks for no more bytes than lie behind the prefix. If the prefix or the bytes
that it announces are not there, it throws `buffer_reader_stop`, with the cursor where it was and
nothing asked for. It never reads outside the storage. -/
structure ChecksPrefix (b : Buffer) (r : BufferReader) : Prop where
  reserves : ∀ n ∈ requested b r, toSize r.index + 4 + n ≤ b.size
  stops : b.size < toSize r.index + 4 + prefixAt b.contents (toSize r.index) →
    getString b r = .error (.thrown bufferReaderStop) r
  inside : ∀ r', getString b r ≠ .error .outOfBounds r'

/-- The prefix, or the bytes behind it, would be read outside the storage, as the sum that is
compared with `size()` has wrapped around. -/
def WrapsAt (b : Buffer) (r : BufferReader) : Prop :=
  if toSize r.index + 4 ≤ b.size then
    b.Wraps (toSize (toInt32 (r.index + 4))) (prefixAt b.contents (toSize r.index))
  else b.Wraps (toSize r.index) 4

instance (b : Buffer) (r : BufferReader) : Decidable (WrapsAt b r) :=
  inferInstanceAs (Decidable (ite _ _ _))

section Spec

variable {b : Buffer} {cap : ℕ} {c : List UInt8} {r : BufferReader}

/-- Once the prefix has been read, memory is asked for before anything else happens. -/
theorem requested_one (h : b.HasContents cap c) (hin : toSize r.index + 4 ≤ c.length) :
    requested b r = [prefixAt c (toSize r.index)] := by
  rw [requested, getString_goesOn h hin]
  simp only [getStringBody]
  split
  all_goals exact List.drop_left

/-- Without a whole prefix, the check of its range refuses unless the sum wraps around. -/
theorem getString_noPrefix (h : b.HasContents cap c) (hout : c.length < toSize r.index + 4) :
    getString b r =
      .error (if b.Wraps (toSize r.index) 4 then .outOfBounds else .thrown bufferReaderStop) r := by
  have hsize : b.size = c.length := h.size_eq
  by_cases hwraps : b.Wraps (toSize r.index) 4
  · have hread : b.get IntType.uint32.size (toSize r.index) = .error .outOfBounds :=
      (Buffer.get_outOfBounds_iff h (by decide) (toSize_lt _)).mpr hwraps
    have hget : get b .uint32 r = .error .outOfBounds r := by simp only [get, hread]
    rw [if_pos hwraps, getString, Execution.bind_error hget]
  · have hexact := (Buffer.getExact_iff h (by decide) (toSize_lt _)).mpr hwraps
    have hread : b.get IntType.uint32.size (toSize r.index) = .ok none :=
      hexact.outside (by omega)
    have hget : get b .uint32 r = .error (.thrown bufferReaderStop) r := by simp only [get, hread]
    rw [if_neg hwraps, getString, Execution.bind_error hget]

theorem requested_noPrefix (h : b.HasContents cap c) (hout : c.length < toSize r.index + 4) :
    requested b r = [] := by
  rw [requested, getString_noPrefix h hout, final, List.drop_length]

/-- `get_string` reads outside the storage exactly if a sum wraps around. -/
theorem getString_outOfBounds_iff (h : b.HasContents cap c) (r : BufferReader) :
    (∃ r', getString b r = .error .outOfBounds r') ↔ WrapsAt b r := by
  have hsize : b.size = c.length := h.size_eq
  rw [WrapsAt, hsize, h.contents_eq]
  by_cases hin : toSize r.index + 4 ≤ c.length
  · have hprefix : prefixAt c (toSize r.index) < sizeMod :=
      (prefixAt_lt c _).trans (by norm_num)
    rw [if_pos hin, getString_goesOn h hin,
      ← Buffer.get_outOfBounds_iff h hprefix (toSize_lt _)]
    simp only [getStringBody]
    constructor
    · rintro ⟨r', hrun⟩
      split at hrun
      · next hget =>
        cases hrun
        exact hget
      · cases hrun
      · cases hrun
    · intro hget
      exact ⟨_, by rw [hget]⟩
  · rw [if_neg hin, getString_noPrefix h (Nat.lt_of_not_le hin)]
    by_cases hwraps : b.Wraps (toSize r.index) 4
    · rw [if_pos hwraps]
      exact iff_of_true ⟨r, rfl⟩ hwraps
    · rw [if_neg hwraps]
      refine iff_of_false ?_ hwraps
      rintro ⟨r', hrun⟩
      cases hrun

/-- A prefix is checked before memory is asked for exactly if there is no prefix or as many
bytes as it says, and no sum wraps around on the way. -/
theorem checksPrefix_iff (h : b.HasContents cap c) (r : BufferReader) :
    ChecksPrefix b r ↔
      (b.size < toSize r.index + 4 ∨
        toSize r.index + 4 + prefixAt b.contents (toSize r.index) ≤ b.size) ∧ ¬ WrapsAt b r := by
  have hsize : b.size = c.length := h.size_eq
  have hcontents := h.contents_eq
  rw [← getString_outOfBounds_iff h, not_exists]
  constructor
  · intro hchecks
    refine ⟨?_, hchecks.inside⟩
    by_contra hno
    rw [not_or] at hno
    have hrequested := requested_one h (show toSize r.index + 4 ≤ c.length by omega)
    have hin := hchecks.reserves (prefixAt b.contents (toSize r.index))
      (by rw [hrequested, hcontents]; exact List.mem_singleton_self _)
    omega
  · rintro ⟨hout | hin, hinside⟩
    · refine ⟨fun n hn => ?_, fun _ => ?_, hinside⟩
      · rw [requested_noPrefix h (by omega)] at hn
        cases hn
      -- the check of the prefix itself refuses
      · rw [getString_noPrefix h (by omega)] at hinside ⊢
        rw [if_neg fun hwraps => hinside r (by rw [if_pos hwraps])]
    · refine ⟨fun n hn => ?_, fun hlt => by omega, hinside⟩
      rw [requested_one h (by omega), List.mem_singleton, ← hcontents] at hn
      rw [hn]
      exact hin

/-- Behind a prefix of two, two bytes are asked for; where the prefix is cut off, none. -/
theorem checksPrefix_iff_two :
    ChecksPrefix ⟨[9, 0, 0, 0, 2, 7, 8], 7⟩ ⟨1, []⟩ ∧
      requested ⟨[9, 0, 0, 0, 2, 7, 8], 7⟩ ⟨1, []⟩ = [2] ∧
      ChecksPrefix ⟨[9, 0, 0, 0, 2, 7, 8], 7⟩ ⟨4, []⟩ ∧
      requested ⟨[9, 0, 0, 0, 2, 7, 8], 7⟩ ⟨4, []⟩ = [] := by
  have h : Buffer.HasContents ⟨[9, 0, 0, 0, 2, 7, 8], 7⟩ 7 [9, 0, 0, 0, 2, 7, 8] :=
    ⟨rfl, rfl, rfl, by norm_num⟩
  refine ⟨?_, by decide, ?_, by decide⟩
  · exact (checksPrefix_iff h ⟨1, []⟩).mpr ⟨.inr (by decide), by decide⟩
  · exact (checksPrefix_iff h ⟨4, []⟩).mpr ⟨.inl (by decide), by decide⟩

/-- Four bytes make a reader ask for four gigabytes; and a cursor at `-2` makes it read the
prefix from outside the storage. -/
theorem checksPrefix_false_four :
    requested ⟨[255, 255, 255, 255], 4⟩ ⟨0, []⟩ = [4294967295] ∧
      ¬ ChecksPrefix ⟨[255, 255, 255, 255], 4⟩ ⟨0, []⟩ ∧
      ¬ ChecksPrefix ⟨[255, 255, 255, 255], 4⟩ ⟨-2, []⟩ := by
  have hrequested : requested ⟨[255, 255, 255, 255], 4⟩ ⟨0, []⟩ = [4294967295] := by decide
  refine ⟨hrequested, fun hchecks => ?_, fun hchecks => ?_⟩
  · have hin := hchecks.reserves 4294967295 (by rw [hrequested]; exact List.mem_singleton_self _)
    exact absurd hin (by decide)
  · exact hchecks.inside ⟨-2, []⟩ rfl

end Spec

end BufferReader

end LibraCore
