import LibraCore.Foundations.Octet
import LibraCore.Foundations.PrefixCode

/-!
# The wire format

A frame is `| 'L' 'I' | length of the body | cmd | body |` with both numbers in
16 bits, big-endian. This file states the format by itself, as a property of
octet strings: `Wire.IsFrame` says which strings are frames, `Wire.scan` looks
for a frame at the front of a string, and no frame is a proper prefix of another.
-/

namespace LibraCore.Wire

/-- The two magic octets `'L'`, `'I'`. -/
def magic : List UInt8 := [76, 73]

def headerSize : ℕ := 6

/-- The number in the length field. -/
def bodyLen (c : List UInt8) : ℕ := Octet.toNat ((c.drop 2).take 2)

/-- The frame of a command and a body. -/
def frame (cmd : BitVec 16) (body : List UInt8) : List UInt8 :=
  magic ++ Octet.ofNat 2 body.length ++ Octet.spell (n := 2) cmd ++ body

/-- Magic, at least a header, and a length field that names the rest. -/
def IsFrame (f : List UInt8) : Prop :=
  f.take 2 = magic ∧ headerSize ≤ f.length ∧ f.length = headerSize + bodyLen f

instance (f : List UInt8) : Decidable (IsFrame f) :=
  inferInstanceAs (Decidable (_ ∧ _ ∧ _))

/-- What the front of a string is. -/
inductive Scan
  | incomplete
  | corrupt
  | frame (f rest : List UInt8)
  deriving DecidableEq, Repr

def scan (c : List UInt8) : Scan :=
  if c.length < headerSize then .incomplete
  else if c.take 2 ≠ magic then .corrupt
  else if c.length < headerSize + bodyLen c then .incomplete
  else .frame (c.take (headerSize + bodyLen c)) (c.drop (headerSize + bodyLen c))

theorem bodyLen_append {f x : List UInt8} (hf : 4 ≤ f.length) :
    bodyLen (f ++ x) = bodyLen f := by
  rw [bodyLen, bodyLen, List.drop_append_of_le_length (by omega),
    List.take_append_of_le_length (by rw [List.length_drop]; omega)]

theorem bodyLen_lt (c : List UInt8) : bodyLen c < 65536 := by
  have hlt := Octet.toNat_lt ((c.drop 2).take 2)
  have hle : ((c.drop 2).take 2).length ≤ 2 := List.length_take_le 2 _
  calc bodyLen c < 256 ^ ((c.drop 2).take 2).length := hlt
    _ ≤ 256 ^ 2 := Nat.pow_le_pow_right (by omega) hle
    _ = 65536 := by norm_num

/-- The length field, read as a 16-bit number. -/
theorem toNat_word (c : List UInt8) :
    (Octet.word 2 ((c.drop 2).take 2)).toNat = bodyLen c := by
  rw [Octet.word, BitVec.toNat_ofNat]
  exact Nat.mod_eq_of_lt (bodyLen_lt c)

theorem IsFrame.ne_nil {f : List UInt8} (hf : IsFrame f) : f ≠ [] := by
  rintro rfl
  exact absurd hf.2.1 (by decide)

theorem length_frame (cmd : BitVec 16) (body : List UInt8) :
    (frame cmd body).length = headerSize + body.length := by
  simp only [frame, List.length_append, Octet.length_ofNat, Octet.length_spell]
  rfl

theorem frame_cmd (cmd : BitVec 16) (body : List UInt8) :
    ((frame cmd body).drop 4).take 2 = Octet.spell (n := 2) cmd := by
  have hcmd : (Octet.spell (n := 2) cmd).length = 2 := Octet.length_spell _
  have hsplit : frame cmd body =
      (magic ++ Octet.ofNat 2 body.length) ++ (Octet.spell (n := 2) cmd ++ body) := by
    rw [frame, List.append_assoc]
  have hhead : (magic ++ Octet.ofNat 2 body.length).length = 4 := rfl
  rw [hsplit, List.drop_left' hhead]
  exact List.take_left' hcmd

theorem isFrame_frame (cmd : BitVec 16) {body : List UInt8} (hbody : body.length < 65536) :
    IsFrame (frame cmd body) := by
  have hlen := length_frame cmd body
  have hfield : bodyLen (frame cmd body) = body.length := by
    have hdrop : (frame cmd body).drop 2 =
        Octet.ofNat 2 body.length ++ (Octet.spell (n := 2) cmd ++ body) := by
      simp [frame, magic]
    rw [bodyLen, hdrop, List.take_left' (Octet.length_ofNat 2 _), Octet.toNat_ofNat]
    exact Nat.mod_eq_of_lt hbody
  refine ⟨rfl, by omega, ?_⟩
  rw [hlen, hfield]

/-- A frame is determined by the front of the stream it is read from. -/
theorem isFrame_prefixFree : PrefixCode.PrefixFree IsFrame := by
  intro f g x y hf hg heq
  have h6 : headerSize = 6 := rfl
  -- the length field lies in the part the two streams share
  have hbody : bodyLen f = bodyLen g := by
    rw [← bodyLen_append (x := x) (by have := hf.2.1; omega), heq,
      bodyLen_append (by have := hg.2.1; omega)]
  have hlen : f.length = g.length := by rw [hf.2.2, hg.2.2, hbody]
  exact (List.append_inj heq hlen).1

theorem scan_append {f rest : List UInt8} (hf : IsFrame f) : scan (f ++ rest) = .frame f rest := by
  have h6 : headerSize = 6 := rfl
  obtain ⟨hmagic, hhead, hlen⟩ := hf
  have hbody : bodyLen (f ++ rest) = bodyLen f := bodyLen_append (by omega)
  have htake : (f ++ rest).take 2 = magic := by
    rw [List.take_append_of_le_length (by omega), hmagic]
  rw [scan, if_neg (by rw [List.length_append]; omega), if_neg (not_not_intro htake), hbody,
    ← hlen, if_neg (by rw [List.length_append]; omega), List.take_left, List.drop_left]

/-- `scan` finds exactly the frames. -/
theorem scan_eq_frame_iff {c f rest : List UInt8} :
    scan c = .frame f rest ↔ IsFrame f ∧ c = f ++ rest := by
  constructor
  · intro h
    unfold scan at h
    split_ifs at h with h1 h2 h3
    obtain ⟨rfl, rfl⟩ := Scan.frame.inj h
    have h6 : headerSize = 6 := rfl
    have hlen : (c.take (headerSize + bodyLen c)).length = headerSize + bodyLen c := by
      rw [List.length_take]
      omega
    have hbody : bodyLen (c.take (headerSize + bodyLen c)) = bodyLen c := by
      have hsplit := bodyLen_append (f := c.take (headerSize + bodyLen c))
        (x := c.drop (headerSize + bodyLen c)) (by omega)
      rw [List.take_append_drop] at hsplit
      exact hsplit.symm
    refine ⟨⟨?_, by omega, by rw [hlen, hbody]⟩, (List.take_append_drop _ c).symm⟩
    rw [List.take_take, Nat.min_eq_left (by omega)]
    exact not_not.mp h2
  · rintro ⟨hf, rfl⟩
    exact scan_append hf

/-- The front of a stream of frames is never corrupt. -/
theorem scan_ne_corrupt {c z : List UInt8} {fs : List (List UInt8)} (hfs : ∀ f ∈ fs, IsFrame f)
    (h : c ++ z = fs.flatten) : scan c ≠ .corrupt := by
  have h6 : headerSize = 6 := rfl
  intro hcorrupt
  unfold scan at hcorrupt
  split_ifs at hcorrupt with h1 h2 h3
  cases fs with
  | nil =>
    obtain ⟨rfl, -⟩ := List.append_eq_nil_iff.mp h
    simp [h6] at h1
  | cons f fs =>
    have hf := hfs f List.mem_cons_self
    apply h2
    calc c.take 2 = (c ++ z).take 2 := (List.take_append_of_le_length (by omega)).symm
      _ = (f ++ fs.flatten).take 2 := by rw [h, List.flatten_cons]
      _ = f.take 2 := List.take_append_of_le_length (by have := hf.2.1; omega)
      _ = magic := hf.1

/-! ### Taking frames off the front -/

/-- Why frames are no longer taken off the front of a string. -/
inductive Stop
  | short
  | corrupt
  | oversized
  | limit
  deriving DecidableEq, Repr

/-- Take at most `n` frames of at most `cap` octets off the front: the frames,
what is left, and why it ended there. -/
def drain (cap : ℕ) : ℕ → List UInt8 → List (List UInt8) × List UInt8 × Stop
  | 0, c => ([], c, .limit)
  | n + 1, c =>
    match scan c with
    | .incomplete => ([], c, .short)
    | .corrupt => ([], c, .corrupt)
    | .frame f rest =>
      if f.length ≤ cap then (f :: (drain cap n rest).1, (drain cap n rest).2)
      else ([], c, .oversized)

section Drain

variable {cap n : ℕ} {c : List UInt8}

/-- Induction along `drain`: one case for each way a pass can go. -/
theorem drain_induction (cap : ℕ) {P : ℕ → List UInt8 → Prop} (zero : ∀ c, P 0 c)
    (stop : ∀ n c, (∀ f rest, scan c = .frame f rest → cap < f.length) → P (n + 1) c)
    (frame : ∀ n f rest, IsFrame f → f.length ≤ cap → P n rest → P (n + 1) (f ++ rest)) :
    ∀ n c, P n c := by
  intro n
  induction n with
  | zero => exact zero
  | succ n ih =>
    intro c
    by_cases hstop : ∀ f rest, scan c = .frame f rest → cap < f.length
    · exact stop n c hstop
    · push Not at hstop
      obtain ⟨f, rest, hscan, hfit⟩ := hstop
      obtain ⟨hf, rfl⟩ := scan_eq_frame_iff.mp hscan
      exact frame n f rest hf hfit (ih rest)

theorem drain_frame {f rest : List UInt8} (hf : IsFrame f) (hfit : f.length ≤ cap) :
    drain cap (n + 1) (f ++ rest) = (f :: (drain cap n rest).1, (drain cap n rest).2) := by
  rw [drain, scan_append hf]
  simp only [if_pos hfit]

theorem drain_stop (h : ∀ f rest, scan c = .frame f rest → cap < f.length) :
    (drain cap (n + 1) c).1 = [] ∧ (drain cap (n + 1) c).2.1 = c ∧
      (drain cap (n + 1) c).2.2 ≠ .limit ∧ ((drain cap (n + 1) c).2.2 = .short → scan c = .incomplete) ∧
      ((drain cap (n + 1) c).2.2 = .corrupt → scan c = .corrupt) ∧
      ((drain cap (n + 1) c).2.2 = .oversized → ∃ f rest, scan c = .frame f rest ∧ cap < f.length) := by
  rw [drain]
  cases hscan : scan c with
  | incomplete => simp
  | corrupt => simp
  | frame f rest =>
    have hbig := h f rest hscan
    simp only [if_neg (Nat.not_le_of_lt hbig)]
    simp [hbig]

/-- No octet is lost, invented or moved. -/
theorem drain_flatten (cap n : ℕ) (c : List UInt8) :
    (drain cap n c).1.flatten ++ (drain cap n c).2.1 = c := by
  induction n, c using drain_induction cap with
  | zero c => rfl
  | stop n c h =>
    obtain ⟨hnil, hrest, -⟩ := drain_stop (n := n) h
    rw [hnil, hrest]
    rfl
  | frame n f rest hf hfit ih =>
    rw [drain_frame hf hfit, List.flatten_cons, List.append_assoc, ih]

theorem isFrame_of_mem_drain (cap n : ℕ) (c : List UInt8) :
    ∀ f ∈ (drain cap n c).1, IsFrame f := by
  induction n, c using drain_induction cap with
  | zero c => intro f hf; cases hf
  | stop n c h =>
    intro f hf
    rw [(drain_stop (n := n) h).1] at hf
    cases hf
  | frame n f rest hf hfit ih =>
    intro g hg
    rw [drain_frame hf hfit, List.mem_cons] at hg
    obtain rfl | hg := hg
    · exact hf
    · exact ih g hg

/-- What each reason to stop says about what is left. -/
theorem drain_reason (cap n : ℕ) (c : List UInt8) :
    match (drain cap n c).2.2 with
    | .short => scan (drain cap n c).2.1 = .incomplete
    | .corrupt => scan (drain cap n c).2.1 = .corrupt
    | .oversized => ∃ f rest, scan (drain cap n c).2.1 = .frame f rest ∧ cap < f.length
    | .limit => (drain cap n c).1.length = n := by
  induction n, c using drain_induction cap with
  | zero c => rfl
  | stop n c h =>
    obtain ⟨-, hrest, hlimit, hshort, hcorrupt, hbig⟩ := drain_stop (n := n) h
    rw [hrest]
    cases hs : (drain cap (n + 1) c).2.2 with
    | short => exact hshort hs
    | corrupt => exact hcorrupt hs
    | oversized => exact hbig hs
    | limit => exact absurd hs hlimit
  | frame n f rest hf hfit ih =>
    rw [drain_frame hf hfit]
    simp only
    cases hs : (drain cap n rest).2.2 <;> simp only [hs] at ih ⊢
    · exact ih
    · exact ih
    · exact ih
    · rw [List.length_cons, ih]

/-- On a stream of frames, `drain` takes the frames of the stream. -/
theorem drain_stream {z : List UInt8} {fs : List (List UInt8)} (hfs : ∀ f ∈ fs, IsFrame f)
    (h : c ++ z = fs.flatten) :
    ∃ k, (drain cap n c).1 = fs.take k ∧ (drain cap n c).2.1 ++ z = (fs.drop k).flatten ∧
      (drain cap n c).2.2 ≠ .corrupt := by
  induction n, c using drain_induction cap generalizing fs with
  | zero c => exact ⟨0, rfl, h, by simp [drain]⟩
  | stop n c hstop =>
    obtain ⟨hnil, hrest, -, -, hcorrupt, -⟩ := drain_stop (n := n) hstop
    refine ⟨0, hnil, by rw [hrest]; exact h, ?_⟩
    intro hs
    exact scan_ne_corrupt hfs h (hcorrupt hs)
  | frame n f rest hf hfit ih =>
    rw [List.append_assoc] at h
    obtain ⟨gs, rfl, hgs⟩ := isFrame_prefixFree.head_of_flatten hf hf.ne_nil hfs h
    obtain ⟨k, htake, hdrop, hok⟩ := ih (fun g hg => hfs g (List.mem_cons_of_mem _ hg)) hgs
    refine ⟨k + 1, ?_, ?_, ?_⟩
    · rw [drain_frame hf hfit, htake, List.take_succ_cons]
    · rw [drain_frame hf hfit]
      exact hdrop
    · rw [drain_frame hf hfit]
      exact hok

end Drain

end LibraCore.Wire
