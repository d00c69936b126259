import LibraCore.Foundations.Execution
import LibraCore.Net.Packet

/-!
# `tcp_server::Decoder`

`Decoder::handle` takes frames off the front of a buffer and hands each of them
to a callback, at most five of them in one call. The callback is arbitrary code,
so the buffer is a `Place` in a larger state that the callback may change too.

`Decoder.next` is one pass through the body of the loop up to the callback; its
specification `Decoder.next_spec` compares it with `Wire.scan`.
-/

namespace LibraCore.Decoder

def magicError : Exception where
  classId := .exception
  method := "handle"
  message := "magic code error!"

/-- The four fields read by a `BufferReader` at the start of the buffer. -/
def readHeader (buffer : Buffer) :
    ReaderM (IntType.int8.Val × IntType.int8.Val × IntType.uint16.Val × IntType.uint16.Val) := do
  let magicA ← BufferReader.get buffer .int8
  let magicB ← BufferReader.get buffer .int8
  let bodyLen ← BufferReader.get buffer .uint16
  let cmd ← BufferReader.get buffer .uint16
  pure (magicA, magicB, bodyLen, cmd)

/-- One pass through the loop, up to the callback: the packet for the callback,
or `none` for `break`. -/
def next : BufferM (Option ReaderPacket) := fun buffer =>
  if buffer.size < Packet.headerSize then .ok none buffer
  else
    match readHeader buffer { index := 0 } with
    | .error f _ => .error f buffer
    | .ok (magicA, magicB, bodyLen, _) _ =>
      if magicA ≠ IntType.int8.wrap 'L'.toNat ∨ magicB ≠ IntType.int8.wrap 'I'.toNat then
        .error (.thrown magicError) buffer
      else
        let totalLen := Packet.headerSize + bodyLen.toNat
        if buffer.size < totalLen then .ok none buffer
        else
          match ReaderPacket.copy (buffer.data.take totalLen) ReaderPacket.new with
          | .error f _ => .error f buffer
          | .ok _ packet =>
            match Buffer.remove 0 totalLen buffer with
            | .error f buffer => .error f buffer
            | .ok _ buffer => .ok (some packet) buffer

section Handle

variable {W : Type}

/-- The callback, a `std::function` that may be empty. -/
abbrev Callback (W : Type) := Option (ReaderPacket → EStateM Fault W Unit)

def invoke (cb : Callback W) (packet : ReaderPacket) : EStateM Fault W Unit :=
  match cb with
  | some cb => cb packet
  | none => pure ()

/-- The loop, with the number of passes the counter still allows. -/
def handleFrom (buffer : Execution.Place W Buffer) (cb : Callback W) :
    ℕ → EStateM Fault W Unit
  | 0 => pure ()
  | left + 1 => do
    let packet ← buffer.run next
    match packet with
    | none => pure ()
    | some packet => do
      invoke cb packet
      handleFrom buffer cb left

/-- The bound in `while (++cnt < 5)`. -/
def maxPasses : ℕ := 5

def handle (buffer : Execution.Place W Buffer) (cb : Callback W) : EStateM Fault W ℤ := do
  handleFrom buffer cb maxPasses
  pure 0

end Handle

/-! ### One pass -/

section Next

variable {b : Buffer} {cap : ℕ} {c : List UInt8}

private theorem readHeader_ok (h : b.HasContents cap c) (hlen : 6 ≤ c.length) :
    ∃ r, readHeader b { index := 0 } =
      .ok (Octet.word IntType.int8.size (c.take 1), Octet.word IntType.int8.size ((c.drop 1).take 1),
        Octet.word IntType.uint16.size ((c.drop 2).take 2),
        Octet.word IntType.uint16.size ((c.drop 4).take 2)) r := by
  have h₁ : BufferReader.get b .int8 ⟨(0 : ℕ), []⟩ = .ok (Octet.word 1 (c.take 1)) ⟨(1 : ℕ), []⟩ :=
    BufferReader.get_ok h .int8 (by decide) (show 0 + 1 ≤ c.length by omega)
  have h₂ : BufferReader.get b .int8 ⟨(1 : ℕ), []⟩ =
      .ok (Octet.word 1 ((c.drop 1).take 1)) ⟨(2 : ℕ), []⟩ :=
    BufferReader.get_ok h .int8 (by decide) (show 1 + 1 ≤ c.length by omega)
  have h₃ : BufferReader.get b .uint16 ⟨(2 : ℕ), []⟩ =
      .ok (Octet.word 2 ((c.drop 2).take 2)) ⟨(4 : ℕ), []⟩ :=
    BufferReader.get_ok h .uint16 (by decide) (show 2 + 2 ≤ c.length by omega)
  have h₄ : BufferReader.get b .uint16 ⟨(4 : ℕ), []⟩ =
      .ok (Octet.word 2 ((c.drop 4).take 2)) ⟨(6 : ℕ), []⟩ :=
    BufferReader.get_ok h .uint16 (by decide) (show 4 + 2 ≤ c.length by omega)
  refine ⟨⟨(6 : ℕ), []⟩, ?_⟩
  rw [readHeader]
  refine (Execution.bind_ok h₁).trans ?_
  rw [Execution.bind_ok h₂, Execution.bind_ok h₃, Execution.bind_ok h₄]
  rfl

private theorem word_int8_eq_iff {x : UInt8} {v : ℕ} (hv : v < 256) :
    Octet.word IntType.int8.size [x] = IntType.int8.wrap v ↔ x = UInt8.ofNat v := by
  have hword : (Octet.word IntType.int8.size [x]).toNat = x.toNat := by
    rw [Octet.word, BitVec.toNat_ofNat, Octet.toNat_cons]
    simp [IntType.size]
  have hwrap := IntType.int8.toNat_wrap (v := v) (by simpa [IntType.size] using hv)
  rw [← BitVec.toNat_inj, hword, hwrap, ← UInt8.toNat_inj, UInt8.toNat_ofNat']
  norm_num
  rw [Nat.mod_eq_of_lt hv]

/-- The test of the two magic bytes looks at the first two octets. -/
private theorem magic_iff (hlen : 6 ≤ c.length) :
    (Octet.word IntType.int8.size (c.take 1) ≠ IntType.int8.wrap 'L'.toNat ∨
      Octet.word IntType.int8.size ((c.drop 1).take 1) ≠ IntType.int8.wrap 'I'.toNat) ↔
    c.take 2 ≠ Wire.magic := by
  match c, hlen with
  | x :: y :: rest, _ =>
    have hx := @word_int8_eq_iff x 'L'.toNat (by decide)
    have hy := @word_int8_eq_iff y 'I'.toNat (by decide)
    have hL : UInt8.ofNat 'L'.toNat = 76 := by decide
    have hI : UInt8.ofNat 'I'.toNat = 73 := by decide
    rw [hL] at hx
    rw [hI] at hy
    simp only [List.take_succ_cons, List.take_zero, List.drop_succ_cons, List.drop_zero, ne_eq,
      hx, hy, Wire.magic, List.cons.injEq, and_true]
    exact not_and_or.symm

/-- What one pass does is what `Wire.scan` finds at the front of the contents. A
frame is handed out if it fits the packet and its `copy` throws otherwise; in
all other cases the buffer is left alone. -/
theorem next_spec (h : b.HasContents cap c) :
    match Wire.scan c with
    | .incomplete => next b = .ok none b
    | .corrupt => next b = .error (.thrown magicError) b
    | .frame f rest =>
      if f.length ≤ Packet.capacity then
        ∃ p b', next b = .ok (some p) b' ∧ p.Holds f ∧ b'.HasContents cap rest
      else ∃ e, next b = .error (.thrown e) b := by
  have h6 : Wire.headerSize = 6 := rfl
  have h6' : Packet.headerSize = 6 := rfl
  have hsize : b.size = c.length := h.size_eq
  by_cases hshort : c.length < 6
  · rw [Wire.scan, if_pos (show c.length < Wire.headerSize from hshort)]
    simp only [next]
    rw [if_pos (by omega)]
  obtain ⟨r, hheader⟩ := readHeader_ok h (by omega)
  have hmagic := magic_iff (c := c) (by omega)
  by_cases hm : c.take 2 ≠ Wire.magic
  · rw [Wire.scan, if_neg (show ¬ c.length < Wire.headerSize from hshort), if_pos hm]
    simp only [next]
    rw [if_neg (by omega), hheader]
    simp only [if_pos (hmagic.mpr hm)]
  have hm' := mt hmagic.mp hm
  have hlen : (Octet.word IntType.uint16.size ((c.drop 2).take 2)).toNat = Wire.bodyLen c :=
    Wire.toNat_word c
  by_cases hbody : c.length < 6 + Wire.bodyLen c
  · rw [Wire.scan, if_neg (show ¬ c.length < Wire.headerSize from hshort), if_neg hm,
      if_pos (show c.length < Wire.headerSize + Wire.bodyLen c from hbody)]
    simp only [next]
    rw [if_neg (by omega), hheader]
    simp only [if_neg hm', hlen]
    rw [if_pos (by omega)]
  rw [Wire.scan, if_neg (show ¬ c.length < Wire.headerSize from hshort), if_neg hm,
    if_neg (show ¬ c.length < Wire.headerSize + Wire.bodyLen c from hbody)]
  have hflen : (c.take (6 + Wire.bodyLen c)).length = 6 + Wire.bodyLen c := by
    rw [List.length_take]
    omega
  have hdata := h.data_take (n := 6 + Wire.bodyLen c) (by omega)
  obtain ⟨b', hremove, hrest⟩ := h.remove_front (n := 6 + Wire.bodyLen c) (by omega)
  by_cases hfit : 6 + Wire.bodyLen c ≤ Packet.capacity
  · obtain ⟨p, hcopy, hp⟩ := ReaderPacket.copy_new_ok (hflen.trans_le hfit)
    simp only [h6, hflen, if_pos hfit]
    refine ⟨p, b', ?_, hp, hrest⟩
    simp only [next]
    rw [if_neg (by omega), hheader]
    simp only [if_neg hm', hlen, h6', hdata, hcopy, hremove]
    rw [if_neg (by omega)]
  · obtain ⟨e, hcopy⟩ := ReaderPacket.copy_new_full (f := c.take (6 + Wire.bodyLen c)) (by omega)
    simp only [h6, hflen, if_neg hfit]
    refine ⟨e, ?_⟩
    simp only [next]
    rw [if_neg (by omega), hheader]
    simp only [if_neg hm', hlen, h6', hdata, hcopy]
    rw [if_neg (by omega)]

end Next

/-! ### The loop -/

section Loop

variable {W : Type} {buffer : Execution.Place W Buffer} {cb : Callback W} {cap : ℕ}

/-- How the loop ends when `Wire.drain` stops for the reason `s`, in the state `w`. -/
def Ends (s : Wire.Stop) (r : EStateM.Result Fault W Unit) (w : W) : Prop :=
  match s with
  | .short => r = .ok () w
  | .limit => r = .ok () w
  | .corrupt => r = .error (.thrown magicError) w
  | .oversized => ∃ e, r = .error (.thrown e) w

theorem Ends.thrown_or_ok {s : Wire.Stop} {r : EStateM.Result Fault W Unit} {w : W}
    (h : Ends s r w) : r = .ok () w ∨ ∃ e, r = .error (.thrown e) w := by
  cases s with
  | short => exact .inl h
  | limit => exact .inl h
  | corrupt => exact .inr ⟨magicError, h⟩
  | oversized => exact .inr h

section Pass

variable {w w' : W}

theorem handleFrom_none (h : buffer.run next w = .ok none w') (n : ℕ) :
    handleFrom buffer cb (n + 1) w = .ok () w' := by
  rw [handleFrom, Execution.bind_ok h]
  rfl

theorem handleFrom_some {p : ReaderPacket} (h : buffer.run next w = .ok (some p) w') (n : ℕ) :
    handleFrom buffer cb (n + 1) w = (invoke cb p >>= fun _ => handleFrom buffer cb n) w' := by
  rw [handleFrom, Execution.bind_ok h]

theorem handleFrom_error {e : Fault} (h : buffer.run next w = .error e w') (n : ℕ) :
    handleFrom buffer cb (n + 1) w = .error e w' := by
  rw [handleFrom, Execution.bind_error h]

end Pass

variable (buffer cb) in
/-- A pass that finds no frame for the callback is the last one. -/
theorem handleFrom_stop {c : List UInt8} {w : W} (h : (buffer.get w).HasContents cap c)
    (hstop : ∀ f rest, Wire.scan c = .frame f rest → Packet.capacity < f.length) (n : ℕ) :
    Ends (Wire.drain Packet.capacity (n + 1) c).2.2 (handleFrom buffer cb (n + 1) w)
      (buffer.put (buffer.get w) w) := by
  have hnext := next_spec h
  cases hscan : Wire.scan c with
  | incomplete =>
    rw [hscan] at hnext
    simp only [Wire.drain, hscan, Ends]
    exact handleFrom_none (buffer.run_ok hnext) n
  | corrupt =>
    rw [hscan] at hnext
    simp only [Wire.drain, hscan, Ends]
    exact handleFrom_error (buffer.run_error hnext) n
  | frame f rest =>
    have hbig : ¬ f.length ≤ Packet.capacity := Nat.not_le_of_lt (hstop f rest hscan)
    rw [hscan] at hnext
    simp only [if_neg hbig] at hnext
    obtain ⟨e, hnext⟩ := hnext
    simp only [Wire.drain, hscan, if_neg hbig, Ends]
    exact ⟨e, handleFrom_error (buffer.run_error hnext) n⟩

variable (buffer cb) in
/-- A pass that takes a frame off the front and hands it to the callback. -/
theorem handleFrom_frame {f rest : List UInt8} {w : W}
    (h : (buffer.get w).HasContents cap (f ++ rest)) (hf : Wire.IsFrame f)
    (hfit : f.length ≤ Packet.capacity) (n : ℕ) :
    ∃ p b, p.Holds f ∧ b.HasContents cap rest ∧
      handleFrom buffer cb (n + 1) w =
        (invoke cb p >>= fun _ => handleFrom buffer cb n) (buffer.put b w) := by
  have hnext := next_spec h
  rw [Wire.scan_append hf] at hnext
  simp only [if_pos hfit] at hnext
  obtain ⟨p, b, hnext, hp, hb⟩ := hnext
  exact ⟨p, b, hp, hb, handleFrom_some (buffer.run_ok hnext) n⟩

variable (buffer cb) in
/-- What the callback keeps, the loop keeps. `I fs c w` says that in the state `w`
the frames `fs` have been handed out and `c` is left in the buffer; `F fs e w` says
how the callback fails on the last of the frames `fs`. Then the loop either fails
that way at one of the frames that `Wire.drain` takes off the front, or hands out
all of them and ends as `Wire.drain` does. -/
theorem handleFrom_rule (hput : ∀ w, buffer.put (buffer.get w) w = w)
    {I : List (List UInt8) → List UInt8 → W → Prop} {F : List (List UInt8) → Fault → W → Prop}
    (hbuffer : ∀ {fs c w}, I fs c w → (buffer.get w).HasContents cap c)
    (hcb : ∀ {fs f rest w p b}, I fs (f ++ rest) w → Wire.IsFrame f → p.Holds f →
      b.HasContents cap rest →
      (∃ w', invoke cb p (buffer.put b w) = .ok () w' ∧ I (fs ++ [f]) rest w') ∨
      ∃ e w', invoke cb p (buffer.put b w) = .error e w' ∧ F (fs ++ [f]) e w')
    (n : ℕ) {fs : List (List UInt8)} {c : List UInt8} {w : W} (h : I fs c w) :
    (∃ gs e w', gs <+: fs ++ (Wire.drain Packet.capacity n c).1 ∧
      handleFrom buffer cb n w = .error e w' ∧ F gs e w') ∨
    ∃ w', I (fs ++ (Wire.drain Packet.capacity n c).1) (Wire.drain Packet.capacity n c).2.1 w' ∧
      Ends (Wire.drain Packet.capacity n c).2.2 (handleFrom buffer cb n w) w' := by
  induction n, c using Wire.drain_induction Packet.capacity generalizing fs w with
  | zero c => exact .inr ⟨w, by simpa [Wire.drain] using h, rfl⟩
  | stop n c hstop =>
    obtain ⟨hnil, hrest, -⟩ := Wire.drain_stop (n := n) hstop
    have hends := handleFrom_stop buffer cb (hbuffer h) hstop n
    rw [hput] at hends
    refine .inr ⟨w, ?_, hends⟩
    rw [hnil, hrest, List.append_nil]
    exact h
  | frame n f rest hf hfit ih =>
    obtain ⟨p, b, hp, hb, hstep⟩ := handleFrom_frame buffer cb (hbuffer h) hf hfit n
    rw [hstep, Wire.drain_frame hf hfit]
    obtain ⟨w', hinvoke, hI⟩ | ⟨e, w', hinvoke, hF⟩ := hcb h hf hp hb
    -- the frame joins those handed out, and the other passes start behind it
    · rw [Execution.bind_ok hinvoke]
      have hrest := ih hI
      rwa [List.append_assoc, List.singleton_append] at hrest
    · rw [Execution.bind_error hinvoke]
      refine .inl ⟨fs ++ [f], e, w', ?_, rfl, hF⟩
      exact ⟨(Wire.drain Packet.capacity n rest).1, List.append_assoc fs [f] _⟩

theorem handle_eq (buffer : Execution.Place W Buffer) (cb : Callback W) (w : W) :
    handle buffer cb w =
      match handleFrom buffer cb maxPasses w with
      | .ok () w' => .ok 0 w'
      | .error e w' => .error e w' := by
  cases h : handleFrom buffer cb maxPasses w with
  | ok a w' => rw [handle, Execution.bind_ok h]; rfl
  | error e w' => rw [handle, Execution.bind_error h]

/-- A caller that ignores the result sees the loop alone. -/
theorem handle_ignored (buffer : Execution.Place W Buffer) (cb : Callback W) :
    (do let _ ← handle buffer cb : EStateM Fault W Unit) = handleFrom buffer cb maxPasses := by
  rw [handle, bind_assoc]
  simp only [pure_bind]
  exact bind_pure_unit

end Loop

end LibraCore.Decoder
