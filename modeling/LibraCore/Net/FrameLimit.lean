import LibraCore.Net.Decoder
import LibraCore.Net.TcpServer

/-!
# The largest frame

The length field of a frame names up to 65535 bytes of body. Three bounds that are written
down apart from each other decide which of these frames get through: the field itself, the
`0x10000` bytes of a `Packet`, which hold the header too, and the 64 KiB of `recv_buffer_`.

## Main results

- `Decoder.accepts_iff` — the bodies that are accepted from a buffer of any capacity
- `Decoder.accepts_of_recvBuffer` — every frame that fits the receive buffer is accepted
-/

namespace LibraCore.Decoder

open Execution (Place)

/-- Whatever the callback is: the frame at the front of the buffer is handed to it in a packet
and taken off the buffer, and `handle` goes on with the rest of its passes. -/
def Accepts (b : Buffer) (cmd : BitVec 16) (body rest : List UInt8) : Prop :=
  ∀ (W : Type) (buffer : Place W Buffer) (cb : Callback W) (w : W), buffer.get w = b →
    ∃ p b', p.Holds (Wire.frame cmd body) ∧ b'.HasContents b.capacity rest ∧
      handle buffer cb w = (do
        invoke cb p
        handleFrom buffer cb (maxPasses - 1)
        pure 0 : EStateM Fault W ℤ) (buffer.put b' w)

variable {b : Buffer} {cap : ℕ} {cmd : BitVec 16} {body rest : List UInt8}

/-- A frame that fits a packet is accepted. -/
theorem accepts_of_fits (h : b.HasContents cap (Wire.frame cmd body ++ rest))
    (hbody : body.length < 2 ^ 16) (hfit : body.length ≤ 65530) : Accepts b cmd body rest := by
  intro W buffer cb w hw
  have hpacket : (Wire.frame cmd body).length ≤ Packet.capacity := by
    rw [Wire.length_frame, Wire.headerSize, Packet.capacity]
    omega
  obtain ⟨p, b', hp, hb', hpass⟩ := handleFrom_frame buffer cb (w := w) (hw ▸ h)
    (Wire.isFrame_frame cmd hbody) hpacket (maxPasses - 1)
  have hcap : b.capacity = cap := h.capacity_eq
  refine ⟨p, b', hp, hcap ▸ hb', ?_⟩
  calc handle buffer cb w
      = ((invoke cb p >>= fun _ => handleFrom buffer cb (maxPasses - 1)) >>= fun _ => pure 0)
          (buffer.put b' w) := Execution.bind_congr hpass
    _ = _ := by rw [bind_assoc]

/-- A frame that does not fit a packet stays where it is, and `handle` throws. -/
theorem handle_oversized (h : b.HasContents cap (Wire.frame cmd body ++ rest))
    (hbody : body.length < 2 ^ 16) (hbig : 65530 < body.length) {W : Type}
    {buffer : Place W Buffer} (cb : Callback W) {w : W} (hw : buffer.get w = b) :
    ∃ e, handle buffer cb w = .error (.thrown e) (buffer.put b w) := by
  have hpacket : ¬ (Wire.frame cmd body).length ≤ Packet.capacity := by
    rw [Wire.length_frame, Wire.headerSize, Packet.capacity]
    omega
  have hnext := next_spec h
  rw [Wire.scan_append (Wire.isFrame_frame cmd hbody)] at hnext
  simp only [if_neg hpacket] at hnext
  obtain ⟨e, hnext⟩ := hnext
  subst hw
  exact ⟨e, Execution.bind_error (handleFrom_error (buffer.run_error hnext) (maxPasses - 1))⟩

theorem not_accepts_of_big (h : b.HasContents cap (Wire.frame cmd body ++ rest))
    (hbody : body.length < 2 ^ 16) (hbig : 65530 < body.length) : ¬ Accepts b cmd body rest := by
  intro haccepts
  -- a callback that fails in a way of its own tells whether it was called
  let cb : Callback Buffer := some fun _ b => .error .destroyed b
  let whole : Place Buffer Buffer := ⟨id, fun b _ => b⟩
  obtain ⟨e, hthrown⟩ := handle_oversized h hbody hbig cb (show whole.get b = b from rfl)
  obtain ⟨p, b', -, -, hcalled⟩ := haccepts Buffer whole cb b rfl
  have hinvoke : invoke cb p (whole.put b' b) = .error .destroyed (whole.put b' b) := rfl
  rw [hthrown, Execution.bind_error hinvoke] at hcalled
  cases hcalled

/-- A frame with a body of up to 65535 bytes is accepted exactly if its body has at most 65530
bytes, so that the packet has room for the header too. -/
theorem accepts_iff (h : b.HasContents cap (Wire.frame cmd body ++ rest))
    (hbody : body.length < 2 ^ 16) : Accepts b cmd body rest ↔ body.length ≤ 65530 := by
  refine ⟨fun haccepts => ?_, accepts_of_fits h hbody⟩
  by_contra hbig
  exact not_accepts_of_big h hbody (Nat.lt_of_not_le hbig) haccepts

/-- Every complete frame in the receive buffer of a client is accepted. -/
theorem accepts_of_recvBuffer
    (h : b.HasContents Client.recvCapacity (Wire.frame cmd body ++ rest)) :
    Accepts b cmd body rest := by
  have hle : 6 + body.length + rest.length ≤ 65536 := by
    have hlen := h.length_le
    rwa [List.length_append, Wire.length_frame] at hlen
  exact accepts_of_fits h (by omega) (by omega)

/-- A buffer that is full of its contents. -/
private theorem hasContents_full {c : List UInt8} (hc : c.length < sizeMod) :
    Buffer.HasContents ⟨c, c.length⟩ c.length c :=
  ⟨rfl, rfl, List.take_length, hc⟩

/-- The largest frame is accepted, with the beginning of the next one behind it. -/
theorem accepts_iff_largest :
    ∃ b : Buffer, b.HasContents b.size (Wire.frame 1 (List.replicate 65530 7) ++ [76, 73, 0]) ∧
      b.size = 65539 ∧ Accepts b 1 (List.replicate 65530 7) [76, 73, 0] := by
  have haccepts (body : List UInt8) (hbody : body.length = 65530) :
      ∃ b : Buffer, b.HasContents b.size (Wire.frame 1 body ++ [76, 73, 0]) ∧
        b.size = 65539 ∧ Accepts b 1 body [76, 73, 0] := by
    have hlen : (Wire.frame 1 body ++ [76, 73, 0]).length = 65539 := by
      rw [List.length_append, Wire.length_frame, hbody]
      rfl
    have hb := hasContents_full (c := Wire.frame 1 body ++ [76, 73, 0]) (by rw [hlen]; norm_num)
    exact ⟨_, hb, hlen, (accepts_iff hb (by rw [hbody]; norm_num)).mpr hbody.le⟩
  exact haccepts _ List.length_replicate

private theorem not_accepts_of_length (hbody : body.length = 65531) :
    ∃ b : Buffer, b.HasContents 65537 (Wire.frame cmd body) ∧ ¬ Accepts b cmd body [] := by
  have hlen : (Wire.frame cmd body).length = 65537 := by
    rw [Wire.length_frame, hbody, Wire.headerSize]
  have hb := hasContents_full (c := Wire.frame cmd body) (by rw [hlen]; norm_num)
  rw [hlen] at hb
  refine ⟨_, hb, not_accepts_of_big (by rwa [List.append_nil]) ?_ ?_⟩
  · omega
  · omega

/-- The frame of a body of 65531 bytes is not accepted. -/
theorem accepts_false_max :
    ∃ b : Buffer, b.HasContents 65537 (Wire.frame 1 (List.replicate 65531 0)) ∧
      ¬ Accepts b 1 (List.replicate 65531 0) [] :=
  not_accepts_of_length List.length_replicate

end LibraCore.Decoder
