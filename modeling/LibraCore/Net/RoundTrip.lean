import LibraCore.Net.Decoder
import LibraCore.Net.Fields

/-!
# From a `WriterPacket` to the packet callback

The bytes of one packet arrive in any number of reads. Each read is appended to a
`DynamicBuffer(64*1024)` and followed by `Decoder::handle`, with a callback that
records the packets. The result is the packet that was written, and its fields
are read back as they were written.

## Main results

- `Inbox.feed_frame` — one frame, however it is split, is delivered once and whole
- `write_read` — the round trip over the whole wire format
-/

namespace LibraCore

/-- A receive buffer, and the packets its decoder has passed to the callback. -/
structure Inbox where
  buffer : Buffer
  packets : List ReaderPacket

namespace Inbox

def recvCapacity : ℕ := 64 * 1024

def new : Inbox := { buffer := Buffer.zeroed recvCapacity, packets := [] }

def place : Execution.Place Inbox Buffer where
  get w := w.buffer
  put b w := { w with buffer := b }

def deliver : Decoder.Callback Inbox :=
  some fun p w => .ok () { w with packets := w.packets ++ [p] }

/-- Append one read and decode. -/
def receive (data : List UInt8) : EStateM Fault Inbox Unit := do
  let _ ← place.run (Buffer.append data)
  let _ ← Decoder.handle place deliver

def feed : List (List UInt8) → EStateM Fault Inbox Unit
  | [] => pure ()
  | data :: reads => do
    receive data
    feed reads

/-- The frames `fs` have been delivered, and `c` is left in a buffer of capacity `cap`. -/
structure Delivered (cap : ℕ) (fs : List (List UInt8)) (c : List UInt8) (w : Inbox) : Prop where
  packets : List.Forall₂ ReaderPacket.Holds w.packets fs
  contents : w.buffer.HasContents cap c

theorem delivered_new : Delivered recvCapacity [] [] new :=
  ⟨List.Forall₂.nil, Buffer.hasContents_zeroed (by decide)⟩

section Spec

variable {cap : ℕ} {fs : List (List UInt8)} {c : List UInt8} {w : Inbox}

/-- The decoder delivers what `Wire.drain` takes off the front. -/
theorem decode_spec (h : Delivered cap fs c w) :
    ∃ w', Delivered cap (fs ++ (Wire.drain Packet.capacity Decoder.maxPasses c).1)
        (Wire.drain Packet.capacity Decoder.maxPasses c).2.1 w' ∧
      Decoder.Ends (Wire.drain Packet.capacity Decoder.maxPasses c).2.2
        (Decoder.handleFrom place deliver Decoder.maxPasses w) w' := by
  rcases Decoder.handleFrom_rule place deliver (F := fun _ _ _ => False)
    (fun w => rfl) (fun h => h.contents)
    (by
      intro fs f rest w p b' hI _ hp hb'
      refine .inl ⟨{ buffer := b', packets := w.packets ++ [p] }, rfl, ?_, hb'⟩
      exact List.rel_append hI.packets (List.Forall₂.cons hp List.Forall₂.nil))
    Decoder.maxPasses h with ⟨_, _, _, -, -, hF⟩ | hdone
  · exact hF.elim
  · exact hdone

/-- A read that fits is appended and decoded. -/
theorem receive_spec {data : List UInt8} (h : Delivered cap fs c w)
    (hfit : c.length + data.length ≤ cap) :
    ∃ w', Delivered cap (fs ++ (Wire.drain Packet.capacity Decoder.maxPasses (c ++ data)).1)
        (Wire.drain Packet.capacity Decoder.maxPasses (c ++ data)).2.1 w' ∧
      Decoder.Ends (Wire.drain Packet.capacity Decoder.maxPasses (c ++ data)).2.2
        (receive data w) w' := by
  obtain ⟨b, happend, hb⟩ := h.contents.append_ok hfit
  have hstart : Delivered cap fs (c ++ data) { w with buffer := b } := ⟨h.packets, hb⟩
  obtain ⟨w', hI, hends⟩ := decode_spec hstart
  refine ⟨w', hI, ?_⟩
  have hreceive : receive data w =
      Decoder.handleFrom place deliver Decoder.maxPasses { w with buffer := b } := by
    rw [receive, Execution.bind_ok (place.run_ok happend), Decoder.handle_ignored]
    rfl
  rwa [hreceive]

/-- A read that ends the stream at the end of a frame, or adds nothing. -/
theorem receive_short {gs : List (List UInt8)} {r data : List UInt8}
    (h : Delivered cap fs c w) (hfit : c.length + data.length ≤ cap)
    (hdrain : Wire.drain Packet.capacity Decoder.maxPasses (c ++ data) = (gs, r, .short)) :
    ∃ w', receive data w = .ok () w' ∧ Delivered cap (fs ++ gs) r w' := by
  obtain ⟨w', hI, hends⟩ := receive_spec h hfit
  rw [hdrain] at hI hends
  exact ⟨w', hends, hI⟩

theorem feed_empty {reads : List (List UInt8)} (h : Delivered cap fs [] w)
    (hreads : reads.flatten = []) :
    ∃ w', feed reads w = .ok () w' ∧ Delivered cap fs [] w' := by
  induction reads generalizing w with
  | nil => exact ⟨w, rfl, h⟩
  | cons data reads ih =>
    rw [List.flatten_cons] at hreads
    obtain ⟨rfl, hrest⟩ := List.append_eq_nil_iff.mp hreads
    have hempty : Wire.drain Packet.capacity Decoder.maxPasses ([] ++ []) = ([], [], .short) := rfl
    obtain ⟨w₁, hstep, h₁⟩ := receive_short h (Nat.zero_le _) hempty
    rw [List.append_nil] at h₁
    obtain ⟨w', hfeed, h'⟩ := ih h₁ hrest
    exact ⟨w', by rw [feed, Execution.bind_ok hstep, hfeed], h'⟩

/-- Some bytes of a frame that is not complete yet are left in the buffer, and
the complete frame is taken off. -/
theorem drain_part {f c z : List UInt8} (hf : Wire.IsFrame f) (hfit : f.length ≤ Packet.capacity)
    (h : c ++ z = f) {n : ℕ} (hn : 1 < n) :
    (Wire.scan c = .incomplete ∧ Wire.drain Packet.capacity n c = ([], c, .short)) ∨
    (z = [] ∧ Wire.drain Packet.capacity n c = ([f], [], .short)) := by
  obtain ⟨n, rfl⟩ : ∃ m, n = m + 1 + 1 := ⟨n - 2, by omega⟩
  cases hscan : Wire.scan c with
  | incomplete => exact .inl ⟨rfl, by simp only [Wire.drain, hscan]⟩
  | corrupt =>
    have hstream : c ++ z = [f].flatten := by simpa using h
    exact absurd hscan (Wire.scan_ne_corrupt (by simpa using hf) hstream)
  | frame g rest =>
    obtain ⟨hg, rfl⟩ := Wire.scan_eq_frame_iff.mp hscan
    have hgf : g = f := by
      refine Wire.isFrame_prefixFree (x := rest ++ z) (y := []) hg hf ?_
      rw [← List.append_assoc, h, List.append_nil]
    subst hgf
    rw [List.append_assoc, List.append_right_eq_self, List.append_eq_nil_iff] at h
    obtain ⟨rfl, rfl⟩ := h
    refine .inr ⟨rfl, ?_⟩
    rw [Wire.drain_frame hf hfit]
    rfl

/-- One frame that fits a packet is delivered once, however it is split. -/
theorem feed_frame {f : List UInt8} {reads : List (List UInt8)}
    (hf : Wire.IsFrame f) (hfit : f.length ≤ Packet.capacity) (h : Delivered recvCapacity [] c w)
    (hwait : Wire.scan c = .incomplete) (hreads : c ++ reads.flatten = f) :
    ∃ w', feed reads w = .ok () w' ∧ Delivered recvCapacity [f] [] w' := by
  induction reads generalizing c w with
  | nil =>
    rw [List.flatten_nil, List.append_nil] at hreads
    have hscan : Wire.scan (f ++ []) = .frame f [] := Wire.scan_append hf
    rw [List.append_nil, ← hreads, hwait] at hscan
    cases hscan
  | cons data reads ih =>
    rw [List.flatten_cons, ← List.append_assoc] at hreads
    have hlen : c.length + data.length ≤ recvCapacity := by
      have hle := congrArg List.length hreads
      simp only [List.length_append] at hle
      exact le_trans (by omega) hfit
    -- this read completes the frame, or the decoder goes on waiting
    rcases drain_part hf hfit hreads (show 1 < Decoder.maxPasses by decide) with
      ⟨hscan, hdrain⟩ | ⟨hrest, hdrain⟩
    · obtain ⟨w₁, hstep, h₁⟩ := receive_short h hlen hdrain
      obtain ⟨w', hfeed, h'⟩ := ih h₁ hscan hreads
      exact ⟨w', by rw [feed, Execution.bind_ok hstep, hfeed], h'⟩
    · obtain ⟨w₁, hstep, h₁⟩ := receive_short h hlen hdrain
      obtain ⟨w', hfeed, h'⟩ := feed_empty h₁ hrest
      exact ⟨w', by rw [feed, Execution.bind_ok hstep, hfeed], h'⟩

end Spec

end Inbox

/-- Writing a packet and reading it back is the identity: whatever the fields and
however the bytes are split into reads, one packet arrives, it has the command
and the length of the one that was written, reading by the types returns the
fields, and nothing is left to read. -/
theorem write_read (cmd : IntType.uint16.Val) (fields : List Field)
    (hshort : ∀ f ∈ fields, f.Short) (b : Buffer)
    (hwrite : WriterPacket.compose cmd fields (Buffer.zeroed Packet.capacity) = .ok () b) :
    ∃ b', Packet.setBodySize b = .ok true b' ∧
      ∀ reads : List (List UInt8), reads.flatten = b'.contents →
        ∃ inbox packet packet', Inbox.feed reads Inbox.new = .ok () inbox ∧
          inbox.buffer.contents = [] ∧ inbox.packets = [packet] ∧
          Packet.cmd packet.buffer = .ok cmd ∧
          (∃ n, Packet.bodySize packet.buffer = .ok n ∧ n.toNat + 6 = b'.size) ∧
          ReaderPacket.readFields (fields.map Field.type) packet = .ok fields packet' ∧
          ∀ t, ReaderPacket.readField t packet' = .error (.thrown bufferReaderStop) packet' := by
  obtain ⟨b', hset, hcontents, hlen⟩ :=
    WriterPacket.setBodySize_ok (WriterPacket.compose_of_ok hshort hwrite)
  refine ⟨b', hset, ?_⟩
  intro reads hreads
  rw [hcontents.contents_eq] at hreads
  have hframe := Wire.isFrame_frame cmd (show (encodeFields fields).length < 65536 by omega)
  obtain ⟨inbox, hfeed, hdelivered⟩ := Inbox.feed_frame (c := []) hframe hcontents.length_le
    Inbox.delivered_new rfl hreads
  obtain ⟨packet, hpackets, hholds⟩ : ∃ p, inbox.packets = [p] ∧
      p.Holds (Wire.frame cmd (encodeFields fields)) := by
    have hall := hdelivered.packets
    generalize inbox.packets = ps at hall
    cases hall with
    | cons hp hnil => cases hnil; exact ⟨_, rfl, hp⟩
  obtain ⟨n, hsize, hn⟩ := hholds.bodySize hframe
  have hstart := hholds.unread
  rw [← List.append_nil (encodeFields fields)] at hstart
  obtain ⟨packet', hread, hunread⟩ := ReaderPacket.readFields_ok hstart
  refine ⟨inbox, packet, packet', hfeed, hdelivered.contents.contents_eq, hpackets, hholds.cmd,
    ⟨n, hsize, hn.trans hcontents.size_eq.symm⟩, hread, ?_⟩
  intro t
  exact ReaderPacket.readField_stop hunread t

/-- The round trip of two fields that arrive one byte at a time. -/
theorem write_read_octets :
    ∃ b b', WriterPacket.compose 258 [.int .int16 65535, .str [104, 105]]
        (Buffer.zeroed Packet.capacity) = .ok () b ∧
      Packet.setBodySize b = .ok true b' ∧
      ∃ inbox packet packet',
        Inbox.feed (b'.contents.map fun octet => [octet]) Inbox.new = .ok () inbox ∧
        inbox.packets = [packet] ∧
        ReaderPacket.readFields [.int .int16, .str] packet =
          .ok [.int .int16 65535, .str [104, 105]] packet' := by
  have hshort : ∀ f ∈ [Field.int .int16 65535, Field.str [104, 105]], f.Short := by
    intro f hf
    simp only [List.mem_cons, List.not_mem_nil, or_false] at hf
    obtain rfl | rfl := hf
    · trivial
    · show 2 < 2 ^ 32
      decide
  obtain ⟨b, hb⟩ := WriterPacket.compose_ok 258 hshort (by decide)
  obtain ⟨b', hset, hread⟩ := write_read 258 _ hshort b hb
  obtain ⟨inbox, packet, packet', hfeed, -, hpackets, -, -, hfields, -⟩ :=
    hread (b'.contents.map fun octet => [octet]) (List.flatMap_singleton' b'.contents)
  exact ⟨b, b', hb, hset, inbox, packet, packet', hfeed, hpackets, hfields⟩

end LibraCore
