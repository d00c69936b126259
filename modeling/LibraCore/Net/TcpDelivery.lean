import LibraCore.Net.RoundTrip
import LibraCore.Net.TcpReceive

/-!
# What a peer that sends frames can rely on

A peer sends a sequence of frames, and the network splits it into reads. Two
limits of the receive path show: a read that does not fit into what is free of
`recv_buffer_` ends the connection, and one call of `Decoder::handle` passes on at
most five packets, after which complete frames can stay behind.

## Main results

- `TcpServer.not_caught_iff_fits` — the read callback catches nothing exactly if
  every read fits the free space it finds
- `TcpServer.delivered_or_limit` — every complete frame has been passed on, unless the
  last read was worth five packets
-/

namespace LibraCore

/-- The read finds enough free space in `recv_buffer_`. -/
def Conn.Fits : Conn → Conn.Event → Prop
  | up c, .read (.data data) => data.length ≤ c.recvBuffer.freeSize
  | _, _ => True

/-- The packets passed on since the last read was appended. -/
def sinceRead (trace : List Mark) : List (List UInt8) :=
  trace.foldl (fun ps m =>
    match m with
    | .received _ => []
    | .handed p _ | .unhandled p _ => ps ++ [p]
    | _ => ps) []

theorem sinceRead_append {t ms : List Mark} (hms : ∀ m ∈ ms, m.data = none) :
    sinceRead (t ++ ms) = sinceRead t ++ packets ms := by
  induction ms generalizing t with
  | nil => simp [packets]
  | cons m ms ih =>
    have hrest : ∀ m' ∈ ms, m'.data = none := fun m' hm' => hms m' (List.mem_cons_of_mem m hm')
    rw [List.append_cons, ih hrest]
    have hm := hms m List.mem_cons_self
    cases m with
    | received data => cases hm
    | handed p rest | unhandled p rest => simp [sinceRead, packets, Mark.packet]
    | caught e => simp [sinceRead, packets, Mark.packet, List.filterMap_cons]
    | calledOver => simp [sinceRead, packets, Mark.packet, List.filterMap_cons]
    | destroyed => simp [sinceRead, packets, Mark.packet, List.filterMap_cons]

namespace Client

variable {c c' : Client} {x data : List UInt8} {r : EStateM.Result Fault Client Unit}

theorem sinceRead_afterRead (data : List UInt8) (gs : List (List UInt8)) (b : Buffer)
    (c : Client) : sinceRead (c.afterRead data gs b).trace = gs := by
  have hmarks : (c.afterRead data gs b).trace =
      (c.trace ++ [.received data]) ++
        passedMarks c.packetProcessor gs (c.recvBuffer.contents ++ data) :=
    List.append_cons _ _ _
  rw [hmarks, sinceRead_append, packets_passedMarks]
  · simp [sinceRead]
  · intro m hm
    obtain ⟨packet, rest, rfl⟩ := mem_passedMarks hm
    exact Mark.data_passed _ _ _

theorem Silent.sinceRead_eq (h : c.Silent c') : sinceRead c'.trace = sinceRead c.trace := by
  obtain ⟨ms, htrace, hms⟩ := h.marks
  have hdata : ∀ m ∈ ms, m.data = none := by
    intro m hm
    obtain rfl | rfl := hms m hm <;> rfl
  have hnil : packets ms = [] := by
    refine List.filterMap_eq_nil_iff.mpr fun m hm => ?_
    obtain rfl | rfl := hms m hm <;> rfl
  rw [htrace, sinceRead_append hdata, hnil, List.append_nil]

/-- The read callback has caught nothing. -/
def Unhurt (c : Client) : Prop := ∀ e, Mark.caught e ∉ c.trace

theorem Silent.unhurt_iff (h : c.Silent c') : c'.Unhurt ↔ c.Unhurt := by
  obtain ⟨ms, htrace, hms⟩ := h.marks
  have hnone : ∀ e, Mark.caught e ∉ ms := by
    intro e hmem
    obtain heq | heq := hms _ hmem <;> cases heq
  constructor
  · intro h' e hmem
    exact h' e (htrace ▸ List.mem_append_left _ hmem)
  · intro h' e hmem
    rw [htrace] at hmem
    obtain hmem | hmem := List.mem_append.mp hmem
    · exact h' e hmem
    · exact hnone e hmem

theorem unhurt_afterRead_iff (gs : List (List UInt8)) (b : Buffer) :
    (c.afterRead data gs b).Unhurt ↔ c.Unhurt := by
  constructor
  · intro h e hmem
    exact h e (List.mem_append_left _ hmem)
  · intro h e hmem
    obtain hmem | hmem := List.mem_append.mp hmem
    · exact h e hmem
    · obtain heq | hmem := List.mem_cons.mp hmem
      · cases heq
      · obtain ⟨packet, rest, heq⟩ := mem_passedMarks hmem
        exact Mark.caught_ne_passed heq

theorem not_unhurt_caught (e : Exception) : ¬ ((c.caught e).die).Unhurt := by
  intro h
  exact (silent_die _).unhurt_iff.mp h e (List.mem_append_right _ (List.mem_singleton_self _))

/-- Bytes of a stream of frames are left in the buffer and still to come. The decoder
finds nothing wrong with them. -/
theorem drain_of_stream {n : ℕ} {y z : List UInt8} {frames : List (List UInt8)}
    (hframes : ∀ f ∈ frames, Wire.IsFrame f ∧ f.length ≤ Packet.capacity)
    (h : y ++ z = frames.flatten) :
    (Wire.drain Packet.capacity n y).2.2 ≠ .corrupt ∧
      (Wire.drain Packet.capacity n y).2.2 ≠ .oversized := by
  obtain ⟨k, -, hrest, hcorrupt⟩ :=
    @Wire.drain_stream Packet.capacity n y z frames (fun f hf => (hframes f hf).1) h
  refine ⟨hcorrupt, ?_⟩
  intro hbig
  have hreason := Wire.drain_reason Packet.capacity n y
  rw [hbig] at hreason
  obtain ⟨f, rest, hscan, hlen⟩ := hreason
  obtain ⟨hf, hcut⟩ := Wire.scan_eq_frame_iff.mp hscan
  -- the frame that is too long would be one of the stream
  rw [hcut, List.append_assoc] at hrest
  obtain ⟨fs, hfs, -⟩ := Wire.isFrame_prefixFree.head_of_flatten hf hf.ne_nil
    (fun g hg => (hframes g (List.mem_of_mem_drop hg)).1) hrest
  have hmem : f ∈ frames := List.mem_of_mem_drop (hfs ▸ List.mem_cons_self)
  exact absurd (hframes f hmem).2 (Nat.not_le.mpr hlen)

/-- On a stream of frames, the read callback catches something exactly if the read
does not fit. -/
theorem ReadOutcome.unhurt_iff {z : List UInt8} {frames : List (List UInt8)}
    (h : c.ReadOutcome x data r) (hc : c.Unhurt)
    (hx : c.recvBuffer.HasContents recvCapacity x)
    (hframes : ∀ f ∈ frames, Wire.IsFrame f ∧ f.length ≤ Packet.capacity)
    (hstream : (x ++ data) ++ z = frames.flatten) :
    (Execution.final r).Unhurt ↔ data.length ≤ c.recvBuffer.freeSize := by
  have hfree := hx.freeSize_eq
  have hdrain := drain_of_stream (n := Decoder.maxPasses) hframes hstream
  have hlen := hx.length_le
  -- what does not fit is caught; of what fits, only a broken stream would be
  cases h with
  | full e hfull =>
    apply iff_of_false (not_unhurt_caught e)
    omega
  | refused gs y b socket hfit hgs hrefused hsplit hb =>
    refine iff_of_true ?_ (by omega)
    exact (silent_die _).unhurt_iff.mpr ((unhurt_afterRead_iff gs b).mpr hc)
  | broken e gs y stop b hfit hstopped hstop hb htaken =>
    rw [hstopped] at hdrain
    obtain rfl | rfl := hstop
    · exact absurd rfl hdrain.1
    · exact absurd rfl hdrain.2
  | decoded gs y stop b hfit hstopped hstop hb htaken =>
    exact iff_of_true ((unhurt_afterRead_iff gs b).mpr hc) (by omega)

end Client

namespace Conn

/-- The read callback of this connection has caught nothing. -/
def Unhurt (s : Conn) : Prop := ∀ c, s.client = some c → c.Unhurt

theorem unhurt_up {c : Client} : (up c).Unhurt ↔ c.Unhurt :=
  ⟨fun h => h c rfl, fun h _ hc => Option.some_inj.mp hc ▸ h⟩

theorem unhurt_down {f : Fault} {c : Client} : (down f c).Unhurt ↔ c.Unhurt :=
  ⟨fun h => h c rfl, fun h _ hc => Option.some_inj.mp hc ▸ h⟩

theorem unhurt_settle {r : EStateM.Result Fault Client Unit} :
    (settle r).Unhurt ↔ (Execution.final r).Unhurt := by
  obtain h | ⟨f, h⟩ := settle_eq r
  · rw [h, unhurt_up]
  · rw [h, unhurt_down]

end Conn

namespace TcpServer

variable {server : TcpServer}

/-- What is left in the buffer of a live client is the front of what is left of the
stream. -/
theorem stream_left {frames : List (List UInt8)} (hframes : ∀ f ∈ frames, Wire.IsFrame f)
    {es : List Conn.Event} {c : Client} (hrun : server.system.Run .listening es (.up c))
    (halive : c.alive = true) {z : List UInt8} (hstream : bytesRead es ++ z = frames.flatten) :
    ∃ fs, frames = packets c.trace ++ fs ∧ c.recvBuffer.contents ++ z = fs.flatten := by
  obtain ⟨-, hbal, -, hall⟩ := kept_of_run hrun
  rw [← hall halive, ← hbal.contents, List.append_assoc] at hstream
  exact Wire.isFrame_prefixFree.split_of_flatten
    (fun f hf => ⟨hbal.1.isFrame hf, (hbal.1.isFrame hf).ne_nil⟩) hframes hstream

theorem unhurt_connect {accept : Bool} {peername : Option Exception} :
    (server.onListen accept peername).Unhurt := by
  intro c hc
  cases accept with
  | false => cases hc
  | true =>
    cases peername with
    | none =>
      cases hc
      intro e hmem
      cases hmem
    | some e =>
      cases hc
      apply (Client.silent_die Client.new).unhurt_iff.mpr
      intro e hmem
      cases hmem

/-- One step on a stream of frames: the read callback catches something exactly if
the step is a read that does not fit. -/
theorem unhurt_step {frames : List (List UInt8)}
    (hframes : ∀ f ∈ frames, Wire.IsFrame f ∧ f.length ≤ Packet.capacity)
    {es : List Conn.Event} {s t : Conn} {e : Conn.Event}
    (hrun : server.system.Run .listening es s) (hstep : server.Step s e t)
    (hstream : bytesRead (es ++ [e]) <+: frames.flatten) (hs : s.Unhurt) :
    t.Unhurt ↔ s.Fits e := by
  cases s with
  | listening =>
    cases hstep with
    | connect accept peername => exact iff_of_true unhurt_connect trivial
  | rejected => cases hstep
  | down f c => cases hstep
  | up c =>
    obtain ⟨hin, hbal, -, -⟩ := kept_of_run hrun
    have hc := Conn.unhurt_up.mp hs
    obtain ⟨data, len, rfl, halive, rfl⟩ | ⟨hdata, c', ht, hsilent⟩ := step_up hstep hin
    · obtain ⟨x, hx, hout⟩ := hbal.readOutcome halive data len
      have hbytes : bytesRead (es ++ [.read (.data data)]) = bytesRead es ++ data :=
        bytesRead_snoc_of_data rfl
      rw [hbytes] at hstream
      obtain ⟨z, hz⟩ := hstream
      obtain ⟨fs, rfl, hrest⟩ := stream_left (fun f hf => (hframes f hf).1) hrun halive
        (show bytesRead es ++ (data ++ z) = frames.flatten by rw [← List.append_assoc, hz])
      rw [hx.contents_eq, ← List.append_assoc] at hrest
      exact Conn.unhurt_settle.trans
        (hout.unhurt_iff hc hx (fun f hf => hframes f (List.mem_append_right _ hf)) hrest)
    · have hfits : (Conn.up c).Fits e := by
        cases e with
        | read r =>
          cases r with
          | data bytes => cases hdata
          | failed n => trivial
        | _ => trivial
      refine iff_of_true ?_ hfits
      obtain rfl | ⟨f, rfl⟩ := ht
      · exact Conn.unhurt_up.mpr (hsilent.unhurt_iff.mpr hc)
      · exact Conn.unhurt_down.mpr (hsilent.unhurt_iff.mpr hc)

/-- Nothing that was caught is forgotten. -/
theorem unhurt_of_step {s t : Conn} {e : Conn.Event} {es : List Conn.Event}
    (hrun : server.system.Run .listening es s) (hstep : server.Step s e t) (ht : t.Unhurt) :
    s.Unhurt := by
  cases s with
  | listening => intro c hc; cases hc
  | rejected => intro c hc; cases hc
  | down f c => cases hstep
  | up c =>
    obtain ⟨hin, hbal, -, -⟩ := kept_of_run hrun
    rw [Conn.unhurt_up]
    obtain ⟨data, len, rfl, halive, rfl⟩ | ⟨hdata, c', ht', hsilent⟩ := step_up hstep hin
    · obtain ⟨x, hx, hout⟩ := hbal.readOutcome halive data len
      have hfinal := Conn.unhurt_settle.mp ht
      generalize Client.onRead (some data) len c = r at hout hfinal
      cases hout with
      | full e hfull => exact absurd hfinal (Client.not_unhurt_caught e)
      | refused gs y b socket hfit hgs hrefused hsplit hb =>
        exact (Client.unhurt_afterRead_iff gs b).mp ((Client.silent_die _).unhurt_iff.mp hfinal)
      | broken e gs y stop b hfit hdrain hstop hb htaken =>
        exact absurd hfinal (Client.not_unhurt_caught e)
      | decoded gs y stop b hfit hdrain hstop hb htaken =>
        exact (Client.unhurt_afterRead_iff gs b).mp hfinal
    · obtain rfl | ⟨f, rfl⟩ := ht'
      · exact hsilent.unhurt_iff.mp (Conn.unhurt_up.mp ht)
      · exact hsilent.unhurt_iff.mp (Conn.unhurt_down.mp ht)

theorem unhurt_of_fits {frames : List (List UInt8)}
    (hframes : ∀ f ∈ frames, Wire.IsFrame f ∧ f.length ≤ Packet.capacity)
    {es : List Conn.Event} {s : Conn} (hrun : (server.system.guard Conn.Fits).Run .listening es s)
    (hstream : bytesRead es <+: frames.flatten) : s.Unhurt := by
  induction hrun with
  | nil =>
    intro c hc
    cases hc
  | snoc hrun hstep ih =>
    have hs := ih ((prefix_bytesRead _ _).trans hstream)
    exact (unhurt_step hframes hrun.of_guard hstep.2 hstream hs).mpr hstep.1

/-- A peer that sends frames of at most 65536 bytes: the receive path throws nothing
in a run exactly if every read of the run fits the free space it finds. -/
theorem not_caught_iff_fits (server : TcpServer) {frames : List (List UInt8)}
    (hframes : ∀ f ∈ frames, Wire.IsFrame f ∧ f.length ≤ 65536) {es : List Conn.Event} {s : Conn}
    (hrun : server.system.Run .listening es s) (hstream : bytesRead es <+: frames.flatten) :
    s.Unhurt ↔ (server.system.guard Conn.Fits).Run .listening es s := by
  refine ⟨?_, fun hguard => unhurt_of_fits hframes hguard hstream⟩
  induction hrun with
  | nil => exact fun _ => .nil _
  | snoc hrun hstep ih =>
    intro ht
    have hs := unhurt_of_step hrun hstep ht
    exact (ih ((prefix_bytesRead _ _).trans hstream) hs).guard_snoc
      ((unhurt_step hframes hrun hstep hstream hs).mp ht) hstep

/-- Two reads that fit, after which nothing has been caught, although the packet callback
throws. -/
theorem fits_two_reads :
    ∃ c, (answering.system.guard Conn.Fits).Run .listening
        [.connect true none, .read (.data [76, 73, 0]), .read (.data [1, 0, 7, 9, 76])] (.up c) ∧
      handedPackets c.trace = [[76, 73, 0, 1, 0, 7, 9]] := by
  obtain ⟨c, hrun, htrace, -⟩ := run_two_reads
  have hframes : ∀ f ∈ [[76, 73, 0, 1, 0, 7, 9], [76, 73, 0, 0, 0, 0]],
      Wire.IsFrame f ∧ f.length ≤ 65536 := by decide
  refine ⟨c, (not_caught_iff_fits answering hframes hrun (by decide)).mp ?_, by rw [htrace]; rfl⟩
  rw [Conn.unhurt_up]
  intro e hmem
  rw [htrace] at hmem
  simp at hmem

end TcpServer

/-! ### Complete frames that stay behind -/

/-- Nothing complete is left at the front of the buffer, or the last read was worth
five packets. -/
def Client.Settled (c : Client) : Prop :=
  (sinceRead c.trace).length = Decoder.maxPasses ∨
    Wire.scan c.recvBuffer.contents = .incomplete

theorem Client.ReadOutcome.settled {c : Client} {x data : List UInt8}
    {r : EStateM.Result Fault Client Unit} (h : c.ReadOutcome x data r)
    (halive : (Execution.final r).alive = true) : (Execution.final r).Settled := by
  have hreason := Wire.drain_reason Packet.capacity Decoder.maxPasses (x ++ data)
  cases h with
  | decoded gs y stop b hfit hdrain hstop hb htaken =>
    rw [hdrain] at hreason
    obtain rfl | rfl := hstop
    · right
      show Wire.scan b.contents = .incomplete
      rw [hb.contents_eq]
      exact hreason
    · left
      show (sinceRead (c.afterRead data gs b).trace).length = _
      rw [Client.sinceRead_afterRead]
      exact hreason
  | _ => cases halive

def Conn.Settled : Conn → Prop
  | up c => c.alive = true → c.Settled
  | _ => True

namespace TcpServer

variable {server : TcpServer}

theorem settled_step {bytes : List UInt8} {s t : Conn} {e : Conn.Event}
    (hstep : server.Step s e t) (hkept : s.Kept bytes) (hs : s.Settled) : t.Settled := by
  cases s with
  | listening =>
    cases hstep with
    | connect accept peername =>
      cases accept with
      | false => trivial
      | true =>
        cases peername with
        | none => exact fun _ => .inr rfl
        | some e => trivial
  | rejected => cases hstep
  | down f c => cases hstep
  | up c =>
    obtain ⟨hin, hbal, -, -⟩ := hkept
    obtain ⟨data, len, rfl, halive, rfl⟩ | ⟨hdata, c', ht, hsilent⟩ := step_up hstep hin
    · obtain ⟨x, hx, hout⟩ := hbal.readOutcome halive data len
      obtain h | ⟨f, h⟩ := Conn.settle_eq (Client.onRead (some data) len c)
      · rw [h]
        exact hout.settled
      · rw [h]
        trivial
    · obtain rfl | ⟨f, rfl⟩ := ht
      · intro halive
        have hc := hs (hsilent.alive halive)
        rw [Client.Settled, hsilent.sinceRead_eq, hsilent.buffer]
        exact hc
      · trivial

theorem settled_of_run {es : List Conn.Event} {s : Conn}
    (hrun : server.system.Run .listening es s) : s.Settled := by
  have hboth : s.Kept (bytesRead es) ∧ s.Settled := by
    refine hrun.history (P := fun es s => s.Kept (bytesRead es) ∧ s.Settled) ?_ ⟨rfl, trivial⟩
    rintro es s e t hstep ⟨hkept, hs⟩
    exact ⟨kept_step hstep hkept, settled_step hstep hkept hs⟩
  exact hboth.2

/-- The complete frames of what was received have been passed on if nothing complete
is left in the buffer. -/
theorem delivered_of_incomplete {frames : List (List UInt8)}
    (hframes : ∀ f ∈ frames, Wire.IsFrame f) {es : List Conn.Event} {c : Client}
    (hrun : server.system.Run .listening es (.up c)) (halive : c.alive = true)
    (hstream : bytesRead es <+: frames.flatten)
    (hscan : Wire.scan c.recvBuffer.contents = .incomplete) {k : ℕ}
    (hk : (frames.take k).flatten <+: bytesRead es) : frames.take k <+: packets c.trace := by
  obtain ⟨-, hbal, -, hall⟩ := kept_of_run hrun
  obtain ⟨z, hz⟩ := hstream
  obtain ⟨fs, rfl, hrest⟩ := stream_left hframes hrun halive hz
  by_cases hle : k ≤ (packets c.trace).length
  · rw [List.take_append_of_le_length hle]
    exact List.take_prefix _ _
  · cases fs with
    | nil =>
      rw [List.append_nil]
      exact List.take_prefix _ _
    | cons f fs =>
      -- the next frame would be complete in the buffer
      obtain ⟨m, hm⟩ : ∃ m, k = (packets c.trace).length + (m + 1) :=
        ⟨k - (packets c.trace).length - 1, by omega⟩
      rw [hm, List.take_length_add_append, List.take_succ_cons, List.flatten_append,
        ← hall halive, ← hbal.contents, List.prefix_append_right_inj, List.flatten_cons] at hk
      obtain ⟨u, hu⟩ := (List.prefix_append f _).trans hk
      have hf : Wire.IsFrame f := hframes f (by simp)
      rw [← hu, Wire.scan_append hf] at hscan
      cases hscan

/-- A call that returns after fewer than five packets has stopped in front of a frame that
is not complete. -/
theorem no_frame_left {b : Buffer} {cap : ℕ} {x : List UInt8} {n : ℤ} {w : Inbox}
    (hx : b.HasContents cap x)
    (hhandle : Decoder.handle Inbox.place Inbox.deliver { buffer := b, packets := [] } = .ok n w)
    (hfew : w.packets.length < 5) :
    ¬ ∃ f rest, Wire.IsFrame f ∧ w.buffer.contents = f ++ rest := by
  rintro ⟨f, rest, hf, hcontents⟩
  have hstart : Inbox.Delivered cap [] x { buffer := b, packets := [] } :=
    ⟨List.Forall₂.nil, hx⟩
  obtain ⟨w', hdelivered, hends⟩ := Inbox.decode_spec hstart
  have hreason := Wire.drain_reason Packet.capacity Decoder.maxPasses x
  obtain ⟨gs, y, stop, hdrain⟩ : ∃ gs y stop,
      Wire.drain Packet.capacity Decoder.maxPasses x = (gs, y, stop) := ⟨_, _, _, rfl⟩
  rw [hdrain] at hdelivered hends hreason
  rw [Decoder.handle_eq] at hhandle
  obtain hloop | ⟨e, hloop⟩ := hends.thrown_or_ok
  · rw [hloop] at hhandle
    cases hhandle
    have hlen : w.packets.length = gs.length := hdelivered.packets.length_eq
    have hy : w.buffer.contents = y := hdelivered.contents.contents_eq
    -- of the four reasons to stop, two throw and one takes five packets
    cases stop with
    | short =>
      have hscan : Wire.scan y = .incomplete := hreason
      rw [← hy, hcontents, Wire.scan_append hf] at hscan
      cases hscan
    | limit =>
      have hfive : gs.length = 5 := hreason
      omega
    | corrupt => cases hloop.symm.trans hends
    | oversized =>
      obtain ⟨e, hends⟩ := hends
      cases hloop.symm.trans hends
  · rw [hloop] at hhandle
    cases hhandle

/-- However the bytes of a sequence of frames are split, every frame that has arrived
in full has been passed on, and the packet callback called with it if there is one, unless
the last read was worth five packets. A call of `Decoder::handle` that returns after fewer
than five packets leaves no complete frame at the front of the buffer. -/
theorem delivered_or_limit (server : TcpServer) :
    (∀ (frames : List (List UInt8)) es c, (∀ f ∈ frames, Wire.IsFrame f) →
      server.system.Run .listening es (.up c) → c.alive = true →
      bytesRead es <+: frames.flatten →
      ((sinceRead c.trace).length = 5 ∨
        ∀ k, (frames.take k).flatten <+: bytesRead es → frames.take k <+: packets c.trace) ∧
      (server.packetCb.isSome = true → handedPackets c.trace = packets c.trace)) ∧
    ∀ (b : Buffer) cap x n w, b.HasContents cap x →
      Decoder.handle Inbox.place Inbox.deliver { buffer := b, packets := [] } = .ok n w →
      w.packets.length < 5 → ¬ ∃ f rest, Wire.IsFrame f ∧ w.buffer.contents = f ++ rest := by
  constructor
  · intro frames es c hframes hrun halive hstream
    refine ⟨?_, handedPackets_of_run hrun rfl⟩
    obtain hlimit | hscan := settled_of_run hrun halive
    · exact .inl hlimit
    · exact .inr fun k hk => delivered_of_incomplete hframes hrun halive hstream hscan hk
  · intro b cap x n w hx hhandle hfew
    exact no_frame_left hx hhandle hfew

/-- Six empty frames in one read: the sixth stays behind, complete. -/
theorem sixth_frame_stays :
    ∃ es c, answering.system.Run .listening es (.up c) ∧ c.alive = true ∧
      bytesRead es = (List.replicate 6 [76, 73, 0, 0, 0, 0]).flatten ∧
      packets c.trace = List.replicate 5 [76, 73, 0, 0, 0, 0] ∧
      c.recvBuffer.contents = [76, 73, 0, 0, 0, 0] ∧ Wire.IsFrame [76, 73, 0, 0, 0, 0] := by
  have hconnect : answering.Step .listening (.connect true none) (.up answering.accepted) :=
    Step.connect true none
  have hdrain : Wire.drain Packet.capacity Decoder.maxPasses
      ([] ++ (List.replicate 6 [76, 73, 0, 0, 0, 0]).flatten) =
      (List.replicate 5 [76, 73, 0, 0, 0, 0], [76, 73, 0, 0, 0, 0], .limit) := by decide
  obtain ⟨b, hb, hread⟩ := read_decoded answering (c := answering.accepted) rfl rfl
    (Buffer.hasContents_zeroed (by decide)) (by decide) hdrain (.inr rfl) (by decide)
  refine ⟨_, _, (Transition.System.Run.single (M := answering.system) hconnect).snoc hread, rfl,
    rfl, ?_, hb.contents_eq, by decide⟩
  rw [Client.packets_afterRead]
  rfl

/-- The packet callback has been called with the frame of the run of two reads. -/
theorem delivered_two_reads :
    ∃ c, answering.system.Run .listening
        [.connect true none, .read (.data [76, 73, 0]), .read (.data [1, 0, 7, 9, 76])] (.up c) ∧
      [[76, 73, 0, 1, 0, 7, 9]] <+: handedPackets c.trace := by
  obtain ⟨c, hrun, htrace, halive, -⟩ := run_two_reads
  have hframes : ∀ f ∈ [[76, 73, 0, 1, 0, 7, 9], [76, 73, 0, 0, 0, 0]], Wire.IsFrame f := by
    decide
  refine ⟨c, hrun, ?_⟩
  obtain ⟨hpassed, hhanded⟩ :=
    (delivered_or_limit answering).1 _ _ c hframes hrun halive (by decide)
  rw [hhanded rfl]
  obtain hlimit | hall := hpassed
  · rw [htrace] at hlimit
    exact absurd hlimit (by decide)
  · exact hall 1 (by decide)

/-- A frame of 65536 bytes whose first byte arrives by itself, and then a read of
65536 bytes. -/
theorem full_read_caught :
    ∃ (f g : List UInt8) (es : List Conn.Event) (c : Client),
      Wire.IsFrame f ∧ f.length ≤ 65536 ∧ Wire.IsFrame g ∧ g.length ≤ 65536 ∧
      (system ⟨none, none⟩).Run .listening es (.up c) ∧ bytesRead es <+: [f, g].flatten ∧
      (∀ e ∈ es, ∀ data, e.data = some data → 1 ≤ data.length ∧ data.length ≤ 65536) ∧
      c.alive = false ∧ ∃ e, Mark.caught e ∈ c.trace := by
  -- a frame of the greatest size a packet can hold
  have hlen : (Wire.frame 0 (List.replicate 65530 0)).length = 65536 := by
    rw [Wire.length_frame, List.length_replicate]
    rfl
  have hf : Wire.IsFrame (Wire.frame 0 (List.replicate 65530 0)) :=
    Wire.isFrame_frame 0 (by rw [List.length_replicate]; decide)
  generalize Wire.frame 0 (List.replicate 65530 0) = f at hlen hf
  obtain ⟨t, rfl⟩ : ∃ t, f = 76 :: t := by
    cases f with
    | nil => exact absurd rfl hf.ne_nil
    | cons a t => exact ⟨t, by rw [(List.cons.inj hf.1).1]⟩
  have hconnect : Step ⟨none, none⟩ .listening (.connect true none) (.up (accepted ⟨none, none⟩)) :=
    Step.connect true none
  have hdrain : Wire.drain Packet.capacity Decoder.maxPasses ([] ++ [76]) = ([], [76], .short) := by
    decide
  obtain ⟨b, hb, hread⟩ := read_decoded ⟨none, none⟩ (c := accepted ⟨none, none⟩) rfl rfl
    (Buffer.hasContents_zeroed (by decide)) (by decide) hdrain (.inl rfl) List.not_mem_nil
  -- one byte is in the way of the next read
  let c := (accepted ⟨none, none⟩).afterRead [76] [] b
  have htail : t.length = 65535 := Nat.succ_inj.mp hlen
  have hout : c.ReadOutcome [76] (t ++ [76])
      (Client.onRead (some (t ++ [76])) (t ++ [76]).length c) := Client.onRead_outcome rfl hb
  obtain ⟨e, hrun⟩ := hout.of_full (by
    simp only [List.length_append, htail, List.length_singleton]
    decide)
  have hstep : Step ⟨none, none⟩ (.up c) (.read (.data (t ++ [76])))
      (.settle (Client.onRead (some (t ++ [76])) (t ++ [76]).length c)) :=
    Step.read c (.data (t ++ [76])) rfl
  rw [hrun] at hstep
  refine ⟨76 :: t, [76, 73, 0, 0, 0, 0],
    [.connect true none, .read (.data [76]), .read (.data (t ++ [76]))], (c.caught e).die, hf,
    hlen.le, by decide, by decide,
    ((Transition.System.Run.single (M := system ⟨none, none⟩) hconnect).snoc hread).snoc hstep,
    ?_, ?_, rfl, e, ?_⟩
  · exact ⟨[73, 0, 0, 0, 0], by simp [bytesRead, Conn.Event.data, List.filterMap_cons]⟩
  · intro e he data hdata
    simp only [List.mem_cons, List.not_mem_nil, or_false] at he
    obtain rfl | rfl | rfl := he
    · cases hdata
    · cases hdata
      decide
    · cases hdata
      simp [htail]
  · exact List.mem_append_left _ (List.mem_append_left _ (List.mem_append_right _
      (List.mem_singleton_self _)))

end TcpServer

end LibraCore
