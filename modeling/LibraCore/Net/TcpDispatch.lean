import LibraCore.Net.TcpClient

/-!
# A client that ends while its packets are dispatched

A refused `send` inside the packet handler ends the client, and then control comes back
through `process` into the loop of `Decoder::handle`, which goes on with the buffer of the
deleted client. `Client` stops at the first such use; here it is followed further. A `Watched`
client goes on as if its memory were still in place, and what is done with it after its end
is recorded. The handler's own later calls of `send` do nothing.

## Main results

- `Watched.onRead_eq_lift` — a read that does not use a dead client is the one of `Client`
- `Watched.late_onRead_iff` — when nothing is used after the end
-/

namespace LibraCore

open Execution (Place final bind_ok bind_error)

/-- What the read callback does with a client that has ended. -/
inductive LateUse
  | buffer
  | packet (p : List UInt8)
  | exceptError
  deriving DecidableEq, Repr

/-- A client, and what has been done with it after its end. -/
structure Watched where
  client : Client
  late : List LateUse

abbrev WatchedM := EStateM Fault Watched

namespace Watched

def place : Place Watched Client where
  get w := w.client
  put c w := { w with client := c }

/-- Record a use if it comes after the end. -/
def use (u : LateUse) (w : Watched) : Watched :=
  if w.client.alive then w else { w with late := w.late ++ [u] }

/-- `recv_buffer_`: every pass of the loop reads it, and may store it back changed. -/
def buffer : Place Watched Buffer where
  get w := w.client.recvBuffer
  put b w := { w.use .buffer with client := { w.client with recvBuffer := b } }

def send (reply : Reply) : WatchedM Unit := fun w =>
  if w.client.alive then place.run (Client.send reply) w else .ok () w

def sendEach : List Reply → WatchedM Unit
  | [] => pure ()
  | reply :: replies => do
    send reply
    sendEach replies

def react (reaction : Reaction) : WatchedM Unit := do
  sendEach reaction.sends
  place.run (Client.raise reaction.throws)

def callPacketProcessor (earlier : List (List UInt8)) (packet : List UInt8) : WatchedM Unit :=
  fun w =>
    match w.client.packetProcessor with
    | some cb => catchException (react (cb earlier packet)) (fun _ => pure ()) w
    | none => .ok () w

def process (packet : ReaderPacket) : WatchedM Unit := fun w =>
  callPacketProcessor (packets w.client.trace) packet.buffer.contents
    { w.use (.packet packet.buffer.contents) with client := w.client.hand packet.buffer.contents }

/-- The part of the read callback inside the `try`. -/
def receive (data : List UInt8) : WatchedM Unit := do
  let _ ← buffer.run (Buffer.append data)
  place.run (Client.note (.received data))
  let _ ← Decoder.handle buffer (some process)

/-- `except_error()` as the read callback calls it. -/
def exceptError : WatchedM Unit := fun w =>
  if w.client.alive then place.run Client.exceptError w else .ok () (w.use .exceptError)

/-- The callback of `read_start`, of a client that is alive when it is called. -/
def onRead (buf : Option (List UInt8)) (len : ℤ) : WatchedM Unit :=
  if buf = none ∧ len < 0 then exceptError
  else
    catchException (receive (buf.getD [])) fun e => do
      place.run (Client.note (.caught e))
      exceptError

/-! ### As long as the client is alive -/

/-- The same result, of a client that has not been used after its end. -/
def lift {α : Type} : EStateM.Result Fault Client α → EStateM.Result Fault Watched α
  | .ok a c => .ok a ⟨c, []⟩
  | .error e c => .error e ⟨c, []⟩

section Alive

variable {c : Client}

theorem place_run {α : Type} (x : ClientM α) (c : Client) :
    place.run x ⟨c, []⟩ = lift (x c) := by
  rw [Place.run]
  cases h : x c with
  | ok a c' => simp [place, h, lift]
  | error e c' => simp [place, h, lift]

theorem buffer_run {α : Type} (x : BufferM α) (halive : c.alive = true) :
    buffer.run x ⟨c, []⟩ = lift (Client.buffer.run x c) := by
  rw [Place.run, Place.run]
  cases h : x c.recvBuffer with
  | ok a b => simp [buffer, Client.buffer, use, halive, h, lift]
  | error e b => simp [buffer, Client.buffer, use, halive, h, lift]

theorem send_taken (halive : c.alive = true) {reply : Reply} (htaken : reply ≠ .refused) :
    send reply ⟨c, []⟩ = .ok () ⟨{ c with socket := c.socket.reply reply }, []⟩ := by
  rw [send, if_pos halive, place_run, Client.send_taken halive htaken]
  rfl

theorem send_refused (halive : c.alive = true) :
    send .refused ⟨c, []⟩ = .ok () ⟨{ c with socket := c.socket.reply .refused }.die, []⟩ := by
  rw [send, if_pos halive, place_run, Client.send_refused halive]
  rfl

theorem sendEach_taken {replies : List Reply} (halive : c.alive = true)
    (htaken : Reply.refused ∉ replies) :
    sendEach replies ⟨c, []⟩ = .ok () ⟨{ c with socket := c.socket.replies replies }, []⟩ := by
  induction replies generalizing c with
  | nil => rfl
  | cons reply replies ih =>
    rw [List.mem_cons, not_or] at htaken
    have hc : ({ c with socket := c.socket.reply reply } : Client).alive = true := halive
    rw [sendEach, bind_ok (send_taken halive (Ne.symm htaken.1)), ih hc htaken.2]
    rfl

/-- After its end the handler's calls of `send` do nothing. -/
theorem sendEach_dead {w : Watched} (hdead : w.client.alive = false) (replies : List Reply) :
    sendEach replies w = .ok () w := by
  induction replies with
  | nil => rfl
  | cons reply replies ih =>
    have hskip : send reply w = .ok () w := by simp [send, hdead]
    rw [sendEach, bind_ok hskip, ih]

theorem sendEach_refused {replies : List Reply} (halive : c.alive = true)
    (hrefused : Reply.refused ∈ replies) :
    ∃ socket, sendEach replies ⟨c, []⟩ = .ok () ⟨{ c with socket := socket }.die, []⟩ := by
  induction replies generalizing c with
  | nil => cases hrefused
  | cons reply replies ih =>
    by_cases hreply : reply = .refused
    · subst hreply
      refine ⟨c.socket.reply .refused, ?_⟩
      rw [sendEach, bind_ok (send_refused halive)]
      exact sendEach_dead rfl replies
    · have hrest : Reply.refused ∈ replies := by
        obtain heq | hmem := List.mem_cons.mp hrefused
        · exact absurd heq.symm hreply
        · exact hmem
      have hc : ({ c with socket := c.socket.reply reply } : Client).alive = true := halive
      obtain ⟨socket, hsocket⟩ := ih hc hrest
      refine ⟨socket, ?_⟩
      rw [sendEach, bind_ok (send_taken halive hreply), hsocket]

/-- Whatever the handler throws is caught. -/
theorem callPacketProcessor_some {cb : PacketCb} {earlier : List (List UInt8)}
    {packet : List UInt8} {w w' : Watched} (hcb : w.client.packetProcessor = some cb)
    (hsend : sendEach (cb earlier packet).sends w = .ok () w') :
    callPacketProcessor earlier packet w = .ok () w' := by
  rw [callPacketProcessor, hcb]
  cases hthrows : (cb earlier packet).throws with
  | none =>
    apply catchException_ok
    rw [react, bind_ok hsend, hthrows]
    rfl
  | some e =>
    refine (catchException_thrown (e := e) ?_).trans rfl
    rw [react, bind_ok hsend, hthrows]
    rfl

theorem process_taken {p : ReaderPacket} (halive : c.alive = true)
    (htaken : Reply.refused ∉ sendsFor c.packetProcessor (packets c.trace) [p.buffer.contents]) :
    process p ⟨c, []⟩ = lift (Client.process p c) := by
  rw [Client.process_taken halive htaken, process, use, if_pos halive]
  obtain ⟨socket, recvBuffer, packetProcessor, overCb, alive, trace⟩ := c
  cases packetProcessor with
  | none => rfl
  | some cb =>
    simp only [sendsFor, List.append_nil] at htaken ⊢
    exact callPacketProcessor_some rfl (sendEach_taken halive htaken)

theorem process_refused {p : ReaderPacket} (halive : c.alive = true)
    (hrefused : Reply.refused ∈ sendsFor c.packetProcessor (packets c.trace) [p.buffer.contents]) :
    ∃ socket, process p ⟨c, []⟩ =
      .ok () ⟨{ c.hand p.buffer.contents with socket := socket }.die, []⟩ := by
  rw [process, use, if_pos halive]
  obtain ⟨socket, recvBuffer, packetProcessor, overCb, alive, trace⟩ := c
  cases packetProcessor with
  | none => cases hrefused
  | some cb =>
    simp only [sendsFor, List.append_nil] at hrefused
    obtain ⟨socket', hsend⟩ := sendEach_refused
      (c := Client.hand p.buffer.contents ⟨socket, recvBuffer, some cb, overCb, alive, trace⟩)
      halive hrefused
    exact ⟨socket', callPacketProcessor_some rfl hsend⟩

theorem handleFrom_eq_lift (halive : c.alive = true) {n : ℕ}
    (h : ∀ c', Decoder.handleFrom Client.buffer (some Client.process) n c ≠ .error .destroyed c') :
    Decoder.handleFrom buffer (some process) n ⟨c, []⟩ =
      lift (Decoder.handleFrom Client.buffer (some Client.process) n c) := by
  induction n generalizing c with
  | zero => rfl
  | succ n ih =>
    have hrun := buffer_run Decoder.next halive
    cases hnext : Client.buffer.run Decoder.next c with
    | error e c' =>
      rw [hnext] at hrun
      rw [Decoder.handleFrom_error hnext, Decoder.handleFrom_error hrun]
      rfl
    | ok packet c' =>
      have halive' : c'.alive = true := by
        rw [Place.run] at hnext
        split at hnext <;> cases hnext
        exact halive
      rw [hnext] at hrun
      cases packet with
      | none =>
        rw [Decoder.handleFrom_none hnext, Decoder.handleFrom_none hrun]
        rfl
      | some p =>
        rw [Decoder.handleFrom_some hnext] at h ⊢
        rw [Decoder.handleFrom_some hrun]
        by_cases hsend : Reply.refused ∈
            sendsFor c'.packetProcessor (packets c'.trace) [p.buffer.contents]
        · -- the client would be used after its end
          obtain ⟨socket, hdead⟩ := Client.process_refused halive' hsend
          exact absurd (bind_error hdead) (h _)
        · have hprocess := Client.process_taken halive' hsend
          have hlift := process_taken halive' hsend
          rw [hprocess] at hlift
          rw [bind_ok (x := Decoder.invoke (some Client.process) p) hprocess] at h ⊢
          rw [bind_ok (x := Decoder.invoke (some process) p) hlift]
          exact ih halive' h

theorem receive_eq_lift (data : List UInt8) (halive : c.alive = true)
    (h : ∀ c', Client.receive data c ≠ .error .destroyed c') :
    receive data ⟨c, []⟩ = lift (Client.receive data c) := by
  have hrun := buffer_run (Buffer.append data) halive
  rw [Client.receive] at h ⊢
  rw [receive]
  cases happend : Client.buffer.run (Buffer.append data) c with
  | error e c' =>
    rw [happend] at hrun
    rw [bind_error happend, bind_error hrun]
    rfl
  | ok stored c' =>
    have halive' : c'.alive = true := by
      rw [Place.run] at happend
      split at happend <;> cases happend
      exact halive
    rw [happend] at hrun
    rw [bind_ok happend] at h ⊢
    rw [bind_ok hrun, Decoder.handle_ignored, bind_ok (place_run (Client.note (.received data)) c')]
    rw [Decoder.handle_ignored] at h ⊢
    exact handleFrom_eq_lift (c := { c' with trace := c'.trace ++ [.received data] }) halive' h

/-- A read in which the client is not used after its end is the read of `Client`. -/
theorem onRead_eq_lift {buf : Option (List UInt8)} {len : ℤ} (halive : c.alive = true)
    (h : ∀ c', Client.onRead buf len c ≠ .error .destroyed c') :
    onRead buf len ⟨c, []⟩ = lift (Client.onRead buf len c) := by
  rw [Client.onRead, bind_ok (Client.touch_alive halive)] at h ⊢
  rw [onRead]
  by_cases hfailed : buf = none ∧ len < 0
  · rw [if_pos hfailed] at h ⊢
    rw [if_pos hfailed, exceptError, if_pos halive, place_run]
  · rw [if_neg hfailed] at h ⊢
    rw [if_neg hfailed]
    cases hreceive : Client.receive (buf.getD []) c with
    | ok a c' =>
      have hrun := receive_eq_lift (buf.getD []) halive (by simp [hreceive])
      rw [hreceive] at hrun
      rw [catchException_ok hreceive, catchException_ok hrun]
      rfl
    | error f c' =>
      by_cases hdestroyed : f = .destroyed
      · subst hdestroyed
        exact absurd (catchException_destroyed hreceive) (h c')
      have hrun := receive_eq_lift (buf.getD []) halive (by simp [hreceive, hdestroyed])
      rw [hreceive] at hrun
      cases f with
      | thrown e =>
        rw [catchException_thrown hreceive] at h ⊢
        rw [catchException_thrown hrun, bind_ok (place_run (Client.note (.caught e)) c')]
        have hnote : (do Client.note (.caught e); Client.exceptError : ClientM Unit) c' =
            Client.exceptError (c'.caught e) := rfl
        rw [hnote] at h ⊢
        rw [exceptError]
        by_cases halive' : c'.alive = true
        · exact (if_pos halive').trans (place_run Client.exceptError (c'.caught e))
        · have hdead : (c'.caught e).alive = false := Bool.eq_false_iff.mpr halive'
          rw [Client.exceptError, bind_error (Client.touch_dead hdead)] at h
          exact absurd rfl (h (c'.caught e))
      | outOfBounds =>
        have hnot : ∀ e, Fault.outOfBounds ≠ .thrown e := by simp
        rw [catchException_fault hnot hreceive, catchException_fault hnot hrun]
        rfl
      | destroyed => exact absurd rfl hdestroyed
      | assertFailed =>
        have hnot : ∀ e, Fault.assertFailed ≠ .thrown e := by simp
        rw [catchException_fault hnot hreceive, catchException_fault hnot hrun]
        rfl

end Alive

/-! ### After the end -/

/-- What at most `n` passes of the loop do with a client that has ended, with `y` left in
`recv_buffer_`. -/
def lateUses (n : ℕ) (y : List UInt8) : List LateUse :=
  (Wire.drain Packet.capacity n y).1.flatMap (fun f => [.buffer, .packet f]) ++
    if (Wire.drain Packet.capacity n y).2.2 = .limit then [] else [.buffer]

theorem lateUses_ne_nil (n : ℕ) (y : List UInt8) : lateUses (n + 1) y ≠ [] := by
  have hreason := Wire.drain_reason Packet.capacity (n + 1) y
  rw [lateUses]
  by_cases hlimit : (Wire.drain Packet.capacity (n + 1) y).2.2 = .limit
  · rw [hlimit] at hreason
    obtain ⟨f, fs, hframes⟩ := List.exists_cons_of_length_eq_add_one hreason
    simp [hframes]
  · simp [hlimit]

theorem process_dead {w : Watched} (hdead : w.client.alive = false) (p : ReaderPacket) :
    ∃ w', process p w = .ok () w' ∧ w'.client.alive = false ∧
      w'.client.recvBuffer = w.client.recvBuffer ∧
      w'.late = w.late ++ [.packet p.buffer.contents] := by
  refine ⟨⟨w.client.hand p.buffer.contents, w.late ++ [.packet p.buffer.contents]⟩, ?_, hdead, rfl,
    rfl⟩
  rw [process, use, if_neg (by simp [hdead])]
  cases hcb : w.client.packetProcessor with
  | none =>
    rw [callPacketProcessor]
    simp only [Client.hand, hcb]
  | some cb =>
    apply callPacketProcessor_some (w := ⟨w.client.hand p.buffer.contents, _⟩) hcb
    exact sendEach_dead (w := ⟨w.client.hand p.buffer.contents, _⟩) hdead _

theorem handleFrom_dead {w : Watched} {cap : ℕ} {y : List UInt8} (n : ℕ)
    (hdead : w.client.alive = false) (hy : w.client.recvBuffer.HasContents cap y) :
    ∃ w', Decoder.Ends (Wire.drain Packet.capacity n y).2.2
        (Decoder.handleFrom buffer (some process) n w) w' ∧
      w'.client.alive = false ∧ w'.late = w.late ++ lateUses n y := by
  have hput (b : Buffer) (w : Watched) (hdead : w.client.alive = false) : buffer.put b w =
      ⟨{ w.client with recvBuffer := b }, w.late ++ [.buffer]⟩ := by simp [buffer, use, hdead]
  induction n, y using Wire.drain_induction Packet.capacity generalizing w with
  | zero y => exact ⟨w, rfl, hdead, (List.append_nil w.late).symm⟩
  | stop n y hstop =>
    obtain ⟨hnil, -, hlimit, -⟩ := Wire.drain_stop (n := n) hstop
    refine ⟨_, Decoder.handleFrom_stop buffer (some process) hy hstop n, ?_, ?_⟩
    · rw [hput _ w hdead]
      exact hdead
    · rw [hput _ w hdead, lateUses, hnil, if_neg hlimit]
      rfl
  | frame n f rest hf hfit ih =>
    obtain ⟨p, b, hp, hb, hstep⟩ := Decoder.handleFrom_frame buffer (some process) hy hf hfit n
    rw [hput b w hdead] at hstep
    obtain ⟨w₁, hprocess, hdead₁, hbuffer, hlate⟩ :=
      process_dead (w := ⟨{ w.client with recvBuffer := b }, w.late ++ [.buffer]⟩) hdead p
    obtain ⟨w', hends, hdead', hlate'⟩ := ih hdead₁ (hbuffer ▸ hb)
    have hframe : p.buffer.contents = f := hp.contents.contents_eq
    refine ⟨w', ?_, hdead', ?_⟩
    · rw [hstep, bind_ok (x := Decoder.invoke (some process) p) hprocess, Wire.drain_frame hf hfit]
      exact hends
    · rw [hlate', hlate, hframe, lateUses, lateUses, Wire.drain_frame hf hfit]
      simp

/-- A client that is alive and has passed on the frames `past`, with `y` left in
`recv_buffer_`; nothing has been used late. -/
structure Ready (cb : Option PacketCb) (past : List (List UInt8)) (y : List UInt8)
    (w : Watched) : Prop where
  alive : w.client.alive = true
  late : w.late = []
  processor : w.client.packetProcessor = cb
  passed : packets w.client.trace = past
  contents : w.client.recvBuffer.HasContents Client.recvCapacity y

section Ready

variable {cb : Option PacketCb} {past : List (List UInt8)} {y f : List UInt8} {w : Watched}

theorem Ready.put {z : List UInt8} {b : Buffer} (h : Ready cb past y w)
    (hb : b.HasContents Client.recvCapacity z) : Ready cb past z (buffer.put b w) := by
  have hput : buffer.put b w = ⟨{ w.client with recvBuffer := b }, w.late⟩ := by
    simp [buffer, use, h.alive]
  rw [hput]
  exact ⟨h.alive, h.late, h.processor, h.passed, hb⟩

/-- The handler gets a packet: the client is still alive behind it, or it has just ended. -/
theorem Ready.process {p : ReaderPacket} (h : Ready cb past y w) (hp : p.Holds f) :
    (Reply.refused ∉ sendsFor cb past [f] ∧
      ∃ w', Watched.process p w = .ok () w' ∧ Ready cb (past ++ [f]) y w') ∨
    (Reply.refused ∈ sendsFor cb past [f] ∧
      ∃ w', Watched.process p w = .ok () w' ∧ w'.client.alive = false ∧ w'.late = [] ∧
        w'.client.recvBuffer.HasContents Client.recvCapacity y) := by
  obtain ⟨c, late⟩ := w
  obtain ⟨halive, hlate, rfl, rfl, hy⟩ := h
  obtain rfl : late = [] := hlate
  obtain rfl : p.buffer.contents = f := hp.contents.contents_eq
  by_cases hsend : Reply.refused ∈ sendsFor c.packetProcessor (packets c.trace) [p.buffer.contents]
  · obtain ⟨socket, hrun⟩ := process_refused halive hsend
    exact .inr ⟨hsend, _, hrun, rfl, rfl, hy⟩
  · have hrun := process_taken halive hsend
    rw [Client.process_taken halive hsend] at hrun
    refine .inl ⟨hsend, _, hrun, halive, rfl, rfl, ?_, hy⟩
    exact Client.packets_hand p.buffer.contents c

/-- The loop uses the client after its end unless the packet that ends it is the last one
the counter allows. -/
theorem Ready.handleFrom (n : ℕ) (h : Ready cb past y w) :
    ∃ w', Decoder.Ends (Wire.drain Packet.capacity n y).2.2
        (Decoder.handleFrom buffer (some Watched.process) n w) w' ∧
      (w'.late = [] ↔
        Reply.refused ∉ sendsFor cb past ((Wire.drain Packet.capacity n y).1.take (n - 1))) ∧
      (w'.late = [] → w'.client.alive = true ∨
        (Wire.drain Packet.capacity n y).2.2 = .limit) ∧
      (Reply.refused ∈ sendsFor cb past (Wire.drain Packet.capacity n y).1 →
        w'.client.alive = false) := by
  induction n, y using Wire.drain_induction Packet.capacity generalizing w past with
  | zero y =>
    exact ⟨w, rfl, iff_of_true h.late List.not_mem_nil, fun _ => .inl h.alive,
      fun hrefused => absurd hrefused List.not_mem_nil⟩
  | stop n y hstop =>
    obtain ⟨hnil, -⟩ := Wire.drain_stop (n := n) hstop
    have hready := h.put h.contents
    refine ⟨_, Decoder.handleFrom_stop buffer (some Watched.process) h.contents hstop n, ?_, ?_,
      ?_⟩
    · rw [hnil, List.take_nil]
      exact iff_of_true hready.late List.not_mem_nil
    · exact fun _ => .inl hready.alive
    · rw [hnil]
      exact fun hrefused => absurd hrefused List.not_mem_nil
  | frame n f rest hf hfit ih =>
    obtain ⟨p, b, hp, hb, hstep⟩ :=
      Decoder.handleFrom_frame buffer (some Watched.process) h.contents hf hfit n
    rw [hstep, Wire.drain_frame hf hfit, Nat.add_sub_cancel]
    obtain ⟨hsend, w₁, hprocess, hready⟩ | ⟨hsend, w₁, hprocess, hdead, hlate, hrest⟩ :=
      (h.put hb).process hp
    · rw [bind_ok (x := Decoder.invoke (some Watched.process) p) hprocess]
      obtain ⟨w', hends, hiff, hend, hdead⟩ := ih hready
      refine ⟨w', hends, ?_, hend, ?_⟩
      · cases n with
        | zero => exact hiff
        | succ n =>
          rw [hiff, List.take_succ_cons, sendsFor_cons, List.mem_append, not_or,
            Nat.add_sub_cancel]
          exact (and_iff_right hsend).symm
      · rw [sendsFor_cons, List.mem_append]
        exact fun hrefused => hdead (hrefused.resolve_left hsend)
    -- the client has ended, and the passes that are left use it
    · rw [bind_ok (x := Decoder.invoke (some Watched.process) p) hprocess]
      obtain ⟨w', hends, hdead', hlate'⟩ := handleFrom_dead n hdead hrest
      rw [hlate, List.nil_append] at hlate'
      refine ⟨w', hends, ?_, ?_, fun _ => hdead'⟩
      · cases n with
        | zero => exact iff_of_true hlate' List.not_mem_nil
        | succ n =>
          rw [hlate', List.take_succ_cons, sendsFor_cons]
          exact iff_of_false (lateUses_ne_nil n rest) (not_not_intro (List.mem_append_left _ hsend))
      · cases n with
        | zero => exact fun _ => .inr rfl
        | succ n =>
          intro hnil
          exact absurd (hlate'.symm.trans hnil) (lateUses_ne_nil n rest)

end Ready

/-- `catch` in the read callback: `except_error` is called, whether the client is alive or not. -/
theorem catch_late (w : Watched) (e : Exception) :
    ∃ w', (do place.run (Client.note (.caught e)); exceptError : WatchedM Unit) w = .ok () w' ∧
      w'.late = w.late ++ (if w.client.alive then [] else [.exceptError]) ∧
      w'.client.alive = false := by
  have hnote : place.run (Client.note (.caught e)) w = .ok () ⟨w.client.caught e, w.late⟩ := rfl
  rw [bind_ok hnote, exceptError]
  by_cases halive : w.client.alive = true
  · have hend := place.run_ok (w := ⟨w.client.caught e, w.late⟩)
      (Client.exceptError_alive (c := w.client.caught e) halive)
    rw [if_pos (by exact halive), if_pos halive, List.append_nil]
    exact ⟨_, hend, rfl, rfl⟩
  · rw [if_neg (by exact halive), if_neg halive]
    exact ⟨_, rfl, by simp [use, Client.caught, halive], by simp [use, Client.caught, halive]⟩

theorem onRead_data (data : List UInt8) (len : ℤ) :
    onRead (some data) len = catchException (receive data) (fun e => do
      place.run (Client.note (.caught e))
      exceptError) := by
  rw [onRead, if_neg (by simp)]
  rfl

section Read

variable {c : Client} {x : List UInt8}

theorem receive_eq (data : List UInt8) (halive : c.alive = true)
    (hx : c.recvBuffer.HasContents Client.recvCapacity x)
    (hfit : x.length + data.length ≤ Client.recvCapacity) :
    ∃ w, Ready c.packetProcessor (packets c.trace) (x ++ data) w ∧
      receive data ⟨c, []⟩ = Decoder.handleFrom buffer (some process) Decoder.maxPasses w := by
  obtain ⟨b, happend, hb⟩ := hx.append_ok hfit
  have hstart : Ready c.packetProcessor (packets c.trace) x ⟨c, []⟩ := ⟨halive, rfl, rfl, rfl, hx⟩
  have hput := hstart.put hb
  refine ⟨⟨{ c with recvBuffer := b, trace := c.trace ++ [.received data] }, []⟩, ?_, ?_⟩
  · refine ⟨halive, rfl, rfl, ?_, hb⟩
    show packets (c.trace ++ [.received data]) = _
    rw [packets_append]
    exact List.append_nil _
  · have hrun := buffer_run (Buffer.append data) halive
    have hclient : Client.buffer.run (Buffer.append data) c = .ok true { c with recvBuffer := b } :=
      Client.buffer.run_ok happend
    rw [hclient] at hrun
    rw [receive, bind_ok hrun, bind_ok (place_run (Client.note (.received data)) _),
      Decoder.handle_ignored]

/-- What a read uses late: nothing, exactly if none of the packets before the fifth makes the
handler send something that the socket refuses. -/
theorem late_onRead_iff (halive : c.alive = true)
    (hx : c.recvBuffer.HasContents Client.recvCapacity x) (data : List UInt8) (len : ℤ) :
    (final (onRead (some data) len ⟨c, []⟩)).late = [] ↔
      (x.length + data.length ≤ Client.recvCapacity →
        Reply.refused ∉ sendsFor c.packetProcessor (packets c.trace)
          ((Wire.drain Packet.capacity Decoder.maxPasses (x ++ data)).1.take
            (Decoder.maxPasses - 1))) := by
  rw [onRead_data]
  by_cases hfit : x.length + data.length ≤ Client.recvCapacity
  · obtain ⟨w, hready, hreceive⟩ := receive_eq data halive hx hfit
    obtain ⟨w', hends, hiff, hend, -⟩ := hready.handleFrom Decoder.maxPasses
    rw [← hreceive] at hends
    rw [forall_prop_of_true hfit]
    obtain hok | ⟨e, hthrown⟩ := hends.thrown_or_ok
    · rw [catchException_ok hok]
      exact hiff
    · obtain ⟨w'', hcatch, hlate, -⟩ := catch_late w' e
      rw [catchException_thrown hthrown, hcatch, final, hlate, List.append_eq_nil_iff, hiff,
        and_iff_left_iff_imp]
      intro htaken
      -- a client that has ended with the fifth packet does not throw
      obtain halive' | hlimit := hend (hiff.mpr htaken)
      · rw [if_pos halive']
      · rw [hlimit] at hends
        cases hthrown.symm.trans hends
  · obtain ⟨e, hfull⟩ := Client.receive_full hx (Nat.lt_of_not_le hfit)
    have hthrown := receive_eq_lift data halive (by simp [hfull])
    rw [hfull] at hthrown
    obtain ⟨w'', hcatch, hlate, -⟩ := catch_late ⟨c, []⟩ e
    rw [catchException_thrown hthrown, hcatch, final, hlate]
    simp [halive, hfit]

/-- A packet of the read whose answer is refused has ended the client, whichever it is. -/
theorem ended_onRead (halive : c.alive = true)
    (hx : c.recvBuffer.HasContents Client.recvCapacity x) {data : List UInt8} (len : ℤ)
    (hfit : x.length + data.length ≤ Client.recvCapacity)
    (hrefused : Reply.refused ∈ sendsFor c.packetProcessor (packets c.trace)
      (Wire.drain Packet.capacity Decoder.maxPasses (x ++ data)).1) :
    (final (onRead (some data) len ⟨c, []⟩)).client.alive = false := by
  obtain ⟨w, hready, hreceive⟩ := receive_eq data halive hx hfit
  obtain ⟨w', hends, -, -, hdead⟩ := hready.handleFrom Decoder.maxPasses
  rw [← hreceive] at hends
  rw [onRead_data]
  obtain hok | ⟨e, hthrown⟩ := hends.thrown_or_ok
  · rw [catchException_ok hok]
    exact hdead hrefused
  · obtain ⟨w'', hcatch, -, hdead''⟩ := catch_late w' e
    rw [catchException_thrown hthrown, hcatch]
    exact hdead''

end Read

/-- A client whose handler answers every packet with one `send`, of which the one behind `n`
packets goes as `reply` says. -/
def answering (n : ℕ) (reply : Reply) : Client :=
  { Client.new with
    packetProcessor := some fun earlier _ =>
      { sends := [if earlier.length = n then reply else .accepted] } }

theorem contents_answering (n : ℕ) (reply : Reply) :
    (answering n reply).recvBuffer.HasContents Client.recvCapacity [] :=
  Buffer.hasContents_zeroed (by decide)

/-- Five packets and bytes that are no frame: the answer to the fifth packet is refused, which
ends the client, and nothing uses it afterwards. -/
theorem late_onRead_fifth :
    (final (onRead (some ((List.replicate 5 [76, 73, 0, 0, 0, 1]).flatten ++ [0, 0, 0, 0, 0, 0])) 36
      ⟨answering 4 .refused, []⟩)).client.alive = false ∧
    (final (onRead (some ((List.replicate 5 [76, 73, 0, 0, 0, 1]).flatten ++ [0, 0, 0, 0, 0, 0])) 36
      ⟨answering 4 .refused, []⟩)).late = [] := by
  have hx := contents_answering 4 .refused
  constructor
  · exact ended_onRead rfl hx 36 (by decide) (by decide)
  · exact (late_onRead_iff (c := answering 4 .refused) rfl hx _ 36).mpr fun _ => by decide

/-- Two packets and bytes that are no frame, with the answer to the first packet refused: the
second packet is passed to the handler of the dead client, its buffer is read again before and
after that, and it is ended once more. -/
theorem used_late_first_packet :
    (final (onRead (some [76, 73, 0, 0, 0, 1, 76, 73, 0, 0, 0, 2, 0, 0, 0, 0, 0, 0]) 18
      ⟨answering 0 .refused, []⟩)).late =
        [.buffer, .packet [76, 73, 0, 0, 0, 2], .buffer, .exceptError] := by
  let first : List UInt8 := [76, 73, 0, 0, 0, 1]
  let rest : List UInt8 := [76, 73, 0, 0, 0, 2, 0, 0, 0, 0, 0, 0]
  show (final (onRead (some (first ++ rest)) 18 ⟨answering 0 .refused, []⟩)).late = _
  obtain ⟨w, hready, hreceive⟩ := receive_eq (c := answering 0 .refused) (first ++ rest) rfl
    (contents_answering 0 .refused) (by decide)
  obtain ⟨p, b, hp, hb, hstep⟩ := Decoder.handleFrom_frame buffer (some process)
    (show (buffer.get w).HasContents _ (first ++ rest) from hready.contents)
    (by decide) (by decide) 4
  have hrefused : Reply.refused ∈
      sendsFor (answering 0 .refused).packetProcessor (packets (answering 0 .refused).trace)
        [[76, 73, 0, 0, 0, 1]] := List.mem_cons_self
  obtain ⟨hsend, -⟩ | ⟨-, w₁, hprocess, hdead, hlate, hrest⟩ := (hready.put hb).process hp
  · exact absurd hrefused hsend
  have hpasses : Decoder.maxPasses = 4 + 1 := rfl
  rw [bind_ok (x := Decoder.invoke (some process) p) hprocess] at hstep
  rw [hpasses, hstep] at hreceive
  obtain ⟨w', hends, hdead', hlate'⟩ := handleFrom_dead 4 hdead hrest
  have hthrown : Decoder.handleFrom buffer (some process) 4 w₁ =
      .error (.thrown Decoder.magicError) w' := hends
  obtain ⟨w'', hcatch, hlate'', -⟩ := catch_late w' Decoder.magicError
  rw [onRead_data, catchException_thrown (hreceive.trans hthrown), hcatch, final, hlate'', hlate',
    hlate, hdead']
  decide

end Watched

end LibraCore
