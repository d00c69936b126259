import LibraCore.Net.TcpServer

/-!
# What the members of a `Client` do

The state in which each member function and each stored callback leaves a client
that is alive, given in full, so that later files need not look at the definitions
again. A client ends through `Client.die`; a refused `send` from inside the packet
callback ends it under the callback, and the callback then runs on a destroyed
client.
-/

namespace LibraCore

/-- The socket after the writes of a sequence of `send` calls. -/
def Stream.reply (s : Stream ClientCallback) : Reply → Stream ClientCallback
  | .inactive => s
  | .accepted => (s.write .sent true).2
  | .refused => (s.write .sent false).2

def Stream.replies (s : Stream ClientCallback) (rs : List Reply) : Stream ClientCallback :=
  rs.foldl Stream.reply s

/-- The calls of `send` a packet callback makes for the packets `fs`, after `past`. -/
def sendsFor (cb : Option PacketCb) (past : List (List UInt8)) : List (List UInt8) → List Reply
  | [] => []
  | f :: fs =>
    (match cb with
      | some cb => (cb past f).sends
      | none => []) ++ sendsFor cb (past ++ [f]) fs

/-- The mark of a packet, which is handed to the packet callback if there is one. -/
def Mark.passed (cb : Option PacketCb) (packet rest : List UInt8) : Mark :=
  match cb with
  | some _ => .handed packet rest
  | none => .unhandled packet rest

/-- The marks of the frames `fs` that are taken off the front of `y`. -/
def passedMarks (cb : Option PacketCb) : List (List UInt8) → List UInt8 → List Mark
  | [], _ => []
  | f :: fs, y => .passed cb f (y.drop f.length) :: passedMarks cb fs (y.drop f.length)

theorem sendsFor_append (cb : Option PacketCb) (past fs gs : List (List UInt8)) :
    sendsFor cb past (fs ++ gs) = sendsFor cb past fs ++ sendsFor cb (past ++ fs) gs := by
  induction fs generalizing past with
  | nil => simp [sendsFor]
  | cons f fs ih => simp [sendsFor, ih, List.append_assoc]

theorem sendsFor_cons (cb : Option PacketCb) (past : List (List UInt8)) (f : List UInt8)
    (fs : List (List UInt8)) :
    sendsFor cb past (f :: fs) = sendsFor cb past [f] ++ sendsFor cb (past ++ [f]) fs :=
  sendsFor_append cb past [f] fs

theorem passedMarks_append (cb : Option PacketCb) (fs gs : List (List UInt8)) (y : List UInt8) :
    passedMarks cb (fs ++ gs) (fs.flatten ++ y) =
      passedMarks cb fs (fs.flatten ++ y) ++ passedMarks cb gs y := by
  induction fs with
  | nil => rfl
  | cons f fs ih =>
    simp only [List.cons_append, passedMarks, List.flatten_cons, List.append_assoc,
      List.drop_left, ih]

theorem Mark.caught_ne_passed {e : Exception} {cb : Option PacketCb} {packet rest : List UInt8} :
    Mark.caught e ≠ .passed cb packet rest := by
  cases cb <;> simp [Mark.passed]

theorem Mark.passed_ne_calledOver {cb : Option PacketCb} {packet rest : List UInt8} :
    Mark.passed cb packet rest ≠ .calledOver := by
  cases cb <;> simp [Mark.passed]

theorem Mark.passed_ne_destroyed {cb : Option PacketCb} {packet rest : List UInt8} :
    Mark.passed cb packet rest ≠ .destroyed := by
  cases cb <;> simp [Mark.passed]

theorem Mark.packet_passed (cb : Option PacketCb) (packet rest : List UInt8) :
    (Mark.passed cb packet rest).packet = some packet := by
  cases cb <;> rfl

theorem Mark.data_passed (cb : Option PacketCb) (packet rest : List UInt8) :
    (Mark.passed cb packet rest).data = none := by
  cases cb <;> rfl

/-- Only packets are marked. -/
theorem mem_passedMarks {cb : Option PacketCb} {gs : List (List UInt8)} {y : List UInt8} {m : Mark}
    (hm : m ∈ passedMarks cb gs y) : ∃ packet rest, m = .passed cb packet rest := by
  induction gs generalizing y with
  | nil => cases hm
  | cons g gs ih =>
    obtain rfl | hm := List.mem_cons.mp hm
    · exact ⟨g, _, rfl⟩
    · exact ih hm

theorem packets_append (s t : List Mark) : packets (s ++ t) = packets s ++ packets t :=
  List.filterMap_append

theorem receivedBytes_append (s t : List Mark) :
    receivedBytes (s ++ t) = receivedBytes s ++ receivedBytes t := by
  rw [receivedBytes, List.filterMap_append, List.flatten_append]
  rfl

@[simp]
theorem packets_passedMarks (cb : Option PacketCb) (fs : List (List UInt8)) (y : List UInt8) :
    packets (passedMarks cb fs y) = fs := by
  induction fs generalizing y with
  | nil => rfl
  | cons f fs ih =>
    rw [passedMarks, packets, List.filterMap_cons_some (Mark.packet_passed cb f _)]
    exact congrArg (f :: ·) (ih _)

/-- A packet callback is called with every packet. -/
theorem handedPackets_passedMarks {cb : Option PacketCb} (hcb : cb.isSome = true)
    (fs : List (List UInt8)) (y : List UInt8) : handedPackets (passedMarks cb fs y) = fs := by
  obtain ⟨cb, rfl⟩ := Option.isSome_iff_exists.mp hcb
  induction fs generalizing y with
  | nil => rfl
  | cons f fs ih => exact congrArg (f :: ·) (ih _)

@[simp]
theorem receivedBytes_passedMarks (cb : Option PacketCb) (fs : List (List UInt8))
    (y : List UInt8) : receivedBytes (passedMarks cb fs y) = [] := by
  induction fs generalizing y with
  | nil => rfl
  | cons f fs ih =>
    rw [passedMarks, receivedBytes, List.filterMap_cons_none (Mark.data_passed cb f _)]
    exact ih _

namespace Client

/-- The marks of `over_cb_`, if it is set. -/
def overMarks (c : Client) : List Mark := if c.overCb.isSome then [.calledOver] else []

/-- The client after `except_error`. -/
def die (c : Client) : Client :=
  { c with
    socket := c.socket.close .closed
    alive := false
    trace := c.trace ++ c.overMarks ++ [.destroyed] }

variable {c : Client}

@[simp]
theorem ask_bind {α β : Type} (f : Client → α) (k : α → ClientM β) (c : Client) :
    (ask f >>= k) c = k (f c) c := rfl

@[simp]
theorem update_bind {β : Type} (f : Client → Client) (k : Unit → ClientM β) (c : Client) :
    (update f >>= k) c = k () (f c) := rfl

theorem touch_alive (h : c.alive = true) : touch c = .ok () c := by
  rw [touch, if_pos h]

theorem touch_dead (h : c.alive = false) : touch c = .error .destroyed c := by
  rw [touch, h]
  rfl

theorem callOver_eq (c : Client) :
    callOver c = .ok () { c with trace := c.trace ++ c.overMarks } := by
  obtain ⟨socket, recvBuffer, packetProcessor, overCb, alive, trace⟩ := c
  rw [callOver, ask_bind]
  cases overCb with
  | none => simp [overMarks]; rfl
  | some throws =>
    cases throws with
    | none =>
      apply catchException_ok
      rw [note, update_bind]
      rfl
    | some e =>
      refine (catchException_thrown (e := e) ?_).trans rfl
      rw [note, update_bind]
      rfl

theorem exceptError_alive (h : c.alive = true) : exceptError c = .ok () c.die := by
  rw [exceptError, Execution.bind_ok (touch_alive h), update_bind,
    Execution.bind_ok (callOver_eq _)]
  rfl

/-- A `send` that is not refused. -/
theorem send_taken (h : c.alive = true) {reply : Reply} (htaken : reply ≠ .refused) :
    send reply c = .ok () { c with socket := c.socket.reply reply } := by
  rw [send, Execution.bind_ok (touch_alive h)]
  cases reply with
  | inactive => rfl
  | accepted => rfl
  | refused => exact absurd rfl htaken

theorem send_refused (h : c.alive = true) :
    send .refused c = .ok () { c with socket := c.socket.reply .refused }.die := by
  rw [send, Execution.bind_ok (touch_alive h)]
  exact exceptError_alive (c := { c with socket := c.socket.reply .refused }) h

theorem send_dead (h : c.alive = false) (reply : Reply) :
    send reply c = .error .destroyed c := by
  rw [send, Execution.bind_error (touch_dead h)]

/-- The packet callback gets through its `send` calls if none is refused. -/
theorem sendAll_taken {replies : List Reply} (h : c.alive = true)
    (htaken : Reply.refused ∉ replies) :
    sendAll replies c = .ok () { c with socket := c.socket.replies replies } := by
  induction replies generalizing c with
  | nil => rfl
  | cons reply replies ih =>
    rw [List.mem_cons, not_or] at htaken
    have hc : ({ c with socket := c.socket.reply reply } : Client).alive = true := h
    rw [sendAll, Execution.bind_ok (send_taken h (Ne.symm htaken.1)),
      Execution.bind_ok (touch_alive hc), ih hc htaken.2]
    rfl

theorem sendAll_refused {replies : List Reply} (h : c.alive = true)
    (hrefused : Reply.refused ∈ replies) :
    ∃ socket, sendAll replies c = .error .destroyed { c with socket := socket }.die := by
  induction replies generalizing c with
  | nil => cases hrefused
  | cons reply replies ih =>
    by_cases hreply : reply = .refused
    · subst hreply
      refine ⟨c.socket.reply .refused, ?_⟩
      rw [sendAll, Execution.bind_ok (send_refused h)]
      exact Execution.bind_error (touch_dead rfl)
    · have hrest : Reply.refused ∈ replies := by
        obtain heq | hmem := List.mem_cons.mp hrefused
        · exact absurd heq.symm hreply
        · exact hmem
      have hc : ({ c with socket := c.socket.reply reply } : Client).alive = true := h
      obtain ⟨socket, hsocket⟩ := ih hc hrest
      refine ⟨socket, ?_⟩
      rw [sendAll, Execution.bind_ok (send_taken h hreply), Execution.bind_ok (touch_alive hc),
        hsocket]

/-- A client that has passed `packet` to its packet callback, if it has one. -/
def hand (packet : List UInt8) (c : Client) : Client :=
  { c with trace := c.trace ++ [.passed c.packetProcessor packet c.recvBuffer.contents] }

theorem packets_hand (packet : List UInt8) (c : Client) :
    packets (c.hand packet).trace = packets c.trace ++ [packet] := by
  rw [hand, packets_append]
  cases c.packetProcessor <;> rfl

/-- Whatever the packet callback throws is caught. -/
theorem callPacketProcessor_taken {earlier : List (List UInt8)} {packet : List UInt8}
    (h : c.alive = true)
    (htaken : Reply.refused ∉ sendsFor c.packetProcessor earlier [packet]) :
    callPacketProcessor earlier packet c = .ok () { c.hand packet with
      socket := c.socket.replies (sendsFor c.packetProcessor earlier [packet]) } := by
  rw [callPacketProcessor, ask_bind, ask_bind]
  obtain ⟨socket, recvBuffer, packetProcessor, overCb, alive, trace⟩ := c
  cases packetProcessor with
  | none => rfl
  | some cb =>
    simp only [sendsFor, List.append_nil, note, update_bind] at htaken ⊢
    have hsend := sendAll_taken
      (c := Client.hand packet ⟨socket, recvBuffer, some cb, overCb, alive, trace⟩) h htaken
    cases hthrows : (cb earlier packet).throws with
    | none =>
      apply catchException_ok
      rw [react, hthrows]
      exact Execution.bind_ok hsend
    | some e =>
      refine (catchException_thrown (e := e) ?_).trans rfl
      rw [react, hthrows]
      exact Execution.bind_ok hsend

theorem callPacketProcessor_refused {earlier : List (List UInt8)} {packet : List UInt8}
    (h : c.alive = true)
    (hrefused : Reply.refused ∈ sendsFor c.packetProcessor earlier [packet]) :
    ∃ socket, callPacketProcessor earlier packet c =
      .error .destroyed { c.hand packet with socket := socket }.die := by
  rw [callPacketProcessor, ask_bind, ask_bind]
  obtain ⟨socket, recvBuffer, packetProcessor, overCb, alive, trace⟩ := c
  cases packetProcessor with
  | none => cases hrefused
  | some cb =>
    simp only [sendsFor, List.append_nil, note, update_bind] at hrefused ⊢
    obtain ⟨socket', hsend⟩ := sendAll_refused
      (c := Client.hand packet ⟨socket, recvBuffer, some cb, overCb, alive, trace⟩) h hrefused
    refine ⟨socket', catchException_destroyed ?_⟩
    exact Execution.bind_error hsend

theorem process_taken {p : ReaderPacket} (h : c.alive = true)
    (htaken : Reply.refused ∉
      sendsFor c.packetProcessor (packets c.trace) [p.buffer.contents]) :
    process p c = .ok () { c.hand p.buffer.contents with
      socket := c.socket.replies
        (sendsFor c.packetProcessor (packets c.trace) [p.buffer.contents]) } := by
  rw [process, Execution.bind_ok (touch_alive h), ask_bind]
  exact callPacketProcessor_taken h htaken

theorem process_refused {p : ReaderPacket} (h : c.alive = true)
    (hrefused : Reply.refused ∈
      sendsFor c.packetProcessor (packets c.trace) [p.buffer.contents]) :
    ∃ socket, process p c =
      .error .destroyed { c.hand p.buffer.contents with socket := socket }.die := by
  rw [process, Execution.bind_ok (touch_alive h), ask_bind]
  exact callPacketProcessor_refused h hrefused

/-! ### The read callback -/

/-- The client after a read, with the frames `fs` passed on and `b` left as `recv_buffer_`. -/
def afterRead (data : List UInt8) (fs : List (List UInt8)) (b : Buffer) (c : Client) : Client :=
  { c with
    socket := c.socket.replies (sendsFor c.packetProcessor (packets c.trace) fs)
    recvBuffer := b
    trace := c.trace ++
      .received data :: passedMarks c.packetProcessor fs (c.recvBuffer.contents ++ data) }

theorem packets_afterRead (data : List UInt8) (fs : List (List UInt8)) (b : Buffer) (c : Client) :
    packets (c.afterRead data fs b).trace = packets c.trace ++ fs := by
  show packets (c.trace ++ ([.received data] ++ passedMarks _ fs _)) = _
  rw [packets_append, packets_append, packets_passedMarks]
  rfl

theorem receivedBytes_afterRead (data : List UInt8) (fs : List (List UInt8)) (b : Buffer)
    (c : Client) : receivedBytes (c.afterRead data fs b).trace = receivedBytes c.trace ++ data := by
  show receivedBytes (c.trace ++ ([.received data] ++ passedMarks _ fs _)) = _
  rw [receivedBytes_append, receivedBytes_append, receivedBytes_passedMarks, List.append_nil]
  exact congrArg (receivedBytes c.trace ++ ·) (List.append_nil data)

/-- Passing on one more frame. -/
theorem hand_afterRead {data f rest : List UInt8} {fs : List (List UInt8)} {b : Buffer}
    (hb : b.contents = rest) (hsplit : c.recvBuffer.contents ++ data = fs.flatten ++ (f ++ rest)) :
    { (c.afterRead data fs b).hand f with
      socket := (c.afterRead data fs b).socket.replies
        (sendsFor c.packetProcessor (packets c.trace ++ fs) [f]) } =
      c.afterRead data (fs ++ [f]) b := by
  have hmarks : passedMarks c.packetProcessor (fs ++ [f]) (fs.flatten ++ (f ++ rest)) =
      passedMarks c.packetProcessor fs (fs.flatten ++ (f ++ rest)) ++
        [.passed c.packetProcessor f rest] := by
    rw [passedMarks_append]
    simp [passedMarks]
  simp only [afterRead, hand, hsplit, hmarks, hb, sendsFor_append, Stream.replies,
    List.foldl_append, List.append_assoc, List.cons_append]

section Read

variable {data x : List UInt8}

theorem receive_full (hx : c.recvBuffer.HasContents recvCapacity x)
    (hfull : recvCapacity < x.length + data.length) :
    ∃ e, receive data c = .error (.thrown e) c := by
  obtain ⟨e, happend⟩ := hx.append_full hfull
  exact ⟨e, Execution.bind_error (buffer.run_error happend)⟩

/-- `process` on the next frame, with the frames `fs` passed on before it. -/
theorem process_afterRead {f rest : List UInt8} {fs : List (List UInt8)} {b : Buffer}
    {p : ReaderPacket} (halive : c.alive = true)
    (hsplit : c.recvBuffer.contents ++ data = fs.flatten ++ (f ++ rest)) (hp : p.Holds f)
    (hb : b.HasContents recvCapacity rest) :
    (Reply.refused ∉ sendsFor c.packetProcessor (packets c.trace ++ fs) [f] ∧
      process p (c.afterRead data fs b) = .ok () (c.afterRead data (fs ++ [f]) b)) ∨
    (Reply.refused ∈ sendsFor c.packetProcessor (packets c.trace ++ fs) [f] ∧
      ∃ socket, process p (c.afterRead data fs b) =
        .error .destroyed { c.afterRead data (fs ++ [f]) b with socket := socket }.die) := by
  have hframe : p.buffer.contents = f := hp.contents.contents_eq
  have hsends : sendsFor (c.afterRead data fs b).packetProcessor
      (packets (c.afterRead data fs b).trace) [p.buffer.contents] =
        sendsFor c.packetProcessor (packets c.trace ++ fs) [f] := by
    rw [packets_afterRead, hframe]
    rfl
  have hnext := hand_afterRead hb.contents_eq hsplit
  by_cases hsend : Reply.refused ∈ sendsFor c.packetProcessor (packets c.trace ++ fs) [f]
  · refine .inr ⟨hsend, ?_⟩
    obtain ⟨socket, hrun⟩ :=
      process_refused (c := c.afterRead data fs b) (p := p) halive (hsends ▸ hsend)
    refine ⟨socket, ?_⟩
    rw [hrun, hframe, ← hnext]
  · refine .inl ⟨hsend, ?_⟩
    rw [process_taken (c := c.afterRead data fs b) (p := p) halive (hsends ▸ hsend), hsends,
      hframe, hnext]

/-- A read that fits. Either a `send` is refused inside the packet callback, for one
of the frames `gs` that `Wire.drain` takes off the front, or all these frames are
passed on and the decoder ends as `Wire.drain` does. -/
theorem receive_fits (halive : c.alive = true) (hx : c.recvBuffer.HasContents recvCapacity x)
    (hfit : x.length + data.length ≤ recvCapacity) :
    (∃ gs y b socket, gs <+: (Wire.drain Packet.capacity Decoder.maxPasses (x ++ data)).1 ∧
      Reply.refused ∈ sendsFor c.packetProcessor (packets c.trace) gs ∧
      x ++ data = gs.flatten ++ y ∧ b.HasContents recvCapacity y ∧
      receive data c = .error .destroyed { c.afterRead data gs b with socket := socket }.die) ∨
    ∃ b, b.HasContents recvCapacity
        (Wire.drain Packet.capacity Decoder.maxPasses (x ++ data)).2.1 ∧
      Reply.refused ∉ sendsFor c.packetProcessor (packets c.trace)
        (Wire.drain Packet.capacity Decoder.maxPasses (x ++ data)).1 ∧
      Decoder.Ends (Wire.drain Packet.capacity Decoder.maxPasses (x ++ data)).2.2 (receive data c)
        (c.afterRead data (Wire.drain Packet.capacity Decoder.maxPasses (x ++ data)).1 b) := by
  have hcontents : c.recvBuffer.contents = x := hx.contents_eq
  obtain ⟨b₀, happend, hb₀⟩ := hx.append_ok hfit
  -- `I fs y` holds after the frames `fs`, with `y` left; `F` after a refused `send`
  let I : List (List UInt8) → List UInt8 → Client → Prop := fun fs y w =>
    ∃ b, w = c.afterRead data fs b ∧ b.HasContents recvCapacity y ∧ x ++ data = fs.flatten ++ y ∧
      Reply.refused ∉ sendsFor c.packetProcessor (packets c.trace) fs
  let F : List (List UInt8) → Fault → Client → Prop := fun gs e w =>
    e = .destroyed ∧ Reply.refused ∈ sendsFor c.packetProcessor (packets c.trace) gs ∧
      ∃ y b socket, x ++ data = gs.flatten ++ y ∧ b.HasContents recvCapacity y ∧
        w = { c.afterRead data gs b with socket := socket }.die
  have hreceive : receive data c =
      Decoder.handleFrom buffer (some process) Decoder.maxPasses (c.afterRead data [] b₀) := by
    rw [receive, Execution.bind_ok (buffer.run_ok happend), note, update_bind,
      Decoder.handle_ignored]
    rfl
  have hprocess : ∀ {fs f rest w p b'}, I fs (f ++ rest) w → Wire.IsFrame f → p.Holds f →
      b'.HasContents recvCapacity rest →
      (∃ w', Decoder.invoke (some process) p (buffer.put b' w) = .ok () w' ∧
        I (fs ++ [f]) rest w') ∨
      ∃ e w', Decoder.invoke (some process) p (buffer.put b' w) = .error e w' ∧
        F (fs ++ [f]) e w' := by
    rintro fs f rest w p b' ⟨b, rfl, hb, hsplit, htaken⟩ hf hp hb'
    have hnext : x ++ data = (fs ++ [f]).flatten ++ rest := by
      rw [hsplit, List.flatten_append, List.append_assoc]
      simp
    rcases process_afterRead halive (hcontents ▸ hsplit) hp hb' with
      ⟨hsend, hrun⟩ | ⟨hsend, socket, hrun⟩
    · refine .inl ⟨_, hrun, b', rfl, hb', hnext, ?_⟩
      rw [sendsFor_append, List.mem_append, not_or]
      exact ⟨htaken, hsend⟩
    · refine .inr ⟨_, _, hrun, rfl, ?_, rest, b', socket, hnext, hb', rfl⟩
      rw [sendsFor_append]
      exact List.mem_append_right _ hsend
  have hstart : I [] (x ++ data) (c.afterRead data [] b₀) :=
    ⟨b₀, rfl, hb₀, rfl, List.not_mem_nil⟩
  rcases Decoder.handleFrom_rule buffer (some process) (I := I) (F := F) (fun w => rfl)
    (by rintro fs y w ⟨b, rfl, hb, -⟩; exact hb) hprocess Decoder.maxPasses hstart with
    ⟨gs, e, w, hgs, hrun, rfl, hrefused, y, b, socket, hsplit, hb, rfl⟩ |
    ⟨w, ⟨b, rfl, hb, hsplit, htaken⟩, hends⟩
  · exact .inl ⟨gs, y, b, socket, hgs, hrefused, hsplit, hb, hreceive.trans hrun⟩
  · refine .inr ⟨b, hb, htaken, ?_⟩
    rwa [hreceive]

/-- A client whose read callback has caught `e`. -/
def caught (e : Exception) (c : Client) : Client :=
  { c with trace := c.trace ++ [.caught e] }

/-- The ways in which the read callback can deal with the bytes `data`, with `x` in
`recv_buffer_` before. -/
inductive ReadOutcome (c : Client) (x data : List UInt8) :
    EStateM.Result Fault Client Unit → Prop
  | full (e : Exception) (hfull : recvCapacity < x.length + data.length) :
      ReadOutcome c x data (.ok () (c.caught e).die)
  | refused (gs : List (List UInt8)) (y : List UInt8) (b : Buffer) (socket : Stream ClientCallback)
      (hfit : x.length + data.length ≤ recvCapacity)
      (hgs : gs <+: (Wire.drain Packet.capacity Decoder.maxPasses (x ++ data)).1)
      (hrefused : Reply.refused ∈ sendsFor c.packetProcessor (packets c.trace) gs)
      (hsplit : x ++ data = gs.flatten ++ y) (hb : b.HasContents recvCapacity y) :
      ReadOutcome c x data (.error .destroyed { c.afterRead data gs b with socket := socket }.die)
  | broken (e : Exception) (gs : List (List UInt8)) (y : List UInt8) (stop : Wire.Stop) (b : Buffer)
      (hfit : x.length + data.length ≤ recvCapacity)
      (hdrain : Wire.drain Packet.capacity Decoder.maxPasses (x ++ data) = (gs, y, stop))
      (hstop : stop = .corrupt ∨ stop = .oversized) (hb : b.HasContents recvCapacity y)
      (htaken : Reply.refused ∉ sendsFor c.packetProcessor (packets c.trace) gs) :
      ReadOutcome c x data (.ok () ((c.afterRead data gs b).caught e).die)
  | decoded (gs : List (List UInt8)) (y : List UInt8) (stop : Wire.Stop) (b : Buffer)
      (hfit : x.length + data.length ≤ recvCapacity)
      (hdrain : Wire.drain Packet.capacity Decoder.maxPasses (x ++ data) = (gs, y, stop))
      (hstop : stop = .short ∨ stop = .limit) (hb : b.HasContents recvCapacity y)
      (htaken : Reply.refused ∉ sendsFor c.packetProcessor (packets c.trace) gs) :
      ReadOutcome c x data (.ok () (c.afterRead data gs b))

private theorem onRead_data {len : ℤ} (halive : c.alive = true) :
    onRead (some data) len c = catchException (receive data) (fun e => do
      note (.caught e)
      exceptError) c := by
  rw [onRead, Execution.bind_ok (touch_alive halive), if_neg (by simp)]
  rfl

private theorem caught_eq (e : Exception) (halive : c.alive = true) :
    (do note (.caught e); exceptError : ClientM Unit) c = .ok () (c.caught e).die := by
  rw [note, update_bind]
  exact exceptError_alive (c := c.caught e) halive

theorem onRead_outcome {len : ℤ} (halive : c.alive = true)
    (hx : c.recvBuffer.HasContents recvCapacity x) :
    ReadOutcome c x data (onRead (some data) len c) := by
  rw [onRead_data halive]
  by_cases hfit : x.length + data.length ≤ recvCapacity
  · rcases receive_fits halive hx hfit with
      ⟨gs, y, b, socket, hgs, hrefused, hsplit, hb, hrun⟩ | ⟨b, hb, htaken, hends⟩
    · rw [catchException_destroyed hrun]
      exact .refused gs y b socket hfit hgs hrefused hsplit hb
    · obtain ⟨gs, y, stop, hdrain⟩ : ∃ gs y stop,
          Wire.drain Packet.capacity Decoder.maxPasses (x ++ data) = (gs, y, stop) := ⟨_, _, _, rfl⟩
      rw [hdrain] at hb htaken hends
      have halive' : (c.afterRead data gs b).alive = true := halive
      cases stop with
      | short =>
        rw [catchException_ok hends]
        exact .decoded gs y .short b hfit hdrain (.inl rfl) hb htaken
      | limit =>
        rw [catchException_ok hends]
        exact .decoded gs y .limit b hfit hdrain (.inr rfl) hb htaken
      | corrupt =>
        rw [catchException_thrown hends, caught_eq _ halive']
        exact .broken _ gs y .corrupt b hfit hdrain (.inl rfl) hb htaken
      | oversized =>
        obtain ⟨e, hends⟩ := hends
        rw [catchException_thrown hends, caught_eq e halive']
        exact .broken e gs y .oversized b hfit hdrain (.inr rfl) hb htaken
  · obtain ⟨e, hfull⟩ := receive_full hx (show recvCapacity < x.length + data.length by omega)
    rw [catchException_thrown hfull, caught_eq e halive]
    exact .full e (by omega)

/-- A read that fits, whose frames are all passed on, and that leaves nothing corrupt. -/
theorem ReadOutcome.of_drain {r : EStateM.Result Fault Client Unit} {gs : List (List UInt8)}
    {y : List UInt8} {stop : Wire.Stop} (h : c.ReadOutcome x data r)
    (hfit : x.length + data.length ≤ recvCapacity)
    (hdrain : Wire.drain Packet.capacity Decoder.maxPasses (x ++ data) = (gs, y, stop))
    (hstop : stop = .short ∨ stop = .limit)
    (htaken : Reply.refused ∉ sendsFor c.packetProcessor (packets c.trace) gs) :
    ∃ b, b.HasContents recvCapacity y ∧ r = .ok () (c.afterRead data gs b) := by
  cases h with
  | full e hfull => omega
  | refused gs' y' b socket _ hgs hrefused hsplit hb =>
    rw [hdrain] at hgs
    obtain ⟨ts, rfl⟩ := hgs
    rw [sendsFor_append] at htaken
    exact absurd (List.mem_append_left _ hrefused) htaken
  | broken e gs' y' stop' b _ hdrain' hstop' hb _ =>
    rw [hdrain] at hdrain'
    obtain ⟨rfl, rfl, rfl⟩ := hdrain'
    obtain rfl | rfl := hstop <;> obtain h | h := hstop' <;> cases h
  | decoded gs' y' stop' b _ hdrain' _ hb _ =>
    rw [hdrain] at hdrain'
    obtain ⟨rfl, rfl, rfl⟩ := hdrain'
    exact ⟨b, hb, rfl⟩

theorem ReadOutcome.of_full {r : EStateM.Result Fault Client Unit} (h : c.ReadOutcome x data r)
    (hfull : recvCapacity < x.length + data.length) : ∃ e, r = .ok () (c.caught e).die := by
  cases h with
  | full e _ => exact ⟨e, rfl⟩
  | refused gs y b socket hfit => omega
  | broken e gs y stop b hfit => omega
  | decoded gs y stop b hfit => omega

/-- A read that fits, whose frames are all passed on, and that leaves a broken header. -/
theorem ReadOutcome.of_broken {r : EStateM.Result Fault Client Unit} {gs : List (List UInt8)}
    {y : List UInt8} {stop : Wire.Stop} (h : c.ReadOutcome x data r)
    (hfit : x.length + data.length ≤ recvCapacity)
    (hdrain : Wire.drain Packet.capacity Decoder.maxPasses (x ++ data) = (gs, y, stop))
    (hstop : stop = .corrupt ∨ stop = .oversized)
    (htaken : Reply.refused ∉ sendsFor c.packetProcessor (packets c.trace) gs) :
    ∃ e b, r = .ok () ((c.afterRead data gs b).caught e).die := by
  cases h with
  | full e hfull => omega
  | refused gs' y' b socket _ hgs hrefused hsplit hb =>
    rw [hdrain] at hgs
    obtain ⟨ts, rfl⟩ := hgs
    rw [sendsFor_append] at htaken
    exact absurd (List.mem_append_left _ hrefused) htaken
  | broken e gs' y' stop' b _ hdrain' _ hb _ =>
    rw [hdrain] at hdrain'
    obtain ⟨rfl, rfl, rfl⟩ := hdrain'
    exact ⟨e, b, rfl⟩
  | decoded gs' y' stop' b _ hdrain' hstop' hb _ =>
    rw [hdrain] at hdrain'
    obtain ⟨rfl, rfl, rfl⟩ := hdrain'
    obtain rfl | rfl := hstop <;> obtain h | h := hstop' <;> cases h

theorem onRead_failed (halive : c.alive = true) (n : ℕ) :
    onRead none (ReadResult.failed n).nread c = .ok () c.die := by
  have hneg : (ReadResult.failed n).nread < 0 := by
    show -((n : ℤ) + 1) < 0
    omega
  rw [onRead, Execution.bind_ok (touch_alive halive), if_pos ⟨rfl, hneg⟩,
    exceptError_alive halive]

end Read

/-! ### Writes and the end of the constructor -/

theorem onWriteDone_eq (status : ℤ) (hsent : c.socket.callbacks.invoke .write = some .sent) :
    onWriteDone status c = onSent status { c with socket := c.socket.writeDone.2 } := by
  rw [onWriteDone]
  simp only [Stream.writeDone, hsent]

theorem onWriteDone_unsent (status : ℤ) (hunsent : c.socket.callbacks.invoke .write ≠ some .sent) :
    onWriteDone status c = .error .assertFailed { c with socket := c.socket.writeDone.2 } := by
  rw [onWriteDone]
  simp only [Stream.writeDone]

theorem onSent_alive (halive : c.alive = true) (status : ℤ) :
    onSent status c = .ok () (if status = 0 then c else c.die) := by
  rw [onSent, Execution.bind_ok (touch_alive halive)]
  by_cases hstatus : status = 0
  · rw [if_neg (not_not_intro hstatus), if_pos hstatus]
    rfl
  · rw [if_pos hstatus, if_neg hstatus, exceptError_alive halive]

theorem onSent_dead (hdead : c.alive = false) (status : ℤ) :
    onSent status c = .error .destroyed c := by
  rw [onSent, Execution.bind_error (touch_dead hdead)]

end Client

/-- A client right after the listen callback. -/
def TcpServer.accepted (server : TcpServer) : Client :=
  { Client.new with
    socket := Client.new.socket.readStart .read
    packetProcessor := server.packetCb
    overCb := server.overCb }

/-- `except_error` in the constructor leaves `start` with a destroyed client. -/
theorem TcpServer.onListen_peername (server : TcpServer) (e : Exception) :
    server.onListen true (some e) = .down .destroyed Client.new.die := rfl

end LibraCore
