import LibraCore.Net.TcpClient

/-!
# The receive path of a `Client`

What the bytes of a connection become: the packets handed to the application and
the contents of `recv_buffer_`, at every point of every run. Steps other than reads
are silent here, in that they touch neither.

## Main results

- `TcpServer.bytes_kept` — the receive path neither loses, duplicates, reorders nor
  invents bytes, and what is handed on does not depend on how the bytes were split
-/

namespace LibraCore

/-- The bytes of a read. -/
def Conn.Event.data : Conn.Event → Option (List UInt8)
  | read (.data bytes) => some bytes
  | _ => none

/-- All bytes that are read in a run. -/
def bytesRead (es : List Conn.Event) : List UInt8 := (es.filterMap Conn.Event.data).flatten

theorem bytesRead_snoc_of_data {es : List Conn.Event} {e : Conn.Event} {data : List UInt8}
    (h : e.data = some data) : bytesRead (es ++ [e]) = bytesRead es ++ data := by
  simp [bytesRead, List.filterMap_append, h]

theorem bytesRead_snoc_of_none {es : List Conn.Event} {e : Conn.Event} (h : e.data = none) :
    bytesRead (es ++ [e]) = bytesRead es := by
  simp [bytesRead, List.filterMap_append, h]

theorem prefix_bytesRead (es es' : List Conn.Event) : bytesRead es <+: bytesRead (es ++ es') := by
  simp [bytesRead, List.filterMap_append]

/-! ### Silent steps -/

@[simp]
theorem Stream.closing_reply (s : Stream ClientCallback) (r : Reply) :
    (s.reply r).closing = s.closing := by
  cases r <;> rfl

@[simp]
theorem Stream.closing_replies (s : Stream ClientCallback) (rs : List Reply) :
    (s.replies rs).closing = s.closing := by
  induction rs generalizing s with
  | nil => rfl
  | cons r rs ih => exact (ih (s.reply r)).trans (s.closing_reply r)

namespace Client

/-- The socket is closing exactly if the client is gone. -/
def InStep (c : Client) : Prop := c.socket.closing = !c.alive

theorem InStep.die {c : Client} : InStep c.die := Stream.closing_close _ _

theorem InStep.alive_of_open {c : Client} (h : c.InStep) (hopen : c.socket.closing = false) :
    c.alive = true := by
  rw [InStep, hopen] at h
  simpa using h.symm

/-- Nothing was received or passed on between `c` and `c'`. -/
structure Silent (c c' : Client) : Prop where
  buffer : c'.recvBuffer = c.recvBuffer
  processor : c'.packetProcessor = c.packetProcessor
  marks : ∃ ms, c'.trace = c.trace ++ ms ∧ ∀ m ∈ ms, m = .calledOver ∨ m = .destroyed
  inStep : c.InStep → c'.InStep
  alive : c'.alive = true → c.alive = true

theorem Silent.refl (c : Client) : Silent c c :=
  ⟨rfl, rfl, ⟨[], (List.append_nil _).symm, by simp⟩, id, id⟩

theorem Silent.trans {a b c : Client} (h₁ : Silent a b) (h₂ : Silent b c) : Silent a c := by
  obtain ⟨ms₁, hms₁, hq₁⟩ := h₁.marks
  obtain ⟨ms₂, hms₂, hq₂⟩ := h₂.marks
  refine ⟨h₂.buffer.trans h₁.buffer, h₂.processor.trans h₁.processor, ⟨ms₁ ++ ms₂, ?_, ?_⟩,
    h₂.inStep ∘ h₁.inStep, h₁.alive ∘ h₂.alive⟩
  · rw [hms₂, hms₁, List.append_assoc]
  · intro m hm
    obtain hm | hm := List.mem_append.mp hm
    · exact hq₁ m hm
    · exact hq₂ m hm

theorem silent_socket (c : Client) {socket : Stream ClientCallback}
    (h : socket.closing = c.socket.closing) : Silent c { c with socket := socket } :=
  ⟨rfl, rfl, ⟨[], (List.append_nil _).symm, by simp⟩, fun hc => h.trans hc, id⟩

theorem silent_die (c : Client) : Silent c c.die := by
  have htrace : c.die.trace = c.trace ++ (c.overMarks ++ [.destroyed]) := by
    rw [← List.append_assoc]
    rfl
  refine ⟨rfl, rfl, ⟨_, htrace, ?_⟩, fun _ => .die, ?_⟩
  · intro m hm
    obtain hm | hm := List.mem_append.mp hm
    · rw [overMarks] at hm
      split at hm
      · exact .inl (List.mem_singleton.mp hm)
      · cases hm
    · exact .inr (List.mem_singleton.mp hm)
  · intro h
    cases h

theorem silent_send (c : Client) (reply : Reply) :
    ∃ c', (Conn.settle (send reply c) = .up c' ∨ ∃ f, Conn.settle (send reply c) = .down f c') ∧
      c.Silent c' := by
  by_cases halive : c.alive = true
  · by_cases hrefused : reply = .refused
    · subst hrefused
      refine ⟨_, .inl (by rw [send_refused halive]; rfl), ?_⟩
      exact (c.silent_socket (Stream.closing_reply _ _)).trans (silent_die _)
    · refine ⟨_, .inl (by rw [send_taken halive hrefused]; rfl), ?_⟩
      exact c.silent_socket (Stream.closing_reply _ _)
  · rw [Bool.not_eq_true] at halive
    exact ⟨c, .inr ⟨_, by rw [send_dead halive]; rfl⟩, .refl c⟩

/-- A write may complete after the client is gone, and then its callback is a fault. -/
theorem silent_onWriteDone (c : Client) (status : ℤ) :
    ∃ c', (Conn.settle (onWriteDone status c) = .up c' ∨
      ∃ f, Conn.settle (onWriteDone status c) = .down f c') ∧ c.Silent c' := by
  have hsilent : c.Silent { c with socket := c.socket.writeDone.2 } := c.silent_socket rfl
  by_cases hsent : c.socket.callbacks.invoke .write = some .sent
  · rw [onWriteDone_eq status hsent]
    by_cases halive : c.alive = true
    · have hrun := onSent_alive (c := { c with socket := c.socket.writeDone.2 }) halive status
      refine ⟨_, .inl (by rw [hrun]; rfl), ?_⟩
      split_ifs
      · exact hsilent
      · exact hsilent.trans (silent_die _)
    · rw [Bool.not_eq_true] at halive
      have hrun := onSent_dead (c := { c with socket := c.socket.writeDone.2 }) halive status
      exact ⟨_, .inr ⟨_, by rw [hrun]; rfl⟩, hsilent⟩
  · exact ⟨_, .inr ⟨_, by rw [onWriteDone_unsent status hsent]; rfl⟩, hsilent⟩

end Client

/-- A step of a client is a read of bytes, or it is silent. -/
theorem TcpServer.step_up {server : TcpServer} {c : Client} {e : Conn.Event} {t : Conn}
    (hstep : server.Step (.up c) e t) (hc : c.InStep) :
    (∃ data len, e = .read (.data data) ∧ c.alive = true ∧
      t = .settle (Client.onRead (some data) len c)) ∨
    (e.data = none ∧ ∃ c', (t = .up c' ∨ ∃ f, t = .down f c') ∧ c.Silent c') := by
  cases hstep with
  | read _ r hopen =>
    have halive := hc.alive_of_open hopen
    cases r with
    | data bytes => exact .inl ⟨bytes, _, rfl, halive, rfl⟩
    | failed n =>
      refine .inr ⟨rfl, c.die, .inl ?_, c.silent_die⟩
      show Conn.settle (Client.onRead none (ReadResult.failed n).nread c) = _
      rw [Client.onRead_failed halive]
      rfl
  | send _ reply => exact .inr ⟨rfl, c.silent_send reply⟩
  | complete _ status hpending hcancel => exact .inr ⟨rfl, c.silent_onWriteDone status⟩

/-! ### The ledger of a connection -/

/-- A packet and what it left in `recv_buffer_`. -/
def Mark.passage : Mark → Option (List UInt8 × List UInt8)
  | handed packet rest | unhandled packet rest => some (packet, rest)
  | _ => none

theorem Mark.passage_passed (cb : Option PacketCb) (packet rest : List UInt8) :
    (Mark.passed cb packet rest).passage = some (packet, rest) := by
  cases cb <;> rfl

/-- When a packet was passed to `process`, it was a frame, and the packets so far and what was
left in `recv_buffer_` were together the bytes received. -/
def Ledger (trace : List Mark) : Prop :=
  ∀ past m packet rest, past ++ [m] <+: trace → m.passage = some (packet, rest) →
    Wire.IsFrame packet ∧ (packets past).flatten ++ packet ++ rest = receivedBytes past

theorem Ledger.snoc {t : List Mark} {m : Mark} (h : Ledger t)
    (hm : ∀ packet rest, m.passage = some (packet, rest) →
      Wire.IsFrame packet ∧ (packets t).flatten ++ packet ++ rest = receivedBytes t) :
    Ledger (t ++ [m]) := by
  intro past m' packet rest hpre hpassage
  -- the packet is the new mark, or it was passed on before
  obtain heq | hpre := List.prefix_concat_iff.mp hpre
  · obtain ⟨rfl, hlast⟩ := List.append_inj' heq rfl
    obtain rfl := List.singleton_inj.mp hlast
    exact hm packet rest hpassage
  · exact h past m' packet rest hpre hpassage

theorem Ledger.append {t ms : List Mark} (h : Ledger t)
    (hms : ∀ m ∈ ms, m.packet = none) : Ledger (t ++ ms) := by
  induction ms generalizing t with
  | nil => rwa [List.append_nil]
  | cons m ms ih =>
    rw [List.append_cons]
    refine ih (h.snoc ?_) fun m' hm' => hms m' (List.mem_cons_of_mem m hm')
    intro packet rest hpassage
    -- a mark with a passage is a packet
    have hnone := hms m List.mem_cons_self
    cases m with
    | handed | unhandled => cases hnone
    | _ => cases hpassage

/-- The frames of one read keep the ledger. -/
theorem Ledger.passed {cb : Option PacketCb} {t : List Mark} {gs : List (List UInt8)}
    {y : List UInt8} (h : Ledger t)
    (hgs : ∀ g ∈ gs, Wire.IsFrame g)
    (hbytes : (packets t).flatten ++ (gs.flatten ++ y) = receivedBytes t) :
    Ledger (t ++ passedMarks cb gs (gs.flatten ++ y)) := by
  induction gs generalizing t with
  | nil => simpa [passedMarks] using h
  | cons g gs ih =>
    -- the next frame moves from what is left to what was handed on
    have hmark : passedMarks cb (g :: gs) ((g :: gs).flatten ++ y) =
        .passed cb g (gs.flatten ++ y) :: passedMarks cb gs (gs.flatten ++ y) := by
      rw [List.flatten_cons, List.append_assoc, passedMarks, List.drop_left]
    rw [List.flatten_cons, List.append_assoc] at hbytes
    rw [hmark, List.append_cons]
    refine ih (h.snoc ?_) (fun g' hg' => hgs g' (List.mem_cons_of_mem g hg')) ?_
    · intro packet rest hpassage
      rw [Mark.passage_passed] at hpassage
      cases hpassage
      exact ⟨hgs g List.mem_cons_self, by rw [List.append_assoc]; exact hbytes⟩
    · rw [packets_append, receivedBytes_append, List.flatten_append, ← hbytes]
      simp [packets, receivedBytes, Mark.packet_passed, Mark.data_passed, List.append_assoc]

theorem Ledger.isFrame {t : List Mark} (h : Ledger t) {packet : List UInt8}
    (hmem : packet ∈ packets t) : Wire.IsFrame packet := by
  obtain ⟨m, hm, hpacket⟩ := List.mem_filterMap.mp hmem
  obtain ⟨past, future, rfl⟩ := List.append_of_mem hm
  have hpassed : ∃ rest, m.passage = some (packet, rest) := by
    cases m <;> cases hpacket <;> exact ⟨_, rfl⟩
  obtain ⟨rest, hpassage⟩ := hpassed
  exact (h past m packet rest ⟨future, by simp⟩ hpassage).1

namespace Client

/-- The ledger is right, and the packets passed on and the contents of `recv_buffer_`
are the bytes received. -/
def Balanced (c : Client) : Prop :=
  Ledger c.trace ∧ ∃ x, c.recvBuffer.HasContents recvCapacity x ∧
    (packets c.trace).flatten ++ x = receivedBytes c.trace

theorem Balanced.contents {c : Client} (h : c.Balanced) :
    (packets c.trace).flatten ++ c.recvBuffer.contents = receivedBytes c.trace := by
  obtain ⟨-, x, hx, hbytes⟩ := h
  rw [hx.contents_eq, hbytes]

/-- Marks that are neither a read nor a packet keep the balance. -/
theorem Balanced.append {c c' : Client} {ms : List Mark} (h : c.Balanced)
    (hbuffer : c'.recvBuffer = c.recvBuffer) (htrace : c'.trace = c.trace ++ ms)
    (hms : ∀ m ∈ ms, m.packet = none ∧ m.data = none) : c'.Balanced := by
  obtain ⟨hledger, x, hx, hbytes⟩ := h
  have hpackets : packets ms = [] :=
    List.filterMap_eq_nil_iff.mpr fun m hm => (hms m hm).1
  have hreceived : receivedBytes ms = [] := by
    rw [receivedBytes, List.filterMap_eq_nil_iff.mpr fun m hm => (hms m hm).2]
    rfl
  refine ⟨?_, x, hbuffer ▸ hx, ?_⟩
  · rw [htrace]
    exact hledger.append fun m hm => (hms m hm).1
  · rw [htrace, packets_append, receivedBytes_append, hpackets, hreceived, List.append_nil,
      List.append_nil, hbytes]

theorem Balanced.silent {c c' : Client} (h : c.Balanced) (hs : c.Silent c') : c'.Balanced := by
  obtain ⟨ms, htrace, hms⟩ := hs.marks
  apply h.append hs.buffer htrace
  intro m hm
  obtain rfl | rfl := hms m hm
  · exact ⟨rfl, rfl⟩
  · exact ⟨rfl, rfl⟩

theorem Balanced.caught {c : Client} (h : c.Balanced) (e : Exception) : (c.caught e).Balanced := by
  refine h.append rfl (show _ = c.trace ++ [Mark.caught e] from rfl) ?_
  intro m hm
  rw [List.mem_singleton.mp hm]
  exact ⟨rfl, rfl⟩

theorem Balanced.afterRead {c : Client} {data x y : List UInt8} {gs : List (List UInt8)}
    {b : Buffer} (h : c.Balanced) (hx : c.recvBuffer.HasContents recvCapacity x)
    (hgs : ∀ g ∈ gs, Wire.IsFrame g) (hsplit : x ++ data = gs.flatten ++ y)
    (hb : b.HasContents recvCapacity y) : (c.afterRead data gs b).Balanced := by
  have hbytes : (packets c.trace).flatten ++ x = receivedBytes c.trace := by
    rw [← hx.contents_eq]
    exact h.contents
  have hbytes' : (packets (c.trace ++ [.received data])).flatten ++ (gs.flatten ++ y) =
      receivedBytes (c.trace ++ [.received data]) := by
    rw [packets_append, receivedBytes_append, ← hsplit, ← hbytes]
    simp [packets, receivedBytes, Mark.packet, Mark.data, List.append_assoc]
  have hledger : Ledger (c.trace ++ [.received data]) := h.1.append (by simp [Mark.packet])
  refine ⟨?_, y, hb, ?_⟩
  · show Ledger (c.trace ++
      .received data :: passedMarks c.packetProcessor gs (c.recvBuffer.contents ++ data))
    rw [hx.contents_eq, hsplit, List.append_cons]
    exact hledger.passed hgs hbytes'
  · rw [packets_afterRead, receivedBytes_afterRead, List.flatten_append, List.append_assoc,
      ← hsplit, ← hbytes, List.append_assoc]

/-- A balanced client that is alive deals with a read in one of the ways of `ReadOutcome`. -/
theorem Balanced.readOutcome {c : Client} (h : c.Balanced) (halive : c.alive = true)
    (data : List UInt8) (len : ℤ) :
    ∃ x, c.recvBuffer.HasContents recvCapacity x ∧
      c.ReadOutcome x data (onRead (some data) len c) := by
  obtain ⟨-, x, hx, -⟩ := h
  exact ⟨x, hx, onRead_outcome halive hx⟩

/-- Whatever the read callback does, it keeps the balance. -/
theorem ReadOutcome.balanced {c : Client} {x data : List UInt8}
    {r : EStateM.Result Fault Client Unit} (h : c.ReadOutcome x data r) (hc : c.Balanced)
    (hx : c.recvBuffer.HasContents recvCapacity x) : (Execution.final r).Balanced := by
  have hframes := Wire.isFrame_of_mem_drain Packet.capacity Decoder.maxPasses (x ++ data)
  have hflat := Wire.drain_flatten Packet.capacity Decoder.maxPasses (x ++ data)
  cases h with
  | full e hfull => exact (hc.caught e).silent (silent_die _)
  | refused gs y b socket hfit hgs hrefused hsplit hb =>
    have hmem : ∀ g ∈ gs, Wire.IsFrame g := fun g hg => hframes g (hgs.subset hg)
    have hbal := hc.afterRead hx hmem hsplit hb
    have hsocket : ({ c.afterRead data gs b with socket := socket } : Client).Balanced := hbal
    exact hsocket.silent (silent_die _)
  | broken e gs y stop b hfit hdrain hstop hb htaken =>
    rw [hdrain] at hframes hflat
    exact ((hc.afterRead hx hframes hflat.symm hb).caught e).silent (silent_die _)
  | decoded gs y stop b hfit hdrain hstop hb htaken =>
    rw [hdrain] at hframes hflat
    exact hc.afterRead hx hframes hflat.symm hb

theorem Silent.receivedBytes_eq {c c' : Client} (h : c.Silent c') :
    receivedBytes c'.trace = receivedBytes c.trace := by
  obtain ⟨ms, htrace, hms⟩ := h.marks
  have hnil : ms.filterMap Mark.data = [] := by
    refine List.filterMap_eq_nil_iff.mpr fun m hm => ?_
    obtain rfl | rfl := hms m hm <;> rfl
  rw [htrace, receivedBytes_append, receivedBytes, receivedBytes, hnil, List.flatten_nil,
    List.append_nil]

theorem receivedBytes_caught (c : Client) (e : Exception) :
    receivedBytes (c.caught e).trace = receivedBytes c.trace := by
  rw [Client.caught, receivedBytes_append]
  exact List.append_nil _

/-- A read is received as a whole or not at all, and then the client is gone. -/
theorem ReadOutcome.received {c : Client} {x data : List UInt8}
    {r : EStateM.Result Fault Client Unit} (h : c.ReadOutcome x data r) :
    receivedBytes (Execution.final r).trace = receivedBytes c.trace ++ data ∨
    ((Execution.final r).alive = false ∧
      receivedBytes (Execution.final r).trace = receivedBytes c.trace) := by
  cases h with
  | full e hfull =>
    refine .inr ⟨rfl, ?_⟩
    exact (silent_die _).receivedBytes_eq.trans (receivedBytes_caught c e)
  | refused gs y b socket hfit hgs hrefused hsplit hb =>
    left
    exact (silent_die _).receivedBytes_eq.trans (receivedBytes_afterRead data gs b c)
  | broken e gs y stop b hfit hdrain hstop hb htaken =>
    left
    exact (silent_die _).receivedBytes_eq.trans
      ((receivedBytes_caught _ e).trans (receivedBytes_afterRead data gs b c))
  | decoded gs y stop b hfit hdrain hstop hb htaken =>
    exact .inl (receivedBytes_afterRead data gs b c)

theorem ReadOutcome.inStep {c : Client} {x data : List UInt8}
    {r : EStateM.Result Fault Client Unit} (h : c.ReadOutcome x data r) (hc : c.InStep) :
    (Execution.final r).InStep := by
  cases h with
  | decoded gs y stop b hfit hdrain hstop hb htaken =>
    exact (Stream.closing_replies _ _).trans hc
  | _ => exact .die

end Client

/-! ### Runs -/

namespace Conn

theorem settle_eq (r : EStateM.Result Fault Client Unit) :
    settle r = .up (Execution.final r) ∨ ∃ f, settle r = .down f (Execution.final r) := by
  cases r with
  | ok a c => exact .inl rfl
  | error f c => exact .inr ⟨f, rfl⟩

/-- What is known of a connection after a run that read `bytes`. -/
def Kept (bytes : List UInt8) : Conn → Prop
  | listening => bytes = []
  | rejected => True
  | up c => c.InStep ∧ c.Balanced ∧ receivedBytes c.trace <+: bytes ∧
      (c.alive = true → receivedBytes c.trace = bytes)
  | down _ c => c.Balanced ∧ receivedBytes c.trace <+: bytes

theorem Kept.balanced {bytes : List UInt8} {s : Conn} {c : Client} (h : s.Kept bytes)
    (hc : s.client = some c) : c.Balanced ∧ receivedBytes c.trace <+: bytes := by
  cases s with
  | listening => cases hc
  | rejected => cases hc
  | up c' =>
    obtain rfl : c' = c := Option.some_inj.mp hc
    exact ⟨h.2.1, h.2.2.1⟩
  | down f c' =>
    obtain rfl : c' = c := Option.some_inj.mp hc
    exact h

theorem Kept.settle {bytes : List UInt8} {r : EStateM.Result Fault Client Unit}
    (hstep : (Execution.final r).InStep) (hbal : (Execution.final r).Balanced)
    (hpre : receivedBytes (Execution.final r).trace <+: bytes)
    (halive : (Execution.final r).alive = true →
      receivedBytes (Execution.final r).trace = bytes) : (settle r).Kept bytes := by
  obtain h | ⟨f, h⟩ := settle_eq r
  · rw [h]
    exact ⟨hstep, hbal, hpre, halive⟩
  · rw [h]
    exact ⟨hbal, hpre⟩

/-- A read: a live client receives it, or is gone after it. -/
theorem Kept.read {bytes data : List UInt8} {c : Client} (h : (up c).Kept bytes)
    (hlive : c.alive = true) (len : ℤ) :
    (Conn.settle (Client.onRead (some data) len c)).Kept (bytes ++ data) := by
  obtain ⟨hin, hbal, -, halive⟩ := h
  obtain ⟨x, hx, hout⟩ := hbal.readOutcome hlive data len
  rw [← halive hlive]
  apply Kept.settle (hout.inStep hin) (hout.balanced hbal hx)
  · obtain hreceived | ⟨-, hreceived⟩ := hout.received
    · rw [hreceived]
    · rw [hreceived]
      exact List.prefix_append _ _
  · intro hlive'
    obtain hreceived | ⟨hdead, -⟩ := hout.received
    · exact hreceived
    · rw [hdead] at hlive'
      cases hlive'

theorem Kept.silent {bytes : List UInt8} {c c' : Client} {t : Conn}
    (h : (up c).Kept bytes) (hsilent : c.Silent c')
    (ht : t = .up c' ∨ ∃ f, t = .down f c') : t.Kept bytes := by
  obtain ⟨hin, hbal, hpre, halive⟩ := h
  have hreceived := hsilent.receivedBytes_eq
  obtain rfl | ⟨f, rfl⟩ := ht
  · refine ⟨hsilent.inStep hin, hbal.silent hsilent, hreceived ▸ hpre, ?_⟩
    intro hlive
    rw [hreceived, halive (hsilent.alive hlive)]
  · exact ⟨hbal.silent hsilent, hreceived ▸ hpre⟩

end Conn

namespace TcpServer

variable {server : TcpServer}

theorem balanced_accepted (server : TcpServer) : server.accepted.Balanced := by
  refine ⟨?_, [], Buffer.hasContents_zeroed (by decide), rfl⟩
  intro past m packet rest hpre
  have hlen := hpre.length_le
  rw [List.length_append] at hlen
  exact absurd hlen (by simp [accepted, Client.new])

theorem kept_onListen (accept : Bool) (peername : Option Exception) :
    (onListen server accept peername).Kept [] := by
  cases accept with
  | false => trivial
  | true =>
    cases peername with
    | none => exact ⟨rfl, balanced_accepted server, List.prefix_rfl, fun _ => rfl⟩
    | some e =>
      rw [onListen_peername]
      have hnew : Client.new.Balanced := balanced_accepted ⟨none, none⟩
      exact ⟨hnew.silent (Client.silent_die _), List.prefix_rfl⟩

theorem kept_step {es : List Conn.Event} {s t : Conn} {e : Conn.Event}
    (hstep : server.Step s e t) (h : s.Kept (bytesRead es)) : t.Kept (bytesRead (es ++ [e])) := by
  cases s with
  | listening =>
    cases hstep with
    | connect accept peername =>
      rw [bytesRead_snoc_of_none (e := .connect accept peername) rfl,
        show bytesRead es = [] from h]
      exact kept_onListen accept peername
  | rejected => cases hstep
  | down f c => cases hstep
  | up c =>
    obtain ⟨data, len, rfl, hlive, rfl⟩ | ⟨hdata, c', ht, hsilent⟩ := step_up hstep h.1
    · rw [bytesRead_snoc_of_data (e := .read (.data data)) rfl]
      exact h.read hlive len
    · rw [bytesRead_snoc_of_none hdata]
      exact h.silent hsilent ht

theorem kept_of_run {es : List Conn.Event} {s : Conn}
    (h : server.system.Run .listening es s) : s.Kept (bytesRead es) := by
  refine h.history (P := fun es s => s.Kept (bytesRead es)) ?_ rfl
  intro es s e t hstep hs
  exact kept_step hstep hs

/-- A read in a state where nothing stands in its way. -/
theorem read_decoded (server : TcpServer) {c : Client} {x data y : List UInt8}
    {gs : List (List UInt8)} {stop : Wire.Stop} (hin : c.InStep) (halive : c.alive = true)
    (hx : c.recvBuffer.HasContents Client.recvCapacity x)
    (hfit : x.length + data.length ≤ Client.recvCapacity)
    (hdrain : Wire.drain Packet.capacity Decoder.maxPasses (x ++ data) = (gs, y, stop))
    (hstop : stop = .short ∨ stop = .limit)
    (htaken : Reply.refused ∉ sendsFor c.packetProcessor (packets c.trace) gs) :
    ∃ b, b.HasContents Client.recvCapacity y ∧
      server.Step (.up c) (.read (.data data)) (.up (c.afterRead data gs b)) := by
  have hopen : c.socket.closing = false := by
    rw [show c.socket.closing = !c.alive from hin, halive]
    rfl
  have hout : c.ReadOutcome x data (Client.onRead (some data) data.length c) :=
    Client.onRead_outcome halive hx
  obtain ⟨b, hb, hrun⟩ := hout.of_drain hfit hdrain hstop htaken
  have hstep : server.Step (.up c) (.read (.data data))
      (.settle (Client.onRead (some data) data.length c)) := Step.read c (.data data) hopen
  rw [hrun] at hstep
  exact ⟨b, hb, hstep⟩

/-! ### The packet callback -/

end TcpServer

namespace Client

/-- A client with the packet callback of its server, which has been called with every packet. -/
structure HandsAll (server : TcpServer) (c : Client) : Prop where
  processor : c.packetProcessor = server.packetCb
  handed : server.packetCb.isSome = true → handedPackets c.trace = packets c.trace

variable {server : TcpServer} {c : Client}

theorem handedPackets_append (s t : List Mark) :
    handedPackets (s ++ t) = handedPackets s ++ handedPackets t :=
  List.filterMap_append

theorem HandsAll.append {c' : Client} {ms : List Mark} (h : c.HandsAll server)
    (hprocessor : c'.packetProcessor = c.packetProcessor) (htrace : c'.trace = c.trace ++ ms)
    (hms : server.packetCb.isSome = true → handedPackets ms = packets ms) :
    c'.HandsAll server := by
  refine ⟨hprocessor.trans h.processor, fun hcb => ?_⟩
  rw [htrace, handedPackets_append, packets_append, h.handed hcb, hms hcb]

theorem HandsAll.silent {c' : Client} (h : c.HandsAll server) (hs : c.Silent c') :
    c'.HandsAll server := by
  obtain ⟨ms, htrace, hms⟩ := hs.marks
  refine h.append hs.processor htrace fun _ => ?_
  have hnone {α : Type} (f : Mark → Option α) (hover : f .calledOver = none)
      (hdestroyed : f .destroyed = none) : ms.filterMap f = [] := by
    refine List.filterMap_eq_nil_iff.mpr fun m hm => ?_
    obtain rfl | rfl := hms m hm
    · exact hover
    · exact hdestroyed
  rw [handedPackets, packets, hnone _ rfl rfl, hnone _ rfl rfl]

theorem HandsAll.caught (h : c.HandsAll server) (e : Exception) : (c.caught e).HandsAll server :=
  h.append rfl (show _ = c.trace ++ [Mark.caught e] from rfl) fun _ => rfl

theorem HandsAll.afterRead (h : c.HandsAll server) (data : List UInt8) (gs : List (List UInt8))
    (b : Buffer) : (c.afterRead data gs b).HandsAll server := by
  refine h.append rfl (show _ = c.trace ++ ([.received data] ++ passedMarks c.packetProcessor gs
    (c.recvBuffer.contents ++ data)) from rfl) fun hcb => ?_
  rw [handedPackets_append, packets_append, packets_passedMarks,
    handedPackets_passedMarks (h.processor ▸ hcb)]
  rfl

theorem ReadOutcome.handsAll {x data : List UInt8} {r : EStateM.Result Fault Client Unit}
    (h : c.ReadOutcome x data r) (hc : c.HandsAll server) :
    (Execution.final r).HandsAll server := by
  cases h with
  | full e hfull => exact (hc.caught e).silent (silent_die _)
  | refused gs y b socket hfit hgs hrefused hsplit hb =>
    have hread := hc.afterRead data gs b
    have hsocket : ({ c.afterRead data gs b with socket := socket } : Client).HandsAll server :=
      ⟨hread.processor, hread.handed⟩
    exact hsocket.silent (silent_die _)
  | broken e gs y stop b hfit hdrain hstop hb htaken =>
    exact ((hc.afterRead data gs b).caught e).silent (silent_die _)
  | decoded gs y stop b hfit hdrain hstop hb htaken => exact hc.afterRead data gs b

end Client

/-- A connection whose client, once `start` has set its callbacks, hands on every packet. -/
def Conn.HandsAll (server : TcpServer) : Conn → Prop
  | up c => c.HandsAll server
  | down _ c => server.packetCb.isSome = true → handedPackets c.trace = packets c.trace
  | _ => True

namespace TcpServer

variable {server : TcpServer}

theorem handsAll_step {bytes : List UInt8} {s t : Conn} {e : Conn.Event}
    (hstep : server.Step s e t) (hkept : s.Kept bytes) (hs : s.HandsAll server) :
    t.HandsAll server := by
  have hsettle {r : EStateM.Result Fault Client Unit}
      (h : (Execution.final r).HandsAll server) : (Conn.settle r).HandsAll server := by
    obtain hr | ⟨f, hr⟩ := Conn.settle_eq r
    · rw [hr]
      exact h
    · rw [hr]
      exact h.handed
  cases s with
  | listening =>
    cases hstep with
    | connect accept peername =>
      cases accept with
      | false => trivial
      | true =>
        cases peername with
        | none => exact ⟨rfl, fun _ => rfl⟩
        | some e =>
          rw [onListen_peername]
          exact fun _ => rfl
  | rejected => cases hstep
  | down f c => cases hstep
  | up c =>
    obtain ⟨hin, hbal, -, -⟩ := hkept
    obtain ⟨data, len, rfl, hlive, rfl⟩ | ⟨hdata, c', ht, hsilent⟩ := step_up hstep hin
    · obtain ⟨x, hx, hout⟩ := hbal.readOutcome hlive data len
      exact hsettle (hout.handsAll hs)
    · have hc' := Client.HandsAll.silent hs hsilent
      obtain rfl | ⟨f, rfl⟩ := ht
      · exact hc'
      · exact hc'.handed

/-- If there is a packet callback, it has been called with every packet. -/
theorem handedPackets_of_run {es : List Conn.Event} {s : Conn} {c : Client}
    (h : server.system.Run .listening es s) (hc : s.client = some c)
    (hcb : server.packetCb.isSome = true) : handedPackets c.trace = packets c.trace := by
  have hboth : s.Kept (bytesRead es) ∧ s.HandsAll server := by
    refine h.history (P := fun es s => s.Kept (bytesRead es) ∧ s.HandsAll server) ?_ ⟨rfl, trivial⟩
    rintro es s e t hstep ⟨hkept, hs⟩
    exact ⟨kept_step hstep hkept, handsAll_step hstep hkept hs⟩
  obtain ⟨-, hall⟩ := hboth
  cases s with
  | up c' =>
    cases hc
    exact hall.handed hcb
  | down f c' =>
    cases hc
    exact hall hcb
  | _ => cases hc

/-- A server whose packet callback answers every packet and then throws. -/
def answering : TcpServer where
  packetCb := some fun _ _ =>
    { sends := [.accepted]
      throws := some { classId := .exception, method := "packet", message := "" } }
  overCb := some none

/-- A frame that arrives in two reads. -/
theorem two_reads :
    ∃ b₁ b₂, b₁.HasContents Client.recvCapacity [76, 73, 0] ∧
      b₂.HasContents Client.recvCapacity [76] ∧
      answering.Step (.up answering.accepted) (.read (.data [76, 73, 0]))
        (.up (answering.accepted.afterRead [76, 73, 0] [] b₁)) ∧
      answering.Step (.up (answering.accepted.afterRead [76, 73, 0] [] b₁))
        (.read (.data [1, 0, 7, 9, 76]))
        (.up ((answering.accepted.afterRead [76, 73, 0] [] b₁).afterRead [1, 0, 7, 9, 76]
          [[76, 73, 0, 1, 0, 7, 9]] b₂)) := by
  have hdrain₁ : Wire.drain Packet.capacity Decoder.maxPasses ([] ++ [76, 73, 0]) =
      ([], [76, 73, 0], .short) := by decide
  have hdrain₂ : Wire.drain Packet.capacity Decoder.maxPasses ([76, 73, 0] ++ [1, 0, 7, 9, 76]) =
      ([[76, 73, 0, 1, 0, 7, 9]], [76], .short) := by decide
  have htaken₂ : Reply.refused ∉ sendsFor answering.packetCb [] [[76, 73, 0, 1, 0, 7, 9]] := by
    decide
  obtain ⟨b₁, hb₁, hread₁⟩ := read_decoded answering (c := answering.accepted) rfl rfl
    (Buffer.hasContents_zeroed (by decide)) (by decide) hdrain₁ (.inl rfl) List.not_mem_nil
  obtain ⟨b₂, hb₂, hread₂⟩ := read_decoded answering
    (c := answering.accepted.afterRead [76, 73, 0] [] b₁) rfl rfl hb₁ (by decide) hdrain₂
    (.inl rfl) htaken₂
  exact ⟨b₁, b₂, hb₁, hb₂, hread₁, hread₂⟩

theorem run_two_reads :
    ∃ c, answering.system.Run .listening
        [.connect true none, .read (.data [76, 73, 0]), .read (.data [1, 0, 7, 9, 76])] (.up c) ∧
      c.trace = [.received [76, 73, 0], .received [1, 0, 7, 9, 76],
        .handed [76, 73, 0, 1, 0, 7, 9] [76]] ∧
      c.alive = true ∧ c.recvBuffer.HasContents Client.recvCapacity [76] := by
  have hconnect : answering.Step .listening (.connect true none) (.up answering.accepted) :=
    Step.connect true none
  obtain ⟨b₁, b₂, hb₁, hb₂, hread₁, hread₂⟩ := two_reads
  have hrun := ((Transition.System.Run.single (M := answering.system) hconnect).snoc hread₁).snoc
    hread₂
  refine ⟨_, hrun, ?_, rfl, hb₂⟩
  show [Mark.received [76, 73, 0]] ++ .received [1, 0, 7, 9, 76] ::
    passedMarks answering.packetCb [[76, 73, 0, 1, 0, 7, 9]] (b₁.contents ++ [1, 0, 7, 9, 76]) = _
  rw [hb₁.contents_eq]
  rfl

/-- The same frame in one read, with garbage behind it. -/
theorem run_broken_read :
    ∃ c, answering.system.Run .listening
        [.connect true none, .read (.data [76, 73, 0, 1, 0, 7, 9, 76, 0, 0, 0, 0, 0])] (.up c) ∧
      c.alive = false := by
  have hconnect : answering.Step .listening (.connect true none) (.up answering.accepted) :=
    Step.connect true none
  have hdrain : Wire.drain Packet.capacity Decoder.maxPasses
      ([] ++ [76, 73, 0, 1, 0, 7, 9, 76, 0, 0, 0, 0, 0]) =
      ([[76, 73, 0, 1, 0, 7, 9]], [76, 0, 0, 0, 0, 0], .corrupt) := by decide
  have htaken : Reply.refused ∉ sendsFor answering.packetCb [] [[76, 73, 0, 1, 0, 7, 9]] := by
    decide
  have hout : answering.accepted.ReadOutcome [] [76, 73, 0, 1, 0, 7, 9, 76, 0, 0, 0, 0, 0]
      (Client.onRead (some [76, 73, 0, 1, 0, 7, 9, 76, 0, 0, 0, 0, 0]) 13 answering.accepted) :=
    Client.onRead_outcome rfl (Buffer.hasContents_zeroed (by decide))
  obtain ⟨e, b, hbroken⟩ := hout.of_broken (by decide) hdrain (.inl rfl) htaken
  have hread : answering.Step (.up answering.accepted)
      (.read (.data [76, 73, 0, 1, 0, 7, 9, 76, 0, 0, 0, 0, 0]))
      (.settle (Client.onRead (some [76, 73, 0, 1, 0, 7, 9, 76, 0, 0, 0, 0, 0]) 13
        answering.accepted)) :=
    Step.read answering.accepted (.data _) rfl
  rw [hbroken] at hread
  exact ⟨_, (Transition.System.Run.single (M := answering.system) hconnect).snoc hread, rfl⟩

/-- The receive path neither loses, duplicates, reorders nor invents bytes: whenever a
packet is handed to the packet callback, and in every state a run reaches, the packets so far
and the contents of `recv_buffer_` are together the bytes received, and every packet is
a frame. A packet callback, if there is one, is called with all of them. Whatever the packet
callbacks send and throw, two runs that read bytes of one stream hand on the same packets, as
far as they get. -/
theorem bytes_kept (server : TcpServer) :
    (∀ es s c, server.system.Run .listening es s → s.client = some c →
      receivedBytes c.trace <+: bytesRead es ∧
      (packets c.trace).flatten ++ c.recvBuffer.contents = receivedBytes c.trace ∧
      (∀ past packet rest, past ++ [.handed packet rest] <+: c.trace →
        (packets (past ++ [.handed packet rest])).flatten ++ rest =
          receivedBytes (past ++ [.handed packet rest])) ∧
      (∀ packet ∈ packets c.trace, packet.take 2 = [76, 73] ∧ 6 ≤ packet.length ∧
        Octet.toNat ((packet.drop 2).take 2) = packet.length - 6) ∧
      (server.packetCb.isSome = true → handedPackets c.trace = packets c.trace)) ∧
    ∀ (server' : TcpServer) es es' s s' c c' stream, server.system.Run .listening es s →
      server'.system.Run .listening es' s' → s.client = some c → s'.client = some c' →
      bytesRead es <+: stream → bytesRead es' <+: stream →
      packets c.trace <+: packets c'.trace ∨ packets c'.trace <+: packets c.trace := by
  constructor
  · intro es s c hrun hc
    obtain ⟨hbal, hpre⟩ := (kept_of_run hrun).balanced hc
    refine ⟨hpre, hbal.contents, ?_, ?_, handedPackets_of_run hrun hc⟩
    · intro past packet rest hpre
      have hbytes := (hbal.1 past _ packet rest hpre rfl).2
      rw [packets_append, receivedBytes_append, ← hbytes]
      simp [packets, receivedBytes, Mark.packet, Mark.data]
    · intro packet hmem
      obtain ⟨hmagic, hlen, hbody⟩ := hbal.1.isFrame hmem
      exact ⟨hmagic, hlen, (Nat.sub_eq_of_eq_add' hbody).symm⟩
  · intro server' es es' s s' c c' stream hrun hrun' hc hc' hread hread'
    obtain ⟨hbal, hpre⟩ := (kept_of_run hrun).balanced hc
    obtain ⟨hbal', hpre'⟩ := (kept_of_run hrun').balanced hc'
    obtain ⟨z, hz⟩ := hpre.trans hread
    obtain ⟨z', hz'⟩ := hpre'.trans hread'
    -- both runs took frames off the front of the same bytes
    refine Wire.isFrame_prefixFree.prefix_or_prefix (fun f hf => hbal.1.isFrame hf)
      (fun f hf => hbal'.1.isFrame hf) (u := c.recvBuffer.contents ++ z)
      (v := c'.recvBuffer.contents ++ z') ?_
    rw [← List.append_assoc, ← List.append_assoc, hbal.contents, hbal'.contents, hz, hz']

/-- The packets and the bytes of that run, and of one that reads the same stream, which breaks
off later, in one read. -/
theorem bytes_kept_two_reads :
    ∃ c c', answering.system.Run .listening
        [.connect true none, .read (.data [76, 73, 0]), .read (.data [1, 0, 7, 9, 76])] (.up c) ∧
      answering.system.Run .listening
        [.connect true none, .read (.data [76, 73, 0, 1, 0, 7, 9, 76, 0, 0, 0, 0, 0])] (.up c') ∧
      c'.alive = false ∧ handedPackets c.trace = [[76, 73, 0, 1, 0, 7, 9]] ∧
      (packets c.trace).flatten ++ c.recvBuffer.contents = receivedBytes c.trace ∧
      (packets c.trace <+: packets c'.trace ∨ packets c'.trace <+: packets c.trace) := by
  obtain ⟨c, hrun, htrace, -⟩ := run_two_reads
  obtain ⟨c', hrun', hdead⟩ := run_broken_read
  refine ⟨c, c', hrun, hrun', hdead, by rw [htrace]; rfl, ?_, ?_⟩
  · exact ((bytes_kept answering).1 _ _ c hrun rfl).2.1
  · exact (bytes_kept answering).2 answering _ _ _ _ c c'
      [76, 73, 0, 1, 0, 7, 9, 76, 0, 0, 0, 0, 0] hrun hrun' rfl rfl (by decide) (by decide)

end TcpServer

end LibraCore
