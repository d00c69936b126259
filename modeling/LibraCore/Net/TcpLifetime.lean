import LibraCore.Net.TcpReceive

/-!
# The end of a `Client`

`except_error` deletes the client, and four places call it: the constructor, the
read callback, `send` and the completion of a write. A write that is still pending
when the client ends completes later, on a client that is gone; a `send` that is
refused inside the packet callback ends the client under that callback; and
`TCPServer::start` goes on with a client whose constructor has ended it.

## Main results

- `TcpServer.endsOnce_of_reachable` — a run that avoids these ends a client once
- `TcpServer.used_after_end` — a run with a pending write, and one whose `peername()`
  fails, do not
-/

namespace LibraCore

/-- The sends of the packets that a read of `data` is worth. -/
def Client.sendsOfRead (c : Client) (data : List UInt8) : List Reply :=
  sendsFor c.packetProcessor (packets c.trace)
    (Wire.drain Packet.capacity Decoder.maxPasses (c.recvBuffer.contents ++ data)).1

/-- A read of `data` breaks the connection off: it does not fit, or what it leaves
begins with a header that is corrupt or names too long a frame. -/
def Client.Breaks (c : Client) (data : List UInt8) : Prop :=
  c.recvBuffer.freeSize < data.length ∨
    (Wire.drain Packet.capacity Decoder.maxPasses (c.recvBuffer.contents ++ data)).2.2 = .corrupt ∨
    (Wire.drain Packet.capacity Decoder.maxPasses (c.recvBuffer.contents ++ data)).2.2 = .oversized

/-- The condition on a step: `peername()` succeeds; what ends the client leaves no
write pending; no `send` is refused inside the packet callback; and nothing is sent
once the client is gone. -/
def Conn.EndsClean : Conn → Conn.Event → Prop
  | listening, .connect accept peername => accept = true → peername = none
  | up c, .read (.failed _) => c.socket.inFlight = 0
  | up c, .read (.data data) =>
    (data.length ≤ c.recvBuffer.freeSize → Reply.refused ∉ c.sendsOfRead data) ∧
      (c.Breaks data → c.socket.inFlight = 0 ∧
        (data.length ≤ c.recvBuffer.freeSize → Reply.accepted ∉ c.sendsOfRead data))
  | up c, .send reply => c.alive = true ∧ (reply = .refused → c.socket.inFlight = 0)
  | up c, .complete status => status ≠ 0 → c.socket.inFlight = 1
  | _, _ => True

/-- No fault, the client destroyed and `over_cb_` called at most once each, and nothing
observed of the client after it was destroyed. -/
def Conn.EndsOnce (s : Conn) : Prop :=
  (∀ f c, s ≠ .down f c) ∧
    ∀ c, s.client = some c → c.trace.count .destroyed ≤ 1 ∧ c.trace.count .calledOver ≤ 1 ∧
      ∀ before after, c.trace = before ++ .destroyed :: after → after = []

/-! ### The socket of a client -/

namespace Stream

/-- The callback of `send` is stored for the writes in flight. -/
def Sent (s : Stream ClientCallback) : Prop :=
  0 < s.inFlight → s.callbacks.invoke .write = some .sent

theorem Sent.reply {s : Stream ClientCallback} (h : s.Sent) (r : Reply) : (s.reply r).Sent := by
  cases r with
  | inactive => exact h
  | accepted => exact fun _ => Callbacks.invoke_store_self _ _ _
  | refused => exact fun _ => Callbacks.invoke_store_self _ _ _

theorem Sent.replies {s : Stream ClientCallback} (h : s.Sent) (rs : List Reply) :
    (s.replies rs).Sent := by
  induction rs generalizing s with
  | nil => exact h
  | cons r rs ih => exact ih (h.reply r)

theorem Sent.writeDone {s : Stream ClientCallback} (h : s.Sent) : s.writeDone.2.Sent := by
  intro hpos
  have hpos' : 0 < s.inFlight - 1 := hpos
  exact h (by omega)

/-- Calls of `send` on an inactive socket leave it alone. -/
theorem replies_inactive {s : Stream ClientCallback} {rs : List Reply}
    (haccepted : Reply.accepted ∉ rs) (hrefused : Reply.refused ∉ rs) : s.replies rs = s := by
  induction rs with
  | nil => rfl
  | cons r rs ih =>
    rw [List.mem_cons, not_or] at haccepted hrefused
    cases r with
    | inactive => exact ih haccepted.2 hrefused.2
    | accepted => exact absurd rfl haccepted.1
    | refused => exact absurd rfl hrefused.1

end Stream

/-! ### A client that ends once -/

/-- No end of the client has been observed. -/
def Unended (trace : List Mark) : Prop := ∀ m ∈ trace, m ≠ .calledOver ∧ m ≠ .destroyed

/-- The trace of a client that has ended, exactly once. -/
def EndedOnce (trace : List Mark) : Prop :=
  ∃ before, Unended before ∧
    (trace = before ++ [.destroyed] ∨ trace = before ++ [.calledOver, .destroyed])

theorem Unended.count {t : List Mark} (h : Unended t) :
    t.count .destroyed = 0 ∧ t.count .calledOver = 0 := by
  constructor
  · exact List.count_eq_zero.mpr fun hmem => (h _ hmem).2 rfl
  · exact List.count_eq_zero.mpr fun hmem => (h _ hmem).1 rfl

theorem Unended.append {s t : List Mark} (hs : Unended s) (ht : Unended t) : Unended (s ++ t) := by
  intro m hm
  obtain hm | hm := List.mem_append.mp hm
  · exact hs m hm
  · exact ht m hm

theorem EndedOnce.count {t : List Mark} (h : EndedOnce t) :
    t.count .destroyed ≤ 1 ∧ t.count .calledOver ≤ 1 := by
  obtain ⟨before, hun, rfl | rfl⟩ := h
  · rw [List.count_append, List.count_append, hun.count.1, hun.count.2]
    decide
  · rw [List.count_append, List.count_append, hun.count.1, hun.count.2]
    decide

/-- What is destroyed comes last. -/
theorem EndedOnce.last {t before after : List Mark} (h : EndedOnce t)
    (hsplit : t = before ++ .destroyed :: after) : after = [] := by
  obtain ⟨pre, hun, ht⟩ := h
  have hlast : ∃ pre', t = pre' ++ [.destroyed] ∧ Mark.destroyed ∉ pre' := by
    obtain rfl | rfl := ht
    · exact ⟨pre, rfl, fun hmem => (hun _ hmem).2 rfl⟩
    · refine ⟨pre ++ [.calledOver], by simp, ?_⟩
      intro hmem
      obtain hmem | hmem := List.mem_append.mp hmem
      · exact (hun _ hmem).2 rfl
      · cases List.mem_singleton.mp hmem
  obtain ⟨pre', rfl, hnot⟩ := hlast
  exact Transition.eq_nil_of_last hnot hsplit

namespace Client

/-- A live client has not ended and its socket is right; one that is gone has ended
once and has no write pending. -/
def Whole (c : Client) : Prop :=
  (c.alive = true → Unended c.trace ∧ c.socket.Sent) ∧
    (c.alive = false → EndedOnce c.trace ∧ c.socket.inFlight = 0)

variable {c : Client}

theorem whole_die (htrace : Unended c.trace) (hpending : c.socket.inFlight = 0) :
    c.die.Whole := by
  refine ⟨fun halive => absurd halive Bool.false_ne_true, fun _ => ⟨⟨c.trace, htrace, ?_⟩, ?_⟩⟩
  · show c.trace ++ c.overMarks ++ [.destroyed] = _ ∨ c.trace ++ c.overMarks ++ [.destroyed] = _
    rw [overMarks]
    split_ifs
    · exact .inr (List.append_assoc _ _ _)
    · exact .inl (by rw [List.append_nil])
  · exact (Stream.inFlight_close _ _).trans hpending

theorem whole_alive (halive : c.alive = true) (htrace : Unended c.trace)
    (hsocket : c.socket.Sent) : c.Whole :=
  ⟨fun _ => ⟨htrace, hsocket⟩, fun hdead => by rw [halive] at hdead; cases hdead⟩

theorem unended_caught (htrace : Unended c.trace) (e : Exception) :
    Unended (c.caught e).trace := by
  apply htrace.append
  intro m hm
  rw [List.mem_singleton.mp hm]
  exact ⟨nofun, nofun⟩

theorem unended_afterRead (htrace : Unended c.trace) (data : List UInt8)
    (gs : List (List UInt8)) (b : Buffer) : Unended (c.afterRead data gs b).trace := by
  apply htrace.append
  intro m hm
  obtain rfl | hm := List.mem_cons.mp hm
  · exact ⟨nofun, nofun⟩
  · obtain ⟨packet, rest, rfl⟩ := mem_passedMarks hm
    exact ⟨Mark.passed_ne_calledOver, Mark.passed_ne_destroyed⟩

theorem Whole.endsOnce (h : c.Whole) : (Conn.up c).EndsOnce := by
  refine ⟨fun f c' hdown => Conn.noConfusion hdown, ?_⟩
  intro c' hc'
  obtain rfl : c = c' := Option.some_inj.mp hc'
  cases halive : c.alive with
  | true =>
    have hun := (h.1 halive).1
    refine ⟨hun.count.1.le.trans (Nat.zero_le 1), hun.count.2.le.trans (Nat.zero_le 1), ?_⟩
    intro before after htrace
    exact absurd rfl (hun .destroyed (by rw [htrace]; simp)).2
  | false =>
    have hended := (h.2 halive).1
    exact ⟨hended.count.1, hended.count.2, fun before after => hended.last⟩

/-- A read that ends the client cleanly, or does not end it, keeps it whole. -/
theorem ReadOutcome.whole {x data : List UInt8} {r : EStateM.Result Fault Client Unit}
    (h : c.ReadOutcome x data r) (halive : c.alive = true)
    (hx : c.recvBuffer.HasContents recvCapacity x) (hc : c.Whole)
    (hclean : (Conn.up c).EndsClean (.read (.data data))) :
    ∃ c', r = .ok () c' ∧ c'.Whole := by
  obtain ⟨htrace, hsent⟩ := hc.1 halive
  obtain ⟨htaken', hbreaks⟩ := hclean
  have hfree := hx.freeSize_eq
  have hlen := hx.length_le
  have hcontents := hx.contents_eq
  rw [Breaks, hcontents] at hbreaks
  rw [sendsOfRead, hcontents] at htaken' hbreaks
  cases h with
  | full e hfull =>
    have hend := hbreaks (.inl (by omega))
    exact ⟨_, rfl, whole_die (c := c.caught e) (unended_caught htrace e) hend.1⟩
  | refused gs y b socket hfit hgs hrefused hsplit hb =>
    obtain ⟨ts, hts⟩ := hgs
    have hnone := htaken' (by omega)
    rw [← hts, sendsFor_append] at hnone
    exact absurd (List.mem_append_left _ hrefused) hnone
  | broken e gs y stop b hfit hdrain hstop hb htaken =>
    rw [hdrain] at hbreaks
    obtain ⟨hpending, haccepted⟩ := hbreaks (.inr hstop)
    -- the packets before the broken header have sent nothing
    have hsocket : (c.afterRead data gs b).socket = c.socket :=
      Stream.replies_inactive (haccepted (by omega)) htaken
    refine ⟨_, rfl, whole_die (c := (c.afterRead data gs b).caught e) ?_ ?_⟩
    · exact unended_caught (unended_afterRead htrace data gs b) e
    · show (c.afterRead data gs b).socket.inFlight = 0
      rw [hsocket, hpending]
  | decoded gs y stop b hfit hdrain hstop hb htaken =>
    exact ⟨_, rfl, whole_alive halive (unended_afterRead htrace data gs b) (hsent.replies _)⟩

theorem whole_send {reply : Reply} (hc : c.Whole)
    (hclean : (Conn.up c).EndsClean (.send reply)) :
    ∃ c', send reply c = .ok () c' ∧ c'.Whole := by
  obtain ⟨halive, hrefused⟩ := hclean
  obtain ⟨htrace, hsent⟩ := hc.1 halive
  by_cases hreply : reply = .refused
  · subst hreply
    exact ⟨_, send_refused halive,
      whole_die (c := { c with socket := c.socket.reply .refused }) htrace (hrefused rfl)⟩
  · refine ⟨_, send_taken halive hreply, ?_⟩
    exact whole_alive halive htrace (hsent.reply reply)

theorem whole_writeDone {status : ℤ} (hc : c.Whole) (hpending : 0 < c.socket.inFlight)
    (hclean : (Conn.up c).EndsClean (.complete status)) :
    ∃ c', onWriteDone status c = .ok () c' ∧ c'.Whole := by
  -- a client that is gone has no write pending
  have halive : c.alive = true := by
    by_contra hdead
    have hnone := (hc.2 (Bool.eq_false_of_not_eq_true hdead)).2
    omega
  obtain ⟨htrace, hsent⟩ := hc.1 halive
  rw [onWriteDone_eq status (hsent hpending)]
  have hrun := onSent_alive (c := { c with socket := c.socket.writeDone.2 }) halive status
  by_cases hstatus : status = 0
  · rw [if_pos hstatus] at hrun
    exact ⟨_, hrun, whole_alive halive htrace hsent.writeDone⟩
  · rw [if_neg hstatus] at hrun
    have hlast : c.socket.inFlight - 1 = 0 := by
      rw [hclean hstatus]
    exact ⟨_, hrun, whole_die (c := { c with socket := c.socket.writeDone.2 }) htrace hlast⟩

end Client

/-! ### Runs -/

def Conn.Whole : Conn → Prop
  | up c => c.Whole
  | down _ _ => False
  | _ => True

theorem Conn.Whole.endsOnce {s : Conn} (h : s.Whole) : s.EndsOnce := by
  cases s with
  | up c => exact Client.Whole.endsOnce h
  | down f c => exact h.elim
  | listening => exact ⟨fun f c hdown => Conn.noConfusion hdown, fun c hc => by cases hc⟩
  | rejected => exact ⟨fun f c hdown => Conn.noConfusion hdown, fun c hc => by cases hc⟩

namespace TcpServer

variable {server : TcpServer}

theorem whole_step {bytes : List UInt8} {s t : Conn} {e : Conn.Event}
    (hstep : server.Step s e t) (hclean : s.EndsClean e) (hkept : s.Kept bytes)
    (hs : s.Whole) : t.Whole := by
  cases hstep with
  | connect accept peername =>
    cases accept with
    | false => trivial
    | true =>
      obtain rfl : peername = none := hclean rfl
      apply Client.whole_alive rfl
      · intro m hm
        cases hm
      · intro hpos
        cases hpos
  | read c r hopen =>
    obtain ⟨hin, hbal, -, -⟩ := hkept
    have halive := hin.alive_of_open hopen
    cases r with
    | data bytes =>
      obtain ⟨x, hx, hout⟩ := hbal.readOutcome halive bytes bytes.length
      obtain ⟨c', hrun, hwhole⟩ := hout.whole halive hx hs hclean
      show (Conn.settle (Client.onRead (some bytes) bytes.length c)).Whole
      rw [hrun]
      exact hwhole
    | failed n =>
      show (Conn.settle (Client.onRead none (ReadResult.failed n).nread c)).Whole
      rw [Client.onRead_failed halive]
      exact Client.whole_die (hs.1 halive).1 hclean
  | send c reply =>
    obtain ⟨c', hrun, hwhole⟩ := Client.whole_send hs hclean
    rw [hrun]
    exact hwhole
  | complete c status hpending hcancel =>
    obtain ⟨c', hrun, hwhole⟩ := Client.whole_writeDone hs hpending hclean
    rw [hrun]
    exact hwhole

/-- In every run whose steps all meet the condition, the client ends at most once, and
nothing of it runs after its end. -/
theorem endsOnce_of_reachable (server : TcpServer) {s : Conn}
    (h : (server.system.guard Conn.EndsClean).Reachable s) : s.EndsOnce := by
  obtain ⟨s₀, es, rfl, hrun⟩ := h
  apply Conn.Whole.endsOnce
  induction hrun with
  | nil => trivial
  | snoc hrun hstep ih => exact whole_step hstep.2 hstep.1 (kept_of_run hrun.of_guard) ih

/-- A read that fits and that leaves nothing complete at the front of the buffer. -/
theorem endsClean_of_short {c : Client} {x data y : List UInt8} {gs : List (List UInt8)}
    (hx : c.recvBuffer.HasContents Client.recvCapacity x)
    (hfit : x.length + data.length ≤ Client.recvCapacity)
    (hdrain : Wire.drain Packet.capacity Decoder.maxPasses (x ++ data) = (gs, y, .short))
    (htaken : Reply.refused ∉ sendsFor c.packetProcessor (packets c.trace) gs) :
    (Conn.up c).EndsClean (.read (.data data)) := by
  have hfree := hx.freeSize_eq
  constructor
  · intro _
    rw [Client.sendsOfRead, hx.contents_eq, hdrain]
    exact htaken
  · intro hbreaks
    rw [Client.Breaks, hx.contents_eq, hdrain] at hbreaks
    obtain hfull | hstop | hstop := hbreaks
    · omega
    · cases hstop
    · cases hstop

/-- The packet callback sends an answer and throws; the answer is written, and later the
peer disconnects. -/
theorem endsOnce_answered :
    ∃ c, answering.system.Run .listening
        [.connect true none, .read (.data [76, 73, 0]), .read (.data [1, 0, 7, 9, 76]),
          .complete 0, .read (.failed 4094)] (.up c) ∧
      c.trace = [.received [76, 73, 0], .received [1, 0, 7, 9, 76],
        .handed [76, 73, 0, 1, 0, 7, 9] [76], .calledOver, .destroyed] ∧
      (Conn.up c).EndsOnce := by
  obtain ⟨b₁, b₂, hb₁, hb₂, hread₁, hread₂⟩ := two_reads
  let c₁ : Client := answering.accepted.afterRead [76, 73, 0] [] b₁
  let c₂ : Client := c₁.afterRead [1, 0, 7, 9, 76] [[76, 73, 0, 1, 0, 7, 9]] b₂
  let c₃ : Client := { c₂ with socket := c₂.socket.writeDone.2 }
  have hconnect : answering.Step .listening (.connect true none) (.up answering.accepted) :=
    Step.connect true none
  have hwritten : answering.Step (.up c₂) (.complete 0) (.up c₃) :=
    Step.complete c₂ 0 (Nat.zero_lt_one) (fun hclosing => Bool.noConfusion hclosing)
  have hfailed : answering.Step (.up c₃) (.read (.failed 4094)) (.up c₃.die) :=
    Step.read c₃ (.failed 4094) rfl
  -- neither read breaks the connection off, and the answer is written before the peer is gone
  have htaken : Reply.refused ∉ sendsFor answering.packetCb [] [[76, 73, 0, 1, 0, 7, 9]] := by
    decide
  have hdrain₁ : Wire.drain Packet.capacity Decoder.maxPasses ([] ++ [76, 73, 0]) =
      ([], [76, 73, 0], .short) := by decide
  have hdrain₂ : Wire.drain Packet.capacity Decoder.maxPasses ([76, 73, 0] ++ [1, 0, 7, 9, 76]) =
      ([[76, 73, 0, 1, 0, 7, 9]], [76], .short) := by decide
  have hclean₁ : (Conn.up answering.accepted).EndsClean (.read (.data [76, 73, 0])) :=
    endsClean_of_short (Buffer.hasContents_zeroed (by decide)) (by decide) hdrain₁
      List.not_mem_nil
  have hclean₂ : (Conn.up c₁).EndsClean (.read (.data [1, 0, 7, 9, 76])) :=
    endsClean_of_short hb₁ (by decide) hdrain₂ htaken
  have hclean₀ : Conn.EndsClean .listening (.connect true none) := fun _ => rfl
  have hclean₃ : (Conn.up c₂).EndsClean (.complete 0) := fun hstatus => absurd rfl hstatus
  have hclean₄ : (Conn.up c₃).EndsClean (.read (.failed 4094)) := rfl
  have hrun := ((((Transition.System.Run.guard_single (M := answering.system) hclean₀
    hconnect).guard_snoc hclean₁ hread₁).guard_snoc hclean₂ hread₂).guard_snoc hclean₃
    hwritten).guard_snoc hclean₄ hfailed
  refine ⟨_, hrun.of_guard, ?_, endsOnce_of_reachable answering ⟨_, _, rfl, hrun⟩⟩
  show [Mark.received [76, 73, 0]] ++ (.received [1, 0, 7, 9, 76] ::
    passedMarks answering.packetCb [[76, 73, 0, 1, 0, 7, 9]] (b₁.contents ++ [1, 0, 7, 9, 76])) ++
    [.calledOver] ++ [.destroyed] = _
  rw [hb₁.contents_eq]
  rfl

/-- A write that is pending when the peer disconnects completes on a client that is
gone; and `start` sets the callbacks of a client whose constructor has ended it. -/
theorem used_after_end :
    (∃ c, (system ⟨none, none⟩).Run .listening
        [.connect true none, .send .accepted, .read (.failed 4094), .complete (-125)]
        (.down .destroyed c) ∧ ¬ (Conn.down .destroyed c).EndsOnce) ∧
    ∃ c, (system ⟨none, none⟩).Run .listening
        [.connect true (some { classId := .uvLibException, method := "peername", message := "" })]
        (.down .destroyed c) ∧ ¬ (Conn.down .destroyed c).EndsOnce := by
  let c₀ := accepted ⟨none, none⟩
  let c₁ : Client := { c₀ with socket := c₀.socket.reply .accepted }
  have h₁ : Step ⟨none, none⟩ .listening (.connect true none) (.up c₀) := Step.connect true none
  have h₂ : Step ⟨none, none⟩ (.up c₀) (.send .accepted) (.up c₁) := Step.send c₀ .accepted
  have h₃ : Step ⟨none, none⟩ (.up c₁) (.read (.failed 4094)) (.up c₁.die) :=
    Step.read c₁ (.failed 4094) rfl
  have h₄ : Step ⟨none, none⟩ (.up c₁.die) (.complete (-125)) (.down .destroyed _) :=
    Step.complete c₁.die (-125) (by decide) (by decide)
  have h₅ : Step ⟨none, none⟩ .listening (.connect true
      (some { classId := .uvLibException, method := "peername", message := "" }))
      (.down .destroyed Client.new.die) := Step.connect true _
  constructor
  · refine ⟨_, (((Transition.System.Run.single h₁).snoc h₂).snoc h₃).snoc h₄, ?_⟩
    exact fun h => h.1 _ _ rfl
  · refine ⟨_, Transition.System.Run.single h₅, ?_⟩
    exact fun h => h.1 _ _ rfl

end TcpServer

end LibraCore
