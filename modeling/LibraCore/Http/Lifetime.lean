import LibraCore.Http.Callbacks

/-!
# The end of a `client_context`

The context and its response go when a write of the response completes: the callback of
that write, which runs on the response, resets the pointer that owns them. Another write
that is still pending then completes on a response that is gone, and so does every later
use of the response by the handler.

## Main results

- `Conn.releasedOnce_of_reachable` — a run that avoids these releases the context once
- `Conn.used_after_release` — two writes in flight, and a use after the first completion
-/

namespace LibraCore.Http

open Execution (Keeps bind_ok bind_error)

namespace Conn

variable {S : Type}

/-- The condition on a step: a write completes as the only one in flight, and the response
is used while it exists. -/
def ReleasesClean : Conn S → Event → Prop
  | up c, .call _ => c.alive = true
  | up c, .complete _ => c.socket.inFlight = 1
  | _, _ => True

/-- Nothing ran on the context or the response after they were destroyed, which happened
at most once. -/
def ReleasedOnce (s : Conn S) : Prop :=
  (∀ c, s ≠ .down .destroyed c) ∧
    ∀ before after, s.context.trace = before ++ .destroyed :: after → after = []

end Conn

namespace ClientContext

variable {S : Type} {c : ClientContext S}

/-- A context that exists: it is owned, and the callback kept for its writes is that of
`end`. -/
structure Owned (c : ClientContext S) : Prop where
  alive : c.alive = true
  client : c.response.client = true
  trace : Mark.destroyed ∉ c.trace
  written : 0 < c.socket.inFlight → c.socket.callbacks.invoke .write = some .written

/-- A context that has been destroyed, once; its socket is closing and has no write
pending. -/
structure Released (c : ClientContext S) : Prop where
  alive : c.alive = false
  trace : ∃ before, c.trace = before ++ [.destroyed] ∧ Mark.destroyed ∉ before
  closing : c.socket.closing = true
  inFlight : c.socket.inFlight = 0

theorem Owned.mark {m : Mark} (h : c.Owned) (hm : m ≠ .destroyed) :
    Owned { c with trace := c.trace ++ [m] } := by
  refine ⟨h.alive, h.client, ?_, h.written⟩
  intro hmem
  obtain hmem | hmem := List.mem_append.mp hmem
  · exact h.trace hmem
  · exact hm (List.mem_singleton.mp hmem).symm

theorem owned_opened (parser : S) : (opened parser).Owned := by
  refine ⟨rfl, rfl, List.not_mem_nil, ?_⟩
  intro hpos
  cases hpos

/-- Reads and uses of the response leave the context owned. -/
theorem readClosed_owned : ReadClosed (Owned (S := S)) := by
  refine ⟨⟨fun c hc => hc.alive, ?_, ?_, ?_⟩, ?_, ?_⟩
  · intro c f hf hc
    exact ⟨hc.alive, (hf _).trans hc.client, hc.trace, hc.written⟩
  · intro c text len hc
    exact hc.mark (Mark.noConfusion ·)
  · intro c accepted hc
    exact ⟨hc.alive, hc.client, hc.trace, fun _ => by
      cases accepted <;> exact Callbacks.invoke_store_self _ _ _⟩
  · intro c request hc
    exact hc.mark (Mark.noConfusion ·)
  · intro c d halive hsocket hresponse htrace hc
    refine ⟨halive.trans hc.alive, ?_, ?_, ?_⟩
    · rw [hresponse]
      exact hc.client
    · rw [htrace]
      exact hc.trace
    · rw [hsocket]
      exact hc.written

theorem keeps_onRead (parser : HttpParser S) (handling : Handling) (r : ReadResult) :
    Keeps Owned (· ≠ .destroyed) (onRead parser handling r.buf r.nread) := by
  have hthrown (e : Exception) : Fault.thrown e ≠ .destroyed := Fault.noConfusion
  refine (keeps_touch fun c hc => hc.alive).bind fun _ => Keeps.ite ?_ ?_
  · exact keeps_call readClosed_owned.toUseClosed hthrown (.setStatus 500)
  · refine (keeps_update fun c hc => hc.mark Mark.noConfusion).bind fun _ => ?_
    exact keeps_feed readClosed_owned hthrown Fault.noConfusion parser handling _ _

theorem onWriteDone_eq (hcallback : c.socket.callbacks.invoke .write = some .written) (status : ℤ) :
    onWriteDone status c = onWritten { c with socket := c.socket.writeDone.2 } := by
  simp only [onWriteDone, Stream.writeDone, hcallback]

/-- The callback of a write destroys the context that the response owns. -/
theorem onWritten_owned (halive : c.alive = true) (hclient : c.response.client = true) :
    onWritten c = .ok () c.destroyed := by
  have hask : ask (fun c => c.response.client) c = .ok true c := by
    rw [ask, hclient]
  rw [onWritten, bind_ok (touch_alive halive), bind_ok hask, if_pos rfl]
  rfl

theorem onWritten_dead (halive : c.alive = false) : onWritten c = .error .destroyed c :=
  bind_error (touch_dead halive)

/-- A completed write releases the context, whatever its status. -/
theorem onWriteDone_owned (hc : c.Owned) (hpending : 0 < c.socket.inFlight) (status : ℤ) :
    onWriteDone status c = .ok () (destroyed { c with socket := c.socket.writeDone.2 }) :=
  (onWriteDone_eq (hc.written hpending) status).trans (onWritten_owned hc.alive hc.client)

theorem inFlight_destroyed (c : ClientContext S) :
    (destroyed { c with socket := c.socket.writeDone.2 }).socket.inFlight =
      c.socket.inFlight - 1 :=
  Stream.inFlight_close _ _

/-- The completion of the only write in flight leaves none pending. -/
theorem Owned.released (hc : c.Owned) (hlast : c.socket.inFlight = 1) :
    Released (destroyed { c with socket := c.socket.writeDone.2 }) := by
  refine ⟨rfl, ⟨c.trace, rfl, hc.trace⟩, Stream.closing_close _ _, ?_⟩
  rw [inFlight_destroyed, hlast]

/-- A write that is pending when another one completes runs on a context that is gone. -/
theorem destroyed_onWriteDone (hc : c.Owned) (hpending : 0 < c.socket.inFlight) (status : ℤ) :
    ∃ d, onWriteDone status (destroyed { c with socket := c.socket.writeDone.2 }) =
      .error .destroyed d := by
  have hcallback : (c.socket.writeDone.2.close .closed).callbacks.invoke .write = some .written :=
    (Stream.invoke_write_close _ _).trans (hc.written hpending)
  exact ⟨_, (onWriteDone_eq hcallback status).trans (onWritten_dead rfl)⟩

/-- The response is gone with the context. -/
theorem attempt_dead (halive : c.alive = false) (a : Attempt) :
    attempt a c = .error .destroyed c := by
  have hcall : call a.call c = .error .destroyed c := by
    cases a.call with
    | setStatus statusCode => exact bind_error (touch_dead halive)
    | setHeader key value => exact bind_error (touch_dead halive)
    | endWith body accepted => exact bind_error (bind_error (touch_dead halive))
  rw [attempt]
  split_ifs
  · exact catchException_destroyed hcall
  · exact hcall

end ClientContext

/-! ### Runs -/

namespace Conn

variable {S : Type}

/-- The context is owned, or it was released; a fault met an owned context. -/
def Whole : Conn S → Prop
  | up c => c.Owned ∨ c.Released
  | down f c => f ≠ .destroyed ∧ c.Owned

theorem Whole.releasedOnce {s : Conn S} (h : s.Whole) : s.ReleasedOnce := by
  have howned {c : ClientContext S} (hc : c.Owned) (before after : List Mark)
      (hsplit : c.trace = before ++ .destroyed :: after) : after = [] :=
    absurd (hsplit ▸ List.mem_append_right before List.mem_cons_self) hc.trace
  cases s with
  | up c =>
    refine ⟨(by intro d hdown; cases hdown), ?_⟩
    intro before after hsplit
    obtain hc | hc := h
    · exact howned hc before after hsplit
    · obtain ⟨pre, htrace, hnot⟩ := hc.trace
      exact Transition.eq_nil_of_last hnot (htrace.symm.trans hsplit)
  | down f c =>
    refine ⟨?_, howned h.2⟩
    rintro d hdown
    obtain ⟨rfl, -⟩ := Conn.down.inj hdown
    exact h.1 rfl

/-- A step that keeps contexts owned. -/
theorem whole_settle {x : ContextM S Unit} (hx : Keeps ClientContext.Owned (· ≠ .destroyed) x)
    {c : ClientContext S} (hc : c.Owned) : (settle (x c)).Whole := by
  have hend := hx c hc
  cases h : x c with
  | ok a d =>
    rw [h] at hend
    exact .inl hend
  | error f d =>
    rw [h] at hend
    cases f with
    | thrown e => exact .inl hend.2
    | _ => exact hend

theorem whole_step {parser : HttpParser S} {s t : Conn S} {e : Event}
    (hstep : Step parser s e t) (hclean : s.ReleasesClean e) (hs : s.Whole) : t.Whole := by
  cases hstep with
  | read c r handling hopen =>
    obtain hc | hc := hs
    · exact whole_settle (ClientContext.keeps_onRead parser handling r) hc
    · -- the socket of a released context reads no more
      rw [hc.closing] at hopen
      cases hopen
  | call c a =>
    obtain hc | hc := hs
    · exact whole_settle (ClientContext.keeps_attempt
        ClientContext.readClosed_owned.toUseClosed (fun _ => Fault.noConfusion) a) hc
    · have halive : c.alive = true := hclean
      rw [hc.alive] at halive
      cases halive
  | complete c status hpending hcancel =>
    obtain hc | hc := hs
    · rw [ClientContext.onWriteDone_owned hc hpending]
      exact .inr (hc.released hclean)
    · rw [hc.inFlight] at hpending
      cases hpending

/-- In every run whose steps all meet the condition, the context is destroyed at most once
and nothing of it runs afterwards. -/
theorem releasedOnce_of_reachable (parser : HttpParser S) {s : Conn S}
    (h : ((system parser).guard ReleasesClean).Reachable s) : s.ReleasedOnce := by
  apply Whole.releasedOnce
  refine h.invariant (P := Whole) ?_ ?_
  · rintro s rfl
    exact .inl (ClientContext.owned_opened parser.init)
  · rintro s e t ⟨hclean, hstep⟩ hs
    exact whole_step hstep hclean hs

/-- Two writes in flight: the second completes after the first has destroyed the response
it runs on. -/
theorem run_of_overlap (parser : HttpParser S) {c : ClientContext S} (hc : c.Owned)
    (hopen : c.socket.closing = false) (hmore : 1 < c.socket.inFlight) :
    ∃ d, (system parser).Run (.up c) [.complete 0, .complete (-125)] (.down .destroyed d) := by
  have hpending : 0 < c.socket.inFlight := by omega
  have h₁ : Step parser (.up c) (.complete 0) _ :=
    Step.complete c 0 hpending fun h => by rw [hopen] at h; cases h
  rw [ClientContext.onWriteDone_owned hc hpending] at h₁
  have hlater := ClientContext.inFlight_destroyed c
  obtain ⟨d, hrun⟩ := ClientContext.destroyed_onWriteDone hc hpending (-125)
  have h₂ : Step parser (.up (.destroyed { c with socket := c.socket.writeDone.2 }))
      (.complete (-125)) _ := Step.complete _ (-125) (by omega) fun _ => by decide
  rw [hrun] at h₂
  exact ⟨d, (Transition.System.Run.single h₁).snoc h₂⟩

/-- The response is used after its only write has completed. -/
theorem run_of_late_use (parser : HttpParser S) {c : ClientContext S} (hc : c.Owned)
    (hopen : c.socket.closing = false) (hpending : 0 < c.socket.inFlight) (a : Attempt) :
    ∃ d, (system parser).Run (.up c) [.complete 0, .call a] (.down .destroyed d) := by
  have h₁ : Step parser (.up c) (.complete 0) _ :=
    Step.complete c 0 hpending fun h => by rw [hopen] at h; cases h
  rw [ClientContext.onWriteDone_owned hc hpending] at h₁
  have h₂ : Step parser (.up (.destroyed { c with socket := c.socket.writeDone.2 })) (.call a) _ :=
    Step.call _ a
  rw [ClientContext.attempt_dead rfl] at h₂
  exact ⟨_, (Transition.System.Run.single h₁).snoc h₂⟩

/-- A request without a body. -/
def getRequest : List UInt8 := ascii "GET /a HTTP/1.1\r\n\r\n"

/-- The parser, for connections on which this request comes in one read. -/
def oneRequest : HttpParser Unit where
  init := ()
  errno _ := false
  feed _ bytes :=
    (if bytes = getRequest then
      [.url ⟨ascii "/a", ascii " HTTP/1.1\r\n\r\n"⟩, .headersComplete, .messageComplete]
    else [], ())

/-- The handler ends the response, once for each body. -/
def endsWith (bodies : List (List UInt8)) : Handling :=
  { attempts := bodies.map fun body => ⟨.endWith body true, false⟩, throws := none }

/-- The context after the request was handled. -/
def answered (bodies : List (List UInt8)) : ClientContext Unit :=
  Execution.final (ClientContext.onRead oneRequest (endsWith bodies) (some getRequest)
    getRequest.length (.opened ()))

theorem owned_answered (bodies : List (List UInt8)) : (answered bodies).Owned :=
  (ClientContext.keeps_onRead oneRequest (endsWith bodies) (.data getRequest)).final
    (ClientContext.owned_opened ())

theorem step_answered (bodies : List (List UInt8))
    (h : Execution.returns (ClientContext.onRead oneRequest (endsWith bodies) (some getRequest)
      getRequest.length (.opened ())) = true) :
    Step oneRequest (.up (.opened ())) (.read (.data getRequest) (endsWith bodies))
      (.up (answered bodies)) := by
  have hstep : Step oneRequest (.up (.opened ())) (.read (.data getRequest) (endsWith bodies))
      (.settle (ClientContext.onRead oneRequest (endsWith bodies) (some getRequest)
        getRequest.length (.opened ()))) := Step.read _ (.data getRequest) _ rfl
  rwa [Execution.eq_ok_of_returns h] at hstep

/-- A request that is answered once. -/
theorem releasedOnce_answered :
    ∃ c, (system oneRequest).Run (.up (.opened ()))
        [.read (.data getRequest) (endsWith [ascii "ok"]), .complete 0] (.up c) ∧
      c.alive = false ∧ (Conn.up c).ReleasedOnce := by
  have h₁ := step_answered [ascii "ok"] (by decide +kernel)
  have howned := owned_answered [ascii "ok"]
  have hlast : (answered [ascii "ok"]).socket.inFlight = 1 := by decide +kernel
  have hopen : (answered [ascii "ok"]).socket.closing = false := by decide +kernel
  generalize answered [ascii "ok"] = c at h₁ howned hlast hopen
  have hpending : 0 < c.socket.inFlight := by omega
  have h₂ : Step oneRequest (.up c) (.complete 0) _ :=
    Step.complete c 0 hpending fun h => by rw [hopen] at h; cases h
  rw [ClientContext.onWriteDone_owned howned hpending] at h₂
  have hread : ((system oneRequest).guard ReleasesClean).Run (.up (.opened ()))
      [.read (.data getRequest) (endsWith [ascii "ok"])] (.up c) :=
    Transition.System.Run.guard_single trivial h₁
  have hclean : (Conn.up c).ReleasesClean (.complete 0) := hlast
  have hrun := hread.guard_snoc hclean h₂
  exact ⟨_, hrun.of_guard, rfl, releasedOnce_of_reachable oneRequest ⟨_, _, rfl, hrun⟩⟩

/-- A handler that ends the response twice, and one that ends it once and uses it again
after the write has completed. -/
theorem used_after_release :
    (∃ c, (system oneRequest).Run (.up (.opened ()))
        [.read (.data getRequest) (endsWith [ascii "a", ascii "b"]), .complete 0,
          .complete (-125)] (.down .destroyed c) ∧ ¬ (Conn.down .destroyed c).ReleasedOnce) ∧
    ∃ c, (system oneRequest).Run (.up (.opened ()))
        [.read (.data getRequest) (endsWith [ascii "a"]), .complete 0,
          .call ⟨.endWith (ascii "b") true, false⟩] (.down .destroyed c) ∧
      ¬ (Conn.down .destroyed c).ReleasedOnce := by
  constructor
  · have h₁ := step_answered [ascii "a", ascii "b"] (by decide +kernel)
    obtain ⟨d, hrun⟩ := run_of_overlap oneRequest (owned_answered [ascii "a", ascii "b"])
      (by decide +kernel) (by decide +kernel)
    exact ⟨d, (Transition.System.Run.single h₁).append hrun, fun h => h.1 d rfl⟩
  · have h₁ := step_answered [ascii "a"] (by decide +kernel)
    obtain ⟨d, hrun⟩ := run_of_late_use oneRequest (owned_answered [ascii "a"])
      (by decide +kernel) (by decide +kernel) ⟨.endWith (ascii "b") true, false⟩
    exact ⟨d, (Transition.System.Run.single h₁).append hrun, fun h => h.1 d rfl⟩

end Conn

end LibraCore.Http
