import LibraCore.Http.ClientContext

/-!
# What the callbacks leave alone

A property that survives what the member functions of the response do to the context
survives whatever the handler does; one that also survives what the callbacks of the
parser do survives all of them. The properties in question are closed under a few small
changes of the state, which `UseClosed` and `ReadClosed` list.

## Main results

- `keeps_handle` — the handler
- `keeps_feed` — the callbacks that the parser makes for some bytes
-/

namespace LibraCore.Http

theorem Response.withContentLength_client (body : List UInt8) (r : Response) :
    (r.withContentLength body).client = r.client := by
  rw [withContentLength]
  split_ifs <;> rfl

namespace ClientContext

open Execution (Keeps)

variable {S : Type} {I : ClientContext S → Prop} {E : Fault → Prop}

/-- A property of live contexts that uses of the response keep. -/
structure UseClosed (I : ClientContext S → Prop) : Prop where
  alive : ∀ c, I c → c.alive = true
  response : ∀ c (f : Response → Response), (∀ r, (f r).client = r.client) →
    I c → I { c with response := f c.response }
  wrote : ∀ c text len, I c → I { c with trace := c.trace ++ [.wrote text len] }
  write : ∀ c accepted, I c → I { c with socket := (c.socket.write .written accepted).2 }

/-- A property of live contexts that the callbacks of the parser keep. -/
structure ReadClosed (I : ClientContext S → Prop) : Prop extends UseClosed I where
  handled : ∀ c request, I c → I { c with trace := c.trace ++ [.handled request] }
  /-- the members of the context that only the parser's callbacks use -/
  members : ∀ c d : ClientContext S, d.alive = c.alive → d.socket = c.socket →
    d.response = c.response → d.trace = c.trace → I c → I d

theorem touch_alive {c : ClientContext S} (h : c.alive = true) : touch c = .ok () c := by
  rw [touch, if_pos h]

theorem touch_dead {c : ClientContext S} (h : c.alive = false) :
    touch c = .error .destroyed c := by
  rw [touch, if_neg (by rw [h]; decide)]

theorem keeps_touch (hI : ∀ c, I c → c.alive = true) : Keeps I E (touch (S := S)) := by
  intro c hc
  rw [touch_alive (hI c hc)]
  exact hc

theorem keeps_ask {α : Type} (f : ClientContext S → α) : Keeps I E (ask f) := fun _ hc => hc

theorem keeps_update {f : ClientContext S → ClientContext S} (h : ∀ c, I c → I (f c)) :
    Keeps I E (update f) := h

/-! ### Uses of the response -/

theorem keeps_statusText (hE : ∀ e, E (.thrown e)) : Keeps I E (statusText (S := S)) := by
  refine (keeps_ask _).bind ?_
  intro status
  cases Response.getStatusText status with
  | some text => exact Keeps.pure text
  | none => exact Keeps.throw (hE _)

section Use

variable (hI : UseClosed I) (hE : ∀ e, E (.thrown e))

include hI

theorem keeps_onResponse {f : Response → Response} (hf : ∀ r, (f r).client = r.client) :
    Keeps I E (onResponse (S := S) f) := fun c => hI.response c f hf

include hE

theorem keeps_endWith (body : List UInt8) (accepted : Bool) :
    Keeps I E (endWith (S := S) body accepted) := by
  refine (keeps_touch hI.alive).bind fun _ => ?_
  refine (keeps_onResponse hI (Response.withContentLength_client body)).bind fun _ => ?_
  refine (keeps_ask _).bind fun text => ?_
  refine (keeps_statusText hE).bind fun statusText => ?_
  refine (keeps_update fun c => hI.wrote c _ _).bind fun _ => ?_
  exact fun c => hI.write c accepted

theorem keeps_call (responseCall : ResponseCall) : Keeps I E (call (S := S) responseCall) := by
  cases responseCall with
  | setStatus statusCode =>
    exact (keeps_touch hI.alive).bind fun _ => keeps_onResponse hI fun _ => rfl
  | setHeader key value =>
    exact (keeps_touch hI.alive).bind fun _ => keeps_onResponse hI fun _ => rfl
  | endWith body accepted => exact (keeps_endWith hI hE body accepted).bind fun _ => Keeps.pure ()

theorem keeps_attempt (a : Attempt) : Keeps I E (attempt (S := S) a) :=
  Keeps.ite (Keeps.catchException (keeps_call hI hE a.call) fun _ => Keeps.pure ())
    (keeps_call hI hE a.call)

theorem keeps_attemptAll (attempts : List Attempt) :
    Keeps I E (attemptAll (S := S) attempts) := by
  induction attempts with
  | nil => exact Keeps.pure ()
  | cons a rest ih => exact (keeps_attempt hI hE a).bind fun _ => ih

theorem keeps_handle (handling : Handling) : Keeps I E (handle (S := S) handling) := by
  refine (keeps_attemptAll hI hE handling.attempts).bind fun _ => ?_
  cases handling.throws with
  | some e => exact Keeps.throw (hE e)
  | none => exact Keeps.pure ()

end Use

/-! ### The callbacks of the parser -/

theorem callbacks_cons (handling : Handling) {c d : ClientContext S} {parserCall : ParserCall}
    (rest : List ParserCall) (h : callback handling parserCall c = .ok 0 d) :
    callbacks handling (parserCall :: rest) c = callbacks handling rest d := by
  rw [callbacks, Execution.bind_ok h, if_neg (by decide)]

section Read

variable (hI : ReadClosed I) (hE : ∀ e, E (.thrown e))

include hI

/-- A callback that only changes members of the context, and returns 0. -/
theorem keeps_member {f : ClientContext S → ClientContext S}
    (hf : ∀ c, (f c).alive = c.alive ∧ (f c).socket = c.socket ∧ (f c).response = c.response ∧
      (f c).trace = c.trace) :
    Keeps I E (do update f; return (0 : ℤ)) := by
  refine (keeps_update fun c hc => ?_).bind fun _ => Keeps.pure 0
  obtain ⟨halive, hsocket, hresponse, htrace⟩ := hf c
  exact hI.members c (f c) halive hsocket hresponse htrace hc

include hE

theorem keeps_url (f : Fragment) :
    Keeps I E (url.run (W := ClientContext S) (UrlObj.fromBuf f false)) := by
  intro c hc
  rw [Execution.Place.run, UrlObj.fromBuf]
  cases httpParserParseUrl (f.text ++ f.after) f.text.length false (url.get c).handle with
  | ok handle => exact hI.members c _ rfl rfl rfl rfl hc
  | error handle => exact ⟨hE _, hI.members c _ rfl rfl rfl rfl hc⟩

theorem keeps_onMessageComplete (handling : Handling) :
    Keeps I E (onMessageComplete (S := S) handling) := by
  refine (keeps_ask _).bind fun request => ?_
  refine (keeps_update fun c => hI.handled c request).bind fun _ => ?_
  exact (keeps_handle hI.toUseClosed hE handling).bind fun _ => Keeps.pure 1

theorem keeps_callback (handling : Handling) (parserCall : ParserCall) :
    Keeps I E (callback (S := S) handling parserCall) := by
  refine (keeps_touch hI.alive).bind fun _ => ?_
  cases parserCall with
  | url f => exact (keeps_url hI hE f).bind fun _ => Keeps.pure 0
  | headerField text =>
    refine keeps_member hI fun c => ?_
    rw [onHeaderField]
    split_ifs <;> exact ⟨rfl, rfl, rfl, rfl⟩
  | headerValue text =>
    refine keeps_member hI fun c => ?_
    rw [onHeaderValue]
    split_ifs <;> exact ⟨rfl, rfl, rfl, rfl⟩
  | headersComplete =>
    refine keeps_member hI fun c => ?_
    rw [onHeadersComplete]
    split_ifs <;> exact ⟨rfl, rfl, rfl, rfl⟩
  | body text => exact keeps_member hI fun c => ⟨rfl, rfl, rfl, rfl⟩
  | messageComplete => exact keeps_onMessageComplete hI hE handling

theorem keeps_callbacks (handling : Handling) (calls : List ParserCall) :
    Keeps I E (callbacks (S := S) handling calls) := by
  induction calls with
  | nil => exact Keeps.pure ()
  | cons parserCall rest ih =>
    refine (keeps_callback hI hE handling parserCall).bind fun result => ?_
    refine Keeps.ite (keeps_update fun c => ?_) ih
    exact hI.members c _ rfl rfl rfl rfl

theorem keeps_feed (hbounds : E .outOfBounds) (parser : HttpParser S) (handling : Handling)
    (data : Option (List UInt8)) (len : ℕ) : Keeps I E (feed parser handling data len) := by
  refine (keeps_ask _).bind fun c => ?_
  refine Keeps.ite (Keeps.pure ()) (Keeps.ite (Keeps.throw hbounds) ?_)
  refine (keeps_update fun d => ?_).bind fun _ => keeps_callbacks hI hE handling _
  exact hI.members d _ rfl rfl rfl rfl

end Read

end ClientContext

end LibraCore.Http
