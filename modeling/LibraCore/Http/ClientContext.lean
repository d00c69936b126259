import LibraCore.Foundations.Execution
import LibraCore.Http.Message
import LibraCore.Uv.Stream

/-!
# `client_context` and the events of its connection

One connection of an `Http` server, from `parse` on. The context owns the request and the
response, and the response holds a `shared_ptr` that owns the context: they are destroyed
together, when a completed write resets that pointer. Every member function, and every
callback that was stored, first has to find them alive; `Fault.destroyed` is their use
after that.

`http_parser_execute` is known by what the context relies on: which callbacks it makes for
the bytes it is given; the module `RequestParser` puts the parser itself in its place. The
handler and libuv decide the rest.

The trace of a context records what can be observed of a run.
-/

namespace LibraCore.Http

/-- A callback of `http_parser_settings`, with its arguments. -/
inductive ParserCall
  | url (f : Fragment)
  | headerField (text : List UInt8)
  | headerValue (text : List UInt8)
  | headersComplete
  | body (text : List UInt8)
  | messageComplete
  deriving DecidableEq, Repr

/-- `http_parser`, with states in `S`: the callbacks it makes for some bytes, as long as
they return 0, and the state it is left in. -/
structure HttpParser (S : Type) where
  /-- `http_parser_init` -/
  init : S
  /-- `http_errno` is set -/
  errno : S → Bool
  feed : S → List UInt8 → List ParserCall × S

/-- A member function of the response; `accepted` is whether libuv takes the write. -/
inductive ResponseCall
  | setStatus (statusCode : ℤ)
  | setHeader (key value : List UInt8)
  | endWith (body : List UInt8) (accepted : Bool)
  deriving DecidableEq, Repr

/-- A call on the response, and whether the caller catches what it throws. -/
structure Attempt where
  call : ResponseCall
  caught : Bool
  deriving DecidableEq, Repr

/-- What the handler does: it uses the response, then it returns or throws. -/
structure Handling where
  attempts : List Attempt
  throws : Option Exception

/-- The callbacks a context stores in the table of its socket. -/
inductive HttpCallback
  | read | written | closed
  deriving DecidableEq, Repr

/-- What can be observed: a call of `http_parser_execute`, the handler called with a
request, the text handed to the socket, the context destroyed. -/
inductive Mark
  | executed (data : Option (List UInt8)) (len : ℕ)
  | handled (request : Request)
  | wrote (text : List UInt8) (len : ℕ)
  | destroyed

structure ClientContext (S : Type) where
  parser : S
  /-- a callback has returned nonzero, so that `http_errno` is set -/
  halted : Bool
  wasHeaderValue : Bool
  lastHeaderField : List UInt8
  lastHeaderValue : List UInt8
  socket : Stream HttpCallback
  request : Request
  response : Response
  alive : Bool
  trace : List Mark

abbrev ContextM (S : Type) := EStateM Fault (ClientContext S)

namespace ClientContext

variable {S : Type}

/-- The members once the constructor and `parse` have run. -/
def opened (parser : S) : ClientContext S where
  parser := parser
  halted := false
  wasHeaderValue := true
  lastHeaderField := []
  lastHeaderValue := []
  socket := Stream.new.readStart .read
  request := .new
  response := .new
  alive := true
  trace := []

/-- Enter a member function or a stored callback. -/
def touch : ContextM S Unit := fun c => if c.alive then .ok () c else .error .destroyed c

def ask {α : Type} (f : ClientContext S → α) : ContextM S α := fun c => .ok (f c) c

def update (f : ClientContext S → ClientContext S) : ContextM S Unit := fun c => .ok () (f c)

def note (m : Mark) : ContextM S Unit := update fun c => { c with trace := c.trace ++ [m] }

/-! ### The response -/

def onResponse (f : Response → Response) : ContextM S Unit :=
  update fun c => { c with response := f c.response }

/-- `get_status_text`. -/
def statusText : ContextM S String := do
  match Response.getStatusText (← ask fun c => c.response.status) with
  | some text => pure text
  | none => throw (.thrown (responseException "Not supported status code."))

/-- `socket_->write`, with the callback of `end`. -/
def writeSocket (accepted : Bool) : ContextM S Bool := fun c =>
  let (stored, socket) := c.socket.write .written accepted
  .ok stored { c with socket := socket }

/-- `response::end`. -/
def endWith (body : List UInt8) (accepted : Bool) : ContextM S Bool := do
  touch
  onResponse (Response.withContentLength body)
  let text ← ask fun c => c.response.responseText body
  let text := text (← statusText)
  note (.wrote text (toSize (toInt32 text.length)))
  writeSocket accepted

def call : ResponseCall → ContextM S Unit
  | .setStatus statusCode => do
    touch
    onResponse (Response.setStatus statusCode)
  | .setHeader key value => do
    touch
    onResponse (Response.setHeader key value)
  | .endWith body accepted => do
    let _ ← endWith body accepted

def attempt (a : Attempt) : ContextM S Unit :=
  if a.caught then catchException (call a.call) fun _ => pure () else call a.call

def attemptAll : List Attempt → ContextM S Unit
  | [] => pure ()
  | a :: rest => do
    attempt a
    attemptAll rest

def handle (handling : Handling) : ContextM S Unit := do
  attemptAll handling.attempts
  match handling.throws with
  | some e => throw (.thrown e)
  | none => pure ()

/-! ### The callbacks of the parser -/

/-- Where `request_->url_` is found. -/
def url : Execution.Place (ClientContext S) UrlObj where
  get c := c.request.url
  put url c := { c with request := { c.request with url := url } }

/-- `request_->headers_[last_header_field_] = last_header_value_`. -/
def addHeader (c : ClientContext S) : ClientContext S :=
  { c with request := { c.request with
      headers := c.request.headers.set c.lastHeaderField c.lastHeaderValue } }

def onHeaderField (text : List UInt8) (c : ClientContext S) : ClientContext S :=
  if c.wasHeaderValue then
    -- a new field starts: the one before it is complete
    let c := if c.lastHeaderField ≠ [] then { c.addHeader with lastHeaderValue := [] } else c
    { c with lastHeaderField := text, wasHeaderValue := false }
  else { c with lastHeaderField := c.lastHeaderField ++ text }

def onHeaderValue (text : List UInt8) (c : ClientContext S) : ClientContext S :=
  if !c.wasHeaderValue then { c with lastHeaderValue := text, wasHeaderValue := true }
  else { c with lastHeaderValue := c.lastHeaderValue ++ text }

def onHeadersComplete (c : ClientContext S) : ClientContext S :=
  if c.lastHeaderField ≠ [] then c.addHeader else c

def onBody (text : List UInt8) (c : ClientContext S) : ClientContext S :=
  { c with request := { c.request with body := text } }

/-- `on_message_complete`. -/
def onMessageComplete (handling : Handling) : ContextM S ℤ := do
  note (.handled (← ask request))
  handle handling
  return 1

/-- A callback of the parser, with what it returns. -/
def callback (handling : Handling) (parserCall : ParserCall) : ContextM S ℤ := do
  touch
  match parserCall with
  | .url f => do
    url.run (UrlObj.fromBuf f false)
    return 0
  | .headerField text => do
    update (onHeaderField text)
    return 0
  | .headerValue text => do
    update (onHeaderValue text)
    return 0
  | .headersComplete => do
    update onHeadersComplete
    return 0
  | .body text => do
    update (onBody text)
    return 0
  | .messageComplete => onMessageComplete handling

/-- The callbacks of one call of the parser: it halts at the first that returns nonzero. -/
def callbacks (handling : Handling) : List ParserCall → ContextM S Unit
  | [] => pure ()
  | parserCall :: rest => do
    if (← callback handling parserCall) ≠ 0 then update fun c => { c with halted := true }
    else callbacks handling rest

/-! ### Reads and completed writes -/

/-- The parser reads `len` bytes from `data`, unless it is in an error state. -/
def feed (parser : HttpParser S) (handling : Handling) (data : Option (List UInt8)) (len : ℕ) :
    ContextM S Unit := do
  let c ← ask id
  if (c.halted || parser.errno c.parser) = true then pure ()
  else if (data.getD []).length < len then throw .outOfBounds
  else
    update fun c => { c with parser := (parser.feed c.parser ((data.getD []).take len)).2 }
    callbacks handling (parser.feed c.parser ((data.getD []).take len)).1

/-- `http_parser_execute` with the bytes at `data`: `none` is a null pointer. -/
def execute (parser : HttpParser S) (handling : Handling) (data : Option (List UInt8)) (len : ℕ) :
    ContextM S Unit := do
  note (.executed data len)
  feed parser handling data len

/-- The callback of `read_start`; it takes an `int`. -/
def onRead (parser : HttpParser S) (handling : Handling) (buf : Option (List UInt8)) (nread : ℤ) :
    ContextM S Unit := do
  touch
  let len := toInt32 nread
  if buf = none ∧ len = -1 then call (.setStatus 500)
  else execute parser handling buf (toSize len)

/-- `~client_context`, with the response and its pointer. -/
def destroyed (c : ClientContext S) : ClientContext S :=
  { c with
    response := { c.response with client := false }
    socket := c.socket.close .closed
    alive := false
    trace := c.trace ++ [.destroyed] }

/-- The callback of `end`'s write. -/
def onWritten : ContextM S Unit := do
  touch
  -- `client_.reset()`
  if (← ask fun c => c.response.client) = true then update destroyed else pure ()

/-- A write completes: the callback in the table is invoked, and looks at no status. -/
def onWriteDone (_status : ℤ) : ContextM S Unit := fun c =>
  let (callback, socket) := c.socket.writeDone
  let c := { c with socket := socket }
  match callback with
  | some .written => onWritten c
  | _ => .error .assertFailed c

end ClientContext

/-! ### One connection -/

/-- A connection: with its context, which may have been destroyed, or after undefined behaviour. -/
inductive Conn (S : Type)
  | up (c : ClientContext S)
  | down (f : Fault) (c : ClientContext S)

namespace Conn

variable {S : Type}

/-- An exception leaves the event loop, and the loop is entered again. -/
def settle : EStateM.Result Fault (ClientContext S) Unit → Conn S
  | .ok _ c => .up c
  | .error (.thrown _) c => .up c
  | .error f c => .down f c

def context : Conn S → ClientContext S
  | up c => c
  | down _ c => c

/-- `handling` is what the handler does if the read completes a message. -/
inductive Event
  | read (r : ReadResult) (handling : Handling)
  | call (a : Attempt)
  | complete (status : ℤ)

/-- What can happen next. Closing a socket stops its reads, and a write that is still
pending then completes with an error. -/
inductive Step (parser : HttpParser S) : Conn S → Event → Conn S → Prop
  | read (c : ClientContext S) (r : ReadResult) (handling : Handling)
      (hopen : c.socket.closing = false) :
      Step parser (.up c) (.read r handling) (.settle (c.onRead parser handling r.buf r.nread))
  | call (c : ClientContext S) (a : Attempt) :
      Step parser (.up c) (.call a) (.settle (ClientContext.attempt a c))
  | complete (c : ClientContext S) (status : ℤ) (hpending : 0 < c.socket.inFlight)
      (hcancel : c.socket.closing = true → status ≠ 0) :
      Step parser (.up c) (.complete status) (.settle (ClientContext.onWriteDone status c))

def system (parser : HttpParser S) : Transition.System (Conn S) Event where
  initial s := s = .up (.opened parser.init)
  step := Step parser

end Conn

end LibraCore.Http
