import LibraCore.Net.Decoder
import LibraCore.Uv.Stream

/-!
# `tcp_server::Client` and the events of its connection

One connection of a `TCPServer` that uses `Decoder`, from the listen callback that
constructs the `Client` on. libuv and the application decide what happens next:
what arrives, whether a write is accepted and how it completes, what the packet
callback does. Every member function, and every callback that the client has
stored, first has to find the client alive; `Fault.destroyed` is its use after
`delete this`.

The trace of a client records what can be observed of a run.
-/

namespace LibraCore

/-- How a call of `send` goes: the socket is not active, or libuv takes the write
or refuses it. -/
inductive Reply
  | inactive | accepted | refused
  deriving DecidableEq, Repr

/-- What a packet handler does with a packet: it calls `send`, then it returns or throws
a `Libra::Exception`. It leaves `recv_buffer_` alone. -/
structure Reaction where
  sends : List Reply
  throws : Option Exception := none

/-- `PACKET_CB`: the reaction to a packet, after the packets passed before it. -/
abbrev PacketCb := List (List UInt8) → List UInt8 → Reaction

/-- `OVER_CB`: what it throws, if anything. The socket is closing when it is called,
so that a `send` it makes returns at once. -/
abbrev OverCb := Option Exception

/-- The callbacks a client stores in the table of its socket. -/
inductive ClientCallback
  | read | sent | closed
  deriving DecidableEq, Repr

/-- What can be observed: a read was appended, `packet_processor_` was called with a packet
and `rest` left in `recv_buffer_`, or there was none to call, the read callback caught an
exception, `over_cb_` was called, the client was destroyed. -/
inductive Mark
  | received (data : List UInt8)
  | handed (packet rest : List UInt8)
  | unhandled (packet rest : List UInt8)
  | caught (e : Exception)
  | calledOver
  | destroyed
  deriving DecidableEq, Repr

namespace Mark

def packet : Mark → Option (List UInt8)
  | handed packet _ | unhandled packet _ => some packet
  | _ => none

def handedPacket : Mark → Option (List UInt8)
  | handed packet _ => some packet
  | _ => none

def data : Mark → Option (List UInt8)
  | received data => some data
  | _ => none

end Mark

/-- The packets of a trace, whether there was a handler for them or not. -/
def packets (trace : List Mark) : List (List UInt8) := trace.filterMap Mark.packet

/-- The packets that the handler was called with. -/
def handedPackets (trace : List Mark) : List (List UInt8) := trace.filterMap Mark.handedPacket

/-- The bytes of the reads whose append succeeded. -/
def receivedBytes (trace : List Mark) : List UInt8 := (trace.filterMap Mark.data).flatten

structure Client where
  socket : Stream ClientCallback
  recvBuffer : Buffer
  packetProcessor : Option PacketCb
  overCb : Option OverCb
  alive : Bool
  trace : List Mark

abbrev ClientM := EStateM Fault Client

namespace Client

def recvCapacity : ℕ := 64 * 1024

/-- The members as the constructor initialises them. -/
def new : Client where
  socket := .new
  recvBuffer := Buffer.zeroed recvCapacity
  packetProcessor := none
  overCb := none
  alive := true
  trace := []

/-- Enter a member function or a stored callback. -/
def touch : ClientM Unit := fun c => if c.alive then .ok () c else .error .destroyed c

def ask {α : Type} (f : Client → α) : ClientM α := fun c => .ok (f c) c

def update (f : Client → Client) : ClientM Unit := fun c => .ok () (f c)

def note (m : Mark) : ClientM Unit := update fun c => { c with trace := c.trace ++ [m] }

/-- Throw, if there is something to throw. -/
def raise (throws : Option Exception) : ClientM Unit :=
  match throws with
  | some e => throw (.thrown e)
  | none => pure ()

/-- The call of `over_cb_`, or the warning that there is none. -/
def callOver : ClientM Unit := do
  match ← ask overCb with
  | none => pure ()
  | some throws =>
    catchException (do
      note .calledOver
      raise throws) fun _ => pure ()

def exceptError : ClientM Unit := do
  touch
  update fun c => { c with socket := c.socket.close .closed }
  callOver
  update fun c => { c with alive := false, trace := c.trace ++ [.destroyed] }

/-- `socket_->write`, with the callback of `send`. -/
def writeSocket (accepted : Bool) : ClientM Bool := fun c =>
  let (stored, socket) := c.socket.write .sent accepted
  .ok stored { c with socket := socket }

def send (reply : Reply) : ClientM Unit := do
  touch
  if reply = .inactive then pure ()
  else do
    let stored ← writeSocket (reply = .accepted)
    if !stored then exceptError else pure ()

/-- The calls of `send` from inside `packet_processor_`. After each of them control
comes back to `packet_processor_`, which the client owns. -/
def sendAll : List Reply → ClientM Unit
  | [] => pure ()
  | reply :: replies => do
    send reply
    touch
    sendAll replies

def react (reaction : Reaction) : ClientM Unit := do
  sendAll reaction.sends
  raise reaction.throws

/-- The call of `packet_processor_`, or the warning that there is none. -/
def callPacketProcessor (earlier : List (List UInt8)) (packet : List UInt8) : ClientM Unit := do
  let rest ← ask fun c => c.recvBuffer.contents
  match ← ask packetProcessor with
  | some cb =>
    note (.handed packet rest)
    catchException (react (cb earlier packet)) fun _ => pure ()
  | none => note (.unhandled packet rest)

def process (packet : ReaderPacket) : ClientM Unit := do
  touch
  let earlier ← ask fun c => packets c.trace
  callPacketProcessor earlier packet.buffer.contents

def buffer : Execution.Place Client Buffer where
  get c := c.recvBuffer
  put b c := { c with recvBuffer := b }

/-- The part of the read callback inside the `try`. -/
def receive (data : List UInt8) : ClientM Unit := do
  let _ ← buffer.run (Buffer.append data)
  note (.received data)
  let _ ← Decoder.handle buffer (some process)

/-- The callback of `read_start`; the bytes at `buf` are the `len` bytes read. -/
def onRead (buf : Option (List UInt8)) (len : ℤ) : ClientM Unit := do
  touch
  if buf = none ∧ len < 0 then exceptError
  else
    catchException (receive (buf.getD [])) fun e => do
      note (.caught e)
      exceptError

/-- The callback of `send`'s write. -/
def onSent (status : ℤ) : ClientM Unit := do
  touch
  if status ≠ 0 then exceptError else pure ()

/-- A write completes: the callback in the table is invoked. -/
def onWriteDone (status : ℤ) : ClientM Unit := fun c =>
  let (callback, socket) := c.socket.writeDone
  let c := { c with socket := socket }
  match callback with
  | some .sent => onSent status c
  | _ => .error .assertFailed c

/-- The constructor once the connection is accepted; `peername` is what `peername()`
throws. -/
def construct (peername : Option Exception) : ClientM Unit :=
  catchException (do
    raise peername
    update fun c => { c with socket := c.socket.readStart .read }) fun _ => exceptError

def setHanldePacketCb (packetCb : Option PacketCb) : ClientM Unit := do
  touch
  update fun c => { c with packetProcessor := packetCb }

def setOverCb (overCb : Option OverCb) : ClientM Unit := do
  touch
  update fun c => { c with overCb := overCb }

end Client

/-! ### One connection -/

/-- The arguments of `TCPServer::start` that reach the clients. -/
structure TcpServer where
  packetCb : Option PacketCb
  overCb : Option OverCb

/-- A connection: before the listen callback, after an accept that failed, with its
client, or after a fault. -/
inductive Conn
  | listening
  | rejected
  | up (c : Client)
  | down (f : Fault) (c : Client)

namespace Conn

def settle : EStateM.Result Fault Client Unit → Conn
  | .ok _ c => .up c
  | .error f c => .down f c

def client : Conn → Option Client
  | up c => some c
  | down _ c => some c
  | _ => none

inductive Event
  | connect (accept : Bool) (peername : Option Exception)
  | read (r : ReadResult)
  | send (reply : Reply)
  | complete (status : ℤ)

end Conn

namespace TcpServer

/-- The listen callback. An accept that fails throws out of the constructor, and no
client is left. -/
def onListen (server : TcpServer) (accept : Bool) (peername : Option Exception) : Conn :=
  if !accept then .rejected
  else
    .settle ((do
      Client.construct peername
      Client.setHanldePacketCb server.packetCb
      Client.setOverCb server.overCb) Client.new)

/-- What can happen next. Closing a socket stops its reads, and a write that is still
pending then completes with an error. -/
inductive Step (server : TcpServer) : Conn → Conn.Event → Conn → Prop
  | connect (accept : Bool) (peername : Option Exception) :
      Step server .listening (.connect accept peername) (server.onListen accept peername)
  | read (c : Client) (r : ReadResult) (hopen : c.socket.closing = false) :
      Step server (.up c) (.read r) (.settle (Client.onRead r.buf r.nread c))
  | send (c : Client) (reply : Reply) :
      Step server (.up c) (.send reply) (.settle (Client.send reply c))
  | complete (c : Client) (status : ℤ) (hpending : 0 < c.socket.inFlight)
      (hcancel : c.socket.closing = true → status ≠ 0) :
      Step server (.up c) (.complete status) (.settle (Client.onWriteDone status c))

def system (server : TcpServer) : Transition.System Conn Conn.Event where
  initial s := s = .listening
  step := server.Step

end TcpServer

end LibraCore
