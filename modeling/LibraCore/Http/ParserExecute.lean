import LibraCore.Http.ParserScript
import LibraCore.Http.Url

/-!
# `http_parser_execute`

The loop over the bytes of a buffer, with the callbacks it makes. A mark is kept as the
text from the marked byte up to `p`. The callbacks see the parser and what `parser->data`
points to; they return a number and may pause the parser.

`loop` is given as many rounds as there are bytes. `ParserRuns` shows that they suffice.
-/

namespace LibraCore.Http

/-! ### Callbacks -/

/-- What a callback returns, and whether it has paused the parser. -/
structure Answer where
  value : ℤ
  paused : Bool
  deriving DecidableEq, Repr

/-- `http_errno` after a callback whose failure is `failed`. -/
def Answer.errno (a : Answer) (failed : HttpErrno) : HttpErrno :=
  if a.value ≠ 0 then failed else if a.paused then .paused else .ok

/-- `http_parser_settings`; `none` is a null pointer. -/
structure ParserSettings (D : Type) where
  onNotice : Notice → Option (Parser → D → Answer × D)
  onHeadersComplete : Option (Parser → D → Answer × D)
  onData : DataField → Option (Parser → Fragment → D → Answer × D)

/-- `http_parser_settings_init`. -/
def httpParserSettingsInit {D : Type} : ParserSettings D := ⟨fun _ => none, none, fun _ => none⟩

/-- How `http_parser_execute` ends before the buffer does. -/
inductive ParserStop (D : Type)
  | returned (n : ℕ) (parser : ParserObj) (app : D)
  | fault (f : ParserFault)

/-- The variables of a call; `p_state` is the state of `parser`. -/
structure Exec (D : Type) where
  parser : Parser
  nread : ℕ
  app : D
  mark : DataField → Option (List UInt8)
  /-- `p - data` -/
  position : ℕ
  /-- the bytes from `p` on -/
  rest : List UInt8

namespace Exec

variable {D : Type}

/-- `return n`, with `parser->state` up to date. -/
def stop (x : Exec D) (n : ℕ) : Except (ParserStop D) (Exec D) :=
  .error (.returned n { x.parser with nread := x.nread } x.app)

/-- `SET_ERRNO(e)`. -/
def setErrno (x : Exec D) (e : HttpErrno) : Exec D :=
  { x with parser := { x.parser with httpErrno := e } }

/-- `p += n`, at most to the end of the buffer. -/
def advance (x : Exec D) (n : ℕ) : Exec D :=
  { x with
    mark := fun f => (x.mark f).map (· ++ x.rest.take n)
    position := x.position + (x.rest.take n).length
    rest := x.rest.drop n }

/-- `MARK(f)`. -/
def setMark (x : Exec D) (f : DataField) : Exec D :=
  { x with mark := Function.update x.mark f (some ((x.mark f).getD [])) }

/-- `COUNT_HEADER_SIZE(n)`, in 32 bits. -/
def countHeaderSize (x : Exec D) (n : ℕ) : Except (ParserStop D) (Exec D) :=
  let x := { x with nread := (x.nread + n) % 2 ^ 32 }
  if httpMaxHeaderSize < x.nread then (x.setErrno .headerOverflow).stop x.position else .ok x

variable (settings : ParserSettings D)

/-- What follows a callback: the return of `p - data + er` if `http_errno` is set. -/
def afterCallback (x : Exec D) (e : HttpErrno) (er : ℕ) : Except (ParserStop D) (Exec D) :=
  if e ≠ .ok then (x.setErrno e).stop (x.position + er) else .ok x

/-- `CALLBACK_NOTIFY_`. -/
def callbackNotify (x : Exec D) (n : Notice) (er : ℕ) : Except (ParserStop D) (Exec D) :=
  if x.parser.httpErrno ≠ .ok then .error (.fault .assertFailed)
  else
    match settings.onNotice n with
    | none => .ok x
    | some callback =>
      let (answer, app) := callback x.parser x.app
      { x with app := app }.afterCallback (answer.errno (.cbNotice n)) er

/-- `CALLBACK_DATA_`. -/
def callbackData (x : Exec D) (f : DataField) (last : Bool) (er : ℕ) :
    Except (ParserStop D) (Exec D) :=
  if x.parser.httpErrno ≠ .ok then .error (.fault .assertFailed)
  else
    match x.mark f with
    | none => .ok x
    | some text =>
      match settings.onData f with
      | none => .ok { x with mark := Function.update x.mark f none }
      | some callback => do
        let n := if last then 1 else 0
        let (answer, app) := callback x.parser ⟨text ++ x.rest.take n, x.rest.drop n⟩ x.app
        let x ← { x with app := app }.afterCallback (answer.errno (.cbData f)) er
        return { x with mark := Function.update x.mark f none }

/-- The call of `on_headers_complete`. -/
def callbackHeadersComplete (x : Exec D) : Except (ParserStop D) (Exec D) :=
  match settings.onHeadersComplete with
  | none => .ok x
  | some callback =>
    let (answer, app) := callback x.parser x.app
    let x := { x with app := app }
    let skip := { x.parser with flags := { x.parser.flags with skipbody := true } }
    let errno := if answer.paused then .paused else .ok
    if answer.value = 0 then x.afterCallback errno 0
    else if answer.value = 1 then { x with parser := skip }.afterCallback errno 0
    else if answer.value = 2 then
      { x with parser := { skip with upgrade := true } }.afterCallback errno 0
    else x.afterCallback .cbHeadersComplete 0

/-! ### Scripts -/

def run (x : Exec D) : Script → Except (ParserStop D) (Exec D)
  | .next c => .ok { x with parser := c }
  | .error c e => { x with parser := { c with httpErrno := e } }.stop x.position
  | .exit c => { x with parser := c }.stop (x.position + 1)
  | .fault f => .error (.fault f)
  | .mark f rest => run (x.setMark f) rest
  | .data f c last er rest => do
    let x ← { x with parser := c }.callbackData settings f last er
    run x rest
  | .notify n c er rest => do
    let x ← { x with parser := c }.callbackNotify settings n er
    run x rest
  | .headersComplete c rest => do
    let x ← { x with parser := c }.callbackHeadersComplete settings
    run x (rest x.parser)
  | .resetRead rest => run { x with nread := 0 } rest
  | .assertRead n rest => if x.nread = n then run x rest else .error (.fault .assertFailed)

end Exec

/-! ### The loops over header names and values -/

namespace Parser

/-- The loop of `s_header_field`: up to the first byte that is no token. -/
def fieldScan (c : Parser) : List UInt8 → Option (Parser × List UInt8)
  | [] => some (c, [])
  | ch :: rest =>
    if token ch = 0 then some (c, ch :: rest)
    else do
      let c ← c.fieldChar ch (token ch)
      c.fieldScan rest

/-- A new element of the list in a `Connection` header. -/
def tokenStart (c : Parser) : Parser :=
  { c with headerState := .matchingConnectionTokenStart, index := 0 }

/-- The `switch (h_state)` of `s_header_value`, but for `h_general`. What is not handled is
an error, or a failed assertion. -/
def valueChar (c : Parser) (ch : UInt8) : Except Script Parser :=
  let l := lower ch
  match c.headerState with
  | .connection | .transferEncoding => .error (.fault .assertFailed)
  | .contentLength =>
    if ch = ' '.toUInt8 then .ok c
    else if !isNum ch ∨ (ullongMax - 10) / 10 < c.contentLength then
      .error (.error c .invalidContentLength)
    else .ok { c with contentLength := (c.contentLength * 10 + (ch.toNat - 48)) % 2 ^ 64 }
  | .matchingTransferEncodingChunked =>
    .ok (c.matchChar (ascii "chunked") .transferEncodingChunked .general l)
  | .matchingConnectionTokenStart =>
    .ok (if l = 'k'.toUInt8 then { c with headerState := .matchingConnectionKeepAlive }
      else if l = 'c'.toUInt8 then { c with headerState := .matchingConnectionClose }
      else if l = 'u'.toUInt8 then { c with headerState := .matchingConnectionUpgrade }
      else if token l ≠ 0 then { c with headerState := .matchingConnectionToken }
      else if isWs l then c
      else { c with headerState := .general })
  | .matchingConnectionKeepAlive =>
    .ok (c.matchChar (ascii "keep-alive") .connectionKeepAlive .matchingConnectionToken l)
  | .matchingConnectionClose =>
    .ok (c.matchChar (ascii "close") .connectionClose .matchingConnectionToken l)
  | .matchingConnectionUpgrade =>
    .ok (c.matchChar (ascii "upgrade") .connectionUpgrade .matchingConnectionToken l)
  | .matchingConnectionToken => .ok (if ch = ','.toUInt8 then c.tokenStart else c)
  | .transferEncodingChunked =>
    .ok (if ch ≠ ' '.toUInt8 then { c with headerState := .general } else c)
  | .connectionKeepAlive | .connectionClose | .connectionUpgrade =>
    .ok (if ch = ','.toUInt8 then c.finishHeader.tokenStart
      else if ch ≠ ' '.toUInt8 then { c with headerState := .matchingConnectionToken }
      else c)
  | _ => .ok { c with state := .headerValue, headerState := .general }

/-- `h_general`: the search for the end of the line, within the maximal header size. -/
def skipValue (rest : List UInt8) : List UInt8 :=
  let run := rest.takeWhile fun ch => !isCrLf ch
  if run.length < httpMaxHeaderSize then rest.drop run.length else []

/-- The loop of `s_header_value`: where it ends, and the error it ends with, if any. The
parser keeps the header state it had `before` when a character is not valid. -/
def valueScan (before : HeaderState) (c : Parser) :
    List UInt8 → Parser × List UInt8 × Option Script
  | [] => (c, [], none)
  | ch :: rest =>
    if isCrLf ch then (c, ch :: rest, none)
    else if !c.lenientHttpHeaders && !isHeaderChar ch then
      (c, ch :: rest, some (.error { c with headerState := before } .invalidHeaderToken))
    else if c.headerState = .general then (c, skipValue (ch :: rest), none)
    else
      match c.valueChar ch with
      | .ok c => c.valueScan before rest
      | .error script => (c, ch :: rest, some script)

end Parser

/-! ### The loop over the buffer -/

namespace Exec

variable {D : Type} (settings : ParserSettings D)

/-- `s_header_field`. -/
def headerField (x : Exec D) : Except (ParserStop D) (Exec D) :=
  match x.parser.fieldScan x.rest with
  | none => .error (.fault .assertFailed)
  | some (c, rest) => do
    let n := x.rest.length - rest.length
    let x ← ({ x with parser := c }.advance n).countHeaderSize n
    match rest with
    -- `--p; break`, which the `p++` of the loop takes back
    | [] => return x
    | ch :: _ =>
      x.run settings (Script.require (ch = ':'.toUInt8) c .invalidHeaderToken
        (.report .headerField (c.updateState .headerValueDiscardWs)))

/-- `s_header_value`. -/
def headerValue (x : Exec D) : Except (ParserStop D) (Exec D) := do
  let before := x.parser.headerState
  let (c, rest, stopped) := x.parser.valueScan before x.rest
  let n := x.rest.length - rest.length
  let x := { x with parser := c }.advance n
  match stopped, rest with
  | some script, _ => x.run settings script
  | none, [] => x.countHeaderSize n
  | none, ch :: _ =>
    let c := c.updateState .headerAlmostDone
    if ch = cr then
      let x ← x.run settings (.report .headerValue c)
      x.countHeaderSize n
    else
      let x ← { x with parser := { c with headerState := before } }.countHeaderSize n
      x.run settings (.data .headerValue c false 0 (c.headerAlmostDone ch))

/-- `MARK(body); parser->content_length -= to_read; p += to_read - 1`, after the assertion on
the length. -/
def readBody (x : Exec D) : Except (ParserStop D) (Exec D) :=
  let toRead := min x.parser.contentLength x.rest.length
  if x.parser.contentLength = 0 ∨ x.parser.contentLength = ullongMax then
    .error (.fault .assertFailed)
  else
    let c := { x.parser with contentLength := x.parser.contentLength - toRead }
    .ok ({ x.setMark .body with parser := c }.advance (toRead - 1))

/-- `s_body_identity`. -/
def bodyIdentity (x : Exec D) : Except (ParserStop D) (Exec D) := do
  let x ← x.readBody
  if x.parser.contentLength = 0 then
    let c := x.parser.updateState .messageDone
    x.run settings (.data .body c true 0 c.messageDone)
  else return x

/-- `s_chunk_data`. -/
def chunkData (x : Exec D) : Except (ParserStop D) (Exec D) :=
  if x.parser.flags.chunked = false then .error (.fault .assertFailed)
  else do
    let x ← x.readBody
    if x.parser.contentLength = 0 then
      return { x with parser := x.parser.updateState .chunkDataAlmostDone }
    else return x

/-- The body of the loop, with `p` in the buffer. -/
def step (x : Exec D) (ch : UInt8) : Except (ParserStop D) (Exec D) :=
  match x.parser.state with
  | .headerField => x.headerField settings
  | .headerValue => x.headerValue settings
  | .bodyIdentity => x.bodyIdentity settings
  | .chunkData => x.chunkData
  -- `p = data + len - 1`
  | .bodyIdentityEof => .ok ((x.setMark .body).advance (x.rest.length - 1))
  | _ => x.run settings (x.parser.switch ch)

/-- `if (PARSING_HEADER(CURRENT_STATE())) COUNT_HEADER_SIZE(1)`. -/
def countByte (x : Exec D) : Except (ParserStop D) (Exec D) :=
  if x.parser.state.parsingHeader then x.countHeaderSize 1 else .ok x

/-- `for (p=data; p != data + len; p++)`, in at most so many rounds. -/
def loop : ℕ → Exec D → Except (ParserStop D) (Exec D)
  | 0, x => .ok x
  | n + 1, x =>
    match x.rest with
    | [] => .ok x
    | ch :: _ => do
      let x ← x.countByte
      let x ← x.step settings ch
      loop n (x.advance 1)

/-- The callbacks for the marks that are left. -/
def flush (x : Exec D) : Except (ParserStop D) (Exec D) := do
  let marks := [DataField.headerField, .headerValue, .url, .body, .status]
  if 1 < marks.countP fun f => (x.mark f).isSome then .error (.fault .assertFailed)
  else
    let x ← x.callbackData settings .headerField false 0
    let x ← x.callbackData settings .headerValue false 0
    let x ← x.callbackData settings .url false 0
    let x ← x.callbackData settings .body false 0
    x.callbackData settings .status false 0

end Exec

/-- The mark that a call sets first. -/
def ParserState.openMark : ParserState → Option DataField
  | headerField => some .headerField
  | headerValue => some .headerValue
  | reqPath | reqSchema | reqSchemaSlash | reqSchemaSlashSlash | reqServerStart | reqServer
  | reqServerWithAt | reqQueryStringStart | reqQueryString | reqFragmentStart | reqFragment =>
    some .url
  | resStatus => some .status
  | _ => none

/-- The value of `http_parser_execute`, with what it leaves behind. -/
structure Executed (D : Type) where
  nparsed : ℕ
  parser : ParserObj
  app : D

namespace ParserObj

variable {D : Type} (settings : ParserSettings D)

/-- The variables at the start of the loop. -/
def start (parser : ParserObj) (app : D) (data : List UInt8) : Exec D where
  parser := parser.toParser
  nread := parser.nread
  app := app
  mark f := if parser.state.openMark = some f then some [] else none
  position := 0
  rest := data

def finish (n : ℕ) : Except (ParserStop D) (Exec D) → Except ParserFault (Executed D)
  | .ok x => .ok ⟨n, { x.parser with nread := x.nread }, x.app⟩
  | .error (.returned n parser app) => .ok ⟨n, parser, app⟩
  | .error (.fault f) => .error f

/-- The end of the input: a call with no bytes. -/
def executeEof (parser : ParserObj) (app : D) : Except ParserFault (Executed D) :=
  match parser.state with
  | .bodyIdentityEof =>
    finish 0 ((parser.start app []).callbackNotify settings .messageComplete 0)
  | .dead | .startReqOrRes | .startRes | .startReq => .ok ⟨0, parser, app⟩
  | _ => .ok ⟨1, { parser with httpErrno := .invalidEofState }, app⟩

/-- `http_parser_execute`. -/
def execute (parser : ParserObj) (app : D) (data : List UInt8) :
    Except ParserFault (Executed D) :=
  if parser.httpErrno ≠ .ok then .ok ⟨0, parser, app⟩
  else if data = [] then parser.executeEof settings app
  else finish data.length do
    let x ← (parser.start app data).loop settings data.length
    x.flush settings

end ParserObj

end LibraCore.Http
