import LibraCore.Http.ParserState

/-!
# What `http_parser_execute` does with one byte

The `switch` of `http_parser_execute`. Each case looks at the byte and at the parser, and
then runs some of the macros that reach out of it: it sets marks, makes callbacks, returns.
A `Script` is the sequence of these, with the parser at each callback; a `REEXECUTE` goes on
with the script of the state it leads to.

The states whose case is a loop over the rest of the buffer are not here. The module
`ParserExecute` has their loops, and runs the scripts.
-/

namespace LibraCore.Http

/-- What a failed `assert`, or a read outside a table, ends in. -/
inductive ParserFault
  | assertFailed | outOfBounds
  deriving DecidableEq, Repr

/-- What is done with a byte. The parser in it is the one after the assignments so far. -/
inductive Script
  /-- `break`: the byte is consumed. -/
  | next (c : Parser)
  /-- `SET_ERRNO(e); goto error`. -/
  | error (c : Parser) (e : HttpErrno)
  /-- `RETURN((p - data) + 1)`. -/
  | exit (c : Parser)
  | fault (f : ParserFault)
  /-- `MARK(f)`. -/
  | mark (f : DataField) (rest : Script)
  /-- `CALLBACK_DATA_(f, p - f_mark, p - data + er)`; the text has the byte at `p` in it if
  `last` is set. -/
  | data (f : DataField) (c : Parser) (last : Bool) (er : ℕ) (rest : Script)
  /-- `CALLBACK_NOTIFY_(n, p - data + er)`. -/
  | notify (n : Notice) (c : Parser) (er : ℕ) (rest : Script)
  /-- The call of `on_headers_complete` and the `switch` over what it returns. -/
  | headersComplete (c : Parser) (rest : Parser → Script)
  /-- `parser->nread = 0`. -/
  | resetRead (rest : Script)
  /-- `assert(parser->nread == n)`. -/
  | assertRead (n : ℕ) (rest : Script)

namespace Script

/-- A condition that is an error when it fails. -/
def require (b : Bool) (c : Parser) (e : HttpErrno) (rest : Script) : Script :=
  if b then rest else .error c e

/-- `assert(b)`. -/
def assert (b : Bool) (rest : Script) : Script := if b then rest else .fault .assertFailed

/-- `CALLBACK_NOTIFY(n); break`. -/
def announce (n : Notice) (c : Parser) : Script := .notify n c 1 (.next c)

/-- `CALLBACK_DATA(f); break`. -/
def report (f : DataField) (c : Parser) : Script := .data f c false 1 (.next c)

end Script

namespace Parser

open Script

/-- `UPDATE_STATE`. -/
def updateState (c : Parser) (s : ParserState) : Parser := { c with state := s }

/-- `parser->flags = 0; parser->content_length = ULLONG_MAX`. -/
def clearMessage (c : Parser) : Parser := { c with flags := .zero, contentLength := ullongMax }

/-! ### The request and status lines -/

def startReq (c : Parser) (ch : UInt8) : Script :=
  if isCrLf ch then .next c
  else
    let c := c.clearMessage
    if !isAlpha ch then .error c .invalidMethod
    else
      let c := { c with method := .delete, index := 1 }
      match HttpMethod.initial ch with
      | none => .error c .invalidMethod
      | some m => announce .messageBegin { c with method := m, state := .reqMethod }

def startReqOrRes (c : Parser) (ch : UInt8) : Script :=
  if isCrLf ch then .next c
  else
    let c := c.clearMessage
    if ch = 'H'.toUInt8 then announce .messageBegin (c.updateState .resOrRespH)
    else startReq { c with type := .request, state := .startReq } ch

def resOrRespH (c : Parser) (ch : UInt8) : Script :=
  if ch = 'T'.toUInt8 then .next { c with type := .response, state := .resHT }
  else require (ch = 'E'.toUInt8) c .invalidConstant
    (.next { c with type := .request, method := .head, index := 2, state := .reqMethod })

def startRes (c : Parser) (ch : UInt8) : Script :=
  let c := c.clearMessage
  if ch = 'H'.toUInt8 then announce .messageBegin (c.updateState .resH)
  -- an empty line before the message is announced as well
  else if isCrLf ch then announce .messageBegin c
  else .error c .invalidConstant

/-- `STRICT_CHECK(ch != expected)` and on to the next state. -/
def expect (c : Parser) (ch : UInt8) (expected : Char) (s : ParserState) : Script :=
  require (ch = expected.toUInt8) c .strict (.next (c.updateState s))

def resStatus (c : Parser) (ch : UInt8) : Script :=
  if ch = cr then report .status (c.updateState .resLineAlmostDone)
  else if ch = lf then report .status (c.updateState .headerFieldStart)
  else .next c

def resStatusStart (c : Parser) (ch : UInt8) : Script :=
  let c := { c with state := .resStatus, index := 0 }
  .mark .status (if isCrLf ch then resStatus c ch else .next c)

def resFirstStatusCode (c : Parser) (ch : UInt8) : Script :=
  if isNum ch then .next { c with statusCode := ch.toNat - 48, state := .resStatusCode }
  else require (ch = ' '.toUInt8) c .invalidStatus (.next c)

def resStatusCode (c : Parser) (ch : UInt8) : Script :=
  if isNum ch then
    let c := { c with statusCode := c.statusCode * 10 + (ch.toNat - 48) }
    require (c.statusCode ≤ 999) c .invalidStatus (.next c)
  else if ch = ' '.toUInt8 then .next (c.updateState .resStatusStart)
  else if isCrLf ch then resStatusStart (c.updateState .resStatusStart) ch
  else .error c .invalidStatus

def reqMethod (c : Parser) (ch : UInt8) : Script :=
  if ch = 0 then .error c .invalidMethod
  else
    match (c.method.string ++ [0])[c.index]? with
    | none => .fault .outOfBounds
    | some m =>
      if ch = ' '.toUInt8 ∧ m = 0 then
        .next { c with state := .reqSpacesBeforeUrl, index := c.nextIndex }
      else if ch = m then .next { c with index := c.nextIndex }
      else if ('A'.toUInt8 ≤ ch ∧ ch ≤ 'Z'.toUInt8) ∨ ch = '-'.toUInt8 then
        match c.method.turn c.index ch with
        | none => .error c .invalidMethod
        | some m => .next { c with method := m, index := c.nextIndex }
      else .error c .invalidMethod

/-- `UPDATE_STATE(parse_url_char(CURRENT_STATE(), ch))`. -/
def urlChar (c : Parser) (ch : UInt8) : Script :=
  let c := c.updateState (.ofUrl (parseUrlChar c.state.url ch))
  require (c.state ≠ .dead) c .invalidUrl (.next c)

def reqSpacesBeforeUrl (c : Parser) (ch : UInt8) : Script :=
  if ch = ' '.toUInt8 then .next c
  else
    .mark .url
      (urlChar (if c.method = .connect then c.updateState .reqServerStart else c) ch)

/-- The states up to the server, where the target may not end. -/
def reqSchema (c : Parser) (ch : UInt8) : Script :=
  if ch = ' '.toUInt8 ∨ isCrLf ch then .error c .invalidUrl else urlChar c ch

/-- The states from the server on. -/
def reqTarget (c : Parser) (ch : UInt8) : Script :=
  if ch = ' '.toUInt8 then report .url (c.updateState .reqHttpStart)
  else if isCrLf ch then
    report .url { c with
      httpMajor := 0
      httpMinor := 9
      state := if ch = cr then .reqLineAlmostDone else .headerFieldStart }
  else urlChar c ch

def reqHttpStart (c : Parser) (ch : UInt8) : Script :=
  if ch = 'H'.toUInt8 then .next (c.updateState .reqHttpH)
  else require (ch = ' '.toUInt8) c .invalidConstant (.next c)

/-- A digit of the version, which `set` keeps. -/
def versionDigit (c : Parser) (ch : UInt8) (set : ℕ → Parser) : Script :=
  require (isNum ch) c .invalidVersion (.next (set (ch.toNat - 48)))

def versionChar (c : Parser) (ch : UInt8) (expected : Char) (s : ParserState) : Script :=
  require (ch = expected.toUInt8) c .invalidVersion (.next (c.updateState s))

def reqHttpEnd (c : Parser) (ch : UInt8) : Script :=
  if ch = cr then .next (c.updateState .reqLineAlmostDone)
  else require (ch = lf) c .invalidVersion (.next (c.updateState .headerFieldStart))

/-! ### The end of the headers and of the message -/

def messageDone (c : Parser) : Script :=
  let c := c.updateState c.newMessage
  .notify .messageComplete c 1 (if c.upgrade then .exit c else .next c)

/-- `int hasBody`. -/
def hasBody (c : Parser) : Bool :=
  c.flags.chunked || (0 < c.contentLength && c.contentLength ≠ ullongMax)

def headersDone (c : Parser) (ch : UInt8) : Script :=
  require (ch = lf) c .strict <| .resetRead <|
    if c.upgrade ∧ (c.method = .connect ∨ c.flags.skipbody ∨ !c.hasBody) then
      -- the rest of the message is in a different protocol
      let c := c.updateState c.newMessage
      .notify .messageComplete c 1 (.exit c)
    else if c.flags.skipbody then announce .messageComplete (c.updateState c.newMessage)
    else if c.flags.chunked then .next (c.updateState .chunkSizeStart)
    else if c.contentLength = 0 then announce .messageComplete (c.updateState c.newMessage)
    else if c.contentLength ≠ ullongMax then .next (c.updateState .bodyIdentity)
    else if !c.httpMessageNeedsEof then announce .messageComplete (c.updateState c.newMessage)
    else .next (c.updateState .bodyIdentityEof)

/-- `parser->upgrade`, as `on_headers_complete` sees it. -/
def upgrades (c : Parser) : Bool :=
  if c.flags.upgrade ∧ c.flags.connectionUpgrade then c.type = .request ∨ c.statusCode = 101
  else c.method = .connect

def headersAlmostDone (c : Parser) (ch : UInt8) : Script :=
  require (ch = lf) c .strict <|
    if c.flags.trailing then
      -- the end of a chunked message
      let c := c.updateState .messageDone
      .notify .chunkComplete c 0 c.messageDone
    else if c.flags.chunked ∧ c.flags.contentLength then .error c .unexpectedContentLength
    else
      .headersComplete { c with state := .headersDone, upgrade := c.upgrades } fun c =>
        c.headersDone ch

/-! ### Header fields -/

def headerFieldStart (c : Parser) (ch : UInt8) : Script :=
  if ch = cr then .next (c.updateState .headersAlmostDone)
  else if ch = lf then headersAlmostDone (c.updateState .headersAlmostDone) ch
  else
    require (token ch ≠ 0) c .invalidHeaderToken <| .mark .headerField <|
      .next { c with index := 0, state := .headerField, headerState := nameStart (token ch) }

def headerValueStart (c : Parser) (ch : UInt8) : Script :=
  .mark .headerValue <|
    let c := { c with state := .headerValue, index := 0 }
    match c.headerState with
    | .upgrade =>
      .next { c with flags := { c.flags with upgrade := true }, headerState := .general }
    | .transferEncoding =>
      .next { c with
        headerState :=
          if lower ch = 'c'.toUInt8 then .matchingTransferEncodingChunked else .general }
    | .contentLength =>
      require (isNum ch) c .invalidContentLength <|
        require (!c.flags.contentLength) c .unexpectedContentLength <|
          .next { c with
            flags := { c.flags with contentLength := true }
            contentLength := ch.toNat - 48 }
    | .connection =>
      .next { c with
        headerState :=
          if lower ch = 'k'.toUInt8 then .matchingConnectionKeepAlive
          else if lower ch = 'c'.toUInt8 then .matchingConnectionClose
          else if lower ch = 'u'.toUInt8 then .matchingConnectionUpgrade
          else .matchingConnectionToken }
    | .matchingConnectionTokenStart => .next c
    | _ => .next { c with headerState := .general }

def headerValueDiscardWs (c : Parser) (ch : UInt8) : Script :=
  if isWs ch then .next c
  else if ch = cr then .next (c.updateState .headerValueDiscardWsAlmostDone)
  else if ch = lf then .next (c.updateState .headerValueDiscardLws)
  else headerValueStart c ch

def headerAlmostDone (c : Parser) (ch : UInt8) : Script :=
  require (ch = lf) c .lfExpected (.next (c.updateState .headerValueLws))

def headerValueLws (c : Parser) (ch : UInt8) : Script :=
  if isWs ch then headerValueStart (c.updateState .headerValueStart) ch
  else headerFieldStart (c.finishHeader.updateState .headerFieldStart) ch

def headerValueDiscardLws (c : Parser) (ch : UInt8) : Script :=
  if isWs ch then .next (c.updateState .headerValueDiscardWs)
  else
    -- the value was empty
    let c := c.finishHeader.updateState .headerFieldStart
    .mark .headerValue (.data .headerValue c false 0 (headerFieldStart c ch))

/-! ### Chunks -/

def chunkSizeStart (c : Parser) (ch : UInt8) : Script :=
  .assertRead 1 <| assert c.flags.chunked <|
    match unhex ch with
    | none => .error c .invalidChunkSize
    | some v => .next { c with contentLength := v, state := .chunkSize }

def chunkSize (c : Parser) (ch : UInt8) : Script :=
  assert c.flags.chunked <|
    if ch = cr then .next (c.updateState .chunkSizeAlmostDone)
    else
      match unhex ch with
      | none =>
        require (ch = ';'.toUInt8 ∨ ch = ' '.toUInt8) c .invalidChunkSize
          (.next (c.updateState .chunkParameters))
      | some v =>
        require (c.contentLength ≤ (ullongMax - 16) / 16) c .invalidContentLength
          (.next { c with contentLength := (c.contentLength * 16 + v) % 2 ^ 64 })

def chunkParameters (c : Parser) (ch : UInt8) : Script :=
  assert c.flags.chunked
    (.next (if ch = cr then c.updateState .chunkSizeAlmostDone else c))

def chunkSizeAlmostDone (c : Parser) (ch : UInt8) : Script :=
  assert c.flags.chunked <| require (ch = lf) c .strict <| .resetRead <|
    announce .chunkHeader <|
      if c.contentLength = 0 then
        { c with flags := { c.flags with trailing := true }, state := .headerFieldStart }
      else c.updateState .chunkData

def chunkDataAlmostDone (c : Parser) (ch : UInt8) : Script :=
  assert c.flags.chunked <| assert (c.contentLength = 0) <| require (ch = cr) c .strict <|
    report .body (c.updateState .chunkDataDone)

def chunkDataDone (c : Parser) (ch : UInt8) : Script :=
  assert c.flags.chunked <| require (ch = lf) c .strict <| .resetRead <|
    announce .chunkComplete (c.updateState .chunkSizeStart)

/-! ### The switch -/

/-- `switch (CURRENT_STATE())`. -/
def switch (c : Parser) (ch : UInt8) : Script :=
  match c.state with
  | .dead => require (isCrLf ch) c .closedConnection (.next c)
  | .startReqOrRes => c.startReqOrRes ch
  | .resOrRespH => c.resOrRespH ch
  | .startRes => c.startRes ch
  | .resH => c.expect ch 'T' .resHT
  | .resHT => c.expect ch 'T' .resHTT
  | .resHTT => c.expect ch 'P' .resHTTP
  | .resHTTP => c.expect ch '/' .resHttpMajor
  | .resHttpMajor => c.versionDigit ch fun v => { c with httpMajor := v, state := .resHttpDot }
  | .resHttpDot => c.versionChar ch '.' .resHttpMinor
  | .resHttpMinor => c.versionDigit ch fun v => { c with httpMinor := v, state := .resHttpEnd }
  | .resHttpEnd => c.versionChar ch ' ' .resFirstStatusCode
  | .resFirstStatusCode => c.resFirstStatusCode ch
  | .resStatusCode => c.resStatusCode ch
  | .resStatusStart => c.resStatusStart ch
  | .resStatus => c.resStatus ch
  | .resLineAlmostDone => require (ch = lf) c .strict (.next (c.updateState .headerFieldStart))
  | .startReq => c.startReq ch
  | .reqMethod => c.reqMethod ch
  | .reqSpacesBeforeUrl => c.reqSpacesBeforeUrl ch
  | .reqSchema | .reqSchemaSlash | .reqSchemaSlashSlash | .reqServerStart => c.reqSchema ch
  | .reqServer | .reqServerWithAt | .reqPath | .reqQueryStringStart | .reqQueryString
  | .reqFragmentStart | .reqFragment => c.reqTarget ch
  | .reqHttpStart => c.reqHttpStart ch
  | .reqHttpH => c.expect ch 'T' .reqHttpHT
  | .reqHttpHT => c.expect ch 'T' .reqHttpHTT
  | .reqHttpHTT => c.expect ch 'P' .reqHttpHTTP
  | .reqHttpHTTP => c.expect ch '/' .reqHttpMajor
  | .reqHttpMajor => c.versionDigit ch fun v => { c with httpMajor := v, state := .reqHttpDot }
  | .reqHttpDot => c.versionChar ch '.' .reqHttpMinor
  | .reqHttpMinor => c.versionDigit ch fun v => { c with httpMinor := v, state := .reqHttpEnd }
  | .reqHttpEnd => c.reqHttpEnd ch
  | .reqLineAlmostDone => require (ch = lf) c .lfExpected (.next (c.updateState .headerFieldStart))
  | .headerFieldStart => c.headerFieldStart ch
  | .headerValueDiscardWs => c.headerValueDiscardWs ch
  | .headerValueDiscardWsAlmostDone =>
    require (ch = lf) c .strict (.next (c.updateState .headerValueDiscardLws))
  | .headerValueDiscardLws => c.headerValueDiscardLws ch
  | .headerValueStart => c.headerValueStart ch
  | .headerValueLws => c.headerValueLws ch
  | .headerAlmostDone => c.headerAlmostDone ch
  | .chunkSizeStart => c.chunkSizeStart ch
  | .chunkSize => c.chunkSize ch
  | .chunkParameters => c.chunkParameters ch
  | .chunkSizeAlmostDone => c.chunkSizeAlmostDone ch
  | .headersAlmostDone => c.headersAlmostDone ch
  | .headersDone => c.headersDone ch
  | .chunkDataAlmostDone => c.chunkDataAlmostDone ch
  | .chunkDataDone => c.chunkDataDone ch
  | .messageDone => c.messageDone
  -- a loop of its own
  | .headerField | .headerValue | .bodyIdentity | .bodyIdentityEof | .chunkData =>
    .fault .assertFailed

end Parser

end LibraCore.Http
