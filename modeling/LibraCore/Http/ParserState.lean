import LibraCore.Http.HeaderMap
import LibraCore.Http.UrlParser

/-!
# The state of `http_parser`

`struct http_parser` with the enumerations and tables that `http_parser_execute` works
with, and the parts of it that only look at one byte and the parser: the matchers for
header names and values, and what becomes of a message when its headers are complete.

`nread` is kept apart from the other members. It is private to the parser, it counts the
bytes of a header to bound its size, and nothing else depends on it.
-/

namespace LibraCore.Http

/-! ### Enumerations -/

/-- `enum http_parser_type`. -/
inductive ParserType
  | request | response | both
  deriving DecidableEq, Repr

/-- `enum http_method`. -/
inductive HttpMethod
  | delete | get | head | post | put | connect | options | trace | copy | lock | mkcol | move
  | propfind | proppatch | search | unlock | bind | rebind | unbind | acl | report
  | mkactivity | checkout | merge | msearch | notify | subscribe | unsubscribe | patch
  | purge | mkcalendar | link | unlink
  deriving DecidableEq, Repr

/-- What the parser reports in pieces. -/
inductive DataField
  | url | status | headerField | headerValue | body
  deriving DecidableEq, Repr

/-- The callbacks that only announce something, `on_headers_complete` apart. -/
inductive Notice
  | messageBegin | messageComplete | chunkHeader | chunkComplete
  deriving DecidableEq, Repr

/-- `enum http_errno`: the `HPE_CB_` values are those of the callback that failed. -/
inductive HttpErrno
  | ok
  | cbNotice (n : Notice)
  | cbHeadersComplete
  | cbData (f : DataField)
  | invalidEofState
  | headerOverflow
  | closedConnection
  | invalidVersion
  | invalidStatus
  | invalidMethod
  | invalidUrl
  | lfExpected
  | invalidHeaderToken
  | invalidContentLength
  | unexpectedContentLength
  | invalidChunkSize
  | invalidConstant
  | strict
  | paused
  deriving DecidableEq, Repr

/-- `enum state`. -/
inductive ParserState
  | dead
  | startReqOrRes
  | resOrRespH
  | startRes
  | resH
  | resHT
  | resHTT
  | resHTTP
  | resHttpMajor
  | resHttpDot
  | resHttpMinor
  | resHttpEnd
  | resFirstStatusCode
  | resStatusCode
  | resStatusStart
  | resStatus
  | resLineAlmostDone
  | startReq
  | reqMethod
  | reqSpacesBeforeUrl
  | reqSchema
  | reqSchemaSlash
  | reqSchemaSlashSlash
  | reqServerStart
  | reqServer
  | reqServerWithAt
  | reqPath
  | reqQueryStringStart
  | reqQueryString
  | reqFragmentStart
  | reqFragment
  | reqHttpStart
  | reqHttpH
  | reqHttpHT
  | reqHttpHTT
  | reqHttpHTTP
  | reqHttpMajor
  | reqHttpDot
  | reqHttpMinor
  | reqHttpEnd
  | reqLineAlmostDone
  | headerFieldStart
  | headerField
  | headerValueDiscardWs
  | headerValueDiscardWsAlmostDone
  | headerValueDiscardLws
  | headerValueStart
  | headerValue
  | headerValueLws
  | headerAlmostDone
  | chunkSizeStart
  | chunkSize
  | chunkParameters
  | chunkSizeAlmostDone
  | headersAlmostDone
  | headersDone
  | chunkData
  | chunkDataAlmostDone
  | chunkDataDone
  | bodyIdentity
  | bodyIdentityEof
  | messageDone
  deriving DecidableEq, Repr

namespace ParserState

/-- `PARSING_HEADER`. -/
def parsingHeader : ParserState → Bool
  | chunkData | chunkDataAlmostDone | chunkDataDone | bodyIdentity | bodyIdentityEof
  | messageDone => false
  | _ => true

/-- The state as `parse_url_char` sees it; its default case rejects. -/
def url : ParserState → UrlState
  | reqSpacesBeforeUrl => .reqSpacesBeforeUrl
  | reqSchema => .reqSchema
  | reqSchemaSlash => .reqSchemaSlash
  | reqSchemaSlashSlash => .reqSchemaSlashSlash
  | reqServerStart => .reqServerStart
  | reqServer => .reqServer
  | reqServerWithAt => .reqServerWithAt
  | reqPath => .reqPath
  | reqQueryStringStart => .reqQueryStringStart
  | reqQueryString => .reqQueryString
  | reqFragmentStart => .reqFragmentStart
  | reqFragment => .reqFragment
  | _ => .dead

def ofUrl : UrlState → ParserState
  | .dead => dead
  | .reqSpacesBeforeUrl => reqSpacesBeforeUrl
  | .reqSchema => reqSchema
  | .reqSchemaSlash => reqSchemaSlash
  | .reqSchemaSlashSlash => reqSchemaSlashSlash
  | .reqServerStart => reqServerStart
  | .reqServer => reqServer
  | .reqServerWithAt => reqServerWithAt
  | .reqPath => reqPath
  | .reqQueryStringStart => reqQueryStringStart
  | .reqQueryString => reqQueryString
  | .reqFragmentStart => reqFragmentStart
  | .reqFragment => reqFragment

@[simp] theorem url_ofUrl (s : UrlState) : (ofUrl s).url = s := by
  cases s <;> rfl

end ParserState

/-- `enum header_states`. -/
inductive HeaderState
  | general
  | c
  | co
  | con
  | matchingConnection
  | matchingProxyConnection
  | matchingContentLength
  | matchingTransferEncoding
  | matchingUpgrade
  | connection
  | contentLength
  | transferEncoding
  | upgrade
  | matchingTransferEncodingChunked
  | matchingConnectionTokenStart
  | matchingConnectionKeepAlive
  | matchingConnectionClose
  | matchingConnectionUpgrade
  | matchingConnectionToken
  | transferEncodingChunked
  | connectionKeepAlive
  | connectionClose
  | connectionUpgrade
  deriving DecidableEq, Repr

/-! ### Tables and character classes -/

namespace HttpMethod

/-- `method_strings`. -/
def string : HttpMethod → List UInt8
  | delete => ascii "DELETE"
  | get => ascii "GET"
  | head => ascii "HEAD"
  | post => ascii "POST"
  | put => ascii "PUT"
  | connect => ascii "CONNECT"
  | options => ascii "OPTIONS"
  | trace => ascii "TRACE"
  | copy => ascii "COPY"
  | lock => ascii "LOCK"
  | mkcol => ascii "MKCOL"
  | move => ascii "MOVE"
  | propfind => ascii "PROPFIND"
  | proppatch => ascii "PROPPATCH"
  | search => ascii "SEARCH"
  | unlock => ascii "UNLOCK"
  | bind => ascii "BIND"
  | rebind => ascii "REBIND"
  | unbind => ascii "UNBIND"
  | acl => ascii "ACL"
  | report => ascii "REPORT"
  | mkactivity => ascii "MKACTIVITY"
  | checkout => ascii "CHECKOUT"
  | merge => ascii "MERGE"
  | msearch => ascii "M-SEARCH"
  | notify => ascii "NOTIFY"
  | subscribe => ascii "SUBSCRIBE"
  | unsubscribe => ascii "UNSUBSCRIBE"
  | patch => ascii "PATCH"
  | purge => ascii "PURGE"
  | mkcalendar => ascii "MKCALENDAR"
  | link => ascii "LINK"
  | unlink => ascii "UNLINK"

/-- The method that a first letter is taken for. -/
def initials : List (Char × HttpMethod) :=
  [('A', acl), ('B', bind), ('C', connect), ('D', delete), ('G', get), ('H', head), ('L', lock),
    ('M', mkcol), ('N', notify), ('O', options), ('P', post), ('R', report), ('S', subscribe),
    ('T', trace), ('U', unlock)]

def initial (ch : UInt8) : Option HttpMethod :=
  (initials.find? fun e => e.1.toUInt8 == ch).map Prod.snd

/-- `XX(meth, pos, ch, new_meth)`: where the letter at `pos` shows that it is another one. -/
def turns : List (HttpMethod × ℕ × Char × HttpMethod) :=
  [(post, 1, 'U', put), (post, 1, 'A', patch), (post, 1, 'R', propfind), (put, 2, 'R', purge),
    (connect, 1, 'H', checkout), (connect, 2, 'P', copy), (mkcol, 1, 'O', move),
    (mkcol, 1, 'E', merge), (mkcol, 1, '-', msearch), (mkcol, 2, 'A', mkactivity),
    (mkcol, 3, 'A', mkcalendar), (subscribe, 1, 'E', search), (report, 2, 'B', rebind),
    (propfind, 4, 'P', proppatch), (lock, 1, 'I', link), (unlock, 2, 'S', unsubscribe),
    (unlock, 2, 'B', unbind), (unlock, 3, 'I', unlink)]

def turn (m : HttpMethod) (index : ℕ) (ch : UInt8) : Option HttpMethod :=
  (turns.find? fun e => e.1 == m && e.2.1 == index && e.2.2.1.toUInt8 == ch).map fun e => e.2.2.2

end HttpMethod

/-- `CR`. -/
def cr : UInt8 := 13

/-- `LF`. -/
def lf : UInt8 := 10

def isCrLf (ch : UInt8) : Bool := ch == cr || ch == lf

/-- A space or a tab. -/
def isWs (ch : UInt8) : Bool := ch == 32 || ch == 9

/-- The table `tokens`, for the characters below 128. -/
def tokens : List UInt8 :=
  [0, 0, 0, 0, 0, 0, 0, 0, 0, 0, 0, 0, 0, 0, 0, 0, 0, 0, 0, 0, 0, 0, 0, 0, 0, 0, 0, 0, 0, 0, 0, 0,
    0, 33, 0, 35, 36, 37, 38, 39, 0, 0, 42, 43, 0, 45, 46, 0,
    48, 49, 50, 51, 52, 53, 54, 55, 56, 57, 0, 0, 0, 0, 0, 0,
    0, 97, 98, 99, 100, 101, 102, 103, 104, 105, 106, 107, 108, 109, 110, 111,
    112, 113, 114, 115, 116, 117, 118, 119, 120, 121, 122, 0, 0, 0, 94, 95,
    96, 97, 98, 99, 100, 101, 102, 103, 104, 105, 106, 107, 108, 109, 110, 111,
    112, 113, 114, 115, 116, 117, 118, 119, 120, 121, 122, 0, 124, 0, 126, 0]

/-- `TOKEN`: 0, or the character in lower case. -/
def token (ch : UInt8) : UInt8 := tokens.getD ch.toNat 0

/-- `IS_HEADER_CHAR`. -/
def isHeaderChar (ch : UInt8) : Bool := isCrLf ch || ch == 9 || (31 < ch && ch != 127)

/-- The table `unhex`; `none` is -1. Its initializer ends at 127, so the characters from
128 on are 0. -/
def unhex (ch : UInt8) : Option ℕ :=
  if 128 ≤ ch then some 0
  else if isNum ch then some (ch.toNat - 48)
  else if isHex ch then some ((lower ch).toNat - 87)
  else none

def ullongMax : ℕ := 2 ^ 64 - 1

/-- `HTTP_MAX_HEADER_SIZE`. -/
def httpMaxHeaderSize : ℕ := 80 * 1024

/-! ### The parser -/

/-- `enum flags`, a bit each. -/
structure Flags where
  chunked : Bool
  connectionKeepAlive : Bool
  connectionClose : Bool
  connectionUpgrade : Bool
  trailing : Bool
  upgrade : Bool
  skipbody : Bool
  contentLength : Bool
  deriving DecidableEq, Repr

/-- No flag set. -/
def Flags.zero : Flags := ⟨false, false, false, false, false, false, false, false⟩

/-- `http_parser` but `nread`. -/
structure Parser where
  type : ParserType
  flags : Flags
  state : ParserState
  headerState : HeaderState
  index : ℕ
  lenientHttpHeaders : Bool
  contentLength : ℕ
  httpMajor : ℕ
  httpMinor : ℕ
  statusCode : ℕ
  method : HttpMethod
  httpErrno : HttpErrno
  upgrade : Bool
  deriving DecidableEq, Repr

/-- `http_parser`. -/
structure ParserObj extends Parser where
  nread : ℕ
  deriving DecidableEq, Repr

namespace Parser

/-- `start_state`. -/
def startState (c : Parser) : ParserState := if c.type = .request then .startReq else .startRes

def httpMessageNeedsEof (c : Parser) : Bool :=
  if c.type = .request then false
  else if c.statusCode / 100 = 1 ∨ c.statusCode = 204 ∨ c.statusCode = 304 ∨ c.flags.skipbody then
    false
  else if c.flags.chunked ∨ c.contentLength ≠ ullongMax then false
  else true

def httpShouldKeepAlive (c : Parser) : Bool :=
  if 0 < c.httpMajor ∧ 0 < c.httpMinor then
    if c.flags.connectionClose then false else !c.httpMessageNeedsEof
  else if !c.flags.connectionKeepAlive then false
  else !c.httpMessageNeedsEof

/-- `NEW_MESSAGE`, in the strict parser. -/
def newMessage (c : Parser) : ParserState := if c.httpShouldKeepAlive then c.startState else .dead

/-- `++parser->index`, in its 7 bits. -/
def nextIndex (c : Parser) : ℕ := (c.index + 1) % 128

end Parser

/-- `http_parser_init`. -/
def httpParserInit (t : ParserType) : ParserObj where
  type := t
  flags := .zero
  state := match t with
    | .request => .startReq
    | .response => .startRes
    | .both => .startReqOrRes
  headerState := .general
  index := 0
  lenientHttpHeaders := false
  contentLength := 0
  httpMajor := 0
  httpMinor := 0
  statusCode := 0
  method := .delete
  httpErrno := .ok
  upgrade := false
  nread := 0

/-- `http_parser_pause`; `none` is the failed assertion. -/
def httpParserPause (parser : ParserObj) (paused : Bool) : Option ParserObj :=
  if parser.httpErrno = .ok ∨ parser.httpErrno = .paused then
    some { parser with httpErrno := if paused then .paused else .ok }
  else none

/-! ### Header names -/

/-- The comparison with the next character of a name, in lower case. At its last one the
header state becomes `found`; `other` is where a mismatch leads. -/
def Parser.matchChar (c : Parser) (name : List UInt8) (found other : HeaderState) (ch : UInt8) :
    Parser :=
  let c := { c with index := c.nextIndex }
  if name.length < c.index ∨ ch ≠ name.getD c.index 0 then { c with headerState := other }
  else if c.index = name.length - 1 then { c with headerState := found }
  else c

/-- What a first character, in lower case, may be the start of. -/
def nameStart (ch : UInt8) : HeaderState :=
  if ch = 'c'.toUInt8 then .c
  else if ch = 'p'.toUInt8 then .matchingProxyConnection
  else if ch = 't'.toUInt8 then .matchingTransferEncoding
  else if ch = 'u'.toUInt8 then .matchingUpgrade
  else .general

/-- A further character of a header name, and the token it is; `none` is a failed assertion. -/
def Parser.fieldChar (c : Parser) (ch t : UInt8) : Option Parser :=
  match c.headerState with
  | .general => some c
  | .c =>
    some { c with
      index := c.nextIndex
      headerState := if t = 'o'.toUInt8 then .co else .general }
  | .co =>
    some { c with
      index := c.nextIndex
      headerState := if t = 'n'.toUInt8 then .con else .general }
  | .con =>
    some { c with
      index := c.nextIndex
      headerState :=
        if t = 'n'.toUInt8 then .matchingConnection
        else if t = 't'.toUInt8 then .matchingContentLength
        else .general }
  | .matchingConnection => some (c.matchChar (ascii "connection") .connection .general t)
  | .matchingProxyConnection =>
    some (c.matchChar (ascii "proxy-connection") .connection .general t)
  | .matchingContentLength => some (c.matchChar (ascii "content-length") .contentLength .general t)
  | .matchingTransferEncoding =>
    some (c.matchChar (ascii "transfer-encoding") .transferEncoding .general t)
  | .matchingUpgrade => some (c.matchChar (ascii "upgrade") .upgrade .general t)
  | .connection | .contentLength | .transferEncoding | .upgrade =>
    some (if ch ≠ ' '.toUInt8 then { c with headerState := .general } else c)
  | _ => none

/-- The flag of a value that has come to its end. -/
def Parser.finishHeader (c : Parser) : Parser :=
  match c.headerState with
  | .connectionKeepAlive => { c with flags := { c.flags with connectionKeepAlive := true } }
  | .connectionClose => { c with flags := { c.flags with connectionClose := true } }
  | .transferEncodingChunked => { c with flags := { c.flags with chunked := true } }
  | .connectionUpgrade => { c with flags := { c.flags with connectionUpgrade := true } }
  | _ => c

end LibraCore.Http
