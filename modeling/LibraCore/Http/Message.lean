import LibraCore.Base.Exception
import LibraCore.Http.HeaderMap
import LibraCore.Http.Url

/-!
# `request` and `response`

The data of the two objects the handler is called with, and the text that a response is
written as.
-/

namespace LibraCore.Http

/-- `response_exception`. -/
def responseException (message : String) : Exception :=
  { classId := .responseException, method := "HTTP", message := message }

structure Request where
  url : UrlObj
  headers : HeaderMap
  body : List UInt8

namespace Request

def new : Request := { url := .new, headers := .empty, body := [] }

/-- `get_body`. -/
def getBody (request : Request) : List UInt8 := request.body

/-- `default_value_`, which nothing writes. -/
def defaultValue : List UInt8 := []

/-- `get_header`, which returns the value. -/
def getHeader (request : Request) (key : List UInt8) : List UInt8 :=
  match request.headers.find key with
  | some value => value
  | none => defaultValue

/-- The other `get_header`: whether there is a value, and what `value` then holds. -/
def getHeaderInto (request : Request) (key value : List UInt8) : Bool × List UInt8 :=
  match request.headers.find key with
  | some found => (true, found)
  | none => (false, value)

theorem getHeaderInto_eq (request : Request) (key value : List UInt8) :
    request.getHeaderInto key value =
      ((request.headers.find key).isSome, (request.headers.find key).getD value) := by
  rw [getHeaderInto]
  cases request.headers.find key with
  | some found => rfl
  | none => rfl

theorem getHeader_eq (request : Request) (key : List UInt8) :
    request.getHeader key = (request.headers.find key).getD [] := by
  rw [getHeader]
  cases request.headers.find key with
  | some value => rfl
  | none => rfl

end Request

structure Response where
  /-- `client_` holds the context -/
  client : Bool
  headers : HeaderMap
  status : ℤ

namespace Response

def new : Response where
  client := true
  headers := SortedMap.empty.set (ascii "Content-Type") (ascii "text/html")
  status := 200

/-- The table of `get_status_text`. -/
def statusTexts : List (ℤ × String) :=
  [(100, "Continue"), (101, "Switching Protocols"), (200, "OK"), (201, "Created"),
    (202, "Accepted"), (203, "Non-Authoritative Information"), (204, "No Content"),
    (205, "Reset Content"), (206, "Partial Content"), (300, "Multiple Choices"),
    (301, "Moved Permanently"), (302, "Found"), (303, "See Other"), (304, "Not Modified"),
    (305, "Use Proxy"), (307, "Temporary Redirect"), (400, "Bad Request"),
    (401, "Unauthorized"), (402, "Payment Required"), (403, "Forbidden"), (404, "Not Found"),
    (405, "Method Not Allowed"), (406, "Not Acceptable"),
    (407, "Proxy Authentication Required"), (408, "Request Timeout"), (409, "Conflict"),
    (410, "Gone"), (411, "Length Required"), (412, "Precondition Failed"),
    (413, "Request Entity Too Large"), (414, "Request-URI Too Long"),
    (415, "Unsupported Media Type"), (416, "Requested Range Not Satisfiable"),
    (417, "Expectation Failed"), (500, "Internal Server Error"), (501, "Not Implemented"),
    (502, "Bad Gateway"), (503, "Service Unavailable"), (504, "Gateway Timeout"),
    (505, "HTTP Version Not Supported")]

/-- `get_status_text`; `none` is the exception. -/
def getStatusText (status : ℤ) : Option String := statusTexts.lookup status

def setStatus (statusCode : ℤ) (response : Response) : Response :=
  { response with status := statusCode }

def setHeader (key value : List UInt8) (response : Response) : Response :=
  { response with headers := response.headers.set key value }

/-- `end`, up to the text: a `Content-Length` of its own where none is set. -/
def withContentLength (body : List UInt8) (response : Response) : Response :=
  if response.headers.find (ascii "Content-Length") = none then
    response.setHeader (ascii "Content-Length") (ascii (toString body.length))
  else response

/-- `response_text`. -/
def responseText (body : List UInt8) (statusText : String) (response : Response) : List UInt8 :=
  ascii "HTTP/1.1 " ++ ascii (toString response.status) ++ ascii " " ++ ascii statusText ++
    ascii "\r\n" ++
    (response.headers.entries.flatMap fun h => h.1 ++ ascii ": " ++ h.2 ++ ascii "\r\n") ++
    ascii "\r\n" ++ body

end Response

end LibraCore.Http
