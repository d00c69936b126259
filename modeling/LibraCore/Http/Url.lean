import LibraCore.Base.Exception
import LibraCore.Http.UrlParser

/-!
# `url_obj`

The URL of a request: the text it was parsed from and the handle of the parse.

## Main results

- `UrlObj.fromBuf_accepted`, `UrlObj.fromBuf_rejected` — the outcome depends on the text,
  and not on what the object held before
-/

namespace LibraCore.Http

/-- The `len` bytes at `at`, and the bytes that follow them in memory. -/
structure Fragment where
  text : List UInt8
  after : List UInt8
  deriving DecidableEq, Repr

/-- `http_parser_parse_url` accepts the text. -/
def Fragment.Accepted (f : Fragment) : Prop :=
  (httpParserParseUrl (f.text ++ f.after) f.text.length false .zero).toBool = true

instance (f : Fragment) : Decidable f.Accepted :=
  inferInstanceAs (Decidable (_ = true))

/-- `url_parse_exception`. -/
def urlParseException : Exception :=
  { classId := .urlParseException, method := "HTTP", message := "Failed to parse URL." }

structure UrlObj where
  handle : ParserUrl
  buf : List UInt8

namespace UrlObj

def new : UrlObj := { handle := .zero, buf := [] }

/-- `from_buf`. -/
def fromBuf (f : Fragment) (isConnect : Bool) : EStateM Fault UrlObj Unit := fun url =>
  match httpParserParseUrl (f.text ++ f.after) f.text.length isConnect url.handle with
  | .ok handle => .ok () { handle := handle, buf := f.text }
  | .error handle => .error (.thrown urlParseException) { handle := handle, buf := f.text }

variable {f : Fragment}

theorem fromBuf_accepted (h : f.Accepted) (url : UrlObj) :
    ∃ handle, fromBuf f false url = .ok () { handle := handle, buf := f.text } := by
  have hagree := httpParserParseUrl_agree (f.text ++ f.after) f.text.length false url.handle .zero
  have hok := hagree.toBool_eq.trans h
  rw [fromBuf]
  cases hparse : httpParserParseUrl (f.text ++ f.after) f.text.length false url.handle with
  | ok handle => exact ⟨handle, rfl⟩
  | error handle =>
    rw [hparse] at hok
    cases hok

theorem fromBuf_rejected (h : ¬ f.Accepted) (url : UrlObj) :
    ∃ url', fromBuf f false url = .error (.thrown urlParseException) url' := by
  have hagree := httpParserParseUrl_agree (f.text ++ f.after) f.text.length false url.handle .zero
  rw [fromBuf]
  cases hparse : httpParserParseUrl (f.text ++ f.after) f.text.length false url.handle with
  | ok handle =>
    rw [hparse] at hagree
    exact absurd hagree.toBool_eq.symm h
  | error handle => exact ⟨_, rfl⟩

/-- An empty text leaves a new object as it was. -/
theorem fromBuf_new_empty (h : f.text = []) : fromBuf f false new = .ok () new := by
  rw [fromBuf, h]
  rfl

end UrlObj

end LibraCore.Http
