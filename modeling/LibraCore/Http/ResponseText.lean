import LibraCore.Foundations.HttpGrammar
import LibraCore.Http.Callbacks

/-!
# The text of a response

What a handler sets is kept in a map and written out by `end` as it is: nothing between
`set_header` and the socket looks at the bytes of a name or a value. The text says what was
set, and nothing else, exactly if every name is a token and every value that is written is a
field value; a value with a CR LF in it becomes a line of its own.

## Main results

- `Response.parse_responseText` — a text of valid fields is read back
- `ClientContext.says_iff` — when the text handed to the socket says what was set
-/

namespace LibraCore.Http

open HttpGrammar (IsToken IsFieldValue IsField isTchar isText parse render renderFields)
open Execution (final bind_ok)

/-! ### Names and values -/

theorem isTchar_tolower (c : UInt8) : isTchar (tolower c) = isTchar c := by
  have h : ∀ n < 256, isTchar (tolower (UInt8.ofNat n)) = isTchar (UInt8.ofNat n) := by
    decide +kernel
  have hc := h c.toNat c.toNat_lt
  rwa [UInt8.ofNat_toNat] at hc

/-- Names that differ in the case of letters only are tokens together. -/
theorem isToken_congr {s t : List UInt8} (h : folded s = folded t) (hs : IsToken s) :
    IsToken t := by
  have hmap : s.map tolower = t.map tolower := by
    have hinj : Function.Injective UInt8.toNat := fun a b => UInt8.toNat_inj.mp
    apply List.map_injective_iff.mpr hinj
    rw [List.map_map, List.map_map]
    exact h
  obtain ⟨hne, hchars⟩ := hs
  refine ⟨?_, ?_⟩
  · rintro rfl
    rw [List.map_nil, List.map_eq_nil_iff] at hmap
    exact hne hmap
  · intro c hc
    have hmem : tolower c ∈ s.map tolower := hmap ▸ List.mem_map_of_mem hc
    obtain ⟨d, hd, hdc⟩ := List.mem_map.mp hmem
    rw [← isTchar_tolower, ← hdc, isTchar_tolower]
    exact hchars d hd

/-- A decimal number is a field value. -/
theorem isFieldValue_toString (n : ℕ) : IsFieldValue (ascii (toString n)) := by
  have hdigit {c : UInt8} (hc : c ∈ ascii (toString n)) : 48 ≤ c.toNat ∧ c.toNat ≤ 57 := by
    obtain ⟨d, hd, rfl⟩ := List.mem_map.mp hc
    have hd' : d ∈ Nat.toDigits 10 n := by
      rw [← Nat.toList_repr]
      exact hd
    obtain ⟨hlo, hhi⟩ :=
      Char.isDigit_iff_toNat.mp (Nat.isDigit_of_mem_toDigits (by decide) (by decide) hd')
    have hval : d.toUInt8.toNat = d.toNat := by
      show d.val.toNat % 2 ^ 8 = d.val.toNat
      exact Nat.mod_eq_of_lt (lt_of_le_of_lt hhi (by decide))
    rw [hval]
    exact ⟨hlo, hhi⟩
  have hspec {c : UInt8} (hc : c ∈ ascii (toString n)) :
      isText c = true ∧ HttpGrammar.isBlank c = false := by
    obtain ⟨hlo, hhi⟩ := hdigit hc
    have hle : 32 ≤ c := UInt8.le_iff_toNat_le.mpr (le_trans (by decide) hlo)
    have hdel : c ≠ 127 := by
      rintro rfl
      exact absurd hhi (by decide)
    have hspace : c ≠ 32 := by
      rintro rfl
      exact absurd hlo (by decide)
    have htab : c ≠ 9 := by
      rintro rfl
      exact absurd hlo (by decide)
    simp [HttpGrammar.isText, HttpGrammar.isBlank, hle, hdel, hspace, htab]
  exact ⟨fun c hc => (hspec hc).1, fun c hc => (hspec (List.mem_of_mem_head? hc)).2,
    fun c hc => (hspec (List.mem_of_mem_getLast? hc)).2⟩

/-! ### What is set -/

/-- A call that prepares the response: `set_status` with a status the table knows, or
`set_header`. -/
inductive Setting
  | status (statusCode : ℤ) (supported : (Response.getStatusText statusCode).isSome)
  | header (key value : List UInt8)

namespace Setting

def call : Setting → ResponseCall
  | status statusCode _ => .setStatus statusCode
  | header key value => .setHeader key value

def apply : Setting → Response → Response
  | status statusCode _, r => r.setStatus statusCode
  | header key value, r => r.setHeader key value

def code : Setting → Option ℤ
  | status statusCode _ => some statusCode
  | header _ _ => none

def field : Setting → Option HttpGrammar.Field
  | status _ _ => none
  | header key value => some (key, value)

end Setting

/-- The response after some settings. -/
def Response.applyAll (settings : List Setting) : Response :=
  settings.foldl (fun r s => s.apply r) .new

/-- The status that was set last. -/
def lastStatus (settings : List Setting) : ℤ := (settings.filterMap Setting.code).getLast?.getD 200

/-- The headers that were set, in order. -/
def headersSet (settings : List Setting) : List HttpGrammar.Field :=
  settings.filterMap Setting.field

/-- The headers a response with this body should have, with the two that it has by itself. -/
def expectedHeaders (settings : List Setting) (body : List UInt8) : List HttpGrammar.Field :=
  let fields := (ascii "Content-Type", ascii "text/html") :: headersSet settings
  if lastValue fields (ascii "Content-Length") = none then
    fields ++ [(ascii "Content-Length", ascii (toString body.length))]
  else fields

theorem applyAll_status (settings : List Setting) :
    (Response.applyAll settings).status = lastStatus settings ∧
      (Response.getStatusText (Response.applyAll settings).status).isSome := by
  induction settings using List.reverseRecOn with
  | nil => exact ⟨rfl, rfl⟩
  | append_singleton settings s ih =>
    rw [Response.applyAll, List.foldl_append]
    cases s with
    | status statusCode supported =>
      simp [Setting.apply, Response.setStatus, lastStatus, Setting.code, supported]
    | header key value =>
      simpa [Setting.apply, Response.setHeader, lastStatus, Setting.code, Response.applyAll] using ih

theorem applyAll_headers (settings : List Setting) :
    (Response.applyAll settings).headers =
      HeaderMap.setAll .empty ((ascii "Content-Type", ascii "text/html") :: headersSet settings) := by
  induction settings using List.reverseRecOn with
  | nil => rfl
  | append_singleton settings s ih =>
    rw [Response.applyAll, List.foldl_append]
    cases s with
    | status statusCode supported =>
      have hset : headersSet (settings ++ [.status statusCode supported]) =
          headersSet settings := by simp [headersSet, Setting.field]
      rw [hset, ← ih]
      rfl
    | header key value =>
      have hset : headersSet (settings ++ [.header key value]) =
          headersSet settings ++ [(key, value)] := by simp [headersSet, Setting.field]
      rw [hset, ← List.cons_append, HeaderMap.setAll_append, ← ih]
      rfl

/-- `end` adds the length of the body where none was set. -/
theorem withContentLength_headers (settings : List Setting) (body : List UInt8) :
    ((Response.applyAll settings).withContentLength body).headers =
      HeaderMap.setAll .empty (expectedHeaders settings body) := by
  have hfind : (Response.applyAll settings).headers.find (ascii "Content-Length") =
      lastValue ((ascii "Content-Type", ascii "text/html") :: headersSet settings)
        (ascii "Content-Length") := by
    rw [applyAll_headers, HeaderMap.find_setAll, SortedMap.find_empty, Option.or_none]
  rw [Response.withContentLength, expectedHeaders, hfind]
  split_ifs with hnone
  · rw [HeaderMap.setAll_append, ← applyAll_headers]
    rfl
  · exact applyAll_headers settings

/-! ### The text -/

namespace Response

/-- The table of `get_status_text` has three digits and a plain text in each line. -/
theorem statusTexts_spec : ∀ e ∈ statusTexts, 0 ≤ e.1 ∧ e.1.toNat < 1000 ∧
    ascii (toString e.1) = [HttpGrammar.digit (e.1.toNat / 100),
      HttpGrammar.digit (e.1.toNat / 10), HttpGrammar.digit e.1.toNat] ∧
    (ascii e.2).all isText = true := by decide +kernel

theorem mem_statusTexts {status : ℤ} {statusText : String}
    (h : getStatusText status = some statusText) : (status, statusText) ∈ statusTexts := by
  obtain ⟨before, after, hsplit, -⟩ := List.lookup_eq_some_iff.mp h
  rw [hsplit]
  exact List.mem_append_right before List.mem_cons_self

theorem withContentLength_status (body : List UInt8) (r : Response) :
    (r.withContentLength body).status = r.status := by
  rw [withContentLength]
  split_ifs <;> rfl

theorem renderFields_eq (fs : List HttpGrammar.Field) (body : List UInt8) :
    renderFields fs body =
      (fs.flatMap fun h => h.1 ++ ascii ": " ++ h.2 ++ ascii "\r\n") ++ ascii "\r\n" ++ body := by
  have hcrlf : ascii "\r\n" = [13, 10] := by decide
  have hcolon : ascii ": " = [58, 32] := by decide
  induction fs with
  | nil => simp [renderFields, hcrlf]
  | cons f fs ih => simp [renderFields, ih, HttpGrammar.fieldLine, hcrlf, hcolon]

/-- The message that a response is written as. -/
def message (body : List UInt8) (statusText : String) (response : Response) :
    HttpGrammar.Response where
  status := response.status.toNat
  reason := ascii statusText
  fields := response.headers.entries
  body := body

theorem responseText_eq {r : Response} {statusText : String}
    (hstatus : getStatusText r.status = some statusText) (body : List UInt8) :
    r.responseText body statusText = render (r.message body statusText) := by
  obtain ⟨-, -, hdigits, -⟩ := statusTexts_spec _ (mem_statusTexts hstatus)
  have hversion : ascii "HTTP/1.1 " = HttpGrammar.version := by decide
  have hspace : ascii " " = [32] := by decide
  have hcrlf : ascii "\r\n" = [13, 10] := by decide
  simp only [responseText, render, message, HttpGrammar.statusLine, renderFields_eq, hdigits,
    hversion, hspace]
  simp [hcrlf]

/-- A text of valid fields is read back. -/
theorem parse_responseText {r : Response} {statusText : String}
    (hstatus : getStatusText r.status = some statusText)
    (hfields : ∀ e ∈ r.headers.entries, IsField e) (body : List UInt8) :
    parse (r.responseText body statusText) = some (r.message body statusText) := by
  obtain ⟨-, hlt, -, htext⟩ := statusTexts_spec _ (mem_statusTexts hstatus)
  rw [responseText_eq hstatus]
  exact HttpGrammar.parse_render ⟨hlt, List.all_eq_true.mp htext, hfields⟩

end Response

/-! ### Whether the text says what was set -/

/-- All names are tokens, and the value that each of them has in the end is a field value. -/
def PlainHeaders (settings : List Setting) : Prop :=
  ∀ e ∈ headersSet settings,
    IsToken e.1 ∧ ∀ v ∈ lastValue (headersSet settings) e.1, IsFieldValue v

instance (settings : List Setting) : Decidable (PlainHeaders settings) :=
  inferInstanceAs (Decidable (∀ e ∈ headersSet settings,
    IsToken e.1 ∧ ∀ v ∈ lastValue (headersSet settings) e.1, IsFieldValue v))

theorem lastValue_cons (e : HttpGrammar.Field) (es : List HttpGrammar.Field) (k : List UInt8) :
    lastValue (e :: es) k =
      (lastValue es k).or (if folded e.1 = folded k then some e.2 else none) := by
  rw [← lastValue_singleton, ← lastValue_append]
  rfl

/-- A header that was set is expected with the value it was given last. -/
theorem lastValue_expectedHeaders {settings : List Setting} {k v : List UInt8}
    (h : lastValue (headersSet settings) k = some v) (body : List UInt8) :
    lastValue (expectedHeaders settings body) k = some v := by
  have hset : lastValue ((ascii "Content-Type", ascii "text/html") :: headersSet settings) k =
      some v := by
    rw [lastValue_cons, h]
    rfl
  rw [expectedHeaders]
  split_ifs with hnone
  · have hne : folded (ascii "Content-Length") ≠ folded k := by
      intro heq
      rw [lastValue_congr _ heq, hset] at hnone
      cases hnone
    rw [lastValue_append, lastValue_singleton, if_neg hne, Option.none_or, hset]
  · exact hset

/-- The value of an expected header comes from a call, or is one of the two defaults. -/
theorem isFieldValue_expected {settings : List Setting} (h : PlainHeaders settings)
    {body k v : List UInt8} (hv : lastValue (expectedHeaders settings body) k = some v) :
    IsToken k ∧ IsFieldValue v := by
  have hset {k v : List UInt8}
      (hv : lastValue ((ascii "Content-Type", ascii "text/html") :: headersSet settings) k =
        some v) : IsToken k ∧ IsFieldValue v := by
    rw [lastValue_cons, Option.or_eq_some_iff] at hv
    obtain hcall | ⟨-, hdefault⟩ := hv
    · obtain ⟨e, he, hname, -⟩ := lastValue_eq_some hcall
      obtain ⟨htoken, hvalue⟩ := h e he
      rw [lastValue_congr _ hname] at hvalue
      exact ⟨isToken_congr hname htoken, hvalue v hcall⟩
    · rw [Option.ite_none_right_eq_some] at hdefault
      obtain ⟨hname, hvalue⟩ := hdefault
      cases hvalue
      exact ⟨isToken_congr hname (by decide), by decide⟩
  rw [expectedHeaders] at hv
  split_ifs at hv with hnone
  · rw [lastValue_append, lastValue_singleton, Option.or_eq_some_iff] at hv
    obtain hlength | ⟨-, hrest⟩ := hv
    · rw [Option.ite_none_right_eq_some] at hlength
      obtain ⟨hname, hvalue⟩ := hlength
      cases hvalue
      have htoken : IsToken (ascii "Content-Length") := by decide
      exact ⟨isToken_congr hname htoken, isFieldValue_toString body.length⟩
    · exact hset hrest
  · exact hset hv

theorem isField_of_mem {settings : List Setting} (h : PlainHeaders settings) {body : List UInt8} :
    ∀ e ∈ ((Response.applyAll settings).withContentLength body).headers.entries, IsField e := by
  intro e he
  have hfind := SortedMap.find_of_mem he ((same_iff e.1 e.1).mpr rfl)
  rw [withContentLength_headers, HeaderMap.find_setAll, SortedMap.find_empty, Option.or_none]
    at hfind
  exact isFieldValue_expected h hfind

/-- The bytes that a trace hands to the socket. -/
def Mark.text : Mark → Option (List UInt8)
  | .wrote text len => some (text.take len)
  | _ => none

def written (trace : List Mark) : List (List UInt8) := trace.filterMap Mark.text

namespace ClientContext

variable {S : Type} {c : ClientContext S}

/-- The calls of a handler that prepares the response and ends it. -/
def attempts (settings : List Setting) (body : List UInt8) (accepted : Bool) : List Attempt :=
  settings.map (fun s => ⟨s.call, false⟩) ++ [⟨.endWith body accepted, false⟩]

theorem attemptAll_settings (halive : c.alive = true) (settings : List Setting)
    (rest : List Attempt) :
    attemptAll (settings.map (fun s => ⟨s.call, false⟩) ++ rest) c =
      attemptAll rest { c with response := settings.foldl (fun r s => s.apply r) c.response } := by
  induction settings generalizing c with
  | nil => rfl
  | cons s settings ih =>
    have hcall : attempt ⟨s.call, false⟩ c = .ok () { c with response := s.apply c.response } := by
      cases s with
      | status statusCode supported => exact bind_ok (touch_alive halive)
      | header key value => exact bind_ok (touch_alive halive)
    rw [List.map_cons, List.cons_append, attemptAll, bind_ok hcall]
    exact ih halive

/-- The text that `end` writes. -/
def endText (body : List UInt8) (r : Response) : List UInt8 :=
  (r.withContentLength body).responseText body ((Response.getStatusText r.status).getD "")

/-- `end` hands the text to the socket, with its length converted to `int` and on to `size_t`. -/
theorem endWith_eq (halive : c.alive = true)
    (hstatus : (Response.getStatusText c.response.status).isSome) (body : List UInt8)
    (accepted : Bool) :
    endWith body accepted c = .ok (c.socket.write .written accepted).1
      { c with
        response := c.response.withContentLength body
        socket := (c.socket.write .written accepted).2
        trace := c.trace ++ [.wrote (endText body c.response)
          (toSize (toInt32 (endText body c.response).length))] } := by
  obtain ⟨text, htext⟩ := Option.isSome_iff_exists.mp hstatus
  have hsame := Response.withContentLength_status body c.response
  have hrun : statusText { c with response := c.response.withContentLength body } =
      .ok text { c with response := c.response.withContentLength body } := by
    rw [statusText, bind_ok (x := ask _) (t := { c with
      response := c.response.withContentLength body }) rfl]
    simp only [hsame, htext]
    rfl
  rw [endText, htext, endWith, bind_ok (touch_alive halive), bind_ok (x := onResponse _) rfl,
    bind_ok (x := ask _) rfl, bind_ok hrun, bind_ok (x := note _) rfl]
  rfl

/-- What the socket gets from a handler that prepares the response and ends it. -/
theorem written_attempts (parser : S) (settings : List Setting) (body : List UInt8)
    (accepted : Bool) :
    written (final (attemptAll (attempts settings body accepted) (opened parser))).trace =
      [(endText body (Response.applyAll settings)).take
        (toSize (toInt32 (endText body (Response.applyAll settings)).length))] := by
  have hrun := endWith_eq (c := { opened parser with response := Response.applyAll settings }) rfl
    (applyAll_status settings).2 body accepted
  rw [attempts, attemptAll_settings rfl, attemptAll]
  rw [bind_ok (x := attempt _) (bind_ok hrun)]
  rfl

/-- The bytes say what was set: they are a response with its status, each of its headers on one
line, and the body. -/
def Says (settings : List Setting) (body : List UInt8) (bytes : List UInt8) : Prop :=
  ∃ m, parse bytes = some m ∧ (m.status : ℤ) = lastStatus settings ∧
    (∀ k, lastValue m.fields k = lastValue (expectedHeaders settings body) k) ∧
    (m.fields.map fun f => folded f.1).Nodup ∧ m.body = body

theorem says_endText {settings : List Setting} (h : PlainHeaders settings) (body : List UInt8) :
    Says settings body (endText body (Response.applyAll settings)) := by
  obtain ⟨hlast, hsome⟩ := applyAll_status settings
  obtain ⟨text, htext⟩ := Option.isSome_iff_exists.mp hsome
  have hsame := Response.withContentLength_status body (Response.applyAll settings)
  have hstatus : Response.getStatusText
      ((Response.applyAll settings).withContentLength body).status = some text := hsame ▸ htext
  obtain ⟨hnonneg, -⟩ := Response.statusTexts_spec _ (Response.mem_statusTexts hstatus)
  refine ⟨((Response.applyAll settings).withContentLength body).message body text, ?_, ?_, ?_, ?_,
    rfl⟩
  · rw [endText, htext]
    exact Response.parse_responseText hstatus (isField_of_mem h) body
  · rw [← hlast, ← hsame]
    exact Int.toNat_of_nonneg hnonneg
  · intro k
    show lastValue ((Response.applyAll settings).withContentLength body).headers.entries k = _
    rw [HeaderMap.lastValue_entries, withContentLength_headers, HeaderMap.find_setAll,
      SortedMap.find_empty, Option.or_none]
  · exact HeaderMap.nodup_names _

/-- A text of fewer than `2 ^ 31` bytes that `end` hands to the socket says what was set
exactly if all names are tokens and all values that are written are field values. -/
theorem says_iff (parser : S) (settings : List Setting) (body : List UInt8) (accepted : Bool)
    (hlen : (endText body (Response.applyAll settings)).length < 2 ^ 31) :
    (∃ bytes, written
        (final (attemptAll (attempts settings body accepted) (opened parser))).trace = [bytes] ∧
      Says settings body bytes) ↔ PlainHeaders settings := by
  have hall : written
      (final (attemptAll (attempts settings body accepted) (opened parser))).trace =
        [endText body (Response.applyAll settings)] := by
    rw [written_attempts, toInt32_of_lt hlen, toSize_of_lt (lt_trans hlen (by norm_num)),
      List.take_length]
  rw [hall]
  constructor
  · rintro ⟨bytes, hbytes, m, hparse, -, hfields, -, -⟩ e he
    obtain rfl := List.singleton_inj.mp hbytes
    -- what is read back has valid fields, and the headers that were set are among them
    have hfield {v : List UInt8} (hv : lastValue (headersSet settings) e.1 = some v) :
        IsToken e.1 ∧ IsFieldValue v := by
      have hread := (hfields e.1).trans (lastValue_expectedHeaders hv body)
      obtain ⟨f, hf, hname, rfl⟩ := lastValue_eq_some hread
      obtain ⟨htoken, hvalue⟩ := HttpGrammar.valid_of_parse hparse f hf
      exact ⟨isToken_congr hname htoken, hvalue⟩
    obtain ⟨v, hv⟩ := exists_lastValue he rfl
    exact ⟨(hfield hv).1, fun w hw => (hfield hw).2⟩
  · intro h
    exact ⟨_, rfl, says_endText h body⟩

/-- A status and two values of one header, with a body of two bytes. -/
theorem says_two_values :
    ∃ bytes, written (final (attemptAll
        (attempts [.status 404 rfl, .header (ascii "x") (ascii "1"), .header (ascii "X") (ascii "2")]
          (ascii "ab") true) (opened ()))).trace = [bytes] ∧
      Says [.status 404 rfl, .header (ascii "x") (ascii "1"), .header (ascii "X") (ascii "2")]
        (ascii "ab") bytes := by
  apply (says_iff () _ _ true (by decide)).mpr
  decide

/-- A value with a CR LF in it is read back as two headers. -/
theorem header_injected :
    ∃ bytes m, written (final (attemptAll
        (attempts [.header (ascii "X") (ascii "a\r\nY: b")] [] true) (opened ()))).trace = [bytes] ∧
      parse bytes = some m ∧ lastValue m.fields (ascii "X") = some (ascii "a") ∧
      lastValue m.fields (ascii "Y") = some (ascii "b") ∧
      ¬ Says [.header (ascii "X") (ascii "a\r\nY: b")] [] bytes := by
  have hparse : parse (endText [] (Response.applyAll [.header (ascii "X") (ascii "a\r\nY: b")])) =
      some ⟨200, ascii "OK", [(ascii "Content-Length", ascii "0"),
        (ascii "Content-Type", ascii "text/html"), (ascii "X", ascii "a"), (ascii "Y", ascii "b")],
        []⟩ := by decide
  refine ⟨_, _, rfl, hparse, by decide, by decide, ?_⟩
  rintro ⟨m, hm, -, hfields, -⟩
  cases hparse.symm.trans hm
  have hvalue := hfields (ascii "X")
  revert hvalue
  decide

end ClientContext

end LibraCore.Http
