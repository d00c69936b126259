import LibraCore.Foundations.Execution

/-!
# The URL parser of `http_parser`

`http_parser_parse_url` with its two automata: `parse_url_char` finds the fields of a
URL, `http_parse_host_char` takes the host apart. The library compiles it with
`HTTP_PARSER_STRICT`, its default.

A result is kept in a `http_parser_url` that the caller provides. The parse clears
`field_set` and `port` but not `field_data`, and what it leaves there when it fails is
part of the result.

## Main results

- `ParserUrl.Agree` — two handles with the same fields set, and the same data for these
- `httpParserParseUrl_agree` — a parse accepts or rejects whatever the handle held before
-/

namespace LibraCore.Http

/-! ### Character classes -/

/-- `LOWER`. -/
def lower (c : UInt8) : UInt8 := c ||| 0x20

def isAlpha (c : UInt8) : Bool := 'a'.toUInt8 ≤ lower c && lower c ≤ 'z'.toUInt8

def isNum (c : UInt8) : Bool := '0'.toUInt8 ≤ c && c ≤ '9'.toUInt8

def isAlphanum (c : UInt8) : Bool := isAlpha c || isNum c

def isHex (c : UInt8) : Bool := isNum c || ('a'.toUInt8 ≤ lower c && lower c ≤ 'f'.toUInt8)

/-- `c` is one of the characters of an ASCII string. -/
def isOneOf (chars : List Char) (c : UInt8) : Bool := chars.any fun x => c == x.toUInt8

/-- `IS_MARK`; 39 is the apostrophe. -/
def isMark (c : UInt8) : Bool := isOneOf ['-', '_', '.', '!', '~', '*', '(', ')'] c || c == 39

def isUserinfoChar (c : UInt8) : Bool :=
  isAlphanum c || isMark c || isOneOf ['%', ';', ':', '&', '=', '+', '$', ','] c

def isHostChar (c : UInt8) : Bool := isAlphanum c || isOneOf ['.', '-'] c

/-- The bitmap `normal_url_char`, for the characters below 128. -/
def normalUrlChar : List ℕ :=
  [0, 0, 0, 0, 246, 255, 255, 127, 255, 255, 255, 255, 255, 255, 255, 127]

/-- `IS_URL_CHAR`. -/
def isUrlChar (c : UInt8) : Bool := (normalUrlChar.getD (c.toNat / 8) 0).testBit (c.toNat % 8)

/-! ### The automata -/

/-- The states of `enum state` that a URL goes through. -/
inductive UrlState
  | dead
  | reqSpacesBeforeUrl
  | reqSchema
  | reqSchemaSlash
  | reqSchemaSlashSlash
  | reqServerStart
  | reqServer
  | reqServerWithAt
  | reqPath
  | reqQueryStringStart
  | reqQueryString
  | reqFragmentStart
  | reqFragment
  deriving DecidableEq, Repr

/-- The cases of the server states, once a second `@` is excluded. -/
def parseServerChar (ch : UInt8) : UrlState :=
  if ch = '/'.toUInt8 then .reqPath
  else if ch = '?'.toUInt8 then .reqQueryStringStart
  else if ch = '@'.toUInt8 then .reqServerWithAt
  else if isUserinfoChar ch || isOneOf ['[', ']'] ch then .reqServer
  else .dead

def parseUrlChar (s : UrlState) (ch : UInt8) : UrlState :=
  if isOneOf [' ', '\r', '\n'] ch then .dead
  -- the strict parser refuses tabs and form feeds as well
  else if ch = 9 ∨ ch = 12 then .dead
  else match s with
  | .reqSpacesBeforeUrl =>
    if isOneOf ['/', '*'] ch then .reqPath
    else if isAlpha ch then .reqSchema
    else .dead
  | .reqSchema =>
    if isAlpha ch then .reqSchema
    else if ch = ':'.toUInt8 then .reqSchemaSlash
    else .dead
  | .reqSchemaSlash => if ch = '/'.toUInt8 then .reqSchemaSlashSlash else .dead
  | .reqSchemaSlashSlash => if ch = '/'.toUInt8 then .reqServerStart else .dead
  | .reqServerWithAt => if ch = '@'.toUInt8 then .dead else parseServerChar ch
  | .reqServerStart => parseServerChar ch
  | .reqServer => parseServerChar ch
  | .reqPath =>
    if isUrlChar ch then .reqPath
    else if ch = '?'.toUInt8 then .reqQueryStringStart
    else if ch = '#'.toUInt8 then .reqFragmentStart
    else .dead
  | .reqQueryStringStart | .reqQueryString =>
    if isUrlChar ch then .reqQueryString
    else if ch = '?'.toUInt8 then .reqQueryString
    else if ch = '#'.toUInt8 then .reqFragmentStart
    else .dead
  | .reqFragmentStart =>
    if isUrlChar ch then .reqFragment
    else if ch = '?'.toUInt8 then .reqFragment
    else if ch = '#'.toUInt8 then .reqFragmentStart
    else .dead
  | .reqFragment => if isUrlChar ch || isOneOf ['?', '#'] ch then .reqFragment else .dead
  | .dead => .dead

/-- The states in which `http_parser_execute` takes a space for the end of the target. -/
def UrlState.endsTarget : UrlState → Bool
  | .reqServer | .reqServerWithAt | .reqPath | .reqQueryStringStart | .reqQueryString
  | .reqFragmentStart | .reqFragment => true
  | _ => false

/-- `http_parser_execute` accepts a request target: it takes the same steps. -/
def acceptsTarget (isConnect : Bool) (target : List UInt8) : Bool :=
  (target.foldl parseUrlChar
    (if isConnect then .reqServerStart else .reqSpacesBeforeUrl)).endsTarget

/-- `enum http_host_state`. -/
inductive HostState
  | dead
  | userinfoStart
  | userinfo
  | hostStart
  | hostV6Start
  | host
  | hostV6
  | hostV6End
  | hostV6ZoneStart
  | hostV6Zone
  | hostPortStart
  | hostPort
  deriving DecidableEq, Repr

def isZoneChar (ch : UInt8) : Bool := isAlphanum ch || isOneOf ['%', '.', '-', '_', '~'] ch

def isV6Char (ch : UInt8) : Bool := isHex ch || isOneOf [':', '.'] ch

def httpParseHostChar (s : HostState) (ch : UInt8) : HostState :=
  match s with
  | .userinfo | .userinfoStart =>
    if ch = '@'.toUInt8 then .hostStart
    else if isUserinfoChar ch then .userinfo
    else .dead
  | .hostStart =>
    if ch = '['.toUInt8 then .hostV6Start
    else if isHostChar ch then .host
    else .dead
  | .host =>
    if isHostChar ch then .host
    else if ch = ':'.toUInt8 then .hostPortStart
    else .dead
  | .hostV6End => if ch = ':'.toUInt8 then .hostPortStart else .dead
  | .hostV6 =>
    if ch = ']'.toUInt8 then .hostV6End
    else if isV6Char ch then .hostV6
    else if ch = '%'.toUInt8 then .hostV6ZoneStart
    else .dead
  | .hostV6Start => if isV6Char ch then .hostV6 else .dead
  | .hostV6Zone =>
    if ch = ']'.toUInt8 then .hostV6End
    else if isZoneChar ch then .hostV6Zone
    else .dead
  | .hostV6ZoneStart => if isZoneChar ch then .hostV6Zone else .dead
  | .hostPort | .hostPortStart => if isNum ch then .hostPort else .dead
  | .dead => .dead

/-! ### The handle -/

/-- `enum http_parser_url_fields`. -/
inductive UrlField
  | schema | host | port | path | query | fragment | userinfo
  deriving DecidableEq, Repr

structure FieldData where
  off : UInt16
  len : UInt16
  deriving DecidableEq, Repr

/-- `http_parser_url`. -/
structure ParserUrl where
  fieldSet : Finset UrlField
  port : UInt16
  fieldData : UrlField → FieldData

namespace ParserUrl

/-- All members 0. -/
def zero : ParserUrl := { fieldSet := ∅, port := 0, fieldData := fun _ => ⟨0, 0⟩ }

def setOff (u : ParserUrl) (uf : UrlField) (i : ℕ) : ParserUrl :=
  { u with fieldData := Function.update u.fieldData uf ⟨UInt16.ofNat i, (u.fieldData uf).len⟩ }

def setLen (u : ParserUrl) (uf : UrlField) (len : UInt16) : ParserUrl :=
  { u with fieldData := Function.update u.fieldData uf ⟨(u.fieldData uf).off, len⟩ }

/-- `u->field_data[uf].len++`. -/
def incLen (u : ParserUrl) (uf : UrlField) : ParserUrl := u.setLen uf ((u.fieldData uf).len + 1)

/-- The field begins at `i`. -/
def mark (u : ParserUrl) (uf : UrlField) (i : ℕ) (len : UInt16) : ParserUrl :=
  let u := (u.setOff uf i).setLen uf len
  { u with fieldSet := insert uf u.fieldSet }

end ParserUrl

/-! ### The host -/

/-- The state a host may not end in. -/
def HostState.unfinished : HostState → Bool
  | .hostStart | .hostV6Start | .hostV6 | .hostV6ZoneStart | .hostV6Zone | .hostPortStart
  | .userinfo | .userinfoStart => true
  | _ => false

/-- One character of a host, at `i`. -/
def hostStep (i : ℕ) (ch : UInt8) (s : HostState) (u : ParserUrl) :
    Except ParserUrl (HostState × ParserUrl) :=
  let newS := httpParseHostChar s ch
  match newS with
  | .dead => .error u
  | .host | .hostV6 => .ok (newS, (if s = newS then u else u.setOff .host i).incLen .host)
  | .hostV6ZoneStart | .hostV6Zone => .ok (newS, u.incLen .host)
  | .hostPort => .ok (newS, (if s = .hostPort then u else u.mark .port i 0).incLen .port)
  | .userinfo => .ok (newS, (if s = .userinfo then u else u.mark .userinfo i 0).incLen .userinfo)
  | _ => .ok (newS, u)

/-- The loop over the characters of a host, the first of them at `i`. -/
def hostLoop : ℕ → List UInt8 → HostState → ParserUrl → Except ParserUrl (HostState × ParserUrl)
  | _, [], s, u => .ok (s, u)
  | i, ch :: rest, s, u => do
    let (s, u) ← hostStep i ch s u
    hostLoop (i + 1) rest s u

/-- An error is a nonzero return. -/
def httpParseHost (buf : List UInt8) (u : ParserUrl) (foundAt : Bool) : Except ParserUrl ParserUrl := do
  let ⟨off, len⟩ := u.fieldData .host
  let u := u.setLen .host 0
  let (s, u) ← hostLoop off.toNat ((buf.drop off.toNat).take len.toNat)
    (if foundAt then .userinfoStart else .hostStart) u
  if s.unfinished then throw u else pure u

/-! ### The port -/

def isSpace (c : UInt8) : Bool := c == 32 || (9 ≤ c && c ≤ 13)

/-- `strtoul` in base 10, with its value saturated where it does not fit. -/
def strtoul (str : List UInt8) : ℕ :=
  let str := str.dropWhile isSpace
  let negated := str.head? = some '-'.toUInt8
  let str := if (str.head?.map (isOneOf ['+', '-'])).getD false then str.tail else str
  let v := (str.takeWhile isNum).foldl (fun v c => v * 10 + (c.toNat - '0'.toNat)) 0
  if 2 ^ 64 ≤ v then 2 ^ 64 - 1 else if negated then (2 ^ 64 - v) % 2 ^ 64 else v

/-! ### The URL -/

/-- What a state says about the character it was reached with. -/
inductive UrlState.Operates
  | rejects
  | skips
  | on (uf : UrlField)

/-- `reqSpacesBeforeUrl` stands for the state the `default` branch asserts not to reach. -/
def UrlState.operates : UrlState → Operates
  | .dead | .reqSpacesBeforeUrl => .rejects
  | .reqSchemaSlash | .reqSchemaSlashSlash | .reqServerStart | .reqQueryStringStart
  | .reqFragmentStart => .skips
  | .reqSchema => .on .schema
  | .reqServerWithAt | .reqServer => .on .host
  | .reqPath => .on .path
  | .reqQueryString => .on .query
  | .reqFragment => .on .fragment

/-- The local variables of the loop and the handle. -/
structure UrlScan where
  s : UrlState
  oldUf : Option UrlField
  foundAt : Bool
  u : ParserUrl

/-- One character of a URL, at `i`. -/
def urlStep (i : ℕ) (ch : UInt8) (v : UrlScan) : Except ParserUrl UrlScan :=
  let s := parseUrlChar v.s ch
  match s.operates with
  | .rejects => .error v.u
  | .skips => .ok { v with s := s }
  | .on uf =>
    let foundAt := v.foundAt || s = .reqServerWithAt
    if v.oldUf = some uf then .ok { v with s := s, foundAt := foundAt, u := v.u.incLen uf }
    else .ok { s := s, foundAt := foundAt, oldUf := some uf, u := v.u.mark uf i 1 }

/-- The loop over the characters of a URL, the first of them at `i`. -/
def urlLoop : ℕ → List UInt8 → UrlScan → Except ParserUrl UrlScan
  | _, [], v => .ok v
  | i, ch :: rest, v => do
    let v ← urlStep i ch v
    urlLoop (i + 1) rest v

/-- The conversion of the port that starts at `off`; `buf` is not cut off at the end of
the URL. -/
def convertPort (buf : List UInt8) (off : UInt16) (u : ParserUrl) : Except ParserUrl ParserUrl :=
  let v := strtoul (buf.drop off.toNat)
  if 0xffff < v then .error u else .ok { u with port := UInt16.ofNat v }

/-- What follows the host. -/
def finishPort (buf : List UInt8) (isConnect : Bool) (u : ParserUrl) :
    Except ParserUrl ParserUrl :=
  -- `CONNECT` requests can only contain `hostname:port`
  if isConnect = true ∧ u.fieldSet ≠ {.host, .port} then .error u
  else if .port ∈ u.fieldSet then convertPort buf (u.fieldData .port).off u
  else .ok u

/-- What follows the loop. -/
def finishUrl (buf : List UInt8) (isConnect : Bool) (foundAt : Bool) (u : ParserUrl) :
    Except ParserUrl ParserUrl :=
  if .schema ∈ u.fieldSet ∧ .host ∉ u.fieldSet then .error u
  else
    (if .host ∈ u.fieldSet then httpParseHost buf u foundAt else .ok u) >>= finishPort buf isConnect

/-- `http_parser_parse_url`: an error is a nonzero return, with what it leaves in the
handle. -/
def httpParserParseUrl (buf : List UInt8) (buflen : ℕ) (isConnect : Bool) (u : ParserUrl) :
    Except ParserUrl ParserUrl := do
  let u := { u with port := 0, fieldSet := ∅ }
  let v ← urlLoop 0 (buf.take buflen)
    { s := if isConnect then .reqServerStart else .reqSpacesBeforeUrl
      oldUf := none
      foundAt := false
      u := u }
  finishUrl buf isConnect v.foundAt v.u

/-! ### What the handle held before -/

/-- The same fields are set, with the same data. -/
structure ParserUrl.Agree (u v : ParserUrl) : Prop where
  fieldSet : u.fieldSet = v.fieldSet
  port : u.port = v.port
  fieldData : ∀ f ∈ u.fieldSet, u.fieldData f = v.fieldData f

namespace ParserUrl.Agree

variable {u v : ParserUrl}

theorem setLen (h : u.Agree v) {uf : UrlField} {m n : UInt16} (hmn : uf ∈ u.fieldSet → m = n) :
    (u.setLen uf m).Agree (v.setLen uf n) := by
  refine ⟨h.fieldSet, h.port, ?_⟩
  intro f hf
  by_cases hfu : f = uf
  · subst hfu
    simp only [ParserUrl.setLen, Function.update_self]
    rw [hmn hf, h.fieldData f hf]
  · simp only [ParserUrl.setLen, Function.update_of_ne hfu]
    exact h.fieldData f hf

theorem setOff (h : u.Agree v) (uf : UrlField) (i : ℕ) : (u.setOff uf i).Agree (v.setOff uf i) := by
  refine ⟨h.fieldSet, h.port, ?_⟩
  intro f hf
  by_cases hfu : f = uf
  · subst hfu
    simp only [ParserUrl.setOff, Function.update_self]
    rw [h.fieldData f hf]
  · simp only [ParserUrl.setOff, Function.update_of_ne hfu]
    exact h.fieldData f hf

theorem incLen (h : u.Agree v) (uf : UrlField) : (u.incLen uf).Agree (v.incLen uf) := by
  apply h.setLen
  intro hset
  rw [h.fieldData uf hset]

/-- A field that begins forgets what was there. -/
theorem mark (h : u.Agree v) (uf : UrlField) (i : ℕ) (len : UInt16) :
    (u.mark uf i len).Agree (v.mark uf i len) := by
  refine ⟨congrArg (insert uf) h.fieldSet, h.port, ?_⟩
  intro f hf
  by_cases hfu : f = uf
  · subst hfu
    simp only [ParserUrl.mark, ParserUrl.setOff, ParserUrl.setLen, Function.update_self]
  · simp only [ParserUrl.mark, ParserUrl.setOff, ParserUrl.setLen, Function.update_of_ne hfu]
    exact h.fieldData f (Finset.mem_of_mem_insert_of_ne hf hfu)

end ParserUrl.Agree

open Execution (Alike)

/-- Scans that agree, but for the data of fields that are not set. -/
structure UrlScan.Agree (v w : UrlScan) : Prop where
  s : v.s = w.s
  oldUf : v.oldUf = w.oldUf
  foundAt : v.foundAt = w.foundAt
  u : v.u.Agree w.u

theorem urlStep_agree (i : ℕ) (ch : UInt8) {v w : UrlScan} (h : v.Agree w) :
    Alike UrlScan.Agree (urlStep i ch v) (urlStep i ch w) := by
  obtain ⟨s, oldUf, foundAt, u⟩ := v
  obtain ⟨_, _, _, u'⟩ := w
  obtain ⟨rfl, rfl, rfl, hu⟩ := h
  simp only [urlStep]
  cases (parseUrlChar s ch).operates with
  | rejects => exact trivial
  | skips => exact ⟨rfl, rfl, rfl, hu⟩
  | on uf =>
    apply Alike.ite Iff.rfl
    · exact ⟨rfl, rfl, rfl, hu.incLen uf⟩
    · exact ⟨rfl, rfl, rfl, hu.mark uf i 1⟩

theorem urlLoop_agree (text : List UInt8) (i : ℕ) {v w : UrlScan} (h : v.Agree w) :
    Alike UrlScan.Agree (urlLoop i text v) (urlLoop i text w) := by
  induction text generalizing i v w with
  | nil => exact h
  | cons ch rest ih => exact (urlStep_agree i ch h).bind fun v' w' h' => ih (i + 1) h'

def HostAgree (x y : HostState × ParserUrl) : Prop := x.1 = y.1 ∧ x.2.Agree y.2

theorem hostStep_agree (i : ℕ) (ch : UInt8) (s : HostState) {u v : ParserUrl} (h : u.Agree v) :
    Alike HostAgree (hostStep i ch s u) (hostStep i ch s v) := by
  have hoff (c : Prop) [Decidable c] :
      (if c then u else u.setOff .host i).Agree (if c then v else v.setOff .host i) := by
    split_ifs
    · exact h
    · exact h.setOff .host i
  have hmark (c : Prop) [Decidable c] (uf : UrlField) :
      (if c then u else u.mark uf i 0).Agree (if c then v else v.mark uf i 0) := by
    split_ifs
    · exact h
    · exact h.mark uf i 0
  simp only [hostStep]
  cases httpParseHostChar s ch with
  | dead => exact trivial
  | host => exact ⟨rfl, (hoff _).incLen .host⟩
  | hostV6 => exact ⟨rfl, (hoff _).incLen .host⟩
  | hostV6ZoneStart => exact ⟨rfl, h.incLen .host⟩
  | hostV6Zone => exact ⟨rfl, h.incLen .host⟩
  | hostPort => exact ⟨rfl, (hmark _ .port).incLen .port⟩
  | userinfo => exact ⟨rfl, (hmark _ .userinfo).incLen .userinfo⟩
  | userinfoStart | hostStart | hostV6Start | hostV6End | hostPortStart => exact ⟨rfl, h⟩

theorem hostLoop_agree (text : List UInt8) (i : ℕ) (s : HostState) {u v : ParserUrl}
    (h : u.Agree v) : Alike HostAgree (hostLoop i text s u) (hostLoop i text s v) := by
  induction text generalizing i s u v with
  | nil => exact ⟨rfl, h⟩
  | cons ch rest ih =>
    refine (hostStep_agree i ch s h).bind ?_
    rintro ⟨s', u'⟩ ⟨_, v'⟩ ⟨rfl, h'⟩
    exact ih (i + 1) s' h'

theorem httpParseHost_agree (buf : List UInt8) (foundAt : Bool) {u v : ParserUrl}
    (h : u.Agree v) (hhost : .host ∈ u.fieldSet) :
    Alike ParserUrl.Agree (httpParseHost buf u foundAt) (httpParseHost buf v foundAt) := by
  simp only [httpParseHost, ← h.fieldData .host hhost]
  refine (hostLoop_agree _ _ _ (h.setLen fun _ => rfl)).bind ?_
  rintro ⟨s, u'⟩ ⟨_, v'⟩ ⟨rfl, h'⟩
  exact Alike.ite Iff.rfl trivial h'

theorem convertPort_agree (buf : List UInt8) (off : UInt16) {u v : ParserUrl} (h : u.Agree v) :
    Alike ParserUrl.Agree (convertPort buf off u) (convertPort buf off v) :=
  Alike.ite Iff.rfl trivial ⟨h.fieldSet, rfl, h.fieldData⟩

theorem finishPort_agree (buf : List UInt8) (isConnect : Bool) {u v : ParserUrl} (h : u.Agree v) :
    Alike ParserUrl.Agree (finishPort buf isConnect u) (finishPort buf isConnect v) := by
  refine Alike.ite (by rw [h.fieldSet]) trivial ?_
  by_cases hport : .port ∈ u.fieldSet
  · rw [if_pos hport, if_pos (h.fieldSet ▸ hport), ← h.fieldData .port hport]
    exact convertPort_agree buf _ h
  · rw [if_neg hport, if_neg (h.fieldSet ▸ hport)]
    exact h

theorem finishUrl_agree (buf : List UInt8) (isConnect foundAt : Bool) {u v : ParserUrl}
    (h : u.Agree v) :
    Alike ParserUrl.Agree (finishUrl buf isConnect foundAt u)
      (finishUrl buf isConnect foundAt v) := by
  refine Alike.ite (by rw [h.fieldSet]) trivial (Alike.bind ?_ fun _ _ => finishPort_agree buf _)
  by_cases hset : .host ∈ u.fieldSet
  · rw [if_pos hset, if_pos (h.fieldSet ▸ hset)]
    exact httpParseHost_agree buf foundAt h hset
  · rw [if_neg hset, if_neg (h.fieldSet ▸ hset)]
    exact h

/-- Whether a URL is accepted, and what is then known of it, does not depend on what the
handle held before. -/
theorem httpParserParseUrl_agree (buf : List UInt8) (buflen : ℕ) (isConnect : Bool)
    (u v : ParserUrl) :
    Alike ParserUrl.Agree (httpParserParseUrl buf buflen isConnect u)
      (httpParserParseUrl buf buflen isConnect v) := by
  refine (urlLoop_agree _ _ ?_).bind ?_
  · refine ⟨rfl, rfl, rfl, rfl, rfl, ?_⟩
    -- no field is set yet
    intro f hf
    exact absurd hf (Finset.notMem_empty f)
  · intro v' w' h'
    rw [h'.foundAt]
    exact finishUrl_agree buf isConnect w'.foundAt h'.u

end LibraCore.Http
