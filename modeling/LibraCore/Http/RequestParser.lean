import LibraCore.Http.CallOrder
import LibraCore.Http.Feed

/-!
# The context with `http_parser_execute`

The other modules know the parser of a context by the callbacks it makes. Here the context has
the one it was written for. `requestParser` makes, for the bytes of a read, the callbacks that
`http_parser_execute` makes when all of them return 0; the model's context with it goes through
the same states as a context whose read callback calls `http_parser_execute` itself, up to a
callback that halts the parser or throws.

## Main results

- `ClientContext.runParser_agrees` — one call of `http_parser_execute`
- `ClientContext.onRead_agrees` — one read
- `ClientContext.afterReads_agrees` — a sequence of reads
-/

namespace LibraCore.Http

open Execution (Ignores final returns bind_ok bind_error)

/-- The callback of the context for what the parser reports. -/
def Report.call : Report → Option ParserCall
  | .notice .messageComplete => some .messageComplete
  | .headersComplete => some .headersComplete
  | .data .url f => some (.url f)
  | .data .headerField f => some (.headerField f.text)
  | .data .headerValue f => some (.headerValue f.text)
  | .data .body f => some (.body f.text)
  | _ => none

/-- Callbacks that are null, with the log of those that would have been made. -/
def silent : ParserSettings (Unit × List Report) :=
  ParserSettings.logged httpParserSettingsInit

theorem silent_answer (r : Report) (c : Parser) (k : Unit × List Report) :
    silent.answer r c k = (⟨0, false⟩, k.1, k.2 ++ [r]) := by
  rw [silent, ParserSettings.logged_answer]
  cases r <;> rfl

/-- The parser of a context, `http_parser_init(&parser_, HTTP_REQUEST)`. -/
def requestParser : HttpParser ParserObj where
  init := httpParserInit .request
  errno parser := decide (parser.httpErrno ≠ .ok)
  feed parser data :=
    match parser.execute silent ((), []) data with
    | .ok r => (r.app.2.filterMap Report.call, r.parser)
    | .error _ => ([], parser)

namespace ClientContext

variable {S : Type}

/-! ### Nothing but the read callback looks at the parser -/

/-- The context with another parser. -/
def withParser (parser : S) (halted : Bool) (c : ClientContext S) : ClientContext S :=
  { c with parser := parser, halted := halted }

section Ignores

variable {parser : S} {halted : Bool}

theorem ignores_touch : Ignores (withParser parser halted) touch := by
  intro c
  cases halive : c.alive with
  | true => rw [touch_alive halive, touch_alive (c := withParser parser halted c) halive]
  | false => rw [touch_dead halive, touch_dead (c := withParser parser halted c) halive]

theorem ignores_ask {α : Type} {f : ClientContext S → α}
    (h : ∀ c, f (withParser parser halted c) = f c) :
    Ignores (withParser parser halted) (ask f) := fun c => congrArg (EStateM.Result.ok · _) (h c)

theorem ignores_update {f : ClientContext S → ClientContext S}
    (h : ∀ c, f (withParser parser halted c) = withParser parser halted (f c)) :
    Ignores (withParser parser halted) (update f) := fun c => congrArg (EStateM.Result.ok ()) (h c)

theorem ignores_onResponse (f : Response → Response) :
    Ignores (withParser parser halted) (onResponse f) := ignores_update fun _ => rfl

theorem ignores_note (m : Mark) : Ignores (withParser parser halted) (note m) :=
  ignores_update fun _ => rfl

theorem ignores_endWith (body : List UInt8) (accepted : Bool) :
    Ignores (withParser parser halted) (endWith body accepted) := by
  refine ignores_touch.bind fun _ => ?_
  refine (ignores_onResponse _).bind fun _ => ?_
  refine (ignores_ask fun c => rfl).bind fun text => ?_
  have hstatus : Ignores (withParser parser halted) statusText := by
    refine (ignores_ask fun c => rfl).bind fun status => ?_
    cases Response.getStatusText status with
    | some text => exact .pure text
    | none => exact .throw _
  refine hstatus.bind fun statusText => ?_
  exact (ignores_note _).bind fun _ c => rfl

theorem ignores_call (responseCall : ResponseCall) :
    Ignores (withParser parser halted) (call responseCall) := by
  cases responseCall with
  | setStatus statusCode => exact ignores_touch.bind fun _ => ignores_onResponse _
  | setHeader key value => exact ignores_touch.bind fun _ => ignores_onResponse _
  | endWith body accepted => exact (ignores_endWith body accepted).bind fun _ => .pure ()

theorem ignores_handle (handling : Handling) :
    Ignores (withParser parser halted) (handle handling) := by
  have hall (attempts : List Attempt) :
      Ignores (withParser parser halted) (attemptAll attempts) := by
    induction attempts with
    | nil => exact .pure ()
    | cons a rest ih =>
      have hcall : Ignores (withParser parser halted) (call a.call) := ignores_call a.call
      exact (Ignores.ite (Ignores.catchException hcall fun _ => .pure ()) hcall).bind fun _ => ih
  refine (hall handling.attempts).bind fun _ => ?_
  cases handling.throws with
  | some e => exact .throw _
  | none => exact .pure ()

theorem ignores_callback (handling : Handling) (parserCall : ParserCall) :
    Ignores (withParser parser halted) (callback handling parserCall) := by
  have hmember {f : ClientContext S → ClientContext S}
      (hf : ∀ c, f (withParser parser halted c) = withParser parser halted (f c)) :
      Ignores (withParser parser halted) (do update f; return (0 : ℤ)) :=
    (ignores_update hf).bind fun _ => .pure 0
  refine ignores_touch.bind fun _ => ?_
  cases parserCall with
  | url f =>
    have hurl : Ignores (withParser parser halted) (url.run (UrlObj.fromBuf f false)) :=
      Ignores.run (fun c => rfl) fun url c => rfl
    exact hurl.bind fun _ => .pure 0
  | headerField text =>
    refine hmember fun c => ?_
    obtain ⟨_, _, was, field, _, _, _, _, _, _⟩ := c
    cases was <;> cases field <;> rfl
  | headerValue text =>
    refine hmember fun c => ?_
    obtain ⟨_, _, was, _, _, _, _, _, _, _⟩ := c
    cases was <;> rfl
  | headersComplete =>
    refine hmember fun c => ?_
    obtain ⟨_, _, _, field, _, _, _, _, _, _⟩ := c
    cases field <;> rfl
  | body text => exact hmember fun c => rfl
  | messageComplete =>
    refine Ignores.bind (ignores_ask fun c => rfl) fun request => ?_
    refine (ignores_note _).bind fun _ => ?_
    exact (ignores_handle handling).bind fun _ => .pure 1

end Ignores

/-! ### `http_parser_execute` with the callbacks of the context -/

/-- A callback, as the parser sees it, with the exception that has left it, if any. It does not
return then; a value that ends the call of the parser stands for that. -/
def invoke (handling : Handling) (parserCall : ParserCall) (k : ClientContext S × Option Fault) :
    Answer × ClientContext S × Option Fault :=
  match callback handling parserCall k.1 with
  | .ok value c => (⟨value, false⟩, c, none)
  | .error e c => (⟨-1, false⟩, c, some e)

/-- `parser_settings_`, as `parse` sets it. -/
def parserSettings (handling : Handling) : ParserSettings (ClientContext S × Option Fault) where
  onNotice
    | .messageComplete => some fun _ => invoke handling .messageComplete
    | _ => none
  onHeadersComplete := some fun _ => invoke handling .headersComplete
  onData
    | .url => some fun _ f => invoke handling (.url f)
    | .headerField => some fun _ f => invoke handling (.headerField f.text)
    | .headerValue => some fun _ f => invoke handling (.headerValue f.text)
    | .body => some fun _ f => invoke handling (.body f.text)
    | .status => none

theorem parserSettings_answer (handling : Handling) (r : Report) (c : Parser)
    (k : ClientContext S × Option Fault) :
    (parserSettings handling).answer r c k =
      match r.call with
      | some parserCall => invoke handling parserCall k
      | none => (⟨0, false⟩, k) := by
  cases r with
  | notice n => cases n <;> rfl
  | headersComplete => rfl
  | data f text => cases f <;> rfl

/-- `http_parser_execute(&parser_, &parser_settings_, data, len)`. What an exception leaves of
the parser is not in it. -/
def runParser (handling : Handling) (data : Option (List UInt8)) (len : ℕ) :
    ContextM ParserObj Unit := fun c =>
  if c.parser.httpErrno = .ok ∧ (data.getD []).length < len then .error .outOfBounds c
  else
    match c.parser.execute (parserSettings handling) (c, none) ((data.getD []).take len) with
    | .ok ⟨_, parser, d, none⟩ => .ok () { d with parser := parser }
    | .ok ⟨_, _, d, some e⟩ => .error e d
    | .error _ => .error .assertFailed c

/-- The read callback, with this parser. -/
def onReadParser (handling : Handling) (buf : Option (List UInt8)) (nread : ℤ) :
    ContextM ParserObj Unit := do
  touch
  let len := toInt32 nread
  if buf = none ∧ len = -1 then call (.setStatus 500)
  else
    note (.executed buf (toSize len))
    runParser handling buf (toSize len)

/-- The context `c`, which knows its parser by its callbacks, and the context `d`, which has
the parser itself. -/
structure Agrees (c d : ClientContext ParserObj) : Prop where
  context : d = withParser d.parser d.halted c
  parser : if c.halted = true then d.parser.httpErrno ≠ .ok else d.parser = c.parser
  ready : d.parser.Ready

/-- Both return and the contexts agree, or both fail alike. -/
inductive AgreeAfter : EStateM.Result Fault (ClientContext ParserObj) Unit →
    EStateM.Result Fault (ClientContext ParserObj) Unit → Prop
  | ok {c d : ClientContext ParserObj} : c.Agrees d → AgreeAfter (.ok () c) (.ok () d)
  | error (e : Fault) {c d : ClientContext ParserObj} :
      d = withParser d.parser d.halted c → AgreeAfter (.error e c) (.error e d)

/-! ### One call -/

/-- The end of the callbacks of a call, with one that fails. -/
def stopped (c : ClientContext S) : Option Fault → EStateM.Result Fault (ClientContext S) Unit
  | none => .ok () { c with halted := true }
  | some e => .error e c

section Callbacks

variable {handling : Handling} {parserCall : ParserCall} {rest : List ParserCall}
  {c d : ClientContext S}

theorem callbacks_halted {value : ℤ} (h : callback handling parserCall c = .ok value d)
    (hvalue : value ≠ 0) : callbacks handling (parserCall :: rest) c = stopped d none := by
  rw [callbacks, bind_ok h, if_pos hvalue]
  rfl

theorem callbacks_error {e : Fault} (h : callback handling parserCall c = .error e d) :
    callbacks handling (parserCall :: rest) c = stopped d (some e) := by
  rw [callbacks, bind_error h]
  rfl

/-- What `on_headers_complete` returns does not skip the body. -/
theorem headersComplete_value {value : ℤ}
    (h : callback handling .headersComplete c = .ok value d) : value = 0 := by
  rw [callback] at h
  obtain ⟨-, c', -, hupdate⟩ := Execution.of_bind_ok h
  obtain ⟨-, c'', -, hreturn⟩ := Execution.of_bind_ok hupdate
  cases hreturn
  rfl

end Callbacks

/-- `on_headers_complete` may return 1 or 2 as well. -/
theorem stops_of_value {r : Report} {value : ℤ} (hvalue : value ≠ 0)
    (hheaders : r = .headersComplete → value ≠ 1 ∧ value ≠ 2) :
    (⟨value, false⟩ : Answer).Stops r := by
  cases r with
  | notice n => exact .inr hvalue
  | headersComplete => exact .inr ⟨hvalue, hheaders rfl⟩
  | data f text => exact .inr hvalue

/-- The callbacks of the context answer like those that are null, up to one that fails. -/
theorem simulates (handling : Handling) {g : ClientContext S → ClientContext S}
    (hg : ∀ parserCall, Ignores g (callback handling parserCall)) (c : ClientContext S) :
    silent.Simulates (parserSettings handling)
      (fun k k' => k'.2 = none ∧ ∀ rest, callbacks handling (k.2.filterMap Report.call ++ rest) c =
        callbacks handling rest (g k'.1))
      (fun k k' => ∀ rest, callbacks handling (k.2.filterMap Report.call ++ rest) c =
        stopped (g k'.1) k'.2) where
  answers r p k k' := by
    rintro ⟨hnone, hcalls⟩
    rw [silent_answer, parserSettings_answer]
    cases hcall : r.call with
    | none =>
      refine .inl ⟨rfl, hnone, fun rest => ?_⟩
      rw [List.filterMap_append, List.filterMap_cons_none hcall, List.filterMap_nil,
        List.append_nil]
      exact hcalls rest
    | some parserCall =>
      have hsnoc (rest : List ParserCall) :
          callbacks handling ((k.2 ++ [r]).filterMap Report.call ++ rest) c =
            callbacks handling (parserCall :: rest) (g k'.1) := by
        rw [List.filterMap_append, List.filterMap_cons_some hcall, List.filterMap_nil,
          List.append_assoc]
        exact hcalls (parserCall :: rest)
      simp only [invoke]
      cases hrun : callback handling parserCall k'.1 with
      | ok value d =>
        by_cases hvalue : value = 0
        · subst hvalue
          exact .inl ⟨rfl, rfl, fun rest =>
            (hsnoc rest).trans (callbacks_cons handling rest ((hg _).ok hrun))⟩
        · refine .inr ⟨stops_of_value hvalue fun hr => ?_, fun rest =>
            (hsnoc rest).trans (callbacks_halted ((hg _).ok hrun) hvalue)⟩
          subst hr
          cases hcall
          exact absurd (headersComplete_value hrun) hvalue
      | error e d =>
        exact .inr ⟨stops_of_value (by decide) fun _ => by decide, fun rest =>
          (hsnoc rest).trans (callbacks_error ((hg _).error hrun))⟩
  ended r p k k' hcalls rest := by
    rw [silent_answer, List.filterMap_append, List.append_assoc]
    exact hcalls _

theorem feed_eq (parser : HttpParser S) (handling : Handling) (data : Option (List UInt8))
    (len : ℕ) (c : ClientContext S) :
    feed parser handling data len c =
      if (c.halted || parser.errno c.parser) = true then .ok () c
      else if (data.getD []).length < len then .error .outOfBounds c
      else callbacks handling (parser.feed c.parser ((data.getD []).take len)).1
        { c with parser := (parser.feed c.parser ((data.getD []).take len)).2 } := by
  rw [feed, bind_ok (x := ask id) (a := c) rfl]
  split_ifs <;> rfl

/-- The calls of a buffer, with all callbacks answering 0 and with those of the context. -/
theorem execute_agrees {parser : ParserObj} (hready : parser.Ready) (handling : Handling)
    {g : ClientContext S → ClientContext S}
    (hg : ∀ parserCall, Ignores g (callback handling parserCall)) (d : ClientContext S)
    (data : List UInt8) :
    ∃ r, parser.execute (parserSettings handling) (d, none) data = .ok r ∧ r.parser.Ready ∧
      ((r.parser = (requestParser.feed parser data).2 ∧ r.app.2 = none ∧
          callbacks handling (requestParser.feed parser data).1 (g d) = .ok () (g r.app.1)) ∨
        (r.parser.httpErrno ≠ .ok ∧
          callbacks handling (requestParser.feed parser data).1 (g d) =
            stopped (g r.app.1) r.app.2)) := by
  obtain ⟨s, hs⟩ := hready.execute silent ((), []) data
  have hfeed : requestParser.feed parser data = (s.app.2.filterMap Report.call, s.parser) := by
    simp only [requestParser, hs.executed]
  obtain ⟨r, hr, hmatches⟩ : ∃ r, parser.execute (parserSettings handling) (d, none) data = .ok r ∧
      ParserObj.Matches _ _ s r :=
    ParserObj.execute_simulates (simulates handling hg (g d)) ⟨rfl, fun rest => rfl⟩ hs.executed
  obtain ⟨r', hr'⟩ := hready.execute (parserSettings handling) (d, none) data
  obtain rfl : r' = r := Except.ok.inj (hr'.executed.symm.trans hr)
  refine ⟨r', hr, hr'.ready, ?_⟩
  rw [hfeed]
  cases hmatches with
  | same app' happ =>
    have hcalls := happ.2 []
    rw [List.append_nil] at hcalls
    exact .inl ⟨rfl, happ.1, hcalls⟩
  | ended r'' happ herrno =>
    have hcalls := happ []
    rw [List.append_nil] at hcalls
    exact .inr ⟨herrno.1, hcalls⟩

section Agrees

variable {c d : ClientContext ParserObj}

/-- The context that knows its parser by its callbacks makes none where the parser would not run. -/
theorem Agrees.errno_iff (h : c.Agrees d) :
    (c.halted || requestParser.errno c.parser) = true ↔ d.parser.httpErrno ≠ .ok := by
  have hparser := h.parser
  cases hhalted : c.halted with
  | true => simpa [hhalted] using hparser
  | false =>
    rw [hhalted] at hparser
    simp only [Bool.false_eq_true, if_false] at hparser
    rw [hparser]
    simp [requestParser]

theorem Agrees.going (h : c.Agrees d) (hset : d.parser.httpErrno = .ok) :
    c.halted = false ∧ d.parser = c.parser := by
  have hgoing : c.halted = false := by
    cases hhalted : c.halted with
    | false => rfl
    | true => exact absurd hset (h.errno_iff.mp (by rw [hhalted]; rfl))
  have hparser := h.parser
  rw [hgoing] at hparser
  exact ⟨hgoing, hparser⟩

/-- A call that the parser is run for. -/
theorem Agrees.runs (h : c.Agrees d) (hset : d.parser.httpErrno = .ok) (handling : Handling)
    {data : Option (List UInt8)} {len : ℕ} (hlen : ¬ (data.getD []).length < len) :
    AgreeAfter
      (callbacks handling (requestParser.feed c.parser ((data.getD []).take len)).1
        { c with parser := (requestParser.feed c.parser ((data.getD []).take len)).2 })
      (runParser handling data len d) := by
  obtain ⟨hgoing, hsame⟩ := h.going hset
  have hignores (parserCall : ParserCall) :
      Ignores (withParser (requestParser.feed d.parser ((data.getD []).take len)).2 false)
        (callback handling parserCall) := ignores_callback handling parserCall
  obtain ⟨⟨n, parser, e, thrown⟩, hrun, hready, hends⟩ :=
    execute_agrees h.ready handling hignores d ((data.getD []).take len)
  have hstart : withParser (requestParser.feed d.parser ((data.getD []).take len)).2 false d =
      { c with parser := (requestParser.feed c.parser ((data.getD []).take len)).2 } := by
    rw [h.context, ← hgoing, hsame]
    rfl
  rw [hstart, hsame] at hends
  rw [runParser, if_neg fun hshort => hlen hshort.2, hrun]
  obtain ⟨hnext, rfl, hcalls⟩ | ⟨hstop, hcalls⟩ := hends
  · rw [hcalls]
    exact .ok ⟨rfl, hnext, hready⟩
  · rw [hcalls]
    cases thrown with
    | none => exact .ok ⟨rfl, hstop, hready⟩
    | some fault => exact .error fault rfl

/-- One call of `http_parser_execute`. -/
theorem runParser_agrees (h : c.Agrees d) (handling : Handling) (data : Option (List UInt8))
    (len : ℕ) :
    AgreeAfter (feed requestParser handling data len c) (runParser handling data len d) := by
  rw [feed_eq]
  by_cases hset : d.parser.httpErrno = .ok
  · rw [if_neg (fun hstop => h.errno_iff.mp hstop hset)]
    by_cases hshort : (data.getD []).length < len
    · rw [if_pos hshort, runParser, if_pos ⟨hset, hshort⟩]
      exact .error _ h.context
    · rw [if_neg hshort]
      exact h.runs hset handling hshort
  · have hstuck : runParser handling data len d = .ok () d := by
      rw [runParser, if_neg fun hshort => hset hshort.1, ParserObj.execute, if_pos hset]
    rw [if_pos (h.errno_iff.mpr hset), hstuck]
    exact .ok h

end Agrees

/-! ### Reads -/

/-- A change that is no business of the parser. -/
theorem Agrees.update {c d : ClientContext ParserObj} (h : c.Agrees d)
    {f : ClientContext ParserObj → ClientContext ParserObj}
    (hf : ∀ parser halted c, f (withParser parser halted c) = withParser parser halted (f c)) :
    (f c).Agrees (f d) := by
  have hkept (c : ClientContext ParserObj) : f c = withParser c.parser c.halted (f c) :=
    hf c.parser c.halted c
  have hparser (c : ClientContext ParserObj) : (f c).parser = c.parser := by
    rw [hkept c]
    rfl
  have hhalted (c : ClientContext ParserObj) : (f c).halted = c.halted := by
    rw [hkept c]
    rfl
  refine ⟨?_, ?_, ?_⟩
  · rw [hparser, hhalted, ← hf, ← h.context]
  · rw [hparser, hparser, hhalted]
    exact h.parser
  · rw [hparser]
    exact h.ready

theorem onRead_agrees {c d : ClientContext ParserObj} (h : c.Agrees d) (handling : Handling)
    (r : ReadResult) :
    AgreeAfter (onRead requestParser handling r.buf r.nread c)
      (onReadParser handling r.buf r.nread d) := by
  have hsame : d.alive = c.alive := by
    rw [h.context]
    rfl
  rw [onRead, onReadParser]
  cases halive : c.alive with
  | false =>
    rw [bind_error (touch_dead halive), bind_error (touch_dead (hsame.trans halive))]
    exact .error _ h.context
  | true =>
    rw [bind_ok (touch_alive halive), bind_ok (touch_alive (hsame.trans halive))]
    by_cases hsentinel : r.buf = none ∧ toInt32 r.nread = -1
    · rw [if_pos hsentinel, if_pos hsentinel, call, bind_ok (touch_alive halive),
        bind_ok (touch_alive (hsame.trans halive))]
      exact .ok (h.update (f := fun c => { c with response := c.response.setStatus 500 })
        fun parser halted c => rfl)
    · rw [if_neg hsentinel, if_neg hsentinel, execute, bind_ok (x := note _) (s := c) rfl,
        bind_ok (x := note _) (s := d) rfl]
      exact runParser_agrees (h.update (f := fun c => { c with
        trace := c.trace ++ [.executed r.buf (toSize (toInt32 r.nread))] })
        fun parser halted c => rfl) handling r.buf _

/-- The context after some reads, with the parser itself. -/
def afterReadsParser (handling : Handling) (d : ClientContext ParserObj) (rs : List ReadResult) :
    ClientContext ParserObj :=
  rs.foldl (fun d r => final (onReadParser handling r.buf r.nread d)) d

/-- None of the reads raises an exception. -/
def ReadsReturn (handling : Handling) (c : ClientContext ParserObj) (rs : List ReadResult) : Prop :=
  Transition.System.Executes
    (fun c r => returns (onRead requestParser handling r.buf r.nread c) = true)
    (fun c r => final (onRead requestParser handling r.buf r.nread c)) c rs

instance (handling : Handling) (c : ClientContext ParserObj) (rs : List ReadResult) :
    Decidable (ReadsReturn handling c rs) :=
  inferInstanceAs (Decidable (Transition.System.Executes _ _ c rs))

theorem Agrees.afterReads {c d : ClientContext ParserObj} (h : c.Agrees d) {handling : Handling}
    {rs : List ReadResult} (hreturns : ReadsReturn handling c rs) :
    (afterReads requestParser handling c rs).Agrees (afterReadsParser handling d rs) := by
  induction rs generalizing c d with
  | nil => exact h
  | cons r rs ih =>
    obtain ⟨hfirst, hrest⟩ := hreturns
    have hagree := onRead_agrees h handling r
    rw [Execution.eq_ok_of_returns hfirst] at hagree
    refine ih (c := final _) (d := final _) ?_ hrest
    generalize onReadParser handling r.buf r.nread d = after at hagree ⊢
    cases hagree with
    | ok hagree => exact hagree

theorem agrees_opened :
    (opened requestParser.init).Agrees (opened (httpParserInit .request)) :=
  ⟨rfl, rfl, ParserObj.ready_init .request⟩

/-- The reads of a connection, up to the first that raises an exception: the context that knows
the parser by its callbacks goes through the states of the one that has the parser. -/
theorem afterReads_agrees (handling : Handling) {rs : List ReadResult}
    (hreturns : ReadsReturn handling (opened requestParser.init) rs) (r : ReadResult) :
    AgreeAfter
      (onRead requestParser handling r.buf r.nread
        (afterReads requestParser handling (opened requestParser.init) rs))
      (onReadParser handling r.buf r.nread
        (afterReadsParser handling (opened (httpParserInit .request)) rs)) :=
  onRead_agrees (agrees_opened.afterReads hreturns) handling r

/-- The name of a header arrives in two pieces. -/
def twoReads : List ReadResult :=
  [.data (ascii "GET /a HTTP/1.1\r\nHo"), .data (ascii "st: b")]

/-- A handler that throws. -/
def throwing : Handling := ⟨[], some urlParseException⟩

/-- The read that ends the request calls the handler. -/
theorem afterReads_agrees_throwing :
    AgreeAfter
      (onRead requestParser throwing (ReadResult.data (ascii "\r\n\r\n")).buf
        (ReadResult.data (ascii "\r\n\r\n")).nread
        (afterReads requestParser throwing (opened requestParser.init) twoReads))
      (onReadParser throwing (ReadResult.data (ascii "\r\n\r\n")).buf
        (ReadResult.data (ascii "\r\n\r\n")).nread
        (afterReadsParser throwing (opened (httpParserInit .request)) twoReads)) :=
  afterReads_agrees throwing (by decide +kernel) (.data (ascii "\r\n\r\n"))

end ClientContext

end LibraCore.Http
