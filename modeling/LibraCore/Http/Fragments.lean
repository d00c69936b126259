import LibraCore.Http.Callbacks

/-!
# What becomes of the fragments of a request

`http_parser` calls a data callback any number of times for one string, with a piece of
it each time. The callbacks for header names and values append what they are given; those
for the body and the URL put it in the place of what they were given before.

## Main results

- `ClientContext.handsWholeBody_iff` — the handler sees the whole body just if it came in
  one piece
- `ClientContext.urlAsWhole_iff` — which splits of a target do not change the outcome
-/

namespace LibraCore.Http

open Execution (Keeps final bind_ok bind_error)

/-- The text of a call of `on_body`. -/
def ParserCall.bodyText : ParserCall → Option (List UInt8)
  | body text => some text
  | _ => none

/-- The fragments of the body among the callbacks. -/
def bodies (calls : List ParserCall) : List (List UInt8) := calls.filterMap ParserCall.bodyText

def Mark.request : Mark → Option Request
  | handled request => some request
  | _ => none

/-- The requests that the handler was called with. -/
def requests (trace : List Mark) : List Request := trace.filterMap Mark.request

/-- A call that raises nothing: its URL, if it has one, is accepted. -/
def ParserCall.Returns : ParserCall → Prop
  | url f => f.Accepted
  | _ => True

instance : (p : ParserCall) → Decidable p.Returns
  | .url f => inferInstanceAs (Decidable f.Accepted)
  | .headerField _ | .headerValue _ | .headersComplete | .body _ | .messageComplete =>
    inferInstanceAs (Decidable True)

namespace ClientContext

variable {S : Type} {c : ClientContext S} (handling : Handling)

/-! ### Single callbacks -/

theorem callback_url_accepted (halive : c.alive = true) {f : Fragment} (hf : f.Accepted) :
    ∃ handle, callback handling (.url f) c =
      .ok 0 (url.put { handle := handle, buf := f.text } c) := by
  obtain ⟨handle, hrun⟩ := UrlObj.fromBuf_accepted hf c.request.url
  refine ⟨handle, ?_⟩
  rw [callback, bind_ok (touch_alive halive)]
  exact bind_ok (Execution.Place.run_ok hrun)

theorem callback_url_rejected (halive : c.alive = true) {f : Fragment} (hf : ¬ f.Accepted) :
    ∃ url', callback handling (.url f) c =
      .error (.thrown urlParseException) (url.put url' c) := by
  obtain ⟨url', hrun⟩ := UrlObj.fromBuf_rejected hf c.request.url
  refine ⟨url', ?_⟩
  rw [callback, bind_ok (touch_alive halive)]
  exact bind_error (Execution.Place.run_error hrun)

/-- A callback before the last one returns 0, and of the body it keeps its own text. -/
theorem callback_ok (halive : c.alive = true) {parserCall : ParserCall}
    (hlast : parserCall ≠ .messageComplete) (hreturns : parserCall.Returns) :
    ∃ d, callback handling parserCall c = .ok 0 d ∧ d.alive = true ∧ d.trace = c.trace ∧
      d.request.body = parserCall.bodyText.getD c.request.body := by
  cases parserCall with
  | url f =>
    obtain ⟨handle, hrun⟩ := callback_url_accepted handling halive hreturns
    exact ⟨_, hrun, halive, rfl, rfl⟩
  | headerField text =>
    refine ⟨onHeaderField text c, bind_ok (touch_alive halive), ?_⟩
    rw [onHeaderField]
    split_ifs <;> exact ⟨halive, rfl, rfl⟩
  | headerValue text =>
    refine ⟨onHeaderValue text c, bind_ok (touch_alive halive), ?_⟩
    rw [onHeaderValue]
    split_ifs <;> exact ⟨halive, rfl, rfl⟩
  | headersComplete =>
    refine ⟨onHeadersComplete c, bind_ok (touch_alive halive), ?_⟩
    rw [onHeadersComplete]
    split_ifs <;> exact ⟨halive, rfl, rfl⟩
  | body text => exact ⟨onBody text c, bind_ok (touch_alive halive), halive, rfl, rfl⟩
  | messageComplete => exact absurd rfl hlast

theorem callback_throws (halive : c.alive = true) {parserCall : ParserCall}
    (hreturns : ¬ parserCall.Returns) :
    ∃ url', callback handling parserCall c =
      .error (.thrown urlParseException) (url.put url' c) := by
  cases parserCall with
  | url f => exact callback_url_rejected handling halive hreturns
  | _ => exact absurd trivial hreturns

/-- The context after one callback, which may have raised an exception. -/
def afterCall (c : ClientContext S) (parserCall : ParserCall) : ClientContext S :=
  final (callback handling parserCall c)

/-- Whether it raises an exception or not, a callback before the last one keeps of the body its
own text. -/
theorem afterCall_spec (halive : c.alive = true) {parserCall : ParserCall}
    (hlast : parserCall ≠ .messageComplete) :
    (afterCall handling c parserCall).alive = true ∧
      (afterCall handling c parserCall).trace = c.trace ∧
      (afterCall handling c parserCall).request.body =
        parserCall.bodyText.getD c.request.body := by
  by_cases hreturns : parserCall.Returns
  · obtain ⟨d, hrun, hd⟩ := callback_ok handling halive hlast hreturns
    rw [afterCall, hrun]
    exact hd
  · obtain ⟨url', hrun⟩ := callback_throws handling halive hreturns
    rw [afterCall, hrun]
    cases parserCall with
    | url f => exact ⟨halive, rfl, rfl⟩
    | _ => exact absurd trivial hreturns

/-! ### Sequences of callbacks -/

/-- Callbacks that raise nothing are made one after the other. -/
theorem callbacks_ok (halive : c.alive = true) {calls : List ParserCall}
    (hlast : .messageComplete ∉ calls) (hreturns : ∀ p ∈ calls, p.Returns)
    (rest : List ParserCall) :
    callbacks handling (calls ++ rest) c =
      callbacks handling rest (calls.foldl (afterCall handling) c) := by
  induction calls generalizing c with
  | nil => rfl
  | cons p calls ih =>
    rw [List.mem_cons, not_or] at hlast
    obtain ⟨d, hrun, halive', -⟩ :=
      callback_ok handling halive (Ne.symm hlast.1) (hreturns p List.mem_cons_self)
    have hafter : afterCall handling c p = d := by rw [afterCall, hrun, final]
    rw [List.cons_append, callbacks_cons handling _ hrun, List.foldl_cons, hafter]
    exact ih halive' hlast.2 fun q hq => hreturns q (List.mem_cons_of_mem p hq)

/-- Whatever the callbacks raise, the body is the text of the last `on_body` among them. -/
theorem foldl_afterCall_spec (halive : c.alive = true) {calls : List ParserCall}
    (hlast : .messageComplete ∉ calls) :
    (calls.foldl (afterCall handling) c).alive = true ∧
      (calls.foldl (afterCall handling) c).trace = c.trace ∧
      (calls.foldl (afterCall handling) c).request.body =
        (bodies calls).getLast?.getD c.request.body := by
  induction calls generalizing c with
  | nil => exact ⟨halive, rfl, rfl⟩
  | cons p calls ih =>
    rw [List.mem_cons, not_or] at hlast
    obtain ⟨halive', htrace, hbody⟩ := afterCall_spec handling halive (Ne.symm hlast.1)
    obtain ⟨halive'', htrace', hbody'⟩ := ih halive' hlast.2
    refine ⟨halive'', htrace'.trans htrace, ?_⟩
    rw [List.foldl_cons, hbody', hbody]
    cases hp : p.bodyText with
    | none =>
      have hbodies : bodies (p :: calls) = bodies calls := List.filterMap_cons_none hp
      rw [hbodies]
      rfl
    | some text =>
      have hbodies : bodies (p :: calls) = text :: bodies calls := List.filterMap_cons_some hp
      rw [hbodies, List.getLast?_cons]
      rfl

/-- The first callback that raises an exception ends the sequence. -/
theorem callbacks_throw (halive : c.alive = true) {calls : List ParserCall}
    (hlast : .messageComplete ∉ calls) (hthrows : ∃ p ∈ calls, ¬ p.Returns)
    (rest : List ParserCall) :
    ∃ d, callbacks handling (calls ++ rest) c = .error (.thrown urlParseException) d := by
  induction calls generalizing c with
  | nil =>
    obtain ⟨p, hp, -⟩ := hthrows
    cases hp
  | cons p calls ih =>
    rw [List.mem_cons, not_or] at hlast
    by_cases hp : p.Returns
    · obtain ⟨d, hrun, halive', -⟩ := callback_ok handling halive (Ne.symm hlast.1) hp
      have hlater : ∃ q ∈ calls, ¬ q.Returns := by
        obtain ⟨q, hq, hnot⟩ := hthrows
        obtain rfl | hq := List.mem_cons.mp hq
        · exact absurd hp hnot
        · exact ⟨q, hq, hnot⟩
      obtain ⟨e, hrest⟩ := ih halive' hlast.2 hlater
      exact ⟨e, by rw [List.cons_append, callbacks_cons handling _ hrun, hrest]⟩
    · obtain ⟨url', hrun⟩ := callback_throws handling halive hp
      exact ⟨_, by rw [List.cons_append, callbacks, bind_error hrun]⟩

/-! ### Sequences of reads -/

/-- The context after the callbacks of some reads. What one of them raises has left the event
loop, which is entered again for the next read. -/
def afterCallbacks (c : ClientContext S) (reads : List (List ParserCall)) : ClientContext S :=
  reads.foldl (fun c calls => final (callbacks handling calls c)) c

/-- A read makes no more callbacks after one that raises an exception. -/
def Made (reads : List (List ParserCall)) : Prop :=
  ∀ calls ∈ reads, ∀ p ∈ calls.dropLast, p.Returns

instance (reads : List (List ParserCall)) : Decidable (Made reads) :=
  inferInstanceAs (Decidable (∀ calls ∈ reads, ∀ p ∈ calls.dropLast, p.Returns))

/-- The callbacks of one read, the last of which may raise an exception. -/
theorem final_callbacks (halive : c.alive = true) {calls : List ParserCall}
    (hlast : .messageComplete ∉ calls) (hreturns : ∀ p ∈ calls.dropLast, p.Returns) :
    final (callbacks handling calls c) = calls.foldl (afterCall handling) c := by
  obtain rfl | ⟨init, last, rfl⟩ := List.eq_nil_or_concat calls
  · rfl
  · rw [List.concat_eq_append] at hlast hreturns ⊢
    rw [List.dropLast_concat] at hreturns
    rw [List.mem_append, not_or, List.mem_singleton] at hlast
    obtain ⟨halive', -⟩ := foldl_afterCall_spec handling halive hlast.1
    rw [callbacks_ok handling halive hlast.1 hreturns, List.foldl_append, List.foldl_cons,
      List.foldl_nil, afterCall]
    by_cases hp : last.Returns
    · obtain ⟨d, hrun, -⟩ := callback_ok handling halive' (Ne.symm hlast.2) hp
      rw [callbacks_cons handling [] hrun, hrun]
      rfl
    · obtain ⟨url', hrun⟩ := callback_throws handling halive' hp
      rw [callbacks, bind_error hrun, hrun]
      rfl

theorem afterCallbacks_eq (halive : c.alive = true) {reads : List (List ParserCall)}
    (hlast : .messageComplete ∉ reads.flatten) (hmade : Made reads) :
    afterCallbacks handling c reads = reads.flatten.foldl (afterCall handling) c := by
  induction reads generalizing c with
  | nil => rfl
  | cons calls reads ih =>
    rw [List.flatten_cons, List.mem_append, not_or] at hlast
    obtain ⟨hcalls, hrest⟩ := List.forall_mem_cons.mp hmade
    obtain ⟨halive', -⟩ := foldl_afterCall_spec handling halive hlast.1
    rw [afterCallbacks, List.foldl_cons, final_callbacks handling halive hlast.1 hcalls,
      List.flatten_cons, List.foldl_append]
    exact ih halive' hlast.2 hrest

/-! ### The body -/

private theorem requests_append (s t : List Mark) : requests (s ++ t) = requests s ++ requests t :=
  List.filterMap_append

/-- The handler makes no requests of its own. -/
private theorem keeps_requests (rs : List Request) :
    UseClosed fun d : ClientContext S => d.alive = true ∧ requests d.trace = rs := by
  refine ⟨fun d hd => hd.1, fun d f _ hd => hd, fun d text len hd => ⟨hd.1, ?_⟩,
    fun d accepted hd => hd⟩
  rw [requests_append, hd.2]
  exact List.append_nil rs

/-- The last callback calls the handler with the request as it is then. -/
theorem requests_messageComplete (halive : c.alive = true) :
    requests (final (callbacks handling [.messageComplete] c)).trace =
      requests c.trace ++ [c.request] := by
  have hkeeps : Keeps (fun d : ClientContext S => d.alive = true ∧
      requests d.trace = requests c.trace ++ [c.request]) (fun _ => True) (do
        handle handling
        update fun c => { c with halted := true }) :=
    (keeps_handle (keeps_requests _) (fun _ => trivial) handling).bind fun _ =>
      keeps_update fun d hd => hd
  -- `on_message_complete` returns 1, which halts the parser
  have hrun : callbacks handling [.messageComplete] c = (do
      handle handling
      update fun c => { c with halted := true })
        { c with trace := c.trace ++ [Mark.handled c.request] } := by
    simp only [callbacks, callback, onMessageComplete, bind_assoc, pure_bind, ne_eq,
      one_ne_zero, not_false_eq_true, if_true]
    exact bind_ok (touch_alive halive)
  rw [hrun]
  refine (hkeeps.final ?_).2
  exact ⟨halive, requests_append c.trace [.handled c.request]⟩

/-- The message ends with a read: the handler is called with the request that the callbacks
before have made. -/
theorem requests_afterCallbacks (halive : c.alive = true) {reads : List (List ParserCall)}
    {last : List ParserCall} (hlast : .messageComplete ∉ reads.flatten ++ last)
    (hmade : Made (reads ++ [last ++ [.messageComplete]])) :
    requests (afterCallbacks handling c (reads ++ [last ++ [.messageComplete]])).trace =
      requests c.trace ++ [((reads.flatten ++ last).foldl (afterCall handling) c).request] := by
  rw [List.mem_append, not_or] at hlast
  have hreads : Made reads := fun calls hcalls => hmade calls (List.mem_append_left _ hcalls)
  have hreturns : ∀ p ∈ last, p.Returns := by
    have hfinal := hmade (last ++ [.messageComplete]) (by simp)
    rwa [List.dropLast_concat] at hfinal
  obtain ⟨halive', htrace, -⟩ := foldl_afterCall_spec handling halive hlast.1
  obtain ⟨halive'', htrace', -⟩ := foldl_afterCall_spec handling halive' hlast.2
  have hend : afterCallbacks handling c (reads ++ [last ++ [.messageComplete]]) =
      final (callbacks handling (last ++ [.messageComplete])
        (afterCallbacks handling c reads)) := by
    rw [afterCallbacks, List.foldl_append]
    rfl
  rw [hend, afterCallbacks_eq handling halive hlast.1 hreads,
    callbacks_ok handling halive' hlast.2 hreturns, requests_messageComplete handling halive'',
    htrace', htrace, List.foldl_append]

/-- The handler is called once, with the whole body. -/
def HandsWholeBody (c : ClientContext S) (reads : List (List ParserCall))
    (last : List ParserCall) : Prop :=
  ∃ request, requests (afterCallbacks handling c (reads ++ [last ++ [.messageComplete]])).trace =
      requests c.trace ++ [request] ∧
    request.getBody = (bodies (reads.flatten ++ last)).flatten

end ClientContext

/-- The last of some texts is all of them exactly if those before it are empty, and so is what
there is if there are none. -/
private theorem getLast_eq_flatten_iff (texts : List (List UInt8)) (old : List UInt8) :
    texts.getLast?.getD old = texts.flatten ↔
      (∀ text ∈ texts.dropLast, text = []) ∧ (texts = [] → old = []) := by
  rw [← List.flatten_eq_nil_iff]
  obtain rfl | ⟨init, last, rfl⟩ := List.eq_nil_or_concat texts
  · simp
  · simp

namespace ClientContext

variable {S : Type} {c : ClientContext S} (handling : Handling)

/-- Whatever reads bring the callbacks of a message, and whatever these raise: the handler sees
the whole body exactly if every fragment before the last is empty and, for a message without a
body, none is left of a message before. -/
theorem handsWholeBody_iff (halive : c.alive = true) {reads : List (List ParserCall)}
    {last : List ParserCall} (hlast : .messageComplete ∉ reads.flatten ++ last)
    (hmade : Made (reads ++ [last ++ [.messageComplete]])) :
    HandsWholeBody handling c reads last ↔
      (∀ text ∈ (bodies (reads.flatten ++ last)).dropLast, text = []) ∧
        (bodies (reads.flatten ++ last) = [] → c.request.body = []) := by
  obtain ⟨-, -, hbody⟩ := foldl_afterCall_spec handling halive hlast
  rw [← getLast_eq_flatten_iff, ← hbody, HandsWholeBody,
    requests_afterCallbacks handling halive hlast hmade]
  constructor
  · rintro ⟨request, hrequest, hwhole⟩
    obtain rfl := List.singleton_inj.mp (List.append_cancel_left hrequest)
    exact hwhole
  · exact fun hwhole => ⟨_, rfl, hwhole⟩

/-- A target in two reads, the second of which raises an exception, and then a body at once. -/
theorem handsWholeBody_at_once :
    HandsWholeBody ⟨[], none⟩ (opened ())
      [[.url ⟨ascii "/a", []⟩], [.url ⟨ascii "b", ascii " "⟩],
        [.headerField (ascii "Content-Length"), .headerValue (ascii "2")]]
      [.headersComplete, .body (ascii "ab")] :=
  (handsWholeBody_iff ⟨[], none⟩ rfl (by decide) (by decide)).mpr (by decide)

/-- The same body in two reads: the handler sees the second piece. -/
theorem second_piece_replaces :
    ∃ request,
      requests (afterCallbacks ⟨[], none⟩ (opened ())
        [[.url ⟨ascii "/a", ascii " HTTP/1.1"⟩, .headersComplete, .body (ascii "a")],
          [.body (ascii "b"), .messageComplete]]).trace = [request] ∧
      request.getBody = ascii "b" ∧
      ¬ HandsWholeBody ⟨[], none⟩ (opened ())
        [[.url ⟨ascii "/a", ascii " HTTP/1.1"⟩, .headersComplete, .body (ascii "a")]]
        [.body (ascii "b")] := by
  refine ⟨_, rfl, rfl, ?_⟩
  rintro ⟨request, hrequest, hbody⟩
  obtain rfl := List.singleton_inj.mp hrequest
  revert hbody
  decide

/-! ### The URL -/

/-- The text that was split, with what follows it in memory. -/
def whole (init : List Fragment) (last : Fragment) : Fragment :=
  { text := (init ++ [last]).flatMap Fragment.text, after := last.after }

/-- The fragments have the outcome of the whole text: the same URL, or the exception. -/
def UrlAsWhole (parser : S) (init : List Fragment) (last : Fragment) : Prop :=
  match UrlObj.fromBuf (whole init last) false .new with
  | .ok _ url => ∃ c, callbacks handling ((init ++ [last]).map .url) (opened parser) = .ok () c ∧
      c.request.url = url
  | .error _ _ => ∃ c, callbacks handling ((init ++ [last]).map .url) (opened parser) =
      .error (.thrown urlParseException) c

theorem messageComplete_notMem (fs : List Fragment) :
    ParserCall.messageComplete ∉ fs.map ParserCall.url := by
  intro hmem
  obtain ⟨f, -, hf⟩ := List.mem_map.mp hmem
  cases hf

/-- The fragments raise the exception exactly if one of them is rejected. -/
theorem urls_throw {fs : List Fragment} (hthrows : ∃ f ∈ fs, ¬ f.Accepted) (parser : S) :
    ∃ c, callbacks handling (fs.map .url) (opened parser) =
      .error (.thrown urlParseException) c := by
  obtain ⟨f, hf, hnot⟩ := hthrows
  obtain ⟨c, hrun⟩ := callbacks_throw handling (c := opened parser) rfl
    (messageComplete_notMem fs) ⟨.url f, List.mem_map_of_mem hf, hnot⟩ []
  rw [List.append_nil] at hrun
  exact ⟨c, hrun⟩

/-- Fragments that are accepted leave the text of the last one. -/
theorem urls_ok {init : List Fragment} {last : Fragment}
    (hreturns : ∀ f ∈ init ++ [last], f.Accepted) (parser : S) :
    ∃ c, callbacks handling ((init ++ [last]).map .url) (opened parser) = .ok () c ∧
      c.request.url.buf = last.text := by
  have hinit : ∀ p ∈ init.map ParserCall.url, p.Returns := by
    intro p hp
    obtain ⟨f, hf, rfl⟩ := List.mem_map.mp hp
    exact hreturns f (List.mem_append_left _ hf)
  have hrun := callbacks_ok handling (c := opened parser) rfl (messageComplete_notMem init) hinit
    [.url last]
  obtain ⟨halive, -⟩ := foldl_afterCall_spec handling (c := opened parser) rfl
    (messageComplete_notMem init)
  obtain ⟨handle, hlast⟩ := callback_url_accepted handling halive
    (hreturns last (List.mem_append_right _ List.mem_cons_self))
  rw [List.map_append]
  exact ⟨url.put { handle := handle, buf := last.text }
    ((init.map .url).foldl (afterCall handling) (opened parser)),
    hrun.trans (callbacks_cons handling [] hlast), rfl⟩

/-- Empty fragments leave a new context as it was. -/
theorem urls_empty {init : List Fragment} (hempty : ∀ f ∈ init, f.text = [])
    (rest : List ParserCall) (parser : S) :
    callbacks handling (init.map .url ++ rest) (opened parser) =
      callbacks handling rest (opened parser) := by
  induction init with
  | nil => rfl
  | cons f init ih =>
    have hnew : callback handling (.url f) (opened parser) = .ok 0 (opened parser) := by
      rw [callback, bind_ok (touch_alive rfl)]
      have hnone := UrlObj.fromBuf_new_empty (hempty f List.mem_cons_self)
      exact bind_ok (Execution.Place.run_ok hnone)
    rw [List.map_cons, List.cons_append, callbacks_cons handling _ hnew]
    exact ih fun g hg => hempty g (List.mem_cons_of_mem f hg)

theorem whole_of_empty {init : List Fragment} (hempty : ∀ f ∈ init, f.text = [])
    (last : Fragment) : whole init last = last := by
  rw [whole, List.flatMap_append, List.flatMap_eq_nil_iff.mpr hempty, List.nil_append,
    List.flatMap_singleton]

/-- An accepted text that came in one piece is parsed as a whole. -/
theorem urlAsWhole_of_empty {init : List Fragment} {last : Fragment}
    (hlast : last.Accepted) (hempty : ∀ f ∈ init, f.text = []) (parser : S) :
    UrlAsWhole handling parser init last := by
  obtain ⟨handle, hok⟩ := UrlObj.fromBuf_accepted hlast .new
  rw [UrlAsWhole, whole_of_empty hempty, hok]
  refine ⟨url.put { handle := handle, buf := last.text } (opened parser), ?_, rfl⟩
  have hrun : callback handling (.url last) (opened parser) =
      .ok 0 (url.put { handle := handle, buf := last.text } (opened parser)) := by
    rw [callback, bind_ok (touch_alive rfl)]
    exact bind_ok (Execution.Place.run_ok hok)
  rw [List.map_append, urls_empty handling hempty]
  exact callbacks_cons handling [] hrun

/-- An accepted text whose fragments leave its URL came in one piece. -/
theorem empty_of_urlAsWhole {init : List Fragment} {last : Fragment} {parser : S}
    (hwhole : (whole init last).Accepted) (h : UrlAsWhole handling parser init last) :
    ∀ f ∈ init, f.text = [] := by
  obtain ⟨handle, hok⟩ := UrlObj.fromBuf_accepted hwhole .new
  rw [UrlAsWhole, hok] at h
  obtain ⟨c, hrun, hurl⟩ := h
  have hreturns : ∀ f ∈ init ++ [last], f.Accepted := by
    by_contra hthrows
    simp only [not_forall, exists_prop] at hthrows
    obtain ⟨d, hthrow⟩ := urls_throw handling hthrows parser
    rw [hrun] at hthrow
    cases hthrow
  obtain ⟨d, hrun', hbuf⟩ := urls_ok handling hreturns parser
  rw [hrun] at hrun'
  cases hrun'
  -- the text that is left is the last fragment, so there is nothing before it
  have htext : (whole init last).text = last.text := by
    rw [← hbuf, hurl]
  rw [whole, List.flatMap_append, List.flatMap_singleton] at htext
  exact List.flatMap_eq_nil_iff.mp (List.append_left_eq_self.mp htext)

/-- A split does not change the outcome exactly if the text is accepted and nothing comes
before the last fragment, or it is rejected and one of the fragments is rejected too. -/
theorem urlAsWhole_iff (parser : S) (init : List Fragment) (last : Fragment) :
    UrlAsWhole handling parser init last ↔
      ((whole init last).Accepted ∧ ∀ f ∈ init, f.text = []) ∨
        (¬ (whole init last).Accepted ∧ ∃ f ∈ init ++ [last], ¬ f.Accepted) := by
  by_cases hwhole : (whole init last).Accepted
  · rw [or_iff_left fun h => h.1 hwhole, and_iff_right hwhole]
    constructor
    · intro h
      exact empty_of_urlAsWhole handling hwhole h
    · intro hempty
      rw [whole_of_empty hempty] at hwhole
      exact urlAsWhole_of_empty handling hwhole hempty parser
  · obtain ⟨url', herror⟩ := UrlObj.fromBuf_rejected hwhole .new
    rw [or_iff_right fun h => hwhole h.1, and_iff_right hwhole, UrlAsWhole, herror]
    constructor
    · rintro ⟨c, hrun⟩
      by_contra hall
      simp only [not_exists, not_and, not_not] at hall
      obtain ⟨d, hrun', -⟩ := urls_ok handling hall parser
      rw [hrun] at hrun'
      cases hrun'
    · intro hthrows
      exact urls_throw handling hthrows parser

/-- `/ab` in two pieces raises the exception, and `/a/b` becomes another path. -/
theorem split_target_differs :
    (acceptsTarget false (ascii "/ab") = true ∧
      (whole [⟨ascii "/a", []⟩] ⟨ascii "b", ascii " HTTP/1.1"⟩).Accepted ∧
      (∃ c, callbacks ⟨[], none⟩ [.url ⟨ascii "/a", []⟩, .url ⟨ascii "b", ascii " HTTP/1.1"⟩]
        (opened ()) = .error (.thrown urlParseException) c) ∧
      ¬ UrlAsWhole ⟨[], none⟩ () [⟨ascii "/a", []⟩] ⟨ascii "b", ascii " HTTP/1.1"⟩) ∧
    (acceptsTarget false (ascii "/a/b") = true ∧
      (∃ c, callbacks ⟨[], none⟩ [.url ⟨ascii "/a", []⟩, .url ⟨ascii "/b", ascii " HTTP/1.1"⟩]
        (opened ()) = .ok () c ∧ c.request.url.buf = ascii "/b") ∧
      ¬ UrlAsWhole ⟨[], none⟩ () [⟨ascii "/a", []⟩] ⟨ascii "/b", ascii " HTTP/1.1"⟩) := by
  refine ⟨⟨by decide, by decide, ⟨_, rfl⟩, ?_⟩, by decide, ⟨_, rfl, rfl⟩, ?_⟩
  · rintro ⟨c, hrun, hurl⟩
    cases hrun
  · rintro ⟨c, hrun, hurl⟩
    have hbuf := congrArg UrlObj.buf hurl
    cases hrun
    revert hbuf
    decide

end ClientContext

end LibraCore.Http
