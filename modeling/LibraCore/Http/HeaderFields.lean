import LibraCore.Http.Fragments

/-!
# How the header fields of a request are put together

The parser reports a field as one or more pieces of its name and then one or more pieces of
its value. The callbacks keep the field they are in the middle of, and write it into the map
when the next one starts; `on_headers_complete` writes the last one. The fields of a trailer
come later, and nothing writes the last one of them.

## Main results

- `ClientContext.getHeader_headersComplete` — the headers do not depend on the pieces
- `ClientContext.handsAllFields_iff` — when the handler sees the trailer as well
-/

namespace LibraCore.Http

open Execution (final bind_ok)

/-- A header field as the parser reports it: a name, which is not empty, and a value, both
in pieces. -/
structure ReportedField where
  name : List (List UInt8)
  value : List (List UInt8)
  name_nonempty : name.flatten ≠ []
  value_reported : value ≠ []

namespace ReportedField

/-- The name and the value. -/
def entry (f : ReportedField) : List UInt8 × List UInt8 := (f.name.flatten, f.value.flatten)

def calls (f : ReportedField) : List ParserCall :=
  f.name.map .headerField ++ f.value.map .headerValue

end ReportedField

/-- What the fields say, in order. -/
def entries (fs : List ReportedField) : List (List UInt8 × List UInt8) := fs.map ReportedField.entry

private theorem dropLast_append_toList {α : Type} (l : List α) :
    l.dropLast ++ l.getLast?.toList = l := by
  obtain rfl | ⟨init, last, rfl⟩ := List.eq_nil_or_concat l
  · rfl
  · simp

namespace ClientContext

variable {S : Type} {c : ClientContext S} (handling : Handling)

/-! ### One field -/

/-- Callbacks of one kind that return 0, one for each of some texts. -/
theorem callbacks_map {mk : List UInt8 → ParserCall}
    {g : List UInt8 → ClientContext S → ClientContext S}
    (hmk : ∀ text c, c.alive = true → callback handling (mk text) c = .ok 0 (g text c))
    (hg : ∀ text c, (g text c).alive = c.alive) (halive : c.alive = true)
    (texts : List (List UInt8)) (rest : List ParserCall) :
    callbacks handling (texts.map mk ++ rest) c =
      callbacks handling rest (texts.foldl (fun c text => g text c) c) := by
  induction texts generalizing c with
  | nil => rfl
  | cons text texts ih =>
    rw [List.map_cons, List.cons_append, callbacks_cons handling _ (hmk text c halive)]
    exact ih ((hg text c).trans halive)

theorem alive_foldl {g : List UInt8 → ClientContext S → ClientContext S}
    (hg : ∀ text c, (g text c).alive = c.alive) (texts : List (List UInt8)) :
    (texts.foldl (fun c text => g text c) c).alive = c.alive := by
  induction texts generalizing c with
  | nil => rfl
  | cons text texts ih => exact ih.trans (hg text c)

theorem alive_onHeaderField (text : List UInt8) (c : ClientContext S) :
    (onHeaderField text c).alive = c.alive := by
  rw [onHeaderField]
  split_ifs <;> rfl

theorem alive_onHeaderValue (text : List UInt8) (c : ClientContext S) :
    (onHeaderValue text c).alive = c.alive := by
  rw [onHeaderValue]
  split_ifs <;> rfl

/-- The pieces of a name after the first are appended to it. -/
theorem foldl_onHeaderField (hname : c.wasHeaderValue = false) (texts : List (List UInt8)) :
    texts.foldl (fun c text => onHeaderField text c) c =
      { c with lastHeaderField := c.lastHeaderField ++ texts.flatten } := by
  induction texts generalizing c with
  | nil => simp
  | cons text texts ih =>
    have hstep : onHeaderField text c =
        { c with lastHeaderField := c.lastHeaderField ++ text } := by
      rw [onHeaderField, if_neg (by rw [hname]; decide)]
    have hrest := ih (c := { c with lastHeaderField := c.lastHeaderField ++ text }) hname
    rw [List.foldl_cons, hstep, hrest, List.flatten_cons, List.append_assoc]

theorem foldl_onHeaderValue (hvalue : c.wasHeaderValue = true) (texts : List (List UInt8)) :
    texts.foldl (fun c text => onHeaderValue text c) c =
      { c with lastHeaderValue := c.lastHeaderValue ++ texts.flatten } := by
  induction texts generalizing c with
  | nil => simp
  | cons text texts ih =>
    have hstep : onHeaderValue text c =
        { c with lastHeaderValue := c.lastHeaderValue ++ text } := by
      rw [onHeaderValue, if_neg (by rw [hvalue]; decide)]
    have hrest := ih (c := { c with lastHeaderValue := c.lastHeaderValue ++ text }) hvalue
    rw [List.foldl_cons, hstep, hrest, List.flatten_cons, List.append_assoc]

/-- The context after a field: the field before it has been written into the map. -/
def afterField (f : ReportedField) (c : ClientContext S) : ClientContext S :=
  { onHeadersComplete c with
    lastHeaderField := f.entry.1
    lastHeaderValue := f.entry.2
    wasHeaderValue := true }

theorem foldl_field (hvalue : c.wasHeaderValue = true) (f : ReportedField) :
    f.value.foldl (fun c text => onHeaderValue text c)
      (f.name.foldl (fun c text => onHeaderField text c) c) = c.afterField f := by
  obtain ⟨name, value, hname, hreported⟩ := f
  cases name with
  | nil => exact absurd rfl hname
  | cons n names =>
    cases value with
    | nil => exact absurd rfl hreported
    | cons v values =>
      -- the first piece of the name writes the field before it
      have hstart : onHeaderField n c =
          { onHeadersComplete c with
            lastHeaderField := n
            lastHeaderValue := (onHeaderField n c).lastHeaderValue
            wasHeaderValue := false } := by
        rw [onHeaderField, if_pos hvalue, onHeadersComplete]
        by_cases hfield : c.lastHeaderField ≠ []
        · simp only [if_pos hfield]
        · simp only [if_neg hfield]
      have hturn : ∀ d : ClientContext S, d.wasHeaderValue = false →
          onHeaderValue v d = { d with lastHeaderValue := v, wasHeaderValue := true } := by
        intro d hd
        rw [onHeaderValue, if_pos (by rw [hd]; rfl)]
      rw [List.foldl_cons, List.foldl_cons, hstart, foldl_onHeaderField rfl, hturn _ rfl,
        foldl_onHeaderValue rfl]
      rfl

theorem callbacks_field (halive : c.alive = true) (hvalue : c.wasHeaderValue = true)
    (f : ReportedField) (rest : List ParserCall) :
    callbacks handling (f.calls ++ rest) c = callbacks handling rest (c.afterField f) := by
  have hfield (text : List UInt8) (c : ClientContext S) (halive : c.alive = true) :
      callback handling (.headerField text) c = .ok 0 (onHeaderField text c) :=
    bind_ok (touch_alive halive)
  have hheader (text : List UInt8) (c : ClientContext S) (halive : c.alive = true) :
      callback handling (.headerValue text) c = .ok 0 (onHeaderValue text c) :=
    bind_ok (touch_alive halive)
  have hnames : (f.name.foldl (fun c text => onHeaderField text c) c).alive = true :=
    (alive_foldl alive_onHeaderField f.name).trans halive
  rw [ReportedField.calls, List.append_assoc,
    callbacks_map handling hfield alive_onHeaderField halive,
    callbacks_map handling hheader alive_onHeaderValue hnames, foldl_field hvalue]

/-! ### Sequences of fields -/

/-- A context that has written `m` into the map and keeps the field `pending` back; nothing
has been observed of it. -/
structure Assembled (m : HeaderMap) (pending : Option ReportedField) (c : ClientContext S) :
    Prop where
  alive : c.alive = true
  trace : c.trace = []
  wasHeaderValue : c.wasHeaderValue = true
  headers : c.request.headers = m
  field : c.lastHeaderField = (pending.map fun f => f.entry.1).getD []
  value : ∀ f ∈ pending, c.lastHeaderValue = f.entry.2

variable {m : HeaderMap} {pending : Option ReportedField}

theorem assembled_opened (parser : S) : Assembled .empty none (opened parser) :=
  ⟨rfl, rfl, rfl, rfl, rfl, fun f hf => by cases hf⟩

/-- `on_headers_complete` writes the field that was kept back, and keeps it. -/
theorem Assembled.headersComplete (h : c.Assembled m pending) :
    (onHeadersComplete c).Assembled (m.setAll (entries pending.toList)) pending := by
  cases pending with
  | none =>
    have hfield : c.lastHeaderField = [] := h.field
    rw [onHeadersComplete, if_neg (by rw [hfield]; decide)]
    exact h
  | some f =>
    have hfield : c.lastHeaderField = f.entry.1 := h.field
    have hvalue : c.lastHeaderValue = f.entry.2 := h.value f rfl
    rw [onHeadersComplete, if_pos (by rw [hfield]; exact f.name_nonempty)]
    refine ⟨h.alive, h.trace, h.wasHeaderValue, ?_, h.field, h.value⟩
    show c.request.headers.set c.lastHeaderField c.lastHeaderValue = _
    rw [h.headers, hfield, hvalue]
    rfl

theorem Assembled.afterField (h : c.Assembled m pending) (f : ReportedField) :
    (c.afterField f).Assembled (m.setAll (entries pending.toList)) (some f) := by
  have hflush := h.headersComplete
  refine ⟨hflush.alive, hflush.trace, rfl, hflush.headers, rfl, ?_⟩
  intro f' hf'
  cases hf'
  rfl

/-- Some fields: all but the last are written. -/
theorem Assembled.fields (h : c.Assembled m pending) (fs : List ReportedField)
    (rest : List ParserCall) :
    ∃ d, callbacks handling (fs.flatMap ReportedField.calls ++ rest) c =
        callbacks handling rest d ∧
      Assembled (m.setAll (entries (pending.toList ++ fs).dropLast))
        (pending.toList ++ fs).getLast? d := by
  induction fs generalizing c m pending with
  | nil =>
    refine ⟨c, rfl, ?_⟩
    cases pending with
    | none => exact h
    | some f => exact h
  | cons f fs ih =>
    obtain ⟨d, hrun, hd⟩ := ih (h.afterField f)
    refine ⟨d, ?_, ?_⟩
    · rw [List.flatMap_cons, List.append_assoc,
        callbacks_field handling h.alive h.wasHeaderValue, hrun]
    · have hne : f :: fs ≠ [] := List.cons_ne_nil f fs
      have hlast : (pending.toList ++ f :: fs).getLast? = (f :: fs).getLast? :=
        List.getLast?_append_of_ne_nil _ hne
      have hinit : entries (pending.toList ++ f :: fs).dropLast =
          entries pending.toList ++ entries (f :: fs).dropLast := by
        rw [List.dropLast_append_of_ne_nil hne, entries, List.map_append]
        rfl
      rw [hlast, hinit, HeaderMap.setAll_append]
      exact hd

/-- The fields of the header section, up to and with `on_headers_complete`. -/
theorem Assembled.headerSection (h : c.Assembled m none) (fs : List ReportedField)
    (rest : List ParserCall) :
    ∃ d, callbacks handling (fs.flatMap ReportedField.calls ++ .headersComplete :: rest) c =
        callbacks handling rest d ∧ Assembled (m.setAll (entries fs)) fs.getLast? d := by
  obtain ⟨d, hrun, hd⟩ := h.fields handling fs (.headersComplete :: rest)
  have hcomplete : callback handling .headersComplete d = .ok 0 (onHeadersComplete d) :=
    bind_ok (touch_alive hd.alive)
  refine ⟨onHeadersComplete d, by rw [hrun, callbacks_cons handling rest hcomplete], ?_⟩
  have hflush := hd.headersComplete
  have hall : entries fs = entries fs.dropLast ++ entries fs.getLast?.toList := by
    rw [entries, entries, entries, ← List.map_append, dropLast_append_toList]
  rw [← HeaderMap.setAll_append] at hflush
  rw [hall]
  exact hflush

/-- The URL does not touch the fields. -/
theorem Assembled.urls (h : c.Assembled m pending) {fs : List Fragment}
    (haccepted : ∀ f ∈ fs, f.Accepted) (rest : List ParserCall) :
    ∃ d, callbacks handling (fs.map .url ++ rest) c = callbacks handling rest d ∧
      Assembled m pending d := by
  induction fs generalizing c with
  | nil => exact ⟨c, rfl, h⟩
  | cons f fs ih =>
    obtain ⟨handle, hrun⟩ :=
      callback_url_accepted handling h.alive (haccepted f List.mem_cons_self)
    have hnext : (url.put { handle := handle, buf := f.text } c).Assembled m pending :=
      ⟨h.alive, h.trace, h.wasHeaderValue, h.headers, h.field, h.value⟩
    obtain ⟨d, hrest, hd⟩ := ih hnext fun g hg => haccepted g (List.mem_cons_of_mem f hg)
    refine ⟨d, ?_, hd⟩
    rw [List.map_cons, List.cons_append, callbacks_cons handling _ hrun, hrest]

/-- Nor does the body. -/
theorem Assembled.body (h : c.Assembled m pending) (pieces : List (List UInt8))
    (rest : List ParserCall) :
    ∃ d, callbacks handling (pieces.map .body ++ rest) c = callbacks handling rest d ∧
      Assembled m pending d := by
  induction pieces generalizing c with
  | nil => exact ⟨c, rfl, h⟩
  | cons text pieces ih =>
    have hrun : callback handling (.body text) c = .ok 0 (onBody text c) :=
      bind_ok (touch_alive h.alive)
    have hnext : (onBody text c).Assembled m pending :=
      ⟨h.alive, h.trace, h.wasHeaderValue, h.headers, h.field, h.value⟩
    obtain ⟨d, hrest, hd⟩ := ih hnext
    refine ⟨d, ?_, hd⟩
    rw [List.map_cons, List.cons_append, callbacks_cons handling _ hrun, hrest]

/-! ### The header section -/

/-- Whatever the pieces in which the parser reports the fields, `get_header` finds the value
of the last field of a name, in any case of its letters; and every name and every value in
the map is that of a field. -/
theorem getHeader_headersComplete (parser : S) {target : List Fragment}
    (htarget : ∀ f ∈ target, f.Accepted) (fs : List ReportedField) :
    ∃ c, callbacks handling (target.map .url ++ (fs.flatMap ReportedField.calls ++
        [.headersComplete])) (opened parser) = .ok () c ∧
      (∀ k, c.request.getHeader k = (lastValue (entries fs) k).getD []) ∧
      ∀ e ∈ c.request.headers.entries,
        (∃ f ∈ fs, f.name.flatten = e.1) ∧
        ∃ f ∈ fs, f.value.flatten = e.2 ∧ folded f.name.flatten = folded e.1 := by
  obtain ⟨c₁, hurl, h₁⟩ := (assembled_opened parser).urls handling htarget
    (fs.flatMap ReportedField.calls ++ [.headersComplete])
  obtain ⟨c₂, hfields, h₂⟩ := h₁.headerSection handling fs []
  refine ⟨c₂, hurl.trans hfields, ?_, ?_⟩
  · intro k
    rw [Request.getHeader_eq, h₂.headers, HeaderMap.find_setAll, SortedMap.find_empty,
      Option.or_none]
  · intro e he
    rw [h₂.headers] at he
    obtain ⟨⟨e₁, he₁, hname⟩, e₂, he₂, hvalue, hsame⟩ := HeaderMap.mem_setAll_empty he
    obtain ⟨f₁, hf₁, rfl⟩ := List.mem_map.mp he₁
    obtain ⟨f₂, hf₂, rfl⟩ := List.mem_map.mp he₂
    exact ⟨⟨f₁, hf₁, hname⟩, f₂, hf₂, hvalue, hsame⟩

/-- A field whose name and value come in two pieces each, and one with an empty value. -/
theorem getHeader_pieces :
    ∃ c, callbacks ⟨[], none⟩ [.url ⟨ascii "/a", ascii " HTTP/1.1"⟩, .headerField (ascii "Ho"),
        .headerField (ascii "st"), .headerValue (ascii "a"), .headerValue (ascii "b"),
        .headerField (ascii "X"), .headerValue [], .headersComplete] (opened ()) = .ok () c ∧
      c.request.getHeader (ascii "HOST") = ascii "ab" ∧ c.request.getHeader (ascii "x") = [] := by
  obtain ⟨c, hrun, hget, -⟩ := getHeader_headersComplete ⟨[], none⟩ ()
    (show ∀ f ∈ [⟨ascii "/a", ascii " HTTP/1.1"⟩], Fragment.Accepted f by decide)
    [⟨[ascii "Ho", ascii "st"], [ascii "a", ascii "b"], by decide, by decide⟩,
      ⟨[ascii "X"], [[]], by decide, by decide⟩]
  refine ⟨c, hrun, ?_, ?_⟩
  · rw [hget]
    decide
  · rw [hget]
    decide

/-! ### The trailer -/

/-- The callbacks of a chunked request before its end: its header section, the pieces of its
body and the fields of its trailer. -/
def chunkedCalls (target : List Fragment) (fs : List ReportedField) (pieces : List (List UInt8))
    (ts : List ReportedField) : List ParserCall :=
  target.map .url ++ (fs.flatMap ReportedField.calls ++ .headersComplete ::
    (pieces.map .body ++ ts.flatMap ReportedField.calls))

/-- The handler is called once, with all fields of the header section and of the trailer. -/
def HandsAllFields (parser : S) (reads : List (List ParserCall)) (last : List ParserCall)
    (fields : List ReportedField) : Prop :=
  ∃ request, requests (afterCallbacks handling (opened parser)
      (reads ++ [last ++ [.messageComplete]])).trace = [request] ∧
    ∀ k, request.headers.find k = lastValue (entries fields) k

/-- The last field of the header section is written again, which changes nothing. -/
private theorem lastValue_again (fs ts : List ReportedField) (k : List UInt8) :
    (lastValue (entries (fs.getLast?.toList ++ ts).dropLast) k).or (lastValue (entries fs) k) =
      lastValue (entries (fs ++ ts.dropLast)) k := by
  have hlast : (lastValue (entries fs.getLast?.toList) k).or (lastValue (entries fs) k) =
      lastValue (entries fs) k := by
    obtain rfl | ⟨init, last, rfl⟩ := List.eq_nil_or_concat fs
    · rfl
    · simp only [List.concat_eq_append, List.getLast?_concat, Option.toList_some, entries,
        List.map_append, lastValue_append, ← Option.or_assoc, Option.or_self]
  by_cases hts : ts = []
  · subst hts
    rw [List.append_nil, List.dropLast_nil, List.append_nil]
    cases fs.getLast? <;> rfl
  · rw [List.dropLast_append_of_ne_nil hts, entries, entries, List.map_append, lastValue_append,
      Option.or_assoc]
    rw [entries, entries] at hlast
    rw [hlast, entries, List.map_append, lastValue_append]

/-- A URL that is rejected does not touch the fields either. -/
theorem Assembled.afterUrls (h : c.Assembled m pending) (fs : List Fragment) :
    ((fs.map .url).foldl (afterCall handling) c).Assembled m pending := by
  induction fs generalizing c with
  | nil => exact h
  | cons f fs ih =>
    refine ih ?_
    have hput (url' : UrlObj) : (url.put url' c).Assembled m pending :=
      ⟨h.alive, h.trace, h.wasHeaderValue, h.headers, h.field, h.value⟩
    by_cases hf : f.Accepted
    · obtain ⟨handle, hrun⟩ := callback_url_accepted handling h.alive hf
      rw [afterCall, hrun]
      exact hput _
    · obtain ⟨url', hrun⟩ := callback_url_rejected handling h.alive hf
      rw [afterCall, hrun]
      exact hput url'

/-- Behind the target no callback raises anything. -/
theorem returns_chunked {fs : List ReportedField} {pieces : List (List UInt8)}
    {ts : List ReportedField} {p : ParserCall} (hp : p ∈ fs.flatMap ReportedField.calls ++
      .headersComplete :: (pieces.map .body ++ ts.flatMap ReportedField.calls)) :
    p ≠ .messageComplete ∧ p.Returns := by
  have hfields (fs : List ReportedField) (hp : p ∈ fs.flatMap ReportedField.calls) :
      p ≠ .messageComplete ∧ p.Returns := by
    obtain ⟨f, -, hp⟩ := List.mem_flatMap.mp hp
    obtain hp | hp := List.mem_append.mp hp <;> obtain ⟨text, -, rfl⟩ := List.mem_map.mp hp <;>
      exact ⟨by simp, trivial⟩
  simp only [List.mem_append, List.mem_cons, List.mem_map] at hp
  obtain hp | rfl | ⟨text, -, rfl⟩ | hp := hp
  · exact hfields fs hp
  · exact ⟨by simp, trivial⟩
  · exact ⟨by simp, trivial⟩
  · exact hfields ts hp

theorem messageComplete_notMem_chunked (target : List Fragment) (fs : List ReportedField)
    (pieces : List (List UInt8)) (ts : List ReportedField) :
    .messageComplete ∉ chunkedCalls target fs pieces ts := by
  intro hmem
  obtain hmem | hmem := List.mem_append.mp hmem
  · exact messageComplete_notMem target hmem
  · exact (returns_chunked hmem).1 rfl

/-- What is in the map when the message ends: all fields but the last of the trailer. -/
theorem assembled_chunked (parser : S) (target : List Fragment) (fs : List ReportedField)
    (pieces : List (List UInt8)) (ts : List ReportedField) (k : List UInt8) :
    ((chunkedCalls target fs pieces ts).foldl (afterCall handling)
      (opened parser)).request.headers.find k = lastValue (entries (fs ++ ts.dropLast)) k := by
  have h₁ := (assembled_opened parser).afterUrls handling target
  rw [chunkedCalls, List.foldl_append]
  generalize (target.map ParserCall.url).foldl (afterCall handling) (opened parser) = c₁ at h₁ ⊢
  obtain ⟨c₂, hheader, h₂⟩ := h₁.headerSection handling fs
    (pieces.map .body ++ ts.flatMap ReportedField.calls)
  obtain ⟨c₃, hbody, h₃⟩ := h₂.body handling pieces (ts.flatMap ReportedField.calls)
  obtain ⟨c₄, htrailer, h₄⟩ := h₃.fields handling ts []
  rw [List.append_nil] at htrailer
  -- as none of these callbacks raises anything, they are made one after the other
  have hnone : .messageComplete ∉ fs.flatMap ReportedField.calls ++ .headersComplete ::
      (pieces.map .body ++ ts.flatMap ReportedField.calls) :=
    fun hmem => (returns_chunked hmem).1 rfl
  have hrun := callbacks_ok handling h₁.alive hnone (fun p hp => (returns_chunked hp).2) []
  rw [List.append_nil, hheader, hbody, htrailer] at hrun
  obtain ⟨-, rfl⟩ := EStateM.Result.ok.inj hrun
  rw [h₄.headers, HeaderMap.find_setAll, HeaderMap.find_setAll, SortedMap.find_empty,
    Option.or_none, lastValue_again]

/-- Whatever reads bring the callbacks of a chunked request, and whatever its target makes them
raise: the handler sees all fields exactly if the last field of the trailer says again what the
fields before it say. -/
theorem handsAllFields_iff (parser : S) (target : List Fragment) (fs : List ReportedField)
    (pieces : List (List UInt8)) (ts : List ReportedField) {reads : List (List ParserCall)}
    {last : List ParserCall} (hcalls : reads.flatten ++ last = chunkedCalls target fs pieces ts)
    (hmade : Made (reads ++ [last ++ [.messageComplete]])) :
    HandsAllFields handling parser reads last (fs ++ ts) ↔
      ∀ t ∈ ts.getLast?,
        lastValue (entries (fs ++ ts.dropLast)) t.name.flatten = some t.value.flatten := by
  have hlast : .messageComplete ∉ reads.flatten ++ last :=
    hcalls ▸ messageComplete_notMem_chunked target fs pieces ts
  have hrequests := requests_afterCallbacks handling (c := opened parser) rfl hlast hmade
  have hhands : HandsAllFields handling parser reads last (fs ++ ts) ↔
      ∀ k, lastValue (entries (fs ++ ts.dropLast)) k = lastValue (entries (fs ++ ts)) k := by
    rw [HandsAllFields, hrequests, hcalls]
    constructor
    · rintro ⟨request, hrequest, hfind⟩ k
      obtain rfl := List.singleton_inj.mp hrequest
      rw [← hfind, assembled_chunked]
    · exact fun hfind => ⟨_, rfl, fun k => (assembled_chunked handling _ _ _ _ _ k).trans (hfind k)⟩
  rw [hhands]
  obtain rfl | ⟨init, t, rfl⟩ := List.eq_nil_or_concat ts
  · simp
  · have hsplit : entries (fs ++ init.concat t) = entries (fs ++ init) ++ [t.entry] := by
      simp [entries]
    simp only [List.concat_eq_append, List.dropLast_concat, List.getLast?_concat,
      Option.mem_some_iff, forall_eq'] at hsplit ⊢
    rw [hsplit]
    exact lastValue_snoc_iff _ _

/-- A request with a trailer that repeats a field of its header, in reads the second of which
raises an exception. -/
theorem handsAllFields_repeated :
    HandsAllFields ⟨[], none⟩ ()
      [[.url ⟨ascii "/a", []⟩], [.url ⟨ascii "b", ascii " "⟩],
        [.headerField (ascii "X"), .headerValue (ascii "1"), .headersComplete,
          .body (ascii "ab")]]
      [.headerField (ascii "Y"), .headerValue (ascii "2"), .headerField (ascii "x"),
        .headerValue (ascii "1")]
      ([⟨[ascii "X"], [ascii "1"], by decide, by decide⟩] ++
        [⟨[ascii "Y"], [ascii "2"], by decide, by decide⟩,
          ⟨[ascii "x"], [ascii "1"], by decide, by decide⟩]) :=
  (handsAllFields_iff ⟨[], none⟩ () [⟨ascii "/a", []⟩, ⟨ascii "b", ascii " "⟩]
    [⟨[ascii "X"], [ascii "1"], by decide, by decide⟩] [ascii "ab"]
    [⟨[ascii "Y"], [ascii "2"], by decide, by decide⟩,
      ⟨[ascii "x"], [ascii "1"], by decide, by decide⟩] rfl (by decide)).mpr (by decide)

/-- A trailer of one field, which the handler does not see. -/
theorem last_trailer_lost :
    ∃ request,
      requests (afterCallbacks ⟨[], none⟩ (opened ())
        [[.url ⟨ascii "/a", ascii " HTTP/1.1"⟩, .headerField (ascii "Host"),
          .headerValue (ascii "h"), .headersComplete, .body (ascii "ab"),
          .headerField (ascii "X"), .headerValue (ascii "1"), .messageComplete]]).trace =
        [request] ∧
      request.headers.find (ascii "X") = none ∧
      ¬ HandsAllFields ⟨[], none⟩ () []
        [.url ⟨ascii "/a", ascii " HTTP/1.1"⟩, .headerField (ascii "Host"),
          .headerValue (ascii "h"), .headersComplete, .body (ascii "ab"),
          .headerField (ascii "X"), .headerValue (ascii "1")]
        [⟨[ascii "Host"], [ascii "h"], by decide, by decide⟩,
          ⟨[ascii "X"], [ascii "1"], by decide, by decide⟩] := by
  refine ⟨_, rfl, by decide, ?_⟩
  rintro ⟨request, hrequest, hfields⟩
  obtain rfl := List.singleton_inj.mp hrequest
  have hfield := hfields (ascii "X")
  revert hfield
  decide

end ClientContext

end LibraCore.Http
