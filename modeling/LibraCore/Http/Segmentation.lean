import LibraCore.Http.ByteReader

/-!
# The buffers a stream comes in

`http_parser_execute` works on a buffer at a time: it marks text in it, it searches it for
the end of a line, it passes over a body in one go. The outcome does not depend on where
the stream was cut. Two errors are excepted, which do: `HPE_HEADER_OVERFLOW`, since a call
counts the bytes of its buffer again at some places, and `HPE_INVALID_HEADER_TOKEN`, since
of a value that nothing depends on only some characters are looked at.

## Main results

- `Exec.foreseen_rule` — what is left to read, from byte to byte
- `ParserObj.cuts_agree` — two ways to cut a stream
-/

namespace LibraCore.Http

open Incremental (Verdict read read_cons feed Agree StoppedIn)
open Incremental.Verdict (running stopped)

namespace Exec

variable {D : Type} {settings : ParserSettings D} {record : DataField → List UInt8 → D → D}
  {len m : ℕ} {x : Exec D} {o : Option DataField} {v : Reading D}

/-- What the reader makes of the bytes from `p` on. -/
def outlook (settings : ParserSettings D) (record : DataField → List UInt8 → D → D) (x : Exec D)
    (o : Option DataField) : Reading D :=
  (read (byteStep settings record) x.rest (x.parser, x.settled record o)).after x.position

/-- The reader makes `v` of all that there is to read. -/
def Foreseen (settings : ParserSettings D) (record : DataField → List UInt8 → D → D)
    (v : Reading D) (x : Exec D) : Prop :=
  ∃ o, x.Marks o ∧ v = x.outlook settings record o

theorem Foreseen.eq (h : x.Foreseen settings record v) (hmarks : x.Marks o) :
    v = x.outlook settings record o := by
  obtain ⟨o', hmarks', hv⟩ := h
  rwa [hmarks.unique hmarks']

theorem As_after {s : ParserStop D} {w : Reading D} {p i : ℕ}
    (h : ParserStop.As (w.after p) s) (f : Parser × D → Reading D) :
    ParserStop.As ((w.bind i f).after p) s := by
  cases w with
  | stopped n t => exact h
  | running r =>
    cases s with
    | fault f => exact h
    | returned n parser app =>
      obtain hsoft | ⟨t, ht, -⟩ := h
      · exact .inl hsoft
      · cases ht

/-- A script is run that the reader plays at the next byte. -/
theorem run_foreseen (hkeeps : settings.Keeps record) {k : Option ℕ} {ch : UInt8}
    {rest : List UInt8} {s : Script} (hs : s.Sound o k) (hmarks : x.Marks o)
    (hk : ∀ i, k = some i → x.nread = i) (hrest : x.rest = ch :: rest)
    (hv : v = ((s.play settings record ch o (x.settled record o)).bind 1
      (read (byteStep settings record) rest)).after x.position) :
    Ends (ParserStop.As v) (fun y => (y.advance 1).Foreseen settings record v)
      (x.run settings s) := by
  have hch : x.rest.take 1 = [ch] := by rw [hrest]; rfl
  subst hv
  refine (plays_run hkeeps hs hmarks hk hch).imp (fun _ hstop => As_after hstop _) ?_
  intro y hy
  obtain ⟨o', hmarks', hplay⟩ := hy.stands
  refine ⟨o', hmarks'.advance 1, ?_⟩
  rw [hplay, outlook, settled_advance hkeeps hmarks', hy.rest, hch, Incremental.Verdict.bind_running,
    Incremental.Verdict.after_after, ← hy.position]
  simp [advance, hy.rest, hrest]

/-- Every byte leaves the reader with what is left to read. -/
theorem foreseen_rule (hkeeps : settings.Keeps record) (v : Reading D) :
    ByteRule settings (ParserStop.As v) (Foreseen settings record v) where
  nread x n h := h
  refused x n parser _ hsoft := .inl hsoft
  byte := by
    intro x o ch rest hv hvalid hmarks hfits hn hrest
    have hsound : (x.parser.byteScript ch).Sound o
        (if x.parser.state = .chunkSizeStart then some 1 else none) :=
      Parser.byteScript_sound hvalid hfits (fun hs => if_pos hs) ch
    refine run_foreseen hkeeps hsound hmarks ?_ hrest ?_
    · intro i hi
      split at hi
      · rw [← Option.some.inj hi]
        exact hn ‹_›
      · cases hi
    · rw [hv.eq hmarks, outlook, hrest, read_cons, byteStep, Parser.play_byteScript hfits]

/-! ### The end of the buffer -/

theorem callbackData_flush (hkeeps : settings.Keeps record) (herrno : x.parser.httpErrno = .ok)
    (h : x.Marks o) (f : DataField) :
    ∃ y o', x.callbackData settings f false 0 = .ok y ∧ y.parser = x.parser ∧ y.nread = x.nread ∧
      y.Marks o' ∧ y.settled record o' = x.settled record o ∧ o' ≠ some f ∧ (o' = none ∨ o' = o) := by
  by_cases ho : o = none ∨ o = some f
  · exact ⟨_, none, callbackData_ok hkeeps herrno h ho false 0, rfl, rfl, h.update_none ho, rfl,
      by simp, .inl rfl⟩
  · rw [not_or] at ho
    have hnone : x.mark f = none := by simpa [ho.2] using h f
    refine ⟨x, o, ?_, rfl, rfl, h, rfl, ho.2, .inr rfl⟩
    rw [callbackData, if_neg (not_not_intro herrno), hnone]

theorem flush_foreseen (hkeeps : settings.Keeps record) (h : x.Good len 0)
    (hv : x.Foreseen settings record v) :
    ∃ y, x.flush settings = .ok y ∧ y.parser = x.parser ∧ y.nread = x.nread ∧
      v = running (y.parser, y.app) ∧
      ∀ f, y.parser.state.openMark = some f → record f [] y.app = y.app := by
  obtain ⟨o, hmarks, hfits⟩ := h.marks
  have hrest : x.rest = [] := List.length_eq_zero_iff.mp (Nat.le_zero.mp h.left)
  have herrno := h.valid.errno
  obtain ⟨a, oa, ha, hpa, hna, hma, hsa, hoa, hla⟩ := callbackData_flush hkeeps herrno hmarks .headerField
  obtain ⟨b, ob, hb, hpb, hnb, hmb, hsb, hob, hlb⟩ :=
    callbackData_flush hkeeps (by rwa [hpa]) hma .headerValue
  obtain ⟨c, oc, hc, hpc, hnc, hmc, hsc, hoc, hlc⟩ :=
    callbackData_flush hkeeps (by rwa [hpb, hpa]) hmb .url
  obtain ⟨d, od, hd, hpd, hnd, hmd, hsd, hod, hld⟩ :=
    callbackData_flush hkeeps (by rwa [hpc, hpb, hpa]) hmc .body
  obtain ⟨e, oe, he, hpe, hne, hme, hse, hoe, hle⟩ :=
    callbackData_flush hkeeps (by rwa [hpd, hpc, hpb, hpa]) hmd .status
  -- a mark that is open to the end is that of no field
  obtain rfl : oe = none := by
    cases oe with
    | none => rfl
    | some f =>
      obtain rfl := hle.resolve_left (by simp)
      obtain rfl := hld.resolve_left (by simp)
      obtain rfl := hlc.resolve_left (by simp)
      obtain rfl := hlb.resolve_left (by simp)
      cases f
      · exact absurd rfl hoc
      · exact absurd rfl hoe
      · exact absurd rfl hoa
      · exact absurd rfl hob
      · exact absurd rfl hod
  have hparser : e.parser = x.parser := by rw [hpe, hpd, hpc, hpb, hpa]
  have happ : e.app = x.settled record o := by
    rw [← hsa, ← hsb, ← hsc, ← hsd, ← hse]
    rfl
  refine ⟨e, ?_, hparser, by rw [hne, hnd, hnc, hnb, hna], ?_, ?_⟩
  · unfold flush
    dsimp only
    rw [if_neg (by have := hmarks.countP_le; omega), ha]
    simp only [bind, Except.bind, hb, hc, hd, he]
  · rw [hv.eq hmarks, outlook, hrest, Incremental.read_nil, happ, hparser]
    rfl
  · intro f hf
    rw [hparser] at hf
    obtain rfl | ⟨hbody, -⟩ := hfits
    · rw [happ, hf, settled_opened hkeeps]
    · revert hbody hf
      cases x.parser.state <;> simp [ParserState.inBody, ParserState.openMark]

end Exec

/-! ### Streams -/

namespace ParserObj

variable {D : Type} {settings : ParserSettings D} {record : DataField → List UInt8 → D → D}

/-- A call with the next buffer. The caller stops at an error, a pause or an upgrade. -/
def call (settings : ParserSettings D) (k : ParserObj × D) (data : List UInt8) :
    Verdict (ParserObj × D) (Except ParserFault (ParserObj × D)) :=
  match k.1.execute settings k.2 data with
  | .error f => stopped 0 (.error f)
  | .ok r =>
    if r.parser.httpErrno = .ok ∧ r.parser.exited = false then running (r.parser, r.app)
    else stopped r.nparsed (.ok (r.parser, r.app))

/-- Between two buffers, a parser is where the reader is. -/
structure Stands (record : DataField → List UInt8 → D → D) (k : ParserObj × D) (s : Parser × D) : Prop where
  same : (k.1.toParser, k.2) = s
  valid : k.1.toParser.Valid
  fresh : k.1.state = .chunkSizeStart → k.1.nread = 0
  exited : k.1.exited = false
  /-- the text that a mark is open for was the last to be recorded -/
  opened : ∀ f, k.1.state.openMark = some f → record f [] k.2 = k.2

/-- The stream was refused with an error that depends on the buffers. -/
def RefusedForBuffers (r : Except ParserFault (ParserObj × D)) : Prop :=
  ∃ k, r = .ok k ∧ k.1.httpErrno.ofBuffers

/-- A call that has not gone on did not consume its buffer for a reason. -/
theorem call_stopped {k : ParserObj × D} {data : List UInt8} {r : Executed D}
    (hr : k.1.execute settings k.2 data = .ok r)
    (hstop : r.parser.httpErrno = .ok → r.parser.exited = true) :
    call settings k data = stopped r.nparsed (.ok (r.parser, r.app)) := by
  rw [call, hr]
  dsimp only
  rw [if_neg]
  rintro ⟨herrno, hexited⟩
  rw [hstop herrno] at hexited
  cases hexited

theorem start_foreseen {parser : ParserObj} {app : D}
    (hopened : ∀ f, parser.state.openMark = some f → record f [] app = app) (data : List UInt8) :
    (parser.start app data).Foreseen settings record
      (read (byteStep settings record) data (parser.toParser, app)) := by
  refine ⟨parser.state.openMark, start_marks app data, ?_⟩
  · have hsettled : (parser.start app data).settled record parser.state.openMark = app := by
      cases hs : parser.state.openMark with
      | none => rfl
      | some f => simp [start, Exec.settled, hs, hopened f hs]
    rw [Exec.outlook, hsettled]
    exact (Incremental.Verdict.after_zero _).symm

/-- A call reads its buffer as the reader does. -/
theorem call_agree (hkeeps : settings.Keeps record) {k : ParserObj × D} {s : Parser × D}
    (h : Stands record k s) {data : List UInt8} (hdata : data ≠ [])
    (hsize : data.length + httpMaxHeaderSize < 2 ^ 32) :
    StoppedIn RefusedForBuffers (call settings k data) ∨
      Agree (Stands record) (fun r t => ∃ k', r = .ok k' ∧ t.Leaves k'.1 k'.2) (call settings k data)
        (read (byteStep settings record) data s) := by
  obtain ⟨parser, app⟩ := k
  obtain ⟨rfl, hvalid, hfresh, hexited, hopened⟩ := h
  have hgood : (parser.start app data).Good data.length data.length :=
    start_good app hvalid hfresh
  have hupgrades := read_upgrades settings record hexited data app
  have hloop := (Exec.foreseen_rule hkeeps _).loop hsize hgood (start_foreseen hopened data)
  have hexecute : parser.execute settings app data =
      finish data.length ((parser.start app data).loop settings data.length >>= fun x =>
        x.flush settings) := by
    rw [execute, if_neg (not_not_intro hvalid.errno), if_neg hdata]
  cases hrun : (parser.start app data).loop settings data.length with
  | error stop =>
    rw [hrun] at hloop hexecute
    cases stop with
    | fault f => exact hloop.elim
    | returned n parser' app' =>
      obtain hsoft | ⟨t, ht, hleaves⟩ := hloop
      · refine .inl ?_
        rw [call_stopped hexecute fun hok => ?_]
        · exact ⟨_, rfl, hsoft⟩
        · obtain he | he := hsoft <;> simp [he] at hok
      · refine .inr ?_
        rw [ht] at hupgrades ⊢
        rw [call_stopped hexecute fun hok => ?_]
        · exact ⟨rfl, _, rfl, hleaves⟩
        · cases t with
          | returned c d =>
            obtain ⟨rfl, rfl⟩ := hleaves
            exact hupgrades hok
          | refused e =>
            obtain ⟨rfl, hrefusal⟩ := hleaves
            rw [show parser'.httpErrno = .ok from hok] at hrefusal
            cases hrefusal
          | fault f => exact hleaves.elim
  | ok x =>
    rw [hrun] at hloop hexecute
    obtain ⟨y, hflush, hparser, hread, hv, hopened'⟩ := Exec.flush_foreseen hkeeps hloop.1 hloop.2
    rw [hv] at hupgrades ⊢
    have hcall : call settings (parser, app) data = running ({ y.parser with nread := y.nread }, y.app) := by
      rw [call, hexecute]
      simp only [bind, Except.bind, hflush, finish]
      rw [if_pos ⟨by rw [hparser]; exact hloop.1.valid.errno, hupgrades⟩]
    rw [hcall]
    refine .inr ⟨rfl, ?_, ?_, hupgrades, hopened'⟩
    · show y.parser.Valid
      rw [hparser]
      exact hloop.1.valid
    · show y.parser.state = .chunkSizeStart → y.nread = 0
      rw [hparser, hread]
      exact hloop.1.nread

/-- The same outcome, up to `nread`; of a stream that is refused, the error and its place. -/
def SameOutcome : Verdict (ParserObj × D) (Except ParserFault (ParserObj × D)) →
    Verdict (ParserObj × D) (Except ParserFault (ParserObj × D)) → Prop :=
  Agree (fun k k' => k.1.toParser = k'.1.toParser ∧ k.2 = k'.2) fun r r' =>
    ∃ k k', r = .ok k ∧ r' = .ok k' ∧ k.1.httpErrno = k'.1.httpErrno ∧
      (k.1.httpErrno.refusal = false → k.1.toParser = k'.1.toParser ∧ k.2 = k'.2)

/-- A buffer whose bytes `nread` can count. -/
def Buffer (data : List UInt8) : Prop :=
  data ≠ [] ∧ data.length + httpMaxHeaderSize < 2 ^ 32

theorem stands_init (t : ParserType) (app : D) :
    Stands record (httpParserInit t, app) ((httpParserInit t).toParser, app) := by
  refine ⟨rfl, ?_, ?_, rfl, ?_⟩
  · exact .of_free rfl (Nat.zero_le _) (by cases t <;> rfl)
  · cases t <;> nofun
  · cases t <;> nofun

/-- Two ways to cut a stream into buffers have the same outcome, unless one of them ends in
an error that depends on the buffers. -/
theorem cuts_agree (hkeeps : settings.Keeps record) (t : ParserType) (app : D)
    {buffers buffers' : List (List UInt8)} (hall : ∀ b ∈ buffers, Buffer b)
    (hall' : ∀ b ∈ buffers', Buffer b) (hsame : buffers.flatten = buffers'.flatten) :
    StoppedIn RefusedForBuffers (feed (call settings) buffers (httpParserInit t, app)) ∨
      StoppedIn RefusedForBuffers (feed (call settings) buffers' (httpParserInit t, app)) ∨
      SameOutcome (feed (call settings) buffers (httpParserInit t, app))
        (feed (call settings) buffers' (httpParserInit t, app)) := by
  have hcall : ∀ (k : ParserObj × D) (s : Parser × D) b, Stands record k s → Buffer b →
      StoppedIn RefusedForBuffers (call settings k b) ∨
        Agree (Stands record) (fun r t => ∃ k', r = .ok k' ∧ t.Leaves k'.1 k'.2) (call settings k b)
          (read (byteStep settings record) b s) :=
    fun k s b hstands hb => call_agree hkeeps hstands hb.1 hb.2
  obtain hsoft | hagree := Incremental.agree_feed hcall hall (stands_init t app)
  · exact .inl hsoft
  obtain hsoft | hagree' := Incremental.agree_feed hcall hall' (stands_init t app)
  · exact .inr (.inl hsoft)
  refine .inr (.inr ?_)
  rw [hsame] at hagree
  refine hagree.join ?_ ?_ hagree'
  · intro k k' s h h'
    obtain ⟨hsame, happ⟩ := Prod.mk.inj (h.same.trans h'.same.symm)
    exact ⟨hsame, happ⟩
  · rintro r r' t ⟨k, rfl, hk⟩ ⟨k', rfl, hk'⟩
    refine ⟨k, k', rfl, rfl, ?_⟩
    cases t with
    | returned c d =>
      obtain ⟨rfl, rfl⟩ := hk
      obtain ⟨hsame, happ⟩ := hk'
      exact ⟨by rw [hsame], fun _ => ⟨hsame.symm, happ.symm⟩⟩
    | refused e =>
      obtain ⟨rfl, hrefusal⟩ := hk
      refine ⟨hk'.1.symm, fun hnot => ?_⟩
      rw [hnot] at hrefusal
      cases hrefusal
    | fault f => exact hk.elim

/-! ### The callbacks of a stream -/

/-- A callback, or some that come one after the other for the text of one field. -/
inductive Segment
  | text (f : DataField) (text : List UInt8)
  | notice (n : Notice)
  | headersComplete
  deriving DecidableEq, Repr

/-- Text that is joined to that before it, which is the head of the list. -/
def joinText (f : DataField) (text : List UInt8) : List Segment → List Segment
  | .text g s :: log => if f = g then .text f (s ++ text) :: log else .text f text :: .text g s :: log
  | log => .text f text :: log

/-- All the callbacks, which keep what was reported in the order opposite to that it came in. -/
def joining : ParserSettings (List Segment) where
  onNotice n := some fun _ log => (⟨0, false⟩, .notice n :: log)
  onHeadersComplete := some fun _ log => (⟨0, false⟩, .headersComplete :: log)
  onData f := some fun _ text log => (⟨0, false⟩, joinText f text.text log)

theorem joining_keeps : joining.Keeps joinText where
  kept := by
    rintro f callback ⟨⟩ c text app
    rfl
  absent := by
    rintro f ⟨⟩
  append := by
    intro f s t log
    cases log with
    | nil => simp [joinText]
    | cons segment log =>
      cases segment with
      | text g u => by_cases hg : f = g <;> simp [joinText, hg]
      | notice n => simp [joinText]
      | headersComplete => simp [joinText]

/-- A request at once, and in two buffers that cut its target: both are read to the end. -/
theorem cuts_agree_target :
    SameOutcome
      (feed (call joining) [ascii "GET /ab HTTP/1.1\r\n"] (httpParserInit .request, []))
      (feed (call joining) [ascii "GET /a", ascii "b HTTP/1.1\r\n"]
        (httpParserInit .request, [])) := by
  have hone : ∀ b ∈ [ascii "GET /ab HTTP/1.1\r\n"], Buffer b := by
    simp [Buffer, ascii, httpMaxHeaderSize]
  have htwo : ∀ b ∈ [ascii "GET /a", ascii "b HTTP/1.1\r\n"], Buffer b := by
    simp [Buffer, ascii, httpMaxHeaderSize]
  have hagree := cuts_agree joining_keeps .request [] hone htwo (by decide)
  have hwhole := hagree.resolve_left (Incremental.not_stoppedIn (by decide +kernel))
  exact hwhole.resolve_left (Incremental.not_stoppedIn (by decide +kernel))

end ParserObj

end LibraCore.Http
