import LibraCore.Foundations.Incremental
import LibraCore.Http.ByteScript

/-!
# A reader of bytes

What `http_parser_execute` does to a parser and an application, as a reader of bytes that
knows nothing of buffers: it has no marks into them and no counter of header bytes. The
text that would be marked goes to the application byte by byte.

## Main results

- `Exec.plays_run` — a script that is run does what it does to the reader
- `read_upgrades` — the reader stops for an upgrade, and only then
-/

namespace LibraCore.Http

open Incremental (Verdict read read_append read_cons)
open Incremental.Verdict (running stopped)

/-- Data callbacks that keep the text they are given, and not the pieces it comes in:
`record f text` goes on with the text of `f` if that was the last to be recorded. -/
structure ParserSettings.Keeps {D : Type} (settings : ParserSettings D)
    (record : DataField → List UInt8 → D → D) : Prop where
  kept : ∀ f callback, settings.onData f = some callback →
    ∀ c text app, callback c text app = (⟨0, false⟩, record f text.text app)
  absent : ∀ f, settings.onData f = none → ∀ text app, record f text app = app
  append : ∀ f s t app, record f t (record f s app) = record f (s ++ t) app

/-- The parser once `on_headers_complete` has returned, and `http_errno`. -/
def Answer.completed (a : Answer) (c : Parser) : Parser × HttpErrno :=
  let skip := { c with flags := { c.flags with skipbody := true } }
  let errno := if a.paused then .paused else .ok
  if a.value = 0 then (c, errno)
  else if a.value = 1 then (skip, errno)
  else if a.value = 2 then ({ skip with upgrade := true }, errno)
  else (c, .cbHeadersComplete)

theorem Parser.Valid.completed {c : Parser} (h : c.Valid) (hs : c.state = .headersDone)
    (a : Answer) : (a.completed c).1.Valid ∧ (a.completed c).1.state = .headersDone := by
  have hfree : c.state.free = true := by rw [hs]; rfl
  unfold Answer.completed
  dsimp only
  split_ifs
  all_goals first | exact ⟨h, hs⟩ | exact ⟨.of_free h.errno h.length hfree, hs⟩

/-! ### Scripts -/

/-- How reading stops: a callback has failed or paused the parser, or what follows is in a
different protocol; or the stream is refused. -/
inductive Halt (D : Type)
  | returned (c : Parser) (app : D)
  | refused (e : HttpErrno)
  | fault (f : ParserFault)

abbrev Reading (D : Type) := Verdict (Parser × D) (Halt D)

section Play

variable {D : Type} (settings : ParserSettings D) (record : DataField → List UInt8 → D → D)

/-- Text of the open mark. -/
def keep (o : Option DataField) (text : List UInt8) (app : D) : D :=
  match o with
  | some f => record f text app
  | none => app

/-- What follows a callback. -/
def replied (c : Parser) (e : HttpErrno) (er : ℕ) (app : D) (rest : Reading D) : Reading D :=
  if e ≠ .ok then stopped er (.returned { c with httpErrno := e } app) else rest

/-- What a script does to the reader, where `o` is the open mark. -/
def Script.play (ch : UInt8) : Script → Option DataField → D → Reading D
  | .next c, o, app => running (c, keep record o [ch] app)
  | .error _ e, _, _ => stopped 0 (.refused e)
  | .exit c, _, app => stopped 1 (.returned c app)
  | .fault f, _, _ => stopped 0 (.fault f)
  | .mark f rest, _, app => rest.play ch (some f) (record f [] app)
  | .data _ _ last _ rest, o, app =>
    rest.play ch none (if last then keep record o [ch] app else app)
  | .notify n c er rest, o, app =>
    match settings.onNotice n with
    | none => rest.play ch o app
    | some callback =>
      let (answer, app) := callback c app
      replied c (answer.errno (.cbNotice n)) er app (rest.play ch o app)
  | .headersComplete c rest, o, app =>
    match settings.onHeadersComplete with
    | none => (rest c).play ch o app
    | some callback =>
      let (answer, app) := callback c app
      let (c, errno) := answer.completed c
      replied c errno 0 app ((rest c).play ch o app)
  | .resetRead rest, o, app => rest.play ch o app
  | .assertRead _ rest, o, app => rest.play ch o app

end Play

/-- One byte is read. -/
def byteStep {D : Type} (settings : ParserSettings D) (record : DataField → List UInt8 → D → D)
    (s : Parser × D) (ch : UInt8) : Reading D :=
  (s.1.byteScript ch).play settings record ch s.1.state.openMark s.2

/-! ### Upgrades -/

/-- Before a message, or after the last one. -/
def ParserState.between : ParserState → Bool
  | dead | startReq | startRes => true
  | _ => false

/-- A message has ended, and what follows it is in a different protocol. -/
def Parser.exited (c : Parser) : Bool := c.upgrade && c.state.between

/-- The parser returns early for an upgrade, and only then. -/
def Script.Upgrades : Script → Prop
  | .next c => c.exited = false
  | .exit c => c.exited = true
  | .error _ _ | .fault _ => True
  | .mark _ rest | .data _ _ _ _ rest | .notify _ _ _ rest | .resetRead rest
  | .assertRead _ rest => rest.Upgrades
  | .headersComplete c rest =>
    c.state = .headersDone ∧ ∀ d : Parser, d.state = .headersDone → (rest d).Upgrades

namespace Script

@[simp] theorem upgrades_next (c : Parser) : (Script.next c).Upgrades ↔ c.exited = false := .rfl

@[simp] theorem upgrades_exit (c : Parser) : (Script.exit c).Upgrades ↔ c.exited = true := .rfl

@[simp] theorem upgrades_error (c : Parser) (e : HttpErrno) : (Script.error c e).Upgrades := trivial

@[simp] theorem upgrades_fault (f : ParserFault) : (Script.fault f).Upgrades := trivial

@[simp] theorem upgrades_mark (f : DataField) (rest : Script) :
    (Script.mark f rest).Upgrades ↔ rest.Upgrades := .rfl

@[simp] theorem upgrades_data (f : DataField) (c : Parser) (last : Bool) (er : ℕ) (rest : Script) :
    (Script.data f c last er rest).Upgrades ↔ rest.Upgrades := .rfl

@[simp] theorem upgrades_notify (n : Notice) (c : Parser) (er : ℕ) (rest : Script) :
    (Script.notify n c er rest).Upgrades ↔ rest.Upgrades := .rfl

@[simp] theorem upgrades_resetRead (rest : Script) :
    (Script.resetRead rest).Upgrades ↔ rest.Upgrades := .rfl

@[simp] theorem upgrades_assertRead (n : ℕ) (rest : Script) :
    (Script.assertRead n rest).Upgrades ↔ rest.Upgrades := .rfl

@[simp] theorem upgrades_require (b : Bool) (c : Parser) (e : HttpErrno) (rest : Script) :
    (Script.require b c e rest).Upgrades ↔ (b = true → rest.Upgrades) := by
  cases b <;> simp [require]

@[simp] theorem upgrades_assert (b : Bool) (rest : Script) :
    (Script.assert b rest).Upgrades ↔ (b = true → rest.Upgrades) := by
  cases b <;> simp [assert]

@[simp] theorem upgrades_announce (n : Notice) (c : Parser) :
    (Script.announce n c).Upgrades ↔ c.exited = false := .rfl

@[simp] theorem upgrades_report (f : DataField) (c : Parser) :
    (Script.report f c).Upgrades ↔ c.exited = false := .rfl

end Script

namespace Parser

variable {c : Parser}

theorem exited_of_between (h : c.state.between = false) : c.exited = false := by
  rw [exited, h, Bool.and_false]

theorem between_newMessage (c : Parser) : c.newMessage.between = true := by
  unfold newMessage startState
  split_ifs <;> rfl

theorem messageDone_upgrades (c : Parser) : c.messageDone.Upgrades := by
  have hnew := c.between_newMessage
  unfold messageDone
  simp only [Script.upgrades_notify]
  split_ifs <;> simp_all [exited, updateState]

theorem headersDone_upgrades (c : Parser) (ch : UInt8) : (c.headersDone ch).Upgrades := by
  have hnew := c.between_newMessage
  unfold headersDone
  simp only [Script.upgrades_require, Script.upgrades_resetRead]
  intro _
  split_ifs <;> simp_all [exited, updateState, hasBody, ParserState.between]

theorem headersAlmostDone_upgrades (c : Parser) (ch : UInt8) :
    (c.headersAlmostDone ch).Upgrades := by
  unfold headersAlmostDone
  simp only [Script.upgrades_require]
  intro _
  split_ifs
  · exact messageDone_upgrades _
  · trivial
  · exact ⟨rfl, fun d _ => headersDone_upgrades d ch⟩

theorem headerFieldStart_upgrades (c : Parser) (ch : UInt8) : (c.headerFieldStart ch).Upgrades := by
  unfold headerFieldStart
  split_ifs
  · exact exited_of_between rfl
  · exact headersAlmostDone_upgrades _ ch
  · simp [exited, ParserState.between]

theorem headerValueStart_upgrades (c : Parser) (ch : UInt8) : (c.headerValueStart ch).Upgrades := by
  unfold headerValueStart
  simp only [Script.upgrades_mark]
  split <;> simp [exited, ParserState.between]

theorem urlChar_upgrades (c : Parser) (ch : UInt8) : (c.urlChar ch).Upgrades := by
  simp only [urlChar, Script.upgrades_require, Script.upgrades_next]
  intro hne
  apply exited_of_between
  revert hne
  simp only [updateState]
  cases parseUrlChar c.state.url ch <;> simp [ParserState.ofUrl, ParserState.between]

theorem switch_upgrades (h : c.exited = false) (ch : UInt8) : (c.switch ch).Upgrades := by
  have hup (hs : c.state.between = true) : c.upgrade = false := by simpa [exited, hs] using h
  unfold switch
  cases hs : c.state with
  | headersAlmostDone => exact headersAlmostDone_upgrades c ch
  | headersDone => exact headersDone_upgrades c ch
  | messageDone => exact messageDone_upgrades c
  | headerFieldStart => exact headerFieldStart_upgrades c ch
  | headerValueStart => exact headerValueStart_upgrades c ch
  | headerValueDiscardWs =>
    simp only [headerValueDiscardWs]
    split_ifs
    all_goals first
      | exact headerValueStart_upgrades c ch
      | simp [exited, updateState, ParserState.between, hs]
  | headerValueDiscardLws =>
    simp only [headerValueDiscardLws]
    split_ifs
    · simp [exited, updateState, ParserState.between]
    · exact headerFieldStart_upgrades _ ch
  | headerValueLws =>
    simp only [headerValueLws]
    split_ifs
    · exact headerValueStart_upgrades _ ch
    · exact headerFieldStart_upgrades _ ch
  | startReq =>
    simp only [startReq]
    split_ifs
    · exact h
    · trivial
    · split <;> simp [exited, clearMessage, hup (by rw [hs]; rfl)]
  | startRes =>
    simp only [startRes]
    split_ifs <;> simp [exited, clearMessage, updateState, hup (by rw [hs]; rfl)]
  | dead => simp [h]
  | _ =>
    simp only [startReqOrRes, startReq, resOrRespH, expect, resStatusStart, resStatus,
      resFirstStatusCode, resStatusCode, reqMethod, reqSpacesBeforeUrl, reqSchema, reqTarget,
      reqHttpStart, versionDigit, versionChar, reqHttpEnd, headerAlmostDone, chunkSizeStart,
      chunkSize, chunkParameters, chunkSizeAlmostDone, chunkDataAlmostDone, chunkDataDone]
    repeat' split
    all_goals simp [exited, updateState, ParserState.between, hs, urlChar_upgrades]

theorem valueChar_error {s : Script} {ch : UInt8} (h : c.valueChar ch = .error s) :
    s.Upgrades := by
  unfold valueChar at h
  dsimp only at h
  split at h
  all_goals try split_ifs at h
  all_goals
    cases h
    try trivial

theorem byteScript_upgrades (h : c.exited = false) (ch : UInt8) : (c.byteScript ch).Upgrades := by
  unfold byteScript
  cases hs : c.state with
  | headerField =>
    dsimp only
    split
    · simp [exited, updateState, ParserState.between]
    · split
      · trivial
      · rename_i d hd
        exact exited_of_between (by rw [(fieldChar_same hd).1, hs]; rfl)
  | headerValue =>
    dsimp only
    split_ifs
    · exact exited_of_between rfl
    · simp [headerAlmostDone, exited, updateState, ParserState.between]
    · exact h
    · rw [Script.upgrades_require]
      intro _
      split
      · rename_i d hd
        exact exited_of_between (by rw [(valueChar_same hs hd).1]; rfl)
      · exact valueChar_error ‹_›
  | bodyIdentity =>
    simp only [bodyByte, Script.upgrades_assert, Script.upgrades_mark, identityNext, bodyNext]
    intro _
    split
    · exact messageDone_upgrades _
    · simp [exited, hs, ParserState.between]
  | chunkData =>
    simp only [bodyByte, Script.upgrades_assert, Script.upgrades_mark, chunkNext, bodyNext]
    intro _
    split <;> simp [exited, updateState, hs, ParserState.between]
  | bodyIdentityEof => exact h
  | _ => exact switch_upgrades h ch

end Parser

/-- The reader stops for an upgrade, and only then. -/
def Reading.Upgrades {D : Type} : Reading D → Prop
  | .running s => s.1.exited = false
  | .stopped _ (.returned c _) => c.httpErrno = .ok → c.exited = true
  | .stopped _ _ => True

section Upgrades

variable {D : Type} (settings : ParserSettings D) (record : DataField → List UInt8 → D → D)

theorem Script.Upgrades.play {s : Script} (h : s.Upgrades) (ch : UInt8) (o : Option DataField)
    (app : D) : Reading.Upgrades (s.play settings record ch o app) := by
  have hreplied {c : Parser} {e : HttpErrno} {er : ℕ} {app : D} {v : Reading D}
      (hv : Reading.Upgrades v) : Reading.Upgrades (replied c e er app v) := by
    unfold replied
    split
    · exact fun hok => absurd hok ‹_›
    · exact hv
  induction s generalizing o app with
  | next c => exact h
  | exit c => exact fun _ => h
  | error c e => trivial
  | fault f => trivial
  | mark f rest ih => exact ih h _ _
  | data f c last er rest ih => exact ih h _ _
  | notify n c er rest ih =>
    rw [Script.play]
    cases settings.onNotice n with
    | none => exact ih h _ _
    | some callback => exact hreplied (ih h _ _)
  | headersComplete c rest ih =>
    rw [Script.play]
    cases settings.onHeadersComplete with
    | none => exact ih c (h.2 c h.1) _ _
    | some callback =>
      have hstate : ((callback c app).1.completed c).1.state = .headersDone := by
        unfold Answer.completed
        dsimp only
        split_ifs <;> exact h.1
      exact hreplied (ih _ (h.2 _ hstate) _ _)
  | resetRead rest ih => exact ih h _ _
  | assertRead n rest ih => exact ih h _ _

theorem read_upgrades {c : Parser} (h : c.exited = false) (text : List UInt8) (app : D) :
    Reading.Upgrades (read (byteStep settings record) text (c, app)) := by
  induction text generalizing c app with
  | nil => exact h
  | cons ch text ih =>
    rw [read_cons]
    have hstep : Reading.Upgrades (byteStep settings record (c, app) ch) :=
      (Parser.byteScript_upgrades h ch).play settings record ch _ app
    cases hv : byteStep settings record (c, app) ch with
    | running s =>
      rw [hv] at hstep
      have hrest := ih hstep s.2
      rw [Incremental.Verdict.bind_running]
      cases hw : read (byteStep settings record) text s with
      | running s' =>
        rw [hw] at hrest
        exact hrest
      | stopped n t =>
        rw [hw] at hrest
        cases t <;> exact hrest
    | stopped n t =>
      rw [hv] at hstep
      exact hstep

end Upgrades

/-! ### A script that is run -/

/-- A mark of the body that is open or not makes no difference. -/
theorem Parser.play_byteScript {D : Type} {settings : ParserSettings D}
    {record : DataField → List UInt8 → D → D} {c : Parser} {o : Option DataField}
    (hfits : c.state.Fits o) (ch : UInt8) (app : D) :
    (c.byteScript ch).play settings record ch o app =
      (c.byteScript ch).play settings record ch c.state.openMark app := by
  obtain rfl | ⟨hbody, -⟩ := hfits
  · rfl
  have hbyte (next : Parser → Script) (o : Option DataField) :
      (c.bodyByte next).play settings record ch o app =
        (c.bodyByte next).play settings record ch none app := by
    rw [bodyByte, Script.assert]
    split <;> rfl
  have hdone (o : Option DataField) : (c.chunkDataAlmostDone ch).play settings record ch o app =
      (c.chunkDataAlmostDone ch).play settings record ch none app := by
    simp only [chunkDataAlmostDone, Script.assert, Script.require, Script.report]
    split_ifs <;> rfl
  unfold byteScript
  cases hs : c.state with
  | bodyIdentity | chunkData => exact hbyte _ o
  | bodyIdentityEof => rfl
  | chunkDataAlmostDone =>
    simp only [switch, hs]
    exact hdone o
  | _ =>
    rw [hs] at hbody
    cases hbody

/-- What a call leaves where reading stops. -/
def Halt.Leaves {D : Type} (parser : ParserObj) (app : D) : Halt D → Prop
  | .returned c d => parser.toParser = c ∧ app = d
  | .refused e => parser.httpErrno = e ∧ e.refusal = true
  | .fault _ => False

/-- A call ends as `v` has it, unless it ends in an error that depends on the buffers. -/
def ParserStop.As {D : Type} (v : Reading D) : ParserStop D → Prop
  | .returned n parser app =>
    parser.httpErrno.ofBuffers ∨ ∃ t, v = stopped n t ∧ t.Leaves parser app
  | .fault _ => False

namespace Exec

variable {D : Type} {settings : ParserSettings D} {record : DataField → List UInt8 → D → D}
  {x : Exec D} {o : Option DataField}

/-- What the application will have of the bytes before `p`. -/
def settled (record : DataField → List UInt8 → D → D) (x : Exec D) : Option DataField → D
  | some f => record f ((x.mark f).getD []) x.app
  | none => x.app

theorem Marks.unique {o' : Option DataField} (h : x.Marks o) (h' : x.Marks o') : o = o' := by
  cases o with
  | some f => exact ((h' f).mp ((h f).mpr rfl)).symm
  | none =>
    cases o' with
    | some f => exact (h f).mp ((h' f).mpr rfl)
    | none => rfl

theorem Marks.mark_none (h : x.Marks none) (f : DataField) : x.mark f = none := by
  simpa using h f

theorem settled_setMark (hkeeps : settings.Keeps record) (h : x.Marks o) {f : DataField}
    (ho : o = none ∨ o = some f) :
    (x.setMark f).settled record (some f) = record f [] (x.settled record o) := by
  obtain rfl | rfl := ho
  · simp [settled, setMark, h.mark_none f]
  · simp [settled, setMark, hkeeps.append]

theorem settled_advance (hkeeps : settings.Keeps record) (h : x.Marks o) (n : ℕ) :
    (x.advance n).settled record o = keep record o (x.rest.take n) (x.settled record o) := by
  cases o with
  | none => rfl
  | some f =>
    obtain ⟨text, htext⟩ := h.mark_some
    simp [settled, keep, advance, htext, hkeeps.append]

theorem settled_opened (hkeeps : settings.Keeps record) (f : DataField) :
    record f [] (x.settled record (some f)) = x.settled record (some f) := by
  rw [settled, hkeeps.append, List.append_nil]

theorem callbackData_ok (hkeeps : settings.Keeps record) (herrno : x.parser.httpErrno = .ok)
    (h : x.Marks o) {f : DataField} (ho : o = none ∨ o = some f) (last : Bool) (er : ℕ) :
    x.callbackData settings f last er = .ok { x with
      app := if last then keep record o (x.rest.take 1) (x.settled record o)
        else x.settled record o
      mark := Function.update x.mark f none } := by
  unfold callbackData
  rw [if_neg (not_not_intro herrno)]
  obtain rfl | rfl := ho
  · have hupdate : Function.update x.mark f none = x.mark := by
      rw [← h.mark_none f, Function.update_eq_self]
    simp [h.mark_none f, keep, settled, hupdate]
  · obtain ⟨text, htext⟩ := h.mark_some
    cases hdata : settings.onData f with
    | none => simp [htext, keep, settled, hkeeps.absent f hdata]
    | some callback =>
      have hcall := hkeeps.kept f callback hdata
      cases last <;> simp [htext, hcall, keep, settled, hkeeps.append, afterCallback,
        Answer.errno]

theorem callbackHeadersComplete_eq {callback : Parser → D → Answer × D}
    (h : settings.onHeadersComplete = some callback) :
    x.callbackHeadersComplete settings =
      let (answer, app) := callback x.parser x.app
      let (c, errno) := answer.completed x.parser
      { x with app := app, parser := c }.afterCallback errno 0 := by
  unfold callbackHeadersComplete Answer.completed
  rw [h]
  dsimp only
  split_ifs <;> rfl

/-- Where a script has left the call, the reader stands too. -/
structure Left (record : DataField → List UInt8 → D → D) (position : ℕ) (rest : List UInt8)
    (ch : UInt8) (v : Reading D) (y : Exec D) : Prop where
  position : y.position = position
  rest : y.rest = rest
  stands : ∃ o, y.Marks o ∧ v = running (y.parser, keep record o [ch] (y.settled record o))

/-- A part of a call does what it does to the reader. -/
def Plays (record : DataField → List UInt8 → D → D) (ch : UInt8) (x : Exec D) (v : Reading D)
    (m : Except (ParserStop D) (Exec D)) : Prop :=
  Ends (ParserStop.As (v.after x.position)) (Left record x.position x.rest ch v) m

theorem Plays.afterCallback {ch : UInt8} {v : Reading D}
    {f : Exec D → Except (ParserStop D) (Exec D)} (hf : x.Plays record ch v (f x))
    (e : HttpErrno) (er : ℕ) :
    x.Plays record ch (replied x.parser e er x.app v) (x.afterCallback e er >>= f) := by
  unfold Exec.afterCallback replied
  by_cases he : e ≠ .ok
  · rw [if_pos he, if_pos he]
    exact .inr ⟨_, rfl, rfl, rfl⟩
  · rw [if_neg he, if_neg he]
    exact hf

theorem plays_run (hkeeps : settings.Keeps record) {k : Option ℕ} {ch : UInt8} {s : Script}
    (hs : s.Sound o k) (h : x.Marks o) (hk : ∀ i, k = some i → x.nread = i)
    (hch : x.rest.take 1 = [ch]) :
    x.Plays record ch (s.play settings record ch o (x.settled record o)) (x.run settings s) := by
  induction s generalizing x o k with
  | next c => exact ⟨rfl, rfl, o, h, rfl⟩
  | error c e => exact .inr ⟨_, rfl, rfl, hs⟩
  | exit c =>
    obtain ⟨-, -, -, rfl⟩ := hs
    exact .inr ⟨_, rfl, rfl, rfl⟩
  | fault f => exact hs.elim
  | mark f rest ih =>
    have hrest := ih hs.2 (h.setMark hs.1) hk hch
    rw [settled_setMark hkeeps h hs.1] at hrest
    exact hrest
  | data f c last er rest ih =>
    obtain ⟨⟨hvalid, -⟩, -, ho, hrest⟩ := hs
    have hcall := callbackData_ok (x := { x with parser := c }) hkeeps hvalid.errno h ho last er
    rw [hch] at hcall
    rw [Exec.run, hcall]
    exact ih (x := { x with
      parser := c
      app := if last then keep record o [ch] (x.settled record o) else x.settled record o
      mark := Function.update x.mark f none }) hrest (h.update_none ho) hk hch
  | notify n c er rest ih =>
    obtain ⟨⟨hvalid, -⟩, -, rfl, hrest⟩ := hs
    rw [Exec.run, callbackNotify, if_neg (not_not_intro hvalid.errno), Script.play]
    cases settings.onNotice n with
    | none => exact ih (x := { x with parser := c }) hrest h hk hch
    | some callback =>
      have hnext := ih (x := { x with parser := c, app := (callback c x.app).2 }) hrest h hk hch
      exact hnext.afterCallback _ er
  | headersComplete c rest ih =>
    obtain ⟨hvalid, hstate, rfl, hrest⟩ := hs
    rw [Exec.run, Script.play]
    cases hcallback : settings.onHeadersComplete with
    | none =>
      rw [callbackHeadersComplete, hcallback]
      exact ih c (x := { x with parser := c }) (hrest c hvalid hstate) h hk hch
    | some callback =>
      obtain ⟨hvalid', hstate'⟩ := hvalid.completed hstate (callback c x.app).1
      rw [callbackHeadersComplete_eq hcallback]
      have hnext := ih _ (x := { x with
        parser := ((callback c x.app).1.completed c).1
        app := (callback c x.app).2 }) (hrest _ hvalid' hstate') h hk hch
      exact hnext.afterCallback _ 0
  | resetRead rest ih =>
    exact ih (x := { x with nread := 0 }) hs h (fun i hi => Option.some.inj hi) hch
  | assertRead n rest ih =>
    obtain ⟨rfl, hrest⟩ := hs
    rw [Exec.run, if_pos (hk n rfl)]
    exact ih hrest h hk hch

end Exec

end LibraCore.Http
