import LibraCore.Foundations.Transition
import LibraCore.Http.ParserExecute

/-!
# The assertions of `http_parser_execute`

What holds of the parser between two bytes, and of every script. It keeps the assertions
of the parser and the reads of its tables safe in every run.
-/

namespace LibraCore.Http

/-- The stream is refused: it is not a callback that has failed or paused. -/
def HttpErrno.refusal : HttpErrno → Bool
  | .ok | .paused | .cbNotice _ | .cbHeadersComplete | .cbData _ => false
  | _ => true

/-! ### Between two bytes -/

/-- The states a header name is compared in. -/
def HeaderState.ofName : HeaderState → Bool
  | .general | .c | .co | .con | .matchingConnection | .matchingProxyConnection
  | .matchingContentLength | .matchingTransferEncoding | .matchingUpgrade | .connection
  | .contentLength | .transferEncoding | .upgrade => true
  | _ => false

/-- The state that a value may not be in. -/
def HeaderState.ofValue : HeaderState → Bool
  | .connection | .transferEncoding => false
  | _ => true

/-- A mark of the body may be open. -/
def ParserState.inBody : ParserState → Bool
  | bodyIdentity | bodyIdentityEof | chunkData | chunkDataAlmostDone => true
  | _ => false

/-- The case is a loop over the rest of the buffer. -/
def ParserState.loops : ParserState → Bool
  | headerField | headerValue | bodyIdentity | bodyIdentityEof | chunkData => true
  | _ => false

/-- `o` may be the open mark in a state. -/
def ParserState.Fits (s : ParserState) (o : Option DataField) : Prop :=
  o = s.openMark ∨ (s.inBody = true ∧ o = some .body)

/-- Nothing is asked of the parser in such a state. -/
def ParserState.free : ParserState → Bool
  | reqMethod | headerField | headerValue | chunkSizeStart | chunkSize | chunkParameters
  | chunkSizeAlmostDone | chunkData | chunkDataAlmostDone | chunkDataDone | bodyIdentity => false
  | _ => true

namespace Parser

/-- What the cases of the loop rely on. -/
def StateValid (c : Parser) : Prop :=
  match c.state with
  | .reqMethod => c.index ≤ c.method.string.length
  | .headerField => c.headerState.ofName = true
  | .headerValue => c.headerState.ofValue = true
  | .chunkSizeStart | .chunkDataDone => c.flags.chunked = true
  | .chunkSize | .chunkParameters | .chunkSizeAlmostDone =>
    c.flags.chunked = true ∧ c.contentLength ≠ ullongMax
  | .chunkData =>
    c.flags.chunked = true ∧ c.contentLength ≠ 0 ∧ c.contentLength ≠ ullongMax
  | .chunkDataAlmostDone => c.flags.chunked = true ∧ c.contentLength = 0
  | .bodyIdentity => c.contentLength ≠ 0 ∧ c.contentLength ≠ ullongMax
  | _ => True

/-- A parser that can go on. -/
@[mk_iff]
structure Valid (c : Parser) : Prop where
  errno : c.httpErrno = .ok
  length : c.contentLength ≤ ullongMax
  state : c.StateValid

end Parser

namespace Script

/-- What is asked of a script, where `o` is the open mark and `k` is `nread`, if it is
known: no fault, one mark at a time, and a parser that can go on whenever it is left. -/
def Sound (o : Option DataField) (k : Option ℕ) : Script → Prop
  | .next c => c.Valid ∧ c.state.Fits o ∧ (c.state = .chunkSizeStart → k = some 0)
  | .error _ e => e.refusal = true
  | .exit c => c.Valid ∧ c.state ≠ .chunkSizeStart ∧ c.upgrade = true ∧ o = none
  | .fault _ => False
  | .mark f rest => (o = none ∨ o = some f) ∧ rest.Sound (some f) k
  | .data f c _ er rest =>
    (c.Valid ∧ (c.state = .chunkSizeStart → k = some 0)) ∧ er ≤ 1 ∧ (o = none ∨ o = some f) ∧
      rest.Sound none k
  | .notify _ c er rest =>
    (c.Valid ∧ (c.state = .chunkSizeStart → k = some 0)) ∧ er ≤ 1 ∧ o = none ∧ rest.Sound none k
  | .headersComplete c rest =>
    c.Valid ∧ c.state = .headersDone ∧ o = none ∧
      ∀ d : Parser, d.Valid → d.state = .headersDone → (rest d).Sound none k
  | .resetRead rest => rest.Sound o (some 0)
  | .assertRead n rest => k = some n ∧ rest.Sound o k

theorem Sound.require {o : Option DataField} {k : Option ℕ} {b : Bool} {c : Parser}
    {e : HttpErrno} {rest : Script} (herror : e.refusal = true)
    (h : b = true → rest.Sound o k) : (Script.require b c e rest).Sound o k := by
  unfold Script.require
  split
  · exact h ‹_›
  · exact herror

theorem Sound.assert {o : Option DataField} {k : Option ℕ} {b : Bool} {rest : Script}
    (hb : b = true) (h : rest.Sound o k) : (Script.assert b rest).Sound o k := by
  rw [Script.assert, if_pos hb]
  exact h

end Script

namespace Parser

open Script

variable {c : Parser} {k : Option ℕ}

theorem Valid.of_free {d : Parser} (herrno : d.httpErrno = .ok)
    (hlength : d.contentLength ≤ ullongMax) (hfree : d.state.free = true) : d.Valid := by
  refine ⟨herrno, hlength, ?_⟩
  unfold StateValid
  cases hs : d.state <;> simp_all [ParserState.free]

theorem sound_next {d : Parser} {o : Option DataField} (herrno : d.httpErrno = .ok)
    (hlength : d.contentLength ≤ ullongMax) (hfree : d.state.free = true)
    (hopen : d.state.openMark = o) : (Script.next d).Sound o k := by
  refine ⟨.of_free herrno hlength hfree, .inl hopen.symm, ?_⟩
  intro hs
  rw [hs] at hfree
  cases hfree

theorem sound_announce {d : Parser} {n : Notice} (h : (Script.next d).Sound none k) :
    (announce n d).Sound none k :=
  ⟨⟨h.1, h.2.2⟩, le_rfl, rfl, h⟩

theorem sound_report {d : Parser} {f : DataField} (h : (Script.next d).Sound none k) :
    (report f d).Sound (some f) k :=
  ⟨⟨h.1, h.2.2⟩, le_rfl, .inr rfl, h⟩

/-- Every method has a letter that it starts with, and the place of a turn is in the name it
turns to. -/
theorem string_ne_nil (m : HttpMethod) : 1 ≤ m.string.length := by
  cases m <;> decide

theorem turn_lt {m m' : HttpMethod} {i : ℕ} {ch : UInt8} (h : m.turn i ch = some m') :
    i + 1 ≤ m'.string.length := by
  have htable : ∀ e ∈ HttpMethod.turns, e.2.1 + 1 ≤ e.2.2.2.string.length := by decide
  obtain ⟨e, hfind, rfl⟩ := Option.map_eq_some_iff.mp h
  have hkey := List.find?_some hfind
  have hi : e.2.1 = i := by simp_all
  rw [← hi]
  exact htable e (List.mem_of_find?_eq_some hfind)

theorem nextIndex_le (c : Parser) : c.nextIndex ≤ c.index + 1 := Nat.mod_le _ _

/-- The URL states but the first. -/
theorem ofUrl_parseUrlChar {s : UrlState} {ch : UInt8} (h : ParserState.ofUrl (parseUrlChar s ch) ≠ .dead) :
    (ParserState.ofUrl (parseUrlChar s ch)).free = true ∧
      (ParserState.ofUrl (parseUrlChar s ch)).openMark = some .url := by
  have hne : parseUrlChar s ch ≠ .reqSpacesBeforeUrl := by
    unfold parseUrlChar parseServerChar
    split_ifs <;> (try split) <;> decide
  cases hs : parseUrlChar s ch <;> simp_all [ParserState.ofUrl, ParserState.free, ParserState.openMark]

/-! ### The request and status lines -/

section Valid

variable (h : c.Valid) (ch : UInt8)
include h

theorem expect_sound (expected : Char) {s : ParserState} (hfree : s.free = true)
    (hopen : s.openMark = none) : (c.expect ch expected s).Sound none k := by
  apply Sound.require rfl
  intro _
  exact sound_next h.errno h.length hfree hopen

theorem startReq_sound (hs : c.state = .startReq) : (c.startReq ch).Sound none k := by
  unfold startReq
  split
  · exact sound_next h.errno h.length (by rw [hs]; rfl) (by rw [hs]; rfl)
  · split
    · exact rfl
    · split
      · exact rfl
      · rename_i m _
        exact sound_announce ⟨⟨h.errno, le_rfl, string_ne_nil m⟩, .inl rfl, nofun⟩

theorem startReqOrRes_sound (hs : c.state = .startReqOrRes) :
    (c.startReqOrRes ch).Sound none k := by
  unfold startReqOrRes
  split
  · exact sound_next h.errno h.length (by rw [hs]; rfl) (by rw [hs]; rfl)
  · split
    · exact sound_announce (sound_next h.errno le_rfl rfl rfl)
    · apply startReq_sound
      · exact .of_free h.errno le_rfl rfl
      · rfl

theorem resOrRespH_sound : (c.resOrRespH ch).Sound none k := by
  unfold resOrRespH
  split
  · exact sound_next h.errno h.length rfl rfl
  · apply Sound.require rfl
    intro _
    exact ⟨⟨h.errno, h.length, Nat.le_add_left 2 2⟩, .inl rfl, nofun⟩

theorem startRes_sound (hs : c.state = .startRes) : (c.startRes ch).Sound none k := by
  unfold startRes
  split
  · exact sound_announce (sound_next h.errno le_rfl rfl rfl)
  · split
    · exact sound_announce
        (sound_next h.errno le_rfl (by simp [clearMessage, hs, ParserState.free])
          (by simp [clearMessage, hs, ParserState.openMark]))
    · exact rfl

theorem resStatus_sound (hs : c.state = .resStatus) :
    (c.resStatus ch).Sound (some .status) k := by
  unfold resStatus
  split
  · exact sound_report (sound_next h.errno h.length rfl rfl)
  · split
    · exact sound_report (sound_next h.errno h.length rfl rfl)
    · exact sound_next h.errno h.length (by rw [hs]; rfl) (by rw [hs]; rfl)

theorem resStatusStart_sound : (c.resStatusStart ch).Sound none k := by
  refine ⟨.inl rfl, ?_⟩
  split
  · apply resStatus_sound
    · exact .of_free h.errno h.length rfl
    · rfl
  · exact sound_next h.errno h.length rfl rfl

theorem resFirstStatusCode_sound (hs : c.state = .resFirstStatusCode) :
    (c.resFirstStatusCode ch).Sound none k := by
  unfold resFirstStatusCode
  split
  · exact sound_next h.errno h.length rfl rfl
  · apply Sound.require rfl
    intro _
    exact sound_next h.errno h.length (by rw [hs]; rfl) (by rw [hs]; rfl)

theorem resStatusCode_sound (hs : c.state = .resStatusCode) :
    (c.resStatusCode ch).Sound none k := by
  unfold resStatusCode
  split
  · apply Sound.require rfl
    intro _
    exact sound_next h.errno h.length (by rw [hs]; rfl) (by rw [hs]; rfl)
  · split
    · exact sound_next h.errno h.length rfl rfl
    · split
      · apply resStatusStart_sound
        exact .of_free h.errno h.length rfl
      · exact rfl

theorem reqMethod_sound (hs : c.state = .reqMethod) : (c.reqMethod ch).Sound none k := by
  have hindex : c.index ≤ c.method.string.length := by
    have hstate := h.state
    rwa [StateValid, hs] at hstate
  have hnext := c.nextIndex_le
  unfold reqMethod
  split
  · exact rfl
  · rename_i hzero
    split
    · rename_i hnone
      -- the text has its terminator at the end
      rw [List.getElem?_eq_none_iff, List.length_append, List.length_singleton] at hnone
      omega
    · rename_i m hm
      split_ifs
      · exact sound_next h.errno h.length rfl rfl
      · rename_i heq
        have hlt : c.index < c.method.string.length := by
          by_contra hge
          have hend : c.index = c.method.string.length := by omega
          rw [hend, List.getElem?_concat_length, Option.some.injEq] at hm
          exact hzero (heq.trans hm.symm)
        refine ⟨⟨h.errno, h.length, ?_⟩, .inl ?_, ?_⟩
        · simp only [StateValid, hs]
          omega
        · simp only [hs, ParserState.openMark]
        · simp only [hs]
          nofun
      · split
        · exact rfl
        · rename_i hturn
          have hlt := turn_lt hturn
          refine ⟨⟨h.errno, h.length, ?_⟩, .inl ?_, ?_⟩
          · simp only [StateValid, hs]
            omega
          · simp only [hs, ParserState.openMark]
          · simp only [hs]
            nofun
      · exact rfl

theorem urlChar_sound : (c.urlChar ch).Sound (some .url) k := by
  apply Sound.require rfl
  intro hne
  obtain ⟨hfree, hopen⟩ := ofUrl_parseUrlChar (of_decide_eq_true hne)
  exact sound_next h.errno h.length hfree hopen

theorem reqSpacesBeforeUrl_sound (hs : c.state = .reqSpacesBeforeUrl) :
    (c.reqSpacesBeforeUrl ch).Sound none k := by
  unfold reqSpacesBeforeUrl
  split
  · exact sound_next h.errno h.length (by rw [hs]; rfl) (by rw [hs]; rfl)
  · refine ⟨.inl rfl, ?_⟩
    split
    · apply urlChar_sound
      exact .of_free h.errno h.length rfl
    · exact urlChar_sound h ch

theorem reqSchema_sound : (c.reqSchema ch).Sound (some .url) k := by
  unfold reqSchema
  split
  · exact rfl
  · exact urlChar_sound h ch

theorem reqTarget_sound : (c.reqTarget ch).Sound (some .url) k := by
  unfold reqTarget
  split
  · exact sound_report (sound_next h.errno h.length rfl rfl)
  · split
    · apply sound_report
      split <;> exact sound_next h.errno h.length rfl rfl
    · exact urlChar_sound h ch

theorem reqHttpStart_sound (hs : c.state = .reqHttpStart) : (c.reqHttpStart ch).Sound none k := by
  unfold reqHttpStart
  split
  · exact sound_next h.errno h.length rfl rfl
  · apply Sound.require rfl
    intro _
    exact sound_next h.errno h.length (by rw [hs]; rfl) (by rw [hs]; rfl)

theorem versionChar_sound (expected : Char) {s : ParserState} (hfree : s.free = true)
    (hopen : s.openMark = none) : (c.versionChar ch expected s).Sound none k := by
  apply Sound.require rfl
  intro _
  exact sound_next h.errno h.length hfree hopen

theorem reqHttpEnd_sound : (c.reqHttpEnd ch).Sound none k := by
  unfold reqHttpEnd
  split
  · exact sound_next h.errno h.length rfl rfl
  · apply Sound.require rfl
    intro _
    exact sound_next h.errno h.length rfl rfl

/-! ### The end of the headers and of the message -/

omit h in
theorem newMessage_cases (c : Parser) :
    c.newMessage = .dead ∨ c.newMessage = .startReq ∨ c.newMessage = .startRes := by
  unfold newMessage startState
  split_ifs <;> simp

theorem sound_newMessage : (Script.next (c.updateState c.newMessage)).Sound none k := by
  obtain hs | hs | hs := c.newMessage_cases <;>
    exact sound_next h.errno h.length (by rw [hs]; rfl) (by rw [hs]; rfl)

theorem messageDone_sound : c.messageDone.Sound none k := by
  have hnext := sound_newMessage h (k := k)
  refine ⟨⟨hnext.1, hnext.2.2⟩, le_rfl, rfl, ?_⟩
  split
  · refine ⟨hnext.1, ?_, ‹_›, rfl⟩
    obtain hs | hs | hs := c.newMessage_cases <;> simp [updateState, hs]
  · exact hnext

theorem headersDone_sound : (c.headersDone ch).Sound none k := by
  have hnext := sound_newMessage h (k := some 0)
  apply Sound.require rfl
  intro _
  show Script.Sound none (some 0) _
  split
  · refine ⟨⟨hnext.1, hnext.2.2⟩, le_rfl, rfl, hnext.1, ?_, ?_, rfl⟩
    · obtain hs | hs | hs := c.newMessage_cases <;> simp [updateState, hs]
    · exact And.left ‹_›
  · split
    · exact sound_announce hnext
    · split
      · exact ⟨⟨h.errno, h.length, ‹_›⟩, .inl rfl, fun _ => rfl⟩
      · split
        · exact sound_announce hnext
        · split
          · exact ⟨⟨h.errno, h.length, ‹_›, ‹_›⟩, .inl rfl, nofun⟩
          · split
            · exact sound_announce hnext
            · exact sound_next h.errno h.length rfl rfl

theorem headersAlmostDone_sound : (c.headersAlmostDone ch).Sound none k := by
  apply Sound.require rfl
  intro _
  split
  · have hdone : (c.updateState .messageDone).Valid := .of_free h.errno h.length rfl
    exact ⟨⟨hdone, nofun⟩, by decide, rfl, messageDone_sound hdone⟩
  · split
    · exact rfl
    · exact ⟨.of_free h.errno h.length rfl, rfl, rfl, fun d hd _ => headersDone_sound hd ch⟩

/-! ### Header fields -/

theorem headerFieldStart_sound : (c.headerFieldStart ch).Sound none k := by
  unfold headerFieldStart
  split
  · exact sound_next h.errno h.length rfl rfl
  · split
    · apply headersAlmostDone_sound
      exact .of_free h.errno h.length rfl
    · apply Sound.require rfl
      intro _
      refine ⟨.inl rfl, ⟨h.errno, h.length, ?_⟩, .inl rfl, nofun⟩
      show (nameStart _).ofName = true
      unfold nameStart
      split_ifs <;> rfl

theorem headerValueStart_sound : (c.headerValueStart ch).Sound none k := by
  have hnext {d : Parser} (herrno : d.httpErrno = .ok) (hlength : d.contentLength ≤ ullongMax)
      (hs : d.state = .headerValue) (hvalue : d.headerState.ofValue = true) :
      (Script.next d).Sound (some .headerValue) k := by
    refine ⟨⟨herrno, hlength, ?_⟩, ?_, ?_⟩
    · rwa [StateValid, hs]
    · rw [hs]
      exact .inl rfl
    · rw [hs]
      nofun
  refine ⟨.inl rfl, ?_⟩
  dsimp only
  split
  · exact hnext h.errno h.length rfl rfl
  · apply hnext
    · exact h.errno
    · exact h.length
    · rfl
    · dsimp only
      split_ifs <;> rfl
  · apply Sound.require rfl
    intro _
    apply Sound.require rfl
    intro _
    have hbyte := UInt8.toNat_lt ch
    apply hnext
    · exact h.errno
    · show ch.toNat - 48 ≤ ullongMax
      unfold ullongMax
      omega
    · rfl
    · simp_all [HeaderState.ofValue]
  · apply hnext
    · exact h.errno
    · exact h.length
    · rfl
    · dsimp only
      split_ifs <;> rfl
  · apply hnext
    · exact h.errno
    · exact h.length
    · rfl
    · simp_all [HeaderState.ofValue]
  · exact hnext h.errno h.length rfl rfl

theorem headerValueDiscardWs_sound (hs : c.state = .headerValueDiscardWs) :
    (c.headerValueDiscardWs ch).Sound none k := by
  unfold headerValueDiscardWs
  split
  · exact sound_next h.errno h.length (by rw [hs]; rfl) (by rw [hs]; rfl)
  · split
    · exact sound_next h.errno h.length rfl rfl
    · split
      · exact sound_next h.errno h.length rfl rfl
      · exact headerValueStart_sound h ch

theorem headerAlmostDone_sound : (c.headerAlmostDone ch).Sound none k := by
  apply Sound.require rfl
  intro _
  exact sound_next h.errno h.length rfl rfl

omit h in
/-- `finishHeader` sets a flag at most. -/
theorem finishHeader_eq (c : Parser) : ∃ flags, c.finishHeader = { c with flags := flags } := by
  unfold finishHeader
  split <;> exact ⟨_, rfl⟩

theorem headerValueLws_sound : (c.headerValueLws ch).Sound none k := by
  unfold headerValueLws
  split
  · apply headerValueStart_sound
    exact .of_free h.errno h.length rfl
  · obtain ⟨flags, hflags⟩ := c.finishHeader_eq
    rw [hflags]
    apply headerFieldStart_sound
    exact .of_free h.errno h.length rfl

theorem headerValueDiscardLws_sound : (c.headerValueDiscardLws ch).Sound none k := by
  unfold headerValueDiscardLws
  split
  · exact sound_next h.errno h.length rfl rfl
  · obtain ⟨flags, hflags⟩ := c.finishHeader_eq
    rw [hflags]
    have hstart : ({ c with flags := flags }.updateState .headerFieldStart).Valid :=
      .of_free h.errno h.length rfl
    exact ⟨.inl rfl, ⟨hstart, nofun⟩, by decide, .inr rfl, headerFieldStart_sound hstart ch⟩

/-! ### Chunks -/

omit h in
theorem unhex_lt {ch : UInt8} {v : ℕ} (hv : unhex ch = some v) : v < 16 := by
  have hlower : lower ch ≤ 102 → (lower ch).toNat ≤ 102 := fun hle => hle
  unfold unhex at hv
  split_ifs at hv with hhigh hnum hhex
  · cases hv
    decide
  · cases hv
    have hle : ch.toNat ≤ 57 := of_decide_eq_true (Bool.and_eq_true_iff.mp hnum).2
    omega
  · cases hv
    simp only [isHex, hnum, Bool.false_or, Bool.and_eq_true, decide_eq_true_eq] at hhex
    have hle := hlower hhex.2
    omega

theorem chunkSizeStart_sound (hs : c.state = .chunkSizeStart) :
    (c.chunkSizeStart ch).Sound none (some 1) := by
  have hchunked : c.flags.chunked = true := by
    have hstate := h.state
    rwa [StateValid, hs] at hstate
  refine ⟨rfl, .assert hchunked ?_⟩
  split
  · exact rfl
  · rename_i v hv
    have hlt := unhex_lt hv
    have hmax : v < ullongMax := by unfold ullongMax; omega
    exact ⟨⟨h.errno, hmax.le, hchunked, hmax.ne⟩, .inl rfl, nofun⟩

theorem chunkSize_sound (hs : c.state = .chunkSize) : (c.chunkSize ch).Sound none k := by
  have hstate : c.flags.chunked = true ∧ c.contentLength ≠ ullongMax := by
    have hstate := h.state
    rwa [StateValid, hs] at hstate
  apply Sound.assert hstate.1
  split
  · exact ⟨⟨h.errno, h.length, hstate⟩, .inl rfl, nofun⟩
  · split
    · apply Sound.require rfl
      intro _
      exact ⟨⟨h.errno, h.length, hstate⟩, .inl rfl, nofun⟩
    · rename_i v hv
      apply Sound.require rfl
      intro hle
      have hlt := unhex_lt hv
      -- the test is conservative: nothing wraps
      have hmax : (c.contentLength * 16 + v) % 2 ^ 64 < ullongMax := by
        have hle := of_decide_eq_true hle
        unfold ullongMax at hle ⊢
        omega
      refine ⟨⟨h.errno, hmax.le, ?_⟩, .inl ?_, ?_⟩
      · simp only [StateValid, hs]
        exact ⟨hstate.1, hmax.ne⟩
      · simp only [hs, ParserState.openMark]
      · simp only [hs]
        nofun

theorem chunkParameters_sound (hs : c.state = .chunkParameters) :
    (c.chunkParameters ch).Sound none k := by
  have hstate : c.flags.chunked = true ∧ c.contentLength ≠ ullongMax := by
    have hstate := h.state
    rwa [StateValid, hs] at hstate
  apply Sound.assert hstate.1
  split
  · exact ⟨⟨h.errno, h.length, hstate⟩, .inl rfl, nofun⟩
  · refine ⟨h, .inl ?_, ?_⟩
    · simp only [hs, ParserState.openMark]
    · simp only [hs]
      nofun

theorem chunkSizeAlmostDone_sound (hs : c.state = .chunkSizeAlmostDone) :
    (c.chunkSizeAlmostDone ch).Sound none k := by
  have hstate : c.flags.chunked = true ∧ c.contentLength ≠ ullongMax := by
    have hstate := h.state
    rwa [StateValid, hs] at hstate
  apply Sound.assert hstate.1
  apply Sound.require rfl
  intro _
  show (announce .chunkHeader _).Sound none (some 0)
  apply sound_announce
  split
  · exact sound_next h.errno h.length rfl rfl
  · exact ⟨⟨h.errno, h.length, hstate.1, ‹_›, hstate.2⟩, .inl rfl, nofun⟩

theorem chunkDataAlmostDone_sound (hs : c.state = .chunkDataAlmostDone) {o : Option DataField}
    (ho : o = none ∨ o = some .body) : (c.chunkDataAlmostDone ch).Sound o k := by
  have hstate : c.flags.chunked = true ∧ c.contentLength = 0 := by
    have hstate := h.state
    rwa [StateValid, hs] at hstate
  apply Sound.assert hstate.1
  apply Sound.assert (decide_eq_true hstate.2)
  apply Sound.require rfl
  intro _
  have hdone : (c.updateState .chunkDataDone).Valid := ⟨h.errno, h.length, hstate.1⟩
  exact ⟨⟨hdone, nofun⟩, le_rfl, ho, hdone, .inl rfl, nofun⟩

theorem chunkDataDone_sound (hs : c.state = .chunkDataDone) :
    (c.chunkDataDone ch).Sound none k := by
  have hchunked : c.flags.chunked = true := by
    have hstate := h.state
    rwa [StateValid, hs] at hstate
  apply Sound.assert hchunked
  apply Sound.require rfl
  intro _
  show (announce .chunkComplete _).Sound none (some 0)
  exact sound_announce ⟨⟨h.errno, h.length, hchunked⟩, .inl rfl, fun _ => rfl⟩

/-! ### The switch -/

theorem switch_sound {o : Option DataField} (hfits : c.state.Fits o)
    (hread : c.state = .chunkSizeStart → k = some 1) (hloops : c.state.loops = false) :
    (c.switch ch).Sound o k := by
  by_cases hbody : c.state = .chunkDataAlmostDone
  · have ho : o = none ∨ o = some .body := by
      rw [hbody] at hfits
      exact hfits.imp id And.right
    unfold switch
    simp only [hbody]
    exact chunkDataAlmostDone_sound h ch hbody ho
  obtain rfl | ⟨hin, -⟩ := hfits
  · unfold switch
    cases hs : c.state with
    | dead =>
      apply Sound.require rfl
      intro _
      exact sound_next h.errno h.length (by rw [hs]; rfl) (congrArg ParserState.openMark hs)
    | resLineAlmostDone | reqLineAlmostDone | headerValueDiscardWsAlmostDone =>
      apply Sound.require rfl
      intro _
      exact sound_next h.errno h.length rfl rfl
    | startReqOrRes => exact startReqOrRes_sound h ch hs
    | resOrRespH => exact resOrRespH_sound h ch
    | startRes => exact startRes_sound h ch hs
    | resH | resHT | resHTT | resHTTP | reqHttpH | reqHttpHT | reqHttpHTT | reqHttpHTTP =>
      exact expect_sound h ch _ rfl rfl
    | resHttpMajor | resHttpMinor | reqHttpMajor | reqHttpMinor =>
      apply Sound.require rfl
      intro _
      exact sound_next h.errno h.length rfl rfl
    | resHttpDot | resHttpEnd | reqHttpDot => exact versionChar_sound h ch _ rfl rfl
    | resFirstStatusCode => exact resFirstStatusCode_sound h ch hs
    | resStatusCode => exact resStatusCode_sound h ch hs
    | resStatusStart => exact resStatusStart_sound h ch
    | resStatus => exact resStatus_sound h ch hs
    | startReq => exact startReq_sound h ch hs
    | reqMethod => exact reqMethod_sound h ch hs
    | reqSpacesBeforeUrl => exact reqSpacesBeforeUrl_sound h ch hs
    | reqSchema | reqSchemaSlash | reqSchemaSlashSlash | reqServerStart =>
      exact reqSchema_sound h ch
    | reqServer | reqServerWithAt | reqPath | reqQueryStringStart | reqQueryString
    | reqFragmentStart | reqFragment => exact reqTarget_sound h ch
    | reqHttpStart => exact reqHttpStart_sound h ch hs
    | reqHttpEnd => exact reqHttpEnd_sound h ch
    | headerFieldStart => exact headerFieldStart_sound h ch
    | headerValueDiscardWs => exact headerValueDiscardWs_sound h ch hs
    | headerValueDiscardLws => exact headerValueDiscardLws_sound h ch
    | headerValueStart => exact headerValueStart_sound h ch
    | headerValueLws => exact headerValueLws_sound h ch
    | headerAlmostDone => exact headerAlmostDone_sound h ch
    | chunkSizeStart =>
      rw [hread hs]
      exact chunkSizeStart_sound h ch hs
    | chunkSize => exact chunkSize_sound h ch hs
    | chunkParameters => exact chunkParameters_sound h ch hs
    | chunkSizeAlmostDone => exact chunkSizeAlmostDone_sound h ch hs
    | headersAlmostDone => exact headersAlmostDone_sound h ch
    | headersDone => exact headersDone_sound h ch
    | chunkDataAlmostDone => exact absurd hs hbody
    | chunkDataDone => exact chunkDataDone_sound h ch hs
    | messageDone => exact messageDone_sound h
    | headerField | headerValue | bodyIdentity | bodyIdentityEof | chunkData =>
      rw [hs] at hloops
      cases hloops
  · cases hs : c.state <;> simp_all [ParserState.inBody, ParserState.loops]

end Valid

/-! ### Bodies -/

/-- What follows the bytes of a body that were read, `last` if they were the last. -/
def bodyNext (c : Parser) (last : Script) : Script :=
  if c.contentLength = 0 then last else .next c

def identityNext (c : Parser) : Script :=
  let done := c.updateState .messageDone
  c.bodyNext (.data .body done true 0 done.messageDone)

def chunkNext (c : Parser) : Script := c.bodyNext (.next (c.updateState .chunkDataAlmostDone))

theorem identityNext_sound (herrno : c.httpErrno = .ok) (hmax : c.contentLength < ullongMax)
    (hs : c.state = .bodyIdentity) : c.identityNext.Sound (some .body) k := by
  unfold identityNext bodyNext
  dsimp only
  split
  · have hdone : (c.updateState .messageDone).Valid := .of_free herrno hmax.le rfl
    exact ⟨⟨hdone, nofun⟩, by decide, .inr rfl, messageDone_sound hdone⟩
  · refine ⟨⟨herrno, hmax.le, ?_⟩, .inr ⟨by rw [hs]; rfl, rfl⟩, by simp [hs]⟩
    rw [StateValid, hs]
    exact ⟨‹_›, hmax.ne⟩

theorem chunkNext_sound (herrno : c.httpErrno = .ok) (hmax : c.contentLength < ullongMax)
    (hs : c.state = .chunkData) (hchunked : c.flags.chunked = true) :
    c.chunkNext.Sound (some .body) k := by
  unfold chunkNext bodyNext
  split
  · exact ⟨⟨herrno, hmax.le, hchunked, ‹_›⟩, .inr ⟨rfl, rfl⟩, nofun⟩
  · refine ⟨⟨herrno, hmax.le, ?_⟩, .inr ⟨by rw [hs]; rfl, rfl⟩, by simp [hs]⟩
    rw [StateValid, hs]
    exact ⟨hchunked, ‹_›, hmax.ne⟩

end Parser

end LibraCore.Http
