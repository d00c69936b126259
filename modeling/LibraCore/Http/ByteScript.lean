import Mathlib.Data.List.TakeWhile
import LibraCore.Http.ParserRuns

/-!
# The loop, one byte at a time

Some cases of the loop work on more than a byte: they pass over a name, a value or a body.
`byteScript` is one round of such a loop, and so gives a script to every state. What these
scripts keep, byte by byte, the loop keeps as well; it only counts the bytes differently.

## Main results

- `Parser.byteScript_sound` — the scripts are sound
- `Exec.ByteRule.loop` — the rule for what the scripts keep
-/

namespace LibraCore.Http

namespace Parser

open Script

/-- A byte of a body whose length is known. -/
def bodyByte (c : Parser) (next : Parser → Script) : Script :=
  assert (c.contentLength ≠ 0 ∧ c.contentLength ≠ ullongMax) <| .mark .body <|
    next { c with contentLength := c.contentLength - 1 }

/-- One byte. A value that nothing depends on may have any characters in it. -/
def byteScript (c : Parser) (ch : UInt8) : Script :=
  match c.state with
  | .headerField =>
    if token ch = 0 then
      require (ch = ':'.toUInt8) c .invalidHeaderToken
        (report .headerField (c.updateState .headerValueDiscardWs))
    else
      match c.fieldChar ch (token ch) with
      | none => .fault .assertFailed
      | some c => .next c
  | .headerValue =>
    let done := c.updateState .headerAlmostDone
    if ch = cr then report .headerValue done
    else if ch = lf then .data .headerValue done false 0 (done.headerAlmostDone ch)
    else if c.headerState = .general then .next c
    else
      require (c.lenientHttpHeaders || isHeaderChar ch) c .invalidHeaderToken <|
        match c.valueChar ch with
        | .ok c => .next c
        | .error script => script
  | .bodyIdentity => c.bodyByte identityNext
  | .chunkData => c.bodyByte chunkNext
  | .bodyIdentityEof => .mark .body (.next c)
  | _ => c.switch ch

variable {c d : Parser} {k : Option ℕ} {o : Option DataField} {ch : UInt8}

theorem InName.sound_next (h : d.InName) : (Script.next d).Sound (some .headerField) k :=
  ⟨h.1, .inl (by rw [h.2]; rfl), by simp [h.2]⟩

theorem InValue.sound_next (h : d.InValue) : (Script.next d).Sound (some .headerValue) k :=
  ⟨h.1, .inl (by rw [h.2]; rfl), by simp [h.2]⟩

theorem bodyByte_sound {next : Parser → Script} (ho : o = none ∨ o = some .body)
    (hlength : c.contentLength ≠ 0 ∧ c.contentLength ≠ ullongMax)
    (hnext : (next { c with contentLength := c.contentLength - 1 }).Sound (some .body) k) :
    (c.bodyByte next).Sound o k := by
  apply Sound.assert (by simpa using hlength)
  exact ⟨ho, hnext⟩

theorem byteScript_sound (h : c.Valid) (hfits : c.state.Fits o)
    (hread : c.state = .chunkSizeStart → k = some 1) (ch : UInt8) :
    (c.byteScript ch).Sound o k := by
  have hmax := h.length
  unfold byteScript
  cases hs : c.state with
  | headerField =>
    have hname : c.InName := ⟨h, hs⟩
    obtain rfl : o = some .headerField := by
      rw [hs] at hfits
      exact hfits.elim id fun hin => absurd hin.1 (by decide)
    dsimp only
    split
    · apply Sound.require rfl
      intro _
      exact sound_report (sound_next h.errno h.length rfl rfl)
    · obtain ⟨d, hchar, hd⟩ := hname.fieldChar ch (token ch)
      rw [hchar]
      exact hd.sound_next
  | headerValue =>
    have hvalue : c.InValue := ⟨h, hs⟩
    have hdone : (c.updateState .headerAlmostDone).Valid := .of_free h.errno h.length rfl
    obtain rfl : o = some .headerValue := by
      rw [hs] at hfits
      exact hfits.elim id fun hin => absurd hin.1 (by decide)
    dsimp only
    split
    · exact sound_report (sound_next h.errno h.length rfl rfl)
    split
    · exact ⟨⟨hdone, by simp [updateState]⟩, by decide, .inr rfl, headerAlmostDone_sound hdone ch⟩
    split
    · exact hvalue.sound_next
    · apply Sound.require rfl
      intro _
      obtain ⟨d, hchar, hd⟩ | hchar := hvalue.valueChar ch
      · rw [hchar]
        exact hd.sound_next
      · rw [hchar]
        rfl
  | bodyIdentity =>
    have hlength := h.bodyIdentity_length hs
    rw [hs] at hfits
    refine bodyByte_sound (hfits.imp id And.right) hlength (identityNext_sound h.errno ?_ hs)
    show c.contentLength - 1 < ullongMax
    omega
  | chunkData =>
    obtain ⟨hchunked, hlength⟩ := h.chunkData_length hs
    rw [hs] at hfits
    refine bodyByte_sound (hfits.imp id And.right) hlength (chunkNext_sound h.errno ?_ hs hchunked)
    show c.contentLength - 1 < ullongMax
    omega
  | bodyIdentityEof =>
    rw [hs] at hfits
    exact ⟨hfits.imp id And.right, h, .inr ⟨by rw [hs]; rfl, rfl⟩, by simp [hs]⟩
  | _ => exact switch_sound h ch hfits hread (by rw [hs]; rfl)

/-! ### Values -/

theorem isCrLf_iff {ch : UInt8} : isCrLf ch = true ↔ ch = cr ∨ ch = lf := by
  simp [isCrLf]

theorem byteScript_value (hs : c.state = .headerValue) (hend : ¬ isCrLf ch = true) :
    c.byteScript ch =
      if c.headerState = .general then .next c
      else
        Script.require (c.lenientHttpHeaders || isHeaderChar ch) c .invalidHeaderToken <|
          match c.valueChar ch with
          | .ok c => .next c
          | .error script => script := by
  rw [isCrLf_iff, not_or] at hend
  simp [byteScript, hs, hend]

/-- `memchr` finds the end of the line, or the buffer is longer than a header may be. -/
theorem skipValue_cases (text : List UInt8) :
    (∃ run, text = run ++ skipValue text ∧ (∀ ch ∈ run, ¬ isCrLf ch = true) ∧
      ∀ ch ∈ (skipValue text).head?, isCrLf ch = true) ∨
    (httpMaxHeaderSize < text.length ∧ skipValue text = []) := by
  obtain ⟨run, hrun⟩ : ∃ run, text.takeWhile (fun ch => !isCrLf ch) = run := ⟨_, rfl⟩
  obtain ⟨tail, htail⟩ : ∃ tail, text.dropWhile (fun ch => !isCrLf ch) = tail := ⟨_, rfl⟩
  have htext : text = run ++ tail := by rw [← hrun, ← htail, List.takeWhile_append_dropWhile]
  have hline : ∀ ch ∈ run, ¬ isCrLf ch = true := by
    intro ch hch
    rw [← hrun] at hch
    simpa using List.mem_takeWhile_imp hch
  have hend : ∀ ch ∈ tail.head?, isCrLf ch = true := by
    intro ch hch
    have hhead := List.head?_dropWhile_not (fun ch => !isCrLf ch) text
    rw [htail, Option.mem_def.mp hch] at hhead
    simpa using hhead
  have hskip : skipValue text = if run.length < httpMaxHeaderSize then tail else [] := by
    rw [skipValue, hrun, htext, List.drop_left]
  rw [hskip]
  split_ifs with hlength
  · exact .inl ⟨run, htext, hline, hend⟩
  · cases tail with
    | nil => exact .inl ⟨run, htext, hline, nofun⟩
    | cons ch tail =>
      refine .inr ⟨?_, rfl⟩
      rw [htext, List.length_append, List.length_cons]
      omega

/-! ### What a character of a name or a value leaves alone -/

theorem finishHeader_same (c : Parser) :
    c.finishHeader.state = c.state ∧ c.finishHeader.flags.trailing = c.flags.trailing := by
  unfold finishHeader
  split <;> exact ⟨rfl, rfl⟩

theorem matchChar_same (c : Parser) (name : List UInt8) (found other : HeaderState) (ch : UInt8) :
    (c.matchChar name found other ch).state = c.state ∧
      (c.matchChar name found other ch).flags = c.flags := by
  obtain ⟨i, h, heq, -⟩ := c.matchChar_eq name found other ch
  rw [heq]
  exact ⟨rfl, rfl⟩

theorem fieldChar_same {t : UInt8} (h : c.fieldChar ch t = some d) :
    d.state = c.state ∧ d.flags = c.flags := by
  unfold fieldChar at h
  split at h
  all_goals
    cases h
    try first
      | exact ⟨rfl, rfl⟩
      | exact matchChar_same _ _ _ _ _
      | split_ifs <;> exact ⟨rfl, rfl⟩

theorem valueChar_same (hs : c.state = .headerValue) (h : c.valueChar ch = .ok d) :
    d.state = .headerValue ∧ d.flags.trailing = c.flags.trailing := by
  unfold valueChar at h
  dsimp only at h
  split at h
  all_goals try split_ifs at h
  all_goals
    cases h
    try split_ifs
    all_goals simp [matchChar_same, finishHeader_same, tokenStart, hs]

end Parser

/-- An error that depends on the buffers: the bytes of a header are not counted alike, and
not all the characters of a value are looked at. -/
def HttpErrno.ofBuffers (e : HttpErrno) : Prop := e = .headerOverflow ∨ e = .invalidHeaderToken

namespace Exec

variable {D : Type} {settings : ParserSettings D} {E : ParserStop D → Prop} {P : Exec D → Prop}
  {len m : ℕ} {x : Exec D} {o : Option DataField}

/-! ### Moving through the buffer -/

@[simp] theorem advance_zero (x : Exec D) : x.advance 0 = x := by
  simp [advance]

theorem advance_advance (x : Exec D) (i j : ℕ) : (x.advance i).advance j = x.advance (i + j) := by
  have htake : x.rest.take (i + j) = x.rest.take i ++ (x.rest.drop i).take j := List.take_add
  simp [advance, htake, List.length_append, Nat.add_assoc, Function.comp_def]

theorem advance_nil (hrest : x.rest = []) (n : ℕ) : x.advance n = x := by
  obtain ⟨parser, nread, app, mark, position, rest⟩ := x
  obtain rfl : rest = [] := hrest
  simp [advance]

theorem Marks.mark_some {f : DataField} (h : x.Marks (some f)) : ∃ text, x.mark f = some text :=
  Option.isSome_iff_exists.mp ((h f).mpr rfl)

/-- `MARK` of an open mark does nothing. -/
theorem setMark_of_some {f : DataField} {text : List UInt8} (h : x.mark f = some text) :
    x.setMark f = x := by
  have hmark : Function.update x.mark f (some text) = x.mark := by rw [← h, Function.update_eq_self]
  simp [setMark, h, hmark]

theorem Good.marks_open (h : x.Good len m) (hbody : x.parser.state.inBody = false) :
    x.Marks x.parser.state.openMark := by
  obtain ⟨o, hmarks, hfits⟩ := h.marks
  obtain rfl := hfits.resolve_right fun hin => absurd hin.1 (by simp [hbody])
  exact hmarks

theorem Good.marks_body (h : x.Good len m) (hbody : x.parser.state.inBody = true) :
    ∃ o, x.Marks o ∧ (o = none ∨ o = some .body) := by
  obtain ⟨o, hmarks, hfits⟩ := h.marks
  refine ⟨o, hmarks, hfits.imp (fun heq => ?_) And.right⟩
  rw [heq]
  revert hbody
  cases x.parser.state <;> simp [ParserState.inBody, ParserState.openMark]

/-- The parser that a call has come to matters to no script. -/
theorem run_setParser (s : Script) (x : Exec D) (c : Parser) :
    { x with parser := c }.run settings s = x.run settings s := by
  induction s generalizing x with
  | mark f rest ih => exact ih (x.setMark f)
  | resetRead rest ih => exact ih { x with nread := 0 }
  | assertRead n rest ih =>
    simp only [Exec.run]
    rw [ih]
  | _ => rfl

/-! ### What the scripts keep -/

/-- A property of a call that the scripts keep, byte by byte, up to stops in `E`. It does
not depend on `nread`. -/
structure ByteRule (settings : ParserSettings D) (E : ParserStop D → Prop) (P : Exec D → Prop) :
    Prop where
  nread : ∀ x n, P x → P { x with nread := n }
  refused : ∀ x n (parser : ParserObj), P x → parser.httpErrno.ofBuffers →
    E (.returned n parser x.app)
  byte : ∀ x o ch rest, P x → x.parser.Valid → x.Marks o → x.parser.state.Fits o →
    (x.parser.state = .chunkSizeStart → x.nread = 1) → x.rest = ch :: rest →
    Ends E (fun y => P (y.advance 1)) (x.run settings (x.parser.byteScript ch))

namespace ByteRule

variable (h : ByteRule settings E P)
include h

theorem count (hP : P x) (n : ℕ) : Ends E P (x.countHeaderSize n) := by
  unfold countHeaderSize
  dsimp only
  split_ifs
  · exact h.refused x _ _ hP (.inl rfl)
  · exact h.nread x _ hP

/-- The count of bytes that were passed over, once the callback for them is made. -/
theorem countAfter (hP : P (x.advance 1)) (n : ℕ) :
    Ends E (fun y => P (y.advance 1)) (x.countHeaderSize n) := by
  unfold countHeaderSize
  dsimp only
  split_ifs
  · exact h.refused (x.advance 1) _ _ hP (.inl rfl)
  · exact h.nread (x.advance 1) _ hP

/-- A byte whose script only goes on. -/
theorem next (hP : P x) (hvalid : x.parser.Valid) (hmarks : x.Marks o)
    (hfits : x.parser.state.Fits o) (hs : x.parser.state ≠ .chunkSizeStart) {ch : UInt8}
    {rest : List UInt8} (hrest : x.rest = ch :: rest) {d : Parser}
    (hd : x.parser.byteScript ch = .next d) : P ({ x with parser := d }.advance 1) := by
  have hbyte := h.byte x o ch rest hP hvalid hmarks hfits (fun heq => absurd heq hs) hrest
  rw [hd] at hbyte
  exact hbyte

/-- The loop of `s_header_field`. -/
theorem fieldScan {text rest : List UInt8} {d : Parser} (hP : P x) (hname : x.parser.InName)
    (hmarks : x.Marks (some .headerField)) (htext : x.rest = text)
    (hscan : x.parser.fieldScan text = some (d, rest)) :
    ∃ run, text = run ++ rest ∧ P ({ x with parser := d }.advance run.length) ∧
      ∀ ch ∈ rest.head?, token ch = 0 := by
  induction text generalizing x with
  | nil =>
    cases hscan
    exact ⟨[], rfl, by rwa [List.length_nil, advance_zero], by simp⟩
  | cons ch text ih =>
    unfold Parser.fieldScan at hscan
    split at hscan
    · cases hscan
      refine ⟨[], rfl, by rwa [List.length_nil, advance_zero], ?_⟩
      rintro ch ⟨⟩
      assumption
    · rename_i htoken
      obtain ⟨c, hchar, hc⟩ := hname.fieldChar ch (token ch)
      rw [hchar] at hscan
      have hscript : x.parser.byteScript ch = .next c := by
        simp [Parser.byteScript, hname.2, htoken, hchar]
      have hnext := h.next hP hname.1 hmarks (.inl (by rw [hname.2]; rfl)) (by simp [hname.2]) htext
        hscript
      obtain ⟨run, rfl, hrun, hend⟩ := ih hnext hc (hmarks.advance 1)
        (by simp [advance, htext]) hscan
      refine ⟨ch :: run, rfl, ?_, hend⟩
      have hmove := advance_advance { x with parser := d } 1 run.length
      rw [List.length_cons, Nat.add_comm, ← hmove]
      exact hrun

/-- Characters of a value that nothing depends on. -/
theorem general {run rest : List UInt8} (hP : P x) (hvalue : x.parser.InValue)
    (hgeneral : x.parser.headerState = .general) (hmarks : x.Marks (some .headerValue))
    (hrun : ∀ ch ∈ run, ¬ isCrLf ch = true) (hrest : x.rest = run ++ rest) :
    P (x.advance run.length) := by
  induction run generalizing x with
  | nil => rwa [List.length_nil, advance_zero]
  | cons ch run ih =>
    obtain ⟨hch, hrun⟩ := List.forall_mem_cons.mp hrun
    have hscript : x.parser.byteScript ch = .next x.parser := by
      rw [Parser.byteScript_value hvalue.2 hch, if_pos hgeneral]
    have hnext := h.next hP hvalue.1 hmarks (.inl (by rw [hvalue.2]; rfl)) (by simp [hvalue.2]) hrest
      hscript
    have hmore := ih hnext hvalue hgeneral (hmarks.advance 1) hrun (by simp [advance, hrest])
    rw [List.length_cons, Nat.add_comm, ← advance_advance]
    exact hmore

/-- The loop of `s_header_value` ends at the end of the buffer or of the line, or with an
error. In a buffer that is too long for a header it may miss the end of the line. -/
theorem valueScan {before : HeaderState} {text rest : List UInt8} {d : Parser}
    {stopped : Option Script} (hP : P x) (hvalue : x.parser.InValue)
    (hmarks : x.Marks (some .headerValue)) (htext : x.rest = text)
    (hscan : x.parser.valueScan before text = (d, rest, stopped)) :
    (∃ run, text = run ++ rest ∧ P ({ x with parser := d }.advance run.length) ∧
      (stopped = none → ∀ ch ∈ rest.head?, isCrLf ch = true) ∧
      ∀ script ∈ stopped, ∃ ch ∈ rest.head?,
        d.byteScript ch = script ∨ ∃ e, script = .error e .invalidHeaderToken) ∨
    (httpMaxHeaderSize < text.length ∧ rest = [] ∧ stopped = none) := by
  induction text generalizing x with
  | nil =>
    cases hscan
    exact .inl ⟨[], rfl, by rwa [List.length_nil, advance_zero], by simp, by simp⟩
  | cons ch text ih =>
    have hhere : P (x.advance ([] : List UInt8).length) := by rwa [List.length_nil, advance_zero]
    unfold Parser.valueScan at hscan
    split at hscan
    · cases hscan
      refine .inl ⟨[], rfl, hhere, ?_, by simp⟩
      rintro - ch ⟨⟩
      assumption
    rename_i hend
    split at hscan
    · cases hscan
      refine .inl ⟨[], rfl, hhere, by simp, ?_⟩
      rintro script ⟨⟩
      exact ⟨ch, rfl, .inr ⟨_, rfl⟩⟩
    rename_i hvalid
    have hvalid : (x.parser.lenientHttpHeaders || isHeaderChar ch) = true := by
      simpa [or_iff_not_imp_left] using hvalid
    have hscript := Parser.byteScript_value hvalue.2 hend
    rw [hvalid] at hscript
    split at hscan
    · cases hscan
      obtain ⟨run, hrun, hline, hskip⟩ | hlong := Parser.skipValue_cases (ch :: text)
      · refine .inl ⟨run, hrun, ?_, fun _ => hskip, by simp⟩
        exact h.general hP hvalue ‹_› hmarks hline (htext.trans hrun)
      · exact .inr ⟨hlong.1, hlong.2, rfl⟩
    rename_i hgeneral
    rw [if_neg hgeneral] at hscript
    obtain ⟨c, hchar, hc⟩ | hchar := hvalue.valueChar ch
    · rw [hchar] at hscan hscript
      have hnext := h.next hP hvalue.1 hmarks (.inl (by rw [hvalue.2]; rfl)) (by simp [hvalue.2])
        htext hscript
      obtain ⟨run, rfl, hrun, hrest⟩ | hlong :=
        ih hnext hc (hmarks.advance 1) (by simp [advance, htext]) hscan
      · refine .inl ⟨ch :: run, rfl, ?_, hrest⟩
        have hmove := advance_advance { x with parser := d } 1 run.length
        rw [List.length_cons, Nat.add_comm, ← hmove]
        exact hrun
      · refine .inr ⟨?_, hlong.2⟩
        rw [List.length_cons]
        omega
    · rw [hchar] at hscan hscript
      cases hscan
      refine .inl ⟨[], rfl, hhere, by simp, ?_⟩
      rintro script ⟨⟩
      exact ⟨ch, rfl, .inl hscript⟩

theorem countAt {d : Parser} {rest : List UInt8} (hP : P x) (hat : x.At len d o rest) (n : ℕ) :
    Ends E (fun y => y.At len d o rest ∧ P y) (x.countHeaderSize n) :=
  ((hat.count n).and (h.count hP n)).imp (fun _ hs => hs.2) fun _ hy => hy

theorem countWith {d : Parser} {rest : List UInt8} (hP : P x) (hat : x.At len d o rest)
    (p : Parser) (n : ℕ) :
    Ends E (fun y => ∃ z : Exec D, y = { z with parser := p } ∧ z.At len d o rest ∧ P z)
      ({ x with parser := p }.countHeaderSize n) := by
  unfold countHeaderSize
  dsimp only
  split_ifs
  · exact h.refused x _ _ hP (.inl rfl)
  · exact ⟨{ x with nread := (x.nread + n) % 2 ^ 32 }, rfl,
      ⟨hat.position, hat.parser, hat.marks, hat.rest⟩, h.nread x _ hP⟩

/-- The next byte, where a scan of the buffer has come to. -/
theorem byteAt {d : Parser} {ch : UInt8} {rest : List UInt8} (hP : P x)
    (hat : x.At len d d.state.openMark (ch :: rest)) (hd : d.Valid) (hs : d.state ≠ .chunkSizeStart) :
    Ends E (fun y => P (y.advance 1)) (x.run settings (d.byteScript ch)) := by
  obtain ⟨-, rfl, hmarks, hrest⟩ := hat
  exact h.byte x _ ch rest hP hd hmarks (.inl rfl) (fun heq => absurd heq hs) hrest

theorem headerField (hgood : x.Good len m) (hs : x.parser.state = .headerField) (hP : P x) :
    Ends E (fun y => P (y.advance 1)) (x.headerField settings) := by
  have hmarks := hgood.marks_open (by rw [hs]; rfl)
  rw [hs] at hmarks
  obtain ⟨d, -, rest, hscan, hd, -⟩ := Parser.InName.fieldScan ⟨hgood.valid, hs⟩ x.rest
  obtain ⟨run, htext, hpass, hend⟩ := h.fieldScan hP ⟨hgood.valid, hs⟩ hmarks rfl hscan
  have hlength : x.rest.length - rest.length = run.length := by
    rw [htext, List.length_append]
    omega
  have hat := hgood.at hs rfl htext (d := d)
  unfold Exec.headerField
  simp only [hscan]
  rw [hlength] at hat ⊢
  apply (h.countAt hpass hat _).bind
  rintro y ⟨hy, hPy⟩
  cases rest with
  | nil =>
    show P (y.advance 1)
    rwa [advance_nil hy.rest]
  | cons ch rest =>
    have hscript : d.byteScript ch = Script.require (ch = ':'.toUInt8) d .invalidHeaderToken
        (.report .headerField (d.updateState .headerValueDiscardWs)) := by
      simp [Parser.byteScript, hd.2, hend ch rfl]
    have hbyte := h.byteAt hPy (by rw [hd.2]; exact hy) hd.1 (by simp [hd.2])
    rwa [hscript] at hbyte

theorem headerValue (hsize : len + httpMaxHeaderSize < 2 ^ 32) (hgood : x.Good len m)
    (hread : x.nread ≤ httpMaxHeaderSize) (hs : x.parser.state = .headerValue) (hP : P x) :
    Ends E (fun y => P (y.advance 1)) (x.headerValue settings) := by
  have hmarks := hgood.marks_open (by rw [hs]; rfl)
  rw [hs] at hmarks
  obtain ⟨d, -, rest, stopped, hscan, hd, -, -⟩ :=
    Parser.InValue.valueScan ⟨hgood.valid, hs⟩ x.parser.headerState x.rest
  unfold Exec.headerValue
  simp only [hscan]
  obtain ⟨run, htext, hpass, hend, hstop⟩ | ⟨hlong, rfl, rfl⟩ :=
    h.valueScan hP ⟨hgood.valid, hs⟩ hmarks rfl hscan
  · have hlength : x.rest.length - rest.length = run.length := by
      rw [htext, List.length_append]
      omega
    have hat := hgood.at hs rfl htext (d := d)
    rw [hlength] at hat ⊢
    have hbyte {y : Exec D} {ch : UInt8} {tail : List UInt8} (hP : P y)
        (hy : y.At len d (some .headerValue) (ch :: tail)) :
        Ends E (fun y => P (y.advance 1)) (y.run settings (d.byteScript ch)) :=
      h.byteAt hP (by rw [hd.2]; exact hy) hd.1 (by simp [hd.2])
    split
    · rename_i script
      obtain ⟨ch, hch, hscript | ⟨e, rfl⟩⟩ := hstop script rfl
      · cases rest with
        | nil => cases hch
        | cons ch' tail =>
          cases hch
          have hrun := hbyte hpass hat
          rwa [hscript] at hrun
      · refine h.refused ({ x with parser := d }.advance run.length) _ _ hpass ?_
        exact .inr rfl
    · apply (h.countAt hpass hat _).mono
      rintro y ⟨hy, hPy⟩
      show P (y.advance 1)
      rwa [advance_nil hy.rest]
    · rename_i ch tail
      have hline := Parser.isCrLf_iff.mp (hend rfl ch rfl)
      have hscript : d.byteScript ch =
          if ch = cr then .report .headerValue (d.updateState .headerAlmostDone)
          else .data .headerValue (d.updateState .headerAlmostDone) false 0
            ((d.updateState .headerAlmostDone).headerAlmostDone ch) := by
        obtain rfl | rfl := hline <;> simp [Parser.byteScript, hd.2, cr, lf]
      split
      · rename_i hcr
        rw [if_pos hcr] at hscript
        have hrun := hbyte hpass hat
        rw [hscript] at hrun
        apply hrun.bind
        intro y hy
        exact h.countAfter hy _
      · rename_i hcr
        rw [if_neg hcr] at hscript
        -- the count is made with another parser in the place of `d`
        apply (h.countWith hpass hat _ _).bind
        rintro _ ⟨y, rfl, hy, hPy⟩
        have hrun := hbyte hPy hy
        rw [hscript] at hrun
        rw [run_setParser]
        exact hrun
  · -- the whole buffer is counted
    have hposition := hgood.position
    have hover : httpMaxHeaderSize < (x.nread + x.rest.length) % 2 ^ 32 := by
      rw [Nat.mod_eq_of_lt (by omega)]
      omega
    dsimp only
    rw [countHeaderSize, if_pos]
    · exact h.refused x _ _ hP (.inl rfl)
    · exact hover

/-- The bytes of a body before the last that is read at once. -/
theorem body {run rest : List UInt8} (hP : P x) (hvalid : x.parser.Valid) (hmarks : x.Marks o)
    (ho : o = none ∨ o = some .body)
    (hbody : x.parser.state = .bodyIdentity ∨ x.parser.state = .chunkData)
    (hrun : run.length < x.parser.contentLength) (hrest : x.rest = run ++ rest) :
    ∃ z o', P z ∧ z.parser.Valid ∧ z.Marks o' ∧ (o' = none ∨ o' = some .body) ∧ z.rest = rest ∧
      z.parser = { x.parser with contentLength := x.parser.contentLength - run.length } ∧
      z.setMark .body = { x.setMark .body with
        parser := { x.parser with contentLength := x.parser.contentLength - run.length } }.advance
          run.length := by
  induction run generalizing x o with
  | nil =>
    refine ⟨x, o, hP, hvalid, hmarks, ho, hrest, rfl, ?_⟩
    rw [List.length_nil, advance_zero]
    rfl
  | cons ch run ih =>
    rw [List.length_cons] at hrun
    have hleft : x.parser.contentLength - 1 ≠ 0 := by omega
    have hfits : x.parser.state.Fits o := by
      obtain hs | hs := hbody <;> rw [hs] <;> exact ho.imp id fun h => ⟨rfl, h⟩
    have hmax : x.parser.contentLength ≠ 0 ∧ x.parser.contentLength ≠ ullongMax := by
      obtain hs | hs := hbody
      · exact hvalid.bodyIdentity_length hs
      · exact (hvalid.chunkData_length hs).2
    have hscript : x.parser.byteScript ch = .mark .body
        (.next { x.parser with contentLength := x.parser.contentLength - 1 }) := by
      obtain hs | hs := hbody <;>
        simp [Parser.byteScript, Parser.bodyByte, Parser.identityNext, Parser.chunkNext,
          Parser.bodyNext, Script.assert, hs, hmax, hleft]
    have hnot : x.parser.state ≠ .chunkSizeStart := by
      obtain hs | hs := hbody <;> simp [hs]
    have hsound : (x.parser.byteScript ch).Sound o none :=
      Parser.byteScript_sound hvalid hfits (fun heq => absurd heq hnot) ch
    have hbyte := h.byte x o ch _ hP hvalid hmarks hfits (fun heq => absurd heq hnot) hrest
    rw [hscript] at hbyte hsound
    have hmarks' := hmarks.setMark ho
    obtain ⟨text, htext⟩ := hmarks'.mark_some
    obtain ⟨z, o', hz, hzvalid, hzmarks, hzo, hzrest, hzparser, hzmark⟩ :=
      ih hbyte hsound.2.1 (hmarks'.advance 1) (.inr rfl) hbody
        (show run.length < x.parser.contentLength - 1 by omega) (by simp [advance, setMark, hrest])
    have hlength : x.parser.contentLength - (ch :: run).length =
        x.parser.contentLength - 1 - run.length := by
      rw [List.length_cons]
      omega
    rw [hlength]
    refine ⟨z, o', hz, hzvalid, hzmarks, hzo, hzrest, hzparser, hzmark.trans ?_⟩
    have hsome : ({ x.setMark .body with
        parser := { x.parser with contentLength := x.parser.contentLength - 1 } }.advance 1).mark
          .body = some (text ++ x.rest.take 1) := by
      show ((x.setMark .body).mark .body).map (· ++ x.rest.take 1) = _
      rw [htext]
      rfl
    rw [setMark_of_some hsome, List.length_cons, Nat.add_comm, ← advance_advance]
    rfl

theorem readBody (hgood : x.Good len m) (hP : P x)
    (hbody : x.parser.state = .bodyIdentity ∨ x.parser.state = .chunkData) (hrest : x.rest ≠ [])
    {next : Parser → Script}
    (hbyte : ∀ n ch, { x.parser with contentLength := n }.byteScript ch =
      { x.parser with contentLength := n }.bodyByte next) :
    Ends E (fun y => P (y.advance 1))
      (x.readBody >>= fun y => y.run settings (next y.parser)) := by
  obtain ⟨o, hmarks, ho⟩ := hgood.marks_body (by obtain hs | hs := hbody <;> rw [hs] <;> rfl)
  have hlength : x.parser.contentLength ≠ 0 ∧ x.parser.contentLength ≠ ullongMax := by
    obtain hs | hs := hbody
    · exact hgood.valid.bodyIdentity_length hs
    · exact (hgood.valid.chunkData_length hs).2
  have hmax := hgood.valid.length
  obtain ⟨n, hn⟩ : ∃ n, min x.parser.contentLength x.rest.length = n + 1 := by
    refine Nat.exists_eq_succ_of_ne_zero ?_
    have hpos := List.length_pos_iff.mpr hrest
    omega
  obtain ⟨ch, tail, htail⟩ : ∃ ch tail, x.rest.drop n = ch :: tail := by
    refine List.exists_cons_of_ne_nil ?_
    rw [ne_eq, List.drop_eq_nil_iff]
    omega
  have htake : (x.rest.take n).length = n := by
    rw [List.length_take]
    omega
  have hread : x.readBody = .ok ({ x.setMark .body with
      parser := { x.parser with contentLength := x.parser.contentLength - (n + 1) } }.advance n) := by
    rw [Exec.readBody, if_neg (by simp [hlength]), hn]
    rfl
  have hsplit : x.rest = x.rest.take n ++ (ch :: tail) := by rw [← htail, List.take_append_drop]
  obtain ⟨z, o', hz, hzvalid, hzmarks, hzo, hzrest, hzparser, hzmark⟩ :=
    h.body hP hgood.valid hmarks ho hbody (show (x.rest.take n).length < _ by omega) hsplit
  rw [htake] at hzparser hzmark
  have hstate : z.parser.state = x.parser.state := by rw [hzparser]
  have hfits : z.parser.state.Fits o' := by
    rw [hstate]
    obtain hs | hs := hbody <;> rw [hs] <;> exact hzo.imp id fun h => ⟨rfl, h⟩
  have hnot : z.parser.state ≠ .chunkSizeStart := by
    rw [hstate]
    obtain hs | hs := hbody <;> simp [hs]
  have hlast := h.byte z o' ch tail hz hzvalid hzmarks hfits (fun heq => absurd heq hnot) hzrest
  have hleft : x.parser.contentLength - n ≠ 0 ∧ x.parser.contentLength - n ≠ ullongMax := by omega
  have hscript : z.parser.byteScript ch =
      .mark .body (next { x.parser with contentLength := x.parser.contentLength - (n + 1) }) := by
    rw [hzparser, hbyte, Parser.bodyByte, Script.assert, if_pos (by simpa using hleft)]
    rfl
  rw [hscript, Exec.run, hzmark] at hlast
  rw [hread]
  change Ends E _ (Exec.run settings ({ x.setMark .body with
    parser := { x.parser with contentLength := x.parser.contentLength - (n + 1) } }.advance n)
      (next { x.parser with contentLength := x.parser.contentLength - (n + 1) }))
  rw [← run_setParser _ _ { x.parser with contentLength := x.parser.contentLength - n }]
  exact hlast

theorem bodyIdentityEof {text : List UInt8} (hP : P x) (hvalid : x.parser.Valid)
    (hmarks : x.Marks o) (ho : o = none ∨ o = some .body)
    (hs : x.parser.state = .bodyIdentityEof) (htext : x.rest = text) (hne : text ≠ []) :
    P ((x.setMark .body).advance text.length) := by
  induction text generalizing x o with
  | nil => exact absurd rfl hne
  | cons ch rest ih =>
    have hscript : x.parser.byteScript ch = .mark .body (.next x.parser) := by
      simp [Parser.byteScript, hs]
    have hfits : x.parser.state.Fits o := by
      rw [hs]
      exact ho.imp id fun h => ⟨rfl, h⟩
    have hbyte := h.byte x o ch rest hP hvalid hmarks hfits (by simp [hs]) htext
    rw [hscript] at hbyte
    have hnext : P ((x.setMark .body).advance 1) := hbyte
    by_cases hrest : rest = []
    · subst hrest
      exact hnext
    · have hmarks' := hmarks.setMark ho
      obtain ⟨mark, hmark⟩ := hmarks'.mark_some
      have hmore := ih hnext hvalid (hmarks'.advance 1) (.inr rfl) hs
        (by simp [advance, setMark, htext]) hrest
      have hsome : ((x.setMark .body).advance 1).mark .body = some (mark ++ x.rest.take 1) := by
        show ((x.setMark .body).mark .body).map (· ++ x.rest.take 1) = _
        rw [hmark]
        rfl
      rw [setMark_of_some hsome, advance_advance] at hmore
      rwa [List.length_cons, Nat.add_comm]

/-- The case of the loop for one byte. -/
theorem step (hsize : len + httpMaxHeaderSize < 2 ^ 32) (hgood : x.Good len m) {n : ℕ}
    (hn : x.parser.state = .chunkSizeStart → n = 1)
    (hmax : x.parser.state = .headerValue → n ≤ httpMaxHeaderSize) (hP : P x) {ch : UInt8}
    {rest : List UInt8} (hrest : x.rest = ch :: rest) :
    Ends E (fun y => P (y.advance 1)) ({ x with nread := n }.step settings ch) := by
  have hne : x.rest ≠ [] := by simp [hrest]
  have hcounted : P { x with nread := n } := h.nread x n hP
  by_cases hloops : x.parser.state.loops = true
  · have hgood : { x with nread := n }.Good len m := by
      refine ⟨hgood.valid, hgood.marks, ?_, hgood.position, hgood.left⟩
      intro hs
      simp [show x.parser.state = _ from hs, ParserState.loops] at hloops
    unfold Exec.step
    cases hs : x.parser.state with
    | headerField => exact h.headerField hgood hs hcounted
    | headerValue => exact h.headerValue hsize hgood (hmax hs) hs hcounted
    | bodyIdentity =>
      dsimp only
      rw [bodyIdentity_eq]
      apply h.readBody hgood hcounted (.inl hs) hne
      intro n ch
      simp [Parser.byteScript, hs]
    | chunkData =>
      dsimp only
      rw [chunkData_eq (x := { x with nread := n }) settings (hgood.valid.chunkData_length hs).1]
      apply h.readBody hgood hcounted (.inr hs) hne
      intro n ch
      simp [Parser.byteScript, hs]
    | bodyIdentityEof =>
      obtain ⟨o, hmarks, ho⟩ := hgood.marks_body (by rw [hs]; rfl)
      have hall := h.bodyIdentityEof hcounted hgood.valid hmarks ho hs rfl hne
      have hlength : x.rest.length - 1 + 1 = x.rest.length := by simp [hrest]
      show P (((({ x with nread := n }).setMark .body).advance (x.rest.length - 1)).advance 1)
      rwa [advance_advance, hlength]
    | _ =>
      rw [hs] at hloops
      cases hloops
  · obtain ⟨o, hmarks, hfits⟩ := hgood.marks
    have hswitch (x : Exec D) (hx : ¬ x.parser.state.loops = true) :
        x.step settings ch = x.run settings (x.parser.byteScript ch) := by
      unfold Exec.step Parser.byteScript
      cases hs : x.parser.state <;> simp_all [ParserState.loops]
    rw [hswitch { x with nread := n } hloops]
    exact h.byte { x with nread := n } o ch rest hcounted hgood.valid hmarks hfits hn hrest

/-- What every script keeps, byte by byte, the loop keeps. -/
theorem loop (hsize : len + httpMaxHeaderSize < 2 ^ 32) (hgood : x.Good len m) (hP : P x) :
    Ends E (fun y => y.Good len 0 ∧ P y) (x.loop settings m) := by
  induction m generalizing x with
  | zero => exact ⟨hgood, hP⟩
  | succ m ih =>
    unfold Exec.loop
    split
    · rename_i hrest
      exact ⟨⟨hgood.valid, hgood.marks, hgood.nread, hgood.position, by simp [hrest]⟩, hP⟩
    · rename_i ch rest hrest
      have hcount : Ends E (fun y => ∃ n, (x.parser.state = .chunkSizeStart → n = 1) ∧
          (x.parser.state = .headerValue → n ≤ httpMaxHeaderSize) ∧ y = { x with nread := n })
          x.countByte := by
        unfold countByte
        split
        · unfold countHeaderSize
          dsimp only
          split_ifs with hover
          · exact h.refused x _ _ hP (.inl rfl)
          · refine ⟨_, ?_, fun _ => not_lt.mp hover, rfl⟩
            intro hs
            rw [hgood.nread hs]
            rfl
        · rename_i hheader
          refine ⟨x.nread, ?_, ?_, rfl⟩ <;> intro hs <;> rw [hs] at hheader <;>
            exact absurd rfl hheader
      apply hcount.bind
      rintro _ ⟨n, hn, hmax, rfl⟩
      have hstep := (step_ends settings hgood hn (by simp [hrest]) ch).and
        (h.step hsize hgood hn hmax hP hrest)
      apply (hstep.imp (fun _ hs => hs.2) fun _ hy => hy).bind
      rintro y ⟨hgood, hy⟩
      exact ih (hgood.advance 1) hy

end ByteRule

end Exec

end LibraCore.Http
