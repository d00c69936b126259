import LibraCore.Http.ParserSafety

/-!
# Calls of `http_parser_execute`

Every call leaves a parser that can go on, or one that is in an error state for good. It
consumes the whole buffer unless it reports an error or an upgrade.

## Main results

- `ready_of_reachable` — what the parser is like between two calls
- `execute_reachable` — no call of a run faults
-/

namespace LibraCore.Http

/-- A parser between two calls: it can go on once it is no longer paused, or it is in an
error state. -/
def ParserObj.Ready (parser : ParserObj) : Prop :=
  (parser.httpErrno ≠ .ok ∧ parser.httpErrno ≠ .paused) ∨
    ({ parser.toParser with httpErrno := .ok }.Valid ∧
      (parser.state = .chunkSizeStart → parser.nread = 0))

theorem Parser.Valid.bodyIdentity_length {c : Parser} (h : c.Valid) (hs : c.state = .bodyIdentity) :
    c.contentLength ≠ 0 ∧ c.contentLength ≠ ullongMax := by
  have hstate := h.state
  rwa [Parser.StateValid, hs] at hstate

theorem Parser.Valid.chunkData_length {c : Parser} (h : c.Valid) (hs : c.state = .chunkData) :
    c.flags.chunked = true ∧ c.contentLength ≠ 0 ∧ c.contentLength ≠ ullongMax := by
  have hstate := h.state
  rwa [Parser.StateValid, hs] at hstate

theorem Parser.Valid.with_ok {c : Parser} (h : c.Valid) : { c with httpErrno := .ok }.Valid := by
  have hsame : { c with httpErrno := .ok } = c := by rw [← h.errno]
  rwa [hsame]

namespace Exec

variable {D : Type}

/-- How a call may end before the buffer of `len` bytes does. -/
def StopsWell (len : ℕ) : ParserStop D → Prop
  | .returned n parser _ => parser.Ready ∧ n ≤ len ∧ (parser.httpErrno = .ok → parser.upgrade = true)
  | .fault _ => False

/-- A part of a call: it goes on in a state of `Q`, or it stops as `E` says. -/
def Ends (E : ParserStop D → Prop) (Q : Exec D → Prop) : Except (ParserStop D) (Exec D) → Prop
  | .ok x => Q x
  | .error s => E s

section Ends

variable {E F : ParserStop D → Prop} {Q R : Exec D → Prop} {m : Except (ParserStop D) (Exec D)}

theorem Ends.bind {f : Exec D → Except (ParserStop D) (Exec D)} (h : Ends E Q m)
    (hf : ∀ x, Q x → Ends E R (f x)) : Ends E R (m >>= f) := by
  cases m with
  | ok x => exact hf x h
  | error s => exact h

theorem Ends.imp (h : Ends E Q m) (hE : ∀ s, E s → F s) (hQ : ∀ x, Q x → R x) : Ends F R m := by
  cases m with
  | ok x => exact hQ x h
  | error s => exact hE s h

theorem Ends.mono (h : Ends E Q m) (hQ : ∀ x, Q x → R x) : Ends E R m := h.imp (fun _ hs => hs) hQ

theorem Ends.and (h : Ends E Q m) (h' : Ends F R m) :
    Ends (fun s => E s ∧ F s) (fun x => Q x ∧ R x) m := by
  cases m <;> exact ⟨h, h'⟩

end Ends

/-- The mark that is open. -/
def Marks (x : Exec D) (o : Option DataField) : Prop := ∀ f, (x.mark f).isSome = true ↔ o = some f

/-- What the loop keeps, in a buffer of `len` bytes of which at most `m` are left. -/
structure Good (len m : ℕ) (x : Exec D) : Prop where
  valid : x.parser.Valid
  marks : ∃ o, x.Marks o ∧ x.parser.state.Fits o
  nread : x.parser.state = .chunkSizeStart → x.nread = 0
  position : x.position + x.rest.length = len
  left : x.rest.length ≤ m

variable {len m : ℕ} {x : Exec D} {o : Option DataField} {k : Option ℕ}

/-! ### Marks and positions -/

theorem Marks.update_none (h : x.Marks o) {f : DataField} (ho : o = none ∨ o = some f) :
    { x with mark := Function.update x.mark f none }.Marks none := by
  intro g
  by_cases hg : g = f
  · subst hg
    simp
  · have hnot : ¬ (x.mark g).isSome = true := by
      rw [h g]
      rintro rfl
      obtain hnone | hsome := ho
      · cases hnone
      · exact hg (Option.some.inj hsome)
    simp only [Function.update_of_ne hg]
    exact iff_of_false hnot nofun

theorem Marks.setMark (h : x.Marks o) {f : DataField} (ho : o = none ∨ o = some f) :
    (x.setMark f).Marks (some f) := by
  intro g
  by_cases hg : g = f
  · subst hg
    simp [Exec.setMark]
  · have hnone := h.update_none ho g
    simp only [Function.update_of_ne hg] at hnone
    simp only [Exec.setMark, Function.update_of_ne hg, hnone]
    exact iff_of_false nofun fun heq => hg (Option.some.inj heq).symm

theorem Marks.advance (h : x.Marks o) (n : ℕ) : (x.advance n).Marks o := by
  intro f
  rw [← h f, Exec.advance, Option.isSome_map]

theorem position_advance (h : x.position + x.rest.length = len) (n : ℕ) :
    (x.advance n).position + (x.advance n).rest.length = len := by
  simp only [Exec.advance, List.length_take, List.length_drop]
  omega

theorem Good.advance (h : x.Good len m) (n : ℕ) : (x.advance n).Good len (m - n) := by
  obtain ⟨o, hmarks, hfits⟩ := h.marks
  refine ⟨h.valid, ⟨o, hmarks.advance n, hfits⟩, h.nread, position_advance h.position n, ?_⟩
  have hleft := h.left
  simp only [Exec.advance, List.length_drop]
  omega

/-- The bytes up to `rest` are passed over. -/
theorem advance_to {run rest : List UInt8} (h : x.rest = run ++ rest) :
    x.advance (x.rest.length - rest.length) =
      { x with
        mark := fun f => (x.mark f).map (· ++ run)
        position := x.position + run.length
        rest := rest } := by
  have hlength : x.rest.length - rest.length = run.length := by
    rw [h, List.length_append]
    omega
  have htake : x.rest.take run.length = run := by rw [h, List.take_left]
  have hdrop : x.rest.drop run.length = rest := by rw [h, List.drop_left]
  simp only [Exec.advance, hlength, htake, hdrop]

theorem length_le_of_append {run rest : List UInt8} (hleft : x.rest.length ≤ m)
    (h : x.rest = run ++ rest) : rest.length ≤ m := by
  rw [h, List.length_append] at hleft
  omega

/-! ### Counters and callbacks -/

theorem countHeaderSize_ends (hposition : x.position ≤ len) (n : ℕ) :
    Ends (StopsWell len) (fun y => y = { x with nread := (x.nread + n) % 2 ^ 32 }) (x.countHeaderSize n) := by
  rw [countHeaderSize]
  dsimp only
  split
  · exact ⟨.inl ⟨nofun, nofun⟩, hposition, nofun⟩
  · rfl

theorem afterCallback_ends (h : x.parser.Valid)
    (hread : x.parser.state = .chunkSizeStart → x.nread = 0) {er : ℕ} (her : x.position + er ≤ len)
    (e : HttpErrno) : Ends (StopsWell len) (· = x) (x.afterCallback e er) := by
  rw [afterCallback]
  split
  · exact ⟨.inr ⟨h.with_ok, hread⟩, her, fun herrno => absurd herrno ‹_›⟩
  · rfl

variable (settings : ParserSettings D)

theorem callbackNotify_ends (h : x.parser.Valid)
    (hread : x.parser.state = .chunkSizeStart → x.nread = 0) {er : ℕ} (her : x.position + er ≤ len)
    (n : Notice) :
    Ends (StopsWell len) (fun y => ∃ app, y = { x with app := app }) (x.callbackNotify settings n er) := by
  rw [callbackNotify, if_neg (not_not_intro h.errno)]
  split
  · exact ⟨x.app, rfl⟩
  · rename_i callback _
    exact (afterCallback_ends (x := { x with app := (callback x.parser x.app).2 }) h hread her _).mono
      fun y hy => ⟨_, hy⟩

theorem callbackData_ends (h : x.parser.Valid)
    (hread : x.parser.state = .chunkSizeStart → x.nread = 0) {er : ℕ} (her : x.position + er ≤ len)
    (f : DataField) (last : Bool) :
    Ends (StopsWell len) (fun y => ∃ app, y = { x with app := app, mark := Function.update x.mark f none })
      (x.callbackData settings f last er) := by
  rw [callbackData, if_neg (not_not_intro h.errno)]
  split
  · rename_i hnone
    refine ⟨x.app, ?_⟩
    rw [← hnone, Function.update_eq_self]
  · split
    · exact ⟨x.app, rfl⟩
    · rename_i text _ _ callback _
      dsimp only
      apply Ends.bind
      · exact afterCallback_ends (x := { x with
          app := (callback x.parser ⟨text ++ x.rest.take (if last then 1 else 0),
            x.rest.drop (if last then 1 else 0)⟩ x.app).2 }) h hread her _
      · rintro y rfl
        exact ⟨_, rfl⟩

theorem callbackHeadersComplete_ends (h : x.parser.Valid) (hs : x.parser.state = .headersDone)
    (hposition : x.position ≤ len) :
    Ends (StopsWell len) (fun y => ∃ app d, y = { x with app := app, parser := d } ∧ d.Valid ∧
      d.state = .headersDone) (x.callbackHeadersComplete settings) := by
  have hafter {app : D} {d : Parser} (hd : d.Valid) (hstate : d.state = .headersDone)
      (e : HttpErrno) :
      Ends (StopsWell len) (fun y => ∃ app d, y = { x with app := app, parser := d } ∧ d.Valid ∧
        d.state = .headersDone) ({ x with app := app, parser := d }.afterCallback e 0) := by
    have hread : d.state = .chunkSizeStart → x.nread = 0 := by
      rw [hstate]
      nofun
    refine (afterCallback_ends (x := { x with app := app, parser := d }) hd hread ?_ e).mono
      fun y hy => ⟨app, d, hy, hd, hstate⟩
    exact hposition
  have hfree : x.parser.state.free = true := by rw [hs]; rfl
  rw [callbackHeadersComplete]
  split
  · exact ⟨x.app, x.parser, rfl, h, hs⟩
  · rename_i callback _
    dsimp only
    generalize hanswer : callback x.parser x.app = answer
    by_cases hzero : answer.1.value = 0
    · rw [if_pos hzero]
      exact hafter h hs _
    by_cases hone : answer.1.value = 1
    · rw [if_neg hzero, if_pos hone]
      apply hafter
      · exact .of_free h.errno h.length hfree
      · exact hs
    by_cases htwo : answer.1.value = 2
    · rw [if_neg hzero, if_neg hone, if_pos htwo]
      apply hafter
      · exact .of_free h.errno h.length hfree
      · exact hs
    · rw [if_neg hzero, if_neg hone, if_neg htwo]
      exact hafter h hs _

/-! ### Scripts -/

/-- A script of the first byte of `x.rest` keeps the loop's invariant. -/
theorem run_ends {s : Script} (h : s.Sound o k) (hmarks : x.Marks o)
    (hread : ∀ n, k = some n → x.nread = n) (hposition : x.position + x.rest.length = len)
    (hrest : x.rest ≠ []) (hleft : x.rest.length ≤ m) :
    Ends (StopsWell len) (Good len m) (x.run settings s) := by
  have hlt : x.position + 1 ≤ len := by
    have hpos := List.length_pos_iff.mpr hrest
    omega
  induction s generalizing x o k with
  | next c =>
    obtain ⟨hvalid, hfits, hstart⟩ := h
    exact ⟨hvalid, ⟨o, hmarks, hfits⟩, fun hs => hread 0 (hstart hs), hposition, hleft⟩
  | error c e =>
    refine ⟨.inl ⟨?_, ?_⟩, by omega, ?_⟩
    all_goals
      rintro rfl
      cases h
  | exit c =>
    obtain ⟨hvalid, hstart, hupgrade, -⟩ := h
    exact ⟨.inr ⟨hvalid.with_ok, fun hs => absurd hs hstart⟩, hlt, fun _ => hupgrade⟩
  | fault f => cases h
  | mark f rest ih => exact ih h.2 (hmarks.setMark h.1) hread hposition hrest hleft hlt
  | data f c last er rest ih =>
    obtain ⟨⟨hvalid, hstart⟩, her, ho, hsound⟩ := h
    apply Ends.bind (callbackData_ends settings (x := { x with parser := c }) hvalid
      (fun hs => hread 0 (hstart hs)) (show x.position + er ≤ len by omega) f last)
    rintro y ⟨app, rfl⟩
    exact ih hsound (hmarks.update_none ho) hread hposition hrest hleft hlt
  | notify n c er rest ih =>
    obtain ⟨⟨hvalid, hstart⟩, her, rfl, hsound⟩ := h
    apply Ends.bind (callbackNotify_ends settings (x := { x with parser := c }) hvalid
      (fun hs => hread 0 (hstart hs)) (show x.position + er ≤ len by omega) n)
    rintro y ⟨app, rfl⟩
    exact ih hsound hmarks hread hposition hrest hleft hlt
  | headersComplete c rest ih =>
    obtain ⟨hvalid, hs, rfl, hsound⟩ := h
    apply Ends.bind (callbackHeadersComplete_ends settings (x := { x with parser := c }) hvalid hs
      (show x.position ≤ len by omega))
    rintro y ⟨app, d, rfl, hd, hstate⟩
    exact ih d (hsound d hd hstate) hmarks hread hposition hrest hleft hlt
  | resetRead rest ih =>
    exact ih h hmarks (fun n hn => Option.some.inj hn) hposition hrest hleft hlt
  | assertRead n rest ih =>
    rw [Exec.run, if_pos (hread n h.1)]
    exact ih h.2 hmarks hread hposition hrest hleft hlt

end Exec

/-! ### The loops over header names and values -/

namespace Parser

variable {c : Parser}

/-- A comparison moves the index and may change the header state. -/
theorem matchChar_eq (c : Parser) (name : List UInt8) (found other : HeaderState) (ch : UInt8) :
    ∃ i hs, c.matchChar name found other ch = { c with index := i, headerState := hs } ∧
      (hs = c.headerState ∨ hs = found ∨ hs = other) := by
  rw [matchChar]
  dsimp only
  split_ifs
  · exact ⟨_, _, rfl, .inr (.inr rfl)⟩
  · exact ⟨_, _, rfl, .inr (.inl rfl)⟩
  · exact ⟨_, _, rfl, .inl rfl⟩

/-- A parser in a header name. -/
def InName (c : Parser) : Prop := c.Valid ∧ c.state = .headerField

theorem InName.of_ofName {d : Parser} (herrno : d.httpErrno = .ok)
    (hlength : d.contentLength ≤ ullongMax) (hs : d.state = .headerField)
    (hname : d.headerState.ofName = true) : d.InName := by
  refine ⟨⟨herrno, hlength, ?_⟩, hs⟩
  rwa [StateValid, hs]

theorem InName.ofName (h : c.InName) : c.headerState.ofName = true := by
  have hstate := h.1.state
  rwa [StateValid, h.2] at hstate

theorem InName.fieldChar (h : c.InName) (ch t : UInt8) :
    ∃ d, c.fieldChar ch t = some d ∧ d.InName := by
  have hname := h.ofName
  have hset {i : ℕ} {hst : HeaderState} (hof : hst.ofName = true) :
      { c with index := i, headerState := hst }.InName :=
    .of_ofName h.1.errno h.1.length h.2 hof
  have hmatch (name : List UInt8) {found : HeaderState} (hfound : found.ofName = true) :
      (c.matchChar name found .general t).InName := by
    obtain ⟨i, hst, heq, hcase⟩ := c.matchChar_eq name found .general t
    rw [heq]
    apply hset
    obtain rfl | rfl | rfl := hcase
    · exact hname
    · exact hfound
    · rfl
  rw [Parser.fieldChar]
  cases hstate : c.headerState with
  | general => exact ⟨c, rfl, h⟩
  | c | co | con =>
    refine ⟨_, rfl, hset ?_⟩
    split_ifs <;> rfl
  | matchingConnection | matchingProxyConnection | matchingContentLength
  | matchingTransferEncoding | matchingUpgrade => exact ⟨_, rfl, hmatch _ rfl⟩
  | connection | contentLength | transferEncoding | upgrade =>
    refine ⟨_, rfl, ?_⟩
    split_ifs
    · exact hset rfl
    · exact h
  | _ =>
    rw [hstate] at hname
    cases hname

theorem InName.fieldScan (h : c.InName) (text : List UInt8) :
    ∃ d run rest, c.fieldScan text = some (d, rest) ∧ d.InName ∧ text = run ++ rest := by
  induction text generalizing c with
  | nil => exact ⟨c, [], [], rfl, h, rfl⟩
  | cons ch text ih =>
    rw [Parser.fieldScan]
    split
    · exact ⟨c, [], ch :: text, rfl, h, rfl⟩
    · obtain ⟨d, hchar, hd⟩ := h.fieldChar ch (token ch)
      obtain ⟨e, run, rest, hscan, he, htext⟩ := ih hd
      refine ⟨e, ch :: run, rest, ?_, he, congrArg (ch :: ·) htext⟩
      rw [hchar]
      exact hscan

/-- A parser in a header value. -/
def InValue (c : Parser) : Prop := c.Valid ∧ c.state = .headerValue

theorem InValue.of_ofValue {d : Parser} (herrno : d.httpErrno = .ok)
    (hlength : d.contentLength ≤ ullongMax) (hs : d.state = .headerValue)
    (hvalue : d.headerState.ofValue = true) : d.InValue := by
  refine ⟨⟨herrno, hlength, ?_⟩, hs⟩
  rwa [StateValid, hs]

theorem InValue.ofValue (h : c.InValue) : c.headerState.ofValue = true := by
  have hstate := h.1.state
  rwa [StateValid, h.2] at hstate

theorem InValue.valueChar (h : c.InValue) (ch : UInt8) :
    (∃ d, c.valueChar ch = .ok d ∧ d.InValue) ∨
      c.valueChar ch = .error (.error c .invalidContentLength) := by
  have herrno := h.1.errno
  have hlength := h.1.length
  have hs := h.2
  have hvalue := h.ofValue
  have hset {i : ℕ} {hst : HeaderState} (hof : hst.ofValue = true) :
      { c with index := i, headerState := hst }.InValue :=
    .of_ofValue herrno hlength hs hof
  have hmatch (name : List UInt8) {found other : HeaderState} (hfound : found.ofValue = true)
      (hother : other.ofValue = true) : (c.matchChar name found other (lower ch)).InValue := by
    obtain ⟨i, hst, heq, hcase⟩ := c.matchChar_eq name found other (lower ch)
    rw [heq]
    apply hset
    obtain rfl | rfl | rfl := hcase
    · exact hvalue
    · exact hfound
    · exact hother
  rw [Parser.valueChar]
  cases hstate : c.headerState with
  | connection | transferEncoding =>
    rw [hstate] at hvalue
    cases hvalue
  | contentLength =>
    dsimp only
    split_ifs
    · exact .inl ⟨c, rfl, h⟩
    · exact .inr rfl
    · refine .inl ⟨_, rfl, .of_ofValue herrno ?_ hs rfl⟩
      have hmod := Nat.mod_lt (c.contentLength * 10 + (ch.toNat - 48)) (show 0 < 2 ^ 64 by decide)
      show _ % 2 ^ 64 ≤ ullongMax
      rw [ullongMax]
      omega
  | matchingTransferEncodingChunked | matchingConnectionKeepAlive | matchingConnectionClose
  | matchingConnectionUpgrade => exact .inl ⟨_, rfl, hmatch _ rfl rfl⟩
  | matchingConnectionTokenStart =>
    refine .inl ⟨_, rfl, ?_⟩
    split_ifs
    · exact hset rfl
    · exact hset rfl
    · exact hset rfl
    · exact hset rfl
    · exact h
    · exact hset rfl
  | matchingConnectionToken | transferEncodingChunked =>
    refine .inl ⟨_, rfl, ?_⟩
    split_ifs
    · exact hset rfl
    · exact h
  | connectionKeepAlive | connectionClose | connectionUpgrade =>
    refine .inl ⟨_, rfl, ?_⟩
    obtain ⟨flags, hflags⟩ := c.finishHeader_eq
    rw [hflags]
    split_ifs
    · exact .of_ofValue herrno hlength hs rfl
    · exact hset rfl
    · exact h
  | _ => exact .inl ⟨_, rfl, .of_ofValue herrno hlength rfl rfl⟩

theorem skipValue_suffix (text : List UInt8) : skipValue text <:+ text := by
  unfold skipValue
  dsimp only
  split
  · exact List.drop_suffix _ _
  · exact List.nil_suffix

/-- The loop of `s_header_value` ends at the end of the buffer or of the line, or with an
error at some byte. -/
theorem InValue.valueScan (h : c.InValue) (before : HeaderState) (text : List UInt8) :
    ∃ d run rest stopped, c.valueScan before text = (d, rest, stopped) ∧ d.InValue ∧
      text = run ++ rest ∧
      ∀ script ∈ stopped, rest ≠ [] ∧ script.Sound (some .headerValue) none := by
  induction text generalizing c with
  | nil => exact ⟨c, [], [], none, rfl, h, rfl, nofun⟩
  | cons ch text ih =>
    rw [Parser.valueScan]
    split
    · exact ⟨c, [], ch :: text, none, rfl, h, rfl, nofun⟩
    · split
      · refine ⟨c, [], ch :: text, _, rfl, h, rfl, ?_⟩
        rintro script ⟨⟩
        exact ⟨List.cons_ne_nil _ _, rfl⟩
      · split
        · obtain ⟨run, hrun⟩ := skipValue_suffix (ch :: text)
          exact ⟨c, run, _, none, rfl, h, hrun.symm, nofun⟩
        · obtain ⟨d, hchar, hd⟩ | hchar := h.valueChar ch
          · obtain ⟨e, run, rest, stopped, hscan, he, htext, hstopped⟩ := ih hd
            refine ⟨e, ch :: run, rest, stopped, ?_, he, congrArg (ch :: ·) htext, hstopped⟩
            rw [hchar]
            exact hscan
          · rw [hchar]
            refine ⟨c, [], ch :: text, _, rfl, h, rfl, ?_⟩
            rintro script ⟨⟩
            exact ⟨List.cons_ne_nil _ _, rfl⟩

end Parser

/-! ### The loop over the buffer -/

namespace Exec

variable {D : Type} {len m : ℕ} {x : Exec D} {o : Option DataField} (settings : ParserSettings D)

/-- Where a scan of the buffer has come to. -/
structure At (len : ℕ) (d : Parser) (o : Option DataField) (rest : List UInt8) (x : Exec D) :
    Prop where
  position : x.position + rest.length = len
  parser : x.parser = d
  marks : x.Marks o
  rest : x.rest = rest

theorem Good.at (h : x.Good len m) {s : ParserState} (hs : x.parser.state = s)
    (hbody : s.inBody = false) {d : Parser} {run rest : List UInt8} (htext : x.rest = run ++ rest) :
    ({ x with parser := d }.advance (x.rest.length - rest.length)).At len d s.openMark rest := by
  obtain ⟨o, hmarks, hfits⟩ := h.marks
  obtain rfl : o = s.openMark := by
    rw [hs] at hfits
    exact hfits.elim id fun hin => absurd hin.1 (by simp [hbody])
  have hposition := position_advance h.position (x.rest.length - rest.length)
  have hrest : (x.advance (x.rest.length - rest.length)).rest = rest :=
    congrArg Exec.rest (advance_to htext)
  rw [hrest] at hposition
  exact ⟨hposition, rfl, hmarks.advance _, hrest⟩

variable {d : Parser} {rest : List UInt8}

theorem At.position_le (h : x.At len d o rest) : x.position ≤ len := by
  have hposition := h.position
  omega

theorem At.count (h : x.At len d o rest) (n : ℕ) :
    Ends (StopsWell len) (At len d o rest) (x.countHeaderSize n) := by
  apply (countHeaderSize_ends h.position_le n).mono
  rintro y rfl
  exact ⟨h.position, h.parser, h.marks, h.rest⟩

theorem At.setParser (h : x.At len d o rest) (e : Parser) :
    { x with parser := e }.At len e o rest :=
  ⟨h.position, rfl, h.marks, h.rest⟩

theorem At.good (h : x.At len d o rest) (hleft : rest.length ≤ m) (hd : d.Valid)
    (hfits : d.state.Fits o) (hs : d.state ≠ .chunkSizeStart) : x.Good len m := by
  obtain ⟨hposition, rfl, hmarks, rfl⟩ := h
  exact ⟨hd, ⟨o, hmarks, hfits⟩, fun heq => absurd heq hs, hposition, hleft⟩

/-- A script that is run where the loop has come to. -/
theorem At.run (h : x.At len d o rest) (hleft : rest.length ≤ m) (hrest : rest ≠ []) {s : Script}
    (hs : s.Sound o none) : Ends (StopsWell len) (Good len m) (x.run settings s) := by
  obtain ⟨hposition, rfl, hmarks, rfl⟩ := h
  exact run_ends settings hs hmarks nofun hposition hrest hleft

/-- `CALLBACK_DATA` of the open mark. -/
theorem At.report {f : DataField} (h : x.At len d (some f) rest) (hrest : rest ≠ []) {e : Parser}
    (he : e.Valid) (hs : e.state ≠ .chunkSizeStart) :
    Ends (StopsWell len) (At len e none rest) (x.run settings (.report f e)) := by
  have hlt : x.position + 1 ≤ len := by
    have hpos := List.length_pos_iff.mpr hrest
    have hposition := h.position
    omega
  apply Ends.bind (callbackData_ends settings (x := { x with parser := e }) he
    (fun heq => absurd heq hs) hlt f false)
  rintro y ⟨app, rfl⟩
  exact ⟨h.position, rfl, h.marks.update_none (.inr rfl), h.rest⟩

theorem headerField_ends (h : x.Good len m) (hs : x.parser.state = .headerField) :
    Ends (StopsWell len) (Good len m) (x.headerField settings) := by
  obtain ⟨d, run, rest, hscan, hd, htext⟩ := Parser.InName.fieldScan ⟨h.valid, hs⟩ x.rest
  have hleft := length_le_of_append h.left htext
  rw [headerField, hscan]
  apply Ends.bind ((h.at hs rfl htext).count _)
  intro y hy
  cases rest with
  | nil => exact hy.good hleft hd.1 (.inl (congrArg ParserState.openMark hd.2).symm) (by simp [hd.2])
  | cons ch rest =>
    apply hy.run settings hleft (List.cons_ne_nil ch rest)
    apply Script.Sound.require rfl
    intro _
    exact Parser.sound_report (Parser.sound_next hd.1.errno hd.1.length rfl rfl)

theorem headerValue_ends (h : x.Good len m) (hs : x.parser.state = .headerValue) :
    Ends (StopsWell len) (Good len m) (x.headerValue settings) := by
  obtain ⟨d, run, rest, stopped, hscan, hd, htext, hstopped⟩ :=
    Parser.InValue.valueScan ⟨h.valid, hs⟩ x.parser.headerState x.rest
  have hleft := length_le_of_append h.left htext
  have hat := h.at hs rfl htext (d := d)
  have hdone : (d.updateState .headerAlmostDone).Valid := .of_free hd.1.errno hd.1.length rfl
  rw [headerValue]
  simp only [hscan]
  split
  · obtain ⟨hne, hsound⟩ := hstopped _ rfl
    exact hat.run settings hleft hne hsound
  · apply (hat.count _).mono
    intro y hy
    exact hy.good hleft hd.1 (.inl (congrArg ParserState.openMark hd.2).symm) (by simp [hd.2])
  · rename_i ch rest
    split
    · -- the callback, and then the count
      apply (hat.report settings (List.cons_ne_nil ch rest) hdone
        (by simp [Parser.updateState])).bind
      intro y hy
      apply (hy.count _).mono
      intro z hz
      exact hz.good hleft hdone (.inl rfl) (by simp [Parser.updateState])
    · apply ((hat.setParser _).count _).bind
      intro y hy
      apply hy.run settings hleft (List.cons_ne_nil ch rest)
      refine ⟨⟨hdone, ?_⟩, by decide, .inr rfl, Parser.headerAlmostDone_sound hdone ch⟩
      simp [Parser.updateState]

/-! ### Bodies -/

/-- The bytes of a body, but for the last that is read. -/
theorem readBody_ends (h : x.Good len m) (hbody : x.parser.state.inBody = true)
    (hlength : x.parser.contentLength ≠ 0 ∧ x.parser.contentLength ≠ ullongMax)
    (hrest : x.rest ≠ []) :
    Ends (StopsWell len) (fun y => ∃ n, 0 < n ∧
      y.parser = { x.parser with contentLength := x.parser.contentLength - n } ∧
      y.Marks (some .body) ∧ y.position + y.rest.length = len ∧ y.rest.length ≤ m ∧ y.rest ≠ [])
      x.readBody := by
  obtain ⟨o, hmarks, hfits⟩ := h.marks
  have ho : o = none ∨ o = some .body := by
    refine hfits.imp (fun heq => ?_) And.right
    rw [heq]
    revert hbody
    cases x.parser.state <;> simp [ParserState.inBody, ParserState.openMark]
  have hpos := List.length_pos_iff.mpr hrest
  have hleft := h.left
  rw [readBody, if_neg (by simp [hlength])]
  refine ⟨min x.parser.contentLength x.rest.length, by omega, rfl, (hmarks.setMark ho).advance _,
    position_advance (x := x.setMark .body) h.position _, ?_, ?_⟩
  · simp only [Exec.advance, Exec.setMark, List.length_drop]
    omega
  · simp only [Exec.advance, Exec.setMark, ne_eq, List.drop_eq_nil_iff]
    omega

theorem bodyIdentity_eq (x : Exec D) :
    x.bodyIdentity settings = x.readBody >>= fun y => y.run settings y.parser.identityNext := by
  rw [bodyIdentity]
  congr 1
  funext y
  rw [Parser.identityNext, Parser.bodyNext]
  split <;> rfl

theorem chunkData_eq (hchunked : x.parser.flags.chunked = true) :
    x.chunkData = x.readBody >>= fun y => y.run settings y.parser.chunkNext := by
  rw [chunkData, if_neg (by simp [hchunked])]
  congr 1
  funext y
  rw [Parser.chunkNext, Parser.bodyNext]
  split <;> rfl

theorem bodyIdentity_ends (h : x.Good len m) (hs : x.parser.state = .bodyIdentity)
    (hrest : x.rest ≠ []) : Ends (StopsWell len) (Good len m) (x.bodyIdentity settings) := by
  have hlength := h.valid.bodyIdentity_length hs
  have hmax := h.valid.length
  rw [bodyIdentity_eq]
  apply (readBody_ends h (by rw [hs]; rfl) hlength hrest).bind
  rintro y ⟨n, hn, hparser, hmarks, hposition, hleft, hne⟩
  have hsound : y.parser.identityNext.Sound (some .body) none := by
    rw [hparser]
    exact Parser.identityNext_sound h.valid.errno
      (show x.parser.contentLength - n < ullongMax by omega) hs
  exact run_ends settings hsound hmarks (by simp) hposition hne hleft

include settings in
theorem chunkData_ends (h : x.Good len m) (hs : x.parser.state = .chunkData)
    (hrest : x.rest ≠ []) : Ends (StopsWell len) (Good len m) x.chunkData := by
  obtain ⟨hchunked, hlength⟩ := h.valid.chunkData_length hs
  have hmax := h.valid.length
  rw [chunkData_eq settings hchunked]
  apply (readBody_ends h (by rw [hs]; rfl) hlength hrest).bind
  rintro y ⟨n, hn, hparser, hmarks, hposition, hleft, hne⟩
  have hsound : y.parser.chunkNext.Sound (some .body) none := by
    rw [hparser]
    exact Parser.chunkNext_sound h.valid.errno
      (show x.parser.contentLength - n < ullongMax by omega) hs hchunked
  exact run_ends settings hsound hmarks (by simp) hposition hne hleft

/-! ### The loop -/

/-- The case of the loop for one byte, which has been counted. -/
theorem step_ends (h : x.Good len m) {n : ℕ} (hn : x.parser.state = .chunkSizeStart → n = 1)
    (hrest : x.rest ≠ []) (ch : UInt8) :
    Ends (StopsWell len) (Good len m) ({ x with nread := n }.step settings ch) := by
  by_cases hloops : x.parser.state.loops = true
  · have hcounted : { x with nread := n }.Good len m := by
      refine ⟨h.valid, h.marks, ?_, h.position, h.left⟩
      intro hs
      simp [show x.parser.state = _ from hs, ParserState.loops] at hloops
    rw [step]
    cases hs : x.parser.state with
    | headerField => exact headerField_ends settings hcounted hs
    | headerValue => exact headerValue_ends settings hcounted hs
    | bodyIdentity => exact bodyIdentity_ends settings hcounted hs hrest
    | chunkData => exact chunkData_ends settings hcounted hs hrest
    | bodyIdentityEof =>
      obtain ⟨o, hmarks, hfits⟩ := h.marks
      have ho : o = none ∨ o = some .body := by
        rw [hs] at hfits
        exact hfits.imp id And.right
      refine ⟨h.valid, ⟨_, (hmarks.setMark ho).advance _, ?_⟩, ?_, ?_, ?_⟩
      · exact .inr ⟨congrArg ParserState.inBody hs, rfl⟩
      · intro heq
        simp [show x.parser.state = _ from heq] at hs
      · exact position_advance (x := x.setMark .body) h.position _
      · have hleft := h.left
        simp only [Exec.advance, Exec.setMark, List.length_drop]
        omega
    | _ =>
      rw [hs] at hloops
      cases hloops
  · obtain ⟨o, hmarks, hfits⟩ := h.marks
    have hstep : { x with nread := n }.step settings ch =
        { x with nread := n }.run settings (x.parser.switch ch) := by
      rw [step]
      cases hs : x.parser.state <;> simp_all [ParserState.loops]
    rw [hstep]
    have hsound := Parser.switch_sound (k := if x.parser.state = .chunkSizeStart then some 1 else none)
      h.valid ch hfits (fun hs => if_pos hs) (Bool.eq_false_iff.mpr hloops)
    refine run_ends settings hsound hmarks ?_ h.position hrest h.left
    intro i hi
    split at hi
    · rw [← Option.some.inj hi]
      exact hn ‹_›
    · cases hi

theorem loop_ends (h : x.Good len m) :
    Ends (StopsWell len) (fun y => y.Good len 0) (x.loop settings m) := by
  induction m generalizing x with
  | zero => exact h
  | succ m ih =>
    rw [loop]
    split
    · rename_i hrest
      exact ⟨h.valid, h.marks, h.nread, h.position, by simp [hrest]⟩
    · rename_i ch rest hrest
      have hne : x.rest ≠ [] := by simp [hrest]
      have hposition := h.position
      apply Ends.bind (Q := fun y => ∃ n, (x.parser.state = .chunkSizeStart → n = 1) ∧
        y = { x with nread := n })
      · rw [countByte]
        split
        · apply (countHeaderSize_ends (by omega) 1).mono
          rintro y rfl
          refine ⟨_, ?_, rfl⟩
          intro hs
          rw [h.nread hs]
          rfl
        · refine ⟨x.nread, ?_, rfl⟩
          intro hs
          rename_i hheader
          rw [hs] at hheader
          exact absurd rfl hheader
      · rintro y ⟨n, hn, rfl⟩
        apply (step_ends settings h hn hne ch).bind
        intro y hy
        exact ih (hy.advance 1)

/-! ### The end of the buffer -/

/-- There is at most one mark. -/
theorem Marks.countP_le (h : x.Marks o) :
    [DataField.headerField, .headerValue, .url, .body, .status].countP
      (fun f => (x.mark f).isSome) ≤ 1 := by
  have hmark (f : DataField) : (x.mark f).isSome = decide (o = some f) := by
    rw [Bool.eq_iff_iff, decide_eq_true_iff]
    exact h f
  simp only [hmark]
  cases o with
  | none => simp
  | some f => cases f <;> decide

/-- The callbacks after the loop leave the parser as it is. -/
theorem flush_ends (h : x.Good len 0) :
    Ends (StopsWell len) (fun y => y.parser.Valid ∧ (y.parser.state = .chunkSizeStart → y.nread = 0))
      (x.flush settings) := by
  obtain ⟨o, hmarks, -⟩ := h.marks
  have hposition : x.position ≤ len := by
    have hposition := h.position
    omega
  have hdata (f : DataField) {y : Exec D}
      (hy : y.parser = x.parser ∧ y.nread = x.nread ∧ y.position = x.position) :
      Ends (StopsWell len) (fun z => z.parser = x.parser ∧ z.nread = x.nread ∧ z.position = x.position)
        (y.callbackData settings f false 0) := by
    obtain ⟨hparser, hnread, hpos⟩ := hy
    apply (callbackData_ends settings (x := y) (by rw [hparser]; exact h.valid)
      (by rw [hparser, hnread]; exact h.nread) (by omega) f false).mono
    rintro z ⟨app, rfl⟩
    exact ⟨hparser, hnread, hpos⟩
  unfold flush
  dsimp only
  rw [if_neg (Nat.not_lt.mpr hmarks.countP_le)]
  apply (hdata .headerField ⟨rfl, rfl, rfl⟩).bind
  intro y₁ hy₁
  apply (hdata .headerValue hy₁).bind
  intro y₂ hy₂
  apply (hdata .url hy₂).bind
  intro y₃ hy₃
  apply (hdata .body hy₃).bind
  intro y₄ hy₄
  apply (hdata .status hy₄).mono
  rintro z ⟨hparser, hnread, -⟩
  rw [hparser, hnread]
  exact ⟨h.valid, h.nread⟩

end Exec

/-! ### Calls -/

namespace ParserObj

variable {D : Type} {parser : ParserObj} (settings : ParserSettings D) (app : D)

/-- What is asked of a call: it returns, and the parser can be used again. -/
structure Returns (parser : ParserObj) (app : D) (data : List UInt8) (r : Executed D) : Prop where
  executed : parser.execute settings app data = .ok r
  ready : r.parser.Ready
  nparsed_le : data ≠ [] → r.nparsed ≤ data.length
  /-- a call that stops early says why -/
  nparsed_eq : data ≠ [] → r.parser.httpErrno = .ok → r.parser.upgrade = false →
    r.nparsed = data.length

theorem start_marks (data : List UInt8) :
    (parser.start app data).Marks parser.state.openMark := by
  intro f
  rw [start]
  dsimp only
  split
  · exact iff_of_true rfl ‹_›
  · exact iff_of_false nofun ‹_›

theorem start_good {data : List UInt8} (hvalid : parser.toParser.Valid)
    (hread : parser.state = .chunkSizeStart → parser.nread = 0) :
    (parser.start app data).Good data.length data.length :=
  ⟨hvalid, ⟨parser.state.openMark, start_marks app data, .inl rfl⟩, hread, Nat.zero_add _, le_rfl⟩

/-- What `finish` makes of a call that ends well. -/
theorem finish_ends {len : ℕ} {m : Except (ParserStop D) (Exec D)}
    (h : Exec.Ends (Exec.StopsWell len) (fun y => y.parser.Valid ∧
      (y.parser.state = .chunkSizeStart → y.nread = 0)) m) {n : ℕ} (hn : n ≤ len) :
    ∃ r, finish n m = .ok r ∧ r.parser.Ready ∧ r.nparsed ≤ len ∧
      (r.parser.httpErrno = .ok → r.parser.upgrade = false → r.nparsed = n) := by
  cases m with
  | ok y => exact ⟨_, rfl, .inr ⟨h.1.with_ok, h.2⟩, hn, fun _ _ => rfl⟩
  | error s =>
    cases s with
    | returned n' parser app =>
      obtain ⟨hready, hle, hupgrade⟩ := h
      refine ⟨_, rfl, hready, hle, ?_⟩
      intro herrno hnot
      rw [hupgrade herrno] at hnot
      cases hnot
    | fault f => cases h

theorem executeEof_ok (hvalid : parser.toParser.Valid)
    (hread : parser.state = .chunkSizeStart → parser.nread = 0) :
    ∃ r, parser.executeEof settings app = .ok r ∧ r.parser.Ready := by
  have hready : parser.Ready := .inr ⟨hvalid.with_ok, hread⟩
  rw [executeEof]
  split
  · have hnotify : Exec.Ends (Exec.StopsWell 0) (fun y => y.parser.Valid ∧
        (y.parser.state = .chunkSizeStart → y.nread = 0))
        ((parser.start app []).callbackNotify settings .messageComplete 0) := by
      apply (Exec.callbackNotify_ends settings hvalid hread le_rfl .messageComplete).mono
      rintro y ⟨app, rfl⟩
      exact ⟨hvalid, hread⟩
    obtain ⟨r, hr, hleft, -⟩ := finish_ends hnotify le_rfl
    exact ⟨r, hr, hleft⟩
  · exact ⟨_, rfl, hready⟩
  · exact ⟨_, rfl, hready⟩
  · exact ⟨_, rfl, hready⟩
  · exact ⟨_, rfl, hready⟩
  · exact ⟨_, rfl, .inl ⟨nofun, nofun⟩⟩

theorem Ready.valid (h : parser.Ready) (herrno : parser.httpErrno = .ok) :
    parser.toParser.Valid ∧ (parser.state = .chunkSizeStart → parser.nread = 0) := by
  have hsame : { parser.toParser with httpErrno := .ok } = parser.toParser := by rw [← herrno]
  have hvalid := h.resolve_left fun hstuck => hstuck.1 herrno
  rwa [hsame] at hvalid

theorem Ready.execute (h : parser.Ready) (data : List UInt8) :
    ∃ r, parser.Returns settings app data r := by
  by_cases herrno : parser.httpErrno = .ok
  · obtain ⟨hvalid, hread⟩ := h.valid herrno
    by_cases hdata : data = []
    · obtain ⟨r, hr, hready⟩ := executeEof_ok settings app hvalid hread
      refine ⟨r, ?_, hready, fun hne => absurd hdata hne, fun hne => absurd hdata hne⟩
      rw [ParserObj.execute, if_neg (not_not_intro herrno), if_pos hdata]
      exact hr
    · have hgood : (parser.start app data).Good data.length data.length :=
        start_good app hvalid hread
      have hends := (Exec.loop_ends settings hgood).bind fun x hx => Exec.flush_ends settings hx
      obtain ⟨r, hr, hready, hle, hall⟩ := finish_ends hends (le_refl data.length)
      refine ⟨r, ?_, hready, fun _ => hle, fun _ => hall⟩
      rw [ParserObj.execute, if_neg (not_not_intro herrno), if_neg hdata]
      exact hr
  · refine ⟨⟨0, parser, app⟩, ?_, h, fun _ => Nat.zero_le _, fun _ hok => absurd hok herrno⟩
    rw [ParserObj.execute, if_pos herrno]

theorem ready_init (t : ParserType) : (httpParserInit t).Ready := by
  refine .inr ⟨.of_free rfl (Nat.zero_le _) ?_, ?_⟩ <;> cases t <;> first | rfl | nofun

theorem Ready.pause (h : parser.Ready) {paused : Bool} {next : ParserObj}
    (hnext : httpParserPause parser paused = some next) : next.Ready := by
  rw [httpParserPause] at hnext
  split at hnext
  · rename_i hcan
    cases hnext
    obtain hstuck | hvalid := h
    · exact absurd hcan (by simp [hstuck])
    · exact .inr hvalid
  · cases hnext

end ParserObj

/-! ### Runs -/

/-- What can be done with a parser. -/
inductive ParserEvent (D : Type)
  | execute (settings : ParserSettings D) (app : D) (data : List UInt8)
  | pause (paused : Bool)

/-- A parser of a type, from `http_parser_init` on. -/
def parserSystem (D : Type) (t : ParserType) : Transition.System ParserObj (ParserEvent D) where
  initial parser := parser = httpParserInit t
  step parser e next :=
    match e with
    | .execute settings app data => ∃ r, parser.execute settings app data = .ok r ∧ next = r.parser
    | .pause paused => httpParserPause parser paused = some next

variable {D : Type} {t : ParserType} {parser : ParserObj}

theorem ready_of_reachable (h : (parserSystem D t).Reachable parser) : parser.Ready := by
  refine h.invariant ?_ ?_
  · rintro s rfl
    exact ParserObj.ready_init t
  · intro s e next hstep hs
    cases e with
    | execute settings app data =>
      obtain ⟨r, hr, rfl⟩ := hstep
      obtain ⟨r', hr'⟩ := hs.execute settings app data
      rw [hr'.executed] at hr
      cases hr
      exact hr'.ready
    | pause paused => exact hs.pause hstep

/-- No assertion fails and no table is read outside, whatever the bytes, the buffers they come
in, the answers of the callbacks and the pauses. A call consumes its buffer unless it reports
an error or an upgrade. -/
theorem execute_reachable (h : (parserSystem D t).Reachable parser) (settings : ParserSettings D)
    (app : D) (data : List UInt8) : ∃ r, parser.Returns settings app data r :=
  (ready_of_reachable h).execute settings app data

/-- What a call leaves can be called again. -/
theorem reachable_execute (h : (parserSystem D t).Reachable parser) {settings : ParserSettings D}
    {app : D} {data : List UInt8} {r : Executed D} (hr : parser.execute settings app data = .ok r) :
    (parserSystem D t).Reachable r.parser := by
  obtain ⟨s₀, es, hinitial, hrun⟩ := h
  have hstep : (parserSystem D t).step parser (.execute settings app data) r.parser :=
    ⟨r, hr, rfl⟩
  exact ⟨s₀, _, hinitial, hrun.snoc hstep⟩

/-- A request that comes in two buffers. -/
theorem execute_two_buffers :
    ∃ r r' : Executed Unit,
      (httpParserInit .request).execute httpParserSettingsInit () (ascii "GET /a HT") = .ok r ∧
      r.parser.Returns httpParserSettingsInit () (ascii "TP/1.1\r\n\r\n") r' := by
  have hinitial : (parserSystem Unit .request).Reachable (httpParserInit .request) :=
    ⟨httpParserInit .request, [], rfl, .nil _⟩
  obtain ⟨r, hr⟩ := execute_reachable hinitial httpParserSettingsInit () (ascii "GET /a HT")
  obtain ⟨r', hr'⟩ := execute_reachable (reachable_execute hinitial hr.executed)
    httpParserSettingsInit () (ascii "TP/1.1\r\n\r\n")
  exact ⟨r, r', hr.executed, hr'⟩

end LibraCore.Http
