import LibraCore.Http.ByteReader

/-!
# One application in the place of another

What `http_parser_execute` does depends on the application by the answers of its callbacks
alone. Two applications that answer alike have the same calls; one that answers like another
up to a callback that fails, or pauses the parser, has the same calls up to that one.

## Main results

- `ParserObj.execute_preserves` — what every callback keeps, a call keeps
- `ParserObj.execute_simulates` — a call with one application, as one with another
-/

namespace LibraCore.Http

/-- A callback that is made. -/
inductive Report
  | notice (n : Notice)
  | headersComplete
  | data (f : DataField) (text : Fragment)
  deriving DecidableEq, Repr

/-- What a callback does; one that is null returns 0. -/
def ParserSettings.answer {D : Type} (settings : ParserSettings D) (r : Report) (c : Parser)
    (app : D) : Answer × D :=
  match r with
  | .notice n => (settings.onNotice n).elim (⟨0, false⟩, app) fun callback => callback c app
  | .headersComplete =>
    settings.onHeadersComplete.elim (⟨0, false⟩, app) fun callback => callback c app
  | .data f text => (settings.onData f).elim (⟨0, false⟩, app) fun callback => callback c text app

/-- `http_errno` is set after the callback. -/
def Answer.Stops (a : Answer) : Report → Prop
  | .headersComplete => a.paused = true ∨ (a.value ≠ 0 ∧ a.value ≠ 1 ∧ a.value ≠ 2)
  | _ => a.paused = true ∨ a.value ≠ 0

/-- `http_errno` after a callback that has failed or paused the parser. -/
def HttpErrno.ofCallback (e : HttpErrno) : Prop := e ≠ .ok ∧ e.refusal = false

namespace Exec

variable {D D' : Type} {settings : ParserSettings D} {settings' : ParserSettings D'}

section Callbacks

variable {x : Exec D}

@[simp] theorem afterCallback_ok (er : ℕ) : x.afterCallback .ok er = .ok x := rfl

theorem callbackNotify_eq (herrno : x.parser.httpErrno = .ok) (n : Notice) (er : ℕ) :
    x.callbackNotify settings n er =
      { x with app := (settings.answer (.notice n) x.parser x.app).2 }.afterCallback
        ((settings.answer (.notice n) x.parser x.app).1.errno (.cbNotice n)) er := by
  rw [callbackNotify, if_neg (not_not_intro herrno)]
  cases hcallback : settings.onNotice n <;>
    · simp only [ParserSettings.answer, hcallback]
      rfl

theorem callbackData_eq (herrno : x.parser.httpErrno = .ok) {f : DataField} {text : List UInt8}
    (hmark : x.mark f = some text) (last : Bool) (er : ℕ) :
    let n := if last then 1 else 0
    let r := settings.answer (.data f ⟨text ++ x.rest.take n, x.rest.drop n⟩) x.parser x.app
    x.callbackData settings f last er =
      { x with app := r.2 }.afterCallback (r.1.errno (.cbData f)) er >>=
        fun y => .ok { y with mark := Function.update y.mark f none } := by
  dsimp only
  rw [callbackData, if_neg (not_not_intro herrno), hmark]
  cases hcallback : settings.onData f <;>
    · simp only [ParserSettings.answer, hcallback]
      rfl

theorem callbackHeadersComplete_answer :
    let r := settings.answer .headersComplete x.parser x.app
    x.callbackHeadersComplete settings =
      { x with app := r.2, parser := (r.1.completed x.parser).1 }.afterCallback
        (r.1.completed x.parser).2 0 := by
  dsimp only
  cases hcallback : settings.onHeadersComplete with
  | none =>
    rw [callbackHeadersComplete, hcallback]
    simp only [ParserSettings.answer, hcallback]
    rfl
  | some callback =>
    rw [callbackHeadersComplete_eq hcallback]
    simp only [ParserSettings.answer, hcallback]
    rfl

end Callbacks

/-! ### What every callback keeps -/

section Preserves

variable {I : D → Prop} {x : Exec D}

/-- A part of a call that keeps a property of the application. -/
def InApp (I : D → Prop) : Except (ParserStop D) (Exec D) → Prop :=
  Ends (fun s => match s with
    | .returned _ _ app => I app
    | .fault _ => True) fun y => I y.app

theorem InApp.bind {m : Except (ParserStop D) (Exec D)} {f : Exec D → _} (hm : InApp I m)
    (hf : ∀ y, I y.app → InApp I (f y)) : InApp I (m >>= f) := Ends.bind hm hf

theorem InApp.afterCallback (hx : I x.app) (e : HttpErrno) (er : ℕ) :
    InApp I (x.afterCallback e er) := by
  rw [Exec.afterCallback]
  split <;> exact hx

theorem InApp.countHeaderSize (hx : I x.app) (n : ℕ) : InApp I (x.countHeaderSize n) := by
  rw [Exec.countHeaderSize]
  dsimp only
  split <;> exact hx

variable (h : ∀ r c app, I app → I (settings.answer r c app).2)
include h

theorem InApp.callbackNotify (hx : I x.app) (n : Notice) (er : ℕ) :
    InApp I (x.callbackNotify settings n er) := by
  by_cases herrno : x.parser.httpErrno = .ok
  · rw [callbackNotify_eq herrno]
    exact .afterCallback (h _ _ _ hx) _ _
  · rw [Exec.callbackNotify, if_pos herrno]
    trivial

theorem InApp.callbackData (hx : I x.app) (f : DataField) (last : Bool) (er : ℕ) :
    InApp I (x.callbackData settings f last er) := by
  by_cases herrno : x.parser.httpErrno = .ok
  · cases hmark : x.mark f with
    | none =>
      rw [Exec.callbackData, if_neg (not_not_intro herrno), hmark]
      exact hx
    | some text =>
      rw [callbackData_eq herrno hmark]
      exact InApp.bind (.afterCallback (h _ _ _ hx) _ _) fun y hy => hy
  · rw [Exec.callbackData, if_pos herrno]
    trivial

theorem InApp.callbackHeadersComplete (hx : I x.app) :
    InApp I (x.callbackHeadersComplete settings) := by
  rw [callbackHeadersComplete_answer]
  exact .afterCallback (h _ _ _ hx) _ _

theorem InApp.run (hx : I x.app) (s : Script) : InApp I (x.run settings s) := by
  induction s generalizing x with
  | next c | error c e | exit c => exact hx
  | fault f => trivial
  | mark f rest ih => exact ih (x := x.setMark f) hx
  | data f c last er rest ih =>
    exact (InApp.callbackData h (x := { x with parser := c }) hx f last er).bind fun y hy => ih hy
  | notify n c er rest ih =>
    exact (InApp.callbackNotify h (x := { x with parser := c }) hx n er).bind fun y hy => ih hy
  | headersComplete c rest ih =>
    exact (InApp.callbackHeadersComplete h (x := { x with parser := c }) hx).bind
      fun y hy => ih _ hy
  | resetRead rest ih => exact ih (x := { x with nread := 0 }) hx
  | assertRead n rest ih =>
    rw [Exec.run]
    split
    · exact ih hx
    · trivial

theorem InApp.step (hx : I x.app) (ch : UInt8) : InApp I (x.step settings ch) := by
  have hread : InApp I x.readBody := by
    rw [Exec.readBody]
    dsimp only
    split
    · trivial
    · exact hx
  rw [Exec.step]
  split
  · rw [Exec.headerField]
    split
    · trivial
    · rename_i c rest _
      refine InApp.bind (.countHeaderSize (x := { x with parser := c }.advance _) hx _) ?_
      intro y hy
      split
      · exact hy
      · exact .run h hy _
  · rw [Exec.headerValue]
    dsimp only
    split
    · exact .run h (x := { x with parser := _ }.advance _) hx _
    · exact .countHeaderSize (x := { x with parser := _ }.advance _) hx _
    · split
      · refine InApp.bind (.run h (x := { x with parser := _ }.advance _) hx _) ?_
        exact fun y hy => .countHeaderSize hy _
      · apply InApp.bind
        · apply InApp.countHeaderSize
          exact hx
        · exact fun y hy => .run h hy _
  · apply hread.bind
    intro y hy
    split
    · exact .run h hy _
    · exact hy
  · rw [Exec.chunkData]
    split
    · trivial
    · apply hread.bind
      intro y hy
      split <;> exact hy
  · exact hx
  · exact .run h hx _

theorem InApp.loop (hx : I x.app) (n : ℕ) : InApp I (x.loop settings n) := by
  induction n generalizing x with
  | zero => exact hx
  | succ n ih =>
    rw [Exec.loop]
    split
    · exact hx
    · apply InApp.bind
      · rw [countByte]
        split
        · exact .countHeaderSize hx 1
        · exact hx
      · intro y hy
        exact (InApp.step h hy _).bind fun z hz => ih (x := z.advance 1) hz

theorem InApp.flush (hx : I x.app) : InApp I (x.flush settings) := by
  unfold Exec.flush
  dsimp only
  split
  · trivial
  · refine (InApp.callbackData h hx _ _ _).bind fun a ha => ?_
    refine (InApp.callbackData h ha _ _ _).bind fun b hb => ?_
    refine (InApp.callbackData h hb _ _ _).bind fun c hc => ?_
    refine (InApp.callbackData h hc _ _ _).bind fun d hd => ?_
    exact .callbackData h hd _ _ _

end Preserves

end Exec

/-! ### One application in the place of another -/

/-- Applications in `A` answer alike, up to a callback of the second that fails or pauses the
parser. Then they are in `B`, however the first goes on. -/
structure ParserSettings.Simulates {D D' : Type} (settings : ParserSettings D)
    (settings' : ParserSettings D') (A B : D → D' → Prop) : Prop where
  answers : ∀ r c app app', A app app' →
    ((settings.answer r c app).1 = (settings'.answer r c app').1 ∧
        A (settings.answer r c app).2 (settings'.answer r c app').2) ∨
      ((settings'.answer r c app').1.Stops r ∧
        B (settings.answer r c app).2 (settings'.answer r c app').2)
  ended : ∀ r c app app', B app app' → B (settings.answer r c app).2 app'

namespace Exec

variable {D D' : Type} {settings : ParserSettings D} {settings' : ParserSettings D'}
  {A B : D → D' → Prop}

def withApp (x : Exec D) (app : D') : Exec D' where
  parser := x.parser
  nread := x.nread
  app := app
  mark := x.mark
  position := x.position
  rest := x.rest

theorem withApp_fields (x : Exec D) (app : D') :
    (x.withApp app).parser = x.parser ∧ (x.withApp app).nread = x.nread ∧
      (x.withApp app).mark = x.mark ∧ (x.withApp app).position = x.position ∧
      (x.withApp app).rest = x.rest :=
  ⟨rfl, rfl, rfl, rfl, rfl⟩

/-- Two parts of calls, where the second may have ended already. -/
inductive Related (A B : D → D' → Prop) :
    Except (ParserStop D) (Exec D) → Except (ParserStop D') (Exec D') → Prop
  | ok (x : Exec D) (app' : D') : A x.app app' → Related A B (.ok x) (.ok (x.withApp app'))
  | returned (n : ℕ) (parser : ParserObj) (app : D) (app' : D') : A app app' →
      Related A B (.error (.returned n parser app)) (.error (.returned n parser app'))
  | fault (f : ParserFault) : Related A B (.error (.fault f)) (.error (.fault f))
  | ended (m : Except (ParserStop D) (Exec D)) (n : ℕ) (parser : ParserObj) (app' : D') :
      InApp (B · app') m → parser.httpErrno.ofCallback →
      Related A B m (.error (.returned n parser app'))

/-- The parts of a call that may follow one that has ended. -/
theorem Related.bind {m : Except (ParserStop D) (Exec D)} {m' : Except (ParserStop D') (Exec D')}
    {f : Exec D → Except (ParserStop D) (Exec D)} {f' : Exec D' → Except (ParserStop D') (Exec D')}
    (hm : Related A B m m')
    (hf : ∀ x app', A x.app app' → Related A B (f x) (f' (x.withApp app')))
    (hB : ∀ x app', B x.app app' → InApp (B · app') (f x)) :
    Related A B (m >>= f) (m' >>= f') := by
  cases hm with
  | ok x app' hx => exact hf x app' hx
  | returned n parser app app' happ => exact .returned n parser app app' happ
  | fault f => exact .fault f
  | ended m n parser app' hm hparser =>
    exact .ended _ n parser app' (hm.bind fun y hy => hB y _ hy) hparser

/-- A part of two calls, which may have ended for the second. -/
structure Part (A B : D → D' → Prop) (f : Exec D → Except (ParserStop D) (Exec D))
    (f' : Exec D' → Except (ParserStop D') (Exec D')) : Prop where
  related : ∀ x app', A x.app app' → Related A B (f x) (f' (x.withApp app'))
  ended : ∀ x app', B x.app app' → InApp (B · app') (f x)

theorem Part.bind {f g : Exec D → Except (ParserStop D) (Exec D)}
    {f' g' : Exec D' → Except (ParserStop D') (Exec D')} (hf : Part A B f f') (hg : Part A B g g') :
    Part A B (fun x => f x >>= g) (fun x => f' x >>= g') where
  related x app' hx := (hf.related x app' hx).bind hg.related hg.ended
  ended x app' hx := (hf.ended x app' hx).bind fun y hy => hg.ended y app' hy

section Parts

variable {x : Exec D} {app' : D'}

theorem Related.afterCallback (hx : A x.app app') (e : HttpErrno) (er : ℕ) :
    Related A B (x.afterCallback e er) ((x.withApp app').afterCallback e er) := by
  unfold Exec.afterCallback
  split
  · exact .returned _ _ _ _ hx
  · exact .ok x app' hx

/-- The callback of the second has failed or paused the parser. -/
theorem Related.afterCallback_ended {x' : Exec D'} (hx : B x.app x'.app) (e : HttpErrno)
    {e' : HttpErrno} (he : e'.ofCallback) (er : ℕ) :
    Related A B (x.afterCallback e er) (x'.afterCallback e' er) := by
  have hstop : x'.afterCallback e' er = (x'.setErrno e').stop (x'.position + er) := if_pos he.1
  rw [hstop]
  exact .ended _ _ _ _ (InApp.afterCallback (I := (B · x'.app)) hx e er) he

theorem Related.countHeaderSize (hx : A x.app app') (n : ℕ) :
    Related A B (x.countHeaderSize n) ((x.withApp app').countHeaderSize n) := by
  have hread : (x.withApp app').nread = x.nread := rfl
  unfold Exec.countHeaderSize
  rw [hread]
  dsimp only
  split
  · exact .returned _ _ _ _ hx
  · exact .ok { x with nread := (x.nread + n) % 2 ^ 32 } app' hx

theorem errno_ofCallback {a : Answer} {failed : HttpErrno} (hfailed : failed.ofCallback)
    (h : a.paused = true ∨ a.value ≠ 0) : (a.errno failed).ofCallback := by
  rw [Answer.errno]
  split_ifs with hvalue hpaused
  · exact hfailed
  · exact ⟨by decide, rfl⟩
  · exact absurd h (by simp [hvalue, hpaused])

variable (h : settings.Simulates settings' A B)
include h

theorem Related.callbackNotify (hx : A x.app app') (n : Notice) (er : ℕ) :
    Related A B (x.callbackNotify settings n er)
      ((x.withApp app').callbackNotify settings' n er) := by
  by_cases herrno : x.parser.httpErrno = .ok
  · rw [callbackNotify_eq herrno, callbackNotify_eq (x := x.withApp app') herrno]
    obtain ⟨hanswer, happ⟩ | ⟨hstops, happ⟩ := h.answers (.notice n) x.parser x.app app' hx
    · rw [hanswer]
      exact .afterCallback (x := { x with app := _ }) happ _ er
    · exact .afterCallback_ended (x := { x with app := _ }) happ _
        (errno_ofCallback ⟨by simp, rfl⟩ hstops) er
  · have hfault : (x.withApp app').callbackNotify settings' n er = .error (.fault .assertFailed) :=
      if_pos herrno
    rw [Exec.callbackNotify, if_pos herrno, hfault]
    exact .fault _

theorem Related.callbackData (hx : A x.app app') (f : DataField) (last : Bool) (er : ℕ) :
    Related A B (x.callbackData settings f last er)
      ((x.withApp app').callbackData settings' f last er) := by
  by_cases herrno : x.parser.httpErrno = .ok
  · cases hmark : x.mark f with
    | none =>
      have hnone {D : Type} {settings : ParserSettings D} {y : Exec D}
          (hy : y.parser.httpErrno = .ok) (hmark : y.mark f = none) :
          y.callbackData settings f last er = .ok y := by
        rw [Exec.callbackData, if_neg (not_not_intro hy), hmark]
      rw [hnone herrno hmark, hnone (y := x.withApp app') herrno hmark]
      exact .ok x app' hx
    | some text =>
      rw [callbackData_eq herrno hmark, callbackData_eq (x := x.withApp app') herrno hmark]
      apply Related.bind
      · obtain ⟨hanswer, happ⟩ | ⟨hstops, happ⟩ := h.answers (.data f
          ⟨text ++ x.rest.take (if last then 1 else 0), x.rest.drop (if last then 1 else 0)⟩)
          x.parser x.app app' hx
        · simp only [withApp]
          rw [hanswer]
          exact .afterCallback (x := { x with app := _ }) happ _ er
        · exact .afterCallback_ended (x := { x with app := _ }) happ _
            (errno_ofCallback ⟨by simp, rfl⟩ hstops) er
      · exact fun y app' hy => .ok { y with mark := Function.update y.mark f none } app' hy
      · exact fun y app' hy => hy
  · have hfault : (x.withApp app').callbackData settings' f last er =
        .error (.fault .assertFailed) := if_pos herrno
    rw [Exec.callbackData, if_pos herrno, hfault]
    exact .fault _

theorem Related.callbackHeadersComplete (hx : A x.app app') :
    Related A B (x.callbackHeadersComplete settings)
      ((x.withApp app').callbackHeadersComplete settings') := by
  rw [callbackHeadersComplete_answer, callbackHeadersComplete_answer]
  obtain ⟨hanswer, happ⟩ | ⟨hstops, happ⟩ := h.answers .headersComplete x.parser x.app app' hx
  · simp only [withApp]
    rw [hanswer]
    exact .afterCallback (x := { x with app := _, parser := _ }) happ _ 0
  · refine .afterCallback_ended (x := { x with app := _, parser := _ }) happ _ ?_ 0
    have hcompleted {a : Answer} (ha : a.Stops .headersComplete) (c : Parser) :
        (a.completed c).2.ofCallback := by
      rw [Answer.completed]
      obtain hpaused | ⟨hzero, hone, htwo⟩ := ha
      · rw [hpaused]
        simp only [if_true]
        split_ifs <;> exact ⟨by simp, rfl⟩
      · rw [if_neg hzero, if_neg hone, if_neg htwo]
        exact ⟨by simp, rfl⟩
    exact hcompleted hstops _

theorem Related.run (hx : A x.app app') (s : Script) :
    Related A B (x.run settings s) ((x.withApp app').run settings' s) := by
  have hB : ∀ (s : Script) (y : Exec D) app', B y.app app' → InApp (B · app') (y.run settings s) :=
    fun s y app' hy => .run (fun r c app happ => h.ended r c app app' happ) hy s
  induction s generalizing x app' with
  | next c => exact .ok { x with parser := c } app' hx
  | error c e => exact .returned _ _ _ _ hx
  | exit c => exact .returned _ _ _ _ hx
  | fault f => exact .fault f
  | mark f rest ih => exact ih (x := x.setMark f) hx
  | data f c last er rest ih =>
    exact .bind (.callbackData h (x := { x with parser := c }) hx f last er)
      (fun y app' hy => ih hy) fun y app' hy => hB rest y app' hy
  | notify n c er rest ih =>
    exact .bind (.callbackNotify h (x := { x with parser := c }) hx n er) (fun y app' hy => ih hy)
      fun y app' hy => hB rest y app' hy
  | headersComplete c rest ih =>
    exact .bind (.callbackHeadersComplete h (x := { x with parser := c }) hx)
      (fun y app' hy => ih _ hy) fun y app' hy => hB _ y app' hy
  | resetRead rest ih => exact ih (x := { x with nread := 0 }) hx
  | assertRead n rest ih =>
    by_cases hn : x.nread = n
    · have hnext : (x.withApp app').run settings' (.assertRead n rest) =
          (x.withApp app').run settings' rest := if_pos hn
      rw [hnext, Exec.run, if_pos hn]
      exact ih hx
    · have hfault : (x.withApp app').run settings' (.assertRead n rest) =
          .error (.fault .assertFailed) := if_neg hn
      rw [hfault, Exec.run, if_neg hn]
      exact .fault _

theorem Related.headerField (hx : A x.app app') :
    Related A B (x.headerField settings) ((x.withApp app').headerField settings') := by
  have hB := fun app' r c app happ => h.ended r c app app' happ
  unfold Exec.headerField
  simp only [withApp_fields]
  cases x.parser.fieldScan x.rest with
  | none => exact .fault _
  | some r =>
    refine .bind (.countHeaderSize (x := { x with parser := r.1 }.advance _) hx _) ?_ ?_
    · intro y app' hy
      split
      · exact .ok y app' hy
      · exact .run h hy _
    · intro y app' hy
      split
      · exact hy
      · exact .run (hB app') hy _

theorem Related.headerValue (hx : A x.app app') :
    Related A B (x.headerValue settings) ((x.withApp app').headerValue settings') := by
  have hB := fun app' r c app happ => h.ended r c app app' happ
  unfold Exec.headerValue
  simp only [withApp_fields]
  obtain ⟨c, rest, stopped⟩ := x.parser.valueScan x.parser.headerState x.rest
  cases stopped with
  | some script => exact .run h (x := { x with parser := _ }.advance _) hx _
  | none =>
    cases rest with
    | nil => exact .countHeaderSize (x := { x with parser := _ }.advance _) hx _
    | cons ch rest =>
      dsimp only
      split_ifs
      · refine .bind (.run h (x := { x with parser := _ }.advance _) hx _) ?_ ?_
        · exact fun y app' hy => .countHeaderSize hy _
        · exact fun y app' hy => .countHeaderSize hy _
      · refine .bind (.countHeaderSize (x := { x with parser := _ }.advance _) hx _) ?_ ?_
        · exact fun y app' hy => .run h hy _
        · exact fun y app' hy => .run (hB app') hy _

theorem Related.step (hx : A x.app app') (ch : UInt8) :
    Related A B (x.step settings ch) ((x.withApp app').step settings' ch) := by
  have hB := fun app' r c app happ => h.ended r c app app' happ
  have hread : Related A B x.readBody (x.withApp app').readBody := by
    unfold Exec.readBody
    simp only [withApp_fields]
    split
    · exact .fault _
    · exact .ok ({ x.setMark .body with parser := _ }.advance _) app' hx
  unfold Exec.step
  simp only [withApp_fields]
  cases x.parser.state with
  | headerField => exact .headerField h hx
  | headerValue => exact .headerValue h hx
  | bodyIdentity =>
    refine .bind hread ?_ ?_
    · intro y app' hy
      simp only [withApp_fields]
      split_ifs
      · exact .run h hy _
      · exact .ok y app' hy
    · intro y app' hy
      dsimp only
      split_ifs
      · exact .run (hB app') hy _
      · exact hy
  | chunkData =>
    unfold Exec.chunkData
    simp only [withApp_fields]
    split_ifs
    · exact .fault _
    · refine .bind hread ?_ ?_
      · intro y app' hy
        simp only [withApp_fields]
        split_ifs
        · exact .ok { y with parser := _ } app' hy
        · exact .ok y app' hy
      · intro y app' hy
        split_ifs <;> exact hy
  | bodyIdentityEof => exact .ok ((x.setMark .body).advance _) app' hx
  | _ => exact .run h hx _

theorem Related.loop (hx : A x.app app') (n : ℕ) :
    Related A B (x.loop settings n) ((x.withApp app').loop settings' n) := by
  have hB := fun app' r c app happ => h.ended r c app app' happ
  induction n generalizing x app' with
  | zero => exact .ok x app' hx
  | succ n ih =>
    unfold Exec.loop
    simp only [withApp_fields]
    cases x.rest with
    | nil => exact .ok x app' hx
    | cons ch rest =>
      refine .bind ?_ (fun y app' hy => .bind (.step h hy ch) ?_ ?_) ?_
      · unfold Exec.countByte
        simp only [withApp_fields]
        split_ifs
        · exact .countHeaderSize hx 1
        · exact .ok x app' hx
      · exact fun z app' hz => ih (x := z.advance 1) hz
      · exact fun z app' hz => .loop (hB app') (x := z.advance 1) hz n
      · intro y app' hy
        exact (InApp.step (hB app') hy ch).bind fun z hz => .loop (hB app') (x := z.advance 1) hz n

theorem Related.flush (hx : A x.app app') :
    Related A B (x.flush settings) ((x.withApp app').flush settings') := by
  have hdata (f : DataField) : Part A B (fun y => y.callbackData settings f false 0)
      (fun y => y.callbackData settings' f false 0) := by
    refine ⟨fun y app' hy => .callbackData h hy f false 0, fun y app' hy => ?_⟩
    exact .callbackData (fun r c app happ => h.ended r c app app' happ) hy f false 0
  unfold Exec.flush
  simp only [withApp_fields]
  split_ifs
  · exact .fault _
  · exact ((hdata .headerField).bind <| (hdata .headerValue).bind <| (hdata .url).bind <|
      (hdata .body).bind (hdata .status)).related x app' hx

end Parts

end Exec

/-! ### Calls -/

namespace ParserObj

variable {D D' : Type} {settings : ParserSettings D} {settings' : ParserSettings D'}
  {A B : D → D' → Prop} {parser : ParserObj} {app : D} {app' : D'} {data : List UInt8}

/-- What every callback keeps, a call keeps. -/
theorem execute_preserves {I : D → Prop}
    (h : ∀ r c app, I app → I (settings.answer r c app).2) (happ : I app) {r : Executed D}
    (hr : parser.execute settings app data = .ok r) : I r.app := by
  have hfinish {n : ℕ} {m : Except (ParserStop D) (Exec D)} (hm : Exec.InApp I m)
      (hr : finish n m = .ok r) : I r.app := by
    match m with
    | .ok x | .error (.returned _ _ _) =>
      cases hr
      exact hm
    | .error (.fault _) => cases hr
  rw [execute] at hr
  split_ifs at hr
  · cases hr
    exact happ
  · rw [executeEof] at hr
    split at hr
    · exact hfinish (.callbackNotify h happ _ _) hr
    all_goals
      cases hr
      exact happ
  · refine hfinish ?_ hr
    exact (Exec.InApp.loop h (x := parser.start app data) happ _).bind fun x hx => .flush h hx

/-- A call with one application, as a call with another. -/
inductive Matches (A B : D → D' → Prop) (r : Executed D) : Executed D' → Prop
  | same (app' : D') : A r.app app' → Matches A B r ⟨r.nparsed, r.parser, app'⟩
  | ended (r' : Executed D') : B r.app r'.app → r'.parser.httpErrno.ofCallback → Matches A B r r'

theorem Related.finish {n : ℕ} {m : Except (ParserStop D) (Exec D)}
    {m' : Except (ParserStop D') (Exec D')} (hm : Exec.Related A B m m') {r : Executed D}
    (hr : finish n m = .ok r) : ∃ r', ParserObj.finish n m' = .ok r' ∧ Matches A B r r' := by
  cases hm with
  | ok x app' hx =>
    cases hr
    exact ⟨_, rfl, .same app' hx⟩
  | returned i parser app app' happ =>
    cases hr
    exact ⟨_, rfl, .same app' happ⟩
  | fault f => cases hr
  | ended m i parser app' hm hparser =>
    refine ⟨_, rfl, .ended _ ?_ hparser⟩
    match m with
    | .ok x | .error (.returned _ _ _) =>
      cases hr
      exact hm
    | .error (.fault _) => cases hr

theorem execute_simulates (h : settings.Simulates settings' A B) (happ : A app app')
    {r : Executed D} (hr : parser.execute settings app data = .ok r) :
    ∃ r', parser.execute settings' app' data = .ok r' ∧ Matches A B r r' := by
  unfold execute at hr ⊢
  split_ifs at hr ⊢
  · cases hr
    exact ⟨_, rfl, .same app' happ⟩
  · unfold executeEof at hr ⊢
    split at hr
    · have hrelated := Exec.Related.callbackNotify h (x := parser.start app []) happ
        .messageComplete 0
      exact Related.finish hrelated hr
    all_goals
      cases hr
      exact ⟨_, rfl, .same app' happ⟩
  · have hpart : Exec.Part A B (fun x => x.flush settings) (fun x => x.flush settings') :=
      ⟨fun x app' hx => .flush h hx,
        fun x app' hx => .flush (fun r c app happ => h.ended r c app app' happ) hx⟩
    have hrelated := (Exec.Related.loop h (x := parser.start app data) happ data.length).bind
      hpart.related hpart.ended
    exact Related.finish hrelated hr

end ParserObj

end LibraCore.Http
