import LibraCore.Http.ResponseText
import LibraCore.Foundations.Transition

/-!
# The length that a response carries

`end` computes a `Content-Length` where the map has none, puts it into the map, and only then
looks up the status text, which can throw. What it computed for one body stays in the map for
all later calls on the same response. Whether a text carries its own length is asked of the
text as it is read: a header of the map can have the lines of others in its value.

## Main results

- `Response.hasOwnLength_iff` — the text of one response
- `ClientContext.carriesLength_call_iff` — one call
- `ClientContext.carriesLength_iff` — any sequence of calls on one response
-/

namespace LibraCore.Http

open HttpGrammar (IsFieldValue fieldsOf readAs parse parse_render_iff)
open Execution (final returns bind_ok bind_error)
open Transition (System)

/-- The calls that leave the length to `end`: no name set is `Content-Length`, in any case. -/
def ResponseCall.SetsOther : ResponseCall → Prop
  | .setHeader key _ => folded key ≠ folded (ascii "Content-Length")
  | _ => True

instance : (e : ResponseCall) → Decidable e.SetsOther
  | .setStatus _ => isTrue trivial
  | .setHeader _ _ => inferInstanceAs (Decidable (_ ≠ _))
  | .endWith _ _ => isTrue trivial

/-- The name of the field, in any case. -/
def IsLength (f : HttpGrammar.Field) : Prop := folded f.1 = folded (ascii "Content-Length")

/-- The length of the body as `end` writes it. -/
def ownLength (body : List UInt8) : List UInt8 := ascii (toString body.length)

/-- The text is a response with the body, and its `Content-Length` is the length of the body:
there is one, and there is no other. -/
def HasOwnLength (body text : List UInt8) : Prop :=
  ∃ m, parse text = some m ∧ m.body = body ∧ (∃ f ∈ m.fields, IsLength f) ∧
    ∀ f ∈ m.fields, IsLength f → f.2 = ownLength body

/-- The line `name: value` is a line of a field, or lines of several, and none of them gives
another length than that of the body. -/
def KeepsLength (body : List UInt8) (f : HttpGrammar.Field) : Prop :=
  ∃ fs ∈ fieldsOf f, ∀ g ∈ fs, IsLength g → g.2 = ownLength body

instance (f : HttpGrammar.Field) : Decidable (IsLength f) := inferInstanceAs (Decidable (_ = _))

instance (body : List UInt8) (f : HttpGrammar.Field) : Decidable (KeepsLength body f) :=
  inferInstanceAs (Decidable (∃ fs ∈ fieldsOf f, ∀ g ∈ fs, IsLength g → g.2 = ownLength body))

/-- A length by itself. -/
theorem keepsLength_iff {f : HttpGrammar.Field} (hname : IsLength f) (hvalue : IsFieldValue f.2)
    (body : List UInt8) : KeepsLength body f ↔ f.2 = ownLength body := by
  have htoken : HttpGrammar.IsToken (ascii "Content-Length") := by decide
  have hfields := HttpGrammar.fieldsOf_of_isField ⟨isToken_congr hname.symm htoken, hvalue⟩
  rw [KeepsLength, hfields]
  constructor
  · rintro ⟨fs, hfs, hown⟩
    cases Option.mem_some_iff.mp hfs
    exact hown f List.mem_cons_self hname
  · intro hown
    refine ⟨[f], rfl, fun g hg _ => ?_⟩
    rw [List.mem_singleton.mp hg, hown]

theorem keepsLength_all_iff {fs : List HttpGrammar.Field} {body : List UInt8} :
    (∀ f ∈ fs, KeepsLength body f) ↔
      (∀ f ∈ fs, (fieldsOf f).isSome) ∧ ∀ g ∈ readAs fs, IsLength g → g.2 = ownLength body := by
  constructor
  · intro h
    refine ⟨fun f hf => ?_, fun g hg hname => ?_⟩
    · obtain ⟨gs, hgs, -⟩ := h f hf
      exact Option.isSome_of_mem hgs
    · obtain ⟨f, hf, hmem⟩ := List.mem_flatMap.mp hg
      obtain ⟨gs, hgs, hown⟩ := h f hf
      rw [Option.mem_def.mp hgs] at hmem
      exact hown g hmem hname
  · rintro ⟨hsome, hown⟩ f hf
    obtain ⟨gs, hgs⟩ := Option.isSome_iff_exists.mp (hsome f hf)
    refine ⟨gs, hgs, fun g hg => hown g (List.mem_flatMap.mpr ⟨f, hf, ?_⟩)⟩
    rw [hgs]
    exact hg

namespace Response

/-- The value of the header, if it is in the map. -/
def contentLength (response : Response) : Option (List UInt8) :=
  response.headers.find (ascii "Content-Length")

/-- A length in the map is a value that can be read back. -/
def Plain (response : Response) : Prop := ∀ value ∈ response.contentLength, IsFieldValue value

instance (response : Response) : Decidable response.Plain :=
  inferInstanceAs (Decidable (∀ value ∈ response.contentLength, IsFieldValue value))

theorem contentLength_withContentLength (body : List UInt8) (response : Response) :
    (response.withContentLength body).contentLength =
      some (response.contentLength.getD (ownLength body)) := by
  rw [withContentLength, contentLength]
  split_ifs with hnone
  · rw [contentLength, hnone]
    exact (HeaderMap.find_set _ _ _ _).trans (if_pos rfl)
  · obtain ⟨value, hvalue⟩ := Option.ne_none_iff_exists'.mp hnone
    rw [contentLength, hvalue]
    rfl

theorem Plain.withContentLength {response : Response} (h : response.Plain)
    (body : List UInt8) : (response.withContentLength body).Plain := by
  intro value hvalue
  rw [contentLength_withContentLength] at hvalue
  cases Option.mem_some_iff.mp hvalue
  cases hlength : response.contentLength with
  | none => exact isFieldValue_toString body.length
  | some value => exact h value hlength

theorem Plain.setHeader {response : Response} (h : response.Plain) {key : List UInt8}
    (hkey : folded key ≠ folded (ascii "Content-Length")) (value : List UInt8) :
    (response.setHeader key value).Plain := by
  have hsame : (response.setHeader key value).contentLength = response.contentLength :=
    (HeaderMap.find_set _ _ _ _).trans (if_neg hkey)
  rw [Plain, hsame]
  exact h

/-- The map changes exactly if it had no length. -/
theorem headers_withContentLength_iff (body : List UInt8) (response : Response) :
    (response.withContentLength body).headers = response.headers ↔
      response.contentLength ≠ none := by
  constructor
  · intro hsame hnone
    have hset := contentLength_withContentLength body response
    rw [contentLength, hsame] at hset
    rw [contentLength, hset] at hnone
    cases hnone
  · intro hsome
    rw [withContentLength, if_neg (show response.headers.find _ ≠ none from hsome)]

/-- The length that `end` puts into the map is one more entry. -/
theorem perm_withContentLength {response : Response} (hnone : response.contentLength = none)
    (body : List UInt8) : (response.withContentLength body).headers.entries.Perm
      ((ascii "Content-Length", ownLength body) :: response.headers.entries) := by
  rw [withContentLength, if_pos (show response.headers.find _ = none from hnone)]
  exact SortedMap.perm_insertEntry hnone _

/-! ### The length that is read -/

/-- The length that `end` puts into the map is that of the body. -/
theorem keepsLength_withContentLength_iff (body : List UInt8) (response : Response) :
    (∀ f ∈ (response.withContentLength body).headers.entries, KeepsLength body f) ↔
      ∀ f ∈ response.headers.entries, KeepsLength body f := by
  cases hlength : response.contentLength with
  | none =>
    have hown := (keepsLength_iff (f := (ascii "Content-Length", ownLength body)) rfl
      (isFieldValue_toString body.length) body).mpr rfl
    simp [(perm_withContentLength hlength body).mem_iff, hown]
  | some value =>
    have hsame := (headers_withContentLength_iff body response).mpr (by simp [hlength])
    rw [hsame]

/-- A length in the map is read. -/
theorem exists_isLength {response : Response} (hplain : response.Plain)
    (hsome : response.contentLength ≠ none) :
    ∃ g ∈ readAs response.headers.entries, IsLength g := by
  obtain ⟨value, hvalue⟩ := Option.ne_none_iff_exists'.mp hsome
  obtain ⟨f, hf, hsame, rfl⟩ := SortedMap.exists_of_find hvalue
  have hname : IsLength f := (same_iff _ _).mp hsame
  have htoken : HttpGrammar.IsToken (ascii "Content-Length") := by decide
  have hfields := HttpGrammar.fieldsOf_of_isField
    ⟨isToken_congr hname.symm htoken, hplain f.2 hvalue⟩
  refine ⟨f, List.mem_flatMap.mpr ⟨f, hf, ?_⟩, hname⟩
  rw [hfields]
  exact List.mem_cons_self

/-- The text of a response has its own length exactly if each header of the map keeps it. -/
theorem hasOwnLength_iff {response : Response} (hplain : response.Plain)
    (hstatus : (getStatusText response.status).isSome) (body : List UInt8) :
    HasOwnLength body (ClientContext.endText body response) ↔
      ∀ f ∈ response.headers.entries, KeepsLength body f := by
  obtain ⟨statusText, htext⟩ := Option.isSome_iff_exists.mp hstatus
  have hsame := withContentLength_status body response
  have hstatus' : getStatusText (response.withContentLength body).status = some statusText :=
    hsame ▸ htext
  obtain ⟨-, hlt, -, hreason⟩ := statusTexts_spec _ (mem_statusTexts hstatus')
  have hread (m : HttpGrammar.Response) := parse_render_iff
    (r := (response.withContentLength body).message body statusText) (m := m) hlt
    (List.all_eq_true.mp hreason)
  rw [← keepsLength_withContentLength_iff, keepsLength_all_iff, ClientContext.endText, htext,
    Option.getD_some, responseText_eq hstatus']
  constructor
  · rintro ⟨m, hparse, hbody, -, hown⟩
    obtain ⟨hall, rfl⟩ := (hread m).mp ⟨hparse, hbody⟩
    exact ⟨hall, hown⟩
  · rintro ⟨hall, hown⟩
    obtain ⟨hparse, hbody⟩ := (hread _).mpr ⟨hall, rfl⟩
    have hlength := contentLength_withContentLength body response
    exact ⟨_, hparse, hbody, exists_isLength (hplain.withContentLength body) (by simp [hlength]),
      hown⟩

/-! ### The number of bytes of a text -/

/-- The bytes of the line `name: value`. -/
def fieldSize (field : List UInt8 × List UInt8) : ℕ := field.1.length + field.2.length + 4

/-- The bytes that a response with this body takes: the status line, a line for each header of
the map and for the length if the map has none, an empty line and the body. -/
def textSize (body : List UInt8) (response : Response) : ℕ :=
  12 + (ascii (toString response.status)).length +
    (ascii ((getStatusText response.status).getD "")).length +
    (response.headers.entries.map fieldSize).sum +
    (if response.contentLength = none then fieldSize (ascii "Content-Length", ownLength body)
      else 0) +
    2 + body.length

theorem length_fields (fields : List (List UInt8 × List UInt8)) :
    (fields.flatMap fun h => h.1 ++ ascii ": " ++ h.2 ++ ascii "\r\n").length =
      (fields.map fieldSize).sum := by
  rw [List.length_flatMap]
  congr 1
  apply List.map_congr_left
  intro field _
  have hcolon : (ascii ": ").length = 2 := rfl
  have hend : (ascii "\r\n").length = 2 := rfl
  simp only [List.length_append, fieldSize]
  omega

/-- The length that `end` puts into the map adds a line to the text. -/
theorem sum_fieldSize_withContentLength (body : List UInt8) (response : Response) :
    ((response.withContentLength body).headers.entries.map fieldSize).sum =
      (response.headers.entries.map fieldSize).sum +
        if response.contentLength = none then fieldSize (ascii "Content-Length", ownLength body)
        else 0 := by
  split_ifs with hnone
  · rw [((perm_withContentLength hnone body).map fieldSize).sum_eq, List.map_cons, List.sum_cons,
      Nat.add_comm]
  · rw [(headers_withContentLength_iff body response).mpr hnone, Nat.add_zero]

end Response

namespace ClientContext

variable {S : Type}

/-- All sequences of calls on one response, by a caller that catches what they throw. -/
def responseSystem : System (ClientContext S) ResponseCall where
  initial c := ∃ parser, c = opened parser
  step c e d := e.SetsOther ∧ final (call e c) = d

/-- One text is handed to the socket, as a whole, and its `Content-Length` is the length of its
body. -/
def WritesOwnLength (c : ClientContext S) (body : List UInt8) (d : ClientContext S) : Prop :=
  ∃ text, d.trace = c.trace ++ [.wrote text text.length] ∧ HasOwnLength body text

/-- An `end` that returns writes a text with its own length, and one that throws leaves the
headers as they were; nothing else writes a text. -/
def CarriesLength (c : ClientContext S) (e : ResponseCall) (d : ClientContext S) : Prop :=
  match e with
  | .setStatus _ => d.trace = c.trace
  | .setHeader _ _ => d.trace = c.trace
  | .endWith body _ =>
    if returns (call e c) then WritesOwnLength c body d
    else d.response.headers = c.response.headers ∧ d.trace = c.trace

/-- An `end` with a status that is not supported finds a length in the map; one that writes a
text finds only headers that keep the length of its body, and the size of the text is that of an
`int`. -/
def Measures (c : ClientContext S) : ResponseCall → Prop
  | .endWith body _ =>
    if (Response.getStatusText c.response.status).isSome then
      (∀ f ∈ c.response.headers.entries, KeepsLength body f) ∧
        toSize (toInt32 (c.response.textSize body)) = c.response.textSize body
    else c.response.contentLength ≠ none
  | _ => True

section Spec

variable {c : ClientContext S}

/-- An `end` that is refused has already put its length into the map. -/
theorem endWith_unsupported (halive : c.alive = true)
    (hstatus : Response.getStatusText c.response.status = none) (body : List UInt8)
    (accepted : Bool) :
    endWith body accepted c =
      .error (.thrown (responseException "Not supported status code."))
        { c with response := c.response.withContentLength body } := by
  have hsame := Response.withContentLength_status body c.response
  have hrun : statusText { c with response := c.response.withContentLength body } =
      .error (.thrown (responseException "Not supported status code."))
        { c with response := c.response.withContentLength body } := by
    rw [statusText, bind_ok (x := ask _) (t := { c with
      response := c.response.withContentLength body }) rfl]
    simp only [hsame, hstatus]
    rfl
  rw [endWith, bind_ok (touch_alive halive), bind_ok (x := onResponse _) rfl,
    bind_ok (x := ask _) rfl, bind_error hrun]

theorem length_endText (body : List UInt8) (response : Response) :
    (endText body response).length = response.textSize body := by
  have hversion : (ascii "HTTP/1.1 ").length = 9 := rfl
  have hspace : (ascii " ").length = 1 := rfl
  have hend : (ascii "\r\n").length = 2 := rfl
  simp only [endText, Response.responseText, List.length_append, Response.length_fields,
    Response.sum_fieldSize_withContentLength, Response.withContentLength_status,
    Response.textSize]
  omega

theorem carriesLength_end_iff (halive : c.alive = true) (hplain : c.response.Plain)
    (body : List UInt8) (accepted : Bool) :
    CarriesLength c (.endWith body accepted) (final (call (.endWith body accepted) c)) ↔
      Measures c (.endWith body accepted) := by
  simp only [CarriesLength, Measures]
  cases hstatus : Response.getStatusText c.response.status with
  | none =>
    have hcall : call (.endWith body accepted) c = .error _ _ :=
      bind_error (endWith_unsupported halive hstatus body accepted)
    simp only [hcall, returns, final, Bool.false_eq_true, if_false, Option.isSome_none, and_true]
    exact Response.headers_withContentLength_iff body c.response
  | some text =>
    have hsome : (Response.getStatusText c.response.status).isSome := hstatus ▸ rfl
    have hcall : call (.endWith body accepted) c = .ok () _ :=
      bind_ok (endWith_eq halive hsome body accepted)
    simp only [hcall, returns, final, if_true, Option.isSome_some]
    rw [← Response.hasOwnLength_iff hplain hsome, ← length_endText]
    constructor
    · rintro ⟨text', hwrote, hown⟩
      rw [List.append_cancel_left_eq, List.singleton_inj, Mark.wrote.injEq] at hwrote
      obtain ⟨rfl, hlen⟩ := hwrote
      exact ⟨hown, hlen⟩
    · rintro ⟨hown, hlen⟩
      exact ⟨_, by rw [hlen], hown⟩

/-- One call on a response that exists. -/
theorem carriesLength_call_iff (halive : c.alive = true) (hplain : c.response.Plain)
    (e : ResponseCall) : CarriesLength c e (final (call e c)) ↔ Measures c e := by
  cases e with
  | setStatus statusCode =>
    have hcall : call (.setStatus statusCode) c = .ok () _ := bind_ok (touch_alive halive)
    have htrace : (final (call _ c)).trace = c.trace := congrArg (fun r => (final r).trace) hcall
    exact iff_of_true htrace trivial
  | setHeader key value =>
    have hcall : call (.setHeader key value) c = .ok () _ := bind_ok (touch_alive halive)
    have htrace : (final (call _ c)).trace = c.trace := congrArg (fun r => (final r).trace) hcall
    exact iff_of_true htrace trivial
  | endWith body accepted => exact carriesLength_end_iff halive hplain body accepted

/-- The response stays, and a length in its map is one that `end` wrote. -/
theorem plain_call (halive : c.alive = true) (hplain : c.response.Plain) {e : ResponseCall}
    (he : e.SetsOther) : (final (call e c)).alive = true ∧ (final (call e c)).response.Plain := by
  cases e with
  | setStatus statusCode =>
    rw [show call (.setStatus statusCode) c = .ok () _ from bind_ok (touch_alive halive)]
    exact ⟨halive, hplain⟩
  | setHeader key value =>
    rw [show call (.setHeader key value) c = .ok () _ from bind_ok (touch_alive halive)]
    exact ⟨halive, hplain.setHeader he value⟩
  | endWith body accepted =>
    cases hstatus : Response.getStatusText c.response.status with
    | none =>
      rw [show call (.endWith body accepted) c = .error _ _ from
        bind_error (endWith_unsupported halive hstatus body accepted)]
      exact ⟨halive, hplain.withContentLength body⟩
    | some text =>
      rw [show call (.endWith body accepted) c = .ok () _ from
        bind_ok (endWith_eq halive (hstatus ▸ rfl) body accepted)]
      exact ⟨halive, hplain.withContentLength body⟩

/-- Every text that a sequence of calls hands to the socket carries the length of its own body,
and no `end` that throws changes the headers, exactly if each `end` measures its own body. -/
theorem carriesLength_iff {parser : S} {es : List ResponseCall} {d : ClientContext S}
    (hrun : responseSystem.Run (opened parser) es d) :
    responseSystem.AlongSteps CarriesLength (opened parser) es ↔
      (responseSystem.guard Measures).Run (opened parser) es d := by
  have hopened : (opened parser).alive = true ∧ (opened parser).response.Plain := by
    refine ⟨rfl, fun value hvalue => ?_⟩
    cases hvalue
  refine hrun.alongSteps_iff_guard (I := fun c => c.alive = true ∧ c.response.Plain) ?_ ?_ ?_
    hopened
  · rintro c e d d' ⟨-, rfl⟩ ⟨-, rfl⟩
    rfl
  · rintro c e d ⟨halive, hplain⟩ hmeasures ⟨he, rfl⟩
    exact ⟨plain_call halive hplain he, (carriesLength_call_iff halive hplain e).mpr hmeasures⟩
  · rintro c e d ⟨halive, hplain⟩ ⟨-, rfl⟩ hcarries
    exact (carriesLength_call_iff halive hplain e).mp hcarries

end Spec

instance (c : ClientContext S) : (e : ResponseCall) → Decidable (Measures c e)
  | .setStatus _ => isTrue trivial
  | .setHeader _ _ => isTrue trivial
  | .endWith _ _ => inferInstanceAs (Decidable (ite _ _ _))

/-- The context after a call, whatever the call throws. -/
def after (c : ClientContext S) (e : ResponseCall) : ClientContext S := final (call e c)

theorem step_after (c : ClientContext S) (e : ResponseCall) (he : e.SetsOther) :
    responseSystem.step c e (after c e) :=
  ⟨he, rfl⟩

theorem guard_step_after (c : ClientContext S) (e : ResponseCall)
    (he : e.SetsOther ∧ Measures c e) : (responseSystem.guard Measures).step c e (after c e) :=
  ⟨he.2, step_after c e he.1⟩

/-- A value that is read as two headers, three texts, and an `end` that is refused between
them. -/
def threeTexts : List ResponseCall :=
  [.setStatus 404, .setHeader (ascii "X") (ascii "a\r\nY: b"), .endWith (ascii "ab") true,
    .setStatus 200, .endWith (ascii "cd") true, .setStatus 999, .endWith (ascii "x") true,
    .setStatus 500, .endWith (ascii "ef") true]

theorem carriesLength_threeTexts :
    responseSystem.AlongSteps CarriesLength (opened ()) threeTexts := by
  have hguard : (responseSystem.guard Measures).Run (opened ()) threeTexts _ :=
    System.Run.of_executes guard_step_after (by decide)
  exact (carriesLength_iff hguard.of_guard).mpr hguard

/-- The length of the body of an `end` that was refused is written with the body of the next; and
a value with an empty line in it ends the headers that are read. -/
theorem carriesLength_false_stale :
    ¬ responseSystem.AlongSteps CarriesLength (opened ())
        [.setStatus 999, .endWith (ascii "a") true, .setStatus 200, .endWith (ascii "ab") true] ∧
      ¬ responseSystem.AlongSteps CarriesLength (opened ())
        [.setHeader (ascii "A") (ascii "x\r\n\r\n"), .endWith (ascii "ab") true] := by
  -- what the last call of a run needs
  have hlast {es : List ResponseCall} {c : ClientContext Unit}
      (hrun : responseSystem.Run (opened ()) es c) (hcontext : c.alive = true ∧ c.response.Plain)
      (halong : responseSystem.AlongSteps CarriesLength (opened ())
        (es ++ [.endWith (ascii "ab") true])) : Measures c (.endWith (ascii "ab") true) :=
    (carriesLength_call_iff hcontext.1 hcontext.2 _).mp
      (halong es _ c _ (List.prefix_refl _) hrun (step_after c _ trivial))
  constructor
  · have hrun : responseSystem.Run (opened ())
        [.setStatus 999, .endWith (ascii "a") true, .setStatus 200] _ :=
      System.Run.of_executes step_after (by decide)
    intro halong
    exact absurd (hlast hrun (by decide) halong) (by decide)
  · have hrun : responseSystem.Run (opened ()) [.setHeader (ascii "A") (ascii "x\r\n\r\n")] _ :=
      System.Run.of_executes step_after (by decide)
    intro halong
    exact absurd (hlast hrun (by decide) halong) (by decide)

end ClientContext

end LibraCore.Http
