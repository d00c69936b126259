import LibraCore.Http.HeaderFields

/-!
# Header names as keys

The maps of headers are ordered by `ci_less`. That order identifies two names exactly if they
are equal once `tolower` has been applied to each of their bytes, so that a map keeps one
value for a name, the one that was written last, and finds it in any case of the letters.
Two places write into such maps: `set_header`, and the callbacks of the parser when a field
is complete.

## Main results

- `ciLess_strictWeakOrder` — the axioms that `std::map` asks of its comparison
- `headerNames_keys` — what a map holds after any sequence of insertions
-/

namespace LibraCore.Http

open Execution (final bind_ok bind_error)

/-! ### The order -/

/-- `tolower` over the bytes of a name. -/
def lowered (s : List UInt8) : List UInt8 := s.map tolower

theorem folded_eq_iff (s t : List UInt8) : folded s = folded t ↔ lowered s = lowered t := by
  have hfolded : ∀ s, folded s = (lowered s).map UInt8.toNat := by
    intro s
    rw [lowered, List.map_map]
    rfl
  have hinj : Function.Injective UInt8.toNat := fun a b => UInt8.toNat_inj.mp
  rw [hfolded, hfolded]
  exact (List.map_injective_iff.mpr hinj).eq_iff

/-- What a comparison of `std::map` has to be; two names are the same if neither is less. -/
structure StrictWeakOrder (lt : List UInt8 → List UInt8 → Bool) : Prop where
  irrefl : ∀ s, lt s s = false
  trans : ∀ s t u, lt s t = true → lt t u = true → lt s u = true
  same_trans : ∀ s t u, SortedMap.Same lt s t → SortedMap.Same lt t u → SortedMap.Same lt s u

theorem ciLess_strictWeakOrder : StrictWeakOrder ciLess where
  irrefl s := by
    rw [← Bool.not_eq_true, ciLess_iff]
    exact lt_irrefl _
  trans s t u hst htu := by
    rw [ciLess_iff] at hst htu ⊢
    exact hst.trans htu
  same_trans s t u hst htu := by
    rw [same_iff] at hst htu ⊢
    exact hst.trans htu

/-! ### The maps -/

/-- The value that was inserted last under a name, in any case of its letters. -/
def lastInserted (es : List (List UInt8 × List UInt8)) (k : List UInt8) : Option (List UInt8) :=
  (es.reverse.find? fun e => lowered e.1 = lowered k).map Prod.snd

theorem lastInserted_eq (es : List (List UInt8 × List UInt8)) (k : List UInt8) :
    lastInserted es k = lastValue es k := by
  rw [lastInserted, lastValue]
  congr 2
  funext e
  exact decide_eq_decide.mpr (folded_eq_iff e.1 k).symm

/-- A map that some names and values have been inserted into. -/
structure Keyed (before : HeaderMap) (es : List (List UInt8 × List UInt8)) (after : HeaderMap) :
    Prop where
  /-- no two names differ in the case of letters only -/
  distinct : (after.entries.map fun e => lowered e.1).Nodup
  find_eq : ∀ k, after.find k = (lastInserted es k).or (before.find k)

theorem keyed_setAll (before : HeaderMap) (es : List (List UInt8 × List UInt8)) :
    Keyed before es (before.setAll es) := by
  refine ⟨?_, fun k => by rw [HeaderMap.find_setAll, lastInserted_eq]⟩
  have hnodup := (before.setAll es).nodup_names
  rw [List.Nodup, List.pairwise_map] at hnodup ⊢
  exact hnodup.imp fun hne hsame => hne ((folded_eq_iff _ _).mpr hsame)

/-- `set_header`, one call after the other. -/
def Response.setHeaders (es : List (List UInt8 × List UInt8)) (response : Response) : Response :=
  es.foldl (fun r e => r.setHeader e.1 e.2) response

theorem Response.headers_setHeaders (es : List (List UInt8 × List UInt8)) (response : Response) :
    (response.setHeaders es).headers = response.headers.setAll es := by
  induction es generalizing response with
  | nil => rfl
  | cons e es ih => exact ih (response.setHeader e.1 e.2)

/-! ### The callbacks of the parser -/

namespace ClientContext

variable {S : Type}

/-- The complete field that a callback writes into the map. -/
def flushed (parserCall : ParserCall) (c : ClientContext S) : List (List UInt8 × List UInt8) :=
  match parserCall with
  | .headerField _ =>
    if c.alive = true ∧ c.wasHeaderValue = true ∧ c.lastHeaderField ≠ [] then
      [(c.lastHeaderField, c.lastHeaderValue)] else []
  | .headersComplete =>
    if c.alive = true ∧ c.lastHeaderField ≠ [] then [(c.lastHeaderField, c.lastHeaderValue)] else []
  | _ => []

/-- The fields that the callbacks of one call of the parser write, in order. -/
def inserted (handling : Handling) : List ParserCall → ClientContext S →
    List (List UInt8 × List UInt8)
  | [], _ => []
  | parserCall :: rest, c => flushed parserCall c ++
    match callback handling parserCall c with
    | .ok result d => if result ≠ 0 then [] else inserted handling rest d
    | .error _ _ => []

theorem headers_onHeaderField {c : ClientContext S} (halive : c.alive = true) (text : List UInt8) :
    (onHeaderField text c).request.headers =
      c.request.headers.setAll (flushed (.headerField text) c) := by
  unfold onHeaderField flushed
  by_cases hvalue : c.wasHeaderValue = true
  · by_cases hfield : c.lastHeaderField ≠ []
    · rw [if_pos hvalue, if_pos hfield, if_pos ⟨halive, hvalue, hfield⟩]
      rfl
    · rw [if_pos hvalue, if_neg hfield, if_neg fun h => hfield h.2.2]
      rfl
  · rw [if_neg hvalue, if_neg fun h => hvalue h.2.1]
    rfl

theorem headers_onHeadersComplete {c : ClientContext S} (halive : c.alive = true) :
    (onHeadersComplete c).request.headers =
      c.request.headers.setAll (flushed .headersComplete c) := by
  simp only [onHeadersComplete, flushed]
  by_cases hfield : c.lastHeaderField ≠ []
  · rw [if_pos hfield, if_pos ⟨halive, hfield⟩]
    rfl
  · rw [if_neg hfield, if_neg fun h => hfield h.2]
    rfl

/-- The handler has no access to the headers of the request but to read them. -/
theorem headers_onMessageComplete {c : ClientContext S} (halive : c.alive = true)
    (handling : Handling) :
    (final (onMessageComplete handling c)).request.headers = c.request.headers := by
  have hclosed : UseClosed fun d : ClientContext S =>
      d.alive = true ∧ d.request.headers = c.request.headers :=
    ⟨fun d hd => hd.1, fun d f _ hd => hd, fun d text len hd => hd, fun d accepted hd => hd⟩
  have hkeeps : Execution.Keeps _ (fun _ : Fault => True) (onMessageComplete handling) :=
    (keeps_ask _).bind fun request => (keeps_update fun d hd => ⟨hd.1, hd.2⟩).bind fun _ =>
      (keeps_handle hclosed (fun _ => trivial) handling).bind fun _ => Execution.Keeps.pure 1
  exact (hkeeps.final ⟨halive, rfl⟩).2

theorem headers_url {c : ClientContext S} (halive : c.alive = true) (handling : Handling)
    (f : Fragment) :
    (final (callback handling (.url f) c)).request.headers = c.request.headers := by
  by_cases hf : f.Accepted
  · obtain ⟨handle, hrun⟩ := callback_url_accepted handling halive hf
    rw [hrun]
    rfl
  · obtain ⟨url', hurl⟩ := UrlObj.fromBuf_rejected hf c.request.url
    have hrun : callback handling (.url f) c = .error _ _ :=
      (bind_ok (touch_alive halive)).trans (bind_error (Execution.Place.run_error hurl))
    rw [hrun]
    rfl

/-- A callback writes what is complete, and nothing else. -/
theorem headers_callback (handling : Handling) (parserCall : ParserCall) (c : ClientContext S) :
    (final (callback handling parserCall c)).request.headers =
      c.request.headers.setAll (flushed parserCall c) := by
  cases halive : c.alive with
  | false =>
    have hnone : flushed parserCall c = [] := by
      cases parserCall <;> simp [flushed, halive]
    have hrun : callback handling parserCall c = .error .destroyed c :=
      bind_error (touch_dead halive)
    rw [hnone, hrun]
    rfl
  | true =>
    cases parserCall with
    | url f => exact headers_url halive handling f
    | headerField text =>
      have hrun : callback handling (.headerField text) c = .ok 0 (onHeaderField text c) :=
        bind_ok (touch_alive halive)
      rw [hrun]
      exact headers_onHeaderField halive text
    | headerValue text =>
      have hrun : callback handling (.headerValue text) c = .ok 0 (onHeaderValue text c) :=
        bind_ok (touch_alive halive)
      rw [hrun, onHeaderValue]
      split_ifs <;> rfl
    | headersComplete =>
      have hrun : callback handling .headersComplete c = .ok 0 (onHeadersComplete c) :=
        bind_ok (touch_alive halive)
      rw [hrun]
      exact headers_onHeadersComplete halive
    | body text =>
      have hrun : callback handling (.body text) c = .ok 0 (onBody text c) :=
        bind_ok (touch_alive halive)
      rw [hrun]
      rfl
    | messageComplete =>
      have hrun : callback handling .messageComplete c = onMessageComplete handling c :=
        bind_ok (touch_alive halive)
      rw [hrun]
      exact headers_onMessageComplete halive handling

/-- The callbacks of one call of the parser write one complete field after the other. -/
theorem headers_callbacks (handling : Handling) (calls : List ParserCall) (c : ClientContext S) :
    (final (callbacks handling calls c)).request.headers =
      c.request.headers.setAll (inserted handling calls c) := by
  induction calls generalizing c with
  | nil => rfl
  | cons parserCall rest ih =>
    have hfirst := headers_callback handling parserCall c
    rw [inserted, HeaderMap.setAll_append, ← hfirst, callbacks]
    cases hrun : callback handling parserCall c with
    | ok result d =>
      rw [bind_ok hrun]
      by_cases hresult : result ≠ 0
      · simp only [if_pos hresult]
        rfl
      · simp only [if_neg hresult]
        exact ih d
    | error f d =>
      rw [bind_error hrun]
      rfl

end ClientContext

/-- `ci_less` is a strict weak order that identifies the names that `tolower` makes equal; and
whatever `set_header` or the callbacks of the parser insert, no two names in the map are equal
but for the case of letters, and a lookup in any case finds what was inserted last. -/
theorem headerNames_keys :
    StrictWeakOrder ciLess ∧
    (∀ s t, SortedMap.Same ciLess s t ↔ s.map tolower = t.map tolower) ∧
    (∀ (response : Response) (es : List (List UInt8 × List UInt8)),
      Keyed response.headers es (response.setHeaders es).headers) ∧
    ∀ (S : Type) (c : ClientContext S) (handling : Handling) (calls : List ParserCall),
      let request := (final (ClientContext.callbacks handling calls c)).request
      let es := ClientContext.inserted handling calls c
      Keyed c.request.headers es request.headers ∧
        ∀ k, request.getHeader k = ((lastInserted es k).or (c.request.headers.find k)).getD [] ∧
          ∀ value, request.getHeaderInto k value =
            (((lastInserted es k).or (c.request.headers.find k)).isSome,
              ((lastInserted es k).or (c.request.headers.find k)).getD value) := by
  refine ⟨ciLess_strictWeakOrder, ?_, ?_, ?_⟩
  · intro s t
    rw [same_iff, folded_eq_iff]
    rfl
  · intro response es
    rw [Response.headers_setHeaders]
    exact keyed_setAll _ es
  · intro S c handling calls request es
    have hkeyed : Keyed c.request.headers es request.headers := by
      rw [ClientContext.headers_callbacks]
      exact keyed_setAll _ es
    refine ⟨hkeyed, fun k => ⟨?_, fun value => ?_⟩⟩
    · rw [Request.getHeader_eq, hkeyed.find_eq]
    · rw [Request.getHeaderInto_eq, hkeyed.find_eq]

end LibraCore.Http
