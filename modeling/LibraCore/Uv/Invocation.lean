import LibraCore.Uv.Dispatch

/-!
# A callback object and its own invocation

`invoke` takes a plain pointer out of a cell, and the cell is the only owner of the
object. A callback that makes the request again that it answers (a timer that is started
anew, a write that goes on from the last one) is stored in the same cell, and with that
the object that is running is destroyed. `close` alone is safe: when its callback runs,
the handle is closing, and a second `close` stores nothing.

## Main results

- `HandleState.intact_iff` — along a run no running object is destroyed exactly if no
  callback makes its own request again
- `HandleState.destroyed_by_restart` — a timer that is started from its callback
-/

namespace LibraCore

namespace HandleState

variable {kind : HandleKind} {K : Type}

/-- The callback object that is running has not been destroyed. -/
def Intact (s : HandleState kind K) : Prop :=
  ∀ i, s.running = some i → i.object.address ∉ s.destroyed

/-- A call from the callback that is running, for the report that the callback answers. -/
def Rearms (s : HandleState kind K) : Action kind K → Prop
  | .call c => ∃ i r k, s.running = some i ∧ c.starts = some (r, k) ∧ r.Reports i.event ∧
      r.isClose = false
  | _ => False

/-- The table owns its objects, and the one that is running is still in its cell. -/
structure Kept (s : HandleState kind K) : Prop where
  sound : Sound s
  owned : ∀ t, s.table = some t →
    SlotTable.Owned CallbackObject.address t.lut s.allocations s.destroyed
  running : ∀ i t, s.running = some i → s.table = some t →
    ∃ r ∈ s.requests, r.Reports i.event ∧ t.lut[toSize r.cid]? = some (some i.object)
  closing : ∀ h, s.uvHandle = some h → Request.close ∈ s.requests → h.closing = true

theorem kept_new : Kept (new kind K) where
  sound := sound_new
  owned t ht := by
    obtain rfl := Option.some.inj ht
    exact SlotTable.Owned.replicate_none _ _
  running i t hi := by cases hi
  closing h _ hmem := by cases hmem

theorem Kept.intact {s : HandleState kind K} (hs : Kept s) : Intact s := by
  intro i hi
  obtain ⟨h, t, huv, hdata⟩ := hs.sound.table_of_running hi
  obtain ⟨r, -, -, hcell⟩ := hs.running i t hi (table_eq huv hdata)
  exact (hs.owned t (table_eq huv hdata)).live hcell

/-- Two requests that a report answers are the same. -/
theorem eq_of_reports {r r' : Request kind} {e : Event kind} (h : r.Reports e) (h' : r'.Reports e) :
    r = r' := by
  apply Request.cid_injective
  rw [← h.cid_eq, h'.cid_eq]

/-- A request whose callback is not running, or that of the close event. -/
theorem Kept.registered {s : HandleState kind K} (hs : Kept s) {h : UvHandle K}
    {t : CallbackTable K} (huv : s.uvHandle = some h) (hdata : h.data = some t) {r : Request kind}
    {k : K} (hopen : r.isClose = true → h.closing = false)
    (hnot : ∀ i, s.running = some i → r.Reports i.event → r.isClose = true) :
    Kept (s.registered h t r k) := by
  have htable := table_eq huv hdata
  refine ⟨hs.sound.registered huv hdata r k, ?_, ?_, ?_⟩
  · intro t' ht'
    obtain rfl := Option.some.inj ht'
    exact (hs.owned t htable).set rfl
  · intro i t' hi ht'
    obtain rfl := Option.some.inj ht'
    obtain ⟨r', hr', hreports, hcell⟩ := hs.running i t hi htable
    have hne : r ≠ r' := by
      rintro rfl
      have hclose := hnot i hi hreports
      -- the running callback is that of the close event, so the handle is closing
      obtain rfl : r = .close := by
        cases r with
        | close => rfl
        | _ => cases hclose
      rw [hs.closing h huv hr'] at hopen
      cases hopen rfl
    have hindex : toSize r.cid ≠ toSize r'.cid := fun heq =>
      hne ((Request.layout kind).injective heq)
    refine ⟨r', List.mem_cons_of_mem _ hr', hreports, ?_⟩
    rw [List.getElem?_set_ne hindex]
    exact hcell
  · intro h' huv' hmem
    obtain rfl := Option.some.inj huv'
    show (h.closing || r.isClose) = true
    obtain rfl | hold := List.mem_cons.mp hmem
    · exact Bool.or_true _
    · rw [hs.closing h huv hold, Bool.true_or]

theorem Kept.after {s : HandleState kind K} (hs : Kept s) {a : Action kind K}
    (henabled : s.Enabled a) (hnot : ¬ s.Rearms a) : Kept (s.after a) := by
  cases a with
  | call c =>
    have hout := after_call hs.sound.hasTable henabled c
    generalize s.after (.call c) = t at hout
    cases hout with
    | rejected => exact hs
    | answered => exact hs
    | registered huv hdata hstarts hopen =>
      refine hs.registered huv hdata hopen ?_
      intro i hi hreports
      by_contra hclose
      exact hnot ⟨i, _, _, hi, hstarts, hreports, Bool.eq_false_of_not_eq_true hclose⟩
    | dangling => exact ⟨hs.sound.frame _ _, hs.owned, hs.running, hs.closing⟩
  | fire e =>
    obtain ⟨h, t, x, huv, hdata, -, hx⟩ := hs.sound.found henabled
    obtain ⟨r, hr, hreports⟩ := henabled.2.2
    rw [after_fire huv hdata hx]
    refine ⟨hs.sound.fired huv e x, hs.owned, ?_, hs.closing⟩
    intro i t' hi ht'
    obtain rfl := Option.some.inj hi
    obtain rfl := Option.some.inj ((table_eq huv hdata).symm.trans ht')
    refine ⟨r, hr, hreports, ?_⟩
    rw [← hreports.cid_eq]
    exact (CallbackTable.invoke_eq_ok.mp hx).1
  | leave threw =>
    have hsound := hs.sound.after henabled
    obtain ⟨i, hrunning⟩ := Option.isSome_iff_exists.mp henabled
    obtain ⟨-, hafter⟩ | ⟨h, t, -, -, -, -, hafter⟩ := hs.sound.leave_cases hrunning threw
    · rw [hafter] at hsound ⊢
      exact ⟨hsound, hs.owned, nofun, hs.closing⟩
    · rw [hafter] at hsound ⊢
      exact ⟨hsound, nofun, nofun, nofun⟩
  | destruct => exact ⟨hs.sound.after henabled, hs.owned, hs.running, hs.closing⟩

/-- The request made again destroys the object that is running. -/
theorem Kept.not_intact_of_rearms {s : HandleState kind K} (hs : Kept s) {a : Action kind K}
    (henabled : s.Enabled a) (hrearms : s.Rearms a) : ¬ Intact (s.after a) := by
  cases a with
  | call c =>
    obtain ⟨i, r, k, hi, hstarts, hreports, hclose⟩ := hrearms
    obtain ⟨h, t, hthere, -⟩ := hs.sound.table_of_running hi
    have hout := after_call hs.sound.hasTable henabled c
    generalize s.after (.call c) = t at hout
    cases hout with
    | rejected hrejected =>
      rw [Call.starts_of_rejected hrejected] at hstarts
      cases hstarts
    | answered _ h =>
      rw [(h r k hstarts).1] at hclose
      cases hclose
    | registered huv hdata hstarts' =>
      obtain ⟨rfl, rfl⟩ := Prod.mk.inj (Option.some.inj (hstarts.symm.trans hstarts'))
      obtain ⟨r', -, hreports', hcell⟩ := hs.running i _ hi (table_eq huv hdata)
      obtain rfl := eq_of_reports hreports hreports'
      intro hintact
      refine hintact i hi (List.mem_append_right _ (List.mem_map.mpr ⟨i.object, ?_, rfl⟩))
      rw [Option.mem_toList, CallbackTable.cell, hcell]
      rfl
    | dangling _ huv => cases hthere.symm.trans huv
  | _ => exact hrearms.elim

/-- Along a run, no callback object is destroyed before its invocation has ended exactly if
no callback makes the request again that it answers. -/
theorem intact_iff {s : HandleState kind K} {as : List (Action kind K)}
    (hrun : (system kind K).Run (new kind K) as s) :
    (system kind K).Along Intact (new kind K) as ↔
      ((system kind K).guard fun s a => ¬ s.Rearms a).Run (new kind K) as s := by
  refine hrun.along_iff_guard (I := Kept) ?_ (fun s hs => hs.intact) ?_ ?_ kept_new
  · rintro s a t u ⟨-, -, rfl⟩ ⟨-, -, rfl⟩
    rfl
  · rintro s a t hs hnot ⟨-, henabled, rfl⟩
    exact hs.after henabled hnot
  · rintro s a t hs ⟨-, henabled, rfl⟩ hintact hrearms
    exact hs.not_intact_of_rearms henabled hrearms hintact

/-- A write whose callback shuts the stream down and closes it. -/
theorem intact_write_then_close :
    (system .tcp ℕ).Along Intact (new .tcp ℕ)
      [.call (.write 1 0), .fire (.write 0), .call (.shutdown 2 0), .call (.close 3)] := by
  let s₁ : HandleState .tcp ℕ := (new .tcp ℕ).after (.call (.write 1 0))
  let s₂ := s₁.after (.fire (.write 0))
  let s₃ := s₂.after (.call (.shutdown 2 0))
  have h₁ : (system .tcp ℕ).step (new .tcp ℕ) (.call (.write 1 0)) s₁ := ⟨rfl, rfl, rfl⟩
  have h₂ : (system .tcp ℕ).step s₁ (.fire (.write 0)) s₂ :=
    ⟨rfl, ⟨rfl, rfl, .write, by decide, .write 0⟩, rfl⟩
  have h₃ : (system .tcp ℕ).step s₂ (.call (.shutdown 2 0)) s₃ := ⟨rfl, rfl, rfl⟩
  have h₄ : (system .tcp ℕ).step s₃ (.call (.close 3)) (s₃.after (.call (.close 3))) :=
    ⟨rfl, rfl, rfl⟩
  refine (intact_iff (((Transition.System.Run.single h₁).snoc h₂).snoc h₃ |>.snoc h₄)).mpr ?_
  refine (((Transition.System.Run.guard_single ?_ h₁).guard_snoc not_false h₂).guard_snoc
    ?_ h₃).guard_snoc ?_ h₄
  · rintro ⟨i, r, k, hi, -⟩
    cases hi
  · rintro ⟨i, r, k, hi, hr, hreports, -⟩
    cases hi
    cases hr
    cases hreports
  · rintro ⟨i, r, k, hi, hr, hreports, -⟩
    cases hi
    cases hr
    cases hreports

/-- A timer whose callback starts it again: the object that runs is destroyed under it. -/
theorem destroyed_by_restart :
    ∃ s : HandleState .timer ℕ, (system .timer ℕ).Reachable s ∧
      s.running.map (fun i => i.object.address) = some 0 ∧ s.destroyed = [0] ∧ ¬ Intact s := by
  let s₁ : HandleState .timer ℕ := (new .timer ℕ).after (.call (.timerStart 1 0))
  let s₂ := s₁.after (.fire .timeout)
  have h₁ : (system .timer ℕ).step (new .timer ℕ) (.call (.timerStart 1 0)) s₁ := ⟨rfl, rfl, rfl⟩
  have h₂ : (system .timer ℕ).step s₁ (.fire .timeout) s₂ :=
    ⟨rfl, ⟨rfl, rfl, .timerStart, by decide, .timeout⟩, rfl⟩
  have h₃ : (system .timer ℕ).step s₂ (.call (.timerStart 1 0)) (s₂.after (.call (.timerStart 1 0))) :=
    ⟨rfl, rfl, rfl⟩
  refine ⟨_, ⟨_, _, rfl, ((Transition.System.Run.single h₁).snoc h₂).snoc h₃⟩, rfl, rfl, ?_⟩
  intro hintact
  exact hintact ⟨.timeout, ⟨.nullary, 1, none, 0⟩⟩ rfl (List.mem_singleton.mpr rfl)

end HandleState

end LibraCore
