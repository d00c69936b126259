import LibraCore.Uv.HandleCalls

/-!
# Every report finds its callback

The calls that store callbacks and the functions that invoke them agree on a number and
on a C++ type by convention only. Along every run of a handle the callback of each
request made so far is in its own cell, under the type that the report casts to.

`CallbackTable.toCallbacks` is the table as a map from the kinds of event, which is how
the rest of the library sees it.

## Main results

- `HandleState.dispatches_of_reachable` — what libuv reports finds its callback object
- `HandleState.Sound.after` — the invariant, kept by every action
- `CallbackTable.toCallbacks_store` — a stored callback is what the map is updated with
-/

namespace LibraCore

/-! ### The table as a map -/

/-- The cells of a table as places for the kinds of event. -/
def CallbackId.layout : SlotTable.Layout CallbackId uvCidMax where
  index id := toSize id.value
  index_lt id := by cases id <;> decide
  injective id id' h := by
    cases id <;> cases id' <;> first | rfl | exact absurd h (by decide)

namespace CallbackTable

variable {K : Type} {t : CallbackTable K}

def toCallbacks (t : CallbackTable K) : Callbacks K :=
  ⟨fun id => (SlotTable.view CallbackId.layout t.lut id).map CallbackObject.callback⟩

theorem toCallbacks_new : (new uvCidMax : CallbackTable K).toCallbacks = .empty := by
  rw [toCallbacks, new, SlotTable.view_empty]
  rfl

theorem toCallbacks_store (hlen : t.lut.length = uvCidMax) {id : CallbackId}
    {x : CallbackObject K} {t' : CallbackTable K} (h : t.store id.value x = .ok t') :
    t'.toCallbacks = t.toCallbacks.store id x.callback := by
  rw [store_ok (by rw [hlen]; exact CallbackId.layout.index_lt id)] at h
  obtain rfl := Except.ok.inj h
  refine congrArg Callbacks.mk ?_
  funext id'
  show (SlotTable.view _ (t.lut.set (CallbackId.layout.index id) _) id').map _ = _
  rw [SlotTable.view_set hlen]
  by_cases hid : id' = id
  · subst hid
    rw [Function.update_self, Function.update_self]
    rfl
  · rw [Function.update_of_ne hid, Function.update_of_ne hid]
    rfl

/-- What `invoke` runs is what the map holds. -/
theorem toCallbacks_invoke {id : CallbackId} {args : Arguments} {x : CallbackObject K}
    (h : t.invoke id.value args = .ok x) : t.toCallbacks.invoke id = some x.callback := by
  have hview : SlotTable.view CallbackId.layout t.lut id = some x :=
    SlotTable.view_eq_some.mpr (invoke_eq_ok.mp h).1
  show (SlotTable.view CallbackId.layout t.lut id).map CallbackObject.callback = some x.callback
  rw [hview, Option.map_some]

end CallbackTable

namespace HandleState

variable {kind : HandleKind} {K : Type}

/-- The object stored for a request. -/
def slot (s : HandleState kind K) (r : Request kind) : Option (CallbackObject K) :=
  s.table.bind fun t => SlotTable.view (Request.layout kind) t.lut r

section Slot

variable {s : HandleState kind K} {h : UvHandle K} {t : CallbackTable K}

theorem slot_eq (huv : s.uvHandle = some h) (hdata : h.data = some t) (r : Request kind) :
    s.slot r = SlotTable.view (Request.layout kind) t.lut r := by
  rw [slot, table_eq huv hdata, Option.bind_some]

theorem slot_registered_self (hlen : t.lut.length = kind.idMax) (r : Request kind) (k : K) :
    (s.registered h t r k).slot r = some ⟨r.type, k, none, s.allocations⟩ := by
  rw [slot_eq rfl rfl]
  exact SlotTable.view_set_self (L := Request.layout kind) hlen r _

theorem slot_registered_of_ne (huv : s.uvHandle = some h) (hdata : h.data = some t)
    {r r' : Request kind} (hne : r' ≠ r) (k : K) :
    (s.registered h t r k).slot r' = s.slot r' := by
  rw [slot_eq huv hdata, slot_eq rfl rfl]
  exact SlotTable.view_set_of_ne (L := Request.layout kind) _ hne _

end Slot

/-- What holds between two actions. -/
structure Sound (s : HandleState kind K) : Prop where
  hasTable : s.HasTable
  /-- every request has its callback in place, under its type -/
  stored : s.uvHandle ≠ none → ∀ r ∈ s.requests, ∃ x, s.slot r = some x ∧ x.type = r.type
  /-- a callback runs only while the handle is there -/
  held : s.running ≠ none → s.uvHandle ≠ none
  last : ∀ i, s.running = some i → i.event.isClose = true → s.closed = true
  gone : s.uvHandle = none → s.closed = true

theorem sound_new : Sound (new kind K) where
  hasTable h huv := by
    obtain rfl := Option.some.inj huv
    exact ⟨_, rfl, CallbackTable.length_lut_new _⟩
  stored _ r hr := by cases hr
  held hrunning := absurd rfl hrunning
  last i hi := by cases hi
  gone hnone := by cases hnone

/-- Neither the `Handle` object nor a fault matters. -/
theorem Sound.frame {s : HandleState kind K} (hs : Sound s) (alive : Bool) (fault : Option Fault) :
    Sound { s with alive := alive, fault := fault } :=
  ⟨hs.hasTable, hs.stored, hs.held, hs.last, hs.gone⟩

/-- While a callback runs, the handle is there with its table. -/
theorem Sound.table_of_running {s : HandleState kind K} (hs : Sound s) {i : Invocation kind K}
    (hrunning : s.running = some i) : ∃ h t, s.uvHandle = some h ∧ h.data = some t := by
  have hthere : s.uvHandle ≠ none := by
    apply hs.held
    rw [hrunning]
    exact nofun
  obtain ⟨h, huv⟩ := Option.ne_none_iff_exists'.mp hthere
  obtain ⟨t, hdata, -⟩ := hs.hasTable h huv
  exact ⟨h, t, huv, hdata⟩

/-- The object that a report finds. -/
theorem Sound.found {s : HandleState kind K} (hs : Sound s) {e : Event kind}
    (henabled : s.Enabled (.fire e)) :
    ∃ h t x, s.uvHandle = some h ∧ h.data = some t ∧ t.lut.length = kind.idMax ∧
      t.invoke e.cid e.args = .ok x := by
  obtain ⟨-, hopen, r, hr, hreports⟩ := henabled
  have hthere : s.uvHandle ≠ none := by
    intro hnone
    rw [hs.gone hnone] at hopen
    cases hopen
  obtain ⟨h, huv⟩ := Option.ne_none_iff_exists'.mp hthere
  obtain ⟨t, hdata, hlen⟩ := hs.hasTable h huv
  obtain ⟨x, hx, htype⟩ := hs.stored hthere r hr
  rw [slot_eq huv hdata, SlotTable.view_eq_some] at hx
  refine ⟨h, t, x, huv, hdata, hlen, CallbackTable.invoke_eq_ok.mpr ⟨?_, ?_⟩⟩
  · rw [hreports.cid_eq]
    exact hx
  · rw [htype, hreports.type_eq]

/-- A report runs the callback stored for the request that it answers. -/
theorem Sound.after_fire_slot {s : HandleState kind K} (hs : Sound s) {r : Request kind}
    {e : Event kind} {x : CallbackObject K} (hrunning : s.running = none) (hopen : s.closed = false)
    (hr : r ∈ s.requests) (hreports : r.Reports e) (hslot : s.slot r = some x) :
    s.after (.fire e) = s.fired e x := by
  obtain ⟨h, t, x', huv, hdata, -, hx⟩ := hs.found ⟨hrunning, hopen, r, hr, hreports⟩
  have hcell := (CallbackTable.invoke_eq_ok.mp hx).1
  rw [slot_eq huv hdata, SlotTable.view_eq_some] at hslot
  rw [hreports.cid_eq] at hcell
  obtain rfl := Option.some.inj (Option.some.inj (hslot.symm.trans hcell))
  exact after_fire huv hdata hx

theorem Sound.registered {s : HandleState kind K} (hs : Sound s) {h : UvHandle K}
    {t : CallbackTable K} (huv : s.uvHandle = some h) (hdata : h.data = some t) (r : Request kind)
    (k : K) : Sound (s.registered h t r k) := by
  have hlen := hs.hasTable.length_lut huv hdata
  have hthere : s.uvHandle ≠ none := by
    rw [huv]
    exact nofun
  refine ⟨?_, ?_, fun _ => nofun, hs.last, nofun⟩
  · intro h' huv'
    obtain rfl := Option.some.inj huv'
    exact ⟨_, rfl, by rw [List.length_set, hlen]⟩
  · intro _ r' hr'
    by_cases hne : r' = r
    · subst hne
      exact ⟨_, slot_registered_self hlen r' k, rfl⟩
    · rw [slot_registered_of_ne huv hdata hne]
      obtain heq | hold := List.mem_cons.mp hr'
      · exact absurd heq hne
      · exact hs.stored hthere r' hold

theorem Sound.fired {s : HandleState kind K} (hs : Sound s) {h : UvHandle K}
    (huv : s.uvHandle = some h) (e : Event kind) (x : CallbackObject K) : Sound (s.fired e x) := by
  refine ⟨hs.hasTable, hs.stored, ?_, ?_, ?_⟩
  · intro _ hnone
    cases huv.symm.trans hnone
  · intro i hi hclose
    obtain rfl := Option.some.inj hi
    show (s.closed || e.isClose) = true
    rw [hclose, Bool.or_true]
  · intro hnone
    cases huv.symm.trans hnone

/-- The end of a callback leaves the handle as it is, or deletes it. -/
theorem Sound.leave_cases {s : HandleState kind K} (hs : Sound s) {i : Invocation kind K}
    (hrunning : s.running = some i) (threw : Bool) :
    ((i.event.isClose && !threw) = false ∧ s.after (.leave threw) = { s with running := none }) ∨
      ∃ h t, i.event.isClose = true ∧ threw = false ∧ s.uvHandle = some h ∧ h.data = some t ∧
        s.after (.leave threw) = s.deleted t := by
  cases hends : i.event.isClose && !threw with
  | false => exact .inl ⟨rfl, after_leave hrunning hends⟩
  | true =>
    rw [Bool.and_eq_true, Bool.not_eq_true'] at hends
    obtain ⟨hclose, rfl⟩ := hends
    obtain ⟨h, t, huv, hdata⟩ := hs.table_of_running hrunning
    exact .inr ⟨h, t, hclose, rfl, huv, hdata, after_leave_close hrunning hclose huv hdata⟩

theorem Sound.after {s : HandleState kind K} (hs : Sound s) {a : Action kind K}
    (henabled : s.Enabled a) : Sound (s.after a) := by
  cases a with
  | call c =>
    have hout := after_call hs.hasTable henabled c
    generalize s.after (.call c) = t at hout
    cases hout with
    | rejected => exact hs
    | answered => exact hs
    | registered huv hdata => exact hs.registered huv hdata _ _
    | dangling => exact hs.frame _ _
  | fire e =>
    obtain ⟨h, t, x, huv, hdata, -, hx⟩ := hs.found henabled
    rw [after_fire huv hdata hx]
    exact hs.fired huv e x
  | leave threw =>
    obtain ⟨i, hrunning⟩ := Option.isSome_iff_exists.mp henabled
    obtain ⟨-, hafter⟩ | ⟨h, t, hclose, -, -, -, hafter⟩ := hs.leave_cases hrunning threw
    · rw [hafter]
      exact ⟨hs.hasTable, hs.stored, absurd rfl, nofun, hs.gone⟩
    · rw [hafter]
      exact ⟨nofun, absurd rfl, absurd rfl, nofun, fun _ => hs.last i hrunning hclose⟩
  | destruct => exact hs.frame _ _

/-- A call that reaches for a handle that has been deleted. -/
def Dangles (s : HandleState kind K) : Action kind K → Prop
  | .call c => ¬ c.Rejected ∧ s.uvHandle = none
  | _ => False

/-- Nothing but a call on a deleted handle goes wrong. -/
theorem Sound.fault_after {s : HandleState kind K} (hs : Sound s) {a : Action kind K}
    (henabled : s.Enabled a) (hfault : s.fault = none) :
    (s.Dangles a ∧ (s.after a).fault = some .destroyed) ∨
      (¬ s.Dangles a ∧ (s.after a).fault = none) := by
  cases a with
  | call c =>
    have hout := after_call hs.hasTable henabled c
    generalize s.after (.call c) = t at hout
    cases hout with
    | rejected hrejected => exact .inr ⟨fun h => h.1 hrejected, hfault⟩
    | answered hthere => exact .inr ⟨fun h => hthere h.2, hfault⟩
    | registered huv =>
      refine .inr ⟨?_, hfault⟩
      rintro ⟨-, hnone⟩
      cases huv.symm.trans hnone
    | dangling hnot huv => exact .inl ⟨⟨hnot, huv⟩, rfl⟩
  | fire e =>
    obtain ⟨h, t, x, huv, hdata, -, hx⟩ := hs.found henabled
    rw [after_fire huv hdata hx]
    exact .inr ⟨not_false, hfault⟩
  | leave threw =>
    obtain ⟨i, hrunning⟩ := Option.isSome_iff_exists.mp henabled
    obtain ⟨-, hafter⟩ | ⟨h, t, -, -, -, -, hafter⟩ := hs.leave_cases hrunning threw
    · rw [hafter]
      exact .inr ⟨not_false, hfault⟩
    · rw [hafter]
      exact .inr ⟨not_false, hfault⟩
  | destruct => exact .inr ⟨not_false, hfault⟩

theorem sound_of_reachable {s : HandleState kind K} (h : (system kind K).Reachable s) : Sound s := by
  refine h.invariant ?_ ?_
  · rintro s rfl
    exact sound_new
  · rintro s a t ⟨-, henabled, rfl⟩ hs
    exact hs.after henabled

/-- Storing for one request leaves the cells of all others. -/
theorem Sound.slot_after_call {s : HandleState kind K} (hs : Sound s) (halive : s.alive = true)
    {c : Call K kind} {r : Request kind} (hother : ∀ k, c.starts ≠ some (r, k)) :
    (s.after (.call c)).slot r = s.slot r := by
  have hout := after_call hs.hasTable halive c
  generalize s.after (.call c) = t at hout
  cases hout with
  | rejected => rfl
  | answered => rfl
  | registered huv hdata hstarts =>
    apply slot_registered_of_ne huv hdata
    rintro rfl
    exact hother _ hstarts
  | dangling => rfl

/-- What `assert(x)` relies on: an index of the table, with an object of the type that the
report casts to. -/
def Dispatches (s : HandleState kind K) (e : Event kind) : Prop :=
  ∃ h t x, s.uvHandle = some h ∧ h.data = some t ∧ 0 ≤ e.cid ∧ e.cid.toNat < t.lut.length ∧
    t.lut[e.cid.toNat]? = some (some x) ∧ x.type = e.args.type

/-- In every state of every run, whatever libuv may report finds its callback object; no
access is out of range and no assertion fails; a call changes no cell but that of the
request it makes; and different requests have different indices. -/
theorem dispatches_of_reachable {s : HandleState kind K} (h : (system kind K).Reachable s) :
    (∀ e, s.Enabled (.fire e) → s.Dispatches e) ∧
      s.fault ≠ some .outOfBounds ∧ s.fault ≠ some .assertFailed ∧
      (∀ c r, s.Enabled (.call c) → (∀ k, c.starts ≠ some (r, k)) →
        (s.after (.call c)).slot r = s.slot r) ∧
      ∀ r r' : Request kind, r ≠ r' → r.cid ≠ r'.cid := by
  have hs := sound_of_reachable h
  have hfault : s.fault = none ∨ s.fault = some .destroyed := by
    have hboth : Sound s ∧ (s.fault = none ∨ s.fault = some .destroyed) := by
      refine h.invariant (P := fun s => Sound s ∧ (s.fault = none ∨ s.fault = some .destroyed)) ?_ ?_
      · rintro s rfl
        exact ⟨sound_new, .inl rfl⟩
      · rintro s a t ⟨hnone, henabled, rfl⟩ ⟨hs, -⟩
        obtain ⟨-, hafter⟩ | ⟨-, hafter⟩ := hs.fault_after henabled hnone
        · exact ⟨hs.after henabled, .inr hafter⟩
        · exact ⟨hs.after henabled, .inl hafter⟩
    exact hboth.2
  refine ⟨?_, ?_, ?_, fun c r henabled hother => hs.slot_after_call henabled hother,
    fun r r' hne heq => hne (Request.cid_injective heq)⟩
  · intro e henabled
    obtain ⟨r, -, hreports⟩ := henabled.2.2
    obtain ⟨h, t, x, huv, hdata, hlen, hx⟩ := hs.found henabled
    obtain ⟨hcell, htype⟩ := CallbackTable.invoke_eq_ok.mp hx
    obtain ⟨hnonneg, hlt⟩ := r.cid_lt
    rw [← hreports.cid_eq, ← hlen] at hlt
    rw [← hreports.cid_eq] at hnonneg
    have hindex : toSize e.cid = e.cid.toNat := by
      have hcast := r.cast_toSize_cid
      rw [hreports.cid_eq]
      omega
    exact ⟨h, t, x, huv, hdata, hnonneg, by omega, hindex ▸ hcell, htype⟩
  · obtain hnone | hdestroyed := hfault
    · rw [hnone]
      exact nofun
    · rw [hdestroyed]
      exact nofun
  · obtain hnone | hdestroyed := hfault
    · rw [hnone]
      exact nofun
    · rw [hdestroyed]
      exact nofun

/-- A signal handle that waits for the last signal and for its close event. -/
theorem dispatches_signal_and_close :
    let s : HandleState .signal ℕ :=
      ((new .signal ℕ).after (.call (.bind 64 1 0))).after (.call (.close 2))
    s.Dispatches (.signal 64) ∧ s.Dispatches .close ∧
      (s.after (.call (.bind 1 3 0))).slot .close = s.slot .close := by
  intro s
  let s₁ : HandleState .signal ℕ := (new .signal ℕ).after (.call (.bind 64 1 0))
  have h₁ : (system .signal ℕ).step (new .signal ℕ) (.call (.bind 64 1 0)) s₁ := ⟨rfl, rfl, rfl⟩
  have h₂ : (system .signal ℕ).step s₁ (.call (.close 2)) s := ⟨rfl, rfl, rfl⟩
  have hrun := (Transition.System.Run.single h₁).snoc h₂
  obtain ⟨hdispatches, -, -, hslot, -⟩ := dispatches_of_reachable ⟨_, _, rfl, hrun⟩
  refine ⟨?_, ?_, ?_⟩
  · exact hdispatches _ ⟨rfl, rfl, .signal 64 (by decide), by decide, .signal 64 (by decide)⟩
  · exact hdispatches _ ⟨rfl, rfl, .close, by decide, .close⟩
  · refine hslot (.bind 1 3 0) .close rfl ?_
    intro k hk
    cases hk

end HandleState

end LibraCore
