import LibraCore.Uv.Dispatch

/-!
# The life of a libuv handle

`close` leaves the deletion of the libuv handle to the function it gives to `uv_close`.
That function sees the libuv handle only: it cannot reset `uv_handle_` of the `Handle`,
which goes on to point at what has been deleted, and the null tests of `is_active` and
`is_closing` let it through.

## Main results

- `HandleState.endsWell_iff` — the handle is left alone once deleted exactly if no call
  comes after the close event
- `HandleState.used_after_close` — `is_active` after the close event
-/

namespace LibraCore

/-- The callback that an action wants to be run when the handle is closed. -/
def Action.closes {kind : HandleKind} {K : Type} : Action kind K → Option K
  | .call (.close k) => some k
  | _ => none

namespace HandleState

variable {kind : HandleKind} {K : Type}

/-- The callback of the first `close`. -/
def firstClose (as : List (Action kind K)) : Option K := as.findSome? Action.closes

/-- libuv has reported the close event, and its callback has returned. -/
def CloseEventOver (as : List (Action kind K)) : Prop :=
  ∃ before after, as = before ++ .fire .close :: after ∧ .leave false ∈ after

/-- After the close event no call gets as far as the handle. -/
def CallsInTime (as : List (Action kind K)) : Prop :=
  ∀ before c after, as = before ++ .call c :: after → CloseEventOver before → c.Rejected

/-- The callbacks that were run for the close event. -/
def closeInvoked (s : HandleState kind K) : List K :=
  (s.invoked.filter fun i => i.event.isClose).map fun i => i.object.callback

/-- What a run is to look like at its end: the deleted handle was not used, nothing was
deleted twice, and the close event ran the callback of the first `close`, once. -/
structure EndsWell (as : List (Action kind K)) (s : HandleState kind K) : Prop where
  untouched : s.fault ≠ some .destroyed
  deletedOnce : s.deletedTables ≤ 1 ∧ s.deletedHandles ≤ 1
  reported : .fire .close ∈ as → ∃ k, firstClose as = some k ∧ s.closeInvoked = [k]
  unreported : .fire .close ∉ as → s.closeInvoked = []

/-! ### The events of a run, one more at a time -/

theorem closeEventOver_snoc {as : List (Action kind K)} {a : Action kind K} :
    CloseEventOver (as ++ [a]) ↔ CloseEventOver as ∨ (a = .leave false ∧ .fire .close ∈ as) := by
  constructor
  · rintro ⟨before, after, has, hleave⟩
    obtain ⟨init, b, rfl⟩ := List.eq_nil_or_concat after |>.resolve_left (List.ne_nil_of_mem hleave)
    rw [List.concat_eq_append, ← List.cons_append, ← List.append_assoc] at has
    obtain ⟨rfl, hb⟩ := List.append_inj' has rfl
    obtain rfl := List.singleton_inj.mp hb
    rw [List.concat_eq_append, List.mem_append, List.mem_singleton] at hleave
    obtain hleave | rfl := hleave
    · exact .inl ⟨before, init, rfl, hleave⟩
    · exact .inr ⟨rfl, List.mem_append_right _ List.mem_cons_self⟩
  · rintro (⟨before, after, rfl, hleave⟩ | ⟨rfl, hfire⟩)
    · exact ⟨before, after ++ [a], by simp, List.mem_append_left _ hleave⟩
    · obtain ⟨before, after, rfl⟩ := List.append_of_mem hfire
      exact ⟨before, after ++ [.leave false], by simp, by simp⟩

theorem callsInTime_snoc {as : List (Action kind K)} {a : Action kind K} :
    CallsInTime (as ++ [a]) ↔
      CallsInTime as ∧ ∀ c, a = .call c → CloseEventOver as → c.Rejected := by
  constructor
  · intro h
    refine ⟨?_, ?_⟩
    · rintro before c after rfl
      exact h before c (after ++ [a]) (by simp)
    · rintro c rfl
      exact h as c [] rfl
  · rintro ⟨hinit, hlast⟩ before c after has
    obtain rfl | ⟨rest, b, rfl⟩ := List.eq_nil_or_concat after
    · obtain ⟨rfl, ha⟩ := List.append_inj' has rfl
      exact hlast c (List.singleton_inj.mp ha)
    · rw [List.concat_eq_append, ← List.cons_append, ← List.append_assoc] at has
      obtain ⟨rfl, -⟩ := List.append_inj' has rfl
      exact hinit before c rest rfl

/-- No call is late when all of them come before a callback has returned. -/
theorem callsInTime_append {init rest : List (Action kind K)} (hinit : .leave false ∉ init)
    (hrest : ∀ c, .call c ∉ rest) : CallsInTime (init ++ rest) := by
  intro before c after has hover
  obtain ⟨pre, post, rfl, hleave⟩ := hover
  obtain ⟨mid, -, hmid⟩ | ⟨mid, hmid, -⟩ := List.append_eq_append_iff.mp has
  · exact absurd (hmid ▸ List.mem_append_right _ List.mem_cons_self) (hrest c)
  · refine absurd ?_ hinit
    rw [hmid]
    exact List.mem_append_left _ (List.mem_append_right _ (List.mem_cons_of_mem _ hleave))

theorem firstClose_snoc (as : List (Action kind K)) (a : Action kind K) :
    firstClose (as ++ [a]) = (firstClose as).or a.closes := by
  rw [firstClose, List.findSome?_append]
  congr 1
  rw [List.findSome?_cons, List.findSome?_nil]
  cases a.closes <;> rfl

/-- `close` is the call that makes the close request. -/
theorem closes_call (c : Call K kind) (k : K) :
    Action.closes (.call c) = some k ↔ c.starts = some (.close, k) := by
  cases c with
  | close k' => simp [Action.closes, Call.starts]
  | bind signalNum k' ret =>
    simp only [Action.closes, Call.starts]
    split <;> simp
  | _ => simp [Action.closes, Call.starts]

/-! ### What a run leaves on record -/

/-- How the state reflects the events so far. -/
structure Recorded (as : List (Action kind K)) (s : HandleState kind K) : Prop where
  sound : Sound s
  closed_iff : s.closed = true ↔ .fire .close ∈ as
  gone_iff : s.uvHandle = none ↔ CloseEventOver as
  tables : s.deletedTables = s.uvHandle.isNone.toNat
  handles : s.deletedHandles = s.uvHandle.isNone.toNat
  /-- a callback that runs after the close event is that of the close event -/
  final : s.closed = true → ∀ i, s.running = some i → i.event.isClose = true
  asked : ∀ h, s.uvHandle = some h → (h.closing = true ↔ Request.close ∈ s.requests)
  answers : s.closed = true → Request.close ∈ s.requests
  unasked : Request.close ∉ s.requests → firstClose as = none
  /-- the callback in the cell of the close event is that of the first `close` -/
  first : Request.close ∈ s.requests →
    ∃ k, firstClose as = some k ∧ ∀ x, s.slot .close = some x → x.callback = k
  invoked : s.closeInvoked = if s.closed then (firstClose as).toList else []

theorem recorded_new : Recorded [] (new kind K) where
  sound := sound_new
  closed_iff := ⟨nofun, nofun⟩
  gone_iff := ⟨nofun, by rintro ⟨before, after, has, -⟩; simp at has⟩
  tables := rfl
  handles := rfl
  final := nofun
  asked h huv := by
    obtain rfl := Option.some.inj huv
    exact ⟨nofun, nofun⟩
  answers := nofun
  unasked _ := rfl
  first := nofun
  invoked := rfl

variable {as : List (Action kind K)} {s : HandleState kind K}

/-- A later `close` is not the first. -/
theorem Recorded.firstClose_snoc_of_mem (hs : Recorded as s) (h : Request.close ∈ s.requests)
    (a : Action kind K) : firstClose (as ++ [a]) = firstClose as := by
  obtain ⟨k, hfirst, -⟩ := hs.first h
  rw [firstClose_snoc, hfirst, Option.some_or]

theorem firstClose_snoc_of_none {a : Action kind K} (h : a.closes = none) :
    firstClose (as ++ [a]) = firstClose as := by
  rw [firstClose_snoc, h, Option.or_none]

/-- An action that changes neither the libuv handle nor what was asked for. -/
private theorem Recorded.frame (hs : Recorded as s) {a : Action kind K}
    (hfire : a ≠ .fire .close) (hleave : a ≠ .leave false)
    (hfirst : firstClose (as ++ [a]) = firstClose as) (alive : Bool) (fault : Option Fault) :
    Recorded (as ++ [a]) { s with alive := alive, fault := fault } := by
  refine ⟨hs.sound.frame alive fault, ?_, ?_, hs.tables, hs.handles, hs.final, hs.asked, hs.answers, ?_, ?_, ?_⟩
  · show s.closed = true ↔ _
    rw [hs.closed_iff, List.mem_append, List.mem_singleton, or_iff_left fun h => hfire h.symm]
  · show s.uvHandle = none ↔ _
    rw [hs.gone_iff, closeEventOver_snoc, or_iff_left fun h => hleave h.1]
  · rw [hfirst]
    exact hs.unasked
  · rw [hfirst]
    exact hs.first
  · rw [hfirst]
    exact hs.invoked

private theorem Recorded.registered (hs : Recorded as s) {c : Call K kind} {h : UvHandle K}
    {t : CallbackTable K} {r : Request kind} {k : K} (huv : s.uvHandle = some h)
    (hdata : h.data = some t) (hstarts : c.starts = some (r, k))
    (hopen : r.isClose = true → h.closing = false) :
    Recorded (as ++ [.call c]) (s.registered h t r k) := by
  have hsound := hs.sound.registered huv hdata r k
  have hlen := hs.sound.hasTable.length_lut huv hdata
  have hgone : ¬ CloseEventOver as := by
    rw [← hs.gone_iff, huv]
    exact nofun
  have hclosed : s.closed = true ↔ .fire .close ∈ as ++ [Action.call c] := by
    rw [hs.closed_iff, List.mem_append, List.mem_singleton, or_iff_left nofun]
  have hover : (s.registered h t r k).uvHandle = none ↔ CloseEventOver (as ++ [.call c]) := by
    rw [closeEventOver_snoc, or_iff_left fun h => nomatch h.1]
    exact ⟨nofun, fun hover => absurd hover hgone⟩
  have htables : s.deletedTables = 0 := by
    rw [hs.tables, huv]
    rfl
  have hhandles : s.deletedHandles = 0 := by
    rw [hs.handles, huv]
    rfl
  by_cases hr : r = .close
  · -- the first `close`: until now the handle was not closing
    subst hr
    have hnew : Request.close ∉ s.requests := by
      rw [← hs.asked h huv, hopen rfl]
      exact nofun
    have hfirst : firstClose (as ++ [.call c]) = some k := by
      rw [firstClose_snoc, hs.unasked hnew, Option.none_or]
      exact (closes_call c k).mpr hstarts
    have hnot : s.closed = false := by
      by_contra hclosed
      exact hnew (hs.answers (Bool.eq_true_of_not_eq_false hclosed))
    refine ⟨hsound, hclosed, hover, htables, hhandles, hs.final, ?_, fun _ => List.mem_cons_self,
      fun h => absurd List.mem_cons_self h, ?_, ?_⟩
    · intro h' huv'
      obtain rfl := Option.some.inj huv'
      exact ⟨fun _ => List.mem_cons_self, fun _ => Bool.or_true _⟩
    · intro _
      refine ⟨k, hfirst, ?_⟩
      intro x hx
      rw [slot_registered_self hlen] at hx
      obtain rfl := Option.some.inj hx
      rfl
    · show s.closeInvoked = if s.closed then _ else []
      rw [hs.invoked, hnot]
      rfl
  · have hnone : Action.closes (.call c) = none := by
      by_contra hsome
      obtain ⟨k', hk'⟩ := Option.ne_none_iff_exists'.mp hsome
      rw [closes_call, hstarts] at hk'
      exact hr (Prod.mk.inj (Option.some.inj hk')).1
    have hfirst : firstClose (as ++ [.call c]) = firstClose as := firstClose_snoc_of_none hnone
    have hmem : Request.close ∈ r :: s.requests ↔ Request.close ∈ s.requests := by
      rw [List.mem_cons, or_iff_right fun h => hr h.symm]
    refine ⟨hsound, hclosed, hover, htables, hhandles, hs.final, ?_,
      fun h => hmem.mpr (hs.answers h), ?_, ?_, ?_⟩
    · intro h' huv'
      obtain rfl := Option.some.inj huv'
      show (h.closing || r.isClose) = true ↔ Request.close ∈ r :: s.requests
      have hopen' : r.isClose = false := by
        cases r with
        | close => exact absurd rfl hr
        | _ => rfl
      rw [hmem, ← hs.asked h huv, hopen', Bool.or_false]
    · intro hnot
      rw [hfirst]
      exact hs.unasked fun h => hnot (hmem.mpr h)
    · intro h
      obtain ⟨k', hk', hslot⟩ := hs.first (hmem.mp h)
      refine ⟨k', hfirst.trans hk', ?_⟩
      intro x hx
      rw [slot_registered_of_ne huv hdata fun h => hr h.symm] at hx
      exact hslot x hx
    · rw [hfirst]
      exact hs.invoked

private theorem Recorded.fired (hs : Recorded as s) {e : Event kind}
    (henabled : s.Enabled (.fire e)) {h : UvHandle K} {t : CallbackTable K} {x : CallbackObject K}
    (huv : s.uvHandle = some h) (hdata : h.data = some t) (hx : t.invoke e.cid e.args = .ok x) :
    Recorded (as ++ [.fire e]) (s.fired e x) := by
  obtain ⟨-, hopen, r, hr, hreports⟩ := henabled
  have hclose : e.isClose = true ↔ e = .close := by
    cases e with
    | close => exact ⟨fun _ => rfl, fun _ => rfl⟩
    | _ => exact ⟨nofun, nofun⟩
  have hasked : e.isClose = true → Request.close ∈ s.requests := by
    intro he
    rw [hreports.isClose_eq] at he
    cases r with
    | close => exact hr
    | _ => cases he
  have hfirst : firstClose (as ++ [.fire e]) = firstClose as := firstClose_snoc_of_none rfl
  have hcloses : (s.closed || e.isClose) = e.isClose := by
    rw [hopen, Bool.false_or]
  refine ⟨hs.sound.fired huv e x, ?_, ?_, hs.tables, hs.handles, ?_, hs.asked, ?_, ?_, ?_, ?_⟩
  · show (s.closed || e.isClose) = true ↔ _
    have hnot : Action.fire Event.close ∉ as := by
      rw [← hs.closed_iff, hopen]
      exact nofun
    rw [hcloses, hclose, List.mem_append, or_iff_right hnot, List.mem_singleton, Action.fire.injEq,
      eq_comm]
  · show s.uvHandle = none ↔ _
    rw [hs.gone_iff, closeEventOver_snoc, or_iff_left fun h => nomatch h.1]
  · intro hclosed i hi
    obtain rfl := Option.some.inj hi
    exact hcloses.symm.trans hclosed
  · intro hclosed
    exact hasked (hcloses.symm.trans hclosed)
  · rw [hfirst]
    exact hs.unasked
  · rw [hfirst]
    exact hs.first
  · show (s.fired e x).closeInvoked = if s.closed || e.isClose then _ else []
    have hsilent : s.closeInvoked = [] := by
      rw [hs.invoked, hopen]
      rfl
    have hinvoked : (s.fired e x).closeInvoked =
        s.closeInvoked ++ if e.isClose then [x.callback] else [] := by
      rw [closeInvoked, HandleState.fired, List.filter_append, List.map_append]
      congr 1
      cases h : e.isClose <;> simp [h]
    rw [hinvoked, hsilent, hcloses, hfirst, List.nil_append]
    cases he : e.isClose with
    | false => rfl
    | true =>
      -- what runs is what the first `close` has stored
      obtain ⟨k, hk, hslot⟩ := hs.first (hasked he)
      obtain rfl := hclose.mp he
      have hcell : s.slot .close = some x := by
        rw [slot_eq huv hdata, SlotTable.view_eq_some]
        exact (CallbackTable.invoke_eq_ok.mp hx).1
      rw [hk, hslot x hcell]
      rfl

private theorem Recorded.left (hs : Recorded as s) {i : Invocation kind K}
    (hrunning : s.running = some i) (threw : Bool) :
    Recorded (as ++ [.leave threw]) (s.after (.leave threw)) := by
  have hsound : Sound (s.after (.leave threw)) :=
    hs.sound.after (Option.isSome_iff_exists.mpr ⟨i, hrunning⟩)
  have hfirst : firstClose (as ++ [.leave threw]) = firstClose as := firstClose_snoc_of_none rfl
  have hclosed : s.closed = true ↔ .fire .close ∈ as ++ [Action.leave threw] := by
    rw [hs.closed_iff, List.mem_append, List.mem_singleton, or_iff_left nofun]
  obtain ⟨hstays, hafter⟩ | ⟨h, t, hclose, rfl, huv, -, hafter⟩ :=
    hs.sound.leave_cases hrunning threw
  · rw [hafter] at hsound ⊢
    have hnot : ¬ (Action.leave threw = (.leave false : Action kind K) ∧ .fire .close ∈ as) := by
      rintro ⟨hthrew, hfire⟩
      rw [hs.final (hs.closed_iff.mpr hfire) i hrunning, Action.leave.inj hthrew] at hstays
      cases hstays
    refine ⟨hsound, hclosed, ?_, hs.tables, hs.handles, nofun, hs.asked, hs.answers, ?_, ?_, ?_⟩
    · show s.uvHandle = none ↔ _
      rw [hs.gone_iff, closeEventOver_snoc, or_iff_left hnot]
    · rw [hfirst]
      exact hs.unasked
    · rw [hfirst]
      exact hs.first
    · rw [hfirst]
      exact hs.invoked
  · rw [hafter] at hsound ⊢
    have hover : CloseEventOver (as ++ [.leave false]) :=
      closeEventOver_snoc.mpr (.inr ⟨rfl, hs.closed_iff.mp (hs.sound.last i hrunning hclose)⟩)
    refine ⟨hsound, hclosed, ⟨fun _ => hover, fun _ => rfl⟩, ?_, ?_, nofun, nofun, hs.answers,
      ?_, ?_, ?_⟩
    · show s.deletedTables + 1 = 1
      rw [hs.tables, huv]
      rfl
    · show s.deletedHandles + 1 = 1
      rw [hs.handles, huv]
      rfl
    · rw [hfirst]
      exact hs.unasked
    · intro hasked
      obtain ⟨k, hk, -⟩ := hs.first hasked
      exact ⟨k, hfirst.trans hk, nofun⟩
    · rw [hfirst]
      exact hs.invoked

theorem Recorded.after (hs : Recorded as s) {a : Action kind K} (henabled : s.Enabled a) :
    Recorded (as ++ [a]) (s.after a) := by
  cases a with
  | call c =>
    have hout := after_call hs.sound.hasTable henabled c
    generalize s.after (.call c) = t at hout
    cases hout with
    | rejected hrejected =>
      refine hs.frame (a := .call c) nofun nofun (firstClose_snoc_of_none ?_) s.alive s.fault
      by_contra hsome
      obtain ⟨k, hk⟩ := Option.ne_none_iff_exists'.mp hsome
      rw [closes_call, Call.starts_of_rejected hrejected] at hk
      cases hk
    | answered hthere h =>
      refine hs.frame (a := .call c) nofun nofun ?_ s.alive s.fault
      by_cases hsome : (Action.call c).closes = none
      · exact firstClose_snoc_of_none hsome
      · obtain ⟨k, hk⟩ := Option.ne_none_iff_exists'.mp hsome
        obtain ⟨h', huv⟩ := Option.ne_none_iff_exists'.mp hthere
        have hclosing := (h .close k ((closes_call c k).mp hk)).2 h' huv
        exact hs.firstClose_snoc_of_mem ((hs.asked h' huv).mp hclosing) _
    | registered huv hdata hstarts hopen => exact hs.registered huv hdata hstarts hopen
    | dangling _ huv =>
      exact hs.frame (a := .call c) nofun nofun
        (hs.firstClose_snoc_of_mem (hs.answers (hs.sound.gone huv)) _) _ _
  | fire e =>
    obtain ⟨h, t, x, huv, hdata, -, hx⟩ := hs.sound.found henabled
    rw [after_fire huv hdata hx]
    exact hs.fired henabled huv hdata hx
  | leave threw =>
    obtain ⟨i, hrunning⟩ := Option.isSome_iff_exists.mp henabled
    exact hs.left hrunning threw
  | destruct => exact hs.frame (a := .destruct) nofun nofun (firstClose_snoc_of_none rfl) _ _

/-! ### Runs -/

/-- A run goes wrong exactly with the first call that comes too late. -/
theorem recorded_of_run (hrun : (system kind K).Run (new kind K) as s) :
    Recorded as s ∧ ((s.fault = none ∧ CallsInTime as) ∨
      (s.fault = some .destroyed ∧ ¬ CallsInTime as)) := by
  refine hrun.history (P := fun as s => Recorded as s ∧ ((s.fault = none ∧ CallsInTime as) ∨
    (s.fault = some .destroyed ∧ ¬ CallsInTime as))) ?_ ⟨recorded_new, .inl ⟨rfl, ?_⟩⟩
  · rintro as s a t ⟨hnone, henabled, rfl⟩ ⟨hs, hend⟩
    have htime : CallsInTime as := by
      obtain ⟨-, htime⟩ | ⟨hfault, -⟩ := hend
      · exact htime
      · cases hnone.symm.trans hfault
    refine ⟨hs.after henabled, ?_⟩
    obtain ⟨hdangles, hfault⟩ | ⟨hdangles, hfault⟩ := hs.sound.fault_after henabled hnone
    · refine .inr ⟨hfault, ?_⟩
      intro hlater
      cases a with
      | call c =>
        exact hdangles.1 ((callsInTime_snoc.mp hlater).2 c rfl (hs.gone_iff.mp hdangles.2))
      | _ => exact hdangles
    · refine .inl ⟨hfault, callsInTime_snoc.mpr ⟨htime, ?_⟩⟩
      rintro c rfl hover
      by_contra hnot
      exact hdangles ⟨hnot, hs.gone_iff.mpr hover⟩
  · intro before c after has
    simp at has

/-- A run ends well exactly if no call reaches for the handle after the close event. -/
theorem endsWell_iff (hrun : (system kind K).Run (new kind K) as s) :
    EndsWell as s ↔ CallsInTime as := by
  obtain ⟨hs, hend⟩ := recorded_of_run hrun
  constructor
  · intro hwell
    obtain ⟨-, htime⟩ | ⟨hfault, -⟩ := hend
    · exact htime
    · exact absurd hfault hwell.untouched
  · intro htime
    have hone : s.uvHandle.isNone.toNat ≤ 1 := Bool.toNat_le _
    refine ⟨?_, ⟨hs.tables ▸ hone, hs.handles ▸ hone⟩, ?_, ?_⟩
    · obtain ⟨hnone, -⟩ | ⟨-, hlate⟩ := hend
      · rw [hnone]
        exact nofun
      · exact absurd htime hlate
    · intro hfire
      have hclosed := hs.closed_iff.mpr hfire
      obtain ⟨k, hk, -⟩ := hs.first (hs.answers hclosed)
      refine ⟨k, hk, ?_⟩
      rw [hs.invoked, hclosed, hk]
      rfl
    · intro hfire
      have hclosed : s.closed = false := Bool.eq_false_of_not_eq_true (hfire ∘ hs.closed_iff.mp)
      rw [hs.invoked, hclosed]
      rfl

/-- A handle that is closed twice, the second time from the callback of the first, and then
destructed. -/
theorem endsWell_close_twice :
    ∃ s : HandleState .timer ℕ, EndsWell
      [.call (.close 1), .fire .close, .call (.close 2), .leave false, .destruct] s ∧
      s.closeInvoked = [1] ∧ s.deletedHandles = 1 := by
  let s₁ : HandleState .timer ℕ := (new .timer ℕ).after (.call (.close 1))
  let s₂ := s₁.after (.fire .close)
  let s₃ := s₂.after (.call (.close 2))
  let s₄ := s₃.after (.leave false)
  have h₁ : (system .timer ℕ).step (new .timer ℕ) (.call (.close 1)) s₁ := ⟨rfl, rfl, rfl⟩
  have h₂ : (system .timer ℕ).step s₁ (.fire .close) s₂ :=
    ⟨rfl, ⟨rfl, rfl, .close, by decide, .close⟩, rfl⟩
  have h₃ : (system .timer ℕ).step s₂ (.call (.close 2)) s₃ := ⟨rfl, rfl, rfl⟩
  have h₄ : (system .timer ℕ).step s₃ (.leave false) s₄ := ⟨rfl, rfl, rfl⟩
  have h₅ : (system .timer ℕ).step s₄ .destruct (s₄.after .destruct) := ⟨rfl, rfl, rfl⟩
  have hrun := ((((Transition.System.Run.single h₁).snoc h₂).snoc h₃).snoc h₄).snoc h₅
  let late : List (Action .timer ℕ) := [.leave false, .destruct]
  have htime : CallsInTime ([.call (.close 1), .fire .close, .call (.close 2)] ++ late) :=
    callsInTime_append (by simp) (by simp [late])
  exact ⟨_, (endsWell_iff hrun).mpr htime, rfl, rfl⟩

/-- After the close event, `is_active` reads the handle that has been deleted. -/
theorem used_after_close :
    ∃ s : HandleState .timer ℕ, (system .timer ℕ).Run (new .timer ℕ)
      [.call (.close 1), .fire .close, .leave false, .call (.isActive 0)] s ∧
      s.fault = some .destroyed ∧ ¬ EndsWell
        [.call (.close 1), .fire .close, .leave false, .call (.isActive 0)] s := by
  let s₁ : HandleState .timer ℕ := (new .timer ℕ).after (.call (.close 1))
  let s₂ := s₁.after (.fire .close)
  let s₃ := s₂.after (.leave false)
  have h₁ : (system .timer ℕ).step (new .timer ℕ) (.call (.close 1)) s₁ := ⟨rfl, rfl, rfl⟩
  have h₂ : (system .timer ℕ).step s₁ (.fire .close) s₂ :=
    ⟨rfl, ⟨rfl, rfl, .close, by decide, .close⟩, rfl⟩
  have h₃ : (system .timer ℕ).step s₂ (.leave false) s₃ := ⟨rfl, rfl, rfl⟩
  have h₄ : (system .timer ℕ).step s₃ (.call (.isActive 0)) (s₃.after (.call (.isActive 0))) :=
    ⟨rfl, rfl, rfl⟩
  refine ⟨_, ((Transition.System.Run.single h₁).snoc h₂).snoc h₃ |>.snoc h₄, rfl, ?_⟩
  intro hwell
  exact hwell.untouched rfl

end HandleState

end LibraCore
