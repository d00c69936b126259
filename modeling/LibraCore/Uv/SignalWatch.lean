import LibraCore.Uv.Dispatch

/-!
# One watcher for all signals

`Signal::bind` keeps a callback for each signal number, and starts the one `uv_signal_t` of the
object on that number. libuv is assumed to watch one number for each `uv_signal_t`: to start it
on another number ends the watch that there was, also when the new one fails; to start it on the
number it watches succeeds.

## Main results

- `SignalWatch.answers_iff` — when every signal that was bound is delivered to its callback
-/

namespace LibraCore

/-- What happens to a `Signal`: a call; a signal is raised; libuv reports the close event; the
callback that runs ends; the object is destroyed. -/
inductive SignalAction (K : Type)
  | call (c : Call K .signal)
  | raise (signum : ℤ)
  | closed
  | leave (threw : Bool)
  | destruct

/-- A `Signal` with its `uv_signal_t`, the numbers bound, each with its callback and the latest
first, and the callback given to `close`. -/
structure SignalWatch (K : Type) where
  handle : HandleState .signal K
  /-- the number watched, 0 if none is -/
  signum : ℤ
  bound : List (ℤ × K)
  closeCallback : Option K

namespace SignalWatch

open Transition

variable {K : Type}

def new (K : Type) : SignalWatch K where
  handle := .new .signal K
  signum := 0
  bound := []
  closeCallback := none

/-- The handle is there, and not closing. -/
def isOpen (s : SignalWatch K) : Bool :=
  match s.handle.uvHandle with
  | some h => !h.closing
  | none => false

/-- `uv_signal_start`, which returns `ret`, on a watcher of `watched`. -/
def start (watched signum ret : ℤ) : ℤ :=
  if signum = watched then watched else if ret = 0 then signum else 0

/-- The numbers bound once `bind` has returned. -/
def record (bound : List (ℤ × K)) (signum : ℤ) (callback : K) (ret : ℤ) : List (ℤ × K) :=
  if ret = 0 then (signum, callback) :: bound else bound

def afterCall (s : SignalWatch K) (c : Call K .signal) : SignalWatch K :=
  let handle := s.handle.after (.call c)
  match c with
  | .bind signalNum callback ret =>
    if signalNum < 1 ∨ maxSigns < signalNum then { s with handle }
    else { s with
      handle
      signum := start s.signum signalNum ret
      bound := record s.bound signalNum callback ret }
  | .close callback =>
    -- `uv_close` ends the watch
    if s.isOpen then { s with handle, signum := 0, closeCallback := some callback }
    else { s with handle }
  | _ => { s with handle }

def after (s : SignalWatch K) : SignalAction K → SignalWatch K
  | .call c => s.afterCall c
  | .raise signum =>
    if signum = s.signum then { s with handle := s.handle.after (.fire (.signal signum)) } else s
  | .closed => { s with handle := s.handle.after (.fire .close) }
  | .leave threw => { s with handle := s.handle.after (.leave threw) }
  | .destruct => { s with handle := s.handle.after .destruct }

/-- When an action can happen. A handle that is closing is not started. -/
def Enabled (s : SignalWatch K) : SignalAction K → Prop
  | .call (.bind signalNum _ ret) =>
      s.handle.alive = true ∧ s.isOpen = true ∧ (signalNum = s.signum → ret = 0)
  | .call c => s.handle.Enabled (.call c)
  | .raise signum => 1 ≤ signum ∧ s.handle.running = none
  | .closed => s.handle.Enabled (.fire .close)
  | .leave threw => s.handle.Enabled (.leave threw)
  | .destruct => s.handle.Enabled .destruct

def system (K : Type) : System (SignalWatch K) (SignalAction K) where
  initial s := s = new K
  step s a t := s.handle.fault = none ∧ s.Enabled a ∧ t = s.after a

/-! ### What it is for -/

/-- Once the callback that runs has returned. -/
def idle (s : SignalWatch K) : SignalWatch K := { s with handle := { s.handle with running := none } }

/-- The action runs a callback, with the arguments of `e`. -/
def Invokes (s : SignalWatch K) (a : SignalAction K) (e : Event .signal) (callback : K) : Prop :=
  ∃ x : CallbackObject K, x.callback = callback ∧
    (s.idle.after a).handle.invoked = s.handle.invoked ++ [⟨e, x⟩]

/-- As long as the handle is open, each number that was bound is delivered, when it is raised,
to the callback that was bound to it last; and the close event runs the callback of `close`. -/
structure Answers (s : SignalWatch K) : Prop where
  signals : s.isOpen = true → ∀ signum callback, s.bound.lookup signum = some callback →
    s.Invokes (.raise signum) (.signal signum) callback
  close : s.handle.closed = false → ∀ callback, s.closeCallback = some callback →
    s.Invokes .closed .close callback

/-- No number is bound after another. -/
def SameNumber (s : SignalWatch K) : SignalAction K → Prop
  | .call (.bind signalNum _ _) =>
      signalNum < 1 ∨ maxSigns < signalNum ∨ ∀ b ∈ s.bound, b.1 = signalNum
  | _ => True

/-! ### The watcher and the table -/

/-- The watcher and the table agree: what is watched has been asked for, the number that is
bound is watched, and the callbacks are in their cells. -/
structure Sound (s : SignalWatch K) : Prop where
  handle : s.handle.Sound
  opened : s.isOpen = true → s.handle.closed = false ∧ Request.close ∉ s.handle.requests
  asked : s.signum ≠ 0 → s.isOpen = true ∧ ∃ h, Request.signal s.signum h ∈ s.handle.requests
  watched : s.isOpen = true → ∀ b ∈ s.bound, b.1 = s.signum
  bound : s.isOpen = true → ∀ signum callback, s.bound.lookup signum = some callback →
    ∃ h x, s.handle.slot (.signal signum h) = some x ∧ x.callback = callback
  close : s.handle.closed = false → ∀ callback, s.closeCallback = some callback →
    Request.close ∈ s.handle.requests ∧ ∃ x, s.handle.slot .close = some x ∧ x.callback = callback

variable {s t : SignalWatch K}

theorem isOpen_iff : s.isOpen = true ↔ ∃ h, s.handle.uvHandle = some h ∧ h.closing = false := by
  rw [isOpen]
  cases s.handle.uvHandle with
  | none => simp
  | some h => simp

theorem sound_new : (new K).Sound where
  handle := HandleState.sound_new
  opened _ := ⟨rfl, List.not_mem_nil⟩
  asked h := absurd rfl h
  watched _ _ hb := absurd hb List.not_mem_nil
  bound _ _ _ h := nomatch h
  close _ _ h := nomatch h

theorem mem_record {bound : List (ℤ × K)} {signum ret : ℤ} {callback : K} {b : ℤ × K}
    (h : b ∈ record bound signum callback ret) : b = (signum, callback) ∨ b ∈ bound := by
  rw [record] at h
  split at h
  · exact List.mem_cons.mp h
  · exact .inr h

theorem lookup_record_self (bound : List (ℤ × K)) (signum : ℤ) (callback : K) :
    (record bound signum callback 0).lookup signum = some callback := by
  rw [record, if_pos rfl, List.lookup_cons_self]

theorem lookup_record_of_ne {signum signum' : ℤ} (h : signum' ≠ signum) (bound : List (ℤ × K))
    (callback : K) (ret : ℤ) :
    (record bound signum callback ret).lookup signum' = bound.lookup signum' := by
  rw [record]
  split
  · rw [List.lookup_cons, beq_false_of_ne h]
  · rfl

theorem mem_of_lookup {l : List (ℤ × K)} {signum : ℤ} {callback : K}
    (h : l.lookup signum = some callback) : (signum, callback) ∈ l := by
  obtain ⟨before, behind, rfl, -⟩ := List.lookup_eq_some_iff.mp h
  exact List.mem_append_right _ List.mem_cons_self

/-- What is bound is watched. -/
theorem Sound.watches (hs : s.Sound) (hopen : s.isOpen = true) {signum : ℤ} {callback : K}
    (hbound : s.bound.lookup signum = some callback) : signum = s.signum :=
  hs.watched hopen _ (mem_of_lookup hbound)

theorem sound_idle {h : HandleState .signal K} (hs : h.Sound) :
    ({ h with running := none } : HandleState .signal K).Sound :=
  ⟨hs.hasTable, hs.stored, absurd rfl, nofun, hs.gone⟩

/-- A watcher and a table that agree deliver. -/
theorem Sound.answers (hs : s.Sound) : s.Answers := by
  constructor
  · intro hopen signum callback hbound
    obtain ⟨h, x, hslot, hx⟩ := hs.bound hopen signum callback hbound
    obtain rfl := hs.watches hopen hbound
    have hne : s.signum ≠ 0 := by omega
    obtain ⟨-, h', hr⟩ := hs.asked hne
    refine ⟨x, hx, ?_⟩
    have hfire := (sound_idle hs.handle).after_fire_slot rfl (hs.opened hopen).1 hr (.signal _ h') hslot
    have hafter : s.idle.after (.raise s.signum) =
        { s.idle with handle := s.idle.handle.after (.fire (.signal s.signum)) } := if_pos rfl
    rw [hafter]
    exact congrArg HandleState.invoked hfire
  · intro hclosed callback hcallback
    obtain ⟨hr, x, hslot, hx⟩ := hs.close hclosed callback hcallback
    have hfire := (sound_idle hs.handle).after_fire_slot rfl hclosed hr .close hslot
    exact ⟨x, hx, congrArg HandleState.invoked hfire⟩

/-- Nothing matters but the handle of libuv, with its table, and what it was asked for. -/
theorem Sound.frame (hs : s.Sound) {handle : HandleState .signal K} (hhandle : handle.Sound)
    (huv : handle.uvHandle = s.handle.uvHandle) (hrequests : handle.requests = s.handle.requests)
    (hclosed : handle.closed = s.handle.closed ∨ (handle.closed = true ∧ s.isOpen = false)) :
    ({ s with handle } : SignalWatch K).Sound := by
  have hopen : ({ s with handle } : SignalWatch K).isOpen = s.isOpen := by
    rw [isOpen, isOpen, huv]
  have hslot : ∀ r, handle.slot r = s.handle.slot r := by
    intro r
    rw [HandleState.slot, HandleState.slot, HandleState.table, HandleState.table, huv]
  refine ⟨hhandle, ?_, ?_, ?_, ?_, ?_⟩
  · intro h
    rw [hopen] at h
    obtain ⟨hc, hnot⟩ := hs.opened h
    refine ⟨?_, hrequests ▸ hnot⟩
    obtain heq | ⟨-, hnot⟩ := hclosed
    · exact heq.trans hc
    · cases h.symm.trans hnot
  · intro h
    rw [hopen]
    exact hrequests ▸ hs.asked h
  · intro h
    exact hs.watched (hopen ▸ h)
  · intro h signum callback hbound
    obtain ⟨hnum, x, hx⟩ := hs.bound (hopen ▸ h) signum callback hbound
    exact ⟨hnum, x, hslot _ ▸ hx⟩
  · intro h callback hcallback
    have hc : s.handle.closed = false := by
      obtain heq | ⟨htrue, -⟩ := hclosed
      · exact heq ▸ h
      · cases h.symm.trans htrue
    obtain ⟨hr, x, hx⟩ := hs.close hc callback hcallback
    exact ⟨hrequests ▸ hr, x, hslot _ ▸ hx⟩

/-- `bind` on an open handle, with a number that it accepts. -/
theorem after_bind {signalNum : ℤ} {h : UvHandle K} (hs : s.handle.Sound)
    (halive : s.handle.alive = true) (huv : s.handle.uvHandle = some h) (hopen : h.closing = false)
    (hnum : 1 ≤ signalNum ∧ signalNum ≤ maxSigns) (k : K) (ret : ℤ) :
    ∃ t, h.data = some t ∧ s.after (.call (.bind signalNum k ret)) =
      { s with
        handle := s.handle.registered h t (.signal signalNum hnum) k
        signum := start s.signum signalNum ret
        bound := record s.bound signalNum k ret } := by
  have hstarts : (Call.bind signalNum k ret).starts = some (.signal signalNum hnum, k) := by
    rw [Call.starts, dif_pos hnum]
  have hin : ¬ (signalNum < 1 ∨ maxSigns < signalNum) := by omega
  obtain ⟨t, hdata, hcall⟩ := HandleState.after_call_open hs.hasTable halive hstarts huv hopen
  refine ⟨t, hdata, ?_⟩
  rw [after, afterCall]
  simp only [if_neg hin, hcall]

theorem after_close {h : UvHandle K} (hs : s.handle.Sound) (halive : s.handle.alive = true)
    (huv : s.handle.uvHandle = some h) (hopen : h.closing = false) (k : K) :
    ∃ t, h.data = some t ∧ s.after (.call (.close k)) =
      { s with
        handle := s.handle.registered h t .close k
        signum := 0
        closeCallback := some k } := by
  obtain ⟨t, hdata, hcall⟩ := HandleState.after_call_open hs.hasTable halive
    (show (Call.close k : Call K .signal).starts = some (.close, k) from rfl) huv hopen
  refine ⟨t, hdata, ?_⟩
  rw [after, afterCall]
  simp only [isOpen_iff.mpr ⟨h, huv, hopen⟩, if_true, hcall]

/-- A start watches the number, or fails and watches none. -/
theorem start_cases (watched signum ret : ℤ) :
    start watched signum ret = signum ∨
      (ret ≠ 0 ∧ signum ≠ watched ∧ start watched signum ret = 0) := by
  rw [start]
  split
  · next heq => exact .inl heq.symm
  · next hne =>
    split
    · exact .inl rfl
    · next hret => exact .inr ⟨hret, hne, rfl⟩

theorem Sound.bind (hs : s.Sound) {signalNum ret : ℤ} {k : K} {h : UvHandle K}
    {t : CallbackTable K} (huv : s.handle.uvHandle = some h) (hdata : h.data = some t)
    (hopen : h.closing = false) (hnum : 1 ≤ signalNum ∧ signalNum ≤ maxSigns)
    (hret : signalNum = s.signum → ret = 0) (hsame : ∀ b ∈ s.bound, b.1 = signalNum) :
    Sound { s with
      handle := s.handle.registered h t (.signal signalNum hnum) k
      signum := start s.signum signalNum ret
      bound := record s.bound signalNum k ret } := by
  have hlen := hs.handle.hasTable.length_lut huv hdata
  have hbefore : s.isOpen = true := isOpen_iff.mpr ⟨h, huv, hopen⟩
  have hnow : isOpen { s with
      handle := s.handle.registered h t (.signal signalNum hnum) k
      signum := start s.signum signalNum ret
      bound := record s.bound signalNum k ret } = true :=
    isOpen_iff.mpr ⟨_, rfl, by rw [hopen]; rfl⟩
  -- a start that fails was on another number, and there is none bound
  have hfailed : ret ≠ 0 → s.bound = [] := by
    intro hne
    cases hbound : s.bound with
    | nil => rfl
    | cons b l =>
      have hb : b ∈ s.bound := hbound ▸ List.mem_cons_self
      exact absurd (hret ((hsame b hb).symm.trans (hs.watched hbefore b hb))) hne
  refine ⟨hs.handle.registered huv hdata _ k, ?_, ?_, ?_, ?_, ?_⟩
  · intro _
    obtain ⟨hc, hnot⟩ := hs.opened hbefore
    refine ⟨hc, fun hmem => ?_⟩
    obtain heq | hmem := List.mem_cons.mp hmem
    · cases heq
    · exact hnot hmem
  · intro hne
    refine ⟨hnow, ?_⟩
    show ∃ h', Request.signal (start s.signum signalNum ret) h' ∈ _ :: s.handle.requests
    obtain heq | ⟨-, -, hzero⟩ := start_cases s.signum signalNum ret
    · rw [heq]
      exact ⟨hnum, List.mem_cons_self⟩
    · exact absurd hzero hne
  · intro _ b hb
    have hb' : b ∈ record s.bound signalNum k ret := hb
    obtain heq | ⟨hne, -, -⟩ := start_cases s.signum signalNum ret
    · refine Eq.trans ?_ heq.symm
      obtain rfl | hold := mem_record hb'
      · rfl
      · exact hsame b hold
    · rw [record, if_neg hne, hfailed hne] at hb'
      cases hb'
  · intro _ signum callback hbound
    have hbound' : (record s.bound signalNum k ret).lookup signum = some callback := hbound
    by_cases heq : signum = signalNum
    · subst heq
      by_cases hzero : ret = 0
      · subst hzero
        rw [lookup_record_self] at hbound'
        obtain rfl := Option.some.inj hbound'
        exact ⟨hnum, _, HandleState.slot_registered_self hlen _ k, rfl⟩
      · rw [record, if_neg hzero, hfailed hzero] at hbound'
        cases hbound'
    · rw [lookup_record_of_ne heq] at hbound'
      exact absurd (hsame _ (mem_of_lookup hbound')) heq
  · intro hclosed callback hcallback
    obtain ⟨hr, x, hslot, hx⟩ := hs.close hclosed callback hcallback
    exact absurd hr (hs.opened hbefore).2

theorem Sound.closeCall (hs : s.Sound) {k : K} {h : UvHandle K} {t : CallbackTable K}
    (huv : s.handle.uvHandle = some h) (hdata : h.data = some t) :
    Sound { s with
      handle := s.handle.registered h t .close k
      signum := 0
      closeCallback := some k } := by
  have hlen := hs.handle.hasTable.length_lut huv hdata
  have hclosing : isOpen { s with
      handle := s.handle.registered h t .close k
      signum := 0
      closeCallback := some k } = false := by
    show (!(h.closing || Request.close.isClose)) = false
    rw [Request.isClose, Bool.or_true, Bool.not_true]
  refine ⟨hs.handle.registered huv hdata _ k, ?_, absurd rfl, ?_, ?_, ?_⟩
  · exact fun h => nomatch h.symm.trans hclosing
  · exact fun h => nomatch h.symm.trans hclosing
  · exact fun h => nomatch h.symm.trans hclosing
  · intro _ callback hcallback
    obtain rfl := Option.some.inj hcallback
    exact ⟨List.mem_cons_self, _, HandleState.slot_registered_self hlen .close k, rfl⟩

/-- A call that asks libuv for nothing. -/
theorem Sound.query (hs : s.Sound) (halive : s.handle.alive = true) {c : Call K .signal}
    (hstarts : c.starts = none ∨ ∃ k, c = .close k ∧ s.isOpen = false) :
    ({ s with handle := s.handle.after (.call c) } : SignalWatch K).Sound := by
  have hout := HandleState.after_call hs.handle.hasTable halive c
  generalize s.handle.after (.call c) = t at hout
  cases hout with
  | rejected => exact hs
  | answered => exact hs
  | @registered h t r k huv hdata hr hclosing =>
    obtain hnone | ⟨k', rfl, hopen⟩ := hstarts
    · cases hr.symm.trans hnone
    · obtain ⟨rfl, rfl⟩ := Prod.mk.inj (Option.some.inj hr)
      have hopen' : s.isOpen = true := isOpen_iff.mpr ⟨h, huv, hclosing rfl⟩
      cases hopen.symm.trans hopen'
  | dangling => exact hs.frame (hs.handle.frame s.handle.alive _) rfl rfl (.inl rfl)

/-- libuv reports something that it was asked for. -/
theorem Sound.fire (hs : s.Sound) {e : Event .signal} (henabled : s.handle.Enabled (.fire e))
    (hclosing : e.isClose = true → s.isOpen = false) :
    ({ s with handle := s.handle.after (.fire e) } : SignalWatch K).Sound := by
  obtain ⟨h, t, x, huv, hdata, -, hx⟩ := hs.handle.found henabled
  have hafter := HandleState.after_fire huv hdata hx
  rw [hafter]
  refine hs.frame (hs.handle.fired huv e x) rfl rfl ?_
  cases hclose : e.isClose with
  | true => exact .inr ⟨by rw [HandleState.fired, hclose, Bool.or_true], hclosing hclose⟩
  | false => exact .inl (by rw [HandleState.fired, hclose, Bool.or_false])

theorem Sound.leave (hs : s.Sound) {threw : Bool} (henabled : s.handle.Enabled (.leave threw)) :
    ({ s with handle := s.handle.after (.leave threw) } : SignalWatch K).Sound := by
  have hsound := hs.handle.after henabled
  obtain ⟨i, hrunning⟩ := Option.isSome_iff_exists.mp henabled
  obtain ⟨-, hafter⟩ | ⟨h, t, hclose, -, -, -, hafter⟩ := hs.handle.leave_cases hrunning threw
  · rw [hafter] at hsound ⊢
    exact hs.frame hsound rfl rfl (.inl rfl)
  · have hclosed : s.handle.closed = true := hs.handle.last i hrunning hclose
    have hgone : (s.handle.deleted t).closed = true := hclosed
    have hclosing : s.isOpen = false := by
      cases hopen : s.isOpen with
      | false => rfl
      | true => cases hclosed.symm.trans (hs.opened hopen).1
    rw [hafter] at hsound ⊢
    refine ⟨hsound, nofun, fun hne => ?_, nofun, nofun, fun h => ?_⟩
    · cases hclosing.symm.trans (hs.asked hne).1
    · cases h.symm.trans hgone

theorem Sound.raise (hs : s.Sound) {signum : ℤ} (henabled : s.Enabled (.raise signum)) :
    (s.after (.raise signum)).Sound := by
  obtain ⟨hpositive, hrunning⟩ := henabled
  rw [after]
  split
  · next heq =>
    subst heq
    obtain ⟨hopen, h, hr⟩ := hs.asked (by omega)
    exact hs.fire ⟨hrunning, (hs.opened hopen).1, _, hr, .signal _ h⟩ nofun
  · exact hs

/-- A step of an object that binds one number only. -/
theorem sound_of_sameNumber {a : SignalAction K} (hs : s.Sound) (hsame : s.SameNumber a)
    (hstep : (system K).step s a t) : t.Sound := by
  obtain ⟨-, henabled, rfl⟩ := hstep
  cases a with
  | call c =>
    cases c with
    | isActive active => exact hs.query henabled (.inl rfl)
    | isClosing => exact hs.query henabled (.inl rfl)
    | close k =>
      cases hopen : s.isOpen with
      | true =>
        obtain ⟨h, huv, hh⟩ := isOpen_iff.mp hopen
        obtain ⟨t, hdata, hafter⟩ := after_close hs.handle henabled huv hh k
        rw [hafter]
        exact hs.closeCall huv hdata
      | false =>
        have hafter : s.after (.call (.close k)) =
            { s with handle := s.handle.after (.call (.close k)) } := by
          rw [after, afterCall]
          simp only [hopen, Bool.false_eq_true, if_false]
        rw [hafter]
        exact hs.query henabled (.inr ⟨k, rfl, hopen⟩)
    | bind signalNum k ret =>
      obtain ⟨halive, hopen, hret⟩ := henabled
      by_cases hnum : signalNum < 1 ∨ maxSigns < signalNum
      · have hafter : s.after (.call (.bind signalNum k ret)) =
            { s with handle := s.handle.after (.call (.bind signalNum k ret)) } := by
          rw [after, afterCall]
          simp only [if_pos hnum]
        rw [hafter]
        exact hs.query halive (.inl (Call.starts_of_rejected (c := .bind signalNum k ret) hnum))
      · have hin : 1 ≤ signalNum ∧ signalNum ≤ maxSigns := by omega
        obtain ⟨h, huv, hh⟩ := isOpen_iff.mp hopen
        obtain ⟨t, hdata, hafter⟩ := after_bind hs.handle halive huv hh hin k ret
        rw [hafter]
        refine hs.bind huv hdata hh hin hret ?_
        obtain hlow | hhigh | hsame := hsame
        · exact absurd (.inl hlow) hnum
        · exact absurd (.inr hhigh) hnum
        · exact hsame
  | raise signum => exact hs.raise henabled
  | closed =>
    refine hs.fire henabled fun _ => ?_
    obtain ⟨-, -, r, hr, hreports⟩ := henabled
    cases hreports
    cases hopen : s.isOpen with
    | false => rfl
    | true => exact absurd hr (hs.opened hopen).2
  | leave threw => exact hs.leave henabled
  | destruct => exact hs.frame (hs.handle.frame false _) rfl rfl (.inl rfl)

/-- A signal that is not watched runs nothing. -/
theorem not_invokes_of_ne {signum : ℤ} (h : signum ≠ s.signum) {e : Event .signal} {callback : K} :
    ¬ s.Invokes (.raise signum) e callback := by
  rintro ⟨x, -, hinvoked⟩
  have hafter : s.idle.after (.raise signum) = s.idle := if_neg h
  rw [hafter] at hinvoked
  have hsame : s.handle.invoked = s.handle.invoked ++ [⟨e, x⟩] := hinvoked
  simp at hsame

/-- A number that is bound after another is watched in place of it. -/
theorem sameNumber_of_answers {a : SignalAction K} (hs : s.Sound)
    (hstep : (system K).step s a t) (ht : t.Answers) : s.SameNumber a := by
  obtain ⟨-, henabled, rfl⟩ := hstep
  cases a with
  | call c =>
    cases c with
    | bind signalNum k ret =>
      obtain ⟨halive, hopen, hret⟩ := henabled
      by_cases hnum : signalNum < 1 ∨ maxSigns < signalNum
      · exact hnum.elim .inl fun h => .inr (.inl h)
      · have hin : 1 ≤ signalNum ∧ signalNum ≤ maxSigns := by omega
        refine .inr (.inr fun b hb => ?_)
        by_contra hne
        obtain ⟨h, huv, hh⟩ := isOpen_iff.mp hopen
        obtain ⟨t, hdata, hafter⟩ := after_bind hs.handle halive huv hh hin k ret
        rw [hafter] at ht
        obtain ⟨callback, hbound⟩ : ∃ callback, s.bound.lookup b.1 = some callback := by
          apply Option.isSome_iff_exists.mp
          exact List.lookup_isSome_iff.mpr ⟨b, hb, beq_self_eq_true _⟩
        have hstill : (record s.bound signalNum k ret).lookup b.1 = some callback := by
          rw [lookup_record_of_ne hne, hbound]
        -- the watcher has left the number behind
        have hleft : b.1 ≠ start s.signum signalNum ret := by
          obtain ⟨hpositive, -⟩ := hs.bound hopen _ _ hbound
          obtain heq | ⟨-, -, hzero⟩ := start_cases s.signum signalNum ret
          · rw [heq]
            exact hne
          · rw [hzero]
            omega
        have hnow := ht.signals (isOpen_iff.mpr ⟨_, rfl, by rw [hh]; rfl⟩) b.1 callback hstill
        exact not_invokes_of_ne hleft hnow
    | isActive active => trivial
    | isClosing => trivial
    | close k => trivial
  | raise signum => trivial
  | closed => trivial
  | leave threw => trivial
  | destruct => trivial

/-- Along a run of a `Signal`, every number that is bound is delivered to its own callback, and
the close event to its own, exactly if no number is bound after another. -/
theorem answers_iff {as : List (SignalAction K)} (hs : (system K).initial s)
    (hrun : (system K).Run s as t) :
    (system K).Along Answers s as ↔ ((system K).guard SameNumber).Run s as t := by
  refine hrun.along_iff_guard ?_ (fun s hs => Sound.answers hs) ?_ ?_ ?_
  · rintro s a t u ⟨-, -, rfl⟩ ⟨-, -, rfl⟩
    rfl
  · intro s a t hs hsame hstep
    exact sound_of_sameNumber hs hsame hstep
  · intro s a t hs hstep ht
    exact sameNumber_of_answers hs hstep ht
  · obtain rfl := hs
    exact sound_new

/-- One signal is bound, and bound again with another callback. -/
theorem answers_iff_rebound : (system ℕ).Along Answers (new ℕ)
    [.call (.bind 2 7 0), .call (.bind 2 8 0), .raise 2] := by
  have hfirst : ((system ℕ).guard SameNumber).Run (new ℕ) [.call (.bind 2 7 0)] _ :=
    .guard_single (.inr (.inr fun _ hb => absurd hb List.not_mem_nil)) ⟨rfl, ⟨rfl, rfl, by decide⟩, rfl⟩
  have hagain : ((system ℕ).guard SameNumber).Run (new ℕ)
      [.call (.bind 2 7 0), .call (.bind 2 8 0)] _ :=
    hfirst.guard_snoc (.inr (.inr (by decide))) ⟨rfl, ⟨rfl, rfl, fun _ => rfl⟩, rfl⟩
  have hraised : ((system ℕ).guard SameNumber).Run (new ℕ)
      [.call (.bind 2 7 0), .call (.bind 2 8 0), .raise 2] _ :=
    hagain.guard_snoc trivial ⟨rfl, ⟨by decide, rfl⟩, rfl⟩
  exact (answers_iff rfl hraised.of_guard).mpr hraised

/-- Signal 2 is bound, and then signal 15: signal 2 is not watched any more, and nothing runs
when it is raised. -/
theorem answers_false_displaced : ∃ s t,
    (system ℕ).Run (new ℕ) [.call (.bind 2 7 0), .call (.bind 15 8 0)] s ∧
      s.bound = [(15, 8), (2, 7)] ∧ s.signum = 15 ∧
      (system ℕ).Run (new ℕ) [.call (.bind 2 7 0), .call (.bind 15 8 0), .raise 2] t ∧
      t.handle.invoked = [] ∧
      ¬ (system ℕ).Along Answers (new ℕ) [.call (.bind 2 7 0), .call (.bind 15 8 0)] := by
  have hfirst : (system ℕ).Run (new ℕ) [.call (.bind 2 7 0)] _ :=
    .single ⟨rfl, ⟨rfl, rfl, by decide⟩, rfl⟩
  have hboth : (system ℕ).Run (new ℕ) [.call (.bind 2 7 0), .call (.bind 15 8 0)]
      (((new ℕ).after (.call (.bind 2 7 0))).after (.call (.bind 15 8 0))) :=
    hfirst.snoc ⟨rfl, ⟨rfl, rfl, by decide⟩, rfl⟩
  have hraised : (system ℕ).Run (new ℕ)
      [.call (.bind 2 7 0), .call (.bind 15 8 0), .raise 2] _ :=
    hboth.snoc ⟨rfl, ⟨by decide, rfl⟩, rfl⟩
  refine ⟨_, _, hboth, rfl, rfl, hraised, rfl, fun halong => ?_⟩
  have hlast := halong _ _ (List.prefix_refl _) hboth
  exact not_invokes_of_ne (by decide) (hlast.signals rfl 2 7 rfl)

end SignalWatch

end LibraCore
