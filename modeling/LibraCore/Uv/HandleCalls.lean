import LibraCore.Foundations.Transition
import LibraCore.Uv.CallbackTable

/-!
# Handles as libuv sees them

A `Handle<T, ID_MAX>` owns a libuv handle, which owns the table of callbacks. The calls
of `uv/handle.h`, `uv/stream.h`, `uv/timer.cpp`, `uv/signal_.cpp` and `Tcp::connect` store
a callback and then ask libuv for something; when libuv has something to report, a
function without state looks the callback up and runs it. The callback may make
calls on its handle, so its start and its end are two steps.

libuv is assumed to run one callback at a time, to report only what it was asked for,
and to report nothing after the close event. What it answers is an argument of the call.

## Main results

- `HandleState.after_call` — what a call can do
- `Request.layout` — the cells of different requests are different cells of the table
-/

namespace LibraCore

/-- The classes derived from `Handle<T, ID_MAX>`. -/
inductive HandleKind
  | tcp | timer | signal
  deriving DecidableEq, Repr

/-- The value of an enumerator of `uv_callback_id`. -/
def CallbackId.value : CallbackId → ℤ
  | .close => 0
  | .listen => 1
  | .readStart => 2
  | .write => 3
  | .shutdown => 4
  | .connect => 5
  | .timerStart => 6

/-- `uv_cid_max`. -/
def uvCidMax : ℕ := 7

/-- `MAX_SIGNS`. -/
def maxSigns : ℕ := 64

/-- `ID_MAX`. -/
def HandleKind.idMax : HandleKind → ℕ
  | .tcp => uvCidMax
  | .timer => uvCidMax
  | .signal => maxSigns + 1

/-- What libuv can be asked to report on a handle. -/
inductive Request : HandleKind → Type
  | close {kind : HandleKind} : Request kind
  | listen : Request .tcp
  | readStart : Request .tcp
  | write : Request .tcp
  | shutdown : Request .tcp
  | connect : Request .tcp
  | timerStart : Request .timer
  | signal (signum : ℤ) (h : 1 ≤ signum ∧ signum ≤ maxSigns) : Request .signal
  deriving DecidableEq

/-- What libuv reports, with the arguments it gives. -/
inductive Event : HandleKind → Type
  | close {kind : HandleKind} : Event kind
  | listen (status : ℤ) : Event .tcp
  | read (result : ReadResult) : Event .tcp
  | write (status : ℤ) : Event .tcp
  | shutdown (status : ℤ) : Event .tcp
  | connect (status : ℤ) : Event .tcp
  | timeout : Event .timer
  | signal (signum : ℤ) : Event .signal
  deriving DecidableEq

/-- The reports that answer a request. -/
inductive Request.Reports : {kind : HandleKind} → Request kind → Event kind → Prop
  | close {kind : HandleKind} : Reports (Request.close : Request kind) .close
  | listen (status : ℤ) : Reports .listen (.listen status)
  | read (result : ReadResult) : Reports .readStart (.read result)
  | write (status : ℤ) : Reports .write (.write status)
  | shutdown (status : ℤ) : Reports .shutdown (.shutdown status)
  | connect (status : ℤ) : Reports .connect (.connect status)
  | timeout : Reports .timerStart .timeout
  | signal (signum : ℤ) (h : 1 ≤ signum ∧ signum ≤ maxSigns) :
      Reports (.signal signum h) (.signal signum)

namespace Request

variable {kind : HandleKind}

def isClose : Request kind → Bool
  | .close => true
  | _ => false

/-- The index that the callback of a request is stored at. -/
def cid : Request kind → ℤ
  | .close => 0
  | .listen => CallbackId.listen.value
  | .readStart => CallbackId.readStart.value
  | .write => CallbackId.write.value
  | .shutdown => CallbackId.shutdown.value
  | .connect => CallbackId.connect.value
  | .timerStart => CallbackId.timerStart.value
  | .signal signum _ => signum

/-- The type that it is stored under. -/
def type : Request kind → FunctionType
  | .close => .nullary
  | .listen => .status
  | .readStart => .buffer
  | .write => .status
  | .shutdown => .status
  | .connect => .status
  | .timerStart => .nullary
  | .signal _ _ => .signum

theorem cid_lt (r : Request kind) : 0 ≤ r.cid ∧ r.cid < kind.idMax := by
  cases r with
  | close => cases kind <;> decide
  | signal signum h =>
    have hmax : ((HandleKind.signal.idMax : ℕ) : ℤ) = maxSigns + 1 := rfl
    rw [hmax]
    show 0 ≤ signum ∧ signum < maxSigns + 1
    omega
  | _ => decide

theorem idMax_le (kind : HandleKind) : kind.idMax ≤ 65 := by
  cases kind <;> decide

theorem cast_toSize_cid (r : Request kind) : (toSize r.cid : ℤ) = r.cid := by
  obtain ⟨hnonneg, hlt⟩ := r.cid_lt
  have hmax := idMax_le kind
  rw [toSize]
  omega

/-- Two requests on one handle have different numbers. -/
theorem cid_injective : Function.Injective (cid : Request kind → ℤ) := by
  intro r r' h
  cases r with
  | signal signum hsignum =>
    cases r' with
    | close =>
      -- signals are counted from 1, the close event is 0
      have hzero : signum = 0 := h
      omega
    | signal signum' _ =>
      have heq : signum = signum' := h
      subst heq
      rfl
  | close =>
    cases r' with
    | close => rfl
    | signal signum' _ =>
      have hzero : 0 = signum' := h
      omega
    | _ => cases h
  | _ => cases r' <;> first | rfl | cases h

end Request

namespace Event

variable {kind : HandleKind}

def isClose : Event kind → Bool
  | .close => true
  | _ => false

/-- The index that the function given to libuv passes to `invoke`. -/
def cid : Event kind → ℤ
  | .close => 0
  | .listen _ => CallbackId.listen.value
  | .read _ => CallbackId.readStart.value
  | .write _ => CallbackId.write.value
  | .shutdown _ => CallbackId.shutdown.value
  | .connect _ => CallbackId.connect.value
  | .timeout => CallbackId.timerStart.value
  | .signal signum => signum

/-- The arguments that it passes on. -/
def args : Event kind → Arguments
  | .close => .nullary
  | .listen status => .status status
  | .read result => .buffer result.buf result.nread
  | .write status => .status status
  | .shutdown status => .status status
  | .connect status => .status status
  | .timeout => .nullary
  | .signal signum => .signum signum

end Event

namespace Request.Reports

variable {kind : HandleKind} {r : Request kind} {e : Event kind}

/-- A report looks where the request has stored. -/
theorem cid_eq (h : r.Reports e) : e.cid = r.cid := by
  cases h <;> rfl

/-- A report casts to the type that the request has stored. -/
theorem type_eq (h : r.Reports e) : e.args.type = r.type := by
  cases h <;> rfl

theorem isClose_eq (h : r.Reports e) : e.isClose = r.isClose := by
  cases h <;> rfl

end Request.Reports

/-- The cells of the table, seen as places for the callbacks of requests. -/
def Request.layout (kind : HandleKind) : SlotTable.Layout (Request kind) kind.idMax where
  index r := toSize r.cid
  index_lt r := by
    have h := r.cid_lt.2
    rw [← r.cast_toSize_cid] at h
    exact Int.ofNat_lt.mp h
  injective r r' h := by
    apply Request.cid_injective
    rw [← r.cast_toSize_cid, ← r'.cast_toSize_cid]
    exact congrArg Nat.cast h

/-- The part of `uv_handle_t` that matters here; `data` is the table, or `nullptr`. -/
structure UvHandle (K : Type) where
  data : Option (CallbackTable K)
  closing : Bool

/-- A callback that is running: what was reported, and the object that `invoke` has a
pointer to. -/
structure Invocation (kind : HandleKind) (K : Type) where
  event : Event kind
  object : CallbackObject K

structure HandleState (kind : HandleKind) (K : Type) where
  /-- the `Handle` exists, and its `uv_handle_` is not null -/
  alive : Bool
  /-- where `uv_handle_` points to; `none` once this is deleted -/
  uvHandle : Option (UvHandle K)
  /-- the callback objects made so far -/
  allocations : ℕ
  /-- the addresses of those that have been destroyed -/
  destroyed : List ℕ
  deletedTables : ℕ
  deletedHandles : ℕ
  running : Option (Invocation kind K)
  /-- every callback that was run -/
  invoked : List (Invocation kind K)
  /-- what libuv was asked to report -/
  requests : List (Request kind)
  /-- libuv has reported the close event -/
  closed : Bool
  /-- why the program has no meaning any more -/
  fault : Option Fault

namespace HandleState

variable {kind : HandleKind} {K : Type}

/-- The table of the handle, as long as there is one. -/
def table (s : HandleState kind K) : Option (CallbackTable K) := s.uvHandle.bind UvHandle.data

/-! ### The calls -/

/-- `*get()`. -/
def deref : EStateM Fault (HandleState kind K) (UvHandle K) := fun s =>
  match s.uvHandle with
  | some h => if s.alive then .ok h s else .error .destroyed s
  | none => .error .destroyed s

/-- `callbacks::store(get()->data, cid, callback)`. -/
def store (cid : ℤ) (type : FunctionType) (callback : K) :
    EStateM Fault (HandleState kind K) Unit := do
  let h ← deref
  match h.data with
  | none => throw .destroyed
  | some table =>
    let s ← get
    match table.store cid ⟨type, callback, none, s.allocations⟩ with
    | .error f => throw f
    | .ok stored =>
      -- the object that was the cell's is destroyed with its only owner
      set { s with
        uvHandle := some { h with data := some stored }
        allocations := s.allocations + 1
        destroyed := s.destroyed ++ (table.cell cid).toList.map CallbackObject.address }

/-- A function of libuv that is asked to report `r` and returns `ret`. -/
def uvStart (r : Request kind) (ret : ℤ) : EStateM Fault (HandleState kind K) Bool := do
  let _ ← deref
  modify fun s => { s with requests := r :: s.requests }
  return ret == 0

/-- `uv_close`. -/
def uvClose : EStateM Fault (HandleState kind K) Unit := do
  let h ← deref
  modify fun s =>
    { s with uvHandle := some { h with closing := true }, requests := .close :: s.requests }

/-- `is_active`: `active` is what `uv_is_active` returns. -/
def isActive (active : ℤ) : EStateM Fault (HandleState kind K) Bool := do
  let s ← get
  if s.alive then
    let _ ← deref
    return active != 0
  else return false

def isClosing : EStateM Fault (HandleState kind K) Bool := do
  let s ← get
  if s.alive then
    let h ← deref
    return h.closing
  else return true

def close (callback : K) : EStateM Fault (HandleState kind K) Unit := do
  let h ← deref
  if h.closing then return ()
  else
    store 0 .nullary callback
    uvClose

def listen (callback : K) (ret : ℤ) : EStateM Fault (HandleState .tcp K) Bool := do
  store CallbackId.listen.value .status callback
  uvStart .listen ret

def readStart (callback : K) (ret : ℤ) : EStateM Fault (HandleState .tcp K) Bool := do
  store CallbackId.readStart.value .buffer callback
  uvStart .readStart ret

def write (callback : K) (ret : ℤ) : EStateM Fault (HandleState .tcp K) Bool := do
  store CallbackId.write.value .status callback
  uvStart .write ret

def shutdown (callback : K) (ret : ℤ) : EStateM Fault (HandleState .tcp K) Bool := do
  store CallbackId.shutdown.value .status callback
  uvStart .shutdown ret

/-- `Tcp::connect`. -/
def connect (callback : K) (ret : ℤ) : EStateM Fault (HandleState .tcp K) Bool := do
  store CallbackId.connect.value .status callback
  uvStart .connect ret

/-- `Timer::start`. -/
def timerStart (callback : K) (ret : ℤ) : EStateM Fault (HandleState .timer K) Bool := do
  store CallbackId.timerStart.value .nullary callback
  uvStart .timerStart ret

/-- `Signal::bind`. -/
def bind (signalNum : ℤ) (callback : K) (ret : ℤ) : EStateM Fault (HandleState .signal K) Bool :=
  if h : signalNum < 1 ∨ maxSigns < signalNum then
    throw (.thrown { classId := .exception, method := "bind", message := "params error" })
  else do
    store signalNum .signum callback
    uvStart (.signal signalNum ⟨by omega, by omega⟩) ret

/-! ### The reports -/

/-- `callbacks::invoke`, called by the function given to libuv; the callback now runs. -/
def invoke (e : Event kind) : EStateM Fault (HandleState kind K) Unit := fun s =>
  match s.table with
  | none => .error .destroyed s
  | some table =>
    match table.invoke e.cid e.args with
    | .error f => .error f s
    | .ok x =>
      .ok () { s with
        running := some ⟨e, x⟩
        invoked := s.invoked ++ [⟨e, x⟩] }

/-- libuv reports `e`; what is reported last, it has put down as closed. -/
def fire (e : Event kind) : EStateM Fault (HandleState kind K) Unit := do
  modify fun s => { s with closed := s.closed || e.isClose }
  invoke e

/-- What the function given to `uv_close` does after `invoke`. -/
def deleteHandle : EStateM Fault (HandleState kind K) Unit := fun s =>
  match s.uvHandle with
  | none => .error .destroyed s
  | some h =>
    let objects := (h.data.map CallbackTable.objects).getD []
    .ok () { s with
      uvHandle := none
      destroyed := s.destroyed ++ objects.map CallbackObject.address
      deletedTables := s.deletedTables + (if h.data.isSome then 1 else 0)
      deletedHandles := s.deletedHandles + 1 }

/-- The callback returns, or throws. -/
def leave (threw : Bool) : EStateM Fault (HandleState kind K) Unit := do
  let s ← get
  set { s with running := none }
  match s.running with
  | some i => if i.event.isClose && !threw then deleteHandle else return ()
  | none => return ()

def new (kind : HandleKind) (K : Type) : HandleState kind K where
  alive := true
  uvHandle := some { data := some (.new kind.idMax), closing := false }
  allocations := 0
  destroyed := []
  deletedTables := 0
  deletedHandles := 0
  running := none
  invoked := []
  requests := []
  closed := false
  fault := none

end HandleState

/-- A call on a handle, with what libuv answers. -/
inductive Call (K : Type) : HandleKind → Type
  | isActive {kind : HandleKind} (active : ℤ) : Call K kind
  | isClosing {kind : HandleKind} : Call K kind
  | close {kind : HandleKind} (callback : K) : Call K kind
  | listen (callback : K) (ret : ℤ) : Call K .tcp
  | readStart (callback : K) (ret : ℤ) : Call K .tcp
  | write (callback : K) (ret : ℤ) : Call K .tcp
  | shutdown (callback : K) (ret : ℤ) : Call K .tcp
  | connect (callback : K) (ret : ℤ) : Call K .tcp
  | timerStart (callback : K) (ret : ℤ) : Call K .timer
  | bind (signalNum : ℤ) (callback : K) (ret : ℤ) : Call K .signal

namespace Call

variable {kind : HandleKind} {K : Type}

def run : Call K kind → EStateM Fault (HandleState kind K) Unit
  | isActive active => do let _ ← HandleState.isActive active
  | isClosing => do let _ ← HandleState.isClosing
  | close callback => HandleState.close callback
  | listen callback ret => do let _ ← HandleState.listen callback ret
  | readStart callback ret => do let _ ← HandleState.readStart callback ret
  | write callback ret => do let _ ← HandleState.write callback ret
  | shutdown callback ret => do let _ ← HandleState.shutdown callback ret
  | connect callback ret => do let _ ← HandleState.connect callback ret
  | timerStart callback ret => do let _ ← HandleState.timerStart callback ret
  | bind signalNum callback ret => do let _ ← HandleState.bind signalNum callback ret

/-- `bind` with a number that it does not accept. -/
def Rejected : Call K kind → Prop
  | bind signalNum _ _ => signalNum < 1 ∨ maxSigns < signalNum
  | _ => False

/-- What libuv is asked for, and the callback that is to run. -/
def starts : Call K kind → Option (Request kind × K)
  | isActive _ => none
  | isClosing => none
  | close callback => some (.close, callback)
  | listen callback _ => some (.listen, callback)
  | readStart callback _ => some (.readStart, callback)
  | write callback _ => some (.write, callback)
  | shutdown callback _ => some (.shutdown, callback)
  | connect callback _ => some (.connect, callback)
  | timerStart callback _ => some (.timerStart, callback)
  | bind signalNum callback _ =>
    if h : 1 ≤ signalNum ∧ signalNum ≤ maxSigns then some (.signal signalNum h, callback) else none

theorem starts_of_rejected {c : Call K kind} (h : c.Rejected) : c.starts = none := by
  cases c with
  | bind signalNum k ret =>
    have hout : ¬ (1 ≤ signalNum ∧ signalNum ≤ maxSigns) := by
      obtain hlow | hhigh : signalNum < 1 ∨ maxSigns < signalNum := h
      · omega
      · omega
    rw [starts, dif_neg hout]
  | _ => exact h.elim

end Call

/-- What happens to a handle. -/
inductive Action (kind : HandleKind) (K : Type)
  | call (c : Call K kind)
  | fire (e : Event kind)
  | leave (threw : Bool)
  | destruct

namespace HandleState

variable {kind : HandleKind} {K : Type}

def run : Action kind K → EStateM Fault (HandleState kind K) Unit
  | .call c => c.run
  | .fire e => fire e
  | .leave threw => leave threw
  | .destruct => modify fun s => { s with alive := false }

/-- The state after an action: an exception reaches the caller, after any other fault
nothing more can be said. -/
def after (s : HandleState kind K) (a : Action kind K) : HandleState kind K :=
  match run a s with
  | .ok _ t => t
  | .error (.thrown _) t => t
  | .error f t => { t with fault := some f }

/-- When an action can happen: calls need the object, libuv runs one callback at a time
and reports what it was asked for, the close event last. -/
def Enabled (s : HandleState kind K) : Action kind K → Prop
  | .call _ => s.alive = true
  | .fire e => s.running = none ∧ s.closed = false ∧ ∃ r ∈ s.requests, r.Reports e
  | .leave _ => s.running.isSome = true
  | .destruct => s.alive = true

def system (kind : HandleKind) (K : Type) : Transition.System (HandleState kind K) (Action kind K) where
  initial s := s = new kind K
  step s a t := s.fault = none ∧ s.Enabled a ∧ t = s.after a

/-! ### What an action can do -/

/-- A handle that is there has its table, of the size it was made with. -/
def HasTable (s : HandleState kind K) : Prop :=
  ∀ h, s.uvHandle = some h → ∃ t, h.data = some t ∧ t.lut.length = kind.idMax

theorem HasTable.length_lut {s : HandleState kind K} (hs : s.HasTable) {h : UvHandle K}
    {t : CallbackTable K} (huv : s.uvHandle = some h) (hdata : h.data = some t) :
    t.lut.length = kind.idMax := by
  obtain ⟨t', hdata', hlen⟩ := hs h huv
  obtain rfl := Option.some.inj (hdata.symm.trans hdata')
  exact hlen

/-- The state once `r` has been asked for, with its callback stored. -/
def registered (s : HandleState kind K) (h : UvHandle K) (t : CallbackTable K) (r : Request kind)
    (k : K) : HandleState kind K :=
  { s with
    uvHandle := some {
      data := some ⟨t.lut.set (toSize r.cid) (some ⟨r.type, k, none, s.allocations⟩)⟩
      closing := h.closing || r.isClose }
    allocations := s.allocations + 1
    destroyed := s.destroyed ++ (t.cell r.cid).toList.map CallbackObject.address
    requests := r :: s.requests }

/-- What comes of a call: an exception, an answer, a request, or the use of a handle that
is not there any more. -/
inductive CallOutcome (s : HandleState kind K) (c : Call K kind) : HandleState kind K → Prop
  | rejected (h : c.Rejected) : CallOutcome s c s
  | answered (hthere : s.uvHandle ≠ none) (h : ∀ r k, c.starts = some (r, k) →
      r.isClose = true ∧ ∀ h, s.uvHandle = some h → h.closing = true) : CallOutcome s c s
  | registered {h : UvHandle K} {t : CallbackTable K} {r : Request kind} {k : K}
      (huv : s.uvHandle = some h) (hdata : h.data = some t) (hstarts : c.starts = some (r, k))
      (hopen : r.isClose = true → h.closing = false) : CallOutcome s c (s.registered h t r k)
  | dangling (hnot : ¬ c.Rejected) (huv : s.uvHandle = none) :
      CallOutcome s c { s with fault := some .destroyed }

section Calls

open Execution

variable {s : HandleState kind K} {h : UvHandle K} {t : CallbackTable K}

theorem table_eq (huv : s.uvHandle = some h) (hdata : h.data = some t) : s.table = some t := by
  rw [table, huv, Option.bind_some, hdata]

theorem deref_ok (halive : s.alive = true) (huv : s.uvHandle = some h) : deref s = .ok h s := by
  rw [deref, huv]
  exact if_pos halive

theorem deref_none (huv : s.uvHandle = none) : deref s = .error .destroyed s := by
  rw [deref, huv]

theorem store_ok (halive : s.alive = true) (huv : s.uvHandle = some h) (hdata : h.data = some t)
    {cid : ℤ} (hcid : toSize cid < t.lut.length) (type : FunctionType) (k : K) :
    store cid type k s = .ok () { s with
      uvHandle := some { h with
        data := some ⟨t.lut.set (toSize cid) (some ⟨type, k, none, s.allocations⟩)⟩ }
      allocations := s.allocations + 1
      destroyed := s.destroyed ++ (t.cell cid).toList.map CallbackObject.address } := by
  rw [store, bind_ok (deref_ok halive huv)]
  simp only [hdata]
  rw [bind_ok (x := get) (a := s) (t := s) rfl]
  simp only [CallbackTable.store_ok hcid]
  rfl

/-- Storing a callback and asking libuv for the report. -/
theorem start_ok (halive : s.alive = true) (huv : s.uvHandle = some h) (hdata : h.data = some t)
    {r : Request kind} (hcid : toSize r.cid < t.lut.length) (hr : r.isClose = false) (k : K)
    (ret : ℤ) :
    (do store r.cid r.type k; uvStart r ret) s = .ok (ret == 0) (s.registered h t r k) := by
  rw [bind_ok (store_ok halive huv hdata hcid _ k), uvStart,
    bind_ok (deref_ok (by exact halive) rfl), registered, hr, Bool.or_false]
  rfl

theorem start_none (huv : s.uvHandle = none) (r : Request kind) (k : K) (ret : ℤ) :
    (do store r.cid r.type k; uvStart r ret) s = .error .destroyed s := by
  rw [store, bind_error (bind_error (deref_none huv))]

theorem close_ok (halive : s.alive = true) (huv : s.uvHandle = some h) (hdata : h.data = some t)
    (hcid : toSize 0 < t.lut.length) (hopen : h.closing = false) (k : K) :
    close k s = .ok () (s.registered h t .close k) := by
  rw [close, bind_ok (deref_ok halive huv), hopen, if_neg (by decide),
    bind_ok (store_ok halive huv hdata hcid _ k), uvClose, bind_ok (deref_ok (by exact halive) rfl),
    registered, hopen]
  rfl

theorem close_closing (halive : s.alive = true) (huv : s.uvHandle = some h)
    (hclosing : h.closing = true) (k : K) : close k s = .ok () s := by
  rw [close, bind_ok (deref_ok halive huv), if_pos hclosing]
  rfl

theorem close_none (huv : s.uvHandle = none) (k : K) : close k s = .error .destroyed s := by
  rw [close, bind_error (deref_none huv)]

theorem isActive_ok (halive : s.alive = true) (huv : s.uvHandle = some h) (active : ℤ) :
    isActive active s = .ok (active != 0) s := by
  rw [isActive, bind_ok (x := get) (a := s) (t := s) rfl, if_pos halive,
    bind_ok (deref_ok halive huv)]
  rfl

theorem isActive_none (halive : s.alive = true) (huv : s.uvHandle = none) (active : ℤ) :
    isActive active s = .error .destroyed s := by
  rw [isActive, bind_ok (x := get) (a := s) (t := s) rfl, if_pos halive,
    bind_error (deref_none huv)]

theorem isClosing_ok (halive : s.alive = true) (huv : s.uvHandle = some h) :
    isClosing s = .ok h.closing s := by
  rw [isClosing, bind_ok (x := get) (a := s) (t := s) rfl, if_pos halive,
    bind_ok (deref_ok halive huv)]
  rfl

theorem isClosing_none (halive : s.alive = true) (huv : s.uvHandle = none) :
    isClosing s = .error .destroyed s := by
  rw [isClosing, bind_ok (x := get) (a := s) (t := s) rfl, if_pos halive,
    bind_error (deref_none huv)]

theorem after_ok {a : Action kind K} {t : HandleState kind K} (hrun : run a s = .ok () t) :
    s.after a = t := by
  rw [after, hrun]

theorem after_thrown {a : Action kind K} {e : Exception} {t : HandleState kind K}
    (hrun : run a s = .error (.thrown e) t) : s.after a = t := by
  rw [after, hrun]

theorem after_destroyed {a : Action kind K} {t : HandleState kind K}
    (hrun : run a s = .error .destroyed t) : s.after a = { t with fault := some .destroyed } := by
  rw [after, hrun]

/-- The calls that ask libuv for something other than the close event. -/
private theorem after_start (hs : s.HasTable) (halive : s.alive = true) {c : Call K kind}
    {r : Request kind} {k : K} {ret : ℤ} (hr : r.isClose = false)
    (hstarts : c.starts = some (r, k)) (hnot : ¬ c.Rejected)
    (hrun : c.run = (do store r.cid r.type k; uvStart r ret) >>= fun _ => pure ()) :
    CallOutcome s c (s.after (.call c)) := by
  have hrun' : run (.call c) s = c.run s := rfl
  rw [hrun] at hrun'
  cases huv : s.uvHandle with
  | none =>
    rw [bind_error (start_none huv r k ret)] at hrun'
    rw [after_destroyed hrun']
    exact .dangling hnot huv
  | some h =>
    obtain ⟨t, hdata, hlen⟩ := hs h huv
    have hcid : toSize r.cid < t.lut.length := by
      rw [hlen]
      exact (Request.layout kind).index_lt r
    rw [bind_ok (start_ok halive huv hdata hcid hr k ret)] at hrun'
    rw [after_ok hrun']
    exact .registered huv hdata hstarts (by rw [hr]; exact nofun)

/-- The calls that only ask the handle. -/
private theorem after_query {c : Call K kind} {α : Type}
    {x : EStateM Fault (HandleState kind K) α} (hstarts : c.starts = none) (hnot : ¬ c.Rejected)
    (hrun : c.run = x >>= fun _ => pure ())
    (hok : ∀ h, s.uvHandle = some h → ∃ a, x s = .ok a s)
    (hnone : s.uvHandle = none → x s = .error .destroyed s) :
    CallOutcome s c (s.after (.call c)) := by
  have hrun' : run (.call c) s = c.run s := rfl
  rw [hrun] at hrun'
  cases huv : s.uvHandle with
  | none =>
    rw [bind_error (hnone huv)] at hrun'
    rw [after_destroyed hrun']
    exact .dangling hnot huv
  | some h =>
    obtain ⟨a, hx⟩ := hok h huv
    rw [bind_ok hx] at hrun'
    rw [after_ok hrun']
    exact .answered (by rw [huv]; exact nofun) (by rw [hstarts]; exact nofun)

theorem after_call (hs : s.HasTable) (halive : s.alive = true) (c : Call K kind) :
    CallOutcome s c (s.after (.call c)) := by
  cases c with
  | isActive active =>
    exact after_query rfl not_false rfl (fun h huv => ⟨_, isActive_ok halive huv active⟩)
      (fun huv => isActive_none halive huv active)
  | isClosing =>
    exact after_query rfl not_false rfl (fun h huv => ⟨_, isClosing_ok halive huv⟩)
      (fun huv => isClosing_none halive huv)
  | close k =>
    have hrun : run (.call (.close k)) s = close k s := rfl
    cases huv : s.uvHandle with
    | none =>
      rw [close_none huv] at hrun
      rw [after_destroyed hrun]
      exact .dangling not_false huv
    | some h =>
      cases hclosing : h.closing with
      | true =>
        rw [close_closing halive huv hclosing] at hrun
        rw [after_ok hrun]
        refine .answered (by rw [huv]; exact nofun) ?_
        intro r k' hstarts
        obtain ⟨rfl, rfl⟩ := Prod.mk.inj (Option.some.inj hstarts)
        refine ⟨rfl, ?_⟩
        intro h' huv'
        obtain rfl := Option.some.inj (huv.symm.trans huv')
        exact hclosing
      | false =>
        obtain ⟨t, hdata, hlen⟩ := hs h huv
        have hcid : toSize 0 < t.lut.length := by
          rw [hlen]
          exact (Request.layout kind).index_lt .close
        rw [close_ok halive huv hdata hcid hclosing] at hrun
        rw [after_ok hrun]
        exact .registered huv hdata rfl (fun _ => hclosing)
  | listen k ret => exact after_start hs halive rfl rfl not_false rfl
  | readStart k ret => exact after_start hs halive rfl rfl not_false rfl
  | write k ret => exact after_start hs halive rfl rfl not_false rfl
  | shutdown k ret => exact after_start hs halive rfl rfl not_false rfl
  | connect k ret => exact after_start hs halive rfl rfl not_false rfl
  | timerStart k ret => exact after_start hs halive rfl rfl not_false rfl
  | bind signalNum k ret =>
    by_cases hnum : signalNum < 1 ∨ maxSigns < signalNum
    · have hrun : run (.call (.bind signalNum k ret)) s = _ :=
        bind_error (by rw [HandleState.bind, dif_pos hnum]; rfl)
      rw [after_thrown hrun]
      exact .rejected hnum
    · have hin : 1 ≤ signalNum ∧ signalNum ≤ maxSigns := by omega
      have hstarts : (Call.bind signalNum k ret).starts = some (.signal signalNum hin, k) := by
        rw [Call.starts, dif_pos hin]
      have hbind : (Call.bind signalNum k ret).run = (do
          store (Request.signal signalNum hin).cid .signum k
          uvStart (.signal signalNum hin) ret) >>= fun _ => pure () := by
        rw [Call.run, HandleState.bind, dif_neg hnum]
        rfl
      exact after_start hs halive rfl hstarts hnum hbind

/-- A call that asks libuv for something, on a handle that is not closing. -/
theorem after_call_open (hs : s.HasTable) (halive : s.alive = true) {c : Call K kind}
    {r : Request kind} {k : K} (hstarts : c.starts = some (r, k)) (huv : s.uvHandle = some h)
    (hopen : h.closing = false) : ∃ t, h.data = some t ∧ s.after (.call c) = s.registered h t r k := by
  have hout := after_call hs halive c
  generalize s.after (.call c) = u at hout
  cases hout with
  | rejected hrejected =>
    rw [Call.starts_of_rejected hrejected] at hstarts
    cases hstarts
  | answered _ hasked =>
    have hclosing := (hasked r k hstarts).2 h huv
    rw [hopen] at hclosing
    cases hclosing
  | registered huv' hdata hstarts' =>
    obtain rfl := Option.some.inj (huv.symm.trans huv')
    obtain ⟨rfl, rfl⟩ := Prod.mk.inj (Option.some.inj (hstarts.symm.trans hstarts'))
    exact ⟨_, hdata, rfl⟩
  | dangling _ hnone => cases huv.symm.trans hnone

end Calls

section Reports

variable {s : HandleState kind K}

/-- libuv reports `e`, and `invoke` finds `x`. -/
def fired (s : HandleState kind K) (e : Event kind) (x : CallbackObject K) : HandleState kind K :=
  { s with
    closed := s.closed || e.isClose
    running := some ⟨e, x⟩
    invoked := s.invoked ++ [⟨e, x⟩] }

/-- The state once the callback of the close event has returned. -/
def deleted (s : HandleState kind K) (t : CallbackTable K) : HandleState kind K :=
  { s with
    uvHandle := none
    destroyed := s.destroyed ++ t.objects.map CallbackObject.address
    deletedTables := s.deletedTables + 1
    deletedHandles := s.deletedHandles + 1
    running := none }

theorem after_fire {e : Event kind} {h : UvHandle K} {t : CallbackTable K} {x : CallbackObject K}
    (huv : s.uvHandle = some h) (hdata : h.data = some t) (hx : t.invoke e.cid e.args = .ok x) :
    s.after (.fire e) = s.fired e x := by
  apply after_ok
  rw [run, fire, Execution.bind_ok (x := modify _) rfl, invoke]
  simp only [fired, table, huv, Option.bind_some, hdata, hx]

/-- The end of a callback, other than that of the close event returning. -/
theorem after_leave {i : Invocation kind K} {threw : Bool} (hrunning : s.running = some i)
    (hnot : (i.event.isClose && !threw) = false) :
    s.after (.leave threw) = { s with running := none } := by
  apply after_ok
  rw [run, leave, Execution.bind_ok (x := get) (a := s) (t := s) rfl,
    Execution.bind_ok (x := set _) rfl]
  simp only [hrunning, hnot]
  rfl

theorem after_leave_close {i : Invocation kind K} {h : UvHandle K} {t : CallbackTable K}
    (hrunning : s.running = some i) (hclose : i.event.isClose = true) (huv : s.uvHandle = some h)
    (hdata : h.data = some t) : s.after (.leave false) = s.deleted t := by
  apply after_ok
  rw [run, leave, Execution.bind_ok (x := get) (a := s) (t := s) rfl,
    Execution.bind_ok (x := set _) rfl]
  simp only [hrunning, hclose, Bool.not_false, Bool.and_true, if_true, deleteHandle, huv, hdata]
  rfl

end Reports

end HandleState

end LibraCore
