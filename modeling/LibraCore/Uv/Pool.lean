import LibraCore.Foundations.Heap
import LibraCore.Foundations.Transition
import LibraCore.Uv.CallbackTable

/-!
# The thread pool

`pool::run` of `uv/pool.h` makes three objects for a piece of work: the tuple of its
arguments, a `uv_work_t`, and a table with the two callbacks. The work makes a fourth one
for its result, unless it returns `void`. They are deleted in three places: the
arguments after the work, the result after the completion, and the other two by
`delete_req`.

A template on the types of the work is written here for one type `A` of argument tuples and
one type `V` of results. Callbacks are of type `K`. How a callback ends is an argument.

## Main results

- `PoolMemory.run_eq` — what `run` makes
- `PoolMemory.onWork_returned`, `PoolMemory.onWork_threw`, `PoolMemory.onOver_eq` — what the
  two steps of a task do
-/

namespace LibraCore

/-- The objects that the pool makes. -/
inductive PoolObject (A K V : Type)
  /-- `std::tuple<A...>` -/
  | params (args : A)
  /-- `uv_work_t`, with its `data` -/
  | work (data : Option ℕ)
  /-- `callbacks` -/
  | table (t : CallbackTable K)
  /-- what the work returned, once it has -/
  | result (value : Option V)

structure PoolMemory (A K V : Type) where
  heap : Heap (PoolObject A K V)
  /-- the error and the result that each completion callback was given; no result is
  `nullptr` -/
  completions : List (ℤ × Option V)

/-- How a work callback ends. -/
inductive WorkEnd (V : Type)
  | returned (value : V)
  | threw

/-- How a completion callback ends: `threwOther` is an exception that is no
`Libra::Exception`. -/
inductive OverEnd
  | returned
  | threwException (e : Exception)
  | threwOther

namespace PoolMemory

variable {A K V : Type}

def new (o : PoolObject A K V) : EStateM Fault (PoolMemory A K V) ℕ := fun m =>
  .ok m.heap.next { m with heap := m.heap.new o }

def write (a : ℕ) (o : PoolObject A K V) : EStateM Fault (PoolMemory A K V) Unit :=
  modify fun m => { m with heap := m.heap.write a o }

def delete (p : Option ℕ) : EStateM Fault (PoolMemory A K V) Unit :=
  modify fun m => { m with heap := m.heap.delete p }

/-- `req->data`, where the table is. -/
def data (req : ℕ) : EStateM Fault (PoolMemory A K V) ℕ := fun m =>
  match m.heap.cells req with
  | some (.work (some target)) => .ok target m
  | _ => .error .destroyed m

def tableAt (target : ℕ) : EStateM Fault (PoolMemory A K V) (CallbackTable K) := fun m =>
  match m.heap.cells target with
  | some (.table t) => .ok t m
  | _ => .error .destroyed m

/-- The value that a pointer to a result leads to. -/
def valueAt (m : PoolMemory A K V) (p : Option ℕ) : Option V :=
  match p.bind m.heap.cells with
  | some (.result value) => value
  | _ => none

/-- `callbacks::store`. -/
def store (target : ℕ) (cid : ℤ) (type : FunctionType) (callback : K) (data : Option ℕ) :
    EStateM Fault (PoolMemory A K V) Unit := do
  let t ← tableAt target
  let m ← get
  match t.store cid ⟨type, callback, data, m.heap.next⟩ with
  | .error f => throw f
  | .ok t =>
    set { m with heap := m.heap.skip.write target (.table t) }

/-- `callbacks::get_data`. -/
def getData (target : ℕ) (cid : ℤ) : EStateM Fault (PoolMemory A K V) (Option ℕ) := do
  let t ← tableAt target
  match t.getData cid with
  | .error f => throw f
  | .ok p => return p

/-- `callbacks::set_data`. -/
def setData (target : ℕ) (cid : ℤ) (p : Option ℕ) : EStateM Fault (PoolMemory A K V) Unit := do
  let t ← tableAt target
  match t.setData cid p with
  | .error f => throw f
  | .ok t => write target (.table t)

/-- The lookup of `callbacks::invoke` and `callbacks::invoke_by_tuple`. -/
def find (target : ℕ) (cid : ℤ) (args : Arguments) : EStateM Fault (PoolMemory A K V) Unit := do
  let t ← tableAt target
  match t.invoke cid args with
  | .error f => throw f
  | .ok _ => return ()

def createReq (workCb overCb : K) (params : Option ℕ) : EStateM Fault (PoolMemory A K V) ℕ := do
  let req ← new (.work none)
  let target ← new (.table (.new 2))
  write req (.work (some target))
  store target 0 .workCallback workCb params
  store target 1 .overCallback overCb none
  return req

def deleteReq (req : ℕ) : EStateM Fault (PoolMemory A K V) Unit := do
  let target ← data req
  delete (some target)
  delete (some req)

def getDataParamsFromReq (req : ℕ) : EStateM Fault (PoolMemory A K V) (Option ℕ) := do
  let target ← data req
  getData target 0

def getResultPtrFromReq (req : ℕ) : EStateM Fault (PoolMemory A K V) (Option ℕ) := do
  let target ← data req
  getData target 1

def setResultPtrFromReq (req : ℕ) (p : Option ℕ) : EStateM Fault (PoolMemory A K V) Unit := do
  let target ← data req
  setData target 1 p

/-- `callbacks::invoke_by_tuple(req->data, 0, *params)`, up to the end of the callback. -/
def invokeByTuple (req : ℕ) (params : Option ℕ) : EStateM Fault (PoolMemory A K V) Unit := do
  let target ← data req
  find target 0 .workCallback
  let m ← get
  match params.bind m.heap.cells with
  | some (.params _) => return ()
  | _ => throw .destroyed

/-- `invoke_work` for work with a result. -/
def invokeWork (req : ℕ) (e : WorkEnd V) : EStateM Fault (PoolMemory A K V) (Option ℕ) := do
  let params ← getDataParamsFromReq req
  let r ← new (.result none)
  invokeByTuple req params
  match e with
  | .returned value =>
    write r (.result (some value))
    setResultPtrFromReq req (some r)
    delete params
    return some r
  | .threw =>
    delete (some r)
    delete params
    return none

/-- `invoke_work` for work without a result; both `catch` clauses are empty. -/
def invokeWorkVoid (req : ℕ) : EStateM Fault (PoolMemory A K V) Unit := do
  let params ← getDataParamsFromReq req
  invokeByTuple req params
  delete params

def invokeOver (req : ℕ) (error : ℤ) (e : OverEnd) : EStateM Fault (PoolMemory A K V) Unit := do
  let p ← getResultPtrFromReq req
  let target ← data req
  find target 1 (.overCallback error p)
  modify fun m => { m with completions := m.completions ++ [(error, m.valueAt p)] }
  match e with
  | .returned =>
    delete p
    deleteReq req
  | .threwException e =>
    if p.isSome then
      delete p
      delete p
    delete p
    deleteReq req
    throw (.thrown e)
  -- no clause catches it
  | .threwOther => return ()

/-- `pool::run`, which throws what stands for the value of `uv_queue_work` if this is not 0.
The request that libuv has been given takes the place of `true`. -/
def run (workCb overCb : K) (args : A) (refusal : Option Exception) :
    EStateM Fault (PoolMemory A K V) ℕ := do
  let params ← new (.params args)
  let req ← createReq workCb overCb (some params)
  match refusal with
  | some e => throw (.thrown e)
  | none => return req

/-- The function that `run` gives to libuv for the thread of the work. -/
def onWork (isVoid : Bool) (req : ℕ) (e : WorkEnd V) : EStateM Fault (PoolMemory A K V) Unit :=
  catchException (if isVoid then invokeWorkVoid req else do let _ ← invokeWork req e)
    -- it is logged
    fun _ => return ()

/-- The function that `run` gives to libuv for the completion. -/
def onOver (req : ℕ) (error : ℤ) (e : OverEnd) : EStateM Fault (PoolMemory A K V) Unit :=
  catchException (invokeOver req error e) fun _ => return ()

/-! ### What the functions do -/

section Eval

open Execution

/-- A request with its table: the callback of the work has `params` with it, that of the
completion `result`. -/
structure Prepared (h : Heap (PoolObject A K V)) (req target : ℕ) (params result : Option ℕ) :
    Prop where
  work : h.cells req = some (.work (some target))
  table : ∃ x y, h.cells target = some (.table ⟨[some x, some y]⟩) ∧
    x.type = .workCallback ∧ x.data = params ∧ y.type = .overCallback ∧ y.data = result

variable {m : PoolMemory A K V} {req target : ℕ} {params result : Option ℕ}

theorem data_ok (h : m.heap.cells req = some (.work (some target))) : data req m = .ok target m := by
  rw [data, h]

theorem tableAt_ok {t : CallbackTable K} (h : m.heap.cells target = some (.table t)) :
    tableAt target m = .ok t m := by
  rw [tableAt, h]

theorem store_ok {t : CallbackTable K} (h : m.heap.cells target = some (.table t)) {cid : ℤ}
    (hcid : toSize cid < t.lut.length) (type : FunctionType) (k : K) (p : Option ℕ) :
    store target cid type k p m = .ok () { m with
      heap := m.heap.skip.write target
        (.table ⟨t.lut.set (toSize cid) (some ⟨type, k, p, m.heap.next⟩)⟩) } := by
  rw [store, bind_ok (tableAt_ok h), bind_ok (x := get) (a := m) (t := m) rfl]
  simp only [CallbackTable.store_ok hcid]
  rfl

theorem getDataParamsFromReq_ok (h : Prepared m.heap req target params result) :
    getDataParamsFromReq req m = .ok params m := by
  obtain ⟨x, y, htable, -, hx, -⟩ := h.table
  rw [getDataParamsFromReq, bind_ok (data_ok h.work), getData, bind_ok (tableAt_ok htable)]
  show EStateM.Result.ok x.data m = _
  rw [hx]

theorem getResultPtrFromReq_ok (h : Prepared m.heap req target params result) :
    getResultPtrFromReq req m = .ok result m := by
  obtain ⟨x, y, htable, -, -, -, hy⟩ := h.table
  rw [getResultPtrFromReq, bind_ok (data_ok h.work), getData, bind_ok (tableAt_ok htable)]
  show EStateM.Result.ok y.data m = _
  rw [hy]

theorem find_work_ok (h : Prepared m.heap req target params result) :
    find target 0 .workCallback m = .ok () m := by
  obtain ⟨x, y, htable, hx, -⟩ := h.table
  have hinvoke : (CallbackTable.mk [some x, some y]).invoke 0 .workCallback = .ok x :=
    CallbackTable.invoke_eq_ok.mpr ⟨rfl, hx⟩
  rw [find, bind_ok (tableAt_ok htable)]
  simp only [hinvoke]
  rfl

theorem find_over_ok (h : Prepared m.heap req target params result) (error : ℤ) :
    find target 1 (.overCallback error result) m = .ok () m := by
  obtain ⟨x, y, htable, -, -, hy, -⟩ := h.table
  have hinvoke : (CallbackTable.mk [some x, some y]).invoke 1 (.overCallback error result) = .ok y :=
    CallbackTable.invoke_eq_ok.mpr ⟨rfl, hy⟩
  rw [find, bind_ok (tableAt_ok htable)]
  simp only [hinvoke]
  rfl

theorem invokeByTuple_ok (h : Prepared m.heap req target params result) {p : ℕ} {args : A}
    (hp : m.heap.cells p = some (.params args)) : invokeByTuple req (some p) m = .ok () m := by
  rw [invokeByTuple, bind_ok (data_ok h.work), bind_ok (find_work_ok h),
    bind_ok (x := get) (a := m) (t := m) rfl]
  simp only [Option.bind_some, hp]
  rfl

/-- The result pointer is put in its place. -/
theorem setResultPtrFromReq_ok (h : Prepared m.heap req target params result) (hne : req ≠ target)
    (p : Option ℕ) : ∃ t, setResultPtrFromReq req p m =
        .ok () { m with heap := m.heap.write target (.table t) } ∧
      Prepared (m.heap.write target (.table t)) req target params p := by
  obtain ⟨x, y, htable, hwork, hparams, hover, -⟩ := h.table
  refine ⟨⟨[some x, some { y with data := p }]⟩, ?_, ?_, x, { y with data := p }, ?_⟩
  · rw [setResultPtrFromReq, bind_ok (data_ok h.work), setData, bind_ok (tableAt_ok htable)]
    rfl
  · exact (Function.update_of_ne hne _ _).trans h.work
  · exact ⟨Function.update_self _ _ _, hwork, hparams, hover, rfl⟩

theorem deleteReq_ok (h : m.heap.cells req = some (.work (some target))) :
    deleteReq req m =
      .ok () { m with heap := (m.heap.delete (some target)).delete (some req) } := by
  rw [deleteReq, bind_ok (data_ok h)]
  rfl

theorem createReq_eq (m : PoolMemory A K V) (workCb overCb : K) (params : Option ℕ) :
    ∃ h, createReq workCb overCb params m = .ok m.heap.next { m with heap := h } ∧
      Heap.Change m.heap h 4 [m.heap.next, m.heap.next + 1] [] [] ∧
      Prepared h m.heap.next (m.heap.next + 1) params none := by
  let n := m.heap.next
  let m₁ : PoolMemory A K V :=
    { m with heap := ((m.heap.new (.work none)).new (.table (.new 2))).write n (.work (some (n + 1))) }
  have h₁ : m₁.heap.cells (n + 1) = some (.table (.new 2)) :=
    (Function.update_of_ne (by omega) _ _).trans (Function.update_self _ _ _)
  have h₁' : m₁.heap.cells n = some (.work (some (n + 1))) := Function.update_self _ _ _
  have hzero : toSize 0 < (CallbackTable.new 2 : CallbackTable K).lut.length := by
    rw [CallbackTable.length_lut_new]
    decide
  have hs₁ := store_ok h₁ hzero .workCallback workCb params
  let m₂ : PoolMemory A K V := { m with
    heap := m₁.heap.skip.write (n + 1) (.table ⟨[some ⟨.workCallback, workCb, params, n + 2⟩, none]⟩) }
  have h₂ : m₂.heap.cells (n + 1) =
      some (.table ⟨[some ⟨.workCallback, workCb, params, n + 2⟩, none]⟩) := Function.update_self _ _ _
  have hs₂ := store_ok h₂ (show toSize 1 < 2 by decide) .overCallback overCb none
  refine ⟨m₂.heap.skip.write (n + 1) (.table ⟨[some ⟨.workCallback, workCb, params, n + 2⟩,
    some ⟨.overCallback, overCb, none, n + 3⟩]⟩), ?_, ⟨rfl, ?_, (List.append_nil _).symm, ?_⟩, ?_, _, _,
    Function.update_self _ _ _, rfl, rfl, rfl, rfl⟩
  · rw [createReq, bind_ok (x := new _) rfl, bind_ok (x := new _) rfl, bind_ok (x := write _ _) rfl]
    exact (bind_ok hs₁).trans ((bind_ok hs₂).trans rfl)
  · show (m.heap.allocs ++ [n]) ++ [n + 1] = m.heap.allocs ++ [n, n + 1]
    rw [List.append_assoc, List.singleton_append]
  · intro a ha _
    have hn : a ≠ n := by omega
    have hn' : a ≠ n + 1 := by omega
    calc _ = m₂.heap.cells a := Function.update_of_ne hn' _ _
      _ = m₁.heap.cells a := Function.update_of_ne hn' _ _
      _ = ((m.heap.new (.work none)).new (.table (.new 2))).cells a := Function.update_of_ne hn _ _
      _ = (m.heap.new (.work none)).cells a := Function.update_of_ne hn' _ _
      _ = m.heap.cells a := Function.update_of_ne hn _ _
  · calc _ = m₂.heap.cells n := Function.update_of_ne (by omega) _ _
      _ = m₁.heap.cells n := Function.update_of_ne (by omega) _ _
      _ = some (.work (some (n + 1))) := h₁'

/-- What `run` makes, whether libuv accepts it or not. -/
theorem run_eq (m : PoolMemory A K V) (workCb overCb : K) (args : A) (refusal : Option Exception) :
    ∃ h, run workCb overCb args refusal m =
        (match refusal with
        | some e => .error (.thrown e) { m with heap := h }
        | none => .ok (m.heap.next + 1) { m with heap := h }) ∧
      Heap.Change m.heap h 5 [m.heap.next, m.heap.next + 1, m.heap.next + 2] [] [] ∧
      Prepared h (m.heap.next + 1) (m.heap.next + 2) (some m.heap.next) none ∧
      h.cells m.heap.next = some (.params args) := by
  let m₁ : PoolMemory A K V := { m with heap := m.heap.new (.params args) }
  obtain ⟨h, hcreate, hchange, hprepared⟩ := createReq_eq m₁ workCb overCb (some m.heap.next)
  refine ⟨h, ?_, ⟨?_, ?_, hchange.deletes, ?_⟩, hprepared, ?_⟩
  · rw [run, bind_ok (x := new _) (t := m₁) rfl, bind_ok hcreate]
    cases refusal <;> rfl
  · rw [hchange.next]
    show m.heap.next + 1 + 4 = m.heap.next + 5
    omega
  · rw [hchange.allocs]
    show (m.heap.allocs ++ [m.heap.next]) ++ _ = _
    rw [List.append_assoc]
    rfl
  · intro a ha hnil
    have hlt : a < m₁.heap.next := Nat.lt_succ_of_lt ha
    rw [hchange.cells a hlt hnil]
    exact Function.update_of_ne (by omega) _ _
  · rw [hchange.cells _ (Nat.lt_succ_self _) List.not_mem_nil]
    exact Function.update_self _ _ _

theorem Prepared.congr {h h' : Heap (PoolObject A K V)} (hp : Prepared h req target params result)
    (hreq : h'.cells req = h.cells req) (htarget : h'.cells target = h.cells target) :
    Prepared h' req target params result := by
  obtain ⟨x, y, htable, hrest⟩ := hp.table
  exact ⟨hreq.trans hp.work, x, y, htarget.trans htable, hrest⟩

section Work

variable {p : ℕ} {args : A} (h : Prepared m.heap req target (some p) result)
  (hp : m.heap.cells p = some (.params args))

include h hp

/-- The work of a task without a result. -/
theorem onWork_void (e : WorkEnd V) :
    onWork true req e m = .ok () { m with heap := m.heap.delete (some p) } := by
  apply catchException_ok
  rw [if_pos rfl, invokeWorkVoid, bind_ok (getDataParamsFromReq_ok h),
    bind_ok (invokeByTuple_ok h hp)]
  rfl

/-- The object that `invoke_work` makes for the result is none of those there are. -/
theorem prepared_new (hbelow : ∀ a ∈ [p, req, target], a < m.heap.next) :
    Prepared (m.heap.new (.result none)) req target (some p) result ∧
      (m.heap.new (.result none)).cells p = some (.params args) := by
  have hcells : ∀ a ∈ [p, req, target], (m.heap.new (.result none)).cells a = m.heap.cells a :=
    fun a ha => Function.update_of_ne (Nat.ne_of_lt (hbelow a ha)) _ _
  exact ⟨h.congr (hcells req (by simp)) (hcells target (by simp)), (hcells p (by simp)).trans hp⟩

variable (hnodup : [p, req, target].Nodup) (hbelow : ∀ a ∈ [p, req, target], a < m.heap.next)

include hnodup hbelow

/-- Work that returns a value leaves it in a new object, which the table points to. -/
theorem onWork_returned (v : V) :
    ∃ h', onWork false req (.returned v) m = .ok () { m with heap := h' } ∧
      Heap.Change m.heap h' 1 [m.heap.next] [p] [m.heap.next, target, p] ∧
      Prepared h' req target (some p) (some m.heap.next) ∧
      h'.cells m.heap.next = some (.result (some v)) := by
  obtain ⟨hpreq, hptarget, hreqtarget⟩ : p ≠ req ∧ p ≠ target ∧ req ≠ target := by
    simpa [and_assoc] using hnodup
  obtain ⟨hpn, hreqn, htargetn⟩ : p < m.heap.next ∧ req < m.heap.next ∧ target < m.heap.next := by
    simpa using hbelow
  let n := m.heap.next
  let m₁ : PoolMemory A K V := { m with heap := m.heap.new (.result none) }
  obtain ⟨h₁, hp₁⟩ := prepared_new h hp hbelow
  let m₂ : PoolMemory A K V := { m with heap := m₁.heap.write n (.result (some v)) }
  have h₂ : Prepared m₂.heap req target (some p) result :=
    h₁.congr (Function.update_of_ne (Nat.ne_of_lt hreqn) _ _)
      (Function.update_of_ne (Nat.ne_of_lt htargetn) _ _)
  obtain ⟨t, hset, h₃⟩ := setResultPtrFromReq_ok h₂ hreqtarget (some n)
  refine ⟨(m₂.heap.write target (.table t)).delete (some p), ?_, ?_, ?_, ?_⟩
  · have hwork : invokeWork req (.returned v) m = .ok (some n)
        { m with heap := (m₂.heap.write target (.table t)).delete (some p) } := by
      rw [invokeWork, bind_ok (getDataParamsFromReq_ok h), bind_ok (x := new _) (t := m₁) rfl,
        bind_ok (invokeByTuple_ok h₁ hp₁)]
      exact (bind_ok (x := write _ _) (t := m₂) rfl).trans ((bind_ok hset).trans rfl)
    apply catchException_ok
    rw [if_neg Bool.false_ne_true, bind_ok hwork]
    rfl
  · exact (((Heap.change_new _ _).trans (Heap.change_write _ _ _)).trans
      (Heap.change_write _ _ _)).trans (Heap.change_delete _ (some p))
  · exact h₃.congr (Function.update_of_ne hpreq.symm _ _) (Function.update_of_ne hptarget.symm _ _)
  · calc _ = (m₂.heap.write target (.table t)).cells n := Function.update_of_ne (Nat.ne_of_gt hpn) _ _
      _ = m₂.heap.cells n := Function.update_of_ne (Nat.ne_of_gt htargetn) _ _
      _ = some (.result (some v)) := Function.update_self _ _ _

/-- Work that throws leaves no result. -/
theorem onWork_threw :
    ∃ h', onWork false req .threw m = .ok () { m with heap := h' } ∧
      Heap.Change m.heap h' 1 [m.heap.next] [m.heap.next, p] [m.heap.next, p] ∧
      Prepared h' req target (some p) result := by
  obtain ⟨hpreq, hptarget, -⟩ : p ≠ req ∧ p ≠ target ∧ req ≠ target := by
    simpa [and_assoc] using hnodup
  obtain ⟨hpn, hreqn, htargetn⟩ : p < m.heap.next ∧ req < m.heap.next ∧ target < m.heap.next := by
    simpa using hbelow
  let n := m.heap.next
  let m₁ : PoolMemory A K V := { m with heap := m.heap.new (.result none) }
  obtain ⟨h₁, hp₁⟩ := prepared_new h hp hbelow
  refine ⟨(m₁.heap.delete (some n)).delete (some p), ?_, ?_, ?_⟩
  · have hwork : invokeWork req .threw m = .ok none
        { m with heap := (m₁.heap.delete (some n)).delete (some p) } := by
      rw [invokeWork, bind_ok (getDataParamsFromReq_ok h), bind_ok (x := new _) (t := m₁) rfl,
        bind_ok (invokeByTuple_ok h₁ hp₁)]
      rfl
    apply catchException_ok
    rw [if_neg Bool.false_ne_true, bind_ok hwork]
    rfl
  · exact ((Heap.change_new _ _).trans (Heap.change_delete _ (some n))).trans
      (Heap.change_delete _ (some p))
  · refine h₁.congr ?_ ?_
    · calc _ = (m₁.heap.delete (some n)).cells req := Function.update_of_ne hpreq.symm _ _
        _ = m₁.heap.cells req := Function.update_of_ne (Nat.ne_of_lt hreqn) _ _
    · calc _ = (m₁.heap.delete (some n)).cells target := Function.update_of_ne hptarget.symm _ _
        _ = m₁.heap.cells target := Function.update_of_ne (Nat.ne_of_lt htargetn) _ _

end Work

/-- What the completion step deletes, in order; `p` is the result. -/
def overDeletes (req target : ℕ) (p : Option ℕ) : OverEnd → List ℕ
  | .returned => p.toList ++ [target, req]
  | .threwException _ => p.toList ++ p.toList ++ p.toList ++ [target, req]
  | .threwOther => []

theorem cells_delete_of_ne {h : Heap (PoolObject A K V)} {p : Option ℕ} (hne : p ≠ some req) :
    (h.delete p).cells req = h.cells req := by
  cases p with
  | none => rfl
  | some a => exact Function.update_of_ne (fun heq => hne (congrArg some heq.symm)) _ _

/-- The completion step. -/
theorem onOver_eq (h : Prepared m.heap req target params result) (hne : result ≠ some req)
    (error : ℤ) (e : OverEnd) :
    ∃ h', onOver req error e m =
        .ok () ⟨h', m.completions ++ [(error, m.valueAt result)]⟩ ∧
      Heap.Change m.heap h' 0 [] (overDeletes req target result e) (overDeletes req target result e) := by
  let m₁ : PoolMemory A K V := { m with completions := m.completions ++ [(error, m.valueAt result)] }
  have hwork : m₁.heap.cells req = some (.work (some target)) := h.work
  cases e with
  | returned =>
    have hover : invokeOver req error .returned m =
        .ok () ⟨((m.heap.delete result).delete (some target)).delete (some req), m₁.completions⟩ := by
      rw [invokeOver, bind_ok (getResultPtrFromReq_ok h), bind_ok (data_ok h.work),
        bind_ok (find_over_ok h error), bind_ok (x := modify _) (t := m₁) rfl]
      refine (bind_ok (x := delete _) (t := ⟨m.heap.delete result, m₁.completions⟩) rfl).trans ?_
      exact deleteReq_ok ((cells_delete_of_ne hne).trans h.work)
    exact ⟨_, catchException_ok hover, (Heap.change_delete _ result).trans
      ((Heap.change_delete _ (some target)).trans (Heap.change_delete _ (some req)))⟩
  | threwException x =>
    cases result with
    | none =>
      have hover : invokeOver req error (.threwException x) m = .error (.thrown x)
          ⟨(m.heap.delete (some target)).delete (some req), m₁.completions⟩ := by
        rw [invokeOver, bind_ok (getResultPtrFromReq_ok h), bind_ok (data_ok h.work),
          bind_ok (find_over_ok h error), bind_ok (x := modify _) (t := m₁) rfl]
        exact (bind_ok (deleteReq_ok hwork)).trans rfl
      exact ⟨_, catchException_thrown hover, (Heap.change_delete _ (some target)).trans
        (Heap.change_delete _ (some req))⟩
    | some r =>
      -- the object is deleted under its type, and twice more as `void*`
      let m₂ : PoolMemory A K V := ⟨((m.heap.delete (some r)).delete (some r)).delete (some r),
        m₁.completions⟩
      have hwork₂ : m₂.heap.cells req = some (.work (some target)) := by
        calc _ = ((m.heap.delete (some r)).delete (some r)).cells req := cells_delete_of_ne hne
          _ = (m.heap.delete (some r)).cells req := cells_delete_of_ne hne
          _ = m.heap.cells req := cells_delete_of_ne hne
          _ = _ := h.work
      have hover : invokeOver req error (.threwException x) m = .error (.thrown x)
          ⟨(m₂.heap.delete (some target)).delete (some req), m₁.completions⟩ := by
        rw [invokeOver, bind_ok (getResultPtrFromReq_ok h), bind_ok (data_ok h.work),
          bind_ok (find_over_ok h error), bind_ok (x := modify _) (t := m₁) rfl]
        exact (bind_ok (deleteReq_ok hwork₂)).trans rfl
      exact ⟨_, catchException_thrown hover, (Heap.change_delete _ (some r)).trans
        ((Heap.change_delete _ (some r)).trans ((Heap.change_delete _ (some r)).trans
          ((Heap.change_delete _ (some target)).trans (Heap.change_delete _ (some req)))))⟩
  | threwOther =>
    have hover : invokeOver req error .threwOther m = .ok () m₁ := by
      rw [invokeOver, bind_ok (getResultPtrFromReq_ok h), bind_ok (data_ok h.work),
        bind_ok (find_over_ok h error), bind_ok (x := modify _) (t := m₁) rfl]
      rfl
    exact ⟨m.heap, catchException_ok hover, rfl, (List.append_nil _).symm, (List.append_nil _).symm,
      fun _ _ _ => rfl⟩

end Eval

/-- The objects made on the way from `m` to `m'`. -/
def made (m m' : PoolMemory A K V) : List ℕ := m'.heap.allocs.drop m.heap.allocs.length

/-- The completions on the way from `m` to `m'`. -/
def completed (m m' : PoolMemory A K V) : List (ℤ × Option V) :=
  m'.completions.drop m.completions.length

end PoolMemory

/-- A call of `run`, and what has become of it. -/
structure Task (V : Type) where
  isVoid : Bool
  /-- what libuv works on, if it has accepted it -/
  req : Option ℕ
  /-- what was made for the task -/
  objects : List ℕ
  /-- how the work has ended, and how the completion has -/
  workEnd : Option (WorkEnd V)
  overEnd : Option OverEnd
  completions : List (ℤ × Option V)

structure Pool (A K V : Type) where
  memory : PoolMemory A K V
  tasks : List (Task V)
  fault : Option Fault

/-- What happens in the pool; a task is named by its place in the order of the calls. -/
inductive PoolEvent (A K V : Type)
  | run (isVoid : Bool) (workCb overCb : K) (args : A) (refusal : Option Exception)
  | work (i : ℕ) (e : WorkEnd V)
  | complete (i : ℕ) (error : ℤ) (e : OverEnd)

namespace Pool

variable {A K V : Type}

def new : Pool A K V :=
  { memory := { heap := .empty, completions := [] }, tasks := [], fault := none }

/-- The fault of a computation that did not end by returning or by an exception. -/
def faultOf {α : Type} : EStateM.Result Fault (PoolMemory A K V) α → Option Fault
  | .ok _ _ => none
  | .error (.thrown _) _ => none
  | .error f _ => some f

/-- A call of `run`. -/
def submit (s : Pool A K V) (isVoid : Bool) (r : EStateM.Result Fault (PoolMemory A K V) ℕ) :
    Pool A K V where
  memory := Execution.final r
  tasks := s.tasks ++ [{
    isVoid
    req := match r with
      | .ok req _ => some req
      | .error _ _ => none
    objects := s.memory.made (Execution.final r)
    workEnd := none
    overEnd := none
    completions := [] }]
  fault := faultOf r

/-- A step of task `i`, which leaves `task` but for what was made and completed. -/
def advance (s : Pool A K V) (i : ℕ) (task : Task V)
    (r : EStateM.Result Fault (PoolMemory A K V) Unit) : Pool A K V where
  memory := Execution.final r
  tasks := s.tasks.set i { task with
    objects := task.objects ++ s.memory.made (Execution.final r)
    completions := task.completions ++ s.memory.completed (Execution.final r) }
  fault := faultOf r

/-- libuv runs the work of an accepted task, once, and its completion after that. -/
inductive Step (s : Pool A K V) : PoolEvent A K V → Pool A K V → Prop
  | run (isVoid : Bool) (workCb overCb : K) (args : A) (refusal : Option Exception) :
      Step s (.run isVoid workCb overCb args refusal)
        (s.submit isVoid (PoolMemory.run workCb overCb args refusal s.memory))
  | work {i : ℕ} {task : Task V} {req : ℕ} (e : WorkEnd V) (htask : s.tasks[i]? = some task)
      (hreq : task.req = some req) (hfirst : task.workEnd = none) :
      Step s (.work i e) (s.advance i { task with workEnd := some e }
        (PoolMemory.onWork task.isVoid req e s.memory))
  | complete {i : ℕ} {task : Task V} {req : ℕ} (error : ℤ) (e : OverEnd)
      (htask : s.tasks[i]? = some task) (hreq : task.req = some req)
      (hworked : task.workEnd.isSome = true) (hfirst : task.overEnd = none) :
      Step s (.complete i error e) (s.advance i { task with overEnd := some e }
        (PoolMemory.onOver req error e s.memory))

def system (A K V : Type) : Transition.System (Pool A K V) (PoolEvent A K V) where
  initial s := s = new
  step s e t := s.fault = none ∧ Step s e t

end Pool

end LibraCore
