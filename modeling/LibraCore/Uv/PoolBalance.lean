import LibraCore.Uv.Pool

/-!
# The balance of a task

Between two steps a task is refused, queued, worked or finished, and its `Stage` says which
of its objects have been deleted. The steps of different tasks touch different objects, so
they can be interleaved in any order.

Two things upset the balance. A refused submission leaves everything that `run` has made.
A completion callback that throws leaves the request, the table and the result when the
exception is not a `Libra::Exception`; when it is, and there is a result, the `catch` clause
deletes the result under its type and twice more as `void*`.

## Main results

- `Pool.stage_of_reachable` — every task is in one of the stages, at every point of a run
- `Pool.settled_iff` — a task keeps its balance exactly if it is accepted and its
  completion does not throw, except for an `Exception` when there is no result
- `Pool.result_deleted_thrice` — a completion that throws
-/

namespace LibraCore

/-- What the completion is given: the value that the work has returned, or nothing. -/
def WorkEnd.value {V : Type} (isVoid : Bool) : WorkEnd V → Option V
  | returned value => if isVoid then none else some value
  | threw => none

/-- The ends of a completion after which everything has been deleted, once. -/
def OverEnd.Balanced {V : Type} (result : Option V) : OverEnd → Prop
  | returned => True
  | threwException _ => result = none
  | threwOther => False

/-- libuv has accepted the task, and its completion has not thrown, or it has thrown an
`Exception` when the work had left no result. -/
def Task.Clean {V : Type} (task : Task V) : Prop :=
  task.req ≠ none ∧
    ∀ e o, task.workEnd = some e → task.overEnd = some o → o.Balanced (e.value task.isVoid)

namespace Pool

open PoolMemory

variable {A K V : Type}

/-- The result object of a task whose work has ended, and the pointer to it. -/
inductive ResultAt (h : Heap (PoolObject A K V)) : Bool → WorkEnd V → List ℕ → Option ℕ → Prop
  | void (e : WorkEnd V) : ResultAt h true e [] none
  | threw {r : ℕ} (hcount : h.deletes.count r = 1) : ResultAt h false .threw [r] none
  | returned {r : ℕ} {value : V} (hcell : h.cells r = some (.result (some value)))
      (hcount : h.deletes.count r = 0) : ResultAt h false (.returned value) [r] (some r)

/-- What a task has made and deleted so far. -/
inductive Stage (h : Heap (PoolObject A K V)) : Task V → Prop
  | refused {isVoid : Bool} {objects : List ℕ} (hne : objects ≠ [])
      (hkept : ∀ a ∈ objects, h.deletes.count a = 0) :
      Stage h { isVoid, req := none, objects, workEnd := none, overEnd := none, completions := [] }
  | queued {isVoid : Bool} {p req target : ℕ} {args : A} (hnodup : [p, req, target].Nodup)
      (hprepared : Prepared h req target (some p) none) (hparams : h.cells p = some (.params args))
      (hkept : ∀ a ∈ [p, req, target], h.deletes.count a = 0) :
      Stage h { isVoid, req := some req, objects := [p, req, target], workEnd := none,
                overEnd := none, completions := [] }
  | worked {isVoid : Bool} {p req target : ℕ} {e : WorkEnd V} {results : List ℕ}
      {result : Option ℕ} (hnodup : ([p, req, target] ++ results).Nodup)
      (hprepared : Prepared h req target (some p) result) (hp : h.deletes.count p = 1)
      (hreq : h.deletes.count req = 0) (htarget : h.deletes.count target = 0)
      (hresult : ResultAt h isVoid e results result) :
      Stage h { isVoid, req := some req, objects := [p, req, target] ++ results, workEnd := some e,
                overEnd := none, completions := [] }
  | finished {isVoid : Bool} {req : ℕ} {objects : List ℕ} {e : WorkEnd V} (error : ℤ) {o : OverEnd}
      (hbalance : (∀ a ∈ objects, h.deletes.count a = 1) ↔ o.Balanced (e.value isVoid)) :
      Stage h { isVoid, req := some req, objects, workEnd := some e, overEnd := some o,
                completions := [(error, e.value isVoid)] }

theorem ResultAt.congr {h h' : Heap (PoolObject A K V)} {isVoid : Bool} {e : WorkEnd V}
    {results : List ℕ} {result : Option ℕ} (hr : ResultAt h isVoid e results result)
    (hsame : ∀ a ∈ results, Heap.SameAt h h' a) : ResultAt h' isVoid e results result := by
  cases hr with
  | void => exact .void e
  | threw hcount =>
    exact .threw ((hsame _ List.mem_cons_self).2.trans hcount)
  | returned hcell hcount =>
    obtain ⟨hcells, hdeletes⟩ := hsame _ List.mem_cons_self
    exact .returned (hcells.trans hcell) (hdeletes.trans hcount)

/-- Only its own objects matter to the stage of a task. -/
theorem local_stage : Heap.Local Task.objects (Stage : Heap (PoolObject A K V) → Task V → Prop) := by
  intro h h' task hsame hstage
  cases hstage with
  | refused hne hkept =>
    refine .refused hne ?_
    intro a ha
    rw [(hsame a ha).2, hkept a ha]
  | @queued _ p req target _ hnodup hprepared hparams hkept =>
    refine .queued hnodup (hprepared.congr (hsame req (by simp)).1 (hsame target (by simp)).1)
      ((hsame p (by simp)).1.trans hparams) ?_
    intro a ha
    rw [(hsame a ha).2, hkept a ha]
  | @worked _ p req target _ results _ hnodup hprepared hp hreq htarget hresult =>
    have hreq' := hsame req (by simp)
    have htarget' := hsame target (by simp)
    exact .worked hnodup (hprepared.congr hreq'.1 htarget'.1) ((hsame p (by simp)).2.trans hp)
      (hreq'.2.trans hreq) (htarget'.2.trans htarget)
      (hresult.congr fun a ha => hsame a (List.mem_append_right _ ha))
  | @finished _ _ objects _ error _ hbalance =>
    refine .finished error (Iff.trans ?_ hbalance)
    refine forall₂_congr fun a ha => ?_
    rw [(hsame a ha).2]

/-- What the completion finds at the pointer it is given. -/
theorem ResultAt.valueAt {m : PoolMemory A K V} {isVoid : Bool} {e : WorkEnd V} {results : List ℕ}
    {result : Option ℕ} (hr : ResultAt m.heap isVoid e results result) :
    m.valueAt result = e.value isVoid := by
  cases hr with
  | void => cases e <;> rfl
  | threw => rfl
  | returned hcell =>
    rw [PoolMemory.valueAt, Option.bind_some, hcell]
    rfl

/-- How often the completion step deletes the result, if there is one. -/
def resultDeletes : OverEnd → ℕ
  | .returned => 1
  | .threwException _ => 3
  | .threwOther => 0

/-- How often it deletes the request and the table. -/
def requestDeletes : OverEnd → ℕ
  | .returned => 1
  | .threwException _ => 1
  | .threwOther => 0

theorem count_overDeletes (req target : ℕ) (result : Option ℕ) (o : OverEnd) (a : ℕ) :
    (overDeletes req target result o).count a =
      resultDeletes o * result.toList.count a + requestDeletes o * [target, req].count a := by
  cases o with
  | returned =>
    rw [overDeletes, List.count_append, resultDeletes, requestDeletes, Nat.one_mul, Nat.one_mul]
  | threwException e =>
    rw [overDeletes, List.count_append, List.count_append, List.count_append, resultDeletes,
      requestDeletes]
    omega
  | threwOther => rw [overDeletes, List.count_nil, resultDeletes, requestDeletes, Nat.zero_mul,
      Nat.zero_mul]

/-- After the completion step every object has been deleted once, if the end was a
balanced one. -/
theorem balance_over {h h' : Heap (PoolObject A K V)} {isVoid : Bool} {e : WorkEnd V}
    {p req target : ℕ} {results : List ℕ} {result : Option ℕ} {o : OverEnd}
    (hnodup : ([p, req, target] ++ results).Nodup) (hp : h.deletes.count p = 1)
    (hreq : h.deletes.count req = 0) (htarget : h.deletes.count target = 0)
    (hresult : ResultAt h isVoid e results result)
    (hcount : ∀ a, h'.deletes.count a =
      h.deletes.count a + (overDeletes req target result o).count a) :
    (∀ a ∈ [p, req, target] ++ results, h'.deletes.count a = 1) ↔ o.Balanced (e.value isVoid) := by
  obtain ⟨hown, -, hdisjoint⟩ := List.nodup_append.mp hnodup
  obtain ⟨hpreq, hptarget, hreqtarget⟩ : p ≠ req ∧ p ≠ target ∧ req ≠ target := by
    simpa [and_assoc] using hown
  have hcounts : ∀ a, h'.deletes.count a = h.deletes.count a +
      (resultDeletes o * result.toList.count a + requestDeletes o * [target, req].count a) := by
    intro a
    rw [hcount, count_overDeletes]
  -- the result is none of the three objects of `run`
  have hresult₀ : ∀ a ∈ [p, req, target], result.toList.count a = 0 := by
    intro a ha
    cases hresult with
    | void => rfl
    | threw => rfl
    | @returned r =>
      exact List.count_eq_zero.mpr fun hmem =>
        hdisjoint a ha r List.mem_cons_self (List.mem_singleton.mp hmem)
  have hrequest₀ : ∀ a ∈ results, [target, req].count a = 0 := by
    intro a ha
    have htarget' := hdisjoint target (by simp) a ha
    have hreq' := hdisjoint req (by simp) a ha
    exact List.count_eq_zero.mpr (by simp [htarget'.symm, hreq'.symm])
  have hall : (∀ a ∈ [p, req, target] ++ results, h'.deletes.count a = 1) ↔
      requestDeletes o = 1 ∧ ∀ a ∈ results, h'.deletes.count a = 1 := by
    rw [List.forall_mem_append]
    refine and_congr_left fun _ => ?_
    have hcp : h'.deletes.count p = 1 := by
      rw [hcounts, hresult₀ p (by simp), hp]
      simp [hpreq.symm, hptarget.symm]
    have hcreq : h'.deletes.count req = requestDeletes o := by
      rw [hcounts, hresult₀ req (by simp), hreq]
      simp [hreqtarget.symm]
    have hctarget : h'.deletes.count target = requestDeletes o := by
      rw [hcounts, hresult₀ target (by simp), htarget]
      simp [hreqtarget]
    simp [hcp, hcreq, hctarget]
  rw [hall]
  cases hresult with
  | void =>
    have hvalue : e.value true = none := by cases e <;> rfl
    rw [hvalue]
    cases o <;> simp [requestDeletes, OverEnd.Balanced]
  | @threw r hr =>
    have hcr : h'.deletes.count r = 1 := by
      rw [hcounts, hrequest₀ r List.mem_cons_self, hr]
      rfl
    cases o <;> simp [requestDeletes, OverEnd.Balanced, WorkEnd.value, hcr]
  | @returned r value hcell hr =>
    have hcr : h'.deletes.count r = resultDeletes o := by
      rw [hcounts, hrequest₀ r List.mem_cons_self, hr]
      simp
    cases o <;> simp [requestDeletes, resultDeletes, OverEnd.Balanced, WorkEnd.value, hcr]

/-! ### The steps -/

/-- No fault, and every task in its stage, apart from the others. -/
structure Sound (s : Pool A K V) : Prop where
  fault : s.fault = none
  separate : Heap.Separate Task.objects Stage s.memory.heap s.tasks

theorem sound_new : Sound (new : Pool A K V) := ⟨rfl, Heap.separate_nil⟩

variable {s : Pool A K V}

theorem submit_accepted {isVoid : Bool} {r : EStateM.Result Fault (PoolMemory A K V) ℕ} {req : ℕ}
    {m : PoolMemory A K V} {n : ℕ} {made : List ℕ} (hr : r = .ok req m)
    (hchange : Heap.Change s.memory.heap m.heap n made [] []) :
    s.submit isVoid r = ⟨m, s.tasks ++ [⟨isVoid, some req, made, none, none, []⟩], none⟩ := by
  have hmade : s.memory.made m = made := hchange.made_eq
  rw [hr, ← hmade]
  rfl

theorem submit_refused {isVoid : Bool} {r : EStateM.Result Fault (PoolMemory A K V) ℕ}
    {e : Exception} {m : PoolMemory A K V} {n : ℕ} {made : List ℕ} (hr : r = .error (.thrown e) m)
    (hchange : Heap.Change s.memory.heap m.heap n made [] []) :
    s.submit isVoid r = ⟨m, s.tasks ++ [⟨isVoid, none, made, none, none, []⟩], none⟩ := by
  have hmade : s.memory.made m = made := hchange.made_eq
  rw [hr, ← hmade]
  rfl

/-- A step of one task that returns. -/
theorem advance_eq {i : ℕ} {task : Task V} {r : EStateM.Result Fault (PoolMemory A K V) Unit}
    {m : PoolMemory A K V} {n : ℕ} {made deleted touched : List ℕ} {cs : List (ℤ × Option V)}
    (hr : r = .ok () m) (hchange : Heap.Change s.memory.heap m.heap n made deleted touched)
    (hcs : m.completions = s.memory.completions ++ cs) :
    s.advance i task r = ⟨m, s.tasks.set i { task with
      objects := task.objects ++ made, completions := task.completions ++ cs }, none⟩ := by
  have hmade : s.memory.made m = made := hchange.made_eq
  have hcompleted : s.memory.completed m = cs := by
    rw [completed, hcs, List.drop_left]
  rw [hr, ← hmade, ← hcompleted]
  rfl

theorem Sound.submit (hs : Sound s) (isVoid : Bool) (workCb overCb : K) (args : A)
    (refusal : Option Exception) :
    Sound (s.submit isVoid (PoolMemory.run workCb overCb args refusal s.memory)) := by
  obtain ⟨h, hrun, hchange, hprepared, hcell⟩ := run_eq s.memory workCb overCb args refusal
  let n := s.memory.heap.next
  have hnew : ∀ a ∈ [n, n + 1, n + 2], n ≤ a ∧ a < n + 5 := by
    intro a ha
    simp at ha
    omega
  have hkept : ∀ a ∈ [n, n + 1, n + 2], h.deletes.count a = 0 := by
    intro a ha
    rw [hchange.count, List.count_nil, Nat.add_zero, List.count_eq_zero]
    intro hmem
    exact absurd (hs.separate.past a hmem) (Nat.not_lt.mpr (hnew a ha).1)
  cases refusal with
  | none =>
    rw [submit_accepted hrun hchange]
    exact ⟨rfl, hs.separate.push local_stage hchange (.queued (by simp) hprepared hcell hkept)
      rfl hnew⟩
  | some e =>
    rw [submit_refused hrun hchange]
    exact ⟨rfl, hs.separate.push local_stage hchange (.refused nofun hkept) rfl hnew⟩

/-- A step of one task, within its own objects and new ones. -/
theorem Sound.advance (hs : Sound s) {i : ℕ} {task task' : Task V}
    {r : EStateM.Result Fault (PoolMemory A K V) Unit} {m : PoolMemory A K V} {n : ℕ}
    {made deleted touched : List ℕ} {cs : List (ℤ × Option V)} (htask : s.tasks[i]? = some task)
    (hobjects : task'.objects = task.objects) (hr : r = .ok () m)
    (hchange : Heap.Change s.memory.heap m.heap n made deleted touched)
    (hcs : m.completions = s.memory.completions ++ cs)
    (hstage : Stage m.heap { task' with
      objects := task'.objects ++ made, completions := task'.completions ++ cs })
    (hmade : ∀ a ∈ made, s.memory.heap.next ≤ a ∧ a < s.memory.heap.next + n)
    (hdeleted : ∀ a ∈ deleted, a ∈ task.objects ++ made)
    (htouched : ∀ a ∈ touched, a ∈ task.objects ++ made) : Sound (s.advance i task' r) := by
  rw [advance_eq hr hchange hcs]
  rw [← hobjects] at hdeleted htouched
  exact ⟨rfl, hs.separate.set local_stage htask hchange hstage
    (congrArg (· ++ made) hobjects) hmade hdeleted htouched⟩

theorem Sound.work (hs : Sound s) {i : ℕ} {task : Task V} {q : ℕ} (e : WorkEnd V)
    (htask : s.tasks[i]? = some task) (hreq : task.req = some q) (hfirst : task.workEnd = none) :
    Sound (s.advance i { task with workEnd := some e }
      (PoolMemory.onWork task.isVoid q e s.memory)) := by
  have hstage := hs.separate.holds htask
  have hbelow := hs.separate.below htask
  cases hstage with
  | refused => cases hreq
  | @queued isVoid p req target args hnodup hprepared hparams hkept =>
    obtain rfl := Option.some.inj hreq
    have hn : s.memory.heap.next ∉ [p, req, target] := fun hmem =>
      Nat.lt_irrefl _ (hbelow _ hmem)
    have hnodup' : ([p, req, target] ++ [s.memory.heap.next]).Nodup :=
      List.nodup_append.mpr ⟨hnodup, List.nodup_singleton _, fun a ha b hb heq =>
        hn (List.mem_singleton.mp hb ▸ heq ▸ ha)⟩
    obtain ⟨hpreq, hptarget, -⟩ : p ≠ req ∧ p ≠ target ∧ req ≠ target := by
      simpa [and_assoc] using hnodup
    obtain ⟨hnp, hnreq, hntarget⟩ : s.memory.heap.next ≠ p ∧ s.memory.heap.next ≠ req ∧
        s.memory.heap.next ≠ target := by simpa using hn
    have hnew : s.memory.heap.deletes.count s.memory.heap.next = 0 :=
      List.count_eq_zero.mpr fun hmem => Nat.lt_irrefl _ (hs.separate.past _ hmem)
    have hp₀ := hkept p (by simp)
    have hreq₀ := hkept req (by simp)
    have htarget₀ := hkept target (by simp)
    cases isVoid with
    | true =>
      have hchange := Heap.change_delete s.memory.heap (some p)
      refine hs.advance htask rfl (onWork_void hprepared hparams e) hchange
        (List.append_nil _).symm ?_ nofun (by simp) (by simp)
      refine .worked (by simpa using hnodup) (hprepared.congr ?_ ?_) ?_ ?_ ?_ (.void e)
      · exact Function.update_of_ne hpreq.symm _ _
      · exact Function.update_of_ne hptarget.symm _ _
      · simp [hchange.count, hp₀]
      · simp [hchange.count, hreq₀, hpreq]
      · simp [hchange.count, htarget₀, hptarget]
    | false =>
      have hmade : ∀ a ∈ [s.memory.heap.next], s.memory.heap.next ≤ a ∧
          a < s.memory.heap.next + 1 := by simp
      cases e with
      | returned v =>
        obtain ⟨h', hrun, hchange, hprepared', hcell⟩ :=
          onWork_returned hprepared hparams hnodup hbelow v
        refine hs.advance htask rfl hrun hchange (List.append_nil _).symm ?_ hmade (by simp)
          (by simp)
        refine .worked hnodup' hprepared' ?_ ?_ ?_ (.returned hcell ?_)
        · simp [hchange.count, hp₀]
        · simp [hchange.count, hreq₀, hpreq]
        · simp [hchange.count, htarget₀, hptarget]
        · simp [hchange.count, hnew, hnp.symm]
      | threw =>
        obtain ⟨h', hrun, hchange, hprepared'⟩ := onWork_threw hprepared hparams hnodup hbelow
        refine hs.advance htask rfl hrun hchange (List.append_nil _).symm ?_ hmade (by simp)
          (by simp)
        refine .worked hnodup' hprepared' ?_ ?_ ?_ (.threw ?_)
        · simp [hchange.count, hp₀, hnp]
        · simp [hchange.count, hreq₀, hpreq, hnreq]
        · simp [hchange.count, htarget₀, hptarget, hntarget]
        · simp [hchange.count, hnew, hnp.symm]
  | worked => cases hfirst
  | finished => cases hfirst

theorem Sound.complete (hs : Sound s) {i : ℕ} {task : Task V} {q : ℕ} (error : ℤ) (e : OverEnd)
    (htask : s.tasks[i]? = some task) (hreq : task.req = some q)
    (hworked : task.workEnd.isSome = true) (hfirst : task.overEnd = none) :
    Sound (s.advance i { task with overEnd := some e }
      (PoolMemory.onOver q error e s.memory)) := by
  have hstage := hs.separate.holds htask
  cases hstage with
  | refused => cases hreq
  | queued => cases hworked
  | @worked isVoid p req target w results result hnodup hprepared hp hreq₀ htarget₀ hresult =>
    obtain rfl := Option.some.inj hreq
    have hsub : ∀ a ∈ result.toList, a ∈ results := by
      cases hresult with
      | void => nofun
      | threw => nofun
      | returned => exact fun a ha => ha
    have hne : result ≠ some req := by
      rintro rfl
      obtain ⟨-, -, hdisjoint⟩ := List.nodup_append.mp hnodup
      exact hdisjoint req (by simp) req (hsub req List.mem_cons_self) rfl
    obtain ⟨h', hrun, hchange⟩ := onOver_eq hprepared hne error e
    rw [hresult.valueAt] at hrun
    have hdeleted : ∀ a ∈ overDeletes req target result e,
        a ∈ ([p, req, target] ++ results) ++ [] := by
      intro a ha
      rw [List.append_nil, List.mem_append]
      have hcases : a ∈ result.toList ∨ a ∈ [target, req] := by
        cases e with
        | returned => exact List.mem_append.mp ha
        | threwException x => simpa [overDeletes] using ha
        | threwOther => cases ha
      obtain hresult' | hrequest := hcases
      · exact .inr (hsub a hresult')
      · exact .inl (by simp at hrequest ⊢; tauto)
    refine hs.advance htask rfl hrun hchange rfl ?_ nofun hdeleted hdeleted
    refine .finished error ?_
    rw [List.append_nil]
    exact balance_over hnodup hp hreq₀ htarget₀ hresult hchange.count
  | finished => cases hfirst

theorem sound_of_reachable (h : (system A K V).Reachable s) : Sound s := by
  refine h.invariant ?_ ?_
  · rintro s rfl
    exact sound_new
  · rintro s event t ⟨-, hstep⟩ hs
    cases hstep with
    | run isVoid workCb overCb args refusal => exact hs.submit isVoid workCb overCb args refusal
    | work e htask hreq hfirst => exact hs.work e htask hreq hfirst
    | complete error e htask hreq hworked hfirst => exact hs.complete error e htask hreq hworked hfirst

/-- Every task is in one of its stages, at every point of a run. -/
theorem stage_of_reachable (h : (system A K V).Reachable s) {task : Task V} (htask : task ∈ s.tasks) :
    Stage s.memory.heap task := by
  obtain ⟨i, hi⟩ := List.mem_iff_getElem?.mp htask
  exact (sound_of_reachable h).separate.holds hi

/-- The balance of a task: nothing it has made is deleted twice; once it is refused or
finished all of it has been deleted; and its completion runs once, with the result of the
work. -/
structure Settled (s : Pool A K V) (task : Task V) : Prop where
  neverTwice : ∀ a ∈ task.objects, s.memory.heap.deletes.count a ≤ 1
  deleted : (task.req = none ∨ task.overEnd.isSome = true) →
    ∀ a ∈ task.objects, s.memory.heap.deletes.count a = 1
  completed : ∀ e, task.workEnd = some e → task.overEnd.isSome = true →
    ∃ error, task.completions = [(error, e.value task.isVoid)]
  uncompleted : task.overEnd = none → task.completions = []

/-- Whatever the other tasks do, a task keeps its balance exactly if it is a clean one. -/
theorem settled_iff (h : (system A K V).Reachable s) {task : Task V} (htask : task ∈ s.tasks) :
    s.Settled task ↔ task.Clean := by
  have hstage := stage_of_reachable h htask
  cases hstage with
  | @refused isVoid objects hne hkept =>
    constructor
    · intro hsettled
      obtain ⟨a, ha⟩ := List.exists_mem_of_ne_nil _ hne
      have hone := hsettled.deleted (.inl rfl) a ha
      rw [hkept a ha] at hone
      cases hone
    · intro hclean
      exact absurd rfl hclean.1
  | @queued _ p req target _ _ _ _ hkept =>
    refine ⟨fun _ => ⟨nofun, nofun⟩, fun _ => ⟨?_, ?_, nofun, fun _ => rfl⟩⟩
    · intro a ha
      rw [hkept a ha]
      exact Nat.zero_le _
    · rintro (hnone | hsome)
      · cases hnone
      · cases hsome
  | @worked _ p req target e results result hnodup _ hp hreq htarget hresult =>
    refine ⟨fun _ => ⟨nofun, nofun⟩, fun _ => ⟨?_, ?_, nofun, fun _ => rfl⟩⟩
    · rw [List.forall_mem_append]
      refine ⟨by simp [hp, hreq, htarget], ?_⟩
      cases hresult with
      | void => nofun
      | threw hcount => simp [hcount]
      | returned _ hcount => simp [hcount]
    · rintro (hnone | hsome)
      · cases hnone
      · cases hsome
  | @finished _ req objects e error o hbalance =>
    constructor
    · intro hsettled
      refine ⟨nofun, ?_⟩
      intro e' o' he ho
      obtain rfl := Option.some.inj he
      obtain rfl := Option.some.inj ho
      exact hbalance.mp (hsettled.deleted (.inr rfl))
    · intro hclean
      have hone := hbalance.mpr (hclean.2 e o rfl rfl)
      refine ⟨fun a ha => (hone a ha).le, fun _ => hone, ?_, nofun⟩
      rintro e' he -
      obtain rfl := Option.some.inj he
      exact ⟨error, rfl⟩

/-- The life of the only task in a pool, whose work returns a value. -/
theorem lone_task (workCb overCb : K) (args : A) (v : V) (error : ℤ) (o : OverEnd) :
    ∃ s : Pool A K V, (system A K V).Reachable s ∧
      s.tasks = [⟨false, some 1, [0, 1, 2, 5], some (.returned v), some o, [(error, some v)]⟩] ∧
      s.memory.heap.deletes = 0 :: overDeletes 1 2 (some 5) o := by
  let t₁ : Task V := ⟨false, some 1, [0, 1, 2], none, none, []⟩
  let t₂ : Task V := ⟨false, some 1, [0, 1, 2, 5], some (.returned v), none, []⟩
  obtain ⟨h₁, hrun, hchange₁, hprepared₁, hparams⟩ : ∃ h₁,
      PoolMemory.run workCb overCb args none (new : Pool A K V).memory = .ok 1 ⟨h₁, []⟩ ∧
        Heap.Change .empty h₁ 5 [0, 1, 2] [] [] ∧ Prepared h₁ 1 2 (some 0) none ∧
        h₁.cells 0 = some (.params args) := run_eq _ workCb overCb args none
  let s₁ : Pool A K V := ⟨⟨h₁, []⟩, [t₁], none⟩
  have hnext : h₁.next = 5 := hchange₁.next
  have hbelow : ∀ a ∈ [0, 1, 2], a < h₁.next := by
    rw [hnext]
    decide
  obtain ⟨h₂, hwork, hchange₂, hprepared₂, hresult⟩ :=
    onWork_returned (m := s₁.memory) hprepared₁ hparams (by decide) hbelow v
  rw [show s₁.memory.heap.next = 5 from hnext] at hchange₂ hprepared₂ hresult
  let s₂ : Pool A K V := ⟨⟨h₂, []⟩, [t₂], none⟩
  obtain ⟨h₃, hover, hchange₃⟩ := onOver_eq (m := s₂.memory) hprepared₂ (by decide) error o
  have hvalue : s₂.memory.valueAt (some 5) = some v := by
    rw [PoolMemory.valueAt, Option.bind_some, show s₂.memory.heap.cells 5 = _ from hresult]
  rw [hvalue] at hover
  have hstep₁ := Step.run (s := (new : Pool A K V)) false workCb overCb args none
  rw [submit_accepted hrun hchange₁] at hstep₁
  have hstep₂ := Step.work (s := s₁) (i := 0) (.returned v) rfl (show t₁.req = some 1 from rfl) rfl
  rw [advance_eq hwork hchange₂ (List.append_nil _).symm] at hstep₂
  have hstep₃ := Step.complete (s := s₂) (i := 0) error o rfl (show t₂.req = some 1 from rfl) rfl rfl
  rw [advance_eq hover hchange₃ rfl] at hstep₃
  let s₃ : Pool A K V := ⟨⟨h₃, [(error, some v)]⟩,
    [{ t₂ with overEnd := some o, completions := [(error, some v)] }], none⟩
  have hrun₁ : (system A K V).Run new [.run false workCb overCb args none] s₁ :=
    Transition.System.Run.single ⟨rfl, hstep₁⟩
  have hrun₂ : (system A K V).Run new [.run false workCb overCb args none, .work 0 (.returned v)] s₂ :=
    hrun₁.snoc ⟨rfl, hstep₂⟩
  refine ⟨s₃, ⟨new, _, rfl, hrun₂.snoc ⟨rfl, hstep₃⟩⟩, rfl, ?_⟩
  show h₃.deletes = _
  rw [hchange₃.deletes]
  show h₂.deletes ++ _ = _
  rw [hchange₂.deletes]
  show (h₁.deletes ++ [0]) ++ _ = _
  rw [hchange₁.deletes]
  rfl

/-- Work that returns 7, with a completion that returns. -/
theorem settled_returned :
    ∃ (s : Pool Unit ℕ ℕ) (task : Task ℕ), task ∈ s.tasks ∧ task.completions = [(0, some 7)] ∧
      s.memory.heap.deletes = [0, 5, 2, 1] ∧ s.Settled task := by
  obtain ⟨s, hreachable, htasks, hdeletes⟩ := lone_task 1 2 () 7 0 .returned
  have htask := List.mem_of_getElem? (congrArg (·[0]?) htasks)
  refine ⟨s, _, htask, rfl, hdeletes, (settled_iff hreachable htask).mpr ⟨nofun, ?_⟩⟩
  intro e o _ ho
  obtain rfl := Option.some.inj ho
  exact trivial

/-- A completion that throws an `Exception` when there is a result: the result, at address
5, is deleted three times. -/
theorem result_deleted_thrice :
    ∃ (s : Pool Unit ℕ ℕ) (task : Task ℕ), (system Unit ℕ ℕ).Reachable s ∧ task ∈ s.tasks ∧
      task.completions = [(0, some 7)] ∧ s.memory.heap.deletes = [0, 5, 5, 5, 2, 1] ∧
      ¬ s.Settled task := by
  obtain ⟨s, hreachable, htasks, hdeletes⟩ := lone_task 1 2 () 7 0
    (.threwException { classId := .exception, method := "", message := "" })
  have htask := List.mem_of_getElem? (congrArg (·[0]?) htasks)
  refine ⟨s, _, hreachable, htask, rfl, hdeletes, ?_⟩
  intro hsettled
  have hcount := hsettled.neverTwice 5 (by simp)
  rw [hdeletes] at hcount
  revert hcount
  decide

end Pool

end LibraCore
