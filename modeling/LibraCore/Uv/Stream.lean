import LibraCore.Foundations.Transition
import LibraCore.Uv.Handle

/-!
# Streams and their pending writes

`Stream<T>` of `uv/stream.h`, as far as its callbacks go. A write stores its
callback in the one place the table has for writes, before libuv is asked to
accept the write; a completion runs whatever is stored there. libuv completes
the writes it has accepted one by one, in the order of their submission.

`Traffic` is a stream with the history of its writes, for callbacks of any type.

## Main results

- `Traffic.eachReports_of_reachable` — the writes report their own results as long as
  no write with another callback is made while one is pending
- `Traffic.not_eachReports_of_overlap` — a second write takes the place of the first
-/

namespace LibraCore

/-- A stream: its table, the accepted writes that libuv has not completed, and
`uv_is_closing`. -/
structure Stream (K : Type) where
  callbacks : Callbacks K
  inFlight : ℕ
  closing : Bool

namespace Stream

variable {K : Type}

def new : Stream K := { callbacks := .empty, inFlight := 0, closing := false }

def readStart (k : K) (s : Stream K) : Stream K :=
  { s with callbacks := s.callbacks.store .readStart k }

/-- `write`: `accepted` is whether `uv_write` returns 0. -/
def write (k : K) (accepted : Bool) (s : Stream K) : Bool × Stream K :=
  let s := { s with callbacks := s.callbacks.store .write k }
  (accepted, if accepted then { s with inFlight := s.inFlight + 1 } else s)

/-- The callback of `uv_write`: what it invokes. -/
def writeDone (s : Stream K) : Option K × Stream K :=
  (s.callbacks.invoke .write, { s with inFlight := s.inFlight - 1 })

/-- `Handle::close`. -/
def close (k : K) (s : Stream K) : Stream K :=
  if s.closing then s
  else { s with callbacks := s.callbacks.store .close k, closing := true }

theorem inFlight_close (s : Stream K) (k : K) : (s.close k).inFlight = s.inFlight := by
  rw [close]
  split_ifs <;> rfl

@[simp]
theorem closing_close (s : Stream K) (k : K) : (s.close k).closing = true := by
  rw [close]
  split_ifs with hclosing
  · exact hclosing
  · rfl

/-- Closing leaves the callback of the writes. -/
theorem invoke_write_close (s : Stream K) (k : K) :
    (s.close k).callbacks.invoke .write = s.callbacks.invoke .write := by
  rw [close]
  split_ifs
  · rfl
  · exact Callbacks.invoke_store_of_ne _ (by decide) k

end Stream

/-- A completed read: the bytes at `buf->base`, possibly none of them, or a negative
libuv code, here `-(n + 1)`. -/
inductive ReadResult
  | data (bytes : List UInt8)
  | failed (n : ℕ)
  deriving DecidableEq, Repr

namespace ReadResult

def nread : ReadResult → ℤ
  | data bytes => bytes.length
  | failed n => -(n + 1)

/-- The pointer that `read_start` passes on, with the bytes at it; `none` is `nullptr`. -/
def buf : ReadResult → Option (List UInt8)
  | data bytes => some bytes
  | failed _ => none

end ReadResult

/-- A stream and the history of its writes. -/
structure Traffic (K : Type) where
  stream : Stream K
  /-- the callbacks passed to the writes that were accepted -/
  accepted : List K
  /-- the statuses libuv has reported -/
  completed : List ℤ
  /-- what ran at each completion, and the status it was given -/
  invoked : List (Option K × ℤ)

namespace Traffic

variable {K : Type}

inductive Event (K : Type)
  | write (callback : K) (accepted : Bool)
  | complete (status : ℤ)

def new : Traffic K := { stream := .new, accepted := [], completed := [], invoked := [] }

def write (k : K) (accepted : Bool) (s : Traffic K) : Traffic K :=
  let (stored, stream) := s.stream.write k accepted
  { s with stream := stream, accepted := if stored then s.accepted ++ [k] else s.accepted }

def complete (status : ℤ) (s : Traffic K) : Traffic K :=
  let (callback, stream) := s.stream.writeDone
  { s with
    stream := stream
    completed := s.completed ++ [status]
    invoked := s.invoked ++ [(callback, status)] }

inductive Step : Traffic K → Event K → Traffic K → Prop
  | write (s : Traffic K) (k : K) (accepted : Bool) :
      Step s (.write k accepted) (s.write k accepted)
  | complete (s : Traffic K) (status : ℤ) (h : 0 < s.stream.inFlight) :
      Step s (.complete status) (s.complete status)

def system (K : Type) : Transition.System (Traffic K) (Event K) where
  initial s := s = new
  step := Step

/-- The callbacks of the writes in flight, oldest first. -/
def pending (s : Traffic K) : List K := s.accepted.drop s.completed.length

/-- The `k`-th completion ran the callback of the `k`-th accepted write with its own
status, and the callback kept for every write in flight is its own. -/
structure EachReports (s : Traffic K) : Prop where
  reported : s.invoked = ((s.accepted.take s.completed.length).map some).zip s.completed
  kept : ∀ k ∈ s.pending, s.stream.callbacks.invoke .write = some k

/-- A write made while others are in flight passes the callback stored for them. -/
def SameCallback (s : Traffic K) : Event K → Prop
  | .write k _ => 0 < s.stream.inFlight → s.stream.callbacks.invoke .write = some k
  | .complete _ => True

/-- Accepted writes are completed or in flight. -/
def Accounted (s : Traffic K) : Prop :=
  s.accepted.length = s.completed.length + s.stream.inFlight

theorem accounted_step {s t : Traffic K} {e : Event K} (hstep : Step s e t)
    (h : Accounted s) : Accounted t := by
  cases hstep with
  | write k accepted =>
    cases accepted with
    | true =>
      show (s.accepted ++ [k]).length = s.completed.length + (s.stream.inFlight + 1)
      rw [List.length_append, h, List.length_singleton]
      omega
    | false => exact h
  | complete status hpos =>
    show s.accepted.length = (s.completed ++ [status]).length + (s.stream.inFlight - 1)
    rw [List.length_append, h, List.length_singleton]
    omega

theorem pending_ne_nil {s : Traffic K} (h : Accounted s) :
    s.pending ≠ [] ↔ 0 < s.stream.inFlight := by
  rw [pending, ← List.length_pos_iff, List.length_drop, h]
  omega

/-- A write keeps the reports, whatever its callback. -/
private theorem reported_write {s : Traffic K} (hacc : Accounted s) (h : EachReports s)
    (k : K) (accepted : Bool) :
    (s.write k accepted).invoked =
      (((s.write k accepted).accepted.take (s.write k accepted).completed.length).map some).zip
        (s.write k accepted).completed := by
  cases accepted with
  | false => exact h.reported
  | true =>
    show s.invoked = (((s.accepted ++ [k]).take s.completed.length).map some).zip s.completed
    rw [List.take_append_of_le_length (hacc ▸ Nat.le_add_right _ _)]
    exact h.reported

/-- The callbacks stay those of the pending writes exactly if the callback passed to
a write is the one stored for the writes in flight. -/
theorem eachReports_write_iff {s : Traffic K} (hacc : Accounted s) (h : EachReports s)
    (k : K) (accepted : Bool) :
    EachReports (s.write k accepted) ↔ SameCallback s (.write k accepted) := by
  have hlen : s.completed.length ≤ s.accepted.length := hacc ▸ Nat.le_add_right _ _
  have hkept : (s.write k accepted).stream.callbacks.invoke .write = some k := by
    cases accepted <;> exact Callbacks.invoke_store_self _ _ _
  have hpending : (s.write k accepted).pending = s.pending ++ if accepted then [k] else [] := by
    cases accepted with
    | true => exact List.drop_append_of_le_length hlen
    | false => exact (List.append_nil _).symm
  constructor
  · intro hafter hpos
    -- the new callback has taken the place of those in flight
    obtain ⟨k', hk'⟩ := List.exists_mem_of_ne_nil _ ((pending_ne_nil hacc).mpr hpos)
    have hnew := hafter.kept k' (by rw [hpending]; exact List.mem_append_left _ hk')
    rw [h.kept k' hk', ← hnew, hkept]
  · intro hsame
    refine ⟨reported_write hacc h k accepted, ?_⟩
    intro k' hk'
    rw [hpending, List.mem_append] at hk'
    rw [hkept]
    obtain hk' | hk' := hk'
    · have hpos := (pending_ne_nil hacc).mp (List.ne_nil_of_mem hk')
      rw [← hsame hpos, h.kept k' hk']
    · cases accepted with
      | true => rw [List.mem_singleton.mp hk']
      | false => cases hk'

theorem eachReports_complete {s : Traffic K} (hacc : Accounted s) (h : EachReports s)
    (hpos : 0 < s.stream.inFlight) (status : ℤ) : EachReports (s.complete status) := by
  have hlt : s.completed.length < s.accepted.length := by
    rw [hacc]
    omega
  have hcons : s.pending = s.accepted[s.completed.length] :: s.accepted.drop (s.completed.length + 1) :=
    List.drop_eq_getElem_cons hlt
  have holdest := h.kept s.accepted[s.completed.length] (hcons ▸ List.mem_cons_self)
  constructor
  · show s.invoked ++ [(s.stream.callbacks.invoke .write, status)] =
      ((s.accepted.take (s.completed ++ [status]).length).map some).zip (s.completed ++ [status])
    have hzip : (s.accepted.take s.completed.length).length = s.completed.length := by
      rw [List.length_take]
      omega
    rw [List.length_append, List.length_singleton, List.take_succ_eq_append_getElem hlt,
      List.map_append, List.zip_append (by rw [List.length_map, hzip]), ← h.reported, holdest]
    rfl
  · intro k hk
    have hk' : k ∈ s.accepted.drop (s.completed ++ [status]).length := hk
    rw [List.length_append, List.length_singleton] at hk'
    exact h.kept k (hcons ▸ List.mem_cons_of_mem _ hk')

/-- In every run whose writes pass the callback of the writes in flight, if there are
any, every write reports its own result. -/
theorem eachReports_of_reachable {s : Traffic K}
    (h : ((system K).guard SameCallback).Reachable s) : EachReports s := by
  have hboth : Accounted s ∧ EachReports s := by
    refine h.invariant (P := fun s => Accounted s ∧ EachReports s) ?_ ?_
    · rintro s rfl
      exact ⟨rfl, rfl, fun k hk => by cases hk⟩
    · rintro s e t ⟨hguard, hstep⟩ ⟨hacc, hs⟩
      refine ⟨accounted_step hstep hacc, ?_⟩
      cases hstep with
      | write k accepted => exact (eachReports_write_iff hacc hs k accepted).mpr hguard
      | complete status hpos => exact eachReports_complete hacc hs hpos status
  exact hboth.2

/-- Two writes with one callback in flight together, the second of which fails, and then a
write with another callback, first refused and then accepted. -/
theorem eachReports_same_callback :
    ∃ s : Traffic ℕ, (system ℕ).Run new
        [.write 1 true, .write 1 true, .complete 0, .complete (-32), .write 2 false,
          .write 3 true] s ∧
      s.invoked = [(some 1, 0), (some 1, -32)] ∧ s.pending = [3] ∧ EachReports s := by
  have h₁ := Step.write (new : Traffic ℕ) 1 true
  have h₂ := Step.write (new.write 1 true) 1 true
  have h₃ := Step.complete ((new.write 1 true).write 1 true) 0 (by decide)
  have h₄ := Step.complete (((new.write 1 true).write 1 true).complete 0) (-32) (by decide)
  have h₅ := Step.write ((((new.write 1 true).write 1 true).complete 0).complete (-32)) 2 false
  have h₆ := Step.write
    (((((new.write 1 true).write 1 true).complete 0).complete (-32)).write 2 false) 3 true
  -- of the writes only the second finds another one pending, which has its callback
  have hrun : ((system ℕ).guard SameCallback).Run new
      [.write 1 true, .write 1 true, .complete 0, .complete (-32), .write 2 false,
        .write 3 true] _ :=
    (((((Transition.System.Run.guard_single (fun h => absurd h (by decide)) h₁).guard_snoc
      (fun _ => by decide) h₂).guard_snoc trivial h₃).guard_snoc trivial h₄).guard_snoc
      (fun h => absurd h (by decide)) h₅).guard_snoc (fun h => absurd h (by decide)) h₆
  exact ⟨_, hrun.of_guard, rfl, rfl, eachReports_of_reachable ⟨new, _, rfl, hrun⟩⟩

/-- Two writes that are in flight together: the first completion runs the callback of
the second write. -/
theorem not_eachReports_of_overlap :
    ∃ s : Traffic ℕ, (system ℕ).Reachable s ∧ s.accepted = [1, 2] ∧ s.completed = [0] ∧
      s.invoked = [(some 2, 0)] ∧ ¬ EachReports s := by
  have h₁ : (system ℕ).step new (.write 1 true) (new.write 1 true) := Step.write _ _ _
  have h₂ := Step.write (new.write 1 true) 2 true
  have h₃ := Step.complete ((new.write 1 true).write 2 true) 0 (by decide)
  refine ⟨_, ⟨new, _, rfl, ((Transition.System.Run.single h₁).snoc h₂).snoc h₃⟩, rfl, rfl, rfl, ?_⟩
  intro h
  have hreported := h.reported
  revert hreported
  decide

end Traffic

end LibraCore
