import LibraCore.Http.Callbacks

/-!
# What the read callback feeds the parser

`Stream::read_start` passes on every completed read: the bytes, or nothing when there was
nothing to read, or a null pointer and a negative code. The read callback of a context
takes the length as an `int`, tests it for -1 and hands everything else to
`http_parser_execute` as a `size_t`; it never ends the connection.

## Main results

- `ClientContext.executions_afterReads` — what a sequence of reads is worth
- `ClientContext.fedExactly_iff` — the parser is fed what was received just if every read
  brought bytes
-/

namespace LibraCore

/-- An `ssize_t` comes through `int` and `size_t` unchanged exactly if an `int` holds it. -/
theorem toSize_toInt32_eq_iff {n : ℕ} (h : n < 2 ^ 63) : toSize (toInt32 n) = n ↔ n < 2 ^ 31 := by
  constructor
  · intro heq
    rw [toSize, toInt32, Int.bmod_def] at heq
    split_ifs at heq <;> omega
  · intro hlt
    rw [toInt32_of_lt hlt, toSize_of_lt]
    exact hlt.trans (by decide)

end LibraCore

namespace LibraCore.Http

open Execution (Keeps final bind_ok)

/-- The bytes a read has received, and their number. -/
def received : ReadResult → Option (Option (List UInt8) × ℕ)
  | .data [] => none
  | .data bytes => some (some bytes, bytes.length)
  | .failed _ => none

def Mark.execution : Mark → Option (Option (List UInt8) × ℕ)
  | executed data len => some (data, len)
  | _ => none

/-- The pointers and lengths that `http_parser_execute` was called with. -/
def executions (trace : List Mark) : List (Option (List UInt8) × ℕ) :=
  trace.filterMap Mark.execution

/-- What the read callback makes of a read. -/
def fed (r : ReadResult) : List (Option (List UInt8) × ℕ) :=
  if r.buf = none ∧ toInt32 r.nread = -1 then [] else [(r.buf, toSize (toInt32 r.nread))]

namespace ClientContext

variable {S : Type} (parser : HttpParser S) (handling : Handling)

/-- The context after some reads; whatever a callback raises has left the event loop, and
the loop is entered again. A handler that throws may be called again, and does the same then. -/
def afterReads (c : ClientContext S) (rs : List ReadResult) : ClientContext S :=
  rs.foldl (fun c r => final (onRead parser handling r.buf r.nread c)) c

/-- The parser was fed the bytes received, in order, and a failed read has ended the
connection. -/
structure FedExactly (c : ClientContext S) (rs : List ReadResult) : Prop where
  fed : executions (afterReads parser handling c rs).trace =
    executions c.trace ++ rs.filterMap received
  ended : ∀ r ∈ rs, r.nread < 0 → (afterReads parser handling c rs).alive = false

private theorem executions_append (s t : List Mark) :
    executions (s ++ t) = executions s ++ executions t :=
  List.filterMap_append

/-- The callbacks of the parser do not call it. -/
private theorem keeps_executions (xs : List (Option (List UInt8) × ℕ)) :
    ReadClosed fun c : ClientContext S => c.alive = true ∧ executions c.trace = xs := by
  refine ⟨⟨fun c hc => hc.1, fun c f _ hc => hc, fun c text len hc => ⟨hc.1, ?_⟩,
    fun c accepted hc => hc⟩, fun c request hc => ⟨hc.1, ?_⟩, ?_⟩
  · rw [executions_append, hc.2]
    exact List.append_nil xs
  · rw [executions_append, hc.2]
    exact List.append_nil xs
  · intro c d halive _ _ htrace hc
    rw [halive, htrace]
    exact hc

/-- One read: the parser is called once or not at all, and the context stays. -/
theorem executions_onRead {c : ClientContext S} (halive : c.alive = true)
    (r : ReadResult) :
    (final (onRead parser handling r.buf r.nread c)).alive = true ∧
      executions (final (onRead parser handling r.buf r.nread c)).trace =
        executions c.trace ++ fed r := by
  rw [onRead, bind_ok (touch_alive halive), fed]
  by_cases hsentinel : r.buf = none ∧ toInt32 r.nread = -1
  · rw [if_pos hsentinel, if_pos hsentinel, List.append_nil]
    exact (keeps_call (E := fun _ => True) (keeps_executions _).toUseClosed (fun _ => trivial)
      (.setStatus 500)).final ⟨halive, rfl⟩
  · rw [if_neg hsentinel, if_neg hsentinel]
    refine (keeps_feed (E := fun _ => True) (keeps_executions _) (fun _ => trivial) trivial parser
      handling r.buf (toSize (toInt32 r.nread))).final ?_
    exact ⟨halive, executions_append c.trace [.executed r.buf (toSize (toInt32 r.nread))]⟩

/-- A sequence of reads. -/
theorem executions_afterReads {c : ClientContext S} (halive : c.alive = true)
    (rs : List ReadResult) :
    (afterReads parser handling c rs).alive = true ∧
      executions (afterReads parser handling c rs).trace =
        executions c.trace ++ rs.flatMap fed := by
  induction rs generalizing c with
  | nil => exact ⟨halive, (List.append_nil _).symm⟩
  | cons r rs ih =>
    obtain ⟨halive', hfed⟩ := executions_onRead parser handling halive r
    obtain ⟨halive'', hrest⟩ := ih halive'
    refine ⟨halive'', hrest.trans ?_⟩
    rw [hfed, List.append_assoc, List.flatMap_cons]

end ClientContext

theorem fed_data (bytes : List UInt8) :
    fed (.data bytes) = [(some bytes, toSize (toInt32 bytes.length))] :=
  if_neg fun h => Option.some_ne_none bytes h.1

theorem received_data {bytes : List UInt8} (h : bytes ≠ []) :
    received (.data bytes) = some (some bytes, bytes.length) := by
  cases bytes with
  | nil => exact absurd rfl h
  | cons b bs => rfl

/-- No read receives an empty range. -/
theorem received_ne (r : ReadResult) (len : ℕ) : received r ≠ some (some [], len) := by
  intro h
  obtain bytes | n := r
  · cases bytes with
    | nil => cases h
    | cons b bs => cases h
  · cases h

/-- Reads that bring bytes are fed as they are, and no others. -/
theorem fed_eq_received_iff {rs : List ReadResult}
    (hdata : ∀ r ∈ rs, 0 ≤ r.nread ∧ r.nread < 2 ^ 63) :
    rs.flatMap fed = rs.filterMap received ↔ ∀ r ∈ rs, 0 < r.nread ∧ r.nread < 2 ^ 31 := by
  induction rs with
  | nil => exact iff_of_true rfl (List.forall_mem_nil _)
  | cons r rs ih =>
    obtain ⟨⟨hpos, hsize⟩, hrest⟩ := List.forall_mem_cons.mp hdata
    obtain bytes | n := r
    · rw [List.flatMap_cons, fed_data, List.forall_mem_cons, List.singleton_append]
      by_cases hempty : bytes = []
      · subst hempty
        refine iff_of_false ?_ fun h => absurd h.1.1 (lt_irrefl 0)
        -- the empty range that was fed is not among those received
        intro heq
        have hmem := heq ▸ List.mem_cons_self
        obtain ⟨r, -, hr⟩ := List.mem_filterMap.mp hmem
        exact received_ne r _ hr
      · have hnread : (ReadResult.data bytes).nread = bytes.length := rfl
        have hlen := List.length_pos_iff.mpr hempty
        have hlt : bytes.length < 2 ^ 63 := by
          rw [hnread] at hsize
          exact_mod_cast hsize
        rw [List.filterMap_cons_some (received_data hempty), List.cons.injEq, Prod.mk.injEq,
          and_iff_right rfl, toSize_toInt32_eq_iff hlt, ih hrest, hnread]
        refine and_congr_left fun _ => ?_
        omega
    · have hnread : (ReadResult.failed n).nread = -(n + 1) := rfl
      rw [hnread] at hpos
      omega

namespace ClientContext

variable {S : Type} (parser : HttpParser S) (handling : Handling)

/-- The parser is fed exactly what was received, and failed reads end the connection, just
if there is no failed read and every other read brings bytes that an `int` can count. -/
theorem fedExactly_iff {c : ClientContext S} (halive : c.alive = true)
    {rs : List ReadResult} (hsize : ∀ r ∈ rs, r.nread < 2 ^ 63) :
    FedExactly parser handling c rs ↔ ∀ r ∈ rs, 0 < r.nread ∧ r.nread < 2 ^ 31 := by
  obtain ⟨hstays, hfed⟩ := executions_afterReads parser handling halive rs
  by_cases hfailed : ∃ r ∈ rs, r.nread < 0
  · obtain ⟨r, hr, hneg⟩ := hfailed
    refine iff_of_false ?_ fun h => absurd (h r hr).1 (not_lt.mpr hneg.le)
    -- no read ends the connection
    intro h
    have hended := h.ended r hr hneg
    rw [hstays] at hended
    cases hended
  · simp only [not_exists, not_and, not_lt] at hfailed
    rw [← fed_eq_received_iff fun r hr => ⟨hfailed r hr, hsize r hr⟩]
    constructor
    · intro h
      exact List.append_cancel_left (hfed.symm.trans h.fed)
    · intro heq
      refine ⟨by rw [hfed, heq], ?_⟩
      intro r hr hneg
      exact absurd hneg (not_lt.mpr (hfailed r hr))

/-- The parser while it reads a method: it makes no callbacks, and the end of the stream
puts it in an error state. -/
def inMethod : HttpParser Bool where
  init := false
  errno := id
  feed failed bytes := ([], failed || bytes.isEmpty)

/-- A request whose method arrives in two reads. -/
theorem fedExactly_two_reads :
    FedExactly inMethod ⟨[], none⟩ (opened false) [.data (ascii "GE"), .data (ascii "T")] :=
  (fedExactly_iff inMethod ⟨[], none⟩ rfl (by decide)).mpr (by decide)

/-- A read of nothing is fed as the end of the stream; a failed read is fed as a null
pointer with a huge length; and the code -1 is not fed, but it does not end the
connection either. -/
theorem not_fedExactly :
    (executions (afterReads inMethod ⟨[], none⟩ (opened false)
        [.data (ascii "GE"), .data []]).trace = [(some (ascii "GE"), 2), (some [], 0)] ∧
      ¬ FedExactly inMethod ⟨[], none⟩ (opened false) [.data (ascii "GE"), .data []]) ∧
    (executions (afterReads inMethod ⟨[], none⟩ (opened false)
        [.data (ascii "GE"), .failed 4094]).trace =
        [(some (ascii "GE"), 2), (none, 2 ^ 64 - 4095)] ∧
      ¬ FedExactly inMethod ⟨[], none⟩ (opened false) [.data (ascii "GE"), .failed 4094]) ∧
    ((afterReads inMethod ⟨[], none⟩ (opened false)
        [.data (ascii "GE"), .failed 0]).alive = true ∧
      ¬ FedExactly inMethod ⟨[], none⟩ (opened false) [.data (ascii "GE"), .failed 0]) := by
  refine ⟨⟨by decide, ?_⟩, ⟨by decide, ?_⟩, by decide, ?_⟩
  · intro h
    have hfed := h.fed
    revert hfed
    decide
  · intro h
    have hended := h.ended (.failed 4094) (by decide) (by decide)
    revert hended
    decide
  · intro h
    have hended := h.ended (.failed 0) (by decide) (by decide)
    revert hended
    decide

end ClientContext

end LibraCore.Http
