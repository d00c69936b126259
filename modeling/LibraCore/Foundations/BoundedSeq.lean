import LibraCore.Foundations.Transition

/-!
# Bounded sequences

A list of at most `cap` cells and the operations on it, each with the reply its caller gets.
An operation that would exceed the bound, or that names cells the list does not have, is
refused and leaves the list as it is. Cells that a `resize` adds may hold anything.

## Main results

- `BoundedSeq.Step.length_le` — no operation exceeds the bound
- `BoundedSeq.Step.refused` — a refused operation changes nothing
- `BoundedSeq.Step.count` — a count is the number of cells that were dropped
-/

namespace BoundedSeq

variable {α : Type*}

inductive Op (α : Type*)
  | append (xs : List α)
  | copy (xs : List α)
  | resize (n : ℕ)
  | get (len index : ℕ)
  | set (xs : List α) (index : ℕ)
  | dropFront (n : ℕ)
  | dropBack (n : ℕ)
  deriving DecidableEq, Repr

inductive Reply (α : Type*)
  | unit
  | flag (done : Bool)
  | cells (xs : Option (List α))
  | count (n : ℕ)
  deriving DecidableEq, Repr

/-- How a call ends: it returns, it throws, or it has done something that no call may do. -/
inductive Outcome (α : Type*)
  | returned (r : Reply α)
  | thrown
  | crashed
  deriving DecidableEq, Repr

/-- The caller is told that the operation was not done. -/
def Outcome.Refused (o : Outcome α) : Prop :=
  o = .thrown ∨ o = .returned (.flag false) ∨ o = .returned (.cells none)

/-- One operation on the list `c`, and its outcome. -/
inductive Step (cap : ℕ) (c : List α) : Op α × Outcome α → List α → Prop
  | append {xs} : c.length + xs.length ≤ cap →
      Step cap c (.append xs, .returned (.flag true)) (c ++ xs)
  | appendFull {xs} : cap < c.length + xs.length → Step cap c (.append xs, .thrown) c
  | copy {xs} : xs.length ≤ cap → Step cap c (.copy xs, .returned (.flag true)) xs
  | copyFull {xs} : cap < xs.length → Step cap c (.copy xs, .thrown) c
  | resize {n c'} : n ≤ cap → c'.length = n → c'.take c.length = c.take n →
      Step cap c (.resize n, .returned .unit) c'
  | resizeFull {n} : cap < n → Step cap c (.resize n, .thrown) c
  | get {len index} : index + len ≤ c.length →
      Step cap c (.get len index, .returned (.cells (some ((c.drop index).take len)))) c
  | getOut {len index} : c.length < index + len →
      Step cap c (.get len index, .returned (.cells none)) c
  | set {xs index} : index + xs.length ≤ c.length →
      Step cap c (.set xs index, .returned (.flag true))
        (c.take index ++ xs ++ c.drop (index + xs.length))
  | setOut {xs index} : c.length < index + xs.length →
      Step cap c (.set xs index, .returned (.flag false)) c
  | dropFront {n} :
      Step cap c (.dropFront n, .returned (.count (min n c.length))) (c.drop n)
  | dropBack {n} : n ≤ c.length →
      Step cap c (.dropBack n, .returned (.count n)) (c.take (c.length - n))

open Transition in
/-- All sequences of operations, on lists within the bound. -/
def system (α : Type*) (cap : ℕ) : System (List α) (Op α × Outcome α) where
  initial c := c.length ≤ cap
  step c e c' := Step cap c e c'

variable {cap : ℕ} {c c' : List α} {e : Op α × Outcome α}

theorem Step.length_le (h : Step cap c e c') (hle : c.length ≤ cap) : c'.length ≤ cap := by
  cases h with
  | append hfit => simpa using hfit
  | copy hfit => exact hfit
  | resize hfit hlen _ => exact hlen ▸ hfit
  | set hin =>
    simp only [List.length_append, List.length_take, List.length_drop]
    omega
  | dropFront =>
    rw [List.length_drop]
    omega
  | dropBack =>
    rw [List.length_take]
    omega
  | appendFull _ => exact hle
  | copyFull _ => exact hle
  | resizeFull _ => exact hle
  | get _ => exact hle
  | getOut _ => exact hle
  | setOut _ => exact hle

theorem Step.not_crashed (h : Step cap c e c') : e.2 ≠ .crashed := by
  cases h <;> simp

theorem Step.refused (h : Step cap c e c') (hrefused : e.2.Refused) : c' = c := by
  cases h <;> simp_all [Outcome.Refused]

theorem Step.count {n : ℕ} (h : Step cap c e c') (hcount : e.2 = .returned (.count n)) :
    c'.length + n = c.length := by
  cases h <;> simp at hcount
  case dropFront k =>
    rw [List.length_drop]
    omega
  case dropBack k hle =>
    rw [List.length_take]
    omega

end BoundedSeq
