import Mathlib.Tactic

/-!
# Reading a stream in pieces

A reader takes the symbols of a stream one at a time and may stop, with a result, at some
symbol. `read` lets it read a word; a reader of whole chunks is compared with it: when the
two agree on every chunk, they agree on every stream, whatever the chunks it comes in.

## Main results

- `Incremental.read_append` — reading a word in two parts
- `Incremental.agree_feed` — a reader of chunks that agrees with a reader of symbols reads
  the stream, and not the chunks
-/

namespace Incremental

variable {α σ τ κ ρ : Type*}

/-- How a reader stands: it goes on in a state, or it has stopped after `n` symbols. -/
inductive Verdict (σ τ : Type*)
  | running (s : σ)
  | stopped (n : ℕ) (t : τ)

namespace Verdict

def goesOn {σ τ : Type*} : Verdict σ τ → Bool
  | running _ => true
  | stopped _ _ => false

/-- What comes after `i` symbols. -/
def after (i : ℕ) : Verdict σ τ → Verdict σ τ
  | running s => running s
  | stopped n t => stopped (i + n) t

/-- Go on with `f` after `i` symbols, unless the reader has stopped. -/
def bind (v : Verdict σ τ) (i : ℕ) (f : σ → Verdict σ τ) : Verdict σ τ :=
  match v with
  | running s => (f s).after i
  | stopped n t => stopped n t

@[simp] theorem after_zero (v : Verdict σ τ) : v.after 0 = v := by
  cases v <;> simp [after]

@[simp] theorem after_after (v : Verdict σ τ) (i j : ℕ) :
    (v.after j).after i = v.after (i + j) := by
  cases v <;> simp [after, Nat.add_assoc]

@[simp] theorem bind_running (s : σ) (i : ℕ) (f : σ → Verdict σ τ) :
    (running s).bind i f = (f s).after i := rfl

@[simp] theorem bind_stopped (n : ℕ) (t : τ) (i : ℕ) (f : σ → Verdict σ τ) :
    (stopped n t).bind i f = stopped n t := rfl

theorem after_bind (v : Verdict σ τ) (i j : ℕ) (f : σ → Verdict σ τ) :
    (v.bind j f).after i = (v.after i).bind (i + j) f := by
  cases v with
  | running s => exact after_after (f s) i j
  | stopped n t => rfl

theorem bind_bind (v : Verdict σ τ) (i j : ℕ) (f g : σ → Verdict σ τ) :
    (v.bind i f).bind (i + j) g = v.bind i fun s => (f s).bind j g := by
  cases v with
  | running s => simp [after_bind]
  | stopped n t => rfl

end Verdict

open Verdict

/-- The reader reads a word. -/
def read (step : σ → α → Verdict σ τ) : List α → σ → Verdict σ τ
  | [], s => running s
  | a :: word, s => (step s a).bind 1 (read step word)

variable (step : σ → α → Verdict σ τ)

@[simp] theorem read_nil (s : σ) : read step [] s = running s := rfl

theorem read_cons (a : α) (word : List α) (s : σ) :
    read step (a :: word) s = (step s a).bind 1 (read step word) := rfl

theorem read_append (x y : List α) (s : σ) :
    read step (x ++ y) s = (read step x s).bind x.length (read step y) := by
  induction x generalizing s with
  | nil => simp
  | cons a x ih =>
    rw [List.cons_append, read_cons, read_cons, List.length_cons, Nat.add_comm, bind_bind]
    congr 1
    funext t
    exact ih t

/-- A reader of chunks reads some of them. -/
def feed (chunk : κ → List α → Verdict κ ρ) : List (List α) → κ → Verdict κ ρ
  | [], k => running k
  | c :: cs, k => (chunk k c).bind c.length (feed chunk cs)

/-- Two readers stand alike: they go on in states that `R` relates, or they have stopped at
the same symbol with results that `T` relates. -/
def Agree (R : κ → σ → Prop) (T : ρ → τ → Prop) : Verdict κ ρ → Verdict σ τ → Prop
  | running k, running s => R k s
  | stopped m r, stopped n t => m = n ∧ T r t
  | _, _ => False

/-- The reader has stopped with a result in `E`. -/
def StoppedIn (E : ρ → Prop) : Verdict κ ρ → Prop
  | running _ => False
  | stopped _ r => E r

variable {step} {R : κ → σ → Prop} {T : ρ → τ → Prop} {E : ρ → Prop}

theorem not_stoppedIn {v : Verdict κ ρ} (h : v.goesOn = true) : ¬ StoppedIn E v := by
  cases v with
  | running k => exact not_false
  | stopped n r => cases h

theorem Agree.after {v : Verdict κ ρ} {w : Verdict σ τ} (h : Agree R T v w) (i : ℕ) :
    Agree R T (v.after i) (w.after i) := by
  cases v <;> cases w
  · exact h
  · exact h
  · exact h
  · exact ⟨congrArg (i + ·) h.1, h.2⟩

/-- Two readers that stand as a third does. -/
theorem Agree.join {κ' ρ' : Type*} {R' : κ' → σ → Prop} {T' : ρ' → τ → Prop}
    {P : κ → κ' → Prop} {Q : ρ → ρ' → Prop} (hP : ∀ k k' s, R k s → R' k' s → P k k')
    (hQ : ∀ r r' t, T r t → T' r' t → Q r r') {v : Verdict κ ρ} {v' : Verdict κ' ρ'}
    {w : Verdict σ τ} (h : Agree R T v w) (h' : Agree R' T' v' w) : Agree P Q v v' := by
  cases w with
  | running s =>
    cases v <;> cases v'
    · exact hP _ _ s h h'
    · cases h'
    · cases h
    · cases h
  | stopped n t =>
    cases v <;> cases v'
    · cases h
    · cases h
    · cases h'
    · exact ⟨h.1.trans h'.1.symm, hQ _ _ t h.2 h'.2⟩

theorem StoppedIn.after {v : Verdict κ ρ} (h : StoppedIn E v) (i : ℕ) :
    StoppedIn E (v.after i) := by
  cases v <;> exact h

theorem StoppedIn.bind {v : Verdict κ ρ} (h : StoppedIn E v) (i : ℕ) (f : κ → Verdict κ ρ) :
    StoppedIn E (v.bind i f) := by
  cases v with
  | running k => cases h
  | stopped n r => exact h

/-- Where the chunks are read as their symbols are, a stream is; a result in `E` is not
compared. -/
theorem agree_feed {chunk : κ → List α → Verdict κ ρ} {P : List α → Prop}
    (hchunk : ∀ k s c, R k s → P c →
      StoppedIn E (chunk k c) ∨ Agree R T (chunk k c) (read step c s))
    {chunks : List (List α)} (hall : ∀ c ∈ chunks, P c) {k : κ} {s : σ} (h : R k s) :
    StoppedIn E (feed chunk chunks k) ∨
      Agree R T (feed chunk chunks k) (read step chunks.flatten s) := by
  induction chunks generalizing k s with
  | nil => exact .inr h
  | cons c cs ih =>
    rw [List.flatten_cons, read_append, feed]
    obtain hsoft | hagree := hchunk k s c h (hall c List.mem_cons_self)
    · exact .inl (hsoft.bind _ _)
    · cases hv : chunk k c with
      | running k' =>
        cases hw : read step c s with
        | running s' =>
          rw [hv, hw] at hagree
          have hnext : R k' s' := hagree
          obtain hsoft | hrest := ih (fun c hc => hall c (List.mem_cons_of_mem _ hc)) hnext
          · exact .inl (hsoft.after _)
          · exact .inr (hrest.after _)
        | stopped n t =>
          rw [hv, hw] at hagree
          cases hagree
      | stopped m r =>
        cases hw : read step c s with
        | running s' =>
          rw [hv, hw] at hagree
          cases hagree
        | stopped n t =>
          rw [hv, hw] at hagree
          exact .inr hagree

end Incremental
