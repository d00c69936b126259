import Mathlib.Tactic

/-!
# Prefix-free codes

A set of words is prefix-free when no word of it is a proper prefix of another:
a word read from the front of a stream is then determined by the stream. Two
sequences of such words read from one stream are prefixes of one another, and a
sequence that is read from a concatenation of words begins with those words.
-/

namespace PrefixCode

variable {α : Type*}

/-- No word of `P` is a proper prefix of another word of `P`. -/
def PrefixFree (P : List α → Prop) : Prop :=
  ∀ ⦃f g x y : List α⦄, P f → P g → f ++ x = g ++ y → f = g

/-- Two sequences of words of a prefix-free code read from one stream are
prefixes of one another. -/
theorem PrefixFree.prefix_or_prefix {P : List α → Prop} (hP : PrefixFree P)
    {fs gs : List (List α)} {u v : List α}
    (hfs : ∀ f ∈ fs, P f) (hgs : ∀ g ∈ gs, P g)
    (h : fs.flatten ++ u = gs.flatten ++ v) : fs <+: gs ∨ gs <+: fs := by
  induction fs generalizing gs with
  | nil => exact Or.inl List.nil_prefix
  | cons f fs ih =>
    cases gs with
    | nil => exact Or.inr List.nil_prefix
    | cons g gs =>
      rw [List.flatten_cons, List.flatten_cons, List.append_assoc, List.append_assoc] at h
      obtain rfl : f = g := hP (hfs f List.mem_cons_self) (hgs g List.mem_cons_self) h
      have hrest := ih (fun f' hf' => hfs f' (List.mem_cons_of_mem _ hf'))
        (fun g' hg' => hgs g' (List.mem_cons_of_mem _ hg')) (List.append_cancel_left h)
      exact hrest.imp (List.prefix_cons_inj f).mpr (List.prefix_cons_inj f).mpr

/-- A nonempty word read from the front of a concatenation of words is the first
of them. -/
theorem PrefixFree.head_of_flatten {P : List α → Prop} (hP : PrefixFree P)
    {f x : List α} {gs : List (List α)} (hf : P f) (hne : f ≠ []) (hgs : ∀ g ∈ gs, P g)
    (h : f ++ x = gs.flatten) : ∃ gs', gs = f :: gs' ∧ x = gs'.flatten := by
  cases gs with
  | nil => exact absurd (List.append_eq_nil_iff.mp h).1 hne
  | cons g gs' =>
    rw [List.flatten_cons] at h
    obtain rfl : f = g := hP hf (hgs g List.mem_cons_self) h
    exact ⟨gs', rfl, List.append_cancel_left h⟩

/-- Nonempty words read from the front of a concatenation of words are the first
of them. -/
theorem PrefixFree.split_of_flatten {P : List α → Prop} (hP : PrefixFree P)
    {fs gs : List (List α)} {x : List α} (hfs : ∀ f ∈ fs, P f ∧ f ≠ []) (hgs : ∀ g ∈ gs, P g)
    (h : fs.flatten ++ x = gs.flatten) : ∃ ts, gs = fs ++ ts ∧ x = ts.flatten := by
  induction fs generalizing gs with
  | nil => exact ⟨gs, rfl, h⟩
  | cons f fs ih =>
    rw [List.flatten_cons, List.append_assoc] at h
    obtain ⟨hf, hne⟩ := hfs f List.mem_cons_self
    obtain ⟨gs', rfl, hrest⟩ := hP.head_of_flatten hf hne hgs h
    obtain ⟨ts, rfl, hx⟩ := ih (fun f' hf' => hfs f' (List.mem_cons_of_mem f hf'))
      (fun g hg => hgs g (List.mem_cons_of_mem f hg)) hrest
    exact ⟨ts, rfl, hx⟩

end PrefixCode
