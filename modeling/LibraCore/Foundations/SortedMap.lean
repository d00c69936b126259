import Mathlib.Order.RelClasses
import Mathlib.Tactic

/-!
# Maps sorted by a comparison

A map with a comparison in place of an equality of keys: two keys are the same when
neither comes before the other. The entries are kept sorted, so that there is at most one
for each class of keys. An entry that is written again keeps the key it was first
written under.
-/

/-- A map from `K` to `V` sorted by `lt`. -/
structure SortedMap (K V : Type) (lt : K → K → Bool) where
  entries : List (K × V)
  sorted : entries.Pairwise fun a b => lt a.1 b.1

namespace SortedMap

variable {K V : Type} {lt : K → K → Bool}

def empty : SortedMap K V lt := ⟨[], List.Pairwise.nil⟩

/-- The value of the entry whose key is the same as `k`. -/
def find (m : SortedMap K V lt) (k : K) : Option V :=
  (m.entries.find? fun e => !lt e.1 k && !lt k e.1).map Prod.snd

variable (lt) in
def insertEntry (k : K) (v : V) : List (K × V) → List (K × V)
  | [] => [(k, v)]
  | (k', v') :: rest =>
    if lt k' k then (k', v') :: insertEntry k v rest
    else if lt k k' then (k, v) :: (k', v') :: rest
    else (k', v) :: rest

private theorem key_of_mem_insertEntry {k : K} {v : V} {es : List (K × V)} {e : K × V}
    (h : e ∈ insertEntry lt k v es) : e.1 = k ∨ ∃ e' ∈ es, e'.1 = e.1 := by
  induction es with
  | nil => exact .inl (by rw [List.mem_singleton.mp h])
  | cons e' rest ih =>
    rw [insertEntry] at h
    split_ifs at h
    · obtain rfl | h := List.mem_cons.mp h
      · exact .inr ⟨_, List.mem_cons_self, rfl⟩
      · obtain hk | ⟨e'', he'', hkey⟩ := ih h
        · exact .inl hk
        · exact .inr ⟨e'', List.mem_cons_of_mem _ he'', hkey⟩
    · obtain rfl | h := List.mem_cons.mp h
      · exact .inl rfl
      · exact .inr ⟨e, h, rfl⟩
    · obtain rfl | h := List.mem_cons.mp h
      · exact .inr ⟨_, List.mem_cons_self, rfl⟩
      · exact .inr ⟨e, List.mem_cons_of_mem _ h, rfl⟩

theorem sorted_insertEntry [IsTrans K fun a b => lt a b = true] {es : List (K × V)}
    (h : es.Pairwise fun a b => lt a.1 b.1) (k : K) (v : V) :
    (insertEntry lt k v es).Pairwise fun a b => lt a.1 b.1 := by
  induction es with
  | nil => exact List.pairwise_singleton _ _
  | cons e rest ih =>
    obtain ⟨hhead, htail⟩ := List.pairwise_cons.mp h
    rw [insertEntry]
    split_ifs with hbefore hafter
    · refine List.pairwise_cons.mpr ⟨?_, ih htail⟩
      intro e' he'
      obtain hk | ⟨e'', he'', hkey⟩ := key_of_mem_insertEntry he'
      · rw [hk]
        exact hbefore
      · rw [← hkey]
        exact hhead e'' he''
    · refine List.pairwise_cons.mpr ⟨?_, h⟩
      intro e' he'
      obtain rfl | he' := List.mem_cons.mp he'
      · exact hafter
      · exact trans_of (fun a b => lt a b = true) hafter (hhead e' he')
    · exact List.pairwise_cons.mpr ⟨hhead, htail⟩

def set [IsTrans K fun a b => lt a b = true] (m : SortedMap K V lt) (k : K) (v : V) :
    SortedMap K V lt :=
  ⟨insertEntry lt k v m.entries, sorted_insertEntry m.sorted k v⟩

/-! ### Looking up -/

variable (lt) in
/-- Neither key comes before the other. -/
def Same (a b : K) : Prop := lt a b = false ∧ lt b a = false

instance (a b : K) : Decidable (Same lt a b) := inferInstanceAs (Decidable (_ ∧ _))

theorem Same.symm {a b : K} (h : Same lt a b) : Same lt b a := ⟨h.2, h.1⟩

theorem Same.trans [IsStrictWeakOrder K fun a b => lt a b = true] {a b c : K}
    (hab : Same lt a b) (hbc : Same lt b c) : Same lt a c := by
  simp only [Same, ← Bool.not_eq_true] at hab hbc ⊢
  exact @IsStrictWeakOrder.incomp_trans K (fun a b => lt a b = true) _ a b c hab hbc

variable (lt) in
/-- The search that `find` makes. -/
def findEntry (es : List (K × V)) (k : K) : Option V :=
  (es.find? fun e => !lt e.1 k && !lt k e.1).map Prod.snd

theorem findEntry_cons (e : K × V) (es : List (K × V)) (k : K) :
    findEntry lt (e :: es) k =
      if Same lt e.1 k then some e.2 else findEntry lt es k := by
  rw [findEntry, List.find?_cons, findEntry]
  by_cases h : Same lt e.1 k
  · rw [if_pos h, h.1, h.2]
    rfl
  · have hne : (!lt e.1 k && !lt k e.1) = false := by
      rw [Same] at h
      cases h₁ : lt e.1 k <;> cases h₂ : lt k e.1 <;> simp_all
    rw [if_neg h, hne]

theorem findEntry_insertEntry [IsStrictWeakOrder K fun a b => lt a b = true]
    (es : List (K × V)) (k : K) (v : V) (k' : K) :
    findEntry lt (insertEntry lt k v es) k' =
      if Same lt k k' then some v else findEntry lt es k' := by
  induction es with
  | nil => rw [insertEntry, findEntry_cons]
  | cons e rest ih =>
    obtain ⟨key, value⟩ := e
    rw [insertEntry]
    by_cases hbefore : lt key k = true
    · rw [if_pos hbefore, findEntry_cons, findEntry_cons, ih]
      by_cases hhead : Same lt key k'
      · -- `key` comes before `k`, so a key that is the same as `key` is not `k`
        have hne : ¬ Same lt k k' := by
          intro hk
          have hek := hhead.trans hk.symm
          rw [hek.1] at hbefore
          cases hbefore
        rw [if_pos hhead, if_neg hne, if_pos hhead]
      · rw [if_neg hhead, if_neg hhead]
    · rw [if_neg hbefore]
      by_cases hafter : lt k key = true
      · rw [if_pos hafter, findEntry_cons]
      · have hsame : Same lt key k := ⟨by simpa using hbefore, by simpa using hafter⟩
        rw [if_neg hafter, findEntry_cons, findEntry_cons]
        by_cases hk : Same lt k k'
        · rw [if_pos (hsame.trans hk), if_pos hk]
        · have hne : ¬ Same lt key k' := fun h => hk (hsame.symm.trans h)
          rw [if_neg hne, if_neg hk, if_neg hne]

/-- Under a key that is not found, an entry is added to those that are there. -/
theorem perm_insertEntry {es : List (K × V)} {k : K} (h : findEntry lt es k = none) (v : V) :
    (insertEntry lt k v es).Perm ((k, v) :: es) := by
  induction es with
  | nil => exact List.Perm.refl _
  | cons e rest ih =>
    obtain ⟨key, value⟩ := e
    rw [findEntry_cons] at h
    by_cases hsame : Same lt key k
    · rw [if_pos hsame] at h
      cases h
    · rw [if_neg hsame] at h
      rw [insertEntry]
      split_ifs with hbefore hafter
      · exact ((ih h).cons _).trans (List.Perm.swap _ _ _)
      · exact List.Perm.refl _
      · exact absurd ⟨by simpa using hbefore, by simpa using hafter⟩ hsame

/-- What was written last under a key is what is found there. -/
theorem find_set [IsStrictWeakOrder K fun a b => lt a b = true] (m : SortedMap K V lt) (k : K)
    (v : V) (k' : K) : (m.set k v).find k' = if Same lt k k' then some v else m.find k' :=
  findEntry_insertEntry m.entries k v k'

/-- What is found is the value of an entry with the key that was looked for. -/
theorem exists_of_find {m : SortedMap K V lt} {k : K} {v : V} (h : m.find k = some v) :
    ∃ e ∈ m.entries, Same lt e.1 k ∧ e.2 = v := by
  obtain ⟨e, he, rfl⟩ := Option.map_eq_some_iff.mp h
  have hkey := List.find?_some he
  simp only [Bool.and_eq_true, Bool.not_eq_true'] at hkey
  exact ⟨e, List.mem_of_find?_eq_some he, hkey, rfl⟩

/-- Every entry is found under its own key. -/
theorem find_of_mem [IsStrictWeakOrder K fun a b => lt a b = true] {m : SortedMap K V lt}
    {e : K × V} {k : K} (h : e ∈ m.entries) (hkey : Same lt e.1 k) : m.find k = some e.2 := by
  obtain ⟨entries, hsorted⟩ := m
  show findEntry lt entries k = some e.2
  induction entries with
  | nil => cases h
  | cons e' rest ih =>
    obtain ⟨hhead, htail⟩ := List.pairwise_cons.mp hsorted
    rw [findEntry_cons]
    obtain rfl | hmem := List.mem_cons.mp h
    · rw [if_pos hkey]
    · have hne : ¬ Same lt e'.1 k := by
        intro hsame
        cases (hsame.trans hkey.symm).1.symm.trans (hhead e hmem)
      rw [if_neg hne]
      exact ih htail hmem

theorem find_empty (k : K) : (empty : SortedMap K V lt).find k = none := rfl

/-- The entries of a map come from what was written into it. -/
theorem mem_insertEntry {k : K} {v : V} {es : List (K × V)} {e : K × V}
    (h : e ∈ insertEntry lt k v es) :
    e ∈ es ∨ e.2 = v ∧ (e.1 = k ∨ Same lt e.1 k ∧ ∃ e' ∈ es, e'.1 = e.1) := by
  induction es with
  | nil =>
    obtain rfl := List.mem_singleton.mp h
    exact .inr ⟨rfl, .inl rfl⟩
  | cons e' rest ih =>
    rw [insertEntry] at h
    split_ifs at h with hbefore hafter
    · obtain rfl | h := List.mem_cons.mp h
      · exact .inl List.mem_cons_self
      · obtain hmem | ⟨hv, hk⟩ := ih h
        · exact .inl (List.mem_cons_of_mem _ hmem)
        · refine .inr ⟨hv, hk.imp_right ?_⟩
          rintro ⟨hsame, e'', hmem, hkey⟩
          exact ⟨hsame, e'', List.mem_cons_of_mem _ hmem, hkey⟩
    · obtain rfl | h := List.mem_cons.mp h
      · exact .inr ⟨rfl, .inl rfl⟩
      · exact .inl h
    · obtain rfl | h := List.mem_cons.mp h
      · have hsame : Same lt e'.1 k := ⟨by simpa using hbefore, by simpa using hafter⟩
        exact .inr ⟨rfl, .inr ⟨hsame, e', List.mem_cons_self, rfl⟩⟩
      · exact .inl (List.mem_cons_of_mem _ h)

end SortedMap
