import Mathlib.Data.List.Lex
import LibraCore.Foundations.SortedMap

/-!
# Header maps

`std::map<std::string, std::string, text::ci_less>`, the type of the headers of requests
and responses. `ci_less` compares the names after mapping `tolower` over their bytes.
-/

namespace LibraCore.Http

/-- The bytes of a string literal. -/
def ascii (s : String) : List UInt8 := s.toList.map Char.toUInt8

/-- `tolower` in the C locale. -/
def tolower (c : UInt8) : UInt8 := if 'A'.toUInt8 ≤ c ∧ c ≤ 'Z'.toUInt8 then c + 32 else c

/-- `text::ci_less`: `std::lexicographical_compare` with `nocase_compare`. -/
def ciLess : List UInt8 → List UInt8 → Bool
  | _, [] => false
  | [], _ :: _ => true
  | a :: as, b :: bs =>
    if tolower a < tolower b then true
    else if tolower b < tolower a then false
    else ciLess as bs

/-- What `ci_less` compares. -/
def folded (s : List UInt8) : List ℕ := s.map fun c => (tolower c).toNat

theorem ciLess_iff (s t : List UInt8) : ciLess s t = true ↔ folded s < folded t := by
  induction s generalizing t with
  | nil =>
    cases t with
    | nil => simp [ciLess, folded]
    | cons b bs => simp [ciLess, folded]
  | cons a as ih =>
    cases t with
    | nil => simp [ciLess, folded]
    | cons b bs =>
      simp only [folded, List.map_cons, List.cons_lt_cons_iff] at ih ⊢
      rw [ciLess]
      by_cases hlt : tolower a < tolower b
      · simp [hlt, UInt8.lt_iff_toNat_lt.mp hlt]
      · have hle := UInt8.lt_iff_toNat_lt.not.mp hlt
        by_cases hgt : tolower b < tolower a
        · have hne := UInt8.lt_iff_toNat_lt.mp hgt
          simp only [if_neg hlt, if_pos hgt]
          apply iff_of_false Bool.false_ne_true
          omega
        · have heq : (tolower a).toNat = (tolower b).toNat := by
            have hge := UInt8.lt_iff_toNat_lt.not.mp hgt
            omega
          simp [if_neg hlt, if_neg hgt, ih, heq]

instance : IsStrictWeakOrder (List UInt8) fun s t => ciLess s t = true := by
  have hpre : (fun s t => ciLess s t = true) = Order.Preimage folded (· < ·) := by
    funext s t
    exact propext (ciLess_iff s t)
  have hlex : IsStrictWeakOrder (List ℕ) (· < ·) := isStrictWeakOrder_of_isOrderConnected
  rw [hpre]
  infer_instance

instance : IsTrans (List UInt8) fun s t => ciLess s t = true :=
  IsStrictOrder.toIsTrans

/-- Two names are the same when they differ in the case of letters at most. -/
theorem same_iff (s t : List UInt8) : SortedMap.Same ciLess s t ↔ folded s = folded t := by
  rw [SortedMap.Same, ← Bool.not_eq_true, ← Bool.not_eq_true, ciLess_iff, ciLess_iff]
  constructor
  · rintro ⟨hst, hts⟩
    obtain hlt | heq | hgt := lt_trichotomy (folded s) (folded t)
    · exact absurd hlt hst
    · exact heq
    · exact absurd hgt hts
  · intro heq
    rw [heq]
    exact ⟨lt_irrefl _, lt_irrefl _⟩

abbrev HeaderMap := SortedMap (List UInt8) (List UInt8) ciLess

theorem HeaderMap.find_set (m : HeaderMap) (name value k : List UInt8) :
    (m.set name value).find k = if folded name = folded k then some value else m.find k := by
  rw [SortedMap.find_set]
  exact if_congr (same_iff name k) rfl rfl

/-! ### Lists of fields -/

/-- The value of the last field named `k`, in any case of its letters. -/
def lastValue (fields : List (List UInt8 × List UInt8)) (k : List UInt8) : Option (List UInt8) :=
  (fields.reverse.find? fun e => folded e.1 = folded k).map Prod.snd

theorem lastValue_append (es fs : List (List UInt8 × List UInt8)) (k : List UInt8) :
    lastValue (es ++ fs) k = (lastValue fs k).or (lastValue es k) := by
  rw [lastValue, List.reverse_append, List.find?_append, Option.map_or]
  rfl

theorem lastValue_singleton (e : List UInt8 × List UInt8) (k : List UInt8) :
    lastValue [e] k = if folded e.1 = folded k then some e.2 else none := by
  simp only [lastValue, List.reverse_singleton, List.find?_singleton, decide_eq_true_eq]
  split_ifs <;> rfl

theorem lastValue_congr (es : List (List UInt8 × List UInt8)) {k k' : List UInt8}
    (h : folded k = folded k') : lastValue es k = lastValue es k' := by
  rw [lastValue, lastValue, h]

theorem lastValue_eq_some {es : List (List UInt8 × List UInt8)} {k v : List UInt8}
    (h : lastValue es k = some v) : ∃ e ∈ es, folded e.1 = folded k ∧ e.2 = v := by
  obtain ⟨e, he, rfl⟩ := Option.map_eq_some_iff.mp h
  have hname := List.find?_some he
  exact ⟨e, List.mem_reverse.mp (List.mem_of_find?_eq_some he), by simpa using hname, rfl⟩

/-- A name that occurs has a value. -/
theorem exists_lastValue {es : List (List UInt8 × List UInt8)} {e : List UInt8 × List UInt8}
    {k : List UInt8} (h : e ∈ es) (hname : folded e.1 = folded k) :
    ∃ v, lastValue es k = some v := by
  cases hlast : lastValue es k with
  | some v => exact ⟨v, rfl⟩
  | none =>
    rw [lastValue, Option.map_eq_none_iff, List.find?_eq_none] at hlast
    have hne := hlast e (List.mem_reverse.mpr h)
    simp [hname] at hne

/-- A field that says again what the fields before it say changes nothing. -/
theorem lastValue_snoc_iff (es : List (List UInt8 × List UInt8)) (e : List UInt8 × List UInt8) :
    (∀ k, lastValue es k = lastValue (es ++ [e]) k) ↔ lastValue es e.1 = some e.2 := by
  simp only [lastValue_append, lastValue_singleton]
  constructor
  · intro h
    rw [h e.1, if_pos rfl]
    rfl
  · intro h k
    split_ifs with hk
    · rw [← lastValue_congr es hk, h]
      rfl
    · rfl

namespace HeaderMap

/-- The map after some fields have been written into it. -/
def setAll (m : HeaderMap) (fields : List (List UInt8 × List UInt8)) : HeaderMap :=
  fields.foldl (fun m e => m.set e.1 e.2) m

theorem setAll_append (m : HeaderMap) (es fs : List (List UInt8 × List UInt8)) :
    m.setAll (es ++ fs) = (m.setAll es).setAll fs :=
  List.foldl_append

theorem find_setAll (m : HeaderMap) (es : List (List UInt8 × List UInt8)) (k : List UInt8) :
    (m.setAll es).find k = (lastValue es k).or (m.find k) := by
  induction es using List.reverseRecOn with
  | nil => rfl
  | append_singleton es e ih =>
    rw [setAll_append, lastValue_append, lastValue_singleton]
    refine (find_set _ _ _ _).trans ?_
    split_ifs with hk
    · rfl
    · exact ih

/-- The entries of a map say what is found in it. -/
theorem lastValue_entries (m : HeaderMap) (k : List UInt8) :
    lastValue m.entries k = m.find k := by
  cases hlast : lastValue m.entries k with
  | some v =>
    obtain ⟨e, he, hname, rfl⟩ := lastValue_eq_some hlast
    exact (SortedMap.find_of_mem he ((same_iff _ _).mpr hname)).symm
  | none =>
    cases hfind : m.find k with
    | none => rfl
    | some v =>
      obtain ⟨e, he, hsame, -⟩ := SortedMap.exists_of_find hfind
      obtain ⟨v', hv'⟩ := exists_lastValue he ((same_iff _ _).mp hsame)
      cases hlast.symm.trans hv'

/-- No two entries have the same name. -/
theorem nodup_names (m : HeaderMap) : (m.entries.map fun e => folded e.1).Nodup := by
  rw [List.Nodup, List.pairwise_map]
  refine m.sorted.imp ?_
  intro e e' hlt
  exact ne_of_lt ((ciLess_iff _ _).mp hlt)

/-- Names and values in the map are names and values of the fields. -/
theorem mem_setAll_empty {es : List (List UInt8 × List UInt8)} {e : List UInt8 × List UInt8}
    (h : e ∈ (setAll .empty es).entries) :
    (∃ e' ∈ es, e'.1 = e.1) ∧ ∃ e' ∈ es, e'.2 = e.2 ∧ folded e'.1 = folded e.1 := by
  induction es using List.reverseRecOn generalizing e with
  | nil => cases h
  | append_singleton es e₀ ih =>
    rw [setAll_append] at h
    obtain hmem | ⟨hvalue, hname⟩ := SortedMap.mem_insertEntry h
    · obtain ⟨⟨e', he', hkey⟩, e'', he'', hrest⟩ := ih hmem
      exact ⟨⟨e', List.mem_append_left _ he', hkey⟩, e'', List.mem_append_left _ he'', hrest⟩
    · have hlast : e₀ ∈ es ++ [e₀] := List.mem_append_right _ List.mem_cons_self
      obtain hname | ⟨hsame, e', he', hkey⟩ := hname
      · exact ⟨⟨e₀, hlast, hname.symm⟩, e₀, hlast, hvalue.symm, by rw [hname]⟩
      · obtain ⟨⟨e'', he'', hkey'⟩, -⟩ := ih he'
        refine ⟨⟨e'', List.mem_append_left _ he'', hkey'.trans hkey⟩, e₀, hlast, hvalue.symm, ?_⟩
        exact ((same_iff _ _).mp hsame).symm

end HeaderMap

end LibraCore.Http
