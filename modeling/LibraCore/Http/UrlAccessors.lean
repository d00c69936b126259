import LibraCore.Http.HeaderMap
import LibraCore.Http.Url

/-!
# The accessors of `url_obj`

After a successful parse the handle says which components the URL has and where each of them
lies. The accessors return a component, or a default where it is missing; some of them test
for a component that is not their own.

## Main results

- `UrlObj.fromBuf_located` — where a successful parse finds the fields
- `UrlObj.returnsOwn_iff` — when every accessor returns its own component or its default
-/

namespace LibraCore.Http

open Execution (final)

/-! ### Where the fields of a URL lie -/

namespace ParserUrl

variable {u : ParserUrl} {n m i : ℕ} {uf : UrlField} {len : UInt16}

/-- Every field that is set ends at `n` at the latest, and no port has been converted. -/
structure Ends (n : ℕ) (u : ParserUrl) : Prop where
  end_le : ∀ f ∈ u.fieldSet, (u.fieldData f).off.toNat + (u.fieldData f).len.toNat ≤ n
  port_eq : u.port = 0

/-- Every field that is set begins at `n` at the latest; there is no schema without a host,
and no port has been converted. -/
structure Located (n : ℕ) (u : ParserUrl) : Prop where
  off_le : ∀ f ∈ u.fieldSet, (u.fieldData f).off.toNat ≤ n
  host_mem : .schema ∈ u.fieldSet → .host ∈ u.fieldSet
  port_eq : u.port = 0

theorem Ends.mono (h : u.Ends n) (hnm : n ≤ m) : u.Ends m :=
  ⟨fun f hf => (h.end_le f hf).trans hnm, h.port_eq⟩

private theorem toNat_succ_le (len : UInt16) : (len + 1).toNat ≤ len.toNat + 1 := by
  rw [UInt16.toNat_add]
  exact Nat.mod_le _ _

private theorem toNat_ofNat_le (i : ℕ) : (UInt16.ofNat i).toNat ≤ i := by
  rw [UInt16.toNat_ofNat']
  exact Nat.mod_le _ _

theorem Ends.incLen (h : u.Ends i) (uf : UrlField) : (u.incLen uf).Ends (i + 1) := by
  refine ⟨fun f hf => ?_, h.port_eq⟩
  have hle := h.end_le f hf
  by_cases hfu : f = uf
  · subst hfu
    have hsucc := toNat_succ_le (u.fieldData f).len
    simp only [ParserUrl.incLen, ParserUrl.setLen, Function.update_self]
    omega
  · simp only [ParserUrl.incLen, ParserUrl.setLen, Function.update_of_ne hfu]
    omega

theorem Ends.mark (h : u.Ends i) (uf : UrlField) : (u.mark uf i 1).Ends (i + 1) := by
  refine ⟨fun f hf => ?_, h.port_eq⟩
  by_cases hfu : f = uf
  · subst hfu
    have hle := toNat_ofNat_le i
    simp only [ParserUrl.mark, ParserUrl.setOff, ParserUrl.setLen, Function.update_self]
    exact Nat.add_le_add_right hle 1
  · have hle := h.end_le f (Finset.mem_of_mem_insert_of_ne hf hfu)
    simp only [ParserUrl.mark, ParserUrl.setOff, ParserUrl.setLen, Function.update_of_ne hfu]
    omega

theorem Located.setLen (h : u.Located n) (uf : UrlField) (len : UInt16) :
    (u.setLen uf len).Located n := by
  refine ⟨fun f hf => ?_, h.host_mem, h.port_eq⟩
  by_cases hfu : f = uf
  · subst hfu
    simp only [ParserUrl.setLen, Function.update_self]
    exact h.off_le f hf
  · simp only [ParserUrl.setLen, Function.update_of_ne hfu]
    exact h.off_le f hf

theorem Located.setOff (h : u.Located n) (uf : UrlField) (hi : i ≤ n) :
    (u.setOff uf i).Located n := by
  refine ⟨fun f hf => ?_, h.host_mem, h.port_eq⟩
  by_cases hfu : f = uf
  · subst hfu
    simp only [ParserUrl.setOff, Function.update_self]
    exact (toNat_ofNat_le i).trans hi
  · simp only [ParserUrl.setOff, Function.update_of_ne hfu]
    exact h.off_le f hf

theorem Located.mark (h : u.Located n) (huf : uf ≠ .schema) (hi : i ≤ n) :
    (u.mark uf i len).Located n := by
  have hboth := (h.setOff uf hi).setLen uf len
  refine ⟨fun f hf => ?_, fun hschema => ?_, h.port_eq⟩
  · by_cases hfu : f = uf
    · subst hfu
      simp only [ParserUrl.mark, ParserUrl.setOff, ParserUrl.setLen, Function.update_self]
      exact (toNat_ofNat_le i).trans hi
    · exact hboth.off_le f (Finset.mem_of_mem_insert_of_ne hf hfu)
  · exact Finset.mem_insert_of_mem
      (h.host_mem (Finset.mem_of_mem_insert_of_ne hschema huf.symm))

end ParserUrl

open ParserUrl (Ends Located)

theorem urlStep_ends {i : ℕ} {ch : UInt8} {v v' : UrlScan} (h : v.u.Ends i)
    (hstep : urlStep i ch v = .ok v') : v'.u.Ends (i + 1) := by
  simp only [urlStep] at hstep
  split at hstep
  · cases hstep
  · cases hstep
    exact h.mono (Nat.le_succ i)
  · split at hstep
    · cases hstep
      exact h.incLen _
    · cases hstep
      exact h.mark _

theorem urlLoop_ends {text : List UInt8} {i : ℕ} {v v' : UrlScan} (h : v.u.Ends i)
    (hloop : urlLoop i text v = .ok v') : v'.u.Ends (i + text.length) := by
  induction text generalizing i v with
  | nil =>
    cases hloop
    exact h
  | cons ch rest ih =>
    rw [urlLoop] at hloop
    cases hstep : urlStep i ch v with
    | error u =>
      rw [hstep] at hloop
      cases hloop
    | ok w =>
      rw [hstep] at hloop
      have hrest := ih (urlStep_ends h hstep) hloop
      rwa [Nat.add_assoc, Nat.add_comm 1] at hrest

theorem hostStep_located {n i : ℕ} {ch : UInt8} {s s' : HostState} {u u' : ParserUrl}
    (h : u.Located n) (hi : i ≤ n) (hstep : hostStep i ch s u = .ok (s', u')) : u'.Located n := by
  have hoff (c : Prop) [Decidable c] : (if c then u else u.setOff .host i).Located n := by
    split_ifs
    · exact h
    · exact h.setOff .host hi
  have hmark (c : Prop) [Decidable c] {uf : UrlField} (huf : uf ≠ .schema) :
      (if c then u else u.mark uf i 0).Located n := by
    split_ifs
    · exact h
    · exact h.mark huf hi
  simp only [hostStep] at hstep
  split at hstep
  · cases hstep
  · cases hstep
    exact (hoff _).setLen .host _
  · cases hstep
    exact (hoff _).setLen .host _
  · cases hstep
    exact h.setLen .host _
  · cases hstep
    exact h.setLen .host _
  · cases hstep
    exact (hmark _ (by decide)).setLen .port _
  · cases hstep
    exact (hmark _ (by decide)).setLen .userinfo _
  · cases hstep
    exact h

theorem hostLoop_located {n : ℕ} {text : List UInt8} {i : ℕ} {s s' : HostState}
    {u u' : ParserUrl} (h : u.Located n) (hi : i + text.length ≤ n)
    (hloop : hostLoop i text s u = .ok (s', u')) : u'.Located n := by
  induction text generalizing i s u with
  | nil =>
    cases hloop
    exact h
  | cons ch rest ih =>
    rw [hostLoop] at hloop
    rw [List.length_cons] at hi
    cases hstep : hostStep i ch s u with
    | error u =>
      rw [hstep] at hloop
      cases hloop
    | ok w =>
      rw [hstep] at hloop
      exact ih (hostStep_located h (by omega) hstep) (by omega) hloop

/-- Every field that is set begins inside the URL, a URL with a schema has a host, and one
without a port has the port 0. -/
structure ParserUrl.Parsed (n : ℕ) (u : ParserUrl) : Prop where
  off_le : ∀ f ∈ u.fieldSet, (u.fieldData f).off.toNat ≤ n
  host_mem : .schema ∈ u.fieldSet → .host ∈ u.fieldSet
  port_eq : .port ∉ u.fieldSet → u.port = 0

theorem httpParseHost_located {buf : List UInt8} {n : ℕ} {u u' : ParserUrl} {foundAt : Bool}
    (hends : u.Ends n) (h : u.Located n) (hhost : .host ∈ u.fieldSet)
    (hparse : httpParseHost buf u foundAt = .ok u') : u'.Located n := by
  have hle := hends.end_le .host hhost
  simp only [httpParseHost] at hparse
  cases hloop : hostLoop (u.fieldData .host).off.toNat
      ((buf.drop (u.fieldData .host).off.toNat).take (u.fieldData .host).len.toNat)
      (if foundAt = true then .userinfoStart else .hostStart) (u.setLen .host 0) with
  | error u =>
    rw [hloop] at hparse
    cases hparse
  | ok w =>
    have hlen := List.length_take_le (u.fieldData .host).len.toNat
      (buf.drop (u.fieldData .host).off.toNat)
    have hw : w.2.Located n := hostLoop_located (h.setLen .host 0) (by omega) hloop
    rw [hloop] at hparse
    change (if w.1.unfinished = true then throw w.2 else pure w.2) = Except.ok u' at hparse
    split at hparse
    · cases hparse
    · cases hparse
      exact hw

theorem finishPort_parsed {buf : List UInt8} {n : ℕ} {isConnect : Bool} {u u' : ParserUrl}
    (h : u.Located n) (hfinish : finishPort buf isConnect u = .ok u') : u'.Parsed n := by
  rw [finishPort] at hfinish
  split at hfinish
  · cases hfinish
  · split at hfinish
    · next hport =>
      simp only [convertPort] at hfinish
      split at hfinish
      · cases hfinish
      · cases hfinish
        exact ⟨h.off_le, h.host_mem, fun hno => absurd hport hno⟩
    · cases hfinish
      exact ⟨h.off_le, h.host_mem, fun _ => h.port_eq⟩

theorem finishUrl_parsed {buf : List UInt8} {n : ℕ} {isConnect foundAt : Bool} {u u' : ParserUrl}
    (h : u.Ends n) (hfinish : finishUrl buf isConnect foundAt u = .ok u') : u'.Parsed n := by
  rw [finishUrl] at hfinish
  split at hfinish
  · cases hfinish
  · next hboth =>
    have hlocated : u.Located n :=
      ⟨fun f hf => (Nat.le_add_right _ _).trans (h.end_le f hf),
        fun hschema => by_contra fun hno => hboth ⟨hschema, hno⟩, h.port_eq⟩
    split at hfinish
    · next hhost =>
      cases hparse : httpParseHost buf u foundAt with
      | error w =>
        rw [hparse] at hfinish
        cases hfinish
      | ok w =>
        rw [hparse] at hfinish
        exact finishPort_parsed (httpParseHost_located h hlocated hhost hparse) hfinish
    · exact finishPort_parsed hlocated hfinish

/-- What a successful parse leaves in the handle. -/
theorem httpParserParseUrl_parsed {buf : List UInt8} {buflen : ℕ} {isConnect : Bool}
    {u u' : ParserUrl} (hparse : httpParserParseUrl buf buflen isConnect u = .ok u') :
    u'.Parsed (buf.take buflen).length := by
  rw [httpParserParseUrl] at hparse
  cases hloop : urlLoop 0 (buf.take buflen) ⟨if isConnect = true then .reqServerStart
      else .reqSpacesBeforeUrl, none, false, { u with port := 0, fieldSet := ∅ }⟩ with
  | error w =>
    simp only [hloop] at hparse
    cases hparse
  | ok v =>
    simp only [hloop] at hparse
    have hnone : ParserUrl.Ends 0 { u with port := 0, fieldSet := ∅ } :=
      ⟨fun f hf => absurd hf (Finset.notMem_empty f), rfl⟩
    have hends := urlLoop_ends hnone hloop
    rw [Nat.zero_add] at hends
    exact finishUrl_parsed hends hparse

/-! ### The accessors -/

/-- `std::string::substr`; `none` is the exception `std::out_of_range`. -/
def substr (s : List UInt8) (pos len : ℕ) : Option (List UInt8) :=
  if s.length < pos then none else some ((s.drop pos).take len)

namespace UrlObj

/-- `has_schema`, `has_path`, `has_query` and the others: the bit of the field is set. -/
def has (uf : UrlField) (url : UrlObj) : Bool := uf ∈ url.handle.fieldSet

/-- `buf_.substr` with the data of the field. -/
def field (uf : UrlField) (url : UrlObj) : Option (List UInt8) :=
  substr url.buf (url.handle.fieldData uf).off.toNat (url.handle.fieldData uf).len.toNat

def schema (url : UrlObj) : Option (List UInt8) :=
  if url.has .schema then url.field .schema else some (ascii "HTTP")

def host (url : UrlObj) : Option (List UInt8) :=
  if url.has .schema then url.field .host else some (ascii "localhost")

def port (url : UrlObj) : Option ℤ :=
  if url.has .path then some url.handle.port.toNat
  else url.schema.map fun s => if s = ascii "HTTP" then 80 else 443

def path (url : UrlObj) : Option (List UInt8) :=
  if url.has .path then url.field .path else some (ascii "/")

def query (url : UrlObj) : Option (List UInt8) :=
  if url.has .query then url.field .query else some []

def fragment (url : UrlObj) : Option (List UInt8) :=
  if url.has .query then url.field .fragment else some []

/-! ### What they are for -/

/-- The text of a component. -/
def component (uf : UrlField) (url : UrlObj) : List UInt8 :=
  (url.buf.drop (url.handle.fieldData uf).off.toNat).take (url.handle.fieldData uf).len.toNat

/-- The text of a component that is there, and its default otherwise. -/
def componentOr (uf : UrlField) (default : List UInt8) (url : UrlObj) : List UInt8 :=
  if uf ∈ url.handle.fieldSet then url.component uf else default

/-- The schema is `http` in any case of its letters, or there is none. -/
def IsHttp (url : UrlObj) : Prop :=
  .schema ∈ url.handle.fieldSet → folded (url.component .schema) = folded (ascii "http")

def IsHttps (url : UrlObj) : Prop :=
  .schema ∈ url.handle.fieldSet ∧ folded (url.component .schema) = folded (ascii "https")

/-- The port that a URL should have: its own, or that of its schema if that is known. -/
def IsPort (url : UrlObj) (p : ℤ) : Prop :=
  if .port ∈ url.handle.fieldSet then p = url.handle.port.toNat
  else (url.IsHttp → p = 80) ∧ (url.IsHttps → p = 443)

/-- No accessor throws, and each of them returns its own component or the default for it. -/
structure ReturnsOwn (url : UrlObj) : Prop where
  schema_eq : url.schema = some (url.componentOr .schema (ascii "HTTP"))
  host_eq : url.host = some (url.componentOr .host (ascii "localhost"))
  port_eq : ∃ p, url.port = some p ∧ url.IsPort p
  path_eq : url.path = some (url.componentOr .path (ascii "/"))
  query_eq : url.query = some (url.componentOr .query [])
  fragment_eq : url.fragment = some (url.componentOr .fragment [])

/-! ### When they do it -/

/-- The schema is what `port` compares it with, letter by letter, or there is none. -/
def IsUpper (url : UrlObj) : Prop := url.componentOr .schema (ascii "HTTP") = ascii "HTTP"

instance (url : UrlObj) : Decidable url.IsUpper := inferInstanceAs (Decidable (_ = _))

instance (url : UrlObj) : Decidable url.IsHttp := inferInstanceAs (Decidable (_ → _))

instance (url : UrlObj) : Decidable url.IsHttps := inferInstanceAs (Decidable (_ ∧ _))

/-- The host is that of a URL with a schema, or is missing, or happens to be the default. -/
def HostFound (url : UrlObj) : Prop :=
  .schema ∈ url.handle.fieldSet ∨ url.componentOr .host (ascii "localhost") = ascii "localhost"

/-- With a path the port is that of the handle; without one it is the default by the schema as
it is written. -/
def PortFound (url : UrlObj) : Prop :=
  if .port ∈ url.handle.fieldSet then
    .path ∈ url.handle.fieldSet ∨ url.handle.port.toNat = if url.IsUpper then 80 else 443
  else if .path ∈ url.handle.fieldSet then ¬ url.IsHttp ∧ ¬ url.IsHttps
  else url.IsHttp → url.IsUpper

/-- The offset and the length that the handle holds for the field, be it set or not, are those
of an empty range of the text. -/
def EmptyRange (uf : UrlField) (url : UrlObj) : Prop :=
  (url.handle.fieldData uf).off.toNat ≤ url.buf.length ∧
    ((url.handle.fieldData uf).len.toNat = 0 ∨
      (url.handle.fieldData uf).off.toNat = url.buf.length)

/-- With a query the fragment is read wherever the handle says it was, be it there or not;
without one it is empty. -/
def FragmentFound (url : UrlObj) : Prop :=
  if .query ∈ url.handle.fieldSet then
    .fragment ∈ url.handle.fieldSet ∨ url.EmptyRange .fragment
  else .fragment ∈ url.handle.fieldSet → url.EmptyRange .fragment

instance (url : UrlObj) : Decidable url.HostFound := inferInstanceAs (Decidable (_ ∨ _))

instance (url : UrlObj) : Decidable url.PortFound := inferInstanceAs (Decidable (ite _ _ _))

instance (uf : UrlField) (url : UrlObj) : Decidable (url.EmptyRange uf) :=
  inferInstanceAs (Decidable (_ ∧ _))

instance (url : UrlObj) : Decidable url.FragmentFound := inferInstanceAs (Decidable (ite _ _ _))

section Spec

variable {url : UrlObj} {f : Fragment} {isConnect : Bool} {old : UrlObj} {uf : UrlField}
  {default : List UInt8}

/-- A successful `from_buf` keeps the text, and the handle that the parser has filled. -/
theorem fromBuf_located (h : fromBuf f isConnect old = .ok () url) :
    url.handle.Parsed url.buf.length := by
  rw [fromBuf] at h
  cases hparse : httpParserParseUrl (f.text ++ f.after) f.text.length isConnect old.handle with
  | error handle =>
    rw [hparse] at h
    cases h
  | ok handle =>
    rw [hparse] at h
    cases h
    have hparsed := httpParserParseUrl_parsed hparse
    rwa [List.take_left] at hparsed

theorem componentOr_of_mem (hset : uf ∈ url.handle.fieldSet) :
    url.componentOr uf default = url.component uf :=
  if_pos hset

theorem componentOr_of_not_mem (hset : uf ∉ url.handle.fieldSet) :
    url.componentOr uf default = default :=
  if_neg hset

theorem field_empty_iff : url.field uf = some [] ↔ url.EmptyRange uf := by
  rw [field, substr, EmptyRange]
  split_ifs with hbehind
  · refine iff_of_false (fun hnone => ?_) (fun hempty => by omega)
    cases hnone
  · rw [Option.some.injEq, ← List.length_eq_zero_iff, List.length_take, List.length_drop]
    omega

variable (h : url.handle.Parsed url.buf.length)
include h

/-- A component that is there is returned. -/
theorem field_of_mem (hset : uf ∈ url.handle.fieldSet) :
    url.field uf = some (url.component uf) :=
  if_neg (Nat.not_lt.mpr (h.off_le uf hset))

/-- An accessor that tests for its own component. -/
theorem field_or_default : (if url.has uf then url.field uf else some default) =
    some (url.componentOr uf default) := by
  by_cases hset : uf ∈ url.handle.fieldSet
  · rw [if_pos (by simpa [has] using hset), field_of_mem h hset, componentOr_of_mem hset]
  · rw [if_neg (by simpa [has] using hset), componentOr_of_not_mem hset]

theorem host_eq_iff :
    url.host = some (url.componentOr .host (ascii "localhost")) ↔ url.HostFound := by
  by_cases hschema : .schema ∈ url.handle.fieldSet
  · refine iff_of_true ?_ (.inl hschema)
    rw [host, if_pos (by simpa [has] using hschema), field_of_mem h (h.host_mem hschema),
      componentOr_of_mem (h.host_mem hschema)]
  · rw [host, if_neg (by simpa [has] using hschema), HostFound, Option.some.injEq]
    simp only [hschema, false_or]
    exact eq_comm

theorem fragment_eq_iff :
    url.fragment = some (url.componentOr .fragment []) ↔ url.FragmentFound := by
  rw [fragment, FragmentFound]
  by_cases hquery : .query ∈ url.handle.fieldSet
  · rw [if_pos (by simpa [has] using hquery), if_pos hquery]
    by_cases hset : .fragment ∈ url.handle.fieldSet
    · exact iff_of_true (by rw [field_of_mem h hset, componentOr_of_mem hset]) (.inl hset)
    · rw [componentOr_of_not_mem hset, field_empty_iff]
      simp only [hset, false_or]
  · rw [if_neg (by simpa [has] using hquery), if_neg hquery]
    by_cases hset : .fragment ∈ url.handle.fieldSet
    · rw [componentOr_of_mem hset, ← field_of_mem h hset, eq_comm, field_empty_iff]
      simp only [hset, true_imp_iff]
    · exact iff_of_true (by rw [componentOr_of_not_mem hset]) fun hin => absurd hin hset

/-- What `port` returns. -/
theorem port_eq : url.port = some (if .path ∈ url.handle.fieldSet then (url.handle.port.toNat : ℤ)
    else if url.IsUpper then 80 else 443) := by
  rw [port]
  by_cases hpath : .path ∈ url.handle.fieldSet
  · rw [if_pos (by simpa [has] using hpath), if_pos hpath]
  · have hschema : url.schema = some (url.componentOr .schema (ascii "HTTP")) := field_or_default h
    rw [if_neg (by simpa [has] using hpath), if_neg hpath, hschema]
    rfl

omit h in
theorem not_isHttps_of_isUpper (hupper : url.IsUpper) : ¬ url.IsHttps := by
  rintro ⟨hschema, hhttps⟩
  rw [IsUpper, componentOr_of_mem hschema] at hupper
  rw [hupper] at hhttps
  exact absurd hhttps (by decide)

/-- The port is the right one exactly if it is found. -/
theorem port_iff : (∃ p, url.port = some p ∧ url.IsPort p) ↔ url.PortFound := by
  rw [port_eq h]
  simp only [Option.some.injEq, exists_eq_left', IsPort, PortFound]
  by_cases hport : .port ∈ url.handle.fieldSet
  · rw [if_pos hport, if_pos hport]
    by_cases hpath : .path ∈ url.handle.fieldSet
    · exact iff_of_true (if_pos hpath) (.inl hpath)
    · simp only [hpath, if_false, false_or]
      split_ifs <;> omega
  · have hzero : url.handle.port.toNat = 0 := by
      rw [h.port_eq hport]
      rfl
    rw [if_neg hport, if_neg hport]
    by_cases hpath : .path ∈ url.handle.fieldSet
    · rw [if_pos hpath, if_pos hpath, hzero]
      -- the port 0 is that of no known schema
      refine and_congr (imp_congr_right fun _ => ?_) (imp_congr_right fun _ => ?_)
      · exact iff_of_false (by decide) id
      · exact iff_of_false (by decide) id
    · rw [if_neg hpath, if_neg hpath]
      by_cases hupper : url.IsUpper
      · rw [if_pos hupper]
        exact iff_of_true ⟨fun _ => rfl, fun hhttps => absurd hhttps
          (not_isHttps_of_isUpper hupper)⟩ fun _ => hupper
      · rw [if_neg hupper]
        constructor
        · rintro ⟨hhttp, -⟩ hsome
          exact absurd (hhttp hsome) (by decide)
        · intro hno
          exact ⟨fun hhttp => absurd (hno hhttp) hupper, fun _ => rfl⟩

omit h in
/-- After a successful parse, every accessor returns its own component or its default exactly
if `host`, `port` and `fragment` find theirs. -/
theorem returnsOwn_iff (hparse : fromBuf f isConnect old = .ok () url) :
    url.ReturnsOwn ↔ url.HostFound ∧ url.PortFound ∧ url.FragmentFound := by
  have h := fromBuf_located hparse
  constructor
  · intro hown
    exact ⟨(host_eq_iff h).mp hown.host_eq, (port_iff h).mp hown.port_eq,
      (fragment_eq_iff h).mp hown.fragment_eq⟩
  · rintro ⟨hhost, hport, hfragment⟩
    exact ⟨field_or_default h, (host_eq_iff h).mpr hhost, (port_iff h).mpr hport,
      field_or_default h, field_or_default h, (fragment_eq_iff h).mpr hfragment⟩

end Spec

/-- A text, and nothing behind it in memory. -/
def ofText (s : String) : Fragment := ⟨ascii s, []⟩

/-- A URL with a port and a path. -/
theorem returnsOwn_iff_port : (final (fromBuf (ofText "a://h:1/") false new)).ReturnsOwn := by
  have hparse := Execution.eq_ok_of_returns (r := fromBuf (ofText "a://h:1/") false new) (by decide)
  exact (returnsOwn_iff hparse).mpr (by decide)

/-- `http://h/` has the port 0, and the fragment of `/a#f` is empty. -/
theorem returnsOwn_false :
    (final (fromBuf (ofText "http://h/") false new)).port = some 0 ∧
      ¬ (final (fromBuf (ofText "http://h/") false new)).ReturnsOwn ∧
      (final (fromBuf (ofText "/a#f") false new)).fragment = some [] ∧
      ¬ (final (fromBuf (ofText "/a#f") false new)).ReturnsOwn := by
  have hport : (final (fromBuf (ofText "http://h/") false new)).port = some 0 := by decide
  have hfragment : (final (fromBuf (ofText "/a#f") false new)).fragment = some [] := by decide
  refine ⟨hport, fun hown => ?_, hfragment, fun hown => ?_⟩
  · obtain ⟨p, hp, hisPort⟩ := hown.port_eq
    obtain rfl := Option.some.inj (hport.symm.trans hp)
    rw [IsPort, if_neg (by decide)] at hisPort
    exact absurd (hisPort.1 fun _ => by decide) (by decide)
  · have heq := hown.fragment_eq
    rw [hfragment, componentOr, if_pos (by decide)] at heq
    exact absurd heq (by decide)

end UrlObj

end LibraCore.Http
