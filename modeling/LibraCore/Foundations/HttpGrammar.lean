import Mathlib.Data.List.DropRight
import Mathlib.Tactic

/-!
# The grammar of an HTTP/1.1 response

A response is a status line, field lines up to the first empty line, and a body. A field line
is a name, which is a token, a colon, and a value, which may have blanks around it. `parse`
reads a response and `render` writes one.

## Main results

- `HttpGrammar.parse_render` — what is written with valid parts is read back
- `HttpGrammar.parse_render_iff` — what is read of any fields that are written
- `HttpGrammar.valid_of_parse` — what is read has valid fields
-/

namespace HttpGrammar

/-- A name and a value. -/
abbrev Field := List UInt8 × List UInt8

structure Response where
  status : ℕ
  reason : List UInt8
  fields : List Field
  body : List UInt8
  deriving DecidableEq, Repr

/-! ### Octets -/

def isDigit (c : UInt8) : Bool := 48 ≤ c && c ≤ 57

def isAlpha (c : UInt8) : Bool := 65 ≤ c && c ≤ 90 || 97 ≤ c && c ≤ 122

/-- An octet of a token. -/
def isTchar (c : UInt8) : Bool :=
  isDigit c || isAlpha c || [33, 35, 36, 37, 38, 39, 42, 43, 45, 46, 94, 95, 96, 124, 126].contains c

/-- A space or a horizontal tab. -/
def isBlank (c : UInt8) : Bool := c == 32 || c == 9

/-- An octet of a value: neither a control character nor DEL, a tab excepted. -/
def isText (c : UInt8) : Bool := c == 9 || 32 ≤ c && c != 127

def IsToken (s : List UInt8) : Prop := s ≠ [] ∧ ∀ c ∈ s, isTchar c = true

/-- A value without the blanks around it. -/
def IsFieldValue (s : List UInt8) : Prop :=
  (∀ c ∈ s, isText c = true) ∧ (∀ c ∈ s.head?, isBlank c = false) ∧
    ∀ c ∈ s.getLast?, isBlank c = false

instance (s : List UInt8) : Decidable (IsToken s) :=
  decidable_of_iff (s ≠ [] ∧ s.all isTchar = true) (by rw [IsToken, List.all_eq_true])

instance (s : List UInt8) : Decidable (IsFieldValue s) :=
  decidable_of_iff (s.all isText = true ∧ s.head?.toList.any isBlank = false ∧
    s.getLast?.toList.any isBlank = false) (by simp [IsFieldValue])

def IsField (f : Field) : Prop := IsToken f.1 ∧ IsFieldValue f.2

theorem isText_cr : isText 13 = false := by decide

theorem isTchar_cr : isTchar 13 = false := by decide

/-! ### Reading -/

/-- The line at the front, without the CR LF that ends it, and what follows. -/
def splitLine : List UInt8 → Option (List UInt8 × List UInt8)
  | [] => none
  | c :: rest =>
    if c = 13 ∧ rest.head? = some 10 then some ([], rest.tail)
    else (splitLine rest).map fun l => (c :: l.1, l.2)

/-- `HTTP/1.1 `. -/
def version : List UInt8 := [72, 84, 84, 80, 47, 49, 46, 49, 32]

def parseStatusLine (line : List UInt8) : Option (ℕ × List UInt8) :=
  match line.drop version.length with
  | a :: b :: c :: 32 :: reason =>
    if line.take version.length = version ∧ (isDigit a && isDigit b && isDigit c) ∧
        reason.all isText then
      some ((a.toNat - 48) * 100 + (b.toNat - 48) * 10 + (c.toNat - 48), reason)
    else none
  | _ => none

/-- Leave out the blanks at both ends. -/
def trim (s : List UInt8) : List UInt8 := (s.dropWhile isBlank).rdropWhile isBlank

def parseField (line : List UInt8) : Option Field :=
  match line.dropWhile isTchar with
  | [] => none
  | c :: rest =>
    if c = 58 ∧ line.takeWhile isTchar ≠ [] ∧ (trim rest).all isText then
      some (line.takeWhile isTchar, trim rest)
    else none

/-- The fields up to the empty line, in at most so many lines, and what follows. -/
def parseFields : ℕ → List UInt8 → Option (List Field × List UInt8)
  | 0, _ => none
  | n + 1, text => do
    let (line, rest) ← splitLine text
    if line = [] then pure ([], rest)
    else
      let f ← parseField line
      let (fs, body) ← parseFields n rest
      pure (f :: fs, body)

def parse (text : List UInt8) : Option Response := do
  let (line, rest) ← splitLine text
  let (status, reason) ← parseStatusLine line
  let (fields, body) ← parseFields rest.length rest
  pure { status := status, reason := reason, fields := fields, body := body }

/-! ### Writing -/

def digit (n : ℕ) : UInt8 := UInt8.ofNat (48 + n % 10)

def statusLine (status : ℕ) (reason : List UInt8) : List UInt8 :=
  version ++ [digit (status / 100), digit (status / 10), digit status, 32] ++ reason

def fieldLine (f : Field) : List UInt8 := f.1 ++ [58, 32] ++ f.2

/-- The field lines, the empty line and the body. -/
def renderFields : List Field → List UInt8 → List UInt8
  | [], body => 13 :: 10 :: body
  | f :: fs, body => fieldLine f ++ 13 :: 10 :: renderFields fs body

def render (r : Response) : List UInt8 :=
  statusLine r.status r.reason ++ 13 :: 10 :: renderFields r.fields r.body

/-! ### What is written is read back -/

theorem splitLine_append {line rest : List UInt8} (h : (13 : UInt8) ∉ line) :
    splitLine (line ++ 13 :: 10 :: rest) = some (line, rest) := by
  induction line with
  | nil => simp [splitLine]
  | cons c line ih =>
    rw [List.mem_cons, not_or] at h
    rw [List.cons_append, splitLine, if_neg (by simp [Ne.symm h.1]), ih h.2]
    rfl

private theorem digit_spec (n : ℕ) : isDigit (digit n) = true ∧ (digit n).toNat - 48 = n % 10 := by
  have h : ∀ k < 10, isDigit (UInt8.ofNat (48 + k)) = true ∧
      (UInt8.ofNat (48 + k)).toNat - 48 = k := by decide
  exact h (n % 10) (Nat.mod_lt n (by decide))

theorem parseStatusLine_statusLine {status : ℕ} {reason : List UInt8} (hstatus : status < 1000)
    (hreason : ∀ c ∈ reason, isText c = true) :
    parseStatusLine (statusLine status reason) = some (status, reason) := by
  obtain ⟨ha, hva⟩ := digit_spec (status / 100)
  obtain ⟨hb, hvb⟩ := digit_spec (status / 10)
  obtain ⟨hc, hvc⟩ := digit_spec status
  have hvalue : status / 100 % 10 * 100 + status / 10 % 10 * 10 + status % 10 = status := by omega
  have hdrop : (statusLine status reason).drop version.length =
      digit (status / 100) :: digit (status / 10) :: digit status :: 32 :: reason := by
    rw [statusLine, List.append_assoc, List.drop_left]
    rfl
  have htake : (statusLine status reason).take version.length = version := by
    rw [statusLine, List.append_assoc, List.take_left]
  simp only [parseStatusLine, hdrop, htake, ha, hb, hc, hva, hvb, hvc, hvalue]
  rw [if_pos (by simpa using hreason)]

theorem trim_fieldValue {s : List UInt8} (h : IsFieldValue s) : trim (32 :: s) = s := by
  obtain ⟨-, hhead, hlast⟩ := h
  have hfront : (32 :: s).dropWhile isBlank = s := by
    rw [List.dropWhile_cons_of_pos (by decide), List.dropWhile_eq_self_iff]
    intro hne
    have hblank := hhead s[0] (by rw [List.head?_eq_getElem?]; simp [hne])
    simp [hblank]
  rw [trim, hfront, List.rdropWhile_eq_self_iff]
  intro hne
  have hblank := hlast (s.getLast hne) (by simp [List.getLast?_eq_getLast_of_ne_nil hne])
  simp [hblank]

theorem parseField_fieldLine {f : Field} (h : IsField f) : parseField (fieldLine f) = some f := by
  obtain ⟨⟨hne, hname⟩, hvalue⟩ := h
  have hsplit : fieldLine f = f.1 ++ 58 :: 32 :: f.2 := by
    rw [fieldLine, List.append_assoc]
    rfl
  have htake : (fieldLine f).takeWhile isTchar = f.1 := by
    rw [hsplit, List.takeWhile_append_of_pos hname, List.takeWhile_cons_of_neg (by decide),
      List.append_nil]
  have hdrop : (fieldLine f).dropWhile isTchar = 58 :: 32 :: f.2 := by
    rw [hsplit, List.dropWhile_append_of_pos hname, List.dropWhile_cons_of_neg (by decide)]
  have htrim := trim_fieldValue hvalue
  simp only [parseField, hdrop, htake, htrim]
  rw [if_pos ⟨trivial, hne, List.all_eq_true.mpr hvalue.1⟩]

theorem cr_notMem_fieldLine {f : Field} (h : IsField f) : (13 : UInt8) ∉ fieldLine f := by
  obtain ⟨⟨-, hname⟩, hvalue, -⟩ := h
  simp only [fieldLine, List.mem_append, not_or]
  refine ⟨⟨?_, by decide⟩, ?_⟩
  · intro hmem
    cases isTchar_cr.symm.trans (hname 13 hmem)
  · intro hmem
    cases isText_cr.symm.trans (hvalue 13 hmem)

theorem parseFields_renderFields {fs : List Field} (hfs : ∀ f ∈ fs, IsField f)
    (body : List UInt8) {n : ℕ} (hn : fs.length < n) :
    parseFields n (renderFields fs body) = some (fs, body) := by
  induction fs generalizing n with
  | nil =>
    obtain ⟨n, rfl⟩ : ∃ m, n = m + 1 := ⟨n - 1, by omega⟩
    have hnil : (13 : UInt8) ∉ ([] : List UInt8) := List.not_mem_nil
    have hsplit : splitLine (renderFields [] body) = some ([], body) := splitLine_append hnil
    simp [parseFields, hsplit]
  | cons f fs ih =>
    obtain ⟨n, rfl⟩ : ∃ m, n = m + 1 := ⟨n - 1, by omega⟩
    have hf := hfs f List.mem_cons_self
    have hrest := ih (fun g hg => hfs g (List.mem_cons_of_mem f hg))
      (show fs.length < n by rw [List.length_cons] at hn; omega)
    have hline : fieldLine f ≠ [] := by simp [fieldLine]
    have hsplit : splitLine (renderFields (f :: fs) body) =
        some (fieldLine f, renderFields fs body) := splitLine_append (cr_notMem_fieldLine hf)
    simp [parseFields, hsplit, hline, parseField_fieldLine hf, hrest]

theorem length_renderFields (fs : List Field) (body : List UInt8) :
    fs.length < (renderFields fs body).length := by
  induction fs with
  | nil => simp [renderFields]
  | cons f fs ih =>
    simp only [renderFields, List.length_append, List.length_cons]
    omega

/-- The parts of a response that can be written so that they are read back. -/
structure Valid (r : Response) : Prop where
  status : r.status < 1000
  reason : ∀ c ∈ r.reason, isText c = true
  fields : ∀ f ∈ r.fields, IsField f

theorem cr_notMem_statusLine {status : ℕ} {reason : List UInt8}
    (hreason : ∀ c ∈ reason, isText c = true) : (13 : UInt8) ∉ statusLine status reason := by
  simp only [statusLine, List.mem_append, not_or]
  refine ⟨⟨by decide, ?_⟩, ?_⟩
  · have hdigit (n : ℕ) : digit n ≠ 13 := by
      intro heq
      have hspec := (digit_spec n).1
      rw [heq] at hspec
      revert hspec
      decide
    simp [Ne.symm (hdigit _)]
  · intro hmem
    cases isText_cr.symm.trans (hreason 13 hmem)

theorem parse_render {r : Response} (h : Valid r) : parse (render r) = some r := by
  have hsplit : splitLine (render r) =
      some (statusLine r.status r.reason, renderFields r.fields r.body) :=
    splitLine_append (cr_notMem_statusLine h.reason)
  have hstatus := parseStatusLine_statusLine h.status h.reason
  have hfields := parseFields_renderFields h.fields r.body (length_renderFields r.fields r.body)
  simp [parse, hsplit, hstatus, hfields]

/-! ### What is read is valid -/

theorem isFieldValue_trim {s : List UInt8} (h : ∀ c ∈ trim s, isText c = true) :
    IsFieldValue (trim s) := by
  refine ⟨h, ?_, ?_⟩
  · intro c hc
    obtain ⟨rest, hrest⟩ := List.rdropWhile_prefix isBlank (s.dropWhile isBlank)
    have hfront : (s.dropWhile isBlank).head? = some c := by
      rw [← hrest, List.head?_append, show (List.rdropWhile _ _).head? = some c from hc]
      rfl
    have hnot := List.head?_dropWhile_not isBlank s
    rw [hfront] at hnot
    simpa using hnot
  · intro c hc
    obtain ⟨hne, rfl⟩ := List.mem_getLast?_eq_getLast hc
    exact Bool.eq_false_iff.mpr (List.rdropWhile_last_not isBlank (s.dropWhile isBlank) hne)

theorem isField_of_parseField {line : List UInt8} {f : Field} (h : parseField line = some f) :
    IsField f := by
  rw [parseField] at h
  split at h
  · cases h
  · rw [Option.ite_none_right_eq_some] at h
    obtain ⟨⟨-, hne, htext⟩, hf⟩ := h
    cases hf
    refine ⟨⟨hne, ?_⟩, isFieldValue_trim (List.all_eq_true.mp htext)⟩
    intro c hc
    exact List.mem_takeWhile_imp hc

theorem isField_of_parseFields {n : ℕ} {text body : List UInt8} {fs : List Field}
    (h : parseFields n text = some (fs, body)) : ∀ f ∈ fs, IsField f := by
  induction n generalizing text fs with
  | zero => cases h
  | succ n ih =>
    simp only [parseFields, Option.bind_eq_bind, Option.bind_eq_some_iff] at h
    obtain ⟨⟨line, rest⟩, -, h⟩ := h
    split_ifs at h
    · cases h
      intro f hf
      cases hf
    · simp only [Option.bind_eq_some_iff] at h
      obtain ⟨f, hf, ⟨gs, rest'⟩, hgs, h⟩ := h
      cases h
      intro g hg
      obtain rfl | hg := List.mem_cons.mp hg
      · exact isField_of_parseField hf
      · exact ih hgs g hg

theorem valid_of_parse {text : List UInt8} {r : Response} (h : parse text = some r) :
    ∀ f ∈ r.fields, IsField f := by
  simp only [parse, Option.bind_eq_bind, Option.bind_eq_some_iff] at h
  obtain ⟨⟨line, rest⟩, -, ⟨status, reason⟩, -, ⟨fields, body⟩, hfields, h⟩ := h
  cases h
  exact isField_of_parseFields hfields

/-! ### Lines in a field

A name or a value with a CR LF in it is written as more than one line. -/

/-- The field lines of a whole text. -/
def fieldSection (text : List UInt8) : Option (List Field × List UInt8) :=
  parseFields text.length text

/-- What a field is read as where it is written: its lines are fields, and none of them ends
the fields. -/
def fieldsOf (f : Field) : Option (List Field) :=
  match fieldSection (fieldLine f ++ [13, 10, 13, 10]) with
  | some (fs, []) => some fs
  | _ => none

theorem length_splitLine {text line rest : List UInt8} (h : splitLine text = some (line, rest)) :
    rest.length + 2 ≤ text.length := by
  induction text generalizing line rest with
  | nil => cases h
  | cons c text ih =>
    rw [splitLine] at h
    split_ifs at h with hend
    · cases h
      obtain ⟨tail, rfl⟩ := List.head?_eq_some_iff.mp hend.2
      simp
    · obtain ⟨⟨line', rest'⟩, hsplit, heq⟩ := Option.map_eq_some_iff.mp h
      cases heq
      have hlen := ih hsplit
      simp only [List.length_cons]
      omega

/-- A line end stays where it is when more follows. -/
theorem splitLine_more {text line rest : List UInt8} (h : splitLine text = some (line, rest))
    (more : List UInt8) : splitLine (text ++ more) = some (line, rest ++ more) := by
  induction text generalizing line rest with
  | nil => cases h
  | cons c text ih =>
    rw [splitLine] at h
    rw [List.cons_append, splitLine]
    split_ifs at h with hend
    · cases h
      obtain ⟨tail, rfl⟩ := List.head?_eq_some_iff.mp hend.2
      rw [if_pos ⟨hend.1, rfl⟩]
      rfl
    · obtain ⟨⟨line', rest'⟩, hsplit, heq⟩ := Option.map_eq_some_iff.mp h
      cases heq
      cases text with
      | nil => cases hsplit
      | cons d text =>
        have hnot : ¬ (c = 13 ∧ (d :: text ++ more).head? = some 10) := hend
        rw [if_neg hnot, ih hsplit]
        rfl

/-- A text without a line end is a line when one follows. -/
theorem splitLine_last {text : List UInt8} (h : splitLine text = none) (more : List UInt8) :
    splitLine (text ++ 13 :: 10 :: more) = some (text, more) := by
  induction text with
  | nil => simp [splitLine]
  | cons c text ih =>
    rw [splitLine] at h
    rw [List.cons_append, splitLine]
    split_ifs at h with hend
    rw [Option.map_eq_none_iff] at h
    have hnot : ¬ (c = 13 ∧ (text ++ 13 :: 10 :: more).head? = some 10) := by
      cases text with
      | nil => simp
      | cons d text => exact hend
    rw [if_neg hnot, ih h]
    rfl

/-- More lines than there are bytes are not asked for. -/
theorem parseFields_eq_fieldSection {n : ℕ} {text : List UInt8} (h : text.length ≤ n) :
    parseFields n text = fieldSection text := by
  induction n using Nat.strong_induction_on generalizing text with
  | _ n ih =>
    cases text with
    | nil => cases n <;> rfl
    | cons c text =>
      obtain ⟨n, rfl⟩ : ∃ m, n = m + 1 := ⟨n - 1, by rw [List.length_cons] at h; omega⟩
      rw [fieldSection, List.length_cons, parseFields, parseFields]
      cases hsplit : splitLine (c :: text) with
      | none => rfl
      | some l =>
        obtain ⟨line, rest⟩ := l
        have hlen := length_splitLine hsplit
        rw [List.length_cons] at h hlen
        simp only [Option.bind_eq_bind, Option.bind_some]
        rw [ih n (by omega) (by omega), ih text.length (by omega) (by omega)]

/-- A line at a time. -/
theorem fieldSection_line {text line rest : List UInt8}
    (h : splitLine text = some (line, rest)) :
    fieldSection text = if line = [] then some ([], rest) else
      (parseField line).bind fun f => (fieldSection rest).map fun r => (f :: r.1, r.2) := by
  have hlen := length_splitLine h
  obtain ⟨n, hn⟩ : ∃ n, text.length = n + 1 := ⟨text.length - 1, by omega⟩
  rw [fieldSection, hn, parseFields, h]
  simp only [Option.bind_eq_bind, Option.bind_some]
  rw [parseFields_eq_fieldSection (show rest.length ≤ n by omega)]
  split_ifs
  · rfl
  · cases parseField line with
    | none => rfl
    | some f => cases fieldSection rest <;> rfl

/-- A text in front of other lines is read as it is by itself; and if it is not read so, it stops
the reading or ends the fields before its own end. -/
structure ReadsApart (text rest : List UInt8) : Prop where
  reads : ∀ fs, fieldSection (text ++ [13, 10, 13, 10]) = some (fs, []) →
    fieldSection (text ++ 13 :: 10 :: rest) = (fieldSection rest).map fun r => (fs ++ r.1, r.2)
  stops : ∀ gs body, fieldSection (text ++ 13 :: 10 :: rest) = some (gs, body) →
    (∃ fs, fieldSection (text ++ [13, 10, 13, 10]) = some (fs, [])) ∨ rest.length ≤ body.length

/-- The last line of a text: its end is the one that follows the text. -/
theorem readsApart_last {text : List UInt8} (hsplit : splitLine text = none)
    (rest : List UInt8) : ReadsApart text rest := by
  have hself := fieldSection_line (splitLine_last hsplit [13, 10])
  have hread := fieldSection_line (splitLine_last hsplit rest)
  have hnone : fieldSection [13, 10] = some ([], []) := by decide
  by_cases hempty : text = []
  · rw [if_pos hempty] at hself hread
    refine ⟨fun fs h => ?_, fun gs body h => ?_⟩
    · rw [hself] at h
      cases h
    · rw [hread] at h
      cases h
      exact .inr le_rfl
  · rw [if_neg hempty] at hself hread
    cases hfield : parseField text with
    | none =>
      rw [hfield] at hself hread
      refine ⟨fun fs h => ?_, fun gs body h => ?_⟩
      · cases hself.symm.trans h
      · cases hread.symm.trans h
    | some f =>
      rw [hfield, Option.bind_some, hnone] at hself
      rw [hfield, Option.bind_some] at hread
      refine ⟨fun fs h => ?_, fun gs body _ => .inl ⟨_, hself⟩⟩
      cases hself.symm.trans h
      exact hread

/-- One line more in front. -/
theorem ReadsApart.line {text line text' rest : List UInt8}
    (hsplit : splitLine text = some (line, text')) (h : ReadsApart text' rest) :
    ReadsApart text rest := by
  have hself := fieldSection_line (splitLine_more hsplit [13, 10, 13, 10])
  have hread := fieldSection_line (splitLine_more hsplit (13 :: 10 :: rest))
  by_cases hempty : line = []
  · rw [if_pos hempty] at hself hread
    refine ⟨fun fs hfs => ?_, fun gs body hgs => ?_⟩
    · rw [hself] at hfs
      simp at hfs
    · rw [hread] at hgs
      cases hgs
      right
      simp only [List.length_append, List.length_cons]
      omega
  · rw [if_neg hempty] at hself hread
    cases hfield : parseField line with
    | none =>
      rw [hfield] at hself hread
      refine ⟨fun fs hfs => ?_, fun gs body hgs => ?_⟩
      · cases hself.symm.trans hfs
      · cases hread.symm.trans hgs
    | some f =>
      rw [hfield, Option.bind_some] at hself hread
      refine ⟨fun fs hfs => ?_, fun gs body hgs => ?_⟩
      · obtain ⟨⟨gs, body⟩, htail, heq⟩ := Option.map_eq_some_iff.mp (hself.symm.trans hfs)
        cases heq
        rw [hread, h.reads gs htail, Option.map_map]
        rfl
      · obtain ⟨⟨gs', body'⟩, htail, heq⟩ := Option.map_eq_some_iff.mp (hread.symm.trans hgs)
        cases heq
        obtain ⟨fs, hfs⟩ | hlong := h.stops gs' body' htail
        · exact .inl ⟨f :: fs, by rw [hself, hfs]; rfl⟩
        · exact .inr hlong

theorem readsApart (text rest : List UInt8) : ReadsApart text rest := by
  induction hn : text.length using Nat.strong_induction_on generalizing text with
  | _ n ih =>
    cases hsplit : splitLine text with
    | none => exact readsApart_last hsplit rest
    | some l =>
      obtain ⟨line, text'⟩ := l
      have hlen := length_splitLine hsplit
      exact (ih text'.length (by omega) text' rfl).line hsplit

theorem fieldsOf_eq_some_iff {f : Field} {fs : List Field} :
    fieldsOf f = some fs ↔ fieldSection (fieldLine f ++ [13, 10, 13, 10]) = some (fs, []) := by
  rw [fieldsOf]
  split
  · next gs h => simp [h]
  · next h =>
    refine iff_of_false (by simp) fun heq => ?_
    exact h fs heq

/-- A valid field is read as itself. -/
theorem fieldsOf_of_isField {f : Field} (h : IsField f) : fieldsOf f = some [f] := by
  rw [fieldsOf_eq_some_iff, fieldSection_line (splitLine_append (cr_notMem_fieldLine h)),
    if_neg (by simp [fieldLine]), parseField_fieldLine h]
  rfl

/-- All the fields that some fields are read as. -/
def readAs (fs : List Field) : List Field := fs.flatMap fun f => (fieldsOf f).getD []

theorem length_body_lt (fs : List Field) (body : List UInt8) :
    body.length < (renderFields fs body).length := by
  induction fs with
  | nil => simp [renderFields]
  | cons f fs ih =>
    simp only [renderFields, List.length_append, List.length_cons]
    omega

/-- Fields are read up to the body exactly if each of them is read as fields. -/
theorem fieldSection_renderFields_iff {fs gs : List Field} {body : List UInt8} :
    fieldSection (renderFields fs body) = some (gs, body) ↔
      (∀ f ∈ fs, (fieldsOf f).isSome) ∧ gs = readAs fs := by
  induction fs generalizing gs with
  | nil =>
    have hnil : (13 : UInt8) ∉ ([] : List UInt8) := List.not_mem_nil
    have hsplit : splitLine (renderFields [] body) = some ([], body) := splitLine_append hnil
    rw [fieldSection_line hsplit, if_pos rfl, readAs, List.flatMap_nil, Option.some_inj,
      Prod.mk.injEq, and_iff_left rfl, eq_comm]
    exact (and_iff_right fun f hf => absurd hf List.not_mem_nil).symm
  | cons f fs ih =>
    obtain ⟨hreads, hstops⟩ := readsApart (fieldLine f) (renderFields fs body)
    rw [renderFields, List.forall_mem_cons, readAs, List.flatMap_cons, Option.isSome_iff_exists]
    constructor
    · intro hread
      obtain ⟨hs, hself⟩ | hlong := hstops gs body hread
      · rw [hreads hs hself, Option.map_eq_some_iff] at hread
        obtain ⟨⟨gs', body'⟩, hrest, heq⟩ := hread
        cases heq
        obtain ⟨hall, rfl⟩ := ih.mp hrest
        have hf := fieldsOf_eq_some_iff.mpr hself
        exact ⟨⟨⟨hs, hf⟩, hall⟩, by rw [hf]; rfl⟩
      · exact absurd (length_body_lt fs body) (Nat.not_lt.mpr hlong)
    · rintro ⟨⟨⟨hs, hf⟩, hall⟩, rfl⟩
      rw [hreads hs (fieldsOf_eq_some_iff.mp hf), ih.mpr ⟨hall, rfl⟩, hf]
      rfl

/-- A response is read back with its own body exactly if each of its fields is read as fields;
these are then the fields that are read. -/
theorem parse_render_iff {r m : Response} (hstatus : r.status < 1000)
    (hreason : ∀ c ∈ r.reason, isText c = true) :
    parse (render r) = some m ∧ m.body = r.body ↔
      (∀ f ∈ r.fields, (fieldsOf f).isSome) ∧ m = { r with fields := readAs r.fields } := by
  have hsplit : splitLine (render r) =
      some (statusLine r.status r.reason, renderFields r.fields r.body) :=
    splitLine_append (cr_notMem_statusLine hreason)
  have hline := parseStatusLine_statusLine hstatus hreason
  have hparse : parse (render r) = (fieldSection (renderFields r.fields r.body)).map fun s =>
      { status := r.status, reason := r.reason, fields := s.1, body := s.2 } := by
    simp only [parse, hsplit, hline, Option.bind_eq_bind, Option.bind_some]
    rw [← fieldSection]
    cases fieldSection (renderFields r.fields r.body) <;> rfl
  rw [hparse, Option.map_eq_some_iff]
  constructor
  · rintro ⟨⟨⟨gs, body⟩, hread, rfl⟩, rfl⟩
    obtain ⟨hall, rfl⟩ := fieldSection_renderFields_iff.mp hread
    exact ⟨hall, rfl⟩
  · rintro ⟨hall, rfl⟩
    exact ⟨⟨_, fieldSection_renderFields_iff.mpr ⟨hall, rfl⟩, rfl⟩, rfl⟩

end HttpGrammar
