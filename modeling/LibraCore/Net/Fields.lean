import LibraCore.Net.Packet

/-!
# Typed fields of a packet

What an application writes behind the header of a `WriterPacket`, and reads from
a `ReaderPacket`, is a sequence of integers and strings whose types the two sides
have agreed on. The bytes of such a sequence are `Field.encode` of each field, one
behind the other, and reading by the types returns the fields.
-/

namespace LibraCore

inductive Field
  | int (t : IntType) (v : t.Val)
  | str (s : List UInt8)
  deriving DecidableEq

/-- Which of `read<T>` and `read_string` is called. -/
inductive FieldType
  | int (t : IntType)
  | str
  deriving DecidableEq, Repr

namespace Field

def type : Field → FieldType
  | int t _ => .int t
  | str _ => .str

/-- The bytes on the wire. -/
def encode : Field → List UInt8
  | int t v => Octet.spell (n := t.size) v
  | str s => Octet.ofNat 4 s.length ++ s

/-- A string whose length fits its 32-bit prefix. -/
def Short : Field → Prop
  | int _ _ => True
  | str s => s.length < 2 ^ 32

end Field

def encodeFields (fields : List Field) : List UInt8 := (fields.map Field.encode).flatten

@[simp]
theorem encodeFields_cons (f : Field) (fs : List Field) :
    encodeFields (f :: fs) = f.encode ++ encodeFields fs := rfl

/-! ### Writing -/

namespace WriterPacket

def appendField : Field → BufferM Bool
  | .int t v => append t v
  | .str s => appendString s

def appendFields : List Field → BufferM Unit
  | [] => pure ()
  | f :: fs => do
    let _ ← appendField f
    appendFields fs

/-- `WriterPacket(cmd)` and the appends behind it. -/
def compose (cmd : IntType.uint16.Val) (fields : List Field) : BufferM Unit := do
  construct cmd
  appendFields fields

section Spec

variable {b b' : Buffer} {cap : ℕ} {c : List UInt8}

/-- An append that returns has put the bytes of the field at the end. -/
theorem appendField_of_ok (h : b.HasContents cap c) {f : Field} (hf : f.Short) {r : Bool}
    (hok : appendField f b = .ok r b') : b'.HasContents cap (c ++ f.encode) := by
  cases f with
  | int t v =>
    by_cases hfit : c.length + t.size ≤ cap
    · obtain ⟨b₁, h₁, hc₁⟩ := BufferWriter.append_ok h t v hfit
      have heq : EStateM.Result.ok true b₁ = .ok r b' := h₁.symm.trans hok
      cases heq
      exact hc₁
    · obtain ⟨e, h₁⟩ := BufferWriter.append_full h t v (by omega)
      cases h₁.symm.trans hok
  | str s =>
    by_cases hfit : c.length + 4 + s.length ≤ cap
    · obtain ⟨b₁, h₁, hc₁⟩ := BufferWriter.appendString_ok h hf hfit
      have heq : EStateM.Result.ok true b₁ = .ok r b' := h₁.symm.trans hok
      cases heq
      rw [Field.encode, ← List.append_assoc]
      exact hc₁
    · obtain ⟨e, b₁, h₁⟩ := BufferWriter.appendString_full h hf (by omega)
      cases h₁.symm.trans hok

theorem appendFields_of_ok {fields : List Field} (h : b.HasContents cap c)
    (hf : ∀ f ∈ fields, f.Short) (hok : appendFields fields b = .ok () b') :
    b'.HasContents cap (c ++ encodeFields fields) := by
  induction fields generalizing b c with
  | nil =>
    have heq : EStateM.Result.ok () b = .ok () b' := hok
    cases heq
    simpa [encodeFields] using h
  | cons f fs ih =>
    obtain ⟨r, b₁, h₁, hrest⟩ := Execution.of_bind_ok hok
    have hc₁ := appendField_of_ok h (hf f List.mem_cons_self) h₁
    have hc := ih hc₁ (fun g hg => hf g (List.mem_cons_of_mem f hg)) hrest
    rwa [List.append_assoc] at hc

/-- An append that has the room returns. -/
theorem appendField_ok (h : b.HasContents cap c) {f : Field} (hf : f.Short)
    (hfit : c.length + f.encode.length ≤ cap) :
    ∃ b', appendField f b = .ok true b' ∧ b'.HasContents cap (c ++ f.encode) := by
  cases f with
  | int t v =>
    rw [Field.encode, Octet.length_spell] at hfit
    exact BufferWriter.append_ok h t v hfit
  | str s =>
    rw [Field.encode, List.length_append, Octet.length_ofNat, ← Nat.add_assoc] at hfit
    rw [Field.encode, ← List.append_assoc]
    exact BufferWriter.appendString_ok h hf hfit

theorem appendFields_ok {fields : List Field} (h : b.HasContents cap c)
    (hf : ∀ f ∈ fields, f.Short) (hfit : c.length + (encodeFields fields).length ≤ cap) :
    ∃ b', appendFields fields b = .ok () b' := by
  induction fields generalizing b c with
  | nil => exact ⟨b, rfl⟩
  | cons f fs ih =>
    rw [encodeFields_cons, List.length_append] at hfit
    obtain ⟨b₁, h₁, hc₁⟩ := appendField_ok h (hf f List.mem_cons_self) (by omega)
    obtain ⟨b', hrest⟩ := ih hc₁ (fun g hg => hf g (List.mem_cons_of_mem f hg))
      (by rw [List.length_append]; omega)
    exact ⟨b', by rw [appendFields, Execution.bind_ok h₁, hrest]⟩

/-- Fields of at most 65530 bytes can be written. -/
theorem compose_ok (cmd : IntType.uint16.Val) {fields : List Field}
    (hf : ∀ f ∈ fields, f.Short) (hfit : (encodeFields fields).length ≤ 65530) :
    ∃ b, compose cmd fields (Buffer.zeroed Packet.capacity) = .ok () b := by
  obtain ⟨b₁, h₁, hc₁⟩ := construct_ok cmd
  have hcmd : (Octet.spell (n := 2) cmd).length = 2 := Octet.length_spell _
  have hcap : Packet.capacity = 65536 := rfl
  obtain ⟨b, hb⟩ := appendFields_ok hc₁ hf (by
    simp only [List.length_append, hcmd, List.length_cons, List.length_nil]
    omega)
  exact ⟨b, by rw [compose, Execution.bind_ok h₁, hb]⟩

/-- A packet that was written without an exception. -/
theorem compose_of_ok {cmd : IntType.uint16.Val} {fields : List Field}
    (hf : ∀ f ∈ fields, f.Short) {b : Buffer}
    (hok : compose cmd fields (Buffer.zeroed Packet.capacity) = .ok () b) :
    b.HasContents Packet.capacity
      ([76, 73, 0, 0] ++ Octet.spell (n := 2) cmd ++ encodeFields fields) := by
  obtain ⟨b₁, h₁, hc₁⟩ := construct_ok cmd
  rw [compose, Execution.bind_ok h₁] at hok
  exact appendFields_of_ok hc₁ hf hok

/-- Setting the length field makes the contents a frame; the length never
wraps around, since the packet holds at most 65530 bytes behind the header. -/
theorem setBodySize_ok {cmd : IntType.uint16.Val} {body : List UInt8}
    (h : b.HasContents Packet.capacity ([76, 73, 0, 0] ++ Octet.spell (n := 2) cmd ++ body)) :
    ∃ b', Packet.setBodySize b = .ok true b' ∧
      b'.HasContents Packet.capacity (Wire.frame cmd body) ∧ body.length < 65531 := by
  have hcmd : (Octet.spell (n := 2) cmd).length = 2 := Octet.length_spell _
  have hlen : ([76, 73, 0, 0] ++ Octet.spell (n := 2) cmd ++ body).length = 6 + body.length := by
    simp only [List.length_append, hcmd, List.length_cons, List.length_nil]
  have hcap : 6 + body.length ≤ 65536 := hlen ▸ h.length_le
  have hsize : (b.size + sizeMod - Packet.headerSize) % sizeMod = body.length := by
    rw [show b.size = _ from h.size_eq, hlen, Packet.headerSize,
      sub_sizeMod (Nat.le_add_right 6 _) (lt_of_le_of_lt hcap (by norm_num))]
    exact Nat.add_sub_cancel_left 6 _
  have hspell := IntType.uint16.spell_wrap (v := body.length)
    (show body.length < 65536 by omega)
  obtain ⟨b', hset, hc⟩ := BufferWriter.set_ok h .uint16 (IntType.uint16.wrap body.length)
    (show Packet.bodyLenPtr + 2 ≤ _ by rw [hlen]; exact Nat.le_add_right_of_le (by decide))
  refine ⟨b', ?_, ?_, by omega⟩
  · rw [Packet.setBodySize, hsize]
    exact hset
  · rw [hspell] at hc
    simpa [Wire.frame, Wire.magic, Packet.bodyLenPtr, Packet.magicPtr, IntType.size] using hc

end Spec

end WriterPacket

/-! ### Reading -/

namespace ReaderPacket

def readField : FieldType → EStateM Fault ReaderPacket Field
  | .int t => do
    let v ← read t
    pure (.int t v)
  | .str => do
    let s ← readString
    pure (.str s)

def readFields : List FieldType → EStateM Fault ReaderPacket (List Field)
  | [] => pure []
  | t :: ts => do
    let f ← readField t
    let fs ← readFields ts
    pure (f :: fs)

/-- The packet holds `done ++ rest`, and `rest` has not been read. -/
def Unread (p : ReaderPacket) (done rest : List UInt8) : Prop :=
  p.buffer.HasContents Packet.capacity (done ++ rest) ∧ p.reader.index = done.length

section Spec

variable {p : ReaderPacket} {done rest : List UInt8}

/-- The cursor of a fresh packet stands behind the header. -/
theorem Holds.unread {cmd : BitVec 16} {body : List UInt8}
    (h : p.Holds (Wire.frame cmd body)) :
    p.Unread (Wire.magic ++ Octet.ofNat 2 body.length ++ Octet.spell (n := 2) cmd) body := by
  refine ⟨h.contents, ?_⟩
  rw [h.cursor]
  simp [Wire.magic, Packet.headerSize]

theorem Unread.length_le (h : p.Unread done rest) : done.length + rest.length ≤ 65536 := by
  have hle := h.1.length_le
  rwa [List.length_append] at hle

theorem readField_ok {f : Field} (h : p.Unread done (f.encode ++ rest)) :
    ∃ p', readField f.type p = .ok f p' ∧ p'.Unread (done ++ f.encode) rest := by
  have hlen := h.length_le
  rw [List.length_append] at hlen
  obtain ⟨hc, hi⟩ := h
  obtain ⟨buffer, i, log⟩ := p
  obtain rfl : i = (done.length : ℕ) := hi
  have hdrop : (done ++ (f.encode ++ rest)).drop done.length = f.encode ++ rest :=
    List.drop_left
  cases f with
  | int t v =>
    have ht : (Octet.spell (n := t.size) v).length = t.size := Octet.length_spell _
    have hget : BufferReader.get buffer t ⟨done.length, log⟩ = _ :=
      BufferReader.get_ok hc t (by have := t.size_le; omega) (by simp [Field.encode, ht])
    rw [hdrop, Field.encode, List.take_left' ht, Octet.word_spell] at hget
    refine ⟨⟨buffer, ⟨(done.length + t.size : ℕ), log⟩⟩, ?_, ?_, ?_⟩
    · have hread : read t ⟨buffer, ⟨done.length, log⟩⟩ =
          .ok v ⟨buffer, ⟨(done.length + t.size : ℕ), log⟩⟩ := by
        rw [read, withReader]
        simp only [hget]
      rw [Field.type, readField, Execution.bind_ok hread]
      rfl
    · rw [List.append_assoc]
      exact hc
    · simp [Field.encode, ht]
  | str s =>
    have hs : (Octet.ofNat 4 s.length).length = 4 := Octet.length_ofNat 4 _
    have hget : BufferReader.getString buffer ⟨done.length, log⟩ = _ :=
      BufferReader.getString_ok (s := s) hc (by simp [Field.encode, hs] at hlen; omega)
      (by rw [hdrop, Field.encode, List.take_left' (by simp [hs])])
      (by simp [Field.encode, hs]; omega)
    refine ⟨⟨buffer, ⟨(done.length + 4 + s.length : ℕ), log ++ [s.length]⟩⟩, ?_, ?_, ?_⟩
    · have hread : readString ⟨buffer, ⟨done.length, log⟩⟩ =
          .ok s ⟨buffer, ⟨(done.length + 4 + s.length : ℕ), log ++ [s.length]⟩⟩ := by
        rw [readString, withReader]
        simp only [hget]
      rw [Field.type, readField, Execution.bind_ok hread]
      rfl
    · rw [List.append_assoc]
      exact hc
    · simp [Field.encode, hs]
      omega

/-- Reading by the types of the fields returns the fields. -/
theorem readFields_ok {fields : List Field} (h : p.Unread done (encodeFields fields ++ rest)) :
    ∃ p', readFields (fields.map Field.type) p = .ok fields p' ∧
      p'.Unread (done ++ encodeFields fields) rest := by
  induction fields generalizing p done with
  | nil => exact ⟨p, rfl, by simpa [encodeFields] using h⟩
  | cons f fs ih =>
    rw [encodeFields_cons, List.append_assoc] at h
    obtain ⟨p₁, h₁, hp₁⟩ := readField_ok h
    obtain ⟨p', hrest, hp'⟩ := ih hp₁
    refine ⟨p', ?_, by rwa [List.append_assoc] at hp'⟩
    rw [List.map_cons, readFields, Execution.bind_ok h₁, Execution.bind_ok hrest]
    rfl

/-- Nothing can be read behind the end, whatever its type. -/
theorem readField_stop (h : p.Unread done []) (t : FieldType) :
    readField t p = .error (.thrown bufferReaderStop) p := by
  have hlen := h.length_le
  obtain ⟨hc, hi⟩ := h
  obtain ⟨buffer, i, log⟩ := p
  obtain rfl : i = (done.length : ℕ) := hi
  rw [List.append_nil] at hc
  have hi : done.length < 2 ^ 31 := by
    rw [List.length_nil] at hlen
    omega
  cases t with
  | int t =>
    have hstop : BufferReader.get buffer t ⟨done.length, log⟩ = _ :=
      BufferReader.get_stop hc t hi (by have := t.size_pos; omega)
    have hread : read t ⟨buffer, ⟨done.length, log⟩⟩ =
        .error (.thrown bufferReaderStop) ⟨buffer, ⟨done.length, log⟩⟩ := by
      rw [read, withReader]
      simp only [hstop]
    rw [readField, Execution.bind_error hread]
  | str =>
    have hstop : BufferReader.getString buffer ⟨done.length, log⟩ = _ :=
      BufferReader.getString_stop hc hi (by omega)
    have hread : readString ⟨buffer, ⟨done.length, log⟩⟩ =
        .error (.thrown bufferReaderStop) ⟨buffer, ⟨done.length, log⟩⟩ := by
      rw [readString, withReader]
      simp only [hstop]
    rw [readField, Execution.bind_error hread]

end Spec

end ReaderPacket

end LibraCore
