import LibraCore.Net.RoundTrip

/-!
# Reading a packet from an untrusted peer

A peer may send any bytes, and the application may read them by any types. `BodyCursor` is
what reading a packet should be: a position in the body, which a read moves over the value it
returns and otherwise leaves alone. `ReaderPacket` follows it through every sequence of reads,
and copies no byte from outside the body.

## Main results

- `FieldType.decode_eq_some_iff` — decoding finds the fields that a byte string begins with
- `ReaderPacket.Follows.attempts` — a packet follows its cursor through any reads
- `Decoder.attempts_delivered` — the same of every packet that the decoder delivers
-/

namespace LibraCore

open Execution (final)

/-! ### The reference -/

/-- The value of a type that a byte string begins with. -/
def FieldType.decode : FieldType → List UInt8 → Option Field
  | .int t, bytes =>
    if t.size ≤ bytes.length then some (.int t (Octet.word t.size (bytes.take t.size))) else none
  | .str, bytes =>
    if 4 + Octet.toNat (bytes.take 4) ≤ bytes.length then
      some (.str ((bytes.drop 4).take (Octet.toNat (bytes.take 4))))
    else none

theorem FieldType.decode_eq_some_iff {t : FieldType} {bytes : List UInt8} {f : Field} :
    t.decode bytes = some f ↔ f.type = t ∧ f.Short ∧ f.encode <+: bytes := by
  constructor
  · intro h
    cases t with
    | int t =>
      rw [decode, Option.ite_none_right_eq_some] at h
      obtain ⟨hle, h⟩ := h
      cases h
      refine ⟨rfl, trivial, ?_⟩
      rw [Field.encode, Octet.spell_word (List.length_take_of_le hle)]
      exact List.take_prefix _ _
    | str =>
      rw [decode, Option.ite_none_right_eq_some] at h
      obtain ⟨hle, h⟩ := h
      cases h
      have hpre : (bytes.take 4).length = 4 := List.length_take_of_le (by omega)
      have hlen : ((bytes.drop 4).take (Octet.toNat (bytes.take 4))).length =
          Octet.toNat (bytes.take 4) := by
        rw [List.length_take, List.length_drop]
        omega
      have hlt := Octet.toNat_lt (bytes.take 4)
      refine ⟨rfl, ?_, ?_⟩
      · rw [Field.Short, hlen]
        rw [hpre] at hlt
        exact hlt
      · have hspell := Octet.ofNat_toNat (bytes.take 4)
        rw [hpre] at hspell
        rw [Field.encode, hlen, hspell, ← List.take_add]
        exact List.take_prefix _ _
  · rintro ⟨rfl, hshort, rest, rfl⟩
    cases f with
    | int t v =>
      have hlen : (Octet.spell (n := t.size) v).length = t.size := Octet.length_spell _
      rw [Field.type, decode, Field.encode, if_pos (by rw [List.length_append, hlen]; omega),
        List.take_left' hlen, Octet.word_spell]
    | str s =>
      have hlen : (Octet.ofNat 4 s.length).length = 4 := Octet.length_ofNat 4 _
      have hsize : Octet.toNat (Octet.ofNat 4 s.length) = s.length := by
        rw [Octet.toNat_ofNat]
        exact Nat.mod_eq_of_lt hshort
      rw [Field.type, decode, Field.encode, List.append_assoc, List.take_left' hlen,
        List.drop_left' hlen, hsize, if_pos (by simp only [List.length_append, hlen]; omega),
        List.take_left]

/-- A position in the body of a packet. -/
structure BodyCursor (body : List UInt8) where
  position : ℕ
  position_le : position ≤ body.length

namespace BodyCursor

variable {body : List UInt8}

def start (body : List UInt8) : BodyCursor body := ⟨0, Nat.zero_le _⟩

/-- A read returns the value behind the position and moves over its bytes; if there is no
value of the type, it stops and the position stays. -/
def read (t : FieldType) (c : BodyCursor body) : Option Field × BodyCursor body :=
  match h : t.decode (body.drop c.position) with
  | some f =>
    (some f, {
      position := c.position + f.encode.length
      position_le := by
        have hle := (FieldType.decode_eq_some_iff.mp h).2.2.length_le
        have hpos := c.position_le
        rw [List.length_drop] at hle
        omega })
  | none => (none, c)

def reads : List FieldType → BodyCursor body → List (Option Field) × BodyCursor body
  | [], c => ([], c)
  | t :: ts, c => ((c.read t).1 :: (reads ts (c.read t).2).1, (reads ts (c.read t).2).2)

theorem read_some {t : FieldType} {c : BodyCursor body} {f : Field}
    (h : t.decode (body.drop c.position) = some f) :
    (c.read t).1 = some f ∧ (c.read t).2.position = c.position + f.encode.length := by
  unfold read
  split
  · next g hg =>
    obtain rfl : g = f := Option.some.inj (hg.symm.trans h)
    exact ⟨rfl, rfl⟩
  · next hnone => cases hnone.symm.trans h

theorem read_none {t : FieldType} {c : BodyCursor body}
    (h : t.decode (body.drop c.position) = none) : c.read t = (none, c) := by
  unfold read
  split
  · next g hg => cases hg.symm.trans h
  · rfl

end BodyCursor

/-! ### The packet -/

/-- The cells that a `get` copies out: the first of them, and how many. -/
def Buffer.copied (len index : ℕ) (b : Buffer) : List (ℕ × ℕ) :=
  match b.get len index with
  | .ok none => []
  | _ => [(index, len)]

theorem Buffer.mem_copied {b : Buffer} {cap : ℕ} {c : List UInt8} {len index i n : ℕ}
    (h : b.HasContents cap c) (hmod : index + len < sizeMod) (hmem : (i, n) ∈ b.copied len index) :
    i = index ∧ n = len ∧ index + len ≤ c.length := by
  by_cases hin : index + len ≤ c.length
  · simp only [copied, h.get_ok hin, List.mem_singleton, Prod.mk.injEq] at hmem
    exact ⟨hmem.1, hmem.2, hin⟩
  · simp [copied, h.get_out (by omega) hmod] at hmem

namespace ReaderPacket

/-- The bytes behind the header. -/
def body (p : ReaderPacket) : List UInt8 := p.buffer.contents.drop Packet.headerSize

/-- The cells that a read copies out of the packet. -/
def copied (p : ReaderPacket) : FieldType → List (ℕ × ℕ)
  | .int t => p.buffer.copied t.size (toSize p.reader.index)
  | .str =>
    p.buffer.copied IntType.uint32.size (toSize p.reader.index) ++
      match BufferReader.get p.buffer .uint32 p.reader with
      | .ok size reader => p.buffer.copied size.toNat (toSize reader.index)
      | .error _ _ => []

/-- A read whose exception the caller catches. -/
def attempt (t : FieldType) (p : ReaderPacket) : Except Fault Field × ReaderPacket :=
  match readField t p with
  | .ok f p => (.ok f, p)
  | .error e p => (.error e, p)

def attempts : List FieldType → ReaderPacket → List (Except Fault Field) × ReaderPacket
  | [], p => ([], p)
  | t :: ts, p =>
    ((p.attempt t).1 :: (attempts ts (p.attempt t).2).1, (attempts ts (p.attempt t).2).2)

/-- What a read of the reference is at the packet: a field, or `buffer_reader_stop`. -/
def outcome : Option Field → Except Fault Field
  | some f => .ok f
  | none => .error (.thrown bufferReaderStop)

/-- The packet holds the body behind some header, and its cursor is at the position. -/
structure Follows (p : ReaderPacket) {body : List UInt8} (c : BodyCursor body) : Prop where
  contents : ∃ header, header.length = Packet.headerSize ∧
    p.buffer.HasContents Packet.capacity (header ++ body)
  index : p.reader.index = (Packet.headerSize + c.position : ℕ)

section Spec

variable {p : ReaderPacket} {body : List UInt8} {c : BodyCursor body}

/-- A type of which there is no value behind the cursor. -/
theorem readField_none {t : FieldType} {whole : List UInt8} {i : ℕ}
    (hc : p.buffer.HasContents Packet.capacity whole) (hi : p.reader.index = i)
    (hle : i ≤ whole.length) (h : t.decode (whole.drop i) = none) :
    ∃ log, readField t p =
      .error (.thrown bufferReaderStop) { p with reader := ⟨i, log⟩ } := by
  have hcap : whole.length ≤ 65536 := hc.length_le
  obtain ⟨buffer, index, log⟩ := p
  obtain rfl : index = (i : ℤ) := hi
  cases t with
  | int t =>
    rw [FieldType.decode, ite_eq_right_iff, List.length_drop] at h
    have hout : whole.length < i + t.size := by
      by_contra hin
      cases h (by omega)
    have hstop : BufferReader.get buffer t ⟨i, log⟩ = _ :=
      BufferReader.get_stop hc t (by omega) hout
    have hread : read t ⟨buffer, ⟨i, log⟩⟩ =
        .error (.thrown bufferReaderStop) ⟨buffer, ⟨i, log⟩⟩ := by
      rw [read, withReader]
      simp only [hstop]
    exact ⟨log, by rw [readField, Execution.bind_error hread]⟩
  | str =>
    rw [FieldType.decode, ite_eq_right_iff, List.length_drop] at h
    have hout : whole.length < i + (4 + Octet.toNat ((whole.drop i).take 4)) := by
      by_contra hin
      cases h (by omega)
    -- either the length prefix is missing or some of the bytes behind it
    obtain ⟨log', hstop⟩ : ∃ log', BufferReader.getString buffer ⟨i, log⟩ =
        .error (.thrown bufferReaderStop) ⟨i, log'⟩ := by
      by_cases hprefix : i + 4 ≤ whole.length
      · exact ⟨_, BufferReader.getString_cut hc (by omega) hprefix (by omega)⟩
      · exact ⟨log, BufferReader.getString_stop hc (by omega) (by omega)⟩
    have hread : readString ⟨buffer, ⟨i, log⟩⟩ =
        .error (.thrown bufferReaderStop) ⟨buffer, ⟨i, log'⟩⟩ := by
      rw [readString, withReader]
      simp only [hstop]
    exact ⟨log', by rw [readField, Execution.bind_error hread]⟩

/-- One read. -/
theorem Follows.attempt (h : p.Follows c) (t : FieldType) :
    (p.attempt t).1 = outcome (c.read t).1 ∧ (p.attempt t).2.Follows (c.read t).2 := by
  obtain ⟨⟨header, hheader, hc⟩, hi⟩ := h
  have hpos := c.position_le
  have hsplit : header ++ body = (header ++ body.take c.position) ++ body.drop c.position := by
    rw [List.append_assoc, List.take_append_drop]
  have hdone : (header ++ body.take c.position).length = Packet.headerSize + c.position := by
    rw [List.length_append, hheader, List.length_take_of_le hpos]
  cases hdecode : t.decode (body.drop c.position) with
  | some f =>
    obtain ⟨hread, hnext⟩ := BodyCursor.read_some hdecode
    obtain ⟨rfl, -, rest, hrest⟩ := FieldType.decode_eq_some_iff.mp hdecode
    have hunread : p.Unread (header ++ body.take c.position) (f.encode ++ rest) := by
      refine ⟨?_, by rw [hi, hdone]⟩
      rw [hrest, ← hsplit]
      exact hc
    obtain ⟨p', hfield, hc', hi'⟩ := readField_ok hunread
    have hattempt : p.attempt f.type = (.ok f, p') := by rw [ReaderPacket.attempt, hfield]
    rw [hattempt, hread]
    refine ⟨rfl, ⟨header, hheader, ?_⟩, ?_⟩
    · rwa [List.append_assoc, hrest, ← hsplit] at hc'
    · rw [hi', hnext, List.length_append, hdone, Nat.add_assoc]
  | none =>
    have hdrop : (header ++ body).drop (Packet.headerSize + c.position) = body.drop c.position := by
      rw [hsplit, List.drop_left' hdone]
    obtain ⟨log, hfield⟩ := readField_none (t := t) hc hi
      (by rw [List.length_append, hheader]; omega) (by rw [hdrop]; exact hdecode)
    rw [ReaderPacket.attempt, hfield, BodyCursor.read_none hdecode]
    exact ⟨rfl, ⟨header, hheader, hc⟩, rfl⟩

/-- A packet follows its cursor through any reads. -/
theorem Follows.attempts (h : p.Follows c) (ts : List FieldType) :
    (p.attempts ts).1 = (c.reads ts).1.map outcome ∧
      (p.attempts ts).2.Follows (c.reads ts).2 := by
  induction ts generalizing p c with
  | nil => exact ⟨rfl, h⟩
  | cons t ts ih =>
    obtain ⟨hfirst, hnext⟩ := h.attempt t
    obtain ⟨hrest, hlast⟩ := ih hnext
    refine ⟨?_, hlast⟩
    rw [ReaderPacket.attempts, BodyCursor.reads, List.map_cons, hfirst, hrest]

/-- Every byte that a read copies out is one of the body. -/
theorem Follows.copied (h : p.Follows c) (t : FieldType) {i n : ℕ} (hmem : (i, n) ∈ p.copied t) :
    Packet.headerSize ≤ i ∧ i + n ≤ Packet.headerSize + body.length := by
  obtain ⟨⟨header, hheader, hc⟩, hi⟩ := h
  have hpos := c.position_le
  have hlen : (header ++ body).length = Packet.headerSize + body.length := by
    rw [List.length_append, hheader]
  have hcap : Packet.headerSize + body.length ≤ 65536 := hlen ▸ hc.length_le
  have hmod : 65536 + 4 + 2 ^ 32 < sizeMod := by norm_num
  have hsize : toSize p.reader.index = Packet.headerSize + c.position := by
    rw [hi]
    exact toSize_of_lt (by omega)
  -- a copy of at most `2 ^ 32` bytes from the position on, or from behind a prefix there
  have hfrom {index len : ℕ} (hindex : Packet.headerSize ≤ index) (hle : index ≤ 65536 + 4)
      (hshort : len < 2 ^ 32) (hmem : (i, n) ∈ p.buffer.copied len index) :
      Packet.headerSize ≤ i ∧ i + n ≤ Packet.headerSize + body.length := by
    obtain ⟨rfl, rfl, hin⟩ := Buffer.mem_copied hc (by omega) hmem
    exact ⟨hindex, hlen ▸ hin⟩
  cases t with
  | int t =>
    rw [ReaderPacket.copied, hsize] at hmem
    have ht := t.size_le
    exact hfrom (by omega) (by omega) (by omega) hmem
  | str =>
    rw [ReaderPacket.copied, hsize, List.mem_append] at hmem
    obtain hprefix | hbytes := hmem
    · exact hfrom (by omega) (by omega) (by decide) hprefix
    · have h4 : IntType.uint32.size = 4 := rfl
      cases hget : BufferReader.get p.buffer .uint32 p.reader with
      | error e reader => simp [hget] at hbytes
      | ok size reader =>
        have hshort : size.toNat < 2 ^ 32 := size.isLt
        simp only [hget] at hbytes
        by_cases hin : Packet.headerSize + c.position + 4 ≤ (header ++ body).length
        · have hword : BufferReader.get p.buffer .uint32
              ⟨(Packet.headerSize + c.position : ℕ), p.reader.resized⟩ = _ :=
            BufferReader.get_ok hc .uint32 (by omega) hin
          rw [← hi] at hword
          cases hget.symm.trans hword
          rw [toSize_of_lt (by omega)] at hbytes
          exact hfrom (by omega) (by omega) hshort hbytes
        · have hstop : BufferReader.get p.buffer .uint32
              ⟨(Packet.headerSize + c.position : ℕ), p.reader.resized⟩ = _ :=
            BufferReader.get_stop hc .uint32 (by omega) (by omega)
          rw [← hi] at hstop
          cases hget.symm.trans hstop

theorem Follows.size_eq (h : p.Follows c) :
    p.buffer.size = Packet.headerSize + body.length := by
  obtain ⟨⟨header, hheader, hc⟩, -⟩ := h
  rw [Buffer.size, hc.size_eq, List.length_append, hheader]

/-- A packet that holds a frame follows the cursor at the start of its body. -/
theorem Holds.follows {f : List UInt8} (h : p.Holds f) (hf : Wire.IsFrame f) :
    p.Follows (BodyCursor.start p.body) := by
  refine ⟨⟨f.take Packet.headerSize, List.length_take_of_le hf.2.1, ?_⟩, ?_⟩
  · rw [ReaderPacket.body, h.contents.contents_eq, List.take_append_drop]
    exact h.contents
  · rw [h.cursor]
    rfl

end Spec

end ReaderPacket

/-! ### Delivered packets -/

namespace Decoder

private theorem exists_of_forall₂ {α β : Type} {R : α → β → Prop} {xs : List α} {ys : List β}
    (h : List.Forall₂ R xs ys) {x : α} (hx : x ∈ xs) : ∃ y ∈ ys, R x y := by
  induction h with
  | nil => cases hx
  | cons hxy _ ih =>
    obtain rfl | hx := List.mem_cons.mp hx
    · exact ⟨_, List.mem_cons_self, hxy⟩
    · obtain ⟨y, hy, hrel⟩ := ih hx
      exact ⟨y, List.mem_cons_of_mem _ hy, hrel⟩

theorem delivered_handle {b : Buffer} {cap : ℕ} {c : List UInt8} (hb : b.HasContents cap c) :
    Inbox.Delivered cap (Wire.drain Packet.capacity maxPasses c).1
      (Wire.drain Packet.capacity maxPasses c).2.1
      (final (handle Inbox.place Inbox.deliver ⟨b, []⟩)) := by
  obtain ⟨w, hw, hends⟩ := Inbox.decode_spec (w := ⟨b, []⟩) ⟨List.Forall₂.nil, hb⟩
  have hfinal : final (handle Inbox.place Inbox.deliver ⟨b, []⟩) = w := by
    rw [handle_eq]
    obtain hok | ⟨e, herror⟩ := hends.thrown_or_ok
    · rw [hok]
      rfl
    · rw [herror]
      rfl
  rw [hfinal]
  exact hw

/-- What the decoder passes to the callback are frames. -/
theorem mem_delivered {b : Buffer} {cap : ℕ} {c : List UInt8} (hb : b.HasContents cap c)
    {p : ReaderPacket}
    (hp : p ∈ (final (handle Inbox.place Inbox.deliver ⟨b, []⟩)).packets) :
    ∃ f, p.Holds f ∧ Wire.IsFrame f := by
  obtain ⟨f, hf, hholds⟩ := exists_of_forall₂ (delivered_handle hb).packets hp
  exact ⟨f, hholds, Wire.isFrame_of_mem_drain _ _ _ f hf⟩

/-- Whatever bytes the peer sent and whatever is read: every read of a delivered packet
returns what the reference returns, the cursor of the packet is where the reference's is,
within the packet, and the next read copies bytes of the body only. -/
theorem attempts_delivered {b : Buffer} {cap : ℕ} {c : List UInt8} (hb : b.HasContents cap c)
    {p : ReaderPacket} (hp : p ∈ (final (handle Inbox.place Inbox.deliver ⟨b, []⟩)).packets)
    (ts : List FieldType) :
    (p.attempts ts).1 =
        ((BodyCursor.start p.body).reads ts).1.map ReaderPacket.outcome ∧
      (p.attempts ts).2.reader.index =
        (Packet.headerSize + ((BodyCursor.start p.body).reads ts).2.position : ℕ) ∧
      Packet.headerSize + ((BodyCursor.start p.body).reads ts).2.position ≤ p.buffer.size ∧
      ∀ t, ∀ cells ∈ (p.attempts ts).2.copied t,
        Packet.headerSize ≤ cells.1 ∧ cells.1 + cells.2 ≤ p.buffer.size := by
  obtain ⟨f, hholds, hf⟩ := mem_delivered hb hp
  have hstart := hholds.follows hf
  obtain ⟨hresults, hend⟩ := hstart.attempts ts
  have hpos := ((BodyCursor.start p.body).reads ts).2.position_le
  rw [hstart.size_eq]
  refine ⟨hresults, hend.index, by omega, ?_⟩
  intro t cells hcells
  exact hend.copied t hcells

/-- A body of one byte, read as one number too many and then as a string. -/
theorem attempts_delivered_stop :
    ∃ p ∈ (final (handle Inbox.place Inbox.deliver ⟨⟨[76, 73, 0, 1, 0, 0, 5], 7⟩, []⟩)).packets,
      (p.attempts [.str, .int .uint8, .int .uint16]).1 =
        [.error (.thrown bufferReaderStop), .ok (.int .uint8 5),
          .error (.thrown bufferReaderStop)] := by
  have hb : Buffer.HasContents ⟨[76, 73, 0, 1, 0, 0, 5], 7⟩ 7 [76, 73, 0, 1, 0, 0, 5] :=
    ⟨rfl, rfl, rfl, by decide⟩
  have hdrain : Wire.drain Packet.capacity maxPasses [76, 73, 0, 1, 0, 0, 5] =
      ([[76, 73, 0, 1, 0, 0, 5]], [], .short) := by decide
  have hpackets := (delivered_handle hb).packets
  rw [hdrain] at hpackets
  obtain ⟨p, ps, hholds, -, hlist⟩ := List.forall₂_cons_right_iff.mp hpackets
  have hp : p ∈ (final (handle Inbox.place Inbox.deliver
      ⟨⟨[76, 73, 0, 1, 0, 0, 5], 7⟩, []⟩)).packets := by
    rw [hlist]
    exact List.mem_cons_self
  have hbody : p.body = [5] := by
    rw [ReaderPacket.body, hholds.contents.contents_eq]
    rfl
  refine ⟨p, hp, ?_⟩
  rw [(attempts_delivered hb hp _).1, hbody]
  decide

end Decoder

end LibraCore
