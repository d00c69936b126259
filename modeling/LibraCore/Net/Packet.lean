import LibraCore.Base.BufferReader
import LibraCore.Base.BufferWriter
import LibraCore.Net.Wire

/-!
# `Packet`, `ReaderPacket` and `WriterPacket`

A packet is a `StaticBuffer<0x10000>` that holds a whole frame, header included.
The reader adds a cursor that starts behind the header; the writer fills in the
header when it is built and the length field when it is done.
-/

namespace LibraCore

namespace Packet

def headerSize : ℕ := 6

def magicPtr : ℕ := 0

def bodyLenPtr : ℕ := magicPtr + 1 * 2

def cmdPtr : ℕ := bodyLenPtr + IntType.uint16.size

/-- The capacity of `buffer_`. -/
def capacity : ℕ := 0x10000

def copy (buf : List UInt8) : BufferM Unit := do
  let _ ← Buffer.copy buf

/-- A getter that puts a fresh `BufferReader` at a field of the header. -/
def readAt (t : IntType) (index : ℕ) (b : Buffer) : Except Fault t.Val :=
  match BufferReader.get b t { index := index } with
  | .ok v _ => .ok v
  | .error f _ => .error f

def bodySize (b : Buffer) : Except Fault IntType.uint16.Val := readAt .uint16 bodyLenPtr b

def setBodySize : BufferM Bool := fun b =>
  BufferWriter.set .uint16 (IntType.uint16.wrap ((b.size + sizeMod - headerSize) % sizeMod))
    bodyLenPtr b

def cmd (b : Buffer) : Except Fault IntType.uint16.Val := readAt .uint16 cmdPtr b

def setCmd (cmd : IntType.uint16.Val) : BufferM Bool := BufferWriter.set .uint16 cmd cmdPtr

theorem readAt_ok {b : Buffer} {cap index : ℕ} {c : List UInt8} (h : b.HasContents cap c)
    (t : IntType) (hlt : index + t.size < 2 ^ 31) (hin : index + t.size ≤ c.length) :
    readAt t index b = .ok (Octet.word t.size ((c.drop index).take t.size)) := by
  rw [readAt, BufferReader.get_ok h t hlt hin]

end Packet

/-- `ReaderPacket`: the packet and its reader. -/
structure ReaderPacket where
  buffer : Buffer
  reader : BufferReader
  deriving DecidableEq, Repr

namespace ReaderPacket

def new : ReaderPacket where
  buffer := Buffer.zeroed Packet.capacity
  reader := { index := Packet.headerSize }

def copy (buf : List UInt8) : EStateM Fault ReaderPacket Unit := fun p =>
  match Packet.copy buf p.buffer with
  | .ok _ buffer => .ok () { p with buffer := buffer }
  | .error f buffer => .error f { p with buffer := buffer }

/-- Run a member of the reader on the packet's own buffer. -/
def withReader {α : Type} (x : Buffer → ReaderM α) : EStateM Fault ReaderPacket α := fun p =>
  match x p.buffer p.reader with
  | .ok a reader => .ok a { p with reader := reader }
  | .error f reader => .error f { p with reader := reader }

def read (t : IntType) : EStateM Fault ReaderPacket t.Val :=
  withReader fun buffer => BufferReader.get buffer t

def readString : EStateM Fault ReaderPacket (List UInt8) :=
  withReader BufferReader.getString

/-- The packet holds the frame `f` and nothing of it has been read. -/
structure Holds (p : ReaderPacket) (f : List UInt8) : Prop where
  contents : p.buffer.HasContents Packet.capacity f
  cursor : p.reader = ⟨(Packet.headerSize : ℕ), []⟩

theorem copy_new_ok {f : List UInt8} (hfit : f.length ≤ Packet.capacity) :
    ∃ p, copy f new = .ok () p ∧ p.Holds f := by
  have h := Buffer.hasContents_zeroed (show Packet.capacity < sizeMod by decide)
  obtain ⟨b, hcopy, hb⟩ := h.copy_ok hfit
  refine ⟨⟨b, new.reader⟩, ?_, hb, rfl⟩
  have hpacket : Packet.copy f new.buffer = .ok () b := Execution.bind_ok hcopy
  rw [copy, hpacket]

theorem copy_new_full {f : List UInt8} (hfull : Packet.capacity < f.length) :
    ∃ e, copy f new = .error (.thrown e) new := by
  have h := Buffer.hasContents_zeroed (show Packet.capacity < sizeMod by decide)
  obtain ⟨e, hcopy⟩ := h.copy_full hfull
  refine ⟨e, ?_⟩
  have hpacket : Packet.copy f new.buffer = .error (.thrown e) new.buffer :=
    Execution.bind_error hcopy
  rw [copy, hpacket]

theorem Holds.cmd {p : ReaderPacket} {cmd : BitVec 16} {body : List UInt8}
    (h : p.Holds (Wire.frame cmd body)) : Packet.cmd p.buffer = .ok cmd := by
  have hread := Packet.readAt_ok h.contents .uint16 (show 4 + 2 < 2 ^ 31 by decide)
    (show 4 + 2 ≤ (Wire.frame cmd body).length by rw [Wire.length_frame]; exact Nat.le_add_right 6 _)
  calc Packet.cmd p.buffer = .ok (Octet.word 2 (((Wire.frame cmd body).drop 4).take 2)) := hread
    _ = .ok (Octet.word 2 (Octet.spell (n := 2) cmd)) := by rw [Wire.frame_cmd]
    _ = .ok cmd := congrArg Except.ok (Octet.word_spell (n := 2) cmd)

theorem Holds.bodySize {p : ReaderPacket} {f : List UInt8} (h : p.Holds f)
    (hf : Wire.IsFrame f) :
    ∃ n, Packet.bodySize p.buffer = .ok n ∧ n.toNat + Packet.headerSize = f.length := by
  have hlen : f.length = 6 + Wire.bodyLen f := hf.2.2
  refine ⟨_, Packet.readAt_ok h.contents .uint16 (show 2 + 2 < 2 ^ 31 by decide)
    (show 2 + 2 ≤ f.length by omega), ?_⟩
  calc (Octet.word 2 ((f.drop 2).take 2)).toNat + 6 = Wire.bodyLen f + 6 := by
        rw [Wire.toNat_word]
    _ = f.length := by omega

end ReaderPacket

namespace WriterPacket

/-- The body of the constructor `WriterPacket(cmd)`, on the buffer of `Packet()`. -/
def construct (cmd : IntType.uint16.Val) : BufferM Unit := do
  Buffer.setSize Packet.headerSize
  let _ ← BufferWriter.set .int8 (IntType.int8.wrap 'L'.toNat) 0
  let _ ← BufferWriter.set .int8 (IntType.int8.wrap 'I'.toNat) 1
  let _ ← Packet.setCmd cmd

def append (t : IntType) (v : t.Val) : BufferM Bool := BufferWriter.append t v

def appendString (s : List UInt8) : BufferM Bool := BufferWriter.appendString s

theorem construct_ok (cmd : IntType.uint16.Val) :
    ∃ b, construct cmd (Buffer.zeroed Packet.capacity) = .ok () b ∧
      b.HasContents Packet.capacity ([76, 73, 0, 0] ++ Octet.spell (n := 2) cmd) := by
  have h := Buffer.hasContents_zeroed (show Packet.capacity < sizeMod by decide)
  obtain ⟨h₀, hc₀⟩ := h.setSize_ok (show Packet.headerSize ≤ Packet.capacity by decide)
  have hzero : (Buffer.zeroed Packet.capacity).data.take Packet.headerSize =
      [0, 0, 0, 0, 0, 0] := by
    rw [Buffer.zeroed, List.take_replicate]
    rfl
  rw [hzero] at hc₀
  obtain ⟨b₁, h₁, hc₁⟩ :=
    BufferWriter.set_ok hc₀ .int8 (IntType.int8.wrap 'L'.toNat) (show 0 + 1 ≤ 6 by decide)
  have hc₁ : b₁.HasContents Packet.capacity [76, 0, 0, 0, 0, 0] := hc₁
  obtain ⟨b₂, h₂, hc₂⟩ :=
    BufferWriter.set_ok hc₁ .int8 (IntType.int8.wrap 'I'.toNat) (show 1 + 1 ≤ 6 by decide)
  have hc₂ : b₂.HasContents Packet.capacity [76, 73, 0, 0, 0, 0] := hc₂
  obtain ⟨b₃, h₃, hc₃⟩ := BufferWriter.set_ok hc₂ .uint16 cmd
    (show Packet.cmdPtr + 2 ≤ 6 by decide)
  refine ⟨b₃, ?_, by simpa [Packet.cmdPtr, Packet.bodyLenPtr, Packet.magicPtr, IntType.size] using hc₃⟩
  rw [construct, Execution.bind_ok h₀, Execution.bind_ok h₁, Execution.bind_ok h₂]
  exact Execution.bind_ok h₃

end WriterPacket

end LibraCore
