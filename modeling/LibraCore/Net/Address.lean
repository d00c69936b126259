import LibraCore.Base.Bytes
import LibraCore.Base.Exception

/-!
# `Address`

The endpoint of a connection, kept as the `sockaddr_in` that libuv is given. One constructor
fills it from a text and a port number, the other copies one that libuv has filled. The port in
it is in network byte order, and `port` returns it as it is there.

The host is little-endian. `uv_inet_pton` and `uv_ip4_name` are known by what they return.

## Main results

- `SockaddrIn.ofMemory_bytes` — the copy of an endpoint is the endpoint
- `Address.keeps_iff` — which ports are returned as they were given
-/

namespace LibraCore

/-- `struct sockaddr_in`, with the values of its members as objects in memory. -/
structure SockaddrIn where
  sinFamily : BitVec 16
  sinPort : BitVec 16
  sinAddr : BitVec 32
  sinZero : BitVec 64
  deriving DecidableEq, Repr

namespace SockaddrIn

/-- The 16 bytes of the structure. -/
def bytes (a : SockaddrIn) : List UInt8 :=
  toMemory (n := 2) a.sinFamily ++ toMemory (n := 2) a.sinPort ++ toMemory (n := 4) a.sinAddr ++
    toMemory (n := 8) a.sinZero

/-- `sizeof(struct sockaddr_in)`, and that of `struct sockaddr_in6`. -/
def size : ℕ := 16

def size6 : ℕ := 28

/-- `memcpy` into the structure. -/
def copyOf (memory : List UInt8) : Except Fault SockaddrIn :=
  if memory.length < size then .error .outOfBounds
  else .ok {
    sinFamily := ofMemory 2 (memory.take 2)
    sinPort := ofMemory 2 ((memory.drop 2).take 2)
    sinAddr := ofMemory 4 ((memory.drop 4).take 4)
    sinZero := ofMemory 8 ((memory.drop 8).take 8) }

end SockaddrIn

/-- What libuv knows of addresses: the `in_addr` and the `in6_addr` that a text stands for, and
the text for an `in_addr`. -/
structure UvInet where
  pton4 : String → Option (BitVec 32)
  pton6 : String → Option (BitVec 128)
  ip4Name : BitVec 32 → Option String

/-- The two functions are inverse on IPv4. -/
def UvInet.Inverse (uv : UvInet) : Prop :=
  ∀ host ia, uv.pton4 host = some ia → uv.ip4Name ia = some host

/-- `AF_INET`. -/
def afInet : BitVec 16 := 2

/-- `c_str()`, read as a C string. -/
def cStr (s : String) : String := .ofList (s.toList.takeWhile (· ≠ Char.ofNat 0))

/-- `Address`, whose `core_` is an `IPv4`. -/
structure Address where
  addr_ : SockaddrIn
  deriving DecidableEq, Repr

namespace Address

/-- `IPv4(const void* addr, uint16_t port)`. -/
def ipv4 (addr : BitVec 32) (port : BitVec 16) : Address :=
  ⟨{ sinFamily := afInet, sinPort := port, sinAddr := addr, sinZero := 0 }⟩

/-- `Address(const std::string& host, int port)`; the argument of `htons` is a `uint16_t`. -/
def ofHost (uv : UvInet) (host : String) (port : ℤ) : Except Fault Address :=
  match uv.pton4 (cStr host) with
  | some ia => .ok (ipv4 ia (htons (BitVec.ofInt 16 port)))
  | none =>
    match uv.pton6 (cStr host) with
    | some _ => .error (.thrown {
        classId := .notImplementInterface
        method := "Address"
        message := "Not implement the function" })
    | none => .error (.thrown {
        classId := .exception
        method := "Address"
        message := "Invalid IP address format: " ++ host })

/-- `Address(const struct sockaddr* addr, int length)`. -/
def ofSockaddr (addr : List UInt8) (length : ℤ) : Except Fault Address :=
  if toSize length = SockaddrIn.size then do
    let addr_ ← SockaddrIn.copyOf addr
    return ⟨addr_⟩
  else if toSize length = SockaddrIn.size6 then
    .error (.thrown {
      classId := .notImplementInterface
      method := "Address"
      message := "Not implement the function" })
  else
    .error (.thrown {
      classId := .exception
      method := "Address"
      message := "Invalid address length passed to Address()" })

def host (uv : UvInet) (a : Address) : Except Fault String :=
  match uv.ip4Name a.addr_.sinAddr with
  | some name => .ok name
  | none => .error (.thrown {
      classId := .exception
      method := "host"
      message := "Cannot parse IPv4 hostname" })

def port (a : Address) : ℕ := a.addr_.sinPort.toNat

def length (_ : Address) : ℕ := SockaddrIn.size

def addr (a : Address) : List UInt8 := a.addr_.bytes

/-! ### What it is for -/

/-- An address that reports the host and the port, names the port in network byte order, and
is an address of the same host and port when it is made from its own `sockaddr`. -/
structure KeepsEndpoint (uv : UvInet) (host : String) (port : ℤ) (a : Address) : Prop where
  host_eq : a.host uv = .ok (cStr host)
  port_eq : (a.port : ℤ) = port
  addr_port : (a.addr.drop 2).take 2 = Octet.ofNat 2 port.toNat
  copy_eq : ∃ b, ofSockaddr a.addr a.length = .ok b ∧ b.host uv = .ok (cStr host) ∧
    (b.port : ℤ) = port

/-- The port is one of 16 bits. -/
def IsPort (port : ℤ) : Prop := 0 ≤ port ∧ port < 2 ^ 16

instance (port : ℤ) : Decidable (IsPort port) := inferInstanceAs (Decidable (_ ∧ _))

/-- An endpoint is kept, and a number that is no port is rejected. -/
def Keeps (uv : UvInet) (host : String) (port : ℤ) : Prop :=
  (IsPort port → ∃ a, ofHost uv host port = .ok a ∧ KeepsEndpoint uv host port a) ∧
  (¬ IsPort port → ∃ e, ofHost uv host port = .error (.thrown e))

end Address

section Spec

theorem ofMemory_toMemory {n : ℕ} (v : BitVec (8 * n)) : ofMemory n (toMemory v) = v := by
  rw [ofMemory, toMemory, List.reverse_reverse, Octet.word_spell]

theorem length_toMemory {n : ℕ} (v : BitVec (8 * n)) : (toMemory v).length = n := by
  rw [toMemory, List.length_reverse, Octet.length_spell]

/-- `htons` exchanges the two bytes of a number. -/
theorem toNat_htons (v : BitVec 16) : (htons v).toNat = v.toNat % 256 * 256 + v.toNat / 256 := by
  have hlt : v.toNat / 256 < 256 := by
    have := v.isLt
    omega
  have hspell : (Octet.spell (n := 2) v).reverse =
      [UInt8.ofNat (v.toNat % 256), UInt8.ofNat (v.toNat / 256)] := by
    show [UInt8.ofNat (v.toNat / 256 ^ 0), UInt8.ofNat (v.toNat / 256 ^ 1)] = _
    rw [pow_zero, pow_one, Nat.div_one, UInt8.ofNat_mod_size]
  rw [htons, Octet.swap, hspell, Octet.toNat_word (n := 2) rfl, Octet.toNat_cons,
    Octet.toNat_cons, UInt8.toNat_ofNat', UInt8.toNat_ofNat', Octet.toNat_nil]
  simp only [List.length_singleton, List.length_nil]
  omega

namespace SockaddrIn

/-- The bytes of one member, between those before it and those behind it. -/
private theorem member_eq {before member behind : List UInt8} {n m : ℕ} (hn : before.length = n)
    (hm : member.length = m) : ((before ++ (member ++ behind)).drop n).take m = member := by
  rw [List.drop_left' hn, List.take_left' hm]

theorem length_bytes (a : SockaddrIn) : a.bytes.length = size := by
  rw [bytes, List.length_append, List.length_append, List.length_append, length_toMemory,
    length_toMemory, length_toMemory, length_toMemory]
  rfl

/-- The port in memory. -/
theorem port_bytes (a : SockaddrIn) : (a.bytes.drop 2).take 2 = toMemory (n := 2) a.sinPort := by
  rw [bytes, List.append_assoc, List.append_assoc]
  exact member_eq (length_toMemory (n := 2) a.sinFamily) (length_toMemory (n := 2) a.sinPort)

/-- A structure that is copied byte by byte is the same structure. -/
theorem copyOf_bytes (a : SockaddrIn) : copyOf a.bytes = .ok a := by
  have hfamily : a.bytes.take 2 = toMemory (n := 2) a.sinFamily := by
    rw [bytes, List.append_assoc, List.append_assoc]
    exact List.take_left' (length_toMemory (n := 2) a.sinFamily)
  have haddr : (a.bytes.drop 4).take 4 = toMemory (n := 4) a.sinAddr := by
    rw [bytes, List.append_assoc]
    exact member_eq (by rw [List.length_append, length_toMemory, length_toMemory])
      (length_toMemory (n := 4) a.sinAddr)
  have hzero : (a.bytes.drop 8).take 8 = toMemory (n := 8) a.sinZero := by
    rw [bytes, List.drop_left' (by rw [List.length_append, List.length_append, length_toMemory,
      length_toMemory, length_toMemory])]
    exact List.take_of_length_le (le_of_eq (length_toMemory (n := 8) a.sinZero))
  rw [copyOf, if_neg (by rw [length_bytes]; exact lt_irrefl _), hfamily, port_bytes, haddr, hzero,
    ofMemory_toMemory, ofMemory_toMemory, ofMemory_toMemory, ofMemory_toMemory]

end SockaddrIn

namespace Address

variable {uv : UvInet} {host : String} {port : ℤ} {ia : BitVec 32}

/-- An address is copied whole. -/
theorem ofSockaddr_addr (a : Address) : ofSockaddr a.addr a.length = .ok a := by
  have hlength : toSize a.length = SockaddrIn.size :=
    toSize_of_lt (show SockaddrIn.size < sizeMod by decide)
  rw [ofSockaddr, if_pos hlength, addr, SockaddrIn.copyOf_bytes]
  rfl

/-- A text of an IPv4 address is accepted with any number. -/
theorem ofHost_ok (hia : uv.pton4 (cStr host) = some ia) (port : ℤ) :
    ofHost uv host port = .ok (ipv4 ia (htons (BitVec.ofInt 16 port))) := by
  rw [ofHost, hia]

/-- The port that is returned has its two bytes exchanged. -/
theorem port_ipv4 (ia : BitVec 32) (hport : IsPort port) :
    ((ipv4 ia (htons (BitVec.ofInt 16 port))).port : ℤ) = port % 256 * 256 + port / 256 := by
  have hvalue : ((BitVec.ofInt 16 port).toNat : ℤ) = port := by
    rw [BitVec.toNat_ofInt]
    obtain ⟨hge, hlt⟩ := hport
    omega
  show ((htons (BitVec.ofInt 16 port)).toNat : ℤ) = _
  rw [toNat_htons]
  push_cast
  rw [hvalue]

/-- An address keeps its endpoint exactly if the two bytes of the port are equal. -/
theorem keepsEndpoint_iff (hinverse : uv.Inverse) (hia : uv.pton4 (cStr host) = some ia)
    (hport : IsPort port) :
    KeepsEndpoint uv host port (ipv4 ia (htons (BitVec.ofInt 16 port))) ↔
      port % 256 = port / 256 := by
  have hreturned := port_ipv4 ia hport
  have hhost : (ipv4 ia (htons (BitVec.ofInt 16 port))).host uv = .ok (cStr host) := by
    have hname : uv.ip4Name (ipv4 ia (htons (BitVec.ofInt 16 port))).addr_.sinAddr = some _ :=
      hinverse _ _ hia
    rw [Address.host, hname]
  have horder : ((ipv4 ia (htons (BitVec.ofInt 16 port))).addr.drop 2).take 2 =
      Octet.ofNat 2 port.toNat := by
    have hvalue : (BitVec.ofInt 16 port).toNat = port.toNat := by
      rw [BitVec.toNat_ofInt]
      obtain ⟨hge, hlt⟩ := hport
      omega
    rw [addr, SockaddrIn.port_bytes, ← hvalue]
    exact toMemory_swapH2N .uint16 (BitVec.ofInt 16 port)
  constructor
  · intro hkeeps
    have hsame := hkeeps.port_eq
    omega
  · intro hbytes
    have hsame : ((ipv4 ia (htons (BitVec.ofInt 16 port))).port : ℤ) = port := by omega
    exact ⟨hhost, hsame, horder, _, ofSockaddr_addr _, hhost, hsame⟩

/-- For a text that is an IPv4 address, the endpoint is kept, or the number rejected, exactly if
the number is a port whose two bytes are equal. -/
theorem keeps_iff (hinverse : uv.Inverse) (hia : uv.pton4 (cStr host) = some ia) (port : ℤ) :
    Keeps uv host port ↔ IsPort port ∧ port % 256 = port / 256 := by
  have hok := ofHost_ok hia port
  by_cases hport : IsPort port
  · constructor
    · intro hkeeps
      obtain ⟨a, ha, hendpoint⟩ := hkeeps.1 hport
      obtain rfl := Except.ok.inj (hok.symm.trans ha)
      exact ⟨hport, (keepsEndpoint_iff hinverse hia hport).mp hendpoint⟩
    · rintro ⟨-, hbytes⟩
      exact ⟨fun _ => ⟨_, hok, (keepsEndpoint_iff hinverse hia hport).mpr hbytes⟩, absurd hport⟩
  · refine iff_of_false (fun hkeeps => ?_) fun h => hport h.1
    obtain ⟨e, he⟩ := hkeeps.2 hport
    rw [hok] at he
    cases he

/-- libuv, as far as it is asked for one address. -/
def loopback : UvInet where
  pton4 host := if host = "127.0.0.1" then some 0x0100007f else none
  pton6 _ := none
  ip4Name ia := if ia = 0x0100007f then some "127.0.0.1" else none

theorem inverse_loopback : loopback.Inverse := by
  intro host ia hia
  simp only [loopback] at hia ⊢
  split at hia
  · next hhost =>
    obtain rfl := Option.some.inj hia
    rw [hhost]
    rfl
  · cases hia

/-- The port 257 is kept. -/
theorem keeps_iff_257 : Keeps loopback "127.0.0.1" 257 :=
  (keeps_iff inverse_loopback
    (show loopback.pton4 (cStr "127.0.0.1") = some 0x0100007f by decide) 257).mpr (by decide)

/-- The port 80 is returned as 20480, and so is the number 65616, which is no port. -/
theorem keeps_false_80 :
    (ofHost loopback "127.0.0.1" 80).map Address.port = .ok 20480 ∧
      (ofHost loopback "127.0.0.1" 65616).map Address.port = .ok 20480 ∧
      ¬ Keeps loopback "127.0.0.1" 80 ∧ ¬ Keeps loopback "127.0.0.1" 65616 := by
  have h80 : ofHost loopback "127.0.0.1" 80 = .ok (ipv4 0x0100007f (htons 80)) := by decide
  have h65616 : ofHost loopback "127.0.0.1" 65616 = .ok (ipv4 0x0100007f (htons 80)) := by decide
  refine ⟨by rw [h80]; decide, by rw [h65616]; decide, fun hkeeps => ?_, fun hkeeps => ?_⟩
  · obtain ⟨a, ha, hendpoint⟩ := hkeeps.1 (by decide)
    obtain rfl := Except.ok.inj (h80.symm.trans ha)
    exact absurd hendpoint.port_eq (by decide)
  · obtain ⟨e, he⟩ := hkeeps.2 (by decide)
    rw [h65616] at he
    cases he

end Address

end Spec

end LibraCore
