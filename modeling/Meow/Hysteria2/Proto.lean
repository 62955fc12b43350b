import Meow.Lib.Bytes
import Meow.Lib.Text
import Meow.Lib.Varint

/-!
# Hysteria2 UDP messages

One QUIC datagram carries one message: session, packet and fragment numbers, the address as a
varint length and UTF-8 text, and the rest is payload. Model of the UDP part of
`hysteria2/proto.rs`.

## Main definitions

* `UdpMessage` — a message, which may be one fragment of a packet.
* `udpHeaderLen`, `encodeUdpMessage`, `decodeUdpMessage` — the wire format.

## Main results

* `encodeUdpMessage_spec` — what was encoded is decoded, and the size of a datagram.
-/

namespace Meow.Hysteria2

open List

/-- The longest address, in bytes. -/
def MAX_ADDRESS_LENGTH : ℕ := 2048

/-- The longest payload, in bytes. -/
def MAX_UDP_SIZE : ℕ := 4096

/-- The errors of the message functions, and a failed `expect`. -/
inductive Error where
  | protocol (message : Str)
  | closed
  | expect (message : Str)
deriving DecidableEq

/-- A UDP message. -/
structure UdpMessage where
  sessionId : UInt32
  packetId : UInt16
  fragId : UInt8
  fragCount : UInt8
  addr : Str
  data : List UInt8
deriving DecidableEq

/-- The number of bytes in front of the payload. -/
def udpHeaderLen (addr : Str) : Except Error ℕ :=
  if addr = [] ∨ (asBytes addr).length > MAX_ADDRESS_LENGTH then
    .error (.protocol (str "invalid UDP address length"))
  else .ok (8 + varintLen (asBytes addr).length + (asBytes addr).length)

/-- The datagram of a message. -/
def encodeUdpMessage (message : UdpMessage) : Except Error (List UInt8) :=
  match udpHeaderLen message.addr with
  | .error e => .error e
  | .ok headerLen =>
    -- the sum does not overflow on lists that fit in memory
    let size := headerLen + message.data.length
    if size > MAX_UDP_SIZE + headerLen then .error (.protocol (str "UDP payload is too large"))
    else
      match putVarint (asBytes message.addr).length with
      | none => .error (.protocol (str "QUIC varint overflow"))
      | some len =>
        .ok (u32be message.sessionId.toNat ++ u16be message.packetId.toNat ++
          [message.fragId, message.fragCount] ++ len ++ asBytes message.addr ++ message.data)

/-- The address and the payload, from the length of the address on. -/
def decodeAddress (input : List UInt8) : Except Error (Str × List UInt8) :=
  match readVarint input with
  | none => .error (.protocol (str "truncated QUIC varint"))
  | some (addrLen, rest) =>
    if addrLen = 0 ∨ addrLen > MAX_ADDRESS_LENGTH then
      .error (.protocol (str "invalid UDP address length"))
    else if addrLen > rest.length then .error (.protocol (str "truncated UDP address"))
    else
      match fromUtf8 (rest.take addrLen) with
      | none => .error (.protocol (str "UDP address is not UTF-8"))
      | some addr => .ok (addr, rest.drop addrLen)

/-- The message in a datagram. -/
def decodeUdpMessage (input : List UInt8) : Except Error UdpMessage :=
  match input with
  | s0 :: s1 :: s2 :: s3 :: p0 :: p1 :: fragId :: fragCount :: b :: rest =>
    (decodeAddress (b :: rest)).map fun (addr, data) =>
      { sessionId := UInt32.ofNat (ofU32be s0 s1 s2 s3)
        packetId := UInt16.ofNat (ofU16be p0 p1)
        fragId, fragCount, addr, data }
  | _ => .error (.protocol (str "UDP message too short"))

/-! ### The bytes of an address -/

/-- An address that has a header is not empty and not too long. -/
lemma udpHeaderLen_ok {addr header} (h : udpHeaderLen addr = .ok header) :
    addr ≠ [] ∧ (asBytes addr).length ≤ MAX_ADDRESS_LENGTH ∧
      header = 8 + varintLen (asBytes addr).length + (asBytes addr).length := by
  unfold udpHeaderLen at h
  split_ifs at h with hbad
  · rw [not_or, not_lt] at hbad
    exact ⟨hbad.1, hbad.2, (Except.ok.inj h).symm⟩

/-! ### The wire format -/

/-- **The datagram of a message**: encoding succeeds for every good address and every payload in
the limit, the length is the header and the payload, and the message is decoded from it. -/
theorem encodeUdpMessage_spec {message : UdpMessage} {header}
    (haddr : udpHeaderLen message.addr = .ok header) (hdata : message.data.length ≤ MAX_UDP_SIZE) :
    ∃ bytes, encodeUdpMessage message = .ok bytes ∧
      bytes.length = header + message.data.length ∧ decodeUdpMessage bytes = .ok message := by
  obtain ⟨hne, hlen, hheader⟩ := udpHeaderLen_ok haddr
  have hpos := length_asBytes_pos hne
  rw [MAX_ADDRESS_LENGTH] at hlen
  have hsmall : (asBytes message.addr).length < 2 ^ 62 := by omega
  obtain ⟨len, hput⟩ := Option.isSome_iff_exists.mp (putVarint_isSome hsmall)
  have hlenlen := length_putVarint hput
  refine ⟨u32be message.sessionId.toNat ++ u16be message.packetId.toNat ++
    [message.fragId, message.fragCount] ++ len ++ asBytes message.addr ++ message.data, ?_, ?_, ?_⟩
  · rw [encodeUdpMessage, haddr]
    simp only
    rw [if_neg (by omega), hput]
  · simp only [length_append, length_u32be, length_u16be, length_cons, length_nil]
    omega
  · -- the address is read back behind the fixed fields
    have haddress : decodeAddress (len ++ (asBytes message.addr ++ message.data)) =
        .ok (message.addr, message.data) := by
      rw [decodeAddress, readVarint_putVarint hput]
      simp only
      rw [if_neg (by rw [MAX_ADDRESS_LENGTH]; omega), if_neg (by rw [length_append]; omega),
        take_left, fromUtf8_asBytes, drop_left]
    obtain ⟨b, rest, hrest⟩ : ∃ b rest,
        len ++ (asBytes message.addr ++ message.data) = b :: rest := by
      apply exists_cons_of_ne_nil
      intro hnil
      have hzero := congrArg List.length hnil
      simp only [length_append, length_nil] at hzero
      omega
    simp only [append_assoc, hrest]
    rw [hrest] at haddress
    show (decodeAddress (b :: rest)).map _ = _
    rw [haddress]
    simp only [Except.map]
    congr 1
    have hsession := UInt32.toNat_lt message.sessionId
    have hpacket := UInt16.toNat_lt message.packetId
    rw [ofU32be_u32be hsession, ofU16be_u16be hpacket, UInt32.ofNat_toNat, UInt16.ofNat_toNat]

end Meow.Hysteria2
