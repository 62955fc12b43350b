import Meow.Lib.Text
import Meow.Net.IpAddr

/-!
# Frames of Mux.Cool

A frame of `mux/muxcool.rs` is a meta block behind its length, and behind that a payload with its
length when the option bit for data is set. This file has the decoder of the meta block, and the
frames that a server may send in the documented format.

## Main definitions

* `decodeMeta`, `parseAddress` — the decoder.
* `Frame`, `Frame.wire` — a frame of the server and its bytes.

## Main results

* `Frame.decodeMeta_meta` — the meta block of a frame is decoded.
-/

namespace Meow.Mux.Cool

open List UInt8

/-! ### The decoder -/

def STATUS_NEW : UInt8 := 0x01
def STATUS_KEEP : UInt8 := 0x02
def STATUS_END : UInt8 := 0x03
def STATUS_KEEPALIVE : UInt8 := 0x04

def OPTION_DATA : UInt8 := 0x01
def OPTION_ERROR : UInt8 := 0x02

def NETWORK_TCP : UInt8 := 0x01
def NETWORK_UDP : UInt8 := 0x02

def ATYPE_IPV4 : UInt8 := 0x01
def ATYPE_DOMAIN : UInt8 := 0x02
def ATYPE_IPV6 : UInt8 := 0x03

/-- The longest meta block. -/
def MAX_META : ℕ := 512

/-- The `std::io::ErrorKind`s of the reader. -/
inductive ErrorKind where
  | invalidData
  | unexpectedEof
  | other
  deriving DecidableEq

/-- An `io::Error` with its text. -/
structure Error where
  kind : ErrorKind
  message : Str
  deriving DecidableEq

/-- `Dest`: the destination host of a frame. -/
inductive Dest where
  | ip (ip : IpAddr)
  | domain (name : List UInt8)
  deriving DecidableEq

/-- `FrameMeta`: a decoded meta block. -/
structure FrameMeta where
  sessionId : UInt16
  status : UInt8
  option : UInt8
  dest : Option (Dest × UInt16)
  deriving DecidableEq

/-- Is the option bit for data set? -/
def hasData (option : UInt8) : Bool := option &&& OPTION_DATA ≠ 0

/-- Is the option bit for an error set? -/
def hasError (option : UInt8) : Bool := option &&& OPTION_ERROR ≠ 0

/-- `parse_address`: port, address type and address; bytes after them are not looked at. -/
def parseAddress : List UInt8 → Except Error (Dest × UInt16)
  | p0 :: p1 :: atype :: rest =>
    let port := UInt16.ofNat (ofU16be p0 p1)
    if atype = ATYPE_IPV4 then
      match rest with
      | a :: b :: c :: d :: _ => .ok (.ip (.v4 (BitVec.ofNat 32 (ofU32be a b c d))), port)
      | _ => .error ⟨.unexpectedEof, str "mux.cool: truncated IPv4 address"⟩
    else if atype = ATYPE_IPV6 then
      if rest.length < 16 then .error ⟨.unexpectedEof, str "mux.cool: truncated IPv6 address"⟩
      else .ok (.ip (.v6 (BitVec.ofNat 128 (bigEndian (rest.take 16)))), port)
    else if atype = ATYPE_DOMAIN then
      match rest with
      | [] => .error ⟨.unexpectedEof, str "mux.cool: truncated domain address"⟩
      | len :: name =>
        if name.length < len.toNat then
          .error ⟨.unexpectedEof, str "mux.cool: truncated domain address"⟩
        else .ok (.domain (name.take len.toNat), port)
    else
      .error ⟨.invalidData, str "mux.cool: unknown address type " ++ natToStr atype.toNat⟩
  | _ => .error ⟨.unexpectedEof, str "mux.cool: truncated address"⟩

/-- A network type and an address. -/
def decodeNetwork : List UInt8 → Except Error (Dest × UInt16)
  | [] => .error ⟨.invalidData, str "mux.cool: New frame without destination"⟩
  | network :: address =>
    if network ≠ NETWORK_TCP ∧ network ≠ NETWORK_UDP then
      .error ⟨.invalidData, str "mux.cool: unknown network type " ++ natToStr network.toNat⟩
    else parseAddress address

/-- The destination part of `decode_meta`: the meta bytes after the option. -/
def decodeDest (status : UInt8) (rest : List UInt8) : Except Error (Option (Dest × UInt16)) :=
  if status = STATUS_NEW ∨ (status = STATUS_KEEP ∧ rest.head? = some NETWORK_UDP) then
    (decodeNetwork rest).map some
  else .ok none

def decodeMeta : List UInt8 → Except Error FrameMeta
  | s0 :: s1 :: status :: option :: rest =>
    if status = STATUS_END ∧ hasData option then
      .error ⟨.invalidData, str "mux.cool: End frame with data option"⟩
    else
      (decodeDest status rest).map fun dest =>
        { sessionId := UInt16.ofNat (ofU16be s0 s1), status, option, dest }
  | _ => .error ⟨.invalidData, str "mux.cool: meta shorter than 4 bytes"⟩

/-! ### The frames of a server -/

/-- An address as it stands on the wire. -/
inductive Address where
  | ipv4 (a b c d : UInt8)
  | ipv6 (octets : List UInt8) (h : octets.length = 16)
  | domain (name : List UInt8) (h : name.length ≤ 255)

/-- The bytes of an address. -/
def Address.bytes : Address → List UInt8
  | ipv4 a b c d => [ATYPE_IPV4, a, b, c, d]
  | ipv6 octets _ => ATYPE_IPV6 :: octets
  | domain name _ => ATYPE_DOMAIN :: UInt8.ofNat name.length :: name

/-- The destination that an address is. -/
def Address.dest : Address → Dest
  | ipv4 a b c d => .ip (.v4 (BitVec.ofNat 32 (ofU32be a b c d)))
  | ipv6 octets _ => .ip (.v6 (BitVec.ofNat 128 (bigEndian octets)))
  | domain name _ => .domain name

/-- The statuses of the frames that a server sends: it never opens a stream. -/
inductive Status where
  | keep
  | close
  | keepAlive
  deriving DecidableEq

def Status.byte : Status → UInt8
  | keep => STATUS_KEEP
  | close => STATUS_END
  | keepAlive => STATUS_KEEPALIVE

/-- The meta bytes after the option: a UDP destination, and bytes that mean nothing. -/
def extraBytes (dest : Option (Address × UInt16)) (trailing : List UInt8) : List UInt8 :=
  match dest with
  | none => trailing
  | some (address, port) => NETWORK_UDP :: (u16be port.toNat ++ (address.bytes ++ trailing))

/-- A frame that a server may send. -/
structure Frame where
  sessionId : UInt16
  status : Status
  option : UInt8
  dest : Option (Address × UInt16)
  trailing : List UInt8
  payload : List UInt8
  /-- The meta block is not too long. -/
  extra_le : (extraBytes dest trailing).length + 4 ≤ MAX_META
  /-- Without a destination the other bytes do not begin like one. -/
  no_dest : status = .keep → dest = none → trailing.head? ≠ some NETWORK_UDP
  /-- A frame that ends a stream has no payload. -/
  close_no_data : status = .close → hasData option = false
  payload_lt : payload.length < 65536

namespace Frame

variable (f : Frame)

/-- The meta block. -/
def metaBytes : List UInt8 :=
  u16be f.sessionId.toNat ++ ([f.status.byte, f.option] ++ extraBytes f.dest f.trailing)

/-- The payload and its length, when the option says that there is one. -/
def dataBytes : List UInt8 :=
  if hasData f.option then u16be f.payload.length ++ f.payload else []

/-- The bytes of the frame. -/
def wire : List UInt8 := u16be f.metaBytes.length ++ (f.metaBytes ++ f.dataBytes)

/-- What is decoded from the meta block: only a frame that carries data for a stream has a
destination. -/
def decoded : FrameMeta where
  sessionId := f.sessionId
  status := f.status.byte
  option := f.option
  dest := if f.status = .keep then f.dest.map fun (address, port) => (address.dest, port) else none

end Frame

open Address

/-- An address is read with its port, whatever follows it. -/
lemma parseAddress_bytes (address : Address) (port : UInt16) (trailing : List UInt8) :
    parseAddress (u16be port.toNat ++ (address.bytes ++ trailing)) = .ok (address.dest, port) := by
  have hport : UInt16.ofNat (ofU16be (ofNat (port.toNat / 256)) (ofNat port.toNat)) =
      port := by
    rw [ofU16be_u16be (UInt16.toNat_lt port), UInt16.ofNat_toNat]
  cases address with
  | ipv4 a b c d =>
    simp only [u16be, bytes, dest, cons_append, nil_append, parseAddress,
      hport, if_true]
  | ipv6 octets h =>
    simp only [u16be, bytes, dest, cons_append, nil_append, parseAddress, hport]
    rw [if_neg (by decide), if_pos trivial, if_neg (by rw [length_append]; omega), ← h, take_left]
  | domain name h =>
    have hlen : (ofNat name.length).toNat = name.length := by
      rw [toNat_ofNat']
      omega
    simp only [u16be, bytes, dest, cons_append, nil_append, parseAddress, hport]
    rw [if_neg (by decide), if_neg (by decide), if_pos trivial, hlen,
      if_neg (by rw [length_append]; omega), take_left]

/-- **The meta block of a frame is decoded.** -/
theorem Frame.decodeMeta_meta (f : Frame) : decodeMeta f.metaBytes = .ok f.decoded := by
  have hsid : UInt16.ofNat (ofU16be (ofNat (f.sessionId.toNat / 256))
      (ofNat f.sessionId.toNat)) = f.sessionId := by
    rw [ofU16be_u16be (UInt16.toNat_lt f.sessionId), UInt16.ofNat_toNat]
  have hclose : ¬ (f.status.byte = STATUS_END ∧ hasData f.option) := by
    rintro ⟨hstatus, hdata⟩
    have hend : f.status = .close := by
      cases hs : f.status <;> rw [hs] at hstatus <;> first | rfl | exact absurd hstatus (by decide)
    rw [f.close_no_data hend] at hdata
    cases hdata
  have hdest : decodeDest f.status.byte (extraBytes f.dest f.trailing) = .ok f.decoded.dest := by
    rw [decodeDest, decoded]
    cases hs : f.status with
    | keep =>
      cases hd : f.dest with
      | none =>
        rw [if_neg]
        · rfl
        · rintro (h | ⟨-, h⟩)
          · cases h
          · exact f.no_dest hs hd h
      | some p =>
        simp only [extraBytes, decodeNetwork]
        rw [parseAddress_bytes]
        rfl
    | close => rw [if_neg (by simp [Status.byte, STATUS_END, STATUS_NEW, STATUS_KEEP])]; rfl
    | keepAlive =>
      rw [if_neg (by simp [Status.byte, STATUS_KEEPALIVE, STATUS_NEW, STATUS_KEEP])]; rfl
  simp only [metaBytes, u16be, cons_append, nil_append, decodeMeta, hsid]
  rw [if_neg hclose, hdest]
  rfl

end Meow.Mux.Cool
