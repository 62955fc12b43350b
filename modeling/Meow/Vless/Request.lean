import Meow.Common.Metadata

/-!
# The VLESS request header

The first bytes that a VLESS client sends tell the server where to connect to. `vless/header.rs`
writes them from the metadata of the connection; `vless_adapter.rs` dials with them. The length of a
domain has one byte, and nothing on the way from the metadata to the wire looks whether the domain
fits: the check of `VlessAddr::domain` is not on it.

## Main definitions

* `encodeRequest`, `addrFromMetadata` — the encoder.
* `VlessAdapter.requestHeader` — the header of a connection.
* `decodeRequest` — what a server reads, by the layout of the protocol.

## Main results

* `requestHeader_decodes_iff` — the connections whose header is read as it is meant.
-/

namespace Meow.Vless

open List Option UInt8

/-! ### The client -/

inductive VlessAddr where
  | ipv4 (octets : List UInt8)
  | ipv6 (octets : List UInt8)
  | domain (name : Str)
  deriving DecidableEq

/-- `addr_from_metadata`: the host, or else the address. -/
def addrFromMetadata (m : Metadata) : VlessAddr :=
  if m.host ≠ [] then .domain m.host
  else
    match m.dstIp with
    | some (.v4 n) => .ipv4 (IpAddr.v4 n).octets
    | some (.v6 n) => .ipv6 (IpAddr.v6 n).octets
    | none => .domain []

/-- `Cmd`, without the command of a multiplexed session, which has no destination. -/
inductive Cmd where
  | tcp
  | udp
  deriving DecidableEq

def Cmd.byte : Cmd → UInt8
  | tcp => 0x01
  | udp => 0x02

inductive VlessFlow where
  | xtlsRprxVision
  deriving DecidableEq

/-- The name of a flow. -/
def VlessFlow.name : VlessFlow → Str
  | xtlsRprxVision => str "xtls-rprx-vision"

/-- `put_flow_addon`: the addon behind its length. -/
def putFlowAddon (flow : Option Str) : List UInt8 :=
  if flow = some (str "xtls-rprx-vision") then
    18 :: 0x0A :: 0x10 :: asBytes (str "xtls-rprx-vision")
  else [0]

open VlessAddr

/-- The address of a request. The length of a domain is cut off to a byte. -/
def VlessAddr.bytes : VlessAddr → List UInt8
  | ipv4 octets => 0x01 :: octets
  | ipv6 octets => 0x03 :: octets
  | domain name => 0x02 :: UInt8.ofNat (asBytes name).length :: asBytes name

def encodeRequest (uuidBytes : List UInt8) (flow : Option Str) (cmd : Cmd) (dstPort : UInt16)
    (addr : VlessAddr) : List UInt8 :=
  0x00 :: (uuidBytes ++ (putFlowAddon flow ++ (cmd.byte :: (u16be dstPort.toNat ++ addr.bytes))))

/-- `VlessAdapter`, with what its requests are made of. -/
structure VlessAdapter where
  uuidBytes : List UInt8
  flow : Option VlessFlow
  length_uuidBytes : uuidBytes.length = 16

/-- What `dial_tcp` and `dial_udp` send first: packets have no flow. -/
def VlessAdapter.requestHeader (self : VlessAdapter) (cmd : Cmd) (m : Metadata) : List UInt8 :=
  match cmd with
  | .tcp => encodeRequest self.uuidBytes (self.flow.map VlessFlow.name) .tcp m.dstPort
      (addrFromMetadata m)
  | .udp => encodeRequest self.uuidBytes none .udp m.dstPort (addrFromMetadata m)

/-! ### The layout of the protocol -/

/-- Where a connection goes to. -/
inductive Destination where
  | ip (ip : IpAddr)
  | domain (name : Str)
  deriving DecidableEq

/-- Where the metadata says that a connection goes to, if it says so. -/
def destination (m : Metadata) : Option Destination :=
  if m.host ≠ [] then some (.domain m.host) else m.dstIp.map .ip

/-- What a server reads in a request. -/
structure Request where
  uuid : List UInt8
  addon : List UInt8
  cmd : UInt8
  port : UInt16
  dest : Destination
  deriving DecidableEq

/-- A field of so many bytes, and what follows it. -/
def takeField (n : ℕ) (bytes : List UInt8) : Option (List UInt8 × List UInt8) :=
  if n ≤ bytes.length then some (bytes.take n, bytes.drop n) else none

/-- An address with its type. -/
def decodeAddr : List UInt8 → Option (Destination × List UInt8)
  | 0x01 :: bytes => (takeField 4 bytes).map fun (octets, bytes) =>
    (.ip (.v4 (BitVec.ofNat 32 (bigEndian octets))), bytes)
  | 0x02 :: len :: bytes => (takeField len.toNat bytes).bind fun (name, bytes) =>
    (fromUtf8 name).map fun name => (.domain name, bytes)
  | 0x03 :: bytes => (takeField 16 bytes).map fun (octets, bytes) =>
    (.ip (.v6 (BitVec.ofNat 128 (bigEndian octets))), bytes)
  | _ => none

/-- A request, and the payload behind it. -/
def decodeRequest (bytes : List UInt8) : Option (Request × List UInt8) := do
  let (version, bytes) ← takeField 1 bytes
  if version ≠ [0] then none
  else do
    let (uuid, bytes) ← takeField 16 bytes
    let (len, bytes) ← takeField 1 bytes
    let (addon, bytes) ← takeField (bigEndian len) bytes
    let (cmd, bytes) ← takeField 1 bytes
    let (port, bytes) ← takeField 2 bytes
    let (dest, bytes) ← decodeAddr bytes
    return (⟨uuid, addon, cmd.headD 0, UInt16.ofNat (bigEndian port), dest⟩, bytes)

/-! ### Reading what was written -/

lemma takeField_append {n} (field : List UInt8) (h : field.length = n) (rest : List UInt8) :
    takeField n (field ++ rest) = some (field, rest) := by
  subst h
  rw [takeField, if_pos (by simp), take_left, drop_left]

/-- In front of the address every field has the length that is read for it. -/
lemma decodeRequest_encodeRequest {uuid : List UInt8} (huuid : uuid.length = 16)
    (flow : Option Str) (cmd : Cmd) (port : UInt16) (addr : VlessAddr) :
    ∃ addon, ∀ payload, decodeRequest (encodeRequest uuid flow cmd port addr ++ payload) =
      (decodeAddr (addr.bytes ++ payload)).map fun (dest, rest) =>
        (⟨uuid, addon, cmd.byte, port, dest⟩, rest) := by
  obtain ⟨len, addon, hflow, hlen⟩ : ∃ len addon, putFlowAddon flow = [len] ++ addon ∧
      addon.length = bigEndian [len] := by
    unfold putFlowAddon
    split_ifs
    · exact ⟨18, _, rfl, by decide⟩
    · exact ⟨0, [], rfl, rfl⟩
  have hport : UInt16.ofNat (bigEndian (u16be port.toNat)) = port := by
    have hbytes : bigEndian (u16be port.toNat) = port.toNat := by
      have := port.toNat_lt
      simp only [bigEndian, u16be, foldl_cons, foldl_nil, toNat_ofNat']
      omega
    rw [hbytes, UInt16.ofNat_toNat]
  refine ⟨addon, fun payload => ?_⟩
  have hfields : encodeRequest uuid flow cmd port addr ++ payload = [0] ++ (uuid ++ ([len] ++
      (addon ++ ([cmd.byte] ++ (u16be port.toNat ++ (addr.bytes ++ payload)))))) := by
    simp [encodeRequest, hflow]
  rw [decodeRequest, hfields]
  simp only [takeField_append (n := 1) [_] rfl, takeField_append uuid huuid,
    takeField_append addon hlen, takeField_append _ (length_u16be port.toNat), hport,
    bind_eq_bind, bind_some, ne_eq, not_true]
  cases decodeAddr (addr.bytes ++ payload) <;> rfl

/-- A domain is read back if its length fits the byte. -/
lemma decodeAddr_domain {name} (payload : List UInt8) :
    decodeAddr ((domain name).bytes ++ payload) = some (.domain name, payload) ↔
      (asBytes name).length ≤ 255 := by
  have hlen : (ofNat (asBytes name).length).toNat = (asBytes name).length % 256 :=
    toNat_ofNat'
  simp only [bytes, cons_append, decodeAddr]
  constructor
  · intro h
    obtain ⟨⟨field, rest⟩, hfield, h⟩ := bind_eq_some_iff.mp h
    obtain ⟨name', -, h⟩ := map_eq_some_iff.mp h
    obtain ⟨rfl, rfl⟩ : name' = name ∧ rest = payload := by simpa using h
    -- what is left is the payload, so the whole domain was taken
    rw [takeField, ite_none_right_eq_some, some.injEq, Prod.mk.injEq] at hfield
    have hrest := congrArg length hfield.2.2
    rw [length_drop, length_append] at hrest
    omega
  · intro h
    rw [takeField_append _ (by omega), bind_some, fromUtf8_asBytes]
    rfl

/-- An address is read back. -/
lemma decodeAddr_octets (m : Metadata) {ip} (hhost : m.host = []) (hip : m.dstIp = some ip)
    (payload : List UInt8) :
    decodeAddr ((addrFromMetadata m).bytes ++ payload) = some (.ip ip, payload) := by
  have hlen := ip.length_octets
  have hvalue := ip.bigEndian_octets
  rw [addrFromMetadata, if_neg (not_not.mpr hhost), hip]
  cases ip with
  | v4 n | v6 n =>
    simp only [IpAddr.width] at hlen
    simp only [bytes, cons_append, decodeAddr]
    rw [takeField_append _ hlen, map_some, hvalue]
    simp [IpAddr.toNat]

/-- **The header tells the server where to connect to** exactly when there is something to tell
and a host has at most 255 bytes: then, whatever payload follows, a server reads the destination of
the metadata in it and the payload behind it. No other header is held back.

**Proof sketch.** In front of the address the fields are read as they were written
(`decodeRequest_encodeRequest`). An address has its length by its type, and a domain is taken as a
whole only if its length is that of the byte (`decodeAddr_domain`). -/
theorem requestHeader_decodes_iff (self : VlessAdapter) (cmd : Cmd) (m : Metadata) :
    (∃ dest addon, destination m = some dest ∧ ∀ payload,
      decodeRequest (self.requestHeader cmd m ++ payload) =
        some (⟨self.uuidBytes, addon, cmd.byte, m.dstPort, dest⟩, payload)) ↔
      (asBytes m.host).length ≤ 255 ∧ (m.host ≠ [] ∨ m.dstIp ≠ none) := by
  -- only the address is left to be read
  obtain ⟨addon, hread⟩ : ∃ addon, ∀ payload, decodeRequest (self.requestHeader cmd m ++ payload) =
      (decodeAddr ((addrFromMetadata m).bytes ++ payload)).map fun (dest, rest) =>
        (⟨self.uuidBytes, addon, cmd.byte, m.dstPort, dest⟩, rest) := by
    cases cmd <;> exact decodeRequest_encodeRequest self.length_uuidBytes _ _ _ _
  by_cases hhost : m.host = []
  · rw [destination, if_neg (not_not.mpr hhost)]
    cases hip : m.dstIp with
    | none => simp [hhost]
    | some ip =>
      refine ⟨fun _ => ⟨by simp [hhost, asBytes], .inr (by simp)⟩, fun _ =>
        ⟨.ip ip, addon, rfl, fun payload => ?_⟩⟩
      rw [hread, decodeAddr_octets m hhost hip]
      rfl
  · have haddr : addrFromMetadata m = .domain m.host := if_pos hhost
    rw [haddr] at hread
    rw [destination, if_pos hhost]
    constructor
    · rintro ⟨_, addon', ⟨⟩, h⟩
      refine ⟨?_, .inl hhost⟩
      have h' := h []
      rw [hread, map_eq_some_iff] at h'
      obtain ⟨⟨dest, rest⟩, haddr, heq⟩ := h'
      obtain ⟨⟨-, rfl⟩, rfl⟩ : (addon = addon' ∧ dest = .domain m.host) ∧ rest = [] := by
        simpa using heq
      exact (decodeAddr_domain []).mp haddr
    · rintro ⟨hlen, -⟩
      refine ⟨.domain m.host, addon, rfl, fun payload => ?_⟩
      rw [hread, (decodeAddr_domain payload).mpr hlen]
      rfl

/-- A host of 256 bytes: its length byte says that it is empty, and the host itself is read as the
payload. -/
theorem long_host_misread :
    (decodeRequest ((⟨List.replicate 16 7, none, rfl⟩ : VlessAdapter).requestHeader .tcp
      { host := List.replicate 256 'a', dstPort := 443 })) =
      some (⟨List.replicate 16 7, [], 1, 443, .domain []⟩, List.replicate 256 97) := by
  decide +kernel

end Meow.Vless
