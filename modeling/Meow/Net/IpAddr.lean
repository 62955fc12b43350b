import Mathlib.Data.BitVec
import Meow.Lib.Bytes

/-!
# Internet addresses

Addresses of the two families and networks of them. An `ipnet::IpNet` is known by what the
program asks of it, with the meaning that the notation of an address and a number of fixed bits
has.

## Main definitions

* `IpAddr` — `std::net::IpAddr`.
* `IpNet` — `ipnet::IpNet`.
-/

namespace Meow

/-- `IpAddr`: an address of either family as its number. -/
inductive IpAddr where
  | v4 (n : BitVec 32)
  | v6 (n : BitVec 128)
  deriving DecidableEq

namespace IpAddr

/-- `IpAddr::is_ipv4`. -/
def isIpv4 : IpAddr → Bool
  | v4 _ => true
  | v6 _ => false

/-- The number of bits of the address's family. -/
def width : IpAddr → ℕ
  | v4 _ => 32
  | v6 _ => 128

/-- `u32::from` or `u128::from`. -/
def toNat : IpAddr → ℕ
  | v4 n => n.toNat
  | v6 n => n.toNat

variable (ip : IpAddr)

lemma toNat_lt : ip.toNat < 2 ^ ip.width := by
  cases ip with
  | v4 n | v6 n => exact n.isLt

/-- `octets`. -/
def octets (ip : IpAddr) : List UInt8 :=
  (List.range (ip.width / 8)).reverse.map fun i => UInt8.ofNat (ip.toNat / 256 ^ i)

lemma length_octets : ip.octets.length = ip.width / 8 := by simp [octets]

lemma bigEndian_octets : bigEndian ip.octets = ip.toNat := by
  rw [octets, bigEndian_digits]
  refine Nat.mod_eq_of_lt (ip.toNat_lt.trans_eq ?_)
  cases ip <;> norm_num [width]

lemma width_eq_of_isIpv4 {a b : IpAddr} (h : a.isIpv4 = b.isIpv4) : a.width = b.width := by
  cases a <;> cases b <;> simp_all [isIpv4, width]

end IpAddr

/-- `ipnet::IpNet`: the addresses of one family that agree in all but their last `hostBits`
bits. -/
structure IpNet where
  /-- The number of bits that are not fixed. -/
  hostBits : ℕ
  /-- `IpNet::network`: the lowest address. -/
  network : IpAddr
  /-- `IpNet::broadcast`: the highest address. -/
  broadcast : IpAddr
  /-- `IpNet::contains`. -/
  contains : IpAddr → Bool
  hostBits_le : hostBits ≤ network.width
  family : broadcast.isIpv4 = network.isIpv4
  aligned : 2 ^ hostBits ∣ network.toNat
  broadcast_eq : broadcast.toNat = network.toNat + (2 ^ hostBits - 1)
  contains_iff : ∀ ip, contains ip = true ↔ ip.isIpv4 = network.isIpv4 ∧
    network.toNat ≤ ip.toNat ∧ ip.toNat ≤ broadcast.toNat

end Meow
