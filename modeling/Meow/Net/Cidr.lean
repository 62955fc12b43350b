import Meow.Net.IpAddr

/-!
# Networks in the notation of an address and a prefix length

`ipnet::IpNet` as it is parsed: the address need not be the lowest of the network. What the network
contains is told by `IpNet`.

## Main definitions

* `Cidr` — the address and the prefix length.
* `Cidr.net` — the network.
-/

namespace Meow

/-- An address of the family of `ip`. -/
def IpAddr.ofNat (ip : IpAddr) (n : ℕ) : IpAddr :=
  match ip with
  | v4 _ => v4 (BitVec.ofNat 32 n)
  | v6 _ => v6 (BitVec.ofNat 128 n)

namespace IpAddr

lemma isIpv4_ofNat (ip : IpAddr) (n : ℕ) : (ip.ofNat n).isIpv4 = ip.isIpv4 := by
  cases ip <;> rfl

lemma toNat_ofNat {ip : IpAddr} {n} (h : n < 2 ^ ip.width) : (ip.ofNat n).toNat = n := by
  cases ip with
  | v4 _ => exact (BitVec.toNat_ofNat n 32).trans (Nat.mod_eq_of_lt h)
  | v6 _ => exact (BitVec.toNat_ofNat n 128).trans (Nat.mod_eq_of_lt h)

end IpAddr

/-- `ipnet::IpNet`, as it is written. -/
structure Cidr where
  addr : IpAddr
  prefixLen : ℕ
  prefixLen_le : prefixLen ≤ addr.width

namespace Cidr

/-- The number of bits that are not fixed. -/
def hostBits (self : Cidr) : ℕ := self.addr.width - self.prefixLen

/-- The lowest address of the network. -/
def lowest (self : Cidr) : ℕ := self.addr.toNat / 2 ^ self.hostBits * 2 ^ self.hostBits

/-- The highest address of the network. -/
def highest (self : Cidr) : ℕ := self.lowest + (2 ^ self.hostBits - 1)

/-- There is room for a whole network above its lowest address. -/
lemma highest_lt (self : Cidr) : self.highest < 2 ^ self.addr.width := by
  have hbits : self.prefixLen + self.hostBits = self.addr.width :=
    Nat.add_sub_cancel' self.prefixLen_le
  have hpow : 2 ^ self.addr.width = 2 ^ self.prefixLen * 2 ^ self.hostBits := by
    rw [← hbits, pow_add]
  have hpos : 0 < 2 ^ self.hostBits := Nat.two_pow_pos _
  have hblock : self.addr.toNat / 2 ^ self.hostBits < 2 ^ self.prefixLen := by
    rw [Nat.div_lt_iff_lt_mul hpos, ← hpow]
    exact self.addr.toNat_lt
  calc self.highest < self.lowest + 2 ^ self.hostBits := by
        unfold highest
        omega
    _ = (self.addr.toNat / 2 ^ self.hostBits + 1) * 2 ^ self.hostBits := by
        rw [lowest, Nat.add_mul, Nat.one_mul]
    _ ≤ 2 ^ self.prefixLen * 2 ^ self.hostBits := Nat.mul_le_mul_right _ hblock
    _ = 2 ^ self.addr.width := hpow.symm

lemma lowest_le_highest (self : Cidr) : self.lowest ≤ self.highest := Nat.le_add_right _ _

/-- The network that is written. -/
def net (self : Cidr) : IpNet where
  hostBits := self.hostBits
  network := self.addr.ofNat self.lowest
  broadcast := self.addr.ofNat self.highest
  contains ip := ip.isIpv4 == self.addr.isIpv4 &&
    decide (self.lowest ≤ ip.toNat) && decide (ip.toNat ≤ self.highest)
  hostBits_le := by
    rw [IpAddr.width_eq_of_isIpv4 (IpAddr.isIpv4_ofNat _ _)]
    exact Nat.sub_le _ _
  family := by rw [IpAddr.isIpv4_ofNat, IpAddr.isIpv4_ofNat]
  aligned := by
    rw [IpAddr.toNat_ofNat (self.lowest_le_highest.trans_lt self.highest_lt)]
    exact Nat.dvd_mul_left _ _
  broadcast_eq := by
    rw [IpAddr.toNat_ofNat self.highest_lt,
      IpAddr.toNat_ofNat (self.lowest_le_highest.trans_lt self.highest_lt), highest]
  contains_iff ip := by
    rw [IpAddr.toNat_ofNat self.highest_lt,
      IpAddr.toNat_ofNat (self.lowest_le_highest.trans_lt self.highest_lt), IpAddr.isIpv4_ofNat]
    simp [and_assoc]

/-- `IpNet::contains`. -/
def contains (self : Cidr) (ip : IpAddr) : Bool := self.net.contains ip

end Cidr

end Meow
