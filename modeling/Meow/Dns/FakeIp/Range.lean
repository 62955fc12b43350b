import Meow.Dns.FakeIp.Snapshot
import Meow.Net.Cidr

/-!
# The range of a fake-IP pool

A pool keeps its cursor in the range that `anchor_addrs` took from its network, whatever its store
holds. The range is a part of the network unless counting up to its first address passes the top of
the address space. Then a network that is too small is accepted, with a range far outside of it.

## Main definitions

* `CursorInv` — the cursor is in the range, or before it.

## Main results

* `CursorInv.step` — each operation keeps the cursor there.
* `pool_inside_iff` — for which networks a pool stays inside of its network.
-/

namespace Meow.Dns

variable {C : Type → Type → Type} [LruCache C] {json : Json} {net : IpNet} {p : Pool C json}

/-- The part of a pool that tells what it hands out next. -/
structure CursorInv (net : IpNet) (p : Pool C json) : Prop where
  ipnet : p.ipnet = net
  anchors : anchorAddrs net = .ok (p.gateway, p.first, p.last)
  cursor : nextAddr p.offset = p.first ∨ containedInRange p.offset p.first p.last = true

/-- An allocation gives an address of the range. -/
lemma CursorInv.allocate (h : CursorInv net p) (host : Str) (saves : Saves) :
    CursorInv net (p.allocate host saves).2 ∧
      containedInRange (p.allocate host saves).1 p.first p.last = true :=
  have hcand := containedInRange_allocate h.anchors h.cursor host saves
  ⟨⟨h.ipnet, h.anchors, .inr hcand⟩, hcand⟩

/-- Each operation keeps the cursor in the range, and the range as it is. -/
lemma CursorInv.step (h : CursorInv net p) (op : PoolOp) : CursorInv net (p.step op) := by
  cases op with
  | lookup host saves =>
    have h' : CursorInv net { p with store := (p.store.getByHost (toAsciiLowercase host)).2 } :=
      ⟨h.ipnet, h.anchors, h.cursor⟩
    simp only [Pool.step, Pool.lookup]
    cases (p.store.getByHost (toAsciiLowercase host)).1 with
    | some existing => exact h'
    | none => exact (h'.allocate _ saves).1
  | lookBack ip =>
    simp only [Pool.step, Pool.lookBack]
    split_ifs <;> exact ⟨h.ipnet, h.anchors, h.cursor⟩
  | flush saves => exact ⟨h.ipnet, h.anchors, .inl (nextAddr_prevAddr p.first)⟩
  | persist ok => exact ⟨h.ipnet, h.anchors, h.cursor⟩
  | restart clean =>
    simp only [Pool.step, Pool.restart]
    generalize (if clean then p.store.persist true else p.store).reopen = store
    cases hnew : Pool.new p.ipnet store with
    | error => exact h
    | ok p' =>
      obtain ⟨hipnet, hanchors, hcursor, -⟩ := Pool.new_spec (h.ipnet ▸ hnew)
      exact ⟨hipnet, hanchors, hcursor⟩

lemma CursorInv.run (h : CursorInv net p) (ops : List PoolOp) : CursorInv net (p.run ops) :=
  List.foldlRecOn ops _ h fun _ h op _ => h.step op

/-- If counting up from the network's address passes the top, a network is accepted, and the first
address to hand out is not in it. -/
lemma anchorAddrs_of_top (htop : 2 ^ net.network.width ≤ net.network.toNat + 4) :
    ∃ gateway first last, anchorAddrs net = .ok (gateway, first, last) ∧
      net.contains first = false := by
  have hfirst := toNat_nextAddr_four net.network
  have hlt := net.network.toNat_lt
  have hwide : 8 < 2 ^ net.network.width := by cases net.network <;> simp [IpAddr.width]
  have hmod : (net.network.toNat + 4) % 2 ^ net.network.width =
      net.network.toNat + 4 - 2 ^ net.network.width := by
    rw [Nat.mod_eq_sub_mod htop, Nat.mod_eq_of_lt (by omega)]
  have hlast : net.network.toNat ≤ net.broadcast.toNat := net.broadcast_eq ▸ Nat.le_add_right _ _
  generalize hf : nextAddr (nextAddr (nextAddr (nextAddr net.network))) = first at hfirst
  have hfam : first.isIpv4 = net.network.isIpv4 := by simp [← hf]
  have hless : addrLess first net.broadcast :=
    (addrLess_iff _ _).mpr ⟨hfam.trans net.family.symm, by omega⟩
  refine ⟨nextAddr net.network, first, net.broadcast, ?_, ?_⟩
  · simp [anchorAddrs, hf, hless, hfam, net.family]
  · rw [← Bool.not_eq_true, net.contains_iff]
    rintro ⟨-, hle, -⟩
    omega

/-- **Which pools stay inside of their network.** A network is rejected, or its gateway, first and
last address lie inside of it in this order and so does every address that is ever allocated, for
every store and every series of operations, exactly if counting up from the network's address to the
first address to hand out does not pass the top of the address space. -/
theorem pool_inside_iff (net : IpNet) :
    (∀ (store : Store C json) (p : Pool C json), Pool.new net store = .ok p →
      net.contains p.gateway = true ∧ net.contains p.first = true ∧ net.contains p.last = true ∧
        addrLess p.gateway p.first = true ∧ addrLess p.first p.last = true ∧
        ∀ ops host saves, net.contains ((p.run ops).allocate host saves).1 = true) ↔
      net.network.toNat + 4 < 2 ^ net.network.width := by
  constructor
  · intro hinside
    by_contra htop
    obtain ⟨gateway, first, last, hanchors, hout⟩ := anchorAddrs_of_top (Nat.le_of_not_lt htop)
    obtain ⟨offset, cycle, hnew⟩ := exists_new hanchors (Backend.file.empty : Store C json)
    exact absurd ((hinside _ _ hnew).2.1) (by simp [hout])
  · intro htop store p hnew
    obtain ⟨hipnet, hanchors, hcursor, -⟩ := Pool.new_spec hnew
    have hrange := fun ip h => (containedInRange_iff_allocatable hanchors htop ip).mp h
    obtain ⟨hgateway, hfirst, hlast, hless⟩ := anchorAddrs_spec hanchors
    have halloc : Allocatable net p.first := by
      refine hrange _ ((containedInRange_iff ((addrLess_iff _ _).mp hless).1).mpr ?_)
      exact ⟨((addrLess_iff _ _).mp hless).1, le_rfl, ((addrLess_iff _ _).mp hless).2⟩
    have hnat : p.gateway.toNat = net.network.toNat + 1 := by
      rw [hgateway, toNat_nextAddr, Nat.mod_eq_of_lt (by omega)]
    have hfam : p.gateway.isIpv4 = net.network.isIpv4 := by rw [hgateway, isIpv4_nextAddr]
    have hle := halloc.2
    refine ⟨(net.contains_iff _).mpr ⟨hfam, by omega, by omega⟩, halloc.contains,
      (net.contains_iff _).mpr ⟨hlast ▸ net.family, by rw [hlast]; omega, by rw [hlast]⟩,
      (addrLess_iff _ _).mpr ⟨hfam.trans halloc.1.symm, by omega⟩, hless, fun ops host saves => ?_⟩
    have h : CursorInv net (p.run ops) := CursorInv.run ⟨hipnet, hanchors, hcursor⟩ ops
    exact ((containedInRange_iff_allocatable h.anchors htop _).mp
      (h.allocate host saves).2).contains

/-- The network `255.255.255.255/32`. -/
def topNet : IpNet := Cidr.net ⟨.v4 0xFFFFFFFF, 32, le_rfl⟩

/-- **A network of one address is accepted** at the top of the address space, with a range from
`0.0.0.3` on. -/
theorem topNet_accepted :
    anchorAddrs topNet = .ok (.v4 0, .v4 3, .v4 0xFFFFFFFF) ∧
      topNet.contains (.v4 0) = false ∧ topNet.contains (.v4 3) = false := by
  refine ⟨rfl, ?_, ?_⟩ <;> decide +kernel

end Meow.Dns
