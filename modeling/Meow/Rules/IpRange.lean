import Meow.Lib.AlignedBlocks
import Meow.Lib.Panic
import Meow.Net.ParseIp

/-!
# Address ranges as prefixes

An upstream ip-cidr set stores ranges of addresses, and the rule set it is loaded into wants
networks. `push_v4_range` and `push_v6_range` of `mrs_parser.rs` cut a range into networks: each
turn takes the largest aligned block that starts at the lower end and goes on behind it. The two are
one loop, over addresses of 32 and of 128 bits; the former measures what is left in a wider integer.
The arithmetic can overflow at the ends of the address space, so it is modelled with the overflow as
an outcome.

## Main definitions

* `rangeStep`, `rangeLoop` — a turn of the loop, and the loop.
* `pushV4Range`, `pushV6Range` — the two functions.
* `AddrPrefix`, `IsMinimalCover` — networks, and what a list of them should be for a range.

## Main results

* `rangeLoop_eq` — the loop ends, without an overflow, with a greedy list of blocks.
* `pushRange_minimalCover` — the networks that are pushed.
-/

namespace Meow.Rules

open List Except Nat

open Aligned (Block Greedy blockAt leadingZeros)

/-! ### The loop of the source -/

def saturatingAdd {w : ℕ} (a : BitVec w) (n : ℕ) : BitVec w :=
  BitVec.ofNat w (min (a.toNat + n) (2 ^ w - 1))

/-- A turn of the loop at `start`: the network that is pushed, and where the next turn starts unless
the loop is left. What is left of the range is measured in an integer of `wide` bits. -/
def rangeStep {w : ℕ} (wide : ℕ) (start stop : BitVec w) :
    Except Panic ((BitVec w × ℕ) × Option (BitVec w)) := do
  let maxSize := Aligned.trailingZeros w start.toNat
  let distance ← checkedSub stop.toNat start.toNat
  let remaining ← checkedAdd wide distance 1
  let floorLog ← checkedSub (wide - 1) (leadingZeros wide remaining)
  let blockBits := min maxSize floorLog
  let prefixLen ← checkedSub w blockBits
  let step ← checkedShl w blockBits
  if remaining = step then
    return ((start, prefixLen), none)
  else
    return ((start, prefixLen), some (saturatingAdd start step))

variable {w wide : ℕ}

open BitVec Aligned

/-- A turn inside the range takes the largest block. -/
lemma rangeStep_eq {start stop : BitVec w} (hle : start ≤ stop) : rangeStep wide start stop =
      if stop.toNat + 1 - start.toNat < 2 ^ wide ∧
          (blockAt w start.toNat (stop.toNat + 1)).bits < w then
        .ok ((start, w - (blockAt w start.toNat (stop.toNat + 1)).bits),
          if (blockAt w start.toNat (stop.toNat + 1)).stop = stop.toNat + 1 then none
          else some (BitVec.ofNat w (blockAt w start.toNat (stop.toNat + 1)).stop))
      else .error .arithmeticOverflow := by
  have hle' : start.toNat ≤ stop.toNat := hle
  have hstop := stop.isLt
  have hlargest := isLargest_blockAt (show start.toNat < stop.toNat + 1 by omega) hstop
  set b := blockAt w start.toNat (stop.toNat + 1) with hb
  have hremaining : stop.toNat - start.toNat + 1 = stop.toNat + 1 - start.toNat := by omega
  set remaining := stop.toNat + 1 - start.toNat with hrem
  rw [rangeStep, checkedSub_of_le hle']
  by_cases hwide : remaining < 2 ^ wide
  · have hsize : remaining.size ≤ wide := size_le.mpr hwide
    have hpos : 0 < remaining.size := size_pos.mpr (by omega)
    have hlog : checkedSub (wide - 1) (leadingZeros wide remaining) = .ok (remaining.size - 1) := by
      rw [checkedSub_of_le (by unfold leadingZeros; omega)]
      unfold leadingZeros
      congr 1
      omega
    have hbits : min (Aligned.trailingZeros w start.toNat) (remaining.size - 1) = b.bits := rfl
    simp only [bind, Except.bind, checkedAdd, hremaining, if_pos hwide, hlog, hbits]
    by_cases hw : b.bits < w
    · have hstep : remaining = 2 ^ b.bits ↔ b.stop = stop.toNat + 1 := by
        rw [Block.stop, hlargest.start_eq]
        omega
      have hnext : saturatingAdd start (2 ^ b.bits) = BitVec.ofNat w b.stop ∨
          b.stop = stop.toNat + 1 := by
        by_cases hend : b.stop = stop.toNat + 1
        · exact .inr hend
        · refine .inl (congrArg (BitVec.ofNat w) ?_)
          have hstopLe := hlargest.stop_le
          rw [Block.stop, hlargest.start_eq] at hstopLe hend ⊢
          omega
      rw [checkedSub_of_le hw.le, checkedShl_of_lt hw, if_pos ⟨hwide, hw⟩]
      simp only [hstep]
      split_ifs with hend
      · rfl
      · rw [hnext.resolve_right hend]
        rfl
    · rw [if_neg (fun h => hw h.2)]
      unfold checkedSub checkedShl
      split_ifs <;> rfl
  · rw [if_neg (fun h => hwide h.1)]
    simp only [bind, Except.bind, checkedAdd, hremaining, if_neg hwide]

variable {p : BitVec w × ℕ}

/-- The next turn starts further up. -/
lemma rangeStep_lt {start stop next : BitVec w} (hle : start ≤ stop)
    (h : rangeStep wide start stop = .ok (p, some next)) : start.toNat < next.toNat := by
  have hle' : start.toNat ≤ stop.toNat := hle
  have hstop := stop.isLt
  have hlargest := isLargest_blockAt (show start.toNat < stop.toNat + 1 by omega) hstop
  have hlt := (blockAt w start.toNat (stop.toNat + 1)).start_lt_stop
  have hstopLe := hlargest.stop_le
  rw [rangeStep_eq hle] at h
  split_ifs at h with hok hend
  · cases h
  · cases h
    rw [toNat_ofNat, mod_eq_of_lt (by omega)]
    exact hlt

/-- The `while` loop: the networks it pushes. -/
def rangeLoop {w : ℕ} (wide : ℕ) (start stop : BitVec w) : Except Panic (List (BitVec w × ℕ)) :=
  if hle : start ≤ stop then
    match hstep : rangeStep wide start stop with
    | .error e => .error e
    | .ok (p, none) => .ok [p]
    | .ok (p, some next) =>
      have := rangeStep_lt hle hstep
      (rangeLoop wide next stop).map (p :: ·)
  else .ok []
termination_by 2 ^ w - start.toNat

/-- The loop is left behind the block that ends at the upper end. -/
lemma rangeLoop_of_none {start stop} (hle : start ≤ stop)
    (hstep : rangeStep wide start stop = .ok (p, none)) : rangeLoop wide start stop = .ok [p] := by
  rw [rangeLoop, dif_pos hle]
  split
  · simp_all only [reduceCtorEq]
  · simp_all only [ok.injEq, Prod.mk.injEq, and_true]
  · simp_all only [ok.injEq, Prod.mk.injEq, reduceCtorEq, and_false]

/-- The loop goes on behind every other block. -/
lemma rangeLoop_of_some {start stop next} (hle : start ≤ stop)
    (hstep : rangeStep wide start stop = .ok (p, some next)) :
    rangeLoop wide start stop = (rangeLoop wide next stop).map (p :: ·) := by
  rw [rangeLoop, dif_pos hle]
  split
  · simp_all only [reduceCtorEq]
  · simp_all only [ok.injEq, Prod.mk.injEq, reduceCtorEq, and_false]
  · simp_all only [ok.injEq, Prod.mk.injEq, Option.some.injEq]

/-- `format!("{}/{}", Ipv4Addr::from(start), prefix)` -/
def v4Text (p : BitVec 32 × ℕ) : Str := displayIpv4 p.1.toNat ++ '/' :: natToStr p.2

/-- `format!("{}/{}", Ipv6Addr::from(start), prefix)` -/
def v6Text (p : BitVec 128 × ℕ) : Str := displayIpv6 p.1.toNat ++ '/' :: natToStr p.2

def pushV4Range (lo hi : BitVec 32) (out : List Str) : Except Panic (List Str) :=
  if lo = 0 ∧ hi = BitVec.allOnes 32 then .ok (out ++ [str "0.0.0.0/0"])
  else (rangeLoop 64 lo hi).map fun ps => out ++ ps.map v4Text

def pushV6Range (lo hi : BitVec 128) (out : List Str) : Except Panic (List Str) :=
  if lo = 0 ∧ hi = BitVec.allOnes 128 then .ok (out ++ [str "::/0"])
  else (rangeLoop 128 lo hi).map fun ps => out ++ ps.map v6Text

/-! ### Networks that cover a range -/

/-- A network: an address of which only the first `len` bits may be set. -/
structure AddrPrefix (w : ℕ) where
  addr : BitVec w
  len : ℕ
  len_le : len ≤ w
  aligned : 2 ^ (w - len) ∣ addr.toNat

namespace AddrPrefix

/-- The address agrees with the network in the first `len` bits. -/
def Contains (p : AddrPrefix w) (a : BitVec w) : Prop :=
  a.toNat / 2 ^ (w - p.len) = p.addr.toNat / 2 ^ (w - p.len)

/-- What is written of a network. -/
def raw (p : AddrPrefix w) : BitVec w × ℕ := (p.addr, p.len)

/-- The numbers of the addresses. -/
def block (p : AddrPrefix w) : Block := ⟨p.addr.toNat, w - p.len, p.aligned⟩

lemma contains_iff (p : AddrPrefix w) (a : BitVec w) : p.Contains a ↔ p.block.Contains a.toNat :=
  Iff.rfl

/-- A network stays inside the address space. -/
lemma lt_of_contains_block {p : AddrPrefix w} {n} (h : p.block.Contains n) : n < 2 ^ w := by
  have hpow : 2 ^ w = 2 ^ (w - p.len) * 2 ^ p.len := by
    rw [← pow_add, Nat.sub_add_cancel p.len_le]
  have haddr : p.addr.toNat / 2 ^ (w - p.len) < 2 ^ p.len :=
    Nat.div_lt_of_lt_mul (hpow ▸ p.addr.isLt)
  have hn : n / 2 ^ (w - p.len) < 2 ^ p.len := (show n / 2 ^ (w - p.len) = _ from h).trans_lt haddr
  rw [hpow]
  exact (Nat.div_lt_iff_lt_mul (Nat.two_pow_pos _)).mp hn |>.trans_eq (Nat.mul_comm _ _)

end AddrPrefix

/-- The networks cover exactly the addresses from `lo` to `hi`, in increasing order and without an
overlap, and no list of networks that covers the range is shorter. -/
structure IsMinimalCover {w : ℕ} (ps : List (AddrPrefix w)) (lo hi : BitVec w) : Prop where
  disjoint : ps.Pairwise fun p q => ∀ a, ¬(p.Contains a ∧ q.Contains a)
  increasing : ps.Pairwise fun p q => ∀ a b, p.Contains a → q.Contains b → a < b
  union : ∀ a, (∃ p ∈ ps, p.Contains a) ↔ lo ≤ a ∧ a ≤ hi
  least : ∀ qs : List (AddrPrefix w), (∀ a, (∃ q ∈ qs, q.Contains a) ↔ lo ≤ a ∧ a ≤ hi) →
    ps.length ≤ qs.length

open AddrPrefix

/-- A cover of a range of addresses covers the numbers of the addresses. -/
lemma exists_block_iff {w} {ps : List (AddrPrefix w)} {lo hi : BitVec w}
    (h : ∀ a, (∃ p ∈ ps, p.Contains a) ↔ lo ≤ a ∧ a ≤ hi) (n : ℕ) :
    (∃ b ∈ ps.map block, b.Contains n) ↔ lo.toNat ≤ n ∧ n < hi.toNat + 1 := by
  by_cases hn : n < 2 ^ w
  · have ha := h (BitVec.ofNat w n)
    have hto : (BitVec.ofNat w n).toNat = n := by rw [BitVec.toNat_ofNat, mod_eq_of_lt hn]
    simp only [contains_iff, le_def, hto] at ha
    simp only [mem_map, exists_exists_and_eq_and, ha]
    omega
  · refine ⟨?_, fun h => by omega⟩
    rintro ⟨b, hb, hbn⟩
    obtain ⟨p, _, rfl⟩ := mem_map.mp hb
    exact absurd (lt_of_contains_block hbn) hn

/-- Greedy lists of networks are minimal covers. -/
lemma isMinimalCover_of_greedy {w} {ps : List (AddrPrefix w)} {lo hi : BitVec w}
    (h : Greedy lo.toNat (hi.toNat + 1) (ps.map block)) : IsMinimalCover ps lo hi := by
  have hincreasing : ps.Pairwise fun p q => ∀ a b, p.Contains a → q.Contains b → a < b := by
    refine (pairwise_map.mp h.pairwise).imp ?_
    intro p q hpq a b ha hb
    have ha' := (p.block.contains_iff a.toNat).mp ha
    have hb' := (q.block.contains_iff b.toNat).mp hb
    rw [lt_def]
    omega
  refine ⟨hincreasing.imp ?_, hincreasing, ?_, ?_⟩
  · intro p q hpq a ha
    exact absurd (hpq a a ha.1 ha.2) (BitVec.lt_irrefl a)
  · intro a
    have hcover := h.contains_iff a.toNat
    simp only [mem_map, exists_exists_and_eq_and] at hcover
    simp only [contains_iff, hcover, le_def]
    omega
  · intro qs hqs
    have hle := h.length_le (exists_block_iff hqs)
    rwa [length_map, length_map] at hle

/-! ### What the loop pushes -/

/-- **The loop ends without an overflow** on every range but the whole address space, and what it
pushes is a greedy list of networks.

**Proof sketch.** By induction on what is left of the range. A turn takes the largest block, which
ends inside the range; where it ends at the upper end the loop is left, and otherwise the next turn
starts behind it, which is an address again. The shift by the size of the block is in range because
only the whole address space is a block of all bits. -/
lemma rangeLoop_eq (hwide : w ≤ wide) (start stop : BitVec w) (hle : start ≤ stop)
    (hproper : stop.toNat + 1 - start.toNat < 2 ^ w) :
    ∃ ps : List (AddrPrefix w), rangeLoop wide start stop = .ok (ps.map raw) ∧
      Greedy start.toNat (stop.toNat + 1) (ps.map block) := by
  induction hn : 2 ^ w - start.toNat using Nat.strong_induction_on generalizing start with
  | _ n ih =>
    have hle' : start.toNat ≤ stop.toNat := hle
    have hstop := stop.isLt
    have hlargest := isLargest_blockAt (show start.toNat < stop.toNat + 1 by omega) hstop
    have hstep : rangeStep wide start stop = _ := rangeStep_eq hle
    set b := blockAt w start.toNat (stop.toNat + 1)
    have hstart : b.start = start.toNat := hlargest.start_eq
    have hstopLe : b.stop ≤ stop.toNat + 1 := hlargest.stop_le
    have hbits : b.bits < w := by
      have hsize : 2 ^ b.bits < 2 ^ w := by
        rw [Block.stop] at hstopLe
        omega
      exact (Nat.pow_lt_pow_iff_right (by decide)).mp hsize
    have hroom : stop.toNat + 1 - start.toNat < 2 ^ wide :=
      hproper.trans_le (Nat.pow_le_pow_right (by decide) hwide)
    rw [if_pos ⟨hroom, hbits⟩] at hstep
    have hback : w - (w - b.bits) = b.bits := Nat.sub_sub_self hbits.le
    -- the network that is pushed
    set p : AddrPrefix w := ⟨start, w - b.bits, sub_le _ _, by
      rw [hback]
      exact b.aligned⟩
    have hblock : p.block = b := Block.ext hstart.symm hback
    by_cases hend : b.stop = stop.toNat + 1
    · rw [if_pos hend] at hstep
      refine ⟨[p], rangeLoop_of_none hle hstep, ?_⟩
      rw [map_singleton, hblock]
      refine Greedy.cons hlargest ?_
      rw [hend]
      exact Greedy.nil _
    · rw [if_neg hend] at hstep
      have hlt := b.start_lt_stop
      have hnext : (BitVec.ofNat w b.stop).toNat = b.stop := by
        rw [toNat_ofNat, mod_eq_of_lt (by omega)]
      obtain ⟨ps, hloop, hgreedy⟩ := ih _ (by omega) (BitVec.ofNat w b.stop)
        (by rw [le_def]; omega) (by omega) rfl
      refine ⟨p :: ps, ?_, ?_⟩
      · rw [rangeLoop_of_some hle hstep, hloop]
        rfl
      · rw [map_cons, hblock]
        rw [hnext] at hgreedy
        exact Greedy.cons hlargest hgreedy

/-- The whole address space is one network. -/
def everything (w : ℕ) : AddrPrefix w where
  addr := 0
  len := 0
  len_le := Nat.zero_le w
  aligned := by
    rw [show (0 : BitVec w).toNat = 0 from Nat.zero_mod _]
    exact dvd_zero _

lemma isMinimalCover_everything (w : ℕ) :
    IsMinimalCover [everything w] (0 : BitVec w) (allOnes w) := by
  have hzero : (0 : BitVec w).toNat = 0 := zero_mod _
  have hones : (allOnes w).toNat + 1 = 2 ^ w := by
    rw [toNat_allOnes, Nat.sub_add_cancel (Nat.two_pow_pos w)]
  have hstop : (everything w).block.stop = 2 ^ w := by
    show (0 : BitVec w).toNat + 2 ^ (w - 0) = 2 ^ w
    rw [hzero, Nat.zero_add, Nat.sub_zero]
  apply isMinimalCover_of_greedy
  rw [hzero, hones]
  refine Greedy.cons ⟨hzero, hstop.le, ?_⟩ ?_
  · intro c hstart hle
    rw [Block.stop, hstart, zero_add] at hle
    exact (Nat.pow_le_pow_iff_right (by decide)).mp hle
  · rw [hstop]
    exact Greedy.nil _

/-- Every range but the whole address space is left to the loop. -/
lemma proper_of_ne {w} {lo hi : BitVec w} (h : ¬(lo = 0 ∧ hi = allOnes w)) :
    hi.toNat + 1 - lo.toNat < 2 ^ w := by
  by_contra hfull
  refine h ⟨?_, ?_⟩
  · apply eq_of_toNat_eq
    rw [show (0 : BitVec w).toNat = 0 from zero_mod _]
    omega
  · apply eq_of_toNat_eq
    rw [toNat_allOnes]
    omega

/-- **A range becomes the fewest networks.** For addresses `lo ≤ hi` of either family, the ends of
the address space included, the conversion ends without an overflow and appends the texts of a list
of networks that are disjoint, in increasing order and together exactly the range; no list of
networks with the same union is shorter. -/
theorem pushRange_minimalCover :
    (∀ (lo hi : BitVec 32) (out : List Str), lo ≤ hi → ∃ ps : List (AddrPrefix 32),
      pushV4Range lo hi out = .ok (out ++ ps.map fun p => v4Text p.raw) ∧
        IsMinimalCover ps lo hi) ∧
    (∀ (lo hi : BitVec 128) (out : List Str), lo ≤ hi → ∃ ps : List (AddrPrefix 128),
      pushV6Range lo hi out = .ok (out ++ ps.map fun p => v6Text p.raw) ∧
        IsMinimalCover ps lo hi) := by
  constructor
  · intro lo hi out hle
    by_cases hfull : lo = 0 ∧ hi = allOnes 32
    · refine ⟨[everything 32], ?_, ?_⟩
      · rw [pushV4Range, if_pos hfull]
        rfl
      · rw [hfull.1, hfull.2]
        exact isMinimalCover_everything 32
    · obtain ⟨ps, hloop, hgreedy⟩ :=
        rangeLoop_eq (show 32 ≤ 64 by decide) lo hi hle (proper_of_ne hfull)
      refine ⟨ps, ?_, isMinimalCover_of_greedy hgreedy⟩
      rw [pushV4Range, if_neg hfull, hloop, Except.map, map_map]
      rfl
  · intro lo hi out hle
    by_cases hfull : lo = 0 ∧ hi = allOnes 128
    · refine ⟨[everything 128], ?_, ?_⟩
      · rw [pushV6Range, if_pos hfull]
        rfl
      · rw [hfull.1, hfull.2]
        exact isMinimalCover_everything 128
    · obtain ⟨ps, hloop, hgreedy⟩ := rangeLoop_eq le_rfl lo hi hle (proper_of_ne hfull)
      refine ⟨ps, ?_, isMinimalCover_of_greedy hgreedy⟩
      rw [pushV6Range, if_neg hfull, hloop, Except.map, map_map]
      rfl

/-- Ranges of both families that end at the last address. -/
theorem pushRange_minimalCover_last :
    (∃ ps : List (AddrPrefix 32),
      pushV4Range 0x0a000001 (BitVec.allOnes 32) [] = .ok (ps.map fun p => v4Text p.raw) ∧
        IsMinimalCover ps 0x0a000001 (BitVec.allOnes 32)) ∧
    ∃ ps : List (AddrPrefix 128),
      pushV6Range 1 (BitVec.allOnes 128) [] = .ok (ps.map fun p => v6Text p.raw) ∧
        IsMinimalCover ps 1 (BitVec.allOnes 128) :=
  ⟨pushRange_minimalCover.1 0x0a000001 (allOnes 32) [] (by decide),
    pushRange_minimalCover.2 1 (allOnes 128) [] (by decide)⟩

end Meow.Rules
