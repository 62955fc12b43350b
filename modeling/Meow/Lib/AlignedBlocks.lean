import Mathlib.Tactic
import Mathlib.Data.Nat.Size

/-!
# Aligned blocks of a power of two

A block of `2 ^ k` consecutive numbers that starts at a multiple of `2 ^ k` is the set of the
numbers with a given quotient by `2 ^ k`. Two such blocks are nested or disjoint, which makes the
greedy way to cut an interval into blocks the best one: take the largest block that starts at the
lower end and fits, and go on behind it.

## Main definitions

* `Aligned.Block`, `Block.Contains` — aligned blocks.
* `Aligned.Block.IsLargest` — the largest block at the lower end of an interval.
* `Aligned.Greedy` — the lists of blocks that the greedy way gives.

## Main results

* `Aligned.Block.contains_of_bits_le` — blocks are nested or disjoint.
* `Aligned.isLargest_blockAt` — the largest block, from the zeros at the ends of two numbers.
* `Aligned.Greedy.contains_iff`, `Greedy.pairwise` — a greedy list covers its interval, in
  increasing order.
* `Aligned.Greedy.length_le` — no list of blocks that covers the interval is shorter.
-/

namespace Meow

open List Nat

namespace Aligned

/-- A block of `2 ^ bits` numbers. -/
@[ext]
structure Block where
  start : ℕ
  bits : ℕ
  aligned : 2 ^ bits ∣ start

namespace Block

/-- The number has the quotient of the block. -/
def Contains (b : Block) (n : ℕ) : Prop := n / 2 ^ b.bits = b.start / 2 ^ b.bits

instance (b : Block) (n : ℕ) : Decidable (b.Contains n) := Nat.decEq _ _

/-- The number behind the block. -/
def stop (b : Block) : ℕ := b.start + 2 ^ b.bits

variable (b : Block)

lemma start_lt_stop : b.start < b.stop := Nat.lt_add_of_pos_right (Nat.two_pow_pos _)

/-- A block is an interval. -/
lemma contains_iff (n : ℕ) : b.Contains n ↔ b.start ≤ n ∧ n < b.stop := by
  obtain ⟨q, hq⟩ := b.aligned
  have hpos : 0 < 2 ^ b.bits := Nat.two_pow_pos _
  rw [Contains, stop, hq, Nat.mul_div_cancel_left q hpos, Nat.div_eq_iff hpos, Nat.mul_comm q]
  omega

lemma contains_start : b.Contains b.start := rfl

/-- **Blocks are nested or disjoint**: a block that meets a larger one lies inside it. -/
lemma contains_of_bits_le {a b : Block} (hbits : a.bits ≤ b.bits) {n} (ha : a.Contains n)
    (hb : b.Contains n) {m} (hm : a.Contains m) : b.Contains m := by
  obtain ⟨d, hd⟩ := Nat.exists_eq_add_of_le hbits
  have hdiv : ∀ k : ℕ, k / 2 ^ b.bits = k / 2 ^ a.bits / 2 ^ d := by
    intro k
    rw [hd, pow_add, Nat.div_div_eq_div_mul]
  have hsame : m / 2 ^ a.bits = n / 2 ^ a.bits := Eq.trans hm (Eq.symm ha)
  calc m / 2 ^ b.bits = n / 2 ^ b.bits := by rw [hdiv m, hdiv n, hsame]
    _ = b.start / 2 ^ b.bits := hb

/-- The largest block that starts at `lo` and stays below `hi`. -/
structure IsLargest (b : Block) (lo hi : ℕ) : Prop where
  start_eq : b.start = lo
  stop_le : b.stop ≤ hi
  largest : ∀ c : Block, c.start = lo → c.stop ≤ hi → c.bits ≤ b.bits

end Block

/-! ### Counting zeros -/

/-- The number of zero bits at the lower end of an integer of so many bits. -/
def trailingZeros : ℕ → ℕ → ℕ
  | 0, _ => 0
  | w + 1, n => if n % 2 = 1 then 0 else trailingZeros w (n / 2) + 1

/-- The number of zero bits at the upper end of an integer of so many bits. -/
def leadingZeros (w n : ℕ) : ℕ := w - n.size

lemma two_pow_trailingZeros_dvd (w n : ℕ) : 2 ^ trailingZeros w n ∣ n := by
  induction w generalizing n with
  | zero => exact one_dvd n
  | succ w ih =>
    unfold trailingZeros
    split_ifs with hodd
    · exact one_dvd n
    · obtain ⟨q, hq⟩ := ih (n / 2)
      exact ⟨q, by rw [pow_succ, mul_right_comm, ← hq]; omega⟩

/-- Every power of two that fits and divides the number is found. -/
lemma le_trailingZeros {w n k} (hk : k ≤ w) (h : 2 ^ k ∣ n) : k ≤ trailingZeros w n := by
  induction w generalizing n k with
  | zero => exact hk
  | succ w ih =>
    cases k with
    | zero => exact zero_le _
    | succ k =>
      obtain ⟨q, rfl⟩ := h
      have heven : 2 ^ (k + 1) * q = 2 * (2 ^ k * q) := by ring
      have hhalf := ih (le_of_succ_le_succ hk) (Dvd.intro q rfl)
      rw [trailingZeros, heven, if_neg (by omega), Nat.mul_div_cancel_left _ (by decide)]
      exact succ_le_succ hhalf

/-- The block at `lo` that the zeros of `lo` and the length of the interval allow. -/
def blockAt (w lo hi : ℕ) : Block where
  start := lo
  bits := min (trailingZeros w lo) ((hi - lo).size - 1)
  aligned := (pow_dvd_pow 2 (Nat.min_le_left _ _)).trans (two_pow_trailingZeros_dvd w lo)

/-- The size of a block at `lo` is bounded by the length of the interval and by the zeros of `lo`
only. -/
lemma isLargest_blockAt {w lo hi} (hlt : lo < hi) (hhi : hi ≤ 2 ^ w) :
    (blockAt w lo hi).IsLargest lo hi where
  start_eq := rfl
  stop_le := by
    have hsize : 0 < (hi - lo).size := size_pos.mpr (by omega)
    have hfits : 2 ^ ((hi - lo).size - 1) ≤ hi - lo := lt_size.mp (by omega)
    have hbits : 2 ^ (blockAt w lo hi).bits ≤ 2 ^ ((hi - lo).size - 1) :=
      Nat.pow_le_pow_right (by decide) (Nat.min_le_right _ _)
    show lo + 2 ^ (blockAt w lo hi).bits ≤ hi
    omega
  largest := by
    intro c hstart hstop
    have hfits : 2 ^ c.bits ≤ hi - lo := by
      rw [Block.stop] at hstop
      omega
    have hw : c.bits ≤ w :=
      (Nat.pow_le_pow_iff_right (by decide)).mp (hfits.trans ((Nat.sub_le _ _).trans hhi))
    have hsize : c.bits < (hi - lo).size := lt_size.mpr hfits
    exact le_min (le_trailingZeros hw (hstart ▸ c.aligned)) (by omega)

/-! ### The greedy cover -/

/-- The blocks are found by taking the largest block again and again. -/
inductive Greedy : ℕ → ℕ → List Block → Prop
  | nil (hi : ℕ) : Greedy hi hi []
  | cons {lo hi : ℕ} {b : Block} {bs : List Block} (hb : b.IsLargest lo hi)
      (hbs : Greedy b.stop hi bs) : Greedy lo hi (b :: bs)

namespace Greedy

variable {lo hi : ℕ} {bs : List Block} (h : Greedy lo hi bs)
include h

/-- The blocks cover the interval. -/
lemma contains_iff (n : ℕ) : (∃ b ∈ bs, b.Contains n) ↔ lo ≤ n ∧ n < hi := by
  induction h with
  | nil hi =>
    simp only [not_mem_nil, false_and, exists_false, false_iff]
    omega
  | @cons lo hi b bs hb hbs ih =>
    have hstart := hb.start_eq
    have hstop := hb.stop_le
    have hlt := b.start_lt_stop
    simp only [mem_cons, exists_eq_or_imp, ih, b.contains_iff]
    omega

/-- The blocks stand in increasing order and do not overlap. -/
lemma pairwise : bs.Pairwise fun b c => b.stop ≤ c.start := by
  induction h with
  | nil hi => exact List.Pairwise.nil
  | @cons lo hi b bs hb hbs ih =>
    refine pairwise_cons.mpr ⟨?_, ih⟩
    intro c hc
    exact ((hbs.contains_iff c.start).mp ⟨c, hc, c.contains_start⟩).1

/-- **The greedy list is a shortest one.**

**Proof sketch.** Among the blocks of another cover, one contains the lower end; it starts there, so
it is not larger than the greedy block `b` and lies inside it. A block that meets `b` is either
inside it or, being larger, contains the lower end too, which the choice of `b` excludes. So
dropping the blocks inside `b` leaves a cover of what is behind `b`, with at least one block less.
-/
lemma length_le {cs : List Block} (hcs : ∀ n, (∃ c ∈ cs, c.Contains n) ↔ lo ≤ n ∧ n < hi) :
    bs.length ≤ cs.length := by
  induction h generalizing cs with
  | nil hi => exact zero_le _
  | @cons lo hi b bs hb hbs ih =>
    have hstart := hb.start_eq
    have hstop := hb.stop_le
    have hlt := b.start_lt_stop
    -- a block of the cover is inside the interval
    have hinside : ∀ c ∈ cs, lo ≤ c.start ∧ c.stop ≤ hi := by
      intro c hc
      have hlt' := c.start_lt_stop
      have h1 := (hcs c.start).mp ⟨c, hc, c.contains_start⟩
      have h2 := (hcs (c.stop - 1)).mp ⟨c, hc, (c.contains_iff _).mpr (by omega)⟩
      omega
    -- a block of the cover that meets `b` is inside `b`
    have hmeet : ∀ c ∈ cs, ∀ n, c.Contains n → b.Contains n → c.bits ≤ b.bits := by
      intro c hc n hcn hbn
      by_contra hlarger
      have hlo : c.Contains b.start :=
        Block.contains_of_bits_le (Nat.le_of_not_le hlarger) hbn hcn b.contains_start
      have hcstart : c.start = lo := by
        have h1 := (c.contains_iff _).mp hlo
        have h2 := (hinside c hc).1
        omega
      exact hlarger (hb.largest c hcstart (hinside c hc).2)
    set rest := cs.filter fun c => decide (b.stop ≤ c.start)
    have hrest : ∀ n, (∃ c ∈ rest, c.Contains n) ↔ b.stop ≤ n ∧ n < hi := by
      intro n
      constructor
      · rintro ⟨c, hc, hcn⟩
        obtain ⟨hc, hbc⟩ := mem_filter.mp hc
        have h1 := (c.contains_iff n).mp hcn
        have h2 := of_decide_eq_true hbc
        have h3 := (hinside c hc).2
        omega
      · rintro ⟨hbn, hn⟩
        obtain ⟨c, hc, hcn⟩ := (hcs n).mpr ⟨by omega, hn⟩
        refine ⟨c, mem_filter.mpr ⟨hc, decide_eq_true ?_⟩, hcn⟩
        by_contra hbc
        have hcb : b.Contains c.start := (b.contains_iff _).mpr (by
          have := (hinside c hc).1
          omega)
        have hbits := hmeet c hc c.start c.contains_start hcb
        have hbn' := Block.contains_of_bits_le hbits c.contains_start hcb hcn
        have := (b.contains_iff n).mp hbn'
        omega
    -- the block at the lower end is dropped
    obtain ⟨c, hc, hclo⟩ := (hcs lo).mpr ⟨le_refl _, by omega⟩
    have hdropped : rest.length < cs.length := by
      apply length_filter_lt_length_iff_exists.mpr
      refine ⟨c, hc, ?_⟩
      have h1 := (c.contains_iff lo).mp hclo
      simp only [decide_eq_true_eq]
      omega
    have hih := ih hrest
    rw [length_cons]
    omega

end Greedy

end Aligned

end Meow
