import Mathlib.Tactic

/-!
# Counters of bytes

A nonce that counts is a fixed number of bytes, the lowest first, and is incremented with a carry
that is lost at the end. The values of such a counter are distinct until it comes round.

## Main definitions

* `incrementBytes` — the increment.
* `counterAt` — the counter of a width after a number of increments.

## Main results

* `littleEndian_incrementBytes` — the increment is the successor, modulo the range.
* `nodup_counterAt` — the values of a counter are distinct within its range.
-/

namespace Meow

open List Function Nat

/-- The increment of a counter: the lowest byte is first, and the carry of the last is lost. -/
def incrementBytes : List UInt8 → List UInt8
  | [] => []
  | byte :: rest => if byte + 1 ≠ 0 then (byte + 1) :: rest else (byte + 1) :: incrementBytes rest

/-- The number that a counter stands for. -/
def littleEndian (bytes : List UInt8) : ℕ := Nat.ofDigits 256 (bytes.map UInt8.toNat)

lemma littleEndian_cons (byte : UInt8) (rest : List UInt8) :
    littleEndian (byte :: rest) = byte.toNat + 256 * littleEndian rest := ofDigits_cons

variable (bytes : List UInt8)

lemma littleEndian_lt : littleEndian bytes < 256 ^ bytes.length := by
  have h : ofDigits 256 (bytes.map UInt8.toNat) < 256 ^ (bytes.map UInt8.toNat).length := by
    refine ofDigits_lt_base_pow_length (by norm_num) (fun d hd => ?_)
    obtain ⟨byte, -, rfl⟩ := mem_map.mp hd
    exact byte.toNat_lt
  rwa [length_map] at h

@[simp] lemma length_incrementBytes : (incrementBytes bytes).length = bytes.length := by
  induction bytes with
  | nil => rfl
  | cons byte rest ih =>
    rw [incrementBytes]
    split_ifs
    · rfl
    · rw [length_cons, ih, length_cons]

/-- **The increment is the successor**, modulo the range of the counter.

**Proof sketch.** Induction on the bytes. A byte that does not come round takes the increment; one
that does becomes zero, and the carry is the increment of the rest. -/
lemma littleEndian_incrementBytes :
    littleEndian (incrementBytes bytes) = (littleEndian bytes + 1) % 256 ^ bytes.length := by
  induction bytes with
  | nil => rfl
  | cons byte rest ih =>
    have hbyte := byte.toNat_lt
    have hsucc : (byte + 1).toNat = (byte.toNat + 1) % 256 := by
      rfl
    rw [incrementBytes]
    split_ifs with hcarry
    · have hne : byte.toNat + 1 ≠ 256 := by
        intro h
        apply hcarry
        apply UInt8.toNat_inj.mp
        rw [hsucc, h]
        rfl
      have hrest := littleEndian_lt rest
      rw [littleEndian_cons, littleEndian_cons, hsucc, length_cons,
        mod_eq_of_lt (show byte.toNat + 1 < 256 by omega), mod_eq_of_lt (by omega)]
      omega
    · rw [not_not] at hcarry
      have heq : byte.toNat + 1 = 256 := by
        have := congrArg UInt8.toNat hcarry
        rw [UInt8.toNat_zero] at this
        omega
      rw [littleEndian_cons, littleEndian_cons, ih, hcarry, UInt8.toNat_zero, length_cons,
        pow_succ, mul_comm (256 ^ rest.length) 256,
        show byte.toNat + 256 * littleEndian rest + 1 = 256 * (littleEndian rest + 1) by omega,
        mul_mod_mul_left, zero_add]

/-- The counter of `width` bytes after `k` increments. -/
def counterAt (width k : ℕ) : List UInt8 := incrementBytes^[k] (List.replicate width 0)

@[simp] lemma length_counterAt (width k : ℕ) : (counterAt width k).length = width := by
  induction k with
  | zero => exact length_replicate
  | succ k ih => rw [counterAt, iterate_succ_apply', length_incrementBytes]; exact ih

lemma counterAt_zero (width : ℕ) : counterAt width 0 = replicate width 0 := rfl

lemma incrementBytes_counterAt (width k : ℕ) :
    incrementBytes (counterAt width k) = counterAt width (k + 1) :=
  (iterate_succ_apply' incrementBytes k (replicate width 0)).symm

lemma littleEndian_counterAt (width k : ℕ) :
    littleEndian (counterAt width k) = k % 256 ^ width := by
  induction k with
  | zero =>
    rw [counterAt_zero]
    induction width with
    | zero => rfl
    | succ width ih => rw [replicate_succ, littleEndian_cons, ih]; rfl
  | succ k ih =>
    rw [← incrementBytes_counterAt, littleEndian_incrementBytes, ih, length_counterAt,
      mod_add_mod]

/-- **The values of a counter are distinct** within its range. -/
lemma nodup_counterAt {width n} (hn : n ≤ 256 ^ width) :
    ((range n).map (counterAt width)).Nodup := by
  refine List.Nodup.map_on (fun i hi j hj heq => ?_) nodup_range
  have hvalue := congrArg littleEndian heq
  rw [mem_range] at hi hj
  rwa [littleEndian_counterAt, littleEndian_counterAt, mod_eq_of_lt (by omega),
    mod_eq_of_lt (by omega)] at hvalue

end Meow
