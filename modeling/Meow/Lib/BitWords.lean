import Mathlib.Tactic
import Mathlib.Data.Nat.Bitwise

/-!
# Bits in 64-bit words

A bit vector is kept in words of 64 bits, the bit `i` of the vector as the bit `i % 64` of the word
`i / 64`. Reasoning is about the list of all bits. This file relates the two, for the operations
rank and select are built from: the trailing zeros of a word, the ones in it, and the step
`w & (w - 1)` that takes the lowest one away.

## Main definitions

* `bitsOf` — the bits of a list of words.
* `trailingZeros`, `countOnes` — `u64::trailing_zeros` and `u64::count_ones`.

## Main results

* `filter_testBit_eq_cons` — the ones of a word are the lowest and those of `w & (w - 1)`.
* `getElem?_findIdxs_append` — where the `n`-th one of a bit vector stands.
-/

namespace Meow

open List Nat Option

/-- The bits of a word, the lowest first. -/
def wordBits (w : UInt64) : List Bool := (List.range 64).map w.toNat.testBit

/-- The bits of a list of words. -/
def bitsOf (words : List UInt64) : List Bool := words.flatMap wordBits

/-- `u64::trailing_zeros`. -/
def trailingZeros (w : UInt64) : ℕ := ((List.range 64).find? w.toNat.testBit).getD 64

/-- `u64::count_ones`. -/
def countOnes (w : UInt64) : ℕ := (List.range 64).countP w.toNat.testBit

variable (w : UInt64)

@[simp] lemma length_wordBits : (wordBits w).length = 64 := by
  rw [wordBits, length_map, length_range]

variable (words : List UInt64)

@[simp] lemma length_bitsOf : (bitsOf words).length = 64 * words.length := by
  induction words with
  | nil => rfl
  | cons w words ih =>
    rw [bitsOf, flatMap_cons, length_append, length_wordBits, ← bitsOf, length_cons]
    omega

lemma bitsOf_cons : bitsOf (w :: words) = wordBits w ++ bitsOf words := flatMap_cons

lemma bitsOf_append (words' : List UInt64) :
    bitsOf (words ++ words') = bitsOf words ++ bitsOf words' := flatMap_append

lemma getElem?_wordBits {i} (h : i < 64) : (wordBits w)[i]? = some (w.toNat.testBit i) := by
  rw [wordBits, getElem?_map, getElem?_range h]
  rfl

/-- A bit of the vector is a bit of a word. -/
lemma getElem?_bitsOf (i : ℕ) :
    (bitsOf words)[i]? = words[i / 64]?.map fun w => w.toNat.testBit (i % 64) := by
  induction words generalizing i with
  | nil => rfl
  | cons w words ih =>
    rw [bitsOf_cons]
    rcases lt_or_ge i 64 with h | h
    · rw [getElem?_append_left (by rwa [length_wordBits]), getElem?_wordBits w h,
        div_eq_of_lt h, mod_eq_of_lt h]
      rfl
    · rw [getElem?_append_right (by rwa [length_wordBits]), length_wordBits, ih,
        div_eq_sub_div (by norm_num) h, getElem?_cons_succ, ← mod_eq_sub_mod h]

variable {k : ℕ}

/-- The word with the bit `k` only. -/
lemma toNat_one_shiftLeft (h : k < 64) : ((1 : UInt64) <<< UInt64.ofNat k).toNat = 2 ^ k := by
  have hlt : 2 ^ k < 2 ^ 64 := Nat.pow_lt_pow_right (by norm_num) h
  rw [UInt64.toNat_shiftLeft, UInt64.toNat_ofNat', mod_eq_of_lt (by omega : k < 2 ^ 64),
    mod_eq_of_lt h, shiftLeft_eq]
  simpa using hlt

/-- A word and a mask of one bit. -/
lemma and_shiftLeft_ne_zero (h : k < 64) :
    w &&& (1 <<< UInt64.ofNat k) ≠ 0 ↔ w.toNat.testBit k = true := by
  have hmask := toNat_one_shiftLeft h
  rw [Ne, ← UInt64.toNat_inj, UInt64.toNat_and, hmask, and_two_pow]
  cases w.toNat.testBit k <;> simp

/-- A word and one more bit. -/
lemma testBit_or_shiftLeft (h : k < 64) (i : ℕ) :
    (w ||| (1 <<< UInt64.ofNat k)).toNat.testBit i = (decide (i = k) || w.toNat.testBit i) := by
  rw [UInt64.toNat_or, toNat_one_shiftLeft h, testBit_or, testBit_two_pow, Bool.or_comm]
  simp only [eq_comm]

/-- A word with the bits below `k` only. -/
lemma testBit_and_mask (h : k < 64) (i : ℕ) : (w &&& ((1 <<< UInt64.ofNat k) - 1)).toNat.testBit i =
      (w.toNat.testBit i && decide (i < k)) := by
  have hmask := toNat_one_shiftLeft h
  have hone : (1 : UInt64) ≤ 1 <<< UInt64.ofNat k := by
    rw [UInt64.le_iff_toNat_le, hmask]
    exact Nat.one_le_two_pow
  rw [UInt64.toNat_and, UInt64.toNat_sub_of_le _ _ hone, hmask, testBit_and]
  congr 1
  exact testBit_two_pow_sub_one k i

/-- `n & (n - 1)` is `n` without its lowest one. -/
lemma testBit_and_sub_one {n k : ℕ} (hk : n.testBit k)
    (hlow : ∀ j < k, n.testBit j = false) (i : ℕ) :
    (n &&& (n - 1)).testBit i = (n.testBit i && decide (i ≠ k)) := by
  -- `n` and `n - 1` agree above the lowest bit where that is a one, and otherwise the lowest bit
  -- of `n - 1` is a one and the rest is that of the half
  induction k generalizing n i with
  | zero =>
    rw [testBit_zero, decide_eq_true_eq] at hk
    cases i with
    | zero =>
      rw [testBit_and, testBit_zero (n - 1), decide_eq_false (by omega : ¬(n - 1) % 2 = 1)]
      simp
    | succ i =>
      rw [testBit_and, testBit_succ, testBit_succ, (by omega : (n - 1) / 2 = n / 2)]
      simp
  | succ k ih =>
    have hzero := hlow 0 k.succ_pos
    rw [testBit_zero, decide_eq_false_iff_not] at hzero
    cases i with
    | zero =>
      rw [testBit_and, testBit_zero n, decide_eq_false hzero]
      rfl
    | succ i =>
      have hhalf := ih (n := n / 2) (by rwa [testBit_succ] at hk)
        (fun j hj => by rw [← testBit_succ]; exact hlow (j + 1) (by omega)) i
      rw [testBit_and, testBit_succ, testBit_succ,
        (by omega : (n - 1) / 2 = n / 2 - 1), ← testBit_and, hhalf]
      simp

section

variable {w} (h : w ≠ 0)
include h

/-- Taking the lowest one away makes a word smaller. -/
lemma and_sub_one_lt : (w &&& (w - 1)).toNat < w.toNat := by
  have hpos : 0 < w.toNat := pos_of_ne_zero fun hzero => h (UInt64.toNat_inj.mp hzero)
  have hone : (1 : UInt64) ≤ w := by
    exact hpos
  rw [UInt64.toNat_and, UInt64.toNat_sub_of_le _ _ hone]
  calc w.toNat &&& (w.toNat - 1) ≤ w.toNat - 1 := and_le_right
    _ < w.toNat := sub_one_lt_of_lt hpos

/-- A word that is not zero has a one. -/
lemma exists_testBit : ∃ k ∈ range 64, w.toNat.testBit k = true := by
  by_contra hnone
  push Not at hnone
  refine h (UInt64.toNat_inj.mp (eq_of_testBit_eq fun i => ?_))
  rcases lt_or_ge i 64 with hi | hi
  · rw [Bool.eq_false_iff.mpr (hnone i (mem_range.mpr hi))]
    simp
  · rw [testBit_eq_false_of_lt ((UInt64.toNat_lt w).trans_le
      (Nat.pow_le_pow_right (by norm_num) hi))]
    simp

/-- **The ones of a word**: the lowest, and those of the word without it. -/
lemma filter_testBit_eq_cons : (range 64).filter w.toNat.testBit =
      trailingZeros w :: (range 64).filter (w &&& (w - 1)).toNat.testBit := by
  obtain ⟨k, hfind⟩ := isSome_iff_exists.mp
    (find?_isSome.mpr (exists_testBit h))
  obtain ⟨hk, front, back, hrange, hfront⟩ := find?_eq_some_iff_append.mp hfind
  have hnodup := nodup_range (n := 64)
  rw [hrange] at hnodup
  have hsorted := pairwise_lt_range (n := 64)
  rw [hrange] at hsorted
  have hlow : ∀ j < k, w.toNat.testBit j = false := by
    intro j hj
    have hmem : j ∈ range 64 := by
      have hk64 : k ∈ range 64 := by rw [hrange]; simp
      rw [mem_range] at hk64 ⊢
      omega
    rw [hrange, mem_append, mem_cons] at hmem
    rcases hmem with hmem | rfl | hmem
    · simpa using hfront j hmem
    · omega
    · have hlt := (pairwise_cons.mp (pairwise_append.mp hsorted).2.1).1 j hmem
      omega
  have hone : (1 : UInt64) ≤ w := by
    exact pos_of_ne_zero fun hzero => h (UInt64.toNat_inj.mp hzero)
  have hclear : (w &&& (w - 1)).toNat.testBit = fun i => w.toNat.testBit i && decide (i ≠ k) := by
    funext i
    rw [UInt64.toNat_and, UInt64.toNat_sub_of_le _ _ hone]
    exact testBit_and_sub_one hk hlow i
  have hsplit := nodup_append.mp hnodup
  have hback : k ∉ back := (nodup_cons.mp hsplit.2.1).1
  have hfront' : ∀ j ∈ front, w.toNat.testBit j = false := fun j hj => by simpa using hfront j hj
  have hnil : front.filter w.toNat.testBit = [] :=
    filter_eq_nil_iff.mpr fun j hj => by simp [hfront' j hj]
  have hnil' : front.filter (fun i => w.toNat.testBit i && decide (i ≠ k)) = [] :=
    filter_eq_nil_iff.mpr fun j hj => by simp [hfront' j hj]
  rw [trailingZeros, hfind, hclear, hrange, filter_append, filter_append,
    filter_cons_of_pos hk, filter_cons_of_neg (by simp), hnil, hnil']
  rw [nil_append, getD_some]
  congr 1
  refine filter_congr fun j hj => ?_
  have hne : j ≠ k := fun heq => hback (heq ▸ hj)
  simp [hne]

end

/-- The places of the ones in a word are the numbers of its bits that are one. -/
lemma findIdxs_wordBits (s : ℕ) :
    (wordBits w).findIdxs id s = ((range 64).filter w.toNat.testBit).map (s + ·) := by
  rw [wordBits, findIdxs_map, Function.id_comp]
  have hgen : ∀ n m s : ℕ, ((range' m n).findIdxs w.toNat.testBit s) =
      ((range' m n).filter w.toNat.testBit).map (fun i => s + (i - m)) := by
    intro n
    induction n with
    | zero => exact fun _ _ => rfl
    | succ n ih =>
      intro m s
      have htail : ((range' (m + 1) n).filter w.toNat.testBit).map
          (fun i => s + 1 + (i - (m + 1))) =
          ((range' (m + 1) n).filter w.toNat.testBit).map (fun i => s + (i - m)) := by
        refine map_congr_left fun i hi => ?_
        have hle := (mem_range'_1.mp (mem_filter.mp hi).1).1
        omega
      rw [range'_succ, findIdxs_cons, filter_cons, ih, htail]
      split_ifs
      · rw [map_cons, Nat.sub_self]
        rfl
      · rfl
  rw [range_eq_range', hgen]
  simp

/-- **Select**: the one after `front` is the one with as many before it as `front` has. -/
lemma getElem?_findIdxs_append (front back : List Bool) (s : ℕ) :
    ((front ++ true :: back).findIdxs id s)[front.countP id]? = some (s + front.length) := by
  induction front generalizing s with
  | nil => simp
  | cons b front ih =>
    rw [cons_append, findIdxs_cons, countP_cons, length_cons]
    cases b with
    | false =>
      simp only [id_eq, Bool.false_eq_true, if_false, add_zero]
      rw [ih, some.injEq]
      omega
    | true =>
      simp only [id_eq, if_true]
      rw [getElem?_cons_succ, ih, some.injEq]
      omega

end Meow
