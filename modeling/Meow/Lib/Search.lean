import Mathlib.Tactic

/-!
# Binary search

`slice::binary_search_by`, as a loop over a range that is halved. On a list that the comparison
divides into a part below, one element that is equal at most, and a part above, it finds what a
scan finds.

## Main definitions

* `binarySearchBy` — the search.
* `Divided` — after an element that is not below, all are above.

## Main results

* `binarySearchBy_eq_find` — on a divided list the search finds what a scan finds.
-/

namespace Meow

open Option List

variable {α : Type}

/-- The loop of `binary_search_by`: the element looked for is among the `size` elements from
`base` on. Half of them go in each round, so that `size` rounds are enough. -/
def searchRange (cmp : α → Ordering) (l : List α) : ℕ → ℕ → ℕ → ℕ
  | 0, base, _ => base
  | fuel + 1, base, size =>
    if size ≤ 1 then base
    else
      let half := size / 2
      let mid := base + half
      searchRange cmp l fuel (if (l[mid]?).map cmp = some .gt then base else mid) (size - half)

/-- `slice::binary_search_by`: the index of an element that compares as equal. -/
def binarySearchBy (cmp : α → Ordering) (l : List α) : Option ℕ :=
  let base := searchRange cmp l l.length 0 l.length
  if (l[base]?).map cmp = some .eq then some base else none

/-- After an element that is not below, all are above. -/
def Divided (cmp : α → Ordering) (l : List α) : Prop :=
  l.Pairwise fun a b => cmp a ≠ .lt → cmp b = .gt

section Divided

variable {cmp : α → Ordering} {l : List α} (hdiv : Divided cmp l)

include hdiv

lemma Divided.gt_of_lt {i j : ℕ} {a b : α} (hij : i < j) (ha : l[i]? = some a)
    (hb : l[j]? = some b) (hle : cmp a ≠ .lt) : cmp b = .gt := by
  obtain ⟨hi, rfl⟩ := List.getElem?_eq_some_iff.mp ha
  obtain ⟨hj, rfl⟩ := List.getElem?_eq_some_iff.mp hb
  exact pairwise_iff_getElem.mp hdiv i j hi hj hij hle

/-- **The loop keeps the equal element.** If it is among the `size` elements from `base` on, the
loop ends at it.

**Proof sketch.** The element in the middle is above exactly when it comes after the one looked
for; the part that is kept has it, and is smaller. -/
lemma searchRange_eq {i : ℕ} {a : α} (ha : l[i]? = some a) (heq : cmp a = .eq) :
    ∀ fuel base size, size ≤ fuel + 1 → base ≤ i → i < base + size →
      base + size ≤ l.length → searchRange cmp l fuel base size = i := by
  intro fuel
  induction fuel with
  | zero =>
    intro base size hfuel hbase hsize hlen
    rw [searchRange]
    omega
  | succ fuel ih =>
    intro base size hfuel hbase hsize hlen
    rw [searchRange]
    split_ifs with hone
    · omega
    · have hmid : base + size / 2 < l.length := by omega
      by_cases hgt : (l[base + size / 2]?).map cmp = some .gt
      · -- the middle is above: the element is before it
        have hbefore : i < base + size / 2 := by
          by_contra hafter
          obtain ⟨b, hb, hcmp⟩ := map_eq_some_iff.mp hgt
          rcases Nat.eq_or_lt_of_le (not_lt.mp hafter) with hsame | hlt
          · rw [hsame, ha] at hb
            simp [← some.inj hb, heq] at hcmp
          · simpa [heq] using hdiv.gt_of_lt hlt hb ha (by simp [hcmp])
        simp only [if_pos hgt]
        exact ih base (size - size / 2) (by omega) hbase (by omega) (by omega)
      · -- the middle is not above: the element is not before it
        have hafter : base + size / 2 ≤ i := by
          by_contra hbefore
          refine hgt ?_
          rw [getElem?_eq_getElem hmid]
          exact congrArg some (hdiv.gt_of_lt (by omega) ha (getElem?_eq_getElem hmid)
            (by simp [heq]))
        simp only [if_neg hgt]
        exact ih (base + size / 2) (size - size / 2) (by omega) hafter (by omega) (by omega)

/-- **The search finds what a scan finds.** -/
theorem binarySearchBy_eq_find :
    (binarySearchBy cmp l).bind (l[·]?) = l.find? fun a => cmp a = .eq := by
  by_cases hex : ∃ a ∈ l, cmp a = .eq
  · obtain ⟨a, hmem, heq⟩ := hex
    obtain ⟨i, ha⟩ := mem_iff_getElem?.mp hmem
    obtain ⟨hi, hget⟩ := List.getElem?_eq_some_iff.mp ha
    have hrange : searchRange cmp l l.length 0 l.length = i :=
      searchRange_eq hdiv ha heq _ _ _ (by omega) (by omega) (by omega) (by omega)
    have hsearch : binarySearchBy cmp l = some i := by
      simp [binarySearchBy, hrange, ha, heq]
    rw [hsearch, bind_some, ha, eq_comm, find?_eq_some_iff_getElem]
    refine ⟨by simpa using heq, i, hi, hget, fun j hj => ?_⟩
    -- an equal element before would make this one be above
    simp only [Bool.not_eq_true', decide_eq_false_iff_not]
    intro hcmp
    have habove := hdiv.gt_of_lt hj (getElem?_eq_getElem (by omega)) ha (by simp [hcmp])
    rw [heq] at habove
    cases habove
  · have hnone : l.find? (fun a => cmp a = .eq) = none := by
      rw [find?_eq_none]
      intro a hmem
      simpa using fun heq => hex ⟨a, hmem, heq⟩
    have hsearch : binarySearchBy cmp l = none := by
      simp only [binarySearchBy]
      rw [if_neg]
      intro hmap
      obtain ⟨a, ha, heq⟩ := map_eq_some_iff.mp hmap
      exact hex ⟨a, mem_of_getElem? ha, heq⟩
    rw [hnone, hsearch, bind_none]

end Divided

end Meow
