import Meow.Lib.BitWords

/-!
# Walking over bits that need not be a tree

A tree in level order is walked with rank and select: the zeros behind the `k`-th one are the
children of node `k`, and the child at a zero has the number of zeros up to it. The same walk can be
started on any bits. This file finds the bits on which it does not end.

Going down from a zero the walk moves to the right as long as no beginning of the bits has more ones
than zeros, and it cannot get to a place behind a beginning that has. So it can only be caught at
the very end, where the missing bits read as zeros: there the walk goes down to the last node again
when the bits have as many ones as zeros.

## Main definitions

* `Louds.ones`, `Louds.zeros`, `Louds.select` — rank and select.
* `Louds.Ends` — the walk over the children of a node, from a place on, ends.
* `Louds.Balanced` — no beginning has more ones than zeros, and the whole has as many.

## Main results

* `Louds.ends_zero_iff` — the walk from the root ends unless the bits are balanced and there is
  a label behind the last.
-/

namespace Meow

open List Option Nat

namespace Louds

/-! ### Rank and select -/

section Rank

variable (bits : List Bool)

/-- The ones among the first `i` bits. -/
def ones (i : ℕ) : ℕ := (bits.take i).countP id

/-- The zeros among the first `i` bits. -/
def zeros (i : ℕ) : ℕ := (bits.take i).countP fun b => !b

/-- The place of the one that has `k` ones before it. -/
def select (k : ℕ) : Option ℕ := (bits.findIdxs id 0)[k]?

variable {bits} {i j k : ℕ}

lemma ones_mono (h : i ≤ j) : ones bits i ≤ ones bits j := (take_sublist_take_left h).countP_le

lemma zeros_mono (h : i ≤ j) : zeros bits i ≤ zeros bits j := (take_sublist_take_left h).countP_le

lemma ones_succ {b} (h : bits[i]? = some b) :
    ones bits (i + 1) = ones bits i + if b then 1 else 0 := by
  rw [ones, take_add_one, h, countP_append]
  cases b <;> rfl

lemma zeros_succ {b} (h : bits[i]? = some b) :
    zeros bits (i + 1) = zeros bits i + if b then 0 else 1 := by
  rw [zeros, take_add_one, h, countP_append]
  cases b <;> rfl

lemma ones_add_zeros (h : i ≤ bits.length) : ones bits i + zeros bits i = i := by
  have hcount := length_eq_countP_add_countP (p := id) (l := bits.take i)
  have hnot : (fun a : Bool => decide ¬id a = true) = fun b => !b := by
    funext b
    cases b <;> rfl
  rw [hnot, length_take, min_eq_left h] at hcount
  exact hcount.symm

lemma zeros_of_length_le (h : bits.length ≤ i) : zeros bits i = zeros bits bits.length := by
  rw [zeros, zeros, take_of_length_le h, take_length]

/-- A one is found by the number of ones before it. -/
lemma select_ones {p} (h : bits[p]? = some true) : select bits (ones bits p) = some p := by
  obtain ⟨hlt, hp⟩ := List.getElem?_eq_some_iff.mp h
  have hsplit : bits = bits.take p ++ true :: bits.drop (p + 1) := by
    rw [← hp, ← drop_eq_getElem_cons hlt, take_append_drop]
  have hfind := getElem?_findIdxs_append (bits.take p) (bits.drop (p + 1)) 0
  rw [← hsplit, length_take, min_eq_left hlt.le, zero_add] at hfind
  exact hfind

/-- Among the entries with a property, one has any given smaller number of them before it. -/
lemma exists_countP_take {p} (bits : List Bool) {k} (h : k < bits.countP p) :
    ∃ i b, bits[i]? = some b ∧ p b ∧ (bits.take i).countP p = k := by
  induction bits generalizing k with
  | nil => exact absurd h (not_lt_zero k)
  | cons b bits ih =>
    rw [countP_cons] at h
    by_cases hb : p b
    · cases k with
      | zero => exact ⟨0, b, rfl, hb, rfl⟩
      | succ k =>
        rw [if_pos hb] at h
        obtain ⟨i, c, hi, hc, hcount⟩ := ih (lt_of_succ_lt_succ h)
        refine ⟨i + 1, c, hi, hc, ?_⟩
        rw [take_succ_cons, countP_cons, if_pos hb, hcount]
    · rw [if_neg hb] at h
      obtain ⟨i, c, hi, hc, hcount⟩ := ih h
      refine ⟨i + 1, c, hi, hc, ?_⟩
      rw [take_succ_cons, countP_cons, if_neg hb, add_zero, hcount]

/-- The `k`-th one exists when there are more than `k` ones, and is where select finds it. -/
lemma exists_select (h : k < ones bits bits.length) :
    ∃ p, select bits k = some p ∧ bits[p]? = some true ∧ ones bits p = k := by
  rw [ones, take_length] at h
  obtain ⟨p, b, hp, hb, hcount⟩ := exists_countP_take bits h
  obtain rfl : b := hb
  refine ⟨p, ?_, hp, hcount⟩
  rw [← hcount]
  exact select_ones hp

/-- The zero that has `k` zeros before it. -/
lemma exists_zero (h : k < zeros bits bits.length) :
    ∃ z, bits[z]? = some false ∧ zeros bits z = k := by
  rw [zeros, take_length] at h
  obtain ⟨z, b, hz, hb, hcount⟩ := exists_countP_take bits h
  obtain rfl : b = false := by simpa using hb
  exact ⟨z, hz, hcount⟩

lemma select_eq_none (h : ones bits bits.length ≤ k) : select bits k = none := by
  rw [ones, take_length] at h
  rw [select, getElem?_eq_none]
  rw [length_findIdxs]
  exact h

/-- What select finds is a one with that many ones before it. -/
lemma of_select {p} (h : select bits k = some p) : bits[p]? = some true ∧ ones bits p = k := by
  have hk : k < ones bits bits.length := by
    by_contra hle
    rw [select_eq_none (Nat.le_of_not_lt hle)] at h
    cases h
  obtain ⟨p', hp', hbit, hones⟩ := exists_select hk
  obtain rfl : p' = p := some.inj (hp'.symm.trans h)
  exact ⟨hbit, hones⟩

end Rank

/-! ### The walk -/

/-- The loop over the children of node `k`, from the place `i` on, ends, where there are `m`
labels: it stops at a one, or where a label or the bits of the child are missing; otherwise the walk
from the child ends and the loop goes on at the next place. -/
inductive Ends (bits : List Bool) (m : ℕ) : ℕ → ℕ → Prop
  | one {k i : ℕ} (h : bits[i]? = some true) : Ends bits m k i
  | label {k i : ℕ} (h : m ≤ i - k) : Ends bits m k i
  | child {k i : ℕ} (h : select bits (zeros bits (i + 1) - 1) = none) : Ends bits m k i
  | step {k i p : ℕ} (hp : select bits (zeros bits (i + 1) - 1) = some p)
      (hchild : Ends bits m (zeros bits (i + 1)) (p + 1)) (hrest : Ends bits m k (i + 1)) :
      Ends bits m k i

/-- No beginning of the bits up to `i` has more ones than zeros. -/
def Ballot (bits : List Bool) (i : ℕ) : Prop := ∀ j ≤ i, ones bits j ≤ zeros bits j

/-- No beginning has more ones than zeros, and the whole has as many. -/
def Balanced (bits : List Bool) : Prop :=
  Ballot bits bits.length ∧ ones bits bits.length = zeros bits bits.length

instance (bits : List Bool) (i : ℕ) : Decidable (Ballot bits i) := by
  unfold Ballot
  infer_instance

instance (bits : List Bool) : Decidable (Balanced bits) := by
  unfold Balanced
  infer_instance

variable {bits : List Bool} {m i : ℕ}

/-- Going down from a zero moves to the right, and the beginnings up to the child's bits have no
more ones than zeros. -/
lemma Ballot.child {p} (h : Ballot bits i) (hi : bits[i]? = some false)
    (hp : select bits (zeros bits (i + 1) - 1) = some p) :
    i < p + 1 ∧ ones bits (p + 1) = zeros bits (i + 1) ∧ Ballot bits (p + 1) := by
  obtain ⟨hbit, hones⟩ := of_select hp
  have hzero : zeros bits (i + 1) = zeros bits i + 1 := zeros_succ hi
  have hone : ones bits (p + 1) = ones bits p + 1 := ones_succ hbit
  have hi' := h i le_rfl
  have hlt : i < p + 1 := by
    by_contra hle
    have hmono : ones bits (p + 1) ≤ ones bits i := ones_mono (by omega)
    omega
  refine ⟨hlt, by omega, ?_⟩
  intro j hj
  rcases lt_or_ge i j with hij | hij
  · have h1 : ones bits j ≤ ones bits (p + 1) := ones_mono hj
    have h2 : zeros bits (i + 1) ≤ zeros bits j := zeros_mono hij
    omega
  · exact h j hij

lemma Ballot.succ (h : Ballot bits i) (hi : bits[i]? = some false) : Ballot bits (i + 1) := by
  intro j hj
  rcases lt_or_ge i j with hij | hij
  · obtain rfl : j = i + 1 := by omega
    have h1 : ones bits (i + 1) = ones bits i + 0 := ones_succ hi
    have h2 : zeros bits (i + 1) = zeros bits i + 1 := zeros_succ hi
    have h3 := h i le_rfl
    omega
  · exact h j hij

/-- **The walk ends** from every place it can get to, unless the bits are balanced and there are
labels enough.

**Proof sketch.** By induction on the distance to the end of the bits: going down and going on both
move to the right, and both keep that no beginning has more ones than zeros. At the end of the bits
the node is the last, and the number of the child is that of all zeros. If there are more zeros than
ones this child has no bits; if there are as many, the bits are balanced, and there is no label. -/
lemma ends_of_ballot (hlabels : Balanced bits → m ≤ zeros bits bits.length) (hi : i ≤ bits.length)
    (hballot : Ballot bits i) : Ends bits m (ones bits i) i := by
  induction hn : bits.length - i using Nat.strong_induction_on generalizing i with
  | _ n ih =>
    rcases lt_or_ge i bits.length with hlt | hge
    · obtain ⟨b, hb⟩ : ∃ b, bits[i]? = some b := ⟨bits[i], getElem?_eq_getElem hlt⟩
      cases b with
      | true => exact Ends.one hb
      | false =>
        rcases hp : select bits (zeros bits (i + 1) - 1) with _ | p
        · exact Ends.child hp
        · obtain ⟨hip, hones, hballot'⟩ := hballot.child hb hp
          have hplt : p < bits.length :=
            (List.getElem?_eq_some_iff.mp (of_select hp).1).1
          have hchild := ih (bits.length - (p + 1)) (by omega) (by omega) hballot' rfl
          have hrest := ih (bits.length - (i + 1)) (by omega) (by omega) (hballot.succ hb) rfl
          have hsame : ones bits (i + 1) = ones bits i + 0 := ones_succ hb
          rw [hones] at hchild
          rw [hsame] at hrest
          exact Ends.step hp hchild hrest
    · obtain rfl : i = bits.length := by omega
      have hall := ones_add_zeros (le_refl bits.length)
      have hle := hballot _ le_rfl
      rcases lt_or_ge (ones bits bits.length) (zeros bits bits.length) with hmore | hmore
      · refine Ends.child (select_eq_none ?_)
        rw [zeros_of_length_le (le_succ _)]
        omega
      · have hm := hlabels ⟨hballot, by omega⟩
        exact Ends.label (by omega)

section Cycle

variable (hbalanced : Balanced bits) (hlabels : zeros bits bits.length < m)

include hbalanced in
/-- In balanced bits the last node is its own child. -/
lemma select_last (hne : bits ≠ []) :
    select bits (zeros bits (bits.length + 1) - 1) = some (bits.length - 1) ∧
      zeros bits (bits.length + 1) = ones bits bits.length := by
  have hlen := length_pos_of_ne_nil hne
  have hall := ones_add_zeros (le_refl bits.length)
  have heq := hbalanced.2
  have hzeros : zeros bits (bits.length + 1) = zeros bits bits.length :=
    zeros_of_length_le (le_succ _)
  have hk : zeros bits bits.length - 1 < ones bits bits.length := by omega
  obtain ⟨p, hp, hbit, hones⟩ := exists_select hk
  have hplt : p < bits.length := (List.getElem?_eq_some_iff.mp hbit).1
  have hsucc : ones bits (p + 1) = ones bits p + 1 := ones_succ hbit
  have hballot := hbalanced.1 (p + 1) hplt
  have hsum := ones_add_zeros (show p + 1 ≤ bits.length from hplt)
  refine ⟨?_, by omega⟩
  rw [hzeros, hp]
  congr 1
  omega

include hbalanced hlabels in
/-- At the end of balanced bits the walk does not end: it goes down to the place it is at. -/
lemma not_ends_last (hne : bits ≠ []) {k i} (h : Ends bits m k i) (hk : k = ones bits bits.length)
    (hi : i = bits.length) : False := by
  have hlen := length_pos_of_ne_nil hne
  have hall := ones_add_zeros (le_refl bits.length)
  obtain ⟨hselect, hzeros⟩ := select_last hbalanced hne
  induction h with
  | one h =>
    rw [hi, getElem?_eq_none le_rfl] at h
    cases h
  | label h => omega
  | child h =>
    rw [hi, hselect] at h
    cases h
  | @step k i p hp _ _ ih _ =>
    rw [hi, hselect] at hp
    refine ih ?_ ?_
    · rw [hi, hzeros]
    · have := some.inj hp
      omega

include hbalanced hlabels in
/-- A loop that ends passes every zero before the next one, and the walk ends from the child at
that zero. -/
lemma ends_child {i z p} (h : Ends bits m (ones bits z) i) (hiz : i ≤ z)
    (hsame : ones bits i = ones bits z) (hz : bits[z]? = some false)
    (hp : select bits (zeros bits z) = some p) : Ends bits m (zeros bits z + 1) (p + 1) := by
  have hzlt : z < bits.length := (List.getElem?_eq_some_iff.mp hz).1
  induction hn : z - i generalizing i with
  | zero =>
    obtain rfl : i = z := by omega
    have hzero : zeros bits (i + 1) = zeros bits i + 1 := zeros_succ hz
    have hsum := ones_add_zeros hzlt.le
    have hmono : zeros bits i ≤ zeros bits bits.length := zeros_mono hzlt.le
    cases h with
    | one h => cases hz.symm.trans h
    | label h => omega
    | child h => rw [hzero, Nat.add_sub_cancel, hp] at h; cases h
    | @step _ _ p' hp' hchild _ =>
      rw [hzero, Nat.add_sub_cancel, hp] at hp'
      obtain rfl : p = p' := some.inj hp'
      rwa [hzero] at hchild
  | succ n ih =>
    have hilt : i < bits.length := by omega
    have hzero : bits[i]? = some false := by
      rcases hb : bits[i]? with _ | b
      · rw [List.getElem?_eq_none_iff] at hb
        omega
      · cases b with
        | false => rfl
        | true =>
          have h1 : ones bits (i + 1) = ones bits i + 1 := ones_succ hb
          have h2 : ones bits (i + 1) ≤ ones bits z := ones_mono (by omega)
          omega
    have hzeros : zeros bits (i + 1) = zeros bits i + 1 := zeros_succ hzero
    have hones : ones bits (i + 1) = ones bits i + 0 := ones_succ hzero
    have hmono : zeros bits (i + 1) ≤ zeros bits bits.length := zeros_mono hilt
    have hsum := ones_add_zeros hilt.le
    have heq := hbalanced.2
    cases h with
    | one h => cases hzero.symm.trans h
    | label h => omega
    | child h =>
      obtain ⟨q, hq, _⟩ := exists_select
        (show zeros bits (i + 1) - 1 < ones bits bits.length by omega)
      rw [hq] at h
      cases h
    | step _ _ hrest => exact ih hrest (by omega) (by omega) (by omega)

include hbalanced hlabels in
/-- In balanced bits the walk from the root gets to every node. -/
lemma ends_node (hroot : Ends bits m 0 0) {k q} (hq : select bits k = some q) :
    Ends bits m (k + 1) (q + 1) := by
  induction k using Nat.strong_induction_on generalizing q with
  | _ k ih =>
    obtain ⟨hbit, hones⟩ := of_select hq
    have hqlt : q < bits.length := (List.getElem?_eq_some_iff.mp hbit).1
    have hk : k < zeros bits bits.length := by
      rw [← hbalanced.2]
      have h1 : ones bits (q + 1) = ones bits q + 1 := ones_succ hbit
      have h2 : ones bits (q + 1) ≤ ones bits bits.length := ones_mono hqlt
      omega
    -- the zero that stands for the node, and the node it belongs to
    obtain ⟨z, hz, hzeros⟩ := exists_zero hk
    have hzlt : z < bits.length := (List.getElem?_eq_some_iff.mp hz).1
    have hparent : ones bits z ≤ k := hzeros ▸ hbalanced.1 z hzlt.le
    rw [← hzeros] at hq ⊢
    rcases hu : ones bits z with _ | u
    · refine ends_child hbalanced hlabels (i := 0) (hu ▸ hroot) (zero_le z) ?_ hz hq
      rw [hu]
      rfl
    · have hulen : u < ones bits bits.length := by
        have : ones bits z ≤ ones bits bits.length := ones_mono hzlt.le
        omega
      obtain ⟨p, hp, hpbit, hpones⟩ := exists_select hulen
      have hsucc : ones bits (p + 1) = ones bits p + 1 := ones_succ hpbit
      have hpz : p + 1 ≤ z := by
        by_contra hlt
        have hmono : ones bits z ≤ ones bits p := ones_mono (by omega)
        omega
      have hends := ih u (by omega) hp
      exact ends_child hbalanced hlabels (i := p + 1) (hu ▸ hends) hpz (by omega) hz hq

end Cycle

/-- **The walk from the root ends** exactly when the bits are not balanced or there are not more
labels than zeros. -/
theorem ends_zero_iff (hne : bits ≠ []) :
    Ends bits m 0 0 ↔ ¬(Balanced bits ∧ zeros bits bits.length < m) := by
  constructor
  · rintro hroot ⟨hbalanced, hlabels⟩
    obtain ⟨hselect, hzeros⟩ := select_last hbalanced hne
    have hlen := length_pos_of_ne_nil hne
    have hall := ones_add_zeros (le_refl bits.length)
    have heq := hbalanced.2
    have hends := ends_node hbalanced hlabels hroot hselect
    exact not_ends_last hbalanced hlabels hne hends (by omega) (by omega)
  · intro h
    refine ends_of_ballot (i := 0) ?_ (zero_le _) ?_
    · intro hbalanced
      exact Nat.le_of_not_lt fun hlabels => h ⟨hbalanced, hlabels⟩
    · intro j hj
      obtain rfl : j = 0 := by omega
      rfl

end Louds

end Meow
