import Mathlib.Tactic

/-!
# Chains

A partial function `next` leads from an element to the one after it. Followed from an element it
comes to an end, at an element that has none after it, or it goes round in a circle. A walk that
keeps what it has visited tells the two apart, and needs no more turns than there are elements with
a successor.

## Main definitions

* `Chain` — the elements from the first to the end.
* `walk` — the walk that stops where it has been.
* `LeastIn` — the least element of a set, if it has one.

## Main results

* `Chain.unique`, `Chain.not_transGen` — there is one chain, and no circle on it.
* `walk_eq_some_iff` — the walk finds the chain.
-/

namespace Meow

open List Option

section Chain

variable {α : Type} {next : α → Option α}

/-- The elements from the first to the end. -/
inductive Chain (next : α → Option α) : α → List α → Prop where
  | last {a : α} (h : next a = none) : Chain next a [a]
  | link {a b : α} {l : List α} (h : next a = some b) (hl : Chain next b l) : Chain next a (a :: l)

/-- One element comes right after the other. -/
def Follows (next : α → Option α) (a b : α) : Prop := next a = some b

variable {a : α}

/-- **There is one chain.** -/
lemma Chain.unique {l l'} (h : Chain next a l) (h' : Chain next a l') : l = l' := by
  induction h generalizing l' with
  | last hnone =>
    cases h' with
    | last => rfl
    | link hsome => cases hnone.symm.trans hsome
  | link hsome _ ih =>
    cases h' with
    | last hnone => cases hnone.symm.trans hsome
    | link hsome' hl' =>
      obtain rfl := some.inj (hsome.symm.trans hsome')
      rw [ih hl']

variable {l : List α}

lemma Chain.mem_self (h : Chain next a l) : a ∈ l := by
  cases h <;> exact mem_cons_self

/-- **A chain that ends has no circle.** -/
lemma Chain.not_transGen (h : Chain next a l) : ¬Relation.TransGen (Follows next) a a := by
  induction h with
  | last hnone =>
    intro hcircle
    obtain ⟨b, hb, -⟩ := Relation.TransGen.head'_iff.mp hcircle
    cases hnone.symm.trans hb
  | link hsome _ ih =>
    intro hcircle
    obtain ⟨b, hb, hback⟩ := Relation.TransGen.head'_iff.mp hcircle
    obtain rfl := some.inj (hsome.symm.trans hb)
    exact ih (Relation.TransGen.tail' hback hb)

/-- What stands on a chain is reached from its first element. -/
lemma Chain.reach_of_mem {b} (h : Chain next a l) (hb : b ∈ l) :
    Relation.ReflTransGen (Follows next) a b := by
  induction h with
  | last => rw [mem_singleton.mp hb]
  | link hsome _ ih =>
    rcases mem_cons.mp hb with rfl | hb
    · exact .refl
    · exact .head hsome (ih hb)

/-- Elements each of which comes after the one before, up to one that has none after it. -/
lemma chain_of_seq {f n} (hstep : ∀ i < n, next (f i) = some (f (i + 1))) (hend : next (f n) = none)
    {i} (hi : i ≤ n) : Chain next (f i) ((range' i (n + 1 - i)).map f) := by
  induction hi using Nat.decreasingInduction with
  | self =>
    rw [Nat.add_sub_cancel_left]
    exact .last hend
  | of_succ i hi ih =>
    rw [show n + 1 - i = (n + 1 - (i + 1)) + 1 by omega]
    exact .link (hstep i hi) ih

/-- Where one of two partial functions stops earlier its chains are shorter. -/
lemma Chain.exists_of_stops {next'} (hstops : ∀ a, next' a = none ∨ next' a = next a)
    (h : Chain next a l) : ∃ l', Chain next' a l' := by
  induction h with
  | @last a hnone =>
    have hnone' : next' a = none := (hstops a).elim id fun heq => heq.trans hnone
    exact ⟨[a], .last hnone'⟩
  | @link a b l hsome _ ih =>
    rcases hstops a with hnone | heq
    · exact ⟨[a], .last hnone⟩
    · obtain ⟨l', hl'⟩ := ih
      exact ⟨a :: l', .link (heq.trans hsome) hl'⟩

end Chain

/-! ### The walk -/

section Walk

variable {α : Type} {next : α → Option α} {keys : List α}

/-- What a walk has visited. -/
structure Visited (next : α → Option α) (keys seen : List α) (a : α) : Prop where
  nodup : seen.Nodup
  keys : ∀ b ∈ seen, b ∈ keys
  leads : ∀ b ∈ seen, Relation.TransGen (Follows next) b a

lemma Visited.nil (a : α) : Visited next keys [] a := ⟨nodup_nil, nofun, nofun⟩

variable {seen : List α} {a : α}

lemma Visited.length_le (h : Visited next keys seen a) : seen.length ≤ keys.length :=
  (h.nodup.subperm h.keys).length_le

/-- One step of a walk. -/
lemma Visited.step {b} (h : Visited next keys seen a) (hkeys : next a ≠ none → a ∈ keys)
    (hnew : a ∉ seen) (hb : next a = some b) : Visited next keys (seen ++ [a]) b := by
  refine ⟨?_, fun c hc => ?_, fun c hc => ?_⟩
  · rw [nodup_append_comm]
    exact nodup_cons.mpr ⟨hnew, h.nodup⟩
  · rcases mem_append.mp hc with hc | hc
    · exact h.keys c hc
    · rw [mem_singleton.mp hc]
      exact hkeys (by rw [hb]; simp)
  · rcases mem_append.mp hc with hc | hc
    · exact (h.leads c hc).tail hb
    · rw [mem_singleton.mp hc]
      exact .single hb

variable [DecidableEq α]

/-- Follow `next`, and stop at an element that was visited. -/
def walk (next : α → Option α) : ℕ → List α → α → Option (List α)
  | 0, _, _ => none
  | fuel + 1, seen, a =>
    if a ∈ seen then none
    else
      match next a with
      | none => some (seen ++ [a])
      | some b => walk next fuel (seen ++ [a]) b

variable {fuel : ℕ} {l : List α}

/-- **The walk finds the chain**, if it has a turn for each element with a successor that it can
come by.

**Proof sketch.** Induction on the turns left. An element that was visited leads to itself, so there
is no chain from it; and the visited elements, which are different and have successors, are never
more than there are. -/
lemma walk_eq_some_iff
    (hkeys : ∀ b, Relation.ReflTransGen (Follows next) a b → next b ≠ none → b ∈ keys)
    (h : Visited next keys seen a) (hfuel : keys.length < seen.length + fuel) :
    walk next fuel seen a = some l ↔ ∃ l', Chain next a l' ∧ l = seen ++ l' := by
  induction fuel generalizing seen a with
  | zero =>
    have hle := h.length_le
    omega
  | succ fuel ih =>
    rw [walk]
    split_ifs with hseen
    · refine ⟨nofun, ?_⟩
      rintro ⟨l', hl', -⟩
      exact absurd (h.leads a hseen) hl'.not_transGen
    · cases hnext : next a with
      | none =>
        simp only [some.injEq]
        refine ⟨fun heq => ⟨[a], .last hnext, heq.symm⟩, ?_⟩
        rintro ⟨l', hl', rfl⟩
        rw [hl'.unique (.last hnext)]
      | some b =>
        rw [ih (fun c hc => hkeys c (.head hnext hc)) (h.step (hkeys a .refl) hseen hnext)
          (by rw [length_append, length_singleton]; omega)]
        constructor
        · rintro ⟨l', hl', rfl⟩
          exact ⟨a :: l', .link hnext hl', by rw [append_assoc]; rfl⟩
        · rintro ⟨l', hl', rfl⟩
          cases hl' with
          | last hnone => cases hnone.symm.trans hnext
          | link hsome hrest =>
            obtain rfl := some.inj (hsome.symm.trans hnext)
            exact ⟨_, hrest, by rw [append_assoc]; rfl⟩

/-- What a walk has visited stays, and where it stands is visited too. -/
lemma mem_of_walk (h : walk next fuel seen a = some l) : a ∈ l ∧ ∀ b ∈ seen, b ∈ l := by
  induction fuel generalizing seen a with
  | zero => cases h
  | succ fuel ih =>
    rw [walk] at h
    split at h
    · cases h
    · cases hnext : next a with
      | none =>
        simp only [hnext, some.injEq] at h
        rw [← h]
        exact ⟨mem_append_right _ mem_cons_self, fun b hb => mem_append_left _ hb⟩
      | some c =>
        simp only [hnext] at h
        have hseen := (ih h).2
        exact ⟨hseen a (mem_append_right _ mem_cons_self),
          fun b hb => hseen b (mem_append_left _ hb)⟩

/-- A walk that holds one more element to be visited ends where it does not come by it. -/
lemma walk_cons_isSome_iff {s} (hs : s ∉ seen) :
    (walk next fuel (s :: seen) a).isSome ↔
      ∃ l, walk next fuel seen a = some l ∧ s ∉ l := by
  induction fuel generalizing seen a with
  | zero => simp [walk]
  | succ fuel ih =>
    by_cases hsa : a = s
    · subst hsa
      rw [walk, if_pos mem_cons_self]
      refine ⟨nofun, ?_⟩
      rintro ⟨l, hl, hnot⟩
      exact absurd (mem_of_walk hl).1 hnot
    · rw [walk, walk]
      by_cases hseen : a ∈ seen
      · rw [if_pos (mem_cons_of_mem _ hseen), if_pos hseen]
        simp
      · rw [if_neg (by simp [hsa, hseen]), if_neg hseen]
        have hs' : s ∉ seen ++ [a] := by
          simp [hs, Ne.symm hsa]
        cases hnext : next a with
        | none => simpa using ⟨hs, Ne.symm hsa⟩
        | some b =>
          exact ih hs'

end Walk

/-! ### The least element -/

section Least

variable {α : Type} [LinearOrder α] {S S' : Set α}

/-- The least element of a set, if it has one. -/
def LeastIn (S : Set α) : Option α → Prop
  | none => S = ∅
  | some a => IsLeast S a

variable {a : Option α} (h : LeastIn S a)
include h

lemma LeastIn.unique {a'} (h' : LeastIn S a') : a = a' := by
  cases a with
  | none =>
    cases a' with
    | none => rfl
    | some b =>
      have hS : S = ∅ := h
      exact absurd h'.1 (by rw [hS]; exact Set.notMem_empty b)
  | some a =>
    cases a' with
    | none =>
      have hS : S = ∅ := h'
      exact absurd h.1 (by rw [hS]; exact Set.notMem_empty a)
    | some b => exact congrArg some (IsLeast.unique h h')

/-- The least of what was there and one more. -/
lemma LeastIn.insert (b : α) : LeastIn (S ∪ {b}) (some (a.elim b fun a => min a b)) := by
  cases a with
  | none =>
    have hS : S = ∅ := h
    rw [hS, Set.empty_union]
    exact isLeast_singleton
  | some a => exact IsLeast.union h isLeast_singleton

/-- A larger set, in which nothing lies below the smaller one. -/
lemma LeastIn.mono (hsub : S ⊆ S') (hbelow : ∀ b ∈ S', ∃ c ∈ S, c ≤ b) : LeastIn S' a := by
  cases a with
  | none =>
    have hS : S = ∅ := h
    refine Set.eq_empty_of_forall_notMem fun b hb => ?_
    obtain ⟨c, hc, -⟩ := hbelow b hb
    rw [hS] at hc
    exact hc
  | some a =>
    refine ⟨hsub h.1, fun b hb => ?_⟩
    obtain ⟨c, hc, hle⟩ := hbelow b hb
    exact (h.2 hc).trans hle

end Least

end Meow
