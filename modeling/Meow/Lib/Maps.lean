import Mathlib.Tactic
import Mathlib.Data.List.AList

/-!
# Partial maps in both directions

A two-way table keeps a partial map and its inverse. The two stay inverse when a pair with a new
key and a new value is written in both directions, and when a pair is deleted in both. The
inverse can be rebuilt from the map when no value stands under two keys.

## Main definitions

* `Inverse` — two partial maps are exact inverses.
* `TracesBack` — the same for some of the keys, in one direction.
* `reverseMap` — the inverse of a finite map, collected entry by entry.

## Main results

* `Inverse.insert`, `Inverse.delete` — paired updates.
* `TracesBack.insert`, `TracesBack.delete` — the same.
* `inverse_reverseMap` — the collected map is the inverse.
* `lookup_reverseMap` — what it is when a value stands under several keys.
-/

namespace Meow

open List Option AList Ne

variable {α β : Type}

/-- `g` finds `a` under `b` exactly when `f` finds `b` under `a`. -/
def Inverse (f : α → Option β) (g : β → Option α) : Prop := ∀ a b, f a = some b ↔ g b = some a

namespace Inverse

variable {f f' : α → Option β} {g g' : β → Option α} {b : β} (h : Inverse f g)
include h

/-- No value stands under two keys. -/
lemma eq_of_eq {a a'} (ha : f a = some b) (ha' : f a' = some b) : a = a' := by
  have h1 := (h a b).mp ha
  have h2 := (h a' b).mp ha'
  rw [h1] at h2
  exact some.inj h2

lemma congr (hf : ∀ a, f' a = f a) (hg : ∀ b, g' b = g b) : Inverse f' g' := by
  intro a b
  rw [hf, hg]
  exact h a b

/-- Writing a new pair in both directions. -/
lemma insert [DecidableEq α] [DecidableEq β] {a} (ha : f a = none) (hb : g b = none)
    (hf : ∀ x, f' x = if x = a then some b else f x)
    (hg : ∀ y, g' y = if y = b then some a else g y) : Inverse f' g' := by
  intro x y
  rw [hf, hg]
  split_ifs with hx hy hy
  · simp [hx, hy]
  · rw [← h, hx, ha]
    simp [symm hy]
  · rw [h, hy, hb]
    simp [symm hx]
  · exact h x y

/-- Deleting a pair in both directions. -/
lemma delete [DecidableEq α] [DecidableEq β] {a} (hab : f a = some b)
    (hf : ∀ x, f' x = if x = a then none else f x) (hg : ∀ y, g' y = if y = b then none else g y) :
    Inverse f' g' := by
  intro x y
  rw [hf, hg]
  split_ifs with hx hy hy
  · simp
  · rw [← h, hx, hab]
    simp [symm hy]
  · rw [h, hy, (h a b).mp hab]
    simp [symm hx]
  · exact h x y

end Inverse

/-- What `f` finds under a key of a kind is found back under it by `g`, though `g` may find other
keys too. -/
def TracesBack (K : α → Prop) (f : α → Option β) (g : β → Option α) : Prop :=
  ∀ a b, K a → f a = some b → g b = some a

namespace TracesBack

variable {K : α → Prop} {f f' : α → Option β} {g g' : β → Option α} {b : β} (h : TracesBack K f g)
include h

/-- A value that is not found back is under no key of the kind. -/
lemma ne_some (hb : g b = none) {a} (ha : K a) : f a ≠ some b := by
  intro hfa
  rw [h a b ha hfa] at hb
  simp at hb

/-- Writing a value that is not found back. -/
lemma insert [DecidableEq α] [DecidableEq β] {a} (hb : g b = none)
    (hf : ∀ x, f' x = if x = a then some b else f x)
    (hg : ∀ y, g' y = if y = b then some a else g y) : TracesBack K f' g' := by
  intro x y hx hxy
  rw [hf] at hxy
  rw [hg]
  split_ifs at hxy with hxa
  · cases hxy
    rw [if_pos rfl, hxa]
  · have hy : y ≠ b := by
      rintro rfl
      exact h.ne_some hb hx hxy
    rw [if_neg hy]
    exact h x y hx hxy

/-- Deleting a value, and the key it is found back under while that has the value. -/
lemma delete [DecidableEq β] (hf : ∀ x y, f' x = some y → f x = some y ∧ ¬(g b = some x ∧ y = b))
    (hg : ∀ y, g' y = if y = b then none else g y) : TracesBack K f' g' := by
  intro x y hx hxy
  obtain ⟨hfx, hne⟩ := hf x y hxy
  have hback := h x y hx hfx
  have hy : y ≠ b := by
    rintro rfl
    exact hne ⟨hback, rfl⟩
  rw [hg, if_neg hy]
  exact hback

end TracesBack

/-! ### Finite maps -/

variable (m : AList fun _ : α => β)

lemma lookup_insert_ite [DecidableEq α] (a x : α) (b : β) :
    (m.insert a b).lookup x = if x = a then some b else m.lookup x := by
  split_ifs with hx
  · rw [hx, lookup_insert]
  · rw [lookup_insert_ne hx]

lemma lookup_erase_ite [DecidableEq α] (a x : α) :
    (m.erase a).lookup x = if x = a then none else m.lookup x := by
  split_ifs with hx
  · rw [hx, lookup_erase]
  · rw [lookup_erase_ne hx]

/-- The map with a function applied to its values. -/
def mapValues {γ : Type*} (f : β → γ) (m : AList fun _ : α => β) : AList fun _ : α => γ where
  entries := m.entries.map fun e => ⟨e.1, f e.2⟩
  nodupKeys := by
    rw [List.NodupKeys, List.keys, List.map_map]
    exact m.nodupKeys

lemma lookup_mapValues [DecidableEq α] {γ : Type*} (f : β → γ) (m : AList fun _ : α => β) (x : α) :
    (mapValues f m).lookup x = (m.lookup x).map f := dlookup_map₂ (f := fun _ => f) x

/-! ### Rebuilding the inverse -/

section Reverse

variable [DecidableEq α] [DecidableEq β]

/-- Collect the entries of a finite map in the other direction. -/
def reverseMap (entries : AList fun _ : α => β) : AList fun _ : β => α :=
  entries.entries.foldl (fun m e => m.insert e.2 e.1) ∅

/-- What collecting `l` into `m` finds under `b`, when `l` has no value under two keys. -/
private lemma lookup_collect (l : List (Σ _ : α, β)) (m : AList fun _ : β => α)
    (hl : ∀ e ∈ l, ∀ e' ∈ l, e.2 = e'.2 → e.1 = e'.1) (a : α) (b : β) :
    (l.foldl (fun m e => m.insert e.2 e.1) m).lookup b = some a ↔
      ⟨a, b⟩ ∈ l ∨ (∀ a', ⟨a', b⟩ ∉ l) ∧ m.lookup b = some a := by
  induction l generalizing m with
  | nil => simp
  | cons e l ih =>
    obtain ⟨a₀, b₀⟩ := e
    have hl' : ∀ e ∈ l, ∀ e' ∈ l, e.2 = e'.2 → e.1 = e'.1 := fun e he e' he' =>
      hl e (mem_cons_of_mem _ he) e' (mem_cons_of_mem _ he')
    rw [foldl_cons, ih _ hl']
    by_cases hb : b = b₀
    · -- all entries with this value have the key of the first
      subst hb
      have hkey : ∀ a', ⟨a', b⟩ ∈ l → a' = a₀ := fun a' ha' =>
        hl ⟨a', b⟩ (mem_cons_of_mem _ ha') ⟨a₀, b⟩ mem_cons_self rfl
      rw [lookup_insert]
      constructor
      · rintro (hmem | ⟨-, heq⟩)
        · exact .inl (mem_cons_of_mem _ hmem)
        · obtain rfl : a₀ = a := some.inj heq
          exact .inl mem_cons_self
      · rintro (hmem | ⟨hnot, -⟩)
        · rcases mem_cons.mp hmem with heq | hmem
          · obtain rfl : a = a₀ := congrArg Sigma.fst heq
            by_cases hex : ⟨a, b⟩ ∈ l
            · exact .inl hex
            · refine .inr ⟨fun a' ha' => ?_, rfl⟩
              obtain rfl := hkey a' ha'
              exact hex ha'
          · exact .inl hmem
        · exact absurd mem_cons_self (hnot a₀)
    · have hne : ∀ a', ⟨a', b⟩ ∈ (⟨a₀, b₀⟩ :: l : List (Σ _ : α, β)) ↔ ⟨a', b⟩ ∈ l := by
        intro a'
        simp [hb]
      rw [lookup_insert_ne hb, hne]
      simp only [hne]

/-- A map with no value under two keys has the collected map for its inverse. -/
lemma inverse_reverseMap {entries : AList fun _ : α => β}
    (hinj : ∀ a a' b, entries.lookup a = some b → entries.lookup a' = some b → a = a') :
    Inverse entries.lookup (fun b => (reverseMap entries).lookup b) := by
  intro a b
  have hmem : ∀ a b, ⟨a, b⟩ ∈ entries.entries ↔ entries.lookup a = some b := fun a b =>
    mem_lookup_iff.symm
  have hl : ∀ e ∈ entries.entries, ∀ e' ∈ entries.entries, e.2 = e'.2 → e.1 = e'.1 := by
    rintro ⟨a₁, b₁⟩ h₁ ⟨a₂, b₂⟩ h₂ heq
    subst heq
    exact hinj a₁ a₂ b₁ ((hmem _ _).mp h₁) ((hmem _ _).mp h₂)
  show entries.lookup a = some b ↔ (reverseMap entries).lookup b = some a
  rw [reverseMap, lookup_collect _ _ hl, hmem]
  simp

end Reverse

/-- What the collected map finds under `b` is the key of the last entry with that value. -/
lemma lookup_reverseMap [DecidableEq β] (entries : AList fun _ : α => β) (b : β) :
    (reverseMap entries).lookup b =
      (entries.entries.reverse.find? fun e => e.2 = b).map Sigma.fst := by
  suffices h : ∀ (l : List (Σ _ : α, β)) (m : AList fun _ : β => α),
      (l.foldl (fun m e => m.insert e.2 e.1) m).lookup b =
        ((l.reverse.find? fun e => e.2 = b).map Sigma.fst).or (m.lookup b) by
    rw [reverseMap, h, lookup_empty, or_none]
  intro l
  induction l with
  | nil => exact fun m => rfl
  | cons e l ih =>
    intro m
    rw [foldl_cons, ih, reverse_cons, find?_append]
    cases hfind : l.reverse.find? fun e => e.2 = b with
    | some e' => simp
    | none =>
      by_cases hb : e.2 = b
      · subst hb
        simp [lookup_insert]
      · simp [hb, lookup_insert_ne (Ne.symm hb)]

/-- The key of a value that stands under no other. -/
lemma lookup_reverseMap_of_unique [DecidableEq α] [DecidableEq β] {entries : AList fun _ : α => β}
    {a b} (ha : entries.lookup a = some b) (hunique : ∀ a', entries.lookup a' = some b → a' = a) :
    (reverseMap entries).lookup b = some a := by
  rw [lookup_reverseMap]
  cases hfind : entries.entries.reverse.find? fun e => e.2 = b with
  | none =>
    rw [find?_eq_none] at hfind
    have hmem : (⟨a, b⟩ : Σ _ : α, β) ∈ entries.entries := mem_lookup_iff.mp ha
    exact absurd (decide_eq_true rfl) (hfind ⟨a, b⟩ (mem_reverse.mpr hmem))
  | some e =>
    have hmem := mem_reverse.mp (mem_of_find?_eq_some hfind)
    have hval : e.2 = b := by simpa using find?_some hfind
    obtain ⟨a', b'⟩ := e
    obtain rfl : b' = b := hval
    exact congrArg some (hunique a' (mem_lookup_iff.mpr hmem))

/-! ### Entries that stay -/

section OrInsert

variable [DecidableEq α]

/-- `entry(key).or_insert(value)`: what stands under the key stays. -/
def orInsert (m : AList fun _ : α => β) (key : α) (value : β) : AList fun _ : α => β :=
  match m.lookup key with
  | none => m.insert key value
  | some _ => m

lemma lookup_orInsert (m : AList fun _ : α => β) (key key' : α) (value : β) :
    (orInsert m key value).lookup key' =
      if key = key' then (m.lookup key').or (some value) else m.lookup key' := by
  unfold orInsert
  by_cases hkey : key = key'
  · subst hkey
    rw [if_pos rfl]
    cases hlookup : m.lookup key with
    | none => exact lookup_insert m
    | some kept => exact hlookup
  · rw [if_neg hkey]
    cases m.lookup key with
    | none => exact lookup_insert_ne (Ne.symm hkey)
    | some kept => rfl

end OrInsert

end Meow
