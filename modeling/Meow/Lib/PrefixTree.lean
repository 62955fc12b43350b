import Mathlib.Tactic

/-!
# Prefix trees

A prefix tree has a value at every node and children under different keys. A path of keys leads
to a node; a path that the tree does not have leads to the default value. The children of a node
are a list, and a tree whose lists of children are rearranged has the same value at each path.

## Main definitions

* `PrefixTree` — a tree, with `valueAt` and `modifyAt`.
* `PrefixTree.AllNodes` — a property of the keys at each node.
* `PrefixTree.rearrange` — the tree with the children of each node in another order.

## Main results

* `PrefixTree.valueAt_modifyAt` — a change at one path.
* `PrefixTree.valueAt_rearrange` — the order of the children does not matter.
-/

namespace Meow

open List Prod

/-- A value, and children under keys. -/
inductive PrefixTree (κ ν : Type) where
  | node (value : ν) (children : List (κ × PrefixTree κ ν))

/-- Change the child under `key`; one that is missing is `fresh` before. -/
def upsert {κ τ : Type} [DecidableEq κ] (fresh : τ) (f : τ → τ) (key : κ) :
    List (κ × τ) → List (κ × τ)
  | [] => [(key, f fresh)]
  | (k, c) :: rest => if k = key then (k, f c) :: rest else (k, c) :: upsert fresh f key rest

/-- The entry under a key, by a scan. -/
def lookupKey {κ τ : Type} [DecidableEq κ] (key : κ) (l : List (κ × τ)) : Option τ :=
  (l.find? fun e => e.1 = key).map Prod.snd

section Entries

variable {κ τ : Type} [DecidableEq κ]

@[simp] lemma lookupKey_nil (key : κ) : lookupKey key ([] : List (κ × τ)) = none := rfl

lemma lookupKey_cons (key k : κ) (c : τ) (l : List (κ × τ)) :
    lookupKey key ((k, c) :: l) = if k = key then some c else lookupKey key l := by
  by_cases h : k = key <;> simp [lookupKey, h]

lemma lookupKey_upsert (fresh : τ) (f : τ → τ) (key k : κ) (l : List (κ × τ)) :
    lookupKey k (upsert fresh f key l) =
      if k = key then some (f ((lookupKey key l).getD fresh)) else lookupKey k l := by
  induction l with
  | nil => simp [upsert, lookupKey_cons, eq_comm]
  | cons e l ih =>
    obtain ⟨k', c⟩ := e
    rw [upsert]
    by_cases hkey : k' = key
    · subst hkey
      by_cases hk : k = k'
      · subst hk
        simp [lookupKey_cons]
      · simp [lookupKey_cons, hk, Ne.symm hk]
    · rw [if_neg hkey, lookupKey_cons, ih, lookupKey_cons, lookupKey_cons, if_neg hkey]
      by_cases hk : k' = k
      · subst hk
        simp [hkey]
      · simp [hk]

/-- The keys after a change: the same, or with the new one at the end. -/
lemma keys_upsert (fresh : τ) (f : τ → τ) (key : κ) (l : List (κ × τ)) :
    (upsert fresh f key l).map fst =
      if key ∈ l.map fst then l.map fst else l.map fst ++ [key] := by
  induction l with
  | nil => simp [upsert]
  | cons e l ih =>
    obtain ⟨k', c⟩ := e
    rw [upsert]
    by_cases hkey : k' = key
    · simp [hkey]
    · rw [if_neg hkey, map_cons, ih]
      by_cases hmem : key ∈ l.map fst
      · simp only [map_cons, mem_cons, hmem, or_true, if_true]
      · have hnot : key ∉ k' :: l.map fst := by
          rw [mem_cons, not_or]
          exact ⟨Ne.symm hkey, hmem⟩
        simp only [if_neg hmem, map_cons, if_neg hnot, cons_append]

variable {l : List (κ × τ)}

lemma mem_upsert {fresh f key e} (h : e ∈ upsert fresh f key l) :
    e ∈ l ∨ e.1 = key ∧ (e.2 = f fresh ∨ ∃ c, (key, c) ∈ l ∧ e.2 = f c) := by
  induction l with
  | nil =>
    rw [upsert, mem_singleton] at h
    exact .inr ⟨by rw [h], .inl (by rw [h])⟩
  | cons e' l ih =>
    obtain ⟨k', c⟩ := e'
    rw [upsert] at h
    split_ifs at h with hkey
    · subst hkey
      rcases mem_cons.mp h with rfl | hmem
      · exact .inr ⟨rfl, .inr ⟨c, mem_cons_self, rfl⟩⟩
      · exact .inl (mem_cons_of_mem _ hmem)
    · rcases mem_cons.mp h with rfl | hmem
      · exact .inl mem_cons_self
      · rcases ih hmem with hold | ⟨hk, hnew⟩
        · exact .inl (mem_cons_of_mem _ hold)
        · refine .inr ⟨hk, hnew.imp id ?_⟩
          rintro ⟨c', hc', hf⟩
          exact ⟨c', mem_cons_of_mem _ hc', hf⟩

/-- With different keys, an entry of the list is the one that a scan finds. -/
lemma lookupKey_eq_some_iff (hnodup : (l.map fst).Nodup) {key c} :
    lookupKey key l = some c ↔ (key, c) ∈ l := by
  induction l with
  | nil => simp
  | cons e l ih =>
    obtain ⟨k, c'⟩ := e
    rw [map_cons, nodup_cons] at hnodup
    rw [lookupKey_cons]
    by_cases hk : k = key
    · subst hk
      have hnot : (k, c) ∉ l := fun hmem => hnodup.1 (mem_map.mpr ⟨_, hmem, rfl⟩)
      simp [hnot, eq_comm]
    · rw [if_neg hk, ih hnodup.2]
      simp [Ne.symm hk]

/-- With different keys, the order of the entries does not matter. -/
lemma lookupKey_perm {l'} (hperm : l.Perm l') (hnodup : (l.map fst).Nodup) (key : κ) :
    lookupKey key l = lookupKey key l' := by
  have hnodup' : (l'.map fst).Nodup := (hperm.map _).nodup_iff.mp hnodup
  ext c
  rw [lookupKey_eq_some_iff hnodup, lookupKey_eq_some_iff hnodup', hperm.mem_iff]

end Entries

namespace PrefixTree

variable {κ ν : Type}

/-- The value of the root. -/
def value : PrefixTree κ ν → ν
  | node value _ => value

/-- The children of the root. -/
def children : PrefixTree κ ν → List (κ × PrefixTree κ ν)
  | node _ children => children

/-- A tree without children. -/
def leaf [Inhabited ν] : PrefixTree κ ν := node default []

/-- Change the value at a path; nodes that are missing are added. -/
def modifyAt [DecidableEq κ] [Inhabited ν] (f : ν → ν) : List κ → PrefixTree κ ν → PrefixTree κ ν
  | [], node value children => node (f value) children
  | key :: path, node value children =>
    node value (upsert leaf (modifyAt f path) key children)

/-- The value at a path. -/
def valueAt [DecidableEq κ] [Inhabited ν] : List κ → PrefixTree κ ν → ν
  | [], t => t.value
  | key :: path, t =>
    match lookupKey key t.children with
    | none => default
    | some child => valueAt path child

/-- The keys of the children of each node have the property `Q`. -/
inductive AllNodes (Q : List κ → Prop) : PrefixTree κ ν → Prop
  | node {value : ν} {children : List (κ × PrefixTree κ ν)} (keys : Q (children.map Prod.fst))
      (all : ∀ e ∈ children, AllNodes Q e.2) : AllNodes Q (node value children)

section

variable {Q : List κ → Prop} {t : PrefixTree κ ν} (h : t.AllNodes Q)
include h

lemma AllNodes.keys_children : Q (t.children.map fst) := by
  obtain ⟨hkeys, -⟩ := h
  exact hkeys

lemma AllNodes.child {e} (he : e ∈ t.children) : e.2.AllNodes Q := by
  obtain ⟨-, hall⟩ := h
  exact hall e he

end

section Modify

variable [DecidableEq κ] [Inhabited ν]

@[simp] lemma valueAt_leaf (path : List κ) : valueAt path (leaf : PrefixTree κ ν) = default := by
  cases path <;> rfl

/-- **A change at one path** changes the value at that path and at no other. -/
theorem valueAt_modifyAt (f : ν → ν) (path p : List κ) (t : PrefixTree κ ν) :
    valueAt p (modifyAt f path t) = if p = path then f (valueAt path t) else valueAt p t := by
  induction path generalizing p t with
  | nil =>
    obtain ⟨value, children⟩ := t
    cases p with
    | nil => rfl
    | cons key p => rfl
  | cons key path ih =>
    obtain ⟨value, children⟩ := t
    cases p with
    | nil => rfl
    | cons k p =>
      simp only [modifyAt, valueAt, PrefixTree.children, lookupKey_upsert]
      by_cases hk : k = key
      · subst hk
        simp only [if_true, ih, cons.injEq, true_and]
        cases lookupKey k children with
        | none => simp
        | some child => rfl
      · simp [hk]

omit [DecidableEq κ] in
lemma AllNodes.leaf {Q} (hnil : Q []) : (leaf : PrefixTree κ ν).AllNodes Q := .node hnil (by simp)

/-- A change at a path keeps a property of the keys that each new key of the path keeps. -/
lemma AllNodes.modifyAt {Q} (f : ν → ν) (hnil : Q []) {path}
    (hadd : ∀ key ∈ path, ∀ keys, Q keys → key ∉ keys → Q (keys ++ [key])) {t : PrefixTree κ ν}
    (h : t.AllNodes Q) : (t.modifyAt f path).AllNodes Q := by
  induction path generalizing t with
  | nil =>
    obtain ⟨hkeys, hall⟩ := h
    exact .node hkeys hall
  | cons key path ih =>
    obtain ⟨hkeys, hall⟩ := h
    have hrest : ∀ k ∈ path, ∀ keys, Q keys → k ∉ keys → Q (keys ++ [k]) :=
      fun k hk => hadd k (mem_cons_of_mem _ hk)
    refine .node ?_ ?_
    · rw [keys_upsert]
      split_ifs with hmem
      · exact hkeys
      · exact hadd key mem_cons_self _ hkeys hmem
    · intro e he
      rcases mem_upsert he with hold | ⟨-, hfresh | ⟨c, hc, hchild⟩⟩
      · exact hall e hold
      · rw [hfresh]
        exact ih hrest (.leaf hnil)
      · rw [hchild]
        exact ih hrest (hall _ hc)

end Modify

/-! ### The order of the children -/

section Rearrange

variable (arrange : List (κ × PrefixTree κ ν) → List (κ × PrefixTree κ ν))

mutual

/-- The tree with the children of each node rearranged. -/
def rearrange : PrefixTree κ ν → PrefixTree κ ν
  | node value children => node value (arrange (rearrangeAll children))

/-- The children, each rearranged. -/
def rearrangeAll : List (κ × PrefixTree κ ν) → List (κ × PrefixTree κ ν)
  | [] => []
  | (key, child) :: rest => (key, rearrange child) :: rearrangeAll rest

end

variable (l : List (κ × PrefixTree κ ν))

lemma rearrangeAll_eq_map :
    rearrangeAll arrange l = l.map fun e => (e.1, rearrange arrange e.2) := by
  induction l with
  | nil => simp [rearrangeAll]
  | cons e l ih =>
    rw [rearrangeAll, ih, map_cons]

lemma keys_rearrangeAll : (rearrangeAll arrange l).map fst = l.map fst := by
  simp [rearrangeAll_eq_map]

variable {t : PrefixTree κ ν}

/-- Rearranging gives each node's keys what it gives to every list of children. -/
lemma AllNodes.rearrange {Q Q'} (harrange : ∀ l, Q (l.map fst) → Q' ((arrange l).map fst))
    (hperm : ∀ l, (arrange l).Perm l) (h : t.AllNodes Q) : (t.rearrange arrange).AllNodes Q' := by
  induction h with
  | @node value children hkeys _ ih =>
    refine .node (harrange _ ?_) fun e he => ?_
    · rw [keys_rearrangeAll]
      exact hkeys
    · rw [(hperm _).mem_iff, rearrangeAll_eq_map] at he
      obtain ⟨e', he', rfl⟩ := mem_map.mp he
      exact ih e' he'

/-- **The order of the children does not matter** to the value at a path. -/
theorem valueAt_rearrange [DecidableEq κ] [Inhabited ν] {Q} (hnodup : ∀ keys, Q keys → keys.Nodup)
    (hperm : ∀ l, (arrange l).Perm l) (path : List κ) (h : t.AllNodes Q) :
    valueAt path (t.rearrange arrange) = valueAt path t := by
  induction path generalizing t with
  | nil =>
    obtain ⟨value, children⟩ := t
    rfl
  | cons key path ih =>
    obtain ⟨value, children⟩ := t
    have hkeys : ((arrange (rearrangeAll arrange children)).map fst).Nodup := by
      rw [((hperm _).map _).nodup_iff, keys_rearrangeAll]
      exact hnodup _ h.keys_children
    have hlookup : lookupKey key (arrange (rearrangeAll arrange children)) =
        (lookupKey key children).map (rearrange arrange) := by
      rw [lookupKey_perm (hperm _) hkeys, rearrangeAll_eq_map]
      simp [lookupKey, find?_map, Function.comp_def]
    simp only [PrefixTree.rearrange, valueAt, PrefixTree.children, hlookup]
    cases hchild : lookupKey key children with
    | none => rfl
    | some child =>
      exact ih (h.child ((lookupKey_eq_some_iff (hnodup _ h.keys_children)).mp hchild))

end Rearrange

end PrefixTree

end Meow
