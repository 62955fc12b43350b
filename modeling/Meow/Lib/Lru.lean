import Mathlib.Tactic

/-!
# Caches ordered by use

An LRU cache is a map that remembers the order in which its keys were last used. It is known
here by its documented interface: a type with the operations, and the list of its entries, from
the most to the least recently used one, that each operation leaves.

## Main definitions

* `LruCache` — the interface and its laws.
* `LruCache.find` — the value under a key, without using it.
* `ListLru` — a list of entries, which has the interface.

## Main results

* `LruCache.find_get`, `LruCache.find_put`, `LruCache.find_pop`,
  `LruCache.find_popLru` — what each operation does to the map.
* `LruCache.popLru_ne_newest` — the entry used last is not the one to go.
-/

namespace Meow

open List Prod

/-- The entries without those of `key`. -/
def dropKey {κ ν : Type} [DecidableEq κ] (key : κ) (entries : List (κ × ν)) : List (κ × ν) :=
  entries.filter fun e => e.1 ≠ key

/-- The entries with that of `key` moved to the front. -/
def useKey {κ ν : Type} [DecidableEq κ] (key : κ) (entries : List (κ × ν)) : List (κ × ν) :=
  match entries.lookup key with
  | none => entries
  | some value => (key, value) :: dropKey key entries

/-- The interface of an LRU cache without a bound on its size. -/
class LruCache (C : Type → Type → Type) where
  /-- The entries, the most recently used one first. -/
  entries {κ ν : Type} : C κ ν → List (κ × ν)
  nodup {κ ν : Type} (c : C κ ν) : ((entries c).map Prod.fst).Nodup
  /-- `LruCache::unbounded`. -/
  unbounded {κ ν : Type} : C κ ν
  entries_unbounded {κ ν : Type} : entries (unbounded : C κ ν) = []
  /-- `LruCache::get` and `LruCache::get_mut`: the value, and the key counts as used. -/
  get {κ ν : Type} [DecidableEq κ] : C κ ν → κ → Option ν × C κ ν
  get_fst {κ ν : Type} [DecidableEq κ] (c : C κ ν) (k : κ) : (get c k).1 = (entries c).lookup k
  entries_get {κ ν : Type} [DecidableEq κ] (c : C κ ν) (k : κ) :
    entries (get c k).2 = useKey k (entries c)
  /-- `LruCache::peek`: the value, and nothing counts as used. -/
  peek {κ ν : Type} [DecidableEq κ] : C κ ν → κ → Option ν
  peek_eq {κ ν : Type} [DecidableEq κ] (c : C κ ν) (k : κ) : peek c k = (entries c).lookup k
  /-- `LruCache::put`: the key has the new value and counts as used. -/
  put {κ ν : Type} [DecidableEq κ] : C κ ν → κ → ν → C κ ν
  entries_put {κ ν : Type} [DecidableEq κ] (c : C κ ν) (k : κ) (v : ν) :
    entries (put c k v) = (k, v) :: dropKey k (entries c)
  /-- `LruCache::pop`: remove a key. -/
  pop {κ ν : Type} [DecidableEq κ] : C κ ν → κ → Option ν × C κ ν
  pop_fst {κ ν : Type} [DecidableEq κ] (c : C κ ν) (k : κ) : (pop c k).1 = (entries c).lookup k
  entries_pop {κ ν : Type} [DecidableEq κ] (c : C κ ν) (k : κ) :
    entries (pop c k).2 = dropKey k (entries c)
  /-- `LruCache::pop_lru`: remove the least recently used entry. -/
  popLru {κ ν : Type} : C κ ν → Option (κ × ν) × C κ ν
  popLru_fst {κ ν : Type} (c : C κ ν) : (popLru c).1 = (entries c).getLast?
  entries_popLru {κ ν : Type} (c : C κ ν) : entries (popLru c).2 = (entries c).dropLast
  /-- `LruCache::clear`. -/
  clear {κ ν : Type} : C κ ν → C κ ν
  entries_clear {κ ν : Type} (c : C κ ν) : entries (clear c) = []
  /-- `LruCache::len`. -/
  len {κ ν : Type} : C κ ν → ℕ
  len_eq {κ ν : Type} (c : C κ ν) : len c = (entries c).length

/-! ### Lists of entries -/

section Entries

variable {κ ν : Type} [DecidableEq κ]

lemma lookup_dropKey (key k : κ) (entries : List (κ × ν)) :
    (dropKey key entries).lookup k = if k = key then none else entries.lookup k := by
  induction entries with
  | nil => simp [dropKey]
  | cons e entries ih =>
    obtain ⟨k', v⟩ := e
    unfold dropKey at ih ⊢
    by_cases hk' : k' = key
    · subst hk'
      rw [filter_cons_of_neg (by simp), ih]
      by_cases hk : k = k'
      · simp [hk]
      · rw [if_neg hk, if_neg hk, lookup_cons, beq_eq_false_iff_ne.mpr hk]
    · rw [filter_cons_of_pos (by simp [hk']), lookup_cons, lookup_cons, ih]
      by_cases hk : k = k'
      · subst hk
        simp [hk']
      · rw [beq_eq_false_iff_ne.mpr hk]

lemma lookup_useKey (key k : κ) (entries : List (κ × ν)) :
    (useKey key entries).lookup k = entries.lookup k := by
  unfold useKey
  cases hkey : entries.lookup key with
  | none => rfl
  | some v =>
    simp only [lookup_cons, lookup_dropKey]
    by_cases hk : k = key
    · subst hk
      simp [hkey]
    · rw [beq_eq_false_iff_ne.mpr hk, if_neg hk]

variable {entries : List (κ × ν)}

lemma mem_of_lookup {k v} (h : entries.lookup k = some v) : (k, v) ∈ entries := by
  induction entries with
  | nil => simp at h
  | cons e entries ih =>
    obtain ⟨k', v'⟩ := e
    rw [lookup_cons] at h
    by_cases hk : k = k'
    · subst hk
      simp only [beq_self_eq_true, Option.some.injEq] at h
      rw [h]
      exact mem_cons_self
    · rw [beq_eq_false_iff_ne.mpr hk] at h
      exact mem_cons_of_mem _ (ih h)

/-- Taking away the last entry takes away its key. -/
lemma lookup_dropLast (hnodup : (entries.map fst).Nodup) {key value}
    (hlast : entries.getLast? = some (key, value)) (k : κ) :
    entries.dropLast.lookup k = if k = key then none else entries.lookup k := by
  obtain ⟨init, rfl⟩ : ∃ init, entries = init ++ [(key, value)] :=
    ⟨entries.dropLast, (dropLast_append_getLast? _ hlast).symm⟩
  rw [dropLast_concat]
  have hnot : key ∉ init.map fst := by
    rw [map_append, nodup_append] at hnodup
    intro hmem
    exact hnodup.2.2 key hmem key (by simp) rfl
  split_ifs with hk
  · rw [hk]
    cases hl : init.lookup key with
    | none => rfl
    | some v => exact absurd (mem_map.mpr ⟨_, mem_of_lookup hl, rfl⟩) hnot
  · rw [lookup_append, lookup_cons, beq_eq_false_iff_ne.mpr hk]
    simp

end Entries

/-! ### The cache as a map -/

namespace LruCache

variable {C : Type → Type → Type} [LruCache C] {κ ν : Type} [DecidableEq κ]

/-- The value under a key. -/
def find (c : C κ ν) (k : κ) : Option ν := (entries c).lookup k

@[simp] lemma find_unbounded (k : κ) : find (unbounded : C κ ν) k = none := by
  simp [find, entries_unbounded]

section

variable (c : C κ ν)
include c

@[simp] lemma find_clear (k : κ) : find (clear c) k = none := by
  simp [find, entries_clear]

lemma peek_eq_find (k : κ) : peek c k = find c k := peek_eq c k

lemma get_eq_find (k : κ) : (get c k).1 = find c k := get_fst c k

lemma pop_eq_find (k : κ) : (pop c k).1 = find c k := pop_fst c k

lemma find_get (key k : κ) : find (get c key).2 k = find c k := by
  rw [find, entries_get, lookup_useKey, find]

lemma find_put (key : κ) (value : ν) (k : κ) :
    find (put c key value) k = if k = key then some value else find c k := by
  rw [find, entries_put, lookup_cons, lookup_dropKey]
  by_cases hk : k = key
  · simp [hk]
  · rw [beq_eq_false_iff_ne.mpr hk, if_neg hk, if_neg hk, find]

lemma find_pop (key k : κ) : find (pop c key).2 k = if k = key then none else find c k := by
  rw [find, entries_pop, lookup_dropKey, find]

end

variable {c : C κ ν} {value : ν} {key : κ}

lemma find_popLru (h : (popLru c).1 = some (key, value)) (k : κ) :
    find (popLru c).2 k = if k = key then none else find c k := by
  rw [popLru_fst] at h
  rw [find, entries_popLru, lookup_dropLast (nodup c) h, find]

/-- The entry that is to go is one of the map's. -/
lemma find_of_popLru (h : (popLru c).1 = some (key, value)) : find c key = some value := by
  rw [popLru_fst] at h
  have hnodup := nodup c
  obtain ⟨init, hinit⟩ : ∃ init, entries c = init ++ [(key, value)] :=
    ⟨(entries c).dropLast, (dropLast_append_getLast? _ h).symm⟩
  rw [hinit, map_append, nodup_append] at hnodup
  rw [find, hinit, lookup_append]
  cases hl : init.lookup key with
  | none => simp
  | some v =>
    exact absurd rfl (hnodup.2.2 key (mem_map.mpr ⟨_, mem_of_lookup hl, rfl⟩) key (by simp))

/-- Removing the least recently used entry takes away at most the entry of a key. -/
lemma find_popLru_or (c : C κ ν) (k : κ) :
    find (popLru c).2 k = find c k ∨ find (popLru c).2 k = none := by
  cases h : (popLru c).1 with
  | none =>
    have hnil : entries c = [] := getLast?_eq_none_iff.mp ((popLru_fst c).symm.trans h)
    left
    rw [find, find, entries_popLru, hnil, dropLast_nil]
  | some e =>
    rw [find_popLru h]
    split_ifs
    · exact .inr rfl
    · exact .inl rfl

lemma len_put_le (c : C κ ν) (k : κ) (v : ν) : len (put c k v) ≤ len c + 1 := by
  rw [len_eq, len_eq, entries_put]
  exact Nat.succ_le_succ (length_filter_le _ _)

/-- A key that is read before it is written is counted once. -/
lemma len_put_get_le (c : C κ ν) (k : κ) (v : ν) : len (put (get c k).2 k v) ≤ len c + 1 := by
  have hdrop : dropKey k (useKey k (entries c)) = dropKey k (entries c) := by
    unfold useKey
    split
    · rfl
    · simp [dropKey, filter_filter]
  rw [len_eq, len_eq, entries_put, entries_get, hdrop]
  exact Nat.succ_le_succ (length_filter_le _ _)

/-- The entry used last. -/
def newest (c : C κ ν) : Option (κ × ν) := (entries c).head?

lemma newest_put (c : C κ ν) (key : κ) (value : ν) :
    newest (put c key value) = some (key, value) := by
  rw [newest, entries_put, head?_cons]

lemma find_of_newest (h : newest c = some (key, value)) : find c key = some value := by
  obtain ⟨rest, hrest⟩ := head?_eq_some_iff.mp h
  simp [find, hrest]

lemma newest_pop {k} (h : newest c = some (key, value)) (hne : key ≠ k) :
    newest (pop c k).2 = some (key, value) := by
  obtain ⟨rest, hrest⟩ := head?_eq_some_iff.mp h
  rw [newest, entries_pop, hrest, dropKey, filter_cons_of_pos (by simpa using hne), head?_cons]

omit [DecidableEq κ] in
lemma newest_popLru {c : C κ ν} (hlen : 1 < len c) : newest (popLru c).2 = newest c := by
  rw [len_eq] at hlen
  rw [newest, newest, entries_popLru]
  match entries c, hlen with
  | e :: e' :: rest, _ => simp

omit [DecidableEq κ] in
/-- The entry used last is not the one to go, as long as there is another. -/
lemma popLru_ne_newest {c : C κ ν} {key' : κ} {value value' : ν} (hlen : 1 < len c)
    (hnew : newest c = some (key, value)) (h : (popLru c).1 = some (key', value')) :
    key' ≠ key := by
  have hnodup := nodup c
  obtain ⟨rest, hrest⟩ := head?_eq_some_iff.mp hnew
  rw [popLru_fst, hrest] at h
  rw [len_eq, hrest] at hlen
  rw [hrest, map_cons, nodup_cons] at hnodup
  cases rest with
  | nil => simp at hlen
  | cons e rest =>
    intro hkey
    subst hkey
    exact hnodup.1 (mem_map.mpr ⟨_, mem_of_getLast? h, rfl⟩)

end LruCache

/-! ### A cache as a list -/

/-- A list of entries with different keys. -/
structure ListLru (κ ν : Type) where
  entries : List (κ × ν)
  nodup : (entries.map Prod.fst).Nodup

section ListLru

variable {κ ν : Type} [DecidableEq κ] {entries : List (κ × ν)}

lemma nodup_dropKey (key : κ) (h : (entries.map fst).Nodup) :
    ((dropKey key entries).map fst).Nodup := h.sublist (filter_sublist.map _)

lemma nodup_cons_dropKey (key : κ) (value : ν) (h : (entries.map fst).Nodup) :
    (((key, value) :: dropKey key entries).map fst).Nodup := by
  rw [map_cons, nodup_cons]
  refine ⟨?_, nodup_dropKey key h⟩
  simp [dropKey]

lemma nodup_useKey (key : κ) (h : (entries.map fst).Nodup) :
    ((useKey key entries).map fst).Nodup := by
  unfold useKey
  split
  · exact h
  · exact nodup_cons_dropKey key _ h

end ListLru

/-- A list of entries has the interface of an LRU cache. -/
instance : LruCache ListLru where
  entries c := c.entries
  nodup c := c.nodup
  unbounded := ⟨[], by simp⟩
  entries_unbounded := rfl
  get c k := (c.entries.lookup k, ⟨useKey k c.entries, nodup_useKey k c.nodup⟩)
  get_fst _ _ := rfl
  entries_get _ _ := rfl
  peek c k := c.entries.lookup k
  peek_eq _ _ := rfl
  put c k v := ⟨(k, v) :: dropKey k c.entries, nodup_cons_dropKey k v c.nodup⟩
  entries_put _ _ _ := rfl
  pop c k := (c.entries.lookup k, ⟨dropKey k c.entries, nodup_dropKey k c.nodup⟩)
  pop_fst _ _ := rfl
  entries_pop _ _ := rfl
  popLru c := (c.entries.getLast?, ⟨c.entries.dropLast,
    c.nodup.sublist ((List.dropLast_sublist _).map _)⟩)
  popLru_fst _ := rfl
  entries_popLru _ := rfl
  clear _ := ⟨[], by simp⟩
  entries_clear _ := rfl
  len c := c.entries.length
  len_eq _ := rfl

end Meow
