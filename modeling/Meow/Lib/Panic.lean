import Mathlib.Tactic

/-!
# Operations that can panic

A program that walks over untrusted bytes reads them in two ways. An index expression `l[i]` is
checked at run time and panics when it lies outside the slice; `l.get(i)` and `l.get(a..b)` hand the
check back to the caller. Arithmetic on machine integers overflows in the same silent way. This file
has these operations with the panic as an explicit outcome, and the lemmas that evaluate a read at a
position given as the length of what stands in front of it.

## Main definitions

* `Panic`, `Returns` — what stops a thread, and a computation that is not stopped.
* `index`, `getRange` — `l[i]` and `l.get(a..b)`.
* `checkedAdd`, `checkedSub`, `checkedShl` — `a + b`, `a - b` and `1 << k` on machine integers.

## Main results

* `index_append`, `getElem?_append_length`, `getRange_append` — the reads behind a known front.
-/

namespace Meow

open List

/-- What stops a thread. -/
inductive Panic where
  /-- `index out of bounds: the len is {len} but the index is {index}` -/
  | indexOutOfBounds (index len : ℕ)
  /-- `attempt to add with overflow`, and the like. -/
  | arithmeticOverflow
  deriving DecidableEq

/-- The computation ends without an error. -/
def Returns {ε α : Type} (x : Except ε α) : Prop := ∃ a, x = .ok a

lemma returns_ok {ε α : Type} (a : α) : Returns (.ok a : Except ε α) := ⟨a, rfl⟩

lemma not_returns_error {ε α : Type} (e : ε) : ¬Returns (.error e : Except ε α) := by
  rintro ⟨a, h⟩
  cases h

section Arithmetic

/-- `a + b` on integers of so many bits. -/
def checkedAdd (w a b : ℕ) : Except Panic ℕ :=
  if a + b < 2 ^ w then .ok (a + b) else .error .arithmeticOverflow

/-- `a - b` on unsigned integers. -/
def checkedSub (a b : ℕ) : Except Panic ℕ :=
  if b ≤ a then .ok (a - b) else .error .arithmeticOverflow

/-- `1 << k` on integers of so many bits. -/
def checkedShl (w k : ℕ) : Except Panic ℕ :=
  if k < w then .ok (2 ^ k) else .error .arithmeticOverflow

lemma checkedSub_of_le {a b} (h : b ≤ a) : checkedSub a b = .ok (a - b) := if_pos h

lemma checkedShl_of_lt {w k} (h : k < w) : checkedShl w k = .ok (2 ^ k) := if_pos h

end Arithmetic

section Slice

variable {α : Type}

/-- `l[i]`. -/
def index (l : List α) (i : ℕ) : Except Panic α :=
  match l[i]? with
  | some a => .ok a
  | none => .error (.indexOutOfBounds i l.length)

/-- `l.get(a..b)`. -/
def getRange (l : List α) (a b : ℕ) : Option (List α) :=
  if a ≤ b ∧ b ≤ l.length then some ((l.take b).drop a) else none

/-- An index inside the slice is read. -/
lemma returns_index_bind {β : Type} {l : List α} {i : ℕ} (h : i < l.length)
    {f : α → Except Panic β} (hf : ∀ a, Returns (f a)) : Returns (index l i >>= f) := by
  rw [index, getElem?_eq_getElem h]
  exact hf l[i]

lemma index_of_getElem? {l : List α} {i a} (h : l[i]? = some a) : index l i = .ok a := by
  rw [index, h]

lemma getElem?_append_length (front back : List α) (k : ℕ) :
    (front ++ back)[front.length + k]? = back[k]? := by
  rw [getElem?_append_right (Nat.le_add_right _ _), Nat.add_sub_cancel_left]

/-- A read behind a known front reads what follows the front. -/
lemma index_append {front back : List α} {k a} (h : back[k]? = some a) :
    index (front ++ back) (front.length + k) = .ok a :=
  index_of_getElem? (by rw [getElem?_append_length, h])

/-- The range between a known front and a known rest. -/
lemma getRange_append (front mid back : List α) :
    getRange (front ++ (mid ++ back)) front.length (front.length + mid.length) = some mid := by
  have hlen : front.length + mid.length ≤ (front ++ (mid ++ back)).length := by
    simp only [length_append]
    omega
  rw [getRange, if_pos ⟨Nat.le_add_right _ _, hlen⟩, take_length_add_append,
    take_left, drop_left]

end Slice

end Meow
