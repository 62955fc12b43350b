import Mathlib.Tactic

/-!
# The first match in any order

A table that keeps the value that was entered first, or last, depends on the order of the entries
exactly when two of them have different values for one key.

## Main definitions

* `Agree` — the entries that have a value have the same.
* `OrderFree` — tables made of the entries in any two orders answer alike.

## Main results

* `Agree.findSome?_eq` — the first value is then the same in every order.
* `exists_perm_cons` — each entry comes first in some order.
-/

namespace Meow

open List Option

variable {α β : Type} {g : α → Option β} {l l' : List α}

/-- **The entries that have a value have the same.** -/
def Agree (g : α → Option β) (l : List α) : Prop :=
  ∀ a ∈ l, ∀ b ∈ l, ∀ v w, g a = some v → g b = some w → v = w

lemma Agree.perm (h : Agree g l) (hperm : l'.Perm l) : Agree g l' :=
  fun a ha b hb => h a (hperm.mem_iff.mp ha) b (hperm.mem_iff.mp hb)

/-- **The first value is the same in every order.** -/
lemma Agree.findSome?_eq (h : Agree g l) (hperm : l'.Perm l) : l'.findSome? g = l.findSome? g := by
  cases hl : l.findSome? g with
  | none =>
    rw [findSome?_eq_none_iff] at hl ⊢
    exact fun a ha => hl a (hperm.mem_iff.mp ha)
  | some v =>
    obtain ⟨a, ha, hv⟩ := exists_of_findSome?_eq_some hl
    cases hl' : l'.findSome? g with
    | none =>
      have hnone := findSome?_eq_none_iff.mp hl' a (hperm.mem_iff.mpr ha)
      rw [hnone] at hv
      cases hv
    | some w =>
      obtain ⟨b, hb, hw⟩ := exists_of_findSome?_eq_some hl'
      rw [h b (hperm.mem_iff.mp hb) a ha w v hw hv]

/-- The last value, too. -/
lemma Agree.reverse (h : Agree g l) : Agree g l.reverse := h.perm (reverse_perm l)

/-- The first value of what the entries stand for. -/
lemma findSome?_flatMap {γ : Type} (l : List α) (f : α → List γ) (g : γ → Option β) :
    (l.flatMap f).findSome? g = l.findSome? fun a => (f a).findSome? g := by
  induction l with
  | nil => rfl
  | cons a l ih =>
    rw [flatMap_cons, findSome?_append, ih, findSome?_cons]
    cases (f a).findSome? g <;> rfl

/-- Of two values the first counts, and the second where there is no first. -/
lemma or_congr_of_none {a a' b b' : Option β} (ha : a = a') (hb : a = none → b = b') :
    a.or b = a'.or b' := by
  subst ha
  cases a with
  | none => rw [none_or, none_or, hb rfl]
  | some v => rfl

/-- **Each entry comes first in some order.** -/
lemma exists_perm_cons {a} (ha : a ∈ l) : ∃ rest, (a :: rest).Perm l := by
  obtain ⟨s, t, rfl⟩ := append_of_mem ha
  exact ⟨s ++ t, perm_middle.symm⟩

/-- Entries whose value can be brought to the front agree if the front does not depend on the
order. -/
lemma agree_of_front {A : List α → Option β} {out : Option β} (hsame : ∀ l', l'.Perm l → A l' = out)
    (hfront : ∀ a ∈ l, ∀ v, g a = some v → ∃ l', l'.Perm l ∧ A l' = some v) : Agree g l := by
  intro a ha b hb v w hv hw
  obtain ⟨l₁, hperm₁, hv₁⟩ := hfront a ha v hv
  obtain ⟨l₂, hperm₂, hw₂⟩ := hfront b hb w hw
  have heq : some v = some w := by
    rw [← hv₁, ← hw₂, hsame l₁ hperm₁, hsame l₂ hperm₂]
  exact some.inj heq

/-! ### Tables -/

section Tables

variable {ε τ κ : Type}

/-- Two tables answer alike, or there is none in either case. -/
def SameAnswers (answer : τ → κ → Option β) : Except ε τ → Except ε τ → Prop
  | .ok t, .ok t' => ∀ key, answer t key = answer t' key
  | .error _, .error _ => True
  | _, _ => False

/-- **Tables made of the entries in any two orders answer alike.** -/
def OrderFree (make : List α → Except ε τ) (answer : τ → κ → Option β) (l : List α) : Prop :=
  ∀ l₁ l₂, l₁.Perm l → l₂.Perm l → SameAnswers answer (make l₁) (make l₂)

variable {make : List α → Except ε τ} {answer : τ → κ → Option β}

/-- Entries that no order of gives a table. -/
lemma OrderFree.of_error (h : ∀ l', l'.Perm l → ∃ e, make l' = .error e) :
    OrderFree make answer l := by
  intro l₁ l₂ h₁ h₂
  obtain ⟨e₁, he₁⟩ := h l₁ h₁
  obtain ⟨e₂, he₂⟩ := h l₂ h₂
  rw [he₁, he₂]
  trivial

lemma OrderFree.answer_eq (h : OrderFree make answer l) {l₁ l₂ : List α} (h₁ : l₁.Perm l)
    (h₂ : l₂.Perm l) (key : κ) :
    ((make l₁).toOption.bind fun t => answer t key) =
      (make l₂).toOption.bind fun t => answer t key := by
  have hsame := h l₁ l₂ h₁ h₂
  cases hl₁ : make l₁ <;> cases hl₂ : make l₂ <;> rw [hl₁, hl₂] at hsame
  · rfl
  · exact hsame.elim
  · exact hsame.elim
  · exact hsame key

end Tables

end Meow
