import Mathlib.Tactic

/-!
# Spans of numbers

A set of numbers that is a finite union of spans has one normal form: its spans in order, none of
which touches the next. Merging spans that are sorted by their lower ends gives it.

## Main definitions

* `Covers` — the numbers in some span.
* `Normal` — the normal form.
* `merge` — the merging of sorted spans.

## Main results

* `merge_spec` — it gives the normal form.
* `Normal.unique` — which is unique.
-/

namespace Meow.Spans

open List

/-- The numbers in some span. -/
def Covers (spans : List (ℕ × ℕ)) (n : ℕ) : Prop := ∃ s ∈ spans, s.1 ≤ n ∧ n ≤ s.2

/-- Spans in order, with a gap between each two. -/
def Normal (spans : List (ℕ × ℕ)) : Prop :=
  (∀ s ∈ spans, s.1 ≤ s.2) ∧ spans.Pairwise fun s t => s.2 + 1 < t.1

/-- The merging with `last` as the last span so far, to which a span that touches it is joined. -/
def mergeFrom (last : ℕ × ℕ) : List (ℕ × ℕ) → List (ℕ × ℕ)
  | [] => [last]
  | s :: spans =>
    if s.1 ≤ last.2 + 1 then mergeFrom (last.1, max last.2 s.2) spans
    else last :: mergeFrom s spans

def merge : List (ℕ × ℕ) → List (ℕ × ℕ)
  | [] => []
  | s :: spans => mergeFrom s spans

@[simp] lemma covers_nil (n : ℕ) : ¬Covers [] n := by simp [Covers]

@[simp] lemma covers_cons (s : ℕ × ℕ) (spans : List (ℕ × ℕ)) (n : ℕ) :
    Covers (s :: spans) n ↔ s.1 ≤ n ∧ n ≤ s.2 ∨ Covers spans n := by simp [Covers]

variable {spans : List (ℕ × ℕ)}

lemma normal_cons {s} : Normal (s :: spans) ↔
    s.1 ≤ s.2 ∧ (∀ t ∈ spans, s.2 + 1 < t.1) ∧ Normal spans := by
  simp only [Normal, forall_mem_cons, pairwise_cons]
  tauto

/-- **Merging sorted spans** gives the normal form of what they cover. -/
lemma mergeFrom_spec {last} (hspans : ∀ s ∈ last :: spans, s.1 ≤ s.2)
    (hsorted : (last :: spans).Pairwise fun s t => s.1 ≤ t.1) :
    Normal (mergeFrom last spans) ∧ (∀ t ∈ mergeFrom last spans, last.1 ≤ t.1) ∧
      ∀ n, Covers (mergeFrom last spans) n ↔ Covers (last :: spans) n := by
  induction spans generalizing last with
  | nil => simpa [mergeFrom, Normal] using hspans
  | cons s spans ih =>
    simp only [forall_mem_cons, pairwise_cons] at hspans hsorted
    rw [mergeFrom]
    split_ifs with htouch
    · obtain ⟨hnormal, hstart, hcovers⟩ := @ih (last.1, max last.2 s.2)
        (forall_mem_cons.mpr ⟨by simp; omega, hspans.2.2⟩)
        (pairwise_cons.mpr ⟨hsorted.1.2, hsorted.2.2⟩)
      refine ⟨hnormal, hstart, fun n => ?_⟩
      simp only [hcovers, covers_cons]
      grind
    · obtain ⟨hnormal, hstart, hcovers⟩ := ih (forall_mem_cons.mpr hspans.2)
        (pairwise_cons.mpr hsorted.2)
      refine ⟨normal_cons.mpr ⟨hspans.1, fun t ht => ?_, hnormal⟩,
        forall_mem_cons.mpr ⟨le_rfl, fun t ht => hsorted.1.1.trans (hstart t ht)⟩, fun n => ?_⟩
      · have := hstart t ht
        omega
      · rw [covers_cons, hcovers, covers_cons last]

lemma merge_spec (hspans : ∀ s ∈ spans, s.1 ≤ s.2) (hsorted : spans.Pairwise fun s t => s.1 ≤ t.1) :
    Normal (merge spans) ∧ ∀ n, Covers (merge spans) n ↔ Covers spans n := by
  cases spans with
  | nil => simp [merge, Normal]
  | cons s spans =>
    obtain ⟨hnormal, -, hcovers⟩ := mergeFrom_spec hspans hsorted
    exact ⟨hnormal, hcovers⟩

/-- **The normal form is unique.**

**Proof sketch.** Induction on the spans. The lower end of the first span is the least number, its
upper end the first one with a successor that is not covered. -/
lemma Normal.unique {as bs} (ha : Normal as) (hb : Normal bs) (h : ∀ n, Covers as n ↔ Covers bs n) :
    as = bs := by
  induction as generalizing bs with
  | nil =>
    cases bs with
    | nil => rfl
    | cons b bs => simpa [(normal_cons.mp hb).1] using h b.1
  | cons a as ih =>
    cases bs with
    | nil => simpa [(normal_cons.mp ha).1] using h a.1
    | cons b bs =>
      obtain ⟨hale, hfar, has⟩ := normal_cons.mp ha
      obtain ⟨hble, hfar', hbs⟩ := normal_cons.mp hb
      -- what follows a span lies beyond it, and beyond a gap
      replace hfar : ∀ n, Covers as n → a.2 + 1 < n := fun n ⟨t, ht, hle, _⟩ =>
        (hfar t ht).trans_le hle
      replace hfar' : ∀ n, Covers bs n → b.2 + 1 < n := fun n ⟨t, ht, hle, _⟩ =>
        (hfar' t ht).trans_le hle
      simp only [covers_cons] at h
      have hlo : a.1 = b.1 := by grind
      have hhi : a.2 = b.2 := by
        rcases Nat.lt_trichotomy a.2 b.2 with hlt | heq | hlt
        · grind
        · exact heq
        · grind
      obtain rfl : a = b := Prod.ext hlo hhi
      grind

end Meow.Spans
