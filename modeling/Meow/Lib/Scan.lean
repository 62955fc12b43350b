import Mathlib.Tactic

/-!
# All matches of a pattern

A search for a pattern goes through a text from left to right. Where the pattern matches, it takes
what the match captures and goes on behind the match, so that matches do not overlap. A match can
therefore hide another one that begins inside it.

## Main definitions

* `capturesIter` — what the matches capture.

## Main results

* `mem_capturesIter` — a match is found if no match that begins before it reaches into it.
-/

namespace Meow

open List

variable {α β : Type}

/-- What the matches of a pattern in a text capture. The pattern is known by what it captures at the
front of a text, with what stands behind the match, given the character before it. The next `skip`
characters belong to the last match. -/
def capturesIter (matchHere : Option α → List α → Option (β × List α)) :
    Option α → ℕ → List α → List β
  | _, _, [] => []
  | _, skip + 1, c :: s => capturesIter matchHere (some c) skip s
  | previous, 0, c :: s =>
    match matchHere previous (c :: s) with
    | none => capturesIter matchHere (some c) 0 s
    | some (capture, rest) =>
      capture :: capturesIter matchHere (some c) (s.length - rest.length) s

/-- **A match is found** if no match that begins before it reaches into it. -/
lemma mem_capturesIter {matchHere : Option α → List α → Option (β × List α)} {t : List α}
    (ht : t ≠ []) {capture : β} {front : List α} {previous : Option α} {skip : ℕ}
    (hhere : ∃ rest, matchHere (front.getLast?.or previous) t = some (capture, rest))
    (hstay : ∀ front', front' ≠ [] → front' <:+ front → ∀ previous capture' rest,
      matchHere previous (front' ++ t) = some (capture', rest) → t.length ≤ rest.length)
    (hskip : skip ≤ front.length) :
    capture ∈ capturesIter matchHere previous skip (front ++ t) := by
  induction front generalizing previous skip with
  | nil =>
    obtain ⟨c, s, rfl⟩ := exists_cons_of_ne_nil ht
    obtain ⟨rest, hrest⟩ := hhere
    obtain rfl : skip = 0 := Nat.le_zero.mp hskip
    rw [getLast?_nil, Option.none_or] at hrest
    rw [nil_append, capturesIter, hrest]
    exact mem_cons_self
  | cons c front ih =>
    have hhere' : ∃ rest, matchHere (front.getLast?.or (some c)) t = some (capture, rest) := by
      rw [getLast?_cons] at hhere
      cases hlast : front.getLast? with
      | none | some => simpa [hlast] using hhere
    have hstay' : ∀ front', front' ≠ [] → front' <:+ front → ∀ previous capture' rest,
        matchHere previous (front' ++ t) = some (capture', rest) → t.length ≤ rest.length :=
      fun front' hne hsuffix => hstay front' hne (hsuffix.trans (suffix_cons c front))
    rw [cons_append]
    cases skip with
    | succ skip =>
      exact ih hhere' hstay' (Nat.le_of_succ_le_succ hskip)
    | zero =>
      rw [capturesIter]
      cases hmatch : matchHere previous (c :: (front ++ t)) with
      | none => exact ih hhere' hstay' (Nat.zero_le _)
      | some found =>
        -- the match that begins here ends before the text we look for
        have hlength := hstay (c :: front) (cons_ne_nil c front) suffix_rfl previous
          found.1 found.2 hmatch
        refine mem_cons_of_mem _ (ih hhere' hstay' ?_)
        rw [length_append]
        omega

end Meow
