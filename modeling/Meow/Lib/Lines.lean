import Mathlib.Tactic

/-!
# Patterns and lines

The first place of a pattern in a list, and texts of lines that end with CR LF. A search for a
pattern need not start over when the list grows: only its last elements can be part of a new
occurrence.

## Main definitions

* `findWindow` — the first place of a pattern.
* `crlfLines`, `unlines` — the lines of a text, and the text of lines.

## Main results

* `findWindow_append`, `findWindow_resume` — the search in a list that has grown.
* `crlfLines_unlines` — a text of lines has these lines.
* `findWindow_unlines` — where the first empty line is.
-/

namespace Meow

open List Option Nat

section Window

variable {α : Type} [DecidableEq α] {pat l m : List α} {i : ℕ}

/-- The first place at which a pattern occurs (`windows(n).position(…)`). -/
def findWindow (pat : List α) : List α → Option ℕ
  | [] => none
  | a :: l => if pat <+: a :: l then some 0 else (findWindow pat l).map (· + 1)

/-- **The first place**, by what is there and what is not there before. -/
lemma findWindow_eq_some_iff (hpat : pat ≠ []) :
    findWindow pat l = some i ↔ pat <+: l.drop i ∧ ∀ j < i, ¬pat <+: l.drop j := by
  induction l generalizing i with
  | nil => simp [findWindow, hpat]
  | cons a l ih =>
    rw [findWindow]
    split_ifs with h
    · constructor
      · intro hi
        obtain rfl : 0 = i := some.inj hi
        exact ⟨h, fun j hj => absurd hj (not_lt_zero j)⟩
      · rintro ⟨-, hnone⟩
        rcases Nat.eq_zero_or_pos i with rfl | hpos
        · rfl
        · exact absurd h (hnone 0 hpos)
    · rw [map_eq_some_iff]
      constructor
      · rintro ⟨k, hk, rfl⟩
        obtain ⟨hpre, hnone⟩ := ih.mp hk
        refine ⟨hpre, fun j hj => ?_⟩
        cases j with
        | zero => exact h
        | succ j => exact hnone j (lt_of_succ_lt_succ hj)
      · rintro ⟨hpre, hnone⟩
        cases i with
        | zero => exact absurd hpre h
        | succ k =>
          exact ⟨k, ih.mpr ⟨hpre, fun j hj => hnone (j + 1) (succ_lt_succ hj)⟩, rfl⟩

lemma findWindow_eq_none_iff (hpat : pat ≠ []) :
    findWindow pat l = none ↔ ∀ i, ¬pat <+: l.drop i := by
  induction l with
  | nil => simp [findWindow, hpat]
  | cons a l ih =>
    rw [findWindow]
    split_ifs with h
    · refine ⟨nofun, fun hnone => absurd h (hnone 0)⟩
    · rw [map_eq_none_iff, ih]
      refine ⟨fun hnone i => ?_, fun hnone i => hnone (i + 1)⟩
      cases i with
      | zero => exact h
      | succ i => exact hnone i

omit [DecidableEq α] in
/-- What fits into the front of a list is there if it is there in the whole. -/
lemma prefix_drop_of_append {j} (h : pat <+: (l ++ m).drop j) (hlen : j + pat.length ≤ l.length) :
    pat <+: l.drop j := by
  rw [drop_append_of_le_length (by omega)] at h
  exact prefix_of_prefix_length_le h (prefix_append _ _)
    (by rw [length_drop]; omega)

section

variable (hpat : pat ≠ [])
include hpat

/-- An occurrence lies within the list. -/
lemma findWindow_length_le (h : findWindow pat l = some i) : i + pat.length ≤ l.length := by
  have hlen := ((findWindow_eq_some_iff hpat).mp h).1.length_le
  have hpos := length_pos_of_ne_nil hpat
  rw [length_drop] at hlen
  omega

/-- **What was found stays** when the list grows. -/
lemma findWindow_append (h : findWindow pat l = some i) (m : List α) :
    findWindow pat (l ++ m) = some i := by
  have hle := findWindow_length_le hpat h
  obtain ⟨hpre, hnone⟩ := (findWindow_eq_some_iff hpat).mp h
  refine (findWindow_eq_some_iff hpat).mpr ⟨?_, fun j hj hpre' => ?_⟩
  · rw [drop_append_of_le_length (by omega)]
    exact hpre.trans (prefix_append _ _)
  · exact hnone j hj (prefix_drop_of_append hpre' (by omega))

/-- What is not at the first places can be looked for after them. -/
lemma findWindow_drop {k} (hnone : ∀ j < k, ¬pat <+: l.drop j) :
    findWindow pat l = (findWindow pat (l.drop k)).map (k + ·) := by
  rcases hfind : findWindow pat (l.drop k) with _ | i
  · rw [map_none, findWindow_eq_none_iff hpat]
    intro j
    rcases lt_or_ge j k with hj | hj
    · exact hnone j hj
    · have h := (findWindow_eq_none_iff hpat).mp hfind (j - k)
      rwa [drop_drop, Nat.add_sub_cancel' hj] at h
  · obtain ⟨hpre, hnone'⟩ := (findWindow_eq_some_iff hpat).mp hfind
    rw [drop_drop] at hpre
    refine (findWindow_eq_some_iff hpat).mpr ⟨hpre, fun j hj => ?_⟩
    rcases lt_or_ge j k with hjk | hjk
    · exact hnone j hjk
    · have hlt : j < k + i := hj
      have h := hnone' (j - k) (by omega)
      rwa [drop_drop, Nat.add_sub_cancel' hjk] at h

/-- **Searching on.** When a list in which the pattern does not occur grows, an occurrence starts
in its last elements, fewer than the pattern has, or later. -/
lemma findWindow_resume (h : findWindow pat l = none) (m : List α) :
    findWindow pat (l ++ m) = (findWindow pat ((l ++ m).drop (l.length - (pat.length - 1)))).map
      (l.length - (pat.length - 1) + ·) := by
  refine findWindow_drop hpat fun j hj hpre => ?_
  exact (findWindow_eq_none_iff hpat).mp h j (prefix_drop_of_append hpre (by omega))

end

/-- No occurrence starts before the first element of the pattern. -/
lemma findWindow_append_of_not_mem {a} (h : a ∉ l) (pat m : List α) :
    findWindow (a :: pat) (l ++ m) = (findWindow (a :: pat) m).map (l.length + ·) := by
  induction l with
  | nil => simp
  | cons b l ih =>
    rw [mem_cons, not_or] at h
    rw [cons_append, findWindow, if_neg fun hpre => h.1 (cons_prefix_cons.mp hpre).1, ih h.2,
      Option.map_map, length_cons]
    congr 1
    funext i
    exact (add_right_comm _ _ _)

end Window

/-! ### Lines -/

def CRLF : List UInt8 := [13, 10]

/-- The lines of a text, which CR LF separates. -/
def crlfLines : List UInt8 → List (List UInt8)
  | [] => [[]]
  | [b] => [[b]]
  | b :: c :: rest =>
    if b = 13 ∧ c = 10 then [] :: crlfLines rest
    else
      match crlfLines (c :: rest) with
      | [] => [[b]]
      | line :: lines => (b :: line) :: lines

/-- Lines, each with its CR LF. -/
def unlines (lines : List (List UInt8)) : List UInt8 := lines.flatMap (· ++ CRLF)

@[simp] lemma unlines_nil : unlines [] = [] := rfl

@[simp] lemma unlines_cons (line : List UInt8) (lines : List (List UInt8)) :
    unlines (line :: lines) = line ++ (CRLF ++ unlines lines) := by
  rw [unlines, flatMap_cons, append_assoc]
  rfl

@[simp] lemma unlines_append (lines lines' : List (List UInt8)) :
    unlines (lines ++ lines') = unlines lines ++ unlines lines' := flatMap_append

/-- A text without a CR is one line. -/
lemma crlfLines_of_not_mem {line} (h : 13 ∉ line) : crlfLines line = [line] := by
  induction line with
  | nil => rfl
  | cons b line ih =>
    rw [mem_cons, not_or] at h
    cases line with
    | nil => rfl
    | cons c line =>
      rw [crlfLines, if_neg fun hbc => h.1 hbc.1.symm, ih h.2]

/-- The first line ends with the first CR LF. -/
lemma crlfLines_append {line} (h : 13 ∉ line) (rest : List UInt8) :
    crlfLines (line ++ (CRLF ++ rest)) = line :: crlfLines rest := by
  induction line with
  | nil => rfl
  | cons b line ih =>
    rw [mem_cons, not_or] at h
    obtain ⟨c, tail, htail⟩ : ∃ c tail, line ++ (CRLF ++ rest) = c :: tail := by
      cases line with
      | nil | cons => exact ⟨_, _, rfl⟩
    have ih' := ih h.2
    rw [htail] at ih'
    rw [cons_append, htail, crlfLines, if_neg fun hbc => h.1 hbc.1.symm, ih']

variable {lines : List (List UInt8)}

/-- **A text of lines has these lines.** -/
lemma crlfLines_unlines (h : ∀ line ∈ lines, 13 ∉ line) {last} (hlast : 13 ∉ last) :
    crlfLines (unlines lines ++ last) = lines ++ [last] := by
  induction lines with
  | nil => exact crlfLines_of_not_mem hlast
  | cons line lines ih =>
    obtain ⟨hline, hlines⟩ := forall_mem_cons.mp h
    rw [unlines_cons, append_assoc, append_assoc, crlfLines_append hline, ih hlines, cons_append]

/-- **The first empty line** of a text of lines that are not empty is the one that ends it. -/
lemma findWindow_unlines (h : ∀ line ∈ lines, 13 ∉ line ∧ line ≠ []) (hlines : lines ≠ [])
    (rest : List UInt8) :
    findWindow (CRLF ++ CRLF) (unlines lines ++ (CRLF ++ rest))
      = some ((unlines lines).length - 2) := by
  induction lines with
  | nil => exact absurd rfl hlines
  | cons line lines ih =>
    obtain ⟨⟨hline, -⟩, hrest⟩ := forall_mem_cons.mp h
    have hskip := findWindow_append_of_not_mem hline [10, 13, 10]
    rw [unlines_cons, append_assoc, append_assoc]
    refine (hskip _).trans ?_
    cases lines with
    | nil =>
      -- the empty line follows
      simp [findWindow, CRLF]
    | cons line' lines =>
      have hfind := ih hrest (cons_ne_nil _ _)
      obtain ⟨hline', hne'⟩ := hrest line' mem_cons_self
      obtain ⟨b, tail, rfl⟩ := exists_cons_of_ne_nil hne'
      have hb : 13 ≠ b := fun heq => hline' (heq ▸ mem_cons_self)
      have hpos : 2 ≤ (unlines ((b :: tail) :: lines)).length := by simp [CRLF]; omega
      have hnext : findWindow [13, 10, 13, 10]
          (CRLF ++ (unlines ((b :: tail) :: lines) ++ (CRLF ++ rest)))
          = (findWindow (CRLF ++ CRLF) (unlines ((b :: tail) :: lines) ++ (CRLF ++ rest))).map
            (· + 2) := by
        simp [findWindow, CRLF, hb]
      rw [hnext, hfind, map_some, map_some]
      congr 1
      simp [CRLF]
      omega

end Meow
