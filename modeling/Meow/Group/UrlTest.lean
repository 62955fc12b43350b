import Meow.Lib.Text

/-!
# The choice of a url-test group

A url-test group (`group/urltest.rs`) dials through the member with the least delay, but stays with
the member it used last while no other is faster by more than the tolerance. One pass over the
members finds both. A delay of 0 stands for a member that was never measured.

A member that was never measured is passed over for the least delay, but kept once it was used; and
if no delay below 65535 is known, the group takes its first member, alive or not.

## Main definitions

* `pickForDial` — the pass over the members, and the choice.
* `incumbent` — the member used last, if it is alive.

## Main results

* `scan_spec` — what the pass finds.
* `pickOk_iff` — when the choice is an alive member that is fast enough.
-/

namespace Meow.Group

open Option List

/-- A member as the group sees it: `name`, `alive` and `last_delay` of a proxy. -/
structure Member where
  name : Str
  alive : Bool
  lastDelay : ℕ
  lastDelay_le : lastDelay ≤ 65535
  deriving DecidableEq

/-- The variables of the pass over the members. -/
structure Scan where
  bestProxy : Option Member
  bestDelay : ℕ
  currentProxy : Option Member
  currentDelay : ℕ
  currentAlive : Bool
  firstAny : Option Member

open Scan

def Scan.init : Scan := ⟨none, 65535, none, 65535, false, none⟩

/-- The macro `visit` of `pick_for_dial`. -/
def Scan.visit (currentName : Option Str) (s : Scan) (p : Member) : Scan :=
  let s := if s.firstAny.isNone then { s with firstAny := some p } else s
  if p.alive then
    let s := if currentName = some p.name then
      { s with currentAlive := true, currentDelay := p.lastDelay, currentProxy := some p } else s
    if 0 < p.lastDelay ∧ p.lastDelay < s.bestDelay then
      { s with bestDelay := p.lastDelay, bestProxy := some p } else s
  else s

/-- `pick_for_dial` without a pinned member, over the static members and those of the providers: the
choice, and the name that is remembered as `fastest`. -/
def pickForDial (tolerance : ℕ) (fastest : Option Str) (members : List Member) :
    Option Member × Option Str :=
  let s := members.foldl (Scan.visit fastest) .init
  let kept := (s.currentProxy.or (s.bestProxy.or s.firstAny), fastest)
  match s.bestProxy with
  | some bp =>
    -- `saturating_add`
    if min (s.bestDelay + tolerance) 65535 < s.currentDelay ∨ s.currentAlive = false then
      (some bp, some bp.name)
    else kept
  | none => if s.currentAlive = false then (s.firstAny, s.firstAny.map Member.name) else kept

/-- The member that was used last, if it is alive: of several with its name the last. -/
def incumbent (fastest : Option Str) (members : List Member) : Option Member :=
  (members.filter fun m => m.alive && decide (fastest = some m.name)).getLast?

/-- A delay that can win: the member is alive, and it is not 0 for unknown. -/
def Member.Measured (m : Member) : Prop := m.alive = true ∧ m.lastDelay ≠ 0

/-- What the pass has found in the members it has seen. -/
structure Scan.Spec (fastest : Option Str) (members : List Member) (s : Scan) : Prop where
  first : s.firstAny = members.head?
  current : s.currentProxy = incumbent fastest members
  currentDelay : s.currentDelay = s.currentProxy.elim 65535 Member.lastDelay
  currentAlive : s.currentAlive = s.currentProxy.isSome
  bestDelay : s.bestDelay = s.bestProxy.elim 65535 Member.lastDelay
  best : ∀ b, s.bestProxy = some b → b ∈ members ∧ b.Measured ∧ b.lastDelay < 65535
  least : ∀ m ∈ members, m.Measured → s.bestDelay ≤ m.lastDelay

lemma incumbent_append (fastest : Option Str) (members : List Member) (p : Member) :
    incumbent fastest (members ++ [p]) =
      if p.alive ∧ fastest = some p.name then some p else incumbent fastest members := by
  by_cases h : p.alive ∧ fastest = some p.name
  · simp [incumbent, h]
  · simp_all [incumbent]

/-- **The pass over the members** finds the first member, the incumbent, and a member with the least
delay below 65535. -/
lemma scan_spec (fastest : Option Str) (members : List Member) :
    Scan.Spec fastest members (members.foldl (visit fastest) .init) := by
  induction members using reverseRecOn with
  | nil => exact ⟨rfl, rfl, rfl, rfl, rfl, by simp [init], by simp⟩
  | append_singleton members p ih =>
    rw [foldl_append, foldl_cons, foldl_nil]
    generalize members.foldl (visit fastest) .init = s at ih
    obtain ⟨hfirst, hcurrent, hdelay, halive, hbest, hmem, hleast⟩ := ih
    have hhead : (if s.firstAny.isNone then { s with firstAny := some p } else s) =
        { s with firstAny := (members ++ [p]).head? } := by
      cases s
      cases members <;> simp_all
    have hbound : s.bestDelay ≤ 65535 := by cases h : s.bestProxy <;> grind
    have hinc := incumbent_append fastest members p
    simp only [visit, hhead]
    by_cases hp : p.alive <;> by_cases hname : fastest = some p.name <;>
      by_cases hd : 0 < p.lastDelay ∧ p.lastDelay < s.bestDelay <;>
      simp only [hp, hname, hd, and_self, and_false, if_true, if_false] at hinc ⊢ <;>
      constructor <;> grind [Member.Measured]

/-- What is expected of the choice when some member is alive: it is alive; if delays are known, its
delay is, and is at most the least one plus the tolerance; and an alive incumbent is left only for a
member that is faster by more than the tolerance. -/
def PickOk (tolerance : ℕ) (fastest : Option Str) (members : List Member) : Prop :=
  (∃ m ∈ members, m.alive = true) →
    ∃ p ∈ members, (pickForDial tolerance fastest members).1 = some p ∧ p.alive = true ∧
      ((∃ m ∈ members, m.Measured) → p.lastDelay ≠ 0 ∧
        ∀ m ∈ members, m.Measured → p.lastDelay ≤ m.lastDelay + tolerance) ∧
      ∀ c, incumbent fastest members = some c →
        p = c ∨ 0 < p.lastDelay ∧ p.lastDelay + tolerance < c.lastDelay

/-- The incumbent is an alive member. -/
lemma mem_of_incumbent {fastest members} {c : Member} (h : incumbent fastest members = some c) :
    c ∈ members ∧ c.alive = true := by
  have := mem_filter.mp (mem_of_getLast? h)
  simp_all

/-- **When the choice is as expected.** For every list of members, every tolerance and every member
used last, it is exactly if

* an alive incumbent has a known delay if any alive member has one, or
* without an alive incumbent, some alive member has a known delay below 65535, or the first member
  is alive, and its delay known if any alive member's is.

**Proof sketch.** With an incumbent the choice is the incumbent or a faster member, without one the
member with the least delay; if no delay below 65535 is known, it is the incumbent, and without one
the first member. -/
theorem pickOk_iff (tolerance : ℕ) (fastest : Option Str) (members : List Member) :
    PickOk tolerance fastest members ↔
      ((∃ m ∈ members, m.alive = true) →
        match incumbent fastest members with
        | some c => (∃ m ∈ members, m.Measured) → c.lastDelay ≠ 0
        | none => (∃ m ∈ members, m.Measured ∧ m.lastDelay < 65535) ∨
            ∃ f, members.head? = some f ∧ f.alive = true ∧
              ((∃ m ∈ members, m.Measured) → f.lastDelay ≠ 0)) := by
  have hspec := scan_spec fastest members
  simp only [PickOk, pickForDial]
  generalize members.foldl (visit fastest) .init = s at hspec
  obtain ⟨hfirst, hcurrent, hdelay, halive, hbest, hmem, hleast⟩ := hspec
  refine forall_congr' fun hsome => ?_
  cases hinc : incumbent fastest members with
  | some c =>
    obtain ⟨hcmem, hcalive⟩ := mem_of_incumbent hinc
    have hle := c.lastDelay_le
    rw [hcurrent, hinc] at hdelay halive
    simp only [elim_some, isSome_some] at hdelay halive
    cases hb : s.bestProxy with
    | none =>
      simp only [hb, elim_none] at hbest
      simp only [hcurrent, hinc, halive, Bool.true_eq_false, if_false, some_or]
      grind
    | some b =>
      simp only [hb, elim_some] at hbest
      obtain ⟨hbmem, hbmeasured, hblt⟩ := hmem b hb
      simp only [hcurrent, hinc, halive, hdelay, hbest, Bool.true_eq_false, or_false,
        some_or]
      split_ifs with hfaster <;> grind [Member.Measured]
  | none =>
    rw [hcurrent, hinc] at hdelay halive
    simp only [elim_none, isSome_none] at hdelay halive
    cases hb : s.bestProxy with
    | none =>
      simp only [hb, elim_none] at hbest
      simp only [halive, if_true, hfirst]
      constructor
      · rintro ⟨p, -, hp, hpalive, hknown, -⟩
        exact .inr ⟨p, hp, hpalive, fun h => (hknown h).1⟩
      · rintro (⟨m, hm, hmeasured, hlt⟩ | ⟨f, hf, hfalive, hknown⟩)
        · exact absurd (hleast m hm hmeasured) (by omega)
        · have hle := f.lastDelay_le
          refine ⟨f, mem_of_mem_head? hf, hf, hfalive,
            fun h => ⟨hknown h, fun m hm hmeasured => ?_⟩, by simp⟩
          have := hleast m hm hmeasured
          omega
    | some b =>
      obtain ⟨hbmem, hbmeasured, hblt⟩ := hmem b hb
      simp only [halive, or_true, if_true]
      grind [Member.Measured]

/-- **A dead member is chosen** although another is alive, when none was measured; **and one that
was never measured is kept** although another's delay is known. -/
theorem pickForDial_unmeasured :
    ((pickForDial 0 none [⟨str "a", false, 0, by decide⟩, ⟨str "b", true, 0, by decide⟩]).1.map
        fun p => (p.name, p.alive)) = some (str "a", false) ∧
      ((pickForDial 0 (some (str "a"))
        [⟨str "a", true, 0, by decide⟩, ⟨str "b", true, 100, by decide⟩]).1.map
          fun p => (p.name, p.lastDelay)) = some (str "a", 0) := by
  decide

end Meow.Group
