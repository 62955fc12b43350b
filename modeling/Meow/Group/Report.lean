import Meow.Group.UrlTest

/-!
# What a url-test group reports

Other groups and the API ask a url-test group whether it is alive, what its delay is and which
member it uses. The answers come from `fastest_proxy`, which looks the remembered name up and does
not ask whether the member is alive. The name is only renewed by `pick_for_dial`, and a parent that
takes the group for dead does not dial it.

Groups are nested to any depth. A group sees of a member its name, whether it is alive and its
delay, which a group answers from its own members.

## Main definitions

* `Node` — adapters and groups, with `Node.view`, what is seen of them.
* `Step` — a change of health, or a dial, somewhere in a nesting.
* `Agrees` — the report agrees with the next dial.

## Main results

* `pickForDial_eq` — the choice of a dial.
* `agrees_iff` — when the report agrees with it.
* `dials_keep` — when a dial leaves the member of the one before.
-/

namespace Meow.Group

open List Scan

/-- The member with a name, or else the first: `selected_proxy` of a selector group. -/
def selectedProxy (selected : Option Str) (members : List Member) : Option Member :=
  (members.find? fun m => decide (selected = some m.name)).or members.head?

/-- `fastest_proxy` of a url-test group without a pinned member. -/
def fastestProxy (fastest : Option Str) (members : List Member) : Option Member :=
  selectedProxy fastest members

open Member

/-- `first_alive` of a fallback group without a pinned member. -/
def firstAlive (members : List Member) : Option Member :=
  (members.find? Member.alive).or members.head?

/-- A group that answers with what a member answers. -/
def Member.reported (name : Str) (r : Option Member) : Member :=
  ⟨name, r.elim false alive, r.elim 0 lastDelay, by cases r <;> simp [lastDelay_le]⟩

/-- The delays that a load-balance group takes the least of. -/
def knownDelays (members : List Member) : List ℕ :=
  ((members.filter Member.alive).map Member.lastDelay).filter (0 < ·)

/-- What is seen of a load-balance group. -/
def Member.balanced (name : Str) (members : List Member) : Member where
  name := name
  alive := members.any Member.alive
  lastDelay := (knownDelays members).min?.getD 0
  lastDelay_le := by
    cases h : (knownDelays members).min? with
    | none => simp
    | some d =>
      have hd := List.min?_mem h
      simp only [knownDelays, mem_filter, mem_map] at hd
      obtain ⟨⟨m, -, rfl⟩, -⟩ := hd
      exact m.lastDelay_le

/-- Adapters and groups. An adapter has a health of its own, and so has a relay group. -/
inductive Node where
  | adapter (health : Member)
  | relay (health : Member) (hops : List Node)
  | selector (name : Str) (selected : Option Str) (members : List Node)
  | urlTest (name : Str) (tolerance : ℕ) (fastest : Option Str) (members : List Node)
  | fallback (name : Str) (members : List Node)
  | loadBalance (name : Str) (members : List Node)

mutual

/-- `name`, `alive` and `last_delay`. -/
def Node.view : Node → Member
  | .adapter health => health
  | .relay health _ => health
  | .selector name selected members => .reported name (selectedProxy selected (views members))
  | .urlTest name _ fastest members => .reported name (fastestProxy fastest (views members))
  | .fallback name members => .reported name (firstAlive (views members))
  | .loadBalance name members => .balanced name (views members)

def views : List Node → List Member
  | [] => []
  | p :: ps => p.view :: views ps

end

/-- **A change of health, or a dial of a url-test group**, somewhere in a nesting. A dial goes on
with a dial of the member that was chosen. -/
inductive Step : Node → Node → Prop where
  | adapter (m m' : Member) (hname : m'.name = m.name) : Step (.adapter m) (.adapter m')
  | relay (m m' : Member) (hops : List Node) (hname : m'.name = m.name) :
      Step (.relay m hops) (.relay m' hops)
  | dial (name : Str) (tolerance : ℕ) (fastest : Option Str) (members : List Node) :
      Step (.urlTest name tolerance fastest members)
        (.urlTest name tolerance (pickForDial tolerance fastest (views members)).2 members)
  | select (name : Str) (selected selected' : Option Str) (members : List Node) :
      Step (.selector name selected members) (.selector name selected' members)
  | inside (group : List Node → Node) (front back : List Node) (p p' : Node)
      (hgroup : (∃ m, group = .relay m) ∨ (∃ n s, group = .selector n s) ∨
        (∃ n t f, group = .urlTest n t f) ∨ (∃ n, group = .fallback n) ∨
        ∃ n, group = .loadBalance n) (h : Step p p') :
      Step (group (front ++ p :: back)) (group (front ++ p' :: back))

/-- **The report agrees with the next dial**: the member that is reported, and that a relay goes to,
is the one that a dial would choose; and the group is not dead for its parents while a member is
alive. -/
structure Agrees (name : Str) (tolerance : ℕ) (fastest : Option Str) (members : List Node) :
    Prop where
  member : fastestProxy fastest (views members) = (pickForDial tolerance fastest (views members)).1
  alive : (∃ m ∈ views members, m.alive = true) →
    (Node.urlTest name tolerance fastest members).view.alive = true

/-! ### The choice of a dial -/

/-- An alive member with a delay that is known and below 65535. -/
def Member.known (m : Member) : Bool := m.alive && decide (0 < m.lastDelay ∧ m.lastDelay < 65535)

/-- The first member with the least known delay. -/
def quickest (members : List Member) : Option Member :=
  (members.filter Member.known).argmin Member.lastDelay

/-- Some member is faster than another by more than the tolerance. -/
def Faster (tolerance : ℕ) (members : List Member) (c : Member) : Prop :=
  ∃ m ∈ members, m.known = true ∧ m.lastDelay + tolerance < c.lastDelay

section

variable (tolerance : ℕ) (fastest : Option Str) (members : List Member)

/-- The pass finds the first of the quickest. -/
lemma scan_best : (members.foldl (visit fastest) .init).bestProxy = quickest members := by
  induction members using reverseRecOn with
  | nil => rfl
  | append_singleton members p ih =>
    have hspec := (scan_spec fastest members).bestDelay
    rw [foldl_append, foldl_cons]
    generalize members.foldl (visit fastest) .init = s at hspec ih
    rw [quickest, filter_append]
    by_cases hp : p.known
    · rw [filter_cons_of_pos hp, filter_nil, argmin_concat, ← quickest, ← ih]
      simp only [known, Bool.and_eq_true] at hp
      cases hb : s.bestProxy <;> simp [visit, hp, hb, hspec] <;> grind
    · rw [filter_cons_of_neg hp, filter_nil, append_nil, ← quickest]
      have hle : s.bestDelay ≤ 65535 := by
        cases hb : s.bestProxy with
        | none => simp [hspec, hb]
        | some b => simp [hspec, hb, b.lastDelay_le]
      simp only [known, Bool.and_eq_true] at hp
      simp only [visit]
      grind

instance (c : Member) : Decidable (Faster tolerance members c) :=
  inferInstanceAs (Decidable (∃ m ∈ members, m.known = true ∧ _))

/-- **The choice of a dial**: an incumbent, unless a member is faster by more than the tolerance;
without one the first of the quickest, or else the first member. -/
lemma pickForDial_eq :
    (pickForDial tolerance fastest members).1 = match incumbent fastest members with
      | none => (quickest members).or members.head?
      | some c => if Faster tolerance members c then quickest members else some c := by
  have hspec := scan_spec fastest members
  have hquickest := scan_best fastest members
  simp only [pickForDial]
  generalize members.foldl (visit fastest) .init = s at hspec hquickest
  obtain ⟨hfirst, hcurrent, hdelay, halive, hbest, hmem, hleast⟩ := hspec
  rw [← hquickest]
  cases hinc : incumbent fastest members with
  | none =>
    rw [hcurrent, hinc] at halive
    cases hb : s.bestProxy <;> simp [halive, hfirst]
  | some c =>
    have hle := c.lastDelay_le
    have hfaster : Faster tolerance members c ↔
        min (s.bestDelay + tolerance) 65535 < c.lastDelay := by
      constructor
      · rintro ⟨m, hm, hknown, hlt⟩
        simp only [known, Bool.and_eq_true, decide_eq_true_eq] at hknown
        have := hleast m hm ⟨hknown.1, by omega⟩
        omega
      · intro hlt
        cases hb : s.bestProxy with
        | none =>
          simp only [hbest, hb, Option.elim_none] at hlt
          omega
        | some b =>
          obtain ⟨hbmem, ⟨hbalive, hbpos⟩, hblt⟩ := hmem b hb
          simp only [hbest, hb, Option.elim_some] at hlt
          refine ⟨b, hbmem, ?_, by omega⟩
          simp only [known, hbalive, Bool.true_and, decide_eq_true_eq]
          omega
    simp only [hfaster]
    cases hb : s.bestProxy with
    | none =>
      have : ¬min (s.bestDelay + tolerance) 65535 < c.lastDelay := by
        simp only [hbest, hb, Option.elim_none]
        omega
      simp [halive, hcurrent, hinc, this]
    | some b =>
      simp only [halive, hdelay, hcurrent, hinc, Option.elim_some, Option.isSome_some,
        Bool.true_eq_false, or_false]
      split_ifs <;> rfl

/-- The quickest member is an alive one. -/
lemma mem_of_quickest {b : Member} (h : quickest members = some b) :
    b ∈ members ∧ b.alive = true := by
  have := mem_filter.mp (argmin_mem h)
  simp_all [known]

/-- **When the report agrees with the next dial.** For every nesting, and all that health changes
and dials can make of it, exactly if

* no member has the remembered name, and the first member has the least known delay, or no delay is
  known and the first member is alive, or none is; or
* the first member with the remembered name is also the alive one that was used last, and no member
  is faster by more than the tolerance; or one is, and of those with the least delay it is the
  first; or
* no member is alive, and the first member has the remembered name.

**Proof sketch.** The report is the first member with the name, or else the first member; the choice
is that of `pickForDial_eq`. -/
theorem agrees_iff (name : Str) (members : List Node) :
    Agrees name tolerance fastest members ↔
      match (views members).find? fun m => decide (fastest = some m.name) with
      | none => ∀ f, (views members).head? = some f → quickest (views members) = some f ∨
          quickest (views members) = none ∧
            ((∃ m ∈ views members, m.alive = true) → f.alive = true)
      | some r => match incumbent fastest (views members) with
        | none => (∀ m ∈ views members, m.alive = false) ∧ (views members).head? = some r
        | some c => if Faster tolerance (views members) c then quickest (views members) = some r
            else c = r := by
  have hagrees : Agrees name tolerance fastest members ↔ _ ∧ _ :=
    ⟨fun h => ⟨h.member, h.alive⟩, fun h => ⟨h.1, h.2⟩⟩
  rw [hagrees, pickForDial_eq]
  simp only [Node.view, reported, fastestProxy, selectedProxy]
  generalize views members = ms
  have hquick := @mem_of_quickest ms
  cases hfind : ms.find? fun m => decide (fastest = some m.name) with
  | none =>
    have hinc : incumbent fastest ms = none := by
      simp_all [incumbent]
    simp only [hinc]
    cases ms with
    | nil => simp [quickest]
    | cons f rest => cases hq : quickest (f :: rest) <;> grind
  | some r =>
    have hr := find?_some hfind
    have hmem := mem_of_find?_eq_some hfind
    cases hinc : incumbent fastest ms with
    | none =>
      -- the member that is reported is dead
      have hdead : r.alive = false := by
        simp only [incumbent, getLast?_eq_none_iff, filter_eq_nil_iff] at hinc
        simpa [hr] using hinc r hmem
      cases hq : quickest ms <;> grind
    | some c =>
      obtain ⟨hc, halive⟩ := mem_of_incumbent hinc
      simp only [Option.some_or]
      split_ifs <;> grind

/-! ### Series of dials -/

lemma name_of_incumbent {fastest members} {c : Member} (h : incumbent fastest members = some c) :
    fastest = some c.name := by
  have := (mem_filter.mp (mem_of_getLast? h)).2
  simp_all

/-- A dial remembers its choice. -/
lemma pickForDial_remembers : (pickForDial tolerance fastest members).2 =
    (pickForDial tolerance fastest members).1.map Member.name := by
  have hspec := scan_spec fastest members
  simp only [pickForDial]
  generalize members.foldl (visit fastest) .init = s at hspec
  have halive := hspec.currentAlive
  rw [hspec.current] at halive ⊢
  cases hinc : incumbent fastest members with
  | none => cases hb : s.bestProxy <;> simp [halive, hinc]
  | some c =>
    have hname := name_of_incumbent hinc
    cases hb : s.bestProxy <;> simp only [halive, hinc] <;> split_ifs <;> simp_all

/-- The choices of a series of dials, each with the members as they then are. -/
def dials : Option Str → List (List Member) → List (List Member × Option Member)
  | _, [] => []
  | fastest, members :: rounds =>
    (members, (pickForDial tolerance fastest members).1) ::
      dials (pickForDial tolerance fastest members).2 rounds

/-- **A group does not flap.** However health and members change between dials, a dial leaves the
member of the one before only if no alive member has its name, or for one whose known delay is
smaller by more than the tolerance. -/
theorem dials_keep (rounds : List (List Member)) :
    (dials tolerance fastest rounds).IsChain fun a b =>
      ∀ p ∈ a.2, ∀ q ∈ b.2, q.name ≠ p.name →
        (∀ m ∈ b.1, m.name = p.name → m.alive = false) ∨
          q.known ∧ ∃ c ∈ b.1, c.name = p.name ∧ q.lastDelay + tolerance < c.lastDelay := by
  induction rounds generalizing fastest with
  | nil => exact .nil
  | cons members rounds ih =>
    rcases rounds with _ | ⟨next, rounds⟩
    · exact .singleton _
    refine isChain_cons_cons.mpr ⟨?_, ih _⟩
    intro p hp q hq hname
    replace hp : (pickForDial tolerance fastest members).1 = some p := hp
    replace hq : (pickForDial tolerance (some p.name) next).1 = some q := by
      rwa [pickForDial_remembers, hp] at hq
    rw [pickForDial_eq] at hq
    cases hinc : incumbent (some p.name) next with
    | none =>
      simp only [incumbent, getLast?_eq_none_iff, filter_eq_nil_iff] at hinc
      grind
    | some c =>
      have hc := name_of_incumbent hinc
      simp only [hinc] at hq
      split_ifs at hq with hfaster
      · obtain ⟨m, hm, hknown, hlt⟩ := hfaster
        have hle := le_of_mem_argmin (mem_filter.mpr ⟨hm, hknown⟩) hq
        have hq := (mem_filter.mp (argmin_mem hq)).2
        exact .inr ⟨hq, c, (mem_of_incumbent hinc).1, by simp_all, by omega⟩
      · simp_all

end

/-- The members of a url-test group, and another proxy. -/
def slow : Member := ⟨str "a", true, 100, by decide⟩

def quick (alive : Bool) : Member := ⟨str "b", alive, 50, by decide⟩

def other : Node := .adapter ⟨str "c", true, 200, by decide⟩

def nested (fastest : Option Str) (alive : Bool) : List Node :=
  [.urlTest (str "u") 0 fastest [.adapter slow, .adapter (quick alive)], other]

/-- **A group with an alive member is passed over**: a dial remembers the quicker of two members,
which then dies. The next dial would choose the other one, but the group reports the dead one, to
which a relay goes, and a fallback group takes the group for dead. -/
theorem urlTest_reports_dead :
    Relation.ReflTransGen Step (.fallback (str "f") (nested none true))
        (.fallback (str "f") (nested (some (str "b")) false)) ∧
      fastestProxy (some (str "b")) [slow, quick false] = some (quick false) ∧
      (pickForDial 0 (some (str "b")) [slow, quick false]).1 = some slow ∧
      firstAlive (views (nested (some (str "b")) false)) = some other.view := by
  refine ⟨.tail (.single (?_ : Step _ (.fallback (str "f") (nested (some (str "b")) true)))) ?_, ?_⟩
  · exact .inside (.fallback _) [] [other] _ _ (by simp) (.dial _ _ _ _)
  · exact .inside (.fallback _) [] [other] _ _ (by simp)
      (.inside (.urlTest _ _ _) [.adapter slow] [] _ _ (by simp) (.adapter _ _ rfl))
  · decide

end Meow.Group
