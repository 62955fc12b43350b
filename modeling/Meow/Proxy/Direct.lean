import Mathlib.Tactic

/-!
# Dialling without a proxy

`dial_tcp` tries the addresses of a destination one after another. With a routing mark a connect
that is in progress is not waited for.

## Main definitions

* `Connect` — what becomes of a connect.
* `dialTcp` — the dial.

## Main results

* `dialTcp_eq_find_iff` — when a dial gives the first address that accepts in time.
-/

namespace Meow.Proxy

open List

/-- How a connect ends, and after how long. A socket that cannot be set up fails at once. -/
structure Connect where
  after : ℕ
  error : Option String

inductive DialError (Addr : Type) where
  | io (error : String)
  | timedOut (dest : Addr) (timeout : ℕ)
  | noReachableAddress

variable {Addr : Type} (mark : Option UInt32) (timeout : Option ℕ)

/-- `connect_with_mark`, and whether the connect has ended when it is done. With a mark nobody waits
for a connect in progress. -/
def connectWithMark (c : Connect) : Connect × Bool :=
  if mark.isSome ∧ c.after ≠ 0 then (⟨0, none⟩, false) else (c, true)

/-- The error of an attempt, if it has one. -/
def applyConnectTimeout (c : Connect) (dest : Addr) : Option (DialError Addr) :=
  match timeout with
  | some t => if c.after ≤ t then c.error.map .io else some (.timedOut dest t)
  | none => c.error.map .io

/-- The loop of `dial_tcp` over the addresses, which gives one and whether it is connected. -/
def dialTcp : Option (DialError Addr) → List (Addr × Connect) →
    Except (DialError Addr) ((Addr × Connect) × Bool)
  | lastErr, [] => .error (lastErr.getD .noReachableAddress)
  | _, dest :: dests =>
    match applyConnectTimeout timeout (connectWithMark mark dest.2).1 dest.1 with
    | none => .ok (dest, (connectWithMark mark dest.2).2)
    | some err => dialTcp (some err) dests

/-- The address accepts within the timeout. -/
def Connect.accepts (c : Connect) : Bool := c.error.isNone && timeout.all (c.after ≤ ·)

/-- The outcome is not a failure at once. -/
def Connect.begins (c : Connect) : Bool := c.error.isNone || c.after != 0

variable {mark timeout}

lemma isNone_applyConnectTimeout (c : Connect) (dest : Addr) :
    (applyConnectTimeout timeout c dest).isNone = c.accepts timeout := by
  cases timeout with
  | none => simp [applyConnectTimeout, Connect.accepts]
  | some t => by_cases hle : c.after ≤ t <;> simp [applyConnectTimeout, Connect.accepts, hle]

lemma toOption_dialTcp (lastErr : Option (DialError Addr)) (dests : List (Addr × Connect)) :
    (dialTcp mark timeout lastErr dests).toOption =
      (dests.find? fun d => (connectWithMark mark d.2).1.accepts timeout).map
        fun d => (d, (connectWithMark mark d.2).2) := by
  induction dests generalizing lastErr with
  | nil => rfl
  | cons dest dests ih =>
    rw [dialTcp, find?_cons, ← isNone_applyConnectTimeout _ dest.1]
    cases applyConnectTimeout timeout (connectWithMark mark dest.2).1 dest.1 with
    | none => rfl
    | some err => exact ih _

/-- **A dial gives a connection to the first address that accepts in time**, and otherwise an error,
exactly if it has no mark or the first address that does not fail at once accepts at once. -/
theorem dialTcp_eq_find_iff (dests : List (Addr × Connect)) :
    (dialTcp mark timeout none dests).toOption =
        (dests.find? (·.2.accepts timeout)).map (·, true) ↔
      mark = none ∨ ∀ d ∈ dests.find? (·.2.begins), d.2.after = 0 := by
  rw [toOption_dialTcp]
  cases mark with
  | none => simp [connectWithMark]
  | some mark =>
    simp only [reduceCtorEq, false_or]
    induction dests with
    | nil => simp
    | cons d dests ih =>
      obtain ⟨addr, after, error⟩ := d
      by_cases hafter : after = 0
      · cases error <;> simp_all [connectWithMark, Connect.accepts, Connect.begins]
      · -- the first address is taken, and not yet connected
        simp [find?_cons, connectWithMark, Connect.accepts, Connect.begins, hafter]

/-- The first address refuses, and is taken for a connection; the second would accept. -/
theorem refused_is_taken :
    let dests : List (ℕ × Connect) := [(0, ⟨1, some "refused"⟩), (1, ⟨1, none⟩)]
    (dialTcp (some 1) (some 5) none dests).toOption.map (fun r => (r.1.1, r.2)) = some (0, false) ∧
      (dests.find? (·.2.accepts (some 5))).map Prod.fst = some 1 := by
  decide

end Meow.Proxy
