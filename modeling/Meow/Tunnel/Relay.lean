import Meow.Tunnel.HalfCopy

/-!
# Copying in both directions

`copy_bidirectional_buf_tracked` of `relay.rs` drives the two directions of a relay by one future.
In each poll the directions take turns, one cycle each, as long as one of them makes progress. One
that is pending is parked for the rest of the poll, and a poll that has done much yields. Once a
direction has finished a timer runs, which is set again whenever the other direction has moved
bytes; the relay ends when both have finished, or when the timer fires.

A run is a sequence of polls, each with the time that has passed before it, the answers of the
connections in each round, and whether the timer would report that it has fired. The clock stands
still during a poll.

## Main definitions

* `Relay`, `Relay.poll` — the relay and its poll.
* `RelayRun.run` — a run.

## Main results

* `PollOk.poll` — what a poll keeps.
* `run_relay` — the guarantees, over all runs.
-/

namespace Meow.Tunnel

open Function List Bool Nat

/-! ### The relay -/

def RELAY_CYCLES_PER_POLL : ℕ := 64

def RELAY_BYTES_PER_POLL : ℕ := 256 * 1024

/-- `RELAY_HALF_CLOSE_LINGER` in milliseconds. -/
def RELAY_HALF_CLOSE_LINGER : ℕ := 30000

/-- The direction from `a` to `b`, and that from `b` to `a`. -/
inductive Side where
  | a
  | b
  deriving DecidableEq

def Side.other : Side → Side
  | .a => .b
  | .b => .a

/-- How a turn ended. -/
inductive TurnEnd where
  | done
  | progress
  | pending
  | failed
  deriving DecidableEq

def TurnEnd.ofCycle : Except IoError Cycle → TurnEnd
  | .ok .done => .done
  | .ok .progress => .progress
  | .ok .pending => .pending
  | .error _ => .failed

structure Turn where
  side : Side
  outcome : TurnEnd
  deriving DecidableEq

/-- The variables of the future, with the turns that were taken, the latest first, and the times at
which the directions finished. -/
structure Relay where
  dir : Side → Direction
  done : Side → Bool
  deadline : ℕ
  lingerArmed : Bool
  lingerProgress : ℕ
  turns : List Turn
  finishedAt : Side → ℕ

/-- The variables of a poll. -/
structure PollState where
  relay : Relay
  parked : Side → Bool
  cycles : ℕ
  progressed : Bool

/-- How a round of turns ended. -/
inductive RoundEnd where
  | failed (e : IoError)
  | finished
  /-- No direction made progress. -/
  | idle
  | again
  deriving DecidableEq

/-- What a poll answers. -/
inductive Outcome where
  | pending
  | err (e : IoError)
  | ok (aToB bToA : ℕ)
  deriving DecidableEq

namespace PollState

/-- A turn of a direction that is neither finished nor parked. -/
def turn (p : PollState) (now : ℕ) (s : Side) (answers : Answers) : Option IoError × PollState :=
  if p.relay.done s = false ∧ p.parked s = false then
    let (result, d) := (p.relay.dir s).pollCycle now answers
    let relay := { p.relay with
      dir := Function.update p.relay.dir s d
      turns := ⟨s, .ofCycle result⟩ :: p.relay.turns }
    match result with
    | .ok .done =>
      (none, { p with relay := { relay with
        done := Function.update relay.done s true
        finishedAt := Function.update relay.finishedAt s now } })
    | .ok .progress => (none, { p with relay, progressed := true, cycles := p.cycles + 1 })
    | .ok .pending => (none, { p with relay, parked := Function.update p.parked s true })
    | .error e => (some e, { p with relay })
  else (none, p)

/-- A round: a turn of each direction. -/
def round (p : PollState) (now : ℕ) (answers : Side → Answers) : RoundEnd × PollState :=
  let p := { p with progressed := false }
  match p.turn now .a (answers .a) with
  | (some e, p) => (.failed e, p)
  | (none, p) =>
    match p.turn now .b (answers .b) with
    | (some e, p) => (.failed e, p)
    | (none, p) =>
      if p.relay.done .a && p.relay.done .b then (.finished, p)
      else if p.progressed then (.again, p)
      else (.idle, p)

end PollState

/-- The bytes of both directions. -/
def Relay.bytes (r : Relay) : ℕ := (r.dir .a).amt + (r.dir .b).amt

/-- What every turn that is taken does. -/
structure Taken (p q : PollState) (now : ℕ) (s : Side) (answers : Answers) (outcome : TurnEnd) :
    Prop where
  running : p.relay.done s = false
  awake : p.parked s = false
  dir : q.relay.dir = Function.update p.relay.dir s ((p.relay.dir s).pollCycle now answers).2
  turns : q.relay.turns = ⟨s, outcome⟩ :: p.relay.turns
  lingerArmed : q.relay.lingerArmed = p.relay.lingerArmed
  deadline : q.relay.deadline = p.relay.deadline
  lingerProgress : q.relay.lingerProgress = p.relay.lingerProgress

/-- **What a turn can do.** -/
inductive TurnSpec (p : PollState) (now : ℕ) (s : Side) (answers : Answers) :
    Option IoError × PollState → Prop where
  | skipped (h : p.relay.done s = true ∨ p.parked s = true) : TurnSpec p now s answers (none, p)
  | done (q : PollState) (h : Taken p q now s answers .done)
      (hdone : q.relay.done = Function.update p.relay.done s true)
      (hfinished : q.relay.finishedAt = Function.update p.relay.finishedAt s now)
      (hparked : q.parked = p.parked) (hprogressed : q.progressed = p.progressed)
      (hcycles : q.cycles = p.cycles) : TurnSpec p now s answers (none, q)
  | progress (q : PollState) (h : Taken p q now s answers .progress)
      (hdone : q.relay.done = p.relay.done) (hfinished : q.relay.finishedAt = p.relay.finishedAt)
      (hparked : q.parked = p.parked) (hcycles : q.cycles = p.cycles + 1) :
      TurnSpec p now s answers (none, q)
  | pending (q : PollState) (h : Taken p q now s answers .pending)
      (hdone : q.relay.done = p.relay.done) (hfinished : q.relay.finishedAt = p.relay.finishedAt)
      (hparked : q.parked = Function.update p.parked s true)
      (hprogressed : q.progressed = p.progressed) (hcycles : q.cycles = p.cycles) :
      TurnSpec p now s answers (none, q)
  | failed (e : IoError) (q : PollState) (h : Taken p q now s answers .failed)
      (hdone : q.relay.done = p.relay.done) (hfinished : q.relay.finishedAt = p.relay.finishedAt)
      (hcycles : q.cycles = p.cycles) : TurnSpec p now s answers (some e, q)

open PollState

lemma turnSpec (p : PollState) (now : ℕ) (s : Side) (answers : Answers) :
    TurnSpec p now s answers (p.turn now s answers) := by
  unfold turn
  split_ifs with h
  · rcases hcycle : (p.relay.dir s).pollCycle now answers with ⟨e | c, d⟩
    · exact .failed e _ ⟨h.1, h.2, by rw [hcycle], rfl, rfl, rfl, rfl⟩ rfl rfl rfl
    · cases c with
      | done =>
        exact .done _ ⟨h.1, h.2, by rw [hcycle], rfl, rfl, rfl, rfl⟩ rfl rfl rfl rfl rfl
      | progress =>
        exact .progress _ ⟨h.1, h.2, by rw [hcycle], rfl, rfl, rfl, rfl⟩ rfl rfl rfl rfl
      | pending =>
        exact .pending _ ⟨h.1, h.2, by rw [hcycle], rfl, rfl, rfl, rfl⟩ rfl rfl rfl rfl rfl
  · refine .skipped ?_
    rw [not_and_or, not_eq_false, not_eq_false] at h
    exact h

/-- A turn that makes progress is counted. -/
lemma PollState.turn_cycles (p : PollState) (now : ℕ) (s : Side) (answers : Answers) :
    p.cycles ≤ (p.turn now s answers).2.cycles ∧
      ((p.turn now s answers).2.progressed → p.progressed ∨
        p.cycles < (p.turn now s answers).2.cycles ∨ (p.turn now s answers).1 ≠ none) := by
  generalize hresult : p.turn now s answers = result
  have hspec := turnSpec p now s answers
  rw [hresult] at hspec
  cases hspec with
  | skipped h => exact ⟨le_rfl, .inl⟩
  | progress q h hdone hfinished hparked hcycles =>
    refine ⟨(le_add_right _ 1).trans hcycles.ge, fun _ => .inr (.inl ?_)⟩
    exact (lt_succ_self _).trans_le hcycles.ge
  | done _ _ _ _ _ hprogressed hcycles | pending _ _ _ _ _ hprogressed hcycles =>
    exact ⟨hcycles.ge, fun h => .inl (hprogressed ▸ h)⟩
  | failed e q h hdone hfinished hcycles =>
    exact ⟨hcycles.ge, fun _ => .inr (.inr (by simp))⟩

/-- **What a round can do**: the turn of `a` fails, that of `b` does, or both are taken. -/
inductive RoundSpec (p : PollState) (now : ℕ) (answers : Side → Answers) :
    RoundEnd × PollState → Prop where
  | failedA (e : IoError) (q : PollState)
      (ha : { p with progressed := false }.turn now .a (answers .a) = (some e, q)) :
      RoundSpec p now answers (.failed e, q)
  | failedB (e : IoError) (q q' : PollState)
      (ha : { p with progressed := false }.turn now .a (answers .a) = (none, q))
      (hb : q.turn now .b (answers .b) = (some e, q')) : RoundSpec p now answers (.failed e, q')
  | both (q q' : PollState) (roundEnd : RoundEnd)
      (ha : { p with progressed := false }.turn now .a (answers .a) = (none, q))
      (hb : q.turn now .b (answers .b) = (none, q'))
      (hfinished : roundEnd = .finished ↔ q'.relay.done .a = true ∧ q'.relay.done .b = true)
      (hagain : roundEnd = .again → q'.progressed = true)
      (hfailed : ∀ e, roundEnd ≠ .failed e) : RoundSpec p now answers (roundEnd, q')

lemma roundSpec (p : PollState) (now : ℕ) (answers : Side → Answers) :
    RoundSpec p now answers (p.round now answers) := by
  unfold PollState.round
  rcases ha : { p with progressed := false }.turn now .a (answers .a) with ⟨_ | e, q⟩
  · rcases hb : q.turn now .b (answers .b) with ⟨_ | e, q'⟩
    · simp only [ha, hb]
      split_ifs with hdone hprogressed
      · exact .both q q' _ ha hb (by simpa using hdone) (by simp) (by simp)
      · exact .both q q' _ ha hb (by simpa using hdone) (fun _ => hprogressed) (by simp)
      · exact .both q q' _ ha hb (by simpa using hdone) (by simp) (by simp)
    · simp only [ha, hb]
      exact .failedB e q q' ha hb
  · simp only [ha]
    exact .failedA e q ha

variable {now : ℕ}

/-- A round after which there is another has made progress. -/
lemma PollState.round_cycles {p : PollState} {answers} (h : (p.round now answers).1 = .again) :
    p.cycles < (p.round now answers).2.cycles := by
  generalize hresult : p.round now answers = result at h
  have hspec := roundSpec p now answers
  rw [hresult] at hspec
  cases hspec with
  | failedA | failedB => simp at h
  | both q q' roundEnd ha hb hfinished hagain hfailed =>
    have hcyclesA := turn_cycles { p with progressed := false } now .a (answers .a)
    have hcyclesB := q.turn_cycles now .b (answers .b)
    rw [ha] at hcyclesA
    rw [hb] at hcyclesB
    simp only at hcyclesA hcyclesB
    show p.cycles < q'.cycles
    rcases hcyclesB.2 (hagain h) with hq | hq | hq
    · rcases hcyclesA.2 hq with hp | hp | hp
      · simp at hp
      · omega
      · exact absurd rfl hp
    · omega
    · exact absurd rfl hq

namespace PollState

/-- The loop of a poll: rounds, up to a number of cycles and of bytes. -/
def loop (p : PollState) (now start : ℕ) (answers : ℕ → Side → Answers) (i : ℕ) :
    RoundEnd × PollState :=
  if h : (p.round now (answers i)).1 = .again ∧
      (p.round now (answers i)).2.cycles < RELAY_CYCLES_PER_POLL ∧
      (p.round now (answers i)).2.relay.bytes - start < RELAY_BYTES_PER_POLL then
    (p.round now (answers i)).2.loop now start answers (i + 1)
  else p.round now (answers i)
termination_by RELAY_CYCLES_PER_POLL - p.cycles
decreasing_by
  have hcycles := round_cycles h.1
  omega

end PollState

namespace Relay

/-- One direction has finished and the other goes on: the timer. -/
def linger (r : Relay) (now : ℕ) (fired : Bool) : Outcome × Relay :=
  let survivingAmt := if r.done .a then (r.dir .b).amt else (r.dir .a).amt
  let r :=
    if !r.lingerArmed || survivingAmt != r.lingerProgress then
      { r with
        lingerArmed := true, lingerProgress := survivingAmt
        deadline := now + RELAY_HALF_CLOSE_LINGER }
    else r
  -- the timer reports nothing before its time
  if fired && decide (r.deadline ≤ now) then (.ok (r.dir .a).amt (r.dir .b).amt, r)
  else (.pending, r)

/-- A poll. -/
def poll (r : Relay) (now : ℕ) (answers : ℕ → Side → Answers) (fired : Bool) : Outcome × Relay :=
  let p : PollState := { relay := r, parked := fun _ => false, cycles := 0, progressed := false }
  match p.loop now r.bytes answers 0 with
  | (.failed e, p) => (.err e, p.relay)
  | (.finished, p) => (.ok (p.relay.dir .a).amt (p.relay.dir .b).amt, p.relay)
  | (.again, p) => (.pending, p.relay)
  | (.idle, p) =>
    if p.relay.done .a || p.relay.done .b then p.relay.linger now fired else (.pending, p.relay)

/-- The relay over two buffers of the caller, which have a byte at least. -/
def new (buf : Side → { buf : List UInt8 // buf ≠ [] }) : Relay :=
  { dir := fun s => .new (buf s), done := fun _ => false, deadline := RELAY_HALF_CLOSE_LINGER
    lingerArmed := false, lingerProgress := 0, turns := [], finishedAt := fun _ => 0 }

end Relay

/-- A poll of a run: the time that has passed, and the answers. -/
structure RelayPoll where
  elapsed : ℕ
  answers : ℕ → Side → Answers
  fired : Bool

/-- A run: the clock, the relay, and what the last poll answered. -/
structure RelayRun where
  clock : ℕ
  relay : Relay
  outcome : Outcome

namespace RelayRun

def start (buf : Side → { buf : List UInt8 // buf ≠ [] }) : RelayRun :=
  { clock := 0, relay := .new buf, outcome := .pending }

/-- A relay that has ended is not polled again. -/
def step (r : RelayRun) (op : RelayPoll) : RelayRun :=
  if r.outcome = .pending then
    let now := r.clock + op.elapsed
    let (outcome, relay) := r.relay.poll now op.answers op.fired
    { clock := now, relay, outcome }
  else r

def run (r : RelayRun) (ops : List RelayPoll) : RelayRun := ops.foldl step r

end RelayRun

open RelayRun

/-! ### The order of the turns -/

/-- How the last turn of a direction ended. -/
def lastOutcome (s : Side) : List Turn → Option TurnEnd
  | [] => none
  | t :: turns => if t.side = s then some t.outcome else lastOutcome s turns

/-- The number of turns since the last of a direction. -/
def gap (s : Side) : List Turn → ℕ
  | [] => 0
  | t :: turns => if t.side = s then 0 else gap s turns + 1

/-- No direction whose last turn did not end as pending had to wait for more than one turn of the
other, when it took a turn. -/
def Fair : List Turn → Prop
  | [] => True
  | t :: turns =>
    (∀ outcome, lastOutcome t.side turns = some outcome → outcome ≠ .pending →
      gap t.side turns ≤ 1) ∧ Fair turns

/-- What comes between two turns of a direction is what the later of them had to wait for. -/
lemma lastOutcome_append {s} {mid back : List Turn} {t : Turn} (ht : t.side = s)
    (hmid : ∀ t' ∈ mid, t'.side ≠ s) :
    lastOutcome s (mid ++ t :: back) = some t.outcome ∧ gap s (mid ++ t :: back) = mid.length := by
  induction mid with
  | nil => simp [lastOutcome, gap, ht]
  | cons t' mid ih =>
    obtain ⟨hne, hmid⟩ := forall_mem_cons.mp hmid
    obtain ⟨hlast, hgap⟩ := ih hmid
    refine ⟨?_, ?_⟩
    · rw [cons_append, lastOutcome, if_neg hne, hlast]
    · rw [cons_append, gap, if_neg hne, hgap, length_cons]

/-- **Fairness of a log**, in terms of two turns of a direction. -/
lemma Fair.mid_le {turns front mid back : List Turn} {t t' : Turn} (h : Fair turns)
    (hturns : turns = front ++ t' :: (mid ++ t :: back)) (hside : t.side = t'.side)
    (hmid : ∀ u ∈ mid, u.side ≠ t'.side) (houtcome : t.outcome ≠ .pending) : mid.length ≤ 1 := by
  subst hturns
  induction front with
  | nil =>
    obtain ⟨hlast, hgap⟩ := @lastOutcome_append t'.side mid back t hside hmid
    rw [← hgap]
    exact h.1 t.outcome hlast houtcome
  | cons u front ih => exact ih h.2

/-- What a direction may have waited for, before it takes a turn: a direction whose last turn did
not end as pending has finished, or is not parked and has not waited for long. -/
def TurnsOk (p : PollState) (slack : Side → ℕ) : Prop :=
  ∀ s outcome, lastOutcome s p.relay.turns = some outcome → outcome ≠ .pending →
    p.relay.done s = true ∨ p.parked s = false ∧ gap s p.relay.turns ≤ slack s

/-! ### The invariant -/

/-- **The invariant of the relay** at a time. -/
structure RelayInv (r : Relay) (now : ℕ) : Prop where
  ok : ∀ s, DirectionOk (r.dir s)
  moved : ∀ s, (r.dir s).movedAt ≤ now
  finished : ∀ s, r.finishedAt s ≤ now
  fair : Fair r.turns
  /-- The timer was set after a direction had finished and, unless the other has moved on since,
  after its last byte. -/
  linger : r.lingerArmed = true → ∃ s, r.done s = true ∧
    r.finishedAt s + RELAY_HALF_CLOSE_LINGER ≤ r.deadline ∧
    r.lingerProgress ≤ (r.dir s.other).amt ∧
    ((r.dir s.other).amt = r.lingerProgress →
      (r.dir s.other).movedAt + RELAY_HALF_CLOSE_LINGER ≤ r.deadline)

variable (buf : Side → { buf : List UInt8 // buf ≠ [] })

lemma relayInv_new : RelayInv (.new buf) 0 where
  ok s := directionOk_new (buf s).2
  moved _ := le_rfl
  finished _ := le_rfl
  fair := trivial
  linger h := absurd h (by simp [Relay.new])

variable {r : Relay} {now' : ℕ}

lemma RelayInv.mono (h : RelayInv r now) (hle : now ≤ now') : RelayInv r now' :=
  ⟨h.ok, fun s => (h.moved s).trans hle, fun s => (h.finished s).trans hle, h.fair, h.linger⟩

section Turn

variable {p q : PollState} {s : Side} {answers : Answers}

lemma Side.ne_iff_eq_other {s s' : Side} : s ≠ s' ↔ s = s'.other := by
  cases s <;> cases s' <;> simp [Side.other]

variable {outcome : TurnEnd}

/-- The timer and a turn of the direction that has not finished. -/
lemma Taken.linger (h : Taken p q now s answers outcome)
    (hinv : RelayInv p.relay now) (hdone : ∀ t, p.relay.done t → q.relay.done t)
    (hfinished : ∀ t, t ≠ s → q.relay.finishedAt t = p.relay.finishedAt t)
    (harmed : q.relay.lingerArmed) : ∃ t, q.relay.done t ∧
      q.relay.finishedAt t + RELAY_HALF_CLOSE_LINGER ≤ q.relay.deadline ∧
      q.relay.lingerProgress ≤ (q.relay.dir t.other).amt ∧
      ((q.relay.dir t.other).amt = q.relay.lingerProgress →
        (q.relay.dir t.other).movedAt + RELAY_HALF_CLOSE_LINGER ≤ q.relay.deadline) := by
  obtain ⟨t, ht, hdeadline, hprogress, hmoved⟩ := hinv.linger (h.lingerArmed ▸ harmed)
  have hts : t ≠ s := by
    rintro rfl
    exact absurd ht (by rw [h.running]; decide)
  -- the turn is that of the other direction
  have hother : t.other = s := by
    rw [Side.ne_iff_eq_other.mp hts]
    cases s <;> rfl
  have hmoves := moves_pollCycle (p.relay.dir s) now answers
  refine ⟨t, hdone t ht, ?_, ?_, ?_⟩
  · rw [hfinished t hts, h.deadline]
    exact hdeadline
  · rw [h.lingerProgress, hother, h.dir, update_self]
    rw [hother] at hprogress
    exact hprogress.trans hmoves.le
  · rw [h.lingerProgress, hother, h.dir, update_self, h.deadline]
    rw [hother] at hprogress hmoved
    intro hamt
    have hsame : (p.relay.dir s).amt = p.relay.lingerProgress :=
      le_antisymm (hamt ▸ hmoves.le) hprogress
    rw [hmoves.same (hamt.trans hsame.symm)]
    exact hmoved hsame

variable {slack : Side → ℕ}

/-- A turn that is taken keeps the invariant. -/
lemma Taken.inv (h : Taken p q now s answers outcome)
    (hinv : RelayInv p.relay now) (hdone : ∀ t, p.relay.done t → q.relay.done t)
    (hfinished : ∀ t, t ≠ s → q.relay.finishedAt t = p.relay.finishedAt t)
    (hnow : ∀ t, q.relay.finishedAt t ≤ now) (hturns : TurnsOk p slack)
    (hslack : slack s ≤ 1) : RelayInv q.relay now := by
  refine ⟨fun t => ?_, fun t => ?_, hnow, ?_, h.linger hinv hdone hfinished⟩
  · rw [h.dir]
    by_cases hts : t = s
    · rw [hts, update_self]
      exact (hinv.ok s).pollCycle now answers
    · rw [update_of_ne hts]
      exact hinv.ok t
  · rw [h.dir]
    by_cases hts : t = s
    · rw [hts, update_self]
      rcases (moves_pollCycle (p.relay.dir s) now answers).at_now with heq | heq
      · rw [heq]
        exact hinv.moved s
      · exact heq.le
    · rw [update_of_ne hts]
      exact hinv.moved t
  · rw [h.turns]
    refine ⟨fun outcome hlast hpending => ?_, hinv.fair⟩
    rcases hturns s outcome hlast hpending with hd | ⟨_, hgap⟩
    · exact absurd hd (by rw [h.running]; decide)
    · exact hgap.trans hslack

/-- What may be waited for after a turn of `s`. -/
def afterTurn (slack : Side → ℕ) (s : Side) : Side → ℕ :=
  fun t => if t = s then 0 else slack t + 1

lemma Taken.turnsOk (h : Taken p q now s answers outcome) (hturns : TurnsOk p slack)
    (hdone : ∀ t, p.relay.done t → q.relay.done t) (hparked : ∀ t, t ≠ s → q.parked t = p.parked t)
    (hself : outcome ≠ .pending → q.relay.done s ∨ q.parked s = false) :
    TurnsOk q (afterTurn slack s) := by
  intro t last hlast hpending
  rw [h.turns, lastOutcome] at hlast
  rw [h.turns, gap, afterTurn]
  by_cases hts : t = s
  · subst hts
    rw [if_pos rfl] at hlast
    have heq : outcome = last := Option.some.inj hlast
    rw [if_pos rfl, if_pos rfl]
    rcases hself (heq ▸ hpending) with hd | hp
    · exact .inl hd
    · exact .inr ⟨hp, le_rfl⟩
  · rw [if_neg (Ne.symm hts)] at hlast
    rw [if_neg (Ne.symm hts), if_neg hts, hparked t hts]
    rcases hturns t last hlast hpending with hd | ⟨hp, hgap⟩
    · exact .inl (hdone t hd)
    · exact .inr ⟨hp, succ_le_succ hgap⟩

/-- **A turn**: the invariant, and what may be waited for after it unless it failed. -/
lemma RelayInv.turn (hinv : RelayInv p.relay now) (s : Side) (answers : Answers)
    (hturns : TurnsOk p slack) (hslack : slack s ≤ 1) :
    RelayInv (p.turn now s answers).2.relay now ∧
      ((p.turn now s answers).1 = none →
        TurnsOk (p.turn now s answers).2 (afterTurn slack s)) := by
  generalize hresult : p.turn now s answers = result
  have hspec := turnSpec p now s answers
  rw [hresult] at hspec
  cases hspec with
  | skipped h =>
    refine ⟨hinv, fun _ t last hlast hpending => ?_⟩
    rw [afterTurn]
    rcases hturns t last hlast hpending with hd | ⟨hp, hgap⟩
    · exact .inl hd
    · by_cases hts : t = s
      · subst hts
        rcases h with h | h
        · exact .inl h
        · exact absurd h (by rw [hp]; decide)
      · rw [if_neg hts]
        exact .inr ⟨hp, le_succ_of_le hgap⟩
  | done q h hdone hfinished hparked hprogressed hcycles =>
    have hdone' : ∀ t, p.relay.done t → q.relay.done t := by
      intro t ht
      rw [hdone]
      by_cases hts : t = s
      · rw [hts, update_self]
      · rw [update_of_ne hts, ht]
    refine ⟨h.inv hinv hdone' (fun t hts => ?_) (fun t => ?_) hturns hslack,
      fun _ => h.turnsOk hturns hdone' (fun t _ => ?_) (fun _ => .inl ?_)⟩
    · rw [hfinished, update_of_ne hts]
    · rw [hfinished]
      by_cases hts : t = s
      · rw [hts, update_self]
      · rw [update_of_ne hts]
        exact hinv.finished t
    · rw [hparked]
    · rw [hdone, update_self]
  | progress q h hdone hfinished hparked hcycles =>
    refine ⟨h.inv hinv (fun t ht => hdone ▸ ht) (fun t _ => by rw [hfinished])
      (fun t => hfinished ▸ hinv.finished t) hturns hslack,
      fun _ => h.turnsOk hturns (fun t ht => hdone ▸ ht) (fun t _ => by rw [hparked])
        (fun _ => .inr ?_)⟩
    rw [hparked]
    exact h.awake
  | pending q h hdone hfinished hparked hprogressed hcycles =>
    refine ⟨h.inv hinv (fun t ht => hdone ▸ ht) (fun t _ => by rw [hfinished])
      (fun t => hfinished ▸ hinv.finished t) hturns hslack,
      fun _ => h.turnsOk hturns (fun t ht => hdone ▸ ht) (fun t hts => ?_)
        (fun hne => absurd rfl hne)⟩
    rw [hparked, update_of_ne hts]
  | failed e q h hdone hfinished hcycles =>
    exact ⟨h.inv hinv (fun t ht => hdone ▸ ht) (fun t _ => by rw [hfinished])
      (fun t => hfinished ▸ hinv.finished t) hturns hslack, nofun⟩

end Turn

/-- What a direction may have waited for before a round: `b` took its turn last. -/
def roundSlack : Side → ℕ
  | .a => 1
  | .b => 0

/-- **A round** keeps the invariant, and unless it failed the turns are as before it. -/
lemma RelayInv.round {p : PollState} (hinv : RelayInv p.relay now) (hturns : TurnsOk p roundSlack)
    (answers : Side → Answers) :
    RelayInv (p.round now answers).2.relay now ∧
      ((∀ e, (p.round now answers).1 ≠ .failed e) →
        TurnsOk (p.round now answers).2 roundSlack ∧
        ((p.round now answers).1 = .finished ↔
          (p.round now answers).2.relay.done .a ∧
            (p.round now answers).2.relay.done .b)) := by
  have hA := RelayInv.turn (p := { p with progressed := false }) hinv .a (answers .a) hturns le_rfl
  generalize hresult : p.round now answers = result
  have hspec := roundSpec p now answers
  rw [hresult] at hspec
  cases hspec with
  | failedA e q ha =>
    rw [ha] at hA
    exact ⟨hA.1, fun hne => absurd rfl (hne e)⟩
  | failedB e q q' ha hb =>
    rw [ha] at hA
    have hB := hA.1.turn .b (answers .b) (hA.2 rfl) le_rfl
    rw [hb] at hB
    exact ⟨hB.1, fun hne => absurd rfl (hne e)⟩
  | both q q' roundEnd ha hb hfinished hagain hfailed =>
    rw [ha] at hA
    have hB := hA.1.turn .b (answers .b) (hA.2 rfl) le_rfl
    rw [hb] at hB
    refine ⟨hB.1, fun _ => ⟨fun s outcome hlast hpending => ?_, hfinished⟩⟩
    have hok := hB.2 rfl s outcome hlast hpending
    cases s <;> exact hok

/-- **The loop of a poll.**

**Proof sketch.** By induction along the loop, which goes on only from a round that did not fail. -/
lemma RelayInv.loop {start answers} (p : PollState) (i : ℕ) (hinv : RelayInv p.relay now)
    (hturns : TurnsOk p roundSlack) :
    RelayInv (p.loop now start answers i).2.relay now ∧
      ((∀ e, (p.loop now start answers i).1 ≠ .failed e) →
        TurnsOk (p.loop now start answers i).2 roundSlack ∧
        ((p.loop now start answers i).1 = .finished ↔
          (p.loop now start answers i).2.relay.done .a ∧
            (p.loop now start answers i).2.relay.done .b)) := by
  have hround := hinv.round hturns (answers i)
  fun_induction PollState.loop p now start answers i with
  | case1 p i h ih =>
    have hok := hround.2 (fun e => by rw [h.1]; simp)
    exact ih hround.1 hok.1 (hround.1.round hok.1 _)
  | case2 p i h => exact hround

/-! ### Polls -/

/-- What the timer leaves of a relay. -/
structure SameCopy (r r' : Relay) : Prop where
  dir : r'.dir = r.dir
  done : r'.done = r.done
  turns : r'.turns = r.turns
  finishedAt : r'.finishedAt = r.finishedAt

/-- **The timer**, when only `s` has finished: it ends no earlier than a whole window after the last
byte of the other direction.

**Proof sketch.** If it is set again in this poll, all that has happened is in the past. If not, no
byte has moved since it was set. -/
lemma RelayInv.linger_poll (hinv : RelayInv r now) {s : Side} (hdone : r.done s)
    (hother : r.done s.other = false) (fired : Bool) :
    ∃ r', SameCopy r r' ∧ RelayInv r' now ∧
      r.finishedAt s + RELAY_HALF_CLOSE_LINGER ≤ r'.deadline ∧
      (r.dir s.other).movedAt + RELAY_HALF_CLOSE_LINGER ≤ r'.deadline ∧
      r.linger now fired =
        if fired && decide (r'.deadline ≤ now) then (.ok (r.dir .a).amt (r.dir .b).amt, r')
        else (.pending, r') := by
  have hsurviving : (if r.done .a then (r.dir .b).amt else (r.dir .a).amt)
      = (r.dir s.other).amt := by
    cases s with
    | a => rw [if_pos hdone]; rfl
    | b =>
      have ha : r.done .a = false := hother
      rw [if_neg (by rw [ha]; decide)]
      rfl
  have hfinished := Nat.add_le_add_right (hinv.finished s) RELAY_HALF_CLOSE_LINGER
  have hmoved := Nat.add_le_add_right (hinv.moved s.other) RELAY_HALF_CLOSE_LINGER
  unfold Relay.linger
  simp only [hsurviving]
  by_cases hset : (!r.lingerArmed || (r.dir s.other).amt != r.lingerProgress) = true
  · rw [if_pos hset]
    exact ⟨{ r with
        lingerArmed := true, lingerProgress := (r.dir s.other).amt
        deadline := now + RELAY_HALF_CLOSE_LINGER },
      ⟨rfl, rfl, rfl, rfl⟩,
      ⟨hinv.ok, hinv.moved, hinv.finished, hinv.fair,
        fun _ => ⟨s, hdone, hfinished, le_rfl, fun _ => hmoved⟩⟩,
      hfinished, hmoved, rfl⟩
  · rw [if_neg hset]
    rw [not_eq_true, or_eq_false_iff, not_eq_false', bne_eq_false_iff_eq] at hset
    obtain ⟨t, ht, hdeadline, -, hsame⟩ := hinv.linger hset.1
    have hts : t = s := by
      by_contra hne
      rw [Side.ne_iff_eq_other.mp hne, hother] at ht
      cases ht
    subst hts
    exact ⟨r, ⟨rfl, rfl, rfl, rfl⟩, hinv, hdeadline, hsame hset.2, rfl⟩

/-- What a relay that ended successfully answers, and when it may end. -/
structure EndsWell (r : Relay) (now x y : ℕ) : Prop where
  aToB : x = (r.dir .a).amt
  bToA : y = (r.dir .b).amt
  reason : (∀ s, r.done s = true) ∨ ∃ s, r.done s = true ∧ r.done s.other = false ∧
    r.finishedAt s + RELAY_HALF_CLOSE_LINGER ≤ now ∧
    (r.dir s.other).movedAt + RELAY_HALF_CLOSE_LINGER ≤ now

/-- What a poll leaves. -/
structure PollOk (outcome : Outcome) (r : Relay) (now : ℕ) : Prop where
  inv : RelayInv r now
  /-- A relay that is polled again takes turns as before. -/
  turns : outcome = .pending → ∀ s last, lastOutcome s r.turns = some last → last ≠ .pending →
    r.done s = true ∨ gap s r.turns ≤ roundSlack s
  ends : ∀ x y, outcome = .ok x y → EndsWell r now x y

/-- The timer of a poll whose loop is idle. -/
lemma RelayInv.linger_ok (hinv : RelayInv r now)
    (hturns : ∀ s last, lastOutcome s r.turns = some last → last ≠ .pending →
      r.done s ∨ gap s r.turns ≤ roundSlack s)
    {s : Side} (hdone : r.done s) (hother : r.done s.other = false) (fired : Bool) :
    PollOk (r.linger now fired).1 (r.linger now fired).2 now := by
  obtain ⟨r', hsame, hinv', hfinished, hmoved, heq⟩ := hinv.linger_poll hdone hother fired
  have hturns' : ∀ s last, lastOutcome s r'.turns = some last → last ≠ .pending →
      r'.done s ∨ gap s r'.turns ≤ roundSlack s := by
    rw [hsame.turns, hsame.done]
    exact hturns
  rw [heq]
  split_ifs with hfired
  · refine ⟨hinv', fun _ => hturns', fun x y hxy => ?_⟩
    obtain ⟨rfl, rfl⟩ := Outcome.ok.inj hxy
    rw [and_eq_true, decide_eq_true_eq] at hfired
    refine ⟨by rw [hsame.dir], by rw [hsame.dir], .inr ⟨s, ?_, ?_, ?_, ?_⟩⟩
    · rw [hsame.done, hdone]
    · rw [hsame.done, hother]
    · rw [hsame.finishedAt]
      exact hfinished.trans hfired.2
    · rw [hsame.dir]
      exact hmoved.trans hfired.2
  · exact ⟨hinv', fun _ => hturns', nofun⟩

/-- **A poll.** -/
lemma PollOk.poll (h : PollOk .pending r now) (hle : now ≤ now') (answers : ℕ → Side → Answers)
    (fired : Bool) : PollOk (r.poll now' answers fired).1 (r.poll now' answers fired).2 now' := by
  have hloop := @RelayInv.loop now' r.bytes answers ⟨r, fun _ => false, 0, false⟩ 0
    (h.inv.mono hle)
    (fun s last hlast hpending => (h.turns rfl s last hlast hpending).imp_right fun hgap =>
      ⟨rfl, hgap⟩)
  simp only [Relay.poll]
  generalize loop _ now' r.bytes answers 0 = result at hloop ⊢
  rcases result with ⟨roundEnd, p⟩
  obtain ⟨hinv, hok⟩ := hloop
  -- between two polls no direction is parked
  have hturns : (∀ e, roundEnd ≠ .failed e) → ∀ s last, lastOutcome s p.relay.turns = some last →
      last ≠ .pending → p.relay.done s ∨ gap s p.relay.turns ≤ roundSlack s :=
    fun hne s last hlast hpending => ((hok hne).1 s last hlast hpending).imp_right And.right
  cases roundEnd with
  | failed e => exact ⟨hinv, nofun, nofun⟩
  | finished =>
    refine ⟨hinv, fun _ => hturns (by simp), fun x y hxy => ?_⟩
    obtain ⟨rfl, rfl⟩ := Outcome.ok.inj hxy
    have hdone := (hok (by simp)).2.mp rfl
    refine ⟨rfl, rfl, .inl fun s => ?_⟩
    cases s with
    | a => exact hdone.1
    | b => exact hdone.2
  | again => exact ⟨hinv, fun _ => hturns (by simp), nofun⟩
  | idle =>
    have hnot : ¬(p.relay.done .a ∧ p.relay.done .b) := fun hdone =>
      absurd ((hok (by simp)).2.mpr hdone) (by simp)
    rcases ha : p.relay.done .a with _ | _
    · rcases hb : p.relay.done .b with _ | _
      · simp only [ha, hb]
        exact ⟨hinv, fun _ => hturns (by simp), nofun⟩
      · simp only [ha, hb]
        exact hinv.linger_ok (hturns (by simp)) hb ha fired
    · have hb : p.relay.done .b = false := eq_false_iff.mpr fun hb => hnot ⟨ha, hb⟩
      simp only [ha]
      exact hinv.linger_ok (hturns (by simp)) ha hb fired

/-! ### Runs -/

/-- A step of a run. -/
lemma PollOk.step {r : RelayRun} (h : PollOk r.outcome r.relay r.clock) (op : RelayPoll) :
    PollOk (r.step op).outcome (r.step op).relay (r.step op).clock := by
  rw [RelayRun.step]
  split_ifs with hpending
  · rw [hpending] at h
    exact h.poll (le_add_right _ _) op.answers op.fired
  · exact h

lemma pollOk_start :
    PollOk (start buf).outcome (start buf).relay (start buf).clock where
  inv := relayInv_new buf
  turns _ s last hlast := absurd hlast (by simp [start, Relay.new, lastOutcome])
  ends x y hxy := absurd hxy (by simp [start])

/-- **The invariant over whole runs.** -/
lemma PollOk.run {r : RelayRun} (h : PollOk r.outcome r.relay r.clock) (ops : List RelayPoll) :
    PollOk (r.run ops).outcome (r.run ops).relay (r.run ops).clock := by
  induction ops generalizing r with
  | nil => exact h
  | cons op ops ih => exact ih (h.step op)

/-- **The relay, over all runs.** After any number of polls, whatever the connections have answered:

* in each direction, what the writer has accepted is a prefix of what was read;
* the counts that are returned are the sums of the progress that was reported;
* a writer was shut down only after the end of the stream, with all that was read accepted;
* between two turns of a direction, the earlier of which did not end as pending, the other took at
  most one;
* a relay that has ended without an error has both directions finished, or one finished and the
  other has not moved a byte for the whole of the time that is allowed. -/

theorem run_relay (buf : Side → { buf : List UInt8 // buf ≠ [] }) (ops : List RelayPoll) :
    let st := (RelayRun.start buf).run ops
    (∀ s, (st.relay.dir s).accepted <+: (st.relay.dir s).read) ∧
    (∀ x y, st.outcome = .ok x y →
      x = (st.relay.dir .a).callbacks.sum ∧ y = (st.relay.dir .b).callbacks.sum) ∧
    (∀ s, (st.relay.dir s).shutdown →
      (st.relay.dir s).ended ∧ (st.relay.dir s).accepted = (st.relay.dir s).read) ∧
    (∀ front mid back t t', st.relay.turns = front ++ t' :: (mid ++ t :: back) →
      t.side = t'.side → (∀ u ∈ mid, u.side ≠ t'.side) → t.outcome ≠ .pending →
      mid.length ≤ 1) ∧
    (∀ x y, st.outcome = .ok x y → (∀ s, st.relay.done s) ∨
      ∃ s, st.relay.done s ∧ st.relay.done s.other = false ∧
        st.relay.finishedAt s + RELAY_HALF_CLOSE_LINGER ≤ st.clock ∧
        (st.relay.dir s.other).movedAt + RELAY_HALF_CLOSE_LINGER ≤ st.clock) := by
  intro st
  have hst : PollOk st.outcome st.relay st.clock := (pollOk_start buf).run ops
  refine ⟨fun s => ?_, fun x y hxy => ?_, fun s hs => ?_, fun front mid back t t' => ?_,
    fun x y hxy => (hst.ends x y hxy).reason⟩
  · rw [(hst.inv.ok s).read]
    exact prefix_append _ _
  · have hends := hst.ends x y hxy
    rw [(hst.inv.ok .a).callbacks, (hst.inv.ok .b).callbacks]
    exact ⟨hends.aToB, hends.bToA⟩
  · have hdone := (hst.inv.ok s).readDone ((hst.inv.ok s).shutdown hs)
    refine ⟨hdone.1, ?_⟩
    have hdata : (st.relay.dir s).data = [] := by
      rw [Direction.data, hdone.2]
      exact drop_eq_nil_of_le (length_take_le _ _)
    rw [(hst.inv.ok s).read, hdata, append_nil]
  · exact hst.inv.fair.mid_le

end Meow.Tunnel
