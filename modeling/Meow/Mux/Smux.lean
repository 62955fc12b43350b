import Mathlib.Data.List.Basic

/-!
# Streams of an smux session

An open looks whether the session is dead, puts the sender of its stream into the table, and queues
the `SYN` for the writer. The task that fails first marks the session dead and then empties the
table. Each of these is a step of its own, and they can come in any order.

## Main definitions

* `Session`, `Session.step` — the session, and the steps of the opens and of the two tasks.
* `Session.pollRead` — a read of a stream.
* `NoLateSyn` — no `SYN` is queued for a stream that came into the empty table.

## Main results

* `reads_end` — then the reads of all streams end in a dead session.
* `late_stream_waits` — otherwise a read can wait for ever.
-/

namespace Meow.Mux.Smux

/-- Where an open is, after it was told that the session is not dead. -/
inductive Opening where
  | checked
  /-- Its sender is in the table, and it waits for the queue of the writer. -/
  | registered
  /-- `open_stream` has returned the stream. -/
  | returned
  | failed
  deriving DecidableEq

/-- The two tasks of a session. -/
inductive Task where
  | reader
  | writer
  deriving DecidableEq

/-- Where a task is; `clearing` has set the flag in `mark_dead` and waits for the table. -/
inductive TaskState where
  | running
  | clearing
  | leaving
  | ended
  deriving DecidableEq

/-- `Session` with its tasks. A sender is known by the open that made it; `removals` are the tasks
that guards have spawned. The writer drops its receiver when it ends. -/
structure Session where
  dead : Bool := false
  streams : UInt32 → Option ℕ := fun _ => none
  nextStreamId : UInt32 := 1
  opens : ℕ → Option (UInt32 × Opening) := fun _ => none
  removals : List UInt32 := []
  tasks : Task → TaskState := fun _ => .running

/-- The steps: those of open `a`, which can be cancelled, of the tasks that guards have spawned, of
a `FIN` of the server, and of the tasks of the session. -/
inductive Event where
  | check (a : ℕ)
  | register (a : ℕ)
  | send (a : ℕ)
  | cancel (a : ℕ)
  | remove (id : UInt32)
  | fin (id : UInt32)
  | fails (t : Task)
  | clear (t : Task)
  | ends (t : Task)

namespace Session

variable (s : Session)

/-- `open_stream` ends without a stream; its guard spawns a removal if it has registered. -/
def giveUp (a : ℕ) : Session :=
  match s.opens a with
  | some (id, .registered) =>
    { s with opens := Function.update s.opens a (some (id, .failed)), removals := id :: s.removals }
  | some (id, .checked) => { s with opens := Function.update s.opens a (some (id, .failed)) }
  | _ => s

/-- One step. -/
def step : Event → Session
  | .check a =>
    if s.dead ∨ s.opens a ≠ none then s
    else { s with
      opens := Function.update s.opens a (some (s.nextStreamId, .checked))
      nextStreamId := s.nextStreamId + 2 }
  | .register a =>
    match s.opens a with
    | some (id, .checked) => { s with
      streams := Function.update s.streams id (some a)
      opens := Function.update s.opens a (some (id, .registered)) }
    | _ => s
  | .send a =>
    match s.opens a with
    | some (id, .registered) =>
      if s.tasks .writer = .ended then s.giveUp a
      else { s with opens := Function.update s.opens a (some (id, .returned)) }
    | _ => s
  | .cancel a => s.giveUp a
  | .remove id =>
    if id ∈ s.removals then { s with
      streams := Function.update s.streams id none, removals := s.removals.erase id }
    else s
  | .fin id => { s with streams := Function.update s.streams id none }
  | .fails t =>
    if s.tasks t = .running then { s with
      dead := true
      tasks := Function.update s.tasks t (if s.dead then .leaving else .clearing) }
    else s
  | .clear t =>
    if s.tasks t = .clearing then { s with
      streams := fun _ => none, tasks := Function.update s.tasks t .leaving }
    else s
  | .ends t =>
    if s.tasks t = .leaving then { s with tasks := Function.update s.tasks t .ended } else s

/-- A series of steps. -/
def run (events : List Event) : Session := events.foldl step s

/-- The session is dead and its table was emptied. -/
def Cleared : Prop := s.dead = true ∧ ∀ t, s.tasks t ≠ .clearing

end Session

/-! ### Reading -/

/-- What `SmuxStream` keeps of what it has received, and what is in its queue. -/
structure Received where
  pending : Option (List UInt8)
  eof : Bool
  queue : List (List UInt8)

/-- What `poll_read` returns; `closed` is the error `smux session closed`. -/
inductive ReadPoll where
  | pending
  | closed
  | data (bytes : List UInt8)
  deriving DecidableEq

/-- The loop of `poll_read`: frames without a payload are passed over, and an empty queue has an end
when there is no sender any more. -/
def Session.recv (s : Session) (a : ℕ) (room : ℕ) : List (List UInt8) → ReadPoll
  | [] => if ∃ p ∈ s.opens a, s.streams p.1 = some a then .pending
    else if s.dead then .closed else .data []
  | [] :: queue => s.recv a room queue
  | chunk :: _ => .data (chunk.take room)

/-- `poll_read` of the stream of open `a`. -/
def Session.pollRead (s : Session) (a : ℕ) (r : Received) (room : ℕ) : ReadPoll :=
  if room = 0 then .data []
  else
    match r.pending with
    | some chunk => .data (chunk.take room)
    | none => if r.eof then .data [] else s.recv a room r.queue

/-! ### Dead sessions -/

/-- The step queues the `SYN` of a stream whose sender is in the table though that was emptied. -/
def LateSyn (s : Session) (event : Event) : Prop :=
  s.Cleared ∧ s.tasks .writer ≠ .ended ∧
    ∃ a id, event = .send a ∧ s.opens a = some (id, .registered) ∧ s.streams id = some a

/-- **No `SYN` is queued late.** -/
def NoLateSyn (s : Session) : List Event → Prop
  | [] => True
  | event :: events => ¬LateSyn s event ∧ NoLateSyn (s.step event) events

/-- The senders that are left in a dead session are those of opens that wait, and those that a
task is about to remove. -/
def Leaving (s : Session) : Prop :=
  s.Cleared → ∀ id a, s.streams id = some a →
    s.opens a = some (id, .registered) ∨ id ∈ s.removals

variable {s : Session}

lemma Leaving.giveUp (h : Leaving s) (a : ℕ) : Leaving (s.giveUp a) := by
  fun_cases Session.giveUp s a with
  | case1 | case2 =>
    intro hcleared id' a' hsender
    have hold := h hcleared id' a' hsender
    grind
  | case3 => exact h

/-- Each step keeps this, if it is no late `SYN`. -/
lemma Leaving.step {event} (h : Leaving s) (hsyn : ¬LateSyn s event) : Leaving (s.step event) := by
  fun_cases Session.step s event with
  | case2 a hnew => exact fun hcleared => absurd hcleared.1 (by simp_all)
  | case3 a id hopen =>
    intro hcleared id' a' hsender
    have hold := h hcleared id' a'
    grind
  | case5 a => exact h.giveUp a
  | case6 a id hopen hwriter =>
    intro hcleared id' a' hsender
    have hold := h hcleared id' a' hsender
    have hlate : s.streams id ≠ some a := fun hlate =>
      hsyn ⟨hcleared, hwriter, a, id, rfl, hopen, hlate⟩
    grind
  | case8 a => exact h.giveUp a
  | case9 id | case11 id =>
    intro hcleared id' a' hsender
    have hold := h hcleared id' a'
    grind
  | case12 t hrunning =>
    -- the first task to fail waits for the table
    refine fun hcleared => h ⟨?_, fun t' => ?_⟩
    · have ht := hcleared.2 t
      grind
    · have ht := hcleared.2 t'
      grind
  | case14 t => exact fun _ _ _ => nofun
  | case16 t hleaving =>
    refine fun hcleared => h ⟨hcleared.1, fun t' => ?_⟩
    have ht := hcleared.2 t'
    grind
  | _ => exact h

lemma Leaving.run (h : Leaving s) {events} (hsyn : NoLateSyn s events) :
    Leaving (s.run events) := by
  induction events generalizing s with
  | nil => exact h
  | cons event events ih => exact ih (h.step hsyn.1) hsyn.2

/-- **In a dead session reads end.** After every series of steps in which no `SYN` is queued late,
when the session is dead, its table was emptied and no removal is left to do, a read of a stream
that an open has returned is not pending, whatever the stream has received.

**Proof sketch.** A sender that is left in the table is that of an open that still waits. -/
theorem reads_end (events : List Event) (hsyn : NoLateSyn {} events)
    (hcleared : (Session.run {} events).Cleared) (hquiet : (Session.run {} events).removals = [])
    {a : ℕ} {id : UInt32} (ha : (Session.run {} events).opens a = some (id, .returned))
    (r : Received) (room : ℕ) : (Session.run {} events).pollRead a r room ≠ .pending := by
  have hleaving : Leaving (Session.run {} events) :=
    Leaving.run (by intro _ _ _ h; cases h) hsyn
  generalize Session.run {} events = s at *
  have hsender : ¬∃ p ∈ s.opens a, s.streams p.1 = some a := by
    rintro ⟨p, -, hp⟩
    rcases hleaving hcleared p.1 a hp with hopen | hmem
    · rw [ha] at hopen
      cases hopen
    · simp [hquiet] at hmem
  fun_cases Session.pollRead s a r room with
  | case4 => fun_induction Session.recv s a room r.queue <;> grind
  | _ => exact nofun

/-- A stream that was returned before the session failed. -/
theorem reads_end_once :
    (Session.run {} [.check 0, .register 0, .send 0, .fails .reader, .clear .reader]).pollRead 0
      ⟨none, false, []⟩ 1 ≠ .pending := by
  refine reads_end _ ?_ ⟨rfl, fun t => by cases t <;> decide⟩ rfl rfl _ _
  have halive : ∀ {s : Session} {event : Event}, s.dead = false → ¬LateSyn s event :=
    fun hdead h => by simp [h.1.1] at hdead
  exact ⟨halive rfl, halive rfl, halive rfl, halive rfl, fun h => h.1.2 .reader rfl, trivial⟩

/-- An open that found the session alive registers its stream after the table was emptied, and its
`SYN` is queued before the writer ends: when both tasks have ended, a read of it waits. -/
theorem late_stream_waits :
    let s := Session.run {} [.check 0, .fails .reader, .clear .reader, .register 0, .send 0,
      .ends .reader, .fails .writer, .ends .writer]
    s.opens 0 = some (1, .returned) ∧ s.removals = [] ∧ (∀ t, s.tasks t = .ended) ∧
      s.pollRead 0 ⟨none, false, []⟩ 1 = .pending :=
  ⟨rfl, rfl, fun t => by cases t <;> rfl, by decide⟩

end Meow.Mux.Smux
