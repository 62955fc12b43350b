import Mathlib.Tactic

/-!
# The UDP sessions of the listeners

A SOCKS5 UDP association (`socks5_udp.rs`) and the UDP relay of a Shadowsocks listener
(`shadowsocks.rs`) keep a table of sessions of their own, where `udp.rs` has the one of
`Tunnel.NatState`. A datagram whose destination has a session is written to it; otherwise it
is routed and dialed, and the session is stored with a task that relays the replies. The two differ
in the keys of their tables, and in that the relay has a limit on its flows. Neither takes a
session out of the table when a write to it fails or when its task ends: only the sweeper does,
once the session has been idle for a minute, and every datagram that is written keeps it alive.

## Main definitions

* `handleDatagram`, `step`, `run` — the table.
* `Breaks` — a write to a session fails, or its replies end.
* `Follows` — what is asked of the table after an event.

## Main results

* `replying_step` — where nothing breaks, every session keeps its task.
* `broken_stays` — a session that breaks stays.
* `follows_iff_unbroken` — a run is as asked iff no session breaks.
-/

namespace Meow.Listener

open List

/-! ### The tables -/

/-- `Session` and `UdpFlow`: when it was last active, and whether its reply task runs. -/
structure Session where
  lastActivityMs : UInt64
  replying : Bool
  deriving DecidableEq

/-- A datagram, with what it meets: the key of its flow if its destination is resolved, whether a
rule has a proxy for it, whether the dial and the write succeed, and the time then. -/
structure Datagram (Key : Type) where
  key : Option Key
  route : Bool
  dial : Bool
  write : Bool
  now : UInt64
  deriving DecidableEq

/-- What becomes of a datagram. -/
inductive Outcome where
  | unresolved
  | written
  | writeError
  | saturated
  | noRoute
  | dialError
  | initialWriteError
  | dialed
  deriving DecidableEq

/-- The sessions by their keys. -/
abbrev Table (Key : Type) := List (Key × Session)

variable {Key : Type} [DecidableEq Key]

/-- What the session of a key becomes. -/
def Table.modify (table : Table Key) (key : Key) (f : Session → Session) : Table Key :=
  table.map fun entry => if entry.1 = key then (key, f entry.2) else entry

/-- A datagram is handled; a limit of zero is none. -/
def handleDatagram (maxFlows : ℕ) (table : Table Key) (d : Datagram Key) : Outcome × Table Key :=
  match d.key with
  | none => (.unresolved, table)
  | some key =>
    if key ∈ table.map Prod.fst then
      if d.write then (.written, table.modify key fun s => { s with lastActivityMs := d.now })
      else (.writeError, table)
    else if 0 < maxFlows ∧ maxFlows ≤ table.length then (.saturated, table)
    else if ¬ d.route then (.noRoute, table)
    else if ¬ d.dial then (.dialError, table)
    else if ¬ d.write then (.initialWriteError, table)
    else (.dialed, (key, ⟨d.now, true⟩) :: table)

/-- `handle_client_datagram`: an association has a session for each destination, without a limit. -/
def handleClientDatagram (nat : Table Key) : Datagram Key → Outcome × Table Key :=
  handleDatagram 0 nat

/-- `handle_ss_udp_datagram`: the flows are those of a peer and a destination. -/
def handleSsUdpDatagram (maxFlows : ℕ) (flows : Table (Key × Key)) :
    Datagram (Key × Key) → Outcome × Table (Key × Key) := handleDatagram maxFlows flows

/-- `DEFAULT_UDP_IDLE`, in milliseconds. -/
def defaultUdpIdle : ℕ := 60000

/-- What happens to a table: a datagram arrives, the reply task of a session relays a datagram at a
time or ends, or the sweeper ticks. -/
inductive Event (Key : Type) where
  | datagram (d : Datagram Key)
  | reply (key : Key) (now : Option UInt64)
  | sweep (now : UInt64)
  deriving DecidableEq

/-- An event, in either listener. -/
def step (maxFlows : ℕ) (table : Table Key) : Event Key → Table Key
  | .datagram d => (handleDatagram maxFlows table d).2
  | .reply key (some now) =>
    table.modify key fun s => if s.replying then { s with lastActivityMs := now } else s
  | .reply key none => table.modify key fun s => { s with replying := false }
  | .sweep now => table.filter fun entry => (now - entry.2.lastActivityMs).toNat < defaultUdpIdle

/-- The table after a series of events. -/
def run (maxFlows : ℕ) (events : List (Event Key)) : Table Key := events.foldl (step maxFlows) []

/-! ### What is asked of them -/

/-- In this event a write to the session of this key fails, or its replies end. -/
def Breaks (table : Table Key) (key : Key) : Event Key → Prop
  | .datagram d => d.key = some key ∧ d.write = false ∧ key ∈ table.map Prod.fst
  | .reply k now => k = key ∧ now = none ∧ key ∈ table.map Prod.fst
  | .sweep _ => False

/-- The sessions of the table after an event have their reply tasks, and a session that broke is
gone, so that the next datagram is not written to it but goes on to be routed and dialed. -/
def Follows (maxFlows : ℕ) (table : Table Key) (event : Event Key) : Prop :=
  (∀ entry ∈ step maxFlows table event, entry.2.replying) ∧
    ∀ key, Breaks table key event → ∀ d : Datagram Key, d.key = some key →
      (handleDatagram maxFlows (step maxFlows table event) d).1 ∉ [.written, .writeError]

variable {maxFlows : ℕ} {table : Table Key} {event : Event Key} {key : Key}

@[simp] lemma Table.keys_modify (f : Session → Session) :
    (table.modify key f).map Prod.fst = table.map Prod.fst := by
  rw [Table.modify, map_map]
  refine map_congr_left fun entry _ => ?_
  rw [Function.comp_apply]
  split_ifs with heq
  · exact heq.symm
  · rfl

/-- **One event.** Where nothing breaks, every session keeps its reply task. -/
lemma replying_step (h : ∀ entry ∈ table, entry.2.replying)
    (hevent : ∀ key, ¬ Breaks table key event) :
    ∀ entry ∈ step maxFlows table event, entry.2.replying := by
  have hmodify : ∀ (key : Key) (f : Session → Session),
      (∀ s : Session, s.replying → (f s).replying) →
      ∀ entry ∈ table.modify key f, entry.2.replying := by
    intro key f hf entry hentry
    obtain ⟨old, hold, rfl⟩ := mem_map.mp hentry
    split_ifs
    · exact hf _ (h old hold)
    · exact h old hold
  match event with
  | .datagram d =>
    change ∀ entry ∈ (handleDatagram maxFlows table d).2, _
    fun_cases handleDatagram maxFlows table d with
    | case2 key => exact hmodify key (fun s => { s with lastActivityMs := d.now }) fun _ hs => hs
    | case8 => exact forall_mem_cons.mpr ⟨rfl, h⟩
    | _ => exact h
  | .reply key (some now) =>
    refine hmodify key (fun s => if s.replying then { s with lastActivityMs := now } else s)
      fun s hs => ?_
    rw [if_pos hs]
    exact hs
  | .reply key none =>
    -- The key has no session, so that the end of its replies changes none.
    have hnone : key ∉ table.map Prod.fst := fun hmem => hevent key ⟨rfl, rfl, hmem⟩
    intro entry hentry
    obtain ⟨old, hold, rfl⟩ := mem_map.mp hentry
    have hne : old.1 ≠ key := by
      rintro rfl
      exact hnone (mem_map_of_mem hold)
    rw [if_neg hne]
    exact h old hold
  | .sweep now => exact fun entry hentry => h entry (mem_of_mem_filter hentry)

/-- **A session that breaks stays**, and the next datagram is written to it. -/
lemma broken_stays (h : Breaks table key event) (d : Datagram Key) (hkey : d.key = some key) :
    (handleDatagram maxFlows (step maxFlows table event) d).1 ∈ [.written, .writeError] := by
  have hmem : key ∈ (step maxFlows table event).map Prod.fst := by
    match event, h with
    | .datagram d, ⟨hd, hwrite, hmem⟩ =>
      rw [step, handleDatagram, hd]
      simp only [if_pos hmem, hwrite]
      exact hmem
    | .reply _ _, ⟨rfl, rfl, hmem⟩ => rwa [step, Table.keys_modify]
  unfold handleDatagram
  rw [hkey]
  simp only [if_pos hmem]
  split_ifs <;> simp

/-- **The sessions and their tasks.** In every run of an association or of the relay, the sessions
have their reply tasks and those that break are dialed again, iff none ever breaks.

**Proof sketch.** A session that breaks stays, which is the one direction; the other is the
induction over the run. -/
theorem follows_iff_unbroken (maxFlows : ℕ) (events : List (Event Key)) :
    (∀ before event, before ++ [event] <+: events → Follows maxFlows (run maxFlows before) event) ↔
      ∀ before event, before ++ [event] <+: events →
        ∀ key, ¬ Breaks (run maxFlows before) key event := by
  refine ⟨fun h before event hbefore key hbreaks => ?_, fun h => ?_⟩
  · let d : Datagram Key := ⟨some key, true, true, true, 0⟩
    exact (h before event hbefore).2 key hbreaks d rfl (broken_stays hbreaks d rfl)
  · have hrun : ∀ before, before <+: events → ∀ entry ∈ run maxFlows before, entry.2.replying := by
      intro before hbefore
      induction before using reverseRecOn with
      | nil => exact fun _ hentry => nomatch hentry
      | append_singleton before event ih =>
        rw [run, foldl_append]
        exact replying_step (ih ((prefix_append _ _).trans hbefore)) (h before event hbefore)
    intro before event hbefore
    exact ⟨replying_step (hrun before ((prefix_append _ _).trans hbefore)) (h before event hbefore),
      fun key hbreaks => absurd hbreaks (h before event hbefore key)⟩

/-- A session whose replies have ended is written to. -/
theorem ended_session_written :
    (handleClientDatagram (run 0 [.datagram ⟨some 1, true, true, true, 0⟩, .reply 1 none])
      ⟨some 1, true, true, true, 5⟩).1 = .written ∧
    (handleClientDatagram (run 0 [.datagram ⟨some 1, true, true, true, 0⟩,
      .datagram ⟨some 1, true, true, false, 1⟩]) ⟨some 1, true, true, true, 5⟩).1 = .written := by
  decide

end Meow.Listener
