import Meow.Lib.Poll

/-!
# Copying in one direction

The relay of `relay.rs` copies between two connections, and each direction is a `HalfCopy`: a buffer
that is filled by one read when it is empty and then written out, as far as the writer takes it.
Once the reader has met the end of the stream and everything is written the writer is shut down. A
direction that has carried much gets a larger buffer, when it is empty.

A cycle is given the answers of the connections: to the read, to the writes, to the flush and to the
shutdown. Beside the fields of the code a direction has what was seen of it: the bytes that were
read and accepted, the calls of the progress callback, the end of the stream, the shutdown, and the
time of the last byte.

## Main definitions

* `HalfCopy`, `Direction` — a direction, and what was seen of it.
* `Direction.pollCycle` — a cycle.
* `DirectionOk` — the invariant.

## Main results

* `DirectionOk.pollCycle` — a cycle keeps the invariant.
-/

namespace Meow.Tunnel

open List Nat

/-! ### The direction -/

def RELAY_BUF_SIZE : ℕ := 4 * 1024

def RELAY_BULK_BUF_SIZE : ℕ := 32 * 1024

def RELAY_BULK_UPGRADE_BYTES : ℕ := 128 * 1024

/-- The outcome of a turn. -/
inductive Cycle where
  | done
  | progress
  | pending
  deriving DecidableEq

structure HalfCopy where
  buf : List UInt8
  readDone : Bool
  pos : ℕ
  cap : ℕ
  amt : ℕ
  needFlush : Bool
  deriving DecidableEq

/-- A direction, with what was seen of it. -/
structure Direction extends HalfCopy where
  /-- The bytes the reader gave. -/
  read : List UInt8
  /-- The bytes the writer took. -/
  accepted : List UInt8
  /-- The calls of the progress callback. -/
  callbacks : List ℕ
  /-- The reader has reported the end of the stream. -/
  ended : Bool
  /-- The writer was asked to shut down. -/
  shutdown : Bool
  /-- When the writer last took a byte. -/
  movedAt : ℕ
  deriving DecidableEq

def wantsBulkUpgrade (amt bufLen : ℕ) : Bool :=
  amt ≥ RELAY_BULK_UPGRADE_BYTES && bufLen < RELAY_BULK_BUF_SIZE

/-- The answer to `poll_read`. The reader has bytes, of which it gives as many as fit, or reports
the end of the stream. -/
inductive ReadAnswer where
  | pending
  | fail
  | eof
  | data (first : UInt8) (rest : List UInt8)
  deriving DecidableEq

/-- The answer to `poll_flush` or `poll_shutdown`. -/
inductive PollAnswer where
  | pending
  | fail
  | ready
  deriving DecidableEq

/-- The answers a cycle meets. A write that finds no answer is pending. -/
structure Answers where
  read : ReadAnswer
  writes : List WriteEv
  flush : PollAnswer
  shutdown : PollAnswer
  deriving DecidableEq

/-- What a cycle gives back: how it ended, and the direction after it. -/
abbrev CycleResult := Except IoError Cycle × Direction

namespace Direction

def new (buf : List UInt8) : Direction :=
  { buf, readDone := false, pos := 0, cap := 0, amt := 0, needFlush := false, read := []
    accepted := [], callbacks := [], ended := false, shutdown := false, movedAt := 0 }

/-- The bytes that are read and not yet written. -/
def data (d : Direction) : List UInt8 := (d.buf.take d.cap).drop d.pos

/-- A larger buffer for a direction that has carried much. -/
def upgrade (d : Direction) : Direction :=
  if wantsBulkUpgrade d.amt d.buf.length then
    { d with buf := List.replicate RELAY_BULK_BUF_SIZE 0 }
  else d

/-- The bytes of a read, of which the buffer takes as many as it is long. A read of no byte is the
end of the stream. -/
def filled (d : Direction) (bytes : List UInt8) (eof : Bool) : Direction :=
  let chunk := bytes.take d.buf.length
  if chunk.length = 0 then { d with readDone := true, ended := eof }
  else
    { d with
      buf := store d.buf 0 chunk, pos := 0, cap := chunk.length
      read := d.read ++ chunk }

/-- The end of the stream has come and all is written. -/
def finish (d : Direction) (answer : PollAnswer) : CycleResult :=
  let d := { d with shutdown := true }
  match answer with
  | .ready => (.ok .done, d)
  | .fail => (.error transportError, d)
  | .pending => (.ok .pending, d)

/-- The direction after the writes of a cycle. -/
def wrote (d : Direction) (now : ℕ) (writes : List WriteEv) : Direction :=
  let sent := (drain writes d.data).sent
  { d with
    pos := d.pos + sent.length
    amt := d.amt + sent.length
    callbacks := d.callbacks ++ drainSizes writes d.data
    needFlush := d.needFlush || decide (sent ≠ [])
    accepted := d.accepted ++ sent
    movedAt := if sent = [] then d.movedAt else now }

/-- The loop that writes out the buffer, and what follows it. -/
def drainPhase (d : Direction) (now : ℕ) (answers : Answers) : CycleResult :=
  match (drain answers.writes d.data).status with
  | .done =>
    if d.readDone then (d.wrote now answers.writes).finish answers.shutdown
    else (.ok .progress, d.wrote now answers.writes)
  | .blocked => (.ok .pending, d.wrote now answers.writes)
  | .closed => (.error ⟨.writeZero, "write zero bytes to writer"⟩, d.wrote now answers.writes)
  | .failed => (.error transportError, d.wrote now answers.writes)

/-- The reader has nothing: what was written is flushed. -/
def park (d : Direction) (answer : PollAnswer) : CycleResult :=
  if d.needFlush then
    match answer with
    | .ready => (.ok .pending, { d with needFlush := false })
    | .fail => (.error transportError, d)
    | .pending => (.ok .pending, d)
  else (.ok .pending, d)

def pollCycle (d : Direction) (now : ℕ) (answers : Answers) : CycleResult :=
  if d.pos = d.cap ∧ d.readDone = false then
    match answers.read with
    | .data first rest => (d.upgrade.filled (first :: rest) false).drainPhase now answers
    | .eof => (d.upgrade.filled [] true).drainPhase now answers
    | .fail => (.error transportError, d.upgrade)
    | .pending => d.upgrade.park answers.flush
  else d.drainPhase now answers

end Direction

/-! ### The invariant -/

/-- **The invariant of a direction.** -/
structure DirectionOk (d : Direction) : Prop where
  buf : 0 < d.buf.length
  pos : d.pos ≤ d.cap
  cap : d.cap ≤ d.buf.length
  /-- Nothing is lost, doubled or moved. -/
  read : d.read = d.accepted ++ d.data
  amt : d.amt = d.accepted.length
  callbacks : d.callbacks.sum = d.amt
  readDone : d.readDone = true → d.ended = true ∧ d.pos = d.cap
  shutdown : d.shutdown = true → d.readDone = true

open Direction

lemma directionOk_new {buf} (h : buf ≠ []) : DirectionOk (.new buf) where
  buf := length_pos_of_ne_nil h
  pos := le_rfl
  cap := zero_le _
  read := rfl
  amt := rfl
  callbacks := rfl
  readDone h := absurd h (by simp [new])
  shutdown h := absurd h (by simp [new])

section Ok

variable {d : Direction}

/-- Where all is written there is nothing to write. -/
lemma Direction.data_eq_nil (h : d.pos = d.cap) : d.data = [] := by
  rw [data, h, drop_eq_nil_iff, length_take]
  exact min_le_left _ _

lemma DirectionOk.length_data (h : DirectionOk d) : d.data.length = d.cap - d.pos := by
  rw [data, length_drop, length_take, min_eq_left h.cap]

/-- **The buffer is swapped only when it is empty**, so nothing is lost. -/
lemma DirectionOk.upgrade (h : DirectionOk d) (hpos : d.pos = d.cap) : DirectionOk d.upgrade := by
  rw [Direction.upgrade]
  split_ifs with hwants
  · rw [wantsBulkUpgrade, Bool.and_eq_true, decide_eq_true_eq, decide_eq_true_eq] at hwants
    have hlen : (replicate RELAY_BULK_BUF_SIZE (0 : UInt8)).length = RELAY_BULK_BUF_SIZE :=
      length_replicate
    have hcap := h.cap
    have hread := h.read
    rw [data_eq_nil hpos] at hread
    refine ⟨?_, h.pos, ?_, ?_, h.amt, h.callbacks, h.readDone, h.shutdown⟩
    · rw [hlen]
      exact zero_lt_of_lt hwants.2
    · rw [hlen]
      exact hcap.trans hwants.2.le
    · rw [data_eq_nil (by exact hpos)]
      exact hread
  · exact h

/-- There is room in a buffer that is empty. -/
lemma DirectionOk.room_ne_zero (h : DirectionOk d) (hdata : d.data = []) :
    d.upgrade.buf.length ≠ 0 := by
  have hlen := h.length_data
  have hpos := h.pos
  rw [hdata, length_nil] at hlen
  exact (h.upgrade (by omega)).buf.ne'

@[simp] lemma Direction.upgrade_pos (d : Direction) : d.upgrade.pos = d.pos := by
  rw [upgrade]
  split_ifs <;> rfl

@[simp] lemma Direction.upgrade_cap (d : Direction) : d.upgrade.cap = d.cap := by
  rw [upgrade]
  split_ifs <;> rfl

@[simp] lemma Direction.upgrade_readDone (d : Direction) : d.upgrade.readDone = d.readDone := by
  rw [upgrade]
  split_ifs <;> rfl

@[simp] lemma Direction.upgrade_amt (d : Direction) : d.upgrade.amt = d.amt := by
  rw [upgrade]
  split_ifs <;> rfl

@[simp] lemma Direction.upgrade_movedAt (d : Direction) : d.upgrade.movedAt = d.movedAt := by
  rw [upgrade]
  split_ifs <;> rfl

/-- A read of bytes fills the buffer from its start, and they are to be written. -/
lemma DirectionOk.filled_data (h : DirectionOk d) (hpos : d.pos = d.cap)
    (hdone : d.readDone = false) (first : UInt8) (rest : List UInt8) :
    DirectionOk (d.filled (first :: rest) false) ∧
      (d.filled (first :: rest) false).accepted = d.accepted ∧
      (d.filled (first :: rest) false).data ≠ [] := by
  have hbuf := h.buf
  have hchunk : ((first :: rest).take d.buf.length).length ≠ 0 := by
    rw [length_take, length_cons]
    omega
  have hle : ((first :: rest).take d.buf.length).length ≤ d.buf.length := by
    rw [length_take]
    exact min_le_left _ _
  have hread := h.read
  rw [data_eq_nil hpos, append_nil] at hread
  have hlen : (store d.buf 0 ((first :: rest).take d.buf.length)).length = d.buf.length :=
    length_store (by omega)
  have hshutdown : d.shutdown = false := by
    rcases hs : d.shutdown with _ | _
    · rfl
    · exact absurd (h.shutdown hs) (by rw [hdone]; decide)
  -- what is in the buffer now is what was read
  have hdata : (store d.buf 0 ((first :: rest).take d.buf.length)).take
      (0 + ((first :: rest).take d.buf.length).length) =
      d.buf.take 0 ++ (first :: rest).take d.buf.length := take_store (zero_le _)
  rw [zero_add, take_zero, nil_append] at hdata
  simp only [filled]
  rw [if_neg hchunk]
  refine ⟨⟨?_, zero_le _, ?_, ?_, h.amt, h.callbacks, fun hd => ?_, fun hs => ?_⟩, rfl, ?_⟩
  · rw [hlen]
    exact hbuf
  · rw [hlen]
    exact hle
  · simp only [data]
    rw [hdata, drop_zero, hread]
  · exact absurd hd (by rw [hdone]; decide)
  · exact absurd hs (by rw [hshutdown]; decide)
  · simp only [data]
    rw [hdata, drop_zero]
    exact ne_nil_of_length_pos (pos_of_ne_zero hchunk)

/-- The end of the stream. -/
lemma DirectionOk.filled_eof (h : DirectionOk d) (hpos : d.pos = d.cap) :
    DirectionOk (d.filled [] true) := by
  simp only [filled]
  rw [if_pos (by rw [take_nil]; rfl)]
  exact ⟨h.buf, h.pos, h.cap, h.read, h.amt, h.callbacks, fun _ => ⟨rfl, hpos⟩, fun _ => rfl⟩

/-- What the writes of a cycle do. -/
lemma DirectionOk.wrote (h : DirectionOk d) (now : ℕ) (writes : List WriteEv) :
    DirectionOk (d.wrote now writes) := by
  have hsplit := drain_sent_rest writes d.data
  have hlen := congrArg length hsplit
  rw [length_append, h.length_data] at hlen
  have hpos := h.pos
  refine ⟨h.buf, ?_, h.cap, ?_, ?_, ?_, fun hd => ?_, h.shutdown⟩
  · simp only [Direction.wrote]
    omega
  · have hdata : (d.wrote now writes).data = (drain writes d.data).rest := by
      rw [drain_rest_eq_drop]
      simp only [Direction.data, Direction.wrote, drop_drop]
    rw [hdata]
    simp only [Direction.wrote]
    rw [append_assoc, hsplit, h.read]
  · simp only [Direction.wrote]
    rw [length_append, h.amt]
  · simp only [Direction.wrote]
    rw [sum_append, sum_drainSizes, h.callbacks]
  · obtain ⟨hended, hcap⟩ := h.readDone hd
    refine ⟨hended, ?_⟩
    simp only [Direction.wrote]
    omega

lemma Direction.snd_finish (d : Direction) (answer : PollAnswer) :
    (d.finish answer).2 = { d with shutdown := true } := by
  cases answer <;> rfl

/-- Only the mark of what is to be flushed changes. -/
lemma Direction.snd_park (d : Direction) (answer : PollAnswer) :
    ∃ needFlush, (d.park answer).2 = { d with needFlush } := by
  unfold park
  split_ifs
  · cases answer with
    | pending | fail => exact ⟨d.needFlush, rfl⟩
    | ready => exact ⟨false, rfl⟩
  · exact ⟨d.needFlush, rfl⟩

section

variable (h : DirectionOk d)
include h

/-- The shutdown comes after the end of the stream. -/
lemma DirectionOk.finish (hdone : d.readDone = true) (answer : PollAnswer) :
    DirectionOk (d.finish answer).2 := by
  rw [snd_finish]
  exact ⟨h.buf, h.pos, h.cap, h.read, h.amt, h.callbacks, h.readDone, fun _ => hdone⟩

lemma DirectionOk.drainPhase (now : ℕ) (answers : Answers) :
    DirectionOk (d.drainPhase now answers).2 := by
  have hwrote := h.wrote now answers.writes
  rw [Direction.drainPhase]
  split
  · split_ifs with hdone
    · exact hwrote.finish hdone answers.shutdown
    · exact hwrote
  · exact hwrote
  · exact hwrote
  · exact hwrote

lemma DirectionOk.park (answer : PollAnswer) : DirectionOk (d.park answer).2 := by
  obtain ⟨needFlush, heq⟩ := d.snd_park answer
  rw [heq]
  exact ⟨h.buf, h.pos, h.cap, h.read, h.amt, h.callbacks, h.readDone, h.shutdown⟩

/-- **A cycle keeps the invariant**, whatever the connections answer. -/
theorem DirectionOk.pollCycle (now : ℕ) (answers : Answers) :
    DirectionOk (d.pollCycle now answers).2 := by
  rw [Direction.pollCycle]
  split_ifs with hempty
  · obtain ⟨hpos, hdone⟩ := hempty
    have hup := h.upgrade hpos
    have hpos' : d.upgrade.pos = d.upgrade.cap := by
      rw [upgrade_pos, upgrade_cap, hpos]
    cases answers.read with
    | pending => exact hup.park answers.flush
    | fail => exact hup
    | eof => exact (hup.filled_eof hpos').drainPhase now answers
    | data first rest =>
      refine (hup.filled_data hpos' ?_ first rest).1.drainPhase now answers
      rw [upgrade_readDone, hdone]
  · exact h.drainPhase now answers

end

/-! ### What is read -/

/-- Writing reads nothing. -/
lemma Direction.drainPhase_read (d : Direction) (now : ℕ) (answers : Answers) :
    (d.drainPhase now answers).2.read = d.read ∧
      (d.drainPhase now answers).2.readDone = d.readDone := by
  rw [drainPhase]
  split
  · split_ifs with hdone
    · rw [snd_finish]
      exact ⟨rfl, rfl⟩
    · exact ⟨rfl, rfl⟩
  · exact ⟨rfl, rfl⟩
  · exact ⟨rfl, rfl⟩
  · exact ⟨rfl, rfl⟩

lemma Direction.upgrade_read (d : Direction) : d.upgrade.read = d.read := by
  rw [upgrade]
  split_ifs <;> rfl

lemma Direction.upgrade_accepted (d : Direction) : d.upgrade.accepted = d.accepted := by
  rw [upgrade]
  split_ifs <;> rfl

/-- A direction that has bytes to write, or is at the end of its stream, reads nothing. -/
lemma Direction.pollCycle_busy (h : ¬(d.pos = d.cap ∧ d.readDone = false)) (now : ℕ)
    (answers : Answers) :
    (d.pollCycle now answers).2.read = d.read ∧
      (d.pollCycle now answers).2.readDone = d.readDone := by
  rw [pollCycle, if_neg h]
  exact d.drainPhase_read now answers

/-- **What a direction that is empty reads.** -/
lemma DirectionOk.pollCycle_empty (hok : DirectionOk d) (h : d.pos = d.cap ∧ d.readDone = false)
    (now : ℕ) (answers : Answers) :
    match answers.read with
    | .data first rest =>
      (d.pollCycle now answers).2.read = d.read ++ (first :: rest).take d.upgrade.buf.length ∧
        (d.pollCycle now answers).2.readDone = false
    | .eof => (d.pollCycle now answers).2.read = d.read ∧
        (d.pollCycle now answers).2.readDone = true
    | _ => (d.pollCycle now answers).2.read = d.read ∧
        (d.pollCycle now answers).2.readDone = false := by
  have hbuf := (hok.upgrade h.1).buf
  have hdone : d.upgrade.readDone = false := d.upgrade_readDone.trans h.2
  rw [Direction.pollCycle, if_pos h]
  cases answers.read with
  | pending =>
    obtain ⟨needFlush, heq⟩ := d.upgrade.snd_park answers.flush
    simp only [heq]
    exact ⟨d.upgrade_read, hdone⟩
  | fail => exact ⟨d.upgrade_read, hdone⟩
  | eof =>
    obtain ⟨hread, hdone'⟩ := (d.upgrade.filled [] true).drainPhase_read now answers
    rw [hread, hdone', filled, if_pos (by rw [take_nil]; rfl)]
    exact ⟨d.upgrade_read, rfl⟩
  | data first rest =>
    obtain ⟨hread, hdone'⟩ := (d.upgrade.filled (first :: rest) false).drainPhase_read now answers
    have hchunk : ((first :: rest).take d.upgrade.buf.length).length ≠ 0 := by
      rw [length_take, length_cons]
      omega
    rw [hread, hdone', filled, if_neg hchunk, ← d.upgrade_read]
    exact ⟨rfl, hdone⟩

/-! ### Movement -/

/-- What a cycle does to the count of bytes, and to the time of the last. -/
structure Moves (d d' : Direction) (now : ℕ) : Prop where
  le : d.amt ≤ d'.amt
  same : d'.amt = d.amt → d'.movedAt = d.movedAt
  at_now : d'.movedAt = d.movedAt ∨ d'.movedAt = now

lemma Moves.of_eq {d d' : Direction} {now} (hamt : d'.amt = d.amt)
    (hmoved : d'.movedAt = d.movedAt) :
    Moves d d' now := ⟨hamt.ge, fun _ => hmoved, .inl hmoved⟩

lemma moves_wrote (d : Direction) (now : ℕ) (writes : List WriteEv) :
    Moves d (d.wrote now writes) now := by
  by_cases hsent : (drain writes d.data).sent = []
  · refine Moves.of_eq ?_ ?_
    · simp only [wrote, hsent, length_nil, add_zero]
    · simp only [wrote, hsent, if_true]
  · have hpos := length_pos_of_ne_nil hsent
    refine ⟨?_, fun hamt => ?_, .inr ?_⟩
    · simp only [wrote]
      omega
    · simp only [wrote] at hamt
      omega
    · simp only [wrote]
      rw [if_neg hsent]

lemma moves_drainPhase (d : Direction) (now : ℕ) (answers : Answers) :
    Moves d (d.drainPhase now answers).2 now := by
  have hwrote := moves_wrote d now answers.writes
  rw [drainPhase]
  split
  · split_ifs with hdone
    · rw [snd_finish]
      exact ⟨hwrote.le, hwrote.same, hwrote.at_now⟩
    · exact hwrote
  · exact hwrote
  · exact hwrote
  · exact hwrote

/-- **Bytes move only where the count does**, and at the time of the cycle. -/
lemma moves_pollCycle (d : Direction) (now : ℕ) (answers : Answers) :
    Moves d (d.pollCycle now answers).2 now := by
  have hfilled : ∀ (bytes : List UInt8) (eof : Bool),
      Moves d ((d.upgrade.filled bytes eof).drainPhase now answers).2 now := by
    intro bytes eof
    have hdrain := moves_drainPhase (d.upgrade.filled bytes eof) now answers
    have hamt : (d.upgrade.filled bytes eof).amt = d.amt := by
      rw [filled]
      split_ifs <;> exact d.upgrade_amt
    have hmoved : (d.upgrade.filled bytes eof).movedAt = d.movedAt := by
      rw [filled]
      split_ifs <;> exact d.upgrade_movedAt
    refine ⟨hamt ▸ hdrain.le, fun heq => ?_, ?_⟩
    · rw [hdrain.same (heq.trans hamt.symm), hmoved]
    · rw [← hmoved]
      exact hdrain.at_now
  rw [pollCycle]
  split_ifs
  · cases answers.read with
    | pending =>
      obtain ⟨needFlush, heq⟩ := d.upgrade.snd_park answers.flush
      simp only [heq]
      exact Moves.of_eq d.upgrade_amt d.upgrade_movedAt
    | fail => exact Moves.of_eq d.upgrade_amt d.upgrade_movedAt
    | eof => exact hfilled [] true
    | data first rest => exact hfilled (first :: rest) false
  · exact moves_drainPhase d now answers

end Ok

end Meow.Tunnel
