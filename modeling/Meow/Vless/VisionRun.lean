import Meow.Vless.VisionStream

/-!
# Bytes through the XTLS-Vision wrapper

Two Vision connections talk to each other. What one of them writes comes out of the other one
unchanged, however the writes and reads are cut up, whatever the padding is, and wherever the
frames stop.

There is one exception. A write that is `Pending` has left its frame in the connection, and the
caller is to try again with the same bytes. A flush or a shutdown in between that gets the frame
out forgets how many bytes of the caller were in it; the next attempt then sends the same bytes a
second time.

## Main definitions

* `End`, `Session` — a connection with its user, and two of them.
* `Op`, `Session.step`, `Session.run` — what they do.
* `Session.keepsPending` — a step that is not such a flush.

## Main results

* `Tx.wrote`, `Tx.flushed` — what a write and a flush add to the stream.
* `run_bytes_delivered` — in a run without such a flush, each end receives what the
  other one has written.
-/

namespace Meow.Vless

open VisionConn List Function Bool Nat End Incoming

/-! ### Two connections and their users -/

/-- Bytes that are sent in one of the two modes of the connection under the wrapper. -/
def VisionConn.Incoming.add (i : Incoming) (raw : Bool) (bytes : List UInt8) : Incoming :=
  if raw then { i with raw := i.raw ++ bytes } else { i with wrapped := i.wrapped ++ bytes }

/-- A connection and its user. A write that did not return is `outstanding`: the user tries again
with the same bytes. After an error in one direction the user is done with that direction.
`accepted` are the bytes of the writes that returned, `sent` is what went to the transport, and
`received` is what the reads returned. -/
structure End where
  conn : VisionConn
  incoming : Incoming
  outstanding : Option (List UInt8)
  accepted : List UInt8
  sent : Incoming
  writeError : Option IoError
  received : List UInt8
  readError : Option IoError
  deriving DecidableEq

namespace End

/-- A new connection. -/
def new (uuid : List UInt8) (canRaw : Bool) : End where
  conn := .new uuid canRaw
  incoming := ⟨[], []⟩
  outstanding := none
  accepted := []
  sent := ⟨[], []⟩
  writeError := none
  received := []
  readError := none

/-- After a write of `buf`. -/
def wrote (e : End) (buf : List UInt8) (r : Wrote ℕ) : End :=
  let e := { e with conn := r.conn, sent := e.sent.add e.conn.rawWrite r.sent }
  match r.poll with
  | .pending => { e with outstanding := some buf }
  | .err error => { e with outstanding := some buf, writeError := some error }
  | .ok n => { e with outstanding := none, accepted := e.accepted ++ buf.take n }

/-- After a flush. -/
def flushed (e : End) (r : Wrote Unit) : End :=
  let e := { e with conn := r.conn, sent := e.sent.add e.conn.rawWrite r.sent }
  match r.poll with
  | .err error => { e with writeError := some error }
  | _ => e

/-- After the other end has sent something. -/
def arrived (e : End) (raw : Bool) (bytes : List UInt8) : End :=
  { e with incoming := e.incoming.add raw bytes }

/-- After a read. -/
def didRead (e : End) (r : Read) : End :=
  let e := { e with conn := r.conn, incoming := r.incoming, received := e.received ++ r.out }
  match r.poll with
  | .err error => { e with readError := some error }
  | _ => e

end End

open End

/-- The two ends. -/
inductive Side where
  | client
  | server
  deriving DecidableEq

open Side

/-- The other end. -/
def Side.other : Side → Side
  | .client => .server
  | .server => .client

lemma Side.other_other (side : Side) : side.other.other = side := by
  cases side <;> rfl

lemma Side.other_ne (side : Side) : side.other ≠ side := by
  cases side <;> decide

/-- Two connections that talk to each other. -/
abbrev Session := Side → End

/-- What happens: a write, a flush (or a shutdown), or a read. The answers of the transport and the
numbers that the random source gives are part of it. -/
inductive Op where
  | write (side : Side) (buf : List UInt8) (evs : List WriteEv) (random : ℕ)
  | flush (side : Side) (evs : List WriteEv) (inner : Poll IoError Unit)
  | read (side : Side) (cap : ℕ) (evs : List ReadEv)
  deriving DecidableEq

namespace Session

/-- Two new connections. -/
def new (uuid : List UInt8) (canRaw : Side → Bool) : Session := fun side => .new uuid (canRaw side)

/-- One step. -/
def step (s : Session) : Op → Session
  | .write side buf evs random =>
    let e := s side
    if e.writeError.isSome then s
    else
      let buf := e.outstanding.getD buf
      let r := e.conn.pollWrite buf evs random
      Function.update (Function.update s side (e.wrote buf r)) side.other
        ((s side.other).arrived e.conn.rawWrite r.sent)
  | .flush side evs inner =>
    let e := s side
    if e.writeError.isSome then s
    else
      let r := e.conn.pollFlush evs inner
      Function.update (Function.update s side (e.flushed r)) side.other
        ((s side.other).arrived e.conn.rawWrite r.sent)
  | .read side cap evs =>
    let e := s side
    if e.readError.isSome then s
    else Function.update s side (e.didRead (e.conn.pollRead cap evs e.incoming))

/-- One step after the other. -/
def run (s : Session) (ops : List Op) : Session := ops.foldl step s

/-- A flush does not get the rest of a frame out: the transport takes less than that. -/
def keepsPending (s : Session) : Op → Bool
  | .flush side evs _ =>
    match (s side).conn.writePending with
    | none => true
    | some pending => decide (capacity evs < (pending.frame.drop pending.pos).length)
  | _ => true

/-- No step of a run is a flush that does. -/
def alwaysKeepsPending (s : Session) : List Op → Bool
  | [] => true
  | op :: ops => s.keepsPending op && (s.step op).alwaysKeepsPending ops

end Session

/-! ### The writer -/

/-- What is left of the pending frame. -/
def VisionConn.pendingRest (self : VisionConn) : List UInt8 :=
  match self.writePending with
  | none => []
  | some pending => pending.frame.drop pending.pos

/-- What a writer sends after the frame. -/
def PendingWrite.tail (pending : PendingWrite) : Tail :=
  if pending.endPaddingAfterDrain then
    if pending.command = commandPaddingDirect then .direct else .through
  else .framed false

/-- A writer without a frame pending, and what it sends next. -/
inductive Idle (conn : VisionConn) : Tail → Prop
  | framed {needUuid : Bool} (hpending : conn.writePending = none)
      (hpadding : conn.writePadding = true) (hsent : conn.writeSentUuid = !needUuid)
      (hraw : conn.rawWrite = false) : Idle conn (.framed needUuid)
  | through (hpending : conn.writePending = none) (hpadding : conn.writePadding = false)
      (hraw : conn.rawWrite = false) : Idle conn .through
  | direct (hpending : conn.writePending = none) (hpadding : conn.writePadding = false)
      (hraw : conn.rawWrite = true) : Idle conn .direct

/-- **The writer's place in its stream**: what it sends next, and the bytes that are in the stream
so far. While a frame is pending, they include the bytes of the frame. -/
inductive Tx (e : End) : Tail → List UInt8 → Prop
  | idle {tail : Tail} (h : Idle e.conn tail) : Tx e tail e.accepted
  | pending {pending : PendingWrite} {buf : List UInt8}
      (hpending : e.conn.writePending = some pending) (hpadding : e.conn.writePadding = true)
      (hsent : e.conn.writeSentUuid = true) (hraw : e.conn.rawWrite = false)
      (houtstanding : e.outstanding = some buf) (hconsumed : pending.consumed ≤ 16384) :
      Tx e pending.tail (e.accepted ++ buf.take pending.consumed)
  | failed {n : ℕ} (tail : Tail) (herror : e.writeError.isSome = true) (hn : n ≤ 16384) :
      Tx e tail (e.accepted ++ (e.outstanding.getD []).take n)

/-- **What a step of the writer adds to the stream**: `Output`, and nothing else. -/
def Extends (uuid : List UInt8) (e e' : End) (tail : Tail) (staged sent : List UInt8) : Prop :=
  ∃ wrapped raw plain tail', Output uuid tail wrapped raw plain tail' ∧
    e.conn.pendingRest ++ wrapped =
      (if e.conn.rawWrite then [] else sent) ++ e'.conn.pendingRest ∧
    raw = (if e.conn.rawWrite then sent else []) ∧ Tx e' tail' (staged ++ plain)

lemma Idle.writePending_eq {conn : VisionConn} {tail} (h : Idle conn tail) :
    conn.writePending = none := by
  cases h with
  | framed hp | through hp | direct hp => exact hp

section Writer

variable {uuid : List UInt8} {e : End} {tail : Tail} {staged : List UInt8}

@[simp] lemma End.conn_wrote (e : End) (buf : List UInt8) (r : Wrote ℕ) :
    (e.wrote buf r).conn = r.conn := by
  unfold wrote
  cases r.poll <;> rfl

@[simp] lemma End.conn_flushed (e : End) (r : Wrote Unit) : (e.flushed r).conn = r.conn := by
  unfold flushed
  cases r.poll <;> rfl

@[simp] lemma End.conn_didRead (e : End) (r : Read) : (e.didRead r).conn = r.conn := by
  unfold didRead
  cases r.poll <;> rfl

/-- The answer of a write that has written out a frame. -/
def drainPoll : Poll IoError (Option ℕ) → Poll IoError ℕ
  | .pending => .pending
  | .err e => .err e
  | .ok n => .ok (n.getD 0)

variable {pending : PendingWrite} (buf : List UInt8)

/-- The frame is out: its bytes are accepted, and what is sent next is what the frame says. -/
lemma Tx.finishDrain (hpadding : e.conn.writePadding) (hsent : e.conn.writeSentUuid)
    (hraw : e.conn.rawWrite = false) (hconsumed : pending.consumed ≤ 16384) (sent : List UInt8)
    (evs : List WriteEv) : (e.conn.finishDrain pending).2.writePending = none ∧
      Tx (e.wrote buf ⟨drainPoll (e.conn.finishDrain pending).1, (e.conn.finishDrain pending).2,
        sent, evs⟩) pending.tail (e.accepted ++ buf.take pending.consumed) := by
  unfold VisionConn.finishDrain PendingWrite.tail
  dsimp only
  split_ifs with hend hdirect hcan
  · exact ⟨rfl, .idle (.direct rfl rfl rfl)⟩
  · -- the frame is out, but the transport cannot be switched
    exact ⟨rfl, .failed .direct rfl hconsumed⟩
  · exact ⟨rfl, .idle (.through rfl rfl hraw)⟩
  · exact ⟨rfl, .idle (.framed rfl hpadding hsent hraw)⟩

variable {self : VisionConn} {evs : List WriteEv}

/-- A frame of which all is sent. -/
lemma drainPendingWrite_of_done (hpending : self.writePending = some pending)
    (hdone : (drain evs (pending.frame.drop pending.pos)).status = .done) :
    self.drainPendingWrite evs =
      ⟨(self.finishDrain pending).1, (self.finishDrain pending).2,
        (drain evs (pending.frame.drop pending.pos)).sent,
        (drain evs (pending.frame.drop pending.pos)).evs⟩ := by
  simp only [drainPendingWrite, hpending, hdone]
  rfl

/-- A frame of which something is left. -/
lemma drainPendingWrite_of_not_done (hpending : self.writePending = some pending)
    (hdone : (drain evs (pending.frame.drop pending.pos)).status ≠ .done) :
    self.drainPendingWrite evs =
      ⟨writePoll none (drain evs (pending.frame.drop pending.pos)).status,
        { self with writePending := some { pending with
          pos := pending.pos + (drain evs (pending.frame.drop pending.pos)).sent.length } },
        (drain evs (pending.frame.drop pending.pos)).sent,
        (drain evs (pending.frame.drop pending.pos)).evs⟩ := by
  simp only [drainPendingWrite, hpending]

/-- What happens to a pending frame. The bytes in it stay the same; they are accepted when the
frame is out, and the user is told. -/
lemma Tx.drained (hpending : e.conn.writePending = some pending) (hpadding : e.conn.writePadding)
    (hsent : e.conn.writeSentUuid) (hraw : e.conn.rawWrite = false)
    (hconsumed : pending.consumed ≤ 16384) (evs : List WriteEv) : e.conn.pendingRest =
        (e.conn.drainPendingWrite evs).sent ++ (e.conn.drainPendingWrite evs).conn.pendingRest ∧
      Tx (e.wrote buf ⟨drainPoll (e.conn.drainPendingWrite evs).poll,
          (e.conn.drainPendingWrite evs).conn, (e.conn.drainPendingWrite evs).sent,
          (e.conn.drainPendingWrite evs).evs⟩)
        pending.tail (e.accepted ++ buf.take pending.consumed) := by
  have hrest : e.conn.pendingRest = pending.frame.drop pending.pos := by
    rw [pendingRest, hpending]
  by_cases hdone : (drain evs (pending.frame.drop pending.pos)).status = .done
  · obtain ⟨hnone, htx⟩ := Tx.finishDrain buf hpadding hsent hraw hconsumed
      (drain evs (pending.frame.drop pending.pos)).sent
      (drain evs (pending.frame.drop pending.pos)).evs
    rw [drainPendingWrite_of_done hpending hdone]
    refine ⟨?_, htx⟩
    have hall : (e.conn.finishDrain pending).2.pendingRest = [] := by
      rw [pendingRest, hnone]
    rw [hrest, hall, append_nil, drain_sent_of_done hdone]
  · rw [hrest, drainPendingWrite_of_not_done hpending hdone]
    refine ⟨?_, ?_⟩
    · show _ = _ ++ pending.frame.drop (pending.pos + _)
      rw [← drop_drop, ← drain_rest_eq_drop, drain_sent_rest]
    cases hstatus : (drain evs (pending.frame.drop pending.pos)).status with
    | done => exact absurd hstatus hdone
    | blocked =>
      exact @Tx.pending _ { pending with
        pos := pending.pos + (drain evs (pending.frame.drop pending.pos)).sent.length } buf rfl
        hpadding hsent hraw rfl hconsumed
    | closed | failed => exact .failed pending.tail rfl hconsumed

lemma buildPaddingFrame_eq (command : UInt8) (sentUuid : Bool) (content : List UInt8)
    (paddingTls : Bool) (random : ℕ) :
    buildPaddingFrame command (if sentUuid then none else some uuid) content paddingTls random =
      encodeFrame uuid (!sentUuid) command content
        (replicate (paddingLen content.length paddingTls random) 0) := by
  cases sentUuid <;> simp [buildPaddingFrame, encodeFrame]

/-- The command of a frame agrees with what the writer does when the frame is out. -/
lemma writeCommand_cases (self : VisionConn) (buf : List UInt8) :
    self.writeCommand buf = (commandPaddingContinue, false) ∨
      self.writeCommand buf = (commandPaddingEnd, true) ∨
      self.writeCommand buf = (commandPaddingDirect, true) := by
  unfold writeCommand
  dsimp only
  split_ifs <;> simp

lemma noteHandshake_eq (self : VisionConn) (buf : List UInt8) :
    ∃ seenTls entered, self.noteHandshake buf =
      { self with writeSeenTls := seenTls, visionEntered := entered } := by
  unfold noteHandshake
  split_ifs <;> exact ⟨_, _, rfl⟩

/-- **A new frame** may be sent next. -/
lemma buildWriteFrame_spec (self : VisionConn) {buf : List UInt8} (hbuf : buf.length ≤ 16384)
    (random : ℕ) :
    ∃ pending seenTls entered, self.buildWriteFrame buf random =
        { self with
          writePending := some pending
          writeSentUuid := true
          writeSeenTls := seenTls
          visionEntered := entered } ∧
      pending.pos = 0 ∧ pending.consumed = buf.length ∧
      Output self.userUuid (.framed (!self.writeSentUuid)) pending.frame [] buf pending.tail := by
  obtain ⟨seenTls, entered, heq⟩ := noteHandshake_eq self buf
  refine ⟨_, seenTls, entered, by rw [buildWriteFrame, heq], rfl, rfl, ?_⟩
  rw [buildPaddingFrame_eq]
  have hpadding :
      (replicate (paddingLen buf.length seenTls random) (0 : UInt8)).length < 1400 := by
    rw [length_replicate]
    unfold paddingLen
    split_ifs <;> omega
  rcases writeCommand_cases { self with writeSeenTls := seenTls, visionEntered := entered } buf with
    h | h | h <;> rw [h]
  · exact .continue hbuf hpadding
  · exact .end hbuf hpadding
  · exact .direct hbuf hpadding

/-- A write with a frame pending writes it out. -/
lemma pollWrite_of_pending (hpending : self.writePending = some pending) (buf : List UInt8)
    (evs : List WriteEv) (random : ℕ) : self.pollWrite buf evs random =
      ⟨drainPoll (self.drainPendingWrite evs).poll, (self.drainPendingWrite evs).conn,
        (self.drainPendingWrite evs).sent, (self.drainPendingWrite evs).evs⟩ := by
  -- a frame that is out says how many bytes it had
  have hsome : (self.drainPendingWrite evs).poll ≠ .ok none := by
    by_cases hdone : (drain evs (pending.frame.drop pending.pos)).status = .done
    · rw [drainPendingWrite_of_done hpending hdone, finishDrain]
      dsimp only
      split_ifs <;> exact nofun
    · rw [drainPendingWrite_of_not_done hpending hdone]
      cases hstatus : (drain evs (pending.frame.drop pending.pos)).status with
      | done => exact absurd hstatus hdone
      | blocked | closed | failed => exact nofun
  rw [pollWrite]
  rcases hpoll : (self.drainPendingWrite evs).poll with _ | e | _ | n
  · rfl
  · rfl
  · exact absurd hpoll hsome
  · rfl

/-- A write without a frame pending. -/
lemma pollWrite_of_none (hpending : self.writePending = none) (buf : List UInt8)
    (evs : List WriteEv) (random : ℕ) :
    self.pollWrite buf evs random =
      if buf = [] then ⟨.ok 0, self, [], evs⟩
      else if self.writePadding then
        (self.buildWriteFrame (buf.take 16384) random).pollWrite buf evs random
      else self.innerPollWrite buf evs := by
  have hdrain : self.drainPendingWrite evs = ⟨.ok none, self, [], evs⟩ := by
    rw [drainPendingWrite, hpending]
  have htake : buf.take (min buf.length (16 * 1024)) = buf.take 16384 := by
    rw [min_comm, ← take_take, take_length]
  obtain ⟨pending, seenTls, entered, heq, -⟩ := buildWriteFrame_spec self
    (show (buf.take 16384).length ≤ 16384 by rw [length_take]; omega) random
  have hstaged : (self.buildWriteFrame (buf.take 16384) random).writePending = some pending := by
    rw [heq]
  rw [pollWrite_of_pending hstaged, pollWrite, hdrain]
  simp only [htake]
  cases hpadding : self.writePadding with
  | false => rfl
  | true =>
    rcases hpoll : ((self.buildWriteFrame (buf.take 16384) random).drainPendingWrite evs).poll with
      _ | e | _ | n <;> rfl

/-- Without a frame pending, the bytes in the stream are those that were accepted. -/
lemma Tx.idle_of_none (herror : e.writeError = none) (hpending : e.conn.writePending = none)
    (h : Tx e tail staged) : Idle e.conn tail ∧ staged = e.accepted := by
  cases h with
  | idle h => exact ⟨h, rfl⟩
  | pending hp => exact nomatch hpending.symm.trans hp
  | failed _ herr =>
    simp [herror] at herr

/-- What is written through to the connection under the wrapper. -/
lemma Idle.innerPollWrite (h : Idle e.conn tail) (hpadding : e.conn.writePadding = false)
    (buf : List UInt8) (evs : List WriteEv) :
    Extends uuid e (e.wrote buf (e.conn.innerPollWrite buf evs)) tail e.accepted
      (e.conn.innerPollWrite buf evs).sent := by
  have htake : buf.take (writeOnce evs buf).2.length = (writeOnce evs buf).2 :=
    (prefix_iff_eq_take.mp (prefix_writeOnce evs buf)).symm
  rw [VisionConn.innerPollWrite]
  cases (writeOnce evs buf).1 with
  | done =>
    generalize (writeOnce evs buf).2 = sent at htake ⊢
    -- what the transport takes is accepted
    have hidle : Tx (e.wrote buf ⟨.ok sent.length, e.conn, sent, evs.tail⟩) tail
        (e.accepted ++ sent) := by
      have : Tx (e.wrote buf ⟨.ok sent.length, e.conn, sent, evs.tail⟩) tail
          (e.accepted ++ buf.take sent.length) := .idle h
      rwa [htake] at this
    cases h with
    | framed _ hp => exact nomatch hpadding.symm.trans hp
    | through hp _ hraw =>
      exact ⟨sent, [], sent, _, .through sent, by simp [hraw, pendingRest, hp], by simp [hraw],
        hidle⟩
    | direct hp _ hraw =>
      exact ⟨[], sent, sent, _, .raw sent, by simp [hraw, pendingRest, hp], by simp [hraw], hidle⟩
  | blocked =>
    exact ⟨[], [], [], tail, .nothing tail, by simp, by simp, by
      rw [append_nil]
      exact .idle h⟩
  | closed => exact ⟨[], [], [], tail, .nothing tail, by simp, by simp, .idle h⟩
  | failed =>
    exact ⟨[], [], [], tail, .nothing tail, by simp, by simp, .failed tail rfl (zero_le _)⟩

/-- A new frame is staged and written out as far as the transport goes. -/
lemma Idle.stage (huser : e.conn.userUuid = uuid) (h : Idle e.conn tail)
    (hpadding : e.conn.writePadding) (buf : List UInt8) (evs : List WriteEv) (random : ℕ) :
    Extends uuid e
      (e.wrote buf ((e.conn.buildWriteFrame (buf.take 16384) random).pollWrite buf evs random))
      tail e.accepted
      ((e.conn.buildWriteFrame (buf.take 16384) random).pollWrite buf evs random).sent := by
  cases h with
  | through _ hp | direct _ hp => exact nomatch hpadding.symm.trans hp
  | @framed needUuid hpending _ hsent hraw =>
    have hlen : (buf.take 16384).length ≤ 16384 := by
      rw [length_take]
      omega
    obtain ⟨pending, seenTls, entered, heq, hpos, hconsumed, hout⟩ :=
      buildWriteFrame_spec e.conn hlen random
    rw [huser, hsent, Bool.not_not] at hout
    rw [heq, pollWrite_of_pending rfl]
    obtain ⟨hrest, htx⟩ := Tx.drained
      (e := { e with conn := { e.conn with
        writePending := some pending
        writeSentUuid := true
        writeSeenTls := seenTls
        visionEntered := entered } }) buf rfl hpadding rfl hraw (hconsumed ▸ hlen) evs
    refine ⟨pending.frame, [], buf.take 16384, pending.tail, hout, ?_, by simp [hraw], ?_⟩
    · have hframe : pending.frame.drop pending.pos = pending.frame := by
        rw [hpos, drop_zero]
      rw [pendingRest, hpending, if_neg (by simp [hraw]), conn_wrote]
      exact hframe.symm.trans hrest
    · have htake : buf.take pending.consumed = buf.take 16384 := by
        rw [hconsumed, length_take, ← take_take, take_length]
      rw [htake] at htx
      exact htx

/-- **What a write adds to the stream.** -/
lemma Tx.wrote (huser : e.conn.userUuid = uuid) (herror : e.writeError = none)
    (h : Tx e tail staged) (fresh : List UInt8) (evs : List WriteEv) (random : ℕ) :
    Extends uuid e
      (e.wrote (e.outstanding.getD fresh) (e.conn.pollWrite (e.outstanding.getD fresh) evs random))
      tail staged (e.conn.pollWrite (e.outstanding.getD fresh) evs random).sent := by
  cases hpending : e.conn.writePending with
  | none =>
    obtain ⟨hidle, rfl⟩ := h.idle_of_none herror hpending
    generalize e.outstanding.getD fresh = buf
    rw [pollWrite_of_none hpending]
    split_ifs with hbuf hpadding
    · exact ⟨[], [], [], tail, .nothing tail, by simp, by simp, .idle hidle⟩
    · exact hidle.stage huser hpadding buf evs random
    · exact hidle.innerPollWrite (eq_false_of_not_eq_true hpadding) buf evs
  | some pending =>
    cases h with
    | idle h => cases hpending.symm.trans h.writePending_eq
    | pending hp hpadding hsent hraw houtstanding hconsumed =>
      rw [pollWrite_of_pending hp, houtstanding]
      obtain ⟨hrest, htx⟩ := Tx.drained _ hp hpadding hsent hraw hconsumed evs
      refine ⟨[], [], [], _, .nothing _, ?_, by simp [hraw], ?_⟩
      · rw [hraw, append_nil, conn_wrote]
        exact hrest
      · rw [append_nil]
        exact htx
    | failed _ herr =>
      simp [herror] at herr

/-- **What a flush adds to the stream**: nothing, as long as it does not get the frame out. -/
lemma Tx.flushed (herror : e.writeError = none) (h : Tx e tail staged) (evs : List WriteEv)
    (hkeeps : ∀ pending, e.conn.writePending = some pending →
      capacity evs < (pending.frame.drop pending.pos).length) (inner : Poll IoError Unit) :
    Extends uuid e (e.flushed (e.conn.pollFlush evs inner)) tail staged
      (e.conn.pollFlush evs inner).sent := by
  cases h with
  | @idle tail h =>
    have hpending := h.writePending_eq
    have heq : e.conn.pollFlush evs inner = ⟨inner, e.conn, [], evs⟩ := by
      simp only [pollFlush, drainPendingWrite, hpending]
    rw [heq]
    cases inner with
    | pending | ok => exact ⟨[], [], [], tail, .nothing tail, by simp [flushed], by simp, by
        rw [append_nil]
        exact .idle h⟩
    | err error =>
      refine ⟨[], [], [], tail, .nothing tail, by simp [flushed], by simp, ?_⟩
      exact .failed tail rfl (zero_le _)
  | @pending pending buf hp hpadding hsent hraw houtstanding hconsumed =>
    have hdone : (drain evs (pending.frame.drop pending.pos)).status ≠ .done := by
      rw [Ne, drain_done_iff_capacity]
      have := hkeeps pending hp
      omega
    -- the user is told as after a write that did not get the frame out
    obtain ⟨hsame, hwrote⟩ :
        (e.conn.pollFlush evs inner).sent = (e.conn.drainPendingWrite evs).sent ∧
        e.flushed (e.conn.pollFlush evs inner) = e.wrote buf
          ⟨drainPoll (e.conn.drainPendingWrite evs).poll, (e.conn.drainPendingWrite evs).conn,
            (e.conn.drainPendingWrite evs).sent, (e.conn.drainPendingWrite evs).evs⟩ := by
      rw [pollFlush, drainPendingWrite_of_not_done hp hdone]
      cases hstatus : (drain evs (pending.frame.drop pending.pos)).status with
      | done => exact absurd hstatus hdone
      | blocked | closed | failed => exact ⟨rfl, by simp [End.flushed, End.wrote, ← houtstanding,
          drainPoll, writePoll]⟩
    obtain ⟨hrest, htx⟩ := Tx.drained buf hp hpadding hsent hraw hconsumed evs
    rw [hsame, hwrote]
    refine ⟨[], [], [], pending.tail, .nothing _, ?_, by simp [hraw], by rwa [append_nil]⟩
    rw [hraw, append_nil, conn_wrote]
    exact hrest
  | failed _ herr =>
    simp [herror] at herr

end Writer

/-! ### Both directions -/

/-- What a write leaves as it is: the reading side of the connection. -/
structure SameReader (conn next : VisionConn) : Prop where
  userUuid : next.userUuid = conn.userUuid
  readPlain : next.readPlain = conn.readPlain
  readState : next.readState = conn.readState
  rawRead : next.rawRead = conn.rawRead
  canRaw : next.canRaw = conn.canRaw

variable (conn : VisionConn)

lemma SameReader.finishDrain (pending : PendingWrite) :
    SameReader conn (conn.finishDrain pending).2 := by
  unfold VisionConn.finishDrain
  dsimp only
  split_ifs <;> exact ⟨rfl, rfl, rfl, rfl, rfl⟩

variable (evs : List WriteEv)

lemma SameReader.drainPendingWrite : SameReader conn (conn.drainPendingWrite evs).conn := by
  cases hpending : conn.writePending with
  | none =>
    rw [VisionConn.drainPendingWrite, hpending]
    exact ⟨rfl, rfl, rfl, rfl, rfl⟩
  | some pending =>
    by_cases hdone : (drain evs (pending.frame.drop pending.pos)).status = .done
    · rw [drainPendingWrite_of_done hpending hdone]
      exact .finishDrain conn pending
    · rw [drainPendingWrite_of_not_done hpending hdone]
      exact ⟨rfl, rfl, rfl, rfl, rfl⟩

lemma SameReader.pollFlush (inner : Poll IoError Unit) :
    SameReader conn (conn.pollFlush evs inner).conn := by
  have h := SameReader.drainPendingWrite conn evs
  rw [VisionConn.pollFlush]
  cases (conn.drainPendingWrite evs).poll <;> exact h

lemma SameReader.pollWrite (buf : List UInt8) (evs : List WriteEv)
    (random : ℕ) : SameReader conn (conn.pollWrite buf evs random).conn := by
  cases hpending : conn.writePending with
  | some pending =>
    rw [pollWrite_of_pending hpending]
    exact .drainPendingWrite conn evs
  | none =>
    rw [pollWrite_of_none hpending]
    split_ifs
    · exact ⟨rfl, rfl, rfl, rfl, rfl⟩
    · obtain ⟨pending, seenTls, entered, heq, -⟩ := buildWriteFrame_spec conn
        (show (buf.take 16384).length ≤ 16384 by rw [length_take]; omega) random
      rw [heq, pollWrite_of_pending rfl]
      have h := SameReader.drainPendingWrite { conn with
        writePending := some pending
        writeSentUuid := true
        writeSeenTls := seenTls
        visionEntered := entered } evs
      exact ⟨h.userUuid, h.readPlain, h.readState, h.rawRead, h.canRaw⟩
    · rw [innerPollWrite]
      cases (writeOnce evs buf).1 <;> exact ⟨rfl, rfl, rfl, rfl, rfl⟩

/-- **One direction of a session**: the writer has sent a stream, and the reader has handed out the
first of the bytes in it; the rest is ahead of the reader. -/
structure Dir (uuid : List UInt8) (w r : End) (tail : Tail) (staged plain : List UInt8) :
    Prop where
  tx : Tx w tail staged
  stream : Stream uuid true (w.sent.wrapped ++ w.conn.pendingRest) w.sent.raw staged tail
  received : r.received ++ plain = staged
  ahead : r.readError = none → Ahead uuid r.conn.readState r.conn.rawRead
    (r.incoming.wrapped ++ w.conn.pendingRest) r.incoming.raw plain tail

/-- What is fixed at an end, and the errors that its reads may give. -/
structure EndOk (uuid : List UInt8) (raw : Bool) (e : End) : Prop where
  userUuid : e.conn.userUuid = uuid
  readPlain : e.conn.readPlain = []
  canRaw : e.conn.canRaw = raw
  readError : ∀ error, e.readError = some error → ReadFault raw error

/-- Two ends that write alike. -/
structure SameTx (w w' : End) : Prop where
  writePending : w'.conn.writePending = w.conn.writePending
  writePadding : w'.conn.writePadding = w.conn.writePadding
  writeSentUuid : w'.conn.writeSentUuid = w.conn.writeSentUuid
  rawWrite : w'.conn.rawWrite = w.conn.rawWrite
  outstanding : w'.outstanding = w.outstanding
  accepted : w'.accepted = w.accepted
  sent : w'.sent = w.sent
  writeError : w'.writeError = w.writeError

/-- Two ends that read alike. -/
structure SameRx (r r' : End) : Prop where
  readState : r'.conn.readState = r.conn.readState
  rawRead : r'.conn.rawRead = r.conn.rawRead
  incoming : r'.incoming = r.incoming
  received : r'.received = r.received
  readError : r'.readError = r.readError

section Directions

variable {uuid : List UInt8} {w w' r r' e : End} {tail : Tail} {staged plain : List UInt8}

lemma Tx.congr (h : Tx w tail staged) (hsame : SameTx w w') : Tx w' tail staged := by
  cases h with
  | idle h =>
    rw [← hsame.accepted]
    refine .idle ?_
    cases h <;> constructor <;> grind [SameTx]
  | pending hp hpadding hsent hraw houtstanding hconsumed =>
    rw [← hsame.accepted]
    exact .pending (hsame.writePending.trans hp) (hsame.writePadding.trans hpadding)
      (hsame.writeSentUuid.trans hsent) (hsame.rawWrite.trans hraw)
      (hsame.outstanding.trans houtstanding) hconsumed
  | failed _ herror hn =>
    rw [← hsame.accepted, ← hsame.outstanding]
    exact .failed _ (by rw [hsame.writeError]; exact herror) hn

/-- A direction depends on the writing side of one end and the reading side of the other. -/
lemma Dir.congr (h : Dir uuid w r tail staged plain) (hw : SameTx w w') (hr : SameRx r r') :
    Dir uuid w' r' tail staged plain := by
  have hrest : w'.conn.pendingRest = w.conn.pendingRest := by
    rw [pendingRest, pendingRest, hw.writePending]
  refine ⟨h.tx.congr hw, ?_, ?_, ?_⟩
  · rw [hw.sent, hrest]
    exact h.stream
  · rw [hr.received]
    exact h.received
  · rw [hr.readError, hr.readState, hr.rawRead, hr.incoming, hrest]
    exact h.ahead

lemma SameRx.refl (r : End) : SameRx r r := ⟨rfl, rfl, rfl, rfl, rfl⟩

/-- What arrives is for the reader. -/
lemma SameTx.arrived (e : End) (raw : Bool) (bytes : List UInt8) : SameTx e (e.arrived raw bytes) :=
  ⟨rfl, rfl, rfl, rfl, rfl, rfl, rfl, rfl⟩

lemma SameRx.wrote (e : End) (buf : List UInt8) {r : Wrote ℕ} (h : SameReader e.conn r.conn) :
    SameRx e (e.wrote buf r) := by
  unfold End.wrote
  cases r.poll <;> exact ⟨h.readState, h.rawRead, rfl, rfl, rfl⟩

lemma SameRx.flushed (e : End) {r : Wrote Unit} (h : SameReader e.conn r.conn) :
    SameRx e (e.flushed r) := by
  unfold End.flushed
  cases r.poll <;> exact ⟨h.readState, h.rawRead, rfl, rfl, rfl⟩

lemma SameTx.didRead (e : End) {r : Read} (h : SameWriter e.conn r.conn) :
    SameTx e (e.didRead r) := by
  unfold End.didRead
  cases r.poll <;> exact ⟨h.writePending, h.writePadding, h.writeSentUuid, h.rawWrite, rfl, rfl,
    rfl, rfl⟩

/-- Sending adds to what was sent, in one of the modes. -/
lemma Incoming.wrapped_add (i : Incoming) (raw : Bool) (bytes : List UInt8) :
    (i.add raw bytes).wrapped = i.wrapped ++ (if raw then [] else bytes) ∧
      (i.add raw bytes).raw = i.raw ++ (if raw then bytes else []) := by
  cases raw <;> simp [add]

/-- **A step of the writer keeps the direction.** -/
lemma Dir.extend (h : Dir uuid w r tail staged plain) {sent}
    (hext : Extends uuid w w' tail staged sent)
    (hsent : w'.sent = w.sent.add w.conn.rawWrite sent) :
    ∃ tail' staged' plain',
      Dir uuid w' (r.arrived w.conn.rawWrite sent) tail' staged' plain' := by
  obtain ⟨wrapped, raw, bytes, tail', hout, hrest, rfl, htx⟩ := hext
  obtain ⟨hw, hr⟩ := Incoming.wrapped_add w.sent w.conn.rawWrite sent
  obtain ⟨hw', hr'⟩ := Incoming.wrapped_add r.incoming w.conn.rawWrite sent
  refine ⟨tail', staged ++ bytes, plain ++ bytes, htx, ?_, ?_, fun herror => ?_⟩
  · rw [hsent, hw, hr, append_assoc, ← hrest, ← append_assoc]
    exact h.stream.append hout
  · rw [← append_assoc]
    exact congrArg (· ++ bytes) h.received
  · have := (h.ahead herror).append hout
    rw [append_assoc, hrest, ← append_assoc, ← hw', ← hr'] at this
    exact this

lemma pollRead_eq {self : VisionConn} (hplain : self.readPlain = []) (cap : ℕ) (evs : List ReadEv)
    (i : Incoming) : self.pollRead cap evs i = pollReadLoop cap evs self.readState self i := by
  rw [pollRead, hplain]
  rfl

/-- **A read keeps the direction.** -/
lemma Dir.didRead (huuid : uuid.length = uuidLen) (h : Dir uuid w r tail staged plain)
    (hplain : r.conn.readPlain = []) (huser : r.conn.userUuid = uuid) (herror : r.readError = none)
    (cap : ℕ) (evs : List ReadEv) :
    SameWriter r.conn (r.conn.pollRead cap evs r.incoming).conn ∧
      (∀ error, (r.conn.pollRead cap evs r.incoming).poll = .err error →
        ReadFault r.conn.canRaw error) ∧
      ∃ plain', Dir uuid w (r.didRead (r.conn.pollRead cap evs r.incoming)) tail staged plain' := by
  obtain ⟨hsame, hvalid, plain', hout, hahead⟩ :=
    ((h.ahead herror).pollReadLoop huuid cap evs r.conn.readState r.conn r.incoming huser).1
  rw [pollRead_eq hplain]
  generalize pollReadLoop cap evs r.conn.readState r.conn r.incoming = read at *
  refine ⟨hsame, hvalid, plain', h.tx, h.stream, ?_, ?_⟩
  · have : (r.didRead read).received = r.received ++ read.out := by
      unfold End.didRead
      cases read.poll <;> rfl
    rw [this, append_assoc, hout, h.received]
  · cases hpoll : read.poll with
    | err error =>
      intro hnone
      simp only [End.didRead, hpoll] at hnone
      exact nomatch hnone
    | pending | ok _ =>
      intro _
      have := hahead (fun e he => nomatch hpoll.symm.trans he)
      simpa only [End.didRead, hpoll] using this

variable {raw : Bool} (h : EndOk uuid raw e)
include h

lemma EndOk.wrote (buf : List UInt8) {r : Wrote ℕ} (hsame : SameReader e.conn r.conn) :
    EndOk uuid raw (e.wrote buf r) := by
  have hrx := SameRx.wrote e buf hsame
  exact ⟨by simp [hsame.userUuid, h.userUuid], by simp [hsame.readPlain, h.readPlain],
    by simp [hsame.canRaw, h.canRaw], fun error herror => h.readError _ (hrx.readError ▸ herror)⟩

lemma EndOk.flushed {r : Wrote Unit} (hsame : SameReader e.conn r.conn) :
    EndOk uuid raw (e.flushed r) := by
  have hrx := SameRx.flushed e hsame
  exact ⟨by simp [hsame.userUuid, h.userUuid], by simp [hsame.readPlain, h.readPlain],
    by simp [hsame.canRaw, h.canRaw], fun error herror => h.readError _ (hrx.readError ▸ herror)⟩

lemma EndOk.didRead {r : Read} (hsame : SameWriter e.conn r.conn)
    (hvalid : ∀ error, r.poll = .err error → ReadFault raw error) :
    EndOk uuid raw (e.didRead r) := by
  refine ⟨by simp [hsame.userUuid, h.userUuid], by simp [hsame.readPlain, h.readPlain],
    by simp [hsame.canRaw, h.canRaw], fun error herror => ?_⟩
  cases hpoll : r.poll with
  | pending | ok =>
    simp only [End.didRead, hpoll] at herror
    exact h.readError error herror
  | err error' =>
    simp only [End.didRead, hpoll] at herror
    cases herror
    exact hvalid _ hpoll

end Directions

/-! ### Runs -/

/-- **The invariant of a session**: both directions, and both ends. -/
structure Session.Inv (uuid : List UInt8) (canRaw : Side → Bool) (s : Session) : Prop where
  dir : ∀ side, ∃ tail staged plain, Dir uuid (s side) (s side.other) tail staged plain
  ends : ∀ side, EndOk uuid (canRaw side) (s side)

namespace Session

variable {uuid : List UInt8} {canRaw : Side → Bool} {s : Session}

/-- The invariant from what it says about one end and the other. -/
lemma Inv.of_side (side : Side)
    (hdir : ∃ tail staged plain, Dir uuid (s side) (s side.other) tail staged plain)
    (hdir' : ∃ tail staged plain, Dir uuid (s side.other) (s side) tail staged plain)
    (hend : EndOk uuid (canRaw side) (s side))
    (hend' : EndOk uuid (canRaw side.other) (s side.other)) : Inv uuid canRaw s := by
  have hside : ∀ side', side' = side ∨ side' = side.other := by
    cases side <;> intro side' <;> cases side' <;> simp [other]
  refine ⟨fun side' => ?_, fun side' => ?_⟩
  · rcases hside side' with rfl | rfl
    · exact hdir
    · rw [other_other]
      exact hdir'
  · rcases hside side' with rfl | rfl
    · exact hend
    · exact hend'

lemma Inv.new (uuid : List UInt8) (canRaw : Side → Bool) : Inv uuid canRaw (new uuid canRaw) := by
  refine ⟨fun side => ⟨.framed true, [], [], ?_, .nil true, rfl, fun _ => ?_⟩, fun side => ?_⟩
  · exact .idle (.framed rfl rfl rfl rfl)
  · exact ⟨rfl, by decide, .nil true⟩
  · exact ⟨rfl, rfl, rfl, nofun⟩

/-- What a writer's step does to the two ends. -/
lemma Inv.sent (h : Inv uuid canRaw s) (side : Side) {e' : End} {sent}
    (hext : ∀ tail staged, Tx (s side) tail staged → Extends uuid (s side) e' tail staged sent)
    (hsent : e'.sent = (s side).sent.add (s side).conn.rawWrite sent) (hrx : SameRx (s side) e')
    (hend : EndOk uuid (canRaw side) e') :
    Inv uuid canRaw (update (update s side e') side.other
      ((s side.other).arrived (s side).conn.rawWrite sent)) := by
  have hne := side.other_ne
  refine .of_side side ?_ ?_ ?_ ?_
  · obtain ⟨tail, staged, plain, hdir⟩ := h.dir side
    rw [update_self, update_of_ne hne.symm, update_self]
    exact hdir.extend (hext tail staged hdir.tx) hsent
  · obtain ⟨tail, staged, plain, hdir⟩ := h.dir side.other
    rw [other_other] at hdir
    rw [update_self, update_of_ne hne.symm, update_self]
    exact ⟨tail, staged, plain, hdir.congr (.arrived _ _ _) hrx⟩
  · rw [update_of_ne hne.symm, update_self]
    exact hend
  · obtain ⟨h1, h2, h3, h4⟩ := h.ends side.other
    rw [update_self]
    exact ⟨h1, h2, h3, h4⟩

/-- **A step keeps the invariant.** -/
lemma Inv.step (huuid : uuid.length = uuidLen) (h : Inv uuid canRaw s) (op : Op)
    (hkeeps : s.keepsPending op) : Inv uuid canRaw (s.step op) := by
  cases op with
  | write side buf evs random =>
    simp only [Session.step]
    split_ifs with herror
    · exact h
    · have hnone : (s side).writeError = none := by simpa using herror
      refine h.sent side (fun tail staged htx => ?_) ?_ (.wrote _ _ (.pollWrite _ _ _ _))
        ((h.ends side).wrote _ (.pollWrite _ _ _ _))
      · exact htx.wrote (h.ends side).userUuid hnone buf evs random
      · unfold wrote
        cases ((s side).conn.pollWrite ((s side).outstanding.getD buf) evs random).poll <;> rfl
  | flush side evs inner =>
    simp only [Session.step]
    split_ifs with herror
    · exact h
    · have hnone : (s side).writeError = none := by simpa using herror
      refine h.sent side (fun tail staged htx => ?_) ?_ (.flushed _ (.pollFlush _ _ _))
        ((h.ends side).flushed (.pollFlush _ _ _))
      · refine htx.flushed hnone evs (fun pending hpending => ?_) inner
        simpa only [keepsPending, hpending, decide_eq_true_eq] using hkeeps
      · unfold flushed
        cases ((s side).conn.pollFlush evs inner).poll <;> rfl
  | read side cap evs =>
    simp only [Session.step]
    split_ifs with herror
    · exact h
    · have hnone : (s side).readError = none := by simpa using herror
      have hne := side.other_ne
      have hend := h.ends side
      obtain ⟨tail, staged, plain, hdir⟩ := h.dir side.other
      rw [other_other] at hdir
      obtain ⟨hsame, hvalid, plain', hdir'⟩ :=
        hdir.didRead huuid hend.readPlain hend.userUuid hnone cap evs
      refine .of_side side ?_ ?_ ?_ ?_
      · obtain ⟨tail, staged, plain, hdir⟩ := h.dir side
        rw [update_self, update_of_ne hne]
        exact ⟨tail, staged, plain, hdir.congr (.didRead _ hsame) (.refl _)⟩
      · rw [update_self, update_of_ne hne]
        exact ⟨tail, staged, plain', hdir'⟩
      · rw [update_self]
        exact hend.didRead hsame (hend.canRaw ▸ hvalid)
      · rw [update_of_ne hne]
        exact h.ends side.other

/-- **A run keeps the invariant.** -/
lemma Inv.run (huuid : uuid.length = uuidLen) (ops : List Op) (h : Inv uuid canRaw s)
    (hkeeps : s.alwaysKeepsPending ops) : Inv uuid canRaw (s.run ops) := by
  induction ops generalizing s with
  | nil => exact h
  | cons op ops ih =>
    rw [alwaysKeepsPending, and_eq_true] at hkeeps
    exact ih (h.step huuid op hkeeps.1) hkeeps.2

end Session

open Session

section Reads

variable {uuid : List UInt8} {canRaw : Side → Bool}

/-- A read into a buffer with room, from a transport that hands over what has arrived. -/
def GoodRead (read : ℕ × List ReadEv) : Prop := read.1 ≠ 0 ∧ read.2 ≠ [] ∧ AllData read.2

variable (huuid : uuid.length = uuidLen)
include huuid

/-- What is on its way gets less by each read. -/
lemma Session.Inv.read {s : Session} (h : s.Inv uuid canRaw) {side : Side}
    (hpending : (s side.other).conn.writePending = none) (herror : (s side).readError = none)
    (hcan : canRaw side) {read} (hread : GoodRead read) :
    ((s.step (.read side read.1 read.2)) side).readError = none ∧
      ((s.step (.read side read.1 read.2)) side).incoming.length ≤ (s side).incoming.length - 1 ∧
      (s.step (.read side read.1 read.2)) side.other = s side.other := by
  have hend := h.ends side
  obtain ⟨tail, staged, plain, hdir⟩ := h.dir side.other
  rw [other_other] at hdir
  have hprogress := ((hdir.ahead herror).pollReadLoop huuid read.1 read.2 _ _ _ hend.userUuid).2
    hread.1 hread.2.2 (hend.canRaw.trans hcan) (by rw [pendingRest, hpending])
  simp only [Session.step, herror, Option.isSome_none, false_eq_true, if_false]
  rw [update_self, update_of_ne side.other_ne, pollRead_eq hend.readPlain]
  generalize pollReadLoop read.1 read.2 (s side).conn.readState (s side).conn
    (s side).incoming = r at hprogress
  have hincoming : ((s side).didRead r).incoming = r.incoming := by
    unfold didRead
    cases r.poll <;> rfl
  refine ⟨?_, ?_, rfl⟩
  · unfold didRead
    cases hpoll : r.poll with
    | pending | ok => exact herror
    | err error => exact absurd hpoll (hprogress.ok error)
  · rw [hincoming]
    have hle := hprogress.le
    have hlt := hprogress.lt hread.2.1
    omega

/-- **Enough reads hand out all that was accepted.** -/
lemma Session.Inv.reads {side : Side} (hcan : canRaw side) (reads : List (ℕ × List ReadEv))
    (hreads : ∀ read ∈ reads, GoodRead read) {s : Session} (h : s.Inv uuid canRaw)
    (hpending : (s side.other).conn.writePending = none) (hwrite : (s side.other).writeError = none)
    (herror : (s side).readError = none) (hlen : (s side).incoming.length ≤ reads.length) :
    ((s.run (reads.map fun read => .read side read.1 read.2)) side).received =
      (s side.other).accepted := by
  induction reads generalizing s with
  | nil =>
    obtain ⟨tail, staged, plain, hdir⟩ := h.dir side.other
    rw [other_other] at hdir
    have hahead := hdir.ahead herror
    -- nothing is on its way, so nothing is ahead
    have hzero : (s side).incoming.wrapped.length + (s side).incoming.raw.length = 0 :=
      le_zero.mp hlen
    have hw : (s side).incoming.wrapped = [] := length_eq_zero_iff.mp (by omega)
    have hr : (s side).incoming.raw = [] := length_eq_zero_iff.mp (by omega)
    rw [pendingRest, hpending, hw, hr] at hahead
    have hplain := hahead.plain_eq_nil huuid
    have hreceived := hdir.received
    rw [hplain, append_nil, (hdir.tx.idle_of_none hwrite hpending).2] at hreceived
    exact hreceived
  | cons read reads ih =>
    obtain ⟨h1, h2, h3⟩ := h.read huuid hpending herror hcan (hreads read mem_cons_self)
    have hrest := ih (fun r hr => hreads r (mem_cons_of_mem _ hr))
      (h.step huuid (.read side read.1 read.2) rfl) (h3 ▸ hpending) (h3 ▸ hwrite) h1
      (by rw [length_cons] at hlen; omega)
    rw [h3] at hrest
    exact hrest

end Reads

/-- The bytes in the stream are those that were accepted, and at most those of one frame more. -/
lemma Tx.bounds {e : End} {tail staged} (h : Tx e tail staged) :
    e.accepted <+: staged ∧ staged <+: e.accepted ++ (e.outstanding.getD []).take 16384 := by
  cases h with
  | idle => exact ⟨prefix_rfl, prefix_append _ _⟩
  | pending _ _ _ _ houtstanding hconsumed =>
    rw [houtstanding]
    exact ⟨prefix_append _ _, (prefix_append_right_inj _).mpr (take_prefix_take_left hconsumed)⟩
  | failed _ _ hn =>
    exact ⟨prefix_append _ _, (prefix_append_right_inj _).mpr (take_prefix_take_left hn)⟩

/-- **What is written comes out.** Take any run of two Vision connections in which no flush gets
the rest of a pending frame out. What an end has sent is a stream in which the user id comes first
and only there, the lengths fit their fields and the bytes after the last frame are as they were
written. The bytes in that stream are those of its writes that returned, followed by at most the
bytes of the frame of a write that did not. The other end has received the first of these bytes,
it finds nothing wrong with the frames, and once the writes have returned it receives all of them
with enough reads.

**Proof sketch.** The invariant `Session.Inv` holds in new connections and every step keeps it.
Its directions give the stream, and `Session.Inv.reads` the rest. -/
theorem run_bytes_delivered (uuid : List UInt8) (huuid : uuid.length = uuidLen)
    (canRaw : Side → Bool) (ops : List Op)
    (hkeeps : (Session.new uuid canRaw).alwaysKeepsPending ops = true) (side : Side) :
    let s := (Session.new uuid canRaw).run ops
    (∃ plain tail,
      Stream uuid true ((s side).sent.wrapped ++ (s side).conn.pendingRest) (s side).sent.raw
        plain tail ∧
      (s side).accepted <+: plain ∧
      plain <+: (s side).accepted ++ ((s side).outstanding.getD []).take 16384 ∧
      (s side.other).received <+: plain) ∧
    (∀ error, (s side.other).readError = some error → ReadFault (canRaw side.other) error) ∧
    ((s side).conn.writePending = none → (s side).writeError = none →
      (s side.other).readError = none → canRaw side.other →
      ∀ reads : List (ℕ × List ReadEv), (∀ read ∈ reads, GoodRead read) →
        (s side.other).incoming.length ≤ reads.length →
        (s.run (reads.map fun read => .read side.other read.1 read.2) side.other).received =
          (s side).accepted) := by
  intro s
  have hinv : s.Inv uuid canRaw := (Session.Inv.new uuid canRaw).run huuid ops hkeeps
  refine ⟨?_, (hinv.ends side.other).readError, ?_⟩
  · obtain ⟨tail, staged, plain, hdir⟩ := hinv.dir side
    exact ⟨staged, tail, hdir.stream, hdir.tx.bounds.1, hdir.tx.bounds.2, plain, hdir.received⟩
  · intro hpending hwrite herror hcan reads hreads hlen
    have h := hinv.reads huuid hcan reads hreads (side.other_other.symm ▸ hpending)
      (side.other_other.symm ▸ hwrite) herror hlen
    rwa [other_other] at h

/-- The user id of the runs below. -/
def sampleUuid : List UInt8 := List.replicate 16 7

/-- A write that the transport takes in two parts, and two reads. -/
def sampleRun : List Op :=
  [.write .client [1, 2, 3] [.accept 9] 200, .write .client [] [.accept 9, .accept 999] 0,
    .read .server 10 [.data 99, .data 99]]

/-- In such a run, what the client has sent is a stream. -/
theorem sampleRun_delivered :
    ∃ plain tail, Stream sampleUuid true
      (((Session.new sampleUuid fun _ => true).run sampleRun .client).sent.wrapped ++
        ((Session.new sampleUuid fun _ => true).run sampleRun .client).conn.pendingRest)
      ((Session.new sampleUuid fun _ => true).run sampleRun .client).sent.raw plain tail ∧
      [1, 2, 3] <+: plain := by
  obtain ⟨⟨plain, tail, hstream, haccepted, -⟩, -⟩ := run_bytes_delivered sampleUuid rfl
    (fun _ => true) sampleRun (by decide +kernel) .client
  have heq : ((new sampleUuid fun _ => true).run sampleRun .client).accepted =
      [1, 2, 3] := by
    decide +kernel
  exact ⟨plain, tail, hstream, heq ▸ haccepted⟩

/-- A write of three bytes that is `Pending`, a flush that gets its frame out, the retry of the
write, and two reads at the other end. -/
def flushedRun : List Op :=
  [.write .client [1, 2, 3] [] 0, .flush .client [.accept 999] (.ok ()),
    .write .client [1, 2, 3] [.accept 999] 0, .read .server 10 [.data 99, .data 99],
    .read .server 10 [.data 99]]

/-- **A flush between a write and its retry**: three bytes are written once, and received twice. -/
theorem flush_repeats_bytes :
    ((Session.new sampleUuid fun _ => true).run flushedRun .client).accepted = [1, 2, 3] ∧
      ((Session.new sampleUuid fun _ => true).run flushedRun .server).received =
        [1, 2, 3, 1, 2, 3] := by
  decide +kernel

end Meow.Vless
