import Meow.Mux.CoolFrame

/-!
# The reader of a Mux.Cool session

The driver task of `mux/muxcool.rs` reads frames in four phases and hands their events to the
streams. The future that reads is dropped whenever another branch of the driver's `select!` is
ready first, so what it has read is kept outside of it; an event for a stream whose queue is full
is parked, and nothing is read until it is delivered.

The future waits in two places, for bytes of the connection and for the lock of the stream map.
An operation of the model runs it from one of them to the next.

## Main definitions

* `ReadState`, `Driver` — the reader and all that it works on.
* `Op`, `Driver.step`, `Driver.run` — what happens.
* `Session` — what the reader is for: frames are delivered to open streams, whole and in order.
* `Aligned` — the reader stands inside the next frame.

## Main results

* `filled_spec` — what a phase does when its bytes are there.
* `Aligned.at_lock` — what has been read when the future waits for the lock.
-/

namespace Meow.Mux.Cool

open List

/-! ### The driver -/

/-- The length of a stream's queue. -/
def STREAM_QUEUE : ℕ := 32

/-- `Event`: what a stream gets. -/
inductive Event where
  | data (bytes : List UInt8) (dest : Option (Dest × UInt16))
  | eof
  | error (e : Error)
  deriving DecidableEq

/-- `ReadPhase`; the phase `Meta` is `metaBlock`. -/
inductive ReadPhase where
  | metaLen
  | metaBlock
  | dataLen
  | data
  deriving DecidableEq

structure ReadState where
  phase : ReadPhase
  buf : List UInt8
  pos : ℕ
  sid : UInt16
  option : UInt8
  dest : Option (Dest × UInt16)
  deriving DecidableEq

def ReadState.fresh : ReadState :=
  { phase := .metaLen, buf := resize [] 2, pos := 0, sid := 0, option := 0, dest := none }

/-- `reset_header`: start with a new frame. -/
def ReadState.resetHeader (s : ReadState) : ReadState :=
  { s with phase := .metaLen, buf := resize s.buf 2, pos := 0 }

/-- Go on with a phase that reads `len` bytes. -/
def ReadState.enter (s : ReadState) (phase : ReadPhase) (len : ℕ) : ReadState :=
  { s with phase, buf := resize s.buf len, pos := 0 }

/-- What a meta block says is kept until the frame is done. -/
def ReadState.note (s : ReadState) (frame : FrameMeta) : ReadState :=
  { s with sid := frame.sessionId, option := frame.option, dest := frame.dest }

/-- What the read future does with the stream map once it has the lock. -/
inductive Locking where
  | close (event : Event)
  | keepError
  | data
  deriving DecidableEq

/-- What the read future waits for. -/
inductive Await where
  | reading
  | locking (l : Locking)
  deriving DecidableEq

/-- A stream's channel: what is queued, what the stream has taken from it, and whether the stream
still has its receiver. -/
structure Channel where
  queue : List Event
  received : List Event
  alive : Bool
  deriving DecidableEq

/-- The driver task. A stream's sender is known by the number of the stream, which is never used
again. `streams` is the stream map, `input` what the server has sent and was not read yet. -/
structure Driver where
  state : ReadState
  future : Option Await
  parked : Option (UInt16 × Event)
  streams : UInt16 → Bool
  channels : UInt16 → Option Channel
  input : List UInt8
  result : Option Error
  exited : Bool

def Driver.start (input : List UInt8) : Driver :=
  { state := .fresh, future := none, parked := none, streams := fun _ => false
    channels := fun _ => none, input, result := none, exited := false }

/-- `try_send`: put an event into a queue with room for it. -/
def Channel.push (c : Channel) (event : Event) : Channel := { c with queue := c.queue ++ [event] }

/-- The error of a frame that ends its stream with one. -/
def closedWithError : Error := ⟨.other, str "mux.cool: remote stream closed with error"⟩

/-- The error of a frame that carries one for a stream. -/
def streamError : Error := ⟨.other, str "mux.cool: remote stream error"⟩

/-- The error when the connection ends. -/
def sessionClosed : Error := ⟨.unexpectedEof, str "mux.cool session closed"⟩

/-- The event that the streams get when the driver ends with `e`. -/
def abortEvent (e : Error) : Event := .error ⟨e.kind, str "mux.cool session aborted: " ++ e.message⟩

/-- The event of a frame that ends its stream. -/
def closeEvent (option : UInt8) : Event :=
  if hasError option then .error closedWithError else .eof

/-- The number in the first two bytes of a buffer. -/
def readU16 : List UInt8 → ℕ
  | b0 :: b1 :: _ => ofU16be b0 b1
  | _ => 0

namespace Driver

/-- `deliver_now` and what the driver does with its answer; also one try of `retry_parked`: an
event for a full queue is parked, one for a stream that is gone is dropped. -/
def deliver (d : Driver) (sid : UInt16) (event : Event) : Driver :=
  match d.channels sid with
  | none => d
  | some c =>
    if !c.alive then d
    else if c.queue.length ≥ STREAM_QUEUE then { d with parked := some (sid, event) }
    else { d with channels := Function.update d.channels sid (some (c.push event)) }

def retryParked (d : Driver) : Driver :=
  match d.parked with
  | none => d
  | some (sid, event) => { d with parked := none }.deliver sid event

/-- The read step returns an error, and the loop ends. -/
def fail (d : Driver) (e : Error) : Driver := { d with future := none, result := some e }

/-- The read step returns. -/
def done (d : Driver) (state : ReadState) : Driver := { d with state, future := none }

/-- The end of the phase `MetaLen`, when its bytes are there. -/
def filledMetaLen (d : Driver) : Driver :=
  let metaLen := readU16 d.state.buf
  if metaLen > MAX_META then
    d.fail ⟨.invalidData, str "mux.cool: meta length " ++ natToStr metaLen ++ str " exceeds " ++
      natToStr MAX_META⟩
  else d.done (d.state.enter .metaBlock metaLen)

/-- The phase `Meta` once the block is decoded. -/
def handleStatus (d : Driver) (status : UInt8) : Driver :=
  if status = STATUS_NEW then d.fail ⟨.invalidData, str "mux.cool: server-initiated stream"⟩
  else if status = STATUS_KEEPALIVE then d.done d.state.resetHeader
  else if status = STATUS_END then
    { d with future := some (.locking (.close (closeEvent d.state.option))) }
  else if status = STATUS_KEEP then
    if hasData d.state.option then d.done (d.state.enter .dataLen 2)
    else if hasError d.state.option then { d with future := some (.locking .keepError) }
    else d.done d.state.resetHeader
  else
    d.fail ⟨.invalidData, str "mux.cool: unknown frame status " ++ natToStr status.toNat⟩

/-- The phase `Meta`, when its bytes are there. -/
def filledMeta (d : Driver) : Driver :=
  match decodeMeta d.state.buf with
  | .error e => d.fail e
  | .ok frame => { d with state := d.state.note frame }.handleStatus frame.status

/-- What a phase does when its bytes are there, up to the lock if it needs it. -/
def filled (d : Driver) : Driver :=
  match d.state.phase with
  | .metaLen => d.filledMetaLen
  | .metaBlock => d.filledMeta
  | .dataLen => d.done (d.state.enter .data (readU16 d.state.buf))
  | .data => { d with future := some (.locking .data) }

/-- The sender of a stream in the map. -/
def sender (d : Driver) (sid : UInt16) : Option UInt16 := if d.streams sid then some sid else none

/-- Hand an event to a stream, if there is one. -/
def deliverNow (d : Driver) (tx : Option UInt16) (event : Event) : Driver :=
  match tx with
  | none => d
  | some sid => d.deliver sid event

/-- The rest of the phase `Data`: the payload goes to its stream unless the frame is an error. -/
def lockedData (d : Driver) : Driver :=
  let s := d.state
  let tx := d.sender s.sid
  if hasError s.option then (d.done s.resetHeader).deliverNow tx (.error streamError)
  else if s.buf = [] then d.done { s with buf := [] }.resetHeader
  else (d.done { s with buf := [], dest := none }.resetHeader).deliverNow tx (.data s.buf s.dest)

/-- What the read future does when it has the lock. The entry of a stream that ends is removed
before the event is delivered. -/
def locked (d : Driver) : Locking → Driver
  | .close event =>
    let tx := d.sender d.state.sid
    let d := { d with streams := Function.update d.streams d.state.sid false }
    (d.done d.state.resetHeader).deliverNow tx event
  | .keepError =>
    (d.done d.state.resetHeader).deliverNow (d.sender d.state.sid) (.error streamError)
  | .data => d.lockedData

end Driver

/-- What can happen. The first six are the driver's; `cancel` drops the read future. The others are
those of the streams: a stream is registered, takes an event, drops its receiver, or its entry is
removed from the map. -/
inductive Op where
  | poll
  | read (n : ℕ)
  | lock
  | cancel
  | retry
  | eof
  | exit
  | register (sid : UInt16)
  | recv (sid : UInt16)
  | drop (sid : UInt16)
  | unregister (sid : UInt16)
  deriving DecidableEq

namespace Driver

/-- The read step is polled for the first time: the driver makes the future only when nothing is
parked. -/
def poll (d : Driver) : Driver :=
  if d.future = none ∧ d.parked = none ∧ d.result = none then
    if d.state.pos < d.state.buf.length then { d with future := some .reading } else d.filled
  else d

/-- The next `n` bytes go into the buffer. -/
def fill (d : Driver) (n : ℕ) : Driver :=
  { d with
    state :=
      { d.state with
        buf := store d.state.buf d.state.pos (d.input.take n), pos := d.state.pos + n }
    input := d.input.drop n }

/-- The connection gives `n` bytes. -/
def read (d : Driver) (n : ℕ) : Driver :=
  if d.future = some .reading ∧ 0 < n ∧ d.state.pos + n ≤ d.state.buf.length ∧
      n ≤ d.input.length then
    if (d.fill n).state.pos < (d.fill n).state.buf.length then d.fill n else (d.fill n).filled
  else d

/-- The lock of the stream map is given to the read future. -/
def lock (d : Driver) : Driver :=
  match d.future with
  | some (.locking l) => d.locked l
  | _ => d

/-- The connection ends. -/
def eof (d : Driver) : Driver :=
  if d.future = some .reading ∧ d.input = [] then d.fail sessionClosed else d

/-- The end of the driver: every stream in the map gets the error if its queue has room, and the
map is cleared. -/
def exit (d : Driver) : Driver :=
  match d.result, d.exited with
  | some e, false =>
    { d with
      channels := fun sid =>
        (d.channels sid).map fun c =>
          if d.streams sid && c.alive && c.queue.length < STREAM_QUEUE then c.push (abortEvent e)
          else c
      streams := fun _ => false
      exited := true }
  | _, _ => d

/-- A stream is entered in the map with a new channel. -/
def register (d : Driver) (sid : UInt16) : Driver :=
  if d.channels sid = none then
    { d with
      streams := Function.update d.streams sid true
      channels := Function.update d.channels sid (some ⟨[], [], true⟩) }
  else d

/-- A stream takes the next event from its queue. -/
def recv (d : Driver) (sid : UInt16) : Driver :=
  { d with
    channels :=
      Function.update d.channels sid ((d.channels sid).map fun c =>
        { c with queue := c.queue.tail, received := c.received ++ c.queue.head?.toList }) }

/-- A stream drops its receiver. -/
def dropReceiver (d : Driver) (sid : UInt16) : Driver :=
  { d with
    channels :=
      Function.update d.channels sid ((d.channels sid).map fun c => { c with alive := false }) }

/-- One thing happens; it changes nothing where it cannot happen. -/
def step (d : Driver) : Op → Driver
  | .poll => d.poll
  | .read n => d.read n
  | .lock => d.lock
  | .cancel => { d with future := none }
  | .retry => if d.future = none ∧ d.result = none then d.retryParked else d
  | .eof => d.eof
  | .exit => d.exit
  | .register sid => d.register sid
  | .recv sid => d.recv sid
  | .drop sid => d.dropReceiver sid
  | .unregister sid => { d with streams := Function.update d.streams sid false }

/-- A run. -/
def run (d : Driver) (ops : List Op) : Driver := ops.foldl step d

end Driver

/-! ### What the reader is for -/

/-- The events that a frame has for its stream: a payload, the end, or an error. A frame that
carries an error has no data for the stream. -/
def Frame.events (f : Frame) : List Event :=
  match f.status with
  | .keepAlive => []
  | .close => [closeEvent f.option]
  | .keep =>
    if hasError f.option then [.error streamError]
    else if hasData f.option ∧ f.payload ≠ [] then [.data f.payload f.decoded.dest]
    else []

/-- A session as its streams see it: the frames to come, the streams that are open, and for each
stream that was ever registered the events due to it. -/
structure Session where
  todo : List Frame
  opened : UInt16 → Bool
  due : UInt16 → Option (List Event)

namespace Session

def start (frames : List Frame) : Session := ⟨frames, fun _ => false, fun _ => none⟩

/-- A frame is delivered: its events are due to its stream if that is open, and one that ends the
stream closes it. -/
def deliver (m : Session) (f : Frame) (rest : List Frame) : Session where
  todo := rest
  opened :=
    if f.status = .close then Function.update m.opened f.sessionId false else m.opened
  due :=
    if m.opened f.sessionId then
      Function.update m.due f.sessionId ((m.due f.sessionId).map (· ++ f.events))
    else m.due

/-- What the operations of the streams do to a session. -/
def act (m : Session) : Op → Session
  | .register sid =>
    if m.due sid = none then
      { m with
        opened := Function.update m.opened sid true, due := Function.update m.due sid (some []) }
    else m
  | .unregister sid => { m with opened := Function.update m.opened sid false }
  | _ => m

/-- The states of a session in which the streams have done what they do in `ops` and some of the
frames have been delivered in between. -/
inductive Reaches (frames : List Frame) : List Op → Session → Prop
  | start : Reaches frames [] (.start frames)
  | act {ops : List Op} {m : Session} (op : Op) (h : Reaches frames ops m) :
    Reaches frames (ops ++ [op]) (m.act op)
  | deliver {ops : List Op} {m : Session} {f : Frame} {rest : List Frame} (h : Reaches frames ops m)
    (hf : m.todo = f :: rest) : Reaches frames ops (m.deliver f rest)

end Session

/-! ### The reader inside a frame -/

/-- The bytes of frames. -/
def wires (frames : List Frame) : List UInt8 := frames.flatMap Frame.wire

/-- The reader has decoded the meta block of `f`. -/
def Decoded (s : ReadState) (f : Frame) : Prop :=
  s.sid = f.sessionId ∧ s.option = f.option ∧ s.dest = f.decoded.dest

/-- The reader is in a phase of the first frame to come: the number of bytes of the phase, and the
bytes of the connection from the beginning of the phase on. -/
inductive Expects (s : ReadState) : List Frame → ℕ → List UInt8 → Prop
  | metaLen {todo : List Frame} (h : s.phase = .metaLen) : Expects s todo 2 (wires todo)
  | metaBlock {f : Frame} {rest : List Frame} (h : s.phase = .metaBlock) :
    Expects s (f :: rest) f.metaBytes.length (f.metaBytes ++ (f.dataBytes ++ wires rest))
  | dataLen {f : Frame} {rest : List Frame} (h : s.phase = .dataLen) (hf : Decoded s f)
    (hkeep : f.status = .keep) (hdata : hasData f.option = true) :
    Expects s (f :: rest) 2 (u16be f.payload.length ++ (f.payload ++ wires rest))
  | data {f : Frame} {rest : List Frame} (h : s.phase = .data) (hf : Decoded s f)
    (hkeep : f.status = .keep) (hdata : hasData f.option = true) :
    Expects s (f :: rest) f.payload.length (f.payload ++ wires rest)

/-- What the lock is waited for is what the frame asks for. -/
inductive Locks (s : ReadState) : List Frame → Locking → Prop
  | close {f : Frame} {rest : List Frame} (h : s.phase = .metaBlock) (hf : Decoded s f)
    (hclose : f.status = .close) : Locks s (f :: rest) (.close (closeEvent f.option))
  | keepError {f : Frame} {rest : List Frame} (h : s.phase = .metaBlock) (hf : Decoded s f)
    (hkeep : f.status = .keep) (hdata : hasData f.option = false)
    (herror : hasError f.option = true) : Locks s (f :: rest) .keepError
  | data {todo : List Frame} (h : s.phase = .data) : Locks s todo .data

/-- The reader stands inside the first of the frames to come: it has read the beginning of a
phase, and what it has not read is the rest of the frame and the other frames. -/
structure Aligned (s : ReadState) (future : Option Await) (input : List UInt8)
    (todo : List Frame) : Prop where
  expects : Expects s todo s.buf.length (s.buf.take s.pos ++ input)
  pos_le : s.pos ≤ s.buf.length
  reading : future = some .reading → s.pos < s.buf.length
  locking : ∀ l, future = some (.locking l) → s.pos = s.buf.length ∧ Locks s todo l

variable {todo : List Frame} {s : ReadState}

lemma Expects.of_eq {s' : ReadState} {len bytes} (h : Expects s todo len bytes)
    (hphase : s'.phase = s.phase) (hsid : s'.sid = s.sid) (hoption : s'.option = s.option)
    (hdest : s'.dest = s.dest) : Expects s' todo len bytes := by
  have hdec : ∀ f, Decoded s f → Decoded s' f := fun f hf =>
    ⟨hsid.trans hf.1, hoption.trans hf.2.1, hdest.trans hf.2.2⟩
  cases h with
  | metaLen h => exact .metaLen (hphase.trans h)
  | metaBlock h => exact .metaBlock (hphase.trans h)
  | dataLen h hf hkeep hdata => exact .dataLen (hphase.trans h) (hdec _ hf) hkeep hdata
  | data h hf hkeep hdata => exact .data (hphase.trans h) (hdec _ hf) hkeep hdata

variable {input : List UInt8}

/-- A phase that begins. -/
lemma Aligned.of_enter {len} (h : Expects s todo len input) (hlen : s.buf.length = len)
    (hpos : s.pos = 0) :
    Aligned s none input todo where
  expects := by
    rw [hpos, hlen, take_zero]
    exact h
  pos_le := by omega
  reading h := absurd h (by simp)
  locking _ h := absurd h (by simp)

/-- A phase that has been read and asks for the lock. -/
lemma Aligned.of_locks {l} (h : Expects s todo s.buf.length (s.buf ++ input))
    (hpos : s.pos = s.buf.length) (hl : Locks s todo l) :
    Aligned s (some (.locking l)) input todo where
  expects := by rwa [hpos, take_length]
  pos_le := hpos.le
  reading := nofun
  locking l' hl' := by
    cases hl'
    exact ⟨hpos, hl⟩

/-- Between two frames. -/
lemma Aligned.resetHeader (s : ReadState) (todo : List Frame) :
    Aligned s.resetHeader none (wires todo) todo :=
  .of_enter (.metaLen rfl) (length_resize s.buf 2) rfl

lemma readU16_u16be {n} (h : n < 65536) : readU16 (u16be n) = n := ofU16be_u16be h

lemma wires_cons (f : Frame) (rest : List Frame) :
    wires (f :: rest) =
      u16be f.metaBytes.length ++ (f.metaBytes ++ (f.dataBytes ++ wires rest)) := by
  simp only [wires, flatMap_cons, Frame.wire, append_assoc]

/-- How far the reader is from the end of a frame. -/
def ReadPhase.rank : ReadPhase → ℕ
  | metaLen => 3
  | metaBlock => 2
  | dataLen => 1
  | data => 0

/-- The same with what it waits for. -/
def readerRank (phase : ReadPhase) : Option Await → ℕ
  | none => 2 * phase.rank + 2
  | some .reading => 2 * phase.rank + 1
  | some (.locking _) => 2 * phase.rank

lemma readerRank_enter (s : ReadState) {phase : ReadPhase} (len : ℕ)
    (h : phase.rank < s.phase.rank) :
    readerRank (s.enter phase len).phase none < readerRank s.phase none := by
  show 2 * phase.rank + 2 < 2 * s.phase.rank + 2
  omega

lemma readerRank_le (phase : ReadPhase) (future : Option Await) : readerRank phase future ≤ 8 := by
  cases phase <;> rcases future with _ | _ | _ <;> simp [readerRank, ReadPhase.rank]

/-- No frame that keeps the session alive carries data. -/
def Plain (frames : List Frame) : Prop :=
  ∀ f ∈ frames, f.status = .keepAlive → hasData f.option = false

open Driver

/-- **A phase whose bytes are there**: the reader goes on to the next phase or waits for the lock,
or it is done with a frame that has nothing for a stream.

**Proof sketch.** The buffer holds the bytes of the phase, since the connection goes on with them;
the length that it holds is the length of the next part, and the meta block is decoded to the
frame's own. A payload follows exactly when the option says so, unless the frame keeps the
session alive: there the payload would be taken for a frame, so these have none. -/
lemma filled_spec {d : Driver} (hplain : Plain todo)
    (h : Expects d.state todo d.state.buf.length (d.state.buf ++ d.input))
    (hpos : d.state.pos = d.state.buf.length) :
    ∃ s future, d.filled = { d with state := s, future } ∧
      (Aligned s future d.input todo ∧
          readerRank s.phase future < readerRank d.state.phase none ∨
        ∃ f rest, todo = f :: rest ∧ f.events = [] ∧ f.status ≠ .close ∧
          Aligned s future d.input rest) := by
  generalize hlen : d.state.buf.length = len at h
  generalize hbytes : d.state.buf ++ d.input = bytes at h
  cases h with
  | metaLen h =>
    cases todo with
    | nil =>
      have hzero := congrArg length hbytes
      simp only [length_append, wires, flatMap_nil, length_nil] at hzero
      omega
    | cons f rest =>
      rw [wires_cons] at hbytes
      obtain ⟨hbuf, hinput⟩ := append_inj hbytes hlen
      have hmax : f.metaBytes.length ≤ MAX_META := f.extra_le
      have hread : readU16 d.state.buf = f.metaBytes.length := by
        rw [hbuf]
        exact readU16_u16be (by rw [MAX_META] at hmax; omega)
      refine ⟨d.state.enter .metaBlock f.metaBytes.length, none, ?_,
        .inl ⟨?_, readerRank_enter _ _ (by rw [h]; decide)⟩⟩
      · simp [filled, h, filledMetaLen, hread, hmax.not_gt, done]
      · rw [hinput]
        exact .of_enter (.metaBlock rfl) (length_resize _ _) rfl
  | @metaBlock f rest h =>
    obtain ⟨hbuf, hinput⟩ := append_inj hbytes hlen
    have hdecode : decodeMeta d.state.buf = .ok f.decoded := hbuf ▸ f.decodeMeta_meta
    have hfilled : d.filled =
        { d with state := d.state.note f.decoded }.handleStatus f.status.byte := by
      simp [filled, h, filledMeta, hdecode, Frame.decoded]
    have hnote : Decoded (d.state.note f.decoded) f := ⟨rfl, rfl, rfl⟩
    have hwait : ∀ l, Locks (d.state.note f.decoded) (f :: rest) l →
        Aligned (d.state.note f.decoded) (some (.locking l)) d.input (f :: rest) ∧
          readerRank (d.state.note f.decoded).phase (some (.locking l)) <
            readerRank d.state.phase none := fun l hl =>
      ⟨.of_locks (by show Expects _ _ d.state.buf.length (d.state.buf ++ _)
                     rw [hlen, hbytes]; exact .metaBlock h) hpos hl,
        Nat.lt_add_of_pos_right (by decide)⟩
    have hnodata : hasData f.option = false → d.input = wires rest := by
      intro hdata
      rw [hinput, Frame.dataBytes, hdata]
      rfl
    rw [hfilled]
    cases hs : f.status with
    | keepAlive =>
      refine ⟨(d.state.note f.decoded).resetHeader, none, rfl,
        .inr ⟨f, rest, rfl, by rw [Frame.events, hs], by rw [hs]; simp, ?_⟩⟩
      rw [hnodata (hplain f mem_cons_self hs)]
      exact Aligned.resetHeader _ rest
    | close => exact ⟨_, _, rfl, .inl (hwait _ (.close h hnote hs))⟩
    | keep =>
      show ∃ s future, (if hasData f.option then _ else if hasError f.option then _ else _) = _ ∧ _
      split_ifs with hdata herror
      · refine ⟨(d.state.note f.decoded).enter .dataLen 2, none, rfl,
          .inl ⟨?_, readerRank_enter (d.state.note _) _ (by rw [ReadState.note, h]; decide)⟩⟩
        rw [hinput, Frame.dataBytes, if_pos hdata]
        exact .of_enter (.dataLen rfl hnote hs hdata) (length_resize _ _) rfl
      · exact ⟨_, _, rfl, .inl (hwait _ (.keepError h hnote hs (by simpa using hdata) herror))⟩
      · refine ⟨_, _, rfl, .inr ⟨f, rest, rfl, ?_, by rw [hs]; simp, ?_⟩⟩
        · simp [Frame.events, hs, hdata, herror]
        · rw [hnodata (by simpa using hdata)]
          exact Aligned.resetHeader _ rest
  | @dataLen f rest h hf hkeep hdata =>
    obtain ⟨hbuf, hinput⟩ := append_inj hbytes hlen
    refine ⟨d.state.enter .data f.payload.length, none, ?_,
      .inl ⟨?_, readerRank_enter _ _ (by rw [h]; decide)⟩⟩
    · simp [filled, h, hbuf, readU16_u16be f.payload_lt, done]
    · rw [hinput]
      exact .of_enter (.data rfl hf hkeep hdata) (length_resize _ _) rfl
  | @data f rest h hf hkeep hdata =>
    refine ⟨d.state, some (.locking .data), by rw [filled, h],
      .inl ⟨.of_locks ?_ hpos (.data h), Nat.lt_add_of_pos_right (by decide)⟩⟩
    rw [hlen, hbytes]
    exact .data h hf hkeep hdata

/-- At the lock the whole frame has been read. -/
lemma Aligned.at_lock {l} (h : Aligned s (some (.locking l)) input todo) :
    ∃ f rest, todo = f :: rest ∧ input = wires rest ∧ Decoded s f ∧
      (f.status = .close ∧ l = .close (closeEvent f.option) ∨
        f.status = .keep ∧ hasData f.option = false ∧ hasError f.option ∧ l = .keepError ∨
        f.status = .keep ∧ hasData f.option ∧ s.buf = f.payload ∧ l = .data) := by
  obtain ⟨hpos, hlocks⟩ := h.locking l rfl
  have hexp := h.expects
  rw [hpos, take_length] at hexp
  generalize hlen : s.buf.length = len at hexp
  generalize hbytes : s.buf ++ input = bytes at hexp
  have hmeta : ∀ {f : Frame} {rest : List Frame}, s.phase = .metaBlock → todo = f :: rest →
      hasData f.option = false → input = wires rest := by
    intro f rest hphase htodo hdata
    cases hexp with
    | metaBlock h' =>
      obtain ⟨rfl, rfl⟩ := List.cons.inj htodo
      obtain ⟨-, hinput⟩ := append_inj hbytes hlen
      rw [hinput, Frame.dataBytes, hdata]
      rfl
    | metaLen h' | dataLen h' | data h' => cases h'.symm.trans hphase
  cases hlocks with
  | @close f rest hphase hf hclose =>
    exact ⟨f, rest, rfl, hmeta hphase rfl (f.close_no_data hclose), hf, .inl ⟨hclose, rfl⟩⟩
  | @keepError f rest hphase hf hkeep hdata herror =>
    exact ⟨f, rest, rfl, hmeta hphase rfl hdata, hf, .inr (.inl ⟨hkeep, hdata, herror, rfl⟩)⟩
  | data hphase =>
    cases hexp with
    | metaLen h' | metaBlock h' | dataLen h' => cases h'.symm.trans hphase
    | @data f rest h' hf hkeep hdata =>
      obtain ⟨hbuf, hinput⟩ := append_inj hbytes hlen
      exact ⟨f, rest, rfl, hinput, hf, .inr (.inr ⟨hkeep, hdata, hbuf, rfl⟩)⟩

end Meow.Mux.Cool
