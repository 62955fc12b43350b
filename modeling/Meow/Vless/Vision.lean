import Meow.Lib.Poll

/-!
# The XTLS-Vision wrapper

`vless/vision.rs` wraps a VLESS connection. The first writes go out as frames of a command, two
sixteen-bit lengths, content and padding, the first frame behind the user id. With the command
`END` the frames stop and the bytes that follow go through the connection as they are; with
`DIRECT` the connection is switched to raw passthrough as well. The reader undoes this.

The connection under the wrapper is a transport in the sense of `Lib.Poll`. It carries two
streams of bytes: what is written before the writer switches it to raw passthrough, and what is
written after. A reader is given the first until it switches too.

## Main definitions

* `VisionConn` — the wrapper, with `pollWrite`, `pollFlush` and `pollRead`.
* `buildPaddingFrame` — a frame.
* `ServerHelloFilter` — the filter that finds out whether the peer speaks TLS 1.3.
-/

namespace Meow.Vless

/-! ### Constants -/

def uuidLen : ℕ := 16
def paddingHeaderLen : ℕ := uuidLen + 1 + 2 + 2
def commandPaddingContinue : UInt8 := 0x00
def commandPaddingEnd : UInt8 := 0x01
def commandPaddingDirect : UInt8 := 0x02
def tlsHandshake : UInt8 := 0x16
def tlsApplicationData : UInt8 := 0x17
def tlsMajor : UInt8 := 0x03
def tlsClientHello : UInt8 := 0x01
def tlsServerHello : UInt8 := 0x02
def tls13SupportedVersionsExt : List UInt8 := [0x00, 0x2b, 0x00, 0x02, 0x03, 0x04]
def tls13CipherSuites : List ℕ := [0x1301, 0x1302, 0x1303, 0x1304]
def tlsFilterPackets : ℕ := 8

/-! ### TLS records -/

/-- `slice::windows`. -/
def windows (n : ℕ) (l : List UInt8) : List (List UInt8) :=
  (List.range (l.length + 1 - n)).map fun i => (l.drop i).take n

def containsTlsClientHello (buf : List UInt8) : Bool :=
  (windows 6 buf).any fun w =>
    w[0]? == some tlsHandshake && w[1]? == some tlsMajor && w[5]? == some tlsClientHello

def findTlsServerHelloStart (buf : List UInt8) : Option ℕ :=
  (windows 6 buf).findIdx? fun w =>
    w[0]? == some tlsHandshake && w[1]? == some tlsMajor && w[2]? == some tlsMajor &&
      w[5]? == some tlsServerHello

def tlsServerHelloCipherSuite (record : List UInt8) : Option ℕ :=
  if record.length < 46 ∨ findTlsServerHelloStart record ≠ some 0 then none
  else do
    let sessionIdLen ← record[43]?
    let cipherOffset := 44 + sessionIdLen.toNat
    let hi ← record[cipherOffset]?
    let lo ← record[cipherOffset + 1]?
    return ofU16be hi lo

structure ServerHelloFilter where
  packetsLeft : ℕ
  expectedLen : Option ℕ
  buffer : List UInt8
  done : Bool
  deriving DecidableEq

namespace ServerHelloFilter

def new : ServerHelloFilter := ⟨tlsFilterPackets, none, [], false⟩

/-- The part of `observe` that looks at a record of which the length is known. -/
def examine (self : ServerHelloFilter) (expectedLen : ℕ) : Bool × ServerHelloFilter :=
  if self.buffer.length < expectedLen then (false, self)
  else
    let self := { self with done := true }
    let hello := self.buffer.take expectedLen
    match tlsServerHelloCipherSuite hello with
    | none => (false, self)
    | some cipher =>
      (tls13CipherSuites.contains cipher &&
        (windows tls13SupportedVersionsExt.length hello).any (· == tls13SupportedVersionsExt), self)

def observe (self : ServerHelloFilter) (chunk : List UInt8) : Bool × ServerHelloFilter :=
  if self.done || self.packetsLeft == 0 || chunk.isEmpty then (false, self)
  else
    let self := { self with
      packetsLeft := self.packetsLeft - 1
      buffer := self.buffer ++ chunk }
    match self.expectedLen with
    | none =>
      match findTlsServerHelloStart self.buffer with
      | none => (false, self)
      | some pos =>
        let buffer := self.buffer.drop pos
        let expectedLen := 5 + ofU16be (buffer.getD 3 0) (buffer.getD 4 0)
        { self with buffer := buffer, expectedLen := some expectedLen }.examine expectedLen
    | some expectedLen => self.examine expectedLen

end ServerHelloFilter

/-! ### The connection -/

inductive ReadState where
  | header (buf : List UInt8) (needUuid : Bool)
  | content (command : UInt8) (remainingContent remainingPadding : ℕ)
  | padding (command : UInt8) (remainingPadding : ℕ)
  | through
  deriving DecidableEq

/-- The number of bytes of a frame's header. -/
def headerLen (needUuid : Bool) : ℕ :=
  if needUuid then paddingHeaderLen else paddingHeaderLen - uuidLen

/-- How far a state is from one that has to wait for a byte. -/
def ReadState.rank : ReadState → ℕ
  | .header h needUuid => if h.length < headerLen needUuid then 0 else 3
  | .content _ _ _ => 2
  | .padding _ _ => 1
  | .through => 0

structure PendingWrite where
  frame : List UInt8
  pos : ℕ
  consumed : ℕ
  command : UInt8
  endPaddingAfterDrain : Bool
  deriving DecidableEq

/-- `VisionConn`, with what the connection under it can do: whether it can be switched to raw
passthrough, and whether either direction has been. -/
structure VisionConn where
  userUuid : List UInt8
  readState : ReadState
  readPlain : List UInt8
  writePending : Option PendingWrite
  writePadding : Bool
  writeSentUuid : Bool
  writeSeenTls : Bool
  writeDirectEnabled : Bool
  readTlsFilter : ServerHelloFilter
  visionEntered : Bool
  canRaw : Bool
  rawRead : Bool
  rawWrite : Bool
  deriving DecidableEq

/-- The length of the padding, for the number that the random source gives. -/
def paddingLen (contentLen : ℕ) (paddingTls : Bool) (random : ℕ) : ℕ :=
  if contentLen < 900 then
    if paddingTls then random % 500 + 900 - contentLen else random % 256
  else 0

def buildPaddingFrame (command : UInt8) (userUuid : Option (List UInt8)) (content : List UInt8)
    (paddingTls : Bool) (random : ℕ) : List UInt8 :=
  let padding := paddingLen content.length paddingTls random
  userUuid.getD [] ++ [command] ++ u16be content.length ++ u16be padding ++ content ++
    List.replicate padding 0

namespace VisionConn

def new (userUuid : List UInt8) (canRaw : Bool) : VisionConn where
  userUuid := userUuid
  readState := .header [] true
  readPlain := []
  writePending := none
  writePadding := true
  writeSentUuid := false
  writeSeenTls := false
  writeDirectEnabled := false
  readTlsFilter := .new
  visionEntered := false
  canRaw := canRaw
  rawRead := false
  rawWrite := false

/-- What a stretch of writing did: the answer, the connection after it, the bytes the transport
took, and the answers it did not use. -/
structure Wrote (α : Type) where
  poll : Poll IoError α
  conn : VisionConn
  sent : List UInt8
  evs : List WriteEv
  deriving DecidableEq

/-- The error of a write loop that ended with `status`. -/
def writePoll {α : Type} (a : α) : Status → Poll IoError α
  | .done => .ok a
  | .blocked => .pending
  | .closed => .err ⟨.writeZero, "vision: zero write during frame drain"⟩
  | .failed => .err transportError

/-- The text of the error for a transport without raw passthrough. -/
def directUnsupported : IoError :=
  ⟨.unsupported, "vision: DIRECT requested but transport cannot switch to raw passthrough"⟩

/-- The end of `drain_pending_write`: the frame is out, and may have been the last one. -/
def finishDrain (self : VisionConn) (pending : PendingWrite) :
    Poll IoError (Option ℕ) × VisionConn :=
  let self := { self with writePending := none }
  if pending.endPaddingAfterDrain then
    let self := { self with writePadding := false }
    if pending.command = commandPaddingDirect then
      if self.canRaw then (.ok (some pending.consumed), { self with rawWrite := true })
      else (.err directUnsupported, self)
    else (.ok (some pending.consumed), self)
  else (.ok (some pending.consumed), self)

def drainPendingWrite (self : VisionConn) (evs : List WriteEv) : Wrote (Option ℕ) :=
  match self.writePending with
  | none => ⟨.ok none, self, [], evs⟩
  | some pending =>
    let r := drain evs (pending.frame.drop pending.pos)
    let pending := { pending with pos := pending.pos + r.sent.length }
    match r.status with
    | .done =>
      let (poll, self) := self.finishDrain pending
      ⟨poll, self, r.sent, r.evs⟩
    | status =>
      ⟨writePoll none status, { self with writePending := some pending }, r.sent, r.evs⟩

/-- The part of `build_write_frame` that looks for a TLS handshake in what is written. -/
def noteHandshake (self : VisionConn) (buf : List UInt8) : VisionConn :=
  if containsTlsClientHello buf then { self with writeSeenTls := true, visionEntered := true }
  else self

/-- The part of `build_write_frame` that chooses the command, and whether the frames end. -/
def writeCommand (self : VisionConn) (buf : List UInt8) : UInt8 × Bool :=
  let startsTlsAppData := decide (3 ≤ buf.length) && buf[0]? == some tlsApplicationData &&
    buf[1]? == some tlsMajor
  if startsTlsAppData && self.writeSeenTls then
    (if self.writeDirectEnabled then commandPaddingDirect else commandPaddingEnd, true)
  else if !self.writeSeenTls && !containsTlsClientHello buf then (commandPaddingEnd, true)
  else (commandPaddingContinue, false)

/-- `build_write_frame`, for the number that the random source gives. -/
def buildWriteFrame (self : VisionConn) (buf : List UInt8) (random : ℕ) : VisionConn :=
  let self := self.noteHandshake buf
  let paddingTls := self.writeSeenTls
  let (command, endAfterDrain) := self.writeCommand buf
  let uuid := if self.writeSentUuid then none else some self.userUuid
  { self with
    writeSentUuid := true
    writePending := some {
      frame := buildPaddingFrame command uuid buf paddingTls random
      pos := 0
      consumed := buf.length
      command := command
      endPaddingAfterDrain := endAfterDrain } }

/-- `poll_write` of the connection under the wrapper. -/
def innerPollWrite (self : VisionConn) (buf : List UInt8) (evs : List WriteEv) : Wrote ℕ :=
  let r := writeOnce evs buf
  match r.1 with
  | .done => ⟨.ok r.2.length, self, r.2, evs.tail⟩
  | .blocked => ⟨.pending, self, [], []⟩
  | .closed => ⟨.ok 0, self, [], evs.tail⟩
  | .failed => ⟨.err transportError, self, [], evs.tail⟩

def pollWrite (self : VisionConn) (buf : List UInt8) (evs : List WriteEv) (random : ℕ) : Wrote ℕ :=
  let r := self.drainPendingWrite evs
  match r.poll with
  | .pending => ⟨.pending, r.conn, r.sent, r.evs⟩
  | .err e => ⟨.err e, r.conn, r.sent, r.evs⟩
  | .ok (some n) => ⟨.ok n, r.conn, r.sent, r.evs⟩
  | .ok none =>
    if buf = [] then ⟨.ok 0, r.conn, r.sent, r.evs⟩
    else if !r.conn.writePadding then r.conn.innerPollWrite buf r.evs
    else
      let chunkLen := min buf.length (16 * 1024)
      let d := (r.conn.buildWriteFrame (buf.take chunkLen) random).drainPendingWrite r.evs
      match d.poll with
      | .ok (some n) => ⟨.ok n, d.conn, d.sent, d.evs⟩
      | .ok none => ⟨.ok 0, d.conn, d.sent, d.evs⟩
      | .err e => ⟨.err e, d.conn, d.sent, d.evs⟩
      | .pending => ⟨.pending, d.conn, d.sent, d.evs⟩

/-- `VisionConn::poll_flush` and `poll_shutdown`: write out the pending frame, then flush or shut
down the connection under the wrapper, which answers `inner`. -/
def pollFlush (self : VisionConn) (evs : List WriteEv) (inner : Poll IoError Unit) : Wrote Unit :=
  let r := self.drainPendingWrite evs
  match r.poll with
  | .pending => ⟨.pending, r.conn, r.sent, r.evs⟩
  | .err e => ⟨.err e, r.conn, r.sent, r.evs⟩
  | .ok _ => ⟨inner, r.conn, r.sent, r.evs⟩

/-! ### Reading -/

/-- What is on its way to a reader: the bytes written before the switch to raw passthrough, and
those written after. -/
structure Incoming where
  wrapped : List UInt8
  raw : List UInt8
  deriving DecidableEq

/-- What a read did: the answer, the bytes handed to the caller, the connection after it, and what
is still on its way. -/
structure Read where
  poll : Poll IoError Unit
  out : List UInt8
  conn : VisionConn
  incoming : Incoming
  deriving DecidableEq

/-- The stream that the connection under the wrapper reads from. -/
def source (self : VisionConn) (i : Incoming) : List UInt8 :=
  if self.rawRead then i.raw else i.wrapped

/-- The streams after it has read up to `rest`. -/
def advance (self : VisionConn) (i : Incoming) (rest : List UInt8) : Incoming :=
  if self.rawRead then { i with raw := rest } else { i with wrapped := rest }

/-- The error of a read loop that ended with `status`. -/
def readPoll (what : String) : Status → Poll IoError Unit
  | .done => .ok ()
  | .blocked => .pending
  | .closed => .err ⟨.unexpectedEof, "vision: EOF while reading " ++ what⟩
  | .failed => .err transportError

def filterServerTls (self : VisionConn) (chunk : List UInt8) : VisionConn :=
  if self.writeDirectEnabled then self
  else
    let r := self.readTlsFilter.observe chunk
    { self with readTlsFilter := r.2, writeDirectEnabled := r.1 }

/-- The state after a whole header: its command, and its two lengths. -/
def parseHeader (h : List UInt8) (offset : ℕ) : ReadState :=
  .content (h.getD offset 0) (ofU16be (h.getD (offset + 1) 0) (h.getD (offset + 2) 0))
    (ofU16be (h.getD (offset + 3) 0) (h.getD (offset + 4) 0))

/-- The text of the error for a command that is not known. -/
def unknownCommand (command : UInt8) : IoError :=
  ⟨.invalidData, "vision: unknown padding command " ++ toString command.toNat⟩

/-- The state that follows a frame with the command, and an error if there is none: the loop has
put `Through` in the state's place. -/
def afterPadding (self : VisionConn) (command : UInt8) : Option IoError × VisionConn :=
  if command = commandPaddingContinue then (none, { self with readState := .header [] false })
  else if command = commandPaddingEnd then (none, { self with readState := .through })
  else if command = commandPaddingDirect then
    if self.canRaw then (none, { self with readState := .through, rawRead := true })
    else (some directUnsupported, { self with readState := .through })
  else (some (unknownCommand command), { self with readState := .through })

/-- It is a state that has to wait for a byte. -/
lemma rank_afterPadding (self : VisionConn) (command : UInt8) :
    (self.afterPadding command).2.readState.rank = 0 := by
  unfold afterPadding
  split_ifs <;> rfl

/-- The loop of `poll_read` into a buffer with `cap` free bytes. The state is taken out of the
connection, and put back when the loop returns. -/
def pollReadLoop (cap : ℕ) (evs : List ReadEv) (state : ReadState) (self : VisionConn)
    (i : Incoming) : Read :=
  match state with
  | .through =>
    let self := { self with readState := .through }
    let r := readOnce cap evs (self.source i)
    match r.status with
    | .done => ⟨.ok (), r.got, self, self.advance i r.wire⟩
    | .closed => ⟨.ok (), [], self, i⟩
    | .blocked => ⟨.pending, [], self, i⟩
    | .failed => ⟨.err transportError, [], self, i⟩
  | .header h needUuid =>
    let r := collect paddingHeaderLen evs (self.source i) (headerLen needUuid - h.length)
    let i' := self.advance i r.wire
    let kept := { self with readState := .header (h ++ r.got) needUuid }
    if _hdone : r.status = .done then
      if needUuid && (h ++ r.got).take uuidLen ≠ self.userUuid then
        ⟨.err ⟨.invalidData, "vision: server responded with unknown UUID"⟩, [], kept, i'⟩
      else
        let offset := if needUuid then uuidLen else 0
        pollReadLoop cap r.evs (parseHeader (h ++ r.got) offset) self i'
    else ⟨readPoll "padding header" r.status, [], kept, i'⟩
  | .content command remainingContent remainingPadding =>
    if remainingContent = 0 then pollReadLoop cap evs (.padding command remainingPadding) self i
    else
      let kept := { self with
        readState := .content command remainingContent remainingPadding }
      if cap = 0 then ⟨.ok (), [], kept, i⟩
      else
        let r := readOnce (min (min remainingContent cap) 8192) evs (self.source i)
        match r.status with
        | .done =>
          let remainingContent := remainingContent - r.got.length
          let i' := self.advance i r.wire
          let self := self.filterServerTls r.got
          let state := if remainingContent = 0 then .padding command remainingPadding
            else .content command remainingContent remainingPadding
          ⟨.ok (), r.got, { self with readState := state }, i'⟩
        | status => ⟨readPoll "padded content" status, [], kept, i⟩
  | .padding command remainingPadding =>
    let r := collect 1024 evs (self.source i) remainingPadding
    let i' := self.advance i r.wire
    if r.status = .done then
      let next := self.afterPadding command
      match next.1 with
      | none => pollReadLoop cap r.evs next.2.readState next.2 i'
      | some e => ⟨.err e, [], next.2, i'⟩
    else
      ⟨readPoll "padding" r.status, [],
        { self with readState := .padding command (remainingPadding - r.got.length) }, i'⟩
termination_by 4 * evs.length + state.rank
decreasing_by
  · -- a header that is not whole takes an answer
    obtain ⟨hle, hlt⟩ := collect_evs_length paddingHeaderLen evs (self.source i)
      (headerLen needUuid - h.length)
    simp only [parseHeader, ReadState.rank]
    split_ifs with hlen
    · have := hlt (by omega) _hdone
      omega
    · omega
  · exact Nat.lt_succ_self _
  · have hle := (collect_evs_length 1024 evs (self.source i) remainingPadding).1
    rw [rank_afterPadding, ReadState.rank]
    omega

/-- `VisionConn::poll_read` into a buffer with `cap` free bytes. -/
def pollRead (self : VisionConn) (cap : ℕ) (evs : List ReadEv) (i : Incoming) : Read :=
  if self.readPlain.isEmpty then pollReadLoop cap evs self.readState self i
  else
    let n := min cap self.readPlain.length
    ⟨.ok (), self.readPlain.take n, { self with readPlain := self.readPlain.drop n }, i⟩

end VisionConn

end Meow.Vless
