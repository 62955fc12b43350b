import Meow.Lib.Aead
import Meow.Lib.Counter
import Meow.Lib.Poll

/-!
# The Snell stream codecs

`snell/v3.rs` and `snell/v4.rs` encrypt a stream of bytes in records. A writer sends a salt, then
for each write the sealed lengths of a record and its sealed payload; version four puts padding in
front of the payload, swaps every other byte of the two, and lets its records grow from the size of
one packet. Both sides count their nonces up from zero.

The two versions share the reader, the staging of a record and the loop that sends it. A `Codec`
has what is different: the header of a record, the checks, and the texts of the errors.

The connection under the codec is a transport in the sense of `Lib.Poll`. Its read buffer is
part of it: it only changes how the bytes are cut up.

## Main definitions

* `Codec`, `v3`, `v4` — the two versions.
* `Writer` — the writer, with `stage` and `drainWriter`.
* `Pace` — the sizes of the records of version four.
* `ReaderState` — the reader, with `pollReadLoop`.
* `SnellInner` — a connection of either version.
-/

namespace Meow.Snell

/-! ### Constants -/

def saltSize : ℕ := 16
def nonceSize : ℕ := 12
def maxPayloadLength : ℕ := 0x3FFF
def v4FrameSize : ℕ := 1460
def v4InitialPaddingMin : ℕ := 0x100
def v4InitialPaddingSpan : ℕ := 0x100
/-- Thirty seconds, in nanoseconds. -/
def v4BurstResetAfter : ℕ := 30 * 10 ^ 9

/-! ### The two versions -/

/-- What a header says. -/
inductive Parsed where
  | bad (e : IoError)
  | zeroChunk
  | frame (paddingLen payloadLen : ℕ)
  deriving DecidableEq

/-- What is different between the versions. -/
structure Codec where
  name : String
  bodyName : String
  zeroChunkMsg : String
  headerPlainSize : ℕ
  /-- The longest padding of a record. -/
  maxPadding : ℕ
  /-- The checks before a record is staged, on the lengths of padding and payload. -/
  check : ℕ → ℕ → Option IoError
  /-- The header for the lengths of padding and payload. -/
  header : ℕ → ℕ → List UInt8
  /-- What the reader makes of a header. -/
  parse : List UInt8 → Parsed

namespace Codec

variable (codec : Codec)

/-- `*_HEADER_CIPHER_SIZE`, `V3_LENGTH_CIPHER_SIZE`. -/
def headerCipherSize : ℕ := codec.headerPlainSize + tagSize

def zeroChunkErr : IoError := ⟨.unexpectedEof, codec.zeroChunkMsg⟩

def isZeroChunk (e : IoError) : Bool := e.kind == .unexpectedEof && e.message == codec.zeroChunkMsg

def encryptFailed : IoError := ⟨.other, codec.name ++ " encrypt failed"⟩
def decryptFailed : IoError := ⟨.invalidData, codec.name ++ " decrypt failed"⟩
def shortWrite : IoError := ⟨.writeZero, codec.name ++ ": short write"⟩
def eofBeforeSalt : IoError := ⟨.unexpectedEof, codec.name ++ " EOF before salt"⟩
def eofMidHeader : IoError := ⟨.unexpectedEof, codec.name ++ " EOF mid-header"⟩
def eofMidBody : IoError := ⟨.unexpectedEof, codec.name ++ " EOF mid-" ++ codec.bodyName⟩

end Codec

/-- Version three: a header is a length, and there is no padding. -/
def v3 : Codec where
  name := "snell v3"
  bodyName := "payload"
  zeroChunkMsg := "snell v3: zero chunk"
  headerPlainSize := 2
  maxPadding := 0
  check _ payloadLen :=
    if payloadLen > maxPayloadLength then some ⟨.invalidInput, "snell v3 record too large"⟩
    else none
  header _ payloadLen := u16be payloadLen
  parse plain :=
    if plain.length ≠ 2 then .bad ⟨.invalidData, "snell v3 invalid length header"⟩
    else
      let payloadLen := ofU16be (plain.getD 0 0) (plain.getD 1 0) &&& maxPayloadLength
      if payloadLen = 0 then .zeroChunk else .frame 0 payloadLen

/-- Version four: a header is a version, two reserved bytes and two lengths. -/
def v4 : Codec where
  name := "snell v4"
  bodyName := "body"
  zeroChunkMsg := "snell: zero chunk"
  headerPlainSize := 7
  maxPadding := maxPayloadLength
  check paddingLen payloadLen :=
    if payloadLen > maxPayloadLength ∨ paddingLen > maxPayloadLength then
      some ⟨.invalidInput, "snell v4 frame too large"⟩
    else if payloadLen = 0 ∧ paddingLen ≠ 0 then
      some ⟨.invalidInput, "snell v4 zero chunk with padding"⟩
    else none
  header paddingLen payloadLen := [4, 0, 0] ++ u16be paddingLen ++ u16be payloadLen
  parse plain :=
    if plain.length ≠ 7 ∨ plain.getD 0 0 ≠ 4 then
      .bad ⟨.invalidData, "snell v4 invalid frame header"⟩
    else
      let paddingLen := ofU16be (plain.getD 3 0) (plain.getD 4 0)
      let payloadLen := ofU16be (plain.getD 5 0) (plain.getD 6 0)
      if payloadLen = 0 then
        if paddingLen ≠ 0 then .bad ⟨.invalidData, "snell v4 zero chunk with padding"⟩
        else .zeroChunk
      else if payloadLen > maxPayloadLength ∨ paddingLen > maxPayloadLength then
        .bad ⟨.invalidData, "snell v4 frame too large"⟩
      else .frame paddingLen payloadLen

/-- `swap_padding`: swap every other byte of the padding and the sealed payload. -/
def swapPadding : List UInt8 → List UInt8 → List UInt8 × List UInt8
  | p :: p' :: padding, c :: c' :: cipher =>
    let r := swapPadding padding cipher
    (c :: p' :: r.1, p :: c' :: r.2)
  | p :: padding, c :: cipher => (c :: padding, p :: cipher)
  | padding, cipher => (padding, cipher)

/-! ### Writing -/

section

variable (aead : Aead)

/-- `Writer`, without what only version four has. -/
structure Writer where
  key : aead.Key
  nonce : List UInt8
  salt : List UInt8
  saltSent : Bool
  pending : List UInt8
  pendingOff : ℕ
  pendingInput : ℕ

/-- `ReaderState`. The buffers hold what they are filled with; a body is what version three calls a
payload. -/
inductive ReaderState where
  | needSalt (saltBuf : List UInt8)
  | readingHeader (key : aead.Key) (nonce headerBuf : List UInt8)
  | readingBody (key : aead.Key) (nonce : List UInt8) (paddingLen payloadLen : ℕ)
      (bodyBuf : List UInt8)
  | drain (key : aead.Key) (nonce payload : List UInt8)

/-- What a stretch of writing did: the answer, the writer after it, the bytes that the transport
took, the record that was staged, and the nonces that were used. -/
structure Wrote (α : Type) where
  poll : Poll IoError α
  writer : Writer aead
  sent : List UInt8
  staged : Option (List UInt8)
  seals : List (List UInt8)

/-- What a read did: the answer, the bytes handed to the caller, the reader after it, the bytes not
yet read, and the nonces that were used. -/
structure Read where
  poll : Poll IoError Unit
  out : List UInt8
  reader : ReaderState aead
  wire : List UInt8
  opens : List (List UInt8)

end

variable {aead : Aead}

namespace Writer

/-- `Writer::new`, for the salt that the random source gives. -/
def new (aead : Aead) (psk salt : List UInt8) : Writer aead where
  key := aead.derive psk salt
  nonce := List.replicate nonceSize 0
  salt := salt
  saltSent := false
  pending := []
  pendingOff := 0
  pendingInput := 0

/-- The end of `stage_frame` and `stage_record`: put the record together. -/
def putFrame (self : Writer aead) (record : List UInt8) : Writer aead :=
  { self with
    pending := (if self.saltSent then [] else self.salt) ++ record
    pendingOff := 0
    saltSent := true }

/-- `stage_frame` and `stage_record`, for the bytes of padding that are chosen: the error, the
writer after it, and the nonces that were used. -/
def stage (codec : Codec) (self : Writer aead) (payload padding : List UInt8) :
    Option IoError × Writer aead × List (List UInt8) :=
  match codec.check padding.length payload.length with
  | some e => (some e, self, [])
  | none =>
    match aead.encrypt self.key self.nonce (codec.header padding.length payload.length) with
    | none => (some codec.encryptFailed, self, [])
    | some header =>
      let next := { self with nonce := incrementBytes self.nonce }
      if payload = [] then (none, next.putFrame (header ++ padding), [self.nonce])
      else
        match aead.encrypt self.key next.nonce payload with
        | none => (some codec.encryptFailed, next, [self.nonce])
        | some cipher =>
          let swapped := swapPadding padding cipher
          (none, { next with nonce := incrementBytes next.nonce }.putFrame
            (header ++ swapped.1 ++ swapped.2), [self.nonce, next.nonce])

def drainWriter (codec : Codec) (self : Writer aead) (evs : List WriteEv) : Wrote aead Unit :=
  let r := Meow.drain evs (self.pending.drop self.pendingOff)
  let next := { self with pendingOff := self.pendingOff + r.sent.length }
  match r.status with
  | .done => ⟨.ok (), { self with pending := [], pendingOff := 0 }, r.sent, none, []⟩
  | .blocked => ⟨.pending, next, r.sent, none, []⟩
  | .closed => ⟨.err codec.shortWrite, next, r.sent, none, []⟩
  | .failed => ⟨.err transportError, next, r.sent, none, []⟩

/-- A drain that reports the bytes of the caller which are in the record. -/
def drainInput (codec : Codec) (self : Writer aead) (evs : List WriteEv) : Wrote aead ℕ :=
  let r := self.drainWriter codec evs
  match r.poll with
  | .pending => ⟨.pending, r.writer, r.sent, none, []⟩
  | .err e => ⟨.err e, r.writer, r.sent, none, []⟩
  | .ok _ => ⟨.ok r.writer.pendingInput, { r.writer with pendingInput := 0 }, r.sent, none, []⟩

/-- `poll_write` of both versions, for the part of the buffer and the padding that they choose. -/
def pollWrite (codec : Codec) (self : Writer aead) (evs : List WriteEv)
    (chunk padding : List UInt8) : Wrote aead ℕ :=
  if self.pendingOff < self.pending.length then self.drainInput codec evs
  else
    match stage codec { self with pendingInput := chunk.length } chunk padding with
    | (some e, next, seals) => ⟨.err e, next, [], none, seals⟩
    | (none, next, seals) =>
      { next.drainInput codec evs with staged := some next.pending, seals := seals }

/-- `poll_flush` and `poll_shutdown` of both versions: write out the pending record, then flush or
shut down the connection under the codec, which answers `inner`. -/
def pollFlush (codec : Codec) (self : Writer aead) (evs : List WriteEv)
    (inner : Poll IoError Unit) : Wrote aead Unit :=
  if self.pendingOff < self.pending.length then
    let r := self.drainWriter codec evs
    match r.poll with
    | .pending => ⟨.pending, r.writer, r.sent, none, []⟩
    | .err e => ⟨.err e, r.writer, r.sent, none, []⟩
    | .ok _ => ⟨inner, r.writer, r.sent, none, []⟩
  else ⟨inner, self, [], none, []⟩

end Writer

/-! ### The sizes of version four -/

/-- The part of `Writer` that only version four has, with the bounds of its fields. -/
structure Pace where
  initialPaddingLength : ℕ
  payloadLimit : ℕ
  lastWrite : Option ℕ
  le_initial : v4InitialPaddingMin ≤ initialPaddingLength
  initial_lt : initialPaddingLength < v4InitialPaddingMin + v4InitialPaddingSpan
  limit_le : payloadLimit ≤ maxPayloadLength
  limit_pos : lastWrite ≠ none → 0 < payloadLimit

namespace Pace

/-- The pace of a new writer, for the number that the random source gives. -/
def new (random : ℕ) : Pace where
  initialPaddingLength := v4InitialPaddingMin + random % v4InitialPaddingSpan
  payloadLimit := 0
  lastWrite := none
  le_initial := Nat.le_add_right _ _
  initial_lt := Nat.add_lt_add_left (Nat.mod_lt _ (by decide)) _
  limit_le := Nat.zero_le _
  limit_pos h := absurd rfl h

/-- The limit of the next payload: `next_payload_limit` before its updates. -/
def limitAt (self : Pace) (now : ℕ) : ℕ :=
  match self.lastWrite with
  | none => v4FrameSize - 55 - self.initialPaddingLength
  | some t => if now - t > v4BurstResetAfter then v4FrameSize - 39 else self.payloadLimit

lemma limitAt_bounds (self : Pace) (now : ℕ) :
    0 < self.limitAt now ∧ self.limitAt now ≤ maxPayloadLength := by
  have hlt := self.initial_lt
  have hle := self.limit_le
  unfold limitAt
  unfold v4InitialPaddingMin v4InitialPaddingSpan at hlt
  unfold maxPayloadLength at hle ⊢
  unfold v4FrameSize
  split
  · omega
  · rename_i t ht
    have hpos := self.limit_pos (by rw [ht]; exact Option.some_ne_none t)
    split_ifs
    · omega
    · omega

/-- `next_payload_limit`, at a reading of the clock. -/
def nextPayloadLimit (self : Pace) (now : ℕ) : ℕ × Pace :=
  let limit := self.limitAt now
  (limit,
    { self with
      lastWrite := some now
      payloadLimit :=
        if limit < maxPayloadLength then min (limit + v4FrameSize - 39) maxPayloadLength
        else maxPayloadLength
      limit_le := by split_ifs <;> omega
      limit_pos := fun _ => by
        unfold maxPayloadLength v4FrameSize
        split_ifs <;> omega })

def nextFramePaddingLength (self : Pace) (saltSent : Bool) (payloadLength : ℕ) : ℕ :=
  if saltSent || payloadLength == 0 then 0 else self.initialPaddingLength

end Pace

/-- `make_v4_padding`: as many bytes as asked for. They are random, or they balance the bits of the
sealed payload; here they are any bytes. -/
def makeV4Padding (bytes : ℕ → UInt8) (paddingLength : ℕ) : List UInt8 :=
  (List.range paddingLength).map bytes

/-! ### Reading -/

open ReaderState

/-- How far a state is from one that has to wait for a byte. -/
def ReaderState.rank : ReaderState aead → ℕ
  | .needSalt _ => 3
  | .readingBody _ _ _ _ _ => 2
  | .drain _ _ _ => 1
  | .readingHeader _ _ _ => 0

/-- The answer of a read loop that ended with `status`, and with `eof` at the end of the stream. -/
def stopPoll (eof : Poll IoError Unit) : Status → Poll IoError Unit
  | .done => .ok ()
  | .blocked => .pending
  | .closed => eof
  | .failed => .err transportError

/-- The loop of `poll_read` into a buffer with `cap` free bytes. -/
def pollReadLoop (codec : Codec) (psk : List UInt8) (cap : ℕ) (evs : List ReadEv)
    (reader : ReaderState aead) (wire : List UInt8) : Read aead :=
  match reader with
  | .needSalt saltBuf =>
    let r := collect saltSize evs wire (saltSize - saltBuf.length)
    if r.status = .done then
      pollReadLoop codec psk cap r.evs
        (.readingHeader (aead.derive psk (saltBuf ++ r.got)) (List.replicate nonceSize 0) []) r.wire
    else
      ⟨stopPoll (.err codec.eofBeforeSalt) r.status, [], .needSalt (saltBuf ++ r.got), r.wire, []⟩
  | .drain key nonce payload =>
    if payload = [] then pollReadLoop codec psk cap evs (.readingHeader key nonce []) wire
    else ⟨.ok (), payload.take cap, .drain key nonce (payload.drop cap), wire, []⟩
  | .readingHeader key nonce headerBuf =>
    if codec.headerCipherSize ≤ headerBuf.length then
      -- a header that could not be opened: there is no room in the buffer to read more
      let r := readOnce 0 evs wire
      if r.status = .done then ⟨.err codec.eofMidHeader, [], reader, wire, []⟩
      else ⟨stopPoll (.err codec.eofMidHeader) r.status, [], reader, wire, []⟩
    else
      let r := collect codec.headerCipherSize evs wire
        (codec.headerCipherSize - headerBuf.length)
      if _hdone : r.status = .done then
        match aead.decrypt key nonce (headerBuf ++ r.got) with
        | none =>
          ⟨.err codec.decryptFailed, [], .readingHeader key nonce (headerBuf ++ r.got), r.wire, []⟩
        | some plain =>
          let next := incrementBytes nonce
          match codec.parse plain with
          | .bad e =>
            ⟨.err e, [], .readingHeader key next (headerBuf ++ r.got), r.wire, [nonce]⟩
          | .zeroChunk => ⟨.err codec.zeroChunkErr, [], .readingHeader key next [], r.wire, [nonce]⟩
          | .frame paddingLen payloadLen =>
            let read := pollReadLoop codec psk cap r.evs
              (.readingBody key next paddingLen payloadLen []) r.wire
            { read with opens := nonce :: read.opens }
      else
        let eof := if headerBuf ++ r.got = [] then .ok () else .err codec.eofMidHeader
        ⟨stopPoll eof r.status, [], .readingHeader key nonce (headerBuf ++ r.got), r.wire, []⟩
  | .readingBody key nonce paddingLen payloadLen bodyBuf =>
    let r := collect (paddingLen + payloadLen + tagSize) evs wire
      (paddingLen + payloadLen + tagSize - bodyBuf.length)
    let body := bodyBuf ++ r.got
    if r.status = .done then
      let swapped := swapPadding (body.take paddingLen) (body.drop paddingLen)
      match aead.decrypt key nonce swapped.2 with
      | none =>
        ⟨.err codec.decryptFailed, [],
          .readingBody key nonce paddingLen payloadLen (swapped.1 ++ swapped.2), r.wire, []⟩
      | some payload =>
        let read := pollReadLoop codec psk cap r.evs (.drain key (incrementBytes nonce) payload)
          r.wire
        { read with opens := nonce :: read.opens }
    else
      ⟨stopPoll (.err codec.eofMidBody) r.status, [],
        .readingBody key nonce paddingLen payloadLen body, r.wire, []⟩
termination_by 4 * evs.length + reader.rank
decreasing_by
  · have hle := (collect_evs_length saltSize evs wire (saltSize - saltBuf.length)).1
    simp only [rank]
    omega
  · exact Nat.lt_succ_self _
  · -- a header that is not whole takes an answer
    have hlt := (collect_evs_length codec.headerCipherSize evs wire
      (codec.headerCipherSize - headerBuf.length)).2 (by omega) _hdone
    simp only [rank]
    omega
  · have hle := (collect_evs_length (paddingLen + payloadLen + tagSize) evs wire
      (paddingLen + payloadLen + tagSize - bodyBuf.length)).1
    simp only [rank]
    omega

/-! ### Connections -/

structure V3Conn (aead : Aead) where
  psk : List UInt8
  writer : Writer aead
  reader : ReaderState aead

structure V4Conn (aead : Aead) where
  psk : List UInt8
  writer : Writer aead
  pace : Pace
  reader : ReaderState aead

inductive SnellInner (aead : Aead) where
  | v3 (conn : V3Conn aead)
  | v4 (conn : V4Conn aead)

/-- What a write of version four finds: the reading of the clock, and the bytes of padding. -/
structure Choice where
  now : ℕ
  padding : ℕ → UInt8

/-- The part of the buffer and the padding that `V3Conn::poll_write` stages. -/
def V3Conn.chunk (buf : List UInt8) : List UInt8 := buf.take (min buf.length maxPayloadLength)

def V3Conn.pollWrite (self : V3Conn aead) (buf : List UInt8) (evs : List WriteEv) :
    Wrote aead ℕ × V3Conn aead :=
  let r := self.writer.pollWrite v3 evs (V3Conn.chunk buf) []
  (r, { self with writer := r.writer })

/-- The part of the buffer that `V4Conn::poll_write` stages, within the limit. -/
def V4Conn.chunk (buf : List UInt8) (limit : ℕ) : List UInt8 :=
  let limit := if limit = 0 ∨ limit > maxPayloadLength then maxPayloadLength else limit
  buf.take (min buf.length limit)

/-- `V4Conn::poll_write`. The pace changes only when a record with a payload is staged. -/
def V4Conn.pollWrite (self : V4Conn aead) (buf : List UInt8) (evs : List WriteEv)
    (choice : Choice) : Wrote aead ℕ × V4Conn aead :=
  if self.writer.pendingOff < self.writer.pending.length ∨ buf = [] then
    let r := self.writer.pollWrite Snell.v4 evs [] []
    (r, { self with writer := r.writer })
  else
    let (limit, pace) := self.pace.nextPayloadLimit choice.now
    let chunk := V4Conn.chunk buf limit
    let padding := makeV4Padding choice.padding
      (pace.nextFramePaddingLength self.writer.saltSent chunk.length)
    let r := self.writer.pollWrite Snell.v4 evs chunk padding
    (r, { self with writer := r.writer, pace := pace })

namespace SnellInner

/-- The version. -/
def codec : SnellInner aead → Codec
  | .v3 _ => Snell.v3
  | .v4 _ => Snell.v4

def psk : SnellInner aead → List UInt8
  | .v3 conn => conn.psk
  | .v4 conn => conn.psk

def writer : SnellInner aead → Writer aead
  | .v3 conn => conn.writer
  | .v4 conn => conn.writer

def reader : SnellInner aead → ReaderState aead
  | .v3 conn => conn.reader
  | .v4 conn => conn.reader

def withWriter (self : SnellInner aead) (writer : Writer aead) : SnellInner aead :=
  match self with
  | .v3 conn => .v3 { conn with writer := writer }
  | .v4 conn => .v4 { conn with writer := writer }

def withReader (self : SnellInner aead) (reader : ReaderState aead) : SnellInner aead :=
  match self with
  | .v3 conn => .v3 { conn with reader := reader }
  | .v4 conn => .v4 { conn with reader := reader }

/-- `V3Conn::new`, for the salt that the random source gives. -/
def newV3 (aead : Aead) (psk salt : List UInt8) : SnellInner aead :=
  .v3 ⟨psk, .new aead psk salt, .needSalt []⟩

/-- `V4Conn::new`, for the salt and the number that the random source gives. -/
def newV4 (aead : Aead) (psk salt : List UInt8) (random : ℕ) : SnellInner aead :=
  .v4 ⟨psk, .new aead psk salt, .new random, .needSalt []⟩

/-- `poll_write_inner`. -/
def pollWrite (self : SnellInner aead) (buf : List UInt8) (evs : List WriteEv)
    (choice : Choice) : Wrote aead ℕ × SnellInner aead :=
  match self with
  | .v3 conn =>
    let r := conn.pollWrite buf evs
    (r.1, .v3 r.2)
  | .v4 conn =>
    let r := conn.pollWrite buf evs choice
    (r.1, .v4 r.2)

/-- `poll_flush_inner` and `poll_shutdown_inner`. -/
def pollFlush (self : SnellInner aead) (evs : List WriteEv) (inner : Poll IoError Unit) :
    Wrote aead Unit × SnellInner aead :=
  let r := self.writer.pollFlush self.codec evs inner
  (r, self.withWriter r.writer)

/-- `poll_read_inner` into a buffer with `cap` free bytes. -/
def pollRead (self : SnellInner aead) (cap : ℕ) (evs : List ReadEv) (wire : List UInt8) :
    Read aead × SnellInner aead :=
  let r := pollReadLoop self.codec self.psk cap evs self.reader wire
  (r, self.withReader r.reader)

end SnellInner

end Meow.Snell
