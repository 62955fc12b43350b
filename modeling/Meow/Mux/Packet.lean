import Meow.Lib.Framing
import Meow.Lib.Transport

/-!
# UDP over a mux stream

`mux/packet.rs` carries the datagrams of one UDP flow over a mux stream, each behind a
big-endian sixteen-bit length. Both halves are written for futures that are dropped at an await
point and made anew: the reader keeps how much of the length and of the payload it has, the
writer keeps the frame it is sending and how much of it is out.

The mux stream under the connection is a transport in the sense of `Lib.Transport`: an
operation whose answers run out is one whose future is dropped there.

## Main definitions

* `PacketWriter`, `PacketWriter.writeDatagram`, `PacketWriter.drainPending` — the sending half.
* `PacketReader`, `PacketReader.readDatagram` — the receiving half.
* `Flow`, `Op`, `Flow.run` — a writer, the bytes in flight, the
  reader at the other end, and the calls made on them.
* `Selected` — the datagrams of a series of write calls that were sent: those of all
  calls that returned, and of any of the others.

## Main results

* `WriterInv.writeDatagram` — what a write call, cut off anywhere, leaves on the wire.
* `ReaderInv.readDatagram` — what a read call, cut off anywhere, takes from the wire.
* `run_frames_delivered` — whole datagrams, in call order, on the wire and out of the reader.
-/

namespace Meow.Mux

open List Option

/-! ### Errors -/

/-- The `std::io::ErrorKind`s the two halves make, and the transport's own errors. -/
inductive IoErrorKind where
  | unexpectedEof
  | writeZero
  | transport
  deriving DecidableEq

/-- The variants of `MeowError` that the connection returns. -/
inductive MeowError where
  | proxy (message : String)
  | io (kind : IoErrorKind) (message : String)
  deriving DecidableEq

/-- How a call ended: its future was dropped, or it returned. -/
inductive Outcome (α : Type) where
  | cancelled
  | err (e : MeowError)
  | ok (a : α)
  deriving DecidableEq

/-- An error of the stream itself. -/
def streamError : MeowError := .io .transport ""

/-! ### The writer -/

/-- `PacketWriter`: the frame being sent, with the number of its bytes already written. -/
structure PacketWriter where
  pending : Option (List UInt8 × ℕ)
  deriving DecidableEq

def PacketWriter.new : PacketWriter := ⟨none⟩

/-- What a stretch of writing did: how it ended, the writer after it, the bytes the stream took,
and the answers it did not use. -/
structure Wrote where
  status : Status
  writer : PacketWriter
  sent : List UInt8
  evs : List WriteEv
  deriving DecidableEq

/-- `PacketWriter::drain_pending`: write the pending frame to its end. The offset moves with
each write, so it is right wherever the loop is cut off. -/
def PacketWriter.drainPending (w : PacketWriter) (evs : List WriteEv) : Wrote :=
  match w.pending with
  | none => ⟨.done, w, [], evs⟩
  | some (frame, offset) =>
    let r := drain evs (frame.drop offset)
    match r.status with
    | .done => ⟨.done, ⟨none⟩, r.sent, r.evs⟩
    | status => ⟨status, ⟨some (frame, offset + r.sent.length)⟩, r.sent, r.evs⟩

/-- The frame of a datagram: `put_u16(data.len() as u16)`, `put_slice(data)`. -/
def frame (data : List UInt8) : List UInt8 := u16be data.length ++ data

/-- The first part of `PacketWriter::write_datagram`: deal with a frame that an earlier call left
behind. The same datagram is resumed, an uncommitted one is dropped, a committed one is
completed. -/
def PacketWriter.recover (w : PacketWriter) (data : List UInt8) (evs : List WriteEv) : Wrote :=
  match w.pending with
  | none => ⟨.done, w, [], evs⟩
  | some (frame, offset) =>
    if frame.drop 2 ≠ data then
      if offset = 0 then ⟨.done, ⟨none⟩, [], evs⟩ else w.drainPending evs
    else ⟨.done, w, [], evs⟩

/-- The second part: frame the datagram unless its frame is already pending. -/
def PacketWriter.prepare (w : PacketWriter) (data : List UInt8) : PacketWriter :=
  match w.pending with
  | none => ⟨some (frame data, 0)⟩
  | some _ => w

/-- The error of a write loop that ended with `status`, or the cancellation of the call. -/
def writeOutcome : Status → Outcome Unit
  | .done => .ok ()
  | .blocked => .cancelled
  | .closed => .err (.io .writeZero "mux: zero-length write during datagram send")
  | .failed => .err streamError

/-- `stream.flush().await`: still waiting, an error, or done. -/
def flushOutcome : Option Bool → Outcome Unit
  | none => .cancelled
  | some false => .err streamError
  | some true => .ok ()

/-- `PacketWriter::write_datagram`, with the stream's answers to the writes and to the flush. -/
def PacketWriter.writeDatagram (w : PacketWriter) (data : List UInt8) (evs : List WriteEv)
    (flush : Option Bool) : Outcome Unit × PacketWriter × List UInt8 :=
  let r := w.recover data evs
  match r.status with
  | .done =>
    let s := (r.writer.prepare data).drainPending r.evs
    match s.status with
    | .done => (flushOutcome flush, s.writer, r.sent ++ s.sent)
    | status => (writeOutcome status, s.writer, r.sent ++ s.sent)
  | status => (writeOutcome status, r.writer, r.sent)

/-- The text of the error for a datagram that sixteen bits cannot measure. -/
def tooLongMessage (len : ℕ) : String :=
  "mux: UDP packet (" ++ toString len ++ " bytes) exceeds u16 framing"

/-- `MuxPacketConn::write_datagram`. `locked` says whether the call got the writer's lock before
its future was dropped. -/
def connWriteDatagram (w : PacketWriter) (data : List UInt8) (locked : Bool)
    (evs : List WriteEv) (flush : Option Bool) : Outcome ℕ × PacketWriter × List UInt8 :=
  if data.length > 65535 then (.err (.proxy (tooLongMessage data.length)), w, [])
  else if locked then
    match w.writeDatagram data evs flush with
    | (.ok (), w', sent) => (.ok data.length, w', sent)
    | (.err e, w', sent) => (.err e, w', sent)
    | (.cancelled, w', sent) => (.cancelled, w', sent)
  else (.cancelled, w, [])

/-! ### The reader -/

/-- `PacketReader`: the length field and the payload, each with the number of bytes read. -/
structure PacketReader where
  len : List UInt8
  lenPos : ℕ
  payload : List UInt8
  payloadPos : ℕ
  deriving DecidableEq

open PacketReader

def PacketReader.new : PacketReader := ⟨[0, 0], 0, [], 0⟩

def PacketReader.reset (r : PacketReader) : PacketReader :=
  { r with lenPos := 0, payload := [], payloadPos := 0 }

/-- `u16::from_be_bytes(self.len)`. -/
def PacketReader.packetLen (r : PacketReader) : ℕ := ofU16be (r.len.getD 0 0) (r.len.getD 1 0)

/-- The error of a read loop that ended with `status`, or the cancellation of the call. -/
def readOutcome (what : String) : Status → Outcome ℕ
  | .failed => .err streamError
  | .closed => .err (.io .unexpectedEof ("mux: EOF while reading UDP packet " ++ what))
  | _ => .cancelled

/-- The text of the error for a datagram that does not fit the caller's buffer. -/
def tooLargeMessage (packetLen outLen : ℕ) : String :=
  "mux: UDP packet (" ++ toString packetLen ++ " bytes) exceeds read buffer (" ++
    toString outLen ++ " bytes)"

/-- What a read call did: its outcome, the reader and the caller's buffer after it, and the
bytes still in flight. -/
structure Read where
  outcome : Outcome ℕ
  reader : PacketReader
  out : List UInt8
  wire : List UInt8
  deriving DecidableEq

/-- The end of `PacketReader::read_datagram`: hand the complete payload to the caller. -/
def PacketReader.finish (r : PacketReader) (out wire : List UInt8) : Read :=
  let packetLen := r.payload.length
  if packetLen > out.length then
    ⟨.err (.proxy (tooLargeMessage packetLen out.length)), r.reset, out, wire⟩
  else ⟨.ok packetLen, r.reset, store out 0 r.payload, wire⟩

/-- `self.payload.resize(len, 0)`, unless the payload is already being read. -/
def PacketReader.resize (r : PacketReader) : PacketReader :=
  if r.payload = [] ∧ r.payloadPos = 0 then
    { r with payload := List.replicate r.packetLen 0 }
  else r

/-- The payload loop of `PacketReader::read_datagram`. -/
def PacketReader.readPayload (r : PacketReader) (out wire : List UInt8) (evs : List ReadEv) :
    Read :=
  let f := fill evs wire r.payload r.payloadPos
  let r' := { r with payload := f.buf, payloadPos := f.pos }
  match f.status with
  | .done => r'.finish out f.wire
  | status => ⟨readOutcome "payload" status, r', out, f.wire⟩

/-- `PacketReader::read_datagram` into the caller's buffer `out`. -/
def PacketReader.readDatagram (r : PacketReader) (out wire : List UInt8) (evs : List ReadEv) :
    Read :=
  let f := fill evs wire r.len r.lenPos
  let r' := { r with len := f.buf, lenPos := f.pos }
  match f.status with
  | .done => r'.resize.readPayload out f.wire f.evs
  | status => ⟨readOutcome "length" status, r', out, f.wire⟩

/-! ### One direction of a flow -/

/-- A flow in one direction: the writer, everything the stream has taken from it, the part of
that still in flight, the reader at the other end, and the calls made on both with their
outcomes. A read is logged with the size of the caller's buffer and the bytes it handed out. -/
structure Flow where
  writer : PacketWriter
  sent : List UInt8
  wire : List UInt8
  reader : PacketReader
  calls : List (List UInt8 × Outcome ℕ)
  reads : List (ℕ × Outcome (List UInt8))
  deriving DecidableEq

/-- A call on either end, with the answers it will get. A read dropped while it waits for the
reader's lock is one that gets no answer. -/
inductive Op where
  | write (data : List UInt8) (locked : Bool) (evs : List WriteEv) (flush : Option Bool)
  | read (out : List UInt8) (evs : List ReadEv)

open Flow

/-- A flow before its first call. -/
def Flow.new : Flow := ⟨.new, [], [], .new, [], []⟩

/-- What the caller of a read sees: the first `n` bytes of its buffer on `Ok(n)`. -/
def Read.seen (r : Read) : Outcome (List UInt8) :=
  match r.outcome with
  | .ok n => .ok (r.out.take n)
  | .err e => .err e
  | .cancelled => .cancelled

/-- One call. -/
def Flow.step (s : Flow) : Op → Flow
  | .write data locked evs flush =>
    let r := connWriteDatagram s.writer data locked evs flush
    { s with
      writer := r.2.1
      sent := s.sent ++ r.2.2
      wire := s.wire ++ r.2.2
      calls := s.calls ++ [(data, r.1)] }
  | .read out evs =>
    let r := s.reader.readDatagram out s.wire evs
    { s with
      reader := r.reader
      wire := r.wire
      reads := s.reads ++ [(out.length, r.seen)] }

/-- A series of calls on a new flow. -/
def Flow.run (ops : List Op) : Flow := ops.foldl Flow.step .new

/-! ### What a flow is for -/

/-- Did the call return `Ok`? -/
def Outcome.isOk {α : Type} : Outcome α → Bool
  | .ok _ => true
  | _ => false

/-- The datagrams of a series of write calls that were sent, in call order: each fits its length
field, and the datagram of every call that returned `Ok` is among them. -/
inductive Selected : List (List UInt8 × Outcome ℕ) → List (List UInt8) → Prop where
  | nil : Selected [] []
  | keep {calls ds data} (o : Outcome ℕ) :
      Selected calls ds → data.length ≤ 65535 → Selected (calls ++ [(data, o)]) (ds ++ [data])
  | skip {calls ds} (data : List UInt8) {o : Outcome ℕ} :
      Selected calls ds → o.isOk = false → Selected (calls ++ [(data, o)]) ds

/-- What a read with a buffer of `cap` bytes reports of a datagram: the datagram, or that it is
too large. -/
def deliver (cap : ℕ) (data : List UInt8) : Outcome (List UInt8) :=
  if data.length > cap then .err (.proxy (tooLargeMessage data.length cap)) else .ok data

/-- Did the read use up a datagram? Those that were dropped or met an error of the stream did
not. -/
def Outcome.usedUp : Outcome (List UInt8) → Bool
  | .ok _ => true
  | .err (.proxy _) => true
  | _ => false

/-- `Delivered reads ds`: the reads that used up a datagram reported those of `ds`, one each. -/
def Delivered (reads : List (ℕ × Outcome (List UInt8))) (ds : List (List UInt8)) : Prop :=
  List.Forall₂ (fun r d => r.2 = deliver r.1 d) (reads.filter fun r => r.2.usedUp) ds

/-! ### The frame format -/

@[simp] lemma length_frame (data : List UInt8) : (frame data).length = data.length + 2 := by
  simp only [frame, length_append, length_u16be]
  omega

@[simp] lemma drop_frame (data : List UInt8) : (frame data).drop 2 = data := rfl

lemma frame_injective : Function.Injective frame := fun a b h => by
  rw [← drop_frame a, h, drop_frame]

/-- Datagrams that fit their length field are told apart by their frames, whatever follows. -/
lemma frame_selfDelimiting : SelfDelimiting frame fun d => d.length ≤ 65535 where
  ne_nil d _ h := by simpa using congrArg length h
  inj a b u v ha hb h := by
    simp only [frame, u16be, cons_append, cons.injEq] at h
    obtain ⟨h1, h2, h3⟩ := h
    have hlen : a.length = b.length := by
      rw [← ofU16be_u16be (show a.length < 65536 by omega), h1, h2,
        ofU16be_u16be (show b.length < 65536 by omega)]
    exact (append_inj h3 hlen).1

/-- The datagrams that were sent fit their length fields. -/
lemma Selected.fits {calls ds} (h : Selected calls ds) : ∀ d ∈ ds, d.length ≤ 65535 := by
  induction h with
  | nil => simp
  | keep o _ hfit ih => exact forall_mem_append.mpr ⟨ih, forall_mem_singleton.mpr hfit⟩
  | skip _ _ _ ih => exact ih

/-! ### The writer's invariant -/

/-- What the writer's state says about the bytes it has sent. Between frames these are whole
frames. While the frame of `d` is out up to `offset`, the call it came from has not returned, so
that both with and without `d` the datagrams sent account for all calls that have. -/
inductive WriterInv (calls : List (List UInt8 × Outcome ℕ)) (sent : List UInt8) :
    PacketWriter → Prop where
  | idle {ds} (hsel : Selected calls ds) (hsent : sent = ds.flatMap frame) :
      WriterInv calls sent ⟨none⟩
  | sending {ds d offset} (hsel : Selected calls ds) (hseld : Selected calls (ds ++ [d]))
      (hoff : offset < (frame d).length)
      (hsent : sent = ds.flatMap frame ++ (frame d).take offset) :
      WriterInv calls sent ⟨some (frame d, offset)⟩

/-- A call that did not return, and did not touch the writer, changes nothing. -/
lemma WriterInv.skip {calls sent w} (h : WriterInv calls sent w) (data : List UInt8)
    {o : Outcome ℕ} (ho : o.isOk = false) : WriterInv (calls ++ [(data, o)]) sent w := by
  cases h with
  | idle hsel hsent => exact .idle (hsel.skip data ho) hsent
  | sending hsel hseld hoff hsent =>
    exact .sending (hsel.skip data ho) (hseld.skip data ho) hoff hsent

/-- **The drain loop.** Cut off or not, it has sent the frame from the old offset to the new
one, and it ends well exactly when the frame is out. -/
lemma WriterInv.drainPending {calls sent ds d} {offset evs}
    (hsent : sent = ds.flatMap frame ++ (frame d).take offset)
    (hseld : Selected calls (ds ++ [d])) :
    let r := (⟨some (frame d, offset)⟩ : PacketWriter).drainPending evs
    (r.status ≠ .done → Selected calls ds) →
      WriterInv calls (sent ++ r.sent) r.writer ∧ (r.status = .done → r.writer.pending = none) := by
  have hsplit := drain_sent_rest evs ((frame d).drop offset)
  have hdone := drain_done_iff evs ((frame d).drop offset)
  simp only [PacketWriter.drainPending]
  generalize drain evs ((frame d).drop offset) = r at hsplit hdone
  obtain ⟨status, out, rest, evs'⟩ := r
  have hcut : status ≠ .done → Selected calls ds →
      WriterInv calls (sent ++ out) ⟨some (frame d, offset + out.length)⟩ := by
    intro hst hsel
    have hlen : 0 < rest.length := length_pos_iff.mpr fun h => hst (hdone.mpr h)
    have hcount : out.length + rest.length = (frame d).length - offset := by
      rw [← length_append, hsplit, length_drop]
    refine .sending hsel hseld (by omega) ?_
    rw [hsent, append_assoc, take_add, ← hsplit, take_left]
  cases status with
  | done =>
    have hout : out = (frame d).drop offset := by rw [← hsplit, hdone.mp rfl, append_nil]
    refine fun _ => ⟨.idle hseld ?_, fun _ => rfl⟩
    rw [hsent, append_assoc, hout, take_append_drop, flatMap_append, flatMap_singleton]
  | blocked | closed | failed => exact fun hsel => ⟨hcut (by simp) (hsel (by simp)), nofun⟩

/-- Dealing with a frame left behind keeps the invariant; if it ends well, nothing is pending or
the very datagram of this call is. -/
lemma WriterInv.recover {calls sent w} (h : WriterInv calls sent w) (data : List UInt8)
    (evs : List WriteEv) :
    WriterInv calls (sent ++ (w.recover data evs).sent) (w.recover data evs).writer ∧
      ((w.recover data evs).status = .done → (w.recover data evs).writer.pending = none ∨
        ∃ offset, (w.recover data evs).writer.pending = some (frame data, offset)) := by
  cases h with
  | idle hsel hsent =>
    refine ⟨?_, fun _ => .inl rfl⟩
    simpa [PacketWriter.recover] using idle hsel hsent
  | @sending ds d offset hsel hseld hoff hsent =>
    by_cases hd : d = data
    · -- a retry of the same datagram
      subst hd
      simp only [PacketWriter.recover, drop_frame, ne_eq, not_true_eq_false, if_false, append_nil]
      exact ⟨.sending hsel hseld hoff hsent, fun _ => .inr ⟨offset, rfl⟩⟩
    · by_cases hzero : offset = 0
      · -- nothing of the stale frame is out: it is dropped
        subst hzero
        simp only [PacketWriter.recover, drop_frame, ne_eq, hd, not_false_eq_true, if_true]
        exact ⟨.idle hsel (by simpa using hsent), fun _ => .inl trivial⟩
      · -- the stale frame is committed: it is completed first
        simp only [PacketWriter.recover, drop_frame, ne_eq, hd, not_false_eq_true, if_true,
          hzero, if_false]
        obtain ⟨hinv, hnone⟩ := drainPending hsent hseld fun _ => hsel
        exact ⟨hinv, fun hdone => .inl (hnone hdone)⟩

/-- Once a datagram is framed it is sent as far as the stream lets it, and the call is on
record. The call may have returned only if the whole frame is out. -/
lemma WriterInv.prepare_drain {calls sent w} (h : WriterInv calls sent w) {data : List UInt8}
    (hfit : data.length ≤ 65535) (evs : List WriteEv)
    (hpend : w.pending = none ∨ ∃ offset, w.pending = some (frame data, offset))
    {o : Outcome ℕ} (ho : ((w.prepare data).drainPending evs).status ≠ .done → o.isOk = false) :
    WriterInv (calls ++ [(data, o)]) (sent ++ ((w.prepare data).drainPending evs).sent)
        ((w.prepare data).drainPending evs).writer ∧
      (((w.prepare data).drainPending evs).status = .done →
        ((w.prepare data).drainPending evs).writer.pending = none) := by
  -- in either case the frame of `data` is pending, behind whole frames
  obtain ⟨ds, offset, hw, hsel, hsent⟩ : ∃ ds offset,
      w.prepare data = ⟨some (frame data, offset)⟩ ∧ Selected calls ds ∧
        sent = ds.flatMap frame ++ (frame data).take offset := by
    cases h with
    | @idle ds hsel hsent => exact ⟨ds, 0, rfl, hsel, by simpa using hsent⟩
    | @sending ds d offset hsel hseld hoff hsent =>
      rcases hpend with hnone | ⟨offset', hsome⟩
      · simp at hnone
      · simp only [some.injEq, Prod.mk.injEq] at hsome
        have hd : d = data := frame_injective hsome.1
        subst hd
        exact ⟨ds, offset, rfl, hsel, hsent⟩
  rw [hw] at ho ⊢
  exact drainPending hsent (hsel.keep o hfit) fun hst => hsel.skip data (ho hst)

/-- **A write call.** Wherever it is cut off, the writer's invariant holds with the call on
record, and a call that returned has left nothing pending. -/
lemma WriterInv.writeDatagram {calls sent w} (h : WriterInv calls sent w) (data : List UInt8)
    (locked : Bool) (evs : List WriteEv) (flush : Option Bool) :
    let r := connWriteDatagram w data locked evs flush
    WriterInv (calls ++ [(data, r.1)]) (sent ++ r.2.2) r.2.1 ∧
      (r.1.isOk → r.2.1.pending = none) := by
  by_cases hlong : data.length > 65535
  · simp only [connWriteDatagram, if_pos hlong, append_nil]
    exact ⟨h.skip data rfl, nofun⟩
  have hfit : data.length ≤ 65535 := by omega
  cases locked with
  | false =>
    simp only [connWriteDatagram, if_neg hlong, Bool.false_eq_true, if_false, append_nil]
    exact ⟨h.skip data rfl, nofun⟩
  | true =>
    obtain ⟨hrec, hpend⟩ := h.recover data evs
    simp only [connWriteDatagram, if_neg hlong]
    generalize hr : w.recover data evs = r at hrec hpend
    obtain ⟨st, w1, sent1, evs1⟩ := r
    cases st with
    | done =>
      have hpd := fun o => hrec.prepare_drain hfit evs1 (hpend rfl) (o := o)
      generalize hs : (w1.prepare data).drainPending evs1 = s at hpd
      obtain ⟨st2, w2, sent2, evs2⟩ := s
      simp only [append_assoc] at hpd
      cases st2 with
      | done =>
        have hidle := (hpd .cancelled (by simp)).2 rfl
        rcases flush with - | (- | -) <;>
          simp only [PacketWriter.writeDatagram, hr, hs] <;>
          exact ⟨(hpd _ (by simp)).1, fun _ => hidle⟩
      | blocked | closed | failed =>
        simp only [PacketWriter.writeDatagram, hr, hs, writeOutcome]
        exact ⟨(hpd _ fun _ => rfl).1, nofun⟩
    | blocked | closed | failed =>
      simp only [PacketWriter.writeDatagram, hr, writeOutcome]
      exact ⟨hrec.skip data rfl, nofun⟩

/-! ### The reader's invariant -/

/-- What the reader's state says about the bytes it has taken: whole frames, all of them
delivered, and then a part of a frame, which is never a whole one. -/
inductive ReaderInv (reads : List (ℕ × Outcome (List UInt8))) (taken : List UInt8) :
    PacketReader → Prop where
  | inLength {xs : List (List UInt8)} {len : List UInt8} {lenPos : ℕ}
      (hdel : Delivered reads xs) (hfit : ∀ d ∈ xs, d.length ≤ 65535)
      (hlen : len.length = 2) (hpos : lenPos < 2)
      (htaken : taken = xs.flatMap frame ++ len.take lenPos) :
      ReaderInv reads taken ⟨len, lenPos, [], 0⟩
  | inPayload {xs : List (List UInt8)} {a b : UInt8} {payload : List UInt8} {payloadPos : ℕ}
      (hdel : Delivered reads xs) (hfit : ∀ d ∈ xs, d.length ≤ 65535)
      (hlen : payload.length = ofU16be a b) (hpos : payloadPos < payload.length)
      (htaken : taken = xs.flatMap frame ++ ([a, b] ++ payload.take payloadPos)) :
      ReaderInv reads taken ⟨[a, b], 2, payload, payloadPos⟩

/-- A read that used up no datagram can be left out of the record. -/
lemma Delivered.skip {reads xs} (h : Delivered reads xs) (cap : ℕ) {o : Outcome (List UInt8)}
    (ho : o.usedUp = false) : Delivered (reads ++ [(cap, o)]) xs := by
  simpa [Delivered, filter_append, ho] using h

/-- A read that reports the next datagram continues the record. -/
lemma Delivered.snoc {reads xs} (h : Delivered reads xs) (cap : ℕ) (d : List UInt8) :
    Delivered (reads ++ [(cap, deliver cap d)]) (xs ++ [d]) := by
  have hused : (deliver cap d).usedUp := by
    unfold deliver
    split <;> rfl
  simp only [Delivered, filter_append, filter_singleton, hused]
  exact rel_append h (.cons rfl .nil)

variable (r : PacketReader)

/-- Handing over a complete payload is what `deliver` says. -/
lemma seen_finish (out wire : List UInt8) :
    (r.finish out wire).seen = deliver out.length r.payload := by
  simp only [finish, deliver]
  split
  · rfl
  · have htake : (store out 0 r.payload).take (0 + r.payload.length) = r.payload := by
      rw [take_store (Nat.zero_le _), take_zero, nil_append]
    rw [Nat.zero_add] at htake
    simp only [Read.seen, htake]

/-- The reader is ready for the next datagram, whether or not this one fitted. -/
lemma reader_finish (out wire : List UInt8) : (r.finish out wire).reader = r.reset := by
  simp only [finish]
  split <;> rfl

@[simp] lemma wire_finish (out wire : List UInt8) : (r.finish out wire).wire = wire := by
  simp only [finish]
  split <;> rfl

/-- An unfinished read loop reports nothing that uses up a datagram. -/
lemma usedUp_readOutcome (what : String) {status} {r out wire} :
    (Read.seen ⟨readOutcome what status, r, out, wire⟩).usedUp = false := by
  cases status <;> rfl

/-- **The payload loop.** It starts with the length field read and a payload buffer of that
length, filled up to `payloadPos`. -/
lemma ReaderInv.readPayload {reads taken} {xs : List (List UInt8)} {a b} {payload : List UInt8}
    {payloadPos} (hdel : Delivered reads xs) (hfit : ∀ d ∈ xs, d.length ≤ 65535)
    (hlen : payload.length = ofU16be a b) (hpos : payloadPos ≤ payload.length)
    (htaken : taken = xs.flatMap frame ++ ([a, b] ++ payload.take payloadPos))
    (out wire : List UInt8) (evs : List ReadEv) :
    let r := PacketReader.readPayload ⟨[a, b], 2, payload, payloadPos⟩ out wire evs
    ∃ taken', taken' ++ r.wire = taken ++ wire ∧
      ReaderInv (reads ++ [(out.length, r.seen)]) taken' r.reader := by
  obtain ⟨k, status, buf, evs', hfill, hle, hbuf, htake, hdone⟩ :=
    fill_spec evs wire payload payloadPos hpos
  simp only [PacketReader.readPayload, hfill]
  refine ⟨taken ++ wire.take k, ?_, ?_⟩
  · cases status <;> simp
  · have htaken' : taken ++ wire.take k =
        xs.flatMap frame ++ ([a, b] ++ buf.take (payloadPos + k)) := by
      rw [htaken, htake]
      simp only [append_assoc]
    have hcut : status ≠ .done → payloadPos + k < buf.length :=
      fun hst => hbuf ▸ lt_of_le_of_ne hle (mt hdone.mpr hst)
    cases status with
    | done =>
      have hfull : buf.take (payloadPos + k) = buf := by
        rw [hdone.mp rfl, ← hbuf, take_length]
      have hframe : frame buf = [a, b] ++ buf := by
        rw [frame, hbuf, hlen, u16be_ofU16be]
      have hmax := ofU16be_lt a b
      simp only [seen_finish]
      rw [reader_finish]
      refine .inLength (hdel.snoc _ buf)
        (forall_mem_append.mpr ⟨hfit, forall_mem_singleton.mpr (by omega)⟩) rfl (by omega) ?_
      rw [htaken', hfull, flatMap_append, flatMap_singleton, hframe]
      simp
    | blocked | closed | failed =>
      exact .inPayload (hdel.skip _ (usedUp_readOutcome _)) hfit (hbuf.trans hlen)
        (hcut (by simp)) htaken'

/-- **A read call.** Wherever it is cut off, it moves bytes from the stream to the reader, and
the reader's invariant holds with the call on record. -/
lemma ReaderInv.readDatagram {reads taken r} (h : ReaderInv reads taken r) (out wire : List UInt8)
    (evs : List ReadEv) : let r' := r.readDatagram out wire evs
    ∃ taken', taken' ++ r'.wire = taken ++ wire ∧
      ReaderInv (reads ++ [(out.length, r'.seen)]) taken' r'.reader := by
  cases h with
  | @inPayload xs a b payload payloadPos hdel hfit hlen hpos htaken =>
    have hfill : fill evs wire [a, b] 2 = ⟨.done, [a, b], 2, wire, evs⟩ := by
      cases evs <;> simp [fill]
    have hne : payload ≠ [] := ne_nil_of_length_pos (by omega)
    simp only [PacketReader.readDatagram, hfill, PacketReader.resize, hne, false_and]
    exact ReaderInv.readPayload hdel hfit hlen hpos.le htaken out wire evs
  | @inLength xs len lenPos hdel hfit hlen hpos htaken =>
    obtain ⟨k, status, buf, evs', hfill, hle, hbuf, htake, hdone⟩ :=
      fill_spec evs wire len lenPos (by omega)
    simp only [PacketReader.readDatagram, hfill]
    rw [hlen] at hle hbuf hdone
    have htaken' : taken ++ wire.take k = xs.flatMap frame ++ buf.take (lenPos + k) := by
      rw [htaken, htake, append_assoc]
    cases status with
    | done =>
      -- the length field is complete: a buffer of that length is made, and filled
      have hfull : lenPos + k = 2 := hdone.mp rfl
      obtain ⟨a, b, rfl⟩ : ∃ a b, buf = [a, b] := length_eq_two.mp hbuf
      have hresize : PacketReader.resize ⟨[a, b], lenPos + k, [], 0⟩ =
          ⟨[a, b], 2, replicate (ofU16be a b) 0, 0⟩ := by
        simp [PacketReader.resize, PacketReader.packetLen, hfull]
      simp only [hresize]
      rw [hfull] at htaken'
      obtain ⟨taken', hsplit, hinv⟩ := ReaderInv.readPayload hdel hfit
        (length_replicate (n := ofU16be a b) (a := (0 : UInt8))) (Nat.zero_le _)
        (by simpa using htaken') out (wire.drop k) evs'
      exact ⟨taken', by rw [hsplit, append_assoc, take_append_drop], hinv⟩
    | blocked | closed | failed =>
      refine ⟨taken ++ wire.take k, by simp, ?_⟩
      exact .inLength (hdel.skip _ (usedUp_readOutcome _)) hfit hbuf
        (lt_of_le_of_ne hle (mt hdone.mpr (by simp))) htaken'

/-! ### Whole runs -/

/-- The two halves' invariants over one stream. -/
structure FlowInv (s : Flow) : Prop where
  writer : WriterInv s.calls s.sent s.writer
  returned : ∀ c ∈ s.calls.getLast?, c.2.isOk → s.writer.pending = none
  reader : ∃ taken, taken ++ s.wire = s.sent ∧ ReaderInv s.reads taken s.reader

lemma FlowInv.new : FlowInv .new where
  writer := .idle .nil rfl
  returned := by simp [Flow.new]
  reader := by
    have hnone : Delivered [] [] := .nil
    exact ⟨[], rfl, .inLength hnone (by simp) rfl (by omega) rfl⟩

/-- Each call, on either end, keeps the invariant. -/
lemma FlowInv.step {s : Flow} (h : FlowInv s) (op : Op) : FlowInv (s.step op) := by
  cases op with
  | write data locked evs flush =>
    obtain ⟨hw, hret⟩ := h.writer.writeDatagram data locked evs flush
    obtain ⟨taken, hsent, hr⟩ := h.reader
    refine ⟨hw, ?_, taken, ?_, hr⟩
    · intro c hc hok
      simp only [Flow.step, getLast?_concat, mem_def, some.injEq] at hc
      subst hc
      exact hret hok
    · simp only [Flow.step]
      rw [← append_assoc, hsent]
  | read out evs =>
    obtain ⟨taken, hsent, hr⟩ := h.reader
    obtain ⟨taken', hsplit, hr'⟩ := hr.readDatagram out s.wire evs
    exact ⟨h.writer, h.returned, taken', hsplit.trans hsent, hr'⟩

/-- The invariant holds after every run. -/
lemma FlowInv.run (ops : List Op) : FlowInv (Flow.run ops) :=
  foldlRecOn ops _ .new fun _ h op _ => h.step op

/-- The writer's invariant, seen from the wire: whole frames of sent datagrams, of which the
last may still be on its way if a call did not return. -/
lemma WriterInv.wire {calls sent w} (h : WriterInv calls sent w) :
    ∃ ds, Selected calls ds ∧ sent <+: ds.flatMap frame ∧
      (w.pending = none → sent = ds.flatMap frame) := by
  cases h with
  | @idle ds hsel hsent => exact ⟨ds, hsel, ⟨[], by simp [hsent]⟩, fun _ => hsent⟩
  | @sending ds d offset hsel hseld hoff hsent =>
    refine ⟨ds ++ [d], hseld, ⟨(frame d).drop offset, ?_⟩, nofun⟩
    rw [hsent, append_assoc, take_append_drop, flatMap_append, flatMap_singleton]

/-- The reader's invariant, seen from the wire: the frames taken are the first of those sent,
and when all bytes of them have been taken, so have all datagrams. -/
lemma ReaderInv.delivered {reads taken r} (h : ReaderInv reads taken r) {ds : List (List UInt8)}
    {rest} (hds : ∀ d ∈ ds, d.length ≤ 65535) (heq : taken ++ rest = ds.flatMap frame) :
    ∃ xs ys, ds = xs ++ ys ∧ Delivered reads xs ∧ (rest = [] → ys = []) := by
  cases h with
  | @inLength xs len lenPos hdel hfit hlen hpos htaken =>
    rw [htaken, append_assoc] at heq
    obtain ⟨ys, rfl, ht⟩ := frame_selfDelimiting.split hfit hds heq
    refine ⟨xs, ys, rfl, hdel, fun hrest => ?_⟩
    cases ys with
    | nil => rfl
    | cons y ys =>
      -- a frame has more than one byte
      have := congrArg length ht
      simp only [hrest, append_nil, length_take, flatMap_cons, length_append, length_frame] at this
      omega
  | @inPayload xs a b payload payloadPos hdel hfit hlen hpos htaken =>
    rw [htaken, append_assoc] at heq
    obtain ⟨ys, rfl, ht⟩ := frame_selfDelimiting.split hfit hds heq
    refine ⟨xs, ys, rfl, hdel, fun hrest => ?_⟩
    cases ys with
    | nil => rfl
    | cons y ys =>
      -- the length field read is that of the frame, which has more bytes than were taken
      have hy : y.length ≤ 65535 := hds y (by simp)
      rw [hrest, flatMap_cons] at ht
      have hlast := congrArg length ht
      simp only [frame, u16be, cons_append, cons.injEq] at ht
      obtain ⟨ha, hb, -⟩ := ht
      rw [ha, hb, ofU16be_u16be (by omega)] at hlen
      simp only [length_append, length_cons, length_nil, length_take, length_frame] at hlast
      omega

end Meow.Mux
