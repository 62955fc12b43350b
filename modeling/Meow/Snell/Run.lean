import Meow.Snell.Records

/-!
# Bytes through a Snell connection

A Snell connection writes and another one of the same version and with the same key reads. What is
written comes out unchanged, however the writes and reads are cut up, whatever the padding is and
whatever the clock says; the nonces on both sides are the same, in the same order.

There is one exception. A write that is `Pending` has left its record in the writer, and the caller
is to try again with the same bytes. A flush or a shutdown in between that gets the record out
leaves the number of the caller's bytes behind; the next attempt then stages a second record with
the same bytes.

## Main definitions

* `Flow` — a sender and its user, a receiver, and the bytes between them.
* `Op`, `Flow.step`, `Flow.run` — what they do.
* `Flow.keepsPending` — a step that is not such a flush.

## Main results

* `Flow.Inv.step`, `Flow.Inv.run` — the invariant.
* `run_records_delivered` — in a run without such a flush, the receiver gets what was written.
-/

namespace Meow.Snell

open List Option Nat

variable {aead : Aead}

/-! ### A sender and a receiver -/

/-- One direction of a connection. A write that did not return is `outstanding`: the user tries
again with the same bytes; after an error the user is done. `accepted` are the bytes of the writes
that returned, `records` is what was staged, `sent` is what went to the transport and `wire` what
has not been read of it; `received` is what the reads returned. `seals` and `opens` are the nonces
that were used on both sides. -/
structure Flow (aead : Aead) where
  sender : SnellInner aead
  receiver : SnellInner aead
  wire : List UInt8
  sent : List UInt8
  records : List (List UInt8)
  seals : List (List UInt8)
  opens : List (List UInt8)
  outstanding : Option (List UInt8)
  accepted : List UInt8
  writeError : Option IoError
  received : List UInt8

/-- What happens: a write, a flush (or a shutdown), or a read, with the answers of the transport
and what version four finds. -/
inductive Op where
  | write (buf : List UInt8) (evs : List WriteEv) (choice : Choice)
  | flush (evs : List WriteEv) (inner : Poll IoError Unit)
  | read (cap : ℕ) (evs : List ReadEv)

/-- The rest of the pending record. -/
def Writer.pendingRest (w : Writer aead) : List UInt8 := w.pending.drop w.pendingOff

namespace Flow

/-- New connections. -/
def new (sender receiver : SnellInner aead) : Flow aead where
  sender := sender
  receiver := receiver
  wire := []
  sent := []
  records := []
  seals := []
  opens := []
  outstanding := none
  accepted := []
  writeError := none
  received := []

/-- After a write or a flush: what went out. -/
def didSend {α : Type} (s : Flow aead) (r : Wrote aead α) (sender : SnellInner aead) : Flow aead :=
  { s with
    sender := sender
    wire := s.wire ++ r.sent
    sent := s.sent ++ r.sent
    records := s.records ++ r.staged.toList
    seals := s.seals ++ r.seals }

/-- After a write of `buf`. -/
def wrote (s : Flow aead) (buf : List UInt8) (r : Wrote aead ℕ) (sender : SnellInner aead) :
    Flow aead :=
  match r.poll with
  | .pending => { s.didSend r sender with outstanding := some buf }
  | .err e => { s.didSend r sender with outstanding := some buf, writeError := some e }
  | .ok n => { s.didSend r sender with outstanding := none, accepted := s.accepted ++ buf.take n }

/-- After a flush. -/
def flushed (s : Flow aead) (r : Wrote aead Unit) (sender : SnellInner aead) : Flow aead :=
  match r.poll with
  | .err e => { s.didSend r sender with writeError := some e }
  | _ => s.didSend r sender

/-- After a read. -/
def didRead (s : Flow aead) (r : Read aead) (receiver : SnellInner aead) : Flow aead :=
  { s with
    receiver := receiver
    wire := r.wire
    received := s.received ++ r.out
    opens := s.opens ++ r.opens }

/-- One step. -/
def step (s : Flow aead) : Op → Flow aead
  | .write buf evs choice =>
    if s.writeError.isSome then s
    else
      let buf := s.outstanding.getD buf
      let r := s.sender.pollWrite buf evs choice
      s.wrote buf r.1 r.2
  | .flush evs inner =>
    if s.writeError.isSome then s
    else
      let r := s.sender.pollFlush evs inner
      s.flushed r.1 r.2
  | .read cap evs =>
    let r := s.receiver.pollRead cap evs s.wire
    s.didRead r.1 r.2

/-- One step after the other. -/
def run (s : Flow aead) (ops : List Op) : Flow aead := ops.foldl step s

/-- A flush does not get the rest of a record out: the transport takes less than that. -/
def keepsPending (s : Flow aead) : Op → Bool
  | .flush evs _ =>
    s.sender.writer.pendingRest.isEmpty ||
      decide (capacity evs < s.sender.writer.pendingRest.length)
  | _ => true

/-- No step of a run is a flush that does. -/
def alwaysKeepsPending (s : Flow aead) : List Op → Bool
  | [] => true
  | op :: ops => s.keepsPending op && (s.step op).alwaysKeepsPending ops

end Flow

/-! ### The writer -/

/-- What a drain leaves as it is. -/
structure SameSeals (w w' : Writer aead) : Prop where
  key : w'.key = w.key
  nonce : w'.nonce = w.nonce
  salt : w'.salt = w.salt
  saltSent : w'.saltSent = w.saltSent

/-- **What a drain does** to the pending record: it sends the first of what is left, and is done
when the transport takes all of it. -/
structure Drains (w : Writer aead) (evs : List WriteEv) (r : Wrote aead Unit) : Prop where
  split : w.pendingRest = r.sent ++ r.writer.pendingRest
  same : SameSeals w r.writer
  input : r.writer.pendingInput = w.pendingInput
  outcome : (r.poll = .ok () ∧ w.pendingRest.length ≤ capacity evs ∧ r.writer.pendingRest = []) ∨
    (capacity evs < w.pendingRest.length ∧ r.writer.pendingRest ≠ [] ∧
      (r.poll = .pending ∨ ∃ e, r.poll = .err e))

section Writer

variable {codec : Codec} {w : Writer aead}

open Writer

lemma drains_drainWriter (codec : Codec) (w : Writer aead) (evs : List WriteEv) :
    Drains w evs (w.drainWriter codec evs) := by
  have hsplit := drain_sent_rest evs w.pendingRest
  have hdone := drain_done_iff evs w.pendingRest
  have hcapacity := drain_done_iff_capacity evs w.pendingRest
  have hrest : w.pending.drop (w.pendingOff + (drain evs w.pendingRest).sent.length) =
      (drain evs w.pendingRest).rest := by
    rw [drain_rest_eq_drop, pendingRest, drop_drop]
  -- a drain that is not done leaves something
  have hopen : (drain evs w.pendingRest).status ≠ .done → ∀ poll,
      (poll = .pending ∨ ∃ e, poll = .err e) →
      Drains w evs ⟨poll, { w with
        pendingOff := w.pendingOff + (drain evs w.pendingRest).sent.length },
        (drain evs w.pendingRest).sent, none, []⟩ := by
    intro hne poll hpoll
    refine ⟨?_, ⟨rfl, rfl, rfl, rfl⟩, rfl, .inr ⟨?_, ?_, hpoll⟩⟩
    · show w.pendingRest = (drain evs w.pendingRest).sent ++
        w.pending.drop (w.pendingOff + (drain evs w.pendingRest).sent.length)
      rw [hrest, hsplit]
    · rw [Ne, hcapacity] at hne
      omega
    · show w.pending.drop (w.pendingOff + (drain evs w.pendingRest).sent.length) ≠ []
      rw [hrest]
      exact fun h => hne (hdone.mpr h)
  rw [drainWriter, ← pendingRest]
  cases hstatus : (drain evs w.pendingRest).status <;> simp only
  case done =>
    refine ⟨?_, ⟨rfl, rfl, rfl, rfl⟩, rfl, .inl ⟨rfl, hcapacity.mp hstatus, rfl⟩⟩
    rw [hdone.mp hstatus] at hsplit
    exact hsplit.symm
  case blocked => exact hopen (by simp [hstatus]) _ (.inl rfl)
  all_goals exact hopen (by simp [hstatus]) _ (.inr ⟨_, rfl⟩)

/-- **What staging does**: there is one more record, sealed under the next nonces. -/
lemma stage_spec (hlawful : codec.Lawful) {k} (hnonce : w.nonce = nonceAt k)
    {chunk padding : List UInt8} (hchunk : chunk.length ≤ maxPayloadLength)
    (hpadding : padding.length ≤ codec.maxPadding) (hempty : chunk = [] → padding = []) :
    ∃ record k', Record codec w.key k record chunk k' ∧
      record.length ≤ codec.headerCipherSize + padding.length + chunk.length + tagSize ∧
      w.stage codec chunk padding =
        (none, { w with nonce := nonceAt k' }.putFrame record, noncesFrom k k') := by
  have hnext : incrementBytes (nonceAt k) = nonceAt (k + 1) :=
    incrementBytes_counterAt nonceSize k
  have hmessage : ∀ p n, (codec.header p n).length ≤ maxMessage := by
    intro p n
    rw [hlawful.length_header]
    exact hlawful.headerPlainSize_le
  obtain ⟨header, hheader⟩ := aead.exists_encrypt w.key w.nonce
    (hmessage padding.length chunk.length)
  have hsize : header.length = codec.headerCipherSize := by
    rw [aead.length_encrypt _ _ _ _ hheader, hlawful.length_header]
    rfl
  by_cases hne : chunk = []
  · subst hne
    obtain rfl := hempty rfl
    rw [hnonce] at hheader
    refine ⟨header, k + 1, .zero hheader, by omega, ?_⟩
    have hcheck : codec.check ([] : List UInt8).length ([] : List UInt8).length = none :=
      hlawful.check_zero
    simp only [stage, hcheck, hnonce, hheader, if_true, append_nil, hnext, noncesFrom_succ]
  · have hpos := length_pos_iff.mpr hne
    obtain ⟨cipher, hcipher⟩ := aead.exists_encrypt w.key (nonceAt (k + 1))
      (show chunk.length ≤ maxMessage from hchunk.trans (by decide))
    rw [hnonce] at hheader
    refine ⟨_, k + 2, .data hne hchunk hpadding hheader hcipher, ?_, ?_⟩
    · rw [length_append, length_append, (length_swapPadding _ _).1,
        (length_swapPadding _ _).2, aead.length_encrypt _ _ _ _ hcipher]
      omega
    have hcheck := hlawful.check_frame _ _ hpadding hpos hchunk
    have hlast : incrementBytes (nonceAt (k + 1)) = nonceAt (k + 2) :=
      incrementBytes_counterAt nonceSize (k + 1)
    have hseals : noncesFrom k (k + 2) = [nonceAt k, nonceAt (k + 1)] := by
      rw [← noncesFrom_append (le_succ k) (le_succ (k + 1)), noncesFrom_succ,
        noncesFrom_succ]
      rfl
    simp only [stage, hcheck, hnonce, hheader, if_neg hne, hnext, hcipher, hlast, hseals,
      append_assoc]

lemma pendingOff_lt_iff (w : Writer aead) :
    w.pendingOff < w.pending.length ↔ w.pendingRest ≠ [] := by
  rw [pendingRest, Ne, drop_eq_nil_iff, not_le]

/-- **What a drain of a write does**: as `Drains`, and at the end it reports the bytes of the
caller. -/
structure DrainsInput (w : Writer aead) (r : Wrote aead ℕ) : Prop where
  split : w.pendingRest = r.sent ++ r.writer.pendingRest
  same : SameSeals w r.writer
  outcome : (r.poll = .ok w.pendingInput ∧ r.writer.pendingRest = []) ∨
    (r.writer.pendingInput = w.pendingInput ∧ r.writer.pendingRest ≠ [] ∧
      (r.poll = .pending ∨ ∃ e, r.poll = .err e))

lemma drainsInput_drainInput (codec : Codec) (w : Writer aead) (evs : List WriteEv) :
    DrainsInput w (w.drainInput codec evs) ∧ (w.drainInput codec evs).staged = none ∧
      (w.drainInput codec evs).seals = [] := by
  obtain ⟨hsplit, hsame, hinput, ⟨hpoll, -, hrest⟩ | ⟨-, hrest, hpoll | ⟨e, hpoll⟩⟩⟩ :=
    drains_drainWriter codec w evs
  all_goals simp only [drainInput, hpoll]
  · exact ⟨⟨hsplit, ⟨hsame.key, hsame.nonce, hsame.salt, hsame.saltSent⟩,
      .inl ⟨congrArg Poll.ok hinput, hrest⟩⟩, trivial, trivial⟩
  · exact ⟨⟨hsplit, hsame, .inr ⟨hinput, hrest, .inl rfl⟩⟩, trivial, trivial⟩
  · exact ⟨⟨hsplit, hsame, .inr ⟨hinput, hrest, .inr ⟨e, rfl⟩⟩⟩, trivial, trivial⟩

/-- The writer right after a record with `n` bytes of the caller was staged, up to the seal `k`. -/
def Writer.withRecord (w : Writer aead) (n k : ℕ) (record : List UInt8) : Writer aead :=
  { w with pendingInput := n, nonce := nonceAt k }.putFrame record

/-- What goes out with a record: the salt in front of the first. -/
def Writer.framed (w : Writer aead) (record : List UInt8) : List UInt8 :=
  (if w.saltSent then [] else w.salt) ++ record

/-- **What a write stages** when nothing is pending: a record with the first of the buffer, which
is then drained. -/
structure Stages (codec : Codec) (w : Writer aead) (buf : List UInt8) (k : ℕ) (chunk : List UInt8)
    (record : List UInt8) (k' : ℕ) (r : Wrote aead ℕ) : Prop where
  chunk_le : chunk.length ≤ maxPayloadLength
  chunk_eq : chunk = buf.take chunk.length
  isRecord : Record codec w.key k record chunk k'
  drains : DrainsInput (w.withRecord chunk.length k' record) r
  staged : r.staged = some (w.framed record)
  seals : r.seals = noncesFrom k k'

lemma stages_pollWrite (buf chunk padding : List UInt8) (hlawful : codec.Lawful) {k}
    (hnonce : w.nonce = nonceAt k) (hrest : w.pendingRest = []) (hpre : chunk <+: buf)
    (hchunk : chunk.length ≤ maxPayloadLength) (hpadding : padding.length ≤ codec.maxPadding)
    (hempty : chunk = [] → padding = []) (evs : List WriteEv) :
    ∃ record k', Stages codec w buf k chunk record k' (w.pollWrite codec evs chunk padding) ∧
      record.length ≤ codec.headerCipherSize + padding.length + chunk.length + tagSize := by
  have hidle : ¬w.pendingOff < w.pending.length := by
    rw [pendingOff_lt_iff, not_not]
    exact hrest
  obtain ⟨record, k', hrecord, hlen, hstage⟩ := stage_spec
    (w := { w with pendingInput := chunk.length }) hlawful hnonce hchunk hpadding hempty
  obtain ⟨hdrains, -⟩ := drainsInput_drainInput codec (w.withRecord chunk.length k' record) evs
  refine ⟨record, k', ⟨hchunk, prefix_iff_eq_take.mp hpre, hrecord, ?_, ?_, ?_⟩, hlen⟩
  all_goals
    rw [pollWrite, if_neg hidle, hstage]
  · exact ⟨hdrains.split, hdrains.same, hdrains.outcome⟩
  · rfl

end Writer

/-! ### A connection that writes -/

namespace SnellInner

variable (conn : SnellInner aead)

lemma codec_lawful : conn.codec.Lawful := by
  cases conn with
  | v3 conn => exact v3_lawful
  | v4 conn => exact v4_lawful

@[simp] lemma codec_withWriter (w : Writer aead) : (conn.withWriter w).codec = conn.codec := by
  cases conn <;> rfl

@[simp] lemma writer_withWriter (w : Writer aead) : (conn.withWriter w).writer = w := by
  cases conn <;> rfl

variable (reader : ReaderState aead)

@[simp] lemma codec_withReader : (conn.withReader reader).codec = conn.codec := by
  cases conn <;> rfl

@[simp] lemma psk_withReader : (conn.withReader reader).psk = conn.psk := by
  cases conn <;> rfl

@[simp] lemma reader_withReader : (conn.withReader reader).reader = reader := by
  cases conn <;> rfl

/-- Version four sets its clock with its first record. -/
def Fresh : SnellInner aead → Prop
  | .v3 _ => True
  | .v4 conn => conn.writer.saltSent = false → conn.pace.lastWrite = none

variable {conn}

lemma fresh_of_saltSent (h : conn.writer.saltSent) : conn.Fresh := by
  cases conn with
  | v3 conn => exact trivial
  | v4 conn => exact fun hfalse => Bool.noConfusion (h.symm.trans hfalse)

lemma fresh_withWriter {w : Writer aead} (h : conn.Fresh)
    (hsent : w.saltSent = conn.writer.saltSent) : (conn.withWriter w).Fresh := by
  cases conn with
  | v3 conn => exact trivial
  | v4 conn => exact fun hfalse => h (hsent.symm.trans hfalse)

/-- A write with a record pending drains it. -/
lemma pollWrite_of_pending (hrest : conn.writer.pendingRest ≠ [])
    (buf : List UInt8) (evs : List WriteEv) (choice : Choice) :
    conn.pollWrite buf evs choice = (conn.writer.drainInput conn.codec evs,
      conn.withWriter (conn.writer.drainInput conn.codec evs).writer) := by
  have hlt := (pendingOff_lt_iff _).mpr hrest
  cases conn with
  | v3 conn =>
    simp only [writer] at hlt
    simp only [pollWrite, V3Conn.pollWrite, Writer.pollWrite, if_pos hlt]
    rfl
  | v4 conn =>
    simp only [writer] at hlt
    rw [pollWrite, V4Conn.pollWrite, if_pos (.inl hlt)]
    simp only [Writer.pollWrite, if_pos hlt]
    rfl

end SnellInner

open SnellInner

lemma v3_ne_v4 : v3 ≠ v4 :=
  fun h => absurd (congrArg Codec.headerPlainSize h) (by decide)

/-- Bytes that fit in the first packet, where the version has a limit for it. -/
def FitsFirst (codec : Codec) (bytes : List UInt8) : Prop := codec = v4 → bytes.length ≤ v4FrameSize

/-- The chunk of version four is within the limit. -/
lemma V4Conn.chunk_spec (buf : List UInt8) {limit} (hpos : 0 < limit)
    (hle : limit ≤ maxPayloadLength) :
    chunk buf limit <+: buf ∧ (chunk buf limit).length ≤ limit := by
  rw [chunk]
  simp only [if_neg (show ¬(limit = 0 ∨ limit > maxPayloadLength) by omega)]
  refine ⟨List.take_prefix _ _, ?_⟩
  rw [length_take]
  omega

/-- **The first packet of version four**: what the limit leaves is as long as the padding. -/
lemma Pace.first_le (pace : Pace) (now : ℕ) (hfresh : pace.lastWrite = none) {n}
    (hn : n ≤ pace.limitAt now) :
    saltSize + (v4.headerCipherSize + pace.initialPaddingLength + n + tagSize) ≤ v4FrameSize := by
  have hlt := pace.initial_lt
  rw [Pace.limitAt, hfresh] at hn
  simp only [v4InitialPaddingMin, v4InitialPaddingSpan, v4FrameSize, saltSize, tagSize,
    Codec.headerCipherSize, v4] at *
  omega

/-- **What a write of a connection does**: it drains a record that is pending, or stages one. -/
structure Writes (conn : SnellInner aead) (buf : List UInt8) (k : ℕ)
    (r : Wrote aead ℕ × SnellInner aead) : Prop where
  codec : r.2.codec = conn.codec
  writer : r.2.writer = r.1.writer
  outcome : (conn.writer.pendingRest ≠ [] ∧ DrainsInput conn.writer r.1 ∧ r.1.staged = none ∧
      r.1.seals = [] ∧ r.2.Fresh) ∨
    (conn.writer.pendingRest = [] ∧ ∃ chunk record k',
      Stages conn.codec conn.writer buf k chunk record k' r.1 ∧
      (conn.writer.saltSent = false → FitsFirst conn.codec (conn.writer.framed record)))

variable {k : ℕ}

lemma V3Conn.writes (conn : V3Conn aead) (hrest : conn.writer.pendingRest = []) (buf : List UInt8)
    (evs : List WriteEv) (hnonce : conn.writer.nonce = nonceAt k) :
    Writes (.v3 conn) buf k ((conn.pollWrite buf evs).1, .v3 (conn.pollWrite buf evs).2) := by
  obtain ⟨record, k', hstages, -⟩ := stages_pollWrite buf (V3Conn.chunk buf) []
    v3_lawful hnonce hrest (List.take_prefix _ _)
    (by rw [V3Conn.chunk, length_take]; omega) (zero_le _) (fun _ => rfl) evs
  refine ⟨rfl, rfl, .inr ⟨hrest, V3Conn.chunk buf, record, k', hstages, fun _ hcodec => ?_⟩⟩
  exact absurd hcodec v3_ne_v4

variable {w : Writer aead}

lemma Writer.length_framed (hsalt : w.salt.length = saltSize) (hsent : w.saltSent = false)
    (record : List UInt8) : (w.framed record).length = saltSize + record.length := by
  rw [framed, hsent, length_append]
  exact congrArg (· + record.length) hsalt

lemma length_makeV4Padding (bytes : ℕ → UInt8) (n : ℕ) : (makeV4Padding bytes n).length = n := by
  rw [makeV4Padding, length_map, length_range]

section V4

variable (conn : V4Conn aead) (hrest : conn.writer.pendingRest = [])
  (hsalt : conn.writer.salt.length = saltSize)
  (hfresh : conn.writer.saltSent = false → conn.pace.lastWrite = none) (buf : List UInt8)
  (evs : List WriteEv) (choice : Choice) (hnonce : conn.writer.nonce = nonceAt k)
include hrest hsalt hfresh hnonce

/-- The data that version four stages when nothing is pending. -/
lemma V4Conn.writes_data (hbuf : buf ≠ []) : Writes (.v4 conn) buf k
    ((conn.pollWrite buf evs choice).1, .v4 (conn.pollWrite buf evs choice).2) := by
  have hidle : ¬(conn.writer.pendingOff < conn.writer.pending.length ∨ buf = []) := by
    rw [pendingOff_lt_iff]
    exact fun h => h.elim (fun h => h hrest) hbuf
  obtain ⟨hpos, hle⟩ := conn.pace.limitAt_bounds choice.now
  obtain ⟨hpre, hchunk⟩ := chunk_spec buf hpos hle
  rw [pollWrite, if_neg hidle]
  set pace := (conn.pace.nextPayloadLimit choice.now).2
  set chunk := chunk buf (conn.pace.nextPayloadLimit choice.now).1
  have hlen : pace.nextFramePaddingLength conn.writer.saltSent chunk.length ≤
      conn.pace.initialPaddingLength := by
    rw [Pace.nextFramePaddingLength]
    split_ifs
    · exact zero_le _
    · exact le_rfl
  have hempty : chunk = [] → makeV4Padding choice.padding
      (pace.nextFramePaddingLength conn.writer.saltSent chunk.length) = [] := by
    intro hnil
    rw [hnil, Pace.nextFramePaddingLength, length_nil, beq_self_eq_true, Bool.or_true]
    rfl
  have hmax : conn.pace.initialPaddingLength ≤ Snell.v4.maxPadding :=
    conn.pace.initial_lt.le.trans (by decide)
  obtain ⟨record, k', hstages, hrecord⟩ := stages_pollWrite buf _ _ v4_lawful hnonce hrest hpre
    (hchunk.trans hle) ((length_makeV4Padding _ _).trans_le (hlen.trans hmax)) hempty evs
  refine ⟨rfl, rfl, .inr ⟨hrest, chunk, record, k', hstages, fun hsent _ => ?_⟩⟩
  have hfirst := conn.pace.first_le choice.now (hfresh hsent) hchunk
  rw [length_makeV4Padding] at hrecord
  show (conn.writer.framed record).length ≤ v4FrameSize
  rw [Writer.length_framed hsalt hsent]
  exact (Nat.add_le_add_left (hrecord.trans (by gcongr)) _).trans hfirst

lemma V4Conn.writes : Writes (.v4 conn) buf k
    ((conn.pollWrite buf evs choice).1, .v4 (conn.pollWrite buf evs choice).2) := by
  by_cases hbuf : buf = []
  · -- an empty write stages an empty record
    obtain ⟨record, k', hstages, hlen⟩ := stages_pollWrite buf [] [] v4_lawful
      hnonce hrest nil_prefix (zero_le _) (zero_le _) (fun _ => rfl) evs
    rw [pollWrite, if_pos (.inr hbuf)]
    refine ⟨rfl, rfl, .inr ⟨hrest, [], record, k', hstages, fun hsent _ => ?_⟩⟩
    show (conn.writer.framed record).length ≤ v4FrameSize
    rw [Writer.length_framed hsalt hsent]
    exact (Nat.add_le_add_left hlen _).trans (by decide)
  · exact conn.writes_data hrest hsalt hfresh buf evs choice hnonce hbuf

end V4

/-- Both versions. -/
lemma SnellInner.writes (conn : SnellInner aead) (hsalt : conn.writer.salt.length = saltSize)
    (hfresh : conn.Fresh) (buf : List UInt8) (evs : List WriteEv) (choice : Choice)
    (hnonce : conn.writer.nonce = nonceAt k) :
    Writes conn buf k (conn.pollWrite buf evs choice) := by
  by_cases hrest : conn.writer.pendingRest = []
  · cases conn with
    | v3 conn => exact conn.writes hrest buf evs hnonce
    | v4 conn => exact conn.writes hrest hsalt hfresh buf evs choice hnonce
  · obtain ⟨hdrains, hstaged, hseals⟩ := drainsInput_drainInput conn.codec conn.writer evs
    rw [conn.pollWrite_of_pending hrest]
    exact ⟨codec_withWriter _ _, writer_withWriter _ _, .inl ⟨hrest, hdrains, hstaged, hseals,
      fresh_withWriter hfresh hdrains.same.saltSent⟩⟩

/-! ### What holds in every run -/

/-- **The records of a stream**, from its beginning: the salt, and sealed records of `payloads`. -/
def Sent (codec : Codec) (key : aead.Key) (salt : List UInt8) (records payloads : List (List UInt8))
    (k : ℕ) : Prop :=
  (records = [] ∧ payloads = [] ∧ k = 0) ∨
    ∃ wire, records.flatten = salt ++ wire ∧ Records codec key 0 wire payloads k

/-- **What the sender has sent and will send** is the salt and the records of `payloads`, sealed
under the nonces up to `k`. -/
structure Outgoing (psk salt : List UInt8) (sender : SnellInner aead) (sent : List UInt8)
    (records seals payloads : List (List UInt8)) (k : ℕ) : Prop where
  key : sender.writer.key = aead.derive psk salt
  salt_eq : sender.writer.salt = salt
  nonce : sender.writer.nonce = nonceAt k
  seals_eq : seals = noncesFrom 0 k
  out : sent ++ sender.writer.pendingRest = records.flatten
  stream : (sender.writer.saltSent = false ∧ records = [] ∧ payloads = [] ∧ k = 0) ∨
    (sender.writer.saltSent = true ∧ ∃ wire, records.flatten = salt ++ wire ∧
      Records sender.codec (aead.derive psk salt) 0 wire payloads k)
  count : k ≤ 2 * records.length
  fresh : sender.Fresh
  first : ∀ record, records.head? = some record → FitsFirst sender.codec record

/-- **What the writer has staged** of the bytes of its user: those of the writes that returned, and
the record of one that did not. After an error, that may be any part of it. -/
inductive Tx (w : Writer aead) (accepted : List UInt8) (outstanding : Option (List UInt8))
    (error : Option IoError) : List UInt8 → Prop
  | idle (hrest : w.pendingRest = []) : Tx w accepted outstanding error accepted
  | pending {buf : List UInt8} (hrest : w.pendingRest ≠ []) (houtstanding : outstanding = some buf)
      (hinput : w.pendingInput ≤ maxPayloadLength) :
      Tx w accepted outstanding error (accepted ++ buf.take w.pendingInput)
  | failed {n : ℕ} (herror : error.isSome = true) (hn : n ≤ maxPayloadLength) :
      Tx w accepted outstanding error (accepted ++ (outstanding.getD []).take n)

/-- **The invariant.** -/
structure Flow.Inv (psk salt : List UInt8) (s : Flow aead) (payloads : List (List UInt8))
    (plain : List UInt8) (k opened : ℕ) : Prop where
  codec_eq : s.receiver.codec = s.sender.codec
  psk_eq : s.receiver.psk = psk
  outgoing : Outgoing psk salt s.sender s.sent s.records s.seals payloads k
  tx : Tx s.sender.writer s.accepted s.outstanding s.writeError payloads.flatten
  received : s.received ++ plain = payloads.flatten
  opens : s.opens = noncesFrom 0 opened
  ahead : Ahead s.sender.codec psk salt s.sender.writer.saltSent s.receiver.reader opened
    (s.wire ++ s.sender.writer.pendingRest) plain k

open Flow

section Invariant

variable {psk salt : List UInt8} {s : Flow aead} {payloads : List (List UInt8)} {plain : List UInt8}
  {opened : ℕ} {sender sender' : SnellInner aead}

/-- A drain changes nothing about what goes out. -/
lemma Outgoing.drains {sent out records seals}
    (h : Outgoing psk salt sender sent records seals payloads k)
    (hcodec : sender'.codec = sender.codec) (hsame : SameSeals sender.writer sender'.writer)
    (hsplit : sender.writer.pendingRest = out ++ sender'.writer.pendingRest)
    (hfresh : sender'.Fresh) :
    Outgoing psk salt sender' (sent ++ out) records seals payloads k where
  key := hsame.key.trans h.key
  salt_eq := hsame.salt.trans h.salt_eq
  nonce := hsame.nonce.trans h.nonce
  seals_eq := h.seals_eq
  out := by rw [append_assoc, ← hsplit, h.out]
  stream := by
    rw [hsame.saltSent, hcodec]
    exact h.stream
  count := h.count
  fresh := hfresh
  first := hcodec ▸ h.first

variable {r : Wrote aead ℕ}

/-- **A record that is staged goes out** behind the others. -/
lemma Outgoing.stages (hsalt : salt.length = saltSize) {sent buf chunk record records seals k'}
    (h : Outgoing psk salt sender sent records seals payloads k)
    (hcodec : sender'.codec = sender.codec) (hwriter : sender'.writer = r.writer)
    (hrest : sender.writer.pendingRest = [])
    (hstages : Stages sender.codec sender.writer buf k chunk record k' r)
    (hfits : sender.writer.saltSent = false →
      FitsFirst sender.codec (sender.writer.framed record)) :
    Outgoing psk salt sender' (sent ++ r.sent) (records ++ [sender.writer.framed record])
      (seals ++ noncesFrom k k') (payloads ++ [chunk]) k' := by
  have hsame := hstages.drains.same
  have hsent : sender'.writer.saltSent := hwriter ▸ hsame.saltSent
  have hrecord : Record sender.codec (aead.derive psk salt) k record chunk k' :=
    h.key ▸ hstages.isRecord
  refine ⟨?_, ?_, ?_, ?_, ?_, .inr ⟨hsent, ?_⟩, ?_, fresh_of_saltSent hsent, ?_⟩
  · exact (hwriter ▸ hsame.key).trans h.key
  · exact (hwriter ▸ hsame.salt).trans h.salt_eq
  · exact hwriter ▸ hsame.nonce
  · rw [h.seals_eq, noncesFrom_append (zero_le k) hrecord.lt.le]
  · have hsplit : sender.writer.framed record = r.sent ++ r.writer.pendingRest :=
      hstages.drains.split
    have hout := h.out
    rw [hrest, append_nil] at hout
    rw [append_assoc, hwriter, ← hsplit, hout, flatten_append, flatten_singleton]
  · rw [hcodec, flatten_append, flatten_singleton, Writer.framed, h.salt_eq]
    obtain ⟨hfirst, rfl, rfl, rfl⟩ | ⟨hlater, wire, hwire, hrecords⟩ := h.stream
    · rw [hfirst]
      refine ⟨record, rfl, ?_⟩
      have := Records.cons hrecord (.nil k')
      rwa [append_nil] at this
    · rw [hlater, hwire]
      exact ⟨wire ++ record, append_assoc _ _ _, hrecords.snoc hrecord⟩
  · have hcount := h.count
    have := hrecord.le_add_two
    rw [length_append, length_singleton]
    omega
  · rw [hcodec]
    obtain ⟨hfirst, rfl, -⟩ | ⟨-, wire, hwire, -⟩ := h.stream
    · intro first heq
      cases heq
      exact hfits hfirst
    · -- with the salt out, there is a record already
      rcases records with _ | ⟨first, records⟩
      · have := congrArg length hwire
        rw [flatten_nil, length_nil, length_append, hsalt] at this
        exact absurd this.symm (by unfold saltSize; omega)
      · exact h.first

variable {outstanding : Option (List UInt8)}

section

variable {accepted staged : List UInt8} (h : Tx w accepted outstanding none staged)
include h

/-- Before a write that drains: it is the outstanding one. -/
lemma Tx.of_pending (hrest : w.pendingRest ≠ []) :
    ∃ buf, outstanding = some buf ∧ w.pendingInput ≤ maxPayloadLength ∧
      staged = accepted ++ buf.take w.pendingInput := by
  cases h with
  | idle hidle => exact absurd hidle hrest
  | pending _ houtstanding hinput => exact ⟨_, houtstanding, hinput, rfl⟩
  | failed herror => cases herror

/-- Before a write that stages: nothing but what was accepted has been staged. -/
lemma Tx.of_idle (hrest : w.pendingRest = []) : staged = accepted := by
  cases h with
  | idle => rfl
  | pending hpending => exact absurd hrest hpending
  | failed herror => cases herror

end

/-- What a write leaves to its user, when the bytes of the record are `w.pendingInput` of the
buffer. -/
lemma Tx.wrote (hdrains : DrainsInput w r) (hinput : w.pendingInput ≤ maxPayloadLength)
    (s : Flow aead) (buf : List UInt8) (hwriter : sender.writer = r.writer) :
    ∃ outstanding accepted error, s.wrote buf r sender =
        { s.didSend r sender with
          outstanding := outstanding, accepted := accepted, writeError := error } ∧
      Tx sender.writer accepted outstanding error (s.accepted ++ buf.take w.pendingInput) := by
  rw [hwriter, Flow.wrote]
  obtain ⟨hpoll, hrest⟩ | ⟨hsame, hrest, hpoll | ⟨e, hpoll⟩⟩ := hdrains.outcome
  · rw [hpoll]
    exact ⟨none, _, _, rfl, .idle hrest⟩
  · rw [hpoll]
    refine ⟨some buf, _, _, rfl, ?_⟩
    rw [← hsame] at hinput ⊢
    exact .pending hrest rfl hinput
  · rw [hpoll]
    exact ⟨some buf, s.accepted, some e, rfl, .failed rfl hinput⟩

/-- **A write keeps the invariant**: the record that was pending is drained, or one is staged. -/
lemma Flow.Inv.write (hsalt : salt.length = saltSize) (h : s.Inv psk salt payloads plain k opened)
    (herror : s.writeError = none) (buf : List UInt8) (evs : List WriteEv) (choice : Choice) :
    ∃ payloads' plain' k', (s.wrote (s.outstanding.getD buf)
      (s.sender.pollWrite (s.outstanding.getD buf) evs choice).1
      (s.sender.pollWrite (s.outstanding.getD buf) evs choice).2).Inv psk salt payloads' plain' k'
        opened := by
  have hwrites := s.sender.writes (h.outgoing.salt_eq ▸ hsalt) h.outgoing.fresh
    (s.outstanding.getD buf) evs choice h.outgoing.nonce
  generalize s.sender.pollWrite (s.outstanding.getD buf) evs choice = r at hwrites ⊢
  obtain ⟨hcodec, hwriter, ⟨hrest, hdrains, hstaged, hseals, hfresh⟩ |
    ⟨hrest, chunk, record, k', hstages, hfits⟩⟩ := hwrites
  · -- the record of the outstanding write
    obtain ⟨buf', houtstanding, hinput, hflatten⟩ := (herror ▸ h.tx).of_pending hrest
    rw [houtstanding, getD_some]
    obtain ⟨outstanding, accepted, error, heq, htx⟩ := Tx.wrote hdrains hinput s buf' hwriter
    have hout := h.outgoing.drains hcodec (hwriter ▸ hdrains.same) (hwriter ▸ hdrains.split) hfresh
    have hahead := h.ahead
    rw [hdrains.split, ← append_assoc, ← hdrains.same.saltSent, ← hwriter, ← hcodec]
      at hahead
    rw [heq]
    refine ⟨payloads, plain, k, h.codec_eq.trans hcodec.symm, h.psk_eq, ?_, hflatten ▸ htx,
      h.received, h.opens, hahead⟩
    simpa only [didSend, hstaged, hseals, toList_none, append_nil] using hout
  · -- a new record
    have hflatten := (herror ▸ h.tx).of_idle hrest
    obtain ⟨outstanding, accepted, error, heq, htx⟩ := Tx.wrote hstages.drains hstages.chunk_le s
      (s.outstanding.getD buf) hwriter
    have hout := h.outgoing.stages hsalt hcodec hwriter hrest hstages hfits
    have hrecord : Record s.sender.codec (aead.derive psk salt) k record chunk k' :=
      h.outgoing.key ▸ hstages.isRecord
    have hahead := h.ahead.append hrecord
    have hsplit : s.sender.writer.framed record = r.1.sent ++ r.1.writer.pendingRest :=
      hstages.drains.split
    have hsent : true = r.2.writer.saltSent := hwriter ▸ hstages.drains.same.saltSent.symm
    rw [hrest, append_nil, ← h.outgoing.salt_eq, ← Writer.framed, hsplit, ← append_assoc,
      h.outgoing.salt_eq, ← hwriter, ← hcodec, hsent] at hahead
    rw [heq]
    refine ⟨payloads ++ [chunk], plain ++ chunk, k', h.codec_eq.trans hcodec.symm, h.psk_eq, ?_, ?_,
      ?_, h.opens, hahead⟩
    · simpa only [didSend, hstages.staged, hstages.seals, toList_some] using hout
    · rw [flatten_append, flatten_singleton, hflatten, hstages.chunk_eq]
      exact htx
    · rw [flatten_append, flatten_singleton, ← h.received]
      exact (append_assoc _ _ _).symm

/-- The errors of a flush are all that it changes for the user. -/
lemma Flow.flushed_eq (s : Flow aead) (r : Wrote aead Unit) (sender : SnellInner aead) :
    ∃ error, s.flushed r sender = { s.didSend r sender with writeError := error } := by
  rw [flushed]
  cases r.poll <;> exact ⟨_, rfl⟩

/-- **A flush keeps the invariant** when it does not get the rest of a record out. -/
lemma Flow.Inv.flush (h : s.Inv psk salt payloads plain k opened) (herror : s.writeError = none)
    (evs : List WriteEv) (inner : Poll IoError Unit)
    (hsalt : salt.length = saltSize) (hkeeps : s.keepsPending (.flush evs inner)) :
    ∃ payloads' plain' k', (s.flushed (s.sender.pollFlush evs inner).1
      (s.sender.pollFlush evs inner).2).Inv psk salt payloads' plain' k' opened := by
  by_cases hrest : s.sender.writer.pendingRest = []
  · -- nothing is pending
    have heq : s.sender.writer.pollFlush s.sender.codec evs inner =
        ⟨inner, s.sender.writer, [], none, []⟩ :=
      if_neg (by rw [pendingOff_lt_iff, not_not]; exact hrest)
    rw [pollFlush, heq]
    obtain ⟨error, heq'⟩ := s.flushed_eq ⟨inner, s.sender.writer, [], none, []⟩
      (s.sender.withWriter s.sender.writer)
    have hself : s.sender.withWriter s.sender.writer = s.sender := by
      cases s.sender <;> rfl
    have hflatten := (herror ▸ h.tx).of_idle hrest
    rw [heq']
    simp only [didSend, hself, append_nil, toList_none]
    refine ⟨payloads, plain, k, h.codec_eq, h.psk_eq, h.outgoing, ?_, h.received, h.opens, h.ahead⟩
    rw [hflatten]
    exact .idle hrest
  · -- the user is told as after another attempt of the write
    have hcapacity : capacity evs < s.sender.writer.pendingRest.length := by
      simpa [keepsPending, hrest] using hkeeps
    obtain ⟨buf, houtstanding, -⟩ := (herror ▸ h.tx).of_pending hrest
    have hwrite := h.write hsalt herror [] evs ⟨0, fun _ => 0⟩
    have hwrote : s.flushed (s.sender.pollFlush evs inner).1 (s.sender.pollFlush evs inner).2 =
        s.wrote buf (s.sender.pollWrite buf evs ⟨0, fun _ => 0⟩).1
          (s.sender.pollWrite buf evs ⟨0, fun _ => 0⟩).2 := by
      rw [s.sender.pollWrite_of_pending hrest, pollFlush, Writer.pollFlush,
        if_pos ((pendingOff_lt_iff _).mpr hrest), Writer.drainInput]
      obtain ⟨-, -, -, ⟨-, hle, -⟩ | ⟨-, -, hpoll | ⟨e, hpoll⟩⟩⟩ :=
        drains_drainWriter s.sender.codec s.sender.writer evs
      · omega
      all_goals simp only [hpoll, flushed, wrote, didSend, houtstanding]
    rw [houtstanding, getD_some, ← hwrote] at hwrite
    exact hwrite

section

variable (hsalt : salt.length = saltSize)
include hsalt

/-- **A read keeps the invariant**, finds nothing wrong, and gets ahead. -/
lemma Flow.Inv.read (h : s.Inv psk salt payloads plain k opened) (cap : ℕ) (evs : List ReadEv) :
    (∃ plain' opened', (s.step (.read cap evs)).Inv psk salt payloads plain' k opened') ∧
      (∀ e, (s.receiver.pollRead cap evs s.wire).1.poll = .err e → ReadFault s.sender.codec e) ∧
      work (s.step (.read cap evs)).receiver.reader (s.step (.read cap evs)).wire ≤
        work s.receiver.reader s.wire ∧
      (cap ≠ 0 → AllData evs → evs ≠ [] → s.sender.writer.pendingRest = [] →
        work s.receiver.reader s.wire ≠ 0 →
        work (s.step (.read cap evs)).receiver.reader (s.step (.read cap evs)).wire <
          work s.receiver.reader s.wire) := by
  have hread := Ahead.pollReadLoop s.sender.codec_lawful hsalt cap evs _ _ _ _ h.ahead
  rw [← h.codec_eq, ← h.psk_eq] at hread
  obtain ⟨plain', opened', hout, hle, hopens, hahead⟩ := hread.split
  have hreader : (s.step (.read cap evs)).receiver.reader =
      (pollReadLoop s.receiver.codec s.receiver.psk cap evs s.receiver.reader s.wire).reader :=
    s.receiver.reader_withReader _
  refine ⟨⟨plain', opened', ?_⟩, ?_, ?_, ?_⟩
  · refine ⟨?_, ?_, h.outgoing, h.tx, ?_, ?_, ?_⟩
    · exact (s.receiver.codec_withReader _).trans h.codec_eq
    · exact (s.receiver.psk_withReader _).trans h.psk_eq
    · rw [← h.received, ← hout, ← append_assoc]
      rfl
    · show s.opens ++ _ = _
      rw [h.opens]
      exact (congrArg _ hopens).trans (noncesFrom_append (zero_le _) hle)
    · rw [hreader]
      show Ahead s.sender.codec psk salt s.sender.writer.saltSent _ opened'
        (_ ++ s.sender.writer.pendingRest) plain' k
      rw [← h.codec_eq, ← h.psk_eq]
      exact hahead
  · exact h.codec_eq ▸ hread.valid
  · rw [hreader]
    exact hread.le
  · rw [hreader]
    exact hread.lt

/-- **A step keeps the invariant.** -/
lemma Flow.Inv.step (h : s.Inv psk salt payloads plain k opened) (op : Op)
    (hkeeps : s.keepsPending op) :
    ∃ payloads' plain' k' opened', (s.step op).Inv psk salt payloads' plain' k' opened' := by
  cases op with
  | write buf evs choice =>
    rw [Flow.step]
    split_ifs with herror
    · exact ⟨_, _, _, _, h⟩
    · rw [Bool.not_eq_true, isSome_eq_false_iff, isNone_iff_eq_none] at herror
      obtain ⟨payloads', plain', k', hinv⟩ := h.write hsalt herror buf evs choice
      exact ⟨payloads', plain', k', opened, hinv⟩
  | flush evs inner =>
    rw [Flow.step]
    split_ifs with herror
    · exact ⟨_, _, _, _, h⟩
    · rw [Bool.not_eq_true, isSome_eq_false_iff, isNone_iff_eq_none] at herror
      obtain ⟨payloads', plain', k', hinv⟩ := h.flush herror evs inner hsalt hkeeps
      exact ⟨payloads', plain', k', opened, hinv⟩
  | read cap evs =>
    obtain ⟨⟨plain', opened', hinv⟩, -⟩ := h.read hsalt cap evs
    exact ⟨_, plain', k, opened', hinv⟩

/-- **The invariant holds in every state** of a run that keeps what is pending. -/
lemma Flow.Inv.run (ops : List Op) :
    ∀ {s : Flow aead} {payloads plain k opened}, s.Inv psk salt payloads plain k opened →
      s.alwaysKeepsPending ops →
      ∃ payloads' plain' k' opened', (s.run ops).Inv psk salt payloads' plain' k' opened' := by
  induction ops with
  | nil => exact fun h _ => ⟨_, _, _, _, h⟩
  | cons op ops ih =>
    intro s payloads plain k opened h hkeeps
    rw [alwaysKeepsPending, Bool.and_eq_true] at hkeeps
    obtain ⟨payloads', plain', k', opened', hstep⟩ := h.step hsalt op hkeeps.1
    exact ih hstep hkeeps.2

end

lemma Flow.records_wrote (s : Flow aead) (buf : List UInt8) (r : Wrote aead ℕ)
    (sender : SnellInner aead) : (s.wrote buf r sender).records = s.records ++ r.staged.toList := by
  rw [wrote]
  split <;> rfl

/-- Each step stages one record at most. -/
lemma Flow.records_step (s : Flow aead) (op : Op) :
    (s.step op).records.length ≤ s.records.length + 1 := by
  cases op with
  | write buf evs choice =>
    rw [step]
    split_ifs
    · exact le_succ _
    · rw [records_wrote, length_append]
      exact Nat.add_le_add_left length_toList_le _
  | flush evs inner =>
    rw [step]
    split_ifs
    · exact le_succ _
    · obtain ⟨error, heq⟩ := s.flushed_eq (s.sender.pollFlush evs inner).1
        (s.sender.pollFlush evs inner).2
      rw [heq, didSend, length_append]
      exact Nat.add_le_add_left length_toList_le _
  | read cap evs => exact le_succ _

lemma Flow.records_run (ops : List Op) (s : Flow aead) :
    (s.run ops).records.length ≤ s.records.length + ops.length := by
  induction ops generalizing s with
  | nil => exact le_rfl
  | cons op ops ih =>
    have hstep := s.records_step op
    have hrun := ih (s.step op)
    rw [length_cons]
    exact hrun.trans (by omega)

/-- The version of a connection does not change. -/
lemma Flow.codec_step (s : Flow aead) (op : Op) :
    (s.step op).receiver.codec = s.receiver.codec := by
  cases op with
  | write | flush =>
    rw [step]
    split_ifs
    · rfl
    · first | rw [wrote] | rw [flushed]
      split <;> rfl
  | read cap evs => exact s.receiver.codec_withReader _

lemma Flow.codec_run (ops : List Op) (s : Flow aead) :
    (s.run ops).receiver.codec = s.receiver.codec := by
  induction ops generalizing s with
  | nil => rfl
  | cons op ops ih => exact (ih (s.step op)).trans (s.codec_step op)

/-- Both users start afresh. -/
inductive NewPair (aead : Aead) (psk salt : List UInt8) :
    SnellInner aead → SnellInner aead → Prop
  | v3 (salt' : List UInt8) :
      NewPair aead psk salt (.newV3 aead psk salt) (.newV3 aead psk salt')
  | v4 (random random' : ℕ) (salt' : List UInt8) :
      NewPair aead psk salt (.newV4 aead psk salt random) (.newV4 aead psk salt' random')

lemma Flow.Inv.new {receiver} (h : NewPair aead psk salt sender receiver) :
    (Flow.new sender receiver).Inv psk salt [] [] 0 0 := by
  have hahead : Ahead sender.codec psk salt false (.needSalt [] : ReaderState aead) 0 [] [] 0 :=
    ⟨rfl, by decide, .inl ⟨rfl, rfl, rfl, rfl, rfl⟩⟩
  cases h <;> refine ⟨rfl, rfl, ⟨rfl, rfl, rfl, rfl, rfl, .inl ⟨rfl, rfl, rfl, rfl⟩, le_rfl, ?_,
    by simp [Flow.new]⟩, .idle rfl, rfl, rfl, hahead⟩
  · exact trivial
  · exact fun _ => rfl

/-- Enough reads get everything. -/
lemma Flow.Inv.reads (hsalt : salt.length = saltSize) (reads : List (ℕ × List ReadEv)) :
    (∀ read ∈ reads, read.1 ≠ 0 ∧ AllData read.2 ∧ read.2 ≠ []) →
    ∀ {s : Flow aead} {plain opened}, s.Inv psk salt payloads plain k opened →
      s.sender.writer.pendingRest = [] → work s.receiver.reader s.wire ≤ reads.length →
      (s.run (reads.map fun read => .read read.1 read.2)).received = payloads.flatten ∧
        (s.run (reads.map fun read => .read read.1 read.2)).opens = noncesFrom 0 k := by
  induction reads with
  | nil =>
    intro _ s plain opened h hrest hwork
    rw [work, length_nil] at hwork
    have hwire : s.wire = [] := length_eq_zero_iff.mp (by omega)
    have hahead := h.ahead
    rw [hwire, hrest] at hahead
    obtain ⟨-, rfl, rfl⟩ := hahead.all_read s.sender.codec_lawful hsalt (.inr (by omega))
    refine ⟨?_, h.opens⟩
    rw [← h.received, append_nil]
    rfl
  | cons read reads ih =>
    intro hreads s plain opened h hrest hwork
    obtain ⟨hcap, hdata, hne⟩ := hreads read mem_cons_self
    obtain ⟨⟨plain', opened', hinv⟩, -, hle, hlt⟩ := h.read hsalt read.1 read.2
    refine ih (fun r hr => hreads r (mem_cons_of_mem _ hr)) hinv hrest ?_
    rw [length_cons] at hwork
    show work (s.step (.read read.1 read.2)).receiver.reader
      (s.step (.read read.1 read.2)).wire ≤ reads.length
    by_cases hzero : work s.receiver.reader s.wire = 0
    · omega
    · have := hlt hcap hdata hne hrest hzero
      omega

end Invariant

/-! ### Runs -/

lemma Tx.bounds {accepted staged} {outstanding : Option (List UInt8)} {error}
    (h : Tx w accepted outstanding error staged) :
    accepted <+: staged ∧
      staged <+: accepted ++ (outstanding.getD []).take maxPayloadLength := by
  have htake : ∀ (buf : List UInt8) {n : ℕ}, n ≤ maxPayloadLength →
      accepted ++ buf.take n <+: accepted ++ buf.take maxPayloadLength := by
    intro buf n hn
    exact (prefix_append_right_inj accepted).mpr (take_prefix_take_left hn)
  cases h with
  | idle => exact ⟨prefix_rfl, prefix_append _ _⟩
  | pending _ houtstanding hinput =>
    rw [houtstanding]
    exact ⟨prefix_append _ _, htake _ hinput⟩
  | failed _ hn => exact ⟨prefix_append _ _, htake _ hn⟩

lemma prefix_noncesFrom_zero {m n} (h : m ≤ n) : noncesFrom 0 m <+: noncesFrom 0 n :=
  ⟨noncesFrom m n, noncesFrom_append (zero_le m) h⟩

lemma nodup_noncesFrom_zero (h : k ≤ 256 ^ nonceSize) : (noncesFrom 0 k).Nodup := by
  rw [noncesFrom, ← range_eq_range']
  exact nodup_counterAt h

/-- **What is written is received.** A new Snell connection of either version writes and another
one reads, in a run without a flush or a shutdown that gets the record of an unfinished write out.
In the state that is reached:

* what was sent, and what is left of the pending record, is the salt and sealed records, whose
  lengths fit their fields; the first of version four fits its limit;
* their payloads are the bytes of the writes that returned, and of the record of at most one that
  did not; what was received is the first of them;
* the nonces of the sender are the first values of the counter, each once until it comes round,
  and the receiver uses the same in the same order;
* a read finds nothing wrong; and with nothing pending, enough of them get everything.

**Proof sketch.** `Flow.Inv` holds at the beginning and along the run. A write drains the record
that is pending or stages the next one behind it (`Outgoing.stages`, `Ahead.append`); a read takes
the next bytes from what is ahead (`Ahead.pollReadLoop`). -/
theorem run_records_delivered (aead : Aead) (psk salt : List UInt8) (hsalt : salt.length = saltSize)
    (sender receiver : SnellInner aead) (hnew : NewPair aead psk salt sender receiver)
    (ops : List Op) (hkeeps : (Flow.new sender receiver).alwaysKeepsPending ops = true) :
    let s := (new sender receiver).run ops
    (∃ payloads k, Sent sender.codec (aead.derive psk salt) salt s.records payloads k ∧
      s.sent ++ s.sender.writer.pendingRest = s.records.flatten ∧
      s.accepted <+: payloads.flatten ∧
      payloads.flatten <+: s.accepted ++ (s.outstanding.getD []).take maxPayloadLength ∧
      s.received <+: payloads.flatten ∧
      s.seals = noncesFrom 0 k) ∧
    (∀ record, s.records.head? = some record → FitsFirst sender.codec record) ∧
    s.opens <+: s.seals ∧
    (2 * ops.length ≤ 256 ^ nonceSize → s.seals.Nodup) ∧
    (∀ cap evs e, (s.receiver.pollRead cap evs s.wire).1.poll = .err e →
      ReadFault sender.codec e) ∧
    (s.sender.writer.pendingRest = [] → s.writeError = none →
      ∀ reads : List (ℕ × List ReadEv),
        (∀ read ∈ reads, read.1 ≠ 0 ∧ AllData read.2 ∧ read.2 ≠ []) →
        work s.receiver.reader s.wire ≤ reads.length →
        (s.run (reads.map fun read => .read read.1 read.2)).received = s.accepted ∧
        (s.run (reads.map fun read => .read read.1 read.2)).opens = s.seals) := by
  intro s
  obtain ⟨payloads, plain, k, opened, hinv⟩ := (Flow.Inv.new hnew).run hsalt ops hkeeps
  have hcodec : s.sender.codec = sender.codec := by
    rw [← hinv.codec_eq, codec_run]
    cases hnew <;> rfl
  have hout := hinv.outgoing
  rw [← hcodec]
  refine ⟨⟨payloads, k, hout.stream.imp And.right And.right, hout.out, hinv.tx.bounds.1,
    hinv.tx.bounds.2, ⟨plain, hinv.received⟩, hout.seals_eq⟩, hout.first, ?_, ?_,
    fun cap evs => (hinv.read hsalt cap evs).2.1, ?_⟩
  · rw [hinv.opens, hout.seals_eq]
    exact prefix_noncesFrom_zero hinv.ahead.opened_le
  · intro hops
    have hcount : k ≤ 2 * s.records.length := hout.count
    have hrecords : s.records.length ≤ 0 + ops.length := records_run ops _
    rw [hout.seals_eq]
    exact nodup_noncesFrom_zero (hcount.trans (by omega))
  · intro hrest herror reads hreads hwork
    obtain ⟨hreceived, hopens⟩ := hinv.reads hsalt reads hreads hrest hwork
    exact ⟨hreceived.trans ((herror ▸ hinv.tx).of_idle hrest), hopens.trans hout.seals_eq.symm⟩

/-- The salt of the runs below. -/
def sampleSalt : List UInt8 := List.replicate 16 9

/-- Two users of version four. -/
def samplePair : Flow tagAead :=
  .new (.newV4 tagAead [1] sampleSalt 0) (.newV4 tagAead [1] sampleSalt 0)

/-- A write that the transport takes in two parts, and a read. -/
def sampleRun : List Op :=
  [.write [1, 2, 3] [.accept 9] ⟨0, fun _ => 0⟩, .flush [] (.ok ()),
    .write [1, 2, 3] [.accept 9, .accept 999] ⟨1, fun _ => 0⟩,
    .read 10 [.data 99, .data 99, .data 999]]

/-- In such a run the bytes that were accepted are the payloads of sealed records. -/
theorem sampleRun_records_delivered :
    ∃ payloads k, Sent v4 (tagAead.derive [1] sampleSalt) sampleSalt
        (samplePair.run sampleRun).records payloads k ∧
      [1, 2, 3] <+: payloads.flatten := by
  obtain ⟨⟨payloads, k, hsent, -, haccepted, -⟩, -⟩ := run_records_delivered tagAead [1] sampleSalt
    rfl _ _ (.v4 0 0 sampleSalt) sampleRun (by decide +kernel)
  have heq : (samplePair.run sampleRun).accepted = [1, 2, 3] := by
    decide +kernel
  exact ⟨payloads, k, hsent, heq ▸ haccepted⟩

/-- A write of three bytes that is `Pending`, a flush that gets its record out, the retry of the
write, and two reads. -/
def flushedRun : List Op :=
  [.write [1, 2, 3] [] ⟨0, fun _ => 0⟩, .flush [.accept 999] (.ok ()),
    .write [1, 2, 3] [.accept 999] ⟨1, fun _ => 0⟩,
    .read 10 [.data 99, .data 99, .data 999], .read 10 [.data 99, .data 99]]

/-- **A flush between a write and its retry**: three bytes are written once, and received twice. -/
theorem flush_repeats_record : (samplePair.run flushedRun).accepted = [1, 2, 3] ∧
      (samplePair.run flushedRun).received = [1, 2, 3, 1, 2, 3] := by
  decide +kernel

end Meow.Snell
