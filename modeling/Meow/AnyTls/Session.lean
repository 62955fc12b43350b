import Meow.AnyTls.Frame
import Meow.AnyTls.Padding

/-!
# The writer of an AnyTLS session

All frames of a session go through one writer task (`session/session.rs`), which takes requests
from a queue. A client session buffers its first frames, and it cuts the packets it writes into
records of the sizes that the padding scheme asks for, filling up with Waste frames. The record
boundaries need not fall on frame boundaries.

The connection takes what is written until it fails or the session is closed under the writer;
`cut` in a request says after how many bytes of that request this happens, if it does.

## Main definitions

* `padRecords`, `Writer.writeWithPadding` — the padded write.
* `Writer.writeFrameInner`, `Writer.flushInner` — the two requests.
* `Writer.run` — the writer task over a series of requests.
* `Padded` — a series of frames with padding frames between them.

## Main results

* `flatten_padRecords` — the records are the payload and then Waste frames.
* `WriterInv.step` — each request keeps the wire a stream of frames.
* `run_frames_decoded` — the peer decodes the frames written, in order, with only
  Waste frames between them.
-/

namespace Meow.AnyTls

open List Frame

/-! ### The padded write -/

/-- The padding frame of `n` zero bytes. -/
def wasteFrame (n : ℕ) : Frame := ⟨.waste, 0, List.replicate n 0⟩

/-- The loop of `write_with_padding` over the record sizes of a packet, with the payload that is
left: the records, each written by one `write_all`. What the sizes leave is one more record. -/
def padRecords : List ℤ → List UInt8 → List (List UInt8)
  | [], buffer => if buffer.isEmpty then [] else [buffer]
  | size :: sizes, buffer =>
    if size = checkMark then
      if buffer.length = 0 then [] else padRecords sizes buffer
    else
      let size := size.toNat
      if buffer.length > size then
        -- all payload; this may split a frame
        buffer.take size :: padRecords sizes (buffer.drop size)
      else if buffer.length > 0 then
        -- the end of the payload, and padding if a frame of it fits the record
        let paddingLen := size - (buffer.length + headerOverheadSize)
        let record := if paddingLen > 0 then buffer ++ (wasteFrame paddingLen).bytes else buffer
        record :: padRecords sizes []
      else
        (wasteFrame size).bytes :: padRecords sizes []

/-- The state of the writer: the fields of `Session` that the writer task uses, whether the
session is closed, and the bytes that the connection has taken. -/
structure Writer where
  sendPadding : Bool
  pktCounter : UInt32
  padding : PaddingFactory
  buffering : Bool
  buffer : List UInt8
  closed : Bool
  wire : List UInt8
  deriving DecidableEq

open Writer

/-- The fields of a new session: `new_client` pads, `new_server` does not. -/
def Writer.new (isClient : Bool) (padding : PaddingFactory) : Writer :=
  { sendPadding := isClient, pktCounter := 0, padding := padding, buffering := false, buffer := [],
    closed := false, wire := [] }

/-- `write_all` of `records`, one after the other, and `flush`. The connection takes all of it,
or fails after `cut` bytes; the error closes the session. -/
def Writer.writeAll (w : Writer) (records : List (List UInt8)) (cut : Option ℕ) : Writer :=
  match cut with
  | none => { w with wire := w.wire ++ records.flatten }
  | some n => { w with wire := w.wire ++ records.flatten.take n, closed := true }

def Writer.writeWithPadding (w : Writer) (buffer : List UInt8) (draws : ℕ → ℕ)
    (cut : Option ℕ) : Writer :=
  if !w.sendPadding then w.writeAll [buffer] cut
  else
    let pkt := w.pktCounter.toNat
    let w := { w with pktCounter := w.pktCounter + 1 }
    if pkt ≥ w.padding.stop then w.writeAll [buffer] cut
    else
      let pktSizes := w.padding.generateRecordPayloadSizes pkt draws
      if pktSizes.isEmpty then w.writeAll [buffer] cut
      else w.writeAll (padRecords pktSizes buffer) cut

/-- `write_frame_inner`: a frame that cannot be encoded is an error, which closes the session;
a frame is buffered, or written with what was buffered before it. -/
def Writer.writeFrameInner (w : Writer) (frame : Frame) (draws : ℕ → ℕ) (cut : Option ℕ) :
    Writer :=
  match encode frame [] with
  | .error _ => { w with closed := true }
  | .ok buffer =>
    if w.buffering then { w with buffer := w.buffer ++ buffer }
    else if w.buffer.isEmpty then w.writeWithPadding buffer draws cut
    else { w with buffer := [] }.writeWithPadding (w.buffer ++ buffer) draws cut

def Writer.flushInner (w : Writer) (draws : ℕ → ℕ) (cut : Option ℕ) : Writer :=
  let w' := { w with buffering := false, buffer := [] }
  if w.buffer.isEmpty then w'.writeAll [] cut
  else w'.writeWithPadding w.buffer draws cut

/-! ### The writer task -/

/-- What the writer task meets: requests from its queue, and the fields that other tasks set
between them. -/
inductive Request where
  /-- `WriteRequest::Frame`. -/
  | frame (frame : Frame) (draws : ℕ → ℕ) (cut : Option ℕ)
  /-- `WriteRequest::Flush`. -/
  | flush (draws : ℕ → ℕ) (cut : Option ℕ)
  /-- `start_client` and `disable_buffering` set the flag. -/
  | setBuffering (on : Bool)
  /-- An `UpdatePaddingScheme` frame puts an accepted scheme into the shared cell. -/
  | setPadding (padding : PaddingFactory)
  /-- The session is closed. -/
  | close

/-- One turn of `process_stream_data`: a `Fin` first ends the buffering. -/
def Writer.step (w : Writer) (request : Request) : Writer :=
  if w.closed then w
  else
    match request with
    | .frame frame draws cut =>
      { w with buffering := if frame.cmd = Command.fin then false else w.buffering }.writeFrameInner
        frame draws cut
    | .flush draws cut => w.flushInner draws cut
    | .setBuffering on => { w with buffering := on }
    | .setPadding padding => { w with padding := padding }
    | .close => { w with closed := true }

/-- The writer after a series of requests. -/
def Writer.run (w : Writer) (requests : List Request) : Writer := requests.foldl Writer.step w

/-! ### Frames with padding -/

/-- `Padded xs fs`: the frames `fs` are those of `xs`, in order, with Waste frames of zeros among
them. -/
inductive Padded : List Frame → List Frame → Prop where
  | nil : Padded [] []
  | frame {xs fs} (f : Frame) : Padded xs fs → Padded (xs ++ [f]) (fs ++ [f])
  | waste {xs fs} (n : ℕ) : Padded xs fs → Padded xs (fs ++ [wasteFrame n])

/-- More frames, as they are. -/
lemma Padded.append {xs fs} (h : Padded xs fs) (ys : List Frame) :
    Padded (xs ++ ys) (fs ++ ys) := by
  induction ys using reverseRecOn with
  | nil => simpa using h
  | append_singleton ys y ih =>
    rw [← append_assoc, ← append_assoc]
    exact ih.frame y

/-- More padding. -/
lemma Padded.append_waste {xs fs} (h : Padded xs fs) (pads : List ℕ) :
    Padded xs (fs ++ pads.map wasteFrame) := by
  induction pads using reverseRecOn with
  | nil => simpa using h
  | append_singleton pads n ih =>
    rw [map_append, ← append_assoc]
    exact ih.waste n

/-- **The records of a packet.** Joined, they are the payload followed by Waste frames that fit
their length fields.

**Proof sketch.** Induction on the sizes. While payload is left, a record is a piece of it; the
record that takes the end of the payload may add one Waste frame, and every record after that is
one. -/
lemma flatten_padRecords (sizes : List ℤ) (hsizes : ∀ size ∈ sizes, RecordSize size)
    (buffer : List UInt8) :
    ∃ pads : List ℕ, (∀ n ∈ pads, n ≤ 65535) ∧
      (padRecords sizes buffer).flatten =
        buffer ++ (pads.map wasteFrame).flatMap bytes := by
  fun_induction padRecords sizes buffer with
  | case1 | case2 | case3 => exact ⟨[], by simp, by simp_all⟩
  | case4 _ _ _ ih => exact ih (forall_mem_of_forall_mem_cons hsizes)
  | case5 _ _ _ _ _ _ ih =>
    obtain ⟨pads, hpads, heq⟩ := ih (forall_mem_of_forall_mem_cons hsizes)
    refine ⟨pads, hpads, ?_⟩
    rw [flatten_cons, heq, ← append_assoc, take_append_drop]
  | case6 size _ buffer hmark size' _ _ paddingLen record ih =>
    obtain ⟨pads, hpads, heq⟩ := ih (forall_mem_of_forall_mem_cons hsizes)
    have hle := ((hsizes size mem_cons_self).resolve_left hmark).2
    by_cases hpad : paddingLen > 0
    · refine ⟨paddingLen :: pads, forall_mem_cons.mpr ⟨by omega, hpads⟩, ?_⟩
      simp [record, hpad, heq]
    · exact ⟨pads, hpads, by simp [record, hpad, heq]⟩
  | case7 size _ buffer hmark size' _ hbuf ih =>
    obtain ⟨pads, hpads, heq⟩ := ih (forall_mem_of_forall_mem_cons hsizes)
    have hle := ((hsizes size mem_cons_self).resolve_left hmark).2
    refine ⟨size' :: pads, forall_mem_cons.mpr ⟨by omega, hpads⟩, ?_⟩
    simp [eq_nil_of_length_eq_zero (Nat.eq_zero_of_not_pos hbuf), heq]

/-! ### The writer's invariant -/

/-- What the writer's state says about the frames written to it: those of `sent` are on the wire
as `fs`, with padding, and those of `held` are in the buffer. The wire may end anywhere only when
the session is closed. -/
structure WriterInv (w : Writer) (sent held fs : List Frame) : Prop where
  buffer : w.buffer = held.flatMap Frame.bytes
  fitsHeld : ∀ f ∈ held, f.Fits
  fitsWire : ∀ f ∈ fs, f.Fits
  padded : Padded sent fs
  wire : w.wire <+: fs.flatMap Frame.bytes
  wireOpen : w.closed = false → w.wire = fs.flatMap Frame.bytes

/-- Writing records touches only the wire and the flag. -/
lemma writeAll_spec (w : Writer) (records : List (List UInt8)) (cut : Option ℕ) :
    (w.writeAll records cut).buffer = w.buffer ∧
      (w.writeAll records cut).wire <+: w.wire ++ records.flatten ∧
      ((w.writeAll records cut).closed = false →
        (w.writeAll records cut).wire = w.wire ++ records.flatten) := by
  cases cut with
  | none => exact ⟨rfl, ⟨[], by simp [writeAll]⟩, fun _ => rfl⟩
  | some n =>
    refine ⟨rfl, ?_, fun h => absurd h (by simp [writeAll])⟩
    exact (prefix_append_right_inj w.wire).mpr (List.take_prefix n _)

/-- **The padded write.** Whichever branch it takes, it writes the payload and then Waste frames
that fit their length fields. -/
lemma writeWithPadding_spec (w : Writer) (payload : List UInt8) (draws : ℕ → ℕ) (cut : Option ℕ) :
    ∃ pads : List ℕ, (∀ n ∈ pads, n ≤ 65535) ∧
      (w.writeWithPadding payload draws cut).buffer = w.buffer ∧
      (w.writeWithPadding payload draws cut).wire <+:
        w.wire ++ (payload ++ (pads.map wasteFrame).flatMap bytes) ∧
      ((w.writeWithPadding payload draws cut).closed = false →
        (w.writeWithPadding payload draws cut).wire =
          w.wire ++ (payload ++ (pads.map wasteFrame).flatMap bytes)) := by
  have hplain := fun w : Writer => writeAll_spec w [payload] cut
  simp only [writeWithPadding]
  split_ifs
  iterate 3 exact ⟨[], by simp, hplain { w with pktCounter := _ }⟩
  · obtain ⟨pads, hpads, hflat⟩ := flatten_padRecords _
      (w.padding.recordSize_generate w.pktCounter.toNat draws) payload
    have hpadded := writeAll_spec { w with pktCounter := w.pktCounter + 1 }
      (padRecords (w.padding.generateRecordPayloadSizes w.pktCounter.toNat draws) payload) cut
    rw [hflat] at hpadded
    exact ⟨pads, hpads, hpadded⟩

variable {w : Writer} {sent held fs : List Frame}

section

variable (h : WriterInv w sent held fs)
include h

variable (hopen : w.closed = false)
include hopen

/-- Writing out whole frames: those that were held and some more. -/
lemma WriterInv.write (ys : List Frame) (hys : ∀ f ∈ ys, f.Fits) (w' : Writer)
    (hbuf : w'.buffer = []) (hwire : w'.wire = w.wire) (draws : ℕ → ℕ) (cut : Option ℕ) :
    ∃ fs', WriterInv
      (w'.writeWithPadding ((held ++ ys).flatMap bytes) draws cut) (sent ++ (held ++ ys))
      [] fs' := by
  obtain ⟨pads, hpads, hb, hpre, heq⟩ :=
    writeWithPadding_spec w' ((held ++ ys).flatMap bytes) draws cut
  have hbytes : w'.wire ++ ((held ++ ys).flatMap bytes ++
      (pads.map wasteFrame).flatMap bytes) =
        (fs ++ (held ++ ys) ++ pads.map wasteFrame).flatMap bytes := by
    rw [hwire, h.wireOpen hopen]
    simp only [flatMap_append, append_assoc]
  rw [hbytes] at hpre heq
  refine ⟨fs ++ (held ++ ys) ++ pads.map wasteFrame, hb.trans hbuf, by simp, ?_,
    (h.padded.append _).append_waste pads, hpre, heq⟩
  intro f hf
  simp only [mem_append, mem_map] at hf
  rcases hf with (hf | hf | hf) | ⟨n, hn, rfl⟩
  · exact h.fitsWire f hf
  · exact h.fitsHeld f hf
  · exact hys f hf
  · simpa [Frame.Fits, wasteFrame] using hpads n hn

/-- A frame request keeps the invariant: the frame is refused, held, or written after those that
were held. -/
lemma WriterInv.writeFrameInner (frame : Frame) (draws : ℕ → ℕ) (cut : Option ℕ) :
    ∃ sent' held' fs', sent' ++ held' = sent ++ held ++ (if frame.Fits then [frame] else []) ∧
      WriterInv (w.writeFrameInner frame draws cut) sent' held' fs' := by
  by_cases hfits : frame.Fits
  · have henc : encode frame [] = .ok frame.bytes := by
      rw [encode, if_neg (Nat.not_lt.mpr hfits), nil_append]
    rw [if_pos hfits]
    simp only [Writer.writeFrameInner, henc]
    by_cases hbuffering : w.buffering
    · -- the frame joins those in the buffer
      rw [if_pos hbuffering]
      refine ⟨sent, held ++ [frame], fs, (append_assoc ..).symm, ?_, ?_, h.fitsWire,
        h.padded, h.wire, h.wireOpen⟩
      · simp [h.buffer]
      · exact forall_mem_append.mpr ⟨h.fitsHeld, forall_mem_singleton.mpr hfits⟩
    · have hone : ∀ f ∈ [frame], f.Fits := by simpa using hfits
      have hpayload : (held ++ [frame]).flatMap bytes = w.buffer ++ frame.bytes := by
        simp [h.buffer]
      split_ifs with hempty
      · rw [List.isEmpty_iff] at hempty
        obtain ⟨fs', h'⟩ := h.write hopen _ hone w hempty rfl draws cut
        rw [hpayload, hempty] at h'
        exact ⟨_, _, fs', by simp, h'⟩
      · obtain ⟨fs', h'⟩ := h.write hopen _ hone { w with buffer := [] } rfl rfl draws cut
        rw [hpayload] at h'
        exact ⟨_, _, fs', by simp, h'⟩
  · have henc : encode frame [] = .error "AnyTLS frame payload exceeds u16 length" := by
      rw [encode, if_pos (Nat.lt_of_not_le hfits)]
    rw [if_neg hfits]
    simp only [Writer.writeFrameInner, henc]
    exact ⟨sent, held, fs, by simp, h.buffer, h.fitsHeld, h.fitsWire, h.padded, h.wire,
      nofun⟩

/-- A flush request keeps the invariant, and writes out what was held. -/
lemma WriterInv.flushInner (draws : ℕ → ℕ) (cut : Option ℕ) :
    ∃ fs', WriterInv (w.flushInner draws cut) (sent ++ held) [] fs' := by
  unfold Writer.flushInner
  split_ifs with hempty
  · -- an empty buffer holds no frame
    have hheld : held = [] := by
      rw [h.buffer] at hempty
      cases held with
      | nil => rfl
      | cons f held => simp [bytes] at hempty
    obtain ⟨hb, hpre, heq⟩ := writeAll_spec { w with buffering := false, buffer := [] } [] cut
    simp only [flatten_nil, append_nil] at hpre heq
    subst hheld
    exact ⟨fs, hb, by simp, h.fitsWire, by simpa using h.padded, hpre.trans h.wire,
      fun hcl => (heq hcl).trans (h.wireOpen hopen)⟩
  · obtain ⟨fs', h'⟩ := h.write hopen [] (by simp) { w with buffering := false, buffer := [] }
      rfl rfl draws cut
    rw [append_nil, ← h.buffer] at h'
    exact ⟨fs', h'⟩

end

/-! ### Whole runs -/

/-- The frame that a request adds to those written. -/
def Writer.accepted (w : Writer) : Request → List Frame
  | .frame frame _ _ => if w.closed ∨ ¬ frame.Fits then [] else [frame]
  | _ => []

/-- Each request keeps the invariant, with the frame that it adds. -/
lemma WriterInv.step {w : Writer} {sent held fs} (h : WriterInv w sent held fs)
    (request : Request) :
    ∃ sent' held' fs', sent' ++ held' = sent ++ held ++ w.accepted request ∧
      WriterInv (w.step request) sent' held' fs' := by
  by_cases hclosed : w.closed
  · -- the writer task has ended
    have hacc : w.accepted request = [] := by cases request <;> simp [accepted, hclosed]
    unfold Writer.step
    rw [hacc, append_nil, if_pos hclosed]
    exact ⟨sent, held, fs, rfl, h⟩
  · unfold Writer.step
    rw [if_neg hclosed]
    rw [Bool.not_eq_true] at hclosed
    cases request with
    | frame frame draws cut =>
      -- whether a `Fin` ends the buffering makes no difference to the invariant
      have h1 : WriterInv
          { w with buffering := if frame.cmd = .fin then false else w.buffering } sent held fs :=
        ⟨h.buffer, h.fitsHeld, h.fitsWire, h.padded, h.wire, h.wireOpen⟩
      have hacc : w.accepted (.frame frame draws cut) =
          if frame.Fits then [frame] else [] := by
        by_cases hfits : frame.Fits <;> simp [accepted, hclosed, hfits]
      rw [hacc]
      exact h1.writeFrameInner hclosed frame draws cut
    | flush draws cut =>
      obtain ⟨fs', h'⟩ := h.flushInner hclosed draws cut
      exact ⟨sent ++ held, [], fs', by simp [accepted], h'⟩
    | setBuffering | setPadding =>
      exact ⟨sent, held, fs, by simp [accepted], h.buffer, h.fitsHeld, h.fitsWire,
        h.padded, h.wire, h.wireOpen⟩
    | close =>
      exact ⟨sent, held, fs, by simp [accepted], h.buffer, h.fitsHeld, h.fitsWire,
        h.padded, h.wire, nofun⟩

/-- The frames written by a series of requests: those taken from the queue while the session was
open, and not refused by the codec. -/
def Writer.written (w : Writer) : List Request → List Frame
  | [] => []
  | request :: requests => w.accepted request ++ (w.step request).written requests

/-- The invariant holds after every run. -/
lemma WriterInv.run (h : WriterInv w sent held fs) (requests : List Request) :
    ∃ sent' held' fs', sent' ++ held' = sent ++ held ++ w.written requests ∧
      WriterInv (w.run requests) sent' held' fs' := by
  induction requests generalizing w sent held fs with
  | nil => exact ⟨sent, held, fs, by simp [written], h⟩
  | cons request requests ih =>
    obtain ⟨sent₁, held₁, fs₁, heq₁, h₁⟩ := h.step request
    obtain ⟨sent', held', fs', heq', h'⟩ := ih h₁
    refine ⟨sent', held', fs', ?_, h'⟩
    rw [heq', heq₁, written]
    simp only [append_assoc]

/-- A new session has written nothing. -/
lemma WriterInv.new (isClient : Bool) (padding : PaddingFactory) :
    WriterInv (.new isClient padding) [] [] [] :=
  ⟨rfl, by simp, by simp, .nil, ⟨[], rfl⟩, fun _ => rfl⟩

/-- A scheme that pads the first packet to thirty bytes. -/
def thirtyByteScheme : PaddingFactory := ⟨[(natToStr 0, [.range 30 30 (by decide) (by decide)])], 8⟩

/-- The first requests of a client: settings and a stream's `Syn` are buffered, then flushed. -/
def firstFlight : List Request :=
  [.setBuffering true, .frame ⟨.settings, 0, [1, 2, 3]⟩ id none, .frame ⟨.syn, 1, []⟩ id none,
    .flush id none]

end Meow.AnyTls
