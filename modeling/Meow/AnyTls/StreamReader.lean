import Meow.AnyTls.Frame

/-!
# Reading from an AnyTLS stream

The receiving loop of a session hands the payloads of a stream's Push frames over a channel to the
stream's reader (`handle_frame` in `session/session.rs`). The sender of the channel is dropped with
the peer's Fin and when the session is closed. The reader (`session/stream_reader.rs`) answers
from what an earlier payload has left, or from the next payload of the channel; a payload without
bytes it hands on as it is, and a read of no bytes is what its caller takes for the end.

The stream is one that the local side keeps open: its own Fin ends both directions.

## Main definitions

* `StreamReader`, `StreamReader.read` — the reader and its channel.
* `Reading.run` — frames, the end of the session and reads, in any order.
* `ReadsRight` — what the reads of a run should give.

## Main results

* `ReadInv.step` — what has arrived has been read or is kept for a later read.
* `readsRight_iff` — reads are right unless a payload of the stream is empty.
-/

namespace Meow.AnyTls

open List

/-! ### The reader -/

/-- `StreamReader` with its channel; `sender` says whether the session still has the sender. -/
structure StreamReader where
  sender : Bool
  readerRx : List (List UInt8)
  readerBuffer : List UInt8
  eof : Bool
  deriving DecidableEq

def StreamReader.new : StreamReader := ⟨true, [], [], false⟩

/-- What a poll of a read gives. -/
inductive ReadResult where
  | pending
  | ready (bytes : List UInt8)
  deriving DecidableEq

open ReadResult

def ReadResult.bytes : ReadResult → List UInt8
  | .pending => []
  | .ready bytes => bytes

/-- `StreamReader::read` into a buffer of `room` bytes. -/
def StreamReader.read (r : StreamReader) (room : ℕ) : ReadResult × StreamReader :=
  if r.eof && r.readerBuffer.isEmpty then (.ready [], r)
  else if !r.readerBuffer.isEmpty then
    (.ready (r.readerBuffer.take room), { r with readerBuffer := r.readerBuffer.drop room })
  else
    match r.readerRx with
    | data :: rest =>
      (.ready (data.take room), { r with readerRx := rest, readerBuffer := data.drop room })
    | [] => if r.sender then (.pending, r) else (.ready [], { r with eof := true })

/-- `handle_frame` for the reader of the stream `id`. An alert closes the session; the other
commands have nothing to do with the channels. -/
def StreamReader.handleFrame (id : UInt32) (r : StreamReader) (f : Frame) : StreamReader :=
  match f.cmd with
  | .push =>
    if f.streamId = id && r.sender then { r with readerRx := r.readerRx ++ [f.data] } else r
  | .fin => if f.streamId = id then { r with sender := false } else r
  | .alert => { r with sender := false }
  | _ => r

/-! ### Runs -/

/-- A frame is received, the session is closed, or the stream is read. -/
inductive StreamEvent where
  | frame (f : Frame)
  | close
  | read (room : ℕ)
  deriving DecidableEq

/-- The reader, and what the reads have returned. -/
structure Reading where
  reader : StreamReader
  received : List UInt8

open Reading

def Reading.step (id : UInt32) (s : Reading) : StreamEvent → Reading
  | .frame f => { s with reader := s.reader.handleFrame id f }
  | .close => { s with reader := { s.reader with sender := false } }
  | .read room => ⟨(s.reader.read room).2, s.received ++ (s.reader.read room).1.bytes⟩

def Reading.run (id : UInt32) (evs : List StreamEvent) : Reading :=
  evs.foldl (Reading.step id) ⟨.new, []⟩

/-- The peer ends the stream, or the session is closed. -/
def StreamEvent.ends (id : UInt32) : StreamEvent → Bool
  | .frame f => f.cmd = .alert || f.cmd = .fin && f.streamId = id
  | .close => true
  | .read _ => false

/-- The payload that an event has for the stream. -/
def StreamEvent.payload (id : UInt32) : StreamEvent → List (List UInt8)
  | .frame f => if f.cmd = .push && f.streamId = id then [f.data] else []
  | _ => []

/-- The payloads of the stream up to its end. -/
def payloads (id : UInt32) : List StreamEvent → List (List UInt8)
  | [] => []
  | ev :: evs => if ev.ends id then [] else ev.payload id ++ payloads id evs

/-- Is the event not a read? -/
def StreamEvent.isPeer : StreamEvent → Bool
  | .read _ => false
  | _ => true

open StreamEvent

/-- **The reads of a run are right.** Each returns the next bytes of the payloads that have
arrived. It waits, or returns nothing into a buffer with room, only when there are no more; and it
returns nothing only after the end of the stream. -/
def ReadsRight (id : UInt32) (evs : List StreamEvent) : Prop :=
  ∀ before room after, evs = before ++ .read room :: after →
    let received := (Reading.run id before).received
    let arrived := (payloads id before).flatten
    match ((Reading.run id before).reader.read room).1 with
    | .pending => before.any (ends id) = false ∧ received = arrived
    | .ready bytes => received ++ bytes <+: arrived ∧
        (room ≠ 0 → bytes = [] → before.any (ends id) = true ∧ received = arrived)

/-! ### The reader keeps what has arrived -/

section Inv

variable {id : UInt32} {evs : List StreamEvent} {s : Reading}

lemma payloads_append (evs more : List StreamEvent) : payloads id (evs ++ more) =
    payloads id evs ++ if evs.any (ends id) then [] else payloads id more := by
  induction evs with
  | nil => simp [payloads]
  | cons ev evs ih => by_cases hev : ev.ends id = true <;> simp [payloads, hev, ih]

/-- Reads bring nothing. -/
lemma payloads_filter (evs : List StreamEvent) :
    payloads id (evs.filter isPeer) = payloads id evs := by
  induction evs with
  | nil => rfl
  | cons ev evs ih =>
    cases ev <;> simp [filter_cons, isPeer, payloads, ends,
      payload, ih]

/-- What a reader keeps for later reads. -/
def StreamReader.kept (r : StreamReader) : List UInt8 := r.readerBuffer ++ r.readerRx.flatten

/-- No payload in the channel is empty, and an end that was seen is one. -/
structure StreamReader.Sound (r : StreamReader) : Prop where
  full : [] ∉ r.readerRx
  eof : r.eof = true → r.sender = false ∧ r.readerRx = []

/-- **A read** returns the beginning of what is kept; it waits or returns nothing only if that is
nothing. -/
lemma StreamReader.Sound.read {r : StreamReader} (h : r.Sound) (room : ℕ) :
    (r.read room).1.bytes ++ (r.read room).2.kept = r.kept ∧ (r.read room).2.Sound ∧
      (r.read room).2.sender = r.sender ∧
      match (r.read room).1 with
      | .pending => r.sender ∧ r.kept = []
      | .ready bytes => room ≠ 0 → bytes = [] → r.sender = false ∧ r.kept = [] := by
  obtain ⟨sender, rx, buffer, eof⟩ := r
  obtain ⟨hfull, heof⟩ := h
  have hsound : ∀ {buffer}, StreamReader.Sound ⟨sender, rx, buffer, eof⟩ := ⟨hfull, heof⟩
  by_cases hbuffer : buffer = []
  · subst hbuffer
    cases rx with
    | cons data rest =>
      have hrest : StreamReader.Sound ⟨sender, rest, data.drop room, eof⟩ := by
        constructor <;> grind
      have hdata : data ≠ [] := by grind
      have hopen : eof = false := by grind
      simp [StreamReader.read, bytes, StreamReader.kept, hopen, hdata, hopen ▸ hrest,
        ← append_assoc]
    | nil =>
      have hend : sender = false → StreamReader.Sound ⟨sender, [], [], true⟩ :=
        fun hs => ⟨hfull, fun _ => ⟨hs, rfl⟩⟩
      cases eof <;> cases sender <;>
        simp_all [StreamReader.read, bytes, StreamReader.kept]
  · simp [StreamReader.read, bytes, StreamReader.kept, hbuffer, hsound, ← append_assoc]

/-- What the reads have returned and what the reader keeps are the payloads that have arrived. -/
structure ReadInv (id : UInt32) (evs : List StreamEvent) (s : Reading) : Prop where
  sound : s.reader.Sound
  content : s.received ++ s.reader.kept = (payloads id evs).flatten
  sender : s.reader.sender = !evs.any (ends id)

/-- A frame brings its payload while the session has the sender, and may end the stream. -/
lemma handleFrame_eq (r : StreamReader) (f : Frame) : r.handleFrame id f =
    { r with
      sender := r.sender && !ends id (.frame f)
      readerRx := r.readerRx ++ if r.sender then payloads id [.frame f] else [] } := by
  obtain ⟨sender, rx, buffer, eof⟩ := r
  cases hcmd : f.cmd <;> simp [StreamReader.handleFrame, hcmd, payloads, ends, payload]
  all_goals cases sender <;> by_cases hid : f.streamId = id <;> simp [hid]

/-- One event. -/
lemma ReadInv.step (h : ReadInv id evs s) {ev} (hev : [] ∉ payloads id (evs ++ [ev])) :
    ReadInv id (evs ++ [ev]) (s.step id ev) := by
  obtain ⟨⟨hfull, heof⟩, hcontent, hsender⟩ := h
  cases ev with
  | frame f =>
    rw [payloads_append] at hev
    refine ⟨⟨?_, ?_⟩, ?_, ?_⟩ <;> simp only [Reading.step, handleFrame_eq]
    · cases hs : s.reader.sender <;> simp_all
    · exact fun he => by simp [heof he]
    · rw [payloads_append, flatten_append, ← hcontent, hsender]
      cases evs.any (ends id) <;> simp [StreamReader.kept]
    · simp [hsender]
  | close =>
    refine ⟨⟨hfull, fun he => ⟨rfl, (heof he).2⟩⟩, ?_, by simp [Reading.step, ends]⟩
    show s.received ++ s.reader.kept = _
    simpa [payloads_append, payloads, ends] using hcontent
  | read room =>
    obtain ⟨hkept, hsound, hsame, -⟩ := StreamReader.Sound.read ⟨hfull, heof⟩ room
    refine ⟨hsound, ?_, ?_⟩
    · simpa [Reading.step, payloads_append, payloads, payload, hkept] using hcontent
    · simpa [Reading.step, ends, hsame] using hsender

lemma readInv_run (evs : List StreamEvent) (h : [] ∉ payloads id evs) :
    ReadInv id evs (run id evs) := by
  induction evs using reverseRecOn with
  | nil => exact ⟨⟨not_mem_nil, nofun⟩, rfl, rfl⟩
  | append_singleton evs ev ih =>
    rw [run, foldl_concat]
    refine (ih fun hmem => h ?_).step h
    rw [payloads_append]
    exact mem_append_left _ hmem

/-! ### Empty payloads -/

/-- Read what an event has brought. -/
def drained (id : UInt32) (ev : StreamEvent) : List StreamEvent :=
  [ev, .read (ev.payload id).flatten.length]

/-- When every payload is read as it arrives, the reader is as at the beginning. -/
lemma reader_run_drained (h : evs.any (ends id) = false) :
    (run id (evs.flatMap (drained id))).reader = .new := by
  induction evs using reverseRecOn with
  | nil => rfl
  | append_singleton evs ev ih =>
    simp only [any_append, any_cons, any_nil, Bool.or_eq_false_iff] at h
    rw [flatMap_append, run, foldl_append, ← run]
    have hreader := ih h.1
    cases ev with
    | frame f =>
      cases hcmd : f.cmd <;> by_cases hid : f.streamId = id <;>
        simp_all [drained, payload, step,
          StreamReader.handleFrame, StreamReader.read, StreamReader.new, ends]
    | close => simp [ends] at h
    | read room =>
      simp [drained, step, hreader, StreamReader.read, StreamReader.new]

lemma filter_drained (evs : List StreamEvent) :
    (evs.flatMap (drained id)).filter isPeer =
      evs.filter isPeer := by
  induction evs with
  | nil => rfl
  | cons ev evs ih => cases ev <;> simp [drained, filter_cons, ih, isPeer]

lemma exists_of_nil_mem_payloads (h : [] ∈ payloads id evs) :
    ∃ before f after, evs = before ++ .frame f :: after ∧
      before.any (ends id) = false ∧ f.cmd = .push ∧ f.streamId = id ∧ f.data = [] := by
  induction evs with
  | nil => simp [payloads] at h
  | cons ev evs ih =>
    rw [payloads] at h
    split_ifs at h with hend
    · simp at h
    · rcases mem_append.mp h with hmem | hmem
      · cases ev with
        | frame f => exact ⟨[], f, evs, rfl, rfl, by grind [payload]⟩
        | close | read => simp [payload] at hmem
      · obtain ⟨before, f, after, rfl, hnone, hf⟩ := ih hmem
        exact ⟨ev :: before, f, after, rfl, by simp [hend, hnone], hf⟩

end Inv

/-- **Reads are right exactly if no payload is empty.** Take any frames that a session receives,
with its close somewhere among them if it is closed. The reads of the stream, of any sizes and at
any times, are all right if and only if no Push frame of the stream up to its end is empty.

**Proof sketch.** With no empty payload the reader keeps what has arrived and was not read
(`ReadInv.step`), and a read returns the beginning of it. Conversely let every payload in front of
an empty one be read when it arrives. The channel then has only the empty payload, and a read with
room returns nothing in the middle of the stream. -/
theorem readsRight_iff (id : UInt32) (evs : List StreamEvent) :
    (∀ run : List StreamEvent, run.filter isPeer = evs.filter isPeer →
      ReadsRight id run) ↔ [] ∉ payloads id evs := by
  constructor
  · intro hright hnil
    obtain ⟨before, f, after, rfl, hopen, hcmd, hid, hdata⟩ := exists_of_nil_mem_payloads hnil
    have hread := hright (before.flatMap (drained id) ++ .frame f :: .read 1 :: after)
      (by simp [filter_drained, filter_cons, isPeer])
      (before.flatMap (drained id) ++ [.frame f]) 1 after (by simp)
    have hreader := reader_run_drained hopen
    have hends : (before.flatMap (drained id)).any (ends id) = false := by
      simpa [any_flatMap, drained, ends] using hopen
    rw [run, foldl_concat, ← run] at hread
    simp [step, hreader, StreamReader.handleFrame, hcmd, hid, hdata, StreamReader.new,
      StreamReader.read, hends, ends] at hread
  · intro hnil run hrun before room after hsplit
    have hbefore : [] ∉ payloads id before := by
      rw [← payloads_filter, ← hrun, payloads_filter, hsplit, payloads_append] at hnil
      exact fun hmem => hnil (mem_append_left _ hmem)
    have hinv := readInv_run before hbefore
    obtain ⟨hkept, -, -, hres⟩ := hinv.sound.read room
    have hsender := hinv.sender
    have hcontent := hinv.content
    cases hread : ((Reading.run id before).reader.read room).1 with
    | pending =>
      simp_all
    | ready bytes =>
      rw [hread] at hres hkept
      refine ⟨⟨_, by rw [← hcontent, ← hkept, append_assoc]; rfl⟩, fun hroom hbytes => ?_⟩
      simp_all

/-- An empty payload and then one byte: the read between them returns nothing. -/
theorem emptyPush_ends_early :
    ((Reading.run 1 [.frame ⟨.push, 1, []⟩]).reader.read 4).1 = .ready [] ∧
      ¬ ReadsRight 1 [.frame ⟨.push, 1, []⟩, .read 4, .frame ⟨.push, 1, [7]⟩] := by
  refine ⟨by decide, fun h => ?_⟩
  have hread := h [.frame ⟨.push, 1, []⟩] 4 [.frame ⟨.push, 1, [7]⟩] rfl
  exact absurd (hread.2 (by decide) rfl).1 (by decide)

end Meow.AnyTls
