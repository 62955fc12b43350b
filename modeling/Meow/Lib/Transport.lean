import Meow.Lib.Bytes

/-!
# Non-blocking transports

A byte stream that is written and read without blocking answers each attempt as it likes: it
accepts or delivers any non-empty part of what was asked for, it has nothing to say yet, or it
fails. The answers to come are a list, and the operation that runs out of answers is suspended
there; dropping a suspended future is the same as never answering it.

Two loops recur in every framed connection: writing a buffer out piece by piece, and filling a
buffer piece by piece. Both are defined and specified here once.

## Main definitions

* `WriteEv`, `drain` — the answers to write attempts, and the loop that writes out a buffer.
* `ReadEv`, `fill` — the answers to read attempts, and the loop that fills a buffer.

## Main results

* `drain_sent_rest`, `drain_done_iff` — a drain splits its buffer in what was sent
  and what is left, and finishes exactly when nothing is left.
* `fill_spec` — a fill moves a prefix of the stream into the buffer, in order.
-/

namespace Meow

open List

variable {α : Type}

/-! ## Writing -/

/-- The answer of the transport to one attempt to write. -/
inductive WriteEv where
  /-- It takes at most `n + 1` bytes. -/
  | accept (n : ℕ)
  /-- It takes none (`Ok(0)`). -/
  | zero
  /-- It reports an error. -/
  | fail
  deriving DecidableEq

/-- How a loop over the transport ended. -/
inductive Status where
  | done
  /-- The answers ran out: the operation is suspended here. -/
  | blocked
  /-- The stream ended, or took no byte. -/
  | closed
  | failed
  deriving DecidableEq

/-- The outcome of a drain: what was sent, what is left, and the answers not used. -/
structure Drained (α : Type) where
  status : Status
  sent : List α
  rest : List α
  evs : List WriteEv
  deriving DecidableEq

/-- Write `rest` out, as far as the answers go. -/
def drain : List WriteEv → List α → Drained α
  | evs, [] => ⟨.done, [], [], evs⟩
  | [], a :: rest => ⟨.blocked, [], a :: rest, []⟩
  | .accept n :: evs, a :: rest =>
    let r := drain evs (rest.drop n)
    { r with sent := a :: rest.take n ++ r.sent }
  | .zero :: evs, a :: rest => ⟨.closed, [], a :: rest, evs⟩
  | .fail :: evs, a :: rest => ⟨.failed, [], a :: rest, evs⟩

variable (evs : List WriteEv)

variable (b : List α)

/-- A drain loses and invents nothing. -/
lemma drain_sent_rest : (drain evs b).sent ++ (drain evs b).rest = b := by
  fun_induction drain evs b with
  | case3 n evs _ rest r ih => simp [r, ih]
  | _ => rfl

/-- A drain finishes exactly when nothing is left. -/
lemma drain_done_iff : (drain evs b).status = .done ↔ (drain evs b).rest = [] := by
  fun_induction drain evs b with
  | case3 _ _ _ _ r ih => exact ih
  | _ => simp

/-- What is left is the buffer without what was sent. -/
lemma drain_rest_eq_drop : (drain evs b).rest = b.drop (drain evs b).sent.length := by
  have h := congrArg (drop (drain evs b).sent.length) (drain_sent_rest evs b)
  rwa [drop_left] at h

/-- A finished drain has sent the whole buffer. -/
lemma drain_sent_of_done {evs : List WriteEv} {b : List α} (h : (drain evs b).status = .done) :
    (drain evs b).sent = b := by
  have := drain_sent_rest evs b
  rwa [(drain_done_iff evs b).mp h, append_nil] at this

/-- The sizes of the writes of a drain. -/
def drainSizes : List WriteEv → List α → List ℕ
  | .accept n :: evs, _ :: rest => min (n + 1) (rest.length + 1) :: drainSizes evs (rest.drop n)
  | _, _ => []

/-- The writes of a drain are what it has sent. -/
lemma sum_drainSizes : (drainSizes evs b).sum = (drain evs b).sent.length := by
  fun_induction drain evs b with
  | case3 n evs a rest r ih =>
    simp only [drainSizes, r, sum_cons, cons_append, length_cons, length_append, length_take]
    omega
  | _ => simp [drainSizes]

/-- How many bytes the transport takes before it answers with something else. -/
def capacity : List WriteEv → ℕ
  | .accept n :: evs => n + 1 + capacity evs
  | _ => 0

/-- A drain finishes exactly when the transport takes as many bytes as there are. -/
lemma drain_done_iff_capacity : (drain evs b).status = .done ↔ b.length ≤ capacity evs := by
  fun_induction drain evs b with
  | case3 n evs a rest r ih =>
    rw [ih, capacity, length_drop, length_cons]
    omega
  | _ => simp [capacity]

/-! ## Reading -/

/-- The answer of the transport to one attempt to read. -/
inductive ReadEv where
  /-- It hands over at most `n + 1` of the bytes that have arrived; when none has, the attempt
  was woken for nothing. -/
  | data (n : ℕ)
  /-- It reports the end of the stream. -/
  | eof
  /-- It reports an error. -/
  | fail
  deriving DecidableEq

/-- The outcome of a fill: the buffer, how far it is filled, the bytes not yet read, and the
answers not used. -/
structure Filled (α : Type) where
  status : Status
  buf : List α
  pos : ℕ
  wire : List α
  evs : List ReadEv
  deriving DecidableEq

/-- Read into `buf` from `pos` on until it is full, as far as the answers go. -/
def fill : List ReadEv → List α → List α → ℕ → Filled α
  | [], wire, buf, pos => ⟨if pos < buf.length then .blocked else .done, buf, pos, wire, []⟩
  | ev :: evs, wire, buf, pos =>
    if pos < buf.length then
      match ev with
      | .data n =>
        let chunk := wire.take (min (n + 1) (buf.length - pos))
        fill evs (wire.drop chunk.length) (store buf pos chunk) (pos + chunk.length)
      | .eof => ⟨.closed, buf, pos, wire, evs⟩
      | .fail => ⟨.failed, buf, pos, wire, evs⟩
    else ⟨.done, buf, pos, wire, ev :: evs⟩

/-- A fill takes a prefix of the stream: the buffer keeps its length and its filled part grows
by exactly the bytes that left the stream; it is done iff the buffer is full.

**Proof sketch.** Induction on the answers. Each chunk is a prefix of what is left of the
stream and fits the buffer, so `take_store` appends it to the filled part. -/
lemma fill_spec (evs : List ReadEv) (wire buf : List α) (pos : ℕ) (hpos : pos ≤ buf.length) :
    ∃ k status buf' evs', fill evs wire buf pos = ⟨status, buf', pos + k, wire.drop k, evs'⟩ ∧
      pos + k ≤ buf.length ∧ buf'.length = buf.length ∧
      buf'.take (pos + k) = buf.take pos ++ wire.take k ∧
      (status = .done ↔ pos + k = buf.length) := by
  fun_induction fill evs wire buf pos with
  | case2 evs wire buf pos hlt n chunk ih =>
    have hchunk : chunk.length ≤ buf.length - pos := by simp [chunk]
    have hstore : (store buf pos chunk).length = buf.length := length_store (by omega)
    obtain ⟨k, status, buf', evs', hfill, hle, hlen, htake, hdone⟩ := ih (by omega)
    rw [Nat.add_assoc, drop_drop] at hfill
    rw [Nat.add_assoc, take_store hpos] at htake
    rw [hstore, Nat.add_assoc] at hle hdone
    refine ⟨chunk.length + k, status, buf', evs', hfill, hle, hlen.trans hstore, ?_, hdone⟩
    rw [htake, append_assoc, take_add, ← prefix_iff_eq_take.mp (List.take_prefix _ _)]
  | _ => exact ⟨0, _, _, _, rfl, hpos, rfl, by simp, by grind⟩

end Meow
