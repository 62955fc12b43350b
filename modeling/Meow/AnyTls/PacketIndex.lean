import Meow.AnyTls.Session

/-!
# The packet numbers of a connection

A client's connection (`create_new_session`) opens with the authentication record, padded as
packet 0 of the scheme (`util/auth.rs`). The session that follows numbers its writes with a counter
of its own. The counter starts at 0 as well, so a connection asks for packet 0 twice, and from
there on every write has the sizes of the packet before it.

## Main definitions

* `sendAuthentication` — the authentication record.
* `Writer.calls` — the writes of a session, each with the state it is made in.
* `Writer.paddedPkt` — the packet number a write is padded with.

## Main results

* `calls_pktCounter` — the counter is the number of writes before, modulo `2 ^ 32`.
* `numbersInOrder_iff` — the packets are numbered in order exactly when no write of the
  session is padded.
-/

namespace Meow.AnyTls

open List Nat PaddingFactory

/-- The packet number that `send_authentication` asks the scheme for. -/
def authenticationPkt : ℕ := 0

/-- `send_authentication`: hash, length of the padding and padding, in one write. The padding is
the first size of the packet; with a check mark or no size there is none. -/
def sendAuthentication (passwordHash : List UInt8) (padding : PaddingFactory) (draws : ℕ → ℕ) :
    List UInt8 :=
  let sizes := padding.generateRecordPayloadSizes authenticationPkt draws
  let paddingLen := (sizes.head?.getD 0).toNat
  passwordHash ++ u16be paddingLen ++ List.replicate paddingLen 0

open Writer

/-- The packet number that `write_with_padding` pads with: that of the counter, if it is below the
stop and the scheme has sizes for it. -/
def Writer.paddedPkt (w : Writer) : Option ℕ :=
  if w.sendPadding ∧ w.pktCounter.toNat < w.padding.stop ∧
      (w.padding.sizes.lookup (natToStr w.pktCounter.toNat)).getD [] ≠ [] then
    some w.pktCounter.toNat
  else none

/-- `write_with_padding` by the packet number: the counter goes up whether or not it pads. -/
lemma Writer.writeWithPadding_eq (w : Writer) (hpad : w.sendPadding) (buffer : List UInt8)
    (draws : ℕ → ℕ) (cut : Option ℕ) :
    w.writeWithPadding buffer draws cut =
      { w with pktCounter := w.pktCounter + 1 }.writeAll
        (match w.paddedPkt with
          | some pkt => padRecords (w.padding.generateRecordPayloadSizes pkt draws) buffer
          | none => [buffer]) cut := by
  by_cases hstop : w.pktCounter.toNat < w.padding.stop
  · cases hsizes : w.padding.sizes.lookup (natToStr w.pktCounter.toNat) with
    | none => simp [writeWithPadding, paddedPkt, hpad, hstop, hsizes,
        generateRecordPayloadSizes]
    | some spec => cases spec <;> simp [writeWithPadding, paddedPkt, hpad, hstop, hsizes,
        generateRecordPayloadSizes]
  · simp [writeWithPadding, paddedPkt, hpad, hstop]

/-- The call of `write_with_padding` in one turn of the writer task, if there is one: the state it
is made in, and the bytes to write. -/
def Writer.call (w : Writer) (request : Request) : Option (Writer × List UInt8) :=
  if w.closed then none
  else
    match request with
    | .frame frame _ _ =>
      let buffering := if frame.cmd = .fin then false else w.buffering
      match encode frame [] with
      | .error _ => none
      | .ok buffer =>
        if buffering then none
        else some ({ w with buffering := buffering, buffer := [] }, w.buffer ++ buffer)
    | .flush _ _ =>
      if w.buffer.isEmpty then none
      else some ({ w with buffering := false, buffer := [] }, w.buffer)
    | _ => none

/-- A turn is its call of `write_with_padding`, and without one nothing is written. -/
lemma Writer.step_of_call (w : Writer) (request : Request) :
    match w.call request with
    | some (s, buffer) => s.pktCounter = w.pktCounter ∧ s.sendPadding = w.sendPadding ∧
        ∃ draws cut, w.step request = s.writeWithPadding buffer draws cut
    | none => (w.step request).pktCounter = w.pktCounter ∧
        (w.step request).sendPadding = w.sendPadding ∧ (w.step request).wire = w.wire := by
  by_cases hclosed : w.closed
  · simp [call, step, hclosed]
  · cases request with
    | frame frame draws cut =>
      simp only [call, step, if_neg hclosed, writeFrameInner]
      generalize (if frame.cmd = .fin then false else w.buffering) = buffering
      cases encode frame [] with
      | error => exact ⟨rfl, rfl, rfl⟩
      | ok buffer =>
        cases buffering with
        | true => exact ⟨rfl, rfl, rfl⟩
        | false =>
          refine ⟨rfl, rfl, draws, cut, ?_⟩
          -- an empty buffer is written as it is
          cases w.buffer <;> simp
    | flush draws cut =>
      simp only [call, step, if_neg hclosed, flushInner]
      by_cases hempty : w.buffer.isEmpty
      · rw [if_pos hempty, if_pos hempty]
        cases cut <;> simp [writeAll]
      · rw [if_neg hempty, if_neg hempty]
        exact ⟨rfl, rfl, draws, cut, rfl⟩
    | _ => simp [call, step, hclosed]

/-- The states in which a series of requests calls `write_with_padding`. -/
def Writer.calls (w : Writer) : List Request → List Writer
  | [] => []
  | request :: requests =>
    ((w.call request).map Prod.fst).toList ++ (w.step request).calls requests

/-- **The counter.** At the write after `n` writes it has gone up by `n`. -/
lemma calls_pktCounter {w : Writer} (hpad : w.sendPadding) {requests : List Request} {n : ℕ}
    {s : Writer} (hs : (w.calls requests)[n]? = some s) :
    s.sendPadding ∧ s.pktCounter = w.pktCounter + UInt32.ofNat n := by
  induction requests generalizing w n with
  | nil => simp [calls] at hs
  | cons request requests ih =>
    have hstep := w.step_of_call request
    rw [calls] at hs
    cases hcall : w.call request with
    | none =>
      rw [hcall] at hstep hs
      have := ih (hstep.2.1.trans hpad) hs
      rwa [hstep.1] at this
    | some call =>
      rw [hcall] at hstep hs
      obtain ⟨hcounter, hsend, draws, cut, hstep⟩ := hstep
      cases n with
      | zero =>
        obtain rfl : call.1 = s := by simpa using hs
        simpa [hcounter] using hsend.trans hpad
      | succ n =>
        have hnext : (w.step request).sendPadding ∧
            (w.step request).pktCounter = w.pktCounter + 1 := by
          rw [hstep, writeWithPadding_eq _ (hsend.trans hpad), ← hcounter, ← hpad, ← hsend]
          cases cut <;> exact ⟨rfl, rfl⟩
        obtain ⟨hsend', heq⟩ := ih hnext.1 hs
        refine ⟨hsend', ?_⟩
        rw [heq, hnext.2, UInt32.ofNat_add, UInt32.add_assoc, UInt32.add_comm 1]
        rfl

/-- The numbering of a connection in order: the authentication record has packet 0, the write `n`
after it packet `n` if it is padded, no number comes twice, and no write after the stop of the
scheme is padded. -/
def NumbersInOrder (padding : PaddingFactory) (requests : List Request) : Prop :=
  let calls := (Writer.new true padding).calls requests
  (authenticationPkt :: calls.filterMap Writer.paddedPkt).Pairwise (· < ·) ∧
    ∀ n s, calls[n]? = some s →
      (∀ pkt, s.paddedPkt = some pkt → pkt = authenticationPkt + (n + 1)) ∧
        (s.padding.stop < authenticationPkt + (n + 1) → s.paddedPkt = none)

/-- **The numbering of a connection.** For every scheme and every series of requests, with any
schemes that the peer pushes between them, the packets are numbered in order exactly when every
write of the session finds its counter at the stop of the scheme, or without sizes in it.

**Proof sketch.** The write `n + 1` has the counter `n` modulo `2 ^ 32`, which is never `n + 1`; so
the numbering is in order only when no write is padded. -/
theorem numbersInOrder_iff (padding : PaddingFactory) (requests : List Request) :
    NumbersInOrder padding requests ↔
      ∀ s ∈ (Writer.new true padding).calls requests,
        s.padding.stop ≤ s.pktCounter.toNat ∨
          (s.padding.sizes.lookup (natToStr s.pktCounter.toNat)).getD [] = [] := by
  constructor
  · rintro ⟨-, horder⟩ s hs
    obtain ⟨n, hn⟩ := getElem?_of_mem hs
    obtain ⟨hpad, hcounter⟩ := calls_pktCounter rfl hn
    have hlt : s.pktCounter.toNat < n + 1 := by
      have hnew : (new true padding).pktCounter = 0 := rfl
      rw [hcounter, hnew, UInt32.zero_add]
      exact lt_succ_of_le (mod_le n _)
    by_contra hunpadded
    rw [not_or, not_le] at hunpadded
    have hpkt := (horder n s hn).1 s.pktCounter.toNat (if_pos ⟨hpad, hunpadded⟩)
    omega
  · intro hunpadded
    have hnone : ∀ s ∈ (new true padding).calls requests, s.paddedPkt = none := by
      intro s hs
      refine if_neg fun hpadded => ?_
      rcases hunpadded s hs with h | h
      · exact absurd hpadded.2.1 (not_lt.mpr h)
      · exact hpadded.2.2 h
    refine ⟨?_, fun n s hn => ?_⟩
    · rw [filterMap_eq_nil_iff.mpr hnone]
      exact pairwise_singleton _ _
    · have hs := hnone s (mem_of_getElem? hn)
      exact ⟨fun pkt hpkt => absurd (hs.symm.trans hpkt) (by simp), fun _ => hs⟩

/-- The first flight of a client is padded with packet 0, the number of the authentication. -/
theorem firstFlight_pkt_again :
    ((Writer.new true thirtyByteScheme).calls firstFlight).map Writer.paddedPkt =
        [some authenticationPkt] ∧
      ¬ NumbersInOrder thirtyByteScheme firstFlight := by
  refine ⟨by decide, fun h => ?_⟩
  have := h.1
  exact absurd this (by decide)

end Meow.AnyTls
