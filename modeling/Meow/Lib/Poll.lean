import Meow.Lib.Transport

/-!
# Polled connections

A connection of `poll_read` and `poll_write` functions answers `Pending`, an error or a value.
Where a future keeps its place in a loop, a polled connection keeps what it has in its own fields
and returns: a read attempt that finds no byte is `Pending`, and one that is given no byte has met
the end of the stream.

## Main definitions

* `Poll` — the answer of a poll.
* `readOnce`, `writeOnce` — one attempt on the transport.
* `collect` — the loop that takes a number of bytes from the transport.

## Main results

* `collect_spec` — a collect takes a prefix of the stream, and is done iff it has it all.
* `collect_of_data` — where a transport hands over what has arrived, a collect gets ahead.
-/

namespace Meow

open List

variable {α : Type}

/-- The kinds of `std::io::Error` that connections make, and the transport's own errors. -/
inductive IoErrorKind where
  | unexpectedEof
  | writeZero
  | invalidData
  | invalidInput
  | unsupported
  | other
  | transport
  deriving DecidableEq

/-- `std::io::Error`. -/
structure IoError where
  kind : IoErrorKind
  message : String
  deriving DecidableEq

/-- An error of the transport itself. -/
def transportError : IoError := ⟨.transport, ""⟩

/-- The answer of a poll function. -/
inductive Poll (ε α : Type) where
  | pending
  | err (e : ε)
  | ok (a : α)
  deriving DecidableEq

/-- One attempt to write: how it ended, and what the transport took. -/
def writeOnce : List WriteEv → List α → Status × List α
  | [], _ => (.blocked, [])
  | .accept n :: _, buf => (.done, buf.take (n + 1))
  | .zero :: _, _ => (.closed, [])
  | .fail :: _, _ => (.failed, [])

lemma prefix_writeOnce (evs : List WriteEv) (buf : List α) : (writeOnce evs buf).2 <+: buf := by
  fun_cases writeOnce evs buf with
  | case2 => exact take_prefix _ _
  | _ => exact nil_prefix

/-- What an attempt to read, or a loop of attempts, did: how it ended, the bytes it got, the bytes
not yet read, and the answers not used. -/
structure Collected (α : Type) where
  status : Status
  got : List α
  wire : List α
  evs : List ReadEv
  deriving DecidableEq

/-- One attempt to read at most `want` bytes. The end of the stream is `closed`. -/
def readOnce (want : ℕ) (evs : List ReadEv) (wire : List α) : Collected α :=
  match evs with
  | [] => ⟨.blocked, [], wire, []⟩
  | .data n :: evs =>
    if want = 0 then ⟨.done, [], wire, evs⟩
    else if wire.length = 0 then ⟨.blocked, [], wire, evs⟩
    else ⟨.done, wire.take (min (n + 1) want), wire.drop (min (n + 1) want), evs⟩
  | .eof :: evs => ⟨.closed, [], wire, evs⟩
  | .fail :: evs => ⟨.failed, [], wire, evs⟩

/-- An attempt to read takes a prefix of the stream, no more than asked for. -/
lemma readOnce_spec (want : ℕ) (evs : List ReadEv) (wire : List α) :
    (readOnce want evs wire).got ++ (readOnce want evs wire).wire = wire ∧
      (readOnce want evs wire).got.length ≤ want ∧
      ((readOnce want evs wire).status ≠ .done → (readOnce want evs wire).got = []) := by
  fun_cases readOnce want evs wire <;> simp

/-- Take `want` bytes from the transport, at most `limit` in one attempt. -/
def collect (limit : ℕ) : List ReadEv → List α → ℕ → Collected α
  | [], wire, want => ⟨if want = 0 then .done else .blocked, [], wire, []⟩
  | ev :: evs, wire, want =>
    if want = 0 then ⟨.done, [], wire, ev :: evs⟩
    else
      match ev with
      | .data n =>
        if wire.length = 0 then ⟨.blocked, [], wire, evs⟩
        else
          let chunk := wire.take (min (n + 1) (min want limit))
          let r := collect limit evs (wire.drop chunk.length) (want - chunk.length)
          { r with got := chunk ++ r.got }
      | .eof => ⟨.closed, [], wire, evs⟩
      | .fail => ⟨.failed, [], wire, evs⟩

variable (limit : ℕ) (evs : List ReadEv) (wire : List α)

/-- **A collect takes a prefix of the stream**, no more than asked for, and is done iff it has
all of it.

**Proof sketch.** Induction on the answers. Each chunk is a prefix of what is left of the stream
and no longer than what is still wanted. -/
lemma collect_spec (want : ℕ) :
    (collect limit evs wire want).got ++ (collect limit evs wire want).wire = wire ∧
      (collect limit evs wire want).got.length ≤ want ∧
      ((collect limit evs wire want).status = .done ↔
        (collect limit evs wire want).got.length = want) := by
  fun_induction collect limit evs wire want with
  | case4 evs wire want hwant n hwire chunk r ih =>
    have hlen : chunk.length ≤ want := by
      rw [length_take]
      omega
    have hsplit : chunk ++ wire.drop chunk.length = wire :=
      prefix_iff_eq_append.mp (List.take_prefix _ _)
    obtain ⟨h1, h2, h3⟩ := ih
    simp only [r, length_append]
    refine ⟨?_, by omega, ?_⟩
    · rw [append_assoc, h1, hsplit]
    · rw [h3]
      omega
  | _ => grind

variable {limit evs wire} in
/-- A collect that is done has what it wanted. -/
lemma collect_done {want} {r : Collected α} (hr : collect limit evs wire want = r)
    (hdone : r.status = .done) :
    r.got ++ r.wire = wire ∧ r.got.length = want ∧ want + r.wire.length = wire.length := by
  obtain ⟨hsplit, -, hiff⟩ := collect_spec limit evs wire want
  rw [hr] at hsplit hiff
  have hgot := hiff.mp hdone
  refine ⟨hsplit, hgot, ?_⟩
  rw [← hgot, ← length_append, hsplit]

/-- The answers left are no more than there were, and fewer if something was wanted. -/
lemma collect_evs_length (want : ℕ) :
    (collect limit evs wire want).evs.length ≤ evs.length ∧
      (want ≠ 0 → (collect limit evs wire want).status = .done →
        (collect limit evs wire want).evs.length < evs.length) := by
  fun_induction collect limit evs wire want <;> grind

@[simp] lemma collect_zero : collect limit evs wire 0 = ⟨.done, [], wire, evs⟩ := by
  cases evs <;> rfl

variable {evs}

/-- The transport neither ends nor fails. -/
def AllData (evs : List ReadEv) : Prop := ∀ ev ∈ evs, ∃ n, ev = .data n

/-- Where the transport hands over what has arrived, an attempt to read gets a byte if there is
one. -/
lemma readOnce_of_data (hevs : AllData evs) (want : ℕ) (wire : List α) :
    ((readOnce want evs wire).status = .done ∨ (readOnce want evs wire).status = .blocked) ∧
      (evs ≠ [] → want ≠ 0 → wire ≠ [] →
        (readOnce want evs wire).status = .done ∧ (readOnce want evs wire).got ≠ []) := by
  rcases evs with _ | ⟨ev, evs⟩
  · exact ⟨.inr rfl, fun h => absurd rfl h⟩
  · obtain ⟨n, rfl⟩ := hevs ev mem_cons_self
    simp only [readOnce]
    split_ifs with hwant hwire
    · exact ⟨.inl rfl, fun _ h => absurd hwant h⟩
    · exact ⟨.inr rfl, fun _ _ h => absurd (length_eq_zero_iff.mp hwire) h⟩
    · refine ⟨.inl rfl, fun _ _ _ => ⟨rfl, fun hnil => ?_⟩⟩
      have := congrArg length hnil
      rw [length_take, length_nil] at this
      omega

/-- The same for a collect; what is left of the answers is as good. -/
lemma collect_of_data (hevs : AllData evs) {limit} (hlimit : limit ≠ 0) (wire : List α) (want : ℕ) :
    ((collect limit evs wire want).status = .done ∨
        (collect limit evs wire want).status = .blocked) ∧
      AllData (collect limit evs wire want).evs ∧
      (evs ≠ [] → want ≠ 0 → wire ≠ [] → (collect limit evs wire want).got ≠ []) := by
  fun_induction collect limit evs wire want with
  | case4 evs wire want hwant n hwire chunk r ih =>
    obtain ⟨h1, h2, -⟩ := ih (forall_mem_cons.mp hevs).2
    refine ⟨h1, h2, fun _ _ _ hnil => ?_⟩
    have := congrArg length (append_eq_nil_iff.mp hnil).1
    rw [length_take, length_nil] at this
    omega
  | case5 | case6 => simpa using hevs _ mem_cons_self
  | _ => grind [AllData]

end Meow
