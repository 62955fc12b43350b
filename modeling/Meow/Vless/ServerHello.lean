import Meow.Lib.Panic
import Meow.Vless.Vision

/-!
# The server-hello filter

`ServerHelloFilter` is given what the server sends, piece by piece as it is read, for at most eight
pieces. It looks for the beginning of a TLS record with a server hello, waits until the record is
whole, and then decides whether the peer speaks TLS 1.3 with a cipher suite that it knows.

## Main definitions

* `ServerHelloFilter.observeAll` — the filter over a series of reads.
* `serverHello`, `decideFrom` — the record of a stream that the filter decides
  from, and its decision.
* `ServerHelloFilter.observeChecked` — `observe` with its indices checked.

## Main results

* `ServerHelloFilter.Seen.observe` — what one read keeps.
* `ServerHelloFilter.observeChecked_eq` — no index is out of range.
* `ServerHelloFilter.decision_of_reads` — the decision does not depend on the reads.
-/

namespace Meow.Vless

open List

/-! ### The record that is decided from -/

/-- The length of the record that begins here, with its header. -/
def recordLen (record : List UInt8) : ℕ := 5 + ofU16be (record.getD 3 0) (record.getD 4 0)

/-- The record, once it is whole. -/
def wholeRecord (record : List UInt8) : Option (List UInt8) :=
  if record.length < recordLen record then none else some (record.take (recordLen record))

/-- The server hello of a stream: the record at the first place where one begins. -/
def serverHello (bytes : List UInt8) : Option (List UInt8) :=
  (findTlsServerHelloStart bytes).bind fun pos => wholeRecord (bytes.drop pos)

/-- The test of a server hello: TLS 1.3 with a cipher suite that is supported. -/
def isTls13Hello (hello : List UInt8) : Bool :=
  match tlsServerHelloCipherSuite hello with
  | none => false
  | some cipher => tls13CipherSuites.contains cipher &&
      (windows tls13SupportedVersionsExt.length hello).any (· == tls13SupportedVersionsExt)

/-- What the filter has found out. -/
inductive Decision where
  | tls13
  | other
  | undecided
  deriving DecidableEq

/-- The decision from a server hello, if there is one. -/
def decideFrom : Option (List UInt8) → Decision
  | none => .undecided
  | some hello => if isTls13Hello hello then .tls13 else .other

/-! ### More bytes leave the beginning of a record where it is -/

lemma length_of_mem_windows {n} {l w : List UInt8} (h : w ∈ windows n l) : w.length = n := by
  simp only [windows, mem_map, mem_range] at h
  obtain ⟨i, hi, rfl⟩ := h
  rw [length_take, length_drop]
  omega

lemma windows_append (n : ℕ) (l more : List UInt8) :
    ∃ ws, windows n (l ++ more) = windows n l ++ ws := by
  obtain ⟨k, hk⟩ := Nat.exists_eq_add_of_le
    (show l.length + 1 - n ≤ (l ++ more).length + 1 - n by simp; omega)
  rw [windows, hk, range_add, map_append]
  refine ⟨_, congrArg (· ++ _) (map_congr_left fun i hi => ?_)⟩
  rw [mem_range] at hi
  rw [drop_append_of_le_length (by omega), take_append_of_le_length (by simp; omega)]

variable {bytes : List UInt8} {pos : ℕ}

lemma findTlsServerHelloStart_append (h : findTlsServerHelloStart bytes = some pos)
    (more : List UInt8) : findTlsServerHelloStart (bytes ++ more) = some pos := by
  obtain ⟨ws, hws⟩ := windows_append 6 bytes more
  rw [findTlsServerHelloStart] at h ⊢
  rw [hws, findIdx?_append, h]
  rfl

lemma findTlsServerHelloStart_le (h : findTlsServerHelloStart bytes = some pos) :
    pos + 6 ≤ bytes.length := by
  obtain ⟨hlt, -⟩ := findIdx?_eq_some_iff_findIdx_eq.mp h
  rw [windows, length_map, length_range] at hlt
  omega

/-- The length of a record stands in its first five bytes. -/
lemma recordLen_append {record : List UInt8} (h : 5 ≤ record.length) (more : List UInt8) :
    recordLen (record ++ more) = recordLen record := by
  simp [recordLen, getElem?_append_left (show 3 < record.length by omega),
    getElem?_append_left (show 4 < record.length by omega)]

lemma wholeRecord_append {record hello : List UInt8} (h : 5 ≤ record.length)
    (hwhole : wholeRecord record = some hello) (more : List UInt8) :
    wholeRecord (record ++ more) = some hello := by
  rw [wholeRecord] at hwhole
  split_ifs at hwhole with hlen
  obtain rfl := Option.some.inj hwhole
  rw [wholeRecord, recordLen_append h, length_append, if_neg (by omega),
    take_append_of_le_length (by omega)]

/-- **A server hello stays the one that was found.** -/
lemma serverHello_append {hello} (h : serverHello bytes = some hello) (more : List UInt8) :
    serverHello (bytes ++ more) = some hello := by
  obtain ⟨pos, hpos, h⟩ := Option.bind_eq_some_iff.mp h
  have hle := findTlsServerHelloStart_le hpos
  rw [serverHello, findTlsServerHelloStart_append hpos, Option.bind_some,
    drop_append_of_le_length (by omega)]
  exact wholeRecord_append (by simp; omega) h more

namespace ServerHelloFilter

/-! ### Every index is in range -/

/-- `observe` with the indices of `self.buffer[3]` and `self.buffer[4]` checked. The other ones are
those of windows of six bytes, of a range of two bytes, and the range up to `expected_len`, which
stands behind the test of the length in `examine`. -/
def observeChecked (self : ServerHelloFilter) (chunk : List UInt8) :
    Except Panic (Bool × ServerHelloFilter) :=
  if self.done || self.packetsLeft == 0 || chunk.isEmpty then .ok (false, self)
  else
    let self := { self with
      packetsLeft := self.packetsLeft - 1
      buffer := self.buffer ++ chunk }
    match self.expectedLen with
    | none =>
      match findTlsServerHelloStart self.buffer with
      | none => .ok (false, self)
      | some pos => do
        let buffer := self.buffer.drop pos
        let expectedLen := 5 + ofU16be (← index buffer 3) (← index buffer 4)
        .ok ({ self with buffer := buffer, expectedLen := some expectedLen }.examine expectedLen)
    | some expectedLen => .ok (self.examine expectedLen)

lemma index_eq_getD {l : List UInt8} {i} (h : i < l.length) : index l i = .ok (l.getD i 0) := by
  simp [index, getElem?_eq_getElem h]

/-- **No index is out of range**, whatever the filter has seen. -/
lemma observeChecked_eq (self : ServerHelloFilter) (chunk : List UInt8) :
    self.observeChecked chunk = .ok (self.observe chunk) := by
  rw [observeChecked, observe]
  split_ifs
  · rfl
  · cases self.expectedLen with
    | some n => rfl
    | none =>
      dsimp only
      cases hpos : findTlsServerHelloStart (self.buffer ++ chunk) with
      | none => rfl
      | some pos =>
        have hle := findTlsServerHelloStart_le hpos
        dsimp only
        rw [index_eq_getD (by rw [length_drop]; omega), index_eq_getD (by rw [length_drop]; omega)]
        rfl

/-! ### A series of reads -/

/-- The filter over a series of reads: has it found TLS 1.3, and its state behind them. -/
def observeAll (self : ServerHelloFilter) : List (List UInt8) → Bool × ServerHelloFilter
  | [] => (false, self)
  | chunk :: chunks =>
    let r := self.observe chunk
    let rest := r.2.observeAll chunks
    (r.1 || rest.1, rest.2)

/-- The decision that a filter has made, by what it has answered. -/
def decision (r : Bool × ServerHelloFilter) : Decision :=
  if r.2.done then if r.1 then .tls13 else .other else .undecided

/-- What the filter is after it has seen these bytes and has answered `found`: it has made the
decision of its server hello, or it keeps what it needs to go on. -/
def Seen (bytes : List UInt8) (found : Bool) (self : ServerHelloFilter) : Prop :=
  match serverHello bytes with
  | some hello => self.done = true ∧ found = isTls13Hello hello
  | none => self.done = false ∧ found = false ∧
    match findTlsServerHelloStart bytes with
    | none => self.expectedLen = none ∧ self.buffer = bytes
    | some pos => self.expectedLen = some (recordLen (bytes.drop pos)) ∧
      self.buffer = bytes.drop pos

variable {found : Bool} {self : ServerHelloFilter}

lemma Seen.decision_eq (h : Seen bytes found self) :
    decision (found, self) = decideFrom (serverHello bytes) := by
  unfold Seen at h
  split at h <;> simp_all [decision, decideFrom]

/-- What `examine` leaves of a filter that has the record in its buffer. -/
lemma seen_examine (hpos : findTlsServerHelloStart bytes = some pos) (hdone : self.done = false)
    (hexpected : self.expectedLen = some (recordLen (bytes.drop pos)))
    (hbuffer : self.buffer = bytes.drop pos) :
    Seen bytes (self.examine (recordLen (bytes.drop pos))).1
      (self.examine (recordLen (bytes.drop pos))).2 := by
  unfold Seen serverHello wholeRecord examine
  rw [hpos, hbuffer, Option.bind_some]
  split_ifs with hlen
  · exact ⟨hdone, rfl, hexpected, hbuffer⟩
  · dsimp only [isTls13Hello]
    cases tlsServerHelloCipherSuite _ <;> exact ⟨rfl, rfl⟩

/-- **What one read keeps**, while the filter still takes reads. -/
lemma Seen.observe (h : Seen bytes found self) (hpackets : self.packetsLeft ≠ 0)
    (chunk : List UInt8) :
    Seen (bytes ++ chunk) (found || (self.observe chunk).1) (self.observe chunk).2 := by
  by_cases hchunk : chunk = []
  · subst hchunk
    simpa [ServerHelloFilter.observe] using h
  unfold Seen at h
  cases hhello : serverHello bytes with
  | some hello =>
    -- the filter has decided and does not look any more
    obtain ⟨hdone, hfound⟩ : self.done ∧ found = isTls13Hello hello := by
      simpa only [hhello] using h
    have hobserve : self.observe chunk = (false, self) := by simp [ServerHelloFilter.observe, hdone]
    rw [hobserve, Seen, serverHello_append hhello]
    exact ⟨hdone, by simpa using hfound⟩
  | none =>
    simp only [hhello] at h
    obtain ⟨hdone, rfl, hmatch⟩ := h
    cases hpos : findTlsServerHelloStart bytes with
    | none =>
      obtain ⟨hexpected, hbuffer⟩ : self.expectedLen = none ∧ self.buffer = bytes := by
        simpa only [hpos] using hmatch
      simp only [observe, hdone, hexpected, hbuffer]
      rw [if_neg (by simp [hpackets, hchunk])]
      cases hnext : findTlsServerHelloStart (bytes ++ chunk) with
      | none => simp [Seen, serverHello, hnext]
      | some pos => exact seen_examine hnext rfl rfl rfl
    | some pos =>
      obtain ⟨hexpected, hbuffer⟩ : self.expectedLen = some (recordLen (bytes.drop pos)) ∧
          self.buffer = bytes.drop pos := by
        simpa only [hpos] using hmatch
      have hle := findTlsServerHelloStart_le hpos
      have hdrop : (bytes ++ chunk).drop pos = bytes.drop pos ++ chunk :=
        drop_append_of_le_length (by omega)
      have hlen : recordLen ((bytes ++ chunk).drop pos) = recordLen (bytes.drop pos) := by
        rw [hdrop, recordLen_append (by simp; omega)]
      simp only [observe, hdone, hexpected, hbuffer]
      rw [if_neg (by simp [hpackets, hchunk]), ← hlen, ← hdrop]
      exact seen_examine (findTlsServerHelloStart_append hpos chunk) rfl rfl rfl

lemma packetsLeft_examine (self : ServerHelloFilter) (n : ℕ) :
    (self.examine n).2.packetsLeft = self.packetsLeft := by
  unfold examine
  split_ifs
  · rfl
  · dsimp only
    split <;> rfl

lemma packetsLeft_observe (self : ServerHelloFilter) (chunk : List UInt8) :
    self.packetsLeft ≤ (self.observe chunk).2.packetsLeft + 1 := by
  unfold observe
  split_ifs
  · simp
  · dsimp only
    split <;> (try split) <;> simp only [packetsLeft_examine] <;> omega

variable {chunks : List (List UInt8)}

/-- What a series of reads keeps. -/
lemma Seen.observeAll (h : Seen bytes found self) (hlen : chunks.length ≤ self.packetsLeft) :
    Seen (bytes ++ chunks.flatten) (found || (self.observeAll chunks).1)
      (self.observeAll chunks).2 := by
  induction chunks generalizing bytes found self with
  | nil => simpa [observeAll] using h
  | cons chunk chunks ih =>
    rw [length_cons] at hlen
    have hleft := packetsLeft_observe self chunk
    have hnext := ih (h.observe (by omega) chunk) (by omega)
    rwa [append_assoc, ← flatten_cons, Bool.or_assoc] at hnext

lemma decision_observeAll (hlen : chunks.length ≤ tlsFilterPackets) :
    decision (new.observeAll chunks) = decideFrom (serverHello chunks.flatten) := by
  have hnew : Seen [] false new := ⟨rfl, rfl, rfl, rfl⟩
  have hseen := hnew.observeAll hlen
  exact hseen.decision_eq

/-- **The decision does not depend on how the stream is cut**, for a stream cut into at most eight
reads: it is the one that is made when all of it is read at once. It is made from the record of the
server hello alone, and no index is ever out of range. -/
theorem decision_of_reads :
    (∀ chunks : List (List UInt8), chunks.length ≤ 8 →
      decision (new.observeAll chunks) = decision (new.observe chunks.flatten)) ∧
    (∀ chunks chunks' : List (List UInt8), chunks.length ≤ 8 → chunks'.length ≤ 8 →
      serverHello chunks.flatten = serverHello chunks'.flatten →
      decision (new.observeAll chunks) = decision (new.observeAll chunks')) ∧
    (∀ chunks : List (List UInt8), chunks.length ≤ 8 → serverHello chunks.flatten = none →
      decision (new.observeAll chunks) = .undecided) ∧
    (∀ (self : ServerHelloFilter) (chunk : List UInt8),
      self.observeChecked chunk = .ok (self.observe chunk)) ∧
    ∀ bytes, ∀ w ∈ windows 6 bytes, w.length = 6 := by
  refine ⟨fun chunks hlen => ?_, fun chunks chunks' hlen hlen' heq => ?_,
    fun chunks hlen hnone => ?_, observeChecked_eq, fun bytes w => length_of_mem_windows⟩
  · have hone := decision_observeAll (by simp [tlsFilterPackets] : [chunks.flatten].length ≤ _)
    rw [decision_observeAll hlen]
    simpa [observeAll] using hone.symm
  · rw [decision_observeAll hlen, decision_observeAll hlen', heq]
  · rw [decision_observeAll hlen, hnone]
    rfl

end ServerHelloFilter

end Meow.Vless
