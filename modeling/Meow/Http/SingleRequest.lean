import Meow.Tunnel.HalfCopy
import Meow.Http.ReadHead
import Meow.Http.Chunked
import Meow.Http.Response

/-!
# The client of a single request

`SingleRequestClient` stands between the client's connection and the relay, for the time of one
request. As a reader it gives the relay the body of the request and nothing that follows it; what
follows is thrown away, or, while the origin decides about an upgrade, held back. Once a response
that switches protocols was delivered, the held bytes and all later ones are given to the relay. As
a writer it rewrites the heads of the responses.

Beside the fields of the code a client has what was seen of it: the bytes its connection gave and
took, the bytes the relay got from it and gave to it, and whether the connection has reported its
end.

## Main definitions

* `SingleRequestClient` — the client.
* `pollRead`, `pollWrite`, `pollFlush`, `pollShutdown` — what the relay calls.
* `LiveOk` — the invariant.

## Main results

* `LiveOk.pollReadInner` — what a read keeps.
* `LiveOk.pollWrite` — what a write keeps.
-/

namespace Meow.Http

open List Nat
open Meow.Tunnel (ReadAnswer PollAnswer)

def CLIENT_DISCARD_BUFFER_SIZE : ℕ := 1024

def MAX_DISCARDED_CLIENT_BYTES : ℕ := 64 * 1024

def MAX_HELD_UPGRADE_BYTES : ℕ := 64 * 1024

inductive ResponseWriteState where
  | head
  | interimPending
  | finalPending
  | upgradePending
  | streaming
  | upgraded
  deriving DecidableEq

structure SingleRequestClient where
  buffered : List UInt8
  bufferedPos : ℕ
  body : RequestBodyDecoder
  clientEof : Bool
  discardedClientBytes : ℕ
  held : List UInt8
  heldPos : ℕ
  responseDone : Bool
  /-- The bytes of `response_buf` up to `response_len`. -/
  responseBuf : List UInt8
  responsePos : ℕ
  responseState : ResponseWriteState
  sentResponseBytes : Bool
  upgradeRequested : Bool
  upgradeDeclined : Bool
  passUpstreamShutdown : Bool
  /-- The bytes the connection gave. -/
  received : List UInt8
  /-- The bytes the connection took. -/
  delivered : List UInt8
  /-- The bytes the relay got. -/
  taken : List UInt8
  /-- The bytes of the origin. -/
  responses : List UInt8
  /-- The connection has reported its end. -/
  socketEof : Bool
  deriving DecidableEq

namespace SingleRequestClient

def new (buffered : List UInt8) (bodyKind : RequestBodyKind) (upgradeRequested : Bool) :
    SingleRequestClient :=
  { buffered, bufferedPos := 0, body := .new bodyKind, clientEof := false
    discardedClientBytes := 0, held := [], heldPos := 0, responseDone := false, responseBuf := []
    responsePos := 0, responseState := .head, sentResponseBytes := false, upgradeRequested
    upgradeDeclined := false, passUpstreamShutdown := false, received := [], delivered := []
    taken := [], responses := [], socketEof := false }

/-! ### Reading -/

/-- The answer of a read: the bytes, of which there are none at the end of the stream. -/
abbrev ReadResult := Poll IoError (List UInt8) × SingleRequestClient

/-- Bytes that are thrown away. -/
def recordDiscardedClientBytes (c : SingleRequestClient) (count : ℕ) :
    Except IoError Unit × SingleRequestClient :=
  let c := { c with discardedClientBytes := c.discardedClientBytes + count }
  if c.discardedClientBytes > MAX_DISCARDED_CLIENT_BYTES then
    (.error (invalidData "too many client bytes after the request boundary"), c)
  else (.ok (), c)

/-- Throw away what follows the body. -/
def pollDiscardAfterBody (c : SingleRequestClient) (socket : ReadAnswer) : ReadResult :=
  if c.bufferedPos < c.buffered.length then
    match c.recordDiscardedClientBytes (c.buffered.length - c.bufferedPos) with
    | (.error e, c) => (.err e, c)
    | (.ok (), c) => (.pending, { c with bufferedPos := c.buffered.length })
  else if c.clientEof then (.ok [], c)
  else if c.discardedClientBytes = MAX_DISCARDED_CLIENT_BYTES then
    (.err (invalidData "too many client bytes after the request boundary"), c)
  else
    let available :=
      min (MAX_DISCARDED_CLIENT_BYTES - c.discardedClientBytes) CLIENT_DISCARD_BUFFER_SIZE
    match socket with
    | .eof => (.ok [], { c with clientEof := true, socketEof := true })
    | .data first rest =>
      let count := (first :: rest).take available
      match { c with received := c.received ++ count }.recordDiscardedClientBytes count.length with
      | (.error e, c) => (.err e, c)
      | (.ok (), c) => (.pending, c)
    | .fail => (.err transportError, c)
    | .pending => if c.responseDone then (.ok [], c) else (.pending, c)

/-- Hold back what follows the head, until the origin has decided. -/
def pollHoldBeforeUpgrade (c : SingleRequestClient) (socket : ReadAnswer) : ReadResult :=
  if c.clientEof then (.ok [], c)
  else
    let capacity := MAX_HELD_UPGRADE_BYTES - c.held.length
    if capacity = 0 then
      (.err (invalidData "too many client bytes before the upgrade decision"), c)
    else
      let available := min capacity CLIENT_DISCARD_BUFFER_SIZE
      match socket with
      | .eof => (.ok [], { c with clientEof := true, socketEof := true })
      | .data first rest =>
        let staged := (first :: rest).take available
        (.pending, { c with held := c.held ++ staged, received := c.received ++ staged })
      | .fail => (.err transportError, c)
      | .pending => (.pending, c)

/-- The connection after an upgrade. -/
def pollReadUpgraded (c : SingleRequestClient) (room : ℕ) (socket : ReadAnswer) : ReadResult :=
  if c.bufferedPos < c.buffered.length then
    let available := min room (c.buffered.length - c.bufferedPos)
    (.ok ((c.buffered.drop c.bufferedPos).take available),
      { c with bufferedPos := c.bufferedPos + available })
  else if c.heldPos < c.held.length then
    let available := min room (c.held.length - c.heldPos)
    (.ok ((c.held.drop c.heldPos).take available), { c with heldPos := c.heldPos + available })
  else
    match socket with
    | .eof => (.ok [], { c with socketEof := true })
    | .data first rest =>
      (.ok ((first :: rest).take room),
        { c with received := c.received ++ (first :: rest).take room })
    | .fail => (.err transportError, c)
    | .pending => (.pending, c)

/-- Body bytes from the connection, after those that were there before. -/
def pollReadSocket (c : SingleRequestClient) (filled : List UInt8) (room : ℕ)
    (socket : ReadAnswer) : ReadResult :=
  match socket with
  | .eof =>
    (.err ⟨.unexpectedEof, "request body ended before its framing boundary"⟩,
      { c with socketEof := true })
  | .data first rest =>
    let read := (first :: rest).take room
    let c := { c with received := c.received ++ read }
    match c.body.consumeSlice read with
    | .error e => (.err e, c)
    | .ok (consumed, body) =>
      match { c with body }.recordDiscardedClientBytes (read.length - consumed) with
      | (.error e, c) => (.err e, c)
      | (.ok (), c) => (.ok (filled ++ read.take consumed), c)
  | .fail => (.err transportError, c)
  | .pending => if filled ≠ [] then (.ok filled, c) else (.pending, c)

/-- The bytes that were read with the head, as far as they belong to the body. The loop of the code
comes round once more after them: it ends if the body or the room does, and else turns to the
connection, since nothing is left of these bytes. -/
def pollReadBuffered (c : SingleRequestClient) (room : ℕ) (socket : ReadAnswer) : ReadResult :=
  let available := min room (c.buffered.length - c.bufferedPos)
  let source := (c.buffered.drop c.bufferedPos).take available
  match c.body.consumeSlice source with
  | .error e => (.err e, c)
  | .ok (consumed, body) =>
    let c := { c with body, bufferedPos := c.bufferedPos + consumed }
    if c.body.isDone then (.ok (source.take consumed), c)
    else if room - consumed = 0 then (.ok (source.take consumed), c)
    else c.pollReadSocket (source.take consumed) (room - consumed) socket

/-- The origin has not decided about an upgrade. -/
def awaitsUpgrade (c : SingleRequestClient) : Bool :=
  c.upgradeRequested && (c.responseState == .head || c.responseState == .interimPending ||
    c.responseState == .upgradePending)

/-- A read, before what is seen of it. -/
def pollReadInner (c : SingleRequestClient) (room : ℕ) (socket : ReadAnswer) : ReadResult :=
  if c.responseState = .upgraded then c.pollReadUpgraded room socket
  else if c.upgradeDeclined ∧ c.responseState = .streaming then (.ok [], c)
  else if c.responseDone ∧ c.body.isDone = false then (.ok [], c)
  else if c.body.isDone then
    if c.awaitsUpgrade then c.pollHoldBeforeUpgrade socket else c.pollDiscardAfterBody socket
  else if room = 0 then (.ok [], c)
  else if c.bufferedPos < c.buffered.length then c.pollReadBuffered room socket
  else c.pollReadSocket [] room socket

/-- `poll_read` into a buffer with so much room. -/
def pollRead (c : SingleRequestClient) (room : ℕ) (socket : ReadAnswer) : ReadResult :=
  match c.pollReadInner room socket with
  | (.ok read, c) => (.ok read, { c with taken := c.taken ++ read })
  | result => result

/-! ### Writing -/

/-- The state after a head was delivered. -/
def headDelivered (c : SingleRequestClient) : SingleRequestClient :=
  let c := { c with responseBuf := [], responsePos := 0 }
  match c.responseState with
  | .interimPending => { c with responseState := .head }
  | .finalPending =>
    { c with
      passUpstreamShutdown := c.passUpstreamShutdown || c.upgradeDeclined
      responseState := .streaming }
  | .upgradePending => { c with passUpstreamShutdown := true, responseState := .upgraded }
  | _ => c

/-- Deliver a head. The answers that are not used are given back. -/
def pollDrainResponse (c : SingleRequestClient) (writes : List WriteEv) :
    Poll IoError Unit × SingleRequestClient × List WriteEv :=
  let r := drain writes (c.responseBuf.drop c.responsePos)
  let c := { c with
    responsePos := c.responsePos + r.sent.length
    sentResponseBytes := c.sentResponseBytes || decide (r.sent ≠ [])
    delivered := c.delivered ++ r.sent }
  match r.status with
  | .done => (.ok (), c.headDelivered, r.evs)
  | .blocked => (.pending, c, r.evs)
  | .closed => (.err ⟨.writeZero, "write zero bytes to HTTP proxy client"⟩, c, r.evs)
  | .failed => (.err transportError, c, r.evs)

/-- A response head is complete. -/
def prepareResponseHead (c : SingleRequestClient) : Except IoError SingleRequestClient :=
  if hasBareLineEnding c.responseBuf then
    .error (invalidData "bare CR or LF in upstream response headers")
  else do
    let status ← parseResponseStatus c.responseBuf
    let c := { c with responsePos := 0 }
    if 100 ≤ status ∧ status < 200 ∧ status ≠ 101 then do
      let rewritten ← rewriteResponseHead c.responseBuf .interim
      .ok { c with responseBuf := rewritten, responseState := .interimPending }
    else if status = 101 then
      if c.upgradeRequested = false ∨ c.body.isDone = false then
        .error (invalidData "unexpected upstream 101 response")
      else do
        validateUpgradeResponse c.responseBuf
        let rewritten ← rewriteResponseHead c.responseBuf .upgrade
        .ok { c with responseBuf := rewritten, responseState := .upgradePending }
    else do
      let c := { c with upgradeDeclined := c.upgradeRequested }
      let rewritten ← rewriteResponseHead c.responseBuf .close
      .ok { c with responseBuf := rewritten, responseState := .finalPending }

/-- Bytes of a response head. -/
def writeHead (c : SingleRequestClient) (source : List UInt8) :
    Poll IoError ℕ × SingleRequestClient :=
  if source = [] then (.ok 0, c)
  else
    let available := MAX_RESPONSE_HEADERS - c.responseBuf.length
    if available = 0 then
      (.err ⟨.invalidData, "upstream response headers are too large"⟩, c)
    else
      let oldLen := c.responseBuf.length
      let copied := min available source.length
      let buf := c.responseBuf ++ source.take copied
      let searchStart := oldLen - 3
      match findCrlfCrlf (buf.drop searchStart) with
      | some relative =>
        let headEnd := searchStart + relative + 4
        let consumed := headEnd - oldLen
        let c := { c with
          responseBuf := buf.take headEnd, responses := c.responses ++ source.take consumed }
        match c.prepareResponseHead with
        | .error e => (.err e, c)
        | .ok c => (.ok consumed, c)
      | none =>
        (.ok copied, { c with responseBuf := buf, responses := c.responses ++ source.take copied })

/-- A head is waiting to be delivered. -/
def headPending (c : SingleRequestClient) : Bool :=
  c.responseState == .interimPending || c.responseState == .finalPending ||
    c.responseState == .upgradePending

/-- A write when no head is waiting. -/
def writeReady (c : SingleRequestClient) (source : List UInt8) (writes : List WriteEv) :
    Poll IoError ℕ × SingleRequestClient :=
  if c.responseState = .head then c.writeHead source
  else
    match writeOnce writes source with
    | (.done, sent) =>
      (.ok sent.length,
        { c with delivered := c.delivered ++ sent, responses := c.responses ++ sent })
    | (.blocked, _) => (.pending, c)
    | (.closed, _) => (.ok 0, c)
    | (.failed, _) => (.err transportError, c)

def pollWrite (c : SingleRequestClient) (source : List UInt8) (writes : List WriteEv) :
    Poll IoError ℕ × SingleRequestClient :=
  if c.headPending then
    match c.pollDrainResponse writes with
    | (.ok (), c, writes) => c.writeReady source writes
    | (.pending, c, _) => (.pending, c)
    | (.err e, c, _) => (.err e, c)
  else c.writeReady source writes

/-- The answer of the connection to a flush or a shutdown. -/
def answered : PollAnswer → Poll IoError Unit
  | .pending => .pending
  | .fail => .err transportError
  | .ready => .ok ()

def pollFlush (c : SingleRequestClient) (writes : List WriteEv) (answer : PollAnswer) :
    Poll IoError Unit × SingleRequestClient :=
  if c.headPending then
    match c.pollDrainResponse writes with
    | (.ok (), c, _) => (answered answer, c)
    | (result, c, _) => (result, c)
  else (answered answer, c)

/-- The end of the response, when no head is waiting. -/
def shutdownReady (c : SingleRequestClient) (answer : PollAnswer) :
    Poll IoError Unit × SingleRequestClient :=
  if c.responseState = .head then
    (.err ⟨.unexpectedEof, "upstream closed before its final response headers completed"⟩, c)
  else (answered answer, { c with responseDone := true })

def pollShutdown (c : SingleRequestClient) (writes : List WriteEv) (answer : PollAnswer) :
    Poll IoError Unit × SingleRequestClient :=
  if c.headPending then
    match c.pollDrainResponse writes with
    | (.ok (), c, _) => c.shutdownReady answer
    | (result, c, _) => (result, c)
  else c.shutdownReady answer

end SingleRequestClient

/-! ### The invariant -/

open SingleRequestClient

/-- A response that switches protocols is waiting to be delivered. -/
def SwitchPending (c : SingleRequestClient) : Prop :=
  ∃ head, head <:+: c.responses ∧ parseResponseStatus head = .ok 101 ∧
    validateUpgradeResponse head = .ok () ∧
    rewriteResponseHead head .upgrade = .ok c.responseBuf ∧
    c.responseBuf.take c.responsePos <:+ c.delivered

/-- A response that switches protocols was delivered. -/
def Switched (c : SingleRequestClient) : Prop :=
  ∃ head rewritten, head <:+: c.responses ∧ parseResponseStatus head = .ok 101 ∧
    validateUpgradeResponse head = .ok () ∧ rewriteResponseHead head .upgrade = .ok rewritten ∧
    rewritten <:+: c.delivered

/-- What holds of a client at all times, also after an error. -/
structure SafeOk (c : SingleRequestClient) (kind : RequestBodyKind) : Prop where
  front : c.taken <+: c.buffered ++ c.received
  body : c.responseState ≠ .upgraded → ∃ d, (RequestBodyDecoder.new kind).runs c.taken = some d
  switched : c.responseState = .upgraded → Switched c

/-- **The invariant of the client**, as long as there was no error. -/
structure LiveOk (c : SingleRequestClient) (kind : RequestBodyKind) : Prop where
  pos : c.bufferedPos ≤ c.buffered.length
  eof : c.clientEof = true → c.socketEof = true
  front : c.taken <+: c.buffered ++ c.received
  runs : c.responseState ≠ .upgraded → (RequestBodyDecoder.new kind).runs c.taken = some c.body
  /-- All that has come belongs to the body until it is complete. -/
  unfinished : c.responseState ≠ .upgraded → c.body ≠ .done →
    c.taken = c.buffered.take c.bufferedPos ++ c.received ∧
      (c.bufferedPos < c.buffered.length → c.received = [])
  noBody : c.upgradeRequested = true → RequestBodyDecoder.new kind = .done
  declined : c.upgradeDeclined = true → c.upgradeRequested = true
  /-- Nothing is thrown away before the decision about an upgrade. -/
  waiting : c.awaitsUpgrade = true → c.bufferedPos = 0 ∧ c.heldPos = 0 ∧ c.held = c.received
  heads : c.responseState = .head → c.responseBuf <:+ c.responses
  pending : c.responseState = .upgradePending → c.upgradeRequested = true ∧ SwitchPending c
  upgraded : c.responseState = .upgraded → Switched c ∧
    c.buffered ++ c.received = c.taken ++ (c.buffered.drop c.bufferedPos ++ c.held.drop c.heldPos)

variable {kind : RequestBodyKind}

lemma LiveOk.safe {c} (h : LiveOk c kind) : SafeOk c kind :=
  ⟨h.front, fun hne => ⟨c.body, h.runs hne⟩, fun heq => (h.upgraded heq).1⟩

lemma liveOk_new (buffered : List UInt8) {upgradeRequested}
    (h : upgradeRequested = true → RequestBodyDecoder.new kind = .done) :
    LiveOk (.new buffered kind upgradeRequested) kind where
  pos := zero_le _
  eof h := absurd h (by simp [new])
  front := nil_prefix
  runs _ := rfl
  unfinished _ _ := ⟨rfl, fun _ => rfl⟩
  noBody := h
  declined h := absurd h (by simp [new])
  waiting _ := ⟨rfl, rfl, rfl⟩
  heads _ := suffix_refl _
  pending h := absurd h (by simp [new])
  upgraded h := absurd h (by simp [new])

/-- What a read leaves as it is. -/
structure ReadKeeps (c c' : SingleRequestClient) : Prop where
  buffered : c'.buffered = c.buffered
  responseState : c'.responseState = c.responseState
  upgradeRequested : c'.upgradeRequested = c.upgradeRequested
  upgradeDeclined : c'.upgradeDeclined = c.upgradeDeclined
  responseDone : c'.responseDone = c.responseDone
  taken : c'.taken = c.taken
  responseBuf : c'.responseBuf = c.responseBuf
  responsePos : c'.responsePos = c.responsePos
  delivered : c'.delivered = c.delivered
  responses : c'.responses = c.responses
  received : c.received <+: c'.received

lemma ReadKeeps.refl (c : SingleRequestClient) : ReadKeeps c c :=
  ⟨rfl, rfl, rfl, rfl, rfl, rfl, rfl, rfl, rfl, rfl, prefix_refl _⟩

/-- Why a read reports the end of the stream. -/
structure EndReason (c : SingleRequestClient) : Prop where
  /-- An upgrade that is possible, or was made, is ended by the client only. -/
  client : c.awaitsUpgrade = true ∨ c.responseState = .upgraded → c.socketEof = true
  body : c.responseState ≠ .upgraded → c.body = .done ∨ c.responseDone = true

/-- **What a read can do.** -/
inductive InnerSpec (c : SingleRequestClient) (kind : RequestBodyKind) (room : ℕ) :
    ReadResult → Prop where
  | pending (c' : SingleRequestClient) (hkeeps : ReadKeeps c c') (hlive : LiveOk c' kind) :
      InnerSpec c kind room (.pending, c')
  | err (e : IoError) (c' : SingleRequestClient) (hkeeps : ReadKeeps c c') :
      InnerSpec c kind room (.err e, c')
  | eof (c' : SingleRequestClient) (hkeeps : ReadKeeps c c') (hlive : LiveOk c' kind)
      (hreason : EndReason c') : InnerSpec c kind room (.ok [], c')
  | data (read : List UInt8) (c' : SingleRequestClient) (hne : read ≠ [])
      (hlen : read.length ≤ room) (hkeeps : ReadKeeps c c')
      (hlive : LiveOk { c' with taken := c'.taken ++ read } kind) :
      InnerSpec c kind room (.ok read, c')

section Read

variable {c : SingleRequestClient} {room : ℕ} {socket : ReadAnswer}

lemma awaitsUpgrade_eq_true_iff : c.awaitsUpgrade ↔ c.upgradeRequested ∧
    (c.responseState = .head ∨ c.responseState = .interimPending ∨
      c.responseState = .upgradePending) := by
  simp [awaitsUpgrade, or_assoc]

lemma ne_upgraded_of_awaits (h : c.awaitsUpgrade) : c.responseState ≠ .upgraded := by
  rcases (awaitsUpgrade_eq_true_iff.mp h).2 with heq | heq | heq <;> rw [heq] <;> decide

variable {c' : SingleRequestClient}

/-- A read changes what is known of the connection and of the body only. -/
lemma ReadKeeps.exists_eq (h : ReadKeeps c c') :
    ∃ bufferedPos body clientEof discarded held heldPos sent pass more socketEof, c' = { c with
      bufferedPos, body, clientEof, discardedClientBytes := discarded, held, heldPos
      sentResponseBytes := sent, passUpstreamShutdown := pass, received := c.received ++ more
      socketEof } := by
  obtain ⟨more, hmore⟩ := h.received
  cases c'
  cases h
  subst_vars
  exact ⟨_, _, _, _, _, _, _, _, more, _, rfl⟩

lemma ReadKeeps.trans {c'' : SingleRequestClient} (h : ReadKeeps c c') (h' : ReadKeeps c' c'') :
    ReadKeeps c c'' := by
  obtain ⟨_, _, _, _, _, _, _, _, more, _, rfl⟩ := h.exists_eq
  obtain ⟨_, _, _, _, _, _, _, _, more', _, rfl⟩ := h'.exists_eq
  constructor <;> simp

/-- A read of a client whose body is complete, and that waits for no upgrade. -/
lemma LiveOk.idle (h : LiveOk c kind) (hstate : c.responseState ≠ .upgraded)
    (hbody : c.body = .done) (hawaits : c.awaitsUpgrade = false) (hkeeps : ReadKeeps c c')
    (hpos : c'.bufferedPos ≤ c.buffered.length) (heof : c'.clientEof → c'.socketEof)
    (hbody' : c'.body = c.body) : LiveOk c' kind := by
  obtain ⟨_, _, _, _, _, _, _, _, more, _, rfl⟩ := hkeeps.exists_eq
  refine ⟨hpos, heof, ?_, fun _ => ?_, fun _ hne => absurd (hbody'.trans hbody) hne, h.noBody,
    h.declined, fun heq => ?_, h.heads, h.pending, fun heq => absurd heq hstate⟩
  · rw [← append_assoc]
    exact h.front.trans (prefix_append _ _)
  · exact (h.runs hstate).trans (congrArg some hbody'.symm)
  · cases hawaits.symm.trans heq

/-- Where no upgrade is waited for and none was made, a read may end with the body or the
response. -/
lemma EndReason.of_idle (hstate : c.responseState ≠ .upgraded) (hawaits : c.awaitsUpgrade = false)
    (hbody : c.body = .done ∨ c.responseDone) : EndReason c := by
  refine ⟨fun hor => ?_, fun _ => hbody⟩
  rcases hor with hor | hor
  · cases hawaits.symm.trans hor
  · exact absurd hor hstate

/-- What is recorded is only the number of bytes. -/
lemma recordDiscarded_eq {count result} (h : c.recordDiscardedClientBytes count = (result, c')) :
    ∃ n, c' = { c with discardedClientBytes := n } := by
  simp only [recordDiscardedClientBytes] at h
  split_ifs at h <;> exact ⟨_, (Prod.mk.inj h).2.symm⟩

section

variable (h : LiveOk c kind)
include h

lemma innerSpec_discard (hstate : c.responseState ≠ .upgraded) (hbody : c.body = .done)
    (hawaits : c.awaitsUpgrade = false) :
    InnerSpec c kind room (c.pollDiscardAfterBody socket) := by
  have hidle : ∀ {c' : SingleRequestClient}, ReadKeeps c c' → c'.bufferedPos ≤ c.buffered.length →
      (c'.clientEof → c'.socketEof) → c'.body = c.body →
      InnerSpec c kind room (.pending, c') := fun hkeeps hpos heof hbody' =>
    .pending _ hkeeps (h.idle hstate hbody hawaits hkeeps hpos heof hbody')
  fun_cases pollDiscardAfterBody c socket with
  | case1 | case6 =>
    obtain ⟨n, rfl⟩ := recordDiscarded_eq ‹_›
    exact .err _ _ (by constructor <;> simp)
  | case2 =>
    obtain ⟨n, rfl⟩ := recordDiscarded_eq ‹_›
    exact hidle (by constructor <;> simp) le_rfl h.eof rfl
  | case7 =>
    obtain ⟨n, rfl⟩ := recordDiscarded_eq ‹_›
    exact hidle (by constructor <;> simp) h.pos h.eof rfl
  | case3 | case9 => exact .eof c (.refl c) h (.of_idle hstate hawaits (.inl hbody))
  | case4 | case8 => exact .err _ c (.refl c)
  | case5 =>
    have hkeeps : ReadKeeps c { c with clientEof := true, socketEof := true } := by
      constructor <;> simp
    exact .eof _ hkeeps (h.idle hstate hbody hawaits hkeeps h.pos (fun _ => rfl) rfl)
      (.of_idle hstate hawaits (.inl hbody))
  | case10 => exact .pending c (.refl c) h

/-- A read of a client that waits for an upgrade. -/
lemma innerSpec_hold (hbody : c.body = .done) (hawaits : c.awaitsUpgrade) :
    InnerSpec c kind room (c.pollHoldBeforeUpgrade socket) := by
  have hstate := ne_upgraded_of_awaits hawaits
  simp only [pollHoldBeforeUpgrade]
  split_ifs with heof hfull
  · exact .eof c (.refl c) h ⟨fun _ => h.eof heof, fun _ => .inl hbody⟩
  · exact .err _ c (.refl c)
  cases socket with
  | eof =>
    exact .eof _ (by constructor <;> simp) { h with eof := fun _ => rfl }
      ⟨fun _ => rfl, fun _ => .inl hbody⟩
  | data first rest =>
    generalize (first :: rest).take (min (MAX_HELD_UPGRADE_BYTES - c.held.length)
      CLIENT_DISCARD_BUFFER_SIZE) = staged
    refine .pending _ (by constructor <;> simp) ?_
    obtain ⟨hpos, hheld, heq⟩ := h.waiting hawaits
    refine ⟨h.pos, h.eof, ?_, h.runs, fun _ hne => absurd hbody hne, h.noBody, h.declined,
      fun _ => ?_, h.heads, h.pending, fun heq => absurd heq hstate⟩
    · exact h.front.trans ((prefix_append_right_inj _).mpr (prefix_append _ _))
    · exact ⟨hpos, hheld, by rw [heq]⟩
  | fail => exact .err _ c (.refl c)
  | pending => exact .pending c (.refl c) h

/-- A read of a client after an upgrade. -/
lemma innerSpec_upgraded (hroom : room ≠ 0) (hstate : c.responseState = .upgraded) :
    InnerSpec c kind room (c.pollReadUpgraded room socket) := by
  obtain ⟨hswitched, hall⟩ := h.upgraded hstate

  -- what is taken from the front of what is left
  have hlive : ∀ {c' : SingleRequestClient} {read : List UInt8}, ReadKeeps c c' →
      c'.bufferedPos ≤ c.buffered.length → (c'.clientEof = true → c'.socketEof = true) →
      c.buffered ++ c'.received
        = c.taken ++ read ++ (c.buffered.drop c'.bufferedPos ++ c'.held.drop c'.heldPos) →
      LiveOk { c' with taken := c'.taken ++ read } kind := by
    intro c' read hkeeps hpos heof heq
    obtain ⟨_, _, _, _, _, _, _, _, more, _, rfl⟩ := hkeeps.exists_eq
    refine ⟨hpos, heof, ?_, fun hne => absurd hstate hne, fun hne => absurd hstate hne, h.noBody,
      h.declined, fun hawaits => absurd hstate (ne_upgraded_of_awaits hawaits), h.heads, h.pending,
      fun _ => ⟨hswitched, heq⟩⟩
    rw [heq]
    exact prefix_append _ _
  fun_cases pollReadUpgraded c room socket with
  | case1 _ hleft =>
    have hkeeps : ReadKeeps c { c with
        bufferedPos := c.bufferedPos + min room (c.buffered.length - c.bufferedPos) } := by
      constructor <;> simp
    refine .data _ _ (by simp; omega) (by simp; omega) hkeeps
      (hlive hkeeps (by simp only; omega) h.eof ?_)
    rw [hall, append_assoc, ← append_assoc (take _ _), ← drop_drop, take_append_drop]
  | case2 _ hleft hheld =>
    have hempty := drop_eq_nil_iff.mpr (not_lt.mp hleft)
    have hkeeps : ReadKeeps c { c with
        heldPos := c.heldPos + min room (c.held.length - c.heldPos) } := by
      constructor <;> simp
    refine .data _ _ (by simp; omega) (by simp; omega) hkeeps (hlive hkeeps h.pos h.eof ?_)
    rw [hall, hempty, nil_append, nil_append, append_assoc, ← drop_drop, take_append_drop]
  | case3 =>
    exact .eof _ (by constructor <;> simp) { h with eof := fun _ => rfl }
      ⟨fun _ => rfl, fun hne => absurd hstate hne⟩
  | case4 hleft hheld first rest =>
    have hempty := drop_eq_nil_iff.mpr (not_lt.mp hleft)
    have hempty' := drop_eq_nil_iff.mpr (not_lt.mp hheld)
    rw [hempty, hempty', append_nil, append_nil] at hall
    have hkeeps : ReadKeeps c { c with received := c.received ++ (first :: rest).take room } := by
      constructor <;> simp
    refine .data _ _ (by simpa using hroom) (length_take_le _ _) hkeeps
      (hlive hkeeps h.pos h.eof ?_)
    rw [hempty, hempty', append_nil, append_nil, ← append_assoc, hall]
  | case5 => exact .err _ c (.refl c)
  | case6 => exact .pending c (.refl c) h

variable (hstate : c.responseState ≠ .upgraded)
include hstate

/-- A client that asks for an upgrade has no body. -/
lemma LiveOk.untouched (hrequested : c.upgradeRequested) : c.taken = [] ∧ c.body = .done := by
  have hruns := h.runs hstate
  rw [h.noBody hrequested] at hruns
  by_cases hnil : c.taken = []
  · rw [hnil] at hruns
    exact ⟨hnil, (Option.some.inj hruns).symm⟩
  · rw [RequestBodyDecoder.runs_done hnil] at hruns
    cases hruns

/-- Bytes that the decoder has taken. -/
lemma LiveOk.consumed (hbody : c.body ≠ .done) {read} {c' : SingleRequestClient}
    (hkeeps : ReadKeeps c c') (hpos : c'.bufferedPos ≤ c.buffered.length)
    (heof : c'.clientEof → c'.socketEof) (hruns : c.body.runs read = some c'.body)
    (hfront : c.taken ++ read <+: c.buffered ++ c'.received)
    (hunfinished : c'.body ≠ .done →
      c.taken ++ read = c.buffered.take c'.bufferedPos ++ c'.received ∧
      (c'.bufferedPos < c.buffered.length → c'.received = [])) :
    LiveOk { c' with taken := c'.taken ++ read } kind := by
  obtain ⟨_, _, _, _, _, _, _, _, more, _, rfl⟩ := hkeeps.exists_eq
  refine ⟨hpos, heof, hfront, fun _ => ?_, fun _ => hunfinished, h.noBody, h.declined,
    fun hawaits => ?_, h.heads, h.pending, fun heq => absurd heq hstate⟩
  · rw [RequestBodyDecoder.runs_append, h.runs hstate]
    exact hruns
  · exact absurd (h.untouched hstate (awaitsUpgrade_eq_true_iff.mp hawaits).1).2 hbody

lemma LiveOk.proper : c.body.Proper :=
  RequestBodyDecoder.Proper.runs (RequestBodyDecoder.proper_new kind) (h.runs hstate)

end

/-- Body bytes from the connection, after `filled`. -/
lemma innerSpec_socket {filled : List UInt8} {c₀} (hkeeps : ReadKeeps c₀ c)
    (h : LiveOk { c with taken := c.taken ++ filled } kind) (hstate : c.responseState ≠ .upgraded)
    (hbody : c.body ≠ .done) (hend : c.bufferedPos = c.buffered.length) (hroom : room ≠ 0) :
    InnerSpec c₀ kind (filled.length + room) (c.pollReadSocket filled room socket) := by
  have hslice := RequestBodyDecoder.sliceSpec (LiveOk.proper h hstate)
  have hkeeps' : ∀ (read : List UInt8) (body : RequestBodyDecoder) (n : ℕ), ReadKeeps c₀ { c with
      received := c.received ++ read, body, discardedClientBytes := n } := fun _ _ _ =>
    hkeeps.trans (by constructor <;> simp)
  fun_cases pollReadSocket c filled room socket with
  | case1 => exact .err _ _ (hkeeps.trans (by constructor <;> simp))
  | case2 => exact .err _ _ (hkeeps' _ c.body c.discardedClientBytes)
  | case3 =>
    obtain ⟨n, rfl⟩ := recordDiscarded_eq ‹_›
    exact .err _ _ (hkeeps' _ _ n)
  | case4 first rest read c₁ consumed body hconsume c' hrecord =>
    obtain ⟨n, rfl⟩ := recordDiscarded_eq hrecord
    have hne : read ≠ [] := by simpa [read] using hroom
    have hlen : read.length ≤ room := length_take_le _ _
    clear_value read
    have hspec := hslice read
    rw [hconsume] at hspec
    cases hspec with
    | ok _ _ hle hruns hboundary hpos =>
      have hconsumed := hpos hne
      obtain ⟨htaken, -⟩ := h.unfinished hstate hbody
      simp only at htaken
      rw [hend, take_length] at htaken
      have hlive := @LiveOk.consumed kind _ h hstate hbody (read.take consumed)
        { c with
          taken := c.taken ++ filled, received := c.received ++ read, body
          discardedClientBytes := n }
        (by constructor <;> simp) hend.le h.eof hruns ?_ ?_
      · refine .data _ _ (by simp [hne]; omega) (by simp; omega) (hkeeps' read body n) ?_
        rwa [← append_assoc]
      · rw [htaken, append_assoc, prefix_append_right_inj, prefix_append_right_inj]
        exact take_prefix _ _
      · intro hne'
        have hall : consumed = read.length := by
          by_contra hlt
          exact hne' (hboundary (lt_of_le_of_ne hle hlt))
        rw [htaken, hend, take_length, hall, take_length, append_assoc]
        exact ⟨rfl, fun hlt => absurd hlt (lt_irrefl _)⟩
  | case5 => exact .err _ c hkeeps
  | case6 hfilled => exact .data filled c hfilled (le_add_right _ _) hkeeps h
  | case7 hfilled =>
    rw [not_not.mp hfilled, append_nil] at h
    exact .pending c hkeeps h

variable (h : LiveOk c kind)
include h

/-- The bytes that were read with the head. -/
lemma innerSpec_buffered (hstate : c.responseState ≠ .upgraded) (hbody : c.body ≠ .done)
    (hleft : c.bufferedPos < c.buffered.length) (hroom : room ≠ 0) :
    InnerSpec c kind room (c.pollReadBuffered room socket) := by
  obtain ⟨htaken, hreceived⟩ := h.unfinished hstate hbody
  have hnone := hreceived hleft
  rw [hnone, append_nil] at htaken
  unfold pollReadBuffered
  simp only
  generalize havailable : min room (c.buffered.length - c.bufferedPos) = available
  have hlen : ((c.buffered.drop c.bufferedPos).take available).length = available := by
    rw [length_take, length_drop]
    omega
  have hslice := RequestBodyDecoder.sliceSpec (h.proper hstate)
    ((c.buffered.drop c.bufferedPos).take available)
  rcases hconsume : c.body.consumeSlice ((c.buffered.drop c.bufferedPos).take available)
    with e | ⟨consumed, body⟩
  · exact .err e c (.refl c)
  · rw [hconsume] at hslice
    cases hslice with
    | ok _ _ hle hruns hboundary hpos =>
      rw [hlen] at hle hboundary
      simp only
      rw [take_take, min_eq_left hle] at hruns ⊢
      have hconsumed : 0 < consumed := hpos (ne_nil_of_length_pos (by rw [hlen]; omega))
      have hkeeps : ReadKeeps c { c with body, bufferedPos := c.bufferedPos + consumed } := by
        constructor <;> simp
      have hread : c.taken ++ (c.buffered.drop c.bufferedPos).take consumed
          = c.buffered.take (c.bufferedPos + consumed) := by
        rw [htaken, ← take_add]
      have hlive := LiveOk.consumed h hstate hbody hkeeps (by simp only; omega) h.eof hruns
        (by
          rw [hread]
          exact (List.take_prefix _ _).trans (prefix_append _ _))
        (fun _ => ⟨by
          rw [hread, hnone, append_nil], fun _ => hnone⟩)
      have hlength : ((c.buffered.drop c.bufferedPos).take consumed).length = consumed := by
        rw [length_take, length_drop]
        omega
      have hne : (c.buffered.drop c.bufferedPos).take consumed ≠ [] :=
        ne_nil_of_length_pos (by omega)
      split_ifs with hdone hfull
      iterate 2 exact .data _ _ hne (by rw [hlength]; omega) hkeeps hlive
      · have hbody' : body ≠ .done := fun heq => hdone (by rw [heq]; rfl)
        have hall : ¬consumed < available := fun hlt => hbody' (hboundary hlt)
        have hspec := @innerSpec_socket kind _ (room - consumed) socket _ c hkeeps hlive hstate
          hbody' (by simp only; omega) hfull
        rw [hlength, Nat.add_sub_cancel' (by omega)] at hspec
        exact hspec

/-- **What a read can do.** -/
theorem LiveOk.pollReadInner (hroom : room ≠ 0) :
    InnerSpec c kind room (c.pollReadInner room socket) := by
  unfold SingleRequestClient.pollReadInner
  have hdoneIff : c.body.isDone ↔ c.body = .done := by
    rw [RequestBodyDecoder.isDone, beq_iff_eq]
  split_ifs with hstate hdeclined hearly hdone hawaits hleft
  · exact innerSpec_upgraded h hroom hstate
  · exact .eof c (.refl c) h (.of_idle hstate (by simp [awaitsUpgrade, hdeclined.2])
      (.inl (h.untouched hstate (h.declined hdeclined.1)).2))
  · refine .eof c (.refl c) h (.of_idle hstate (Bool.eq_false_iff.mpr fun hawaits => ?_)
      (.inr hearly.1))
    have hbody := (h.untouched hstate (awaitsUpgrade_eq_true_iff.mp hawaits).1).2
    rw [hbody] at hearly
    exact absurd hearly.2 (by decide)
  · exact innerSpec_hold h (hdoneIff.mp hdone) hawaits
  · exact innerSpec_discard h hstate (hdoneIff.mp hdone) (Bool.eq_false_iff.mpr hawaits)
  · exact innerSpec_buffered h hstate (fun heq => hdone (hdoneIff.mpr heq)) hleft hroom
  · have hlive : LiveOk { c with taken := c.taken ++ [] } kind := by
      rw [append_nil]
      exact h
    have hspec := @innerSpec_socket kind c room socket [] c (.refl c) hlive hstate
      (fun heq => hdone (hdoneIff.mpr heq)) (le_antisymm h.pos (not_lt.mp hleft)) hroom
    rw [length_nil, zero_add] at hspec
    exact hspec

/-- After an error nothing more was taken. -/
lemma LiveOk.safe_of_keeps (hkeeps : ReadKeeps c c') : SafeOk c' kind := by
  obtain ⟨_, _, _, _, _, _, _, _, more, _, rfl⟩ := hkeeps.exists_eq
  exact ⟨h.front.trans ((prefix_append_right_inj _).mpr (prefix_append _ _)),
    fun hstate => ⟨c.body, h.runs hstate⟩, fun hstate => (h.upgraded hstate).1⟩

end Read

/-! ### Responses -/

/-- What an action on the responses leaves as it is. -/
structure RespondKeeps (c c' : SingleRequestClient) : Prop where
  buffered : c'.buffered = c.buffered
  bufferedPos : c'.bufferedPos = c.bufferedPos
  body : c'.body = c.body
  clientEof : c'.clientEof = c.clientEof
  held : c'.held = c.held
  heldPos : c'.heldPos = c.heldPos
  upgradeRequested : c'.upgradeRequested = c.upgradeRequested
  received : c'.received = c.received
  taken : c'.taken = c.taken
  socketEof : c'.socketEof = c.socketEof
  responseDone : c.responseDone = true → c'.responseDone = true
  /-- An upgrade is only made where it was waited for. -/
  upgraded : c'.responseState = .upgraded → c.responseState = .upgraded ∨ c.awaitsUpgrade = true
  stays : c.responseState = .upgraded → c'.responseState = .upgraded
  awaits : c'.awaitsUpgrade = true → c.awaitsUpgrade = true

section Respond

variable {c c' c'' : SingleRequestClient}

lemma RespondKeeps.trans (h : RespondKeeps c c') (h' : RespondKeeps c' c'') :
    RespondKeeps c c'' := by
  constructor <;> grind [RespondKeeps]

lemma RespondKeeps.refl (c : SingleRequestClient) : RespondKeeps c c := by
  constructor <;> simp +contextual

/-- The reason of an end stays one. -/
lemma EndReason.respond (h : EndReason c) (hkeeps : RespondKeeps c c') : EndReason c' := by
  refine ⟨fun hor => ?_, fun hstate => ?_⟩
  · rw [hkeeps.socketEof]
    refine h.client ?_
    rcases hor with hawaits | heq
    · exact .inl (hkeeps.awaits hawaits)
    · exact (hkeeps.upgraded heq).symm
  · rw [hkeeps.body]
    exact (h.body fun heq => hstate (hkeeps.stays heq)).imp_right hkeeps.responseDone

/-- **Where the responses are acted upon the invariant is kept**, if what it says of the responses
is. Before an upgrade nothing was taken, so that all that has come is still there. -/
lemma LiveOk.respond (h : LiveOk c kind) (hkeeps : RespondKeeps c c')
    (hdeclined : c'.upgradeDeclined → c'.upgradeRequested)
    (hheads : c'.responseState = .head → c'.responseBuf <:+ c'.responses)
    (hpending : c'.responseState = .upgradePending → c'.upgradeRequested ∧ SwitchPending c')
    (hswitched : c'.responseState = .upgraded → Switched c') : LiveOk c' kind := by
  have hne : c'.responseState ≠ .upgraded → c.responseState ≠ .upgraded :=
    fun hstate heq => hstate (hkeeps.stays heq)
  have hupgraded := hkeeps.upgraded
  have hwaits := hkeeps.awaits
  cases c'
  cases hkeeps
  subst_vars
  refine ⟨h.pos, h.eof, h.front, fun hstate => h.runs (hne hstate),
    fun hstate => h.unfinished (hne hstate), h.noBody, hdeclined,
    fun hawaits => h.waiting (hwaits hawaits), hheads, hpending, fun heq => ⟨hswitched heq, ?_⟩⟩
  rcases hupgraded heq with hupgraded | hawaits
  · exact (h.upgraded hupgraded).2
  · obtain ⟨hpos, hheldPos, hheld⟩ := h.waiting hawaits
    have htaken := (h.untouched (ne_upgraded_of_awaits hawaits)
      (awaitsUpgrade_eq_true_iff.mp hawaits).1).1
    rw [hpos, hheldPos, hheld, htaken, drop_zero, drop_zero, nil_append]

/-- **What an action on the responses can do.** -/
structure RespondSpec {α : Type} (c : SingleRequestClient) (kind : RequestBodyKind)
    (result : Poll IoError α) (c' : SingleRequestClient) : Prop where
  keeps : RespondKeeps c c'
  safe : SafeOk c' kind
  live : (∀ e, result ≠ .err e) → LiveOk c' kind

lemma RespondSpec.of_live {α : Type} {result : Poll IoError α} (hkeeps : RespondKeeps c c')
    (h : LiveOk c' kind) : RespondSpec c kind result c' := ⟨hkeeps, h.safe, fun _ => h⟩

lemma RespondSpec.trans {α β : Type} {result : Poll IoError α} {result' : Poll IoError β}
    (h : RespondSpec c kind result c') (h' : RespondSpec c' kind result' c'') :
    RespondSpec c kind result' c'' := ⟨h.keeps.trans h'.keeps, h'.safe, h'.live⟩

/-- The bytes of a head that were delivered. -/
lemma SwitchPending.sent (h : SwitchPending c) {sent : List UInt8}
    (hsent : sent <+: c.responseBuf.drop c.responsePos) (hresponses : c'.responses = c.responses)
    (hbuf : c'.responseBuf = c.responseBuf) (hpos : c'.responsePos = c.responsePos + sent.length)
    (hdelivered : c'.delivered = c.delivered ++ sent) : SwitchPending c' := by
  obtain ⟨head, hhead, hstatus, hvalid, hrewritten, htake⟩ := h
  refine ⟨head, hresponses ▸ hhead, hstatus, hvalid, hbuf ▸ hrewritten, ?_⟩
  rw [hbuf, hpos, hdelivered, take_add, ← prefix_iff_eq_take.mp hsent]
  obtain ⟨before, hbefore⟩ := htake
  exact ⟨before, by rw [← hbefore, append_assoc]⟩

/-- A head that was delivered as a whole. -/
lemma SwitchPending.switched (h : SwitchPending c) {sent : List UInt8}
    (hsent : sent = c.responseBuf.drop c.responsePos) (hresponses : c'.responses = c.responses)
    (hdelivered : c'.delivered = c.delivered ++ sent) : Switched c' := by
  obtain ⟨head, hhead, hstatus, hvalid, hrewritten, before, hbefore⟩ := h
  refine ⟨head, c.responseBuf, hresponses ▸ hhead, hstatus, hvalid, hrewritten, ?_⟩
  rw [hdelivered, hsent, ← hbefore, append_assoc, take_append_drop]
  exact (suffix_append _ _).isInfix

/-- More of the responses, and more that was delivered. -/
lemma Switched.mono (h : Switched c) (hresponses : c.responses <+: c'.responses)
    (hdelivered : c.delivered <+: c'.delivered) : Switched c' := by
  obtain ⟨head, rewritten, hhead, hstatus, hvalid, hrewritten, hinfix⟩ := h
  exact ⟨head, rewritten, hhead.trans hresponses.isInfix, hstatus, hvalid, hrewritten,
    hinfix.trans hdelivered.isInfix⟩

/-- The state that follows when a head was delivered. -/
def ResponseWriteState.delivered : ResponseWriteState → ResponseWriteState
  | .interimPending => .head
  | .finalPending => .streaming
  | .upgradePending => .upgraded
  | state => state

lemma headDelivered_eq (c : SingleRequestClient) : ∃ pass, c.headDelivered = { c with
    responseBuf := [], responsePos := 0, passUpstreamShutdown := pass
    responseState := c.responseState.delivered } := by
  unfold headDelivered
  cases hstate : c.responseState <;> exact ⟨_, rfl⟩

lemma delivered_eq_upgraded {state : ResponseWriteState} :
    state.delivered = .upgraded ↔ state = .upgraded ∨ state = .upgradePending := by
  cases state <;> decide

lemma delivered_ne_upgradePending (state : ResponseWriteState) :
    state.delivered ≠ .upgradePending := by
  cases state <;> decide

/-- A head was delivered as a whole. -/
lemma LiveOk.headDelivered (h : LiveOk c kind)
    (hswitched : c.responseState = .upgradePending → Switched c) :
    RespondKeeps c c.headDelivered ∧ LiveOk c.headDelivered kind := by
  obtain ⟨pass, heq⟩ := headDelivered_eq c
  rw [heq]
  have hkeeps : RespondKeeps c { c with
      responseBuf := [], responsePos := 0, passUpstreamShutdown := pass
      responseState := c.responseState.delivered } := by
    have hrequested := fun heq => (h.pending heq).1
    constructor <;> simp only [awaitsUpgrade_eq_true_iff] <;>
      cases hstate : c.responseState <;> simp_all [ResponseWriteState.delivered]
  refine ⟨hkeeps, h.respond hkeeps h.declined (fun _ => nil_suffix)
    (fun hstate => absurd hstate (delivered_ne_upgradePending _)) fun hstate => ?_⟩
  refine @Switched.mono c _ ?_ (prefix_refl _) (prefix_refl _)
  exact (delivered_eq_upgraded.mp hstate).elim (fun hstate => (h.upgraded hstate).1) hswitched

/-- Deliver a head: the state is left as it is until all is delivered. -/
lemma respondSpec_drain (h : LiveOk c kind) (writes : List WriteEv) :
    RespondSpec c kind (c.pollDrainResponse writes).1 (c.pollDrainResponse writes).2.1 ∧
      ((c.pollDrainResponse writes).1 = .ok () →
        (c.pollDrainResponse writes).2.1.responseState ≠ .upgradePending) := by
  have hsent : (drain writes (c.responseBuf.drop c.responsePos)).sent
      <+: c.responseBuf.drop c.responsePos := ⟨_, drain_sent_rest _ _⟩
  have hdone := @drain_sent_of_done _ writes (c.responseBuf.drop c.responsePos)
  unfold pollDrainResponse
  generalize drain writes (c.responseBuf.drop c.responsePos) = r at hsent hdone
  simp only
  generalize hsome : { c with
    responsePos := c.responsePos + r.sent.length
    sentResponseBytes := c.sentResponseBytes || decide (r.sent ≠ [])
    delivered := c.delivered ++ r.sent } = some'
  have hkeeps : RespondKeeps c some' := by
    subst hsome
    constructor <;> simp +contextual [awaitsUpgrade]
  have hlive : LiveOk some' kind := by
    subst hsome
    exact h.respond hkeeps h.declined h.heads
      (fun heq => ⟨(h.pending heq).1, (h.pending heq).2.sent hsent rfl rfl rfl rfl⟩)
      (fun heq => (h.upgraded heq).1.mono (prefix_refl _) (prefix_append _ _))
  cases hstatus : r.status with
  | blocked | closed | failed => exact ⟨.of_live hkeeps hlive, nofun⟩
  | done =>
    obtain ⟨hkeeps', hlive'⟩ := hlive.headDelivered fun heq => by
      subst hsome
      exact (h.pending heq).2.switched (hdone hstatus) rfl rfl
    refine ⟨.of_live (hkeeps.trans hkeeps') hlive', fun _ => ?_⟩
    obtain ⟨pass, heq⟩ := headDelivered_eq some'
    rw [heq]
    exact delivered_ne_upgradePending _

lemma RespondSpec.of_err {α : Type} (h : LiveOk c kind) (e : IoError) (hkeeps : RespondKeeps c c')
    (hswitched : c'.responseState = .upgraded → Switched c') :
    RespondSpec c kind (Poll.err e : Poll IoError α) c' := by
  refine ⟨hkeeps, ⟨?_, fun hstate => ?_, hswitched⟩, fun hne => absurd rfl (hne e)⟩
  · rw [hkeeps.taken, hkeeps.buffered, hkeeps.received]
    exact h.front
  · rw [hkeeps.taken]
    exact ⟨c.body, h.runs fun heq => hstate (hkeeps.stays heq)⟩

/-- **A response head becomes pending.** A switch of protocols is accepted if it was asked for. -/
lemma prepareResponseHead_ok (hok : c.prepareResponseHead = .ok c') :
    ∃ state buf declined, c' = { c with
        responsePos := 0, responseBuf := buf, responseState := state
        upgradeDeclined := declined } ∧
      (declined → c.upgradeDeclined ∨ c.upgradeRequested) ∧
      (state = .interimPending ∨ state = .finalPending ∨ state = .upgradePending ∧
        c.upgradeRequested ∧ parseResponseStatus c.responseBuf = .ok 101 ∧
        validateUpgradeResponse c.responseBuf = .ok () ∧
        rewriteResponseHead c.responseBuf .upgrade = .ok buf) := by
  unfold prepareResponseHead at hok
  split_ifs at hok with hbare
  obtain ⟨status, hstatus, hok⟩ := bind_eq_ok_iff.mp hok
  simp only at hok
  split_ifs at hok with hinterim hswitch hasked
  · obtain ⟨buf, -, hok⟩ := bind_eq_ok_iff.mp hok
    cases hok
    exact ⟨_, buf, c.upgradeDeclined, rfl, .inl, .inl rfl⟩
  · obtain ⟨⟨⟩, hvalid, hok⟩ := bind_eq_ok_iff.mp hok
    obtain ⟨buf, hrewritten, hok⟩ := bind_eq_ok_iff.mp hok
    cases hok
    rw [hswitch] at hstatus
    have hrequested : c.upgradeRequested := by simpa using (not_or.mp hasked).1
    exact ⟨_, buf, c.upgradeDeclined, rfl, .inl,
      .inr (.inr ⟨rfl, hrequested, hstatus, hvalid, hrewritten⟩)⟩
  · obtain ⟨buf, -, hok⟩ := bind_eq_ok_iff.mp hok
    cases hok
    exact ⟨_, buf, c.upgradeRequested, rfl, .inr, .inr (.inl rfl)⟩

/-- A head ends in the bytes that have just come. -/
lemma headEnd_spec {old source : List UInt8} {copied relative}
    (hfind : findCrlfCrlf ((old ++ source.take copied).drop (old.length - 3)) = some relative) :
    (old ++ source.take copied).take (old.length - 3 + relative + 4)
      = old ++ source.take (old.length - 3 + relative + 4 - old.length) := by
  have hle := findWindow_length_le (by simp [CRLF]) hfind
  simp only [CRLF, length_drop, length_append, length_take, length_cons] at hle
  rw [take_append, take_of_length_le (by omega), take_take]
  congr 2
  omega

lemma respondSpec_writeHead (h : LiveOk c kind) (hstate : c.responseState = .head)
    (source : List UInt8) : RespondSpec c kind (c.writeHead source).1 (c.writeHead source).2 := by
  have hkeeps : ∀ {buf responses : List UInt8},
      RespondKeeps c { c with responseBuf := buf, responses } := by
    intro buf responses
    constructor <;> simp +contextual [awaitsUpgrade]
  have hsuffix : ∀ {more : List UInt8}, c.responseBuf ++ more <:+ c.responses ++ more := by
    intro more
    obtain ⟨before, hbefore⟩ := h.heads hstate
    exact ⟨before, by rw [← hbefore, append_assoc]⟩
  simp only [writeHead]
  split_ifs with hnil hfull
  iterate 2 exact .of_live (.refl c) h
  generalize min (MAX_RESPONSE_HEADERS - c.responseBuf.length) source.length = copied
  rcases hfind : findCrlfCrlf ((c.responseBuf ++ source.take copied).drop
    (c.responseBuf.length - 3)) with _ | relative
  · exact .of_live hkeeps (h.respond hkeeps h.declined (fun _ => hsuffix)
      (fun heq => nomatch hstate.symm.trans heq) fun heq => nomatch hstate.symm.trans heq)
  · simp only
    rw [headEnd_spec hfind]
    generalize c.responseBuf.length - 3 + relative + 4 - c.responseBuf.length = consumed
    rcases hprepare : prepareResponseHead { c with
      responseBuf := c.responseBuf ++ source.take consumed
      responses := c.responses ++ source.take consumed } with e | c'
    · exact .of_err h e hkeeps fun heq => nomatch hstate.symm.trans heq
    · obtain ⟨state, buf, declined, rfl, hdeclined, hcases⟩ := prepareResponseHead_ok hprepare
      have hstate' : state ≠ .upgraded ∧ state ≠ .head := by
        rcases hcases with rfl | rfl | ⟨rfl, -⟩ <;> decide
      have hkeeps' : RespondKeeps c { c with
          responses := c.responses ++ source.take consumed
          responsePos := 0, responseBuf := buf, responseState := state
          upgradeDeclined := declined } := by
        refine ⟨rfl, rfl, rfl, rfl, rfl, rfl, rfl, rfl, rfl, rfl, id,
          fun heq => absurd heq hstate'.1, fun heq => ?_, fun hawaits => ?_⟩
        · cases hstate.symm.trans heq
        · exact awaitsUpgrade_eq_true_iff.mpr
            ⟨(awaitsUpgrade_eq_true_iff.mp hawaits).1, .inl hstate⟩
      refine .of_live hkeeps' (h.respond hkeeps' (fun heq => (hdeclined heq).elim h.declined id)
        (fun heq => absurd heq hstate'.2) (fun heq => ?_) fun heq => absurd heq hstate'.1)
      rcases hcases with hcase | hcase | ⟨-, hrequested, hstatus, hvalid, hrewritten⟩
      iterate 2 cases hcase.symm.trans heq
      · exact ⟨hrequested, _, hsuffix.isInfix, hstatus, hvalid, hrewritten, nil_suffix⟩

lemma respondSpec_writeReady (h : LiveOk c kind) (hupgrade : c.responseState ≠ .upgradePending)
    (source : List UInt8) (writes : List WriteEv) :
    RespondSpec c kind (c.writeReady source writes).1 (c.writeReady source writes).2 := by
  unfold writeReady
  split_ifs with hstate
  · exact respondSpec_writeHead h hstate source
  rcases writeOnce writes source with ⟨status, sent⟩
  cases status with
  | done =>
    have hkeeps : RespondKeeps c { c with
        delivered := c.delivered ++ sent, responses := c.responses ++ sent } := by
      constructor <;> simp +contextual [awaitsUpgrade]
    exact .of_live hkeeps (h.respond hkeeps h.declined (fun heq => absurd heq hstate)
      (fun heq => absurd heq hupgrade)
      fun heq => (h.upgraded heq).1.mono (prefix_append _ _) (prefix_append _ _))
  | blocked | closed | failed => exact .of_live (.refl c) h

lemma headPending_of_upgradePending (hstate : c.responseState = .upgradePending) :
    c.headPending = true := by
  rw [headPending, hstate]
  rfl

variable (h : LiveOk c kind)
include h

/-- **What a write can do.** -/
theorem LiveOk.pollWrite (source : List UInt8) (writes : List WriteEv) :
    RespondSpec c kind (c.pollWrite source writes).1 (c.pollWrite source writes).2 := by
  unfold SingleRequestClient.pollWrite
  split_ifs with hpending
  · obtain ⟨hspec, hstate⟩ := respondSpec_drain h writes
    generalize c.pollDrainResponse writes = drained at *
    rcases drained with ⟨_ | e | ⟨⟨⟩⟩, c', evs⟩
    · exact ⟨hspec.keeps, hspec.safe, fun _ => hspec.live (by simp)⟩
    · exact ⟨hspec.keeps, hspec.safe, fun hne => absurd rfl (hne e)⟩
    · exact hspec.trans (respondSpec_writeReady (hspec.live (by simp)) (hstate rfl) source evs)
  · exact respondSpec_writeReady h (fun heq => hpending (headPending_of_upgradePending heq))
      source writes

variable (writes : List WriteEv) (answer : PollAnswer)

/-- **What a flush can do.** -/
theorem LiveOk.pollFlush :
    RespondSpec c kind (c.pollFlush writes answer).1 (c.pollFlush writes answer).2 := by
  unfold SingleRequestClient.pollFlush
  split_ifs with hpending
  · obtain ⟨hspec, -⟩ := respondSpec_drain h writes
    generalize c.pollDrainResponse writes = drained at *
    rcases drained with ⟨_ | e | ⟨⟨⟩⟩, c', evs⟩
    iterate 2 exact hspec
    · exact .of_live hspec.keeps (hspec.live (by simp))
  · exact .of_live (.refl c) h

lemma respondSpec_shutdownReady (hupgrade : c.responseState ≠ .upgradePending)
    (answer : PollAnswer) :
    RespondSpec c kind (c.shutdownReady answer).1 (c.shutdownReady answer).2 := by
  unfold shutdownReady
  split_ifs with hstate
  · exact .of_live (.refl c) h
  · have hkeeps : RespondKeeps c { c with responseDone := true } := by
      constructor <;> simp +contextual [awaitsUpgrade]
    exact .of_live hkeeps (h.respond hkeeps h.declined h.heads (fun heq => absurd heq hupgrade)
      fun heq => (h.upgraded heq).1)

/-- **What the end of the response can do.** -/
theorem LiveOk.pollShutdown :
    RespondSpec c kind (c.pollShutdown writes answer).1 (c.pollShutdown writes answer).2 := by
  unfold SingleRequestClient.pollShutdown
  split_ifs with hpending
  · obtain ⟨hspec, hstate⟩ := respondSpec_drain h writes
    generalize c.pollDrainResponse writes = drained at *
    rcases drained with ⟨_ | e | ⟨⟨⟩⟩, c', evs⟩
    iterate 2 exact hspec
    · exact hspec.trans (respondSpec_shutdownReady (hspec.live (by simp)) (hstate rfl) answer)
  · exact respondSpec_shutdownReady h
      (fun heq => hpending (headPending_of_upgradePending heq)) answer

end Respond

end Meow.Http
