import Meow.Http.Rewrite
import Meow.Http.SingleRequest

/-!
# One exchange of the plain HTTP proxy

An exchange starts with the reads of the head. A head that is refused, by the parser, the
authentication, the rules or the dial, ends it; a `CONNECT` leaves this path. Otherwise the
rewritten head is written upstream, and the relay takes over, with a `SingleRequestClient` as its
client.

The relay copies in both directions at once, so here a turn of the upload, a write of a response
head or body, a flush and the end of the response are operations that come in any order. Whatever
answers the connections give are part of the operations. An exchange in which an operation failed,
or that was closed from outside, is closed.

What the exchange is for is said over bytes alone: a `decision` about the bytes that have arrived,
and the message that is sent for a request that is forwarded.

## Main definitions

* `State`, `step`, `run` — an exchange.
* `decision` — what is decided about the bytes that have arrived.

## Main results

* `decision_append_fst` — a decision stands, whatever comes later.
* `exchangeOk_run` — the invariant of an exchange holds in every run.
-/

namespace Meow.Http

open List Option Prod

open Meow.Tunnel (ReadAnswer PollAnswer Answers Direction DirectionOk RELAY_BUF_SIZE)

def CHUNK : ℕ := 1024

/-! ### The decision -/

/-- What the rest of the proxy says of a request: the authentication, and for a plain request the
rules, the admission and the dial. -/
structure Env where
  authorized : RequestHead → Bool
  connects : RequestHead → Bool

inductive Verdict where
  | rejected
  | connect
  | forward (request : RequestHead)
  deriving DecidableEq

/-- What is done with a head that is complete. -/
def verdict (env : Env) (head : List UInt8) : Verdict :=
  match parseRequestHead head with
  | .error _ => .rejected
  | .ok request =>
    if env.authorized request = false then .rejected
    else if eqIgnoreAsciiCase request.method (bytes "CONNECT") then .connect
    else if env.connects request = false then .rejected
    else .forward request

/-- **What is decided about the bytes that have arrived**, and the bytes after the head. -/
def decision (env : Env) (stream : List UInt8) : Option (Verdict × List UInt8) :=
  match headResult stream with
  | .more => none
  | .invalid => some (.rejected, [])
  | .complete headerEnd => some (verdict env (stream.take headerEnd), stream.drop headerEnd)

/-! ### The exchange -/

inductive Phase where
  | reading (reader : HeadReader)
  | rejected
  | connect
  | sending (request : RequestHead) (leftover unsent : List UInt8)
  | relaying (request : RequestHead) (client : SingleRequestClient) (upload : Direction)
  deriving DecidableEq

structure State where
  phase : Phase
  closed : Bool
  /-- The bytes that were read before the relay. -/
  head : List UInt8
  /-- The bytes of the rewritten head that were written. -/
  headSent : List UInt8
  deriving DecidableEq

namespace State

def start : State := ⟨.reading .start, false, [], []⟩

/-- All bytes that the client's connection gave. -/
def received (s : State) : List UInt8 :=
  match s.phase with
  | .relaying _ client _ => s.head ++ client.received
  | _ => s.head

/-- All bytes that were written upstream. -/
def upstream (s : State) : List UInt8 :=
  match s.phase with
  | .relaying _ _ upload => s.headSent ++ upload.accepted
  | _ => s.headSent

/-- A response that switches protocols was delivered. -/
def switched (s : State) : Prop :=
  match s.phase with
  | .relaying _ client _ => client.responseState = .upgraded
  | _ => False

/-- The origin has ended its response. -/
def responseDone (s : State) : Prop :=
  match s.phase with
  | .relaying _ client _ => client.responseDone = true
  | _ => False

/-- The relay has met the end of the upload, and has written all of it. -/
def uploaded (s : State) : Prop :=
  match s.phase with
  | .relaying _ _ upload => upload.readDone = true
  | _ => False

/-- The client has closed its side. -/
def clientClosed (s : State) : Prop :=
  match s.phase with
  | .relaying _ client _ => client.socketEof = true
  | _ => False

end State

inductive Op where
  /-- Bytes arrive while the head is read. -/
  | read (first : UInt8) (rest : List UInt8)
  /-- The head is written. -/
  | sendHead (ev : WriteEv)
  /-- A turn of the upload, with the answer of the client's connection and those of the remote. -/
  | upload (answers : Answers)
  /-- Bytes of the origin are written to the client. -/
  | respond (source : List UInt8) (writes : List WriteEv)
  | flush (writes : List WriteEv) (answer : PollAnswer)
  /-- The origin has ended its response. -/
  | finish (writes : List WriteEv) (answer : PollAnswer)
  /-- A timeout, the end of the stream before the head is complete, or a close from outside. -/
  | close
  deriving DecidableEq

/-- The phase after a verdict. -/
def Verdict.phase (leftover : List UInt8) : Verdict → Phase
  | .rejected => .rejected
  | .connect => .connect
  | .forward request => .sending request leftover request.rewritten

/-- The relay starts when the head is written. -/
def startRelay (request : RequestHead) (leftover : List UInt8) : Phase :=
  .relaying request (.new leftover request.bodyKind request.upgradeRequested)
    (.new (List.replicate RELAY_BUF_SIZE 0))

/-- What a read of the client is for the relay. -/
def readAnswer : Poll IoError (List UInt8) → ReadAnswer
  | .pending => .pending
  | .err _ => .fail
  | .ok [] => .eof
  | .ok (first :: rest) => .data first rest

/-- A turn of the upload. The client is read when the buffer is empty. -/
def uploadTurn (client : SingleRequestClient) (upload : Direction) (answers : Answers) :
    Bool × SingleRequestClient × Direction :=
  if upload.pos = upload.cap ∧ upload.readDone = false then
    let (result, client) := client.pollRead upload.upgrade.buf.length answers.read
    let (cycle, upload) := upload.pollCycle 0 { answers with read := readAnswer result }
    (cycle.isOk, client, upload)
  else
    let (cycle, upload) := upload.pollCycle 0 answers
    (cycle.isOk, client, upload)

/-- An action on the responses ends the exchange if it failed. -/
def State.responded {α : Type} (s : State) (request : RequestHead) (upload : Direction)
    (result : Poll IoError α × SingleRequestClient) : State :=
  { s with
    phase := .relaying request result.2 upload
    closed := match result.1 with
      | .err _ => true
      | _ => false }

def step (env : Env) (s : State) (op : Op) : State :=
  if s.closed then s
  else
    match s.phase, op with
    | .reading reader, .read first rest =>
      let chunk := (first :: rest).take CHUNK
      let s := { s with head := s.head ++ chunk }
      match reader.read chunk with
      | .more reader => { s with phase := .reading reader }
      | .invalid _ => { s with phase := .rejected }
      | .complete requestBuf headerEnd =>
        { s with
          phase := (verdict env (requestBuf.take headerEnd)).phase (requestBuf.drop headerEnd) }
    | .sending request leftover unsent, .sendHead ev =>
      match writeOnce [ev] unsent with
      | (.done, sent) =>
        let rest := unsent.drop sent.length
        { s with
          headSent := s.headSent ++ sent
          phase := if rest = [] then startRelay request leftover
            else .sending request leftover rest }
      | _ => { s with closed := true }
    | .relaying request client upload, .upload answers =>
      let (ok, client, upload) := uploadTurn client upload answers
      { s with phase := .relaying request client upload, closed := !ok }
    | .relaying request client upload, .respond source writes =>
      s.responded request upload (client.pollWrite source writes)
    | .relaying request client upload, .flush writes answer =>
      s.responded request upload (client.pollFlush writes answer)
    | .relaying request client upload, .finish writes answer =>
      s.responded request upload (client.pollShutdown writes answer)
    | _, .close => { s with closed := true }
    | _, _ => s

/-- The exchange after some operations. -/
def run (env : Env) (ops : List Op) : State := ops.foldl (step env) .start

/-! ### The decision is about the bytes -/

variable {stream : List UInt8}

lemma headerEnd_le {headerEnd} (h : headResult stream = .complete headerEnd) :
    headerEnd ≤ stream.length := by
  rw [headResult] at h
  split at h
  · rename_i marker hfind
    split_ifs at h
    rw [← HeadResult.complete.inj h]
    exact findWindow_length_le crlfCrlf_ne_nil hfind
  · split_ifs at h

variable {request : RequestHead} {env : Env} {rest : List UInt8}

/-- A request that is forwarded is not reconsidered. -/
lemma decision_append_forward (h : decision env stream = some (.forward request, rest))
    (more : List UInt8) :
    decision env (stream ++ more) = some (.forward request, rest ++ more) := by
  rw [decision] at h ⊢
  rcases hresult : headResult stream with _ | headerEnd | _ <;> rw [hresult] at h
  · simp at h
  · simp only [some.injEq, mk.injEq] at h
    have hle := headerEnd_le hresult
    rw [headResult_append_complete hresult]
    simp only
    rw [take_append_of_le_length hle, drop_append_of_le_length hle, h.1, h.2]
  · simp at h

/-- **A decision stands**, whatever comes later. -/
lemma decision_append_fst {v} (h : (decision env stream).map fst = some v) (more : List UInt8) :
    (decision env (stream ++ more)).map fst = some v := by
  rw [decision] at h ⊢
  rcases hresult : headResult stream with _ | headerEnd | _ <;> rw [hresult] at h
  · simp at h
  · rw [headResult_append_complete hresult]
    simp only [map_some] at h ⊢
    rw [take_append_of_le_length (headerEnd_le hresult), h]
  · rwa [headResult_append_invalid hresult]

lemma parsedHead_of_decision (h : decision env stream = some (.forward request, rest)) :
    ParsedHead request := by
  rw [decision] at h
  rcases hresult : headResult stream with _ | headerEnd | _ <;> rw [hresult] at h
  · simp at h
  · simp only [some.injEq, mk.injEq] at h
    have hverdict := h.1
    rw [verdict] at hverdict
    split at hverdict
    · simp at hverdict
    · rename_i parsed hparse
      split_ifs at hverdict
      rw [← Verdict.forward.inj hverdict]
      exact parsedHead_of_parse hparse
  · simp at h

/-- A request for an upgrade has no body. -/
lemma ParsedHead.noBody (h : ParsedHead request) (hupgrade : request.upgradeRequested) :
    RequestBodyDecoder.new request.bodyKind = .done := by
  have hvalid := h.upgrade
  rw [validateUpgradeRequest] at hvalid
  split_ifs at hvalid with hnominates hversion hbody
  · rw [hupgrade] at hvalid
    exact absurd (Except.ok.inj hvalid) (by decide)
  · rw [not_and_or, not_not, not_not] at hbody
    rcases hbody with hbody | hbody <;> rw [hbody] <;> rfl

/-! ### The invariant -/

/-- What is known of an exchange that is relayed. -/
structure RelayOk (env : Env) (s : State) (request : RequestHead) (client : SingleRequestClient)
    (upload : Direction) : Prop where
  decided : decision env s.head = some (.forward request, client.buffered)
  sent : s.headSent = request.rewritten
  direction : DirectionOk upload
  read : upload.read = client.taken
  safe : SafeOk client request.bodyKind
  live : s.closed = false → LiveOk client request.bodyKind
  ended : upload.readDone = true → EndReason client
  framed : upload.readDone = true → client.responseState ≠ .upgraded →
    client.responseDone = false → Framed request.bodyKind client.taken

/-- **The invariant of an exchange.** -/
def ExchangeOk (env : Env) (s : State) : Prop :=
  match s.phase with
  | .reading reader => ReaderOk reader ∧ reader.requestBuf = s.head ∧ s.headSent = []
  | .rejected => (decision env s.head).map Prod.fst = some .rejected ∧ s.headSent = []
  | .connect => (decision env s.head).map Prod.fst = some .connect ∧ s.headSent = []
  | .sending request leftover unsent =>
    decision env s.head = some (.forward request, leftover) ∧
      s.headSent ++ unsent = request.rewritten
  | .relaying request client upload => RelayOk env s request client upload

lemma exchangeOk_start (env : Env) : ExchangeOk env .start := ⟨readerOk_start, rfl, rfl⟩

section Steps

variable {s : State} {client client' : SingleRequestClient}
  {upload upload' : Direction} {phase : Phase}

section

variable (h : RelayOk env s request client upload)
include h

/-- An exchange that is closed is not changed any more. -/
lemma RelayOk.close : RelayOk env { s with phase, closed := true } request client upload :=
  ⟨h.decided, h.sent, h.direction, h.read, h.safe, nofun, h.ended,
    h.framed⟩

/-- A turn in which the direction does not see the end of its source. -/
lemma RelayOk.carried {closed} (hbuffered : client'.buffered = client.buffered)
    (hdirection : DirectionOk upload')
    (hread : upload'.read = client'.taken ∧ upload'.readDone = false)
    (hsafe : SafeOk client' request.bodyKind)
    (hlive : closed = false → LiveOk client' request.bodyKind) :
    RelayOk env { s with phase, closed } request client' upload' :=
  ⟨hbuffered ▸ h.decided, h.sent, hdirection, hread.1, hsafe, hlive,
    fun hdone => by simp [hread.2] at hdone, fun hdone => by simp [hread.2] at hdone⟩

/-- **A turn of the upload.** What the client gives is what the direction carries. -/
lemma RelayOk.uploadTurn (hopen : s.closed = false) (answers : Answers) :
    RelayOk env { s with phase, closed := !(uploadTurn client upload answers).1 } request
      (uploadTurn client upload answers).2.1 (uploadTurn client upload answers).2.2 := by
  have hlive := h.live hopen
  unfold Http.uploadTurn
  split_ifs with hempty
  · have hroom : upload.upgrade.buf.length ≠ 0 := (h.direction.upgrade hempty.1).buf.ne'
    have hspec := @LiveOk.pollReadInner request.bodyKind client upload.upgrade.buf.length
      answers.read hlive hroom
    unfold SingleRequestClient.pollRead
    generalize client.pollReadInner upload.upgrade.buf.length answers.read = result at hspec
    cases hspec with
    | pending client' hkeeps hlive' =>
      have hcycle := h.direction.pollCycle_empty hempty 0 { answers with read := .pending }
      exact h.carried hkeeps.buffered (h.direction.pollCycle 0 _)
        ⟨hcycle.1.trans (h.read.trans hkeeps.taken.symm), hcycle.2⟩ hlive'.safe fun _ => hlive'
    | err e client' hkeeps =>
      have hcycle := h.direction.pollCycle_empty hempty 0 { answers with read := .fail }
      refine h.carried hkeeps.buffered (h.direction.pollCycle 0 _)
        ⟨hcycle.1.trans (h.read.trans hkeeps.taken.symm), hcycle.2⟩ (hlive.safe_of_keeps hkeeps)
        fun hok => ?_
      simp only [readAnswer, Direction.pollCycle, if_pos hempty] at hok
      cases hok
    | eof client' hkeeps hlive' hreason =>
      have hcycle := h.direction.pollCycle_empty hempty 0 { answers with read := .eof }
      simp only [append_nil]
      refine ⟨hkeeps.buffered ▸ h.decided, h.sent, h.direction.pollCycle 0 _,
        hcycle.1.trans (h.read.trans hkeeps.taken.symm), hlive'.safe, fun _ => hlive',
        fun _ => hreason, fun _ hstate hdone => ?_⟩
      have hbody : client'.body = .done := (hreason.body hstate).resolve_right (by
        rw [show client'.responseDone = false from hdone]
        decide)
      have hruns := hlive'.runs hstate
      rw [hbody] at hruns
      exact (runs_new_iff _ _).mp hruns
    | data read client' hne hlen hkeeps hlive' =>
      obtain ⟨first, rest, rfl⟩ := exists_cons_of_ne_nil hne
      have hcycle := h.direction.pollCycle_empty hempty 0 { answers with read := .data first rest }
      simp only [take_of_length_le hlen] at hcycle
      exact h.carried hkeeps.buffered (h.direction.pollCycle 0 _)
        ⟨hcycle.1.trans (congrArg (· ++ _) (h.read.trans hkeeps.taken.symm)), hcycle.2⟩ hlive'.safe
        fun _ => hlive'
  · obtain ⟨hread, hdone⟩ := Direction.pollCycle_busy hempty 0 answers
    exact ⟨h.decided, h.sent, h.direction.pollCycle 0 answers, hread.trans h.read, h.safe,
      fun _ => hlive, fun hd => h.ended (hdone ▸ hd), fun hd => h.framed (hdone ▸ hd)⟩

/-- **An action on the responses.** -/
lemma RelayOk.responded {α : Type} {result : Poll IoError α × SingleRequestClient}
    (hspec : RespondSpec client request.bodyKind result.1 result.2) :
    RelayOk env (s.responded request upload result) request result.2 upload := by
  have hkeeps := hspec.keeps
  refine ⟨hkeeps.buffered ▸ h.decided, h.sent, h.direction, hkeeps.taken ▸ h.read, hspec.safe,
    fun hopen => hspec.live fun e heq => ?_, fun hdone => (h.ended hdone).respond hkeeps,
    fun hdone hstate hresponse => ?_⟩
  · simp only [State.responded, heq] at hopen
    cases hopen
  · rw [hkeeps.taken]
    refine h.framed hdone (fun heq => hstate (hkeeps.stays heq))
      (Bool.eq_false_iff.mpr fun hyes => ?_)
    rw [hkeeps.responseDone hyes] at hresponse
    cases hresponse

end

variable {leftover : List UInt8}

/-- The relay starts with nothing read. -/
lemma relayOk_start (hdecided : decision env s.head = some (.forward request, leftover))
    (hsent : s.headSent = request.rewritten) :
    RelayOk env { s with phase } request (.new leftover request.bodyKind request.upgradeRequested)
      (.new (replicate RELAY_BUF_SIZE 0)) := by
  have hlive := liveOk_new leftover (parsedHead_of_decision hdecided).noBody
  refine ⟨hdecided, hsent, Tunnel.directionOk_new ?_, rfl, hlive.safe, fun _ => hlive,
    fun hdone => ?_, fun hdone => ?_⟩
  · exact ne_nil_of_length_pos (by rw [length_replicate]; decide)
  all_goals exact absurd hdone (by simp [Direction.new])

lemma exchangeOk_verdict {v : Verdict} (hdecided : decision env s.head = some (v, leftover))
    (hsent : s.headSent = []) : ExchangeOk env { s with phase := v.phase leftover } := by
  cases v with
  | rejected | connect => exact ⟨by rw [hdecided]; rfl, hsent⟩
  | forward request => exact ⟨hdecided, by simp only; rw [hsent, nil_append]⟩

lemma exchangeOk_read {reader : HeadReader} (h : ReaderOk reader) (first : UInt8)
    (rest : List UInt8) :
    ExchangeOk env
      (step env ⟨.reading reader, false, reader.requestBuf, []⟩ (.read first rest)) := by
  have hspec := h.read ((first :: rest).take CHUNK)
  unfold step
  simp only [Bool.false_eq_true, if_false]
  generalize (first :: rest).take CHUNK = chunk at hspec
  generalize reader.read chunk = result at hspec
  cases hspec with
  | more reader' hbuf hok => exact ⟨hok, hbuf, rfl⟩
  | invalid message hinvalid =>
    refine ⟨?_, rfl⟩
    rw [decision, hinvalid]
    rfl
  | complete headerEnd hcomplete =>
    refine @exchangeOk_verdict env ⟨.reading reader, false, reader.requestBuf ++ chunk, []⟩ _ _ ?_
      rfl
    rw [decision, hcomplete]

lemma exchangeOk_sendHead {unsent head headSent}
    (hdecided : decision env head = some (.forward request, leftover))
    (hsent : headSent ++ unsent = request.rewritten) (ev : WriteEv) :
    ExchangeOk env
      (step env ⟨.sending request leftover unsent, false, head, headSent⟩ (.sendHead ev)) := by
  have hinit := prefix_writeOnce [ev] unsent
  unfold step
  simp only [Bool.false_eq_true, if_false]
  generalize writeOnce [ev] unsent = result at hinit
  rcases result with ⟨status, sent⟩
  cases status with
  | done =>
    obtain ⟨left, rfl⟩ := hinit
    simp only [drop_left]
    split_ifs with hnil
    · subst hnil
      rw [append_nil] at hsent
      exact @relayOk_start _ env ⟨startRelay request leftover, false, head, headSent ++ sent⟩ _ _
        hdecided hsent
    · exact ⟨hdecided, by simp only; rw [append_assoc, hsent]⟩
  | blocked | closed | failed => exact ⟨hdecided, hsent⟩

/-- **A step keeps the invariant.** -/
theorem exchangeOk_step (h : ExchangeOk env s) (op : Op) : ExchangeOk env (step env s op) := by
  obtain ⟨phase, closed, head, headSent⟩ := s
  cases closed with
  | true => exact h
  | false =>
    cases phase with
    | reading reader =>
      cases op with
      | read first rest =>
        obtain ⟨hreader, rfl, rfl⟩ := h
        exact exchangeOk_read hreader first rest
      | _ => exact h
    | rejected | connect => cases op <;> exact h
    | sending request leftover unsent =>
      cases op with
      | sendHead ev => exact exchangeOk_sendHead h.1 h.2 ev
      | _ => exact h
    | relaying request client upload =>
      have hlive := h.live rfl
      cases op with
      | upload answers => exact h.uploadTurn rfl answers
      | respond source writes => exact h.responded (hlive.pollWrite source writes)
      | flush writes answer => exact h.responded (hlive.pollFlush writes answer)
      | finish writes answer => exact h.responded (hlive.pollShutdown writes answer)
      | close => exact h.close
      | _ => exact h

end Steps

/-- **The invariant holds in every run.** -/
lemma exchangeOk_run (env : Env) (ops : List Op) : ExchangeOk env (run env ops) :=
  foldlRecOn ops _ (exchangeOk_start env) fun _ h op _ => exchangeOk_step h op

end Meow.Http
