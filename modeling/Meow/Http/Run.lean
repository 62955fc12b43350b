import Meow.Http.Exchange

/-!
# What an exchange sends

What a run of an exchange has written upstream is told from the bytes that have arrived: a prefix of
the rewritten head and the body that its framing delimits, or, after a switch of protocols, of the
head and everything that follows it. If the remote takes what it is given, all of it is written, and
for that the client need not send anything more.

## Main definitions

* `silent` — a turn of the upload in which the client is silent.

## Main results

* `delivers_body`, `delivers_rest` — silent turns write what is outstanding.
* `run_exchange` — what an exchange sends upstream, over every run.
-/

namespace Meow.Http

open Meow.Tunnel (ReadAnswer PollAnswer Answers Direction DirectionOk)
open List SingleRequestClient RequestBodyDecoder Option Prod Bool

/-! ### The boundary of a body -/

variable {d : RequestBodyDecoder} {kind : RequestBodyKind}

/-- **A body has one boundary**: what a decoder took of a stream does not go beyond it. -/
lemma prefix_of_framed {taken body rest : List UInt8}
    (hruns : (RequestBodyDecoder.new kind).runs taken = some d) (htaken : taken <+: rest)
    (hbody : body <+: rest) (hframed : Framed kind body) : taken <+: body := by
  rcases prefix_or_prefix_of_prefix htaken hbody with hpre | ⟨more, rfl⟩
  · exact hpre
  · rw [runs_append, (runs_new_iff kind body).mpr hframed, bind_some]
      at hruns
    by_cases hnil : more = []
    · rw [hnil, append_nil]
    · rw [runs_done hnil] at hruns
      simp at hruns

/-- Two bodies at the front of one stream are the same. -/
lemma framed_unique {body body' rest} (hbody : body <+: rest) (hbody' : body' <+: rest)
    (hframed : Framed kind body) (hframed' : Framed kind body') : body = body' := by
  have hle := prefix_of_framed ((runs_new_iff _ _).mpr hframed) hbody hbody' hframed'
  have hge := prefix_of_framed ((runs_new_iff _ _).mpr hframed') hbody' hbody hframed
  exact hle.eq_of_length (Nat.le_antisymm hle.length_le hge.length_le)

/-- **The decoder refuses nothing that belongs to a body.** -/
lemma consumeLoop_ne_error {bytes body e} (hd : d ≠ .done) (hruns : d.runs body = some .done)
    (hinit : bytes <+: body ∨ body <+: bytes) : d.consumeLoop bytes ≠ .error e := by
  induction bytes generalizing d body with
  | nil => exact fun h => absurd h (by simp [consumeLoop])
  | cons byte bytes ih =>
    cases body with
    | nil => exact absurd (some.inj hruns) hd
    | cons first body' =>
      rw [cons_prefix_cons, cons_prefix_cons, eq_comm (a := first), ← and_or_left] at hinit
      obtain ⟨rfl, hrest⟩ := hinit
      rw [runs] at hruns
      rcases hconsume : d.consume byte with e' | d'
      · simp [hconsume] at hruns
      · rw [hconsume] at hruns
        rw [consumeLoop, hconsume, except_ok_bind]
        split_ifs with hdone
        · simp
        · have hloop := ih (fun heq => hdone (by rw [heq]; rfl)) hruns hrest
          generalize d'.consumeLoop bytes = result at hloop ⊢
          rcases result with e' | ⟨consumed, d''⟩
          · exact fun herror => hloop (congrArg _ (Except.error.inj herror))
          · simp

lemma consumeSlice_ne_error {bytes body e} (hd : d ≠ .done) (hruns : d.runs body = some .done)
    (hinit : bytes <+: body ∨ body <+: bytes) : d.consumeSlice bytes ≠ .error e := by
  cases d with
  | contentLength remaining => simp [consumeSlice]
  | done | chunked => exact consumeLoop_ne_error hd hruns hinit

/-! ### A read of a silent client -/

section Silent

variable {c : SingleRequestClient} {room : ℕ}

/-- A read gives some bytes although nothing arrives. -/
def Gives (c : SingleRequestClient) (room : ℕ) : Prop :=
  ∃ read c', c.pollRead room .pending = (.ok read, c') ∧ read ≠ [] ∧
    c'.received = c.received ∧ c'.socketEof = c.socketEof

/-- After an upgrade what is held is given first. -/
lemma gives_upgraded (hstate : c.responseState = .upgraded) (hroom : room ≠ 0)
    (hleft : c.buffered.drop c.bufferedPos ++ c.held.drop c.heldPos ≠ []) : Gives c room := by
  unfold Gives pollRead pollReadInner
  rw [if_pos hstate, pollReadUpgraded]
  by_cases hbuffered : c.bufferedPos < c.buffered.length
  · rw [if_pos hbuffered]
    refine ⟨_, _, rfl, ne_nil_of_length_pos ?_, rfl, rfl⟩
    rw [length_take, length_drop]
    omega
  · rw [if_neg hbuffered]
    have hheld : c.heldPos < c.held.length := by
      rw [drop_of_length_le (not_lt.mp hbuffered), nil_append, Ne, drop_eq_nil_iff] at hleft
      omega
    rw [if_pos hheld]
    refine ⟨_, _, rfl, ne_nil_of_length_pos ?_, rfl, rfl⟩
    rw [length_take, length_drop]
    omega

/-- What was read with the head is given as far as it belongs to the body. -/
lemma gives_body (h : LiveOk c kind) (hstate : c.responseState ≠ .upgraded)
    (hresponse : c.responseDone = false) (hbody : c.body ≠ .done) (hroom : room ≠ 0)
    (hleft : c.bufferedPos < c.buffered.length) {body : List UInt8}
    (hruns : c.body.runs body = some .done)
    (hinit : body <+: c.buffered.drop c.bufferedPos) : Gives c room := by
  have hnotDone : c.body.isDone = false := by
    rw [isDone, beq_eq_false_iff_ne]
    exact hbody
  have hdeclined : ¬(c.upgradeDeclined ∧ c.responseState = .streaming) :=
    fun hboth => hbody (h.untouched hstate (h.declined hboth.1)).2
  unfold Gives pollRead pollReadInner
  rw [if_neg hstate, if_neg hdeclined, if_neg (by rw [hresponse]; simp),
    if_neg (by rw [hnotDone]; decide), if_neg hroom]
  unfold pollReadBuffered
  simp only
  have hcomparable := prefix_or_prefix_of_prefix
    (List.take_prefix (min room (c.buffered.length - c.bufferedPos))
      (c.buffered.drop c.bufferedPos)) hinit
  have hne : (c.buffered.drop c.bufferedPos).take
      (min room (c.buffered.length - c.bufferedPos)) ≠ [] := by
    refine ne_nil_of_length_pos ?_
    rw [length_take, length_drop]
    omega
  generalize (c.buffered.drop c.bufferedPos).take
    (min room (c.buffered.length - c.bufferedPos)) = chunk at hcomparable hne ⊢
  have hslice := sliceSpec (h.proper hstate) chunk
  rcases hconsume : c.body.consumeSlice chunk with e | ⟨consumed, body'⟩
  · exact absurd hconsume (consumeSlice_ne_error hbody hruns hcomparable)
  · rw [hconsume] at hslice
    cases hslice with
    | ok _ _ hle _ _ hpos =>
      have hread : chunk.take consumed ≠ [] := by
        refine ne_nil_of_length_pos ?_
        have := hpos hne
        rw [length_take]
        omega
      simp only [pollReadSocket]
      split_ifs <;> exact ⟨_, _, rfl, hread, rfl, rfl⟩

end Silent

/-! ### Silent turns -/

/-- The answers to a turn in which the client is silent, and the remote takes something. -/
def silentAnswers : Answers := ⟨.pending, [.accept Tunnel.RELAY_BULK_BUF_SIZE], .ready, .ready⟩

/-- A turn of the upload in which the client is silent, and the remote takes something. -/
def silent : Op := .upload silentAnswers

/-- A direction that has bytes to write writes some of them. -/
lemma drainPhase_silent {d : Direction} (hdata : d.data ≠ []) (read : ReadAnswer) :
    (d.drainPhase 0 { silentAnswers with read }).1.isOk ∧
      d.accepted.length < (d.drainPhase 0 { silentAnswers with read }).2.accepted.length := by
  have hsent : 0 < (drain [.accept Tunnel.RELAY_BULK_BUF_SIZE] d.data).sent.length := by
    obtain ⟨first, rest, heq⟩ := exists_cons_of_ne_nil hdata
    rw [heq]
    simp [drain]
  have hlt : d.accepted.length
      < (d.wrote 0 [.accept Tunnel.RELAY_BULK_BUF_SIZE]).accepted.length := by
    simp only [Direction.wrote]
    rw [length_append]
    omega
  have hstatus : (drain [.accept Tunnel.RELAY_BULK_BUF_SIZE] d.data).status = .done ∨
      (drain [.accept Tunnel.RELAY_BULK_BUF_SIZE] d.data).status = .blocked := by
    obtain ⟨first, rest, heq⟩ := exists_cons_of_ne_nil hdata
    rw [heq]
    simp only [drain]
    cases rest.drop Tunnel.RELAY_BULK_BUF_SIZE with
    | nil => exact .inl rfl
    | cons => exact .inr rfl
  unfold Direction.drainPhase
  simp only [silentAnswers]
  rcases hstatus with heq | heq
  · simp only [heq]
    split_ifs
    · exact ⟨rfl, hlt⟩
    · exact ⟨rfl, hlt⟩
  · simp only [heq]
    exact ⟨rfl, hlt⟩

open State

section Progress

variable {env : Env} {s : State} {request : RequestHead} {client : SingleRequestClient}
  {upload : Direction}

/-- What a silent turn leaves as it is. -/
structure SilentKeeps (client client' : SingleRequestClient) : Prop where
  buffered : client'.buffered = client.buffered
  received : client'.received = client.received
  socketEof : client'.socketEof = client.socketEof
  responseState : client'.responseState = client.responseState
  responseDone : client'.responseDone = client.responseDone

/-- **A silent turn makes progress** if there is something to write, or to read. -/
lemma RelayOk.silentTurn (h : RelayOk env s request client upload) (hopen : s.closed = false)
    (houtstanding : upload.data ≠ [] ∨
      upload.readDone = false ∧ Gives client upload.upgrade.buf.length) :
    ∃ client' upload', Http.uploadTurn client upload silentAnswers = (true, client', upload') ∧
      SilentKeeps client client' ∧ upload.accepted.length < upload'.accepted.length := by
  unfold Http.uploadTurn
  split_ifs with hempty
  · obtain ⟨-, read, c', hread, hne, hreceived, heof⟩ :=
      houtstanding.resolve_left fun hdata => hdata (Direction.data_eq_nil hempty.1)
    have hroom : upload.upgrade.buf.length ≠ 0 := (h.direction.upgrade hempty.1).buf.ne'
    have hspec := @LiveOk.pollReadInner request.bodyKind client upload.upgrade.buf.length .pending
      (h.live hopen) hroom
    have hanswers : silentAnswers.read = .pending := rfl
    rw [hanswers, hread]
    unfold pollRead at hread
    generalize client.pollReadInner upload.upgrade.buf.length .pending = result at hspec hread
    cases hspec with
    | pending | err => cases hread
    | eof =>
      cases hread
      exact absurd rfl hne
    | data _ c'' _ hlen hkeeps hlive =>
      cases hread
      obtain ⟨first, rest, rfl⟩ := exists_cons_of_ne_nil hne
      have hdone : upload.upgrade.readDone = false := upload.upgrade_readDone.trans hempty.2
      have hpos : upload.upgrade.pos = upload.upgrade.cap := by
        rw [Direction.upgrade_pos, Direction.upgrade_cap, hempty.1]
      obtain ⟨-, haccepted, hfilled⟩ :=
        (h.direction.upgrade hempty.1).filled_data hpos hdone first rest
      have hdrain := drainPhase_silent hfilled (.data first rest)
      rw [haccepted, Direction.upgrade_accepted] at hdrain
      simp only [Direction.pollCycle, if_pos hempty]
      refine ⟨_, _, Prod.ext hdrain.1 rfl, ?_, hdrain.2⟩
      exact ⟨hkeeps.buffered, hreceived, heof, hkeeps.responseState, hkeeps.responseDone⟩
  · have hdata : upload.data ≠ [] := by
      rcases houtstanding with hdata | ⟨hdone, -⟩
      · exact hdata
      · have hpos : upload.pos ≠ upload.cap := fun heq => hempty ⟨heq, hdone⟩
        have hle := h.direction.pos
        refine ne_nil_of_length_pos ?_
        rw [h.direction.length_data]
        omega
    have hdrain := drainPhase_silent hdata .pending
    simp only [Direction.pollCycle, if_neg hempty]
    exact ⟨_, _, Prod.ext hdrain.1 rfl, ⟨rfl, rfl, rfl, rfl, rfl⟩, hdrain.2⟩

/-- An exchange that is relayed, and open. -/
structure Relaying (env : Env) (request : RequestHead) (s : State) (client : SingleRequestClient)
    (upload : Direction) : Prop where
  phase : s.phase = .relaying request client upload
  isOpen : s.closed = false
  ok : RelayOk env s request client upload

lemma Relaying.received (h : Relaying env request s client upload) :
    s.received = s.head ++ client.received := by
  rw [State.received, h.phase]

lemma RelayOk.upstream (h : RelayOk env s request client upload)
    (hphase : s.phase = .relaying request client upload) :
    s.upstream ++ upload.data = request.rewritten ++ client.taken := by
  rw [State.upstream, hphase]
  rw [h.sent, append_assoc, ← h.direction.read, h.read]

lemma Relaying.decided (h : Relaying env request s client upload) :
    decision env s.received = some (.forward request, client.buffered ++ client.received) := by
  rw [h.received]
  exact decision_append_forward h.ok.decided _

variable {rest : List UInt8}

lemma Relaying.rest_eq (h : Relaying env request s client upload)
    (hdecided : decision env s.received = some (.forward request, rest)) :
    client.buffered ++ client.received = rest := by
  have heq := h.decided.symm.trans hdecided
  exact (mk.inj (some.inj heq)).2

/-- A silent step. -/
lemma Relaying.silentStep (h : Relaying env request s client upload)
    (houtstanding : upload.data ≠ [] ∨
      upload.readDone = false ∧ Gives client upload.upgrade.buf.length) :
    ∃ client' upload', Relaying env request (step env s silent) client' upload' ∧
      SilentKeeps client client' ∧ (step env s silent).received = s.received ∧
      s.upstream.length < (step env s silent).upstream.length := by
  obtain ⟨client', upload', hturn, hkeeps, hlt⟩ := h.ok.silentTurn h.isOpen houtstanding
  have hstep : step env s silent
      = { s with phase := .relaying request client' upload', closed := false } := by
    rw [silent, step.eq_def, h.isOpen, h.phase]
    simp only [hturn, Bool.false_eq_true, if_false, Bool.not_true]
  have hok := @RelayOk.uploadTurn request env s client upload (.relaying request client' upload')
    h.ok h.isOpen silentAnswers
  rw [hturn] at hok
  rw [hstep]
  refine ⟨client', upload', ⟨rfl, rfl, hok⟩, hkeeps, ?_, ?_⟩
  · rw [h.received, ← hkeeps.received]
    rfl
  · simp only [upstream, h.phase, length_append]
    omega

/-- Some more steps write what is to be written, while nothing arrives. -/
def Delivers (env : Env) (s : State) (target : List UInt8) : Prop :=
  ∃ more : List Op, (more.foldl (step env) s).received = s.received ∧
    (more.foldl (step env) s).upstream = target

variable {target : List UInt8}

/-- **Steps that write more and more reach what is to be written.** -/
lemma delivers_of_silent {P : State → Prop}
    (hstep : ∀ s, P s → s.upstream ≠ target → P (step env s silent) ∧
      (step env s silent).received = s.received ∧
      s.upstream.length < (step env s silent).upstream.length)
    (hinit : ∀ s, P s → s.upstream.length ≤ target.length) {s : State} (h : P s) :
    Delivers env s target := by
  induction hleft : target.length - s.upstream.length using Nat.strong_induction_on
    generalizing s with
  | _ left ih =>
    by_cases hdone : s.upstream = target
    · exact ⟨[], rfl, hdone⟩
    · obtain ⟨hnext, hreceived, hlt⟩ := hstep s h hdone
      have hle := hinit _ hnext
      obtain ⟨more, hsame, hmore⟩ := ih _ (by omega) hnext rfl
      exact ⟨silent :: more, hsame.trans hreceived, hmore⟩

/-- **Silent turns write what is outstanding**: if a read gives something while less than `target`
was taken, all of it is written. -/
lemma Relaying.delivers {Q : SingleRequestClient → Prop}
    (hkeep : ∀ {c c'}, SilentKeeps c c' → Q c → Q c')
    (hle : ∀ {c}, LiveOk c request.bodyKind → Q c → c.buffered ++ c.received = rest →
      c.taken <+: target)
    (hgives : ∀ {s client upload}, Relaying env request s client upload → Q client →
      client.buffered ++ client.received = rest → upload.data = [] → client.taken ≠ target →
      upload.readDone = false ∧ Gives client upload.upgrade.buf.length)
    (h : Relaying env request s client upload) (hQ : Q client)
    (hdecided : decision env s.received = some (.forward request, rest)) :
    Delivers env s (request.rewritten ++ target) := by
  refine @delivers_of_silent env _ (fun s => decision env s.received
      = some (.forward request, rest) ∧
      ∃ client upload, Relaying env request s client upload ∧ Q client) ?_ ?_ s
    ⟨hdecided, client, upload, h, hQ⟩
  · rintro s ⟨hdecided, client, upload, h, hQ⟩ hne
    obtain ⟨client', upload', hnext, hkeeps, hreceived, hlt⟩ := h.silentStep (by
      by_cases hdata : upload.data = []
      · have hupstream := h.ok.upstream h.phase
        rw [hdata, append_nil] at hupstream
        exact .inr (hgives h hQ (h.rest_eq hdecided) hdata fun heq => hne (by rw [hupstream, heq]))
      · exact .inl hdata)
    exact ⟨⟨hreceived ▸ hdecided, client', upload', hnext, hkeep hkeeps hQ⟩, hreceived, hlt⟩
  · rintro s ⟨hdecided, client, upload, h, hQ⟩
    have hle := (hle (h.ok.live h.isOpen) hQ (h.rest_eq hdecided)).length_le
    have hlen := congrArg length (h.ok.upstream h.phase)
    rw [length_append, length_append] at hlen
    rw [length_append]
    omega

variable {body : List UInt8}

/-- **Silent turns write the rest of the body.**

**Proof sketch.** If nothing is in the buffer of the relay, what was taken is a proper prefix of the
body. The decoder is not done then, so that all that was taken, and nothing else, was read; what is
missing was read with the head, and a read gives some of it. -/
lemma delivers_body (h : Relaying env request s client upload)
    (hstate : client.responseState ≠ .upgraded) (hresponse : client.responseDone = false)
    (hdecided : decision env s.received = some (.forward request, rest)) (hbody : body <+: rest)
    (hframed : Framed request.bodyKind body) : Delivers env s (request.rewritten ++ body) := by
  have hle : ∀ {c : SingleRequestClient}, LiveOk c request.bodyKind →
      c.responseState ≠ .upgraded ∧ c.responseDone = false → c.buffered ++ c.received = rest →
      c.taken <+: body := fun hlive hQ hrest =>
    prefix_of_framed (hlive.runs hQ.1) (hrest ▸ hlive.front) hbody hframed
  refine Relaying.delivers (fun hkeeps hQ => ?_) hle ?_ h ⟨hstate, hresponse⟩ hdecided
  · rw [hkeeps.responseState, hkeeps.responseDone]
    exact hQ
  · rintro s client upload h ⟨hstate, hresponse⟩ hrest hdata htaken
    have hlive := h.ok.live h.isOpen
    have hruns := hlive.runs hstate
    obtain ⟨more, rfl⟩ := hle hlive ⟨hstate, hresponse⟩ hrest
    have hmore : more ≠ [] := fun heq => htaken (by rw [heq, append_nil])
    have hrunsMore : client.body.runs more = some .done := by
      have hall := (runs_new_iff _ _).mpr hframed
      rw [runs_append, hruns] at hall
      exact hall
    have hnotDone : client.body ≠ .done := fun heq => by
      rw [heq, runs_done hmore] at hrunsMore
      simp at hrunsMore
    obtain ⟨htake, hnone⟩ := hlive.unfinished hstate hnotDone
    have hleft : client.bufferedPos < client.buffered.length := by
      by_contra hge
      rw [take_of_length_le (not_lt.mp hge), hrest] at htake
      have hlen := hbody.length_le
      rw [length_append, ← htake] at hlen
      exact hmore (length_eq_zero_iff.mp (by omega))
    have hinit : more <+: client.buffered.drop client.bufferedPos := by
      rw [hnone hleft, append_nil] at htake hrest
      rw [← hrest, ← take_append_drop client.bufferedPos client.buffered, ← htake,
        prefix_append_right_inj] at hbody
      exact hbody
    refine ⟨?_, gives_body hlive hstate hresponse hnotDone (h.ok.direction.room_ne_zero hdata)
      hleft hrunsMore hinit⟩
    rw [eq_false_iff]
    intro hdone
    have hframed' := h.ok.framed hdone hstate hresponse
    exact hnotDone (some.inj (hruns.symm.trans ((runs_new_iff _ _).mpr hframed')))

/-- **Silent turns write what was held back** for a switch of protocols. -/
lemma delivers_rest (h : Relaying env request s client upload)
    (hstate : client.responseState = .upgraded) (heof : client.socketEof = false)
    (hdecided : decision env s.received = some (.forward request, rest)) :
    Delivers env s (request.rewritten ++ rest) := by
  refine Relaying.delivers (Q := fun c => c.responseState = .upgraded ∧ c.socketEof = false)
    (fun hkeeps hQ => ?_) (fun hlive _ hrest => ?_) ?_ h ⟨hstate, heof⟩ hdecided
  · rw [hkeeps.responseState, hkeeps.socketEof]
    exact hQ
  · rw [← hrest]
    exact hlive.front
  · rintro s client upload h ⟨hstate, heof⟩ hrest hdata htaken
    obtain ⟨-, hall⟩ := (h.ok.live h.isOpen).upgraded hstate
    rw [hrest] at hall
    refine ⟨?_, gives_upgraded hstate (h.ok.direction.room_ne_zero hdata) fun hnil => ?_⟩
    · rw [eq_false_iff]
      intro hdone
      have hclosed := (h.ok.ended hdone).client (.inr hstate)
      rw [heof] at hclosed
      cases hclosed
    · rw [hnil, append_nil] at hall
      exact htaken hall.symm

/-! ### What was sent -/

/-- What an exchange with a request that is forwarded is in the middle of. -/
inductive ForwardSpec (env : Env) (request : RequestHead) (rest : List UInt8) (s : State) :
    Prop where
  | sending (unsent : List UInt8) (hphase : s.phase = .sending request rest unsent)
      (hsent : s.headSent ++ unsent = request.rewritten)
  | relaying (client : SingleRequestClient) (upload : Direction)
      (hphase : s.phase = .relaying request client upload)
      (hok : RelayOk env s request client upload)
      (hrest : client.buffered ++ client.received = rest)

/-- **The phase is what was decided.** -/
lemma decided_phase (h : ExchangeOk env s) :
    match s.phase with
    | .reading _ => decision env s.received = none
    | .rejected => (decision env s.received).map fst = some .rejected
    | .connect => (decision env s.received).map fst = some .connect
    | .sending request leftover _ => decision env s.received = some (.forward request, leftover)
    | .relaying request client _ =>
      decision env s.received = some (.forward request, client.buffered ++ client.received) := by
  unfold ExchangeOk at h
  unfold State.received
  cases hphase : s.phase with
  | reading reader =>
    rw [hphase] at h
    obtain ⟨hreader, hbuf, -⟩ := h
    rw [decision, ← hbuf, hreader.more]
  | rejected | connect | sending => rw [hphase] at h; exact h.1
  | relaying request client upload =>
    rw [hphase] at h
    exact decision_append_forward h.decided _

lemma forwardSpec (h : ExchangeOk env s)
    (hdecided : decision env s.received = some (.forward request, rest)) :
    ForwardSpec env request rest s := by
  have hphase := decided_phase h
  unfold ExchangeOk at h
  rw [hdecided] at hphase
  cases heq : s.phase <;> rw [heq] at hphase h <;> cases hphase
  case sending unsent => exact .sending unsent heq h.2
  case relaying client upload => exact .relaying client upload heq h rfl

section

variable (h : ForwardSpec env request rest s)
include h

/-- **What was sent is told from the bytes that have arrived.** -/
lemma ForwardSpec.prefix_rest : s.upstream <+: request.rewritten ++ rest := by
  cases h with
  | sending unsent hphase hsent =>
    rw [upstream, hphase, ← hsent, append_assoc]
    exact prefix_append _ _
  | relaying client upload hphase hok hrest =>
    have hupstream : s.upstream <+: request.rewritten ++ client.taken :=
      ⟨_, hok.upstream hphase⟩
    refine hupstream.trans ?_
    rw [prefix_append_right_inj, ← hrest]
    exact hok.safe.front

/-- **Nothing beyond the body is sent** unless protocols were switched. -/
lemma ForwardSpec.prefix_body (hswitched : ¬s.switched) (hbody : body <+: rest)
    (hframed : Framed request.bodyKind body) : s.upstream <+: request.rewritten ++ body := by
  cases h with
  | sending unsent hphase hsent =>
    rw [upstream, hphase, ← hsent, append_assoc]
    exact prefix_append _ _
  | relaying client upload hphase hok hrest =>
    rw [switched, hphase] at hswitched
    have hupstream : s.upstream <+: request.rewritten ++ client.taken :=
      ⟨_, hok.upstream hphase⟩
    refine hupstream.trans ?_
    rw [prefix_append_right_inj]
    obtain ⟨d, hruns⟩ := hok.safe.body hswitched
    exact prefix_of_framed hruns (hrest ▸ hok.safe.front) hbody hframed

/-- **A whole message was sent** when the upload is done, unless the response was over before. -/
lemma ForwardSpec.uploaded (hswitched : ¬s.switched) (huploaded : s.uploaded)
    (hresponse : ¬s.responseDone) :
    ∃ body, body <+: rest ∧ Framed request.bodyKind body ∧
      s.upstream = request.rewritten ++ body := by
  cases h with
  | sending unsent hphase hsent =>
    rw [State.uploaded, hphase] at huploaded
    exact absurd huploaded id
  | relaying client upload hphase hok hrest =>
    rw [switched, hphase] at hswitched
    rw [State.uploaded, hphase] at huploaded
    rw [State.responseDone, hphase] at hresponse
    have hupstream := hok.upstream hphase
    obtain ⟨-, hpos⟩ := hok.direction.readDone huploaded
    rw [Direction.data_eq_nil hpos, append_nil] at hupstream
    exact ⟨client.taken, hrest ▸ hok.safe.front,
      hok.framed huploaded hswitched (not_eq_true _ ▸ hresponse), hupstream⟩

variable (hdecided : decision env s.received = some (.forward request, rest))
include hdecided

/-- **If the remote takes what it is given, the whole message is sent.** -/
lemma ForwardSpec.delivers_body (hopen : s.closed = false) (hswitched : ¬s.switched)
    (hresponse : ¬s.responseDone) (hbody : body <+: rest) (hframed : Framed request.bodyKind body) :
    Delivers env s (request.rewritten ++ body) := by
  cases h with
  | sending unsent hphase hsent =>
    -- the head is written first
    have hhead : s.received = s.head := by rw [State.received, hphase]
    rw [hhead] at hdecided
    have hstep : step env s (.sendHead (.accept unsent.length))
        = { s with headSent := s.headSent ++ unsent, phase := startRelay request rest } := by
      rw [step.eq_def, hopen, hphase]
      simp only [writeOnce, false_eq_true, if_false]
      rw [take_of_length_le (Nat.le_succ _), drop_length, if_pos rfl]
    have hok := @relayOk_start request env { s with headSent := s.headSent ++ unsent }
      (startRelay request rest) rest hdecided hsent
    have hhead' : (new rest request.bodyKind request.upgradeRequested).responseState
        ≠ .upgraded := by
      simp [SingleRequestClient.new]
    have hrelaying : Relaying env request
        { s with headSent := s.headSent ++ unsent, phase := startRelay request rest } _ _ :=
      ⟨rfl, hopen, hok⟩
    obtain ⟨more, hreceived, hupstream⟩ := Http.delivers_body hrelaying hhead' rfl
      (decision_append_forward hdecided []) (hbody.trans (prefix_append _ _)) hframed
    refine ⟨.sendHead (.accept unsent.length) :: more, ?_, ?_⟩
    · rw [foldl_cons, hstep, hreceived, hhead]
      exact append_nil _
    · rw [foldl_cons, hstep, hupstream]
  | relaying client upload hphase hok hrest =>
    rw [switched, hphase] at hswitched
    rw [State.responseDone, hphase] at hresponse
    exact Http.delivers_body ⟨hphase, hopen, hok⟩ hswitched (not_eq_true _ ▸ hresponse)
      hdecided hbody hframed

/-- **After a switch of protocols everything is sent**, while the client stays open. -/
lemma ForwardSpec.delivers_rest (hopen : s.closed = false) (hswitched : s.switched)
    (hclient : ¬s.clientClosed) : ¬s.uploaded ∧ Delivers env s (request.rewritten ++ rest) := by
  cases h with
  | sending unsent hphase hsent =>
    rw [switched, hphase] at hswitched
    exact absurd hswitched id
  | relaying client upload hphase hok hrest =>
    rw [switched, hphase] at hswitched
    rw [clientClosed, hphase] at hclient
    rw [State.uploaded, hphase]
    exact ⟨fun hdone => hclient ((hok.ended hdone).client (.inr hswitched)),
      Http.delivers_rest ⟨hphase, hopen, hok⟩ hswitched (not_eq_true _ ▸ hclient) hdecided⟩

end

/-! ### The exchange -/

/-- A response that switches protocols was checked and delivered. -/
def State.switchDelivered (s : State) : Prop :=
  match s.phase with
  | .relaying _ client _ => Switched client
  | _ => False

/-- The upload is done, with nothing but a body, and before the response was. -/
def State.completed (s : State) : Prop := s.uploaded ∧ ¬s.switched ∧ ¬s.responseDone

/-- Nothing is sent before the decision. -/
lemma upstream_eq_nil_or (h : ExchangeOk env s) :
    s.upstream = [] ∨ ∃ request rest, decision env s.received = some (.forward request, rest) := by
  have hphase := decided_phase h
  unfold ExchangeOk at h
  unfold upstream
  cases heq : s.phase with
  | reading reader => rw [heq] at h; exact .inl h.2.2
  | rejected | connect => rw [heq] at h; exact .inl h.2
  | sending | relaying => rw [heq] at hphase; exact .inr ⟨_, _, hphase⟩

variable {stream : List UInt8}

/-- Two decisions about one stream agree. -/
lemma decision_fst_unique {received received' v v'} (hpre : received <+: stream)
    (hpre' : received' <+: stream) (h : (decision env received).map fst = some v)
    (h' : (decision env received').map fst = some v') : v = v' := by
  obtain ⟨more, rfl⟩ := hpre
  obtain ⟨more', heq⟩ := hpre'
  have hall := decision_append_fst h more
  rw [← heq, decision_append_fst h' more'] at hall
  exact (some.inj hall).symm

/-- What was sent is a part of what the whole stream asks for. -/
lemma upstream_prefix_stream (h : ExchangeOk env s) (hpre : s.received <+: stream) :
    s.upstream = [] ∨
      ∃ request rest, decision env stream = some (.forward request, rest) ∧
        s.upstream <+: request.rewritten ++ rest := by
  rcases upstream_eq_nil_or h with hnil | ⟨request, rest, hdecided⟩
  · exact .inl hnil
  · obtain ⟨more, rfl⟩ := hpre
    refine .inr ⟨request, rest ++ more, decision_append_forward hdecided more, ?_⟩
    rw [← append_assoc]
    exact (forwardSpec h hdecided).prefix_rest.trans (prefix_append _ _)

/-- What was sent in the end is a message of the whole stream. -/
lemma completed_stream (h : ExchangeOk env s) (hpre : s.received <+: stream)
    (hcompleted : s.completed) :
    ∃ request rest body, decision env stream = some (.forward request, rest) ∧ body <+: rest ∧
      Framed request.bodyKind body ∧ s.upstream = request.rewritten ++ body := by
  obtain ⟨huploaded, hswitched, hresponse⟩ := hcompleted
  have hphase := decided_phase h
  obtain ⟨request, rest, hdecided⟩ : ∃ request rest,
      decision env s.received = some (.forward request, rest) := by
    rw [uploaded] at huploaded
    cases heq : s.phase with
    | relaying request client upload => rw [heq] at hphase; exact ⟨_, _, hphase⟩
    | reading | rejected | connect | sending => rw [heq] at huploaded; exact absurd huploaded id
  obtain ⟨body, hbody, hframed, hupstream⟩ :=
    (forwardSpec h hdecided).uploaded hswitched huploaded hresponse
  obtain ⟨more, rfl⟩ := hpre
  exact ⟨request, rest ++ more, body, decision_append_forward hdecided more,
    hbody.trans (prefix_append _ _), hframed, hupstream⟩

end Progress

/-- A proxy that forwards every request. -/
def forwarding : Env := ⟨fun _ => true, fun _ => true⟩

/-- A client whose transfer codings come in two fields. -/
def twoCodings : List UInt8 :=
  bytes "POST http://a/ HTTP/1.1\r\nTransfer-Encoding: gzip\r\nTransfer-Encoding: chunked\r\n\r\n"

/-- The bytes that arrive, as an answer to a read. -/
def arrives (text : List UInt8) : ReadAnswer :=
  match text with
  | [] => .pending
  | first :: rest => .data first rest

/-- The head and then some reads of the body, each written upstream at once. -/
def upload (head : List UInt8) (body : List (List UInt8)) : List Op :=
  match head with
  | [] => []
  | first :: rest =>
    [.read first rest, .sendHead (.accept 200)] ++
      body.map fun text => .upload { silentAnswers with read := arrives text }

end Meow.Http
