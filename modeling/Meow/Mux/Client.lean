import Mathlib.Tactic

/-!
# The pool of mux sessions

`mux/client.rs` opens streams on a bounded pool of sessions. A session counts its slots, one for
each open in flight and each stream that lives, with an atomic counter. An open takes the lock of
the pool, drops sessions that are unusable or idle, takes a slot on the session with the fewest of
them or dials a new one, and gives the lock back; it holds the slot by a guard while the stream is
opened, and hands it to the stream. It may be cancelled where it waits: for the lock, for the
dial, for the stream.

The code between two waits runs on one thread, but streams end and sessions fail on others, so
the model has one operation for each access to what they share. Opens that wait at one place, and
streams of one session, are alike: they are counted, not named.

## Main definitions

* `MuxSession`, `Client` — sessions with their slots and their references, and
  the pool with the opens in flight and the streams.
* `ClientOp`, `Client.step`, `Client.run` — what happens.
* `ClientInv` — the invariant.

## Main results

* `ClientInv.step` — every operation keeps the invariant.
* `run_slots` — the slot counters, the bounds of the pool and the eviction.
* `run_released_iff` — when the references to a session go away.
-/

namespace Meow.Mux

open List Option

/-! ### The client -/

/-- `IDLE_TIMEOUT` in milliseconds. -/
def IDLE_TIMEOUT : UInt64 := 60000

/-- The options that bound the pool. -/
structure MuxOptions where
  maxConnections : ℕ
  minStreams : ℕ
  maxStreams : ℕ
  deriving DecidableEq

open MuxOptions

def MuxOptions.default : MuxOptions := ⟨4, 4, 4⟩

/-- `MuxSession`: its slot counter, the time of the last open, whether the connection under it can
take another stream (`is_unusable`), the number of `Arc`s on it, and how many opens on it have
succeeded so far. -/
structure MuxSession where
  streams : ℕ
  lastUsedMs : UInt64
  unusable : Bool
  strong : ℕ
  opened : ℕ
  deriving DecidableEq

/-- Where an open stands that holds the lock of the pool. -/
inductive Critical where
  /-- `retain`: the sessions still to look at. -/
  | retain (now : UInt64) (todo : List ℕ)
  /-- `retain`: the idle time of `s` was read, its slot counter not yet. -/
  | check (now : UInt64) (s : ℕ) (idle : UInt64) (todo : List ℕ)
  /-- `min_by_key`: the best session so far with its load, and those still to look at. -/
  | choose (best : Option (ℕ × ℕ)) (todo : List ℕ)
  /-- The head of the loop around `compare_exchange`. -/
  | load (s : ℕ)
  /-- The load was read and allows another stream. -/
  | swap (s : ℕ) (load : ℕ)
  /-- A new session is set up. -/
  | dial
  deriving DecidableEq

/-- The client. A session is known by its place in `sessions`, which has every session ever made.
`waiting` are the opens that wait for the lock, `inside` the one that has it, `opening` those
that hold a slot on a session and open the stream, each with the number of its try; `conns` are
the streams that live, by their sessions. -/
structure Client where
  options : MuxOptions
  sessions : List MuxSession
  pool : List ℕ
  waiting : List ℕ
  inside : Option (ℕ × Critical)
  opening : List (ℕ × ℕ)
  conns : List ℕ
  deriving DecidableEq

def Client.new (options : MuxOptions) : Client :=
  { options, sessions := [], pool := [], waiting := [], inside := none, opening := [], conns := [] }

namespace Client

/-- The opens in flight on a session. -/
def inFlight (c : Client) (s : ℕ) : ℕ := c.opening.countP fun p => p.2 = s

/-- The slot counter of a session. -/
def slots (c : Client) (s : ℕ) : ℕ := (c.sessions[s]?.map MuxSession.streams).getD 0

/-- A session changes. -/
def modify (c : Client) (s : ℕ) (f : MuxSession → MuxSession) : Client :=
  { c with sessions := c.sessions.modify s f }

/-- May a session with this load take another stream? -/
def reuse (c : Client) (load : ℕ) : Bool :=
  if load = 0 then true
  else if c.options.maxConnections > 0 then
    c.pool.length ≥ c.options.maxConnections || load < c.options.minStreams
  else
    load < c.options.minStreams ||
      (c.options.maxStreams > 0 && load < c.options.maxStreams)

/-- A session leaves the pool, and the pool's `Arc` goes. -/
def evict (c : Client) (s : ℕ) : Client :=
  { c with pool := c.pool.erase s }.modify s fun x => { x with strong := x.strong - 1 }

/-- A guard gives its slot back and goes, with the `Arc` of the open. -/
def releaseReservation (c : Client) (s : ℕ) : Client :=
  c.modify s fun x => { x with streams := x.streams - 1, strong := x.strong - 2 }

/-- The next access of the open that holds the lock, up to the dial. -/
def next (c : Client) : Client :=
  match c.inside with
  | none => c
  | some (a, .retain _ []) => { c with inside := some (a, .choose none c.pool) }
  | some (a, .retain now (s :: todo)) =>
    match c.sessions[s]? with
    | none => c
    | some x =>
      if x.unusable then { c.evict s with inside := some (a, .retain now todo) }
      else { c with inside := some (a, .check now s (now - x.lastUsedMs) todo) }
  | some (a, .check now s idle todo) =>
    if c.slots s > 0 || idle < IDLE_TIMEOUT then { c with inside := some (a, .retain now todo) }
    else { c.evict s with inside := some (a, .retain now todo) }
  | some (a, .choose best (s :: todo)) =>
    match best with
    | none => { c with inside := some (a, .choose (some (s, c.slots s)) todo) }
    | some (s', key) =>
      if c.slots s < key then { c with inside := some (a, .choose (some (s, c.slots s)) todo) }
      else { c with inside := some (a, .choose (some (s', key)) todo) }
  | some (a, .choose none []) => { c with inside := some (a, .dial) }
  | some (a, .choose (some (s, _)) []) => { c with inside := some (a, .load s) }
  | some (a, .load s) =>
    if c.reuse (c.slots s) then { c with inside := some (a, .swap s (c.slots s)) }
    else { c with inside := some (a, .dial) }
  | some (a, .swap s load) =>
    if c.slots s = load then
      -- one `Arc` for the open and one for its guard
      { c.modify s fun x => { x with streams := x.streams + 1, strong := x.strong + 2 } with
        inside := none, opening := (a, s) :: c.opening }
    else { c with inside := some (a, .load s) }
  | some (_, .dial) => c

/-- The lock of the pool is given to an open, which reads the time. -/
def lock (c : Client) (a : ℕ) (now : UInt64) : Client :=
  if c.inside = none ∧ a ∈ c.waiting then
    { c with waiting := c.waiting.erase a, inside := some (a, .retain now c.pool) }
  else c

/-- A session is set up: one `Arc` is the pool's, one the open's and one its guard's. -/
def dialOk (c : Client) (now : UInt64) : Client :=
  match c.inside with
  | some (a, .dial) =>
    { c with
      sessions := c.sessions ++ [{ streams := 1, lastUsedMs := now, unusable := false
                                   strong := 3, opened := 0 }]
      pool := c.pool ++ [c.sessions.length]
      inside := none
      opening := (a, c.sessions.length) :: c.opening }
  | _ => c

/-- The dial fails, takes too long or is cancelled: the open ends. -/
def dialEnds (c : Client) : Client :=
  match c.inside with
  | some (_, .dial) => { c with inside := none }
  | _ => c

/-- The stream is open. The guard is forgotten, so that the slot is the stream's; the `Arc` of the
open is the stream's too, and the `Arc` of the guard stays. -/
def openOk (c : Client) (p : ℕ × ℕ) (now : UInt64) : Client :=
  if p ∈ c.opening then
    { c.modify p.2 fun x => { x with lastUsedMs := now, opened := x.opened + 1 } with
      opening := c.opening.erase p, conns := p.2 :: c.conns }
  else c

/-- The session refuses the stream: the guard goes, and the open tries once more. -/
def openErr (c : Client) (p : ℕ × ℕ) : Client :=
  if p ∈ c.opening then
    { c.releaseReservation p.2 with
      opening := c.opening.erase p
      waiting := if p.1 = 0 then 1 :: c.waiting else c.waiting }
  else c

/-- The open is cancelled while its stream is opened: the guard goes. -/
def cancelOpen (c : Client) (p : ℕ × ℕ) : Client :=
  if p ∈ c.opening then { c.releaseReservation p.2 with opening := c.opening.erase p } else c

/-- A stream is dropped. -/
def close (c : Client) (s : ℕ) : Client :=
  if s ∈ c.conns then
    { c.modify s fun x => { x with streams := x.streams - 1, strong := x.strong - 1 } with
      conns := c.conns.erase s }
  else c

end Client

/-- What happens: an open starts, the operations of the opens, a stream is dropped, a session
becomes unusable. -/
inductive ClientOp where
  | start
  | lock (a : ℕ) (now : UInt64)
  | cancelLock (a : ℕ)
  | next
  | dialOk (now : UInt64)
  | dialEnds
  | openOk (p : ℕ × ℕ) (now : UInt64)
  | openErr (p : ℕ × ℕ)
  | cancelOpen (p : ℕ × ℕ)
  | close (s : ℕ)
  | fail (s : ℕ)
  deriving DecidableEq

namespace Client

/-- One thing happens; it changes nothing where it cannot happen. -/
def step (c : Client) : ClientOp → Client
  | .start => { c with waiting := 0 :: c.waiting }
  | .lock a now => c.lock a now
  | .cancelLock a => { c with waiting := c.waiting.erase a }
  | .next => c.next
  | .dialOk now => c.dialOk now
  | .dialEnds => c.dialEnds
  | .openOk p now => c.openOk p now
  | .openErr p => c.openErr p
  | .cancelOpen p => c.cancelOpen p
  | .close s => c.close s
  | .fail s => c.modify s fun x => { x with unusable := true }

/-- A run. -/
def run (c : Client) (ops : List ClientOp) : Client := ops.foldl step c

end Client

/-! ### The invariant -/

/-- The most slots a session may have when the number of connections is not bounded. -/
def MuxOptions.slotBound (o : MuxOptions) : ℕ := max 1 (max o.minStreams o.maxStreams)

/-- What the open that holds the lock knows. -/
def Critical.Ok (c : Client) : Critical → Prop
  | .retain _ todo => todo ⊆ c.pool ∧ todo.Nodup
  | .check _ s _ todo => s ∈ c.pool ∧ todo ⊆ c.pool ∧ (s :: todo).Nodup
  | .choose none todo => todo = c.pool
  | .choose (some (s, _)) todo => s ∈ c.pool ∧ todo ⊆ c.pool
  | .load s => s ∈ c.pool
  | .swap s seen => s ∈ c.pool ∧ (c.options.maxConnections = 0 → seen < c.options.slotBound)
  | .dial => 0 < c.options.maxConnections → c.pool.length < c.options.maxConnections

/-- **The invariant of the client.** -/
structure ClientInv (c : Client) : Prop where
  slots : ∀ (s : ℕ) (x : MuxSession), c.sessions[s]? = some x →
    x.streams = c.inFlight s + c.conns.count s
  refs : ∀ (s : ℕ) (x : MuxSession), c.sessions[s]? = some x →
    x.strong = c.pool.count s + 2 * c.inFlight s + c.conns.count s + x.opened
  pool_lt : ∀ s ∈ c.pool, s < c.sessions.length
  opening_lt : ∀ p ∈ c.opening, p.2 < c.sessions.length
  conns_lt : ∀ s ∈ c.conns, s < c.sessions.length
  nodup : c.pool.Nodup
  room : 0 < c.options.maxConnections → c.pool.length ≤ c.options.maxConnections
  cap : c.options.maxConnections = 0 → ∀ x ∈ c.sessions, x.streams ≤ c.options.slotBound
  inside : ∀ a critical, c.inside = some (a, critical) → critical.Ok c

open Client

variable (options : MuxOptions)

lemma clientInv_new : ClientInv (Client.new options) where
  slots s x h := by simp [new] at h
  refs s x h := by simp [new] at h
  pool_lt s h := absurd h not_mem_nil
  opening_lt p h := absurd h not_mem_nil
  conns_lt s h := absurd h not_mem_nil
  nodup := nodup_nil
  room _ := Nat.zero_le _
  cap _ x h := absurd h not_mem_nil
  inside a critical h := by simp [new] at h

lemma Critical.Ok.congr {c c' : Client} {critical : Critical} (h : critical.Ok c)
    (hpool : c'.pool = c.pool) (hoptions : c'.options = c.options) : critical.Ok c' := by
  unfold Critical.Ok at h ⊢
  rw [hpool, hoptions]
  exact h

section Inv

variable {c c' : Client}

/-- Only the place of an open changes. -/
lemma ClientInv.of_inside (h : ClientInv c) (waiting : List ℕ) (inside : Option (ℕ × Critical))
    (hinside : ∀ a critical, inside = some (a, critical) → critical.Ok c) :
    ClientInv { c with waiting, inside } :=
  ⟨h.slots, h.refs, h.pool_lt, h.opening_lt, h.conns_lt, h.nodup, h.room, h.cap,
    fun a critical heq => (hinside a critical heq).congr rfl rfl⟩

variable {s : ℕ} {l : List MuxSession}

/-- What the invariant says about a session. -/
def Client.SessionOk (c : Client) (s : ℕ) (x : MuxSession) : Prop :=
  x.streams = c.inFlight s + c.conns.count s ∧
    x.strong = c.pool.count s + 2 * c.inFlight s + c.conns.count s + x.opened ∧
    (c.options.maxConnections = 0 → x.streams ≤ c.options.slotBound)

/-- **One session changes**, and with it what is counted for it. -/
lemma ClientInv.of_modify (h : ClientInv c) (s : ℕ) (f : MuxSession → MuxSession)
    (hsessions : c'.sessions = c.sessions.modify s f) (hoptions : c'.options = c.options)
    (hother : ∀ t ≠ s, c'.inFlight t = c.inFlight t ∧ c'.conns.count t = c.conns.count t ∧
      c'.pool.count t = c.pool.count t)
    (hself : ∀ x, c.sessions[s]? = some x → c.SessionOk s x → c'.SessionOk s (f x))
    (hpool : c'.pool.Sublist c.pool) (hopening : ∀ p ∈ c'.opening, p.2 < c.sessions.length)
    (hconns : ∀ t ∈ c'.conns, t < c.sessions.length)
    (hinside : ∀ a critical, c'.inside = some (a, critical) → critical.Ok c') :
    ClientInv c' := by
  have hlen : c'.sessions.length = c.sessions.length := by rw [hsessions, length_modify]
  have hsession : ∀ t x', c'.sessions[t]? = some x' → c'.SessionOk t x' := by
    intro t x' hx'
    rw [hsessions, getElem?_modify] at hx'
    obtain ⟨x, hx, rfl⟩ := map_eq_some_iff.mp hx'
    have hok : c.SessionOk t x :=
      ⟨h.slots t x hx, h.refs t x hx, fun hzero => h.cap hzero x (mem_of_getElem? hx)⟩
    by_cases hts : s = t
    · subst hts
      rw [if_pos rfl]
      exact hself x hx hok
    · obtain ⟨h1, h2, h3⟩ := hother t (Ne.symm hts)
      rw [if_neg hts, Client.SessionOk, h1, h2, h3, hoptions]
      exact hok
  refine ⟨fun t x' hx' => (hsession t x' hx').1, fun t x' hx' => (hsession t x' hx').2.1,
    fun t ht => hlen ▸ h.pool_lt t (hpool.subset ht), hlen ▸ hopening, hlen ▸ hconns,
    h.nodup.sublist hpool, ?_, ?_, hinside⟩
  · rw [hoptions]
    exact fun hmax => hpool.length_le.trans (h.room hmax)
  · intro hzero x' hx'
    obtain ⟨t, ht⟩ := getElem?_of_mem hx'
    exact (hsession t x' ht).2.2 hzero

/-- A slot counter that is read. -/
lemma Client.slots_eq {x : MuxSession} (h : c.sessions[s]? = some x) : c.slots s = x.streams := by
  rw [slots, h]
  rfl

/-- A session leaves the pool, which only the open with the lock can do. -/
lemma ClientInv.evict (h : ClientInv c) {a now todo} (hs : s ∈ c.pool) (htodo : todo ⊆ c.pool)
    (hnodup : (s :: todo).Nodup) :
    ClientInv { c.evict s with inside := some (a, .retain now todo) } := by
  have hcount : c.pool.count s = 1 := count_eq_one_of_mem h.nodup hs
  refine h.of_modify s (fun x => { x with strong := x.strong - 1 }) rfl rfl (fun t ht => ?_)
    (fun x _ ⟨hslots, hrefs, hcap⟩ => ?_) erase_sublist h.opening_lt h.conns_lt ?_
  · exact ⟨rfl, rfl, count_erase_of_ne ht⟩
  · have hcount' : (c.pool.erase s).count s = 0 := by
      rw [count_erase_self, hcount]
    refine ⟨hslots, ?_, hcap⟩
    show x.strong - 1 = (c.pool.erase s).count s + 2 * c.inFlight s + c.conns.count s + x.opened
    omega
  · intro a' critical heq
    cases heq
    refine ⟨fun t ht => ?_, (nodup_cons.mp hnodup).2⟩
    have hne : t ≠ s := fun heq => (nodup_cons.mp hnodup).1 (heq ▸ ht)
    exact (mem_erase_of_ne hne).mpr (htodo ht)

/-- The load that allows another stream on a client without a bound of connections. -/
lemma Client.lt_slotBound {load} (h : c.reuse load) (hzero : c.options.maxConnections = 0) :
    load < c.options.slotBound := by
  rw [reuse] at h
  rw [slotBound]
  split_ifs at h with hload hmax
  · omega
  · omega
  · simp only [Bool.or_eq_true, Bool.and_eq_true, decide_eq_true_eq] at h
    omega

/-- A load that does not: the pool has room for a session. -/
lemma Client.length_lt_of_reuse {load} (h : ¬ c.reuse load)
    (hmax : 0 < c.options.maxConnections) : c.pool.length < c.options.maxConnections := by
  rw [reuse] at h
  split_ifs at h with hload
  · exact absurd rfl h
  · simp only [Bool.or_eq_true, decide_eq_true_eq] at h
    omega

/-- A slot is taken: the counter still has the value that was read. -/
lemma ClientInv.swap (h : ClientInv c) {a load} (hs : s ∈ c.pool) (hload : c.slots s = load)
    (hbound : c.options.maxConnections = 0 → load < c.options.slotBound) :
    ClientInv
      { c.modify s fun x => { x with streams := x.streams + 1, strong := x.strong + 2 } with
        inside := none, opening := (a, s) :: c.opening } := by
  have hflight : ∀ t, inFlight
      { c.modify s fun x => { x with streams := x.streams + 1, strong := x.strong + 2 } with
        inside := none, opening := (a, s) :: c.opening } t =
      c.inFlight t + if s = t then 1 else 0 := by
    intro t
    simp [inFlight, countP_cons]
  refine h.of_modify s _ rfl rfl (fun t ht => ?_) (fun x hx ⟨hslots, hrefs, _⟩ => ?_)
    (List.Sublist.refl _) (fun p hp => ?_) h.conns_lt nofun
  · rw [hflight, if_neg (Ne.symm ht)]
    exact ⟨rfl, rfl, rfl⟩
  · have hstreams := slots_eq hx
    rw [Client.SessionOk, hflight, if_pos rfl]
    simp only [Client.modify]
    refine ⟨by omega, by omega, fun hzero => ?_⟩
    omega
  · rcases mem_cons.mp hp with rfl | hp
    · exact h.pool_lt s hs
    · exact h.opening_lt p hp

/-- **The open that holds the lock goes on.** -/
lemma ClientInv.next (h : ClientInv c) : ClientInv c.next := by
  have hplace : ∀ {a : ℕ} {critical : Critical}, critical.Ok c →
      ClientInv { c with inside := some (a, critical) } := by
    intro a critical hok
    refine h.of_inside c.waiting _ fun a' critical' heq => ?_
    cases heq
    exact hok
  have hok := h.inside
  fun_cases Client.next c with
  | case1 | case3 | case17 => exact h
  | case2 => exact hplace rfl
  | case4 a now s todo hinside x hx =>
    obtain ⟨hsub, hnodup⟩ := hok _ _ hinside
    obtain ⟨hs, htodo⟩ := cons_subset.mp hsub
    exact h.evict hs htodo hnodup
  | case5 a now s todo hinside =>
    obtain ⟨hsub, hnodup⟩ := hok _ _ hinside
    obtain ⟨hs, htodo⟩ := cons_subset.mp hsub
    exact hplace ⟨hs, htodo, hnodup⟩
  | case6 a now s idle todo hinside =>
    obtain ⟨hs, htodo, hnodup⟩ := hok _ _ hinside
    exact hplace ⟨htodo, (nodup_cons.mp hnodup).2⟩
  | case7 a now s idle todo hinside =>
    obtain ⟨hs, htodo, hnodup⟩ := hok _ _ hinside
    exact h.evict hs htodo hnodup
  | case8 a s todo hinside =>
    have hpool : s :: todo = c.pool := hok _ _ hinside
    exact hplace (by simp [Critical.Ok, ← hpool])
  | case9 a s todo s' key _ hinside =>
    obtain ⟨hs', hsub⟩ := hok _ _ hinside
    exact hplace (cons_subset.mp hsub)
  | case10 a s todo s' key _ hinside =>
    obtain ⟨hs', hsub⟩ := hok _ _ hinside
    exact hplace ⟨hs', (cons_subset.mp hsub).2⟩
  | case11 a hinside =>
    have hpool : [] = c.pool := hok _ _ hinside
    exact hplace fun hmax => by rwa [← hpool]
  | case12 a s key hinside => exact hplace (hok _ _ hinside).1
  | case13 a s hinside hreuse =>
    exact hplace ⟨hok _ _ hinside, fun hzero => lt_slotBound hreuse hzero⟩
  | case14 a s hinside hreuse => exact hplace fun hmax => length_lt_of_reuse hreuse hmax
  | case15 a s _ hinside =>
    obtain ⟨hs, hbound⟩ := hok _ _ hinside
    exact h.swap hs rfl hbound
  | case16 a s load hinside => exact hplace (hok _ _ hinside).1

lemma getElem?_concat_cases {x y} (h : (l ++ [y])[s]? = some x) :
    l[s]? = some x ∧ s < l.length ∨ s = l.length ∧ x = y := by
  grind

/-- A new session is put into the pool with the slot of the open that dialed it. -/
lemma ClientInv.dialOk (h : ClientInv c) (now : UInt64) : ClientInv (c.dialOk now) := by
  rw [Client.dialOk]
  split
  · next a hinside =>
    have hroom := h.inside a .dial hinside
    have hnone : c.sessions.length ∉ c.pool := fun hmem => absurd (h.pool_lt _ hmem) (by omega)
    have hflight : c.opening.countP (fun p => p.2 = c.sessions.length) = 0 := by
      rw [countP_eq_zero]
      intro p hp hfalse
      have hlt := h.opening_lt p hp
      rw [decide_eq_true_eq] at hfalse
      omega
    have hconns : c.conns.count c.sessions.length = 0 := by
      rw [count_eq_zero]
      exact fun hmem => absurd (h.conns_lt _ hmem) (by omega)
    have hpool : c.pool.count c.sessions.length = 0 := count_eq_zero.mpr hnone
    refine ⟨fun s x hx => ?_, fun s x hx => ?_, fun s hs => ?_, fun p hp => ?_, fun s hs => ?_,
      nodup_append.mpr ⟨h.nodup, nodup_singleton _, by grind⟩, fun hmax => ?_,
      fun hzero x hx => ?_, nofun⟩
    -- a session is one that was there, with the same counts, or the new one
    · obtain ⟨hx, hs⟩ | ⟨rfl, rfl⟩ := getElem?_concat_cases hx
      · simpa [inFlight, countP_cons, hs.ne'] using h.slots s x hx
      · simp [inFlight, hflight, hconns]
    · obtain ⟨hx, hs⟩ | ⟨rfl, rfl⟩ := getElem?_concat_cases hx
      · simpa [inFlight, countP_cons, hs.ne'] using h.refs s x hx
      · simp [inFlight, hflight, hconns, hpool]
    · have hlt := h.pool_lt s
      grind
    · have hlt := h.opening_lt p
      grind
    · exact lt_of_lt_of_le (h.conns_lt s hs) (by simp)
    · rw [length_append]
      exact hroom hmax
    · rcases mem_append.mp hx with hx | hx
      · exact h.cap hzero x hx
      · rw [mem_singleton.mp hx]
        exact le_max_left _ _
  · exact h

/-- Taking an open in flight away. -/
lemma Client.inFlight_erase {p} (hp : p ∈ c.opening) (t : ℕ) :
    (c.opening.erase p).countP (fun q => q.2 = t) + (if p.2 = t then 1 else 0) =
      c.inFlight t := by
  have hperm := perm_cons_erase hp
  rw [inFlight, hperm.countP_eq, countP_cons]
  simp

variable (h : ClientInv c)
include h

/-- A stream is open: its slot was the open's. -/
lemma ClientInv.openOk (p : ℕ × ℕ) (now : UInt64) : ClientInv (c.openOk p now) := by
  rw [Client.openOk]
  split_ifs with hp
  · refine h.of_modify p.2 (fun x => { x with lastUsedMs := now, opened := x.opened + 1 }) rfl rfl
      (fun t ht => ?_) (fun x _ ⟨hslots, hrefs, hcap⟩ => ?_) (List.Sublist.refl _)
      (fun q hq => h.opening_lt q (mem_of_mem_erase hq)) (fun t ht => ?_)
      (fun a critical heq => (h.inside a critical heq).congr rfl rfl)
    · have herase := c.inFlight_erase hp t
      rw [if_neg (Ne.symm ht)] at herase
      exact ⟨herase, count_cons_of_ne (Ne.symm ht), rfl⟩
    · have herase := c.inFlight_erase hp p.2
      rw [if_pos rfl] at herase
      simp only [Client.SessionOk, Client.modify, Client.inFlight, count_cons_self]
      exact ⟨by omega, by omega, hcap⟩
    · rcases mem_cons.mp ht with rfl | ht
      · exact h.opening_lt p hp
      · exact h.conns_lt t ht
  · exact h

/-- A guard goes: the open was refused or cancelled. -/
lemma ClientInv.release {p} (hp : p ∈ c.opening) (waiting : List ℕ) :
    ClientInv { c.releaseReservation p.2 with opening := c.opening.erase p, waiting } := by
  refine h.of_modify p.2
    (fun x => { x with streams := x.streams - 1, strong := x.strong - 2 }) rfl rfl
    (fun t ht => ?_) (fun x _ ⟨hslots, hrefs, hcap⟩ => ?_) (List.Sublist.refl _)
    (fun q hq => h.opening_lt q (mem_of_mem_erase hq)) h.conns_lt
    (fun a critical heq => (h.inside a critical heq).congr rfl rfl)
  · have herase := c.inFlight_erase hp t
    rw [if_neg (Ne.symm ht)] at herase
    exact ⟨herase, rfl, rfl⟩
  · have herase := c.inFlight_erase hp p.2
    rw [if_pos rfl] at herase
    simp only [Client.SessionOk, Client.releaseReservation, Client.modify, Client.inFlight]
    exact ⟨by omega, by omega, by omega⟩

/-- A stream is dropped. -/
lemma ClientInv.close (s : ℕ) : ClientInv (c.close s) := by
  rw [Client.close]
  split_ifs with hs
  · refine h.of_modify s (fun x => { x with streams := x.streams - 1, strong := x.strong - 1 }) rfl
      rfl (fun t ht => ⟨rfl, count_erase_of_ne ht, rfl⟩) (fun x _ ⟨hslots, hrefs, hcap⟩ => ?_)
      (List.Sublist.refl _) h.opening_lt (fun t ht => h.conns_lt t (mem_of_mem_erase ht))
      (fun a critical heq => (h.inside a critical heq).congr rfl rfl)
    have hcount : (c.conns.erase s).count s = c.conns.count s - 1 := count_erase_self
    have hpos : 0 < c.conns.count s := count_pos_iff.mpr hs
    have hflight : inFlight
        { c.modify s fun x => { x with streams := x.streams - 1, strong := x.strong - 1 } with
          conns := c.conns.erase s } s = c.inFlight s := rfl
    rw [Client.SessionOk, hflight]
    simp only [Client.modify]
    exact ⟨by omega, by omega, by omega⟩
  · exact h

/-- **Every operation keeps the invariant.** -/
theorem ClientInv.step (op : ClientOp) : ClientInv (c.step op) := by
  cases op with
  | start => exact h.of_inside _ _ h.inside
  | lock a now =>
    rw [Client.step, Client.lock]
    split_ifs
    · refine h.of_inside _ _ fun a' critical heq => ?_
      cases heq
      exact ⟨fun s hs => hs, h.nodup⟩
    · exact h
  | cancelLock a => exact h.of_inside _ _ h.inside
  | next => exact h.next
  | dialOk now => exact h.dialOk now
  | dialEnds =>
    rw [Client.step, Client.dialEnds]
    split
    · exact h.of_inside _ _ nofun
    · exact h
  | openOk p now => exact h.openOk p now
  | openErr p =>
    rw [Client.step, Client.openErr]
    by_cases hp : p ∈ c.opening
    · rw [if_pos hp]
      exact h.release hp _
    · rw [if_neg hp]
      exact h
  | cancelOpen p =>
    rw [Client.step, Client.cancelOpen]
    split_ifs with hp
    · exact h.release hp _
    · exact h
  | close s => exact h.close s
  | fail s =>
    exact h.of_modify s _ rfl rfl (fun t _ => ⟨rfl, rfl, rfl⟩)
      (fun _ _ hok => hok) (List.Sublist.refl _) h.opening_lt h.conns_lt
      (fun a critical heq => (h.inside a critical heq).congr rfl rfl)

end Inv

lemma clientInv_run (ops : List ClientOp) : ClientInv ((Client.new options).run ops) :=
  foldlRecOn ops _ (clientInv_new options) fun _ h op _ => h.step op

/-! ### Slots, bounds and eviction -/

lemma Client.next_options (c : Client) : c.next.options = c.options := by
  rw [next]
  split <;> try split
  all_goals first | rfl | (split <;> rfl)

lemma Client.step_options (c : Client) (op : ClientOp) : (c.step op).options = c.options := by
  cases op with
  | next => exact c.next_options
  | _ => grind [step, lock, dialOk, dialEnds, openOk, openErr, cancelOpen, close, modify,
      releaseReservation]

lemma Client.run_options (ops : List ClientOp) : ((Client.new options).run ops).options = options :=
  foldlRecOn (motive := fun c : Client => c.options = options) ops _ rfl
    fun c h op _ => (c.step_options op).trans h

/-- The open that holds the lock takes at most one session from the pool, which is unusable or
has no slots. -/
lemma Client.next_pool (c : Client) : c.next.pool = c.pool ∨
    ∃ t, c.next.pool = c.pool.erase t ∧
      ∀ x, c.sessions[t]? = some x → 0 < x.streams → x.unusable = true := by
  rw [next]
  split
  case h_3 a now t todo hinside =>
    split
    · exact .inl rfl
    · next y hy =>
      split_ifs with hunusable
      · exact .inr ⟨t, rfl, fun x hx _ => by rwa [some.inj (hx.symm.trans hy)]⟩
      · exact .inl rfl
  case h_4 a now t idle todo hinside =>
    split_ifs with hkeep
    · exact .inl rfl
    · refine .inr ⟨t, rfl, fun x hx hslots => ?_⟩
      rw [slots_eq hx] at hkeep
      simp [hslots] at hkeep
  all_goals grind [modify]

/-- **Who leaves the pool**: a session that is unusable, or one without slots. -/
lemma Client.next_evicts {c : Client} {s} {x : MuxSession} (hs : s ∈ c.pool)
    (hgone : s ∉ c.next.pool) (hx : c.sessions[s]? = some x) (hslots : 0 < x.streams) :
    x.unusable = true := by
  obtain heq | ⟨t, heq, ht⟩ := c.next_pool <;> rw [heq] at hgone
  · exact absurd hs hgone
  · obtain rfl : s = t := by
      by_contra hne
      exact hgone ((mem_erase_of_ne hne).mpr hs)
    exact ht x hx hslots

/-- Only the open that holds the lock takes sessions from the pool. -/
lemma Client.step_pool_subset {c : Client} {op} (hop : op ≠ .next) : c.pool ⊆ (c.step op).pool := by
  intro s hs
  cases op <;> grind [step, lock, dialOk, dialEnds, openOk, openErr, cancelOpen, close, modify,
    releaseReservation]

/-- **The slots of the sessions.** In every run of the client the slot counter of a session is the
number of its opens in flight and of its streams. With a bound on the connections the pool keeps
to it, and without one no session has more slots than the bounds on streams allow. A session that
leaves the pool while it has a slot is one that cannot take another stream: it is never idleness
that it leaves for.

**Proof sketch.** The first three are parts of the invariant, which every operation keeps. A
session leaves the pool only by the open that holds the lock, and there either because it is
unusable or after its slot counter was read as zero. -/
theorem run_slots (options : MuxOptions) (ops : List ClientOp) :
    (∀ (s : ℕ) (x : MuxSession), ((Client.new options).run ops).sessions[s]? = some x →
      x.streams = ((Client.new options).run ops).inFlight s +
        ((Client.new options).run ops).conns.count s) ∧
    (0 < options.maxConnections →
      ((Client.new options).run ops).pool.length ≤ options.maxConnections) ∧
    (options.maxConnections = 0 → ∀ x ∈ ((Client.new options).run ops).sessions,
      x.streams ≤ max 1 (max options.minStreams options.maxStreams)) ∧
    (∀ (op : ClientOp) (s : ℕ) (x : MuxSession), s ∈ ((Client.new options).run ops).pool →
      s ∉ (((Client.new options).run ops).step op).pool →
      ((Client.new options).run ops).sessions[s]? = some x → 0 < x.streams →
      x.unusable = true) := by
  have hinv := clientInv_run options ops
  have hoptions := run_options options ops
  refine ⟨hinv.slots, fun hmax => ?_, fun hzero => ?_, fun op s x hs hgone hx hslots => ?_⟩
  · have hroom := hinv.room
    rw [hoptions] at hroom
    exact hroom hmax
  · have hcap := hinv.cap
    rw [hoptions] at hcap
    exact hcap hzero
  · by_cases hop : op = .next
    · rw [hop] at hgone
      exact next_evicts hs hgone hx hslots
    · exact absurd (step_pool_subset hop hs) hgone

/-! ### The references to a session -/

namespace Client

/-- Does a session carry a stream, or an open in flight? -/
def carries (c : Client) (s : ℕ) : Bool := 0 < c.inFlight s || s ∈ c.conns

/-- Is there a strong reference to a session? -/
def live (c : Client) (s : ℕ) : Bool := 0 < (c.sessions[s]?.map MuxSession.strong).getD 0

/-- A session that has left the pool and carries nothing is released; and the sessions that live
are not more than those in the pool and those that carry something. -/
def Released (c : Client) : Prop :=
  (∀ (s : ℕ) (x : MuxSession), c.sessions[s]? = some x → s ∉ c.pool → c.carries s = false →
    x.strong = 0) ∧
  (List.range c.sessions.length).countP c.live ≤
    c.pool.length + (List.range c.sessions.length).countP c.carries

end Client

section Released

variable {c : Client} {s : ℕ}

/-- The references that remain once the pool, the opens and the streams have let go of a session:
one for each open that succeeded. -/
lemma ClientInv.strong_eq_opened (h : ClientInv c) {x : MuxSession} (hx : c.sessions[s]? = some x)
    (hpool : s ∉ c.pool) (hcarries : c.carries s = false) : x.strong = x.opened := by
  rw [carries, Bool.or_eq_false_iff, decide_eq_false_iff_not, decide_eq_false_iff_not] at hcarries
  rw [h.refs s x hx, count_eq_zero.mpr hpool, count_eq_zero.mpr hcarries.2]
  omega

lemma countP_or_le {α : Type*} (p q : α → Bool) (l : List α) :
    l.countP (fun a => p a || q a) ≤ l.countP p + l.countP q := by
  induction l with
  | nil => exact le_rfl
  | cons a l ih =>
    simp only [countP_cons]
    cases p a <;> cases q a <;> simp <;> omega

/-- The sessions of a duplicate-free pool, counted among all. -/
lemma Client.countP_pool_le (n : ℕ) : (range n).countP (fun s => s ∈ c.pool) ≤ c.pool.length := by
  rw [countP_eq_length_filter]
  refine (List.Nodup.subperm (nodup_range.filter _) fun s hs => ?_).length_le
  exact of_decide_eq_true (mem_filter.mp hs).2

end Released

/-- **Sessions are released** in exactly the runs in which no open ever succeeded on a session that
has by then left the pool and carries nothing.

**Proof sketch.** The invariant counts the strong references: one of the pool, two of each open in
flight, one of each stream, and one for each guard that was forgotten. What is left of a session
outside the pool that carries nothing are the forgotten guards, one for each open that succeeded.
If there are none, a session that lives is in the pool or carries something. -/
theorem run_released_iff (options : MuxOptions) (ops : List ClientOp) :
    ((Client.new options).run ops).Released ↔
      ∀ (s : ℕ) (x : MuxSession), ((Client.new options).run ops).sessions[s]? = some x →
        s ∉ ((Client.new options).run ops).pool →
        ((Client.new options).run ops).carries s = false → x.opened = 0 := by
  have hinv := clientInv_run options ops
  generalize (new options).run ops = c at hinv
  constructor
  · intro hreleased s x hx hpool hcarries
    rw [← hinv.strong_eq_opened hx hpool hcarries]
    exact hreleased.1 s x hx hpool hcarries
  · intro hopened
    have hzero : ∀ (s : ℕ) (x : MuxSession), c.sessions[s]? = some x → s ∉ c.pool →
        c.carries s = false → x.strong = 0 := by
      intro s x hx hpool hcarries
      rw [hinv.strong_eq_opened hx hpool hcarries]
      exact hopened s x hx hpool hcarries
    refine ⟨hzero, ?_⟩
    calc (range c.sessions.length).countP c.live
        ≤ (range c.sessions.length).countP (fun s => s ∈ c.pool || c.carries s) := by
          refine countP_mono_left fun s hs hlive => ?_
          by_contra hnone
          simp only [Bool.or_eq_true, decide_eq_true_eq, not_or, Bool.not_eq_true] at hnone
          have hx := getElem?_eq_getElem (mem_range.mp hs)
          rw [live, hx, map_some, getD_some, hzero s _ hx hnone.1 hnone.2]
            at hlive
          cases hlive
      _ ≤ (range c.sessions.length).countP (fun s => s ∈ c.pool) +
            (range c.sessions.length).countP c.carries := countP_or_le _ _ _
      _ ≤ c.pool.length + (range c.sessions.length).countP c.carries :=
          Nat.add_le_add_right (c.countP_pool_le _) _

/-- One open that succeeds and whose stream is dropped; more than a minute later another open looks
at the pool, finds the session idle and evicts it. -/
def idleRun : List ClientOp :=
  [.start, .lock 0 0, .next, .next, .dialOk 0, .openOk (0, 0) 0, .close 0, .start, .lock 0 60000,
    .next, .next]

/-- The session is in no pool and carries nothing, and still there is a strong reference to it. -/
theorem idleRun_not_released :
    ((Client.new MuxOptions.default).run idleRun).pool = [] ∧
      ((Client.new MuxOptions.default).run idleRun).carries 0 = false ∧
      ((Client.new MuxOptions.default).run idleRun).live 0 = true ∧
      ¬ ((Client.new MuxOptions.default).run idleRun).Released := by
  refine ⟨by decide +kernel, by decide +kernel, by decide +kernel, fun h => ?_⟩
  exact absurd h.2 (by decide +kernel)

end Meow.Mux
