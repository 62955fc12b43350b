import Meow.Mux.CoolReader

/-!
# Runs of a Mux.Cool session

The driver of `Mux.CoolReader` is a session whose frames are delivered to the open streams,
one at a time and in their order. Frames that keep the session alive must carry no data: the
reader does not skip a payload of theirs.

## Main definitions

* `Matches` — the driver stands inside the next frame, and the streams have got what is due to them.

## Main results

* `Matches.step` — one operation.
* `Matches.finish` — the reader can always go on.
* `run_delivers` — every run.
* `keepAlive_payload_misread` — a payload that is not skipped.
-/

namespace Meow.Mux.Cool

open List Function Option Channel

/-! ### What the streams have got -/

/-- The parked event, if it is for the stream. -/
def parkedFor (parked : Option (UInt16 × Event)) (sid : UInt16) : List Event :=
  match parked with
  | none => []
  | some (sid', event) => if sid' = sid then [event] else []

/-- A stream that has its receiver has taken, or finds in its queue, or will find there once the
parked event is delivered, what is due to it; behind that at most the error of a session that has
ended. -/
def Channel.Got (c : Channel) (exited : Bool) (parked due : List Event) : Prop :=
  c.alive = true → ∃ tail, c.received ++ c.queue ++ parked = due ++ tail ∧
    (tail = [] ∨ exited = true ∧ tail = [abortEvent sessionClosed])

/-- The same for a stream that may not have been registered; nothing is parked for one that was
not. -/
def ChannelOk (exited : Bool) (parked : List Event) :
    Option Channel → Option (List Event) → Prop
  | none, none => parked = []
  | some c, some due => c.Got exited parked due
  | _, _ => False

variable {due : Option (List Event)} {c : Option Channel}

section

variable {exited : Bool} {parked : List Event} (h : ChannelOk exited parked c due)
include h

/-- A stream and what is due to it are there together. -/
lemma ChannelOk.cases :
    c = none ∧ due = none ∧ parked = [] ∨
      ∃ c' due', c = some c' ∧ due = some due' ∧ c'.Got exited parked due' := by
  cases c <;> cases due <;> simp_all [ChannelOk]

lemma ChannelOk.map {exited' : Bool} {parked' : List Event} {f : Channel → Channel}
    {g : List Event → List Event} (hparked : due = none → parked = [] → parked' = [])
    (hstep : ∀ c due, Channel.Got c exited parked due → (f c).Got exited' parked' (g due)) :
    ChannelOk exited' parked' (c.map f) (due.map g) := by
  obtain ⟨rfl, rfl, hnil⟩ | ⟨c, due, rfl, rfl, hgot⟩ := h.cases
  · exact hparked rfl hnil
  · exact hstep c due hgot

end

lemma Channel.got_false {c : Channel} {parked due : List Event} :
    c.Got false parked due ↔ (c.alive → c.received ++ c.queue ++ parked = due) := by
  simp [Channel.Got]

variable {d : Driver}

open Driver

/-- An event that was due is delivered or parked. -/
lemma deliver_spec {due : UInt16 → Option (List Event)} (sid : UInt16)
    (event : Event) (hparked : d.parked = none)
    (h : ∀ s, ChannelOk d.exited (parkedFor (some (sid, event)) s) (d.channels s) (due s)) :
    ∃ channels parked, d.deliver sid event = { d with channels, parked } ∧
      ∀ s, ChannelOk d.exited (parkedFor parked s) (channels s) (due s) := by
  have hne : ∀ s, s ≠ sid → parkedFor (some (sid, event)) s = parkedFor none s :=
    fun s hs => if_neg hs.symm
  have hself : parkedFor (some (sid, event)) sid = [event] := if_pos rfl
  obtain ⟨-, -, hnil⟩ | ⟨c, due', hc, hdue, hgot⟩ := (h sid).cases
  · simp [hself] at hnil
  simp only [Driver.deliver, hc]
  split_ifs with hdead hfull
  · refine ⟨d.channels, none, by rw [← hparked], fun s => ?_⟩
    by_cases hs : s = sid
    · subst hs
      rw [hc, hdue]
      exact fun halive => by simp [halive] at hdead
    · exact hne s hs ▸ h s
  · exact ⟨d.channels, some (sid, event), rfl, h⟩
  · refine ⟨update d.channels sid (some (c.push event)), none, by rw [← hparked], fun s => ?_⟩
    by_cases hs : s = sid
    · subst hs
      rw [update_self, hdue]
      intro halive
      obtain ⟨tail, heq, htail⟩ := hgot halive
      exact ⟨tail, by rw [← heq]; simp [push, parkedFor], htail⟩
    · rw [update_of_ne hs]
      exact hne s hs ▸ h s

/-- The events of a frame become due to its stream if that is open. -/
def dueAfter (m : Session) (sid : UInt16) (events : List Event) : UInt16 → Option (List Event) :=
  if m.opened sid then Function.update m.due sid ((m.due sid).map (· ++ events)) else m.due

lemma dueAfter_nil (m : Session) (sid : UInt16) : dueAfter m sid [] = m.due := by
  rw [dueAfter]
  split_ifs
  · simp
  · rfl

variable {m : Session}

/-- The event of a frame goes to its stream. -/
lemma deliverNow_spec (sid : UInt16) (event : Event) (hparked : d.parked = none)
    (hexited : d.exited = false) (hknown : m.opened sid → m.due sid ≠ none)
    (h : ∀ s, ChannelOk d.exited (parkedFor d.parked s) (d.channels s) (m.due s)) :
    ∃ channels parked,
      d.deliverNow (if m.opened sid then some sid else none) event = { d with channels, parked } ∧
        ∀ s, ChannelOk d.exited (parkedFor parked s) (channels s) (dueAfter m sid [event] s) := by
  split_ifs with hopen
  · rw [dueAfter, if_pos hopen]
    apply deliver_spec sid event hparked
    intro s
    have hs := h s
    rw [hparked] at hs
    by_cases hsid : s = sid
    · subst hsid
      rw [update_self, ← map_id_apply (x := d.channels s)]
      apply hs.map fun hdue => absurd hdue (hknown hopen)
      intro c due hgot
      rw [hexited, got_false] at hgot ⊢
      intro halive
      rw [← hgot halive]
      simp [parkedFor]
    · rw [update_of_ne hsid, show parkedFor (some (sid, event)) s = [] from if_neg (Ne.symm hsid)]
      exact hs
  · rw [dueAfter, if_neg hopen]
    exact ⟨d.channels, d.parked, rfl, h⟩

/-- Every open stream was registered. -/
def Session.Known (m : Session) : Prop := ∀ s, m.opened s = true → m.due s ≠ none

lemma Session.Known.deliver (h : m.Known) (f : Frame) (rest : List Frame) :
    (m.deliver f rest).Known := by
  intro s
  have hs := h s
  simp only [Session.deliver]
  grind [update_apply, map_eq_none_iff]

/-- **The driver and the session.** The reader stands inside the first frame to come, the map has
the open streams, every stream has got what is due to it, and the driver has not ended unless the
connection did after the last frame. -/
structure Matches (d : Driver) (m : Session) : Prop where
  aligned : Aligned d.state d.future d.input m.todo
  streams : d.exited = false → d.streams = m.opened
  known : m.Known
  channels : ∀ s, ChannelOk d.exited (parkedFor d.parked s) (d.channels s) (m.due s)
  waiting : d.future ≠ none → d.parked = none
  result : d.result = none ∧ d.exited = false ∨
    d.result = some sessionClosed ∧ m.todo = [] ∧ d.future = none ∧ d.parked = none

/-- A future that waits is one of a driver that has not ended. -/
lemma Matches.of_future (h : Matches d m) (hf : d.future ≠ none) :
    d.parked = none ∧ d.result = none ∧ d.exited = false := by
  refine ⟨h.waiting hf, ?_⟩
  rcases h.result with hr | ⟨-, -, hnone, -⟩
  · exact hr
  · exact absurd hnone hf

/-- A driver without a result has not ended. -/
lemma Matches.exited (h : Matches d m) (hresult : d.result = none) : d.exited = false :=
  (h.result.resolve_right fun hr => by simp [hresult] at hr).2

variable {rest : List Frame}

/-- Delivering a frame that has no events and does not end its stream. -/
lemma Session.deliver_silent {f : Frame} (hevents : f.events = []) (hclose : f.status ≠ .close) :
    m.deliver f rest = { m with todo := rest } := by
  rw [Session.deliver, if_neg hclose, hevents]
  congr 1
  exact dueAfter_nil m f.sessionId

/-- What is left to do. -/
def weight (d : Driver) (m : Session) : ℕ :=
  2 * d.input.length + 10 * m.todo.length + readerRank d.state.phase d.future

/-- A frame that is done was worth more than the phases of the next one. -/
lemma weight_deliver_lt {d d' : Driver} {f} (htodo : m.todo = f :: rest)
    (hinput : d'.input.length ≤ d.input.length) :
    weight d' (m.deliver f rest) + 1 < weight d m := by
  have hrank := readerRank_le d'.state.phase d'.future
  have hlen : m.todo.length = rest.length + 1 := by rw [htodo, length_cons]
  have hrest : (m.deliver f rest).todo.length = rest.length := rfl
  rw [weight, weight, hrest]
  omega

/-- At most the next frame is delivered. -/
def Session.Delivers (m m' : Session) : Prop :=
  m' = m ∨ ∃ f rest, m.todo = f :: rest ∧ m' = m.deliver f rest

/-- A phase whose bytes are there, in a driver. -/
lemma Matches.filled (hplain : Plain m.todo)
    (hexp : Expects d.state m.todo d.state.buf.length (d.state.buf ++ d.input))
    (hpos : d.state.pos = d.state.buf.length) (hstreams : d.streams = m.opened) (hknown : m.Known)
    (hchannels : ∀ s, ChannelOk d.exited (parkedFor d.parked s) (d.channels s) (m.due s))
    (hparked : d.parked = none) (hresult : d.result = none) (hexited : d.exited = false) :
    ∃ m', m.Delivers m' ∧ Matches d.filled m' ∧
      weight d.filled m' < weight { d with future := none } m := by
  obtain ⟨s, future, hfilled, ⟨haligned, hrank⟩ | ⟨f, rest, htodo, hevents, hclose, haligned⟩⟩ :=
    filled_spec hplain hexp hpos
  · rw [hfilled]
    exact ⟨m, .inl rfl, ⟨haligned, fun _ => hstreams, hknown, hchannels, fun _ => hparked,
      .inl ⟨hresult, hexited⟩⟩, Nat.add_lt_add_left hrank _⟩
  · rw [hfilled]
    refine ⟨m.deliver f rest, .inr ⟨f, rest, htodo, rfl⟩, ?_,
      (Nat.lt_succ_self _).trans (weight_deliver_lt htodo le_rfl)⟩
    rw [Session.deliver_silent hevents hclose]
    exact ⟨haligned, fun _ => hstreams, hknown, hchannels, fun _ => hparked,
      .inl ⟨hresult, hexited⟩⟩

/-- The lock is given to the read future: the frame is done. -/
lemma Matches.locked (h : Matches d m) {l} (hl : d.future = some (.locking l)) :
    ∃ f rest, m.todo = f :: rest ∧ Matches (d.locked l) (m.deliver f rest) := by
  obtain ⟨hparked, hresult, hexited⟩ := h.of_future (by rw [hl]; simp)
  have haligned := h.aligned
  rw [hl] at haligned
  obtain ⟨f, rest, htodo, hinput, ⟨hsid, hoption, hdest⟩, hcases⟩ := haligned.at_lock
  have hstreams := h.streams hexited
  have hsender : d.sender f.sessionId =
      if m.opened f.sessionId then some f.sessionId else none := by
    rw [sender, hstreams]
  -- the state after the frame, whatever its buffer is
  have hnext : ∀ s : ReadState, Aligned s.resetHeader none d.input rest := by
    intro s
    rw [hinput]
    exact Aligned.resetHeader s rest
  have hknown := h.known.deliver f rest
  -- a frame with one event, which goes to its stream
  have hone : ∀ (streams : UInt16 → Bool) (s : ReadState) (event : Event), f.events = [event] →
      streams = (m.deliver f rest).opened →
      Matches (({ d with streams }.done s.resetHeader).deliverNow
        (if m.opened f.sessionId then some f.sessionId else none) event) (m.deliver f rest) := by
    intro streams s event hevents hopened
    obtain ⟨channels, parked, heq, hok⟩ := deliverNow_spec
      (d := { d with streams }.done s.resetHeader) f.sessionId event hparked hexited
      (h.known f.sessionId) h.channels
    rw [heq]
    refine ⟨hnext s, fun _ => hopened, hknown, ?_, fun hf => absurd rfl hf, .inl ⟨hresult, hexited⟩⟩
    rw [← hevents] at hok
    exact hok
  refine ⟨f, rest, htodo, ?_⟩
  rcases hcases with ⟨hclose, rfl⟩ | ⟨hkeep, hdata, herror, rfl⟩ | ⟨hkeep, hdata, hbuf, rfl⟩
  · simp only [Driver.locked, hsid, hsender, hstreams]
    exact hone _ _ _ (by rw [Frame.events, hclose]) (if_pos hclose).symm
  · have hopened : d.streams = (m.deliver f rest).opened := by
      simp [Session.deliver, hkeep, hstreams]
    simp only [Driver.locked, hsid, hsender]
    exact hone d.streams _ _ (by simp [Frame.events, hkeep, herror]) hopened
  · have hopened : d.streams = (m.deliver f rest).opened := by
      simp [Session.deliver, hkeep, hstreams]
    simp only [Driver.locked, Driver.lockedData, hsid, hsender, hoption, hbuf, hdest]
    by_cases herror : hasError f.option
    · rw [if_pos herror]
      exact hone d.streams _ _ (by simp [Frame.events, hkeep, herror]) hopened
    rw [if_neg herror]
    by_cases hempty : f.payload = []
    · rw [if_pos hempty, Session.deliver_silent (by simp [Frame.events, hkeep, herror, hempty])
        (by simp [hkeep])]
      exact ⟨hnext _, fun _ => hstreams, h.known, h.channels, fun hf => absurd rfl hf,
        .inl ⟨hresult, hexited⟩⟩
    · rw [if_neg hempty]
      exact hone d.streams _ _ (by simp [Frame.events, hkeep, herror, hdata, hempty]) hopened

/-! ### The operations -/

section Ops

variable {todo : List Frame}

/-- Bytes go from the connection into the buffer. -/
lemma Aligned.fill (h : Aligned d.state d.future d.input todo) {n}
    (hfit : d.state.pos + n ≤ d.state.buf.length) (hinput : n ≤ d.input.length) :
    Expects (d.fill n).state todo (d.fill n).state.buf.length
      ((d.fill n).state.buf.take (d.fill n).state.pos ++ (d.fill n).input) ∧
      (d.fill n).state.buf.length = d.state.buf.length := by
  have hchunk : (d.input.take n).length = n := length_take_of_le hinput
  have hlen : (store d.state.buf d.state.pos (d.input.take n)).length = d.state.buf.length :=
    length_store (by rw [hchunk]; exact hfit)
  have htake : (store d.state.buf d.state.pos (d.input.take n)).take (d.state.pos + n) =
      d.state.buf.take d.state.pos ++ d.input.take n := by
    have hstored := @take_store _ d.state.buf (d.input.take n) _ h.pos_le
    rwa [hchunk] at hstored
  refine ⟨?_, hlen⟩
  show Expects _ todo (store d.state.buf d.state.pos (d.input.take n)).length
    ((store d.state.buf d.state.pos (d.input.take n)).take (d.state.pos + n) ++ d.input.drop n)
  rw [hlen, htake, append_assoc, take_append_drop]
  exact h.expects.of_eq rfl rfl rfl rfl

lemma length_input_fill {n} (h : n ≤ d.input.length) :
    (d.fill n).input.length + n = d.input.length := by
  simp [Driver.fill, h]

/-- A connection that ends inside a phase has no frame to come. -/
lemma Expects.todo_eq_nil {s len} {bytes : List UInt8} (h : Expects s todo len bytes)
    (hshort : bytes.length < len) : todo = [] := by
  cases h with
  | metaLen h =>
    cases todo with
    | nil => rfl
    | cons f rest =>
      rw [wires_cons, length_append, length_u16be] at hshort
      omega
  | metaBlock h | dataLen h | data h =>
    simp only [length_append, length_u16be] at hshort
    omega

/-- The read step is polled for the first time. -/
lemma Matches.poll (h : Matches d m) (hplain : Plain m.todo) :
    ∃ m', m.Delivers m' ∧ Matches d.poll m' ∧
      (d.future = none → d.parked = none → d.result = none → weight d.poll m' < weight d m) := by
  rw [Driver.poll]
  split_ifs with hidle hmore
  · obtain ⟨hfuture, hparked, hresult⟩ := hidle
    refine ⟨m, .inl rfl, ⟨⟨h.aligned.expects, h.aligned.pos_le, fun _ => hmore, nofun⟩, h.streams,
      h.known, h.channels, fun _ => hparked, .inl ⟨hresult, h.exited hresult⟩⟩, fun _ _ _ => ?_⟩
    rw [weight, weight, hfuture]
    exact Nat.add_lt_add_left (Nat.lt_succ_self _) _
  · obtain ⟨hfuture, hparked, hresult⟩ := hidle
    have hexited := h.exited hresult
    have hpos : d.state.pos = d.state.buf.length := by
      have hle := h.aligned.pos_le
      omega
    have hexp := h.aligned.expects
    rw [hpos, take_length] at hexp
    obtain ⟨m', hdel, hmatch, hweight⟩ := Matches.filled hplain hexp hpos (h.streams hexited)
      h.known h.channels hparked hresult hexited
    refine ⟨m', hdel, hmatch, fun _ _ _ => hweight.trans_eq ?_⟩
    rw [weight, weight, hfuture]
  · exact ⟨m, .inl rfl, h, fun h1 h2 h3 => absurd ⟨h1, h2, h3⟩ hidle⟩

/-- The connection gives bytes. -/
lemma Matches.read (h : Matches d m) (hplain : Plain m.todo) (n : ℕ) :
    ∃ m', m.Delivers m' ∧ Matches (d.read n) m' ∧
      (d.future = some .reading → 0 < n → d.state.pos + n ≤ d.state.buf.length →
        n ≤ d.input.length → weight (d.read n) m' < weight d m) := by
  rw [Driver.read]
  split_ifs with hcan hmore
  · obtain ⟨hreading, hn, hfit, hinput⟩ := hcan
    obtain ⟨hexp, hlen⟩ := h.aligned.fill hfit hinput
    refine ⟨m, .inl rfl, ⟨⟨hexp, hmore.le, fun _ => hmore, fun l hl => ?_⟩, h.streams, h.known,
      h.channels, h.waiting, h.result⟩, fun _ _ _ _ => ?_⟩
    · cases hreading.symm.trans hl
    · have hless := length_input_fill hinput
      have hsame : readerRank (d.fill n).state.phase (d.fill n).future =
        readerRank d.state.phase d.future := rfl
      rw [weight, weight]
      omega
  · obtain ⟨hreading, hn, hfit, hinput⟩ := hcan
    obtain ⟨hparked, hresult, hexited⟩ := h.of_future (by rw [hreading]; simp)
    obtain ⟨hexp, hlen⟩ := h.aligned.fill hfit hinput
    have hpos : (d.fill n).state.pos = (d.fill n).state.buf.length := by
      have hle : (d.fill n).state.pos ≤ (d.fill n).state.buf.length := hlen ▸ hfit
      omega
    rw [hpos, take_length] at hexp
    obtain ⟨m', hdel, hmatch, hweight⟩ := Matches.filled hplain hexp hpos (h.streams hexited)
      h.known h.channels hparked hresult hexited
    refine ⟨m', hdel, hmatch, fun _ _ _ _ => hweight.trans_le ?_⟩
    have hless := length_input_fill hinput
    have hrank : readerRank (d.fill n).state.phase none =
        readerRank d.state.phase (some .reading) + 1 := rfl
    simp only [weight, hreading]
    omega
  · exact ⟨m, .inl rfl, h, fun h1 h2 h3 h4 => absurd ⟨h1, h2, h3, h4⟩ hcan⟩

lemma Driver.deliverNow_input (d : Driver) (tx : Option UInt16) (event : Event) :
    (d.deliverNow tx event).input = d.input := by
  cases tx with
  | none => rfl
  | some sid =>
    simp only [deliverNow, deliver]
    cases d.channels sid with
    | none => rfl
    | some c =>
      simp only
      split_ifs <;> rfl

/-- The lock has nothing to do with the connection. -/
lemma Driver.locked_input (d : Driver) (l : Locking) : (d.locked l).input = d.input := by
  cases l with
  | close | keepError => exact deliverNow_input _ _ _
  | data =>
    simp only [locked, lockedData]
    split_ifs
    · exact deliverNow_input _ _ _
    · rfl
    · exact deliverNow_input _ _ _

variable (h : Matches d m)
include h

/-- The lock is given to whoever waits for it. -/
lemma Matches.lock :
    ∃ m', m.Delivers m' ∧ Matches d.lock m' ∧
      ∀ l, d.future = some (.locking l) → weight d.lock m' < weight d m := by
  rw [Driver.lock]
  split
  · next l hl =>
    obtain ⟨f, rest, htodo, hmatch⟩ := h.locked hl
    refine ⟨m.deliver f rest, .inr ⟨f, rest, htodo, rfl⟩, hmatch, fun _ _ => ?_⟩
    exact (Nat.lt_succ_self _).trans (weight_deliver_lt htodo
      (congrArg length (locked_input d l)).le)
  · next hno => exact ⟨m, .inl rfl, h, fun l hl => absurd hl (hno l)⟩

lemma Matches.cancel : Matches { d with future := none } m := by
  refine ⟨⟨h.aligned.expects, h.aligned.pos_le, nofun,
    nofun⟩,
    h.streams, h.known, h.channels, fun hf => absurd rfl hf, ?_⟩
  rcases h.result with hr | ⟨hr, htodo, -, hparked⟩
  · exact .inl hr
  · exact .inr ⟨hr, htodo, rfl, hparked⟩

lemma Matches.retry (hidle : d.future = none) (hresult : d.result = none) :
    Matches d.retryParked m := by
  rw [retryParked]
  cases hparked : d.parked with
  | none => exact h
  | some p =>
    obtain ⟨sid, event⟩ := p
    have hchannels := h.channels
    rw [hparked] at hchannels
    obtain ⟨channels, parked, heq, hok⟩ :=
      deliver_spec (d := { d with parked := none }) sid event rfl hchannels
    simp only
    rw [heq]
    exact ⟨h.aligned, h.streams, h.known, hok, fun hf => absurd hidle hf,
      .inl ⟨hresult, h.exited hresult⟩⟩

lemma Matches.eof : Matches d.eof m := by
  rw [Driver.eof]
  split_ifs with hend
  · obtain ⟨hreading, hinput⟩ := hend
    obtain ⟨hparked, -, -⟩ := h.of_future (by rw [hreading]; simp)
    have htodo : m.todo = [] := by
      apply h.aligned.expects.todo_eq_nil
      have hlt := h.aligned.reading hreading
      rw [hinput, append_nil, length_take]
      omega
    have hcancel := h.cancel
    exact ⟨hcancel.aligned, h.streams, h.known, h.channels, hcancel.waiting,
      .inr ⟨rfl, htodo, rfl, hparked⟩⟩
  · exact h

lemma Matches.exit : Matches d.exit m := by
  rw [Driver.exit]
  split
  · next e hresult hexited =>
    rcases h.result with ⟨hr, -⟩ | ⟨hr, htodo, hfuture, hparked⟩
    · cases hresult.symm.trans hr
    · obtain rfl : e = sessionClosed := some.inj (hresult.symm.trans hr)
      refine ⟨h.aligned, nofun, h.known, fun s => ?_, h.waiting,
        .inr ⟨hr, htodo, hfuture, hparked⟩⟩
      have hs := h.channels s
      rw [hparked, hexited] at hs
      rw [← map_id_apply (x := m.due s)]
      apply hs.map fun _ _ => by rw [hparked]; rfl
      intro c due hgot
      simp only [got_false, parkedFor] at hgot
      split_ifs with hroom <;> intro halive
      · refine ⟨[abortEvent sessionClosed], ?_, .inr ⟨rfl, rfl⟩⟩
        simp [push, hparked, parkedFor, ← hgot halive]
      · exact ⟨[], by simp [hparked, parkedFor, hgot halive], .inl rfl⟩
  · exact h

variable (sid : UInt16)

lemma Matches.register : Matches (d.register sid) (m.act (.register sid)) := by
  obtain ⟨hc, hdue, hnil⟩ | ⟨c, due, hc, hdue, -⟩ := (h.channels sid).cases
  · rw [Driver.register, if_pos hc, Session.act, if_pos hdue]
    refine ⟨h.aligned, fun hex => by rw [h.streams hex], fun s hopen => ?_, fun s => ?_,
      h.waiting, h.result⟩ <;> by_cases hs : s = sid
    · simp [hs]
    · simp only [update_of_ne hs] at hopen ⊢
      exact h.known s hopen
    · subst hs
      simp only [update_self]
      exact fun _ => ⟨[], by rw [hnil]; rfl, .inl rfl⟩
    · simp only [update_of_ne hs]
      exact h.channels s
  · rw [Driver.register, if_neg (by simp [hc]), Session.act, if_neg (by simp [hdue])]
    exact h

/-- A stream does something with its channel that keeps what it has got. -/
lemma Matches.update_channel {f}
    (hf : ∀ c parked due, Channel.Got c d.exited parked due → (f c).Got d.exited parked due) :
    Matches { d with channels := update d.channels sid ((d.channels sid).map f) } m := by
  refine ⟨h.aligned, h.streams, h.known, fun s => ?_, h.waiting, h.result⟩
  by_cases hs : s = sid
  · subst hs
    simp only [update_self]
    rw [← map_id_apply (x := m.due s)]
    exact (h.channels s).map (fun _ hp => hp) fun c due hgot => hf c _ due hgot
  · simp only [update_of_ne hs]
    exact h.channels s

lemma Matches.recv : Matches (d.recv sid) m := by
  apply h.update_channel sid
  intro c parked due hgot halive
  obtain ⟨tail, heq, htail⟩ := hgot halive
  refine ⟨tail, ?_, htail⟩
  rw [← heq]
  cases hq : c.queue <;> simp

lemma Matches.dropReceiver : Matches (d.dropReceiver sid) m := by
  apply h.update_channel sid
  intro c parked due hgot halive
  simp at halive

lemma Matches.unregister : Matches { d with streams := update d.streams sid false }
      (m.act (.unregister sid)) := by
  refine ⟨h.aligned, fun hexited => by rw [h.streams hexited]; rfl, fun s hopen => ?_, h.channels,
    h.waiting, h.result⟩
  by_cases hs : s = sid
  · subst hs
    simp [Session.act] at hopen
  · simp only [Session.act, update_of_ne hs] at hopen
    exact h.known s hopen

/-- **One operation** is one of the session, after which at most the next frame is delivered. -/
theorem Matches.step (hplain : Plain m.todo) (op : Op) :
    ∃ m', (m.act op).Delivers m' ∧ Matches (d.step op) m' := by
  have hstay : ∀ {d'}, Matches d' (m.act op) → ∃ m', (m.act op).Delivers m' ∧ Matches d' m' :=
    fun hmatch => ⟨_, .inl rfl, hmatch⟩
  cases op with
  | poll =>
    obtain ⟨m', hdel, hmatch, -⟩ := h.poll hplain
    exact ⟨m', hdel, hmatch⟩
  | read n =>
    obtain ⟨m', hdel, hmatch, -⟩ := h.read hplain n
    exact ⟨m', hdel, hmatch⟩
  | lock =>
    obtain ⟨m', hdel, hmatch, -⟩ := h.lock
    exact ⟨m', hdel, hmatch⟩
  | cancel => exact hstay h.cancel
  | retry =>
    apply hstay
    rw [Driver.step]
    split_ifs with hidle
    · exact h.retry hidle.1 hidle.2
    · exact h
  | eof => exact hstay h.eof
  | exit => exact hstay h.exit
  | register sid => exact hstay (h.register sid)
  | recv sid => exact hstay (h.recv sid)
  | drop sid => exact hstay (h.dropReceiver sid)
  | unregister sid => exact hstay (h.unregister sid)

end Ops

/-! ### Runs -/

lemma Session.act_todo (m : Session) (op : Op) : (m.act op).todo = m.todo := by
  cases op with
  | register sid =>
    simp only [Session.act]
    split_ifs <;> rfl
  | _ => rfl

/-- The frames to come are frames of the server. -/
lemma Session.Reaches.todo_subset {frames ops} (h : Session.Reaches frames ops m) :
    ∀ f ∈ m.todo, f ∈ frames := by
  induction h with
  | start => exact fun f hf => hf
  | act op h ih =>
    rw [Session.act_todo]
    exact ih
  | deliver h hf ih => exact fun f hmem => ih f (by rw [hf]; exact mem_cons_of_mem _ hmem)

lemma Session.Reaches.delivers {frames ops} {m m' : Session} (h : Session.Reaches frames ops m)
    (hdel : m.Delivers m') : Session.Reaches frames ops m' := by
  rcases hdel with rfl | ⟨f, rest, htodo, rfl⟩
  · exact h
  · exact .deliver h htodo

lemma matches_start (frames : List Frame) :
    Matches (start (wires frames)) (Session.start frames) where
  aligned := .of_enter (.metaLen rfl) (length_resize [] 2) rfl
  streams _ := rfl
  known _ h := absurd h (by simp [Session.start])
  channels _ := rfl
  waiting h := absurd rfl h
  result := .inl ⟨rfl, rfl⟩

section Runs

variable {frames : List Frame}

lemma run_matches (hplain : Plain frames) (ops : List Op) :
    ∃ m, Session.Reaches frames ops m ∧ Matches ((start (wires frames)).run ops) m := by
  induction ops using reverseRecOn with
  | nil => exact ⟨_, .start, matches_start frames⟩
  | append_singleton ops op ih =>
    obtain ⟨m, hreach, hmatch⟩ := ih
    obtain ⟨m', hdel, hmatch'⟩ :=
      hmatch.step (fun f hf => hplain f (hreach.todo_subset f hf)) op
    refine ⟨m', (hreach.act op).delivers hdel, ?_⟩
    rw [run, foldl_concat]
    exact hmatch'

/-- The operations of the reader, the scheduler and the streams' receivers: nothing is cancelled,
opened or closed. -/
def Op.isReader : Op → Bool
  | .poll | .read _ | .lock | .retry | .recv _ => true
  | _ => false

/-- While there are frames to come and nothing is parked, the reader can go on. -/
lemma Matches.advance (h : Matches d m) (hplain : Plain m.todo) (hparked : d.parked = none)
    (htodo : m.todo ≠ []) :
    ∃ op : Op, op.isReader ∧ m.act op = m ∧
      ∃ m', m.Delivers m' ∧ Matches (d.step op) m' ∧ weight (d.step op) m' < weight d m := by
  have hresult : d.result = none := by
    rcases h.result with hr | ⟨-, hnil, -⟩
    · exact hr.1
    · exact absurd hnil htodo
  rcases hfuture : d.future with _ | _ | l
  · obtain ⟨m', hdel, hmatch, hweight⟩ := h.poll hplain
    exact ⟨.poll, rfl, rfl, m', hdel, hmatch, hweight hfuture hparked hresult⟩
  · have hlt := h.aligned.reading hfuture
    have hinput : 1 ≤ d.input.length := by
      by_contra hnone
      apply htodo
      apply h.aligned.expects.todo_eq_nil
      rw [length_append, length_take]
      omega
    obtain ⟨m', hdel, hmatch, hweight⟩ := h.read hplain 1
    exact ⟨.read 1, rfl, rfl, m', hdel, hmatch, hweight hfuture one_pos hlt hinput⟩
  · obtain ⟨m', hdel, hmatch, hweight⟩ := h.lock
    exact ⟨.lock, rfl, rfl, m', hdel, hmatch, hweight l hfuture⟩

/-- The reader and the receivers can deliver what is parked. -/
def Unparks (d : Driver) (m : Session) : Prop :=
  ∃ ops : List Op, (∀ op ∈ ops, op.isReader = true ∧ m.act op = m) ∧ Matches (d.run ops) m ∧
    (d.run ops).parked = none ∧ weight (d.run ops) m = weight d m

/-- A parked event is delivered when the queue has room, or dropped when its stream is gone. -/
lemma Matches.unpark_room {sid event} {c : Channel} (h : Matches d m)
    (hparked : d.parked = some (sid, event)) (hc : d.channels sid = some c)
    (hroom : c.alive = false ∨ c.queue.length < STREAM_QUEUE) : Unparks d m := by
  have hfuture : d.future = none := by
    by_contra hne
    simp [h.waiting hne] at hparked
  have hresult : d.result = none := (h.result.resolve_right fun hr => by simp [hr] at hparked).1
  have hstep : d.run [.retry] = d.retryParked := if_pos ⟨hfuture, hresult⟩
  obtain ⟨channels, heq⟩ : ∃ channels, d.retryParked = { d with parked := none, channels } := by
    simp only [retryParked, hparked, Driver.deliver, hc]
    split_ifs with hdead hfull
    · exact ⟨d.channels, rfl⟩
    · exact absurd hfull (not_le.mpr (hroom.resolve_left (by simpa using hdead)))
    · exact ⟨_, rfl⟩
  refine ⟨[.retry], by simp [Op.isReader, Session.act], ?_, ?_, ?_⟩
  · rw [hstep]
    exact h.retry hfuture hresult
  · rw [hstep, heq]
  · rw [hstep, heq]
    rfl

/-- A parked event is delivered once its stream has taken enough events from its queue. -/
lemma Matches.unpark_channel {sid event} (n : ℕ) :
    ∀ {d : Driver} {c : Channel}, Matches d m → d.parked = some (sid, event) →
      d.channels sid = some c → c.queue.length = n → Unparks d m := by
  induction n with
  | zero =>
    intro d c h hparked hc hlen
    exact h.unpark_room hparked hc (.inr (by rw [hlen]; decide))
  | succ n ih =>
    intro d c h hparked hc hlen
    by_cases hfull : c.alive = false ∨ c.queue.length < STREAM_QUEUE
    · exact h.unpark_room hparked hc hfull
    · have hc' : (d.recv sid).channels sid =
          some { c with
            queue := c.queue.tail, received := c.received ++ c.queue.head?.toList } := by
        show update _ _ _ sid = _
        rw [update_self, hc]
        rfl
      obtain ⟨ops, hops, hmatch, hnone, hweight⟩ := ih (h.recv sid) hparked hc'
        (by rw [length_tail, hlen]; rfl)
      exact ⟨.recv sid :: ops, forall_mem_cons.mpr ⟨⟨rfl, rfl⟩, hops⟩, hmatch, hnone, hweight⟩

/-- A parked event is delivered. -/
lemma Matches.unpark (h : Matches d m) : Unparks d m := by
  cases hparked : d.parked with
  | none => exact ⟨[], fun op hop => absurd hop not_mem_nil, h, hparked, rfl⟩
  | some p =>
    obtain ⟨sid, event⟩ := p
    obtain ⟨-, -, hnil⟩ | ⟨c, due, hc, -⟩ := (h.channels sid).cases
    · simp [hparked, parkedFor] at hnil
    · exact unpark_channel c.queue.length h hparked hc rfl

lemma Session.Reaches.acts {ops more} (h : Session.Reaches frames ops m)
    (hmore : ∀ op ∈ more, m.act op = m) : Session.Reaches frames (ops ++ more) m := by
  induction more generalizing ops with
  | nil => rwa [append_nil]
  | cons op more ih =>
    have hop := h.act op
    rw [hmore op mem_cons_self] at hop
    rw [← singleton_append, ← append_assoc]
    exact ih hop fun op' hop' => hmore op' (mem_cons_of_mem op hop')

/-- **The reader gets to the end** of the frames, by its own operations and those of the receivers.

**Proof sketch.** Induction on what is left to do: a parked event is delivered first, then the
reader advances. -/
lemma Matches.finish (hplain : Plain frames)
    (n : ℕ) : ∀ {d : Driver} {m : Session} {ops : List Op}, Session.Reaches frames ops m →
      Matches d m → weight d m = n →
      ∃ more : List Op, (∀ op ∈ more, op.isReader) ∧ ∃ m',
        Session.Reaches frames (ops ++ more) m' ∧ Matches (d.run more) m' ∧ m'.todo = [] ∧
          (d.run more).parked = none := by
  induction n using Nat.strong_induction_on with
  | _ n ih =>
    intro d m ops hreach h hn
    obtain ⟨first, hfirst, hmatch, hparked, hweight⟩ := h.unpark
    have hreach₁ := hreach.acts fun op hop => (hfirst op hop).2
    by_cases htodo : m.todo = []
    · exact ⟨first, fun op hop => (hfirst op hop).1, m, hreach₁, hmatch, htodo, hparked⟩
    · obtain ⟨op, hop, hact, m', hdel, hmatch', hless⟩ := hmatch.advance
        (fun f hf => hplain f (hreach.todo_subset f hf)) hparked htodo
      have hreach₂ := (hact ▸ hreach₁.act op).delivers hdel
      obtain ⟨more, hmore, m'', hreach₃, hmatch'', htodo'', hparked''⟩ :=
        ih _ (by rw [← hn, ← hweight]; exact hless) hreach₂ hmatch' rfl
      have hrun : d.run (first ++ op :: more) = ((d.run first).step op).run more := by
        simp only [run, foldl_append, foldl_cons]
      refine ⟨first ++ op :: more, by grind, m'', by simpa using hreach₃, ?_, htodo'', ?_⟩ <;>
        rwa [hrun]

end Runs

/-- **The frames of a server are delivered.** Let no frame that keeps the session alive carry data.
After every run, whatever the cuts between the reads, the cancellations of the read future and the
queues of the streams, the reader stands inside the next frame, each stream has got the events of
its own frames that were done while it was open, in their order, and the driver has not failed.
And every run can be continued until all frames are delivered, by the reader and by streams that
take events from their queues.

**Proof sketch.** `Matches.step` for each operation; `Matches.finish` for the continuation. -/
theorem run_delivers {frames : List Frame}
    (hplain : ∀ f ∈ frames, f.status = .keepAlive → hasData f.option = false) (ops : List Op) :
    (∃ m, Session.Reaches frames ops m ∧ Matches ((Driver.start (wires frames)).run ops) m) ∧
      ∃ more : List Op, (∀ op ∈ more, op.isReader = true) ∧ ∃ m,
        Session.Reaches frames (ops ++ more) m ∧
          Matches ((Driver.start (wires frames)).run (ops ++ more)) m ∧ m.todo = [] ∧
          ((Driver.start (wires frames)).run (ops ++ more)).parked = none := by
  obtain ⟨m, hreach, hmatch⟩ := run_matches hplain ops
  obtain ⟨more, hmore, m', hreach', hmatch', htodo, hparked⟩ :=
    Matches.finish hplain _ hreach hmatch rfl
  have hrun : (start (wires frames)).run (ops ++ more) =
      ((start (wires frames)).run ops).run more := foldl_append
  refine ⟨⟨m, hreach, hmatch⟩, more, hmore, m', hreach', ?_, htodo, ?_⟩ <;> rwa [hrun]

/-- A frame without destination or other meta bytes. -/
def plainFrame (sessionId : UInt16) (option : UInt8) (payload : List UInt8)
    (h : payload.length < 65536) (status : Status)
    (hclose : status = .close → hasData option = false) : Frame where
  sessionId
  status
  option
  dest := none
  trailing := []
  payload
  extra_le := by decide
  no_dest _ _ := by simp
  close_no_data := hclose
  payload_lt := h

/-- Two streams: data, an error and the end. -/
def sampleFrames : List Frame :=
  [plainFrame 1 OPTION_DATA [1, 2, 3] (by decide) .keep (by simp),
    plainFrame 0 0 [] (by decide) .keepAlive (by simp),
    plainFrame 2 OPTION_ERROR [] (by decide) .close fun _ => rfl,
    plainFrame 1 0 [] (by decide) .close fun _ => rfl]

/-- A run that cancels the read future inside the first meta block. -/
theorem sampleFrames_delivered :
    ∃ m, Session.Reaches sampleFrames
        [.register 1, .poll, .read 2, .poll, .read 1, .cancel, .poll, .read 3] m ∧
      Matches ((Driver.start (wires sampleFrames)).run
        [.register 1, .poll, .read 2, .poll, .read 1, .cancel, .poll, .read 3]) m :=
  (run_delivers (by decide) _).1

/-- A frame that keeps the session alive and carries one byte. -/
def keepAliveData : Frame := plainFrame 0 OPTION_DATA [0xAA] (by decide) .keepAlive (by simp)

/-- **The payload of such a frame is taken for a frame**: its length for the length of a meta block
of one byte, and the driver ends with an error. -/
theorem keepAlive_payload_misread :
    ¬ ∀ (frames : List Frame) (ops : List Op), ∃ m, Session.Reaches frames ops m ∧
      Matches ((Driver.start (wires frames)).run ops) m := by
  intro hall
  obtain ⟨m, -, hmatch⟩ := hall [keepAliveData]
    [.register 1, .poll, .read 2, .poll, .read 4, .poll, .read 2, .poll, .read 1]
  have hresult : ((start (wires [keepAliveData])).run
      [.register 1, .poll, .read 2, .poll, .read 4, .poll, .read 2, .poll, .read 1]).result =
      some ⟨.invalidData, str "mux.cool: meta shorter than 4 bytes"⟩ := by decide +kernel
  rcases hmatch.result with ⟨hr, -⟩ | ⟨hr, -⟩ <;> cases hresult.symm.trans hr

end Meow.Mux.Cool
